import KestrelSdk.Client.Waiters
import KestrelSdk.Service.Streams

/-! What a frame of the service does to the requests that it does not answer. -/

namespace KestrelSdk.Service

open Json Protocol Asyncio

/-- The frames of results and of events, with the request that each answers. -/
inductive Framed : Value → Option Nat → Prop where
  | result (id v : Value) (hid : Identifies id) :
      Framed (JsonRpcResponse.toDict ⟨id, .result v⟩) (Client.Desk.keyOf id)
  | event (params : Dict) : Framed (JsonRpcNotification.toDict ⟨FEATURE_EVENT, params⟩) none

/-- A request stays in the table as it was, and its own response completes it. -/
structure Unharmed (d d' : Client.Desk) (j : Nat) : Prop where
  pending : j ∈ d'.pending ↔ j ∈ d.pending
  future : d'.futures j = d.futures j
  completes : j ∈ d.pending → d.futures j = .pending → ∀ a,
    (d'.answer ⟨.int j, a⟩).futures j = .done (Client.Desk.outcome a)

/-- A frame that affects at most the request that it answers, however it arrives: the client reads
on, and every other request is unharmed. -/
def Isolated (client : Interpreter) (version : Str) (b : Bytes) (answered : Option Nat) : Prop :=
  ∀ c buffer chunks rest, c.mail.read = .reading → buffer ++ chunks.flatten = b ++ rest →
    ∃ c', (Client.machine client version).step c (.signal (receives chunks buffer)) = some c' ∧
      c'.closedExc = c.closedExc ∧ Client.isDone c'.mail.read = false ∧ c'.calls = c.calls ∧
      ∀ j, some j ≠ answered → Unharmed c.desk c'.desk j

theorem answer_completes {d : Client.Desk} {j : Nat} (hp : j ∈ d.pending)
    (hf : d.futures j = .pending) (a : Answer) :
    (d.answer ⟨.int j, a⟩).futures j = .done (Client.Desk.outcome a) := by
  have hkey : Client.Desk.keyOf (.int j) = some j := by
    simp only [Client.Desk.keyOf, Int.natCast_nonneg, if_true, Int.toNat_natCast]
  simp only [Client.Desk.answer, hkey, hp, if_true, Client.Desk.settle, hf, Function.update_self]

theorem Unharmed.of_same {d d' : Client.Desk} {j : Nat} (hp : j ∈ d'.pending ↔ j ∈ d.pending)
    (hf : d'.futures j = d.futures j) : Unharmed d d' j :=
  ⟨hp, hf, fun hpending hfuture a => answer_completes (hp.2 hpending) (hf.trans hfuture) a⟩

theorem settle_other (d : Client.Desk) {i j : Nat} (hij : j ≠ i)
    (r : Except Client.Failure Value) : (d.settle i r).futures j = d.futures j := by
  unfold Client.Desk.settle
  split
  · exact Function.update_of_ne hij _ _
  · rfl

/-- A response changes nothing of the requests that it does not answer. -/
theorem answer_unharmed (d : Client.Desk) (r : JsonRpcResponse) {j : Nat}
    (hj : some j ≠ Client.Desk.keyOf r.id) : Unharmed d (d.answer r) j := by
  unfold Client.Desk.answer
  cases hkey : Client.Desk.keyOf r.id with
  | none => exact .of_same Iff.rfl rfl
  | some i =>
    have hij : j ≠ i := fun he => hj (by rw [hkey, he])
    simp only
    split
    · apply Unharmed.of_same
      · rw [(Client.Desk.settle_frame _ i _).2.2.1]
        exact List.mem_erase_of_ne hij
      · exact settle_other _ hij _
    · exact .of_same Iff.rfl rfl

variable {py client : Interpreter} {version : Str} {data : Value} {b : Bytes}
  {answered : Option Nat}

theorem suspended_not_done {p : Client.Pc} (h : p.Suspended) : Client.isDone p = false := by
  cases p <;> first | rfl | cases h

/-- An event is read back as an event. -/
theorem parse_event (f : Str → PyFloat) (params : Dict) : ∃ params',
    parseMessage (image f (JsonRpcNotification.toDict ⟨FEATURE_EVENT, params⟩)) =
      .ok (.notification ⟨FEATURE_EVENT, params'⟩) := by
  have h1 : imageStr (str "jsonrpc") = str "jsonrpc" := by decide
  have h2 : imageStr (str "method") = str "method" := by decide
  have h3 : imageStr (str "params") = str "params" := by decide
  have h4 : imageStr JSONRPC_VERSION = JSONRPC_VERSION := by decide
  have h5 : imageStr FEATURE_EVENT = FEATURE_EVENT := by decide
  have h6 : Key.str (str "jsonrpc") ≠ Key.str (str "method") := by decide
  have h7 : Key.str (str "jsonrpc") ≠ Key.str (str "params") := by decide
  have h8 : Key.str (str "method") ≠ Key.str (str "params") := by decide
  have hne : FEATURE_EVENT ≠ [] := by decide
  cases params with
  | nil =>
    have himage : image f (JsonRpcNotification.toDict ⟨FEATURE_EVENT, []⟩) =
        JsonRpcNotification.toDict ⟨FEATURE_EVENT, []⟩ := by
      simp only [JsonRpcNotification.toDict, List.isEmpty_nil, if_true, List.append_nil, image,
        imageEntries, Key.text, h1, h2, h4, h5, Dict.set, h6, if_false]
    exact ⟨[], by rw [himage]; rfl⟩
  | cons e params =>
    have himage : image f (JsonRpcNotification.toDict ⟨FEATURE_EVENT, e :: params⟩) =
        .dict [(.str (str "jsonrpc"), .str JSONRPC_VERSION), (.str (str "method"), .str FEATURE_EVENT),
          (.str (str "params"), .dict (imageEntries f [] (e :: params)))] := by
      simp only [JsonRpcNotification.toDict, List.isEmpty_cons, Bool.false_eq_true, if_false,
        List.cons_append, List.nil_append]
      simp only [image]
      simp only [imageEntries, Key.text, h1, h2, h3, image, h4, h5, Dict.set, h6, h7, h8, if_false]
    refine ⟨imageEntries f [] (e :: params), ?_⟩
    rw [himage, parse_method FEATURE_EVENT (imageEntries f [] (e :: params)) (get_field_self _ _ _)
      ?_ hne ?_, get_field (by decide), get_field (by decide), get_field (by decide)]
    · rfl
    · rw [get_field (by decide), get_field_self]
    · rw [get_field (by decide), get_field (by decide), get_field_self]
      rfl

/-- What a frame that the client can decode does to it. -/
theorem framed_unharmed (h : Framed data answered) (hb : encodeMessage py data = .ok b)
    (hd : depth data ≤ client.nesting) {c : Client.State} (hc : c.mail.read = .reading) :
    ∃ c', (Client.machine client version).step c (.signal (.line b)) = some c' ∧
      c'.closedExc = c.closedExc ∧ Client.isDone c'.mail.read = false ∧ c'.calls = c.calls ∧
      ∀ j, some j ≠ answered → Unharmed c.desk c'.desk j := by
  cases h with
  | result id v hid =>
    have hparse : parseMessage (image client.floatOf (JsonRpcResponse.toDict ⟨id, .result v⟩)) =
        .ok (.response ⟨id, .result (image client.floatOf v)⟩) := by
      rw [image_result, hid.image, parseMessage_result hid.isId]
    have hread : Client.isDone c.mail.read = false := by
      rw [hc]
      rfl
    exact ⟨_, Client.step_line hc hb hd hparse, rfl, hread, rfl,
      fun j hj => answer_unharmed c.desk ⟨id, .result (image client.floatOf v)⟩ hj⟩
  | event params =>
    obtain ⟨params', hparse⟩ := parse_event client.floatOf params
    have hreads : Client.isDone (c.mail.receive params').read = false :=
      suspended_not_done (Client.Mail.enter_read _ _)
    have hstep := Client.step_line (v := version) hc hb hd hparse
    simp only [Client.Engine.readMessage, if_true] at hstep
    exact ⟨_, hstep, rfl, hreads, rfl, fun j _ => .of_same Iff.rfl rfl⟩

/-- A frame is isolated exactly where its line is within the limit of the stream and its value within
the nesting of the decoder. -/
theorem isolated_iff_fits (h : Framed data answered) (hb : encodeMessage py data = .ok b) :
    Isolated client version b answered ↔
      lineLength b ≤ DEFAULT_LIMIT ∧ depth data ≤ client.nesting := by
  constructor
  · intro hiso
    have hs : b ++ ([] : List Bytes).flatten = b ++ [] := rfl
    obtain ⟨c', hstep, -, hread, -⟩ := hiso { mail := { read := .reading } } b [] [] rfl hs
    rw [receives_frame hb hs] at hstep
    by_cases hle : lineLength b ≤ DEFAULT_LIMIT
    · refine ⟨hle, ?_⟩
      by_contra hdeep
      rw [if_pos hle] at hstep
      simp only [Client.machine, Client.step, Client.Engine.step, Client.Engine.readLine,
        decodeMessage_encodeMessage hb, if_neg hdeep, Option.map_some] at hstep
      cases hstep
      cases hread
    · rw [if_neg hle] at hstep
      cases hstep
      cases hread
  · intro hfits c buffer chunks rest hc hs
    obtain ⟨hle, hd⟩ := hfits
    rw [receives_frame hb hs, if_pos hle]
    exact framed_unharmed h hb hd hc

theorem isolated_iff_fits_event : ∃ b,
    encodeMessage .floatless (JsonRpcNotification.toDict ⟨FEATURE_EVENT, []⟩) = .ok b ∧
      Isolated .floatless [] b none := by
  obtain ⟨b, hb⟩ : ∃ b, encodeMessage .floatless
    (JsonRpcNotification.toDict ⟨FEATURE_EVENT, []⟩) = .ok b := ⟨_, rfl⟩
  have hfits : lineLength b ≤ DEFAULT_LIMIT ∧
      depth (JsonRpcNotification.toDict ⟨FEATURE_EVENT, []⟩) ≤ Interpreter.floatless.nesting := by
    cases hb
    decide
  exact ⟨b, hb, (isolated_iff_fits (.event []) hb).2 hfits⟩

/-- A client that waits for two responses. -/
def waitingTwice : Client.State :=
  { mail := { read := .reading }, desk := { nextId := 2, pending := [1, 2] } }

/-- A result of 64 KiB fails the request beside its own. -/
theorem oversize_result_fails_beside : ∃ b c',
    encodeMessage .floatless (JsonRpcResponse.toDict
      ⟨.int (1 : Nat), .result (.str (List.replicate 65534 97))⟩) = .ok b ∧
    (Client.machine .floatless []).step waitingTwice (.signal (receives [] b)) = some c' ∧
    c'.closedExc = some .connection ∧
    c'.desk.futures 2 = .done (.error (.terminal .connection)) ∧
    ¬ Isolated .floatless [] b (some 1) := by
  have hdumps := dumps_replicate 65534
  have hdepth : depth (.str (List.replicate 65534 97)) + 1 ≤ Interpreter.floatless.nesting := by
    decide
  obtain ⟨b, hb⟩ : ∃ b, encodeMessage .floatless (JsonRpcResponse.toDict
      ⟨.int (1 : Nat), .result (.str (List.replicate 65534 97))⟩) = .ok b :=
    encode_result identifies_one hdumps hdepth
  have hlong : ¬ lineLength b ≤ DEFAULT_LIMIT := by
    rw [result_length hb, payloadLength_replicate]
    decide
  have hs : b ++ ([] : List Bytes).flatten = b ++ [] := rfl
  have hread : receives [] b = .readFails .connection := by
    rw [receives_frame hb hs, if_neg hlong]
  refine ⟨b, waitingTwice.setEngine (waitingTwice.endRead .connection), hb, ?_, rfl, rfl, ?_⟩
  · rw [hread]
    rfl
  · intro hiso
    obtain ⟨c', hstep, hclosed, -⟩ := hiso waitingTwice b [] [] rfl hs
    rw [hread] at hstep
    cases hstep
    cases hclosed

end KestrelSdk.Service

import KestrelSdk.Client.Step
import KestrelSdk.Service.Handle

/-! What the client reads in the frames of the service. -/

namespace KestrelSdk.Service

open Json Protocol

theorem imageStr_eq_nil (s : Str) : imageStr s = [] ↔ s = [] := by
  have hjoin : ∀ (a : Nat) (s : Str), joinSurrogates (a :: s) ≠ [] := by
    intro a s
    cases s with
    | nil => exact List.cons_ne_nil a []
    | cons b s =>
      unfold joinSurrogates
      split
      · exact List.cons_ne_nil _ _
      · exact List.cons_ne_nil _ _
  cases s with
  | nil => exact iff_of_true rfl rfl
  | cons c s =>
    have hunits : ∃ a t, units c ++ s.flatMap units = a :: t := by
      unfold units
      split
      · exact ⟨_, _, rfl⟩
      · exact ⟨_, _, rfl⟩
    obtain ⟨a, t, hat⟩ := hunits
    have hne : imageStr (c :: s) ≠ [] := by
      unfold imageStr
      rw [List.flatMap_cons, hat]
      exact hjoin a t
    exact iff_of_false hne (List.cons_ne_nil c s)

/-- The identifiers of requests, as values. -/
theorem parseId_cases {v id : Value} (h : parseId v = .ok id) :
    id = v ∧ IsId id ∧
      (id = .none ∨ (∃ b, id = .bool b) ∨ (∃ i, id = .int i) ∨ ∃ s, id = .str s) := by
  cases v with
  | none =>
    cases h
    exact ⟨rfl, rfl, .inl rfl⟩
  | bool b =>
    cases h
    exact ⟨rfl, rfl, .inr (.inl ⟨b, rfl⟩)⟩
  | int i =>
    cases h
    exact ⟨rfl, rfl, .inr (.inr (.inl ⟨i, rfl⟩))⟩
  | str s =>
    cases h
    exact ⟨rfl, rfl, .inr (.inr (.inr ⟨s, rfl⟩))⟩
  | _ => cases h

theorem parseMessage_params {d : Dict} {method : Str} {params : Dict} {r : JsonRpcRequest}
    (h : (match Dict.get d (str "id") with
      | some id => do
        let id ← parseId id
        return .request ⟨method, params, id⟩
      | none => return .notification ⟨method, params⟩) = Except.ok (JsonRpcMessage.request r)) :
    ∃ id, Dict.get d (str "id") = some id ∧ parseId id = .ok r.id := by
  cases hid : Dict.get d (str "id") with
  | none =>
    rw [hid] at h
    cases h
  | some id =>
    simp only [hid] at h
    obtain ⟨_, hp, h⟩ := Checks.bind_ok_iff.1 h
    cases h
    exact ⟨id, rfl, hp⟩

theorem parseMessage_request_id {raw : Value} {r : JsonRpcRequest}
    (h : parseMessage raw = .ok (.request r)) :
    ∃ d id, raw = .dict d ∧ Dict.get d (str "id") = some id ∧ parseId id = .ok r.id := by
  cases raw with
  | dict d =>
    suffices ∃ id, Dict.get d (str "id") = some id ∧ parseId id = .ok r.id by
      obtain ⟨id, hid, hp⟩ := this
      exact ⟨d, id, rfl, hid, hp⟩
    simp only [parseMessage] at h
    split at h
    · split at h
      · split at h
        · obtain ⟨method, -, h⟩ := Checks.bind_ok_iff.1 h
          split at h
          · exact parseMessage_params h
          · exact parseMessage_params h
          · exact parseMessage_params h
          · cases h
        · split at h
          · cases h
          · split at h
            · obtain ⟨_, -, h⟩ := Checks.bind_ok_iff.1 h
              obtain ⟨_, -, h⟩ := Checks.bind_ok_iff.1 h
              obtain ⟨_, -, h⟩ := Checks.bind_ok_iff.1 h
              cases h
            · cases h
            · split at h
              · cases h
              · obtain ⟨_, -, h⟩ := Checks.bind_ok_iff.1 h
                cases h
      · cases h
    · cases h
  | _ => cases h

/-- The identifier of a request that the service decoded: a flat value that the service encodes and
every client reads back. -/
structure Identifies (id : Value) : Prop where
  isId : IsId id
  flat : depth id = 0
  dumped : ∀ n, ∃ t, dump n id = .ok t
  image : ∀ f, image f id = id

theorem request_identifies {py : Interpreter} {line : Bytes} {r : JsonRpcRequest}
    (h : decodeMessage py line = .ok (.request r)) : Identifies r.id := by
  unfold decodeMessage at h
  cases htext : decodeUtf8 line with
  | none =>
    rw [htext] at h
    cases h
  | some text =>
    simp only [htext] at h
    cases hload : py.loads text with
    | error e =>
      rw [hload] at h
      cases e with
      | decode msg => cases h
      | recursion => cases h
      | digits => cases h
    | ok raw =>
      simp only [hload] at h
      obtain ⟨d, id, rfl, hget, hparse⟩ := parseMessage_request_id h
      obtain ⟨heq, hid, hflat⟩ := parseId_cases hparse
      have hd : Loaded (.dict d) := loads_loaded (decodeUtf8_unicode htext) hload
      have hl : Loaded r.id := heq ▸ loaded_get hd hget
      constructor
      · exact hid
      · rcases hflat with hv | ⟨_, hv⟩ | ⟨_, hv⟩ | ⟨_, hv⟩ <;> rw [hv] <;> rfl
      · exact fun n => (dump_loaded_flat py.floatOf hl hflat n).1
      · exact fun f => (dump_loaded_flat f hl hflat 0).2

/-- `str()` of an exception, none where it raises or where no clause reads it. -/
def Exn.text : Exn → Option Str
  | .protocol text => text
  | .exception text => text
  | .cancelled => none

/-- The requests whose error responses show `str()` of the exception. -/
def Shows (r : JsonRpcRequest) : Prop :=
  r.method ≠ CONFIG_TRANSITION ∧ r.method ≠ HOST_INGRESS ∧
    (r.method = INITIALIZE → ∀ d, r.params.get (str "config") ≠ some (.dict d))

theorem errorMessage_of_shows {r : JsonRpcRequest} (h : Shows r) (text : Option Str) :
    errorMessage r text = text := by
  obtain ⟨hm, hi, hcfg⟩ := h
  unfold errorMessage
  rw [if_neg hm, if_neg hi]
  split
  · rename_i d hd
    rw [if_neg fun hinit => hcfg hinit d hd]
  · rfl

theorem errorMessage_of_hidden {r : JsonRpcRequest} (h : ¬ Shows r) (text : Option Str) :
    ∃ message, message ≠ [] ∧ errorMessage r text = some message := by
  unfold errorMessage
  by_cases hm : r.method = CONFIG_TRANSITION
  · exact ⟨_, by decide, if_pos hm⟩
  · rw [if_neg hm]
    by_cases hi : r.method = HOST_INGRESS
    · exact ⟨_, by decide, if_pos hi⟩
    · rw [if_neg hi]
      split
      · by_cases hinit : r.method = INITIALIZE
        · exact ⟨_, by decide, if_pos hinit⟩
        · exact absurd ⟨hm, hi, fun h => absurd h hinit⟩ h
      · rename_i hd
        exact absurd ⟨hm, hi, fun _ d hc => hd d hc⟩ h

theorem errorMessage_eq_nil (r : JsonRpcRequest) (text : Option Str) :
    errorMessage r text = some [] ↔ Shows r ∧ text = some [] := by
  by_cases h : Shows r
  · rw [errorMessage_of_shows h, and_iff_right h]
  · obtain ⟨message, hne, hm⟩ := errorMessage_of_hidden h text
    rw [hm, Option.some.injEq]
    exact iff_of_false hne fun hs => h hs.1

theorem errorMessage_eq_none (r : JsonRpcRequest) (text : Option Str) :
    errorMessage r text = none ↔ Shows r ∧ text = none := by
  by_cases h : Shows r
  · rw [errorMessage_of_shows h, and_iff_right h]
  · obtain ⟨message, -, hm⟩ := errorMessage_of_hidden h text
    rw [hm]
    exact iff_of_false (Option.some_ne_none message) fun hs => h hs.1

instance decidableShows (r : JsonRpcRequest) : Decidable (Shows r) :=
  decidable_of_iff (errorMessage r none = none)
    ((errorMessage_eq_none r none).trans (and_iff_left rfl))

/-- The error response of an exception. -/
theorem rescue_error {r : JsonRpcRequest} {c : Bool} {e : Exn} {response : JsonRpcResponse}
    (h : rescue r c e = some response) :
    ∃ (code : Int) (message : Str), response = ⟨r.id, .error ⟨.int code, message, .none⟩⟩ ∧
      (code = -32602 ∨ code = -32603) ∧ (message = [] ↔ Shows r ∧ e.text = some []) := by
  have hshown : ∀ {text : Option Str} {message : Str}, errorMessage r text = some message →
      (message = [] ↔ Shows r ∧ text = some []) := by
    intro text message hm
    rw [← errorMessage_eq_nil, hm, Option.some.injEq]
  cases e with
  | protocol text =>
    obtain ⟨message, hm, rfl⟩ := Option.map_eq_some_iff.1 h
    exact ⟨_, message, rfl, .inl rfl, hshown hm⟩
  | exception text =>
    obtain ⟨message, hm, rfl⟩ := Option.map_eq_some_iff.1 h
    exact ⟨_, message, rfl, .inr rfl, hshown hm⟩
  | cancelled =>
    simp only [rescue] at h
    split at h
    · cases h
    · obtain rfl := Option.some.inj h
      have hne : str "host ingress failed" ≠ [] := by decide
      exact ⟨_, _, rfl, .inl rfl, iff_of_false hne fun hs => by cases hs.2⟩

/-- The exception that `_handle_request` answers: that of the hook, or that of `json.dumps` on its
result. -/
def failure (rt : Runtime) (r : JsonRpcRequest) : Except Exn Value → Option Exn
  | .error e => some e
  | .ok v =>
    match encode rt ⟨r.id, .result v⟩ with
    | .ok _ => none
    | .error e => some e

theorem encode_ok {rt : Runtime} {response : JsonRpcResponse} {b : Bytes}
    (h : encode rt response = .ok b) : encodeMessage rt.py response.toDict = .ok b := by
  unfold encode at h
  cases hb : encodeMessage rt.py response.toDict with
  | error e =>
    rw [hb] at h
    cases h
  | ok b' =>
    rw [hb] at h
    cases h
    rfl

/-- The frame that `_handle_request` writes: its result, or the error of its exception. -/
theorem respond_some {rt : Runtime} {r : JsonRpcRequest} {result : Except Exn Value} {b : Bytes}
    (h : respond rt r result = some b) :
    (∃ v, result = .ok v ∧ failure rt r result = none ∧
      encodeMessage rt.py (JsonRpcResponse.toDict ⟨r.id, .result v⟩) = .ok b) ∨
    ∃ e response, failure rt r result = some e ∧ rescue r false e = some response ∧
      encodeMessage rt.py response.toDict = .ok b := by
  have hfailure : ∀ e, ((rescue r false e).bind fun response =>
      (encode rt response).toOption) = some b →
      ∃ response, rescue r false e = some response ∧
        encodeMessage rt.py response.toDict = .ok b := by
    intro e he
    obtain ⟨response, hr, hb⟩ := Option.bind_eq_some_iff.1 he
    cases hb' : encode rt response with
    | error _ =>
      rw [hb'] at hb
      cases hb
    | ok b' =>
      rw [hb'] at hb
      cases hb
      exact ⟨response, hr, encode_ok hb'⟩
  unfold respond at h
  cases result with
  | error e =>
    obtain ⟨response, hr, hb⟩ := hfailure e h
    exact .inr ⟨e, response, rfl, hr, hb⟩
  | ok v =>
    simp only at h
    cases hv : encode rt ⟨r.id, .result v⟩ with
    | ok b' =>
      rw [hv] at h
      cases h
      refine .inl ⟨v, rfl, ?_, encode_ok hv⟩
      simp only [failure, hv]
    | error e =>
      rw [hv] at h
      obtain ⟨response, hr, hb⟩ := hfailure e h
      refine .inr ⟨e, response, ?_, hr, hb⟩
      simp only [failure, hv]

/-- A frame reaches the caller: the client decodes it to a response under the identifier of the
request, with the result of the handler or an error. -/
def Delivered (peer : Interpreter) (r : JsonRpcRequest) (result : Except Exn Value) (b : Bytes) :
    Prop :=
  ∃ answer, decodeMessage peer b = .ok (.response ⟨r.id, answer⟩) ∧
    ((∃ v, result = .ok v ∧ answer = .result (image peer.floatOf v)) ∨ ∃ e, answer = .error e)

/-- A frame leaves the read loop of a client as it is, whatever the client waits for. -/
def Harmless (peer : Interpreter) (b : Bytes) : Prop :=
  ∀ (p : Str) (s : Client.State), s.mail.read = .reading →
    ∃ s', (Client.machine peer p).step s (.signal (.line b)) = some s' ∧ s'.mail = s.mail ∧
      s'.closedExc = s.closedExc

theorem harmless_of_response {peer : Interpreter} {b : Bytes} {r : JsonRpcResponse}
    (h : decodeMessage peer b = .ok (.response r)) : Harmless peer b := by
  intro p s hs
  refine ⟨s.setEngine (s.readMessage (.response r)), ?_, rfl, rfl⟩
  simp only [Client.machine, Client.step, Client.Engine.step, hs, Client.Engine.readLine, h,
    Option.map_some]

/-- An outcome whose frame the client can read. -/
def Readable (rt : Runtime) (peer : Interpreter) (r : JsonRpcRequest) (result : Except Exn Value) :
    Prop :=
  match failure rt r result with
  | some e => 2 ≤ peer.nesting ∧ ¬ (Shows r ∧ e.text = some [])
  | none => ∀ v, result = .ok v → depth v < peer.nesting

theorem decode_result {rt : Runtime} (peer : Interpreter) {id v : Value} {b : Bytes}
    (hid : Identifies id)
    (hb : encodeMessage rt.py (JsonRpcResponse.toDict ⟨id, .result v⟩) = .ok b) :
    decodeMessage peer b = if depth v < peer.nesting then
      .ok (.response ⟨id, .result (image peer.floatOf v)⟩) else .error .recursion := by
  have hdepth : depth (JsonRpcResponse.toDict ⟨id, .result v⟩) = depth v + 1 := by
    simp [JsonRpcResponse.toDict, depth, depthEntries, hid.flat]
  rw [decodeMessage_encodeMessage hb, image_result, hid.image, parseMessage_result hid.isId, hdepth]
  rfl

theorem decode_failure {rt : Runtime} (peer : Interpreter) {id : Value} {code : Int} {message : Str}
    {b : Bytes} (hid : Identifies id)
    (hb : encodeMessage rt.py
      (JsonRpcResponse.toDict ⟨id, .error ⟨.int code, message, .none⟩⟩) = .ok b) :
    decodeMessage peer b = if 2 ≤ peer.nesting then
      if message = [] then .error (.protocol (str "message must be a non-empty string"))
      else .ok (.response ⟨id, .error ⟨.int code, imageStr message, .none⟩⟩)
      else .error .recursion := by
  have hdepth : depth (JsonRpcResponse.toDict ⟨id, .error ⟨.int code, message, .none⟩⟩) = 2 := by
    simp [JsonRpcResponse.toDict, JsonRpcError.toDict, depth, depthEntries, hid.flat]
  rw [decodeMessage_encodeMessage hb, image_error, hid.image, parseMessage_error hid.isId, hdepth]
  simp only [imageStr_eq_nil]

/-- The frame of a request is one that the client reads, and that ends no other request, exactly
where its result nests no deeper than the client decodes or its error has a text. -/
theorem delivered_iff_readable {rt : Runtime} (peer : Interpreter) {line : Bytes}
    {r : JsonRpcRequest} (hr : decodeMessage rt.py line = .ok (.request r))
    {result : Except Exn Value} {b : Bytes} (hb : respond rt r result = some b) :
    Delivered peer r result b ∧ Harmless peer b ↔ Readable rt peer r result := by
  have hid := request_identifies hr
  unfold Readable
  rcases respond_some hb with ⟨v, rfl, hf, hb⟩ | ⟨e, response, hf, hresponse, hb⟩
  · have hd := decode_result peer hid hb
    simp only [hf]
    constructor
    · intro ⟨⟨answer, hanswer, _⟩, _⟩ w hw
      cases hw
      by_contra hdeep
      rw [hd, if_neg hdeep] at hanswer
      cases hanswer
    · intro hdeep
      rw [if_pos (hdeep v rfl)] at hd
      exact ⟨⟨_, hd, .inl ⟨v, rfl, rfl⟩⟩, harmless_of_response hd⟩
  · obtain ⟨code, message, rfl, -, hnil⟩ := rescue_error hresponse
    have hd := decode_failure peer hid hb
    simp only [hf]
    rw [← hnil]
    constructor
    · intro ⟨⟨answer, hanswer, _⟩, _⟩
      by_cases hdeep : 2 ≤ peer.nesting
      · refine ⟨hdeep, fun hm => ?_⟩
        rw [hd, if_pos hdeep, if_pos hm] at hanswer
        cases hanswer
      · rw [hd, if_neg hdeep] at hanswer
        cases hanswer
    · intro ⟨hdeep, hm⟩
      rw [if_pos hdeep, if_neg hm] at hd
      exact ⟨⟨_, hd, .inr ⟨_, rfl⟩⟩, harmless_of_response hd⟩

/-- A line that asks for the tools. -/
theorem sampleRequest :
    ∃ line, decodeMessage sampleRuntime.py line = .ok (.request ⟨TOOLS_LIST, [], .int 1⟩) := by
  obtain ⟨line, hline⟩ : ∃ line, encodeMessage .floatless
    (JsonRpcRequest.toDict ⟨TOOLS_LIST, [], .int 1⟩) = .ok line := ⟨_, rfl⟩
  exact ⟨line, (decodeMessage_encodeMessage hline).trans rfl⟩

theorem delivered_iff_readable_tools :
    ∃ b, Delivered .floatless ⟨TOOLS_LIST, [], .int 1⟩ (.ok (.dict [])) b ∧ Harmless .floatless b := by
  obtain ⟨line, hline⟩ := sampleRequest
  obtain ⟨b, hb⟩ : ∃ b, respond sampleRuntime ⟨TOOLS_LIST, [], .int 1⟩ (.ok (.dict [])) = some b :=
    ⟨_, rfl⟩
  refine ⟨b, (delivered_iff_readable .floatless hline hb).2 ?_⟩
  intro v hv
  cases hv
  decide

/-- A handler that raises `Exception()` ends the read loop of the client, and with it every request
that the client waits for. -/
theorem silent_exception_ends_the_read_loop :
    ∃ line b, decodeMessage sampleRuntime.py line = .ok (.request ⟨TOOLS_LIST, [], .int 1⟩) ∧
      respond sampleRuntime ⟨TOOLS_LIST, [], .int 1⟩ (.error (.exception (some []))) = some b ∧
      (¬ ∃ response, decodeMessage .floatless b = .ok (.response response)) ∧
      ∀ (p : Str) (s : Client.State), s.mail.read = .reading →
        (Client.machine .floatless p).step s (.signal (.line b)) =
          some (s.setEngine (s.endRead .protocol)) := by
  obtain ⟨line, hline⟩ := sampleRequest
  obtain ⟨b, hb⟩ : ∃ b, encodeMessage sampleRuntime.py
    (JsonRpcResponse.toDict ⟨.int 1, .error ⟨.int (-32603), [], .none⟩⟩) = .ok b := ⟨_, rfl⟩
  have hrespond : respond sampleRuntime ⟨TOOLS_LIST, [], .int 1⟩
      (.error (.exception (some []))) = some b := by
    cases hb
    rfl
  have hd : decodeMessage .floatless b =
      .error (.protocol (str "message must be a non-empty string")) := by
    rw [decode_failure .floatless (request_identifies hline) hb]
    rfl
  refine ⟨line, b, hline, hrespond, ?_, ?_⟩
  · intro ⟨response, h⟩
    rw [hd] at h
    cases h
  · intro p s hs
    simp only [Client.machine, Client.step, Client.Engine.step, hs, Client.Engine.readLine, hd,
      Option.map_some]

end KestrelSdk.Service

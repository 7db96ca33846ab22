import KestrelSdk.Client.Calls
import KestrelSdk.Link.Agreement
import KestrelSdk.Service.Hooks

/-! What a call of a host returns, and what its child did for it. -/

namespace KestrelSdk.Link

open Json Protocol Asyncio Service

variable {k : Peers} {s s' : Session}

/-- The request of a frame, as the service decodes it. -/
def received (k : Peers) (id : Nat) (method : Str) (params : Dict) : JsonRpcRequest :=
  ⟨imageStr method, imageEntries k.child.py.floatOf [] params, .int id⟩

/-- What an action of a session tells of the hook of job `i`. -/
def Action.told (i : Nat) : Action → List Outcome
  | .service a => a.told i
  | _ => []

/-- What the hook of job `i` came to in a run. -/
def history (i : Nat) (as : List Action) : List Outcome := as.flatMap (Action.told i)

theorem parse_unnamed {d : Dict} {r : JsonRpcRequest} (hv : d.get (str "jsonrpc") = some (.str JSONRPC_VERSION))
    (hm : d.get (str "method") = some (.str [])) : parseMessage (.dict d) ≠ .ok (.request r) := by
  have hmethod : requireStr d "method" =
      .error (.protocol (str "method" ++ str " must be a non-empty string")) := by
    unfold requireStr
    rw [hm]
  intro h
  simp only [parseMessage, hv, if_true, Dict.has, hm, Option.isSome_some, hmethod] at h
  cases h

theorem read_image (f : Str → PyFloat) (params : Dict) :
    readParams (Dict.get (if params.isEmpty then [] else
      [(.str (str "params"), .dict (imageEntries f [] params))]) (str "params")) =
      .ok (imageEntries f [] params) := by
  cases params with
  | nil => rfl
  | cons e es =>
    show readParams (Dict.get [(.str (str "params"), .dict (imageEntries f [] (e :: es)))]
      (str "params")) = _
    rw [get_field_self]
    rfl

/-- The service reads the very request that the client wrote. -/
theorem requested_eq {g : Client.Frame} {r : JsonRpcRequest} (h : requested k g = some r) :
    r = received k g.id g.method g.params := by
  obtain ⟨b, hb, hr⟩ := Option.bind_eq_some_iff.1 h
  have hd := requestOf_some hr
  rw [decodeMessage_encodeMessage (frameBytes_some hb)] at hd
  split at hd
  · have hversion : imageStr JSONRPC_VERSION = JSONRPC_VERSION := by decide
    have hi : parseId (.int (g.id : Int)) = .ok (.int g.id) := rfl
    rw [image_requestDict] at hd
    simp only [List.cons_append, List.nil_append, image, hversion] at hd
    by_cases hm : imageStr g.method = []
    · refine absurd hd (parse_unnamed (get_field_self _ _ _) ?_)
      rw [get_field (by decide), get_field (by decide), get_field_self, hm]
    · rw [parse_method (imageStr g.method) (imageEntries k.child.py.floatOf [] g.params)
        (get_field_self _ _ _) ?_ hm ?_, get_field (by decide), get_field_self] at hd
      · simp only [hi] at hd
        cases hd
        rfl
      · rw [get_field (by decide), get_field (by decide), get_field_self]
      · rw [get_field (by decide), get_field (by decide), get_field (by decide)]
        exact read_image k.child.py.floatOf g.params
  · cases hd

/-- A frame with an error is an error response. -/
theorem parse_failure {d es : Dict} {id : Value} {x : JsonRpcResponse}
    (hv : d.get (str "jsonrpc") = some (.str JSONRPC_VERSION)) (hm : d.get (str "method") = none)
    (hid : d.get (str "id") = some id) (he : d.get (str "error") = some (.dict es))
    (h : parseMessage (.dict d) = .ok (.response x)) : ∃ e, x.answer = .error e := by
  simp only [parseMessage, hv, if_true, Dict.has, hm, Option.isSome_none, Bool.false_eq_true,
    if_false, hid, he] at h
  obtain ⟨_, -, h⟩ := Checks.bind_ok_iff.1 h
  obtain ⟨_, -, h⟩ := Checks.bind_ok_iff.1 h
  obtain ⟨_, -, h⟩ := Checks.bind_ok_iff.1 h
  cases h
  exact ⟨_, rfl⟩

theorem image_errorDict (f : Str → PyFloat) (e : JsonRpcError) : ∃ es, image f e.toDict = .dict es := by
  unfold JsonRpcError.toDict
  exact ⟨_, rfl⟩

/-- A client that decodes a result decodes that of the service. -/
theorem result_of_answer {rt : Runtime} {peer : Interpreter} {id v : Value} {answer : Answer}
    {b : Bytes} {x : JsonRpcResponse} (hid : Identifies id)
    (hb : encodeMessage rt.py (JsonRpcResponse.toDict ⟨id, answer⟩) = .ok b)
    (hx : decodeMessage peer b = .ok (.response x)) (hv : x.answer = .result v) :
    ∃ u, answer = .result u ∧ v = image peer.floatOf u := by
  cases answer with
  | result u =>
    rw [decode_result peer hid hb] at hx
    split at hx
    · cases hx
      cases hv
      exact ⟨u, rfl, rfl⟩
    · cases hx
  | error e =>
    rw [decodeMessage_encodeMessage hb] at hx
    split at hx
    · have hversion : imageStr JSONRPC_VERSION = JSONRPC_VERSION := by decide
      obtain ⟨es, hes⟩ := image_errorDict peer.floatOf e
      have hfields : image peer.floatOf (JsonRpcResponse.toDict ⟨id, .error e⟩) =
          .dict [(.str (str "jsonrpc"), .str JSONRPC_VERSION), (.str (str "id"), id),
            (.str (str "error"), .dict es)] := by
        unfold JsonRpcResponse.toDict
        rw [image_fields peer.floatOf ["jsonrpc", "id", "error"] rfl (by decide)]
        simp only [List.map_cons, List.map_nil, hes, hid.image, image, hversion]
      rw [hfields] at hx
      have hmethod : Dict.get [(.str (str "jsonrpc"), .str JSONRPC_VERSION), (.str (str "id"), id),
          (.str (str "error"), .dict es)] (str "method") = none := by
        rw [get_field (by decide), get_field (by decide), get_field (by decide)]
        rfl
      have herror : Dict.get [(.str (str "jsonrpc"), .str JSONRPC_VERSION), (.str (str "id"), id),
          (.str (str "error"), .dict es)] (str "error") = some (.dict es) := by
        rw [get_field (by decide), get_field (by decide), get_field_self]
      obtain ⟨e', he'⟩ := parse_failure (get_field_self _ _ _) hmethod (get_id _ _ _) herror hx
      rw [hv] at he'
      cases he'
    · cases hx

/-- A step of a session, for its client. -/
theorem step_answering {a : Action} (hl : s.Linked k) (h : step k s a = some s') :
    s'.client = s.client ∨
      ∃ b, (Client.answering k.host k.hostVersion).step s.client b = some s'.client := by
  cases a with
  | client a =>
    simp only [step] at h
    split at h
    · cases h
    · rename_i ha
      obtain ⟨c, hc, rfl⟩ := Option.map_eq_some_iff.1 h
      exact .inr ⟨a, Machine.step_restrict (solicited_local (Bool.eq_false_iff.2 ha)) hc⟩
  | service a =>
    simp only [step] at h
    split at h
    · cases h
    · obtain ⟨l, -, rfl⟩ := Option.map_eq_some_iff.1 h
      exact .inl rfl
  | takes =>
    simp only [step] at h
    split at h
    · cases h
    · obtain ⟨l, -, rfl⟩ := Option.map_eq_some_iff.1 h
      exact .inl rfl
  | reads =>
    simp only [step] at h
    split at h
    · cases h
    · rename_i f hf
      obtain ⟨c, hc, rfl⟩ := Option.map_eq_some_iff.1 h
      exact .inr ⟨_, Machine.step_restrict (hl.solicits (List.mem_of_getElem? hf)) hc⟩

/-- A step of a session, for its service. -/
theorem step_served {a : Action} (h : step k s a = some s') :
    (s'.service = s.service ∧ ∀ i, a.told i = []) ∨
      ∃ b, Service.step k.child k.raised k.childVersion s.service.server b = some s'.service.server ∧
        ∀ i, a.told i = b.told i := by
  have hserver : ∀ {b l}, s.service.step k.child k.raised k.childVersion b = some l →
      Service.step k.child k.raised k.childVersion s.service.server b = some l.server := by
    intro b l hl
    obtain ⟨server, hserver, rfl⟩ := Option.map_eq_some_iff.1 hl
    exact hserver
  cases a with
  | client a =>
    simp only [step] at h
    split at h
    · cases h
    · obtain ⟨c, -, rfl⟩ := Option.map_eq_some_iff.1 h
      exact .inl ⟨rfl, fun _ => rfl⟩
  | service a =>
    simp only [step] at h
    split at h
    · cases h
    · obtain ⟨l, hl, rfl⟩ := Option.map_eq_some_iff.1 h
      exact .inr ⟨a, hserver hl, fun _ => rfl⟩
  | takes =>
    simp only [step] at h
    split at h
    · cases h
    · rename_i b hb
      obtain ⟨l, hl, rfl⟩ := Option.map_eq_some_iff.1 h
      exact .inr ⟨.line b, hserver hl, fun _ => rfl⟩
  | reads =>
    simp only [step] at h
    split at h
    · cases h
    · obtain ⟨c, -, rfl⟩ := Option.map_eq_some_iff.1 h
      exact .inl ⟨rfl, fun _ => rfl⟩

/-- What holds of a run of a session. -/
structure Session.Conversed (k : Peers) (as : List Action) (s : Session) : Prop where
  linked : s.Linked k
  spoken : s.client.Spoken k.host k.hostVersion
  earning : Earning k.child (history · as) s.service.server

theorem Session.Conversed.step {a : Action} {as : List Action} (h : s.Conversed k as)
    (hs : Link.step k s a = some s') : s'.Conversed k (as ++ [a]) := by
  have hhistory : (history · (as ++ [a])) = fun i => history i as ++ a.told i := by
    funext i
    unfold history
    rw [List.flatMap_append, List.flatMap_singleton]
  constructor
  · exact h.linked.step hs
  · rcases step_answering h.linked hs with hc | ⟨b, hb⟩
    · rw [hc]
      exact h.spoken
    · exact Client.step_spoken hb h.linked.told h.spoken
  · rw [hhistory]
    rcases step_served hs with ⟨hl, htold⟩ | ⟨b, hb, htold⟩
    · have hquiet : (fun i => history i as ++ a.told i) = (history · as) := by
        funext i
        rw [htold, List.append_nil]
      rw [hl, hquiet]
      exact h.earning
    · have hsame : (fun i => history i as ++ a.told i) = fun i => history i as ++ b.told i := by
        funext i
        rw [htold]
      rw [hsame]
      exact h.earning.step h.linked.accounted.orderly hb

namespace Session.Conversed

variable {as : List Action}

/-- The job that answered a request, and how. -/
theorem answered (h : s.Conversed k as) {id : Nat} {method : Str} {params : Dict}
    {x : JsonRpcResponse} {v : Value} (hw : ⟨id, method, params⟩ ∈ s.client.desk.written)
    (hx : Client.First s.client.desk.responses id x) (ha : x.answer = .result v) :
    ∃ (i : Nat) (u : Value), s.service.server.works[i]? = some (.request (received k id method params)) ∧
      Earned k.child (history i as) (received k id method params) u ∧
      v = image k.host.floatOf u := by
  obtain ⟨before, f, after, hframes, hf, -⟩ := h.linked.first_frame hx
  have hid : x.id = .int id := by
    obtain ⟨pre, post, -, hid, -⟩ := hx
    exact hid
  have hmem : f ∈ s.service.server.frames := by
    rw [hframes]
    exact List.mem_append_right _ List.mem_cons_self
  rcases h.linked.frame_response hmem hf with hnone | ⟨r, hi, hxid⟩
  · rw [hid] at hnone
    cases hnone
  · obtain ⟨g, hg, hr⟩ := h.linked.written hi
    have hgid : g.id = id := by
      have heq := (requested_id hr).symm.trans (hxid.symm.trans hid)
      injection heq with heq
      exact Int.ofNat.inj heq
    have hnodup : (s.client.desk.written.map Client.Frame.id).Nodup :=
      h.linked.told.tabled.desk.written.imp Nat.ne_of_lt
    obtain rfl : g = ⟨id, method, params⟩ := List.inj_on_of_nodup_map hnodup hg hw hgid
    obtain rfl := requested_eq hr
    obtain ⟨w, hw', -, hanswers, hb⟩ := h.linked.accounted.orderly.frames f hmem
    obtain rfl := Option.some.inj (hw'.symm.trans hi)
    obtain ⟨answer, hdata⟩ := hanswers
    rw [hdata] at hb
    have hidentifies := h.linked.accounted.identifies _ (List.mem_of_getElem? hi)
    obtain ⟨u, rfl, hv⟩ := result_of_answer hidentifies hb hf ha
    exact ⟨f.job, u, hi, h.earning.frames f hmem _ u hi hdata, hv⟩

end Session.Conversed

end KestrelSdk.Link

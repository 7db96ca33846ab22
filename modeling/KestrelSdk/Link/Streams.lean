import KestrelSdk.Client.Firsts
import KestrelSdk.Link.Frames
import KestrelSdk.Service.Accounts

/-! A host's client and the service of its child, over two ordered streams of frames. -/

namespace KestrelSdk.Link

open Json Protocol Asyncio Service

/-- The interpreters and the protocol versions of the two sides. -/
structure Peers where
  host : Interpreter
  hostVersion : Str
  child : Runtime
  raised : DecodeError → Exn
  childVersion : Str

/-- `taken` counts the frames of the client that the service has read, `read` those of the service
that the client has read. -/
structure Session where
  client : Client.State := {}
  service : Ledger := {}
  taken : Nat := 0
  read : Nat := 0

inductive Action where
  | client (a : Client.Action)
  | service (a : Service.Action)
  | takes
  | reads

/-- The frame of a request. -/
def frameBytes (host : Interpreter) (f : Client.Frame) : Option Bytes :=
  (encodeMessage host (JsonRpcRequest.toDict ⟨f.method, f.params, .int f.id⟩)).toOption

def clientReads : Client.Action → Bool
  | .signal (.line _) => true
  | _ => false

def serviceReads : Service.Action → Bool
  | .line (_ :: _) => true
  | _ => false

/-- One step of either side. What a side reads is the next frame that the other has written. -/
def step (k : Peers) (s : Session) : Action → Option Session
  | .client a =>
    if clientReads a then none
    else (Client.step k.host k.hostVersion s.client a).map fun client => { s with client }
  | .service a =>
    if serviceReads a then none
    else (s.service.step k.child k.raised k.childVersion a).map fun service => { s with service }
  | .takes =>
    match (s.client.desk.written[s.taken]?).bind (frameBytes k.host) with
    | none => none
    | some b =>
      (s.service.step k.child k.raised k.childVersion (.line b)).map fun service =>
        { s with service, taken := s.taken + 1 }
  | .reads =>
    match s.service.server.frames[s.read]? with
    | none => none
    | some f =>
      (Client.step k.host k.hostVersion s.client (.signal (.line f.bytes))).map fun client =>
        { s with client, read := s.read + 1 }

/-- A host and its child. -/
def session (k : Peers) : Machine Session Action where
  start := {}
  step := step k

def responseOf : Except DecodeError JsonRpcMessage → Option JsonRpcResponse
  | .ok (.response x) => some x
  | _ => none

def requestOf : Except DecodeError JsonRpcMessage → Option JsonRpcRequest
  | .ok (.request r) => some r
  | _ => none

def Work.request? : Work → Option JsonRpcRequest
  | .request r => some r
  | _ => none

/-- The responses among the frames of a service, as a client decodes them. -/
def heard (host : Interpreter) (fs : List Sent) : List JsonRpcResponse :=
  fs.filterMap fun f => responseOf (decodeMessage host f.bytes)

/-- A request frame of a client, as a service decodes it. -/
def requested (k : Peers) (f : Client.Frame) : Option JsonRpcRequest :=
  (frameBytes k.host f).bind fun b => requestOf (decodeMessage k.child.py b)

def requests (ws : List Work) : List JsonRpcRequest := ws.filterMap Work.request?

theorem requestOf_some {m : Except DecodeError JsonRpcMessage} {r : JsonRpcRequest}
    (h : requestOf m = some r) : m = .ok (.request r) := by
  unfold requestOf at h
  split at h
  · cases h
    rfl
  · cases h

theorem responseOf_some {m : Except DecodeError JsonRpcMessage} {x : JsonRpcResponse}
    (h : responseOf m = some x) : m = .ok (.response x) := by
  unfold responseOf at h
  split at h
  · cases h
    rfl
  · cases h

variable {k : Peers}

theorem frameBytes_some {host : Interpreter} {f : Client.Frame} {b : Bytes}
    (h : frameBytes host f = some b) :
    encodeMessage host (JsonRpcRequest.toDict ⟨f.method, f.params, .int f.id⟩) = .ok b := by
  unfold frameBytes at h
  cases he : encodeMessage host (JsonRpcRequest.toDict ⟨f.method, f.params, .int f.id⟩) with
  | error e =>
    rw [he] at h
    cases h
  | ok b' =>
    rw [he] at h
    cases h
    rfl

/-- The frame of a request keeps its identifier. -/
theorem requested_id {f : Client.Frame} {r : JsonRpcRequest} (h : requested k f = some r) :
    r.id = .int f.id := by
  obtain ⟨b, hb, hr⟩ := Option.bind_eq_some_iff.1 h
  have hd := requestOf_some hr
  rw [decodeMessage_encodeMessage (frameBytes_some hb)] at hd
  split at hd
  · exact request_id hd rfl
  · cases hd

/-- What a session keeps: the client has heard the frames that it has read, and the requests of the
service are those that it has taken. -/
structure Session.Linked (k : Peers) (s : Session) : Prop where
  told : s.client.Told
  accounted : s.service.Accounted k.child
  fenced : ∀ x ∈ s.service.posted, x.2.restartRequired = true → s.service.Fenced x.2
  taken_le : s.taken ≤ s.client.desk.written.length
  read_le : s.read ≤ s.service.server.frames.length
  asked : requests s.service.server.works = (s.client.desk.written.take s.taken).filterMap (requested k)
  heard : s.client.desk.responses = heard k.host (s.service.server.frames.take s.read)

section Sides

variable {py : Interpreter} {p : Str} {c c' : Client.State} {a : Client.Action}

theorem solicited_local (ha : clientReads a = false) : Client.solicited py c a = true := by
  cases a with
  | signal g =>
    cases g with
    | line b => cases ha
    | _ => rfl
  | _ => rfl

/-- A client hears responses in lines only. -/
theorem responses_local (hc : c.Tabled) (ha : clientReads a = false)
    (h : Client.step py p c a = some c') : c'.desk.responses = c.desk.responses := by
  rcases Client.step_cases h hc with ⟨t, -, hcalled⟩ | ⟨g, e, rfl, he, rfl⟩
  · exact hcalled.done.2
  · rcases Client.Engine.step_desk he with hd | ⟨b, r, rfl, -, -⟩ | ⟨x, rfl⟩
    · exact congrArg Client.Desk.responses hd
    · cases ha
    · rfl

theorem written_grows (hc : c.Tabled) (h : Client.step py p c a = some c') :
    ∃ new, c'.desk.written = c.desk.written ++ new := by
  rcases Client.step_cases h hc with ⟨t, -, hcalled⟩ | ⟨g, e, rfl, he, rfl⟩
  · exact hcalled.grows
  · rcases Client.Engine.step_desk he with hd | ⟨b, r, -, -, rfl⟩ | ⟨x, rfl⟩
    · exact ⟨[], (congrArg Client.Desk.written hd).trans (List.append_nil _).symm⟩
    · exact ⟨[], (c.desk.answer_frame r).1.trans (List.append_nil _).symm⟩
    · exact ⟨[], (List.append_nil _).symm⟩

/-- A line adds the response that it holds, and writes nothing. -/
theorem line_hears {b : Bytes} (h : Client.step py p c (.signal (.line b)) = some c') :
    c'.desk.responses = c.desk.responses ++ (responseOf (decodeMessage py b)).toList ∧
      c'.desk.written = c.desk.written := by
  obtain ⟨e, he, rfl⟩ := Option.map_eq_some_iff.1 h
  simp only [Client.Engine.step] at he
  split at he
  · cases he
    show (c.toEngine.readLine py b).desk.responses = _ ∧ (c.toEngine.readLine py b).desk.written = _
    unfold Client.Engine.readLine
    cases hd : decodeMessage py b with
    | error e =>
      cases e with
      | protocol text => exact ⟨(List.append_nil _).symm, rfl⟩
      | _ => exact ⟨(List.append_nil _).symm, rfl⟩
    | ok m =>
      cases m with
      | response r => exact ⟨(c.desk.answer_frame r).2.2, (c.desk.answer_frame r).1⟩
      | notification n =>
        simp only [Client.Engine.readMessage]
        split
        · exact ⟨(List.append_nil _).symm, rfl⟩
        · exact ⟨(List.append_nil _).symm, rfl⟩
      | request r => exact ⟨(List.append_nil _).symm, rfl⟩
  · cases he

end Sides

section Service

variable {rt : Runtime} {raised : DecodeError → Exn} {version : Str} {l l' : Ledger}
  {a : Service.Action}

theorem requests_append (ws vs : List Work) : requests (ws ++ vs) = requests ws ++ requests vs :=
  List.filterMap_append

theorem brings_line {s : Server} {b : Bytes} :
    requests (brings rt s (.line b)) = (requestOf (decodeMessage rt.py b)).toList := by
  by_cases hnil : b = []
  · subst hnil
    rfl
  · simp only [brings, hnil, if_false]
    cases hd : decodeMessage rt.py b with
    | error e =>
      cases e with
      | protocol text => rfl
      | _ => rfl
    | ok m =>
      cases m with
      | request r => rfl
      | _ => rfl

/-- A service takes requests from lines only. -/
theorem brings_local {s : Server} (ha : serviceReads a = false) : requests (brings rt s a) = [] := by
  cases a with
  | line b =>
    cases b with
    | nil => rfl
    | cons x b => cases ha
  | event params =>
    simp only [brings]
    split
    · rfl
    · rfl
  | _ => rfl

/-- A step of a service adds to its requests those of the line that it reads, and to its frames. -/
theorem ledger_grows (h : l.step rt raised version a = some l') :
    requests l'.server.works = requests l.server.works ++ requests (brings rt l.server a) ∧
      ∃ new, l'.server.frames = l.server.frames ++ new := by
  obtain ⟨s', hs', rfl⟩ := Option.map_eq_some_iff.1 h
  have hi := step_interleaves hs'
  constructor
  · show requests s'.works = _
    rw [hi.works, requests_append]
  · exact hi.frames

theorem ledger_fenced (ha : l.Accounted rt) (h : l.step rt raised version a = some l')
    (hl : ∀ x ∈ l.posted, x.2.restartRequired = true → l.Fenced x.2) :
    ∀ x ∈ l'.posted, x.2.restartRequired = true → l'.Fenced x.2 := by
  intro x hx hfence
  have hstep := h
  obtain ⟨s', hs', rfl⟩ := Option.map_eq_some_iff.1 h
  rcases List.mem_append.1 hx with hx | hx
  · exact (hl x hx hfence).step ha hstep
  · obtain ⟨f, -, rfl⟩ := List.mem_map.1 hx
    exact ⟨hfence, .inl rfl⟩

end Service

namespace Session.Linked

variable {s s' : Session}

/-- The requests of the service are among the frames of the client. -/
theorem written (h : s.Linked k) {r : JsonRpcRequest} {i : Nat}
    (hi : s.service.server.works[i]? = some (.request r)) :
    ∃ f ∈ s.client.desk.written, requested k f = some r := by
  have hmem : r ∈ requests s.service.server.works :=
    List.mem_filterMap.2 ⟨_, List.mem_of_getElem? hi, rfl⟩
  rw [h.asked] at hmem
  obtain ⟨f, hf, hr⟩ := List.mem_filterMap.1 hmem
  exact ⟨f, List.mem_of_mem_take hf, hr⟩

/-- What the client decodes in a frame of a job: a response to the job's request, or to nobody. -/
theorem frame_response (h : s.Linked k) {f : Sent} (hf : f ∈ s.service.server.frames)
    {x : JsonRpcResponse} (hx : decodeMessage k.host f.bytes = .ok (.response x)) :
    x.id = .none ∨ ∃ r, s.service.server.works[f.job]? = some (.request r) ∧ x.id = r.id := by
  obtain ⟨w, hw, -, hanswers, hb⟩ := h.accounted.orderly.frames f hf
  have hparse : parseMessage (image k.host.floatOf f.data) = .ok (.response x) := by
    rw [decodeMessage_encodeMessage hb] at hx
    split at hx
    · exact hx
    · cases hx
  cases w with
  | request r =>
    obtain ⟨answer, hdata⟩ := hanswers
    rw [hdata] at hparse
    have hid := h.accounted.identifies r (List.mem_of_getElem? hw)
    exact .inr ⟨r, hw, response_id hparse (hid.image k.host.floatOf)⟩
  | malformed text =>
    have hdata : f.data = (Server.malformedResponse text).toDict := hanswers
    rw [hdata] at hparse
    exact .inl (response_id hparse rfl)
  | event params =>
    have hdata : f.data = JsonRpcNotification.toDict ⟨FEATURE_EVENT, params⟩ := hanswers
    rw [hdata] at hparse
    exact absurd hparse notification_no_response

theorem solicits (h : s.Linked k) {f : Sent} (hf : f ∈ s.service.server.frames) :
    Client.solicited k.host s.client (.signal (.line f.bytes)) = true := by
  apply Client.solicited_of
  intro x hx
  rcases h.frame_response hf hx with hnone | ⟨r, hi, hid⟩
  · exact .inl hnone
  · obtain ⟨g, hg, hr⟩ := h.written hi
    exact .inr ⟨g, hg, hid.trans (requested_id hr)⟩

theorem client (h : s.Linked k) {a : Client.Action} {c : Client.State}
    (ha : clientReads a = false) (hc : Client.step k.host k.hostVersion s.client a = some c) :
    Linked k { s with client := c } := by
  have hstep : (Client.answering k.host k.hostVersion).step s.client a = some c :=
    Machine.step_restrict (solicited_local ha) hc
  have htold := Client.step_told hstep h.told
  obtain ⟨new, hnew⟩ := written_grows h.told.tabled hc
  constructor
  · exact htold
  · exact h.accounted
  · exact h.fenced
  · show s.taken ≤ c.desk.written.length
    have hle := h.taken_le
    rw [hnew, List.length_append]
    omega
  · exact h.read_le
  · show requests s.service.server.works = (c.desk.written.take s.taken).filterMap (requested k)
    rw [hnew, List.take_append_of_le_length h.taken_le]
    exact h.asked
  · exact (responses_local h.told.tabled ha hc).trans h.heard

/-- A step of the service that reads a frame, or none. -/
theorem service (h : s.Linked k) {a : Service.Action} {l : Ledger} {n : Nat}
    (hl : s.service.step k.child k.raised k.childVersion a = some l)
    (hn : n ≤ s.client.desk.written.length)
    (hasked : requests s.service.server.works ++ requests (brings k.child s.service.server a) =
      (s.client.desk.written.take n).filterMap (requested k)) :
    Linked k { s with service := l, taken := n } := by
  obtain ⟨hworks, new, hnew⟩ := ledger_grows hl
  constructor
  · exact h.told
  · exact h.accounted.step hl
  · exact ledger_fenced h.accounted hl h.fenced
  · exact hn
  · show s.read ≤ l.server.frames.length
    have hle := h.read_le
    rw [hnew, List.length_append]
    omega
  · exact hworks.trans hasked
  · show s.client.desk.responses = Link.heard k.host (l.server.frames.take s.read)
    rw [hnew, List.take_append_of_le_length h.read_le]
    exact h.heard

theorem reads (h : s.Linked k) {f : Sent} {c : Client.State}
    (hf : s.service.server.frames[s.read]? = some f)
    (hc : Client.step k.host k.hostVersion s.client (.signal (.line f.bytes)) = some c) :
    Linked k { s with client := c, read := s.read + 1 } := by
  have hsolicited := h.solicits (List.mem_of_getElem? hf)
  have hstep : (Client.answering k.host k.hostVersion).step s.client (.signal (.line f.bytes)) =
      some c := Machine.step_restrict hsolicited hc
  have htold := Client.step_told hstep h.told
  obtain ⟨hresponses, hwritten⟩ := line_hears hc
  constructor
  · exact htold
  · exact h.accounted
  · exact h.fenced
  · show s.taken ≤ c.desk.written.length
    rw [hwritten]
    exact h.taken_le
  · exact (List.getElem?_eq_some_iff.1 hf).1
  · show requests s.service.server.works = (c.desk.written.take s.taken).filterMap (requested k)
    rw [hwritten]
    exact h.asked
  · show c.desk.responses = Link.heard k.host (s.service.server.frames.take (s.read + 1))
    have hone : Link.heard k.host [f] = (responseOf (decodeMessage k.host f.bytes)).toList := by
      simp only [Link.heard, List.filterMap_cons, List.filterMap_nil]
      cases responseOf (decodeMessage k.host f.bytes) with
      | none => rfl
      | some x => rfl
    rw [hresponses, h.heard, List.take_add_one, hf, ← hone]
    exact List.filterMap_append.symm

theorem step {a : Action} (h : s.Linked k) (hs : Link.step k s a = some s') : s'.Linked k := by
  cases a with
  | client a =>
    simp only [Link.step] at hs
    split at hs
    · cases hs
    · rename_i ha
      obtain ⟨c, hc, rfl⟩ := Option.map_eq_some_iff.1 hs
      exact h.client (Bool.eq_false_iff.2 ha) hc
  | service a =>
    simp only [Link.step] at hs
    split at hs
    · cases hs
    · rename_i ha
      obtain ⟨l, hl, rfl⟩ := Option.map_eq_some_iff.1 hs
      apply h.service hl h.taken_le
      rw [brings_local (Bool.eq_false_iff.2 ha), List.append_nil]
      exact h.asked
  | takes =>
    simp only [Link.step] at hs
    split at hs
    · cases hs
    · rename_i b hb
      obtain ⟨l, hl, rfl⟩ := Option.map_eq_some_iff.1 hs
      obtain ⟨f, hf, hbytes⟩ := Option.bind_eq_some_iff.1 hb
      apply h.service hl (List.getElem?_eq_some_iff.1 hf).1
      have hone : [f].filterMap (requested k) = (requestOf (decodeMessage k.child.py b)).toList := by
        simp only [List.filterMap_cons, List.filterMap_nil, requested, hbytes, Option.bind_some]
        cases requestOf (decodeMessage k.child.py b) with
        | none => rfl
        | some r => rfl
      rw [brings_line, ← hone, h.asked, List.take_add_one, hf]
      exact List.filterMap_append.symm
  | reads =>
    simp only [Link.step] at hs
    split at hs
    · cases hs
    · rename_i f hf
      obtain ⟨c, hc, rfl⟩ := Option.map_eq_some_iff.1 hs
      exact h.reads hf hc

theorem start : Linked k {} := by
  constructor
  · exact .start
  · exact .start
  · intro x hx
    cases hx
  · exact Nat.le_refl 0
  · exact Nat.le_refl 0
  · rfl
  · rfl

end Session.Linked

theorem session_linked {s : Session} (h : (session k).Reachable s) : s.Linked k :=
  h.invariant .start fun _ _ _ hl hs => hl.step hs

end KestrelSdk.Link

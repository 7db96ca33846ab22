import KestrelSdk.Asyncio.StreamReader
import KestrelSdk.Protocol.Envelope
import KestrelSdk.Service.Fence
import KestrelSdk.Service.Frames

/-! Frames between the streams of a client and of a service. -/

namespace KestrelSdk.Service

open Json Protocol Asyncio Server

/-- `await reader.readline()` in `serve`. -/
def reads (overrun : Exn) (chunks : List Bytes) (buffer : Bytes) : Action :=
  match readline 10 DEFAULT_LIMIT chunks buffer with
  | .line b _ _ => .line b
  | .overrun => .readFails overrun

/-- `await self.reader.readline()` in the read loop of the client. -/
def receives (chunks : List Bytes) (buffer : Bytes) : Client.Signal :=
  match readline 10 DEFAULT_LIMIT chunks buffer with
  | .line [] _ _ => .readEof
  | .line b _ _ => .line b
  | .overrun => .readFails .connection

section Readers

variable {py : Interpreter} {data : Value} {b rest buffer : Bytes} {chunks : List Bytes}

/-- A frame is a line. -/
theorem frame_line (hb : encodeMessage py data = .ok b) :
    ∃ line, b = line ++ [10] ∧ 10 ∉ line ∧ lineLength b = line.length := by
  obtain ⟨t, -, hp, rfl, -⟩ := encodeMessage_bytes hb
  refine ⟨t.map UInt8.ofNat, ?_, ?_, ?_⟩
  · rw [List.map_append]
    rfl
  · intro hmem
    obtain ⟨c, hc, h10⟩ := List.mem_map.1 hmem
    have hrange := hp c hc
    have hmod : (UInt8.ofNat c).toNat = c % 256 := UInt8.toNat_ofNat'
    rw [h10] at hmod
    have h10 : (10 : UInt8).toNat = 10 := rfl
    omega
  · unfold lineLength
    rw [List.length_map, List.length_append, List.length_singleton, List.length_map,
      Nat.add_sub_cancel]

theorem readline_frame (hb : encodeMessage py data = .ok b)
    (hs : buffer ++ chunks.flatten = b ++ rest) :
    if lineLength b ≤ DEFAULT_LIMIT then
      ∃ buffer' chunks', readline 10 DEFAULT_LIMIT chunks buffer = .line b buffer' chunks' ∧
        buffer' ++ chunks'.flatten = rest
    else readline 10 DEFAULT_LIMIT chunks buffer = .overrun := by
  obtain ⟨line, rfl, hline, hlen⟩ := frame_line hb
  rw [List.append_assoc, List.singleton_append] at hs
  rw [hlen]
  split
  · rename_i hle
    exact readline_within hline hle hs
  · rename_i hlt
    exact readline_beyond hline (Nat.lt_of_not_le hlt) hs

theorem reads_frame (overrun : Exn) (hb : encodeMessage py data = .ok b)
    (hs : buffer ++ chunks.flatten = b ++ rest) :
    reads overrun chunks buffer =
      if lineLength b ≤ DEFAULT_LIMIT then .line b else .readFails overrun := by
  have hread := readline_frame hb hs
  unfold reads
  split at hread
  · rename_i hle
    obtain ⟨_, _, hread, -⟩ := hread
    rw [hread, if_pos hle]
  · rename_i hlt
    rw [hread, if_neg hlt]

theorem receives_frame (hb : encodeMessage py data = .ok b)
    (hs : buffer ++ chunks.flatten = b ++ rest) :
    receives chunks buffer =
      if lineLength b ≤ DEFAULT_LIMIT then .line b else .readFails .connection := by
  have hread := readline_frame hb hs
  obtain ⟨line, hline, -, -⟩ := frame_line hb
  unfold receives
  split at hread
  · rename_i hle
    obtain ⟨_, _, hread, -⟩ := hread
    rw [hread, if_pos hle]
    cases b with
    | nil => cases line <;> cases hline
    | cons x b => rfl
  · rename_i hlt
    rw [hread, if_neg hlt]

end Readers

theorem isSlug_of_valid {name : Str} (h : validateHostIngressName (.str name) = .ok name) :
    isSlug name = true := by
  simp only [validateHostIngressName] at h
  split at h
  · cases h
  · split at h
    · cases h
    · split at h
      · assumption
      · cases h

/-- A client that sends calls of an ingress. -/
structure Sends (c : Client.State) (t : Client.Tid) (id : Nat) (name : Str) : Prop where
  idle : (c.calls t).pc = .idle
  connected : c.closedExc = none
  running : c.shutdownStarted = false
  fresh : c.restartRequired = false
  offered : ∃ capabilities, c.hostIngressCapabilities = some capabilities ∧
    capabilities.supports name = true
  next : c.desk.nextId + 1 = id

/-- A service that takes the calls of an ingress. -/
structure Open (s : Server) (name : Str) : Prop where
  reading : s.loop = .reading
  running : s.life.stopping = false
  fresh : s.life.restartRequired = false
  registered : name ∈ s.registry.ingress

/-- A request reaches its handler: `readline()` returns its frame whole, however it arrives, the
service goes on reading, and it calls the ingress with the payload. -/
def Arrives (rt : Runtime) (raised : DecodeError → Exn) (version : Str) (overrun : Exn)
    (id : Nat) (name : Str) (payload : Value) (b : Bytes) : Prop :=
  ∀ s buffer chunks rest, Open s name → buffer ++ chunks.flatten = b ++ rest →
    reads overrun chunks buffer = .line b ∧
      ∃ s' s'', step rt raised version s (.line b) = some s' ∧ s'.loop = .reading ∧
        step rt raised version s' (.begin s.jobs.length) = some s'' ∧
        s''.pc s.jobs.length =
          some (.awaiting (ingressRequest id name payload) (.callHostIngress name payload))

/-- A call of an ingress that waits for its response. -/
structure Waits (c : Client.State) (t : Client.Tid) (id : Nat) : Prop where
  reading : c.mail.read = .reading
  waiting : (c.calls t).pc = .waiting id
  ingress : ∃ name payload, (c.calls t).op = .callHostIngress name payload
  calm : (c.calls t).cancel = false
  pending : id ∈ c.desk.pending
  future : c.desk.futures id = .pending

/-- A response reaches its caller: `readline()` returns its frame whole, however it arrives, the
client goes on reading, and the call returns the result. -/
def Returns (client : Interpreter) (version : Str) (id : Nat) (v : Value) (b : Bytes) : Prop :=
  ∀ c t buffer chunks rest, Waits c t id → buffer ++ chunks.flatten = b ++ rest →
    receives chunks buffer = .line b ∧
      ∃ c' c'', (Client.machine client version).step c (.signal (.line b)) = some c' ∧
        c'.mail = c.mail ∧ c'.closedExc = c.closedExc ∧
        (Client.machine client version).step c' (.resume t true) = some c'' ∧
        (c''.calls t).pc = .finished (.ok v)

variable {rt : Runtime} {raised : DecodeError → Exn} {version : Str} {overrun : Exn}
  {client : Interpreter} {reg : Registry} {life : Lifecycle} {id : Nat} {name : Str}
  {payload v : Value} {b : Bytes}

theorem request_writes {c : Client.State} {t : Client.Tid} {method : Str} {params : Dict}
    (hclosed : c.closedExc = none)
    (hb : encodeMessage client (JsonRpcRequest.toDict
      ⟨method, params, .int ((c.desk.nextId + 1 : Nat) : Int)⟩) = .ok b) :
    (c.request client t method params true).desk.written =
      c.desk.written ++ [⟨c.desk.nextId + 1, method, params⟩] := by
  have htask : c.createReadTask.desk = c.desk := by
    unfold Client.Engine.createReadTask
    split <;> rfl
  have hnext : (c.setEngine c.createReadTask).desk.enroll.nextId = c.desk.nextId + 1 :=
    congrArg (fun d : Client.Desk => d.nextId + 1) htask
  have hwritten : (c.setEngine c.createReadTask).desk.enroll.written = c.desk.written :=
    congrArg (fun d : Client.Desk => d.enroll.written) htask
  unfold Client.State.request
  simp only [hclosed, hnext, hb, if_true, Client.State.setCall, Client.Desk.write, hwritten]

/-- The request that a call of an ingress writes. -/
theorem call_writes (hname : validateHostIngressName (.str name) = .ok name)
    (hpayload : validateHostIngressPayload client payload = .ok payload)
    (hb : encodeMessage client (ingressRequest id name payload).toDict = .ok b)
    {c : Client.State} {t : Client.Tid} (hc : Sends c t id name) :
    ∃ c', (Client.machine client version).step c
        (.call t (.callHostIngress (.str name) payload) true) = some c' ∧
      c'.desk.written = c.desk.written ++
        [⟨id, HOST_INGRESS, (ingressRequest id name payload).params⟩] := by
  obtain ⟨capabilities, hcapabilities, hoffered⟩ := hc.offered
  obtain rfl := hc.next
  have hgate : (c.setCall t { op := .callHostIngress (.str name) payload }).hostIngressCapabilities =
      some capabilities := hcapabilities
  have hcall : (c.setCall t { op := .callHostIngress (.str name) payload }).invoke client version t
      true = (c.setCall t { op := .callHostIngress (.str name) payload }).callHostIngress client t
        (.str name) payload true := by
    unfold Client.State.invoke
    simp only [Client.State.setCall, Function.update_self]
  have hwritten := @request_writes client b
    (c.setCall t { op := .callHostIngress (.str name) payload }) t HOST_INGRESS
    (ingressRequest (c.desk.nextId + 1) name payload).params hc.connected hb
  refine ⟨_, ?_, hwritten⟩
  simp only [Client.machine, Client.step, hc.idle]
  rw [hcall]
  unfold Client.State.callHostIngress
  rw [if_neg]
  · simp only [hname, hpayload, hgate, hoffered, if_true]
    rfl
  · show ¬ (c.shutdownStarted || c.restartRequired) = true
    rw [hc.running, hc.fresh]
    decide

theorem dispatch_ingress (hname : validateHostIngressName (.str name) = .ok name)
    (hpayload : validateHostIngressPayload rt.py payload = .ok payload)
    (hreg : name ∈ reg.ingress) (hs : life.stopping = false) (hf : life.restartRequired = false) :
    dispatch rt reg life (ingressRequest id name payload) =
      (life, .awaits (.callHostIngress name payload)) := by
  have hget : Dict.get (ingressRequest id name payload).params (str "name") = some (.str name) := rfl
  have hget' : Dict.get (ingressRequest id name payload).params (str "payload") = some payload := by
    show Dict.get [(.str (str "name"), .str name), (.str (str "payload"), payload)] _ = _
    rw [get_field (by decide), get_field_self]
  have hkeys : hasKeys (ingressRequest id name payload).params [str "name", str "payload"] = true := rfl
  have hchecks : hostIngress rt reg.ingress (ingressRequest id name payload).params =
      .ok (name, payload) := by
    unfold hostIngress
    simp only [hkeys, if_true, hget, hget', Option.getD_some, hname, hreg, hpayload]
  have h1 : HOST_INGRESS ≠ INITIALIZE := by decide
  have h2 : HOST_INGRESS ≠ CONFIG_TRANSITION := by decide
  have h3 : HOST_INGRESS ≠ HEALTH := by decide
  have h4 : HOST_INGRESS ≠ TOOLS_LIST := by decide
  have h5 : HOST_INGRESS ≠ TOOLS_CALL := by decide
  have hm : (ingressRequest id name payload).method = HOST_INGRESS := rfl
  unfold dispatch
  simp only [hm, h1, h2, h3, h4, h5, if_false, if_true, hs, hf, Bool.or_self, Bool.false_eq_true,
    hchecks]

/-- A request that is left to a task, up to its hook. -/
theorem begins_hook {r : JsonRpcRequest} {hook : Hook} {s : Server}
    (hd : decodeMessage rt.py b = .ok (.request r)) (hinline : isInline r.method = false)
    (hloop : s.loop = .reading)
    (hhook : dispatch rt s.registry s.life r = (life, .awaits hook)) :
    ∃ s' s'', step rt raised version s (.line b) = some s' ∧ s'.loop = .reading ∧
      step rt raised version s' (.begin s.jobs.length) = some s'' ∧
      s''.pc s.jobs.length = some (.awaiting r hook) := by
  have hcreated : (s.create (.request r) (.created r)).jobs[s.jobs.length]? =
      some ⟨.request r, .created r, false⟩ := List.getElem?_concat_length
  have hread : (service rt raised version).step s (.line b) = some (s.accept rt r) :=
    step_request hloop hd
  have haccept : s.accept rt r = s.create (.request r) (.created r) := by
    unfold accept
    rw [hinline]
    rfl
  have hpc : (s.create (.request r) (.created r)).pc s.jobs.length = some (.created r) := by
    unfold pc
    rw [hcreated]
    rfl
  have hcalm : (s.create (.request r) (.created r)).isCancelling s.jobs.length = false := by
    unfold isCancelling
    rw [hcreated]
    rfl
  have hbegin : step rt raised version (s.create (.request r) (.created r))
      (.begin s.jobs.length) =
      some ((s.create (.request r) (.created r)).handleRequest rt s.jobs.length r) := by
    simp only [step, hpc, Option.bind_some, Server.resume, hcalm, Bool.false_eq_true, if_false]
  rw [haccept] at hread
  refine ⟨_, _, hread, hloop, hbegin, ?_⟩
  have hhandle : (s.create (.request r) (.created r)).handleRequest rt s.jobs.length r =
      ({ s.create (.request r) (.created r) with
        life, called := s.called ++ [.hook hook] } : Server).setPc s.jobs.length
          (.awaiting r hook) := by
    unfold handleRequest
    rw [show dispatch rt (s.create (.request r) (.created r)).registry
      (s.create (.request r) (.created r)).life r = (life, .awaits hook) from hhook]
    rfl
  rw [hhandle, pc_setPc, if_pos rfl]
  exact congrArg (Option.map fun _ => JobPc.awaiting r hook) hpc

/-- A request is whole at its handler exactly where its frame is within the limit of the stream. -/
theorem arrives_iff (hn : MAX_HOST_INGRESS_PAYLOAD_DEPTH + 3 ≤ rt.py.nesting)
    (hname : validateHostIngressName (.str name) = .ok name)
    (hpayload : validateHostIngressPayload client payload = .ok payload)
    (hplain : Plain rt.py.floatOf payload)
    (hb : encodeMessage client (ingressRequest id name payload).toDict = .ok b) :
    Arrives rt raised version overrun id name payload b ↔
      payloadLength client payload + name.length + (natText id).length + 79 ≤ DEFAULT_LIMIT := by
  have hslug := isSlug_of_valid hname
  rw [← ingressRequest_length hslug hb]
  constructor
  · intro h
    by_contra hlt
    have hopen : Open { loop := .reading, registry := { ingress := [name] } } name :=
      ⟨rfl, rfl, rfl, List.mem_cons_self⟩
    have hs : b ++ ([] : List Bytes).flatten = b ++ [] := rfl
    have hread := (h _ b [] [] hopen hs).1
    rw [reads_frame overrun hb hs, if_neg hlt] at hread
    cases hread
  · intro hle s buffer chunks rest hopen hs
    obtain ⟨-, hvalid, -⟩ := validPayload_iff.1 hpayload
    have hdepth := depth_le_of_validJson payload hvalid
    have hpeer := validPayload_peer hpayload (show MAX_HOST_INGRESS_PAYLOAD_DEPTH < rt.py.nesting by omega)
    have hdecode : decodeMessage rt.py b = .ok (.request (ingressRequest id name payload)) :=
      decode_ingressRequest hslug hplain hb (by omega)
    have hinline : isInline HOST_INGRESS = false := by decide
    refine ⟨by rw [reads_frame overrun hb hs, if_pos hle], ?_⟩
    exact begins_hook hdecode hinline hopen.reading
      (dispatch_ingress hname hpeer hopen.registered hopen.running hopen.fresh)

theorem returns_call (hdecode : decodeMessage client b = .ok (.response ⟨.int id, .result v⟩))
    (hv : validateHostIngressPayload client v = .ok v) {c : Client.State} {t : Client.Tid}
    (hc : Waits c t id) :
    ∃ c' c'', (Client.machine client version).step c (.signal (.line b)) = some c' ∧
      c'.mail = c.mail ∧ c'.closedExc = c.closedExc ∧
      (Client.machine client version).step c' (.resume t true) = some c'' ∧
      (c''.calls t).pc = .finished (.ok v) := by
  obtain ⟨name, payload, hop⟩ := hc.ingress
  have hkey : Client.Desk.keyOf (.int id) = some id := by
    simp only [Client.Desk.keyOf, Int.natCast_nonneg, if_true, Int.toNat_natCast]
  have hfuture : (c.desk.answer ⟨.int id, .result v⟩).futures id = .done (.ok v) := by
    simp only [Client.Desk.answer, hkey, hc.pending, if_true, Client.Desk.settle, hc.future,
      Function.update_self, Client.Desk.outcome]
  have hline : (Client.machine client version).step c (.signal (.line b)) =
      some (c.setEngine { c.toEngine with desk := c.desk.answer ⟨.int id, .result v⟩ }) := by
    simp only [Client.machine, Client.step, Client.Engine.step, hc.reading, Client.Engine.readLine,
      hdecode, Option.map_some, Client.Engine.readMessage]
  have hresume : ∃ c'', (Client.machine client version).step
      (c.setEngine { c.toEngine with desk := c.desk.answer ⟨.int id, .result v⟩ })
      (.resume t true) = some c'' ∧ (c''.calls t).pc = .finished (.ok v) := by
    simp only [Client.machine, Client.step, Client.State.resume, Client.State.setEngine, hc.waiting,
      hfuture, hc.calm, Bool.false_eq_true, if_false, Client.State.complete, hop, hv]
    refine ⟨_, rfl, ?_⟩
    simp only [Client.State.finish, Client.State.setPc, Client.State.setCall, Function.update_self]
  obtain ⟨c'', hresume, hfinished⟩ := hresume
  exact ⟨_, c'', hline, rfl, rfl, hresume, hfinished⟩

/-- A result is whole at its caller exactly where its frame is within the limit of the stream. -/
theorem returns_iff (hn : MAX_HOST_INGRESS_PAYLOAD_DEPTH + 3 ≤ client.nesting)
    (hv : validateHostIngressPayload rt.py v = .ok v) (hplain : Plain client.floatOf v)
    (hb : encodeMessage rt.py (JsonRpcResponse.toDict ⟨.int id, .result v⟩) = .ok b) :
    Returns client version id v b ↔
      payloadLength rt.py v + (natText id).length + 33 ≤ DEFAULT_LIMIT := by
  rw [← result_length hb]
  constructor
  · intro h
    by_contra hlt
    have hwaits : Waits
        { calls := fun _ => { op := .callHostIngress .none .none, pc := .waiting id },
          desk := { pending := [id] }, mail := { read := .reading } } 0 id :=
      ⟨rfl, rfl, ⟨_, _, rfl⟩, rfl, List.mem_cons_self, rfl⟩
    have hs : b ++ ([] : List Bytes).flatten = b ++ [] := rfl
    have hread := (h _ 0 b [] [] hwaits hs).1
    rw [receives_frame hb hs, if_neg hlt] at hread
    cases hread
  · intro hle c t buffer chunks rest hc hs
    obtain ⟨-, hvalid, -⟩ := validPayload_iff.1 hv
    have hdepth := depth_le_of_validJson v hvalid
    have hpeer := validPayload_peer hv (show MAX_HOST_INGRESS_PAYLOAD_DEPTH < client.nesting by omega)
    have hdecode : decodeMessage client b = .ok (.response ⟨.int id, .result v⟩) :=
      decode_result_plain hplain hb (by omega)
    exact ⟨by rw [receives_frame hb hs, if_pos hle], returns_call hdecode hpeer hc⟩

theorem encode_result {py : Interpreter} {t : Str} (hid : Identifies (.int id))
    (ht : py.dumps v = .ok t) (hd : depth v + 1 ≤ py.nesting) :
    ∃ b, encodeMessage py (JsonRpcResponse.toDict ⟨.int id, .result v⟩) = .ok b := by
  obtain ⟨m, hm⟩ : ∃ m, py.nesting = m + 1 := ⟨py.nesting - 1, by omega⟩
  obtain ⟨u, hu⟩ := hid.dumped m
  have hv : dump m v = .ok t := dump_of_depth v ht (by omega)
  have hu : dumpInt (id : Int) = .ok u := hu
  unfold encodeMessage Interpreter.dumps
  rw [hm]
  simp only [JsonRpcResponse.toDict, dump, dumpEntries, Key.text, hu, hv, Checks.ok_bind]
  exact ⟨_, rfl⟩

theorem encode_ingressRequest {py : Interpreter} {t : Str} (hid : Identifies (.int id))
    (ht : py.dumps payload = .ok t) (hd : depth payload + 2 ≤ py.nesting) :
    ∃ b, encodeMessage py (ingressRequest id name payload).toDict = .ok b := by
  obtain ⟨m, hm⟩ : ∃ m, py.nesting = m + 2 := ⟨py.nesting - 2, by omega⟩
  obtain ⟨u, hu⟩ := hid.dumped m
  have hp : dump m payload = .ok t := dump_of_depth payload ht (by omega)
  have hu : dumpInt (id : Int) = .ok u := hu
  rw [toDict_ingressRequest]
  unfold encodeMessage Interpreter.dumps
  rw [hm]
  simp only [dump, dumpEntries, Key.text, hu, hp, Checks.ok_bind]
  exact ⟨_, rfl⟩

/-- Host ingress, end to end: the request that a client writes and the result that answers it are
whole at the other side exactly where their frames are within the limit of the streams. -/
theorem ingress_whole_iff (hrt : MAX_HOST_INGRESS_PAYLOAD_DEPTH + 3 ≤ rt.py.nesting)
    (hclient : MAX_HOST_INGRESS_PAYLOAD_DEPTH + 3 ≤ client.nesting)
    (hname : validateHostIngressName (.str name) = .ok name)
    (hpayload : validateHostIngressPayload client payload = .ok payload)
    (hp : Plain rt.py.floatOf payload)
    (hb : encodeMessage client (ingressRequest id name payload).toDict = .ok b)
    (hv : validateHostIngressPayload rt.py v = .ok v) (hvp : Plain client.floatOf v) :
    (∀ c t, Sends c t id name → ∃ c', (Client.machine client version).step c
        (.call t (.callHostIngress (.str name) payload) true) = some c' ∧
      c'.desk.written = c.desk.written ++
        [⟨id, HOST_INGRESS, (ingressRequest id name payload).params⟩]) ∧
    (Arrives rt raised version overrun id name payload b ↔
      payloadLength client payload + name.length + (natText id).length + 79 ≤ DEFAULT_LIMIT) ∧
    ∃ answer, respond rt (ingressRequest id name payload)
        (complete rt reg life (.callHostIngress name payload) (.value v)).2 = some answer ∧
      (Returns client version id v answer ↔
        payloadLength rt.py v + (natText id).length + 33 ≤ DEFAULT_LIMIT) := by
  refine ⟨fun c t hc => call_writes hname hpayload hb hc, arrives_iff hrt hname hpayload hp hb, ?_⟩
  obtain ⟨-, hvalid, -⟩ := validPayload_iff.1 hpayload
  have hdepth := depth_le_of_validJson payload hvalid
  have hdecode : decodeMessage rt.py b = .ok (.request (ingressRequest id name payload)) :=
    decode_ingressRequest (isSlug_of_valid hname) hp hb (by omega)
  obtain ⟨-, hvalid', t, ht, -⟩ := validPayload_iff.1 hv
  have hdepth' := depth_le_of_validJson v hvalid'
  obtain ⟨answer, hanswer⟩ := encode_result (request_identifies hdecode) ht (by omega)
  refine ⟨answer, ?_, returns_iff hclient hv hvp hanswer⟩
  have hresult : (complete rt reg life (.callHostIngress name payload) (.value v)).2 = .ok v := by
    simp only [complete, hv]
    rfl
  have hencode : encode rt ⟨.int id, .result v⟩ = .ok answer := by
    unfold encode
    rw [hanswer]
    rfl
  rw [hresult]
  simp only [respond, ingressRequest, hencode]

theorem ingress_whole_iff_echo : ∃ b, Arrives sampleRuntime (fun _ => .cancelled) []
    (.exception none) 1 (str "echo") .none b := by
  have hrt : MAX_HOST_INGRESS_PAYLOAD_DEPTH + 3 ≤ sampleRuntime.py.nesting := by decide
  have hclient : MAX_HOST_INGRESS_PAYLOAD_DEPTH + 3 ≤ Interpreter.floatless.nesting := by decide
  have hname : validateHostIngressName (.str (str "echo")) = .ok (str "echo") := rfl
  have hpayload : validateHostIngressPayload .floatless .none = .ok .none := rfl
  have hplain : Plain (Interpreter.floatOf .floatless) .none := by simp only [Plain]
  obtain ⟨b, hb⟩ : ∃ b, encodeMessage .floatless
    (ingressRequest 1 (str "echo") .none).toDict = .ok b := ⟨_, rfl⟩
  have hlen : payloadLength .floatless .none + (str "echo").length + (natText 1).length + 79 ≤
      DEFAULT_LIMIT := by decide
  have hwhole := @ingress_whole_iff sampleRuntime (fun _ => .cancelled) [] (.exception none)
    .floatless {} {} 1 (str "echo") .none .none b hrt hclient hname hpayload hplain hb hpayload hplain
  exact ⟨b, hwhole.2.1.2 hlen⟩

theorem identifies_one : Identifies (.int (1 : Nat)) :=
  ⟨rfl, rfl, fun _ => ⟨_, rfl⟩, fun _ => rfl⟩

theorem dumps_replicate (n : Nat) :
    Interpreter.floatless.dumps (.str (List.replicate n 97)) =
      .ok (34 :: (List.replicate n 97 ++ [34])) := by
  have hflat : (List.replicate n 97).flatMap Json.escape = List.replicate n 97 := by
    rw [List.flatMap_congr fun c hc => show Json.escape c = [c] by
      rw [List.eq_of_mem_replicate hc]; rfl]
    exact List.flatMap_singleton' _
  show Except.ok (dumpStr (List.replicate n 97)) = _
  unfold dumpStr
  rw [hflat]

theorem payloadLength_replicate (n : Nat) :
    payloadLength .floatless (.str (List.replicate n 97)) = n + 2 := by
  unfold payloadLength
  rw [dumps_replicate]
  show (34 :: (List.replicate n 97 ++ [34])).length = n + 2
  rw [List.length_cons, List.length_append, List.length_replicate, List.length_singleton]

/-- A payload of 64 KiB, which both validators accept, makes a line that `readline()` refuses. -/
theorem whole_payload_overruns : ∃ payload b,
    validateHostIngressPayload .floatless payload = .ok payload ∧
      encodeMessage .floatless (ingressRequest 1 (str "echo") payload).toDict = .ok b ∧
      (∀ overrun, reads overrun [] b = .readFails overrun) ∧
      ¬ Arrives sampleRuntime (fun _ => .cancelled) [] (.exception none) 1 (str "echo") payload b := by
  have hdumps := dumps_replicate 65534
  have hlength : (34 :: (List.replicate 65534 97 ++ [34])).length = 65536 := by
    rw [List.length_cons, List.length_append, List.length_replicate, List.length_singleton]
  have hvalid : validateHostIngressPayload .floatless (.str (List.replicate 65534 97)) =
      .ok (.str (List.replicate 65534 97)) := by
    refine validPayload_iff.2 ⟨rfl, rfl, _, hdumps, ?_⟩
    rw [hlength]
    decide
  have hdepth : depth (.str (List.replicate 65534 97)) + 2 ≤ Interpreter.floatless.nesting := by
    decide
  obtain ⟨b, hb⟩ : ∃ b, encodeMessage .floatless
      (ingressRequest 1 (str "echo") (.str (List.replicate 65534 97))).toDict = .ok b :=
    encode_ingressRequest identifies_one hdumps hdepth
  have hlen := ingressRequest_length (show isSlug (str "echo") = true by decide) hb
  have hlong : ¬ lineLength b ≤ DEFAULT_LIMIT := by
    rw [hlen, payloadLength_replicate]
    decide
  have hs : b ++ ([] : List Bytes).flatten = b ++ [] := rfl
  have hread : ∀ overrun, reads overrun [] b = .readFails overrun := by
    intro overrun
    rw [reads_frame overrun hb hs, if_neg hlong]
  refine ⟨_, b, hvalid, hb, hread, fun h => ?_⟩
  have hopen : Open { loop := .reading, registry := { ingress := [str "echo"] } } (str "echo") :=
    ⟨rfl, rfl, rfl, List.mem_cons_self⟩
  have hline := (h _ b [] [] hopen hs).1
  rw [hread] at hline
  cases hline

end KestrelSdk.Service

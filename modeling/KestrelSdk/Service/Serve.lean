import KestrelSdk.Asyncio.Lock
import KestrelSdk.Asyncio.Machine
import KestrelSdk.Service.Handle

/-! `serve` with the tasks that it creates. -/

namespace KestrelSdk.Service

open Json Protocol Asyncio

/-- What a job is for: a request, the answer to a line that is no message, or an event. -/
inductive Work where
  | request (r : JsonRpcRequest)
  | malformed (text : Str)
  | event (params : Dict)

/-- Where a job stands. `handled` is the request whose `except` clauses catch what is raised there,
none where it escapes. -/
inductive JobPc where
  | created (r : JsonRpcRequest)
  | awaiting (r : JsonRpcRequest) (hook : Hook)
  | locking (data : Value) (handled : Option JsonRpcRequest)
  | draining (handled : Option JsonRpcRequest)
  | ended (result : Except Exn Unit)

structure Job where
  work : Work
  pc : JobPc
  cancelling : Bool := false

/-- Where `serve` stands. `raised` is what ended its loop: the exception of a job that it awaited,
or one of reading. -/
inductive LoopPc where
  | closed
  | reading
  | awaiting (i : Nat)
  | finishing
  | raised (job : Option Nat) (e : Exn)

/-- What the SDK calls: a hook, or a registered handler. -/
inductive Dispatch where
  | hook (hook : Hook)
  | tool (name : Str)
  | ingress (name : Str)

/-- A frame on the wire, with the job that wrote it. -/
structure Sent where
  job : Nat
  data : Value
  bytes : Bytes

/-- An `IsolatedFeatureService` with its jobs, in the order of their creation. `broken` is a wire
that takes no more frames. -/
structure Server where
  life : Lifecycle := {}
  registry : Registry := {}
  jobs : List Job := []
  loop : LoopPc := .closed
  connected : Bool := false
  broken : Bool := false
  writeLock : FifoLock := {}
  frames : List Sent := []
  called : List Dispatch := []

namespace Server

def setPc (s : Server) (i : Nat) (pc : JobPc) : Server :=
  { s with jobs := s.jobs.modify i fun job => { job with pc } }

def pc (s : Server) (i : Nat) : Option JobPc := (s.jobs[i]?).map Job.pc

def isCancelling (s : Server) (i : Nat) : Bool := ((s.jobs[i]?).map Job.cancelling).getD false

/-- `while not self._stopping`. -/
def again (s : Server) : LoopPc := if s.life.stopping then .finishing else .reading

def finish (s : Server) (i : Nat) (result : Except Exn Unit) : Server :=
  let loop :=
    match s.loop with
    | .awaiting j =>
      if j = i then
        match result with
        | .ok _ => s.again
        | .error e => .raised (some i) e
      else .awaiting j
    | loop => loop
  { s.setPc i (.ended result) with loop }

def releaseWrite (s : Server) : Server := { s with writeLock := s.writeLock.release }

/-- The section of `_send` under the write lock, up to `drain()`. -/
def write (rt : Runtime) (s : Server) (i : Nat) (data : Value) (handled : Option JsonRpcRequest)
    (raised : Server → Exn → Server) : Server :=
  if s.connected then
    match encodeMessage rt.py data with
    | .error e => raised s.releaseWrite (rt.raises e)
    | .ok bytes =>
      if s.broken then raised s.releaseWrite (.exception (some (str "connection lost")))
      else ({ s with frames := s.frames ++ [⟨i, data, bytes⟩] } : Server).setPc i (.draining handled)
  else s.releaseWrite.finish i (.ok ())

/-- `_send`. -/
def send (rt : Runtime) (s : Server) (i : Nat) (data : Value) (handled : Option JsonRpcRequest)
    (raised : Server → Exn → Server) : Server :=
  match s.writeLock.acquire i with
  | (writeLock, true) => { s with writeLock }.write rt i data handled raised
  | (writeLock, false) => { s with writeLock }.setPc i (.locking data handled)

def escape (i : Nat) (s : Server) (e : Exn) : Server := s.finish i (.error e)

/-- What is raised in a job, through the `except` clauses of `_handle_request`. -/
def raise (rt : Runtime) (i : Nat) (handled : Option JsonRpcRequest) (s : Server) (e : Exn) :
    Server :=
  match handled with
  | none => s.escape i e
  | some r =>
    match rescue r (s.isCancelling i) e with
    | none => s.escape i e
    | some response => s.send rt i response.toDict none (escape i)

/-- The response with the result of a request. -/
def reply (rt : Runtime) (s : Server) (i : Nat) (r : JsonRpcRequest) : Except Exn Value → Server
  | .ok v => s.send rt i (JsonRpcResponse.toDict ⟨r.id, .result v⟩) (some r) (raise rt i (some r))
  | .error e => s.raise rt i (some r) e

/-- `_handle_request`, up to its first await. -/
def handleRequest (rt : Runtime) (s : Server) (i : Nat) (r : JsonRpcRequest) : Server :=
  match dispatch rt s.registry s.life r with
  | (life, .awaits hook) =>
    ({ s with life, called := s.called ++ [.hook hook] } : Server).setPc i (.awaiting r hook)
  | (life, .returns v) => { s with life }.reply rt i r (.ok v)
  | (life, .raises e) => { s with life }.reply rt i r (.error e)

/-- `_handle_request` after its hook. -/
def completeRequest (rt : Runtime) (s : Server) (i : Nat) (r : JsonRpcRequest) (hook : Hook)
    (outcome : Outcome) : Server :=
  let done := complete rt s.registry s.life hook outcome
  { s with life := done.1 }.reply rt i r done.2

/-- A new job. -/
def create (s : Server) (work : Work) (pc : JobPc) : Server :=
  { s with jobs := s.jobs ++ [⟨work, pc, false⟩] }

/-- The methods that `serve` awaits. -/
def isInline (method : Str) : Bool :=
  method = INITIALIZE ∨ method = CONFIG_TRANSITION ∨ method = SHUTDOWN

/-- A request that was read: `serve` awaits it, or leaves it to a task. -/
def accept (rt : Runtime) (s : Server) (r : JsonRpcRequest) : Server :=
  let i := s.jobs.length
  let s := s.create (.request r) (.created r)
  if isInline r.method then { s with loop := .awaiting i }.handleRequest rt i r else s

/-- The answer to a line that is no message. -/
def malformedResponse (text : Str) : JsonRpcResponse :=
  ⟨.none, .error ⟨.int (-32600), text, .none⟩⟩

def refuse (rt : Runtime) (s : Server) (text : Str) : Server :=
  let i := s.jobs.length
  let data := (malformedResponse text).toDict
  let s := s.create (.malformed text) (.locking data none)
  { s with loop := .awaiting i }.send rt i data none (escape i)

/-- One turn of the loop, for a line; the empty line is the end of the input. -/
def readLine (rt : Runtime) (raised : DecodeError → Exn) (s : Server) (b : Bytes) : Server :=
  if b = [] then { s with loop := .finishing }
  else
    match decodeMessage rt.py b with
    | .error (.protocol text) => s.refuse rt text
    | .error e => { s with loop := .raised none (raised e) }
    | .ok (.request r) => s.accept rt r
    | .ok _ => s

/-- `emit_event`. -/
def emitEvent (rt : Runtime) (s : Server) (params : Dict) : Server :=
  if s.connected then
    let i := s.jobs.length
    let data := JsonRpcNotification.toDict ⟨FEATURE_EVENT, params⟩
    (s.create (.event params) (.locking data none)).send rt i data none (escape i)
  else s

/-- `on_initialize` of the base class, up to `configure`. -/
def onInitialize (version : Str) (s : Server) (params : Dict) : Server :=
  match params.get (str "protocolVersion"), params.get (str "config") with
  | some (.str requested), some (.dict config) =>
    if requested = version then { s with life := { s.life with hostConfig := config } } else s
  | _, _ => s

/-- `call_tool` of the base class, up to its handler. -/
def callTool (s : Server) (name : Str) : Server :=
  if s.life.restartRequired then s
  else if name ∈ s.registry.handlers then { s with called := s.called ++ [.tool name] }
  else s

/-- `call_host_ingress` of the base class, up to its handler. -/
def callHostIngress (s : Server) (name : Str) : Server :=
  if s.life.stopping || s.life.restartRequired then s
  else if name ∈ s.registry.ingress then { s with called := s.called ++ [.ingress name] }
  else s

end Server

/-- The jobs that `serve` waits for: all but those of events. -/
def Job.inflight : Job → Bool
  | ⟨.event _, _, _⟩ => false
  | ⟨_, .ended _, _⟩ => false
  | _ => true

/-- What can happen to a service. Overrides and other code of the feature may call the methods of
the base class at any time; `onInitialize` is that of the request which the job handles. -/
inductive Action where
  | serve
  | line (b : Bytes)
  | readFails (e : Exn)
  | close
  | breaks
  | begin (i : Nat)
  | hook (i : Nat) (outcome : Outcome)
  | locked (i : Nat)
  | drained (i : Nat) (raised : Option Exn)
  | cancel (i : Nat)
  | interrupted (i : Nat)
  | registers (registry : Registry)
  | event (params : Dict)
  | onInitialize (i : Nat)
  | callTool (name : Str)
  | callHostIngress (name : Str)

namespace Server

/-- A step of a job that has something to do. -/
def resume (rt : Runtime) (s : Server) (i : Nat) : Action → JobPc → Option Server
  | .begin _, .created r =>
    if s.isCancelling i then some (s.finish i (.error .cancelled))
    else some (s.handleRequest rt i r)
  | .hook _ outcome, .awaiting r hook => some (s.completeRequest rt i r hook outcome)
  | .locked _, .locking data handled =>
    if s.writeLock.owner = some i then some (s.write rt i data handled (raise rt i handled))
    else none
  | .drained _ none, .draining _ => some (s.releaseWrite.finish i (.ok ()))
  | .drained _ (some e), .draining handled => some (s.releaseWrite.raise rt i handled e)
  | .interrupted _, .locking _ handled =>
    if s.isCancelling i then
      let writeLock :=
        if s.writeLock.owner = some i then s.writeLock.release else s.writeLock.cancelWaiter i
      some ({ s with writeLock }.raise rt i handled .cancelled)
    else none
  | .interrupted _, .draining handled =>
    if s.isCancelling i then some (s.releaseWrite.raise rt i handled .cancelled) else none
  | _, _ => none

end Server

open Server

/-- One step of a service. `raised` is what the decoders of the standard library raise. -/
def step (rt : Runtime) (raised : DecodeError → Exn) (version : Str) (s : Server) :
    Action → Option Server
  | .serve =>
    match s.loop with
    | .closed => some { s with loop := s.again, connected := true, broken := false }
    | _ => none
  | .line b =>
    match s.loop with
    | .reading => some (s.readLine rt raised b)
    | _ => none
  | .readFails e =>
    match s.loop with
    | .reading => some { s with loop := .raised none e }
    | _ => none
  | .close =>
    if s.jobs.any Job.inflight then none
    else
      match s.loop with
      | .finishing => some { s with loop := .closed, connected := false }
      | .raised _ _ => some { s with loop := .closed, connected := false }
      | _ => none
  | .breaks => some { s with broken := true }
  | .begin i => (s.pc i).bind (s.resume rt i (.begin i))
  | .hook i outcome => (s.pc i).bind (s.resume rt i (.hook i outcome))
  | .locked i => (s.pc i).bind (s.resume rt i (.locked i))
  | .drained i raised => (s.pc i).bind (s.resume rt i (.drained i raised))
  | .interrupted i => (s.pc i).bind (s.resume rt i (.interrupted i))
  | .cancel i =>
    match s.pc i with
    | none => none
    | some (.ended _) => none
    | some _ =>
      some { s with jobs := s.jobs.modify i fun job => { job with cancelling := true } }
  | .registers registry => some { s with registry }
  | .event params => some (s.emitEvent rt params)
  | .onInitialize i =>
    match s.pc i with
    | some (.awaiting _ (.onInitialize params)) => some (s.onInitialize version params)
    | _ => none
  | .callTool name => some (s.callTool name)
  | .callHostIngress name => some (s.callHostIngress name)

/-- A service of a protocol version in an interpreter. -/
def service (rt : Runtime) (raised : DecodeError → Exn) (version : Str) : Machine Server Action where
  start := {}
  step := step rt raised version

end KestrelSdk.Service

import KestrelSdk.Client.Engine
import KestrelSdk.Protocol.Context
import KestrelSdk.Protocol.Tools

namespace KestrelSdk.Client

open Json Protocol Asyncio

/-- A call of the client's API. -/
abbrev Tid := Nat

inductive Op where
  | start
  | request (method : Str) (params : Dict)
  | initializeCall (clientInfo config : Option Dict)
  | health
  | listTools
  | callTool (name : Value) (arguments : Dict) (context : Option ToolExecutionContext)
  | callHostIngress (name payload : Value)
  | prepareConfigTransition (nextConfig : Value)
  | shutdown
  | close

/-- What a call raises. -/
inductive Raised where
  | cancelled
  | remote (message : Str)
  | terminal (x : Terminal)
  | encode (e : DumpError)
  | stream
  | protocolError (text : Str)
  | typeError
  | attributeError
  | configTransitionError (text : Str)
  | configTransitionUnsupported (text : Str)
  | hostIngressError (text : Str)
  | hostIngressUnsupported (text : Str)
  | hostIngressUnknownName (text : Str)
  | contextUnsupported (text : Str)

inductive CallPc where
  | idle
  | lifecycle
  | draining (id : Nat)
  | waiting (id : Nat)
  | closing
  | finished (r : Except Raised Value)

/-- A call: `live` is `capabilities.supports_live_apply` as the transition read it before its
request, and `id` the identifier of the frame it wrote. -/
structure Call where
  op : Op := .start
  pc : CallPc := .idle
  cancel : Bool := false
  live : Bool := false
  id : Option Nat := none

structure State extends Engine where
  calls : Tid → Call := fun _ => {}
  capabilities : Dict := []
  ready : Bool := false
  tools : List ToolMetadata := []
  restartRequired : Bool := false
  shutdownStarted : Bool := false
  lifecycleLock : FifoLock := {}

namespace State

def setCall (s : State) (t : Tid) (c : Call) : State :=
  { s with calls := Function.update s.calls t c }

def setPc (s : State) (t : Tid) (p : CallPc) : State := s.setCall t { s.calls t with pc := p }

def finish (s : State) (t : Tid) (r : Except Raised Value) : State := s.setPc t (.finished r)

/-- `_mark_restart_required`. -/
def markRestartRequired (s : State) : State := { s with restartRequired := true, ready := false }

/-- The engine of a client after a step of its own. -/
def setEngine (s : State) (e : Engine) : State := { s with toEngine := e }

def capability (s : State) (name : Str) : Option Dict :=
  match s.capabilities.get name with
  | some (.dict d) => some d
  | _ => none

def configTransitionCapabilities (s : State) : Option ConfigTransitionCapabilities :=
  (s.capability CONFIG_TRANSITION_CAPABILITY).bind ConfigTransitionCapabilities.fromDict

def toolExecutionContextCapabilities (s : State) : Option ToolExecutionContextCapabilities :=
  (s.capability TOOL_EXECUTION_CONTEXT_CAPABILITY).bind ToolExecutionContextCapabilities.fromDict

def hostIngressCapabilities (s : State) : Option HostIngressCapabilities :=
  (s.capability HOST_INGRESS_CAPABILITY).bind HostIngressCapabilities.fromDict

/-- Whether the exception is a `ProtocolError`: an error response, or the terminal error of a
stream with a malformed frame. -/
def isProtocolError : Raised → Bool
  | .remote _ => true
  | .terminal .protocol => true
  | .protocolError _ => true
  | _ => false

def releaseLifecycle (s : State) : State := { s with lifecycleLock := s.lifecycleLock.release }

/-- The `except` clauses around the request of call `t`. -/
def fail (s : State) (t : Tid) (e : Raised) : State :=
  match (s.calls t).op with
  | .prepareConfigTransition _ =>
    match e with
    | .cancelled => (s.markRestartRequired.releaseLifecycle).finish t (.error .cancelled)
    | e =>
      let s :=
        if isProtocolError e && s.closedExc.isNone then s else s.markRestartRequired
      s.releaseLifecycle.finish t (.error (.configTransitionError (str "config transition failed")))
  | .shutdown => s.releaseLifecycle.finish t (.error e)
  | .callHostIngress _ _ =>
    match e with
    | .cancelled => s.finish t (.error .cancelled)
    | _ => s.finish t (.error (.hostIngressError (str "host ingress failed")))
  | _ => s.finish t (.error e)

/-- `request`, up to its first await. -/
def request (py : Interpreter) (s : State) (t : Tid) (method : Str) (params : Dict)
    (writeOk : Bool) : State :=
  match s.closedExc with
  | some x => s.fail t (.terminal x)
  | none =>
    let s := s.setEngine s.createReadTask
    let d := s.desk.enroll
    match encodeMessage py (JsonRpcRequest.toDict ⟨method, params, .int d.nextId⟩) with
    | .error e => ({ s with desk := d.abandon d.nextId }).fail t (.encode e)
    | .ok _ =>
      if writeOk then
        ({ s with desk := d.write method params }).setCall t
          { s.calls t with pc := .draining d.nextId, id := some d.nextId }
      else ({ s with desk := d.abandon d.nextId }).fail t .stream

/-- The section of `prepare_config_transition` under the lifecycle lock. -/
def transition (py : Interpreter) (s : State) (t : Tid) (nextConfig : Value) (writeOk : Bool) :
    State :=
  let refuse (e : Raised) := s.releaseLifecycle.finish t (.error e)
  if s.shutdownStarted then
    refuse (.configTransitionError (str "service shutdown is already in progress"))
  else if s.restartRequired then
    refuse (.configTransitionError (str "service replacement is already required"))
  else
    match s.configTransitionCapabilities with
    | none =>
      refuse (.configTransitionUnsupported
        (str "service does not advertise config transition support"))
    | some c =>
      (s.setCall t { s.calls t with live := c.supportsLiveApply }).request py t CONFIG_TRANSITION
        [(.str (str "config"), nextConfig)] writeOk

/-- The section of `shutdown` under the lifecycle lock. -/
def shutdownSection (py : Interpreter) (s : State) (t : Tid) (writeOk : Bool) : State :=
  if s.shutdownStarted then
    s.releaseLifecycle.finish t (.error (.protocolError (str "shutdown is already in progress")))
  else ({ s with shutdownStarted := true }).request py t SHUTDOWN [] writeOk

/-- The section under the lifecycle lock of the call that owns it. -/
def lifecycleSection (py : Interpreter) (s : State) (t : Tid) (writeOk : Bool) : State :=
  match (s.calls t).op with
  | .prepareConfigTransition c => s.transition py t c writeOk
  | _ => s.shutdownSection py t writeOk

/-- `async with self._lifecycle_lock`. -/
def enterLifecycle (py : Interpreter) (s : State) (t : Tid) (writeOk : Bool) : State :=
  match s.lifecycleLock.acquire t with
  | (l, true) => ({ s with lifecycleLock := l }).lifecycleSection py t writeOk
  | (l, false) => ({ s with lifecycleLock := l }).setPc t .lifecycle

/-- The parameters of the `initialize` request. -/
def initializeParams (protocolVersion : Str) (clientInfo config : Option Dict) : Dict :=
  [(.str (str "protocolVersion"), .str protocolVersion),
    (.str (str "clientInfo"),
      match clientInfo with
      | some (e :: d) => .dict (e :: d)
      | _ => .dict [(.str (str "name"), .str (str "kestrel-sdk-host"))])] ++
    match config with
    | some d => [(.str (str "config"), .dict d)]
    | none => []

/-- `call_tool`. -/
def callTool (py : Interpreter) (s : State) (t : Tid) (name : Value) (arguments : Dict)
    (context : Option ToolExecutionContext) (writeOk : Bool) : State :=
  let params : Dict := [(.str (str "name"), name), (.str (str "arguments"), .dict arguments)]
  if s.restartRequired then
    s.finish t (.error (.protocolError
      (str "service replacement is required before tools can be called")))
  else if !s.ready then
    s.finish t (.error (.protocolError (str "health must report ready before tools can be called")))
  else
    match context with
    | none => s.request py t TOOLS_CALL params writeOk
    | some c =>
      match s.toolExecutionContextCapabilities with
      | some caps =>
        if caps.supports c.version then
          s.request py t TOOLS_CALL (params ++ [(.str TOOL_EXECUTION_CONTEXT, c.toDict)]) writeOk
        else
          s.finish t (.error (.contextUnsupported
            (str "service does not advertise support for this tool execution context")))
      | none =>
        s.finish t (.error (.contextUnsupported
          (str "service does not advertise support for this tool execution context")))

/-- `call_host_ingress`. -/
def callHostIngress (py : Interpreter) (s : State) (t : Tid) (name payload : Value)
    (writeOk : Bool) : State :=
  if s.shutdownStarted || s.restartRequired then
    s.finish t (.error (.hostIngressError (str "host ingress is unavailable")))
  else
    match validateHostIngressName name, validateHostIngressPayload py payload with
    | .ok name, .ok payload =>
      match s.hostIngressCapabilities with
      | none => s.finish t (.error (.hostIngressUnsupported (str "host ingress is not supported")))
      | some caps =>
        if caps.supports name then
          s.request py t HOST_INGRESS
            [(.str (str "name"), .str name), (.str (str "payload"), payload)] writeOk
        else
          s.finish t (.error (.hostIngressUnknownName (str "host ingress name is not available")))
    | _, _ => s.finish t (.error (.hostIngressError (str "host ingress failed")))

/-- `close`, up to its await. -/
def closeCall (s : State) (t : Tid) : State :=
  (({ s with shutdownStarted := true }).setEngine s.createCloseTask).setPc t .closing

/-- A call, up to its first await. -/
def invoke (py : Interpreter) (protocolVersion : Str) (s : State) (t : Tid) (writeOk : Bool) :
    State :=
  match (s.calls t).op with
  | .start =>
    match s.closedExc with
    | some x => s.finish t (.error (.terminal x))
    | none => (s.setEngine s.createReadTask).finish t (.ok .none)
  | .request method params => s.request py t method params writeOk
  | .initializeCall clientInfo config =>
    s.request py t INITIALIZE (initializeParams protocolVersion clientInfo config) writeOk
  | .health =>
    if s.restartRequired then
      ({ s with ready := false }).finish t (.ok (.dict
        [(.str (str "status"), .str (str "restart-required")), (.str (str "ready"), .bool false)]))
    else s.request py t HEALTH [] writeOk
  | .listTools =>
    if s.restartRequired then
      s.finish t (.error (.protocolError
        (str "service replacement is required before tools are exposed")))
    else if !s.ready then
      s.finish t (.error (.protocolError (str "health must report ready before tools are exposed")))
    else s.request py t TOOLS_LIST [] writeOk
  | .callTool name arguments context => s.callTool py t name arguments context writeOk
  | .callHostIngress name payload => s.callHostIngress py t name payload writeOk
  | .prepareConfigTransition (.dict _) =>
    match s.configTransitionCapabilities with
    | none =>
      s.finish t (.error (.configTransitionUnsupported
        (str "service does not advertise config transition support")))
    | some _ => s.enterLifecycle py t writeOk
  | .prepareConfigTransition _ =>
    s.finish t (.error (.configTransitionError (str "next config must be an object")))
  | .shutdown => s.enterLifecycle py t writeOk
  | .close => s.closeCall t

end State

end KestrelSdk.Client

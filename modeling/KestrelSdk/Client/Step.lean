import KestrelSdk.Asyncio.Machine
import KestrelSdk.Client.State

namespace KestrelSdk.Client

open Json Protocol Asyncio

/-- `result.get("ready") is True or result.get("status") in {"ready", "ok"}`; `none` is the
`TypeError` of an unhashable status. -/
def readiness (d : Dict) : Option Bool :=
  match Dict.get d (str "ready") with
  | some (.bool true) => some true
  | _ =>
    match Dict.get d (str "status") with
    | some (.str s) => some (s == str "ready" || s == str "ok")
    | some (.list _) => none
    | some (.dict _) => none
    | _ => some false

/-- `_dict_field`; `none` is `ProtocolError`. -/
def dictField (d : Dict) (key : String) : Option Dict :=
  match Dict.get d (str key) with
  | none => some []
  | some (.dict x) => some x
  | some _ => none

namespace State

/-- `health` after its reply. -/
def completeHealth (s : State) (t : Tid) (v : Value) : State :=
  match v with
  | .dict d =>
    if s.restartRequired then
      ({ s with ready := false }).finish t (.ok (.dict
        [(.str (str "status"), .str (str "restart-required")), (.str (str "ready"), .bool false)]))
    else
      match readiness d with
      | some b => ({ s with ready := b }).finish t (.ok v)
      | none => s.finish t (.error .typeError)
  | _ => s.finish t (.error (.protocolError (str "health result must be an object")))

/-- `list_tools` after its reply. -/
def completeListTools (s : State) (t : Tid) (v : Value) : State :=
  let refuse :=
    s.finish t (.error (.protocolError (str "tools/list result must contain a tools list")))
  match v with
  | .dict d =>
    match Dict.get d (str "tools") with
    | some (.list l) =>
      match l.mapM ToolMetadata.fromDict with
      | .ok tools => ({ s with tools }).finish t (.ok v)
      | .error (.protocol text) => s.finish t (.error (.protocolError text))
      | .error .attribute => s.finish t (.error .attributeError)
    | _ => refuse
  | _ => refuse

/-- `initialize` after its reply. -/
def completeInitialize (protocolVersion : Str) (s : State) (t : Tid) (v : Value) : State :=
  let refuse (text : String) := s.finish t (.error (.protocolError (str text)))
  match v with
  | .dict d =>
    match Dict.get d (str "protocolVersion") with
    | some (.str p) =>
      if p = protocolVersion then
        match dictField d "serverInfo" with
        | none => refuse "serverInfo must be an object"
        | some _ =>
          match dictField d "capabilities" with
          | none => refuse "capabilities must be an object"
          | some capabilities => ({ s with capabilities }).finish t (.ok v)
      else refuse "service returned incompatible protocolVersion"
    | _ => refuse "service returned incompatible protocolVersion"
  | _ => refuse "initialize result must be an object"

/-- `prepare_config_transition` after its reply. -/
def completeTransition (s : State) (t : Tid) (v : Value) : State :=
  let fence (text : String) :=
    s.markRestartRequired.releaseLifecycle.finish t (.error (.configTransitionError (str text)))
  match v with
  | .dict d =>
    match Transition.fromDict d with
    | .error .protocol => fence "config transition failed"
    | .error .unhashable => s.releaseLifecycle.finish t (.error .typeError)
    | .ok .applied =>
      if (s.calls t).live then s.releaseLifecycle.finish t (.ok Transition.applied.toDict)
      else fence "service returned an unadvertised config transition action"
    | .ok .restart =>
      s.markRestartRequired.releaseLifecycle.finish t (.ok Transition.restart.toDict)
  | _ => fence "config transition failed"

/-- What call `t` does with the result of its request. -/
def complete (py : Interpreter) (protocolVersion : Str) (s : State) (t : Tid) (v : Value) : State :=
  match (s.calls t).op with
  | .initializeCall _ _ => s.completeInitialize protocolVersion t v
  | .health => s.completeHealth t v
  | .listTools => s.completeListTools t v
  | .callHostIngress _ _ =>
    match validateHostIngressPayload py v with
    | .ok v => s.finish t (.ok v)
    | .error _ => s.finish t (.error (.hostIngressError (str "host ingress failed")))
  | .prepareConfigTransition _ => s.completeTransition t v
  | .shutdown =>
    match v with
    | .dict _ => s.releaseLifecycle.finish t (.ok v)
    | _ =>
      s.releaseLifecycle.finish t (.error (.protocolError
        (str "shutdown result must be an object")))
  | _ => s.finish t (.ok v)

/-- The `finally` of `request`, and then what the call does with the exception. -/
def unwind (s : State) (t : Tid) (id : Nat) (e : Raised) : State :=
  ({ s with desk := s.desk.abandon id }).fail t e

/-- A call that waits runs on. `ok` tells whether `drain()`, or the next `write`, succeeds. -/
def resume (py : Interpreter) (protocolVersion : Str) (s : State) (t : Tid) (ok : Bool) :
    Option State :=
  let c := s.calls t
  match c.pc with
  | .lifecycle =>
    if c.cancel then
      let l :=
        if s.lifecycleLock.owner = some t then s.lifecycleLock.release
        else s.lifecycleLock.cancelWaiter t
      some (({ s with lifecycleLock := l }).finish t (.error .cancelled))
    else if s.lifecycleLock.owner = some t then some (s.lifecycleSection py t ok)
    else none
  | .draining id =>
    if c.cancel then some (s.unwind t id .cancelled)
    else if ok then some (s.setPc t (.waiting id))
    else some (s.unwind t id .stream)
  | .waiting id =>
    match s.desk.futures id with
    | .pending => none
    | .cancelled => some (s.unwind t id .cancelled)
    | .done r =>
      if c.cancel then some (s.unwind t id .cancelled)
      else
        match r with
        | .ok v =>
          some (({ s with desk := s.desk.abandon id }).complete py protocolVersion t v)
        | .error (.remote m) => some (s.unwind t id (.remote m))
        | .error (.terminal x) => some (s.unwind t id (.terminal x))
  | .closing =>
    if c.cancel then some (s.finish t (.error .cancelled))
    else
      match s.closeTask with
      | .done => some (s.finish t (.ok .none))
      | _ => none
  | _ => none

/-- `task.cancel()` on the task of a call. -/
def cancel (s : State) (t : Tid) : Option State :=
  let c := s.calls t
  match c.pc with
  | .idle => none
  | .finished _ => none
  | .waiting id => some (({ s with desk := s.desk.cancel id }).setCall t { c with cancel := true })
  | _ => some (s.setCall t { c with cancel := true })

end State

/-- What can happen to a client. -/
inductive Action where
  | call (t : Tid) (op : Op) (writeOk : Bool)
  | resume (t : Tid) (ok : Bool)
  | cancel (t : Tid)
  | signal (g : Signal)

/-- One step of the client. -/
def step (py : Interpreter) (protocolVersion : Str) (s : State) : Action → Option State
  | .call t op writeOk =>
    match (s.calls t).pc with
    | .idle => some ((s.setCall t { op }).invoke py protocolVersion t writeOk)
    | _ => none
  | .resume t ok => s.resume py protocolVersion t ok
  | .cancel t => s.cancel t
  | .signal g => (s.toEngine.step py s.shutdownStarted g).map s.setEngine

/-- The client of one child, in an interpreter and at a protocol version. -/
def machine (py : Interpreter) (protocolVersion : Str) : Machine State Action where
  start := {}
  step := step py protocolVersion

/-- A line that the peer framed is read as the message that it decodes to. -/
theorem step_line {py peer : Interpreter} {v : Str} {s : State} {data : Value} {b : Bytes}
    {m : JsonRpcMessage} (hread : s.mail.read = .reading) (hb : encodeMessage peer data = .ok b)
    (hd : depth data ≤ py.nesting) (hm : parseMessage (image py.floatOf data) = .ok m) :
    (machine py v).step s (.signal (.line b)) = some (s.setEngine (s.readMessage m)) := by
  simp only [machine, step, Engine.step, hread, Engine.readLine, decodeMessage_encodeMessage hb, hd,
    if_true, hm, Option.map_some]

end KestrelSdk.Client

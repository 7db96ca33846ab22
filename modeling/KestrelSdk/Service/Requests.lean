import KestrelSdk.Protocol.Context

/-! What `_dispatch` checks of a request before it calls a hook or a handler. -/

namespace KestrelSdk.Service

open Json Protocol
open Encoding (DateTime)

/-- An exception with its `str()`, none where `str()` raises. -/
inductive Exn where
  | protocol (text : Option Str)
  | exception (text : Option Str)
  | cancelled
  deriving DecidableEq

/-- What the service takes from its interpreter: `isoOther` reads the forms of ISO 8601 beside that
of `isoformat()`, `raises` is what `json.dumps` raises, and `surrogates` the `str()` of the
`UnicodeEncodeError` of a lone surrogate. -/
structure Runtime where
  py : Interpreter
  isoOther : Str → Option DateTime
  raises : DumpError → Exn
  surrogates : Str

def sampleRuntime : Runtime where
  py := .floatless
  isoOther := fun _ => none
  raises := fun _ => .exception (some (str "not JSON serializable"))
  surrogates := str "surrogates not allowed"

/-- A `ProtocolError` of the SDK. -/
def refused (text : String) : Exn := .protocol (some (str text))

def ContextError.exn (rt : Runtime) : ContextError → Exn
  | .protocol text => .protocol (some text)
  | .unicodeEncode => .exception (some rt.surrogates)
  | .dump e => rt.raises e

/-- What `tools/call` hands to `call_tool`, and the context of its scope. -/
structure ToolCall where
  name : Str
  arguments : Dict
  context : Option ToolExecutionContext

/-- The execution context of a `tools/call`. -/
def executionContext (rt : Runtime) (capabilities : Option ToolExecutionContextCapabilities)
    (params : Dict) : Except Exn (Option ToolExecutionContext) :=
  match params.get TOOL_EXECUTION_CONTEXT with
  | none => .ok none
  | some v =>
    match capabilities with
    | none => .error (refused "tool execution context is not supported")
    | some capabilities =>
      match ToolExecutionContext.fromDict rt.py rt.isoOther v with
      | .error e => .error (ContextError.exn rt e)
      | .ok context =>
        if capabilities.supports context.version then .ok (some context)
        else .error (refused "tool execution context version is not supported")

/-- The checks of `tools/call`. -/
def toolsCall (rt : Runtime) (capabilities : Option ToolExecutionContextCapabilities)
    (params : Dict) : Except Exn ToolCall :=
  match params.get (str "name") with
  | some (.str (c :: name)) =>
    match params.get (str "arguments") with
    | none => (executionContext rt capabilities params).map (.mk (c :: name) [])
    | some .none => (executionContext rt capabilities params).map (.mk (c :: name) [])
    | some (.dict arguments) =>
      (executionContext rt capabilities params).map (.mk (c :: name) arguments)
    | some _ => .error (refused "tools/call arguments must be an object")
  | _ => .error (refused "tools/call requires name")

/-- The checks of `host/ingress`: its name and its payload. -/
def hostIngress (rt : Runtime) (handlers : List Str) (params : Dict) : Except Exn (Str × Value) :=
  if hasKeys params [str "name", str "payload"] then
    match validateHostIngressName ((params.get (str "name")).getD .none) with
    | .error text => .error (.protocol (some text))
    | .ok name =>
      if name ∈ handlers then
        match validateHostIngressPayload rt.py ((params.get (str "payload")).getD .none) with
        | .error text => .error (.protocol (some text))
        | .ok payload => .ok (name, payload)
      else .error (refused "host ingress is unavailable")
  else .error (refused "host ingress request is invalid")

/-- The checks of a config transition. -/
def nextConfig (capabilities : Option ConfigTransitionCapabilities) (params : Dict) :
    Except Exn (ConfigTransitionCapabilities × Dict) :=
  match capabilities with
  | none => .error (refused "config transitions are not supported")
  | some capabilities =>
    match params.get (str "config") with
    | some (.dict config) => .ok (capabilities, config)
    | _ => .error (refused "config transition requires config")

end KestrelSdk.Service

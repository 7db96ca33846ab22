import KestrelSdk.Protocol.Ingress

namespace KestrelSdk.Protocol

open Json

def CONFIG_TRANSITION_CAPABILITY : Str := str "config_transition"
def INBOUND_PRODUCER_CAPABILITY : Str := str "inbound_producer"
def HOST_INGRESS_CAPABILITY : Str := str "host_ingress"
def TOOL_EXECUTION_CONTEXT : Str := str "execution_context"
def TOOL_EXECUTION_CONTEXT_CAPABILITY : Str := str "tool_execution_context"
def TOOL_EXECUTION_CONTEXT_VERSION : Int := 1

/-- `set(data) == keys` for distinct `keys`. -/
def hasKeys (data : Dict) (keys : List Str) : Bool :=
  data.all (fun e => keys.any fun k => e.1 = .str k) && keys.all fun k => data.has k

structure ConfigTransitionCapabilities where
  supportsLiveApply : Bool := false
  deriving DecidableEq

namespace ConfigTransitionCapabilities

def toDict (c : ConfigTransitionCapabilities) : Value :=
  .dict [(.str (str "prepare"), .bool true),
    (.str (str "supports_live_apply"), .bool c.supportsLiveApply)]

/-- `from_dict`; `none` is `ProtocolError`. -/
def fromDict (data : Dict) : Option ConfigTransitionCapabilities :=
  match data.get (str "prepare") with
  | some (.bool true) =>
    match data.get (str "supports_live_apply") with
    | none => some ⟨false⟩
    | some (.bool b) => some ⟨b⟩
    | some _ => none
  | _ => none

end ConfigTransitionCapabilities

/-- A tuple of distinct positive versions. -/
structure ToolExecutionContextCapabilities where
  versions : List Int
  nonempty : versions ≠ []
  positive : ∀ v ∈ versions, 1 ≤ v
  nodup : versions.Nodup

namespace ToolExecutionContextCapabilities

def toDict (c : ToolExecutionContextCapabilities) : Value :=
  .dict [(.str (str "versions"), .list (c.versions.map .int))]

def intOf : Value → Option Int
  | .int i => some i
  | _ => none

def fromDict (data : Dict) : Option ToolExecutionContextCapabilities :=
  if hasKeys data [str "versions"] then
    match data.get (str "versions") with
    | some (.list l) =>
      match l.mapM intOf with
      | none => none
      | some vs =>
        if h : vs ≠ [] ∧ (∀ v ∈ vs, 1 ≤ v) ∧ vs.Nodup then some ⟨vs, h.1, h.2.1, h.2.2⟩ else none
    | _ => none
  else none

def supports (c : ToolExecutionContextCapabilities) (version : Int) : Bool :=
  c.versions.contains version

end ToolExecutionContextCapabilities

/-- A versioned list of distinct slugs. -/
structure HostIngressCapabilities where
  names : List Str
  nonempty : names ≠ []
  nodup : names.Nodup
  valid : ∀ n ∈ names, validateHostIngressName (.str n) = .ok n

namespace HostIngressCapabilities

def toDict (c : HostIngressCapabilities) : Value :=
  .dict [(.str (str "version"), .int HOST_INGRESS_VERSION),
    (.str (str "names"), .list (c.names.map .str))]

def strOf : Value → Option Str
  | .str s => some s
  | _ => none

/-- The constructor's checks on the names. -/
def ofNames (names : List Str) : Option HostIngressCapabilities :=
  if h : names ≠ [] ∧ names.Nodup ∧ ∀ n ∈ names, validateHostIngressName (.str n) = .ok n then
    some ⟨names, h.1, h.2.1, h.2.2⟩
  else none

def fromDict (data : Dict) : Option HostIngressCapabilities :=
  if hasKeys data [str "version", str "names"] then
    match data.get (str "version"), data.get (str "names") with
    | some (.int v), some (.list l) =>
      match l.mapM strOf with
      | none => none
      | some names => if v = HOST_INGRESS_VERSION then ofNames names else none
    | _, _ => none
  else none

def supports (c : HostIngressCapabilities) (name : Str) : Bool := c.names.contains name

end HostIngressCapabilities

/-- The two outcomes of a config transition. -/
inductive Transition where
  | restart
  | applied
  deriving DecidableEq

namespace Transition

def action : Transition → Str
  | .restart => str "restart"
  | .applied => str "applied"

def toDict (t : Transition) : Value := .dict [(.str (str "action"), .str t.action)]

/-- Why `ConfigTransitionResult.from_dict` raises: `ProtocolError`, or the `TypeError` of an
unhashable action. -/
inductive Malformed where
  | protocol
  | unhashable
  deriving DecidableEq

def fromDict (data : Dict) : Except Malformed Transition :=
  match data.get (str "action") with
  | some (.str s) =>
    if s = Transition.restart.action then .ok .restart
    else if s = Transition.applied.action then .ok .applied
    else .error .protocol
  | some (.list _) => .error .unhashable
  | some (.dict _) => .error .unhashable
  | _ => .error .protocol

end Transition

end KestrelSdk.Protocol

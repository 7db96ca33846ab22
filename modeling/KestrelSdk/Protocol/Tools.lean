import KestrelSdk.Protocol.Capabilities

namespace KestrelSdk.Protocol

open Json

/-- Tool metadata advertised by an isolated feature service. -/
structure ToolMetadata where
  name : Str
  description : Str
  inputSchema : Dict
  skillId : Option Str
  version : Option Str
  capabilityTags : List Str
  permissionTags : List Str
  category : Option Str
  commandPrefix : Option Str

/-- `ProtocolError` with its text, or the `AttributeError` of an item that is no dict. -/
inductive ToolError where
  | protocol (text : Str)
  | attribute
  deriving DecidableEq

def requireToolStr (d : Dict) (key : String) : Except ToolError Str :=
  match requireStr d key with
  | .ok s => .ok s
  | .error _ => .error (.protocol (str key ++ str " must be a non-empty string"))

def optionalStr (d : Dict) (key : String) : Except ToolError (Option Str) :=
  match Dict.get d (str key) with
  | none => .ok none
  | some .none => .ok none
  | some (.str (c :: s)) => .ok (some (c :: s))
  | some _ => .error (.protocol (str key ++ str " must be a non-empty string when provided"))

def optionalStrList (d : Dict) (key : String) : Except ToolError (List Str) :=
  match Dict.get d (str key) with
  | none => .ok []
  | some .none => .ok []
  | some (.list l) =>
    match l.mapM HostIngressCapabilities.strOf with
    | some ss => .ok ss
    | none => .error (.protocol (str key ++ str " must be a list of strings when provided"))
  | some _ => .error (.protocol (str key ++ str " must be a list of strings when provided"))

namespace ToolMetadata

def fromDict (v : Value) : Except ToolError ToolMetadata :=
  match v with
  | .dict data =>
    let schema :=
      match Dict.get data (str "input_schema") with
      | some v => some v
      | none => Dict.get data (str "inputSchema")
    match schema with
    | some (.dict inputSchema) => do
      let name ← requireToolStr data "name"
      let description ← requireToolStr data "description"
      let skillId ← optionalStr data "skill_id"
      let version ← optionalStr data "version"
      let capabilityTags ← optionalStrList data "capability_tags"
      let permissionTags ← optionalStrList data "permission_tags"
      let category ← optionalStr data "category"
      let commandPrefix ← optionalStr data "command_prefix"
      return ⟨name, description, inputSchema, skillId, version, capabilityTags, permissionTags,
        category, commandPrefix⟩
    | _ => .error (.protocol (str "tool metadata requires input_schema"))
  | _ => .error .attribute

end ToolMetadata

end KestrelSdk.Protocol

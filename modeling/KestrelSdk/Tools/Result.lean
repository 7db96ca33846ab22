import KestrelSdk.Json.Value

namespace KestrelSdk.Tools

open Json (Str str Value Key Dict)

inductive ToolResultStatus where
  | ok
  | error
  | partly
  deriving DecidableEq

namespace ToolResultStatus

def value : ToolResultStatus → Str
  | .ok => str "ok"
  | .error => str "error"
  | .partly => str "partial"

/-- `ToolResultStatus(value)`. -/
def ofText (s : Str) : Option ToolResultStatus :=
  [ok, error, partly].find? fun t => t.value == s

end ToolResultStatus

/-- What `__post_init__` asks of an entry of `parts`. -/
def validPart : Value → Bool
  | .dict d =>
    match Dict.get d (str "type") with
    | some (.str t) => !t.isEmpty
    | _ => false
  | _ => false

/-- A text that is there and not empty. -/
def given : Option Str → Bool
  | some t => !t.isEmpty
  | none => false

/-- The invariants between the status and the two texts. -/
def textsAgree : ToolResultStatus → Option Str → Option Str → Bool
  | .ok, confirmation, error => given confirmation && error.isNone
  | .error, confirmation, error => given error && confirmation.isNone
  | .partly, confirmation, error => given confirmation && given error

/-- A `ToolResult` that passed `__post_init__`. -/
structure ToolResult where
  status : ToolResultStatus
  confirmation : Option Str
  error : Option Str
  data : Option Dict
  parts : Option (List Value)
  parts_valid : ∀ l ∈ parts, l.all validPart = true
  texts_agree : textsAgree status confirmation error = true

namespace ToolResult

def optionalText : Value → Option (Option Str)
  | .none => some none
  | .str s => some (some s)
  | _ => none

def optionalDict : Value → Option (Option Dict)
  | .none => some none
  | .dict d => some (some d)
  | _ => none

def optionalParts : Value → Option (Option {l : List Value // l.all validPart = true})
  | .none => some none
  | .list l => if h : l.all validPart = true then some (some ⟨l, h⟩) else none
  | _ => none

/-- `ToolResult(status, confirmation, error, data, parts)`. -/
def new (status confirmation error data parts : Value) : Option ToolResult := do
  let status ← match status with
    | .str s => ToolResultStatus.ofText s
    | _ => none
  let confirmation ← optionalText confirmation
  let error ← optionalText error
  let data ← optionalDict data
  let parts ← optionalParts parts
  if h : textsAgree status confirmation error = true then
    return ⟨status, confirmation, error, data, parts.map Subtype.val, by
      intro l hl
      obtain ⟨p, -, rfl⟩ := Option.map_eq_some_iff.1 hl
      exact p.2, h⟩
  else none

/-- A key that is left out when there is nothing to write. -/
def shown (name : String) : Option Value → Dict
  | some v => [(.str (str name), v)]
  | none => []

/-- The parts, left out when there are none. -/
def shownParts : Option (List Value) → Option Value
  | some (p :: ps) => some (.list (p :: ps))
  | _ => none

/-- `to_dict`. -/
def toDict (r : ToolResult) : Dict :=
  (.str (str "status"), .str r.status.value) :: (shown "confirmation" (r.confirmation.map .str) ++
    (shown "error" (r.error.map .str) ++
      (shown "data" (r.data.map .dict) ++ shown "parts" (shownParts r.parts))))

end ToolResult

/-- `_validate_envelope`. An envelope without a status is no argument list of the class. -/
def validEnvelope (d : Dict) : Bool :=
  match d.get (str "status") with
  | none => false
  | some status =>
    (ToolResult.new status ((d.get (str "confirmation")).getD .none)
      ((d.get (str "error")).getD .none) ((d.get (str "data")).getD .none)
      ((d.get (str "parts")).getD .none)).isSome

/-- `envelope.get("parts") or []`. -/
def partsOf (d : Dict) : List Value :=
  match d.get (str "parts") with
  | some (.list l) => l
  | _ => []

/-- The arguments of `for_tool`; `none` is a value of another type. -/
structure WrapperMetadata where
  name : Option Str
  pending_parts : Option (List Value)
  include_success : Option Bool

/-- `payload["status"] != "error"`. -/
def succeeds : Value → Bool
  | .str s => s != str "error"
  | _ => true

/-- The key `success`, added on request. -/
def addSuccess (include_success : Bool) (payload : Dict) : Option Dict :=
  if include_success then
    (payload.get (str "status")).map fun status =>
      payload.set (str "success") (.bool (succeeds status))
  else some payload

/-- The buffered parts, put before those of the envelope. -/
def addParts (pending_parts : List Value) (payload : Dict) : Dict :=
  if pending_parts.isEmpty then payload
  else payload.set (str "parts") (.list (pending_parts ++ partsOf payload))

/-- What `for_tool` makes of the envelope, none where it refuses its arguments. -/
def wrapEnvelope (m : WrapperMetadata) (payload : Dict) : Option Dict := do
  let name ← m.name
  guard (name ≠ [])
  let include_success ← m.include_success
  let pending_parts ← m.pending_parts
  guard (pending_parts.all validPart)
  let payload ← addSuccess include_success (payload.set (str "tool") (.str name))
  return addParts pending_parts payload

end KestrelSdk.Tools

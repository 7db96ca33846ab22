import KestrelSdk.Commands.Tokens
import KestrelSdk.Json.Decode
import KestrelSdk.Order.Mapping

namespace KestrelSdk.Commands

open Json (Str str Value PyFloat Interpreter LoadError)
open Encoding (isSpace strip words splitMax)
open KestrelSdk.Order (Mapping)

/-- A tool parameter. A default of `None` is no default. -/
structure ToolParameter where
  name : Str
  type : Str
  default : Value
  nullable : Bool

/-- What routing and parsing read of a `ToolSchema`. -/
structure ToolSchema where
  command_prefix : Option Str
  parameters : List ToolParameter

structure AgentTool where
  name : Str
  schema : ToolSchema

/-- The interpreter under the argument parser: its JSON codec, `int(text)`, `float(text)` with
`none` for a `ValueError`, and `str.lower`. -/
structure Shell extends Alphabet where
  json : Interpreter
  intOf : Str → Option Int
  floatOf : Str → Option PyFloat
  lower : Str → Str

/-- What `parse_command_args` raises: its own error, or what `json.loads` raises beside
`JSONDecodeError`. -/
inductive CommandError where
  | parse (e : CommandParseError)
  | load (e : LoadError)
  deriving DecidableEq

def TRUE_TOKENS : List Str := [str "true", str "1", str "yes", str "on"]
def FALSE_TOKENS : List Str := [str "false", str "0", str "no", str "off"]

/-- `coerce_json_value` of a string, where `none` is `COERCION_FAILED`. -/
def coerceJsonValue (sh : Shell) (value param_type : Str) : Option Value :=
  if param_type = str "integer" then (sh.intOf value).map .int
  else if param_type = str "number" then
    match sh.floatOf value with
    | some (.finite x) => some (.float (.finite x))
    | _ => none
  else if param_type = str "boolean" then
    let token := sh.lower (strip value)
    if token ∈ TRUE_TOKENS then some (.bool true)
    else if token ∈ FALSE_TOKENS then some (.bool false)
    else none
  else some (.str value)

/-- `_coerce_type`. -/
def coerceType (sh : Shell) (value param_type : Str) : Value :=
  (coerceJsonValue sh value param_type).getD (.str value)

section
variable (sh : Shell) (command : Str)

def shapeText (param : ToolParameter) (text : Str) : Str :=
  str "parameter '" ++ param.name ++ str "' expects a JSON " ++ param.type ++ str ", but got " ++
    echo sh.toAlphabet text ++ str "; quote JSON that contains spaces, e.g. " ++ param.name ++
    str "='...'"

/-- `isinstance(value, dict if param.type == "object" else list)`. -/
def hasShape (param : ToolParameter) : Value → Bool
  | .dict _ => param.type = str "object"
  | .list _ => param.type ≠ str "object"
  | _ => false

/-- `_convert_command_value`. -/
def convertCommandValue (param : ToolParameter) (text : Str) : Except CommandError Value :=
  if param.type ≠ str "object" ∧ param.type ≠ str "array" then .ok (coerceType sh text param.type)
  else
    match sh.json.loads text with
    | .ok .none =>
      if param.nullable then .ok .none else .error (.parse ⟨command, shapeText sh param text⟩)
    | .ok v =>
      if hasShape param v then .ok v
      else .error (.parse ⟨command, shapeText sh param text⟩)
    | .error (.decode _) => .error (.parse ⟨command, shapeText sh param text⟩)
    | .error e => .error (.load e)

def followsText (text : Str) : Str :=
  str "positional value " ++ echo sh.toAlphabet text ++
    str " follows a name=value argument; give positional values first, then name=value"

/-- The first loop of `parse_command_args`: the positional values and the named ones. -/
def sortTokens (parameters : Mapping Str ToolParameter) (positional : List Str)
    (named : List (Str × Str)) : List CommandToken →
    Except CommandError (List Str × List (Str × Str))
  | [] => .ok (positional, named)
  | token :: tokens =>
    match token.named.filter fun n => (parameters.get n.1).isSome with
    | some n => sortTokens parameters positional (named ++ [n]) tokens
    | none =>
      if named.isEmpty then sortTokens parameters (positional ++ [token.text]) named tokens
      else .error (.parse ⟨command, followsText sh token.text⟩)

/-- `', '.join(texts)`. -/
def joinComma (texts : List Str) : Str := (texts.intersperse (str ", ")).flatten

def tooManyText (parameters : Mapping Str ToolParameter) (positional : List Str) : Str :=
  let n := parameters.keys.length
  let takes :=
    if n = 0 then str "it takes no arguments"
    else str "it takes at most " ++ Json.natText n ++ str " positional value" ++
      (if n = 1 then [] else str "s") ++ str " (" ++ joinComma parameters.keys ++ str ")"
  let hint := if n = 0 then [] else str "; quote multi-word values or use name=value"
  str "too many arguments: " ++ takes ++ str " but got " ++ Json.natText positional.length ++
    str " (" ++ joinComma (positional.map (echo sh.toAlphabet)) ++ str ")" ++ hint

/-- What was supplied, and how it was given. -/
abbrev Supplied := Mapping Str (Str × Str)

def supplyPositional (parameters : Mapping Str ToolParameter) (positional : List Str) : Supplied :=
  Mapping.ofList ((parameters.keys.zip positional).map fun e =>
    (e.1, e.2, str "positionally as " ++ echo sh.toAlphabet e.2))

def againText (name value : Str) : Str :=
  str "as " ++ name ++ str "=" ++ echo sh.toAlphabet value

def twiceText (name given again : Str) : Str :=
  str "parameter '" ++ name ++ str "' is given twice (" ++ given ++ str " and " ++ again ++
    str "); give it once"

/-- The loop over the named tokens. -/
def supplyNamed (supplied : Supplied) : List (Str × Str) → Except CommandError Supplied
  | [] => .ok supplied
  | (name, value) :: named =>
    let again := againText sh name value
    match supplied.get name with
    | some (_, given) => .error (.parse ⟨command, twiceText name given again⟩)
    | none => supplyNamed (supplied.set name (value, again)) named

/-- What the last loop of `parse_command_args` enters for a parameter. -/
def bindArgument (supplied : Supplied) (name : Str) (param : ToolParameter) :
    Except CommandError (Option (Str × Value)) :=
  match supplied.get name with
  | some (text, _) => (convertCommandValue sh command param text).map fun v => some (name, v)
  | none =>
    match param.default with
    | .none => .ok none
    | v => .ok (some (name, v))

/-- One entry for each parameter that is given or has a default. -/
def bindArguments (supplied : Supplied) : List (Str × ToolParameter) →
    Except CommandError (List (Str × Value))
  | [] => .ok []
  | (name, param) :: parameters => do
    let here ← bindArgument sh command supplied name param
    let rest ← bindArguments supplied parameters
    return here.toList ++ rest

def bindTokens (parameters : Mapping Str ToolParameter) (tokens : List CommandToken) :
    Except CommandError (List (Str × Value)) := do
  let (positional, named) ← sortTokens sh command parameters [] [] tokens
  if positional.length > parameters.keys.length then
    .error (.parse ⟨command, tooManyText sh parameters positional⟩)
  let supplied ← supplyNamed sh command (supplyPositional sh parameters positional) named
  bindArguments sh command supplied parameters.entries

end

namespace AgentTool

/-- The command that `parse_command_args` takes a line for. -/
def command (tool : AgentTool) (line : Str) : Str :=
  match tool.schema.command_prefix with
  | some (c :: s) => c :: s
  | _ => (words isSpace line).headD []

/-- `prefix_word_count`. -/
def prefixWordCount (tool : AgentTool) (line : Str) : Nat :=
  (words isSpace (tool.command line)).length

/-- `arguments`. -/
def arguments (tool : AgentTool) (line : Str) : Str :=
  let n := tool.prefixWordCount line
  (splitMax isSpace n line)[n]?.getD []

/-- `{param.name: param for param in schema.parameters}`. -/
def parameters (tool : AgentTool) : Mapping Str ToolParameter :=
  Mapping.ofList (tool.schema.parameters.map fun param => (param.name, param))

/-- `can_handle_command`. -/
def canHandleCommand (tool : AgentTool) (user_input : Str) : Bool :=
  match tool.schema.command_prefix with
  | some (c :: s) => (c :: s).isPrefixOf (strip user_input)
  | _ => false

def parseCommandArgs (sh : Shell) (tool : AgentTool) (user_input : Str) :
    Except CommandError (List (Str × Value)) :=
  let line := strip user_input
  if line.head? ≠ some 33 then .ok []
  else
    match tokenizeCommand sh.toAlphabet (tool.command line) (tool.arguments line) with
    | .error e => .error (.parse e)
    | .ok tokens => bindTokens sh (tool.command line) tool.parameters tokens

end AgentTool

/-- `get_skill_for_command` up to the tool it stops at. -/
def skillTool (tools : List AgentTool) (command : Str) : Option AgentTool :=
  tools.find? fun tool =>
    match tool.schema.command_prefix with
    | some (c :: s) => (c :: s).isPrefixOf command
    | _ => false

def getSkillForCommand (tools : List AgentTool) (command : Str) : Option Str :=
  (skillTool tools command).map AgentTool.name

end KestrelSdk.Commands

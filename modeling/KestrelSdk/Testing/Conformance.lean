import KestrelSdk.Json.Encode
import Mathlib.Tactic.SplitIfs

/-! The conformance helpers for streams of an LLM adapter. -/

namespace KestrelSdk.Testing

open Json (Str str natText)

/-- The objects that a stream may hold, as far as the helpers look at them. `exact` tells `str`
from its subclasses; dicts and objects of other classes are numbered. -/
inductive Obj where
  | none
  | bool (b : Bool)
  | int (i : Int)
  | str (exact : Bool) (s : Str)
  | list (items : List Obj)
  | dict (n : Nat)
  | toolCall (id name arguments : Obj)
  | toolCallStarted (index id name : Obj)
  | llmResponse (tool_calls stop_reason : Obj) (rest : Nat)
  | other (n : Nat)

structure ToolCallStarted where
  index : Obj
  id : Obj
  name : Obj

structure LLMResponse where
  tool_calls : Obj
  stop_reason : Obj
  rest : Nat

def ToolCallStarted.obj (m : ToolCallStarted) : Obj := .toolCallStarted m.index m.id m.name

def LLMResponse.obj (r : LLMResponse) : Obj := .llmResponse r.tool_calls r.stop_reason r.rest

/-- `assertion` is an `AssertionError`, `foreign` any other exception. -/
inductive Exn where
  | assertion (message : Str)
  | foreign
  deriving DecidableEq

/-- What the objects define themselves: the name of their type, their `repr`, their text in a format
string and their `len`. -/
structure Rendering where
  typeName : Obj → Str
  repr : Obj → Except Exn Str
  format : Obj → Except Exn Str
  len : Obj → Except Exn Nat

/-- The clauses of the contract, with what their messages quote. -/
inductive Violation where
  | late (item : Obj)
  | toolEvidence
  | assembledCalls
  | noLen (o : Obj)
  | indexType (index : Obj)
  | negativeIndex (index : Obj)
  | idType (id : Obj)
  | emptyId
  | nameType (name : Obj)
  | emptyName
  | duplicate (prev item : ToolCallStarted)
  | stopReason
  | toolCallsType (o : Obj)
  | notToolCall (i : Nat) (o : Obj)
  | callId (i : Nat) (id : Obj)
  | callName (i : Nat) (name : Obj)
  | callArguments (i : Nat) (arguments : Obj)
  | unexpected (o : Obj)
  | noTerminal
  | noMarkers (calls : List (Obj × Obj))
  | noCalls (indices : List Obj) (tool_calls : Obj)
  | count (starts calls : Nat)
  | idMismatch (i : Nat) (marker call : Obj)
  | nameMismatch (i : Nat) (marker call : Obj)

/-- The text of a list, from the texts of its items. -/
def listText (items : List Str) : Str :=
  91 :: ((str ", ").intercalate items ++ [93])

/-- The message of the `AssertionError`. Quoting an object may itself raise. -/
def Violation.message (py : Rendering) : Violation → Except Exn Str
  | .late item => do
    let shown ← py.repr item
    return str "Stream yielded a value after the terminal LLMResponse. Contract: LLMResponse " ++
      str "is the LAST item; consumers rely on its presence to know the stream is complete. " ++
      str "Got: " ++ py.typeName item ++ str "=" ++ shown
  | .toolEvidence => .ok <| str "Stream yielded tool evidence but the test scenario specified " ++
      str "text-only output."
  | .assembledCalls => .ok <| str "Stream yielded assembled tool calls but the test scenario " ++
      str "specified text-only output."
  | .noLen o => do
    let _ ← py.len o
    return []
  | .indexType index => do
    let shown ← py.repr index
    return str "ToolCallStarted.index must be an int (not bool), got " ++ py.typeName index ++
      str "=" ++ shown
  | .negativeIndex index => do
    let shown ← py.format index
    return str "ToolCallStarted.index must be non-negative, got " ++ shown ++ str ". Negative " ++
      str "indices break ordering assumptions in framework consumers."
  | .idType id => do
    let shown ← py.repr id
    return str "ToolCallStarted.id must be a str or None, got " ++ py.typeName id ++ str "=" ++
      shown ++ str ". Dataclasses do not enforce annotations at runtime, so a plugin that " ++
      str "accidentally constructs the field with int / object / etc. would pass at " ++
      str "construction time but fail downstream — consumers compare/read this field as a " ++
      str "string when present."
  | .emptyId => .ok <| str "ToolCallStarted.id must be either a non-empty string or None — " ++
      str "never the empty string. Adapters that don't yet know the id at emission time MUST " ++
      str "emit None so consumers can use ``is None`` rather than truthiness checks."
  | .nameType name => do
    let shown ← py.repr name
    return str "ToolCallStarted.name must be a str or None, got " ++ py.typeName name ++ str "=" ++
      shown ++ str "."
  | .emptyName => .ok <| str "ToolCallStarted.name must be either a non-empty string or None " ++
      str "— never the empty string. Same reasoning as id."
  | .duplicate prev item => do
    let index ← py.format item.index
    let earlier ← py.repr prev.obj
    let current ← py.repr item.obj
    return str "Stream yielded two ToolCallStarted events with index=" ++ index ++ str ". " ++
      str "Contract: exactly one marker per distinct tool-call index. Earlier: " ++
      earlier ++ str "; current: " ++ current
  | .stopReason => .ok <| str "LLMResponse.stop_reason must be None or a non-empty exact str; " ++
      str "preserve the native literal and convert provider enums to their value."
  | .toolCallsType o => .ok <| str "LLMResponse.tool_calls must be a list or None, got " ++
      py.typeName o
  | .notToolCall i o => .ok <| str "LLMResponse.tool_calls[" ++ natText i ++ str "] must be a " ++
      str "ToolCall, got " ++ py.typeName o
  | .callId i id => do
    let shown ← py.repr id
    return str "ToolCall[" ++ natText i ++ str "].id must be a non-empty str, got " ++
      py.typeName id ++ str "=" ++ shown ++ str ". The framework echoes this id back on the " ++
      str "next turn to match tool_call_output to the call; a non-string id (or empty string) " ++
      str "breaks that match. Dataclasses do not enforce annotations at runtime, so a plugin " ++
      str "that accidentally constructs the field with int / None / etc. would pass at " ++
      str "construction time but fail downstream — the conformance helper catches it now."
  | .callName i name => do
    let shown ← py.repr name
    return str "ToolCall[" ++ natText i ++ str "].name must be a non-empty str, got " ++
      py.typeName name ++ str "=" ++ shown ++ str "."
  | .callArguments i arguments => .ok <| str "ToolCall[" ++ natText i ++ str "].arguments must " ++
      str "be a dict, got " ++ py.typeName arguments ++ str ". Adapters parse the " ++
      str "provider-native form (JSON string, structured part) into a dict before constructing " ++
      str "the ToolCall — downstream code never sees a JSON string. Use the malformed-JSON " ++
      str "sentinel ``\x7b'_raw': '<accumulated>'\x7d`` when parsing fails."
  | .unexpected o => .ok <| str "Stream yielded an unexpected type " ++
      py.typeName o ++ str ". Contract: get_streaming_response_with_tools yields " ++
      str "Union[str, ToolCallStarted, LLMResponse]. Plugins MUST NOT smuggle adapter-specific " ++
      str "data through the streaming channel; carry it on LLMResponse.raw instead."
  | .noTerminal => .ok <| str "Stream never yielded a terminal LLMResponse. Contract: all " ++
      str "normally completed streams MUST yield exactly one terminal LLMResponse as the LAST " ++
      str "item, including text-only/empty streams."
  | .noMarkers calls => do
    let shown ← calls.mapM fun c => do
      let id ← py.repr c.1
      let name ← py.repr c.2
      return 40 :: (id ++ str ", " ++ name ++ [41])
    return str "Stream's terminal LLMResponse has tool_calls but no ToolCallStarted markers " ++
      str "were yielded earlier. Contract: every assembled tool call MUST have a corresponding " ++
      str "marker so downstream honesty/revising consumers can gate pre-tool prose. Final " ++
      str "tool_calls: " ++ listText shown
  | .noCalls indices tool_calls => do
    let seen ← indices.mapM py.repr
    let shown ← py.repr tool_calls
    return str "Stream emitted ToolCallStarted markers but the terminal LLMResponse has no " ++
      str "tool_calls. Contract: a marker announces a tool call that MUST appear in the " ++
      str "assembled response. Markers seen: " ++ listText seen ++ str "; final tool_calls: " ++
      shown
  | .count starts calls => .ok <| str "ToolCallStarted count (" ++ natText starts ++ str ") " ++
      str "does not equal final tool_calls count (" ++ natText calls ++ str "). Contract: " ++
      str "every assembled tool call MUST have a corresponding ToolCallStarted marker yielded " ++
      str "earlier."
  | .idMismatch i marker call => do
    let expected ← py.repr marker
    let found ← py.repr call
    return str "ToolCallStarted at stream position " ++ natText i ++ str " (id=" ++ expected ++
      str ") does not match the tool call at the same position in tool_calls (id=" ++ found ++
      str "). Contract: marker stream order MUST equal tool_calls assembled order — consumers " ++
      str "treat marker[i] as 'tool_calls[i] is about to fire'."
  | .nameMismatch i marker call => do
    let expected ← py.repr marker
    let found ← py.repr call
    return str "ToolCallStarted at stream position " ++ natText i ++ str " (name=" ++ expected ++
      str ") does not match the tool call at the same position in tool_calls (name=" ++ found ++
      str "). Contract: see id mismatch above."

/-- `raise AssertionError(message)`. -/
def Violation.raised (py : Rendering) (v : Violation) : Exn :=
  match v.message py with
  | .ok text => .assertion text
  | .error e => e

namespace Obj

def isNone : Obj → Bool
  | .none => true
  | _ => false

def isStr : Obj → Bool
  | .str _ _ => true
  | _ => false

def isDict : Obj → Bool
  | .dict _ => true
  | _ => false

/-- `isinstance(x, str) and x`. -/
def isText : Obj → Bool
  | .str _ s => !s.isEmpty
  | _ => false

/-- `==` between two integers or two strings. -/
def same : Obj → Obj → Bool
  | .int i, .int j => i == j
  | .str _ s, .str _ t => s == t
  | _, _ => false

/-- `tc.id`, of a tool call. -/
def callId : Obj → Obj
  | .toolCall id _ _ => id
  | _ => .none

/-- `tc.name`, of a tool call. -/
def callName : Obj → Obj
  | .toolCall _ name _ => name
  | _ => .none

end Obj

/-- The loop over the tool calls. -/
def assertCalls (i : Nat) : List Obj → Except Violation Unit
  | [] => .ok ()
  | .toolCall id name arguments :: calls =>
    if !id.isText then .error (.callId i id)
    else if !name.isText then .error (.callName i name)
    else if !arguments.isDict then .error (.callArguments i arguments)
    else assertCalls (i + 1) calls
  | o :: _ => .error (.notToolCall i o)

structure StreamingWithToolsResult where
  text : Str := []
  text_chunks : List Str := []
  tool_starts : List ToolCallStarted := []
  final_response : Option LLMResponse := none

def Text (o : Obj) : Prop := ∃ exact s, o = .str exact s ∧ s ≠ []

structure GoodCall (id name arguments : Obj) : Prop where
  id : Text id
  name : Text name
  arguments : ∃ n, arguments = .dict n

theorem isNone_iff {o : Obj} : o.isNone = true ↔ o = .none := by
  cases o <;> simp [Obj.isNone]

theorem isStr_iff {o : Obj} : o.isStr = true ↔ ∃ exact s, o = .str exact s := by
  cases o <;> simp [Obj.isStr]

theorem isText_iff {o : Obj} : o.isText = true ↔ Text o := by
  cases o <;> simp [Obj.isText, Text]

theorem isDict_iff {o : Obj} : o.isDict = true ↔ ∃ n, o = .dict n := by
  cases o <;> simp [Obj.isDict]

/-- The first fault of the tool calls from position `i` on. -/
inductive CallsFault : Nat → List Obj → Violation → Prop where
  | later {i : Nat} {id name arguments : Obj} {calls : List Obj} {v : Violation}
      (h : GoodCall id name arguments) (rest : CallsFault (i + 1) calls v) :
      CallsFault i (.toolCall id name arguments :: calls) v
  | id {i : Nat} {id name arguments : Obj} {calls : List Obj} (h : ¬ Text id) :
      CallsFault i (.toolCall id name arguments :: calls) (.callId i id)
  | name {i : Nat} {id name arguments : Obj} {calls : List Obj} (hid : Text id)
      (h : ¬ Text name) : CallsFault i (.toolCall id name arguments :: calls) (.callName i name)
  | arguments {i : Nat} {id name arguments : Obj} {calls : List Obj} (hid : Text id)
      (hname : Text name) (h : ∀ n, arguments ≠ .dict n) :
      CallsFault i (.toolCall id name arguments :: calls) (.callArguments i arguments)
  | notToolCall {i : Nat} {o : Obj} {calls : List Obj}
      (h : ∀ id name arguments, o ≠ .toolCall id name arguments) :
      CallsFault i (o :: calls) (.notToolCall i o)

theorem CallsFault.error {i : Nat} {calls : List Obj} {v : Violation} (h : CallsFault i calls v) :
    assertCalls i calls = .error v := by
  induction h with
  | later h rest ih =>
    have hid := isText_iff.2 h.id
    have hname := isText_iff.2 h.name
    have hargs := isDict_iff.2 h.arguments
    simp only [assertCalls, hid, hname, hargs, Bool.not_true, Bool.false_eq_true, if_false, ih]
  | id h =>
    have hid := mt isText_iff.1 h
    simp [assertCalls, hid]
  | name hid h =>
    have hid := isText_iff.2 hid
    have hname := mt isText_iff.1 h
    simp [assertCalls, hid, hname]
  | arguments hid hname h =>
    have hid := isText_iff.2 hid
    have hname := isText_iff.2 hname
    have hargs := mt isDict_iff.1 (not_exists.2 h)
    simp [assertCalls, hid, hname, hargs]
  | @notToolCall i o calls h =>
    cases o with
    | toolCall id name arguments => exact absurd rfl (h id name arguments)
    | _ => rfl

/-- A given field is the one of the tool call. -/
def Agrees (given found : Obj) : Prop :=
  given = .none ∨ ∃ exact exact' s, given = .str exact s ∧ found = .str exact' s

end KestrelSdk.Testing

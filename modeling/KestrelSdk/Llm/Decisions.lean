import KestrelSdk.Encoding.Strip
import KestrelSdk.Frozen.Decode
import KestrelSdk.Frozen.Embed
import KestrelSdk.Json.Equal
import KestrelSdk.Json.Repr
import KestrelSdk.Llm.PublicKeys
import KestrelSdk.Order.Mapping

namespace KestrelSdk.Llm.Decisions

open Json (Str Bytes Key Value PyFloat Printer ReprError str natText)
open Frozen (Graph View ImmutableJSON JSONLimits Reject freezeJson canonicalJsonBytes valueGraph)
open KestrelSdk.Order (Mapping)

def MAX_QUESTIONS : Nat := 64
def MIN_OPTIONS : Nat := 2
def MAX_OPTIONS : Nat := 26
def MAX_INSTRUCTIONS_CHARS : Nat := 4096
def MAX_DESCRIPTION_CHARS : Nat := 1024
def MAX_REQUEST_BYTES : Nat := 2 ^ 20
def MAX_STATE_DEPTH : Nat := 64

/-- What a validation takes from its interpreter. The recursion limit leaves room for the wire
form. -/
structure Host where
  json : Json.Interpreter
  printer : Printer
  roomy : MAX_STATE_DEPTH + 2 ≤ json.nesting

/-- The caller's objects, whose strings are code points and whose floats their `repr` names. -/
structure Objects (py : Host) (ι : Type) where
  graph : Graph ι
  genuine : graph.Genuine py.json.floatOf

/-! What a request is made of. -/

/-- The keys of a mapping, which are hashable. `object n` is a key of another type. -/
inductive Label where
  | none
  | bool (b : Bool)
  | int (i : Int)
  | float (x : PyFloat)
  | str (s : Str)
  | tuple (items : List Label)
  | object (n : Nat)

/-- A string of code points. -/
abbrev Text := {s : Str // ∀ c ∈ s, c < 0x110000}

/-- An object where a text is expected: `None`, a string, or anything else. -/
inductive Field where
  | none
  | str (t : Text)
  | other

/-- An object where a question is expected. `options` are the items of a mapping, and `levels` those
of a sequence that is neither `str` nor `bytes`; `none` is an object of another type. -/
inductive Candidate where
  | choice (instructions : Field) (options : Option (List (Label × Field)))
  | score (instructions : Field) (levels : Option (List Field))
  | noul (instructions trueMeans falseMeans : Field)
  | other (typeName : Str)

/-- `DecisionRequest`. `questions` are the items of a mapping; `none` is an object of another type. -/
structure DecisionRequest (ι : Type) where
  state : ι
  questions : Option (List (Label × Candidate))

/-- The argument of `validate_decision_request`. -/
inductive Argument (ι : Type) where
  | request (r : DecisionRequest ι)
  | other (typeName : Str)

/-! What a validation raises. -/

/-- `DecisionRequestInvalid.rule`. -/
inductive Rule where
  | type
  | questions
  | id
  | text
  | options
  | key
  | depth
  | nodes
  | keys
  | bytes
  | number
  | cycle
  deriving DecidableEq

/-- `JSONTypeError.rule` and `JSONLimitError.rule`; other errors have none. -/
def ruleOf : Reject → Option Rule
  | .key => some .key
  | .type => some .type
  | .depth => some .depth
  | .nodes => some .nodes
  | .keys => some .keys
  | .bytes => some .bytes
  | .text => some .text
  | .number => some .number
  | .nonFinite => some .number
  | .cycle => some .cycle
  | .recursion => none
  | .domain _ => none

/-- The message of a refusal: a text, or that of the walk's error. -/
inductive Message where
  | text (s : Str)
  | walk (e : Reject)
  deriving DecidableEq

/-- `invalid` is `DecisionRequestInvalid`. `repr` is what `repr` raises, and `walk` what `freeze_json`
raises besides `JSONTypeError` and `JSONLimitError`. -/
inductive Failure where
  | invalid (rule : Rule) (message : Message)
  | repr (e : ReprError)
  | walk (e : Reject)
  | assertionError
  | keyError

def refuse {β : Type} (rule : Rule) (message : Str) : Except Failure β :=
  .error (.invalid rule (.text message))

/-! Ids. -/

/-- `repr` of a tuple of which the items are rendered. -/
def tupleText (texts : List Str) : Str :=
  40 :: ((if texts.length = 1 then texts.flatten ++ [44] else Printer.joined texts) ++ [41])

mutual
/-- `repr(value)`, where the recursion limit leaves room for `frames` levels of nesting. -/
def Label.repr (p : Printer) : Nat → Label → Except ReprError Str
  | _, .none => .ok (Json.str "None")
  | _, .bool b => .ok (Printer.bool b)
  | _, .int i => Printer.int i
  | _, .float x => .ok (Printer.float x)
  | _, .str s => .ok (p.string s)
  | 0, .tuple _ => .error .recursion
  | frames + 1, .tuple items => do
    let texts ← Label.reprItems p frames items
    return tupleText texts
  | _, .object n => .ok (p.object n)
  termination_by structural _ l => l

def Label.reprItems (p : Printer) : Nat → List Label → Except ReprError (List Str)
  | _, [] => .ok []
  | frames, l :: ls => do
    let text ← Label.repr p frames l
    let texts ← Label.reprItems p frames ls
    return text :: texts
  termination_by structural _ ls => ls
end

def isWord (c : Nat) : Bool := isAlnum c || c == 95

/-- `[A-Za-z0-9_.-]`. -/
def isIdChar (c : Nat) : Bool := isWord c || c == 46 || c == 45

/-- `_ID_PATTERN.fullmatch`. -/
def isId : Str → Bool
  | [] => false
  | c :: s => isWord c && s.length ≤ 63 && s.all isIdChar

/-- `_ID_PATTERN.pattern`. -/
def ID_PATTERN : Str := str "^[A-Za-z0-9_][A-Za-z0-9_.-]\x7b0,63\x7d$"

/-- An id that the pattern takes. -/
abbrev Ident := {s : Str // isId s = true}

/-- The id in a label that is a string and that the pattern takes. -/
def Label.ident : Label → Option Ident
  | .str s => if h : isId s = true then some ⟨s, h⟩ else Option.none
  | _ => Option.none

section Checks

variable (py : Host)

/-- `_check_id`. -/
def checkId (value : Label) (what : Str) : Except Failure Ident :=
  match value.ident with
  | some s => .ok s
  | none =>
    match value.repr py.printer py.json.nesting with
    | .ok shown => refuse .id
        (what ++ str " must match " ++ py.printer.string ID_PATTERN ++ str ", got " ++ shown)
    | .error e => .error (.repr e)

/-- `_check_text`. -/
def checkText (value : Field) (what : Str) (maxChars : Nat) : Except Failure Text :=
  match value with
  | .str t =>
    if Encoding.strip t.val = [] then refuse .text (what ++ str " must be a non-empty string")
    else if maxChars < t.val.length then
      refuse .text (what ++ str " must be at most " ++ natText maxChars ++ str " characters")
    else .ok t
  | _ => refuse .text (what ++ str " must be a non-empty string")

/-- `_check_optional_text`. -/
def checkOptionalText (value : Field) (what : Str) : Except Failure (Option Text) :=
  match value with
  | .none => .ok none
  | value => (checkText value what MAX_DESCRIPTION_CHARS).map some

/-- `_check_cardinality`. -/
def checkCardinality (count : Nat) (what : Str) : Except Failure Unit :=
  if MIN_OPTIONS ≤ count ∧ count ≤ MAX_OPTIONS then .ok ()
  else refuse .options (what ++ str " must have between " ++ natText MIN_OPTIONS ++ str " and " ++
    natText MAX_OPTIONS ++ str " entries, got " ++ natText count)

/-! Questions. -/

/-- The frozen questions. -/
inductive Question where
  | choice (instructions : Text) (options : Mapping Ident (Option Text))
  | score (instructions : Text) (levels : List Text)
  | noul (instructions : Text) (trueMeans falseMeans : Option Text)

def optionalText : Option Text → Value
  | none => .none
  | some t => .str t.val

/-- The items of `options`, each checked. -/
def freezeOptions (place : Str) : List (Label × Field) → Mapping Ident (Option Text) →
    Except Failure (Mapping Ident (Option Text))
  | [], options => .ok options
  | (option_id, description) :: rest, options => do
    let option_id ← checkId py option_id (place ++ str " option id")
    let description ← checkOptionalText description
      (place ++ str " option " ++ py.printer.string option_id.val ++ str " description")
    freezeOptions place rest (options.set option_id description)

/-- The levels from `index` on, each checked. -/
def freezeLevels (place : Str) (index : Nat) : List Field → Except Failure (List Text)
  | [] => .ok []
  | level :: rest => do
    let level ← checkText level (place ++ str " level " ++ natText index) MAX_DESCRIPTION_CHARS
    let levels ← freezeLevels place (index + 1) rest
    return level :: levels

/-- The items of an object of the type that `complaint` names. -/
def itemsOf {α : Type} (items : Option α) (complaint : Str) : Except Failure α :=
  match items with
  | some items => .ok items
  | none => refuse .options complaint

/-- `_freeze_question`. -/
def freezeQuestion (question_id : Ident) (question : Candidate) :
    Except Failure (Question × Value) :=
  let place := str "question " ++ py.printer.string question_id.val
  match question with
  | .choice instructions options => do
    let instructions ← checkText instructions (place ++ str " instructions") MAX_INSTRUCTIONS_CHARS
    let items ← itemsOf options (place ++ str " options must be a mapping")
    checkCardinality items.length (place ++ str " options")
    let options ← freezeOptions py place items .empty
    return (.choice instructions options,
      .dict [(.str (str "type"), .str (str "choice")),
        (.str (str "instructions"), .str instructions.val),
        (.str (str "criteria"),
          .dict (options.entries.map fun e => (.str e.1.val, optionalText e.2)))])
  | .score instructions levels => do
    let instructions ← checkText instructions (place ++ str " instructions") MAX_INSTRUCTIONS_CHARS
    let items ← itemsOf levels (place ++ str " levels must be a sequence")
    checkCardinality items.length (place ++ str " levels")
    let levels ← freezeLevels place 0 items
    return (.score instructions levels,
      .dict [(.str (str "type"), .str (str "score")),
        (.str (str "instructions"), .str instructions.val),
        (.str (str "criteria"), .list (levels.map fun level => .str level.val))])
  | .noul instructions trueMeans falseMeans => do
    let instructions ← checkText instructions (place ++ str " instructions") MAX_INSTRUCTIONS_CHARS
    let true_means ← checkOptionalText trueMeans (place ++ str " true_means")
    let false_means ← checkOptionalText falseMeans (place ++ str " false_means")
    let wire : List (Key × Value) := [(.str (str "type"), .str (str "noul")),
      (.str (str "instructions"), .str instructions.val)]
    let wire :=
      if true_means.isSome || false_means.isSome then
        wire ++ [(.str (str "criteria"), .dict [(.str (str "true"), optionalText true_means),
          (.str (str "false"), optionalText false_means)])]
      else wire
    return (.noul instructions true_means false_means, .dict wire)
  | .other typeName => refuse .type
      (place ++ str " must be a ChoiceQuestion, ScoreQuestion or NoulQuestion, not " ++ typeName)

/-- The loop over `request.questions.items()`. -/
def freezeQuestions : List (Label × Candidate) → Mapping Ident Question → Mapping Ident Value →
    Except Failure (Mapping Ident Question × Mapping Ident Value)
  | [], questions, wire => .ok (questions, wire)
  | (question_id, question) :: rest, questions, wire => do
    let question_id ← checkId py question_id (str "question id")
    let (frozen, form) ← freezeQuestion py question_id question
    freezeQuestions rest (questions.set question_id frozen) (wire.set question_id form)

end Checks

/-! Requests. -/

/-- The objects of the wire form: the new dict, the caller's objects, and what the questions are
frozen to, each named by what it holds. -/
inductive Node (ι : Type) where
  | request
  | state (x : ι)
  | form (v : Value)
  deriving DecidableEq

/-- `{"state": request.state, "questions": wire_questions}`. -/
def wireGraph {ι : Type} (g : Graph ι) (x : ι) (questions : Value) : Graph (Node ι) where
  view
    | .request => .mapping [(.str (str "state"), .state x), (.str (str "questions"), .form questions)]
    | .state y => (g.view y).map .state
    | .form v => (valueGraph.view v).map .form
  distinct y zs h := by
    cases y with
    | request =>
      cases h
      exact (by decide : ([.str (str "state"), .str (str "questions")] : List Key).Nodup)
    | state y =>
      obtain ⟨es, hview, hkeys⟩ := View.map_keys _ h
      rw [hkeys]
      exact g.distinct y es hview
    | form v =>
      obtain ⟨es, hview, hkeys⟩ := View.map_keys _ h
      rw [hkeys]
      exact valueGraph.distinct v es hview

/-- The wire root is depth 0 and `state` sits at depth 1. -/
def LIMITS : JSONLimits where
  maxDepth := some (MAX_STATE_DEPTH + 1 : Nat)
  maxEncodedBytes := some MAX_REQUEST_BYTES

/-- `ValidatedDecisionRequest`. -/
structure ValidatedDecisionRequest where
  state : ImmutableJSON
  questions : Mapping Ident Question
  wire : ImmutableJSON
  encodedBytes : Nat

/-- `ValidatedDecisionRequest.canonical_json`; `none` where it raises. -/
def ValidatedDecisionRequest.canonicalJson (v : ValidatedDecisionRequest) : Option Bytes :=
  canonicalJsonBytes v.wire

/-- The snapshot of what the walk has frozen. -/
def snapshot (questions : Mapping Ident Question) (frozen : Frozen.FrozenJSON) :
    Except Failure ValidatedDecisionRequest :=
  match frozen.value, frozen.encodedBytes with
  | .mapping entries, some encoded =>
    match entries.lookup (str "state") with
    | some state => .ok ⟨state, questions, frozen.value, encoded⟩
    | none => .error .keyError
  | _, _ => .error .assertionError

/-- `validate_decision_request`. -/
def validateDecisionRequest {ι : Type} [DecidableEq ι] (py : Host) (o : Objects py ι) :
    Argument ι → Except Failure ValidatedDecisionRequest
  | .other typeName => refuse .type (str "expected DecisionRequest, not " ++ typeName)
  | .request request =>
    match request.questions with
    | none => refuse .questions (str "questions must be a mapping")
    | some items =>
      if 1 ≤ items.length ∧ items.length ≤ MAX_QUESTIONS then do
        let (questions, wire) ← freezeQuestions py items .empty .empty
        let root := wireGraph o.graph request.state
          (.dict (wire.entries.map fun e => (.str e.1.val, e.2)))
        match freezeJson (.plain LIMITS) root py.json.nesting .request with
        | .ok frozen => snapshot questions frozen
        | .error e =>
          match ruleOf e with
          | some rule => .error (.invalid rule (.walk e))
          | none => .error (.walk e)
      else refuse .questions (str "a request must have between 1 and " ++ natText MAX_QUESTIONS ++
        str " questions, got " ++ natText items.length)

end KestrelSdk.Llm.Decisions

import KestrelSdk.Commands.Parse
import KestrelSdk.Json.Repr

namespace KestrelSdk.Tools

open Json (Str str Value PyFloat FloatRepr Printer ReprError)
open Encoding (strip)
open Commands (Shell ToolParameter TRUE_TOKENS FALSE_TOKENS convertCommandValue)
open KestrelSdk.Order (Mapping)

/-- What coercion takes from the interpreter beside the command parser: `int(x)` of a float that
`is_integer()`, `float(i)` with `none` for `OverflowError`, the `repr` and type name of objects of
other types, and the nesting that the recursion limit leaves to `repr`. -/
structure Numerals extends Shell where
  intOfFloat : FloatRepr → Option Int
  floatOfInt : Int → Option FloatRepr
  reprObject : Nat → Str
  nameObject : Nat → Str
  frames : Nat

/-- `_COERCED_TYPES`. -/
def COERCED_TYPES : List Str := [str "integer", str "number", str "boolean"]

variable (sh : Numerals)

/-- `coerce_json_value` for `"integer"`. -/
def coerceInteger : Value → Option Value
  | .int i => some (.int i)
  | .float (.finite x) => (sh.intOfFloat x).map .int
  | .str s => (sh.intOf s).map .int
  | _ => none

/-- `coerce_json_value` for `"number"`. -/
def coerceNumber : Value → Option Value
  | .int i => (sh.floatOfInt i).map fun x => .float (.finite x)
  | .float (.finite x) => some (.float (.finite x))
  | .str s =>
    match sh.floatOf s with
    | some (.finite x) => some (.float (.finite x))
    | _ => none
  | _ => none

/-- `coerce_json_value` for `"boolean"`. -/
def coerceBoolean : Value → Option Value
  | .bool b => some (.bool b)
  | .int i => if i = 0 then some (.bool false) else if i = 1 then some (.bool true) else none
  | .str s =>
    let token := sh.lower (strip s)
    if token ∈ TRUE_TOKENS then some (.bool true)
    else if token ∈ FALSE_TOKENS then some (.bool false)
    else none
  | _ => none

/-- `coerce_json_value`, where `none` is `COERCION_FAILED`. -/
def coerceJsonValue (value : Value) (param_type : Str) (nullable : Bool) : Option Value :=
  match value with
  | .none => if nullable = true ∨ param_type ∉ COERCED_TYPES then some .none else none
  | value =>
    if param_type = str "integer" then coerceInteger sh value
    else if param_type = str "number" then coerceNumber sh value
    else if param_type = str "boolean" then coerceBoolean sh value
    else some value

/-- `type(value).__name__`. -/
def typeName : Value → Str
  | .none => str "NoneType"
  | .bool _ => str "bool"
  | .int _ => str "int"
  | .float _ => str "float"
  | .str _ => str "str"
  | .list _ => str "list"
  | .dict _ => str "dict"
  | .object n => sh.nameObject n

def printer : Printer := ⟨sh.repr, sh.reprObject⟩

/-- `_REJECTED_VALUE_REPR_LIMIT`. -/
def REJECTED_VALUE_REPR_LIMIT : Nat := 120

/-- The message of a rejection; its `repr` of the value may raise. -/
def rejectedText (tool_name : Str) (param : ToolParameter) (value : Value) :
    Except ReprError Str := do
  let rendered ← (printer sh).repr sh.frames value
  let rendered :=
    if rendered.length > REJECTED_VALUE_REPR_LIMIT then
      rendered.take REJECTED_VALUE_REPR_LIMIT ++ str "..."
    else rendered
  return tool_name ++ str ": parameter '" ++ param.name ++ str "' expects type '" ++ param.type ++
    str "', but received " ++ rendered ++ str " (" ++ typeName sh value ++
    str "), which is not a valid " ++ param.type

section Loop

variable (tool_name : Str) (arguments : Mapping Str Value)

/-- The loop of `coerce_tool_arguments`. -/
def coerceLoop : List ToolParameter → Mapping Str Value →
    Except ReprError (Mapping Str Value × Option Str)
  | [], coerced => .ok (coerced, none)
  | param :: parameters, coerced =>
    match coerced.get param.name with
    | none => coerceLoop parameters coerced
    | some value =>
      match coerceJsonValue sh value param.type param.nullable with
      | none => do
        let text ← rejectedText sh tool_name param value
        return (arguments, some text)
      | some result => coerceLoop parameters (coerced.set param.name result)

/-- `coerce_tool_arguments`. -/
def coerceToolArguments (parameters : List ToolParameter) :
    Except ReprError (Mapping Str Value × Option Str) :=
  coerceLoop sh tool_name arguments parameters arguments

end Loop

/-! Values that are as declared. -/

variable {sh}

theorem coerceInteger_some {v r : Value} (h : coerceInteger sh v = some r) : ∃ i, r = .int i := by
  cases v with
  | int i => exact ⟨i, (Option.some.inj h).symm⟩
  | float x =>
    cases x with
    | finite x =>
      obtain ⟨i, _, hi⟩ := Option.map_eq_some_iff.1 h
      exact ⟨i, hi.symm⟩
    | _ => cases h
  | str s =>
    obtain ⟨i, _, hi⟩ := Option.map_eq_some_iff.1 h
    exact ⟨i, hi.symm⟩
  | _ => cases h

theorem coerceNumber_some {v r : Value} (h : coerceNumber sh v = some r) :
    ∃ x, r = .float (.finite x) := by
  cases v with
  | int i =>
    obtain ⟨x, _, hx⟩ := Option.map_eq_some_iff.1 h
    exact ⟨x, hx.symm⟩
  | float x =>
    cases x with
    | finite x => exact ⟨x, (Option.some.inj h).symm⟩
    | _ => cases h
  | str s =>
    simp only [coerceNumber] at h
    split at h
    · exact ⟨_, (Option.some.inj h).symm⟩
    · cases h
  | _ => cases h

theorem coerceBoolean_some {v r : Value} (h : coerceBoolean sh v = some r) : ∃ b, r = .bool b := by
  cases v with
  | bool b => exact ⟨b, (Option.some.inj h).symm⟩
  | int i =>
    simp only [coerceBoolean] at h
    split_ifs at h
    · exact ⟨false, (Option.some.inj h).symm⟩
    · exact ⟨true, (Option.some.inj h).symm⟩
  | str s =>
    simp only [coerceBoolean] at h
    split_ifs at h
    · exact ⟨true, (Option.some.inj h).symm⟩
    · exact ⟨false, (Option.some.inj h).symm⟩
  | _ => cases h

theorem coerce_of_ne_none {v : Value} (hv : v ≠ .none) (t : Str) (nullable : Bool) :
    coerceJsonValue sh v t nullable =
      if t = str "integer" then coerceInteger sh v
      else if t = str "number" then coerceNumber sh v
      else if t = str "boolean" then coerceBoolean sh v
      else some v := by
  cases v with
  | none => exact absurd rfl hv
  | _ => rfl

/-- What a success leaves: `None` for `None`, and a value of the declared type. -/
inductive Coerced (v r : Value) (t : Str) : Prop
  | null (hv : v = .none) (hr : r = .none)
  | integer (ht : t = str "integer") (hv : v ≠ .none) (hr : ∃ i, r = .int i)
  | number (ht : t = str "number") (hv : v ≠ .none) (hr : ∃ x, r = .float (.finite x))
  | boolean (ht : t = str "boolean") (hv : v ≠ .none) (hr : ∃ b, r = .bool b)
  | other (ht : t ∉ COERCED_TYPES) (hv : v ≠ .none) (hr : r = v)

theorem coerced_of_some {v r : Value} {t : Str} {nullable : Bool}
    (h : coerceJsonValue sh v t nullable = some r) : Coerced v r t := by
  by_cases hv : v = .none
  · subst hv
    simp only [coerceJsonValue] at h
    split at h
    · exact .null rfl (Option.some.inj h).symm
    · cases h
  · rw [coerce_of_ne_none hv] at h
    split_ifs at h with hint hnum hbool
    · exact .integer hint hv (coerceInteger_some h)
    · exact .number hnum hv (coerceNumber_some h)
    · exact .boolean hbool hv (coerceBoolean_some h)
    · refine .other ?_ hv (Option.some.inj h).symm
      simp only [COERCED_TYPES, List.mem_cons, List.not_mem_nil, or_false, not_or]
      exact ⟨hint, hnum, hbool⟩

end KestrelSdk.Tools

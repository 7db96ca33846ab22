import KestrelSdk.Tools.Coercion
import KestrelSdk.Commands.Quoting

namespace KestrelSdk.Tools

open Json (Str str Value ReprError Renders intsOf)
open Commands (ToolParameter convertCommandValue)
open KestrelSdk.Order (Mapping)

/-- A key that is there keeps its place. -/
theorem keys_set_of_get {m : Mapping Str Value} {k : Str} {v w : Value} (h : m.get k = some v) :
    (m.set k w).keys = m.keys := by
  rw [Mapping.keys_set, if_pos]
  rw [Mapping.mem_keys_iff, h]
  rfl

section Loop

variable (sh : Numerals)

/-- The arguments as the parameters coerce them one after the other, or the first parameter that
refuses its argument with what it is given. -/
def coerceAll : List ToolParameter → Mapping Str Value →
    Except (ToolParameter × Value) (Mapping Str Value)
  | [], coerced => .ok coerced
  | param :: parameters, coerced =>
    match coerced.get param.name with
    | none => coerceAll parameters coerced
    | some value =>
      match coerceJsonValue sh value param.type param.nullable with
      | none => .error (param, value)
      | some result => coerceAll parameters (coerced.set param.name result)

variable {sh} {tool_name : Str}

/-- A rejection returns the original arguments with its message. -/
theorem coerceLoop_eq (arguments : Mapping Str Value) (ps : List ToolParameter)
    (coerced : Mapping Str Value) :
    coerceLoop sh tool_name arguments ps coerced =
      match coerceAll sh ps coerced with
      | .ok result => .ok (result, none)
      | .error (param, value) =>
        (rejectedText sh tool_name param value).map fun text => (arguments, some text) := by
  induction ps generalizing coerced with
  | nil => rfl
  | cons param ps ih =>
    rw [coerceLoop, coerceAll]
    cases coerced.get param.name with
    | none => exact ih coerced
    | some value =>
      dsimp only
      cases coerceJsonValue sh value param.type param.nullable with
      | none =>
        dsimp only
        cases rejectedText sh tool_name param value <;> rfl
      | some result => exact ih _

/-- Arguments that come back without a message are coerced by every parameter. -/
theorem coerceAll_of_accepted {arguments coerced : Mapping Str Value} {ps : List ToolParameter}
    (h : coerceToolArguments sh tool_name arguments ps = .ok (coerced, none)) :
    coerceAll sh ps arguments = .ok coerced := by
  rw [coerceToolArguments, coerceLoop_eq] at h
  cases hrun : coerceAll sh ps arguments with
  | ok result =>
    rw [hrun] at h
    have heq : result = coerced := (Prod.ext_iff.1 (Except.ok.inj h)).1
    rw [heq]
  | error e =>
    rw [hrun] at h
    dsimp only at h
    cases htext : rejectedText sh tool_name e.1 e.2 with
    | error _ =>
      rw [htext] at h
      cases h
    | ok _ =>
      rw [htext] at h
      cases h

/-- The arguments keep their keys, and those without a parameter their values. -/
theorem coerceAll_ok {ps : List ToolParameter} {coerced result : Mapping Str Value}
    (h : coerceAll sh ps coerced = .ok result) :
    result.keys = coerced.keys ∧ ∀ k, (∀ p ∈ ps, p.name ≠ k) → result.get k = coerced.get k := by
  induction ps generalizing coerced with
  | nil =>
    cases h
    exact ⟨rfl, fun _ _ => rfl⟩
  | cons param ps ih =>
    rw [coerceAll] at h
    cases hget : coerced.get param.name with
    | none =>
      rw [hget] at h
      obtain ⟨hkeys, hrest⟩ := ih h
      exact ⟨hkeys, fun k hk => hrest k fun p hp => hk p (List.mem_cons_of_mem param hp)⟩
    | some value =>
      rw [hget] at h
      dsimp only at h
      cases hcoerce : coerceJsonValue sh value param.type param.nullable with
      | none =>
        rw [hcoerce] at h
        cases h
      | some r =>
        rw [hcoerce] at h
        obtain ⟨hkeys, hrest⟩ := ih h
        refine ⟨hkeys.trans (keys_set_of_get hget), fun k hk => ?_⟩
        rw [hrest k fun p hp => hk p (List.mem_cons_of_mem param hp), Mapping.get_set,
          if_neg (hk param (List.mem_cons_self ..)).symm]

end Loop

/-! Two ways to the same arguments. -/

section Agreement

variable {sh : Numerals} {tool_name : Str}

/-- What a caller sees: the coerced arguments, or the message of the rejection. -/
def seen (r : Except ReprError (Mapping Str Value × Option Str)) :
    Except ReprError (Mapping Str Value ⊕ Str) :=
  r.map fun p =>
    match p.2 with
    | none => .inl p.1
    | some text => .inr text

/-- Two mappings that differ in what one key maps to. -/
structure Apart (k : Str) (v w : Value) (m n : Mapping Str Value) : Prop where
  keys : m.keys = n.keys
  left : m.get k = some v
  right : n.get k = some w
  rest : ∀ l, l ≠ k → m.get l = n.get l

theorem Apart.set {k l : Str} {v w : Value} {m n : Mapping Str Value} (h : Apart k v w m n)
    (hl : l ≠ k) {x : Value} (hx : m.get l = some x) (y : Value) :
    Apart k v w (m.set l y) (n.set l y) := by
  have hxn : n.get l = some x := by rw [← h.rest l hl, hx]
  refine ⟨?_, ?_, ?_, ?_⟩
  · rw [keys_set_of_get hx, keys_set_of_get hxn, h.keys]
  · rw [Mapping.get_set, if_neg hl.symm, h.left]
  · rw [Mapping.get_set, if_neg hl.symm, h.right]
  · intro j hj
    rw [Mapping.get_set, Mapping.get_set, h.rest j hj]

end Agreement

/-- An interpreter that reads the integer 30 and knows no float. -/
def sampleNumerals : Numerals where
  toShell := { Commands.asciiShell with intOf := fun s => if s = str "30" then some 30 else none }
  intOfFloat _ := none
  floatOfInt _ := none
  reprObject _ := []
  nameObject _ := []
  frames := 100

end KestrelSdk.Tools

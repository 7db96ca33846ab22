import KestrelSdk.Tools.Arguments

namespace KestrelSdk.Tools

open Json (Str str Value)
open Commands (ToolParameter)
open KestrelSdk.Order (Mapping)

/-- A `ToolParameter` with what `validate_parameters` reads beside its name and type. -/
structure SchemaParameter extends ToolParameter where
  required : Bool
  enum : Option (List Str)

/-- `isinstance(value, str)`, `isinstance(value, int)` and `isinstance(value, bool)`: a boolean is
an integer. -/
def isStr : Value → Bool
  | .str _ => true
  | _ => false

def isInt : Value → Bool
  | .int _ => true
  | .bool _ => true
  | _ => false

def isBool : Value → Bool
  | .bool _ => true
  | _ => false

/-- `value not in param.enum`. -/
def notIn (value : Value) (enum : List Str) : Bool :=
  match value with
  | .str s => s ∉ enum
  | _ => true

def parameterText (param : SchemaParameter) (rest : Str) : Str :=
  str "Parameter '" ++ param.name ++ str "' must be " ++ rest

/-- What `validate_parameters` says of a parameter that is given. -/
def valueError (param : SchemaParameter) (value : Value) : Option Str :=
  if param.type = str "string" ∧ isStr value = false then
    some (parameterText param (str "a string"))
  else if param.type = str "integer" ∧ isInt value = false then
    some (parameterText param (str "an integer"))
  else if param.type = str "boolean" ∧ isBool value = false then
    some (parameterText param (str "a boolean"))
  else
    match param.enum with
    | some (e :: es) =>
      if notIn value (e :: es) then
        some (parameterText param (str "one of: " ++ Json.Printer.joined (e :: es)))
      else none
    | _ => none

/-- The loop of `validate_parameters`: its message, if a parameter fails. -/
def firstError (kwargs : Mapping Str Value) : List SchemaParameter → Option Str
  | [] => none
  | param :: parameters =>
    match kwargs.get param.name with
    | none =>
      if param.required then
        some (str "Required parameter '" ++ param.name ++ str "' is missing")
      else firstError kwargs parameters
    | some value =>
      match valueError param value with
      | some text => some text
      | none => firstError kwargs parameters

/-- `validate_parameters(**kwargs)`; `none` is the `TypeError` of a call that passes `self`. -/
def validateParameters (parameters : List SchemaParameter) (kwargs : Mapping Str Value) :
    Option (Bool × Option Str) :=
  if (kwargs.get (str "self")).isSome then none
  else
    match firstError kwargs parameters with
    | none => some (true, none)
    | some text => some (false, some text)

/-- The parameters of a name. -/
def named {α : Type} (nameOf : α → Str) (parameters : List α) (name : Str) : List α :=
  parameters.filter fun p => nameOf p = name

variable {sh : Numerals}

/-! One argument through the parameters of its name. -/

def chain (sh : Numerals) : List ToolParameter → Value → Option Value
  | [], v => some v
  | p :: ps, v => (coerceJsonValue sh v p.type p.nullable).bind (chain sh ps)

theorem coerceAll_chain {ps : List ToolParameter} {coerced result : Mapping Str Value}
    (h : coerceAll sh ps coerced = .ok result) {k : Str} {v : Value} (hv : coerced.get k = some v) :
    ∃ w, chain sh (named ToolParameter.name ps k) v = some w ∧ result.get k = some w := by
  induction ps generalizing coerced v with
  | nil =>
    cases h
    exact ⟨v, rfl, hv⟩
  | cons p ps ih =>
    rw [coerceAll] at h
    by_cases hp : p.name = k
    · rw [hp, hv] at h
      dsimp only at h
      rw [named, List.filter_cons_of_pos (by simpa using hp), chain]
      cases hr : coerceJsonValue sh v p.type p.nullable with
      | none =>
        rw [hr] at h
        cases h
      | some r =>
        rw [hr] at h
        exact ih h (by rw [Mapping.get_set, if_pos rfl])
    · rw [named, List.filter_cons_of_neg (by simpa using hp)]
      cases hget : coerced.get p.name with
      | none =>
        rw [hget] at h
        exact ih h hv
      | some x =>
        rw [hget] at h
        dsimp only at h
        cases hr : coerceJsonValue sh x p.type p.nullable with
        | none =>
          rw [hr] at h
          cases h
        | some r =>
          rw [hr] at h
          exact ih h (by rw [Mapping.get_set, if_neg (Ne.symm hp), hv])

theorem chain_append (ps qs : List ToolParameter) (v : Value) :
    chain sh (ps ++ qs) v = (chain sh ps v).bind (chain sh qs) := by
  induction ps generalizing v with
  | nil => rfl
  | cons p ps ih =>
    rw [List.cons_append, chain, chain, Option.bind_assoc]
    simp only [ih]

/-- `None` stays `None`, and nothing else becomes it. -/
theorem chain_none_iff {ps : List ToolParameter} {v w : Value} (h : chain sh ps v = some w) :
    w = .none ↔ v = .none := by
  induction ps generalizing v with
  | nil =>
    cases h
    rfl
  | cons p ps ih =>
    obtain ⟨r, hr, hrest⟩ := Option.bind_eq_some_iff.1 h
    rw [ih hrest]
    cases coerced_of_some hr with
    | null hv hr => exact iff_of_true hr hv
    | integer ht hv hr =>
      obtain ⟨i, rfl⟩ := hr
      exact iff_of_false (by simp) hv
    | number ht hv hr =>
      obtain ⟨x, rfl⟩ := hr
      exact iff_of_false (by simp) hv
    | boolean ht hv hr =>
      obtain ⟨b, rfl⟩ := hr
      exact iff_of_false (by simp) hv
    | other ht hv hr => rw [hr]

/-- A boolean passes boolean parameters only. -/
theorem chain_bool {ps : List ToolParameter} (hps : ∀ p ∈ ps, p.type ∈ COERCED_TYPES) {b : Bool}
    {w : Value} (h : chain sh ps (.bool b) = some w) : w = .bool b := by
  induction ps with
  | nil => exact (Option.some.inj h).symm
  | cons p ps ih =>
    obtain ⟨r, hr, hrest⟩ := Option.bind_eq_some_iff.1 h
    have hr' := hr
    rw [coerce_of_ne_none (by simp)] at hr'
    split_ifs at hr' with hint hnum hbool
    · cases hr'
    · cases hr'
    · obtain rfl : Value.bool b = r := Option.some.inj hr'
      exact ih (fun q hq => hps q (List.mem_cons_of_mem p hq)) hrest
    · have hp := hps p (List.mem_cons_self ..)
      simp [COERCED_TYPES, hint, hnum, hbool] at hp

/-- The last parameter leaves a value of its type. -/
theorem chain_last {ps : List ToolParameter} {q : ToolParameter} (hq : q.type ∈ COERCED_TYPES)
    {v w : Value} (hv : v ≠ .none) (h : chain sh (ps ++ [q]) v = some w) :
    isInt w = true ↔ q.type ≠ str "number" := by
  have hw : w ≠ .none := fun hw => hv ((chain_none_iff h).1 hw)
  rw [chain_append] at h
  obtain ⟨u, _, hlast⟩ := Option.bind_eq_some_iff.1 h
  obtain ⟨r, hr, hrw⟩ := Option.bind_eq_some_iff.1 hlast
  obtain rfl : r = w := Option.some.inj hrw
  cases coerced_of_some hr with
  | null _ hnull => exact absurd hnull hw
  | integer ht _ hint =>
    obtain ⟨i, rfl⟩ := hint
    rw [ht]
    exact iff_of_true rfl (by decide)
  | number ht _ hnum =>
    obtain ⟨x, rfl⟩ := hnum
    rw [ht]
    exact iff_of_false Bool.false_ne_true (by simp)
  | boolean ht _ hbool =>
    obtain ⟨b, rfl⟩ := hbool
    rw [ht]
    exact iff_of_true rfl (by decide)
  | other ht => exact absurd hq ht

/-- A boolean parameter leaves a boolean, and so do all that follow it. -/
theorem chain_boolean {ps : List ToolParameter} (hps : ∀ p ∈ ps, p.type ∈ COERCED_TYPES)
    {q : ToolParameter} (hmem : q ∈ ps) (hq : q.type = str "boolean") {v w : Value}
    (hv : v ≠ .none) (h : chain sh ps v = some w) : isBool w = true := by
  obtain ⟨before, after, rfl⟩ := List.append_of_mem hmem
  rw [chain_append] at h
  obtain ⟨u, hu, hrest⟩ := Option.bind_eq_some_iff.1 h
  obtain ⟨r, hr, hafter⟩ := Option.bind_eq_some_iff.1 hrest
  have hu' : u ≠ .none := fun hnone => hv ((chain_none_iff hu).1 hnone)
  have hbool : ∃ b, r = .bool b := by
    rw [coerce_of_ne_none hu', hq, if_neg (by decide), if_neg (by decide), if_pos rfl] at hr
    exact coerceBoolean_some hr
  obtain ⟨b, rfl⟩ := hbool
  have hw := chain_bool (fun p hp => hps p (by simp [hp])) hafter
  rw [hw]
  rfl

/-! A whole schema. -/

/-- Integer, number and boolean parameters without an enum. -/
def Plain (param : SchemaParameter) : Prop :=
  param.type ∈ COERCED_TYPES ∧ (param.enum = none ∨ param.enum = some [])

/-- A given argument is no null for an integer or boolean parameter, and no integer parameter has
its name again in a number parameter that is the last of the name. -/
def Validates (parameters : List SchemaParameter) (arguments : Mapping Str Value) : Prop :=
  ∀ p ∈ parameters, p.type ≠ str "number" → ∀ v, arguments.get p.name = some v →
    v ≠ .none ∧ (p.type = str "integer" →
      ∀ q, (named (fun p : SchemaParameter => p.name) parameters p.name).getLast? = some q →
        q.type ≠ str "number")

theorem firstError_none {kwargs : Mapping Str Value} {ps : List SchemaParameter} :
    firstError kwargs ps = none ↔ ∀ p ∈ ps, (kwargs.get p.name = none → p.required = false) ∧
      ∀ v, kwargs.get p.name = some v → valueError p v = none := by
  induction ps with
  | nil => simp [firstError]
  | cons p ps ih =>
    rw [firstError, List.forall_mem_cons, ← ih]
    cases hget : kwargs.get p.name with
    | none => cases hreq : p.required <;> simp
    | some value => cases herr : valueError p value <;> simp [herr]

theorem valueError_none {p : SchemaParameter} (hp : Plain p) (v : Value) :
    valueError p v = none ↔
      (p.type = str "integer" → isInt v = true) ∧ (p.type = str "boolean" → isBool v = true) := by
  obtain ⟨htype, henum⟩ := hp
  have hstr : p.type ≠ str "string" := by
    rintro ht
    rw [ht] at htype
    revert htype
    decide
  have hrest : (match p.enum with
      | some (e :: es) =>
        if notIn v (e :: es) then
          some (parameterText p (str "one of: " ++ Json.Printer.joined (e :: es)))
        else none
      | _ => none) = none := by
    obtain henum | henum := henum <;> rw [henum]
  unfold valueError
  rw [if_neg fun h => hstr h.1, hrest]
  by_cases hint : p.type = str "integer" ∧ isInt v = false
  · rw [if_pos hint]
    apply iff_of_false (by simp)
    intro h
    rw [h.1 hint.1] at hint
    cases hint.2
  · rw [if_neg hint]
    have hint' : p.type = str "integer" → isInt v = true := fun ht => by
      simpa [ht] using hint
    by_cases hbool : p.type = str "boolean" ∧ isBool v = false
    · rw [if_pos hbool]
      apply iff_of_false (by simp)
      intro h
      rw [h.2 hbool.1] at hbool
      cases hbool.2
    · rw [if_neg hbool]
      refine iff_of_true rfl ⟨hint', fun ht => ?_⟩
      simpa [ht] using hbool

theorem toToolParameter_named (ps : List SchemaParameter) (k : Str) :
    named ToolParameter.name (ps.map SchemaParameter.toToolParameter) k =
      (named (fun p : SchemaParameter => p.name) ps k).map SchemaParameter.toToolParameter := by
  unfold named
  rw [List.filter_map]
  rfl

/-- Coerced arguments pass for a parameter exactly under the condition on it. -/
theorem coerced_valid {ps : List SchemaParameter} (hps : ∀ p ∈ ps, Plain p)
    {arguments coerced : Mapping Str Value}
    (h : coerceAll sh (ps.map SchemaParameter.toToolParameter) arguments = .ok coerced)
    {p : SchemaParameter} (hp : p ∈ ps) {v w : Value} (hv : arguments.get p.name = some v)
    (hw : coerced.get p.name = some w) :
    valueError p w = none ↔ (p.type ≠ str "number" → v ≠ .none ∧ (p.type = str "integer" →
      ∀ q, (named (fun p : SchemaParameter => p.name) ps p.name).getLast? = some q →
        q.type ≠ str "number")) := by
  obtain ⟨u, hchain, hu⟩ := coerceAll_chain h hv
  obtain rfl : u = w := Option.some.inj (hu.symm.trans hw)
  rw [toToolParameter_named] at hchain
  have hmem : p ∈ named (fun p : SchemaParameter => p.name) ps p.name := by
    simp [named, hp]
  have htypes : ∀ q ∈ (named (fun p : SchemaParameter => p.name) ps p.name).map
      SchemaParameter.toToolParameter, q.type ∈ COERCED_TYPES := by
    intro q hq
    obtain ⟨r, hr, rfl⟩ := List.mem_map.1 hq
    exact (hps r (List.mem_of_mem_filter hr)).1
  rw [valueError_none (hps p hp)]
  generalize named (fun p : SchemaParameter => p.name) ps p.name = group at hchain hmem htypes ⊢
  have hnone : u = .none ↔ v = .none := chain_none_iff hchain
  -- The last parameter of the name decides whether the argument is left an integer.
  have hlast : v ≠ .none → ∀ q, group.getLast? = some q →
      (isInt u = true ↔ q.type ≠ str "number") := by
    intro hv' q hq
    obtain ⟨init, rfl⟩ := List.getLast?_eq_some_iff.1 hq
    rw [List.map_append, List.map_singleton] at hchain htypes
    exact chain_last (htypes q.toToolParameter (by simp)) hv' hchain
  have htype := (hps p hp).1
  simp only [COERCED_TYPES, List.mem_cons, List.not_mem_nil, or_false] at htype
  obtain ht | ht | ht := htype
  · obtain ⟨q, hq⟩ : ∃ q, group.getLast? = some q :=
      Option.isSome_iff_exists.1 (List.getLast?_isSome.2 (List.ne_nil_of_mem hmem))
    rw [ht]
    constructor
    · rintro ⟨hint, _⟩ _
      have hv' : v ≠ .none := by
        intro hnull
        rw [hnone.2 hnull] at hint
        exact Bool.false_ne_true (hint rfl)
      exact ⟨hv', fun _ r hr => (hlast hv' r hr).1 (hint rfl)⟩
    · intro h
      obtain ⟨hv', htypes'⟩ := h (by decide)
      exact ⟨fun _ => (hlast hv' q hq).2 (htypes' rfl q hq), fun hbool => absurd hbool (by decide)⟩
  · rw [ht]
    apply iff_of_true
    · exact ⟨fun h => absurd h (by decide), fun h => absurd h (by decide)⟩
    · exact fun h => absurd rfl h
  · rw [ht]
    constructor
    · rintro ⟨_, hbool⟩ _
      refine ⟨?_, fun h => absurd h (by decide)⟩
      intro hnull
      rw [hnone.2 hnull] at hbool
      exact Bool.false_ne_true (hbool rfl)
    · intro h
      obtain ⟨hv', _⟩ := h (by decide)
      refine ⟨fun hint => absurd hint (by decide), fun _ => ?_⟩
      exact chain_boolean htypes (List.mem_map_of_mem hmem) ht hv' hchain

/-- Arguments that are coerced pass the validation exactly if none is named `self`, none is a null
for an integer or boolean parameter, and no integer parameter has its name again in a last number
parameter. -/
theorem coerced_validates_iff (sh : Numerals) (tool_name : Str) (ps : List SchemaParameter)
    (arguments coerced : Mapping Str Value) (hps : ∀ p ∈ ps, Plain p)
    (hrequired : ∀ p ∈ ps, p.required = true → (arguments.get p.name).isSome = true)
    (hcoerced : coerceToolArguments sh tool_name arguments
      (ps.map SchemaParameter.toToolParameter) = .ok (coerced, none)) :
    validateParameters ps coerced = some (true, none) ↔
      arguments.get (str "self") = none ∧ Validates ps arguments := by
  have hall := coerceAll_of_accepted hcoerced
  have hkeys := (coerceAll_ok hall).1
  have hsome : ∀ k, (coerced.get k).isSome = (arguments.get k).isSome := by
    intro k
    rw [Bool.eq_iff_iff, ← Mapping.mem_keys_iff, ← Mapping.mem_keys_iff, hkeys]
  have hself : (coerced.get (str "self")).isSome = false ↔ arguments.get (str "self") = none := by
    rw [hsome, Option.isSome_eq_false_iff, Option.isNone_iff_eq_none]
  have herror : firstError coerced ps = none ↔ Validates ps arguments := by
    rw [firstError_none]
    constructor
    · intro h p hp hnumber v hv
      obtain ⟨w, hw⟩ : ∃ w, coerced.get p.name = some w := by
        rw [← Option.isSome_iff_exists, hsome, hv]
        rfl
      exact (coerced_valid hps hall hp hv hw).1 ((h p hp).2 w hw) hnumber
    · intro h p hp
      constructor
      · intro hmissing
        cases hreq : p.required with
        | false => rfl
        | true =>
          have hgiven := hrequired p hp hreq
          rw [← hsome, hmissing] at hgiven
          cases hgiven
      · intro w hw
        obtain ⟨v, hv⟩ : ∃ v, arguments.get p.name = some v := by
          rw [← Option.isSome_iff_exists, ← hsome, hw]
          rfl
        exact (coerced_valid hps hall hp hv hw).2 fun hnumber => h p hp hnumber v hv
  unfold validateParameters
  cases hs : (coerced.get (str "self")).isSome with
  | true =>
    rw [if_pos rfl]
    apply iff_of_false (by simp)
    rintro ⟨hno, _⟩
    rw [hself.2 hno] at hs
    cases hs
  | false =>
    rw [if_neg Bool.false_ne_true, and_iff_right (hself.1 hs), ← herror]
    cases firstError coerced ps <;> simp

def requiredLimit : SchemaParameter := ⟨⟨str "limit", str "integer", .none, true⟩, true, none⟩

theorem coerced_validates_limit : validateParameters [requiredLimit]
    (Mapping.empty.set (str "limit") (.int 30)) = some (true, none) := by
  have harguments : coerceToolArguments sampleNumerals (str "f")
      (Mapping.empty.set (str "limit") (.str (str "30"))) [requiredLimit.toToolParameter] =
      .ok (Mapping.empty.set (str "limit") (.int 30), none) := by
    rfl
  have hiff := coerced_validates_iff sampleNumerals (str "f") [requiredLimit] _ _
    (by simp [Plain, requiredLimit, COERCED_TYPES]) (by decide) harguments
  apply hiff.2
  refine ⟨by decide, ?_⟩
  intro p hp _ v hv
  obtain rfl := List.mem_singleton.1 hp
  obtain rfl : Value.str (str "30") = v := Option.some.inj hv
  refine ⟨by simp, fun _ q hq => ?_⟩
  obtain rfl : requiredLimit = q := Option.some.inj hq
  decide

/-- A null for a nullable integer parameter is coerced and then refused. -/
theorem null_refused : ∃ arguments : Mapping Str Value,
    requiredLimit.nullable = true ∧ (arguments.get requiredLimit.name).isSome = true ∧
    coerceToolArguments sampleNumerals (str "f") arguments [requiredLimit.toToolParameter] =
      .ok (arguments, none) ∧
    validateParameters [requiredLimit] arguments =
      some (false, some (str "Parameter 'limit' must be an integer")) :=
  ⟨Mapping.empty.set (str "limit") .none, rfl, by decide, by rfl, by rfl⟩

end KestrelSdk.Tools

import KestrelSdk.Frozen.Measure

namespace KestrelSdk.Json

/-- Why `repr` raises: `ValueError` for an integer with too many digits, or `RecursionError`. -/
inductive ReprError where
  | digits
  | recursion
  deriving DecidableEq

/-- `repr` of a string, and of an object of another type. -/
structure Printer where
  string : Str → Str
  object : Nat → Str

namespace Printer

variable (p : Printer)

def int (i : Int) : Except ReprError Str :=
  match dumpInt i with
  | .ok t => .ok t
  | .error _ => .error .digits

def bool (b : Bool) : Str := if b then str "True" else str "False"

def float : PyFloat → Str
  | .finite r => r.text
  | .inf => str "inf"
  | .negInf => str "-inf"
  | .nan => str "nan"

def key : Key → Except ReprError Str
  | .str s => .ok (p.string s)
  | .none => .ok (str "None")
  | .bool b => .ok (bool b)
  | .int i => int i
  | .float x => .ok (float x)
  | .object n => .ok (p.object n)

/-- `", ".join(texts)`. -/
def joined (texts : List Str) : Str := (texts.intersperse (str ", ")).flatten

mutual
/-- `repr(value)`, where the recursion limit leaves room for `frames` levels of nesting. -/
def repr : Nat → Value → Except ReprError Str
  | _, .none => .ok (str "None")
  | _, .bool b => .ok (bool b)
  | _, .int i => int i
  | _, .float x => .ok (float x)
  | _, .str s => .ok (p.string s)
  | 0, .list _ => .error .recursion
  | frames + 1, .list vs => do
    let texts ← reprItems frames vs
    return 91 :: (joined texts ++ [93])
  | 0, .dict _ => .error .recursion
  | frames + 1, .dict es => do
    let texts ← reprEntries frames es
    return 123 :: (joined texts ++ [125])
  | _, .object n => .ok (p.object n)
  termination_by structural _ v => v

def reprItems : Nat → List Value → Except ReprError (List Str)
  | _, [] => .ok []
  | frames, v :: vs => do
    let text ← repr frames v
    let texts ← reprItems frames vs
    return text :: texts
  termination_by structural _ vs => vs

def reprEntries : Nat → List (Key × Value) → Except ReprError (List Str)
  | _, [] => .ok []
  | frames, (k, v) :: es => do
    let name ← p.key k
    let text ← repr frames v
    let texts ← reprEntries frames es
    return (name ++ str ": " ++ text) :: texts
  termination_by structural _ es => es
end

end Printer

/-- The integer of a key. -/
def Key.ints : Key → List Int
  | .int i => [i]
  | _ => []

mutual
/-- The integers in a value. -/
def intsOf : Value → List Int
  | .int i => [i]
  | .list vs => intsOfItems vs
  | .dict es => intsOfEntries es
  | _ => []
  termination_by structural v => v

def intsOfItems : List Value → List Int
  | [] => []
  | v :: vs => intsOf v ++ intsOfItems vs
  termination_by structural vs => vs

def intsOfEntries : List (Key × Value) → List Int
  | [] => []
  | (k, v) :: es => k.ints ++ (intsOf v ++ intsOfEntries es)
  termination_by structural es => es
end

/-- `repr` converts the integer. -/
def Convertible (i : Int) : Prop := (natText i.natAbs).length ≤ maxStrDigits

theorem not_convertible {k : Nat} (h : maxStrDigits ≤ k) : ¬ Convertible (10 ^ k) := by
  unfold Convertible natText
  rw [List.length_map, Nat.length_toDigits_le_iff (by decide) (by decide), Int.natAbs_pow, not_lt]
  exact Nat.pow_le_pow_right (by decide) h

/-- `repr` has room for the nesting, and converts every integer. -/
def Renders (frames height : Nat) (ints : List Int) : Prop :=
  height ≤ frames ∧ ∀ i ∈ ints, Convertible i

theorem renders_append {frames m n : Nat} {a b : List Int} :
    Renders frames (max m n) (a ++ b) ↔ Renders frames m a ∧ Renders frames n b := by
  simp only [Renders, List.mem_append, or_imp, forall_and, Nat.max_le]
  tauto

theorem renders_cons {frames m : Nat} {a b : List Int} :
    Renders frames m (a ++ b) ↔ (∀ i ∈ a, Convertible i) ∧ Renders frames m b := by
  simp only [Renders, List.mem_append, or_imp, forall_and]
  tauto

namespace Printer

open Frozen (height heightItems heightEntries)

variable {p : Printer}

theorem int_ok (i : Int) : (∃ t, int i = .ok t) ↔ Convertible i := by
  unfold int dumpInt Convertible
  by_cases h : maxStrDigits < (natText i.natAbs).length
  · rw [if_pos h]
    apply iff_of_false
    · rintro ⟨t, ht⟩
      cases ht
    · omega
  · rw [if_neg h]
    exact iff_of_true ⟨_, rfl⟩ (by omega)

theorem key_ok (k : Key) : (∃ t, p.key k = .ok t) ↔ ∀ i ∈ k.ints, Convertible i := by
  cases k with
  | int i => simpa only [key, Key.ints, List.mem_singleton, forall_eq] using int_ok i
  | _ => exact iff_of_true ⟨_, rfl⟩ (by simp [Key.ints])

/-- A step, and what follows from it whatever it gives. -/
theorem bind_ok {α β : Type} {r : Except ReprError α} {f : α → Except ReprError β} {P : Prop}
    (h : ∀ a, (∃ b, f a = .ok b) ↔ P) : (∃ b, (r >>= f) = .ok b) ↔ (∃ a, r = .ok a) ∧ P := by
  cases r with
  | error e =>
    apply iff_of_false
    · rintro ⟨b, hb⟩
      cases hb
    · rintro ⟨⟨a, ha⟩, _⟩
      cases ha
  | ok a => exact (h a).trans (and_iff_right ⟨a, rfl⟩).symm

theorem map_ok {α β : Type} {r : Except ReprError α} (f : α → β) :
    (∃ b, (do
      let a ← r
      return f a) = .ok b) ↔ ∃ a, r = .ok a := by
  cases r with
  | error e => exact iff_of_false (by rintro ⟨b, hb⟩; cases hb) (by rintro ⟨a, ha⟩; cases ha)
  | ok a => exact iff_of_true ⟨f a, rfl⟩ ⟨a, rfl⟩

theorem renders_leaf (frames : Nat) : Renders frames 0 [] := ⟨Nat.zero_le _, by simp⟩

mutual
/-- `repr` of a value raises exactly for its nesting or for an integer in it. -/
theorem repr_ok : ∀ (frames : Nat) (v : Value),
    (∃ t, p.repr frames v = .ok t) ↔ Renders frames (height v) (intsOf v)
  | frames, .none => by
    rw [repr]
    exact iff_of_true ⟨_, rfl⟩ (renders_leaf frames)
  | frames, .bool b => by
    rw [repr]
    exact iff_of_true ⟨_, rfl⟩ (renders_leaf frames)
  | frames, .int i => by
    rw [repr, int_ok]
    simp only [Renders, height, intsOf, Nat.zero_le, true_and, List.mem_singleton, forall_eq]
  | frames, .float x => by
    rw [repr]
    exact iff_of_true ⟨_, rfl⟩ (renders_leaf frames)
  | frames, .str s => by
    rw [repr]
    exact iff_of_true ⟨_, rfl⟩ (renders_leaf frames)
  | 0, .list vs => by
    rw [repr]
    apply iff_of_false
    · rintro ⟨t, ht⟩
      cases ht
    · intro h
      have hroom := h.1
      simp only [height] at hroom
      omega
  | frames + 1, .list vs => by
    rw [repr, map_ok, reprItems_ok frames vs]
    simp only [Renders, height, intsOf, Nat.add_le_add_iff_right]
  | 0, .dict es => by
    rw [repr]
    apply iff_of_false
    · rintro ⟨t, ht⟩
      cases ht
    · intro h
      have hroom := h.1
      simp only [height] at hroom
      omega
  | frames + 1, .dict es => by
    rw [repr, map_ok, reprEntries_ok frames es]
    simp only [Renders, height, intsOf, Nat.add_le_add_iff_right]
  | frames, .object n => by
    rw [repr]
    exact iff_of_true ⟨_, rfl⟩ (renders_leaf frames)
  termination_by structural _ v => v

theorem reprItems_ok : ∀ (frames : Nat) (vs : List Value),
    (∃ t, p.reprItems frames vs = .ok t) ↔ Renders frames (heightItems vs) (intsOfItems vs)
  | frames, [] => by
    rw [reprItems]
    exact iff_of_true ⟨_, rfl⟩ (renders_leaf frames)
  | frames, v :: vs => by
    have hbind := bind_ok (r := p.repr frames v) fun text =>
      map_ok (r := p.reprItems frames vs) fun texts => text :: texts
    rw [reprItems, heightItems, intsOfItems, renders_append, ← repr_ok frames v,
      ← reprItems_ok frames vs]
    exact hbind
  termination_by structural _ vs => vs

theorem reprEntries_ok : ∀ (frames : Nat) (es : List (Key × Value)),
    (∃ t, p.reprEntries frames es = .ok t) ↔ Renders frames (heightEntries es) (intsOfEntries es)
  | frames, [] => by
    rw [reprEntries]
    exact iff_of_true ⟨_, rfl⟩ (renders_leaf frames)
  | frames, (k, v) :: es => by
    have hbind := bind_ok (r := p.key k) fun name => bind_ok (r := p.repr frames v) fun text =>
      map_ok (r := p.reprEntries frames es) fun texts => (name ++ str ": " ++ text) :: texts
    rw [reprEntries, heightEntries, intsOfEntries, renders_cons, renders_append, ← key_ok,
      ← repr_ok frames v, ← reprEntries_ok frames es]
    exact hbind
  termination_by structural _ es => es
end

end Printer

end KestrelSdk.Json

import Mathlib.Algebra.GroupWithZero.Nat
import Mathlib.Data.List.Basic
import Mathlib.Logic.Function.Basic

namespace KestrelSdk.Json

/-- A Python string: its code points. A lone surrogate is a code point like any other. -/
abbrev Str := List Nat

instance : LawfulBEq Str := inferInstance

instance neZeroTen : NeZero 10 := ⟨by decide⟩

/-- The code points of a literal. -/
def str (s : String) : Str := s.toList.map Char.toNat

/-- Unicode scalar values: the code points but the surrogates. -/
def IsScalar (c : Nat) : Prop := c < 0xD800 ∨ (0xE000 ≤ c ∧ c < 0x110000)

instance (c : Nat) : Decidable (IsScalar c) := inferInstanceAs (Decidable (_ ∨ _))

/-- The `repr` of a finite float: a sign, an integer part, and a fraction or an exponent. -/
structure FloatRepr where
  negative : Bool
  whole : Nat
  fraction : Option (Fin 10 × List (Fin 10))
  exponent : Option (Bool × Fin 10 × List (Fin 10))
  marked : fraction.isSome = true ∨ exponent.isSome = true
  deriving DecidableEq

/-- A Python float. A finite one is named by its `repr`. -/
inductive PyFloat where
  | finite (repr : FloatRepr)
  | inf
  | negInf
  | nan
  deriving DecidableEq

/-- The keys of a Python dict. `object n` is a key that JSON does not know. -/
inductive Key where
  | str (s : Str)
  | none
  | bool (b : Bool)
  | int (i : Int)
  | float (x : PyFloat)
  | object (n : Nat)
  deriving DecidableEq

/-- The Python values that meet the JSON codec. `object n` stands for every object whose
encoding raises. -/
inductive Value where
  | none
  | bool (b : Bool)
  | int (i : Int)
  | float (x : PyFloat)
  | str (s : Str)
  | list (items : List Value)
  | dict (entries : List (Key × Value))
  | object (n : Nat)

/-- A decoded JSON object. -/
abbrev Dict := List (Key × Value)

namespace Dict

/-- `d.get(k)` for a string key. -/
def get (d : Dict) (k : Str) : Option Value :=
  d.lookup (.str k)

/-- `d[k] = v`: an existing key keeps its place. -/
def set (d : Dict) (k : Str) (v : Value) : Dict :=
  match d with
  | [] => [(.str k, v)]
  | (l, w) :: d => if l = .str k then (l, v) :: d else (l, w) :: set d k v

/-- `k in d`. -/
def has (d : Dict) (k : Str) : Bool := (d.get k).isSome

theorem get_cons (l k : Str) (v : Value) (d : Dict) :
    get ((.str l, v) :: d) k = if k = l then some v else d.get k := by
  unfold get
  rw [List.lookup_cons]
  by_cases h : k = l
  · simp [h]
  · have hne : (Key.str k == Key.str l) = false := by simpa using h
    simp [h, hne]

theorem get_append (a b : Dict) (k : Str) : get (a ++ b) k = (get a k).or (get b k) :=
  List.lookup_append

theorem set_of_fresh {d : Dict} {k : Str} {v : Value} (h : Key.str k ∉ d.map Prod.fst) :
    d.set k v = d ++ [(.str k, v)] := by
  induction d with
  | nil => rfl
  | cons e d ih =>
    obtain ⟨l, w⟩ := e
    simp only [List.map_cons, List.mem_cons, not_or] at h
    have hne : ¬ l = Key.str k := fun he => h.1 he.symm
    simp only [set, if_neg hne, List.cons_append]
    rw [ih h.2]

end Dict

end KestrelSdk.Json

import KestrelSdk.ComputerUse.Models
import KestrelSdk.Json.RoundTrip

/-! The texts and the numeric equality of `Decimal`. -/

namespace KestrelSdk.ComputerUse

open Json (Str str natText natOf isDigit)

def signText (negative : Bool) : Str := if negative then [45] else []

/-- The digits around the decimal point, which stands behind `dotplace` of them. -/
def pointed (int : Str) (dotplace : Int) : Str :=
  if dotplace ≤ 0 then 48 :: 46 :: (List.replicate (-dotplace).toNat 48 ++ int)
  else if int.length ≤ dotplace then int ++ List.replicate (dotplace - int.length).toNat 48
  else int.take dotplace.toNat ++ 46 :: int.drop dotplace.toNat

/-- `"E%+d"`, left out at zero. -/
def powerText (power : Int) : Str :=
  if power = 0 then [] else 69 :: (if power < 0 then 45 else 43) :: natText power.natAbs

namespace Decimal

/-- Where `__str__` puts the decimal point. -/
def dotplace (digits : Nat) (exponent : Int) : Int :=
  let leftdigits := exponent + (natText digits).length
  if exponent ≤ 0 ∧ -6 < leftdigits then leftdigits else 1

/-- `Decimal.__str__`. -/
def text : Decimal → Str
  | .infinity negative => signText negative ++ str "Infinity"
  | .nan => str "NaN"
  | .finite negative digits exponent =>
    let int := natText digits
    let dot := dotplace digits exponent
    signText negative ++ (pointed int dot ++ powerText (exponent + int.length - dot))

/-- The coefficient with its sign. -/
def signed (negative : Bool) (digits : Nat) : Int := if negative then -digits else digits

/-- `Decimal.__eq__`: equality of the values. -/
def eq : Decimal → Decimal → Bool
  | .finite n d e, .finite n' d' e' =>
    signed n d * 10 ^ (e - min e e').toNat == signed n' d' * 10 ^ (e' - min e e').toNat
  | .infinity n, .infinity n' => n == n'
  | _, _ => false

theorem eq_self {negative : Bool} {digits : Nat} {exponent : Int} :
    (finite negative digits exponent).eq (finite negative digits exponent) = true :=
  beq_self_eq_true _

/-- The digits behind a decimal point, if there is one, and the rest. -/
def readPoint : Str → Str × Str
  | 46 :: s => (s.takeWhile isDigit, s.dropWhile isDigit)
  | s => ([], s)

def readPower : Str → Int
  | 69 :: 45 :: s => -natOf s
  | 69 :: _ :: s => natOf s
  | _ => 0

def readUnsigned (negative : Bool) (s : Str) : Decimal :=
  let int := s.takeWhile isDigit
  let point := readPoint (s.dropWhile isDigit)
  .finite negative (natOf (int ++ point.1)) (readPower point.2 - point.1.length)

/-- The finite `Decimal` of a text. -/
def read : Str → Decimal
  | 45 :: s => readUnsigned true s
  | s => readUnsigned false s

theorem natOf_zeros (n : Nat) (s : Str) : natOf (List.replicate n 48 ++ s) = natOf s := by
  induction n with
  | zero => rfl
  | succ n ih => exact ih

/-- What follows the digits. -/
def pointText (fraction : Str) : Str := if fraction = [] then [] else 46 :: fraction

/-- The digits before and behind the point, and the power that is left for the exponent. -/
theorem pointed_spec (digits : Nat) (exponent : Int) :
    ∃ int fraction, (∃ c ds, int = c :: ds) ∧ (∀ c ∈ int, isDigit c = true) ∧
      (∀ c ∈ fraction, isDigit c = true) ∧
      pointed (natText digits) (dotplace digits exponent) = int ++ pointText fraction ∧
      natOf (int ++ fraction) = digits ∧
      exponent + (natText digits).length - dotplace digits exponent - fraction.length =
        exponent := by
  have hdigits : ∀ c ∈ natText digits, isDigit c = true := fun c => Json.natText_digit
  have hzeros : ∀ n, ∀ c ∈ List.replicate n 48, isDigit c = true := by
    intro n c hc
    rw [List.eq_of_mem_replicate hc]
    decide
  have hne : (natText digits) ≠ [] := Json.natText_ne_nil digits
  have hlen : 0 < (natText digits).length := List.length_pos_of_ne_nil hne
  have hvalue := Json.natOf_natText digits
  have hdot : dotplace digits exponent = exponent + (natText digits).length ∧ exponent ≤ 0 ∨
      dotplace digits exponent = 1 := by
    unfold dotplace
    dsimp only
    split
    · rename_i h
      exact .inl ⟨rfl, h.1⟩
    · exact .inr rfl
  generalize dotplace digits exponent = dot at *
  generalize natText digits = int at *
  unfold pointed
  split
  · rename_i hneg
    refine ⟨[48], List.replicate (-dot).toNat 48 ++ int, ⟨48, [], rfl⟩, by decide, ?_, ?_, ?_, ?_⟩
    · exact List.forall_mem_append.2 ⟨hzeros _, hdigits⟩
    · rw [pointText, if_neg (by simp [hne])]
      rfl
    · exact (natOf_zeros 1 _).trans ((natOf_zeros _ _).trans hvalue)
    · rw [List.length_append, List.length_replicate]
      omega
  · split
    · rename_i hpos hle
      have hnone : (dot - int.length).toNat = 0 := by omega
      refine ⟨int, [], List.exists_cons_of_ne_nil hne, hdigits, by simp, ?_, ?_, ?_⟩
      · rw [hnone]
        rfl
      · rw [List.append_nil]
        exact hvalue
      · simp only [List.length_nil]
        omega
    · rename_i hpos hlt
      have htake : int.take dot.toNat ≠ [] := by
        intro hnil
        have := congrArg List.length hnil
        simp only [List.length_take, List.length_nil] at this
        omega
      have hdrop : int.drop dot.toNat ≠ [] := by
        intro hnil
        have := congrArg List.length hnil
        simp only [List.length_drop, List.length_nil] at this
        omega
      refine ⟨int.take dot.toNat, int.drop dot.toNat, List.exists_cons_of_ne_nil htake, ?_, ?_, ?_,
        ?_, ?_⟩
      · exact fun c hc => hdigits c (List.mem_of_mem_take hc)
      · exact fun c hc => hdigits c (List.mem_of_mem_drop hc)
      · rw [pointText, if_neg hdrop]
      · rw [List.take_append_drop]
        exact hvalue
      · rw [List.length_drop]
        omega

theorem powerText_digits (power : Int) : (powerText power).takeWhile isDigit = [] ∧
    (powerText power).dropWhile isDigit = powerText power := by
  unfold powerText
  split
  · exact ⟨rfl, rfl⟩
  · exact ⟨rfl, rfl⟩

theorem readPower_text (power : Int) : readPower (powerText power) = power := by
  unfold powerText
  split
  · rename_i h
    exact h.symm
  · split
    · rw [readPower, Json.natOf_natText]
      omega
    · rw [readPower, Json.natOf_natText]
      · omega
      · simp

theorem readPoint_text {fraction : Str} (h : ∀ c ∈ fraction, isDigit c = true) (power : Int) :
    readPoint (pointText fraction ++ powerText power) = (fraction, powerText power) := by
  have hpower := powerText_digits power
  unfold pointText
  split
  · rename_i hnil
    rw [hnil]
    unfold powerText
    split
    · rfl
    · rfl
  · rw [List.cons_append, readPoint, List.takeWhile_append_of_pos h,
      List.dropWhile_append_of_pos h, hpower.1, hpower.2, List.append_nil]

theorem pointText_digits (fraction : Str) (power : Int) :
    (pointText fraction ++ powerText power).takeWhile isDigit = [] ∧
      (pointText fraction ++ powerText power).dropWhile isDigit =
        pointText fraction ++ powerText power := by
  unfold pointText
  split
  · exact powerText_digits power
  · exact ⟨rfl, rfl⟩

/-- `str` of a finite `Decimal` is read back, with its sign, its digits and its exponent. -/
theorem read_text (negative : Bool) (digits : Nat) (exponent : Int) :
    read (finite negative digits exponent).text = .finite negative digits exponent := by
  obtain ⟨int, fraction, ⟨c, ds, hint⟩, hdigits, hfraction, hpointed, hvalue, hexponent⟩ :=
    pointed_spec digits exponent
  have htail := pointText_digits fraction
    (exponent + (natText digits).length - dotplace digits exponent)
  have hunsigned : ∀ n, readUnsigned n (int ++ (pointText fraction ++
      powerText (exponent + (natText digits).length - dotplace digits exponent))) =
        .finite n digits exponent := by
    intro n
    rw [readUnsigned, List.takeWhile_append_of_pos hdigits, List.dropWhile_append_of_pos hdigits,
      htail.1, htail.2, readPoint_text hfraction, List.append_nil, hvalue, readPower_text,
      hexponent]
  have hc : c ≠ 45 := by
    have := hdigits c (by simp [hint])
    rintro rfl
    cases this
  rw [text, hpointed, List.append_assoc]
  cases negative with
  | true => exact hunsigned true
  | false =>
    have h := hunsigned false
    rw [hint] at h ⊢
    rw [← h, signText, if_neg Bool.false_ne_true, List.nil_append, read]
    simp [hc]

/-- A finite `Decimal` is told by its spelling. -/
theorem text_injective {a b : Decimal} (ha : a.isUsd = true) (hb : b.isUsd = true) :
    a.text = b.text ↔ a = b := by
  constructor
  · intro h
    match a, b, ha, hb with
    | .finite n d e, .finite n' d' e', _, _ =>
      have hread := read_text n d e
      rw [h, read_text] at hread
      exact hread.symm
  · exact congrArg text

end Decimal

end KestrelSdk.ComputerUse

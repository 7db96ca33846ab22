import Mathlib.Data.Nat.Log
import Mathlib.Tactic.Ring

/-! Quotients of integers as doubles. Every finite double is a multiple of the smallest one, and is
given here by its multiple. -/

namespace KestrelSdk.Numbers

/-- `n / d`, to the nearest integer and to the even one between two. -/
def roundHalfEven (n d : Nat) : Nat :=
  if 2 * (n % d) < d ∨ (2 * (n % d) = d ∧ n / d % 2 = 0) then n / d else n / d + 1

theorem lt_roundHalfEven_iff {n d b : Nat} (hd : 0 < d) : b < roundHalfEven n d ↔
    (2 * b + 1) * d < 2 * n ∨ ((2 * b + 1) * d = 2 * n ∧ b % 2 = 1) := by
  have hn := Nat.div_add_mod n d
  have hr := Nat.mod_lt n hd
  unfold roundHalfEven
  generalize n / d = q at *
  generalize n % d = r at *
  have hq : (2 * q + 1) * d + 2 * r = 2 * n + d := by
    rw [← hn]
    ring
  rcases lt_trichotomy b q with hlt | rfl | hgt
  · have hstep : (2 * b + 1) * d + 2 * d ≤ (2 * q + 1) * d := by
      rw [← Nat.add_mul]
      exact Nat.mul_le_mul_right d (by omega)
    have hround : b < if 2 * r < d ∨ (2 * r = d ∧ q % 2 = 0) then q else q + 1 := by
      split <;> omega
    exact iff_of_true hround (.inl (by omega))
  · split
    · omega
    · omega
  · have hstep : (2 * q + 1) * d + 2 * d ≤ (2 * b + 1) * d := by
      rw [← Nat.add_mul]
      exact Nat.mul_le_mul_right d (by omega)
    have hround : ¬ b < if 2 * r < d ∨ (2 * r = d ∧ q % 2 = 0) then q else q + 1 := by
      split <;> omega
    exact iff_of_false hround (by omega)

/-- The smallest double is two to the minus this. -/
def SMALLEST : Nat := 1074

/-- Every finite double is below two to this. -/
def LARGEST : Nat := 1024

/-- The bits of the quotient, in multiples of the smallest double, that 53 bits do not hold. -/
def dropped (n d : Nat) : Nat := Nat.log2 (n * 2 ^ SMALLEST / d) - 52

/-- The double nearest to `n / d`. -/
def nearest (n d : Nat) : Nat :=
  roundHalfEven (n * 2 ^ SMALLEST) (d * 2 ^ dropped n d) * 2 ^ dropped n d

/-- The true division of integers; `none` where the quotient is too large for a float. -/
def trueDivide (n : Int) (d : Nat) : Option Int :=
  if nearest n.natAbs d < 2 ^ LARGEST * 2 ^ SMALLEST then some (n.sign * nearest n.natAbs d) else none

/-- `x > b` for a float and an integer: an exact comparison. -/
def floatGt (x b : Int) : Bool := b * (2 ^ SMALLEST : Nat) < x

theorem dropped_of_le {n d : Nat} (hd : 0 < d) (hn : d ≤ n) :
    dropped n d = Nat.log2 (n / d) + SMALLEST - 52 := by
  have hpos : 0 < n / d := Nat.div_pos hn hd
  obtain ⟨hlow, hhigh⟩ := (Nat.log2_eq_iff hpos.ne').1 rfl
  have hlog : Nat.log2 (n * 2 ^ SMALLEST / d) = Nat.log2 (n / d) + SMALLEST := by
    have hscaled : 2 ^ (Nat.log2 (n / d) + SMALLEST) ≤ n * 2 ^ SMALLEST / d := by
      rw [Nat.le_div_iff_mul_le hd, pow_add, Nat.mul_right_comm]
      exact Nat.mul_le_mul_right _ ((Nat.le_div_iff_mul_le hd).1 hlow)
    have hbound : n * 2 ^ SMALLEST / d < 2 ^ (Nat.log2 (n / d) + SMALLEST + 1) := by
      rw [Nat.div_lt_iff_lt_mul hd, Nat.add_right_comm, pow_add, Nat.mul_right_comm]
      exact Nat.mul_lt_mul_of_pos_right ((Nat.div_lt_iff_lt_mul hd).1 hhigh) (Nat.two_pow_pos _)
    have hne : n * 2 ^ SMALLEST / d ≠ 0 := (Nat.two_pow_pos _).trans_le hscaled |>.ne'
    exact (Nat.log2_eq_iff hne).2 ⟨hscaled, hbound⟩
  rw [dropped, hlog]

/-- When the double nearest to a quotient is above an integer: where the quotient is above it by
more than half of the last of the 53 bits. -/
theorem lt_nearest_iff {n d b : Nat} (hd : 0 < d) (hdrop : dropped n d < SMALLEST) :
    b * 2 ^ SMALLEST < nearest n d ↔
      d < (n - b * d) * 2 ^ (SMALLEST + 1 - dropped n d) := by
  rw [nearest]
  generalize dropped n d = k at *
  obtain ⟨t, ht⟩ : ∃ t, SMALLEST = t + 1 + k := ⟨SMALLEST - k - 1, by omega⟩
  have hk : 0 < 2 ^ k := Nat.two_pow_pos k
  have hsmallest : 2 ^ SMALLEST = 2 * 2 ^ t * 2 ^ k := by
    rw [ht, pow_add, pow_succ]
    ring
  have hexp : SMALLEST + 1 - k = t + 2 := by omega
  have heven : b * (2 * 2 ^ t) % 2 = 0 := by
    rw [show b * (2 * 2 ^ t) = 2 * (b * 2 ^ t) by ring]
    exact Nat.mul_mod_right 2 _
  rw [hsmallest, ← Nat.mul_assoc b, Nat.mul_lt_mul_right hk, lt_roundHalfEven_iff (Nat.mul_pos hd hk),
    hexp]
  have hleft : (2 * (b * (2 * 2 ^ t)) + 1) * (d * 2 ^ k) =
      (b * d * 2 ^ (t + 2) + d) * 2 ^ k := by
    rw [pow_add]
    ring
  have hright : 2 * (n * (2 * 2 ^ t * 2 ^ k)) = n * 2 ^ (t + 2) * 2 ^ k := by
    rw [pow_add]
    ring
  rw [hleft, hright, Nat.mul_lt_mul_right hk, Nat.sub_mul]
  omega

/-- Below two to the 52 the bits behind the point are not all dropped. -/
theorem dropped_lt {n d : Nat} (hd : 0 < d) (hn : n < 2 ^ 52 * d) : dropped n d < SMALLEST := by
  have hq : n * 2 ^ SMALLEST / d < 2 ^ (52 + SMALLEST) := by
    rw [Nat.div_lt_iff_lt_mul hd, pow_add, Nat.mul_right_comm]
    exact Nat.mul_lt_mul_of_pos_right hn (Nat.two_pow_pos _)
  have hsmallest : SMALLEST = 1074 := rfl
  rw [dropped]
  by_cases hzero : n * 2 ^ SMALLEST / d = 0
  · rw [hzero, Nat.log2_zero]
    omega
  · have hlog := (Nat.log2_lt hzero).2 hq
    omega

/-- A quotient below two to the 52 has a double. -/
theorem trueDivide_of_lt {n : Int} {d : Nat} (hd : 0 < d) (hn : n.natAbs < 2 ^ 52 * d) :
    trueDivide n d = some (n.sign * nearest n.natAbs d) := by
  have hle : nearest n.natAbs d ≤ 2 ^ 52 * 2 ^ SMALLEST := by
    apply Nat.le_of_not_lt
    intro hlt
    have hfar := (lt_nearest_iff hd (dropped_lt hd hn)).1 hlt
    rw [Nat.sub_eq_zero_of_le hn.le, Nat.zero_mul] at hfar
    exact absurd hfar (Nat.not_lt_zero d)
  have hlarge : 2 ^ 52 * 2 ^ SMALLEST < 2 ^ LARGEST * 2 ^ SMALLEST :=
    Nat.mul_lt_mul_of_pos_right (Nat.pow_lt_pow_right (by decide) (by decide)) (Nat.two_pow_pos _)
  rw [trueDivide, if_pos (hle.trans_lt hlarge)]

/-- A quotient is not above a positive integer as a double: where it is not above it, or by no more
than half of the last of the 53 bits. -/
theorem not_floatGt_iff {n b : Int} {d : Nat} (hd : 0 < d) (hn : n.natAbs < 2 ^ 52 * d)
    (hb : 0 < b) : floatGt (n.sign * nearest n.natAbs d) b = false ↔
      n ≤ b * d ∨ (n - b * d) * 2 ^ (53 - Nat.log2 b.toNat) ≤ d := by
  obtain ⟨b, rfl⟩ := Int.eq_ofNat_of_zero_le hb.le
  rw [floatGt, decide_eq_false_iff_not, not_lt, Int.toNat_natCast]
  rcases lt_or_ge 0 n with hpos | hneg
  · obtain ⟨n, rfl⟩ := Int.eq_ofNat_of_zero_le hpos.le
    rw [Int.natAbs_natCast] at hn ⊢
    have hsign : ((n : Int)).sign = 1 := Int.sign_eq_one_of_pos hpos
    have hcast : (1 * (nearest n d : Int) ≤ (b : Int) * (2 ^ SMALLEST : Nat)) ↔
        ¬ b * 2 ^ SMALLEST < nearest n d := by
      rw [Int.one_mul, not_lt, ← Nat.cast_mul, Nat.cast_le]
    rw [hsign, hcast, lt_nearest_iff hd (dropped_lt hd hn), not_lt]
    rcases le_or_gt n (b * d) with hle | hgt
    · rw [Nat.sub_eq_zero_of_le hle, Nat.zero_mul]
      exact iff_of_true (Nat.zero_le d) (.inl (by exact_mod_cast hle))
    · have hb' : 0 < b := by omega
      have hdn : d ≤ n := (Nat.le_mul_of_pos_left d hb').trans hgt.le
      have hq : n / d < 2 ^ 52 := (Nat.div_lt_iff_lt_mul hd).2 hn
      have hqpos : 0 < n / d := Nat.div_pos hdn hd
      have hlog := (Nat.log2_lt hqpos.ne').2 hq
      have hbq : b ≤ n / d := (Nat.le_div_iff_mul_le hd).2 hgt.le
      have hexp : SMALLEST + 1 - dropped n d = 53 - Nat.log2 (n / d) := by
        rw [dropped_of_le hd hdn]
        have hsmallest : SMALLEST = 1074 := rfl
        omega
      have hnot : ¬ (n : Int) ≤ b * d := by
        rw [not_le]
        exact_mod_cast hgt
      have hsub : ((n : Int) - b * d) = ((n - b * d : Nat) : Int) := by
        rw [Nat.cast_sub hgt.le, Nat.cast_mul]
      rw [hexp, or_iff_right hnot, hsub]
      rcases hbq.eq_or_lt with heq | hlt
      · rw [← heq]
        exact_mod_cast Iff.rfl
      · -- a whole unit above the integer
        have hfar : d ≤ n - b * d := by
          have hmul := (Nat.le_div_iff_mul_le hd).1 hlt
          rw [Nat.succ_mul] at hmul
          omega
        have hblog : Nat.log2 b < 52 := (Nat.log2_lt hb'.ne').2 (hbq.trans_lt hq)
        have hwide : ∀ k, k < 52 → ¬ (n - b * d) * 2 ^ (53 - k) ≤ d := by
          intro k hk hle
          have htwo : (n - b * d) * 2 ≤ (n - b * d) * 2 ^ (53 - k) :=
            Nat.mul_le_mul_left _ (Nat.le_self_pow (by omega) 2)
          omega
        refine iff_of_false (hwide _ hlog) ?_
        exact_mod_cast hwide _ hblog
  · have hsign : n.sign * (nearest n.natAbs d : Int) ≤ 0 :=
      Int.mul_nonpos_of_nonpos_of_nonneg (Int.sign_nonpos_iff.2 hneg) (Int.natCast_nonneg _)
    have hright : (0 : Int) ≤ b * (2 ^ SMALLEST : Nat) :=
      Int.mul_nonneg hb.le (Int.natCast_nonneg _)
    have hbd : (0 : Int) ≤ b * d := Int.mul_nonneg hb.le (Int.natCast_nonneg d)
    exact iff_of_true (hsign.trans hright) (.inl (hneg.trans hbd))

end KestrelSdk.Numbers

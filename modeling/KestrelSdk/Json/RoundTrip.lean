import Mathlib.Tactic.IntervalCases
import KestrelSdk.Json.Decode
import KestrelSdk.Order.Checks

namespace KestrelSdk.Json

open Checks (ok_bind)

/-- The code units that the escapes of a code point stand for. -/
def units (c : Nat) : Str :=
  if c < 0x10000 then [c]
  else [(0xD800 + (c - 0x10000) / 1024) % 0x10000, 0xDC00 + (c - 0x10000) % 1024]

/-- What a string is read back as. -/
def imageStr (s : Str) : Str := joinSurrogates (s.flatMap units)

theorem hexValue_hexDigit (n : Nat) (h : n < 16) : hexValue (hexDigit n) = some n := by
  revert h
  revert n
  decide

theorem scanUnits_hexEscape (c : Nat) (s : Str) :
    scanUnits (hexEscape c ++ s) = do
      let (us, r) ← scanUnits s
      return (c % 0x10000 :: us, r) := by
  have hq : hexQuad (hexDigit (c / 4096 % 16)) (hexDigit (c / 256 % 16))
      (hexDigit (c / 16 % 16)) (hexDigit (c % 16)) = some (c % 0x10000) := by
    simp only [hexQuad, hexValue_hexDigit _ (Nat.mod_lt _ (by decide)), Option.bind_eq_bind,
      Option.bind_some, Option.pure_def, Option.some.injEq]
    omega
  simp only [hexEscape, List.cons_append, List.nil_append, scanUnits, hq]

theorem scanUnits_escape (c : Nat) (s : Str) :
    scanUnits (escape c ++ s) = do
      let (us, r) ← scanUnits s
      return (units c ++ us, r) := by
  unfold escape
  split_ifs with h1 h2 h3 h4 h5 h6 h7 h8 h9
  case pos | pos | pos | pos | pos | pos | pos =>
    subst c
    simp [scanUnits, unescape, units]
  · have hu : units c = [c] := if_pos (by omega)
    rw [hu]
    simp only [List.cons_append, List.nil_append]
    rw [scanUnits]
    · rw [if_neg (by omega)]
    all_goals omega
  · have hu : units c = [c % 0x10000] := by
      rw [units, if_pos h9, Nat.mod_eq_of_lt h9]
    rw [hu, scanUnits_hexEscape]
    rfl
  · rw [List.append_assoc, scanUnits_hexEscape, scanUnits_hexEscape]
    have hlow : (0xDC00 + (c - 0x10000) % 1024) % 0x10000 = 0xDC00 + (c - 0x10000) % 1024 :=
      Nat.mod_eq_of_lt (by omega)
    rw [units, if_neg h9, hlow]
    cases scanUnits s <;> rfl

/-- A quoted string is read back up to its closing quote. -/
theorem scanString_dumpStr (s r : Str) :
    scanString (s.flatMap escape ++ 34 :: r) = .ok (imageStr s, r) := by
  have hu : scanUnits (s.flatMap escape ++ 34 :: r) = .ok (s.flatMap units, r) := by
    induction s with
    | nil => rfl
    | cons c s ih =>
      rw [List.flatMap_cons, List.append_assoc, scanUnits_escape, ih]
      rfl
  rw [scanString, hu]
  rfl

/-- What may follow a number in a text: nothing, a comma, a closing bracket or a newline. -/
def Stop (s : Str) : Prop := ∀ c r, s = c :: r → c = 44 ∨ c = 93 ∨ c = 125 ∨ c = 10

theorem Stop.nil : Stop [] := by
  intro c r h
  cases h

theorem Stop.cons {c : Nat} {r : Str} (h : c = 44 ∨ c = 93 ∨ c = 125 ∨ c = 10) :
    Stop (c :: r) := by
  intro c' r' he
  cases he
  exact h

theorem Stop.digits {s : Str} (h : Stop s) : s.takeWhile isDigit = [] ∧ s.dropWhile isDigit = s := by
  cases s with
  | nil => exact ⟨rfl, rfl⟩
  | cons c r =>
    have hc := h c r rfl
    have hd : isDigit c = false := by
      unfold isDigit
      simp only [Bool.and_eq_false_iff, decide_eq_false_iff_not]
      omega
    exact ⟨List.takeWhile_cons_of_neg (by simp [hd]), List.dropWhile_cons_of_neg (by simp [hd])⟩

theorem takeWhile_digits {ds s : Str} (hd : ∀ c ∈ ds, isDigit c = true) (h : Stop s) :
    (ds ++ s).takeWhile isDigit = ds ∧ (ds ++ s).dropWhile isDigit = s := by
  rw [List.takeWhile_append_of_pos hd, List.dropWhile_append_of_pos hd, h.digits.1, h.digits.2]
  exact ⟨List.append_nil ds, rfl⟩

theorem Stop.fraction {s : Str} (h : Stop s) : scanFraction s = ([], s) := by
  cases s with
  | nil => rfl
  | cons c r =>
    have hc := h c r rfl
    unfold scanFraction
    split
    · rename_i he
      cases he
      omega
    · rfl

theorem Stop.exponent {s : Str} (h : Stop s) : scanExponent s = ([], s) := by
  cases s with
  | nil => rfl
  | cons c r =>
    have hc := h c r rfl
    simp only [scanExponent]
    rw [if_neg (by omega)]

theorem natText_digit {n c : Nat} (h : c ∈ natText n) : isDigit c = true := by
  obtain ⟨x, hx, rfl⟩ := List.mem_map.1 h
  have hd := Nat.isDigit_of_mem_toDigits (b := 10) (by decide) (by decide) hx
  have h1 : 48 ≤ x.toNat ∧ x.toNat ≤ 57 := by
    simpa [Char.isDigit, UInt32.le_iff_toNat_le] using hd
  simp [isDigit, h1.1, h1.2]

theorem natOf_natText (n : Nat) : natOf (natText n) = n := by
  have h := Nat.ofDigitChars_toDigits (b := 10) (n := n) (by decide) (by decide)
  rw [Nat.ofDigitChars_eq_foldl] at h
  rw [natOf, natText, List.foldl_map]
  exact h

/-- No integer but `0` starts with the digit zero. -/
theorem natText_head {n : Nat} (hn : 0 < n) : ∃ c ds, natText n = c :: ds ∧ c ≠ 48 := by
  induction n using Nat.strong_induction_on with
  | _ n ih =>
    unfold natText
    by_cases hlt : n < 10
    · rw [Nat.toDigits_of_lt_base hlt]
      refine ⟨n.digitChar.toNat, [], rfl, ?_⟩
      interval_cases n <;> decide
    · rw [Nat.toDigits_of_base_le (by decide) (by omega)]
      obtain ⟨c, ds, he, hc⟩ := ih (n / 10) (by omega) (by omega)
      unfold natText at he
      exact ⟨c, ds ++ [(n % 10).digitChar.toNat], by simp [he], hc⟩

theorem natText_ne_nil (n : Nat) : natText n ≠ [] := by
  simp [natText, Nat.toDigits_ne_nil]

/-- What may follow the integer digits: a text that starts with no digit. -/
theorem scanInteger_natText (n : Nat) {s : Str}
    (hs : s.takeWhile isDigit = [] ∧ s.dropWhile isDigit = s) :
    scanInteger (natText n ++ s) = some (natText n, s) := by
  rcases Nat.eq_zero_or_pos n with rfl | hn
  · rfl
  · obtain ⟨c, ds, he, hc⟩ := natText_head hn
    have hall : ∀ x ∈ c :: ds, isDigit x = true := fun x hx => natText_digit (he ▸ hx)
    have htl : ∀ x ∈ ds, isDigit x = true := fun x hx => hall x (List.mem_cons_of_mem c hx)
    rw [he, List.cons_append, scanInteger]
    · rw [if_pos (hall c (List.mem_cons_self ..)), List.takeWhile_append_of_pos htl,
        List.dropWhile_append_of_pos htl, hs.1, hs.2, List.append_nil]
    · exact hc

theorem scanSign_text (negative : Bool) (n : Nat) (s : Str) :
    scanSign ((if negative then [45] else []) ++ (natText n ++ s)) =
      (if negative then [45] else [], natText n ++ s) := by
  cases negative with
  | true => rfl
  | false =>
    cases he : natText n with
    | nil => exact absurd he (natText_ne_nil n)
    | cons c ds =>
      have hd : isDigit c = true := natText_digit (n := n) (by simp [he])
      simp only [Bool.false_eq_true, if_false, List.nil_append, List.cons_append]
      unfold scanSign
      split
      · rename_i hc
        cases hc
        simp [isDigit] at hd
      · rfl

theorem scanNumber_dumpInt (f : Str → PyFloat) {i : Int} {t s : Str} (h : dumpInt i = .ok t)
    (hs : Stop s) : scanNumber f (t ++ s) = .ok (.int i, s) := by
  unfold dumpInt at h
  split at h
  · cases h
  · rename_i hlen
    cases h
    have hsign := scanSign_text (decide (i < 0)) i.natAbs s
    have ht : (if i < 0 then 45 :: natText i.natAbs else natText i.natAbs) ++ s =
        (if decide (i < 0) = true then [45] else []) ++ (natText i.natAbs ++ s) := by
      by_cases hi : i < 0
      · simp [hi]
      · simp [hi]
    rw [ht]
    simp only [scanNumber, hsign, scanInteger_natText i.natAbs hs.digits, hs.fraction, hs.exponent,
      List.isEmpty_nil, Bool.and_self, if_true, if_neg hlen, natOf_natText]
    by_cases hi : i < 0
    · simp only [hi, decide_true, if_true, List.isEmpty_cons, Bool.false_eq_true, if_false]
      congr 3
      omega
    · simp only [hi, decide_false, Bool.false_eq_true, if_false, List.isEmpty_nil, if_true]
      congr 3
      omega

theorem digitText_digit {ds : Fin 10 × List (Fin 10)} {c : Nat} (h : c ∈ digitText ds) :
    isDigit c = true := by
  obtain ⟨d, -, rfl⟩ := List.mem_map.1 h
  have := d.isLt
  simp only [isDigit, Bool.and_eq_true, decide_eq_true_eq]
  omega

theorem scanExponent_text (r : FloatRepr) {s : Str} (hs : Stop s) :
    scanExponent (r.exponentText ++ s) = (r.exponentText, s) := by
  unfold FloatRepr.exponentText
  cases r.exponent with
  | none => exact hs.exponent
  | some e =>
    obtain ⟨negative, ds⟩ := e
    have hd := takeWhile_digits (fun c (hc : c ∈ digitText ds) => digitText_digit hc) hs
    obtain ⟨d, l⟩ := ds
    have hx : isDigit (if negative then 45 else 43) = false := by cases negative <;> rfl
    have hy : isDigit (48 + d.val) = true := by
      have hm : 48 + d.val ∈ digitText (d, l) := by simp [digitText]
      exact digitText_digit hm
    have hor : (if negative then 45 else 43) = 43 ∨ (if negative then 45 else 43) = 45 := by
      cases negative <;> decide
    simp only [digitText, List.map_cons, List.cons_append] at hd ⊢
    simp only [scanExponent, true_or, if_true, hx, hy, hor, and_self, Bool.false_eq_true, if_false]
    rw [hd.1, hd.2]

/-- What follows the fraction starts with no digit, and neither does what follows the
integer part. -/
theorem exponentText_digits (r : FloatRepr) {s : Str} (hs : Stop s) :
    (r.exponentText ++ s).takeWhile isDigit = [] ∧
      (r.exponentText ++ s).dropWhile isDigit = r.exponentText ++ s := by
  unfold FloatRepr.exponentText
  cases r.exponent with
  | none => exact hs.digits
  | some e => exact ⟨rfl, rfl⟩

theorem fractionText_digits (r : FloatRepr) {s : Str} (hs : Stop s) :
    (r.fractionText ++ (r.exponentText ++ s)).takeWhile isDigit = [] ∧
      (r.fractionText ++ (r.exponentText ++ s)).dropWhile isDigit =
        r.fractionText ++ (r.exponentText ++ s) := by
  unfold FloatRepr.fractionText
  cases r.fraction with
  | none => exact exponentText_digits r hs
  | some ds => exact ⟨rfl, rfl⟩

theorem scanFraction_text (r : FloatRepr) {s : Str} (hs : Stop s) :
    scanFraction (r.fractionText ++ (r.exponentText ++ s)) =
      (r.fractionText, r.exponentText ++ s) := by
  have he := exponentText_digits r hs
  unfold FloatRepr.fractionText
  cases r.fraction with
  | none =>
    unfold FloatRepr.exponentText
    cases r.exponent with
    | none => exact hs.fraction
    | some e => rfl
  | some ds =>
    obtain ⟨d, l⟩ := ds
    have hy : isDigit (48 + d.val) = true := by
      have hm : 48 + d.val ∈ digitText (d, l) := by simp [digitText]
      exact digitText_digit hm
    have hl : ∀ c ∈ l.map fun d => 48 + d.val, isDigit c = true := by
      intro c hc
      have hm : c ∈ digitText (d, l) := List.mem_cons_of_mem _ hc
      exact digitText_digit hm
    simp only [digitText, List.map_cons, List.cons_append, scanFraction, hy, if_true]
    rw [List.takeWhile_append_of_pos hl, List.dropWhile_append_of_pos hl, he.1, he.2,
      List.append_nil]

theorem scanNumber_text (f : Str → PyFloat) (r : FloatRepr) {s : Str} (hs : Stop s) :
    scanNumber f (r.text ++ s) = .ok (.float (f r.text), s) := by
  have hsign := scanSign_text r.negative r.whole (r.fractionText ++ (r.exponentText ++ s))
  have hmark : (r.fractionText.isEmpty && r.exponentText.isEmpty) = false := by
    unfold FloatRepr.fractionText FloatRepr.exponentText
    rcases r.marked with h | h
    · obtain ⟨ds, hds⟩ := Option.isSome_iff_exists.1 h
      simp [hds]
    · obtain ⟨e, he⟩ := Option.isSome_iff_exists.1 h
      simp [he]
  have ht : r.text ++ s = (if r.negative then [45] else []) ++
      (natText r.whole ++ (r.fractionText ++ (r.exponentText ++ s))) := by
    simp [FloatRepr.text, FloatRepr.signText]
  rw [ht]
  simp only [scanNumber, hsign, scanInteger_natText r.whole (fractionText_digits r hs),
    scanFraction_text r hs, scanExponent_text r hs, hmark, Bool.false_eq_true, if_false]
  rfl

theorem scanLiteral_digit {c : Nat} (hc : isDigit c = true) (s : Str) :
    scanLiteral (c :: s) = none ∧ scanLiteral (45 :: c :: s) = none := by
  simp only [isDigit, Bool.and_eq_true, decide_eq_true_eq] at hc
  have hx : ∀ x, x < 48 ∨ 57 < x → ¬ x = c := by
    intro x h
    omega
  simp [scanLiteral, literals, str, hx]

theorem scanOnce_number (f : Str → PyFloat) (n d : Nat) (negative : Bool) (m : Nat) (s : Str) :
    scanOnce f (n + 1) d ((if negative then [45] else []) ++ (natText m ++ s)) =
      scanNumber f ((if negative then [45] else []) ++ (natText m ++ s)) := by
  cases he : natText m with
  | nil => exact absurd he (natText_ne_nil m)
  | cons c ds =>
    have hd : isDigit c = true := natText_digit (n := m) (by simp [he])
    have hlit := scanLiteral_digit hd (ds ++ s)
    cases negative with
    | true =>
      simp only [if_true, List.cons_append, List.nil_append, scanOnce]
      rw [hlit.2]
      rfl
    | false =>
      simp only [isDigit, Bool.and_eq_true, decide_eq_true_eq] at hd
      simp only [Bool.false_eq_true, if_false, List.cons_append, List.nil_append, scanOnce]
      rw [if_neg (by omega), if_neg (by omega), if_neg (by omega), hlit.1]

mutual
/-- How deep lists and dicts nest in a value. -/
def depth : Value → Nat
  | .list l => depthItems l + 1
  | .dict es => depthEntries es + 1
  | _ => 0
  termination_by structural v => v

def depthItems : List Value → Nat
  | [] => 0
  | v :: vs => max (depth v) (depthItems vs)
  termination_by structural l => l

def depthEntries : List (Key × Value) → Nat
  | [] => 0
  | (_, v) :: es => max (depth v) (depthEntries es)
  termination_by structural l => l
end

mutual
/-- What a value is read back as: keys become strings, and a later key replaces an equal
earlier one. -/
def image (f : Str → PyFloat) : Value → Value
  | .str s => .str (imageStr s)
  | .float (.finite r) => .float (f r.text)
  | .list l => .list (imageItems f l)
  | .dict es => .dict (imageEntries f [] es)
  | v => v
  termination_by structural v => v

def imageItems (f : Str → PyFloat) : List Value → List Value
  | [] => []
  | v :: vs => image f v :: imageItems f vs
  termination_by structural l => l

def imageEntries (f : Str → PyFloat) (acc : Dict) : List (Key × Value) → Dict
  | [] => acc
  | (k, v) :: es =>
    match k.text with
    | .ok q => imageEntries f (acc.set (imageStr q) (image f v)) es
    | .error _ => imageEntries f acc es
  termination_by structural l => l
end

variable {pad : Str}

theorem dumpWith_list {d : Nat} {l : List Value} {t : Str} (h : dumpWith pad d (.list l) = .ok t) :
    ∃ e ts, d = e + 1 ∧ dumpItemsWith pad e l = .ok ts ∧ t = 91 :: (ts ++ [93]) := by
  cases d with
  | zero => cases h
  | succ d =>
    simp only [dumpWith] at h
    cases hi : dumpItemsWith pad d l with
    | error e =>
      rw [hi] at h
      cases h
    | ok ts =>
      rw [hi] at h
      cases h
      exact ⟨d, ts, rfl, hi, rfl⟩

theorem dumpWith_dict {d : Nat} {es : List (Key × Value)} {t : Str}
    (h : dumpWith pad d (.dict es) = .ok t) :
    ∃ e ts, d = e + 1 ∧ dumpEntriesWith pad e es = .ok ts ∧ t = 123 :: (ts ++ [125]) := by
  cases d with
  | zero => cases h
  | succ d =>
    simp only [dumpWith] at h
    cases hi : dumpEntriesWith pad d es with
    | error e =>
      rw [hi] at h
      cases h
    | ok ts =>
      rw [hi] at h
      cases h
      exact ⟨d, ts, rfl, hi, rfl⟩

theorem dumpItemsWith_cons {d : Nat} {v : Value} {vs : List Value} {t : Str}
    (h : dumpItemsWith pad d (v :: vs) = .ok t) :
    ∃ u us, dumpWith pad d v = .ok u ∧ dumpItemsWith pad d vs = .ok us ∧
      t = if vs.isEmpty then u else u ++ 44 :: (pad ++ us) := by
  simp only [dumpItemsWith] at h
  cases hu : dumpWith pad d v with
  | error e =>
    rw [hu] at h
    cases h
  | ok u =>
    cases hus : dumpItemsWith pad d vs with
    | error e =>
      rw [hu, hus] at h
      cases h
    | ok us =>
      rw [hu, hus] at h
      cases h
      exact ⟨u, us, rfl, rfl, rfl⟩

theorem dumpEntriesWith_cons {d : Nat} {k : Key} {v : Value} {es : List (Key × Value)} {t : Str}
    (h : dumpEntriesWith pad d ((k, v) :: es) = .ok t) :
    ∃ q u us, k.text = .ok q ∧ dumpWith pad d v = .ok u ∧ dumpEntriesWith pad d es = .ok us ∧
      t = dumpStr q ++ 58 :: (pad ++ if es.isEmpty then u else u ++ 44 :: (pad ++ us)) := by
  simp only [dumpEntriesWith] at h
  cases hq : k.text with
  | error e =>
    rw [hq] at h
    cases h
  | ok q =>
    cases hu : dumpWith pad d v with
    | error e =>
      rw [hq, hu] at h
      cases h
    | ok u =>
      cases hus : dumpEntriesWith pad d es with
      | error e =>
        rw [hq, hu, hus] at h
        cases h
      | ok us =>
        rw [hq, hu, hus] at h
        cases h
        exact ⟨q, u, us, rfl, rfl, rfl, rfl⟩

theorem dump_list {d : Nat} {l : List Value} {t : Str} (h : dump d (.list l) = .ok t) :
    ∃ e ts, d = e + 1 ∧ dumpItems e l = .ok ts ∧ t = 91 :: (ts ++ [93]) := by
  rw [← dumpWith_nil] at h
  obtain ⟨e, ts, hd, hts, ht⟩ := dumpWith_list h
  exact ⟨e, ts, hd, by rw [← dumpItemsWith_nil, hts], ht⟩

theorem dump_dict {d : Nat} {es : List (Key × Value)} {t : Str} (h : dump d (.dict es) = .ok t) :
    ∃ e ts, d = e + 1 ∧ dumpEntries e es = .ok ts ∧ t = 123 :: (ts ++ [125]) := by
  rw [← dumpWith_nil] at h
  obtain ⟨e, ts, hd, hts, ht⟩ := dumpWith_dict h
  exact ⟨e, ts, hd, by rw [← dumpEntriesWith_nil, hts], ht⟩

theorem dumpItems_cons {d : Nat} {v : Value} {vs : List Value} {t : Str}
    (h : dumpItems d (v :: vs) = .ok t) :
    ∃ u us, dump d v = .ok u ∧ dumpItems d vs = .ok us ∧
      t = if vs.isEmpty then u else u ++ 44 :: us := by
  rw [← dumpItemsWith_nil] at h
  obtain ⟨u, us, hu, hus, ht⟩ := dumpItemsWith_cons h
  exact ⟨u, us, by rw [← dumpWith_nil, hu], by rw [← dumpItemsWith_nil, hus], ht⟩

theorem dumpEntries_cons {d : Nat} {k : Key} {v : Value} {es : List (Key × Value)} {t : Str}
    (h : dumpEntries d ((k, v) :: es) = .ok t) :
    ∃ q u us, k.text = .ok q ∧ dump d v = .ok u ∧ dumpEntries d es = .ok us ∧
      t = dumpStr q ++ 58 :: (if es.isEmpty then u else u ++ 44 :: us) := by
  rw [← dumpEntriesWith_nil] at h
  obtain ⟨q, u, us, hq, hu, hus, ht⟩ := dumpEntriesWith_cons h
  exact ⟨q, u, us, hq, by rw [← dumpWith_nil, hu], by rw [← dumpEntriesWith_nil, hus], ht⟩

theorem skipSpace_cons {c : Nat} (h : isSpace c = false) (s : Str) : skipSpace (c :: s) = c :: s :=
  List.dropWhile_cons_of_neg (by simp [h])

/-- No text starts with white space or with a closing bracket. -/
theorem dumpWith_head {d : Nat} {v : Value} {t : Str} (h : dumpWith pad d v = .ok t) :
    ∃ c r, t = c :: r ∧ isSpace c = false ∧ c ≠ 93 ∧ c ≠ 125 ∧ c < 128 := by
  have hint : ∀ {c : Nat}, isDigit c = true →
      isSpace c = false ∧ c ≠ 93 ∧ c ≠ 125 ∧ c < 128 := by
    intro c hc
    simp only [isDigit, Bool.and_eq_true, decide_eq_true_eq] at hc
    refine ⟨?_, by omega, by omega, by omega⟩
    simp only [isSpace, Bool.or_eq_false_iff, beq_eq_false_iff_ne]
    omega
  have hnat : ∀ m, ∃ c r, natText m = c :: r ∧
      isSpace c = false ∧ c ≠ 93 ∧ c ≠ 125 ∧ c < 128 := by
    intro m
    cases he : natText m with
    | nil => exact absurd he (natText_ne_nil m)
    | cons c ds => exact ⟨c, ds, rfl, hint (natText_digit (n := m) (by simp [he]))⟩
  have hsign : ∀ (negative : Bool) m s, ∃ c r,
      (if negative then [45] else []) ++ (natText m ++ s) = c :: r ∧
        isSpace c = false ∧ c ≠ 93 ∧ c ≠ 125 ∧ c < 128 := by
    intro negative m s
    cases negative with
    | true => exact ⟨45, natText m ++ s, rfl, by decide⟩
    | false =>
      obtain ⟨c, r, he, hc⟩ := hnat m
      exact ⟨c, r ++ s, by simp [he], hc⟩
  cases v with
  | none =>
    cases h
    exact ⟨110, _, rfl, by decide⟩
  | bool b =>
    cases h
    cases b with
    | true => exact ⟨116, _, rfl, by decide⟩
    | false => exact ⟨102, _, rfl, by decide⟩
  | int i =>
    simp only [dumpWith, dumpInt] at h
    split at h
    · cases h
    · cases h
      by_cases hi : i < 0
      · rw [if_pos hi]
        exact ⟨45, _, rfl, by decide⟩
      · rw [if_neg hi]
        exact hnat _
  | float x =>
    cases h
    cases x with
    | finite r =>
      have hs := hsign r.negative r.whole (r.fractionText ++ r.exponentText)
      simpa [dumpFloat, FloatRepr.text, FloatRepr.signText] using hs
    | inf => exact ⟨73, _, rfl, by decide⟩
    | negInf => exact ⟨45, _, rfl, by decide⟩
    | nan => exact ⟨78, _, rfl, by decide⟩
  | str s =>
    cases h
    exact ⟨34, _, rfl, by decide⟩
  | list l =>
    obtain ⟨e, ts, -, -, rfl⟩ := dumpWith_list h
    exact ⟨91, _, rfl, by decide⟩
  | dict es =>
    obtain ⟨e, ts, -, -, rfl⟩ := dumpWith_dict h
    exact ⟨123, _, rfl, by decide⟩
  | object n => cases h

theorem scanOnce_dumpFloat (f : Str → PyFloat) (n d : Nat) (x : PyFloat) {s : Str} (hs : Stop s) :
    scanOnce f (n + 1) d (dumpFloat x ++ s) = .ok (image f (.float x), s) := by
  cases x with
  | finite r =>
    have hnum := scanNumber_text f r hs
    have ht : r.text ++ s = (if r.negative then [45] else []) ++
        (natText r.whole ++ (r.fractionText ++ (r.exponentText ++ s))) := by
      simp [FloatRepr.text, FloatRepr.signText]
    simp only [dumpFloat, image]
    rw [ht] at hnum ⊢
    rw [scanOnce_number, hnum]
  | inf => simp [dumpFloat, str, scanOnce, scanLiteral, literals, image]
  | negInf => simp [dumpFloat, str, scanOnce, scanLiteral, literals, image]
  | nan => simp [dumpFloat, str, scanOnce, scanLiteral, literals, image]

theorem scanOnce_dumpInt (f : Str → PyFloat) (n d : Nat) {i : Int} {t s : Str}
    (h : dumpInt i = .ok t) (hs : Stop s) : scanOnce f (n + 1) d (t ++ s) = .ok (.int i, s) := by
  have hnum := scanNumber_dumpInt f h hs
  unfold dumpInt at h
  split at h
  · cases h
  · cases h
    have ht : (if i < 0 then 45 :: natText i.natAbs else natText i.natAbs) ++ s =
        (if decide (i < 0) = true then [45] else []) ++ (natText i.natAbs ++ s) := by
      by_cases hi : i < 0
      · simp [hi]
      · simp [hi]
    rw [ht] at hnum ⊢
    rw [scanOnce_number, hnum]

/-- The outcome of reading a text back: its value, or `RecursionError` where the decoder
has fewer levels of nesting than the value. -/
def readBack (p : Prop) [Decidable p] (v : Value) (s : Str) : Except LoadError (Value × Str) :=
  if p then .ok (v, s) else .error .recursion

theorem readBack_bind {p q : Prop} [Decidable p] [Decidable q] (v w : Value) (s r : Str)
    {k : Value × Str → Except LoadError (Value × Str)} (hk : k (v, s) = readBack q w r) :
    (readBack p v s >>= k) = readBack (p ∧ q) w r := by
  unfold readBack at hk ⊢
  by_cases hp : p
  · simp only [hp, if_true, true_and]
    exact hk
  · simp only [hp, if_false, false_and]
    rfl

theorem skipSpace_pad {pad : Str} (hpad : ∀ c ∈ pad, isSpace c = true) (s : Str) :
    skipSpace (pad ++ s) = skipSpace s := by
  induction pad with
  | nil => rfl
  | cons c pad ih =>
    rw [List.cons_append, skipSpace, List.dropWhile_cons_of_pos (hpad c (List.mem_cons_self ..))]
    exact ih fun d hd => hpad d (List.mem_cons_of_mem c hd)

mutual
theorem scanOnce_dumpWith (hpad : ∀ c ∈ pad, isSpace c = true) (f : Str → PyFloat) :
    ∀ (v : Value) {d : Nat} (n e : Nat) {t s : Str}, dumpWith pad d v = .ok t → Stop s → 2 * t.length ≤ n →
      scanOnce f n e (t ++ s) = readBack (depth v ≤ e) (image f v) s
  | v, d, 0, e, t, s, h, _, hn => by
    obtain ⟨c, r, rfl, -⟩ := dumpWith_head h
    simp at hn
  | .none, d, n + 1, e, t, s, h, _, _ => by
    cases h
    simp [str, scanOnce, scanLiteral, literals, image, depth, readBack]
  | .bool b, d, n + 1, e, t, s, h, _, _ => by
    cases h
    cases b <;> simp [dumpBool, str, scanOnce, scanLiteral, literals, image, depth, readBack]
  | .int i, d, n + 1, e, t, s, h, hs, _ => by
    rw [scanOnce_dumpInt f n e h hs]
    simp [image, depth, readBack]
  | .float x, d, n + 1, e, t, s, h, hs, _ => by
    cases h
    rw [scanOnce_dumpFloat f n e x hs]
    simp [depth, readBack]
  | .str u, d, n + 1, e, t, s, h, _, _ => by
    cases h
    have hq := scanString_dumpStr u s
    simp only [dumpStr, List.cons_append, List.append_assoc, List.nil_append, scanOnce, if_true]
    rw [hq]
    simp [image, depth, readBack]
  | .object m, d, n + 1, e, t, s, h, _, _ => by cases h
  | .list l, d, n + 1, e, t, s, h, hs, hn => by
    obtain ⟨d', ts, -, hts, rfl⟩ := dumpWith_list h
    simp only [List.length_cons, List.length_append, List.length_nil] at hn
    cases e with
    | zero => simp [scanOnce, depth, readBack]
    | succ e =>
      cases l with
      | nil =>
        cases hts
        simp [scanOnce, skipSpace, isSpace, depth, depthItems, image, imageItems, readBack]
      | cons v vs =>
        have ih := scanItems_dumpWith hpad f (v :: vs) n e [] (by simp) hts (s := s) (by omega)
        obtain ⟨u, us, hu, -, hts'⟩ := dumpItemsWith_cons hts
        obtain ⟨c, r, rfl, hsp, hc, -⟩ := dumpWith_head hu
        obtain ⟨r', rfl⟩ : ∃ r', ts = c :: r' := by
          rw [hts']
          split
          · exact ⟨_, rfl⟩
          · exact ⟨_, rfl⟩
        have hd : (depth (.list (v :: vs)) ≤ e + 1) = (depthItems (v :: vs) ≤ e) := by
          simp [depth]
        simp only [List.cons_append, List.append_assoc, List.nil_append] at ih ⊢
        simp only [scanOnce, skipSpace_cons hsp]
        rw [if_neg (by decide), if_neg (by decide), if_pos trivial]
        simp only [image, hd]
        split
        · rename_i he
          cases he
          exact absurd rfl hc
        · exact ih
  | .dict es, d, n + 1, e, t, s, h, hs, hn => by
    obtain ⟨d', ts, -, hts, rfl⟩ := dumpWith_dict h
    simp only [List.length_cons, List.length_append, List.length_nil] at hn
    cases e with
    | zero => simp [scanOnce, depth, readBack]
    | succ e =>
      cases es with
      | nil =>
        cases hts
        simp [scanOnce, skipSpace, isSpace, depth, depthEntries, image, imageEntries, readBack]
      | cons kv es =>
        obtain ⟨k, v⟩ := kv
        have ih := scanEntries_dumpWith hpad f ((k, v) :: es) n e [] (by simp) hts (s := s) (by omega)
        obtain ⟨q, u, us, -, -, -, hts'⟩ := dumpEntriesWith_cons hts
        obtain ⟨r', rfl⟩ : ∃ r', ts = 34 :: r' := by
          rw [hts']
          exact ⟨_, rfl⟩
        have hd : (depth (.dict ((k, v) :: es)) ≤ e + 1) = (depthEntries ((k, v) :: es) ≤ e) := by
          simp [depth]
        simp only [List.cons_append, List.append_assoc, List.nil_append] at ih ⊢
        simp only [scanOnce, skipSpace_cons (show isSpace 34 = false from rfl)]
        rw [if_neg (by decide), if_pos trivial]
        simp only [image, hd]
        exact ih
  termination_by structural v => v

theorem scanItems_dumpWith (hpad : ∀ c ∈ pad, isSpace c = true) (f : Str → PyFloat) :
    ∀ (l : List Value) {d : Nat} (n e : Nat) (acc : List Value) {ts s : Str}, l ≠ [] →
      dumpItemsWith pad d l = .ok ts → 2 * ts.length + 1 ≤ n →
      scanItems f n e acc (ts ++ 93 :: s) =
        readBack (depthItems l ≤ e) (.list (acc ++ imageItems f l)) s
  | [], d, n, e, acc, ts, s, hne, _, _ => absurd rfl hne
  | v :: vs, d, 0, e, acc, ts, s, _, _, hn => by omega
  | v :: vs, d, n + 1, e, acc, ts, s, _, h, hn => by
    obtain ⟨u, us, hu, hus, rfl⟩ := dumpItemsWith_cons h
    cases vs with
    | nil =>
      simp only [List.isEmpty_nil, if_true] at hn ⊢
      rw [scanItems, scanOnce_dumpWith hpad f v n e hu (.cons (by decide)) (by omega)]
      rw [readBack_bind (q := True) _ (.list (acc ++ imageItems f [v])) _ s
        (by simp [skipSpace_cons (show isSpace 93 = false from rfl), imageItems, readBack]; rfl)]
      simp [depthItems]
    | cons w ws =>
      simp only [List.isEmpty_cons, Bool.false_eq_true, if_false, List.length_append,
        List.length_cons] at hn ⊢
      have ih := scanItems_dumpWith hpad f (w :: ws) n e (acc ++ [image f v]) (by simp) hus (s := s)
        (by omega)
      obtain ⟨u', us', hu', -, hts'⟩ := dumpItemsWith_cons hus
      obtain ⟨c, r, rfl, hsp, -⟩ := dumpWith_head hu'
      obtain ⟨r', rfl⟩ : ∃ r', us = c :: r' := by
        rw [hts']
        split
        · exact ⟨_, rfl⟩
        · exact ⟨_, rfl⟩
      simp only [List.append_assoc, List.cons_append] at ih ⊢
      rw [scanItems, scanOnce_dumpWith hpad f v n e hu (.cons (by decide)) (by omega)]
      rw [readBack_bind (q := depthItems (w :: ws) ≤ e) _
        (.list (acc ++ imageItems f (v :: w :: ws))) _ s ?_]
      · simp [depthItems]
      · simp only [skipSpace_cons (show isSpace 44 = false from rfl), skipSpace_pad hpad,
          skipSpace_cons hsp]
        rw [ih]
        simp [imageItems]
  termination_by structural l => l

theorem scanEntries_dumpWith (hpad : ∀ c ∈ pad, isSpace c = true) (f : Str → PyFloat) :
    ∀ (es : List (Key × Value)) {d : Nat} (n e : Nat) (acc : Dict) {ts s : Str}, es ≠ [] →
      dumpEntriesWith pad d es = .ok ts → 2 * ts.length + 1 ≤ n →
      scanEntries f n e acc (ts ++ 125 :: s) =
        readBack (depthEntries es ≤ e) (.dict (imageEntries f acc es)) s
  | [], d, n, e, acc, ts, s, hne, _, _ => absurd rfl hne
  | (k, v) :: es, d, 0, e, acc, ts, s, _, _, hn => by omega
  | (k, v) :: es, d, n + 1, e, acc, ts, s, _, h, hn => by
    obtain ⟨q, u, us, hq, hu, hus, rfl⟩ := dumpEntriesWith_cons h
    obtain ⟨c, r, rfl, hsp, -⟩ := dumpWith_head hu
    have hstr : ∀ x, scanString (q.flatMap escape ++ 34 :: x) = .ok (imageStr q, x) :=
      fun x => scanString_dumpStr q x
    have hcolon : ∀ x, skipSpace (58 :: x) = 58 :: x := skipSpace_cons rfl
    cases es with
    | nil =>
      simp only [List.isEmpty_nil, if_true, dumpStr, List.length_append, List.length_cons,
        List.length_nil] at hn
      have ih := scanOnce_dumpWith hpad f v n e hu (s := 125 :: s) (.cons (by decide))
        (by simp only [List.length_cons]; omega)
      simp only [List.isEmpty_nil, if_true, dumpStr, List.cons_append, List.append_assoc,
        List.nil_append] at ih ⊢
      rw [scanEntries, hstr]
      simp only [ok_bind, hcolon, skipSpace_pad hpad, skipSpace_cons hsp]
      rw [ih, readBack_bind (q := True) _ (.dict (imageEntries f acc [(k, v)])) _ s
        (by simp [skipSpace_cons (show isSpace 125 = false from rfl), imageEntries, hq, readBack]; rfl)]
      simp [depthEntries]
    | cons kv es =>
      obtain ⟨l, w⟩ := kv
      simp only [List.isEmpty_cons, Bool.false_eq_true, if_false, dumpStr, List.length_append,
        List.length_cons, List.length_nil] at hn
      have ihv := scanOnce_dumpWith hpad f v n e hu (s := 44 :: (pad ++ (us ++ 125 :: s)))
        (.cons (by decide)) (by simp only [List.length_cons]; omega)
      have ih := scanEntries_dumpWith hpad f ((l, w) :: es) n e (acc.set (imageStr q) (image f v))
        (by simp) hus (s := s) (by omega)
      obtain ⟨q', u', us', -, -, -, hts'⟩ := dumpEntriesWith_cons hus
      obtain ⟨r', rfl⟩ : ∃ r', us = 34 :: r' := by
        rw [hts']
        exact ⟨_, rfl⟩
      simp only [List.isEmpty_cons, Bool.false_eq_true, if_false, dumpStr, List.cons_append,
        List.append_assoc, List.nil_append] at ih ihv ⊢
      rw [scanEntries, hstr]
      simp only [ok_bind, hcolon, skipSpace_pad hpad, skipSpace_cons hsp]
      rw [ihv, readBack_bind (q := depthEntries ((l, w) :: es) ≤ e) _
        (.dict (imageEntries f acc ((k, v) :: (l, w) :: es))) _ s ?_]
      · simp [depthEntries]
      · simp only [skipSpace_cons (show isSpace 44 = false from rfl), skipSpace_pad hpad,
          skipSpace_cons (show isSpace 34 = false from rfl)]
        rw [ih]
        simp [imageEntries, hq]
  termination_by structural es => es
end

mutual
/-- What is encoded nests no deeper than the encoder goes. -/
theorem depth_le_of_dump : ∀ (v : Value) {d : Nat} {t : Str}, dump d v = .ok t → depth v ≤ d
  | .none, d, t, _ => Nat.zero_le _
  | .bool _, d, t, _ => Nat.zero_le _
  | .int _, d, t, _ => Nat.zero_le _
  | .float _, d, t, _ => Nat.zero_le _
  | .str _, d, t, _ => Nat.zero_le _
  | .object _, d, t, h => nomatch h
  | .list l, d, t, h => by
    obtain ⟨e, ts, rfl, hts, -⟩ := dump_list h
    have := depthItems_le_of_dump l hts
    simp only [depth]
    omega
  | .dict es, d, t, h => by
    obtain ⟨e, ts, rfl, hts, -⟩ := dump_dict h
    have := depthEntries_le_of_dump es hts
    simp only [depth]
    omega
  termination_by structural v => v

theorem depthItems_le_of_dump : ∀ (l : List Value) {d : Nat} {t : Str}, dumpItems d l = .ok t →
    depthItems l ≤ d
  | [], d, t, _ => Nat.zero_le _
  | v :: vs, d, t, h => by
    obtain ⟨u, us, hu, hus, -⟩ := dumpItems_cons h
    exact max_le (depth_le_of_dump v hu) (depthItems_le_of_dump vs hus)
  termination_by structural l => l

theorem depthEntries_le_of_dump : ∀ (es : List (Key × Value)) {d : Nat} {t : Str},
    dumpEntries d es = .ok t → depthEntries es ≤ d
  | [], d, t, _ => Nat.zero_le _
  | (k, v) :: es, d, t, h => by
    obtain ⟨q, u, us, -, hu, hus, -⟩ := dumpEntries_cons h
    exact max_le (depth_le_of_dump v hu) (depthEntries_le_of_dump es hus)
  termination_by structural es => es
end

mutual
/-- Blanks behind the separators change nothing about what can be encoded. -/
theorem dumpWith_total : ∀ (v : Value) {d : Nat} {t : Str}, dump d v = .ok t →
    ∃ u, dumpWith pad d v = .ok u
  | .none, d, t, _ => ⟨_, rfl⟩
  | .bool _, d, t, _ => ⟨_, rfl⟩
  | .int _, d, t, h => ⟨t, h⟩
  | .float _, d, t, _ => ⟨_, rfl⟩
  | .str _, d, t, _ => ⟨_, rfl⟩
  | .object _, d, t, h => nomatch h
  | .list l, d, t, h => by
    obtain ⟨e, ts, rfl, hts, -⟩ := dump_list h
    obtain ⟨us, hus⟩ := dumpItemsWith_total l hts
    exact ⟨91 :: (us ++ [93]), by simp only [dumpWith, hus]; rfl⟩
  | .dict es, d, t, h => by
    obtain ⟨e, ts, rfl, hts, -⟩ := dump_dict h
    obtain ⟨us, hus⟩ := dumpEntriesWith_total es hts
    exact ⟨123 :: (us ++ [125]), by simp only [dumpWith, hus]; rfl⟩
  termination_by structural v => v

theorem dumpItemsWith_total : ∀ (l : List Value) {d : Nat} {t : Str}, dumpItems d l = .ok t →
    ∃ u, dumpItemsWith pad d l = .ok u
  | [], d, t, _ => ⟨_, rfl⟩
  | v :: vs, d, t, h => by
    obtain ⟨u, us, hu, hus, -⟩ := dumpItems_cons h
    obtain ⟨u', hu'⟩ := dumpWith_total v hu
    obtain ⟨us', hus'⟩ := dumpItemsWith_total vs hus
    simp only [dumpItemsWith, hu', hus']
    exact ⟨_, rfl⟩
  termination_by structural l => l

theorem dumpEntriesWith_total : ∀ (es : List (Key × Value)) {d : Nat} {t : Str},
    dumpEntries d es = .ok t → ∃ u, dumpEntriesWith pad d es = .ok u
  | [], d, t, _ => ⟨_, rfl⟩
  | (k, v) :: es, d, t, h => by
    obtain ⟨q, u, us, hq, hu, hus, -⟩ := dumpEntries_cons h
    obtain ⟨u', hu'⟩ := dumpWith_total v hu
    obtain ⟨us', hus'⟩ := dumpEntriesWith_total es hus
    simp only [dumpEntriesWith, hq, hu', hus']
    exact ⟨_, rfl⟩
  termination_by structural es => es
end

end KestrelSdk.Json

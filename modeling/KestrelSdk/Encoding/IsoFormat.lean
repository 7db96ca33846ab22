import KestrelSdk.Json.Value
import Mathlib.Tactic.Ring

/-! Dates and times as ISO 8601 text. -/

namespace KestrelSdk.Encoding

open Json (Str)

def isLeap (year : Nat) : Bool := year % 4 = 0 && (year % 100 ≠ 0 || year % 400 = 0)

def daysInMonth (year month : Nat) : Nat :=
  if month = 2 then if isLeap year then 29 else 28
  else if month = 4 ∨ month = 6 ∨ month = 9 ∨ month = 11 then 30 else 31

/-- Microseconds in a day. -/
def DAY : Nat := 86400000000

/-- The ranges that the constructor of `datetime` checks, and that of its `utcoffset()`. -/
structure InRange (year month day hour minute second microsecond : Nat) (offset : Option Int) :
    Prop where
  years : 1 ≤ year ∧ year ≤ 9999
  months : 1 ≤ month ∧ month ≤ 12
  days : 1 ≤ day ∧ day ≤ daysInMonth year month
  time : hour < 24 ∧ minute < 60 ∧ second < 60 ∧ microsecond < 1000000
  offsets : ∀ o ∈ offset, o.natAbs < DAY

instance (year month day hour minute second microsecond : Nat) (offset : Option Int) :
    Decidable (InRange year month day hour minute second microsecond offset) :=
  decidable_of_iff
    ((1 ≤ year ∧ year ≤ 9999) ∧ (1 ≤ month ∧ month ≤ 12) ∧ (1 ≤ day ∧ day ≤ daysInMonth year month) ∧
      (hour < 24 ∧ minute < 60 ∧ second < 60 ∧ microsecond < 1000000) ∧
      ∀ o ∈ offset, o.natAbs < DAY)
    ⟨fun ⟨h1, h2, h3, h4, h5⟩ => ⟨h1, h2, h3, h4, h5⟩,
      fun h => ⟨h.years, h.months, h.days, h.time, h.offsets⟩⟩

/-- A `datetime`. Its time zone is named by the `utcoffset()` that it gives, in microseconds;
a naive one has none. -/
structure DateTime where
  year : Nat
  month : Nat
  day : Nat
  hour : Nat
  minute : Nat
  second : Nat
  microsecond : Nat
  offset : Option Int
  inRange : InRange year month day hour minute second microsecond offset
  deriving DecidableEq

/-- The last `n` decimal digits. -/
def padded : Nat → Nat → Str
  | 0, _ => []
  | n + 1, k => (48 + k / 10 ^ n % 10) :: padded n k

/-- The fraction of a second, left out when it is zero. -/
def fractionText (microsecond : Nat) : Str :=
  if microsecond = 0 then [] else 46 :: padded 6 microsecond

/-- Seconds of an offset, left out when they are zero. -/
def offsetSeconds (o : Nat) : Str :=
  if o % 60000000 = 0 then []
  else 58 :: (padded 2 (o / 1000000 % 60) ++ fractionText (o % 1000000))

def offsetText : Option Int → Str
  | none => []
  | some o =>
    (if o < 0 then 45 else 43) :: (padded 2 (o.natAbs / 3600000000) ++ 58 ::
      (padded 2 (o.natAbs / 60000000 % 60) ++ offsetSeconds o.natAbs))

/-- `datetime.isoformat()`. -/
def DateTime.isoformat (t : DateTime) : Str :=
  padded 4 t.year ++ 45 :: (padded 2 t.month ++ 45 :: (padded 2 t.day ++ 84 ::
    (padded 2 t.hour ++ 58 :: (padded 2 t.minute ++ 58 :: (padded 2 t.second ++
      (fractionText t.microsecond ++ offsetText t.offset))))))

/-- A number of `n` decimal digits. -/
def readDigits : Nat → Str → Option (Nat × Str)
  | 0, s => some (0, s)
  | _ + 1, [] => none
  | n + 1, c :: s =>
    if 48 ≤ c ∧ c ≤ 57 then (readDigits n s).map fun (k, r) => ((c - 48) * 10 ^ n + k, r)
    else none

/-- A number of `n` digits behind the character `sep`. -/
def readAfter (sep n : Nat) : Str → Option (Nat × Str)
  | [] => none
  | c :: s => if c = sep then readDigits n s else none

/-- A fraction of a second, if there is one. -/
def readFraction : Str → Option (Nat × Str)
  | 46 :: s => readDigits 6 s
  | s => some (0, s)

/-- The seconds of an offset, if there are any, in microseconds. -/
def readOffsetSeconds : Str → Option Nat
  | [] => some 0
  | s => do
    let (second, s) ← readAfter 58 2 s
    let (micro, s) ← readFraction s
    if s.isEmpty then return second * 1000000 + micro else none

def readOffset : Str → Option (Option Int)
  | [] => some none
  | c :: s => do
    let (hour, s) ← readDigits 2 s
    let (minute, s) ← readAfter 58 2 s
    let rest ← readOffsetSeconds s
    let o := hour * 3600000000 + minute * 60000000 + rest
    if c = 43 then return some o
    else if c = 45 then return some (-(o : Int))
    else none

/-- The text of one `isoformat()`. -/
def readIso (s : Str) : Option DateTime := do
  let (year, s) ← readDigits 4 s
  let (month, s) ← readAfter 45 2 s
  let (day, s) ← readAfter 45 2 s
  let (hour, s) ← readAfter 84 2 s
  let (minute, s) ← readAfter 58 2 s
  let (second, s) ← readAfter 58 2 s
  let (microsecond, s) ← readFraction s
  let offset ← readOffset s
  if h : InRange year month day hour minute second microsecond offset then
    return ⟨year, month, day, hour, minute, second, microsecond, offset, h⟩
  else none

/-- `datetime.fromisoformat`. `other` reads the texts in the other forms of ISO 8601. -/
def fromisoformat (other : Str → Option DateTime) (s : Str) : Option DateTime :=
  match readIso s with
  | some t => some t
  | none => other s

theorem readDigits_padded (n k : Nat) (s : Str) :
    readDigits n (padded n k ++ s) = some (k % 10 ^ n, s) := by
  induction n with
  | zero => simp [padded, readDigits, Nat.mod_one]
  | succ n ih =>
    have hlt : k / 10 ^ n % 10 < 10 := Nat.mod_lt _ (by decide)
    have hdigit : 48 ≤ 48 + k / 10 ^ n % 10 ∧ 48 + k / 10 ^ n % 10 ≤ 57 := by omega
    rw [padded, List.cons_append, readDigits, if_pos hdigit, ih, Option.map_some]
    have hmod : k % 10 ^ (n + 1) = k % 10 ^ n + 10 ^ n * (k / 10 ^ n % 10) := by
      rw [pow_succ, Nat.mod_mul]
    rw [hmod, Nat.add_sub_cancel_left, Nat.mul_comm, Nat.add_comm]

theorem readAfter_padded (sep n k : Nat) (s : Str) :
    readAfter sep n (sep :: (padded n k ++ s)) = some (k % 10 ^ n, s) := by
  rw [readAfter, if_pos rfl, readDigits_padded]

/-- A fraction is read, unless a point follows where none was written. -/
theorem readFraction_text {k : Nat} (hk : k < 1000000) (s : Str) (hs : s.head? ≠ some 46) :
    readFraction (fractionText k ++ s) = some (k, s) := by
  unfold fractionText
  by_cases h : k = 0
  · rw [if_pos h, List.nil_append, h]
    cases s with
    | nil => rfl
    | cons c s =>
      unfold readFraction
      split
      · rename_i heq
        cases heq
        exact absurd rfl hs
      · rfl
  · have hmod : k % 10 ^ 6 = k := by omega
    rw [if_neg h, List.cons_append, readFraction, readDigits_padded, hmod]

theorem readOffsetSeconds_text (o : Nat) :
    readOffsetSeconds (offsetSeconds o) = some (o % 60000000) := by
  unfold offsetSeconds
  by_cases h : o % 60000000 = 0
  · rw [if_pos h, h]
    rfl
  · rw [if_neg h]
    have hfraction := readFraction_text (Nat.mod_lt o (by decide : 0 < 1000000)) [] (by simp)
    rw [List.append_nil] at hfraction
    have hsecond : o / 1000000 % 60 % 10 ^ 2 = o / 1000000 % 60 := by omega
    rw [readOffsetSeconds, readAfter_padded, hsecond]
    · simp only [Option.bind_eq_bind, Option.bind_some, hfraction, List.isEmpty_nil, if_true,
        Option.pure_def, Option.some.injEq]
      omega
    · simp

theorem readOffset_text {offset : Option Int} (h : ∀ o ∈ offset, o.natAbs < DAY) :
    readOffset (offsetText offset) = some offset := by
  cases offset with
  | none => rfl
  | some o =>
    have hlt : o.natAbs < 86400000000 := h o rfl
    have hhour : o.natAbs / 3600000000 % 10 ^ 2 = o.natAbs / 3600000000 := by omega
    have hminute : o.natAbs / 60000000 % 60 % 10 ^ 2 = o.natAbs / 60000000 % 60 := by omega
    have hsum : o.natAbs / 3600000000 * 3600000000 + o.natAbs / 60000000 % 60 * 60000000 +
        o.natAbs % 60000000 = o.natAbs := by omega
    rw [offsetText, readOffset, readDigits_padded]
    simp only [Option.bind_eq_bind, Option.bind_some, readAfter_padded, readOffsetSeconds_text,
      hhour, hminute, hsum, Option.pure_def]
    by_cases hneg : o < 0
    · have habs : -(o.natAbs : Int) = o := by omega
      simp only [hneg, if_true, habs]
      rfl
    · have habs : (o.natAbs : Int) = o := by omega
      simp only [hneg, if_false, habs]
      rfl

theorem offsetText_head (offset : Option Int) : (offsetText offset).head? ≠ some 46 := by
  cases offset with
  | none => simp [offsetText]
  | some o =>
    rw [offsetText]
    split <;> simp

/-- `isoformat()` is read back. -/
theorem readIso_isoformat (t : DateTime) : readIso t.isoformat = some t := by
  obtain ⟨year, month, day, hour, minute, second, microsecond, offset, h⟩ := t
  have hyear : year % 10 ^ 4 = year := by have := h.years; omega
  have hmonth : month % 10 ^ 2 = month := by have := h.months; omega
  have hday : day % 10 ^ 2 = day := by
    have hle : daysInMonth year month ≤ 31 := by
      unfold daysInMonth
      split_ifs <;> omega
    have := h.days
    omega
  have htime := h.time
  have hhour : hour % 10 ^ 2 = hour := by omega
  have hminute : minute % 10 ^ 2 = minute := by omega
  have hsecond : second % 10 ^ 2 = second := by omega
  have hfraction := readFraction_text htime.2.2.2 (offsetText offset) (offsetText_head offset)
  rw [DateTime.isoformat, readIso, readDigits_padded]
  simp only [Option.bind_eq_bind, Option.bind_some, readAfter_padded, hyear, hmonth, hday, hhour,
    hminute, hsecond, hfraction, readOffset_text h.offsets, dif_pos h, Option.pure_def]

theorem fromisoformat_isoformat (other : Str → Option DateTime) (t : DateTime) :
    fromisoformat other t.isoformat = some t := by
  rw [fromisoformat, readIso_isoformat]

theorem padded_digits (n k : Nat) : ∀ c ∈ padded n k, 48 ≤ c ∧ c ≤ 57 := by
  induction n with
  | zero => simp [padded]
  | succ n ih =>
    intro c hc
    rcases List.mem_cons.1 hc with rfl | hc
    · have := Nat.mod_lt (k / 10 ^ n) (by decide : 0 < 10)
      omega
    · exact ih c hc

theorem padded_length (n k : Nat) : (padded n k).length = n := by
  induction n with
  | zero => rfl
  | succ n ih => rw [padded, List.length_cons, ih]

/-- Digits, signs, separators and `T`. -/
def IsoChar (c : Nat) : Prop := (43 ≤ c ∧ c ≤ 58) ∨ c = 84

theorem padded_iso (n k : Nat) : ∀ c ∈ padded n k, IsoChar c := by
  intro c hc
  have := padded_digits n k c hc
  exact .inl (by omega)

theorem fractionText_iso (k : Nat) : ∀ c ∈ fractionText k, IsoChar c := by
  unfold fractionText
  split
  · simp
  · exact List.forall_mem_cons.2 ⟨.inl (by decide), padded_iso 6 k⟩

theorem offsetText_iso (offset : Option Int) : ∀ c ∈ offsetText offset, IsoChar c := by
  cases offset with
  | none => simp [offsetText]
  | some o =>
    have hseconds : ∀ c ∈ offsetSeconds o.natAbs, IsoChar c := by
      unfold offsetSeconds
      split
      · simp
      · simp only [List.forall_mem_cons, List.forall_mem_append]
        exact ⟨.inl (by decide), padded_iso _ _, fractionText_iso _⟩
    simp only [offsetText, List.forall_mem_cons, List.forall_mem_append]
    refine ⟨?_, padded_iso _ _, .inl (by decide), padded_iso _ _, hseconds⟩
    split
    · exact .inl (by decide)
    · exact .inl (by decide)

theorem isoformat_iso (t : DateTime) : ∀ c ∈ t.isoformat, IsoChar c := by
  have hsep : ∀ c ∈ [45, 58, 84], IsoChar c := by
    unfold IsoChar
    decide
  simp only [DateTime.isoformat, List.forall_mem_append, List.forall_mem_cons]
  refine ⟨padded_iso _ _, hsep _ (by decide), padded_iso _ _, hsep _ (by decide), padded_iso _ _,
    hsep _ (by decide), padded_iso _ _, hsep _ (by decide), padded_iso _ _, hsep _ (by decide),
    padded_iso _ _, fractionText_iso _, offsetText_iso _⟩

theorem isoformat_length (t : DateTime) : t.isoformat.length ≤ 42 := by
  have hfraction : ∀ k, (fractionText k).length ≤ 7 := by
    intro k
    unfold fractionText
    split
    · simp
    · simp [padded_length]
  have hoffset : (offsetText t.offset).length ≤ 16 := by
    cases t.offset with
    | none => simp [offsetText]
    | some o =>
      have hseconds : (offsetSeconds o.natAbs).length ≤ 10 := by
        have := hfraction (o.natAbs % 1000000)
        unfold offsetSeconds
        split
        · simp
        · simp only [List.length_cons, List.length_append, padded_length]
          omega
      simp only [offsetText, List.length_cons, List.length_append, padded_length]
      omega
  have := hfraction t.microsecond
  simp only [DateTime.isoformat, List.length_append, List.length_cons, padded_length]
  omega

end KestrelSdk.Encoding

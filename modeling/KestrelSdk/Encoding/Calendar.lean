import KestrelSdk.Encoding.IsoFormat

/-! The proleptic Gregorian calendar of `datetime`. -/

namespace KestrelSdk.Encoding

/-- The ordinal of the last day of the year 9999. -/
def MAXORDINAL : Nat := 3652059

/-- `_days_before_year`. -/
def daysBeforeYear (year : Nat) : Nat :=
  (year - 1) * 365 + (year - 1) / 4 - (year - 1) / 100 + (year - 1) / 400

/-- `_DAYS_BEFORE_MONTH`, with the leap day. -/
def daysBeforeMonth (leap : Bool) (month : Nat) : Nat :=
  [0, 0, 31, 59, 90, 120, 151, 181, 212, 243, 273, 304, 334].getD month 0 +
    if 2 < month ∧ leap = true then 1 else 0

/-- `_ymd2ord`. -/
def ymd2ord (year month day : Nat) : Nat :=
  daysBeforeYear year + daysBeforeMonth (isLeap year) month + day

/-- The month and the day of a day of the year, counted from zero. -/
def monthDay (leap : Bool) (n : Nat) : Nat × Nat :=
  let month := (n + 50) / 32
  let preceding := daysBeforeMonth leap month
  if n < preceding then (month - 1, n - daysBeforeMonth leap (month - 1) + 1)
  else (month, n - preceding + 1)

/-- A day as `_ord2ymd` splits it: the cycles of 400, 100, 4 and 1 years, and the days left. -/
structure Cycles where
  n400 : Nat
  n100 : Nat
  n4 : Nat
  n1 : Nat
  n : Nat

def Cycles.of (ordinal : Nat) : Cycles :=
  let n := ordinal - 1
  { n400 := n / 146097
    n100 := n % 146097 / 36524
    n4 := n % 146097 % 36524 / 1461
    n1 := n % 146097 % 36524 % 1461 / 365
    n := n % 146097 % 36524 % 1461 % 365 }

def Cycles.year (c : Cycles) : Nat := c.n400 * 400 + c.n100 * 100 + c.n4 * 4 + c.n1 + 1

def Cycles.leap (c : Cycles) : Bool := c.n1 == 3 && (c.n4 != 24 || c.n100 == 3)

/-- `_ord2ymd`. -/
def ord2ymd (ordinal : Nat) : Nat × Nat × Nat :=
  let c := Cycles.of ordinal
  if c.n1 = 4 ∨ c.n100 = 4 then (c.year - 1, 12, 31) else (c.year, monthDay c.leap c.n)

theorem monthDay_spec (leap : Bool) : ∀ n < 365,
    (1 ≤ (monthDay leap n).1 ∧ (monthDay leap n).1 ≤ 12) ∧
      daysBeforeMonth leap (monthDay leap n).1 + (monthDay leap n).2 = n + 1 := by
  cases leap
  · decide +kernel
  · decide +kernel

theorem monthDay_day (leap : Bool) : ∀ n < 365, 1 ≤ (monthDay leap n).2 ∧
    (monthDay leap n).2 ≤ if (monthDay leap n).1 = 2 then if leap then 29 else 28
      else if (monthDay leap n).1 = 4 ∨ (monthDay leap n).1 = 6 ∨ (monthDay leap n).1 = 9 ∨
        (monthDay leap n).1 = 11 then 30 else 31 := by
  cases leap
  · decide +kernel
  · decide +kernel

/-- The days of the cycles. -/
theorem Cycles.of_spec (ordinal : Nat) (h : 1 ≤ ordinal) :
    let c := Cycles.of ordinal
    ordinal = c.n400 * 146097 + c.n100 * 36524 + c.n4 * 1461 + c.n1 * 365 + c.n + 1 ∧
      c.n < 365 ∧ (c.n100 = 4 → c.n4 = 0 ∧ c.n1 = 0 ∧ c.n = 0) ∧ c.n100 ≤ 4 ∧
      c.n4 ≤ 24 ∧ c.n1 ≤ 4 ∧ (c.n1 = 4 → c.n = 0 ∧ c.n4 ≤ 23) := by
  dsimp only [Cycles.of]
  omega

theorem isLeap_iff {year : Nat} :
    isLeap year = true ↔ year % 4 = 0 ∧ (year % 100 ≠ 0 ∨ year % 400 = 0) := by
  simp [isLeap]

theorem Cycles.isLeap_year {c : Cycles} (h1 : c.n1 ≤ 3) (h4 : c.n4 ≤ 24) (h100 : c.n100 ≤ 3) :
    isLeap c.year = c.leap := by
  rw [Bool.eq_iff_iff, isLeap_iff, Cycles.leap, Cycles.year]
  simp only [Bool.and_eq_true, Bool.or_eq_true, beq_iff_eq, bne_iff_ne, ne_eq]
  omega

/-- The last day of a cycle of 4 or of 400 years ends a leap year. -/
theorem Cycles.isLeap_last {c : Cycles} (h : c.n1 = 4 ∧ c.n4 ≤ 23 ∧ c.n100 ≤ 4 ∧
    (c.n100 = 4 → c.n1 = 0) ∨ c.n100 = 4 ∧ c.n4 = 0 ∧ c.n1 = 0) :
    isLeap (c.year - 1) = true := by
  rw [isLeap_iff, Cycles.year]
  omega

theorem daysBeforeYear_year (c : Cycles) (h1 : c.n1 ≤ 3) (h4 : c.n4 ≤ 24) (h100 : c.n100 ≤ 3) :
    daysBeforeYear c.year = c.n400 * 146097 + c.n100 * 36524 + c.n4 * 1461 + c.n1 * 365 := by
  unfold daysBeforeYear Cycles.year
  omega

/-- The days before the leap year that ends a cycle. -/
theorem daysBeforeYear_last {c : Cycles} (h : c.n1 = 4 ∧ c.n4 ≤ 23 ∧ c.n100 ≤ 3 ∨
    c.n100 = 4 ∧ c.n4 = 0 ∧ c.n1 = 0) :
    daysBeforeYear (c.year - 1) + 366 =
      c.n400 * 146097 + c.n100 * 36524 + c.n4 * 1461 + c.n1 * 365 + 1 := by
  unfold daysBeforeYear Cycles.year
  rcases h with ⟨h1, h4, h100⟩ | ⟨h100, h4, h1⟩
  · have hfour : (c.n400 * 400 + c.n100 * 100 + c.n4 * 4 + c.n1 + 1 - 1 - 1) / 4 =
        c.n400 * 100 + c.n100 * 25 + c.n4 := by omega
    have hcentury : (c.n400 * 400 + c.n100 * 100 + c.n4 * 4 + c.n1 + 1 - 1 - 1) / 100 =
        c.n400 * 4 + c.n100 := by omega
    have hcycle : (c.n400 * 400 + c.n100 * 100 + c.n4 * 4 + c.n1 + 1 - 1 - 1) / 400 =
        c.n400 := by omega
    omega
  · omega

/-- `_ord2ymd` gives a date of the calendar, and `_ymd2ord` the ordinal of that date. -/
theorem ord2ymd_spec {ordinal : Nat} (h : 1 ≤ ordinal ∧ ordinal ≤ MAXORDINAL) :
    let date := ord2ymd ordinal
    (1 ≤ date.1 ∧ date.1 ≤ 9999) ∧ (1 ≤ date.2.1 ∧ date.2.1 ≤ 12) ∧
      (1 ≤ date.2.2 ∧ date.2.2 ≤ daysInMonth date.1 date.2.1) ∧
      ymd2ord date.1 date.2.1 date.2.2 = ordinal := by
  obtain ⟨hsum, hn, h400, h100, h4, h1, hlast⟩ := Cycles.of_spec ordinal h.1
  have hmax : ordinal ≤ 3652059 := h.2
  unfold ord2ymd
  generalize Cycles.of ordinal = c at *
  by_cases hend : c.n1 = 4 ∨ c.n100 = 4
  · have hleap : isLeap (c.year - 1) = true := by
      apply Cycles.isLeap_last
      omega
    simp only [if_pos hend]
    refine ⟨?_, by decide, by simp [daysInMonth], ?_⟩
    · unfold Cycles.year
      omega
    · have hmonth : daysBeforeMonth true 12 = 335 := by decide
      have hyear := @daysBeforeYear_last c (by omega)
      rw [ymd2ord, hleap, hmonth]
      omega
  · have hleap : isLeap c.year = c.leap := Cycles.isLeap_year (by omega) h4 (by omega)
    have hyear := daysBeforeYear_year c (by omega) h4 (by omega)
    obtain ⟨hmonth, hsplit⟩ := monthDay_spec c.leap c.n hn
    have hday := monthDay_day c.leap c.n hn
    simp only [if_neg hend]
    refine ⟨?_, hmonth, ?_, ?_⟩
    · unfold Cycles.year
      omega
    · rw [daysInMonth, hleap]
      exact hday
    · rw [ymd2ord, hleap, hyear]
      omega

/-- The fields of a clock, in microseconds since the first midnight of year 1. -/
theorem inRange_clock {clock : Nat} (h : clock < MAXORDINAL * DAY) {offset : Option Int}
    (ho : ∀ o ∈ offset, o.natAbs < DAY) :
    InRange (ord2ymd (clock / DAY + 1)).1 (ord2ymd (clock / DAY + 1)).2.1
      (ord2ymd (clock / DAY + 1)).2.2 (clock % DAY / 3600000000) (clock / 60000000 % 60)
      (clock / 1000000 % 60) (clock % 1000000) offset := by
  have hlt : clock / DAY < MAXORDINAL := by
    rw [Nat.div_lt_iff_lt_mul (by decide)]
    exact h
  obtain ⟨hyear, hmonth, hday, -⟩ := @ord2ymd_spec (clock / DAY + 1) ⟨Nat.le_add_left 1 _, hlt⟩
  have hhour : clock % DAY / 3600000000 < 24 := by
    have := Nat.mod_lt clock (by decide : 0 < DAY)
    unfold DAY at *
    omega
  exact ⟨hyear, hmonth, hday, by omega, ho⟩

/-- The `datetime` of a clock. -/
def DateTime.ofClock (clock : Nat) (offset : Option Int) (h : clock < MAXORDINAL * DAY)
    (ho : ∀ o ∈ offset, o.natAbs < DAY) : DateTime :=
  { year := (ord2ymd (clock / DAY + 1)).1
    month := (ord2ymd (clock / DAY + 1)).2.1
    day := (ord2ymd (clock / DAY + 1)).2.2
    hour := clock % DAY / 3600000000
    minute := clock / 60000000 % 60
    second := clock / 1000000 % 60
    microsecond := clock % 1000000
    offset := offset
    inRange := inRange_clock h ho }

/-- The clock of a `datetime`. -/
def DateTime.clock (t : DateTime) : Nat :=
  (ymd2ord t.year t.month t.day - 1) * DAY + t.hour * 3600000000 + t.minute * 60000000 +
    t.second * 1000000 + t.microsecond

theorem DateTime.clock_ofClock {clock : Nat} {offset : Option Int} (h : clock < MAXORDINAL * DAY)
    (ho : ∀ o ∈ offset, o.natAbs < DAY) : (ofClock clock offset h ho).clock = clock := by
  have hlt : clock / DAY < MAXORDINAL := by
    rw [Nat.div_lt_iff_lt_mul (by decide)]
    exact h
  obtain ⟨-, -, -, hord⟩ := @ord2ymd_spec (clock / DAY + 1) ⟨Nat.le_add_left 1 _, hlt⟩
  have hdays := Nat.div_add_mod clock DAY
  rw [DateTime.clock, ofClock, hord, Nat.add_sub_cancel]
  dsimp only
  unfold DAY at *
  omega

/-- `isoformat()` tells clocks and offsets apart. -/
theorem DateTime.isoformat_ofClock {clock clock' : Nat} {offset offset' : Option Int}
    {h : clock < MAXORDINAL * DAY} {h' : clock' < MAXORDINAL * DAY}
    {ho : ∀ o ∈ offset, o.natAbs < DAY} {ho' : ∀ o ∈ offset', o.natAbs < DAY} :
    (ofClock clock offset h ho).isoformat = (ofClock clock' offset' h' ho').isoformat ↔
      clock = clock' ∧ offset = offset' := by
  constructor
  · intro htext
    have hread := readIso_isoformat (ofClock clock offset h ho)
    rw [htext, readIso_isoformat] at hread
    have hsame := (Option.some.inj hread).symm
    have hclock := congrArg DateTime.clock hsame
    rw [clock_ofClock, clock_ofClock] at hclock
    exact ⟨hclock, congrArg DateTime.offset hsame⟩
  · rintro ⟨rfl, rfl⟩
    rfl

end KestrelSdk.Encoding

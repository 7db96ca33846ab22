import KestrelSdk.ComputerUse.Models

/-! Datetimes with the time zone that they are written in, and how Python compares them. -/

namespace KestrelSdk.ComputerUse

open Encoding (DAY)

/-- The `tzinfo` objects of an interpreter: what `utcoffset()` answers of a clock and a fold. -/
structure Zones (Zone : Type) where
  utcoffset : Zone → Nat → Bool → Option Int
  utc : Zone
  bounded : ∀ z clock fold, ∀ o ∈ utcoffset z clock fold, o.natAbs < DAY
  utc_offset : ∀ clock fold, utcoffset utc clock fold = some 0

/-- A `datetime` with its clock, its fold and its time zone. -/
structure Datetime (Zone : Type) where
  clock : Nat
  fold : Bool
  tzinfo : Option Zone
  clock_lt : clock < SPAN

namespace Datetime

theorem eq_iff {Zone : Type} {a b : Datetime Zone} :
    a.clock = b.clock ∧ a.fold = b.fold ∧ a.tzinfo = b.tzinfo ↔ a = b := by
  cases a
  cases b
  simp

instance {Zone : Type} [DecidableEq Zone] : DecidableEq (Datetime Zone) := fun a b =>
  decidable_of_iff (a.clock = b.clock ∧ a.fold = b.fold ∧ a.tzinfo = b.tzinfo) eq_iff

variable {Zone : Type} (tz : Zones Zone)

/-- `utcoffset()`. -/
def utcoffset (d : Datetime Zone) : Option Int := d.tzinfo.bind fun z => tz.utcoffset z d.clock d.fold

/-- The clock and the offset. -/
def moment (d : Datetime Zone) : Moment where
  clock := d.clock
  offset := d.utcoffset tz
  clock_lt := d.clock_lt
  offset_lt o ho := by
    obtain ⟨z, -, hz⟩ := Option.bind_eq_some_iff.1 ho
    exact tz.bounded z d.clock d.fold o hz

def instant (d : Datetime Zone) : Int := (d.moment tz).instant

/-- Whether the offset depends on the fold. -/
def foldDependent (d : Datetime Zone) : Bool :=
  d.utcoffset tz != { d with fold := !d.fold }.utcoffset tz

/-- `datetime.__eq__`. Clocks of one zone are compared as they stand. -/
def eq [DecidableEq Zone] (a b : Datetime Zone) : Bool :=
  if a.tzinfo = b.tzinfo then a.clock == b.clock
  else if a.foldDependent tz || b.foldDependent tz then false
  else if a.utcoffset tz = b.utcoffset tz then a.clock == b.clock
  else (a.utcoffset tz).isSome && (b.utcoffset tz).isSome && a.instant tz == b.instant tz

/-- `later - earlier` in microseconds. -/
def minus [DecidableEq Zone] (later earlier : Datetime Zone) : Int :=
  if later.tzinfo = earlier.tzinfo then later.clock - earlier.clock
  else later.instant tz - earlier.instant tz

/-- Outside the repeated and the skipped hours of its zone: the offset is that of both folds, and the
zone writes the instant with no other clock. -/
structure Settled (d : Datetime Zone) : Prop where
  fold : ∀ e : Datetime Zone, e.tzinfo = d.tzinfo → e.clock = d.clock →
    e.utcoffset tz = d.utcoffset tz
  sole : ∀ e : Datetime Zone, e.tzinfo = d.tzinfo → e.instant tz = d.instant tz →
    e.clock = d.clock

variable {tz} {a b : Datetime Zone}

theorem Settled.not_foldDependent (h : a.Settled tz) : a.foldDependent tz = false := by
  have hfold := h.fold { a with fold := !a.fold } rfl rfl
  rw [foldDependent, hfold, bne_self_eq_false]

theorem instant_eq (a : Datetime Zone) : a.instant tz = a.clock - (a.utcoffset tz).getD 0 := rfl

/-- Between settled datetimes, equality is that of the instants. -/
theorem eq_iff_instant [DecidableEq Zone] (ha : a.Settled tz) (hb : b.Settled tz)
    (hoffset : (a.utcoffset tz).isSome = true ∧ (b.utcoffset tz).isSome = true) :
    a.eq tz b = true ↔ a.instant tz = b.instant tz := by
  unfold eq
  by_cases hzone : a.tzinfo = b.tzinfo
  · rw [if_pos hzone, beq_iff_eq]
    constructor
    · intro hclock
      rw [instant_eq, instant_eq, hclock, hb.fold a hzone hclock]
    · exact hb.sole a hzone
  · have hdepends : ¬ (a.foldDependent tz || b.foldDependent tz) = true := by
      rw [ha.not_foldDependent, hb.not_foldDependent]
      exact Bool.false_ne_true
    rw [if_neg hzone, if_neg hdepends]
    by_cases hsame : a.utcoffset tz = b.utcoffset tz
    · rw [if_pos hsame, beq_iff_eq, instant_eq, instant_eq, hsame]
      omega
    · rw [if_neg hsame, hoffset.1, hoffset.2, Bool.true_and, Bool.true_and, beq_iff_eq]

end Datetime

namespace Zones

variable {Zone : Type} (tz : Zones Zone)

/-- A datetime with this clock and this offset. -/
abbrev Writing (m : Moment) := { d : Datetime Zone // d.moment tz = m }

/-- The datetime `astimezone(UTC)`. -/
def inUtc (u : Moment) (h : u.offset = some 0) : tz.Writing u where
  val := ⟨u.clock, false, some tz.utc, u.clock_lt⟩
  property := by
    have hoffset : u.offset = tz.utcoffset tz.utc u.clock false := by
      rw [h, tz.utc_offset]
    obtain ⟨clock, offset, _, _⟩ := u
    rw [Datetime.moment, Moment.mk.injEq]
    exact ⟨rfl, hoffset.symm⟩

/-- `AwareDatetime` with `json_roundtrip_datetime`. -/
def validate {m : Moment} (d : tz.Writing m) : Option (Σ u, tz.Writing u) :=
  match m.offset with
  | none => none
  | some o =>
    if o % MINUTE = 0 then some ⟨m, d⟩
    else
      match h : m.toUtc with
      | none => none
      | some u => some ⟨u, tz.inUtc u (Moment.toUtc_instant h).2⟩

/-- The clock and the offset of the result are what `Moment.validate` gives. -/
theorem validate_moment {m : Moment} (d : tz.Writing m) :
    (tz.validate d).map Sigma.fst = m.validate := by
  unfold validate
  split
  · rename_i hnone
    rw [Moment.validate, hnone]
    rfl
  · rename_i o ho
    rw [Moment.validate, ho]
    dsimp only
    by_cases hminute : o % MINUTE = 0
    · rw [if_pos hminute, if_pos hminute]
      rfl
    · rw [if_neg hminute, if_neg hminute]
      split
      · rename_i hutc
        exact hutc.symm
      · rename_i hutc
        exact hutc.symm

/-- A datetime whose offset is of whole minutes is returned as it is. -/
theorem validate_whole {m : Moment} (d : tz.Writing m) {o : Int} (ho : m.offset = some o)
    (hminute : o % MINUTE = 0) : tz.validate d = some ⟨m, d⟩ := by
  unfold validate
  rw [ho]
  exact if_pos hminute

theorem validate_cases {m : Moment} (d : tz.Writing m) {u : Moment} {w : tz.Writing u}
    (h : tz.validate d = some ⟨u, w⟩) :
    ∃ o, u.offset = some o ∧ o % MINUTE = 0 ∧ u.instant = m.instant := by
  have hmoment := tz.validate_moment d
  rw [h] at hmoment
  have hm : m.validate = some u := hmoment.symm
  have hinstant := Moment.validate_instant hm
  unfold validate at h
  split at h
  · cases h
  · rename_i o ho
    split at h
    · rename_i hminute
      cases h
      exact ⟨o, ho, hminute, rfl⟩
    · split at h
      · cases h
      · rename_i v hv
        cases h
        exact ⟨0, (Moment.toUtc_instant hv).2, by decide, hinstant⟩

/-- A validated datetime passes again as it is. -/
theorem validate_idem {m : Moment} (d : tz.Writing m) {u : Moment} {w : tz.Writing u}
    (h : tz.validate d = some ⟨u, w⟩) : tz.validate w = some ⟨u, w⟩ := by
  obtain ⟨o, ho, hminute, -⟩ := tz.validate_cases d h
  exact tz.validate_whole w ho hminute

end Zones

end KestrelSdk.ComputerUse

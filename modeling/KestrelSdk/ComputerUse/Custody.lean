import KestrelSdk.ComputerUse.Acquisition

namespace KestrelSdk.ComputerUse

open Json (Bytes Str str)
open Encoding (DAY)
open Features (isStableToken)

theorem checkOptional_some {α : Type} {check : α → Option α} {a b : Option α}
    (h : checkOptional check a = some b) : ∀ v ∈ b, ∃ u ∈ a, check u = some v := by
  cases a with
  | none =>
    cases h
    simp
  | some u =>
    obtain ⟨v, hv, rfl⟩ := Option.map_eq_some_iff.1 h
    simpa using hv

/-- A check that passes its own results again does so under an option. -/
theorem checkOptional_idem {α : Type} {check : α → Option α} {a : Option α}
    (h : ∀ v ∈ a, check v = some v) : checkOptional check a = some a := by
  cases a with
  | none => rfl
  | some v =>
    rw [checkOptional, h v rfl]
    rfl

theorem checkOptional_isSome {α : Type} {check : α → Option α} {a b : Option α}
    (h : checkOptional check a = some b) : b.isSome = a.isSome := by
  cases a with
  | none =>
    cases h
    rfl
  | some u =>
    obtain ⟨v, -, rfl⟩ := Option.map_eq_some_iff.1 h
    rfl

theorem AcquisitionState.Moves.begun {s t : AcquisitionState} (h : s.Moves t)
    (hs : s.begun = true) : t.begun = true := by
  cases h with
  | prepare => cases hs
  | dispatch => rfl
  | accept _ => rfl
  | lose _ => rfl

namespace EnvironmentLease

theorem validate_iff {l m : EnvironmentLease} : l.validate = some m ↔
    l.Sound ∧ ∃ expires_at released_at, l.expires_at.validate = some expires_at ∧
      checkOptional Moment.validate l.released_at = some released_at ∧
      m = { l with expires_at := expires_at, released_at := released_at } := by
  unfold validate
  simp only [Option.bind_eq_bind, Option.bind_eq_some_iff, Option.guard_eq_some', exists_const,
    Option.pure_def, Option.some.injEq]
  constructor
  · rintro ⟨hsound, e, he, r, hr, rfl⟩
    exact ⟨hsound, e, r, he, hr, rfl⟩
  · rintro ⟨hsound, e, r, he, hr, rfl⟩
    exact ⟨hsound, e, he, r, hr, rfl⟩

/-- A validated lease passes again as it is. -/
theorem validate_idem {l m : EnvironmentLease} (h : l.validate = some m) :
    m.validate = some m := by
  obtain ⟨hsound, e, r, he, hr, rfl⟩ := validate_iff.1 h
  apply validate_iff.2
  obtain ⟨h1, h2, h3, h4, h5, h6, h7, h8, h9⟩ := hsound
  refine ⟨⟨h1, h2, h3, h4, h5, h6, h7, ?_, h9⟩, e, r, Moment.validate_idem he, ?_, rfl⟩
  · rw [checkOptional_isSome hr]
    exact h8
  · apply checkOptional_idem
    intro v hv
    obtain ⟨u, -, hu⟩ := checkOptional_some hr v hv
    exact Moment.validate_idem hu

end EnvironmentLease

namespace EnvironmentAcquisitionCheckpoint

/-- A checkpoint that its own validation returns as it is. -/
structure Valid (c : EnvironmentAcquisitionCheckpoint) : Prop where
  identified : c.Identified
  expires : c.expires_at.validate = some c.expires_at
  leases : ∀ l ∈ c.lease, l.validate = some l
  facts : c.CorrelatedFacts

theorem validate_iff {c c' : EnvironmentAcquisitionCheckpoint} : c.validate = some c' ↔
    c.Identified ∧ ∃ expires_at lease, c.expires_at.validate = some expires_at ∧
      checkOptional EnvironmentLease.validate c.lease = some lease ∧
      c' = { c with expires_at := expires_at, lease := lease } ∧ c'.CorrelatedFacts := by
  unfold validate
  simp only [Option.bind_eq_bind, Option.bind_eq_some_iff, Option.guard_eq_some', exists_const,
    Option.pure_def, Option.some.injEq]
  constructor
  · rintro ⟨hid, e, he, l, hl, hfacts, rfl⟩
    exact ⟨hid, e, l, he, hl, rfl, hfacts⟩
  · rintro ⟨hid, e, l, he, hl, rfl, hfacts⟩
    exact ⟨hid, e, he, l, hl, hfacts, rfl⟩

theorem Valid.of_validate {c c' : EnvironmentAcquisitionCheckpoint} (h : c.validate = some c') :
    c'.Valid := by
  obtain ⟨hid, e, l, he, hl, rfl, hfacts⟩ := validate_iff.1 h
  constructor
  · exact hid
  · exact Moment.validate_idem he
  · intro m hm
    obtain ⟨u, -, hu⟩ := checkOptional_some hl m hm
    exact EnvironmentLease.validate_idem hu
  · exact hfacts

theorem Valid.validate_eq {c : EnvironmentAcquisitionCheckpoint} (h : c.Valid) :
    c.validate = some c :=
  validate_iff.2 ⟨h.identified, c.expires_at, c.lease, h.expires, checkOptional_idem h.leases, rfl,
    h.facts⟩

/-- The checkpoint that `from_original` made of the same attempt. -/
def original (c : EnvironmentAcquisitionCheckpoint) : EnvironmentAcquisitionCheckpoint :=
  { c with sequence := 0, state := .unprepared, preparation_sha256 := none, lease := none }

/-- What a checkpoint records stays recorded in the other one. -/
structure Kept (c c' : EnvironmentAcquisitionCheckpoint) : Prop where
  original : c'.original = c.original
  digest : ∀ d, c.preparation_sha256 = some d → c'.preparation_sha256 = some d
  lease : ∀ l, c.lease = some l → ∃ l', c'.lease = some l' ∧ Keeps l l'

theorem Keeps.refl (l : EnvironmentLease) : Keeps l l := ⟨rfl, rfl, .inr rfl⟩

theorem Keeps.trans {l m n : EnvironmentLease} (h : Keeps l m) (h' : Keeps m n) : Keeps l n := by
  obtain ⟨h1, h2, h3⟩ := h
  obtain ⟨h1', h2', h3'⟩ := h'
  refine ⟨h1'.trans h1, h2'.trans h2, ?_⟩
  rcases h3 with h3 | h3
  · exact .inl h3
  · rw [h3] at h3'
    exact h3'

theorem Kept.refl (c : EnvironmentAcquisitionCheckpoint) : c.Kept c :=
  ⟨rfl, fun _ h => h, fun l h => ⟨l, h, Keeps.refl l⟩⟩

theorem Kept.trans {c c1 c2 : EnvironmentAcquisitionCheckpoint} (h : c.Kept c1)
    (h' : c1.Kept c2) : c.Kept c2 := by
  constructor
  · exact h'.original.trans h.original
  · exact fun d hd => h'.digest d (h.digest d hd)
  · intro l hl
    obtain ⟨m, hm, hlm⟩ := h.lease l hl
    obtain ⟨n, hn, hmn⟩ := h'.lease m hm
    exact ⟨n, hn, hlm.trans hmn⟩

/-- A call that changed the record. -/
structure Advances (c c' : EnvironmentAcquisitionCheckpoint) : Prop where
  valid : c'.Valid
  kept : c.Kept c'
  sequence : c'.sequence = c.sequence + 1
  moves : c.state.Moves c'.state

variable {lib : Digests} {c c' : EnvironmentAcquisitionCheckpoint}

variable (lib)

variable {lib}

end EnvironmentAcquisitionCheckpoint

def sampleDigest : Digest := ⟨List.replicate 64 48, by decide⟩

/-- Digests of a library that gives every text the same one. -/
def sampleDigests : Digests := ⟨fun _ => sampleDigest, fun _ _ _ => [], fun _ _ => []⟩

/-- A UTC datetime in the first days of the year 1. -/
def sampleMoment (clock : Nat) (h : clock < SPAN) : Moment :=
  ⟨clock, some 0, h, utc_offset_lt⟩

def sampleScope : ResourceScope := ⟨str "t", str "p", none⟩

def sampleRequest : EnvironmentRequest where
  request_id := str "r"
  scope := sampleScope
  provider_id := str "aws"
  profile_id := str "small"
  image := str "img@sha256:" ++ sampleDigest.1
  surface := .desktop
  required_capabilities := {.screenshot}
  location := .remote
  requested_at := sampleMoment 0 span_pos
  expires_at := sampleMoment DAY day_lt_span
  idle_ttl_seconds := 60
  ready_timeout_seconds := 60
  max_hourly_cost_usd := .finite false 1 0
  max_total_cost_usd := .finite false 1 0
  region := none

def sampleQuote : EnvironmentQuote where
  quote_id := str "q"
  request_id := str "r"
  request_sha256 := sampleDigest.1
  scope := sampleScope
  provider_id := str "aws"
  location := .remote
  region := none
  expires_at := sampleMoment DAY day_lt_span
  hourly_cost_usd := .finite false 1 0
  estimated_total_cost_usd := .finite false 1 0
  capabilities := ⟨str "aws", .remote, {.desktop}, {.screenshot}, false, true⟩

def sampleLease (resource : Option Str) : EnvironmentLease where
  lease_id := str "l"
  request_id := str "r"
  quote_id := str "q"
  scope := sampleScope
  provider_id := str "aws"
  location := .remote
  state := .pending
  expires_at := sampleMoment DAY day_lt_span
  provider_resource_id := resource
  released_at := none
  actual_cost_usd := none

namespace EnvironmentAcquisitionCheckpoint

/-- The checkpoint of the sample attempt. -/
def sampleStart : EnvironmentAcquisitionCheckpoint :=
  (fromOriginal sampleDigests (str "a") sampleRequest sampleQuote).get (by decide +kernel)

end EnvironmentAcquisitionCheckpoint

end KestrelSdk.ComputerUse

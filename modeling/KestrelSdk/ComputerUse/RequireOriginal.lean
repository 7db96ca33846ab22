import KestrelSdk.ComputerUse.Binding

/-! When two records have one digest, and which originals a checkpoint requires. -/

namespace KestrelSdk.ComputerUse

open Json
open Features (isStableToken)

variable {md md' : ModelDump} {sha256 : Bytes → Digest} {json : Interpreter}

theorem Decimal.eq_usd {d : Decimal} (h : d.isUsd = true) : d.eq d = true := by
  match d, h with
  | .finite _ _ _, _ => exact eq_self

namespace EnvironmentRequest

/-- Equal, with datetimes of the same instants and amounts of the same spelling. -/
structure Agrees (a b : EnvironmentRequest) : Prop where
  requested : a.requested_at.instant = b.requested_at.instant
  expires : a.expires_at.instant = b.expires_at.instant
  rest : { a with requested_at := b.requested_at, expires_at := b.expires_at } = b

/-- Whether the amounts are spelled the same. -/
def Spelled (a b : EnvironmentRequest) : Prop :=
  a.max_hourly_cost_usd.text = b.max_hourly_cost_usd.text ∧
    a.max_total_cost_usd.text = b.max_total_cost_usd.text

/-- The bytes that the digest covers. -/
def covered (md : ModelDump) (json : Interpreter) (r : EnvironmentRequest) : Option Bytes := do
  let requested_at ← r.requested_at.toUtc
  let expires_at ← r.expires_at.toUtc
  canonical json (.dict (r.payload md requested_at expires_at))

variable {a b : EnvironmentRequest}

theorem Agrees.costs (h : a.Agrees b) : a.max_hourly_cost_usd = b.max_hourly_cost_usd ∧
    a.max_total_cost_usd = b.max_total_cost_usd := by
  rw [← h.rest]
  exact ⟨rfl, rfl⟩

theorem Agrees.payload (h : a.Agrees b) (u v : Moment) : a.payload md u v = b.payload md' u v := by
  rw [← h.rest]
  rfl

theorem Agrees.covered (h : a.Agrees b) : a.covered md json = b.covered md' json := by
  unfold EnvironmentRequest.covered
  rw [Moment.toUtc_congr h.requested, Moment.toUtc_congr h.expires]
  simp only [@Agrees.payload md md' a b h]

theorem covered_eq_iff (ha : ∀ u v, ∃ n, Fits json.floatOf 2 (.dict (a.payload md u v)) n)
    (hb : ∀ u v, ∃ n, Fits json.floatOf 2 (.dict (b.payload md' u v)) n)
    (hpriced : a.Priced ∧ b.Priced) (hroom : 2 ≤ json.nesting) {raw raw' : Bytes}
    (hraw : a.covered md json = some raw) (hraw' : b.covered md' json = some raw') :
    raw = raw' ↔ a.Agrees b := by
  simp only [covered, Option.bind_eq_bind, Option.bind_eq_some_iff] at hraw hraw'
  obtain ⟨u, hu, v, hv, hraw⟩ := hraw
  obtain ⟨u', hu', v', hv', hraw'⟩ := hraw'
  obtain ⟨n, hn⟩ := ha u v
  obtain ⟨m, hm⟩ := hb u' v'
  have hiff := canonical_eq_iff hn hm hroom
  rw [hraw, hraw', Option.getD_some, Option.getD_some] at hiff
  rw [hiff]
  constructor
  · intro h
    obtain ⟨rfl, rfl, hrest⟩ := payload_injective hpriced.1.2.1 hpriced.2.2.1 h
    exact ⟨Moment.toUtc_inj hu hu', Moment.toUtc_inj hv hv', hrest⟩
  · intro h
    rw [Moment.toUtc_congr h.requested, hu'] at hu
    rw [Moment.toUtc_congr h.expires, hv'] at hv
    rw [Option.some.inj hu, Option.some.inj hv, h.payload]

/-- A record with a text has the digest of that text. -/
theorem digest_eq (ha : ∀ u v, ∃ n, Fits json.floatOf 2 (.dict (a.payload md u v)) n)
    (hroom : 2 ≤ json.nesting) :
    a.digest (digests md sha256 json) = (a.covered md json).map sha256 := by
  unfold digest covered
  cases a.requested_at.toUtc with
  | none => rfl
  | some u =>
    cases a.expires_at.toUtc with
    | none => rfl
    | some v =>
      obtain ⟨n, hn⟩ := ha u v
      obtain ⟨text, htext, -⟩ := canonical_spec hn hroom
      simp only [Option.bind_eq_bind, Option.bind_some, digests, htext]
      rfl

theorem covered_isSome (ha : ∀ u v, ∃ n, Fits json.floatOf 2 (.dict (a.payload md u v)) n)
    (hroom : 2 ≤ json.nesting)
    (hutc : a.requested_at.toUtc.isSome = true ∧ a.expires_at.toUtc.isSome = true) :
    ∃ raw, a.covered md json = some raw := by
  obtain ⟨u, hu⟩ := Option.isSome_iff_exists.1 hutc.1
  obtain ⟨v, hv⟩ := Option.isSome_iff_exists.1 hutc.2
  obtain ⟨n, hn⟩ := ha u v
  obtain ⟨text, htext, -⟩ := canonical_spec hn hroom
  refine ⟨text.map UInt8.ofNat, ?_⟩
  rw [covered, hu, hv]
  exact htext

end EnvironmentRequest

namespace EnvironmentQuote

/-- Equal, with datetimes of the same instants and amounts of the same spelling. -/
structure Agrees (a b : EnvironmentQuote) : Prop where
  expires : a.expires_at.instant = b.expires_at.instant
  rest : { a with expires_at := b.expires_at } = b

def Spelled (a b : EnvironmentQuote) : Prop :=
  a.hourly_cost_usd.text = b.hourly_cost_usd.text ∧
    a.estimated_total_cost_usd.text = b.estimated_total_cost_usd.text

def covered (md : ModelDump) (json : Interpreter) (q : EnvironmentQuote) : Option Bytes := do
  let expires_at ← q.expires_at.toUtc
  canonical json (.dict (q.payload md expires_at))

variable {a b : EnvironmentQuote}

theorem Agrees.costs (h : a.Agrees b) : a.hourly_cost_usd = b.hourly_cost_usd ∧
    a.estimated_total_cost_usd = b.estimated_total_cost_usd := by
  rw [← h.rest]
  exact ⟨rfl, rfl⟩

/-- The capabilities in the payload do not depend on how the sets are walked. -/
theorem Agrees.payload (h : a.Agrees b) (u : Moment) : a.payload md u = b.payload md' u := by
  rw [← h.rest]
  rfl

theorem covered_eq_iff (ha : ∀ u, ∃ n, Fits json.floatOf 3 (.dict (a.payload md u)) n)
    (hb : ∀ u, ∃ n, Fits json.floatOf 3 (.dict (b.payload md' u)) n)
    (hpriced : a.Priced ∧ b.Priced) (hroom : 3 ≤ json.nesting) {raw raw' : Bytes}
    (hraw : a.covered md json = some raw) (hraw' : b.covered md' json = some raw') :
    raw = raw' ↔ a.Agrees b := by
  simp only [covered, Option.bind_eq_bind, Option.bind_eq_some_iff] at hraw hraw'
  obtain ⟨u, hu, hraw⟩ := hraw
  obtain ⟨u', hu', hraw'⟩ := hraw'
  obtain ⟨n, hn⟩ := ha u
  obtain ⟨m, hm⟩ := hb u'
  have hiff := canonical_eq_iff hn hm hroom
  rw [hraw, hraw', Option.getD_some, Option.getD_some] at hiff
  rw [hiff]
  constructor
  · intro h
    obtain ⟨rfl, hrest⟩ := payload_injective hpriced.1.1 hpriced.2.1 h
    exact ⟨Moment.toUtc_inj hu hu', hrest⟩
  · intro h
    rw [Moment.toUtc_congr h.expires, hu'] at hu
    obtain rfl := Option.some.inj hu
    rw [h.payload]

theorem digest_eq (ha : ∀ u, ∃ n, Fits json.floatOf 3 (.dict (a.payload md u)) n)
    (hroom : 3 ≤ json.nesting) :
    quoteDigest (digests md sha256 json) a = (a.covered md json).map sha256 := by
  unfold quoteDigest covered
  cases a.expires_at.toUtc with
  | none => rfl
  | some u =>
    obtain ⟨n, hn⟩ := ha u
    obtain ⟨text, htext, -⟩ := canonical_spec hn hroom
    simp only [Option.bind_eq_bind, Option.bind_some, digests, htext]
    rfl

theorem covered_isSome (ha : ∀ u, ∃ n, Fits json.floatOf 3 (.dict (a.payload md u)) n)
    (hroom : 3 ≤ json.nesting) (hutc : a.expires_at.toUtc.isSome = true) :
    ∃ raw, a.covered md json = some raw := by
  obtain ⟨u, hu⟩ := Option.isSome_iff_exists.1 hutc
  obtain ⟨n, hn⟩ := ha u
  obtain ⟨text, htext, -⟩ := canonical_spec hn hroom
  refine ⟨text.map UInt8.ofNat, ?_⟩
  rw [covered, hu]
  exact htext

end EnvironmentQuote

variable {Zone : Type} [DecidableEq Zone] {tz : Zones Zone}

/-- The comparison of two validated datetimes outside the repeated and the skipped hours. -/
theorem Zones.eq_iff_instant {m u : Moment} {d : tz.Writing m} {e : tz.Writing u}
    (hd : d.1.Settled tz) (he : e.1.Settled tz) (hm : m.offset.isSome = true)
    (hu : u.offset.isSome = true) : d.1.eq tz e.1 = true ↔ m.instant = u.instant := by
  obtain ⟨d, rfl⟩ := d
  obtain ⟨e, rfl⟩ := e
  exact Datetime.eq_iff_instant hd he ⟨hm, hu⟩

theorem isSome_of_whole {m : Moment} (h : ∃ o, m.offset = some o ∧ o % MINUTE = 0) :
    m.offset.isSome = true := by
  obtain ⟨o, ho, -⟩ := h
  rw [ho]
  rfl

namespace ZonedRequest

/-- A valid request whose datetimes have UTC forms and lie outside the repeated and the skipped hours
of their zones. -/
structure Regular (r : ZonedRequest tz) : Prop where
  valid : r.validate = some r
  utc : r.requested_at.toUtc.isSome = true ∧ r.expires_at.toUtc.isSome = true
  settled : r.requested.1.Settled tz ∧ r.expires.1.Settled tz

variable {a b : ZonedRequest tz}

theorem Regular.validated (h : a.Regular) : a.Validated := validate_validated h.valid

theorem Validated.fits (h : a.Validated) (md : ModelDump) (f : Str → PyFloat) (u v : Moment) :
    ∃ n, Fits f 2 (.dict (a.payload md u v)) n :=
  EnvironmentRequest.payload_fits h.identified h.priced h.timeouts.1 h.timeouts.2 md u v

/-- The records agree where Python's equality holds and the amounts are spelled the same. -/
theorem Regular.equal_iff (ha : a.Regular) (hb : b.Regular) :
    a.Equal b ∧ a.Spelled b.toEnvironmentRequest ↔ a.Agrees b.toEnvironmentRequest := by
  have hrequested := Zones.eq_iff_instant ha.settled.1 hb.settled.1
    (isSome_of_whole ha.validated.requested) (isSome_of_whole hb.validated.requested)
  have hexpires := Zones.eq_iff_instant ha.settled.2 hb.settled.2
    (isSome_of_whole ha.validated.expires) (isSome_of_whole hb.validated.expires)
  have husd := ha.validated.priced.2.1
  have husd' := hb.validated.priced.2.1
  constructor
  · rintro ⟨heq, hspelled⟩
    refine ⟨hrequested.1 heq.requested, hexpires.1 heq.expires, ?_⟩
    have hrest := heq.rest
    rw [← (Decimal.text_injective husd.1 husd'.1).1 hspelled.1,
      ← (Decimal.text_injective husd.2 husd'.2).1 hspelled.2] at hrest
    exact hrest
  · intro h
    obtain ⟨hhourly, htotal⟩ := h.costs
    refine ⟨⟨hrequested.2 h.requested, hexpires.2 h.expires, ?_, ?_, ?_⟩, ?_, ?_⟩
    · rw [hhourly]
      exact Decimal.eq_usd husd'.1
    · rw [htotal]
      exact Decimal.eq_usd husd'.2
    · rw [← hhourly, ← htotal]
      exact h.rest
    · rw [hhourly]
    · rw [htotal]

/-- The digests of two requests, when SHA-256 has no collision between their texts. -/
theorem Validated.digest_iff (ha : a.Validated) (hb : b.Validated)
    (hutc : a.requested_at.toUtc.isSome = true ∧ a.expires_at.toUtc.isSome = true)
    (hutc' : b.requested_at.toUtc.isSome = true ∧ b.expires_at.toUtc.isSome = true)
    (hroom : 2 ≤ json.nesting) (hinj : Set.InjOn sha256
      {raw | a.covered md json = some raw ∨ b.covered md' json = some raw}) :
    ∃ da db, a.digest (digests md sha256 json) = some da ∧
      b.digest (digests md' sha256 json) = some db ∧
      (da = db ↔ a.Agrees b.toEnvironmentRequest) := by
  have hfits := ha.fits md json.floatOf
  have hfits' := hb.fits md' json.floatOf
  obtain ⟨raw, hraw⟩ := EnvironmentRequest.covered_isSome hfits hroom hutc
  obtain ⟨raw', hraw'⟩ := EnvironmentRequest.covered_isSome hfits' hroom hutc'
  refine ⟨sha256 raw, sha256 raw', ?_, ?_, ?_⟩
  · rw [EnvironmentRequest.digest_eq hfits hroom, hraw]
    rfl
  · rw [EnvironmentRequest.digest_eq hfits' hroom, hraw']
    rfl
  · rw [hinj.eq_iff (.inl hraw) (.inr hraw')]
    exact EnvironmentRequest.covered_eq_iff hfits hfits' ⟨ha.priced, hb.priced⟩ hroom hraw hraw'

end ZonedRequest

namespace ZonedQuote

/-- A valid quote whose expiry has a UTC form and lies outside the repeated and the skipped hours of
its zone. -/
structure Regular (q : ZonedQuote tz) : Prop where
  valid : q.validate = some q
  utc : q.expires_at.toUtc.isSome = true
  settled : q.expires.1.Settled tz

variable {a b : ZonedQuote tz}

omit [DecidableEq Zone] in
theorem Regular.validated (h : a.Regular) : a.Validated := validate_validated h.valid

omit [DecidableEq Zone] in
theorem Regular.fits (h : a.Regular) (md : ModelDump) (f : Str → PyFloat) (u : Moment) :
    ∃ n, Fits f 3 (.dict (a.payload md u)) n :=
  EnvironmentQuote.payload_fits h.validated.identified h.validated.priced md u

theorem Regular.equal_iff (ha : a.Regular) (hb : b.Regular) :
    a.Equal b ∧ a.Spelled b.toEnvironmentQuote ↔ a.Agrees b.toEnvironmentQuote := by
  have hexpires := Zones.eq_iff_instant ha.settled hb.settled
    (isSome_of_whole ha.validated.expires) (isSome_of_whole hb.validated.expires)
  have husd := ha.validated.priced.1
  have husd' := hb.validated.priced.1
  constructor
  · rintro ⟨heq, hspelled⟩
    refine ⟨hexpires.1 heq.expires, ?_⟩
    have hrest := heq.rest
    rw [← (Decimal.text_injective husd.1 husd'.1).1 hspelled.1,
      ← (Decimal.text_injective husd.2 husd'.2).1 hspelled.2] at hrest
    exact hrest
  · intro h
    obtain ⟨hhourly, htotal⟩ := h.costs
    refine ⟨⟨hexpires.2 h.expires, ?_, ?_, ?_⟩, ?_, ?_⟩
    · rw [hhourly]
      exact Decimal.eq_usd husd'.1
    · rw [htotal]
      exact Decimal.eq_usd husd'.2
    · rw [← hhourly, ← htotal]
      exact h.rest
    · rw [hhourly]
    · rw [htotal]

omit [DecidableEq Zone] in
theorem Regular.digest_iff (ha : a.Regular) (hb : b.Regular) (hroom : 3 ≤ json.nesting)
    (hinj : Set.InjOn sha256 {raw | a.covered md json = some raw ∨ b.covered md' json = some raw}) :
    ∃ da db, quoteDigest (digests md sha256 json) a.toEnvironmentQuote = some da ∧
      quoteDigest (digests md' sha256 json) b.toEnvironmentQuote = some db ∧
      (da = db ↔ a.Agrees b.toEnvironmentQuote) := by
  have hfits := ha.fits md json.floatOf
  have hfits' := hb.fits md' json.floatOf
  obtain ⟨raw, hraw⟩ := EnvironmentQuote.covered_isSome hfits hroom ha.utc
  obtain ⟨raw', hraw'⟩ := EnvironmentQuote.covered_isSome hfits' hroom hb.utc
  refine ⟨sha256 raw, sha256 raw', ?_, ?_, ?_⟩
  · rw [EnvironmentQuote.digest_eq hfits hroom, hraw]
    rfl
  · rw [EnvironmentQuote.digest_eq hfits' hroom, hraw']
    rfl
  · rw [hinj.eq_iff (.inl hraw) (.inr hraw')]
    exact EnvironmentQuote.covered_eq_iff hfits hfits'
      ⟨ha.validated.priced, hb.validated.priced⟩ hroom hraw hraw'

end ZonedQuote

namespace ZonedCheckpoint

variable {lib : Digests} {attempt_id : Str} {a b : ZonedRequest tz} {p q : ZonedQuote tz}

/-- A checkpoint of valid records passes its validation as it is. -/
theorem unprepared_valid (ha : a.Validated) (hp : p.Validated) (da dp : Digest) :
    (unprepared attempt_id a p da dp).validate =
      if isStableToken attempt_id = true then some (unprepared attempt_id a p da dp) else none := by
  obtain ⟨o, ho, hminute⟩ := ha.expires
  have hexpires : tz.validate (unprepared attempt_id a p da dp).expires =
      some ⟨a.expires_at, a.expires⟩ := tz.validate_whole a.expires ho hminute
  have hfacts : (unprepared attempt_id a p da dp).CorrelatedFacts := by
    simp [unprepared, EnvironmentAcquisitionCheckpoint.CorrelatedFacts, AcquisitionState.begun]
  have hid : (unprepared attempt_id a p da dp).Identified ↔ isStableToken attempt_id = true := by
    constructor
    · exact fun h => h.1
    · intro h
      exact ⟨h, ha.identified.1, da.2, hp.identified.1.1, dp.2, ha.identified.2.1,
        ha.identified.2.2.1, by simp [unprepared]⟩
  have hlease : checkOptional EnvironmentLease.validate (unprepared attempt_id a p da dp).lease =
      some none := rfl
  unfold validate
  rw [hexpires, hlease]
  by_cases h : isStableToken attempt_id = true
  · rw [if_pos h]
    simp only [Option.bind_eq_bind, Option.bind_some, guard, if_pos (hid.2 h), Option.pure_def]
    change (if (unprepared attempt_id a p da dp).CorrelatedFacts then some () else none).bind
      (fun _ => some (unprepared attempt_id a p da dp)) = _
    rw [if_pos hfacts]
    rfl
  · rw [if_neg h]
    simp only [guard, if_neg (mt hid.1 h)]
    rfl

/-- `from_original` of valid records. -/
theorem fromOriginal_iff (ha : a.Validated) (hp : p.Validated) {c : ZonedCheckpoint tz} :
    fromOriginal lib attempt_id a p = some c ↔
      isStableToken attempt_id = true ∧ ∃ da dp, a.digest lib = some da ∧
        quoteDigest lib p.toEnvironmentQuote = some dp ∧ Quotes p a da ∧
        c = unprepared attempt_id a p da dp := by
  unfold fromOriginal
  rw [ha.validate_eq, hp.validate_eq]
  simp only [Option.bind_eq_bind, Option.bind_some, Option.bind_eq_some_iff, Option.guard_eq_some',
    exists_const, unprepared_valid ha hp]
  constructor
  · rintro ⟨da, hda, hquotes, dp, hdp, hc⟩
    split at hc
    · rename_i htoken
      exact ⟨htoken, da, dp, hda, hdp, hquotes, (Option.some.inj hc).symm⟩
    · cases hc
  · rintro ⟨htoken, da, dp, hda, hdp, hquotes, rfl⟩
    exact ⟨da, hda, hquotes, dp, hdp, if_pos htoken⟩

/-- Whether a checkpoint still has the facts of the one that `from_original` made. -/
structure Continues (c start : ZonedCheckpoint tz) : Prop where
  original : c.original = start.toEnvironmentAcquisitionCheckpoint
  expires : c.expires.1 = start.expires.1

omit [DecidableEq Zone] in
theorem quotes_congr {da : Digest} (h : a.Agrees b.toEnvironmentRequest)
    (h' : p.Agrees q.toEnvironmentQuote) : Quotes p a da ↔ Quotes q b da := by
  unfold Quotes
  rw [← h.rest, ← h'.rest]

/-- Two checkpoints of agreeing records have the same facts but for the zone of their expiry. -/
theorem sameOriginal_congr {da dp : Digest} (h : a.Agrees b.toEnvironmentRequest)
    (h' : p.Agrees q.toEnvironmentQuote) :
    SameOriginal (unprepared attempt_id b q da dp) (unprepared attempt_id a p da dp) ↔
      b.expires.1.eq tz a.expires.1 = true := by
  constructor
  · exact fun hsame => hsame.2
  · intro hexpires
    refine ⟨?_, hexpires⟩
    simp only [unprepared, true_and]
    rw [← h.rest, ← h'.rest]
    exact ⟨rfl, rfl, rfl, rfl, rfl⟩

theorem Continues.sameOriginal {c start e : ZonedCheckpoint tz} (h : c.Continues start) :
    SameOriginal c e ↔ SameOriginal start e := by
  have hattempt : c.attempt_id = start.attempt_id := by
    rw [← h.original]
    rfl
  have hrequest : c.request_id = start.request_id ∧ c.request_sha256 = start.request_sha256 := by
    rw [← h.original]
    exact ⟨rfl, rfl⟩
  have hquote : c.quote_id = start.quote_id ∧ c.quote_sha256 = start.quote_sha256 := by
    rw [← h.original]
    exact ⟨rfl, rfl⟩
  have howner : c.scope = start.scope ∧ c.provider_id = start.provider_id ∧
      c.location = start.location := by
    rw [← h.original]
    exact ⟨rfl, rfl, rfl⟩
  unfold SameOriginal
  rw [hattempt, hrequest.1, hrequest.2, hquote.1, hquote.2, howner.1, howner.2.1, howner.2.2,
    h.expires]

/-- A checkpoint requires the originals by their digests, when its expiry compares as an instant. -/
theorem requireOriginal_iff {lib' : Digests} {c start : ZonedCheckpoint tz} (ha : a.Validated)
    (hp : p.Validated) (hb : b.Validated) (hq : q.Validated)
    (hstart : fromOriginal lib' attempt_id b q = some start) (hc : c.validate = some c)
    (hcontinues : c.Continues start) {da db dp dq : Digest} (hda : a.digest lib = some da)
    (hdb : b.digest lib' = some db) (hdp : quoteDigest lib p.toEnvironmentQuote = some dp)
    (hdq : quoteDigest lib' q.toEnvironmentQuote = some dq)
    (hagree : da = db ↔ a.Agrees b.toEnvironmentRequest)
    (hagree' : dp = dq ↔ p.Agrees q.toEnvironmentQuote)
    (hexpires : a.Agrees b.toEnvironmentRequest → b.expires.1.eq tz a.expires.1 = true) :
    c.requireOriginal lib a p = some () ↔
      a.Agrees b.toEnvironmentRequest ∧ p.Agrees q.toEnvironmentQuote := by
  obtain ⟨htoken, db', dq', hdb', hdq', hquotes, rfl⟩ := (fromOriginal_iff hb hq).1 hstart
  rw [hdb] at hdb'
  rw [hdq] at hdq'
  obtain rfl := Option.some.inj hdb'
  obtain rfl := Option.some.inj hdq'
  have hattempt : c.attempt_id = attempt_id := by
    have hid := congrArg EnvironmentAcquisitionCheckpoint.attempt_id hcontinues.original
    exact hid
  unfold requireOriginal
  rw [hc]
  simp only [Option.bind_eq_bind, Option.bind_some, Option.bind_eq_some_iff, Option.guard_eq_some',
    hattempt, fromOriginal_iff ha hp, hcontinues.sameOriginal]
  constructor
  · rintro ⟨e, ⟨-, da', dp', hda', hdp', -, rfl⟩, hsame⟩
    rw [hda] at hda'
    rw [hdp] at hdp'
    obtain rfl := Option.some.inj hda'
    obtain rfl := Option.some.inj hdp'
    have hrequest : db = da := Subtype.ext hsame.1.2.2.1
    have hquote : dq = dp := Subtype.ext hsame.1.2.2.2.2.1
    exact ⟨hagree.1 hrequest.symm, hagree'.1 hquote.symm⟩
  · rintro ⟨h, h'⟩
    obtain rfl := hagree.2 h
    obtain rfl := hagree'.2 h'
    exact ⟨_, ⟨htoken, da, dp, hda, hdp, (quotes_congr h h').2 hquotes, rfl⟩,
      (sameOriginal_congr h h').2 (hexpires h)⟩

end ZonedCheckpoint

/-- Two valid requests, or quotes, have one digest exactly where they are equal and their amounts are
spelled the same, in whatever order the sets are walked and whatever zones the instants are written in;
and a checkpoint accepts such records of its originals and no others. -/
theorem digests_bind (hroom : 3 ≤ json.nesting) {a b : ZonedRequest tz} {p q : ZonedQuote tz}
    (ha : a.Regular) (hb : b.Regular) (hp : p.Regular) (hq : q.Regular)
    (hrequests : Set.InjOn sha256
      {raw | a.covered md json = some raw ∨ b.covered md' json = some raw})
    (hquotes : Set.InjOn sha256
      {raw | p.covered md json = some raw ∨ q.covered md' json = some raw}) :
    ((a.digest (digests md sha256 json)).isSome = true ∧
      (a.digest (digests md sha256 json) = b.digest (digests md' sha256 json) ↔
        a.Equal b ∧ a.Spelled b.toEnvironmentRequest)) ∧
    ((quoteDigest (digests md sha256 json) p.toEnvironmentQuote).isSome = true ∧
      (quoteDigest (digests md sha256 json) p.toEnvironmentQuote =
          quoteDigest (digests md' sha256 json) q.toEnvironmentQuote ↔
        p.Equal q ∧ p.Spelled q.toEnvironmentQuote)) ∧
    ∀ attempt_id (start c : ZonedCheckpoint tz),
      ZonedCheckpoint.fromOriginal (digests md' sha256 json) attempt_id b q = some start →
      c.validate = some c → c.Continues start →
      (c.requireOriginal (digests md sha256 json) a p = some () ↔
        (a.Equal b ∧ a.Spelled b.toEnvironmentRequest) ∧
          p.Equal q ∧ p.Spelled q.toEnvironmentQuote) := by
  obtain ⟨da, db, hda, hdb, hagree⟩ := ha.validated.digest_iff hb.validated ha.utc hb.utc
    (Nat.le_of_succ_le hroom) hrequests
  obtain ⟨dp, dq, hdp, hdq, hagree'⟩ := hp.digest_iff hq hroom hquotes
  rw [ha.equal_iff hb, hp.equal_iff hq]
  refine ⟨⟨?_, ?_⟩, ⟨?_, ?_⟩, ?_⟩
  · rw [hda]
    rfl
  · rw [hda, hdb, Option.some.injEq]
    exact hagree
  · rw [hdp]
    rfl
  · rw [hdp, hdq, Option.some.injEq]
    exact hagree'
  · intro attempt_id start c hstart hc hcontinues
    apply ZonedCheckpoint.requireOriginal_iff ha.validated hp.validated hb.validated hq.validated
      hstart hc hcontinues hda hdb hdp hdq hagree hagree'
    intro h
    exact (Zones.eq_iff_instant hb.settled.2 ha.settled.2 (isSome_of_whole hb.validated.expires)
      (isSome_of_whole ha.validated.expires)).2 h.expires.symm

/-- Two zones: UTC, and one that is an hour ahead until its clocks go back from one o'clock on the
second day of year 1. -/
def hourZones : Zones Bool where
  utcoffset summer clock fold :=
    if summer && (clock < Encoding.DAY || clock < Encoding.DAY + 3600000000 && !fold) then
      some 3600000000
    else some 0
  utc := false
  bounded summer clock fold := by
    split <;> (rintro o ⟨⟩; decide)
  utc_offset _ _ := rfl

/-- A datetime of these zones. -/
def hourTime (summer fold : Bool) (clock : Nat) (h : clock < SPAN) : Datetime Bool :=
  ⟨clock, fold, some summer, h⟩

theorem settled_utc (fold : Bool) (clock : Nat) (h : clock < SPAN) :
    (hourTime false fold clock h).Settled hourZones := by
  have hoffset : ∀ e : Datetime Bool, e.tzinfo = some false → e.utcoffset hourZones = some 0 := by
    intro e he
    rw [Datetime.utcoffset, he]
    rfl
  constructor
  · intro e hzone _
    rw [hoffset e hzone]
    rfl
  · intro e hzone hinstant
    rw [Datetime.instant_eq, Datetime.instant_eq, hoffset e hzone, hoffset _ rfl] at hinstant
    have hclock : (e.clock : Int) = clock := by
      simpa [hourTime] using hinstant
    exact Int.ofNat.inj hclock

/-- Before its clocks go back the other zone writes an instant once. -/
theorem settled_summer {fold : Bool} {clock : Nat} (h : clock < SPAN)
    (hclock : clock < Encoding.DAY) : (hourTime true fold clock h).Settled hourZones := by
  have hoffset : ∀ e : Datetime Bool, e.tzinfo = some true →
      e.utcoffset hourZones = some 3600000000 ∨
        e.utcoffset hourZones = some 0 ∧ Encoding.DAY ≤ e.clock := by
    intro e he
    rw [Datetime.utcoffset, he]
    change (if _ then _ else _) = _ ∨ (if _ then _ else _) = _ ∧ _
    split
    · exact .inl rfl
    · rename_i hlate
      simp only [Bool.true_and, Bool.or_eq_true, decide_eq_true_eq, not_or, not_lt] at hlate
      exact .inr ⟨rfl, hlate.1⟩
  have hself : (hourTime true fold clock h).utcoffset hourZones = some 3600000000 := by
    rcases hoffset (hourTime true fold clock h) rfl with hsummer | ⟨-, hle⟩
    · exact hsummer
    · exact absurd hclock (not_lt.2 hle)
  constructor
  · intro e hzone hsame
    rw [hself]
    rcases hoffset e hzone with hsummer | ⟨-, hle⟩
    · exact hsummer
    · rw [hsame] at hle
      exact absurd hclock (not_lt.2 hle)
  · intro e hzone hinstant
    rw [Datetime.instant_eq, Datetime.instant_eq, hself] at hinstant
    change (e.clock : Int) - _ = clock - 3600000000 at hinstant
    change e.clock = clock
    rcases hoffset e hzone with hsummer | ⟨hwinter, hle⟩
    · rw [hsummer] at hinstant
      change (e.clock : Int) - 3600000000 = _ at hinstant
      omega
    · rw [hwinter] at hinstant
      change (e.clock : Int) - 0 = _ at hinstant
      omega

/-- A request of some days, written in these zones for this hourly cost. -/
def hourRequest (requested : Datetime Bool) (hourly : Decimal) : ZonedRequest hourZones :=
  { sampleRequest with
    requested_at := requested.moment hourZones
    expires_at := (hourTime false false (3 * Encoding.DAY) (by decide)).moment hourZones
    max_hourly_cost_usd := hourly
    requested := ⟨requested, rfl⟩
    expires := ⟨hourTime false false (3 * Encoding.DAY) (by decide), rfl⟩ }

/-- Noon of the first day, in UTC and in the other zone. -/
def noon : Datetime Bool := hourTime false false 43200000000 (by decide)

def summerNoon : Datetime Bool := hourTime true false 46800000000 (by decide)

def walkedDump : ModelDump := ⟨fun _ => [.desktop], fun _ => [.screenshot], fun _ => []⟩

/-- SHA-256 at the texts of the sample request and of its quote. -/
def sampleSha256 (raw : Bytes) : Digest :=
  if raw.length = 521 then
    ⟨str "a959df3999298536f2f6f98af1301793583a6d74afd82ae2855e109ec855e564", by decide⟩
  else ⟨str "1f7bb327646c9fa9e8e19152d2394ecfac373666646771aca24ba5bf899cc256", by decide⟩

def hourQuote : ZonedQuote hourZones :=
  { sampleQuote with
    request_sha256 := str "a959df3999298536f2f6f98af1301793583a6d74afd82ae2855e109ec855e564"
    expires_at := (hourTime false false (3 * Encoding.DAY) (by decide)).moment hourZones
    expires := ⟨hourTime false false (3 * Encoding.DAY) (by decide), rfl⟩ }

theorem hourRequest_validated {requested : Datetime Bool} {hourly : Decimal}
    (husd : hourly.isUsd = true)
    (hwhole : ∃ o, (requested.moment hourZones).offset = some o ∧ o % MINUTE = 0)
    (hbounded : (hourRequest requested hourly).BoundedLifetime) :
    (hourRequest requested hourly).Validated where
  identified := (by decide : sampleRequest.Identified)
  priced := ⟨(by decide : sampleRequest.Priced).1,
    ⟨husd, (by decide : sampleRequest.Priced).2.1.2⟩, rfl⟩
  bounded := hbounded
  requested := hwhole
  expires := ⟨0, rfl, rfl⟩

theorem hourQuote_regular : hourQuote.Regular where
  valid := ZonedQuote.Validated.validate_eq
    { identified := by decide
      priced := by decide
      expires := ⟨0, rfl, rfl⟩ }
  utc := rfl
  settled := settled_utc _ _ _

theorem noon_regular : (hourRequest noon (.finite false 1 0)).Regular where
  valid := (hourRequest_validated rfl ⟨0, rfl, rfl⟩ (by decide)).validate_eq
  utc := ⟨rfl, rfl⟩
  settled := ⟨settled_utc _ _ _, settled_utc _ _ _⟩

theorem summerNoon_regular : (hourRequest summerNoon (.finite false 1 0)).Regular where
  valid := (hourRequest_validated rfl ⟨3600000000, rfl, rfl⟩ (by decide)).validate_eq
  utc := ⟨rfl, rfl⟩
  settled := ⟨settled_summer _ (by decide), settled_utc _ _ _⟩

theorem noon_agrees : (hourRequest noon (.finite false 1 0)).Agrees
    (hourRequest summerNoon (.finite false 1 0)).toEnvironmentRequest :=
  ⟨by decide, rfl, rfl⟩

theorem sortedTexts_singleton {α : Type} (text : α → Str) (a : α) :
    sortedTexts text {a} = .list [.str (text a)] := by
  rw [sortedTexts, Finset.image_singleton, Finset.sort_singleton]
  rfl

theorem noon_digest :
    (hourRequest noon (.finite false 1 0)).digest (digests walkedDump sampleSha256 .floatless) =
      some ⟨hourQuote.request_sha256, by decide⟩ := by
  have hset : sortedTexts ComputerCapability.text
      (hourRequest noon (.finite false 1 0)).required_capabilities =
        .list [.str (str "screenshot")] := sortedTexts_singleton _ _
  have hcovered : (hourRequest noon (.finite false 1 0)).covered walkedDump .floatless =
      canonical .floatless (.dict ((hourRequest noon (.finite false 1 0)).payload walkedDump
        (sampleMoment 43200000000 (by decide)) (sampleMoment (3 * Encoding.DAY) (by decide)))) := rfl
  rw [EnvironmentRequest.digest_eq (noon_regular.validated.fits _ _) (by decide), hcovered,
    EnvironmentRequest.payload_eq, hset]
  decide +kernel

/-- A request written in another zone has the same digest, and the checkpoint of one accepts the
other. -/
theorem zones_accepted :
    (hourRequest noon (.finite false 1 0)).digest (digests walkedDump sampleSha256 .floatless) =
      (hourRequest summerNoon (.finite false 1 0)).digest
        (digests walkedDump sampleSha256 .floatless) ∧
    ∃ start, ZonedCheckpoint.fromOriginal (digests walkedDump sampleSha256 .floatless) (str "a")
        (hourRequest summerNoon (.finite false 1 0)) hourQuote = some start ∧
      start.requireOriginal (digests walkedDump sampleSha256 .floatless)
        (hourRequest noon (.finite false 1 0)) hourQuote = some () := by
  have hinj : Set.InjOn sampleSha256 {raw |
      (hourRequest noon (.finite false 1 0)).covered walkedDump .floatless = some raw ∨
        (hourRequest summerNoon (.finite false 1 0)).covered walkedDump .floatless = some raw} := by
    rw [@EnvironmentRequest.Agrees.covered walkedDump walkedDump _ _ _ noon_agrees]
    rintro x (hx | hx) y (hy | hy) - <;> exact Option.some.inj (hx.symm.trans hy)
  have hinj' : Set.InjOn sampleSha256 {raw | hourQuote.covered walkedDump .floatless = some raw ∨
      hourQuote.covered walkedDump .floatless = some raw} := by
    rintro x (hx | hx) y (hy | hy) - <;> exact Option.some.inj (hx.symm.trans hy)
  obtain ⟨⟨-, hdigest⟩, ⟨hquoted, -⟩, hrequire⟩ := digests_bind (by decide) noon_regular
    summerNoon_regular hourQuote_regular hourQuote_regular hinj hinj'
  have hequal := (noon_regular.equal_iff summerNoon_regular).2 noon_agrees
  have hsame := hdigest.2 hequal
  obtain ⟨dq, hdq⟩ := Option.isSome_iff_exists.1 hquoted
  have hstart := (ZonedCheckpoint.fromOriginal_iff summerNoon_regular.validated
    hourQuote_regular.validated).2 ⟨(by decide : isStableToken (str "a") = true), _, dq,
      hsame.symm.trans noon_digest, hdq, by decide, rfl⟩
  refine ⟨hsame, _, hstart, (hrequire _ _ _ hstart ?_ ⟨rfl, rfl⟩).2 ⟨hequal, ?_⟩⟩
  · rw [ZonedCheckpoint.unprepared_valid summerNoon_regular.validated hourQuote_regular.validated]
    rfl
  · exact (hourQuote_regular.equal_iff hourQuote_regular).2 ⟨rfl, rfl⟩

/-- Requests that do not agree have different digests. -/
theorem digest_ne {a b : ZonedRequest tz} (ha : a.Validated) (hb : b.Validated)
    (hutc : a.requested_at.toUtc.isSome = true ∧ a.expires_at.toUtc.isSome = true)
    (hutc' : b.requested_at.toUtc.isSome = true ∧ b.expires_at.toUtc.isSome = true)
    (hroom : 2 ≤ json.nesting) (h : ¬ a.Agrees b.toEnvironmentRequest) :
    ∀ sha256 : Bytes → Digest, Set.InjOn sha256 {raw |
      a.covered md json = some raw ∨ b.covered md json = some raw} →
    a.digest (digests md sha256 json) ≠ b.digest (digests md sha256 json) := by
  intro sha256 hinj heq
  obtain ⟨da, db, hda, hdb, hagree⟩ := ha.digest_iff hb hutc hutc' hroom hinj
  rw [hda, hdb] at heq
  exact h (hagree.1 (Option.some.inj heq))

/-- The first hour of the second day, before and after the clocks go back. -/
def repeated (fold : Bool) : Datetime Bool := hourTime true fold Encoding.DAY day_lt_span

/-- Equal requests of different digests: one that may cost `1` beside one of `1.0`, and two in the
folds of a repeated hour. -/
theorem equal_requests_differ : ∃ a b c d : ZonedRequest hourZones,
    (a.validate = some a ∧ b.validate = some b ∧ a.Equal b ∧
      ∀ sha256 : Bytes → Digest, Set.InjOn sha256 {raw |
        a.covered walkedDump .floatless = some raw ∨ b.covered walkedDump .floatless = some raw} →
      a.digest (digests walkedDump sha256 .floatless) ≠
        b.digest (digests walkedDump sha256 .floatless)) ∧
    c.validate = some c ∧ d.validate = some d ∧ c.Equal d ∧
      ∀ sha256 : Bytes → Digest, Set.InjOn sha256 {raw |
        c.covered walkedDump .floatless = some raw ∨ d.covered walkedDump .floatless = some raw} →
      c.digest (digests walkedDump sha256 .floatless) ≠
        d.digest (digests walkedDump sha256 .floatless) := by
  have hone : (hourRequest noon (.finite false 1 0)).Validated := noon_regular.validated
  have hspelled : (hourRequest noon (.finite false 10 (-1))).Validated :=
    hourRequest_validated rfl ⟨0, rfl, rfl⟩ (by decide)
  have hearly : (hourRequest (repeated false) (.finite false 1 0)).Validated :=
    hourRequest_validated rfl ⟨3600000000, rfl, rfl⟩ (by decide)
  have hlate : (hourRequest (repeated true) (.finite false 1 0)).Validated :=
    hourRequest_validated rfl ⟨0, rfl, rfl⟩ (by decide)
  refine ⟨_, _, _, _, ⟨hone.validate_eq, hspelled.validate_eq, ⟨rfl, rfl, by decide, rfl, rfl⟩,
    digest_ne hone hspelled ⟨rfl, rfl⟩ ⟨rfl, rfl⟩ (by decide) ?_⟩, hearly.validate_eq,
    hlate.validate_eq, ⟨rfl, rfl, rfl, rfl, rfl⟩,
    digest_ne hearly hlate ⟨rfl, rfl⟩ ⟨rfl, rfl⟩ (by decide) ?_⟩
  · intro h
    have hcost : Decimal.finite false 1 0 = Decimal.finite false 10 (-1) := h.costs.1
    cases hcost
  · intro h
    have hinstant : ((repeated false).moment hourZones).instant =
        ((repeated true).moment hourZones).instant := h.requested
    exact absurd hinstant (by decide)

end KestrelSdk.ComputerUse

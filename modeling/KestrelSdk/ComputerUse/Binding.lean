import KestrelSdk.ComputerUse.Originals
import Mathlib.Data.List.TakeWhile

namespace KestrelSdk.ComputerUse

open Json
open Encoding (DAY DateTime)
open Features (isStableToken)

/-! The payloads fit the encoder. -/

theorem Decimal.text_ascii {d : Decimal} (h : d.isUsd = true) : ∀ c ∈ d.text, c < 128 := by
  match d, h with
  | .finite negative digits exponent, _ =>
    obtain ⟨int, fraction, -, hint, hfraction, hpointed, -⟩ := pointed_spec digits exponent
    have hdigit : ∀ c, isDigit c = true → c < 128 := by
      intro c hc
      simp only [isDigit, Bool.and_eq_true, decide_eq_true_eq] at hc
      omega
    have hsign : ∀ c ∈ signText negative, c < 128 := by
      cases negative <;> decide
    have hpoint : ∀ c ∈ pointText fraction, c < 128 := by
      unfold pointText
      split
      · simp
      · exact List.forall_mem_cons.2 ⟨by decide, fun c hc => hdigit c (hfraction c hc)⟩
    have hpower : ∀ power, ∀ c ∈ powerText power, c < 128 := by
      intro power
      unfold powerText
      split
      · simp
      · refine List.forall_mem_cons.2 ⟨by decide, List.forall_mem_cons.2 ⟨?_, ?_⟩⟩
        · split <;> decide
        · exact fun c hc => hdigit c (natText_digit hc)
    rw [text, hpointed]
    simp only [List.forall_mem_append]
    exact ⟨hsign, ⟨fun c hc => hdigit c (hint c hc), hpoint⟩, hpower _⟩

theorem pinned_ascii {s : Str} (h : isPinnedImage s = true) :
    s.length ≤ 2048 ∧ ∀ c ∈ s, c < 128 := by
  simp only [isPinnedImage, Bool.and_eq_true, decide_eq_true_eq, beq_iff_eq] at h
  obtain ⟨⟨⟨hlen, -⟩, hmark⟩, hdigest⟩ := h
  refine ⟨hlen, ?_⟩
  intro c hc
  rw [← List.takeWhile_append_dropWhile (p := isImageChar) (l := s), List.mem_append,
    ← List.take_append_drop 8 (s.dropWhile isImageChar), List.mem_append, hmark] at hc
  rcases hc with hname | hmark | hdrop
  · have hchar := List.mem_takeWhile_imp hname
    simp only [isImageChar, Features.isAlnum, Bool.or_eq_true, Bool.and_eq_true, decide_eq_true_eq,
      beq_iff_eq] at hchar
    omega
  · have hall : ∀ c ∈ str "@sha256:", c < 128 := by decide
    exact hall c hmark
  · exact (digest_ascii hdigest).2 c hdrop

section

variable {f : Str → PyFloat} {levels : Nat}

/-- A list of ASCII texts. -/
theorem Fits.texts {l : List Str} (h : ∀ s ∈ l, ∀ c ∈ s, c < 128) :
    ∃ n, Fits f 1 (.list (l.map .str)) n := by
  refine ⟨textSize (.list (l.map .str)), ?_, ?_, ?_, le_rfl⟩
  · rw [Plain]
    induction l with
    | nil => trivial
    | cons s l ih =>
      rw [List.forall_mem_cons] at h
      refine ⟨?_, ih h.2⟩
      intro c hc
      exact .inl ((h.1 c hc).trans (by decide))
  · rw [Short]
    clear h
    induction l with
    | nil => trivial
    | cons s l ih => exact ⟨trivial, ih⟩
  · rw [Json.depth]
    have hflat : depthItems (l.map .str) = 0 := by
      clear h
      induction l with
      | nil => rfl
      | cons s l ih =>
        rw [List.map_cons, depthItems, ih]
        rfl
    omega

theorem Fits.sortedTexts {α : Type} {text : α → Str} (h : ∀ a, ∀ c ∈ text a, c < 128)
    (s : Finset α) : ∃ n, Fits f 1 (sortedTexts text s) n := by
  apply Fits.texts
  intro t ht
  rw [Finset.mem_sort, Finset.mem_image] at ht
  obtain ⟨a, -, rfl⟩ := ht
  exact h a

theorem Fits.cost {d : Decimal} (h : d.isUsd = true) :
    Fits f levels (.str d.text) (12 * d.text.length + 2) :=
  Fits.ascii (Decimal.text_ascii h) le_rfl

theorem Fits.isoformat (m : Moment) : Fits f levels (.str m.isoformat) 506 := by
  apply Fits.ascii _ (Encoding.isoformat_length _)
  intro c hc
  have hiso := Encoding.isoformat_iso _ c hc
  unfold Encoding.IsoChar at hiso
  omega

theorem Fits.region {region : Option Str} (h : region.all isStableToken = true) :
    Fits f levels (dumpOptional .str region) 3078 := by
  apply Fits.optional
  intro s hs
  apply Fits.token
  rw [Option.mem_def.1 hs] at h
  exact h

theorem Surface.text_ascii (s : Surface) : ∀ c ∈ s.text, c < 128 := by
  cases s <;> decide

theorem ComputerCapability.text_ascii (c : ComputerCapability) : ∀ x ∈ c.text, x < 128 := by
  cases c <;> decide

theorem EnvironmentRequest.payload_fits {r : EnvironmentRequest} (hid : r.Identified)
    (hpriced : r.Priced) (hidle : r.idle_ttl_seconds.natAbs < 10 ^ 20)
    (hready : r.ready_timeout_seconds.natAbs < 10 ^ 20) (md : ModelDump) (u v : Moment) :
    ∃ n, Fits f 2 (.dict (r.payload md u v)) n := by
  obtain ⟨hrequest, hscope, hprovider, hprofile, himage⟩ := hid
  obtain ⟨-, ⟨hhourly, htotal⟩, hregion⟩ := hpriced
  obtain ⟨n, hcapabilities⟩ : ∃ n, Fits f 1
      (sortedTexts ComputerCapability.text r.required_capabilities) n :=
    Fits.sortedTexts ComputerCapability.text_ascii _
  exact ⟨_, Fits.dict payload_nodup rfl
    (.cons (Fits.int (by decide)) <| .cons (Fits.token hrequest) <| .cons (Fits.scope hscope) <|
      .cons (Fits.token hprovider) <| .cons (Fits.token hprofile) <|
      .cons (Fits.ascii (pinned_ascii himage).2 le_rfl) <|
      .cons (Fits.ascii r.surface.text_ascii le_rfl) <| .cons hcapabilities <|
      .cons (Fits.location r.location) <| .cons (Fits.isoformat u) <| .cons (Fits.isoformat v) <|
      .cons (Fits.int hidle) <| .cons (Fits.int hready) <| .cons (Fits.cost hhourly) <|
      .cons (Fits.cost htotal) <| .cons (Fits.region hregion) .nil)⟩

theorem EnvironmentCapabilities.payload_fits {c : EnvironmentCapabilities}
    (h : isStableToken c.provider_id = true) (md : ModelDump) :
    ∃ n, Fits f 2 (.dict (c.payload md)) n := by
  obtain ⟨n, hsurfaces⟩ : ∃ n, Fits f 1 (sortedTexts Surface.text c.surfaces) n :=
    Fits.sortedTexts Surface.text_ascii _
  obtain ⟨m, hoperations⟩ : ∃ n, Fits f 1 (sortedTexts ComputerCapability.text c.operations) n :=
    Fits.sortedTexts ComputerCapability.text_ascii _
  have hbool : ∀ b, Fits f 1 (.bool b) 5 := fun b => ⟨trivial, trivial, Nat.zero_le _, le_rfl⟩
  exact ⟨_, Fits.dict payload_nodup rfl
    (.cons (Fits.int (by decide)) <| .cons (Fits.token h) <| .cons (Fits.location c.location) <|
      .cons hsurfaces <| .cons hoperations <| .cons (hbool _) <| .cons (hbool _) .nil)⟩

theorem EnvironmentQuote.payload_fits {q : EnvironmentQuote} (hid : q.Identified)
    (hpriced : q.Priced) (md : ModelDump) (u : Moment) :
    ∃ n, Fits f 3 (.dict (q.payload md u)) n := by
  obtain ⟨⟨hquote, hrequest, hsha⟩, hscope, hprovider, hregion⟩ := hid
  obtain ⟨⟨hhourly, htotal⟩, hoffered, -⟩ := hpriced
  obtain ⟨n, hcapabilities⟩ : ∃ n, Fits f 2 (.dict (q.capabilities.payload md)) n :=
    EnvironmentCapabilities.payload_fits hoffered md
  refine ⟨_, Fits.object payload_nodup ?_ ?_⟩
  · rw [payload_eq]
    simp +decide [entry]
  · rw [payload_eq]
    simp only [List.forall_mem_cons, entry]
    exact ⟨⟨_, Fits.int (by decide)⟩, ⟨_, Fits.token hquote⟩, ⟨_, Fits.token hrequest⟩,
      ⟨_, Fits.digest hsha⟩, ⟨_, (Fits.scope hscope).mono le_rfl (by decide)⟩,
      ⟨_, Fits.token hprovider⟩, ⟨_, Fits.location q.location⟩, ⟨_, Fits.region hregion⟩,
      ⟨_, Fits.isoformat u⟩, ⟨_, Fits.cost hhourly⟩, ⟨_, Fits.cost htotal⟩, ⟨n, hcapabilities⟩,
      by simp⟩

end

/-! Instants. -/

theorem Moment.toUtc_congr {m u : Moment} (h : m.instant = u.instant) : m.toUtc = u.toUtc := by
  unfold toUtc
  simp only [h]

theorem Moment.toUtc_inj {m u w : Moment} (hm : m.toUtc = some w) (hu : u.toUtc = some w) :
    m.instant = u.instant :=
  (toUtc_instant hm).1.symm.trans (toUtc_instant hu).1

/-- A number of seconds that is no more than a `total_seconds()`. -/
theorem le_of_not_exceeds {seconds span : Nat} (h : exceedsTotalSeconds seconds span = false) :
    seconds ≤ span / 1000000 + 1 := by
  simp only [exceedsTotalSeconds, decide_eq_false_iff_not, not_lt] at h
  generalize 52 - Nat.log2 (span / 1000000) = k at h
  have hround : roundHalfEven (span * 2 ^ k) 1000000 ≤ span * 2 ^ k / 1000000 + 1 := by
    unfold roundHalfEven
    split <;> omega
  have hspan : span < (span / 1000000 + 1) * 1000000 := by omega
  have hscaled : span * 2 ^ k / 1000000 < (span / 1000000 + 1) * 2 ^ k := by
    apply Nat.div_lt_of_lt_mul
    calc span * 2 ^ k < (span / 1000000 + 1) * 1000000 * 2 ^ k :=
          Nat.mul_lt_mul_of_pos_right hspan (Nat.two_pow_pos k)
      _ = 1000000 * ((span / 1000000 + 1) * 2 ^ k) := by ring
  have hle : seconds * 2 ^ k ≤ (span / 1000000 + 1) * 2 ^ k := by omega
  exact Nat.le_of_mul_le_mul_right hle (Nat.two_pow_pos k)

variable {Zone : Type} {tz : Zones Zone}

namespace ZonedRequest

variable [DecidableEq Zone]

/-- A request that passed its validation. -/
structure Validated (r : ZonedRequest tz) : Prop where
  identified : r.Identified
  priced : r.Priced
  bounded : r.BoundedLifetime
  requested : ∃ o, r.requested_at.offset = some o ∧ o % MINUTE = 0
  expires : ∃ o, r.expires_at.offset = some o ∧ o % MINUTE = 0

theorem validate_validated {r s : ZonedRequest tz} (h : r.validate = some s) : s.Validated := by
  unfold validate at h
  simp only [Option.bind_eq_bind, Option.bind_eq_some_iff, Option.guard_eq_some', exists_const,
    Option.pure_def, Option.some.injEq, Sigma.exists] at h
  obtain ⟨hid, u, w, hrequested, v, x, hexpires, hpriced, hbounded, rfl⟩ := h
  obtain ⟨o, ho, hminute, -⟩ := tz.validate_cases _ hrequested
  obtain ⟨o', ho', hminute', -⟩ := tz.validate_cases _ hexpires
  exact ⟨hid, hpriced, hbounded, ⟨o, ho, hminute⟩, ⟨o', ho', hminute'⟩⟩

/-- A validated request passes again as it is. -/
theorem Validated.validate_eq {r : ZonedRequest tz} (h : r.Validated) : r.validate = some r := by
  obtain ⟨o, ho, hminute⟩ := h.requested
  obtain ⟨o', ho', hminute'⟩ := h.expires
  unfold validate
  rw [tz.validate_whole r.requested ho hminute, tz.validate_whole r.expires ho' hminute']
  simp only [Option.bind_eq_bind, Option.bind_some, guard, if_pos h.identified, if_pos h.priced,
    if_pos h.bounded, Option.pure_def]

/-- The timeouts are within the range of the datetimes. -/
theorem Validated.timeouts {r : ZonedRequest tz} (h : r.Validated) :
    r.idle_ttl_seconds.natAbs < 10 ^ 20 ∧ r.ready_timeout_seconds.natAbs < 10 ^ 20 := by
  have hspan : r.lifetime < 10 ^ 18 := by
    have hmoment : ∀ (d : Datetime Zone), d.clock < SPAN ∧
        d.instant tz - d.clock < DAY ∧ d.clock - d.instant tz < DAY := by
      intro d
      have hclock := d.clock_lt
      have hbound : ((d.utcoffset tz).getD 0).natAbs < DAY := by
        cases ho : d.utcoffset tz with
        | none => exact Nat.succ_pos _
        | some o => exact (d.moment tz).offset_lt o ho
      rw [Datetime.instant_eq]
      omega
    have h1 := hmoment r.expires.1
    have h2 := hmoment r.requested.1
    unfold SPAN DAY at h1 h2
    unfold lifetime Datetime.minus
    split <;> omega
  have hle := le_of_not_exceeds h.bounded.2.1
  have hpositive := h.priced.1
  omega

end ZonedRequest

namespace ZonedQuote

/-- A quote that passed its validation. -/
structure Validated (q : ZonedQuote tz) : Prop where
  identified : q.Identified
  priced : q.Priced
  expires : ∃ o, q.expires_at.offset = some o ∧ o % MINUTE = 0

theorem validate_validated {q p : ZonedQuote tz} (h : q.validate = some p) : p.Validated := by
  unfold validate at h
  simp only [Option.bind_eq_bind, Option.bind_eq_some_iff, Option.guard_eq_some', exists_const,
    Option.pure_def, Option.some.injEq, Sigma.exists] at h
  obtain ⟨hid, u, w, hexpires, hpriced, rfl⟩ := h
  obtain ⟨o, ho, hminute, -⟩ := tz.validate_cases _ hexpires
  exact ⟨hid, hpriced, o, ho, hminute⟩

theorem Validated.validate_eq {q : ZonedQuote tz} (h : q.Validated) : q.validate = some q := by
  obtain ⟨o, ho, hminute⟩ := h.expires
  unfold validate
  rw [tz.validate_whole q.expires ho hminute]
  simp only [Option.bind_eq_bind, Option.bind_some, guard, if_pos h.identified, if_pos h.priced,
    Option.pure_def]

end ZonedQuote

end KestrelSdk.ComputerUse

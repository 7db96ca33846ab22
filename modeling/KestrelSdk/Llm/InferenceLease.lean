import KestrelSdk.ComputerUse.Models
import KestrelSdk.Numbers.Double
import Mathlib.Data.Rat.Cast.Order
import Mathlib.Tactic.Positivity
import KestrelSdk.Order.Checks

/-! Leases of inference capacity against the request and the quote they come from. -/

namespace KestrelSdk.Llm

open Json (Str str)
open ComputerUse (SPAN span_pos)
open Encoding (DAY)
open Numbers (trueDivide floatGt nearest trueDivide_of_lt not_floatGt_iff)
open Checks (andThen_ok ok_bind)

/-- `_IDENTIFIER_RE.fullmatch`. -/
def isIdentifier : Str → Bool
  | [] => false
  | c :: s => Features.isAlnum c && s.length ≤ 255 &&
    s.all fun d => Features.isAlnum d || d == 46 || d == 95 || d == 58 || d == 47 || d == 45

/-- What `_validate_identifier` returns. -/
structure Identifier where
  text : Str
  valid : isIdentifier text = true
  deriving DecidableEq

/-- What `_validate_identifier(...).lower()` returns. -/
structure LowerIdentifier extends Identifier where
  lower : ∀ c ∈ text, ¬ (65 ≤ c ∧ c ≤ 90)
  deriving DecidableEq

inductive InferencePrivacy where
  | private_network
  | authenticated_endpoint
  | public_endpoint
  deriving DecidableEq

/-- `_PRIVACY_EXPOSURE`. -/
def privacyExposure : InferencePrivacy → Nat
  | .private_network => 0
  | .authenticated_endpoint => 1
  | .public_endpoint => 2

/-- `_privacy_satisfies`. -/
def privacySatisfies (delivered permitted : InferencePrivacy) : Bool :=
  privacyExposure delivered ≤ privacyExposure permitted

/-- A `Decimal` that `_money` returns: finite, and negative only where it is a zero. -/
structure Money where
  negative : Bool
  digits : Nat
  exponent : Int
  nonneg : negative = true → digits = 0
  deriving DecidableEq

namespace Money

/-- The coefficient at a lower exponent. -/
def padded (m : Money) (low : Int) : Nat := m.digits * 10 ^ (m.exponent - low).toNat

/-- `m > n`, which pads the coefficients to one exponent. -/
def gt (m n : Money) : Bool :=
  n.padded (min m.exponent n.exponent) < m.padded (min m.exponent n.exponent)

def value (m : Money) : ℚ := m.digits * (10 : ℚ) ^ m.exponent

theorem padded_cast (m : Money) {low : Int} (h : low ≤ m.exponent) :
    (m.padded low : ℚ) * (10 : ℚ) ^ low = m.value := by
  have hten : (10 : ℚ) ≠ 0 := by norm_num
  have hexp : ((m.exponent - low).toNat : Int) = m.exponent - low :=
    Int.toNat_of_nonneg (Int.sub_nonneg_of_le h)
  rw [padded, Nat.cast_mul, Nat.cast_pow, Nat.cast_ofNat, ← zpow_natCast, hexp, mul_assoc,
    ← zpow_add₀ hten, Int.sub_add_cancel, value]

theorem gt_iff (m n : Money) : m.gt n = true ↔ n.value < m.value := by
  have hpos : (0 : ℚ) < (10 : ℚ) ^ min m.exponent n.exponent := zpow_pos (by norm_num) _
  rw [gt, decide_eq_true_eq, ← padded_cast m (Int.min_le_left ..),
    ← padded_cast n (Int.min_le_right ..), mul_lt_mul_iff_left₀ hpos, Nat.cast_lt]

end Money

/-- An aware `datetime` in UTC: microseconds since the first midnight of year 1. -/
structure Timestamp where
  clock : Nat
  clock_lt : clock < SPAN

theorem Timestamp.eq_iff {a b : Timestamp} : a.clock = b.clock ↔ a = b := by
  cases a
  cases b
  simp

instance : DecidableEq Timestamp := fun a b => decidable_of_iff (a.clock = b.clock) Timestamp.eq_iff

inductive LeaseError where
  /-- `InferenceLeaseConstraintError`. -/
  | constraint (message : String)
  /-- `OverflowError`. -/
  | overflow
  deriving DecidableEq

/-- `later - earlier`, in microseconds. A `timedelta` has at most 999999999 days. -/
def Timestamp.since (later earlier : Timestamp) : Except LeaseError Int :=
  let span : Int := later.clock - earlier.clock
  if 999999999 < (span / DAY).natAbs then .error .overflow else .ok span

/-- `timedelta.total_seconds()`. -/
def totalSeconds (span : Int) : Except LeaseError Int :=
  (trueDivide span 1000000).elim (.error .overflow) .ok

/-- What validation reads of a request, past `__post_init__`. -/
structure InferenceLeaseRequest where
  request_id : Identifier
  owner_id : Identifier
  model : Identifier
  runtime : LowerIdentifier
  max_hourly_cost_usd : Money
  max_total_cost_usd : Money
  privacy : InferencePrivacy
  allowed_regions : List LowerIdentifier
  expected_session_seconds : Int
  ready_deadline_seconds : Int
  requested_at : Timestamp
  regions_nodup : allowed_regions.Nodup
  session_pos : 0 < expected_session_seconds
  ready_pos : 0 < ready_deadline_seconds

/-- What validation reads of a quote, past `__post_init__`. -/
structure InferenceLeaseQuote where
  quote_id : Identifier
  request_id : Identifier
  provider_name : LowerIdentifier
  runtime : LowerIdentifier
  region : LowerIdentifier
  privacy : InferencePrivacy
  hourly_cost_usd : Money
  estimated_total_cost_usd : Money
  estimated_ready_seconds : Int
  expires_at : Timestamp
  ready_nonneg : 0 ≤ estimated_ready_seconds

/-- What validation reads of a lease, past `__post_init__`. -/
structure InferenceLease where
  quote_id : Identifier
  request_id : Identifier
  owner_id : Identifier
  provider_name : LowerIdentifier
  model : Identifier
  runtime : LowerIdentifier
  privacy : InferencePrivacy
  created_at : Timestamp
  expires_at : Timestamp
  region : Option LowerIdentifier
  hourly_cost_usd : Option Money
  estimated_total_cost_usd : Option Money
  created_before : created_at.clock < expires_at.clock

/-- A check that raises `InferenceLeaseConstraintError`. -/
def refuse (c : Prop) [Decidable c] (message : String) : Except LeaseError Unit :=
  if c then .error (.constraint message) else .ok ()

def InferenceLeaseQuote.validateFor (quote : InferenceLeaseQuote)
    (request : InferenceLeaseRequest) (current : Timestamp) : Except LeaseError Unit := do
  refuse (quote.request_id ≠ request.request_id) "quote request_id does not match request"
  refuse (quote.runtime ≠ request.runtime) "quote runtime does not match request"
  refuse (privacySatisfies quote.privacy request.privacy = false)
    "quote privacy is weaker than requested"
  refuse (request.allowed_regions ≠ [] ∧ quote.region ∉ request.allowed_regions)
    "quote region is not allowed"
  refuse (quote.hourly_cost_usd.gt request.max_hourly_cost_usd)
    "quote exceeds maximum hourly cost"
  refuse (quote.estimated_total_cost_usd.gt request.max_total_cost_usd)
    "quote exceeds maximum total cost"
  refuse (request.ready_deadline_seconds < quote.estimated_ready_seconds)
    "quote exceeds readiness deadline"
  refuse (quote.expires_at.clock ≤ current.clock) "quote is expired"

/-- Whether a cost is absent, or above the maximum or the quoted one. -/
def costRefused (cost : Option Money) (most quoted : Money) : Bool :=
  match cost with
  | none => true
  | some c => c.gt most || c.gt quoted

/-- Whether a region is absent or not allowed. -/
def regionRefused (region : Option LowerIdentifier) (allowed : List LowerIdentifier) : Prop :=
  match region with
  | none => True
  | some g => allowed ≠ [] ∧ g ∉ allowed

instance (region : Option LowerIdentifier) (allowed : List LowerIdentifier) :
    Decidable (regionRefused region allowed) :=
  match region with
  | none => isTrue trivial
  | some g => inferInstanceAs (Decidable (allowed ≠ [] ∧ g ∉ allowed))

/-- The last check, which compares elapsed seconds. -/
def InferenceLease.refuseLifetime (lease : InferenceLease) (request : InferenceLeaseRequest) :
    Except LeaseError Unit := do
  let allowed_lifetime_seconds :=
    request.ready_deadline_seconds + request.expected_session_seconds
  let span ← lease.expires_at.since request.requested_at
  let lease_lifetime_seconds ← totalSeconds span
  refuse (floatGt lease_lifetime_seconds allowed_lifetime_seconds)
    "lease expiry exceeds request session deadline"

def InferenceLease.validateFor (lease : InferenceLease) (request : InferenceLeaseRequest)
    (quote : InferenceLeaseQuote) : Except LeaseError Unit := do
  refuse (lease.request_id ≠ request.request_id ∨ lease.owner_id ≠ request.owner_id)
    "lease request or owner does not match"
  refuse (lease.quote_id ≠ quote.quote_id) "lease quote_id does not match quote"
  refuse (lease.provider_name ≠ quote.provider_name) "lease provider does not match quote"
  refuse (lease.model ≠ request.model ∨ lease.runtime ≠ request.runtime)
    "lease model or runtime does not match"
  refuse (privacySatisfies lease.privacy request.privacy = false)
    "lease privacy is weaker than requested"
  refuse (regionRefused lease.region request.allowed_regions) "lease region is not allowed"
  refuse (costRefused lease.hourly_cost_usd request.max_hourly_cost_usd quote.hourly_cost_usd)
    "lease exceeds quoted or maximum hourly cost"
  refuse (costRefused lease.estimated_total_cost_usd request.max_total_cost_usd
    quote.estimated_total_cost_usd) "lease exceeds quoted or maximum total cost"
  lease.refuseLifetime request

/-! The checks. -/

theorem refuse_ok {c : Prop} [Decidable c] {message : String} :
    refuse c message = .ok () ↔ ¬ c := by
  unfold refuse
  split <;> simp_all

/-- The only error is a constraint. -/
def OnlyConstraint {α : Type} (x : Except LeaseError α) : Prop :=
  ∀ e, x = .error e → ∃ message, e = .constraint message

theorem OnlyConstraint.refuse (c : Prop) [Decidable c] (message : String) :
    OnlyConstraint (refuse c message) := by
  intro e he
  unfold Llm.refuse at he
  split at he
  · exact ⟨message, (Except.error.inj he).symm⟩
  · contradiction

theorem OnlyConstraint.bind {α β : Type} {x : Except LeaseError α} {f : α → Except LeaseError β}
    (hx : OnlyConstraint x) (hf : ∀ a, x = .ok a → OnlyConstraint (f a)) :
    OnlyConstraint (x >>= f) := by
  cases x with
  | error e =>
    intro e' he
    obtain rfl := Except.error.inj he
    exact hx e rfl
  | ok a => exact hf a rfl

/-! The lifetime. -/

/-- Two datetimes are never too far apart for a `timedelta`. -/
theorem since_ok (later earlier : Timestamp) :
    later.since earlier = .ok ((later.clock : Int) - earlier.clock) := by
  have hl := later.clock_lt
  have he := earlier.clock_lt
  have hspan : SPAN = 3652059 * 86400000000 := rfl
  have hday : ((DAY : Nat) : Int) = 86400000000 := rfl
  unfold Timestamp.since
  rw [if_neg]
  rw [hday]
  omega

/-- The seconds of a span between datetimes are a float. -/
theorem totalSeconds_ok {span : Int} (h : span.natAbs < 2 ^ 52 * 1000000) :
    totalSeconds span = .ok (span.sign * nearest span.natAbs 1000000) := by
  have hdouble := trueDivide_of_lt (by decide : 0 < 1000000) h
  rw [totalSeconds, hdouble, Option.elim_some]

/-- The microseconds by which an expiry passes the allowed seconds. -/
def overrun (lease : InferenceLease) (request : InferenceLeaseRequest) : Int :=
  lease.expires_at.clock - request.requested_at.clock -
    (request.ready_deadline_seconds + request.expected_session_seconds) * 1000000

/-- The allowed seconds as a float have no room for the overrun: it is at most half of the last of
their 53 bits. -/
def RoundedAway (lease : InferenceLease) (request : InferenceLeaseRequest) : Prop :=
  0 < overrun lease request ∧ overrun lease request * 2 ^ (53 - Nat.log2
    (request.ready_deadline_seconds + request.expected_session_seconds).toNat) ≤ 1000000

theorem lifetime_ok (lease : InferenceLease) (request : InferenceLeaseRequest) :
    ∃ span seconds, lease.expires_at.since request.requested_at = .ok span ∧
      totalSeconds span = .ok seconds ∧
      (floatGt seconds (request.ready_deadline_seconds + request.expected_session_seconds) = false ↔
        overrun lease request ≤ 0 ∨ RoundedAway lease request) := by
  have hl := lease.expires_at.clock_lt
  have he := request.requested_at.clock_lt
  have hspan : SPAN = 3652059 * 86400000000 := rfl
  have hnear : ((lease.expires_at.clock : Int) - request.requested_at.clock).natAbs <
      2 ^ 52 * 1000000 := by omega
  have hallowed := Int.add_pos request.ready_pos request.session_pos
  refine ⟨_, _, since_ok _ _, totalSeconds_ok hnear, ?_⟩
  have hnot := not_floatGt_iff (by decide : 0 < 1000000) hnear hallowed
  have hover : overrun lease request ≤ 0 ↔ (lease.expires_at.clock : Int) -
      request.requested_at.clock ≤
        (request.ready_deadline_seconds + request.expected_session_seconds) * 1000000 := by
    rw [overrun]
    omega
  rw [hnot, hover, RoundedAway, Nat.cast_ofNat, ← overrun]
  rcases le_or_gt (overrun lease request) 0 with hle | hgt
  · exact iff_of_true (.inl (hover.1 hle)) (.inl (hover.1 hle))
  · exact or_congr_right (iff_and_self.2 fun _ => hgt)

theorem refuseLifetime_ok {lease : InferenceLease} {request : InferenceLeaseRequest} :
    lease.refuseLifetime request = .ok () ↔
      overrun lease request ≤ 0 ∨ RoundedAway lease request := by
  obtain ⟨span, seconds, hspan, hseconds, hlifetime⟩ := lifetime_ok lease request
  rw [InferenceLease.refuseLifetime, hspan, ok_bind, hseconds, ok_bind, refuse_ok,
    Bool.not_eq_true, hlifetime]

theorem refuseLifetime_only (lease : InferenceLease) (request : InferenceLeaseRequest) :
    OnlyConstraint (lease.refuseLifetime request) := by
  obtain ⟨span, seconds, hspan, hseconds, -⟩ := lifetime_ok lease request
  rw [InferenceLease.refuseLifetime, hspan, ok_bind, hseconds, ok_bind]
  exact OnlyConstraint.refuse _ _

/-! What the two methods check. -/

/-- The region is present and allowed. -/
def RegionAllowed (region : Option LowerIdentifier) (allowed : List LowerIdentifier) : Prop :=
  ∃ g, region = some g ∧ (allowed = [] ∨ g ∈ allowed)

/-- The cost is present and at most each of two amounts. -/
def CostWithin (cost : Option Money) (most quoted : Money) : Prop :=
  ∃ c, cost = some c ∧ c.value ≤ most.value ∧ c.value ≤ quoted.value

theorem regionRefused_iff (region : Option LowerIdentifier) (allowed : List LowerIdentifier) :
    ¬ regionRefused region allowed ↔ RegionAllowed region allowed := by
  cases region with
  | none => simp [regionRefused, RegionAllowed]
  | some g => simp [regionRefused, RegionAllowed, or_iff_not_imp_left]

theorem costRefused_iff {cost : Option Money} {most quoted : Money} :
    ¬ costRefused cost most quoted = true ↔ CostWithin cost most quoted := by
  cases cost with
  | none => simp [costRefused, CostWithin]
  | some c =>
    rw [costRefused, Bool.or_eq_true, Money.gt_iff, Money.gt_iff, not_or, not_lt, not_lt]
    constructor
    · intro h
      exact ⟨c, rfl, h⟩
    · rintro ⟨c', hc, h⟩
      rw [Option.some.inj hc]
      exact h

/-- What `InferenceLeaseQuote.validate_for` checks. -/
structure QuoteMeets (quote : InferenceLeaseQuote) (request : InferenceLeaseRequest)
    (current : Timestamp) : Prop where
  request_id : quote.request_id = request.request_id
  runtime : quote.runtime = request.runtime
  privacy : privacyExposure quote.privacy ≤ privacyExposure request.privacy
  region : RegionAllowed (some quote.region) request.allowed_regions
  hourly : quote.hourly_cost_usd.value ≤ request.max_hourly_cost_usd.value
  total : quote.estimated_total_cost_usd.value ≤ request.max_total_cost_usd.value
  ready : quote.estimated_ready_seconds ≤ request.ready_deadline_seconds
  current : current.clock < quote.expires_at.clock

/-- What `InferenceLease.validate_for` checks. -/
structure LeaseMeets (lease : InferenceLease) (request : InferenceLeaseRequest)
    (quote : InferenceLeaseQuote) : Prop where
  request_id : lease.request_id = request.request_id
  owner_id : lease.owner_id = request.owner_id
  quote_id : lease.quote_id = quote.quote_id
  provider_name : lease.provider_name = quote.provider_name
  model : lease.model = request.model
  runtime : lease.runtime = request.runtime
  privacy : privacyExposure lease.privacy ≤ privacyExposure request.privacy
  region : RegionAllowed lease.region request.allowed_regions
  hourly : CostWithin lease.hourly_cost_usd request.max_hourly_cost_usd quote.hourly_cost_usd
  total : CostWithin lease.estimated_total_cost_usd request.max_total_cost_usd
    quote.estimated_total_cost_usd
  lifetime : overrun lease request ≤ 0 ∨ RoundedAway lease request

theorem privacySatisfies_iff {delivered permitted : InferencePrivacy} :
    ¬ privacySatisfies delivered permitted = false ↔
      privacyExposure delivered ≤ privacyExposure permitted := by
  rw [Bool.not_eq_false, privacySatisfies, decide_eq_true_eq]

theorem quote_validateFor_ok {quote : InferenceLeaseQuote} {request : InferenceLeaseRequest}
    {current : Timestamp} :
    quote.validateFor request current = .ok () ↔ QuoteMeets quote request current := by
  have hregion : ¬ (request.allowed_regions ≠ [] ∧ quote.region ∉ request.allowed_regions) ↔
      RegionAllowed (some quote.region) request.allowed_regions :=
    regionRefused_iff (some quote.region) _
  simp only [InferenceLeaseQuote.validateFor, andThen_ok, refuse_ok, hregion, not_not,
    privacySatisfies_iff, Money.gt_iff, not_lt, not_le]
  constructor
  · rintro ⟨h₁, h₂, h₃, h₄, h₅, h₆, h₇, h₈⟩
    exact ⟨h₁, h₂, h₃, h₄, h₅, h₆, h₇, h₈⟩
  · rintro ⟨h₁, h₂, h₃, h₄, h₅, h₆, h₇, h₈⟩
    exact ⟨h₁, h₂, h₃, h₄, h₅, h₆, h₇, h₈⟩

theorem lease_validateFor_ok {lease : InferenceLease} {request : InferenceLeaseRequest}
    {quote : InferenceLeaseQuote} :
    lease.validateFor request quote = .ok () ↔ LeaseMeets lease request quote := by
  simp only [InferenceLease.validateFor, andThen_ok, refuse_ok, not_or, not_not,
    privacySatisfies_iff, regionRefused_iff, costRefused_iff, refuseLifetime_ok]
  constructor
  · rintro ⟨⟨h₁, h₂⟩, h₃, h₄, ⟨h₅, h₆⟩, h₇, h₈, h₉, h₁₀, h₁₁⟩
    exact ⟨h₁, h₂, h₃, h₄, h₅, h₆, h₇, h₈, h₉, h₁₀, h₁₁⟩
  · rintro ⟨h₁, h₂, h₃, h₄, h₅, h₆, h₇, h₈, h₉, h₁₀, h₁₁⟩
    exact ⟨⟨h₁, h₂⟩, h₃, h₄, ⟨h₅, h₆⟩, h₇, h₈, h₉, h₁₀, h₁₁⟩

theorem lease_validateFor_only (lease : InferenceLease) (request : InferenceLeaseRequest)
    (quote : InferenceLeaseQuote) : OnlyConstraint (lease.validateFor request quote) := by
  unfold InferenceLease.validateFor
  apply (OnlyConstraint.refuse _ _).bind
  intro _ _
  apply (OnlyConstraint.refuse _ _).bind
  intro _ _
  apply (OnlyConstraint.refuse _ _).bind
  intro _ _
  apply (OnlyConstraint.refuse _ _).bind
  intro _ _
  apply (OnlyConstraint.refuse _ _).bind
  intro _ _
  apply (OnlyConstraint.refuse _ _).bind
  intro _ _
  apply (OnlyConstraint.refuse _ _).bind
  intro _ _
  apply (OnlyConstraint.refuse _ _).bind
  intro _ _
  exact refuseLifetime_only lease request

/-! What a lease owes to its request and its quote. -/

structure Honours (lease : InferenceLease) (request : InferenceLeaseRequest)
    (quote : InferenceLeaseQuote) : Prop where
  request_id : lease.request_id = request.request_id
  owner_id : lease.owner_id = request.owner_id
  model : lease.model = request.model
  runtime : lease.runtime = request.runtime
  quote_id : lease.quote_id = quote.quote_id
  provider_name : lease.provider_name = quote.provider_name
  region_quoted : lease.region = some quote.region
  region_allowed : RegionAllowed lease.region request.allowed_regions
  privacy_quoted : privacyExposure lease.privacy ≤ privacyExposure quote.privacy
  privacy_requested : privacyExposure lease.privacy ≤ privacyExposure request.privacy
  hourly : CostWithin lease.hourly_cost_usd request.max_hourly_cost_usd quote.hourly_cost_usd
  total : CostWithin lease.estimated_total_cost_usd request.max_total_cost_usd
    quote.estimated_total_cost_usd
  lifetime : (lease.expires_at.clock : Int) - request.requested_at.clock ≤
    (request.ready_deadline_seconds + request.expected_session_seconds) * 1000000

/-- What passed both validations honours the request and the quote, and the second raises nothing
but constraint errors. -/
def LeaseSound (lease : InferenceLease) (request : InferenceLeaseRequest)
    (quote : InferenceLeaseQuote) (current : Timestamp) : Prop :=
  (quote.validateFor request current = .ok () → lease.validateFor request quote = .ok () →
    Honours lease request quote) ∧
  ∀ e, lease.validateFor request quote = .error e → ∃ message, e = .constraint message

/-- What both methods compare agrees, and what neither compares does not: the regions of the lease
and the quote, their privacy, or an overrun that the float does not show. -/
def Slips (lease : InferenceLease) (request : InferenceLeaseRequest)
    (quote : InferenceLeaseQuote) (current : Timestamp) : Prop :=
  QuoteMeets quote request current ∧ LeaseMeets lease request quote ∧
    (lease.region ≠ some quote.region ∨
      privacyExposure quote.privacy < privacyExposure lease.privacy ∨ RoundedAway lease request)

theorem honours_of_meets {lease : InferenceLease} {request : InferenceLeaseRequest}
    {quote : InferenceLeaseQuote} (h : LeaseMeets lease request quote)
    (hregion : lease.region = some quote.region)
    (hprivacy : privacyExposure lease.privacy ≤ privacyExposure quote.privacy)
    (hround : ¬ RoundedAway lease request) : Honours lease request quote := by
  have hover := h.lifetime.resolve_right hround
  rw [overrun] at hover
  exact ⟨h.request_id, h.owner_id, h.model, h.runtime, h.quote_id, h.provider_name, hregion,
    h.region, hprivacy, h.privacy, h.hourly, h.total, by omega⟩

/-- A validated lease honours its request and its quote exactly where none of the three slips. -/
theorem lease_honours_iff (lease : InferenceLease) (request : InferenceLeaseRequest)
    (quote : InferenceLeaseQuote) (current : Timestamp) :
    LeaseSound lease request quote current ↔ ¬ Slips lease request quote current := by
  rw [LeaseSound, quote_validateFor_ok, lease_validateFor_ok]
  constructor
  · rintro ⟨hhonours, -⟩ ⟨hquote, hlease, hslip⟩
    have h := hhonours hquote hlease
    rcases hslip with hregion | hprivacy | hround
    · exact hregion h.region_quoted
    · exact absurd h.privacy_quoted (Nat.not_le.2 hprivacy)
    · have hover := hround.1
      have hlifetime := h.lifetime
      rw [overrun] at hover
      omega
  · intro hslip
    refine ⟨?_, lease_validateFor_only lease request quote⟩
    intro hquote hlease
    have hnone : ¬ (lease.region ≠ some quote.region ∨
        privacyExposure quote.privacy < privacyExposure lease.privacy ∨
        RoundedAway lease request) := fun h => hslip ⟨hquote, hlease, h⟩
    rw [not_or, not_or, not_not, Nat.not_lt] at hnone
    exact honours_of_meets hlease hnone.1 hnone.2.1 hnone.2.2

def sampleIdentifier : Identifier := ⟨str "a", by decide⟩

def sampleLower : LowerIdentifier := ⟨sampleIdentifier, by decide⟩

def freeMoney : Money := ⟨false, 0, 0, nofun⟩

def sampleRequest : InferenceLeaseRequest where
  request_id := sampleIdentifier
  owner_id := sampleIdentifier
  model := sampleIdentifier
  runtime := sampleLower
  max_hourly_cost_usd := freeMoney
  max_total_cost_usd := freeMoney
  privacy := .public_endpoint
  allowed_regions := []
  expected_session_seconds := 1
  ready_deadline_seconds := 1
  requested_at := ⟨0, span_pos⟩
  regions_nodup := .nil
  session_pos := Int.one_pos
  ready_pos := Int.one_pos

def sampleQuote : InferenceLeaseQuote where
  quote_id := sampleIdentifier
  request_id := sampleIdentifier
  provider_name := sampleLower
  runtime := sampleLower
  region := sampleLower
  privacy := .private_network
  hourly_cost_usd := freeMoney
  estimated_total_cost_usd := freeMoney
  estimated_ready_seconds := 0
  expires_at := ⟨1, by decide⟩
  ready_nonneg := by decide

/-- A lease in another region than the quoted one, with a public endpoint in place of a private
network. -/
def sampleLease : InferenceLease where
  quote_id := sampleIdentifier
  request_id := sampleIdentifier
  owner_id := sampleIdentifier
  provider_name := sampleLower
  model := sampleIdentifier
  runtime := sampleLower
  privacy := .public_endpoint
  created_at := ⟨0, span_pos⟩
  expires_at := ⟨1000000, by decide⟩
  region := some ⟨⟨str "b", by decide⟩, by decide⟩
  hourly_cost_usd := some freeMoney
  estimated_total_cost_usd := some freeMoney
  created_before := by decide

/-- Both validations pass, and the lease is neither in the quoted region nor as private as quoted. -/
theorem sampleLease_unsound :
    ¬ LeaseSound sampleLease sampleRequest sampleQuote ⟨0, by decide⟩ := by
  rintro ⟨hhonours, -⟩
  have hquote : sampleQuote.validateFor sampleRequest ⟨0, by decide⟩ = .ok () :=
    quote_validateFor_ok.2 ⟨rfl, rfl, by decide, ⟨_, rfl, .inl rfl⟩, le_refl _, le_refl _,
      by decide, by decide⟩
  have hlease : sampleLease.validateFor sampleRequest sampleQuote = .ok () :=
    lease_validateFor_ok.2 ⟨rfl, rfl, rfl, rfl, rfl, rfl, by decide, ⟨_, rfl, .inl rfl⟩,
      ⟨_, rfl, le_refl _, le_refl _⟩, ⟨_, rfl, le_refl _, le_refl _⟩, .inl (by decide)⟩
  have hregion := (hhonours hquote hlease).region_quoted
  exact absurd hregion (by decide)

end KestrelSdk.Llm

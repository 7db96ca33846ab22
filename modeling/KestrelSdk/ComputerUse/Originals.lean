import KestrelSdk.ComputerUse.HumanControl
import KestrelSdk.ComputerUse.Payload
import KestrelSdk.ComputerUse.Zones

/-! The originals of an acquisition, and the digests that bind a checkpoint to them. -/

namespace KestrelSdk.ComputerUse

open Json
open Encoding (DAY)
open Features (isStableToken)

variable {Zone : Type} [DecidableEq Zone]

/-! The checks of the fields that are no datetimes. -/

def EnvironmentRequest.Identified (r : EnvironmentRequest) : Prop :=
  isStableToken r.request_id = true ∧ r.scope.valid = true ∧ isStableToken r.provider_id = true ∧
    isStableToken r.profile_id = true ∧ isPinnedImage r.image = true

instance (r : EnvironmentRequest) : Decidable r.Identified := by
  unfold EnvironmentRequest.Identified; infer_instance

def EnvironmentRequest.Priced (r : EnvironmentRequest) : Prop :=
  (0 < r.idle_ttl_seconds ∧ 0 < r.ready_timeout_seconds) ∧
    (r.max_hourly_cost_usd.isUsd = true ∧ r.max_total_cost_usd.isUsd = true) ∧
    r.region.all isStableToken = true

instance (r : EnvironmentRequest) : Decidable r.Priced := by
  unfold EnvironmentRequest.Priced; infer_instance

def EnvironmentQuote.Identified (q : EnvironmentQuote) : Prop :=
  (isStableToken q.quote_id = true ∧ isStableToken q.request_id = true ∧
    isDigest q.request_sha256 = true) ∧ q.scope.valid = true ∧
    isStableToken q.provider_id = true ∧ q.region.all isStableToken = true

instance (q : EnvironmentQuote) : Decidable q.Identified := by
  unfold EnvironmentQuote.Identified; infer_instance

/-- The checks on the amounts and the capabilities, and `same_provider`. -/
def EnvironmentQuote.Priced (q : EnvironmentQuote) : Prop :=
  (q.hourly_cost_usd.isUsd = true ∧ q.estimated_total_cost_usd.isUsd = true) ∧
    isStableToken q.capabilities.provider_id = true ∧
    q.provider_id = q.capabilities.provider_id ∧ q.location = q.capabilities.location

instance (q : EnvironmentQuote) : Decidable q.Priced := by
  unfold EnvironmentQuote.Priced; infer_instance

/-- An `EnvironmentRequest` with the time zones of its datetimes. -/
structure ZonedRequest (tz : Zones Zone) extends EnvironmentRequest where
  requested : tz.Writing requested_at
  expires : tz.Writing expires_at

/-- An `EnvironmentQuote` with the time zone of its datetime. -/
structure ZonedQuote (tz : Zones Zone) extends EnvironmentQuote where
  expires : tz.Writing expires_at

/-- An `EnvironmentAcquisitionCheckpoint` with the time zone of its expiry. -/
structure ZonedCheckpoint (tz : Zones Zone) extends EnvironmentAcquisitionCheckpoint where
  expires : tz.Writing expires_at

variable {tz : Zones Zone}

namespace ZonedRequest

/-- `(expires_at - requested_at)` in microseconds. -/
def lifetime (r : ZonedRequest tz) : Int := r.expires.1.minus tz r.requested.1

/-- `bounded_lifetime`. -/
def BoundedLifetime (r : ZonedRequest tz) : Prop :=
  0 < r.lifetime ∧
    exceedsTotalSeconds (max r.idle_ttl_seconds r.ready_timeout_seconds).toNat r.lifetime.toNat =
      false ∧
    ComputerCapability.screenshot ∈ r.required_capabilities

instance (r : ZonedRequest tz) : Decidable r.BoundedLifetime := by
  unfold BoundedLifetime; infer_instance

/-- `EnvironmentRequest.model_validate`. -/
def validate (r : ZonedRequest tz) : Option (ZonedRequest tz) := do
  guard r.Identified
  let ⟨_, requested⟩ ← tz.validate r.requested
  let ⟨_, expires⟩ ← tz.validate r.expires
  guard r.Priced
  let checked : ZonedRequest tz :=
    { r with requested_at := _, expires_at := _, requested := requested, expires := expires }
  guard checked.BoundedLifetime
  return checked

/-- `a == b`. -/
structure Equal (a b : ZonedRequest tz) : Prop where
  requested : a.requested.1.eq tz b.requested.1 = true
  expires : a.expires.1.eq tz b.expires.1 = true
  hourly : a.max_hourly_cost_usd.eq b.max_hourly_cost_usd = true
  total : a.max_total_cost_usd.eq b.max_total_cost_usd = true
  rest : { a.toEnvironmentRequest with
    requested_at := b.requested_at, expires_at := b.expires_at,
    max_hourly_cost_usd := b.max_hourly_cost_usd, max_total_cost_usd := b.max_total_cost_usd } =
      b.toEnvironmentRequest

end ZonedRequest

namespace ZonedQuote

/-- `EnvironmentQuote.model_validate`. -/
def validate (q : ZonedQuote tz) : Option (ZonedQuote tz) := do
  guard q.Identified
  let ⟨_, expires⟩ ← tz.validate q.expires
  guard q.Priced
  return { q with expires_at := _, expires := expires }

/-- `a == b`. -/
structure Equal (a b : ZonedQuote tz) : Prop where
  expires : a.expires.1.eq tz b.expires.1 = true
  hourly : a.hourly_cost_usd.eq b.hourly_cost_usd = true
  total : a.estimated_total_cost_usd.eq b.estimated_total_cost_usd = true
  rest : { a.toEnvironmentQuote with
    expires_at := b.expires_at, hourly_cost_usd := b.hourly_cost_usd,
    estimated_total_cost_usd := b.estimated_total_cost_usd } = b.toEnvironmentQuote

end ZonedQuote

namespace ZonedCheckpoint

/-- `EnvironmentAcquisitionCheckpoint.model_validate`. -/
def validate (c : ZonedCheckpoint tz) : Option (ZonedCheckpoint tz) := do
  guard c.Identified
  let ⟨_, expires⟩ ← tz.validate c.expires
  let lease ← checkOptional EnvironmentLease.validate c.lease
  let checked : ZonedCheckpoint tz :=
    { c with expires_at := _, lease := lease, expires := expires }
  guard checked.CorrelatedFacts
  return checked

variable (lib : Digests)

/-- The checkpoint that `from_original` builds. -/
def unprepared (attempt_id : Str) (request : ZonedRequest tz) (quote : ZonedQuote tz)
    (request_sha256 quote_sha256 : Digest) : ZonedCheckpoint tz where
  attempt_id := attempt_id
  request_id := request.request_id
  request_sha256 := request_sha256.1
  quote_id := quote.quote_id
  quote_sha256 := quote_sha256.1
  scope := request.scope
  provider_id := request.provider_id
  location := request.location
  expires_at := request.expires_at
  sequence := 0
  state := .unprepared
  preparation_sha256 := none
  lease := none
  expires := request.expires

/-- What `from_original` asks of a quote. -/
def Quotes (quote : ZonedQuote tz) (request : ZonedRequest tz) (request_sha256 : Digest) : Prop :=
  quote.request_id = request.request_id ∧ quote.request_sha256 = request_sha256.1 ∧
    quote.scope = request.scope ∧ quote.provider_id = request.provider_id ∧
    quote.location = request.location

instance (quote : ZonedQuote tz) (request : ZonedRequest tz) (request_sha256 : Digest) :
    Decidable (Quotes quote request request_sha256) := by
  unfold Quotes; infer_instance

/-- `from_original`. -/
def fromOriginal (attempt_id : Str) (request : ZonedRequest tz) (quote : ZonedQuote tz) :
    Option (ZonedCheckpoint tz) := do
  let request ← request.validate
  let quote ← quote.validate
  let request_sha256 ← request.digest lib
  guard (Quotes quote request request_sha256)
  let quote_sha256 ← quoteDigest lib quote.toEnvironmentQuote
  (unprepared attempt_id request quote request_sha256 quote_sha256).validate

/-- The fields that `require_original` compares. -/
def SameOriginal (original expected : ZonedCheckpoint tz) : Prop :=
  (original.attempt_id = expected.attempt_id ∧ original.request_id = expected.request_id ∧
    original.request_sha256 = expected.request_sha256 ∧ original.quote_id = expected.quote_id ∧
    original.quote_sha256 = expected.quote_sha256 ∧ original.scope = expected.scope ∧
    original.provider_id = expected.provider_id ∧ original.location = expected.location) ∧
    original.expires.1.eq tz expected.expires.1 = true

instance (original expected : ZonedCheckpoint tz) : Decidable (SameOriginal original expected) := by
  unfold SameOriginal; infer_instance

/-- `require_original`. -/
def requireOriginal (self : ZonedCheckpoint tz) (request : ZonedRequest tz)
    (quote : ZonedQuote tz) : Option Unit := do
  let original ← self.validate
  let expected ← fromOriginal lib original.attempt_id request quote
  guard (SameOriginal original expected)

end ZonedCheckpoint

end KestrelSdk.ComputerUse

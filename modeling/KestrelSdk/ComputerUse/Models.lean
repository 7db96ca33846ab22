import KestrelSdk.Encoding.IsoFormat
import KestrelSdk.Features.Setup
import Mathlib.Data.Finset.Basic

namespace KestrelSdk.ComputerUse

open Json (Str str)
open Encoding (DAY)
open Features (isAlnum isStableToken)

/-- Microseconds between the first and the last `datetime`. -/
def SPAN : Nat := 3652059 * DAY

theorem span_pos : 0 < SPAN := by decide

theorem day_lt_span : DAY < SPAN := by decide

theorem utc_offset_lt : ∀ o ∈ some (0 : Int), o.natAbs < DAY := by
  rintro o ⟨⟩
  exact Nat.succ_pos _

/-- Microseconds in a minute. -/
def MINUTE : Int := 60000000

/-- A `datetime`: its clock, in microseconds since the first midnight of year 1, and its
`utcoffset()`. -/
structure Moment where
  clock : Nat
  offset : Option Int
  clock_lt : clock < SPAN
  offset_lt : ∀ o ∈ offset, o.natAbs < DAY
  deriving DecidableEq

namespace Moment

/-- The instant that an aware `datetime` stands for. Aware datetimes compare by it. -/
def instant (m : Moment) : Int := m.clock - m.offset.getD 0

/-- `value.astimezone(UTC)`, which overflows outside the supported range. -/
def toUtc (m : Moment) : Option Moment :=
  if h : 0 ≤ m.instant ∧ m.instant.toNat < SPAN then
    some ⟨m.instant.toNat, some 0, h.2, utc_offset_lt⟩
  else none

/-- `AwareDatetime` with `json_roundtrip_datetime`. -/
def validate (m : Moment) : Option Moment :=
  match m.offset with
  | none => none
  | some o => if o % MINUTE = 0 then some m else m.toUtc

theorem toUtc_instant {m u : Moment} (h : m.toUtc = some u) :
    u.instant = m.instant ∧ u.offset = some 0 := by
  unfold toUtc at h
  split at h
  · rename_i hrange
    obtain rfl := Option.some.inj h
    refine ⟨?_, rfl⟩
    change (m.instant.toNat : Int) - 0 = m.instant
    omega
  · cases h

theorem validate_instant {m u : Moment} (h : m.validate = some u) : u.instant = m.instant := by
  unfold validate at h
  split at h
  · cases h
  · split at h
    · obtain rfl := Option.some.inj h
      rfl
    · exact (toUtc_instant h).1

/-- A validated datetime passes again as it is. -/
theorem validate_idem {m u : Moment} (h : m.validate = some u) : u.validate = some u := by
  have hvalid : ∀ (w : Moment) (o : Int), w.offset = some o → o % MINUTE = 0 →
      w.validate = some w := by
    intro w o hw ho
    unfold validate
    rw [hw]
    exact if_pos ho
  unfold validate at h
  split at h
  · cases h
  · rename_i o ho
    split at h
    · rename_i hminute
      obtain rfl := Option.some.inj h
      exact hvalid m o ho hminute
    · exact hvalid u 0 (toUtc_instant h).2 (by decide)

end Moment

/-- A `Decimal`. -/
inductive Decimal where
  | finite (negative : Bool) (digits : Nat) (exponent : Int)
  | infinity (negative : Bool)
  | nan
  deriving DecidableEq

/-- `USD`: finite and not below zero. -/
def Decimal.isUsd : Decimal → Bool
  | .finite negative digits _ => !negative || digits == 0
  | _ => false

def isHex (c : Nat) : Bool := (97 ≤ c && c ≤ 102) || (48 ≤ c && c ≤ 57)

/-- The pattern of `ImageDigest`. -/
def isDigest (s : Str) : Bool := s.length == 64 && s.all isHex

/-- What `hexdigest()` of a SHA-256 returns. -/
abbrev Digest := { s : Str // isDigest s = true }

inductive Location where
  | local
  | remote
  deriving DecidableEq

inductive Surface where
  | browser
  | desktop
  deriving DecidableEq

inductive ComputerCapability where
  | screenshot
  | click
  | type
  | key
  | scroll
  | wait
  | navigate
  | accessibility
  | dom
  | clipboard
  | files
  | exec
  | takeover
  deriving DecidableEq

structure ResourceScope where
  tenant_id : Str
  principal_id : Str
  agent_id : Option Str
  deriving DecidableEq

def ResourceScope.valid (s : ResourceScope) : Bool :=
  isStableToken s.tenant_id && isStableToken s.principal_id && s.agent_id.all isStableToken

structure EnvironmentCapabilities where
  provider_id : Str
  location : Location
  surfaces : Finset Surface
  operations : Finset ComputerCapability
  profile_persistence : Bool
  cpu_only : Bool

structure EnvironmentRequest where
  request_id : Str
  scope : ResourceScope
  provider_id : Str
  profile_id : Str
  image : Str
  surface : Surface
  required_capabilities : Finset ComputerCapability
  location : Location
  requested_at : Moment
  expires_at : Moment
  idle_ttl_seconds : Int
  ready_timeout_seconds : Int
  max_hourly_cost_usd : Decimal
  max_total_cost_usd : Decimal
  region : Option Str

/-- A character of an image name: a letter, a digit, or a dot, low line, colon, slash or dash. -/
def isImageChar (c : Nat) : Bool :=
  isAlnum c || c == 46 || c == 95 || c == 58 || c == 47 || c == 45

/-- `PinnedImage`. -/
def isPinnedImage (s : Str) : Bool :=
  let name := s.takeWhile isImageChar
  let rest := s.dropWhile isImageChar
  s.length ≤ 2048 && name.head?.any isAlnum && rest.take 8 == str "@sha256:" &&
    isDigest (rest.drop 8)

/-- `(expires_at - requested_at)` in microseconds. -/
def EnvironmentRequest.lifetime (r : EnvironmentRequest) : Int :=
  r.expires_at.instant - r.requested_at.instant

/-- `EnvironmentRequest.model_validate`. -/
def EnvironmentRequest.validate (r : EnvironmentRequest) : Option EnvironmentRequest := do
  guard (isStableToken r.request_id && r.scope.valid && isStableToken r.provider_id &&
    isStableToken r.profile_id && isPinnedImage r.image)
  let requested_at ← r.requested_at.validate
  let expires_at ← r.expires_at.validate
  guard (0 < r.idle_ttl_seconds && 0 < r.ready_timeout_seconds && r.max_hourly_cost_usd.isUsd &&
    r.max_total_cost_usd.isUsd && r.region.all isStableToken)
  guard (0 < r.lifetime &&
    max r.idle_ttl_seconds r.ready_timeout_seconds * 1000000 ≤ r.lifetime &&
    decide (ComputerCapability.screenshot ∈ r.required_capabilities))
  return { r with requested_at := requested_at, expires_at := expires_at }

structure EnvironmentQuote where
  quote_id : Str
  request_id : Str
  request_sha256 : Str
  scope : ResourceScope
  provider_id : Str
  location : Location
  region : Option Str
  expires_at : Moment
  hourly_cost_usd : Decimal
  estimated_total_cost_usd : Decimal
  capabilities : EnvironmentCapabilities

/-- `EnvironmentQuote.model_validate`. -/
def EnvironmentQuote.validate (q : EnvironmentQuote) : Option EnvironmentQuote := do
  guard (isStableToken q.quote_id && isStableToken q.request_id && isDigest q.request_sha256 &&
    q.scope.valid && isStableToken q.provider_id && q.region.all isStableToken)
  let expires_at ← q.expires_at.validate
  guard (q.hourly_cost_usd.isUsd && q.estimated_total_cost_usd.isUsd &&
    isStableToken q.capabilities.provider_id && decide (q.provider_id = q.capabilities.provider_id) &&
    decide (q.location = q.capabilities.location))
  return { q with expires_at := expires_at }

inductive LeaseState where
  | pending
  | ready
  | unknown
  | failed
  | releasing
  | released
  deriving DecidableEq

structure EnvironmentLease where
  lease_id : Str
  request_id : Str
  quote_id : Str
  scope : ResourceScope
  provider_id : Str
  location : Location
  state : LeaseState
  expires_at : Moment
  provider_resource_id : Option Str
  released_at : Option Moment
  actual_cost_usd : Option Decimal
  deriving DecidableEq

/-- An optional field, checked when it is there. -/
def checkOptional {α : Type} (check : α → Option α) : Option α → Option (Option α)
  | none => some none
  | some a => (check a).map some

namespace EnvironmentLease

/-- The checks on the texts, and `physical_release`. -/
def Sound (l : EnvironmentLease) : Prop :=
  isStableToken l.lease_id = true ∧ isStableToken l.request_id = true ∧
    isStableToken l.quote_id = true ∧ l.scope.valid = true ∧ isStableToken l.provider_id = true ∧
    (∀ p ∈ l.provider_resource_id, 1 ≤ p.length ∧ p.length ≤ 2048) ∧
    (∀ c ∈ l.actual_cost_usd, c.isUsd = true) ∧
    (l.state = .released ↔ l.released_at.isSome = true) ∧
    (l.state = .ready → l.provider_resource_id.isSome = true)

instance (l : EnvironmentLease) : Decidable l.Sound := by unfold Sound; infer_instance

/-- `EnvironmentLease.model_validate`. -/
def validate (l : EnvironmentLease) : Option EnvironmentLease := do
  guard l.Sound
  let expires_at ← l.expires_at.validate
  let released_at ← checkOptional Moment.validate l.released_at
  return { l with expires_at := expires_at, released_at := released_at }

end EnvironmentLease

end KestrelSdk.ComputerUse

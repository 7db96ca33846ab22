import KestrelSdk.ComputerUse.Models
import KestrelSdk.Json.Bytes

namespace KestrelSdk.ComputerUse

open Json (Bytes Str str)
open Features (isStableToken)

/-- `value.to_bytes(size, "big")`. -/
def toBytesBig : Nat → Nat → Bytes
  | 0, _ => []
  | size + 1, n => UInt8.ofNat (n / 256 ^ size) :: toBytesBig size n

def MAX_ACQUISITION_CREATE_BYTES : Nat := 512 * 1024

def MAX_ACQUISITION_IDENTITY_BYTES : Nat := 128 * 1024

/-- An `EnvironmentAcquisitionPreparation` that passed `bounded_bytes`. -/
structure EnvironmentAcquisitionPreparation where
  create_payload : Bytes
  worker_identity : Bytes
  create_bounded : 0 < create_payload.length ∧
    create_payload.length ≤ MAX_ACQUISITION_CREATE_BYTES
  identity_bounded : 0 < worker_identity.length ∧
    worker_identity.length ≤ MAX_ACQUISITION_IDENTITY_BYTES
  deriving DecidableEq

/-- SHA-256, and the text of a record that its digest covers: the `model_dump` with the canonical
forms of its datetimes. -/
structure Digests where
  sha256 : Bytes → Digest
  requestText : EnvironmentRequest → Moment → Moment → Bytes
  quoteText : EnvironmentQuote → Moment → Bytes

variable (lib : Digests)

namespace EnvironmentAcquisitionPreparation

/-- `bounded_bytes`. -/
def new (create_payload worker_identity : Bytes) : Option EnvironmentAcquisitionPreparation :=
  if h : (0 < create_payload.length ∧ create_payload.length ≤ MAX_ACQUISITION_CREATE_BYTES) ∧
      (0 < worker_identity.length ∧ worker_identity.length ≤ MAX_ACQUISITION_IDENTITY_BYTES) then
    some ⟨create_payload, worker_identity, h.1, h.2⟩
  else none

/-- A byte string behind its length. -/
def framed (raw : Bytes) : Bytes := toBytesBig 8 raw.length ++ raw

/-- The bytes that the digest covers: a label with its NUL, then both strings. -/
def digestInput (p : EnvironmentAcquisitionPreparation) : Bytes :=
  (str "kestrel-environment-preparation-v1").map UInt8.ofNat ++
    0 :: (framed p.create_payload ++ framed p.worker_identity)

def digest (p : EnvironmentAcquisitionPreparation) : Digest := lib.sha256 p.digestInput

end EnvironmentAcquisitionPreparation

/-- `EnvironmentRequest.digest`. A datetime outside the UTC range has no canonical form. -/
def EnvironmentRequest.digest (r : EnvironmentRequest) : Option Digest := do
  let requested_at ← r.requested_at.toUtc
  let expires_at ← r.expires_at.toUtc
  return lib.sha256 (lib.requestText r requested_at expires_at)

/-- `_quote_digest`. -/
def quoteDigest (q : EnvironmentQuote) : Option Digest := do
  let expires_at ← q.expires_at.toUtc
  return lib.sha256 (lib.quoteText q expires_at)

inductive AcquisitionState where
  | unprepared
  | prepared
  | dispatching
  | accepted
  | unknown
  deriving DecidableEq

namespace AcquisitionState

/-- The states behind the dispatch. -/
def begun : AcquisitionState → Bool
  | .dispatching | .accepted | .unknown => true
  | _ => false

/-- The moves that the operations make. -/
inductive Moves : AcquisitionState → AcquisitionState → Prop
  | prepare : Moves .unprepared .prepared
  | dispatch : Moves .prepared .dispatching
  | accept {s : AcquisitionState} (h : s.begun = true) : Moves s .accepted
  | lose {s : AcquisitionState} (h : s.begun = true) : Moves s .unknown

end AcquisitionState

structure EnvironmentAcquisitionCheckpoint where
  attempt_id : Str
  request_id : Str
  request_sha256 : Str
  quote_id : Str
  quote_sha256 : Str
  scope : ResourceScope
  provider_id : Str
  location : Location
  expires_at : Moment
  sequence : Nat
  state : AcquisitionState
  preparation_sha256 : Option Str
  lease : Option EnvironmentLease
  deriving DecidableEq

namespace EnvironmentAcquisitionCheckpoint

/-- The checks of the single fields on texts. -/
def Identified (c : EnvironmentAcquisitionCheckpoint) : Prop :=
  isStableToken c.attempt_id = true ∧ isStableToken c.request_id = true ∧
    isDigest c.request_sha256 = true ∧ isStableToken c.quote_id = true ∧
    isDigest c.quote_sha256 = true ∧ c.scope.valid = true ∧ isStableToken c.provider_id = true ∧
    ∀ d ∈ c.preparation_sha256, isDigest d = true

instance (c : EnvironmentAcquisitionCheckpoint) : Decidable c.Identified := by
  unfold Identified; infer_instance

/-- What `correlated_facts` asks of a lease. -/
def Correlated (c : EnvironmentAcquisitionCheckpoint) (l : EnvironmentLease) : Prop :=
  (l.request_id = c.request_id ∧ l.quote_id = c.quote_id ∧ l.scope = c.scope ∧
    l.provider_id = c.provider_id ∧ l.location = c.location) ∧
    l.state ≠ .released ∧ l.expires_at.instant ≤ c.expires_at.instant

instance (c : EnvironmentAcquisitionCheckpoint) (l : EnvironmentLease) :
    Decidable (c.Correlated l) := by
  unfold Correlated; infer_instance

/-- `correlated_facts`. -/
def CorrelatedFacts (c : EnvironmentAcquisitionCheckpoint) : Prop :=
  (c.state = .unprepared ↔ c.preparation_sha256 = none) ∧
    (c.state.begun = false → c.lease = none) ∧
    (c.state = .accepted → ∃ l ∈ c.lease, l.provider_resource_id.isSome = true) ∧
    ∀ l ∈ c.lease, c.Correlated l

instance (c : EnvironmentAcquisitionCheckpoint) : Decidable c.CorrelatedFacts := by
  unfold CorrelatedFacts; infer_instance

/-- `EnvironmentAcquisitionCheckpoint.model_validate`. -/
def validate (c : EnvironmentAcquisitionCheckpoint) : Option EnvironmentAcquisitionCheckpoint := do
  guard c.Identified
  let expires_at ← c.expires_at.validate
  let lease ← checkOptional EnvironmentLease.validate c.lease
  let checked := { c with expires_at := expires_at, lease := lease }
  guard checked.CorrelatedFacts
  return checked

/-- `from_original`. -/
def fromOriginal (attempt_id : Str) (request : EnvironmentRequest) (quote : EnvironmentQuote) :
    Option EnvironmentAcquisitionCheckpoint := do
  let request ← request.validate
  let quote ← quote.validate
  let request_sha256 ← request.digest lib
  guard (quote.request_id = request.request_id ∧ quote.request_sha256 = request_sha256.1 ∧
    quote.scope = request.scope ∧ quote.provider_id = request.provider_id ∧
    quote.location = request.location)
  let quote_sha256 ← quoteDigest lib quote
  validate {
    attempt_id := attempt_id, request_id := request.request_id,
    request_sha256 := request_sha256.1, quote_id := quote.quote_id, quote_sha256 := quote_sha256.1,
    scope := request.scope, provider_id := request.provider_id, location := request.location,
    expires_at := request.expires_at, sequence := 0, state := .unprepared,
    preparation_sha256 := none, lease := none }

/-- `prepared`, called with a record of these byte strings. -/
def prepared (self : EnvironmentAcquisitionCheckpoint) (create_payload worker_identity : Bytes) :
    Option EnvironmentAcquisitionCheckpoint := do
  let original ← self.validate
  let preparation ← EnvironmentAcquisitionPreparation.new create_payload worker_identity
  let digest := (preparation.digest lib).1
  match original.preparation_sha256 with
  | some d => if d = digest then some original else none
  | none =>
    some { original with
      state := .prepared, preparation_sha256 := some digest, sequence := original.sequence + 1 }

/-- `dispatched`. -/
def dispatched (self : EnvironmentAcquisitionCheckpoint) :
    Option EnvironmentAcquisitionCheckpoint := do
  let original ← self.validate
  guard (original.state = .prepared)
  return { original with state := .dispatching, sequence := original.sequence + 1 }

/-- A fact that keeps the native resource of an earlier one. -/
def Keeps (old new : EnvironmentLease) : Prop :=
  new.lease_id = old.lease_id ∧ new.expires_at.instant = old.expires_at.instant ∧
    (old.provider_resource_id = none ∨ new.provider_resource_id = old.provider_resource_id)

instance (old new : EnvironmentLease) : Decidable (Keeps old new) := by
  unfold Keeps; infer_instance

/-- The lease that `_native_fact` records, none where the argument is refused. -/
def nativeLease (original : EnvironmentAcquisitionCheckpoint) :
    Option EnvironmentLease → Option (Option EnvironmentLease)
  | none => some original.lease
  | some argument => do
    let lease ← argument.validate
    guard (∀ old ∈ original.lease, Keeps old lease)
    return some lease

/-- `_native_fact`. -/
def nativeFact (self : EnvironmentAcquisitionCheckpoint) (state : AcquisitionState)
    (argument : Option EnvironmentLease) : Option EnvironmentAcquisitionCheckpoint := do
  let original ← self.validate
  guard original.state.begun
  let lease ← nativeLease original argument
  validate { original with state := state, lease := lease, sequence := original.sequence + 1 }

/-- `accepted`. -/
def accepted (self : EnvironmentAcquisitionCheckpoint) (lease : Option EnvironmentLease) :
    Option EnvironmentAcquisitionCheckpoint :=
  self.nativeFact .accepted lease

/-- `unknown`. -/
def unknown (self : EnvironmentAcquisitionCheckpoint) (lease : Option EnvironmentLease) :
    Option EnvironmentAcquisitionCheckpoint :=
  self.nativeFact .unknown lease

end EnvironmentAcquisitionCheckpoint

/-- A call of one operation. `malformed` is an argument that is no record of its class. -/
inductive Operation where
  | prepared (create_payload worker_identity : Bytes)
  | dispatched
  | accepted (lease : Option EnvironmentLease)
  | unknown (lease : Option EnvironmentLease)
  | malformed

namespace EnvironmentAcquisitionCheckpoint

/-- The result of a call, none where it raises. -/
def call (c : EnvironmentAcquisitionCheckpoint) :
    Operation → Option EnvironmentAcquisitionCheckpoint
  | .prepared create_payload worker_identity => c.prepared lib create_payload worker_identity
  | .dispatched => c.dispatched
  | .accepted lease => c.accepted lease
  | .unknown lease => c.unknown lease
  | .malformed => none

/-- The checkpoint after a call. One that raises leaves it as it was. -/
def after (c : EnvironmentAcquisitionCheckpoint) (op : Operation) :
    EnvironmentAcquisitionCheckpoint :=
  (c.call lib op).getD c

def run (c : EnvironmentAcquisitionCheckpoint) (ops : List Operation) :
    EnvironmentAcquisitionCheckpoint :=
  ops.foldl (after lib) c

end EnvironmentAcquisitionCheckpoint

end KestrelSdk.ComputerUse

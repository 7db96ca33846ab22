import KestrelSdk.ComputerUse.Acquisition
import KestrelSdk.Encoding.Base64
import KestrelSdk.Json.Sorted

namespace KestrelSdk.ComputerUse

open Json

def MAX_ACQUISITION_STORAGE_BYTES : Nat := 1024 * 1024

structure EnvironmentAcquisitionStorage where
  checkpoint : EnvironmentAcquisitionCheckpoint
  preparation : Option EnvironmentAcquisitionPreparation
  deriving DecidableEq

/-- `EnvironmentAcquisitionStorage.model_validate`. -/
def EnvironmentAcquisitionStorage.validate (lib : Digests) (s : EnvironmentAcquisitionStorage) :
    Option EnvironmentAcquisitionStorage := do
  let checkpoint ← s.checkpoint.validate
  guard ((s.preparation = none ↔ checkpoint.preparation_sha256 = none) ∧
    ∀ p ∈ s.preparation, checkpoint.preparation_sha256 = some (p.digest lib).1)
  return { s with checkpoint := checkpoint }

/-- What pydantic does with the single fields: the JSON form of a datetime and of a `Decimal`, and
its reader of JSON texts. -/
structure Pydantic where
  dumpDatetime : Moment → Str
  loadDatetime : Str → Option Moment
  dumpDecimal : Decimal → Str
  loadDecimal : Value → Option Decimal
  parseJson : Str → Option Value

/-! The literals. -/

namespace Location

def text : Location → Str
  | .local => str "local"
  | .remote => str "remote"

def all : List Location := [.local, .remote]

end Location

namespace LeaseState

def text : LeaseState → Str
  | .pending => str "pending"
  | .ready => str "ready"
  | .unknown => str "unknown"
  | .failed => str "failed"
  | .releasing => str "releasing"
  | .released => str "released"

def all : List LeaseState := [.pending, .ready, .unknown, .failed, .releasing, .released]

end LeaseState

namespace AcquisitionState

def text : AcquisitionState → Str
  | .unprepared => str "unprepared"
  | .prepared => str "prepared"
  | .dispatching => str "dispatching"
  | .accepted => str "accepted"
  | .unknown => str "unknown"

def all : List AcquisitionState := [.unprepared, .prepared, .dispatching, .accepted, .unknown]

end AcquisitionState

/-! `model_dump(mode="json")`. -/

def entry (name : String) (v : Value) : Key × Value := (.str (str name), v)

/-- A field of type `T | None`. -/
def dumpOptional {α : Type} (dump : α → Value) : Option α → Value
  | none => .none
  | some a => dump a

variable (py : Pydantic)

def dumpMoment (m : Moment) : Value := .str (py.dumpDatetime m)

def dumpCost (c : Decimal) : Value := .str (py.dumpDecimal c)

def ResourceScope.fields (s : ResourceScope) : Dict :=
  [entry "schema_version" (.int 1), entry "tenant_id" (.str s.tenant_id),
    entry "principal_id" (.str s.principal_id), entry "agent_id" (dumpOptional .str s.agent_id)]

def ResourceScope.dump (s : ResourceScope) : Value := .dict s.fields

def EnvironmentLease.fields (l : EnvironmentLease) : Dict :=
  [entry "schema_version" (.int 1), entry "lease_id" (.str l.lease_id),
    entry "request_id" (.str l.request_id), entry "quote_id" (.str l.quote_id),
    entry "scope" l.scope.dump, entry "provider_id" (.str l.provider_id),
    entry "location" (.str l.location.text), entry "state" (.str l.state.text),
    entry "expires_at" (dumpMoment py l.expires_at),
    entry "provider_resource_id" (dumpOptional .str l.provider_resource_id),
    entry "released_at" (dumpOptional (dumpMoment py) l.released_at),
    entry "actual_cost_usd" (dumpOptional (dumpCost py) l.actual_cost_usd)]

def EnvironmentLease.dump (l : EnvironmentLease) : Value := .dict (l.fields py)

/-- The dump of a checkpoint, which leaves the private digest out. -/
def EnvironmentAcquisitionCheckpoint.fields (c : EnvironmentAcquisitionCheckpoint) : Dict :=
  [entry "schema_version" (.int 1), entry "attempt_id" (.str c.attempt_id),
    entry "request_id" (.str c.request_id), entry "request_sha256" (.str c.request_sha256),
    entry "quote_id" (.str c.quote_id), entry "quote_sha256" (.str c.quote_sha256),
    entry "scope" c.scope.dump, entry "provider_id" (.str c.provider_id),
    entry "location" (.str c.location.text), entry "expires_at" (dumpMoment py c.expires_at),
    entry "sequence" (.int c.sequence), entry "state" (.str c.state.text),
    entry "lease" (dumpOptional (EnvironmentLease.dump py) c.lease)]

/-- `base64.b64encode(raw).decode("ascii")`. -/
def encodeSecret (raw : Bytes) : Value := .str ((Base64.encode raw).map UInt8.toNat)

def EnvironmentAcquisitionPreparation.fields (p : EnvironmentAcquisitionPreparation) : Dict :=
  [entry "create_payload" (encodeSecret p.create_payload),
    entry "worker_identity" (encodeSecret p.worker_identity)]

def EnvironmentAcquisitionPreparation.dump (p : EnvironmentAcquisitionPreparation) : Value :=
  .dict p.fields

/-- The dump with the private digest added to it. -/
def EnvironmentAcquisitionCheckpoint.privateFields (c : EnvironmentAcquisitionCheckpoint) : Dict :=
  (c.fields py).set (str "preparation_sha256") (dumpOptional .str c.preparation_sha256)

/-- The object that `serialize_private` encodes. -/
def EnvironmentAcquisitionStorage.fields (s : EnvironmentAcquisitionStorage) : Dict :=
  [entry "schema_version" (.int 1), entry "checkpoint" (.dict (s.checkpoint.privateFields py)),
    entry "preparation" (dumpOptional EnvironmentAcquisitionPreparation.dump s.preparation)]

/-- `serialize_private`. -/
def EnvironmentAcquisitionStorage.serializePrivate (lib : Digests) (json : Interpreter)
    (s : EnvironmentAcquisitionStorage) : Option Bytes := do
  let original ← s.validate lib
  let text ← (json.dumps (sortKeys (.dict (original.fields py)))).toOption
  let encoded ← encodeUtf8 text
  guard (encoded.length ≤ MAX_ACQUISITION_STORAGE_BYTES)
  return encoded

/-! `model_validate_json`. -/

/-- A field without a default. -/
def required {α : Type} (d : Dict) (name : String) (read : Value → Option α) : Option α :=
  (d.get (str name)).bind read

/-- A field with a default. -/
def defaulted {α : Type} (d : Dict) (name : String) (default : α) (read : Value → Option α) :
    Option α :=
  match d.get (str name) with
  | none => some default
  | some v => read v

/-- `extra="forbid"`. -/
def forbidExtra (d : Dict) (names : List String) : Bool :=
  d.all fun e => decide (e.1 ∈ names.map fun n => Key.str (str n))

def readText : Value → Option Str
  | .str s => some s
  | _ => none

def readOptional {α : Type} (read : Value → Option α) : Value → Option (Option α)
  | .none => some none
  | v => (read v).map some

/-- A `Literal`. -/
def readLiteral {α : Type} (text : α → Str) (all : List α) : Value → Option α
  | .str s => all.find? fun a => text a == s
  | _ => none

def readNat : Value → Option Nat
  | .int i => if 0 ≤ i then some i.toNat else none
  | _ => none

/-- `schema_version`. -/
def readVersion : Value → Option Unit
  | .int i => guard (1 ≤ i ∧ i ≤ 1)
  | _ => none

def readMoment : Value → Option Moment
  | .str s => py.loadDatetime s
  | _ => none

def readScope : Value → Option ResourceScope
  | .dict d => do
    guard (forbidExtra d ["schema_version", "tenant_id", "principal_id", "agent_id"])
    defaulted d "schema_version" () readVersion
    let tenant_id ← required d "tenant_id" readText
    let principal_id ← required d "principal_id" readText
    let agent_id ← defaulted d "agent_id" none (readOptional readText)
    return ⟨tenant_id, principal_id, agent_id⟩
  | _ => none

def readLease : Value → Option EnvironmentLease
  | .dict d => do
    guard (forbidExtra d ["schema_version", "lease_id", "request_id", "quote_id", "scope",
      "provider_id", "location", "state", "expires_at", "provider_resource_id", "released_at",
      "actual_cost_usd"])
    defaulted d "schema_version" () readVersion
    let lease_id ← required d "lease_id" readText
    let request_id ← required d "request_id" readText
    let quote_id ← required d "quote_id" readText
    let scope ← required d "scope" readScope
    let provider_id ← required d "provider_id" readText
    let location ← required d "location" (readLiteral Location.text Location.all)
    let state ← required d "state" (readLiteral LeaseState.text LeaseState.all)
    let expires_at ← required d "expires_at" (readMoment py)
    let provider_resource_id ← defaulted d "provider_resource_id" none (readOptional readText)
    let released_at ← defaulted d "released_at" none (readOptional (readMoment py))
    let actual_cost_usd ← defaulted d "actual_cost_usd" none (readOptional py.loadDecimal)
    return ⟨lease_id, request_id, quote_id, scope, provider_id, location, state, expires_at,
      provider_resource_id, released_at, actual_cost_usd⟩
  | _ => none

def readCheckpoint : Value → Option EnvironmentAcquisitionCheckpoint
  | .dict d => do
    guard (forbidExtra d ["schema_version", "attempt_id", "request_id", "request_sha256",
      "quote_id", "quote_sha256", "scope", "provider_id", "location", "expires_at", "sequence",
      "state", "preparation_sha256", "lease"])
    defaulted d "schema_version" () readVersion
    let attempt_id ← required d "attempt_id" readText
    let request_id ← required d "request_id" readText
    let request_sha256 ← required d "request_sha256" readText
    let quote_id ← required d "quote_id" readText
    let quote_sha256 ← required d "quote_sha256" readText
    let scope ← required d "scope" readScope
    let provider_id ← required d "provider_id" readText
    let location ← required d "location" (readLiteral Location.text Location.all)
    let expires_at ← required d "expires_at" (readMoment py)
    let sequence ← defaulted d "sequence" 0 readNat
    let state ← defaulted d "state" .unprepared
      (readLiteral AcquisitionState.text AcquisitionState.all)
    let preparation_sha256 ← defaulted d "preparation_sha256" none (readOptional readText)
    let lease ← defaulted d "lease" none (readOptional (readLease py))
    return ⟨attempt_id, request_id, request_sha256, quote_id, quote_sha256, scope, provider_id,
      location, expires_at, sequence, state, preparation_sha256, lease⟩
  | _ => none

/-- `EnvironmentAcquisitionCheckpoint.model_validate_json`. -/
def modelValidateJson (text : Str) : Option EnvironmentAcquisitionCheckpoint := do
  let v ← py.parseJson text
  let checkpoint ← readCheckpoint py v
  checkpoint.validate

/-- The byte order marks that `json.detect_encoding` looks for. -/
def BOMS : List Bytes :=
  [[0, 0, 0xFE, 0xFF], [0xFF, 0xFE, 0, 0], [0xFE, 0xFF], [0xFF, 0xFE], [0xEF, 0xBB, 0xBF]]

/-- Whether `json.detect_encoding` answers UTF-8. -/
def detectsUtf8 (raw : Bytes) : Bool :=
  if BOMS.any (·.isPrefixOf raw) then false
  else
    match raw with
    | [a, b] => a != 0 && b != 0
    | a :: b :: _ :: _ :: _ => a != 0 && b != 0
    | _ => true

/-- The decoding in `json.loads`. `other` reads the other encodings, and the UTF-8 forms of lone
surrogates. -/
def decodeBytes (other : Bytes → Option Str) (raw : Bytes) : Option Str :=
  if detectsUtf8 raw then (decodeUtf8 raw).or (other raw) else other raw

/-- `SecretBytes(base64.b64decode(payload, validate=True))`. -/
def decodeSecret (rel : Base64.Release) : Value → Option Bytes
  | .str s => if s.all (· < 128) then Base64.decode rel true (s.map UInt8.ofNat) else none
  | _ => none

/-- The `preparation` of the stored object. -/
def readPreparation (rel : Base64.Release) : Value → Option (Option (Bytes × Bytes))
  | .none => some none
  | .dict d => do
    guard (forbidExtra d ["create_payload", "worker_identity"])
    let create_payload ← required d "create_payload" (decodeSecret rel)
    let worker_identity ← required d "worker_identity" (decodeSecret rel)
    return some (create_payload, worker_identity)
  | _ => none

/-- The field `preparation`, checked by `bounded_bytes`. -/
def checkPreparation :
    Option (Bytes × Bytes) → Option (Option EnvironmentAcquisitionPreparation)
  | none => some none
  | some (create_payload, worker_identity) =>
    (EnvironmentAcquisitionPreparation.new create_payload worker_identity).map some

/-- The stored object as a record. -/
def readStorage (lib : Digests) (json : Interpreter) (rel : Base64.Release) :
    Value → Option EnvironmentAcquisitionStorage
  | .dict values => do
    let raw ← readPreparation rel ((Dict.get values (str "preparation")).getD .none)
    let text ← (json.dumpsDefault ((Dict.get values (str "checkpoint")).getD .none)).toOption
    let checkpoint ← modelValidateJson py text
    guard (forbidExtra values ["schema_version", "checkpoint", "preparation"])
    defaulted values "schema_version" () readVersion
    let preparation ← checkPreparation raw
    EnvironmentAcquisitionStorage.validate lib ⟨checkpoint, preparation⟩
  | _ => none

/-- `deserialize_private`. -/
def deserializePrivate (lib : Digests) (json : Interpreter) (rel : Base64.Release)
    (other : Bytes → Option Str) (raw : Bytes) : Option EnvironmentAcquisitionStorage := do
  guard (0 < raw.length ∧ raw.length ≤ MAX_ACQUISITION_STORAGE_BYTES)
  let text ← decodeBytes other raw
  let values ← (json.loads text).toOption
  readStorage py lib json rel values

end KestrelSdk.ComputerUse

import KestrelSdk.ComputerUse.Spelling

/-! The persisted result of a storage operation. -/

namespace KestrelSdk.Storage

open Json (Str Value Dict str FloatRepr)
open Encoding (DateTime fromisoformat)
open ComputerUse (Decimal)

inductive RecordError where
  | keyError
  | valueError
  | typeError
  | attributeError
  deriving DecidableEq

/-- `bool` of a finite float: a digit that is not zero. -/
def nonzero (r : FloatRepr) : Bool :=
  r.whole != 0 || match r.fraction with
    | none => false
    | some (d, ds) => d != 0 || ds.any (· != 0)

/-- `bool(value)`. -/
def truthy : Value → Bool
  | .none => false
  | .bool b => b
  | .int i => i != 0
  | .float (.finite r) => nonzero r
  | .float _ => true
  | .str s => !s.isEmpty
  | .list l => !l.isEmpty
  | .dict d => !d.isEmpty
  | .object _ => true

/-- `bool` of a `Decimal`. -/
def decimalTruthy : Decimal → Bool
  | .finite _ digits _ => digits != 0
  | _ => true

def isFinite : Decimal → Bool
  | .finite .. => true
  | _ => false

/-- `data[key]`. -/
def item (data : Dict) (key : String) : Except RecordError Value :=
  match data.get (str key) with
  | none => .error .keyError
  | some v => .ok v

/-- `data.get(key, default)`. -/
def getOr (data : Dict) (key : String) (default : Value) : Value :=
  (data.get (str key)).getD default

/-- What the readers take from the interpreter: the other forms of ISO 8601, the other spellings of
a `Decimal`, and the time of the call. -/
structure Interpreter where
  isoOther : Str → Option DateTime
  decimalOther : Str → Option Decimal
  utcNow : DateTime

variable (py : Interpreter)

/-- `datetime.fromisoformat(value)`. -/
def readDatetime : Value → Except RecordError DateTime
  | .str s =>
    match fromisoformat py.isoOther s with
    | none => .error .valueError
    | some t => .ok t
  | _ => .error .typeError

/-- `Decimal(value)` of a text. -/
def readDecimal : Value → Except RecordError Decimal
  | .str s =>
    if (Decimal.read s).text = s then .ok (Decimal.read s)
    else
      match py.decimalOther s with
      | none => .error .valueError
      | some d => .ok d
  | _ => .error .typeError

/-- `read(data[key]) if data.get(key) else None`. -/
def readGiven {α : Type} (read : Value → Except RecordError α) (data : Dict) (key : String) :
    Except RecordError (Option α) :=
  if truthy (getOr data key .none) then do
    let v ← item data key
    let a ← read v
    return some a
  else .ok none

/-- `value.isoformat() if value else None`; a `datetime` is never false. -/
def dumpGiven : Option DateTime → Value
  | none => .none
  | some t => .str t.isoformat

/-- `str(value) if value else None`. -/
def dumpCost : Option Decimal → Value
  | none => .none
  | some d => if decimalTruthy d then .str d.text else .none

inductive StorageTier where
  | browser
  | local
  | cloudHot
  | cloudCold
  | localOnly
  | ipfs
  | filecoin
  | encryptedFilecoin
  deriving DecidableEq

namespace StorageTier

def value : StorageTier → Str
  | .browser => str "browser"
  | .local => str "local"
  | .cloudHot => str "cloud_hot"
  | .cloudCold => str "cloud_cold"
  | .localOnly => str "local_only"
  | .ipfs => str "ipfs"
  | .filecoin => str "filecoin"
  | .encryptedFilecoin => str "encrypted_filecoin"

def all : List StorageTier :=
  [.browser, .local, .cloudHot, .cloudCold, .localOnly, .ipfs, .filecoin, .encryptedFilecoin]

end StorageTier

/-- The member of an enumeration that has a value. -/
def member {α : Type} (value : α → Str) (all : List α) : Value → Except RecordError α
  | .str s =>
    match all.find? fun a => value a = s with
    | none => .error .valueError
    | some a => .ok a
  | _ => .error .valueError

/-- A storage result. The fields whose values nothing looks at are Python values of any type. -/
structure StorageResult where
  content_hash : Value
  cid : Value
  tier : StorageTier
  provider : Value
  deal_id : Value
  deal_status : Value
  encrypted : Value
  encryption_key_hash : Value
  size_bytes : Value
  content_type : Value
  filename : Value
  storage_cost_usd : Option Decimal
  created_at : DateTime
  last_verified_at : Option DateTime

def entry (name : String) (v : Value) : Json.Key × Value := (.str (str name), v)

namespace StorageResult

def toDict (r : StorageResult) : Dict :=
  [entry "content_hash" r.content_hash, entry "cid" r.cid, entry "tier" (.str r.tier.value),
    entry "provider" r.provider, entry "deal_id" r.deal_id, entry "deal_status" r.deal_status,
    entry "encrypted" r.encrypted, entry "encryption_key_hash" r.encryption_key_hash,
    entry "size_bytes" r.size_bytes, entry "content_type" r.content_type,
    entry "filename" r.filename, entry "storage_cost_usd" (dumpCost r.storage_cost_usd),
    entry "created_at" (.str r.created_at.isoformat),
    entry "last_verified_at" (dumpGiven r.last_verified_at)]

/-- `StorageResult.from_dict`. -/
def fromDict (data : Dict) : Except RecordError StorageResult := do
  let content_hash ← item data "content_hash"
  let tier ← member StorageTier.value StorageTier.all (getOr data "tier" (.str (str "local")))
  let storage_cost_usd ← readGiven (readDecimal py) data "storage_cost_usd"
  let created_at ← readGiven (readDatetime py) data "created_at"
  let last_verified_at ← readGiven (readDatetime py) data "last_verified_at"
  return {
    content_hash := content_hash
    cid := getOr data "cid" .none
    tier := tier
    provider := getOr data "provider" (.str (str "local"))
    deal_id := getOr data "deal_id" .none
    deal_status := getOr data "deal_status" .none
    encrypted := getOr data "encrypted" (.bool false)
    encryption_key_hash := getOr data "encryption_key_hash" .none
    size_bytes := getOr data "size_bytes" (.int 0)
    content_type := getOr data "content_type" .none
    filename := getOr data "filename" .none
    storage_cost_usd := storage_cost_usd
    created_at := created_at.getD py.utcNow
    last_verified_at := last_verified_at }

end StorageResult

theorem member_value {α : Type} {value : α → Str} {all : List α} {a : α}
    (hvalue : ∀ b ∈ all, value b = value a → b = a) (ha : a ∈ all) :
    member value all (.str (value a)) = .ok a := by
  unfold member
  cases hfind : all.find? fun b => value b = value a with
  | none =>
    have := List.find?_eq_none.1 hfind a ha
    simp at this
  | some b =>
    have hb := List.find?_some hfind
    simp only [decide_eq_true_eq] at hb
    have heq : b = a := hvalue b (List.mem_of_find?_eq_some hfind) hb
    simp only [hfind, heq]

theorem StorageTier.member_value (t : StorageTier) :
    member StorageTier.value StorageTier.all (.str t.value) = .ok t := by
  cases t <;> rfl

theorem isoformat_ne_nil (t : DateTime) : t.isoformat.isEmpty = false := rfl

theorem readDatetime_isoformat (t : DateTime) : readDatetime py (.str t.isoformat) = .ok t := by
  simp only [readDatetime, Encoding.fromisoformat_isoformat]

/-- The text of a finite `Decimal` gives it back. -/
theorem readDecimal_text {d : Decimal} (h : isFinite d = true) :
    readDecimal py (.str d.text) = .ok d := by
  match d, h with
  | .finite negative digits exponent, _ =>
    simp only [readDecimal, Decimal.read_text, if_true]

theorem readGiven_of_get {α : Type} {read : Value → Except RecordError α} {data : Dict}
    {key : String} {v : Value} (hget : data.get (str key) = some v) : readGiven read data key =
      if truthy v then (read v).map some else .ok none := by
  unfold readGiven getOr item
  rw [hget]
  dsimp only [Option.getD_some]
  split
  · cases hread : read v with
    | error e => simp only [bind, Except.bind, hread, Except.map]
    | ok a => simp only [bind, Except.bind, hread, Except.map, pure, Except.pure]
  · rfl

theorem readGiven_dumpGiven (data : Dict) (key : String) (t : Option DateTime)
    (hget : data.get (str key) = some (dumpGiven t)) :
    readGiven (readDatetime py) data key = .ok t := by
  rw [readGiven_of_get hget]
  cases t with
  | none => rfl
  | some t =>
    rw [dumpGiven, if_pos, readDatetime_isoformat]
    · rfl
    · rfl

theorem text_ne_nil {d : Decimal} (h : isFinite d = true) : d.text ≠ [] := by
  match d, h with
  | .finite negative digits exponent, _ =>
    intro hnil
    have hread := Decimal.read_text negative digits exponent
    obtain ⟨int, fraction, ⟨c, ds, hint⟩, -, -, hpointed, -⟩ := Decimal.pointed_spec digits exponent
    rw [Decimal.text, hpointed, hint] at hnil
    simp at hnil

/-- A cost is kept unless it is zero. -/
theorem readGiven_dumpCost (data : Dict) (key : String) {cost : Option Decimal}
    (hfinite : ∀ d ∈ cost, isFinite d = true) (hget : data.get (str key) = some (dumpCost cost)) :
    readGiven (readDecimal py) data key = .ok (cost.filter decimalTruthy) := by
  rw [readGiven_of_get hget]
  cases cost with
  | none => rfl
  | some d =>
    have hd := hfinite d rfl
    rw [dumpCost, Option.filter_some]
    split
    · have htruthy : truthy (.str d.text) = true := by
        cases htext : d.text with
        | nil => exact absurd htext (text_ne_nil hd)
        | cons c s => rfl
      rw [if_pos htruthy, readDecimal_text py hd]
      rfl
    · rfl

/-- What is read back: everything, less a cost of zero. -/
theorem StorageResult.fromDict_toDict (r : StorageResult)
    (hfinite : ∀ d ∈ r.storage_cost_usd, isFinite d = true) :
    fromDict py r.toDict =
      .ok { r with storage_cost_usd := r.storage_cost_usd.filter decimalTruthy } := by
  have hcost := readGiven_dumpCost py r.toDict "storage_cost_usd" hfinite rfl
  have hcreated := readGiven_dumpGiven py r.toDict "created_at" (some r.created_at) rfl
  have hverified := readGiven_dumpGiven py r.toDict "last_verified_at" r.last_verified_at rfl
  have htier : member StorageTier.value StorageTier.all
      (getOr r.toDict "tier" (.str (str "local"))) = .ok r.tier := StorageTier.member_value r.tier
  unfold fromDict
  rw [hcost, hcreated, hverified, htier]
  rfl

/-- A storage result is read back as it was exactly when its cost is not zero. -/
theorem StorageResult.fromDict_toDict_iff (r : StorageResult)
    (hfinite : ∀ d ∈ r.storage_cost_usd, isFinite d = true) :
    fromDict py r.toDict = .ok r ↔ ∀ d ∈ r.storage_cost_usd, decimalTruthy d = true := by
  have hfilter : r.storage_cost_usd.filter decimalTruthy = r.storage_cost_usd ↔
      ∀ d ∈ r.storage_cost_usd, decimalTruthy d = true := by
    cases r.storage_cost_usd with
    | none => simp
    | some d => simp [Option.filter_some]
  rw [fromDict_toDict py r hfinite, ← hfilter]
  constructor
  · intro h
    exact congrArg storage_cost_usd (Except.ok.inj h)
  · intro h
    rw [h]

end KestrelSdk.Storage

import KestrelSdk.Storage.Records

/-! The persisted records of a training job. -/

namespace KestrelSdk.Training

open Json (Str Value Dict str)
open Encoding (DateTime)
open ComputerUse (Decimal)
open Storage

inductive TrainingState where
  | pending
  | provisioning
  | preparing
  | training
  | completed
  | failed
  | cancelled
  deriving DecidableEq

namespace TrainingState

def value : TrainingState → Str
  | .pending => str "pending"
  | .provisioning => str "provisioning"
  | .preparing => str "preparing"
  | .training => str "training"
  | .completed => str "completed"
  | .failed => str "failed"
  | .cancelled => str "cancelled"

def all : List TrainingState :=
  [.pending, .provisioning, .preparing, .training, .completed, .failed, .cancelled]

theorem member_value (s : TrainingState) :
    member TrainingState.value TrainingState.all (.str s.value) = .ok s := by
  cases s <;> rfl

end TrainingState

/-- `1e-4`. -/
def defaultRate : Value := .float (.finite ⟨false, 0, some (0, [0, 0, 1]), none, .inl rfl⟩)

/-- `0.0`. -/
def zeroProgress : Value := .float (.finite ⟨false, 0, some (0, []), none, .inl rfl⟩)

/-- A training configuration, of Python values of any type. -/
structure TrainingConfig where
  trigger_word : Value
  steps : Value
  lora_rank : Value
  learning_rate : Value
  batch_size : Value
  resolution : Value
  profile : Value
  use_spot : Value
  ttl_seconds : Value
  callback_url : Value

namespace TrainingConfig

def toDict (c : TrainingConfig) : Dict :=
  [entry "trigger_word" c.trigger_word, entry "steps" c.steps, entry "lora_rank" c.lora_rank,
    entry "learning_rate" c.learning_rate, entry "batch_size" c.batch_size,
    entry "resolution" c.resolution, entry "profile" c.profile, entry "use_spot" c.use_spot,
    entry "ttl_seconds" c.ttl_seconds, entry "callback_url" c.callback_url]

/-- `TrainingConfig.from_dict`. -/
def fromDict : Value → Except RecordError TrainingConfig
  | .dict data => .ok {
      trigger_word := getOr data "trigger_word" .none
      steps := getOr data "steps" (.int 1000)
      lora_rank := getOr data "lora_rank" (.int 16)
      learning_rate := getOr data "learning_rate" defaultRate
      batch_size := getOr data "batch_size" (.int 1)
      resolution := getOr data "resolution" (.str (str "512,768,1024"))
      profile := getOr data "profile" (.str (str "training"))
      use_spot := getOr data "use_spot" (.bool true)
      ttl_seconds := getOr data "ttl_seconds" (.int 7200)
      callback_url := getOr data "callback_url" .none }
  | _ => .error .attributeError

theorem fromDict_toDict (c : TrainingConfig) : fromDict (.dict c.toDict) = .ok c := rfl

end TrainingConfig

structure TrainingJob where
  job_id : Value
  companion_id : Value
  provider : Value
  state : TrainingState
  trigger_word : Value
  created_at : DateTime
  config : TrainingConfig
  provider_job_id : Value
  provider_session_id : Value
  started_at : Option DateTime
  completed_at : Option DateTime
  output_path : Value
  error_message : Value

variable (py : Interpreter)

namespace TrainingJob

def toDict (j : TrainingJob) : Dict :=
  [entry "job_id" j.job_id, entry "companion_id" j.companion_id, entry "provider" j.provider,
    entry "state" (.str j.state.value), entry "trigger_word" j.trigger_word,
    entry "created_at" (.str j.created_at.isoformat), entry "started_at" (dumpGiven j.started_at),
    entry "completed_at" (dumpGiven j.completed_at), entry "output_path" j.output_path,
    entry "error_message" j.error_message, entry "provider_job_id" j.provider_job_id,
    entry "provider_session_id" j.provider_session_id, entry "config" (.dict j.config.toDict)]

/-- `TrainingJob.from_dict`. -/
def fromDict (data : Dict) : Except RecordError TrainingJob := do
  let job_id ← item data "job_id"
  let companion_id ← item data "companion_id"
  let provider ← item data "provider"
  let state ← member TrainingState.value TrainingState.all (← item data "state")
  let trigger_word ← item data "trigger_word"
  let created_at ← readDatetime py (← item data "created_at")
  let config ← TrainingConfig.fromDict (getOr data "config" (.dict []))
  let started_at ← readGiven (readDatetime py) data "started_at"
  let completed_at ← readGiven (readDatetime py) data "completed_at"
  return {
    job_id := job_id
    companion_id := companion_id
    provider := provider
    state := state
    trigger_word := trigger_word
    created_at := created_at
    config := config
    provider_job_id := getOr data "provider_job_id" .none
    provider_session_id := getOr data "provider_session_id" .none
    started_at := started_at
    completed_at := completed_at
    output_path := getOr data "output_path" .none
    error_message := getOr data "error_message" .none }

/-- A training job is read back as it was. -/
theorem fromDict_toDict (j : TrainingJob) : fromDict py j.toDict = .ok j := by
  have hstate : item j.toDict "state" = .ok (.str j.state.value) := rfl
  have hcreated : item j.toDict "created_at" = .ok (.str j.created_at.isoformat) := rfl
  have hstarted := readGiven_dumpGiven py j.toDict "started_at" j.started_at rfl
  have hcompleted := readGiven_dumpGiven py j.toDict "completed_at" j.completed_at rfl
  have hconfig : TrainingConfig.fromDict (getOr j.toDict "config" (.dict [])) = .ok j.config :=
    TrainingConfig.fromDict_toDict j.config
  unfold fromDict
  rw [hstate, hcreated, hstarted, hcompleted, hconfig]
  simp only [bind, Except.bind, TrainingState.member_value, readDatetime_isoformat]
  rfl

end TrainingJob

structure TrainingStatus where
  job_id : Value
  state : TrainingState
  progress : Value
  message : Value
  error : Value
  elapsed_seconds : Value
  estimated_remaining_seconds : Value
  provider_details : Value

namespace TrainingStatus

def toDict (s : TrainingStatus) : Dict :=
  [entry "job_id" s.job_id, entry "state" (.str s.state.value), entry "progress" s.progress,
    entry "message" s.message, entry "error" s.error, entry "elapsed_seconds" s.elapsed_seconds,
    entry "estimated_remaining_seconds" s.estimated_remaining_seconds]

/-- `TrainingStatus.from_dict`. -/
def fromDict (data : Dict) : Except RecordError TrainingStatus := do
  let job_id ← item data "job_id"
  let state ← member TrainingState.value TrainingState.all (← item data "state")
  return {
    job_id := job_id
    state := state
    progress := getOr data "progress" zeroProgress
    message := getOr data "message" .none
    error := getOr data "error" .none
    elapsed_seconds := getOr data "elapsed_seconds" .none
    estimated_remaining_seconds := getOr data "estimated_remaining_seconds" .none
    provider_details := getOr data "provider_details" (.dict []) }

/-- What is read back: everything, with no details of the provider. -/
theorem fromDict_toDict (s : TrainingStatus) :
    fromDict s.toDict = .ok { s with provider_details := .dict [] } := by
  have hstate : item s.toDict "state" = .ok (.str s.state.value) := rfl
  unfold fromDict
  rw [hstate]
  simp only [bind, Except.bind, TrainingState.member_value]
  rfl

theorem fromDict_toDict_iff (s : TrainingStatus) :
    fromDict s.toDict = .ok s ↔ s.provider_details = .dict [] := by
  rw [fromDict_toDict]
  constructor
  · intro h
    exact (congrArg provider_details (Except.ok.inj h)).symm
  · intro h
    rw [← h]

end TrainingStatus

/-- A record is read back as it was exactly when a storage result has no cost of zero and a status
no details of its provider; a job always is. -/
theorem records_read_back_iff (py : Interpreter) :
    (∀ r : StorageResult, (∀ d ∈ r.storage_cost_usd, isFinite d = true) →
      (StorageResult.fromDict py r.toDict = .ok r ↔
        ∀ d ∈ r.storage_cost_usd, decimalTruthy d = true)) ∧
    (∀ j : TrainingJob, TrainingJob.fromDict py j.toDict = .ok j) ∧
    (∀ s : TrainingStatus, TrainingStatus.fromDict s.toDict = .ok s ↔
      s.provider_details = .dict []) :=
  ⟨fun r hfinite => r.fromDict_toDict_iff py hfinite, fun j => j.fromDict_toDict py,
    fun s => s.fromDict_toDict_iff⟩

def sampleTime : DateTime := ⟨2024, 1, 2, 3, 4, 5, 0, some 0, by decide⟩

def sampleReader : Interpreter := ⟨fun _ => none, fun _ => none, sampleTime⟩

/-- A result that cost nothing: `StorageResult("h", storage_cost_usd=Decimal("0"))`. -/
def freeResult : StorageResult where
  content_hash := .str (str "h")
  cid := .none
  tier := .local
  provider := .str (str "local")
  deal_id := .none
  deal_status := .none
  encrypted := .bool false
  encryption_key_hash := .none
  size_bytes := .int 0
  content_type := .none
  filename := .none
  storage_cost_usd := some (.finite false 0 0)
  created_at := sampleTime
  last_verified_at := none

/-- `TrainingStatus("j", TrainingState.PENDING, 0.0, provider_details={"pod": "p"})`. -/
def detailedStatus : TrainingStatus where
  job_id := .str (str "j")
  state := .pending
  progress := zeroProgress
  message := .none
  error := .none
  elapsed_seconds := .none
  estimated_remaining_seconds := .none
  provider_details := .dict [entry "pod" (.str (str "p"))]

/-- A cost of zero is read back as no cost, and the details of a status as none. -/
theorem zero_cost_is_lost :
    (∃ r, StorageResult.fromDict sampleReader freeResult.toDict = .ok r ∧
      freeResult.storage_cost_usd = some (.finite false 0 0) ∧ r.storage_cost_usd = none) ∧
    (∃ s, TrainingStatus.fromDict detailedStatus.toDict = .ok s ∧
      detailedStatus.provider_details = .dict [entry "pod" (.str (str "p"))] ∧
      s.provider_details = .dict []) := by
  constructor
  · refine ⟨_, StorageResult.fromDict_toDict sampleReader freeResult ?_, rfl, rfl⟩
    rintro d ⟨⟩
    rfl
  · exact ⟨_, TrainingStatus.fromDict_toDict detailedStatus, rfl, rfl⟩

end KestrelSdk.Training

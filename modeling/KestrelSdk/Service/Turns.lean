import KestrelSdk.Asyncio.Queue
import KestrelSdk.Service.Fence
import KestrelSdk.Service.Frames

/-! The jobs of a service as they take turns at its write lock. -/

namespace KestrelSdk.Service

open Json Protocol Asyncio

/-- Standing in the queue of the write lock. -/
def JobPc.waits : JobPc → Bool
  | .locking _ _ => true
  | .draining _ => true
  | _ => false

/-- Inside the section of the write lock. -/
def JobPc.holds : JobPc → Bool
  | .draining _ => true
  | _ => false

def JobPc.isEnded : JobPc → Bool
  | .ended _ => true
  | _ => false

/-- The steps that a job has left, at most. -/
def JobPc.rank : JobPc → Nat
  | .created _ => 5
  | .awaiting _ _ => 4
  | .locking _ (some _) => 3
  | .locking _ none => 2
  | .draining _ => 1
  | .ended _ => 0

/-- The frames of a job. -/
def Answers : Work → Value → Prop
  | .request r, data => ∃ answer, data = JsonRpcResponse.toDict ⟨r.id, answer⟩
  | .malformed text, data => data = (Server.malformedResponse text).toDict
  | .event params, data => data = JsonRpcNotification.toDict ⟨FEATURE_EVENT, params⟩

/-- What `json.dumps` raises on a frame is caught, is raised in the feature, or is nothing. -/
def Guarded (rt : Runtime) (w : Work) (data : Value) : Option JsonRpcRequest → Prop
  | some r => w = .request r
  | none => (∃ params, w = .event params) ∨ ∃ bytes, encodeMessage rt.py data = .ok bytes

theorem identifies_none : Identifies .none :=
  ⟨rfl, rfl, fun _ => ⟨_, rfl⟩, fun _ => rfl⟩

/-- Error responses encode. -/
theorem encode_failure (py : Interpreter) {id : Value} (hid : Identifies id) (hn : 2 ≤ py.nesting)
    {code : Int} (hcode : code = -32600 ∨ code = -32602 ∨ code = -32603) (message : Str) :
    ∃ bytes, encodeMessage py
      (JsonRpcResponse.toDict ⟨id, .error ⟨.int code, message, .none⟩⟩) = .ok bytes := by
  obtain ⟨n, hn⟩ := Nat.exists_eq_add_of_le hn
  have hcode : ∃ t, dumpInt code = .ok t := by
    rcases hcode with rfl | rfl | rfl
    · exact ⟨_, rfl⟩
    · exact ⟨_, rfl⟩
    · exact ⟨_, rfl⟩
  obtain ⟨c, hc⟩ := hcode
  obtain ⟨u, hu⟩ := hid.dumped (n + 1)
  have hdump : ∃ t, dump (n + 1 + 1)
      (JsonRpcResponse.toDict ⟨id, .error ⟨.int code, message, .none⟩⟩) = .ok t := by
    simp only [JsonRpcResponse.toDict, JsonRpcError.toDict, dump, dumpEntries, Key.text, hu, hc,
      List.append_nil, Checks.ok_bind]
    exact ⟨_, rfl⟩
  obtain ⟨t, ht⟩ := hdump
  have hnest : py.nesting = n + 1 + 1 := by omega
  unfold encodeMessage Interpreter.dumps
  rw [hnest, ht]
  exact ⟨_, rfl⟩

/-- The exception that the checks of a request raise, or `json.dumps` on the result of a request
without a hook. -/
def Dispatched.failure (rt : Runtime) (r : JsonRpcRequest) : Dispatched → Option Exn
  | .returns v => Service.failure rt r (.ok v)
  | .raises e => some e
  | .awaits _ => none

/-- What a job does at the write lock: it waits, it writes its frame, or it ends with an exception. -/
inductive Turned (rt : Runtime) (w : Work) (E : Exn → Prop) (n i : Nat) (s : Server) :
    Server → Prop where
  | waits (data : Value) (handled : Option JsonRpcRequest) (q : List Nat)
      (hl : s.writeLock = .ofQueue q) (hq : q ≠ []) (ha : Answers w data)
      (hg : Guarded rt w data handled) (hn : (JobPc.locking data handled).rank ≤ n) :
      Turned rt w E n i s
        (({ s with writeLock := .ofQueue (q ++ [i]) } : Server).setPc i (.locking data handled))
  | writes (data : Value) (handled : Option JsonRpcRequest) (bytes : Bytes)
      (hl : s.writeLock = .ofQueue []) (ha : Answers w data)
      (hb : encodeMessage rt.py data = .ok bytes) :
      Turned rt w E n i s
        (({ s with writeLock := .ofQueue [i], frames := s.frames ++ [⟨i, data, bytes⟩] } :
          Server).setPc i (.draining handled))
  | fails (e : Exn) (he : E e) : Turned rt w E n i s (s.finish i (.error e))

namespace Turned

variable {rt : Runtime} {w : Work} {E E' : Exn → Prop} {n m i : Nat} {s s' : Server}

theorem mono (h : Turned rt w E n i s s') (hE : ∀ e, E e → E' e) (hnm : n ≤ m) :
    Turned rt w E' m i s s' := by
  cases h with
  | waits data handled q hl hq ha hg hn => exact .waits data handled q hl hq ha hg (hn.trans hnm)
  | writes data handled bytes hl ha hb => exact .writes data handled bytes hl ha hb
  | fails e he => exact .fails e (hE e he)

end Turned

namespace Server

variable {rt : Runtime} {w : Work} {E : Exn → Prop} {n i : Nat} {s s' : Server} {q : List Nat}
  {r : JsonRpcRequest}

theorem releaseWrite_acquired (hl : s.writeLock = .ofQueue []) :
    ({ s with writeLock := .ofQueue [i] } : Server).releaseWrite = s := by
  cases s
  cases hl
  rfl

theorem send_turned {raised : Server → Exn → Server} {data : Value}
    {handled : Option JsonRpcRequest} (hc : s.connected = true) (hb : s.broken = false)
    (hl : s.writeLock = .ofQueue q) (ha : Answers w data) (hg : Guarded rt w data handled)
    (hn : (JobPc.locking data handled).rank ≤ n)
    (hraised : ∀ e, encodeMessage rt.py data = .error e →
      Turned rt w E n i s (raised s (rt.raises e))) :
    Turned rt w E n i s (s.send rt i data handled raised) := by
  unfold send
  rw [hl]
  cases q with
  | nil =>
    simp only [FifoLock.acquire_idle]
    unfold write
    rw [if_pos hc]
    cases he : encodeMessage rt.py data with
    | error e =>
      simp only [releaseWrite_acquired hl]
      exact hraised e he
    | ok bytes =>
      simp only
      rw [if_neg (by rw [hb]; exact Bool.false_ne_true)]
      exact .writes data handled bytes hl ha he
  | cons j q =>
    rw [FifoLock.acquire_busy (List.cons_ne_nil j q)]
    exact .waits data handled (j :: q) hl (List.cons_ne_nil j q) ha hg hn

/-- What the `except` clauses of `_handle_request` do with an exception. -/
theorem raise_turned (hid : Identifies r.id) (hnest : 2 ≤ rt.py.nesting) (hc : s.connected = true)
    (hb : s.broken = false) (hl : s.writeLock = .ofQueue q) {e : Exn}
    (he : rescue r (s.isCancelling i) e = none → E e) :
    Turned rt (.request r) E 2 i s (s.raise rt i (some r) e) := by
  unfold raise
  cases hr : rescue r (s.isCancelling i) e with
  | none =>
    simp only [hr]
    exact .fails e (he hr)
  | some response =>
    obtain ⟨code, message, rfl, hcode, -⟩ := rescue_error hr
    obtain ⟨bytes, hbytes⟩ := encode_failure rt.py hid hnest (.inr hcode) message
    have ha : Answers (.request r)
        (JsonRpcResponse.toDict ⟨r.id, .error ⟨.int code, message, .none⟩⟩) := ⟨_, rfl⟩
    have hg : Guarded rt (.request r)
        (JsonRpcResponse.toDict ⟨r.id, .error ⟨.int code, message, .none⟩⟩) none :=
      .inr ⟨bytes, hbytes⟩
    simp only [hr]
    refine send_turned hc hb hl ha hg (Nat.le_refl 2) fun e' he' => ?_
    rw [hbytes] at he'
    cases he'

/-- The exceptions that no clause of `_handle_request` answers. -/
def Unheard (rt : Runtime) (r : JsonRpcRequest) (result : Except Exn Value) (e : Exn) : Prop :=
  failure rt r result = some e ∧ rescue r false e = none

theorem failure_encode {v : Value} {e : DumpError}
    (h : encodeMessage rt.py (JsonRpcResponse.toDict ⟨r.id, .result v⟩) = .error e) :
    failure rt r (.ok v) = some (rt.raises e) := by
  simp only [failure, encode, h, Except.mapError]

theorem reply_turned (hid : Identifies r.id) (hnest : 2 ≤ rt.py.nesting) (hc : s.connected = true)
    (hb : s.broken = false) (hl : s.writeLock = .ofQueue q) (hcalm : s.isCancelling i = false)
    (result : Except Exn Value) :
    Turned rt (.request r) (Unheard rt r result) 3 i s (s.reply rt i r result) := by
  have hraise : ∀ e, failure rt r result = some e →
      Turned rt (.request r) (Unheard rt r result) 3 i s (s.raise rt i (some r) e) := by
    intro e he
    have hturned := @raise_turned rt (Unheard rt r result) i s q r hid hnest hc hb hl e
      (fun hn => ⟨he, hcalm ▸ hn⟩)
    exact hturned.mono (fun _ h => h) (by omega)
  cases result with
  | error e => exact hraise e rfl
  | ok v =>
    have ha : Answers (.request r) (JsonRpcResponse.toDict ⟨r.id, .result v⟩) := ⟨_, rfl⟩
    have hg : Guarded rt (.request r) (JsonRpcResponse.toDict ⟨r.id, .result v⟩) (some r) := rfl
    exact send_turned hc hb hl ha hg (Nat.le_refl 3) fun e he => hraise _ (failure_encode he)

end Server

end KestrelSdk.Service

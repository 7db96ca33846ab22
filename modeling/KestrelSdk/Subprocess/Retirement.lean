import KestrelSdk.Subprocess.State

namespace KestrelSdk.Subprocess

open Asyncio

namespace State

/-- Does an existing record already own the client, process or spawn task? -/
def ownsAny (x : Retirement) (client : Option Cid) (process spawn : Option Sid) : Bool :=
  (client.isSome && x.client = client) || (process.isSome && x.process = process) ||
    (spawn.isSome && x.spawnTask = spawn)

/-- `_adopt_retired_startup_tasks_locked`, together with the clearing of the live sets. -/
def adoptStartup (s : State) (r : Rid) (withStartup : Bool) : State :=
  if withStartup && !s.startupTasks.isEmpty then
    let x := s.records r
    { s.setRecord r { x with
        startupTasks := x.startupTasks ++ s.startupTasks.filter (· ∉ x.startupTasks)
        startupCancelRequested := x.startupCancelRequested ++ s.startupCancelRequested } with
      startupTasks := []
      startupCancelRequested := [] }
  else s

def createRetireTask (s : State) (r : Rid) : State :=
  let j := s.nextRetireTask
  { (s.setRetireTask j ⟨r, .init, s.now⟩).setRecord r { s.records r with task := some j } with
    nextRetireTask := j + 1 }

/-- Attach a spawn task to a record that was matched by another identity. -/
def attachSpawn (s : State) (r : Rid) (spawn : Option Sid) (spawnCancel : Bool) : State :=
  let x := s.records r
  match x.spawnTask, spawn with
  | none, some sp =>
      s.setRecord r { x with spawnTask := some sp, spawnCancelRequested := spawnCancel }
  | some _, some _ =>
      s.setRecord r { x with spawnCancelRequested := x.spawnCancelRequested || spawnCancel }
  | _, none => s

def newRetirement (s : State) (client : Option Cid) (process : Option Sid) (withStartup : Bool)
    (spawn : Option Sid) (spawnCancel : Bool) : State :=
  let r := s.nextRecord
  let s := { s.setRecord r { client, process, spawnTask := spawn,
                             spawnCancelRequested := spawnCancel } with nextRecord := r + 1 }
  let s := (s.adoptStartup r withStartup).createRetireTask r
  { s with retirements := s.retirements ++ [r] }

/-- `_claim_retirement_locked`. `withStartup` says that the live startup sets are passed. -/
def claimRetirementLocked (s : State) (client : Option Cid) (process : Option Sid)
    (withStartup : Bool) (spawn : Option Sid) (spawnCancel : Bool) : State × Option Rid :=
  if client.isNone && process.isNone && !(withStartup && !s.startupTasks.isEmpty) &&
      spawn.isNone then (s, none)
  else
    match s.retirements.find? (fun r => ownsAny (s.records r) client process spawn) with
    | some r => ((s.adoptStartup r withStartup).attachSpawn r spawn spawnCancel, some r)
    | none =>
        (s.newRetirement client process withStartup spawn spawnCancel, some s.nextRecord)

/-- `_remove_retirement_if_complete_locked`. -/
def removeRetirementIfCompleteLocked (s : State) (r : Rid) : State × Bool :=
  let x := s.records r
  if !x.startupTasks.isEmpty || x.spawnTask.isSome then (s, false)
  else if r ∈ s.retirements then ({ s with retirements := s.retirements.erase r }, true)
  else (s, false)

/-- `_cancel_retired_spawn_once`. -/
def cancelRetiredSpawnOnce (s : State) (r : Rid) (sp : Sid) : State :=
  let x := s.records r
  if s.spawnDone sp || x.spawnCancelRequested then s
  else (s.setRecord r { x with spawnCancelRequested := true }).log (.spawnCancelled sp)

/-- `_cancel_spawn_once`: the live slot first, then the record that holds the task. -/
def cancelSpawnOnce (s : State) (sp : Sid) : State :=
  if s.spawnDone sp then s
  else if s.spawnTask = some sp then
    if s.spawnCancelRequested then s
    else { s with spawnCancelRequested := true }.log (.spawnCancelled sp)
  else
    match s.retirements.find? (fun r => (s.records r).spawnTask = some sp) with
    | some r => s.cancelRetiredSpawnOnce r sp
    | none => s

/-- `_cancel_retired_startup_task_once`. -/
def cancelRetiredStartupTaskOnce (s : State) (r : Rid) (k : Kid) : State :=
  let x := s.records r
  if s.phaseDone k || k ∈ x.startupCancelRequested then s
  else (s.setRecord r { x with
    startupCancelRequested := k :: x.startupCancelRequested }).log (.startupCancelled k)

/-- `_cancel_startup_task_once`. -/
def cancelStartupTaskOnce (s : State) (k : Kid) : State :=
  if s.phaseDone k then s
  else if k ∈ s.startupTasks then
    if k ∈ s.startupCancelRequested then s
    else { s with startupCancelRequested := k :: s.startupCancelRequested }.log
      (.startupCancelled k)
  else
    match s.retirements.find? (fun r => k ∈ (s.records r).startupTasks) with
    | some r => s.cancelRetiredStartupTaskOnce r k
    | none => s

/-- `_finish_retired_startup_task`. -/
def finishRetiredStartupTask (s : State) (r : Rid) (k : Kid) : State :=
  let x := s.records r
  s.setRecord r { x with
    startupTasks := x.startupTasks.filter (· ≠ k)
    startupCancelRequested :=
      if k ∈ x.startupTasks then x.startupCancelRequested.filter (· ≠ k)
      else x.startupCancelRequested }

/-- `_finish_retired_shutdown_task` on a settled task. -/
def finishRetiredShutdownTask (s : State) (r : Rid) : State :=
  let x := s.records r
  match x.shutdownTask with
  | none => s
  | some c =>
    match (s.clients c).shutdown with
    | .done ok => s.setRecord r { x with
        shutdownSucceeded := ok, shutdownSettled := true, shutdownTask := none }
    | _ => s

/-- `_finish_retired_close_task` on a settled task. -/
def finishRetiredCloseTask (s : State) (r : Rid) : State :=
  let x := s.records r
  match x.closeTask with
  | none => s
  | some c =>
    match (s.clients c).close with
    | .done ok => s.setRecord r { x with
        closeSucceeded := ok, closeSettled := true, closeTask := none }
    | _ => s

/-- Suspend a `_retire_child` task. -/
def retireSuspend (s : State) (j : Jid) (pc : RetirePc) : State :=
  s.setRetireTask j { s.retireTasks j with pc := pc, since := s.now }

def retireReturn (s : State) (j : Jid) (result : Bool) : State :=
  s.setRetireTask j { s.retireTasks j with pc := .done result }

/-- `_wait_for_process` up to its await: the wait task is created once. -/
def startWait (s : State) (r : Rid) (p : Sid) : State :=
  let x := s.records r
  if x.waitTask then s
  else (((s.setRecord r { x with waitTask := true }).setProcess p
    { s.processes p with wait := .running }).log (.waitStarted p))

/-- The verdict of one bounded `_wait_for_process`. -/
def missExit (s : State) (p : Sid) : State :=
  if s.exitObserved p then s else s.log (.exitMissed p)

/-- The tail of `_retire_child`, after the close phase. -/
def retireConclude (s : State) (j : Jid) (r : Rid) (process : Option Sid) (clientRetired : Bool)
    (f : RetireFrame) : State :=
  match process with
  | none => s.retireReturn j clientRetired
  | some p =>
      if f.processRetired then s.retireReturn j clientRetired
      else if f.closeStarted && clientRetired then
        (s.startWait r p).retireSuspend j (.lastWait p)
      else s.retireReturn j false

/-- `close` settled or not: fold both phases and release the client. -/
def retireAfterClose (s : State) (j : Jid) (r : Rid) (process : Option Sid)
    (closeSettled closeSucceeded : Bool) (f : RetireFrame) : State :=
  let s := if f.shutdownSettled then s else s.finishRetiredShutdownTask r
  let shutdownSettled := f.shutdownSettled || (s.records r).shutdownSettled
  let clientRetired := f.pre && shutdownSettled && closeSettled && closeSucceeded &&
    (s.records r).startupTasks.isEmpty
  let s := if clientRetired then s.setRecord r { s.records r with client := none } else s
  s.retireConclude j r process clientRetired f

/-- The close phase. Without a client the two retired flags decide alone. -/
def retireClose (s : State) (j : Jid) (r : Rid) (process : Option Sid) (f : RetireFrame) : State :=
  match f.client with
  | none => s.retireConclude j r process f.pre f
  | some c =>
    let x := s.records r
    if x.closeAttempted then
      match x.closeTask with
      | none => s.retireAfterClose j r process x.closeSettled x.closeSucceeded f
      | some _ => s.retireSuspend j (.closeWait process c f)
    else
      (((s.setRecord r { x with closeTask := some c, closeAttempted := true }).setClient c
        { s.clients c with close := .running }).log (.closeStarted c)).retireSuspend j
          (.closeWait process c { f with closeStarted := true })

/-- `process.kill()` when the bounded wait after `terminate()` saw no exit. -/
def retireKill (s : State) (j : Jid) (r : Rid) (p : Sid) (f : RetireFrame) : State :=
  let x := s.records r
  if !f.processRetired && !(s.processes p).returncode && !x.killRequested then
    (((s.setRecord r { x with killRequested := true }).log (.kill p)).startWait r p).retireSuspend
      j (.killWait p f)
  else s.retireClose j r (some p) f

/-- `process.terminate()` when the first bounded wait saw no exit. -/
def retireTerminate (s : State) (j : Jid) (r : Rid) (p : Sid) (f : RetireFrame) : State :=
  let x := s.records r
  if f.processRetired then s.retireClose j r (some p) f
  else if !(s.processes p).returncode && !x.terminateRequested then
    (((s.setRecord r { x with terminateRequested := true }).log (.terminate p)).startWait
      r p).retireSuspend j (.terminateWait p f)
  else s.retireKill j r p f

def retireAfterShutdown (s : State) (j : Jid) (r : Rid) (f : RetireFrame) : State :=
  match (s.records r).process with
  | none => s.retireClose j r none { f with processRetired := true }
  | some p => (s.startWait r p).retireSuspend j (.exitWait p f)

/-- The shutdown phase; `pre` says that spawn and startup tasks have settled. -/
def retireAfterStartup (s : State) (j : Jid) (r : Rid) (pre : Bool) : State :=
  let x := s.records r
  match x.client with
  | none => s.retireAfterShutdown j r ⟨pre, none, true, false, false⟩
  | some c =>
    if x.shutdownAttempted then
      match x.shutdownTask with
      | none => s.retireAfterShutdown j r ⟨pre, some c, x.shutdownSettled, false, false⟩
      | some _ => s.retireSuspend j (.shutdownWait pre c)
    else
      (((s.setRecord r { x with shutdownTask := some c, shutdownAttempted := true }).setClient c
        { s.clients c with shutdown := .running }).log (.shutdownStarted c)).retireSuspend j
          (.shutdownWait pre c)

/-- `_retire_startup_tasks` up to its await. -/
def retireAfterSpawn (s : State) (j : Jid) (r : Rid) (spawnRetired : Bool) : State :=
  let tasks := (s.records r).startupTasks
  if tasks.isEmpty then s.retireAfterStartup j r spawnRetired
  else
    (tasks.foldl (fun s k => s.cancelRetiredStartupTaskOnce r k) s).retireSuspend j
      (.startupWait spawnRetired tasks)

/-- The tail of `_retire_spawn_task` once the spawn has settled: adopt a late process. -/
def adoptSpawn (s : State) (r : Rid) (sp : Sid) : State :=
  let x := s.records r
  match s.spawns sp, x.process with
  | .done (.process pipes), none =>
      if pipes then
        { (s.setRecord r { x with
              spawnTask := none, process := some sp, client := some s.nextClient }).setClient
            s.nextClient { process := sp } with nextClient := s.nextClient + 1 }
      else s.setRecord r { x with spawnTask := none, process := some sp }
  | _, _ => s.setRecord r { x with spawnTask := none }

/-- `_retire_child`, from one await to the next. -/
def retireChild (s : State) (j : Jid) : State :=
  let r := (s.retireTasks j).record
  let x := s.records r
  match (s.retireTasks j).pc with
  | .init =>
      match x.spawnTask with
      | none => s.retireAfterSpawn j r true
      | some sp => (s.cancelRetiredSpawnOnce r sp).retireSuspend j (.spawnWait sp)
  | .spawnWait sp =>
      if !s.spawnDone sp then s.retireAfterSpawn j r false
      else if x.spawnTask ≠ some sp then
        s.retireAfterSpawn j r (x.process.isSome || s.spawns sp = .done .failed ||
          s.spawns sp = .done .cancelled)
      else (s.adoptSpawn r sp).retireAfterSpawn j r true
  | .startupWait spawnRetired tasks =>
      let s := (tasks.filter s.phaseDone).foldl (fun s k => s.finishRetiredStartupTask r k) s
      s.retireAfterStartup j r (spawnRetired && (s.records r).startupTasks.isEmpty)
  | .shutdownWait pre c =>
      match (s.clients c).shutdown with
      | .done _ =>
          (s.finishRetiredShutdownTask r).retireAfterShutdown j r ⟨pre, some c, true, false, false⟩
      | _ => s.retireAfterShutdown j r ⟨pre, some c, false, false, false⟩
  | .exitWait p f =>
      (s.missExit p).retireTerminate j r p { f with processRetired := s.exitObserved p }
  | .terminateWait p f =>
      (s.missExit p).retireKill j r p { f with processRetired := s.exitObserved p }
  | .killWait p f =>
      (s.missExit p).retireClose j r (some p) { f with processRetired := s.exitObserved p }
  | .closeWait process c f =>
      match (s.clients c).close with
      | .done _ =>
          let s := s.finishRetiredCloseTask r
          s.retireAfterClose j r process true (s.records r).closeSucceeded f
      | _ => s.retireAfterClose j r process false false f
  | .lastWait p => (s.missExit p).retireReturn j (s.exitObserved p)
  | .done _ => s

end State

end KestrelSdk.Subprocess

import KestrelSdk.Subprocess.Retirement

namespace KestrelSdk.Subprocess

open Asyncio

/-- How an awaited call of the inner client came back. -/
inductive Inner where
  | returned
  | raised
  | cancelled
  deriving DecidableEq, Repr

namespace State

/-- `_start_is_settled_locked`. -/
def startIsSettledLocked (s : State) (g : Nat) : Bool :=
  s.startingGeneration ≠ some g && s.startSettled

/-- `_clear_settled_start_uncertainty_locked`. -/
def clearSettledStartUncertaintyLocked (s : State) : State :=
  match s.startUncertainGeneration with
  | some g =>
      if s.startIsSettledLocked g then { s with startUncertainGeneration := none } else s
  | none => s

/-- `_prune_completed_operations_locked`. -/
def pruneCompletedOperationsLocked (s : State) : State :=
  let completed := (s.activeOperations ++ s.retiringOperations).filter s.opDone
  { s with
    activeOperations := s.activeOperations.filter (!s.opDone ·)
    retiringOperations := s.retiringOperations.filter (!s.opDone ·)
    operationCancelRequested := s.operationCancelRequested.filter (· ∉ completed) }

/-- `_register_operation`; the flag is false when it raises. -/
def registerOperation (s : State) (t : Tid) : State × Bool :=
  let s := s.pruneCompletedOperationsLocked
  if s.stopping || !s.retiringOperations.isEmpty || !s.retirements.isEmpty ||
      s.startUncertainGeneration.isSome then (s, false)
  else
    (if t ∈ s.activeOperations then s
     else { s with activeOperations := t :: s.activeOperations }, true)

/-- `_unregister_operation`. -/
def unregisterOperation (s : State) (t : Tid) : State :=
  { s with
    activeOperations := s.activeOperations.filter (· ≠ t)
    operationCancelRequested :=
      if t ∈ s.retiringOperations then s.operationCancelRequested
      else s.operationCancelRequested.filter (· ≠ t) }

/-- `_unregister_successful_start_at_return`. -/
def unregisterSuccessfulStartAtReturn (s : State) (t : Tid) : State :=
  { s with
    activeOperations := s.activeOperations.filter (· ≠ t)
    operationCancelRequested := s.operationCancelRequested.filter (· ≠ t) }

def releaseLock (s : State) : State := { s with lifecycleLock := s.lifecycleLock.release }

/-- Leave the lifecycle section and await the private unregister task. -/
def leave (s : State) (t : Tid) (e : Exit) : State :=
  s.releaseLock.suspend t (.unregistering e (.pending s.now))

/-- `_published_child_is_terminal_locked`. -/
def publishedChildIsTerminalLocked (s : State) : Bool :=
  (match s.process with | some p => (s.processes p).returncode | none => false) ||
  (match s.client with | some c => (s.clients c).closedExc | none => false)

def startRaise (s : State) (t : Tid) (failure : Failure) (cancelled : Bool) : State :=
  s.leave t { kind := .start, failure := some failure, cancelled }

/-- `_start` returned: `start()` unregisters and returns without another await. -/
def startReturn (s : State) (t : Tid) : State :=
  (s.releaseLock.unregisterSuccessfulStartAtReturn t).endCall t
    (.start t (s.ops t).spawned none)

/-- A stop attempt whose task is not done. -/
def stopUnfinished (s : State) : Bool :=
  match s.stopTask with
  | some a => (s.attemptResult a).isNone
  | none => false

/-- The admission guard of `_start`. -/
def startRefused (s : State) : Bool :=
  s.stopping || s.starting || s.startUncertainGeneration.isSome || !s.retirements.isEmpty ||
    !s.retiringOperations.isEmpty || s.stopUnfinished

/-- Take the start slot and create the spawn task. -/
def startIssue (s : State) (t : Tid) : State :=
  let sp := s.nextSpawn
  { s with
    stopTask := none
    starting := true
    startingGeneration := some s.generation
    startSettled := false
    spawnTask := some sp
    spawnCancelRequested := false
    spawns := Function.update s.spawns sp .running
    nextSpawn := sp + 1
    issued := some sp
    ops := Function.update s.ops t
      { pc := .start (.spawning { generation := s.generation, spawnTask := some sp })
        since := s.now, spawned := some sp } }

def startAdmit (s : State) (t : Tid) : State :=
  if s.startRefused then s.startRaise t .retirementInProgress false else s.startIssue t

/-- `_retire_terminal_published_child` up to its await. The claim makes a new
record, whose task cannot be done yet. -/
def retireTerminalPublishedChild (s : State) (t : Tid) : State :=
  let s' := { s with client := none, process := none, generation := s.generation + 1 }
  match s'.claimRetirementLocked s.client s.process false none false with
  | (s', some r) =>
    match (s'.records r).task with
    | some j => s'.suspend t (.start (.terminal r j false))
    | none => s'.startRaise t .retirementUnresolved false
  | (s', none) => s'.clearSettledStartUncertaintyLocked.startAdmit t

/-- The admission section of `_start`. A published child is kept while it is live. -/
def startAdmission (s : State) (t : Tid) : State :=
  let s := s.clearSettledStartUncertaintyLocked
  if s.process.isSome || s.client.isSome then
    if !s.publishedChildIsTerminalLocked then s.startReturn t
    else s.retireTerminalPublishedChild t
  else s.startAdmit t

/-- `_start` from the top of its admission loop. -/
def startBody (s : State) (t : Tid) : State :=
  if s.publishedChildIsTerminalLocked then s.retireTerminalPublishedChild t
  else s.startAdmission t

/-- After the terminal child's retirement task is done. -/
def startAfterTerminal (s : State) (t : Tid) (r : Rid) (complete cancelled : Bool) : State :=
  if !complete then s.startRaise t .retirementUnresolved cancelled
  else
    match s.removeRetirementIfCompleteLocked r with
    | (s, false) => s.startRaise t .retirementUnresolved cancelled
    | (s, true) =>
        if cancelled then s.startRaise t .cancelled true else s.startAdmission t

/-- `finally` of `_start`: create the finalizer and await it. -/
def startFinalize (s : State) (t : Tid) (f : StartFrame) : State :=
  s.suspend t (.start (.finalizing f (.pending s.now)))

/-- `except` of `_start`: hand the child or the spawn task to a private claim. -/
def startFailed (s : State) (t : Tid) (f : StartFrame) (failure : Failure) : State :=
  let f := { f with failure := some failure, cancelled := failure = .cancelled }
  if f.process.isSome || f.spawnTask.isSome then
    let f := { f with claimed := true }
    s.suspend t (.start (.retiring f ⟨f.client, f.process, f.spawnTask, .pending s.now⟩))
  else s.startFinalize t f

/-- `_await_startup_phase` up to its await. -/
def startPhase (s : State) (t : Tid) (f : StartFrame) (kind : Phase) : State :=
  let k := s.nextPhase
  let s := { s with
    nextPhase := k + 1
    phases := Function.update s.phases k .running
    startupTasks := s.startupTasks ++ [k] }
  s.suspend t (.start (.phase f kind k))

/-- The spawn has returned a process: publish it and begin the handshake. -/
def startPublish (s : State) (t : Tid) (f : StartFrame) (p : Sid) (pipes : Bool) : State :=
  let s := if s.spawnTask = some p then
      { s with spawnTask := none, spawnCancelRequested := false } else s
  let f := { f with spawnTask := none, process := some p }
  if !pipes then s.startFailed t f .stdioMissing
  else
    let c := s.nextClient
    let s := { s with
      nextClient := c + 1
      clients := Function.update s.clients c { process := p }
      process := some p
      client := some c }
    s.startPhase t { f with client := some c } .handshake

/-- `_await_spawn_phase` after its await. -/
def startAfterSpawn (s : State) (t : Tid) (f : StartFrame) (sp : Sid) (cancelled : Bool) : State :=
  if cancelled then (s.cancelSpawnOnce sp).startFailed t f .cancelled
  else
    match s.spawns sp with
    | .running => (s.cancelSpawnOnce sp).startFailed t f .timeout
    | .done .failed => s.startFailed t f .spawnFailed
    | .done .cancelled => s.startFailed t f .phaseCancelled
    | .done (.process pipes) => s.startPublish t f sp pipes

/-- `_await_startup_phase` after its await, and the phase that follows. -/
def startAfterPhase (s : State) (t : Tid) (f : StartFrame) (kind : Phase) (k : Kid)
    (cancelled : Bool) : State :=
  if cancelled then (s.cancelStartupTaskOnce k).startFailed t f .cancelled
  else
    match s.phases k with
    | .running => (s.cancelStartupTaskOnce k).startFailed t f .timeout
    | .done .failed => s.startFailed t f .phaseFailed
    | .done .cancelled => s.startFailed t f .phaseCancelled
    | .done (.returned ready) =>
      match kind with
      | .handshake => s.startPhase t f .health
      | .health => s.startPhase t f (if ready then .listTools else .sleep)
      | .sleep => s.startPhase t f .health
      | .listTools => s.startFinalize t f

/-- The last lines of `_start`. -/
def startExit (s : State) (t : Tid) (f : StartFrame) : State :=
  if f.cancelled then s.startRaise t .cancelled true
  else
    match f.failure with
    | some e => s.startRaise t e false
    | none => s.startReturn t

/-- After the finalizer: a cancellation that arrived meanwhile still retires the child. -/
def startAfterFinalize (s : State) (t : Tid) (f : StartFrame) : State :=
  if !f.claimed && (f.cancelled || f.failure.isSome) && (f.client.isSome || f.process.isSome) then
    s.suspend t (.start (.lateRetiring { f with claimed := true }
      ⟨f.client, f.process, none, .pending s.now⟩))
  else s.startExit t f

/-- `_finalize_start`. -/
def finalizeStart (s : State) (g : Nat) : State :=
  if s.startingGeneration = some g then
    { s with
      starting := false
      startingGeneration := none
      startUncertainGeneration :=
        if s.startUncertainGeneration = some g then none else s.startUncertainGeneration
      startSettled := true }
  else s

/-- `_retire_startup_child` up to its await. -/
def retireStartupChild (s : State) (c : Claim) : State × ClaimPc :=
  let s := if (c.client.isSome || c.process.isSome) && s.client = c.client &&
      s.process = c.process then
      { s with client := none, process := none, generation := s.generation + 1 } else s
  let spawnCancel := s.spawnTask = c.spawnTask && s.spawnCancelRequested
  let s := if s.spawnTask = c.spawnTask then
      { s with spawnTask := none, spawnCancelRequested := false } else s
  match s.claimRetirementLocked c.client c.process true c.spawnTask spawnCancel with
  | (s, none) => (s, .finished true)
  | (s, some r) =>
    match (s.records r).task with
    | none => (s, .finished false)
    | some j => (s, .awaiting r j s.now)

/-- `_retire_startup_child` after its await. -/
def retireStartupChildDone (s : State) (r : Rid) (complete : Bool) : State × ClaimPc :=
  if complete then
    match s.removeRetirementIfCompleteLocked r with
    | (s, b) => (s, .finished b)
  else (s, .finished false)

/-- The end of a public call: raise the newest cancellation, else the failure. -/
def finishCall (s : State) (t : Tid) (e : Exit) : State :=
  let raised := if e.cancelled then some Failure.cancelled else e.failure
  match e.kind with
  | .start => s.endCall t (.start t (s.ops t).spawned raised)
  | .health => s.endCall t (.health t raised)
  | .transition n => s.endCall t (.transition t n raised)

/-- After the unregister task: `_retire_start_result_owned` for a start that had
completed when its caller was cancelled. -/
def afterUnregister (s : State) (t : Tid) (e : Exit) : State :=
  match e.started with
  | some g =>
    if (e.cancelled || e.failure.isSome) && s.generation = g &&
        (s.client.isSome || s.process.isSome) then
      s.suspend t (.resultRetiring e ⟨s.client, s.process, none, .pending s.now⟩)
    else s.finishCall t e
  | none => s.finishCall t e

/-- `_current_client`. -/
def currentClient (s : State) : Except Failure (Cid × Nat) :=
  match s.client with
  | none => .error .notStarted
  | some c => if s.stopping then .error .stopInProgress else .ok (c, s.generation)

/-- `health` once the lifecycle lock is held. -/
def healthBody (s : State) (t : Tid) : State :=
  match s.currentClient with
  | .error e => s.leave t { kind := .health, failure := some e }
  | .ok (c, g) => s.suspend t (.probing c g)

def healthAfter (s : State) (t : Tid) (c : Cid) (g : Nat) (o : Inner) : State :=
  match o with
  | .cancelled => s.leave t { kind := .health, failure := some .cancelled, cancelled := true }
  | .raised => s.leave t { kind := .health, failure := some .inner }
  | .returned =>
    if g ≠ s.generation || s.client ≠ some c then
      s.leave t { kind := .health, failure := some .stoppedDuringHealth }
    else s.leave t { kind := .health }

/-- `prepare_config_transition` once the lifecycle lock is held. -/
def transitionBody (s : State) (t : Tid) (n : Nat) (next : Cfg) : State :=
  match s.currentClient with
  | .error e => s.leave t { kind := .transition n, failure := some e }
  | .ok (c, g) =>
    let was := (s.clients c).fenced
    let s := s.setTransition n { s.transitions n with alreadyFenced := was }
    if was then s.suspend t (.applying ⟨n, c, true, none, none, false⟩)
    else
      let pending : Pending := ⟨n, s.config, next⟩
      if g ≠ s.generation || s.client ≠ some c then
        s.leave t { kind := .transition n, failure := some .stoppedBeforeTransition }
      else
        { s with pendingTransition := some pending }.suspend t
          (.applying ⟨n, c, false, some pending, none, false⟩)

/-- `prepare_config_transition` after the inner call: hand the outcome to the finisher. -/
def transitionAfter (s : State) (t : Tid) (f : TransitionFrame) (o : Inner) : State :=
  let fenced := (s.clients f.client).fenced
  let newly := !f.wasReplacementRequired && fenced
  let retain := o = .returned || newly
  let f := { f with
    failure := match o with
      | .returned => none | .raised => some .inner | .cancelled => some .cancelled
    cancelled := decide (o = Inner.cancelled) }
  let s := s.setTransition f.call { s.transitions f.call with
    returned := o = .returned, newlyFenced := o ≠ .returned && newly }
  match f.pending with
  | none => s.leave t
      { kind := .transition f.call, failure := f.failure, cancelled := f.cancelled }
  | some _ => s.suspend t (.finishing f retain (.pending s.now))

/-- `_finish_transition`. -/
def finishTransition (s : State) (p : Pending) (retain : Bool) : State :=
  if s.pendingTransition = some p then
    let s := if retain then
        s.setTransition p.call { s.transitions p.call with retained := true } else s
    { s with
      config := if retain then p.nextConfig else p.previousConfig
      pendingTransition := none }
  else s

/-- `Task.cancel()` on a caller suspended inside one of the wrapper's methods. -/
def cancelOp (s : State) (t : Tid) : State :=
  match (s.ops t).pc with
  | .idle => s
  | .finished => s
  | _ =>
    { s.setOp t { s.ops t with cancelAt := some ((s.ops t).cancelAt.getD s.now) } with
      lifecycleLock := s.lifecycleLock.cancelWaiter t }

end State

end KestrelSdk.Subprocess

import KestrelSdk.Subprocess.Operations

namespace KestrelSdk.Subprocess

open Asyncio

namespace State

def attemptSuspend (s : State) (a : Aid) (pc : AttemptPc) : State :=
  s.setAttempt a { s.attempts a with pc := pc, since := s.now }

/-- `finally` of `_run_stop_attempt`. -/
def attemptReturn (s : State) (a : Aid) (result : Bool) : State :=
  { s.setAttempt a { s.attempts a with pc := .done result } with stopping := false }

/-- `_observe_retiring_operations` up to its await. -/
def attemptObserve (s : State) (a : Aid) (childrenRetired : Bool) : State :=
  let s := s.pruneCompletedOperationsLocked
  if s.retiringOperations.isEmpty then s.attemptReturn a childrenRetired
  else s.attemptSuspend a (.observe childrenRetired s.retiringOperations)

/-- The last section of `_reap_owned_children`. -/
def attemptConclude (s : State) (a : Aid) (retired : List Rid) : State :=
  let s := retired.foldl (fun s r => (s.removeRetirementIfCompleteLocked r).1) s
  let s := s.clearSettledStartUncertaintyLocked
  s.attemptObserve a (s.retirements.isEmpty && s.startUncertainGeneration.isNone)

/-- Join the retirements one by one. A task already done does not suspend. -/
def attemptJoin (s : State) (a : Aid) : List Rid → List Rid → State
  | [], retired => s.attemptConclude a retired
  | r :: todo, retired =>
    match (s.records r).task with
    | none => s.attemptReturn a false
    | some j =>
      match s.retireResult j with
      | some b => s.attemptJoin a todo (if b then retired ++ [r] else retired)
      | none => s.attemptSuspend a (.reap r j todo retired)

/-- Give a record whose last attempt failed, or that still owns tasks, a fresh one. -/
def retryRetirement (s : State) (r : Rid) : State :=
  let x := s.records r
  match x.task with
  | none => s.createRetireTask r
  | some j =>
    match s.retireResult j with
    | some b =>
        if !b || !x.startupTasks.isEmpty || x.spawnTask.isSome then s.createRetireTask r else s
    | none => s

/-- `_reap_owned_children`. -/
def attemptReap (s : State) (a : Aid) : State :=
  let s := s.clearSettledStartUncertaintyLocked
  let s := s.retirements.foldl retryRetirement s
  if s.retirements.isEmpty then s.attemptObserve a s.startUncertainGeneration.isNone
  else s.attemptJoin a s.retirements []

/-- After the second `_wait_for_start_settlement`. -/
def attemptSettledTwice (s : State) (a : Aid) (settled : Bool) : State :=
  if settled then s.clearSettledStartUncertaintyLocked.attemptReap a
  else s.attemptReturn a false

/-- After the first `_wait_for_start_settlement`: fence the generation and wait once more. -/
def attemptSettled (s : State) (a : Aid) (g : Nat) (settled : Bool) : State :=
  if settled then s.attemptReap a
  else
    let s := if s.startIsSettledLocked g then s.clearSettledStartUncertaintyLocked
      else { s with startUncertainGeneration := some g }
    if s.startSettled then s.attemptSettledTwice a (s.startIsSettledLocked g)
    else s.attemptSuspend a (.settle true g)

/-- Transfer every live operation except the stop caller's own task. -/
def transferOperations (s : State) (operations : List Tid) : State :=
  { s with
    activeOperations := s.activeOperations.filter (· ∉ operations)
    retiringOperations := s.retiringOperations ++
      operations.filter (· ∉ s.retiringOperations)
    operationCancelRequested := s.operationCancelRequested ++
      operations.filter (· ∉ s.operationCancelRequested) }

/-- A started transition keeps its next config across the stop. -/
def takePendingTransition (s : State) : State :=
  match s.pendingTransition with
  | none => s
  | some p =>
    { s.setTransition p.call { s.transitions p.call with stopped := true, retained := true } with
      config := p.nextConfig
      pendingTransition := none }

/-- Detach the published pair and the live spawn into one retirement. -/
def detachOwned (s : State) : State :=
  let client := s.client
  let process := s.process
  let spawn := if s.startingGeneration.isSome then s.spawnTask else none
  let spawnCancel := s.spawnCancelRequested
  let s := { s with client := none, process := none }
  let s := if spawn.isSome then
      { s with spawnTask := none, spawnCancelRequested := false } else s
  (s.claimRetirementLocked client process s.startingGeneration.isSome spawn spawnCancel).1

/-- The first section of `_run_stop_attempt` and the cancellations after it. -/
def attemptDetach (s : State) (caller : Tid) : State :=
  let s := { s with stopping := true }.clearSettledStartUncertaintyLocked
  let s := { s with generation := s.generation + 1 }.takePendingTransition
  let operations := s.activeOperations.filter (fun t => t ≠ caller && !s.opDone t)
  let s := (s.transferOperations operations).detachOwned
  operations.foldl (fun s t => (s.cancelOp t).log (.operationCancelled t)) s

/-- `_run_stop_attempt` from its first step to its first await. -/
def attemptBegin (s : State) (a : Aid) (caller : Tid) : State :=
  let s := s.attemptDetach caller
  match s.startingGeneration with
  | none => s.attemptReap a
  | some g =>
    if s.startSettled then s.attemptSettled a g (s.startIsSettledLocked g)
    else s.attemptSuspend a (.settle false g)

/-- `_run_stop_attempt`, from one await to the next. -/
def runStopAttempt (s : State) (a : Aid) (timedOut : Bool) : State :=
  match (s.attempts a).pc with
  | .init caller => s.attemptBegin a caller
  | .settle false g => s.attemptSettled a g (!timedOut && s.startIsSettledLocked g)
  | .settle true g => s.attemptSettledTwice a (!timedOut && s.startIsSettledLocked g)
  | .reap r j todo retired =>
    match s.retireResult j with
    | some b => s.attemptJoin a todo (if b then retired ++ [r] else retired)
    | none => s
  | .observe childrenRetired _ =>
      let s := s.pruneCompletedOperationsLocked
      s.attemptReturn a (childrenRetired && s.retiringOperations.isEmpty)
  | .done _ => s

/-- The end of `stop()` once its attempt has a result. -/
def stopReturn (s : State) (t : Tid) (mark : Nat) (cancelled retired : Bool) : State :=
  s.endCall t (.stop t mark
    (if cancelled then some .cancelled
     else if retired then none else some .retirementUnresolved))

/-- `stop()` up to its await: join the attempt in progress, reuse a finished
successful one, or create a new one. -/
def stopCall (s : State) (t : Tid) : State :=
  let fresh : State :=
    let a := s.nextAttempt
    { (s.setAttempt a ⟨.init t, s.now, s.nextSpawn⟩).suspend t
        (.stopping a s.nextSpawn false) with nextAttempt := a + 1, stopTask := some a }
  match s.stopTask with
  | none => fresh
  | some a =>
    match s.attemptResult a with
    | some true => s.stopReturn t s.nextSpawn false true
    | some false => fresh
    | none => s.suspend t (.stopping a s.nextSpawn false)

end State

end KestrelSdk.Subprocess

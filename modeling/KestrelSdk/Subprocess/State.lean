import KestrelSdk.Asyncio.Lock

namespace KestrelSdk.Subprocess

open Asyncio

abbrev Tid := Nat
/-- A spawn task; the process it returns carries the same number. -/
abbrev Sid := Nat
abbrev Cid := Nat
abbrev Kid := Nat
abbrev Rid := Nat
abbrev Jid := Nat
abbrev Aid := Nat
/-- A configuration dictionary, by object identity. -/
abbrev Cfg := Nat

/-- What `create_subprocess_exec` ended with. -/
inductive SpawnResult where
  | process (pipes : Bool)
  | failed
  | cancelled
  deriving DecidableEq, Repr

inductive SpawnTask where
  | running
  | done (result : SpawnResult)
  deriving DecidableEq, Repr

/-- A task whose body runs outside the wrapper: a client's `shutdown()` or `close()`. -/
inductive Job where
  | absent
  | running
  | done (ok : Bool)
  deriving DecidableEq, Repr

/-- The one `process.wait()` task; `result` says whether it returned a code. -/
inductive WaitJob where
  | absent
  | running
  | done (ok result : Bool)
  deriving DecidableEq, Repr

structure Process where
  returncode : Bool := false
  wait : WaitJob := .absent
  deriving DecidableEq, Repr

/-- An inner client over the pipes of `process`. -/
structure Client where
  process : Sid := 0
  fenced : Bool := false
  closedExc : Bool := false
  shutdown : Job := .absent
  close : Job := .absent
  deriving DecidableEq, Repr

inductive Phase where
  | handshake
  | health
  | sleep
  | listTools
  deriving DecidableEq, Repr

inductive PhaseResult where
  | returned (ready : Bool)
  | failed
  | cancelled
  deriving DecidableEq, Repr

inductive PhaseTask where
  | running
  | done (result : PhaseResult)
  deriving DecidableEq, Repr

/-- Why a public call raises. -/
inductive Failure where
  | cancelled
  | retirementInProgress
  | retirementUnresolved
  | stdioMissing
  | spawnFailed
  | phaseFailed
  | phaseCancelled
  | timeout
  | notStarted
  | stopInProgress
  | stoppedDuringHealth
  | stoppedBeforeTransition
  | inner
  deriving DecidableEq, Repr

/-- `_ChildRetirement`. The phase tasks are named by the client they belong to. -/
structure Retirement where
  client : Option Cid := none
  process : Option Sid := none
  task : Option Jid := none
  waitTask : Bool := false
  shutdownTask : Option Cid := none
  closeTask : Option Cid := none
  shutdownAttempted : Bool := false
  shutdownSettled : Bool := false
  shutdownSucceeded : Bool := false
  closeAttempted : Bool := false
  closeSettled : Bool := false
  closeSucceeded : Bool := false
  terminateRequested : Bool := false
  killRequested : Bool := false
  spawnTask : Option Sid := none
  spawnCancelRequested : Bool := false
  startupTasks : List Kid := []
  startupCancelRequested : List Kid := []
  deriving DecidableEq, Repr

/-- Locals of `_retire_child` that survive its awaits. `pre` is the conjunction
of `spawn_retired` and `startup_retired`. -/
structure RetireFrame where
  pre : Bool
  client : Option Cid
  shutdownSettled : Bool
  processRetired : Bool := false
  closeStarted : Bool := false
  deriving DecidableEq, Repr

/-- The awaits of `_retire_child`. `exitWait` is one bounded `_wait_for_process`. -/
inductive RetirePc where
  | init
  | spawnWait (spawn : Sid)
  | startupWait (spawnRetired : Bool) (tasks : List Kid)
  | shutdownWait (pre : Bool) (client : Cid)
  | exitWait (process : Sid) (f : RetireFrame)
  | terminateWait (process : Sid) (f : RetireFrame)
  | killWait (process : Sid) (f : RetireFrame)
  | closeWait (process : Option Sid) (client : Cid) (f : RetireFrame)
  | lastWait (process : Sid)
  | done (result : Bool)
  deriving DecidableEq, Repr

/-- A `_retire_child` task; `since` is the iteration of its last suspension. -/
structure RetireTask where
  record : Rid := 0
  pc : RetirePc := .init
  since : Nat := 0
  deriving DecidableEq, Repr

/-- A private one-step task awaited by its creator: created, or finished. -/
inductive Helper where
  | pending (created : Nat)
  | finished (time : Nat)
  deriving DecidableEq, Repr

inductive ClaimPc where
  | pending (created : Nat)
  | awaiting (record : Rid) (task : Jid) (since : Nat)
  | finished (complete : Bool)
  deriving DecidableEq, Repr

/-- The private `_retire_startup_child` task with its arguments. -/
structure Claim where
  client : Option Cid
  process : Option Sid
  spawnTask : Option Sid
  pc : ClaimPc
  deriving DecidableEq, Repr

/-- Locals of an admitted `_start`. -/
structure StartFrame where
  generation : Nat
  spawnTask : Option Sid := none
  process : Option Sid := none
  client : Option Cid := none
  failure : Option Failure := none
  cancelled : Bool := false
  claimed : Bool := false
  deriving DecidableEq, Repr

inductive StartPc where
  | queued
  | terminal (record : Rid) (task : Jid) (cancelled : Bool)
  | spawning (f : StartFrame)
  | phase (f : StartFrame) (kind : Phase) (task : Kid)
  | retiring (f : StartFrame) (claim : Claim)
  | finalizing (f : StartFrame) (finalizer : Helper)
  | lateRetiring (f : StartFrame) (claim : Claim)
  deriving DecidableEq, Repr

/-- `_PendingConfigTransition`, with the call it belongs to. -/
structure Pending where
  call : Nat
  previousConfig : Cfg
  nextConfig : Cfg
  deriving DecidableEq, Repr

structure TransitionFrame where
  call : Nat
  client : Cid
  wasReplacementRequired : Bool
  pending : Option Pending
  failure : Option Failure := none
  cancelled : Bool := false
  deriving DecidableEq, Repr

inductive Kind where
  | start
  | health
  | transition (call : Nat)
  deriving DecidableEq, Repr

/-- How an operation leaves its lifecycle section. -/
structure Exit where
  kind : Kind
  started : Option Nat := none
  failure : Option Failure := none
  cancelled : Bool := false
  deriving DecidableEq, Repr

inductive OpPc where
  | idle
  | finished
  | start (pc : StartPc)
  | healthQueued
  | probing (client : Cid) (generation : Nat)
  | transitionQueued (call : Nat) (next : Cfg)
  | applying (f : TransitionFrame)
  | finishing (f : TransitionFrame) (retain : Bool) (finisher : Helper)
  | unregistering (e : Exit) (unregister : Helper)
  | resultRetiring (e : Exit) (claim : Claim)
  | stopping (attempt : Aid) (mark : Nat) (cancelled : Bool)
  deriving DecidableEq, Repr

/-- A caller's asyncio task. `cancelAt` is a cancellation not yet delivered,
`spawned` the spawn issued by the current call. -/
structure Op where
  pc : OpPc := .idle
  since : Nat := 0
  cancelAt : Option Nat := none
  spawned : Option Sid := none
  deriving DecidableEq, Repr

inductive AttemptPc where
  | init (caller : Tid)
  | settle (second : Bool) (generation : Nat)
  | reap (current : Rid) (task : Jid) (todo retired : List Rid)
  | observe (childrenRetired : Bool) (operations : List Tid)
  | done (result : Bool)
  deriving DecidableEq, Repr

/-- A `_run_stop_attempt` task; `mark` counts the starts admitted before it. -/
structure Attempt where
  pc : AttemptPc := .done false
  since : Nat := 0
  mark : Nat := 0
  deriving DecidableEq, Repr

inductive Late where
  | absent
  | pending (record : Rid) (created : Nat)
  | awaiting (record : Rid) (task : Jid) (since : Nat)
  | finished
  deriving DecidableEq, Repr

/-- Effects on a child and on the tasks it owns. `exitMissed` is a bounded
wait that ended without observing the exit. -/
inductive Effect where
  | terminate (process : Sid)
  | kill (process : Sid)
  | waitStarted (process : Sid)
  | exitMissed (process : Sid)
  | shutdownStarted (client : Cid)
  | closeStarted (client : Cid)
  | spawnCancelled (spawn : Sid)
  | startupCancelled (task : Kid)
  | operationCancelled (task : Tid)
  deriving DecidableEq, Repr

/-- The public call that the last step completed. -/
inductive Ended where
  | start (t : Tid) (spawned : Option Sid) (raised : Option Failure)
  | stop (t : Tid) (mark : Nat) (raised : Option Failure)
  | health (t : Tid) (raised : Option Failure)
  | transition (t : Tid) (call : Nat) (raised : Option Failure)
  deriving DecidableEq, Repr

/-- What happened to one `prepare_config_transition` call. -/
structure TransitionLog where
  next : Cfg := 0
  alreadyFenced : Bool := false
  returned : Bool := false
  newlyFenced : Bool := false
  stopped : Bool := false
  retained : Bool := false
  deriving DecidableEq, Repr

/-- `SubprocessIsolatedFeatureClient`, the tasks that run its methods, and the
objects they own. `now` counts iterations of the event loop. -/
structure State where
  now : Nat := 0
  config : Cfg := 0
  process : Option Sid := none
  client : Option Cid := none
  lifecycleLock : FifoLock := {}
  activeOperations : List Tid := []
  retiringOperations : List Tid := []
  operationCancelRequested : List Tid := []
  pendingTransition : Option Pending := none
  retirements : List Rid := []
  stopTask : Option Aid := none
  starting : Bool := false
  startingGeneration : Option Nat := none
  startUncertainGeneration : Option Nat := none
  startSettled : Bool := true
  startupTasks : List Kid := []
  startupCancelRequested : List Kid := []
  spawnTask : Option Sid := none
  spawnCancelRequested : Bool := false
  generation : Nat := 0
  stopping : Bool := false
  ops : Tid → Op := fun _ => {}
  records : Rid → Retirement := fun _ => {}
  retireTasks : Jid → RetireTask := fun _ => {}
  attempts : Aid → Attempt := fun _ => {}
  lates : Sid → Late := fun _ => .absent
  spawns : Sid → SpawnTask := fun _ => .running
  processes : Sid → Process := fun _ => {}
  clients : Cid → Client := fun _ => {}
  phases : Kid → PhaseTask := fun _ => .running
  nextSpawn : Nat := 0
  nextClient : Nat := 0
  nextPhase : Nat := 0
  nextRecord : Nat := 0
  nextRetireTask : Nat := 0
  nextAttempt : Nat := 0
  nextCall : Nat := 0
  effects : List Effect := []
  transitions : Nat → TransitionLog := fun _ => {}
  issued : Option Sid := none
  ended : Option Ended := none

namespace State

def setOp (s : State) (t : Tid) (o : Op) : State :=
  { s with ops := Function.update s.ops t o }

def setRecord (s : State) (r : Rid) (x : Retirement) : State :=
  { s with records := Function.update s.records r x }

def setRetireTask (s : State) (j : Jid) (x : RetireTask) : State :=
  { s with retireTasks := Function.update s.retireTasks j x }

def setAttempt (s : State) (a : Aid) (x : Attempt) : State :=
  { s with attempts := Function.update s.attempts a x }

def setLate (s : State) (sp : Sid) (x : Late) : State :=
  { s with lates := Function.update s.lates sp x }

def setProcess (s : State) (p : Sid) (x : Process) : State :=
  { s with processes := Function.update s.processes p x }

def setClient (s : State) (c : Cid) (x : Client) : State :=
  { s with clients := Function.update s.clients c x }

def setTransition (s : State) (n : Nat) (x : TransitionLog) : State :=
  { s with transitions := Function.update s.transitions n x }

def log (s : State) (e : Effect) : State := { s with effects := e :: s.effects }

/-- Suspend the current handle of `t` at `pc`, its pending cancellation consumed. -/
def suspend (s : State) (t : Tid) (pc : OpPc) : State :=
  s.setOp t { s.ops t with pc := pc, since := s.now, cancelAt := none }

def endCall (s : State) (t : Tid) (e : Ended) : State :=
  { s.setOp t {} with ended := some e }

/-- `operation.done()`. -/
def opDone (s : State) (t : Tid) : Bool := (s.ops t).pc = .finished

def spawnDone (s : State) (sp : Sid) : Bool := s.spawns sp ≠ .running

/-- The spawn task has returned a process. -/
def produced (s : State) (sp : Sid) : Bool :=
  match s.spawns sp with
  | .done (.process _) => true
  | _ => false

def phaseDone (s : State) (k : Kid) : Bool := s.phases k ≠ .running

def retireResult (s : State) (j : Jid) : Option Bool :=
  match (s.retireTasks j).pc with
  | .done b => some b
  | _ => none

def attemptResult (s : State) (a : Aid) : Option Bool :=
  match (s.attempts a).pc with
  | .done b => some b
  | _ => none

/-- `_wait_for_process` on the settled state of the wait task. -/
def exitObserved (s : State) (p : Sid) : Bool :=
  match (s.processes p).wait with
  | .done ok result => (s.processes p).returncode || (ok && result)
  | _ => false

end State

end KestrelSdk.Subprocess

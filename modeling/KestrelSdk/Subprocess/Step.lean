import KestrelSdk.Asyncio.Machine
import KestrelSdk.Subprocess.Stop

namespace KestrelSdk.Subprocess

open Asyncio

inductive Call where
  | start
  | stop
  | health
  | transition (next : Cfg)
  deriving DecidableEq, Repr

/-- One handle of the event loop, or one event of the world outside.

Iterations of the loop are levels of the FIFO ready queue: a handle queued in
one iteration runs in the next. A created task takes its first step one
iteration later, a cancelled caller wakes at most one iteration later, and an
await on another task needs its completion callback and then the wakeup, so at
least two. The order inside one iteration is left open, a bounded wait may end
at any time, and a handle may even be left behind by `tick`; every run of the
FIFO loop is among these runs. No section under `_state_lock` or `_stop_lock`
awaits, so neither lock is ever found taken. -/
inductive Action where
  | tick
  | call (t : Tid) (c : Call)
  | finish (t : Tid)
  | cancel (t : Tid)
  | resume (t : Tid) (o : Inner) (fence : Bool)
  | claim (t : Tid)
  | finalize (t : Tid)
  | finishTransition (t : Tid)
  | unregister (t : Tid)
  | releaseOperation (t : Tid)
  | attempt (a : Aid) (timedOut : Bool)
  | retire (j : Jid)
  | spawnDone (sp : Sid) (result : SpawnResult)
  | spawnCallback (sp : Sid)
  | late (sp : Sid)
  | phaseDone (k : Kid) (result : PhaseResult)
  | phaseCallback (k : Kid)
  | retiredPhaseCallback (r : Rid) (k : Kid)
  | shutdownDone (c : Cid) (ok : Bool)
  | shutdownCallback (r : Rid)
  | closeDone (c : Cid) (ok : Bool)
  | closeCallback (r : Rid)
  | exit (p : Sid)
  | waitDone (p : Sid) (ok result : Bool)
  | clientDies (c : Cid)
  deriving DecidableEq, Repr

namespace State

/-- Enter the lifecycle section, or queue for it. -/
def enter (s : State) (t : Tid) (queued : OpPc) (body : State → State) : State :=
  match s.lifecycleLock.acquire t with
  | (l, true) => body { s with lifecycleLock := l }
  | (l, false) => { s with lifecycleLock := l }.suspend t queued

def publicCall (s : State) (t : Tid) : Call → State
  | .stop => s.stopCall t
  | .start =>
    match s.registerOperation t with
    | (s, false) => s.endCall t (.start t none (some .retirementInProgress))
    | (s, true) => s.enter t (.start .queued) (·.startBody t)
  | .health =>
    match s.registerOperation t with
    | (s, false) => s.endCall t (.health t (some .retirementInProgress))
    | (s, true) => s.enter t .healthQueued (·.healthBody t)
  | .transition next =>
    let n := s.nextCall
    let s := { s.setTransition n { next } with nextCall := n + 1 }
    match s.registerOperation t with
    | (s, false) => s.endCall t (.transition t n (some .retirementInProgress))
    | (s, true) => s.enter t (.transitionQueued n next) (·.transitionBody t n next)

/-- A caller cancelled while queued: a lock already handed over goes to the next waiter. -/
def leaveQueue (s : State) (t : Tid) (kind : Kind) : State :=
  let e : Exit := { kind, failure := some .cancelled, cancelled := true }
  if s.lifecycleLock.owner = some t then s.leave t e
  else s.suspend t (.unregistering e (.pending s.now))

/-- Run the queued handle of caller `t`. -/
def resumeOp (s : State) (t : Tid) (o : Inner) (fence : Bool) : State :=
  let op := s.ops t
  let cancelled := op.cancelAt.isSome
  match op.pc with
  | .idle | .finished => s
  | .start .queued => if cancelled then s.leaveQueue t .start else s.startBody t
  | .start (.terminal r j c) =>
    match s.retireResult j with
    | some b => s.startAfterTerminal t r b (c || cancelled)
    | none => s.suspend t (.start (.terminal r j true))
  | .start (.spawning f) =>
    match f.spawnTask with
    | some sp => s.startAfterSpawn t f sp cancelled
    | none => s
  | .start (.phase f kind k) => s.startAfterPhase t f kind k cancelled
  | .start (.retiring f c) =>
    let f := { f with cancelled := f.cancelled || cancelled }
    match c.pc with
    | .finished _ => s.startFinalize t f
    | _ => s.suspend t (.start (.retiring f c))
  | .start (.finalizing f h) =>
    let f := { f with cancelled := f.cancelled || cancelled }
    match h with
    | .finished _ => s.startAfterFinalize t f
    | .pending _ => s.suspend t (.start (.finalizing f h))
  | .start (.lateRetiring f c) =>
    let f := { f with cancelled := f.cancelled || cancelled }
    match c.pc with
    | .finished b => s.startExit t (if f.failure.isNone && !b then
        { f with failure := some .retirementUnresolved } else f)
    | _ => s.suspend t (.start (.lateRetiring f c))
  | .healthQueued => if cancelled then s.leaveQueue t .health else s.healthBody t
  | .probing c g => s.healthAfter t c g o
  | .transitionQueued n next =>
      if cancelled then s.leaveQueue t (.transition n) else s.transitionBody t n next
  | .applying f =>
      let s := s.setClient f.client { s.clients f.client with
        fenced := (s.clients f.client).fenced || fence }
      s.transitionAfter t f o
  | .finishing f retain h =>
    let f := { f with cancelled := f.cancelled || cancelled }
    match h with
    | .finished _ => s.leave t
        { kind := .transition f.call, failure := f.failure, cancelled := f.cancelled }
    | .pending _ => s.suspend t (.finishing f retain h)
  | .unregistering e h =>
    let e := { e with cancelled := e.cancelled || cancelled }
    match h with
    | .finished _ => s.afterUnregister t e
    | .pending _ => s.suspend t (.unregistering e h)
  | .resultRetiring e c =>
    let e := { e with cancelled := e.cancelled || cancelled }
    match c.pc with
    | .finished b => s.finishCall t (if e.failure.isNone && !b then
        { e with failure := some .retirementUnresolved } else e)
    | _ => s.suspend t (.resultRetiring e c)
  | .stopping a mark c =>
    match s.attemptResult a with
    | some b => s.stopReturn t mark (c || cancelled) b
    | none => s.suspend t (.stopping a mark true)

/-- May the handle of caller `t` run now? A pending cancellation fixes the
iteration; otherwise the awaited condition must hold. -/
def resumable (s : State) (t : Tid) (o : Inner) : Bool :=
  let op := s.ops t
  let due := match op.cancelAt with | some c => decide (s.now ≤ c + 1) | none => true
  let free := op.cancelAt.isNone
  match op.pc with
  | .idle | .finished => false
  | .start .queued | .healthQueued | .transitionQueued _ _ =>
      due && (!free || s.lifecycleLock.owner = some t)
  | .start (.terminal _ j _) => due && (!free || (s.retireResult j).isSome)
  | .start (.spawning _) | .start (.phase _ _ _) => due && (!free || op.since + 2 ≤ s.now)
  | .start (.retiring _ c) | .start (.lateRetiring _ c) | .resultRetiring _ c =>
      due && (!free || c.pc matches .finished _)
  | .start (.finalizing _ h) =>
    match h with
    | .finished x => due && s.now ≤ max x op.since + 2
    | .pending _ => due && !free
  | .finishing _ _ h | .unregistering _ h => due && (!free || h matches .finished _)
  | .probing _ _ => true
  | .applying f => !(f.wasReplacementRequired && o = .returned)
  | .stopping a _ _ => due && (!free || (s.attemptResult a).isSome)

/-- One handle of the claim task `c`; `wrap` is the await of `t` that holds it. -/
def stepClaim (s : State) (t : Tid) (c : Claim) (wrap : Claim → OpPc) : Option State :=
  match c.pc with
  | .pending created =>
      if s.now = created + 1 then
        let (s', pc) := s.retireStartupChild c
        some (s'.setOp t { s'.ops t with pc := wrap { c with pc } })
      else none
  | .awaiting r j _ =>
    match s.retireResult j with
    | some b =>
        let (s', pc) := s.retireStartupChildDone r b
        some (s'.setOp t { s'.ops t with pc := wrap { c with pc } })
    | none => none
  | .finished _ => none

/-- The private claim task of caller `t`. -/
def runClaim (s : State) (t : Tid) : Option State :=
  match (s.ops t).pc with
  | .start (.retiring f c) => s.stepClaim t c (fun c => .start (.retiring f c))
  | .start (.lateRetiring f c) => s.stepClaim t c (fun c => .start (.lateRetiring f c))
  | .resultRetiring e c => s.stepClaim t c (.resultRetiring e ·)
  | _ => none

def runFinalize (s : State) (t : Tid) : Option State :=
  match (s.ops t).pc with
  | .start (.finalizing f (.pending created)) =>
      if s.now = created + 1 then
        some ((s.finalizeStart f.generation).setOp t { s.ops t with
          pc := .start (.finalizing f (.finished s.now)) })
      else none
  | _ => none

def runFinishTransition (s : State) (t : Tid) : Option State :=
  match (s.ops t).pc with
  | .finishing f retain (.pending created) =>
      if s.now = created + 1 then
        let s' := match f.pending with | some p => s.finishTransition p retain | none => s
        some (s'.setOp t { s.ops t with pc := .finishing f retain (.finished s.now) })
      else none
  | _ => none

def runUnregister (s : State) (t : Tid) : Option State :=
  match (s.ops t).pc with
  | .unregistering e (.pending created) =>
      if s.now = created + 1 then
        some ((s.unregisterOperation t).setOp t { s.ops t with
          pc := .unregistering e (.finished s.now) })
      else none
  | _ => none

def runAttempt (s : State) (a : Aid) (timedOut : Bool) : Option State :=
  let x := s.attempts a
  if a < s.nextAttempt then
    match x.pc with
    | .init _ => if s.now = x.since + 1 then some (s.runStopAttempt a timedOut) else none
    | .settle _ _ => if timedOut || s.startSettled then some (s.runStopAttempt a timedOut) else none
    | .reap _ j _ _ => if (s.retireResult j).isSome then some (s.runStopAttempt a timedOut) else none
    | .observe _ _ => if x.since + 2 ≤ s.now then some (s.runStopAttempt a timedOut) else none
    | .done _ => none
  else none

def runRetire (s : State) (j : Jid) : Option State :=
  let x := s.retireTasks j
  if j < s.nextRetireTask then
    match x.pc with
    | .init => if s.now = x.since + 1 then some (s.retireChild j) else none
    | .done _ => none
    | _ => if x.since + 2 ≤ s.now then some (s.retireChild j) else none
  else none

/-- `_on_spawn_task_done`. -/
def onSpawnTaskDone (s : State) (sp : Sid) : State :=
  if s.spawnTask = some sp then s
  else
    match s.retirements.find? (fun r => (s.records r).spawnTask = some sp) with
    | some r => s.setLate sp (.pending r s.now)
    | none => s

/-- `_complete_late_spawn_retirement`. -/
def runLate (s : State) (sp : Sid) : Option State :=
  match s.lates sp with
  | .pending r created =>
    if s.now = created + 1 then
      if r ∉ s.retirements || (s.records r).spawnTask ≠ some sp then
        some (s.setLate sp .finished)
      else
        let stale := match (s.records r).task with
          | some j => (s.retireResult j).isSome | none => true
        let s := if stale then s.createRetireTask r else s
        match (s.records r).task with
        | some j => some (s.setLate sp (.awaiting r j s.now))
        | none => none
    else none
  | .awaiting r j _ =>
    match s.retireResult j with
    | some b =>
        let s := if b then (s.removeRetirementIfCompleteLocked r).1 else s
        some (s.setLate sp .finished)
    | none => none
  | _ => none

/-- One step, after the record of the previous one has been cleared. -/
def act (s : State) : Action → Option State
  | .tick => some { s with now := s.now + 1 }
  | .call t c => if (s.ops t).pc = .idle then some (s.publicCall t c) else none
  | .finish t => if (s.ops t).pc = .idle then some (s.setOp t { pc := .finished }) else none
  | .cancel t => some (s.cancelOp t)
  | .resume t o fence => if s.resumable t o then some (s.resumeOp t o fence) else none
  | .claim t => s.runClaim t
  | .finalize t => s.runFinalize t
  | .finishTransition t => s.runFinishTransition t
  | .unregister t => s.runUnregister t
  | .releaseOperation t =>
      if s.opDone t then some { s with
        retiringOperations := s.retiringOperations.filter (· ≠ t)
        operationCancelRequested := s.operationCancelRequested.filter (· ≠ t) } else none
  | .attempt a timedOut => s.runAttempt a timedOut
  | .retire j => s.runRetire j
  | .spawnDone sp result =>
      if sp < s.nextSpawn && s.spawns sp = .running then
        some { s with spawns := Function.update s.spawns sp (.done result) } else none
  | .spawnCallback sp =>
      if sp < s.nextSpawn && s.spawnDone sp && s.lates sp = .absent then
        some (s.onSpawnTaskDone sp) else none
  | .late sp => s.runLate sp
  | .phaseDone k result =>
      if k < s.nextPhase && s.phases k = .running then
        some { s with phases := Function.update s.phases k (.done result) } else none
  | .phaseCallback k =>
      if s.phaseDone k then some { s with
        startupTasks := s.startupTasks.filter (· ≠ k)
        startupCancelRequested := s.startupCancelRequested.filter (· ≠ k) } else none
  | .retiredPhaseCallback r k =>
      if r < s.nextRecord && s.phaseDone k then some (s.finishRetiredStartupTask r k) else none
  | .shutdownDone c ok =>
      if (s.clients c).shutdown = .running then
        some (s.setClient c { s.clients c with shutdown := .done ok }) else none
  | .shutdownCallback r =>
      if r < s.nextRecord then some (s.finishRetiredShutdownTask r) else none
  | .closeDone c ok =>
      if (s.clients c).close = .running then
        some (s.setClient c { s.clients c with close := .done ok }) else none
  | .closeCallback r =>
      if r < s.nextRecord then some (s.finishRetiredCloseTask r) else none
  | .exit p =>
      if p < s.nextSpawn && s.produced p then
        some (s.setProcess p { s.processes p with returncode := true }) else none
  | .waitDone p ok result =>
      if (s.processes p).wait = .running then
        some (s.setProcess p { s.processes p with wait := .done ok result }) else none
  | .clientDies c =>
      if c < s.nextClient then
        some (s.setClient c { s.clients c with closedExc := true }) else none

def step (s : State) (a : Action) : Option State :=
  { s with issued := none, ended := none }.act a

end State

/-- The wrapper from its construction on. -/
def machine : Machine State Action := ⟨{}, State.step⟩

/-- A state some run of the wrapper reaches. -/
abbrev Reachable (s : State) : Prop := machine.Reachable s

end KestrelSdk.Subprocess

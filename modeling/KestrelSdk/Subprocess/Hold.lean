import KestrelSdk.Subprocess.Retire

namespace KestrelSdk.Subprocess

open Asyncio

/-- Until this iteration the task does not consume the spawn of its record. -/
def RetireTask.spawnHold (x : Retirement) (k : RetireTask) : Nat :=
  if x.spawnTask.isNone then 0
  else
    match k.pc with
    | .init => k.since + 3
    | .spawnWait _ => k.since + 2
    | _ => 0

/-- Until this iteration the task, which has not tried to close the client yet, does not end. -/
def RetireTask.pairHold (x : Retirement) (k : RetireTask) : Nat :=
  if x.client.isNone then 0
  else
    match k.pc with
    | .init => if x.shutdownAttempted || x.closeAttempted then 0 else k.since + 7
    | .startupWait _ _ => if x.shutdownAttempted || x.closeAttempted then 0 else k.since + 8
    | .shutdownWait _ _ => if x.closeAttempted then 0 else k.since + 6
    | .exitWait _ _ | .terminateWait _ _ | .killWait _ _ =>
        if x.closeAttempted then 0 else k.since + 4
    | .closeWait _ _ _ => k.since + 2
    | _ => 0

namespace State

open Children

/-- What a stretch of `_retire_child` on record `r` can touch. -/
structure Confined (s s' : State) (j : Jid) (r : Rid) : Prop where
  same : s' = { s with
    records := s'.records, retireTasks := s'.retireTasks, processes := s'.processes
    clients := s'.clients, nextClient := s'.nextClient, effects := s'.effects }
  records : ∀ q, q ≠ r → s'.records q = s.records q
  task : (s'.records r).task = (s.records r).task
  tasks : ∀ i, i ≠ j → s'.retireTasks i = s.retireTasks i
  record : (s'.retireTasks j).record = (s.retireTasks j).record

namespace Confined

variable {s s' s'' : State} {j : Jid} {r : Rid}

theorem refl (s : State) (j : Jid) (r : Rid) : Confined s s j r :=
  ⟨rfl, fun _ _ => rfl, rfl, fun _ _ => rfl, rfl⟩

theorem trans (h : Confined s s' j r) (h' : Confined s' s'' j r) : Confined s s'' j r := by
  refine ⟨?_, fun q hq => (h'.records q hq).trans (h.records q hq), h'.task.trans h.task,
    fun i hi => (h'.tasks i hi).trans (h.tasks i hi), h'.record.trans h.record⟩
  rw [h'.same, h.same]

end Confined

theorem Soft.confined {s s' : State} {j : Jid} {r : Rid} (h : Soft s s' r) :
    Confined s s' j r := by
  obtain ⟨x, E, rfl, hx, ht⟩ := h
  refine ⟨rfl, fun q hq => ?_, ?_, fun _ _ => rfl, rfl⟩
  · simp [setRecord, hq]
  · simpa [setRecord] using ht

section Confined

variable (s : State) (j : Jid) (r : Rid)

theorem setRecord_confined {x : Retirement} (hx : x.task = (s.records r).task) :
    Confined s (s.setRecord r x) j r := by
  refine ⟨rfl, fun q hq => ?_, ?_, fun _ _ => rfl, rfl⟩
  · simp [setRecord, hq]
  · simpa [setRecord] using hx

theorem setClient_confined (c : Cid) (x : Client) : Confined s (s.setClient c x) j r :=
  ⟨rfl, fun _ _ => rfl, rfl, fun _ _ => rfl, rfl⟩

theorem log_confined (e : Effect) : Confined s (s.log e) j r :=
  ⟨rfl, fun _ _ => rfl, rfl, fun _ _ => rfl, rfl⟩

theorem startWait_confined (p : Sid) : Confined s (s.startWait r p) j r := by
  dsimp only [startWait]
  split
  · exact .refl s j r
  · exact (setRecord_confined s j r (by rfl)).trans ⟨rfl, fun _ _ => rfl, rfl, fun _ _ => rfl, rfl⟩

theorem retireSuspend_confined (pc : RetirePc) : Confined s (s.retireSuspend j pc) j r := by
  refine ⟨rfl, fun _ _ => rfl, rfl, fun i hi => ?_, ?_⟩
  · simp [retireSuspend, setRetireTask, hi]
  · simp [retireSuspend, setRetireTask]

theorem retireReturn_confined (b : Bool) : Confined s (s.retireReturn j b) j r := by
  refine ⟨rfl, fun _ _ => rfl, rfl, fun i hi => ?_, ?_⟩
  · simp [retireReturn, setRetireTask, hi]
  · simp [retireReturn, setRetireTask]

theorem retireConclude_confined (process : Option Sid) (b : Bool) (f : RetireFrame) :
    Confined s (s.retireConclude j r process b f) j r := by
  unfold retireConclude
  split
  · exact retireReturn_confined s j r b
  · split
    · exact retireReturn_confined s j r b
    · split
      · exact (startWait_confined s j r _).trans (retireSuspend_confined _ j r _)
      · exact retireReturn_confined s j r false

theorem retireAfterClose_confined (process : Option Sid) (settled succeeded : Bool)
    (f : RetireFrame) : Confined s (s.retireAfterClose j r process settled succeeded f) j r := by
  dsimp only [retireAfterClose]
  have hs : Confined s (if f.shutdownSettled then s else s.finishRetiredShutdownTask r) j r := by
    split
    · exact .refl s j r
    · exact (finishRetiredShutdownTask_soft s r).confined
  refine hs.trans ?_
  generalize (if f.shutdownSettled then s else s.finishRetiredShutdownTask r) = s1
  split
  · exact (setRecord_confined s1 j r (by rfl)).trans (retireConclude_confined _ j r _ _ _)
  · exact retireConclude_confined s1 j r _ _ _

theorem retireClose_confined (process : Option Sid) (f : RetireFrame) :
    Confined s (s.retireClose j r process f) j r := by
  dsimp only [retireClose]
  split
  · exact retireConclude_confined s j r _ _ _
  · split
    · split
      · exact retireAfterClose_confined s j r _ _ _ _
      · exact retireSuspend_confined s j r _
    · exact (((setRecord_confined s j r (by rfl)).trans (setClient_confined _ j r _ _)).trans
        (log_confined _ j r _)).trans (retireSuspend_confined _ j r _)

theorem retireKill_confined (p : Sid) (f : RetireFrame) :
    Confined s (s.retireKill j r p f) j r := by
  dsimp only [retireKill]
  split
  · exact (((setRecord_confined s j r (by rfl)).trans (log_confined _ j r _)).trans
      (startWait_confined _ j r p)).trans (retireSuspend_confined _ j r _)
  · exact retireClose_confined s j r _ _

theorem retireTerminate_confined (p : Sid) (f : RetireFrame) :
    Confined s (s.retireTerminate j r p f) j r := by
  dsimp only [retireTerminate]
  split
  · exact retireClose_confined s j r _ _
  · split
    · exact (((setRecord_confined s j r (by rfl)).trans (log_confined _ j r _)).trans
        (startWait_confined _ j r p)).trans (retireSuspend_confined _ j r _)
    · exact retireKill_confined s j r p f

theorem retireAfterShutdown_confined (f : RetireFrame) :
    Confined s (s.retireAfterShutdown j r f) j r := by
  unfold retireAfterShutdown
  split
  · exact retireClose_confined s j r _ _
  · exact (startWait_confined s j r _).trans (retireSuspend_confined _ j r _)

theorem retireAfterStartup_confined (pre : Bool) :
    Confined s (s.retireAfterStartup j r pre) j r := by
  dsimp only [retireAfterStartup]
  split
  · exact retireAfterShutdown_confined s j r _
  · split
    · split
      · exact retireAfterShutdown_confined s j r _
      · exact retireSuspend_confined s j r _
    · exact (((setRecord_confined s j r (by rfl)).trans (setClient_confined _ j r _ _)).trans
        (log_confined _ j r _)).trans (retireSuspend_confined _ j r _)

theorem retireAfterSpawn_confined (b : Bool) : Confined s (s.retireAfterSpawn j r b) j r := by
  dsimp only [retireAfterSpawn]
  split
  · exact retireAfterStartup_confined s j r b
  · exact (foldl_soft (fun s k => cancelRetiredStartupTaskOnce_soft s r k) _ s).confined.trans
      (retireSuspend_confined _ j r _)

theorem adoptSpawn_confined (sp : Sid) : Confined s (s.adoptSpawn r sp) j r := by
  dsimp only [adoptSpawn]
  split
  · split
    · exact (setRecord_confined s j r (by rfl)).trans
        ⟨rfl, fun _ _ => rfl, rfl, fun _ _ => rfl, rfl⟩
    · exact setRecord_confined s j r (by rfl)
  · exact setRecord_confined s j r (by rfl)

theorem finishRetiredCloseTask_confined : Confined s (s.finishRetiredCloseTask r) j r := by
  obtain ⟨a, b, c, h⟩ := finishRetiredCloseTask_eq s r
  rw [h]
  exact setRecord_confined s j r (by rfl)

/-- `_retire_child` touches its own record and the objects in it, nothing else. -/
theorem retireChild_confined : Confined s (s.retireChild j) j (s.retireTasks j).record := by
  dsimp only [retireChild]
  generalize (s.retireTasks j).record = r
  split
  · split
    · exact retireAfterSpawn_confined s j r true
    · exact (cancelRetiredSpawnOnce_soft s r _).confined.trans (retireSuspend_confined _ j r _)
  · split
    · exact retireAfterSpawn_confined s j r false
    · split
      · exact retireAfterSpawn_confined s j r _
      · exact (adoptSpawn_confined s j r _).trans (retireAfterSpawn_confined _ j r true)
  · exact (foldl_soft (fun s k => finishRetiredStartupTask_soft s r k) _ s).confined.trans
      (retireAfterStartup_confined _ j r _)
  · split
    · exact (finishRetiredShutdownTask_soft s r).confined.trans
        (retireAfterShutdown_confined _ j r _)
    · exact retireAfterShutdown_confined s j r _
  · exact (missExit_soft s r _).confined.trans (retireTerminate_confined _ j r _ _)
  · exact (missExit_soft s r _).confined.trans (retireKill_confined _ j r _ _)
  · exact (missExit_soft s r _).confined.trans (retireClose_confined _ j r _ _)
  · split
    · exact (finishRetiredCloseTask_confined s j r).trans (retireAfterClose_confined _ j r _ _ _ _)
    · exact retireAfterClose_confined s j r _ _ _ _
  · exact (missExit_soft s r _).confined.trans (retireReturn_confined _ j r _)
  · exact .refl s j r

end Confined

/-- When the event loop may run the retirement task. -/
def RetireReady (s : State) (j : Jid) : Prop :=
  j < s.nextRetireTask ∧
    match (s.retireTasks j).pc with
    | .init => s.now = (s.retireTasks j).since + 1
    | .done _ => False
    | _ => (s.retireTasks j).since + 2 ≤ s.now

theorem runRetire_eq {s s' : State} {j : Jid} (h : s.runRetire j = some s') :
    s' = s.retireChild j ∧ s.RetireReady j := by
  dsimp only [runRetire] at h
  split at h
  · rename_i hj
    cases e : (s.retireTasks j).pc <;> simp [e] at h <;> simp [RetireReady, hj, e, h]
  · cases h

theorem RetireReady.not_done {s : State} {j : Jid} (h : s.RetireReady j) (b : Bool) :
    (s.retireTasks j).pc ≠ .done b := by
  intro e
  simp [RetireReady, e] at h

section Hold

variable {s : State} {o : Custody} {j : Jid} {r : Rid} {c : Cid}

theorem Soft.now {s s' : State} (h : Soft s s' r) : s'.now = s.now := by
  obtain ⟨x, E, rfl, -⟩ := h
  rfl

theorem startWait_now (s : State) (r : Rid) (p : Sid) : (s.startWait r p).now = s.now := by
  dsimp only [startWait]
  split <;> rfl

theorem retireClose_pairHold {q : Option Sid} {f : RetireFrame}
    (hc : (s.records r).client = some c) (hfc : f.client = some c)
    (ha : (s.records r).closeAttempted = false) :
    s.now + 2 ≤ ((s.retireClose j r q f).retireTasks j).pairHold
      ((s.retireClose j r q f).records r) := by
  simp [retireClose, hfc, ha, retireSuspend, setRetireTask, log, setClient, setRecord,
    RetireTask.pairHold, hc]

/-- A bounded wait before the close was tried. -/
private theorem wait_pairHold {s1 : State} {p : Sid} {f : RetireFrame} {pc : RetirePc}
    (hnow : s1.now = s.now) (hc : (s1.records r).client = some c)
    (ha : (s1.records r).closeAttempted = false)
    (hpc : pc = .exitWait p f ∨ pc = .terminateWait p f ∨ pc = .killWait p f) :
    s.now + 4 ≤ (((s1.startWait r p).retireSuspend j pc).retireTasks j).pairHold
      (((s1.startWait r p).retireSuspend j pc).records r) := by
  have hx : ((s1.startWait r p).records r).client = some c := by simp [startWait_records, hc]
  have hy : ((s1.startWait r p).records r).closeAttempted = false := by
    simp [startWait_records, ha]
  obtain rfl | rfl | rfl := hpc <;>
    simp [retireSuspend, setRetireTask, RetireTask.pairHold, hx, hy, startWait_now, hnow]

theorem retireKill_pairHold {p : Sid} {f : RetireFrame} (hc : (s.records r).client = some c)
    (hfc : f.client = some c) (ha : (s.records r).closeAttempted = false) :
    s.now + 2 ≤ ((s.retireKill j r p f).retireTasks j).pairHold
      ((s.retireKill j r p f).records r) := by
  dsimp only [retireKill]
  split
  · refine Nat.le_trans ?_ (wait_pairHold (s := s) (c := c) rfl ?_ ?_ (.inr (.inr rfl)))
    · omega
    · simpa [log, setRecord] using hc
    · simpa [log, setRecord] using ha
  · exact retireClose_pairHold hc hfc ha

theorem retireTerminate_pairHold {p : Sid} {f : RetireFrame}
    (hc : (s.records r).client = some c) (hfc : f.client = some c)
    (ha : (s.records r).closeAttempted = false) :
    s.now + 2 ≤ ((s.retireTerminate j r p f).retireTasks j).pairHold
      ((s.retireTerminate j r p f).records r) := by
  dsimp only [retireTerminate]
  split
  · exact retireClose_pairHold hc hfc ha
  · split
    · refine Nat.le_trans ?_ (wait_pairHold (s := s) (c := c) rfl ?_ ?_ (.inr (.inl rfl)))
      · omega
      · simpa [log, setRecord] using hc
      · simpa [log, setRecord] using ha
    · exact retireKill_pairHold hc hfc ha

theorem retireAfterShutdown_pairHold {p : Sid} {f : RetireFrame}
    (hc : (s.records r).client = some c) (hp : (s.records r).process = some p)
    (ha : (s.records r).closeAttempted = false) :
    s.now + 4 ≤ ((s.retireAfterShutdown j r f).retireTasks j).pairHold
      ((s.retireAfterShutdown j r f).records r) := by
  simp only [retireAfterShutdown, hp]
  exact wait_pairHold (s := s) (c := c) rfl hc ha (.inl rfl)

theorem retireAfterStartup_pairHold {b : Bool} (hc : (s.records r).client = some c)
    (hs : (s.records r).shutdownAttempted = false) (ha : (s.records r).closeAttempted = false) :
    s.now + 6 ≤ ((s.retireAfterStartup j r b).retireTasks j).pairHold
      ((s.retireAfterStartup j r b).records r) := by
  simp [retireAfterStartup, hc, hs, ha, retireSuspend, setRetireTask, log, setClient, setRecord,
    RetireTask.pairHold]

theorem retireAfterSpawn_pairHold {b : Bool} (hc : (s.records r).client = some c)
    (hs : (s.records r).shutdownAttempted = false) (ha : (s.records r).closeAttempted = false) :
    s.now + 6 ≤ ((s.retireAfterSpawn j r b).retireTasks j).pairHold
      ((s.retireAfterSpawn j r b).records r) := by
  dsimp only [retireAfterSpawn]
  split
  · exact retireAfterStartup_pairHold hc hs ha
  · have hsoft := foldl_soft (fun s k => cancelRetiredStartupTaskOnce_soft s r k)
      (s.records r).startupTasks s
    have hcore := hsoft.core
    simp only [Retirement.core, Retirement.mk.injEq, true_and, and_true] at hcore
    simp [retireSuspend, setRetireTask, RetireTask.pairHold, hcore, hc, hs, ha, hsoft.now]

private theorem miss_facts {p : Sid} (ha : (s.records r).closeAttempted = false)
    (hc : (s.records r).client = some c) : ((s.missExit p).records r).client = some c ∧
      ((s.missExit p).records r).closeAttempted = false ∧ (s.missExit p).now = s.now := by
  unfold missExit
  split <;> exact ⟨hc, ha, rfl⟩

/-- A record that holds an unclosed pair keeps it as long as its task promised. -/
theorem retireChild_pairHold (h : s.children.Sound o) (hj : s.RetireReady j) {d : Nat}
    (hd : s.now ≤ d)
    (hh : d < (s.retireTasks j).pairHold (s.records (s.retireTasks j).record)) :
    d < ((s.retireChild j).retireTasks j).pairHold
      ((s.retireChild j).records (s.retireTasks j).record) := by
  have ht := h.tasks j hj.1 (by simp)
  have hr := h.records _ ht.record
  have hpc := ht.pc
  have hg := hj.2
  simp only [children] at hpc hr
  generalize hrec : (s.retireTasks j).record = r at hh hpc hr
  obtain ⟨c, hc⟩ : ∃ c, (s.records r).client = some c := by
    cases hc : (s.records r).client with
    | none => simp [RetireTask.pairHold, hc] at hh
    | some c => exact ⟨c, rfl⟩
  have hp := (hr.client c hc).2
  simp only [RetireTask.pairHold, hc, Option.isNone_some, Bool.false_eq_true, if_false] at hh
  dsimp only [retireChild]
  rw [hrec]
  cases e : (s.retireTasks j).pc with
  | init =>
    simp only [e] at hh hg ⊢
    have hsp : (s.records r).spawnTask = none := by
      cases hsp : (s.records r).spawnTask with
      | none => rfl
      | some sp =>
        have := (hr.spawn sp hsp).2.2.2.1
        simp [hc] at this
    simp only [hsp]
    split at hh
    · omega
    · rename_i hatt
      simp only [Bool.or_eq_true, not_or, Bool.not_eq_true] at hatt
      have := retireAfterSpawn_pairHold (s := s) (j := j) (b := true) hc hatt.1 hatt.2
      omega
  | spawnWait sp => simp [e] at hh
  | startupWait b tasks =>
    simp only [e] at hh hg ⊢
    have hsoft := foldl_soft (fun s k => finishRetiredStartupTask_soft s r k)
      (tasks.filter s.phaseDone) s
    generalize (tasks.filter s.phaseDone).foldl (fun s k => s.finishRetiredStartupTask r k) s =
      s1 at hsoft ⊢
    have hcore := hsoft.core
    simp only [Retirement.core, Retirement.mk.injEq, true_and, and_true] at hcore
    obtain ⟨h1, -, -, -, h2, h3, -⟩ := hcore
    split at hh
    · omega
    · rename_i hatt
      simp only [Bool.or_eq_true, not_or, Bool.not_eq_true] at hatt
      have := retireAfterStartup_pairHold (j := j)
        (b := b && (s1.records r).startupTasks.isEmpty) (h1.trans hc) (h2.trans hatt.1)
        (h3.trans hatt.2)
      have := hsoft.now
      omega
  | shutdownWait pre k =>
    simp only [e] at hh hg ⊢
    split at hh
    · omega
    · rename_i hatt
      simp only [Bool.not_eq_true] at hatt
      split
      · have hsoft := finishRetiredShutdownTask_soft s r
        have hcore := hsoft.core
        simp only [Retirement.core, Retirement.mk.injEq, true_and, and_true] at hcore
        obtain ⟨h1, h2, -, -, -, h3, -⟩ := hcore
        have := retireAfterShutdown_pairHold (j := j) (f := ⟨pre, some k, true, false, false⟩)
          (h1.trans hc) (h2.trans hp) (h3.trans hatt)
        have := hsoft.now
        omega
      · have := retireAfterShutdown_pairHold (j := j) (f := ⟨pre, some k, false, false, false⟩)
          hc hp hatt
        omega
  | exitWait p f =>
    simp only [e] at hh hg hpc ⊢
    split at hh
    · omega
    · rename_i hatt
      obtain ⟨h1, h2, h3⟩ := miss_facts (p := p) (by simpa using hatt) hc
      have := retireTerminate_pairHold (j := j) (p := p)
        (f := { f with processRetired := s.exitObserved p }) h1 (hpc.2.1.trans hc) h2
      omega
  | terminateWait p f =>
    simp only [e] at hh hg hpc ⊢
    split at hh
    · omega
    · rename_i hatt
      obtain ⟨h1, h2, h3⟩ := miss_facts (p := p) (by simpa using hatt) hc
      have := retireKill_pairHold (j := j) (p := p)
        (f := { f with processRetired := s.exitObserved p }) h1 (hpc.2.1.trans hc) h2
      omega
  | killWait p f =>
    simp only [e] at hh hg hpc ⊢
    split at hh
    · omega
    · rename_i hatt
      obtain ⟨h1, h2, h3⟩ := miss_facts (p := p) (by simpa using hatt) hc
      have := retireClose_pairHold (j := j) (q := some p)
        (f := { f with processRetired := s.exitObserved p }) h1 (hpc.2.1.trans hc) h2
      omega
  | closeWait process k f =>
    simp only [e] at hh hg
    omega
  | lastWait p => simp [e] at hh
  | done b => simp [e] at hh

/-- A record that holds a spawn keeps it as long as its task promised. -/
theorem retireChild_spawnHold (hj : s.RetireReady j) {d : Nat} (hd : s.now ≤ d)
    (hh : d < (s.retireTasks j).spawnHold (s.records (s.retireTasks j).record)) :
    d < ((s.retireChild j).retireTasks j).spawnHold
      ((s.retireChild j).records (s.retireTasks j).record) := by
  have hg := hj.2
  generalize hrec : (s.retireTasks j).record = r at hh
  obtain ⟨sp, hsp⟩ : ∃ sp, (s.records r).spawnTask = some sp := by
    cases hsp : (s.records r).spawnTask with
    | none => simp [RetireTask.spawnHold, hsp] at hh
    | some sp => exact ⟨sp, rfl⟩
  simp only [RetireTask.spawnHold, hsp, Option.isNone_some, Bool.false_eq_true, if_false] at hh
  cases e : (s.retireTasks j).pc with
  | init =>
    simp only [e] at hh hg
    have hsoft := cancelRetiredSpawnOnce_soft s r sp
    have hnow := hsoft.now
    simp only [retireChild, hrec, e, hsp, retireSuspend, setRetireTask, Function.update_self,
      RetireTask.spawnHold, hsoft.spawnTask, Option.isNone_some, Bool.false_eq_true, if_false]
    omega
  | spawnWait sp' =>
    simp only [e] at hh hg
    omega
  | _ => simp [e] at hh

end Hold

end State

end KestrelSdk.Subprocess

import KestrelSdk.Subprocess.Records

namespace KestrelSdk.Subprocess

open Asyncio

namespace State

open Children

/-- Task `j` is running `_retire_child` on record `r`. -/
structure Working (s : State) (o : Custody) (j : Jid) (r : Rid) : Prop where
  sound : s.children.SoundBut o (some j)
  record : r < s.nextRecord
  task : (s.records r).task = some j

/-- A bookkeeping step on one record that ownership does not see. -/
def Soft (s s' : State) (r : Rid) : Prop :=
  ∃ x E, s' = { s.setRecord r x with effects := E } ∧ x.core = (s.records r).core ∧
    x.task = (s.records r).task

namespace Soft

variable {s s' s'' : State} {r : Rid}

theorem refl (s : State) (r : Rid) : Soft s s r :=
  ⟨s.records r, s.effects, by simp [setRecord], rfl, rfl⟩

theorem trans (h : Soft s s' r) (h' : Soft s' s'' r) : Soft s s'' r := by
  obtain ⟨x, E, rfl, hx, ht⟩ := h
  obtain ⟨y, F, rfl, hy, hu⟩ := h'
  simp only [setRecord, Function.update_self] at hy hu
  exact ⟨y, F, by simp [setRecord], hy.trans hx, hu.trans ht⟩

theorem sound (h : Soft s s' r) {o : Custody} {run : Option Jid}
    (hs : s.children.SoundBut o run) : s'.children.SoundBut o run := by
  obtain ⟨x, E, rfl, hx, ht⟩ := h
  exact hs.set hx ht

theorem core (h : Soft s s' r) : (s'.records r).core = (s.records r).core := by
  obtain ⟨x, E, rfl, hx, ht⟩ := h
  simpa [setRecord] using hx

theorem task (h : Soft s s' r) : (s'.records r).task = (s.records r).task := by
  obtain ⟨x, E, rfl, hx, ht⟩ := h
  simpa [setRecord] using ht

theorem client (h : Soft s s' r) : (s'.records r).client = (s.records r).client := by
  have := h.core
  simp only [Retirement.core, Retirement.mk.injEq] at this
  exact this.1

theorem process (h : Soft s s' r) : (s'.records r).process = (s.records r).process := by
  have := h.core
  simp only [Retirement.core, Retirement.mk.injEq] at this
  exact this.2.1

theorem spawnTask (h : Soft s s' r) : (s'.records r).spawnTask = (s.records r).spawnTask := by
  have := h.core
  simp only [Retirement.core, Retirement.mk.injEq] at this
  grind

theorem observed (h : Soft s s' r) (p : Sid) : s'.children.observed p = s.children.observed p := by
  obtain ⟨x, E, rfl, hx, ht⟩ := h
  rfl

theorem working (h : Soft s s' r) {o : Custody} {j : Jid} (hw : Working s o j r) :
    Working s' o j r := by
  refine ⟨h.sound hw.sound, ?_, h.task.trans hw.task⟩
  obtain ⟨x, E, rfl, hx, ht⟩ := h
  exact hw.record

end Soft

theorem log_soft (s : State) (r : Rid) (e : Effect) : Soft s (s.log e) r :=
  ⟨s.records r, e :: s.effects, by simp [setRecord, log], rfl, rfl⟩

theorem setRecord_soft {s : State} {r : Rid} {x : Retirement}
    (hx : x.core = (s.records r).core) (ht : x.task = (s.records r).task) :
    Soft s (s.setRecord r x) r :=
  ⟨x, s.effects, rfl, hx, ht⟩

theorem missExit_soft (s : State) (r : Rid) (p : Sid) : Soft s (s.missExit p) r := by
  unfold missExit
  split
  · exact .refl s r
  · exact log_soft s r _

theorem cancelRetiredSpawnOnce_soft (s : State) (r : Rid) (sp : Sid) :
    Soft s (s.cancelRetiredSpawnOnce r sp) r := by
  dsimp only [cancelRetiredSpawnOnce]
  split
  · exact .refl s r
  · exact (setRecord_soft (by rfl) (by rfl)).trans (log_soft _ r _)

theorem cancelRetiredStartupTaskOnce_soft (s : State) (r : Rid) (k : Kid) :
    Soft s (s.cancelRetiredStartupTaskOnce r k) r := by
  dsimp only [cancelRetiredStartupTaskOnce]
  split
  · exact .refl s r
  · exact (setRecord_soft (by rfl) (by rfl)).trans (log_soft _ r _)

theorem finishRetiredStartupTask_soft (s : State) (r : Rid) (k : Kid) :
    Soft s (s.finishRetiredStartupTask r k) r :=
  setRecord_soft (by rfl) (by rfl)

theorem finishRetiredShutdownTask_soft (s : State) (r : Rid) :
    Soft s (s.finishRetiredShutdownTask r) r := by
  dsimp only [finishRetiredShutdownTask]
  split
  · exact .refl s r
  · split
    · exact setRecord_soft (by rfl) (by rfl)
    · exact .refl s r

theorem foldl_soft {f : State → Kid → State} {r : Rid} (hf : ∀ s k, Soft s (f s k) r)
    (l : List Kid) (s : State) : Soft s (l.foldl f s) r := by
  induction l generalizing s with
  | nil => exact .refl s r
  | cons k l ih => exact (hf s k).trans (ih _)

theorem startWait_records (s : State) (r : Rid) (p : Sid) : (s.startWait r p).records =
    Function.update s.records r { s.records r with waitTask := true } := by
  dsimp only [startWait]
  split
  · rename_i hw
    rw [← hw, Function.update_eq_self]
  · rfl

/-- Folding a settled close touches only its own three fields. -/
theorem finishRetiredCloseTask_eq (s : State) (r : Rid) : ∃ task settled succeeded,
    s.finishRetiredCloseTask r = s.setRecord r { s.records r with
      closeTask := task, closeSettled := settled, closeSucceeded := succeeded } := by
  dsimp only [finishRetiredCloseTask]
  split
  · refine ⟨(s.records r).closeTask, (s.records r).closeSettled, (s.records r).closeSucceeded, ?_⟩
    simp [setRecord]
  · split
    · exact ⟨_, _, _, rfl⟩
    · refine ⟨(s.records r).closeTask, (s.records r).closeSettled,
        (s.records r).closeSucceeded, ?_⟩
      simp [setRecord]

theorem finishRetiredCloseTask_sound {s : State} {o : Custody} {run : Option Jid} {r : Rid}
    (h : s.children.SoundBut o run) (hr : r < s.nextRecord)
    (hrun : ∀ j, run = some j → (s.records r).task = some j) :
    (s.finishRetiredCloseTask r).children.SoundBut o run := by
  dsimp only [finishRetiredCloseTask]
  split
  · exact h
  · rename_i c hc
    split
    · rename_i ok hok
      exact h.finishClose hr hrun hc hok
    · exact h

namespace Working

variable {s : State} {o : Custody} {j : Jid} {r : Rid}

theorem run (h : Working s o j r) : ∀ i, some j = some i → (s.children.records r).task = some i := by
  rintro i ⟨⟩
  exact h.task

theorem recordOk (h : Working s o j r) : s.children.RecordOk o r := h.sound.records r h.record

theorem of_task (h : Working s o j r) : (s.retireTasks j).record = r := by
  obtain ⟨i, h1, -, h2⟩ := h.recordOk.task
  obtain rfl : j = i := Option.some.inj (h.task.symm.trans h1)
  exact h2

theorem startWait (h : Working s o j r) {p : Sid} (hp : (s.records r).process = some p) :
    Working (s.startWait r p) o j r := by
  refine ⟨?_, ?_, ?_⟩
  · dsimp only [State.startWait]
    split
    · exact h.sound
    · rename_i hw
      exact h.sound.startWait h.record h.run hp (by simpa [children] using hw)
  · dsimp only [State.startWait]
    split
    · exact h.record
    · exact h.record
  · simpa [startWait_records] using h.task

theorem suspend (h : Working s o j r) {pc : RetirePc} (hpc : s.children.PcOk r pc) :
    (s.retireSuspend j pc).children.Sound o :=
  h.sound.finish h.record h.task h.of_task hpc

theorem ret (h : Working s o j r) {b : Bool} (hb : b = true → s.children.Complete r) :
    (s.retireReturn j b).children.Sound o :=
  h.sound.finish h.record h.task h.of_task hb

theorem conclude (h : Working s o j r) {process : Option Sid} {b : Bool} {f : RetireFrame}
    (hp : process = (s.records r).process)
    (hb : b = true → (s.records r).spawnTask = none ∧ (s.records r).client = none)
    (hf : f.processRetired = true → ∀ p, process = some p → s.children.observed p = true) :
    (s.retireConclude j r process b f).children.Sound o := by
  unfold retireConclude
  cases process with
  | none => exact h.ret fun e => ⟨(hb e).1, (hb e).2, fun p hp' => by simp [children, ← hp] at hp'⟩
  | some p =>
    simp only
    split
    · rename_i hr
      refine h.ret fun e => ⟨(hb e).1, (hb e).2, fun q hq => ?_⟩
      exact hf hr q (hp.trans hq)
    · split
      · rename_i hr hc
        simp only [Bool.and_eq_true] at hc
        refine (h.startWait hp.symm).suspend ?_
        simpa [PcOk, children, startWait_records, ← hp] using hb hc.2
      · exact h.ret (by simp)

theorem dropClient (h : Working s o j r) (ht : (s.records r).closeTask = none)
    (hs : (s.records r).closeSucceeded = true) :
    Working (s.setRecord r { s.records r with client := none }) o j r := by
  refine ⟨h.sound.dropClient h.record h.run (by simp) ht hs, h.record, ?_⟩
  simpa [setRecord] using h.task

theorem afterClose (h : Working s o j r) {process : Option Sid} {settled succeeded : Bool}
    {f : RetireFrame} (hp : process = (s.records r).process)
    (hpre : f.pre = true → (s.records r).spawnTask = none)
    (hs : succeeded = true → (s.records r).closeSucceeded = true)
    (ht : settled = true → (s.records r).closeTask = none)
    (hf : f.processRetired = true → ∀ p, process = some p → s.children.observed p = true) :
    (s.retireAfterClose j r process settled succeeded f).children.Sound o := by
  unfold retireAfterClose
  have hsoft : Soft s (if f.shutdownSettled then s else s.finishRetiredShutdownTask r) r := by
    split
    · exact .refl s r
    · exact finishRetiredShutdownTask_soft s r
  generalize (if f.shutdownSettled then s else s.finishRetiredShutdownTask r) = s1 at hsoft
  have hw := hsoft.working h
  have hcore := hsoft.core
  simp only [Retirement.core, Retirement.mk.injEq, true_and, and_true] at hcore
  obtain ⟨-, hc1, -, hc2, -, -, hc3, hc4⟩ := hcore
  simp only
  split
  · rename_i hret
    simp only [Bool.and_eq_true] at hret
    obtain ⟨⟨⟨⟨hpre', -⟩, hset⟩, hsucc⟩, -⟩ := hret
    have hd := hw.dropClient (hc2.trans (ht hset)) (hc3.trans (hs hsucc))
    refine hd.conclude ?_ (fun _ => ?_) ?_
    · simp [setRecord, hc1, hp]
    · simp [setRecord, hc4, hpre hpre']
    · intro hr p hpp
      exact (hsoft.observed p).trans (hf hr p hpp)
  · rename_i hret
    refine hw.conclude (hp.trans hc1.symm) (fun e => absurd e hret) ?_
    simpa [hsoft.observed] using hf

theorem startClose (h : Working s o j r) {c : Cid} (hc : (s.records r).client = some c)
    (ha : (s.records r).closeAttempted = false) :
    Working (((s.setRecord r { s.records r with closeTask := some c, closeAttempted := true
      }).setClient c { s.clients c with close := .running }).log (.closeStarted c)) o j r := by
  refine ⟨h.sound.startClose h.record h.run hc ha, h.record, ?_⟩
  simpa [setRecord, setClient, State.log] using h.task

theorem startShutdown (h : Working s o j r) {c : Cid} (hc : (s.records r).client = some c) :
    Working (((s.setRecord r { s.records r with shutdownTask := some c, shutdownAttempted := true
      }).setClient c { s.clients c with shutdown := .running }).log (.shutdownStarted c))
      o j r := by
  refine ⟨h.sound.startShutdown h.record h.run hc, h.record, ?_⟩
  simpa [setRecord, setClient, State.log] using h.task

theorem finishClose (h : Working s o j r) {c : Cid} {ok : Bool}
    (hc : (s.records r).client = some c) (hok : (s.clients c).close = .done ok) :
    Working (s.finishRetiredCloseTask r) o j r ∧
      ((s.finishRetiredCloseTask r).records r).closeTask = none := by
  refine ⟨⟨finishRetiredCloseTask_sound h.sound h.record h.run, ?_, ?_⟩, ?_⟩
  · obtain ⟨ct, cs, cok, heq⟩ := finishRetiredCloseTask_eq s r
    rw [heq]
    exact h.record
  · obtain ⟨ct, cs, cok, heq⟩ := finishRetiredCloseTask_eq s r
    simpa [heq, setRecord] using h.task
  · dsimp only [finishRetiredCloseTask]
    split
    · assumption
    · rename_i d hd
      obtain rfl : c = d := Option.some.inj (hc.symm.trans (h.recordOk.closeTask d hd).1)
      simp [hok, setRecord]

/-- The locals of `_retire_child` agree with its record. -/
structure Frame (s : State) (r : Rid) (child : Option Sid) (f : RetireFrame) : Prop where
  pre : f.pre = true → (s.records r).spawnTask = none
  client : f.client = (s.records r).client
  process : child = (s.records r).process
  retired : f.processRetired = true → ∀ p, child = some p → s.children.observed p = true

theorem Frame.soft {s' : State} {child : Option Sid} {f : RetireFrame}
    (h : Frame s r child f) (hs : Soft s s' r) : Frame s' r child f where
  pre := fun e => hs.spawnTask.trans (h.pre e)
  client := h.client.trans hs.client.symm
  process := h.process.trans hs.process.symm
  retired := fun e p hp => (hs.observed p).trans (h.retired e p hp)

theorem close (h : Working s o j r) {process : Option Sid} {f : RetireFrame}
    (hf : Frame s r process f) : (s.retireClose j r process f).children.Sound o := by
  unfold retireClose
  cases hfc : f.client with
  | none =>
    refine h.conclude hf.process (fun e => ⟨hf.pre e, ?_⟩) hf.retired
    rw [← hf.client, hfc]
  | some c =>
    have hc : (s.records r).client = some c := hf.client.symm.trans hfc
    simp only
    split
    · split
      · rename_i ht
        exact h.afterClose hf.process hf.pre id (fun _ => ht) hf.retired
      · exact h.suspend ⟨hf.pre, hc, hf.process, hf.retired⟩
    · rename_i ha
      refine (h.startClose hc (by simpa using ha)).suspend ⟨?_, ?_, ?_, hf.retired⟩
      · simpa [children, setRecord, setClient, State.log] using hf.pre
      · simpa [children, setRecord, setClient, State.log] using hc
      · simpa [children, setRecord, setClient, State.log] using hf.process

/-- The three bounded waits keep the same locals. -/
theorem suspendWait (h : Working s o j r) {p : Sid} {f : RetireFrame} (hf : Frame s r (some p) f)
    {pc : RetirePc} (hpc : pc = .exitWait p f ∨ pc = .terminateWait p f ∨ pc = .killWait p f) :
    ((s.startWait r p).retireSuspend j pc).children.Sound o := by
  refine (h.startWait hf.process.symm).suspend ?_
  have hk : (s.startWait r p).children.PcOk r (.exitWait p f) := by
    simpa [PcOk, children, startWait_records] using ⟨hf.pre, hf.client, hf.process.symm⟩
  obtain rfl | rfl | rfl := hpc
  · exact hk
  · exact hk
  · exact hk

theorem kill (h : Working s o j r) {p : Sid} {f : RetireFrame} (hf : Frame s r (some p) f) :
    (s.retireKill j r p f).children.Sound o := by
  dsimp only [retireKill]
  split
  · have hs : Soft s ((s.setRecord r { s.records r with killRequested := true }).log (.kill p)) r :=
      (setRecord_soft (by rfl) (by rfl)).trans (log_soft _ r _)
    exact (hs.working h).suspendWait (hf.soft hs) (.inr (.inr rfl))
  · exact h.close hf

theorem terminate (h : Working s o j r) {p : Sid} {f : RetireFrame} (hf : Frame s r (some p) f) :
    (s.retireTerminate j r p f).children.Sound o := by
  dsimp only [retireTerminate]
  split
  · exact h.close hf
  · split
    · have hs : Soft s ((s.setRecord r { s.records r with terminateRequested := true }).log
          (.terminate p)) r := (setRecord_soft (by rfl) (by rfl)).trans (log_soft _ r _)
      exact (hs.working h).suspendWait (hf.soft hs) (.inr (.inl rfl))
    · exact h.kill hf

theorem afterShutdown (h : Working s o j r) {f : RetireFrame}
    (hpre : f.pre = true → (s.records r).spawnTask = none)
    (hc : f.client = (s.records r).client) (hp : f.processRetired = false) :
    (s.retireAfterShutdown j r f).children.Sound o := by
  unfold retireAfterShutdown
  split
  · rename_i hnone
    exact h.close ⟨hpre, hc, hnone.symm, by simp⟩
  · rename_i p hsome
    exact h.suspendWait ⟨hpre, hc, hsome.symm, by simp [hp]⟩ (.inl rfl)

theorem afterStartup (h : Working s o j r) {pre : Bool}
    (hpre : pre = true → (s.records r).spawnTask = none) :
    (s.retireAfterStartup j r pre).children.Sound o := by
  dsimp only [retireAfterStartup]
  split
  · rename_i hc
    exact h.afterShutdown hpre hc.symm rfl
  · rename_i c hc
    split
    · split
      · exact h.afterShutdown hpre hc.symm rfl
      · exact h.suspend ⟨hpre, hc⟩
    · refine (h.startShutdown hc).suspend ⟨?_, ?_⟩
      · simpa [children, setRecord, setClient, State.log] using hpre
      · simpa [children, setRecord, setClient, State.log] using hc

theorem afterSpawn (h : Working s o j r) {spawnRetired : Bool}
    (hsp : spawnRetired = true → (s.records r).spawnTask = none) :
    (s.retireAfterSpawn j r spawnRetired).children.Sound o := by
  dsimp only [retireAfterSpawn]
  split
  · exact h.afterStartup hsp
  · have hs := foldl_soft (fun s k => cancelRetiredStartupTaskOnce_soft s r k)
      (s.records r).startupTasks s
    exact (hs.working h).suspend fun e => hs.spawnTask.trans (hsp e)

theorem adoptSpawn (h : Working s o j r) {sp : Sid} (hsp : (s.records r).spawnTask = some sp)
    (hd : s.spawns sp ≠ .running) :
    Working (s.adoptSpawn r sp) o j r ∧ ((s.adoptSpawn r sp).records r).spawnTask = none := by
  have hp : (s.records r).process = none := (h.recordOk.spawn sp hsp).2.2.1
  dsimp only [State.adoptSpawn]
  split
  · rename_i b hb _
    split
    · refine ⟨⟨h.sound.adoptPiped h.record h.run (by simp) hsp hb, h.record, ?_⟩, ?_⟩
      · simpa [setRecord, setClient] using h.task
      · simp [setRecord, setClient]
    · refine ⟨⟨h.sound.adoptBare h.record h.run (by simp) hsp hb, h.record, ?_⟩, ?_⟩
      · simpa [setRecord] using h.task
      · simp [setRecord]
  · rename_i hne
    refine ⟨⟨h.sound.adoptNone h.record h.run (by simp) hsp hd ?_, h.record, ?_⟩, ?_⟩
    · exact fun b hb => hne b hb hp
    · simpa [setRecord] using h.task
    · simp [setRecord]

end Working

/-- Every stretch of `_retire_child` keeps ownership in order. -/
theorem retireChild_sound {s : State} {o : Custody} {j : Jid} (h : s.children.Sound o)
    (hj : j < s.nextRetireTask) (hnd : ∀ b, (s.retireTasks j).pc ≠ .done b) :
    (s.retireChild j).children.Sound o := by
  have ht := h.tasks j hj (by simp)
  have hw : Working s o j (s.retireTasks j).record :=
    ⟨⟨h.place, h.earlier, h.client, h.fresh, h.records, fun i hi _ => h.tasks i hi (by simp)⟩,
      ht.record, ht.current hnd⟩
  have hpc := ht.pc
  unfold retireChild
  simp only [children] at hpc
  generalize (s.retireTasks j).record = r at hw hpc
  cases e : (s.retireTasks j).pc with
  | init =>
    simp only
    split
    · exact hw.afterSpawn (fun _ => by assumption)
    · rename_i sp hsp
      have hs := cancelRetiredSpawnOnce_soft s r sp
      exact (hs.working hw).suspend (hs.spawnTask.trans hsp)
  | spawnWait sp =>
    rw [e] at hpc
    have hsp : (s.records r).spawnTask = some sp := hpc
    simp only
    split
    · exact hw.afterSpawn (by simp)
    · rename_i hd
      rw [if_neg (by simp [hsp])]
      have ha := hw.adoptSpawn hsp (by simpa [spawnDone] using hd)
      exact ha.1.afterSpawn fun _ => ha.2
  | startupWait spawnRetired tasks =>
    rw [e] at hpc
    have hs := foldl_soft (fun s k => finishRetiredStartupTask_soft s r k)
      (tasks.filter s.phaseDone) s
    refine (hs.working hw).afterStartup fun hpre => ?_
    simp only [Bool.and_eq_true] at hpre
    exact hs.spawnTask.trans (hpc hpre.1)
  | shutdownWait pre c =>
    rw [e] at hpc
    obtain ⟨hpre, hc⟩ := hpc
    simp only
    split
    · have hs := finishRetiredShutdownTask_soft s r
      exact (hs.working hw).afterShutdown (fun e => hs.spawnTask.trans (hpre e))
        (hc.symm.trans hs.client.symm) rfl
    · exact hw.afterShutdown hpre hc.symm rfl
  | exitWait p f =>
    rw [e] at hpc
    obtain ⟨hpre, hc, hp⟩ := hpc
    have hs := missExit_soft s r p
    refine (hs.working hw).terminate (Working.Frame.soft ⟨hpre, hc, hp.symm, ?_⟩ hs)
    rintro e' q ⟨⟩
    exact e'
  | terminateWait p f =>
    rw [e] at hpc
    obtain ⟨hpre, hc, hp⟩ := hpc
    have hs := missExit_soft s r p
    refine (hs.working hw).kill (Working.Frame.soft ⟨hpre, hc, hp.symm, ?_⟩ hs)
    rintro e' q ⟨⟩
    exact e'
  | killWait p f =>
    rw [e] at hpc
    obtain ⟨hpre, hc, hp⟩ := hpc
    have hs := missExit_soft s r p
    refine (hs.working hw).close (Working.Frame.soft ⟨hpre, hc, hp.symm, ?_⟩ hs)
    rintro e' q ⟨⟩
    exact e'
  | closeWait process c f =>
    rw [e] at hpc
    obtain ⟨hpre, hc, hp, hf⟩ := hpc
    simp only
    split
    · rename_i ok hok
      obtain ⟨hw', ht'⟩ := hw.finishClose hc hok
      obtain ⟨ct, cs, cok, heq⟩ := finishRetiredCloseTask_eq s r
      refine hw'.afterClose ?_ ?_ id (fun _ => ht') ?_
      · simpa [heq, setRecord] using hp
      · simpa [heq, setRecord] using hpre
      · rw [heq]
        exact hf
    · exact hw.afterClose hp hpre (by simp) (by simp) hf
  | lastWait p =>
    rw [e] at hpc
    obtain ⟨hsp, hc, hp⟩ := hpc
    have hs := missExit_soft s r p
    refine (hs.working hw).ret fun hobs => ⟨hs.spawnTask.trans hsp, hs.client.trans hc, ?_⟩
    intro q hq
    obtain rfl : p = q := Option.some.inj ((hs.process.trans hp).symm.trans hq)
    exact (hs.observed p).trans hobs
  | done b => exact absurd e (hnd b)

end State

end KestrelSdk.Subprocess

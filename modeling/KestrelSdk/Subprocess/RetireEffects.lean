import KestrelSdk.Subprocess.Ledger

namespace KestrelSdk.Subprocess

open Asyncio

namespace State

open Children

section

variable {s : State} {o : Custody} {j : Jid} {r : Rid} {p : Sid}

theorem missExit_ledger (h : s.gear.Ledger) (p : Sid) : (s.missExit p).gear.Ledger := by
  unfold missExit
  split
  · exact h
  · exact h.note p

theorem setRecord_ledger (h : s.gear.Ledger) {x : Retirement} (hx : Gear.Milder (s.records r) x) :
    (s.setRecord r x).gear.Ledger :=
  h.grow (Gear.Milder.grows (g := s.gear) hx)

theorem finishRetiredStartupTask_ledger (h : s.gear.Ledger) (r : Rid) (k : Kid) :
    (s.finishRetiredStartupTask r k).gear.Ledger := by
  refine setRecord_ledger h { Gear.Milder.refl _ with startup := fun i hi => ?_ }
  simp only [List.mem_filter, decide_eq_true_eq] at hi
  refine ⟨hi.1, fun hm => ?_⟩
  dsimp only
  split
  · simpa using ⟨hm, hi.2⟩
  · exact hm

theorem finishRetiredShutdownTask_ledger (h : s.gear.Ledger) (r : Rid) :
    (s.finishRetiredShutdownTask r).gear.Ledger := by
  dsimp only [finishRetiredShutdownTask]
  split
  · exact h
  · split
    · exact setRecord_ledger h (.same rfl)
    · exact h

theorem finishRetiredCloseTask_ledger (h : s.gear.Ledger) (r : Rid) :
    (s.finishRetiredCloseTask r).gear.Ledger := by
  obtain ⟨task, settled, succeeded, heq⟩ := finishRetiredCloseTask_eq s r
  rw [heq]
  exact setRecord_ledger h (.same rfl)

theorem retireSuspend_ledger (h : s.gear.Ledger) {pc : RetirePc}
    (hpc : ∀ p f, pc = .terminateWait p f → (s.retireTasks j).record < s.nextRecord ∧
      (s.records (s.retireTasks j).record).terminateRequested = true) :
    (s.retireSuspend j pc).gear.Ledger :=
  h.setTask hpc

theorem retireReturn_ledger (h : s.gear.Ledger) (b : Bool) : (s.retireReturn j b).gear.Ledger :=
  h.setTask (by simp)

/-- A spawn that only record `r` holds is cancelled once. -/
theorem cancelRetiredSpawnOnce_ledger (h : s.gear.Ledger) {sp : Sid} (hr : r < s.nextRecord)
    (hsp : (s.records r).spawnTask = some sp) (hlt : sp < s.nextSpawn)
    (hlive : s.spawnTask ≠ some sp)
    (huniq : ∀ q < s.nextRecord, (s.records q).spawnTask = some sp → q = r) :
    (s.cancelRetiredSpawnOnce r sp).gear.Ledger := by
  dsimp only [cancelRetiredSpawnOnce]
  split
  · exact h
  · rename_i hc
    simp only [Bool.or_eq_true, not_or, Bool.not_eq_true] at hc
    refine h.fire (e := .spawnCancelled sp) ?_ ?_ ⟨hlt, fun e => absurd e hlive, ?_⟩ rfl (by simp)
    · exact Gear.Milder.grows (g := s.gear) (r := r)
        (x := { s.records r with spawnCancelRequested := true })
        { Gear.Milder.refl _ with spawn := .inr ⟨rfl, fun _ => rfl⟩ }
    · rintro ⟨-, -, hf⟩
      exact absurd ((hf r hr hsp).symm.trans hc.2) (by simp)
    · intro q hq hqs
      by_cases hqr : q = r
      · subst hqr
        simp [gear, State.log, setRecord]
      · refine absurd (huniq q hq ?_) hqr
        simpa [gear, State.log, setRecord, hqr] using hqs

/-- A startup task of record `r` is cancelled once. -/
theorem cancelRetiredStartupTaskOnce_ledger (h : s.gear.Ledger) {k : Kid} (hr : r < s.nextRecord)
    (hk : k ∈ (s.records r).startupTasks) :
    (s.cancelRetiredStartupTaskOnce r k).gear.Ledger := by
  dsimp only [cancelRetiredStartupTaskOnce]
  split
  · exact h
  · rename_i hc
    simp only [Bool.or_eq_true, decide_eq_true_eq, not_or] at hc
    obtain ⟨hlt, huniq⟩ := h.held r hr k hk
    refine h.fire (e := .startupCancelled k) ?_ ?_ ⟨hlt, fun hm => ?_, fun q hq hqk => ?_⟩ rfl
      (by simp)
    · exact Gear.Milder.grows (g := s.gear) (r := r)
        (x := { s.records r with
          startupCancelRequested := k :: (s.records r).startupCancelRequested })
        { Gear.Milder.refl _ with startup := fun _ h => ⟨h, List.mem_cons_of_mem k⟩ }
    · rintro ⟨-, -, hf⟩
      exact hc.2 (hf r hr hk)
    · exact absurd hk ((h.live k hm).2 r hr)
    · by_cases hqr : q = r
      · subst hqr
        simp [gear, State.log, setRecord]
      · refine absurd (huniq q hq ?_) hqr
        simpa [gear, State.log, setRecord, hqr] using hqk

theorem cancelRetired_same (s : State) (r : Rid) (k : Kid) :
    ((s.cancelRetiredStartupTaskOnce r k).records r).startupTasks = (s.records r).startupTasks ∧
      (s.cancelRetiredStartupTaskOnce r k).nextRecord = s.nextRecord := by
  dsimp only [cancelRetiredStartupTaskOnce]
  split
  · exact ⟨rfl, rfl⟩
  · simp [State.log, setRecord]

theorem cancelRetiredAll_ledger (l : List Kid) {s : State} (h : s.gear.Ledger)
    (hr : r < s.nextRecord) (hl : ∀ k ∈ l, k ∈ (s.records r).startupTasks) :
    (l.foldl (fun s k => s.cancelRetiredStartupTaskOnce r k) s).gear.Ledger := by
  induction l generalizing s with
  | nil => exact h
  | cons k l ih =>
    obtain ⟨h1, h2⟩ := cancelRetired_same s r k
    refine ih (cancelRetiredStartupTaskOnce_ledger h hr (hl k (by simp))) (h2 ▸ hr) fun i hi => ?_
    rw [h1]
    exact hl i (by simp [hi])

theorem finishRetiredAll_ledger (l : List Kid) {s : State} (h : s.gear.Ledger) (r : Rid) :
    (l.foldl (fun s k => s.finishRetiredStartupTask r k) s).gear.Ledger := by
  induction l generalizing s with
  | nil => exact h
  | cons k l ih => exact ih (finishRetiredStartupTask_ledger h r k)

namespace Working

/-- Only the record in custody holds a spawn. -/
theorem holds_spawn (hw : Working s o j r) {sp : Sid} (hsp : (s.records r).spawnTask = some sp) :
    s.spawnTask = none ∧ ∀ q < s.nextRecord, (s.records q).spawnTask = some sp → q = r := by
  have hcur : ∀ i < s.nextRecord, (s.records i).spawnTask = some sp → o = .record i := by
    intro i hi his
    exact hw.sound.current hi fun hc => by simpa [children, his] using hc.1
  have ho := hcur r hw.record hsp
  refine ⟨?_, fun q hq hqs => ?_⟩
  · have : s.spawnTask = o.spawn s.children.last := hw.sound.place.spawnTask
    rw [this, ho]
    rfl
  · have h1 := hcur q hq hqs
    rw [ho] at h1
    cases h1
    rfl

/-- The wait task is created once for each process. -/
theorem startWait_ledger (hw : Working s o j r) (h : s.gear.Ledger)
    (hp : (s.records r).process = some p) : (s.startWait r p).gear.Ledger := by
  dsimp only [State.startWait]
  split
  · exact h
  · rename_i hn
    have habs : (s.processes p).wait = .absent := hw.recordOk.wait p hp (by simpa [children] using hn)
    refine h.fire (e := .waitStarted p) ?_ ?_ ?_ rfl (by simp)
    · refine { (Gear.Milder.grows (g := s.gear) (r := r)
          (x := { s.records r with waitTask := true }) (.same rfl)) with wait := fun q hq => ?_ }
      by_cases hqp : q = p
      · subst hqp
        simp [gear, State.log, setProcess]
      · simpa [gear, State.log, setProcess, setRecord, hqp] using hq
    · simp [Gear.Spent, gear, habs]
    · simp [Gear.Spent, gear, State.log, setProcess]

theorem startShutdown_ledger (hw : Working s o j r) (h : s.gear.Ledger) {c : Cid}
    (hc : (s.records r).client = some c) (ha : (s.records r).shutdownAttempted = false) :
    (((s.setRecord r { s.records r with shutdownTask := some c, shutdownAttempted := true
      }).setClient c { s.clients c with shutdown := .running }).log
        (.shutdownStarted c)).gear.Ledger := by
  have habs : (s.clients c).shutdown = .absent := hw.recordOk.shutdown c hc ha
  have hlt : c < s.nextClient := (hw.recordOk.client c hc).1
  refine h.fire (e := .shutdownStarted c) ?_ ?_ ?_ rfl (by simp)
  · refine { (Gear.Milder.grows (g := s.gear) (r := r) (x := { s.records r with
        shutdownTask := some c, shutdownAttempted := true }) (.same rfl)) with
        clients := fun d => ?_, fresh := fun d hd => ?_, atop := Gear.over_same s.gear fun d => ?_ }
    · by_cases hdc : d = c
      · subst hdc
        simp [gear, State.log, setClient, setRecord]
      · simp [gear, State.log, setClient, setRecord, hdc]
    · have hdc : d ≠ c := Nat.ne_of_gt (Nat.lt_of_lt_of_le hlt hd)
      exact ⟨hd, by simp [gear, State.log, setClient, setRecord, hdc],
        by simp [gear, State.log, setClient, setRecord, hdc]⟩
    · by_cases hdc : d = c
      · subst hdc
        simp [gear, State.log, setClient, setRecord]
      · simp [gear, State.log, setClient, setRecord, hdc]
  · simp [Gear.Spent, gear, habs]
  · simp [Gear.Spent, gear, State.log, setClient]

theorem startClose_ledger (hw : Working s o j r) (h : s.gear.Ledger) {c : Cid}
    (hc : (s.records r).client = some c) (ha : (s.records r).closeAttempted = false) :
    (((s.setRecord r { s.records r with closeTask := some c, closeAttempted := true
      }).setClient c { s.clients c with close := .running }).log
        (.closeStarted c)).gear.Ledger := by
  have habs : (s.clients c).close = .absent := hw.recordOk.close c hc ha
  have hlt : c < s.nextClient := (hw.recordOk.client c hc).1
  refine h.fire (e := .closeStarted c) ?_ ?_ ?_ rfl (by simp)
  · refine { (Gear.Milder.grows (g := s.gear) (r := r) (x := { s.records r with
        closeTask := some c, closeAttempted := true }) (.same rfl)) with
        clients := fun d => ?_, fresh := fun d hd => ?_, atop := Gear.over_same s.gear fun d => ?_ }
    · by_cases hdc : d = c
      · subst hdc
        simp [gear, State.log, setClient, setRecord]
      · simp [gear, State.log, setClient, setRecord, hdc]
    · have hdc : d ≠ c := Nat.ne_of_gt (Nat.lt_of_lt_of_le hlt hd)
      exact ⟨hd, by simp [gear, State.log, setClient, setRecord, hdc],
        by simp [gear, State.log, setClient, setRecord, hdc]⟩
    · by_cases hdc : d = c
      · subst hdc
        simp [gear, State.log, setClient, setRecord]
      · simp [gear, State.log, setClient, setRecord, hdc]
  · simp [Gear.Spent, gear, habs]
  · simp [Gear.Spent, gear, State.log, setClient]

theorem conclude_ledger (hw : Working s o j r) (h : s.gear.Ledger) {process : Option Sid}
    {b : Bool} {f : RetireFrame} (hp : process = (s.records r).process) :
    (s.retireConclude j r process b f).gear.Ledger := by
  unfold retireConclude
  cases process with
  | none => exact retireReturn_ledger h _
  | some p =>
    simp only
    split
    · exact retireReturn_ledger h _
    · split
      · exact retireSuspend_ledger (hw.startWait_ledger h hp.symm) (by simp)
      · exact retireReturn_ledger h _

theorem afterClose_ledger (hw : Working s o j r) (h : s.gear.Ledger) {process : Option Sid}
    {settled succeeded : Bool} {f : RetireFrame} (hp : process = (s.records r).process)
    (hs : succeeded = true → (s.records r).closeSucceeded = true)
    (ht : settled = true → (s.records r).closeTask = none) :
    (s.retireAfterClose j r process settled succeeded f).gear.Ledger := by
  unfold retireAfterClose
  have hsoft : Soft s (if f.shutdownSettled then s else s.finishRetiredShutdownTask r) r ∧
      (if f.shutdownSettled then s else s.finishRetiredShutdownTask r).gear.Ledger := by
    split
    · exact ⟨.refl s r, h⟩
    · exact ⟨finishRetiredShutdownTask_soft s r, finishRetiredShutdownTask_ledger h r⟩
  generalize (if f.shutdownSettled then s else s.finishRetiredShutdownTask r) = s1 at hsoft
  obtain ⟨hsoft, h1⟩ := hsoft
  have hw1 := hsoft.working hw
  have hcore := hsoft.core
  simp only [Retirement.core, Retirement.mk.injEq, true_and, and_true] at hcore
  obtain ⟨-, hc1, -, hc2, -, -, hc3, -⟩ := hcore
  simp only
  split
  · rename_i hret
    simp only [Bool.and_eq_true] at hret
    obtain ⟨⟨⟨-, hset⟩, hsucc⟩, -⟩ := hret
    have hd := hw1.dropClient (hc2.trans (ht hset)) (hc3.trans (hs hsucc))
    refine hd.conclude_ledger (setRecord_ledger h1 (.same rfl)) ?_
    simp [setRecord, hc1, hp]
  · exact hw1.conclude_ledger h1 (hp.trans hc1.symm)

theorem close_ledger (hw : Working s o j r) (h : s.gear.Ledger) {process : Option Sid}
    {f : RetireFrame} (hf : Frame s r process f) :
    (s.retireClose j r process f).gear.Ledger := by
  unfold retireClose
  cases hfc : f.client with
  | none => exact hw.conclude_ledger h hf.process
  | some c =>
    simp only
    split
    · split
      · rename_i ht
        exact hw.afterClose_ledger h hf.process id (fun _ => ht)
      · exact retireSuspend_ledger h (by simp)
    · rename_i ha
      exact retireSuspend_ledger (hw.startClose_ledger h (hf.client.symm.trans hfc)
        (by simpa using ha)) (by simp)

/-- Only the record in custody can hold a process whose exit was missed. -/
theorem unspent (hw : Working s o j r) (hp : (s.records r).process = some p)
    (hx : s.exitObserved p = false) {q : Rid} (hq : q < s.nextRecord)
    (hqp : (s.records q).process = some p) : q = r := by
  have hcur : ∀ i < s.nextRecord, (s.records i).process = some p → o = .record i := by
    intro i hi hip
    refine hw.sound.current hi fun hc => ?_
    exact absurd ((hc.2.2 p hip).symm.trans hx) (by simp)
  have h1 := hcur q hq hqp
  rw [hcur r hw.record hp] at h1
  cases h1
  rfl

/-- A kill follows a missed wait, and that a terminate. -/
theorem kill_ledger (hw : Working s o j r) (h : s.gear.Ledger) {f : RetireFrame}
    (hf : Frame s r (some p) f) (hx : f.processRetired = s.exitObserved p)
    (hm : f.processRetired = false → ∃ E, s.effects = .exitMissed p :: E)
    (ht : f.processRetired = false → (s.processes p).returncode = false →
      (s.records r).terminateRequested = true) : (s.retireKill j r p f).gear.Ledger := by
  dsimp only [retireKill]
  split
  · rename_i hc
    simp only [Bool.and_eq_true, Bool.not_eq_true'] at hc
    obtain ⟨⟨h1, h2⟩, h3⟩ := hc
    have hs : Soft s ((s.setRecord r { s.records r with killRequested := true }).log (.kill p)) r :=
      (setRecord_soft (by rfl) (by rfl)).trans (log_soft _ r _)
    have hp : (s.records r).process = some p := hf.process.symm
    refine retireSuspend_ledger ((hs.working hw).startWait_ledger ?_ (hs.process.trans hp)) (by simp)
    refine h.fire (e := .kill p) ?_ ?_ ?_ rfl fun q hq => ?_
    · exact Gear.Milder.grows (g := s.gear) (r := r)
        (x := { s.records r with killRequested := true })
        { Gear.Milder.refl _ with kill := fun _ => rfl }
    · rintro ⟨q, hq, hqp, hk⟩
      obtain rfl := hw.unspent hp (hx ▸ h1) hq hqp
      exact absurd (hk.symm.trans h3) (by simp)
    · exact ⟨r, hw.record, by simp [gear, State.log, setRecord, hp],
        by simp [gear, State.log, setRecord]⟩
    · cases hq
      obtain ⟨E, hE⟩ := hm h1
      obtain ⟨q, hq, hmem⟩ := h.terminated r hw.record (ht h1 h2)
      obtain rfl : p = q := Option.some.inj (hp.symm.trans hq)
      have hmem' : Effect.terminate p ∈ s.effects := hmem
      rw [hE] at hmem'
      refine ⟨[], E, hE, ?_⟩
      simpa using hmem'
  · exact hw.close_ledger h hf

theorem terminate_ledger (hw : Working s o j r) (h : s.gear.Ledger) {f : RetireFrame}
    (hf : Frame s r (some p) f) (hx : f.processRetired = s.exitObserved p)
    (hm : f.processRetired = false → ∃ E, s.effects = .exitMissed p :: E) :
    (s.retireTerminate j r p f).gear.Ledger := by
  dsimp only [retireTerminate]
  split
  · exact hw.close_ledger h hf
  · rename_i hret
    have hret' : f.processRetired = false := by simpa using hret
    split
    · rename_i hc
      simp only [Bool.and_eq_true, Bool.not_eq_true'] at hc
      have hs : Soft s ((s.setRecord r { s.records r with terminateRequested := true }).log
          (.terminate p)) r := (setRecord_soft (by rfl) (by rfl)).trans (log_soft _ r _)
      have hp : (s.records r).process = some p := hf.process.symm
      have h1 : ((s.setRecord r { s.records r with terminateRequested := true }).log
          (.terminate p)).gear.Ledger := by
        refine h.terminate hw.record hp ?_
        rintro ⟨q, hq, hqp, hk⟩
        obtain rfl := hw.unspent hp (hx ▸ hret') hq hqp
        exact absurd (hk.symm.trans hc.2) (by simp)
      have hw1 := hs.working hw
      have hrec := (hw1.startWait (p := p) (hs.process.trans hp)).of_task
      refine retireSuspend_ledger (hw1.startWait_ledger h1 (hs.process.trans hp)) fun _ _ _ => ?_
      rw [hrec]
      refine ⟨(hw1.startWait (hs.process.trans hp)).record, ?_⟩
      simp [startWait_records, State.log, setRecord]
    · rename_i hc
      refine hw.kill_ledger h hf hx hm fun _ hrc => ?_
      simpa [hrc] using hc

theorem afterShutdown_ledger (hw : Working s o j r) (h : s.gear.Ledger) {f : RetireFrame}
    (hpre : f.pre = true → (s.records r).spawnTask = none)
    (hc : f.client = (s.records r).client) :
    (s.retireAfterShutdown j r f).gear.Ledger := by
  unfold retireAfterShutdown
  split
  · rename_i hnone
    exact hw.close_ledger h ⟨hpre, hc, hnone.symm, by simp⟩
  · rename_i p hsome
    exact retireSuspend_ledger (hw.startWait_ledger h hsome) (by simp)

theorem afterStartup_ledger (hw : Working s o j r) (h : s.gear.Ledger) {pre : Bool}
    (hpre : pre = true → (s.records r).spawnTask = none) :
    (s.retireAfterStartup j r pre).gear.Ledger := by
  dsimp only [retireAfterStartup]
  split
  · rename_i hc
    exact hw.afterShutdown_ledger h hpre hc.symm
  · rename_i c hc
    split
    · split
      · exact hw.afterShutdown_ledger h hpre hc.symm
      · exact retireSuspend_ledger h (by simp)
    · rename_i ha
      exact retireSuspend_ledger (hw.startShutdown_ledger h hc (by simpa using ha)) (by simp)

theorem afterSpawn_ledger (hw : Working s o j r) (h : s.gear.Ledger) {spawnRetired : Bool}
    (hsp : spawnRetired = true → (s.records r).spawnTask = none) :
    (s.retireAfterSpawn j r spawnRetired).gear.Ledger := by
  dsimp only [retireAfterSpawn]
  split
  · exact hw.afterStartup_ledger h hsp
  · exact retireSuspend_ledger (cancelRetiredAll_ledger _ h hw.record fun _ => id) (by simp)

/-- The settled spawn is consumed: the client over its process is new. -/
theorem adoptSpawn_ledger (hw : Working s o j r) (h : s.gear.Ledger) {sp : Sid}
    (hsp : (s.records r).spawnTask = some sp) : (s.adoptSpawn r sp).gear.Ledger := by
  have hp : (s.records r).process = none := (hw.recordOk.spawn sp hsp).2.2.1
  have hnew : ∀ c, ¬ s.children.Over sp c := (hw.recordOk.spawn sp hsp).2.1.2
  have hx : ∀ p c, Gear.Milder (s.records r)
      { s.records r with spawnTask := none, process := p, client := c } := fun p c =>
    { Gear.Milder.refl _ with process := by simp [hp], spawn := .inl rfl }
  dsimp only [State.adoptSpawn]
  split
  · split
    · refine h.grow { (Gear.Milder.grows (g := s.gear) (r := r) (hx (some sp) (some s.nextClient)))
        with clients := fun c => ?_, fresh := fun c hc => ?_
             atop := Gear.over_new s.gear fun c hc e => hnew c ⟨hc, e⟩ }
      · by_cases hcn : c = s.nextClient
        · subst hcn
          obtain ⟨h1, h2⟩ := h.fresh _ (Nat.le_refl _)
          exact ⟨fun e => absurd h1 e, fun e => absurd h2 e⟩
        · simp [gear, setClient, setRecord, hcn]
      · have hlt : s.nextClient < c := hc
        exact ⟨Nat.le_of_lt hlt, by simp [gear, setClient, setRecord, Nat.ne_of_gt hlt],
          by simp [gear, setClient, setRecord, Nat.ne_of_gt hlt]⟩
    · exact setRecord_ledger h (hx (some sp) (s.records r).client)
  · exact setRecord_ledger h { Gear.Milder.refl _ with spawn := .inl rfl }

end Working

/-- Every stretch of `_retire_child` performs only effects that have not happened yet. -/
theorem retireChild_ledger (h : s.children.Sound o) (hl : s.gear.Ledger)
    (hj : j < s.nextRetireTask) (hnd : ∀ b, (s.retireTasks j).pc ≠ .done b) :
    (s.retireChild j).gear.Ledger := by
  have ht := h.tasks j hj (by simp)
  have hw : Working s o j (s.retireTasks j).record :=
    ⟨⟨h.place, h.earlier, h.client, h.fresh, h.records, fun i hi _ => h.tasks i hi (by simp)⟩,
      ht.record, ht.current hnd⟩
  have hpc := ht.pc
  have hwait := hl.waiting j hj
  unfold retireChild
  simp only [children] at hpc
  simp only [gear] at hwait
  generalize (s.retireTasks j).record = r at hw hpc hwait
  -- A bounded wait has come back: what it saw is noted before the next phase.
  have hmiss : ∀ p, s.exitObserved p = false → ∃ E, (s.missExit p).effects = .exitMissed p :: E := by
    intro p hx
    exact ⟨s.effects, by simp [missExit, hx, State.log]⟩
  have hobs : ∀ p q, (s.missExit p).exitObserved q = s.exitObserved q := by
    intro p q
    unfold missExit
    split <;> rfl
  cases e : (s.retireTasks j).pc with
  | init =>
    simp only
    split
    · exact hw.afterSpawn_ledger hl (fun _ => by assumption)
    · rename_i sp hsp
      obtain ⟨h1, h2⟩ := hw.holds_spawn hsp
      refine retireSuspend_ledger (cancelRetiredSpawnOnce_ledger hl hw.record hsp
        (hw.recordOk.spawn sp hsp).1 (by simp [h1]) h2) (by simp)
  | spawnWait sp =>
    rw [e] at hpc
    have hsp : (s.records r).spawnTask = some sp := hpc
    simp only
    split
    · exact hw.afterSpawn_ledger hl (by simp)
    · rename_i hd
      rw [if_neg (by simp [hsp])]
      have ha := hw.adoptSpawn hsp (by simpa [spawnDone] using hd)
      exact ha.1.afterSpawn_ledger (hw.adoptSpawn_ledger hl hsp) fun _ => ha.2
  | startupWait spawnRetired tasks =>
    rw [e] at hpc
    have hs := foldl_soft (fun s k => finishRetiredStartupTask_soft s r k)
      (tasks.filter s.phaseDone) s
    refine (hs.working hw).afterStartup_ledger (finishRetiredAll_ledger _ hl r) fun hpre => ?_
    simp only [Bool.and_eq_true] at hpre
    exact hs.spawnTask.trans (hpc hpre.1)
  | shutdownWait pre c =>
    rw [e] at hpc
    obtain ⟨hpre, hc⟩ := hpc
    simp only
    split
    · have hs := finishRetiredShutdownTask_soft s r
      exact (hs.working hw).afterShutdown_ledger (finishRetiredShutdownTask_ledger hl r)
        (fun e => hs.spawnTask.trans (hpre e)) (hc.symm.trans hs.client.symm)
    · exact hw.afterShutdown_ledger hl hpre hc.symm
  | exitWait p f =>
    rw [e] at hpc
    obtain ⟨hpre, hc, hp⟩ := hpc
    have hs := missExit_soft s r p
    refine (hs.working hw).terminate_ledger (missExit_ledger hl p)
      (Working.Frame.soft ⟨hpre, hc, hp.symm, ?_⟩ hs) (hobs p p).symm (hmiss p)
    rintro e' q ⟨⟩
    exact e'
  | terminateWait p f =>
    obtain ⟨-, hterm⟩ := hwait p f e
    rw [e] at hpc
    obtain ⟨hpre, hc, hp⟩ := hpc
    have hs := missExit_soft s r p
    refine (hs.working hw).kill_ledger (missExit_ledger hl p)
      (Working.Frame.soft ⟨hpre, hc, hp.symm, ?_⟩ hs) (hobs p p).symm (hmiss p) fun _ _ => ?_
    · rintro e' q ⟨⟩
      exact e'
    · unfold missExit
      split <;> exact hterm
  | killWait p f =>
    rw [e] at hpc
    obtain ⟨hpre, hc, hp⟩ := hpc
    have hs := missExit_soft s r p
    refine (hs.working hw).close_ledger (missExit_ledger hl p)
      (Working.Frame.soft ⟨hpre, hc, hp.symm, ?_⟩ hs)
    rintro e' q ⟨⟩
    exact e'
  | closeWait process c f =>
    rw [e] at hpc
    obtain ⟨-, hc, hp, -⟩ := hpc
    simp only
    split
    · rename_i ok hok
      obtain ⟨hw', ht'⟩ := hw.finishClose hc hok
      obtain ⟨ct, cs, cok, heq⟩ := finishRetiredCloseTask_eq s r
      refine hw'.afterClose_ledger (finishRetiredCloseTask_ledger hl r) ?_ id (fun _ => ht')
      simpa [heq, setRecord] using hp
    · exact hw.afterClose_ledger hl hp (by simp) (by simp)
  | lastWait p => exact retireReturn_ledger (missExit_ledger hl p) _
  | done b => exact absurd e (hnd b)

end

end State

end KestrelSdk.Subprocess

import KestrelSdk.Subprocess.Invariant

namespace KestrelSdk.Subprocess

open Asyncio

theorem RetireTask.spawnHold_pos {x : Retirement} {k : RetireTask} {d : Nat}
    (h : d < k.spawnHold x) : x.spawnTask ≠ none ∧ ∀ b, k.pc ≠ .done b := by
  constructor
  · intro e
    simp [spawnHold, e] at h
  · intro b e
    simp [spawnHold, e] at h

theorem RetireTask.pairHold_pos {x : Retirement} {k : RetireTask} {d : Nat}
    (h : d < k.pairHold x) : x.client ≠ none ∧ ∀ b, k.pc ≠ .done b := by
  constructor
  · intro e
    simp [pairHold, e] at h
  · intro b e
    simp [pairHold, e] at h

/-- What the promises of a retirement task depend on. -/
def Retirement.hold (x : Retirement) : Retirement :=
  { client := x.client, task := x.task, spawnTask := x.spawnTask,
    shutdownAttempted := x.shutdownAttempted, closeAttempted := x.closeAttempted }

namespace State

open Children

/-- A step that leaves records, retirement tasks, the start slot and stop attempts alone. -/
structure Still (s s' : State) : Prop where
  now : s.now ≤ s'.now
  nextSpawn : s'.nextSpawn = s.nextSpawn
  slot : s'.startingGeneration = s.startingGeneration
  records : s'.records = s.records
  retireTasks : s'.retireTasks = s.retireTasks
  nextRetireTask : s'.nextRetireTask = s.nextRetireTask
  attempts : s'.attempts = s.attempts
  nextAttempt : s'.nextAttempt = s.nextAttempt

theorem Still.same {s s' : State}
    (h : (s'.now, s'.nextSpawn, s'.startingGeneration, s'.records, s'.retireTasks,
        s'.nextRetireTask, s'.attempts, s'.nextAttempt) =
      (s.now, s.nextSpawn, s.startingGeneration, s.records, s.retireTasks,
        s.nextRetireTask, s.attempts, s.nextAttempt)) : Still s s' := by
  simp only [Prod.mk.injEq] at h
  obtain ⟨h1, h2, h3, h4, h5, h6, h7, h8⟩ := h
  exact ⟨Nat.le_of_eq h1.symm, h2, h3, h4, h5, h6, h7, h8⟩

theorem Still.keeps {s s' : State} (h : Still s s') (o : Custody) : Keeps s s' o o where
  now := h.now
  nextSpawn := h.nextSpawn
  slot := h.slot
  awaits := by
    intro r j hj
    simpa [Awaits, h.nextRetireTask, h.retireTasks] using hj
  done := by
    intro j b _ hj
    rw [h.retireTasks]
    exact hj
  handed := id
  released := id
  kept := fun _ => rfl
  movedSpawn := by
    intro d _ hd
    simpa [MovedSpawn, h.records, h.retireTasks] using hd
  movedPair := by
    intro d _ hd
    simpa [MovedPair, h.records, h.retireTasks] using hd
  attempts := by
    intro a ha
    simp [h.attempts, h.nextAttempt, ha]

theorem Keeps.same {s s' : State} {o : Custody}
    (h : (s'.now, s'.nextSpawn, s'.startingGeneration, s'.records, s'.retireTasks,
        s'.nextRetireTask, s'.attempts, s'.nextAttempt) =
      (s.now, s.nextSpawn, s.startingGeneration, s.records, s.retireTasks,
        s.nextRetireTask, s.attempts, s.nextAttempt)) : Keeps s s' o o :=
  (Still.same h).keeps o

section Keeps

variable {s : State} {o : Custody} {r : Rid}

/-- A retirement task runs while others hold on to what its record promised. -/
theorem retireChild_keeps {j : Jid} (h : s.children.Sound o) (hj : s.RetireReady j) :
    Keeps s (s.retireChild j) o o := by
  have hc := retireChild_confined s j
  have htask := h.tasks j hj.1 (by simp)
  have hcur := htask.current hj.not_done
  have hsame := hc.same
  have hrec : ∀ i, ((s.retireChild j).retireTasks i).record = (s.retireTasks i).record := by
    intro i
    by_cases hij : i = j
    · rw [hij]
      exact hc.record
    · rw [hc.tasks i hij]
  -- The running task is the current one of its record, so every other record is untouched.
  have hother : ∀ q i, o = .record q → (s.records q).task = some i → i ≠ j →
      (s.retireChild j).records q = s.records q ∧
        (s.retireChild j).retireTasks i = s.retireTasks i := by
    intro q i hq hi hij
    refine ⟨hc.records q ?_, hc.tasks i hij⟩
    rintro rfl
    exact hij (Option.some.inj (hi.symm.trans hcur))
  have howner : ∀ q, o = .record q → (s.records q).task = some j →
      (s.retireTasks j).record = q := by
    intro q hq hi
    subst hq
    obtain ⟨i, h1, -, h2⟩ := (h.records q h.current_lt).task
    obtain rfl : j = i := Option.some.inj (hi.symm.trans h1)
    exact h2
  refine ⟨?_, ?_, ?_, ?_, ?_, id, id, fun _ => rfl, ?_, ?_, ?_⟩
  · exact Nat.le_of_eq (by rw [hsame])
  · rw [hsame]
  · rw [hsame]
  · rintro q i ⟨h1, h2⟩
    refine ⟨?_, (hrec i).trans h2⟩
    rw [hsame]
    exact h1
  · intro i b _ hi
    rw [hc.tasks i]
    · exact hi
    · rintro rfl
      exact hj.not_done b hi
  · rintro d hd ⟨q, i, hq, hi, hh⟩
    by_cases hij : i = j
    · subst hij
      obtain rfl := howner q hq hi
      refine ⟨_, i, hq, hc.task.trans hi, retireChild_spawnHold hj ?_ hh⟩
      rw [hsame] at hd
      exact hd
    · obtain ⟨h1, h2⟩ := hother q i hq hi hij
      exact ⟨q, i, hq, by rw [h1, hi], by rw [h1, h2]; exact hh⟩
  · rintro d hd ⟨q, i, hq, hi, hh⟩
    by_cases hij : i = j
    · subst hij
      obtain rfl := howner q hq hi
      refine ⟨_, i, hq, hc.task.trans hi, retireChild_pairHold h hj ?_ hh⟩
      rw [hsame] at hd
      exact hd
    · obtain ⟨h1, h2⟩ := hother q i hq hi hij
      exact ⟨q, i, hq, by rw [h1, hi], by rw [h1, h2]; exact hh⟩
  · intro a ha
    rw [hsame]
    exact ⟨ha, rfl⟩

theorem retireResult_eq {j : Jid} {b : Bool} (h : s.retireResult j = some b) :
    (s.retireTasks j).pc = .done b := by
  unfold retireResult at h
  split at h
  · rename_i b' e
    rw [e, Option.some.inj h]
  · cases h

/-- A fresh task for a record whose last one has ended. -/
theorem createRetireTask_keeps (h : s.children.Sound o) (hr : r < s.nextRecord)
    (hd : ∀ j, (s.records r).task = some j → ∃ b, (s.retireTasks j).pc = .done b) :
    Keeps s (s.createRetireTask r) o o := by
  have hlt : ∀ q i, o = .record q → (s.records q).task = some i → i < s.nextRetireTask := by
    rintro q i rfl hi
    obtain ⟨i', h1, h2, -⟩ := (h.records q h.current_lt).task
    obtain rfl : i = i' := Option.some.inj (hi.symm.trans h1)
    exact h2
  refine ⟨Nat.le_refl _, rfl, rfl, ?_, ?_, id, id, fun _ => rfl, ?_, ?_, fun a ha => ⟨ha, rfl⟩⟩
  · rintro q i ⟨h1, h2⟩
    refine ⟨Nat.lt_succ_of_lt h1, ?_⟩
    simpa [createRetireTask, setRetireTask, setRecord, Nat.ne_of_lt h1] using h2
  · intro i b h1 h2
    simpa [createRetireTask, setRetireTask, setRecord, Nat.ne_of_lt h1] using h2
  · rintro d - ⟨q, i, hq, hi, hh⟩
    have hne := Nat.ne_of_lt (hlt q i hq hi)
    have hqr : q ≠ r := by
      rintro rfl
      obtain ⟨b, hb⟩ := hd i hi
      exact (RetireTask.spawnHold_pos hh).2 b hb
    refine ⟨q, i, hq, ?_, ?_⟩
    · simpa [createRetireTask, setRetireTask, setRecord, hqr] using hi
    · simpa [createRetireTask, setRetireTask, setRecord, hqr, hne] using hh
  · rintro d - ⟨q, i, hq, hi, hh⟩
    have hne := Nat.ne_of_lt (hlt q i hq hi)
    have hqr : q ≠ r := by
      rintro rfl
      obtain ⟨b, hb⟩ := hd i hi
      exact (RetireTask.pairHold_pos hh).2 b hb
    refine ⟨q, i, hq, ?_, ?_⟩
    · simpa [createRetireTask, setRetireTask, setRecord, hqr] using hi
    · simpa [createRetireTask, setRetireTask, setRecord, hqr, hne] using hh

theorem createRetireTask_sound (h : s.children.Sound o) (hr : r < s.nextRecord)
    (hd : ∀ j, (s.records r).task = some j → ∃ b, (s.retireTasks j).pc = .done b) :
    (s.createRetireTask r).children.Sound o :=
  h.createTask hr hd s.now

theorem drop_keeps (hc : s.children.Complete r) (s' : State) (hs : Still s s') :
    Keeps s s' o (o.drop r) := by
  have hk := hs.keeps o
  refine ⟨hk.now, hk.nextSpawn, hk.slot, hk.awaits, hk.done, ?_, ?_, ?_, ?_, ?_, hk.attempts⟩
  · intro ho
    unfold Custody.drop
    split
    · trivial
    · exact ho
  · rintro rfl
    simp [Custody.drop]
  · intro ho
    unfold Custody.drop
    split
    · rename_i e
      exact absurd (e ▸ trivial) ho
    · rfl
  · rintro d hd ⟨q, i, hq, hi, hh⟩
    have hne : o ≠ .record r := by
      rintro rfl
      cases hq
      exact (RetireTask.spawnHold_pos hh).1 hc.1
    rw [Custody.drop, if_neg hne]
    exact hk.movedSpawn d hd ⟨q, i, hq, hi, hh⟩
  · rintro d hd ⟨q, i, hq, hi, hh⟩
    have hne : o ≠ .record r := by
      rintro rfl
      cases hq
      exact (RetireTask.pairHold_pos hh).1 hc.2.1
    rw [Custody.drop, if_neg hne]
    exact hk.movedPair d hd ⟨q, i, hq, hi, hh⟩

end Keeps

theorem keeps_of_hold {s s' : State} (o : Custody) (hs : Still { s with records := s'.records } s')
    (hR : ∀ r, (s'.records r).hold = (s.records r).hold) : Keeps s s' o o := by
  have hk := hs.keeps o
  simp only [Retirement.hold, Retirement.mk.injEq, true_and, and_true, forall_and] at hR
  obtain ⟨hc, ht, hsa, hca, hsp⟩ := hR
  refine ⟨hk.now, hk.nextSpawn, hk.slot, hk.awaits, hk.done, id, id, fun _ => rfl, ?_, ?_,
    hk.attempts⟩
  · rintro d hd ⟨r, j, ho, hj, hh⟩
    refine hk.movedSpawn d hd ⟨r, j, ho, (ht r).trans hj, ?_⟩
    simpa [RetireTask.spawnHold, hsp r] using hh
  · rintro d hd ⟨r, j, ho, hj, hh⟩
    refine hk.movedPair d hd ⟨r, j, ho, (ht r).trans hj, ?_⟩
    simpa [RetireTask.pairHold, hc r, hsa r, hca r] using hh

section Idle

variable {s s' : State} {o : Custody} {r : Rid}

theorem Soft.keeps (h : Soft s s' r) (o : Custody) : Keeps s s' o o := by
  obtain ⟨x, E, rfl, hcore, htask⟩ := h
  refine keeps_of_hold o (.same rfl) fun q => ?_
  by_cases hq : q = r
  · subst hq
    simp only [Retirement.core, Retirement.mk.injEq, true_and, and_true] at hcore
    simp [Retirement.hold, setRecord, hcore, htask]
  · simp [setRecord, hq]

/-- Bookkeeping on one record is invisible to the invariant. -/
theorem Inv.soft (h : Inv s o) (hs : Soft s s' r) : Inv s' o := by
  have hsound := hs.sound h.sound
  have hk := hs.keeps o
  obtain ⟨x, E, rfl, -⟩ := hs
  exact h.idle hk hsound rfl (.same rfl fun _ _ => rfl) (.same rfl) (fun _ _ => id) rfl

theorem Inv.closeCallback (h : Inv s o) (hr : r < s.nextRecord) :
    Inv (s.finishRetiredCloseTask r) o := by
  have hsound := finishRetiredCloseTask_sound h.sound hr (by simp)
  obtain ⟨a, b, c, heq⟩ := finishRetiredCloseTask_eq s r
  rw [heq] at hsound ⊢
  refine h.idle (keeps_of_hold o (.same rfl) fun q => ?_) hsound rfl (.same rfl fun _ _ => rfl) (.same rfl)
    (fun _ _ => id) rfl
  by_cases hq : q = r
  · subst hq
    simp [Retirement.hold, setRecord]
  · simp [setRecord, hq]

theorem Inv.retire (h : Inv s o) {j : Jid} (hj : s.RetireReady j) : Inv (s.retireChild j) o := by
  have hsame := (retireChild_confined s j).same
  refine h.idle (retireChild_keeps h.sound hj) (retireChild_sound h.sound hj.1 hj.not_done)
    (by rw [hsame]) ?_ ?_ ?_ (by rw [hsame])
  · exact { starting := by rw [hsame], settled := by rw [hsame], uncertain := by rw [hsame],
            ops := fun u _ => by rw [hsame], active := fun u _ _ => by rw [hsame]; exact id,
            lates := fun sp r j n => by rw [hsame]; exact .inl }
  · exact { attempts := by rw [hsame], nextAttempt := by rw [hsame], stopTask := by rw [hsame],
            nextRecord := Nat.le_of_eq (by rw [hsame]) }
  · intro u _ hu
    rw [hsame]
    exact hu

/-- An event of the outside world, seen by the invariant. -/
theorem Inv.evolves (h : Inv s o) (spawns : Sid → SpawnTask) (processes : Sid → Process)
    (clients : Cid → Client) (he : s.children.Evolves spawns processes clients) :
    Inv { s with spawns, processes, clients } o := by
  refine h.idle (.same rfl) (he.soundBut h.sound) rfl ?_ (.same rfl) (fun _ _ => id) rfl
  exact .same rfl fun _ _ => rfl

theorem Inv.tick (h : Inv s o) : Inv { s with now := s.now + 1 } o := by
  have hst : Still s { s with now := s.now + 1 } :=
    ⟨Nat.le_succ _, rfl, rfl, rfl, rfl, rfl, rfl, rfl⟩
  refine h.idle (hst.keeps o) h.sound rfl ?_ (.same rfl) (fun _ _ => id) rfl
  exact .same rfl fun _ _ => rfl

theorem Inv.spawnDone (h : Inv s o) {sp : Sid} (hs : s.spawns sp = .running)
    (res : SpawnResult) :
    Inv { s with spawns := Function.update s.spawns sp (.done res) } o := by
  refine h.evolves _ s.processes s.clients ⟨fun q hq => ?_, fun _ => id, fun _ => id, fun _ => rfl, fun _ => id,
    fun _ => id, fun _ => id⟩
  have hne : q ≠ sp := by
    rintro rfl
    exact hq hs
  simp [hne, children]

/-- A client changes without losing what its jobs have reached. -/
theorem Inv.client (h : Inv s o) {c : Cid} {x : Client}
    (hp : x.process = (s.clients c).process)
    (hs : (s.clients c).shutdown = .absent → x.shutdown = .absent)
    (ha : (s.clients c).close = .absent → x.close = .absent)
    (hd : (s.clients c).close = .done true → x.close = .done true) : Inv (s.setClient c x) o := by
  refine h.evolves s.spawns s.processes _ ⟨fun _ _ => rfl, fun _ => id,
    fun _ => id, fun d => ?_, fun d => ?_, fun d => ?_, fun d => ?_⟩
  all_goals
    by_cases hdc : d = c
    · subst hdc
      simpa [children] using by assumption
    · simp [children, hdc]

theorem Inv.process (h : Inv s o) {p : Sid} {x : Process}
    (hw : (s.processes p).wait = .absent → x.wait = .absent)
    (ho : s.exitObserved p = true → (s.setProcess p x).exitObserved p = true) :
    Inv (s.setProcess p x) o := by
  refine h.evolves s.spawns _ s.clients ⟨fun _ _ => rfl, fun q => ?_,
    fun q hq => ?_, fun _ => rfl, fun _ => id, fun _ => id, fun _ => id⟩
  · by_cases hqp : q = p
    · subst hqp
      simpa [children] using hw
    · simp [children, hqp]
  · by_cases hqp : q = p
    · subst hqp
      exact ho hq
    · simpa [children, observed, hqp] using hq

theorem Inv.complete (h : Inv s o) (hr : s.Retired r) : s.children.Complete r := by
  obtain ⟨j, ⟨hj, hrec⟩, hd⟩ := hr
  have hpc := (h.sound.tasks j hj (by simp)).pc
  simp only [children] at hpc
  rw [hd, hrec] at hpc
  exact hpc rfl

theorem Awaits.retired {j : Jid} (hj : s.Awaits r j) (hd : s.retireResult j = some true) :
    s.Retired r :=
  ⟨j, hj, retireResult_eq hd⟩

theorem removeRetirement_eq (s : State) (r : Rid) : ∃ l,
    (s.removeRetirementIfCompleteLocked r).1 = { s with retirements := l } := by
  dsimp only [removeRetirementIfCompleteLocked]
  split
  · exact ⟨s.retirements, rfl⟩
  · split
    · exact ⟨_, rfl⟩
    · exact ⟨s.retirements, rfl⟩

/-- A retired record may be removed. -/
theorem Inv.remove (h : Inv s o) (hr : s.Retired r) :
    ∃ o', Inv (s.removeRetirementIfCompleteLocked r).1 o' ∧
      Keeps s (s.removeRetirementIfCompleteLocked r).1 o o' := by
  have hc := h.complete hr
  dsimp only [removeRetirementIfCompleteLocked]
  split
  · exact ⟨o, h, .refl s o⟩
  · split
    · have hk := drop_keeps (o := o) hc { s with retirements := s.retirements.erase r } (.same rfl)
      refine ⟨o.drop r, ?_, hk⟩
      exact h.idle hk (h.sound.remove hc) rfl (.same rfl fun _ _ => rfl) (.same rfl) (fun _ _ => id) rfl
    · exact ⟨o, h, .refl s o⟩

theorem Inv.createRetireTask (h : Inv s o) (hr : r < s.nextRecord)
    (hd : ∀ j, (s.records r).task = some j → ∃ b, (s.retireTasks j).pc = .done b) :
    Inv (s.createRetireTask r) o :=
  h.idle (createRetireTask_keeps h.sound hr hd) (createRetireTask_sound h.sound hr hd) rfl
    (.same rfl fun _ _ => rfl) (.same rfl) (fun _ _ => id) rfl

theorem Inv.setLate (h : Inv s o) {sp : Sid} {x : Late}
    (hx : ∀ r j n, x = .awaiting r j n → s.Awaits r j) : Inv (s.setLate sp x) o := by
  refine h.idle (.same rfl) h.sound rfl ?_ (.same rfl) (fun _ _ => id) rfl
  refine ⟨rfl, rfl, rfl, fun _ _ => rfl, fun _ _ _ => id, fun q r j n hq => ?_⟩
  by_cases hqs : q = sp
  · subst hqs
    simp only [State.setLate, Function.update_self] at hq
    exact .inr (hx r j n hq)
  · simp only [State.setLate, Function.update_of_ne hqs] at hq
    exact .inl hq

theorem Inv.task (h : Inv s o) (hr : r < s.nextRecord) {j : Jid}
    (hj : (s.records r).task = some j) : s.Awaits r j := by
  obtain ⟨i, h1, h2, h3⟩ := (h.sound.records r hr).task
  obtain rfl : j = i := Option.some.inj (hj.symm.trans h1)
  exact ⟨h2, h3⟩

/-- `_complete_late_spawn_retirement` keeps the invariant. -/
theorem Inv.late_step (h : Inv s o) {sp : Sid} (hs : s.runLate sp = some s') :
    ∃ o', Inv s' o' := by
  dsimp only [runLate] at hs
  cases e : s.lates sp with
  | absent => simp [e] at hs
  | finished => simp [e] at hs
  | pending q n =>
    simp only [e] at hs
    split at hs
    · split at hs
      · cases hs
        exact ⟨o, h.setLate (by simp)⟩
      · rename_i hq
        simp only [Bool.or_eq_true, decide_eq_true_eq, not_or, not_not] at hq
        have hlt := (h.sound.place.retirements q hq.1).1
        obtain ⟨i, hi, -, -⟩ := (h.sound.records q hlt).task
        have hi' : (s.records q).task = some i := hi
        simp only [hi'] at hs
        cases hres : s.retireResult i with
        | none =>
          simp only [hres, Option.isSome_none, Bool.false_eq_true, if_false, hi'] at hs
          cases hs
          refine ⟨o, h.setLate fun r j n hx => ?_⟩
          cases hx
          exact h.task hlt hi'
        | some b =>
          simp only [hres, Option.isSome_some, if_true] at hs
          have hcr := h.createRetireTask hlt fun j hj => by
            obtain rfl : i = j := Option.some.inj (hi'.symm.trans hj)
            exact ⟨b, retireResult_eq hres⟩
          have hj : ((s.createRetireTask q).records q).task = some s.nextRetireTask := by
            simp [State.createRetireTask, setRecord, setRetireTask]
          simp only [hj] at hs
          cases hs
          refine ⟨o, hcr.setLate fun r j n hx => ?_⟩
          cases hx
          exact hcr.task hlt hj
    · cases hs
  | awaiting q j n =>
    simp only [e] at hs
    split at hs
    · rename_i b hb
      cases hs
      split
      · rename_i hbt
        subst hbt
        obtain ⟨o', h', -⟩ := h.remove ((h.late sp q j n e).retired hb)
        exact ⟨o', h'.setLate (by simp)⟩
      · exact ⟨o, h.setLate (by simp)⟩
    · cases hs

theorem Inv.spawnCallback (h : Inv s o) (sp : Sid) : Inv (s.onSpawnTaskDone sp) o := by
  unfold onSpawnTaskDone
  split
  · exact h
  · split
    · exact h.setLate (by simp)
    · exact h

end Idle

end State

end KestrelSdk.Subprocess

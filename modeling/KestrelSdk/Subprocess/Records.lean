import KestrelSdk.Subprocess.Custody

namespace KestrelSdk.Subprocess

open Asyncio

/-- The fields of a record that ownership depends on, but for its task. -/
def Retirement.core (x : Retirement) : Retirement :=
  { client := x.client, process := x.process, waitTask := x.waitTask,
    closeTask := x.closeTask, shutdownAttempted := x.shutdownAttempted,
    closeAttempted := x.closeAttempted, closeSucceeded := x.closeSucceeded,
    spawnTask := x.spawnTask }

namespace Children

variable {k : Children} {o : Custody} {run : Option Jid} {r : Rid} {x : Retirement}

theorem not_observed_of_absent {p : Sid} (h : (k.processes p).wait = .absent) :
    k.observed p = false := by
  simp [observed, h]

/-- Records keep their core while the tasks that work on them change. -/
theorem SoundBut.retask {R : Rid → Retirement} {T : Jid → RetireTask} {n : Nat}
    {run' : Option Jid} (h : k.SoundBut o run) (hR : ∀ r, (R r).core = (k.records r).core)
    (htask : ∀ r < k.nextRecord, ∃ j, (R r).task = some j ∧ j < n ∧ (T j).record = r)
    (htasks : ∀ j < n, run' ≠ some j → (T j).record < k.nextRecord ∧
      ((∀ b, (T j).pc ≠ .done b) → (R (T j).record).task = some j) ∧
      k.PcOk (T j).record (T j).pc) :
    { k with records := R, retireTasks := T, nextRetireTask := n }.SoundBut o run' := by
  simp only [Retirement.core, Retirement.mk.injEq, and_true, true_and, forall_and] at hR
  obtain ⟨hc, hp, hw, hct, hsa, hca, hcs, hs⟩ := hR
  have hcomplete : ∀ r, k.Complete r →
      { k with records := R, retireTasks := T, nextRetireTask := n }.Complete r := by
    intro r hr
    simpa [Complete, observed, hs, hc, hp] using hr
  refine ⟨⟨h.place.spawnTask, h.place.client, h.place.process, h.place.nodup, ?_,
    h.place.spawned, h.place.released, h.place.live, h.place.handoff, h.place.published, ?_⟩,
    h.earlier, h.client, h.fresh, ?_, ?_⟩
  · intro r hr
    simpa [Blank, hs, hp, hc] using h.place.retirements r hr
  · intro r hr
    simpa [Holds, Over, last, hs, hp, hc] using h.place.record r hr
  · intro r hr
    have hk := h.records r hr
    refine ⟨?_, ?_, ?_, ?_, ?_, ?_, ?_, ?_, htask r hr, fun ho => hcomplete r (hk.retired ho)⟩
    · simpa only [Untouched, Over, hs, hc, hp, hw, hsa, hca, hcs] using hk.spawn
    · simpa only [hp] using hk.process
    · simpa only [hc, hp] using hk.client
    · simpa only [hp, hw] using hk.wait
    · simpa only [hc, hsa] using hk.shutdown
    · simpa only [hc, hca] using hk.close
    · simpa only [hc, hct, hca] using hk.closeTask
    · simpa only [hc, hcs] using hk.closed
  · intro j hj hrun
    obtain ⟨h1, h2, hpc⟩ := htasks j hj hrun
    refine ⟨h1, h2, ?_⟩
    simp only
    cases e : (T j).pc with
    | done b =>
      rw [e] at hpc
      exact fun hb => hcomplete _ (hpc hb)
    | init => trivial
    | _ =>
      rw [e] at hpc
      simpa [PcOk, observed, hs, hc, hp] using hpc

/-- Only the core of a record matters. -/
theorem SoundBut.set (h : k.SoundBut o run) (hx : x.core = (k.records r).core)
    (ht : x.task = (k.records r).task) :
    { k with records := Function.update k.records r x }.SoundBut o run := by
  have htask : ∀ q, (Function.update k.records r x q).task = (k.records q).task := by
    intro q
    by_cases hq : q = r
    · subst hq
      simpa using ht
    · simp [hq]
  refine h.retask (fun q => ?_) (fun q hq => ?_) (fun j hj hrun => ?_)
  · by_cases hq : q = r
    · subst hq
      simpa using hx
    · simp [hq]
  · rw [htask]
    exact (h.records q hq).task
  · have hk := h.tasks j hj hrun
    exact ⟨hk.record, fun hnd => (htask _).trans (hk.current hnd), hk.pc⟩

/-- A record with something left to retire is the one that has custody. -/
theorem SoundBut.current (h : k.SoundBut o run) (hr : r < k.nextRecord) (hn : ¬ k.Complete r) :
    o = .record r := by
  by_contra ho
  exact hn ((h.records r hr).retired ho)

theorem SoundBut.current_lt (h : k.SoundBut (.record r) run) : r < k.nextRecord :=
  (h.place.retirements r (h.place.record r rfl).1).1

theorem SoundBut.process_eq (h : k.SoundBut (.record r) run) (hr : r < k.nextRecord) {p : Sid}
    (hp : (k.records r).process = some p) : p = k.last := by
  obtain hs | hs | ⟨-, hs, -⟩ := (h.place.record r rfl).2.1
  · have h1 := ((h.records r hr).spawn _ hs).2.2.1
    rw [hp] at h1
    cases h1
  · rw [hp] at hs
    exact Option.some.inj hs
  · rw [hp] at hs
    cases hs

theorem SoundBut.spawn_eq (h : k.SoundBut (.record r) run) (hr : r < k.nextRecord) {sp : Sid}
    (hsp : (k.records r).spawnTask = some sp) : sp = k.last := by
  have h1 := ((h.records r hr).spawn _ hsp).2.2.1
  obtain hs | hs | ⟨hs, -⟩ := (h.place.record r rfl).2.1
  · rw [hsp] at hs
    exact Option.some.inj hs
  · rw [h1] at hs
    cases hs
  · rw [hsp] at hs
    cases hs

/-- A record that still has a client is the one that has custody. -/
theorem SoundBut.of_client (h : k.SoundBut o run) (hr : r < k.nextRecord) {c : Cid}
    (hc : (k.records r).client = some c) : o = .record r ∧ (k.clients c).process = k.last := by
  obtain rfl : o = .record r := h.current hr fun hcomp => by simp [Complete, hc] at hcomp
  exact ⟨rfl, h.process_eq hr ((h.records r hr).client c hc).2⟩

/-- Replace one record together with the objects it works on. -/
def put (k : Children) (r : Rid) (x : Retirement) (processes : Sid → Process)
    (clients : Cid → Client) (nextClient : Nat) : Children :=
  { k with records := Function.update k.records r x, processes, clients, nextClient }

/-- A change of the record in custody, its process and the clients over it. -/
structure Change (k : Children) (r : Rid) (run : Option Jid) (x : Retirement)
    (processes : Sid → Process) (clients : Cid → Client) (n : Nat) : Prop where
  task : x.task = (k.records r).task
  atop : ∀ c < n, (clients c).process = k.last ∨ (c < k.nextClient ∧ clients c = k.clients c)
  fresh : ∀ p, p ≠ k.last → (processes p).wait = (k.processes p).wait
  observed : ∀ p, k.observed p = true → (k.put r x processes clients n).observed p = true
  holds : (k.put r x processes clients n).Holds r k.last
  cover : ∀ c < n, (clients c).process = k.last →
    x.client = some c ∨ (clients c).close = .done true
  record : (k.put r x processes clients n).RecordOk (.record r) r
  pc : ∀ pc, (run = none ∨ ∃ b, pc = .done b) → k.PcOk r pc →
    (k.put r x processes clients n).PcOk r pc

theorem SoundBut.change {processes : Sid → Process} {clients : Cid → Client} {n : Nat}
    (h : k.SoundBut (.record r) run) (hrun : ∀ j, run = some j → (k.records r).task = some j)
    (hx : k.Change r run x processes clients n) :
    (k.put r x processes clients n).SoundBut (.record r) run := by
  have hr := h.current_lt
  have hn : 0 < k.nextSpawn := h.place.spawned (by simp)
  -- Every other record has nothing left, so the change cannot reach it.
  have hother : ∀ q < k.nextRecord, q ≠ r → k.Complete q := by
    intro q hq hqr
    exact (h.records q hq).retired (by simpa using Ne.symm hqr)
  have hcomplete : ∀ q, q ≠ r → k.Complete q → (k.put r x processes clients n).Complete q := by
    rintro q hqr ⟨h1, h2, h3⟩
    simp only [put, Complete, Function.update_of_ne hqr]
    exact ⟨h1, h2, fun p hp => hx.observed p (h3 p hp)⟩
  refine ⟨⟨h.place.spawnTask, h.place.client, h.place.process, h.place.nodup, ?_,
    h.place.spawned, ?_, ?_, ?_, ?_, ?_⟩, ?_, ?_, ?_, ?_, ?_⟩
  · intro q hq
    obtain ⟨h1, h2⟩ := h.place.retirements q hq
    refine ⟨h1, ?_⟩
    by_cases hqr : q = r
    · exact .inl (hqr ▸ rfl)
    · simpa [Blank, put, hqr] using h2
  · intro ho
    cases ho
  · intro ho
    cases ho
  · intro t ho
    cases ho
  · intro c ho
    cases ho
  · intro q hq
    cases hq
    refine ⟨(h.place.record r rfl).1, hx.holds, ?_⟩
    rintro c ⟨hc, hp⟩
    simpa [put] using hx.cover c hc hp
  · intro sp hsp
    have hne : sp ≠ k.last := by
      have : sp + 1 < k.nextSpawn := hsp
      unfold last
      omega
    obtain ⟨hs, hrel⟩ := h.earlier sp hsp
    refine ⟨hs, fun b hb => ⟨hx.observed sp (hrel b hb).1, ?_⟩⟩
    rintro c ⟨hc, hp⟩
    obtain hl | ⟨hl, he⟩ := hx.atop c hc
    · exact absurd (hp.symm.trans hl) hne
    · simp only [put, he] at hp ⊢
      exact (hrel b hb).2 c ⟨hl, hp⟩
  · intro c hc
    obtain hl | ⟨hl, he⟩ := hx.atop c hc
    · simp only [put, hl]
      exact Nat.sub_lt hn Nat.one_pos
    · simp only [put, he]
      exact h.client c hl
  · intro p hp
    have hne : p ≠ k.last := by
      have : k.nextSpawn ≤ p := hp
      unfold last
      omega
    exact (hx.fresh p hne).trans (h.fresh p hp)
  · intro q hq
    by_cases hqr : q = r
    · subst hqr
      exact hx.record
    · have hk := h.records q hq
      obtain ⟨h1, h2, h3⟩ := hother q hq hqr
      refine ⟨?_, ?_, ?_, ?_, ?_, ?_, ?_, ?_, ?_, fun _ => hcomplete q hqr ⟨h1, h2, h3⟩⟩
      · simp [put, hqr, h1]
      · simpa [put, hqr] using hk.process
      · simp [put, hqr, h2]
      · intro p hp hw
        simp only [put, Function.update_of_ne hqr] at hp hw
        have habs := not_observed_of_absent (hk.wait p hp hw)
        exact absurd (h3 p hp) (by simp [habs])
      · simp [put, hqr, h2]
      · simp [put, hqr, h2]
      · intro c hc
        simp only [put, Function.update_of_ne hqr] at hc
        exact absurd (hk.closeTask c hc).1 (by simp [h2])
      · simp [put, hqr, h2]
      · simpa [put, hqr] using hk.task
  · intro j hj hj'
    have hk := h.tasks j hj hj'
    have hpc := hk.pc
    by_cases hjr : (k.retireTasks j).record = r
    · refine ⟨hk.record, fun hnd => ?_, ?_⟩
      · have := hk.current hnd
        simpa [put, hjr, hx.task] using this
      · simp only [put, hjr] at hpc ⊢
        refine hx.pc _ ?_ hpc
        by_cases hnd : ∃ b, (k.retireTasks j).pc = .done b
        · exact .inr hnd
        · -- The running task is the only one of its record that has not ended.
          left
          have hcur := hk.current (fun b hb => hnd ⟨b, hb⟩)
          rw [hjr] at hcur
          by_contra hrn
          obtain ⟨i, hi⟩ := Option.ne_none_iff_exists'.1 hrn
          rw [hrun i hi] at hcur
          exact hj' (hi.trans hcur)
    · refine ⟨hk.record, ?_, ?_⟩
      · simpa [put, hjr] using hk.current
      · have hq := hother _ hk.record hjr
        cases e : (k.retireTasks j).pc with
        | done b =>
          rw [e] at hpc
          simp only [put, e]
          exact fun hb => hcomplete _ hjr (hpc hb)
        | closeWait process c f =>
          rw [e] at hpc
          exact absurd hpc.2.1 (by simp [hq.2.1])
        | init =>
          simp only [put, e]
          trivial
        | _ =>
          rw [e] at hpc
          simp only [put, e]
          simpa only [PcOk, Function.update_of_ne hjr] using hpc

/-- What a retirement task knows survives a change that leaves the owned objects alone. -/
theorem PcOk.put {processes : Sid → Process} {clients : Cid → Client} {n : Nat} {pc : RetirePc}
    (h : k.PcOk r pc) (hc : x.client = (k.records r).client)
    (hp : x.process = (k.records r).process) (hs : x.spawnTask = (k.records r).spawnTask)
    (hobs : ∀ q, k.observed q = true → (k.put r x processes clients n).observed q = true) :
    (k.put r x processes clients n).PcOk r pc := by
  have hx : (k.put r x processes clients n).records r = x := by simp [Children.put]
  cases pc with
  | init => trivial
  | closeWait process c f =>
    obtain ⟨h1, h2, h3, h4⟩ := h
    simp only [PcOk, hx, hc, hp, hs]
    exact ⟨h1, h2, h3, fun hf q hq => hobs q (h4 hf q hq)⟩
  | done b =>
    intro hb
    obtain ⟨h1, h2, h3⟩ := h hb
    simp only [Complete, hx, hc, hp, hs]
    exact ⟨h1, h2, fun q hq => hobs q (h3 q hq)⟩
  | _ => simpa only [PcOk, hx, hc, hp, hs] using h

section

variable (h : k.SoundBut o run) (hr : r < k.nextRecord)
  (hrun : ∀ j, run = some j → (k.records r).task = some j)

include h hr hrun

/-- The wait task is created while the exit cannot have been observed. -/
theorem SoundBut.startWait {p : Sid} (hp : (k.records r).process = some p)
    (hw : (k.records r).waitTask = false) :
    (k.put r { k.records r with waitTask := true }
      (Function.update k.processes p { k.processes p with wait := .running })
      k.clients k.nextClient).SoundBut o run := by
  have hk := h.records r hr
  have hobs := not_observed_of_absent (hk.wait p hp hw)
  obtain rfl : o = .record r := h.current hr fun hc => by
    have := hc.2.2 p hp
    simp [hobs] at this
  obtain rfl := h.process_eq hr hp
  have hmono : ∀ q, k.observed q = true → (k.put r { k.records r with waitTask := true }
      (Function.update k.processes k.last { k.processes k.last with wait := .running })
      k.clients k.nextClient).observed q = true := by
    intro q hq
    have hne : q ≠ k.last := by
      rintro rfl
      simp [hobs] at hq
    simpa [observed, put, hne] using hq
  refine h.change hrun ⟨rfl, fun c hc => .inr ⟨hc, rfl⟩, ?_, hmono, ?_, ?_, ?_, ?_⟩
  · intro q hq
    simp [hq]
  · simpa [Holds, put] using (h.place.record r rfl).2.1
  · intro c hc hl
    exact (h.place.record r rfl).2.2 c ⟨hc, hl⟩
  · refine ⟨?_, ?_, ?_, ?_, ?_, ?_, ?_, ?_, ?_, ?_⟩
    · intro sp hsp
      have := (hk.spawn sp (by simpa [put] using hsp)).2.2.1
      simp [hp] at this
    · simpa [put] using hk.process
    · simpa [put] using hk.client
    · simp [put]
    · simpa [put] using hk.shutdown
    · simpa [put] using hk.close
    · simpa [put] using hk.closeTask
    · simpa [put] using hk.closed
    · simpa [put] using hk.task
    · simp
  · exact fun pc _ hpc => hpc.put rfl rfl rfl hmono

theorem SoundBut.startShutdown {c : Cid} (hc : (k.records r).client = some c) :
    (k.put r { k.records r with shutdownTask := some c, shutdownAttempted := true } k.processes
      (Function.update k.clients c { k.clients c with shutdown := .running })
      k.nextClient).SoundBut o run := by
  have hk := h.records r hr
  obtain ⟨rfl, hl⟩ := h.of_client hr hc
  refine h.change hrun ⟨rfl, ?_, fun _ _ => rfl, fun _ => id, ?_, ?_, ?_, ?_⟩
  · intro d hd
    by_cases hdc : d = c
    · subst hdc
      simp [hl]
    · simp [hdc, hd]
  · simpa [Holds, put] using (h.place.record r rfl).2.1
  · intro d hd hdl
    by_cases hdc : d = c
    · exact .inl (hdc ▸ hc)
    · simp only [Function.update_of_ne hdc] at hdl ⊢
      exact (h.place.record r rfl).2.2 d ⟨hd, hdl⟩
  · refine ⟨?_, ?_, ?_, ?_, ?_, ?_, ?_, ?_, ?_, ?_⟩
    · intro sp hsp
      have := (hk.spawn sp (by simpa [put] using hsp)).2.2.2.1
      simp [hc] at this
    · simpa [put] using hk.process
    · intro d hd
      obtain rfl : d = c := by simpa [put, hc] using hd.symm
      simpa [put] using hk.client d hc
    · simpa [put] using hk.wait
    · simp [put]
    · intro d hd
      obtain rfl : d = c := by simpa [put, hc] using hd.symm
      simpa [put] using hk.close d hc
    · simpa [put] using hk.closeTask
    · intro hcs d hd
      obtain rfl : d = c := by simpa [put, hc] using hd.symm
      simpa [put] using hk.closed (by simpa [put] using hcs) d hc
    · simpa [put] using hk.task
    · simp
  · exact fun pc _ hpc => hpc.put rfl rfl rfl fun _ => id

theorem SoundBut.startClose {c : Cid} (hc : (k.records r).client = some c)
    (hs : (k.records r).closeAttempted = false) :
    (k.put r { k.records r with closeTask := some c, closeAttempted := true } k.processes
      (Function.update k.clients c { k.clients c with close := .running })
      k.nextClient).SoundBut o run := by
  have hk := h.records r hr
  obtain ⟨rfl, hl⟩ := h.of_client hr hc
  have habs := hk.close c hc hs
  refine h.change hrun ⟨rfl, ?_, fun _ _ => rfl, fun _ => id, ?_, ?_, ?_, ?_⟩
  · intro d hd
    by_cases hdc : d = c
    · subst hdc
      simp [hl]
    · simp [hdc, hd]
  · simpa [Holds, put] using (h.place.record r rfl).2.1
  · intro d hd hdl
    by_cases hdc : d = c
    · exact .inl (hdc ▸ hc)
    · simp only [Function.update_of_ne hdc] at hdl ⊢
      exact (h.place.record r rfl).2.2 d ⟨hd, hdl⟩
  · refine ⟨?_, ?_, ?_, ?_, ?_, ?_, ?_, ?_, ?_, ?_⟩
    · intro sp hsp
      have := (hk.spawn sp (by simpa [put] using hsp)).2.2.2.1
      simp [hc] at this
    · simpa [put] using hk.process
    · intro d hd
      obtain rfl : d = c := by simpa [put, hc] using hd.symm
      simpa [put] using hk.client d hc
    · simpa [put] using hk.wait
    · intro d hd
      obtain rfl : d = c := by simpa [put, hc] using hd.symm
      simpa [put] using hk.shutdown d hc
    · simp [put]
    · intro d hd
      obtain rfl : d = c := by simpa [put] using hd.symm
      simpa [put] using hc
    · -- Success is only recorded for a close that has been tried.
      intro hcs
      have := hk.closed (by simpa [put] using hcs) c hc
      simp [habs] at this
    · simpa [put] using hk.task
    · simp
  · exact fun pc _ hpc => hpc.put rfl rfl rfl fun _ => id

/-- The outcome of a settled close is folded into the record. -/
theorem SoundBut.finishClose {c : Cid} {ok settled : Bool} (hc : (k.records r).closeTask = some c)
    (hok : (k.clients c).close = .done ok) :
    (k.put r { k.records r with closeSucceeded := ok, closeSettled := settled, closeTask := none }
      k.processes k.clients k.nextClient).SoundBut o run := by
  have hk := h.records r hr
  have hcl := (hk.closeTask c hc).1
  obtain ⟨rfl, -⟩ := h.of_client hr hcl
  refine h.change hrun ⟨rfl, fun d hd => .inr ⟨hd, rfl⟩, fun _ _ => rfl, fun _ => id, ?_, ?_, ?_, ?_⟩
  · simpa [Holds, put] using (h.place.record r rfl).2.1
  · exact fun d hd hdl => (h.place.record r rfl).2.2 d ⟨hd, hdl⟩
  · refine ⟨?_, ?_, ?_, ?_, ?_, ?_, ?_, ?_, ?_, ?_⟩
    · intro sp hsp
      have := (hk.spawn sp (by simpa [put] using hsp)).2.2.2.1
      simp [hcl] at this
    · simpa [put] using hk.process
    · simpa [put] using hk.client
    · simpa [put] using hk.wait
    · simpa [put] using hk.shutdown
    · simpa [put] using hk.close
    · simp [put]
    · intro hcs d hd
      obtain rfl : d = c := by simpa [put, hcl] using hd.symm
      simp only [put, Function.update_self] at hcs ⊢
      rw [hok, hcs]
    · simpa [put] using hk.task
    · simp
  · exact fun pc _ hpc => hpc.put rfl rfl rfl fun _ => id

/-- A closed client is let go. -/
theorem SoundBut.dropClient (hn : run ≠ none) (ht : (k.records r).closeTask = none)
    (hs : (k.records r).closeSucceeded = true) :
    (k.put r { k.records r with client := none } k.processes k.clients
      k.nextClient).SoundBut o run := by
  have hk := h.records r hr
  cases hcl : (k.records r).client with
  | none =>
    refine h.set ?_ rfl
    simp [Retirement.core, hcl]
  | some c =>
    obtain ⟨rfl, -⟩ := h.of_client hr hcl
    refine h.change hrun ⟨rfl, fun d hd => .inr ⟨hd, rfl⟩, fun _ _ => rfl, fun _ => id, ?_, ?_, ?_, ?_⟩
    · simpa [Holds, put] using (h.place.record r rfl).2.1
    · intro d hd hdl
      obtain hd' | hd' := (h.place.record r rfl).2.2 d ⟨hd, hdl⟩
      · exact .inr (hk.closed hs d hd')
      · exact .inr hd'
    · refine ⟨?_, ?_, ?_, ?_, ?_, ?_, ?_, ?_, ?_, ?_⟩
      · intro sp hsp
        have := (hk.spawn sp (by simpa [put] using hsp)).2.2.2.1
        simp [hcl] at this
      · simpa [put] using hk.process
      · simp [put]
      · simpa [put] using hk.wait
      · simp [put]
      · simp [put]
      · simp [put, ht]
      · simp [put]
      · simpa [put] using hk.task
      · simp
    · rintro pc (hpc | ⟨b, rfl⟩) hpc'
      · exact absurd hpc hn
      · intro hb
        have := (hpc' hb).2.1
        simp [hcl] at this

/-- The settled spawn of a record: a late process moves into its process slot. -/
theorem SoundBut.adoptNone (hn : run ≠ none) {sp : Sid} (hsp : (k.records r).spawnTask = some sp)
    (hd : k.spawns sp ≠ .running) (hb : ∀ b, k.spawns sp ≠ .done (.process b)) :
    (k.put r { k.records r with spawnTask := none } k.processes k.clients
      k.nextClient).SoundBut o run := by
  have hk := h.records r hr
  obtain rfl : o = .record r := h.current hr fun hcomp => by simp [Complete, hsp] at hcomp
  obtain rfl := h.spawn_eq hr hsp
  obtain ⟨-, hu, h1, h2, -⟩ := hk.spawn _ hsp
  refine h.change hrun ⟨rfl, fun d hd => .inr ⟨hd, rfl⟩, fun _ _ => rfl, fun _ => id, ?_, ?_, ?_, ?_⟩
  · refine .inr (.inr ⟨by simp [put], by simpa [put] using h1, hd, hb⟩)
  · exact fun d hd hdl => absurd ⟨hd, hdl⟩ (hu.2 d)
  · refine ⟨?_, ?_, ?_, ?_, ?_, ?_, ?_, ?_, ?_, ?_⟩
    · simp [put]
    · simp [put, h1]
    · simp [put, h2]
    · simp [put, h1]
    · simp [put, h2]
    · simp [put, h2]
    · simpa [put] using hk.closeTask
    · simp [put, h2]
    · simpa [put] using hk.task
    · simp
  · rintro pc (hpc | ⟨b, rfl⟩) hpc'
    · exact absurd hpc hn
    · intro hb
      have := (hpc' hb).1
      simp [hsp] at this

theorem SoundBut.adoptBare (hn : run ≠ none) {sp : Sid} {b : Bool}
    (hsp : (k.records r).spawnTask = some sp) (hb : k.spawns sp = .done (.process b)) :
    (k.put r { k.records r with spawnTask := none, process := some sp } k.processes k.clients
      k.nextClient).SoundBut o run := by
  have hk := h.records r hr
  obtain rfl : o = .record r := h.current hr fun hcomp => by simp [Complete, hsp] at hcomp
  obtain rfl := h.spawn_eq hr hsp
  obtain ⟨hlt, hu, -, h2, -⟩ := hk.spawn _ hsp
  refine h.change hrun ⟨rfl, fun d hd => .inr ⟨hd, rfl⟩, fun _ _ => rfl, fun _ => id, ?_, ?_, ?_, ?_⟩
  · exact .inr (.inl (by simp [put]))
  · exact fun d hd hdl => absurd ⟨hd, hdl⟩ (hu.2 d)
  · refine ⟨?_, ?_, ?_, ?_, ?_, ?_, ?_, ?_, ?_, ?_⟩
    · simp [put]
    · intro p hp
      obtain rfl : p = k.last := by simpa [put] using hp.symm
      exact ⟨hlt, b, hb⟩
    · simp [put, h2]
    · intro p hp _
      obtain rfl : p = k.last := by simpa [put] using hp.symm
      exact hu.1
    · simp [put, h2]
    · simp [put, h2]
    · simpa [put] using hk.closeTask
    · simp [put, h2]
    · simpa [put] using hk.task
    · simp
  · rintro pc (hpc | ⟨b, rfl⟩) hpc'
    · exact absurd hpc hn
    · intro hb
      have := (hpc' hb).1
      simp [hsp] at this

/-- A late process with its pipes gets a client of its own. -/
theorem SoundBut.adoptPiped (hn : run ≠ none) {sp : Sid} {b : Bool}
    (hsp : (k.records r).spawnTask = some sp) (hb : k.spawns sp = .done (.process b)) :
    (k.put r { k.records r with
        spawnTask := none, process := some sp, client := some k.nextClient } k.processes
      (Function.update k.clients k.nextClient { process := sp })
      (k.nextClient + 1)).SoundBut o run := by
  have hk := h.records r hr
  obtain rfl : o = .record r := h.current hr fun hcomp => by simp [Complete, hsp] at hcomp
  obtain rfl := h.spawn_eq hr hsp
  obtain ⟨hlt, hu, -, h2, -, -, -, h6⟩ := hk.spawn _ hsp
  have hct : (k.records r).closeTask = none := by
    by_contra hct
    obtain ⟨c, hc⟩ := Option.ne_none_iff_exists'.1 hct
    have := (hk.closeTask c hc).1
    simp [h2] at this
  have hover : ∀ d < k.nextClient + 1, d = k.nextClient ∨ d < k.nextClient := by omega
  refine h.change hrun ⟨rfl, ?_, fun _ _ => rfl, fun _ => id, ?_, ?_, ?_, ?_⟩
  · intro d hd
    obtain rfl | hlt' := hover d hd
    · simp
    · simp [Nat.ne_of_lt hlt', hlt']
  · exact .inr (.inl (by simp [put]))
  · intro d hd hdl
    obtain rfl | hlt' := hover d hd
    · exact .inl rfl
    · simp only [Function.update_of_ne (Nat.ne_of_lt hlt')] at hdl
      exact absurd ⟨hlt', hdl⟩ (hu.2 d)
  · refine ⟨?_, ?_, ?_, ?_, ?_, ?_, ?_, ?_, ?_, ?_⟩
    · simp [put]
    · intro p hp
      obtain rfl : p = k.last := by simpa [put] using hp.symm
      exact ⟨hlt, b, hb⟩
    · intro d hd
      obtain rfl : d = k.nextClient := by simpa [put] using hd.symm
      simp [put]
    · intro p hp _
      obtain rfl : p = k.last := by simpa [put] using hp.symm
      exact hu.1
    · intro d hd
      obtain rfl : d = k.nextClient := by simpa [put] using hd.symm
      simp [put]
    · intro d hd
      obtain rfl : d = k.nextClient := by simpa [put] using hd.symm
      simp [put]
    · simp [put, hct]
    · simp [put, h6]
    · simpa [put] using hk.task
    · simp
  · rintro pc (hpc | ⟨b, rfl⟩) hpc'
    · exact absurd hpc hn
    · intro hb
      have := (hpc' hb).1
      simp [hsp] at this

end

/-- A record whose task has ended gets a new one. -/
theorem SoundBut.createTask (h : k.Sound o) (hr : r < k.nextRecord)
    (hd : ∀ j, (k.records r).task = some j → ∃ b, (k.retireTasks j).pc = .done b) (now : Nat) :
    { k with
      records := Function.update k.records r { k.records r with task := some k.nextRetireTask }
      retireTasks := Function.update k.retireTasks k.nextRetireTask ⟨r, .init, now⟩
      nextRetireTask := k.nextRetireTask + 1 }.Sound o := by
  refine h.retask (fun q => ?_) (fun q hq => ?_) (fun j hj _ => ?_)
  · by_cases hq : q = r
    · subst hq
      simp [Retirement.core]
    · simp [hq]
  · by_cases hqr : q = r
    · subst hqr
      exact ⟨k.nextRetireTask, by simp, Nat.lt_succ_self _, by simp⟩
    · obtain ⟨j, h1, h2, h3⟩ := (h.records q hq).task
      refine ⟨j, by simpa [hqr] using h1, Nat.lt_succ_of_lt h2, ?_⟩
      simpa [Nat.ne_of_lt h2] using h3
  · obtain hj' | rfl := Nat.lt_succ_iff_lt_or_eq.1 hj
    · have hk := h.tasks j hj' (by simp)
      simp only [Function.update_of_ne (Nat.ne_of_lt hj')]
      refine ⟨hk.record, fun hnd => ?_, hk.pc⟩
      have hcur := hk.current hnd
      by_cases hjr : (k.retireTasks j).record = r
      · rw [hjr] at hcur
        obtain ⟨b, hb⟩ := hd j hcur
        exact absurd hb (hnd b)
      · simpa [hjr] using hcur
    · simp only [Function.update_self]
      exact ⟨hr, fun _ => trivial, trivial⟩

/-- The running task suspends or returns. -/
theorem SoundBut.finish {j : Jid} {t : RetireTask} (h : k.SoundBut o (some j))
    (hr : r < k.nextRecord) (hj : (k.records r).task = some j) (ht : t.record = r)
    (hpc : k.PcOk r t.pc) :
    { k with retireTasks := Function.update k.retireTasks j t }.Sound o := by
  refine h.retask (R := k.records) (fun _ => rfl) (fun q hq => ?_) (fun i hi _ => ?_)
  · obtain ⟨i, h1, h2, h3⟩ := (h.records q hq).task
    refine ⟨i, h1, h2, ?_⟩
    by_cases hij : i = j
    · subst hij
      obtain ⟨l, h4, -, h5⟩ := (h.records r hr).task
      rw [hj] at h4
      cases h4
      simp [ht, ← h3, ← h5]
    · simpa [hij] using h3
  · by_cases hij : i = j
    · subst hij
      simp only [Function.update_self, ht]
      exact ⟨hr, fun _ => hj, hpc⟩
    · have hk := h.tasks i hi (by simpa using Ne.symm hij)
      simp only [Function.update_of_ne hij]
      exact ⟨hk.record, hk.current, hk.pc⟩

end Children

end KestrelSdk.Subprocess

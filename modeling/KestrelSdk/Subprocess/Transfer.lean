import KestrelSdk.Subprocess.Records

namespace KestrelSdk.Subprocess

open Asyncio

namespace Children

variable {k : Children} {o : Custody} {run : Option Jid} {r : Rid} {x : Retirement}

/-- Append a new record, with a task that has not begun. -/
def append (k : Children) (x : Retirement) (now : Nat) : Children :=
  { k with
    process := none
    client := none
    spawnTask := none
    retirements := k.retirements ++ [k.nextRecord]
    records := Function.update k.records k.nextRecord x
    retireTasks := Function.update k.retireTasks k.nextRetireTask ⟨k.nextRecord, .init, now⟩
    nextRecord := k.nextRecord + 1
    nextRetireTask := k.nextRetireTask + 1 }

theorem SoundBut.append {o' : Custody} {now : Nat} (h : k.Sound o)
    (ht : x.task = some k.nextRetireTask) (hp : (k.append x now).Place o')
    (hx : (k.append x now).RecordOk o' k.nextRecord)
    (ho : ∀ r, r < k.nextRecord → o' ≠ .record r → o ≠ .record r) :
    (k.append x now).Sound o' := by
  have hne : ∀ q, q < k.nextRecord → q ≠ k.nextRecord := fun q hq => Nat.ne_of_lt hq
  refine ⟨hp, h.earlier, h.client, h.fresh, ?_, ?_⟩
  · intro q hq
    obtain hq' | rfl := Nat.lt_succ_iff_lt_or_eq.1 hq
    · have hk := h.records q hq'
      refine ⟨?_, ?_, ?_, ?_, ?_, ?_, ?_, ?_, ?_, ?_⟩
      · simpa [Children.append, hne q hq', Untouched, Over] using hk.spawn
      · simpa [Children.append, hne q hq'] using hk.process
      · simpa [Children.append, hne q hq'] using hk.client
      · simpa [Children.append, hne q hq'] using hk.wait
      · simpa [Children.append, hne q hq'] using hk.shutdown
      · simpa [Children.append, hne q hq'] using hk.close
      · simpa [Children.append, hne q hq'] using hk.closeTask
      · simpa [Children.append, hne q hq'] using hk.closed
      · obtain ⟨j, h1, h2, h3⟩ := hk.task
        refine ⟨j, by simpa [Children.append, hne q hq'] using h1, Nat.lt_succ_of_lt h2, ?_⟩
        simpa [Children.append, Nat.ne_of_lt h2] using h3
      · intro e
        simpa [Children.append, Complete, hne q hq', observed] using hk.retired (ho q hq' e)
    · exact hx
  · intro j hj _
    obtain hj' | rfl := Nat.lt_succ_iff_lt_or_eq.1 hj
    · have hk := h.tasks j hj' (by simp)
      have hr := hne _ hk.record
      refine ⟨?_, ?_, ?_⟩
      · simpa [Children.append, Nat.ne_of_lt hj'] using Nat.lt_succ_of_lt hk.record
      · simpa [Children.append, Nat.ne_of_lt hj', hr] using hk.current
      · have hpc := hk.pc
        simp only [Children.append, Function.update_of_ne (Nat.ne_of_lt hj')]
        cases e : (k.retireTasks j).pc with
        | done b =>
          rw [e] at hpc
          simpa [PcOk, Complete, hr, observed] using hpc
        | init => trivial
        | _ =>
          rw [e] at hpc
          simpa [PcOk, hr, observed] using hpc
    · refine ⟨?_, ?_, ?_⟩
      · simp [Children.append]
      · simp [Children.append, ht]
      · simp [Children.append, PcOk]

theorem Place.nodup_append (h : k.Place o) : (k.retirements ++ [k.nextRecord]).Nodup := by
  refine List.nodup_append.2 ⟨h.nodup, by simp, ?_⟩
  intro q hq b hb
  rw [List.mem_singleton.1 hb]
  exact Nat.ne_of_lt (h.retirements q hq).1

/-- The child leaves the hands of its start, or the published pair, for a new record. -/
theorem SoundBut.claim (h : k.Sound o) (ho : ¬ o.Handed) (now : Nat)
    (hx : x.core = { client := o.client, process := o.process k.last, spawnTask := o.spawn k.last })
    (ht : x.task = some k.nextRetireTask) :
    (k.append x now).Sound (.record k.nextRecord) := by
  simp only [Retirement.core, Retirement.mk.injEq, and_true, true_and] at hx
  obtain ⟨hc, hp, hw, hct, hsa, hca, hcs, hs⟩ := hx
  have hn : 0 < k.nextSpawn := h.place.spawned (by rintro rfl; exact ho trivial)
  have hlt : k.last < k.nextSpawn := Nat.sub_lt hn Nat.one_pos
  have hx : (k.append x now).records k.nextRecord = x := by simp [Children.append]
  refine h.append ht ⟨rfl, rfl, rfl, h.place.nodup_append, ?_, fun _ => hn, ?_, ?_, ?_, ?_, ?_⟩
    ?_ ?_
  · intro q hq
    simp only [Children.append, List.mem_append, List.mem_singleton] at hq
    obtain hq | rfl := hq
    · obtain ⟨h1, h2⟩ := h.place.retirements q hq
      refine ⟨Nat.lt_succ_of_lt h1, ?_⟩
      obtain rfl | h2 := h2
      · exact absurd trivial ho
      · exact .inr (by simpa [Blank, Children.append, Nat.ne_of_lt h1] using h2)
    · exact ⟨Nat.lt_succ_self _, .inl rfl⟩
  · intro e
    cases e
  · intro e
    cases e
  · intro t e
    cases e
  · intro c e
    cases e
  · intro q hq
    cases hq
    refine ⟨by simp [Children.append], ?_, ?_⟩
    · cases o with
      | released => exact absurd trivial ho
      | record q => exact absurd trivial ho
      | live => exact .inl (by rw [hx, hs]; rfl)
      | handoff t => exact .inr (.inl (by rw [hx, hp]; rfl))
      | published c => exact .inr (.inl (by rw [hx, hp]; rfl))
    · intro d hd
      cases o with
      | released => exact absurd trivial ho
      | record q => exact absurd trivial ho
      | live => exact absurd hd ((h.place.live rfl).2 d)
      | handoff t => exact absurd hd ((h.place.handoff t rfl).1.2 d)
      | published c =>
        obtain rfl := ((h.place.published c rfl).2.2.2.2 d).1 hd
        exact .inl (by rw [hx, hc]; rfl)
  · refine ⟨?_, ?_, ?_, ?_, ?_, ?_, ?_, ?_, ?_, fun e => absurd rfl e⟩
    · intro sp hsp
      rw [hx, hs] at hsp
      rw [hx]
      cases o with
      | live =>
        cases hsp
        refine ⟨hlt, h.place.live rfl, ?_⟩
        simp [hp, hc, hw, hsa, hca, hcs, Custody.process, Custody.client]
      | _ => cases hsp
    · intro p hpr
      rw [hx, hp] at hpr
      cases o with
      | handoff t =>
        cases hpr
        exact ⟨hlt, _, (h.place.handoff t rfl).2⟩
      | published c =>
        cases hpr
        exact ⟨hlt, _, (h.place.published c rfl).1⟩
      | _ => cases hpr
    · intro d hd
      rw [hx, hc] at hd
      rw [hx]
      cases o with
      | published c =>
        cases hd
        obtain ⟨h1, h2⟩ := ((h.place.published d rfl).2.2.2.2 d).2 rfl
        refine ⟨h1, ?_⟩
        simp [hp, Custody.process, Children.append, h2]
      | _ => cases hd
    · intro p hpr _
      rw [hx, hp] at hpr
      cases o with
      | handoff t =>
        cases hpr
        exact (h.place.handoff t rfl).1.1
      | published c =>
        cases hpr
        exact (h.place.published c rfl).2.1
      | _ => cases hpr
    · intro d hd _
      rw [hx, hc] at hd
      cases o with
      | published c =>
        cases hd
        exact (h.place.published d rfl).2.2.1
      | _ => cases hd
    · intro d hd _
      rw [hx, hc] at hd
      cases o with
      | published c =>
        cases hd
        exact (h.place.published d rfl).2.2.2.1
      | _ => cases hd
    · simp [hx, hct]
    · simp [hx, hcs]
    · exact ⟨k.nextRetireTask, by rw [hx, ht], Nat.lt_succ_self _, by simp [Children.append]⟩
  · rintro r - - rfl
    exact ho trivial

/-- Startup tasks alone make a record that owns no child. -/
theorem SoundBut.claimBlank (h : k.Sound o) (now : Nat) (hc : o.client = none)
    (hs : o.spawn k.last = none) (hx : x.core = {}) (ht : x.task = some k.nextRetireTask) :
    (k.append x now).Sound o := by
  have hx' := hx
  simp only [Retirement.core, Retirement.mk.injEq, and_true, true_and] at hx'
  obtain ⟨h1, h2, h3, h4, h5, h6, h7, h8⟩ := hx'
  have hx : (k.append x now).records k.nextRecord = x := by simp [Children.append]
  refine h.append ht ⟨?_, ?_, ?_, h.place.nodup_append, ?_, h.place.spawned, h.place.released,
    h.place.live, h.place.handoff, h.place.published, ?_⟩ ?_ fun _ _ => id
  · exact hs.symm
  · exact hc.symm
  · simp [Children.append, hc]
  · intro q hq
    simp only [Children.append, List.mem_append, List.mem_singleton] at hq
    obtain hq | rfl := hq
    · obtain ⟨hlt, hq'⟩ := h.place.retirements q hq
      refine ⟨Nat.lt_succ_of_lt hlt, ?_⟩
      simpa [Blank, Children.append, Nat.ne_of_lt hlt] using hq'
    · exact ⟨Nat.lt_succ_self _, .inr (by simp [Blank, hx, h1, h2, h8])⟩
  · intro r hr
    obtain ⟨hmem, hh, hcover⟩ := h.place.record r hr
    have hne := Nat.ne_of_lt (h.place.retirements r hmem).1
    refine ⟨by simp [Children.append, hmem], ?_, ?_⟩
    · simpa [Holds, Children.append, last, hne] using hh
    · simpa [Children.append, hne, Over, last] using hcover
  · refine ⟨?_, ?_, ?_, ?_, ?_, ?_, ?_, ?_, ?_, ?_⟩
    · simp [hx, h8]
    · simp [hx, h2]
    · simp [hx, h1]
    · simp [hx, h2]
    · simp [hx, h1]
    · simp [hx, h1]
    · simp [hx, h4]
    · simp [hx, h7]
    · exact ⟨k.nextRetireTask, by rw [hx, ht], Nat.lt_succ_self _, by simp [Children.append]⟩
    · intro _
      simp [Complete, hx, h1, h2, h8]

/-- A complete record may go, and with it the custody it had. -/
theorem SoundBut.remove (h : k.Sound o) (hc : k.Complete r) :
    { k with retirements := k.retirements.erase r }.Sound (o.drop r) := by
  have hrecords : ∀ q < k.nextRecord,
      { k with retirements := k.retirements.erase r }.RecordOk (o.drop r) q := by
    intro q hq
    have hk := h.records q hq
    refine ⟨hk.spawn, hk.process, hk.client, hk.wait, hk.shutdown, hk.close, hk.closeTask,
      hk.closed, hk.task, fun e => ?_⟩
    by_cases hqr : q = r
    · exact hqr ▸ hc
    · refine hk.retired ?_
      rintro rfl
      refine e ?_
      simp [Custody.drop, hqr]
  have htasks : ∀ j < k.nextRetireTask, (none : Option Jid) ≠ some j →
      { k with retirements := k.retirements.erase r }.TaskOk j := by
    intro j hj hrun
    have hk := h.tasks j hj hrun
    refine ⟨hk.record, hk.current, ?_⟩
    have hpc := hk.pc
    simp only
    cases e : (k.retireTasks j).pc <;> rw [e] at hpc <;> exact hpc
  refine ⟨?_, h.earlier, h.client, h.fresh, hrecords, htasks⟩
  by_cases ho : o = .record r
  · subst ho
    obtain ⟨hr, hh, hcover⟩ := h.place.record r rfl
    simp only [Custody.drop, if_true]
    refine ⟨h.place.spawnTask, h.place.client, h.place.process, h.place.nodup.erase r, ?_, ?_,
      ?_, ?_, ?_, ?_, ?_⟩
    · intro q hq
      obtain ⟨hne, hq⟩ := h.place.nodup.mem_erase_iff.1 hq
      obtain ⟨h1, h2 | h2⟩ := h.place.retirements q hq
      · cases h2
        exact absurd rfl hne
      · exact ⟨h1, .inr h2⟩
    · exact fun e => absurd rfl e
    · intro _ _
      obtain h1 | h1 | ⟨-, -, h1, h2⟩ := hh
      · exact absurd hc.1 (by simp [h1])
      · obtain ⟨-, b, hb⟩ := (h.records r h.current_lt).process _ h1
        refine ⟨?_, fun _ _ => ⟨hc.2.2 _ h1, fun c hov => ?_⟩⟩
        · simp only [last] at hb ⊢
          simp [hb]
        · obtain h2 | h2 := hcover c hov
          · exact absurd hc.2.1 (by simp [h2])
          · exact h2
      · exact ⟨h1, fun b hb => absurd hb (h2 b)⟩
    · intro e
      cases e
    · intro t e
      cases e
    · intro c e
      cases e
    · intro q e
      cases e
  · simp only [Custody.drop, ho, if_false]
    refine ⟨h.place.spawnTask, h.place.client, h.place.process, h.place.nodup.erase r, ?_,
      h.place.spawned, h.place.released, h.place.live, h.place.handoff, h.place.published, ?_⟩
    · intro q hq
      exact h.place.retirements q (List.mem_of_mem_erase hq)
    · intro q hq
      obtain ⟨h1, h2⟩ := h.place.record q hq
      refine ⟨h.place.nodup.mem_erase_iff.2 ⟨?_, h1⟩, h2⟩
      rintro rfl
      exact ho hq

/-- A start is admitted: nothing of the earlier children is left. -/
theorem SoundBut.admit (h : k.Sound .released) :
    { k with
      spawnTask := some k.nextSpawn
      spawns := Function.update k.spawns k.nextSpawn .running
      nextSpawn := k.nextSpawn + 1 }.Sound .live := by
  have hold : ∀ q < k.nextRecord, k.Complete q := fun q hq => (h.records q hq).retired (by simp)
  have hfresh : ∀ c, c < k.nextClient → (k.clients c).process ≠ k.nextSpawn :=
    fun c hc => Nat.ne_of_lt (h.client c hc)
  refine ⟨⟨rfl, h.place.client, h.place.process, h.place.nodup, ?_, ?_, ?_, ?_, ?_, ?_, ?_⟩,
    ?_, ?_, ?_, ?_, ?_⟩
  · intro q hq
    obtain ⟨h1, h2 | h2⟩ := h.place.retirements q hq
    · cases h2
    · exact ⟨h1, .inr h2⟩
  · intro _
    exact Nat.succ_pos _
  · intro e
    cases e
  · intro _
    refine ⟨h.fresh _ (Nat.le_refl _), ?_⟩
    rintro c ⟨hc, hp⟩
    exact hfresh c hc hp
  · intro t e
    cases e
  · intro c e
    cases e
  · intro q e
    cases e
  · intro sp hsp
    have hlt : sp < k.nextSpawn := Nat.lt_of_succ_lt_succ hsp
    have hrel : k.Released sp := by
      by_cases hl : sp + 1 < k.nextSpawn
      · exact h.earlier sp hl
      · have hn : 0 < k.nextSpawn := Nat.lt_of_le_of_lt (Nat.zero_le sp) hlt
        have : sp = k.last := by
          unfold last
          omega
        exact this ▸ h.place.released rfl hn
    simpa [Released, Reaped, Nat.ne_of_lt hlt, Over, observed] using hrel
  · exact fun c hc => Nat.lt_succ_of_lt (h.client c hc)
  · exact fun p hp => h.fresh p (Nat.le_of_succ_le hp)
  · intro q hq
    have hk := h.records q hq
    refine ⟨?_, ?_, hk.client, hk.wait, hk.shutdown, hk.close, hk.closeTask, hk.closed, hk.task,
      fun _ => hold q hq⟩
    · intro sp hsp
      cases (hold q hq).1.symm.trans hsp
    · intro p hp
      obtain ⟨h1, b, h2⟩ := hk.process p hp
      refine ⟨Nat.lt_succ_of_lt h1, b, ?_⟩
      simpa [Nat.ne_of_lt h1] using h2
  · intro j hj hrun
    have hk := h.tasks j hj hrun
    refine ⟨hk.record, hk.current, ?_⟩
    have hpc := hk.pc
    simp only
    cases e : (k.retireTasks j).pc <;> rw [e] at hpc <;> exact hpc

/-- While no record has custody, the slots of the start may change freely. -/
theorem SoundBut.refill {o' : Custody} {process : Option Sid} {client : Option Cid}
    {spawnTask : Option Sid} {clients : Cid → Client} {n : Nat} (h : k.Sound o)
    (ho : ∀ r, o ≠ .record r)
    (hp : { k with process, client, spawnTask, clients, nextClient := n }.Place o')
    (hclients : ∀ c < n, (clients c).process = k.last ∨
      (c < k.nextClient ∧ clients c = k.clients c)) (hn : 0 < k.nextSpawn) :
    { k with process, client, spawnTask, clients, nextClient := n }.Sound o' := by
  have hold : ∀ q < k.nextRecord, k.Complete q := fun q hq => (h.records q hq).retired (ho q)
  refine ⟨hp, ?_, ?_, h.fresh, ?_, ?_⟩
  · intro sp hsp
    have hne : sp ≠ k.last := by
      have : sp + 1 < k.nextSpawn := hsp
      unfold last
      omega
    obtain ⟨hs, hrel⟩ := h.earlier sp hsp
    refine ⟨hs, fun b hb => ⟨(hrel b hb).1, ?_⟩⟩
    rintro c ⟨hc, hcp⟩
    obtain hl | ⟨hl, he⟩ := hclients c hc
    · exact absurd (hcp.symm.trans hl) hne
    · simp only [he] at hcp ⊢
      exact (hrel b hb).2 c ⟨hl, hcp⟩
  · intro c hc
    obtain hl | ⟨hl, he⟩ := hclients c hc
    · simp only [hl]
      exact Nat.sub_lt hn Nat.one_pos
    · simp only [he]
      exact h.client c hl
  · intro q hq
    have hk := h.records q hq
    obtain ⟨h1, h2, h3⟩ := hold q hq
    refine ⟨?_, hk.process, ?_, hk.wait, ?_, ?_, hk.closeTask, ?_, hk.task,
      fun _ => ⟨h1, h2, h3⟩⟩
    · simp [h1]
    · simp [h2]
    · simp [h2]
    · simp [h2]
    · simp [h2]
  · intro j hj hrun
    have hk := h.tasks j hj hrun
    refine ⟨hk.record, hk.current, ?_⟩
    have hpc := hk.pc
    simp only
    cases e : (k.retireTasks j).pc <;> rw [e] at hpc <;> exact hpc

/-- The start takes the process out of its spawn task but has no pipes to publish. -/
theorem SoundBut.consumeBare (h : k.Sound .live) (t : Tid)
    (hs : k.spawns k.last = .done (.process false)) :
    { k with spawnTask := none }.Sound (.handoff t) := by
  refine h.refill (by simp) ?_ (fun c hc => .inr ⟨hc, rfl⟩) (h.place.spawned (by simp))
  refine ⟨rfl, h.place.client, h.place.process, h.place.nodup, ?_, fun _ => ?_, ?_, ?_, ?_, ?_, ?_⟩
  · intro q hq
    obtain ⟨h1, h2 | h2⟩ := h.place.retirements q hq
    · cases h2
    · exact ⟨h1, .inr h2⟩
  · exact h.place.spawned (by simp)
  · intro e
    cases e
  · intro e
    cases e
  · intro _ _
    exact ⟨h.place.live rfl, hs⟩
  · intro c e
    cases e
  · intro q e
    cases e

/-- The start publishes the process with a new client over its pipes. -/
theorem SoundBut.publish (h : k.Sound .live) (hs : k.spawns k.last = .done (.process true)) :
    { k with
      spawnTask := none
      process := some k.last
      client := some k.nextClient
      clients := Function.update k.clients k.nextClient { process := k.last }
      nextClient := k.nextClient + 1 }.Sound (.published k.nextClient) := by
  obtain ⟨hw, hover⟩ := h.place.live rfl
  have hlt : ∀ c < k.nextClient + 1, c = k.nextClient ∨ c < k.nextClient := by omega
  refine h.refill (by simp) ?_ ?_ (h.place.spawned (by simp))
  · refine ⟨rfl, rfl, rfl, h.place.nodup, ?_, fun _ => ?_, ?_, ?_, ?_, ?_, ?_⟩
    · intro q hq
      obtain ⟨h1, h2 | h2⟩ := h.place.retirements q hq
      · cases h2
      · exact ⟨h1, .inr h2⟩
    · exact h.place.spawned (by simp)
    · intro e
      cases e
    · intro e
      cases e
    · intro t e
      cases e
    · intro c e
      cases e
      refine ⟨hs, hw, by simp, by simp, fun d => ⟨?_, ?_⟩⟩
      · rintro ⟨hd, hp⟩
        obtain rfl | hd' := hlt d hd
        · rfl
        · simp only [Function.update_of_ne (Nat.ne_of_lt hd')] at hp
          exact absurd ⟨hd', hp⟩ (hover d)
      · rintro rfl
        exact ⟨Nat.lt_succ_self _, by simp [last]⟩
    · intro q e
      cases e
  · intro c hc
    obtain rfl | hc' := hlt c hc
    · exact .inl (by simp)
    · exact .inr ⟨hc', by simp [Nat.ne_of_lt hc']⟩

end Children

end KestrelSdk.Subprocess

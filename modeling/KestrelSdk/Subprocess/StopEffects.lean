import KestrelSdk.Subprocess.CallEffects
import KestrelSdk.Subprocess.Outcome

namespace KestrelSdk.Subprocess

open Asyncio

namespace State

open Children

variable {s s' : State} {o : Custody} {t : Tid} {a : Aid}

theorem setPc_ledger (h : s.gear.Ledger) {x : Op} (hnf : (s.ops t).pc ≠ .finished)
    (hx : x.pc ≠ .finished) : (s.setOp t x).gear.Ledger := by
  rw [gear_setOp hnf hx]
  exact h

/-- The claim of a start: it makes a record of its own, or joins the one a stop attempt made. -/
theorem retireStartupChild_ledger (h : s.gear.Ledger) (hi : Inv s o) {c : Claim} {e : Nat}
    (hpc : c.pc = .pending e) (hnow : s.now = e + 1) (hc : s.ClaimOk o t c) :
    (s.retireStartupChild c).1.gear.Ledger ∧ (s.retireStartupChild c).1.ops = s.ops := by
  by_cases ho : o.Handed
  · obtain ⟨r, j, b, rfl, -, heq⟩ := hi.claim_joins ho hpc hnow hc
    rw [heq]
    have hst : s.spawnTask = none := hi.sound.place.spawnTask
    have h' : (State.gear { s with spawnCancelRequested := b }).Ledger :=
      h.grow { Gear.Grows.refl s.gear with spawnCancel := fun e => absurd hst e }
    exact ⟨adoptStartup_ledger h' hi.sound.current_lt true, (adoptStartup_ops _ r true).1⟩
  · obtain ⟨h1, h2, h3⟩ := hc.fresh ho hpc
    obtain ⟨g, heq⟩ := retireStartupChild_fresh hi.sound ho h1 h2 h3
    rw [heq]
    refine ⟨newRetirement_ledger h g false fun sp hsp => ⟨?_, rfl⟩,
      (newRetirement_grown s g false _ _ true _ _).ops⟩
    have hst : s.spawnTask = o.spawn s.last := hi.sound.place.spawnTask
    exact hst.trans hsp

theorem remove_gear (s : State) (r : Rid) :
    (s.removeRetirementIfCompleteLocked r).1.gear = s.gear ∧
      (s.removeRetirementIfCompleteLocked r).1.ops = s.ops := by
  obtain ⟨l, hl⟩ := removeRetirement_eq s r
  rw [hl]
  exact ⟨rfl, rfl⟩

theorem stepClaim_ledger (h : s.gear.Ledger) (hi : Inv s o) {c : Claim} {wrap : Claim → OpPc}
    (hnf : (s.ops t).pc ≠ .finished) (hw : ∀ c, wrap c ≠ .finished) (hc : s.ClaimOk o t c)
    (hs : s.stepClaim t c wrap = some s') : s'.gear.Ledger := by
  unfold State.stepClaim at hs
  cases hcp : c.pc with
  | pending e =>
    simp only [hcp] at hs
    split at hs
    · rename_i hnow
      obtain ⟨h1, h2⟩ := retireStartupChild_ledger h hi hcp hnow hc
      generalize s.retireStartupChild c = w at hs h1 h2
      cases hs
      exact setPc_ledger h1 (by rw [h2]; exact hnf) (hw _)
    · cases hs
  | awaiting r j n =>
    simp only [hcp] at hs
    split at hs
    · rename_i b hb
      have hd : (s.retireStartupChildDone r b).1.gear = s.gear ∧
          (s.retireStartupChildDone r b).1.ops = s.ops := by
        unfold retireStartupChildDone
        split
        · exact remove_gear s r
        · exact ⟨rfl, rfl⟩
      generalize s.retireStartupChildDone r b = w at hs hd
      cases hs
      exact setPc_ledger (by rw [hd.1]; exact h) (by rw [hd.2]; exact hnf) (hw _)
    · cases hs
  | finished b => simp [hcp] at hs

theorem claim_ledger (h : s.gear.Ledger) (hi : Inv s o) (hs : s.runClaim t = some s') :
    s'.gear.Ledger := by
  unfold runClaim at hs
  split at hs
  · rename_i f c hpc
    exact stepClaim_ledger h hi (by simp [hpc]) (by simp) (Waiting.retiring hi hpc).2 hs
  · rename_i f c hpc
    exact stepClaim_ledger h hi (by simp [hpc]) (by simp) (Waiting.lateRetiring hi hpc).2 hs
  · rename_i e c hpc
    have hok := hi.ops t
    simp only [OpOk, hpc] at hok
  · cases hs

theorem attemptObserve_ledger (h : s.gear.Ledger) (b : Bool) :
    (s.attemptObserve a b).gear.Ledger := by
  dsimp only [attemptObserve]
  split <;> exact prune_ledger h

theorem removeAll_gear (l : List Rid) (s : State) :
    (l.foldl (fun s r => (s.removeRetirementIfCompleteLocked r).1) s).gear = s.gear := by
  induction l generalizing s with
  | nil => rfl
  | cons r l ih => exact (ih _).trans (remove_gear s r).1

theorem clear_gear (s : State) : s.clearSettledStartUncertaintyLocked.gear = s.gear := by
  unfold clearSettledStartUncertaintyLocked
  split
  · split <;> rfl
  · rfl

theorem attemptConclude_ledger (h : s.gear.Ledger) (l : List Rid) :
    (s.attemptConclude a l).gear.Ledger := by
  refine attemptObserve_ledger ?_ _
  rw [clear_gear, removeAll_gear]
  exact h

theorem attemptJoin_ledger (h : s.gear.Ledger) (todo : List Rid) :
    ∀ retired : List Rid, (s.attemptJoin a todo retired).gear.Ledger := by
  induction todo with
  | nil => exact fun l => attemptConclude_ledger h l
  | cons r todo ih =>
    intro retired
    unfold attemptJoin
    split
    · exact h
    · split
      · exact ih _
      · exact h

theorem retry_ledger (h : s.gear.Ledger) (r : Rid) : (s.retryRetirement r).gear.Ledger := by
  dsimp only [retryRetirement]
  split
  · exact createRetireTask_ledger h r
  · split
    · split
      · exact createRetireTask_ledger h r
      · exact h
    · exact h

theorem retryAll_ledger (l : List Rid) {s : State} (h : s.gear.Ledger) :
    (l.foldl retryRetirement s).gear.Ledger := by
  induction l generalizing s with
  | nil => exact h
  | cons r l ih => exact ih (retry_ledger h r)

theorem attemptReap_ledger (h : s.gear.Ledger) : (s.attemptReap a).gear.Ledger := by
  dsimp only [attemptReap]
  have h0 : s.clearSettledStartUncertaintyLocked.gear.Ledger := by
    rw [clear_gear]
    exact h
  generalize s.clearSettledStartUncertaintyLocked = w at h0
  have h1 := retryAll_ledger w.retirements h0
  generalize w.retirements.foldl retryRetirement w = u at h1
  split
  · exact attemptObserve_ledger h1 _
  · exact attemptJoin_ledger h1 _ _

theorem attemptSettledTwice_ledger (h : s.gear.Ledger) (b : Bool) :
    (s.attemptSettledTwice a b).gear.Ledger := by
  unfold attemptSettledTwice
  split
  · refine attemptReap_ledger ?_
    rw [clear_gear]
    exact h
  · exact h

theorem attemptSettled_ledger (h : s.gear.Ledger) (g : Nat) (b : Bool) :
    (s.attemptSettled a g b).gear.Ledger := by
  dsimp only [attemptSettled]
  split
  · exact attemptReap_ledger h
  · have hw : (if s.startIsSettledLocked g then s.clearSettledStartUncertaintyLocked
        else { s with startUncertainGeneration := some g }).gear.Ledger := by
      split
      · rw [clear_gear]
        exact h
      · exact h
    generalize (if s.startIsSettledLocked g then s.clearSettledStartUncertaintyLocked
        else { s with startUncertainGeneration := some g }) = w at hw ⊢
    split
    · exact attemptSettledTwice_ledger hw _
    · exact hw

theorem detachOwned_ledger (h : s.gear.Ledger) (hs : s.children.Sound o)
    (hl : o = .live → s.startingGeneration ≠ none) : s.detachOwned.gear.Ledger ∧
      s.detachOwned.retiringOperations = s.retiringOperations ∧
      s.detachOwned.ops = s.ops ∧ s.detachOwned.effects = s.effects := by
  have hnew : ∀ g q client process b spawn cancel,
      State.retiringOperations ((s.cleared g q).newRetirement client process b spawn cancel) =
        s.retiringOperations ∧
      ((s.cleared g q).newRetirement client process b spawn cancel).ops = s.ops ∧
      ((s.cleared g q).newRetirement client process b spawn cancel).effects = s.effects := by
    intro g q client process b spawn cancel
    rw [newRetirement_eq]
    exact ⟨rfl, rfl, rfl⟩
  by_cases hlive : o = .live
  · subst hlive
    rw [detachOwned_live hs (Option.isSome_iff_ne_none.2 (hl rfl))]
    refine ⟨newRetirement_ledger h _ _ fun sp hsp => ⟨?_, rfl⟩, hnew _ _ _ _ _ _ _⟩
    have hst : s.spawnTask = some s.last := hs.place.spawnTask
    exact hst.trans hsp
  · cases hcl : o.client with
    | some c =>
      obtain rfl : o = .published c := by
        cases o <;> simp [Custody.client] at hcl
        rw [hcl]
      rw [detachOwned_published hs]
      exact ⟨newRetirement_ledger h _ _ (by simp), hnew _ _ _ _ _ _ _⟩
    | none =>
      obtain heq | heq := detachOwned_blank hs hcl hlive
      · rw [heq]
        exact ⟨h, rfl, rfl, rfl⟩
      · rw [heq]
        exact ⟨newRetirement_ledger h _ _ (by simp), hnew _ _ _ _ _ _ _⟩

/-- An operation that is not done and not yet retired has not been cancelled. -/
theorem not_cancelled (h : s.gear.Ledger) (ht : t ∈ s.activeOperations)
    (hd : s.opDone t = false) : .operationCancelled t ∉ s.effects := by
  intro hm
  have hsp := (h.once (.operationCancelled t) trivial).2 hm
  have hfin : s.opDone t = true := by
    obtain hf | hr := hsp
    · exact hf
    · exact h.roster t ht hr
  rw [hd] at hfin
  cases hfin

theorem transfer_ledger (h : s.gear.Ledger) (l : List Tid) :
    (s.transferOperations l).gear.Ledger := by
  refine ⟨h.once.mono fun e he => ?_, h.fresh, h.terminated, h.waiting, h.kills, h.live, h.held,
    h.nodup.sublist List.filter_sublist, fun u hu hr => ?_, h.apart⟩
  · cases e with
    | operationCancelled u => exact he.imp id fun hr => List.mem_append_left _ hr
    | _ => exact he
  · obtain ⟨h1, h2⟩ := List.mem_filter.1 hu
    obtain hr | hr := List.mem_append.1 hr
    · exact h.roster u h1 hr
    · exact absurd (List.mem_filter.1 hr).1 (of_decide_eq_true h2)

theorem cancelOp_gear (s : State) (t : Tid) : (s.cancelOp t).gear = s.gear := by
  obtain ⟨L, -, heq⟩ := cancelOp_eq s t
  have hd : (s.cancelOp t).opDone = s.opDone := by
    funext u
    rw [heq]
    by_cases hu : u = t
    · subst hu
      simp [opDone]
    · simp [opDone, hu]
  rw [heq] at hd ⊢
  simp only [gear, hd]

/-- The operations a stop attempt took over are cancelled, each of them once. -/
theorem cancelAll_ledger (l : List Tid) {s : State} (h : s.gear.Ledger) (hl : l.Nodup)
    (hr : ∀ t ∈ l, t ∈ s.retiringOperations) (hn : ∀ t ∈ l, .operationCancelled t ∉ s.effects) :
    (s.cancelAll l).gear.Ledger := by
  induction l generalizing s with
  | nil => exact h
  | cons t l ih =>
    have hg : ((s.cancelOp t).log (.operationCancelled t)).gear =
        { s.gear with effects := .operationCancelled t :: s.effects } := by
      rw [← cancelOp_gear s t]
      obtain ⟨L, -, heq⟩ := cancelOp_eq s t
      rw [heq]
      rfl
    have hret : ((s.cancelOp t).log (.operationCancelled t)).retiringOperations =
        s.retiringOperations := congrArg Gear.retiring hg
    have heff : ((s.cancelOp t).log (.operationCancelled t)).effects =
        .operationCancelled t :: s.effects := congrArg Gear.effects hg
    obtain ⟨ht, hl⟩ := List.nodup_cons.1 hl
    refine ih ?_ hl (fun u hu => ?_) (fun u hu => ?_)
    · rw [hg]
      refine ⟨h.once.add (fun _ => hn t (by simp)) (.inr (hr t (by simp))) fun e he => ?_,
        h.fresh, fun r hr' ht' => ?_, h.waiting, ⟨h.kills, by simp⟩, h.live, h.held, h.nodup,
        h.roster, h.apart⟩
      · cases e <;> exact he
      · obtain ⟨p, h1, h2⟩ := h.terminated r hr' ht'
        exact ⟨p, h1, List.mem_cons_of_mem _ h2⟩
    · rw [hret]
      exact hr u (by simp [hu])
    · rw [heff]
      intro hm
      obtain hm | hm := List.mem_cons.1 hm
      · cases hm
        exact ht hu
      · exact hn u (by simp [hu]) hm

theorem attemptDetach_ledger (h : s.gear.Ledger) (hi : Inv s o) (caller : Tid) :
    (s.attemptDetach caller).gear.Ledger := by
  have h0 : Inv { s with stopping := true } o :=
    hi.idle (.same rfl) hi.sound rfl (.same rfl fun _ _ => rfl) (.same rfl) (fun _ _ => id) rfl
  dsimp only [attemptDetach]
  rw [h0.clear]
  obtain ⟨config, pending, log, heq⟩ :=
    takePendingTransition_eq { s with stopping := true, generation := s.generation + 1 }
  rw [heq]
  have hw : (State.gear { s with stopping := true, generation := s.generation + 1, config := config
                                 pendingTransition := pending, transitions := log }).Ledger := h
  have hi' : Inv { s with stopping := true, generation := s.generation + 1, config := config
                          pendingTransition := pending, transitions := log } o :=
    hi.idle (.same rfl) hi.sound rfl (.same rfl fun _ _ => rfl) (.same rfl) (fun _ _ => id) rfl
  generalize { s with stopping := true, generation := s.generation + 1, config := config
                      pendingTransition := pending, transitions := log } = w at hw hi'
  obtain ⟨h1, h2, -, h4⟩ := detachOwned_ledger (o := o)
    (transfer_ledger hw (w.activeOperations.filter fun t => t ≠ caller && !w.opDone t)) hi'.sound
    hi'.live
  refine cancelAll_ledger _ h1 (hw.nodup.sublist List.filter_sublist) (fun u hu => ?_)
    (fun u hu => ?_)
  · rw [h2]
    by_cases hr : u ∈ w.retiringOperations
    · exact List.mem_append_left _ hr
    · exact List.mem_append_right _ (List.mem_filter.2 ⟨hu, by simp [hr]⟩)
  · rw [h4]
    obtain ⟨h5, h6⟩ := List.mem_filter.1 hu
    simp only [Bool.and_eq_true, Bool.not_eq_true'] at h6
    exact not_cancelled (s := w) hw h5 h6.2

theorem attempt_ledger (h : s.gear.Ledger) (hi : Inv s o) {timedOut : Bool}
    (hs : s.runAttempt a timedOut = some s') : s'.gear.Ledger := by
  have hrun : (s.runStopAttempt a timedOut).gear.Ledger := by
    unfold runStopAttempt
    split
    · rename_i caller hpc
      have hd := attemptDetach_ledger h hi caller
      dsimp only [attemptBegin]
      generalize s.attemptDetach caller = w at hd ⊢
      split
      · exact attemptReap_ledger hd
      · split
        · exact attemptSettled_ledger hd _ _
        · exact hd
    · exact attemptSettled_ledger h _ _
    · exact attemptSettledTwice_ledger h _
    · split
      · exact attemptJoin_ledger h _ _
      · exact h
    · exact prune_ledger h
    · exact h
  dsimp only [runAttempt] at hs
  split at hs
  · cases hpc : (s.attempts a).pc with
    | done b => simp [hpc] at hs
    | _ =>
      simp only [hpc] at hs
      split at hs
      · cases hs
        exact hrun
      · cases hs
  · cases hs

theorem late_ledger (h : s.gear.Ledger) {sp : Sid} (hs : s.runLate sp = some s') :
    s'.gear.Ledger := by
  obtain ⟨w, x, rfl, rfl | ⟨r, rfl⟩ | ⟨r, rfl⟩⟩ := runLate_cases hs
  · exact h
  · exact createRetireTask_ledger h r
  · have hg : ((s.removeRetirementIfCompleteLocked r).1.setLate sp x).gear =
        (s.removeRetirementIfCompleteLocked r).1.gear := rfl
    rw [hg, (remove_gear s r).1]
    exact h

end State

end KestrelSdk.Subprocess

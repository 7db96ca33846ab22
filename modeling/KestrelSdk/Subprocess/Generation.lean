import KestrelSdk.Subprocess.AtMostOnce

namespace KestrelSdk.Subprocess

open Asyncio

namespace State

open Children

/-- Nothing of the earlier generations is left, and nobody is stopping. -/
structure Settled (w : State) : Prop where
  client : w.client = none
  process : w.process = none
  retirements : w.retirements = []
  starting : w.starting = false
  uncertain : w.startUncertainGeneration = none
  stopping : w.stopping = false
  attempts : ∀ a < w.nextAttempt, ∃ b, (w.attempts a).pc = .done b
  operations : ∀ t, .operationCancelled t ∈ w.effects → w.opDone t = true
  reaped : ∀ p < w.nextSpawn, w.Reaped p

/-- The state in which `_start` passes its admission guard and creates the spawn task. -/
theorem issue_of_reachable {s : State} (h : Reachable s) {sp : Sid} (hs : s.issued = some sp) :
    ∃ (w : State) (t : Tid), s = w.startIssue t ∧ w.startRefused = false ∧ w.client = none ∧ w.process = none := by
  obtain ⟨s₀, o₀, -, -, hnone, turn⟩ := turn_of_reachable h (.inr (by simp [hs]))
  cases turn with
  | quiet hq _ => simp [hq, hnone] at hs
  | start u out =>
    cases out with
    | wait pc hb => simp [show s.issued = s₀.issued from congrArg Book.issued hb, hnone] at hs
    | leave e x hk hb => simp [show s.issued = s₀.issued from congrArg Book.issued hb, hnone] at hs
    | issue w hb hr hc hp => exact ⟨w, u, rfl, hr, hc, hp⟩
    | ret sp hb hp => simp [show s.issued = s₀.issued from congrArg Book.issued hb, hnone] at hs
  | atop u e x c hpc heq =>
    have hi : s.issued = s₀.issued := by
      subst heq
      dsimp only [finishCall]
      split <;> rfl
    simp [hi, hnone] at hs
  | refused e hi he hstart hstop => simp [hi, hnone] at hs
  | stopped u mark c b a hd ha hm heq =>
    have hi : s.issued = s₀.issued := by
      subst heq
      rfl
    simp [hi, hnone] at hs

theorem settled_of_issue {w : State} {t : Tid} (h : Reachable (w.startIssue t))
    (hr : w.startRefused = false) (hc : w.client = none) (hp : w.process = none) : w.Settled := by
  obtain ⟨hstop, hstart, hunc, hret, hops, -⟩ := startRefused_false hr
  obtain ⟨⟨o, hi⟩, hl⟩ := h.ledger
  refine ⟨hc, hp, hret, hstart, hunc, hstop, fun a ha => ?_, fun u hu => ?_, fun p hp => ?_⟩
  · by_contra hnd
    have := hi.attempts.unfinished a ha fun b hb => hnd ⟨b, hb⟩
    simp [startIssue] at this
  · have hsp : (w.startIssue t).opDone u = true := by
      obtain hf | hm := (hl.once (.operationCancelled u) trivial).2 hu
      · exact hf
      · have hm' : u ∈ w.retiringOperations := hm
        rw [hops] at hm'
        cases hm'
    by_cases hut : u = t
    · subst hut
      simp [opDone, startIssue] at hsp
    · simpa [opDone, startIssue, hut] using hsp
  · have hlt : p + 1 < (w.startIssue t).nextSpawn := Nat.succ_lt_succ hp
    obtain ⟨h1, h2⟩ := reaped_of_released (hi.sound.earlier p hlt)
    have hsame : (w.startIssue t).spawns p = w.spawns p := by
      simp [startIssue, Nat.ne_of_lt hp]
    refine ⟨by rw [← hsame]; exact h1, fun hprod => h2 ?_⟩
    simpa [produced, hsame] using hprod

/-- A spawn is issued only when nothing of the earlier generations is left, and no reachable
state has two children that are not reaped. -/
theorem single_live_generation {s : State} (h : Reachable s) :
    (∀ sp, s.issued = some sp → ∃ (w : State) (t : Tid),
      s = w.startIssue t ∧ sp = w.nextSpawn ∧ w.Settled) ∧
      ∀ p < s.nextSpawn, ∀ q < s.nextSpawn, ¬ s.Reaped p → ¬ s.Reaped q → p = q := by
  obtain ⟨o, hi⟩ := h.inv
  refine ⟨fun sp hs => ?_, fun p hp q hq hnp hnq => ?_⟩
  · obtain ⟨w, t, rfl, hr, hc, hp⟩ := issue_of_reachable h hs
    exact ⟨w, t, rfl, (Option.some.inj hs).symm, settled_of_issue h hr hc hp⟩
  · obtain h1 | rfl := hi.reaped_or_last hp
    · exact absurd h1 hnp
    · obtain h2 | rfl := hi.reaped_or_last hq
      · exact absurd h2 hnq
      · rfl

theorem single_live_generation_restart :
    (machine.after (stoppedRun ++ [.call 2 .start])).issued = some 1 ∧
      ∃ (w : State) (t : Tid), machine.after (stoppedRun ++ [.call 2 .start]) = w.startIssue t ∧ w.Settled :=
  have hs : (machine.after (stoppedRun ++ [.call 2 .start])).issued = some 1 := by decide
  have ⟨w, t, h1, _, h2⟩ := (single_live_generation (Machine.reachable_after (by decide))).1 1 hs
  ⟨hs, w, t, h1, h2⟩

end State

end KestrelSdk.Subprocess

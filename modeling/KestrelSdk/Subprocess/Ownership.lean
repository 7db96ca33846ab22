import KestrelSdk.Subprocess.Outcome

namespace KestrelSdk.Subprocess

open Asyncio

/-- The places that can own a child process. -/
inductive Owner where
  | published
  | record (r : Rid)
  | liveSpawn
  | recordSpawn (r : Rid)
  | start (t : Tid)
  deriving DecidableEq

namespace State

open Children

/-- `p` belongs to the owner. A start owns the process it is about to hand over: it has taken
the result of its spawn task, has published nothing, and its claim task has not run yet. -/
def Owns (s : State) (p : Sid) : Owner → Prop
  | .published => s.process = some p ∧ s.client ≠ none
  | .record r => r ∈ s.retirements ∧ (s.records r).process = some p
  | .liveSpawn => s.spawnTask = some p
  | .recordSpawn r => r ∈ s.retirements ∧ (s.records r).spawnTask = some p
  | .start t => ∃ f e, (s.ops t).pc = .start (.retiring f ⟨none, some p, none, .pending e⟩)

/-- The owner that custody stands for. -/
def owner (s : State) : Custody → Owner
  | .published _ => .published
  | .live => .liveSpawn
  | .handoff t => .start t
  | .record r => if (s.records r).spawnTask.isSome then .recordSpawn r else .record r
  | .released => .liveSpawn

variable {s : State} {o : Custody} {p : Sid}

/-- Only the last child can be alive without its exit having been observed. -/
theorem Inv.eq_last (h : Inv s o) (hp : p < s.nextSpawn) (hs : s.produced p = true)
    (hx : s.exitObserved p = false) : p = s.last := by
  by_contra hne
  have hlt : p + 1 < s.nextSpawn := by
    refine Nat.lt_of_le_of_ne hp fun e => hne ?_
    unfold State.last
    rw [← e]
    rfl
  unfold produced at hs
  split at hs
  · rename_i b hb
    have := ((h.sound.earlier p hlt).2 b hb).1
    exact absurd (this.symm.trans hx) (by simp)
  · cases hs

theorem Inv.not_released (h : Inv s o) (hs : s.produced s.last = true) (hn : 0 < s.nextSpawn)
    (hx : s.exitObserved s.last = false) : o ≠ .released := by
  rintro rfl
  have hrel := h.sound.place.released rfl hn
  unfold produced at hs
  split at hs
  · rename_i b hb
    have := (hrel.2 b hb).1
    exact absurd (this.symm.trans hx) (by simp)
  · cases hs

/-- A start that is about to hand a process over holds the custody. -/
theorem Inv.start_owner (h : Inv s o) {t : Tid} (ho : s.Owns p (.start t)) : o = .handoff t := by
  obtain ⟨f, e, hpc⟩ := ho
  have hok := h.ops t
  simp only [OpOk, hpc, StartOk, ClaimOk] at hok
  obtain ⟨-, -, -, -, -, ⟨-, h1, -⟩ | ⟨k, h1, -⟩ | ⟨-, -, -, h1⟩⟩ := hok
  · cases h1
  · cases h1
  · exact h1

/-- A record owns a process or a spawn only in custody. -/
theorem Inv.record_owner (h : Inv s o) {r : Rid} (hr : r ∈ s.retirements)
    (ho : (s.records r).process ≠ none ∨ (s.records r).spawnTask ≠ none) : o = .record r := by
  obtain ⟨-, h1 | ⟨h1, -, h3⟩⟩ := h.sound.place.retirements r hr
  · exact h1
  · exact absurd ho (by simp only [children] at h1 h3; simp [h1, h3])

/-- In every reachable state, every process that a spawn task has returned and whose exit has
not been observed has exactly one owner. -/
theorem process_owned_by_exactly_one {s : State} (h : Reachable s) {p : Sid}
    (hp : p < s.nextSpawn) (hs : s.produced p = true) (hx : s.exitObserved p = false) :
    ∃! owner, s.Owns p owner := by
  obtain ⟨o, h⟩ := h.inv
  obtain rfl := h.eq_last hp hs hx
  have hpl := h.sound.place
  have h1 : s.client = o.client := hpl.client
  have h2 : s.process = o.client.map fun _ => s.last := hpl.process
  have h3 : s.spawnTask = o.spawn s.last := hpl.spawnTask
  have hpos : 0 < s.nextSpawn := Nat.lt_of_le_of_lt (Nat.zero_le _) hp
  refine ⟨s.owner o, ?_, ?_⟩
  · cases o with
    | released => exact absurd rfl (h.not_released hs hpos hx)
    | live => exact h3
    | handoff t =>
      obtain ⟨f, e, hpc⟩ := h.handoff t rfl
      exact ⟨f, e, hpc⟩
    | published c => exact ⟨h2, by rw [h1]; simp [Custody.client]⟩
    | record r =>
      obtain ⟨hr, hh, -⟩ := hpl.record r rfl
      have hr' : r ∈ s.retirements := hr
      obtain hh | hh | ⟨-, -, -, hh⟩ := hh
      · have hh' : (s.records r).spawnTask = some s.last := hh
        simp only [owner, hh', Option.isSome_some, if_true]
        exact ⟨hr', hh'⟩
      · have hn : (s.records r).spawnTask = none := by
          cases hsp : (s.records r).spawnTask with
          | none => rfl
          | some sp =>
            have := ((h.sound.records r h.sound.current_lt).spawn sp hsp).2.2.1
            rw [hh] at this
            cases this
        simp only [owner, hn, Option.isSome_none, Bool.false_eq_true, if_false]
        exact ⟨hr', hh⟩
      · unfold produced at hs
        split at hs
        · rename_i b hb
          exact absurd hb (hh b)
        · cases hs
  · intro w hw
    cases w with
    | published =>
      cases o with
      | published c => rfl
      | _ => exact absurd hw.1 (by rw [h2]; simp [Custody.client])
    | liveSpawn =>
      cases o with
      | live => rfl
      | _ => exact absurd hw (by simp only [Owns]; rw [h3]; simp [Custody.spawn])
    | start t =>
      obtain rfl := h.start_owner hw
      rfl
    | record r =>
      obtain rfl := h.record_owner hw.1 (.inl (by rw [hw.2]; simp))
      have hn : (s.records r).spawnTask = none := by
        cases hsp : (s.records r).spawnTask with
        | none => rfl
        | some sp =>
          have := ((h.sound.records r h.sound.current_lt).spawn sp hsp).2.2.1
          simp only [children] at this
          rw [hw.2] at this
          cases this
      simp [owner, hn]
    | recordSpawn r =>
      obtain rfl := h.record_owner hw.1 (.inr (by rw [hw.2]; simp))
      simp [owner, hw.2]

theorem process_owned_by_exactly_one_live_spawn :
    ∃! owner, (machine.after [.call 0 .start, .spawnDone 0 (.process true)]).Owns 0 owner :=
  process_owned_by_exactly_one (Machine.reachable_after (by decide)) (by decide) (by decide)
    (by decide)

/-- Nothing is left of the child: its spawn gave no process, or the exit was observed by the wait
task and every client over it has closed. -/
def Reaped (s : State) (p : Sid) : Prop :=
  s.spawns p ≠ .running ∧ (s.produced p = true → s.exitObserved p = true ∧
    ∀ c < s.nextClient, (s.clients c).process = p → (s.clients c).close = .done true)

/-- A record of `_retirements` holds the child. -/
def Held (s : State) (p : Sid) : Prop :=
  ∃ r ∈ s.retirements, (s.records r).process = some p ∨ (s.records r).spawnTask = some p

theorem reaped_of_released (h : s.children.Released p) : s.Reaped p := by
  refine ⟨h.1, fun hs => ?_⟩
  unfold produced at hs
  split at hs
  · rename_i b hb
    obtain ⟨h1, h2⟩ := h.2 b hb
    exact ⟨h1, fun c hc hp => h2 c ⟨hc, hp⟩⟩
  · cases hs

/-- Only the last child may still have something left of it. -/
theorem Inv.reaped_or_last (h : Inv s o) (hp : p < s.nextSpawn) : s.Reaped p ∨ p = s.last := by
  obtain hlt | he := Nat.lt_or_eq_of_le (Nat.succ_le_of_lt hp)
  · exact .inl (reaped_of_released (h.sound.earlier p hlt))
  · refine .inr ?_
    unfold State.last
    rw [← he]
    rfl

theorem Inv.published_last (h : Inv s o) (hp : s.process = some p) :
    p = s.last ∧ ∃ c, o = .published c := by
  obtain ⟨c, ho, -, h2, -⟩ := h.published (.inl (by simp [hp]))
  exact ⟨Option.some.inj (hp.symm.trans h2), c, ho⟩

/-- A record holds nothing but the last child. -/
theorem Inv.held_last (h : Inv s o) {r : Rid} (hr : r ∈ s.retirements)
    (hp : (s.records r).process = some p ∨ (s.records r).spawnTask = some p) :
    p = s.last ∧ o = .record r := by
  have ho : o = .record r := by
    refine h.record_owner hr ?_
    obtain hp | hp := hp
    · exact .inl (by simp [hp])
    · exact .inr (by simp [hp])
  subst ho
  refine ⟨?_, rfl⟩
  obtain hp | hp := hp
  · exact h.sound.process_eq h.sound.current_lt hp
  · exact h.sound.spawn_eq h.sound.current_lt hp

/-- What a `start()` that raises leaves behind of its child. The slot belongs to the start
admitted last, so a later start may have taken it again. -/
structure GivenUp (s : State) (p : Sid) : Prop where
  unpublished : s.process ≠ some p
  kept : s.Reaped p ∨ s.Held p
  slot : p + 1 = s.nextSpawn → s.starting = false ∧ s.startingGeneration = none

theorem Inv.givenUp (h : Inv s o) (hp : p < s.nextSpawn)
    (hl : p = s.last → o.Handed ∧ s.startingGeneration = none) : s.GivenUp p where
  unpublished := by
    intro he
    obtain ⟨h1, c, rfl⟩ := h.published_last he
    exact (hl h1).1
  kept := by
    obtain hr | rfl := h.reaped_or_last hp
    · exact .inl hr
    · obtain ⟨ho, -⟩ := hl rfl
      cases o with
      | released =>
        exact .inl (reaped_of_released (h.sound.place.released rfl (Nat.zero_lt_of_lt hp)))
      | record r =>
        obtain ⟨h1, h2 | h2 | ⟨-, -, h3, h4⟩, -⟩ := h.sound.place.record r rfl
        · exact .inr ⟨r, h1, .inr h2⟩
        · exact .inr ⟨r, h1, .inl h2⟩
        · exact .inl (reaped_of_released ⟨h3, fun b hb => absurd hb (h4 b)⟩)
      | _ => exact absurd ho (by simp [Custody.Handed])
  slot := by
    intro he
    have hlast : p = s.last := by
      unfold State.last
      rw [← he]
      rfl
    obtain ⟨-, hs⟩ := hl hlast
    exact ⟨by rw [h.starting, hs]; rfl, hs⟩

/-- What a `stop()` that returns has achieved for the child of an earlier start. -/
structure Stopped (s : State) (p : Sid) : Prop where
  reaped : s.Reaped p
  unpublished : s.process ≠ some p
  spawn : s.spawnTask ≠ some p
  record : ∀ r ∈ s.retirements, (s.records r).process ≠ some p ∧ (s.records r).spawnTask ≠ some p
  slot : p + 1 = s.nextSpawn → s.starting = false ∧ s.startingGeneration = none ∧
    s.startUncertainGeneration = none

theorem Inv.stopped (h : Inv s o) (hp : p < s.nextSpawn)
    (hl : p = s.last → o = .released ∧ s.startingGeneration = none) : s.Stopped p where
  reaped := by
    obtain hr | rfl := h.reaped_or_last hp
    · exact hr
    · exact reaped_of_released (h.sound.place.released (hl rfl).1 (Nat.zero_lt_of_lt hp))
  unpublished := by
    intro he
    obtain ⟨h1, c, rfl⟩ := h.published_last he
    cases (hl h1).1
  spawn := by
    have h1 : s.spawnTask = o.spawn s.last := h.sound.place.spawnTask
    intro he
    rw [h1] at he
    cases o with
    | live =>
      obtain rfl : s.last = p := Option.some.inj he
      cases (hl rfl).1
    | _ => cases he
  record := by
    intro r hr
    refine ⟨fun he => ?_, fun he => ?_⟩
    · obtain ⟨h1, rfl⟩ := h.held_last hr (.inl he)
      cases (hl h1).1
    · obtain ⟨h1, rfl⟩ := h.held_last hr (.inr he)
      cases (hl h1).1
  slot := by
    intro he
    have hlast : p = s.last := by
      unfold State.last
      rw [← he]
      rfl
    obtain ⟨-, hs⟩ := hl hlast
    refine ⟨by rw [h.starting, hs]; rfl, hs, ?_⟩
    cases hu : s.startUncertainGeneration with
    | none => rfl
    | some g =>
      have := h.uncertain g hu
      rw [hs] at this
      cases this

/-- The step that made the last record of a reachable state. -/
theorem turn_of_reachable (h : Reachable s) (hn : s.ended ≠ none ∨ s.issued ≠ none) :
    ∃ s₀ o₀, Inv s₀ o₀ ∧ s₀.ended = none ∧ s₀.issued = none ∧ Turn s₀ s := by
  obtain rfl | ⟨s₀, a, h₀, hs⟩ := h.cases
  · simp [machine] at hn
  · obtain ⟨o₀, hi⟩ := Reachable.inv h₀
    have hi' : Inv { s₀ with issued := none, ended := none } o₀ :=
      hi.still (.same rfl) rfl rfl (.same rfl fun _ _ => rfl) (.same rfl) rfl rfl
    exact ⟨_, o₀, hi', rfl, rfl, act_turn hi' hs⟩

/-- When `start()` raises, the child it spawned is unpublished, reaped or held by a record, and
its slot is free; when it returns, a pair is published. -/
theorem start_all_or_nothing {s : State} (h : Reachable s) {t : Tid} {spawned : Option Sid}
    {raised : Option Failure} (he : s.ended = some (.start t spawned raised)) :
    (raised ≠ none → ∀ p, spawned = some p → s.GivenUp p) ∧
      (raised = none → ∃ c p, s.client = some c ∧ s.process = some p) := by
  obtain ⟨o, hi⟩ := h.inv
  obtain ⟨s₀, o₀, h₀, hnone, -, turn⟩ := turn_of_reachable h (.inl (by simp [he]))
  cases turn with
  | quiet _ hq => simp [hq, hnone] at he
  | start u out =>
    cases out with
    | wait pc hb => simp [show s.ended = s₀.ended from congrArg Book.ended hb, hnone] at he
    | leave e x hk hb => simp [show s.ended = s₀.ended from congrArg Book.ended hb, hnone] at he
    | issue w hb hr hc hp =>
      have : (w.startIssue u).ended = none := (congrArg Book.ended hb).trans hnone
      rw [this] at he
      cases he
    | ret sp hb hp =>
      have hs : s.ended = some (.start u sp none) := congrArg Book.ended hb
      rw [hs] at he
      cases he
      refine ⟨fun hne => absurd rfl hne, fun _ => ?_⟩
      obtain ⟨c, -, h1, h2, -⟩ := hi.published (by simpa [Option.isSome_iff_ne_none] using hp)
      exact ⟨c, s.last, h1, h2⟩
  | atop u e x c hpc hs =>
    have hok := h₀.ops u
    simp only [OpOk, hpc] at hok
    obtain ⟨-, hf, hsp⟩ := hok
    cases hk : e.kind with
    | start =>
      simp only [finishCall, hk] at hs
      subst hs
      cases he
      refine ⟨fun _ p hp => ?_, fun hr => absurd hr ?_⟩
      · obtain ⟨h1, h2⟩ := hsp p hp
        obtain ⟨h3, h4, h5⟩ := h₀.givenUp h1 h2
        exact ⟨h3, h4, h5⟩
      · split
        · simp
        · exact hf hk
    | health =>
      simp only [finishCall, hk] at hs
      subst hs
      cases he
    | transition n =>
      simp only [finishCall, hk] at hs
      subst hs
      cases he
  | refused e hi' he' hstart hstop =>
    rw [he'] at he
    cases he
    obtain ⟨h1, h2⟩ := hstart t spawned raised rfl
    exact ⟨fun _ p hp => by simp [h1] at hp, fun hr => absurd hr h2⟩
  | stopped u mark c b a hd ha hm hs =>
    subst hs
    cases he

/-- A start whose spawn fails, up to its return to the caller. -/
def failedSpawn : List Action :=
  [.call 0 .start, .spawnDone 0 .failed, .tick, .tick, .resume 0 .returned false,
    .tick, .claim 0, .tick, .retire 0, .tick, .tick, .retire 0, .claim 0, .resume 0 .returned false,
    .tick, .finalize 0, .resume 0 .returned false, .tick, .unregister 0, .resume 0 .returned false]

theorem start_all_or_nothing_failedSpawn :
    (machine.after failedSpawn).ended = some (.start 0 (some 0) (some .spawnFailed)) ∧
      (machine.after failedSpawn).GivenUp 0 :=
  have he : (machine.after failedSpawn).ended = some (.start 0 (some 0) (some .spawnFailed)) := by
    decide
  ⟨he, (start_all_or_nothing (Machine.reachable_after (by decide)) he).1 (by decide) 0 rfl⟩

/-- When `stop()` returns, every start admitted before the call is stopped. -/
theorem stop_means_stopped {s : State} (h : Reachable s) {t : Tid} {mark : Nat}
    (he : s.ended = some (.stop t mark none)) : ∀ p < mark, s.Stopped p := by
  intro p hp
  obtain ⟨s₀, o₀, h₀, hnone, -, turn⟩ := turn_of_reachable h (.inl (by simp [he]))
  cases turn with
  | quiet _ hq => simp [hq, hnone] at he
  | start u out =>
    cases out with
    | wait pc hb => simp [show s.ended = s₀.ended from congrArg Book.ended hb, hnone] at he
    | leave e x hk hb => simp [show s.ended = s₀.ended from congrArg Book.ended hb, hnone] at he
    | issue w hb hr hc hp =>
      have : (w.startIssue u).ended = none := (congrArg Book.ended hb).trans hnone
      rw [this] at he
      cases he
    | ret sp hb hp =>
      have hs : s.ended = some (.start u sp none) := congrArg Book.ended hb
      rw [hs] at he
      cases he
  | atop u e x c hpc hs =>
    cases hk : e.kind <;> simp only [finishCall, hk] at hs <;> subst hs <;> cases he
  | refused e hi' he' hstart hstop =>
    rw [he'] at he
    cases he
    exact absurd rfl (hstop t mark none)
  | stopped u mark' c b a hd ha hm hs =>
    subst hs
    simp only [stopReturn, endCall, Option.some.injEq, Ended.stop.injEq] at he
    obtain ⟨-, rfl, hr⟩ := he
    have hb : b = true := by
      cases b with
      | true => rfl
      | false => cases c <;> simp at hr
    subst hb
    obtain ⟨h1, h2⟩ := h₀.attempts.attempt a ha
    simp only [AttemptOk, hd] at h2
    have hlt : p < s₀.nextSpawn := Nat.lt_of_lt_of_le hp (Nat.le_trans hm h1)
    have hlast : p = s₀.last → (s₀.attempts a).mark = s₀.nextSpawn := by
      intro hl
      have hle := Nat.lt_of_lt_of_le hp hm
      rw [hl] at hle
      unfold State.last at hle
      omega
    obtain ⟨a1, a2, a3, a4, a5⟩ := h₀.stopped hlt fun hl => h2 trivial (hlast hl)
    exact ⟨a1, a2, a3, a4, a5⟩

/-- A start that goes through its three handshake phases and returns. -/
def startedRun : List Action :=
  [.call 0 .start, .spawnDone 0 (.process true), .tick, .tick, .resume 0 .returned false,
    .phaseDone 0 (.returned true), .tick, .tick, .resume 0 .returned false,
    .phaseDone 1 (.returned true), .tick, .tick, .resume 0 .returned false,
    .phaseDone 2 (.returned true), .tick, .tick, .resume 0 .returned false,
    .tick, .finalize 0, .resume 0 .returned false]

/-- The stop that follows it: shutdown, wait and close all succeed. -/
def stoppedRun : List Action :=
  startedRun ++ [.call 1 .stop, .tick, .attempt 0 false, .tick, .retire 0, .shutdownDone 0 true,
    .tick, .tick, .retire 0, .exit 0, .waitDone 0 true true, .tick, .tick, .retire 0,
    .closeDone 0 true, .tick, .tick, .retire 0, .attempt 0 false, .resume 1 .returned false]

theorem stop_means_stopped_stoppedRun :
    (machine.after stoppedRun).ended = some (.stop 1 1 none) ∧
      (machine.after stoppedRun).Stopped 0 :=
  have he : (machine.after stoppedRun).ended = some (.stop 1 1 none) := by decide
  ⟨he, stop_means_stopped (Machine.reachable_after (by decide)) he 0 (by decide)⟩

end State

end KestrelSdk.Subprocess

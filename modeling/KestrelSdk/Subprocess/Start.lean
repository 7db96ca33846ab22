import KestrelSdk.Subprocess.Claims

namespace KestrelSdk.Subprocess

open Asyncio

namespace State

open Children

section

variable {s s' : State} {o : Custody} {t : Tid}

/-- An uncertain start is never settled, so there is no stale uncertainty to clear. -/
theorem Inv.clear (h : Inv s o) : s.clearSettledStartUncertaintyLocked = s := by
  unfold clearSettledStartUncertaintyLocked
  split
  · rename_i g hg
    have := h.uncertain g hg
    simp [startIsSettledLocked, this]
  · rfl

theorem Inv.handoff_slot (h : Inv s o) {u : Tid} (ho : o = .handoff u) :
    s.startingGeneration ≠ none := by
  obtain ⟨f, e, hpc⟩ := h.handoff u ho
  have hok := h.ops u
  simp only [OpOk, hpc, StartOk] at hok
  rw [hok.2.1]
  simp

/-- With no start, no pair and no record there is nothing left of the last child. -/
theorem Inv.nothing_left (h : Inv s o) (hslot : s.startingGeneration = none)
    (hclient : s.client = none) (hret : s.retirements = []) : o = .released := by
  cases o with
  | released => rfl
  | live => exact absurd hslot (h.live rfl)
  | handoff u => exact absurd hslot (h.handoff_slot rfl)
  | published c =>
    have := h.sound.place.client
    simp only [children, Custody.client] at this
    rw [hclient] at this
    cases this
  | record r =>
    have := (h.sound.place.record r rfl).1
    simp only [children] at this
    rw [hret] at this
    cases this

theorem Inv.startRaise (h : Inv s o) (hf : s.Free t) (hown : s.lifecycleLock.owner = some t)
    (failure : Failure) (cancelled : Bool) : Inv (s.startRaise t failure cancelled) o :=
  h.leaveFree hf hown rfl (by simp)

theorem startRefused_false (h : s.startRefused = false) : s.stopping = false ∧
    s.starting = false ∧ s.startUncertainGeneration = none ∧ s.retirements = [] ∧
    s.retiringOperations = [] ∧ s.stopUnfinished = false := by
  simp only [startRefused, Bool.or_eq_false_iff, Option.isSome_eq_false_iff,
    Option.isNone_iff_eq_none, Bool.not_eq_false', List.isEmpty_iff] at h
  obtain ⟨⟨⟨⟨⟨h1, h2⟩, h3⟩, h4⟩, h5⟩, h6⟩ := h
  exact ⟨h1, h2, h3, h4, h5, h6⟩

/-- When a start is admitted every stop attempt has ended. -/
theorem Inv.all_done (h : Inv s o) (hu : s.stopUnfinished = false) {a : Aid}
    (ha : a < s.nextAttempt) : ∃ b, (s.attempts a).pc = .done b := by
  by_contra hnd
  have hst := h.attempts.unfinished a ha (fun b hb => hnd ⟨b, hb⟩)
  simp only [stopUnfinished, hst] at hu
  obtain ⟨b, hb⟩ := Option.isSome_iff_exists.1 (by simpa using hu)
  exact hnd ⟨b, attemptResult_eq hb⟩

/-- The admission guard lets a start through only when nothing is left of the earlier ones. -/
theorem Inv.startIssue (h : Inv s o) (hown : s.lifecycleLock.owner = some t)
    (hact : t ∈ s.activeOperations) (hclient : s.client = none) (hr : s.startRefused = false) :
    Inv (s.startIssue t) .live := by
  obtain ⟨-, hstart, hunc, hret, -, hstop⟩ := startRefused_false hr
  have hslot : s.startingGeneration = none := by
    have := h.starting
    rw [hstart] at this
    simpa using this.symm
  obtain rfl := h.nothing_left hslot hclient hret
  refine h.transfer (t := t) hown h.sound.admit ?_ ?_ ⟨fun _ => hown, ?_, by simp, ?_⟩
  · refine { starting := rfl, settled := rfl, uncertain := ?_, live := by simp [State.startIssue],
             spawned := fun sp hsp => ⟨Nat.lt_succ_of_lt hsp, fun e => ?_⟩,
             now := Nat.le_refl _, ops := fun u hu => ?_, active := fun _ _ => id,
             awaits := fun _ _ => id, lates := rfl, attempts := rfl, nextAttempt := rfl,
             handoff := by simp }
    · simp [State.startIssue, hunc]
    · have e' : sp = s.nextSpawn := e
      rw [e'] at hsp
      exact absurd hsp (Nat.lt_irrefl _)
    · simp [State.startIssue, hu]
  · refine ⟨fun a ha => ?_, fun a ha hnd => ?_, by simp [State.startIssue]⟩
    · obtain ⟨b, hb⟩ := h.all_done hstop ha
      have hm := (h.attempts.attempt a ha).1
      refine ⟨Nat.le_succ_of_le hm, ?_⟩
      have hb' : ((s.startIssue t).attempts a).pc = .done b := hb
      simp only [AttemptOk, hb']
      intro _ hmark
      have hmark' : (s.attempts a).mark = s.nextSpawn + 1 := hmark
      rw [hmark'] at hm
      exact absurd hm (Nat.not_succ_le_self _)
    · obtain ⟨b, hb⟩ := h.all_done hstop ha
      exact absurd hb (hnd b)
  · simp [State.startIssue]
  · have he : (s.startIssue t).ops t =
        { pc := .start (.spawning { generation := s.generation, spawnTask := some s.nextSpawn })
          since := s.now, spawned := some s.nextSpawn } := by simp [State.startIssue]
    rw [he]
    exact ⟨⟨Nat.succ_pos _, rfl⟩, rfl, rfl, .inl ⟨rfl, hact⟩⟩

theorem Inv.startAdmit (h : Inv s o) (hf : s.Free t) (hown : s.lifecycleLock.owner = some t)
    (hact : t ∈ s.activeOperations) (hclient : s.client = none) :
    ∃ o', Inv (s.startAdmit t) o' := by
  unfold State.startAdmit
  split
  · exact ⟨o, h.startRaise hf hown _ _⟩
  · rename_i hr
    exact ⟨_, h.startIssue hown hact hclient (by simpa using hr)⟩

/-- The published pair, seen from the invariant. -/
theorem Inv.published (h : Inv s o) (hp : s.process.isSome ∨ s.client.isSome) :
    ∃ c, o = .published c ∧ s.client = some c ∧ s.process = some s.last ∧ s.spawnTask = none := by
  have h1 : s.client = o.client := h.sound.place.client
  have h2 : s.process = o.client.map fun _ => s.last := h.sound.place.process
  have h3 : s.spawnTask = o.spawn s.last := h.sound.place.spawnTask
  cases o with
  | published c => exact ⟨c, rfl, h1, h2, h3⟩
  | _ => simp [h1, h2, Custody.client] at hp

theorem Inv.startReturn (h : Inv s o) (hown : s.lifecycleLock.owner = some t)
    (hstop : ∀ a m c, (s.ops t).pc ≠ .stopping a m c)
    (hhand : ∀ f c, (s.ops t).pc ≠ .start (.retiring f c)) : Inv (s.startReturn t) o := by
  have hst : Still s (s.releaseLock.unregisterSuccessfulStartAtReturn t) := .same rfl
  refine h.endCall hst rfl (.same rfl)
    ⟨rfl, rfl, rfl, fun _ _ => rfl, fun u hu _ hmem => ?_, fun _ _ _ _ => .inl⟩ (fun u hu hin => ?_)
    (h.not_handoff hhand) (fun a m c hpc => absurd hpc (hstop a m c))
  · simpa [unregisterSuccessfulStartAtReturn, releaseLock, hu] using hmem
  · rw [h.alone (.inl hown) hu] at hin
    cases hin

/-- The claim of the published pair makes a new record. -/
theorem claim_published {c : Cid} (h : s.children.Sound (.published c)) :
    State.claimRetirementLocked
      { s with client := none, process := none, generation := s.generation + 1 }
      (some c) (some s.last) false none false =
        ((s.cleared (s.generation + 1) s.spawnCancelRequested).newRetirement (some c)
          (some s.last) false none false, some s.nextRecord) := by
  have h3 : s.spawnTask = none := h.place.spawnTask
  have hz : { s with client := none, process := none, generation := s.generation + 1 } =
      s.cleared (s.generation + 1) s.spawnCancelRequested := by
    simp [cleared, ← h3]
  rw [hz]
  have hfind := find_none h (by simp [Custody.Handed]) (some c) (some s.last) none
  simp only [claimRetirementLocked, Option.isNone_some, Bool.false_and, Bool.false_eq_true,
    if_false]
  rw [show (s.cleared (s.generation + 1) s.spawnCancelRequested).retirements.find?
    (fun r => ownsAny ((s.cleared (s.generation + 1) s.spawnCancelRequested).records r) (some c)
      (some s.last) none) = none from hfind]
  rfl

/-- The terminal published child goes to a record of its own. -/
theorem Inv.retireTerminal (h : Inv s o) (hf : s.Free t) (hown : s.lifecycleLock.owner = some t)
    (hact : t ∈ s.activeOperations) (hp : s.process.isSome ∨ s.client.isSome) :
    ∃ o', Inv (s.retireTerminalPublishedChild t) o' := by
  obtain ⟨c, rfl, h1, h2, -⟩ := h.published hp
  have ho : ¬ (Custody.published c).Handed := by simp [Custody.Handed]
  have hsound := newRetirement_sound h.sound ho (s.generation + 1) s.spawnCancelRequested false
    false
  have hg := newRetirement_grown s (s.generation + 1) s.spawnCancelRequested (some c)
    (some s.last) false none false
  dsimp only [State.retireTerminalPublishedChild]
  rw [h1, h2, claim_published h.sound]
  simp only [Custody.client, Custody.process, Custody.spawn] at hsound
  generalize (s.cleared (s.generation + 1) s.spawnCancelRequested).newRetirement (some c)
    (some s.last) false none false = u at hsound hg
  simp only [hg.task]
  refine ⟨_, h.grow ho hown hf.stopping hg hsound (by simp) ?_⟩
  refine ⟨by simpa [hg.ops] using hf.spawned, hg.created, .inl ?_⟩
  simpa [setOp, hg.active] using hact

theorem publishedChildIsTerminal_some (hp : s.publishedChildIsTerminalLocked = true) :
    s.process.isSome ∨ s.client.isSome := by
  unfold publishedChildIsTerminalLocked at hp
  cases h1 : s.process with
  | some p => simp
  | none =>
    cases h2 : s.client with
    | some c => simp
    | none => simp [h1, h2] at hp

theorem Inv.startAdmission (h : Inv s o) (hf : s.Free t) (hown : s.lifecycleLock.owner = some t)
    (hact : t ∈ s.activeOperations) : ∃ o', Inv (s.startAdmission t) o' := by
  dsimp only [State.startAdmission]
  rw [h.clear]
  split
  · rename_i hp
    split
    · exact ⟨o, h.startReturn hown hf.stopping hf.retiring⟩
    · exact h.retireTerminal hf hown hact (by simpa using hp)
  · rename_i hp
    simp only [Bool.or_eq_true, not_or, Option.not_isSome_iff_eq_none] at hp
    exact h.startAdmit hf hown hact hp.2

theorem Inv.startBody (h : Inv s o) (hf : s.Free t) (hown : s.lifecycleLock.owner = some t)
    (hact : t ∈ s.activeOperations) : ∃ o', Inv (s.startBody t) o' := by
  unfold State.startBody
  split
  · rename_i hp
    exact h.retireTerminal hf hown hact (publishedChildIsTerminal_some hp)
  · exact h.startAdmission hf hown hact

theorem Inv.startAfterTerminal (h : Inv s o) (hf : s.Free t)
    (hown : s.lifecycleLock.owner = some t) {r : Rid} {j : Jid} {complete cancelled : Bool}
    (haw : s.Awaits r j) (hres : s.retireResult j = some complete)
    (hact : cancelled = false → t ∈ s.activeOperations) :
    ∃ o', Inv (s.startAfterTerminal t r complete cancelled) o' := by
  unfold State.startAfterTerminal
  cases complete with
  | false => exact ⟨o, h.startRaise hf hown _ _⟩
  | true =>
    obtain ⟨o', h', -⟩ := h.remove (haw.retired hres)
    obtain ⟨l, hl⟩ := removeRetirement_eq s r
    cases he : s.removeRetirementIfCompleteLocked r with
    | mk s1 b =>
      rw [he] at h' hl
      simp only at h' hl
      subst hl
      have hf' : State.Free { s with retirements := l } t := ⟨hf.spawned, hf.stopping, hf.retiring⟩
      cases b with
      | false => exact ⟨o', h'.startRaise hf' hown _ _⟩
      | true =>
        simp only [Bool.not_true, Bool.false_eq_true, if_false]
        split
        · exact ⟨o', h'.startRaise hf' hown _ _⟩
        · rename_i hc
          exact h'.startAdmission hf' hown (hact (by simpa using hc))

theorem cancelSpawnOnce_eq (s : State) (sp : Sid) :
    (∃ b E, s.cancelSpawnOnce sp = { s with spawnCancelRequested := b, effects := E }) ∨
      ∃ r, Soft s (s.cancelSpawnOnce sp) r := by
  unfold cancelSpawnOnce
  split
  · exact .inl ⟨s.spawnCancelRequested, s.effects, rfl⟩
  · split
    · split
      · exact .inl ⟨s.spawnCancelRequested, s.effects, rfl⟩
      · exact .inl ⟨true, _, rfl⟩
    · split
      · rename_i r _
        exact .inr ⟨r, cancelRetiredSpawnOnce_soft s r sp⟩
      · exact .inl ⟨s.spawnCancelRequested, s.effects, rfl⟩

theorem cancelStartupTaskOnce_eq (s : State) (k : Kid) :
    (∃ l E, s.cancelStartupTaskOnce k = { s with startupCancelRequested := l, effects := E }) ∨
      ∃ r, Soft s (s.cancelStartupTaskOnce k) r := by
  unfold cancelStartupTaskOnce
  split
  · exact .inl ⟨s.startupCancelRequested, s.effects, rfl⟩
  · split
    · split
      · exact .inl ⟨s.startupCancelRequested, s.effects, rfl⟩
      · exact .inl ⟨_, _, rfl⟩
    · split
      · rename_i r _
        exact .inr ⟨r, cancelRetiredStartupTaskOnce_soft s r k⟩
      · exact .inl ⟨s.startupCancelRequested, s.effects, rfl⟩

/-- A cancellation of an owned task leaves callers, lock and clock alone. -/
theorem Inv.cancelSpawnOnce (h : Inv s o) (sp : Sid) : Inv (s.cancelSpawnOnce sp) o ∧
    (s.cancelSpawnOnce sp).ops = s.ops ∧
    (s.cancelSpawnOnce sp).lifecycleLock = s.lifecycleLock ∧
    (s.cancelSpawnOnce sp).now = s.now := by
  obtain ⟨b, E, he⟩ | ⟨r, hr⟩ := cancelSpawnOnce_eq s sp
  · rw [he]
    refine ⟨?_, rfl, rfl, rfl⟩
    exact h.idle (.same rfl) h.sound rfl (.same rfl fun _ _ => rfl) (.same rfl) (fun _ _ => id) rfl
  · refine ⟨h.soft hr, ?_⟩
    obtain ⟨x, E, he, -⟩ := hr
    rw [he]
    exact ⟨rfl, rfl, rfl⟩

theorem Inv.cancelStartupTaskOnce (h : Inv s o) (k : Kid) : Inv (s.cancelStartupTaskOnce k) o ∧
    (s.cancelStartupTaskOnce k).ops = s.ops ∧
    (s.cancelStartupTaskOnce k).lifecycleLock = s.lifecycleLock ∧
    (s.cancelStartupTaskOnce k).now = s.now := by
  obtain ⟨b, E, he⟩ | ⟨r, hr⟩ := cancelStartupTaskOnce_eq s k
  · rw [he]
    refine ⟨?_, rfl, rfl, rfl⟩
    exact h.idle (.same rfl) h.sound rfl (.same rfl fun _ _ => rfl) (.same rfl) (fun _ _ => id) rfl
  · refine ⟨h.soft hr, ?_⟩
    obtain ⟨x, E, he, -⟩ := hr
    rw [he]
    exact ⟨rfl, rfl, rfl⟩

theorem MovedSpawn.mono {d e : Nat} (h : s.MovedSpawn o d) (he : e ≤ d) : s.MovedSpawn o e := by
  obtain ⟨r, j, h1, h2, h3⟩ := h
  exact ⟨r, j, h1, h2, Nat.lt_of_le_of_lt he h3⟩

theorem MovedPair.mono {d e : Nat} (h : s.MovedPair o d) (he : e ≤ d) : s.MovedPair o e := by
  obtain ⟨r, j, h1, h2, h3⟩ := h
  exact ⟨r, j, h1, h2, Nat.lt_of_le_of_lt he h3⟩

/-- The start gives up: its claim will find the child. -/
theorem Inv.startFailed (h : Inv s o) {f : StartFrame} {failure : Failure}
    (hown : s.lifecycleLock.owner = some t) (hstop : ∀ a m c, (s.ops t).pc ≠ .stopping a m c)
    (hret : ∀ f c, (s.ops t).pc ≠ .start (.retiring f c)) (hsp : s.Issued (s.ops t))
    (hslot : s.Slot f) (hsome : f.process.isSome ∨ f.spawnTask.isSome)
    (hc : s.ClaimOk o t ⟨f.client, f.process, f.spawnTask, .pending s.now⟩) :
    Inv (s.startFailed t f failure) o := by
  dsimp only [State.startFailed]
  rw [if_pos (by simpa using hsome)]
  refine h.suspend (fun _ => hown) (fun a m c hpc => absurd hpc (hstop a m c))
    (fun ho => absurd ho (h.not_handoff hret)) ⟨hsp, hslot, rfl, by simp, hc⟩

/-- The start moves its own child on, from the spawn task into its own hands. -/
theorem Inv.consume {o' : Custody} {pc : OpPc} (h : Inv s .live)
    (hown : s.lifecycleLock.owner = some t) (hstop : ∀ a m c, (s.ops t).pc ≠ .stopping a m c)
    (hst : Still s s') (hops : s'.ops = s.ops) (hlock : s'.lifecycleLock = s.lifecycleLock)
    (ha : Aside s s' t) (hu : Unstopped s s') (hlates : s'.lates = s.lates)
    (hactive : s'.activeOperations = s.activeOperations) (hnow : s'.now = s.now)
    (hs : s'.children.Sound o') (ho : o' ≠ .live) (hh : ∀ u, u ≠ t → o' ≠ .handoff u)
    (hhand : o' = .handoff t → ∃ f e,
      pc = .start (.retiring f ⟨none, some s'.last, none, .pending e⟩))
    (hok : (s'.suspend t pc).OpOk o' t { s.ops t with pc, since := s.now, cancelAt := none }) :
    Inv (s'.suspend t pc) o' := by
  have he : (s'.suspend t pc).ops t = { s.ops t with pc, since := s.now, cancelAt := none } := by
    simp [State.suspend, setOp, hops, hnow]
  have hk := hst.keeps .live
  refine h.transfer hown hs ?_ ?_ ⟨fun _ => ?_, ?_, ?_, ?_⟩
  · refine { starting := ?_, settled := ?_, uncertain := ?_, live := fun e => absurd e ho,
             spawned := fun sp hsp => ?_, now := hst.now, ops := fun u hu => ?_,
             active := fun u _ hm => ?_, awaits := hk.awaits, lates := hlates,
             attempts := hst.attempts, nextAttempt := hst.nextAttempt, handoff := hh }
    · simpa [State.suspend, setOp, ha.starting, hst.slot] using h.starting
    · simpa [State.suspend, setOp, ha.settled, hst.slot] using h.settled
    · simpa [State.suspend, setOp, ha.uncertain, hst.slot] using h.uncertain
    · refine ⟨by simpa [State.suspend, setOp, hst.nextSpawn] using hsp, fun e => ⟨?_, ?_⟩⟩
      · exact e.trans hk.last
      · intro hlive
        exact absurd hlive (by simp [Custody.Handed])
    · simp [State.suspend, setOp, hops, hu]
    · simpa [State.suspend, setOp, hactive] using hm
  · refine h.attempts.transfer hst.attempts hst.nextAttempt hu.stopTask hst.nextSpawn
      (.inl (by simp [Custody.Handed])) (.inl hst.slot) (by simp) fun u a m c hu => ?_
    by_cases hut : u = t
    · subst hut
      exact absurd hu (hstop a m c)
    · simpa [State.suspend, setOp, hops, hut] using hu
  · simpa [State.suspend, setOp, hlock] using hown
  · simp [he]
  · rw [he]
    exact hhand
  · rw [he]
    exact hok

/-- The spawn has returned a process to its start. -/
theorem Inv.startPublish (h : Inv s .live) {f : StartFrame} {pipes : Bool}
    (hpc : (s.ops t).pc = .start (.spawning f)) (hact : t ∈ s.activeOperations)
    (hs : s.spawns s.last = .done (.process pipes)) :
    ∃ o', Inv (s.startPublish t f s.last pipes) o' := by
  have hown := h.lock t (by simp [hpc, Inside])
  have hok := h.ops t
  simp only [OpOk, hpc, StartOk] at hok
  obtain ⟨hsp, hslot, hf, -⟩ := hok
  have hst : s.spawnTask = some s.last := h.sound.place.spawnTask
  dsimp only [State.startPublish]
  rw [if_pos hst]
  cases pipes with
  | false =>
    simp only [Bool.not_false, if_true]
    dsimp only [State.startFailed]
    rw [if_pos (by simp)]
    refine ⟨.handoff t, h.consume hown (by simp [hpc]) (.same rfl) rfl rfl (.same rfl fun _ _ => rfl) (.same rfl) rfl
      rfl rfl (h.sound.consumeBare t hs) (by simp) ?_ (fun _ => ?_) ?_⟩
    · intro u hu e
      cases e
      exact hu rfl
    · rw [hf]
      exact ⟨_, _, rfl⟩
    · refine ⟨hsp, hslot, rfl, by simp, Nat.le_refl _, .inr (.inr ⟨?_, rfl, rfl, rfl⟩)⟩
      rw [hf]
  | true =>
    simp only [Bool.not_true, Bool.false_eq_true, if_false]
    dsimp only [State.startPhase]
    refine ⟨.published s.nextClient, h.consume hown (by simp [hpc]) (.same rfl) rfl rfl
      (.same rfl fun _ _ => rfl) (.same rfl) rfl rfl rfl (h.sound.publish hs) (by simp) (by simp)
      (by simp) ?_⟩
    refine ⟨hsp, hslot, rfl, ?_, ?_, ?_, s.nextClient, rfl, rfl, .inl ⟨rfl, hact⟩⟩
    · rw [hf]
    · rw [hf]
    · rw [hf]

/-- `_await_spawn_phase` has come back. -/
theorem Inv.startAfterSpawn (h : Inv s o) {f : StartFrame}
    (hpc : (s.ops t).pc = .start (.spawning f))
    (hdue : ∀ n, (s.ops t).cancelAt = some n → s.now ≤ n + 1) :
    ∃ o', Inv (s.startAfterSpawn t f s.last (s.ops t).cancelAt.isSome) o' := by
  have hok := h.ops t
  simp only [OpOk, hpc, StartOk] at hok
  obtain ⟨hsp, hslot, hf, hat⟩ := hok
  -- The claim that follows a failure finds the spawn wherever it is.
  have key : ∀ (u : State) failure, Inv u o → u.ops = s.ops →
      u.lifecycleLock = s.lifecycleLock → u.now = s.now →
      Inv (u.startFailed t f failure) o := by
    intro u failure hu hops hlock hnow
    have hok' := hu.ops t
    rw [hops] at hok'
    simp only [OpOk, hpc, StartOk] at hok'
    obtain ⟨hsp', hslot', hf', hat'⟩ := hok'
    refine hu.startFailed (hu.lock t (by simp [hops, hpc, Inside])) (by simp [hops, hpc])
      (by simp [hops, hpc]) (by rw [hops]; exact hsp') hslot' (by rw [hf']; simp) ?_
    refine ⟨Nat.le_refl _, .inl ⟨by rw [hf'], by rw [hf'], by rw [hf'], ?_⟩⟩
    obtain ⟨ho, -⟩ | ⟨ho, n, hn, hm⟩ := hat'
    · exact .inl ho
    · have hdn := hdue n hn
      refine .inr ⟨ho, fun _ => (hm (by rw [hnow]; exact hdn)).mono ?_⟩
      rw [hnow]
      exact Nat.succ_le_succ hdn
  unfold State.startAfterSpawn
  obtain ⟨h1, a1, a2, a3⟩ := h.cancelSpawnOnce s.last
  split
  · exact ⟨o, key _ _ h1 a1 a2 a3⟩
  · rename_i hc
    split
    · exact ⟨o, key _ _ h1 a1 a2 a3⟩
    · exact ⟨o, key _ _ h rfl rfl rfl⟩
    · exact ⟨o, key _ _ h rfl rfl rfl⟩
    · rename_i pipes hs
      obtain ⟨rfl, hact⟩ | ⟨-, n, hn, -⟩ := hat
      · exact h.startPublish hpc hact hs
      · rw [hn] at hc
        exact absurd rfl hc

/-- The next startup phase is created and awaited. -/
theorem Inv.startPhase (h : Inv s o) {f : StartFrame} {kind kind' : Phase} {k : Kid}
    (hpc : (s.ops t).pc = .start (.phase f kind k)) (hc : (s.ops t).cancelAt = none) :
    Inv (s.startPhase t f kind') o := by
  have hok := h.ops t
  simp only [OpOk, hpc, StartOk] at hok
  obtain ⟨h1, h2, h3, h4, h5, h6, c, h7, h8, h9⟩ := hok
  have h' : Inv { s with nextPhase := s.nextPhase + 1
                         phases := Function.update s.phases s.nextPhase .running
                         startupTasks := s.startupTasks ++ [s.nextPhase] } o :=
    h.idle (.same rfl) h.sound rfl (.same rfl fun _ _ => rfl) (.same rfl) (fun _ _ => id) rfl
  refine h'.suspend (fun _ => h.lock t (by simp [hpc, Inside])) (by simp [hpc]) (fun ho => ?_)
    ⟨h1, h2, h3, h4, h5, h6, c, h7, h8, .inl ?_⟩
  · exact absurd ho (h.not_handoff (by simp [hpc]))
  · obtain h9 | ⟨-, n, hn, -⟩ := h9
    · exact h9
    · rw [hc] at hn
      cases hn

/-- `_await_startup_phase` has come back. -/
theorem Inv.startAfterPhase (h : Inv s o) {f : StartFrame} {kind : Phase} {k : Kid}
    (hpc : (s.ops t).pc = .start (.phase f kind k))
    (hdue : ∀ n, (s.ops t).cancelAt = some n → s.now ≤ n + 1) :
    Inv (s.startAfterPhase t f kind k (s.ops t).cancelAt.isSome) o := by
  have key : ∀ (u : State) failure, Inv u o → u.ops = s.ops →
      u.lifecycleLock = s.lifecycleLock → u.now = s.now →
      Inv (u.startFailed t f failure) o := by
    intro u failure hu hops hlock hnow
    have hok := hu.ops t
    rw [hops] at hok
    simp only [OpOk, hpc, StartOk] at hok
    obtain ⟨h1, h2, h3, h4, h5, h6, c, h7, h8, h9⟩ := hok
    refine hu.startFailed (hu.lock t (by simp [hops, hpc, Inside])) (by simp [hops, hpc])
      (by simp [hops, hpc]) (by rw [hops]; exact h1) h2 (by rw [h8]; simp) ?_
    refine ⟨Nat.le_refl _, .inr (.inl ⟨c, h7, h8, h3, ?_⟩)⟩
    obtain ⟨ho, -⟩ | ⟨ho, n, hn, hm⟩ := h9
    · exact .inl ho
    · have hdn := hdue n hn
      refine .inr ⟨ho, fun _ => (hm (by rw [hnow]; exact hdn)).mono ?_⟩
      rw [hnow]
      exact Nat.succ_le_succ hdn
  unfold State.startAfterPhase
  obtain ⟨h1, a1, a2, a3⟩ := h.cancelStartupTaskOnce k
  split
  · exact key _ _ h1 a1 a2 a3
  · rename_i hc
    simp only [Option.not_isSome_iff_eq_none] at hc
    split
    · exact key _ _ h1 a1 a2 a3
    · exact key _ _ h rfl rfl rfl
    · exact key _ _ h rfl rfl rfl
    · split
      · exact h.startPhase hpc hc
      · exact h.startPhase hpc hc
      · exact h.startPhase hpc hc
      · have hok := h.ops t
        simp only [OpOk, hpc, StartOk] at hok
        obtain ⟨h1, h2, h3, h4, h5, h6, c, h7, h8, h9⟩ := hok
        refine h.suspend (fun _ => h.lock t (by simp [hpc, Inside])) (by simp [hpc])
          (fun ho => absurd ho (h.not_handoff (by simp [hpc])))
          ⟨h1, Nat.le_refl _, by simp [h5], h2, Nat.le_refl _, fun _ => ⟨h4, c, h7, h8, ?_⟩⟩
        obtain h9 | ⟨-, n, hn, -⟩ := h9
        · exact .inl h9
        · rw [hc] at hn
          cases hn

/-- The private finalizer releases the start slot. -/
theorem Inv.finalize (h : Inv s o) (hs : s.runFinalize t = some s') : Inv s' o := by
  dsimp only [runFinalize] at hs
  split at hs
  · rename_i f created hpc
    split at hs
    · rename_i hnow
      cases hs
      have hown := h.lock t (by simp [hpc, Inside])
      have hok := h.ops t
      simp only [OpOk, hpc, StartOk] at hok
      obtain ⟨h1, h2, h3, h4, h5, h6⟩ := hok
      have hslot : s.startingGeneration = some f.generation := h4
      -- A start that got here has published its child or handed it over.
      have hne : ∀ u, o ≠ .handoff u := by
        rintro u rfl
        cases hc : f.claimed with
        | true => exact (h3 hc).2
        | false =>
          obtain ⟨-, c, -, -, ⟨h7, -⟩ | ⟨h7, -⟩⟩ := h6 hc
          · cases h7
          · exact h7
      have hlive : o ≠ .live := by
        rintro rfl
        cases hc : f.claimed with
        | true => exact (h3 hc).2
        | false =>
          obtain ⟨-, c, -, -, ⟨h7, -⟩ | ⟨h7, -⟩⟩ := h6 hc
          · cases h7
          · exact h7
      have hfin : s.finalizeStart f.generation = { s with
          starting := false, startingGeneration := none, startUncertainGeneration := none
          startSettled := true } := by
        simp only [finalizeStart, hslot, if_true]
        cases hu : s.startUncertainGeneration with
        | none => simp
        | some g =>
          have := h.uncertain g hu
          rw [hslot] at this
          simp [Option.some.inj this]
      rw [hfin]
      refine h.transfer (t := t) hown h.sound ?_ ?_ ⟨fun _ => hown, ?_, fun e => absurd e (hne t), ?_⟩
      · refine { starting := rfl, settled := rfl, uncertain := by simp [setOp],
                 live := fun e => absurd e hlive,
                 spawned := fun sp hsp => ⟨hsp, fun e => ⟨e, fun hh _ => ⟨hh, rfl⟩⟩⟩,
                 now := Nat.le_refl _, ops := fun u hu => by simp [setOp, hu],
                 active := fun _ _ => id, awaits := fun _ _ => id, lates := rfl, attempts := rfl,
                 nextAttempt := rfl, handoff := fun u _ => hne u }
      · refine h.attempts.transfer rfl rfl rfl rfl (.inr (by simp [hslot])) (.inr rfl)
          (fun a b => ⟨a, b⟩) fun u a m c hu => ?_
        by_cases hut : u = t
        · subst hut
          rw [hpc] at hu
          cases hu
        · simpa [setOp, hut] using hu
      · intro n hn
        exact h.cancelAt t n (by simpa [setOp] using hn)
      · have he : max s.now (s.ops t).since + 3 = created + 4 := by omega
        rw [setOp_self]
        refine ⟨h1, h2, h3, rfl, Nat.le_refl _, fun hc => ⟨(h6 hc).1, ?_⟩⟩
        have := (h6 hc).2
        rw [← he] at this
        exact this
    · cases hs
  · cases hs

theorem issued_of {x : Op} (hn : s'.nextSpawn = s.nextSpawn) (h : s.Issued x) : s'.Issued x := by
  unfold Issued last at h ⊢
  rw [hn]
  exact h

theorem Waiting.retiring (h : Inv s o) {f : StartFrame} {c : Claim}
    (hpc : (s.ops t).pc = .start (.retiring f c)) :
    s.Waiting t (fun c => .start (.retiring f c)) ∧ s.ClaimOk o t c := by
  have hok := h.ops t
  simp only [OpOk, hpc, StartOk] at hok
  obtain ⟨h1, h2, h3, h4, h5⟩ := hok
  refine ⟨⟨fun _ => rfl, h.lock t (by simp [hpc, Inside]), by simp [hpc], ?_⟩, h5⟩
  intro u o' d hl hs hc
  exact ⟨issued_of hl h1, hs.trans h2, h3, h4, hc⟩

theorem Waiting.lateRetiring (h : Inv s o) {f : StartFrame} {c : Claim}
    (hpc : (s.ops t).pc = .start (.lateRetiring f c)) :
    s.Waiting t (fun c => .start (.lateRetiring f c)) ∧ s.ClaimOk o t c := by
  have hok := h.ops t
  simp only [OpOk, hpc, StartOk] at hok
  obtain ⟨h1, h2, h3, h4⟩ := hok
  refine ⟨⟨fun _ => rfl, h.lock t (by simp [hpc, Inside]), by simp [hpc], ?_⟩, h4⟩
  intro u o' d hl hs hc
  exact ⟨issued_of hl h1, hs.trans h2, h3, hc⟩

theorem Inv.stepClaim (h : Inv s o) {c : Claim} {wrap : Claim → OpPc} (hw : s.Waiting t wrap)
    (hc : s.ClaimOk o t c) (hs : s.stepClaim t c wrap = some s') : ∃ o', Inv s' o' := by
  unfold State.stepClaim at hs
  cases hcp : c.pc with
  | pending e =>
    simp only [hcp] at hs
    split at hs
    · rename_i hnow
      cases hs
      exact h.claimPending hw hcp hnow hc
    · cases hs
  | awaiting r j n =>
    simp only [hcp] at hs
    split at hs
    · rename_i b hb
      cases hs
      exact h.claimAwaiting hw hcp hb hc
    · cases hs
  | finished b =>
    simp only [hcp] at hs
    cases hs

theorem Inv.claim (h : Inv s o) (hs : s.runClaim t = some s') : ∃ o', Inv s' o' := by
  unfold runClaim at hs
  split at hs
  · rename_i f c hpc
    obtain ⟨hw, hc⟩ := Waiting.retiring h hpc
    exact h.stepClaim hw hc hs
  · rename_i f c hpc
    obtain ⟨hw, hc⟩ := Waiting.lateRetiring h hpc
    exact h.stepClaim hw hc hs
  · rename_i e c hpc
    have hok := h.ops t
    simp only [OpOk, hpc] at hok
  · cases hs

/-- The start ends by raising, its child handed over. -/
theorem Inv.startRaiseHanded (h : Inv s o) {pc : StartPc} (hpc : (s.ops t).pc = .start pc)
    (hin : Inside (.start pc) = true) (hret : ∀ f c, pc ≠ .retiring f c) (ho : o.Handed)
    (hslot : s.startingGeneration = none) (hsp : s.Issued (s.ops t))
    (failure : Failure) (cancelled : Bool) : Inv (s.startRaise t failure cancelled) o := by
  have hown := h.lock t (by rw [hpc]; exact hin)
  refine h.leave hown (by simp [hpc]) ?_ rfl (by simp) ?_
  · refine h.not_handoff fun f c e => ?_
    rw [hpc] at e
    cases e
    exact hret f c rfl
  · intro sp hs
    rw [hsp.2] at hs
    cases hs
    exact ⟨Nat.sub_lt hsp.1 Nat.one_pos, fun _ => ⟨ho, hslot⟩⟩

/-- The last lines of `_start` after its child has been handed over. -/
theorem Inv.startExit (h : Inv s o) {pc : StartPc} (hpc : (s.ops t).pc = .start pc)
    (hin : Inside (.start pc) = true) (hret : ∀ f c, pc ≠ .retiring f c) (ho : o.Handed)
    (hslot : s.startingGeneration = none) (hsp : s.Issued (s.ops t)) {f : StartFrame}
    (hf : f.cancelled = true ∨ f.failure ≠ none) : Inv (s.startExit t f) o := by
  unfold State.startExit
  split
  · exact h.startRaiseHanded hpc hin hret ho hslot hsp _ _
  · rename_i hc
    split
    · exact h.startRaiseHanded hpc hin hret ho hslot hsp _ _
    · rename_i hnone
      obtain hf | hf := hf
      · exact absurd hf hc
      · exact absurd hnone hf

/-- After the finalizer: return, or retire the child of a late cancellation. -/
theorem Inv.startAfterFinalize (h : Inv s o) {f : StartFrame} {x : Nat}
    (hpc : (s.ops t).pc = .start (.finalizing f (.finished x)))
    (hnow : s.now ≤ max x (s.ops t).since + 2) :
    Inv (s.startAfterFinalize t { f with
      cancelled := f.cancelled || (s.ops t).cancelAt.isSome }) o := by
  have hok := h.ops t
  simp only [OpOk, hpc, StartOk] at hok
  obtain ⟨h1, h2, h3, h4, h5, h6⟩ := hok
  have hown := h.lock t (by simp [hpc, Inside])
  unfold State.startAfterFinalize
  cases hc : f.claimed with
  | true =>
    obtain ⟨h7, h8⟩ := h3 hc
    simp only [Bool.not_true, Bool.false_and, Bool.false_eq_true, if_false]
    exact h.startExit hpc rfl (by simp) h8 h4 h1 (.inr h7)
  | false =>
    obtain ⟨h7, c, h8, h9, h10⟩ := h6 hc
    split
    · rename_i hcond
      simp only [h7, Option.isSome_none, Bool.or_false, Bool.not_false, Bool.true_and,
        Bool.and_eq_true] at hcond
      refine h.suspend (fun _ => hown) (by simp [hpc])
        (fun ho => absurd ho (h.not_handoff (by simp [hpc])))
        ⟨h1, h4, .inl hcond.1, Nat.le_refl _, .inr (.inl ⟨c, h8, h9, rfl, ?_⟩)⟩
      obtain ⟨rfl, -⟩ | ⟨ho, -, hm⟩ := h10
      · exact .inl rfl
      · exact .inr ⟨ho, fun _ => (hm (by omega)).mono (by omega)⟩
    · rename_i hcond
      simp only [h7, h8, Option.isSome_none, Option.isSome_some, Bool.or_false, Bool.not_false,
        Bool.true_and, Bool.true_or, Bool.and_true, Bool.not_eq_true] at hcond
      simp only [State.startExit, h7, hcond, Bool.false_eq_true, if_false]
      exact h.startReturn hown (by simp [hpc]) (by simp [hpc])

/-- The caller of a start is woken before its finalizer has run. -/
theorem Inv.finalizing_suspend (h : Inv s o) {f : StartFrame} {k : Nat}
    (hpc : (s.ops t).pc = .start (.finalizing f (.pending k)))
    (hc : (s.ops t).cancelAt ≠ none) :
    Inv (s.suspend t (.start (.finalizing { f with
      cancelled := f.cancelled || (s.ops t).cancelAt.isSome } (.pending k)))) o := by
  have hok := h.ops t
  simp only [OpOk, hpc, StartOk] at hok
  obtain ⟨h1, h2, h3, h4, h5, h6⟩ := hok
  refine h.suspend (fun _ => h.lock t (by simp [hpc, Inside])) (by simp [hpc])
    (fun ho => absurd ho (h.not_handoff (by simp [hpc])))
    ⟨h1, Nat.le_refl _, h3, h4, h5, fun hcl => ⟨(h6 hcl).1, ?_⟩⟩
  obtain ⟨c, h8, h9, h10 | ⟨h10, -, h12⟩⟩ := (h6 hcl).2
  · exact ⟨c, h8, h9, .inl h10⟩
  · refine ⟨c, h8, h9, .inr ⟨h10, .inl ?_, h12⟩⟩
    simp [Option.isSome_iff_ne_none, hc]

end

end State

end KestrelSdk.Subprocess

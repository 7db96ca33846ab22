import KestrelSdk.Subprocess.Detach

namespace KestrelSdk.Subprocess

open Asyncio

namespace State

open Children

variable {s s' : State} {o : Custody} {t : Tid}

/-- A new stop attempt is created when no other is unfinished. -/
theorem Inv.freshAttempt (h : Inv s o) (hpc : (s.ops t).pc = .idle)
    (hd : ∀ a < s.nextAttempt, ∃ b, (s.attempts a).pc = .done b) :
    Inv { (s.setAttempt s.nextAttempt ⟨.init t, s.now, s.nextSpawn⟩).suspend t
        (.stopping s.nextAttempt s.nextSpawn false) with
      nextAttempt := s.nextAttempt + 1, stopTask := some s.nextAttempt } o := by
  generalize hs' : { (s.setAttempt s.nextAttempt ⟨.init t, s.now, s.nextSpawn⟩).suspend t
        (.stopping s.nextAttempt s.nextSpawn false) with
      nextAttempt := s.nextAttempt + 1, stopTask := some s.nextAttempt } = s'
  have hold : ∀ a < s.nextAttempt, s'.attempts a = s.attempts a := by
    intro a ha
    rw [← hs']
    simp [State.suspend, setOp, State.setAttempt, Nat.ne_of_lt ha]
  have hnew : s'.attempts s.nextAttempt = ⟨.init t, s.now, s.nextSpawn⟩ := by
    rw [← hs']
    simp [State.suspend, setOp, State.setAttempt]
  have hop : s'.ops t = { s.ops t with
      pc := .stopping s.nextAttempt s.nextSpawn false, since := s.now, cancelAt := none } := by
    rw [← hs']
    simp [State.suspend, setOp, State.setAttempt]
  have hn : s'.nextAttempt = s.nextAttempt + 1 := by rw [← hs']
  have hst : s'.stopTask = some s.nextAttempt := by rw [← hs']
  have hsp : s'.nextSpawn = s.nextSpawn := by
    rw [← hs']
    rfl
  have hk : Keeps s s' o o := by
    refine ⟨?_, hsp, ?_, ?_, ?_, id, id, fun _ => rfl, ?_, ?_, fun a ha => ⟨?_, ?_⟩⟩
    · rw [← hs']
      exact Nat.le_refl _
    · rw [← hs']
      rfl
    · rw [← hs']
      exact fun _ _ => id
    · rw [← hs']
      exact fun _ _ _ => id
    · rw [← hs']
      exact fun _ _ => id
    · rw [← hs']
      exact fun _ _ => id
    · rw [hn]
      exact Nat.lt_succ_of_lt ha
    · rw [hold a ha]
  refine h.move (t := t) hk ?_ ?_ ?_ ⟨fun a ha => ?_, fun a ha hnd => ?_, fun a ha => ?_⟩
    ⟨?_, ?_, ?_, ?_⟩
  · rw [← hs']
    exact h.sound
  · rw [← hs']
    exact .same rfl fun u hu => by simp [State.suspend, setOp, State.setAttempt, hu]
  · rw [← hs']
    exact fun u _ => h.lock u
  · rw [hn] at ha
    obtain hlt | rfl := Nat.lt_succ_iff_lt_or_eq.1 ha
    · rw [hold a hlt, hsp]
      refine ⟨(h.attempts.attempt a hlt).1, ?_⟩
      obtain ⟨b, hb⟩ := hd a hlt
      have hok := (h.attempts.attempt a hlt).2
      refine hok.keeps hk (hold a hlt) ?_ ?_
      · rw [← hs']
        exact Nat.le_refl _
      · intro u m c hi
        rw [hb] at hi
        cases hi
    · simp only [AttemptOk, hnew, hsp, Nat.le_refl, true_and]
      exact ⟨s.nextSpawn, false, by rw [hop]⟩
  · rw [hn] at ha
    obtain hlt | rfl := Nat.lt_succ_iff_lt_or_eq.1 ha
    · obtain ⟨b, hb⟩ := hd a hlt
      rw [hold a hlt] at hnd
      exact absurd hb (hnd b)
    · exact hst
  · rw [hst] at ha
    cases ha
    rw [hn, hnew, hsp]
    exact ⟨Nat.lt_succ_self _, rfl⟩
  · simp [hop, Inside]
  · simp [hop]
  · exact fun ho => absurd ho (h.not_handoff (by simp [hpc]))
  · have hok := h.ops t
    simp only [OpOk, hpc] at hok
    rw [hop]
    simp only [OpOk, hn, hnew]
    exact ⟨hok, Nat.lt_succ_self _, Nat.le_refl _⟩

/-- `stop()` joins, reuses or creates an attempt. -/
theorem Inv.stopCall (h : Inv s o) (hpc : (s.ops t).pc = .idle) : Inv (s.stopCall t) o := by
  have hok := h.ops t
  simp only [OpOk, hpc] at hok
  dsimp only [State.stopCall]
  split
  · rename_i hst
    refine h.freshAttempt hpc fun a ha => ?_
    by_contra hnd
    have := h.attempts.unfinished a ha fun b hb => hnd ⟨b, hb⟩
    rw [hst] at this
    cases this
  · rename_i a hst
    obtain ⟨hlt, hmark⟩ := h.attempts.stopTask a hst
    split
    · exact h.endCall (.same rfl) rfl (.same rfl) (.same rfl fun _ _ => rfl) (fun u _ => h.lock u)
        (h.not_handoff (by simp [hpc])) (by simp [hpc])
    · rename_i hres
      refine h.freshAttempt hpc fun b hb => ?_
      by_contra hnd
      have := h.attempts.unfinished b hb fun r hr => hnd ⟨r, hr⟩
      rw [hst] at this
      cases this
      exact hnd ⟨false, attemptResult_eq hres⟩
    · refine h.suspend (by simp [Inside]) (by simp [hpc])
        (fun ho => absurd ho (h.not_handoff (by simp [hpc]))) ?_
      exact ⟨hok, hlt, Nat.le_of_eq hmark.symm⟩

theorem Inv.publicCall (h : Inv s o) (hpc : (s.ops t).pc = .idle) (c : Call) :
    ∃ o', Inv (s.publicCall t c) o' := by
  -- A registered caller enters the lifecycle section with its spawn field clear.
  have hend : ∀ (w : State), Inv w o → (w.ops t).pc = .idle → ∀ e, Inv (w.endCall t e) o := by
    intro w hw hwpc e
    exact hw.endCall (.same rfl) rfl (.same rfl) (.same rfl fun _ _ => rfl) (fun u _ => hw.lock u)
      (hw.not_handoff (by simp [hwpc])) (by simp [hwpc])
  have hfree : ∀ (w : State), Inv w o → (w.ops t).pc = .idle → (w.ops t).spawned = none := by
    intro w hw hwpc
    have := hw.ops t
    simpa only [OpOk, hwpc] using this
  have hreg : ∀ (w w' : State) b, Inv w o → (w.ops t).pc = .idle →
      w.registerOperation t = (w', b) → Inv w' o ∧ (w'.ops t).pc = .idle := by
    intro w w' b hw hwpc he
    have h1 := hw.register t
    have h2 := (register_eq w t).1
    rw [he] at h1 h2
    exact ⟨h1, by rw [h2]; exact hwpc⟩
  have hpart : ∀ (w : State), (w.ops t).pc = .idle → Inv w o → w.Free t := by
    intro w hwpc hw
    exact ⟨hfree w hw hwpc, by simp [hwpc], by simp [hwpc]⟩
  cases c with
  | stop => exact ⟨o, h.stopCall hpc⟩
  | start =>
    dsimp only [State.publicCall]
    split
    · rename_i w he
      obtain ⟨h1, h2⟩ := hreg s w false h hpc he
      exact ⟨o, hend w h1 h2 _⟩
    · rename_i w he
      obtain ⟨h1, h2⟩ := hreg s w true h hpc he
      have hmem := register_mem he
      refine h1.enter h2 rfl ⟨hfree w h1 h2, .inl hmem⟩ fun l hl hown => ?_
      exact hl.startBody (hpart _ h2 hl) hown hmem
  | health =>
    dsimp only [State.publicCall]
    split
    · rename_i w he
      obtain ⟨h1, h2⟩ := hreg s w false h hpc he
      exact ⟨o, hend w h1 h2 _⟩
    · rename_i w he
      obtain ⟨h1, h2⟩ := hreg s w true h hpc he
      refine h1.enter h2 rfl (hfree w h1 h2) fun l hl hown => ?_
      exact ⟨o, hl.healthBody (hpart _ h2 hl) hown⟩
  | transition next =>
    dsimp only [State.publicCall]
    have h0 : Inv { s.setTransition s.nextCall { next } with nextCall := s.nextCall + 1 } o :=
      h.idle (.same rfl) h.sound rfl (.same rfl fun _ _ => rfl) (.same rfl) (fun _ _ => id) rfl
    split
    · rename_i w he
      obtain ⟨h1, h2⟩ := hreg _ w false h0 hpc he
      exact ⟨o, hend w h1 h2 _⟩
    · rename_i w he
      obtain ⟨h1, h2⟩ := hreg _ w true h0 hpc he
      refine h1.enter h2 rfl (hfree w h1 h2) fun l hl hown => ?_
      exact ⟨o, hl.transitionBody (hpart _ h2 hl) hown _ _⟩

/-- A cancelled caller gives up its place in the queue. -/
theorem Inv.leaveQueue (h : Inv s o) (hf : s.Free t) (kind : Kind) :
    Inv (s.leaveQueue t kind) o := by
  dsimp only [State.leaveQueue]
  split
  · rename_i hown
    exact h.leaveFree hf hown rfl (by simp)
  · exact h.suspendFree hf (by simp [Inside]) ⟨rfl, by simp, by simp [hf.spawned]⟩

/-- The handle of a caller inside `start()` runs. -/
theorem Inv.resumeStart (h : Inv s o) {pc : StartPc} {i : Inner} {fence : Bool}
    (hpc : (s.ops t).pc = .start pc) (hr : s.resumable t i = true) :
    ∃ o', Inv (s.resumeOp t i fence) o' := by
  have hok := h.ops t
  simp only [OpOk, hpc] at hok
  have hhand : (∀ f c, pc ≠ .retiring f c) → o ≠ .handoff t := fun hne =>
    h.not_handoff fun f c e => by
      rw [hpc] at e
      exact hne f c (by injection e)
  have hown : Inside (.start pc) = true → s.lifecycleLock.owner = some t := fun hin =>
    h.lock t (by rw [hpc]; exact hin)
  have hdue : ∀ n, (s.ops t).cancelAt = some n → s.now ≤ n + 1 := by
    intro n hn
    cases pc with
    | finalizing f x =>
      cases x <;> simp [resumable, hpc, hn] at hr <;> omega
    | _ => simp [resumable, hpc, hn] at hr <;> omega
  unfold resumeOp
  simp only [hpc]
  cases pc with
  | queued =>
    have hf : s.Free t := ⟨hok.1, by simp [hpc], by simp [hpc]⟩
    simp only
    split
    · exact ⟨o, h.leaveQueue hf _⟩
    · rename_i hc
      simp only [Option.not_isSome_iff_eq_none] at hc
      refine h.startBody hf ?_ ?_
      · simpa [resumable, hpc, hc] using hr
      · simpa [hc] using hok.2
  | terminal r j c =>
    have hf : s.Free t := ⟨hok.1, by simp [hpc], by simp [hpc]⟩
    simp only
    split
    · rename_i b hb
      refine h.startAfterTerminal hf (hown rfl) hok.2.1 hb fun hc => ?_
      simp only [Bool.or_eq_false_iff, Option.isSome_eq_false_iff, Option.isNone_iff_eq_none] at hc
      simpa [hc.1, hc.2] using hok.2.2
    · exact ⟨o, h.suspendFree hf (fun _ => hown rfl) ⟨hok.1, hok.2.1, .inr (.inl rfl)⟩⟩
  | spawning f =>
    have hf := hok.2.2.1
    have hsp : f.spawnTask = some s.last := by rw [hf]
    simp only [hsp]
    exact h.startAfterSpawn hpc hdue
  | phase f kind k => exact ⟨o, h.startAfterPhase hpc hdue⟩
  | retiring f c =>
    obtain ⟨h1, h2, h3, h4, h5⟩ := hok
    simp only
    split
    · rename_i b hb
      simp only [ClaimOk, hb] at h5
      refine ⟨o, h.suspend (fun _ => hown rfl) (by simp [hpc]) (fun ho => ?_)
        ⟨h1, Nat.le_refl _, fun _ => ⟨h4, h5⟩, h2, Nat.le_refl _, by simp [h3]⟩⟩
      rw [ho] at h5
      exact absurd h5 (by simp [Custody.Handed])
    · refine ⟨o, h.suspend (fun _ => hown rfl) (by simp [hpc]) (fun ho => ?_)
        ⟨h1, h2, h3, h4, h5⟩⟩
      obtain ⟨f', e, he⟩ := h.handoff t ho
      rw [hpc] at he
      cases he
      exact ⟨_, _, rfl⟩
  | finalizing f x =>
    cases x with
    | finished x =>
      simp only
      refine ⟨o, h.startAfterFinalize hpc ?_⟩
      simp only [resumable, hpc, Bool.and_eq_true, decide_eq_true_eq] at hr
      exact hr.2
    | pending k =>
      simp only
      refine ⟨o, h.finalizing_suspend hpc ?_⟩
      simp only [resumable, hpc, Bool.and_eq_true, Bool.not_eq_true', Option.isNone_eq_false_iff]
        at hr
      exact Option.isSome_iff_ne_none.1 hr.2
  | lateRetiring f c =>
    obtain ⟨h1, h2, h3, h4⟩ := hok
    have hf : (f.cancelled || (s.ops t).cancelAt.isSome) = true ∨ f.failure ≠ none :=
      h3.imp (fun e => by simp [e]) id
    simp only
    split
    · rename_i b hb
      simp only [ClaimOk, hb] at h4
      refine ⟨o, h.startExit hpc rfl (by simp) h4 h2 h1 ?_⟩
      split
      · exact .inr (by simp)
      · exact hf
    · exact ⟨o, h.suspend (fun _ => hown rfl) (by simp [hpc])
        (fun ho => absurd ho (hhand (by simp))) ⟨h1, h2, hf, h4⟩⟩

/-- The handle of a caller runs from one await to the next. -/
theorem Inv.resume (h : Inv s o) {i : Inner} {fence : Bool} (hr : s.resumable t i = true) :
    ∃ o', Inv (s.resumeOp t i fence) o' := by
  have hok := h.ops t
  cases hpc : (s.ops t).pc with
  | start pc => exact h.resumeStart hpc hr
  | idle => simp [resumable, hpc] at hr
  | finished => simp [resumable, hpc] at hr
  | resultRetiring e c => simp only [OpOk, hpc] at hok
  | healthQueued =>
    simp only [OpOk, hpc] at hok
    have hf : s.Free t := ⟨hok, by simp [hpc], by simp [hpc]⟩
    simp only [resumeOp, hpc]
    split
    · exact ⟨o, h.leaveQueue hf _⟩
    · rename_i hc
      simp only [Option.not_isSome_iff_eq_none] at hc
      exact ⟨o, h.healthBody hf (by simpa [resumable, hpc, hc] using hr)⟩
  | probing c g =>
    simp only [OpOk, hpc] at hok
    simp only [resumeOp, hpc]
    exact ⟨o, h.healthAfter ⟨hok, by simp [hpc], by simp [hpc]⟩
      (h.lock t (by simp [hpc, Inside])) c g i⟩
  | transitionQueued n next =>
    simp only [OpOk, hpc] at hok
    have hf : s.Free t := ⟨hok, by simp [hpc], by simp [hpc]⟩
    simp only [resumeOp, hpc]
    split
    · exact ⟨o, h.leaveQueue hf _⟩
    · rename_i hc
      simp only [Option.not_isSome_iff_eq_none] at hc
      exact ⟨o, h.transitionBody hf (by simpa [resumable, hpc, hc] using hr) n next⟩
  | applying f =>
    simp only [OpOk, hpc] at hok
    simp only [resumeOp, hpc]
    have h' : Inv (s.setClient f.client { s.clients f.client with
        fenced := (s.clients f.client).fenced || fence }) o := h.client rfl id id id
    exact ⟨o, h'.transitionAfter ⟨hok, by simp [setClient, hpc], by simp [setClient, hpc]⟩
      (h.lock t (by simp [hpc, Inside])) f i⟩
  | finishing f retain x =>
    simp only [OpOk, hpc] at hok
    have hf : s.Free t := ⟨hok, by simp [hpc], by simp [hpc]⟩
    have hown := h.lock t (by simp [hpc, Inside])
    simp only [resumeOp, hpc]
    cases x with
    | finished n => exact ⟨o, h.leaveFree hf hown rfl (by simp)⟩
    | pending n => exact ⟨o, h.suspendFree hf (fun _ => hown) hok⟩
  | unregistering e x =>
    simp only [OpOk, hpc] at hok
    simp only [resumeOp, hpc]
    cases x with
    | finished n => exact ⟨o, h.afterUnregister hok.1 (by simp [hpc]) (by simp [hpc])⟩
    | pending n =>
      exact ⟨o, h.suspend (by simp [Inside]) (by simp [hpc])
        (fun ho => absurd ho (h.not_handoff (by simp [hpc]))) hok⟩
  | stopping a mark c =>
    simp only [OpOk, hpc] at hok
    simp only [resumeOp, hpc]
    split
    · rename_i b hb
      exact ⟨o, h.stopReturn hpc (attemptResult_eq hb) _ _⟩
    · refine ⟨o, h.suspend (by simp [Inside]) (fun a' m c' e => ?_)
        (fun ho => absurd ho (h.not_handoff (by simp [hpc]))) hok⟩
      rw [hpc] at e
      cases e
      exact .inl ⟨_, _, rfl⟩

/-- Bookkeeping outside the invariant. -/
theorem Inv.still (h : Inv s o) (hst : Still s s') (hch : s'.children = s.children)
    (hops : s'.ops = s.ops) (ha : Aside s s' 0) (hu : Unstopped s s')
    (hact : s'.activeOperations = s.activeOperations)
    (hlock : s'.lifecycleLock = s.lifecycleLock) : Inv s' o :=
  h.idle (hst.keeps o) (hch ▸ h.sound) hops ha hu (fun u _ hu => by rw [hact]; exact hu)
    (by rw [hlock])

/-- Every action keeps the invariant. -/
theorem Inv.act (h : Inv s o) {a : Action} (hs : s.act a = some s') : ∃ o', Inv s' o' := by
  cases a with
  | tick =>
    cases hs
    exact ⟨o, h.tick⟩
  | call t c =>
    simp only [State.act] at hs
    split at hs
    · rename_i hpc
      cases hs
      exact h.publicCall hpc c
    · cases hs
  | finish t =>
    simp only [State.act] at hs
    split at hs
    · rename_i hpc
      cases hs
      exact ⟨o, h.finish hpc⟩
    · cases hs
  | cancel t =>
    cases hs
    exact ⟨o, h.cancelOp t⟩
  | resume t i fence =>
    simp only [State.act] at hs
    split at hs
    · rename_i hr
      cases hs
      exact h.resume hr
    · cases hs
  | claim t => exact h.claim hs
  | finalize t => exact ⟨o, h.finalize hs⟩
  | finishTransition t => exact ⟨o, h.finishTransition hs⟩
  | unregister t => exact ⟨o, h.unregister hs⟩
  | releaseOperation t =>
    simp only [State.act] at hs
    split at hs
    · cases hs
      exact ⟨o, h.still (.same rfl) rfl rfl (.same rfl fun _ _ => rfl) (.same rfl) rfl rfl⟩
    · cases hs
  | attempt a timedOut => exact h.attempt hs
  | retire j =>
    obtain ⟨rfl, hj⟩ := runRetire_eq hs
    exact ⟨o, h.retire hj⟩
  | spawnDone sp result =>
    simp only [State.act] at hs
    split at hs
    · rename_i hc
      cases hs
      simp only [Bool.and_eq_true, decide_eq_true_eq] at hc
      exact ⟨o, h.spawnDone hc.2 result⟩
    · cases hs
  | spawnCallback sp =>
    simp only [State.act] at hs
    split at hs
    · cases hs
      exact ⟨o, h.spawnCallback sp⟩
    · cases hs
  | late sp => exact h.late_step hs
  | phaseDone k result =>
    simp only [State.act] at hs
    split at hs
    · cases hs
      exact ⟨o, h.still (.same rfl) rfl rfl (.same rfl fun _ _ => rfl) (.same rfl) rfl rfl⟩
    · cases hs
  | phaseCallback k =>
    simp only [State.act] at hs
    split at hs
    · cases hs
      exact ⟨o, h.still (.same rfl) rfl rfl (.same rfl fun _ _ => rfl) (.same rfl) rfl rfl⟩
    · cases hs
  | retiredPhaseCallback r k =>
    simp only [State.act] at hs
    split at hs
    · cases hs
      exact ⟨o, h.soft (finishRetiredStartupTask_soft s r k)⟩
    · cases hs
  | shutdownDone c ok =>
    simp only [State.act] at hs
    split at hs
    · rename_i hc
      cases hs
      exact ⟨o, h.client rfl (by simp [hc]) id id⟩
    · cases hs
  | shutdownCallback r =>
    simp only [State.act] at hs
    split at hs
    · cases hs
      exact ⟨o, h.soft (finishRetiredShutdownTask_soft s r)⟩
    · cases hs
  | closeDone c ok =>
    simp only [State.act] at hs
    split at hs
    · rename_i hc
      cases hs
      exact ⟨o, h.client rfl id (by simp [hc]) (by simp [hc])⟩
    · cases hs
  | closeCallback r =>
    simp only [State.act] at hs
    split at hs
    · rename_i hr
      cases hs
      exact ⟨o, h.closeCallback hr⟩
    · cases hs
  | exit p =>
    simp only [State.act] at hs
    split at hs
    · cases hs
      refine ⟨o, h.process id fun hob => ?_⟩
      simp only [exitObserved, setProcess, Function.update_self] at hob ⊢
      split at hob
      · simp
      · cases hob
    · cases hs
  | waitDone p ok result =>
    simp only [State.act] at hs
    split at hs
    · rename_i hw
      cases hs
      refine ⟨o, h.process (by simp [hw]) fun hob => ?_⟩
      simp [exitObserved, hw] at hob
    · cases hs
  | clientDies c =>
    simp only [State.act] at hs
    split at hs
    · cases hs
      exact ⟨o, h.client rfl id id id⟩
    · cases hs

theorem Inv.step (h : Inv s o) {a : Action} (hs : s.step a = some s') : ∃ o', Inv s' o' := by
  have h' : Inv { s with issued := none, ended := none } o :=
    h.still (.same rfl) rfl rfl (.same rfl fun _ _ => rfl) (.same rfl) rfl rfl
  exact h'.act hs

theorem Inv.init : Inv {} .released where
  sound :=
    { place :=
        { spawnTask := rfl, client := rfl, process := rfl, nodup := List.nodup_nil
          retirements := by simp [children], spawned := by simp, released := by simp [children]
          live := by simp, handoff := by simp, published := by simp, record := by simp }
      earlier := by simp [children]
      client := by simp [children]
      fresh := fun _ _ => rfl
      records := by simp [children]
      tasks := by simp [children] }
  starting := rfl
  settled := rfl
  uncertain := by simp
  live := by simp
  handoff := by simp
  lock := by simp [Inside]
  cancelAt := by simp
  ops := fun _ => rfl
  attempts := ⟨by simp, by simp, by simp⟩
  late := by simp

end State

/-- The invariant holds in every state of every run. -/
theorem Reachable.inv {s : State} (h : Reachable s) : ∃ o, s.Inv o :=
  Machine.Reachable.invariant (m := machine) (p := fun s => ∃ o, s.Inv o)
    ⟨.released, State.Inv.init⟩ (fun _ _ _ ⟨_, h⟩ hs => h.step hs) h

end KestrelSdk.Subprocess

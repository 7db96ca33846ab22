import KestrelSdk.Subprocess.Events

namespace KestrelSdk.Subprocess

open Asyncio

namespace State

open Children

section

variable {s s' : State} {o : Custody} {t : Tid}

@[simp] theorem setOp_self (s : State) (t : Tid) (x : Op) : (s.setOp t x).ops t = x := by
  simp [setOp]

/-- Only the caller in the lifecycle section may be there. -/
theorem Inv.alone (h : Inv s o) (ht : s.lifecycleLock.owner = some t ∨
    s.lifecycleLock.owner = none) {u : Tid} (hu : u ≠ t) : Inside (s.ops u).pc = false := by
  by_contra hin
  have := h.lock u (by simpa using hin)
  obtain ht | ht := ht
  · rw [ht] at this
    exact hu (Option.some.inj this).symm
  · rw [ht] at this
    cases this

theorem Inv.not_handoff (h : Inv s o) (ht : ∀ f c, (s.ops t).pc ≠ .start (.retiring f c)) :
    o ≠ .handoff t := by
  intro ho
  obtain ⟨f, e, hpc⟩ := h.handoff t ho
  exact ht _ _ hpc

/-- The handle of `t` runs up to its next await and touches nothing that is owned. -/
theorem Inv.advance (h : Inv s o) (hst : Still s s') (hch : s'.children = s.children)
    (ha : Aside s s' t) (hu : Unstopped s s')
    (hlock : ∀ u, u ≠ t → Inside (s.ops u).pc = true → s'.lifecycleLock.owner = some u)
    (hstop : ∀ a m c, (s.ops t).pc = .stopping a m c →
      (∃ m' c', (s'.ops t).pc = .stopping a m' c') ∨ ∃ b, (s.attempts a).pc = .done b)
    (hin : Inside (s'.ops t).pc = true → s'.lifecycleLock.owner = some t)
    (hcancel : ∀ n, (s'.ops t).cancelAt = some n → n ≤ s.now)
    (hhand : o = .handoff t → ∃ f e,
      (s'.ops t).pc = .start (.retiring f ⟨none, some s.last, none, .pending e⟩))
    (hact : (∃ pc, (s'.ops t).pc = .start pc) → t ∈ s.activeOperations →
      t ∈ s'.activeOperations)
    (hok : s.OpOk o t (s'.ops t)) : Inv s' o := by
  have hk := hst.keeps o
  refine h.next hk (hch ▸ h.sound) ha hu hlock hstop ⟨hin, fun n hn => ?_, ?_,
    hk.opOk hact hok⟩
  · exact Nat.le_trans (hcancel n hn) hk.now
  · rw [hk.last]
    exact hhand

theorem Inv.suspend (h : Inv s o) {pc : OpPc}
    (hin : Inside pc = true → s.lifecycleLock.owner = some t)
    (hstop : ∀ a m c, (s.ops t).pc = .stopping a m c →
      (∃ m' c', pc = .stopping a m' c') ∨ ∃ b, (s.attempts a).pc = .done b)
    (hhand : o = .handoff t → ∃ f e,
      pc = .start (.retiring f ⟨none, some s.last, none, .pending e⟩))
    (hok : s.OpOk o t { s.ops t with pc, since := s.now, cancelAt := none }) :
    Inv (s.suspend t pc) o := by
  have he : (s.suspend t pc).ops t = { s.ops t with pc, since := s.now, cancelAt := none } := by
    simp [State.suspend, setOp]
  refine h.advance (t := t) (.same rfl) rfl (.same rfl fun u hu => ?_) (.same rfl) (fun u _ => h.lock u) ?_ ?_ ?_ ?_
    (fun _ => id) ?_
  · simp [State.suspend, setOp, hu]
  · rw [he]
    exact hstop
  · rw [he]
    exact hin
  · simp [he]
  · rw [he]
    exact hhand
  · rw [he]
    exact hok

/-- The caller leaves the lifecycle section to unregister. -/
theorem Inv.leave (h : Inv s o) {e : Exit} (hown : s.lifecycleLock.owner = some t)
    (hpc : ∀ a m c, (s.ops t).pc ≠ .stopping a m c) (hhand : o ≠ .handoff t)
    (hs : e.started = none) (hf : e.kind = .start → e.failure ≠ none)
    (hsp : ∀ sp, (s.ops t).spawned = some sp → sp < s.nextSpawn ∧
      (sp = s.last → o.Handed ∧ s.startingGeneration = none)) : Inv (s.leave t e) o := by
  have he : (s.leave t e).ops t = { s.ops t with
      pc := .unregistering e (.pending s.now), since := s.now, cancelAt := none } := by
    simp [State.leave, State.suspend, setOp, releaseLock]
  refine h.advance (t := t) (.same rfl) rfl (.same rfl fun u hu => ?_) (.same rfl) (fun u hu hin => ?_)
    (fun a m c hst => absurd hst (hpc a m c)) ?_ ?_ (fun ho => absurd ho hhand)
    (fun _ => id) ?_
  · simp [State.leave, State.suspend, setOp, releaseLock, hu]
  · rw [h.alone (.inl hown) hu] at hin
    cases hin
  · rw [he]
    simp [Inside]
  · simp [he]
  · rw [he]
    exact ⟨hs, hf, hsp⟩

/-- The public call ends; the caller may have left the lock or the set of operations. -/
theorem Inv.endCall (h : Inv s o) {e : Ended} (hst : Still s s') (hch : s'.children = s.children)
    (hu : Unstopped s s')
    (ha : Aside s s' t)
    (hlock : ∀ u, u ≠ t → Inside (s.ops u).pc = true → s'.lifecycleLock.owner = some u)
    (hhand : o ≠ .handoff t)
    (hstop : ∀ a m c, (s.ops t).pc = .stopping a m c → ∃ b, (s.attempts a).pc = .done b) :
    Inv (s'.endCall t e) o := by
  have he : (s'.endCall t e).ops t = {} := by simp [State.endCall, setOp]
  have hst' : Still s (s'.endCall t e) := ⟨hst.now, hst.nextSpawn, hst.slot, hst.records,
    hst.retireTasks, hst.nextRetireTask, hst.attempts, hst.nextAttempt⟩
  refine h.next (t := t) (hst'.keeps o) ?_
    ⟨ha.starting, ha.settled, ha.uncertain, fun u hu' => ?_, ha.active, ha.lates⟩
    ⟨hu.attempts, hu.nextAttempt, hu.stopTask, hu.nextRecord⟩ hlock
    (fun a m c hpc => .inr (hstop a m c hpc)) ⟨?_, ?_, ?_, ?_⟩
  · exact hch ▸ h.sound
  · simpa [State.endCall, setOp, hu'] using ha.ops u hu'
  · simp [he, Inside]
  · simp [he]
  · exact fun ho => absurd ho hhand
  · simp [he, OpOk]

/-- A cancellation request that is already on its way is kept. -/
theorem OpOk.cancel {op : Op} (n : Nat) (h : s.OpOk o t op) :
    s.OpOk o t { op with cancelAt := some (op.cancelAt.getD n) } := by
  have hpair : ∀ f d, s.PairOk o t op f d →
      s.PairOk o t { op with cancelAt := some (op.cancelAt.getD n) } f d := by
    rintro f d ⟨c, h1, h2, h3 | ⟨h3, -, h5⟩⟩
    · exact ⟨c, h1, h2, .inl h3⟩
    · exact ⟨c, h1, h2, .inr ⟨h3, .inr (by simp), h5⟩⟩
  unfold OpOk at h ⊢
  cases e : op.pc with
  | start pc =>
    simp only [e] at h ⊢
    cases pc with
    | queued => exact ⟨h.1, .inr (by simp)⟩
    | terminal r j c => exact ⟨h.1, h.2.1, .inr (.inr (by simp))⟩
    | spawning f =>
      obtain ⟨h1, h2, h3, h4 | ⟨h4, m, h5, h6⟩⟩ := h
      · exact ⟨h1, h2, h3, .inl h4⟩
      · exact ⟨h1, h2, h3, .inr ⟨h4, m, by simp [h5], h6⟩⟩
    | phase f kind k =>
      obtain ⟨h1, h2, h3, h4, h5, h6, c, h7, h8, h9 | ⟨h9, m, h10, h11⟩⟩ := h
      · exact ⟨h1, h2, h3, h4, h5, h6, c, h7, h8, .inl h9⟩
      · exact ⟨h1, h2, h3, h4, h5, h6, c, h7, h8, .inr ⟨h9, m, by simp [h10], h11⟩⟩
    | finalizing f x =>
      obtain ⟨h1, h2, h3, h4⟩ := h
      refine ⟨h1, h2, h3, ?_⟩
      cases x with
      | pending k => exact ⟨h4.1, h4.2.1, fun hc => ⟨(h4.2.2 hc).1, hpair _ _ (h4.2.2 hc).2⟩⟩
      | finished x => exact ⟨h4.1, h4.2.1, fun hc => ⟨(h4.2.2 hc).1, hpair _ _ (h4.2.2 hc).2⟩⟩
    | _ => exact h
  | resultRetiring x c => simp only [e] at h
  | _ =>
    simp only [e] at h ⊢
    exact h

theorem Inv.cancelOp (h : Inv s o) (t : Tid) : Inv (s.cancelOp t) o := by
  unfold State.cancelOp
  split
  · exact h
  · exact h
  · refine h.advance (t := t) (.same rfl) rfl (.same rfl fun u hu => ?_) (.same rfl) (fun u _ => h.lock u) ?_ ?_ ?_
      ?_ (fun _ => id) ?_
    · simp [setOp, hu]
    · intro a m c hpc
      exact .inl ⟨m, c, by simpa [setOp] using hpc⟩
    · intro hin
      exact h.lock t (by simpa [setOp] using hin)
    · intro n hn
      have hn' : (s.ops t).cancelAt.getD s.now = n := by simpa [setOp] using hn
      cases e : (s.ops t).cancelAt with
      | none =>
        rw [e] at hn'
        exact Nat.le_of_eq hn'.symm
      | some m =>
        rw [e] at hn'
        exact hn' ▸ h.cancelAt t m e
    · intro ho
      simpa [setOp] using h.handoff t ho
    · simpa [setOp] using (h.ops t).cancel s.now

theorem Inv.finish (h : Inv s o) (ht : (s.ops t).pc = .idle) :
    Inv (s.setOp t { pc := .finished }) o := by
  refine h.advance (t := t) (.same rfl) rfl (.same rfl fun u hu => ?_) (.same rfl) (fun u _ => h.lock u) ?_ ?_ ?_ ?_
    (fun _ => id) ?_
  · simp [setOp, hu]
  · simp [ht]
  · simp [Inside]
  · simp
  · exact fun ho => absurd ho (h.not_handoff (by simp [ht]))
  · simp [OpOk]

theorem Inv.unregister (h : Inv s o) (hs : s.runUnregister t = some s') : Inv s' o := by
  dsimp only [runUnregister] at hs
  split at hs
  · rename_i e created hpc
    split at hs
    · cases hs
      have hok := h.ops t
      simp only [OpOk, hpc] at hok
      refine h.advance (t := t) (.same rfl) rfl
        ⟨rfl, rfl, rfl, fun u hu => ?_, ?_, fun _ _ _ _ => .inl⟩ (.same rfl) (fun u _ => h.lock u) (by simp [hpc]) ?_ ?_ ?_ ?_ ?_
      · simp [setOp, unregisterOperation, hu]
      · intro u hu _ hmem
        simpa [setOp, unregisterOperation, hu] using hmem
      · simp [setOp, Inside]
      · intro n hn
        exact h.cancelAt t n (by simpa [setOp] using hn)
      · exact fun ho => absurd ho (h.not_handoff (by simp [hpc]))
      · rintro ⟨pc, hpc'⟩
        simp [setOp] at hpc'
      · simpa [OpOk, setOp] using hok
    · cases hs
  · cases hs

/-- A caller that has issued no spawn and is not inside a claim or a stop. -/
structure Free (s : State) (t : Tid) : Prop where
  spawned : (s.ops t).spawned = none
  stopping : ∀ a m c, (s.ops t).pc ≠ .stopping a m c
  retiring : ∀ f c, (s.ops t).pc ≠ .start (.retiring f c)

theorem Inv.leaveFree (h : Inv s o) (hf : s.Free t) {e : Exit}
    (hown : s.lifecycleLock.owner = some t) (hs : e.started = none)
    (he : e.kind = .start → e.failure ≠ none) : Inv (s.leave t e) o :=
  h.leave hown hf.stopping (h.not_handoff hf.retiring) hs he (by simp [hf.spawned])

/-- A free caller suspends at an await that claims nothing. -/
theorem Inv.suspendFree (h : Inv s o) (hf : s.Free t) {pc : OpPc}
    (hin : Inside pc = true → s.lifecycleLock.owner = some t)
    (hok : s.OpOk o t { s.ops t with pc, since := s.now, cancelAt := none }) :
    Inv (s.suspend t pc) o :=
  h.suspend hin (fun a m c hpc => absurd hpc (hf.stopping a m c))
    (fun ho => absurd ho (h.not_handoff hf.retiring)) hok

theorem Inv.healthBody (h : Inv s o) (hf : s.Free t) (hown : s.lifecycleLock.owner = some t) :
    Inv (s.healthBody t) o := by
  unfold State.healthBody
  split
  · exact h.leaveFree hf hown rfl (by simp)
  · exact h.suspendFree hf (fun _ => hown) hf.spawned

theorem Inv.healthAfter (h : Inv s o) (hf : s.Free t) (hown : s.lifecycleLock.owner = some t)
    (c : Cid) (g : Nat) (i : Inner) : Inv (s.healthAfter t c g i) o := by
  unfold State.healthAfter
  split
  · exact h.leaveFree hf hown rfl (by simp)
  · exact h.leaveFree hf hown rfl (by simp)
  · split
    · exact h.leaveFree hf hown rfl (by simp)
    · exact h.leaveFree hf hown rfl (by simp)

theorem Inv.setTransition (h : Inv s o) (n : Nat) (x : TransitionLog) :
    Inv (s.setTransition n x) o :=
  h.idle (.same rfl) h.sound rfl (.same rfl fun _ _ => rfl) (.same rfl) (fun _ _ => id) rfl

theorem Inv.transitionBody (h : Inv s o) (hf : s.Free t) (hown : s.lifecycleLock.owner = some t)
    (n : Nat) (next : Cfg) : Inv (s.transitionBody t n next) o := by
  unfold State.transitionBody
  split
  · exact h.leaveFree hf hown rfl (by simp)
  · rename_i c g _
    have h' := h.setTransition n { s.transitions n with alreadyFenced := (s.clients c).fenced }
    have hf' : (s.setTransition n { s.transitions n with
      alreadyFenced := (s.clients c).fenced }).Free t := ⟨hf.spawned, hf.stopping, hf.retiring⟩
    dsimp only
    split
    · exact h'.suspendFree hf' (fun _ => hown) hf.spawned
    · split
      · exact h'.leaveFree hf' hown rfl (by simp)
      · have h'' : Inv { s.setTransition n { s.transitions n with
            alreadyFenced := (s.clients c).fenced } with
            pendingTransition := some ⟨n, s.config, next⟩ } o :=
          h'.idle (.same rfl) h'.sound rfl (.same rfl fun _ _ => rfl) (.same rfl) (fun _ _ => id) rfl
        exact h''.suspendFree ⟨hf.spawned, hf.stopping, hf.retiring⟩ (fun _ => hown) hf.spawned

theorem Inv.transitionAfter (h : Inv s o) (hf : s.Free t) (hown : s.lifecycleLock.owner = some t)
    (f : TransitionFrame) (i : Inner) : Inv (s.transitionAfter t f i) o := by
  dsimp only [State.transitionAfter]
  have h' := h.setTransition f.call { s.transitions f.call with
    returned := i = .returned
    newlyFenced := i ≠ .returned && (!f.wasReplacementRequired && (s.clients f.client).fenced) }
  split
  · exact h'.leaveFree ⟨hf.spawned, hf.stopping, hf.retiring⟩ hown rfl (by simp)
  · exact h'.suspendFree ⟨hf.spawned, hf.stopping, hf.retiring⟩ (fun _ => hown) hf.spawned

theorem finishTransition_eq (s : State) (p : Pending) (retain : Bool) : ∃ config pending log,
    s.finishTransition p retain =
      { s with config := config, pendingTransition := pending, transitions := log } := by
  dsimp only [State.finishTransition]
  split
  · cases retain
    · exact ⟨_, _, _, rfl⟩
    · exact ⟨_, _, _, rfl⟩
  · exact ⟨s.config, s.pendingTransition, s.transitions, rfl⟩

/-- A private task of `t` reports back: only the program counter of `t` changes. -/
theorem Inv.setPc (h : Inv s o) {pc : OpPc}
    (hin : Inside pc = true → s.lifecycleLock.owner = some t)
    (hstop : ∀ a m c, (s.ops t).pc ≠ .stopping a m c)
    (hhand : o = .handoff t → ∃ f e,
      pc = .start (.retiring f ⟨none, some s.last, none, .pending e⟩))
    (hok : s.OpOk o t { s.ops t with pc }) : Inv (s.setOp t { s.ops t with pc }) o := by
  have he : (s.setOp t { s.ops t with pc }).ops t = { s.ops t with pc } := by simp [setOp]
  refine h.advance (t := t) (.same rfl) rfl (.same rfl fun u hu => ?_) (.same rfl) (fun u _ => h.lock u)
    (fun a m c hpc => absurd hpc (hstop a m c)) ?_ ?_ ?_ (fun _ => id) ?_
  · simp [setOp, hu]
  · rw [he]
    exact hin
  · rw [he]
    exact h.cancelAt t
  · rw [he]
    exact hhand
  · rw [he]
    exact hok

theorem Inv.finishTransition (h : Inv s o) (hs : s.runFinishTransition t = some s') :
    Inv s' o := by
  dsimp only [runFinishTransition] at hs
  split at hs
  · rename_i f retain created hpc
    split at hs
    · cases hs
      have hok := h.ops t
      simp only [OpOk, hpc] at hok
      have key : ∀ config pending log, Inv (State.setOp
          { s with config := config, pendingTransition := pending, transitions := log } t
          { s.ops t with pc := .finishing f retain (.finished s.now) }) o := by
        intro config pending log
        have h1 : Inv { s with config := config, pendingTransition := pending,
                               transitions := log } o :=
          h.idle (.same rfl) h.sound rfl (.same rfl fun _ _ => rfl) (.same rfl) (fun _ _ => id) rfl
        refine h1.setPc (fun _ => h.lock t (by simp [hpc, Inside])) (by simp [hpc])
          (fun ho => ?_) hok
        exact absurd ho (h.not_handoff (by simp [hpc]))
      cases f.pending with
      | none => exact key s.config s.pendingTransition s.transitions
      | some p =>
        obtain ⟨config, pending, log, heq⟩ := finishTransition_eq s p retain
        simp only [heq]
        exact key config pending log
    · cases hs
  · cases hs

theorem attemptResult_eq {a : Aid} {b : Bool} (h : s.attemptResult a = some b) :
    (s.attempts a).pc = .done b := by
  unfold attemptResult at h
  split at h
  · rename_i b' e
    rw [e, Option.some.inj h]
  · cases h

theorem attemptResult_none {a : Aid} (h : s.attemptResult a = none) (b : Bool) :
    (s.attempts a).pc ≠ .done b := by
  intro e
  simp [attemptResult, e] at h

/-- The public call ends after the caller has unregistered. -/
theorem Inv.afterUnregister (h : Inv s o) {e : Exit} (hs : e.started = none)
    (hstop : ∀ a m c, (s.ops t).pc ≠ .stopping a m c)
    (hhand : ∀ f c, (s.ops t).pc ≠ .start (.retiring f c)) : Inv (s.afterUnregister t e) o := by
  have key : ∀ x : Ended, Inv (s.endCall t x) o := fun x =>
    h.endCall (.same rfl) rfl (.same rfl) (.same rfl fun _ _ => rfl) (fun u _ => h.lock u) (h.not_handoff hhand)
      (fun a m c hpc => absurd hpc (hstop a m c))
  unfold State.afterUnregister finishCall
  simp only [hs]
  cases e.kind with
  | start => exact key _
  | health => exact key _
  | transition n => exact key _

theorem Inv.stopReturn (h : Inv s o) {a : Aid} {m mark : Nat} {c : Bool} {b : Bool}
    (hpc : (s.ops t).pc = .stopping a m c) (hd : (s.attempts a).pc = .done b)
    (cancelled retired : Bool) : Inv (s.stopReturn t mark cancelled retired) o := by
  refine h.endCall (.same rfl) rfl (.same rfl) (.same rfl fun _ _ => rfl) (fun u _ => h.lock u)
    (h.not_handoff (by simp [hpc])) fun a' m' c' hpc' => ?_
  rw [hpc] at hpc'
  cases hpc'
  exact ⟨b, hd⟩

theorem Inv.prune (h : Inv s o) : Inv s.pruneCompletedOperationsLocked o := by
  have hact : ∀ u, (s.ops u).pc ≠ .finished → u ∈ s.activeOperations →
      u ∈ s.pruneCompletedOperationsLocked.activeOperations := by
    intro u hu hmem
    simp [pruneCompletedOperationsLocked, opDone, hu, hmem]
  exact h.idle (.same rfl) h.sound rfl
    ⟨rfl, rfl, rfl, fun _ _ => rfl, fun u _ => hact u, fun _ _ _ _ => .inl⟩ (.same rfl) hact rfl

theorem register_eq (s : State) (t : Tid) :
    (s.registerOperation t).1.ops = s.ops ∧
      (s.registerOperation t).1.lifecycleLock = s.lifecycleLock ∧
      (s.registerOperation t).1.nextCall = s.nextCall := by
  dsimp only [registerOperation]
  split
  · exact ⟨rfl, rfl, rfl⟩
  · split
    · exact ⟨rfl, rfl, rfl⟩
    · exact ⟨rfl, rfl, rfl⟩

theorem Inv.register (h : Inv s o) (t : Tid) : Inv (s.registerOperation t).1 o := by
  dsimp only [registerOperation]
  split
  · exact h.prune
  · split
    · exact h.prune
    · have hact : ∀ u, u ∈ s.pruneCompletedOperationsLocked.activeOperations →
          u ∈ t :: s.pruneCompletedOperationsLocked.activeOperations :=
        fun u hu => List.mem_cons_of_mem t hu
      exact h.prune.idle (.same rfl) h.prune.sound rfl
        ⟨rfl, rfl, rfl, fun _ _ => rfl, fun u _ _ => hact u, fun _ _ _ _ => .inl⟩ (.same rfl)
        (fun u _ => hact u) rfl

theorem register_mem {s' : State} (h : s.registerOperation t = (s', true)) :
    t ∈ s'.activeOperations := by
  dsimp only [registerOperation] at h
  split at h
  · cases h
  · cases h
    split
    · assumption
    · simp

/-- A free lifecycle lock goes to the caller. -/
theorem Inv.acquire (h : Inv s o) (hpc : (s.ops t).pc = .idle) {l : FifoLock}
    (hl : s.lifecycleLock.acquire t = (l, true)) :
    Inv { s with lifecycleLock := l } o ∧ l.owner = some t := by
  obtain ⟨h1, h2⟩ := FifoLock.acquire_owner hl
  refine ⟨?_, h1⟩
  refine h.next (t := t) (.same rfl) h.sound (.same rfl fun _ _ => rfl) (.same rfl) (fun u hu hin => ?_)
    (by simp [hpc]) ⟨?_, ?_, ?_, ?_⟩
  · rw [h.alone (.inr h2) hu] at hin
    cases hin
  · simp [hpc, Inside]
  · exact h.cancelAt t
  · exact fun ho => absurd ho (h.not_handoff (by simp [hpc]))
  · exact h.ops t

/-- The lifecycle lock is taken, or the caller queues for it. -/
theorem Inv.enter (h : Inv s o) (hpc : (s.ops t).pc = .idle) {queued : OpPc}
    {body : State → State} (hq : Inside queued = false)
    (hok : s.OpOk o t { s.ops t with pc := queued, since := s.now, cancelAt := none })
    (hbody : ∀ l, Inv { s with lifecycleLock := l } o → l.owner = some t →
      ∃ o', Inv (body { s with lifecycleLock := l }) o') :
    ∃ o', Inv (s.enter t queued body) o' := by
  unfold State.enter
  cases hl : s.lifecycleLock.acquire t with
  | mk l b =>
    cases b with
    | true =>
      obtain ⟨h1, h2⟩ := h.acquire hpc hl
      exact hbody l h1 h2
    | false =>
      obtain ⟨h1, -⟩ := FifoLock.acquire_queued hl
      have h' : Inv { s with lifecycleLock := l } o :=
        h.idle (.same rfl) h.sound rfl (.same rfl fun _ _ => rfl) (.same rfl) (fun _ _ => id) h1
      refine ⟨o, h'.suspend (by simp [hq]) (by simp [hpc]) (fun ho => ?_) hok⟩
      exact absurd ho (h.not_handoff (by simp [hpc]))

end

end State

end KestrelSdk.Subprocess

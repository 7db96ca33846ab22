import KestrelSdk.Subprocess.Ownership
import KestrelSdk.Subprocess.StopEffects

namespace KestrelSdk.Subprocess

open Asyncio

namespace State

open Children

variable {s s' : State} {o : Custody} {t : Tid}

theorem finishCall_ledger (h : s.gear.Ledger) (hnf : (s.ops t).pc ≠ .finished) (e : Exit) :
    (s.finishCall t e).gear.Ledger := by
  dsimp only [finishCall]
  split <;> exact endCall_ledger h hnf _

theorem afterUnregister_ledger (h : s.gear.Ledger) (hnf : (s.ops t).pc ≠ .finished) (e : Exit) :
    (s.afterUnregister t e).gear.Ledger := by
  unfold afterUnregister
  split
  · split
    · exact suspend_ledger h hnf (by simp)
    · exact finishCall_ledger h hnf e
  · exact finishCall_ledger h hnf e

theorem leaveQueue_ledger (h : s.gear.Ledger) (hnf : (s.ops t).pc ≠ .finished) (kind : Kind) :
    (s.leaveQueue t kind).gear.Ledger := by
  dsimp only [leaveQueue]
  split
  · exact leave_ledger h hnf _
  · exact suspend_ledger h hnf (by simp)

theorem healthBody_ledger (h : s.gear.Ledger) (hnf : (s.ops t).pc ≠ .finished) :
    (s.healthBody t).gear.Ledger := by
  unfold healthBody
  split
  · exact leave_ledger h hnf _
  · exact suspend_ledger h hnf (by simp)

theorem healthAfter_ledger (h : s.gear.Ledger) (hnf : (s.ops t).pc ≠ .finished) (c : Cid) (g : Nat)
    (i : Inner) : (s.healthAfter t c g i).gear.Ledger := by
  unfold healthAfter
  split
  · exact leave_ledger h hnf _
  · exact leave_ledger h hnf _
  · split <;> exact leave_ledger h hnf _

theorem transitionBody_ledger (h : s.gear.Ledger) (hnf : (s.ops t).pc ≠ .finished) (n : Nat)
    (next : Cfg) : (s.transitionBody t n next).gear.Ledger := by
  dsimp only [transitionBody]
  split
  · exact leave_ledger h hnf _
  · rename_i c g _
    have h' : (s.setTransition n
        { s.transitions n with alreadyFenced := (s.clients c).fenced }).gear.Ledger := h
    have hnf' : ((s.setTransition n
        { s.transitions n with alreadyFenced := (s.clients c).fenced }).ops t).pc ≠ .finished := hnf
    generalize s.setTransition n { s.transitions n with alreadyFenced := (s.clients c).fenced } = w
      at h' hnf'
    split
    · exact suspend_ledger h' hnf' (by simp)
    · split
      · exact leave_ledger h' hnf' _
      · exact suspend_ledger (s := { w with pendingTransition := _ }) h' hnf' (by simp)

theorem transitionAfter_ledger (h : s.gear.Ledger) (hnf : (s.ops t).pc ≠ .finished)
    (f : TransitionFrame) (i : Inner) : (s.transitionAfter t f i).gear.Ledger := by
  dsimp only [transitionAfter]
  split
  · exact leave_ledger (s := s.setTransition _ _) h hnf _
  · exact suspend_ledger (s := s.setTransition _ _) h hnf (by simp)

/-- A client changes without losing what its jobs have reached. -/
theorem setClient_ledger (h : s.gear.Ledger) {c : Cid} {x : Client}
    (hp : x.process = (s.clients c).process)
    (hs : (s.clients c).shutdown ≠ .absent → x.shutdown ≠ .absent)
    (hc : (s.clients c).close ≠ .absent → x.close ≠ .absent)
    (hf : s.nextClient ≤ c → x.shutdown = (s.clients c).shutdown ∧ x.close = (s.clients c).close) :
    (s.setClient c x).gear.Ledger := by
  refine h.grow { Gear.Grows.refl s.gear with
                  clients := fun d => ?_, fresh := fun d hd => ⟨hd, ?_⟩
                  atop := Gear.over_same s.gear fun d => ?_ }
  all_goals
    by_cases hdc : d = c
    · subst hdc
      simp only [gear, setClient, Function.update_self]
      first
        | exact ⟨hs, hc⟩
        | exact hf hd
        | exact hp
    · simp [gear, setClient, hdc]

/-- A process changes without forgetting that it was waited for. -/
theorem setProcess_ledger (h : s.gear.Ledger) {p : Sid} {x : Process}
    (hw : (s.processes p).wait ≠ .absent → x.wait ≠ .absent) :
    (s.setProcess p x).gear.Ledger := by
  refine h.grow { Gear.Grows.refl s.gear with wait := fun q => ?_ }
  by_cases hqp : q = p
  · subst hqp
    simpa [gear, setProcess] using hw
  · simp [gear, setProcess, hqp]

/-- A caller enters the lifecycle section, or queues for it. -/
theorem enter_ledger (h : s.gear.Ledger) (hnf : (s.ops t).pc ≠ .finished) {queued : OpPc}
    (hq : queued ≠ .finished) {body : State → State}
    (hb : ∀ l, (s.lifecycleLock.acquire t) = (l, true) →
      (body { s with lifecycleLock := l }).gear.Ledger) :
    (s.enter t queued body).gear.Ledger := by
  unfold enter
  split
  · rename_i l he
    exact hb l he
  · exact suspend_ledger (s := { s with lifecycleLock := _ }) h hnf hq

theorem publicCall_ledger (h : s.gear.Ledger) (hi : Inv s o) (hpc : (s.ops t).pc = .idle)
    (c : Call) : (s.publicCall t c).gear.Ledger := by
  have hreg : ∀ (w w' : State) b, Inv w o → w.gear.Ledger → (w.ops t).pc = .idle →
      w.registerOperation t = (w', b) → Inv w' o ∧ w'.gear.Ledger ∧ (w'.ops t).pc = .idle := by
    intro w w' b hw hl hwpc he
    have h1 := hw.register t
    have h2 := register_ledger hl t
    have h3 := (register_eq w t).1
    rw [he] at h1 h2 h3
    exact ⟨h1, h2, by rw [h3]; exact hwpc⟩
  cases c with
  | stop =>
    simp only [publicCall]
    dsimp only [stopCall]
    split
    · exact suspend_ledger (s := s.setAttempt _ _) h (by simp [setAttempt, hpc]) (by simp)
    · split
      · exact endCall_ledger h (by simp [hpc]) _
      · exact suspend_ledger (s := s.setAttempt _ _) h (by simp [setAttempt, hpc]) (by simp)
      · exact suspend_ledger h (by simp [hpc]) (by simp)
  | start =>
    dsimp only [publicCall]
    split
    · rename_i w he
      obtain ⟨-, h1, h2⟩ := hreg s w false hi h hpc he
      exact endCall_ledger h1 (by simp [h2]) _
    · rename_i w he
      obtain ⟨h0, h1, h2⟩ := hreg s w true hi h hpc he
      refine enter_ledger h1 (by simp [h2]) (by simp) fun l hl => ?_
      exact startBody_ledger (s := { w with lifecycleLock := l }) h1 (h0.acquire h2 hl).1
        (by simp [h2])
  | health =>
    dsimp only [publicCall]
    split
    · rename_i w he
      obtain ⟨-, h1, h2⟩ := hreg s w false hi h hpc he
      exact endCall_ledger h1 (by simp [h2]) _
    · rename_i w he
      obtain ⟨-, h1, h2⟩ := hreg s w true hi h hpc he
      refine enter_ledger h1 (by simp [h2]) (by simp) fun l _ => ?_
      exact healthBody_ledger (s := { w with lifecycleLock := l }) h1 (by simp [h2])
  | transition next =>
    dsimp only [publicCall]
    have h0 : Inv { s.setTransition s.nextCall { next } with nextCall := s.nextCall + 1 } o :=
      hi.idle (.same rfl) hi.sound rfl (.same rfl fun _ _ => rfl) (.same rfl) (fun _ _ => id) rfl
    split
    · rename_i w he
      obtain ⟨-, h1, h2⟩ := hreg _ w false h0 h hpc he
      exact endCall_ledger h1 (by simp [h2]) _
    · rename_i w he
      obtain ⟨-, h1, h2⟩ := hreg _ w true h0 h hpc he
      refine enter_ledger h1 (by simp [h2]) (by simp) fun l _ => ?_
      exact transitionBody_ledger (s := { w with lifecycleLock := l }) h1 (by simp [h2]) _ _

theorem resumeStart_ledger (h : s.gear.Ledger) (hi : Inv s o) {pc : StartPc} {i : Inner}
    {fence : Bool} (hpc : (s.ops t).pc = .start pc) : (s.resumeOp t i fence).gear.Ledger := by
  have hok := hi.ops t
  simp only [OpOk, hpc] at hok
  have hnf : (s.ops t).pc ≠ .finished := by simp [hpc]
  unfold resumeOp
  simp only [hpc]
  cases pc with
  | queued =>
    simp only
    split
    · exact leaveQueue_ledger h hnf _
    · exact startBody_ledger h hi hnf
  | terminal r j c =>
    simp only
    split
    · rename_i b hb
      exact startAfterTerminal_ledger h hi hnf hok.2.1 hb
    · exact suspend_ledger h hnf (by simp)
  | spawning f =>
    obtain ⟨-, -, hf, hat⟩ := hok
    have hsp : f.spawnTask = some s.last := by rw [hf]
    simp only [hsp]
    refine startAfterSpawn_ledger h hi hnf f fun hc d hd he => ?_
    obtain ⟨rfl, -⟩ | ⟨-, n, hn, -⟩ := hat
    · exact (hi.sound.place.live rfl).2 d ⟨hd, he⟩
    · simp [hn] at hc
  | phase f kind k => exact startAfterPhase_ledger h hi hnf f kind k _
  | retiring f c =>
    simp only
    split
    · exact startFinalize_ledger h hnf _
    · exact suspend_ledger h hnf (by simp)
  | finalizing f x =>
    simp only
    split
    · exact startAfterFinalize_ledger h hnf _
    · exact suspend_ledger h hnf (by simp)
  | lateRetiring f c =>
    simp only
    split
    · exact startExit_ledger h hnf _
    · exact suspend_ledger h hnf (by simp)

theorem resume_ledger (h : s.gear.Ledger) (hi : Inv s o) {i : Inner} {fence : Bool}
    (hr : s.resumable t i = true) : (s.resumeOp t i fence).gear.Ledger := by
  cases hpc : (s.ops t).pc with
  | start pc => exact resumeStart_ledger h hi hpc
  | idle => simp [resumable, hpc] at hr
  | finished => simp [resumable, hpc] at hr
  | resultRetiring e c =>
    have hok := hi.ops t
    simp only [OpOk, hpc] at hok
  | healthQueued =>
    simp only [resumeOp, hpc]
    split
    · exact leaveQueue_ledger h (by simp [hpc]) _
    · exact healthBody_ledger h (by simp [hpc])
  | probing c g =>
    simp only [resumeOp, hpc]
    exact healthAfter_ledger h (by simp [hpc]) c g i
  | transitionQueued n next =>
    simp only [resumeOp, hpc]
    split
    · exact leaveQueue_ledger h (by simp [hpc]) _
    · exact transitionBody_ledger h (by simp [hpc]) n next
  | applying f =>
    simp only [resumeOp, hpc]
    refine transitionAfter_ledger (s := s.setClient _ _) ?_ (by simp [setClient, hpc]) f i
    exact setClient_ledger h rfl id id fun _ => ⟨rfl, rfl⟩
  | finishing f retain x =>
    simp only [resumeOp, hpc]
    split
    · exact leave_ledger h (by simp [hpc]) _
    · exact suspend_ledger h (by simp [hpc]) (by simp)
  | unregistering e x =>
    simp only [resumeOp, hpc]
    split
    · exact afterUnregister_ledger h (by simp [hpc]) _
    · exact suspend_ledger h (by simp [hpc]) (by simp)
  | stopping a mark c =>
    simp only [resumeOp, hpc]
    split
    · exact endCall_ledger h (by simp [hpc]) _
    · exact suspend_ledger h (by simp [hpc]) (by simp)

theorem unregister_ledger (h : s.gear.Ledger) (hs : s.runUnregister t = some s') :
    s'.gear.Ledger := by
  unfold runUnregister at hs
  split at hs
  · rename_i e n hpc
    split at hs
    · cases hs
      refine setPc_ledger (s := s.unregisterOperation t) ?_ (by simp [unregisterOperation, hpc])
        (by simp)
      exact h.grow { Gear.Grows.refl s.gear with active := List.filter_sublist }
    · cases hs
  · cases hs

theorem finalize_ledger (h : s.gear.Ledger) (hs : s.runFinalize t = some s') : s'.gear.Ledger := by
  unfold runFinalize at hs
  split at hs
  · rename_i f n hpc
    split at hs
    · cases hs
      have hg : (s.finalizeStart f.generation).gear = s.gear ∧
          (s.finalizeStart f.generation).ops = s.ops := by
        unfold finalizeStart
        split <;> exact ⟨rfl, rfl⟩
      exact setPc_ledger (by rw [hg.1]; exact h) (by simp [hg.2, hpc]) (by simp)
    · cases hs
  · cases hs

theorem finishTransition_ledger (h : s.gear.Ledger) (hs : s.runFinishTransition t = some s') :
    s'.gear.Ledger := by
  unfold runFinishTransition at hs
  split at hs
  · rename_i f retain n hpc
    split at hs
    · have hg : ∀ p, (s.finishTransition p retain).gear = s.gear ∧
          (s.finishTransition p retain).ops = s.ops := by
        intro p
        dsimp only [State.finishTransition]
        split
        · split <;> exact ⟨rfl, rfl⟩
        · exact ⟨rfl, rfl⟩
      cases hs
      split
      · exact setPc_ledger (by rw [(hg _).1]; exact h) (by simp [(hg _).2, hpc]) (by simp)
      · exact setPc_ledger h (by simp [hpc]) (by simp)
    · cases hs
  · cases hs

/-- Every action keeps the ledger. -/
theorem act_ledger (h : s.gear.Ledger) (hi : Inv s o) {a : Action} (hs : s.act a = some s') :
    s'.gear.Ledger := by
  cases a with
  | tick =>
    cases hs
    exact h
  | call t c =>
    simp only [act] at hs
    split at hs
    · rename_i hpc
      cases hs
      exact publicCall_ledger h hi hpc c
    · cases hs
  | finish t =>
    simp only [act] at hs
    split at hs
    · cases hs
      refine h.grow { Gear.Grows.refl s.gear with finished := fun u hu => ?_, retiring := fun u => .inl }
      by_cases hut : u = t
      · subst hut
        simp [gear, opDone, setOp]
      · simpa [gear, opDone, setOp, hut] using hu
    · cases hs
  | cancel t =>
    cases hs
    rw [cancelOp_gear]
    exact h
  | resume t i fence =>
    simp only [act] at hs
    split at hs
    · rename_i hr
      cases hs
      exact resume_ledger h hi hr
    · cases hs
  | claim t => exact claim_ledger h hi hs
  | finalize t => exact finalize_ledger h hs
  | finishTransition t => exact finishTransition_ledger h hs
  | unregister t => exact unregister_ledger h hs
  | releaseOperation t =>
    simp only [act] at hs
    split at hs
    · rename_i hd
      cases hs
      refine h.grow { Gear.Grows.refl s.gear with
                      retiring := fun u hu => ?_
                      joined := fun u hu => (List.mem_filter.1 hu).1 }
      by_cases hut : u = t
      · subst hut
        exact .inr hd
      · exact .inl (List.mem_filter.2 ⟨hu, by simp [hut]⟩)
    · cases hs
  | attempt a timedOut => exact attempt_ledger h hi hs
  | retire j =>
    obtain ⟨rfl, hj⟩ := runRetire_eq hs
    exact retireChild_ledger hi.sound h hj.1 hj.not_done
  | spawnDone sp result =>
    simp only [act] at hs
    split at hs
    · cases hs
      exact h
    · cases hs
  | spawnCallback sp =>
    simp only [act] at hs
    split at hs
    · cases hs
      unfold onSpawnTaskDone
      split
      · exact h
      · split <;> exact h
    · cases hs
  | late sp => exact late_ledger h hs
  | phaseDone k result =>
    simp only [act] at hs
    split at hs
    · cases hs
      exact h
    · cases hs
  | phaseCallback k =>
    simp only [act] at hs
    split at hs
    · cases hs
      refine h.grow { Gear.Grows.refl s.gear with startup := fun i hi => ?_ }
      obtain ⟨h1, h2⟩ := List.mem_filter.1 hi
      exact ⟨h1, fun hm => List.mem_filter.2 ⟨hm, h2⟩⟩
    · cases hs
  | retiredPhaseCallback r k =>
    simp only [act] at hs
    split at hs
    · cases hs
      exact finishRetiredStartupTask_ledger h r k
    · cases hs
  | shutdownDone c ok =>
    simp only [act] at hs
    split at hs
    · rename_i hc
      cases hs
      refine setClient_ledger h rfl (by simp) id fun hn => ?_
      have := (h.fresh c hn).1
      simp [gear, hc] at this
    · cases hs
  | shutdownCallback r =>
    simp only [act] at hs
    split at hs
    · cases hs
      exact finishRetiredShutdownTask_ledger h r
    · cases hs
  | closeDone c ok =>
    simp only [act] at hs
    split at hs
    · rename_i hc
      cases hs
      refine setClient_ledger h rfl id (by simp) fun hn => ?_
      have := (h.fresh c hn).2
      simp [gear, hc] at this
    · cases hs
  | closeCallback r =>
    simp only [act] at hs
    split at hs
    · cases hs
      exact finishRetiredCloseTask_ledger h r
    · cases hs
  | exit p =>
    simp only [act] at hs
    split at hs
    · cases hs
      exact setProcess_ledger h id
    · cases hs
  | waitDone p ok result =>
    simp only [act] at hs
    split at hs
    · cases hs
      exact setProcess_ledger h (by simp)
    · cases hs
  | clientDies c =>
    simp only [act] at hs
    split at hs
    · cases hs
      exact setClient_ledger h rfl id id fun _ => ⟨rfl, rfl⟩
    · cases hs

theorem init_ledger : (State.gear {}).Ledger where
  once := OnceLog.nil
  fresh := fun _ _ => ⟨rfl, rfl⟩
  terminated := by simp [gear]
  waiting := by simp [gear]
  kills := trivial
  live := by simp [gear]
  held := by simp [gear]
  nodup := List.nodup_nil
  roster := by simp [gear]
  apart := by simp [gear]

end State

/-- The ledger is kept in every state of every run. -/
theorem Reachable.ledger {s : State} (h : Reachable s) : (∃ o, s.Inv o) ∧ s.gear.Ledger := by
  refine Machine.Reachable.invariant (m := machine) (p := fun s => (∃ o, s.Inv o) ∧ s.gear.Ledger)
    ⟨⟨_, State.Inv.init⟩, State.init_ledger⟩ ?_ h
  rintro s a s' ⟨⟨o, hi⟩, hl⟩ hs
  have hi' : State.Inv { s with issued := none, ended := none } o :=
    hi.still (.same rfl) rfl rfl (.same rfl fun _ _ => rfl) (.same rfl) rfl rfl
  exact ⟨hi.step hs, State.act_ledger (s := { s with issued := none, ended := none }) hl hi' hs⟩

namespace State

/-- A kill in the ledger has a missed wait before it, and that one a terminate. -/
theorem killsOk_mem {p : Sid} {es : List Effect} (h : Gear.KillsOk es) :
    ∀ later earlier, es = later ++ .kill p :: earlier →
      ∃ a b, earlier = a ++ .exitMissed p :: b ∧ .terminate p ∈ b := by
  induction es with
  | nil => simp
  | cons e es ih =>
    intro later earlier heq
    cases later with
    | nil =>
      simp only [List.nil_append, List.cons.injEq] at heq
      obtain ⟨rfl, rfl⟩ := heq
      exact h.2 p rfl
    | cons x later =>
      simp only [List.cons_append, List.cons.injEq] at heq
      exact ih h.1 later earlier heq.2

/-- No effect on a child or on a task it owns happens twice, and a kill only comes after a
terminate and a bounded wait that did not observe the exit. A child has one inner client. The
effects stand newest first. -/
theorem retirement_effects_at_most_once {s : State} (h : Reachable s) :
    (∀ e : Effect, e.Single → s.effects.count e ≤ 1) ∧
      (∀ p later earlier, s.effects = later ++ .kill p :: earlier →
        ∃ waited before, earlier = waited ++ .exitMissed p :: before ∧ .terminate p ∈ before) ∧
      ∀ c < s.nextClient, ∀ d < s.nextClient,
        (s.clients c).process = (s.clients d).process → c = d :=
  ⟨fun e he => (h.ledger.2.once e he).1, fun _ => killsOk_mem h.ledger.2.kills,
    h.ledger.2.apart⟩

/-- A stop whose child ignores the shutdown and the terminate, up to the kill. -/
def killedRun : List Action :=
  startedRun ++ [.call 1 .stop, .tick, .attempt 0 false, .tick, .retire 0, .shutdownDone 0 true,
    .tick, .tick, .retire 0, .tick, .tick, .retire 0, .tick, .tick, .retire 0]

theorem retirement_effects_at_most_once_killedRun :
    .kill 0 ∈ (machine.after killedRun).effects ∧
      (machine.after killedRun).effects.count (.kill 0) ≤ 1 :=
  ⟨by decide +kernel,
    (retirement_effects_at_most_once (Machine.reachable_after (by decide +kernel))).1 _ trivial⟩

end State

end KestrelSdk.Subprocess

import KestrelSdk.Subprocess.Book

namespace KestrelSdk.Subprocess

open Asyncio

namespace State

/-- How a handle of `start()` leaves the book: it waits, leaves the lifecycle section, issues a
spawn, or returns. -/
inductive StartOut (s : State) (t : Tid) : State → Prop
  | wait {s' : State} (pc : StartPc) (h : s'.book = s.book.move t (.start pc)) : StartOut s t s'
  | leave {s' : State} (e : Exit) (x : Helper) (hk : e.kind = .start)
      (h : s'.book = s.book.move t (.unregistering e x)) : StartOut s t s'
  | issue (w : State) (hb : w.book = s.book) (hr : w.startRefused = false)
      (hc : w.client = none) (hp : w.process = none) : StartOut s t (w.startIssue t)
  | ret {s' : State} (sp : Option Sid)
      (h : s'.book = { s.book.move t .idle with ended := some (.start t sp none) })
      (hp : s'.process ≠ none ∨ s'.client ≠ none) : StartOut s t s'

section Start

variable {s s' w : State} {t : Tid}

theorem StartOut.of_book (hb : w.book = s.book) (h : StartOut w t s') : StartOut s t s' := by
  cases h with
  | wait pc h => exact .wait pc (by rw [h, hb])
  | leave e x hk h => exact .leave e x hk (by rw [h, hb])
  | issue v hv hr hc hp => exact .issue v (hv.trans hb) hr hc hp
  | ret sp h hp => exact .ret sp (by rw [h, hb]) hp

theorem startRaise_out (s : State) (t : Tid) (f : Failure) (c : Bool) :
    StartOut s t (s.startRaise t f c) :=
  .leave _ _ rfl (s.book_leave t _)

theorem startReturn_out (hp : s.process ≠ none ∨ s.client ≠ none) :
    StartOut s t (s.startReturn t) :=
  .ret (s.ops t).spawned (book_endCall _ t _) hp

theorem startAdmit_out (hc : s.client = none) (hp : s.process = none) :
    StartOut s t (s.startAdmit t) := by
  unfold startAdmit
  split
  · exact startRaise_out s t _ _
  · rename_i hr
    exact .issue s rfl (by simpa using hr) hc hp

theorem claim_none {client : Option Cid} {process : Option Sid} {b : Bool} {spawn : Option Sid}
    {cancel : Bool} (h : s.claimRetirementLocked client process b spawn cancel = (s', none)) :
    s' = s := by
  unfold claimRetirementLocked at h
  split at h
  · cases h
    rfl
  · split at h <;> cases h

theorem clear_pair (s : State) : s.clearSettledStartUncertaintyLocked.client = s.client ∧
    s.clearSettledStartUncertaintyLocked.process = s.process := by
  unfold clearSettledStartUncertaintyLocked
  split
  · split <;> exact ⟨rfl, rfl⟩
  · exact ⟨rfl, rfl⟩

theorem retireTerminal_out (s : State) (t : Tid) :
    StartOut s t (s.retireTerminalPublishedChild t) := by
  dsimp only [retireTerminalPublishedChild]
  have hb := State.book_claim { s with client := none, process := none
                                       generation := s.generation + 1 }
    s.client s.process false none false
  split
  · rename_i u r he
    rw [he] at hb
    split
    · rename_i j hj
      exact .wait (.terminal r j false) ((u.book_suspend t _).trans (by rw [hb]; rfl))
    · exact (startRaise_out u t _ _).of_book hb
  · rename_i u he
    have hu := claim_none he
    obtain ⟨h1, h2⟩ := clear_pair u
    refine (startAdmit_out (h1.trans ?_) (h2.trans ?_)).of_book (u.book_clear.trans ?_)
    · rw [hu]
    · rw [hu]
    · rw [hu]
      rfl

theorem startAdmission_out (s : State) (t : Tid) : StartOut s t (s.startAdmission t) := by
  dsimp only [startAdmission]
  refine StartOut.of_book s.book_clear ?_
  generalize s.clearSettledStartUncertaintyLocked = w
  split
  · rename_i hp
    split
    · refine startReturn_out ?_
      simpa [Option.isSome_iff_ne_none] using hp
    · exact retireTerminal_out w t
  · rename_i hp
    simp only [Bool.or_eq_true, not_or, Option.not_isSome_iff_eq_none] at hp
    exact startAdmit_out hp.2 hp.1

theorem startBody_out (s : State) (t : Tid) : StartOut s t (s.startBody t) := by
  unfold startBody
  split
  · exact retireTerminal_out s t
  · exact startAdmission_out s t

theorem startAfterTerminal_out (s : State) (t : Tid) (r : Rid) (b c : Bool) :
    StartOut s t (s.startAfterTerminal t r b c) := by
  unfold startAfterTerminal
  have hb := s.book_remove r
  split
  · exact startRaise_out s t _ _
  · split
    · rename_i u he
      rw [he] at hb
      exact (startRaise_out u t _ _).of_book hb
    · rename_i u he
      rw [he] at hb
      split
      · exact (startRaise_out u t _ _).of_book hb
      · exact (startAdmission_out u t).of_book hb

theorem startFinalize_out (s : State) (t : Tid) (f : StartFrame) :
    StartOut s t (s.startFinalize t f) :=
  .wait _ (s.book_suspend t _)

theorem startFailed_out (s : State) (t : Tid) (f : StartFrame) (e : Failure) :
    StartOut s t (s.startFailed t f e) := by
  dsimp only [startFailed]
  split
  · exact .wait _ (s.book_suspend t _)
  · exact startFinalize_out s t _

theorem startPhase_out (s : State) (t : Tid) (f : StartFrame) (k : Phase) :
    StartOut s t (s.startPhase t f k) :=
  .wait _ (book_suspend _ t _)

theorem startAfterSpawn_out (s : State) (t : Tid) (f : StartFrame) (sp : Sid) (c : Bool) :
    StartOut s t (s.startAfterSpawn t f sp c) := by
  unfold startAfterSpawn
  split
  · exact (startFailed_out _ t f _).of_book (s.book_cancelSpawnOnce sp)
  · split
    · exact (startFailed_out _ t f _).of_book (s.book_cancelSpawnOnce sp)
    · exact startFailed_out s t f _
    · exact startFailed_out s t f _
    · rename_i pipes _
      dsimp only [startPublish]
      have hb : (if s.spawnTask = some sp then
          { s with spawnTask := none, spawnCancelRequested := false } else s).book = s.book := by
        split <;> rfl
      generalize (if s.spawnTask = some sp then
          { s with spawnTask := none, spawnCancelRequested := false } else s) = w at hb
      split
      · exact (startFailed_out w t _ _).of_book hb
      · refine (startPhase_out _ t _ _).of_book (Eq.trans ?_ hb)
        rfl

theorem startAfterPhase_out (s : State) (t : Tid) (f : StartFrame) (kind : Phase) (k : Kid)
    (c : Bool) : StartOut s t (s.startAfterPhase t f kind k c) := by
  unfold startAfterPhase
  split
  · exact (startFailed_out _ t f _).of_book (s.book_cancelStartupTaskOnce k)
  · split
    · exact (startFailed_out _ t f _).of_book (s.book_cancelStartupTaskOnce k)
    · exact startFailed_out s t f _
    · exact startFailed_out s t f _
    · split
      · exact startPhase_out s t f _
      · exact startPhase_out s t f _
      · exact startPhase_out s t f _
      · exact startFinalize_out s t f

theorem startExit_out {f : StartFrame}
    (hf : f.cancelled = true ∨ f.failure ≠ none ∨ s.client ≠ none) :
    StartOut s t (s.startExit t f) := by
  unfold startExit
  split
  · exact startRaise_out s t _ _
  · rename_i hc
    split
    · exact startRaise_out s t _ _
    · rename_i hn
      obtain hf | hf | hf := hf
      · exact absurd hf hc
      · exact absurd hn hf
      · exact startReturn_out (.inr hf)

/-- Every handle of a caller inside `start()`. -/
theorem resumeStart_out {o : Custody} (h : Inv s o) {pc : StartPc} {i : Inner} {fence : Bool}
    (hpc : (s.ops t).pc = .start pc) : StartOut s t (s.resumeOp t i fence) := by
  have hok := h.ops t
  simp only [OpOk, hpc] at hok
  unfold resumeOp
  simp only [hpc]
  cases pc with
  | queued =>
    simp only
    split
    · dsimp only [leaveQueue]
      split
      · exact .leave _ _ rfl (s.book_leave t _)
      · exact .leave _ _ rfl (s.book_suspend t _)
    · exact startBody_out s t
  | terminal r j c =>
    simp only
    split
    · exact startAfterTerminal_out s t r _ _
    · exact .wait _ (s.book_suspend t _)
  | spawning f =>
    have hsp : f.spawnTask = some s.last := by rw [hok.2.2.1]
    simp only [hsp]
    exact startAfterSpawn_out s t f _ _
  | phase f kind k => exact startAfterPhase_out s t f kind k _
  | retiring f c =>
    simp only
    split
    · exact startFinalize_out s t _
    · exact .wait _ (s.book_suspend t _)
  | finalizing f x =>
    cases x with
    | pending n => exact .wait _ (s.book_suspend t _)
    | finished n =>
      obtain ⟨-, -, h3, -, -, h6⟩ := hok
      simp only [startAfterFinalize]
      split
      · exact .wait _ (s.book_suspend t _)
      · rename_i hcond
        refine startExit_out ?_
        cases hc : f.claimed with
        | true => exact .inr (.inl (h3 hc).1)
        | false =>
          obtain ⟨hfn, c, h8, h9, ⟨ho, -⟩ | ⟨-, h10, -⟩⟩ := h6 hc
          · have hcl : s.client = o.client := h.sound.place.client
            rw [ho] at hcl
            exact .inr (.inr (by rw [hcl]; simp [Custody.client]))
          · refine .inl ?_
            obtain h10 | h10 := h10
            · simp [h10]
            · simp [Option.isSome_iff_ne_none, h10]
  | lateRetiring f c =>
    simp only
    split
    · refine startExit_out ?_
      obtain hf | hf := hok.2.2.1
      · refine .inl ?_
        split <;> simp [hf]
      · refine .inr (.inl ?_)
        split
        · simp
        · exact hf
    · exact .wait _ (s.book_suspend t _)

end Start

/-- What a step can do to the record of spawns issued and calls ended. -/
inductive Turn (s s' : State) : Prop
  | quiet (hi : s'.issued = s.issued) (he : s'.ended = s.ended)
  | start (t : Tid) (h : StartOut s t s')
  | atop (t : Tid) (e : Exit) (x : Helper) (c : Bool) (hpc : (s.ops t).pc = .unregistering e x)
      (h : s' = s.finishCall t { e with cancelled := e.cancelled || c })
  | refused (e : Ended) (hi : s'.issued = s.issued) (he : s'.ended = some e)
      (hstart : ∀ t sp r, e = .start t sp r → sp = none ∧ r ≠ none)
      (hstop : ∀ t m r, e ≠ .stop t m r)
  | stopped (t : Tid) (mark : Nat) (c b : Bool) (a : Aid) (hd : (s.attempts a).pc = .done b)
      (ha : a < s.nextAttempt) (hm : mark ≤ (s.attempts a).mark)
      (h : s' = s.stopReturn t mark c b)

section Turn

variable {s s' w : State} {o : Custody} {t : Tid}

theorem Turn.of_book (h : s'.book = s.book) : Turn s s' :=
  .quiet (congrArg Book.issued h) (congrArg Book.ended h)

theorem Turn.of_move {p : OpPc} (h : s'.book = s.book.move t p) : Turn s s' :=
  .quiet (congrArg Book.issued h) (congrArg Book.ended h)

/-- Entering the lifecycle section writes nothing but the body's outcome. -/
theorem enter_turn {queued : OpPc} {body : State → State} (hw : w.book = s.book)
    (hbody : ∀ l, Turn s (body { w with lifecycleLock := l })) : Turn s (w.enter t queued body) := by
  unfold enter
  split
  · exact hbody _
  · refine .of_move (t := t) (p := queued) ((book_suspend _ t queued).trans ?_)
    rw [← hw]
    rfl

theorem healthBody_move (s : State) (t : Tid) :
    ∃ pc, (s.healthBody t).book = s.book.move t pc := by
  unfold healthBody
  split
  · exact ⟨_, s.book_leave t _⟩
  · exact ⟨_, s.book_suspend t _⟩

theorem transitionBody_turn (s : State) (t : Tid) (n : Nat) (next : Cfg) :
    (s.transitionBody t n next).issued = s.issued ∧ (s.transitionBody t n next).ended = s.ended := by
  dsimp only [transitionBody]
  split
  · exact ⟨rfl, rfl⟩
  · split
    · exact ⟨rfl, rfl⟩
    · split <;> exact ⟨rfl, rfl⟩

theorem publicCall_turn (h : Inv s o) (c : Call) : Turn s (s.publicCall t c) := by
  cases c with
  | stop =>
    dsimp only [publicCall, stopCall]
    split
    · exact .quiet rfl rfl
    · rename_i a hst
      obtain ⟨hlt, hm⟩ := h.attempts.stopTask a hst
      split
      · rename_i hres
        exact .stopped t s.nextSpawn false true a (attemptResult_eq hres) hlt
          (Nat.le_of_eq hm.symm) rfl
      · exact .quiet rfl rfl
      · exact .quiet rfl rfl
  | start =>
    dsimp only [publicCall]
    have hb := s.book_register t
    split
    · rename_i w he
      rw [he] at hb
      refine .refused _ (congrArg Book.issued hb) rfl ?_ (by simp)
      rintro u sp r ⟨⟩
      exact ⟨rfl, by simp⟩
    · rename_i w he
      rw [he] at hb
      exact enter_turn hb fun l =>
        .start t (StartOut.of_book (w := { w with lifecycleLock := l }) hb (startBody_out _ t))
  | health =>
    dsimp only [publicCall]
    have hb := s.book_register t
    split
    · rename_i w he
      rw [he] at hb
      exact .refused _ (congrArg Book.issued hb) rfl (by simp) (by simp)
    · rename_i w he
      rw [he] at hb
      refine enter_turn hb fun l => ?_
      obtain ⟨pc, hpc⟩ := healthBody_move { w with lifecycleLock := l } t
      exact .of_move (hpc.trans (by rw [← hb]; rfl))
  | transition next =>
    dsimp only [publicCall]
    have hb := State.book_register { s.setTransition s.nextCall { next } with
      nextCall := s.nextCall + 1 } t
    have hi := congrArg Book.issued hb
    have he' := congrArg Book.ended hb
    split
    · rename_i w he
      rw [he] at hi
      exact .refused _ hi rfl (by simp) (by simp)
    · rename_i w he
      rw [he] at hi he'
      unfold enter
      split
      · rename_i l _
        obtain ⟨h1, h2⟩ := transitionBody_turn { w with lifecycleLock := l } t s.nextCall next
        exact .quiet (h1.trans hi) (h2.trans he')
      · exact .quiet hi he'

theorem resume_turn (h : Inv s o) {i : Inner} {fence : Bool} (hr : s.resumable t i = true) :
    Turn s (s.resumeOp t i fence) := by
  have hok := h.ops t
  cases hpc : (s.ops t).pc with
  | start pc => exact .start t (resumeStart_out h hpc)
  | idle => simp [resumable, hpc] at hr
  | finished => simp [resumable, hpc] at hr
  | resultRetiring e c => simp only [OpOk, hpc] at hok
  | healthQueued =>
    simp only [resumeOp, hpc]
    split
    · dsimp only [leaveQueue]
      split
      · exact .of_move (s.book_leave t _)
      · exact .of_move (s.book_suspend t _)
    · obtain ⟨pc, hb⟩ := healthBody_move s t
      exact .of_move hb
  | probing c g =>
    simp only [resumeOp, hpc, healthAfter]
    split
    · exact .of_move (s.book_leave t _)
    · exact .of_move (s.book_leave t _)
    · split <;> exact .of_move (s.book_leave t _)
  | transitionQueued n next =>
    simp only [resumeOp, hpc]
    split
    · dsimp only [leaveQueue]
      split
      · exact .of_move (s.book_leave t _)
      · exact .of_move (s.book_suspend t _)
    · obtain ⟨h1, h2⟩ := transitionBody_turn s t n next
      exact .quiet h1 h2
  | applying f =>
    simp only [resumeOp, hpc]
    dsimp only [transitionAfter]
    split <;> exact .quiet rfl rfl
  | finishing f retain x =>
    simp only [resumeOp, hpc]
    cases x with
    | finished n => exact .of_move (s.book_leave t _)
    | pending n => exact .of_move (s.book_suspend t _)
  | unregistering e x =>
    simp only [OpOk, hpc] at hok
    simp only [resumeOp, hpc]
    cases x with
    | finished n =>
      refine .atop t e _ (s.ops t).cancelAt.isSome hpc ?_
      simp only [afterUnregister, hok.1]
    | pending n => exact .of_move (s.book_suspend t _)
  | stopping a mark c =>
    simp only [OpOk, hpc] at hok
    simp only [resumeOp, hpc]
    split
    · rename_i b hb
      exact .stopped t mark _ b a (attemptResult_eq hb) hok.2.1 hok.2.2 rfl
    · exact .of_move (s.book_suspend t _)

theorem stepClaim_book {c : Claim} {wrap : Claim → OpPc} (hs : s.stepClaim t c wrap = some s') :
    ∃ c', s'.book = s.book.move t (wrap c') := by
  unfold stepClaim at hs
  split at hs
  · have hb := s.book_retireStartupChild c
    generalize s.retireStartupChild c = u at hs hb
    split at hs
    · cases hs
      exact ⟨_, by rw [book_setOp, hb]⟩
    · cases hs
  · rename_i r j n _
    split at hs
    · rename_i b _
      have hb := s.book_retireStartupChildDone r b
      generalize s.retireStartupChildDone r b = u at hs hb
      cases hs
      exact ⟨_, by rw [book_setOp, hb]⟩
    · cases hs
  · cases hs

/-- A claim task moves its caller from one await of `start()` to the next. -/
theorem claim_book (h : Inv s o) (hs : s.runClaim t = some s') :
    ∃ pc, s'.book = s.book.move t (.start pc) := by
  unfold runClaim at hs
  split at hs
  · obtain ⟨c', h'⟩ := stepClaim_book hs
    exact ⟨_, h'⟩
  · obtain ⟨c', h'⟩ := stepClaim_book hs
    exact ⟨_, h'⟩
  · rename_i e c hpc
    have hok := h.ops t
    simp only [OpOk, hpc] at hok
  · cases hs

/-- A stop attempt takes the pending transition in its first handle and writes nothing else. -/
theorem attempt_book {a : Aid} {timedOut : Bool} (hs : s.runAttempt a timedOut = some s') :
    s'.book = s.book ∨ s'.book = s.takePendingTransition.book := by
  dsimp only [runAttempt] at hs
  split at hs
  · cases hpc : (s.attempts a).pc with
    | init caller =>
      simp only [hpc] at hs
      split at hs
      · cases hs
        refine .inr ?_
        rw [← s.book_attemptDetach caller]
        simp only [runStopAttempt, hpc, attemptBegin]
        split
        · simp
        · split
          · simp
          · rfl
      · cases hs
    | settle second g =>
      simp only [hpc] at hs
      split at hs
      · cases hs
        refine .inl ?_
        cases second <;> simp [runStopAttempt, hpc]
      · cases hs
    | reap r j todo retired =>
      simp only [hpc] at hs
      split at hs
      · cases hs
        refine .inl ?_
        simp only [runStopAttempt, hpc]
        split
        · simp
        · rfl
      · cases hs
    | observe b ops =>
      simp only [hpc] at hs
      split at hs
      · cases hs
        refine .inl ?_
        simp only [runStopAttempt, hpc]
        rfl
      · cases hs
    | done b => simp [hpc] at hs
  · cases hs

/-- What one handle of `_complete_late_spawn_retirement` touches. -/
theorem runLate_cases {sp : Sid} (hs : s.runLate sp = some s') : ∃ w x, s' = w.setLate sp x ∧
    (w = s ∨ (∃ r, w = s.createRetireTask r) ∨
      ∃ r, w = (s.removeRetirementIfCompleteLocked r).1) := by
  dsimp only [runLate] at hs
  split at hs
  · rename_i r created _
    split at hs
    · split at hs
      · cases hs
        exact ⟨s, _, rfl, .inl rfl⟩
      · have key : ∀ c : Bool, (if c then s.createRetireTask r else s) = s ∨
            (∃ q, (if c then s.createRetireTask r else s) = s.createRetireTask q) ∨
            ∃ q, (if c then s.createRetireTask r else s) =
              (s.removeRetirementIfCompleteLocked q).1 := by
          intro c
          cases c with
          | false => exact .inl rfl
          | true => exact .inr (.inl ⟨r, rfl⟩)
        split at hs
        · cases hs
          exact ⟨_, _, rfl, key _⟩
        · cases hs
    · cases hs
  · rename_i r j n _
    split at hs
    · cases hs
      split
      · exact ⟨_, _, rfl, .inr (.inr ⟨r, rfl⟩)⟩
      · exact ⟨_, _, rfl, .inl rfl⟩
    · cases hs
  · cases hs

theorem late_book {sp : Sid} (hs : s.runLate sp = some s') : s'.book = s.book := by
  obtain ⟨w, x, rfl, hw⟩ := runLate_cases hs
  have hb : (w.setLate sp x).book = w.book := rfl
  rw [hb]
  obtain rfl | ⟨r, rfl⟩ | ⟨r, rfl⟩ := hw
  · rfl
  · rfl
  · exact s.book_remove r

theorem spawnCallback_book (s : State) (sp : Sid) : (s.onSpawnTaskDone sp).book = s.book := by
  unfold onSpawnTaskDone
  split
  · rfl
  · split <;> rfl

theorem act_turn (h : Inv s o) {a : Action} (hs : s.act a = some s') : Turn s s' := by
  cases a with
  | call t c =>
    simp only [act] at hs
    split at hs
    · cases hs
      exact publicCall_turn h c
    · cases hs
  | resume t i fence =>
    simp only [act] at hs
    split at hs
    · rename_i hr
      cases hs
      exact resume_turn h hr
    · cases hs
  | claim t =>
    obtain ⟨pc, hpc⟩ := claim_book h hs
    exact .of_move hpc
  | attempt a timedOut =>
    obtain hb | hb := attempt_book hs
    · exact .of_book hb
    · obtain ⟨config, pending, log, heq⟩ := takePendingTransition_eq s
      rw [heq] at hb
      exact .quiet (congrArg Book.issued hb) (congrArg Book.ended hb)
  | late sp => exact .of_book (late_book hs)
  | retire j =>
    obtain ⟨rfl, -⟩ := runRetire_eq hs
    exact .of_book (s.book_retireChild j)
  | cancel t =>
    cases hs
    exact .of_book (s.book_cancelOp t)
  | finalize t =>
    simp only [act, runFinalize] at hs
    split at hs
    · split at hs
      · cases hs
        exact .of_move ((book_setOp _ t _).trans (by rw [book_finalizeStart]))
      · cases hs
    · cases hs
  | finishTransition t =>
    simp only [act, runFinishTransition] at hs
    split at hs
    · rename_i f retain created _
      split at hs
      · cases hs
        cases f.pending with
        | none => exact .quiet rfl rfl
        | some p =>
          obtain ⟨config, pending, log, heq⟩ := finishTransition_eq s p retain
          simp only [heq]
          exact .quiet rfl rfl
      · cases hs
    · cases hs
  | unregister t =>
    simp only [act, runUnregister] at hs
    split at hs
    · split at hs
      · cases hs
        exact .quiet rfl rfl
      · cases hs
    · cases hs
  | spawnCallback sp =>
    simp only [act] at hs
    split at hs
    · cases hs
      exact .of_book (s.spawnCallback_book sp)
    · cases hs
  | retiredPhaseCallback r k =>
    simp only [act] at hs
    split at hs
    · cases hs
      exact .of_book (book_soft (finishRetiredStartupTask_soft s r k))
    · cases hs
  | shutdownCallback r =>
    simp only [act] at hs
    split at hs
    · cases hs
      exact .of_book (book_soft (finishRetiredShutdownTask_soft s r))
    · cases hs
  | closeCallback r =>
    simp only [act] at hs
    split at hs
    · cases hs
      obtain ⟨task, settled, succeeded, heq⟩ := finishRetiredCloseTask_eq s r
      rw [heq]
      exact .quiet rfl rfl
    · cases hs
  | tick =>
    cases hs
    exact .quiet rfl rfl
  | finish _ | releaseOperation _ | spawnDone _ _ | phaseDone _ _ | phaseCallback _
  | shutdownDone _ _ | closeDone _ _ | exit _ | waitDone _ _ _ | clientDies _ =>
    simp only [act] at hs
    split at hs
    · cases hs
      exact .quiet rfl rfl
    · cases hs

end Turn

end State

end KestrelSdk.Subprocess

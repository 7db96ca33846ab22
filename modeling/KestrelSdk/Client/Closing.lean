import KestrelSdk.Client.Gaps
import KestrelSdk.Client.Waiters

namespace KestrelSdk.Client

open Json Protocol Asyncio

/-- A task that will never deliver: it never was, or it is over. -/
def Pc.Gone : Pc → Prop
  | .absent => True
  | .ended => True
  | .dropped => True
  | _ => False

/-- A read task that neither delivers nor waits for the event lock. -/
def Pc.Idle : Pc → Prop
  | .locking _ => False
  | .delivering _ => False
  | _ => True

theorem Pc.Gone.not_suspended {p : Pc} (h : p.Gone) : ¬ p.Suspended := by
  cases p <;> simp_all [Pc.Gone, Pc.Suspended]

theorem Pc.Gone.ne_created {p : Pc} (h : p.Gone) : p ≠ .created := by
  rintro rfl
  exact h

theorem Pc.Gone.of_done {p : Pc} (h : isDone p = true) : p.Gone := by
  cases p <;> simp_all [Pc.Gone, isDone]

theorem Pc.Idle.of_done {p : Pc} (h : isDone p = true) : p.Idle := by
  cases p <;> simp_all [Pc.Idle, isDone]

/-- The close task has taken its snapshot of the tasks. -/
def ClosePc.begun : ClosePc → Bool
  | .absent => false
  | .created => false
  | _ => true

/-- The tasks of the snapshot are over. -/
def ClosePc.joined : ClosePc → Bool
  | .locking _ => true
  | .closing _ => true
  | .done => true
  | _ => false

/-- Handlers and buffer are cleared. -/
def ClosePc.cleared : ClosePc → Bool
  | .closing _ => true
  | .done => true
  | _ => false

namespace Mail

/-- No drain runs or will run, and the read task has no event. -/
structure Calm (m : Mail) : Prop where
  drains : ∀ k, (m.drains k).Gone
  read : m.read.Idle

variable {m m' : Mail}

/-- A worker that goes on has an event or waits for the lock. -/
theorem works_busy {w : Worker} (hm : m.locked w = some m' ∨ m.handled w = some m') :
    ¬ (m.pc w).Idle := by
  intro hidle
  rcases hm with hm | hm
  · unfold Mail.locked at hm
    split at hm
    · rename_i hpc
      rw [hpc] at hidle
      exact hidle
    · cases hm
  · unfold Mail.handled at hm
    split at hm
    · rename_i hpc
      rw [hpc] at hidle
      exact hidle
    · cases hm

/-- Nobody can run in a calm mailbox. -/
theorem Calm.still {w : Worker} (h : m.Calm) : ¬ (m.locked w = some m' ∨ m.handled w = some m') := by
  intro hm
  cases w with
  | drain k => exact (h.drains k).not_suspended (works_only hm).1
  | read => exact works_busy hm h.read

theorem Calm.of_pc (h : m.Calm) (hpc : m'.pc = m.pc) : m'.Calm where
  drains k := by
    rw [show m'.drains k = m.drains k from congrFun hpc (.drain k)]
    exact h.drains k
  read := by
    rw [show m'.read = m.read from congrFun hpc .read]
    exact h.read

theorem Calm.setRead (h : m.Calm) {p : Pc} (hp : p.Idle) : ({ m with read := p } : Mail).Calm :=
  ⟨h.drains, hp⟩

end Mail

namespace Engine

/-- What the close task relies on: the drains that it does not wait for are over, a read task that it
does not wait for has no event, and nothing runs once the tasks are joined. -/
structure Shut (e : Engine) : Prop where
  eof : e.closeTask.begun = true → e.readerEof = true
  unread : e.closeTask ≠ .done → e.hasReadTask = false → e.mail.read = .absent
  gathers : ∀ r ds, e.closeTask = .gathering r ds →
    (∀ k, k ∈ ds ∨ (e.mail.drains k).Gone) ∧ (r = false → e.mail.read.Idle)
  calm : e.closeTask.joined = true → e.mail.Calm
  cleared : e.closeTask.cleared = true → e.mail.handlers = [] ∧ e.mail.buffer = []
  terminal : e.closeTask = .done → e.closedExc ≠ none

variable {e e' : Engine}

theorem Shut.start : Shut {} := by
  refine ⟨by simp [ClosePc.begun], fun _ _ => rfl, by simp, by simp [ClosePc.joined],
    by simp [ClosePc.cleared], by simp⟩

/-- A step that does not touch the close task. -/
theorem Shut.keep (h : e.Shut) (hc : e'.closeTask = e.closeTask) (hf : e'.readerEof = e.readerEof)
    (ht : e'.hasReadTask = e.hasReadTask) (hx : e.closedExc ≠ none → e'.closedExc ≠ none)
    (ha : e.mail.read = .absent → e'.mail.read = .absent)
    (hg : e.closeTask.begun = true → ∀ k, (e.mail.drains k).Gone → (e'.mail.drains k).Gone)
    (hi : e.closeTask.begun = true → e.mail.read.Idle → e'.mail.read.Idle)
    (hd : e.closeTask.cleared = true →
      e'.mail.handlers = e.mail.handlers ∧ e'.mail.buffer = e.mail.buffer) : e'.Shut := by
  refine ⟨fun hb => ?_, fun h1 h2 => ?_, fun r ds hr => ?_, fun hj => ?_, fun hcl => ?_, fun hdone => ?_⟩
  · rw [hc] at hb
    rw [hf]
    exact h.eof hb
  · rw [hc] at h1
    rw [ht] at h2
    exact ha (h.unread h1 h2)
  · rw [hc] at hr
    have hb : e.closeTask.begun = true := by
      rw [hr]
      rfl
    obtain ⟨h1, h2⟩ := h.gathers r ds hr
    refine ⟨fun k => ?_, fun hr' => hi hb (h2 hr')⟩
    rcases h1 k with hk | hk
    · exact .inl hk
    · exact .inr (hg hb k hk)
  · rw [hc] at hj
    have hb : e.closeTask.begun = true := by
      revert hj
      cases e.closeTask <;> simp [ClosePc.begun, ClosePc.joined]
    have hcalm := h.calm hj
    exact ⟨fun k => hg hb k (hcalm.drains k), hi hb hcalm.read⟩
  · rw [hc] at hcl
    obtain ⟨h1, h2⟩ := h.cleared hcl
    obtain ⟨h3, h4⟩ := hd hcl
    exact ⟨h3.trans h1, h4.trans h2⟩
  · rw [hc] at hdone
    exact hx (h.terminal hdone)

/-- The close task enters the event lock of a calm client. -/
theorem Shut.enters {r : Bool} (hcalm : e.mail.Calm) (heof : e.readerEof = true)
    (hu : e.hasReadTask = false → e.mail.read = .absent) : (e.closeEnter r).Shut := by
  obtain ⟨h1, -, -, -, h5, -⟩ := e.closeEnter_frame r
  have hcalm' := hcalm.of_pc h1
  have hread : (e.closeEnter r).mail.read = e.mail.read := congrFun h1 .read
  have heof' : (e.closeEnter r).readerEof = true := by
    unfold closeEnter
    split
    · exact heof
    · exact heof
  refine ⟨fun _ => heof', fun _ h2 => ?_, fun r' ds hr => ?_, fun _ => hcalm', fun hcl => ?_,
    fun hdone => ?_⟩
  · rw [hread]
    exact hu (h5 ▸ h2)
  · unfold closeEnter at hr
    split at hr
    · cases hr
    · cases hr
  · unfold closeEnter at hcl ⊢
    split at hcl
    · exact ⟨rfl, rfl⟩
    · cases hcl
  · unfold closeEnter at hdone
    split at hdone
    · cases hdone
    · cases hdone

theorem mem_eventTasks {m : Mail} {k : Nat} (hq : ∀ k, m.nextDrain ≤ k → m.drains k = .absent) :
    k ∈ eventTasks m ∨ (m.drains k).Gone := by
  by_cases hk : k < m.nextDrain
  · cases hd : isDone (m.drains k) with
    | true => exact .inr (.of_done hd)
    | false =>
      left
      unfold eventTasks
      simp [hk, hd]
  · right
    rw [hq k (Nat.le_of_not_lt hk)]
    trivial

/-- The close task takes its snapshot. -/
theorem Shut.begins {l : List Task} (h : e.Shut) (hq : e.Queued) (hc : e.closeTask = .created) :
    ({ e with fresh := l } : Engine).closeBegin.Shut := by
  have hu : e.hasReadTask = false → e.mail.read = .absent := h.unread (by simp [hc])
  have hidle : e.hasReadTask = false → e.mail.read.Idle := by
    intro hr
    rw [hu hr]
    trivial
  unfold closeBegin
  dsimp only
  split
  · rename_i hb
    simp only [Bool.and_eq_true, Bool.not_eq_true', List.isEmpty_iff] at hb
    refine Shut.enters ⟨fun k => ?_, hidle hb.1⟩ rfl hu
    rcases mem_eventTasks (k := k) hq.drains with hk | hk
    · rw [hb.2] at hk
      cases hk
    · exact hk
  · refine ⟨fun _ => rfl, fun _ => hu, fun r ds hr => ?_, by simp [ClosePc.joined],
      by simp [ClosePc.cleared], by simp⟩
    cases hr
    exact ⟨fun k => mem_eventTasks hq.drains, hidle⟩

variable {py : Interpreter} {shut : Bool} {g : Signal}

/-- A signal keeps what the close task relies on, as long as nothing is read after EOF. -/
theorem Shut.step (h : e.Shut) (hq : e.Queued) (hshut : e.closeTask ≠ .absent → shut = true)
    (heof : ∀ b, g = .line b → e.readerEof = false) (hs : e.step py shut g = some e') : e'.Shut := by
  cases step_move hs with
  | idle he => exact he ▸ h
  | registers hsh he =>
    have habs : e.closeTask = .absent := by
      by_contra hne
      rw [hshut hne] at hsh
      cases hsh
    subst he
    refine h.keep rfl rfl rfl id (fun hr => ?_) (fun hb => ?_) (fun hb => ?_) fun hcl => ?_
    · exact (e.mail.onEvent_frame).2.2.2.2.2.2.1.trans hr
    · rw [habs] at hb
      cases hb
    · rw [habs] at hb
      cases hb
    · rw [habs] at hcl
      cases hcl
  | beginsRead l hf he =>
    have hcr : e.mail.read = .created := (hq.worker .read).1 (by simp [hf])
    subst he
    refine h.keep rfl rfl rfl id (fun hr => ?_) (fun _ k hk => hk) (fun _ _ => ?_) fun _ => ⟨rfl, rfl⟩
    · rw [hcr] at hr
      cases hr
    · dsimp only
      split
      · trivial
      · trivial
  | beginsDrain k l hf he =>
    have hcr : e.mail.drains k = .created := (hq.worker (.drain k)).1 (by simp [hf])
    have hgone : ¬ (e.mail.drains k).Gone := fun hg => hg.ne_created hcr
    have hm : ∀ m : Mail, (∀ u, u ≠ .drain k → m.pc u = e.mail.pc u) →
        ({ e with fresh := l, mail := m } : Engine).Shut := by
      intro m ho
      have hread : m.read = e.mail.read := ho .read (by simp)
      refine h.keep rfl rfl rfl id (fun hr => hread.trans hr) (fun _ j hj => ?_) (fun _ hi => ?_)
        fun hcl => ?_
      · by_cases hjk : j = k
        · subst hjk
          exact absurd hj hgone
        · have hj' : m.drains j = e.mail.drains j := ho (.drain j) (by simp [hjk])
          rw [hj']
          exact hj
      · rw [hread]
        exact hi
      · have hj : e.closeTask.joined = true := by
          revert hcl
          cases e.closeTask <;> simp [ClosePc.cleared, ClosePc.joined]
        exact absurd ((h.calm hj).drains k) hgone
    subst he
    split
    · exact hm _ fun u hu => e.mail.setPc_pc_of_ne _ hu
    · exact hm _ (e.mail.enter_only (.drain k) none).others
  | beginsClose l hf he =>
    have hcr : e.closeTask = .created := hq.close.1 (by simp [hf])
    subst he
    exact h.begins hq hcr
  | answers _ _ _ _ _ he =>
    subst he
    exact h.keep rfl rfl rfl id id (fun _ _ hk => hk) (fun _ hi => hi) fun _ => ⟨rfl, rfl⟩
  | receives b params hg hr he =>
    have hbegun : e.closeTask.begun ≠ true := by
      intro hb
      have h1 := h.eof hb
      rw [heof b hg] at h1
      cases h1
    subst he
    refine h.keep rfl rfl rfl id (fun ha => ?_) (fun hb => absurd hb hbegun)
      (fun hb => absurd hb hbegun) fun hcl => ?_
    · rw [hr] at ha
      cases ha
    · refine absurd ?_ hbegun
      revert hcl
      cases e.closeTask <;> simp [ClosePc.cleared, ClosePc.begun]
  | readEnds x hr he =>
    subst he
    refine h.keep rfl rfl rfl (fun _ => by simp [endRead]) (fun ha => absurd ha hr.ne_absent)
      (fun _ k hk => hk) (fun _ _ => trivial) fun _ => ⟨rfl, rfl⟩
  | drainEnds k hk _ he =>
    have ho := (e.mail.stop_only (.drain k)).others
    subst he
    have hread : (e.mail.stop (.drain k)).read = e.mail.read := ho .read (by simp)
    refine h.keep rfl rfl rfl id (fun hr => hread.trans hr) (fun _ j hj => ?_) (fun _ hi => ?_)
      fun _ => ⟨rfl, rfl⟩
    · by_cases hjk : j = k
      · subst hjk
        exact absurd hk hj.not_suspended
      · have hj' : (e.mail.stop (.drain k)).drains j = e.mail.drains j := ho (.drain j) (by simp [hjk])
        show ((e.mail.stop (.drain k)).drains j).Gone
        rw [hj']
        exact hj
    · show (e.mail.stop (.drain k)).read.Idle
      rw [hread]
      exact hi
  | works w m hm he =>
    obtain ⟨hsus, honly⟩ := Mail.works_only hm
    subst he
    refine h.keep rfl rfl rfl id (fun hr => ?_) (fun _ j hj => ?_) (fun _ hi => ?_) fun hcl => ?_
    · have hw : Worker.read ≠ w := by
        rintro rfl
        exact hsus.ne_absent hr
      exact (honly.others .read hw).trans hr
    · have hw : Worker.drain j ≠ w := by
        rintro rfl
        exact hj.not_suspended hsus
      show (m.drains j).Gone
      rw [show m.drains j = e.mail.drains j from honly.others (.drain j) hw]
      exact hj
    · have hw : Worker.read ≠ w := by
        rintro rfl
        exact Mail.works_busy hm hi
      show m.read.Idle
      rw [show m.read = e.mail.read from honly.others .read hw]
      exact hi
    · have hj : e.closeTask.joined = true := by
        revert hcl
        cases e.closeTask <;> simp [ClosePc.cleared, ClosePc.joined]
      exact absurd hm (h.calm hj).still
  | gathers r ds hc hr hd he =>
    obtain ⟨h1, h2⟩ := h.gathers r ds hc
    subst he
    refine Shut.enters ⟨fun k => ?_, ?_⟩ (h.eof (by rw [hc]; rfl)) (h.unread (by simp [hc]))
    · rcases h1 k with hk | hk
      · exact .of_done (hd k hk)
      · exact hk
    · cases r with
      | true => exact .of_done (hr rfl)
      | false => exact h2 rfl
  | clears r hc _ he =>
    subst he
    have hcalm := h.calm (by rw [hc]; rfl)
    refine ⟨fun _ => h.eof (by rw [hc]; rfl), fun _ => h.unread (by simp [hc]), ?_,
      fun _ => hcalm.of_pc (Mail.pc_eq rfl), fun _ => ⟨rfl, rfl⟩, ?_⟩
    · intro r' ds hr
      cases hr
    · intro hdone
      cases hdone
  | closes r hc he =>
    subst he
    have hcalm := h.calm (by rw [hc]; rfl)
    refine ⟨fun _ => h.eof (by rw [hc]; rfl), fun hne => absurd rfl hne, ?_, fun _ => hcalm,
      fun _ => h.cleared (by rw [hc]; rfl), fun _ => by simp⟩
    intro r' ds hr
    cases hr

theorem Shut.setDesk (h : e.Shut) (d : Desk) : ({ e with desk := d } : Engine).Shut :=
  h.keep rfl rfl rfl id id (fun _ _ hk => hk) (fun _ hi => hi) fun _ => ⟨rfl, rfl⟩

theorem Shut.createCloseTask (h : e.Shut) : e.createCloseTask.Shut := by
  unfold Engine.createCloseTask
  split
  · rename_i hc
    exact ⟨by simp [ClosePc.begun], fun _ => h.unread (by simp [hc]), by simp, by simp [ClosePc.joined],
      by simp [ClosePc.cleared], by simp⟩
  · exact h

/-- A read task may still be created while the client closes: it has no event. -/
theorem Shut.createReadTask (h : e.Shut) : e.createReadTask.Shut := by
  unfold Engine.createReadTask
  split
  · exact h
  · refine ⟨h.eof, by simp, fun r ds hr => ?_, fun hj => ?_, h.cleared, h.terminal⟩
    · exact ⟨(h.gathers r ds hr).1, fun _ => trivial⟩
    · exact (h.calm hj).setRead trivial

end Engine

/-- A line from a reader that was fed EOF. -/
def hearsOn (s : State) : Action → Bool
  | .signal (.line _) => s.readerEof
  | _ => false

/-- A client whose reader returns nothing but EOF once it was fed EOF. -/
def fed (py : Interpreter) (p : Str) : Machine State Action :=
  (machine py p).restrict fun s a => !hearsOn s a

/-- Such a client on which no read task is created after `close` was called. -/
def settled (py : Interpreter) (p : Str) : Machine State Action :=
  (fed py p).restrict fun s a => !startsLate s a

namespace State

variable {py : Interpreter} {p : Str} {s s' : State} {t : Tid}

/-- What the calls are. -/
def ops (s : State) (t : Tid) : Op := (s.calls t).op

theorem setCall_ops {c : Call} (h : c.op = (s.calls t).op) : (s.setCall t c).ops = s.ops := by
  funext u
  by_cases hu : u = t
  · subst hu
    simp [ops, setCall, h]
  · simp [ops, setCall, hu]

theorem Ended.ops {r : Except Raised Value} (h : Ended s s' t r) : s'.ops = s.ops := by
  funext u
  by_cases hu : u = t
  · subst hu
    simp [State.ops, h.call]
  · simp [State.ops, h.others u hu]

theorem fail_ops (s : State) (t : Tid) (e : Raised) : (s.fail t e).ops = s.ops := by
  obtain ⟨r, hr, -⟩ := s.fail_ended t e
  exact hr.ops

theorem request_ops (s : State) (m : Str) (q : Dict) (w : Bool) : (s.request py t m q w).ops = s.ops := by
  unfold request
  split
  · exact fail_ops s t _
  · dsimp only
    split
    · exact fail_ops _ t _
    · split
      · exact setCall_ops rfl
      · exact fail_ops _ t _

theorem lifecycleSection_ops (s : State) (w : Bool) : (s.lifecycleSection py t w).ops = s.ops := by
  unfold lifecycleSection
  split
  · unfold transition
    dsimp only
    split
    · exact setCall_ops rfl
    · split
      · exact setCall_ops rfl
      · split
        · exact setCall_ops rfl
        · rw [request_ops]
          exact setCall_ops rfl
  · unfold shutdownSection
    split
    · exact setCall_ops rfl
    · exact request_ops _ _ _ w

theorem enterLifecycle_ops (s : State) (w : Bool) : (s.enterLifecycle py t w).ops = s.ops := by
  unfold enterLifecycle
  split
  · exact lifecycleSection_ops _ w
  · exact setCall_ops rfl

theorem invoke_ops (s : State) (w : Bool) : (s.invoke py p t w).ops = s.ops := by
  unfold invoke
  split
  · split
    · exact setCall_ops rfl
    · exact setCall_ops rfl
  · exact request_ops s _ _ w
  · exact request_ops s _ _ w
  · split
    · exact setCall_ops rfl
    · exact request_ops s _ _ w
  · split_ifs
    · exact setCall_ops rfl
    · exact setCall_ops rfl
    · exact request_ops s _ _ w
  · unfold callTool
    dsimp only
    split_ifs
    · exact setCall_ops rfl
    · exact setCall_ops rfl
    · split
      · exact request_ops s _ _ w
      · split
        · split_ifs
          · exact request_ops s _ _ w
          · exact setCall_ops rfl
        · exact setCall_ops rfl
  · unfold callHostIngress
    split_ifs
    · exact setCall_ops rfl
    · split
      · split
        · exact setCall_ops rfl
        · split_ifs
          · exact request_ops s _ _ w
          · exact setCall_ops rfl
      · exact setCall_ops rfl
  · split
    · exact setCall_ops rfl
    · exact enterLifecycle_ops s w
  · exact setCall_ops rfl
  · exact enterLifecycle_ops s w
  · exact setCall_ops rfl

/-- A call that awaits its request waits on, or ends. -/
theorem resume_awaiting {id : Nat} {w : Bool} (h₀ : (s.calls t).pc.awaiting = some id)
    (h : s.resume py p t w = some s') :
    ∃ pc, s'.calls t = { s.calls t with pc } ∧ (pc.awaiting = some id ∨ ∃ r, pc = .finished r) := by
  have hends : ∀ i e, ∃ pc, (s.unwind t i e).calls t = { s.calls t with pc } ∧
      (pc.awaiting = some id ∨ ∃ r, pc = .finished r) := by
    intro i e
    obtain ⟨r, hr, -⟩ := fail_ended ({ s with desk := s.desk.abandon i } : State) t e
    exact ⟨_, hr.call, .inr ⟨r, rfl⟩⟩
  unfold resume at h
  dsimp only at h
  split at h
  · rename_i hpc
    rw [hpc] at h₀
    cases h₀
  · rename_i i hpc
    rw [hpc] at h₀
    split_ifs at h
    · cases h
      exact hends i _
    · cases h
      exact ⟨.waiting i, by simp [setPc, setCall], .inl h₀⟩
    · cases h
      exact hends i _
  · rename_i i hpc
    split at h
    · cases h
    · cases h
      exact hends i _
    · split_ifs at h
      · cases h
        exact hends i _
      · split at h
        · rename_i v _
          cases h
          obtain ⟨r, hr, -⟩ := complete_ended py p ({ s with desk := s.desk.abandon i } : State) t v
          exact ⟨_, hr.call, .inr ⟨r, rfl⟩⟩
        · cases h
          exact hends i _
        · cases h
          exact hends i _
  · rename_i hpc
    rw [hpc] at h₀
    cases h₀
  · cases h

theorem cancel_call (h : s.cancel t = some s') :
    s'.calls t = { s.calls t with cancel := true } ∧ s'.ops = s.ops := by
  unfold cancel at h
  dsimp only at h
  split at h
  · cases h
  · cases h
  · cases h
    exact ⟨by simp [setCall], setCall_ops rfl⟩
  · cases h
    exact ⟨by simp [setCall], setCall_ops rfl⟩

end State

end KestrelSdk.Client

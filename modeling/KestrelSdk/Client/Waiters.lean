import KestrelSdk.Client.Queue

namespace KestrelSdk.Client

open Json Protocol Asyncio

/-- A call that reaches `start` after `close` was called on a client without a read task, whose
stream has not ended. -/
def startsLate (s : State) : Action → Bool
  | .call _ op _ =>
    !s.hasReadTask && s.closedExc.isNone && decide (s.closeTask ≠ .absent) &&
      match op with
      | .start => true
      | .request _ _ => true
      | .initializeCall _ _ => true
      | .health => true
      | .listTools => s.ready
      | .callTool _ _ _ => s.ready
      | _ => false
  | _ => false

/-- A client on which no read task is created after `close` was called. -/
def attended (py : Interpreter) (p : Str) : Machine State Action :=
  (machine py p).restrict fun s a => !startsLate s a

namespace Mail

variable {m m' : Mail}

theorem dispatch_read (m : Mail) (es : List Event) : (m.dispatch .read es).read.Suspended := by
  induction es with
  | nil => exact trivial
  | cons e rest ih =>
    unfold dispatch
    split
    · exact ih
    · exact .delivering _

theorem underLock_read (m : Mail) (live : Option Event) : (m.underLock .read live).read.Suspended := by
  unfold underLock
  split
  · split
    · exact trivial
    · exact dispatch_read _ _
  · exact dispatch_read _ _

/-- The read task goes on unless it is stopped. -/
theorem enter_read (m : Mail) (live : Option Event) : (m.enter .read live).read.Suspended := by
  unfold enter
  split
  · exact underLock_read _ live
  · exact .locking live

theorem works_read (h : m.locked .read = some m' ∨ m.handled .read = some m') :
    m'.read.Suspended := by
  rcases h with h | h
  · unfold locked at h
    split at h
    · split at h
      · cases h
        exact m.underLock_read _
      · cases h
    · cases h
  · unfold handled at h
    split at h
    · split at h
      · cases h
        exact .delivering _
      · cases h
        exact m.dispatch_read _
    · cases h

end Mail

/-- The read task is created before the close task and runs before it, it lives as long as the
stream is not terminal, and a terminal client has no pending request. -/
structure Engine.Attended (e : Engine) : Prop where
  queued : e.Queued
  order : ¬ List.Sublist [Task.close, .worker .read] e.fresh
  cancelled : e.readCancel = true → e.mail.read ≠ .created ∧ e.closeTask ≠ .absent
  live : e.hasReadTask = true → e.closedExc = none → e.mail.read = .created ∨ e.mail.read.Suspended
  drained : e.closedExc ≠ none → e.desk.pending = []
  unstarted : e.hasReadTask = false → e.closedExc = none → e.desk.pending = []
  gathers : ∀ r ds, e.closeTask = .gathering r ds → e.closedExc = none → e.hasReadTask = r
  closes : ∀ r, e.closeTask = .locking r ∨ e.closeTask = .closing r → e.closedExc = none →
    e.hasReadTask = false
  done : e.closeTask = .done → e.closedExc ≠ none

namespace Engine

variable {e e' : Engine}

theorem Attended.start : Attended {} := by
  refine ⟨.start, by simp, by simp, by simp, by simp, by simp, by simp, by simp, by simp⟩

/-- A change of the request table that leaves no request pending where none was. -/
theorem Attended.setDesk (h : e.Attended) {d : Desk} (hd : e.desk.pending = [] → d.pending = []) :
    ({ e with desk := d } : Engine).Attended :=
  ⟨⟨h.queued.nodup, h.queued.worker, h.queued.drains, h.queued.close, h.queued.unread⟩, h.order,
    h.cancelled, h.live, fun hx => hd (h.drained hx), fun h1 h2 => hd (h.unstarted h1 h2),
    h.gathers, h.closes, h.done⟩

theorem Attended.createCloseTask (h : e.Attended) : e.createCloseTask.Attended := by
  have hq := h.queued.createCloseTask
  unfold Engine.createCloseTask at hq ⊢
  split at hq
  · refine ⟨hq, ?_, fun hr => ⟨(h.cancelled hr).1, by simp⟩, h.live, h.drained, h.unstarted,
      by simp, by simp, by simp⟩
    intro hsub
    obtain ⟨a, b, hab, ha, hb⟩ := List.sublist_append_iff.1 hsub
    rcases List.sublist_singleton.1 hb with rfl | rfl
    · rw [List.append_nil] at hab
      exact h.order (hab ▸ ha)
    · have := congrArg List.getLast? hab
      simp at this
  · exact h

/-- `start` creates the read task, unless `close` was called. -/
theorem Attended.createReadTask (h : e.Attended) (hx : e.closedExc = none)
    (hc : e.hasReadTask = false → e.closeTask = .absent) (d : Desk) :
    ({ e.createReadTask with desk := d } : Engine).Attended := by
  have hq := h.queued.createReadTask hx
  unfold Engine.createReadTask at hq ⊢
  split
  · rename_i hr
    refine ⟨⟨h.queued.nodup, h.queued.worker, h.queued.drains, h.queued.close, h.queued.unread⟩,
      h.order, h.cancelled, h.live, fun h1 => absurd hx h1, fun h1 => ?_, h.gathers, h.closes,
      h.done⟩
    rw [hr] at h1
    cases h1
  · rename_i hr
    have habs := hc (Bool.eq_false_iff.2 hr)
    rw [if_neg hr] at hq
    refine ⟨⟨hq.nodup, hq.worker, hq.drains, hq.close, by simp⟩, ?_, fun h1 => ?_,
      fun _ _ => .inl rfl, fun h1 => absurd hx h1, by simp, by simp [habs], by simp [habs],
      by simp [habs]⟩
    · intro hsub
      have hm : Task.close ∈ e.fresh := by
        have := hsub.subset (List.mem_cons_self)
        simpa using this
      rw [h.queued.close, habs] at hm
      cases hm
    · exact absurd habs (h.cancelled h1).2

/-- A worker other than the read task moves, or the read task goes on. -/
theorem Attended.only {m : Mail} {w : Worker} (h : e.Attended) (hm : Mail.Only w e.mail m)
    (hw : (e.mail.pc w).Suspended) (hread : w = .read → m.read.Suspended) :
    ({ e with mail := m } : Engine).Attended := by
  have hpc : m.read = e.mail.read ∨ m.read.Suspended := by
    by_cases hr : w = .read
    · exact .inr (hread hr)
    · exact .inl (hm.others .read fun he => hr he.symm)
  refine ⟨h.queued.only hm hw, h.order, fun h1 => ⟨?_, (h.cancelled h1).2⟩, fun h1 h2 => ?_,
    h.drained, h.unstarted, h.gathers, h.closes, h.done⟩
  · rcases hpc with hpc | hpc
    · rw [show ({ e with mail := m } : Engine).mail.read = e.mail.read from hpc]
      exact (h.cancelled h1).1
    · exact hpc.ne_created
  · rcases hpc with hpc | hpc
    · rw [show ({ e with mail := m } : Engine).mail.read = e.mail.read from hpc]
      exact h.live h1 h2
    · exact .inr hpc

/-- The close task moves on over tasks that are done. -/
theorem Attended.closeEnter {r : Bool} (h : e.Attended) (hq : (e.closeEnter r).Queued)
    (hr : e.closedExc = none → e.hasReadTask = false) :
    (e.closeEnter r).Attended := by
  obtain ⟨h1, h2, h3, h4, h5, h6⟩ := e.closeEnter_frame r
  have hpc : (e.closeEnter r).mail.read = e.mail.read := congrFun h1 .read
  have hdesk := e.closeEnter_desk r
  have hcancel : (e.closeEnter r).readCancel = e.readCancel := by
    unfold Engine.closeEnter
    split
    · rfl
    · rfl
  refine ⟨hq, h3 ▸ h.order, fun h7 => ?_, fun h7 h8 => ?_, fun h7 => ?_, fun h7 h8 => ?_,
    fun q ds h7 => ?_, fun _ _ h8 => ?_, fun h7 => ?_⟩
  · rw [hpc]
    refine ⟨(h.cancelled (hcancel ▸ h7)).1, ?_⟩
    rcases h6 with h6 | h6
    · simp [h6]
    · simp [h6]
  · rw [hpc]
    exact h.live (h5 ▸ h7) (h4 ▸ h8)
  · rw [hdesk]
    exact h.drained (h4 ▸ h7)
  · rw [hdesk]
    exact h.unstarted (h5 ▸ h7) (h4 ▸ h8)
  · rcases h6 with h6 | h6
    · rw [h6] at h7
      cases h7
    · rw [h6] at h7
      cases h7
  · rw [h5]
    exact hr (h4 ▸ h8)
  · rcases h6 with h6 | h6
    · rw [h6] at h7
      cases h7
    · rw [h6] at h7
      cases h7

/-- The close task runs after the read task that it cancels. -/
theorem Attended.closeBegin {l : List Task} (h : e.Attended) (hf : e.fresh = .close :: l)
    (hq : ({ e with fresh := l } : Engine).closeBegin.Queued) :
    ({ e with fresh := l } : Engine).closeBegin.Attended := by
  obtain ⟨h1, h2, h3, h4, h5, h6⟩ := closeBegin_frame { e with fresh := l }
  have hdesk := closeBegin_desk { e with fresh := l }
  have hpc : ({ e with fresh := l } : Engine).closeBegin.mail.read = e.mail.read :=
    congrFun h1 .read
  have hcreated : e.mail.read ≠ .created := by
    intro hc
    have hm : Task.worker .read ∈ Task.close :: l := hf ▸ (h.queued.worker .read).2 hc
    rcases List.mem_cons.1 hm with hm | hm
    · cases hm
    · apply h.order
      rw [hf]
      exact (List.singleton_sublist.2 hm).cons_cons _
  have hsub : List.Sublist l e.fresh := by
    rw [hf]
    exact List.sublist_cons_self _ _
  refine ⟨hq, fun h7 => h.order ((h3 ▸ h7).trans hsub), fun _ => ⟨hpc ▸ hcreated, ?_⟩,
    fun h7 h8 => ?_, fun h7 => ?_, fun h7 h8 => ?_, fun r ds h7 _ => ?_, fun r h7 _ => ?_,
    fun h7 => ?_⟩
  · rcases h6 with h6 | ⟨-, -, h6 | h6⟩ <;> simp [h6]
  · rw [hpc]
    exact h.live (h5 ▸ h7) (h4 ▸ h8)
  · rw [hdesk]
    exact h.drained (h4 ▸ h7)
  · rw [hdesk]
    exact h.unstarted (h5 ▸ h7) (h4 ▸ h8)
  · rw [h5]
    rcases h6 with h6 | ⟨-, -, h6 | h6⟩
    · rw [h6] at h7
      injection h7
    · rw [h6] at h7
      cases h7
    · rw [h6] at h7
      cases h7
  · rw [h5]
    rcases h6 with h6 | ⟨h6, -, -⟩
    · rw [h6] at h7
      simp at h7
    · exact h6
  · rcases h6 with h6 | ⟨-, -, h6 | h6⟩ <;> simp [h6] at h7

variable {py : Interpreter} {shut : Bool} {g : Signal}

/-- Every signal keeps a client attended. -/
theorem Attended.step (h : e.Attended) (hs : e.step py shut g = some e') : e'.Attended := by
  have hq := h.queued.step hs
  cases step_move hs with
  | idle he => exact he ▸ h
  | registers _ he =>
    subst he
    have hread : e.onEvent.mail.read = e.mail.read := by
      rcases e.mail.onEvent_cases with ⟨-, hpc⟩ | ⟨-, hpc⟩
      · exact congrFun hpc .read
      · exact (hpc .read).trans (if_neg (by simp))
    refine ⟨hq, ?_, fun h1 => ?_, fun h1 h2 => ?_, h.drained, h.unstarted, h.gathers, h.closes,
      h.done⟩
    · unfold Engine.onEvent
      dsimp only
      split
      · intro hsub
        obtain ⟨a, b, hab, ha, hb⟩ := List.sublist_append_iff.1 hsub
        rcases List.sublist_singleton.1 hb with rfl | rfl
        · rw [List.append_nil] at hab
          exact h.order (hab ▸ ha)
        · have := congrArg List.getLast? hab
          simp at this
      · exact h.order
    · rw [hread]
      exact h.cancelled h1
    · rw [hread]
      exact h.live h1 h2
  | beginsRead l hf he =>
    have hcr : e.mail.read = .created := (h.queued.worker .read).1 (by simp [hf])
    have hrc : e.readCancel = false := by
      by_contra hne
      exact (h.cancelled (by simpa using hne)).1 hcr
    have hsub : List.Sublist l e.fresh := by
      rw [hf]
      exact List.sublist_cons_self _ _
    subst he
    refine ⟨hq, fun h1 => h.order (h1.trans hsub), fun h1 => ?_, fun _ _ => .inr ?_, h.drained,
      h.unstarted, h.gathers, h.closes, h.done⟩
    · rw [show ({ e with fresh := l } : Engine).readCancel = false from hrc] at h1
      cases h1
    · simp only [hrc]
      exact trivial
  | beginsDrain k l hf he =>
    have hread : e'.mail.read = e.mail.read := by
      subst he
      dsimp only
      split
      · rfl
      · exact (e.mail.enter_only (.drain k) none).others .read (by simp)
    have hsub : List.Sublist l e.fresh := by
      rw [hf]
      exact List.sublist_cons_self _ _
    subst he
    refine ⟨hq, fun h1 => h.order (h1.trans hsub), fun h1 => ?_, fun h1 h2 => ?_, h.drained,
      h.unstarted, h.gathers, h.closes, h.done⟩
    · rw [hread]
      exact h.cancelled h1
    · rw [hread]
      exact h.live h1 h2
  | beginsClose l hf he =>
    subst he
    exact h.closeBegin hf hq
  | answers b r _ _ _ he =>
    subst he
    refine h.setDesk fun hp => ?_
    rcases e.desk.answer_cases r with ha | ⟨i, hm, -, -⟩
    · rw [ha]
      exact hp
    · rw [hp] at hm
      cases hm
  | receives b params _ hr he =>
    subst he
    have h₁ : ({ e with mail := { e.mail with
        stream := e.mail.stream ++ [⟨e.mail.stream.length, params⟩] } } : Engine).Attended :=
      ⟨⟨h.queued.nodup, h.queued.worker, h.queued.drains, h.queued.close, h.queued.unread⟩, h.order,
        h.cancelled, h.live, h.drained, h.unstarted, h.gathers, h.closes, h.done⟩
    have hs : e.mail.read.Suspended := hr ▸ trivial
    exact h₁.only (e.mail.receive_only params) hs fun _ => Mail.enter_read _ _
  | readEnds x hr he =>
    subst he
    exact ⟨hq, h.order, fun h1 => ⟨by simp [endRead, Mail.stop, Mail.setPc], (h.cancelled h1).2⟩,
      fun _ h2 => absurd h2 (by simp [endRead]), fun _ => rfl, fun _ _ => rfl,
      fun _ _ _ h2 => absurd h2 (by simp [endRead]), fun _ _ h2 => absurd h2 (by simp [endRead]),
      fun _ => by simp [endRead]⟩
  | drainEnds k hk _ he =>
    subst he
    exact h.only (e.mail.stop_only (.drain k)) hk (by simp)
  | works w m hm he =>
    subst he
    obtain ⟨hw, honly⟩ := Mail.works_only hm
    refine h.only honly hw fun hr => ?_
    subst hr
    exact Mail.works_read hm
  | gathers r ds hc hr _ he =>
    subst he
    refine h.closeEnter hq fun hx => ?_
    have hread := h.gathers r ds hc hx
    cases r with
    | false => exact hread
    | true =>
      rcases h.live hread hx with hl | hl
      · rw [hl] at hr
        simp [isDone] at hr
      · have hd := hr rfl
        rw [hl.not_done] at hd
        cases hd
  | clears r hc _ he =>
    subst he
    exact ⟨hq, h.order, fun h1 => ⟨(h.cancelled h1).1, by simp [closeClear]⟩, h.live, h.drained,
      h.unstarted, by simp [closeClear], fun _ _ h2 => h.closes r (.inl hc) h2,
      by simp [closeClear]⟩
  | closes r hc he =>
    subst he
    have hp : e.desk.pending = [] := by
      by_cases hx : e.closedExc = none
      · exact h.unstarted (h.closes r (.inr hc) hx) hx
      · exact h.drained hx
    exact ⟨hq, h.order, fun h1 => ⟨(h.cancelled h1).1, by simp⟩, fun _ h2 => by simp at h2,
      fun _ => hp, fun _ h2 => by simp at h2, by simp, by simp, by simp⟩

end Engine

namespace State

variable {s s' : State} {t : Tid}

/-- Once `close` was called, no section of a call gets as far as `start`. -/
theorem lifecycleSection_shut (py : Interpreter) (w : Bool) (h : s.shutdownStarted = true) :
    (s.lifecycleSection py t w).hasReadTask = s.hasReadTask := by
  unfold lifecycleSection
  split
  · unfold transition
    simp only [h, if_true]
    rfl
  · unfold shutdownSection
    simp only [h, if_true]
    rfl

theorem enterLifecycle_shut (py : Interpreter) (w : Bool) (h : s.shutdownStarted = true) :
    (s.enterLifecycle py t w).hasReadTask = s.hasReadTask := by
  unfold enterLifecycle
  split
  · rename_i l _
    exact lifecycleSection_shut (s := { s with lifecycleLock := l }) py w h
  · rfl

/-- The other methods of an unready client that `close` was called on do not reach `start`. -/
theorem invoke_shut {py : Interpreter} {v : Str} {w : Bool} (h : s.shutdownStarted = true)
    (hop : match (s.calls t).op with
      | .start => False
      | .request _ _ => False
      | .initializeCall _ _ => False
      | .health => False
      | .listTools => s.ready = false
      | .callTool _ _ _ => s.ready = false
      | _ => True) :
    (s.invoke py v t w).hasReadTask = s.hasReadTask := by
  unfold invoke
  split
  · rename_i hc
    simp [hc] at hop
  · rename_i hc
    simp [hc] at hop
  · rename_i hc
    simp [hc] at hop
  · rename_i hc
    simp [hc] at hop
  · rename_i hc
    simp only [hc] at hop
    simp only [hop, Bool.not_false, if_true]
    split
    · rfl
    · rfl
  · rename_i hc
    simp only [hc] at hop
    unfold callTool
    simp only [hop, Bool.not_false, if_true]
    split
    · rfl
    · rfl
  · unfold callHostIngress
    simp only [h, Bool.true_or, if_true]
    rfl
  · split
    · rfl
    · exact enterLifecycle_shut py w h
  · rfl
  · exact enterLifecycle_shut py w h
  · show s.createCloseTask.hasReadTask = s.hasReadTask
    unfold Engine.createCloseTask
    split
    · rfl
    · rfl

/-- A call that creates the read task does so before `close` is called. -/
theorem Called.read_early {py : Interpreter} {p : Str} {a : Action}
    (ha : a.caller = some t) (hlate : startsLate s a = false)
    (hsd : s.closeTask ≠ .absent → s.shutdownStarted = true)
    (hnone : (s.calls t).pc.awaiting = none) (hx : s.closedExc = none) (hr : s.hasReadTask = false) (hr' : s'.hasReadTask = true)
    (h : step py p s a = some s') : s.closeTask = .absent := by
  by_contra hc
  have hshut := hsd hc
  have hkeep : s'.hasReadTask = s.hasReadTask → False := by
    intro he
    rw [he, hr] at hr'
    cases hr'
  apply hkeep
  cases a with
  | call u op w =>
    simp only [step] at h
    split at h
    · cases h
      refine invoke_shut (s := s.setCall u { op }) hshut ?_
      simp only [startsLate, hr, hx] at hlate
      simp only [setCall, Function.update_self]
      cases op <;> simp_all
    · cases h
  | resume u ok =>
    cases ha
    simp only [step, resume] at h
    split at h
    · split_ifs at h
      · cases h
        rfl
      · cases h
        rfl
      · cases h
        exact lifecycleSection_shut py ok hshut
    · rename_i id hpc
      rw [hpc] at hnone
      cases hnone
    · rename_i id hpc
      rw [hpc] at hnone
      cases hnone
    · split_ifs at h
      · cases h
        rfl
      · split at h
        · cases h
          rfl
        · cases h
    · cases h
  | cancel u =>
    simp only [step, cancel] at h
    split at h
    · cases h
    · cases h
    · cases h
      rfl
    · cases h
      rfl
  | signal g => cases ha

end State

/-- No signal makes a client look as if it had not been started. -/
theorem Engine.step_unstarted {py : Interpreter} {shut : Bool} {g : Signal} {e e' : Engine}
    (hs : e.step py shut g = some e') (hr : e'.hasReadTask = false) (hx : e'.closedExc = none) :
    e.hasReadTask = false ∧ e.closedExc = none := by
  cases step_move hs with
  | beginsClose l _ he =>
    obtain ⟨-, -, -, h4, h5, -⟩ := closeBegin_frame { e with fresh := l }
    subst he
    exact ⟨h5 ▸ hr, h4 ▸ hx⟩
  | gathers r ds _ _ _ he =>
    obtain ⟨-, -, -, h4, h5, -⟩ := e.closeEnter_frame r
    subst he
    exact ⟨h5 ▸ hr, h4 ▸ hx⟩
  | readEnds x _ he =>
    subst he
    cases hx
  | closes r _ he =>
    subst he
    cases hx
  | idle he => exact he ▸ ⟨hr, hx⟩
  | registers _ he =>
    subst he
    exact ⟨hr, hx⟩
  | beginsRead _ _ he =>
    subst he
    exact ⟨hr, hx⟩
  | beginsDrain _ _ _ he =>
    subst he
    exact ⟨hr, hx⟩
  | answers _ _ _ _ _ he =>
    subst he
    exact ⟨hr, hx⟩
  | receives _ _ _ _ he =>
    subst he
    exact ⟨hr, hx⟩
  | drainEnds _ _ _ he =>
    subst he
    exact ⟨hr, hx⟩
  | works _ _ _ he =>
    subst he
    exact ⟨hr, hx⟩
  | clears _ _ _ he =>
    subst he
    exact ⟨hr, hx⟩

/-- An attended client on which nothing waits before its first request. -/
structure State.Minded (s : State) : Prop where
  ordered : s.Ordered
  attended : s.toEngine.Attended
  silent : s.hasReadTask = false → s.closedExc = none → ∀ t, (s.calls t).pc.awaiting = none

theorem Engine.createReadTask_has (e : Engine) : e.createReadTask.hasReadTask = true := by
  unfold createReadTask
  split
  · assumption
  · rfl

variable {py : Interpreter} {p : Str} {s s' : State} {a : Action}

theorem State.Minded.call {t : Tid} (hs : s.Minded) (ha : a.caller = some t)
    (hok : startsLate s a = false) (h : step py p s a = some s') (hc : Called s s' t) :
    s'.toEngine.Attended := by
  have hpend : ∀ i, s.desk.pending = [] → (s.desk.abandon i).pending = [] := by
    intro i hp
    simp [Desk.abandon, hp]
  have hread : ∀ d, s'.toEngine = { s.createReadTask with desk := d } → s.closedExc = none →
      (s.calls t).pc.awaiting = none → s'.toEngine.Attended := by
    intro d he hx hnone
    rw [he]
    refine hs.attended.createReadTask hx (fun hr => ?_) d
    refine Called.read_early ha hok hs.ordered.shut hnone hx hr ?_ h
    exact (congrArg Engine.hasReadTask he).trans s.toEngine.createReadTask_has
  cases hc.move with
  | inert _ he => exact he ▸ hs.attended
  | closes _ _ _ he => exact he ▸ hs.attended.createCloseTask
  | starts _ h₀ hx he => exact hread _ he hx h₀
  | sends _ _ _ h₀ hx _ he => exact hread _ he hx h₀
  | refused _ h₀ hx he => exact hread _ he hx h₀
  | ends i _ _ he => exact he ▸ hs.attended.setDesk (hpend i)
  | cancels i _ _ he =>
    exact he ▸ hs.attended.setDesk fun hp => (s.desk.cancel_frame i).2.2.1.trans hp

theorem State.Minded.step (hs : s.Minded) (hok : startsLate s a = false)
    (h : step py p s a = some s') : s'.Minded := by
  refine ⟨step_ordered hs.ordered h, ?_, fun hr hx u => ?_⟩
  · rcases step_cases h hs.ordered.tabled with ⟨t, ha, hc⟩ | ⟨g, e, -, he, rfl⟩
    · exact hs.call ha hok h hc
    · exact hs.attended.step he
  · rcases step_cases h hs.ordered.tabled with ⟨t, ha, hc⟩ | ⟨g, e, -, he, rfl⟩
    · -- a client that is still unstarted was so before
      have hold : s.hasReadTask = false ∧ s.closedExc = none := by
        obtain ⟨d, he | ⟨-, he⟩ | ⟨-, he⟩⟩ := hc.move.engine
        · exact ⟨(congrArg Engine.hasReadTask he).symm.trans hr,
            (congrArg Engine.closedExc he).symm.trans hx⟩
        · obtain ⟨h1, h2⟩ := s.toEngine.createCloseTask_frame
          exact ⟨h1.symm.trans ((congrArg Engine.hasReadTask he).symm.trans hr),
            h2.symm.trans ((congrArg Engine.closedExc he).symm.trans hx)⟩
        · have := (congrArg Engine.hasReadTask he).trans s.toEngine.createReadTask_has
          rw [hr] at this
          cases this
      have hquiet := hs.silent hold.1 hold.2
      by_cases hu : u = t
      · subst hu
        cases hc.move with
        | inert hpc _ => exact hpc.trans (hquiet u)
        | closes hpc => exact hpc
        | starts hpc => exact hpc
        | sends _ _ _ _ _ _ he =>
          have := (congrArg Engine.hasReadTask he).trans s.toEngine.createReadTask_has
          rw [hr] at this
          cases this
        | refused hpc => exact hpc
        | ends _ hpc => exact hpc
        | cancels _ hpc => exact hpc ▸ hquiet u
      · rw [hc.others u hu]
        exact hquiet u
    · obtain ⟨h1, h2⟩ := Engine.step_unstarted he hr hx
      exact hs.silent h1 h2 u

theorem attended_minded (h : (attended py p).Reachable s) : s.Minded := by
  refine h.invariant (p := State.Minded) ?_ fun s a s' hs ha => ?_
  · exact ⟨⟨.start, .start, fun h => absurd rfl h⟩, .start, fun _ _ _ => rfl⟩
  · obtain ⟨hok, ha⟩ := Machine.restrict_step ha
    exact hs.step (by simpa using hok) ha

/-- The client is terminal: its read loop has ended, or `close` has returned. -/
def State.Terminal (s : State) : Prop := isDone s.mail.read = true ∨ s.closeTask = .done

theorem State.Minded.terminal (hs : s.Minded) (ht : s.Terminal) : s.closedExc ≠ none := by
  intro hx
  rcases ht with ht | ht
  · cases hr : s.hasReadTask with
    | false =>
      rw [hs.attended.queued.unread hr hx] at ht
      cases ht
    | true =>
      rcases hs.attended.live hr hx with hl | hl
      · rw [hl] at ht
        cases ht
      · rw [hl.not_done] at ht
        cases ht
  · exact hs.attended.done ht hx

/-- A request of a client that is terminal raises, and writes nothing. -/
theorem request_refused {t : Tid} {m : Str} {q : Dict} {w : Bool} (hx : s.closedExc ≠ none)
    (h : step py p s (.call t (.request m q) w) = some s') :
    (∃ x, (s'.calls t).pc = .finished (.error (.terminal x))) ∧ s'.desk = s.desk := by
  simp only [step] at h
  split at h
  · cases h
    cases hc : s.closedExc with
    | none => exact absurd hc hx
    | some x =>
      simp [State.invoke, State.request, State.fail, State.setCall, State.finish, State.setPc, hc]
  · cases h

/-- No waiter is stranded on a terminal client as long as no read task is created after `close` was
called. -/
theorem no_waiter_stranded (h : (attended py p).Reachable s) (ht : s.Terminal) :
    (∀ t id, (s.calls t).pc.awaiting = some id → s.desk.futures id ≠ .pending) ∧
      s.desk.pending = [] ∧
      ∀ t m q w s', step py p s (.call t (.request m q) w) = some s' →
        (∃ x, (s'.calls t).pc = .finished (.error (.terminal x))) ∧ s'.desk = s.desk := by
  have hs := attended_minded h
  have hx := hs.terminal ht
  have hp := hs.attended.drained hx
  refine ⟨fun t id hid => ?_, hp, fun t m q w s' hs' => request_refused hx hs'⟩
  rcases hs.ordered.tabled.listed t id hid with hl | hl
  · rw [hp] at hl
    cases hl
  · exact hl

/-- A request whose stream ends. -/
theorem no_waiter_stranded_eof :
    let s := (attended .floatless []).after
      [.call 0 (.request (str "echo") []) true, .signal .begin, .resume 0 true, .signal .readEof]
    s.Terminal ∧ (s.calls 0).pc.awaiting = some 1 ∧ s.desk.futures 1 ≠ .pending := by
  intro s
  have hreach : (attended .floatless []).Reachable s := Machine.reachable_after rfl
  exact ⟨.inl rfl, rfl, (no_waiter_stranded hreach (.inl rfl)).1 0 1 rfl⟩

/-- A request between `close` and the first step of its task: the read task is cancelled before
it runs, and the request waits for ever. -/
theorem request_after_close_stranded :
    let s := (machine .floatless []).after
      [.call 0 .close true, .call 1 (.request (str "echo") []) true, .signal .begin, .signal .begin,
        .signal .closeGathered, .signal .closeWaited, .resume 0 true, .resume 1 true]
    (machine .floatless []).Reachable s ∧ s.Terminal ∧ (s.calls 0).pc = .finished (.ok .none) ∧
      (s.calls 1).pc = .waiting 1 ∧ s.desk.futures 1 = .pending ∧ s.fresh = [] := by
  intro s
  exact ⟨Machine.reachable_after rfl, .inr rfl, rfl, rfl, rfl, rfl⟩

end KestrelSdk.Client

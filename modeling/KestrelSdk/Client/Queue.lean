import KestrelSdk.Client.Table

namespace KestrelSdk.Client

open Json Protocol Asyncio

namespace Mail

@[simp] theorem setPc_pc_self (m : Mail) (w : Worker) (p : Pc) : (m.setPc w p).pc w = p := by
  cases w with
  | read => rfl
  | drain k => simp [setPc, pc]

theorem setPc_pc_of_ne (m : Mail) {w u : Worker} (p : Pc) (h : u ≠ w) :
    (m.setPc w p).pc u = m.pc u := by
  cases w with
  | read =>
    cases u with
    | read => exact absurd rfl h
    | drain j => rfl
  | drain k =>
    cases u with
    | read => rfl
    | drain j =>
      have hj : j ≠ k := fun hjk => h (by rw [hjk])
      simp [setPc, pc, hj]

/-- What the section of one worker leaves alone: the other workers, the registrations and the
stream. -/
structure Only (w : Worker) (m m' : Mail) : Prop where
  others : ∀ u, u ≠ w → m'.pc u = m.pc u
  own : (m'.pc w).Suspended ∨ m'.pc w = .ended
  handlers : m'.handlers = m.handlers
  nextHandler : m'.nextHandler = m.nextHandler
  nextDrain : m'.nextDrain = m.nextDrain
  stream : m'.stream = m.stream
  opening : m'.opening = m.opening
  joined : m'.joined = m.joined

variable {m m₁ m' : Mail} {w : Worker}

theorem setPc_only (m : Mail) (w : Worker) {p : Pc} (hp : p.Suspended ∨ p = .ended) :
    Only w m (m.setPc w p) where
  others _ hu := m.setPc_pc_of_ne p hu
  own := by
    rw [setPc_pc_self]
    exact hp
  handlers := by cases w <;> rfl
  nextHandler := by cases w <;> rfl
  nextDrain := by cases w <;> rfl
  stream := by cases w <;> rfl
  opening := by cases w <;> rfl
  joined := by cases w <;> rfl

/-- A change of the lock, the buffer or the deliveries before the section. -/
theorem Only.after (h : Only w m₁ m') (hp : m₁.pc = m.pc)
    (hs : (m₁.handlers, m₁.nextHandler, m₁.nextDrain, m₁.stream, m₁.opening, m₁.joined) =
      (m.handlers, m.nextHandler, m.nextDrain, m.stream, m.opening, m.joined)) : Only w m m' := by
  simp only [Prod.mk.injEq] at hs
  obtain ⟨h1, h2, h3, h4, h5, h6⟩ := hs
  exact ⟨fun u hu => (h.others u hu).trans (congrFun hp u), h.own, h.handlers.trans h1,
    h.nextHandler.trans h2, h.nextDrain.trans h3, h.stream.trans h4, h.opening.trans h5,
    h.joined.trans h6⟩

theorem pc_eq {m₁ : Mail} (h : (m₁.read, m₁.drains) = (m.read, m.drains)) : m₁.pc = m.pc := by
  simp only [Prod.mk.injEq] at h
  funext w
  cases w with
  | read => exact h.1
  | drain k => exact congrFun h.2 k

theorem release_only (m : Mail) (w : Worker) : Only w m (m.release w) := by
  refine (setPc_only _ w ?_).after (pc_eq rfl) rfl
  cases w with
  | read => exact .inl trivial
  | drain k => exact .inr rfl

theorem dispatch_only (m : Mail) (w : Worker) (es : List Event) : Only w m (m.dispatch w es) := by
  induction es with
  | nil => exact m.release_only w
  | cons e rest ih =>
    unfold dispatch
    split
    · exact ih
    · exact (setPc_only _ w (.inl (.delivering _))).after (pc_eq rfl) rfl

theorem push_frame (m : Mail) (e : Event) :
    (m.push e).pc = m.pc ∧ ((m.push e).handlers, (m.push e).nextHandler, (m.push e).nextDrain,
      (m.push e).stream, (m.push e).opening, (m.push e).joined) =
      (m.handlers, m.nextHandler, m.nextDrain, m.stream, m.opening, m.joined) := by
  unfold push
  split
  · split
    · exact ⟨pc_eq rfl, rfl⟩
    · exact ⟨pc_eq rfl, rfl⟩
  · exact ⟨pc_eq rfl, rfl⟩

theorem underLock_only (m : Mail) (w : Worker) (live : Option Event) :
    Only w m (m.underLock w live) := by
  unfold underLock
  split
  · rename_i e
    split
    · obtain ⟨h1, h2⟩ := m.push_frame e
      exact ((m.push e).release_only w).after h1 h2
    · exact (dispatch_only _ w _).after (pc_eq rfl) rfl
  · exact (dispatch_only _ w _).after (pc_eq rfl) rfl

theorem enter_only (m : Mail) (w : Worker) (live : Option Event) : Only w m (m.enter w live) := by
  unfold enter
  split
  · exact (underLock_only _ w live).after (pc_eq rfl) rfl
  · exact (setPc_only _ w (.inl (.locking _))).after (pc_eq rfl) rfl

theorem stop_only (m : Mail) (w : Worker) : Only w m (m.stop w) :=
  (setPc_only _ w (.inr rfl)).after (pc_eq rfl) rfl

/-- `receive` adds the event to the stream before it enters. -/
theorem receive_only (m : Mail) (params : Dict) :
    Only .read { m with stream := m.stream ++ [⟨m.stream.length, params⟩] } (m.receive params) :=
  enter_only _ .read _

/-- The worker that goes on stood at an await. -/
theorem works_only (h : m.locked w = some m' ∨ m.handled w = some m') :
    (m.pc w).Suspended ∧ Only w m m' := by
  rcases h with h | h
  · unfold locked at h
    split at h
    · rename_i live hpc
      split at h
      · cases h
        exact ⟨hpc ▸ trivial, m.underLock_only w live⟩
      · cases h
    · cases h
  · unfold handled at h
    split at h
    · rename_i d hpc
      refine ⟨hpc ▸ trivial, ?_⟩
      split at h
      · cases h
        exact (setPc_only _ w (.inl (.delivering _))).after (pc_eq rfl) rfl
      · cases h
        exact m.dispatch_only w d.rest
    · cases h

theorem onEvent_cases (m : Mail) :
    (m.onEvent.nextDrain = m.nextDrain ∧ m.onEvent.pc = m.pc) ∨
      (m.onEvent.nextDrain = m.nextDrain + 1 ∧
        ∀ w, m.onEvent.pc w = if w = .drain m.nextDrain then .created else m.pc w) := by
  unfold onEvent
  dsimp only
  split
  · right
    refine ⟨rfl, fun w => ?_⟩
    cases w with
    | read => rfl
    | drain k =>
      simp only [pc, Function.update_apply, Worker.drain.injEq]
  · exact .inl ⟨rfl, pc_eq rfl⟩

end Mail

namespace Engine

/-- The tasks that have not run are those that were created, each once; drains are numbered, and a
client without a read task has none that was created before. -/
structure Queued (e : Engine) : Prop where
  nodup : e.fresh.Nodup
  worker : ∀ w, .worker w ∈ e.fresh ↔ e.mail.pc w = .created
  drains : ∀ k, e.mail.nextDrain ≤ k → e.mail.drains k = .absent
  close : .close ∈ e.fresh ↔ e.closeTask = .created
  unread : e.hasReadTask = false → e.closedExc = none → e.mail.read = .absent

theorem Queued.start : Queued {} := by
  refine ⟨List.nodup_nil, fun w => ?_, fun _ _ => rfl, ?_, fun _ _ => rfl⟩
  · cases w <;> simp [Mail.pc]
  · simp

variable {e e' : Engine}

theorem Queued.createReadTask (h : e.Queued) (hx : e.closedExc = none) :
    e.createReadTask.Queued := by
  unfold Engine.createReadTask
  split
  · exact h
  · rename_i hr
    have hread := h.unread (Bool.eq_false_iff.2 hr) hx
    refine ⟨?_, fun w => ?_, h.drains, ?_, by simp⟩
    · refine List.nodup_append.2 ⟨h.nodup, by simp, ?_⟩
      intro a ha b hb hab
      cases List.mem_singleton.1 hb
      subst hab
      have := (h.worker .read).1 ha
      rw [show e.mail.pc .read = .absent from hread] at this
      cases this
    · cases w with
      | read => simp [Mail.pc]
      | drain k => simpa [Mail.pc] using h.worker (.drain k)
    · simpa using h.close

theorem Queued.createCloseTask (h : e.Queued) : e.createCloseTask.Queued := by
  unfold Engine.createCloseTask
  split
  · rename_i hc
    refine ⟨?_, fun w => ?_, h.drains, by simp, h.unread⟩
    · refine List.nodup_append.2 ⟨h.nodup, by simp, ?_⟩
      intro a ha b hb hab
      cases List.mem_singleton.1 hb
      subst hab
      have := h.close.1 ha
      rw [hc] at this
      cases this
    · simpa using h.worker w
  · exact h

/-- A worker that was not created a moment ago moves. -/
theorem Queued.only {m : Mail} {w : Worker} (h : e.Queued) (hm : Mail.Only w e.mail m)
    (hw : (e.mail.pc w).Suspended) :
    ({ e with mail := m } : Engine).Queued where
  nodup := h.nodup
  worker u := by
    by_cases hu : u = w
    · subst hu
      have h1 : e.mail.pc u ≠ .created := hw.ne_created
      have h2 : m.pc u ≠ .created := by
        rcases hm.own with h2 | h2
        · exact h2.ne_created
        · simp [h2]
      simp [h.worker u, h1, h2]
    · rw [show ({ e with mail := m } : Engine).mail.pc u = e.mail.pc u from hm.others u hu]
      exact h.worker u
  drains k hk := by
    have hk' : e.mail.nextDrain ≤ k := hm.nextDrain ▸ hk
    have habs := h.drains k hk'
    have hne : Worker.drain k ≠ w := by
      rintro rfl
      exact hw.ne_absent habs
    exact (hm.others (.drain k) hne).trans habs
  close := h.close
  unread h1 h2 := by
    have habs := h.unread h1 h2
    have hne : Worker.read ≠ w := by
      rintro rfl
      exact hw.ne_absent habs
    exact (hm.others .read hne).trans habs

/-- What the close task leaves alone when it enters the event lock. -/
theorem closeEnter_frame (e : Engine) (read : Bool) :
    (e.closeEnter read).mail.pc = e.mail.pc ∧
      (e.closeEnter read).mail.nextDrain = e.mail.nextDrain ∧
      (e.closeEnter read).fresh = e.fresh ∧ (e.closeEnter read).closedExc = e.closedExc ∧
      (e.closeEnter read).hasReadTask = e.hasReadTask ∧
      ((e.closeEnter read).closeTask = .closing read ∨
        (e.closeEnter read).closeTask = .locking read) := by
  unfold closeEnter
  split
  · exact ⟨Mail.pc_eq rfl, rfl, rfl, rfl, rfl, .inl rfl⟩
  · exact ⟨Mail.pc_eq rfl, rfl, rfl, rfl, rfl, .inr rfl⟩

theorem closeBegin_frame (e : Engine) :
    e.closeBegin.mail.pc = e.mail.pc ∧ e.closeBegin.mail.nextDrain = e.mail.nextDrain ∧
      e.closeBegin.fresh = e.fresh ∧ e.closeBegin.closedExc = e.closedExc ∧
      e.closeBegin.hasReadTask = e.hasReadTask ∧
      (e.closeBegin.closeTask = .gathering e.hasReadTask (eventTasks e.mail) ∨
        e.hasReadTask = false ∧ eventTasks e.mail = [] ∧
          (e.closeBegin.closeTask = .closing false ∨ e.closeBegin.closeTask = .locking false)) := by
  unfold closeBegin
  dsimp only
  split
  · rename_i hb
    simp only [Bool.and_eq_true, Bool.not_eq_true', List.isEmpty_iff] at hb
    obtain ⟨h1, h2, h3, h4, h5, h6⟩ := closeEnter_frame { e with
      readerEof := true
      drainCancel := e.drainCancel ++ eventTasks e.mail
      readCancel := e.readCancel || (e.hasReadTask && !isDone e.mail.read) } false
    exact ⟨h1, h2, h3, h4, h5, .inr ⟨hb.1, hb.2, h6⟩⟩
  · exact ⟨rfl, rfl, rfl, rfl, rfl, .inl rfl⟩

/-- The close task moves on: no task is created or begun. -/
theorem Queued.closeMoves (h : e.Queued) (hpc : e'.mail.pc = e.mail.pc)
    (hn : e'.mail.nextDrain = e.mail.nextDrain) (hf : e'.fresh = e.fresh)
    (hc₀ : e.closeTask ≠ .created) (hc : e'.closeTask ≠ .created)
    (hu : e'.hasReadTask = false → e'.closedExc = none →
      e.hasReadTask = false ∧ e.closedExc = none) : e'.Queued where
  nodup := hf ▸ h.nodup
  worker w := by
    rw [hf, hpc]
    exact h.worker w
  drains k hk := by
    have := h.drains k (hn ▸ hk)
    exact (congrFun hpc (.drain k)).trans this
  close := by
    have := h.close
    rw [hf]
    exact ⟨fun hm => absurd (this.1 hm) hc₀, fun he => absurd he hc⟩
  unread h1 h2 := by
    obtain ⟨h3, h4⟩ := hu h1 h2
    exact (congrFun hpc .read).trans (h.unread h3 h4)

/-- The oldest task begins: it leaves the queue and is no longer created. -/
theorem Queued.begins {t : Task} {l : List Task} (h : e.Queued) (hf : e.fresh = t :: l)
    (hl : e'.fresh = l)
    (hw : ∀ w, e'.mail.pc w = .created ↔ e.mail.pc w = .created ∧ t ≠ .worker w)
    (hd : ∀ k, e'.mail.nextDrain ≤ k → e'.mail.drains k = .absent)
    (hc : e'.closeTask = .created ↔ e.closeTask = .created ∧ t ≠ .close)
    (hu : e'.hasReadTask = false → e'.closedExc = none → e'.mail.read = .absent) : e'.Queued := by
  have hnd : (t :: l).Nodup := hf ▸ h.nodup
  obtain ⟨ht, hnl⟩ := List.nodup_cons.1 hnd
  refine ⟨hl ▸ hnl, fun w => ?_, hd, ?_, hu⟩
  · have := h.worker w
    rw [hf, List.mem_cons] at this
    rw [hl, hw w, ← this]
    constructor
    · intro hm
      refine ⟨.inr hm, ?_⟩
      rintro rfl
      exact ht hm
    · rintro ⟨rfl | hm, hne⟩
      · exact absurd rfl hne
      · exact hm
  · have := h.close
    rw [hf, List.mem_cons] at this
    rw [hl, hc, ← this]
    constructor
    · intro hm
      refine ⟨.inr hm, ?_⟩
      rintro rfl
      exact ht hm
    · rintro ⟨rfl | hm, hne⟩
      · exact absurd rfl hne
      · exact hm

theorem Queued.onEvent (h : e.Queued) : e.onEvent.Queued := by
  unfold Engine.onEvent
  rcases e.mail.onEvent_cases with ⟨hn, hpc⟩ | ⟨hn, hpc⟩
  · have hlt : ¬ e.mail.nextDrain < e.mail.onEvent.nextDrain := by omega
    simp only [hlt, if_false]
    refine ⟨h.nodup, fun w => ?_, fun k hk => ?_, h.close, fun h1 h2 => ?_⟩
    · rw [hpc]
      exact h.worker w
    · exact (congrFun hpc (.drain k)).trans (h.drains k (hn ▸ hk))
    · exact (congrFun hpc .read).trans (h.unread h1 h2)
  · have hlt : e.mail.nextDrain < e.mail.onEvent.nextDrain := by omega
    simp only [hlt, if_true]
    have hnew : Task.worker (.drain e.mail.nextDrain) ∉ e.fresh := by
      intro hm
      have h1 := (h.worker (.drain e.mail.nextDrain)).1 hm
      have h2 : e.mail.pc (.drain e.mail.nextDrain) = .absent := h.drains _ (Nat.le_refl _)
      rw [h2] at h1
      cases h1
    refine ⟨?_, fun w => ?_, fun k hk => ?_, ?_, fun h1 h2 => ?_⟩
    · refine List.nodup_append.2 ⟨h.nodup, by simp, ?_⟩
      intro a ha b hb hab
      cases List.mem_singleton.1 hb
      exact hnew (hab ▸ ha)
    · rw [hpc w]
      by_cases hw : w = .drain e.mail.nextDrain
      · simp [hw]
      · simpa [hw] using h.worker w
    · have hk' : e.mail.nextDrain < k := by
        have : e.mail.onEvent.nextDrain ≤ k := hk
        omega
      have hne : Worker.drain k ≠ .drain e.mail.nextDrain := by
        intro he
        injection he with he
        omega
      have := hpc (.drain k)
      rw [if_neg hne] at this
      exact this.trans (h.drains k (Nat.le_of_lt hk'))
    · simpa using h.close
    · have := hpc .read
      rw [if_neg (by simp)] at this
      exact this.trans (h.unread h1 h2)

variable {py : Interpreter} {shut : Bool} {g : Signal}

/-- Every signal keeps the queue. -/
theorem Queued.step (h : e.Queued) (hs : e.step py shut g = some e') : e'.Queued := by
  cases step_move hs with
  | idle he => exact he ▸ h
  | registers _ he => exact he ▸ h.onEvent
  | beginsRead l hf he =>
    have hcr : e.mail.read = .created := (h.worker .read).1 (by simp [hf])
    subst he
    refine h.begins hf rfl (fun w => ?_) h.drains (by simp) fun h1 h2 => ?_
    · cases w with
      | read =>
        simp only [Mail.pc, hcr, ne_eq, not_true_eq_false, and_false, iff_false]
        split <;> simp
      | drain k => simp [Mail.pc]
    · have := h.unread h1 h2
      rw [hcr] at this
      cases this
  | beginsDrain k l hf he =>
    have hcr : e.mail.pc (.drain k) = .created := (h.worker (.drain k)).1 (by simp [hf])
    subst he
    -- the drain either ends at once or enters the section; the other workers stand still
    have hm : ∀ m : Mail, (∀ u, u ≠ .drain k → m.pc u = e.mail.pc u) → m.pc (.drain k) ≠ .created →
        m.nextDrain = e.mail.nextDrain →
        ({ e with fresh := l, mail := m } : Engine).Queued := by
      intro m ho hown hn
      refine h.begins hf rfl (fun w => ?_) (fun j hj => ?_) (by simp) fun h1 h2 => ?_
      · by_cases hw : w = .drain k
        · simp [hw, hown]
        · have : Task.worker (.drain k) ≠ .worker w := by
            intro he
            injection he with he
            exact hw he.symm
          simp [ho w hw, this]
      · have habs := h.drains j (hn ▸ hj)
        have hne : Worker.drain j ≠ .drain k := by
          intro hjk
          rw [← hjk] at hcr
          rw [show e.mail.pc (.drain j) = .absent from habs] at hcr
          cases hcr
        exact (ho (.drain j) hne).trans habs
      · exact (ho .read (by simp)).trans (h.unread h1 h2)
    split
    · refine hm _ (fun u hu => e.mail.setPc_pc_of_ne _ hu) ?_ rfl
      simp
    · have honly := e.mail.enter_only (.drain k) none
      refine hm _ honly.others ?_ honly.nextDrain
      rcases honly.own with ho | ho
      · exact ho.ne_created
      · simp [ho]
  | beginsClose l hf he =>
    have hcr : e.closeTask = .created := h.close.1 (by simp [hf])
    obtain ⟨h1, h2, h3, h4, h5, h6⟩ := closeBegin_frame { e with fresh := l }
    subst he
    refine h.begins hf h3 (fun w => ?_) (fun k hk => ?_) ?_ fun h7 h8 => ?_
    · rw [h1]
      simp
    · rw [h2] at hk
      exact (congrFun h1 (.drain k)).trans (h.drains k hk)
    · simp only [ne_eq, not_true_eq_false, and_false, iff_false]
      rcases h6 with h6 | ⟨-, -, h6 | h6⟩
      · simp [h6]
      · simp [h6]
      · simp [h6]
    · rw [h5] at h7
      rw [h4] at h8
      exact (congrFun h1 .read).trans (h.unread h7 h8)
  | answers b r _ _ _ he =>
    subst he
    exact ⟨h.nodup, h.worker, h.drains, h.close, h.unread⟩
  | receives b params _ hr he =>
    subst he
    have hs : e.mail.read.Suspended := hr ▸ trivial
    have h₁ : ({ e with mail := { e.mail with
        stream := e.mail.stream ++ [⟨e.mail.stream.length, params⟩] } } : Engine).Queued :=
      ⟨h.nodup, h.worker, h.drains, h.close, h.unread⟩
    exact h₁.only (e.mail.receive_only params) hs
  | readEnds x hr he =>
    subst he
    have h₁ := h.only (e.mail.stop_only .read) hr
    exact ⟨h₁.nodup, h₁.worker, h₁.drains, h₁.close, fun _ h2 => absurd h2 (by simp [endRead])⟩
  | drainEnds k hk _ he =>
    subst he
    exact h.only (e.mail.stop_only (.drain k)) hk
  | works w m hm he =>
    subst he
    obtain ⟨hw, honly⟩ := Mail.works_only hm
    exact h.only honly hw
  | gathers read ds hc _ _ he =>
    subst he
    obtain ⟨h1, h2, h3, h4, h5, h6⟩ := e.closeEnter_frame read
    refine h.closeMoves h1 h2 h3 (by simp [hc]) ?_ fun h7 h8 => ⟨h5 ▸ h7, h4 ▸ h8⟩
    rcases h6 with h6 | h6
    · simp [h6]
    · simp [h6]
  | clears read hc _ he =>
    subst he
    exact h.closeMoves rfl rfl rfl (by simp [hc]) (by simp [closeClear]) fun h7 h8 => ⟨h7, h8⟩
  | closes read hc he =>
    subst he
    exact h.closeMoves rfl rfl rfl (by simp [hc]) (by simp) fun _ h8 => by simp at h8

end Engine

open Engine in
/-- What a step of a call does to the engine beside the request table: it creates the close task or
the read task, or nothing. -/
theorem State.CallMove.engine {s s' : State} {t : Tid} (h : State.CallMove s s' t) :
    ∃ d, s'.toEngine = { s.toEngine with desk := d } ∨
      s'.shutdownStarted = true ∧ s'.toEngine = { s.createCloseTask with desk := d } ∨
      s.closedExc = none ∧ s'.toEngine = { s.createReadTask with desk := d } := by
  cases h with
  | inert _ he => exact ⟨s.desk, .inl he⟩
  | closes _ _ hs he => exact ⟨s.createCloseTask.desk, .inr (.inl ⟨hs, he⟩)⟩
  | starts _ _ hx he => exact ⟨s.createReadTask.desk, .inr (.inr ⟨hx, he⟩)⟩
  | sends _ _ _ _ hx _ he => exact ⟨_, .inr (.inr ⟨hx, he⟩)⟩
  | refused _ _ hx he => exact ⟨_, .inr (.inr ⟨hx, he⟩)⟩
  | ends _ _ _ he => exact ⟨_, .inl he⟩
  | cancels _ _ _ he => exact ⟨_, .inl he⟩

theorem Engine.Queued.setDesk {e : Engine} (h : e.Queued) (d : Desk) :
    ({ e with desk := d } : Engine).Queued :=
  ⟨h.nodup, h.worker, h.drains, h.close, h.unread⟩

/-- What holds of every reachable client: a sound request table, a sound queue of tasks, and
`_shutdown_started` set by `close`. -/
structure State.Ordered (s : State) : Prop where
  tabled : s.Tabled
  queued : s.toEngine.Queued
  shut : s.closeTask ≠ .absent → s.shutdownStarted = true

theorem Engine.createReadTask_closeTask (e : Engine) : e.createReadTask.closeTask = e.closeTask := by
  unfold createReadTask
  split
  · rfl
  · rfl

/-- The close task is never created by a signal. -/
theorem Engine.Queued.absent_kept {py : Interpreter} {shut : Bool} {g : Signal} {e e' : Engine}
    (h : e.Queued) (hs : e.step py shut g = some e') (hc : e.closeTask = .absent) :
    e'.closeTask = .absent := by
  cases step_move hs with
  | idle he => exact he ▸ hc
  | registers _ he => exact he ▸ hc
  | beginsRead _ _ he => exact he ▸ hc
  | beginsDrain _ _ _ he => exact he ▸ hc
  | beginsClose l hf he =>
    have hcr : e.closeTask = .created := h.close.1 (by simp [hf])
    rw [hc] at hcr
    cases hcr
  | answers _ _ _ _ _ he => exact he ▸ hc
  | receives _ _ _ _ he => exact he ▸ hc
  | readEnds _ _ he => exact he ▸ hc
  | drainEnds _ _ _ he => exact he ▸ hc
  | works _ _ _ he => exact he ▸ hc
  | gathers _ _ hg =>
    rw [hc] at hg
    cases hg
  | clears _ hg =>
    rw [hc] at hg
    cases hg
  | closes _ hg =>
    rw [hc] at hg
    cases hg

variable {py : Interpreter} {p : Str} {s s' : State} {a : Action}

theorem step_ordered (hs : s.Ordered) (h : step py p s a = some s') : s'.Ordered := by
  refine ⟨(step_tabled h hs.tabled).2, ?_, ?_⟩
  · rcases step_cases h hs.tabled with ⟨t, -, hc⟩ | ⟨g, e, -, he, rfl⟩
    · obtain ⟨d, he | ⟨-, he⟩ | ⟨hx, he⟩⟩ := hc.move.engine
      · exact he ▸ hs.queued.setDesk d
      · exact he ▸ hs.queued.createCloseTask.setDesk d
      · exact he ▸ (hs.queued.createReadTask hx).setDesk d
    · exact hs.queued.step he
  · intro hne
    rcases step_cases h hs.tabled with ⟨t, -, hc⟩ | ⟨g, e, -, he, rfl⟩
    · obtain ⟨d, he | ⟨hsd, -⟩ | ⟨-, he⟩⟩ := hc.move.engine
      · have hct : s'.closeTask = s.closeTask := by rw [he]
        exact hc.shutdown (hs.shut (hct ▸ hne))
      · exact hsd
      · have hct : s'.closeTask = s.closeTask := by
          rw [he]
          exact s.toEngine.createReadTask_closeTask
        exact hc.shutdown (hs.shut (hct ▸ hne))
    · refine hs.shut fun hc => hne ?_
      exact hs.queued.absent_kept he hc

theorem reachable_ordered (h : (machine py p).Reachable s) : s.Ordered :=
  h.invariant (p := State.Ordered) ⟨.start, .start, fun h => absurd rfl h⟩
    fun _ _ _ hs ha => step_ordered hs ha

end KestrelSdk.Client

import KestrelSdk.Client.Closing

namespace KestrelSdk.Client

open Json Protocol Asyncio

variable {py : Interpreter} {p : Str} {s s' : State} {a : Action} {t : Tid}

namespace State

theorem unwind_ops (s : State) (t : Tid) (id : Nat) (e : Raised) : (s.unwind t id e).ops = s.ops :=
  fail_ops _ t e

theorem resume_ops {w : Bool} (h : s.resume py p t w = some s') : s'.ops = s.ops := by
  unfold resume at h
  dsimp only at h
  split at h
  · split_ifs at h
    · cases h
      exact setCall_ops rfl
    · cases h
      exact setCall_ops rfl
    · cases h
      exact lifecycleSection_ops s w
  · split_ifs at h
    · cases h
      exact unwind_ops s t _ _
    · cases h
      exact setCall_ops rfl
    · cases h
      exact unwind_ops s t _ _
  · rename_i id _
    split at h
    · cases h
    · cases h
      exact unwind_ops s t _ _
    · split_ifs at h
      · cases h
        exact unwind_ops s t _ _
      · split at h
        · rename_i v _
          cases h
          obtain ⟨r, hr, -⟩ := complete_ended py p ({ s with desk := s.desk.abandon id } : State) t v
          exact hr.ops
        · cases h
          exact unwind_ops s t _ _
        · cases h
          exact unwind_ops s t _ _
  · split_ifs at h
    · cases h
      exact setCall_ops rfl
    · split at h
      · cases h
        exact setCall_ops rfl
      · cases h
  · cases h

end State

/-- A call stays what it is. -/
theorem step_ops (h : step py p s a = some s') :
    s'.ops = s.ops ∨ ∃ t op w, a = .call t op w ∧ (s.calls t).pc = .idle ∧
      s' = (s.setCall t { op }).invoke py p t w ∧ s'.ops t = op := by
  cases a with
  | call t op w =>
    simp only [step] at h
    split at h
    · rename_i hpc
      cases h
      refine .inr ⟨t, op, w, rfl, hpc, rfl, ?_⟩
      rw [State.invoke_ops]
      simp [State.ops, State.setCall]
    · cases h
  | resume t w => exact .inl (State.resume_ops h)
  | cancel t => exact .inl (State.cancel_call h).2
  | signal g =>
    obtain ⟨e, -, rfl⟩ := Option.map_eq_some_iff.1 h
    exact .inl rfl

theorem Engine.createCloseTask_done (e : Engine) (h : e.closeTask = .done) :
    e.createCloseTask = e := by
  unfold createCloseTask
  rw [h]

/-- The close task stays done. -/
theorem Engine.Queued.done_kept {shut : Bool} {g : Signal} {e e' : Engine} (h : e.Queued)
    (hs : e.step py shut g = some e') (hc : e.closeTask = .done) : e'.closeTask = .done := by
  cases step_move hs with
  | idle he => exact he ▸ hc
  | registers _ he => exact he ▸ hc
  | beginsRead _ _ he => exact he ▸ hc
  | beginsDrain _ _ _ he => exact he ▸ hc
  | beginsClose l hf he =>
    have hcr : e.closeTask = .created := h.close.1 (by simp [hf])
    rw [hc] at hcr
    cases hcr
  | answers _ _ _ _ _ he => exact he ▸ hc
  | receives _ _ _ _ he => exact he ▸ hc
  | readEnds _ _ he => exact he ▸ hc
  | drainEnds _ _ _ he => exact he ▸ hc
  | works _ _ _ he => exact he ▸ hc
  | gathers _ _ hg =>
    rw [hc] at hg
    cases hg
  | clears _ hg =>
    rw [hc] at hg
    cases hg
  | closes _ hg =>
    rw [hc] at hg
    cases hg

/-- A call of `close` that has returned, and its value. -/
structure State.Closing (s : State) : Prop where
  ordered : s.Ordered
  shut : s.toEngine.Shut
  returned : ∀ t, s.ops t = .close → (s.calls t).pc = .closing ∨
    ∃ r, (s.calls t).pc = .finished r ∧ ∀ v, r = .ok v → s.closeTask = .done

theorem step_done (hs : s.Ordered) (h : step py p s a = some s') (hc : s.closeTask = .done) :
    s'.closeTask = .done := by
  rcases step_cases h hs.tabled with ⟨t, -, hcall⟩ | ⟨g, e, -, he, rfl⟩
  · obtain ⟨d, he | ⟨-, he⟩ | ⟨-, he⟩⟩ := hcall.move.engine
    · exact (congrArg Engine.closeTask he).trans hc
    · rw [s.toEngine.createCloseTask_done hc] at he
      exact (congrArg Engine.closeTask he).trans hc
    · exact (congrArg Engine.closeTask he).trans (s.toEngine.createReadTask_closeTask.trans hc)
  · exact hs.queued.done_kept he hc

theorem State.Closing.step (hs : s.Closing) (hok : hearsOn s a = false)
    (h : step py p s a = some s') : s'.Closing := by
  have ho := step_ordered hs.ordered h
  have hdone := step_done hs.ordered h
  have hkeep : ∀ u, (s'.calls u).pc = (s.calls u).pc → s.ops u = .close →
      (s'.calls u).pc = .closing ∨
        ∃ r, (s'.calls u).pc = .finished r ∧ ∀ v, r = .ok v → s'.closeTask = .done := by
    intro u hpc hop
    rw [hpc]
    rcases hs.returned u hop with hu | ⟨r, hr, hv⟩
    · exact .inl hu
    · exact .inr ⟨r, hr, fun v hrv => hdone (hv v hrv)⟩
  refine ⟨ho, ?_, fun u hu => ?_⟩
  · rcases step_cases h hs.ordered.tabled with ⟨t, -, hc⟩ | ⟨g, e, ha, he, rfl⟩
    · obtain ⟨d, he | ⟨-, he⟩ | ⟨-, he⟩⟩ := hc.move.engine
      · exact he ▸ hs.shut.setDesk d
      · exact he ▸ hs.shut.createCloseTask.setDesk d
      · exact he ▸ hs.shut.createReadTask.setDesk d
    · refine hs.shut.step hs.ordered.queued hs.ordered.shut (fun b hb => ?_) he
      subst ha
      subst hb
      exact hok
  · rcases step_ops h with hops | ⟨t, op, w, rfl, hpc, hs', hop⟩
    · rw [hops] at hu
      cases a with
      | call t op w =>
        by_cases hut : u = t
        · subst hut
          simp only [Client.step] at h
          split at h
          · rename_i hpc
            rcases hs.returned u hu with hu | ⟨r, hr, -⟩
            · rw [hpc] at hu
              cases hu
            · rw [hpc] at hr
              cases hr
          · cases h
        · have hc := step_called rfl (hs.ordered.tabled.calls t) h
          exact hkeep u (by rw [hc.others u hut]) hu
      | resume t w =>
        by_cases hut : u = t
        · subst hut
          rcases hs.returned u hu with hpc | ⟨r, hr, -⟩
          · simp only [Client.step, State.resume, hpc] at h
            split_ifs at h
            · cases h
              exact .inr ⟨.error .cancelled, by simp [State.finish, State.setPc, State.setCall], by simp⟩
            · split at h
              · rename_i hct
                cases h
                exact .inr ⟨.ok .none, by simp [State.finish, State.setPc, State.setCall],
                  fun _ _ => hct⟩
              · cases h
          · simp [Client.step, State.resume, hr] at h
        · have hc := step_called rfl (hs.ordered.tabled.calls t) h
          exact hkeep u (by rw [hc.others u hut]) hu
      | cancel t =>
        by_cases hut : u = t
        · subst hut
          exact hkeep u (by rw [(State.cancel_call h).1]) hu
        · have hc := step_called rfl (hs.ordered.tabled.calls t) h
          exact hkeep u (by rw [hc.others u hut]) hu
      | signal g =>
        obtain ⟨e, -, rfl⟩ := Option.map_eq_some_iff.1 h
        exact hkeep u rfl hu
    · by_cases hut : u = t
      · subst hut
        rw [hop] at hu
        subst hu
        left
        rw [hs']
        simp [State.invoke, State.closeCall, State.setCall, State.setPc, State.setEngine]
      · have hc := step_called rfl (hs.ordered.tabled.calls t) h
        refine hkeep u (by rw [hc.others u hut]) ?_
        unfold State.ops at hu ⊢
        rw [← hc.others u hut]
        exact hu

theorem fed_closing (h : (fed py p).Reachable s) : s.Closing := by
  refine h.invariant (p := State.Closing) ?_ fun s a s' hs ha => ?_
  · exact ⟨⟨.start, .start, fun h => absurd rfl h⟩, .start, fun t ht => by cases ht⟩
  · obtain ⟨hok, ha⟩ := Machine.restrict_step ha
    exact hs.step (by simpa using hok) ha

/-- `close()` has returned normally. -/
def State.Returned (s : State) : Prop :=
  ∃ t v, (s.calls t).op = .close ∧ (s.calls t).pc = .finished (.ok v)

theorem State.Closing.done (hs : s.Closing) (hr : s.Returned) : s.closeTask = .done := by
  obtain ⟨t, v, hop, hpc⟩ := hr
  rcases hs.returned t hop with hc | ⟨r, hr, hv⟩
  · rw [hpc] at hc
    cases hc
  · rw [hpc] at hr
    cases hr
    exact hv v rfl

/-- What a signal changes on a client whose close task is done: no delivery, and no new result. -/
theorem Engine.Shut.after {shut : Bool} {g : Signal} {e e' : Engine} (h : e.Shut) (hq : e.Queued)
    (hc : e.closeTask = .done) (hshut : shut = true) (heof : ∀ b, g = .line b → e.readerEof = false)
    (hs : e.step py shut g = some e') :
    e'.mail.delivered = e.mail.delivered ∧
      (∀ id v, e'.desk.futures id = .done (.ok v) → e.desk.futures id = .done (.ok v)) ∧
      (isDone e.mail.read = true → isDone e'.mail.read = true ∧ e'.desk = e.desk) := by
  have hcalm := h.calm (by rw [hc]; rfl)
  have hline : ∀ b, g ≠ .line b := by
    intro b hb
    have h1 := h.eof (by rw [hc]; rfl)
    rw [heof b hb] at h1
    cases h1
  cases step_move hs with
  | idle he =>
    subst he
    exact ⟨rfl, fun _ _ hf => hf, fun hd => ⟨hd, rfl⟩⟩
  | registers hsh =>
    rw [hshut] at hsh
    cases hsh
  | beginsRead l hf he =>
    have hcr : e.mail.read = .created := (hq.worker .read).1 (by simp [hf])
    subst he
    refine ⟨rfl, fun _ _ hf => hf, fun hd => ?_⟩
    rw [hcr] at hd
    cases hd
  | beginsDrain k l hf =>
    have hcr : e.mail.drains k = .created := (hq.worker (.drain k)).1 (by simp [hf])
    exact absurd hcr (hcalm.drains k).ne_created
  | beginsClose l hf =>
    have hcr : e.closeTask = .created := hq.close.1 (by simp [hf])
    rw [hc] at hcr
    cases hcr
  | answers b _ hg => exact absurd hg (hline b)
  | receives b _ hg => exact absurd hg (hline b)
  | readEnds x hr he =>
    subst he
    refine ⟨rfl, fun id v hf => ?_, fun hd => ?_⟩
    · simp only [endRead, Desk.failAll] at hf
      split at hf
      · split_ifs at hf
        cases hf
      · exact hf
    · rw [hr.not_done] at hd
      cases hd
  | drainEnds k hk => exact absurd hk (hcalm.drains k).not_suspended
  | works w m hm => exact absurd hm hcalm.still
  | gathers _ _ hg =>
    rw [hc] at hg
    cases hg
  | clears _ hg =>
    rw [hc] at hg
    cases hg
  | closes _ hg =>
    rw [hc] at hg
    cases hg

/-- A request that awaits its response keeps its frame until it ends. -/
structure Awaits (s : State) (t : Tid) (m : Str) (q : Dict) (id : Nat) : Prop where
  op : s.ops t = .request m q
  key : (s.calls t).id = some id
  pc : (s.calls t).pc.awaiting = some id ∨ ∃ r, (s.calls t).pc = .finished r

theorem Awaits.step {m : Str} {q : Dict} {id : Nat} (h : Awaits s t m q id) (ht : s.Tabled)
    (hs : step py p s a = some s') : Awaits s' t m q id := by
  have hidle : (s.calls t).pc ≠ .idle := by
    intro hi
    rcases h.pc with hpc | ⟨r, hpc⟩
    · rw [hi] at hpc
      cases hpc
    · rw [hi] at hpc
      cases hpc
  have hop : s'.ops t = s.ops t := by
    rcases step_ops hs with ho | ⟨u, op, w, rfl, hpc, -, -⟩
    · rw [ho]
    · have hut : t ≠ u := by
        rintro rfl
        exact hidle hpc
      have hc := step_called rfl (ht.calls u) hs
      unfold State.ops
      rw [hc.others t hut]
  have hsame : s'.calls t = s.calls t → Awaits s' t m q id := by
    intro he
    exact ⟨hop.trans h.op, by rw [he]; exact h.key, by rw [he]; exact h.pc⟩
  rcases step_cases hs ht with ⟨u, hu, hc⟩ | ⟨g, e, -, -, rfl⟩
  · by_cases htu : t = u
    · subst htu
      cases a with
      | call v op w =>
        cases hu
        simp [Client.step] at hs
      | resume v w =>
        cases hu
        rcases h.pc with hpc | ⟨r, hpc⟩
        · obtain ⟨pc, he, hpc'⟩ := State.resume_awaiting hpc hs
          refine ⟨hop.trans h.op, ?_, ?_⟩
          · rw [he]
            exact h.key
          · rw [he]
            exact hpc'
        · simp [Client.step, State.resume, hpc] at hs
      | cancel v =>
        cases hu
        have he := (State.cancel_call hs).1
        refine ⟨hop.trans h.op, ?_, ?_⟩
        · rw [he]
          exact h.key
        · rw [he]
          exact h.pc
      | signal g => cases hu
    · exact hsame (hc.others t htu)
  · exact hsame rfl

/-- What a run leaves of a client whose `close()` has returned. -/
structure After (s s' : State) : Prop where
  closing : s'.Closing
  done : s'.closeTask = .done
  delivered : s'.mail.delivered = s.mail.delivered
  results : ∀ id v, s'.desk.futures id = .done (.ok v) → s.desk.futures id = .done (.ok v)
  awaits : ∀ t m q id, Awaits s t m q id → Awaits s' t m q id

theorem Desk.cancel_futures (d : Desk) (id i : Nat) :
    (d.cancel id).futures i = d.futures i ∨ i = id ∧ (d.cancel id).futures i = .cancelled := by
  unfold Desk.cancel
  split
  · by_cases hi : i = id
    · subst hi
      exact .inr ⟨rfl, Function.update_self _ _ _⟩
    · exact .inl (Function.update_of_ne hi _ _)
  · exact .inl rfl

/-- What a call does to a client whose close task is done: it changes the future that it awaits at
most, and gives it no result. -/
theorem State.CallMove.after (h : State.CallMove s s' t) (hx : s.closedExc ≠ none)
    (hc : s.closeTask = .done) :
    ∃ d, s'.toEngine = { s.toEngine with desk := d } ∧
      (∀ id v, d.futures id = .done (.ok v) → s.desk.futures id = .done (.ok v)) ∧
      ∀ id, d.futures id ≠ s.desk.futures id → (s.calls t).pc.awaiting = some id := by
  cases h with
  | inert _ he => exact ⟨s.desk, he, fun _ _ hf => hf, fun _ hne => absurd rfl hne⟩
  | closes _ _ _ he =>
    rw [s.toEngine.createCloseTask_done hc] at he
    exact ⟨s.desk, he, fun _ _ hf => hf, fun _ hne => absurd rfl hne⟩
  | starts _ _ hn => exact absurd hn hx
  | sends _ _ _ _ hn => exact absurd hn hx
  | refused _ _ hn => exact absurd hn hx
  | ends id _ _ he => exact ⟨_, he, fun _ _ hf => hf, fun _ hne => absurd rfl hne⟩
  | cancels id _ h₀ he =>
    refine ⟨_, he, fun i v hf => ?_, fun i hne => ?_⟩
    · rcases s.desk.cancel_futures id i with hi | ⟨-, hi⟩
      · exact hi.symm.trans hf
      · rw [hi] at hf
        cases hf
    · rcases s.desk.cancel_futures id i with hi | ⟨hi, -⟩
      · exact absurd hi hne
      · rw [hi]
        exact h₀

theorem After.step {s₀ : State} (h : After s₀ s) (hok : hearsOn s a = false)
    (hs : step py p s a = some s') : After s₀ s' := by
  have hcl := h.closing.step hok hs
  have hx := h.closing.shut.terminal h.done
  have hkeep : s'.mail.delivered = s.mail.delivered ∧
      ∀ id v, s'.desk.futures id = .done (.ok v) → s.desk.futures id = .done (.ok v) := by
    rcases step_cases hs h.closing.ordered.tabled with ⟨t, -, hc⟩ | ⟨g, e, ha, he, rfl⟩
    · obtain ⟨d, he, hd, -⟩ := hc.move.after hx h.done
      rw [he]
      exact ⟨rfl, hd⟩
    · have hsh := h.closing.ordered.shut (by rw [h.done]; simp)
      obtain ⟨h1, h2, -⟩ := h.closing.shut.after h.closing.ordered.queued h.done hsh (fun b hb => by
        subst ha
        subst hb
        exact hok) he
      exact ⟨h1, h2⟩
  exact ⟨hcl, step_done h.closing.ordered hs h.done, hkeep.1.trans h.delivered,
    fun id v hf => h.results id v (hkeep.2 id v hf), fun t m q id hw =>
    (h.awaits t m q id hw).step h.closing.ordered.tabled hs⟩

theorem State.Closing.after (hs : s.Closing) (hr : s.Returned) : After s s :=
  ⟨hs, hs.done hr, rfl, fun _ _ hf => hf, fun _ _ _ _ hw => hw⟩

theorem After.run {s₀ : State} (h : After s₀ s) {as : List Action}
    (hr : (fed py p).runFrom s as = some s') : After s₀ s' := by
  refine Machine.runFrom_invariant (m := fed py p) (p := After s₀) (fun s a s' hs ha => ?_) as h hr
  obtain ⟨hok, ha⟩ := Machine.restrict_step ha
  exact hs.step (by simpa using hok) ha

/-- `start` on a terminal client raises. -/
theorem start_refused {w : Bool} (hx : s.closedExc ≠ none)
    (h : step py p s (.call t .start w) = some s') :
    ∃ x, (s'.calls t).pc = .finished (.error (.terminal x)) := by
  simp only [step] at h
  split at h
  · cases h
    cases hc : s.closedExc with
    | none => exact absurd hc hx
    | some x => simp [State.invoke, State.setCall, State.finish, State.setPc, hc]
  · cases h

/-- What is left of a client in a state `s'` that follows the return of `close()` in `s`: no handler
runs, nothing is retained, `start` and `request` raise, and a request that had no response yet in `s`
never gets one. -/
structure Silent (py : Interpreter) (p : Str) (s s' : State) : Prop where
  delivered : s'.mail.delivered = s.mail.delivered
  handlers : s'.mail.handlers = []
  buffer : s'.mail.buffer = []
  start : ∀ t w s'', step py p s' (.call t .start w) = some s'' →
    ∃ x, (s''.calls t).pc = .finished (.error (.terminal x))
  request : ∀ t m q w s'', step py p s' (.call t (.request m q) w) = some s'' →
    (∃ x, (s''.calls t).pc = .finished (.error (.terminal x))) ∧ s''.desk = s'.desk
  raced : ∀ t m q id v, (s.calls t).op = .request m q → (s.calls t).pc.awaiting = some id →
    (∀ v, s.desk.futures id ≠ .done (.ok v)) → (s'.calls t).pc ≠ .finished (.ok v)

theorem closed_client_is_silent {as : List Action} (h : (fed py p).Reachable s) (hret : s.Returned)
    (hr : (fed py p).runFrom s as = some s') : Silent py p s s' := by
  have hcl := fed_closing h
  have hafter : After s s' := (hcl.after hret).run hr
  have hx := hafter.closing.shut.terminal hafter.done
  obtain ⟨h1, h2⟩ := hafter.closing.shut.cleared (by rw [hafter.done]; rfl)
  refine ⟨hafter.delivered, h1, h2, fun t w s'' hs => start_refused hx hs,
    fun t m q w s'' hs => request_refused hx hs, fun t m q id v hop hpc hno hfin => ?_⟩
  have hid := (hcl.ordered.tabled.calls t).id id hpc
  have hw := hafter.awaits t m q id ⟨hop, hid, .inl hpc⟩
  obtain ⟨i, hi, hf⟩ := (hafter.closing.ordered.tabled.faithful t m q _ hw.op hfin).1 v rfl
  rw [hw.key] at hi
  cases hi
  exact hno v (hafter.results id v hf)

theorem settled_attended (h : (settled py p).Reachable s) : (attended py p).Reachable s := by
  refine Machine.Reachable.invariant (m := settled py p)
    (p := fun s => (attended py p).Reachable s) .start (fun s a s' hs ha => ?_) h
  obtain ⟨hok, ha⟩ := Machine.restrict_step ha
  exact hs.step (Machine.step_restrict hok (Machine.restrict_step ha).2)

/-- A client is silent once `close()` has returned; as long as no read task is created after `close`
was called, no request is left waiting either. -/
theorem nothing_after_close {as : List Action} (h : (settled py p).Reachable s) (hret : s.Returned)
    (hr : (settled py p).runFrom s as = some s') :
    Silent py p s s' ∧
      ∀ t id, (s.calls t).pc.awaiting = some id → s.desk.futures id ≠ .pending := by
  refine ⟨closed_client_is_silent h.of_restrict hret (Machine.runFrom_of_restrict as hr), ?_⟩
  have hdone := (fed_closing h.of_restrict).done hret
  exact (no_waiter_stranded (settled_attended h) (.inr hdone)).1

/-- A request that waits on a client whose read task is over waits on. -/
theorem waits_on {t : Tid} {id : Nat} (as : List Action) (hcl : s.Closing) (hdone : s.closeTask = .done)
    (hread : isDone s.mail.read = true) (hpc : (s.calls t).pc = .waiting id)
    (hf : s.desk.futures id = .pending) (hr : (fed py p).runFrom s as = some s')
    (hno : .cancel t ∉ as) : (s'.calls t).pc = .waiting id := by
  induction as generalizing s with
  | nil =>
    cases hr
    exact hpc
  | cons a as ih =>
    simp only [Machine.runFrom] at hr
    split at hr
    · rename_i s₁ h₁
      obtain ⟨hok, hs⟩ := Machine.restrict_step h₁
      have hok' : hearsOn s a = false := by simpa using hok
      have hne : a ≠ .cancel t := fun he => hno (he ▸ List.mem_cons_self)
      have hx := hcl.shut.terminal hdone
      have hstep : isDone s₁.mail.read = true ∧ (s₁.calls t).pc = .waiting id ∧
          s₁.desk.futures id = .pending := by
        rcases step_cases hs hcl.ordered.tabled with ⟨u, hu, hc⟩ | ⟨g, e, ha, he, rfl⟩
        · have hut : t ≠ u := by
            rintro rfl
            cases a with
            | call v op w =>
              cases hu
              simp [machine, Client.step, hpc] at hs
            | resume v w =>
              cases hu
              simp [machine, Client.step, State.resume, hpc, hf] at hs
            | cancel v =>
              cases hu
              exact hne rfl
            | signal g => cases hu
          obtain ⟨d, he, -, hd⟩ := hc.move.after hx hdone
          refine ⟨?_, by rw [hc.others t hut]; exact hpc, ?_⟩
          · rw [he]
            exact hread
          · rw [he]
            by_contra hne
            have hown := hd id (by rw [hf]; exact hne)
            exact hut (hcl.ordered.tabled.own t u id (by rw [hpc]; rfl) hown)
        · have hsh := hcl.ordered.shut (by rw [hdone]; simp)
          obtain ⟨-, -, h3⟩ := hcl.shut.after hcl.ordered.queued hdone hsh (fun b hb => by
            subst ha
            subst hb
            exact hok') he
          obtain ⟨h4, h5⟩ := h3 hread
          refine ⟨h4, hpc, ?_⟩
          show e.desk.futures id = .pending
          rw [h5]
          exact hf
      exact ih (hcl.step hok' hs) (step_done hcl.ordered hs hdone) hstep.1 hstep.2.1 hstep.2.2 hr
        fun hm => hno (List.mem_cons_of_mem _ hm)
    · cases hr

/-- A registration, a read task and a request after `close()` has returned. -/
theorem nothing_after_close_late_calls :
    let s := (settled .floatless []).after
      [.call 0 .start true, .signal .onEvent, .signal .begin, .call 1 .close true, .signal .begin,
        .signal .readCancelled, .signal .closeGathered, .signal .closeWaited, .resume 1 true]
    ∃ s', (settled .floatless []).runFrom s
        [.signal .onEvent, .call 2 (.request (str "echo") []) true, .call 3 .health true] = some s' ∧
      s.Returned ∧ s'.mail.handlers = [] ∧
      (s'.calls 2).pc = .finished (.error (.terminal .connection)) := by
  intro s
  have hreach : (settled .floatless []).Reachable s := Machine.reachable_after rfl
  have hret : s.Returned := ⟨1, .none, rfl, rfl⟩
  obtain ⟨s', hs'⟩ : ∃ s', (settled .floatless []).runFrom s
      [.signal .onEvent, .call 2 (.request (str "echo") []) true, .call 3 .health true] = some s' :=
    ⟨_, rfl⟩
  refine ⟨s', hs', hret, (nothing_after_close hreach hret hs').1.handlers, ?_⟩
  cases hs'
  rfl

/-- A request between `close` and the first step of its task neither raises nor returns after
`close()` has returned, however the client runs on. -/
theorem close_strands_request :
    let s := (fed .floatless []).after
      [.call 0 .close true, .call 1 (.request (str "echo") []) true, .signal .begin, .signal .begin,
        .signal .closeGathered, .signal .closeWaited, .resume 0 true, .resume 1 true]
    (fed .floatless []).Reachable s ∧ s.Returned ∧ (s.calls 1).op = .request (str "echo") [] ∧
      ∀ as s', (fed .floatless []).runFrom s as = some s' → .cancel 1 ∉ as →
        (s'.calls 1).pc = .waiting 1 := by
  intro s
  have hreach : (fed .floatless []).Reachable s := Machine.reachable_after rfl
  refine ⟨hreach, ⟨0, .none, rfl, rfl⟩, rfl, fun as s' hr hno => ?_⟩
  exact waits_on as (fed_closing hreach) rfl rfl rfl rfl hr hno

end KestrelSdk.Client

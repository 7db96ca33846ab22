import KestrelSdk.Stdio.Drains

namespace KestrelSdk.Stdio

open Asyncio
open Json (Bytes)

structure Sound (s : Writer) : Prop where
  phase : Phase s
  flow : Flow s
  ledger : Ledger s

theorem Sound.move {s s' : Writer} {e : Event} (h : Sound s) (hm : Move s e s') : Sound s' :=
  ⟨h.phase.move hm, h.flow.move h.phase hm, h.ledger.move h.phase h.flow hm⟩

theorem sound {s : Writer} (h : writer.Reachable s) : Sound s :=
  h.invariant ⟨.start, .start, .start⟩ fun _ _ _ hs ha => hs.move (move_of_step ha)

/-- The bytes of a drain are among those that the last flush covered, in their place. -/
def Delivered (s : Writer) (c : Drain) : Prop :=
  ∃ before, before ++ c.data <+: s.written ∧ c.upTo = (before ++ c.data).length ∧
    before ++ c.data <+: s.sent.take s.flushed

theorem Sound.delivered {s : Writer} (h : Sound s) {c : Drain} (hc : c ∈ s.calls)
    (hr : c.caller = .returned) : Delivered s c := by
  obtain ⟨d, hd⟩ := List.mem_iff_getElem?.1 hc
  obtain ⟨n, ⟨c', hc', rfl⟩, hle⟩ := h.ledger.good d (.inr (.inr (.inr ⟨c, hd, .inr hr⟩)))
  rw [hd] at hc'
  cases hc'
  obtain ⟨_, before, hpre, hup⟩ := h.ledger.took c hc
  refine ⟨before, hpre, hup, ?_⟩
  apply List.prefix_of_prefix_length_le hpre ((List.take_prefix ..).trans h.flow.sent)
  rw [List.length_take, Nat.min_eq_left h.flow.flushed, ← hup]
  exact hle

/-- What a run keeps after a failure. -/
structure After (s₁ s : Writer) : Prop where
  broken : s.broken = true
  sent : s.sent = s₁.sent
  flushed : s.flushed = s₁.flushed
  keeps : Keeps s₁.calls s.calls
  length : s₁.calls.length ≤ s.calls.length
  late : ∀ d n, s₁.calls.length ≤ d → Ends s.calls d n → s₁.flushed < n

theorem After.refl {s : Writer} (hb : s.broken = true) : After s s := by
  refine ⟨hb, rfl, rfl, fun _ _ h => h, le_rfl, ?_⟩
  rintro d n hle ⟨c, hc, _⟩
  have hlt := (List.getElem?_eq_some_iff.1 hc).1
  omega

theorem After.calls {s₁ s : Writer} (h : After s₁ s) {i : Nat} {f : Drain → Drain}
    (hu : ∀ c, (f c).upTo = c.upTo) (callbacks : List (Nat × Completion)) :
    After s₁ { s with calls := s.calls.modify i f, callbacks := callbacks } := by
  refine ⟨h.broken, h.sent, h.flushed, ?_, ?_, ?_⟩
  · intro d n hd
    exact (ends_modify hu).2 (h.keeps d n hd)
  · show _ ≤ (s.calls.modify i f).length
    rw [List.length_modify]
    exact h.length
  · intro d n hle hd
    exact h.late d n hle ((ends_modify hu).1 hd)

theorem After.move {s₁ s s' : Writer} {e : Event} (hs : Sound s) (h : After s₁ s)
    (hm : Move s e s') : After s₁ s' := by
  have hstop := hs.phase.stopped h.broken
  have hrun : ∀ w : Worker, w.running = true → s.worker ≠ w := by
    rintro w hw rfl
    rw [hstop] at hw
    cases hw
  cases hm with
  | refused => exact h
  | accept => exact ⟨h.broken, h.sent, h.flushed, h.keeps, h.length, h.late⟩
  | queue loop ht hc hp =>
    refine ⟨h.broken, h.sent, h.flushed, fun d n hd => (h.keeps d n hd).append _, ?_, ?_⟩
    · have hlen := h.length
      simp only [List.length_append]
      omega
    · rintro d n hle ⟨c, hcall, rfl⟩
      rw [List.getElem?_append] at hcall
      split at hcall
      · exact h.late d _ hle ⟨c, hcall, rfl⟩
      · obtain rfl := List.mem_singleton.1 (List.mem_of_getElem? hcall)
        rw [← h.flushed]
        exact hs.flow.lost h.broken
  | close => exact ⟨h.broken, h.sent, h.flushed, h.keeps, h.length, h.late⟩
  | take job rest hw => exact absurd hw (hrun _ rfl)
  | last rest hw => exact absurd hw (hrun _ rfl)
  | sent view c n hw => exact absurd hw (hrun _ rfl)
  | fail w view taken c hw => exact absurd hw (hrun _ rfl)
  | flush c hw => exact absurd hw (hrun _ rfl)
  | pop d hw => exact absurd hw (hrun _ rfl)
  | next hw => exact absurd hw (hrun _ rfl)
  | report d hw => exact absurd hw (hrun _ rfl)
  | latch => exact ⟨h.broken, h.sent, h.flushed, h.keeps, h.length, h.late⟩
  | notify d ds hw =>
    rw [callSoon_fields]
    exact ⟨h.broken, h.sent, h.flushed, h.keeps, h.length, h.late⟩
  | leave => exact ⟨h.broken, h.sent, h.flushed, h.keeps, h.length, h.late⟩
  | finish => exact ⟨h.broken, h.sent, h.flushed, h.keeps, h.length, h.late⟩
  | callback d value =>
    apply h.calls
    intro c
    unfold Drain.set
    split <;> rfl
  | resume d =>
    apply h.calls
    intro c
    unfold Drain.settle
    split <;> rfl
  | cancel d =>
    apply h.calls
    intro c
    rfl
  | closeLoop => exact ⟨h.broken, h.sent, h.flushed, h.keeps, h.length, h.late⟩

theorem After.run {s₁ s₂ : Writer} (hs : Sound s₁) (hb : s₁.broken = true) {as : List Event}
    (hr : writer.runFrom s₁ as = some s₂) : Sound s₂ ∧ After s₁ s₂ := by
  apply Machine.runFrom_invariant (m := writer) (p := fun s => Sound s ∧ After s₁ s) ?_ as
    ⟨hs, .refl hb⟩ hr
  rintro s e s' ⟨hs, ha⟩ hstep
  have hm := move_of_step hstep
  exact ⟨hs.move hm, ha.move hs hm⟩

/-- A drain that a failure finds queued, or that comes later, never succeeds. -/
theorem After.fails {s₁ s₂ : Writer} (h₁ : Sound s₁) (h₂ : Sound s₂) (h : After s₁ s₂)
    (hb : s₁.broken = true) {d : Nat} {c : Drain} (hc : s₂.calls[d]? = some c)
    (hd : d ∈ s₁.drains ∨ s₁.calls.length ≤ d) :
    c.caller ≠ .returned ∧ (s₂.worker = .ended → (d, Completion.failure) ∉ s₂.callbacks →
      c.loop ∉ s₂.closedLoops → c.completion = .failure) := by
  have hlt : s₂.flushed < c.upTo := by
    rw [h.flushed]
    obtain hd | hd := hd
    · obtain ⟨n, hn, hlt⟩ := h₁.ledger.unsent hb d hd
      rw [Ends.unique ⟨c, hc, rfl⟩ (h.keeps d n hn)]
      exact hlt
    · exact h.late d _ hd ⟨c, hc, rfl⟩
  constructor
  · intro hr
    obtain ⟨n, hn, hle⟩ := h₂.ledger.good d (.inr (.inr (.inr ⟨c, hc, .inr hr⟩)))
    rw [Ends.unique hn ⟨c, hc, rfl⟩] at hle
    omega
  · intro hw hcb hloop
    have hterm : s₂.terminalFailure = true := h₂.phase.terminal.2 ⟨h.broken, by rw [hw]; simp⟩
    obtain hle | hcond := h₂.ledger.covered d _ ⟨c, hc, rfl⟩
    · omega
    · obtain hcond | hcond | hcond | ⟨c', hc', hcond⟩ := hcond
      · rw [(h₂.phase.cleared hterm).2.1] at hcond
        cases hcond
      · rw [hw] at hcond
        cases hcond
      · exact absurd hcond hcb
      · rw [hc] at hc'
        cases hc'
        obtain hcond | hcond := hcond
        · exact hcond
        · exact absurd hcond hloop

/-! The thread comes to its end. -/

/-- Steps of the thread alone. -/
def Runs (s s' : Writer) : Prop := ∃ ws : List Work, writer.runFrom s (ws.map .work) = some s'

theorem Runs.refl (s : Writer) : Runs s s := ⟨[], rfl⟩

theorem Runs.trans {s s' s'' : Writer} (h : Runs s s') (h' : Runs s' s'') : Runs s s'' := by
  obtain ⟨ws, hws⟩ := h
  obtain ⟨us, hus⟩ := h'
  refine ⟨ws ++ us, ?_⟩
  rw [List.map_append, Machine.runFrom_append, hws]
  exact hus

theorem Runs.step {s s' : Writer} {w : Work} (h : s.work w = some s') : Runs s s' := by
  refine ⟨[w], ?_⟩
  have hstep : writer.step s (.work w) = some s' := h
  simp only [List.map_cons, List.map_nil, Machine.runFrom, hstep]

/-- The thread can finish its job. -/
theorem runs_job {s : Writer} (hr : s.worker.running = true) :
    ∃ s', Runs s s' ∧ s'.worker = .getting ∧ s'.jobs = s.jobs ∧ s'.broken = s.broken := by
  have hreport : ∀ s : Writer, ∀ d, s.worker = .reporting d →
      ∃ s', Runs s s' ∧ s'.worker = .getting ∧ s'.jobs = s.jobs ∧ s'.broken = s.broken := by
    intro s d hw
    have hstep : s.work .report = some { s.callSoon d .result with worker := .getting } := by
      simp only [Writer.work, hw]
    obtain ⟨cs, hcs⟩ := callSoon_eq s d .result
    rw [hcs] at hstep
    exact ⟨_, .step hstep, rfl, rfl, rfl⟩
  have hpop : ∀ s : Writer, ∀ c, s.worker = .succeeded c →
      ∃ s', Runs s s' ∧ s'.worker = .getting ∧ s'.jobs = s.jobs ∧ s'.broken = s.broken := by
    intro s c hw
    cases c with
    | none =>
      have hstep : s.work .pop = some { s with worker := .getting } := by
        simp only [Writer.work, hw]
      exact ⟨_, .step hstep, rfl, rfl, rfl⟩
    | some d =>
      have hstep : s.work .pop = some { s with
          drains := s.drains.filter (· ≠ d), worker := .reporting d } := by
        simp only [Writer.work, hw]
      obtain ⟨s', hs', hrest⟩ := hreport { s with
        drains := s.drains.filter (· ≠ d), worker := .reporting d } d rfl
      exact ⟨s', (Runs.step hstep).trans hs', hrest⟩
  have hflush : ∀ s : Writer, ∀ c, s.worker = .writing [] c →
      ∃ s', Runs s s' ∧ s'.worker = .getting ∧ s'.jobs = s.jobs ∧ s'.broken = s.broken := by
    intro s c hw
    have hstep : s.work (.flush true) = some (s.streamFlush c true) := by
      simp only [Writer.work, hw]
    obtain ⟨s', hs', hrest⟩ := hpop (s.streamFlush c true) c rfl
    exact ⟨s', (Runs.step hstep).trans hs', hrest⟩
  cases hw : s.worker with
  | getting => exact ⟨s, .refl s, hw, rfl, rfl⟩
  | reporting d => exact hreport s d hw
  | succeeded c => exact hpop s c hw
  | writing view c =>
    cases view with
    | nil => exact hflush s c hw
    | cons b view =>
      have hstep : s.work (.write (.wrote (view.length + 1))) = some { s with
          sent := s.sent ++ (b :: view).take (view.length + 1)
          worker := .writing ((b :: view).drop (view.length + 1)) c } := by
        simp only [Writer.work, hw, Writer.streamWrite, List.length_cons, le_refl, if_true]
      obtain ⟨s', hs', hrest⟩ := hflush { s with
        sent := s.sent ++ (b :: view).take (view.length + 1)
        worker := .writing ((b :: view).drop (view.length + 1)) c } c (by simp)
      exact ⟨s', (Runs.step hstep).trans hs', hrest⟩
  | _ => rw [hw] at hr; cases hr

/-- After a close the thread can write what is queued, and end. -/
theorem runs_closed {js : List Job} {s : Writer} (hr : s.worker.running = true)
    (hj : s.jobs = js.map some ++ [none]) :
    ∃ s', Runs s s' ∧ s'.worker = .ended ∧ s'.broken = s.broken := by
  induction js generalizing s with
  | nil =>
    obtain ⟨s₁, hs₁, hw, hjobs, hb⟩ := runs_job hr
    have hget : s₁.work .get = some { s₁ with jobs := [], worker := .leaving } := by
      rw [hj] at hjobs
      simp only [Writer.work, hw, hjobs, List.map_nil, List.nil_append]
    have hclose : ({ s₁ with jobs := [], worker := .leaving } : Writer).work .close =
        some { s₁ with jobs := [], worker := .ended } := rfl
    exact ⟨_, hs₁.trans ((Runs.step hget).trans (.step hclose)), rfl, hb⟩
  | cons job js ih =>
    obtain ⟨s₁, hs₁, hw, hjobs, hb⟩ := runs_job hr
    have hget : s₁.work .get = some { s₁ with
        jobs := js.map some ++ [none], worker := .writing job.data job.completion } := by
      rw [hj] at hjobs
      simp only [Writer.work, hw, hjobs, List.map_cons, List.cons_append]
    obtain ⟨s', hs', hend, hb'⟩ := ih (s := { s₁ with
      jobs := js.map some ++ [none], worker := .writing job.data job.completion }) rfl rfl
    exact ⟨s', hs₁.trans ((Runs.step hget).trans hs'), hend, hb'.trans hb⟩

/-- After a failure the thread can report it, and end. -/
theorem runs_broken {s : Writer} (hs : Sound s) (hb : s.broken = true) :
    ∃ s', Runs s s' ∧ s'.worker = .ended := by
  have hleave : ∀ s : Writer, s.worker = .leaving → ∃ s', Runs s s' ∧ s'.worker = .ended := by
    intro s hw
    have hstep : s.work .close = some { s with worker := .ended } := by
      simp only [Writer.work, hw]
    exact ⟨_, .step hstep, rfl⟩
  have hnotify : ∀ (ds : List Nat) (s : Writer), s.worker = .notifying ds →
      ∃ s', Runs s s' ∧ s'.worker = .ended := by
    intro ds
    induction ds with
    | nil =>
      intro s hw
      have hstep : s.work .notify = some { s with worker := .leaving } := by
        simp only [Writer.work, hw]
      obtain ⟨s', hs', hend⟩ := hleave { s with worker := .leaving } rfl
      exact ⟨s', (Runs.step hstep).trans hs', hend⟩
    | cons d ds ih =>
      intro s hw
      have hstep : s.work .notify = some { s.callSoon d .failure with worker := .notifying ds } := by
        simp only [Writer.work, hw]
      obtain ⟨s', hs', hend⟩ := ih { s.callSoon d .failure with worker := .notifying ds } rfl
      exact ⟨s', (Runs.step hstep).trans hs', hend⟩
  have hstop := hs.phase.stopped hb
  cases hw : s.worker with
  | failing =>
    have hstep : s.work .latch = some s.latchTerminalFailure := by
      simp only [Writer.work, hw]
    obtain ⟨s', hs', hend⟩ := hnotify s.drains s.latchTerminalFailure rfl
    exact ⟨s', (Runs.step hstep).trans hs', hend⟩
  | notifying ds => exact hnotify ds s hw
  | leaving => exact hleave s hw
  | ended => exact ⟨s, .refl s, hw⟩
  | _ => rw [hw] at hstop; cases hstop

/-- The stream has a prefix of what `write` accepted. A drain that took bytes returns only after all
of them were written and flushed. After a failed write or flush nothing more is written, no drain
that is queued or comes later returns, and once the thread has latched the failure every `write` and
`drain` raises. After a close without a failure the thread writes every accepted byte. -/
theorem writer_delivers {s : Writer} (h : writer.Reachable s) :
    s.sent <+: s.written ∧
    (∀ c ∈ s.calls, c.caller = .returned → Delivered s c) ∧
    (∀ e s₁, s.broken = false → s.step e = some s₁ → s₁.broken = true →
      ∀ as s₂, writer.runFrom s₁ as = some s₂ →
        s₂.sent = s₁.sent ∧
        (∀ d c, s₂.calls[d]? = some c → d ∈ s₁.drains ∨ s₁.calls.length ≤ d →
          c.caller ≠ .returned ∧ (s₂.worker = .ended → (d, Completion.failure) ∉ s₂.callbacks →
            c.loop ∉ s₂.closedLoops → c.completion = .failure)) ∧
        (s₂.worker ≠ .failing → (∀ data, s₂.write data = .error .terminal) ∧
          ∀ loop, s₂.drain loop = .error .terminal) ∧
        ∃ s₃, Runs s₂ s₃ ∧ s₃.worker = .ended) ∧
    (s.closing = true → s.broken = false →
      (s.worker = .ended → s.sent = s.written ∧ s.flushed = s.written.length) ∧
      ∃ s', Runs s s' ∧ s'.worker = .ended ∧ s'.broken = false) := by
  have hs := sound h
  refine ⟨hs.flow.sent, fun c hc hr => hs.delivered hc hr, ?_, ?_⟩
  · intro e s₁ _ hstep hb as s₂ hrun
    have h₁ := hs.move (move_of_step hstep)
    obtain ⟨h₂, ha⟩ := After.run h₁ hb hrun
    refine ⟨ha.sent, fun d c hc hd => ha.fails h₁ h₂ hb hc hd, ?_, runs_broken h₂ ha.broken⟩
    intro hw
    have hterm := h₂.phase.terminal.2 ⟨ha.broken, hw⟩
    constructor
    · intro data
      unfold Writer.write
      rw [if_pos hterm]
    · intro loop
      unfold Writer.drain
      rw [if_pos hterm]
  · intro hc hb
    obtain ⟨hpend, hphase⟩ := hs.phase.closed hb hc
    constructor
    · intro hw
      have hwhole := hs.flow.whole hb
      have hcaught := hs.flow.caught hb (by rw [hw]; simp)
      obtain ⟨hrun, _⟩ | ⟨_, hjobs⟩ := hphase
      · rw [hw] at hrun
        cases hrun
      · rw [hw, hjobs, hpend] at hwhole
        simp only [Worker.view, queued_nil, List.append_nil] at hwhole
        exact ⟨hwhole.symm, by rw [hcaught, hwhole]⟩
    · obtain ⟨hrun, js, hjs⟩ | ⟨hstop, _⟩ := hphase
      · obtain ⟨s', hs', hend, hb'⟩ := runs_closed hrun hjs
        exact ⟨s', hs', hend, hb'.trans hb⟩
      · cases hw : s.worker with
        | ended => exact ⟨s, .refl s, hw, hb⟩
        | leaving =>
          have hstep : s.work .close = some { s with worker := .ended } := by
            simp only [Writer.work, hw]
          exact ⟨_, .step hstep, rfl, hb⟩
        | failing => have hcalm := hs.phase.calm hb; rw [hw] at hcalm; cases hcalm
        | notifying ds => have hcalm := hs.phase.calm hb; rw [hw] at hcalm; cases hcalm
        | _ => rw [hw] at hstop; cases hstop

/-- A drain of three bytes, which the stream takes in two parts, and a close with one byte more. -/
def delivery : List Event :=
  [.write [1, 2, 3], .drain 0, .work .get, .work (.write (.wrote 2)), .write [4],
    .work (.write (.wrote 1)), .work (.flush true), .work .pop, .work .report, .callback 0 .result,
    .resume 0, .close, .work .get, .work (.write (.wrote 1)), .work (.flush true), .work .pop,
    .work .get, .work .close]

theorem writer_delivers_all : ∃ s, writer.runFrom {} delivery = some s ∧ s.sent = [1, 2, 3, 4] ∧
    ∃ c ∈ s.calls, Delivered s c := by
  obtain ⟨s, hs, hclosing, hbroken, hended, hwritten, hcall⟩ : ∃ s,
      writer.runFrom {} delivery = some s ∧ s.closing = true ∧ s.broken = false ∧
        s.worker = .ended ∧ s.written = [1, 2, 3, 4] ∧ ∃ c ∈ s.calls, c.caller = .returned :=
    ⟨_, rfl, rfl, rfl, rfl, rfl, _, List.mem_singleton_self _, rfl⟩
  obtain ⟨_, hdelivered, _, hclose⟩ := writer_delivers ⟨delivery, hs⟩
  obtain ⟨c, hc, hr⟩ := hcall
  refine ⟨s, hs, ?_, c, hc, hdelivered c hc hr⟩
  rw [((hclose hclosing hbroken).1 hended).1, hwritten]

/-- Between the failure of the stream and the latch, `write` still accepts. -/
theorem write_in_window : ∃ s, writer.Reachable s ∧ s.broken = true ∧
    ∃ s', s.write [2] = .ok s' := by
  obtain ⟨s, hs, hb, hw⟩ : ∃ s, writer.runFrom {} [.write [1], .drain 0, .work .get,
      .work (.write (.raised 0))] = some s ∧ s.broken = true ∧ ∃ s', s.write [2] = .ok s' :=
    ⟨_, rfl, rfl, _, rfl⟩
  exact ⟨s, ⟨_, hs⟩, hb, hw⟩

end KestrelSdk.Stdio

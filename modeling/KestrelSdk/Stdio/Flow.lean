import KestrelSdk.Stdio.Writer

namespace KestrelSdk.Stdio

open Asyncio
open Json (Bytes)

/-- The thread is in its loop, and no write or flush failed. -/
def Worker.running : Worker → Bool
  | .getting => true
  | .writing _ _ => true
  | .succeeded _ => true
  | .reporting _ => true
  | _ => false

/-- The thread reports a failure. -/
def Worker.failed : Worker → Bool
  | .failing => true
  | .notifying _ => true
  | _ => false

/-- The bytes of the current job that the stream has not taken. -/
def Worker.view : Worker → Bytes
  | .writing view _ => view
  | _ => []

def jobBytes : Option Job → Bytes
  | some job => job.data
  | none => []

/-- The bytes in the queue. -/
def queued (jobs : List (Option Job)) : Bytes := jobs.flatMap jobBytes

@[simp] theorem queued_nil : queued [] = [] := rfl

@[simp] theorem queued_cons (j : Option Job) (jobs : List (Option Job)) :
    queued (j :: jobs) = jobBytes j ++ queued jobs := rfl

@[simp] theorem queued_append (js ks : List (Option Job)) :
    queued (js ++ ks) = queued js ++ queued ks := by
  simp only [queued, List.flatMap_append]

/-- What each step does, and when. -/
inductive Move (s : Writer) : Event → Writer → Prop where
  | refused (e : Event) : Move s e s
  | accept (data : Bytes) (ht : s.terminalFailure = false) (hc : s.closing = false) :
      Move s (.write data) { s with pending := s.pending ++ data, written := s.written ++ data }
  | queue (loop : Nat) (ht : s.terminalFailure = false) (hc : s.closing = false)
      (hp : s.pending ≠ []) :
      Move s (.drain loop) { s with
        pending := []
        drains := s.drains ++ [s.calls.length]
        jobs := s.jobs ++ [some ⟨s.pending, some s.calls.length⟩]
        calls := s.calls ++ [⟨loop, s.written.length, s.pending, .pending, .awaiting⟩] }
  | close (ht : s.terminalFailure = false) (hc : s.closing = false) :
      Move s .close { s with
        closing := true
        pending := []
        jobs := s.jobs ++ ((if s.pending = [] then [] else [some ⟨s.pending, none⟩]) ++ [none]) }
  | take (job : Job) (rest : List (Option Job)) (hw : s.worker = .getting)
      (hj : s.jobs = some job :: rest) :
      Move s (.work .get) { s with jobs := rest, worker := .writing job.data job.completion }
  | last (rest : List (Option Job)) (hw : s.worker = .getting) (hj : s.jobs = none :: rest) :
      Move s (.work .get) { s with jobs := rest, worker := .leaving }
  | sent (view : Bytes) (c : Option Nat) (n : Nat) (hw : s.worker = .writing view c) (hn : 0 < n)
      (hle : n ≤ view.length) :
      Move s (.work (.write (.wrote n)))
        { s with sent := s.sent ++ view.take n, worker := .writing (view.drop n) c }
  | fail (w : Work) (view taken : Bytes) (c : Option Nat) (hw : s.worker = .writing view c)
      (ht : taken <+: view) : Move s (.work w) (s.fail taken)
  | flush (c : Option Nat) (hw : s.worker = .writing [] c) :
      Move s (.work (.flush true)) { s with flushed := s.sent.length, worker := .succeeded c }
  | pop (d : Nat) (hw : s.worker = .succeeded (some d)) :
      Move s (.work .pop) { s with drains := s.drains.filter (· ≠ d), worker := .reporting d }
  | next (hw : s.worker = .succeeded none) : Move s (.work .pop) { s with worker := .getting }
  | report (d : Nat) (hw : s.worker = .reporting d) :
      Move s (.work .report) { s.callSoon d .result with worker := .getting }
  | latch (hw : s.worker = .failing) : Move s (.work .latch) s.latchTerminalFailure
  | notify (d : Nat) (ds : List Nat) (hw : s.worker = .notifying (d :: ds)) :
      Move s (.work .notify) { s.callSoon d .failure with worker := .notifying ds }
  | leave (hw : s.worker = .notifying []) : Move s (.work .notify) { s with worker := .leaving }
  | finish (hw : s.worker = .leaving) : Move s (.work .close) { s with worker := .ended }
  | callback (d : Nat) (value : Completion) (hm : (d, value) ∈ s.callbacks)
      (ho : s.open? d = true) :
      Move s (.callback d value) { s with
        callbacks := s.callbacks.erase (d, value)
        calls := s.calls.modify d (·.set value) }
  | resume (d : Nat) (ha : s.awaiting d = true) (hd : s.done d = true) :
      Move s (.resume d) { s with calls := s.calls.modify d (·.settle) }
  | cancel (d : Nat) (ha : s.awaiting d = true) :
      Move s (.cancel d) { s with calls := s.calls.modify d fun c => { c with caller := .cancelled } }
  | closeLoop (loop : Nat) :
      Move s (.closeLoop loop) { s with closedLoops := loop :: s.closedLoops }

section Inversion

variable {s s' : Writer}

theorem move_write {data : Bytes} (h : s.step (.write data) = some s') :
    Move s (.write data) s' := by
  simp only [Writer.step, Writer.write] at h
  split at h
  case h_1 s₁ hs₁ =>
    split_ifs at hs₁ with ht hc
    cases hs₁
    cases h
    exact .accept data (by simpa using ht) (by simpa using hc)
  case h_2 =>
    cases h
    exact .refused _

theorem move_drain {loop : Nat} (h : s.step (.drain loop) = some s') : Move s (.drain loop) s' := by
  simp only [Writer.step, Writer.drain] at h
  split at h
  case h_1 s₁ hs₁ =>
    split_ifs at hs₁ with ht hc hp
    · cases hs₁
      cases h
      exact .refused _
    · cases hs₁
      cases h
      exact .queue loop (by simpa using ht) (by simpa using hc) hp
  case h_2 =>
    cases h
    exact .refused _

theorem move_close (h : s.step .close = some s') : Move s .close s' := by
  simp only [Writer.step, Writer.close] at h
  split_ifs at h with ht hc <;> cases h
  · exact .refused _
  · exact .refused _
  · rename_i hp
    have hm := Move.close (s := s) (by simpa using ht) (by simpa using hc)
    rw [if_pos hp] at hm
    exact hm
  · rename_i hp
    have hm := Move.close (s := s) (by simpa using ht) (by simpa using hc)
    rw [if_neg hp] at hm
    exact hm

theorem move_streamWrite {view : Bytes} {c : Option Nat} (hw : s.worker = .writing view c)
    {r : WriteResult} (h : s.streamWrite view c r = some s') : Move s (.work (.write r)) s' := by
  cases r with
  | wouldBlock =>
    cases h
    exact .fail _ view [] c hw List.nil_prefix
  | wrote n =>
    cases n with
    | zero =>
      cases h
      exact .fail _ view [] c hw List.nil_prefix
    | succ n =>
      simp only [Writer.streamWrite] at h
      split at h
      · cases h
        exact .sent view c (n + 1) hw (Nat.succ_pos n) ‹_›
      · cases h
  | raised n =>
    simp only [Writer.streamWrite] at h
    split at h
    · cases h
      exact .fail _ view (view.take n) c hw (List.take_prefix n view)
    · cases h

theorem move_work {w : Work} (h : s.work w = some s') : Move s (.work w) s' := by
  cases w with
  | get =>
    simp only [Writer.work] at h
    split at h
    case h_1 job rest hw hj => cases h; exact .take job rest hw hj
    case h_2 rest hw hj => cases h; exact .last rest hw hj
    case h_3 => cases h
  | write r =>
    simp only [Writer.work] at h
    split at h
    case h_1 b view c hw => exact move_streamWrite hw h
    case h_2 => cases h
  | flush ok =>
    simp only [Writer.work] at h
    split at h
    case h_1 c hw =>
      cases h
      cases ok with
      | true => exact .flush c hw
      | false => exact .fail _ [] [] c hw List.nil_prefix
    case h_2 => cases h
  | pop =>
    simp only [Writer.work] at h
    split at h
    case h_1 d hw => cases h; exact .pop d hw
    case h_2 hw => cases h; exact .next hw
    case h_3 => cases h
  | report =>
    simp only [Writer.work] at h
    split at h
    case h_1 d hw => cases h; exact .report d hw
    case h_2 => cases h
  | latch =>
    simp only [Writer.work] at h
    split at h
    case h_1 hw => cases h; exact .latch hw
    case h_2 => cases h
  | notify =>
    simp only [Writer.work] at h
    split at h
    case h_1 d ds hw => cases h; exact .notify d ds hw
    case h_2 hw => cases h; exact .leave hw
    case h_3 => cases h
  | close =>
    simp only [Writer.work] at h
    split at h
    case h_1 hw => cases h; exact .finish hw
    case h_2 => cases h

theorem move_of_step {e : Event} (h : s.step e = some s') : Move s e s' := by
  cases e with
  | write data => exact move_write h
  | drain loop => exact move_drain h
  | close => exact move_close h
  | work w => exact move_work h
  | callback d value =>
    simp only [Writer.step] at h
    split at h
    case isTrue hc => cases h; exact .callback d value hc.1 hc.2
    case isFalse => cases h
  | resume d =>
    simp only [Writer.step] at h
    split at h
    case isTrue hc => cases h; exact .resume d hc.1 hc.2
    case isFalse => cases h
  | cancel d =>
    simp only [Writer.step] at h
    split at h
    case isTrue hc => cases h; exact .cancel d hc
    case isFalse => cases h
  | closeLoop loop =>
    cases h
    exact .closeLoop loop

end Inversion

/-- Where the thread is after a failure, before a close and after it. -/
structure Phase (s : Writer) : Prop where
  calm : s.broken = false → s.worker.failed = false
  stopped : s.broken = true → s.worker.running = false
  terminal : s.terminalFailure = true ↔ s.broken = true ∧ s.worker ≠ .failing
  cleared : s.terminalFailure = true → s.jobs = [] ∧ s.drains = [] ∧ s.pending = []
  data : ∀ j, some j ∈ s.jobs → j.data ≠ []
  opened : s.broken = false → s.closing = false →
    s.worker.running = true ∧ ∃ js : List Job, s.jobs = js.map some
  closed : s.broken = false → s.closing = true → s.pending = [] ∧
    ((s.worker.running = true ∧ ∃ js : List Job, s.jobs = js.map some ++ [none]) ∨
      (s.worker.running = false ∧ s.jobs = []))

theorem Phase.start : Phase writer.start := by
  constructor <;> simp [writer, Worker.failed, Worker.running]

section Phase

variable {s s' : Writer}

theorem Phase.unbroken (h : Phase s) (hr : s.worker.running = true) : s.broken = false := by
  cases hb : s.broken with
  | false => rfl
  | true =>
    have hstop := h.stopped hb
    rw [hr] at hstop
    cases hstop

theorem Phase.broken (h : Phase s) (hf : s.worker.failed = true) : s.broken = true := by
  cases hb : s.broken with
  | true => rfl
  | false =>
    have hcalm := h.calm hb
    rw [hf] at hcalm
    cases hcalm

/-- The thread goes on in its loop, and takes no job. -/
theorem Phase.run (h : Phase s) (hr : s.worker.running = true) {w : Worker}
    (hw : w.running = true) {sent : Bytes} {flushed : Nat} {drains : List Nat}
    {callbacks : List (Nat × Completion)} :
    Phase { s with
      worker := w, sent := sent, flushed := flushed, drains := drains, callbacks := callbacks } := by
  have hb := h.unbroken hr
  have hterm : s.terminalFailure = false := by
    cases ht : s.terminalFailure with
    | false => rfl
    | true =>
      have hbroken := (h.terminal.1 ht).1
      rw [hb] at hbroken
      cases hbroken
  constructor
  · intro _
    cases w <;> first | rfl | cases hw
  · intro hbroken
    exact absurd hbroken (by simp [hb])
  · simp [hterm, hb]
  · intro ht
    exact absurd ht (by simp [hterm])
  · exact h.data
  · intro _ hop
    exact ⟨hw, (h.opened hb hop).2⟩
  · intro _ hcl
    obtain ⟨hp, ⟨_, hjs⟩ | ⟨hstop, _⟩⟩ := h.closed hb hcl
    · exact ⟨hp, .inl ⟨hw, hjs⟩⟩
    · rw [hr] at hstop
      cases hstop

/-- The thread goes on after a failure. -/
theorem Phase.stop (h : Phase s) (hb : s.broken = true) (hf : s.worker ≠ .failing) {w : Worker}
    (hw : w.running = false) (hne : w ≠ .failing) {callbacks : List (Nat × Completion)} :
    Phase { s with worker := w, callbacks := callbacks } := by
  constructor
  · intro hbroken
    exact absurd hbroken (by simp [hb])
  · intro _
    exact hw
  · exact ⟨fun _ => ⟨hb, hne⟩, fun _ => h.terminal.2 ⟨hb, hf⟩⟩
  · exact h.cleared
  · exact h.data
  · intro hbroken
    exact absurd hbroken (by simp [hb])
  · intro hbroken
    exact absurd hbroken (by simp [hb])

theorem callSoon_eq (s : Writer) (d : Nat) (value : Completion) :
    ∃ cs, s.callSoon d value = { s with callbacks := cs } := by
  unfold Writer.callSoon
  split
  · exact ⟨_, rfl⟩
  · exact ⟨s.callbacks, rfl⟩

theorem Phase.move {e : Event} (h : Phase s) (hm : Move s e s') : Phase s' := by
  cases hm with
  | refused => exact h
  | accept data ht hc =>
    refine ⟨h.calm, h.stopped, h.terminal, ?_, h.data, h.opened, ?_⟩
    · intro hterm
      exact absurd hterm (by simp [ht])
    · intro _ hcl
      exact absurd hcl (by simp [hc])
  | queue loop ht hc hp =>
    refine ⟨h.calm, h.stopped, h.terminal, ?_, ?_, ?_, ?_⟩
    · intro hterm
      exact absurd hterm (by simp [ht])
    · intro j hj
      obtain hj | hj := List.mem_append.1 hj
      · exact h.data j hj
      · simp only [List.mem_singleton, Option.some.injEq] at hj
        rw [hj]
        exact hp
    · intro hb _
      obtain ⟨hrun, js, hjs⟩ := h.opened hb hc
      exact ⟨hrun, js ++ [⟨s.pending, some s.calls.length⟩], by simp [hjs]⟩
    · intro _ hcl
      exact absurd hcl (by simp [hc])
  | close ht hc =>
    refine ⟨h.calm, h.stopped, h.terminal, ?_, ?_, ?_, ?_⟩
    · intro hterm
      exact absurd hterm (by simp [ht])
    · intro j hj
      obtain hj | hj := List.mem_append.1 hj
      · exact h.data j hj
      · split at hj
        · simp at hj
        · rename_i hp
          simp only [List.singleton_append, List.mem_cons, Option.some.injEq, reduceCtorEq,
            List.not_mem_nil, or_false] at hj
          rw [hj]
          exact hp
    · intro _ hop
      exact absurd hop (by simp)
    · intro hb _
      obtain ⟨hrun, js, hjs⟩ := h.opened hb hc
      refine ⟨rfl, .inl ⟨hrun, ?_⟩⟩
      split
      · exact ⟨js, by simp only [hjs, List.nil_append]⟩
      · exact ⟨js ++ [⟨s.pending, none⟩], by simp [hjs]⟩
  | take job rest hw hj =>
    have hrun : s.worker.running = true := by rw [hw]; rfl
    have hb := h.unbroken hrun
    refine ⟨fun _ => rfl, ?_, ?_, ?_, ?_, ?_, ?_⟩
    · intro hbroken
      exact absurd hbroken (by simp [hb])
    · have hterm := h.terminal
      simp only [hb, Bool.false_eq_true, false_and, iff_false] at hterm ⊢
      exact hterm
    · intro hterm
      exact absurd (h.terminal.1 hterm).1 (by simp [hb])
    · intro j hmem
      apply h.data j
      rw [hj]
      exact List.mem_cons_of_mem _ hmem
    · intro _ hop
      obtain ⟨_, js, hjs⟩ := h.opened hb hop
      refine ⟨rfl, js.tail, ?_⟩
      rw [hj] at hjs
      rw [List.map_tail, ← hjs, List.tail_cons]
    · intro _ hcl
      obtain ⟨hp, ⟨_, js, hjs⟩ | ⟨hstop, _⟩⟩ := h.closed hb hcl
      · refine ⟨hp, .inl ⟨rfl, js.tail, ?_⟩⟩
        rw [hj] at hjs
        cases js with
        | nil => simp at hjs
        | cons k js => simpa using (List.cons.inj hjs).2
      · rw [hrun] at hstop
        cases hstop
  | last rest hw hj =>
    have hrun : s.worker.running = true := by rw [hw]; rfl
    have hb := h.unbroken hrun
    refine ⟨fun _ => rfl, ?_, ?_, ?_, ?_, ?_, ?_⟩
    · intro hbroken
      exact absurd hbroken (by simp [hb])
    · have hterm := h.terminal
      simp only [hb, Bool.false_eq_true, false_and, iff_false] at hterm ⊢
      exact hterm
    · intro hterm
      exact absurd (h.terminal.1 hterm).1 (by simp [hb])
    · intro j hmem
      apply h.data j
      rw [hj]
      exact List.mem_cons_of_mem _ hmem
    · intro _ hop
      obtain ⟨_, js, hjs⟩ := h.opened hb hop
      rw [hj] at hjs
      cases js <;> cases hjs
    · intro _ hcl
      obtain ⟨hp, ⟨_, js, hjs⟩ | ⟨hstop, _⟩⟩ := h.closed hb hcl
      · refine ⟨hp, .inr ⟨rfl, ?_⟩⟩
        rw [hj] at hjs
        cases js with
        | nil => exact (List.cons.inj hjs).2
        | cons k js => simp at hjs
      · rw [hrun] at hstop
        cases hstop
  | sent view c n hw hn hle =>
    exact h.run (by rw [hw]; rfl) rfl
  | fail w view taken c hw ht =>
    have hb := h.unbroken (s := s) (by rw [hw]; rfl)
    have hterm : ¬ s.terminalFailure = true := by
      intro hterm
      exact absurd (h.terminal.1 hterm).1 (by simp [hb])
    constructor
    · intro hbroken
      cases hbroken
    · intro _
      rfl
    · simp [Writer.fail, hterm]
    · intro hterm'
      exact absurd hterm' hterm
    · exact h.data
    · intro hbroken
      cases hbroken
    · intro hbroken
      cases hbroken
  | flush c hw => exact h.run (by rw [hw]; rfl) rfl
  | pop d hw => exact h.run (by rw [hw]; rfl) rfl
  | next hw => exact h.run (by rw [hw]; rfl) rfl
  | report d hw =>
    obtain ⟨cs, hcs⟩ := callSoon_eq s d .result
    rw [hcs]
    exact h.run (by rw [hw]; rfl) rfl
  | latch hw =>
    have hb := h.broken (by rw [hw]; rfl)
    constructor
    · intro hbroken
      exact absurd hbroken (by simp [Writer.latchTerminalFailure, hb])
    · intro _
      rfl
    · simp [Writer.latchTerminalFailure, hb]
    · intro _
      exact ⟨rfl, rfl, rfl⟩
    · intro j hj
      cases hj
    · intro hbroken
      exact absurd hbroken (by simp [Writer.latchTerminalFailure, hb])
    · intro hbroken
      exact absurd hbroken (by simp [Writer.latchTerminalFailure, hb])
  | notify d ds hw =>
    obtain ⟨cs, hcs⟩ := callSoon_eq s d .failure
    rw [hcs]
    have hb := h.broken (by rw [hw]; rfl)
    exact h.stop hb (by rw [hw]; simp) rfl (by simp)
  | leave hw =>
    have hb := h.broken (by rw [hw]; rfl)
    exact h.stop hb (by rw [hw]; simp) rfl (by simp)
  | finish hw =>
    refine ⟨fun _ => rfl, fun _ => rfl, ?_, h.cleared, h.data, ?_, ?_⟩
    · have hterm := h.terminal
      rw [hw] at hterm
      simpa using hterm
    · intro hb hop
      have hrun := (h.opened hb hop).1
      rw [hw] at hrun
      cases hrun
    · intro hb hcl
      obtain ⟨hp, ⟨hrun, _⟩ | ⟨_, hjs⟩⟩ := h.closed hb hcl
      · rw [hw] at hrun
        cases hrun
      · exact ⟨hp, .inr ⟨rfl, hjs⟩⟩
  | callback => exact ⟨h.calm, h.stopped, h.terminal, h.cleared, h.data, h.opened, h.closed⟩
  | resume => exact ⟨h.calm, h.stopped, h.terminal, h.cleared, h.data, h.opened, h.closed⟩
  | cancel => exact ⟨h.calm, h.stopped, h.terminal, h.cleared, h.data, h.opened, h.closed⟩
  | closeLoop => exact ⟨h.calm, h.stopped, h.terminal, h.cleared, h.data, h.opened, h.closed⟩

end Phase

/-- Where the accepted bytes are. -/
structure Flow (s : Writer) : Prop where
  sent : s.sent <+: s.written
  tail : s.pending <:+ s.written
  flushed : s.flushed ≤ s.sent.length
  whole : s.broken = false → s.written = s.sent ++ (s.worker.view ++ (queued s.jobs ++ s.pending))
  caught : s.broken = false → (∀ v c, s.worker ≠ .writing v c) → s.flushed = s.sent.length
  ahead : ∀ v c, s.worker = .writing v c → s.flushed < s.sent.length + v.length
  lost : s.broken = true → s.flushed < s.written.length

theorem Flow.start : Flow writer.start := by
  constructor <;> simp [writer, Worker.view]

section Flow

variable {s s' : Writer}

/-- A step that moves no byte and starts no job. -/
theorem Flow.frame (h : Flow s) {w : Worker} (hw : ∀ v c, w ≠ .writing v c)
    (hs : ∀ v c, s.worker ≠ .writing v c) {drains : List Nat}
    {callbacks : List (Nat × Completion)} :
    Flow { s with worker := w, drains := drains, callbacks := callbacks } := by
  have hview : ∀ u : Worker, (∀ v c, u ≠ .writing v c) → u.view = [] := by
    intro u hu
    cases u with
    | writing v c => exact absurd rfl (hu v c)
    | _ => rfl
  refine ⟨h.sent, h.tail, h.flushed, ?_, fun hb _ => h.caught hb hs, ?_, h.lost⟩
  · intro hb
    have hwhole := h.whole hb
    rw [hview _ hs] at hwhole
    show s.written = s.sent ++ (w.view ++ _)
    rw [hview _ hw]
    exact hwhole
  · intro v c hv
    exact absurd hv (hw v c)

theorem Flow.move {e : Event} (hp : Phase s) (h : Flow s) (hm : Move s e s') : Flow s' := by
  cases hm with
  | refused => exact h
  | accept data ht hc =>
    refine ⟨h.sent.trans (List.prefix_append ..), ?_, h.flushed, ?_, h.caught, h.ahead, ?_⟩
    · exact List.suffix_append_inj_of_length_eq rfl |>.2 ⟨h.tail, rfl⟩
    · intro hb
      simp only [h.whole hb, List.append_assoc]
    · intro hb
      have hlost := h.lost hb
      simp only [List.length_append]
      omega
  | queue loop ht hc hpend =>
    refine ⟨h.sent, List.nil_suffix, h.flushed, ?_, h.caught, h.ahead, h.lost⟩
    intro hb
    simp only [queued_append, queued_cons, jobBytes, queued_nil, List.append_nil]
    exact h.whole hb
  | close ht hc =>
    refine ⟨h.sent, List.nil_suffix, h.flushed, ?_, h.caught, h.ahead, h.lost⟩
    intro hb
    have hclose : queued ((if s.pending = [] then [] else [some ⟨s.pending, none⟩]) ++ [none]) =
        s.pending := by
      split
      · rename_i hpend
        rw [hpend]
        rfl
      · simp [jobBytes]
    simp only [queued_append] at hclose ⊢
    simp only [hclose, List.append_nil]
    exact h.whole hb
  | take job rest hw hj =>
    have hb := hp.unbroken (by rw [hw]; rfl)
    have hwhole := h.whole hb
    rw [hw, hj] at hwhole
    refine ⟨h.sent, h.tail, h.flushed, ?_, ?_, ?_, h.lost⟩
    · intro _
      simpa [Worker.view, jobBytes] using hwhole
    · intro _ hne
      exact absurd rfl (hne _ _)
    · intro v c hv
      cases hv
      have hcaught := h.caught hb (by rw [hw]; simp)
      have hpos := List.length_pos_iff.2 (hp.data job (by rw [hj]; exact List.mem_cons_self ..))
      show s.flushed < s.sent.length + job.data.length
      omega
  | last rest hw hj =>
    have hb := hp.unbroken (by rw [hw]; rfl)
    have hwhole := h.whole hb
    rw [hw, hj] at hwhole
    refine ⟨h.sent, h.tail, h.flushed, ?_, ?_, by simp, h.lost⟩
    · intro _
      simpa [Worker.view, jobBytes] using hwhole
    · intro _ _
      exact h.caught hb (by rw [hw]; simp)
  | sent view c n hw hn hle =>
    have hb := hp.unbroken (by rw [hw]; rfl)
    have hwhole : s.written =
        s.sent ++ view.take n ++ (view.drop n ++ (queued s.jobs ++ s.pending)) := by
      have hwhole := h.whole hb
      rw [hw] at hwhole
      rw [hwhole]
      simp only [Worker.view, List.append_assoc]
      rw [← List.append_assoc (view.take n), List.take_append_drop]
    refine ⟨?_, h.tail, ?_, fun _ => hwhole, ?_, ?_, ?_⟩
    · rw [hwhole]
      exact List.prefix_append ..
    · have hflushed := h.flushed
      simp only [List.length_append]
      omega
    · intro _ hne
      exact absurd rfl (hne _ _)
    · intro v d hv
      cases hv
      have hahead := h.ahead view c hw
      simp only [List.length_append, List.length_take, List.length_drop]
      omega
    · intro hbroken
      exact absurd hbroken (by simp [hb])
  | fail w view taken c hw ht =>
    have hb := hp.unbroken (by rw [hw]; rfl)
    have hwhole := h.whole hb
    rw [hw] at hwhole
    have hahead := h.ahead view c hw
    refine ⟨?_, h.tail, ?_, by simp [Writer.fail], by simp [Writer.fail], by simp [Writer.fail], ?_⟩
    · show s.sent ++ taken <+: s.written
      rw [hwhole]
      exact (List.prefix_append_right_inj s.sent).2 (ht.trans (List.prefix_append ..))
    · have hflushed := h.flushed
      simp only [Writer.fail, List.length_append]
      omega
    · intro _
      have hlen := congrArg List.length hwhole
      simp only [Worker.view, List.length_append] at hlen
      show s.flushed < s.written.length
      omega
  | flush c hw =>
    have hb := hp.unbroken (by rw [hw]; rfl)
    have hwhole := h.whole hb
    rw [hw] at hwhole
    refine ⟨h.sent, h.tail, le_rfl, fun _ => hwhole, fun _ _ => rfl, by simp, ?_⟩
    intro hbroken
    exact absurd hbroken (by simp [hb])
  | pop d hw => exact h.frame (by simp) (by rw [hw]; simp)
  | next hw => exact h.frame (by simp) (by rw [hw]; simp)
  | report d hw =>
    obtain ⟨cs, hcs⟩ := callSoon_eq s d .result
    rw [hcs]
    exact h.frame (by simp) (by rw [hw]; simp)
  | latch hw =>
    have hb := hp.broken (by rw [hw]; rfl)
    refine ⟨h.sent, List.nil_suffix, h.flushed, ?_, ?_, ?_, h.lost⟩ <;>
      simp [Writer.latchTerminalFailure, hb]
  | notify d ds hw =>
    obtain ⟨cs, hcs⟩ := callSoon_eq s d .failure
    rw [hcs]
    exact h.frame (by simp) (by rw [hw]; simp)
  | leave hw => exact h.frame (by simp) (by rw [hw]; simp)
  | finish hw => exact h.frame (by simp) (by rw [hw]; simp)
  | callback => exact ⟨h.sent, h.tail, h.flushed, h.whole, h.caught, h.ahead, h.lost⟩
  | resume => exact ⟨h.sent, h.tail, h.flushed, h.whole, h.caught, h.ahead, h.lost⟩
  | cancel => exact ⟨h.sent, h.tail, h.flushed, h.whole, h.caught, h.ahead, h.lost⟩
  | closeLoop => exact ⟨h.sent, h.tail, h.flushed, h.whole, h.caught, h.ahead, h.lost⟩

end Flow

end KestrelSdk.Stdio

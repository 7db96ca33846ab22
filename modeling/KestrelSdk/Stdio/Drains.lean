import KestrelSdk.Stdio.Flow

namespace KestrelSdk.Stdio

open Asyncio
open Json (Bytes)

/-- The drain whose job the thread has. -/
def Worker.current : Worker → Option Nat
  | .writing _ c => c
  | .succeeded c => c
  | _ => none

/-- The drains that the thread has yet to fail. -/
def Worker.condemned : Worker → List Nat
  | .notifying ds => ds
  | _ => []

/-- Call `d` took the bytes up to `n`. -/
def Ends (calls : List Drain) (d n : Nat) : Prop := ∃ c, calls[d]? = some c ∧ c.upTo = n

/-- Each job of a drain ends where the drain says, counted from `pos` on. -/
def Placed (calls : List Drain) : Nat → List (Option Job) → Prop
  | _, [] => True
  | pos, j :: jobs =>
    (∀ job d, j = some job → job.completion = some d → Ends calls d (pos + job.data.length)) ∧
      Placed calls (pos + (jobBytes j).length) jobs

/-- The job of drain `d` is queued or with the thread. -/
def InFlight (s : Writer) (d : Nat) : Prop :=
  s.worker.current = some d ∨ ∃ job, some job ∈ s.jobs ∧ job.completion = some d

/-- The thread found, or a future says, that drain `d` succeeded. -/
def Good (s : Writer) (d : Nat) : Prop :=
  s.worker = .succeeded (some d) ∨ s.worker = .reporting d ∨ (d, Completion.result) ∈ s.callbacks ∨
    ∃ c, s.calls[d]? = some c ∧ (c.completion = .result ∨ c.caller = .returned)

/-- Drain `d` is to fail, has failed, or its loop is closed. -/
def Condemned (s : Writer) (d : Nat) : Prop :=
  d ∈ s.drains ∨ d ∈ s.worker.condemned ∨ (d, Completion.failure) ∈ s.callbacks ∨
    ∃ c, s.calls[d]? = some c ∧ (c.completion = .failure ∨ c.loop ∈ s.closedLoops)

/-- The bytes that a drain took. -/
def Took (written : Bytes) (c : Drain) : Prop :=
  c.data ≠ [] ∧ ∃ before, before ++ c.data <+: written ∧ c.upTo = (before ++ c.data).length

/-- Each drain: its bytes, its job and its future. -/
structure Ledger (s : Writer) : Prop where
  took : ∀ c ∈ s.calls, Took s.written c
  placed : s.broken = false → Placed s.calls (s.sent.length + s.worker.view.length) s.jobs
  current : ∀ view d, s.worker = .writing view (some d) →
    Ends s.calls d (s.sent.length + view.length)
  good : ∀ d, Good s d → ∃ n, Ends s.calls d n ∧ n ≤ s.flushed
  inflight : s.broken = false → ∀ d ∈ s.drains, InFlight s d
  unsent : s.broken = true → ∀ d ∈ s.drains, ∃ n, Ends s.calls d n ∧ s.flushed < n
  covered : ∀ d n, Ends s.calls d n → n ≤ s.flushed ∨ Condemned s d

/-- The calls of a later state: each keeps its bytes. -/
def Keeps (cs ds : List Drain) : Prop := ∀ d n, Ends cs d n → Ends ds d n

theorem Ends.append {cs : List Drain} {d n : Nat} (h : Ends cs d n) (ds : List Drain) :
    Ends (cs ++ ds) d n := by
  obtain ⟨c, hc, hn⟩ := h
  exact ⟨c, List.getElem?_append_left (List.getElem?_eq_some_iff.1 hc).1 |>.trans hc, hn⟩

theorem ends_modify {cs : List Drain} {i : Nat} {f : Drain → Drain} (hf : ∀ c, (f c).upTo = c.upTo)
    {d n : Nat} : Ends (cs.modify i f) d n ↔ Ends cs d n := by
  unfold Ends
  rw [List.getElem?_modify]
  split
  · cases cs[d]? with
    | none => simp
    | some c => simp [hf]
  · simp

theorem Placed.mono {cs ds : List Drain} (hk : Keeps cs ds) {jobs : List (Option Job)} {pos : Nat}
    (h : Placed cs pos jobs) : Placed ds pos jobs := by
  induction jobs generalizing pos with
  | nil => trivial
  | cons j jobs ih => exact ⟨fun job d hj hd => hk _ _ (h.1 job d hj hd), ih h.2⟩

theorem placed_append {cs : List Drain} {js ks : List (Option Job)} {pos : Nat} :
    Placed cs pos (js ++ ks) ↔
      Placed cs pos js ∧ Placed cs (pos + (queued js).length) ks := by
  induction js generalizing pos with
  | nil => simp [Placed]
  | cons j js ih =>
    simp only [List.cons_append, Placed, ih, queued_cons, List.length_append, Nat.add_assoc,
      and_assoc]

/-- A queued job ends beyond where the queue starts. -/
theorem Placed.beyond {cs : List Drain} {jobs : List (Option Job)} {pos : Nat}
    (h : Placed cs pos jobs) {job : Job} (hj : some job ∈ jobs) (hne : job.data ≠ []) {d : Nat}
    (hd : job.completion = some d) : ∃ n, Ends cs d n ∧ pos < n := by
  have hpos := List.length_pos_iff.2 hne
  induction jobs generalizing pos with
  | nil => cases hj
  | cons j jobs ih =>
    obtain rfl | hj := List.mem_cons.1 hj
    · exact ⟨_, h.1 job d rfl hd, by omega⟩
    · obtain ⟨n, hn, hlt⟩ := ih h.2 hj
      exact ⟨n, hn, by omega⟩

theorem Ends.unique {cs : List Drain} {d m n : Nat} (hm : Ends cs d m) (hn : Ends cs d n) :
    m = n := by
  obtain ⟨c, hc, rfl⟩ := hm
  obtain ⟨c', hc', rfl⟩ := hn
  rw [hc] at hc'
  cases hc'
  rfl

theorem Ledger.start : Ledger writer.start := by
  constructor <;> simp [writer, Placed, Good, Ends]

section Ledger

variable {s s' : Writer}

theorem Ledger.queue (hf : Flow s) (h : Ledger s) (loop : Nat)
    (hpend : s.pending ≠ []) :
    Ledger { s with
      pending := []
      drains := s.drains ++ [s.calls.length]
      jobs := s.jobs ++ [some ⟨s.pending, some s.calls.length⟩]
      calls := s.calls ++ [⟨loop, s.written.length, s.pending, .pending, .awaiting⟩] } := by
  have hkeep : Keeps s.calls
      (s.calls ++ [⟨loop, s.written.length, s.pending, .pending, .awaiting⟩]) :=
    fun d n hd => hd.append _
  have hnew : Ends (s.calls ++ [⟨loop, s.written.length, s.pending, .pending, .awaiting⟩])
      s.calls.length s.written.length :=
    ⟨_, List.getElem?_concat_length, rfl⟩
  refine ⟨?_, ?_, ?_, ?_, ?_, ?_, ?_⟩
  · intro c hc
    obtain hc | hc := List.mem_append.1 hc
    · exact h.took c hc
    · obtain rfl := List.mem_singleton.1 hc
      obtain ⟨before, hb⟩ := hf.tail
      exact ⟨hpend, before, ⟨[], by rw [List.append_nil, hb]⟩, by rw [hb]⟩
  · intro hb
    apply placed_append.2 ⟨(h.placed hb).mono hkeep, ?_⟩
    simp only [Placed, and_true]
    intro job d hj hd
    cases hj
    cases hd
    have hlen := congrArg List.length (hf.whole hb)
    simp only [List.length_append] at hlen
    have hpos : s.sent.length + s.worker.view.length + (queued s.jobs).length + s.pending.length =
        s.written.length := by omega
    rw [hpos]
    exact hnew
  · intro view d hw
    exact hkeep _ _ (h.current view d hw)
  · intro d hd
    obtain ⟨n, hn, hle⟩ := h.good d (by
      obtain hd | hd | hd | ⟨c, hc, hd⟩ := hd
      · exact .inl hd
      · exact .inr (.inl hd)
      · exact .inr (.inr (.inl hd))
      · rw [List.getElem?_append] at hc
        split at hc
        · exact .inr (.inr (.inr ⟨c, hc, hd⟩))
        · obtain rfl := List.mem_singleton.1 (List.mem_of_getElem? hc)
          simp at hd)
    exact ⟨n, hkeep _ _ hn, hle⟩
  · intro hb d hd
    obtain hd | hd := List.mem_append.1 hd
    · obtain hcur | ⟨job, hj, hd⟩ := h.inflight hb d hd
      · exact .inl hcur
      · exact .inr ⟨job, List.mem_append_left _ hj, hd⟩
    · obtain rfl := List.mem_singleton.1 hd
      exact .inr ⟨_, List.mem_append_right _ (List.mem_singleton_self _), rfl⟩
  · intro hb d hd
    obtain hd | hd := List.mem_append.1 hd
    · obtain ⟨n, hn, hlt⟩ := h.unsent hb d hd
      exact ⟨n, hkeep _ _ hn, hlt⟩
    · obtain rfl := List.mem_singleton.1 hd
      exact ⟨_, hnew, hf.lost hb⟩
  · intro d n hd
    by_cases hlt : d < s.calls.length
    · obtain ⟨c, hc, hn⟩ := hd
      have hc' : s.calls[d]? = some c := (List.getElem?_append_left hlt).symm.trans hc
      obtain hle | hcond := h.covered d n ⟨c, hc', hn⟩
      · exact .inl hle
      · refine .inr ?_
        obtain hcond | hcond | hcond | ⟨c', hc', hcond⟩ := hcond
        · exact .inl (List.mem_append_left _ hcond)
        · exact .inr (.inl hcond)
        · exact .inr (.inr (.inl hcond))
        · exact .inr (.inr (.inr ⟨c', (List.getElem?_append_left hlt).trans hc', hcond⟩))
    · obtain ⟨c, hc, _⟩ := hd
      have hd := (List.getElem?_eq_some_iff.1 hc).1
      simp only [List.length_append, List.length_singleton] at hd
      obtain rfl : d = s.calls.length := by omega
      exact .inr (.inl (List.mem_append_right _ (List.mem_singleton_self _)))

/-- A failure leaves every drain in flight unsent. -/
theorem Ledger.fail (hp : Phase s) (hf : Flow s) (h : Ledger s) {view taken : Bytes}
    {c : Option Nat} (hw : s.worker = .writing view c) : Ledger (s.fail taken) := by
  have hb := hp.unbroken (by rw [hw]; rfl)
  have hahead := hf.ahead view c hw
  refine ⟨h.took, by simp [Writer.fail], by simp [Writer.fail], ?_, by simp [Writer.fail], ?_, ?_⟩
  · intro d hd
    apply h.good d
    obtain hd | hd | hd | hd := hd
    · cases hd
    · cases hd
    · exact .inr (.inr (.inl hd))
    · exact .inr (.inr (.inr hd))
  · intro _ d hd
    obtain hcur | ⟨job, hj, hd⟩ := h.inflight hb d hd
    · rw [hw] at hcur
      simp only [Worker.current] at hcur
      subst hcur
      exact ⟨_, h.current view d hw, hahead⟩
    · obtain ⟨n, hn, hlt⟩ := (h.placed hb).beyond hj (hp.data job hj) hd
      rw [hw] at hlt
      simp only [Worker.view] at hlt
      exact ⟨n, hn, by show s.flushed < n; omega⟩
  · intro d n hd
    obtain hle | hcond := h.covered d n hd
    · exact .inl hle
    · refine .inr ?_
      obtain hcond | hcond | hcond | hcond := hcond
      · exact .inl hcond
      · rw [hw] at hcond
        cases hcond
      · exact .inr (.inr (.inl hcond))
      · exact .inr (.inr (.inr hcond))

theorem Ledger.take (hp : Phase s) (h : Ledger s) {job : Job} {rest : List (Option Job)}
    (hw : s.worker = .getting) (hj : s.jobs = some job :: rest) :
    Ledger { s with jobs := rest, worker := .writing job.data job.completion } := by
  have hb := hp.unbroken (by rw [hw]; rfl)
  have hplaced := h.placed hb
  rw [hw, hj] at hplaced
  simp only [Worker.view, List.length_nil, Nat.add_zero] at hplaced
  refine ⟨h.took, fun _ => hplaced.2, ?_, ?_, ?_, ?_, ?_⟩
  · intro view d hv
    obtain ⟨rfl, hd⟩ := Worker.writing.inj hv
    exact hplaced.1 job d rfl hd
  · intro d hd
    apply h.good d
    obtain hd | hd | hd | hd := hd
    · cases hd
    · cases hd
    · exact .inr (.inr (.inl hd))
    · exact .inr (.inr (.inr hd))
  · intro _ d hd
    obtain hcur | ⟨k, hk, hd⟩ := h.inflight hb d hd
    · rw [hw] at hcur
      cases hcur
    · rw [hj] at hk
      obtain hk | hk := List.mem_cons.1 hk
      · cases hk
        exact .inl hd
      · exact .inr ⟨k, hk, hd⟩
  · intro hbroken
    exact absurd hbroken (by simp [hb])
  · intro d n hd
    obtain hle | hcond := h.covered d n hd
    · exact .inl hle
    · refine .inr ?_
      obtain hcond | hcond | hcond | hcond := hcond
      · exact .inl hcond
      · rw [hw] at hcond
        cases hcond
      · exact .inr (.inr (.inl hcond))
      · exact .inr (.inr (.inr hcond))

/-- A step of the thread that changes neither the queue nor the stream. -/
theorem Ledger.thread (h : Ledger s) {w : Worker} (hview : w.view = s.worker.view)
    (hcur : w.current = s.worker.current) (hwrite : ∀ v c, w ≠ .writing v c)
    {callbacks : List (Nat × Completion)}
    (hgood : ∀ d, w = .succeeded (some d) ∨ w = .reporting d ∨ (d, Completion.result) ∈ callbacks →
      Good s d)
    (hcond : ∀ d, d ∈ s.worker.condemned ∨ (d, Completion.failure) ∈ s.callbacks →
      d ∈ w.condemned ∨ (d, Completion.failure) ∈ callbacks ∨
        ∀ c, s.calls[d]? = some c → c.loop ∈ s.closedLoops) :
    Ledger { s with worker := w, callbacks := callbacks } := by
  refine ⟨h.took, ?_, ?_, ?_, ?_, h.unsent, ?_⟩
  · intro hb
    have hplaced := h.placed hb
    rw [← hview] at hplaced
    exact hplaced
  · intro view d hw
    exact absurd hw (hwrite view _)
  · intro d hd
    apply h.good d
    obtain hd | hd | hd | hd := hd
    · exact hgood d (.inl hd)
    · exact hgood d (.inr (.inl hd))
    · exact hgood d (.inr (.inr hd))
    · exact .inr (.inr (.inr hd))
  · intro hb d hd
    obtain hd | hd := h.inflight hb d hd
    · exact .inl (hcur.trans hd)
    · exact .inr hd
  · intro d n hd
    obtain hle | hc := h.covered d n hd
    · exact .inl hle
    · refine .inr ?_
      have hmove : d ∈ s.worker.condemned ∨ (d, Completion.failure) ∈ s.callbacks →
          Condemned { s with worker := w, callbacks := callbacks } d := by
        intro hc
        obtain hc | hc | hc := hcond d hc
        · exact .inr (.inl hc)
        · exact .inr (.inr (.inl hc))
        · obtain ⟨c, hcall, _⟩ := hd
          exact .inr (.inr (.inr ⟨c, hcall, .inr (hc c hcall)⟩))
      obtain hc | hc | hc | hc := hc
      · exact .inl hc
      · exact hmove (.inl hc)
      · exact hmove (.inr hc)
      · exact .inr (.inr (.inr hc))

/-- A step of the thread that tells nobody anything. -/
theorem Ledger.quiet (h : Ledger s) {w : Worker} (hview : w.view = s.worker.view)
    (hcur : w.current = s.worker.current) (hcond : w.condemned = s.worker.condemned)
    (hwrite : ∀ v c, w ≠ .writing v c) (hgood : ∀ d, w ≠ .succeeded (some d) ∧ w ≠ .reporting d) :
    Ledger { s with worker := w } := by
  apply h.thread hview hcur hwrite
  · intro d hd
    obtain hd | hd | hd := hd
    · exact absurd hd (hgood d).1
    · exact absurd hd (hgood d).2
    · exact .inr (.inr (.inl hd))
  · intro d hd
    rw [hcond]
    obtain hd | hd := hd
    · exact .inl hd
    · exact .inr (.inl hd)

/-- A step that leaves the thread and changes what is known of one future. -/
theorem Ledger.future (h : Ledger s) {i : Nat} {f : Drain → Drain}
    (hf : ∀ c, (f c).upTo = c.upTo ∧ (f c).data = c.data ∧ (f c).loop = c.loop)
    {callbacks : List (Nat × Completion)}
    (hsub : ∀ d, (d, Completion.result) ∈ callbacks → (d, Completion.result) ∈ s.callbacks)
    (hgood : ∀ c, s.calls[i]? = some c → (f c).completion = .result ∨ (f c).caller = .returned →
      Good s i)
    (hfail : ∀ c, s.calls[i]? = some c → c.completion = .failure → (f c).completion = .failure)
    (hcond : ∀ d, (d, Completion.failure) ∈ s.callbacks → (d, Completion.failure) ∈ callbacks ∨
      d = i ∧ ∀ c, s.calls[i]? = some c → (f c).completion = .failure ∨ Good s i) :
    Ledger { s with calls := s.calls.modify i f, callbacks := callbacks } := by
  have hends : ∀ {d n}, Ends (s.calls.modify i f) d n ↔ Ends s.calls d n :=
    ends_modify fun c => (hf c).1
  have hkeep : Keeps s.calls (s.calls.modify i f) := fun d n hd => hends.2 hd
  refine ⟨?_, ?_, ?_, ?_, h.inflight, ?_, ?_⟩
  · intro c hc
    obtain ⟨j, hj⟩ := List.mem_iff_getElem?.1 hc
    rw [List.getElem?_modify] at hj
    obtain ⟨c₀, hc₀, rfl⟩ := Option.map_eq_some_iff.1 hj
    have htook := h.took c₀ (List.mem_of_getElem? hc₀)
    split
    · obtain ⟨hup, hdata, _⟩ := hf c₀
      unfold Took
      rw [hup, hdata]
      exact htook
    · exact htook
  · intro hb
    exact (h.placed hb).mono hkeep
  · intro view d hw
    exact hkeep _ _ (h.current view d hw)
  · intro d hd
    obtain ⟨n, hn, hle⟩ := h.good d (by
      obtain hd | hd | hd | ⟨c, hc, hd⟩ := hd
      · exact .inl hd
      · exact .inr (.inl hd)
      · exact .inr (.inr (.inl (hsub d hd)))
      · rw [List.getElem?_modify] at hc
        obtain ⟨c₀, hc₀, rfl⟩ := Option.map_eq_some_iff.1 hc
        split at hd
        · rename_i hi
          subst hi
          exact hgood c₀ hc₀ hd
        · exact .inr (.inr (.inr ⟨c₀, hc₀, hd⟩)))
    exact ⟨n, hends.2 hn, hle⟩
  · intro hb d hd
    obtain ⟨n, hn, hlt⟩ := h.unsent hb d hd
    exact ⟨n, hends.2 hn, hlt⟩
  · intro d n hd
    obtain hle | hc := h.covered d n (hends.1 hd)
    · exact .inl hle
    · obtain hc | hc | hc | ⟨c, hcall, hc⟩ := hc
      · exact .inr (.inl hc)
      · exact .inr (.inr (.inl hc))
      · obtain hc | ⟨rfl, hc⟩ := hcond d hc
        · exact .inr (.inr (.inr (.inl hc)))
        · obtain ⟨c, hcall, _⟩ := hends.1 hd
          obtain hc | hc := hc c hcall
          · refine .inr (.inr (.inr (.inr ⟨f c, ?_, .inl hc⟩)))
            show (s.calls.modify d f)[d]? = some (f c)
            rw [List.getElem?_modify, hcall]
            simp
          · obtain ⟨m, hm, hle⟩ := h.good d hc
            rw [Ends.unique (hends.1 hd) hm]
            exact .inl hle
      · refine .inr (.inr (.inr (.inr ⟨if i = d then f c else c, ?_, ?_⟩)))
        · show (s.calls.modify i f)[d]? = _
          rw [List.getElem?_modify, hcall]
          rfl
        · split
          · rename_i hi
            subst hi
            obtain hc | hc := hc
            · exact .inl (hfail c hcall hc)
            · exact .inr (by rw [(hf c).2.2]; exact hc)
          · exact hc

/-- A scheduled callback is known, or the loop is closed. -/
theorem mem_callSoon (s : Writer) (d : Nat) (value : Completion) :
    (d, value) ∈ (s.callSoon d value).callbacks ∨
      ∀ c, s.calls[d]? = some c → c.loop ∈ s.closedLoops := by
  unfold Writer.callSoon
  split
  · exact .inl (List.mem_append_right _ (List.mem_singleton_self _))
  · rename_i ho
    refine .inr fun c hc => ?_
    simpa [Writer.open?, Writer.loopOf, hc] using ho

theorem callSoon_mem {d e : Nat} {value v : Completion} (h : (e, v) ∈ s.callbacks) :
    (e, v) ∈ (s.callSoon d value).callbacks := by
  unfold Writer.callSoon
  split
  · exact List.mem_append_left _ h
  · exact h

theorem of_mem_callSoon {d e : Nat} {value v : Completion}
    (h : (e, v) ∈ (s.callSoon d value).callbacks) : (e, v) ∈ s.callbacks ∨ e = d ∧ v = value := by
  unfold Writer.callSoon at h
  split at h
  · obtain h | h := List.mem_append.1 h
    · exact .inl h
    · exact .inr (by simpa using h)
  · exact .inl h

theorem callSoon_fields (s : Writer) (d : Nat) (value : Completion) :
    s.callSoon d value = { s with callbacks := (s.callSoon d value).callbacks } := by
  obtain ⟨cs, hcs⟩ := callSoon_eq s d value
  rw [hcs]

theorem Ledger.move {e : Event} (hp : Phase s) (hf : Flow s) (h : Ledger s) (hm : Move s e s') :
    Ledger s' := by
  cases hm with
  | refused => exact h
  | accept data ht hc =>
    refine ⟨?_, h.placed, h.current, h.good, h.inflight, h.unsent, h.covered⟩
    intro c hc
    obtain ⟨hne, before, hpre, hup⟩ := h.took c hc
    exact ⟨hne, before, hpre.trans (List.prefix_append ..), hup⟩
  | queue loop ht hc hpend => exact h.queue hf loop hpend
  | close ht hc =>
    refine ⟨h.took, ?_, h.current, h.good, ?_, h.unsent, h.covered⟩
    · intro hb
      apply placed_append.2 ⟨h.placed hb, ?_⟩
      split
      · simp [Placed]
      · simp only [List.singleton_append, Placed, reduceCtorEq, false_implies, implies_true,
          and_true]
        intro job d hj hd
        cases hj
        cases hd
    · intro hb d hd
      obtain hcur | ⟨job, hj, hd⟩ := h.inflight hb d hd
      · exact .inl hcur
      · exact .inr ⟨job, List.mem_append_left _ hj, hd⟩
  | take job rest hw hj => exact h.take hp hw hj
  | last rest hw hj =>
    have hb := hp.unbroken (by rw [hw]; rfl)
    have hrest : Ledger { s with jobs := rest } := by
      refine ⟨h.took, ?_, h.current, h.good, ?_, h.unsent, h.covered⟩
      · intro _
        have hplaced := h.placed hb
        rw [hj] at hplaced
        exact hplaced.2
      · intro _ d hd
        obtain hcur | ⟨job, hmem, hd⟩ := h.inflight hb d hd
        · exact .inl hcur
        · rw [hj] at hmem
          obtain hmem | hmem := List.mem_cons.1 hmem
          · cases hmem
          · exact .inr ⟨job, hmem, hd⟩
    apply hrest.quiet <;> simp [hw, Worker.view, Worker.current, Worker.condemned]
  | sent view c n hw hn hle =>
    have hb := hp.unbroken (by rw [hw]; rfl)
    have hlen : (s.sent ++ view.take n).length + (view.drop n).length =
        s.sent.length + view.length := by
      simp only [List.length_append, List.length_take, List.length_drop]
      omega
    refine ⟨h.took, ?_, ?_, ?_, ?_, h.unsent, ?_⟩
    · intro _
      have hplaced := h.placed hb
      rw [hw] at hplaced
      show Placed s.calls ((s.sent ++ view.take n).length + (view.drop n).length) s.jobs
      rw [hlen]
      exact hplaced
    · intro v d hv
      obtain ⟨rfl, rfl⟩ := Worker.writing.inj hv
      show Ends s.calls d ((s.sent ++ view.take n).length + (view.drop n).length)
      rw [hlen]
      exact h.current view d hw
    · intro d hd
      apply h.good d
      obtain hd | hd | hd | hd := hd
      · cases hd
      · cases hd
      · exact .inr (.inr (.inl hd))
      · exact .inr (.inr (.inr hd))
    · intro _ d hd
      obtain hcur | hcur := h.inflight hb d hd
      · rw [hw] at hcur
        exact .inl hcur
      · exact .inr hcur
    · intro d m hd
      obtain hle | hcond := h.covered d m hd
      · exact .inl hle
      · refine .inr ?_
        unfold Condemned at hcond
        rw [hw] at hcond
        exact hcond
  | fail w view taken c hw ht => exact h.fail hp hf hw
  | flush c hw =>
    have hb := hp.unbroken (by rw [hw]; rfl)
    refine ⟨h.took, ?_, by simp, ?_, ?_, ?_, ?_⟩
    · intro _
      have hplaced := h.placed hb
      rw [hw] at hplaced
      exact hplaced
    · intro d hd
      have hold : Good s d → ∃ n, Ends s.calls d n ∧ n ≤ s.sent.length := by
        intro hd
        obtain ⟨n, hn, hle⟩ := h.good d hd
        exact ⟨n, hn, hle.trans hf.flushed⟩
      obtain hd | hd | hd | hd := hd
      · obtain rfl := Worker.succeeded.inj hd
        exact ⟨_, h.current [] d hw, le_rfl⟩
      · cases hd
      · exact hold (.inr (.inr (.inl hd)))
      · exact hold (.inr (.inr (.inr hd)))
    · intro _ d hd
      obtain hcur | hcur := h.inflight hb d hd
      · rw [hw] at hcur
        exact .inl hcur
      · exact .inr hcur
    · intro hbroken
      exact absurd hbroken (by simp [hb])
    · intro d n hd
      obtain hle | hcond := h.covered d n hd
      · exact .inl (hle.trans hf.flushed)
      · refine .inr ?_
        unfold Condemned at hcond
        rw [hw] at hcond
        exact hcond
  | pop d hw =>
    have hb := hp.unbroken (by rw [hw]; rfl)
    refine ⟨h.took, ?_, by simp, ?_, ?_, ?_, ?_⟩
    · intro _
      have hplaced := h.placed hb
      rw [hw] at hplaced
      exact hplaced
    · intro e he
      apply h.good e
      obtain he | he | he | he := he
      · cases he
      · obtain rfl := Worker.reporting.inj he
        exact .inl hw
      · exact .inr (.inr (.inl he))
      · exact .inr (.inr (.inr he))
    · intro _ e he
      obtain ⟨he, hne⟩ := List.mem_filter.1 he
      obtain hcur | hcur := h.inflight hb e he
      · rw [hw] at hcur
        obtain rfl := Option.some.inj hcur
        simp at hne
      · exact .inr hcur
    · intro hbroken
      exact absurd hbroken (by simp [hb])
    · intro e n he
      obtain hle | hcond := h.covered e n he
      · exact .inl hle
      · by_cases hed : e = d
        · subst hed
          obtain ⟨m, hm, hle⟩ := h.good e (.inl hw)
          rw [Ends.unique he hm]
          exact .inl hle
        · refine .inr ?_
          obtain hcond | hcond | hcond | hcond := hcond
          · exact .inl (List.mem_filter.2 ⟨hcond, by simpa using hed⟩)
          · rw [hw] at hcond
            cases hcond
          · exact .inr (.inr (.inl hcond))
          · exact .inr (.inr (.inr hcond))
  | next hw =>
    apply h.quiet <;> simp [hw, Worker.view, Worker.current, Worker.condemned]
  | report d hw =>
    rw [callSoon_fields]
    apply h.thread
    · simp only [hw, Worker.view]
    · simp only [hw, Worker.current]
    · simp
    · intro e he
      obtain he | he | he := he
      · cases he
      · cases he
      · obtain he | ⟨rfl, _⟩ := of_mem_callSoon he
        · exact .inr (.inr (.inl he))
        · exact .inr (.inl hw)
    · intro e he
      rw [hw] at he
      obtain he | he := he
      · cases he
      · exact .inr (.inl (callSoon_mem he))
  | latch hw =>
    have hb := hp.broken (by rw [hw]; rfl)
    refine ⟨h.took, ?_, by simp [Writer.latchTerminalFailure], ?_, ?_, ?_, ?_⟩
    · intro hbroken
      exact absurd hbroken (by simp [Writer.latchTerminalFailure, hb])
    · intro d hd
      apply h.good d
      obtain hd | hd | hd | hd := hd
      · cases hd
      · cases hd
      · exact .inr (.inr (.inl hd))
      · exact .inr (.inr (.inr hd))
    · intro hbroken
      exact absurd hbroken (by simp [Writer.latchTerminalFailure, hb])
    · intro _ d hd
      cases hd
    · intro d n hd
      obtain hle | hcond := h.covered d n hd
      · exact .inl hle
      · refine .inr ?_
        obtain hcond | hcond | hcond | hcond := hcond
        · exact .inr (.inl hcond)
        · rw [hw] at hcond
          cases hcond
        · exact .inr (.inr (.inl hcond))
        · exact .inr (.inr (.inr hcond))
  | notify d ds hw =>
    rw [callSoon_fields]
    apply h.thread
    · simp only [hw, Worker.view]
    · simp only [hw, Worker.current]
    · simp
    · intro e he
      obtain he | he | he := he
      · cases he
      · cases he
      · obtain he | ⟨_, he⟩ := of_mem_callSoon he
        · exact .inr (.inr (.inl he))
        · cases he
    · intro e he
      rw [hw] at he
      obtain he | he := he
      · obtain rfl | he := List.mem_cons.1 he
        · exact .inr (mem_callSoon s e .failure)
        · exact .inl he
      · exact .inr (.inl (callSoon_mem he))
  | leave hw =>
    apply h.quiet <;> simp [hw, Worker.view, Worker.current, Worker.condemned]
  | finish hw =>
    apply h.quiet <;> simp [hw, Worker.view, Worker.current, Worker.condemned]
  | callback d value hm ho =>
    apply h.future
    · intro c
      unfold Drain.set
      split <;> exact ⟨rfl, rfl, rfl⟩
    · intro e he
      exact List.mem_of_mem_erase he
    · intro c hc hres
      unfold Drain.set at hres
      split at hres
      · obtain hres | hres := hres
        · simp only at hres
          subst hres
          exact .inr (.inr (.inl hm))
        · exact .inr (.inr (.inr ⟨c, hc, .inr hres⟩))
      · exact .inr (.inr (.inr ⟨c, hc, hres⟩))
    · intro c _ hc
      unfold Drain.set
      rw [hc]
      exact hc
    · intro e he
      by_cases heq : (e, Completion.failure) = (d, value)
      · obtain ⟨rfl, rfl⟩ := Prod.mk.inj heq
        refine .inr ⟨rfl, fun c hc => ?_⟩
        unfold Drain.set
        cases hcomp : c.completion with
        | pending => exact .inl rfl
        | failure => exact .inl hcomp
        | result => exact .inr (.inr (.inr (.inr ⟨c, hc, .inl hcomp⟩)))
      · exact .inl ((List.mem_erase_of_ne heq).2 he)
  | resume d ha hd =>
    apply h.future
    · intro c
      unfold Drain.settle
      split <;> exact ⟨rfl, rfl, rfl⟩
    · intro e he
      exact he
    · intro c hc hres
      unfold Drain.settle at hres
      split at hres
      · exact .inr (.inr (.inr ⟨c, hc, hres⟩))
      · rename_i hcomp
        exact .inr (.inr (.inr ⟨c, hc, .inl hcomp⟩))
      · rename_i hcomp
        simp [hcomp] at hres
    · intro c _ hc
      unfold Drain.settle
      rw [hc]
    · intro e he
      exact .inl he
  | cancel d ha =>
    apply h.future
    · intro c
      exact ⟨rfl, rfl, rfl⟩
    · intro e he
      exact he
    · intro c hc hres
      obtain hres | hres := hres
      · exact .inr (.inr (.inr ⟨c, hc, .inl hres⟩))
      · cases hres
    · intro c _ hc
      exact hc
    · intro e he
      exact .inl he
  | closeLoop loop =>
    refine ⟨h.took, h.placed, h.current, h.good, h.inflight, h.unsent, ?_⟩
    intro d n hd
    obtain hle | hcond := h.covered d n hd
    · exact .inl hle
    · refine .inr ?_
      obtain hcond | hcond | hcond | ⟨c, hc, hcond⟩ := hcond
      · exact .inl hcond
      · exact .inr (.inl hcond)
      · exact .inr (.inr (.inl hcond))
      · exact .inr (.inr (.inr ⟨c, hc, hcond.imp_right (List.mem_cons_of_mem _)⟩))

end Ledger

end KestrelSdk.Stdio

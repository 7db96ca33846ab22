import KestrelSdk.Service.Ledger

/-! The events of a service, from `emit_event` to the wire. -/

namespace KestrelSdk.Service

open Json Protocol Asyncio Server

def Work.isEvent : Work → Bool
  | .event _ => true
  | _ => false

namespace Server

/-- Whether job `i` is an event. -/
def emits (s : Server) (i : Nat) : Bool := (s.works[i]?).any Work.isEvent

/-- The frames of the events. -/
def emitted (s : Server) : List Sent := s.frames.filter fun f => s.emits f.job

end Server

/-- What a step of job `i` does to the queue `q` of the write lock and to the wire. `entry` are the
jobs that may join the queue. -/
def Takes (i : Nat) (entry q : List Nat) (s s' : Server) : Prop :=
  ∃ q', s'.writeLock = .ofQueue q' ∧ q'.Sublist (q ++ entry) ∧
    (s'.frames = s.frames ∨ ∃ f, s'.frames = s.frames ++ [f] ∧ f.job = i ∧ q'.head? = some i)

namespace Takes

variable {i : Nat} {entry q : List Nat} {s s' : Server}

theorem idle (hl : s'.writeLock = .ofQueue q) (hf : s'.frames = s.frames) : Takes i entry q s s' :=
  ⟨q, hl, List.sublist_append_left q entry, .inl hf⟩

theorem mono {q₁ entry₁ : List Nat} (h : Takes i entry q s s')
    (hq : (q ++ entry).Sublist (q₁ ++ entry₁)) : Takes i entry₁ q₁ s s' := by
  obtain ⟨q', hl, hsub, hf⟩ := h
  exact ⟨q', hl, hsub.trans hq, hf⟩

/-- A step that begins elsewhere, with the same frames. -/
theorem congr {s₁ : Server} (h : Takes i entry q s₁ s') (hf : s₁.frames = s.frames) :
    Takes i entry q s s' := by
  obtain ⟨q', hl, hsub, hframes⟩ := h
  rw [hf] at hframes
  exact ⟨q', hl, hsub, hframes⟩

end Takes

namespace Server

variable {rt : Runtime} {s : Server} {i : Nat} {q entry : List Nat} {data : Value}
  {handled : Option JsonRpcRequest} {raised : Server → Exn → Server}

theorem finish_takes (hl : s.writeLock = .ofQueue q) (result : Except Exn Unit) :
    Takes i entry q s (s.finish i result) :=
  .idle hl rfl

theorem releaseWrite_ofQueue (hl : s.writeLock = .ofQueue (i :: q)) :
    s.releaseWrite.writeLock = .ofQueue q := by
  show s.writeLock.release = _
  rw [hl, FifoLock.release_ofQueue]

/-- The section under the write lock leaves its job at the head, or takes it out. -/
theorem write_takes (rt : Runtime) (data : Value) (handled : Option JsonRpcRequest)
    (hl : s.writeLock = .ofQueue (i :: q))
    (hraised : ∀ (s₀ : Server) e, s₀.writeLock = .ofQueue q → Takes i entry q s₀ (raised s₀ e)) :
    (∃ f, (s.write rt i data handled raised).writeLock = .ofQueue (i :: q) ∧
      (s.write rt i data handled raised).frames = s.frames ++ [f] ∧ f.job = i) ∨
      Takes i entry q s (s.write rt i data handled raised) := by
  have hr := releaseWrite_ofQueue hl
  unfold write
  split
  · cases encodeMessage rt.py data with
    | error e => exact .inr ((hraised s.releaseWrite (rt.raises e) hr).congr rfl)
    | ok bytes =>
      dsimp only
      split
      · exact .inr ((hraised s.releaseWrite _ hr).congr rfl)
      · exact .inl ⟨⟨i, data, bytes⟩, hl, rfl, rfl⟩
  · exact .inr ((finish_takes hr _).congr rfl)

theorem send_takes (hl : s.writeLock = .ofQueue q)
    (hraised : ∀ (s₀ : Server) e, s₀.writeLock = .ofQueue [] → Takes i [i] [] s₀ (raised s₀ e)) :
    Takes i [i] q s (s.send rt i data handled raised) := by
  unfold send
  rw [hl]
  cases q with
  | nil =>
    simp only [FifoLock.acquire_idle]
    rcases write_takes rt data handled (s := { s with writeLock := .ofQueue [i] }) rfl hraised with
      ⟨f, hlock, hframes, hjob⟩ | htakes
    · exact ⟨[i], hlock, List.Sublist.refl _, .inr ⟨f, hframes, hjob, rfl⟩⟩
    · exact htakes.congr rfl
  | cons j q =>
    rw [FifoLock.acquire_busy (List.cons_ne_nil j q)]
    exact ⟨j :: q ++ [i], rfl, List.Sublist.refl _, .inl rfl⟩

theorem raise_takes (rt : Runtime) (handled : Option JsonRpcRequest)
    (hl : s.writeLock = .ofQueue q) (e : Exn) :
    Takes i (if handled.isSome then [i] else []) q s (s.raise rt i handled e) := by
  unfold raise
  cases handled with
  | none => exact finish_takes hl _
  | some r =>
    simp only [Option.isSome_some, if_true]
    cases rescue r (s.isCancelling i) e with
    | none => exact finish_takes hl _
    | some response =>
      apply send_takes hl
      intro s₀ e' hl₀
      exact finish_takes hl₀ _

theorem reply_takes (rt : Runtime) (hl : s.writeLock = .ofQueue q) (r : JsonRpcRequest)
    (result : Except Exn Value) :
    Takes i [i] q s (s.reply rt i r result) := by
  cases result with
  | ok v =>
    apply send_takes hl
    intro s₀ e hl₀
    have hraise := raise_takes (i := i) rt (some r) hl₀ e
    exact hraise
  | error e =>
    have hraise := raise_takes (i := i) rt (some r) hl e
    exact hraise

theorem handleRequest_takes (hl : s.writeLock = .ofQueue q) (r : JsonRpcRequest) :
    Takes i [i] q s (s.handleRequest rt i r) := by
  unfold handleRequest
  cases dispatch rt s.registry s.life r with
  | mk life d =>
    cases d with
    | awaits hook => exact .idle hl rfl
    | returns v =>
      have hreply := reply_takes rt (s := { s with life }) (i := i) hl r (.ok v)
      exact hreply.congr rfl
    | raises e =>
      have hreply := reply_takes rt (s := { s with life }) (i := i) hl r (.error e)
      exact hreply.congr rfl

/-- What a resumed job does. -/
theorem resume_takes {a : Action} {p : JobPc} {w : Work} {s' : Server} (hl : s.writeLock = .ofQueue q)
    (hw : p.Handles rt w) (h : s.resume rt i a p = some s') :
    ∃ entry, Takes i entry q s s' ∧ (entry = [i] ∨ entry = []) ∧ (w.isEvent = true → entry = []) := by
  have hrelease : s.releaseWrite.writeLock = .ofQueue q.tail := by
    show s.writeLock.release = _
    rw [hl, FifoLock.release_tail]
  have htail : ∀ entry : List Nat, (q.tail ++ entry).Sublist (q ++ entry) :=
    fun entry => (List.tail_sublist q).append_right entry
  -- a job that raises joins the queue for the error response to its request only
  have hraise : ∀ {handled : Option JsonRpcRequest} {q₀ : List Nat} {s₀ : Server} (e : Exn),
      (∀ r, handled = some r → w = .request r) → s₀.writeLock = .ofQueue q₀ →
      s₀.frames = s.frames → (∀ entry : List Nat, (q₀ ++ entry).Sublist (q ++ entry)) →
      ∃ entry, Takes i entry q s (s₀.raise rt i handled e) ∧ (entry = [i] ∨ entry = []) ∧
        (w.isEvent = true → entry = []) := by
    intro handled q₀ s₀ e hhandled hl₀ hf hq
    refine ⟨_, ((raise_takes rt _ hl₀ e).congr hf).mono (hq _), ?_, fun hevent => ?_⟩
    · cases handled with
      | none => exact .inr rfl
      | some r => exact .inl rfl
    · cases handled with
      | none => rfl
      | some r =>
        rw [hhandled r rfl] at hevent
        cases hevent
  unfold resume at h
  split at h
  · rename_i r
    split at h
    · cases h
      exact ⟨[], finish_takes hl _, .inr rfl, fun _ => rfl⟩
    · cases h
      refine ⟨[i], handleRequest_takes hl r, .inl rfl, fun hevent => ?_⟩
      rw [show w = .request r from hw] at hevent
      cases hevent
  · rename_i outcome r hook
    cases h
    have hreply := reply_takes rt
      (s := { s with life := (complete rt s.registry s.life hook outcome).1 }) (i := i) hl r
      (complete rt s.registry s.life hook outcome).2
    refine ⟨[i], hreply.congr rfl, .inl rfl, fun hevent => ?_⟩
    rw [hw.1] at hevent
    cases hevent
  · rename_i data handled
    split at h
    · rename_i howner
      cases h
      obtain ⟨q₀, rfl⟩ : ∃ q₀, q = i :: q₀ := by
        rw [hl, FifoLock.owner_ofQueue] at howner
        exact List.head?_eq_some_iff.1 howner
      have hwrite := write_takes rt data handled hl
        fun s₀ e hl₀ => raise_takes rt handled hl₀ e
      refine ⟨if handled.isSome then [i] else [], ?_, ?_, fun hevent => ?_⟩
      · rcases hwrite with ⟨f, hlock, hframes, hjob⟩ | htakes
        · exact ⟨i :: q₀, hlock, List.sublist_append_left _ _, .inr ⟨f, hframes, hjob, rfl⟩⟩
        · exact htakes.mono ((List.sublist_cons_self i q₀).append_right _)
      · cases handled with
        | none => exact .inr rfl
        | some r => exact .inl rfl
      · cases handled with
        | none => rfl
        | some r =>
          rw [hw.2 r rfl] at hevent
          cases hevent
    · cases h
  · cases h
    exact ⟨[], ((finish_takes hrelease _).congr rfl).mono (htail []), .inr rfl, fun _ => rfl⟩
  · rename_i e handled
    cases h
    exact hraise e hw hrelease rfl htail
  · rename_i data handled
    split at h
    · cases h
      split
      · have hlock : ({ s with writeLock := s.writeLock.release } : Server).writeLock =
            .ofQueue q.tail := hrelease
        exact hraise .cancelled hw.2 hlock rfl htail
      · obtain ⟨q₀, hq₀, hsub⟩ := FifoLock.cancelWaiter_ofQueue q i
        have hlock : ({ s with writeLock := s.writeLock.cancelWaiter i } : Server).writeLock =
            .ofQueue q₀ := by
          rw [← hq₀, ← hl]
        exact hraise .cancelled hw.2 hlock rfl fun entry => hsub.append_right entry
    · cases h
  · rename_i handled
    split at h
    · cases h
      exact hraise .cancelled hw hrelease rfl htail
    · cases h
  · cases h

end Server

variable {rt : Runtime} {raised : DecodeError → Exn} {version : Str} {s s' : Server} {a : Action}
  {i : Nat} {q : List Nat}

/-- A new job that sends its frame. -/
theorem created_takes (hl : s.writeLock = .ofQueue q) (w : Work) (p : JobPc) (loop : LoopPc)
    (data : Value) :
    Takes s.jobs.length [s.jobs.length] q s
      (({ s.create w p with loop } : Server).send rt s.jobs.length data none
        (escape s.jobs.length)) := by
  have hsend : Takes s.jobs.length [s.jobs.length] q { s.create w p with loop }
      (({ s.create w p with loop } : Server).send rt s.jobs.length data none
        (escape s.jobs.length)) := by
    apply send_takes (s := { s.create w p with loop }) hl
    intro s₀ e hl₀
    exact finish_takes hl₀ _
  exact hsend.congr rfl

/-- A line brings a job that takes its turn, or touches neither the lock nor the wire. -/
theorem readLine_takes (rt : Runtime) (hl : s.writeLock = .ofQueue q) (raised : DecodeError → Exn)
    (b : Bytes) :
    (∃ loop jobs, s.readLine rt raised b = { s with loop, jobs }) ∨
      ∃ w, brings rt s (.line b) = [w] ∧
        Takes s.jobs.length [s.jobs.length] q s (s.readLine rt raised b) := by
  unfold readLine
  by_cases hnil : b = []
  · rw [if_pos hnil]
    exact .inl ⟨_, _, rfl⟩
  · simp only [brings, if_neg hnil]
    cases decodeMessage rt.py b with
    | error e =>
      cases e with
      | protocol text => exact .inr ⟨_, rfl, created_takes hl _ _ _ _⟩
      | _ => exact .inl ⟨_, _, rfl⟩
    | ok m =>
      cases m with
      | request r =>
        simp only [accept]
        split
        · have hhandle : Takes s.jobs.length [s.jobs.length] q
              { s.create (.request r) (.created r) with loop := .awaiting s.jobs.length }
              (({ s.create (.request r) (.created r) with loop := .awaiting s.jobs.length } :
                Server).handleRequest rt s.jobs.length r) :=
            handleRequest_takes
              (s := { s.create (.request r) (.created r) with loop := .awaiting s.jobs.length }) hl r
          exact .inr ⟨_, rfl, hhandle.congr rfl⟩
        · exact .inl ⟨_, _, rfl⟩
      | _ => exact .inl ⟨_, _, rfl⟩

/-- What a step does to the write lock and to the wire: an event joins the queue as it is emitted,
and only then. -/
theorem step_takes (ho : Orderly rt s) (hl : s.writeLock = .ofQueue q)
    (h : step rt raised version s a = some s') :
    ∃ i entry, Takes i entry q s s' ∧ entry.length ≤ 1 ∧
      ∀ j ∈ entry, j < s'.works.length ∧ (s'.emits j = true → j = s.works.length) := by
  have hworks := (step_interleaves h).works
  have hidle : s'.writeLock = s.writeLock → s'.frames = s.frames → ∃ i entry, Takes i entry q s s' ∧
      entry.length ≤ 1 ∧
      ∀ j ∈ entry, j < s'.works.length ∧ (s'.emits j = true → j = s.works.length) := by
    intro hlock hframes
    refine ⟨0, [], .idle (hlock.trans hl) hframes, Nat.zero_le 1, fun j hj => ?_⟩
    cases hj
  -- a job of the service
  have hturn : ∀ {j : Nat}, (s.pc j).bind (s.resume rt j a) = some s' → ∃ i entry,
      Takes i entry q s s' ∧ entry.length ≤ 1 ∧
        ∀ j ∈ entry, j < s'.works.length ∧ (s'.emits j = true → j = s.works.length) := by
    intro j hj
    obtain ⟨p, hp, hresume⟩ := Option.bind_eq_some_iff.1 hj
    obtain ⟨w, hw⟩ := work_of_pc hp
    obtain ⟨entry, htakes, hown, hevent⟩ := resume_takes hl (ho.handles j w p hw hp) hresume
    have hone : entry.length ≤ 1 ∧ ∀ j' ∈ entry, j' = j := by
      rcases hown with rfl | rfl
      · exact ⟨Nat.le_refl 1, fun j' hj' => List.mem_singleton.1 hj'⟩
      · exact ⟨Nat.zero_le 1, fun j' hj' => by cases hj'⟩
    refine ⟨j, entry, htakes, hone.1, fun j' hj' => ?_⟩
    obtain rfl := hone.2 j' hj'
    have hlt := (List.getElem?_eq_some_iff.1 hw).1
    have hw' : s'.works[j']? = some w := by
      rw [hworks, List.getElem?_append_left hlt, hw]
    refine ⟨(List.getElem?_eq_some_iff.1 hw').1, fun hemits => ?_⟩
    unfold Server.emits at hemits
    rw [hw'] at hemits
    rw [hevent hemits] at hj'
    cases hj'
  -- a job that the step brings
  have hnew : ∀ {w : Work}, brings rt s a = [w] → Takes s.jobs.length [s.jobs.length] q s s' →
      ∃ i entry, Takes i entry q s s' ∧ entry.length ≤ 1 ∧
        ∀ j ∈ entry, j < s'.works.length ∧ (s'.emits j = true → j = s.works.length) := by
    intro w hb htakes
    refine ⟨_, _, htakes, Nat.le_refl 1, fun j hj => ?_⟩
    obtain rfl := List.mem_singleton.1 hj
    rw [hworks, hb, List.length_append, List.length_singleton, length_works]
    exact ⟨Nat.lt_succ_self _, fun _ => rfl⟩
  cases a with
  | serve =>
    simp only [step] at h
    split at h
    · cases h
      exact hidle rfl rfl
    · cases h
  | line b =>
    simp only [step] at h
    split at h
    · cases h
      rcases readLine_takes rt hl raised b with ⟨loop, jobs, heq⟩ | ⟨w, hb, htakes⟩
      · exact hidle (by rw [heq]) (by rw [heq])
      · exact hnew hb htakes
    · cases h
  | readFails e =>
    simp only [step] at h
    split at h
    · cases h
      exact hidle rfl rfl
    · cases h
  | close =>
    simp only [step] at h
    split at h
    · cases h
    · split at h
      · cases h
        exact hidle rfl rfl
      · cases h
        exact hidle rfl rfl
      · cases h
  | breaks =>
    cases h
    exact hidle rfl rfl
  | begin i => exact hturn h
  | hook i outcome => exact hturn h
  | locked i => exact hturn h
  | drained i e => exact hturn h
  | interrupted i => exact hturn h
  | cancel i =>
    simp only [step] at h
    split at h
    · cases h
    · cases h
    · cases h
      exact hidle rfl rfl
  | registers registry =>
    cases h
    exact hidle rfl rfl
  | event params =>
    cases h
    by_cases hc : s.connected = true
    · have heq : s.emitEvent rt params = (s.create (.event params)
          (.locking (JsonRpcNotification.toDict ⟨FEATURE_EVENT, params⟩) none)).send rt s.jobs.length
            (JsonRpcNotification.toDict ⟨FEATURE_EVENT, params⟩) none (escape s.jobs.length) := if_pos hc
      refine hnew (if_pos hc) ?_
      rw [heq]
      exact created_takes hl _ _ _ _
    · have heq : s.emitEvent rt params = s := if_neg hc
      exact hidle (by rw [heq]) (by rw [heq])
  | onInitialize i =>
    simp only [step] at h
    split at h
    · rename_i r params hp
      cases h
      rcases onInitialize_cases version s params with ho | ⟨config, -, ho⟩
      · exact hidle (by rw [ho]) (by rw [ho])
      · exact hidle (by rw [ho]) (by rw [ho])
    · cases h
  | callTool name =>
    cases h
    rcases callTool_cases s name with ho | ⟨called, ho⟩
    · exact hidle (by rw [ho]) (by rw [ho])
    · exact hidle (by rw [ho]) (by rw [ho])
  | callHostIngress name =>
    cases h
    rcases callHostIngress_cases s name with ho | ⟨called, ho⟩
    · exact hidle (by rw [ho]) (by rw [ho])
    · exact hidle (by rw [ho]) (by rw [ho])

/-- The events of a service stand at its write lock, and on the wire, in the order of their jobs. -/
structure Sequenced (s : Server) (q : List Nat) : Prop where
  lock : s.writeLock = .ofQueue q
  queue : (q.filter s.emits).Pairwise (· < ·)
  bound : ∀ i ∈ q, i < s.works.length
  wire : s.emitted.Pairwise fun f g => f.job < g.job
  ahead : ∀ f ∈ s.emitted, ∀ i ∈ q, s.emits i = true → f.job ≤ i
  settled : ∀ f ∈ s.emitted, ∀ p, s.pc f.job = some p → p.waits = true → p.holds = true

theorem emits_of_works {new : List Work} (hw : s'.works = s.works ++ new) (hi : i < s.works.length) :
    s'.emits i = s.emits i := by
  unfold Server.emits
  rw [hw, List.getElem?_append_left hi]

/-- A job that writes drains then. -/
theorem Posted.drains {P : Value → Option JsonRpcRequest → Prop} {broken : Bool} {p : JobPc}
    {new : List Sent} {f : Sent} (h : Posted rt broken P i p new) (hf : f ∈ new) :
    f.job = i ∧ p.holds = true := by
  cases h with
  | writes data handled bytes hp hb hw =>
    obtain rfl := List.mem_singleton.1 hf
    exact ⟨rfl, rfl⟩
  | _ => cases hf

/-- An event writes where it waits for the write lock, and waits for it once. -/
theorem Runs.event {reg : Registry} {broken : Bool} {life life' : Lifecycle} {p₀ p : JobPc}
    {new : List Sent} {w : Work} (h : Runs rt reg broken i life p₀ life' p new)
    (hp : p₀.Handles rt w) (hw : w.isEvent = true) :
    p₀.waits = true ∧ (p₀.holds = true → p.waits = false) ∧
      ∀ f ∈ new, f.job = i ∧ p.holds = true ∧ p₀.holds = false := by
  have hrequest : ∀ {r : JsonRpcRequest}, w ≠ .request r := by
    intro r hr
    rw [hr] at hw
    cases hw
  cases h with
  | skips r => exact absurd hp hrequest
  | calls r life' hook h => exact absurd hp hrequest
  | answers r d result p new hd hr h => exact absurd hp hrequest
  | completes r hook outcome p new h => exact absurd hp.1 hrequest
  | sends data handled p new h =>
    refine ⟨rfl, fun hholds => ?_, fun f hf => ?_⟩
    · cases hholds
    · obtain ⟨hjob, hdrains⟩ := h.drains hf
      exact ⟨hjob, hdrains, rfl⟩
  | leaves data handled =>
    refine ⟨rfl, fun _ => rfl, fun f hf => ?_⟩
    cases hf
  | drains handled p new h =>
    have hnone : ∀ data handled', ¬ Rescued handled data handled' := by
      intro data handled' hrescued
      cases handled' with
      | some r => exact hrescued
      | none =>
        obtain ⟨r, hr, -⟩ := hrescued
        exact hrequest (hp r hr)
    cases h with
    | waits data handled' hp => exact absurd hp (hnone data handled')
    | writes data handled' bytes hp hb hw => exact absurd hp (hnone data handled')
    | ends result =>
      refine ⟨rfl, fun _ => rfl, fun f hf => ?_⟩
      cases hf

/-- What a step does to the jobs of events. -/
structure Advances (s s' : Server) (new : List Sent) : Prop where
  moves : ∀ (j : Nat) p', s.emits j = true → s'.pc j = some p' → s.pc j = some p' ∨
    ∃ p₀, s.pc j = some p₀ ∧ p₀.waits = true ∧ (p₀.holds = true → p'.waits = false)
  writes : ∀ f ∈ new, s'.emits f.job = true → (∀ p', s'.pc f.job = some p' → p'.holds = true) ∧
    ∀ p₀, s.pc f.job = some p₀ → p₀.waits = true ∧ p₀.holds = false

theorem Advances.same (hp : ∀ (j : Nat) p', s.emits j = true → s'.pc j = some p' → s.pc j = some p') :
    Advances s s' [] := by
  refine ⟨fun j p' he hj => .inl (hp j p' he hj), fun f hf => ?_⟩
  cases hf

theorem emits_lt (h : s.emits i = true) : ∃ w, s.works[i]? = some w ∧ w.isEvent = true :=
  (Option.any_eq_true _ _).1 h

theorem Interleaves.advances (h : Interleaves rt s a s') (ho : Orderly rt s) :
    ∃ new, s'.frames = s.frames ++ new ∧ Advances s s' new := by
  have hold : ∀ {w : Work} {p₀ : JobPc} {j : Nat}, s.emits j = true → (s.create w p₀).pc j = s.pc j := by
    intro w p₀ j he
    obtain ⟨w', hw', -⟩ := emits_lt he
    have hlt := (List.getElem?_eq_some_iff.1 hw').1
    rw [length_works] at hlt
    exact pc_create_of_lt hlt
  have hnil : s'.frames = s.frames → s'.frames = s.frames ++ [] := by
    intro hf
    rw [hf, List.append_nil]
  cases h with
  | turn i p₀ ha hb hp hs =>
    obtain ⟨life, p, new, hm, hr⟩ := hs
    obtain ⟨w, hw⟩ := work_of_pc hp
    refine ⟨new, hm.frames, fun j p' he hj => ?_, fun f hf he => ?_⟩
    · by_cases hji : j = i
      · rw [hji] at he hj ⊢
        rw [hm.pc_self hp] at hj
        obtain rfl := Option.some.inj hj
        unfold Server.emits at he
        rw [hw] at he
        obtain ⟨hwaits, hleaves, -⟩ := hr.event (ho.handles i w p₀ hw hp) he
        exact .inr ⟨p₀, hp, hwaits, hleaves⟩
      · rw [hm.pc_of_ne hji] at hj
        exact .inl hj
    · have hjob : f.job = i := ((hr.handles (ho.handles i w p₀ hw hp)).2 f hf).1
      rw [hjob] at he ⊢
      unfold Server.emits at he
      rw [hm.works, hw] at he
      obtain ⟨hwaits, -, hwrites⟩ := hr.event (ho.handles i w p₀ hw hp) he
      obtain ⟨-, hholds, hfree⟩ := hwrites f hf
      rw [hm.pc_self hp, hp]
      refine ⟨fun p' hp' => ?_, fun p' hp' => ?_⟩
      · rwa [← Option.some.inj hp']
      · rw [← Option.some.inj hp']
        exact ⟨hwaits, hfree⟩
  | creates w p₀ loop ha hb hw hs =>
    obtain ⟨life, p, new, hm, hr⟩ := hs
    have hpc : ({ s.create w p₀ with loop } : Server).pc s.jobs.length = some p₀ :=
      pc_create_self s w p₀
    have hwork : ({ s.create w p₀ with loop } : Server).works[s.jobs.length]? = some w := by
      show (s.create w p₀).works[s.jobs.length]? = some w
      rw [works_create, ← length_works, List.getElem?_concat_length]
    have hhandles := (ho.fresh hw).handles s.jobs.length w p₀ hwork hpc
    refine ⟨new, hm.frames, fun j p' he hj => ?_, fun f hf he => ?_⟩
    · have hne : j ≠ s.jobs.length := by
        obtain ⟨w', hw', -⟩ := emits_lt he
        have hlt := (List.getElem?_eq_some_iff.1 hw').1
        rw [length_works] at hlt
        omega
      have hsame : s'.pc j = s.pc j := (hm.pc_of_ne hne).trans (hold he)
      rw [hsame] at hj
      exact .inl hj
    · have hjob : f.job = s.jobs.length := ((hr.handles hhandles).2 f hf).1
      rw [hjob] at he ⊢
      unfold Server.emits at he
      rw [hm.works, hwork] at he
      obtain ⟨-, -, hwrites⟩ := hr.event hhandles he
      obtain ⟨-, hholds, -⟩ := hwrites f hf
      rw [hm.pc_self hpc]
      refine ⟨fun p' hp' => ?_, fun p' hp' => ?_⟩
      · rwa [← Option.some.inj hp']
      · exact absurd (lt_of_pc hp') (Nat.lt_irrefl _)
  | queues r ha hb hi he =>
    subst he
    refine ⟨[], hnil rfl, .same fun j p' he hj => ?_⟩
    rwa [hold he] at hj
  | configures i r params config ha hb hp he =>
    subst he
    exact ⟨[], hnil rfl, .same fun _ _ _ hj => hj⟩
  | aside ha hb hw hp hf hlife hl =>
    refine ⟨[], hnil hf, .same fun j p' he hj => ?_⟩
    rwa [hp] at hj

theorem pc_of_works (h : i < s.works.length) : ∃ p, s.pc i = some p := by
  rw [length_works] at h
  unfold Server.pc
  rw [List.getElem?_eq_getElem h]
  exact ⟨_, rfl⟩

theorem Orderly.lt_of_frame (h : Orderly rt s) {f : Sent} (hf : f ∈ s.frames) :
    f.job < s.works.length := by
  obtain ⟨w, hw, -⟩ := h.frames f hf
  exact (List.getElem?_eq_some_iff.1 hw).1

theorem Sequenced.start : Sequenced {} [] := by
  constructor
  · rfl
  · exact List.Pairwise.nil
  · intro i hi
    cases hi
  · exact List.Pairwise.nil
  · intro f hf
    cases hf
  · intro f hf
    cases hf

/-- The frames of the events after a step. -/
theorem emitted_append {new : List Sent} (ho : Orderly rt s) (hs : Interleaves rt s a s')
    (hf : s'.frames = s.frames ++ new) :
    s'.emitted = s.emitted ++ new.filter fun f => s'.emits f.job := by
  unfold Server.emitted
  rw [hf, List.filter_append]
  congr 1
  apply List.filter_congr
  intro f hf
  exact emits_of_works hs.works (ho.lt_of_frame hf)

/-- Every step keeps the order of the events. -/
theorem Sequenced.step (h : Sequenced s q) (ho : Orderly rt s)
    (hs : step rt raised version s a = some s') : ∃ q', Sequenced s' q' := by
  have hi := step_interleaves hs
  obtain ⟨i, entry, ⟨q', hlock, hsub, hframes⟩, hone, hentry⟩ := step_takes ho h.lock hs
  obtain ⟨new, hnew, hmoves, hwrites⟩ := hi.advances ho
  have hold : ∀ {j : Nat}, j < s.works.length → s'.emits j = s.emits j :=
    fun hj => emits_of_works hi.works hj
  have hemitted := emitted_append ho hi hnew
  have hlt : ∀ f ∈ s.emitted, f.job < s.works.length :=
    fun f hf => ho.lt_of_frame (List.mem_filter.1 hf).1
  -- whoever stands in the queue stood there, or is the event of this very step
  have hqueued : ∀ {j : Nat}, j ∈ q' → s'.emits j = true → j ∈ q ∨ j = s.works.length := by
    intro j hj he
    rcases List.mem_append.1 (hsub.subset hj) with hj | hj
    · exact .inl hj
    · exact .inr ((hentry j hj).2 he)
  have hbound : ∀ j ∈ q', j < s'.works.length := by
    intro j hj
    rcases List.mem_append.1 (hsub.subset hj) with hj | hj
    · have hlength := congrArg List.length hi.works
      rw [List.length_append] at hlength
      have := h.bound j hj
      omega
    · exact (hentry j hj).1
  have hpair : entry.Pairwise (· < ·) := by
    cases entry with
    | nil => exact List.Pairwise.nil
    | cons j rest =>
      rw [List.length_cons] at hone
      rw [List.length_eq_zero_iff.1 (by omega : rest.length = 0)]
      exact List.pairwise_singleton _ _
  have hqueue : (q'.filter s'.emits).Pairwise (· < ·) := by
    apply List.Pairwise.sublist (hsub.filter _)
    rw [List.filter_append, List.filter_congr fun j hj => hold (h.bound j hj)]
    refine List.pairwise_append.2 ⟨h.queue, ?_, fun j hj j' hj' => ?_⟩
    · exact hpair.filter _
    · obtain ⟨hmem, he⟩ := List.mem_filter.1 hj'
      rw [(hentry j' hmem).2 he]
      exact h.bound j (List.mem_filter.1 hj).1
  -- the job that writes owns the write lock
  have hfirst : ∀ f ∈ new, q'.head? = some f.job := by
    intro f hf
    rcases hframes with hnone | ⟨g, hg, hjob, hhead⟩
    · rw [hnew] at hnone
      rw [List.append_right_eq_self.1 hnone] at hf
      cases hf
    · rw [hnew] at hg
      rw [List.append_cancel_left hg] at hf
      rw [List.mem_singleton.1 hf, hjob]
      exact hhead
  have hahead : ∀ f ∈ s.emitted, ∀ j ∈ q', s'.emits j = true → f.job ≤ j := by
    intro f hf j hj he
    rcases hqueued hj he with hj | rfl
    · exact h.ahead f hf j hj (hold (h.bound j hj) ▸ he)
    · exact Nat.le_of_lt (hlt f hf)
  have hbehind : ∀ f ∈ s.emitted, ∀ g ∈ new, s'.emits g.job = true → f.job < g.job := by
    intro f hf g hg he
    refine Nat.lt_of_le_of_ne (hahead f hf g.job (List.mem_of_mem_head? (hfirst g hg)) he) ?_
    intro heq
    obtain ⟨p₀, hp₀⟩ := pc_of_works (hlt f hf)
    obtain ⟨hwaits, hfree⟩ := (hwrites g hg he).2 p₀ (heq ▸ hp₀)
    rw [h.settled f hf p₀ hp₀ hwaits] at hfree
    cases hfree
  refine ⟨q', hlock, hqueue, hbound, ?_, ?_, ?_⟩
  · rw [hemitted]
    refine List.pairwise_append.2 ⟨h.wire, ?_, fun f hf g hg => ?_⟩
    · rcases hframes with hnone | ⟨g, hg, -, -⟩
      · rw [hnew] at hnone
        rw [List.append_right_eq_self.1 hnone]
        exact List.Pairwise.nil
      · rw [hnew] at hg
        rw [List.append_cancel_left hg]
        exact (List.pairwise_singleton _ g).filter _
    · obtain ⟨hg, he⟩ := List.mem_filter.1 hg
      exact hbehind f hf g hg he
  · rw [hemitted]
    intro f hf j hj he
    rcases List.mem_append.1 hf with hf | hf
    · exact hahead f hf j hj he
    · obtain ⟨hf, hfe⟩ := List.mem_filter.1 hf
      obtain ⟨rest, rfl⟩ := List.head?_eq_some_iff.1 (hfirst f hf)
      rw [List.filter_cons_of_pos hfe] at hqueue
      rcases List.mem_cons.1 hj with rfl | hj
      · exact Nat.le_refl _
      · exact Nat.le_of_lt (List.rel_of_pairwise_cons hqueue (List.mem_filter.2 ⟨hj, he⟩))
  · rw [hemitted]
    intro f hf p hp hwaits
    rcases List.mem_append.1 hf with hf | hf
    · have he : s.emits f.job = true := (List.mem_filter.1 hf).2
      rcases hmoves f.job p he hp with hsame | ⟨p₀, hp₀, hwaits₀, hleaves⟩
      · exact h.settled f hf p hsame hwaits
      · rw [hleaves (h.settled f hf p₀ hp₀ hwaits₀)] at hwaits
        cases hwaits
    · obtain ⟨hf, he⟩ := List.mem_filter.1 hf
      exact (hwrites f hf he).1 p hp

/-- The events of a service reach the wire in the order of their emission, each at most once,
whatever breaks and whatever is cancelled. -/
theorem emitted_in_order {version : Str} (h : (service rt raised version).Reachable s) :
    s.emitted.Pairwise fun f g => f.job < g.job := by
  have hall : Orderly rt s ∧ ∃ q, Sequenced s q := by
    refine h.invariant (p := fun s => Orderly rt s ∧ ∃ q, Sequenced s q) ?_ fun s a s' hs ha => ?_
    · exact ⟨.start, [], .start⟩
    · obtain ⟨ho, q, hq⟩ := hs
      exact ⟨ho.step (step_interleaves ha), hq.step ho ha⟩
  obtain ⟨-, q, hq⟩ := hall
  exact hq.wire

end KestrelSdk.Service

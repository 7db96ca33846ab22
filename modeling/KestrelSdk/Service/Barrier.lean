import KestrelSdk.Service.Accounts

/-! The requests that `serve` awaits are barriers: what it reads after one waits for its end. -/

namespace KestrelSdk.Service

open Json Protocol Asyncio Server

/-- Job `j` is for a line that was read after the request of job `i`, which `serve` awaits. -/
structure After (ws : List Work) (i j : Nat) : Prop where
  lt : i < j
  inline : ∃ r, ws[i]? = some (.request r) ∧ isInline r.method = true
  read : ∃ w, ws[j]? = some w ∧ ∀ params, w ≠ .event params

/-- What was read after a request that `serve` awaits took no turn and wrote no frame before it had
ended. -/
structure Serial (l : Ledger) : Prop where
  ended : ∀ i j, After l.server.works i j → ∃ result, l.server.pc i = some (.ended result)
  turns : l.turns.Pairwise fun t u => ¬ After l.server.works u.job t.job
  frames : l.server.frames.Pairwise fun f g => ¬ After l.server.works g.job f.job

variable {rt : Runtime} {raised : DecodeError → Exn} {version : Str} {reg : Registry}
  {broken : Bool} {i j : Nat} {life : Lifecycle} {p p₀ : JobPc} {new : List Sent} {w : Work}
  {ws : List Work} {s s' : Server} {a : Action} {l l' : Ledger} {r : JsonRpcRequest}

theorem after_append (hj : j < ws.length) (h : After (ws ++ [w]) i j) : After ws i j := by
  obtain ⟨hlt, ⟨r, hi, hinline⟩, v, hv, hread⟩ := h
  have hi' : i < ws.length := by omega
  rw [List.getElem?_append_left hi'] at hi
  rw [List.getElem?_append_left hj] at hv
  exact ⟨hlt, ⟨r, hi, hinline⟩, v, hv, hread⟩

theorem ended_of (h : p.isEnded = true) : ∃ result, p = .ended result := by
  cases p with
  | ended result => exact ⟨result, rfl⟩
  | _ => cases h

/-- A step of a service in its ledger. -/
inductive Records (rt : Runtime) (l : Ledger) : Ledger → Prop where
  | turn (s' : Server) (i : Nat) (p₀ : JobPc) (life : Lifecycle) (p : JobPc) (new : List Sent)
      (hp : l.server.pc i = some p₀) (hm : Moved l.server s' i life p new)
      (hr : Runs rt l.server.registry l.server.broken i l.server.life p₀ life p new) :
      Records rt l (l.turn s' i new)
  | creates (s' : Server) (w : Work) (p₀ : JobPc) (loop : LoopPc) (life : Lifecycle) (p : JobPc)
      (new : List Sent) (hw : Fresh l.server w p₀ loop)
      (hm : Moved { l.server.create w p₀ with loop } s' l.server.jobs.length life p new)
      (hr : Runs rt l.server.registry l.server.broken l.server.jobs.length l.server.life p₀ life p
        new) :
      Records rt l ((l.enter { l.server.create w p₀ with loop }).turn s' l.server.jobs.length new)
  | queues (r : JsonRpcRequest) (hl : l.server.loop = .reading) :
      Records rt l ((l.enter (l.server.create (.request r) (.created r))).turn
        (l.server.create (.request r) (.created r)) l.server.jobs.length [])
  | configures (i : Nat) (r : JsonRpcRequest) (params config : Dict)
      (hp : l.server.pc i = some (.awaiting r (.onInitialize params))) :
      Records rt l (l.turn { l.server with life := { l.server.life with hostConfig := config } } i [])
  | aside (s' : Server) (hw : s'.works = l.server.works) (hp : s'.pc = l.server.pc)
      (hf : s'.frames = l.server.frames) : Records rt l { l with server := s' }

theorem step_records (hs : l.step rt raised version a = some l') : Records rt l l' := by
  obtain ⟨s', hs', rfl⟩ := Option.map_eq_some_iff.1 hs
  cases step_interleaves hs' with
  | turn i p₀ ha hb hp hsteps =>
    obtain ⟨life, p, new, hm, hr⟩ := hsteps
    have hdrop : s'.frames.drop l.server.frames.length = new := by
      rw [hm.frames, List.drop_left]
    rw [hdrop, ha, hb, List.map_nil, List.append_nil]
    exact .turn s' i p₀ life p new hp hm hr
  | creates w p₀ loop ha hb hw hsteps =>
    obtain ⟨life, p, new, hm, hr⟩ := hsteps
    have hdrop : s'.frames.drop l.server.frames.length = new := by
      rw [hm.frames]
      exact List.drop_left
    rw [hdrop, ha, hb]
    exact .creates s' w p₀ loop life p new hw hm hr
  | queues r ha hb hinline he =>
    have hreading : l.server.loop = .reading := by
      have hmem : .request r ∈ brings rt l.server a := by
        rw [hb]
        exact List.mem_singleton.2 rfl
      obtain ⟨b, rfl, -⟩ := brings_request hmem
      simp only [step] at hs'
      split at hs'
      · assumption
      · cases hs'
    subst he
    have hdrop : (l.server.create (.request r) (.created r)).frames.drop l.server.frames.length =
        [] := List.drop_length
    rw [hdrop, ha, hb]
    exact .queues r hreading
  | configures i r params config ha hb hp he =>
    subst he
    have hdrop : l.server.frames.drop l.server.frames.length = [] := List.drop_length
    show Records rt l ⟨_, _, l.posted ++ (l.server.frames.drop l.server.frames.length).map _, _⟩
    rw [hdrop, ha, hb, List.map_nil (f := fun _ => l.server.life), List.append_nil]
    exact .configures i r params config hp
  | aside ha hb hw hp hf hlife hl =>
    have hdrop : s'.frames.drop l.server.frames.length = [] := by
      rw [hf, List.drop_length]
    rw [hdrop, ha, hb]
    show Records rt l ⟨s', l.found ++ [], l.posted ++ [], l.turns ++ []⟩
    rw [List.append_nil, List.append_nil, List.append_nil]
    exact .aside s' hw hp hf

namespace Serial

/-- A job that takes a step is no barrier that others have passed. -/
theorem not_after (h : Serial l) (hp : l.server.pc i = some p₀) (hended : p₀.isEnded = false) :
    ¬ After l.server.works i j := by
  intro hafter
  obtain ⟨result, hresult⟩ := h.ended i j hafter
  obtain rfl := Option.some.inj (hp.symm.trans hresult)
  cases hended

/-- A turn of job `i`, which had not ended. -/
theorem turn (h : Serial l) (hm : Moved l.server s' i life p new) (hp : l.server.pc i = some p₀)
    (hended : p₀.isEnded = false) (hjob : ∀ f ∈ new, f.job = i) : Serial (l.turn s' i new) := by
  have hworks : s'.works = l.server.works := hm.works
  constructor
  · intro k j hafter
    have hafter : After s'.works k j := hafter
    rw [hworks] at hafter
    have hki : k ≠ i := by
      intro hki
      rw [hki] at hafter
      exact h.not_after hp hended hafter
    show ∃ result, s'.pc k = _
    rw [hm.pc_of_ne hki]
    exact h.ended k j hafter
  · show (l.turns ++ [(⟨i, l.server.life, s'.life⟩ : Turn)]).Pairwise fun t u =>
      ¬ After s'.works u.job t.job
    rw [hworks]
    apply List.pairwise_append.2
    refine ⟨h.turns, List.pairwise_singleton _ _, fun t _ u hu => ?_⟩
    obtain rfl := List.mem_singleton.1 hu
    exact h.not_after hp hended
  · show s'.frames.Pairwise fun f g => ¬ After s'.works g.job f.job
    rw [hworks, hm.frames]
    apply List.pairwise_append.2
    refine ⟨h.frames, ?_, fun f _ g hg => ?_⟩
    · apply List.pairwise_of_forall_mem_list
      intro f hf g hg hafter
      rw [hjob f hf, hjob g hg] at hafter
      exact Nat.lt_irrefl i hafter.lt
    · rw [hjob g hg]
      exact h.not_after hp hended

/-- A new job, for which `serve` awaited no other where it read a line. -/
theorem enter (h : Serial l) (ha : l.Accounted rt) (loop : LoopPc)
    (hl : (∀ params, w ≠ .event params) → l.server.loop = .reading) :
    Serial (l.enter { l.server.create w p with loop }) := by
  have hworks : ({ l.server.create w p with loop } : Server).works = l.server.works ++ [w] :=
    works_create _ _ _
  have hlen := l.server.length_works
  constructor
  · intro k j hafter
    have hafter : After ({ l.server.create w p with loop } : Server).works k j := hafter
    rw [hworks] at hafter
    have hjlt : j < l.server.works.length + 1 := by
      obtain ⟨v, hv, -⟩ := hafter.read
      have hlt := (List.getElem?_eq_some_iff.1 hv).1
      rwa [List.length_append, List.length_singleton] at hlt
    have hklt : k < l.server.jobs.length := by
      have hlt := hafter.lt
      omega
    show ∃ result, (l.server.create w p).pc k = _
    rw [pc_create_of_lt hklt]
    by_cases hj : j < l.server.works.length
    · exact h.ended k j (after_append hj hafter)
    · obtain rfl : j = l.server.works.length := by omega
      obtain ⟨-, ⟨r, hr, hinline⟩, v, hv, hread⟩ := hafter
      rw [List.getElem?_concat_length] at hv
      cases hv
      rw [List.getElem?_append_left (by omega)] at hr
      obtain ⟨q, hq⟩ : ∃ q, l.server.pc k = some q := by
        unfold pc
        rw [List.getElem?_eq_getElem hklt]
        exact ⟨_, rfl⟩
      cases hended : q.isEnded with
      | true =>
        obtain ⟨result, rfl⟩ := ended_of hended
        exact ⟨result, hq⟩
      | false =>
        have hawaiting := ha.orderly.inline k r q hr hinline hq hended
        cases hawaiting.symm.trans (hl hread)
  · show l.turns.Pairwise fun t u =>
      ¬ After ({ l.server.create w p with loop } : Server).works u.job t.job
    rw [hworks]
    apply h.turns.imp_of_mem
    intro t u ht _ hnot hafter
    have hlt := ha.turns t ht
    exact hnot (after_append (by omega) hafter)
  · show l.server.frames.Pairwise fun f g =>
      ¬ After ({ l.server.create w p with loop } : Server).works g.job f.job
    rw [hworks]
    apply h.frames.imp_of_mem
    intro f g hf _ hnot hafter
    obtain ⟨v, hv, -⟩ := ha.orderly.frames f hf
    exact hnot (after_append (List.getElem?_eq_some_iff.1 hv).1 hafter)

/-- A turn that moves no job. -/
theorem stay (h : Serial l) (hp : l.server.pc i = some p₀) (hended : p₀.isEnded = false)
    (hw : s'.works = l.server.works) (hpc : s'.pc = l.server.pc)
    (hf : s'.frames = l.server.frames) : Serial (l.turn s' i []) := by
  constructor
  · show ∀ k j, After s'.works k j → ∃ result, s'.pc k = some (.ended result)
    rw [hw, hpc]
    exact h.ended
  · show (l.turns ++ [(⟨i, l.server.life, s'.life⟩ : Turn)]).Pairwise fun t u =>
      ¬ After s'.works u.job t.job
    rw [hw]
    apply List.pairwise_append.2
    refine ⟨h.turns, List.pairwise_singleton _ _, fun t _ u hu => ?_⟩
    obtain rfl := List.mem_singleton.1 hu
    exact h.not_after hp hended
  · show s'.frames.Pairwise fun f g => ¬ After s'.works g.job f.job
    rw [hw, hf]
    exact h.frames

theorem records (h : Serial l) (ha : l.Accounted rt) (hr : Records rt l l') : Serial l' := by
  cases hr with
  | turn s' i p₀ life p new hp hm hr =>
    obtain ⟨w, hw⟩ := work_of_pc hp
    have hof := (hr.handles (ha.orderly.handles i w p₀ hw hp)).2
    exact h.turn hm hp hr.not_ended fun f hf => (hof f hf).1
  | creates s' w p₀ loop life p new hw hm hr =>
    have hentered : Serial (l.enter { l.server.create w p₀ with loop }) := by
      apply h.enter ha
      intro hread
      cases hw with
      | request r hi hl => exact hl
      | malformed text hl => exact hl
      | event params => exact absurd rfl (hread params)
    have hself : ({ l.server.create w p₀ with loop } : Server).pc l.server.jobs.length = some p₀ :=
      pc_create_self l.server w p₀
    have hworks : ({ l.server.create w p₀ with loop } : Server).works[l.server.jobs.length]? =
        some w := by
      show (l.server.create w p₀).works[l.server.jobs.length]? = some w
      rw [works_create, ← length_works, List.getElem?_concat_length]
    have hof := (hr.handles ((ha.orderly.fresh hw).handles _ w p₀ hworks hself)).2
    exact hentered.turn hm hself hr.not_ended fun f hf => (hof f hf).1
  | queues r hl =>
    have hentered : Serial (l.enter (l.server.create (.request r) (.created r))) :=
      h.enter ha l.server.loop fun _ => hl
    exact hentered.stay (pc_create_self l.server _ _) rfl rfl rfl rfl
  | configures i r params config hp => exact h.stay hp rfl rfl rfl rfl
  | aside s' hw hp hf =>
    constructor
    · show ∀ k j, After s'.works k j → ∃ result, s'.pc k = some (.ended result)
      rw [hw, hp]
      exact h.ended
    · show l.turns.Pairwise fun t u => ¬ After s'.works u.job t.job
      rw [hw]
      exact h.turns
    · show s'.frames.Pairwise fun f g => ¬ After s'.works g.job f.job
      rw [hw, hf]
      exact h.frames

theorem start : Serial {} := by
  constructor
  · intro i j h
    obtain ⟨-, ⟨r, hr, -⟩, -⟩ := h
    cases hr
  · exact .nil
  · exact .nil

end Serial

theorem recorded_serial (h : (recorded rt raised version).Reachable l) : Serial l := by
  have key := h.invariant (p := fun l => l.Accounted rt ∧ Serial l) ⟨.start, .start⟩
    fun l a l' hl hs => ⟨hl.1.step hs, hl.2.records hl.1 (step_records hs)⟩
  exact key.2

/-- A request that `serve` awaits is a barrier: before a line that is read after it becomes a job, the
request has ended, with all its turns and all its frames. -/
theorem inline_barrier (h : (recorded rt raised version).Reachable l) {i j : Nat}
    (hafter : After l.server.works i j) :
    (∃ result, l.server.pc i = some (.ended result)) ∧
      (∀ (m n : Nat) (t u : Turn), l.turns[m]? = some t → l.turns[n]? = some u →
        t.job = i → u.job = j → m < n) ∧
      ∀ (m n : Nat) (f g : Sent), l.server.frames[m]? = some f → l.server.frames[n]? = some g →
        f.job = i → g.job = j → m < n := by
  have hs := recorded_serial h
  have hne : i ≠ j := Nat.ne_of_lt hafter.lt
  refine ⟨hs.ended i j hafter, ?_, ?_⟩
  · intro m n t u ht hu hti huj
    obtain ⟨hm, rfl⟩ := List.getElem?_eq_some_iff.1 ht
    obtain ⟨hn, rfl⟩ := List.getElem?_eq_some_iff.1 hu
    rcases Nat.lt_trichotomy m n with hlt | rfl | hgt
    · exact hlt
    · exact absurd (hti.symm.trans huj) hne
    · have hnot := List.pairwise_iff_getElem.1 hs.turns n m hn hm hgt
      rw [hti, huj] at hnot
      exact absurd hafter hnot
  · intro m n f g hf hg hfi hgj
    obtain ⟨hm, rfl⟩ := List.getElem?_eq_some_iff.1 hf
    obtain ⟨hn, rfl⟩ := List.getElem?_eq_some_iff.1 hg
    rcases Nat.lt_trichotomy m n with hlt | rfl | hgt
    · exact hlt
    · exact absurd (hfi.symm.trans hgj) hne
    · have hnot := List.pairwise_iff_getElem.1 hs.frames n m hn hm hgt
      rw [hfi, hgj] at hnot
      exact absurd hafter hnot

/-- A service that has read a request. -/
def Ledger.take (rt : Runtime) (l : Ledger) (r : JsonRpcRequest) : Ledger :=
  let server := l.server.accept rt r
  { server
    found := l.found ++ [l.server.life]
    posted := l.posted ++
      (server.frames.drop l.server.frames.length).map fun f => (f, server.life)
    turns := l.turns ++ [⟨l.server.jobs.length, l.server.life, server.life⟩] }

theorem step_take {b : Bytes} (hloop : l.server.loop = .reading)
    (hd : decodeMessage rt.py b = .ok (.request r)) :
    (recorded rt raised version).step l (.line b) = some (l.take rt r) := by
  have hbrings : brings rt l.server (.line b) = [.request r] := by
    simp only [brings, ne_nil_of_decodeMessage hd, if_false, hd]
  have hactor : actor rt l.server (.line b) = some l.server.jobs.length := by
    simp only [actor, hbrings]
  have hstep : (service rt raised version).step l.server (.line b) =
      some (l.server.accept rt r) := step_request hloop hd
  simp only [service] at hstep
  simp only [recorded, Ledger.step, hstep, Option.map_some, hbrings, hactor]
  rfl

/-- A service that has answered an `initialize`. -/
def initialized : Option Ledger :=
  (recorded sampleRuntime (fun _ => .cancelled) []).runFrom
    (Ledger.take sampleRuntime { server := { loop := .reading, connected := true } }
      ⟨INITIALIZE, [], .int 1⟩)
    [.hook 0 (.value (.dict [])), .drained 0 none]

theorem initialized_reachable (h : initialized = some l) :
    (recorded sampleRuntime (fun _ => .cancelled) []).Reachable l := by
  obtain ⟨line, hline⟩ : ∃ line, encodeMessage .floatless
    (JsonRpcRequest.toDict ⟨INITIALIZE, [], .int 1⟩) = .ok line := ⟨_, rfl⟩
  have hd : decodeMessage sampleRuntime.py line = .ok (.request ⟨INITIALIZE, [], .int 1⟩) :=
    (decodeMessage_encodeMessage hline).trans rfl
  have hserved : (recorded sampleRuntime (fun _ => .cancelled) []).Reachable
      { server := { loop := .reading, connected := true } } := ⟨[.serve], rfl⟩
  exact (hserved.step (step_take rfl hd)).run h

/-- Tools that are listed after an `initialize`. -/
theorem inline_barrier_initialize : ∃ l,
    (recorded sampleRuntime (fun _ => .cancelled) []).Reachable l ∧
      l.server.works = [.request ⟨INITIALIZE, [], .int 1⟩, .request ⟨TOOLS_LIST, [], .int 1⟩] ∧
      l.server.frames.map Sent.job = [0] ∧ ∃ result, l.server.pc 0 = some (.ended result) := by
  obtain ⟨l, hl⟩ : ∃ l, initialized = some l := ⟨_, rfl⟩
  have hloop : (initialized.map fun l => l.server.loop) = some .reading := rfl
  have hworks : (initialized.map fun l =>
      (l.take sampleRuntime ⟨TOOLS_LIST, [], .int 1⟩).server.works) =
      some [.request ⟨INITIALIZE, [], .int 1⟩, .request ⟨TOOLS_LIST, [], .int 1⟩] := rfl
  have hframes : (initialized.map fun l =>
      (l.take sampleRuntime ⟨TOOLS_LIST, [], .int 1⟩).server.frames.map Sent.job) = some [0] := rfl
  simp only [hl, Option.map_some, Option.some.injEq] at hloop hworks hframes
  obtain ⟨line, hd⟩ := sampleRequest
  have hreach := (initialized_reachable hl).step (step_take hloop hd)
  refine ⟨_, hreach, hworks, hframes, ?_⟩
  have hafter : After (l.take sampleRuntime ⟨TOOLS_LIST, [], .int 1⟩).server.works 0 1 := by
    rw [hworks]
    refine ⟨Nat.zero_lt_one, ⟨_, rfl, by decide⟩, _, rfl, fun params hparams => ?_⟩
    cases hparams
  exact (inline_barrier hreach hafter).1

end KestrelSdk.Service

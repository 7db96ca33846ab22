import KestrelSdk.Service.Ledger

/-! What the hooks of a service come to, and the results that it sends. -/

namespace KestrelSdk.Service

open Json Protocol Asyncio Server

/-- What an action tells of the hook of job `i`. -/
def Action.told (i : Nat) : Action → List Outcome
  | .hook j outcome => if j = i then [outcome] else []
  | _ => []

/-- The response with the result of a request. -/
def resultReply (r : JsonRpcRequest) (u : Value) : Value := JsonRpcResponse.toDict ⟨r.id, .result u⟩

/-- How a job earns the result `u` of its request, where its hook came to `outcomes`: once, or not at
all where a fenced service tells its health. -/
inductive Earned (rt : Runtime) (outcomes : List Outcome) (r : JsonRpcRequest) (u : Value) :
    Prop where
  | hook (reg reg' : Registry) (life life' now : Lifecycle) (hook : Hook) (outcome : Outcome)
      (ha : Awaits rt reg life r life' hook) (ho : outcomes = [outcome])
      (hc : (complete rt reg' now hook outcome).2 = .ok u) : Earned rt outcomes r u
  | fenced (hm : r.method = HEALTH) (ho : outcomes = []) (hu : u = restartStatus) :
      Earned rt outcomes r u

/-- Before the outcome of the hook. -/
def JobPc.early : JobPc → Bool
  | .created _ => true
  | .awaiting _ _ => true
  | _ => false

/-- Every result that a service sends is earned; `o` is what the hook of each job came to. -/
structure Earning (rt : Runtime) (o : Nat → List Outcome) (s : Server) : Prop where
  once : ∀ i, (o i).length ≤ 1
  absent : ∀ i, s.pc i = none → o i = []
  early : ∀ i p, s.pc i = some p → p.early = true → o i = []
  written : ∀ f ∈ s.frames, ∃ p, s.pc f.job = some p ∧ p.early = false
  frames : ∀ f ∈ s.frames, ∀ r u, s.works[f.job]? = some (.request r) → f.data = resultReply r u →
    Earned rt (o f.job) r u
  locking : ∀ (i : Nat) r u handled, s.works[i]? = some (.request r) →
    s.pc i = some (.locking (resultReply r u) handled) → Earned rt (o i) r u

variable {rt : Runtime} {raised : DecodeError → Exn} {version : Str} {reg : Registry}
  {broken : Bool} {i : Nat} {life life' : Lifecycle} {p p₀ : JobPc} {new : List Sent} {w : Work}
  {s s' : Server} {a : Action} {r r' : JsonRpcRequest} {data u v : Value}
  {handled handled' : Option JsonRpcRequest} {o o' : Nat → List Outcome} {os : List Outcome}

theorem resultReply_injective (h : resultReply r u = resultReply r v) : u = v := by
  unfold resultReply JsonRpcResponse.toDict at h
  simp only [Value.dict.injEq, List.cons.injEq, Prod.mk.injEq, and_true, true_and] at h
  exact h

theorem Refusal.ne_result (h : Refusal r' data) : data ≠ resultReply r u := by
  have hne : str "error" ≠ str "result" := by decide
  intro heq
  obtain ⟨code, message, rfl, -⟩ := h
  unfold resultReply JsonRpcResponse.toDict at heq
  simp only [Value.dict.injEq, List.cons.injEq, Prod.mk.injEq, Key.str.injEq] at heq
  exact hne heq.2.2.1.1

theorem Rescued.ne_result (h : Rescued handled data handled') : data ≠ resultReply r u := by
  cases handled' with
  | some r' => exact absurd h id
  | none =>
    obtain ⟨r', -, hrefusal⟩ := h
    exact hrefusal.ne_result

/-- What a job sends where its request came to `result`. -/
theorem Replied.earns {result : Except Exn Value} (h : Replied rt broken r result data handled)
    (hok : ∀ v, result = .ok v → Earned rt os r v) (hd : data = resultReply r u) :
    Earned rt os r u := by
  cases result with
  | error e => exact absurd hd (Rescued.ne_result h)
  | ok v =>
    rcases h with ⟨rfl, -⟩ | ⟨-, hrescued⟩
    · obtain rfl := resultReply_injective hd
      exact hok v rfl
    · exact absurd hd hrescued.ne_result

/-- Only the health of a fenced service has a result without a hook. -/
theorem dispatch_returns (h : dispatch rt reg life r = (life', .returns v)) :
    r.method = HEALTH ∧ v = restartStatus := by
  unfold dispatch at h
  split at h
  · cases h
  · split at h
    · split at h
      · cases h
      · split at h
        · cases h
        · cases h
    · split at h
      · rename_i hm
        split at h
        · cases h
          exact ⟨hm, rfl⟩
        · cases h
      · split at h
        · split at h
          · cases h
          · cases h
        · split at h
          · split at h
            · cases h
            · split at h
              · cases h
              · cases h
          · split at h
            · split at h
              · cases h
              · split at h
                · cases h
                · cases h
            · split at h
              · cases h
              · cases h

theorem Posted.earns {P : Value → Option JsonRpcRequest → Prop} (h : Posted rt broken P i p new)
    (hP : ∀ data handled, P data handled → data = resultReply r u → Earned rt os r u) :
    (∀ handled, p = .locking (resultReply r u) handled → Earned rt os r u) ∧
      ∀ f ∈ new, f.data = resultReply r u → Earned rt os r u := by
  cases h with
  | waits data handled hp =>
    constructor
    · intro handled' heq
      injection heq with hd
      exact hP data handled hp hd
    · intro f hf
      cases hf
  | writes data handled bytes hp hb hw =>
    constructor
    · intro handled' heq
      cases heq
    · intro f hf hd
      obtain rfl := List.mem_singleton.1 hf
      exact hP data handled hp hd
  | ends result =>
    constructor
    · intro handled' heq
      cases heq
    · intro f hf
      cases hf

theorem Posted.late {P : Value → Option JsonRpcRequest → Prop} (h : Posted rt broken P i p new) :
    p.early = false ∧ ∀ f ∈ new, f.job = i := by
  cases h with
  | waits data handled hp =>
    refine ⟨rfl, fun f hf => ?_⟩
    cases hf
  | writes data handled bytes hp hb hw =>
    refine ⟨rfl, fun f hf => ?_⟩
    obtain rfl := List.mem_singleton.1 hf
    rfl
  | ends result =>
    refine ⟨rfl, fun f hf => ?_⟩
    cases hf

/-- A hook comes to an outcome only where a job awaits it. -/
theorem resume_awaits {hook : Hook} (h : s.resume rt i a (.awaiting r hook) = some s') :
    ∃ j outcome, a = .hook j outcome ∧ s' = s.completeRequest rt i r hook outcome := by
  unfold resume at h
  split at h
  · rename_i heq
    cases heq
  · rename_i j outcome r' hook' heq
    cases heq
    cases h
    exact ⟨j, outcome, rfl, rfl⟩
  · rename_i heq
    cases heq
  · rename_i heq
    cases heq
  · rename_i heq
    cases heq
  · rename_i heq
    cases heq
  · rename_i heq
    cases heq
  · cases h

theorem resume_hook {j : Nat} {outcome : Outcome} (h : s.resume rt i (.hook j outcome) p₀ = some s') :
    ∃ r hook, p₀ = .awaiting r hook := by
  cases p₀ with
  | awaiting r hook => exact ⟨r, hook, rfl⟩
  | _ => cases h

/-- The job of a step that brings none. -/
theorem actor_own (hb : brings rt s a = []) (ha : actor rt s a = some i) :
    a.own = some i ∨ a = .onInitialize i := by
  cases a with
  | onInitialize j =>
    cases ha
    exact .inr rfl
  | _ =>
    simp only [actor, hb] at ha
    exact .inl ha

theorem step_own (h : step rt raised version s a = some s') (ha : a.own = some i) :
    (s.pc i).bind (s.resume rt i a) = some s' := by
  cases a with
  | begin j =>
    cases ha
    exact h
  | hook j outcome =>
    cases ha
    exact h
  | locked j =>
    cases ha
    exact h
  | drained j e =>
    cases ha
    exact h
  | interrupted j =>
    cases ha
    exact h
  | _ => cases ha

theorem step_onInitialize (h : step rt raised version s (.onInitialize i) = some s') :
    ∃ config, s' = { s with life := { s.life with hostConfig := config } } := by
  simp only [step] at h
  split at h
  · rename_i params hp
    cases h
    rcases onInitialize_cases version s params with ho | ⟨config, -, ho⟩
    · exact ⟨s.life.hostConfig, ho⟩
    · exact ⟨config, ho⟩
  · cases h

namespace Earning

/-- A step of job `i`. -/
theorem moved (h : Earning rt o s) (hm : Moved s s' i life p new) (hp : s.pc i = some p₀)
    (hothers : ∀ j, j ≠ i → o' j = o j) (honce : (o' i).length ≤ 1)
    (hearly : p.early = true → o' i = [])
    (hkept : p₀.early = true ∨ o' i = o i ∧ p.early = false)
    (hnew : ∀ f ∈ new, f.job = i ∧ p.early = false)
    (hearns : ∀ r u, s.works[i]? = some (.request r) →
      (∀ handled, p = .locking (resultReply r u) handled → Earned rt (o' i) r u) ∧
        ∀ f ∈ new, f.data = resultReply r u → Earned rt (o' i) r u) :
    Earning rt o' s' := by
  have hself := hm.pc_self hp
  -- the frames that job `i` wrote before
  have hold : ∀ f ∈ s.frames, f.job = i → o' i = o i ∧ p.early = false := by
    intro f hf hfi
    rcases hkept with hearly₀ | hkept
    · obtain ⟨q, hq, hlate⟩ := h.written f hf
      rw [hfi, hp] at hq
      cases hq
      rw [hlate] at hearly₀
      cases hearly₀
    · exact hkept
  constructor
  · intro j
    by_cases hj : j = i
    · rw [hj]
      exact honce
    · rw [hothers j hj]
      exact h.once j
  · intro j hj
    by_cases hji : j = i
    · rw [hji, hself] at hj
      cases hj
    · rw [hothers j hji]
      apply h.absent
      rw [← hm.pc_of_ne hji]
      exact hj
  · intro j q hq hearly'
    by_cases hji : j = i
    · rw [hji] at hq ⊢
      rw [hself] at hq
      cases hq
      exact hearly hearly'
    · rw [hm.pc_of_ne hji] at hq
      rw [hothers j hji]
      exact h.early j q hq hearly'
  · intro f hf
    rw [hm.frames] at hf
    by_cases hfi : f.job = i
    · refine ⟨p, hfi ▸ hself, ?_⟩
      rcases List.mem_append.1 hf with hf | hf
      · exact (hold f hf hfi).2
      · exact (hnew f hf).2
    · rw [hm.pc_of_ne hfi]
      rcases List.mem_append.1 hf with hf | hf
      · exact h.written f hf
      · exact absurd (hnew f hf).1 hfi
  · intro f hf r u hw hd
    rw [hm.frames] at hf
    rw [hm.works] at hw
    by_cases hfi : f.job = i
    · rw [hfi] at hw ⊢
      rcases List.mem_append.1 hf with hf | hf
      · have hearned := h.frames f hf r u (hfi ▸ hw) hd
        rw [hfi] at hearned
        rw [(hold f hf hfi).1]
        exact hearned
      · exact (hearns r u hw).2 f hf hd
    · rw [hothers f.job hfi]
      rcases List.mem_append.1 hf with hf | hf
      · exact h.frames f hf r u hw hd
      · exact absurd (hnew f hf).1 hfi
  · intro j r u handled hw hq
    rw [hm.works] at hw
    by_cases hji : j = i
    · rw [hji] at hw hq ⊢
      rw [hself] at hq
      injection hq with hq
      exact (hearns r u hw).1 handled hq
    · rw [hm.pc_of_ne hji] at hq
      rw [hothers j hji]
      exact h.locking j r u handled hw hq

/-- A new job. -/
theorem create (h : Earning rt o s) (loop : LoopPc) (hp : ∀ r, w = .request r → p.early = true) :
    Earning rt o { s.create w p with loop } := by
  have hself : ({ s.create w p with loop } : Server).pc s.jobs.length = some p :=
    pc_create_self s w p
  have hold : ∀ {j : Nat}, j < s.jobs.length → ({ s.create w p with loop } : Server).pc j = s.pc j :=
    fun hj => pc_create_of_lt hj
  have hnone : o s.jobs.length = [] := by
    apply h.absent
    unfold pc
    rw [List.getElem?_eq_none (Nat.le_refl _)]
    rfl
  have hlt : ∀ {j : Nat} {q : JobPc}, ({ s.create w p with loop } : Server).pc j = some q →
      j < s.jobs.length ∨ j = s.jobs.length := by
    intro j q hq
    have hlt := lt_of_pc hq
    have hlen : (s.create w p).jobs.length = s.jobs.length + 1 := List.length_append
    have hlt : j < (s.create w p).jobs.length := hlt
    omega
  constructor
  · exact h.once
  · intro j hj
    apply h.absent
    by_cases hjl : j < s.jobs.length
    · rw [← hold hjl]
      exact hj
    · unfold pc
      rw [List.getElem?_eq_none (Nat.le_of_not_lt hjl)]
      rfl
  · intro j q hq hearly
    rcases hlt hq with hjl | rfl
    · rw [hold hjl] at hq
      exact h.early j q hq hearly
    · exact hnone
  · intro f hf
    obtain ⟨q, hq, hlate⟩ := h.written f hf
    exact ⟨q, (hold (lt_of_pc hq)).trans hq, hlate⟩
  · intro f hf r u hw hd
    obtain ⟨q, hq, -⟩ := h.written f hf
    apply h.frames f hf r u ?_ hd
    have hw : (s.create w p).works[f.job]? = some (.request r) := hw
    rw [works_create, List.getElem?_append_left] at hw
    · exact hw
    · rw [length_works]
      exact lt_of_pc hq
  · intro j r u handled hw hq
    have hw : (s.create w p).works[j]? = some (.request r) := hw
    rw [works_create] at hw
    rcases hlt hq with hjl | rfl
    · rw [List.getElem?_append_left (by rw [length_works]; exact hjl)] at hw
      rw [hold hjl] at hq
      exact h.locking j r u handled hw hq
    · rw [← length_works, List.getElem?_concat_length] at hw
      have hearly := hp r (Option.some.inj hw)
      rw [hself] at hq
      cases hq
      cases hearly

/-- The hook of a job comes to its outcome. -/
theorem completes (h : Earning rt o s) {hook : Hook} {outcome : Outcome}
    (hw : s.works[i]? = some (.request r)) (hp : s.pc i = some (.awaiting r hook))
    (ha : Awaits rt reg life r life' hook) (hothers : ∀ j, j ≠ i → o' j = o j)
    (ho : o' i = o i ++ [outcome]) :
    Earning rt o' (s.completeRequest rt i r hook outcome) := by
  have hself : o' i = [outcome] := by
    rw [ho, h.early i _ hp rfl]
    rfl
  obtain ⟨q, new, hm, hposted⟩ := reply_posts rt
    { s with life := (complete rt s.registry s.life hook outcome).1 } i r
    (complete rt s.registry s.life hook outcome).2
  have hm' : Moved s (s.completeRequest rt i r hook outcome) i
      (complete rt s.registry s.life hook outcome).1 q new :=
    ⟨hm.jobs, hm.frames, hm.life, hm.broken, hm.loop⟩
  obtain ⟨hlate, hjob⟩ := hposted.late
  apply h.moved hm' hp hothers
  · rw [hself]
    exact Nat.le_refl 1
  · intro hearly
    rw [hlate] at hearly
    cases hearly
  · exact .inl rfl
  · exact fun f hf => ⟨hjob f hf, hlate⟩
  · intro r' u hw'
    obtain rfl : r = r' := by
      cases hw.symm.trans hw'
      rfl
    rw [hself]
    apply hposted.earns
    intro data handled hreplied hd
    refine hreplied.earns (fun v hv => ?_) hd
    exact .hook reg s.registry life life' s.life hook outcome ha rfl hv

/-- A step of job `i` at which no hook comes to an outcome. -/
theorem runs (h : Earning rt o s) (hm : Moved s s' i life p new) (hp : s.pc i = some p₀)
    (hw : s.works[i]? = some w) (hh : p₀.Handles rt w) (hne : ∀ r hook, p₀ ≠ .awaiting r hook)
    (hr : Runs rt s.registry s.broken i s.life p₀ life p new) : Earning rt o s' := by
  have hposts : ∀ {P : Value → Option JsonRpcRequest → Prop}, Posted rt s.broken P i p new →
      (∀ r u data handled, w = .request r → P data handled → data = resultReply r u →
        Earned rt (o i) r u) → Earning rt o s' := by
    intro P hposted hP
    obtain ⟨hlate, hjob⟩ := hposted.late
    apply h.moved hm hp (fun _ _ => rfl) (h.once i)
    · intro hearly
      rw [hlate] at hearly
      cases hearly
    · exact .inr ⟨rfl, hlate⟩
    · exact fun f hf => ⟨hjob f hf, hlate⟩
    · intro r u hw'
      have hwork := Option.some.inj (hw.symm.trans hw')
      exact hposted.earns fun data handled hp hd => hP r u data handled hwork hp hd
  have hnone : ∀ f ∈ ([] : List Sent), f.job = i ∧ p.early = false := by
    intro f hf
    cases hf
  cases hr with
  | skips r =>
    apply h.moved hm hp (fun _ _ => rfl) (h.once i)
    · intro hearly
      cases hearly
    · exact .inr ⟨rfl, rfl⟩
    · exact hnone
    · intro r u hw'
      refine ⟨fun handled heq => ?_, fun f hf => ?_⟩
      · cases heq
      · cases hf
  | calls r life' hook ha =>
    apply h.moved hm hp (fun _ _ => rfl) (h.once i)
    · exact fun _ => h.early i _ hp rfl
    · exact .inl rfl
    · exact hnone
    · intro r u hw'
      refine ⟨fun handled heq => ?_, fun f hf => ?_⟩
      · cases heq
      · cases hf
  | answers r d result p new hd hresult hposted =>
    apply hposts hposted
    intro r' u data handled hwork hreplied hdata
    have hhandles : w = .request r := hh
    obtain rfl : r = r' := by
      cases hhandles.symm.trans hwork
      rfl
    refine hreplied.earns (fun v hv => ?_) hdata
    cases d with
    | returns v' =>
      cases hresult
      cases hv
      obtain ⟨hm', hv'⟩ := dispatch_returns hd
      exact .fenced hm' (h.early i _ hp rfl) hv'
    | raises e =>
      cases hresult
      cases hv
    | awaits hook => cases hresult
  | completes r hook outcome p new hposted => exact absurd rfl (hne r hook)
  | sends data handled p new hposted =>
    apply hposts hposted
    intro r u data' handled' hwork hoffered hdata
    rcases hoffered with ⟨rfl, -⟩ | ⟨-, hrescued⟩
    · subst hdata
      exact h.locking i r u handled (hwork ▸ hw) hp
    · exact absurd hdata hrescued.ne_result
  | leaves data handled =>
    apply h.moved hm hp (fun _ _ => rfl) (h.once i)
    · intro hearly
      cases hearly
    · exact .inr ⟨rfl, rfl⟩
    · exact hnone
    · intro r u hw'
      refine ⟨fun handled heq => ?_, fun f hf => ?_⟩
      · cases heq
      · cases hf
  | drains handled p new hposted =>
    apply hposts hposted
    intro r u data' handled' hwork hrescued hdata
    exact absurd hdata hrescued.ne_result

/-- A step of the job that an action resumes. -/
theorem resume (h : Earning rt o s) (ho : Orderly rt s) (ha : a.own = some i)
    (hs : (s.pc i).bind (s.resume rt i a) = some s') :
    Earning rt (fun j => o j ++ a.told j) s' := by
  obtain ⟨p₀, hp, hresume⟩ := Option.bind_eq_some_iff.1 hs
  obtain ⟨w, hw⟩ := work_of_pc hp
  have hh := ho.handles i w p₀ hw hp
  by_cases hawaits : ∃ r hook, p₀ = .awaiting r hook
  · obtain ⟨r, hook, rfl⟩ := hawaits
    obtain ⟨j, outcome, rfl, rfl⟩ := resume_awaits hresume
    obtain ⟨rfl, reg, life, life', hreached⟩ := hh
    cases ha
    apply h.completes hw hp hreached
    · intro k hk
      show o k ++ (if i = k then [outcome] else []) = o k
      rw [if_neg (Ne.symm hk), List.append_nil]
    · show o i ++ (if i = i then [outcome] else []) = _
      rw [if_pos rfl]
  · have hquiet : (fun j => o j ++ a.told j) = o := by
      funext j
      cases a with
      | hook k outcome => exact absurd (resume_hook hresume) hawaits
      | _ => exact List.append_nil _
    rw [hquiet]
    obtain ⟨life, p, new, hm, hr⟩ := resume_steps hresume
    exact h.runs hm hp hw hh (fun r hook heq => hawaits ⟨r, hook, heq⟩) hr

/-- A step that leaves the jobs and the frames alone. -/
theorem aside (h : Earning rt o s) (hw : s'.works = s.works) (hp : s'.pc = s.pc)
    (hf : s'.frames = s.frames) : Earning rt o s' := by
  constructor
  · exact h.once
  · rw [hp]
    exact h.absent
  · rw [hp]
    exact h.early
  · rw [hp, hf]
    exact h.written
  · rw [hw, hf]
    exact h.frames
  · rw [hw, hp]
    exact h.locking

/-- A step of a service that takes no outcome of a hook. -/
theorem interleaves (h : Earning rt o s) (hi : Interleaves rt s a s') (ha : a.own = none)
    (hn : ∀ i, a ≠ .onInitialize i) : Earning rt o s' := by
  cases hi with
  | turn i p₀ hactor hb hp hs =>
    rcases actor_own hb hactor with hown | hinit
    · rw [ha] at hown
      cases hown
    · exact absurd hinit (hn i)
  | creates w p₀ loop hactor hb hw hs =>
    obtain ⟨life, p, new, hm, hr⟩ := hs
    have hcreated : Earning rt o { s.create w p₀ with loop } := by
      apply h.create
      intro r hrequest
      cases hw with
      | request r hi hl => rfl
      | malformed text hl => cases hrequest
      | event params => cases hrequest
    have hwork : ({ s.create w p₀ with loop } : Server).works[s.jobs.length]? = some w := by
      show (s.create w p₀).works[s.jobs.length]? = some w
      rw [works_create, ← length_works, List.getElem?_concat_length]
    have hne : ∀ r hook, p₀ ≠ .awaiting r hook := by
      intro r hook heq
      subst heq
      cases hw
    have hhandles : p₀.Handles rt w := by
      cases hw with
      | request r hi hl => rfl
      | malformed text hl =>
        refine ⟨rfl, fun r hnone => ?_⟩
        cases hnone
      | event params =>
        refine ⟨rfl, fun r hnone => ?_⟩
        cases hnone
    exact hcreated.runs hm (pc_create_self s w p₀) hwork hhandles hne hr
  | queues r hactor hb hinline he =>
    subst he
    exact h.create s.loop fun _ _ => rfl
  | configures i r params config hactor hb hp he =>
    subst he
    exact h.aside rfl rfl rfl
  | aside hactor hb hw hp hf hlife hl => exact h.aside hw hp hf

theorem step (h : Earning rt o s) (ho : Orderly rt s)
    (hs : Service.step rt raised version s a = some s') :
    Earning rt (fun j => o j ++ a.told j) s' := by
  cases hown : a.own with
  | some i => exact h.resume ho hown (step_own hs hown)
  | none =>
    have hquiet : (fun j => o j ++ a.told j) = o := by
      funext j
      cases a with
      | hook k outcome => cases hown
      | _ => exact List.append_nil _
    rw [hquiet]
    by_cases hinit : ∃ i, a = .onInitialize i
    · obtain ⟨i, rfl⟩ := hinit
      obtain ⟨config, rfl⟩ := step_onInitialize hs
      exact h.aside rfl rfl rfl
    · exact h.interleaves (step_interleaves hs) hown fun i hi => hinit ⟨i, hi⟩

theorem start : Earning rt (fun _ => []) {} := by
  constructor
  · intro i
    exact Nat.zero_le 1
  · intro i _
    rfl
  · intro i p hp
    cases hp
  · intro f hf
    cases hf
  · intro f hf
    cases hf
  · intro i r u handled hw
    cases hw

end Earning

end KestrelSdk.Service

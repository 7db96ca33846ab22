import KestrelSdk.Service.Transitions

/-! The config transitions of a service in every run. -/

namespace KestrelSdk.Service

open Json Protocol Asyncio Server

variable {rt : Runtime} {raised : DecodeError → Exn} {version : Str} {reg : Registry}
  {broken : Bool} {i j : Nat} {life : Lifecycle} {p p₀ : JobPc} {new : List Sent} {w : Work}
  {s s' : Server} {a : Action} {l l' : Ledger} {r : JsonRpcRequest}

/-- The requests that a step brings are decoded from its line. -/
theorem brings_request (h : .request r ∈ brings rt s a) :
    ∃ b, a = .line b ∧ decodeMessage rt.py b = .ok (.request r) := by
  cases a with
  | line b =>
    simp only [brings] at h
    split at h
    · cases h
    · split at h
      · rename_i hd
        cases List.mem_singleton.1 h
        exact ⟨b, rfl, hd⟩
      · cases List.mem_singleton.1 h
      · cases h
  | event params =>
    simp only [brings] at h
    split at h
    · cases List.mem_singleton.1 h
    · cases h
  | _ => cases h

theorem transition_inline (hm : r.method = CONFIG_TRANSITION) : isInline r.method = true :=
  decide_eq_true (.inr (.inl hm))

namespace Ledger

/-- A turn of job `i` that writes `new`. -/
def turn (l : Ledger) (s : Server) (i : Nat) (new : List Sent) : Ledger where
  server := s
  found := l.found
  posted := l.posted ++ stamp s.life new
  turns := l.turns ++ [⟨i, l.server.life, s.life⟩]

/-- A new job. -/
def enter (l : Ledger) (s : Server) : Ledger :=
  { l with server := s, found := l.found ++ [l.server.life] }

theorem postedBy_turn_self (l : Ledger) (s : Server) (h : ∀ f ∈ new, f.job = i) :
    (l.turn s i new).postedBy i = l.postedBy i ++ stamp s.life new := by
  have hall : (stamp s.life new).filter (fun x => x.1.job = i) = stamp s.life new := by
    apply List.filter_eq_self.2
    intro x hx
    obtain ⟨f, hf, rfl⟩ := List.mem_map.1 hx
    exact decide_eq_true (h f hf)
  unfold postedBy turn
  rw [List.filter_append, hall]

theorem postedBy_turn_of_ne (l : Ledger) (s : Server) (h : ∀ f ∈ new, f.job = i) (hj : j ≠ i) :
    (l.turn s i new).postedBy j = l.postedBy j := by
  have hnone : (stamp s.life new).filter (fun x => x.1.job = j) = [] := by
    apply List.filter_eq_nil_iff.2
    intro x hx
    obtain ⟨f, hf, rfl⟩ := List.mem_map.1 hx
    have hne : ¬ f.job = j := fun heq => hj (heq.symm.trans (h f hf))
    rwa [decide_eq_true_eq]
  unfold postedBy turn
  rw [List.filter_append, hnone, List.append_nil]

theorem turnsOf_turn_self (l : Ledger) (s : Server) (i : Nat) (new : List Sent) :
    (l.turn s i new).turnsOf i = l.turnsOf i ++ [⟨i, l.server.life, s.life⟩] := by
  unfold turnsOf turn
  rw [List.filter_append, List.filter_singleton]
  simp

theorem turnsOf_turn_of_ne (l : Ledger) (s : Server) (new : List Sent) (hj : j ≠ i) :
    (l.turn s i new).turnsOf j = l.turnsOf j := by
  unfold turnsOf turn
  rw [List.filter_append, List.filter_singleton]
  simp [Ne.symm hj]

/-- What holds of a ledger in every run. -/
structure Accounted (rt : Runtime) (l : Ledger) : Prop where
  orderly : Orderly rt l.server
  identifies : ∀ r, .request r ∈ l.server.works → Identifies r.id
  found : l.found.length = l.server.jobs.length
  posted : l.posted.map Prod.fst = l.server.frames
  turns : ∀ t ∈ l.turns, t.job < l.server.jobs.length
  accounts : ∀ (i : Nat) r old p, l.server.works[i]? = some (.request r) →
    r.method = CONFIG_TRANSITION → l.found[i]? = some old → l.server.pc i = some p →
    Account rt l.server.broken l.server.life r old p (l.postedBy i) (l.turnsOf i)

/-- An `initialize` has taken a turn of a fenced service. -/
def Reinitialized (l : Ledger) : Prop :=
  ∃ turn ∈ l.turns, turn.before.restartRequired = true ∧
    ∃ r, l.server.works[turn.job]? = some (.request r) ∧ r.method = INITIALIZE

/-- A service that is fenced, since `now` stood. -/
structure Fenced (l : Ledger) (now : Lifecycle) : Prop where
  restartRequired : l.server.life.restartRequired = true
  hostConfig : l.server.life.hostConfig = now.hostConfig ∨ l.Reinitialized

namespace Accounted

/-- While a transition has not ended, no other job is one that `serve` awaits. -/
theorem alone (h : Accounted rt l) {r' : JsonRpcRequest}
    (hj : l.server.works[j]? = some (.request r)) (hm : r.method = CONFIG_TRANSITION)
    (hp : l.server.pc j = some p) (hended : p.isEnded = false)
    (hi : l.server.works[i]? = some (.request r')) (hinline : isInline r'.method = true)
    (hp₀ : l.server.pc i = some p₀) (hended₀ : p₀.isEnded = false) : j = i := by
  have hlj := h.orderly.inline j r p hj (transition_inline hm) hp hended
  have hli := h.orderly.inline i r' p₀ hi hinline hp₀ hended₀
  cases hlj.symm.trans hli
  rfl

/-- Another job's turn, for a transition that has not ended. -/
theorem aside (h : Accounted rt l) (hr : Runs rt reg broken i l.server.life p₀ life p new)
    (hp₀ : l.server.pc i = some p₀) (hji : j ≠ i) {q : JobPc}
    (hj : l.server.works[j]? = some (.request r)) (hm : r.method = CONFIG_TRANSITION)
    (hq : l.server.pc j = some q) (hended : q.isEnded = false) : Agree l.server.life life := by
  rcases hr.agree with hagree | ⟨r', next, rfl⟩
  · exact hagree
  · obtain ⟨w, hw⟩ := work_of_pc hp₀
    obtain ⟨rfl, reg', life₁, life₂, hawaits⟩ := h.orderly.handles i w _ hw hp₀
    cases hawaits with
    | onConfigTransition capabilities next hm' hf hn =>
      exact absurd (h.alone hj hm hq hended hw (transition_inline hm') hp₀ rfl) hji

/-- The hook of a config transition runs while the service is not fenced. -/
theorem unfenced {next : Dict} (h : Accounted rt l)
    (hp : l.server.pc i = some (.awaiting r (.onConfigTransition next))) :
    l.server.life.restartRequired = false := by
  obtain ⟨w, hw⟩ := work_of_pc hp
  obtain ⟨rfl, reg, life₁, life₂, hawaits⟩ := h.orderly.handles i w _ hw hp
  cases hawaits with
  | onConfigTransition capabilities next hm hf hn =>
    have hlt : i < l.found.length := h.found.symm ▸ lt_of_pc hp
    cases h.accounts i r _ _ hw hm (List.getElem?_eq_getElem hlt) hp with
    | unmoved hunmoved hl =>
      obtain ⟨-, hfresh, -⟩ := hunmoved.pc
      exact (hl rfl).restartRequired.trans hfresh
    | decided next' o hdecided hl => exact absurd hdecided.pc id

theorem turn (h : Accounted rt l) (hm : Moved l.server s' i life p new)
    (hp : l.server.pc i = some p₀)
    (hr : Runs rt reg l.server.broken i l.server.life p₀ life p new) :
    Accounted rt (l.turn s' i new) := by
  obtain ⟨w, hw⟩ := work_of_pc hp
  have hhandles := h.orderly.handles i w p₀ hw hp
  have hjob : ∀ f ∈ new, f.job = i := fun f hf => ((hr.handles hhandles).2 f hf).1
  have hlen : s'.jobs.length = l.server.jobs.length := by
    rw [← length_works, hm.works, length_works]
  constructor
  · exact h.orderly.moved hm hp hr
  · intro r hr
    have hworks : s'.works = l.server.works := hm.works
    exact h.identifies r (hworks ▸ hr)
  · exact h.found.trans hlen.symm
  · show (l.posted ++ stamp s'.life new).map Prod.fst = s'.frames
    rw [List.map_append, h.posted, hm.frames, stamp, List.map_map]
    exact congrArg _ (List.map_id new)
  · intro t ht
    show t.job < s'.jobs.length
    rw [hlen]
    rcases List.mem_append.1 ht with ht | ht
    · exact h.turns t ht
    · obtain rfl := List.mem_singleton.1 ht
      exact lt_of_pc hp
  · intro j r old q hj hmethod hold hq
    have hwork : l.server.works[j]? = some (.request r) := by
      rw [← hm.works]
      exact hj
    by_cases hji : j = i
    · subst hji
      obtain rfl : p = q := Option.some.inj ((hm.pc_self hp).symm.trans hq)
      have hid := h.identifies r (List.mem_of_getElem? hwork)
      obtain rfl := Option.some.inj (hw.symm.trans hwork)
      rw [postedBy_turn_self l s' hjob, turnsOf_turn_self]
      show Account rt s'.broken s'.life r old p _ _
      rw [hm.broken, hm.life]
      exact (h.accounts j r old p₀ hwork hmethod hold hp).runs hmethod hid hhandles hr
    · have hq : l.server.pc j = some q := (hm.pc_of_ne hji).symm.trans hq
      rw [postedBy_turn_of_ne l s' hjob hji, turnsOf_turn_of_ne l s' new hji]
      refine (h.accounts j r old q hwork hmethod hold hq).other fun hended => ?_
      show Agree l.server.life s'.life ∧ (l.server.broken = true → s'.broken = true)
      rw [hm.life, hm.broken]
      exact ⟨h.aside hr hp hji hwork hmethod hq hended, id⟩

theorem filter_nil {α : Type} (f : α → Nat) (xs : List α) {n : Nat} (h : ∀ x ∈ xs, f x < n) :
    xs.filter (fun x => f x = n) = [] := by
  apply List.filter_eq_nil_iff.2
  intro x hx heq
  have hlt := h x hx
  rw [decide_eq_true_eq] at heq
  omega

/-- A new job, before its first turn. -/
theorem enter (h : Accounted rt l) {loop : LoopPc}
    (ho : Orderly rt { l.server.create w p with loop })
    (hid : ∀ r, w = .request r → Identifies r.id)
    (hp : ∀ r, w = .request r → r.method = CONFIG_TRANSITION → p = .created r) :
    Accounted rt (l.enter { l.server.create w p with loop }) := by
  have hworks : (l.server.create w p).works = l.server.works ++ [w] := works_create _ _ _
  have hlen : (l.server.create w p).jobs.length = l.server.jobs.length + 1 := by
    rw [← length_works, hworks, List.length_append, length_works, List.length_singleton]
  have hposted : ∀ x ∈ l.posted, x.1.job < l.server.jobs.length := by
    intro x hx
    have hmem : x.1 ∈ l.server.frames := h.posted ▸ List.mem_map_of_mem hx
    obtain ⟨w', hw', -⟩ := h.orderly.frames x.1 hmem
    rw [← length_works]
    exact (List.getElem?_eq_some_iff.1 hw').1
  constructor
  · exact ho
  · intro r hr
    have hr : .request r ∈ l.server.works ++ [w] := hworks ▸ hr
    rcases List.mem_append.1 hr with hr | hr
    · exact h.identifies r hr
    · exact hid r (List.mem_singleton.1 hr).symm
  · show (l.found ++ [l.server.life]).length = (l.server.create w p).jobs.length
    rw [hlen, List.length_append, h.found, List.length_singleton]
  · exact h.posted
  · intro t ht
    have hlt := h.turns t ht
    show t.job < (l.server.create w p).jobs.length
    omega
  · intro j r old q hj hmethod hold hq
    have hj : (l.server.works ++ [w])[j]? = some (.request r) := hworks ▸ hj
    have hold : (l.found ++ [l.server.life])[j]? = some old := hold
    have hwlen := l.server.length_works
    by_cases hlt : j < l.server.jobs.length
    · rw [List.getElem?_append_left (by omega)] at hj
      rw [List.getElem?_append_left (by rw [h.found]; exact hlt)] at hold
      have hq : l.server.pc j = some q := (pc_create_of_lt hlt).symm.trans hq
      exact (h.accounts j r old q hj hmethod hold hq).other fun _ => ⟨.refl _, id⟩
    · obtain rfl : j = l.server.jobs.length := by
        have hle := (List.getElem?_eq_some_iff.1 hj).1
        rw [List.length_append, List.length_singleton] at hle
        omega
      rw [← hwlen, List.getElem?_concat_length] at hj
      rw [← h.found, List.getElem?_concat_length] at hold
      have hwork := Option.some.inj hj
      obtain rfl := Option.some.inj hold
      obtain rfl : p = q := Option.some.inj ((pc_create_self l.server w p).symm.trans hq)
      obtain rfl := hp r hwork hmethod
      have hnoframes : (l.enter { l.server.create w (.created r) with loop }).postedBy
          l.server.jobs.length = [] := filter_nil (fun x : Sent × Lifecycle => x.1.job) l.posted hposted
      have hnoturns : (l.enter { l.server.create w (.created r) with loop }).turnsOf
          l.server.jobs.length = [] := filter_nil Turn.job l.turns h.turns
      rw [hnoframes, hnoturns]
      refine .unmoved ⟨rfl, fun x hx => ?_, fun t ht => ?_⟩ fun _ => .refl _
      · cases hx
      · cases ht

/-- A turn of a job that is no transition, while none runs. -/
theorem idle (h : Accounted rt l) (hi : i < l.server.jobs.length) {config : Dict}
    (hw : ∀ r, l.server.works[i]? = some (.request r) → r.method ≠ CONFIG_TRANSITION)
    (hq : ∀ (j : Nat) r p, l.server.works[j]? = some (.request r) → r.method = CONFIG_TRANSITION →
      l.server.pc j = some p → p.isEnded = false → config = l.server.life.hostConfig) :
    Accounted rt
      (l.turn { l.server with life := { l.server.life with hostConfig := config } } i []) := by
  constructor
  · exact ⟨h.orderly.inline, h.orderly.handles, h.orderly.frames⟩
  · exact h.identifies
  · exact h.found
  · show (l.posted ++ stamp _ []).map Prod.fst = _
    rw [append_stamp_nil]
    exact h.posted
  · intro t ht
    rcases List.mem_append.1 ht with ht | ht
    · exact h.turns t ht
    · obtain rfl := List.mem_singleton.1 ht
      exact hi
  · intro j r old q hj hmethod hold hpc
    have hji : j ≠ i := by
      intro hji
      subst hji
      exact hw r hj hmethod
    have hnone : ∀ f ∈ ([] : List Sent), f.job = i := by
      intro f hf
      cases hf
    rw [postedBy_turn_of_ne l _ hnone hji, turnsOf_turn_of_ne l _ [] hji]
    refine (h.accounts j r old q hj hmethod hold hpc).other fun hended => ⟨?_, id⟩
    exact ⟨hq j r q hj hmethod hpc hended, rfl⟩

theorem start : Accounted rt {} := by
  constructor
  · exact .start
  · intro r hr
    cases hr
  · rfl
  · rfl
  · intro t ht
    cases ht
  · intro i r old p hi
    cases hi

/-- A step that no job takes. -/
theorem untouched (h : Accounted rt l) (hi : Interleaves rt l.server a s')
    (hw : s'.works = l.server.works) (hp : s'.pc = l.server.pc)
    (hf : s'.frames = l.server.frames) (hlife : s'.life = l.server.life)
    (hl : ∀ j, l.server.loop = .awaiting j →
      s'.loop = .awaiting j ∧ (l.server.broken = true → s'.broken = true)) :
    Accounted rt { l with server := s' } := by
  have hlen : s'.jobs.length = l.server.jobs.length := by
    rw [← length_works, hw, length_works]
  constructor
  · exact h.orderly.step hi
  · intro r hr
    exact h.identifies r (hw ▸ hr)
  · exact h.found.trans hlen.symm
  · exact h.posted.trans hf.symm
  · intro t ht
    have hlt := h.turns t ht
    show t.job < s'.jobs.length
    omega
  · intro j r old q hj hmethod hold hq
    have hwork : l.server.works[j]? = some (.request r) := hw ▸ hj
    have hpc : l.server.pc j = some q := hp ▸ hq
    refine (h.accounts j r old q hwork hmethod hold hpc).other fun hended => ?_
    have hloop := h.orderly.inline j r q hwork (transition_inline hmethod) hpc hended
    show Agree l.server.life s'.life ∧ (l.server.broken = true → s'.broken = true)
    rw [hlife]
    exact ⟨.refl _, (hl j hloop).2⟩

theorem queue (h : Accounted rt l) (hid : Identifies r.id) (hi : isInline r.method = false)
    (ho : Orderly rt (l.server.create (.request r) (.created r))) :
    Accounted rt ((l.enter (l.server.create (.request r) (.created r))).turn
      (l.server.create (.request r) (.created r)) l.server.jobs.length []) := by
  have hentered : Accounted rt (l.enter (l.server.create (.request r) (.created r))) := by
    have hwork : ∀ r', Work.request r = .request r' → Identifies r'.id := by
      intro r' hr
      cases hr
      exact hid
    have hcreated : ∀ r', Work.request r = .request r' → r'.method = CONFIG_TRANSITION →
        JobPc.created r = .created r' := by
      intro r' hr _
      cases hr
      rfl
    exact h.enter ho hwork hcreated
  have hlen : (l.server.create (.request r) (.created r)).jobs.length =
      l.server.jobs.length + 1 := List.length_append
  refine hentered.idle ?_ (fun r' hr hmethod => ?_) fun _ _ _ _ _ _ _ => rfl
  · show l.server.jobs.length < (l.server.create (.request r) (.created r)).jobs.length
    omega
  · have hr : (l.server.create (.request r) (.created r)).works[l.server.jobs.length]? =
        some (.request r') := hr
    rw [works_create, ← length_works, List.getElem?_concat_length] at hr
    cases hr
    rw [transition_inline hmethod] at hi
    cases hi

theorem configure (h : Accounted rt l) {params config : Dict}
    (hp : l.server.pc i = some (.awaiting r (.onInitialize params))) :
    Accounted rt
      (l.turn { l.server with life := { l.server.life with hostConfig := config } } i []) := by
  obtain ⟨w, hw⟩ := work_of_pc hp
  obtain ⟨rfl, reg, life₁, life₂, hawaits⟩ := h.orderly.handles i w _ hw hp
  cases hawaits with
  | onInitialize hm =>
    have hne : INITIALIZE ≠ CONFIG_TRANSITION := by decide
    have hinline : isInline r.method = true := decide_eq_true (.inl hm)
    apply h.idle (lt_of_pc hp)
    · intro r' hr hmethod
      cases hw.symm.trans hr
      exact hne (hm.symm.trans hmethod)
    · intro j r' q hj hmethod hq hended
      have hji := h.alone hj hmethod hq hended hw hinline hp rfl
      subst hji
      cases hw.symm.trans hj
      exact absurd (hm.symm.trans hmethod) hne

theorem step (h : Accounted rt l) (hs : l.step rt raised version a = some l') :
    Accounted rt l' := by
  obtain ⟨s', hs', rfl⟩ := Option.map_eq_some_iff.1 hs
  have hi := step_interleaves hs'
  cases hi with
  | turn i p₀ ha hb hp hsteps =>
    obtain ⟨life, p, new, hm, hr⟩ := hsteps
    have hdrop : s'.frames.drop l.server.frames.length = new := by
      rw [hm.frames, List.drop_left]
    rw [hdrop, ha, hb, List.map_nil, List.append_nil]
    exact h.turn hm hp hr
  | creates w p₀ loop ha hb hw hsteps =>
    obtain ⟨life, p, new, hm, hr⟩ := hsteps
    have hdrop : s'.frames.drop l.server.frames.length = new := by
      rw [hm.frames]
      exact List.drop_left
    have hentered : Accounted rt (l.enter { l.server.create w p₀ with loop }) := by
      apply h.enter (h.orderly.fresh hw)
      · intro r hr
        have hmem : .request r ∈ brings rt l.server a := by
          rw [hb, hr]
          exact List.mem_singleton.2 rfl
        obtain ⟨b, -, hd⟩ := brings_request hmem
        exact request_identifies hd
      · intro r hr _
        subst hr
        cases hw
        rfl
    rw [hdrop, ha, hb]
    exact hentered.turn hm (pc_create_self l.server w p₀) hr
  | queues r ha hb hinline he =>
    subst he
    have hmem : .request r ∈ brings rt l.server a := by
      rw [hb]
      exact List.mem_singleton.2 rfl
    obtain ⟨b, -, hd⟩ := brings_request hmem
    have hdrop : (l.server.create (.request r) (.created r)).frames.drop l.server.frames.length = [] :=
      List.drop_length
    rw [hdrop, ha, hb]
    have horderly := h.orderly.step (.queues r ha hb hinline rfl)
    exact h.queue (request_identifies hd) hinline horderly
  | configures i r params config ha hb hp he =>
    subst he
    have hdrop : l.server.frames.drop l.server.frames.length = [] := List.drop_length
    show Accounted rt ⟨_, _, l.posted ++ (l.server.frames.drop l.server.frames.length).map _, _⟩
    rw [hdrop, ha, hb, List.map_nil (f := fun _ => l.server.life), List.append_nil]
    exact h.configure hp
  | aside ha hb hw hp hf hlife hl =>
    have hdrop : s'.frames.drop l.server.frames.length = [] := by
      rw [hf, List.drop_length]
    rw [hdrop, ha, hb]
    have hsame := h.untouched (.aside ha hb hw hp hf hlife hl) hw hp hf hlife hl
    show Accounted rt ⟨s', l.found ++ [], l.posted ++ [], l.turns ++ []⟩
    rw [List.append_nil, List.append_nil, List.append_nil]
    exact hsame

/-- The turn that changes the config of a fenced service is of an `initialize`. -/
theorem config_turn (h : Accounted rt l) (hs : l.step rt raised version a = some l')
    (hf : l.server.life.restartRequired = true) :
    l'.server.life.hostConfig = l.server.life.hostConfig ∨ l'.Reinitialized := by
  obtain ⟨s', hs', rfl⟩ := Option.map_eq_some_iff.1 hs
  show s'.life.hostConfig = _ ∨ _
  cases step_interleaves hs' with
  | turn i p₀ ha hb hp hsteps =>
    obtain ⟨life, p, new, hm, hr⟩ := hsteps
    rcases hr.agree with hagree | ⟨r, next, rfl⟩
    · exact .inl ((congrArg Lifecycle.hostConfig hm.life).trans hagree.hostConfig)
    · have hunfenced := h.unfenced hp
      rw [hf] at hunfenced
      cases hunfenced
  | creates w p₀ loop ha hb hw hsteps =>
    obtain ⟨life, p, new, hm, hr⟩ := hsteps
    rcases hr.agree with hagree | ⟨r, next, rfl⟩
    · exact .inl ((congrArg Lifecycle.hostConfig hm.life).trans hagree.hostConfig)
    · cases hw
  | queues r ha hb hinline he => exact .inl (congrArg (fun s => s.life.hostConfig) he)
  | configures i r params config ha hb hp he =>
    obtain ⟨w, hw⟩ := work_of_pc hp
    obtain ⟨rfl, reg, life₁, life₂, hawaits⟩ := h.orderly.handles i w _ hw hp
    cases hawaits with
    | onInitialize hm =>
      refine .inr ⟨⟨i, l.server.life, s'.life⟩, ?_, hf, r, ?_, hm⟩
      · rw [ha]
        exact List.mem_append_right _ (List.mem_singleton.2 rfl)
      · rw [he]
        exact hw
  | aside ha hb hw hp hframes hlife hl => exact .inl (congrArg Lifecycle.hostConfig hlife)

end Accounted

theorem Reinitialized.step (h : l.Reinitialized) (hs : l.step rt raised version a = some l') :
    l'.Reinitialized := by
  obtain ⟨s', hs', rfl⟩ := Option.map_eq_some_iff.1 hs
  obtain ⟨turn, hturn, hf, r, hr, hm⟩ := h
  refine ⟨turn, List.mem_append_left _ hturn, hf, r, ?_, hm⟩
  show s'.works[turn.job]? = _
  rw [(step_interleaves hs').works]
  exact (List.getElem?_append_left (List.getElem?_eq_some_iff.1 hr).1).trans hr

/-- A fence stays, and the config that stood as it rose stays until an `initialize`. -/
theorem Fenced.step {now : Lifecycle} (h : l.Fenced now) (ha : Accounted rt l)
    (hs : l.step rt raised version a = some l') : l'.Fenced now := by
  have hconfig := ha.config_turn hs h.restartRequired
  constructor
  · obtain ⟨s', hs', rfl⟩ := Option.map_eq_some_iff.1 hs
    exact (step_advances hs').restart h.restartRequired
  · rcases h.hostConfig with hsame | hre
    · rcases hconfig with hkept | hre
      · exact .inl (hkept.trans hsame)
      · exact .inr hre
    · exact .inr (hre.step hs)

end Ledger

/-- The ledger of a service accounts for its config transitions. -/
theorem recorded_accounted (h : (recorded rt raised version).Reachable l) : l.Accounted rt :=
  h.invariant .start fun _ _ _ hacc hs => hacc.step hs

end KestrelSdk.Service

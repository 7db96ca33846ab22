import KestrelSdk.Service.Ledger

/-! What a config transition does to a service, and what it replies. -/

namespace KestrelSdk.Service

open Json Protocol Asyncio Server

/-- The reply of a config transition. -/
def transitionReply (r : JsonRpcRequest) (o : Transition) : Value :=
  JsonRpcResponse.toDict ⟨r.id, .result o.toDict⟩

/-- The lifecycle that a config transition leaves. -/
def committed (old : Lifecycle) (next : Dict) : Transition → Lifecycle
  | .restart => { old with restartRequired := true }
  | .applied => { old with hostConfig := next }

/-- Where a config transition stands that has changed nothing. -/
def Asking (r : JsonRpcRequest) (old : Lifecycle) (posted : List (Sent × Lifecycle)) : JobPc → Prop
  | .created _ => posted = []
  | .awaiting _ hook =>
    posted = [] ∧ old.restartRequired = false ∧
      ∃ next, hook = .onConfigTransition next ∧ r.params.get (str "config") = some (.dict next)
  | .locking data handled => Refusal r data ∧ handled = none
  | .draining handled => handled = none
  | .ended _ => True

/-- A config transition that has changed nothing. -/
structure Unmoved (r : JsonRpcRequest) (old : Lifecycle) (p : JobPc)
    (posted : List (Sent × Lifecycle)) (turns : List Turn) : Prop where
  pc : Asking r old posted p
  posted : ∀ x ∈ posted, Refusal r x.1.data
  turns : ∀ t ∈ turns, Agree t.before t.after

/-- Where a config transition stands that its hook has decided: its reply is the first frame, unless
the wire is barred. -/
def Telling (rt : Runtime) (broken : Bool) (r : JsonRpcRequest) (o : Transition)
    (posted : List (Sent × Lifecycle)) : JobPc → Prop
  | .created _ => False
  | .awaiting _ _ => False
  | .locking data handled =>
    posted = [] → data = transitionReply r o ∧ handled = some r ∨
      Barred rt broken (transitionReply r o) ∧ Refusal r data ∧ handled = none
  | .draining _ => posted ≠ []
  | .ended _ => True

/-- A config transition that its hook has decided. -/
structure Decided (rt : Runtime) (broken : Bool) (r : JsonRpcRequest) (old : Lifecycle)
    (next : Dict) (o : Transition) (p : JobPc) (posted : List (Sent × Lifecycle)) : Prop where
  pc : Telling rt broken r o posted p
  config : r.params.get (str "config") = some (.dict next)
  fresh : old.restartRequired = false
  first : ∀ x, posted.head? = some x →
    x.1.data = transitionReply r o ∧ Agree (committed old next o) x.2

/-- What becomes of a config transition. -/
inductive Account (rt : Runtime) (broken : Bool) (life : Lifecycle) (r : JsonRpcRequest)
    (old : Lifecycle) (p : JobPc) (posted : List (Sent × Lifecycle)) (turns : List Turn) : Prop where
  | unmoved (h : Unmoved r old p posted turns) (hl : p.isEnded = false → Agree old life)
  | decided (next : Dict) (o : Transition) (h : Decided rt broken r old next o p posted)
      (hl : p.isEnded = false → Agree (committed old next o) life)

/-- The frames of a step, with the lifecycle that it leaves. -/
def stamp (life : Lifecycle) (new : List Sent) : List (Sent × Lifecycle) := new.map fun f => (f, life)

variable {rt : Runtime} {reg : Registry} {broken : Bool} {i : Nat} {life life' old : Lifecycle}
  {p p₀ : JobPc} {new : List Sent} {r : JsonRpcRequest} {data : Value} {next : Dict}
  {o : Transition} {posted : List (Sent × Lifecycle)} {turns : List Turn}

theorem depth_refusal (hid : Identifies r.id) (h : Refusal r data) : depth data = 2 := by
  obtain ⟨code, message, rfl, -⟩ := h
  simp [JsonRpcResponse.toDict, JsonRpcError.toDict, depth, depthEntries, hid.flat]

/-- The reply encodes wherever an error response does. -/
theorem encode_reply {bytes : Bytes} (hid : Identifies r.id) (h : Refusal r data)
    (hb : encodeMessage rt.py data = .ok bytes) (o : Transition) :
    ∃ bytes, encodeMessage rt.py (transitionReply r o) = .ok bytes := by
  obtain ⟨t, ht, -, -, -⟩ := encodeMessage_bytes hb
  have hdeep := depth_le_of_dump data ht
  rw [depth_refusal hid h] at hdeep
  obtain ⟨n, hn⟩ := Nat.exists_eq_add_of_le hdeep
  obtain ⟨u, hu⟩ := hid.dumped (n + 1)
  have hnest : rt.py.nesting = n + 1 + 1 := by omega
  unfold encodeMessage Interpreter.dumps
  rw [hnest]
  simp only [transitionReply, JsonRpcResponse.toDict, Transition.toDict, dump, dumpEntries, Key.text,
    hu, Checks.ok_bind]
  exact ⟨_, rfl⟩

/-- A wire that does not take the reply takes no error response either. -/
theorem Barred.refuses {bytes : Bytes} (h : Barred rt false (transitionReply r o))
    (hid : Identifies r.id) (hr : Refusal r data) :
    encodeMessage rt.py data ≠ .ok bytes := by
  intro hb
  rcases h with hbroken | ⟨e, he⟩
  · cases hbroken
  · obtain ⟨b, hok⟩ := encode_reply hid hr hb o
    rw [hok] at he
    cases he

theorem Rescued.refusal {handled handled' : Option JsonRpcRequest} (h : Rescued handled data handled')
    (hr : ∀ r', handled = some r' → r' = r) : Refusal r data ∧ handled' = none := by
  cases handled' with
  | some r' => exact absurd h id
  | none =>
    obtain ⟨r', hsome, hrefusal⟩ := h
    obtain rfl := hr r' hsome
    exact ⟨hrefusal, rfl⟩

theorem append_stamp_nil (posted : List (Sent × Lifecycle)) (life : Lifecycle) :
    posted ++ stamp life [] = posted := List.append_nil posted

/-- A turn that writes nothing. -/
theorem Unmoved.turn {t : Turn} (h : Unmoved r old p₀ posted turns) (hp : Asking r old posted p)
    (ht : Agree t.before t.after) : Unmoved r old p posted (turns ++ [t]) := by
  refine ⟨hp, h.posted, fun t' ht' => ?_⟩
  rcases List.mem_append.1 ht' with hm | hm
  · exact h.turns t' hm
  · obtain rfl := List.mem_singleton.1 hm
    exact ht

/-- An error response to a transition that has changed nothing. -/
theorem Unmoved.posts {P : Value → Option JsonRpcRequest → Prop} {life : Lifecycle} {t : Turn}
    (h : Unmoved r old p₀ posted turns) (hp : Posted rt broken P i p new)
    (hP : ∀ data handled, P data handled → Refusal r data ∧ handled = none)
    (ht : Agree t.before t.after) :
    Unmoved r old p (posted ++ stamp life new) (turns ++ [t]) := by
  cases hp with
  | waits data handled hp =>
    rw [append_stamp_nil]
    exact h.turn (hP data handled hp) ht
  | writes data handled bytes hp _ _ =>
    obtain ⟨hrefusal, hnone⟩ := hP data handled hp
    have hended := h.turn (p := .ended (.ok ())) trivial ht
    refine ⟨hnone, fun x hx => ?_, hended.turns⟩
    rcases List.mem_append.1 hx with hm | hm
    · exact h.posted x hm
    · obtain rfl := List.mem_singleton.1 hm
      exact hrefusal
  | ends result =>
    rw [append_stamp_nil]
    exact h.turn trivial ht

/-- The first frame of a transition that its hook has decided. -/
theorem Decided.posts {P : Value → Option JsonRpcRequest → Prop}
    (hid : Identifies r.id) (hconfig : r.params.get (str "config") = some (.dict next))
    (hfresh : old.restartRequired = false) (hp : Posted rt broken P i p new)
    (hP : ∀ data handled, P data handled → data = transitionReply r o ∧ handled = some r ∨
      Barred rt broken (transitionReply r o) ∧ Refusal r data ∧ handled = none)
    (hl : Agree (committed old next o) life) :
    Decided rt broken r old next o p (stamp life new) := by
  have hnone : ∀ x, (stamp life []).head? = some x →
      x.1.data = transitionReply r o ∧ Agree (committed old next o) x.2 := by
    intro x hx
    cases hx
  cases hp with
  | waits data handled hp => exact ⟨fun _ => hP data handled hp, hconfig, hfresh, hnone⟩
  | writes data handled bytes hp hb hw =>
    refine ⟨List.cons_ne_nil _ _, hconfig, hfresh, fun x hx => ?_⟩
    cases hx
    rcases hP data handled hp with ⟨hdata, -⟩ | ⟨hbarred, hrefusal, -⟩
    · exact ⟨hdata, hl⟩
    · subst hw
      exact absurd hb (hbarred.refuses hid hrefusal)
  | ends result => exact ⟨trivial, hconfig, hfresh, hnone⟩

/-- A later frame of a transition that its hook has decided. -/
theorem Decided.more {P : Value → Option JsonRpcRequest → Prop} {x : Sent × Lifecycle}
    {rest : List (Sent × Lifecycle)} (h : Decided rt broken r old next o p₀ (x :: rest))
    (hp : Posted rt broken P i p new) :
    Decided rt broken r old next o p (x :: rest ++ stamp life new) := by
  have hpc : Telling rt broken r o (x :: rest ++ stamp life new) p := by
    cases hp with
    | waits data handled hp =>
      intro hnil
      cases hnil
    | writes data handled bytes hp hb hw => exact List.cons_ne_nil _ _
    | ends result => trivial
  exact ⟨hpc, h.config, h.fresh, h.first⟩

theorem dispatch_transition {d : Dispatched} {result : Except Exn Value}
    (hm : r.method = CONFIG_TRANSITION) (hd : dispatch rt reg life r = (life', d))
    (hr : d.result = some result) : ∃ e, result = .error e := by
  have hinit : r.method ≠ INITIALIZE := by
    rw [hm]
    decide
  unfold dispatch at hd
  rw [if_neg hinit, if_pos hm] at hd
  split at hd
  · cases hd
    cases hr
    exact ⟨_, rfl⟩
  · split at hd
    · cases hd
      cases hr
      exact ⟨_, rfl⟩
    · cases hd
      cases hr

theorem awaits_transition {hook : Hook} (hm : r.method = CONFIG_TRANSITION)
    (h : Awaits rt reg life r life' hook) :
    life' = life ∧ life.restartRequired = false ∧
      ∃ next, hook = .onConfigTransition next ∧
        r.params.get (str "config") = some (.dict next) := by
  have hne : ∀ {m : Str}, m ≠ CONFIG_TRANSITION → r.method ≠ m := by
    intro m hm' heq
    exact hm' (heq.symm.trans hm)
  cases h with
  | onInitialize hm' => exact absurd hm' (hne (by decide))
  | onConfigTransition capabilities next _ hf hn =>
    refine ⟨rfl, hf, next, rfl, ?_⟩
    unfold nextConfig at hn
    split at hn
    · cases hn
    · split at hn
      · rename_i hc
        cases hn
        exact hc
      · cases hn
  | health hm' _ => exact absurd hm' (hne (by decide))
  | getTools hm' _ => exact absurd hm' (hne (by decide))
  | callTool _ hm' _ _ => exact absurd hm' (hne (by decide))
  | callHostIngress _ _ hm' _ _ _ => exact absurd hm' (hne (by decide))
  | onShutdown hm' => exact absurd hm' (hne (by decide))

/-- What the hook of a config transition comes to. -/
theorem complete_transition (rt : Runtime) (reg : Registry) (life : Lifecycle) (next : Dict)
    (outcome : Outcome) :
    (∃ e, complete rt reg life (.onConfigTransition next) outcome = (life, .error e)) ∨
      ∃ o, complete rt reg life (.onConfigTransition next) outcome =
        (committed life next o, .ok o.toDict) := by
  cases outcome with
  | value v => exact .inl ⟨_, rfl⟩
  | raised e => exact .inl ⟨e, rfl⟩
  | transition t n =>
    rcases commit_cases reg life next t with ⟨rfl, hc⟩ | ⟨_, rfl, -, -, hc⟩ | ⟨e, hc⟩
    · exact .inr ⟨.restart, hc⟩
    · exact .inr ⟨.applied, hc⟩
    · exact .inl ⟨e, hc⟩

theorem Agree.committed (h : Agree old life) (next : Dict) (o : Transition) :
    Agree (committed old next o) (committed life next o) := by
  cases o with
  | restart => exact ⟨h.hostConfig, rfl⟩
  | applied => exact ⟨rfl, h.restartRequired⟩

theorem Unmoved.runs (hm : r.method = CONFIG_TRANSITION) (hid : Identifies r.id)
    (h : Unmoved r old p₀ posted turns) (hl : Agree old life)
    (hw : p₀.Handles rt (.request r)) (hr : Runs rt reg broken i life p₀ life' p new) :
    Account rt broken life' r old p (posted ++ stamp life' new) (turns ++ [⟨i, life, life'⟩]) := by
  have hsame : ∀ {r'}, some r = some r' → r' = r := by
    intro r' heq
    exact (Option.some.inj heq).symm
  have hcalm : ∀ {t : Turn}, t = ⟨i, life, life⟩ → Agree t.before t.after := by
    rintro t rfl
    exact .refl life
  -- an error response
  have hrefuse : ∀ {P q new'}, Posted rt broken P i q new' →
      (∀ data handled, P data handled → Refusal r data ∧ handled = none) →
      Account rt broken life r old q (posted ++ stamp life new') (turns ++ [⟨i, life, life⟩]) := by
    intro P q new' hp hP
    exact .unmoved (h.posts hp hP (hcalm rfl)) fun _ => hl
  have hends : ∀ result, Account rt broken life r old (.ended result) (posted ++ stamp life [])
      (turns ++ [⟨i, life, life⟩]) := by
    intro result
    rw [append_stamp_nil]
    exact .unmoved (h.turn trivial (hcalm rfl)) fun _ => hl
  cases hr with
  | skips r' => exact hends _
  | leaves data handled => exact hends _
  | calls r' life'' hook ha =>
    obtain rfl : r = r' := by
      injection hw
    obtain ⟨rfl, hf, next, hhook, hconfig⟩ := awaits_transition hm ha
    have hunfenced : old.restartRequired = false := hl.restartRequired.symm.trans hf
    rw [append_stamp_nil]
    exact .unmoved (h.turn ⟨h.pc, hunfenced, next, hhook, hconfig⟩ (hcalm rfl)) fun _ => hl
  | answers r' d result p new hd hresult hp =>
    obtain rfl : r = r' := by
      injection hw
    obtain ⟨e, rfl⟩ := dispatch_transition hm hd hresult
    exact hrefuse hp fun _ _ hrescued => hrescued.refusal fun _ => hsame
  | completes r' hook outcome p new hp =>
    obtain rfl : r = r' := by
      injection hw.1
    obtain ⟨rfl, hfresh, next, rfl, hconfig⟩ := h.pc
    rcases complete_transition rt reg life next outcome with ⟨e, hc⟩ | ⟨o, hc⟩
    · rw [hc] at hp ⊢
      exact hrefuse hp fun _ _ hrescued => hrescued.refusal fun _ => hsame
    · rw [hc] at hp ⊢
      have hcommitted := hl.committed next o
      refine .decided next o (.posts hid hconfig hfresh hp ?_ hcommitted) fun _ => hcommitted
      intro data handled hoffered
      rcases hoffered with hreply | ⟨hbarred, hrescued⟩
      · exact .inl hreply
      · exact .inr ⟨hbarred, hrescued.refusal fun _ => hsame⟩
  | sends data handled p new hp =>
    obtain ⟨hrefusal, rfl⟩ := h.pc
    apply hrefuse hp
    intro data' handled' hoffered
    rcases hoffered with ⟨rfl, rfl⟩ | ⟨-, hrescued⟩
    · exact ⟨hrefusal, rfl⟩
    · exact hrescued.refusal fun _ hsome => by cases hsome
  | drains handled p new hp =>
    obtain rfl : handled = none := h.pc
    exact hrefuse hp fun _ _ hrescued => hrescued.refusal fun _ hsome => by cases hsome

theorem Decided.runs (hid : Identifies r.id) (h : Decided rt broken r old next o p₀ posted)
    (hl : Agree (committed old next o) life) (hr : Runs rt reg broken i life p₀ life' p new) :
    life' = life ∧ Decided rt broken r old next o p (posted ++ stamp life' new) := by
  cases hr with
  | skips r' => exact absurd h.pc id
  | calls r' life'' hook ha => exact absurd h.pc id
  | answers r' d result p new hd hresult hp => exact absurd h.pc id
  | completes r' hook outcome p new hp => exact absurd h.pc id
  | leaves data handled =>
    refine ⟨rfl, trivial, h.config, h.fresh, ?_⟩
    rw [stamp, List.map_nil, List.append_nil]
    exact h.first
  | sends data handled p new hp =>
    cases posted with
    | cons x rest => exact ⟨rfl, h.more hp⟩
    | nil =>
      refine ⟨rfl, .posts hid h.config h.fresh hp ?_ hl⟩
      intro data' handled' hoffered
      rcases h.pc rfl with ⟨rfl, rfl⟩ | ⟨hbarred, hrefusal, rfl⟩
      · rcases hoffered with hreply | ⟨hbarred, hrescued⟩
        · exact .inl hreply
        · exact .inr ⟨hbarred, hrescued.refusal fun _ hsome => (Option.some.inj hsome).symm⟩
      · rcases hoffered with ⟨rfl, rfl⟩ | ⟨-, hrescued⟩
        · exact .inr ⟨hbarred, hrefusal, rfl⟩
        · exact .inr ⟨hbarred, hrescued.refusal fun _ hsome => by cases hsome⟩
  | drains handled p new hp =>
    cases posted with
    | cons x rest => exact ⟨rfl, h.more hp⟩
    | nil => exact absurd rfl h.pc

/-- A step of a config transition. -/
theorem Account.runs (hm : r.method = CONFIG_TRANSITION) (hid : Identifies r.id)
    (h : Account rt broken life r old p₀ posted turns) (hw : p₀.Handles rt (.request r))
    (hr : Runs rt reg broken i life p₀ life' p new) :
    Account rt broken life' r old p (posted ++ stamp life' new) (turns ++ [⟨i, life, life'⟩]) := by
  cases h with
  | unmoved h hl => exact h.runs hm hid (hl hr.not_ended) hw hr
  | decided next o h hl =>
    have hl := hl hr.not_ended
    obtain ⟨rfl, hdecided⟩ := h.runs hid hl hr
    exact .decided next o hdecided fun _ => hl

/-- A step of another job. -/
theorem Account.other {broken' : Bool} (h : Account rt broken life r old p posted turns)
    (hl : p.isEnded = false → Agree life life' ∧ (broken = true → broken' = true)) :
    Account rt broken' life' r old p posted turns := by
  cases h with
  | unmoved h hold => exact .unmoved h fun hp => (hold hp).trans (hl hp).1
  | decided next o h hold =>
    have hpc : Telling rt broken' r o posted p := by
      cases p with
      | locking data handled =>
        intro hnil
        rcases h.pc hnil with hreply | ⟨hbarred, hrefusal⟩
        · exact .inl hreply
        · rcases hbarred with hbroken | hencode
          · exact .inr ⟨.inl ((hl rfl).2 hbroken), hrefusal⟩
          · exact .inr ⟨.inr hencode, hrefusal⟩
      | ended result => trivial
      | created r' => exact h.pc
      | awaiting r' hook => exact h.pc
      | draining handled => exact h.pc
    exact .decided next o ⟨hpc, h.config, h.fresh, h.first⟩ fun hp => (hold hp).trans (hl hp).1

end KestrelSdk.Service

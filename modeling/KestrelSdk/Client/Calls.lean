import KestrelSdk.Client.Firsts

/-! What the calls of a client send, and what they return. -/

namespace KestrelSdk.Client

open Json Protocol Asyncio

/-- The parameters of a `tools/call` request. -/
def toolParams (name : Value) (arguments : Dict) (context : Option ToolExecutionContext) : Dict :=
  [(.str (str "name"), name), (.str (str "arguments"), .dict arguments)] ++
    match context with
    | none => []
    | some c => [(.str TOOL_EXECUTION_CONTEXT, c.toDict)]

/-- The request that a call sends. -/
inductive Op.Sends (py : Interpreter) (p : Str) : Op → Str → Dict → Prop where
  | request (method : Str) (params : Dict) : Sends py p (.request method params) method params
  | initializeCall (clientInfo config : Option Dict) :
      Sends py p (.initializeCall clientInfo config) INITIALIZE
        (State.initializeParams p clientInfo config)
  | health : Sends py p .health HEALTH []
  | listTools : Sends py p .listTools TOOLS_LIST []
  | callTool (name : Value) (arguments : Dict) (context : Option ToolExecutionContext) :
      Sends py p (.callTool name arguments context) TOOLS_CALL (toolParams name arguments context)
  | callHostIngress (name payload : Value) (n : Str) (v : Value)
      (hn : validateHostIngressName name = .ok n)
      (hv : validateHostIngressPayload py payload = .ok v) :
      Sends py p (.callHostIngress name payload) HOST_INGRESS
        [(.str (str "name"), .str n), (.str (str "payload"), v)]
  | prepareConfigTransition (next : Dict) :
      Sends py p (.prepareConfigTransition (.dict next)) CONFIG_TRANSITION
        [(.str (str "config"), .dict next)]
  | shutdown : Sends py p .shutdown SHUTDOWN []

/-- What a fenced client tells of the health of its service. -/
def fencedHealth : Value :=
  .dict [(.str (str "status"), .str (str "restart-required")), (.str (str "ready"), .bool false)]

/-- What a call returns on a result `v`. -/
def Op.Returns (py : Interpreter) (v w : Value) : Op → Prop
  | .callHostIngress _ _ => validateHostIngressPayload py v = .ok w
  | .prepareConfigTransition _ =>
    ∃ d o, v = .dict d ∧ Transition.fromDict d = .ok o ∧ w = o.toDict
  | .health => w = v ∨ w = fencedHealth
  | _ => w = v

/-- A call that has an identifier has written the request of its operation under it. -/
def Call.Addressed (py : Interpreter) (p : Str) (written : List Frame) (c : Call) : Prop :=
  ∀ id, c.id = some id → ∃ method params, c.op.Sends py p method params ∧ ⟨id, method, params⟩ ∈ written

/-- A call that returns after a request returns what the first response under its identifier
holds. -/
def Call.Repeats (py : Interpreter) (responses : List JsonRpcResponse) (c : Call) : Prop :=
  ∀ w id, c.pc = .finished (.ok w) → c.id = some id →
    ∃ x v, First responses id x ∧ x.answer = .result v ∧ c.op.Returns py v w

variable {py : Interpreter} {p : Str}

theorem Call.Addressed.unsent {written : List Frame} {c : Call} (h : c.id = none) :
    c.Addressed py p written := by
  intro id hid
  rw [h] at hid
  cases hid

theorem Call.Addressed.mono {written written' : List Frame} {c c' : Call}
    (h : c.Addressed py p written) (hop : c'.op = c.op) (hid : c'.id = c.id)
    (hw : ∀ f ∈ written, f ∈ written') : c'.Addressed py p written' := by
  intro id hc
  rw [hid] at hc
  obtain ⟨method, params, hsends, hmem⟩ := h id hc
  rw [hop]
  exact ⟨method, params, hsends, hw _ hmem⟩

theorem Call.Repeats.unsent {responses : List JsonRpcResponse} {c : Call} (h : c.id = none) :
    c.Repeats py responses := by
  intro w id _ hid
  rw [h] at hid
  cases hid

theorem Call.Repeats.unreturned {responses : List JsonRpcResponse} {c : Call}
    (h : ∀ w, c.pc ≠ .finished (.ok w)) : c.Repeats py responses := by
  intro w id hpc
  exact absurd hpc (h w)

theorem Call.Repeats.append {responses : List JsonRpcResponse} {c : Call}
    (h : c.Repeats py responses) (new : List JsonRpcResponse) : c.Repeats py (responses ++ new) := by
  intro w id hpc hid
  obtain ⟨x, v, hx, ha, hw⟩ := h w id hpc hid
  exact ⟨x, v, hx.append new, ha, hw⟩

namespace State

variable {s s' : State} {t : Tid}

/-- A call before its request: it sends the one of its operation, or ends with an exception. -/
def Embarks (py : Interpreter) (p : Str) (s' : State) (t : Tid) : Prop :=
  (s'.calls t).Addressed py p s'.desk.written ∧
    ((s'.calls t).id = none ∨ ∀ w, (s'.calls t).pc ≠ .finished (.ok w))

theorem Embarks.unsent (h : (s'.calls t).id = none) : Embarks py p s' t := ⟨.unsent h, .inl h⟩

theorem finish_embarks (r : Except Raised Value) (hid : (s.calls t).id = none) :
    Embarks py p (s.finish t r) t := by
  apply Embarks.unsent
  rw [finish_calls]
  exact hid

theorem request_embarks {method : Str} {params : Dict} (writeOk : Bool)
    (hid : (s.calls t).id = none) (hop : (s.calls t).op.Sends py p method params) :
    Embarks py p (s.request py t method params writeOk) t := by
  rcases request_outcome py s t method params writeOk with ⟨e, hcall⟩ | ⟨-, hcall, hw⟩
  · apply Embarks.unsent
    rw [hcall]
    exact hid
  · constructor
    · intro id hsome
      rw [hcall] at hsome ⊢
      cases hsome
      exact ⟨method, params, hop, hw⟩
    · right
      intro w hpc
      rw [hcall] at hpc
      cases hpc

theorem lifecycleSection_embarks (writeOk : Bool) (hq : Queued (s.calls t)) :
    Embarks py p (s.lifecycleSection py t writeOk) t := by
  obtain ⟨hlocks, hid, hconfig⟩ := hq
  unfold lifecycleSection
  split
  · rename_i v hv
    obtain ⟨d, rfl⟩ := hconfig v hv
    unfold transition
    dsimp only
    split_ifs
    · exact finish_embarks _ hid
    · exact finish_embarks _ hid
    · split
      · exact finish_embarks _ hid
      · rename_i c _
        have hcall : (s.setCall t { s.calls t with live := c.supportsLiveApply }).calls t =
            { s.calls t with live := c.supportsLiveApply } := by
          simp only [setCall, Function.update_self]
        apply request_embarks
        · rw [hcall]
          exact hid
        · rw [hcall]
          show (s.calls t).op.Sends py p _ _
          rw [hv]
          exact .prepareConfigTransition d
  · rename_i hne
    have hop : (s.calls t).op = .shutdown := by
      cases hop : (s.calls t).op with
      | shutdown => rfl
      | prepareConfigTransition v => exact absurd hop (hne v)
      | _ =>
        rw [hop] at hlocks
        cases hlocks
    unfold shutdownSection
    split
    · exact finish_embarks _ hid
    · apply request_embarks
      · exact hid
      · show (s.calls t).op.Sends py p _ _
        rw [hop]
        exact .shutdown

theorem enterLifecycle_embarks (writeOk : Bool) (hq : Queued (s.calls t)) :
    Embarks py p (s.enterLifecycle py t writeOk) t := by
  unfold enterLifecycle
  split
  · exact lifecycleSection_embarks writeOk hq
  · apply Embarks.unsent
    simp only [setPc, setCall, Function.update_self]
    exact hq.unsent

theorem callTool_embarks {name : Value} {arguments : Dict} {context : Option ToolExecutionContext}
    (writeOk : Bool) (hid : (s.calls t).id = none)
    (hop : (s.calls t).op = .callTool name arguments context) :
    Embarks py p (s.callTool py t name arguments context writeOk) t := by
  have hsends : (s.calls t).op.Sends py p TOOLS_CALL (toolParams name arguments context) := by
    rw [hop]
    exact .callTool name arguments context
  unfold callTool
  dsimp only
  split_ifs
  · exact finish_embarks _ hid
  · exact finish_embarks _ hid
  · cases context with
    | none => exact request_embarks writeOk hid hsends
    | some c =>
      dsimp only
      split
      · split_ifs
        · exact request_embarks writeOk hid hsends
        · exact finish_embarks _ hid
      · exact finish_embarks _ hid

theorem callHostIngress_embarks {name payload : Value} (writeOk : Bool)
    (hid : (s.calls t).id = none) (hop : (s.calls t).op = .callHostIngress name payload) :
    Embarks py p (s.callHostIngress py t name payload writeOk) t := by
  unfold callHostIngress
  split
  · exact finish_embarks _ hid
  · split
    · rename_i n v hn hv
      split
      · exact finish_embarks _ hid
      · split
        · apply request_embarks writeOk hid
          rw [hop]
          exact .callHostIngress name payload n v hn hv
        · exact finish_embarks _ hid
    · exact finish_embarks _ hid

/-- The first step of a call. -/
theorem invoke_embarks (writeOk : Bool) (hid : (s.calls t).id = none) :
    Embarks py p (s.invoke py p t writeOk) t := by
  have hsends : ∀ method params, (s.calls t).op.Sends py p method params →
      Embarks py p (s.request py t method params writeOk) t :=
    fun _ _ h => request_embarks writeOk hid h
  have hlocked : (s.calls t).op.locks = true →
      (∀ v, (s.calls t).op = .prepareConfigTransition v → ∃ d, v = .dict d) →
      Embarks py p (s.enterLifecycle py t writeOk) t :=
    fun hl hd => enterLifecycle_embarks writeOk ⟨hl, hid, hd⟩
  unfold invoke
  split
  · split
    · exact finish_embarks _ hid
    · exact finish_embarks _ hid
  · rename_i method params hop
    exact hsends _ _ (hop ▸ .request method params)
  · rename_i clientInfo config hop
    exact hsends _ _ (hop ▸ .initializeCall clientInfo config)
  · rename_i hop
    split
    · exact finish_embarks _ hid
    · exact hsends _ _ (hop ▸ .health)
  · rename_i hop
    split
    · exact finish_embarks _ hid
    · split
      · exact finish_embarks _ hid
      · exact hsends _ _ (hop ▸ .listTools)
  · rename_i hop
    exact callTool_embarks writeOk hid hop
  · rename_i hop
    exact callHostIngress_embarks writeOk hid hop
  · rename_i d hop
    split
    · exact finish_embarks _ hid
    · apply hlocked
      · rw [hop]
        rfl
      · intro v hv
        rw [hop] at hv
        cases hv
        exact ⟨d, rfl⟩
  · exact finish_embarks _ hid
  · rename_i hop
    apply hlocked
    · rw [hop]
      rfl
    · intro v hv
      rw [hop] at hv
      cases hv
  · apply Embarks.unsent
    simp only [closeCall, setPc, setCall, Function.update_self]
    exact hid

/-- What a call returns after the result of its request. -/
theorem complete_returns {v w : Value}
    (h : ((s.complete py p t v).calls t).pc = .finished (.ok w)) : (s.calls t).op.Returns py v w := by
  have hok : ∀ (s' : State) (u : Value), ((s'.finish t (.ok u)).calls t).pc = .finished (.ok w) →
      w = u := by
    intro s' u hpc
    rw [finish_calls] at hpc
    cases hpc
    rfl
  have herror : ∀ (s' : State) (e : Raised) (q : Prop),
      ((s'.finish t (.error e)).calls t).pc = .finished (.ok w) → q := by
    intro s' e q hpc
    rw [finish_calls] at hpc
    cases hpc
  unfold complete at h
  split at h
  · rename_i hop
    rw [hop]
    unfold completeInitialize at h
    dsimp only at h
    split at h
    · split at h
      · split at h
        · split at h
          · exact herror _ _ _ h
          · split at h
            · exact herror _ _ _ h
            · exact hok _ _ h
        · exact herror _ _ _ h
      · exact herror _ _ _ h
    · exact herror _ _ _ h
  · rename_i hop
    rw [hop]
    unfold completeHealth at h
    split at h
    · split at h
      · exact .inr (hok _ _ h)
      · split at h
        · exact .inl (hok _ _ h)
        · exact herror _ _ _ h
    · exact herror _ _ _ h
  · rename_i hop
    rw [hop]
    unfold completeListTools at h
    dsimp only at h
    split at h
    · split at h
      · split at h
        · exact hok _ _ h
        · exact herror _ _ _ h
        · exact herror _ _ _ h
      · exact herror _ _ _ h
    · exact herror _ _ _ h
  · rename_i hop
    rw [hop]
    split at h
    · rename_i u hu
      rw [hok _ _ h]
      exact hu
    · exact herror _ _ _ h
  · rename_i hop
    rw [hop]
    unfold completeTransition at h
    dsimp only at h
    split at h
    · rename_i d
      split at h
      · exact herror _ _ _ h
      · exact herror _ _ _ h
      · rename_i ho
        split at h
        · exact ⟨d, .applied, rfl, ho, hok _ _ h⟩
        · exact herror _ _ _ h
      · rename_i ho
        exact ⟨d, .restart, rfl, ho, hok _ _ h⟩
    · exact herror _ _ _ h
  · rename_i hop
    rw [hop]
    split at h
    · exact hok _ _ h
    · exact herror _ _ _ h
  · rename_i hinit hhealth hlist hingress htransition hshutdown
    have hw := hok _ _ h
    cases hop : (s.calls t).op with
    | initializeCall clientInfo config => exact absurd hop (hinit clientInfo config)
    | health => exact absurd hop hhealth
    | listTools => exact absurd hop hlist
    | callHostIngress name payload => exact absurd hop (hingress name payload)
    | prepareConfigTransition v => exact absurd hop (htransition v)
    | shutdown => exact absurd hop hshutdown
    | _ => exact hw

/-- A call that awaited its request. -/
theorem resume_repeats {ok : Bool} {id : Nat} (hs : (s.calls t).Sound) (hh : s.toEngine.Heard)
    (h₀ : (s.calls t).pc.awaiting = some id) (h : s.resume py p t ok = some s') :
    (s'.calls t).Repeats py s.desk.responses := by
  obtain ⟨pc, hcall, -⟩ := resume_awaiting h₀ h
  have hid := hs.id id h₀
  have hunwind : ∀ i e, s' = s.unwind t i e → (s'.calls t).Repeats py s.desk.responses := by
    intro i e heq
    obtain ⟨e', hfail⟩ := fail_call ({ s with desk := s.desk.abandon i } : State) t e
    apply Call.Repeats.unreturned
    intro w hpc
    rw [heq] at hpc
    unfold unwind at hpc
    rw [hfail] at hpc
    cases hpc
  unfold resume at h
  dsimp only at h
  split at h
  · rename_i hpc
    rw [hpc] at h₀
    cases h₀
  · rename_i i _
    split_ifs at h
    · cases h
      exact hunwind i _ rfl
    · cases h
      apply Call.Repeats.unreturned
      intro w hpc
      simp only [setPc, setCall, Function.update_self] at hpc
      cases hpc
    · cases h
      exact hunwind i _ rfl
  · rename_i i hpc
    rw [hpc] at h₀
    cases h₀
    split at h
    · cases h
    · cases h
      exact hunwind id _ rfl
    · rename_i q hq
      split_ifs at h
      · cases h
        exact hunwind id _ rfl
      · split at h
        · rename_i v
          cases h
          intro w id' hpc' hid'
          obtain ⟨x, hx, ha⟩ := hh.result id v hq
          rw [hcall] at hid'
          obtain rfl := Option.some.inj (hid.symm.trans hid')
          have hop : (({ s with desk := s.desk.abandon id } : State).complete py p t v).calls t =
              { s.calls t with pc } := hcall
          rw [hop]
          exact ⟨x, v, hx, ha, complete_returns (s := { s with desk := s.desk.abandon id }) hpc'⟩
        · cases h
          exact hunwind id _ rfl
        · cases h
          exact hunwind id _ rfl
  · rename_i hpc
    rw [hpc] at h₀
    cases h₀
  · cases h

/-- A call that waited for the lifecycle lock or for the close task. -/
theorem parked_embarks {ok : Bool} (hp : Parked (s.calls t))
    (ha : (s.calls t).Addressed py p s.desk.written) (h₀ : (s.calls t).pc.awaiting = none)
    (h : s.resume py p t ok = some s') : Embarks py p s' t := by
  unfold resume at h
  dsimp only at h
  split at h
  · rename_i hpc
    have hq := hp.queued hpc
    split_ifs at h
    · cases h
      exact finish_embarks (s := { s with lifecycleLock := s.lifecycleLock.release }) _ hq.unsent
    · cases h
      exact finish_embarks (s := { s with lifecycleLock := s.lifecycleLock.cancelWaiter t }) _
        hq.unsent
    · cases h
      exact lifecycleSection_embarks ok hq
  · rename_i hpc
    rw [hpc] at h₀
    cases h₀
  · rename_i hpc
    rw [hpc] at h₀
    cases h₀
  · rename_i hpc
    have hid : (s.calls t).id = none := by
      cases hid : (s.calls t).id with
      | none => rfl
      | some id =>
        obtain ⟨method, params, hsends, -⟩ := ha id hid
        rw [hp.closing hpc] at hsends
        cases hsends
    split_ifs at h
    · cases h
      exact finish_embarks _ hid
    · split at h
      · cases h
        exact finish_embarks _ hid
      · cases h
  · cases h

/-- What the calls of a client sent and returned. -/
structure Spoken (py : Interpreter) (p : Str) (s : State) : Prop where
  addressed : ∀ t, (s.calls t).Addressed py p s.desk.written
  repeats : ∀ t, (s.calls t).Repeats py s.desk.responses

theorem Spoken.start : Spoken py p {} := by
  constructor
  · intro t
    exact .unsent rfl
  · intro t
    exact .unsent rfl

/-- A step of call `t`, which did not change what the other calls sent and returned. -/
theorem Spoken.called (h : s.Spoken py p) (hc : Called s s' t)
    (ha : (s'.calls t).Addressed py p s'.desk.written)
    (hr : (s'.calls t).Repeats py s.desk.responses) : s'.Spoken py p := by
  have hresponses : s'.desk.responses = s.desk.responses := hc.done.2
  constructor
  · intro u
    by_cases hu : u = t
    · rw [hu]
      exact ha
    · have hsame := hc.others u hu
      exact (h.addressed u).mono (congrArg Call.op hsame) (congrArg Call.id hsame) hc.written
  · intro u
    rw [hresponses]
    by_cases hu : u = t
    · rw [hu]
      exact hr
    · rw [hc.others u hu]
      exact h.repeats u

/-- A call that had not sent its request. -/
theorem Spoken.embarks (h : s.Spoken py p) (hc : Called s s' t) (he : Embarks py p s' t) :
    s'.Spoken py p := by
  apply h.called hc he.1
  rcases he.2 with hid | hopen
  · exact .unsent hid
  · exact .unreturned hopen

end State

variable {s s' : State} {a : Action}

open State in
theorem step_spoken (h : (answering py p).step s a = some s') (ht : s.Told) (hs : s.Spoken py p) :
    s'.Spoken py p := by
  obtain ⟨-, hm⟩ := Machine.restrict_step h
  have h : step py p s a = some s' := hm
  rcases step_cases h ht.tabled with ⟨t, hcaller, hc⟩ | ⟨g, e, rfl, he, rfl⟩
  · cases a with
    | call u op w =>
      cases hcaller
      simp only [step] at h
      split at h
      · cases h
        have hid : ((s.setCall t { op }).calls t).id = none := by
          simp only [setCall, Function.update_self]
        exact hs.embarks hc (invoke_embarks w hid)
      · cases h
    | resume u ok =>
      cases hcaller
      cases h₀ : (s.calls t).pc.awaiting with
      | some id =>
        obtain ⟨pc, hcall, -⟩ := resume_awaiting h₀ h
        apply hs.called hc
        · rw [hcall]
          exact (hs.addressed t).mono rfl rfl hc.written
        · exact resume_repeats (ht.tabled.calls t) ht.heard h₀ h
      | none =>
        exact hs.embarks hc (parked_embarks (ht.leased.parked t) (hs.addressed t) h₀ h)
    | cancel u =>
      cases hcaller
      have hcall := (cancel_call h).1
      apply hs.called hc
      · rw [hcall]
        exact (hs.addressed t).mono rfl rfl hc.written
      · rw [hcall]
        exact hs.repeats t
    | signal g => cases hcaller
  · obtain ⟨new, hnew⟩ := step_responses ht.tabled h
    have hwritten : (s.setEngine e).desk.written = s.desk.written := by
      rcases Engine.step_desk he with hd | ⟨b, r, -, -, rfl⟩ | ⟨x, rfl⟩
      · exact congrArg Desk.written hd
      · exact (s.desk.answer_frame r).1
      · rfl
    constructor
    · intro t
      rw [hwritten]
      exact hs.addressed t
    · intro t
      rw [hnew]
      exact (hs.repeats t).append new

end KestrelSdk.Client

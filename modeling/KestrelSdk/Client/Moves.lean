import KestrelSdk.Client.Step

namespace KestrelSdk.Client

open Json Protocol Asyncio

/-- The request that a call awaits. -/
def CallPc.awaiting : CallPc → Option Nat
  | .draining id => some id
  | .waiting id => some id
  | _ => none

/-- A direct `request` ends with what its future holds: a result or a remote error is that of the
future under the identifier it wrote. -/
def Call.Faithful (futures : Nat → Future) (c : Call) : Prop :=
  ∀ m p r, c.op = .request m p → c.pc = .finished r →
    (∀ v, r = .ok v → ∃ id, c.id = some id ∧ futures id = .done (.ok v)) ∧
    ∀ text, r = .error (.remote text) →
      ∃ id, c.id = some id ∧ futures id = .done (.error (.remote text))

/-- A call that awaits a request knows its identifier, and a direct `request` waits for nothing
else. -/
structure Call.Sound (c : Call) : Prop where
  id : ∀ id, c.pc.awaiting = some id → c.id = some id
  other : c.pc = .lifecycle ∨ c.pc = .closing → ∀ m p, c.op ≠ .request m p

theorem Call.Sound.finished {c : Call} {r : Except Raised Value} (h : c.pc = .finished r) :
    c.Sound := by
  constructor
  · intro id hid
    rw [h] at hid
    cases hid
  · intro hl
    rw [h] at hl
    simp at hl

/-- The frame of a direct `request` is among those written. -/
def Call.Wrote (written : List Frame) (c : Call) : Prop :=
  ∀ m p id, c.op = .request m p → c.id = some id → ⟨id, m, p⟩ ∈ written

theorem Call.Faithful.unfinished {futures : Nat → Future} {c : Call}
    (h : ∀ r, c.pc ≠ .finished r) : c.Faithful futures :=
  fun _ _ r _ hr => absurd hr (h r)

theorem Call.Faithful.error {futures : Nat → Future} {c : Call} {e : Raised}
    (h : ∀ m p, c.op = .request m p → c.pc = .finished (.error e)) (he : ∀ text, e ≠ .remote text) :
    c.Faithful futures := by
  intro m p r hc hr
  rw [h m p hc] at hr
  cases hr
  constructor
  · intro v hv
    cases hv
  · intro text ht
    injection ht with ht
    exact absurd ht (he text)

namespace State

/-- What a step of call `t` does to the client. -/
inductive CallMove (s s' : State) (t : Tid) : Prop where
  | inert (hpc : (s'.calls t).pc.awaiting = (s.calls t).pc.awaiting) (he : s'.toEngine = s.toEngine)
  | closes (hpc : (s'.calls t).pc.awaiting = none) (h₀ : (s.calls t).pc.awaiting = none)
      (hs : s'.shutdownStarted = true) (he : s'.toEngine = s.createCloseTask)
  | starts (hpc : (s'.calls t).pc.awaiting = none) (h₀ : (s.calls t).pc.awaiting = none)
      (hx : s.closedExc = none) (he : s'.toEngine = s.createReadTask)
  | sends (method : Str) (params : Dict)
      (hpc : (s'.calls t).pc.awaiting = some (s.desk.nextId + 1))
      (h₀ : (s.calls t).pc.awaiting = none) (hx : s.closedExc = none)
      (hm : ∀ m p, (s'.calls t).op = .request m p → m = method ∧ p = params)
      (he : s'.toEngine =
        { s.createReadTask with desk := s.desk.enroll.write method params })
  | refused (hpc : (s'.calls t).pc.awaiting = none) (h₀ : (s.calls t).pc.awaiting = none)
      (hx : s.closedExc = none)
      (he : s'.toEngine = { s.createReadTask with
        desk := s.desk.enroll.abandon (s.desk.nextId + 1) })
  | ends (id : Nat) (hpc : (s'.calls t).pc.awaiting = none)
      (h₀ : (s.calls t).pc.awaiting = some id)
      (he : s'.toEngine = { s.toEngine with desk := s.desk.abandon id })
  | cancels (id : Nat) (hpc : (s'.calls t).pc = (s.calls t).pc) (h₀ : (s.calls t).pc.awaiting = some id)
      (he : s'.toEngine = { s.toEngine with desk := s.desk.cancel id })

/-- Where the identifier of a call comes from. -/
inductive Traced (s s' : State) (t : Tid) : Prop where
  | none (hid : (s'.calls t).id = none)
  | kept (hid : (s'.calls t).id = (s.calls t).id) (hop : (s'.calls t).op = (s.calls t).op)
  | sent (method : Str) (params : Dict) (hid : (s'.calls t).id = some (s.desk.nextId + 1))
      (hm : ∀ m p, (s'.calls t).op = .request m p → m = method ∧ p = params)
      (hw : ⟨s.desk.nextId + 1, method, params⟩ ∈ s'.desk.written)
      (hn : s'.desk.nextId = s.desk.nextId + 1)

/-- A step of call `t`: the other calls stand still, and a direct `request` that ends is faithful
to its future. -/
structure Called (s s' : State) (t : Tid) : Prop where
  others : ∀ u, u ≠ t → s'.calls u = s.calls u
  shutdown : s.shutdownStarted = true → s'.shutdownStarted = true
  sound : (s'.calls t).Sound
  faithful : (s'.calls t).Faithful s.desk.futures
  traced : Traced s s' t
  move : CallMove s s' t

/-- Call `t` ends without touching the engine. -/
structure Ended (s s' : State) (t : Tid) (r : Except Raised Value) : Prop where
  engine : s'.toEngine = s.toEngine
  calls : s'.calls = Function.update s.calls t { s.calls t with pc := .finished r }
  shutdown : s'.shutdownStarted = s.shutdownStarted

variable {s s₁ s' : State} {t : Tid} {r : Except Raised Value}

theorem Ended.refl (s : State) (t : Tid) (r : Except Raised Value) : Ended s (s.finish t r) t r :=
  ⟨rfl, rfl, rfl⟩

theorem Ended.call (h : Ended s s' t r) : s'.calls t = { s.calls t with pc := .finished r } := by
  rw [h.calls, Function.update_self]

theorem Ended.others (h : Ended s s' t r) (u : Tid) (hu : u ≠ t) : s'.calls u = s.calls u := by
  rw [h.calls, Function.update_of_ne hu]

/-- `fail` ends the call, a direct `request` with the exception itself. -/
theorem fail_ended (s : State) (t : Tid) (e : Raised) :
    ∃ r, Ended s (s.fail t e) t r ∧ ∀ m p, (s.calls t).op = .request m p → r = .error e := by
  unfold fail
  split
  · rename_i hop
    split
    · exact ⟨_, ⟨rfl, rfl, rfl⟩, fun _ _ _ => rfl⟩
    · dsimp only
      split
      · refine ⟨_, ⟨rfl, rfl, rfl⟩, fun m p h => ?_⟩
        rw [hop] at h
        cases h
      · refine ⟨_, ⟨rfl, rfl, rfl⟩, fun m p h => ?_⟩
        rw [hop] at h
        cases h
  · exact ⟨_, ⟨rfl, rfl, rfl⟩, fun _ _ _ => rfl⟩
  · rename_i hop
    split
    · exact ⟨_, ⟨rfl, rfl, rfl⟩, fun _ _ _ => rfl⟩
    · refine ⟨_, ⟨rfl, rfl, rfl⟩, fun m p h => ?_⟩
      rw [hop] at h
      cases h
  · exact ⟨_, ⟨rfl, rfl, rfl⟩, fun _ _ _ => rfl⟩

theorem completeHealth_ended (s : State) (t : Tid) (v : Value) :
    ∃ r, Ended s (s.completeHealth t v) t r := by
  unfold completeHealth
  split
  · split
    · exact ⟨_, rfl, rfl, rfl⟩
    · split
      · exact ⟨_, rfl, rfl, rfl⟩
      · exact ⟨_, rfl, rfl, rfl⟩
  · exact ⟨_, rfl, rfl, rfl⟩

theorem completeListTools_ended (s : State) (t : Tid) (v : Value) :
    ∃ r, Ended s (s.completeListTools t v) t r := by
  unfold completeListTools
  dsimp only
  split
  · split
    · split
      · exact ⟨_, rfl, rfl, rfl⟩
      · exact ⟨_, rfl, rfl, rfl⟩
      · exact ⟨_, rfl, rfl, rfl⟩
    · exact ⟨_, rfl, rfl, rfl⟩
  · exact ⟨_, rfl, rfl, rfl⟩

theorem completeInitialize_ended (p : Str) (s : State) (t : Tid) (v : Value) :
    ∃ r, Ended s (s.completeInitialize p t v) t r := by
  unfold completeInitialize
  dsimp only
  split
  · split
    · split
      · split
        · exact ⟨_, rfl, rfl, rfl⟩
        · split
          · exact ⟨_, rfl, rfl, rfl⟩
          · exact ⟨_, rfl, rfl, rfl⟩
      · exact ⟨_, rfl, rfl, rfl⟩
    · exact ⟨_, rfl, rfl, rfl⟩
  · exact ⟨_, rfl, rfl, rfl⟩

theorem completeTransition_ended (s : State) (t : Tid) (v : Value) :
    ∃ r, Ended s (s.completeTransition t v) t r := by
  unfold completeTransition
  dsimp only
  split
  · split
    · exact ⟨_, rfl, rfl, rfl⟩
    · exact ⟨_, rfl, rfl, rfl⟩
    · split
      · exact ⟨_, rfl, rfl, rfl⟩
      · exact ⟨_, rfl, rfl, rfl⟩
    · exact ⟨_, rfl, rfl, rfl⟩
  · exact ⟨_, rfl, rfl, rfl⟩

/-- `complete` ends the call, a direct `request` with the result itself. -/
theorem complete_ended (py : Interpreter) (p : Str) (s : State) (t : Tid) (v : Value) :
    ∃ r, Ended s (s.complete py p t v) t r ∧
      ∀ m q, (s.calls t).op = .request m q → r = .ok v := by
  have hnot : ∀ {op : Op} {r : Except Raised Value}, (s.calls t).op = op →
      (∀ m q, op ≠ .request m q) → ∀ m q, (s.calls t).op = .request m q → r = .ok v := by
    intro op r hop hne m q h
    exact absurd (hop.symm.trans h) (hne m q)
  unfold complete
  split
  · rename_i hop
    obtain ⟨r, hr⟩ := completeInitialize_ended p s t v
    exact ⟨r, hr, hnot hop (by simp)⟩
  · rename_i hop
    obtain ⟨r, hr⟩ := completeHealth_ended s t v
    exact ⟨r, hr, hnot hop (by simp)⟩
  · rename_i hop
    obtain ⟨r, hr⟩ := completeListTools_ended s t v
    exact ⟨r, hr, hnot hop (by simp)⟩
  · rename_i hop
    split
    · exact ⟨_, .refl _ _ _, hnot hop (by simp)⟩
    · exact ⟨_, .refl _ _ _, hnot hop (by simp)⟩
  · rename_i hop
    obtain ⟨r, hr⟩ := completeTransition_ended s t v
    exact ⟨r, hr, hnot hop (by simp)⟩
  · rename_i hop
    split
    · exact ⟨_, ⟨rfl, rfl, rfl⟩, hnot hop (by simp)⟩
    · exact ⟨_, ⟨rfl, rfl, rfl⟩, hnot hop (by simp)⟩
  · exact ⟨_, .refl _ _ _, fun _ _ _ => rfl⟩

/-- A call that ends before it has sent anything. -/
theorem Ended.inert {e : Raised} (h : Ended s s' t r) (h₀ : (s.calls t).pc.awaiting = none)
    (hr : ∀ m p, (s.calls t).op = .request m p → r = .error e) (he : ∀ text, e ≠ .remote text) :
    Called s s' t where
  others := h.others
  shutdown hs := by rw [h.shutdown, hs]
  sound := .finished (by rw [h.call])
  faithful := by
    refine .error (e := e) (fun m p hop => ?_) he
    rw [h.call] at hop ⊢
    rw [hr m p hop]
  traced := .kept (by rw [h.call]) (by rw [h.call])
  move := .inert (by rw [h.call, h₀]; rfl) h.engine

/-- A silent change before a step of the call. -/
theorem Called.after (h : Called s₁ s' t) (he : s₁.toEngine = s.toEngine)
    (hc : ∀ u, u ≠ t → s₁.calls u = s.calls u)
    (hw : (s₁.calls t).id = none ∨
      (s₁.calls t).id = (s.calls t).id ∧ (s₁.calls t).op = (s.calls t).op)
    (hs : s.shutdownStarted = true → s₁.shutdownStarted = true)
    (h₁ : (s₁.calls t).pc.awaiting = none) (h₀ : (s.calls t).pc.awaiting = none) :
    Called s s' t where
  others u hu := (h.others u hu).trans (hc u hu)
  shutdown hsd := h.shutdown (hs hsd)
  sound := h.sound
  faithful := he ▸ h.faithful
  traced := by
    cases h.traced with
    | none hid => exact .none hid
    | kept hid hop =>
      rcases hw with h₁ | ⟨h₁, h₂⟩
      · exact .none (hid.trans h₁)
      · exact .kept (hid.trans h₁) (hop.trans h₂)
    | sent m p hid hm hwr hn => exact .sent m p (he ▸ hid) hm (he ▸ hwr) (he ▸ hn)
  move := by
    cases h.move with
    | inert hpc heq => exact .inert (by rw [hpc, h₁, h₀]) (heq.trans he)
    | closes hpc _ hsd heq => exact .closes hpc h₀ hsd (he ▸ heq)
    | starts hpc _ hx heq => exact .starts hpc h₀ (he ▸ hx) (he ▸ heq)
    | sends m p hpc _ hx hm heq => exact .sends m p (he ▸ hpc) h₀ (he ▸ hx) hm (he ▸ heq)
    | refused hpc _ hx heq => exact .refused hpc h₀ (he ▸ hx) (he ▸ heq)
    | ends id _ hw _ =>
      rw [h₁] at hw
      cases hw
    | cancels id _ hw _ =>
      rw [h₁] at hw
      cases hw

theorem request_called (py : Interpreter) (s : State) (t : Tid) (method : Str) (params : Dict)
    (writeOk : Bool) (h₀ : (s.calls t).pc.awaiting = none)
    (hm : ∀ m p, (s.calls t).op = .request m p → m = method ∧ p = params) :
    Called s (s.request py t method params writeOk) t := by
  have hdesk : s.createReadTask.desk = s.desk := s.toEngine.createReadTask_desk
  unfold request
  split
  · obtain ⟨r, hr, hop⟩ := s.fail_ended t (.terminal _)
    exact hr.inert h₀ hop (by simp)
  · rename_i hx
    dsimp only
    have hfail : ∀ (e : Raised) (d : Desk), (∀ text, e ≠ .remote text) →
        d = s.desk.enroll.abandon (s.desk.nextId + 1) →
        Called s (({ s.setEngine s.createReadTask with desk := d } : State).fail t e) t := by
      intro e d he hd
      obtain ⟨r, hr, hop⟩ := fail_ended ({ s.setEngine s.createReadTask with desk := d } : State) t e
      have hcall := hr.call
      refine ⟨hr.others, fun h => hr.shutdown.trans h, .finished (by rw [hcall]), ?_, ?_, ?_⟩
      · refine .error (e := e) (fun m p h => ?_) he
        rw [hcall] at h ⊢
        rw [hop m p h]
      · exact .kept (by rw [hcall]; rfl) (by rw [hcall]; rfl)
      · refine .refused (by rw [hcall]; rfl) h₀ hx ?_
        rw [hr.engine, hd]
        rfl
    split
    · exact hfail _ _ (by simp) (by rw [← hdesk]; rfl)
    · split
      · refine ⟨fun u hu => ?_, fun h => h, ⟨fun id h => ?_, fun h => ?_⟩, ?_, ?_, ?_⟩
        · simp only [setCall, Function.update_of_ne hu]
          rfl
        · simp only [setCall, Function.update_self] at h ⊢
          exact h
        · simp [setCall] at h
        · refine .unfinished fun r => ?_
          simp [setCall]
        · have hw : (⟨s.desk.nextId + 1, method, params⟩ : Frame) ∈
              (s.createReadTask.desk.enroll.write method params).written := by
            rw [hdesk]
            exact List.mem_append_right _ (List.mem_singleton.2 rfl)
          refine .sent method params ?_ ?_ hw ?_
          · simp only [setCall, Function.update_self]
            show some (s.createReadTask.desk.nextId + 1) = _
            rw [hdesk]
          · intro m p hop
            simp only [setCall, Function.update_self] at hop
            exact hm m p hop
          · show s.createReadTask.desk.nextId + 1 = _
            rw [hdesk]
        · refine .sends method params ?_ h₀ hx ?_ ?_
          · simp only [setCall, Function.update_self]
            show some (s.createReadTask.desk.nextId + 1) = _
            rw [hdesk]
          · intro m p hop
            simp only [setCall, Function.update_self] at hop
            exact hm m p hop
          · show ({ s.createReadTask with desk := s.createReadTask.desk.enroll.write _ _ } : Engine) = _
            rw [hdesk]
      · exact hfail _ _ (by simp) (by rw [← hdesk]; rfl)

theorem refuse_called (s : State) (t : Tid) (e : Raised) (h₀ : (s.calls t).pc.awaiting = none)
    (he : ∀ text, e ≠ .remote text) : Called s (s.finish t (.error e)) t :=
  (Ended.refl s t (.error e)).inert h₀ (fun _ _ _ => rfl) he

theorem lifecycleSection_called (py : Interpreter) (s : State) (t : Tid) (writeOk : Bool)
    (h₀ : (s.calls t).pc.awaiting = none) (hop : ∀ m p, (s.calls t).op ≠ .request m p) :
    Called s (s.lifecycleSection py t writeOk) t := by
  have hrefuse : ∀ e, (∀ text, e ≠ Raised.remote text) →
      Called s (s.releaseLifecycle.finish t (.error e)) t :=
    fun e he => (refuse_called s.releaseLifecycle t e h₀ he).after rfl (fun _ _ => rfl) (.inr ⟨rfl, rfl⟩) id h₀ h₀
  unfold lifecycleSection
  split
  · unfold transition
    dsimp only
    split_ifs
    · exact hrefuse _ (by simp)
    · exact hrefuse _ (by simp)
    · split
      · exact hrefuse _ (by simp)
      · refine (request_called py _ t _ _ writeOk ?_ ?_).after rfl ?_ ?_ id ?_ h₀
        · simpa [setCall] using h₀
        · intro m p h
          simp only [setCall, Function.update_self] at h
          exact absurd h (hop m p)
        · intro u hu
          simp [setCall, hu]
        · simp [setCall]
        · simpa [setCall] using h₀
  · unfold shutdownSection
    split_ifs
    · exact hrefuse _ (by simp)
    · exact (request_called py { s with shutdownStarted := true } t _ _ writeOk h₀
        fun m p h => absurd h (hop m p)).after rfl (fun _ _ => rfl) (.inr ⟨rfl, rfl⟩)
        (fun _ => rfl) h₀ h₀

theorem enterLifecycle_called (py : Interpreter) (s : State) (t : Tid) (writeOk : Bool)
    (h₀ : (s.calls t).pc.awaiting = none) (hop : ∀ m p, (s.calls t).op ≠ .request m p) :
    Called s (s.enterLifecycle py t writeOk) t := by
  unfold enterLifecycle
  split
  · rename_i l _
    exact (lifecycleSection_called py { s with lifecycleLock := l } t writeOk h₀ hop).after rfl
      (fun _ _ => rfl) (.inr ⟨rfl, rfl⟩) id h₀ h₀
  · refine ⟨fun u hu => ?_, id, ⟨fun id h => ?_, fun _ => ?_⟩, .unfinished ?_,
      .kept ?_ ?_, .inert ?_ rfl⟩
    · simp [setPc, setCall, hu]
    · simp [setPc, setCall, CallPc.awaiting] at h
    · simpa [setPc, setCall] using hop
    · simp [setPc, setCall]
    · simp [setPc, setCall]
    · simp [setPc, setCall]
    · rw [h₀]
      simp [setPc, setCall, CallPc.awaiting]

theorem callTool_called (py : Interpreter) (s : State) (t : Tid) (name : Value) (arguments : Dict)
    (context : Option ToolExecutionContext) (writeOk : Bool)
    (h₀ : (s.calls t).pc.awaiting = none) (hop : ∀ m p, (s.calls t).op ≠ .request m p) :
    Called s (s.callTool py t name arguments context writeOk) t := by
  have hreq : ∀ params, Called s (s.request py t TOOLS_CALL params writeOk) t :=
    fun params => request_called py s t _ params writeOk h₀ fun m p h => absurd h (hop m p)
  unfold callTool
  dsimp only
  split_ifs
  · exact refuse_called s t _ h₀ (by simp)
  · exact refuse_called s t _ h₀ (by simp)
  · split
    · exact hreq _
    · split
      · split_ifs
        · exact hreq _
        · exact refuse_called s t _ h₀ (by simp)
      · exact refuse_called s t _ h₀ (by simp)

theorem callHostIngress_called (py : Interpreter) (s : State) (t : Tid) (name payload : Value)
    (writeOk : Bool) (h₀ : (s.calls t).pc.awaiting = none)
    (hop : ∀ m p, (s.calls t).op ≠ .request m p) :
    Called s (s.callHostIngress py t name payload writeOk) t := by
  unfold callHostIngress
  split_ifs
  · exact refuse_called s t _ h₀ (by simp)
  · split
    · split
      · exact refuse_called s t _ h₀ (by simp)
      · split_ifs
        · exact request_called py s t _ _ writeOk h₀ fun m p h => absurd h (hop m p)
        · exact refuse_called s t _ h₀ (by simp)
    · exact refuse_called s t _ h₀ (by simp)

theorem closeCall_called (s : State) (t : Tid) (h₀ : (s.calls t).pc.awaiting = none)
    (hop : ∀ m p, (s.calls t).op ≠ .request m p) :
    Called s (s.closeCall t) t := by
  have hcalls : (s.closeCall t).calls =
      Function.update s.calls t { s.calls t with pc := .closing } := rfl
  refine ⟨fun u hu => ?_, fun _ => rfl, ⟨fun id h => ?_, fun h => ?_⟩, .unfinished fun r => ?_,
    .kept ?_ ?_, .closes ?_ h₀ rfl rfl⟩
  · rw [hcalls, Function.update_of_ne hu]
  · rw [hcalls, Function.update_self] at h
    cases h
  · rw [hcalls, Function.update_self]
    exact hop
  · rw [hcalls, Function.update_self]
    simp
  · rw [hcalls, Function.update_self]
  · rw [hcalls, Function.update_self]
  · rw [hcalls, Function.update_self]
    rfl

theorem invoke_called (py : Interpreter) (v : Str) (s : State) (t : Tid) (writeOk : Bool)
    (h₀ : (s.calls t).pc.awaiting = none) : Called s (s.invoke py v t writeOk) t := by
  have hlocal : ∀ (s₁ : State) (r : Except Raised Value), s₁.toEngine = s.toEngine →
      s₁.calls = s.calls → s₁.shutdownStarted = s.shutdownStarted →
      (∀ m p, (s.calls t).op ≠ .request m p) → Called s (s₁.finish t r) t := by
    intro s₁ r he hc hs hop
    have hcall := (Ended.refl s₁ t r).call
    rw [hc] at hcall
    refine ⟨fun u hu => ?_, fun h => hs.trans h, .finished (by rw [hcall]), fun m p r' h => ?_,
      .kept (by rw [hcall]) (by rw [hcall]), .inert ?_ he⟩
    · simp [finish, setPc, setCall, hu, hc]
    · rw [hcall] at h
      exact absurd h (hop m p)
    · rw [h₀]
      simp [finish, setPc, setCall, CallPc.awaiting]
  have hreq : ∀ {op : Op} (m : Str) (q : Dict), (s.calls t).op = op →
      (∀ m p, op ≠ .request m p) → Called s (s.request py t m q writeOk) t := by
    intro op m q hop hne
    exact request_called py s t m q writeOk h₀ fun m' p' h => absurd (hop.symm.trans h) (hne m' p')
  unfold invoke
  split
  · rename_i hop
    split
    · exact refuse_called s t _ h₀ (by simp)
    · rename_i hx
      have hcall := (Ended.refl (s.setEngine s.createReadTask) t (.ok .none)).call
      refine ⟨(Ended.refl (s.setEngine s.createReadTask) t _).others, fun h => h,
        .finished (by rw [hcall]), fun m p r h => ?_,
        .kept (by rw [hcall]; rfl) (by rw [hcall]; rfl), .starts (by rw [hcall]; rfl) h₀ hx rfl⟩
      rw [hcall] at h
      exact absurd (hop.symm.trans h) (by simp)
  · rename_i m p hop
    refine request_called py s t m p writeOk h₀ fun m' p' h => ?_
    rw [hop] at h
    cases h
    exact ⟨rfl, rfl⟩
  · rename_i hop
    exact hreq _ _ hop (by simp)
  · rename_i hop
    split_ifs
    · exact hlocal _ _ rfl rfl rfl (by simp [hop])
    · exact hreq _ _ hop (by simp)
  · rename_i hop
    split_ifs
    · exact refuse_called s t _ h₀ (by simp)
    · exact refuse_called s t _ h₀ (by simp)
    · exact hreq _ _ hop (by simp)
  · rename_i hop
    exact callTool_called py s t _ _ _ writeOk h₀ (by simp [hop])
  · rename_i hop
    exact callHostIngress_called py s t _ _ writeOk h₀ (by simp [hop])
  · rename_i hop
    split
    · exact refuse_called s t _ h₀ (by simp)
    · exact enterLifecycle_called py s t writeOk h₀ (by simp [hop])
  · exact refuse_called s t _ h₀ (by simp)
  · rename_i hop
    exact enterLifecycle_called py s t writeOk h₀ (by simp [hop])
  · rename_i hop
    exact closeCall_called s t h₀ (by simp [hop])

/-- Call `t` ends with what its request's future holds. -/
theorem Ended.ends {id : Nat} (h : Ended { s with desk := s.desk.abandon id } s' t r)
    (h₀ : (s.calls t).pc.awaiting = some id)
    (hf : ∀ m p, (s.calls t).op = .request m p →
      (∀ v, r = .ok v → ∃ id, (s.calls t).id = some id ∧ s.desk.futures id = .done (.ok v)) ∧
      ∀ text, r = .error (.remote text) →
        ∃ id, (s.calls t).id = some id ∧ s.desk.futures id = .done (.error (.remote text))) :
    Called s s' t where
  others := h.others
  shutdown hs := by rw [h.shutdown, hs]
  sound := .finished (by rw [h.call])
  faithful m p r' hop hr' := by
    rw [h.call] at hop hr' ⊢
    injection hr' with hr'
    subst hr'
    exact hf m p hop
  traced := .kept (by rw [h.call]) (by rw [h.call])
  move := .ends id (by rw [h.call]; rfl) h₀ h.engine

theorem unwind_called (s : State) (t : Tid) (id : Nat) (e : Raised)
    (h₀ : (s.calls t).pc.awaiting = some id)
    (he : ∀ text, e = .remote text →
      ∃ id, (s.calls t).id = some id ∧ s.desk.futures id = .done (.error (.remote text))) :
    Called s (s.unwind t id e) t := by
  obtain ⟨r, hr, hop⟩ := fail_ended ({ s with desk := s.desk.abandon id } : State) t e
  refine hr.ends h₀ fun m p hreq => ?_
  have hre := hop m p hreq
  subst hre
  constructor
  · intro v hv
    cases hv
  · intro text ht
    injection ht with ht
    exact he text ht

theorem resume_called {py : Interpreter} {p : Str} {ok : Bool} (hc : (s.calls t).Sound)
    (h : s.resume py p t ok = some s') : Called s s' t := by
  unfold resume at h
  dsimp only at h
  split at h
  · rename_i hpc
    have h₀ : (s.calls t).pc.awaiting = none := by rw [hpc]; rfl
    split_ifs at h
    · cases h
      exact (refuse_called { s with lifecycleLock := s.lifecycleLock.release } t _ h₀
        (by simp)).after rfl (fun _ _ => rfl) (.inr ⟨rfl, rfl⟩) (fun hs => hs) h₀ h₀
    · cases h
      exact (refuse_called { s with lifecycleLock := s.lifecycleLock.cancelWaiter t } t _ h₀
        (by simp)).after rfl (fun _ _ => rfl) (.inr ⟨rfl, rfl⟩) (fun hs => hs) h₀ h₀
    · cases h
      exact lifecycleSection_called py s t ok h₀ (hc.other (.inl hpc))
  · rename_i id hpc
    have h₀ : (s.calls t).pc.awaiting = some id := by rw [hpc]; rfl
    split_ifs at h
    · cases h
      exact unwind_called s t id _ h₀ (by simp)
    · cases h
      have hcall : (s.setPc t (.waiting id)).calls t = { s.calls t with pc := .waiting id } := by
        simp [setPc, setCall]
      refine ⟨fun u hu => ?_, fun hs => hs, ⟨fun i hi => ?_, fun hl => ?_⟩, .unfinished fun r => ?_,
        .kept (by rw [hcall]) (by rw [hcall]), .inert ?_ rfl⟩
      · simp [setPc, setCall, hu]
      · rw [hcall] at hi ⊢
        exact hc.id i (h₀.trans hi)
      · rw [hcall] at hl
        simp at hl
      · rw [hcall]
        simp
      · rw [hcall, h₀]
        rfl
    · cases h
      exact unwind_called s t id _ h₀ (by simp)
  · rename_i id hpc
    have h₀ : (s.calls t).pc.awaiting = some id := by rw [hpc]; rfl
    split at h
    · cases h
    · cases h
      exact unwind_called s t id _ h₀ (by simp)
    · rename_i r hr
      split_ifs at h
      · cases h
        exact unwind_called s t id _ h₀ (by simp)
      · split at h
        · rename_i v
          cases h
          obtain ⟨r, he, hop⟩ :=
            complete_ended py p ({ s with desk := s.desk.abandon id } : State) t v
          refine he.ends h₀ fun m q hreq => ?_
          have hrv := hop m q hreq
          subst hrv
          constructor
          · intro w hw
            cases hw
            exact ⟨id, hc.id id h₀, hr⟩
          · intro text ht
            cases ht
        · rename_i m
          cases h
          refine unwind_called s t id _ h₀ fun text ht => ?_
          cases ht
          exact ⟨id, hc.id id h₀, hr⟩
        · cases h
          exact unwind_called s t id _ h₀ (by simp)
  · rename_i hpc
    have h₀ : (s.calls t).pc.awaiting = none := by rw [hpc]; rfl
    split_ifs at h
    · cases h
      exact refuse_called s t _ h₀ (by simp)
    · split at h
      · cases h
        have hcall : (s.finish t (.ok .none)).calls t =
            { s.calls t with pc := .finished (.ok .none) } := (Ended.refl s t _).call
        refine ⟨(Ended.refl s t _).others, fun hs => hs, .finished (by rw [hcall]), ?_,
          .kept (by rw [hcall]) (by rw [hcall]), ?_⟩
        · intro m q r hop
          rw [hcall] at hop
          exact absurd hop (hc.other (.inr hpc) m q)
        · exact .inert (by rw [hcall, h₀]; rfl) rfl
      · cases h
  · cases h

theorem cancel_called (hc : (s.calls t).Sound) (h : s.cancel t = some s') : Called s s' t := by
  unfold cancel at h
  dsimp only at h
  have hflag : ∀ s₁ : State, s₁.calls = s.calls → s₁.shutdownStarted = s.shutdownStarted →
      (∀ r, (s.calls t).pc ≠ .finished r) →
      CallMove s (s₁.setCall t { s.calls t with cancel := true }) t →
      Called s (s₁.setCall t { s.calls t with cancel := true }) t := by
    intro s₁ h₁ h₂ hr hm
    have hcall : (s₁.setCall t { s.calls t with cancel := true }).calls t =
        { s.calls t with cancel := true } := by simp [setCall]
    refine ⟨fun u hu => ?_, fun hs => h₂.trans hs, ⟨fun i hi => ?_, fun hl => ?_⟩,
      .unfinished fun r => ?_, .kept (by rw [hcall]) (by rw [hcall]), hm⟩
    · simp [setCall, hu, h₁]
    · rw [hcall] at hi ⊢
      exact hc.id i hi
    · rw [hcall] at hl ⊢
      exact hc.other hl
    · rw [hcall]
      exact hr r
  split at h
  · cases h
  · cases h
  · rename_i id hpc
    cases h
    refine hflag _ rfl rfl (by simp [hpc]) (.cancels id ?_ ?_ rfl)
    · simp [setCall]
    · rw [hpc]
      rfl
  · rename_i hidle hfin hwait
    cases h
    refine hflag _ rfl rfl hfin (.inert ?_ rfl)
    simp [setCall]

end State

/-- The call that an action runs. -/
def Action.caller : Action → Option Tid
  | .call t _ _ => some t
  | .resume t _ => some t
  | .cancel t => some t
  | _ => none

open State in
/-- What an action of call `t` does. -/
theorem step_called {py : Interpreter} {p : Str} {s s' : State} {a : Action} {t : Tid}
    (ha : a.caller = some t) (hc : (s.calls t).Sound) (h : step py p s a = some s') :
    Called s s' t := by
  cases a with
  | call u op writeOk =>
    cases ha
    simp only [step] at h
    split at h
    · rename_i hpc
      cases h
      have hcall : (s.setCall t { op }).calls t = { op } := by simp [setCall]
      refine (invoke_called py p (s.setCall t { op }) t writeOk ?_).after rfl ?_ ?_ (fun hs => hs) ?_ ?_
      · rw [hcall]
        rfl
      · intro u hu
        simp [setCall, hu]
      · exact .inl (by rw [hcall])
      · rw [hcall]
        rfl
      · rw [hpc]
        rfl
    · cases h
  | resume u ok =>
    cases ha
    exact resume_called hc h
  | cancel u =>
    cases ha
    exact cancel_called hc h
  | signal g => cases ha

end KestrelSdk.Client

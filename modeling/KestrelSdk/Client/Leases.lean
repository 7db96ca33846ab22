import KestrelSdk.Client.Closing

/-! The calls under the lifecycle lock: what a config transition leaves of the lock and the fence. -/

namespace KestrelSdk.Client

open Json Protocol Asyncio

/-- The operations under the lifecycle lock. -/
def Op.locks : Op → Bool
  | .prepareConfigTransition _ => true
  | .shutdown => true
  | _ => false

/-- The request of a config transition. -/
def transitionFrame (id : Nat) (nextConfig : Dict) : Frame :=
  ⟨id, CONFIG_TRANSITION, [(.str (str "config"), .dict nextConfig)]⟩

/-- The frame of a config transition is among those written. -/
def Call.Announced (written : List Frame) (c : Call) : Prop :=
  ∀ v id, c.op = .prepareConfigTransition v → c.id = some id →
    ∃ d, v = .dict d ∧ transitionFrame id d ∈ written

namespace State

/-- A step that leaves the lifecycle lock and the fence alone. -/
structure Aside (s s' : State) : Prop where
  lock : s'.lifecycleLock = s.lifecycleLock
  restart : s'.restartRequired = s.restartRequired

variable {s s₁ s' : State} {t : Tid}

theorem Aside.refl (s : State) : Aside s s := ⟨rfl, rfl⟩

/-- What a step of call `t` does to the lifecycle lock: nothing to the lock of another call, it
leaves its own, or it sends its request under it. -/
inductive LockMove (s s' : State) (t : Tid) : Prop where
  | aside (hl : s'.lifecycleLock.owner = s.lifecycleLock.owner)
      (hr : s'.restartRequired = s.restartRequired)
      (hc : (s'.calls t).op.locks = true →
        (s'.calls t).pc.awaiting = none ∧ (s'.calls t).id = none ∨
        (s'.calls t).op = (s.calls t).op ∧ (s'.calls t).id = (s.calls t).id ∧
          ((s'.calls t).pc.awaiting = none ∨
            (s'.calls t).pc.awaiting = (s.calls t).pc.awaiting))
  | frees (ho : s.lifecycleLock.owner = none ∨ s.lifecycleLock.owner = some t)
      (hpc : (s'.calls t).pc.awaiting = none)
      (hc : (s'.calls t).id = none ∨
        (s'.calls t).op = (s.calls t).op ∧ (s'.calls t).id = (s.calls t).id)
  | sends (ho : s.lifecycleLock.owner = none ∨ s.lifecycleLock.owner = some t)
      (ho' : s'.lifecycleLock.owner = some t) (hr : s'.restartRequired = s.restartRequired)
      (hf : ∀ v, (s'.calls t).op = .prepareConfigTransition v → s.restartRequired = false)
      (hw : (s'.calls t).Announced s'.desk.written)

theorem finish_calls (s : State) (t : Tid) (r : Except Raised Value) :
    (s.finish t r).calls t = { s.calls t with pc := .finished r } := by
  simp only [finish, setPc, setCall, Function.update_self]

theorem fail_aside (s : State) (t : Tid) (e : Raised) (hop : (s.calls t).op.locks = false) :
    Aside s (s.fail t e) := by
  unfold fail
  split
  · rename_i hop'
    rw [hop'] at hop
    cases hop
  · rename_i hop'
    rw [hop'] at hop
    cases hop
  · split
    · exact ⟨rfl, rfl⟩
    · exact ⟨rfl, rfl⟩
  · exact ⟨rfl, rfl⟩

theorem request_aside (py : Interpreter) (s : State) (t : Tid) (method : Str) (params : Dict)
    (writeOk : Bool) (hop : (s.calls t).op.locks = false) :
    Aside s (s.request py t method params writeOk) := by
  have hfail : ∀ (d : Desk) (e : Raised),
      Aside s (({ s.setEngine s.createReadTask with desk := d } : State).fail t e) := by
    intro d e
    obtain ⟨hl, hr⟩ :=
      fail_aside ({ s.setEngine s.createReadTask with desk := d } : State) t e hop
    exact ⟨hl, hr⟩
  unfold request
  split
  · exact fail_aside s t _ hop
  · dsimp only
    split
    · exact hfail _ _
    · split
      · exact ⟨rfl, rfl⟩
      · exact hfail _ _

theorem callTool_aside (py : Interpreter) (s : State) (t : Tid) (name : Value) (arguments : Dict)
    (context : Option ToolExecutionContext) (writeOk : Bool) (hop : (s.calls t).op.locks = false) :
    Aside s (s.callTool py t name arguments context writeOk) := by
  unfold callTool
  dsimp only
  split_ifs
  · exact ⟨rfl, rfl⟩
  · exact ⟨rfl, rfl⟩
  · split
    · exact request_aside py s t _ _ writeOk hop
    · split
      · split_ifs
        · exact request_aside py s t _ _ writeOk hop
        · exact ⟨rfl, rfl⟩
      · exact ⟨rfl, rfl⟩

theorem callHostIngress_aside (py : Interpreter) (s : State) (t : Tid) (name payload : Value)
    (writeOk : Bool) (hop : (s.calls t).op.locks = false) :
    Aside s (s.callHostIngress py t name payload writeOk) := by
  unfold callHostIngress
  split_ifs
  · exact ⟨rfl, rfl⟩
  · split
    · split
      · exact ⟨rfl, rfl⟩
      · split_ifs
        · exact request_aside py s t _ _ writeOk hop
        · exact ⟨rfl, rfl⟩
    · exact ⟨rfl, rfl⟩

theorem completeInitialize_aside (p : Str) (s : State) (t : Tid) (v : Value) :
    Aside s (s.completeInitialize p t v) := by
  unfold completeInitialize
  dsimp only
  split
  · split
    · split_ifs
      · split
        · exact ⟨rfl, rfl⟩
        · split
          · exact ⟨rfl, rfl⟩
          · exact ⟨rfl, rfl⟩
      · exact ⟨rfl, rfl⟩
    · exact ⟨rfl, rfl⟩
  · exact ⟨rfl, rfl⟩

theorem completeHealth_aside (s : State) (t : Tid) (v : Value) :
    Aside s (s.completeHealth t v) := by
  unfold completeHealth
  split
  · split
    · exact ⟨rfl, rfl⟩
    · split
      · exact ⟨rfl, rfl⟩
      · exact ⟨rfl, rfl⟩
  · exact ⟨rfl, rfl⟩

theorem completeListTools_aside (s : State) (t : Tid) (v : Value) :
    Aside s (s.completeListTools t v) := by
  unfold completeListTools
  dsimp only
  split
  · split
    · split
      · exact ⟨rfl, rfl⟩
      · exact ⟨rfl, rfl⟩
      · exact ⟨rfl, rfl⟩
    · exact ⟨rfl, rfl⟩
  · exact ⟨rfl, rfl⟩

theorem complete_aside (py : Interpreter) (p : Str) (s : State) (t : Tid) (v : Value)
    (hop : (s.calls t).op.locks = false) : Aside s (s.complete py p t v) := by
  unfold complete
  split
  · exact completeInitialize_aside p s t v
  · exact completeHealth_aside s t v
  · exact completeListTools_aside s t v
  · split
    · exact ⟨rfl, rfl⟩
    · exact ⟨rfl, rfl⟩
  · rename_i hop'
    rw [hop'] at hop
    cases hop
  · rename_i hop'
    rw [hop'] at hop
    cases hop
  · exact ⟨rfl, rfl⟩

/-- `fail` ends the call with an exception. -/
theorem fail_call (s : State) (t : Tid) (e : Raised) :
    ∃ e', (s.fail t e).calls t = { s.calls t with pc := .finished (.error e') } := by
  unfold fail
  split
  · split
    · exact ⟨_, finish_calls _ t _⟩
    · dsimp only
      split
      · exact ⟨_, finish_calls _ t _⟩
      · exact ⟨_, finish_calls _ t _⟩
  · exact ⟨_, finish_calls _ t _⟩
  · split
    · exact ⟨_, finish_calls _ t _⟩
    · exact ⟨_, finish_calls _ t _⟩
  · exact ⟨_, finish_calls _ t _⟩

/-- `request` ends the call with an exception, or sends its frame. -/
theorem request_outcome (py : Interpreter) (s : State) (t : Tid) (method : Str) (params : Dict)
    (writeOk : Bool) :
    (∃ e, (s.request py t method params writeOk).calls t =
      { s.calls t with pc := .finished (.error e) }) ∨
    Aside s (s.request py t method params writeOk) ∧
      (s.request py t method params writeOk).calls t =
        { s.calls t with pc := .draining (s.desk.nextId + 1), id := some (s.desk.nextId + 1) } ∧
      ⟨s.desk.nextId + 1, method, params⟩ ∈ (s.request py t method params writeOk).desk.written := by
  have hdesk : s.createReadTask.desk = s.desk := s.toEngine.createReadTask_desk
  unfold request
  split
  · exact .inl (fail_call s t _)
  · dsimp only
    split
    · exact .inl (fail_call _ t _)
    · split
      · right
        have hid : (s.setEngine s.createReadTask).desk.enroll.nextId = s.desk.nextId + 1 :=
          congrArg (fun d : Desk => d.nextId + 1) hdesk
        refine ⟨⟨rfl, rfl⟩, ?_, ?_⟩
        · simp only [setCall, Function.update_self, hid]
          rfl
        · simp only [setCall, Desk.write, hid]
          exact List.mem_append_right _ (List.mem_singleton.2 rfl)
      · exact .inl (fail_call _ t _)

/-- The section under the lifecycle lock, of the call that owns it. -/
theorem lifecycleSection_move (py : Interpreter) (s : State) (t : Tid) (writeOk : Bool)
    (l : FifoLock) (hl : l.owner = some t)
    (ho : s.lifecycleLock.owner = none ∨ s.lifecycleLock.owner = some t)
    (hid : (s.calls t).id = none)
    (hd : ∀ v, (s.calls t).op = .prepareConfigTransition v → ∃ d, v = .dict d) :
    LockMove s (({ s with lifecycleLock := l } : State).lifecycleSection py t writeOk) t := by
  have hrefuse : ∀ e, LockMove s
      (({ s with lifecycleLock := l } : State).releaseLifecycle.finish t (.error e)) t := by
    intro e
    apply LockMove.frees ho
    · rw [finish_calls]
      rfl
    · left
      rw [finish_calls]
      exact hid
  -- a request that ends before it is sent
  have hended : ∀ (s' : State) (c : Call) (r : Except Raised Value), c.id = none →
      s'.calls t = { c with pc := .finished r } → LockMove s s' t := by
    intro s' c r hc hr
    apply LockMove.frees ho
    · rw [hr]
      rfl
    · left
      rw [hr]
      exact hc
  unfold lifecycleSection
  split
  · rename_i v hv
    obtain ⟨d, rfl⟩ := hd v hv
    unfold transition
    dsimp only
    split_ifs with h1 h2
    · exact hrefuse _
    · exact hrefuse _
    · split
      · exact hrefuse _
      · rename_i c _
        have hcall : (({ s with lifecycleLock := l } : State).setCall t
            { s.calls t with live := c.supportsLiveApply }).calls t =
            { s.calls t with live := c.supportsLiveApply } := by
          simp only [setCall, Function.update_self]
        rcases request_outcome py (({ s with lifecycleLock := l } : State).setCall t
          { s.calls t with live := c.supportsLiveApply }) t
          CONFIG_TRANSITION [(.str (str "config"), .dict d)] writeOk with ⟨r, hr⟩ | ⟨ha, hr, hw⟩
        · rw [hcall] at hr
          exact hended _ { s.calls t with live := c.supportsLiveApply } (.error r) hid hr
        · rw [hcall] at hr
          refine .sends ho (by rw [ha.lock]; exact hl) ha.restart (fun _ _ => ?_) ?_
          · exact Bool.eq_false_iff.2 h2
          · intro w id hw' hid'
            rw [hr] at hw' hid'
            cases hid'
            obtain rfl : w = .dict d := by
              have heq := hv.symm.trans hw'
              cases heq
              rfl
            exact ⟨d, rfl, hw⟩
  · rename_i hne
    unfold shutdownSection
    split
    · exact hrefuse _
    · rcases request_outcome py ({ s with lifecycleLock := l, shutdownStarted := true } : State) t
        SHUTDOWN [] writeOk with ⟨r, hr⟩ | ⟨ha, hr, hw⟩
      · exact hended _ _ (.error r) hid hr
      · refine .sends ho (by rw [ha.lock]; exact hl) ha.restart (fun v hv => ?_) ?_
        · rw [hr] at hv
          exact absurd hv (hne v)
        · intro v id hv _
          rw [hr] at hv
          exact absurd hv (hne v)

theorem enterLifecycle_move (py : Interpreter) (s : State) (t : Tid) (writeOk : Bool)
    (hid : (s.calls t).id = none)
    (hd : ∀ v, (s.calls t).op = .prepareConfigTransition v → ∃ d, v = .dict d) :
    LockMove s (s.enterLifecycle py t writeOk) t := by
  unfold enterLifecycle
  split
  · rename_i l hl
    obtain ⟨hown, hnone⟩ := FifoLock.acquire_owner hl
    exact lifecycleSection_move py s t writeOk l hown (.inl hnone) hid hd
  · rename_i l hl
    obtain ⟨hown, -⟩ := FifoLock.acquire_queued hl
    refine .aside hown rfl fun _ => .inl ?_
    simp only [setPc, setCall, Function.update_self]
    exact ⟨rfl, hid⟩

/-- The first step of a call. -/
theorem invoke_move (py : Interpreter) (p : Str) (s : State) (t : Tid) (writeOk : Bool)
    (hid : (s.calls t).id = none) : LockMove s (s.invoke py p t writeOk) t := by
  have haside : (s.calls t).op.locks = false → Aside s (s.invoke py p t writeOk) →
      LockMove s (s.invoke py p t writeOk) t := by
    intro hop ha
    have hops : ((s.invoke py p t writeOk).calls t).op = (s.calls t).op :=
      congrFun (invoke_ops s writeOk) t
    refine .aside (by rw [ha.lock]) ha.restart fun h => ?_
    rw [hops, hop] at h
    cases h
  have hrefuse : ∀ r, LockMove s (s.finish t r) t := by
    intro r
    refine .aside rfl rfl fun _ => .inl ?_
    rw [finish_calls]
    exact ⟨rfl, hid⟩
  cases hop : (s.calls t).op with
  | prepareConfigTransition v =>
    cases v with
    | dict d =>
      unfold invoke
      simp only [hop]
      split
      · exact hrefuse _
      · apply enterLifecycle_move py s t writeOk hid
        intro w hw
        rw [hop] at hw
        cases hw
        exact ⟨d, rfl⟩
    | _ =>
      unfold invoke
      simp only [hop]
      exact hrefuse _
  | shutdown =>
    unfold invoke
    simp only [hop]
    apply enterLifecycle_move py s t writeOk hid
    intro w hw
    rw [hop] at hw
    cases hw
  | start =>
    apply haside (by rw [hop]; rfl)
    unfold invoke
    simp only [hop]
    split
    · exact ⟨rfl, rfl⟩
    · exact ⟨rfl, rfl⟩
  | request method params =>
    have hlocks : (s.calls t).op.locks = false := by
      rw [hop]
      rfl
    apply haside hlocks
    unfold invoke
    simp only [hop]
    exact request_aside py s t _ _ writeOk hlocks
  | initializeCall clientInfo config =>
    have hlocks : (s.calls t).op.locks = false := by
      rw [hop]
      rfl
    apply haside hlocks
    unfold invoke
    simp only [hop]
    exact request_aside py s t _ _ writeOk hlocks
  | health =>
    have hlocks : (s.calls t).op.locks = false := by
      rw [hop]
      rfl
    apply haside hlocks
    unfold invoke
    simp only [hop]
    split
    · exact ⟨rfl, rfl⟩
    · exact request_aside py s t _ _ writeOk hlocks
  | listTools =>
    have hlocks : (s.calls t).op.locks = false := by
      rw [hop]
      rfl
    apply haside hlocks
    unfold invoke
    simp only [hop]
    split_ifs
    · exact ⟨rfl, rfl⟩
    · exact ⟨rfl, rfl⟩
    · exact request_aside py s t _ _ writeOk hlocks
  | callTool name arguments context =>
    have hlocks : (s.calls t).op.locks = false := by
      rw [hop]
      rfl
    apply haside hlocks
    unfold invoke
    simp only [hop]
    exact callTool_aside py s t _ _ _ writeOk hlocks
  | callHostIngress name payload =>
    have hlocks : (s.calls t).op.locks = false := by
      rw [hop]
      rfl
    apply haside hlocks
    unfold invoke
    simp only [hop]
    exact callHostIngress_aside py s t _ _ writeOk hlocks
  | close =>
    apply haside (by rw [hop]; rfl)
    unfold invoke
    simp only [hop]
    exact ⟨rfl, rfl⟩

/-- A call that stands in the queue of the lifecycle lock. -/
structure Queued (c : Call) : Prop where
  locks : c.op.locks = true
  unsent : c.id = none
  config : ∀ v, c.op = .prepareConfigTransition v → ∃ d, v = .dict d

/-- Standing at an await that is not that of a request. -/
def isParked : CallPc → Bool
  | .lifecycle => true
  | .closing => true
  | _ => false

/-- A call that stands in the queue of the lifecycle lock has sent nothing, and only `close` waits
for the close task. -/
structure Parked (c : Call) : Prop where
  queued : c.pc = .lifecycle → Queued c
  closing : c.pc = .closing → c.op = .close

theorem Parked.of_not {c : Call} (h : isParked c.pc = false) : Parked c := by
  constructor
  · intro hpc
    rw [hpc] at h
    cases h
  · intro hpc
    rw [hpc] at h
    cases h

/-- The calls under the lifecycle lock, the fence and their frames: a call that has sent its request
owns the lock, and a config transition is not fenced before its response. -/
structure Leased (s : State) : Prop where
  owner : ∀ t id, (s.calls t).op.locks = true → (s.calls t).pc.awaiting = some id →
    s.lifecycleLock.owner = some t
  fresh : ∀ t v id, (s.calls t).op = .prepareConfigTransition v →
    (s.calls t).pc.awaiting = some id → s.restartRequired = false
  parked : ∀ t, Parked (s.calls t)
  announced : ∀ t, (s.calls t).Announced s.desk.written

/-- A call that awaited its request and does not any more. -/
theorem ended_move {py : Interpreter} {p : Str} {w : Bool} {id : Nat} (h : s.Leased)
    (h₀ : (s.calls t).pc.awaiting = some id) (hr : s.resume py p t w = some s')
    (hlocks : (s.calls t).op.locks = true) (hpc : (s'.calls t).pc.awaiting = none) :
    LockMove s s' t := by
  obtain ⟨pc, hcall, -⟩ := resume_awaiting h₀ hr
  apply LockMove.frees (.inr (h.owner t id hlocks h₀)) hpc
  right
  rw [hcall]
  exact ⟨rfl, rfl⟩

theorem unwind_aside (s : State) (t : Tid) (id : Nat) (e : Raised)
    (hop : (s.calls t).op.locks = false) : Aside s (s.unwind t id e) := by
  obtain ⟨hl, hr⟩ := fail_aside ({ s with desk := s.desk.abandon id } : State) t e hop
  exact ⟨hl, hr⟩

/-- A call that does not lock and awaits its request. -/
theorem awaiting_aside {py : Interpreter} {p : Str} {w : Bool} {id : Nat}
    (h₀ : (s.calls t).pc.awaiting = some id) (hop : (s.calls t).op.locks = false)
    (h : s.resume py p t w = some s') : Aside s s' := by
  unfold resume at h
  dsimp only at h
  split at h
  · rename_i hpc
    rw [hpc] at h₀
    cases h₀
  · split_ifs at h
    · cases h
      exact unwind_aside s t _ _ hop
    · cases h
      exact ⟨rfl, rfl⟩
    · cases h
      exact unwind_aside s t _ _ hop
  · split at h
    · cases h
    · cases h
      exact unwind_aside s t _ _ hop
    · split_ifs at h
      · cases h
        exact unwind_aside s t _ _ hop
      · split at h
        · cases h
          obtain ⟨hl, hr⟩ :=
            complete_aside py p ({ s with desk := s.desk.abandon _ } : State) t _ hop
          exact ⟨hl, hr⟩
        · cases h
          exact unwind_aside s t _ _ hop
        · cases h
          exact unwind_aside s t _ _ hop
  · rename_i hpc
    rw [hpc] at h₀
    cases h₀
  · cases h

/-- A call that awaits its request and goes on waiting. -/
theorem waiting_aside {py : Interpreter} {p : Str} {w : Bool} {id i : Nat}
    (h₀ : (s.calls t).pc.awaiting = some id) (h : s.resume py p t w = some s')
    (hpc : (s'.calls t).pc.awaiting = some i) : Aside s s' := by
  have hno : ∀ (d : Desk) (e : Raised),
      ((({ s with desk := d } : State).fail t e).calls t).pc.awaiting ≠ some i := by
    intro d e hi
    obtain ⟨r, hr, -⟩ := fail_ended ({ s with desk := d } : State) t e
    rw [hr.call] at hi
    cases hi
  unfold resume at h
  dsimp only at h
  split at h
  · rename_i hl
    rw [hl] at h₀
    cases h₀
  · split_ifs at h
    · cases h
      exact absurd hpc (hno _ _)
    · cases h
      exact ⟨rfl, rfl⟩
    · cases h
      exact absurd hpc (hno _ _)
  · split at h
    · cases h
    · cases h
      exact absurd hpc (hno _ _)
    · split_ifs at h
      · cases h
        exact absurd hpc (hno _ _)
      · split at h
        · cases h
          obtain ⟨r, hr, -⟩ :=
            complete_ended py p ({ s with desk := s.desk.abandon _ } : State) t _
          rw [hr.call] at hpc
          cases hpc
        · cases h
          exact absurd hpc (hno _ _)
        · cases h
          exact absurd hpc (hno _ _)
  · rename_i hl
    rw [hl] at h₀
    cases h₀
  · cases h

theorem resume_move {py : Interpreter} {p : Str} {w : Bool} (hs : s.Leased)
    (h : s.resume py p t w = some s') : LockMove s s' t := by
  cases h₀ : (s.calls t).pc.awaiting with
  | some id =>
    obtain ⟨pc, hcall, hpc⟩ := resume_awaiting h₀ h
    cases hlocks : (s.calls t).op.locks with
    | false =>
      obtain ⟨hl, hr⟩ := awaiting_aside h₀ hlocks h
      refine .aside (by rw [hl]) hr fun hop => ?_
      rw [hcall] at hop
      exact absurd hop (by rw [hlocks]; exact Bool.false_ne_true)
    | true =>
      rcases hpc with hpc | ⟨r, rfl⟩
      · have hwait : (s'.calls t).pc.awaiting = some id := by
          rw [hcall]
          exact hpc
        obtain ⟨hl, hr⟩ := waiting_aside h₀ h hwait
        refine .aside (by rw [hl]) hr fun _ => .inr ⟨?_, ?_, .inr ?_⟩
        · rw [hcall]
        · rw [hcall]
        · rw [hwait, h₀]
      · apply ended_move hs h₀ h hlocks
        rw [hcall]
        rfl
  | none =>
    unfold resume at h
    dsimp only at h
    split at h
    · rename_i hpc
      obtain ⟨-, hid, hd⟩ := (hs.parked t).queued hpc
      split_ifs at h with h1 h2 h3
      · cases h
        apply LockMove.frees (.inr h2)
        · rw [finish_calls]
          rfl
        · rw [finish_calls]
          exact .inl hid
      · cases h
        refine .aside rfl rfl fun _ => .inl ?_
        rw [finish_calls]
        exact ⟨rfl, hid⟩
      · cases h
        exact lifecycleSection_move py s t w s.lifecycleLock h3 (.inr h3) hid hd
    · rename_i hpc
      rw [hpc] at h₀
      cases h₀
    · rename_i hpc
      rw [hpc] at h₀
      cases h₀
    · split_ifs at h
      · cases h
        refine .aside rfl rfl fun _ => .inr ?_
        rw [finish_calls]
        exact ⟨rfl, rfl, .inl rfl⟩
      · split at h
        · cases h
          refine .aside rfl rfl fun _ => .inr ?_
          rw [finish_calls]
          exact ⟨rfl, rfl, .inl rfl⟩
        · cases h
    · cases h

theorem cancel_move (h : s.cancel t = some s') : LockMove s s' t := by
  unfold cancel at h
  dsimp only at h
  split at h
  · cases h
  · cases h
  · cases h
    refine .aside rfl rfl fun _ => .inr ?_
    simp only [setCall, Function.update_self]
    exact ⟨trivial, trivial, .inr trivial⟩
  · cases h
    refine .aside rfl rfl fun _ => .inr ?_
    simp only [setCall, Function.update_self]
    exact ⟨trivial, trivial, .inr trivial⟩

theorem finish_not_parked (s : State) (t : Tid) (r : Except Raised Value) :
    isParked ((s.finish t r).calls t).pc = false := by
  rw [finish_calls]
  rfl

theorem request_not_parked (py : Interpreter) (s : State) (t : Tid) (method : Str) (params : Dict)
    (writeOk : Bool) : isParked ((s.request py t method params writeOk).calls t).pc = false := by
  rcases request_outcome py s t method params writeOk with ⟨r, hr⟩ | ⟨-, hr, -⟩
  · rw [hr]
    rfl
  · rw [hr]
    rfl

theorem lifecycleSection_not_parked (py : Interpreter) (s : State) (t : Tid) (writeOk : Bool) :
    isParked ((s.lifecycleSection py t writeOk).calls t).pc = false := by
  unfold lifecycleSection
  split
  · unfold transition
    dsimp only
    split_ifs
    · exact finish_not_parked _ t _
    · exact finish_not_parked _ t _
    · split
      · exact finish_not_parked _ t _
      · exact request_not_parked py _ t _ _ writeOk
  · unfold shutdownSection
    split
    · exact finish_not_parked _ t _
    · exact request_not_parked py _ t _ _ writeOk

theorem enterLifecycle_parked (py : Interpreter) (w : Bool) (hq : Queued (s.calls t)) :
    Parked ((s.enterLifecycle py t w).calls t) := by
  unfold enterLifecycle
  split
  · exact .of_not (lifecycleSection_not_parked py _ t w)
  · simp only [setPc, setCall, Function.update_self]
    constructor
    · intro _
      exact ⟨hq.locks, hq.unsent, hq.config⟩
    · intro hpc
      cases hpc

theorem invoke_parked (py : Interpreter) (p : Str) (w : Bool) (hid : (s.calls t).id = none) :
    Parked ((s.invoke py p t w).calls t) := by
  have hfinish : ∀ (s : State) r, Parked ((s.finish t r).calls t) :=
    fun s r => .of_not (finish_not_parked s t r)
  have hrequest : ∀ m q, Parked ((s.request py t m q w).calls t) :=
    fun m q => .of_not (request_not_parked py s t m q w)
  unfold invoke
  split
  · split
    · exact hfinish _ _
    · exact hfinish _ _
  · exact hrequest _ _
  · exact hrequest _ _
  · split
    · exact hfinish _ _
    · exact hrequest _ _
  · split_ifs
    · exact hfinish _ _
    · exact hfinish _ _
    · exact hrequest _ _
  · unfold callTool
    dsimp only
    split_ifs
    · exact hfinish _ _
    · exact hfinish _ _
    · split
      · exact hrequest _ _
      · split
        · split_ifs
          · exact hrequest _ _
          · exact hfinish _ _
        · exact hfinish _ _
  · unfold callHostIngress
    split_ifs
    · exact hfinish _ _
    · split
      · split
        · exact hfinish _ _
        · split_ifs
          · exact hrequest _ _
          · exact hfinish _ _
      · exact hfinish _ _
  · rename_i d hop
    split
    · exact hfinish _ _
    · apply enterLifecycle_parked
      refine ⟨by rw [hop]; rfl, hid, fun v hv => ?_⟩
      rw [hop] at hv
      cases hv
      exact ⟨d, rfl⟩
  · exact hfinish _ _
  · rename_i hop
    apply enterLifecycle_parked
    refine ⟨by rw [hop]; rfl, hid, fun v hv => ?_⟩
    rw [hop] at hv
    cases hv
  · rename_i hop
    simp only [closeCall, setPc, setCall, Function.update_self]
    constructor
    · intro hpc
      cases hpc
    · exact fun _ => hop

theorem resume_not_parked {py : Interpreter} {p : Str} {w : Bool}
    (h : s.resume py p t w = some s') : isParked (s'.calls t).pc = false := by
  cases h₀ : (s.calls t).pc.awaiting with
  | some id =>
    obtain ⟨pc, hcall, hpc⟩ := resume_awaiting h₀ h
    rw [hcall]
    show isParked pc = false
    rcases hpc with hpc | ⟨r, rfl⟩
    · cases pc with
      | lifecycle => cases hpc
      | closing => cases hpc
      | _ => rfl
    · rfl
  | none =>
    unfold resume at h
    dsimp only at h
    split at h
    · split_ifs at h
      · cases h
        exact finish_not_parked _ t _
      · cases h
        exact finish_not_parked _ t _
      · cases h
        exact lifecycleSection_not_parked py s t w
    · rename_i hpc
      rw [hpc] at h₀
      cases h₀
    · rename_i hpc
      rw [hpc] at h₀
      cases h₀
    · split_ifs at h
      · cases h
        exact finish_not_parked _ t _
      · split at h
        · cases h
          exact finish_not_parked _ t _
        · cases h
    · cases h

/-- The frames that were written stay. -/
theorem Called.grows (h : Called s s' t) : ∃ new, s'.desk.written = s.desk.written ++ new := by
  have hsame : s'.desk.written = s.desk.written → ∃ new, s'.desk.written = s.desk.written ++ new :=
    fun heq => ⟨[], heq.trans (List.append_nil _).symm⟩
  cases h.move with
  | inert _ he =>
    apply hsame
    rw [he]
  | closes _ _ _ he =>
    apply hsame
    rw [he, s.toEngine.createCloseTask_desk]
  | starts _ _ _ he =>
    apply hsame
    rw [he, s.toEngine.createReadTask_desk]
  | sends m q _ _ _ _ he => exact ⟨[⟨s.desk.enroll.nextId, m, q⟩], by rw [he]; rfl⟩
  | refused _ _ _ he =>
    apply hsame
    rw [he]
    rfl
  | ends i _ _ he =>
    apply hsame
    rw [he]
    rfl
  | cancels i _ _ he =>
    apply hsame
    rw [he, (s.desk.cancel_frame i).1]

theorem Called.written (h : Called s s' t) : ∀ f ∈ s.desk.written, f ∈ s'.desk.written := by
  obtain ⟨new, hnew⟩ := h.grows
  intro f hf
  rw [hnew]
  exact List.mem_append_left new hf

/-- Another call that has sent its request keeps the lock, and the fence down. -/
theorem LockMove.other {u : Tid} (hm : LockMove s s' t) (hu : u ≠ t)
    (ho : s.lifecycleLock.owner = some u) :
    s'.lifecycleLock.owner = some u ∧ s'.restartRequired = s.restartRequired := by
  have hno : ¬ (s.lifecycleLock.owner = none ∨ s.lifecycleLock.owner = some t) := by
    rw [ho]
    rintro (h | h)
    · cases h
    · cases h
      exact hu rfl
  cases hm with
  | aside hl hr _ => exact ⟨hl.trans ho, hr⟩
  | frees hown _ _ => exact absurd hown hno
  | sends hown _ _ _ _ => exact absurd hown hno

theorem LockMove.leased (h : s.Leased) (hc : Called s s' t) (hm : LockMove s s' t)
    (hq : Parked (s'.calls t)) : s'.Leased where
  owner u id hlocks hpc := by
    by_cases hu : u = t
    · subst hu
      cases hm with
      | aside hl _ hcall =>
        rcases hcall hlocks with ⟨hnone, -⟩ | ⟨hop, -, hnone | hsame⟩
        · rw [hnone] at hpc
          cases hpc
        · rw [hnone] at hpc
          cases hpc
        · exact hl.trans (h.owner u id (hop ▸ hlocks) (hsame.symm.trans hpc))
      | frees _ hnone _ =>
        rw [hnone] at hpc
        cases hpc
      | sends _ ho' _ _ _ => exact ho'
    · rw [hc.others u hu] at hlocks hpc
      exact (hm.other hu (h.owner u id hlocks hpc)).1
  fresh u v id hop hpc := by
    by_cases hu : u = t
    · subst hu
      have hlocks : (s'.calls u).op.locks = true := by
        rw [hop]
        rfl
      cases hm with
      | aside _ hr hcall =>
        rcases hcall hlocks with ⟨hnone, -⟩ | ⟨hsop, -, hnone | hsame⟩
        · rw [hnone] at hpc
          cases hpc
        · rw [hnone] at hpc
          cases hpc
        · exact hr.trans (h.fresh u v id (hsop.symm.trans hop) (hsame.symm.trans hpc))
      | frees _ hnone _ =>
        rw [hnone] at hpc
        cases hpc
      | sends _ _ hr hf _ => exact hr.trans (hf v hop)
    · rw [hc.others u hu] at hop hpc
      have hlocks : (s.calls u).op.locks = true := by
        rw [hop]
        rfl
      exact (hm.other hu (h.owner u id hlocks hpc)).2.trans (h.fresh u v id hop hpc)
  parked u := by
    by_cases hu : u = t
    · rw [hu]
      exact hq
    · rw [hc.others u hu]
      exact h.parked u
  announced u v id hop hid := by
    by_cases hu : u = t
    · subst hu
      have hlocks : (s'.calls u).op.locks = true := by
        rw [hop]
        rfl
      have hkept : (s'.calls u).op = (s.calls u).op → (s'.calls u).id = (s.calls u).id →
          ∃ d, v = .dict d ∧ transitionFrame id d ∈ s'.desk.written := by
        intro hsop hsid
        obtain ⟨d, hd, hw⟩ := h.announced u v id (hsop.symm.trans hop) (hsid.symm.trans hid)
        exact ⟨d, hd, hc.written _ hw⟩
      cases hm with
      | aside _ _ hcall =>
        rcases hcall hlocks with ⟨-, hnone⟩ | ⟨hsop, hsid, -⟩
        · rw [hnone] at hid
          cases hid
        · exact hkept hsop hsid
      | frees _ _ hcall =>
        rcases hcall with hnone | ⟨hsop, hsid⟩
        · rw [hnone] at hid
          cases hid
        · exact hkept hsop hsid
      | sends _ _ _ _ hw => exact hw v id hop hid
    · rw [hc.others u hu] at hop hid
      obtain ⟨d, hd, hw⟩ := h.announced u v id hop hid
      exact ⟨d, hd, hc.written _ hw⟩

/-- The first step of a call, seen from before it. -/
theorem LockMove.of_new {op : Op} (h : LockMove (s.setCall t { op }) s' t)
    (hcall : (s.setCall t { op }).calls t = { op }) : LockMove s s' t := by
  cases h with
  | aside hl hr hc =>
    refine .aside hl hr fun hlocks => .inl ?_
    rcases hc hlocks with hnew | ⟨-, hid, hpc⟩
    · exact hnew
    · rw [hcall] at hid hpc
      exact ⟨hpc.elim id id, hid⟩
  | frees ho hpc hc =>
    refine .frees ho hpc (.inl ?_)
    rcases hc with hid | ⟨-, hid⟩
    · exact hid
    · rw [hcall] at hid
      exact hid
  | sends ho ho' hr hf hw => exact .sends ho ho' hr hf hw

theorem Leased.setEngine (h : s.Leased) {e : Engine} (hw : e.desk.written = s.desk.written) :
    (s.setEngine e).Leased where
  owner := h.owner
  fresh := h.fresh
  parked := h.parked
  announced t v id hop hid := by
    obtain ⟨d, hd, hmem⟩ := h.announced t v id hop hid
    refine ⟨d, hd, ?_⟩
    show _ ∈ e.desk.written
    rw [hw]
    exact hmem

theorem Leased.start : Leased {} := by
  constructor
  · intro t id _ h
    cases h
  · intro t v id _ h
    cases h
  · exact fun t => .of_not rfl
  · intro t v id _ h
    cases h

end State

variable {py : Interpreter} {p : Str} {s s' : State} {a : Action}

open State in
theorem step_leased (h : step py p s a = some s') (ht : s.Tabled) (hs : s.Leased) : s'.Leased := by
  rcases step_cases h ht with ⟨t, hcaller, hc⟩ | ⟨g, e, rfl, he, rfl⟩
  · cases a with
    | call u op w =>
      cases hcaller
      simp only [step] at h
      split at h
      · cases h
        have hcall : (s.setCall t { op }).calls t = { op } := by
          simp only [setCall, Function.update_self]
        have hid : ((s.setCall t { op }).calls t).id = none := by
          rw [hcall]
        have hm := (invoke_move py p (s.setCall t { op }) t w hid).of_new hcall
        exact hm.leased hs hc (invoke_parked py p w hid)
      · cases h
    | resume u w =>
      cases hcaller
      exact (resume_move hs h).leased hs hc (.of_not (resume_not_parked h))
    | cancel u =>
      cases hcaller
      apply (cancel_move h).leased hs hc
      rw [(cancel_call h).1]
      obtain ⟨hqueued, hclosing⟩ := hs.parked t
      constructor
      · intro hpc
        obtain ⟨hlocks, hunsent, hconfig⟩ := hqueued hpc
        exact ⟨hlocks, hunsent, hconfig⟩
      · exact hclosing
    | signal g => cases hcaller
  · apply hs.setEngine
    rcases Engine.step_desk he with hd | ⟨b, r, -, -, rfl⟩ | ⟨x, rfl⟩
    · rw [hd]
    · exact (s.desk.answer_frame r).1
    · rfl

theorem reachable_leased (h : (machine py p).Reachable s) : s.Leased := by
  have key := h.invariant (p := fun s => s.Tabled ∧ s.Leased) ⟨.start, .start⟩
    fun s a s' hs ha => ⟨(step_tabled ha hs.1).2, step_leased ha hs.1 hs.2⟩
  exact key.2

end KestrelSdk.Client

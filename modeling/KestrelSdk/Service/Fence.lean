import KestrelSdk.Service.Serve

/-! The fence of a service: what it does not call after a restart or a shutdown. -/

namespace KestrelSdk.Service

open Json Protocol Asyncio

def JobPc.isAwaiting : JobPc → Bool
  | .awaiting _ _ => true
  | _ => false

/-- What a service does not call any more once it awaits its restart. -/
def Dispatch.serves : Dispatch → Bool
  | .hook (.onInitialize _) => false
  | .hook (.onConfigTransition _) => false
  | .hook .onShutdown => false
  | _ => true

def Dispatch.isIngress : Dispatch → Bool
  | .hook (.callHostIngress _ _) => true
  | .ingress _ => true
  | _ => false

/-- What may be called in a state, which a call to `on_shutdown` has already changed. -/
structure Allowed (life : Lifecycle) (d : Dispatch) : Prop where
  serves : d.serves = true → life.restartRequired = false
  ingress : d.isIngress = true → life.stopping = false
  shutdown : d = .hook .onShutdown → life.stopping = true

theorem Allowed.of_served {life : Lifecycle} {d : Dispatch} (hf : life.restartRequired = false)
    (hi : d.isIngress = false) (hs : d = .hook .onShutdown → life.stopping = true) :
    Allowed life d := by
  refine ⟨fun _ => hf, fun h => ?_, hs⟩
  rw [hi] at h
  cases h

theorem Allowed.of_unserved {life : Lifecycle} {d : Dispatch} (hd : d.serves = false)
    (hi : d.isIngress = false) (hs : d = .hook .onShutdown → life.stopping = true) :
    Allowed life d := by
  refine ⟨fun h => ?_, fun h => ?_, hs⟩
  · rw [hd] at h
    cases h
  · rw [hi] at h
    cases h

theorem Awaits.allowed {rt : Runtime} {reg : Registry} {life life' : Lifecycle} {r : JsonRpcRequest}
    {hook : Hook} (h : Awaits rt reg life r life' hook) : Allowed life' (.hook hook) := by
  cases h with
  | onInitialize hm => exact .of_unserved rfl rfl (by rintro ⟨⟩)
  | onConfigTransition _ _ hm hf hn => exact .of_unserved rfl rfl (by rintro ⟨⟩)
  | health hm hf => exact .of_served hf rfl (by rintro ⟨⟩)
  | getTools hm hf => exact .of_served hf rfl (by rintro ⟨⟩)
  | callTool _ hm hf hc => exact .of_served hf rfl (by rintro ⟨⟩)
  | callHostIngress _ _ hm hs hf hi => exact ⟨fun _ => hf, fun _ => hs, by rintro ⟨⟩⟩
  | onShutdown hm => exact .of_unserved rfl rfl fun _ => rfl

def Dispatched.isAwaits : Dispatched → Bool
  | .awaits _ => true
  | _ => false

namespace Server

variable {s s' s'' : Server} {rt : Runtime} {i : Nat}

@[simp] theorem pc_setPc (s : Server) (i j : Nat) (p : JobPc) :
    (s.setPc i p).pc j = if i = j then (s.pc j).map fun _ => p else s.pc j := by
  unfold pc setPc
  rw [List.getElem?_modify]
  split
  · cases s.jobs[j]? <;> rfl
  · cases s.jobs[j]? <;> rfl

/-- Steps of a job that write and wait change neither the lifecycle nor what is called, and bring
no job before a hook. -/
structure Kept (s s' : Server) : Prop where
  life : s'.life = s.life
  called : s'.called = s.called
  awaiting : ∀ j r hook, s'.pc j = some (.awaiting r hook) → s.pc j = some (.awaiting r hook)

theorem Kept.trans (h : Kept s s') (h' : Kept s' s'') : Kept s s'' :=
  ⟨h'.life.trans h.life, h'.called.trans h.called,
    fun j r hook hj => h.awaiting j r hook (h'.awaiting j r hook hj)⟩

theorem setPc_kept (s : Server) (i : Nat) {p : JobPc} (hp : p.isAwaiting = false) :
    Kept s (s.setPc i p) := by
  refine ⟨rfl, rfl, fun j r hook hj => ?_⟩
  rw [pc_setPc] at hj
  split at hj
  · obtain ⟨q, -, rfl⟩ := Option.map_eq_some_iff.1 hj
    cases hp
  · exact hj

theorem finish_kept (s : Server) (i : Nat) (result : Except Exn Unit) :
    Kept s (s.finish i result) := by
  have h := setPc_kept s i (show (JobPc.ended result).isAwaiting = false from rfl)
  exact ⟨rfl, rfl, h.awaiting⟩

theorem releaseWrite_kept (s : Server) : Kept s s.releaseWrite :=
  ⟨rfl, rfl, fun _ _ _ h => h⟩

variable {raised : Server → Exn → Server}

theorem write_kept (hraised : ∀ s e, Kept s (raised s e)) (s : Server) (i : Nat) (data : Value)
    (handled : Option JsonRpcRequest) : Kept s (s.write rt i data handled raised) := by
  unfold write
  split
  · split
    · exact (releaseWrite_kept s).trans (hraised _ _)
    · split
      · exact (releaseWrite_kept s).trans (hraised _ _)
      · rename_i bytes _ _
        have hframes : Kept s { s with frames := s.frames ++ [⟨i, data, bytes⟩] } :=
          ⟨rfl, rfl, fun _ _ _ h => h⟩
        exact hframes.trans (setPc_kept _ i rfl)
  · exact (releaseWrite_kept s).trans (finish_kept _ i _)

theorem send_kept (hraised : ∀ s e, Kept s (raised s e)) (s : Server) (i : Nat) (data : Value)
    (handled : Option JsonRpcRequest) : Kept s (s.send rt i data handled raised) := by
  have hlock : ∀ writeLock, Kept s { s with writeLock } :=
    fun _ => ⟨rfl, rfl, fun _ _ _ h => h⟩
  unfold send
  split
  · exact (hlock _).trans (write_kept hraised _ i data handled)
  · exact (hlock _).trans (setPc_kept _ i rfl)

theorem escape_kept (i : Nat) (s : Server) (e : Exn) : Kept s (escape i s e) :=
  finish_kept s i (.error e)

theorem raise_kept (i : Nat) (handled : Option JsonRpcRequest) (s : Server) (e : Exn) :
    Kept s (raise rt i handled s e) := by
  unfold raise
  split
  · exact escape_kept i s e
  · split
    · exact escape_kept i s e
    · exact send_kept (escape_kept i) s i _ none

theorem reply_kept (s : Server) (i : Nat) (r : JsonRpcRequest) (result : Except Exn Value) :
    Kept s (s.reply rt i r result) := by
  cases result with
  | ok v => exact send_kept (raise_kept i (some r)) s i _ _
  | error e => exact raise_kept i (some r) s e

/-- What a step does to the fence: it stays, it holds for what the step calls, and a request before
a hook passed it. -/
structure Advances (rt : Runtime) (s s' : Server) : Prop where
  restart : s.life.restartRequired = true → s'.life.restartRequired = true
  stopping : s.life.stopping = true → s'.life.stopping = true
  called : ∃ new, s'.called = s.called ++ new ∧ ∀ d ∈ new, Allowed s'.life d
  awaiting : ∀ j r hook, s'.pc j = some (.awaiting r hook) →
    s.pc j = some (.awaiting r hook) ∨ ∃ reg life life', Awaits rt reg life r life' hook

theorem Kept.advances (h : Kept s s') : Advances rt s s' := by
  constructor
  · rw [h.life]
    exact id
  · rw [h.life]
    exact id
  · exact ⟨[], by rw [h.called, List.append_nil], fun d hd => absurd hd List.not_mem_nil⟩
  · exact fun j r hook hj => .inl (h.awaiting j r hook hj)

theorem Advances.kept (h : Advances rt s s') (h' : Kept s' s'') : Advances rt s s'' := by
  obtain ⟨new, hnew, hall⟩ := h.called
  constructor
  · rw [h'.life]
    exact h.restart
  · rw [h'.life]
    exact h.stopping
  · refine ⟨new, ?_, ?_⟩
    · rw [h'.called, hnew]
    · rw [h'.life]
      exact hall
  · exact fun j r hook hj => h.awaiting j r hook (h'.awaiting j r hook hj)

theorem kept_advances (h : Kept s s') (h' : Advances rt s' s'') : Advances rt s s'' := by
  obtain ⟨new, hnew, hall⟩ := h'.called
  constructor
  · rw [← h.life]
    exact h'.restart
  · rw [← h.life]
    exact h'.stopping
  · refine ⟨new, ?_, hall⟩
    rw [hnew, h.called]
  · intro j r hook hj
    rcases h'.awaiting j r hook hj with hj | hj
    · exact .inl (h.awaiting j r hook hj)
    · exact .inr hj

theorem dispatch_kept {life : Lifecycle} {d : Dispatched} {r : JsonRpcRequest}
    (hd : dispatch rt s.registry s.life r = (life, d)) (hno : d.isAwaits = false) :
    life = s.life := by
  rcases @dispatch_life rt s.registry s.life r with h | h
  · rw [hd] at h
    exact h
  · rw [hd] at h
    cases h
    cases hno

theorem handleRequest_advances (s : Server) (i : Nat) (r : JsonRpcRequest) :
    Advances rt s (s.handleRequest rt i r) := by
  unfold handleRequest
  split
  · rename_i life hook hd
    have hawaits := dispatch_awaits hd
    have hstay : life.restartRequired = s.life.restartRequired ∧
        (s.life.stopping = true → life.stopping = true) := by
      cases hawaits with
      | onShutdown => exact ⟨rfl, fun _ => rfl⟩
      | _ => exact ⟨rfl, id⟩
    constructor
    · show s.life.restartRequired = true → life.restartRequired = true
      rw [hstay.1]
      exact id
    · exact hstay.2
    · refine ⟨[.hook hook], rfl, fun d hd' => ?_⟩
      obtain rfl := List.mem_singleton.1 hd'
      exact hawaits.allowed
    · intro j r' hook' hj
      rw [pc_setPc] at hj
      split at hj
      · obtain ⟨q, -, hq⟩ := Option.map_eq_some_iff.1 hj
        cases hq
        exact .inr ⟨_, _, _, hawaits⟩
      · exact .inl hj
  · rename_i life v hd
    obtain rfl := dispatch_kept hd rfl
    exact (reply_kept _ i r _).advances
  · rename_i life e hd
    obtain rfl := dispatch_kept hd rfl
    exact (reply_kept _ i r _).advances

theorem create_kept (s : Server) (work : Work) {p : JobPc} (hp : p.isAwaiting = false) :
    Kept s (s.create work p) := by
  refine ⟨rfl, rfl, fun j r hook hj => ?_⟩
  unfold pc create at hj
  rw [List.getElem?_append] at hj
  split at hj
  · exact hj
  · obtain ⟨job, hjob, hpc⟩ := Option.map_eq_some_iff.1 hj
    obtain rfl := List.mem_singleton.1 (List.mem_of_getElem? hjob)
    cases hpc
    cases hp

theorem loop_kept (s : Server) (loop : LoopPc) : Kept s { s with loop } :=
  ⟨rfl, rfl, fun _ _ _ h => h⟩

theorem refuse_kept (s : Server) (text : Str) : Kept s (s.refuse rt text) := by
  unfold refuse
  refine Kept.trans ?_ ((loop_kept _ _).trans (send_kept (escape_kept _) _ _ _ none))
  exact create_kept s _ rfl

theorem accept_advances (s : Server) (r : JsonRpcRequest) : Advances rt s (s.accept rt r) := by
  have hcreate := create_kept s (.request r) (show (JobPc.created r).isAwaiting = false from rfl)
  unfold accept
  split
  · exact kept_advances (hcreate.trans (loop_kept _ _)) (handleRequest_advances _ _ r)
  · exact hcreate.advances

theorem readLine_advances (raised : DecodeError → Exn) (s : Server) (b : Bytes) :
    Advances rt s (s.readLine rt raised b) := by
  unfold readLine
  split
  · exact (loop_kept s _).advances
  · split
    · exact (refuse_kept s _).advances
    · exact (loop_kept s _).advances
    · exact accept_advances s _
    · exact Kept.advances ⟨rfl, rfl, fun _ _ _ h => h⟩

theorem emitEvent_kept (s : Server) (params : Dict) : Kept s (s.emitEvent rt params) := by
  unfold emitEvent
  split
  · refine Kept.trans ?_ (send_kept (escape_kept _) _ _ _ none)
    exact create_kept s _ rfl
  · exact ⟨rfl, rfl, fun _ _ _ h => h⟩

/-- What the rest of `_dispatch` leaves of the fence. -/
theorem complete_advances (s : Server) (hook : Hook) (o : Outcome) :
    Advances rt s { s with life := (complete rt s.registry s.life hook o).1 } := by
  have hfence : ((complete rt s.registry s.life hook o).1.restartRequired = true ∨
      (complete rt s.registry s.life hook o).1.restartRequired = s.life.restartRequired) ∧
      (complete rt s.registry s.life hook o).1.stopping = s.life.stopping := by
    rcases complete_cases rt s.registry s.life hook o with h | ⟨next, t, n, -, -, h⟩
    · rw [h]
      exact ⟨.inr rfl, rfl⟩
    · rw [h]
      rcases commit_cases s.registry s.life next t with ⟨-, hc⟩ | ⟨_, -, -, -, hc⟩ | ⟨e, hc⟩
      · rw [hc]
        exact ⟨.inl rfl, rfl⟩
      · rw [hc]
        exact ⟨.inr rfl, rfl⟩
      · rw [hc]
        exact ⟨.inr rfl, rfl⟩
  constructor
  · intro hs
    rcases hfence.1 with h | h
    · exact h
    · exact h.trans hs
  · exact fun hs => hfence.2.trans hs
  · exact ⟨[], (List.append_nil _).symm, fun d hd => absurd hd List.not_mem_nil⟩
  · exact fun j r hook' hj => .inl hj

theorem completeRequest_advances (s : Server) (i : Nat) (r : JsonRpcRequest) (hook : Hook)
    (o : Outcome) : Advances rt s (s.completeRequest rt i r hook o) :=
  (complete_advances s hook o).kept (reply_kept _ i r _)

theorem resume_advances {a : Action} {p : JobPc} (h : s.resume rt i a p = some s') :
    Advances rt s s' := by
  have hlock : ∀ writeLock, Kept s { s with writeLock } :=
    fun _ => ⟨rfl, rfl, fun _ _ _ h => h⟩
  unfold resume at h
  split at h
  · split at h
    · cases h
      exact (finish_kept s i _).advances
    · cases h
      exact handleRequest_advances s i _
  · cases h
    exact completeRequest_advances s i _ _ _
  · split at h
    · cases h
      exact (write_kept (raise_kept i _) s i _ _).advances
    · cases h
  · cases h
    exact ((releaseWrite_kept s).trans (finish_kept _ i _)).advances
  · cases h
    exact ((releaseWrite_kept s).trans (raise_kept i _ _ _)).advances
  · split at h
    · cases h
      exact ((hlock _).trans (raise_kept i _ _ _)).advances
    · cases h
  · split at h
    · cases h
      exact ((releaseWrite_kept s).trans (raise_kept i _ _ _)).advances
    · cases h
  · cases h

theorem callTool_advances (s : Server) (name : Str) : Advances rt s (s.callTool name) := by
  unfold callTool
  split
  · exact Kept.advances ⟨rfl, rfl, fun _ _ _ h => h⟩
  · rename_i hf
    split
    · refine ⟨id, id, ⟨[.tool name], rfl, fun d hd => ?_⟩, fun _ _ _ h => .inl h⟩
      obtain rfl := List.mem_singleton.1 hd
      exact .of_served (Bool.eq_false_iff.2 hf) rfl (by rintro ⟨⟩)
    · exact Kept.advances ⟨rfl, rfl, fun _ _ _ h => h⟩

theorem callHostIngress_advances (s : Server) (name : Str) :
    Advances rt s (s.callHostIngress name) := by
  unfold callHostIngress
  split
  · exact Kept.advances ⟨rfl, rfl, fun _ _ _ h => h⟩
  · rename_i hf
    obtain ⟨hs, hf⟩ := Bool.or_eq_false_iff.1 (Bool.eq_false_iff.2 hf)
    split
    · refine ⟨id, id, ⟨[.ingress name], rfl, fun d hd => ?_⟩, fun _ _ _ h => .inl h⟩
      obtain rfl := List.mem_singleton.1 hd
      exact ⟨fun _ => hf, fun _ => hs, by rintro ⟨⟩⟩
    · exact Kept.advances ⟨rfl, rfl, fun _ _ _ h => h⟩

theorem pc_cancel (s : Server) (i j : Nat) :
    ({ s with jobs := s.jobs.modify i fun job => { job with cancelling := true } } : Server).pc j =
      s.pc j := by
  unfold pc
  rw [List.getElem?_modify]
  split
  · cases s.jobs[j]? <;> rfl
  · cases s.jobs[j]? <;> rfl

theorem cancel_kept (s : Server) (i : Nat) :
    Kept s { s with jobs := s.jobs.modify i fun job => { job with cancelling := true } } := by
  refine ⟨rfl, rfl, fun j r hook hj => ?_⟩
  rw [pc_cancel] at hj
  exact hj

theorem onInitialize_cases (version : Str) (s : Server) (params : Dict) :
    s.onInitialize version params = s ∨ ∃ config, params.get (str "config") = some (.dict config) ∧
      s.onInitialize version params = { s with life := { s.life with hostConfig := config } } := by
  unfold onInitialize
  split
  · rename_i requested config _ hc
    split
    · exact .inr ⟨config, hc, rfl⟩
    · exact .inl rfl
  · exact .inl rfl

end Server

open Server

variable {rt : Runtime} {raised : DecodeError → Exn} {version : Str} {s s' : Server} {a : Action}

theorem step_advances (h : step rt raised version s a = some s') : Advances rt s s' := by
  cases a with
  | serve =>
    simp only [step] at h
    split at h
    · cases h
      exact Kept.advances ⟨rfl, rfl, fun _ _ _ h => h⟩
    · cases h
  | line b =>
    simp only [step] at h
    split at h
    · cases h
      exact readLine_advances raised s b
    · cases h
  | readFails e =>
    simp only [step] at h
    split at h
    · cases h
      exact Kept.advances ⟨rfl, rfl, fun _ _ _ h => h⟩
    · cases h
  | close =>
    simp only [step] at h
    split at h
    · cases h
    · split at h
      · cases h
        exact Kept.advances ⟨rfl, rfl, fun _ _ _ h => h⟩
      · cases h
        exact Kept.advances ⟨rfl, rfl, fun _ _ _ h => h⟩
      · cases h
  | breaks =>
    cases h
    exact Kept.advances ⟨rfl, rfl, fun _ _ _ h => h⟩
  | begin i =>
    obtain ⟨p, -, h⟩ := Option.bind_eq_some_iff.1 h
    exact resume_advances h
  | hook i outcome =>
    obtain ⟨p, -, h⟩ := Option.bind_eq_some_iff.1 h
    exact resume_advances h
  | locked i =>
    obtain ⟨p, -, h⟩ := Option.bind_eq_some_iff.1 h
    exact resume_advances h
  | drained i e =>
    obtain ⟨p, -, h⟩ := Option.bind_eq_some_iff.1 h
    exact resume_advances h
  | interrupted i =>
    obtain ⟨p, -, h⟩ := Option.bind_eq_some_iff.1 h
    exact resume_advances h
  | cancel i =>
    simp only [step] at h
    split at h
    · cases h
    · cases h
    · cases h
      exact (cancel_kept s i).advances
  | registers registry =>
    cases h
    exact Kept.advances ⟨rfl, rfl, fun _ _ _ h => h⟩
  | event params =>
    cases h
    exact (emitEvent_kept s params).advances
  | onInitialize i =>
    simp only [step] at h
    split at h
    · cases h
      rename_i params _
      rcases onInitialize_cases version s params with he | ⟨config, -, he⟩
      · rw [he]
        exact Kept.advances ⟨rfl, rfl, fun _ _ _ h => h⟩
      · rw [he]
        exact ⟨id, id, ⟨[], (List.append_nil _).symm, fun d hd => absurd hd List.not_mem_nil⟩,
          fun _ _ _ h => .inl h⟩
    · cases h
  | callTool name =>
    cases h
    exact callTool_advances s name
  | callHostIngress name =>
    cases h
    exact callHostIngress_advances s name

theorem reachable_awaits (h : (service rt raised version).Reachable s) {i : Nat}
    {r : JsonRpcRequest} {hook : Hook} (hi : s.pc i = some (.awaiting r hook)) :
    ∃ reg life life', Awaits rt reg life r life' hook := by
  refine h.invariant (p := fun s => ∀ i r hook, s.pc i = some (.awaiting r hook) →
    ∃ reg life life', Awaits rt reg life r life' hook) ?_ ?_ i r hook hi
  · intro i r hook hi
    cases hi
  · intro s a s' hs ha i r hook hi
    rcases (step_advances ha).awaiting i r hook hi with hi | hi
    · exact hs i r hook hi
    · exact hi

theorem run_advances (as : List Action) (h : (service rt raised version).runFrom s as = some s') :
    (s.life.restartRequired = true → s'.life.restartRequired = true) ∧
    (s.life.stopping = true → s'.life.stopping = true) ∧
    ∃ new, s'.called = s.called ++ new ∧ ∀ d ∈ new,
      (s.life.restartRequired = true → d.serves = false) ∧
      (s.life.stopping = true → d.isIngress = false) := by
  induction as generalizing s with
  | nil =>
    cases h
    exact ⟨id, id, [], (List.append_nil _).symm, fun d hd => absurd hd List.not_mem_nil⟩
  | cons a as ih =>
    simp only [Machine.runFrom] at h
    split at h
    · rename_i s₁ hstep
      have hadv := @step_advances rt raised version _ _ _ hstep
      obtain ⟨hrestart, hstopping, new', hnew', hall'⟩ := ih h
      obtain ⟨new, hnew, hall⟩ := hadv.called
      refine ⟨fun hs => hrestart (hadv.restart hs), fun hs => hstopping (hadv.stopping hs),
        new ++ new', ?_, fun d hd => ?_⟩
      · rw [hnew', hnew, List.append_assoc]
      · rcases List.mem_append.1 hd with hd | hd
        · have hallowed := hall d hd
          constructor
          · intro hs
            apply Bool.eq_false_iff.2
            intro hserves
            have hno := hallowed.serves hserves
            rw [hadv.restart hs] at hno
            cases hno
          · intro hs
            apply Bool.eq_false_iff.2
            intro hingress
            have hno := hallowed.ingress hingress
            rw [hadv.stopping hs] at hno
            cases hno
        · obtain ⟨h1, h2⟩ := hall' d hd
          exact ⟨fun hs => h1 (hadv.restart hs), fun hs => h2 (hadv.stopping hs)⟩
    · cases h

theorem shutdown_stops (h : (service rt raised version).Reachable s)
    (hd : .hook .onShutdown ∈ s.called) : s.life.stopping = true := by
  refine h.invariant (p := fun s => .hook .onShutdown ∈ s.called → s.life.stopping = true) ?_ ?_ hd
  · intro hd
    cases hd
  · intro s a s' hs ha hd
    have hadv := step_advances ha
    obtain ⟨new, hnew, hall⟩ := hadv.called
    rw [hnew] at hd
    rcases List.mem_append.1 hd with hd | hd
    · exact hadv.stopping (hs hd)
    · exact (hall _ hd).shutdown rfl

theorem handleRequest_host (s : Server) (i : Nat) (r : JsonRpcRequest) :
    (s.handleRequest rt i r).life.hostConfig = s.life.hostConfig := by
  unfold handleRequest
  split
  · rename_i life hook hd
    show life.hostConfig = s.life.hostConfig
    cases dispatch_awaits hd <;> rfl
  · rename_i life v hd
    obtain rfl := dispatch_kept hd rfl
    exact congrArg Lifecycle.hostConfig (reply_kept _ i r _).life
  · rename_i life e hd
    obtain rfl := dispatch_kept hd rfl
    exact congrArg Lifecycle.hostConfig (reply_kept _ i r _).life

theorem readLine_host (raised : DecodeError → Exn) (s : Server) (b : Bytes) :
    (s.readLine rt raised b).life.hostConfig = s.life.hostConfig := by
  unfold readLine
  split
  · rfl
  · split
    · exact congrArg Lifecycle.hostConfig (refuse_kept s _).life
    · rfl
    · unfold accept
      split
      · exact handleRequest_host _ _ _
      · rfl
    · rfl

theorem Server.Kept.host (h : Kept s s') : s'.life.hostConfig = s.life.hostConfig :=
  congrArg Lifecycle.hostConfig h.life

/-- What a resumed job does to `host_config`: nothing, or the answer of a transition's hook. -/
theorem resume_host {i : Nat} {p : JobPc} (h : s.resume rt i a p = some s') :
    s'.life.hostConfig = s.life.hostConfig ∨
      ∃ j r next capabilities n, a = .hook j (.transition .applied n) ∧
        p = .awaiting r (.onConfigTransition next) ∧ s.registry.transitions = some capabilities ∧
        capabilities.supportsLiveApply = true ∧ s'.life.hostConfig = next := by
  have hlock : ∀ writeLock, Kept s { s with writeLock } := fun _ => ⟨rfl, rfl, fun _ _ _ h => h⟩
  unfold resume at h
  split at h
  · split at h
    · cases h
      exact .inl (finish_kept s i _).host
    · cases h
      exact .inl (handleRequest_host s i _)
  · rename_i outcome r hook
    cases h
    have hreply : (s.completeRequest rt i r hook outcome).life.hostConfig =
        (complete rt s.registry s.life hook outcome).1.hostConfig := (reply_kept _ i r _).host
    rcases complete_cases rt s.registry s.life hook outcome with hc | ⟨next, t, n, rfl, rfl, hc⟩
    · left
      rw [hreply, hc]
    · rcases commit_cases s.registry s.life next t with
        ⟨-, ht⟩ | ⟨capabilities, rfl, hreg, hlive, ht⟩ | ⟨e, ht⟩
      · left
        rw [hreply, hc, ht]
      · right
        refine ⟨_, r, next, capabilities, n, rfl, rfl, hreg, hlive, ?_⟩
        rw [hreply, hc, ht]
      · left
        rw [hreply, hc, ht]
  · split at h
    · cases h
      exact .inl (write_kept (raise_kept i _) s i _ _).host
    · cases h
  · cases h
    exact .inl ((releaseWrite_kept s).trans (finish_kept _ i _)).host
  · cases h
    exact .inl ((releaseWrite_kept s).trans (raise_kept i _ _ _)).host
  · split at h
    · cases h
      exact .inl ((hlock _).trans (raise_kept i _ _ _)).host
    · cases h
  · split at h
    · cases h
      exact .inl ((releaseWrite_kept s).trans (raise_kept i _ _ _)).host
    · cases h
  · cases h

/-- A step that changes `host_config` is one of the base class's `on_initialize`, or the answer of a
transition's hook. -/
theorem step_host (h : step rt raised version s a = some s')
    (hne : s'.life.hostConfig ≠ s.life.hostConfig) :
    (∃ i r params config, a = .onInitialize i ∧ s.pc i = some (.awaiting r (.onInitialize params)) ∧
      params.get (str "config") = some (.dict config) ∧ s'.life.hostConfig = config) ∨
    ∃ i r next capabilities n, a = .hook i (.transition .applied n) ∧
      s.pc i = some (.awaiting r (.onConfigTransition next)) ∧
      s.registry.transitions = some capabilities ∧ capabilities.supportsLiveApply = true ∧
      s'.life.hostConfig = next := by
  have hkept : ∀ {s₁ : Server}, some s₁ = some s' → s₁.life.hostConfig = s.life.hostConfig →
      False := by
    intro s₁ he hk
    rw [← Option.some.inj he] at hne
    exact hne hk
  have hresume : ∀ {i p}, (∀ j o, a ≠ .hook j o) → s.resume rt i a p = some s' → False := by
    intro i p ha hr
    rcases resume_host hr with hk | ⟨j, _, _, _, n, hj, -⟩
    · exact hne hk
    · exact ha j _ hj
  cases a with
  | serve =>
    simp only [step] at h
    split at h
    · exact (hkept h rfl).elim
    · cases h
  | line b =>
    simp only [step] at h
    split at h
    · exact (hkept h (readLine_host raised s b)).elim
    · cases h
  | readFails e =>
    simp only [step] at h
    split at h
    · exact (hkept h rfl).elim
    · cases h
  | close =>
    simp only [step] at h
    split at h
    · cases h
    · split at h
      · exact (hkept h rfl).elim
      · exact (hkept h rfl).elim
      · cases h
  | breaks => exact (hkept h rfl).elim
  | begin i =>
    obtain ⟨p, -, h⟩ := Option.bind_eq_some_iff.1 h
    exact (hresume (by rintro _ _ ⟨⟩) h).elim
  | hook i outcome =>
    obtain ⟨p, hp, h⟩ := Option.bind_eq_some_iff.1 h
    rcases resume_host h with hk | ⟨j, r, next, capabilities, n, hj, rfl, hreg, hlive, hnext⟩
    · exact absurd hk hne
    · cases hj
      exact .inr ⟨i, r, next, capabilities, n, rfl, hp, hreg, hlive, hnext⟩
  | locked i =>
    obtain ⟨p, -, h⟩ := Option.bind_eq_some_iff.1 h
    exact (hresume (by rintro _ _ ⟨⟩) h).elim
  | drained i e =>
    obtain ⟨p, -, h⟩ := Option.bind_eq_some_iff.1 h
    exact (hresume (by rintro _ _ ⟨⟩) h).elim
  | interrupted i =>
    obtain ⟨p, -, h⟩ := Option.bind_eq_some_iff.1 h
    exact (hresume (by rintro _ _ ⟨⟩) h).elim
  | cancel i =>
    simp only [step] at h
    split at h
    · cases h
    · cases h
    · exact (hkept h rfl).elim
  | registers registry => exact (hkept h rfl).elim
  | event params => exact (hkept h (emitEvent_kept s params).host).elim
  | onInitialize i =>
    simp only [step] at h
    split at h
    · rename_i r params hi
      rcases onInitialize_cases version s params with he | ⟨config, hc, he⟩
      · rw [he] at h
        exact (hkept h rfl).elim
      · rw [he] at h
        cases h
        exact .inl ⟨i, r, params, config, rfl, hi, hc, rfl⟩
    · cases h
  | callTool name =>
    refine (hkept h ?_).elim
    unfold Server.callTool
    split
    · rfl
    · split
      · rfl
      · rfl
  | callHostIngress name =>
    refine (hkept h ?_).elim
    unfold Server.callHostIngress
    split
    · rfl
    · split
      · rfl
      · rfl

/-- Once a service awaits its restart, no run calls a tool, a health or tools hook or an ingress
handler any more; once it shuts down, no ingress handler. `host_config` changes with the `config`
of an `initialize` request, or where a transition's hook answers an advertised `applied`. -/
theorem fence_holds (h : (service rt raised version).Reachable s) :
    (∀ as s', (service rt raised version).runFrom s as = some s' →
      s.life.restartRequired = true → s'.life.restartRequired = true ∧
        ∃ new, s'.called = s.called ++ new ∧ ∀ d ∈ new, d.serves = false) ∧
    (∀ as s', (service rt raised version).runFrom s as = some s' →
      .hook .onShutdown ∈ s.called →
        ∃ new, s'.called = s.called ++ new ∧ ∀ d ∈ new, d.isIngress = false) ∧
    (∀ i r next n s', s.pc i = some (.awaiting r (.onConfigTransition next)) →
      (service rt raised version).step s (.hook i (.transition .restart n)) = some s' →
        s'.life.restartRequired = true) ∧
    ∀ a s', (service rt raised version).step s a = some s' →
      s'.life.hostConfig ≠ s.life.hostConfig →
      (∃ i r config, a = .onInitialize i ∧
        s.pc i = some (.awaiting r (.onInitialize r.params)) ∧ r.method = INITIALIZE ∧
        r.params.get (str "config") = some (.dict config) ∧ s'.life.hostConfig = config) ∨
      ∃ i r next capabilities n, a = .hook i (.transition .applied n) ∧
        s.pc i = some (.awaiting r (.onConfigTransition next)) ∧ r.method = CONFIG_TRANSITION ∧
        s.registry.transitions = some capabilities ∧ capabilities.supportsLiveApply = true ∧
        s'.life.hostConfig = next := by
  refine ⟨?_, ?_, ?_, ?_⟩
  · intro as s' hrun hs
    obtain ⟨hrestart, -, new, hnew, hall⟩ := run_advances as hrun
    exact ⟨hrestart hs, new, hnew, fun d hd => (hall d hd).1 hs⟩
  · intro as s' hrun hs
    obtain ⟨-, -, new, hnew, hall⟩ := run_advances as hrun
    exact ⟨new, hnew, fun d hd => (hall d hd).2 (shutdown_stops h hs)⟩
  · intro i r next n s' hi hstep
    obtain ⟨p, hp, hr⟩ := Option.bind_eq_some_iff.1 hstep
    rw [hi] at hp
    cases hp
    cases hr
    exact congrArg Lifecycle.restartRequired (reply_kept _ i r _).life
  · intro a s' hstep hne
    rcases step_host hstep hne with ⟨i, r, params, config, ha, hi, hc, hs'⟩ |
      ⟨i, r, next, capabilities, n, ha, hi, hreg, hlive, hs'⟩
    · obtain ⟨_, _, _, hawaits⟩ := reachable_awaits h hi
      cases hawaits with
      | onInitialize hm => exact .inl ⟨i, r, config, ha, hi, hm, hc, hs'⟩
    · obtain ⟨_, _, _, hawaits⟩ := reachable_awaits h hi
      cases hawaits with
      | onConfigTransition _ _ hm _ _ =>
        exact .inr ⟨i, r, next, capabilities, n, ha, hi, hm, hreg, hlive, hs'⟩

/-- A line that asks for a transition. -/
def transitionRequest : JsonRpcRequest :=
  ⟨CONFIG_TRANSITION, [(.str (str "config"), .dict [])], .int 1⟩

theorem transitionLine : ∃ line, decodeMessage sampleRuntime.py line = .ok (.request transitionRequest) := by
  obtain ⟨line, hline⟩ : ∃ line,
    encodeMessage .floatless transitionRequest.toDict = .ok line := ⟨_, rfl⟩
  exact ⟨line, (decodeMessage_encodeMessage hline).trans rfl⟩

theorem ne_nil_of_decodeMessage {py : Interpreter} {b : Bytes} {m : JsonRpcMessage}
    (h : decodeMessage py b = .ok m) : b ≠ [] := by
  rintro rfl
  cases h

theorem step_request {b : Bytes} {r : JsonRpcRequest} (hloop : s.loop = .reading)
    (hb : decodeMessage rt.py b = .ok (.request r)) :
    (service rt raised version).step s (.line b) = some (s.accept rt r) := by
  simp only [service, step, hloop, readLine, hb, ne_nil_of_decodeMessage hb, if_false]

/-- A service whose transition waits for its hook. -/
def askedService : Server :=
  ({ registry := { transitions := some {} }, loop := .reading, connected := true } : Server).accept
    sampleRuntime transitionRequest

theorem askedService_reachable :
    (service sampleRuntime (fun _ => .cancelled) []).Reachable askedService := by
  obtain ⟨line, hline⟩ := transitionLine
  have hstart : (service sampleRuntime (fun _ => .cancelled) []).Reachable
      { registry := { transitions := some {} }, loop := .reading, connected := true } :=
    ⟨[.registers { transitions := some {} }, .serve], rfl⟩
  exact hstart.step (step_request rfl hline)

theorem fence_holds_restart :
    ∃ s, (service sampleRuntime (fun _ => .cancelled) []).Reachable s ∧
      s.life.restartRequired = true ∧
      ∀ as s', (service sampleRuntime (fun _ => .cancelled) []).runFrom s as = some s' →
        ∃ new, s'.called = s.called ++ new ∧ ∀ d ∈ new, d.serves = false := by
  obtain ⟨s, hs⟩ : ∃ s, (service sampleRuntime (fun _ => .cancelled) []).step askedService
    (.hook 0 (.transition .restart 0)) = some s := ⟨_, rfl⟩
  have hpc : askedService.pc 0 = some (.awaiting transitionRequest (.onConfigTransition [])) := rfl
  have hrestart := (fence_holds askedService_reachable).2.2.1 0 _ _ 0 s hpc hs
  have hreach := askedService_reachable.step hs
  exact ⟨s, hreach, hrestart, fun as s' hrun => ((fence_holds hreach).1 as s' hrun hrestart).2⟩

end KestrelSdk.Service

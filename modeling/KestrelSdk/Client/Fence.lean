import KestrelSdk.Client.Signals
import KestrelSdk.Client.Step

namespace KestrelSdk.Client

open Json Protocol Asyncio

/-- The work that a fenced client may not send. -/
def fencedMethods : List Str := [TOOLS_LIST, TOOLS_CALL, HOST_INGRESS, CONFIG_TRANSITION]

namespace State

/-- The fence stays up, and readiness stays down behind it. -/
structure Latched (s s' : State) : Prop where
  restart : s.restartRequired = true → s'.restartRequired = true
  ready : (s.restartRequired = true → s.ready = false) →
    s'.restartRequired = true → s'.ready = false

/-- What a step may do to the restart fence: it is latched, and a frame written behind it carries
none of the fenced methods. -/
structure Fenced (s s' : State) : Prop extends Latched s s' where
  written : s'.desk.written = s.desk.written ∨
    ∃ f, s'.desk.written = s.desk.written ++ [f] ∧
      (s.restartRequired = true → f.method ∉ fencedMethods)

variable {s s' s'' : State} {t : Tid}

theorem Fenced.same (h : (s'.restartRequired, s'.ready, s'.desk.written) =
    (s.restartRequired, s.ready, s.desk.written)) : Fenced s s' := by
  simp only [Prod.mk.injEq] at h
  obtain ⟨h1, h2, h3⟩ := h
  refine ⟨⟨fun hr => h1.trans hr, fun hs hr => ?_⟩, .inl h3⟩
  rw [h2]
  exact hs (h1.symm.trans hr)

/-- A silent step before another one. -/
theorem Fenced.after (h : Fenced s' s'') (hw : s'.desk.written = s.desk.written)
    (hr : s'.restartRequired = s.restartRequired) (hy : s'.ready = s.ready) : Fenced s s'' := by
  refine ⟨⟨fun h1 => h.restart (hr.trans h1), fun h1 => h.ready ?_⟩, ?_⟩
  · intro h2
    rw [hy]
    exact h1 (hr.symm.trans h2)
  · rw [← hw, ← hr]
    exact h.written

theorem Fenced.mark (hw : s'.desk.written = s.desk.written) (hr : s'.restartRequired = true)
    (hy : s'.ready = false) : Fenced s s' :=
  ⟨⟨fun _ => hr, fun _ _ => hy⟩, .inl hw⟩

theorem fail_fenced (s : State) (t : Tid) (e : Raised) : Fenced s (s.fail t e) := by
  unfold fail
  split
  · split
    · exact .mark rfl rfl rfl
    · dsimp only
      split
      · exact .same rfl
      · exact .mark rfl rfl rfl
  · exact .same rfl
  · split
    · exact .same rfl
    · exact .same rfl
  · exact .same rfl

/-- `request` either respects the fence whatever its method, or it writes one frame. -/
theorem request_cases (py : Interpreter) (s : State) (t : Tid) (method : Str) (params : Dict)
    (writeOk : Bool) :
    Fenced s (s.request py t method params writeOk) ∨
      Latched s (s.request py t method params writeOk) ∧
        ∃ id, (s.request py t method params writeOk).desk.written =
          s.desk.written ++ [⟨id, method, params⟩] := by
  have hdesk : s.createReadTask.desk = s.desk := s.toEngine.createReadTask_desk
  unfold request
  split
  · exact .inl (fail_fenced s t _)
  · dsimp only
    have hfail : ∀ e d, d.written = s.desk.written →
        Fenced s (({ s.setEngine s.createReadTask with desk := d } : State).fail t e) :=
      fun e d hd => (fail_fenced _ t e).after hd rfl rfl
    split
    · refine .inl (hfail _ _ ?_)
      show s.createReadTask.desk.written = _
      rw [hdesk]
    · split
      · refine .inr ⟨⟨id, fun hs h => hs h⟩, s.desk.nextId + 1, ?_⟩
        show s.createReadTask.desk.written ++ [⟨s.createReadTask.desk.nextId + 1, _, _⟩] = _
        rw [hdesk]
      · refine .inl (hfail _ _ ?_)
        show s.createReadTask.desk.written = _
        rw [hdesk]

theorem request_fenced (py : Interpreter) (s : State) (t : Tid) (method : Str) (params : Dict)
    (writeOk : Bool) (hm : s.restartRequired = true → method ∉ fencedMethods) :
    Fenced s (s.request py t method params writeOk) := by
  obtain h | ⟨h, id, hw⟩ := request_cases py s t method params writeOk
  · exact h
  · exact ⟨h, .inr ⟨⟨id, method, params⟩, hw, hm⟩⟩

theorem request_latched (py : Interpreter) (s : State) (t : Tid) (method : Str) (params : Dict)
    (writeOk : Bool) : Latched s (s.request py t method params writeOk) := by
  obtain h | ⟨h, -⟩ := request_cases py s t method params writeOk
  · exact h.toLatched
  · exact h

theorem transition_fenced (py : Interpreter) (s : State) (t : Tid) (c : Value) (writeOk : Bool) :
    Fenced s (s.transition py t c writeOk) := by
  unfold transition
  dsimp only
  split_ifs with h1 h2
  · exact .same rfl
  · exact .same rfl
  · split
    · exact .same rfl
    · refine (request_fenced py _ t _ _ _ fun h => ?_).after rfl rfl rfl
      exact absurd h h2

theorem shutdownSection_fenced (py : Interpreter) (s : State) (t : Tid) (writeOk : Bool) :
    Fenced s (s.shutdownSection py t writeOk) := by
  unfold shutdownSection
  split
  · exact .same rfl
  · exact (request_fenced py _ t _ _ _ fun _ => by decide).after rfl rfl rfl

theorem lifecycleSection_fenced (py : Interpreter) (s : State) (t : Tid) (writeOk : Bool) :
    Fenced s (s.lifecycleSection py t writeOk) := by
  unfold lifecycleSection
  split
  · exact transition_fenced py s t _ writeOk
  · exact shutdownSection_fenced py s t writeOk

theorem enterLifecycle_fenced (py : Interpreter) (s : State) (t : Tid) (writeOk : Bool) :
    Fenced s (s.enterLifecycle py t writeOk) := by
  unfold enterLifecycle
  split
  · exact (lifecycleSection_fenced py _ t writeOk).after rfl rfl rfl
  · exact .same rfl

theorem callTool_fenced (py : Interpreter) (s : State) (t : Tid) (name : Value) (arguments : Dict)
    (context : Option ToolExecutionContext) (writeOk : Bool) :
    Fenced s (s.callTool py t name arguments context writeOk) := by
  unfold callTool
  dsimp only
  split_ifs with h1 h2
  · exact .same rfl
  · exact .same rfl
  · have hreq : ∀ params, Fenced s (s.request py t TOOLS_CALL params writeOk) :=
      fun params => request_fenced py s t _ params writeOk fun h => absurd h h1
    split
    · exact hreq _
    · split
      · split
        · exact hreq _
        · exact .same rfl
      · exact .same rfl

theorem callHostIngress_fenced (py : Interpreter) (s : State) (t : Tid) (name payload : Value)
    (writeOk : Bool) : Fenced s (s.callHostIngress py t name payload writeOk) := by
  unfold callHostIngress
  split_ifs with h1
  · exact .same rfl
  · split
    · split
      · exact .same rfl
      · split
        · refine request_fenced py s t _ _ writeOk fun h => ?_
          simp [h] at h1
        · exact .same rfl
    · exact .same rfl

/-- Every call but a direct `request` respects the fence. -/
theorem invoke_fenced (py : Interpreter) (v : Str) (s : State) (t : Tid) (writeOk : Bool)
    (hop : ∀ m p, (s.calls t).op ≠ .request m p) : Fenced s (s.invoke py v t writeOk) := by
  unfold invoke
  split
  · split
    · exact .same rfl
    · refine .same ?_
      show (s.restartRequired, s.ready, s.createReadTask.desk.written) = _
      rw [s.toEngine.createReadTask_desk]
  · rename_i m p hm
    exact absurd hm (hop m p)
  · exact request_fenced py s t _ _ writeOk fun _ => by decide
  · split
    · rename_i hr
      exact .mark rfl hr rfl
    · exact request_fenced py s t _ _ writeOk fun _ => by decide
  · split_ifs with h1 h2
    · exact .same rfl
    · exact .same rfl
    · exact request_fenced py s t _ _ writeOk fun h => absurd h h1
  · exact callTool_fenced py s t _ _ _ writeOk
  · exact callHostIngress_fenced py s t _ _ writeOk
  · split
    · exact .same rfl
    · exact enterLifecycle_fenced py s t writeOk
  · exact .same rfl
  · exact enterLifecycle_fenced py s t writeOk
  · refine .same ?_
    show (s.restartRequired, s.ready, s.createCloseTask.desk.written) = _
    rw [s.toEngine.createCloseTask_desk]

theorem completeHealth_fenced (s : State) (t : Tid) (v : Value) :
    Fenced s (s.completeHealth t v) := by
  unfold completeHealth
  split
  · split
    · rename_i hr
      exact .mark rfl hr rfl
    · rename_i hr
      split
      · refine ⟨⟨id, fun _ h => ?_⟩, .inl rfl⟩
        exact absurd h hr
      · exact .same rfl
  · exact .same rfl

theorem completeTransition_fenced (s : State) (t : Tid) (v : Value) :
    Fenced s (s.completeTransition t v) := by
  unfold completeTransition
  dsimp only
  split
  · split
    · exact .mark rfl rfl rfl
    · exact .same rfl
    · split
      · exact .same rfl
      · exact .mark rfl rfl rfl
    · exact .mark rfl rfl rfl
  · exact .mark rfl rfl rfl

theorem complete_fenced (py : Interpreter) (p : Str) (s : State) (t : Tid) (v : Value) :
    Fenced s (s.complete py p t v) := by
  unfold complete
  split
  · unfold completeInitialize
    dsimp only
    split
    · split
      · split_ifs
        · split
          · exact .same rfl
          · split
            · exact .same rfl
            · exact .same rfl
        · exact .same rfl
      · exact .same rfl
    · exact .same rfl
  · exact completeHealth_fenced s t v
  · unfold completeListTools
    dsimp only
    split
    · split
      · split
        · exact .same rfl
        · exact .same rfl
        · exact .same rfl
      · exact .same rfl
    · exact .same rfl
  · split
    · exact .same rfl
    · exact .same rfl
  · exact completeTransition_fenced s t v
  · split
    · exact .same rfl
    · exact .same rfl
  · exact .same rfl

theorem unwind_fenced (s : State) (t : Tid) (id : Nat) (e : Raised) :
    Fenced s (s.unwind t id e) :=
  (fail_fenced _ t e).after rfl rfl rfl

theorem resume_fenced {py : Interpreter} {p : Str} {ok : Bool}
    (h : s.resume py p t ok = some s') : Fenced s s' := by
  unfold resume at h
  dsimp only at h
  split at h
  · split_ifs at h
    · cases h
      exact .same rfl
    · cases h
      exact .same rfl
    · cases h
      exact lifecycleSection_fenced py s t ok
  · split_ifs at h
    · cases h
      exact unwind_fenced s t _ _
    · cases h
      exact .same rfl
    · cases h
      exact unwind_fenced s t _ _
  · split at h
    · cases h
    · cases h
      exact unwind_fenced s t _ _
    · split_ifs at h
      · cases h
        exact unwind_fenced s t _ _
      · split at h
        · cases h
          exact (complete_fenced py p _ t _).after rfl rfl rfl
        · cases h
          exact unwind_fenced s t _ _
        · cases h
          exact unwind_fenced s t _ _
  · split_ifs at h
    · cases h
      exact .same rfl
    · split at h
      · cases h
        exact .same rfl
      · cases h
  · cases h

theorem cancel_fenced (h : s.cancel t = some s') : Fenced s s' := by
  unfold cancel at h
  dsimp only at h
  split at h
  · cases h
  · cases h
  · cases h
    refine .same ?_
    show (s.restartRequired, s.ready, (s.desk.cancel _).written) = _
    rw [(s.desk.cancel_frame _).1]
  · cases h
    exact .same rfl

theorem signal_fenced {py : Interpreter} {shut : Bool} {g : Signal} {e : Engine}
    (h : s.toEngine.step py shut g = some e) : Fenced s (s.setEngine e) := by
  refine .same ?_
  show (s.restartRequired, s.ready, e.desk.written) = _
  rcases Engine.step_desk h with hd | ⟨b, r, -, -, rfl⟩ | ⟨x, rfl⟩
  · rw [hd]
  · rw [(s.desk.answer_frame r).1]
  · rfl

end State

/-- A caller that sends a frame of its own making, past the client's methods. -/
def Action.isRequest : Action → Bool
  | .call _ (.request _ _) _ => true
  | _ => false

open State in
/-- Every step respects the fence. -/
theorem step_fenced {py : Interpreter} {p : Str} {s s' : State} {a : Action}
    (ha : a.isRequest = false) (h : step py p s a = some s') : Fenced s s' := by
  cases a with
  | call t op writeOk =>
    simp only [step] at h
    split at h
    · cases h
      refine (invoke_fenced py p _ t writeOk ?_).after rfl rfl rfl
      intro m q hop
      simp only [setCall, Function.update_self] at hop
      rw [hop] at ha
      cases ha
    · cases h
  | resume t ok => exact resume_fenced h
  | cancel t => exact cancel_fenced h
  | signal g =>
    obtain ⟨e, he, rfl⟩ := Option.map_eq_some_iff.1 h
    exact signal_fenced he

theorem step_latched {py : Interpreter} {p : Str} {s s' : State} {a : Action}
    (h : step py p s a = some s') : State.Latched s s' := by
  cases ha : a.isRequest with
  | false => exact (step_fenced ha h).toLatched
  | true =>
    unfold Action.isRequest at ha
    split at ha
    · rename_i t m q w
      simp only [step] at h
      split at h
      · cases h
        have hl := State.request_latched py (s.setCall t { op := .request m q }) t m q w
        have he : (s.setCall t { op := .request m q }).invoke py p t w =
            (s.setCall t { op := .request m q }).request py t m q w := by
          unfold State.invoke
          simp only [State.setCall, Function.update_self]
        rw [he]
        exact ⟨hl.restart, hl.ready⟩
      · cases h
    · cases ha

/-- A client behind its restart fence is not ready. -/
theorem not_ready_of_restartRequired {py : Interpreter} {p : Str} {s : State}
    (h : (machine py p).Reachable s) : s.restartRequired = true → s.ready = false :=
  h.invariant (p := fun s => s.restartRequired = true → s.ready = false) (fun _ => rfl)
    fun _ _ _ hs h => (step_latched h).ready hs

/-- Once the restart fence is up it stays up, `ready` stays false, and the frames that the
client's methods still write carry none of the fenced methods. -/
theorem restart_fence_holds {py : Interpreter} {p : Str} {s s' : State} {as : List Action}
    (hs : (machine py p).Reachable s) (hr : s.restartRequired = true)
    (hq : ∀ a ∈ as, a.isRequest = false) (h : (machine py p).runFrom s as = some s') :
    s'.restartRequired = true ∧ s'.ready = false ∧
      ∃ fs, s'.desk.written = s.desk.written ++ fs ∧ ∀ f ∈ fs, f.method ∉ fencedMethods := by
  induction as generalizing s with
  | nil =>
    cases h
    exact ⟨hr, not_ready_of_restartRequired hs hr, [], by simp⟩
  | cons a as ih =>
    simp only [Machine.runFrom] at h
    split at h
    · rename_i s₁ h₁
      have hf : State.Fenced s s₁ := step_fenced (hq a List.mem_cons_self) h₁
      obtain ⟨h1, h2, fs, h3, h4⟩ := ih (hs.step h₁) (hf.restart hr)
        (fun b hb => hq b (List.mem_cons_of_mem a hb)) h
      rcases hf.written with hw | ⟨f, hw, hm⟩
      · exact ⟨h1, h2, fs, by rw [h3, hw], h4⟩
      · refine ⟨h1, h2, f :: fs, by rw [h3, hw, List.append_assoc]; rfl, ?_⟩
        intro g hg
        rcases List.mem_cons.1 hg with rfl | hg
        · exact hm hr
        · exact h4 g hg
    · cases h

/-- The reply of a service that offers config transitions. -/
def transitionReply : JsonRpcResponse :=
  ⟨.int 1, .result (.dict [(.str (str "protocolVersion"), .str []),
    (.str (str "capabilities"), .dict
      [(.str CONFIG_TRANSITION_CAPABILITY, ConfigTransitionCapabilities.toDict {})])])⟩

def readyReply : JsonRpcResponse := ⟨.int 3, .result (.dict [(.str (str "ready"), .bool true)])⟩

/-- A client that has asked for its service's capabilities. -/
def introduced : State :=
  (machine .floatless []).after [.call 0 (.initializeCall none none) true, .signal .begin, .resume 0 true]

/-- A client whose transition was cancelled while a health request was on its way and another
transition waited for the lifecycle lock. -/
def fencedClient : Option State :=
  (machine .floatless []).runFrom
    (introduced.setEngine (introduced.readMessage (.response transitionReply)))
    [.resume 0 true, .call 1 (.prepareConfigTransition (.dict [])) true, .resume 1 true,
      .call 2 .health true, .resume 2 true, .call 3 (.prepareConfigTransition (.dict [])) true,
      .cancel 1, .resume 1 true]

/-- The ready reply and the queued transition find the fence. -/
theorem restart_fence_holds_late_health :
    ∃ s s' b, encodeMessage .floatless readyReply.toDict = .ok b ∧ fencedClient = some s ∧
      (machine .floatless []).Reachable s ∧ s.restartRequired = true ∧
      (machine .floatless []).runFrom s [.signal (.line b), .resume 2 true, .resume 3 true] = some s' ∧
      s'.ready = false ∧ ∃ fs, s'.desk.written = s.desk.written ++ fs ∧
        ∀ f ∈ fs, f.method ∉ fencedMethods := by
  obtain ⟨b, hb⟩ : ∃ b, encodeMessage .floatless transitionReply.toDict = .ok b := ⟨_, rfl⟩
  obtain ⟨c, hc⟩ : ∃ c, encodeMessage .floatless readyReply.toDict = .ok c := ⟨_, rfl⟩
  obtain ⟨s, hs⟩ : ∃ s, fencedClient = some s := ⟨_, rfl⟩
  have hreach : (machine .floatless []).Reachable s := by
    have hline : (machine .floatless []).step introduced (.signal (.line b)) =
        some (introduced.setEngine (introduced.readMessage (.response transitionReply))) :=
      step_line rfl hb (by decide) rfl
    have hstart : (machine .floatless []).Reachable introduced := Machine.reachable_after rfl
    exact (hstart.step hline).run hs
  have hf : (fencedClient.map State.restartRequired) = some true := rfl
  have hread : (fencedClient.map fun s => s.mail.read) = some .reading := rfl
  have hrun : (fencedClient.bind fun s => (machine .floatless []).runFrom
      (s.setEngine (s.readMessage (.response readyReply)))
      [.resume 2 true, .resume 3 true]).isSome = true := rfl
  simp only [hs, Option.map_some, Option.some.injEq, Option.bind_some] at hf hread hrun
  obtain ⟨s', hs'⟩ := Option.isSome_iff_exists.1 hrun
  have hstep : (machine .floatless []).runFrom s [.signal (.line c), .resume 2 true, .resume 3 true] =
      some s' := by
    have hline : (machine .floatless []).step s (.signal (.line c)) =
        some (s.setEngine (s.readMessage (.response readyReply))) := step_line hread hc (by decide) rfl
    rw [Machine.runFrom, hline]
    exact hs'
  exact ⟨s, s', c, hc, hs, hreach, hf, hstep,
    (restart_fence_holds hreach hf (by simp [Action.isRequest]) hstep).2⟩

end KestrelSdk.Client

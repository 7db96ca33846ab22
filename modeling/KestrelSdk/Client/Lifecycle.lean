import KestrelSdk.Client.Fence
import KestrelSdk.Client.Leases

/-! The lifecycle requests of a client, one at a time, and the shutdown last. -/

namespace KestrelSdk.Client

open Json Protocol Asyncio

namespace State

/-- A call under the lifecycle lock has sent its request before any shutdown of the client, or has
sent none. -/
def Enters (s s' : State) (t : Tid) : Prop :=
  (s'.calls t).id = none ∨
    (s.shutdownStarted = false ∧ (s'.calls t).id = some (s.desk.nextId + 1) ∧
      ((s'.calls t).op = .shutdown → s'.shutdownStarted = true) ∧
      (s.lifecycleLock.owner = none ∨ s.lifecycleLock.owner = some t))

/-- A call that keeps its operation and its identifier, and awaits no more than it did. -/
def Stays (s s' : State) (t : Tid) : Prop :=
  (s'.calls t).op = (s.calls t).op ∧ (s'.calls t).id = (s.calls t).id ∧
    ((s.calls t).pc.awaiting = none → (s'.calls t).pc.awaiting = none)

/-- The shutdown of a client is its last lifecycle request. -/
structure Concluding (s : State) : Prop where
  stopped : ∀ t a, (s.calls t).op = .shutdown → (s.calls t).id = some a → s.shutdownStarted = true
  last : ∀ t u a b, (s.calls t).op = .shutdown → (s.calls t).id = some a →
    (s.calls u).op.locks = true → (s.calls u).id = some b → u ≠ t →
    b < a ∧ (s.calls u).pc.awaiting = none

variable {py : Interpreter} {p : Str} {s s' : State} {t : Tid}

theorem finish_enters {q : State} (r : Except Raised Value) (hid : (q.calls t).id = none) :
    Enters s (q.finish t r) t := by
  left
  rw [finish_calls]
  exact hid

theorem lifecycleSection_enters {l : FifoLock} (writeOk : Bool) (hq : Queued (s.calls t))
    (ho : s.lifecycleLock.owner = none ∨ s.lifecycleLock.owner = some t)
    (h₀ : (s.calls t).pc.awaiting = none) :
    Enters s (({ s with lifecycleLock := l } : State).lifecycleSection py t writeOk) t := by
  obtain ⟨hlocks, hid, hconfig⟩ := hq
  have hfinish : ∀ e, Enters s
      (({ s with lifecycleLock := l } : State).releaseLifecycle.finish t (.error e)) t :=
    fun e => finish_enters (.error e) hid
  unfold lifecycleSection
  split
  · rename_i v hv
    unfold transition
    dsimp only
    split_ifs with hstopped hfenced
    · exact hfinish _
    · exact hfinish _
    · split
      · exact hfinish _
      · rename_i c _
        have hcall : (({ s with lifecycleLock := l } : State).setCall t
            { s.calls t with live := c.supportsLiveApply }).calls t =
            { s.calls t with live := c.supportsLiveApply } := by
          simp only [setCall, Function.update_self]
        rcases request_outcome py (({ s with lifecycleLock := l } : State).setCall t
          { s.calls t with live := c.supportsLiveApply }) t CONFIG_TRANSITION
          [(.str (str "config"), v)] writeOk with ⟨e, hr⟩ | ⟨-, hr, -⟩
        · left
          rw [hr, hcall]
          exact hid
        · right
          refine ⟨Bool.eq_false_iff.2 hstopped, ?_, fun hop => ?_, ho⟩
          · rw [hr]
            rfl
          · rw [hr, hcall] at hop
            cases hv.symm.trans hop
  · unfold shutdownSection
    split
    · exact hfinish _
    · rename_i hstopped
      rcases request_outcome py ({ s with lifecycleLock := l, shutdownStarted := true } : State) t
        SHUTDOWN [] writeOk with ⟨e, hr⟩ | ⟨-, hr, -⟩
      · left
        rw [hr]
        exact hid
      · right
        refine ⟨Bool.eq_false_iff.2 hstopped, ?_, fun _ => ?_, ho⟩
        · rw [hr]
        · have hop : ∀ m q, (s.calls t).op = .request m q → m = SHUTDOWN ∧ q = [] := by
            intro m q hop
            rw [hop] at hlocks
            cases hlocks
          have hcalled := request_called py
            ({ s with lifecycleLock := l, shutdownStarted := true } : State) t SHUTDOWN [] writeOk h₀ hop
          exact hcalled.shutdown rfl

theorem enterLifecycle_enters (writeOk : Bool) (hq : Queued (s.calls t))
    (h₀ : (s.calls t).pc.awaiting = none) : Enters s (s.enterLifecycle py t writeOk) t := by
  unfold enterLifecycle
  split
  · rename_i l hl
    exact lifecycleSection_enters writeOk hq (.inl (FifoLock.acquire_owner hl).2) h₀
  · left
    simp only [setPc, setCall, Function.update_self]
    exact hq.unsent

/-- The first step of a lifecycle call. -/
theorem invoke_enters (py : Interpreter) (writeOk : Bool) (hid : (s.calls t).id = none)
    (hlocks : (s.calls t).op.locks = true) (h₀ : (s.calls t).pc.awaiting = none) :
    Enters s (s.invoke py p t writeOk) t := by
  cases hop : (s.calls t).op with
  | prepareConfigTransition v =>
    cases v with
    | dict d =>
      unfold invoke
      simp only [hop]
      split
      · exact finish_enters _ hid
      · apply enterLifecycle_enters writeOk ⟨hlocks, hid, fun v hv => ?_⟩ h₀
        rw [hop] at hv
        cases hv
        exact ⟨d, rfl⟩
    | _ =>
      unfold invoke
      simp only [hop]
      exact finish_enters _ hid
  | shutdown =>
    unfold invoke
    simp only [hop]
    apply enterLifecycle_enters writeOk ⟨hlocks, hid, fun v hv => ?_⟩ h₀
    rw [hop] at hv
    cases hv
  | _ =>
    rw [hop] at hlocks
    cases hlocks

/-- A lifecycle call that runs on. -/
theorem resume_enters {ok : Bool} (hl : s.Leased) (h : s.resume py p t ok = some s') :
    Enters s s' t ∨ Stays s s' t := by
  cases h₀ : (s.calls t).pc.awaiting with
  | some id =>
    right
    obtain ⟨pc, hcall, -⟩ := resume_awaiting h₀ h
    refine ⟨?_, ?_, fun hnone => ?_⟩
    · rw [hcall]
    · rw [hcall]
    · rw [h₀] at hnone
      cases hnone
  | none =>
    have hkept : ∀ r, Stays s (s.finish t r) t := by
      intro r
      unfold Stays
      rw [finish_calls]
      exact ⟨rfl, rfl, fun _ => rfl⟩
    unfold resume at h
    dsimp only at h
    split at h
    · rename_i hpc
      have hq := (hl.parked t).queued hpc
      left
      split_ifs at h with h1 h2 h3
      · cases h
        exact finish_enters (q := { s with lifecycleLock := s.lifecycleLock.release }) _ hq.unsent
      · cases h
        exact finish_enters (q := { s with lifecycleLock := s.lifecycleLock.cancelWaiter t }) _
          hq.unsent
      · cases h
        exact lifecycleSection_enters (l := s.lifecycleLock) ok hq (.inr h3) h₀
    · rename_i hpc
      rw [hpc] at h₀
      cases h₀
    · rename_i hpc
      rw [hpc] at h₀
      cases h₀
    · right
      split_ifs at h
      · cases h
        exact hkept _
      · split at h
        · cases h
          exact hkept _
        · cases h
    · cases h

/-- A step of call `t`. -/
theorem Concluding.called (h : s.Concluding) (ht : s.Tabled) (hl : s.Leased) (hc : Called s s' t)
    (hm : (s'.calls t).op.locks = true → Enters s s' t ∨ Stays s s' t) : s'.Concluding := by
  have hkept : ∀ u, u ≠ t → s'.calls u = s.calls u := hc.others
  constructor
  · intro u a hop hid
    by_cases hu : u = t
    · subst hu
      have hlocks : (s'.calls u).op.locks = true := by
        rw [hop]
        rfl
      rcases hm hlocks with (hnone | ⟨-, -, hstops, -⟩) | ⟨hsame, hsameid, -⟩
      · rw [hnone] at hid
        cases hid
      · exact hstops hop
      · exact hc.shutdown (h.stopped u a (hsame ▸ hop) (hsameid ▸ hid))
    · rw [hkept u hu] at hop hid
      exact hc.shutdown (h.stopped u a hop hid)
  · intro v u a b hop hid hlocks hub hne
    by_cases hv : v = t
    · subst hv
      rw [hkept u hne] at hlocks hub ⊢
      have hvlocks : (s'.calls v).op.locks = true := by
        rw [hop]
        rfl
      rcases hm hvlocks with (hnone | ⟨-, hsent, -, ho⟩) | ⟨hsame, hsameid, -⟩
      · rw [hnone] at hid
        cases hid
      · obtain rfl := Option.some.inj (hsent.symm.trans hid)
        have hle := ht.ids u b hub
        refine ⟨by omega, ?_⟩
        cases hawait : (s.calls u).pc.awaiting with
        | none => rfl
        | some i =>
          have howner := hl.owner u i hlocks hawait
          rw [howner] at ho
          rcases ho with hnone | hsome
          · cases hnone
          · exact absurd (Option.some.inj hsome) hne
      · exact h.last v u a b (hsame ▸ hop) (hsameid ▸ hid) hlocks hub hne
    · rw [hkept v hv] at hop hid
      have hstopped := h.stopped v a hop hid
      by_cases hu : u = t
      · subst hu
        rcases hm hlocks with (hnone | ⟨hopen, -⟩) | ⟨hsame, hsameid, hawait⟩
        · rw [hnone] at hub
          cases hub
        · rw [hstopped] at hopen
          cases hopen
        · obtain ⟨hlt, hnone⟩ := h.last v u a b hop hid (hsame ▸ hlocks) (hsameid ▸ hub) hne
          exact ⟨hlt, hawait hnone⟩
      · rw [hkept u hu] at hlocks hub ⊢
        exact h.last v u a b hop hid hlocks hub hne

theorem Concluding.start : Concluding {} := by
  constructor
  · intro t a _ hid
    cases hid
  · intro t u a b _ hid
    cases hid

end State

variable {py : Interpreter} {p : Str} {s s' : State} {a : Action}

open State in
theorem step_concluding (h : step py p s a = some s') (ht : s.Tabled) (hl : s.Leased)
    (hs : s.Concluding) : s'.Concluding := by
  rcases step_cases h ht with ⟨t, hcaller, hc⟩ | ⟨g, e, rfl, he, rfl⟩
  · apply hs.called ht hl hc
    intro hlocks
    cases a with
    | call u op w =>
      cases hcaller
      simp only [step] at h
      split at h
      · cases h
        have hcall : (s.setCall t { op }).calls t = { op } := by
          simp only [setCall, Function.update_self]
        have hop : ((s.setCall t { op }).calls t).op.locks = true := by
          have hops : (((s.setCall t { op }).invoke py p t w).calls t).op =
              ((s.setCall t { op }).calls t).op :=
            congrFun (invoke_ops (s.setCall t { op }) w) t
          rw [← hops]
          exact hlocks
        have henters := invoke_enters (p := p) py w (s := s.setCall t { op })
          (by rw [hcall]) hop (by rw [hcall]; rfl)
        exact .inl henters
      · cases h
    | resume u ok =>
      cases hcaller
      exact resume_enters hl h
    | cancel u =>
      cases hcaller
      right
      unfold Stays
      rw [(cancel_call h).1]
      exact ⟨rfl, rfl, id⟩
    | signal g => cases hcaller
  · exact ⟨hs.stopped, hs.last⟩

theorem reachable_concluding (h : (machine py p).Reachable s) : s.Concluding := by
  have key := h.invariant (p := fun s => (s.Tabled ∧ s.Leased) ∧ s.Concluding)
    ⟨⟨.start, .start⟩, .start⟩ fun s a s' hs ha =>
      ⟨⟨(step_tabled ha hs.1.1).2, step_leased ha hs.1.1 hs.1.2⟩,
        step_concluding ha hs.1.1 hs.1.2 hs.2⟩
  exact key.2

/-- The lifecycle requests of a client go one at a time, and the shutdown is the last: every other
call under the lifecycle lock that has sent a request sent it before and awaits it no more, and it is
a config transition. -/
theorem shutdown_last (h : (machine py p).Reachable s) :
    (∀ t u a b, (s.calls t).op.locks = true → (s.calls u).op.locks = true →
      (s.calls t).pc.awaiting = some a → (s.calls u).pc.awaiting = some b → t = u) ∧
    ∀ t u a b, (s.calls t).op = .shutdown → (s.calls t).id = some a →
      (s.calls u).op.locks = true → (s.calls u).id = some b → u ≠ t →
      b < a ∧ (s.calls u).pc.awaiting = none ∧ ∃ v, (s.calls u).op = .prepareConfigTransition v := by
  have hl := reachable_leased h
  have hc := reachable_concluding h
  constructor
  · intro t u a b ht hu hta hub
    have howner := hl.owner t a ht hta
    rw [hl.owner u b hu hub] at howner
    exact (Option.some.inj howner).symm
  · intro t u a b hop hid hlocks hub hne
    obtain ⟨hlt, hawait⟩ := hc.last t u a b hop hid hlocks hub hne
    refine ⟨hlt, hawait, ?_⟩
    cases hu : (s.calls u).op with
    | prepareConfigTransition v => exact ⟨v, rfl⟩
    | shutdown =>
      have hlocks' : (s.calls t).op.locks = true := by
        rw [hop]
        rfl
      have hgt := (hc.last u t b a hu hub hlocks' hid (Ne.symm hne)).1
      omega
    | _ =>
      rw [hu] at hlocks
      cases hlocks

/-- A client that shuts its service down after a config transition. -/
def shuttingClient : Option State :=
  (machine .floatless []).runFrom
    (introduced.setEngine (introduced.readMessage (.response transitionReply)))
    [.resume 0 true, .call 1 (.prepareConfigTransition (.dict [])) true, .resume 1 true,
      .call 2 .shutdown true, .cancel 1, .resume 1 true, .resume 2 true]

/-- What the run leaves of its two calls. -/
def State.shutsLast (s : State) : Bool :=
  decide ((s.calls 1).id = some 2) && decide ((s.calls 2).id = some 3) && (s.calls 1).op.locks &&
    match (s.calls 2).op with
    | .shutdown => true
    | _ => false

theorem shuttingClient_shutsLast : shuttingClient.any State.shutsLast = true := by
  decide +kernel

theorem State.shutsLast_spec (h : s.shutsLast = true) :
    (s.calls 1).id = some 2 ∧ (s.calls 2).id = some 3 ∧ (s.calls 1).op.locks = true ∧
      (s.calls 2).op = .shutdown := by
  simp only [shutsLast, Bool.and_eq_true, decide_eq_true_eq] at h
  obtain ⟨⟨⟨hfirst, hsecond⟩, hlocks⟩, hop⟩ := h
  refine ⟨hfirst, hsecond, hlocks, ?_⟩
  split at hop
  · assumption
  · cases hop

/-- The shutdown waits for the transition. -/
theorem shutdown_last_transition :
    ∃ s a b, (machine .floatless []).Reachable s ∧ (s.calls 2).id = some a ∧
      (s.calls 1).id = some b ∧ b < a ∧ (s.calls 1).pc.awaiting = none := by
  obtain ⟨b, hb⟩ : ∃ b, encodeMessage .floatless transitionReply.toDict = .ok b := ⟨_, rfl⟩
  obtain ⟨s, hs, hcheck⟩ := (Option.any_eq_true _ _).1 shuttingClient_shutsLast
  obtain ⟨hfirst, hsecond, hlocks, hop⟩ := State.shutsLast_spec hcheck
  have hreach : (machine .floatless []).Reachable s := by
    have hline : (machine .floatless []).step introduced (.signal (.line b)) =
        some (introduced.setEngine (introduced.readMessage (.response transitionReply))) :=
      step_line rfl hb (by decide) rfl
    have hstart : (machine .floatless []).Reachable introduced := Machine.reachable_after rfl
    exact (hstart.step hline).run hs
  obtain ⟨hlt, hawait, -⟩ :=
    (shutdown_last hreach).2 2 1 3 2 hop hsecond hlocks hfirst (by decide)
  exact ⟨s, 3, 2, hreach, hsecond, hfirst, hlt, hawait⟩

end KestrelSdk.Client

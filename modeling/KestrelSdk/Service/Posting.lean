import KestrelSdk.Service.Turns

/-! The jobs of a service whose wire may break and whose tasks may be cancelled. -/

namespace KestrelSdk.Service

open Json Protocol Asyncio

/-- A frame that the wire does not take. -/
def Barred (rt : Runtime) (broken : Bool) (data : Value) : Prop :=
  broken = true ∨ ∃ e, encodeMessage rt.py data = .error e

/-- The error response to a request. -/
def Refusal (r : JsonRpcRequest) (data : Value) : Prop :=
  ∃ (code : Int) (message : Str),
    data = JsonRpcResponse.toDict ⟨r.id, .error ⟨.int code, message, .none⟩⟩ ∧
      (message = [] → Shows r)

/-- What the `except` clauses of `_handle_request` send. -/
def Rescued (handled : Option JsonRpcRequest) (data : Value) : Option JsonRpcRequest → Prop
  | none => ∃ r, handled = some r ∧ Refusal r data
  | some _ => False

/-- What `_send` of a frame comes to: the frame, or the error response where the wire is barred. -/
def Offered (rt : Runtime) (broken : Bool) (data : Value) (handled : Option JsonRpcRequest)
    (data' : Value) (handled' : Option JsonRpcRequest) : Prop :=
  data' = data ∧ handled' = handled ∨ Barred rt broken data ∧ Rescued handled data' handled'

/-- Where a job stands after a step at the wire, and the frames of the step. -/
inductive Posted (rt : Runtime) (broken : Bool) (P : Value → Option JsonRpcRequest → Prop)
    (i : Nat) : JobPc → List Sent → Prop where
  | waits (data : Value) (handled : Option JsonRpcRequest) (hp : P data handled) :
      Posted rt broken P i (.locking data handled) []
  | writes (data : Value) (handled : Option JsonRpcRequest) (bytes : Bytes) (hp : P data handled)
      (hb : encodeMessage rt.py data = .ok bytes) (hw : broken = false) :
      Posted rt broken P i (.draining handled) [⟨i, data, bytes⟩]
  | ends (result : Except Exn Unit) : Posted rt broken P i (.ended result) []

theorem Posted.mono {rt : Runtime} {broken : Bool} {P Q : Value → Option JsonRpcRequest → Prop}
    {i : Nat} {p : JobPc} {new : List Sent} (h : Posted rt broken P i p new)
    (hPQ : ∀ data handled, P data handled → Q data handled) : Posted rt broken Q i p new := by
  cases h with
  | waits data handled hp => exact .waits data handled (hPQ data handled hp)
  | writes data handled bytes hp hb hw => exact .writes data handled bytes (hPQ data handled hp) hb hw
  | ends result => exact .ends result

/-- A step of job `i` to `p` which writes `new` and leaves the lifecycle `life`. -/
structure Moved (s s' : Server) (i : Nat) (life : Lifecycle) (p : JobPc) (new : List Sent) :
    Prop where
  jobs : s'.jobs = (s.setPc i p).jobs
  frames : s'.frames = s.frames ++ new
  life : s'.life = life
  broken : s'.broken = s.broken
  loop : ∀ j, s.loop = .awaiting j → j ≠ i ∨ p.isEnded = false → s'.loop = .awaiting j

/-- A step of job `i` at the wire. -/
def Posts (rt : Runtime) (P : Value → Option JsonRpcRequest → Prop) (i : Nat) (s s' : Server) :
    Prop :=
  ∃ p new, Moved s s' i s.life p new ∧ Posted rt s.broken P i p new

theorem Posts.mono {rt : Runtime} {P Q : Value → Option JsonRpcRequest → Prop} {i : Nat}
    {s s' : Server} (h : Posts rt P i s s') (hPQ : ∀ data handled, P data handled → Q data handled) :
    Posts rt Q i s s' := by
  obtain ⟨p, new, hm, hp⟩ := h
  exact ⟨p, new, hm, hp.mono hPQ⟩

/-- A step that begins with the write lock. -/
theorem Posts.lock {rt : Runtime} {P : Value → Option JsonRpcRequest → Prop} {i : Nat}
    {s s' : Server} {writeLock : FifoLock} (h : Posts rt P i { s with writeLock } s') :
    Posts rt P i s s' := by
  obtain ⟨p, new, hm, hp⟩ := h
  exact ⟨p, new, ⟨hm.jobs, hm.frames, hm.life, hm.broken, hm.loop⟩, hp⟩

namespace Server

variable {rt : Runtime} {P : Value → Option JsonRpcRequest → Prop} {s s' : Server} {i : Nat}
  {raised : Server → Exn → Server}

theorem finish_posts (rt : Runtime) (P : Value → Option JsonRpcRequest → Prop) (s : Server) (i : Nat)
    (result : Except Exn Unit) : Posts rt P i s (s.finish i result) := by
  have hloop : ∀ j, s.loop = .awaiting j → j ≠ i ∨ (JobPc.ended result).isEnded = false →
      (s.finish i result).loop = .awaiting j := by
    intro j hj hor
    rcases hor with hji | hended
    · unfold finish
      simp only [hj, if_neg hji]
    · cases hended
  exact ⟨.ended result, [], ⟨rfl, (List.append_nil _).symm, rfl, rfl, hloop⟩, .ends result⟩

theorem waits_posts {data : Value} {handled : Option JsonRpcRequest} (hp : P data handled) :
    Posts rt P i s (s.setPc i (.locking data handled)) :=
  ⟨.locking data handled, [], ⟨rfl, (List.append_nil _).symm, rfl, rfl, fun _ h _ => h⟩,
    .waits data handled hp⟩

theorem write_posts {data : Value} {handled : Option JsonRpcRequest} (hp : P data handled)
    (hraised : ∀ e, Barred rt s.broken data →
      Posts rt P i s.releaseWrite (raised s.releaseWrite e)) :
    Posts rt P i s (s.write rt i data handled raised) := by
  unfold write
  split
  · cases he : encodeMessage rt.py data with
    | error e =>
      have hposts := hraised (rt.raises e) (.inr ⟨e, he⟩)
      exact hposts.lock
    | ok bytes =>
      dsimp only
      split
      · rename_i hb
        have hposts := hraised (.exception (some (str "connection lost"))) (.inl hb)
        exact hposts.lock
      · rename_i hb
        have hm : Moved s (({ s with frames := s.frames ++ [⟨i, data, bytes⟩] } : Server).setPc i
            (.draining handled)) i s.life (.draining handled) [⟨i, data, bytes⟩] :=
          ⟨rfl, rfl, rfl, rfl, fun _ h _ => h⟩
        exact ⟨_, _, hm, .writes data handled bytes hp he (Bool.eq_false_iff.2 hb)⟩
  · have hposts := finish_posts rt P s.releaseWrite i (.ok ())
    exact hposts.lock

theorem send_posts {data : Value} {handled : Option JsonRpcRequest} (hp : P data handled)
    (hraised : ∀ (s₀ : Server) e, Barred rt s.broken data →
      Posts rt P i s₀ (raised s₀ e)) :
    Posts rt P i s (s.send rt i data handled raised) := by
  unfold send
  cases hl : s.writeLock.acquire i with
  | mk writeLock owns =>
    cases owns with
    | true =>
      have hwrite : Posts rt P i { s with writeLock }
          ({ s with writeLock }.write rt i data handled raised) := by
        apply write_posts hp
        intro e hbarred
        apply hraised
        exact hbarred
      exact hwrite.lock
    | false =>
      have hposts : Posts rt P i { s with writeLock }
          (({ s with writeLock } : Server).setPc i (.locking data handled)) := waits_posts hp
      exact hposts.lock

theorem raise_posts (rt : Runtime) (s : Server) (i : Nat) (handled : Option JsonRpcRequest) (e : Exn) :
    Posts rt (Rescued handled) i s (raise rt i handled s e) := by
  unfold raise
  cases handled with
  | none => exact finish_posts rt _ s i _
  | some r =>
    cases hr : rescue r (s.isCancelling i) e with
    | none =>
      simp only [hr]
      exact finish_posts rt _ s i _
    | some response =>
      obtain ⟨code, message, rfl, -, hshows⟩ := rescue_error hr
      simp only [hr]
      apply send_posts
      · exact ⟨r, rfl, code, message, rfl, fun hm => (hshows.1 hm).1⟩
      · intro s₀ e' _
        exact finish_posts rt _ s₀ i _

/-- A frame at the wire, where the `except` clauses catch what is raised. -/
theorem offer_posts {data : Value} {handled : Option JsonRpcRequest}
    (hbarred : Barred rt s.broken data) (e : Exn) :
    Posts rt (Offered rt s.broken data handled) i s' (raise rt i handled s' e) :=
  (raise_posts rt s' i handled e).mono fun _ _ h => .inr ⟨hbarred, h⟩

theorem send_offers (rt : Runtime) (s : Server) (i : Nat) (data : Value)
    (handled : Option JsonRpcRequest) :
    Posts rt (Offered rt s.broken data handled) i s
      (s.send rt i data handled (raise rt i handled)) := by
  apply send_posts
  · exact .inl ⟨rfl, rfl⟩
  · intro s₀ e hbarred
    exact offer_posts hbarred e

theorem write_offers (rt : Runtime) (s : Server) (i : Nat) (data : Value)
    (handled : Option JsonRpcRequest) :
    Posts rt (Offered rt s.broken data handled) i s
      (s.write rt i data handled (raise rt i handled)) := by
  apply write_posts
  · exact .inl ⟨rfl, rfl⟩
  · intro e hbarred
    exact offer_posts hbarred e

end Server

/-- What answers the outcome of a request. -/
def Replied (rt : Runtime) (broken : Bool) (r : JsonRpcRequest) :
    Except Exn Value → Value → Option JsonRpcRequest → Prop
  | .ok v => Offered rt broken (JsonRpcResponse.toDict ⟨r.id, .result v⟩) (some r)
  | .error _ => Rescued (some r)

theorem reply_posts (rt : Runtime) (s : Server) (i : Nat) (r : JsonRpcRequest)
    (result : Except Exn Value) :
    Posts rt (Replied rt s.broken r result) i s (s.reply rt i r result) := by
  cases result with
  | ok v => exact Server.send_offers rt s i _ (some r)
  | error e => exact Server.raise_posts rt s i (some r) e

/-- The outcome of the checks of a request that reaches no hook. -/
def Dispatched.result : Dispatched → Option (Except Exn Value)
  | .returns v => some (.ok v)
  | .raises e => some (.error e)
  | .awaits _ => none

/-- What a job does in one step: from the lifecycle that it finds and where it stands, to the
lifecycle that it leaves, where it stands then, and the frames that it writes. -/
inductive Runs (rt : Runtime) (reg : Registry) (broken : Bool) (i : Nat) (life : Lifecycle) :
    JobPc → Lifecycle → JobPc → List Sent → Prop where
  | skips (r : JsonRpcRequest) :
      Runs rt reg broken i life (.created r) life (.ended (.error .cancelled)) []
  | calls (r : JsonRpcRequest) (life' : Lifecycle) (hook : Hook)
      (h : Awaits rt reg life r life' hook) :
      Runs rt reg broken i life (.created r) life' (.awaiting r hook) []
  | answers (r : JsonRpcRequest) (d : Dispatched) (result : Except Exn Value) (p : JobPc)
      (new : List Sent) (hd : dispatch rt reg life r = (life, d)) (hr : d.result = some result)
      (h : Posted rt broken (Replied rt broken r result) i p new) :
      Runs rt reg broken i life (.created r) life p new
  | completes (r : JsonRpcRequest) (hook : Hook) (outcome : Outcome) (p : JobPc) (new : List Sent)
      (h : Posted rt broken (Replied rt broken r (complete rt reg life hook outcome).2) i p new) :
      Runs rt reg broken i life (.awaiting r hook) (complete rt reg life hook outcome).1 p new
  | sends (data : Value) (handled : Option JsonRpcRequest) (p : JobPc) (new : List Sent)
      (h : Posted rt broken (Offered rt broken data handled) i p new) :
      Runs rt reg broken i life (.locking data handled) life p new
  | leaves (data : Value) (handled : Option JsonRpcRequest) :
      Runs rt reg broken i life (.locking data handled) life (.ended (.error .cancelled)) []
  | drains (handled : Option JsonRpcRequest) (p : JobPc) (new : List Sent)
      (h : Posted rt broken (Rescued handled) i p new) :
      Runs rt reg broken i life (.draining handled) life p new

/-- A step of job `i` that stands at `p₀`. -/
def Steps (rt : Runtime) (i : Nat) (p₀ : JobPc) (s s' : Server) : Prop :=
  ∃ life p new, Moved s s' i life p new ∧ Runs rt s.registry s.broken i s.life p₀ life p new

namespace Server

variable {rt : Runtime} {s s' : Server} {i : Nat} {r : JsonRpcRequest}

theorem handleRequest_steps (rt : Runtime) (s : Server) (i : Nat) (r : JsonRpcRequest) :
    Steps rt i (.created r) s (s.handleRequest rt i r) := by
  have hanswer : ∀ d result, dispatch rt s.registry s.life r = (s.life, d) →
      d.result = some result → Steps rt i (.created r) s (s.reply rt i r result) := by
    intro d result hd hr
    obtain ⟨p, new, hm, hp⟩ := reply_posts rt s i r result
    exact ⟨s.life, p, new, hm, .answers r d result p new hd hr hp⟩
  unfold handleRequest
  cases hd : dispatch rt s.registry s.life r with
  | mk life d =>
    cases d with
    | awaits hook =>
      have hm : Moved s (({ s with life, called := s.called ++ [.hook hook] } : Server).setPc i
          (.awaiting r hook)) i life (.awaiting r hook) [] :=
        ⟨rfl, (List.append_nil _).symm, rfl, rfl, fun _ h _ => h⟩
      exact ⟨life, _, _, hm, .calls r life hook (dispatch_awaits hd)⟩
    | returns v =>
      obtain rfl := dispatch_kept hd rfl
      exact hanswer _ _ hd rfl
    | raises e =>
      obtain rfl := dispatch_kept hd rfl
      exact hanswer _ _ hd rfl

theorem completeRequest_steps (rt : Runtime) (s : Server) (i : Nat) (r : JsonRpcRequest) (hook : Hook)
    (outcome : Outcome) :
    Steps rt i (.awaiting r hook) s (s.completeRequest rt i r hook outcome) := by
  obtain ⟨p, new, hm, hp⟩ := reply_posts rt
    { s with life := (complete rt s.registry s.life hook outcome).1 } i r
    (complete rt s.registry s.life hook outcome).2
  have hm' : Moved s (s.completeRequest rt i r hook outcome) i
      (complete rt s.registry s.life hook outcome).1 p new :=
    ⟨hm.jobs, hm.frames, hm.life, hm.broken, hm.loop⟩
  exact ⟨_, p, new, hm', .completes r hook outcome p new hp⟩

/-- Nothing catches the cancellation of a job's own task. -/
theorem raise_cancelled (hc : s.isCancelling i = true) (handled : Option JsonRpcRequest) :
    s.raise rt i handled .cancelled = s.finish i (.error .cancelled) := by
  cases handled with
  | none => rfl
  | some r =>
    have hr : rescue r (s.isCancelling i) .cancelled = none := by
      rw [hc]
      exact if_pos (.inr rfl)
    unfold raise
    simp only [hr]
    rfl

/-- A job that its cancellation ends. -/
theorem finish_steps {p : JobPc}
    (h : Runs rt s.registry s.broken i s.life p s.life (.ended (.error .cancelled)) []) :
    Steps rt i p s (s.finish i (.error .cancelled)) := by
  obtain ⟨p', new, hm, hp⟩ := finish_posts rt (fun _ _ => False) s i (.error .cancelled)
  have hm' : Moved s (s.finish i (.error .cancelled)) i s.life (.ended (.error .cancelled)) [] := by
    refine ⟨rfl, (List.append_nil _).symm, rfl, rfl, fun j hj hor => hm.loop j hj (.inl ?_)⟩
    rcases hor with hji | hended
    · exact hji
    · cases hended
  exact ⟨s.life, _, _, hm', h⟩

theorem leave_steps (hc : s.isCancelling i = true) (data : Value) (handled : Option JsonRpcRequest)
    (writeLock : FifoLock) :
    Steps rt i (.locking data handled) s
      (({ s with writeLock } : Server).raise rt i handled .cancelled) := by
  rw [raise_cancelled (s := { s with writeLock }) hc]
  have hfinish : Steps rt i (.locking data handled) { s with writeLock }
      (({ s with writeLock } : Server).finish i (.error .cancelled)) :=
    finish_steps (.leaves data handled)
  obtain ⟨life, p, new, hm, hr⟩ := hfinish
  exact ⟨life, p, new, ⟨hm.jobs, hm.frames, hm.life, hm.broken, hm.loop⟩, hr⟩

/-- What a resumed job does. -/
theorem resume_steps {a : Action} {p : JobPc} (h : s.resume rt i a p = some s') :
    Steps rt i p s s' := by
  have hkept : ∀ {Q : Value → Option JsonRpcRequest → Prop} {s₁ : Server} {p₀ : JobPc},
      Posts rt Q i s s₁ → (∀ p new, Posted rt s.broken Q i p new →
        Runs rt s.registry s.broken i s.life p₀ s.life p new) → Steps rt i p₀ s s₁ := by
    intro Q s₁ p₀ hposts hruns
    obtain ⟨p, new, hm, hp⟩ := hposts
    exact ⟨s.life, p, new, hm, hruns p new hp⟩
  have hdrain : ∀ {s₁ : Server} {handled : Option JsonRpcRequest},
      Posts rt (Rescued handled) i s s₁ → Steps rt i (.draining handled) s s₁ :=
    fun hposts => hkept hposts fun p new hp => .drains _ p new hp
  unfold resume at h
  split at h
  · rename_i r
    split at h
    · cases h
      exact finish_steps (.skips r)
    · cases h
      exact handleRequest_steps rt s i r
  · rename_i outcome r hook
    cases h
    exact completeRequest_steps rt s i r hook outcome
  · rename_i data handled
    split at h
    · cases h
      exact hkept (write_offers rt s i data handled) fun p new hp => .sends data handled p new hp
    · cases h
  · cases h
    exact hdrain (finish_posts rt _ s.releaseWrite i _).lock
  · rename_i e handled
    cases h
    exact hdrain (raise_posts rt s.releaseWrite i handled e).lock
  · rename_i data handled
    split at h
    · rename_i hc
      cases h
      exact leave_steps hc data handled _
    · cases h
  · rename_i handled
    split at h
    · cases h
      exact hdrain (raise_posts rt s.releaseWrite i handled .cancelled).lock
    · cases h
  · cases h

end Server

end KestrelSdk.Service

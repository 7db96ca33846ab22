import KestrelSdk.Service.Jobs

/-! What answers a request, and a line that is no message. -/

namespace KestrelSdk.Service

open Json Protocol Asyncio Server

variable {rt : Runtime} {raised : DecodeError → Exn} {version : Str} {F : Work → Prop}
  {s s' : Server} {a : Action} {i : Nat} {w : Work}

/-- A service whose wire takes every frame and whose jobs nothing cancels. -/
def undisturbed (rt : Runtime) (raised : DecodeError → Exn) (version : Str) :
    Machine Server Action :=
  (service rt raised version).restrict fun _ a => a.undisturbed

namespace Stepped

theorem works (h : Stepped rt s a s') : s'.works = s.works ++ brings rt s a := by
  cases h with
  | own i n p ha hp hn hs =>
    have hb : brings rt s a = [] := by
      cases a <;> first | rfl | cases ha
    rw [hb, List.append_nil, hs.works]
  | creates w p n loop ha hb hl hs =>
    rw [hb, hs.works]
    exact List.map_append
  | aside ha hb hj hl =>
    rw [hb, List.append_nil]
    exact congrArg (List.map Job.work) hj

theorem rank_lt (h : Stepped rt s a s') (ha : a.own.isSome = true) : s'.rank < s.rank := by
  cases h with
  | own i n p ha hp hn hs => exact hs.rank_lt hp hn
  | creates w p n loop hno hb hl hs =>
    rw [hno] at ha
    cases ha
  | aside hno hb hj hl =>
    rw [hno] at ha
    cases ha

end Stepped

theorem pc_of_settles {n : Nat} {p : JobPc} (h : Settles n i s s') (hp : s.pc i = some p) :
    ∃ p', s'.pc i = some p' ∧ p'.rank ≤ n ∧ (s'.loop = s.loop ∨ s.loop = .awaiting i ∧
      p'.isEnded = true ∧ (s'.loop = s'.again ∨ ∃ e, s'.loop = .raised (some i) e)) := by
  obtain ⟨p', hjobs, hr, hl⟩ := h
  obtain ⟨job, hj, -⟩ := job_of_pc hp
  refine ⟨p', ?_, hr, hl⟩
  unfold pc
  rw [hjobs, getElem?_setPc_self hj]
  rfl

theorem job_of_works (h : s.works[i]? = some w) : ∃ job, s.jobs[i]? = some job ∧ job.work = w := by
  unfold works at h
  rw [List.getElem?_map] at h
  exact Option.map_eq_some_iff.1 h

/-- What a job that is no event writes: at most one frame, and exactly one before it ends. While it
has not ended, it awaits its hook, or a step of it or of the jobs before it is enabled. -/
structure Answered (rt : Runtime) (raised : DecodeError → Exn) (version : Str) (s : Server)
    (i : Nat) (w : Work) : Prop where
  atMost : (s.written i).length ≤ 1
  frames : ∀ f ∈ s.written i, Answers w f.data ∧ encodeMessage rt.py f.data = .ok f.bytes
  ended : ∀ result, s.pc i = some (.ended result) → result = .ok () ∧ (s.written i).length = 1
  progress : (∃ result, s.pc i = some (.ended result)) ∨
    (∃ r hook, s.pc i = some (.awaiting r hook)) ∨
      ∃ a, a.own.isSome = true ∧ a.undisturbed = true ∧
        ((service rt raised version).step s a).isSome = true

theorem Good.answered (h : Good rt F s) (raised : DecodeError → Exn) (version : Str)
    (hw : s.works[i]? = some w) (hF : ¬ F w) (hev : ∀ params, w ≠ .event params) :
    Answered rt raised version s i w := by
  obtain ⟨job, hj, rfl⟩ := job_of_works hw
  have hp : s.pc i = some job.pc := by
    unfold pc
    rw [hj]
    rfl
  have ho := (h.jobs i job hj).owed
  have hwrote : Wrote rt job.work (s.written i) → (s.written i).length = 1 ∧
      ∀ f ∈ s.written i, Answers job.work f.data ∧ encodeMessage rt.py f.data = .ok f.bytes := by
    intro ⟨f, hf, ha, hb⟩
    rw [hf]
    refine ⟨rfl, fun f' hf' => ?_⟩
    obtain rfl := List.mem_singleton.1 hf'
    exact ⟨ha, hb⟩
  have hcases : (s.written i = [] ∧ job.pc.isEnded = false) ∨
      (Wrote rt job.work (s.written i) ∧ ∀ e, job.pc ≠ .ended (.error e)) := by
    cases hpc : job.pc with
    | created r =>
      rw [hpc] at ho
      exact .inl ⟨ho.2, rfl⟩
    | awaiting r hook =>
      rw [hpc] at ho
      exact .inl ⟨ho.2, rfl⟩
    | locking data handled =>
      rw [hpc] at ho
      exact .inl ⟨ho.2.2, rfl⟩
    | draining handled =>
      rw [hpc] at ho
      exact .inr ⟨ho, by rintro e ⟨⟩⟩
    | ended result =>
      rw [hpc] at ho
      cases result with
      | ok _ =>
        rcases ho with ⟨params, hw⟩ | ho
        · exact absurd hw (hev params)
        · exact .inr ⟨ho, by rintro e ⟨⟩⟩
      | error e => exact absurd ho.1 hF
  constructor
  · rcases hcases with ⟨hno, -⟩ | ⟨ho, -⟩
    · rw [hno]
      exact Nat.zero_le 1
    · exact (hwrote ho).1.le
  · rcases hcases with ⟨hno, -⟩ | ⟨ho, -⟩
    · rw [hno]
      exact fun f hf => absurd hf List.not_mem_nil
    · exact (hwrote ho).2
  · intro result hresult
    have hpc := Option.some.inj (hp.symm.trans hresult)
    rcases hcases with ⟨-, hno⟩ | ⟨ho, hne⟩
    · rw [hpc] at hno
      cases hno
    · cases result with
      | ok _ => exact ⟨rfl, (hwrote ho).1⟩
      | error e => exact absurd hpc (hne e)
  · rcases h.progress raised version hj with hend | ⟨r, hook, hpc⟩ | hstep
    · cases hpc : job.pc with
      | ended result => exact .inl ⟨result, hpc ▸ hp⟩
      | _ =>
        rw [hpc] at hend
        cases hend
    · exact .inr (.inl ⟨r, hook, hpc ▸ hp⟩)
    · exact .inr (.inr hstep)

/-- The exceptions that `_handle_request` answers. -/
def answerable (r : JsonRpcRequest) : Exn → Bool
  | .cancelled => r.method = HOST_INGRESS
  | .protocol text => text.isSome || !decide (Shows r)
  | .exception text => text.isSome || !decide (Shows r)

theorem rescue_answerable {r : JsonRpcRequest} {e : Exn} (h : answerable r e = true) :
    rescue r false e ≠ none := by
  have hshown : ∀ {text : Option Str}, (text.isSome || !decide (Shows r)) = true →
      errorMessage r text ≠ none := by
    intro text ht hno
    obtain ⟨hs, rfl⟩ := (errorMessage_eq_none r text).1 hno
    simp [hs] at ht
  cases e with
  | protocol text => exact fun hno => hshown h (Option.map_eq_none_iff.1 hno)
  | exception text => exact fun hno => hshown h (Option.map_eq_none_iff.1 hno)
  | cancelled =>
    have hm : r.method = HOST_INGRESS := of_decide_eq_true h
    simp only [rescue, hm]
    simp

/-- Steps that raise only what `_handle_request` answers. -/
def heard (rt : Runtime) (s : Server) (a : Action) : Bool :=
  (raisedBy rt s a).all fun x => answerable x.1 x.2

/-- A service whose wire takes every frame, whose jobs nothing cancels, and whose hooks raise only
what `_handle_request` answers. -/
def answering (rt : Runtime) (raised : DecodeError → Exn) (version : Str) : Machine Server Action :=
  (service rt raised version).restrict fun s a => a.undisturbed && heard rt s a

def IsEvent (w : Work) : Prop := ∃ params, w = .event params

theorem answering_step (hn : 2 ≤ rt.py.nesting) (h : Good rt IsEvent s)
    (hs : (answering rt raised version).step s a = some s') :
    Good rt IsEvent s' ∧ Stepped rt s a s' := by
  obtain ⟨hok, hs⟩ := Machine.restrict_step hs
  obtain ⟨ha, hheard⟩ := Bool.and_eq_true_iff.1 hok
  refine step_good hn (fun params => ⟨params, rfl⟩) (fun r e hby hno => ?_) ha h hs
  unfold heard at hheard
  rw [hby] at hheard
  exact absurd hno (rescue_answerable hheard)

/-- The loop reads, or awaits a job. -/
def LoopPc.serving : LoopPc → Bool
  | .reading => true
  | .awaiting _ => true
  | _ => false

/-- What holds of the requests of a service. -/
structure Replies (rt : Runtime) (raised : DecodeError → Exn) (version : Str) (s : Server) :
    Prop where
  taken : ∀ b r s', decodeMessage rt.py b = .ok (.request r) →
    (answering rt raised version).step s (.line b) = some s' → s'.works = s.works ++ [.request r]
  kept : ∀ a s', (answering rt raised version).step s a = some s' →
    ∃ new, s'.works = s.works ++ new
  answered : ∀ i r, s.works[i]? = some (.request r) →
    Answered rt raised version s i (.request r)
  rank : ∀ a s', a.own.isSome = true → (answering rt raised version).step s a = some s' →
    s'.rank < s.rank
  serves : ∀ a s', (answering rt raised version).step s a = some s' → s.loop.serving = true →
    s'.loop.serving = true ∨ Outside rt a ∨ ∃ r, .request r ∈ s'.works ∧ r.method = SHUTDOWN

theorem Good.serves (h : Good rt IsEvent s') (hs : Stepped rt s a s')
    (hserving : s.loop.serving = true) : s'.loop.serving = true ∨ Outside rt a ∨
      ∃ r, .request r ∈ s'.works ∧ r.method = SHUTDOWN := by
  have hturn : ∀ {n i : Nat} {s : Server}, s.loop.serving = true → Settles n i s s' →
      s'.loop.serving = true ∨ Outside rt a ∨ ∃ r, .request r ∈ s'.works ∧ r.method = SHUTDOWN := by
    intro n i s hserving hset
    obtain ⟨p, -, -, hl⟩ := hset
    rcases hl with hl | ⟨-, -, hl | ⟨e, hl⟩⟩
    · exact .inl (hl ▸ hserving)
    · rcases s'.again_cases with ha | ⟨-, hstop⟩
      · rw [hl, ha]
        exact .inl rfl
      · exact .inr (.inr (h.stops hstop))
    · obtain ⟨w, -, ⟨params, rfl⟩, hw⟩ := h.raised i e hl
      exact absurd rfl (hw params)
  cases hs with
  | own i n p ha hp hn hs => exact hturn hserving hs
  | creates w p n loop ha hb hl hs =>
    refine hturn ?_ hs
    rcases hl with hl | ⟨-, hl⟩
    · exact (congrArg LoopPc.serving hl).trans hserving
    · exact congrArg LoopPc.serving hl
  | aside ha hb hj hl =>
    rcases hl with hl | ⟨hout, -⟩
    · exact .inl (hl ▸ hserving)
    · exact .inr (.inl hout)

/-- Where hooks raise only what `_handle_request` answers, every request has exactly one response
with its identifier, and `serve` goes on reading until it is shut down. -/
theorem replies_once (hn : 2 ≤ rt.py.nesting) (hs : (answering rt raised version).Reachable s) :
    Replies rt raised version s := by
  have h : Good rt IsEvent s := by
    refine hs.invariant start_good ?_
    intro s a s' h ha
    exact (answering_step hn h ha).1
  constructor
  · intro b r s' hd ha
    have hworks := (answering_step hn h ha).2.works
    simp only [brings, hd, ne_nil_of_decodeMessage hd, if_false] at hworks
    exact hworks
  · intro a s' ha
    exact ⟨_, (answering_step hn h ha).2.works⟩
  · intro i r hw
    refine h.answered raised version hw ?_ (by rintro params ⟨⟩)
    rintro ⟨params, hevent⟩
    cases hevent
  · intro a s' hown ha
    exact (answering_step hn h ha).2.rank_lt hown
  · intro a s' ha hserving
    obtain ⟨h', hstepped⟩ := answering_step hn h ha
    exact h'.serves hstepped hserving

/-- A request for the tools, to its answer. -/
theorem replies_once_tools : ∃ s,
    (answering sampleRuntime (fun _ => .cancelled) []).Reachable s ∧
      s.works = [.request ⟨TOOLS_LIST, [], .int 1⟩] ∧ s.pc 0 = some (.ended (.ok ())) ∧
      (s.written 0).length = 1 := by
  obtain ⟨line, hline⟩ := sampleRequest
  have hread : ∀ s : Server, s.loop = .reading →
      (answering sampleRuntime (fun _ => .cancelled) []).step s (.line line) =
        some (s.create (.request ⟨TOOLS_LIST, [], .int 1⟩) (.created ⟨TOOLS_LIST, [], .int 1⟩)) := by
    intro s hs
    have hheard : heard sampleRuntime s (.line line) = true := by
      simp only [heard, raisedBy, hline]
      rfl
    simp only [answering, Machine.restrict, hheard, Action.undisturbed, Bool.and_self, if_true,
      service, step, hs, readLine, hline, ne_nil_of_decodeMessage hline, if_false]
    rfl
  have hrun : ∃ s, (answering sampleRuntime (fun _ => .cancelled) []).runFrom {}
      [.serve, .line line, .begin 0, .hook 0 (.value (.list [])), .drained 0 none] = some s ∧
      s.works = [.request ⟨TOOLS_LIST, [], .int 1⟩] ∧ s.pc 0 = some (.ended (.ok ())) := by
    rw [Machine.runFrom]
    simp only [show (answering sampleRuntime (fun _ => .cancelled) []).step {} .serve =
      some { loop := .reading, connected := true } from rfl]
    rw [Machine.runFrom, hread _ rfl]
    exact ⟨_, rfl, rfl, rfl⟩
  obtain ⟨s, hs, hworks, hpc⟩ := hrun
  have hn : 2 ≤ sampleRuntime.py.nesting := by decide
  have hreach : (answering sampleRuntime (fun _ => .cancelled) []).Reachable s := ⟨_, hs⟩
  refine ⟨s, hreach, hworks, hpc, ?_⟩
  exact ((((replies_once hn hreach).answered 0 _ (by rw [hworks]; rfl)).ended _ hpc)).2

/-- A hook of `initialize` that awaits a child task which something else cancelled: the request has
no response, and `serve` ends. -/
theorem stray_cancellation_ends_serve : ∃ line s,
    decodeMessage sampleRuntime.py line = .ok (.request ⟨INITIALIZE, [], .int 1⟩) ∧
      (undisturbed sampleRuntime (fun _ => .cancelled) []).runFrom {}
        [.serve, .line line, .hook 0 (.raised .cancelled)] = some s ∧
      s.works = [.request ⟨INITIALIZE, [], .int 1⟩] ∧
      s.pc 0 = some (.ended (.error .cancelled)) ∧ s.written 0 = [] ∧
      s.loop = .raised (some 0) .cancelled := by
  obtain ⟨line, hline⟩ : ∃ line, decodeMessage sampleRuntime.py line =
      .ok (.request ⟨INITIALIZE, [], .int 1⟩) := by
    obtain ⟨line, hline⟩ : ∃ line, encodeMessage .floatless
      (JsonRpcRequest.toDict ⟨INITIALIZE, [], .int 1⟩) = .ok line := ⟨_, rfl⟩
    exact ⟨line, (decodeMessage_encodeMessage hline).trans rfl⟩
  have hread : ∀ s : Server, s.loop = .reading →
      (undisturbed sampleRuntime (fun _ => .cancelled) []).step s (.line line) =
        some (s.accept sampleRuntime ⟨INITIALIZE, [], .int 1⟩) := by
    intro s hs
    simp only [undisturbed, Machine.restrict, Action.undisturbed, if_true, service, step, hs,
      readLine, hline, ne_nil_of_decodeMessage hline, if_false]
  have hrun : ∃ s, (undisturbed sampleRuntime (fun _ => .cancelled) []).runFrom {}
      [.serve, .line line, .hook 0 (.raised .cancelled)] = some s ∧
      s.works = [.request ⟨INITIALIZE, [], .int 1⟩] ∧
      s.pc 0 = some (.ended (.error .cancelled)) ∧ s.written 0 = [] ∧
      s.loop = .raised (some 0) .cancelled := by
    rw [Machine.runFrom]
    simp only [show (undisturbed sampleRuntime (fun _ => .cancelled) []).step {} .serve =
      some { loop := .reading, connected := true } from rfl]
    rw [Machine.runFrom, hread _ rfl]
    exact ⟨_, rfl, rfl, rfl, rfl, rfl⟩
  obtain ⟨s, hs⟩ := hrun
  exact ⟨line, s, hline, hs⟩

end KestrelSdk.Service

import KestrelSdk.Client.Fence
import KestrelSdk.Subprocess.ConfigRetention
import KestrelSdk.Subprocess.Hosted
import Mathlib.Data.Option.Basic

namespace KestrelSdk.Client.State

open Json Protocol Asyncio

/-- The request that carries `d`, under the identifier that it gets. -/
def transitionFrame (s : State) (d : Dict) : Value :=
  JsonRpcRequest.toDict ⟨CONFIG_TRANSITION, [(.str (str "config"), .dict d)],
    .int ((s.desk.nextId + 1 : Nat) : Int)⟩

/-- `prepare_config_transition`, which owns the lifecycle lock, gets to `request`, and the stream
has not ended. -/
structure Live (s : State) : Prop where
  shutdown : s.shutdownStarted = false
  restart : s.restartRequired = false
  capabilities : s.configTransitionCapabilities ≠ none
  stream : s.closedExc = none

/-- The call has raised behind a newly raised fence, and no frame was written. -/
structure Refused (s s' : State) (u : Tid) : Prop where
  finished : (s'.calls u).pc =
    .finished (.error (.configTransitionError (str "config transition failed")))
  restart : s'.restartRequired = true
  written : s'.desk.written = s.desk.written

variable {py : Interpreter} {v : Str} {s s' : State} {u : Tid} {d : Dict} {e : DumpError}

/-- `request` where its frame cannot be encoded: the writer is never asked. -/
theorem request_unencoded (method : Str) {params : Dict} (hs : s.closedExc = none)
    (he : encodeMessage py (JsonRpcRequest.toDict
      ⟨method, params, .int ((s.desk.nextId + 1 : Nat) : Int)⟩) = .error e) (writeOk : Bool) :
    s.request py u method params writeOk = ({ s.setEngine s.createReadTask with
      desk := s.desk.enroll.abandon (s.desk.nextId + 1) } : State).fail u (.encode e) := by
  have hdesk : s.createReadTask.desk = s.desk := s.toEngine.createReadTask_desk
  have hengine : (s.setEngine s.createReadTask).desk = s.desk := hdesk
  unfold request
  simp only [hs, hengine]
  have hid : s.desk.enroll.nextId = s.desk.nextId + 1 := rfl
  rw [hid, he]

theorem request_encoded {method : Str} {params : Dict} (hs : s.closedExc = none) {b : Bytes}
    (he : encodeMessage py (JsonRpcRequest.toDict
      ⟨method, params, .int ((s.desk.nextId + 1 : Nat) : Int)⟩) = .ok b) :
    (s.request py u method params true).desk.written =
      s.desk.written ++ [⟨s.desk.nextId + 1, method, params⟩] := by
  have hdesk : s.createReadTask.desk = s.desk := s.toEngine.createReadTask_desk
  have hengine : (s.setEngine s.createReadTask).desk = s.desk := hdesk
  unfold request
  simp only [hs, hengine]
  have hid : s.desk.enroll.nextId = s.desk.nextId + 1 := rfl
  rw [hid, he]
  rfl

theorem transition_live (py : Interpreter) (u : Tid) (d : Dict) (hl : s.Live) :
    ∃ live : Bool, ∀ writeOk : Bool, s.transition py u (.dict d) writeOk =
      (s.setCall u { s.calls u with live }).request py u CONFIG_TRANSITION
        [(.str (str "config"), .dict d)] writeOk := by
  cases hc : s.configTransitionCapabilities with
  | none => exact absurd hc hl.capabilities
  | some c =>
    refine ⟨c.supportsLiveApply, fun writeOk => ?_⟩
    unfold transition
    simp [hl.shutdown, hl.restart, hc]

/-- The section refuses a configuration that it cannot encode, whatever the writer would do. -/
theorem transition_refused (hl : s.Live) (hop : (s.calls u).op = .prepareConfigTransition (.dict d))
    (he : encodeMessage py (s.transitionFrame d) = .error e) :
    ∃ s', (∀ writeOk : Bool, s.transition py u (.dict d) writeOk = s') ∧ Refused s s' u := by
  obtain ⟨live, heq⟩ := transition_live py u d hl
  have hreq := fun writeOk => request_unencoded (s := s.setCall u { s.calls u with live }) (u := u)
    CONFIG_TRANSITION hl.stream he writeOk
  refine ⟨_, fun writeOk => (heq writeOk).trans (hreq writeOk), ?_⟩
  have hdesk : s.createReadTask.desk = s.desk := s.toEngine.createReadTask_desk
  unfold fail
  simp only [setEngine, setCall, Function.update_self, hop]
  constructor
  · simp [isProtocolError, finish, setPc, setCall, releaseLifecycle, markRestartRequired]
  · simp [isProtocolError, finish, setPc, setCall, releaseLifecycle, markRestartRequired]
  · simp [isProtocolError, finish, setPc, setCall, releaseLifecycle, markRestartRequired,
      Desk.abandon, Desk.enroll]

/-- The section hands a configuration that it can encode to the writer. -/
theorem transition_written (hl : s.Live) {b : Bytes}
    (he : encodeMessage py (s.transitionFrame d) = .ok b) :
    (s.transition py u (.dict d) true).desk.written = s.desk.written ++
      [⟨s.desk.nextId + 1, CONFIG_TRANSITION, [(.str (str "config"), .dict d)]⟩] := by
  obtain ⟨live, heq⟩ := transition_live py u d hl
  rw [heq true]
  exact request_encoded (s := s.setCall u { s.calls u with live }) hl.stream he

/-- What a step runs when the call gets to its section: `s₁` is the client inside it. -/
structure Section (s s₁ : State) (u : Tid) (d : Dict) : Prop where
  live : s₁.Live
  op : (s₁.calls u).op = .prepareConfigTransition (.dict d)
  desk : s₁.desk = s.desk
  restart : s₁.restartRequired = s.restartRequired

/-- A call that finds the lock free. -/
theorem call_section (py : Interpreter) (v : Str) (d : Dict) (hl : s.Live)
    (hfree : s.lifecycleLock.owner = none) (hidle : (s.calls u).pc = .idle) :
    ∃ s₁, Section s s₁ u d ∧ ∀ writeOk : Bool,
      Client.step py v s (.call u (.prepareConfigTransition (.dict d)) writeOk) =
        some (s₁.transition py u (.dict d) writeOk) := by
  refine ⟨{ s.setCall u { op := .prepareConfigTransition (.dict d) } with
    lifecycleLock := { s.lifecycleLock with owner := some u } },
    ⟨⟨hl.shutdown, hl.restart, hl.capabilities, hl.stream⟩, by simp [setCall], rfl, rfl⟩, ?_⟩
  intro writeOk
  simp only [Client.step, hidle]
  cases hc : s.configTransitionCapabilities with
  | none => exact absurd hc hl.capabilities
  | some c =>
    have hc' : State.configTransitionCapabilities
        (s.setCall u { op := .prepareConfigTransition (.dict d) }) = some c := hc
    unfold invoke
    simp only [setCall, Function.update_self] at hc' ⊢
    rw [hc']
    simp [enterLifecycle, FifoLock.acquire, hfree, lifecycleSection]

/-- A call to which the lock has been handed over. -/
theorem resume_section (py : Interpreter) (v : Str) (hl : s.Live)
    (howner : s.lifecycleLock.owner = some u) (hpc : (s.calls u).pc = .lifecycle)
    (hcancel : (s.calls u).cancel = false)
    (hop : (s.calls u).op = .prepareConfigTransition (.dict d)) :
    Section s s u d ∧ ∀ writeOk : Bool,
      Client.step py v s (.resume u writeOk) = some (s.transition py u (.dict d) writeOk) := by
  refine ⟨⟨hl, hop, rfl, rfl⟩, fun writeOk => ?_⟩
  simp [Client.step, resume, hpc, hcancel, howner, lifecycleSection, hop]

end KestrelSdk.Client.State

namespace KestrelSdk.Subprocess

open Asyncio Protocol
open Json (Value Dict Interpreter DumpError Bytes Str str)

namespace Hosted

/-- The step with the writer's answer set. -/
def Step.withWriter : Step → Bool → Step
  | .prepare t u _, ok => .prepare t u ok
  | .proceed t _, ok => .proceed t ok
  | a, _ => a

def Step.writer : Step → Bool
  | .prepare _ _ ok => ok
  | .proceed _ ok => ok
  | _ => true

/-- In the step, the inner call of caller `t`, in task `u` and with the configuration `d`, gets to
`request()` while the stream has not ended. -/
inductive Asks (value : Cfg → Dict) (h : Hosted) (t : Tid) (f : TransitionFrame) (u : Client.Tid) :
    Dict → Step → Prop
  | prepare (writeOk : Bool) (applying : h.applying t = some f) (first : h.within f.call = none)
      (live : (h.inner f.client).Live) (free : (h.inner f.client).lifecycleLock.owner = none)
      (idle : ((h.inner f.client).calls u).pc = .idle) :
      Asks value h t f u (value (h.wrapper.transitions f.call).next) (.prepare t u writeOk)
  | proceed (ok : Bool) (d : Dict) (applying : h.applying t = some f)
      (within : h.within f.call = some u) (live : (h.inner f.client).Live)
      (owner : (h.inner f.client).lifecycleLock.owner = some u)
      (waiting : ((h.inner f.client).calls u).pc = .lifecycle)
      (cancel : ((h.inner f.client).calls u).cancel = false)
      (op : ((h.inner f.client).calls u).op = .prepareConfigTransition (.dict d)) :
      Asks value h t f u d (.proceed t ok)

variable {py : Interpreter} {v : Str} {value : Cfg → Dict} {h h' : Hosted} {a : Step} {t : Tid}
  {f : TransitionFrame} {u : Client.Tid} {d : Dict}

/-- The step fails before the writer has got a frame: even one that accepts every frame has none. -/
def Unsent (py : Interpreter) (v : Str) (value : Cfg → Dict) (h : Hosted) (a : Step) (c : Cid) :
    Prop :=
  ∃ h₁ : Hosted, step py v value h (a.withWriter true) = some h₁ ∧
    (h₁.inner c).desk.written = (h.inner c).desk.written

theorem Step.withWriter_writer (a : Step) : a.withWriter a.writer = a := by
  cases a <;> rfl

theorem asks_applying (ha : Asks value h t f u d a) : h.applying t = some f := by
  cases ha with
  | prepare _ applying => exact applying
  | proceed _ _ applying => exact applying

/-- The step runs the section of the client, and then the caller goes on. -/
theorem asks_section (py : Interpreter) (v : Str) (ha : Asks value h t f u d a) :
    ∃ (s₁ : Client.State) (g : Client.State → Hosted),
    Client.State.Section (h.inner f.client) s₁ u d ∧
    (∀ s, (g s).wrapper = h.wrapper ∧ (g s).inner f.client = s) ∧
    ∀ ok : Bool, step py v value h (a.withWriter ok) =
      (g (s₁.transition py u (.dict d) ok)).answer t f u := by
  cases ha with
  | prepare writeOk applying first live free idle =>
    obtain ⟨s₁, hsection, hstep⟩ := Client.State.call_section py v
      (value (h.wrapper.transitions f.call).next) live free idle
    refine ⟨s₁, fun s => { h.setInner f.client s with
      within := Function.update h.within f.call (some u) }, hsection, ?_, ?_⟩
    · exact fun s => ⟨rfl, Function.update_self ..⟩
    · intro ok
      simp [step, Step.withWriter, applying, first, hstep ok, guard]
  | proceed ok d applying within live owner waiting cancel op =>
    obtain ⟨hsection, hstep⟩ :=
      Client.State.resume_section py v live owner waiting cancel op
    refine ⟨h.inner f.client, fun s => h.setInner f.client s, hsection, ?_, ?_⟩
    · exact fun s => ⟨rfl, Function.update_self ..⟩
    · intro ok
      simp [step, Step.withWriter, applying, within, hstep ok]

/-- The caller's own step leaves the clients alone. -/
theorem answer_inner (hs : h.answer t f u = some h') : h'.inner = h.inner := by
  unfold answer at hs
  split at hs
  · obtain ⟨w, -, rfl⟩ := Option.map_eq_some_iff.1 hs
    rfl
  · cases hs
    rfl

/-- The wrapper reads the raised fence, and asks its finisher to retain the configuration. -/
theorem answer_retains {e : Client.Raised} (hs : h.answer t f u = some h')
    (hf : h.applying t = some f) {p : Pending} (hp : f.pending = some p)
    (hwas : f.wasReplacementRequired = false)
    (hpc : ((h.inner f.client).calls u).pc = .finished (.error e))
    (hr : (h.inner f.client).restartRequired = true) :
    ∃ f', (h'.wrapper.ops t).pc = .finishing f' true (.pending h.wrapper.now) ∧
      f'.call = f.call ∧ f'.pending = some p := by
  unfold answer at hs
  rw [hpc] at hs
  obtain ⟨w, hw, rfl⟩ := Option.map_eq_some_iff.1 hs
  have hop : (h.wrapper.ops t).pc = .applying f := by
    unfold applying at hf
    split at hf
    · rename_i g hg
      rw [hg, Option.some.inj hf]
    · cases hf
  simp only [State.step, State.act] at hw
  split at hw
  · obtain rfl := Option.some.inj hw
    simp [State.resumeOp, hop, State.transitionAfter, State.setClient, State.setTransition, hr, hp,
      hwas, State.suspend, State.setOp]
  · cases hw

theorem answer_wrapper (hs : h.answer t f u = some h') :
    h'.wrapper = h.wrapper ∨ ∃ b, h.wrapper.step b = some h'.wrapper := by
  unfold answer at hs
  split at hs
  · obtain ⟨w, hw, rfl⟩ := Option.map_eq_some_iff.1 hs
    exact .inr ⟨_, hw⟩
  · cases hs
    exact .inl rfl

/-- A step of the joined system is a step of the wrapper, or none. -/
theorem wrapper_step (hs : step py v value h a = some h') :
    h'.wrapper = h.wrapper ∨ ∃ b, h.wrapper.step b = some h'.wrapper := by
  cases a with
  | wrapper b =>
    simp only [step] at hs
    split at hs
    · obtain ⟨w, hw, rfl⟩ := Option.map_eq_some_iff.1 hs
      exact .inr ⟨b, hw⟩
    · cases hs
  | inner c b =>
    simp only [step] at hs
    split at hs
    · obtain ⟨s, -, rfl⟩ := Option.map_eq_some_iff.1 hs
      exact .inl rfl
    · cases hs
  | prepare t u writeOk =>
    obtain ⟨f, -, hs⟩ := Option.bind_eq_some_iff.1 hs
    obtain ⟨-, -, hs⟩ := Option.bind_eq_some_iff.1 hs
    obtain ⟨s, -, hs⟩ := Option.bind_eq_some_iff.1 hs
    have hanswer := answer_wrapper hs
    exact hanswer
  | proceed t ok =>
    obtain ⟨f, -, hs⟩ := Option.bind_eq_some_iff.1 hs
    obtain ⟨u, -, hs⟩ := Option.bind_eq_some_iff.1 hs
    obtain ⟨s, -, hs⟩ := Option.bind_eq_some_iff.1 hs
    have hanswer := answer_wrapper hs
    exact hanswer

theorem update_client {x : Cid} {inner : Cid → Client.State} {s : Client.State} {b : Client.Action}
    (hs : Client.step py v (inner x) b = some s) (c : Cid) :
    Function.update inner x s c = inner c ∨
      ∃ b, Client.step py v (inner c) b = some (Function.update inner x s c) := by
  by_cases hc : c = x
  · subst hc
    rw [Function.update_self]
    exact .inr ⟨b, hs⟩
  · exact .inl (Function.update_of_ne hc s inner)

/-- A step of the joined system is a step of each client, or none. -/
theorem client_step (hs : step py v value h a = some h') (c : Cid) :
    h'.inner c = h.inner c ∨ ∃ b, Client.step py v (h.inner c) b = some (h'.inner c) := by
  cases a with
  | wrapper b =>
    simp only [step] at hs
    split at hs
    · obtain ⟨w, hw, rfl⟩ := Option.map_eq_some_iff.1 hs
      exact .inl rfl
    · cases hs
  | inner x b =>
    simp only [step] at hs
    split at hs
    · obtain ⟨s, hstep, rfl⟩ := Option.map_eq_some_iff.1 hs
      exact update_client hstep c
    · cases hs
  | prepare t u writeOk =>
    obtain ⟨f, -, hs⟩ := Option.bind_eq_some_iff.1 hs
    obtain ⟨-, -, hs⟩ := Option.bind_eq_some_iff.1 hs
    obtain ⟨s, hstep, hs⟩ := Option.bind_eq_some_iff.1 hs
    rw [answer_inner hs]
    exact update_client hstep c
  | proceed t ok =>
    obtain ⟨f, -, hs⟩ := Option.bind_eq_some_iff.1 hs
    obtain ⟨u, -, hs⟩ := Option.bind_eq_some_iff.1 hs
    obtain ⟨s, hstep, hs⟩ := Option.bind_eq_some_iff.1 hs
    rw [answer_inner hs]
    exact update_client hstep c

/-- What holds of every run of the wrapper and of every run of a client holds of the joined one. -/
theorem parts_reachable (hr : (hosted py v value).Reachable h) :
    Reachable h.wrapper ∧ ∀ c, (Client.machine py v).Reachable (h.inner c) := by
  refine hr.invariant (p := fun h => Reachable h.wrapper ∧
    ∀ c, (Client.machine py v).Reachable (h.inner c)) ⟨.start, fun _ => .start⟩ ?_
  rintro h a h' ⟨hwrapper, hinner⟩ hs
  constructor
  · rcases wrapper_step hs with heq | ⟨b, hb⟩
    · rw [heq]
      exact hwrapper
    · exact hwrapper.step hb
  · intro c
    rcases client_step hs c with heq | ⟨b, hb⟩
    · rw [heq]
      exact hinner c
    · exact (hinner c).step hb

/-- The pending transition of a call that found no fence. -/
theorem applying_unfenced (hr : (hosted py v value).Reachable h) (hf : h.applying t = some f)
    {p : Pending} (hp : f.pending = some p) : f.wasReplacementRequired = false := by
  have hok := (Subprocess.Reachable.retention (parts_reachable hr).1).2.ok t
  have hpc : h.wrapper.book.pcs t = .applying f := by
    unfold applying at hf
    split at hf
    · rename_i g hg
      rw [← Option.some.inj hf]
      exact hg
    · cases hf
  rw [hpc] at hok
  obtain ⟨-, -, -, hok⟩ := hok
  rw [hp] at hok
  exact hok.1

/-- A configuration that cannot be encoded: nothing is sent, and yet the fence is up and the
finisher of the call retains the configuration. -/
theorem unencoded_fences (hr : (hosted py v value).Reachable h) (ha : Asks value h t f u d a)
    (hs : step py v value h a = some h') {e : DumpError}
    (he : encodeMessage py ((h.inner f.client).transitionFrame d) = .error e) :
    Unsent py v value h a f.client ∧ (h'.inner f.client).restartRequired = true ∧
      ∀ p, f.pending = some p → ∃ f',
        (h'.wrapper.ops t).pc = .finishing f' true (.pending h.wrapper.now) ∧
          f'.call = f.call ∧ f'.pending = some p := by
  obtain ⟨s₁, g, hsection, hg, hstep⟩ := asks_section py v ha
  have hframe : encodeMessage py (s₁.transitionFrame d) = .error e := by
    rw [← he, Client.State.transitionFrame, Client.State.transitionFrame, hsection.desk]
  obtain ⟨s', hsame, hrefused⟩ :=
    Client.State.transition_refused (u := u) hsection.live hsection.op hframe
  have hall : ∀ ok : Bool, step py v value h (a.withWriter ok) = (g s').answer t f u := by
    intro ok
    rw [hstep ok, hsame ok]
  have hanswer : (g s').answer t f u = some h' := by
    rw [← hall a.writer, a.withWriter_writer]
    exact hs
  have hinner : h'.inner f.client = s' := by
    rw [answer_inner hanswer]
    exact (hg s').2
  refine ⟨⟨h', (hall true).trans hanswer, ?_⟩, ?_, ?_⟩
  · rw [hinner, hrefused.written, hsection.desk]
  · rw [hinner]
    exact hrefused.restart
  · intro p hp
    have happlying : (g s').applying t = some f := by
      rw [applying, (hg s').1]
      exact asks_applying ha
    have hkeep := answer_retains (e := .configTransitionError (str "config transition failed"))
      hanswer happlying hp (applying_unfenced hr (asks_applying ha) hp)
    rw [(hg s').1, (hg s').2] at hkeep
    exact hkeep hrefused.finished hrefused.restart

/-- A configuration that can be encoded reaches the writer. -/
theorem encoded_sent (ha : Asks value h t f u d a) {b : Bytes}
    (he : encodeMessage py ((h.inner f.client).transitionFrame d) = .ok b) :
    ¬ Unsent py v value h a f.client := by
  rintro ⟨h₁, hs, hwritten⟩
  obtain ⟨s₁, g, hsection, hg, hstep⟩ := asks_section py v ha
  have hframe : encodeMessage py (s₁.transitionFrame d) = .ok b := by
    rw [← he, Client.State.transitionFrame, Client.State.transitionFrame, hsection.desk]
  have hsent := Client.State.transition_written (u := u) hsection.live hframe
  rw [hstep true] at hs
  have hinner := (congrFun (answer_inner hs) f.client).trans (hg _).2
  rw [hinner, hsent, hsection.desk] at hwritten
  simp at hwritten

end Hosted

open Hosted in
/-- A transition whose request gets to `request()` on a live stream leaves the fence and the
retained configuration alone, where it fails before its frame is passed to the writer, exactly when
the frame can be encoded. Where it cannot, the fence goes up and the finisher of the call retains
the configuration that was never sent. -/
theorem unsent_keeps_config_iff {py : Interpreter} {v : Str} {value : Cfg → Dict} {h h' : Hosted}
    {a : Step} {t : Tid} {f : TransitionFrame} {u : Client.Tid} {d : Dict}
    (hr : (hosted py v value).Reachable h) (ha : Asks value h t f u d a)
    (hs : (hosted py v value).step h a = some h') :
    ((Unsent py v value h a f.client →
      (h'.inner f.client).restartRequired = (h.inner f.client).restartRequired ∧
        ∀ (as : List Step) (h'' : Hosted), (hosted py v value).runFrom h' as = some h'' →
          ∀ raised, h''.wrapper.ended = some (.transition t f.call raised) →
            (h''.wrapper.transitions f.call).retained = false) ↔
      ∃ b, encodeMessage py ((h.inner f.client).transitionFrame d) = .ok b) ∧
    ∀ e, encodeMessage py ((h.inner f.client).transitionFrame d) = .error e →
      Unsent py v value h a f.client ∧ (h'.inner f.client).restartRequired = true ∧
        ∀ p, f.pending = some p → ∃ f',
          (h'.wrapper.ops t).pc = .finishing f' true (.pending h.wrapper.now) ∧
          f'.call = f.call ∧ f'.pending = some p := by
  have hlive : (h.inner f.client).restartRequired = false := by
    cases ha with
    | prepare _ _ _ live => exact live.restart
    | proceed _ _ _ _ live => exact live.restart
  refine ⟨⟨?_, ?_⟩, fun e he => unencoded_fences hr ha hs he⟩
  · intro hkeeps
    cases he : encodeMessage py ((h.inner f.client).transitionFrame d) with
    | ok b => exact ⟨b, rfl⟩
    | error e =>
      obtain ⟨hunsent, hfence, -⟩ := unencoded_fences hr ha hs he
      have hsame := (hkeeps hunsent).1
      rw [hfence, hlive] at hsame
      cases hsame
  · rintro ⟨b, hb⟩ hunsent
    exact absurd hunsent (encoded_sent ha hb)

namespace Hosted

/-- A configuration that JSON does not know. -/
def unknownConfig : Cfg → Dict := fun _ => [(.str (str "handle"), .object 0)]

/-- A wrapper starts, and its client asks for its service's capabilities. -/
def introducing : List Step :=
  State.startedRun.map .wrapper ++ [.inner 0 (.call 0 (.initializeCall none none) true),
    .inner 0 (.signal .begin), .inner 0 (.resume 0 true)]

/-- The client has read that its service offers transitions, and a transition to configuration 7
is about to call it. -/
def offered : Option Hosted := do
  let h ← (hosted .floatless [] unknownConfig).runFrom {} introducing
  (hosted .floatless [] unknownConfig).runFrom
    (h.setInner 0 ((h.inner 0).setEngine
      ((h.inner 0).readMessage (.response Client.transitionReply))))
    [.inner 0 (.resume 0 true), .wrapper (.call 1 (.transition 7))]

def offeredFrame : TransitionFrame := ⟨0, 0, false, some ⟨0, 0, 7⟩, none, false⟩

def reads (s : Client.State) : Bool :=
  match s.mail.read with
  | .reading => true
  | _ => false

def idle (s : Client.State) (u : Client.Tid) : Bool :=
  match (s.calls u).pc with
  | .idle => true
  | _ => false

theorem offered_reachable :
    ∃ h, offered = some h ∧ (hosted .floatless [] unknownConfig).Reachable h := by
  obtain ⟨h, hh⟩ : ∃ h, offered = some h := Option.isSome_iff_exists.1 (by decide +kernel)
  refine ⟨h, hh, ?_⟩
  unfold offered at hh
  rw [Option.bind_eq_bind, Option.bind_eq_some_iff] at hh
  obtain ⟨h₀, h₁, hrun⟩ := hh
  have hfacts : ((hosted .floatless [] unknownConfig).runFrom {} introducing).map
      (fun h => (reads (h.inner 0), decide (0 < h.wrapper.nextClient))) = some (true, true) := by
    decide +kernel
  rw [h₁, Option.map_some, Option.some.injEq, Prod.mk.injEq] at hfacts
  have hread : (h₀.inner 0).mail.read = .reading := by
    have := hfacts.1
    unfold reads at this
    split at this
    · assumption
    · cases this
  obtain ⟨b, hb⟩ : ∃ b, encodeMessage .floatless Client.transitionReply.toDict = .ok b := ⟨_, rfl⟩
  have hline : Client.step .floatless [] (h₀.inner 0) (.signal (.line b)) =
      some ((h₀.inner 0).setEngine ((h₀.inner 0).readMessage (.response Client.transitionReply))) :=
    Client.step_line (v := []) hread hb (by decide) rfl
  have hstep : (hosted .floatless [] unknownConfig).step h₀ (.inner 0 (.signal (.line b))) = some
      (h₀.setInner 0 ((h₀.inner 0).setEngine
        ((h₀.inner 0).readMessage (.response Client.transitionReply)))) := by
    simp only [hosted, step, apart, hfacts.2, Bool.and_self, if_true, hline, Option.map_some]
  exact ((Machine.Reachable.run .start h₁).step hstep).run hrun

theorem offered_asks {h : Hosted} (hh : offered = some h) :
    Asks unknownConfig h 1 offeredFrame 1 (unknownConfig 7) (.prepare 1 1 true) := by
  have hfacts : offered.map (fun h => (h.applying 1, h.within 0, (h.wrapper.transitions 0).next)) =
      some (some offeredFrame, none, 7) := by decide +kernel
  have hclient : offered.map (fun h => (((h.inner 0).shutdownStarted, (h.inner 0).restartRequired),
      ((h.inner 0).configTransitionCapabilities.isSome, (h.inner 0).closedExc.isNone),
      ((h.inner 0).lifecycleLock.owner, idle (h.inner 0) 1))) =
      some ((false, false), (true, true), (none, true)) := by decide +kernel
  rw [hh, Option.map_some, Option.some.injEq] at hfacts hclient
  simp only [Prod.mk.injEq, Option.isNone_iff_eq_none] at hfacts hclient
  obtain ⟨happlying, hwithin, hnext⟩ := hfacts
  obtain ⟨⟨hshutdown, hrestart⟩, ⟨hcapabilities, hclosed⟩, ⟨howner, hidle⟩⟩ := hclient
  have hpc : ((h.inner 0).calls 1).pc = .idle := by
    unfold idle at hidle
    split at hidle
    · assumption
    · cases hidle
  have hlive : (h.inner 0).Live := by
    refine ⟨hshutdown, hrestart, fun hnone => ?_, hclosed⟩
    rw [hnone] at hcapabilities
    cases hcapabilities
  exact .prepare true happlying hwithin hlive howner hpc

theorem offered_unencoded {h : Hosted} (hh : offered = some h) :
    ∃ e, encodeMessage .floatless ((h.inner 0).transitionFrame (unknownConfig 7)) = .error e := by
  have hnone : offered.map (fun h =>
      (encodeMessage .floatless ((h.inner 0).transitionFrame (unknownConfig 7))).toOption) =
        some none := by decide +kernel
  rw [hh, Option.map_some, Option.some.injEq] at hnone
  cases he : encodeMessage .floatless ((h.inner 0).transitionFrame (unknownConfig 7)) with
  | error e => exact ⟨e, rfl⟩
  | ok b =>
    rw [he] at hnone
    cases hnone

/-- The rest of the caller's call. -/
def refusedRest : List Step :=
  [.tick, .finishTransition 1, .resume 1 .returned false, .tick, .unregister 1,
    .resume 1 .returned false].map .wrapper

theorem offered_runs : (offered.bind fun h =>
    ((hosted .floatless [] unknownConfig).step h (.prepare 1 1 true)).bind fun h' =>
      ((hosted .floatless [] unknownConfig).runFrom h' refusedRest).map fun h'' =>
        (h.wrapper.config, h''.wrapper.config, h''.wrapper.ended)) =
    some (0, 7, some (.transition 1 0 (some .inner))) := by decide +kernel

theorem offered_refused : ∃ h h' h'' : Hosted, offered = some h ∧
    (hosted .floatless [] unknownConfig).step h (.prepare 1 1 true) = some h' ∧
    (hosted .floatless [] unknownConfig).runFrom h' refusedRest = some h'' ∧
    h.wrapper.config = 0 ∧ h''.wrapper.config = 7 ∧
    h''.wrapper.ended = some (.transition 1 0 (some .inner)) := by
  obtain ⟨h, hh, hrun⟩ := Option.bind_eq_some_iff.1 offered_runs
  obtain ⟨h', hs, hrun⟩ := Option.bind_eq_some_iff.1 hrun
  obtain ⟨h'', hrest, hends⟩ := Option.map_eq_some_iff.1 hrun
  simp only [Prod.mk.injEq] at hends
  exact ⟨h, h', h'', hh, hs, hrest, hends⟩

end Hosted

open Hosted in
theorem unsent_keeps_config_iff_offered : ∃ h h' : Hosted,
    (hosted .floatless [] unknownConfig).Reachable h ∧
    (hosted .floatless [] unknownConfig).step h (.prepare 1 1 true) = some h' ∧
    (h'.inner 0).restartRequired = true := by
  obtain ⟨h, h', -, hh, hs, -⟩ := offered_refused
  obtain ⟨g, hg, hr⟩ := offered_reachable
  obtain rfl : g = h := Option.some.inj (hg.symm.trans hh)
  obtain ⟨e, he⟩ := offered_unencoded hh
  exact ⟨g, h', hr, hs, ((unsent_keeps_config_iff hr (offered_asks hh) hs).2 e he).2.1⟩

open Hosted in
/-- The configuration that was never sent raises the fence and is the one that the next start
gives to its child. -/
theorem unknown_config_retained : ∃ h h' h'' : Hosted,
    (hosted .floatless [] unknownConfig).Reachable h ∧
    Asks unknownConfig h 1 offeredFrame 1 (unknownConfig 7) (.prepare 1 1 true) ∧
    (hosted .floatless [] unknownConfig).step h (.prepare 1 1 true) = some h' ∧
    Unsent .floatless [] unknownConfig h (.prepare 1 1 true) 0 ∧
    (h.inner 0).restartRequired = false ∧ (h'.inner 0).restartRequired = true ∧
    (hosted .floatless [] unknownConfig).runFrom h' refusedRest = some h'' ∧
    h''.wrapper.ended = some (.transition 1 0 (some .inner)) ∧
    h.wrapper.config = 0 ∧ h''.wrapper.config = 7 := by
  obtain ⟨h, h', h'', hh, hs, hrest, hbefore, hafter, hended⟩ := offered_refused
  obtain ⟨g, hg, hr⟩ := offered_reachable
  obtain rfl : g = h := Option.some.inj (hg.symm.trans hh)
  obtain ⟨e, he⟩ := offered_unencoded hh
  have hask := offered_asks hh
  obtain ⟨hunsent, hfence, -⟩ := unencoded_fences hr hask hs he
  have hlive : (g.inner 0).restartRequired = false := by
    cases hask with
    | prepare _ _ _ live => exact live.restart
  exact ⟨g, h', h'', hr, hask, hs, hunsent, hlive, hfence, hrest, hended, hbefore, hafter⟩

end KestrelSdk.Subprocess

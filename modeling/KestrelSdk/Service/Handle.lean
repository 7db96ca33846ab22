import KestrelSdk.Json.Loaded
import KestrelSdk.Order.Checks
import KestrelSdk.Service.Requests

/-! `_dispatch` and `_handle_request`: what a request calls, and the frame that answers it. -/

namespace KestrelSdk.Service

open Json Protocol

/-- What the requests of a service change. -/
structure Lifecycle where
  hostConfig : Dict := []
  stopping : Bool := false
  restartRequired : Bool := false

/-- What the feature registers and advertises. -/
structure Registry where
  transitions : Option ConfigTransitionCapabilities := none
  contexts : Option ToolExecutionContextCapabilities := none
  handlers : List Str := []
  ingress : List Str := []

/-- The hooks that `_dispatch` awaits. -/
inductive Hook where
  | onInitialize (params : Dict)
  | onConfigTransition (nextConfig : Dict)
  | health
  | getTools
  | callTool (call : ToolCall)
  | callHostIngress (name : Str) (payload : Value)
  | onShutdown

/-- `_dispatch`, up to its first await. -/
inductive Dispatched where
  | returns (v : Value)
  | raises (e : Exn)
  | awaits (hook : Hook)

/-- What awaiting a hook comes to. A `ConfigTransitionResult` is an object to everything but
`_dispatch`. -/
inductive Outcome where
  | value (v : Value)
  | transition (t : Transition) (n : Nat)
  | raised (e : Exn)

def restartStatus : Value :=
  .dict [(.str (str "status"), .str (str "restart-required")), (.str (str "ready"), .bool false)]

def awaitingRestart : Dispatched := .raises (refused "service is awaiting restart")

/-- `_dispatch`, up to the hook that it awaits. -/
def dispatch (rt : Runtime) (reg : Registry) (s : Lifecycle) (r : JsonRpcRequest) :
    Lifecycle × Dispatched :=
  if r.method = INITIALIZE then (s, .awaits (.onInitialize r.params))
  else if r.method = CONFIG_TRANSITION then
    if s.restartRequired then (s, awaitingRestart)
    else
      match nextConfig reg.transitions r.params with
      | .error e => (s, .raises e)
      | .ok (_, next) => (s, .awaits (.onConfigTransition next))
  else if r.method = HEALTH then
    if s.restartRequired then (s, .returns restartStatus) else (s, .awaits .health)
  else if r.method = TOOLS_LIST then
    if s.restartRequired then (s, awaitingRestart) else (s, .awaits .getTools)
  else if r.method = TOOLS_CALL then
    if s.restartRequired then (s, awaitingRestart)
    else
      match toolsCall rt reg.contexts r.params with
      | .error e => (s, .raises e)
      | .ok call => (s, .awaits (.callTool call))
  else if r.method = HOST_INGRESS then
    if s.stopping || s.restartRequired then
      (s, .raises (refused "host ingress is unavailable"))
    else
      match hostIngress rt reg.ingress r.params with
      | .error e => (s, .raises e)
      | .ok (name, payload) => (s, .awaits (.callHostIngress name payload))
  else if r.method = SHUTDOWN then ({ s with stopping := true }, .awaits .onShutdown)
  else (s, .raises (.protocol (some (str "unknown method: " ++ r.method))))

/-- The rest of `_dispatch` for a config transition. -/
def commit (reg : Registry) (s : Lifecycle) (nextConfig : Dict) (t : Transition) :
    Lifecycle × Except Exn Value :=
  match t with
  | .restart => ({ s with restartRequired := true }, .ok t.toDict)
  | .applied =>
    match reg.transitions with
    | none =>
      (s, .error (.exception
        (some (str "'NoneType' object has no attribute 'supports_live_apply'"))))
    | some capabilities =>
      if capabilities.supportsLiveApply then ({ s with hostConfig := nextConfig }, .ok t.toDict)
      else (s, .error (refused "config transition hook returned an unadvertised action"))

/-- `_dispatch` after its hook. -/
def complete (rt : Runtime) (reg : Registry) (s : Lifecycle) :
    Hook → Outcome → Lifecycle × Except Exn Value
  | _, .raised e => (s, .error e)
  | .onConfigTransition next, .transition t _ => commit reg s next t
  | .onConfigTransition _, .value _ =>
    (s, .error (refused "config transition hook returned an invalid result"))
  | .getTools, .value v => (s, .ok (.dict [(.str (str "tools"), v)]))
  | .getTools, .transition _ n => (s, .ok (.dict [(.str (str "tools"), .object n)]))
  | .callHostIngress _ _, .value v =>
    (s, (validateHostIngressPayload rt.py v).mapError fun text => .protocol (some text))
  | .callHostIngress _ _, .transition _ n =>
    (s, (validateHostIngressPayload rt.py (.object n)).mapError fun text => .protocol (some text))
  | _, .value v => (s, .ok v)
  | _, .transition _ n => (s, .ok (.object n))

/-- `_error_message`; `none` is what `str(error)` raises. -/
def errorMessage (r : JsonRpcRequest) (text : Option Str) : Option Str :=
  if r.method = CONFIG_TRANSITION then some (str "config transition failed")
  else if r.method = HOST_INGRESS then some (str "host ingress failed")
  else
    match r.params.get (str "config") with
    | some (.dict _) =>
      if r.method = INITIALIZE then some (str "initialization failed") else text
    | _ => text

/-- The `except` clauses of `_handle_request`: the error response, or `none` where the exception
escapes. `cancelling` tells whether the request's own task is being cancelled. -/
def rescue (r : JsonRpcRequest) (cancelling : Bool) : Exn → Option JsonRpcResponse
  | .protocol text => (errorMessage r text).map fun text => ⟨r.id, .error ⟨.int (-32602), text, .none⟩⟩
  | .cancelled =>
    if r.method ≠ HOST_INGRESS ∨ cancelling = true then none
    else some ⟨r.id, .error ⟨.int (-32602), str "host ingress failed", .none⟩⟩
  | .exception text => (errorMessage r text).map fun text => ⟨r.id, .error ⟨.int (-32603), text, .none⟩⟩

/-- `encode_message` of a response. -/
def encode (rt : Runtime) (response : JsonRpcResponse) : Except Exn Bytes :=
  (encodeMessage rt.py response.toDict).mapError rt.raises

/-- The frame that `_handle_request` writes where nothing cancels its task. -/
def respond (rt : Runtime) (r : JsonRpcRequest) (result : Except Exn Value) : Option Bytes :=
  let failure (e : Exn) := (rescue r false e).bind fun response => (encode rt response).toOption
  match result with
  | .error e => failure e
  | .ok v =>
    match encode rt ⟨r.id, .result v⟩ with
    | .ok b => some b
    | .error e => failure e

/-- The hooks that a request reaches, with the checks before each. -/
inductive Awaits (rt : Runtime) (reg : Registry) (s : Lifecycle) (r : JsonRpcRequest) :
    Lifecycle → Hook → Prop where
  | onInitialize (hm : r.method = INITIALIZE) : Awaits rt reg s r s (.onInitialize r.params)
  | onConfigTransition (capabilities : ConfigTransitionCapabilities) (next : Dict)
      (hm : r.method = CONFIG_TRANSITION) (hf : s.restartRequired = false)
      (hn : nextConfig reg.transitions r.params = .ok (capabilities, next)) :
      Awaits rt reg s r s (.onConfigTransition next)
  | health (hm : r.method = HEALTH) (hf : s.restartRequired = false) : Awaits rt reg s r s .health
  | getTools (hm : r.method = TOOLS_LIST) (hf : s.restartRequired = false) :
      Awaits rt reg s r s .getTools
  | callTool (call : ToolCall) (hm : r.method = TOOLS_CALL) (hf : s.restartRequired = false)
      (hc : toolsCall rt reg.contexts r.params = .ok call) : Awaits rt reg s r s (.callTool call)
  | callHostIngress (name : Str) (payload : Value) (hm : r.method = HOST_INGRESS)
      (hs : s.stopping = false) (hf : s.restartRequired = false)
      (hi : hostIngress rt reg.ingress r.params = .ok (name, payload)) :
      Awaits rt reg s r s (.callHostIngress name payload)
  | onShutdown (hm : r.method = SHUTDOWN) :
      Awaits rt reg s r { s with stopping := true } .onShutdown

theorem dispatch_awaits {rt : Runtime} {reg : Registry} {s s' : Lifecycle} {r : JsonRpcRequest}
    {hook : Hook} (h : dispatch rt reg s r = (s', .awaits hook)) : Awaits rt reg s r s' hook := by
  unfold dispatch at h
  split at h
  · rename_i hm
    cases h
    exact .onInitialize hm
  · split at h
    · rename_i hm
      split at h
      · cases h
      · rename_i hf
        split at h
        · cases h
        · rename_i capabilities next hn
          cases h
          exact .onConfigTransition capabilities next hm (Bool.eq_false_iff.2 hf) hn
    · split at h
      · rename_i hm
        split at h
        · cases h
        · rename_i hf
          cases h
          exact .health hm (Bool.eq_false_iff.2 hf)
      · split at h
        · rename_i hm
          split at h
          · cases h
          · rename_i hf
            cases h
            exact .getTools hm (Bool.eq_false_iff.2 hf)
        · split at h
          · rename_i hm
            split at h
            · cases h
            · rename_i hf
              split at h
              · cases h
              · rename_i call hc
                cases h
                exact .callTool call hm (Bool.eq_false_iff.2 hf) hc
          · split at h
            · rename_i hm
              split at h
              · cases h
              · rename_i hf
                obtain ⟨hs, hf⟩ := Bool.or_eq_false_iff.1 (Bool.eq_false_iff.2 hf)
                split at h
                · cases h
                · rename_i name payload hi
                  cases h
                  exact .callHostIngress name payload hm hs hf hi
            · split at h
              · rename_i hm
                cases h
                exact .onShutdown hm
              · cases h

/-- A request that reaches no hook changes nothing. -/
theorem dispatch_life {rt : Runtime} {reg : Registry} {s : Lifecycle} {r : JsonRpcRequest} :
    (dispatch rt reg s r).1 = s ∨
      dispatch rt reg s r = ({ s with stopping := true }, .awaits .onShutdown) := by
  unfold dispatch
  split_ifs
  · exact .inl rfl
  · exact .inl rfl
  · split
    · exact .inl rfl
    · exact .inl rfl
  · exact .inl rfl
  · exact .inl rfl
  · exact .inl rfl
  · exact .inl rfl
  · exact .inl rfl
  · split
    · exact .inl rfl
    · exact .inl rfl
  · exact .inl rfl
  · split
    · exact .inl rfl
    · exact .inl rfl
  · exact .inr rfl
  · exact .inl rfl

/-- What the rest of `_dispatch` changes: a config transition that its hook answered. -/
theorem complete_cases (rt : Runtime) (reg : Registry) (s : Lifecycle) (hook : Hook) (o : Outcome) :
    (complete rt reg s hook o).1 = s ∨
      ∃ next t n, hook = .onConfigTransition next ∧ o = .transition t n ∧
        complete rt reg s hook o = commit reg s next t := by
  cases o with
  | raised e => exact .inl (by cases hook <;> rfl)
  | value v => exact .inl (by cases hook <;> rfl)
  | transition t n =>
    cases hook with
    | onConfigTransition next => exact .inr ⟨next, t, n, rfl, rfl, rfl⟩
    | _ => exact .inl rfl

/-- What a config transition changes. -/
theorem commit_cases (reg : Registry) (s : Lifecycle) (next : Dict) (t : Transition) :
    (t = .restart ∧ commit reg s next t = ({ s with restartRequired := true }, .ok t.toDict)) ∨
      (∃ capabilities, t = .applied ∧ reg.transitions = some capabilities ∧
        capabilities.supportsLiveApply = true ∧
        commit reg s next t = ({ s with hostConfig := next }, .ok t.toDict)) ∨
      ∃ e, commit reg s next t = (s, .error e) := by
  cases t with
  | restart => exact .inl ⟨rfl, rfl⟩
  | applied =>
    cases hreg : reg.transitions with
    | none =>
      simp only [commit, hreg]
      exact .inr (.inr ⟨_, rfl⟩)
    | some capabilities =>
      by_cases hlive : capabilities.supportsLiveApply = true
      · refine .inr (.inl ⟨capabilities, rfl, rfl, hlive, ?_⟩)
        simp only [commit, hreg, if_pos hlive]
      · simp only [commit, hreg, if_neg hlive]
        exact .inr (.inr ⟨_, rfl⟩)

end KestrelSdk.Service

import KestrelSdk.Asyncio.ContextVar
import KestrelSdk.Asyncio.Machine
import KestrelSdk.Protocol.Provenance
import KestrelSdk.Service.Requests

namespace KestrelSdk.Service

open Json Protocol Asyncio

/-- `_ToolExecutionContextScope`. -/
structure ToolExecutionContextScope where
  context : Option ToolExecutionContext
  active : Bool

namespace ToolExecutionContextScope

def get (s : ToolExecutionContextScope) : Option ToolExecutionContext :=
  if s.active then s.context else none

def invalidate (s : ToolExecutionContextScope) : ToolExecutionContextScope :=
  { s with active := false }

end ToolExecutionContextScope

/-- A `tools/call` that passed its checks, with its scope. -/
structure ScopedCall where
  capabilities : Option ToolExecutionContextCapabilities
  params : Dict
  scope : ToolExecutionContextScope

/-- The tasks and threads of a service's process, and the scopes that `_dispatch` made. `var` is
`_active_tool_execution_context`, whose value names its scope by the number of the call. -/
structure Scopes where
  var : ContextVar := {}
  calls : List ScopedCall := []

namespace Scopes

inductive Action where
  /-- `_dispatch` of a `tools/call` in a task, up to its handler. -/
  | dispatch (t : Nat) (capabilities : Option ToolExecutionContextCapabilities) (params : Dict)
  /-- Code of a task creates a task or a worker thread. -/
  | spawn (t : Nat)
  /-- The innermost `call_tool` of a task returns, raises or is cancelled. -/
  | finish (t : Nat)

def step (rt : Runtime) (s : Scopes) : Action → Option Scopes
  | .dispatch t capabilities params =>
    match toolsCall rt capabilities params with
    | .error _ => some s
    | .ok call => do
      let var ← s.var.set t
      some ⟨var, s.calls ++ [⟨capabilities, params, ⟨call.context, true⟩⟩]⟩
  | .spawn t => do
    let var ← s.var.spawn t
    some { s with var }
  | .finish t => do
    let i ← s.var.innermost t
    let var ← s.var.reset t
    some ⟨var, s.calls.modify i fun c => { c with scope := c.scope.invalidate }⟩

/-- `get_tool_execution_context` in a task. -/
def getToolExecutionContext (s : Scopes) (t : Nat) : Option ToolExecutionContext :=
  match (s.var.tasks[t]?).bind ContextTask.current with
  | none => none
  | some i => (s.calls[i]?).bind fun c => c.scope.get

/-- A call is running from its dispatch to the end of its `call_tool`. -/
def Running (s : Scopes) (i : Nat) : Prop := i ∈ s.var.opened

instance (s : Scopes) (i : Nat) : Decidable (s.Running i) :=
  inferInstanceAs (Decidable (i ∈ s.var.opened))

/-- Each scope holds the context that its call passed, and is active while the call runs. -/
structure Inv (rt : Runtime) (s : Scopes) : Prop where
  var : s.var.Inv
  count : s.calls.length = s.var.next
  context : ∀ (i : Nat) (c : ScopedCall), s.calls[i]? = some c →
    ∃ call, toolsCall rt c.capabilities c.params = .ok call ∧ c.scope.context = call.context
  active : ∀ (i : Nat) (c : ScopedCall), s.calls[i]? = some c →
    (c.scope.active = true ↔ s.Running i)

end Scopes

/-- A process with one task outside every call. -/
def scopes (rt : Runtime) : Machine Scopes Scopes.Action := ⟨{}, Scopes.step rt⟩

namespace Scopes

variable {rt : Runtime} {s s' : Scopes} {t : Nat}

theorem Inv.start : (scopes rt).start.Inv rt := by
  constructor
  · exact ContextVar.Inv.start
  · rfl
  · intro i c hc
    cases hc
  · intro i c hc
    cases hc

theorem Inv.dispatch (h : s.Inv rt) {capabilities : Option ToolExecutionContextCapabilities}
    {params : Dict} {call : ToolCall} (hcall : toolsCall rt capabilities params = .ok call)
    {v : ContextVar} (hv : s.var.set t = some v) :
    Inv rt ⟨v, s.calls ++ [⟨capabilities, params, ⟨call.context, true⟩⟩]⟩ := by
  obtain ⟨hperm, hnext⟩ := ContextVar.opened_set hv
  constructor
  · exact h.var.set hv
  · rw [List.length_append, List.length_singleton, h.count, hnext]
  · intro i c hc
    rcases getElem?_concat hc with hc | ⟨-, rfl⟩
    · exact h.context i c hc
    · exact ⟨call, hcall, rfl⟩
  · intro i c hc
    have hmem : i ∈ v.opened ↔ i = s.var.next ∨ i ∈ s.var.opened := by
      rw [hperm.mem_iff, List.mem_cons]
    rcases getElem?_concat hc with hc | ⟨hi, rfl⟩
    · have hlt : i < s.var.next := by
        rw [← h.count]
        exact (List.getElem?_eq_some_iff.1 hc).1
      have hold : c.scope.active = true ↔ i ∈ s.var.opened := h.active i c hc
      have hne : i ≠ s.var.next := Nat.ne_of_lt hlt
      show c.scope.active = true ↔ i ∈ v.opened
      rw [hmem, hold]
      simp [hne]
    · show true = true ↔ i ∈ v.opened
      rw [hmem]
      simp [hi, h.count]

theorem Inv.spawn (h : s.Inv rt) {v : ContextVar} (hv : s.var.spawn t = some v) :
    Inv rt { s with var := v } := by
  obtain ⟨hopened, hnext⟩ := ContextVar.opened_spawn hv
  constructor
  · exact h.var.spawn hv
  · exact h.count.trans hnext.symm
  · exact h.context
  · intro i c hc
    show c.scope.active = true ↔ i ∈ v.opened
    rw [hopened]
    exact h.active i c hc

theorem Inv.finish (h : s.Inv rt) {v : ContextVar} {i : Nat}
    (hi : s.var.innermost t = some i) (hv : s.var.reset t = some v) :
    Inv rt ⟨v, s.calls.modify i fun c => { c with scope := c.scope.invalidate }⟩ := by
  have hmem := h.var.mem_reset hv hi
  obtain ⟨b, -, -, hnext⟩ := ContextVar.opened_reset hv
  have hcalls : ∀ (j : Nat) (c : ScopedCall), (s.calls.modify i fun c =>
      { c with scope := c.scope.invalidate })[j]? = some c →
      ∃ d, s.calls[j]? = some d ∧
        c = if i = j then { d with scope := d.scope.invalidate } else d := by
    intro j c hc
    rw [List.getElem?_modify] at hc
    obtain ⟨d, hd, rfl⟩ := Option.map_eq_some_iff.1 hc
    exact ⟨d, hd, by split <;> rfl⟩
  constructor
  · exact h.var.reset hv
  · rw [List.length_modify, h.count, hnext]
  · intro j c hc
    obtain ⟨d, hd, rfl⟩ := hcalls j c hc
    obtain ⟨call, hcall, hcontext⟩ := h.context j d hd
    refine ⟨call, ?_⟩
    split
    · exact ⟨hcall, hcontext⟩
    · exact ⟨hcall, hcontext⟩
  · intro j c hc
    obtain ⟨d, hd, rfl⟩ := hcalls j c hc
    have hold : d.scope.active = true ↔ j ∈ s.var.opened := h.active j d hd
    show _ ↔ j ∈ v.opened
    rw [hmem]
    split
    · rename_i hij
      simp [ToolExecutionContextScope.invalidate, hij]
    · rename_i hij
      rw [hold]
      simp [Ne.symm hij]

theorem Inv.step (h : s.Inv rt) {a : Action} (hs : s.step rt a = some s') : s'.Inv rt := by
  cases a with
  | dispatch t capabilities params =>
    unfold Scopes.step at hs
    dsimp only at hs
    split at hs
    · obtain rfl := Option.some.inj hs
      exact h
    · rename_i call hcall
      obtain ⟨v, hv, hs⟩ := Option.bind_eq_some_iff.1 hs
      obtain rfl := Option.some.inj hs
      exact h.dispatch hcall hv
  | spawn t =>
    obtain ⟨v, hv, hs⟩ := Option.bind_eq_some_iff.1 hs
    obtain rfl := Option.some.inj hs
    exact h.spawn hv
  | finish t =>
    obtain ⟨i, hi, hs⟩ := Option.bind_eq_some_iff.1 hs
    obtain ⟨v, hv, hs⟩ := Option.bind_eq_some_iff.1 hs
    obtain rfl := Option.some.inj hs
    exact h.finish hi hv

theorem inv_reachable (h : (scopes rt).Reachable s) : s.Inv rt :=
  h.invariant Inv.start fun _ _ _ hinv hstep => hinv.step hstep

/-- What `get_tool_execution_context` returns to the code of a call. -/
theorem Inv.getToolExecutionContext (h : s.Inv rt) {task : ContextTask}
    (ht : s.var.tasks[t]? = some task) {i : Nat} (hi : task.running = some i) :
    ∃ c call, s.calls[i]? = some c ∧ toolsCall rt c.capabilities c.params = .ok call ∧
      s.getToolExecutionContext t = if s.Running i then call.context else none := by
  have htask : task ∈ s.var.tasks := List.mem_of_getElem? ht
  have hlt : i < s.calls.length := by
    rw [h.count]
    exact h.var.running_lt htask hi
  have hc : s.calls[i]? = some s.calls[i] := List.getElem?_eq_getElem hlt
  obtain ⟨call, hcall, hcontext⟩ := h.context i _ hc
  have hactive := h.active i _ hc
  refine ⟨s.calls[i], call, hc, hcall, ?_⟩
  have hcurrent : task.current = some i := (h.var.current htask).trans hi
  unfold Scopes.getToolExecutionContext
  rw [ht, Option.bind_some, hcurrent]
  dsimp only
  rw [hc, Option.bind_some, ToolExecutionContextScope.get, hcontext]
  by_cases hrunning : s.Running i
  · rw [if_pos hrunning, if_pos (hactive.2 hrunning)]
  · rw [if_neg hrunning, if_neg (fun h => hrunning (hactive.1 h))]

/-- A call that was dispatched and does not run does not run again. -/
theorem ended_step {i : Nat} (hlt : i < s.var.next) (hi : ¬ s.Running i) {a : Action}
    (hinv : s.Inv rt) (hs : s.step rt a = some s') : i < s'.var.next ∧ ¬ s'.Running i := by
  unfold Running at hi ⊢
  cases a with
  | dispatch t capabilities params =>
    unfold Scopes.step at hs
    dsimp only at hs
    split at hs
    · obtain rfl := Option.some.inj hs
      exact ⟨hlt, hi⟩
    · obtain ⟨v, hv, hs⟩ := Option.bind_eq_some_iff.1 hs
      obtain rfl := Option.some.inj hs
      obtain ⟨hperm, hnext⟩ := ContextVar.opened_set hv
      refine ⟨by rw [hnext]; omega, ?_⟩
      rw [hperm.mem_iff, List.mem_cons]
      rintro (h | h)
      · omega
      · exact hi h
  | spawn t =>
    obtain ⟨v, hv, hs⟩ := Option.bind_eq_some_iff.1 hs
    obtain rfl := Option.some.inj hs
    obtain ⟨hopened, hnext⟩ := ContextVar.opened_spawn hv
    exact ⟨by rw [hnext]; exact hlt, by rw [hopened]; exact hi⟩
  | finish t =>
    obtain ⟨j, hj, hs⟩ := Option.bind_eq_some_iff.1 hs
    obtain ⟨v, hv, hs⟩ := Option.bind_eq_some_iff.1 hs
    obtain rfl := Option.some.inj hs
    obtain ⟨b, -, -, hnext⟩ := ContextVar.opened_reset hv
    refine ⟨by rw [hnext]; exact hlt, ?_⟩
    rw [hinv.var.mem_reset hv hj]
    exact fun h => hi h.1

theorem ended_run {i : Nat} (as : List Action) (hinv : s.Inv rt) (hlt : i < s.var.next)
    (hi : ¬ s.Running i) (hs : (scopes rt).runFrom s as = some s') : ¬ s'.Running i := by
  have key := Machine.runFrom_invariant
    (p := fun s : Scopes => s.Inv rt ∧ i < s.var.next ∧ ¬ s.Running i)
    (fun _ _ _ h hstep => ⟨h.1.step hstep, ended_step h.2.1 h.2.2 h.1 hstep⟩) as
    ⟨hinv, hlt, hi⟩ hs
  exact key.2.2

/-- The call that ends was dispatched, and runs no longer. -/
theorem finish_ended (hinv : s.Inv rt) (hs : s.step rt (.finish t) = some s') :
    ∃ i, s.var.innermost t = some i ∧ i < s'.var.next ∧ ¬ s'.Running i := by
  obtain ⟨i, hi, hs⟩ := Option.bind_eq_some_iff.1 hs
  obtain ⟨v, hv, hs⟩ := Option.bind_eq_some_iff.1 hs
  obtain rfl := Option.some.inj hs
  obtain ⟨b, hb, hperm, hnext⟩ := ContextVar.opened_reset hv
  rw [hi] at hb
  obtain rfl := Option.some.inj hb
  refine ⟨i, hi, ?_, ?_⟩
  · rw [hnext]
    apply hinv.var.fresh
    exact hperm.mem_iff.2 List.mem_cons_self
  · unfold Running
    rw [hinv.var.mem_reset hv hi]
    exact fun h => h.2 rfl

end Scopes

/-- Code that descends from a call gets the context that the call passed while it runs, and nothing
after it ended; code outside every call gets nothing. -/
theorem own_context_while_running {rt : Runtime} {s : Scopes} (h : (scopes rt).Reachable s) :
    (∀ (t : Nat) (task : ContextTask), s.var.tasks[t]? = some task →
      (task.running = none → s.getToolExecutionContext t = none) ∧
      ∀ i, task.running = some i → ∃ c call, s.calls[i]? = some c ∧
        toolsCall rt c.capabilities c.params = .ok call ∧
          s.getToolExecutionContext t = if s.Running i then call.context else none) ∧
    ∀ (t : Nat) (s' : Scopes), (scopes rt).step s (.finish t) = some s' →
      ∃ i, s.var.innermost t = some i ∧
        ∀ (as : List Scopes.Action) (s'' : Scopes), (scopes rt).runFrom s' as = some s'' →
          ∀ (u : Nat) (task : ContextTask), s''.var.tasks[u]? = some task →
            task.running = some i → s''.getToolExecutionContext u = none := by
  have hinv := Scopes.inv_reachable h
  constructor
  · intro t task ht
    constructor
    · intro hnone
      have hcurrent := hinv.var.current (List.mem_of_getElem? ht)
      unfold Scopes.getToolExecutionContext
      rw [ht, Option.bind_some, hcurrent, hnone]
    · intro i hi
      exact hinv.getToolExecutionContext ht hi
  · intro t s' hs
    obtain ⟨i, hi, hlt, hended⟩ := Scopes.finish_ended hinv hs
    refine ⟨i, hi, ?_⟩
    intro as s'' hrun u task hu hrunning
    have hinv' := Scopes.inv_reachable (h.step hs)
    have hnot := Scopes.ended_run as hinv' hlt hended hrun
    have hinv'' := Scopes.inv_reachable ((h.step hs).run hrun)
    obtain ⟨c, call, -, -, hget⟩ := hinv''.getToolExecutionContext hu hrunning
    rw [hget, if_neg hnot]

def sampleCapabilities : ToolExecutionContextCapabilities :=
  ⟨[TOOL_EXECUTION_CONTEXT_VERSION], by decide, by decide, by decide⟩

/-- The parameters of a manual call of a tool. -/
def manualParams : Dict :=
  [(.str (str "name"), .str (str "search")),
    (.str TOOL_EXECUTION_CONTEXT, ToolExecutionContext.manualCall.toDict)]

/-- Two requests overlap. The handler of the first, which has a context, creates a task. -/
def overlappingCalls : List Scopes.Action :=
  [.spawn 0, .spawn 0, .dispatch 1 (some sampleCapabilities) manualParams, .spawn 1,
    .dispatch 2 (some sampleCapabilities) [(.str (str "name"), .str (str "search"))]]

theorem overlappingCalls_enabled :
    ((scopes sampleRuntime).runFrom (scopes sampleRuntime).start overlappingCalls).isSome = true := by
  decide +kernel

theorem overlappingCalls_isolated :
    ∃ c call, ((scopes sampleRuntime).after overlappingCalls).calls[0]? = some c ∧
      toolsCall sampleRuntime c.capabilities c.params = .ok call ∧
        ((scopes sampleRuntime).after overlappingCalls).getToolExecutionContext 3 =
          call.context := by
  have hreach := Machine.reachable_after overlappingCalls_enabled
  have htask : (((scopes sampleRuntime).after overlappingCalls).var.tasks[3]?).map
      ContextTask.running = some (some 0) := by decide +kernel
  have hrunning : ((scopes sampleRuntime).after overlappingCalls).Running 0 := by decide +kernel
  obtain ⟨task, ht, hi⟩ := Option.map_eq_some_iff.1 htask
  obtain ⟨c, call, hc, hcall, hget⟩ := ((own_context_while_running hreach).1 3 task ht).2 0 hi
  exact ⟨c, call, hc, hcall, hget.trans (if_pos hrunning)⟩

end KestrelSdk.Service

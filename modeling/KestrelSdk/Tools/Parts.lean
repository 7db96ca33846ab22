import KestrelSdk.Asyncio.Machine
import KestrelSdk.Tools.Result

/-! The buffers of pending parts: nested tool calls, and tasks that copy their context. -/

namespace KestrelSdk.Tools

open Json (Str str Value Key Dict)

/-- How the wrapped method ends. `deferred` is a `DeferredToolResult`, whose constructor checked the
envelope, not changed since. `escapes` is an exception that leaves the wrapper. -/
inductive ToolOutcome where
  | result (r : ToolResult)
  | deferred (payload : Dict) (valid : validEnvelope payload = true)
  | legacy (v : Value)
  | failure (message : Str)
  | escapes

def partsField (pending_parts : List Value) : Dict :=
  if pending_parts.isEmpty then [] else [(.str (str "parts"), .list pending_parts)]

/-- The envelope that `execute` returns, none where it raises. -/
def envelope (name : Str) (pending_parts : List Value) : ToolOutcome → Option Dict
  | .result r =>
    let payload := r.toDict.set (str "tool") (.str name)
    some (if pending_parts.isEmpty then payload
      else payload.set (str "parts") (.list (pending_parts ++ r.parts.getD [])))
  | .deferred payload _ => do
    let payload ← wrapEnvelope ⟨some name, some pending_parts, some false⟩ payload
    guard (validEnvelope payload)
    return payload
  | .legacy v =>
    some ([(.str (str "success"), .bool true), (.str (str "result"), v),
      (.str (str "tool"), .str name)] ++ partsField pending_parts)
  | .failure message =>
    some ([(.str (str "success"), .bool false), (.str (str "error"), .str message),
      (.str (str "tool"), .str name)] ++ partsField pending_parts)
  | .escapes => none

/-- A call of a wrapper, with its `buffer`. `owner` records its task and how many calls the task
was in, `said` the parts that its own code appended before it ended. -/
structure ToolCall where
  name : Str
  buffer : Nat
  owner : Nat × Nat
  said : List Value
  outcome : Option ToolOutcome
  envelope : Option Dict

/-- A call that a task is in, and the token of its `set`. -/
structure Frame where
  call : Nat
  token : Option Nat

/-- A task: its value of the context variable and the calls it is in, innermost first. `inherited`
is the call whose code created it. -/
structure Task where
  current : Option Nat
  frames : List Frame
  inherited : Option Nat

/-- The call whose code a task runs. -/
def Task.running (t : Task) : Option Nat :=
  match t.frames with
  | f :: _ => some f.call
  | [] => t.inherited

structure Process where
  tasks : List Task
  buffers : List (List Value)
  calls : List ToolCall

inductive Action where
  /-- The wrapper `name` is called in a task. -/
  | execute (t : Nat) (name : Str)
  /-- Code of the task appends to `current_tool_result_parts()`. -/
  | append (t : Nat) (part : Value)
  | create_task (t : Nat)
  /-- The innermost call of the task ends. -/
  | finish (t : Nat) (o : ToolOutcome)

namespace Process

/-- The buffer of a call, none outside every call. -/
def bufferOf (s : Process) (running : Option Nat) : Option Nat :=
  running.bind fun i => (s.calls[i]?).map ToolCall.buffer

/-- The parts that the call says, unless it ended before. -/
def say (s : Process) (running : Option Nat) (part : Value) : List ToolCall :=
  match running with
  | none => s.calls
  | some i =>
    s.calls.modify i fun c =>
      if c.outcome.isNone then { c with said := c.said ++ [part] } else c

def step (s : Process) : Action → Option Process
  | .execute t name => do
    let task ← s.tasks[t]?
    let frame : Frame := ⟨s.calls.length, task.current⟩
    some {
      tasks := s.tasks.set t
        { task with current := some s.buffers.length, frames := frame :: task.frames }
      buffers := s.buffers ++ [[]]
      calls := s.calls ++ [⟨name, s.buffers.length, (t, task.frames.length), [], none, none⟩] }
  | .append t part => do
    let task ← s.tasks[t]?
    let b ← task.current
    some { s with
      buffers := s.buffers.modify b (· ++ [part])
      calls := s.say task.running part }
  | .create_task t => do
    let task ← s.tasks[t]?
    some { s with tasks := s.tasks ++ [⟨task.current, [], task.running⟩] }
  | .finish t o => do
    let task ← s.tasks[t]?
    match task.frames with
    | [] => none
    | frame :: frames => do
      let c ← s.calls[frame.call]?
      let pending_parts ← s.buffers[c.buffer]?
      some { s with
        tasks := s.tasks.set t { task with current := frame.token, frames := frames }
        calls := s.calls.set frame.call
          { c with outcome := some o, envelope := Tools.envelope c.name pending_parts o } }

end Process

/-- A process with one task outside every call. -/
def process : Asyncio.Machine Process Action :=
  ⟨⟨[⟨none, [], none⟩], [], []⟩, Process.step⟩

end KestrelSdk.Tools

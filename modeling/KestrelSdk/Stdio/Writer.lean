import KestrelSdk.Asyncio.Machine
import KestrelSdk.Json.Bytes

namespace KestrelSdk.Stdio

open Asyncio
open Json (Bytes)

/-- An entry of `_jobs` that is not the `None` of `close`. -/
structure Job where
  data : Bytes
  completion : Option Nat
  deriving DecidableEq

/-- The future of a drain. -/
inductive Completion where
  | pending
  | result
  | failure
  deriving DecidableEq

inductive Caller where
  | awaiting
  | returned
  | raised
  | cancelled
  deriving DecidableEq

/-- A `drain` that took bytes. `upTo` counts the bytes accepted until then. -/
structure Drain where
  loop : Nat
  upTo : Nat
  data : Bytes
  completion : Completion
  caller : Caller
  deriving DecidableEq

/-- What the synchronous `stream.write` does: it returns the bytes that it took, returns `None`, or
raises, perhaps after it took some. -/
inductive WriteResult where
  | wrote (n : Nat)
  | wouldBlock
  | raised (n : Nat)
  deriving DecidableEq

/-- Where the thread of `_write_loop` is. -/
inductive Worker where
  | getting
  | writing (view : Bytes) (completion : Option Nat)
  | succeeded (completion : Option Nat)
  | reporting (d : Nat)
  | failing
  | notifying (ds : List Nat)
  | leaving
  | ended
  deriving DecidableEq

inductive WriterError where
  | terminal
  | closed
  deriving DecidableEq

/-- `_ThreadedStdioWriter`, its thread and its callers. `written` is all that `write` accepted, `sent`
all that the stream took, `flushed` how much of it the last flush covered, and `broken` tells
whether a write or a flush failed. -/
structure Writer where
  pending : Bytes := []
  jobs : List (Option Job) := []
  drains : List Nat := []
  closing : Bool := false
  terminalFailure : Bool := false
  worker : Worker := .getting
  calls : List Drain := []
  callbacks : List (Nat × Completion) := []
  closedLoops : List Nat := []
  written : Bytes := []
  sent : Bytes := []
  flushed : Nat := 0
  broken : Bool := false
  deriving DecidableEq

namespace Writer

/-- `write`. -/
def write (s : Writer) (data : Bytes) : Except WriterError Writer :=
  if s.terminalFailure then .error .terminal
  else if s.closing then .error .closed
  else .ok { s with pending := s.pending ++ data, written := s.written ++ data }

/-- `drain` up to its `await`. -/
def drain (s : Writer) (loop : Nat) : Except WriterError Writer :=
  if s.terminalFailure then .error .terminal
  else if s.closing then .error .closed
  else if s.pending = [] then .ok s
  else .ok { s with
    pending := []
    drains := s.drains ++ [s.calls.length]
    jobs := s.jobs ++ [some ⟨s.pending, some s.calls.length⟩]
    calls := s.calls ++ [⟨loop, s.written.length, s.pending, .pending, .awaiting⟩] }

/-- `close`. -/
def close (s : Writer) : Writer :=
  if s.terminalFailure then s
  else if s.closing then s
  else { s with
    closing := true
    pending := []
    jobs := s.jobs ++ ((if s.pending = [] then [] else [some ⟨s.pending, none⟩]) ++ [none]) }

/-- The loop that a drain runs on. -/
def loopOf (s : Writer) (d : Nat) : Nat := (s.calls[d]?.map Drain.loop).getD 0

def open? (s : Writer) (d : Nat) : Bool := s.loopOf d ∉ s.closedLoops

/-- `loop.call_soon_threadsafe(set, completion)`, which a closed loop refuses. -/
def callSoon (s : Writer) (d : Nat) (value : Completion) : Writer :=
  if s.open? d then { s with callbacks := s.callbacks ++ [(d, value)] } else s

/-- A failed write or flush. -/
def fail (s : Writer) (taken : Bytes) : Writer :=
  { s with sent := s.sent ++ taken, worker := .failing, broken := true }

/-- `stream.write(view)` in `_write_and_flush`, and the checks of what it returned. -/
def streamWrite (s : Writer) (view : Bytes) (completion : Option Nat) : WriteResult → Option Writer
  | .wouldBlock => some (s.fail [])
  | .wrote 0 => some (s.fail [])
  | .wrote n =>
    if n ≤ view.length then
      some { s with sent := s.sent ++ view.take n, worker := .writing (view.drop n) completion }
    else none
  | .raised n => if n ≤ view.length then some (s.fail (view.take n)) else none

/-- `stream.flush()`. -/
def streamFlush (s : Writer) (completion : Option Nat) (ok : Bool) : Writer :=
  if ok then { s with flushed := s.sent.length, worker := .succeeded completion } else s.fail []

/-- `_latch_terminal_failure`. -/
def latchTerminalFailure (s : Writer) : Writer :=
  { s with
    terminalFailure := true
    pending := []
    drains := []
    jobs := []
    worker := .notifying s.drains }

end Writer

/-- The steps of the thread. -/
inductive Work where
  | get
  | write (r : WriteResult)
  | flush (ok : Bool)
  | pop
  | report
  | latch
  | notify
  | close
  deriving DecidableEq

namespace Writer

/-- `_write_loop`. -/
def work (s : Writer) : Work → Option Writer
  | .get =>
    match s.worker, s.jobs with
    | .getting, some job :: rest =>
      some { s with jobs := rest, worker := .writing job.data job.completion }
    | .getting, none :: rest => some { s with jobs := rest, worker := .leaving }
    | _, _ => none
  | .write r =>
    match s.worker with
    | .writing (b :: view) completion => s.streamWrite (b :: view) completion r
    | _ => none
  | .flush ok =>
    match s.worker with
    | .writing [] completion => some (s.streamFlush completion ok)
    | _ => none
  | .pop =>
    match s.worker with
    | .succeeded (some d) => some { s with drains := s.drains.filter (· ≠ d), worker := .reporting d }
    | .succeeded none => some { s with worker := .getting }
    | _ => none
  | .report =>
    match s.worker with
    | .reporting d => some { s.callSoon d .result with worker := .getting }
    | _ => none
  | .latch =>
    match s.worker with
    | .failing => some s.latchTerminalFailure
    | _ => none
  | .notify =>
    match s.worker with
    | .notifying (d :: ds) => some { s.callSoon d .failure with worker := .notifying ds }
    | .notifying [] => some { s with worker := .leaving }
    | _ => none
  | .close =>
    match s.worker with
    | .leaving => some { s with worker := .ended }
    | _ => none

end Writer

/-- What happens to the writer: calls, steps of the thread, and what the event loops do: a callback
runs, a drain goes on after its future, a drain is cancelled, a loop is closed. -/
inductive Event where
  | write (data : Bytes)
  | drain (loop : Nat)
  | close
  | work (w : Work)
  | callback (d : Nat) (value : Completion)
  | resume (d : Nat)
  | cancel (d : Nat)
  | closeLoop (loop : Nat)
  deriving DecidableEq

/-- `_set_future_result` and `_set_future_exception`. -/
def Drain.set (value : Completion) (c : Drain) : Drain :=
  if c.completion = .pending then { c with completion := value } else c

/-- `await asyncio.shield(completion)` ends. -/
def Drain.settle (c : Drain) : Drain :=
  match c.completion with
  | .pending => c
  | .result => { c with caller := .returned }
  | .failure => { c with caller := .raised }

namespace Writer

def awaiting (s : Writer) (d : Nat) : Bool :=
  s.open? d && s.calls[d]?.any fun c => c.caller = .awaiting

def done (s : Writer) (d : Nat) : Bool := s.calls[d]?.any fun c => c.completion ≠ .pending

/-- A call that raises changes nothing. -/
def step (s : Writer) : Event → Option Writer
  | .write data =>
    match s.write data with
    | .ok s' => some s'
    | .error _ => some s
  | .drain loop =>
    match s.drain loop with
    | .ok s' => some s'
    | .error _ => some s
  | .close => some s.close
  | .work w => s.work w
  | .callback d value =>
    if (d, value) ∈ s.callbacks ∧ s.open? d then
      some { s with callbacks := s.callbacks.erase (d, value), calls := s.calls.modify d (·.set value) }
    else none
  | .resume d =>
    if s.awaiting d ∧ s.done d then some { s with calls := s.calls.modify d (·.settle) } else none
  | .cancel d =>
    if s.awaiting d then
      some { s with calls := s.calls.modify d fun c => { c with caller := .cancelled } }
    else none
  | .closeLoop loop => some { s with closedLoops := loop :: s.closedLoops }

end Writer

/-- A writer, its thread and its callers. -/
def writer : Machine Writer Event where
  start := {}
  step := Writer.step

end KestrelSdk.Stdio

import KestrelSdk.Asyncio.Lock
import KestrelSdk.Json.Value

namespace KestrelSdk.Client

open Json Asyncio

/-- An `on_event` registration. -/
abbrev Hid := Nat

/-- A feature event and its place on the stream. -/
structure Event where
  seq : Nat
  params : Dict

/-- One `_dispatch_event` under way: the handler that runs, those after it in the snapshot, and
the events that follow. -/
structure Delivery where
  event : Event
  current : Hid
  handlers : List Hid
  rest : List Event

/-- Where the read task or a drain task stands. `dropped` is a task that was cancelled before its
first step. -/
inductive Pc where
  | absent
  | created
  | reading
  | locking (live : Option Event)
  | delivering (d : Delivery)
  | ended
  | dropped

/-- The tasks that deliver events. -/
inductive Worker where
  | read
  | drain (k : Nat)
  deriving DecidableEq

/-- The event lock knows its tasks by number; `1` is the close task. -/
def Worker.code : Worker → Nat
  | .read => 0
  | .drain k => k + 2

def closeCode : Nat := 1

/-- Where a worker goes that is through: the read task reads on. -/
def Worker.after : Worker → Pc
  | .read => .reading
  | .drain _ => .ended

def MAX_PENDING_EVENTS : Nat := 256

/-- Event delivery: handlers, the pre-registration buffer, the event lock and the tasks that take
it. `stream` holds every feature event read, `delivered` every handler call, `buffered` and
`dropped` what entered the buffer and what overflowed; `opening` and `joined` are the buffer and
the length of the stream when the first handler was registered. -/
structure Mail where
  handlers : List Hid := []
  nextHandler : Nat := 0
  buffer : List Event := []
  lock : FifoLock := {}
  read : Pc := .absent
  drains : Nat → Pc := fun _ => .absent
  nextDrain : Nat := 0
  stream : List Event := []
  delivered : List (Hid × Event) := []
  buffered : List Event := []
  dropped : List Event := []
  opening : List Event := []
  joined : Nat := 0

namespace Mail

def pc (m : Mail) : Worker → Pc
  | .read => m.read
  | .drain k => m.drains k

def setPc (m : Mail) (w : Worker) (p : Pc) : Mail :=
  match w with
  | .read => { m with read := p }
  | .drain k => { m with drains := Function.update m.drains k p }

/-- `on_event`: the first handler starts a drain of the buffer. -/
def onEvent (m : Mail) : Mail :=
  let first := m.handlers.isEmpty
  let m' := { m with handlers := m.handlers ++ [m.nextHandler], nextHandler := m.nextHandler + 1
                     opening := if m.nextHandler = 0 then m.buffer else m.opening
                     joined := if m.nextHandler = 0 then m.stream.length else m.joined }
  if first && !m.buffer.isEmpty then
    { m' with drains := Function.update m.drains m.nextDrain .created, nextDrain := m.nextDrain + 1 }
  else m'

/-- `deque(maxlen=256).append`. -/
def push (m : Mail) (e : Event) : Mail :=
  match m.buffer with
  | x :: l =>
    if MAX_PENDING_EVENTS ≤ m.buffer.length then
      { m with buffer := l ++ [e], buffered := m.buffered ++ [e], dropped := m.dropped ++ [x] }
    else { m with buffer := m.buffer ++ [e], buffered := m.buffered ++ [e] }
  | [] => { m with buffer := [e], buffered := m.buffered ++ [e] }

/-- A handler is called with an event. -/
def invoke (m : Mail) (h : Hid) (e : Event) : Mail := { m with delivered := m.delivered ++ [(h, e)] }

/-- The worker is through and leaves the event lock. -/
def release (m : Mail) (w : Worker) : Mail := ({ m with lock := m.lock.release }).setPc w w.after

/-- The next `_dispatch_event` calls the first handler of its snapshot. -/
def dispatch (m : Mail) (w : Worker) : List Event → Mail
  | [] => m.release w
  | e :: rest =>
    match m.handlers with
    | [] => dispatch m w rest
    | h :: hs => (m.invoke h e).setPc w (.delivering ⟨e, h, hs, rest⟩)

/-- The section under the event lock, up to its first await: `_handle_notification` for a live
event, `_flush_buffer` for a drain. -/
def underLock (m : Mail) (w : Worker) (live : Option Event) : Mail :=
  match live with
  | some e =>
    if m.handlers.isEmpty then (m.push e).release w
    else ({ m with buffer := [] }).dispatch w (m.buffer ++ [e])
  | none => ({ m with buffer := [] }).dispatch w m.buffer

/-- `async with self._event_lock`. -/
def enter (m : Mail) (w : Worker) (live : Option Event) : Mail :=
  match m.lock.acquire w.code with
  | (l, true) => ({ m with lock := l }).underLock w live
  | (l, false) => ({ m with lock := l }).setPc w (.locking live)

/-- A feature event reaches the read loop. -/
def receive (m : Mail) (params : Dict) : Mail :=
  let e : Event := ⟨m.stream.length, params⟩
  ({ m with stream := m.stream ++ [e] }).enter .read (some e)

/-- The worker that waited owns the lock now. -/
def locked (m : Mail) (w : Worker) : Option Mail :=
  match m.pc w with
  | .locking live => if m.lock.owner = some w.code then some (m.underLock w live) else none
  | _ => none

/-- The handler that ran has returned. -/
def handled (m : Mail) (w : Worker) : Option Mail :=
  match m.pc w with
  | .delivering d =>
    match d.handlers with
    | h :: hs => some ((m.invoke h d.event).setPc w (.delivering { d with current := h, handlers := hs }))
    | [] => some (m.dispatch w d.rest)
  | _ => none

/-- The worker ends at an await: a handler that raised, or its own cancellation. A lock that it
holds goes to the next waiter. -/
def stop (m : Mail) (w : Worker) : Mail :=
  let l :=
    if m.lock.owner = some w.code then m.lock.release else m.lock.cancelWaiter w.code
  ({ m with lock := l }).setPc w .ended

end Mail

end KestrelSdk.Client

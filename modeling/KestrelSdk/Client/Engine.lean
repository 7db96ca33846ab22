import KestrelSdk.Client.Desk
import KestrelSdk.Client.Mail

namespace KestrelSdk.Client

open Json Protocol Asyncio

/-- A task in the order of its creation. -/
inductive Task where
  | worker (w : Worker)
  | close
  deriving DecidableEq

/-- Where `_close_owned` stands. `read` tells whether its snapshot holds a read task, `drains`
which drain tasks it joins. -/
inductive ClosePc where
  | absent
  | created
  | gathering (read : Bool) (drains : List Nat)
  | locking (read : Bool)
  | closing (read : Bool)
  | done
  deriving DecidableEq

/-- What the calls of a client share with its tasks: the request table, event delivery, the read
task, the close task and the tasks that have not run yet. -/
structure Engine where
  desk : Desk := {}
  mail : Mail := {}
  closedExc : Option Terminal := none
  closeTask : ClosePc := .absent
  hasReadTask : Bool := false
  fresh : List Task := []
  readCancel : Bool := false
  drainCancel : List Nat := []
  readerEof : Bool := false

def isDone : Pc → Bool
  | .ended => true
  | .dropped => true
  | _ => false

/-- `_event_tasks`: the drain tasks that are not done. -/
def eventTasks (m : Mail) : List Nat := (List.range m.nextDrain).filter fun k => !isDone (m.drains k)

namespace Engine

/-- `start`, on a stream that has not ended. -/
def createReadTask (e : Engine) : Engine :=
  if e.hasReadTask then e
  else
    { e with hasReadTask := true, mail := { e.mail with read := .created }
             fresh := e.fresh ++ [.worker .read] }

/-- The task that the first `close` creates. -/
def createCloseTask (e : Engine) : Engine :=
  match e.closeTask with
  | .absent => { e with closeTask := .created, fresh := e.fresh ++ [Task.close] }
  | _ => e

/-- The end of the read loop, through its `finally`. -/
def endRead (e : Engine) (x : Terminal) : Engine :=
  { e with closedExc := some x, desk := e.desk.failAll x, mail := e.mail.stop .read }

/-- A decoded frame in the read loop. -/
def readMessage (e : Engine) : JsonRpcMessage → Engine
  | .response r => { e with desk := e.desk.answer r }
  | .notification n =>
    if n.method = FEATURE_EVENT then { e with mail := e.mail.receive n.params } else e
  | .request _ => e

/-- One line in the read loop. -/
def readLine (py : Interpreter) (e : Engine) (b : Bytes) : Engine :=
  match decodeMessage py b with
  | .ok m => e.readMessage m
  | .error (.protocol _) => e.endRead .protocol
  | .error _ => e.endRead .connection

/-- `on_event`, before the shutdown. -/
def onEvent (e : Engine) : Engine :=
  { e with mail := e.mail.onEvent
           fresh := if e.mail.nextDrain < e.mail.onEvent.nextDrain then
             e.fresh ++ [.worker (.drain e.mail.nextDrain)] else e.fresh }

/-- `_close_owned` owns the event lock: handlers and buffer are cleared. -/
def closeClear (e : Engine) (read : Bool) : Engine :=
  { e with mail := { e.mail with handlers := [], buffer := [], lock := e.mail.lock.release }
           closeTask := .closing read }

def closeEnter (e : Engine) (read : Bool) : Engine :=
  match e.mail.lock.acquire closeCode with
  | (l, true) => ({ e with mail := { e.mail with lock := l } }).closeClear read
  | (l, false) => { e with mail := { e.mail with lock := l }, closeTask := .locking read }

/-- The first step of `_close_owned`: it cancels its tasks and feeds EOF to the reader. -/
def closeBegin (e : Engine) : Engine :=
  let ds := eventTasks e.mail
  let e' := { e with readerEof := true, drainCancel := e.drainCancel ++ ds
                     readCancel := e.readCancel || (e.hasReadTask && !isDone e.mail.read) }
  if !e.hasReadTask && ds.isEmpty then e'.closeEnter false
  else { e' with closeTask := .gathering e.hasReadTask ds }

/-- The first step of the oldest task that has not run. -/
def beginTask (e : Engine) : Option Engine :=
  match e.fresh with
  | [] => none
  | .worker .read :: fresh =>
    some { e with fresh, mail := { e.mail with read := if e.readCancel then .dropped else .reading } }
  | .worker (.drain k) :: fresh =>
    some { e with fresh, mail := if k ∈ e.drainCancel then e.mail.setPc (.drain k) .dropped
                                 else e.mail.enter (.drain k) none }
  | .close :: fresh => some ({ e with fresh }).closeBegin

/-- The gathered tasks are done. -/
def closeGathered (e : Engine) : Option Engine :=
  match e.closeTask with
  | .gathering read ds =>
    if (!read || isDone e.mail.read) && ds.all (fun k => isDone (e.mail.drains k)) then
      some (e.closeEnter read)
    else none
  | _ => none

def closeLocked (e : Engine) : Option Engine :=
  match e.closeTask with
  | .locking read => if e.mail.lock.owner = some closeCode then some (e.closeClear read) else none
  | _ => none

/-- `wait_closed` has settled. -/
def closeWaited (e : Engine) : Option Engine :=
  match e.closeTask with
  | .closing read =>
    some { e with closeTask := .done, closedExc := some .connection
                  hasReadTask := if read = e.hasReadTask then false else e.hasReadTask }
  | _ => none

/-- The running handler of a worker raised, or its awaitable was cancelled. -/
def handlerFails (e : Engine) (w : Worker) : Option Engine :=
  match e.mail.pc w with
  | .delivering _ =>
    match w with
    | .read => some (e.endRead .connection)
    | .drain _ => some { e with mail := e.mail.stop w }
  | _ => none

/-- The read task's own cancellation at an await. -/
def readCancelled (e : Engine) : Option Engine :=
  if e.readCancel then
    match e.mail.read with
    | .reading => some (e.endRead .connection)
    | .locking _ => some (e.endRead .connection)
    | .delivering _ => some (e.endRead .connection)
    | _ => none
  else none

def drainCancelled (e : Engine) (k : Nat) : Option Engine :=
  if k ∈ e.drainCancel then
    match e.mail.drains k with
    | .locking _ => some { e with mail := e.mail.stop (.drain k) }
    | .delivering _ => some { e with mail := e.mail.stop (.drain k) }
    | _ => none
  else none

end Engine

/-- What the peer, the handlers and the scheduler do to a client. -/
inductive Signal where
  | onEvent
  | begin
  | line (b : Bytes)
  | readEof
  | readFails (x : Terminal)
  | readCancelled
  | drainCancelled (k : Nat)
  | locked (w : Worker)
  | handled (w : Worker)
  | handlerFails (w : Worker)
  | closeGathered
  | closeLocked
  | closeWaited

/-- One step of a task, or a registration; `shut` is `_shutdown_started`. -/
def Engine.step (py : Interpreter) (shut : Bool) (e : Engine) : Signal → Option Engine
  | .onEvent => some (if shut then e else e.onEvent)
  | .begin => e.beginTask
  | .line b =>
    match e.mail.read with
    | .reading => some (e.readLine py b)
    | _ => none
  | .readEof =>
    match e.mail.read with
    | .reading => some (e.endRead .eof)
    | _ => none
  | .readFails x =>
    match e.mail.read with
    | .reading => some (e.endRead x)
    | _ => none
  | .readCancelled => e.readCancelled
  | .drainCancelled k => e.drainCancelled k
  | .locked w => (e.mail.locked w).map fun mail => { e with mail }
  | .handled w => (e.mail.handled w).map fun mail => { e with mail }
  | .handlerFails w => e.handlerFails w
  | .closeGathered => e.closeGathered
  | .closeLocked => e.closeLocked
  | .closeWaited => e.closeWaited

namespace Engine

theorem createReadTask_desk (e : Engine) : e.createReadTask.desk = e.desk := by
  unfold createReadTask
  split
  · rfl
  · rfl

theorem createCloseTask_desk (e : Engine) : e.createCloseTask.desk = e.desk := by
  unfold createCloseTask
  split
  · rfl
  · rfl

theorem createCloseTask_frame (e : Engine) :
    e.createCloseTask.hasReadTask = e.hasReadTask ∧ e.createCloseTask.closedExc = e.closedExc := by
  unfold createCloseTask
  split
  · exact ⟨rfl, rfl⟩
  · exact ⟨rfl, rfl⟩

theorem closeEnter_desk (e : Engine) (read : Bool) : (e.closeEnter read).desk = e.desk := by
  unfold closeEnter
  split
  · rfl
  · rfl

end Engine

end KestrelSdk.Client

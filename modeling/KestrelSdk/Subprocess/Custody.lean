import KestrelSdk.Subprocess.Step

namespace KestrelSdk.Subprocess

open Asyncio

/-- The part of the state that decides who owns a child. -/
structure Children where
  process : Option Sid
  client : Option Cid
  spawnTask : Option Sid
  retirements : List Rid
  records : Rid → Retirement
  retireTasks : Jid → RetireTask
  spawns : Sid → SpawnTask
  processes : Sid → Process
  clients : Cid → Client
  nextSpawn : Nat
  nextClient : Nat
  nextRecord : Nat
  nextRetireTask : Nat

def State.children (s : State) : Children :=
  ⟨s.process, s.client, s.spawnTask, s.retirements, s.records, s.retireTasks, s.spawns,
    s.processes, s.clients, s.nextSpawn, s.nextClient, s.nextRecord, s.nextRetireTask⟩

/-- Where the child of the last admitted start is. -/
inductive Custody where
  | released
  | live
  | handoff (t : Tid)
  | published (c : Cid)
  | record (r : Rid)
  deriving DecidableEq

/-- No start can still claim the child: a record holds it, or nothing is left of it. -/
def Custody.Handed : Custody → Prop
  | .released => True
  | .record _ => True
  | _ => False

/-- The published client. -/
def Custody.client : Custody → Option Cid
  | .published c => some c
  | _ => none

/-- The process that a claim of the child finds. -/
def Custody.process (last : Sid) : Custody → Option Sid
  | .published _ => some last
  | .handoff _ => some last
  | _ => none

def Custody.spawn (last : Sid) : Custody → Option Sid
  | .live => some last
  | _ => none

/-- What custody becomes when record `r` is removed. -/
def Custody.drop (o : Custody) (r : Rid) : Custody := if o = .record r then .released else o

namespace Children

/-- The spawn issued by the start admitted last. -/
def last (k : Children) : Sid := k.nextSpawn - 1

/-- `_wait_for_process` on the settled state of the wait task. -/
def observed (k : Children) (p : Sid) : Bool :=
  match (k.processes p).wait with
  | .done ok result => (k.processes p).returncode || (ok && result)
  | _ => false

/-- A client over the pipes of `sp`. -/
def Over (k : Children) (sp : Sid) (c : Cid) : Prop :=
  c < k.nextClient ∧ (k.clients c).process = sp

/-- The exit of the process was observed and every client over it is closed. -/
def Reaped (k : Children) (sp : Sid) : Prop :=
  k.observed sp = true ∧ ∀ c, k.Over sp c → (k.clients c).close = .done true

/-- Nothing of the spawn is left: it gave no process, or the process is reaped. -/
def Released (k : Children) (sp : Sid) : Prop :=
  k.spawns sp ≠ .running ∧ ∀ pipes, k.spawns sp = .done (.process pipes) → k.Reaped sp

/-- Nobody has waited for the process or opened its pipes. -/
def Untouched (k : Children) (sp : Sid) : Prop :=
  (k.processes sp).wait = .absent ∧ ∀ c, ¬ k.Over sp c

/-- The record has retired all it was given. -/
def Complete (k : Children) (r : Rid) : Prop :=
  (k.records r).spawnTask = none ∧ (k.records r).client = none ∧
    ∀ p, (k.records r).process = some p → k.observed p = true

/-- A record that was only given startup tasks. -/
def Blank (k : Children) (r : Rid) : Prop :=
  (k.records r).spawnTask = none ∧ (k.records r).client = none ∧ (k.records r).process = none

/-- The record holds the child of `sp`, or saw its spawn fail. -/
def Holds (k : Children) (r : Rid) (sp : Sid) : Prop :=
  (k.records r).spawnTask = some sp ∨ (k.records r).process = some sp ∨
    ((k.records r).spawnTask = none ∧ (k.records r).process = none ∧
      k.spawns sp ≠ .running ∧ ∀ b, k.spawns sp ≠ .done (.process b))

/-- The slots that custody `o` of the last child leaves filled. -/
structure Place (k : Children) (o : Custody) : Prop where
  spawnTask : k.spawnTask = o.spawn k.last
  client : k.client = o.client
  process : k.process = o.client.map fun _ => k.last
  nodup : k.retirements.Nodup
  retirements : ∀ r ∈ k.retirements, r < k.nextRecord ∧ (o = .record r ∨ k.Blank r)
  spawned : o ≠ .released → 0 < k.nextSpawn
  released : o = .released → 0 < k.nextSpawn → k.Released k.last
  live : o = .live → k.Untouched k.last
  handoff : ∀ t, o = .handoff t → k.Untouched k.last ∧ k.spawns k.last = .done (.process false)
  published : ∀ c, o = .published c → k.spawns k.last = .done (.process true) ∧
    (k.processes k.last).wait = .absent ∧ (k.clients c).shutdown = .absent ∧
    (k.clients c).close = .absent ∧ ∀ d, k.Over k.last d ↔ d = c
  record : ∀ r, o = .record r → r ∈ k.retirements ∧ k.Holds r k.last ∧
    ∀ c, k.Over k.last c → (k.records r).client = some c ∨ (k.clients c).close = .done true

/-- What a retirement record says about the objects it owns. -/
structure RecordOk (k : Children) (o : Custody) (r : Rid) : Prop where
  spawn : ∀ sp, (k.records r).spawnTask = some sp → sp < k.nextSpawn ∧ k.Untouched sp ∧
    (k.records r).process = none ∧ (k.records r).client = none ∧
    (k.records r).waitTask = false ∧ (k.records r).shutdownAttempted = false ∧
    (k.records r).closeAttempted = false ∧ (k.records r).closeSucceeded = false
  process : ∀ p, (k.records r).process = some p → p < k.nextSpawn ∧
    ∃ pipes, k.spawns p = .done (.process pipes)
  client : ∀ c, (k.records r).client = some c → c < k.nextClient ∧
    (k.records r).process = some (k.clients c).process
  wait : ∀ p, (k.records r).process = some p → (k.records r).waitTask = false →
    (k.processes p).wait = .absent
  shutdown : ∀ c, (k.records r).client = some c → (k.records r).shutdownAttempted = false →
    (k.clients c).shutdown = .absent
  close : ∀ c, (k.records r).client = some c → (k.records r).closeAttempted = false →
    (k.clients c).close = .absent
  closeTask : ∀ c, (k.records r).closeTask = some c →
    (k.records r).client = some c ∧ (k.records r).closeAttempted = true
  closed : (k.records r).closeSucceeded = true → ∀ c, (k.records r).client = some c →
    (k.clients c).close = .done true
  task : ∃ j, (k.records r).task = some j ∧ j < k.nextRetireTask ∧ (k.retireTasks j).record = r
  retired : o ≠ .record r → k.Complete r

/-- The locals of `_retire_child` against the record it works on. -/
def PcOk (k : Children) (r : Rid) : RetirePc → Prop
  | .init => True
  | .spawnWait sp => (k.records r).spawnTask = some sp
  | .startupWait spawnRetired _ => spawnRetired = true → (k.records r).spawnTask = none
  | .shutdownWait pre c => (pre = true → (k.records r).spawnTask = none) ∧
      (k.records r).client = some c
  | .exitWait p f | .terminateWait p f | .killWait p f =>
      (f.pre = true → (k.records r).spawnTask = none) ∧ f.client = (k.records r).client ∧
        (k.records r).process = some p
  | .closeWait process c f => (f.pre = true → (k.records r).spawnTask = none) ∧
      (k.records r).client = some c ∧ process = (k.records r).process ∧
        (f.processRetired = true → ∀ p, process = some p → k.observed p = true)
  | .lastWait p => (k.records r).spawnTask = none ∧ (k.records r).client = none ∧
      (k.records r).process = some p
  | .done result => result = true → k.Complete r

structure TaskOk (k : Children) (j : Jid) : Prop where
  record : (k.retireTasks j).record < k.nextRecord
  current : (∀ b, (k.retireTasks j).pc ≠ .done b) →
    (k.records (k.retireTasks j).record).task = some j
  pc : k.PcOk (k.retireTasks j).record (k.retireTasks j).pc

/-- Ownership is in order, but for the retirement task that is running. -/
structure SoundBut (k : Children) (o : Custody) (running : Option Jid) : Prop where
  place : k.Place o
  earlier : ∀ sp, sp + 1 < k.nextSpawn → k.Released sp
  client : ∀ c < k.nextClient, (k.clients c).process < k.nextSpawn
  fresh : ∀ p, k.nextSpawn ≤ p → (k.processes p).wait = .absent
  records : ∀ r < k.nextRecord, k.RecordOk o r
  tasks : ∀ j < k.nextRetireTask, running ≠ some j → k.TaskOk j

abbrev Sound (k : Children) (o : Custody) : Prop := k.SoundBut o none

/-- An event of the outside world: tasks settle, processes exit, clients fail. -/
structure Evolves (k : Children) (spawns : Sid → SpawnTask) (processes : Sid → Process)
    (clients : Cid → Client) : Prop where
  spawns : ∀ sp, k.spawns sp ≠ .running → spawns sp = k.spawns sp
  wait : ∀ p, (k.processes p).wait = .absent → (processes p).wait = .absent
  observed : ∀ p, k.observed p = true → { k with processes }.observed p = true
  process : ∀ c, (clients c).process = (k.clients c).process
  shutdown : ∀ c, (k.clients c).shutdown = .absent → (clients c).shutdown = .absent
  close : ∀ c, (k.clients c).close = .absent → (clients c).close = .absent
  closed : ∀ c, (k.clients c).close = .done true → (clients c).close = .done true

namespace Evolves

variable {k : Children} {o : Custody} {run : Option Jid} {spawns : Sid → SpawnTask}
  {processes : Sid → Process} {clients : Cid → Client}

theorem atop (h : Evolves k spawns processes clients) (sp : Sid) (c : Cid) :
    { k with spawns, processes, clients }.Over sp c ↔ k.Over sp c := by
  simp [Over, h.process c]

theorem released (h : Evolves k spawns processes clients) {sp : Sid} (hr : k.Released sp) :
    { k with spawns, processes, clients }.Released sp := by
  have hs := h.spawns sp hr.1
  refine ⟨by simpa only [hs] using hr.1, fun b hb => ?_⟩
  obtain ⟨ho, hc⟩ := hr.2 b (hs.symm.trans hb)
  exact ⟨h.observed sp ho, fun c hover => h.closed c (hc c ((h.atop sp c).1 hover))⟩

theorem untouched (h : Evolves k spawns processes clients) {sp : Sid} (hu : k.Untouched sp) :
    { k with spawns, processes, clients }.Untouched sp :=
  ⟨h.wait sp hu.1, fun c hc => hu.2 c ((h.atop sp c).1 hc)⟩

theorem complete (h : Evolves k spawns processes clients) {r : Rid} (hc : k.Complete r) :
    { k with spawns, processes, clients }.Complete r :=
  ⟨hc.1, hc.2.1, fun p hp => h.observed p (hc.2.2 p hp)⟩

theorem holds (h : Evolves k spawns processes clients) {r : Rid} {sp : Sid} (hh : k.Holds r sp) :
    { k with spawns, processes, clients }.Holds r sp := by
  obtain h1 | h1 | ⟨h1, h2, h3, h4⟩ := hh
  · exact .inl h1
  · exact .inr (.inl h1)
  · refine .inr (.inr ⟨h1, h2, ?_⟩)
    simp only [h.spawns sp h3]
    exact ⟨h3, h4⟩

theorem place (h : Evolves k spawns processes clients) (hp : k.Place o) :
    { k with spawns, processes, clients }.Place o where
  spawnTask := hp.spawnTask
  client := hp.client
  process := hp.process
  nodup := hp.nodup
  retirements := hp.retirements
  spawned := hp.spawned
  released := fun ho hn => h.released (hp.released ho hn)
  live := fun ho => h.untouched (hp.live ho)
  handoff := by
    intro t ht
    obtain ⟨hu, hs⟩ := hp.handoff t ht
    exact ⟨h.untouched hu, (h.spawns k.last (by rw [hs]; simp)).trans hs⟩
  published := by
    intro c hc
    obtain ⟨h1, h2, h3, h4, h5⟩ := hp.published c hc
    refine ⟨(h.spawns k.last (by rw [h1]; simp)).trans h1, h.wait _ h2, h.shutdown c h3,
      h.close c h4, fun d => (h.atop _ d).trans (h5 d)⟩
  record := by
    intro r hr
    obtain ⟨h1, h2, h3⟩ := hp.record r hr
    refine ⟨h1, h.holds h2, fun c hc => ?_⟩
    exact (h3 c ((h.atop _ c).1 hc)).imp id (h.closed c)

theorem recordOk (h : Evolves k spawns processes clients) {r : Rid} (hr : k.RecordOk o r) :
    { k with spawns, processes, clients }.RecordOk o r where
  spawn := by
    intro sp hsp
    obtain ⟨h1, h2, h3⟩ := hr.spawn sp hsp
    exact ⟨h1, h.untouched h2, h3⟩
  process := by
    intro p hp
    obtain ⟨h1, b, hb⟩ := hr.process p hp
    exact ⟨h1, b, (h.spawns p (by rw [hb]; simp)).trans hb⟩
  client := by
    intro c hc
    obtain ⟨h1, h2⟩ := hr.client c hc
    exact ⟨h1, by rw [h.process c]; exact h2⟩
  wait := fun p hp hw => h.wait p (hr.wait p hp hw)
  shutdown := fun c hc hs => h.shutdown c (hr.shutdown c hc hs)
  close := fun c hc hs => h.close c (hr.close c hc hs)
  closeTask := hr.closeTask
  closed := fun hs c hc => h.closed c (hr.closed hs c hc)
  task := hr.task
  retired := fun ho => h.complete (hr.retired ho)

theorem pcOk (h : Evolves k spawns processes clients) {r : Rid} {pc : RetirePc}
    (hp : k.PcOk r pc) : { k with spawns, processes, clients }.PcOk r pc := by
  cases pc with
  | closeWait process c f =>
    obtain ⟨h1, h2, h3, h4⟩ := hp
    exact ⟨h1, h2, h3, fun hf p hp => h.observed p (h4 hf p hp)⟩
  | done b => exact fun hb => h.complete (hp hb)
  | _ => exact hp

/-- Ownership is not disturbed by the outside world. -/
theorem soundBut (h : Evolves k spawns processes clients) (hs : k.SoundBut o run) :
    { k with spawns, processes, clients }.SoundBut o run where
  place := h.place hs.place
  earlier := fun sp hsp => h.released (hs.earlier sp hsp)
  client := fun c hc => by rw [h.process c]; exact hs.client c hc
  fresh := fun p hp => h.wait p (hs.fresh p hp)
  records := fun r hr => h.recordOk (hs.records r hr)
  tasks := by
    intro j hj hrun
    have ht := hs.tasks j hj hrun
    exact ⟨ht.record, ht.current, h.pcOk ht.pc⟩

end Evolves

end Children

end KestrelSdk.Subprocess

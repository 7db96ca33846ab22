import KestrelSdk.Asyncio.Effects
import KestrelSdk.Subprocess.Run

namespace KestrelSdk.Subprocess

open Asyncio

/-- The part of the state that decides whether an effect may still happen. -/
structure Gear where
  effects : List Effect
  processes : Sid → Process
  clients : Cid → Client
  records : Rid → Retirement
  retireTasks : Jid → RetireTask
  spawnTask : Option Sid
  spawnCancelRequested : Bool
  startupTasks : List Kid
  startupCancelRequested : List Kid
  active : List Tid
  retiring : List Tid
  finished : Tid → Bool
  nextSpawn : Nat
  nextClient : Nat
  nextPhase : Nat
  nextRecord : Nat
  nextRetireTask : Nat

def State.gear (s : State) : Gear :=
  ⟨s.effects, s.processes, s.clients, s.records, s.retireTasks, s.spawnTask,
    s.spawnCancelRequested, s.startupTasks, s.startupCancelRequested, s.activeOperations,
    s.retiringOperations, s.opDone, s.nextSpawn, s.nextClient, s.nextPhase, s.nextRecord,
    s.nextRetireTask⟩

/-- A missed exit is only noted; every other effect may happen once. -/
def Effect.Single : Effect → Prop
  | .exitMissed _ => False
  | _ => True

namespace Gear

/-- The effect must not happen again: a flag, a task or a record remembers it. -/
def Spent (g : Gear) : Effect → Prop
  | .waitStarted p => (g.processes p).wait ≠ .absent
  | .shutdownStarted c => (g.clients c).shutdown ≠ .absent
  | .closeStarted c => (g.clients c).close ≠ .absent
  | .terminate p => ∃ r < g.nextRecord, (g.records r).process = some p ∧
      (g.records r).terminateRequested = true
  | .kill p => ∃ r < g.nextRecord, (g.records r).process = some p ∧
      (g.records r).killRequested = true
  | .spawnCancelled sp => sp < g.nextSpawn ∧
      (g.spawnTask = some sp → g.spawnCancelRequested = true) ∧
      ∀ r < g.nextRecord, (g.records r).spawnTask = some sp →
        (g.records r).spawnCancelRequested = true
  | .startupCancelled k => k < g.nextPhase ∧
      (k ∈ g.startupTasks → k ∈ g.startupCancelRequested) ∧
      ∀ r < g.nextRecord, k ∈ (g.records r).startupTasks →
        k ∈ (g.records r).startupCancelRequested
  | .operationCancelled t => g.finished t = true ∨ t ∈ g.retiring
  | .exitMissed _ => True

/-- Every `kill` comes after a bounded wait that missed the exit, and that after a `terminate`. -/
def KillsOk : List Effect → Prop
  | [] => True
  | e :: es => KillsOk es ∧
      ∀ p, e = .kill p → ∃ a b, es = a ++ .exitMissed p :: b ∧ .terminate p ∈ b

structure Ledger (g : Gear) : Prop where
  once : OnceLog Effect.Single g.Spent g.effects
  fresh : ∀ c, g.nextClient ≤ c → (g.clients c).shutdown = .absent ∧ (g.clients c).close = .absent
  terminated : ∀ r < g.nextRecord, (g.records r).terminateRequested = true →
    ∃ p, (g.records r).process = some p ∧ .terminate p ∈ g.effects
  waiting : ∀ j < g.nextRetireTask, ∀ p f, (g.retireTasks j).pc = .terminateWait p f →
    (g.retireTasks j).record < g.nextRecord ∧
      (g.records (g.retireTasks j).record).terminateRequested = true
  kills : KillsOk g.effects
  live : ∀ k ∈ g.startupTasks, k < g.nextPhase ∧ ∀ r < g.nextRecord, k ∉ (g.records r).startupTasks
  held : ∀ r < g.nextRecord, ∀ k ∈ (g.records r).startupTasks, k < g.nextPhase ∧
    ∀ q < g.nextRecord, k ∈ (g.records q).startupTasks → q = r
  nodup : g.active.Nodup
  roster : ∀ t ∈ g.active, t ∈ g.retiring → g.finished t = true
  apart : ∀ c < g.nextClient, ∀ d < g.nextClient,
    (g.clients c).process = (g.clients d).process → c = d

/-- A change that sets flags on records and settles jobs, and never takes anything back. -/
structure Grows (g g' : Gear) : Prop where
  effects : g'.effects = g.effects
  wait : ∀ p, (g.processes p).wait ≠ .absent → (g'.processes p).wait ≠ .absent
  clients : ∀ c, ((g.clients c).shutdown ≠ .absent → (g'.clients c).shutdown ≠ .absent) ∧
    ((g.clients c).close ≠ .absent → (g'.clients c).close ≠ .absent)
  fresh : ∀ c, g'.nextClient ≤ c → g.nextClient ≤ c ∧
    (g'.clients c).shutdown = (g.clients c).shutdown ∧
    (g'.clients c).close = (g.clients c).close
  atop : ∀ c < g'.nextClient, ∀ d < g'.nextClient,
    (g'.clients c).process = (g'.clients d).process → c = d ∨ (c < g.nextClient ∧
      d < g.nextClient ∧ (g.clients c).process = (g.clients d).process)
  nextRecord : g'.nextRecord = g.nextRecord
  process : ∀ r < g.nextRecord, ∀ p, (g.records r).process = some p →
    (g'.records r).process = some p
  terminate : ∀ r < g.nextRecord, (g'.records r).terminateRequested =
    (g.records r).terminateRequested
  kill : ∀ r < g.nextRecord, (g.records r).killRequested = true →
    (g'.records r).killRequested = true
  nextSpawn : g'.nextSpawn = g.nextSpawn
  spawnTask : g'.spawnTask = g.spawnTask ∨ g'.spawnTask = none
  spawnCancel : g'.spawnTask ≠ none → g.spawnCancelRequested = true →
    g'.spawnCancelRequested = true
  held : ∀ r < g.nextRecord, (g'.records r).spawnTask = none ∨
    ((g'.records r).spawnTask = (g.records r).spawnTask ∧
      ((g.records r).spawnCancelRequested = true → (g'.records r).spawnCancelRequested = true))
  nextPhase : g'.nextPhase = g.nextPhase
  startup : ∀ k ∈ g'.startupTasks, k ∈ g.startupTasks ∧
    (k ∈ g.startupCancelRequested → k ∈ g'.startupCancelRequested)
  owned : ∀ r < g.nextRecord, ∀ k ∈ (g'.records r).startupTasks, k ∈ (g.records r).startupTasks ∧
    (k ∈ (g.records r).startupCancelRequested → k ∈ (g'.records r).startupCancelRequested)
  finished : ∀ t, g.finished t = true → g'.finished t = true
  retiring : ∀ t ∈ g.retiring, t ∈ g'.retiring ∨ g'.finished t = true
  active : g'.active.Sublist g.active
  joined : ∀ t ∈ g'.retiring, t ∈ g.retiring
  nextRetireTask : g'.nextRetireTask = g.nextRetireTask
  tasks : ∀ j < g.nextRetireTask, g'.retireTasks j = g.retireTasks j ∨
    ∀ p f, (g'.retireTasks j).pc ≠ .terminateWait p f

theorem Grows.refl (g : Gear) : Grows g g where
  effects := rfl
  wait := fun _ => id
  clients := fun _ => ⟨id, id⟩
  fresh := fun _ h => ⟨h, rfl, rfl⟩
  atop := fun _ hc _ hd h => .inr ⟨hc, hd, h⟩
  nextRecord := rfl
  process := fun _ _ _ => id
  terminate := fun _ _ => rfl
  kill := fun _ _ => id
  nextSpawn := rfl
  spawnTask := .inl rfl
  spawnCancel := fun _ => id
  held := fun _ _ => .inr ⟨rfl, id⟩
  nextPhase := rfl
  startup := fun _ h => ⟨h, id⟩
  owned := fun _ _ _ h => ⟨h, id⟩
  finished := fun _ => id
  retiring := fun _ => .inl
  active := List.Sublist.refl _
  joined := fun _ => id
  nextRetireTask := rfl
  tasks := fun _ _ => .inl rfl

variable {g g' : Gear}

/-- Clients that keep their processes stay apart. -/
theorem over_same (g : Gear) {clients : Cid → Client}
    (hp : ∀ c, (clients c).process = (g.clients c).process) :
    ∀ c < g.nextClient, ∀ d < g.nextClient, (clients c).process = (clients d).process → c = d ∨
      (c < g.nextClient ∧ d < g.nextClient ∧ (g.clients c).process = (g.clients d).process) := by
  intro c hc d hd hcd
  rw [hp c, hp d] at hcd
  exact .inr ⟨hc, hd, hcd⟩

/-- A new client over a process that has none stays apart from the others. -/
theorem over_new (g : Gear) {x : Client} (hx : ∀ c < g.nextClient, (g.clients c).process ≠ x.process) :
    ∀ c < g.nextClient + 1, ∀ d < g.nextClient + 1,
      (Function.update g.clients g.nextClient x c).process =
        (Function.update g.clients g.nextClient x d).process → c = d ∨
      (c < g.nextClient ∧ d < g.nextClient ∧ (g.clients c).process = (g.clients d).process) := by
  intro c hc d hd hcd
  obtain hc | rfl := Nat.lt_succ_iff_lt_or_eq.1 hc
  · obtain hd | rfl := Nat.lt_succ_iff_lt_or_eq.1 hd
    · rw [Function.update_of_ne (Nat.ne_of_lt hc), Function.update_of_ne (Nat.ne_of_lt hd)] at hcd
      exact .inr ⟨hc, hd, hcd⟩
    · rw [Function.update_of_ne (Nat.ne_of_lt hc), Function.update_self] at hcd
      exact absurd hcd (hx c hc)
  · obtain hd | rfl := Nat.lt_succ_iff_lt_or_eq.1 hd
    · rw [Function.update_of_ne (Nat.ne_of_lt hd), Function.update_self] at hcd
      exact absurd hcd.symm (hx d hd)
    · exact .inl rfl

theorem Grows.spent (h : Grows g g') (e : Effect) (he : g.Spent e) : g'.Spent e := by
  cases e with
  | waitStarted p => exact h.wait p he
  | shutdownStarted c => exact (h.clients c).1 he
  | closeStarted c => exact (h.clients c).2 he
  | exitMissed p => trivial
  | terminate p =>
    obtain ⟨r, hr, h1, h2⟩ := he
    exact ⟨r, h.nextRecord ▸ hr, h.process r hr p h1, (h.terminate r hr).trans h2⟩
  | kill p =>
    obtain ⟨r, hr, h1, h2⟩ := he
    exact ⟨r, h.nextRecord ▸ hr, h.process r hr p h1, h.kill r hr h2⟩
  | spawnCancelled sp =>
    obtain ⟨h1, h2, h3⟩ := he
    refine ⟨h.nextSpawn ▸ h1, fun hs => ?_, fun r hr hs => ?_⟩
    · refine h.spawnCancel (by simp [hs]) ?_
      obtain ht | ht := h.spawnTask
      · exact h2 (ht.symm.trans hs)
      · rw [ht] at hs
        cases hs
    · rw [h.nextRecord] at hr
      obtain ht | ⟨ht, hf⟩ := h.held r hr
      · rw [ht] at hs
        cases hs
      · exact hf (h3 r hr (ht.symm.trans hs))
  | startupCancelled k =>
    obtain ⟨h1, h2, h3⟩ := he
    refine ⟨h.nextPhase ▸ h1, fun hk => ?_, fun r hr hk => ?_⟩
    · obtain ⟨h4, h5⟩ := h.startup k hk
      exact h5 (h2 h4)
    · rw [h.nextRecord] at hr
      obtain ⟨h4, h5⟩ := h.owned r hr k hk
      exact h5 (h3 r hr h4)
  | operationCancelled t =>
    obtain he | he := he
    · exact .inl (h.finished t he)
    · exact (h.retiring t he).symm

/-- The ledger after a change that logs nothing. -/
theorem Ledger.grow (h : g.Ledger) (hg : Grows g g') : g'.Ledger where
  once := by
    rw [hg.effects]
    exact h.once.mono hg.spent
  fresh := by
    intro c hc
    obtain ⟨h1, h2, h3⟩ := hg.fresh c hc
    rw [h2, h3]
    exact h.fresh c h1
  terminated := by
    intro r hr ht
    rw [hg.nextRecord] at hr
    rw [hg.terminate r hr] at ht
    obtain ⟨p, h1, h2⟩ := h.terminated r hr ht
    exact ⟨p, hg.process r hr p h1, by rw [hg.effects]; exact h2⟩
  waiting := by
    intro j hj p f hpc
    rw [hg.nextRetireTask] at hj
    obtain ht | ht := hg.tasks j hj
    · rw [ht] at hpc ⊢
      obtain ⟨h1, h2⟩ := h.waiting j hj p f hpc
      exact ⟨hg.nextRecord ▸ h1, (hg.terminate _ h1).trans h2⟩
    · exact absurd hpc (ht p f)
  kills := by
    rw [hg.effects]
    exact h.kills
  live := by
    intro k hk
    obtain ⟨h1, h2⟩ := h.live k (hg.startup k hk).1
    refine ⟨hg.nextPhase ▸ h1, fun r hr hm => ?_⟩
    rw [hg.nextRecord] at hr
    exact h2 r hr (hg.owned r hr k hm).1
  held := by
    intro r hr k hk
    rw [hg.nextRecord] at hr
    obtain ⟨h1, h2⟩ := h.held r hr k (hg.owned r hr k hk).1
    refine ⟨hg.nextPhase ▸ h1, fun q hq hm => ?_⟩
    rw [hg.nextRecord] at hq
    exact h2 q hq (hg.owned q hq k hm).1
  nodup := h.nodup.sublist hg.active
  roster := by
    intro t ht hr
    exact hg.finished t (h.roster t (hg.active.subset ht) (hg.joined t hr))
  apart := by
    intro c hc d hd hcd
    obtain he | ⟨h1, h2, h3⟩ := hg.atop c hc d hd hcd
    · exact he
    · exact h.apart c h1 d h2 h3

/-- An effect that is not spent happens. -/
theorem Ledger.fire (h : g.Ledger) (hg : Grows g { g' with effects := g.effects }) {e : Effect}
    (hn : ¬ g.Spent e) (he : g'.Spent e) (heff : g'.effects = e :: g.effects)
    (hkill : ∀ p, e = .kill p → ∃ a b, g.effects = a ++ .exitMissed p :: b ∧ .terminate p ∈ b) :
    g'.Ledger := by
  have h' := h.grow hg
  have hs : ∀ x, g.Spent x → g'.Spent x := by
    intro x hx
    have := hg.spent x hx
    cases x <;> exact this
  refine ⟨?_, h'.fresh, ?_, h'.waiting, ?_, h'.live, h'.held, h'.nodup, h'.roster, h'.apart⟩
  · rw [heff]
    exact h.once.fire hn he hs
  · intro r hr ht
    obtain ⟨p, h1, h2⟩ := h'.terminated r hr ht
    exact ⟨p, h1, by rw [heff]; exact List.mem_cons_of_mem e h2⟩
  · rw [heff]
    exact ⟨h.kills, hkill⟩

/-- A bounded wait that missed the exit is noted. -/
theorem Ledger.note (h : g.Ledger) (p : Sid) :
    { g with effects := .exitMissed p :: g.effects }.Ledger := by
  refine ⟨?_, h.fresh, fun r hr ht => ?_, h.waiting, ⟨h.kills, by simp⟩, h.live, h.held, h.nodup,
    h.roster, h.apart⟩
  · refine OnceLog.note (h.once.mono fun e he => ?_) (by simp [Effect.Single])
    cases e <;> exact he
  · obtain ⟨q, h1, h2⟩ := h.terminated r hr ht
    exact ⟨q, h1, List.mem_cons_of_mem _ h2⟩

/-- `process.terminate()` on the process of record `r`. -/
theorem Ledger.terminate (h : g.Ledger) {r : Rid} {p : Sid} (hr : r < g.nextRecord)
    (hp : (g.records r).process = some p) (hn : ¬ g.Spent (.terminate p)) :
    { g with
      records := Function.update g.records r { g.records r with terminateRequested := true }
      effects := .terminate p :: g.effects }.Ledger := by
  have hrec : ∀ q, (Function.update g.records r
      { g.records r with terminateRequested := true } q).process = (g.records q).process ∧
      (Function.update g.records r { g.records r with terminateRequested := true } q).startupTasks =
        (g.records q).startupTasks ∧
      ((g.records q).terminateRequested = true → (Function.update g.records r
        { g.records r with terminateRequested := true } q).terminateRequested = true) := by
    intro q
    by_cases hq : q = r
    · subst hq
      simp
    · simp [hq]
  refine ⟨h.once.fire hn ⟨r, hr, (hrec r).1.trans hp, by simp⟩ fun e he => ?_, h.fresh,
    fun q hq ht => ?_, fun j hj q f hpc => ?_, ⟨h.kills, by simp⟩, fun k hk => ?_,
    fun q hq k hk => ?_, h.nodup, h.roster, h.apart⟩
  · cases e with
    | terminate q =>
      obtain ⟨i, hi, h1, h2⟩ := he
      exact ⟨i, hi, (hrec i).1.trans h1, (hrec i).2.2 h2⟩
    | kill q =>
      obtain ⟨i, hi, h1, h2⟩ := he
      refine ⟨i, hi, (hrec i).1.trans h1, ?_⟩
      by_cases hir : i = r
      · subst hir
        simpa using h2
      · simpa [hir] using h2
    | spawnCancelled sp =>
      obtain ⟨h1, h2, h3⟩ := he
      refine ⟨h1, h2, fun i hi => ?_⟩
      by_cases hir : i = r
      · subst hir
        simpa using h3 i hi
      · simpa [hir] using h3 i hi
    | startupCancelled k =>
      obtain ⟨h1, h2, h3⟩ := he
      refine ⟨h1, h2, fun i hi => ?_⟩
      by_cases hir : i = r
      · subst hir
        simpa using h3 i hi
      · simpa [hir] using h3 i hi
    | _ => exact he
  · by_cases hqr : q = r
    · subst hqr
      exact ⟨p, (hrec q).1.trans hp, by simp⟩
    · obtain ⟨i, h1, h2⟩ := h.terminated q hq (by simpa [hqr] using ht)
      exact ⟨i, (hrec q).1.trans h1, List.mem_cons_of_mem _ h2⟩
  · obtain ⟨h1, h2⟩ := h.waiting j hj q f hpc
    exact ⟨h1, (hrec _).2.2 h2⟩
  · obtain ⟨h1, h2⟩ := h.live k hk
    exact ⟨h1, fun q hq => by rw [(hrec q).2.1]; exact h2 q hq⟩
  · rw [(hrec q).2.1] at hk
    obtain ⟨h1, h2⟩ := h.held q hq k hk
    exact ⟨h1, fun i hi => by rw [(hrec i).2.1]; exact h2 i hi⟩

/-- A retirement task moves on. -/
theorem Ledger.setTask (h : g.Ledger) {j : Jid} {x : RetireTask}
    (hx : ∀ p f, x.pc = .terminateWait p f →
      x.record < g.nextRecord ∧ (g.records x.record).terminateRequested = true) :
    { g with retireTasks := Function.update g.retireTasks j x }.Ledger := by
  refine ⟨h.once.mono fun e he => ?_, h.fresh, h.terminated, fun i hi p f hpc => ?_, h.kills,
    h.live, h.held, h.nodup, h.roster, h.apart⟩
  · cases e <;> exact he
  · by_cases hij : i = j
    · subst hij
      simp only [Function.update_self] at hpc ⊢
      exact hx p f hpc
    · simp only [Function.update_of_ne hij] at hpc ⊢
      exact h.waiting i hi p f hpc

/-- One record changes without taking anything back. -/
structure Milder (x y : Retirement) : Prop where
  process : ∀ p, x.process = some p → y.process = some p
  terminate : y.terminateRequested = x.terminateRequested
  kill : x.killRequested = true → y.killRequested = true
  spawn : y.spawnTask = none ∨ (y.spawnTask = x.spawnTask ∧
    (x.spawnCancelRequested = true → y.spawnCancelRequested = true))
  startup : ∀ k ∈ y.startupTasks, k ∈ x.startupTasks ∧
    (k ∈ x.startupCancelRequested → k ∈ y.startupCancelRequested)

theorem Milder.refl (x : Retirement) : Milder x x :=
  ⟨fun _ => id, rfl, id, .inr ⟨rfl, id⟩, fun _ h => ⟨h, id⟩⟩

theorem Milder.same {x y : Retirement}
    (h : (y.process, y.terminateRequested, y.killRequested, y.spawnTask, y.spawnCancelRequested,
        y.startupTasks, y.startupCancelRequested) =
      (x.process, x.terminateRequested, x.killRequested, x.spawnTask, x.spawnCancelRequested,
        x.startupTasks, x.startupCancelRequested)) : Milder x y := by
  simp only [Prod.mk.injEq] at h
  obtain ⟨h1, h2, h3, h4, h5, h6, h7⟩ := h
  refine ⟨fun p hp => h1.trans hp, h2, fun hk => h3.trans hk, .inr ⟨h4, fun hc => h5.trans hc⟩, ?_⟩
  intro k hk
  exact ⟨h6 ▸ hk, fun hc => h7 ▸ hc⟩

theorem Milder.grows {r : Rid} {x : Retirement} (hx : Milder (g.records r) x) :
    Grows g { g with records := Function.update g.records r x } := by
  have hall : ∀ q, Milder (g.records q) (Function.update g.records r x q) := by
    intro q
    by_cases hq : q = r
    · subst hq
      simpa using hx
    · simp only [Function.update_of_ne hq]
      exact .refl _
  exact { Grows.refl g with
          process := fun q _ => (hall q).process, terminate := fun q _ => (hall q).terminate
          kill := fun q _ => (hall q).kill, held := fun q _ => (hall q).spawn
          owned := fun q _ => (hall q).startup }

/-- The live startup tasks join those of record `r`. -/
theorem Ledger.adopt (h : g.Ledger) {r : Rid} {x : Retirement} (hr : r < g.nextRecord)
    (hp : x.process = (g.records r).process)
    (ht : x.terminateRequested = (g.records r).terminateRequested)
    (hk : x.killRequested = (g.records r).killRequested)
    (hs : x.spawnTask = (g.records r).spawnTask)
    (hc : x.spawnCancelRequested = (g.records r).spawnCancelRequested)
    (hx : ∀ k ∈ x.startupTasks,
      (k ∈ (g.records r).startupTasks ∧
        (k ∈ (g.records r).startupCancelRequested → k ∈ x.startupCancelRequested)) ∨
      (k ∈ g.startupTasks ∧ (k ∈ g.startupCancelRequested → k ∈ x.startupCancelRequested))) :
    { g with
      records := Function.update g.records r x
      startupTasks := []
      startupCancelRequested := [] }.Ledger := by
  -- First drop the live tasks and those of `r`, then account for the joined list.
  have hg : Grows g { g with
      records := Function.update g.records r { x with startupTasks := [] }
      startupTasks := []
      startupCancelRequested := [] } :=
    { (Milder.grows (r := r) (x := { x with startupTasks := [] })
        { process := fun p h => hp.trans h, terminate := ht, kill := fun h => hk.trans h
          spawn := .inr ⟨hs, fun h => hc.trans h⟩, startup := by simp }) with
      startup := by simp }
  have h' := h.grow hg
  have hold : ∀ i, i ≠ r → Function.update g.records r x i = g.records i :=
    fun i hi => Function.update_of_ne hi _ _
  have hsame : ∀ i, (Function.update g.records r x i).process = (Function.update g.records r
      { x with startupTasks := [] } i).process ∧
      (Function.update g.records r x i).terminateRequested = (Function.update g.records r
        { x with startupTasks := [] } i).terminateRequested ∧
      (Function.update g.records r x i).killRequested = (Function.update g.records r
        { x with startupTasks := [] } i).killRequested ∧
      (Function.update g.records r x i).spawnTask = (Function.update g.records r
        { x with startupTasks := [] } i).spawnTask ∧
      (Function.update g.records r x i).spawnCancelRequested = (Function.update g.records r
        { x with startupTasks := [] } i).spawnCancelRequested := by
    intro i
    by_cases hi : i = r
    · subst hi
      simp
    · simp [hi]
  refine ⟨h.once.mono fun e he => ?_, h.fresh, fun i hi hti => ?_, fun j hj p f hpc => ?_, h.kills,
    by simp, fun i hi k hki => ?_, h.nodup, h.roster, h.apart⟩
  · have he' := hg.spent e he
    cases e with
    | terminate p =>
      obtain ⟨i, hi, h1, h2⟩ := he'
      exact ⟨i, hi, (hsame i).1.trans h1, (hsame i).2.1.trans h2⟩
    | kill p =>
      obtain ⟨i, hi, h1, h2⟩ := he'
      exact ⟨i, hi, (hsame i).1.trans h1, (hsame i).2.2.1.trans h2⟩
    | spawnCancelled sp =>
      obtain ⟨h1, h2, h3⟩ := he'
      refine ⟨h1, h2, fun i hi hsi => ?_⟩
      exact (hsame i).2.2.2.2.trans (h3 i hi ((hsame i).2.2.2.1.symm.trans hsi))
    | startupCancelled k =>
      obtain ⟨h1, h2, h3⟩ := he
      refine ⟨h1, by simp, fun i hi hki => ?_⟩
      by_cases hir : i = r
      · subst hir
        simp only [Function.update_self] at hki ⊢
        obtain ⟨h4, h5⟩ | ⟨h4, h5⟩ := hx k hki
        · exact h5 (h3 i hr h4)
        · exact h5 (h2 h4)
      · simp only [hold i hir] at hki ⊢
        exact h3 i hi hki
    | _ => exact he
  · obtain ⟨p, h1, h2⟩ := h'.terminated i hi ((hsame i).2.1.symm.trans hti)
    exact ⟨p, (hsame i).1.trans h1, h2⟩
  · obtain ⟨h1, h2⟩ := h'.waiting j hj p f hpc
    exact ⟨h1, (hsame _).2.1.trans h2⟩
  · -- A task of another record is not among the live ones, so the union stays disjoint.
    have hsrc : ∀ i' < g.nextRecord, ∀ k', k' ∈ (Function.update g.records r x i').startupTasks →
        k' ∈ (g.records i').startupTasks ∨ (i' = r ∧ k' ∈ g.startupTasks) := by
      intro i' _ k' hk'
      by_cases hir : i' = r
      · subst hir
        simp only [Function.update_self] at hk'
        exact (hx k' hk').imp (fun h => h.1) fun h => ⟨rfl, h.1⟩
      · rw [hold i' hir] at hk'
        exact .inl hk'
    obtain h1 | ⟨rfl, h1⟩ := hsrc i hi k hki
    · obtain ⟨h2, h3⟩ := h.held i hi k h1
      refine ⟨h2, fun q hq hkq => ?_⟩
      obtain h4 | ⟨rfl, h4⟩ := hsrc q hq k hkq
      · exact h3 q hq h4
      · exact absurd h1 ((h.live k h4).2 i hi)
    · obtain ⟨h2, h3⟩ := h.live k h1
      refine ⟨h2, fun q hq hkq => ?_⟩
      obtain h4 | ⟨rfl, -⟩ := hsrc q hq k hkq
      · exact absurd h4 (h3 q hq)
      · rfl

end Gear

end KestrelSdk.Subprocess

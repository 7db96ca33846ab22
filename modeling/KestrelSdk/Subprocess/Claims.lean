import KestrelSdk.Subprocess.Callers

namespace KestrelSdk.Subprocess

open Asyncio

namespace State

open Children

theorem newRetirement_eq (s : State) (client : Option Cid) (process : Option Sid) (w : Bool)
    (spawn : Option Sid) (cancel : Bool) : s.newRetirement client process w spawn cancel =
    { s with
      retirements := s.retirements ++ [s.nextRecord]
      records := Function.update s.records s.nextRecord
        { client, process, spawnTask := spawn, spawnCancelRequested := cancel
          task := some s.nextRetireTask
          startupTasks := if w then s.startupTasks else []
          startupCancelRequested :=
            if w && !s.startupTasks.isEmpty then s.startupCancelRequested else [] }
      retireTasks := Function.update s.retireTasks s.nextRetireTask ⟨s.nextRecord, .init, s.now⟩
      nextRecord := s.nextRecord + 1
      nextRetireTask := s.nextRetireTask + 1
      startupTasks := if w then [] else s.startupTasks
      startupCancelRequested :=
        if w && !s.startupTasks.isEmpty then [] else s.startupCancelRequested } := by
  cases w with
  | false => simp [newRetirement, adoptStartup, createRetireTask, setRecord, setRetireTask]
  | true =>
    cases h : s.startupTasks with
    | nil => simp [newRetirement, adoptStartup, createRetireTask, setRecord, setRetireTask, h]
    | cons k l =>
      have hl : l.filter (fun _ => true) = l := List.filter_eq_self.2 (by simp)
      simp [newRetirement, adoptStartup, createRetireTask, setRecord, setRetireTask, h, hl]

section

variable {s s' : State} {o o' : Custody} {t : Tid}

/-- The stop attempts while the lock owner moves the child on: none of them can be past the
settlement of the start. -/
theorem AttemptsOk.transfer (h : s.AttemptsOk o) (ha : s'.attempts = s.attempts)
    (hn : s'.nextAttempt = s.nextAttempt) (ht : s'.stopTask = s.stopTask)
    (hsp : s'.nextSpawn = s.nextSpawn)
    (ho : ¬ o.Handed ∨ s.startingGeneration ≠ none)
    (hslot : s'.startingGeneration = s.startingGeneration ∨ s'.startingGeneration = none)
    (hset : o.client = none → o ≠ .live → o'.client = none ∧ o' ≠ .live)
    (hstop : ∀ u a m c, (s.ops u).pc = .stopping a m c → (s'.ops u).pc = .stopping a m c) :
    s'.AttemptsOk o' where
  attempt := by
    intro a hlt
    rw [hn] at hlt
    obtain ⟨h1, h2⟩ := h.attempt a hlt
    rw [ha, hsp]
    refine ⟨h1, ?_⟩
    unfold AttemptOk at h2 ⊢
    rw [ha]
    cases e : (s.attempts a).pc with
    | init u =>
      simp only [e] at h2 ⊢
      obtain ⟨m, c, h2⟩ := h2
      exact ⟨m, c, hstop u a m c h2⟩
    | settle b g =>
      simp only [e] at h2 ⊢
      obtain ⟨h3, h4⟩ := hset h2.1 h2.2.1
      refine ⟨h3, h4, ?_⟩
      obtain hs | hs := hslot
      · rw [hs]
        exact h2.2.2
      · exact .inl hs
    | reap r j todo retired =>
      simp only [e] at h2
      obtain ho | ho := ho
      · exact absurd h2.1 ho
      · exact absurd h2.2.1 ho
    | observe b l =>
      simp only [e] at h2
      obtain ho | ho := ho
      · exact absurd h2.1 ho
      · exact absurd h2.2.1 ho
    | done b =>
      simp only [e] at h2 ⊢
      intro hb hm
      rw [hsp] at hm
      obtain ⟨h3, h4⟩ := h2 hb hm
      obtain ho | ho := ho
      · rw [h3] at ho
        exact absurd trivial ho
      · exact absurd h4 ho
  unfinished := by
    intro a hlt hnd
    rw [hn] at hlt
    rw [ha] at hnd
    rw [ht]
    exact h.unfinished a hlt hnd
  stopTask := by
    intro a hst
    rw [ht] at hst
    rw [hn, ha, hsp]
    exact h.stopTask a hst

/-- The lock owner moves the child, or the start slot, on. -/
structure Passes (s s' : State) (o o' : Custody) (t : Tid) : Prop where
  starting : s'.starting = s'.startingGeneration.isSome
  settled : s'.startSettled = s'.startingGeneration.isNone
  uncertain : ∀ g, s'.startUncertainGeneration = some g → s'.startingGeneration = some g
  live : o' = .live → s'.startingGeneration ≠ none
  spawned : ∀ sp < s.nextSpawn, sp < s'.nextSpawn ∧ (sp = s'.last → sp = s.last ∧
    (o.Handed → s.startingGeneration = none → o'.Handed ∧ s'.startingGeneration = none))
  now : s.now ≤ s'.now
  ops : ∀ u, u ≠ t → s'.ops u = s.ops u
  active : ∀ u, u ≠ t → u ∈ s.activeOperations → u ∈ s'.activeOperations
  awaits : ∀ r j, s.Awaits r j → s'.Awaits r j
  lates : s'.lates = s.lates
  attempts : s'.attempts = s.attempts
  nextAttempt : s'.nextAttempt = s.nextAttempt
  handoff : ∀ u, u ≠ t → o' ≠ .handoff u

theorem Inv.transfer (h : Inv s o) (hown : s.lifecycleLock.owner = some t)
    (hs : s'.children.Sound o') (hp : Passes s s' o o' t) (hat : s'.AttemptsOk o')
    (hm : Moved s' o' t) : Inv s' o' where
  sound := hs
  starting := hp.starting
  settled := hp.settled
  uncertain := hp.uncertain
  live := hp.live
  handoff := by
    intro u hu
    by_cases hut : u = t
    · subst hut
      exact hm.handoff hu
    · exact absurd hu (hp.handoff u hut)
  lock := by
    intro u hu
    by_cases hut : u = t
    · subst hut
      exact hm.inside hu
    · rw [hp.ops u hut, h.alone (.inl hown) hut] at hu
      cases hu
  cancelAt := by
    intro u n hn
    by_cases hut : u = t
    · subst hut
      exact hm.cancelAt n hn
    · rw [hp.ops u hut] at hn
      exact Nat.le_trans (h.cancelAt u n hn) hp.now
  ops := by
    intro u
    by_cases hut : u = t
    · subst hut
      exact hm.ok
    · have hout := h.alone (.inl hown) hut
      have hok := h.ops u
      rw [hp.ops u hut]
      unfold OpOk at hok ⊢
      cases e : (s.ops u).pc with
      | start pc =>
        rw [e] at hout
        cases pc with
        | queued =>
          simp only [e] at hok ⊢
          exact ⟨hok.1, hok.2.imp (hp.active u hut) id⟩
        | _ => cases hout
      | unregistering x n =>
        simp only [e] at hok ⊢
        refine ⟨hok.1, hok.2.1, fun sp hsp => ?_⟩
        obtain ⟨h1, h2⟩ := hok.2.2 sp hsp
        obtain ⟨h3, h4⟩ := hp.spawned sp h1
        refine ⟨h3, fun hl => ?_⟩
        obtain ⟨h5, h6⟩ := h4 hl
        exact h6 (h2 h5).1 (h2 h5).2
      | stopping a m c =>
        simp only [e] at hok ⊢
        rw [hp.nextAttempt, hp.attempts]
        exact hok
      | resultRetiring x c => simp only [e] at hok
      | _ =>
        simp only [e] at hok ⊢
        exact hok
  attempts := hat
  late := by
    intro sp r j n hl
    rw [hp.lates] at hl
    exact hp.awaits r j (h.late sp r j n hl)

theorem ownsAny_blank {x : Retirement} (hs : x.spawnTask = none) (hc : x.client = none)
    (hp : x.process = none) (client : Option Cid) (process spawn : Option Sid) :
    ownsAny x client process spawn = false := by
  cases client <;> cases process <;> cases spawn <;> simp [ownsAny, hs, hc, hp]

/-- No record matches while the child has not been handed to one. -/
theorem find_none (h : s.children.Sound o) (ho : ¬ o.Handed) (client : Option Cid)
    (process spawn : Option Sid) :
    s.retirements.find? (fun r => ownsAny (s.records r) client process spawn) = none := by
  refine List.find?_eq_none.2 fun r hr => ?_
  obtain ⟨-, h1 | ⟨h1, h2, h3⟩⟩ := h.place.retirements r hr
  · rw [h1] at ho
    exact absurd trivial ho
  · have := ownsAny_blank h1 h2 h3 client process spawn
    simp only [children] at this
    simp [this]

/-- The state in which the claim of a child builds its record. -/
def cleared (s : State) (g : Nat) (cancel : Bool) : State :=
  { s with client := none, process := none, spawnTask := none, generation := g
           spawnCancelRequested := cancel }

/-- `_retire_startup_child` on a child that nobody has claimed yet. -/
theorem retireStartupChild_fresh (h : s.children.Sound o) (ho : ¬ o.Handed) {c : Claim}
    (hc : c.client = o.client) (hp : c.process = o.process s.last)
    (hs : c.spawnTask = o.spawn s.last) : ∃ g, s.retireStartupChild c =
      ((s.cleared g false).newRetirement o.client (o.process s.last) true (o.spawn s.last)
        s.spawnCancelRequested, .awaiting s.nextRecord s.nextRetireTask s.now) := by
  have h1 : s.client = o.client := h.place.client
  have h2 : s.process = o.client.map fun _ => s.last := h.place.process
  have h3 : s.spawnTask = o.spawn s.last := h.place.spawnTask
  have hf := find_none h ho
  cases o with
  | released => exact absurd trivial ho
  | record r => exact absurd trivial ho
  | live =>
    refine ⟨s.generation, ?_⟩
    simp only [Custody.client, Custody.process, Custody.spawn] at *
    simp [retireStartupChild, hc, hp, hs, h1, h2, h3, claimRetirementLocked, hf, newRetirement_eq,
      cleared]
  | handoff t =>
    refine ⟨s.generation, ?_⟩
    simp only [Custody.client, Custody.process, Custody.spawn] at *
    simp [retireStartupChild, hc, hp, hs, h1, h2, h3, claimRetirementLocked, hf, newRetirement_eq,
      cleared]
  | published k =>
    refine ⟨s.generation + 1, ?_⟩
    simp only [Custody.client, Custody.process, Custody.spawn] at *
    simp [retireStartupChild, hc, hp, hs, h1, h2, h3, claimRetirementLocked, hf, newRetirement_eq,
      cleared]

/-- A claim that matches the record in custody finds it. -/
theorem find_record {r : Rid} (h : s.children.Sound (.record r)) (client : Option Cid)
    (process spawn : Option Sid) (hm : ownsAny (s.records r) client process spawn = true) :
    s.retirements.find? (fun r => ownsAny (s.records r) client process spawn) = some r := by
  cases hf : s.retirements.find? (fun r => ownsAny (s.records r) client process spawn) with
  | none =>
    have := List.find?_eq_none.1 hf r (h.place.record r rfl).1
    exact absurd hm this
  | some q =>
    have hq := List.find?_some hf
    obtain ⟨-, h1 | ⟨h1, h2, h3⟩⟩ := h.place.retirements q (List.mem_of_find?_eq_some hf)
    · cases h1
      rfl
    · have := ownsAny_blank h1 h2 h3 client process spawn
      simp only [children] at this
      rw [this] at hq
      cases hq

theorem setRecord_self (s : State) (r : Rid) : s.setRecord r (s.records r) = s := by
  simp [setRecord]

theorem attachSpawn_same {r : Rid} {sp q : Sid} (h : (s.records r).spawnTask = some sp) :
    s.attachSpawn r (some q) false = s := by
  dsimp only [attachSpawn]
  split
  · rename_i e _
    rw [h] at e
    cases e
  · rw [Bool.or_false]
    exact setRecord_self s r
  · rfl

theorem attachSpawn_none (s : State) (r : Rid) (b : Bool) : s.attachSpawn r none b = s := by
  dsimp only [attachSpawn]
  split
  · rename_i e
    cases e
  · rename_i e
    cases e
  · rfl

theorem adoptStartup_task {r : Rid} {w : Bool} :
    ((s.adoptStartup r w).records r).task = (s.records r).task ∧
      ((s.adoptStartup r w).records r).spawnTask = (s.records r).spawnTask ∧
      (s.adoptStartup r w).now = s.now := by
  dsimp only [adoptStartup]
  split
  · simp [setRecord]
  · exact ⟨rfl, rfl, rfl⟩

/-- `_retire_startup_child` on a spawn that a stop attempt has already moved. -/
theorem retireStartupChild_spawn {r : Rid} {j : Jid} (h : s.children.Sound (.record r))
    (hr : (s.records r).spawnTask = some s.last) (hj : (s.records r).task = some j) {c : Claim}
    (hc : c.client = none) (hp : c.process = none) (hs : c.spawnTask = some s.last) :
    s.retireStartupChild c = (s.adoptStartup r true, .awaiting r j s.now) := by
  have h3 : s.spawnTask = none := h.place.spawnTask
  have hf := find_record h none none (some s.last)
    (by simp [ownsAny, hr])
  obtain ⟨ht, hsp, hnow⟩ := adoptStartup_task (s := s) (r := r) (w := true)
  have hat := attachSpawn_same (q := s.last) (hsp.trans hr)
  simp [retireStartupChild, hc, hp, hs, h3, claimRetirementLocked, hf, hat, ht, hj, hnow]

/-- `_retire_startup_child` on a pair that a stop attempt has already moved. -/
theorem retireStartupChild_pair {r : Rid} {j : Jid} {k : Cid} (h : s.children.Sound (.record r))
    (hr : (s.records r).process = some s.last) (hj : (s.records r).task = some j) {c : Claim}
    (hc : c.client = some k) (hp : c.process = some s.last) (hs : c.spawnTask = none) :
    s.retireStartupChild c =
      ({ s with spawnCancelRequested := false }.adoptStartup r true, .awaiting r j s.now) := by
  have h1 : s.client = none := h.place.client
  have h3 : s.spawnTask = none := h.place.spawnTask
  have hf := find_record h (some k) (some s.last) none
    (by simp [ownsAny, hr])
  have hz : { s with spawnTask := none, spawnCancelRequested := false } =
      { s with spawnCancelRequested := false } := by rw [← h3]
  generalize hu : { s with spawnCancelRequested := false } = u at hz
  have hur : u.records = s.records := by rw [← hu]
  have hun : u.now = s.now := by rw [← hu]
  obtain ⟨ht, -, hnow⟩ := adoptStartup_task (s := u) (r := r) (w := true)
  rw [hur] at ht
  have hf' : u.retirements.find? (fun q => ownsAny (u.records q) (some k) (some s.last) none) =
      some r := by
    rw [← hu]
    exact hf
  have hclaim : ∀ b, u.claimRetirementLocked (some k) (some s.last) true none b =
      (u.adoptStartup r true, some r) := by
    intro b
    simp [claimRetirementLocked, hf', attachSpawn_none]
  have hcond : ((c.client.isSome || c.process.isSome) && decide (s.client = c.client) &&
      decide (s.process = c.process)) = false := by
    simp [hc, h1]
  simp only [retireStartupChild, hcond, Bool.false_eq_true, if_false, hs, h3, if_true, hz]
  rw [hc, hp, hclaim]
  simp only [ht, hj, hnow, hun]

theorem adoptStartup_eq (s : State) (r : Rid) (w : Bool) : ∃ x A B,
    s.adoptStartup r w =
      { s.setRecord r x with startupTasks := A, startupCancelRequested := B } ∧
      x.core = (s.records r).core ∧ x.task = (s.records r).task := by
  dsimp only [adoptStartup]
  split
  · exact ⟨_, _, _, rfl, rfl, rfl⟩
  · exact ⟨s.records r, s.startupTasks, s.startupCancelRequested, by simp [setRecord], rfl, rfl⟩

theorem Inv.adoptStartup (h : Inv s o) (r : Rid) (w : Bool) : Inv (s.adoptStartup r w) o := by
  obtain ⟨x, A, B, heq, hcore, htask⟩ := adoptStartup_eq s r w
  rw [heq]
  refine h.idle (keeps_of_hold o (.same rfl) fun q => ?_) (h.sound.set hcore htask) rfl
    (.same rfl fun _ _ => rfl) (.same rfl) (fun _ _ => id) rfl
  by_cases hq : q = r
  · subst hq
    simp only [Retirement.core, Retirement.mk.injEq, true_and, and_true] at hcore
    simp [Retirement.hold, setRecord, hcore, htask]
  · simp [setRecord, hq]

theorem adoptStartup_ops (s : State) (r : Rid) (w : Bool) : (s.adoptStartup r w).ops = s.ops ∧
    (s.adoptStartup r w).lifecycleLock = s.lifecycleLock ∧
    (s.adoptStartup r w).nextSpawn = s.nextSpawn ∧
    (s.adoptStartup r w).startingGeneration = s.startingGeneration := by
  dsimp only [State.adoptStartup]
  split <;> exact ⟨rfl, rfl, rfl, rfl⟩

/-- The record a fresh claim makes. -/
theorem newRetirement_sound (h : s.children.Sound o) (ho : ¬ o.Handed) (g : Nat)
    (q w cancel : Bool) : ((s.cleared g q).newRetirement o.client (o.process s.last) w (o.spawn s.last)
      cancel).children.Sound (.record s.nextRecord) := by
  rw [newRetirement_eq]
  exact h.claim ho s.now (x := { client := o.client, process := o.process s.last
                                 spawnTask := o.spawn s.last, spawnCancelRequested := cancel
                                 task := some s.nextRetireTask
                                 startupTasks := if w then s.startupTasks else []
                                 startupCancelRequested := if w && !s.startupTasks.isEmpty then
                                   s.startupCancelRequested else [] }) rfl rfl

/-- What a new record leaves alone. -/
structure Grown (s u : State) : Prop where
  now : u.now = s.now
  lock : u.lifecycleLock = s.lifecycleLock
  active : u.activeOperations = s.activeOperations
  ops : u.ops = s.ops
  starting : u.starting = s.starting
  slot : u.startingGeneration = s.startingGeneration
  settled : u.startSettled = s.startSettled
  uncertain : u.startUncertainGeneration = s.startUncertainGeneration
  nextSpawn : u.nextSpawn = s.nextSpawn
  lates : u.lates = s.lates
  attempts : u.attempts = s.attempts
  nextAttempt : u.nextAttempt = s.nextAttempt
  stopTask : u.stopTask = s.stopTask
  awaits : ∀ r j, s.Awaits r j → u.Awaits r j
  record : u.nextRecord = s.nextRecord + 1
  created : u.Awaits s.nextRecord s.nextRetireTask
  task : (u.records s.nextRecord).task = some s.nextRetireTask
  init : u.retireTasks s.nextRetireTask = ⟨s.nextRecord, .init, s.now⟩

theorem newRetirement_grown (s : State) (g : Nat) (q : Bool) (client : Option Cid)
    (process : Option Sid) (w : Bool) (spawn : Option Sid) (cancel : Bool) :
    Grown s ((s.cleared g q).newRetirement client process w spawn cancel) := by
  rw [newRetirement_eq]
  refine ⟨rfl, rfl, rfl, rfl, rfl, rfl, rfl, rfl, rfl, rfl, rfl, rfl, rfl, ?_, rfl, ?_, ?_, ?_⟩
  · rintro r j ⟨h1, h2⟩
    refine ⟨Nat.lt_succ_of_lt h1, ?_⟩
    simpa [cleared, Nat.ne_of_lt h1] using h2
  · exact ⟨Nat.lt_succ_self _, by simp [cleared]⟩
  · simp [cleared]
  · simp [cleared]

/-- The lock owner hands the child to a new record. -/
theorem Inv.grow {u : State} {x : Op} (h : Inv s o) (ho : ¬ o.Handed)
    (hown : s.lifecycleLock.owner = some t) (hstop : ∀ a m c, (s.ops t).pc ≠ .stopping a m c)
    (hg : Grown s u) (hs : u.children.Sound (.record s.nextRecord))
    (hcancel : ∀ n, x.cancelAt = some n → n ≤ s.now)
    (hok : (u.setOp t x).OpOk (.record s.nextRecord) t x) :
    Inv (u.setOp t x) (.record s.nextRecord) := by
  have hx : (u.setOp t x).ops t = x := by simp [setOp]
  have hl : u.last = s.last := by
    unfold last
    rw [hg.nextSpawn]
  refine h.transfer hown hs ?_ ?_ ⟨fun _ => ?_, fun n hn => ?_, by simp, by rw [hx]; exact hok⟩
  · refine { starting := ?_, settled := ?_, uncertain := ?_, live := by simp,
             spawned := fun sp hsp => ?_, now := Nat.le_of_eq hg.now.symm, ops := fun v hv => ?_,
             active := fun v _ => by simp [setOp, hg.active], awaits := hg.awaits
             lates := hg.lates, attempts := hg.attempts, nextAttempt := hg.nextAttempt
             handoff := by simp }
    · simpa [setOp, hg.starting, hg.slot] using h.starting
    · simpa [setOp, hg.settled, hg.slot] using h.settled
    · simpa [setOp, hg.uncertain, hg.slot] using h.uncertain
    · refine ⟨by simpa [setOp, hg.nextSpawn] using hsp, fun e => ⟨?_, fun hh => absurd hh ho⟩⟩
      exact e.trans hl
    · simp [setOp, hg.ops, hv]
  · refine h.attempts.transfer hg.attempts hg.nextAttempt hg.stopTask hg.nextSpawn (.inl ho)
      (.inl hg.slot) (by simp [Custody.client]) fun v a m k hv => ?_
    by_cases hvt : v = t
    · subst hvt
      exact absurd hv (hstop a m k)
    · simpa [setOp, hg.ops, hvt] using hv
  · simpa [setOp, hg.lock] using hown
  · rw [hx] at hn
    exact Nat.le_trans (hcancel n hn) (Nat.le_of_eq hg.now.symm)

/-- The claim task of `t`, whatever await of `t` waits for it. -/
structure Waiting (s : State) (t : Tid) (wrap : Claim → OpPc) : Prop where
  inside : ∀ c, Inside (wrap c) = true
  owner : s.lifecycleLock.owner = some t
  stopping : ∀ a m c, (s.ops t).pc ≠ .stopping a m c
  ok : ∀ (s' : State) (o' : Custody) (c : Claim), s'.nextSpawn = s.nextSpawn →
    s'.startingGeneration = s.startingGeneration → s'.ClaimOk o' t c →
    s'.OpOk o' t { s.ops t with pc := wrap c }

theorem Inv.claimFresh (h : Inv s o) (ho : ¬ o.Handed) {c : Claim} {wrap : Claim → OpPc}
    (hw : s.Waiting t wrap) (hc : c.client = o.client) (hp : c.process = o.process s.last)
    (hs : c.spawnTask = o.spawn s.last) :
    Inv ((s.retireStartupChild c).1.setOp t { (s.retireStartupChild c).1.ops t with
      pc := wrap { c with pc := (s.retireStartupChild c).2 } }) (.record s.nextRecord) := by
  obtain ⟨g, heq⟩ := retireStartupChild_fresh h.sound ho hc hp hs
  have hsound := newRetirement_sound h.sound ho g false true s.spawnCancelRequested
  have hg := newRetirement_grown s g false o.client (o.process s.last) true (o.spawn s.last)
    s.spawnCancelRequested
  rw [heq]
  generalize (s.cleared g false).newRetirement o.client (o.process s.last) true (o.spawn s.last)
    s.spawnCancelRequested = u at hsound hg
  refine h.grow ho hw.owner hw.stopping hg hsound ?_ ?_
  · simpa [hg.ops] using h.cancelAt t
  · have hok := hw.ok (u.setOp t { u.ops t with
      pc := wrap { c with pc := .awaiting s.nextRecord s.nextRetireTask s.now } })
      (.record s.nextRecord) { c with pc := .awaiting s.nextRecord s.nextRetireTask s.now }
      hg.nextSpawn hg.slot ⟨hg.created, trivial⟩
    simpa [hg.ops] using hok

/-- A claim of a child that a stop attempt has moved finds the record. -/
theorem Inv.claim_joins (h : Inv s o) (ho : o.Handed) {c : Claim} {e : Nat}
    (hpc : c.pc = .pending e) (hnow : s.now = e + 1) (hc : s.ClaimOk o t c) :
    ∃ r j b, o = .record r ∧ (s.records r).task = some j ∧ s.retireStartupChild c =
      ({ s with spawnCancelRequested := b }.adoptStartup r true, .awaiting r j s.now) := by
  unfold ClaimOk at hc
  simp only [hpc] at hc
  obtain ⟨-, ⟨h1, h2, h3, h4⟩ | ⟨k, h1, h2, h3, h4⟩ | ⟨-, -, -, h4⟩⟩ := hc
  · obtain rfl | ⟨-, h4⟩ := h4
    · exact absurd ho (by simp [Custody.Handed])
    · obtain ⟨r, j, rfl, hj, hh⟩ := h4 (Nat.le_of_eq hnow)
      obtain ⟨sp, hsp⟩ := Option.ne_none_iff_exists'.1 (RetireTask.spawnHold_pos hh).1
      have hr : (s.records r).spawnTask = some s.last := by
        rw [hsp, show sp = s.last from h.sound.spawn_eq h.sound.current_lt hsp]
      exact ⟨r, j, s.spawnCancelRequested, rfl, hj,
        retireStartupChild_spawn h.sound hr hj h1 h2 h3⟩
  · obtain rfl | ⟨-, h4⟩ := h4
    · exact absurd ho (by simp [Custody.Handed])
    · obtain ⟨r, j, rfl, hj, hh⟩ := h4 (Nat.le_of_eq hnow)
      have hlt := h.sound.current_lt
      obtain ⟨d, hd⟩ := Option.ne_none_iff_exists'.1 (RetireTask.pairHold_pos hh).1
      have hr : (s.records r).process = some s.last := by
        have := ((h.sound.records r hlt).client d hd).2
        rw [(h.sound.of_client hlt hd).2] at this
        exact this
      exact ⟨r, j, false, rfl, hj, retireStartupChild_pair h.sound hr hj h1 h2 h3⟩
  · rw [h4] at ho
    exact absurd ho (by simp [Custody.Handed])

theorem Inv.claimMoved (h : Inv s o) (ho : o.Handed) {c : Claim} {wrap : Claim → OpPc}
    (hw : s.Waiting t wrap) {e : Nat} (hpc : c.pc = .pending e) (hnow : s.now = e + 1)
    (hc : s.ClaimOk o t c) :
    Inv ((s.retireStartupChild c).1.setOp t { (s.retireStartupChild c).1.ops t with
      pc := wrap { c with pc := (s.retireStartupChild c).2 } }) o := by
  obtain ⟨r, j, b, rfl, hj, heq⟩ := h.claim_joins ho hpc hnow hc
  have h' : Inv { s with spawnCancelRequested := b } (.record r) :=
    h.idle (.same rfl) h.sound rfl (.same rfl fun _ _ => rfl) (.same rfl) (fun _ _ => id) rfl
  obtain ⟨a1, a2, a3, a4⟩ := adoptStartup_ops { s with spawnCancelRequested := b } r true
  have hu := h'.adoptStartup r true
  have ht := (adoptStartup_task (s := { s with spawnCancelRequested := b }) (r := r)
    (w := true)).1.trans hj
  rw [heq]
  refine hu.setPc (fun _ => ?_) (by simpa [a1] using hw.stopping) (by simp) ?_
  · rw [a2]
    exact hw.owner
  · rw [a1]
    exact hw.ok _ _ _ a3 a4 ⟨hu.task hu.sound.current_lt ht, ho⟩

/-- A pending claim whose child nobody has moved names it. -/
theorem ClaimOk.fresh {c : Claim} {e : Nat} (hc : s.ClaimOk o t c) (ho : ¬ o.Handed)
    (hpc : c.pc = .pending e) : c.client = o.client ∧ c.process = o.process s.last ∧
      c.spawnTask = o.spawn s.last := by
  unfold ClaimOk at hc
  simp only [hpc] at hc
  obtain ⟨-, ⟨h1, h2, h3, h4⟩ | ⟨k, h1, h2, h3, h4⟩ | ⟨h1, h2, h3, rfl⟩⟩ := hc
  · obtain rfl | ⟨h4, -⟩ := h4
    · exact ⟨h1, h2, h3⟩
    · exact absurd h4 ho
  · obtain rfl | ⟨h4, -⟩ := h4
    · exact ⟨h1, h2, h3⟩
    · exact absurd h4 ho
  · exact ⟨h1, h2, h3⟩

/-- The private claim task runs its first step. -/
theorem Inv.claimPending (h : Inv s o) {c : Claim} {wrap : Claim → OpPc} (hw : s.Waiting t wrap)
    {e : Nat} (hpc : c.pc = .pending e) (hnow : s.now = e + 1) (hc : s.ClaimOk o t c) :
    ∃ o', Inv ((s.retireStartupChild c).1.setOp t { (s.retireStartupChild c).1.ops t with
      pc := wrap { c with pc := (s.retireStartupChild c).2 } }) o' := by
  by_cases ho : o.Handed
  · exact ⟨o, h.claimMoved ho hw hpc hnow hc⟩
  · obtain ⟨h1, h2, h3⟩ := hc.fresh ho hpc
    exact ⟨_, h.claimFresh ho hw h1 h2 h3⟩

/-- The private claim task has seen its retirement end. -/
theorem Inv.claimAwaiting (h : Inv s o) {c : Claim} {wrap : Claim → OpPc} (hw : s.Waiting t wrap)
    {r : Rid} {j : Jid} {n : Nat} {b : Bool} (hpc : c.pc = .awaiting r j n)
    (hb : s.retireResult j = some b) (hc : s.ClaimOk o t c) :
    ∃ o', Inv ((s.retireStartupChildDone r b).1.setOp t
      { (s.retireStartupChildDone r b).1.ops t with
        pc := wrap { c with pc := (s.retireStartupChildDone r b).2 } }) o' := by
  unfold ClaimOk at hc
  simp only [hpc] at hc
  obtain ⟨haw, ho⟩ := hc
  have key : ∀ (u : State) o' b', Inv u o' → Keeps s u o o' → u.ops = s.ops →
      u.lifecycleLock = s.lifecycleLock → Inv (u.setOp t { u.ops t with
        pc := wrap { c with pc := .finished b' } }) o' := by
    intro u o' b' hu hk hops hlock
    have ho' := hk.handed ho
    refine hu.setPc (fun _ => ?_) (by simpa [hops] using hw.stopping) (fun e => ?_) ?_
    · rw [hlock]
      exact hw.owner
    · rw [e] at ho'
      exact absurd ho' (by simp [Custody.Handed])
    · rw [hops]
      exact hw.ok u o' _ hk.nextSpawn hk.slot ho'
  cases b with
  | false => exact ⟨o, key s o false h (.refl s o) rfl rfl⟩
  | true =>
    obtain ⟨o', hu, hk⟩ := h.remove (haw.retired hb)
    refine ⟨o', ?_⟩
    simp only [retireStartupChildDone, if_true]
    obtain ⟨l, hl⟩ := removeRetirement_eq s r
    refine key _ o' _ hu hk ?_ ?_
    · rw [hl]
    · rw [hl]

end

end State

end KestrelSdk.Subprocess

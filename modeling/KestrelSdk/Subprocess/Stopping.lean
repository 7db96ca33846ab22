import KestrelSdk.Subprocess.Start

namespace KestrelSdk.Subprocess

open Asyncio

/-- `Task.cancel()` on a caller, seen from its record. -/
def Op.cancelled (op : Op) (now : Nat) : Op :=
  match op.pc with
  | .idle => op
  | .finished => op
  | _ => { op with cancelAt := some (op.cancelAt.getD now) }

@[simp] theorem Op.cancelled_pc (op : Op) (n : Nat) : (op.cancelled n).pc = op.pc := by
  unfold cancelled
  split <;> rfl

@[simp] theorem Op.cancelled_since (op : Op) (n : Nat) : (op.cancelled n).since = op.since := by
  unfold cancelled
  split <;> rfl

@[simp] theorem Op.cancelled_spawned (op : Op) (n : Nat) :
    (op.cancelled n).spawned = op.spawned := by
  unfold cancelled
  split <;> rfl

theorem Op.cancelled_cancelAt {op : Op} {n m : Nat} (h : (op.cancelled n).cancelAt = some m) :
    op.cancelAt = some m ∨ m = n := by
  unfold cancelled at h
  split at h
  · exact .inl h
  · exact .inl h
  · cases e : op.cancelAt with
    | none =>
      simp [e] at h
      exact .inr h.symm
    | some k =>
      simp [e] at h
      exact .inl (by rw [h])

theorem Op.cancelled_start {op : Op} {pc : StartPc} (h : op.pc = .start pc) (n : Nat) :
    (op.cancelled n).cancelAt = some (op.cancelAt.getD n) := by
  simp [cancelled, h]

theorem Op.cancelled_twice (op : Op) (n : Nat) : (op.cancelled n).cancelled n = op.cancelled n := by
  cases h : op.pc <;> simp [cancelled, h]

namespace State

open Children

/-- Cancel a list of operations, once each. -/
def cancelAll (s : State) (l : List Tid) : State :=
  l.foldl (fun s t => (s.cancelOp t).log (.operationCancelled t)) s

theorem cancelOp_eq (s : State) (t : Tid) : ∃ l, l.owner = s.lifecycleLock.owner ∧
    s.cancelOp t = { s with
      ops := Function.update s.ops t ((s.ops t).cancelled s.now), lifecycleLock := l } := by
  unfold cancelOp
  split
  · rename_i e
    refine ⟨s.lifecycleLock, rfl, ?_⟩
    simp [Op.cancelled, e]
  · rename_i e
    refine ⟨s.lifecycleLock, rfl, ?_⟩
    simp [Op.cancelled, e]
  · rename_i e1 e2
    refine ⟨_, FifoLock.cancelWaiter_owner _ t, ?_⟩
    simp only [setOp]
    congr 2
    unfold Op.cancelled
    split
    · rename_i e
      exact absurd e e1
    · rename_i e
      exact absurd e e2
    · rfl

theorem cancelAll_eq (l : List Tid) (s : State) : ∃ L E, L.owner = s.lifecycleLock.owner ∧
    s.cancelAll l = { s with
      ops := fun u => if u ∈ l then (s.ops u).cancelled s.now else s.ops u
      lifecycleLock := L, effects := E } := by
  induction l generalizing s with
  | nil => exact ⟨s.lifecycleLock, s.effects, rfl, by simp [cancelAll]⟩
  | cons t l ih =>
    obtain ⟨L1, hL1, h1⟩ := cancelOp_eq s t
    obtain ⟨L2, E2, hL2, h2⟩ := ih ((s.cancelOp t).log (.operationCancelled t))
    refine ⟨L2, E2, ?_, ?_⟩
    · rw [hL2, h1]
      exact hL1
    · have : s.cancelAll (t :: l) = ((s.cancelOp t).log (.operationCancelled t)).cancelAll l := rfl
      rw [this, h2, h1]
      simp only [log]
      congr 1
      funext u
      by_cases hut : u = t
      · subst hut
        simp [Op.cancelled_twice]
      · simp [hut]

section Attempt

variable {s s' : State} {o : Custody} {a : Aid}

/-- The newest stop attempt moves on. -/
theorem Inv.setAttempt (h : Inv s o) (ha : s.stopTask = some a) {x : Attempt}
    (hm : x.mark = (s.attempts a).mark) (hok : (s.setAttempt a x).AttemptOk o a) :
    Inv (s.setAttempt a x) o := by
  have hne : ∀ b, b ≠ a → (s.setAttempt a x).attempts b = s.attempts b := by
    intro b hb
    simp [State.setAttempt, hb]
  have hmark : ∀ b, ((s.setAttempt a x).attempts b).mark = (s.attempts b).mark := by
    intro b
    by_cases hb : b = a
    · subst hb
      simpa [State.setAttempt] using hm
    · rw [hne b hb]
  have hk : Keeps s (s.setAttempt a x) o o :=
    ⟨Nat.le_refl _, rfl, rfl, fun _ _ => id, fun _ _ _ => id, id, id, fun _ => rfl,
      fun _ _ => id, fun _ _ => id, fun b hb => ⟨hb, hmark b⟩⟩
  refine h.move (t := 0) hk h.sound (.same rfl fun _ _ => rfl) (fun u _ => h.lock u)
    ⟨fun b hb => ⟨?_, ?_⟩, fun b hb hnd => ?_, fun b hb => ?_⟩
    ⟨h.lock 0, h.cancelAt 0, h.handoff 0, ?_⟩
  · rw [hmark b]
    exact (h.attempts.attempt b hb).1
  · by_cases hba : b = a
    · rw [hba]
      exact hok
    · exact (h.attempts.attempt b hb).2.keeps hk (hne b hba) (Nat.le_refl _)
        fun u m c _ hu => ⟨m, c, hu⟩
  · by_cases hba : b = a
    · rw [hba]
      exact ha
    · rw [hne b hba] at hnd
      exact h.attempts.unfinished b hb hnd
  · rw [hmark b]
    exact h.attempts.stopTask b hb
  · exact hk.opOk (fun _ => id) (h.ops 0)

theorem Inv.attemptSuspend (h : Inv s o) (ha : s.stopTask = some a) {pc : AttemptPc}
    (hok : (s.attemptSuspend a pc).AttemptOk o a) : Inv (s.attemptSuspend a pc) o :=
  h.setAttempt ha rfl hok

theorem Inv.attemptReturn (h : Inv s o) (ha : s.stopTask = some a) {result : Bool}
    (hr : result = true → o = .released ∧ s.startingGeneration = none) :
    Inv (s.attemptReturn a result) o := by
  have h' : Inv { s with stopping := false } o :=
    h.idle (.same rfl) h.sound rfl (.same rfl fun _ _ => rfl) (.same rfl) (fun _ _ => id) rfl
  refine h'.setAttempt ha rfl ?_
  simp only [AttemptOk, State.setAttempt, Function.update_self]
  exact fun hb _ => hr hb

theorem Inv.attemptObserve (h : Inv s o) (ha : s.stopTask = some a) {childrenRetired : Bool}
    (ho : o.Handed) (hslot : s.startingGeneration = none)
    (hr : childrenRetired = true → o = .released) : Inv (s.attemptObserve a childrenRetired) o := by
  dsimp only [State.attemptObserve]
  split
  · exact h.prune.attemptReturn ha fun hb => ⟨hr hb, hslot⟩
  · refine h.prune.attemptSuspend ha ?_
    simp only [AttemptOk, State.attemptSuspend, State.setAttempt, Function.update_self]
    exact ⟨ho, hslot, hr⟩

/-- Every retired record leaves, one after the other. -/
theorem Inv.removeAll (l : List Rid) {s : State} {o : Custody} (h : Inv s o)
    (hl : ∀ r ∈ l, s.Retired r) :
    ∃ o' L, Inv (l.foldl (fun s r => (s.removeRetirementIfCompleteLocked r).1) s) o' ∧
      Keeps s (l.foldl (fun s r => (s.removeRetirementIfCompleteLocked r).1) s) o o' ∧
      l.foldl (fun s r => (s.removeRetirementIfCompleteLocked r).1) s =
        { s with retirements := L } := by
  induction l generalizing s o with
  | nil => exact ⟨o, s.retirements, h, .refl s o, rfl⟩
  | cons r l ih =>
    obtain ⟨o1, h1, hk1⟩ := h.remove (hl r (by simp))
    obtain ⟨L1, hL1⟩ := removeRetirement_eq s r
    obtain ⟨o2, L2, h2, hk2, hL2⟩ := ih h1 fun q hq => hk1.retired (hl q (by simp [hq]))
    refine ⟨o2, L2, h2, hk1.trans hk2, ?_⟩
    rw [List.foldl_cons, hL2, hL1]

theorem Inv.attemptConclude (h : Inv s o) (ha : s.stopTask = some a) (ho : o.Handed)
    (hslot : s.startingGeneration = none) {retired : List Rid} (hr : ∀ r ∈ retired, s.Retired r) :
    ∃ o', Inv (s.attemptConclude a retired) o' := by
  obtain ⟨o', L, h', hk, hL⟩ := h.removeAll retired hr
  dsimp only [State.attemptConclude]
  rw [h'.clear]
  refine ⟨o', h'.attemptObserve ?_ (hk.handed ho) (hk.slot.trans hslot) fun hb => ?_⟩
  · rw [hL]
    exact ha
  · simp only [Bool.and_eq_true, List.isEmpty_iff] at hb
    refine h'.nothing_left (hk.slot.trans hslot) ?_ hb.1
    have hc : State.client _ = o'.client := h'.sound.place.client
    have ho' := hk.handed ho
    rw [hc]
    cases o' <;> simp [Custody.Handed] at ho' <;> rfl

/-- `_reap_owned_children` joins the retirements in order. -/
theorem Inv.attemptJoin (h : Inv s o) (ha : s.stopTask = some a) (ho : o.Handed)
    (hslot : s.startingGeneration = none) (todo : List Rid) :
    ∀ retired : List Rid, (∀ q ∈ todo, q < s.nextRecord) → (∀ q ∈ retired, s.Retired q) →
      ∃ o', Inv (s.attemptJoin a todo retired) o' := by
  induction todo with
  | nil =>
    intro retired _ hr
    exact h.attemptConclude ha ho hslot hr
  | cons r todo ih =>
    intro retired ht hr
    have hlt := ht r (by simp)
    obtain ⟨j, hj, -, -⟩ := (h.sound.records r hlt).task
    have hj' : (s.records r).task = some j := hj
    have haw := h.task hlt hj'
    have ht' : ∀ q ∈ todo, q < s.nextRecord := fun q hq => ht q (by simp [hq])
    simp only [State.attemptJoin, hj']
    cases hb : s.retireResult j with
    | none =>
      refine ⟨o, h.attemptSuspend ha ?_⟩
      simp only [AttemptOk, State.attemptSuspend, State.setAttempt, Function.update_self]
      exact ⟨ho, hslot, haw, ht', hr⟩
    | some b =>
      refine ih _ ht' fun q hq => ?_
      cases b with
      | false => exact hr q (by simpa using hq)
      | true =>
        simp only [if_true, List.mem_append, List.mem_singleton] at hq
        obtain hq | rfl := hq
        · exact hr q hq
        · exact haw.retired hb

/-- What a retried retirement leaves alone. -/
theorem retryRetirement_eq (s : State) (r : Rid) : ∃ R T n, s.retryRetirement r =
    { s with records := R, retireTasks := T, nextRetireTask := n } := by
  have key : ∃ R T n, s.createRetireTask r =
      { s with records := R, retireTasks := T, nextRetireTask := n } := ⟨_, _, _, rfl⟩
  dsimp only [State.retryRetirement]
  split
  · exact key
  · split
    · split
      · exact key
      · exact ⟨_, _, _, rfl⟩
    · exact ⟨_, _, _, rfl⟩

theorem Inv.retry (h : Inv s o) {r : Rid} (hr : r < s.nextRecord) :
    Inv (s.retryRetirement r) o := by
  dsimp only [State.retryRetirement]
  split
  · rename_i hn
    exact h.createRetireTask hr (by simp [hn])
  · rename_i j hj
    split
    · rename_i b hb
      split
      · refine h.createRetireTask hr fun i hi => ?_
        obtain rfl : j = i := Option.some.inj (hj.symm.trans hi)
        exact ⟨b, retireResult_eq hb⟩
      · exact h
    · exact h

theorem Inv.retryAll (l : List Rid) {s : State} (h : Inv s o) (hl : ∀ r ∈ l, r < s.nextRecord) :
    Inv (l.foldl retryRetirement s) o ∧ ∃ R T n, l.foldl retryRetirement s =
      { s with records := R, retireTasks := T, nextRetireTask := n } := by
  induction l generalizing s with
  | nil => exact ⟨h, _, _, _, rfl⟩
  | cons r l ih =>
    obtain ⟨R, T, n, heq⟩ := retryRetirement_eq s r
    obtain ⟨h1, R', T', n', heq'⟩ := ih (h.retry (hl r (by simp))) fun q hq => by
      rw [heq]
      exact hl q (by simp [hq])
    refine ⟨h1, R', T', n', ?_⟩
    rw [List.foldl_cons, heq', heq]

/-- Past the settlement of the start, every child is with a record. -/
theorem Inv.handed (h : Inv s o) (hc : o.client = none) (hl : o ≠ .live)
    (hslot : s.startingGeneration = none) : o.Handed := by
  cases o with
  | released => trivial
  | record r => trivial
  | live => exact absurd rfl hl
  | handoff u => exact absurd hslot (h.handoff_slot rfl)
  | published c => cases hc

theorem Inv.attemptReap (h : Inv s o) (ha : s.stopTask = some a) (ho : o.Handed)
    (hslot : s.startingGeneration = none) : ∃ o', Inv (s.attemptReap a) o' := by
  dsimp only [State.attemptReap]
  rw [h.clear]
  obtain ⟨h', R, T, n, heq⟩ := h.retryAll s.retirements fun r hr =>
    (h.sound.place.retirements r hr).1
  rw [heq] at h' ⊢
  split
  · rename_i hempty
    refine ⟨o, h'.attemptObserve ha ho hslot fun _ => ?_⟩
    refine h'.nothing_left hslot ?_ (by simpa using hempty)
    have hc : s.client = o.client := h.sound.place.client
    rw [hc]
    cases o <;> simp [Custody.Handed] at ho <;> rfl
  · exact h'.attemptJoin ha ho hslot s.retirements []
      (fun r hr => (h'.sound.place.retirements r hr).1) (by simp)

theorem Inv.settledLocked (h : Inv s o) (g : Nat) :
    s.startIsSettledLocked g = s.startingGeneration.isNone := by
  unfold startIsSettledLocked
  rw [h.settled]
  cases s.startingGeneration <;> simp

theorem Inv.attemptSettledTwice (h : Inv s o) (ha : s.stopTask = some a) (hc : o.client = none)
    (hl : o ≠ .live) {settled : Bool} (hs : settled = true → s.startingGeneration = none) :
    ∃ o', Inv (s.attemptSettledTwice a settled) o' := by
  unfold State.attemptSettledTwice
  split
  · rename_i hb
    rw [h.clear]
    exact h.attemptReap ha (h.handed hc hl (hs hb)) (hs hb)
  · exact ⟨o, h.attemptReturn ha (by simp)⟩

theorem Inv.attemptSettled (h : Inv s o) (ha : s.stopTask = some a) (hc : o.client = none)
    (hl : o ≠ .live) {g : Nat} {settled : Bool}
    (hg : s.startingGeneration = none ∨ s.startingGeneration = some g)
    (hs : settled = true → s.startingGeneration = none) :
    ∃ o', Inv (s.attemptSettled a g settled) o' := by
  dsimp only [State.attemptSettled]
  rw [h.settledLocked, h.clear]
  split
  · rename_i hb
    exact h.attemptReap ha (h.handed hc hl (hs hb)) (hs hb)
  · obtain hg | hg := hg
    · have hset : s.startSettled = true := by rw [h.settled, hg]; rfl
      simp only [hg, Option.isNone_none, if_true, hset]
      refine h.attemptSettledTwice ha hc hl fun _ => hg
    · have hset : s.startSettled = false := by rw [h.settled, hg]; rfl
      rw [if_neg (by simp [hg, hset]), if_neg (by simp [hg])]
      have h' : Inv { s with startUncertainGeneration := some g } o :=
        ⟨h.sound, h.starting, h.settled, fun _ e => by cases e; exact hg, h.live, h.handoff,
          h.lock, h.cancelAt, h.ops,
          ⟨h.attempts.attempt, h.attempts.unfinished, h.attempts.stopTask⟩, h.late⟩
      refine ⟨o, h'.attemptSuspend ha ?_⟩
      simp only [AttemptOk, State.attemptSuspend, State.setAttempt, Function.update_self]
      exact ⟨hc, hl, .inr hg⟩

end Attempt

end State

end KestrelSdk.Subprocess

import KestrelSdk.Subprocess.Transfer
import KestrelSdk.Subprocess.Hold

namespace KestrelSdk.Subprocess

open Asyncio

namespace State

open Children

/-- The spawn issued by the start admitted last. -/
def last (s : State) : Sid := s.nextSpawn - 1

/-- A stop attempt moved the spawn into a record, whose task will not touch it before `d`. -/
def MovedSpawn (s : State) (o : Custody) (d : Nat) : Prop :=
  ∃ r j, o = .record r ∧ (s.records r).task = some j ∧
    d < (s.retireTasks j).spawnHold (s.records r)

/-- A stop attempt moved the published pair into a record, whose task will not end before `d`. -/
def MovedPair (s : State) (o : Custody) (d : Nat) : Prop :=
  ∃ r j, o = .record r ∧ (s.records r).task = some j ∧
    d < (s.retireTasks j).pairHold (s.records r)

/-- `j` is, or was, a retirement task of `r`. -/
def Awaits (s : State) (r : Rid) (j : Jid) : Prop :=
  j < s.nextRetireTask ∧ (s.retireTasks j).record = r

/-- Some retirement task of `r` has returned true. -/
def Retired (s : State) (r : Rid) : Prop :=
  ∃ j, s.Awaits r j ∧ (s.retireTasks j).pc = .done true

/-- The spawn is where the start left it, or a stop attempt moved it. -/
def SpawnAt (s : State) (o : Custody) (n d : Nat) : Prop :=
  o = .live ∨ (o.Handed ∧ (s.now ≤ n → s.MovedSpawn o d))

/-- The pair is published, or a stop attempt moved it. -/
def PairAt (s : State) (o : Custody) (c : Cid) (n d : Nat) : Prop :=
  o = .published c ∨ (o.Handed ∧ (s.now ≤ n → s.MovedPair o d))

/-- A pending claim will find its child. -/
def ClaimOk (s : State) (o : Custody) (t : Tid) (c : Claim) : Prop :=
  match c.pc with
  | .pending e => e ≤ s.now ∧
      ((c.client = none ∧ c.process = none ∧ c.spawnTask = some s.last ∧
          s.SpawnAt o (e + 1) (e + 1)) ∨
        (∃ k, c.client = some k ∧ c.process = some s.last ∧ c.spawnTask = none ∧
          s.PairAt o k (e + 1) (e + 1)) ∨
        (c.client = none ∧ c.process = some s.last ∧ c.spawnTask = none ∧ o = .handoff t))
  | .awaiting r j _ => s.Awaits r j ∧ o.Handed
  | .finished _ => o.Handed

/-- The start slot belongs to the frame. -/
def Slot (s : State) (f : StartFrame) : Prop := s.startingGeneration = some f.generation

/-- The current call issued the last spawn. -/
def Issued (s : State) (op : Op) : Prop := 0 < s.nextSpawn ∧ op.spawned = some s.last

/-- A start with a published child: the locals, and a cancellation on its way once the
pair was taken. -/
def PhaseOk (s : State) (o : Custody) (t : Tid) (op : Op) (f : StartFrame) : Prop :=
  ∃ c, f.client = some c ∧ f.process = some s.last ∧
    ((o = .published c ∧ t ∈ s.activeOperations) ∨
      (o.Handed ∧ ∃ n, op.cancelAt = some n ∧ (s.now ≤ n + 1 → s.MovedPair o (n + 2))))

/-- The pair of a start that has passed its last phase. -/
def PairOk (s : State) (o : Custody) (t : Tid) (op : Op) (f : StartFrame) (d : Nat) : Prop :=
  ∃ c, f.client = some c ∧ f.process = some s.last ∧
    ((o = .published c ∧ t ∈ s.activeOperations) ∨
      (o.Handed ∧ (f.cancelled = true ∨ op.cancelAt ≠ none) ∧ (s.now < d → s.MovedPair o d)))

def StartOk (s : State) (o : Custody) (t : Tid) (op : Op) : StartPc → Prop
  | .queued => op.spawned = none ∧ (t ∈ s.activeOperations ∨ op.cancelAt ≠ none)
  | .terminal r j cancelled => op.spawned = none ∧ s.Awaits r j ∧
      (t ∈ s.activeOperations ∨ cancelled = true ∨ op.cancelAt ≠ none)
  | .spawning f => s.Issued op ∧ s.Slot f ∧
      f = { generation := f.generation, spawnTask := some s.last } ∧
      ((o = .live ∧ t ∈ s.activeOperations) ∨
        (o.Handed ∧ ∃ n, op.cancelAt = some n ∧ (s.now ≤ n + 1 → s.MovedSpawn o (n + 2))))
  | .phase f _ _ => s.Issued op ∧ s.Slot f ∧ f.spawnTask = none ∧
      f.failure = none ∧ f.claimed = false ∧ f.cancelled = false ∧ s.PhaseOk o t op f
  | .retiring f c => s.Issued op ∧ s.Slot f ∧ f.claimed = true ∧
      f.failure ≠ none ∧ s.ClaimOk o t c
  | .finalizing f h => s.Issued op ∧ op.since ≤ s.now ∧
      (f.claimed = true → f.failure ≠ none ∧ o.Handed) ∧
      match h with
      | .pending k => s.Slot f ∧ k ≤ s.now ∧
          (f.claimed = false → f.failure = none ∧ s.PairOk o t op f (k + 4))
      | .finished x => s.startingGeneration = none ∧ x ≤ s.now ∧
          (f.claimed = false → f.failure = none ∧ s.PairOk o t op f (max x op.since + 3))
  | .lateRetiring f c => s.Issued op ∧ s.startingGeneration = none ∧
      (f.cancelled = true ∨ f.failure ≠ none) ∧ s.ClaimOk o t c

/-- What holds at each await of a public call. -/
def OpOk (s : State) (o : Custody) (t : Tid) (op : Op) : Prop :=
  match op.pc with
  | .start pc => s.StartOk o t op pc
  | .unregistering e _ => e.started = none ∧ (e.kind = .start → e.failure ≠ none) ∧
      ∀ sp, op.spawned = some sp → sp < s.nextSpawn ∧
        (sp = s.last → o.Handed ∧ s.startingGeneration = none)
  | .resultRetiring _ _ => False
  | .stopping a mark _ => op.spawned = none ∧ a < s.nextAttempt ∧ mark ≤ (s.attempts a).mark
  | _ => op.spawned = none

/-- The awaits inside the lifecycle section. -/
def Inside : OpPc → Bool
  | .start .queued => false
  | .start _ => true
  | .probing _ _ => true
  | .applying _ => true
  | .finishing _ _ _ => true
  | _ => false

/-- What a stop attempt has achieved at each of its awaits. -/
def AttemptOk (s : State) (o : Custody) (a : Aid) : Prop :=
  match (s.attempts a).pc with
  | .init caller => ∃ mark c, (s.ops caller).pc = .stopping a mark c
  | .settle _ g => o.client = none ∧ o ≠ .live ∧
      (s.startingGeneration = none ∨ s.startingGeneration = some g)
  | .reap r j todo retired => o.Handed ∧ s.startingGeneration = none ∧ s.Awaits r j ∧
      (∀ q ∈ todo, q < s.nextRecord) ∧ ∀ q ∈ retired, s.Retired q
  | .observe childrenRetired _ => o.Handed ∧ s.startingGeneration = none ∧
      (childrenRetired = true → o = .released)
  | .done result => result = true → (s.attempts a).mark = s.nextSpawn →
      o = .released ∧ s.startingGeneration = none

/-- The stop attempts: only the newest may be unfinished, and no start overtakes it. -/
structure AttemptsOk (s : State) (o : Custody) : Prop where
  attempt : ∀ a < s.nextAttempt, (s.attempts a).mark ≤ s.nextSpawn ∧ s.AttemptOk o a
  unfinished : ∀ a < s.nextAttempt, (∀ b, (s.attempts a).pc ≠ .done b) → s.stopTask = some a
  stopTask : ∀ a, s.stopTask = some a → a < s.nextAttempt ∧ (s.attempts a).mark = s.nextSpawn

/-- The invariant of the wrapper; `o` says where the last child is. -/
structure Inv (s : State) (o : Custody) : Prop where
  sound : s.children.Sound o
  starting : s.starting = s.startingGeneration.isSome
  settled : s.startSettled = s.startingGeneration.isNone
  uncertain : ∀ g, s.startUncertainGeneration = some g → s.startingGeneration = some g
  live : o = .live → s.startingGeneration ≠ none
  handoff : ∀ t, o = .handoff t → ∃ f e,
    (s.ops t).pc = .start (.retiring f ⟨none, some s.last, none, .pending e⟩)
  lock : ∀ t, Inside (s.ops t).pc = true → s.lifecycleLock.owner = some t
  cancelAt : ∀ t n, (s.ops t).cancelAt = some n → n ≤ s.now
  ops : ∀ t, s.OpOk o t (s.ops t)
  attempts : s.AttemptsOk o
  late : ∀ sp r j n, s.lates sp = .awaiting r j n → s.Awaits r j

/-- A step that does not belong to the caller: what its locals rely on is kept. -/
structure Keeps (s s' : State) (o o' : Custody) : Prop where
  now : s.now ≤ s'.now
  nextSpawn : s'.nextSpawn = s.nextSpawn
  slot : s'.startingGeneration = s.startingGeneration
  awaits : ∀ r j, s.Awaits r j → s'.Awaits r j
  done : ∀ j b, j < s.nextRetireTask → (s.retireTasks j).pc = .done b →
    (s'.retireTasks j).pc = .done b
  handed : o.Handed → o'.Handed
  released : o = .released → o' = .released
  kept : ¬ o.Handed → o' = o
  movedSpawn : ∀ d, s'.now ≤ d → s.MovedSpawn o d → s'.MovedSpawn o' d
  movedPair : ∀ d, s'.now ≤ d → s.MovedPair o d → s'.MovedPair o' d
  attempts : ∀ a < s.nextAttempt, a < s'.nextAttempt ∧ (s'.attempts a).mark = (s.attempts a).mark

namespace Keeps

variable {s s' : State} {o o' : Custody} {t : Tid} {op : Op}

theorem last (h : Keeps s s' o o') : s'.last = s.last := by
  unfold State.last
  rw [h.nextSpawn]

theorem issued (h : Keeps s s' o o') (hi : s.Issued op) : s'.Issued op := by
  refine ⟨?_, ?_⟩
  · rw [h.nextSpawn]
    exact hi.1
  · rw [h.last]
    exact hi.2

theorem spawnAt (h : Keeps s s' o o') {n d : Nat} (hd : n ≤ d) (hs : s.SpawnAt o n d) :
    s'.SpawnAt o' n d := by
  obtain rfl | ⟨h1, h2⟩ := hs
  · exact .inl (h.kept (by simp [Custody.Handed]))
  · refine .inr ⟨h.handed h1, fun hn => h.movedSpawn d (Nat.le_trans hn hd) (h2 ?_)⟩
    exact Nat.le_trans h.now hn

theorem pairAt (h : Keeps s s' o o') {c : Cid} {n d : Nat} (hd : n ≤ d) (hs : s.PairAt o c n d) :
    s'.PairAt o' c n d := by
  obtain rfl | ⟨h1, h2⟩ := hs
  · exact .inl (h.kept (by simp [Custody.Handed]))
  · refine .inr ⟨h.handed h1, fun hn => h.movedPair d (Nat.le_trans hn hd) (h2 ?_)⟩
    exact Nat.le_trans h.now hn

theorem claimOk (h : Keeps s s' o o') {c : Claim} (hc : s.ClaimOk o t c) : s'.ClaimOk o' t c := by
  unfold ClaimOk at hc ⊢
  rw [h.last]
  cases e : c.pc with
  | pending n =>
    simp only [e] at hc ⊢
    obtain ⟨hn, ⟨h1, h2, h3, h4⟩ | ⟨k, h1, h2, h3, h4⟩ | ⟨h1, h2, h3, rfl⟩⟩ := hc
    · exact ⟨Nat.le_trans hn h.now, .inl ⟨h1, h2, h3, h.spawnAt (Nat.le_refl _) h4⟩⟩
    · exact ⟨Nat.le_trans hn h.now, .inr (.inl ⟨k, h1, h2, h3, h.pairAt (Nat.le_refl _) h4⟩)⟩
    · exact ⟨Nat.le_trans hn h.now,
        .inr (.inr ⟨h1, h2, h3, h.kept (by simp [Custody.Handed])⟩)⟩
  | awaiting r j n =>
    simp only [e] at hc ⊢
    exact ⟨h.awaits r j hc.1, h.handed hc.2⟩
  | finished b =>
    simp only [e] at hc ⊢
    exact h.handed hc

theorem phaseOk (h : Keeps s s' o o') (ha : t ∈ s.activeOperations → t ∈ s'.activeOperations)
    {f : StartFrame} (hp : s.PhaseOk o t op f) : s'.PhaseOk o' t op f := by
  obtain ⟨c, h1, h2, ⟨rfl, h3⟩ | ⟨h3, n, h4, h5⟩⟩ := hp
  · exact ⟨c, h1, by rw [h.last, h2], .inl ⟨h.kept (by simp [Custody.Handed]), ha h3⟩⟩
  · refine ⟨c, h1, by rw [h.last, h2], .inr ⟨h.handed h3, n, h4, fun hn => ?_⟩⟩
    exact h.movedPair _ (Nat.le_succ_of_le hn) (h5 (Nat.le_trans h.now hn))

theorem pairOk (h : Keeps s s' o o') (ha : t ∈ s.activeOperations → t ∈ s'.activeOperations)
    {f : StartFrame} {d : Nat} (hp : s.PairOk o t op f d) : s'.PairOk o' t op f d := by
  obtain ⟨c, h1, h2, ⟨rfl, h3⟩ | ⟨h3, h4, h5⟩⟩ := hp
  · exact ⟨c, h1, by rw [h.last, h2], .inl ⟨h.kept (by simp [Custody.Handed]), ha h3⟩⟩
  · refine ⟨c, h1, by rw [h.last, h2], .inr ⟨h.handed h3, h4, fun hn => ?_⟩⟩
    exact h.movedPair _ (Nat.le_of_lt hn) (h5 (Nat.lt_of_le_of_lt h.now hn))

theorem startOk (h : Keeps s s' o o') (ha : t ∈ s.activeOperations → t ∈ s'.activeOperations)
    {pc : StartPc} (hp : s.StartOk o t op pc) : s'.StartOk o' t op pc := by
  cases pc with
  | queued => exact ⟨hp.1, hp.2.imp ha id⟩
  | terminal r j c => exact ⟨hp.1, h.awaits r j hp.2.1, hp.2.2.imp ha id⟩
  | spawning f =>
    obtain ⟨h1, h2, h3, h4⟩ := hp
    refine ⟨h.issued h1, h.slot.trans h2, by rw [h.last]; exact h3, ?_⟩
    obtain ⟨rfl, h5⟩ | ⟨h5, n, h6, h7⟩ := h4
    · exact .inl ⟨h.kept (by simp [Custody.Handed]), ha h5⟩
    · refine .inr ⟨h.handed h5, n, h6, fun hn => ?_⟩
      exact h.movedSpawn _ (Nat.le_succ_of_le hn) (h7 (Nat.le_trans h.now hn))
  | phase f kind k =>
    obtain ⟨h1, h2, h3, h4, h5, h6, h7⟩ := hp
    exact ⟨h.issued h1, h.slot.trans h2, h3, h4, h5, h6, h.phaseOk ha h7⟩
  | retiring f c =>
    obtain ⟨h1, h2, h3, h4, h5⟩ := hp
    exact ⟨h.issued h1, h.slot.trans h2, h3, h4, h.claimOk h5⟩
  | finalizing f x =>
    obtain ⟨h1, h2, h3, h4⟩ := hp
    refine ⟨h.issued h1, Nat.le_trans h2 h.now, ?_, ?_⟩
    · exact fun e => ⟨(h3 e).1, h.handed (h3 e).2⟩
    · cases x with
      | pending k =>
        obtain ⟨h5, h6, h7⟩ := h4
        refine ⟨h.slot.trans h5, Nat.le_trans h6 h.now, fun e => ?_⟩
        exact ⟨(h7 e).1, h.pairOk ha (h7 e).2⟩
      | finished x =>
        obtain ⟨h5, h6, h7⟩ := h4
        refine ⟨h.slot.trans h5, Nat.le_trans h6 h.now, fun e => ?_⟩
        exact ⟨(h7 e).1, h.pairOk ha (h7 e).2⟩
  | lateRetiring f c =>
    obtain ⟨h1, h2, h3, h4⟩ := hp
    exact ⟨h.issued h1, h.slot.trans h2, h3, h.claimOk h4⟩

/-- A caller keeps its footing through the steps of others. -/
theorem opOk (h : Keeps s s' o o')
    (ha : (∃ pc, op.pc = .start pc) → t ∈ s.activeOperations → t ∈ s'.activeOperations)
    (hp : s.OpOk o t op) : s'.OpOk o' t op := by
  unfold OpOk at hp ⊢
  cases e : op.pc with
  | start pc =>
    simp only [e] at hp ⊢
    exact h.startOk (ha ⟨pc, e⟩) hp
  | unregistering x n =>
    simp only [e] at hp ⊢
    refine ⟨hp.1, hp.2.1, fun sp hsp => ?_⟩
    rw [h.nextSpawn, h.last, h.slot]
    exact ⟨(hp.2.2 sp hsp).1, fun el => ⟨h.handed ((hp.2.2 sp hsp).2 el).1,
      ((hp.2.2 sp hsp).2 el).2⟩⟩
  | stopping a mark c =>
    simp only [e] at hp ⊢
    obtain ⟨h1, h2⟩ := h.attempts a hp.2.1
    exact ⟨hp.1, h1, h2 ▸ hp.2.2⟩
  | resultRetiring x c => simp only [e] at hp
  | _ =>
    simp only [e] at hp ⊢
    exact hp

theorem refl (s : State) (o : Custody) : Keeps s s o o :=
  ⟨Nat.le_refl _, rfl, rfl, fun _ _ => id, fun _ _ _ => id, id, id, fun _ => rfl, fun _ _ => id, fun _ _ => id,
    fun _ h => ⟨h, rfl⟩⟩

theorem trans {s'' : State} {o'' : Custody} (h : Keeps s s' o o') (h' : Keeps s' s'' o' o'') :
    Keeps s s'' o o'' where
  now := Nat.le_trans h.now h'.now
  nextSpawn := h'.nextSpawn.trans h.nextSpawn
  slot := h'.slot.trans h.slot
  awaits := fun r j hj => h'.awaits r j (h.awaits r j hj)
  done := by
    intro j b hj hd
    obtain ⟨h1, -⟩ := h.awaits _ j ⟨hj, rfl⟩
    exact h'.done j b h1 (h.done j b hj hd)
  handed := fun ho => h'.handed (h.handed ho)
  released := fun ho => h'.released (h.released ho)
  kept := by
    intro ho
    have e := h.kept ho
    rw [← e] at ho
    exact (h'.kept ho).trans e
  movedSpawn := fun d hd hm => h'.movedSpawn d hd (h.movedSpawn d (Nat.le_trans h'.now hd) hm)
  movedPair := fun d hd hm => h'.movedPair d hd (h.movedPair d (Nat.le_trans h'.now hd) hm)
  attempts := by
    intro a ha
    obtain ⟨h1, h2⟩ := h.attempts a ha
    obtain ⟨h3, h4⟩ := h'.attempts a h1
    exact ⟨h3, h4.trans h2⟩

theorem retired (h : Keeps s s' o o') {r : Rid} (hr : s.Retired r) : s'.Retired r := by
  obtain ⟨j, hj, hd⟩ := hr
  exact ⟨j, h.awaits r j hj, h.done j true hj.1 hd⟩

theorem live_of (h : Keeps s s' o o') (ho : o' = .live) : o = .live := by
  by_contra hne
  by_cases hh : o.Handed
  · have := h.handed hh
    simp [ho, Custody.Handed] at this
  · exact hne ((h.kept hh).symm.trans ho)

theorem handoff_of (h : Keeps s s' o o') (ho : o' = .handoff t) : o = .handoff t := by
  by_contra hne
  by_cases hh : o.Handed
  · have := h.handed hh
    simp [ho, Custody.Handed] at this
  · exact hne ((h.kept hh).symm.trans ho)

end Keeps

/-- What a step of caller `t` leaves alone. -/
structure Aside (s s' : State) (t : Tid) : Prop where
  starting : s'.starting = s.starting
  settled : s'.startSettled = s.startSettled
  uncertain : s'.startUncertainGeneration = s.startUncertainGeneration
  ops : ∀ u, u ≠ t → s'.ops u = s.ops u
  active : ∀ u, u ≠ t → (s.ops u).pc ≠ .finished → u ∈ s.activeOperations →
    u ∈ s'.activeOperations
  lates : ∀ sp r j n, s'.lates sp = .awaiting r j n → s.lates sp = .awaiting r j n ∨
    s'.Awaits r j

theorem Aside.same {s s' : State} {t : Tid}
    (h : (s'.starting, s'.startSettled, s'.startUncertainGeneration, s'.activeOperations, s'.lates) =
      (s.starting, s.startSettled, s.startUncertainGeneration, s.activeOperations, s.lates))
    (hops : ∀ u, u ≠ t → s'.ops u = s.ops u) : Aside s s' t := by
  simp only [Prod.mk.injEq] at h
  obtain ⟨h1, h2, h3, h4, h5⟩ := h
  exact ⟨h1, h2, h3, hops, fun u _ _ hu => h4 ▸ hu, fun sp r j n hl => .inl (h5 ▸ hl)⟩

/-- The stop attempts are left alone, too. -/
structure Unstopped (s s' : State) : Prop where
  attempts : s'.attempts = s.attempts
  nextAttempt : s'.nextAttempt = s.nextAttempt
  stopTask : s'.stopTask = s.stopTask
  nextRecord : s.nextRecord ≤ s'.nextRecord

theorem Unstopped.same {s s' : State}
    (h : (s'.attempts, s'.nextAttempt, s'.stopTask, s'.nextRecord) =
      (s.attempts, s.nextAttempt, s.stopTask, s.nextRecord)) : Unstopped s s' := by
  simp only [Prod.mk.injEq] at h
  obtain ⟨h1, h2, h3, h4⟩ := h
  exact ⟨h1, h2, h3, Nat.le_of_eq h4.symm⟩

theorem AttemptOk.keeps {s s' : State} {o o' : Custody} {a : Aid} (h : s.AttemptOk o a)
    (hk : Keeps s s' o o') (ha : s'.attempts a = s.attempts a)
    (hr : s.nextRecord ≤ s'.nextRecord)
    (hstop : ∀ u m c, (s.attempts a).pc = .init u → (s.ops u).pc = .stopping a m c →
      ∃ m' c', (s'.ops u).pc = .stopping a m' c') : s'.AttemptOk o' a := by
  unfold AttemptOk at h ⊢
  rw [ha]
  cases e : (s.attempts a).pc with
  | init u =>
    simp only [e] at h ⊢
    obtain ⟨m, c, h⟩ := h
    exact hstop u m c e h
  | settle b g =>
    simp only [e] at h ⊢
    rw [hk.slot]
    by_cases hh : o.Handed
    · have hh' := hk.handed hh
      cases o' <;> simp [Custody.Handed] at hh' <;> exact ⟨rfl, by simp, h.2.2⟩
    · rw [hk.kept hh]
      exact h
  | reap r j todo retired =>
    simp only [e] at h ⊢
    obtain ⟨h1, h2, h3, h4, h5⟩ := h
    exact ⟨hk.handed h1, hk.slot.trans h2, hk.awaits r j h3,
      fun q hq => Nat.lt_of_lt_of_le (h4 q hq) hr, fun q hq => hk.retired (h5 q hq)⟩
  | observe b l =>
    simp only [e] at h ⊢
    exact ⟨hk.handed h.1, hk.slot.trans h.2.1, fun hb => hk.released (h.2.2 hb)⟩
  | done b =>
    simp only [e] at h ⊢
    intro hb hm
    rw [hk.slot]
    rw [hk.nextSpawn] at hm
    exact ⟨hk.released (h hb hm).1, (h hb hm).2⟩

theorem AttemptsOk.keeps {s s' : State} {o o' : Custody} (h : s.AttemptsOk o)
    (hk : Keeps s s' o o') (hu : Unstopped s s')
    (hstop : ∀ t a m c, (s.ops t).pc = .stopping a m c →
      (∃ m' c', (s'.ops t).pc = .stopping a m' c') ∨ ∃ b, (s.attempts a).pc = .done b) :
    s'.AttemptsOk o' where
  attempt := by
    intro a hlt
    rw [hu.nextAttempt] at hlt
    refine ⟨?_, ?_⟩
    · rw [hu.attempts, hk.nextSpawn]
      exact (h.attempt a hlt).1
    · refine (h.attempt a hlt).2.keeps hk (by rw [hu.attempts]) hu.nextRecord ?_
      intro u m c hi hu
      obtain h1 | ⟨b, h1⟩ := hstop u a m c hu
      · exact h1
      · rw [hi] at h1
        cases h1
  unfinished := by
    intro a hlt hnd
    rw [hu.nextAttempt] at hlt
    rw [hu.attempts] at hnd
    rw [hu.stopTask]
    exact h.unfinished a hlt hnd
  stopTask := by
    intro a hst
    rw [hu.stopTask] at hst
    rw [hu.nextAttempt, hu.attempts, hk.nextSpawn]
    exact h.stopTask a hst

/-- What has to be shown of the caller whose handle ran. -/
structure Moved (s' : State) (o' : Custody) (t : Tid) : Prop where
  inside : Inside (s'.ops t).pc = true → s'.lifecycleLock.owner = some t
  cancelAt : ∀ n, (s'.ops t).cancelAt = some n → n ≤ s'.now
  handoff : o' = .handoff t → ∃ f e,
    (s'.ops t).pc = .start (.retiring f ⟨none, some s'.last, none, .pending e⟩)
  ok : s'.OpOk o' t (s'.ops t)

/-- A step of caller `t`: `t` itself has to be looked at, the others keep their footing. -/
theorem Inv.move {s s' : State} {o o' : Custody} {t : Tid} (h : Inv s o) (hk : Keeps s s' o o')
    (hs : s'.children.Sound o') (ha : Aside s s' t)
    (hlock : ∀ u, u ≠ t → Inside (s.ops u).pc = true → s'.lifecycleLock.owner = some u)
    (hat : s'.AttemptsOk o') (hm : Moved s' o' t) : Inv s' o' where
  sound := hs
  starting := by rw [ha.starting, hk.slot]; exact h.starting
  settled := by rw [ha.settled, hk.slot]; exact h.settled
  uncertain := by rw [ha.uncertain, hk.slot]; exact h.uncertain
  live := fun ho => by rw [hk.slot]; exact h.live (hk.live_of ho)
  handoff := by
    intro u hu
    by_cases hut : u = t
    · subst hut
      exact hm.handoff hu
    · rw [ha.ops u hut, hk.last]
      exact h.handoff u (hk.handoff_of hu)
  lock := by
    intro u hu
    by_cases hut : u = t
    · subst hut
      exact hm.inside hu
    · rw [ha.ops u hut] at hu
      exact hlock u hut hu
  cancelAt := by
    intro u n hn
    by_cases hut : u = t
    · subst hut
      exact hm.cancelAt n hn
    · rw [ha.ops u hut] at hn
      exact Nat.le_trans (h.cancelAt u n hn) hk.now
  ops := by
    intro u
    by_cases hut : u = t
    · subst hut
      exact hm.ok
    · rw [ha.ops u hut]
      exact hk.opOk (fun ⟨pc, e⟩ => ha.active u hut (by simp [e])) (h.ops u)
  attempts := hat
  late := by
    intro sp r j n hl
    obtain h1 | h1 := ha.lates sp r j n hl
    · exact hk.awaits r j (h.late sp r j n h1)
    · exact h1

/-- A step of caller `t` that does not concern the stop attempts. -/
theorem Inv.next {s s' : State} {o o' : Custody} {t : Tid} (h : Inv s o) (hk : Keeps s s' o o')
    (hs : s'.children.Sound o') (ha : Aside s s' t) (hu : Unstopped s s')
    (hlock : ∀ u, u ≠ t → Inside (s.ops u).pc = true → s'.lifecycleLock.owner = some u)
    (hstop : ∀ a m c, (s.ops t).pc = .stopping a m c →
      (∃ m' c', (s'.ops t).pc = .stopping a m' c') ∨ ∃ b, (s.attempts a).pc = .done b)
    (hm : Moved s' o' t) : Inv s' o' := by
  refine h.move hk hs ha hlock (h.attempts.keeps hk hu fun u a m c hu => ?_) hm
  by_cases hut : u = t
  · subst hut
    exact hstop a m c hu
  · exact .inl ⟨m, c, by rw [ha.ops u hut, hu]⟩

/-- A step in which no caller moves. -/
theorem Inv.idle {s s' : State} {o o' : Custody} (h : Inv s o) (hk : Keeps s s' o o')
    (hs : s'.children.Sound o') (hops : s'.ops = s.ops) (ha : Aside s s' 0) (hu : Unstopped s s')
    (hact : ∀ u, (s.ops u).pc ≠ .finished → u ∈ s.activeOperations → u ∈ s'.activeOperations)
    (hlock : s'.lifecycleLock.owner = s.lifecycleLock.owner) : Inv s' o' := by
  refine h.next hk hs ha hu (fun u _ hu => ?_) (fun a m c hu => ?_)
    ⟨fun hu => ?_, fun n hn => ?_, fun ho => ?_, ?_⟩
  · rw [hlock]
    exact h.lock u hu
  · rw [hops]
    exact .inl ⟨m, c, hu⟩
  · rw [hops] at hu
    rw [hlock]
    exact h.lock 0 hu
  · rw [hops] at hn
    exact Nat.le_trans (h.cancelAt 0 n hn) hk.now
  · rw [hops, hk.last]
    exact h.handoff 0 (hk.handoff_of ho)
  · rw [hops]
    exact hk.opOk (fun ⟨pc, e⟩ => hact 0 (by simp [e])) (h.ops 0)

end State

end KestrelSdk.Subprocess

import KestrelSdk.Subprocess.Stopping

namespace KestrelSdk.Subprocess

open Asyncio

namespace State

open Children

/-- The first section of a stop attempt: the child goes to a new record, or custody stays as it
is, and every live operation in `l` is cancelled. -/
structure Detached (s s' : State) (o o' : Custody) (l : List Tid) : Prop where
  now : s'.now = s.now
  nextSpawn : s'.nextSpawn = s.nextSpawn
  starting : s'.starting = s.starting
  slot : s'.startingGeneration = s.startingGeneration
  settled : s'.startSettled = s.startSettled
  uncertain : s'.startUncertainGeneration = s.startUncertainGeneration
  lates : s'.lates = s.lates
  attempts : s'.attempts = s.attempts
  nextAttempt : s'.nextAttempt = s.nextAttempt
  stopTask : s'.stopTask = s.stopTask
  awaits : ∀ r j, s.Awaits r j → s'.Awaits r j
  owner : s'.lifecycleLock.owner = s.lifecycleLock.owner
  ops : ∀ u, s'.ops u = if u ∈ l then (s.ops u).cancelled s.now else s.ops u
  cancels : ∀ u pc, (s.ops u).pc = .start pc → u ∈ s.activeOperations → u ∈ l
  live : o = .live → o'.Handed ∧ ∀ d < s.now + 3, s'.MovedSpawn o' d
  published : ∀ c, o = .published c → o'.Handed ∧ ∀ d < s.now + 7, s'.MovedPair o' d
  kept : o ≠ .live → o.client = none → o' = o ∧
    (∀ d, s.MovedSpawn o d → s'.MovedSpawn o d) ∧ ∀ d, s.MovedPair o d → s'.MovedPair o d

namespace Detached

variable {s s' : State} {o o' : Custody} {l : List Tid} {t : Tid}

theorem last (h : Detached s s' o o' l) : s'.last = s.last := by
  unfold State.last
  rw [h.nextSpawn]

theorem pc (h : Detached s s' o o' l) (u : Tid) : (s'.ops u).pc = (s.ops u).pc := by
  rw [h.ops]
  split
  · exact Op.cancelled_pc _ _
  · rfl

theorem since (h : Detached s s' o o' l) (u : Tid) : (s'.ops u).since = (s.ops u).since := by
  rw [h.ops]
  split
  · exact Op.cancelled_since _ _
  · rfl

theorem spawned (h : Detached s s' o o' l) (u : Tid) :
    (s'.ops u).spawned = (s.ops u).spawned := by
  rw [h.ops]
  split
  · exact Op.cancelled_spawned _ _
  · rfl

/-- A cancellation that was on its way stays there. -/
theorem cancelAt (h : Detached s s' o o' l) {u : Tid} {pc : StartPc}
    (hpc : (s.ops u).pc = .start pc) {n : Nat} (hn : (s.ops u).cancelAt = some n) :
    (s'.ops u).cancelAt = some n := by
  rw [h.ops]
  split
  · rw [Op.cancelled_start hpc, hn]
    rfl
  · exact hn

/-- A start that was still registered has been cancelled. -/
theorem cancelled (h : Detached s s' o o' l) (hi : Inv s o) {u : Tid} {pc : StartPc}
    (hpc : (s.ops u).pc = .start pc) (hu : u ∈ s.activeOperations) :
    ∃ n, (s'.ops u).cancelAt = some n ∧ n ≤ s.now := by
  rw [h.ops, if_pos (h.cancels u pc hpc hu), Op.cancelled_start hpc]
  cases e : (s.ops u).cancelAt with
  | none => exact ⟨s.now, rfl, Nat.le_refl _⟩
  | some n => exact ⟨n, rfl, hi.cancelAt u n e⟩

theorem cancelAt_ne (h : Detached s s' o o' l) {u : Tid} {pc : StartPc}
    (hpc : (s.ops u).pc = .start pc) (hn : (s.ops u).cancelAt ≠ none) :
    (s'.ops u).cancelAt ≠ none := by
  obtain ⟨n, hn⟩ := Option.ne_none_iff_exists'.1 hn
  rw [h.cancelAt hpc hn]
  simp

theorem handed (h : Detached s s' o o' l) (ho : o.Handed) : o' = o ∧
    (∀ d, s.MovedSpawn o d → s'.MovedSpawn o d) ∧ ∀ d, s.MovedPair o d → s'.MovedPair o d := by
  refine h.kept ?_ ?_
  · rintro rfl
    exact ho
  · cases o <;> simp [Custody.Handed] at ho <;> rfl

theorem handed_of (h : Detached s s' o o' l) (ho : o.Handed) : o'.Handed := by
  rw [(h.handed ho).1]
  exact ho

/-- After the detachment no start owns the spawn and no pair is published. -/
theorem detached (h : Detached s s' o o' l) : o'.client = none ∧ o' ≠ .live := by
  have key : o'.Handed → o'.client = none ∧ o' ≠ .live := by
    intro ho
    cases o' <;> simp [Custody.Handed] at ho <;> exact ⟨rfl, by simp⟩
  cases o with
  | live => exact key (h.live rfl).1
  | published c => exact key (h.published c rfl).1
  | released => exact key (h.handed_of trivial)
  | record r => exact key (h.handed_of trivial)
  | handoff t =>
    rw [(h.kept (by simp) rfl).1]
    exact ⟨rfl, by simp⟩

theorem handoff_of (h : Detached s s' o o' l) (ho : o' = .handoff t) : o = .handoff t := by
  cases o with
  | live => exact absurd (h.live rfl).1 (by simp [ho, Custody.Handed])
  | published c => exact absurd (h.published c rfl).1 (by simp [ho, Custody.Handed])
  | released => exact absurd (h.handed_of trivial) (by simp [ho, Custody.Handed])
  | record r => exact absurd (h.handed_of trivial) (by simp [ho, Custody.Handed])
  | handoff u => rw [← ho, (h.kept (by simp) rfl).1]

theorem spawnAt (h : Detached s s' o o' l) {n d : Nat} (hd : d < s.now + 3)
    (hs : s.SpawnAt o n d) : s'.SpawnAt o' n d := by
  obtain ho | ⟨ho, hm⟩ := hs
  · obtain ⟨h1, h2⟩ := h.live ho
    exact .inr ⟨h1, fun _ => h2 d hd⟩
  · obtain ⟨h1, h2, -⟩ := h.handed ho
    rw [h1]
    refine .inr ⟨ho, fun hn => h2 d (hm ?_)⟩
    rw [← h.now]
    exact hn

theorem pairAt (h : Detached s s' o o' l) {c : Cid} {n d : Nat} (hd : d < s.now + 7)
    (hs : s.PairAt o c n d) : s'.PairAt o' c n d := by
  obtain ho | ⟨ho, hm⟩ := hs
  · obtain ⟨h1, h2⟩ := h.published c ho
    exact .inr ⟨h1, fun _ => h2 d hd⟩
  · obtain ⟨h1, -, h2⟩ := h.handed ho
    rw [h1]
    refine .inr ⟨ho, fun hn => h2 d (hm ?_)⟩
    rw [← h.now]
    exact hn

theorem claimOk (h : Detached s s' o o' l) {c : Claim} (hc : s.ClaimOk o t c) :
    s'.ClaimOk o' t c := by
  unfold ClaimOk at hc ⊢
  rw [h.last, h.now]
  cases e : c.pc with
  | pending n =>
    simp only [e] at hc ⊢
    obtain ⟨hn, ⟨h1, h2, h3, h4⟩ | ⟨k, h1, h2, h3, h4⟩ | ⟨h1, h2, h3, rfl⟩⟩ := hc
    · exact ⟨hn, .inl ⟨h1, h2, h3, h.spawnAt (by omega) h4⟩⟩
    · exact ⟨hn, .inr (.inl ⟨k, h1, h2, h3, h.pairAt (by omega) h4⟩)⟩
    · exact ⟨hn, .inr (.inr ⟨h1, h2, h3, (h.kept (by simp) rfl).1⟩)⟩
  | awaiting r j n =>
    simp only [e] at hc ⊢
    exact ⟨h.awaits r j hc.1, h.handed_of hc.2⟩
  | finished b =>
    simp only [e] at hc ⊢
    exact h.handed_of hc

theorem issued (h : Detached s s' o o' l) (hi : s.Issued (s.ops t)) : s'.Issued (s'.ops t) := by
  refine ⟨?_, ?_⟩
  · rw [h.nextSpawn]
    exact hi.1
  · rw [h.spawned, h.last]
    exact hi.2

theorem pairOk (h : Detached s s' o o' l) (hi : Inv s o) {pc : StartPc}
    (hpc : (s.ops t).pc = .start pc) {f : StartFrame} {d : Nat} (hd : d < s.now + 7)
    (hp : s.PairOk o t (s.ops t) f d) : s'.PairOk o' t (s'.ops t) f d := by
  obtain ⟨c, h1, h2, ⟨ho, ha⟩ | ⟨ho, h3, hm⟩⟩ := hp
  · obtain ⟨n, hn, -⟩ := h.cancelled hi hpc ha
    obtain ⟨h4, h5⟩ := h.published c ho
    exact ⟨c, h1, by rw [h.last, h2], .inr ⟨h4, .inr (by simp [hn]), fun _ => h5 d hd⟩⟩
  · obtain ⟨h4, -, h5⟩ := h.handed ho
    refine ⟨c, h1, by rw [h.last, h2], .inr ⟨h.handed_of ho, ?_, fun hn => ?_⟩⟩
    · exact h3.imp id (h.cancelAt_ne hpc)
    · rw [h4]
      rw [h.now] at hn
      exact h5 d (hm hn)

theorem startOk (h : Detached s s' o o' l) (hi : Inv s o) {pc : StartPc}
    (hpc : (s.ops t).pc = .start pc) (hp : s.StartOk o t (s.ops t) pc) :
    s'.StartOk o' t (s'.ops t) pc := by
  have hcancel : t ∈ s.activeOperations → (s'.ops t).cancelAt ≠ none := by
    intro ha
    obtain ⟨n, hn, -⟩ := h.cancelled hi hpc ha
    simp [hn]
  cases pc with
  | queued =>
    refine ⟨(h.spawned t).trans hp.1, .inr ?_⟩
    exact hp.2.elim hcancel (h.cancelAt_ne hpc)
  | terminal r j c =>
    refine ⟨(h.spawned t).trans hp.1, h.awaits r j hp.2.1, .inr ?_⟩
    obtain ha | hc | hn := hp.2.2
    · exact .inr (hcancel ha)
    · exact .inl hc
    · exact .inr (h.cancelAt_ne hpc hn)
  | spawning f =>
    obtain ⟨h1, h2, h3, h4⟩ := hp
    refine ⟨h.issued h1, h.slot.trans h2, by rw [h.last]; exact h3, .inr ?_⟩
    obtain ⟨ho, ha⟩ | ⟨ho, n, hn, hm⟩ := h4
    · obtain ⟨n, hn, hle⟩ := h.cancelled hi hpc ha
      obtain ⟨h5, h6⟩ := h.live ho
      exact ⟨h5, n, hn, fun _ => h6 (n + 2) (by omega)⟩
    · obtain ⟨h5, h6, -⟩ := h.handed ho
      rw [h5, h.now]
      exact ⟨ho, n, h.cancelAt hpc hn, fun hle => h6 _ (hm hle)⟩
  | phase f kind k =>
    obtain ⟨h1, h2, h3, h4, h5, h6, c, h7, h8, h9⟩ := hp
    refine ⟨h.issued h1, h.slot.trans h2, h3, h4, h5, h6, c, h7, by rw [h.last, h8], .inr ?_⟩
    obtain ⟨ho, ha⟩ | ⟨ho, n, hn, hm⟩ := h9
    · obtain ⟨n, hn, hle⟩ := h.cancelled hi hpc ha
      obtain ⟨h10, h11⟩ := h.published c ho
      exact ⟨h10, n, hn, fun _ => h11 (n + 2) (by omega)⟩
    · obtain ⟨h10, -, h11⟩ := h.handed ho
      rw [h10, h.now]
      exact ⟨ho, n, h.cancelAt hpc hn, fun hle => h11 _ (hm hle)⟩
  | retiring f c =>
    obtain ⟨h1, h2, h3, h4, h5⟩ := hp
    exact ⟨h.issued h1, h.slot.trans h2, h3, h4, h.claimOk h5⟩
  | finalizing f x =>
    obtain ⟨h1, h2, h3, h4⟩ := hp
    refine ⟨h.issued h1, by rw [h.since, h.now]; exact h2, ?_, ?_⟩
    · exact fun e => ⟨(h3 e).1, h.handed_of (h3 e).2⟩
    · cases x with
      | pending k =>
        obtain ⟨h5, h6, h7⟩ := h4
        refine ⟨h.slot.trans h5, by rw [h.now]; exact h6, fun e => ⟨(h7 e).1, ?_⟩⟩
        exact h.pairOk hi hpc (by omega) (h7 e).2
      | finished x =>
        obtain ⟨h5, h6, h7⟩ := h4
        refine ⟨h.slot.trans h5, by rw [h.now]; exact h6, fun e => ⟨(h7 e).1, ?_⟩⟩
        rw [h.since]
        exact h.pairOk hi hpc (by omega) (h7 e).2
  | lateRetiring f c =>
    obtain ⟨h1, h2, h3, h4⟩ := hp
    exact ⟨h.issued h1, h.slot.trans h2, h3, h.claimOk h4⟩

theorem opOk (h : Detached s s' o o' l) (hi : Inv s o) (u : Tid) :
    s'.OpOk o' u (s'.ops u) := by
  have hp := hi.ops u
  unfold OpOk at hp ⊢
  rw [h.pc u]
  cases e : (s.ops u).pc with
  | start pc =>
    simp only [e] at hp ⊢
    exact h.startOk hi e hp
  | unregistering x n =>
    simp only [e] at hp ⊢
    refine ⟨hp.1, hp.2.1, fun sp hsp => ?_⟩
    rw [h.spawned u] at hsp
    rw [h.nextSpawn, h.last, h.slot]
    exact ⟨(hp.2.2 sp hsp).1, fun el => ⟨h.handed_of ((hp.2.2 sp hsp).2 el).1,
      ((hp.2.2 sp hsp).2 el).2⟩⟩
  | stopping a mark c =>
    simp only [e] at hp ⊢
    rw [h.spawned u, h.nextAttempt, h.attempts]
    exact hp
  | resultRetiring x c => simp only [e] at hp
  | _ =>
    simp only [e] at hp ⊢
    exact (h.spawned u).trans hp

/-- The attempt that detaches is the only unfinished one. -/
theorem attemptsOk (h : Detached s s' o o' l) (hi : Inv s o) {a : Aid} {caller : Tid}
    (ha : s.stopTask = some a) (hpc : (s.attempts a).pc = .init caller) : s'.AttemptsOk o' where
  attempt := by
    intro b hb
    rw [h.nextAttempt] at hb
    obtain ⟨h1, h2⟩ := hi.attempts.attempt b hb
    rw [h.attempts, h.nextSpawn]
    refine ⟨h1, ?_⟩
    unfold AttemptOk at h2 ⊢
    rw [h.attempts]
    by_cases hba : b = a
    · subst hba
      simp only [hpc] at h2 ⊢
      rw [h.pc caller]
      exact h2
    · have hd : ∃ r, (s.attempts b).pc = .done r := by
        by_contra hnd
        have := hi.attempts.unfinished b hb fun r hr => hnd ⟨r, hr⟩
        rw [ha] at this
        exact hba (Option.some.inj this).symm
      obtain ⟨r, hr⟩ := hd
      simp only [hr] at h2 ⊢
      intro ht hm
      rw [h.nextSpawn] at hm
      obtain ⟨h3, h4⟩ := h2 ht hm
      have hh : o.Handed := by
        rw [h3]
        trivial
      exact ⟨(h.handed hh).1.trans h3, h.slot.trans h4⟩
  unfinished := by
    intro b hb hnd
    rw [h.nextAttempt] at hb
    rw [h.attempts] at hnd
    rw [h.stopTask]
    exact hi.attempts.unfinished b hb hnd
  stopTask := by
    intro b hb
    rw [h.stopTask] at hb
    rw [h.nextAttempt, h.attempts, h.nextSpawn]
    exact hi.attempts.stopTask b hb

theorem inv (h : Detached s s' o o' l) (hi : Inv s o) (hs : s'.children.Sound o') {a : Aid}
    {caller : Tid} (ha : s.stopTask = some a) (hpc : (s.attempts a).pc = .init caller) :
    Inv s' o' where
  sound := hs
  starting := by rw [h.starting, h.slot]; exact hi.starting
  settled := by rw [h.settled, h.slot]; exact hi.settled
  uncertain := by rw [h.uncertain, h.slot]; exact hi.uncertain
  live := fun ho => absurd ho h.detached.2
  handoff := by
    intro u hu
    rw [h.pc u, h.last]
    exact hi.handoff u (h.handoff_of hu)
  lock := by
    intro u hu
    rw [h.pc u] at hu
    rw [h.owner]
    exact hi.lock u hu
  cancelAt := by
    intro u n hn
    rw [h.now]
    rw [h.ops u] at hn
    split at hn
    · obtain h1 | rfl := Op.cancelled_cancelAt hn
      · exact hi.cancelAt u n h1
      · exact Nat.le_refl _
    · exact hi.cancelAt u n hn
  ops := h.opOk hi
  attempts := h.attemptsOk hi ha hpc
  late := by
    intro sp r j n hl
    rw [h.lates] at hl
    exact h.awaits r j (hi.late sp r j n hl)

/-- The cancellations that follow the detachment. -/
theorem cancelAll {u : State} (h : Detached (s.transferOperations l) u o o' [])
    (hc : ∀ v pc, (s.ops v).pc = .start pc → v ∈ s.activeOperations → v ∈ l) :
    Detached s (u.cancelAll l) o o' l := by
  obtain ⟨L, E, hL, heq⟩ := cancelAll_eq l u
  have hops : ∀ v, u.ops v = s.ops v := fun v => (h.ops v).trans (if_neg List.not_mem_nil)
  rw [heq]
  refine ⟨h.now, h.nextSpawn, h.starting, h.slot, h.settled, h.uncertain, h.lates, h.attempts,
    h.nextAttempt, h.stopTask, h.awaits, hL.trans h.owner, fun v => ?_, hc, h.live, h.published,
    h.kept⟩
  simp only [hops, h.now]
  rfl

end Detached

section

variable {s u : State} {o o' : Custody} {a : Aid}

theorem Grown.detached (hg : Grown s u)
    (hc : ∀ v pc, (s.ops v).pc = .start pc → v ∉ s.activeOperations)
    (hlive : o = .live → o'.Handed ∧ ∀ d < s.now + 3, u.MovedSpawn o' d)
    (hpub : ∀ c, o = .published c → o'.Handed ∧ ∀ d < s.now + 7, u.MovedPair o' d)
    (hkept : o ≠ .live → o.client = none → o' = o ∧
      (∀ d, s.MovedSpawn o d → u.MovedSpawn o d) ∧ ∀ d, s.MovedPair o d → u.MovedPair o d) :
    Detached s u o o' [] :=
  ⟨hg.now, hg.nextSpawn, hg.starting, hg.slot, hg.settled, hg.uncertain, hg.lates, hg.attempts,
    hg.nextAttempt, hg.stopTask, hg.awaits, by rw [hg.lock], fun v => by simp [hg.ops],
    fun v pc hpc hv => absurd hv (hc v pc hpc), hlive, hpub, hkept⟩

theorem detachOwned_live (h : s.children.Sound .live) (hslot : s.startingGeneration.isSome) :
    s.detachOwned = (s.cleared s.generation false).newRetirement none none true (some s.last)
      s.spawnCancelRequested := by
  have h1 : s.client = none := h.place.client
  have h2 : s.process = none := h.place.process
  have h3 : s.spawnTask = some s.last := h.place.spawnTask
  have hf := find_none h (by simp [Custody.Handed]) none none (some s.last)
  simp [detachOwned, hslot, h1, h2, h3, claimRetirementLocked, hf, newRetirement_eq, cleared]

theorem detachOwned_published {c : Cid} (h : s.children.Sound (.published c)) :
    s.detachOwned = (s.cleared s.generation s.spawnCancelRequested).newRetirement (some c)
      (some s.last) s.startingGeneration.isSome none s.spawnCancelRequested := by
  have h1 : s.client = some c := h.place.client
  have h2 : s.process = some s.last := h.place.process
  have h3 : s.spawnTask = none := h.place.spawnTask
  have hf := find_none h (by simp [Custody.Handed]) (some c) (some s.last) none
  simp [detachOwned, h1, h2, h3, claimRetirementLocked, hf, newRetirement_eq, cleared]

/-- Without a pair or a live spawn the detachment takes at most the startup tasks. -/
theorem detachOwned_blank (h : s.children.Sound o) (hc : o.client = none) (ho : o ≠ .live) :
    s.detachOwned = s ∨ s.detachOwned = (s.cleared s.generation s.spawnCancelRequested).newRetirement
      none none true none s.spawnCancelRequested := by
  have h1 : s.client = none := h.place.client.trans hc
  have h2 : s.process = none := by
    have : s.process = o.client.map fun _ => s.last := h.place.process
    rw [this, hc]
    rfl
  have h3 : s.spawnTask = none := by
    have : s.spawnTask = o.spawn s.last := h.place.spawnTask
    rw [this]
    cases o <;> first | rfl | exact absurd rfl ho
  have hz : s.cleared s.generation s.spawnCancelRequested = s := by
    cases s
    simp only at h1 h2 h3
    subst h1 h2 h3
    rfl
  have hf : s.retirements.find? (fun r => ownsAny (s.records r) none none none) = none :=
    List.find?_eq_none.2 fun r _ => by simp [ownsAny]
  have hclaim : s.detachOwned = ((s.cleared s.generation
      s.spawnCancelRequested).claimRetirementLocked none none s.startingGeneration.isSome none
      s.spawnCancelRequested).1 := by
    simp [detachOwned, h1, h2, h3, cleared]
  rw [hclaim, hz]
  unfold claimRetirementLocked
  split
  · exact .inl rfl
  · rename_i hcond
    simp only [Option.isNone_none, Bool.true_and, Bool.and_true, Bool.not_eq_true',
      Bool.and_eq_false_imp, not_forall, Bool.not_eq_false] at hcond
    obtain ⟨hs, -⟩ := hcond
    rw [hf, hs]
    exact .inr rfl

/-- The record that the detachment makes keeps its promises. -/
theorem newRetirement_moved (s : State) (g : Nat) (q : Bool) (client : Option Cid)
    (process : Option Sid) (w : Bool) (spawn : Option Sid) (cancel : Bool) :
    (spawn ≠ none → ∀ d < s.now + 3, ((s.cleared g q).newRetirement client process w spawn
      cancel).MovedSpawn (.record s.nextRecord) d) ∧
    (client ≠ none → ∀ d < s.now + 7, ((s.cleared g q).newRetirement client process w spawn
      cancel).MovedPair (.record s.nextRecord) d) := by
  rw [newRetirement_eq]
  constructor
  · intro hs d hd
    refine ⟨s.nextRecord, s.nextRetireTask, rfl, by simp [cleared], ?_⟩
    simpa [cleared, RetireTask.spawnHold, hs] using hd
  · intro hs d hd
    refine ⟨s.nextRecord, s.nextRetireTask, rfl, by simp [cleared], ?_⟩
    simpa [cleared, RetireTask.pairHold, hs] using hd

/-- A new record does not touch the promises of the one in custody. -/
theorem newRetirement_kept (h : s.children.Sound o) (g : Nat) (q : Bool) (client : Option Cid)
    (process : Option Sid) (w : Bool) (spawn : Option Sid) (cancel : Bool) :
    (∀ d, s.MovedSpawn o d →
      ((s.cleared g q).newRetirement client process w spawn cancel).MovedSpawn o d) ∧
    (∀ d, s.MovedPair o d →
      ((s.cleared g q).newRetirement client process w spawn cancel).MovedPair o d) := by
  have hold : ∀ r j, o = .record r → (s.records r).task = some j →
      r ≠ s.nextRecord ∧ j ≠ s.nextRetireTask := by
    rintro r j rfl hj
    obtain ⟨i, h1, h2, -⟩ := (h.records r h.current_lt).task
    obtain rfl : j = i := Option.some.inj (hj.symm.trans h1)
    exact ⟨Nat.ne_of_lt h.current_lt, Nat.ne_of_lt h2⟩
  rw [newRetirement_eq]
  constructor
  · rintro d ⟨r, j, ho, hj, hd⟩
    obtain ⟨h1, h2⟩ := hold r j ho hj
    exact ⟨r, j, ho, by simpa [cleared, h1] using hj, by simpa [cleared, h1, h2] using hd⟩
  · rintro d ⟨r, j, ho, hj, hd⟩
    obtain ⟨h1, h2⟩ := hold r j ho hj
    exact ⟨r, j, ho, by simpa [cleared, h1] using hj, by simpa [cleared, h1, h2] using hd⟩

theorem detachOwned_detached (h : s.children.Sound o)
    (hl : o = .live → s.startingGeneration ≠ none)
    (hc : ∀ v pc, (s.ops v).pc = .start pc → v ∉ s.activeOperations) :
    ∃ o', s.detachOwned.children.Sound o' ∧ Detached s s.detachOwned o o' [] := by
  by_cases hlive : o = .live
  · subst hlive
    rw [detachOwned_live h (Option.isSome_iff_ne_none.2 (hl rfl))]
    refine ⟨_, newRetirement_sound h (by simp [Custody.Handed]) _ _ _ _,
      (newRetirement_grown s _ _ _ _ _ _ _).detached hc (fun _ => ⟨trivial, ?_⟩) (by simp) (by simp)⟩
    exact (newRetirement_moved s _ _ _ _ _ _ _).1 (by simp)
  · cases hcl : o.client with
    | some c =>
      obtain rfl : o = .published c := by
        cases o <;> simp [Custody.client] at hcl
        rw [hcl]
      rw [detachOwned_published h]
      refine ⟨_, newRetirement_sound h (by simp [Custody.Handed]) _ _ _ _,
        (newRetirement_grown s _ _ _ _ _ _ _).detached hc (by simp) (fun _ _ => ⟨trivial, ?_⟩)
        (by simp [Custody.client])⟩
      exact (newRetirement_moved s _ _ _ _ _ _ _).2 (by simp)
    | none =>
      have hpub : ∀ c, o ≠ .published c := by
        rintro c rfl
        cases hcl
      obtain heq | heq := detachOwned_blank h hcl hlive
      · rw [heq]
        refine ⟨o, h, ⟨rfl, rfl, rfl, rfl, rfl, rfl, rfl, rfl, rfl, rfl, fun _ _ => id, rfl,
          fun _ => by simp, fun v pc hpc hv => absurd hv (hc v pc hpc),
          fun e => absurd e hlive, fun c e => absurd e (hpub c),
          fun _ _ => ⟨rfl, fun _ => id, fun _ => id⟩⟩⟩
      · have hsp : o.spawn s.last = none := by
          cases o <;> first | rfl | exact absurd rfl hlive
        rw [heq]
        refine ⟨o, ?_, (newRetirement_grown s _ _ _ _ _ _ _).detached hc
          (fun e => absurd e hlive) (fun c e => absurd e (hpub c))
          fun _ _ => ⟨rfl, newRetirement_kept h _ _ _ _ _ _ _⟩⟩
        rw [newRetirement_eq]
        exact h.claimBlank s.now hcl hsp
          (x := { spawnCancelRequested := s.spawnCancelRequested, task := some s.nextRetireTask
                  startupTasks := s.startupTasks
                  startupCancelRequested := if true && !s.startupTasks.isEmpty then
                    s.startupCancelRequested else [] }) rfl rfl

theorem takePendingTransition_eq (s : State) : ∃ config pending log,
    s.takePendingTransition =
      { s with config := config, pendingTransition := pending, transitions := log } := by
  unfold takePendingTransition
  split
  · exact ⟨s.config, s.pendingTransition, s.transitions, rfl⟩
  · exact ⟨_, _, _, rfl⟩

/-- A stop attempt takes over all that the wrapper owns. -/
theorem Inv.attemptDetach (h : Inv s o) {caller : Tid} (ha : s.stopTask = some a)
    (hlt : a < s.nextAttempt) (hpc : (s.attempts a).pc = .init caller) :
    ∃ o', Inv (s.attemptDetach caller) o' ∧ o'.client = none ∧ o' ≠ .live ∧
      (s.attemptDetach caller).stopTask = some a := by
  have h0 : Inv { s with stopping := true } o :=
    h.idle (.same rfl) h.sound rfl (.same rfl fun _ _ => rfl) (.same rfl) (fun _ _ => id) rfl
  dsimp only [State.attemptDetach]
  rw [h0.clear]
  obtain ⟨config, pending, log, heq⟩ :=
    takePendingTransition_eq { s with stopping := true, generation := s.generation + 1 }
  rw [heq]
  have h1 : Inv { s with stopping := true, generation := s.generation + 1, config := config
                         pendingTransition := pending, transitions := log } o :=
    h.idle (.same rfl) h.sound rfl (.same rfl fun _ _ => rfl) (.same rfl) (fun _ _ => id) rfl
  generalize hw : { s with stopping := true, generation := s.generation + 1, config := config
                           pendingTransition := pending, transitions := log } = w at h1
  have hops : w.ops = s.ops := by rw [← hw]
  have hst : w.stopTask = some a := by rw [← hw]; exact ha
  have hwpc : (w.attempts a).pc = .init caller := by rw [← hw]; exact hpc
  have hcaller : ∃ m c, (w.ops caller).pc = .stopping a m c := by
    have := (h.attempts.attempt a hlt).2
    simp only [AttemptOk, hpc] at this
    rw [hops]
    exact this
  -- A start that is registered is not the caller of `stop()`, so it is taken over.
  have hc : ∀ v pc, (w.ops v).pc = .start pc → v ∈ w.activeOperations →
      v ∈ w.activeOperations.filter (fun t => t ≠ caller && !w.opDone t) := by
    intro v pc hv hmem
    have hne : v ≠ caller := by
      rintro rfl
      obtain ⟨m, c, hm⟩ := hcaller
      rw [hm] at hv
      cases hv
    simp [hmem, hne, opDone, hv]
  have hc' : ∀ v pc, ((w.transferOperations (w.activeOperations.filter
      (fun t => t ≠ caller && !w.opDone t))).ops v).pc = .start pc →
      v ∉ (w.transferOperations (w.activeOperations.filter
        (fun t => t ≠ caller && !w.opDone t))).activeOperations := by
    intro v pc hv hmem
    obtain ⟨h2, h3⟩ := List.mem_filter.1 hmem
    exact of_decide_eq_true h3 (hc v pc hv h2)
  obtain ⟨o', hs, hd⟩ := detachOwned_detached (s := w.transferOperations _) (o := o) h1.sound
    h1.live hc'
  have hd' := hd.cancelAll hc
  refine ⟨o', hd'.inv h1 ?_ hst hwpc, hd'.detached.1, hd'.detached.2, hd'.stopTask.trans hst⟩
  obtain ⟨L, E, -, heq'⟩ := cancelAll_eq (w.activeOperations.filter
    (fun t => t ≠ caller && !w.opDone t)) (w.transferOperations (w.activeOperations.filter
    (fun t => t ≠ caller && !w.opDone t))).detachOwned
  rw [heq']
  exact hs

theorem Inv.attemptBegin (h : Inv s o) {caller : Tid} (ha : s.stopTask = some a)
    (hlt : a < s.nextAttempt) (hpc : (s.attempts a).pc = .init caller) :
    ∃ o', Inv (s.attemptBegin a caller) o' := by
  obtain ⟨o', h', hc, hl, hst⟩ := h.attemptDetach ha hlt hpc
  dsimp only [State.attemptBegin]
  split
  · rename_i hslot
    exact h'.attemptReap hst (h'.handed hc hl hslot) hslot
  · rename_i g hg
    split
    · rename_i hset
      rw [h'.settled, hg] at hset
      cases hset
    · refine ⟨o', h'.attemptSuspend hst ?_⟩
      simp only [AttemptOk, State.attemptSuspend, State.setAttempt, Function.update_self]
      exact ⟨hc, hl, .inr hg⟩

/-- A stop attempt runs from one await to the next. -/
theorem Inv.attempt {s' : State} (h : Inv s o) {timedOut : Bool}
    (hs : s.runAttempt a timedOut = some s') : ∃ o', Inv s' o' := by
  dsimp only [runAttempt] at hs
  split at hs
  · rename_i hlt
    have hok := (h.attempts.attempt a hlt).2
    have hst : (∀ b, (s.attempts a).pc ≠ .done b) → s.stopTask = some a :=
      h.attempts.unfinished a hlt
    unfold AttemptOk at hok
    cases hpc : (s.attempts a).pc with
    | init caller =>
      simp only [hpc] at hs hst
      split at hs
      · cases hs
        simp only [runStopAttempt, hpc]
        exact h.attemptBegin (hst (by simp)) hlt hpc
      · cases hs
    | settle second g =>
      simp only [hpc] at hs hst hok
      split at hs
      · cases hs
        obtain ⟨hc, hl, hg⟩ := hok
        have hset : (!timedOut && s.startIsSettledLocked g) = true →
            s.startingGeneration = none := by
          intro hb
          rw [h.settledLocked] at hb
          simp only [Bool.and_eq_true, Option.isNone_iff_eq_none] at hb
          exact hb.2
        cases second with
        | false =>
          simp only [runStopAttempt, hpc]
          exact h.attemptSettled (hst (by simp)) hc hl hg hset
        | true =>
          simp only [runStopAttempt, hpc]
          exact h.attemptSettledTwice (hst (by simp)) hc hl hset
      · cases hs
    | reap r j todo retired =>
      simp only [hpc] at hs hst hok
      split at hs
      · cases hs
        obtain ⟨ho, hslot, haw, htodo, hret⟩ := hok
        simp only [runStopAttempt, hpc]
        split
        · rename_i b hb
          refine h.attemptJoin (hst (by simp)) ho hslot todo _ htodo fun q hq => ?_
          cases b with
          | false => exact hret q (by simpa using hq)
          | true =>
            simp only [if_true, List.mem_append, List.mem_singleton] at hq
            obtain hq | rfl := hq
            · exact hret q hq
            · exact haw.retired hb
        · exact ⟨o, h⟩
      · cases hs
    | observe b ops =>
      simp only [hpc] at hs hst hok
      split at hs
      · cases hs
        obtain ⟨ho, hslot, hrel⟩ := hok
        simp only [runStopAttempt, hpc]
        refine ⟨o, h.prune.attemptReturn (hst (by simp)) fun hb => ⟨hrel ?_, hslot⟩⟩
        simp only [Bool.and_eq_true] at hb
        exact hb.1
      · cases hs
    | done b => simp [hpc] at hs
  · cases hs

end

end State

end KestrelSdk.Subprocess

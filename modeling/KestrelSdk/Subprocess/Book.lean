import KestrelSdk.Subprocess.Run

namespace KestrelSdk.Subprocess

open Asyncio

/-- The part of the state that says which calls are where and what has become of them. -/
structure Book where
  issued : Option Sid
  ended : Option Ended
  config : Cfg
  pending : Option Pending
  transitions : Nat → TransitionLog
  nextCall : Nat
  pcs : Tid → OpPc

/-- The caller `t` moves to `pc`. -/
def Book.move (b : Book) (t : Tid) (pc : OpPc) : Book :=
  { b with pcs := Function.update b.pcs t pc }

namespace State

def book (s : State) : Book :=
  ⟨s.issued, s.ended, s.config, s.pendingTransition, s.transitions, s.nextCall,
    fun t => (s.ops t).pc⟩

section Frame

variable (s : State)

@[simp] theorem book_setOp (t : Tid) (x : Op) : (s.setOp t x).book = s.book.move t x.pc := by
  have : (fun u => (Function.update s.ops t x u).pc) =
      Function.update (fun u => (s.ops u).pc) t x.pc := by
    funext u
    by_cases hu : u = t
    · subst hu
      simp
    · simp [hu]
  simp [book, setOp, Book.move, this]

@[simp] theorem book_suspend (t : Tid) (pc : OpPc) :
    (s.suspend t pc).book = s.book.move t pc := by
  simp [suspend]

@[simp] theorem book_leave (t : Tid) (e : Exit) :
    (s.leave t e).book = s.book.move t (.unregistering e (.pending s.now)) := by
  rw [leave, book_suspend]
  rfl

@[simp] theorem book_endCall (t : Tid) (e : Ended) :
    (s.endCall t e).book = { s.book.move t .idle with ended := some e } := by
  have h := s.book_setOp t {}
  simp only [endCall, book, Book.move, setOp, Book.mk.injEq, true_and] at h ⊢
  exact h

@[simp] theorem book_cancelOp (t : Tid) : (s.cancelOp t).book = s.book := by
  obtain ⟨L, -, heq⟩ := cancelOp_eq s t
  rw [heq]
  simp only [book, Book.mk.injEq, true_and]
  funext u
  by_cases hu : u = t
  · subst hu
    simp
  · simp [hu]

@[simp] theorem book_clear : s.clearSettledStartUncertaintyLocked.book = s.book := by
  unfold clearSettledStartUncertaintyLocked
  split
  · split <;> rfl
  · rfl

@[simp] theorem book_register (t : Tid) : (s.registerOperation t).1.book = s.book := by
  dsimp only [registerOperation]
  split
  · rfl
  · split <;> rfl

@[simp] theorem book_remove (r : Rid) : (s.removeRetirementIfCompleteLocked r).1.book = s.book := by
  obtain ⟨l, hl⟩ := removeRetirement_eq s r
  rw [hl]
  rfl

theorem book_soft {s s' : State} {r : Rid} (h : Soft s s' r) : s'.book = s.book := by
  obtain ⟨x, E, rfl, -⟩ := h
  rfl

@[simp] theorem book_claim (client : Option Cid) (process : Option Sid) (w : Bool)
    (spawn : Option Sid) (cancel : Bool) :
    (s.claimRetirementLocked client process w spawn cancel).1.book = s.book := by
  unfold claimRetirementLocked
  split
  · rfl
  · split
    · rename_i r _
      obtain ⟨x, A, B, heq, -⟩ := adoptStartup_eq s r w
      simp only [heq]
      dsimp only [attachSpawn]
      split <;> rfl
    · simp only [newRetirement_eq]
      rfl

@[simp] theorem book_cancelSpawnOnce (sp : Sid) : (s.cancelSpawnOnce sp).book = s.book := by
  obtain ⟨b, E, he⟩ | ⟨r, hr⟩ := cancelSpawnOnce_eq s sp
  · rw [he]
    rfl
  · exact book_soft hr

@[simp] theorem book_cancelStartupTaskOnce (k : Kid) :
    (s.cancelStartupTaskOnce k).book = s.book := by
  obtain ⟨b, E, he⟩ | ⟨r, hr⟩ := cancelStartupTaskOnce_eq s k
  · rw [he]
    rfl
  · exact book_soft hr

@[simp] theorem book_retireChild (j : Jid) : (s.retireChild j).book = s.book := by
  rw [(retireChild_confined s j).same]
  rfl

@[simp] theorem book_retireStartupChild (c : Claim) :
    (s.retireStartupChild c).1.book = s.book := by
  dsimp only [retireStartupChild]
  generalize hs1 : (if ((c.client.isSome || c.process.isSome) && decide (s.client = c.client) &&
      decide (s.process = c.process)) = true then
      { s with client := none, process := none, generation := s.generation + 1 } else s) = s1
  have h1 : s1.book = s.book := by
    rw [← hs1]
    split <;> rfl
  generalize hs2 : (if s1.spawnTask = c.spawnTask then
      { s1 with spawnTask := none, spawnCancelRequested := false } else s1) = s2
  have h2 : s2.book = s.book := by
    rw [← hs2, ← h1]
    split <;> rfl
  have h3 := s2.book_claim c.client c.process true c.spawnTask
    (decide (s1.spawnTask = c.spawnTask) && s1.spawnCancelRequested)
  split
  · rename_i s3 e
    rw [e] at h3
    exact h3.trans h2
  · rename_i s3 r e
    rw [e] at h3
    split <;> exact h3.trans h2

@[simp] theorem book_retireStartupChildDone (r : Rid) (b : Bool) :
    (s.retireStartupChildDone r b).1.book = s.book := by
  unfold retireStartupChildDone
  split
  · exact s.book_remove r
  · rfl

@[simp] theorem book_finalizeStart (g : Nat) : (s.finalizeStart g).book = s.book := by
  unfold finalizeStart
  split <;> rfl

@[simp] theorem book_attemptObserve (a : Aid) (b : Bool) : (s.attemptObserve a b).book = s.book := by
  dsimp only [attemptObserve]
  split <;> rfl

theorem book_removeAll (l : List Rid) :
    (l.foldl (fun s r => (s.removeRetirementIfCompleteLocked r).1) s).book = s.book := by
  induction l generalizing s with
  | nil => rfl
  | cons r l ih => rw [List.foldl_cons, ih, book_remove]

@[simp] theorem book_attemptJoin (a : Aid) (todo retired : List Rid) :
    (s.attemptJoin a todo retired).book = s.book := by
  induction todo generalizing retired with
  | nil => simp [attemptJoin, attemptConclude, book_removeAll]
  | cons r todo ih =>
    unfold attemptJoin
    split
    · rfl
    · split
      · exact ih _
      · rfl

theorem book_retryAll (l : List Rid) : (l.foldl retryRetirement s).book = s.book := by
  induction l generalizing s with
  | nil => rfl
  | cons r l ih =>
    obtain ⟨R, T, n, heq⟩ := retryRetirement_eq s r
    rw [List.foldl_cons, ih, heq]
    rfl

@[simp] theorem book_attemptReap (a : Aid) : (s.attemptReap a).book = s.book := by
  dsimp only [attemptReap]
  split
  · rw [book_attemptObserve, book_retryAll, book_clear]
  · rw [book_attemptJoin, book_retryAll, book_clear]

@[simp] theorem book_attemptSettledTwice (a : Aid) (b : Bool) :
    (s.attemptSettledTwice a b).book = s.book := by
  unfold attemptSettledTwice
  split
  · rw [book_attemptReap, book_clear]
  · rfl

@[simp] theorem book_attemptSettled (a : Aid) (g : Nat) (b : Bool) :
    (s.attemptSettled a g b).book = s.book := by
  have key : ∀ w : State, w.book = s.book → (if w.startSettled then
      w.attemptSettledTwice a (w.startIsSettledLocked g)
      else w.attemptSuspend a (.settle true g)).book = s.book := by
    intro w hw
    split
    · rw [book_attemptSettledTwice, hw]
    · exact hw
  dsimp only [attemptSettled]
  split
  · exact s.book_attemptReap a
  · split
    · exact key _ s.book_clear
    · exact key _ rfl

theorem book_cancelAll (l : List Tid) : (s.cancelAll l).book = s.book := by
  induction l generalizing s with
  | nil => rfl
  | cons t l ih =>
    have : s.cancelAll (t :: l) = ((s.cancelOp t).log (.operationCancelled t)).cancelAll l := rfl
    rw [this, ih]
    exact s.book_cancelOp t

@[simp] theorem book_detachOwned : s.detachOwned.book = s.book := by
  dsimp only [detachOwned]
  rw [book_claim]
  split
  · split <;> rfl
  · rfl

/-- A stop attempt writes the book only by taking the pending transition. -/
theorem book_attemptDetach (caller : Tid) :
    (s.attemptDetach caller).book = s.takePendingTransition.book := by
  have h1 : { s with stopping := true }.clearSettledStartUncertaintyLocked.book = s.book := by
    rw [book_clear]
    rfl
  generalize hw : { s with stopping := true }.clearSettledStartUncertaintyLocked = w at h1
  have h2 : { w with generation := w.generation + 1 }.takePendingTransition.book =
      s.takePendingTransition.book := by
    simp only [book, Book.mk.injEq] at h1
    obtain ⟨hi, he, hc, hp, ht, hn, ho⟩ := h1
    unfold takePendingTransition
    simp only [hp]
    split <;> simp [book, setTransition, hi, he, hc, ht, hn, ho]
  have key : ∀ l : List Tid, (State.cancelAll ((({ w with
      generation := w.generation + 1 }.takePendingTransition).transferOperations l).detachOwned)
      l).book = s.takePendingTransition.book := by
    intro l
    rw [book_cancelAll, book_detachOwned]
    exact h2
  dsimp only [attemptDetach]
  rw [hw]
  exact key _

end Frame

end State

end KestrelSdk.Subprocess

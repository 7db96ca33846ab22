import Mathlib.Logic.Function.Basic

namespace KestrelSdk.Asyncio

/-- A FIFO lock. A release hands the lock to the oldest waiter at once, so a
newcomer can never overtake a queued task. -/
structure FifoLock where
  owner : Option Nat := none
  waiters : List Nat := []
  deriving DecidableEq

namespace FifoLock

/-- Take the lock, or queue. The flag tells whether the caller goes on. -/
def acquire (l : FifoLock) (t : Nat) : FifoLock × Bool :=
  match l.owner with
  | none => ({ l with owner := some t }, true)
  | some _ => ({ l with waiters := l.waiters ++ [t] }, false)

def release (l : FifoLock) : FifoLock :=
  ⟨l.waiters.head?, l.waiters.tail⟩

/-- A cancelled waiter leaves the queue; a lock already handed over stays with it. -/
def cancelWaiter (l : FifoLock) (t : Nat) : FifoLock :=
  { l with waiters := l.waiters.erase t }

theorem acquire_owner {l l' : FifoLock} {t : Nat} (h : l.acquire t = (l', true)) :
    l'.owner = some t ∧ l.owner = none := by
  unfold acquire at h
  split at h <;> grind

theorem acquire_queued {l l' : FifoLock} {t : Nat} (h : l.acquire t = (l', false)) :
    l'.owner = l.owner ∧ l.owner ≠ none := by
  unfold acquire at h
  split at h <;> grind

@[simp] theorem cancelWaiter_owner (l : FifoLock) (t : Nat) :
    (l.cancelWaiter t).owner = l.owner := rfl

end FifoLock

end KestrelSdk.Asyncio

import KestrelSdk.Asyncio.Lock
import Mathlib.Data.List.Nodup

/-! A FIFO lock as the queue of its tasks, and the tasks that stand in it. -/

namespace KestrelSdk.Asyncio

namespace FifoLock

/-- A lock by its queue, whose first task owns it. -/
def ofQueue : List Nat → FifoLock
  | [] => {}
  | i :: q => ⟨some i, q⟩

@[simp] theorem acquire_idle (i : Nat) : (ofQueue []).acquire i = (ofQueue [i], true) := rfl

theorem acquire_busy {q : List Nat} (hq : q ≠ []) (i : Nat) :
    (ofQueue q).acquire i = (ofQueue (q ++ [i]), false) := by
  cases q with
  | nil => exact absurd rfl hq
  | cons j q => rfl

@[simp] theorem release_ofQueue (i : Nat) (q : List Nat) : (ofQueue (i :: q)).release = ofQueue q := by
  cases q with
  | nil => rfl
  | cons j q => rfl

theorem owner_ofQueue (q : List Nat) : (ofQueue q).owner = q.head? := by
  cases q with
  | nil => rfl
  | cons j q => rfl

theorem release_tail (q : List Nat) : (ofQueue q).release = ofQueue q.tail := by
  cases q with
  | nil => rfl
  | cons i q => exact release_ofQueue i q

/-- A waiter that leaves keeps the order of the others. -/
theorem cancelWaiter_ofQueue (q : List Nat) (i : Nat) :
    ∃ q', (ofQueue q).cancelWaiter i = ofQueue q' ∧ q'.Sublist q := by
  cases q with
  | nil => exact ⟨[], rfl, List.Sublist.refl []⟩
  | cons j q => exact ⟨j :: q.erase i, rfl, (List.erase_sublist).cons_cons j⟩

theorem ofQueue_injective {q q' : List Nat} (h : ofQueue q = ofQueue q') : q = q' := by
  cases q with
  | nil =>
    cases q' with
    | nil => rfl
    | cons j q' => cases h
  | cons i q =>
    cases q' with
    | nil => cases h
    | cons j q' =>
      cases h
      rfl

end FifoLock

/-- A queue holds exactly the tasks whose state `waits`, and a task that `holds` is its first. -/
structure Attended {π : Type} (waits holds : π → Bool) (q : List Nat) (pc : Nat → Option π) :
    Prop where
  nodup : q.Nodup
  mem : ∀ i, i ∈ q ↔ (pc i).any waits = true
  head : ∀ i, (pc i).any holds = true → q.head? = some i

namespace Attended

variable {π : Type} {waits holds : π → Bool} {q : List Nat} {pc : Nat → Option π} {i : Nat} {p : π}

theorem not_mem_apart (h : Attended waits holds q (Function.update pc i none)) : i ∉ q := by
  rw [h.mem, Function.update_self]
  exact Bool.false_ne_true

/-- A task outside the queue. -/
theorem apart (h : Attended waits holds q pc) (hi : (pc i).any waits = false) : Attended waits holds q (Function.update pc i none) := by
  refine ⟨h.nodup, fun j => ?_, fun j hj => ?_⟩
  · by_cases hji : j = i
    · rw [hji, Function.update_self, h.mem, hi]
      exact Iff.rfl
    · rw [Function.update_of_ne hji, h.mem]
  · by_cases hji : j = i
    · rw [hji, Function.update_self] at hj
      cases hj
    · rw [Function.update_of_ne hji] at hj
      exact h.head j hj

/-- No task but the first holds. -/
theorem others (h : Attended waits holds (i :: q) pc) {j : Nat} (hj : j ≠ i) :
    (pc j).any holds = false := by
  apply Bool.eq_false_iff.2
  intro hholds
  have hhead := h.head j hholds
  exact hj (Option.some.inj hhead).symm

/-- The first task leaves. -/
theorem leave (h : Attended waits holds (i :: q) pc) :
    Attended waits holds q (Function.update pc i none) := by
  obtain ⟨hi, hq⟩ := List.nodup_cons.1 h.nodup
  refine ⟨hq, fun j => ?_, fun j hj => ?_⟩
  · by_cases hji : j = i
    · rw [hji, Function.update_self]
      exact iff_of_false hi Bool.false_ne_true
    · rw [Function.update_of_ne hji, ← h.mem, List.mem_cons, or_iff_right hji]
  · by_cases hji : j = i
    · rw [hji, Function.update_self] at hj
      cases hj
    · rw [Function.update_of_ne hji, h.others hji] at hj
      cases hj

/-- A task joins at the end, and goes on at once where nobody stands before it. -/
theorem join (h : Attended waits holds q (Function.update pc i none)) (hw : waits p = true)
    (hh : holds p = true → q = []) :
    Attended waits holds (q ++ [i]) (Function.update pc i (some p)) := by
  have hi := h.not_mem_apart
  refine ⟨?_, fun j => ?_, fun j hj => ?_⟩
  · exact List.nodup_append.2 ⟨h.nodup, List.nodup_singleton i, fun a ha b hb hab =>
      hi (List.mem_singleton.1 hb ▸ hab ▸ ha)⟩
  · by_cases hji : j = i
    · rw [hji, Function.update_self, Option.any_some, hw]
      exact iff_of_true (List.mem_append_right q List.mem_cons_self) rfl
    · have hmem := h.mem j
      rw [Function.update_of_ne hji] at hmem ⊢
      rw [List.mem_append, List.mem_singleton, or_iff_left hji, hmem]
  · by_cases hji : j = i
    · rw [hji, Function.update_self, Option.any_some] at hj
      rw [hh hj, hji]
      rfl
    · rw [Function.update_of_ne hji] at hj
      have hhead := h.head j (by rw [Function.update_of_ne hji]; exact hj)
      rw [List.head?_append, hhead]
      rfl

/-- A task stays outside the queue. -/
theorem away (h : Attended waits holds q (Function.update pc i none)) (hw : waits p = false)
    (hh : holds p = false) : Attended waits holds q (Function.update pc i (some p)) := by
  refine ⟨h.nodup, fun j => ?_, fun j hj => ?_⟩
  · by_cases hji : j = i
    · rw [hji, Function.update_self, Option.any_some, hw]
      exact iff_of_false h.not_mem_apart Bool.false_ne_true
    · have hmem := h.mem j
      rw [Function.update_of_ne hji] at hmem ⊢
      exact hmem
  · by_cases hji : j = i
    · rw [hji, Function.update_self, Option.any_some, hh] at hj
      cases hj
    · rw [Function.update_of_ne hji] at hj
      exact h.head j (by rw [Function.update_of_ne hji]; exact hj)

/-- The first task goes on. -/
theorem stay (h : Attended waits holds (i :: q) pc) (hw : waits p = true) :
    Attended waits holds (i :: q) (Function.update pc i (some p)) := by
  refine ⟨h.nodup, fun j => ?_, fun j hj => ?_⟩
  · by_cases hji : j = i
    · rw [hji, Function.update_self, Option.any_some, hw]
      exact iff_of_true List.mem_cons_self rfl
    · rw [Function.update_of_ne hji]
      exact h.mem j
  · by_cases hji : j = i
    · rw [hji]
      rfl
    · rw [Function.update_of_ne hji] at hj
      exact h.head j hj

end Attended

end KestrelSdk.Asyncio

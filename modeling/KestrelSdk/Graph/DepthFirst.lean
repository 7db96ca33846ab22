import Mathlib.Data.Finset.Card
import Mathlib.Logic.Relation

/-! Depth-first search of a directed graph, and the loop over a worklist that performs it. -/

namespace KestrelSdk.Graph

variable {α : Type}

/-- The loop over a worklist: what a vertex leads to is put in front of the list. -/
inductive Loop (next : α → Option (List α)) : List α → List α → List α → Bool → Prop where
  | done (seen : List α) : Loop next seen [] seen false
  | known {seen after todo : List α} {x : α} {halted : Bool} (hx : x ∈ seen)
      (h : Loop next seen todo after halted) : Loop next seen (x :: todo) after halted
  | halt {seen todo : List α} {x : α} (hx : x ∉ seen) (hnext : next x = none) :
      Loop next seen (x :: todo) (x :: seen) true
  | put {seen after todo ys : List α} {x : α} {halted : Bool} (hx : x ∉ seen)
      (hnext : next x = some ys) (h : Loop next (x :: seen) (ys ++ todo) after halted) :
      Loop next seen (x :: todo) after halted

variable {next : α → Option (List α)} {seen between after todo xs ys : List α} {halted : Bool}

theorem Loop.append (h : Loop next seen xs between false) (h' : Loop next between ys after halted) :
    Loop next seen (xs ++ ys) after halted := by
  generalize hfalse : false = b at h
  induction h with
  | done seen => exact h'
  | known hx _ ih => exact .known hx (ih h' hfalse)
  | halt hx hnext => contradiction
  | put hx hnext _ ih =>
    rw [List.cons_append]
    apply Loop.put hx hnext
    rw [← List.append_assoc]
    exact ih h' hfalse

theorem Loop.seen_subset (h : Loop next seen todo after halted) : seen ⊆ after := by
  induction h with
  | done seen => exact List.Subset.refl seen
  | known _ _ ih => exact ih
  | halt _ _ => exact List.subset_cons_self _ _
  | put _ _ _ ih => exact List.Subset.trans (List.subset_cons_self _ _) ih

/-- A loop that is not halted sees its worklist, and what everything that it sees leads to. -/
theorem Loop.closed (h : Loop next seen todo after false) :
    todo ⊆ after ∧ ∀ x ∈ after, x ∉ seen → ∃ ys, next x = some ys ∧ ys ⊆ after := by
  generalize hfalse : false = b at h
  induction h with
  | done seen => exact ⟨List.nil_subset _, fun x hx hnew => absurd hx hnew⟩
  | known hx h ih =>
    obtain ⟨htodo, hclosed⟩ := ih hfalse
    exact ⟨List.cons_subset.2 ⟨h.seen_subset hx, htodo⟩, hclosed⟩
  | halt hx hnext => contradiction
  | @put seen after todo ys x _ hx hnext h ih =>
    obtain ⟨htodo, hclosed⟩ := ih hfalse
    have hmem : x ∈ after := h.seen_subset List.mem_cons_self
    constructor
    · exact List.cons_subset.2 ⟨hmem, fun y hy => htodo (List.mem_append_right _ hy)⟩
    · intro y hy hnew
      by_cases hyx : y = x
      · rw [hyx]
        exact ⟨ys, hnext, fun z hz => htodo (List.mem_append_left _ hz)⟩
      · exact hclosed y hy (List.not_mem_cons_of_ne_of_not_mem hyx hnew)

/-- In a finite set that is closed under `next` the loop ends. -/
theorem exists_loop [DecidableEq α] {S : Finset α}
    (hclosed : ∀ x ∈ S, ∃ ys, next x = some ys ∧ ∀ y ∈ ys, y ∈ S) (seen : List α)
    (htodo : ∀ x ∈ todo, x ∈ S) : ∃ after, Loop next seen todo after false := by
  induction hn : (S \ seen.toFinset).card using Nat.strong_induction_on generalizing seen todo with
  | _ n ih =>
    induction todo with
    | nil => exact ⟨seen, .done seen⟩
    | cons x todo ihtodo =>
      have hxS : x ∈ S := htodo x List.mem_cons_self
      have hrest : ∀ y ∈ todo, y ∈ S := fun y hy => htodo y (List.mem_cons_of_mem _ hy)
      by_cases hx : x ∈ seen
      · obtain ⟨after, h⟩ := ihtodo hrest
        exact ⟨after, .known hx h⟩
      · obtain ⟨ys, hnext, hys⟩ := hclosed x hxS
        have hless : (S \ (x :: seen).toFinset).card < n := by
          rw [← hn]
          apply Finset.card_lt_card
          rw [List.toFinset_cons]
          constructor
          · exact Finset.sdiff_subset_sdiff (Finset.Subset.refl S) (Finset.subset_insert _ _)
          · intro hsub
            have h := hsub (Finset.mem_sdiff.2 ⟨hxS, fun h => hx (List.mem_toFinset.1 h)⟩)
            exact (Finset.mem_sdiff.1 h).2 (Finset.mem_insert_self _ _)
        have hboth : ∀ y ∈ ys ++ todo, y ∈ S := List.forall_mem_append.2 ⟨hys, hrest⟩
        obtain ⟨after, h⟩ := ih _ hless (x :: seen) hboth rfl
        exact ⟨after, .put hx hnext h⟩

end KestrelSdk.Graph

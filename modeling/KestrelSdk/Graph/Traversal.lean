import Mathlib.Data.List.Perm.Basic
import Mathlib.Logic.Relation

/-! Search of a directed graph that takes what is pending in any order. -/

namespace KestrelSdk.Graph

variable {α : Type}

/-- A search takes some pending vertex, leaves it out where it is in `seen`, and otherwise adds what
the vertex leads to. `visited` are the vertices that it did not leave out, in their order. -/
inductive Traversal (next : α → List α) : List α → List α → List α → Prop where
  | done (seen : List α) : Traversal next seen [] []
  | known {seen pending rest visited : List α} {x : α} (hp : pending.Perm (x :: rest))
      (hx : x ∈ seen) (h : Traversal next seen rest visited) : Traversal next seen pending visited
  | visit {seen pending rest visited : List α} {x : α} (hp : pending.Perm (x :: rest))
      (hx : x ∉ seen) (h : Traversal next (x :: seen) (next x ++ rest) visited) :
      Traversal next seen pending (x :: visited)

namespace Traversal

variable {next : α → List α} {seen pending visited : List α}

theorem perm {pending' : List α} (hp : pending.Perm pending')
    (h : Traversal next seen pending' visited) : Traversal next seen pending visited := by
  cases h with
  | done seen =>
    rw [hp.eq_nil]
    exact .done seen
  | known hp' hx h => exact .known (hp.trans hp') hx h
  | visit hp' hx h => exact .visit (hp.trans hp') hx h

/-- No vertex is visited twice. -/
theorem nodup (h : Traversal next seen pending visited) :
    visited.Nodup ∧ ∀ x ∈ visited, x ∉ seen := by
  induction h with
  | done seen => exact ⟨List.nodup_nil, fun x hx => absurd hx List.not_mem_nil⟩
  | known _ _ _ ih => exact ih
  | visit _ hx _ ih =>
    obtain ⟨hnodup, hnew⟩ := ih
    constructor
    · exact List.nodup_cons.2 ⟨fun hmem => hnew _ hmem List.mem_cons_self, hnodup⟩
    · intro y hy
      rcases List.mem_cons.1 hy with rfl | hy
      · exact hx
      · exact fun hseen => hnew y hy (List.mem_cons_of_mem _ hseen)

/-- What is visited is reached from what is pending. -/
theorem reached (h : Traversal next seen pending visited) :
    ∀ y ∈ visited, ∃ a ∈ pending, Relation.ReflTransGen (fun a b => b ∈ next a) a y := by
  induction h with
  | done seen => exact fun y hy => absurd hy List.not_mem_nil
  | known hp _ _ ih =>
    intro y hy
    obtain ⟨a, ha, hreach⟩ := ih y hy
    exact ⟨a, hp.mem_iff.2 (List.mem_cons_of_mem _ ha), hreach⟩
  | @visit _ _ _ _ x hp _ _ ih =>
    have hpending : x ∈ _ := hp.mem_iff.2 List.mem_cons_self
    intro y hy
    rcases List.mem_cons.1 hy with rfl | hy
    · exact ⟨y, hpending, .refl⟩
    · obtain ⟨a, ha, hreach⟩ := ih y hy
      rcases List.mem_append.1 ha with ha | ha
      · exact ⟨x, hpending, .head ha hreach⟩
      · exact ⟨a, hp.mem_iff.2 (List.mem_cons_of_mem _ ha), hreach⟩

/-- What is pending is visited or seen, and so is what a visited vertex leads to. -/
theorem closed (h : Traversal next seen pending visited) :
    (∀ x ∈ pending, x ∈ seen ∨ x ∈ visited) ∧
      ∀ x ∈ visited, ∀ y ∈ next x, y ∈ seen ∨ y ∈ visited := by
  induction h with
  | done seen =>
    exact ⟨fun x hx => absurd hx List.not_mem_nil, fun x hx => absurd hx List.not_mem_nil⟩
  | known hp hx _ ih =>
    obtain ⟨hpending, hnext⟩ := ih
    refine ⟨fun y hy => ?_, hnext⟩
    rcases List.mem_cons.1 (hp.mem_iff.1 hy) with rfl | hy
    · exact .inl hx
    · exact hpending y hy
  | @visit seen _ _ visited x hp _ _ ih =>
    obtain ⟨hpending, hnext⟩ := ih
    have hmove : ∀ y, y ∈ x :: seen ∨ y ∈ visited → y ∈ seen ∨ y ∈ x :: visited := by
      intro y hy
      simp only [List.mem_cons] at hy ⊢
      rcases hy with (hy | hy) | hy
      · exact .inr (.inl hy)
      · exact .inl hy
      · exact .inr (.inr hy)
    constructor
    · intro y hy
      rcases List.mem_cons.1 (hp.mem_iff.1 hy) with rfl | hy
      · exact .inr List.mem_cons_self
      · exact hmove y (hpending y (List.mem_append_right _ hy))
    · intro y hy z hz
      rcases List.mem_cons.1 hy with rfl | hy
      · exact hmove z (hpending z (List.mem_append_left _ hz))
      · exact hmove z (hnext y hy z hz)

/-- Whatever its order, a search visits exactly what is reached from its first vertices. -/
theorem mem_iff (h : Traversal next [] pending visited) (y : α) :
    y ∈ visited ↔ ∃ a ∈ pending, Relation.ReflTransGen (fun a b => b ∈ next a) a y := by
  obtain ⟨hpending, hnext⟩ := h.closed
  constructor
  · exact h.reached y
  · intro ⟨a, ha, hreach⟩
    induction hreach with
    | refl => exact (hpending a ha).resolve_left List.not_mem_nil
    | tail _ hlink ih => exact (hnext _ ih _ hlink).resolve_left List.not_mem_nil

end Traversal

end KestrelSdk.Graph

import Mathlib.Data.Fintype.Card
import KestrelSdk.Graph.Traversal

/-! The unknown outcomes that an exception carries in its explicit causes and group members. -/

namespace KestrelSdk.Exceptions

/-- The exceptions `ε` of a process, in their native slots. `unknown` tells the instances of
`ResourceOutcomeUnknown`, and `members` is what a `BaseExceptionGroup` holds. -/
structure ExceptionGraph (ε : Type) where
  unknown : ε → Bool
  cause : ε → Option ε
  context : ε → Option ε
  members : ε → Option (List ε)

namespace ExceptionGraph

variable {ε : Type} (g : ExceptionGraph ε)

/-- What one pass of the loop appends to `pending`, in its order. -/
def appended (current : ε) : List ε := (g.cause current).toList ++ (g.members current).getD []

/-- An explicit cause, or a member of a group. -/
def Explicit (a b : ε) : Prop :=
  g.cause a = some b ∨ ∃ members, g.members a = some members ∧ b ∈ members

/-- What an exception carries as evidence. -/
def Evident : ε → ε → Prop := Relation.ReflTransGen g.Explicit

variable {g}

theorem mem_appended (a b : ε) : b ∈ g.appended a ↔ g.Explicit a b := by
  unfold appended Explicit
  rw [List.mem_append, Option.mem_toList]
  apply or_congr Iff.rfl
  cases g.members a with
  | none => simp
  | some members => simp

theorem evident_eq :
    Relation.ReflTransGen (fun a b => b ∈ g.appended a) = Relation.ReflTransGen g.Explicit := by
  congr
  funext a b
  exact propext (mem_appended a b)

variable (g) [DecidableEq ε]

/-- The loop of `observed_outcome_unknown`; the head of `pending` is what `pop` takes. -/
def observe [Fintype ε] (pending seen observed : List ε) : List ε :=
  match pending with
  | [] => observed
  | current :: rest =>
    if current ∈ seen then observe rest seen observed
    else
      observe ((g.appended current).reverse ++ rest) (current :: seen)
        (if g.unknown current then observed ++ [current] else observed)
  termination_by ((Finset.univ.filter (· ∉ seen)).card, pending.length)
  decreasing_by
  · apply Prod.Lex.right
    exact Nat.lt_succ_self _
  · rename_i hnew
    apply Prod.Lex.left
    apply Finset.card_lt_card
    constructor
    · intro x hx
      simp only [Finset.mem_filter, Finset.mem_univ, true_and, List.mem_cons, not_or] at hx ⊢
      exact hx.2
    · intro hsub
      have hmem := hsub (Finset.mem_filter.2 ⟨Finset.mem_univ current, hnew⟩)
      exact (Finset.mem_filter.1 hmem).2 List.mem_cons_self

variable [Fintype ε]

def observedOutcomeUnknown (error : Option ε) : List ε := g.observe error.toList [] []

variable {g}

/-- The loop is a search, and keeps what it visits of the unknown outcomes. -/
theorem observe_eq (pending seen observed : List ε) :
    ∃ visited, Graph.Traversal g.appended seen pending visited ∧
      g.observe pending seen observed = observed ++ visited.filter g.unknown := by
  fun_induction observe g pending seen observed with
  | case1 seen observed => exact ⟨[], .done seen, by simp⟩
  | case2 seen observed current rest hx ih =>
    obtain ⟨visited, h, heq⟩ := ih
    exact ⟨visited, .known (List.Perm.refl _) hx h, heq⟩
  | case3 seen observed current rest hx ih =>
    obtain ⟨visited, h, heq⟩ := ih
    have hperm : ((g.appended current) ++ rest).Perm ((g.appended current).reverse ++ rest) :=
      (List.reverse_perm _).symm.append_right rest
    refine ⟨current :: visited, .visit (List.Perm.refl _) hx (h.perm hperm), ?_⟩
    rw [dite_eq_ite] at heq
    rw [heq, List.filter_cons]
    split
    · rw [List.append_assoc, List.singleton_append]
    · rfl

/-- The loop reads no context. -/
theorem observe_context (context : ε → Option ε) (pending seen observed : List ε) :
    { g with context }.observe pending seen observed = g.observe pending seen observed := by
  fun_induction observe g pending seen observed with
  | case1 seen observed => rw [observe]
  | case2 seen observed current rest hx ih => rw [observe, if_pos hx, ih]
  | case3 seen observed current rest hx ih =>
    rw [observe, if_neg hx]
    exact ih

/-- `observed_outcome_unknown` returns each unknown outcome of the explicit evidence once and
nothing else, whatever the contexts are, and in any other order it would return the same. -/
theorem observed_iff_evident (g : ExceptionGraph ε) (error : Option ε) :
    (g.observedOutcomeUnknown error).Nodup ∧
    (∀ x, x ∈ g.observedOutcomeUnknown error ↔
      g.unknown x = true ∧ ∃ e, error = some e ∧ g.Evident e x) ∧
    (∀ context : ε → Option ε,
      { g with context }.observedOutcomeUnknown error = g.observedOutcomeUnknown error) ∧
    ∀ visited, Graph.Traversal g.appended [] error.toList visited →
      (visited.filter g.unknown).Perm (g.observedOutcomeUnknown error) := by
  obtain ⟨visited, hsearch, heq⟩ := g.observe_eq error.toList [] []
  rw [List.nil_append] at heq
  have hmem : ∀ {visited : List ε}, Graph.Traversal g.appended [] error.toList visited →
      ∀ x, x ∈ visited.filter g.unknown ↔
        g.unknown x = true ∧ ∃ e, error = some e ∧ g.Evident e x := by
    intro visited hsearch x
    rw [List.mem_filter, and_comm, hsearch.mem_iff, evident_eq]
    simp only [Option.mem_toList]
    rfl
  have hnodup : ∀ {visited : List ε}, Graph.Traversal g.appended [] error.toList visited →
      (visited.filter g.unknown).Nodup := fun h => h.nodup.1.filter _
  unfold observedOutcomeUnknown
  rw [heq]
  refine ⟨hnodup hsearch, hmem hsearch, fun context => ?_, fun other hother => ?_⟩
  · rw [observe_context, heq]
  · apply (List.perm_ext_iff_of_nodup (hnodup hother) (hnodup hsearch)).2
    intro x
    rw [hmem hother, hmem hsearch]

-- a group of an outcome and its wrapper, and the group as the cause of the outcome
example : (⟨fun e => e = 1, fun e => if e = 0 then none else if e = 1 then some 0 else some 1,
    fun _ => none, fun e => if e = 0 then some [2, 1] else none⟩ :
      ExceptionGraph (Fin 3)).observedOutcomeUnknown (some 0) = [1] := by
  simp [observedOutcomeUnknown, observe, appended]

end ExceptionGraph

end KestrelSdk.Exceptions

import Mathlib.Data.Fintype.Card
import Mathlib.Data.List.Perm.Basic
import Mathlib.Data.Set.Finite.Basic
import Mathlib.Logic.Relation
import Mathlib.Order.WellFounded

namespace KestrelSdk.Greedy

variable {ν K : Type} [LinearOrder K] (nodes : List ν) (edge : ν → ν → Prop) (key : ν → K)

/-- A node whose predecessors are placed, and which is not. -/
def Ready (placed : Set ν) (v : ν) : Prop :=
  v ∈ nodes ∧ v ∉ placed ∧ ∀ u, edge u v → u ∈ placed

/-- Each node of the list is the least ready one when its turn comes. -/
def Follows (placed : Set ν) : List ν → Prop
  | [] => True
  | v :: l => Ready nodes edge placed v ∧ (∀ w, Ready nodes edge placed w → key v ≤ key w) ∧
      Follows (insert v placed) l

/-- The greedy order of all nodes. -/
def IsOrder (l : List ν) : Prop := Follows nodes edge key ∅ l ∧ ∀ v ∈ nodes, v ∈ l

def Acyclic : Prop := ∀ v, ¬ Relation.TransGen edge v v

variable {nodes edge key} {placed : Set ν} {l l' : List ν}

/-- The nodes placed after a list. -/
def after (placed : Set ν) (l : List ν) : Set ν := {v | v ∈ placed ∨ v ∈ l}

theorem after_cons (v : ν) : after placed (v :: l) = after (insert v placed) l := by
  ext w
  simp only [after, Set.mem_ofPred_eq, List.mem_cons, Set.mem_insert_iff]
  tauto

theorem follows_append :
    Follows nodes edge key placed (l ++ l') ↔
      Follows nodes edge key placed l ∧ Follows nodes edge key (after placed l) l' := by
  induction l generalizing placed with
  | nil => simp [Follows, after]
  | cons v l ih =>
    rw [List.cons_append, after_cons]
    simp only [Follows, ih]
    tauto

/-- A node takes the place it is ready for. -/
theorem Follows.at {v : ν} (h : Follows nodes edge key placed (l ++ v :: l')) :
    Ready nodes edge (after placed l) v ∧
      ∀ w, Ready nodes edge (after placed l) w → key v ≤ key w := by
  have hv := (follows_append.1 h).2
  exact ⟨hv.1, hv.2.1⟩

theorem Follows.fresh (h : Follows nodes edge key placed l) :
    l.Nodup ∧ ∀ v ∈ l, v ∈ nodes ∧ v ∉ placed := by
  induction l generalizing placed with
  | nil => simp
  | cons v l ih =>
    obtain ⟨hv, _, hl⟩ := h
    obtain ⟨hnodup, hmem⟩ := ih hl
    constructor
    · apply List.nodup_cons.2 ⟨?_, hnodup⟩
      intro hin
      exact (hmem v hin).2 (Set.mem_insert v placed)
    · intro w hw
      obtain rfl | hw := List.mem_cons.1 hw
      · exact ⟨hv.1, hv.2.1⟩
      · exact ⟨(hmem w hw).1, fun hp => (hmem w hw).2 (Set.mem_insert_of_mem v hp)⟩

theorem IsOrder.perm (h : IsOrder nodes edge key l) (hnodes : nodes.Nodup) : l.Perm nodes := by
  obtain ⟨hnodup, hmem⟩ := h.1.fresh
  apply (List.perm_ext_iff_of_nodup hnodup hnodes).2
  intro v
  exact ⟨fun hv => (hmem v hv).1, h.2 v⟩

/-- Two lists that follow the rule from one set, where neither can go on, are equal. -/
theorem Follows.unique (hkey : ∀ v ∈ nodes, ∀ w ∈ nodes, key v = key w → v = w)
    (h : Follows nodes edge key placed l) (h' : Follows nodes edge key placed l')
    (hl : ∀ v ∈ nodes, v ∈ after placed l) (hl' : ∀ v ∈ nodes, v ∈ after placed l') : l = l' := by
  induction l generalizing placed l' with
  | nil =>
    cases l' with
    | nil => rfl
    | cons w l' =>
      obtain hp | hn := hl w h'.1.1
      · exact absurd hp h'.1.2.1
      · cases hn
  | cons v l ih =>
    cases l' with
    | nil =>
      obtain hp | hn := hl' v h.1.1
      · exact absurd hp h.1.2.1
      · cases hn
    | cons w l' =>
      have hsame : v = w := by
        apply hkey v h.1.1 w h'.1.1
        exact le_antisymm (h.2.1 w h'.1) (h'.2.1 v h.1)
      subst hsame
      rw [after_cons] at hl hl'
      rw [ih h.2.2 h'.2.2 hl hl']

theorem IsOrder.unique (hkey : ∀ v ∈ nodes, ∀ w ∈ nodes, key v = key w → v = w)
    (h : IsOrder nodes edge key l) (h' : IsOrder nodes edge key l') : l = l' :=
  h.1.unique hkey h'.1 (fun v hv => .inr (h.2 v hv)) fun v hv => .inr (h'.2 v hv)

/-- No node of a set whose members all have a predecessor in it is ever placed. -/
theorem Follows.avoids {C : Set ν} (hC : ∀ v ∈ C, ∃ u ∈ C, edge u v)
    (h : Follows nodes edge key placed l) (hp : ∀ v ∈ placed, v ∉ C) :
    ∀ v ∈ after placed l, v ∉ C := by
  induction l generalizing placed with
  | nil =>
    intro v hv
    obtain hv | hv := hv
    · exact hp v hv
    · cases hv
  | cons v l ih =>
    rw [after_cons]
    apply ih h.2.2
    intro w hw hwC
    obtain rfl | hw := hw
    · obtain ⟨u, huC, hu⟩ := hC w hwC
      exact hp u (h.1.2.2 u hu) huC
    · exact hp w hw hwC

/-- The predecessors of a placed node are placed. -/
theorem Follows.closed (h : Follows nodes edge key placed l)
    (hp : ∀ v ∈ placed, ∀ u, edge u v → u ∈ placed) :
    ∀ v ∈ after placed l, ∀ u, edge u v → u ∈ after placed l := by
  induction l generalizing placed with
  | nil =>
    intro v hv u hu
    obtain hv | hv := hv
    · exact .inl (hp v hv u hu)
    · cases hv
  | cons v l ih =>
    rw [after_cons]
    apply ih h.2.2
    intro w hw u hu
    obtain rfl | hw := hw
    · exact .inr (h.1.2.2 u hu)
    · exact .inr (hp w hw u hu)

/-- The constraints of a complete order have no cycle. -/
theorem IsOrder.acyclic (h : IsOrder nodes edge key l) (hin : ∀ u v, edge u v → v ∈ nodes) :
    Acyclic edge := by
  intro v hv
  have hC : ∀ w ∈ {w | Relation.TransGen edge w w}, ∃ u ∈ {w | Relation.TransGen edge w w},
      edge u w := by
    intro w hw
    obtain ⟨u, hwu, huw⟩ := Relation.TransGen.tail'_iff.1 hw
    exact ⟨u, Relation.TransGen.head' huw hwu, huw⟩
  have hnode : v ∈ nodes := by
    obtain ⟨u, _, huv⟩ := Relation.TransGen.tail'_iff.1 hv
    exact hin u v huv
  exact h.1.avoids hC (by simp) v (.inr (h.2 v hnode)) hv

/-- Without cycles some unplaced node is ready. -/
theorem exists_ready (placed : Set ν) (hac : Acyclic edge) (hin : ∀ u v, edge u v → u ∈ nodes) {v : ν}
    (hv : v ∈ nodes) (hvp : v ∉ placed) : ∃ w, Ready nodes edge placed w := by
  let r : {u // u ∈ nodes} → {u // u ∈ nodes} → Prop :=
    fun u w => Relation.TransGen edge u.val w.val
  have : IsTrans _ r := ⟨fun _ _ _ hab hbc => Relation.TransGen.trans hab hbc⟩
  have : Std.Irrefl r := ⟨fun u => hac u.val⟩
  have : Finite {u // u ∈ nodes} := List.finite_toSet nodes
  have hwf : WellFounded r := Finite.wellFounded_of_trans_of_irrefl r
  obtain ⟨w, hw, hmin⟩ := hwf.has_min {u | u.val ∉ placed} ⟨⟨v, hv⟩, hvp⟩
  refine ⟨w.val, w.property, hw, fun u hu => ?_⟩
  by_contra hup
  exact hmin ⟨u, hin u _ hu⟩ hup (.single hu)

/-- Only the members of the node list matter. -/
theorem ready_congr {nodes' : List ν} (h : ∀ v, v ∈ nodes' ↔ v ∈ nodes) (v : ν) :
    Ready nodes' edge placed v ↔ Ready nodes edge placed v := by
  simp only [Ready, h]

theorem Follows.congr {nodes' : List ν} (h : ∀ v, v ∈ nodes' ↔ v ∈ nodes)
    (hl : Follows nodes' edge key placed l) : Follows nodes edge key placed l := by
  induction l generalizing placed with
  | nil => trivial
  | cons v l ih =>
    refine ⟨(ready_congr h v).1 hl.1, fun w hw => hl.2.1 w ((ready_congr h w).2 hw), ih hl.2.2⟩

theorem IsOrder.congr {nodes' : List ν} (h : ∀ v, v ∈ nodes' ↔ v ∈ nodes)
    (hl : IsOrder nodes' edge key l) : IsOrder nodes edge key l :=
  ⟨hl.1.congr h, fun v hv => hl.2 v ((h v).2 hv)⟩

end KestrelSdk.Greedy

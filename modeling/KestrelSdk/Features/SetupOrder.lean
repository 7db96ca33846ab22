import KestrelSdk.Features.Setup
import KestrelSdk.Order.Greedy

namespace KestrelSdk.Features

open Json (Str)

variable {steps : Steps}

/-! Names and references. -/

theorem checkNames_ok (seen : List Str) :
    checkNames seen steps = .ok () ↔
      (steps.map (·.name)).Nodup ∧ ∀ r ∈ steps, r.name ∉ seen := by
  induction steps generalizing seen with
  | nil => simp [checkNames]
  | cons r rs ih =>
    by_cases hr : r.name ∈ seen
    · simp [checkNames, hr]
    · simp only [checkNames, if_neg hr, ih, List.map_cons, List.nodup_cons, List.mem_map,
        List.mem_cons, forall_eq_or_imp, not_or, not_exists, not_and]
      constructor
      · rintro ⟨hnodup, hseen⟩
        exact ⟨⟨fun q hq => (hseen q hq).1, hnodup⟩, hr, fun q hq => (hseen q hq).2⟩
      · rintro ⟨⟨hname, hnodup⟩, _, hseen⟩
        exact ⟨hnodup, fun q hq => ⟨hname q hq, hseen q hq⟩⟩

theorem byName_of_mem (hnodup : (steps.map (·.name)).Nodup) {r : SetupStepRegistration}
    (hr : r ∈ steps) : steps.byName r.name = some r := by
  induction steps with
  | nil => cases hr
  | cons q qs ih =>
    obtain ⟨hq, hqs⟩ := List.nodup_cons.1 hnodup
    obtain rfl | hr := List.mem_cons.1 hr
    · simp [Steps.byName]
    · have hne : q.name ≠ r.name := by
        intro heq
        exact hq (List.mem_map.2 ⟨r, hr, heq.symm⟩)
      have hrest := ih hqs hr
      unfold Steps.byName at hrest ⊢
      rw [List.find?_cons_of_neg (by simpa using hne), hrest]

theorem name_inj (hnodup : (steps.map (·.name)).Nodup) {r q : SetupStepRegistration}
    (hr : r ∈ steps) (hq : q ∈ steps) (h : r.name = q.name) : r = q := by
  have hrn := byName_of_mem hnodup hr
  rw [h, byName_of_mem hnodup hq] at hrn
  exact (Option.some.inj hrn).symm

/-- A predicate that changes at one member of a list. -/
theorem countP_change {α : Type} {l : List α} (hl : l.Nodup) {a : α} (ha : a ∈ l) {p q : α → Bool}
    (hp : p a = false) (hq : q a = true) (hsame : ∀ b ∈ l, b ≠ a → p b = q b) :
    l.countP q = l.countP p + 1 := by
  induction l with
  | nil => cases ha
  | cons b l ih =>
    obtain ⟨hb, hl⟩ := List.nodup_cons.1 hl
    obtain rfl | ha := List.mem_cons.1 ha
    · have hrest : l.countP q = l.countP p := by
        apply List.countP_congr
        intro c hc
        have hne : c ≠ a := by
          rintro rfl
          exact hb hc
        rw [hsame c (List.mem_cons_of_mem a hc) hne]
      simp [hp, hq, hrest]
    · have hne : b ≠ a := by
        rintro rfl
        exact hb ha
      have hrest := ih hl ha fun c hc => hsame c (List.mem_cons_of_mem b hc)
      rw [List.countP_cons, List.countP_cons, hrest, hsame b (List.mem_cons_self ..) hne]
      omega

/-! The constraint graph. -/

/-- Each edge is stored once and counted once. -/
structure Constraints.Counted (steps : Steps) (g : Constraints) : Prop where
  nodup : ∀ n, (g.outgoing n).Nodup
  count : ∀ m, g.indegree m = (steps.countP fun r => m ∈ g.outgoing r.name : Nat)

namespace Constraints

variable {g g' : Constraints}

theorem mem_add {source target n m : Str} :
    m ∈ (g.add source target).outgoing n ↔
      m ∈ g.outgoing n ∨ (n = source ∧ m = target) := by
  unfold add
  by_cases ht : target ∈ g.outgoing source
  · simp only [if_pos ht]
    constructor
    · exact .inl
    · rintro (h | ⟨rfl, rfl⟩)
      · exact h
      · exact ht
  · simp only [if_neg ht]
    by_cases hn : n = source
    · subst hn
      simp
    · simp [hn]

theorem Counted.empty : Counted steps empty :=
  ⟨fun _ => List.nodup_nil, fun m => by simp [Constraints.empty]⟩

theorem Counted.add (hnodup : (steps.map (·.name)).Nodup) (h : Counted steps g)
    {source : Str} (target : Str) (hs : source ∈ steps.map (·.name)) :
    Counted steps (g.add source target) := by
  by_cases ht : target ∈ g.outgoing source
  · have hsame : g.add source target = g := by simp [Constraints.add, ht]
    rw [hsame]
    exact h
  · obtain ⟨r, hr, rfl⟩ := List.mem_map.1 hs
    constructor
    · intro n
      simp only [Constraints.add, if_neg ht]
      by_cases hn : n = r.name
      · subst hn
        rw [Function.update_self]
        exact List.nodup_append.2 ⟨h.nodup _, List.nodup_singleton _, by
          intro a ha b hb hab
          rw [List.mem_singleton.1 hb] at hab
          exact ht (hab ▸ ha)⟩
      · rw [Function.update_of_ne hn]
        exact h.nodup n
    · intro m
      have hin : (g.add r.name target).indegree m =
          if m = target then g.indegree target + 1 else g.indegree m := by
        simp only [Constraints.add, if_neg ht, Function.update_apply]
      rw [hin]
      by_cases hm : m = target
      · subst hm
        rw [if_pos rfl, h.count]
        have hchange := countP_change (l := steps) (List.Nodup.of_map _ hnodup) hr
          (p := fun q => decide (m ∈ g.outgoing q.name))
          (q := fun q => decide (m ∈ (g.add r.name m).outgoing q.name)) (by simpa using ht)
          (by simp [mem_add]) (by
            intro q hq hqr
            have hne : q.name ≠ r.name := fun heq => hqr (name_inj hnodup hq hr heq)
            simp [mem_add, hne])
        rw [hchange]
        push_cast
        rfl
      · rw [if_neg hm, h.count]
        congr 1
        apply List.countP_congr
        intro q _
        simp [mem_add, hm]

/-- What the loop over the relatives of a step adds, or the name it misses. -/
theorem addRelatives_spec (hnodup : (steps.map (·.name)).Nodup) (name : Str)
    (edge : Str → Str × Str) (l : List Str) (h : Counted steps g)
    (hedge : ∀ m ∈ steps.map (·.name), (edge m).1 ∈ steps.map (·.name)) :
    (∃ g', addRelatives steps name edge g l = .ok g' ∧ (∀ m ∈ l, m ∈ steps.map (·.name)) ∧
      Counted steps g' ∧
      ∀ n m, m ∈ g'.outgoing n ↔ m ∈ g.outgoing n ∨ ∃ k ∈ l, edge k = (n, m)) ∨
    (∃ e, addRelatives steps name edge g l = .error e) ∧ ∃ m ∈ l, m ∉ steps.map (·.name) := by
  induction l generalizing g with
  | nil => exact .inl ⟨g, rfl, by simp, h, by simp⟩
  | cons t l ih =>
    by_cases ht : t ∈ steps.map (·.name)
    · have hcheck : requireSetupReference steps t name = .ok () := if_pos ht
      have hstep : addRelatives steps name edge g (t :: l) =
          addRelatives steps name edge (g.add (edge t).1 (edge t).2) l := by
        simp only [addRelatives, hcheck]
        rfl
      rw [hstep]
      obtain ⟨g', hg', hl, hc, hmem⟩ | ⟨herr, m, hm, hout⟩ :=
        ih (h.add hnodup (edge t).2 (hedge t ht))
      · refine .inl ⟨g', hg', ?_, hc, ?_⟩
        · intro m hm
          obtain rfl | hm := List.mem_cons.1 hm
          · exact ht
          · exact hl m hm
        · intro n m
          rw [hmem, mem_add]
          simp only [List.mem_cons, exists_eq_or_imp, Prod.ext_iff]
          tauto
      · exact .inr ⟨herr, m, List.mem_cons_of_mem t hm, hout⟩
    · have hcheck : requireSetupReference steps t name = .error (.unknown name t) := if_neg ht
      refine .inr ⟨⟨.unknown name t, ?_⟩, t, List.mem_cons_self .., ht⟩
      simp only [addRelatives, hcheck]
      rfl

/-- What the loop over the steps adds, or the reference it misses. -/
theorem addSteps_spec (hnodup : (steps.map (·.name)).Nodup) (rs : List SetupStepRegistration)
    (hrs : ∀ r ∈ rs, r ∈ steps) (h : Counted steps g) :
    (∃ g', addSteps steps g rs = .ok g' ∧
      (∀ r ∈ rs, ∀ m ∈ r.before ++ r.after, m ∈ steps.map (·.name)) ∧ Counted steps g' ∧
      ∀ n m, m ∈ g'.outgoing n ↔ m ∈ g.outgoing n ∨
        ∃ r ∈ rs, (r.name = n ∧ m ∈ r.before) ∨ (r.name = m ∧ n ∈ r.after)) ∨
    (∃ e, addSteps steps g rs = .error e) ∧
      ∃ r ∈ rs, ∃ m ∈ r.before ++ r.after, m ∉ steps.map (·.name) := by
  induction rs generalizing g with
  | nil => exact .inl ⟨g, rfl, by simp, h, by simp⟩
  | cons r rs ih =>
    have hr : r.name ∈ steps.map (·.name) := List.mem_map_of_mem (hrs r (List.mem_cons_self ..))
    obtain ⟨g1, hg1, hl1, hc1, hmem1⟩ | ⟨⟨e, he⟩, m, hm, hout⟩ := addRelatives_spec hnodup
      r.name (fun t => (r.name, t)) r.before h (fun _ _ => hr)
    · obtain ⟨g2, hg2, hl2, hc2, hmem2⟩ | ⟨⟨e, he⟩, m, hm, hout⟩ := addRelatives_spec hnodup
        r.name (fun d => (d, r.name)) r.after hc1 (fun m hm => hm)
      · have hstep : addSteps steps g (r :: rs) = addSteps steps g2 rs := by
          rw [addSteps, addBefore, hg1]
          show (addAfter steps g1 r >>= fun g => addSteps steps g rs) = _
          rw [addAfter, hg2]
          rfl
        rw [hstep]
        obtain ⟨g3, hg3, hl3, hc3, hmem3⟩ | ⟨herr, q, hq, hout⟩ :=
          ih (fun q hq => hrs q (List.mem_cons_of_mem r hq)) hc2
        · refine .inl ⟨g3, hg3, ?_, hc3, ?_⟩
          · intro q hq m hm
            obtain rfl | hq := List.mem_cons.1 hq
            · obtain hm | hm := List.mem_append.1 hm
              · exact hl1 m hm
              · exact hl2 m hm
            · exact hl3 q hq m hm
          · intro n m
            rw [hmem3, hmem2, hmem1]
            simp only [List.mem_cons, exists_eq_or_imp, Prod.mk.injEq]
            constructor
            · rintro (((h | ⟨k, hk, rfl, rfl⟩) | ⟨k, hk, rfl, rfl⟩) | h)
              · exact .inl h
              · exact .inr (.inl (.inl ⟨rfl, hk⟩))
              · exact .inr (.inl (.inr ⟨rfl, hk⟩))
              · exact .inr (.inr h)
            · rintro (h | (⟨rfl, hk⟩ | ⟨rfl, hk⟩) | h)
              · exact .inl (.inl (.inl h))
              · exact .inl (.inl (.inr ⟨m, hk, rfl, rfl⟩))
              · exact .inl (.inr ⟨n, hk, rfl, rfl⟩)
              · exact .inr h
        · exact .inr ⟨herr, q, List.mem_cons_of_mem r hq, hout⟩
      · refine .inr ⟨⟨e, ?_⟩, r, List.mem_cons_self .., m, List.mem_append_right _ hm, hout⟩
        rw [addSteps, addBefore, hg1]
        show (addAfter steps g1 r >>= fun g => addSteps steps g rs) = _
        rw [addAfter, he]
        rfl
    · refine .inr ⟨⟨e, ?_⟩, r, List.mem_cons_self .., m, List.mem_append_left _ hm, hout⟩
      rw [addSteps, addBefore, he]
      rfl

end Constraints

/-- A hard constraint between two steps, declared from either end. -/
def Precedes (steps : Steps) (r q : SetupStepRegistration) : Prop :=
  r ∈ steps ∧ q ∈ steps ∧ (q.name ∈ r.before ∨ r.name ∈ q.after)

/-- Every `before` and `after` name is registered. -/
def Registered (steps : Steps) : Prop :=
  ∀ r ∈ steps, ∀ m ∈ r.before ++ r.after, m ∈ steps.map (·.name)

/-- The graph holds the constraints. -/
structure Constraints.Holds (steps : Steps) (g : Constraints) : Prop where
  counted : g.Counted steps
  edges : ∀ r ∈ steps, ∀ q ∈ steps, q.name ∈ g.outgoing r.name ↔ Precedes steps r q
  known : ∀ r ∈ steps, ∀ m ∈ g.outgoing r.name, m ∈ steps.map (·.name)

/-- The graph is built exactly when every reference is registered. -/
theorem addSteps_holds (hnodup : (steps.map (·.name)).Nodup) :
    (∃ g, Constraints.addSteps steps .empty steps = .ok g ∧ Registered steps ∧ g.Holds steps) ∨
    (∃ e, Constraints.addSteps steps .empty steps = .error e) ∧ ¬ Registered steps := by
  obtain ⟨g, hg, hreg, hc, hmem⟩ | ⟨herr, r, hr, m, hm, hout⟩ :=
    Constraints.addSteps_spec hnodup steps (fun _ h => h) Constraints.Counted.empty
  · have hin : ∀ n m, m ∈ g.outgoing n ↔
        ∃ r ∈ steps, (r.name = n ∧ m ∈ r.before) ∨ (r.name = m ∧ n ∈ r.after) := by
      intro n m
      rw [hmem]
      simp [Constraints.empty]
    refine .inl ⟨g, hg, hreg, hc, ?_, ?_⟩
    · intro r hr q hq
      rw [hin]
      constructor
      · rintro ⟨p, hp, ⟨hname, hm⟩ | ⟨hname, hm⟩⟩
        · rw [name_inj hnodup hp hr hname] at hm
          exact ⟨hr, hq, .inl hm⟩
        · rw [name_inj hnodup hp hq hname] at hm
          exact ⟨hr, hq, .inr hm⟩
      · rintro ⟨_, _, hm | hm⟩
        · exact ⟨r, hr, .inl ⟨rfl, hm⟩⟩
        · exact ⟨q, hq, .inr ⟨rfl, hm⟩⟩
    · intro r _ m hm
      obtain ⟨p, hp, ⟨_, hm⟩ | ⟨hname, _⟩⟩ := (hin r.name m).1 hm
      · exact hreg p hp m (List.mem_append_left _ hm)
      · rw [← hname]
        exact List.mem_map_of_mem hp
  · exact .inr ⟨herr, fun hreg => hout (hreg r hr m hm)⟩

/-! The loop. -/

open Sorting

section Loop

variable {g : Constraints} {s s' : Sorting}

theorem key_inj {r q : SetupStepRegistration} (h : r.key = q.key) : r.name = q.name :=
  congrArg Prod.snd (congrArg ofLex h)

/-- The steps that are placed. -/
def Sorting.placed (s : Sorting) : Set SetupStepRegistration := {r | r ∈ s.ordered}

/-- What the loop over the successors does: each loses one predecessor, and those that lost their
last one are pushed. -/
theorem release_spec (steps : Steps) {names : List Str} (hnames : names.Nodup) :
    (s.release steps names).ordered = s.ordered ∧
    (∀ m, (s.release steps names).indegree m =
      if m ∈ names then s.indegree m - 1 else s.indegree m) ∧
    (s.release steps names).ready = s.ready ++ (names.filter fun m => s.indegree m = 1).flatMap
      fun m => ((steps.byName m).map (·.key)).toList := by
  induction names generalizing s with
  | nil => simp [release]
  | cons n names ih =>
    obtain ⟨hn, hnames⟩ := List.nodup_cons.1 hnames
    have hother : ∀ m ∈ names, Function.update s.indegree n (s.indegree n - 1) m = s.indegree m := by
      intro m hm
      apply Function.update_of_ne
      rintro rfl
      exact hn hm
    have hfilter : (names.filter fun m => Function.update s.indegree n (s.indegree n - 1) m = 1) =
        names.filter fun m => s.indegree m = 1 := by
      apply List.filter_congr
      intro m hm
      rw [hother m hm]
    have hdegree : ∀ m, (if m ∈ names then Function.update s.indegree n (s.indegree n - 1) m - 1
        else Function.update s.indegree n (s.indegree n - 1) m) =
        if m ∈ n :: names then s.indegree m - 1 else s.indegree m := by
      intro m
      by_cases hmn : m = n
      · subst hmn
        simp [hn]
      · simp [hmn]
    by_cases hzero : s.indegree n - 1 = 0
    · have hone : s.indegree n = 1 := by omega
      have hstep : s.release steps (n :: names) = release steps
          { s with
            indegree := Function.update s.indegree n (s.indegree n - 1)
            ready := s.ready ++ ((steps.byName n).map (·.key)).toList } names := by
        simp [release, hzero]
      rw [hstep]
      obtain ⟨hord, hdeg, hready⟩ := ih (s := { s with
        indegree := Function.update s.indegree n (s.indegree n - 1)
        ready := s.ready ++ ((steps.byName n).map (·.key)).toList }) hnames
      refine ⟨hord, fun m => (hdeg m).trans (hdegree m), ?_⟩
      rw [hready]
      dsimp only
      rw [hfilter, List.filter_cons_of_pos (by simpa using hone), List.flatMap_cons,
        List.append_assoc]
    · have hone : ¬ s.indegree n = 1 := by omega
      have hstep : s.release steps (n :: names) = release steps
          { s with indegree := Function.update s.indegree n (s.indegree n - 1) } names := by
        simp [release, hzero]
      rw [hstep]
      obtain ⟨hord, hdeg, hready⟩ := ih (s := { s with
        indegree := Function.update s.indegree n (s.indegree n - 1) }) hnames
      refine ⟨hord, fun m => (hdeg m).trans (hdegree m), ?_⟩
      rw [hready]
      dsimp only
      rw [hfilter, List.filter_cons_of_neg (by simpa using hone)]

/-- `indegree` counts the predecessors that are not placed. -/
def Sorting.Degrees (steps : Steps) (g : Constraints) (s : Sorting) : Prop :=
  ∀ q ∈ steps, s.indegree q.name =
    (steps.countP fun r => q.name ∈ g.outgoing r.name ∧ r ∉ s.ordered : Nat)

/-- What holds between the rounds of the loop. -/
structure Sorting.Valid (steps : Steps) (g : Constraints) (s : Sorting) : Prop where
  follows : Greedy.Follows steps (Precedes steps) SetupStepRegistration.key ∅ s.ordered
  degree : s.Degrees steps g
  ready : ∀ k, k ∈ s.ready ↔ ∃ r, Greedy.Ready steps (Precedes steps) s.placed r ∧ r.key = k
  nodup : s.ready.Nodup

theorem after_ordered : Greedy.after ∅ s.ordered = s.placed := by
  ext r
  simp [Greedy.after, Sorting.placed]

/-- A step is eligible when no unplaced predecessor is counted. -/
theorem degree_zero (hg : g.Holds steps) (h : s.Degrees steps g) {q : SetupStepRegistration}
    (hq : q ∈ steps) :
    s.indegree q.name = 0 ↔ ∀ r, Precedes steps r q → r ∈ s.placed := by
  rw [h q hq]
  simp only [Int.natCast_eq_zero, List.countP_eq_zero, decide_eq_true_eq, not_and, not_not]
  constructor
  · intro hall r hr
    exact hall r hr.1 ((hg.edges r hr.1 q hq).2 hr)
  · intro hall r hr hm
    exact hall r ((hg.edges r hr q hq).1 hm)

theorem length_ordered (h : s.Valid steps g) : s.ordered.length ≤ steps.length := by
  obtain ⟨hnodup, hmem⟩ := h.follows.fresh
  exact (List.subperm_of_subset hnodup fun r hr => (hmem r hr).1).length_le

/-- What `heappop` takes. -/
theorem heappop_some {ready rest : List (Int ×ₗ Str)} {m : Int ×ₗ Str}
    (h : heappop ready = some (m, rest)) :
    m ∈ ready ∧ (∀ k ∈ ready, m ≤ k) ∧ rest = ready.erase m := by
  unfold heappop at h
  obtain ⟨m', hmin, heq⟩ := Option.map_eq_some_iff.1 h
  cases heq
  obtain ⟨hmem, hle⟩ := List.min?_eq_some_iff.1 hmin
  exact ⟨hmem, hle, rfl⟩

theorem heappop_none {ready : List (Int ×ₗ Str)} : heappop ready = none ↔ ready = [] := by
  simp [heappop]

/-- One round without the pops. -/
def Sorting.place (steps : Steps) (g : Constraints) (sets : SetOrder) (s : Sorting)
    (r : SetupStepRegistration) : Sorting :=
  release steps { s with ready := s.ready.erase r.key, ordered := s.ordered ++ [r] }
    (sets.iterate r.name (g.outgoing r.name))

/-- What a released name pushes. -/
def Steps.push (steps : Steps) (m : Str) : List (Int ×ₗ Str) :=
  ((steps.byName m).map (·.key)).toList

theorem mem_push (hnodup : (steps.map (·.name)).Nodup) {m : Str} {k : Int ×ₗ Str} :
    k ∈ steps.push m ↔ ∃ q ∈ steps, q.name = m ∧ q.key = k := by
  simp only [Steps.push, Option.mem_toList, Option.map_eq_some_iff]
  constructor
  · rintro ⟨q, hq, rfl⟩
    have hname : q.name = m := by
      have hprop := List.find?_some hq
      simpa using hprop
    exact ⟨q, List.mem_of_find?_eq_some hq, hname, rfl⟩
  · rintro ⟨q, hq, rfl, rfl⟩
    exact ⟨q, byName_of_mem hnodup hq, rfl⟩

theorem nodup_pushes (hnodup : (steps.map (·.name)).Nodup) {names : List Str}
    (hnames : names.Nodup) : (names.flatMap steps.push).Nodup := by
  apply List.nodup_flatMap.2
  constructor
  · intro m _
    unfold Steps.push
    cases (steps.byName m).map (·.key) <;> simp
  · apply hnames.imp
    intro m n hne k hm hn
    obtain ⟨q, _, rfl, rfl⟩ := (mem_push hnodup).1 hm
    obtain ⟨p, _, rfl, hkey⟩ := (mem_push hnodup).1 hn
    exact hne (key_inj hkey).symm

theorem place_spec (hg : g.Holds steps) (sets : SetOrder) (r : SetupStepRegistration) :
    (s.place steps g sets r).ordered = s.ordered ++ [r] ∧
    (∀ m, (s.place steps g sets r).indegree m =
      if m ∈ g.outgoing r.name then s.indegree m - 1 else s.indegree m) ∧
    ∃ released : List Str, released.Nodup ∧ (∀ m, m ∈ released ↔ m ∈ g.outgoing r.name ∧ s.indegree m = 1) ∧
      (s.place steps g sets r).ready = s.ready.erase r.key ++ released.flatMap steps.push := by
  have hperm := sets.perm r.name (g.outgoing r.name)
  have hnames : (sets.iterate r.name (g.outgoing r.name)).Nodup :=
    hperm.nodup_iff.2 (hg.counted.nodup r.name)
  obtain ⟨hord, hdeg, hready⟩ := release_spec steps
    (s := { s with ready := s.ready.erase r.key, ordered := s.ordered ++ [r] }) hnames
  refine ⟨hord, fun m => ?_, _, hnames.filter _, fun m => ?_, hready⟩
  · unfold Sorting.place
    rw [hdeg m]
    simp only [hperm.mem_iff]
  · simp [hperm.mem_iff]

theorem placed_append {r : SetupStepRegistration} (hord : s'.ordered = s.ordered ++ [r]) :
    s'.placed = insert r s.placed := by
  ext q
  simp only [Sorting.placed, hord, Set.mem_ofPred_eq, List.mem_append, List.mem_singleton,
    Set.mem_insert_iff]
  exact or_comm

section Round

variable (hnodup : (steps.map (·.name)).Nodup) (hg : g.Holds steps) (h : s.Valid steps g)
  (sets : SetOrder) {r : SetupStepRegistration}
  (hr : Greedy.Ready steps (Precedes steps) s.placed r)

include hnodup hg h hr in
/-- The placed step is one predecessor less for its successors. -/
theorem degrees_place : (s.place steps g sets r).Degrees steps g := by
  obtain ⟨hord, hdeg, _⟩ := place_spec (s := s) hg sets r
  intro q hq
  rw [hord, hdeg, h.degree q hq]
  by_cases hm : q.name ∈ g.outgoing r.name
  · have hchange := countP_change (l := steps) (List.Nodup.of_map _ hnodup) hr.1
      (p := fun p => decide (q.name ∈ g.outgoing p.name ∧ p ∉ s.ordered ++ [r]))
      (q := fun p => decide (q.name ∈ g.outgoing p.name ∧ p ∉ s.ordered)) (by simp)
      (by simpa using ⟨hm, hr.2.1⟩) (by
        intro p _ hpr
        simp [hpr])
    rw [if_pos hm, hchange]
    omega
  · rw [if_neg hm]
    congr 1
    apply List.countP_congr
    intro p _
    have hne : q.name ∈ g.outgoing p.name → p ≠ r := by
      rintro hp rfl
      exact hm hp
    simp only [List.mem_append, List.mem_singleton, decide_eq_true_eq]
    tauto

include hg h in
/-- A counted predecessor is not placed, and so neither is the step. -/
theorem not_placed_of_degree {q : SetupStepRegistration} (hq : q ∈ steps)
    (hone : s.indegree q.name = 1) : q ∉ s.placed := by
  intro hp
  have hclosed := h.follows.closed (by simp)
  rw [after_ordered] at hclosed
  have hzero := (degree_zero hg h.degree hq).2 (hclosed q hp)
  omega

include hnodup hg h sets hr in
/-- The steps that are eligible after a round: those that were, and the released ones. -/
theorem ready_insert {q : SetupStepRegistration} (hq : q ∈ steps) :
    Greedy.Ready steps (Precedes steps) (insert r s.placed) q ↔
      (Greedy.Ready steps (Precedes steps) s.placed q ∧ q ≠ r) ∨
        (q.name ∈ g.outgoing r.name ∧ s.indegree q.name = 1) := by
  obtain ⟨hord, hdeg, _⟩ := place_spec (s := s) hg sets r
  have hzero := degree_zero hg (degrees_place hnodup hg h sets hr) hq
  rw [placed_append hord, hdeg] at hzero
  constructor
  · rintro ⟨_, hqp, hpred⟩
    by_cases hm : q.name ∈ g.outgoing r.name
    · have hlast := hzero.2 hpred
      rw [if_pos hm] at hlast
      exact .inr ⟨hm, by omega⟩
    · refine .inl ⟨⟨hq, fun hp => hqp (.inr hp), fun p hp => ?_⟩, fun heq => hqp (.inl heq)⟩
      obtain rfl | hin := hpred p hp
      · exact absurd ((hg.edges p hp.1 q hq).2 hp) hm
      · exact hin
  · rintro (⟨hready, hne⟩ | ⟨hm, hone⟩)
    · refine ⟨hq, ?_, fun p hp => .inr (hready.2.2 p hp)⟩
      rintro (heq | hp)
      · exact hne heq
      · exact hready.2.1 hp
    · refine ⟨hq, ?_, hzero.1 (by rw [if_pos hm]; omega)⟩
      rintro (rfl | hp)
      · have hnone := (degree_zero hg h.degree hq).2 hr.2.2
        omega
      · exact not_placed_of_degree hg h hq hone hp

include hnodup hg h hr in
/-- A round keeps the invariant. -/
theorem valid_place (hleast : ∀ w, Greedy.Ready steps (Precedes steps) s.placed w → r.key ≤ w.key) :
    (s.place steps g sets r).Valid steps g := by
  obtain ⟨hord, hdeg, released, hrel, hmem, hready⟩ := place_spec (s := s) hg sets r
  have hplaced := placed_append hord
  have hkeys : ∀ k, k ∈ released.flatMap steps.push ↔
      ∃ q ∈ steps, (q.name ∈ g.outgoing r.name ∧ s.indegree q.name = 1) ∧ q.key = k := by
    intro k
    simp only [List.mem_flatMap, mem_push hnodup, hmem]
    constructor
    · rintro ⟨m, hm, q, hq, rfl, rfl⟩
      exact ⟨q, hq, hm, rfl⟩
    · rintro ⟨q, hq, hm, rfl⟩
      exact ⟨q.name, hm, q, hq, rfl, rfl⟩
  have herase : ∀ k, k ∈ s.ready.erase r.key ↔
      ∃ q, (Greedy.Ready steps (Precedes steps) s.placed q ∧ q ≠ r) ∧ q.key = k := by
    intro k
    rw [h.nodup.mem_erase_iff, h.ready]
    constructor
    · rintro ⟨hne, q, hq, rfl⟩
      exact ⟨q, ⟨hq, fun heq => hne (by rw [heq])⟩, rfl⟩
    · rintro ⟨q, ⟨hq, hne⟩, rfl⟩
      exact ⟨fun hkey => hne (name_inj hnodup hq.1 hr.1 (key_inj hkey)), q, hq, rfl⟩
  constructor
  · rw [hord]
    apply Greedy.follows_append.2 ⟨h.follows, ?_⟩
    rw [after_ordered]
    exact ⟨hr, hleast, trivial⟩
  · exact degrees_place hnodup hg h sets hr
  · intro k
    rw [hready, hplaced, List.mem_append, hkeys, herase]
    constructor
    · rintro (⟨q, hq, rfl⟩ | ⟨q, hq, hrest, rfl⟩)
      · exact ⟨q, (ready_insert hnodup hg h sets hr hq.1.1).2 (.inl hq), rfl⟩
      · exact ⟨q, (ready_insert hnodup hg h sets hr hq).2 (.inr hrest), rfl⟩
    · rintro ⟨q, hq, rfl⟩
      obtain hold | hnew := (ready_insert hnodup hg h sets hr hq.1).1 hq
      · exact .inl ⟨q, hold, rfl⟩
      · exact .inr ⟨q, hq.1, hnew, rfl⟩
  · rw [hready]
    apply List.nodup_append.2 ⟨h.nodup.erase _, nodup_pushes hnodup hrel, ?_⟩
    rintro a ha b hb rfl
    obtain ⟨p, ⟨hp, _⟩, hpk⟩ := (herase a).1 ha
    obtain ⟨q, hq, ⟨_, hone⟩, hqk⟩ := (hkeys a).1 hb
    have hsame : p = q := name_inj hnodup hp.1 hq (key_inj (hpk.trans hqk.symm))
    subst hsame
    have hzero := (degree_zero hg h.degree hq).2 hp.2.2
    omega

end Round

/-- The loop starts with the steps that nothing precedes. -/
theorem valid_start (hnodup : (steps.map (·.name)).Nodup) (hg : g.Holds steps) :
    Valid steps g
      ⟨g.indegree, (steps.filter fun r => g.indegree r.name = 0).map (·.key), []⟩ := by
  have hdeg : Degrees steps g
      ⟨g.indegree, (steps.filter fun r => g.indegree r.name = 0).map (·.key), []⟩ := by
    intro q _
    simp only [List.not_mem_nil, not_false_eq_true, and_true]
    exact hg.counted.count q.name
  constructor
  · trivial
  · exact hdeg
  · intro k
    simp only [List.mem_map, List.mem_filter, decide_eq_true_eq]
    constructor
    · rintro ⟨r, ⟨hr, hzero⟩, rfl⟩
      exact ⟨r, ⟨hr, by simp [Sorting.placed], (degree_zero hg hdeg hr).1 hzero⟩, rfl⟩
    · rintro ⟨r, hr, rfl⟩
      exact ⟨r, ⟨hr.1, (degree_zero hg hdeg hr.1).2 hr.2.2⟩, rfl⟩
  · have hsteps : (steps.filter fun r => g.indegree r.name = 0).Nodup :=
      (List.Nodup.of_map _ hnodup).filter _
    apply hsteps.map_on
    intro r hr q hq hkey
    exact name_inj hnodup (List.mem_of_mem_filter hr) (List.mem_of_mem_filter hq) (key_inj hkey)

/-- One round of the loop places the least eligible step. -/
theorem round_valid (hnodup : (steps.map (·.name)).Nodup) (hg : g.Holds steps) (sets : SetOrder)
    (h : s.Valid steps g) {m : Int ×ₗ Str} {rest : List (Int ×ₗ Str)}
    (hpop : heappop s.ready = some (m, rest)) :
    ∃ r, m = r.key ∧ rest = s.ready.erase r.key ∧ steps.byName (ofLex m).2 = some r ∧
      (s.place steps g sets r).Valid steps g ∧
      (s.place steps g sets r).ordered.length = s.ordered.length + 1 := by
  obtain ⟨hm, hle, rfl⟩ := heappop_some hpop
  obtain ⟨r, hr, rfl⟩ := (h.ready m).1 hm
  have hleast : ∀ w, Greedy.Ready steps (Precedes steps) s.placed w → r.key ≤ w.key :=
    fun w hw => hle w.key ((h.ready w.key).2 ⟨w, hw, rfl⟩)
  have hord := (place_spec (s := s) hg sets r).1
  refine ⟨r, rfl, rfl, byName_of_mem hnodup hr.1, valid_place hnodup hg h sets hr hleast, ?_⟩
  rw [hord, List.length_append]
  rfl

/-- As many rounds as steps empty the heap. -/
theorem run_valid (hnodup : (steps.map (·.name)).Nodup) (hg : g.Holds steps) (sets : SetOrder)
    (fuel : Nat) (h : s.Valid steps g) (hfuel : steps.length ≤ fuel + s.ordered.length) :
    ∃ s', run sets steps g.outgoing fuel s = some s' ∧ s'.Valid steps g ∧ s'.ready = [] := by
  induction fuel generalizing s with
  | zero =>
    unfold run
    cases hpop : heappop s.ready with
    | none => exact ⟨s, rfl, h, heappop_none.1 hpop⟩
    | some mr =>
      -- an entry is an unplaced step, and none is left
      obtain ⟨r, _, _, _, hnext, hlen⟩ := round_valid hnodup hg sets h hpop
      have hround := length_ordered hnext
      omega
  | succ fuel ih =>
    unfold run
    cases hpop : heappop s.ready with
    | none => exact ⟨s, rfl, h, heappop_none.1 hpop⟩
    | some mr =>
      obtain ⟨m, rest⟩ := mr
      obtain ⟨r, rfl, rfl, hname, hnext, hlen⟩ := round_valid hnodup hg sets h hpop
      simp only [hname]
      have hrounds : steps.length ≤ fuel + (s.place steps g sets r).ordered.length := by omega
      exact ih hnext hrounds

end Loop

/-! The order. -/

/-- Steps that have an order: unique names, registered references and no cycle of constraints. -/
structure Orderable (steps : Steps) : Prop where
  names : (steps.map (·.name)).Nodup
  registered : Registered steps
  acyclic : Greedy.Acyclic (Precedes steps)

/-- The greedy order of the steps. -/
def IsSetupOrder (steps : Steps) (l : List SetupStepRegistration) : Prop :=
  Greedy.IsOrder steps (Precedes steps) SetupStepRegistration.key l

theorem precedes_congr {steps' : Steps} (h : ∀ r, r ∈ steps' ↔ r ∈ steps) :
    Precedes steps' = Precedes steps := by
  funext r q
  simp only [Precedes, h]

theorem Orderable.perm {steps' : Steps} (hp : steps'.Perm steps) (h : Orderable steps) :
    Orderable steps' := by
  have hmem : ∀ r, r ∈ steps' ↔ r ∈ steps := fun r => hp.mem_iff
  constructor
  · exact (hp.map _).nodup_iff.2 h.names
  · intro r hr m hm
    exact (hp.map _).mem_iff.2 (h.registered r (hp.mem_iff.1 hr) m hm)
  · rw [precedes_congr hmem]
    exact h.acyclic

/-- Orderable steps get the greedy order, all others an error. -/
theorem order_spec (sets : Sorting.SetOrder) (steps : Steps) :
    (Orderable steps ∧ ∃ l, orderSetupStepRegistrations sets steps = some (.ok l) ∧
      IsSetupOrder steps l) ∨
    (¬ Orderable steps ∧ ∃ e, orderSetupStepRegistrations sets steps = some (.error e)) := by
  unfold orderSetupStepRegistrations
  cases hnames : checkNames [] steps with
  | error e =>
    refine .inr ⟨fun h => ?_, e, rfl⟩
    have hok := (checkNames_ok []).2 ⟨h.names, by simp⟩
    rw [hnames] at hok
    cases hok
  | ok u =>
    have hnodup := ((checkNames_ok []).1 hnames).1
    obtain ⟨g, hg, hreg, hholds⟩ | ⟨⟨e, he⟩, hreg⟩ := addSteps_holds hnodup
    · simp only [hg]
      obtain ⟨s, hs, hvalid, hempty⟩ := run_valid hnodup hholds sets steps.length
        (valid_start hnodup hholds) (by simp)
      simp only [hs]
      have hfollows := hvalid.follows
      obtain ⟨hfresh, hmem⟩ := hfollows.fresh
      -- nothing is eligible any more
      have hstuck : ∀ r, ¬ Greedy.Ready steps (Precedes steps) s.placed r := by
        intro r hr
        have hin := (hvalid.ready r.key).2 ⟨r, hr, rfl⟩
        rw [hempty] at hin
        cases hin
      by_cases hlen : s.ordered.length = steps.length
      · have hperm : s.ordered.Perm steps :=
          (List.subperm_of_subset hfresh fun r hr => (hmem r hr).1).perm_of_length_le hlen.ge
        have horder : IsSetupOrder steps s.ordered := ⟨hfollows, fun r hr => hperm.mem_iff.2 hr⟩
        refine .inl ⟨⟨hnodup, hreg, horder.acyclic fun _ _ h => h.2.1⟩, s.ordered, ?_, horder⟩
        simp [hlen]
      · refine .inr ⟨fun h => hlen ?_, .cycle, by simp [hlen]⟩
        have hall : ∀ r ∈ steps, r ∈ s.ordered := by
          intro r hr
          by_contra hrp
          obtain ⟨w, hw⟩ := Greedy.exists_ready s.placed h.acyclic
            (fun _ _ h => h.1) hr hrp
          exact hstuck w hw
        have hnodup' := List.Nodup.of_map _ hnodup
        exact Nat.le_antisymm (length_ordered hvalid)
          (List.subperm_of_subset hnodup' hall).length_le
    · simp only [he]
      exact .inr ⟨fun h => hreg h.registered, e, rfl⟩

theorem IsSetupOrder.unique (hnames : (steps.map (·.name)).Nodup)
    {l l' : List SetupStepRegistration} (h : IsSetupOrder steps l) (h' : IsSetupOrder steps l') :
    l = l' :=
  Greedy.IsOrder.unique (fun _ hr _ hq hkey => name_inj hnames hr hq (key_inj hkey)) h h'

/-- The order exists exactly for orderable steps. It permutes them, keeps every constraint, places
the least eligible step each time, and depends neither on the order of the input nor on the
iteration order of the sets. -/
theorem order_setup_step_registrations (sets : Sorting.SetOrder) (steps : Steps) :
    ((∃ l, orderSetupStepRegistrations sets steps = some (.ok l)) ↔ Orderable steps) ∧
    (¬ Orderable steps → ∃ e, orderSetupStepRegistrations sets steps = some (.error e)) ∧
    ∀ l, orderSetupStepRegistrations sets steps = some (.ok l) →
      l.Perm steps ∧
      (∀ xs r ys, l = xs ++ r :: ys →
        (∀ q ∈ steps, r.name ∈ q.before ∨ q.name ∈ r.after → q ∈ xs) ∧
        ∀ w ∈ steps, w ∉ xs → (∀ q ∈ steps, w.name ∈ q.before ∨ q.name ∈ w.after → q ∈ xs) →
          r.key ≤ w.key) ∧
      ∀ sets' steps', steps'.Perm steps → orderSetupStepRegistrations sets' steps' = some (.ok l) := by
  obtain ⟨hord, l, hl, hgreedy⟩ | ⟨hord, e, he⟩ := order_spec sets steps
  · refine ⟨⟨fun _ => hord, fun _ => ⟨l, hl⟩⟩, fun h => absurd hord h, fun l' hl' => ?_⟩
    have hsame : l = l' := by
      rw [hl] at hl'
      exact Except.ok.inj (Option.some.inj hl')
    subst hsame
    refine ⟨hgreedy.perm (List.Nodup.of_map _ hord.names), ?_, ?_⟩
    · rintro xs r ys rfl
      obtain ⟨hready, hleast⟩ := hgreedy.1.at
      have hafter : ∀ q, q ∈ Greedy.after ∅ xs ↔ q ∈ xs := by
        intro q
        simp [Greedy.after]
      constructor
      · intro q hq hrel
        exact (hafter q).1 (hready.2.2 q ⟨hq, hready.1, hrel⟩)
      · intro w hw hwx hpred
        exact hleast w ⟨hw, fun h => hwx ((hafter w).1 h),
          fun q hq => (hafter q).2 (hpred q hq.1 hq.2.2)⟩
    · intro sets' steps' hp
      obtain ⟨_, l', hl', hgreedy'⟩ | ⟨hno, _⟩ := order_spec sets' steps'
      · have hmem : ∀ r, r ∈ steps' ↔ r ∈ steps := fun r => hp.mem_iff
        have hcongr : IsSetupOrder steps l' := by
          unfold IsSetupOrder at hgreedy' ⊢
          rw [precedes_congr hmem] at hgreedy'
          exact hgreedy'.congr hmem
        rw [hl', hgreedy.unique hord.names hcongr]
      · exact absurd (hord.perm hp) hno
  · have hnone : ∀ l, orderSetupStepRegistrations sets steps ≠ some (.ok l) := by
      intro l hl
      rw [he] at hl
      cases hl
    exact ⟨iff_of_false (not_exists.2 hnone) hord, fun _ => ⟨e, he⟩,
      fun l hl => absurd hl (hnone l)⟩

end KestrelSdk.Features

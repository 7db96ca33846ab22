import Mathlib.Data.List.Basic
import Mathlib.Tactic.Common

/-! Regular expressions with groups, matched by backtracking. -/

namespace KestrelSdk.Regex

universe v

inductive Pattern (α : Type v) where
  | empty
  | chars (p : α → Bool)
  | seq (a b : Pattern α)
  | alt (a b : Pattern α)
  | star (a : Pattern α)
  | group (n : Nat) (a : Pattern α)

/-- What the groups took, in the order in which they closed. -/
abbrev Captures (α : Type v) := List (Nat × List α)

variable {α : Type v}

/-- The text of a group, as it closed last. -/
def Captures.group (c : Captures α) (n : Nat) : Option (List α) := c.reverse.lookup n

namespace Pattern

/-- `a?`. -/
def opt (a : Pattern α) : Pattern α := .alt a .empty

/-- `a+`. -/
def plus (a : Pattern α) : Pattern α := .seq a (.star a)

/-- The repetitions of a step that consumes, the longest first. -/
def repeated (step : List α → List (List α × Captures α)) : Nat → List α →
    List (List α × Captures α)
  | 0, s => [(s, [])]
  | n + 1, s =>
    ((step s).filter fun w => w.1.length < s.length).flatMap (fun w =>
      (repeated step n w.1).map fun v => (v.1, w.2 ++ v.2)) ++ [(s, [])]

/-- The ways to match a beginning of a text, in the order in which they are tried: what is left of
the text, and the groups. -/
def ways : Pattern α → List α → List (List α × Captures α)
  | .empty, s => [(s, [])]
  | .chars _, [] => []
  | .chars p, c :: s => if p c then [(s, [])] else []
  | .seq a b, s => (ways a s).flatMap fun w => (ways b w.1).map fun v => (v.1, w.2 ++ v.2)
  | .alt a b, s => ways a s ++ ways b s
  | .star a, s => repeated (ways a) s.length s
  | .group n a, s => (ways a s).map fun w => (w.1, w.2 ++ [(n, s.take (s.length - w.1.length))])

/-- `fullmatch`: the first way that leaves nothing. -/
def fullmatch (r : Pattern α) (s : List α) : Option (Captures α) :=
  ((r.ways s).find? fun w => w.1.isEmpty).map Prod.snd

/-- What a pattern matches, with the groups. A repetition takes no empty text. -/
inductive Matches : Pattern α → List α → Captures α → Prop where
  | empty : Matches .empty [] []
  | chars {p : α → Bool} {c : α} (h : p c = true) : Matches (.chars p) [c] []
  | seq {a b : Pattern α} {s t : List α} {c d : Captures α} (ha : Matches a s c)
      (hb : Matches b t d) : Matches (.seq a b) (s ++ t) (c ++ d)
  | left {a b : Pattern α} {s : List α} {c : Captures α} (ha : Matches a s c) :
      Matches (.alt a b) s c
  | right {a b : Pattern α} {s : List α} {c : Captures α} (hb : Matches b s c) :
      Matches (.alt a b) s c
  | stop {a : Pattern α} : Matches (.star a) [] []
  | more {a : Pattern α} {s t : List α} {c d : Captures α} (ha : Matches a s c) (hs : s ≠ [])
      (hrest : Matches (.star a) t d) : Matches (.star a) (s ++ t) (c ++ d)
  | group {n : Nat} {a : Pattern α} {s : List α} {c : Captures α} (ha : Matches a s c) :
      Matches (.group n a) s (c ++ [(n, s)])

section Inversions

variable {a b : Pattern α} {s : List α} {c : Captures α}

theorem matches_empty_iff : Matches .empty s c ↔ s = [] ∧ c = [] := by
  constructor
  · intro h
    cases h
    exact ⟨rfl, rfl⟩
  · rintro ⟨rfl, rfl⟩
    exact .empty

theorem matches_chars_iff {p : α → Bool} :
    Matches (.chars p) s c ↔ (∃ x, p x = true ∧ s = [x]) ∧ c = [] := by
  constructor
  · intro h
    cases h with
    | chars hp => exact ⟨⟨_, hp, rfl⟩, rfl⟩
  · rintro ⟨⟨x, hp, rfl⟩, rfl⟩
    exact .chars hp

theorem matches_seq_iff : Matches (.seq a b) s c ↔
    ∃ s₁ s₂ c₁ c₂, s = s₁ ++ s₂ ∧ c = c₁ ++ c₂ ∧ Matches a s₁ c₁ ∧ Matches b s₂ c₂ := by
  constructor
  · intro h
    cases h with
    | seq ha hb => exact ⟨_, _, _, _, rfl, rfl, ha, hb⟩
  · rintro ⟨s₁, s₂, c₁, c₂, rfl, rfl, ha, hb⟩
    exact .seq ha hb

theorem matches_alt_iff : Matches (.alt a b) s c ↔ Matches a s c ∨ Matches b s c := by
  constructor
  · intro h
    cases h with
    | left ha => exact .inl ha
    | right hb => exact .inr hb
  · rintro (ha | hb)
    · exact .left ha
    · exact .right hb

theorem matches_star_iff : Matches (.star a) s c ↔ (s = [] ∧ c = []) ∨
    ∃ s₁ s₂ c₁ c₂, s₁ ≠ [] ∧ s = s₁ ++ s₂ ∧ c = c₁ ++ c₂ ∧ Matches a s₁ c₁ ∧
      Matches (.star a) s₂ c₂ := by
  constructor
  · intro h
    cases h with
    | stop => exact .inl ⟨rfl, rfl⟩
    | more ha hs hrest => exact .inr ⟨_, _, _, _, hs, rfl, rfl, ha, hrest⟩
  · rintro (⟨rfl, rfl⟩ | ⟨s₁, s₂, c₁, c₂, hs, rfl, rfl, ha, hrest⟩)
    · exact .stop
    · exact .more ha hs hrest

theorem matches_group_iff {n : Nat} :
    Matches (.group n a) s c ↔ ∃ d, Matches a s d ∧ c = d ++ [(n, s)] := by
  constructor
  · intro h
    cases h with
    | group ha => exact ⟨_, ha, rfl⟩
  · rintro ⟨d, ha, rfl⟩
    exact .group ha

theorem matches_opt_iff : Matches (opt a) s c ↔ Matches a s c ∨ s = [] ∧ c = [] := by
  rw [opt, matches_alt_iff, matches_empty_iff]

end Inversions

/-- A repetition that may take as many steps as the text is long finds what the star matches. -/
theorem mem_repeated {a : Pattern α} {step : List α → List (List α × Captures α)}
    (hstep : ∀ s rest c, (rest, c) ∈ step s ↔ ∃ t, s = t ++ rest ∧ Matches a t c) (n : Nat)
    {s rest : List α} {c : Captures α} (hn : s.length ≤ n) :
    (rest, c) ∈ repeated step n s ↔ ∃ t, s = t ++ rest ∧ Matches (.star a) t c := by
  induction n generalizing s rest c with
  | zero =>
    obtain rfl := List.length_eq_zero_iff.1 (Nat.le_zero.1 hn)
    rw [repeated, List.mem_singleton, Prod.mk.injEq]
    constructor
    · rintro ⟨rfl, rfl⟩
      exact ⟨[], rfl, .stop⟩
    · rintro ⟨t, ht, hm⟩
      obtain ⟨rfl, rfl⟩ := List.append_eq_nil_iff.1 ht.symm
      rcases matches_star_iff.1 hm with ⟨-, hc⟩ | ⟨s₁, s₂, c₁, c₂, hs, happ, -⟩
      · exact ⟨rfl, hc⟩
      · exact absurd (List.append_eq_nil_iff.1 happ.symm).1 hs
  | succ n ih =>
    rw [repeated, List.mem_append, List.mem_singleton, Prod.mk.injEq]
    constructor
    · rintro (h | ⟨rfl, rfl⟩)
      · obtain ⟨⟨mid, c₁⟩, hmid, hrest⟩ := List.mem_flatMap.1 h
        obtain ⟨hway, hlt⟩ := List.mem_filter.1 hmid
        obtain ⟨⟨r, c₂⟩, hr, heq⟩ := List.mem_map.1 hrest
        obtain ⟨rfl, rfl⟩ := Prod.mk.inj heq
        have hshort : mid.length < s.length := of_decide_eq_true hlt
        obtain ⟨t₁, hs₁, h₁⟩ := (hstep s mid c₁).1 hway
        have hmidn : mid.length ≤ n := by omega
        obtain ⟨t₂, hs₂, h₂⟩ := (ih hmidn).1 hr
        have hne : t₁ ≠ [] := by
          intro hnil
          rw [hs₁, hnil, List.nil_append] at hshort
          omega
        have htext : mid = t₂ ++ r := hs₂
        exact ⟨t₁ ++ t₂, by rw [hs₁, htext, List.append_assoc], .more h₁ hne h₂⟩
      · exact ⟨[], rfl, .stop⟩
    · rintro ⟨t, hs, hm⟩
      rcases matches_star_iff.1 hm with ⟨rfl, hc⟩ | ⟨t₁, t₂, c₁, c₂, hne, rfl, rfl, h₁, h₂⟩
      · exact .inr ⟨hs.symm, hc⟩
      · apply Or.inl
        rw [List.append_assoc] at hs
        have hpos := List.length_pos_iff.2 hne
        have hlen := congrArg List.length hs
        rw [List.length_append] at hlen
        have hway := (hstep s (t₂ ++ rest) c₁).2 ⟨t₁, hs, h₁⟩
        have hshort : (t₂ ++ rest).length < s.length := by omega
        have hmidn : (t₂ ++ rest).length ≤ n := by omega
        have hrest := (ih hmidn).2 ⟨t₂, rfl, h₂⟩
        exact List.mem_flatMap.2 ⟨_, List.mem_filter.2 ⟨hway, decide_eq_true hshort⟩,
          List.mem_map.2 ⟨_, hrest, rfl⟩⟩

/-- The ways of a pattern are the beginnings that it matches. -/
theorem mem_ways_iff (r : Pattern α) (s rest : List α) (c : Captures α) :
    (rest, c) ∈ r.ways s ↔ ∃ t, s = t ++ rest ∧ Matches r t c := by
  induction r generalizing s rest c with
  | empty =>
    simp only [ways, List.mem_singleton, Prod.mk.injEq, matches_empty_iff]
    constructor
    · rintro ⟨rfl, rfl⟩
      exact ⟨[], rfl, rfl, rfl⟩
    · rintro ⟨t, rfl, rfl, rfl⟩
      exact ⟨rfl, rfl⟩
  | chars p =>
    simp only [matches_chars_iff]
    constructor
    · intro h
      cases s with
      | nil => exact absurd h List.not_mem_nil
      | cons x s =>
        rw [ways] at h
        split at h
        next hp =>
          obtain ⟨rfl, rfl⟩ := Prod.mk.inj (List.mem_singleton.1 h)
          exact ⟨[x], rfl, ⟨x, hp, rfl⟩, rfl⟩
        next => exact absurd h List.not_mem_nil
    · rintro ⟨t, rfl, ⟨x, hp, rfl⟩, rfl⟩
      rw [List.singleton_append, ways, if_pos hp]
      exact List.mem_singleton.2 rfl
  | seq a b iha ihb =>
    simp only [ways, matches_seq_iff, List.mem_flatMap, List.mem_map, Prod.mk.injEq]
    constructor
    · rintro ⟨⟨mid, c₁⟩, hmid, ⟨r, c₂⟩, hr, rfl, rfl⟩
      obtain ⟨t₁, rfl, h₁⟩ := (iha s mid c₁).1 hmid
      obtain ⟨t₂, rfl, h₂⟩ := (ihb mid r c₂).1 hr
      exact ⟨t₁ ++ t₂, (List.append_assoc ..).symm, t₁, t₂, c₁, c₂, rfl, rfl, h₁, h₂⟩
    · rintro ⟨t, rfl, t₁, t₂, c₁, c₂, rfl, rfl, h₁, h₂⟩
      have ha := (iha (t₁ ++ t₂ ++ rest) (t₂ ++ rest) c₁).2 ⟨t₁, List.append_assoc .., h₁⟩
      have hb := (ihb (t₂ ++ rest) rest c₂).2 ⟨t₂, rfl, h₂⟩
      exact ⟨_, ha, _, hb, rfl, rfl⟩
  | alt a b iha ihb =>
    rw [ways, List.mem_append, iha, ihb, ← exists_or]
    simp only [matches_alt_iff, and_or_left]
  | star a ih => exact mem_repeated ih _ (Nat.le_refl _)
  | group n a ih =>
    simp only [ways, matches_group_iff, List.mem_map, Prod.mk.injEq]
    constructor
    · rintro ⟨⟨r, d⟩, hr, rfl, rfl⟩
      obtain ⟨t, rfl, h⟩ := (ih s r d).1 hr
      refine ⟨t, rfl, d, h, ?_⟩
      rw [List.length_append, Nat.add_sub_cancel, List.take_left]
    · rintro ⟨t, rfl, d, h, rfl⟩
      refine ⟨(rest, d), (ih _ rest d).2 ⟨t, rfl, h⟩, rfl, ?_⟩
      rw [List.length_append, Nat.add_sub_cancel, List.take_left]

/-- What `fullmatch` returns, the pattern matches with these groups. -/
theorem matches_of_fullmatch {r : Pattern α} {s : List α} {c : Captures α}
    (h : r.fullmatch s = some c) : Matches r s c := by
  obtain ⟨⟨rest, d⟩, hfind, rfl⟩ := Option.map_eq_some_iff.1 h
  have hempty := List.find?_some hfind
  have hrest : rest = [] := List.isEmpty_iff.1 hempty
  obtain ⟨t, hs, hm⟩ := (mem_ways_iff r s rest d).1 (List.mem_of_find?_eq_some hfind)
  rw [hrest, List.append_nil] at hs
  rw [hs]
  exact hm

/-- A text has a full match when the pattern matches it with some groups. -/
theorem fullmatch_isSome_iff {r : Pattern α} {s : List α} :
    (r.fullmatch s).isSome = true ↔ ∃ c, Matches r s c := by
  constructor
  · intro h
    obtain ⟨c, hc⟩ := Option.isSome_iff_exists.1 h
    exact ⟨c, matches_of_fullmatch hc⟩
  · rintro ⟨c, hm⟩
    have hway : ([], c) ∈ r.ways s := (mem_ways_iff r s [] c).2 ⟨s, (List.append_nil s).symm, hm⟩
    rw [fullmatch, Option.isSome_map, List.find?_isSome]
    exact ⟨_, hway, rfl⟩

/-! Patterns that hold no group. -/

/-- The pattern matches the texts of `L` and records nothing. -/
def Plain (a : Pattern α) (L : List α → Prop) : Prop := ∀ s c, Matches a s c ↔ L s ∧ c = []

theorem plain_chars (p : α → Bool) : Plain (.chars p) fun s => ∃ x, p x = true ∧ s = [x] :=
  fun _ _ => matches_chars_iff

theorem Plain.seq {a b : Pattern α} {L M : List α → Prop} (ha : Plain a L) (hb : Plain b M) :
    Plain (.seq a b) fun s => ∃ s₁ s₂, s = s₁ ++ s₂ ∧ L s₁ ∧ M s₂ := by
  intro s c
  rw [matches_seq_iff]
  constructor
  · rintro ⟨s₁, s₂, c₁, c₂, rfl, rfl, h₁, h₂⟩
    obtain ⟨hL, rfl⟩ := (ha _ _).1 h₁
    obtain ⟨hM, rfl⟩ := (hb _ _).1 h₂
    exact ⟨⟨s₁, s₂, rfl, hL, hM⟩, rfl⟩
  · rintro ⟨⟨s₁, s₂, rfl, hL, hM⟩, rfl⟩
    exact ⟨s₁, s₂, [], [], rfl, rfl, (ha _ _).2 ⟨hL, rfl⟩, (hb _ _).2 ⟨hM, rfl⟩⟩

theorem Plain.alt {a b : Pattern α} {L M : List α → Prop} (ha : Plain a L) (hb : Plain b M) :
    Plain (.alt a b) fun s => L s ∨ M s := by
  intro s c
  rw [matches_alt_iff, ha s c, hb s c, or_and_right]

theorem Plain.star {a : Pattern α} {L : List α → Prop} (ha : Plain a L) :
    Plain (.star a) fun s => ∃ parts : List (List α), (∀ t ∈ parts, t ≠ [] ∧ L t) ∧
      s = parts.flatten := by
  intro s c
  constructor
  · intro hm
    generalize hr : Pattern.star a = r at hm
    induction hm with
    | stop => exact ⟨⟨[], List.forall_mem_nil _, rfl⟩, rfl⟩
    | more hfirst hs hrest _ ih =>
      cases hr
      obtain ⟨⟨parts, hparts, rfl⟩, rfl⟩ := ih rfl
      obtain ⟨hL, rfl⟩ := (ha _ _).1 hfirst
      exact ⟨⟨_ :: parts, List.forall_mem_cons.2 ⟨⟨hs, hL⟩, hparts⟩, rfl⟩, rfl⟩
    | _ => cases hr
  · rintro ⟨⟨parts, hparts, rfl⟩, rfl⟩
    induction parts with
    | nil => exact .stop
    | cons t parts ih =>
      obtain ⟨⟨hne, hL⟩, hrest⟩ := List.forall_mem_cons.1 hparts
      exact Matches.more ((ha t []).2 ⟨hL, rfl⟩) hne (ih hrest)

/-- A class of characters, repeated. -/
theorem plain_star_chars (p : α → Bool) :
    Plain (.star (.chars p)) fun s => ∀ x ∈ s, p x = true := by
  intro s c
  rw [(plain_chars p).star s c]
  apply and_congr_left
  intro _
  constructor
  · rintro ⟨parts, hparts, rfl⟩ x hx
    obtain ⟨t, ht, hxt⟩ := List.mem_flatten.1 hx
    obtain ⟨-, y, hy, rfl⟩ := hparts t ht
    rwa [List.mem_singleton.1 hxt]
  · intro hall
    refine ⟨s.map fun x => [x], ?_, ?_⟩
    · intro t ht
      obtain ⟨x, hx, rfl⟩ := List.mem_map.1 ht
      exact ⟨List.cons_ne_nil x [], x, hall x hx, rfl⟩
    · induction s with
      | nil => rfl
      | cons x s ih => rw [List.map_cons, List.flatten_cons, List.singleton_append,
          ← ih fun y hy => hall y (List.mem_cons_of_mem x hy)]

end Pattern

end KestrelSdk.Regex

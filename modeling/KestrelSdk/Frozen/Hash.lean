import KestrelSdk.Frozen.Thaw

namespace KestrelSdk.Frozen

open Json (Str Key Value FloatRepr)

/-- The number that a scalar is. `exact` is the exact value of a float. -/
def Scalar.number (exact : FloatRepr → Rat) : Scalar → Option Rat
  | .bool b => some (if b then 1 else 0)
  | .int i => some i
  | .float r => some (exact r)
  | _ => Option.none

/-- `==` of scalars. -/
def Scalar.pyEq (exact : FloatRepr → Rat) : Scalar → Scalar → Bool
  | .none, .none => true
  | .str s, .str t => s == t
  | a, b =>
    match a.number exact, b.number exact with
    | some p, some q => p == q
    | _, _ => false

mutual
/-- `==` of frozen values: tuples by position, mappings by key. -/
def pyEq (exact : FloatRepr → Rat) : ImmutableJSON → ImmutableJSON → Bool
  | .scalar s, .scalar t => s.pyEq exact t
  | .tuple fs, .tuple gs => pyEqItems exact fs gs
  | .mapping es, .mapping ds => es.length == ds.length && pyEqEntries exact es ds
  | _, _ => false
  termination_by structural f _ => f

def pyEqItems (exact : FloatRepr → Rat) : List ImmutableJSON → List ImmutableJSON → Bool
  | [], [] => true
  | f :: fs, g :: gs => pyEq exact f g && pyEqItems exact fs gs
  | _, _ => false
  termination_by structural fs _ => fs

def pyEqEntries (exact : FloatRepr → Rat) :
    List (Str × ImmutableJSON) → List (Str × ImmutableJSON) → Bool
  | [], _ => true
  | (k, f) :: es, ds =>
    (match ds.lookup k with
      | some g => pyEq exact f g
      | none => false) && pyEqEntries exact es ds
  termination_by structural es _ => es
end

/-- What `hashable_json` returns. The elements of a frozenset are pairs of a key and a value. -/
inductive Hashable where
  | scalar (s : Scalar)
  | tuple (items : List Hashable)
  | frozenset (elements : List (Str × Hashable))

mutual
/-- `==` of hashable values: a frozenset equals one of the same size that has each of its
elements. -/
def Hashable.eq (exact : FloatRepr → Rat) : Hashable → Hashable → Bool
  | .scalar s, .scalar t => s.pyEq exact t
  | .tuple fs, .tuple gs => Hashable.eqItems exact fs gs
  | .frozenset es, .frozenset ds => es.length == ds.length && Hashable.subset exact es ds
  | _, _ => false
  termination_by structural f _ => f

def Hashable.eqItems (exact : FloatRepr → Rat) : List Hashable → List Hashable → Bool
  | [], [] => true
  | f :: fs, g :: gs => Hashable.eq exact f g && Hashable.eqItems exact fs gs
  | _, _ => false
  termination_by structural fs _ => fs

def Hashable.subset (exact : FloatRepr → Rat) :
    List (Str × Hashable) → List (Str × Hashable) → Bool
  | [], _ => true
  | (k, f) :: es, ds =>
    ds.any (fun e => k == e.1 && Hashable.eq exact f e.2) && Hashable.subset exact es ds
  termination_by structural es _ => es
end

/-- `frozenset(elements)`: an element that equals an earlier one is not added. -/
def frozenset (exact : FloatRepr → Rat) (set : List (Str × Hashable)) :
    List (Str × Hashable) → List (Str × Hashable)
  | [] => set
  | e :: es =>
    if set.any fun d => e.1 == d.1 && Hashable.eq exact e.2 d.2 then frozenset exact set es
    else frozenset exact (set ++ [e]) es

mutual
/-- `hashable_json`. -/
def hashableJson (exact : FloatRepr → Rat) : ImmutableJSON → Hashable
  | .scalar s => .scalar s
  | .tuple fs => .tuple (hashableItems exact fs)
  | .mapping es => .frozenset (frozenset exact [] (hashableEntries exact es))
  termination_by structural f => f

def hashableItems (exact : FloatRepr → Rat) : List ImmutableJSON → List Hashable
  | [] => []
  | f :: fs => hashableJson exact f :: hashableItems exact fs
  termination_by structural fs => fs

def hashableEntries (exact : FloatRepr → Rat) : List (Str × ImmutableJSON) → List (Str × Hashable)
  | [] => []
  | (k, f) :: es => (k, hashableJson exact f) :: hashableEntries exact es
  termination_by structural es => es
end

section Elements

variable {exact : FloatRepr → Rat}

theorem hashableEntries_eq (es : List (Str × ImmutableJSON)) :
    hashableEntries exact es = es.map fun e => (e.1, hashableJson exact e.2) := by
  induction es with
  | nil => rfl
  | cons e es ih => rw [hashableEntries, ih, List.map_cons]

/-- Pairs with distinct keys are distinct elements. -/
theorem frozenset_distinct {set es : List (Str × Hashable)}
    (h : ((set ++ es).map Prod.fst).Nodup) : frozenset exact set es = set ++ es := by
  induction es generalizing set with
  | nil => simp [frozenset]
  | cons e es ih =>
    have hnew : (set.any fun d => e.1 == d.1 && Hashable.eq exact e.2 d.2) = false := by
      apply List.any_eq_false.2
      intro d hd
      have hne : e.1 ≠ d.1 := by
        intro heq
        rw [List.map_append, List.map_cons] at h
        exact (List.nodup_append.1 h).2.2 d.1 (List.mem_map_of_mem hd) e.1
          (List.mem_cons_self ..) heq.symm
      simp [hne]
    rw [frozenset, if_neg (by simp [hnew]), ih (by simpa using h), List.append_assoc]
    rfl

/-- The element with a key is the entry with that key. -/
theorem any_lookup {ds : List (Str × ImmutableJSON)} (h : (ds.map Prod.fst).Nodup) (k : Str)
    (f : Hashable) :
    (hashableEntries exact ds).any (fun e => k == e.1 && Hashable.eq exact f e.2) =
      match ds.lookup k with
      | some g => Hashable.eq exact f (hashableJson exact g)
      | none => false := by
  induction ds with
  | nil => rfl
  | cons d ds ih =>
    obtain ⟨l, g⟩ := d
    obtain ⟨hl, hds⟩ := List.nodup_cons.1 h
    simp only [hashableEntries, List.any_cons, ih hds, List.lookup_cons]
    by_cases hk : k = l
    · subst hk
      have hnone : ds.lookup k = none := by
        apply List.lookup_eq_none_iff.2
        intro e he
        have hne : e.1 ≠ k := by
          rintro rfl
          exact hl (List.mem_map.2 ⟨e, he, rfl⟩)
        simpa using Ne.symm hne
      simp [hnone]
    · have hne : (k == l) = false := by simpa using hk
      simp [hne]

theorem thawEntries_keys (es : List (Str × ImmutableJSON)) :
    (thawEntries es).map Prod.fst = es.map fun e => Key.str e.1 := by
  induction es with
  | nil => rfl
  | cons e es ih => simp only [thawEntries, List.map_cons, ih]

/-- A frozen mapping has each key once. -/
theorem nodup_of_json {es : List (Str × ImmutableJSON)} (h : IsJsonEntries (thawEntries es)) :
    (es.map Prod.fst).Nodup ∧ ∀ e ∈ es, IsJson (thawJson e.2) := by
  induction es with
  | nil => simp
  | cons e es ih =>
    obtain ⟨k, f⟩ := e
    simp only [thawEntries, IsJsonEntries] at h
    obtain ⟨_, hnew, hf, hes⟩ := h
    obtain ⟨hnodup, hmem⟩ := ih hes
    rw [thawEntries_keys] at hnew
    constructor
    · apply List.nodup_cons.2 ⟨?_, hnodup⟩
      intro hk
      obtain ⟨e, he, rfl⟩ := List.mem_map.1 hk
      exact hnew (List.mem_map.2 ⟨e, he, rfl⟩)
    · intro e he
      obtain rfl | he := List.mem_cons.1 he
      · exact hf
      · exact hmem e he

theorem lookup_mem {ds : List (Str × ImmutableJSON)} {k : Str} {g : ImmutableJSON}
    (h : ds.lookup k = some g) : (k, g) ∈ ds := by
  induction ds with
  | nil => cases h
  | cons d ds ih =>
    obtain ⟨l, f⟩ := d
    rw [List.lookup_cons] at h
    by_cases hk : k = l
    · subst hk
      simp only [beq_self_eq_true, Option.some.injEq] at h
      rw [h]
      exact List.mem_cons_self ..
    · have hne : (k == l) = false := by simpa using hk
      rw [hne] at h
      exact List.mem_cons_of_mem _ (ih h)

mutual
/-- Hashable values are equal exactly when the frozen values are. -/
theorem eq_hashableJson : ∀ (f : ImmutableJSON) {g : ImmutableJSON}, IsJson (thawJson f) →
    IsJson (thawJson g) →
    Hashable.eq exact (hashableJson exact f) (hashableJson exact g) = pyEq exact f g
  | .scalar s, g, hf, hg => by
    cases g <;> simp only [hashableJson, Hashable.eq, pyEq]
  | .tuple fs, g, hf, hg => by
    cases g with
    | tuple gs =>
      simp only [thawJson, IsJson] at hf hg
      simp only [hashableJson, Hashable.eq, pyEq, eqItems_hashable fs hf hg]
    | scalar t => simp only [hashableJson, Hashable.eq, pyEq]
    | mapping ds => simp only [hashableJson, Hashable.eq, pyEq]
  | .mapping es, g, hf, hg => by
    cases g with
    | mapping ds =>
      simp only [thawJson, IsJson] at hf hg
      have hset : ∀ {es : List (Str × ImmutableJSON)}, IsJsonEntries (thawEntries es) →
          frozenset exact [] (hashableEntries exact es) = hashableEntries exact es := by
        intro es hes
        rw [frozenset_distinct, List.nil_append]
        rw [List.nil_append, hashableEntries_eq, List.map_map]
        exact (nodup_of_json hes).1
      simp only [hashableJson, Hashable.eq, pyEq, hset hf, hset hg, subset_hashable es hf hg]
      simp only [hashableEntries_eq, List.length_map]
    | scalar t => simp only [hashableJson, Hashable.eq, pyEq]
    | tuple gs => simp only [hashableJson, Hashable.eq, pyEq]
  termination_by structural f => f

theorem eqItems_hashable : ∀ (fs : List ImmutableJSON) {gs : List ImmutableJSON},
    IsJsonItems (thawItems fs) → IsJsonItems (thawItems gs) →
    Hashable.eqItems exact (hashableItems exact fs) (hashableItems exact gs) =
      pyEqItems exact fs gs
  | [], gs, _, _ => by
    cases gs <;> simp only [hashableItems, Hashable.eqItems, pyEqItems]
  | f :: fs, gs, hf, hg => by
    cases gs with
    | nil => simp only [hashableItems, Hashable.eqItems, pyEqItems]
    | cons g gs =>
      simp only [thawItems, IsJsonItems] at hf hg
      simp only [hashableItems, Hashable.eqItems, pyEqItems, eq_hashableJson f hf.1 hg.1,
        eqItems_hashable fs hf.2 hg.2]
  termination_by structural fs => fs

theorem subset_hashable : ∀ (es : List (Str × ImmutableJSON)) {ds : List (Str × ImmutableJSON)},
    IsJsonEntries (thawEntries es) → IsJsonEntries (thawEntries ds) →
    Hashable.subset exact (hashableEntries exact es) (hashableEntries exact ds) =
      pyEqEntries exact es ds
  | [], ds, _, _ => by
    simp only [hashableEntries, Hashable.subset, pyEqEntries]
  | (k, f) :: es, ds, hf, hg => by
    obtain ⟨hnodup, hmem⟩ := nodup_of_json hg
    simp only [thawEntries, IsJsonEntries] at hf
    simp only [hashableEntries, Hashable.subset, pyEqEntries, any_lookup hnodup,
      subset_hashable es hf.2.2.2 hg]
    cases hl : ds.lookup k with
    | none => rfl
    | some g => simp only [eq_hashableJson f hf.2.2.1 (hmem _ (lookup_mem hl))]
  termination_by structural es => es
end

end Elements

end KestrelSdk.Frozen

import KestrelSdk.Frozen.Hash

namespace KestrelSdk.Frozen

open Json (Str Key Value FloatRepr)

theorem Scalar.value_injective {s t : Scalar} (h : s.value = t.value) : s = t := by
  cases s <;> cases t <;> simp_all [Scalar.value]

mutual
/-- Frozen values that thaw to the same value are the same. -/
theorem thawJson_injective : ∀ (f : ImmutableJSON) {g : ImmutableJSON},
    thawJson f = thawJson g → f = g
  | .scalar s, g, h => by
    cases g with
    | scalar t => rw [Scalar.value_injective h]
    | tuple gs => cases s <;> cases h
    | mapping ds => cases s <;> cases h
  | .tuple fs, g, h => by
    cases g with
    | scalar t => cases t <;> cases h
    | tuple gs =>
      simp only [thawJson, Value.list.injEq] at h
      rw [thawItems_injective fs h]
    | mapping ds => cases h
  | .mapping es, g, h => by
    cases g with
    | scalar t => cases t <;> cases h
    | tuple gs => cases h
    | mapping ds =>
      simp only [thawJson, Value.dict.injEq] at h
      rw [thawEntries_injective es h]
  termination_by structural f => f

theorem thawItems_injective : ∀ (fs : List ImmutableJSON) {gs : List ImmutableJSON},
    thawItems fs = thawItems gs → fs = gs
  | [], gs, h => by
    cases gs with
    | nil => rfl
    | cons g gs => cases h
  | f :: fs, gs, h => by
    cases gs with
    | nil => cases h
    | cons g gs =>
      simp only [thawItems, List.cons.injEq] at h
      rw [thawJson_injective f h.1, thawItems_injective fs h.2]
  termination_by structural fs => fs

theorem thawEntries_injective : ∀ (es : List (Str × ImmutableJSON))
    {ds : List (Str × ImmutableJSON)}, thawEntries es = thawEntries ds → es = ds
  | [], ds, h => by
    cases ds with
    | nil => rfl
    | cons d ds => cases h
  | (k, f) :: es, ds, h => by
    cases ds with
    | nil => cases h
    | cons d ds =>
      obtain ⟨l, g⟩ := d
      simp only [thawEntries, List.cons.injEq, Prod.mk.injEq, Key.str.injEq] at h
      obtain ⟨⟨rfl, hf⟩, hes⟩ := h
      rw [thawJson_injective f hf, thawEntries_injective es hes]
  termination_by structural es => es
end

section Runs

variable {ι : Type} [DecidableEq ι] {g : Graph ι} {limits : JSONLimits} {frames : Nat} {x : ι}

/-- A freeze copies the object, or says what is to blame. -/
theorem outcome_freezeJson (g : Graph ι) (limits : JSONLimits) (frames : Nat) (x : ι) :
    Outcome (fun r => Reads g (thawJson r.value) x ∧ IsJson (thawJson r.value) ∧
        height (thawJson r.value) ≤ frames)
      (Blame g limits x frames []) (freezeJson (.plain limits) g frames x) := by
  have hsized : Sized limits (.start limits : Walk ι) := by
    intro h
    cases hb : limits.maxEncodedBytes with
    | none => simp [Walk.start, hb] at h
    | some b => rfl
  have habove : Above g (.start limits) x := fun a ha => by cases ha
  apply Outcome.bind (outcome_freeze frames 0 habove hsized)
  rintro ⟨f, w⟩ hf
  exact ⟨hf.reads, hf.json, hf.height⟩

theorem copies_of_ok {r : FrozenJSON} (h : freezeJson (.plain limits) g frames x = .ok r) :
    Reads g (thawJson r.value) x ∧ IsJson (thawJson r.value) ∧
      height (thawJson r.value) ≤ frames := by
  have hout := outcome_freezeJson g limits frames x
  rw [h] at hout
  exact hout

theorem blame_of_error {e : Reject} (h : freezeJson (.plain limits) g frames x = .error e) :
    Blame g limits x frames [] e := by
  have hout := outcome_freezeJson g limits frames x
  rw [h] at hout
  exact hout

/-- An object that a freeze takes has room within the limits. -/
theorem affordable_of_ok {r : FrozenJSON} (h : freezeJson (.plain limits) g frames x = .ok r) :
    Affordable limits (.start limits : Walk ι) (bill 0 (thawJson r.value)) := by
  obtain ⟨hreads, hjson, hheight⟩ := copies_of_ok h
  obtain ⟨f, _, _, herr⟩ := charges_start limits hreads hjson hheight
  by_contra hroom
  obtain ⟨e, he⟩ := herr hroom
  unfold freezeJson at h
  rw [he] at h
  cases h

/-- The objects of a value are taken where there is room for the value. -/
theorem ok_of_affordable {v : Value} (hreads : Reads g v x) (hjson : IsJson v)
    (hheight : height v ≤ frames)
    (hroom : Affordable limits (.start limits : Walk ι) (bill 0 v)) :
    ∃ r, freezeJson (.plain limits) g frames x = .ok r := by
  obtain ⟨f, _, hok, _⟩ := charges_start limits hreads hjson hheight
  unfold freezeJson
  rw [hok hroom]
  exact ⟨_, rfl⟩

/-- Freezing what an accepted object thaws to gives the same frozen value. -/
theorem freeze_thaw {κ : Type} [DecidableEq κ] {h : Graph κ} {y : κ} {r : FrozenJSON}
    (hr : freezeJson (.plain limits) g frames x = .ok r) (hy : Reads h (thawJson r.value) y) :
    (∃ r', freezeJson (.plain limits) h frames y = .ok r') ∧
      ∀ limits' frames' r', freezeJson (.plain limits') h frames' y = .ok r' →
        r'.value = r.value := by
  obtain ⟨_, hjson, hheight⟩ := copies_of_ok hr
  constructor
  · have hroom := affordable_of_ok hr
    exact ok_of_affordable hy hjson hheight hroom
  · intro limits' frames' r' hr'
    obtain ⟨hreads, _, _⟩ := copies_of_ok hr'
    exact thawJson_injective _ (Reads.unique _ hreads hy)

/-- A cyclic object is refused: as a cycle, by a limit, by the recursion limit, or as foreign. -/
theorem error_of_cyclic [Fintype ι] (h : Cyclic g x) :
    ∃ e, freezeJson (.plain limits) g frames x = .error e ∧
      (e = .cycle ∨ (e.IsBound ∧ limits ≠ {}) ∨ (e = .recursion ∧ frames ≤ Fintype.card ι) ∨
        ((e = .key ∨ e = .type ∨ e = .nonFinite) ∧ ¬ g.IsJson)) := by
  cases hrun : freezeJson (.plain limits) g frames x with
  | ok r => exact absurd h (copies_of_ok hrun).1.not_cyclic
  | error e =>
    have hblame := blame_of_error hrun
    refine ⟨e, rfl, ?_⟩
    have hbound : e.IsBound → e.IsBound ∧ limits ≠ {} := fun hb => ⟨hb, hblame.bound hb⟩
    have hforeign : (e = .key ∨ e = .type ∨ e = .nonFinite) →
        (e = .key ∨ e = .type ∨ e = .nonFinite) ∧ ¬ g.IsJson := fun hf => ⟨hf, hblame.foreign hf⟩
    cases e with
    | cycle => exact .inl rfl
    | recursion =>
      have hroom := hblame.recursion rfl List.nodup_nil (Fintype.card ι)
        fun l hl => hl.length_le_card
      exact .inr (.inr (.inl ⟨rfl, hroom⟩))
    | domain n => exact absurd rfl (hblame.known n)
    | key => exact .inr (.inr (.inr (hforeign (.inl rfl))))
    | type => exact .inr (.inr (.inr (hforeign (.inr (.inl rfl)))))
    | nonFinite => exact .inr (.inr (.inr (hforeign (.inr (.inr rfl)))))
    | _ => exact .inr (.inl (hbound (by simp [Reject.IsBound])))

end Runs

/-! The objects that a thawed value is made of. -/

/-- Each value as an object. A dict has each key once. -/
def valueGraph : Graph Value where
  view
    | .none => .scalar .none
    | .bool b => .scalar (.bool b)
    | .int i => .scalar (.int i)
    | .float (.finite r) => .scalar (.float r)
    | .float y => .nonFinite y
    | .str s => .scalar (.str s)
    | .list vs => .sequence vs
    | .dict es => if (es.map Prod.fst).Nodup then .mapping es else .other
    | .object _ => .other
  distinct v es h := by
    cases v with
    | float y => cases y <;> cases h
    | dict ds =>
      simp only [ite_eq_iff] at h
      obtain ⟨hnodup, h⟩ | ⟨_, h⟩ := h
      · cases h
        exact hnodup
      · cases h
    | _ => cases h

theorem nodup_keys {es : List (Key × Value)} (h : IsJsonEntries es) :
    (es.map Prod.fst).Nodup := by
  induction es with
  | nil => exact List.nodup_nil
  | cons e es ih =>
    simp only [IsJsonEntries] at h
    exact List.nodup_cons.2 ⟨h.2.1, ih h.2.2.2⟩

mutual
/-- Every JSON value is the value of an object. -/
theorem reads_valueGraph : ∀ v : Value, IsJson v → Reads valueGraph v v
  | .none, _ => rfl
  | .bool _, _ => rfl
  | .int _, _ => rfl
  | .float (.finite _), _ => rfl
  | .float .inf, _ => rfl
  | .float .negInf, _ => rfl
  | .float .nan, _ => rfl
  | .str _, _ => rfl
  | .list vs, h => by
    simp only [IsJson] at h
    simp only [Reads]
    exact ⟨vs, rfl, readsItems_valueGraph vs h⟩
  | .dict es, h => by
    simp only [IsJson] at h
    simp only [Reads]
    exact ⟨es, if_pos (nodup_keys h), readsEntries_valueGraph es h⟩
  | .object _, h => by simp only [IsJson] at h
  termination_by structural v => v

theorem readsItems_valueGraph : ∀ vs : List Value, IsJsonItems vs → ReadsItems valueGraph vs vs
  | [], _ => rfl
  | v :: vs, h => by
    simp only [IsJsonItems] at h
    simp only [ReadsItems]
    exact ⟨v, vs, rfl, reads_valueGraph v h.1, readsItems_valueGraph vs h.2⟩
  termination_by structural vs => vs

theorem readsEntries_valueGraph : ∀ es : List (Key × Value), IsJsonEntries es →
    ReadsEntries valueGraph es es
  | [], _ => rfl
  | (k, v) :: es, h => by
    simp only [IsJsonEntries] at h
    simp only [ReadsEntries]
    exact ⟨v, es, rfl, reads_valueGraph v h.2.2.1, readsEntries_valueGraph es h.2.2.2⟩
  termination_by structural es => es
end

/-- Thawing undoes freezing, and freezing the thawed value gives the frozen value again. Hashable
values are equal exactly when the frozen values are. A graph is refused as a cycle only if it has
one, and if it has one it is refused: as a cycle, by a limit, by the recursion limit on a cycle with
as many objects, or for an object that is not JSON. -/
theorem freeze_agrees :
    (∀ {ι : Type} [DecidableEq ι] (g : Graph ι) (limits : JSONLimits) (frames : Nat) (x : ι) r,
      freezeJson (.plain limits) g frames x = .ok r →
        (∀ v, Reads g v x ↔ v = thawJson r.value) ∧
        (∃ y, Reads valueGraph (thawJson r.value) y) ∧
        ∀ {κ : Type} [DecidableEq κ] (h : Graph κ) (y : κ), Reads h (thawJson r.value) y →
          (∃ r', freezeJson (.plain limits) h frames y = .ok r') ∧
          ∀ limits' frames' r', freezeJson (.plain limits') h frames' y = .ok r' →
            r'.value = r.value) ∧
    (∀ (exact : FloatRepr → Rat) (a b : ImmutableJSON), IsJson (thawJson a) → IsJson (thawJson b) →
      Hashable.eq exact (hashableJson exact a) (hashableJson exact b) = pyEq exact a b) ∧
    ∀ {ι : Type} [DecidableEq ι] [Fintype ι] (g : Graph ι) (limits : JSONLimits) (frames : Nat)
      (x : ι),
      (freezeJson (.plain limits) g frames x = .error .cycle → Cyclic g x) ∧
      (Cyclic g x → ∃ e, freezeJson (.plain limits) g frames x = .error e ∧
        (e = .cycle ∨ (e.IsBound ∧ limits ≠ {}) ∨ (e = .recursion ∧ frames ≤ Fintype.card ι) ∨
          ((e = .key ∨ e = .type ∨ e = .nonFinite) ∧ ¬ g.IsJson))) := by
  refine ⟨?_, ?_, ?_⟩
  · intro ι _ g limits frames x r hr
    obtain ⟨hreads, hjson, _⟩ := copies_of_ok hr
    refine ⟨fun v => ⟨fun hv => Reads.unique v hv hreads, ?_⟩, ⟨_, reads_valueGraph _ hjson⟩, ?_⟩
    · rintro rfl
      exact hreads
    · intro κ _ h y hy
      exact freeze_thaw hr hy
  · intro exact a b ha hb
    exact eq_hashableJson a ha hb
  · intro ι _ _ g limits frames x
    constructor
    · intro h
      exact (blame_of_error h).cycle rfl
    · intro h
      exact error_of_cyclic h

/-- Object 0 holds the empty object 1 twice, and object 2 holds itself. -/
def loopGraph : Graph (Fin 3) where
  view
    | 0 => .sequence [1, 1]
    | 1 => .mapping []
    | 2 => .mapping [(.str [97], 2)]
  distinct x es h := by
    split at h <;> cases h <;> simp

theorem freeze_agrees_loop :
    (∀ v, Reads loopGraph v 0 ↔ v = .list [.dict [], .dict []]) ∧
    (∃ e, freezeJson (.plain {}) loopGraph 9 2 = .error e) ∧
    Hashable.eq (fun _ => 1) (hashableJson (fun _ => 1) (.scalar (.int 1)))
      (hashableJson (fun _ => 1) (.scalar (.bool true))) = true := by
  obtain ⟨hround, hhash, hcycle⟩ := freeze_agrees
  refine ⟨?_, ?_, ?_⟩
  · have hrun : freezeJson (.plain {}) loopGraph 9 0 =
        .ok ⟨.tuple [.mapping [], .mapping []], none⟩ := by rfl
    exact (hround loopGraph {} 9 0 _ hrun).1
  · have hself : Cyclic loopGraph 2 :=
      ⟨2, .refl, .single (List.mem_cons_self ..)⟩
    obtain ⟨e, he, _⟩ := (hcycle loopGraph {} 9 2).2 hself
    exact ⟨e, he⟩
  · have hint : IsJson (thawJson (.scalar (.int 1))) := trivial
    have hbool : IsJson (thawJson (.scalar (.bool true))) := trivial
    rw [hhash (fun _ => 1) _ _ hint hbool]
    decide

end KestrelSdk.Frozen

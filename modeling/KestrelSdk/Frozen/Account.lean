import KestrelSdk.Frozen.Measure

namespace KestrelSdk.Frozen

open Json (Str Bytes Key Value)

section Steps

variable {ι : Type} {g : Graph ι} {limits : JSONLimits} {w : Walk ι}

@[simp] theorem pay_ancestors (w : Walk ι) (b : Bill) : (w.pay b).ancestors = w.ancestors := rfl

theorem pay_level (w : Walk ι) (depth : Nat) : w.pay (.level depth) = w := by
  simp only [Walk.pay, Bill.level, Nat.add_zero, addSize_zero]

theorem pay_zero (w : Walk ι) : w.pay .zero = w := by
  simp only [Walk.pay, Bill.zero, Nat.add_zero, addSize_zero]

/-- What follows a step for free. -/
theorem Charges.map {β γ : Type} {b : Bill} {r : Except Reject β} {x : β}
    (h : Charges limits w b r x) (k : β → Except Reject γ) {y : γ} (hk : k x = .ok y) :
    Charges limits w b (r >>= k) y := by
  constructor
  · intro hb
    rw [h.1 hb]
    exact hk
  · intro hb
    obtain ⟨e, he⟩ := h.2 hb
    rw [he]
    exact ⟨e, rfl⟩

/-- The ancestors do not count. -/
theorem Charges.withAncestors {β : Type} {b : Bill} {r : Except Reject β} {x : β} (l : List ι)
    (h : Charges limits { w with ancestors := l } b r x) : Charges limits w b r x := h

@[simp] theorem default_key (s : Str) : Validators.default.key (.str s) = .ok s := rfl

@[simp] theorem default_scalar (s : Scalar) : Validators.default.scalar s = .ok s := by
  cases s <;> rfl

theorem setEntry_fresh {frozen : List (Str × ImmutableJSON)} {key : Str} (f : ImmutableJSON)
    (h : key ∉ frozen.map Prod.fst) : setEntry frozen key f = frozen ++ [(key, f)] := by
  induction frozen with
  | nil => rfl
  | cons e frozen ih =>
    obtain ⟨k, v⟩ := e
    simp only [List.map_cons, List.mem_cons, not_or] at h
    simp only [setEntry, if_neg (Ne.symm h.1), ih h.2, List.cons_append]

/-- The walk with the default validators. -/
abbrev Config.plain (limits : JSONLimits) : Config := ⟨limits, .default⟩

/-- The test of the depth and the node, before what depends on the object. -/
theorem charges_object {b : Bill} {r : Walk ι → Except Reject (ImmutableJSON × Walk ι)}
    {f : ImmutableJSON} {depth : Nat}
    (h : Charges limits (w.pay .node) b (r (w.pay .node)) (f, (w.pay .node).pay b)) :
    Charges limits w (.level depth + (.node + b))
      (if exceeds limits.maxDepth depth then .error .depth
        else w.addNode (.plain limits) >>= r) (f, w.pay (.level depth + (.node + b))) := by
  have hnode : Charges limits w .node (w.addNode (.plain limits)) (w.pay .node) :=
    charges_node (c := .plain limits)
  have hlevel := charges_level (c := .plain limits) depth (hnode.bind h)
  rw [pay_add, pay_level, pay_add]
  exact hlevel

/-- The ancestors of an object reach it. -/
def Above (g : Graph ι) (w : Walk ι) (x : ι) : Prop :=
  ∀ a ∈ w.ancestors, Relation.TransGen g.Edge a x

theorem Above.not_mem {v : Value} {x : ι} (h : Above g w x) (hv : Reads g v x) :
    x ∉ w.ancestors :=
  fun hx => hv.acyclic (h x hx)

theorem Above.child {x y : ι} (h : Above g w x) (hy : g.Edge x y) :
    Above g { w with ancestors := x :: w.ancestors } y := by
  intro a ha
  obtain rfl | ha := List.mem_cons.1 ha
  · exact .single hy
  · exact (h a ha).tail hy

theorem readsEntries_keys {es : List (Key × Value)} {zs : List (Key × ι)}
    (h : ReadsEntries g es zs) : zs.map Prod.fst = es.map Prod.fst := by
  induction es generalizing zs with
  | nil =>
    simp only [ReadsEntries] at h
    rw [h]
    rfl
  | cons e es ih =>
    obtain ⟨k, v⟩ := e
    simp only [ReadsEntries] at h
    obtain ⟨y, zs', rfl, _, hes⟩ := h
    rw [List.map_cons, List.map_cons, ih hes]

/-- The comma before an item, where there is one. -/
theorem charges_comma (limits : JSONLimits) (index : Nat) :
    Charges limits w (if index == 0 then .zero else .bytes (some 1))
      (if index = 0 then .ok w else w.addBytes (.plain limits) 1)
      (w.pay (if index == 0 then .zero else .bytes (some 1))) := by
  cases index with
  | zero =>
    show Charges limits w .zero (.ok w) (w.pay .zero)
    rw [pay_zero]
    exact Charges.pure w
  | succ n => exact charges_bytes (c := .plain limits) (by omega)

end Steps

variable {ι : Type} [DecidableEq ι] {g : Graph ι} {limits : JSONLimits} {w : Walk ι}

theorem charges_leaf {x : ι} {s : Scalar} (hview : g.view x = .scalar s) (frames depth : Nat) :
    Charges limits w (.level depth + (.node + .bytes s.size))
      (freeze (.plain limits) g frames x depth w)
      (.scalar s, w.pay (.level depth + (.node + .bytes s.size))) := by
  rw [freeze.eq_def]
  simp only [hview]
  apply charges_object (r := fun w => do
    let s ← Validators.default.scalar s
    let w ← w.addScalar (.plain limits) s
    return (.scalar s, w))
  simp only [default_scalar]
  exact (charges_scalar (c := .plain limits) s).map _ rfl

/-- The frame of a container: it enters, writes its brackets and leaves. -/
theorem charges_container {β : Type} {x : ι} {b : Bill} {y : β}
    {loop : Walk ι → Except Reject (β × Walk ι)} (close : β → ImmutableJSON)
    (hx : x ∉ w.ancestors)
    (h : Charges limits ({ w with ancestors := x :: w.ancestors }.pay (.bytes (some 2))) b
      (loop ({ w with ancestors := x :: w.ancestors }.pay (.bytes (some 2))))
      (y, ({ w with ancestors := x :: w.ancestors }.pay (.bytes (some 2))).pay b)) :
    Charges limits w (.bytes (some 2) + b)
      (do
        let w ← w.enter x
        let w ← w.addBytes (.plain limits) 2
        let (y, w) ← loop w
        return (close y, w.discard x))
      (close y, w.pay (.bytes (some 2) + b)) := by
  have henter : w.enter x = .ok { w with ancestors := x :: w.ancestors } := if_neg hx
  have hbytes := charges_bytes (c := .plain limits)
    (w := { w with ancestors := x :: w.ancestors }) (n := 2) (by omega)
  simp only [henter]
  apply Charges.withAncestors (x :: w.ancestors)
  apply hbytes.bind
  apply h.map
  rw [pay_add]
  simp only [Walk.pay, Walk.discard, List.erase_cons_head]
  rfl

mutual
/-- The walk of a tree costs its bill and gives a frozen copy. -/
theorem charges_freeze : ∀ (v : Value) {x : ι} (frames depth : Nat) {w : Walk ι},
    Reads g v x → IsJson v → height v ≤ frames → Above g w x →
    ∃ f, thawJson f = v ∧ Charges limits w (bill depth v)
      (freeze (.plain limits) g frames x depth w) (f, w.pay (bill depth v))
  | .none, x, frames, depth, w, hv, _, _, _ => by
    simp only [Reads] at hv
    exact ⟨.scalar .none, rfl, charges_leaf hv frames depth⟩
  | .bool b, x, frames, depth, w, hv, _, _, _ => by
    simp only [Reads] at hv
    exact ⟨.scalar (.bool b), rfl, charges_leaf hv frames depth⟩
  | .int i, x, frames, depth, w, hv, _, _, _ => by
    simp only [Reads] at hv
    exact ⟨.scalar (.int i), rfl, charges_leaf hv frames depth⟩
  | .float (.finite r), x, frames, depth, w, hv, _, _, _ => by
    simp only [Reads] at hv
    exact ⟨.scalar (.float r), rfl, charges_leaf hv frames depth⟩
  | .float .inf, _, _, _, _, _, hj, _, _ => by simp only [IsJson] at hj
  | .float .negInf, _, _, _, _, _, hj, _, _ => by simp only [IsJson] at hj
  | .float .nan, _, _, _, _, _, hj, _, _ => by simp only [IsJson] at hj
  | .str s, x, frames, depth, w, hv, _, _, _ => by
    simp only [Reads] at hv
    exact ⟨.scalar (.str s), rfl, charges_leaf hv frames depth⟩
  | .list vs, x, frames, depth, w, hv, hj, hh, ha => by
    have hx : x ∉ (w.pay .node).ancestors := ha.not_mem hv
    simp only [Reads] at hv
    obtain ⟨ys, hview, hys⟩ := hv
    simp only [IsJson] at hj
    simp only [height] at hh
    obtain ⟨frames, rfl⟩ : ∃ n, frames = n + 1 := ⟨frames - 1, by omega⟩
    have hchild : ∀ y ∈ ys, Above g { w with ancestors := x :: w.ancestors } y := by
      intro y hy
      apply ha.child
      unfold Graph.Edge
      rw [hview]
      exact hy
    obtain ⟨fs, hfs, hloop⟩ := charges_items vs frames (depth + 1) 0
      (w := { w.pay .node with ancestors := x :: w.ancestors }.pay (.bytes (some 2))) hys hj
      (by omega) hchild
    refine ⟨.tuple fs, by rw [thawJson, hfs], ?_⟩
    rw [freeze.eq_def]
    simp only [hview, bill]
    apply charges_object (r := fun w => do
      let w ← w.enter x
      let w ← w.addBytes (.plain limits) 2
      let (fs, w) ← freezeItems (.plain limits)
        (fun y w => freeze (.plain limits) g frames y (depth + 1) w) 0 ys w
      return (.tuple fs, w.discard x))
    exact charges_container .tuple hx hloop
  | .dict es, x, frames, depth, w, hv, hj, hh, ha => by
    have hx : x ∉ (w.pay .node).ancestors := ha.not_mem hv
    simp only [Reads] at hv
    obtain ⟨zs, hview, hzs⟩ := hv
    simp only [IsJson] at hj
    simp only [height] at hh
    obtain ⟨frames, rfl⟩ : ∃ n, frames = n + 1 := ⟨frames - 1, by omega⟩
    have hchild : ∀ y ∈ zs.map Prod.snd, Above g { w with ancestors := x :: w.ancestors } y := by
      intro y hy
      apply ha.child
      unfold Graph.Edge
      rw [hview]
      exact hy
    obtain ⟨fs, hfs, hloop⟩ := charges_entries es frames (depth + 1) 0 []
      (w := { w.pay .node with ancestors := x :: w.ancestors }.pay (.bytes (some 2))) hzs hj
      (by omega) hchild (by simp)
    refine ⟨.mapping fs, by rw [thawJson, hfs], ?_⟩
    rw [freeze.eq_def]
    simp only [hview, bill]
    apply charges_object (r := fun w => do
      let w ← w.enter x
      let w ← w.addBytes (.plain limits) 2
      let (fs, w) ← freezeEntries (.plain limits)
        (fun y w => freeze (.plain limits) g frames y (depth + 1) w) 0 [] zs w
      return (.mapping fs, w.discard x))
    exact charges_container .mapping hx hloop
  | .object _, _, _, _, _, _, hj, _, _ => by simp only [IsJson] at hj
  termination_by structural v => v

theorem charges_items : ∀ (vs : List Value) {ys : List ι} (frames depth index : Nat) {w : Walk ι},
    ReadsItems g vs ys → IsJsonItems vs → heightItems vs ≤ frames →
    (∀ y ∈ ys, Above g w y) →
    ∃ fs, thawItems fs = vs ∧ Charges limits w (billItems depth (index == 0) vs)
      (freezeItems (.plain limits) (fun y w => freeze (.plain limits) g frames y depth w) index ys w)
      (fs, w.pay (billItems depth (index == 0) vs))
  | [], ys, frames, depth, index, w, hv, _, _, _ => by
    simp only [ReadsItems] at hv
    subst hv
    refine ⟨[], rfl, ?_⟩
    rw [billItems, pay_zero]
    exact Charges.pure _
  | v :: vs, ys, frames, depth, index, w, hv, hj, hh, ha => by
    simp only [ReadsItems] at hv
    obtain ⟨y, ys', rfl, hy, hys⟩ := hv
    simp only [IsJsonItems] at hj
    simp only [heightItems] at hh
    have hcomma := charges_comma limits (w := w) index
    obtain ⟨f, hf, hitem⟩ := charges_freeze v frames depth
      (w := w.pay (if index == 0 then .zero else .bytes (some 1))) hy hj.1 (by omega)
      (ha y (List.mem_cons_self ..))
    obtain ⟨fs, hfs, hrest⟩ := charges_items vs frames depth (index + 1)
      (w := (w.pay (if index == 0 then .zero else .bytes (some 1))).pay (bill depth v)) hys hj.2
      (by omega) fun z hz => ha z (List.mem_cons_of_mem y hz)
    refine ⟨f :: fs, by rw [thawItems, hf, hfs], ?_⟩
    rw [billItems, pay_add, pay_add]
    rw [freezeItems]
    apply hcomma.bind
    apply hitem.bind
    apply hrest.map
    rfl
  termination_by structural vs => vs

theorem charges_entries : ∀ (es : List (Key × Value)) {zs : List (Key × ι)}
    (frames depth index : Nat) (frozen : List (Str × ImmutableJSON)) {w : Walk ι},
    ReadsEntries g es zs → IsJsonEntries es → heightEntries es ≤ frames →
    (∀ y ∈ zs.map Prod.snd, Above g w y) →
    (∀ k ∈ es.map Prod.fst, k ∉ frozen.map fun e => Key.str e.1) →
    ∃ fs, thawEntries fs = es ∧ Charges limits w (billEntries depth (index == 0) es)
      (freezeEntries (.plain limits) (fun y w => freeze (.plain limits) g frames y depth w) index
        frozen zs w)
      (frozen ++ fs, w.pay (billEntries depth (index == 0) es))
  | [], zs, frames, depth, index, frozen, w, hv, _, _, _, _ => by
    simp only [ReadsEntries] at hv
    subst hv
    refine ⟨[], rfl, ?_⟩
    rw [billEntries, pay_zero, List.append_nil]
    exact Charges.pure _
  | (k, v) :: es, zs, frames, depth, index, frozen, w, hv, hj, hh, ha, hfresh => by
    simp only [ReadsEntries] at hv
    obtain ⟨y, zs', rfl, hy, hes⟩ := hv
    simp only [IsJsonEntries] at hj
    simp only [heightEntries] at hh
    obtain ⟨⟨key, rfl⟩, hnew, hjv, hjes⟩ := hj
    have hkey := charges_key (c := .plain limits) (w := w)
    have htext := charges_scalar (c := .plain limits) (w := w.pay .key) (.str key)
    have hpunct := charges_bytes (c := .plain limits)
      (w := (w.pay .key).pay (.bytes (keySize (.str key))))
      (n := 1 + if index == 0 then 0 else 1) (by omega)
    obtain ⟨f, hf, hitem⟩ := charges_freeze v frames depth
      (w := ((w.pay .key).pay (.bytes (keySize (.str key)))).pay
        (.bytes (some (1 + if index == 0 then 0 else 1)))) hy hjv (by omega)
      (ha y (List.mem_cons_self ..))
    have hset : setEntry frozen key f = frozen ++ [(key, f)] := by
      apply setEntry_fresh
      intro hmem
      obtain ⟨e, he, rfl⟩ := List.mem_map.1 hmem
      exact hfresh (.str e.1) (List.mem_cons_self ..) (List.mem_map_of_mem he)
    obtain ⟨fs, hfs, hrest⟩ := charges_entries es frames depth (index + 1) (frozen ++ [(key, f)])
      (w := (((w.pay .key).pay (.bytes (keySize (.str key)))).pay
        (.bytes (some (1 + if index == 0 then 0 else 1)))).pay (bill depth v)) hes hjes
      (by omega) (fun z hz => ha z (List.mem_cons_of_mem y hz)) (by
        intro k hk hmem
        simp only [List.map_append, List.map_cons, List.map_nil, List.mem_append,
          List.mem_singleton] at hmem
        obtain hmem | rfl := hmem
        · exact hfresh k (List.mem_cons_of_mem _ hk) hmem
        · exact hnew hk)
    refine ⟨(key, f) :: fs, by rw [thawEntries, hf, hfs], ?_⟩
    rw [billEntries, pay_add, pay_add, pay_add, pay_add]
    simp only [freezeEntries, default_key, beq_iff_eq] at hpunct hitem hrest ⊢
    apply hkey.bind
    apply htext.bind
    apply hpunct.bind
    apply hitem.bind
    simp only [hset]
    have happ : frozen ++ (key, f) :: fs = frozen ++ [(key, f)] ++ fs := by simp
    rw [happ]
    exact hrest
  termination_by structural es => es
end

/-- A fresh walk. -/
theorem charges_start {ι : Type} [DecidableEq ι] {g : Graph ι} (limits : JSONLimits) {v : Value}
    {x : ι} {frames : Nat} (hv : Reads g v x) (hj : IsJson v) (hh : height v ≤ frames) :
    ∃ f, thawJson f = v ∧ Charges limits (.start limits : Walk ι) (bill 0 v)
      (freeze (.plain limits) g frames x 0 (.start limits))
      (f, (.start limits : Walk ι).pay (bill 0 v)) :=
  charges_freeze v frames 0 hv hj hh fun a ha => by cases ha

end KestrelSdk.Frozen

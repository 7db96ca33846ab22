import KestrelSdk.Frozen.Size
import Mathlib.Data.Fintype.Card

namespace KestrelSdk.Frozen

open Json (Str Key Value)

section Outcome

variable {β γ : Type} {P P' : β → Prop} {R : γ → Prop} {Q Q' : Reject → Prop}

/-- What holds of a result, and of a refusal. -/
def Outcome (P : β → Prop) (Q : Reject → Prop) : Except Reject β → Prop
  | .ok x => P x
  | .error e => Q e

theorem Outcome.bind {r : Except Reject β} {k : β → Except Reject γ} (h : Outcome P Q r)
    (hk : ∀ x, P x → Outcome R Q (k x)) : Outcome R Q (r >>= k) := by
  cases r with
  | ok x => exact hk x h
  | error e => exact h

theorem Outcome.imp {r : Except Reject β} (h : Outcome P Q r) (hP : ∀ x, P x → P' x)
    (hQ : ∀ e, Q e → Q' e) : Outcome P' Q' r := by
  cases r with
  | ok x => exact hP x h
  | error e => exact hQ e h

end Outcome

variable {ι : Type}

/-- An object that reaches an object which reaches itself. -/
def Cyclic (g : Graph ι) (x : ι) : Prop :=
  ∃ y, Relation.ReflTransGen g.Edge x y ∧ Relation.TransGen g.Edge y y

theorem Cyclic.parent {g : Graph ι} {x y : ι} (hxy : g.Edge x y) (h : Cyclic g y) : Cyclic g x := by
  obtain ⟨z, hyz, hz⟩ := h
  exact ⟨z, .head hxy hyz, hz⟩

/-- No object of a tree is on a cycle. -/
theorem Reads.not_cyclic {g : Graph ι} {v : Value} {x : ι} (h : Reads g v x) : ¬ Cyclic g x := by
  rintro ⟨y, hxy, hyy⟩
  obtain rfl | hxy := Relation.reflTransGen_iff_eq_or_transGen.1 hxy
  · exact h.acyclic hyy
  · obtain ⟨u, hu, _⟩ := h.descendant hxy
    exact hu.acyclic hyy

/-- Objects of JSON data only. -/
def Graph.IsJson (g : Graph ι) : Prop :=
  ∀ x, match g.view x with
    | .scalar _ => True
    | .nonFinite _ => False
    | .mapping entries => ∀ k ∈ entries.map Prod.fst, ∃ s, k = .str s
    | .sequence _ => True
    | .other => False

/-- What a refusal says about the object: a cycle is there, the recursion limit is below the number
of objects, a limit is set, or the data is not JSON. -/
structure Blame (g : Graph ι) (limits : JSONLimits) (x : ι) (frames : Nat) (ancestors : List ι)
    (e : Reject) : Prop where
  cycle : e = .cycle → Cyclic g x
  recursion : e = .recursion → ancestors.Nodup → ∀ n, (∀ l : List ι, l.Nodup → l.length ≤ n) →
    frames + ancestors.length ≤ n
  bound : e.IsBound → limits ≠ {}
  foreign : e = .key ∨ e = .type ∨ e = .nonFinite → ¬ g.IsJson
  known : ∀ n, e ≠ .domain n

/-- The walk measures only under a budget. -/
def Sized (limits : JSONLimits) (w : Walk ι) : Prop :=
  w.size.isSome = true → limits.maxEncodedBytes.isSome = true

/-- A counter step keeps the ancestors, and fails on a limit. -/
def Counts (limits : JSONLimits) (w : Walk ι) (r : Except Reject (Walk ι)) : Prop :=
  Outcome (fun w' => w'.ancestors = w.ancestors ∧ Sized limits w')
    (fun e => e.IsBound ∧ limits ≠ {}) r

section Steps

variable {limits : JSONLimits} {w : Walk ι}

theorem limits_ne_of_exceeds {n : Nat}
    (h : exceeds limits.maxDepth n = true ∨ exceeds limits.maxNodes n = true ∨
      exceeds limits.maxKeys n = true ∨ exceeds limits.maxEncodedBytes n = true) : limits ≠ {} := by
  rintro rfl
  simp [exceeds] at h

theorem counts_node (hs : Sized limits w) : Counts limits w (w.addNode (.plain limits)) := by
  unfold Walk.addNode
  split
  case isTrue h => exact ⟨.inr (.inl rfl), limits_ne_of_exceeds (.inr (.inl h))⟩
  case isFalse => exact ⟨rfl, hs⟩

theorem counts_key (hs : Sized limits w) : Counts limits w (w.addKey (.plain limits)) := by
  unfold Walk.addKey
  split
  case isTrue h => exact ⟨.inr (.inr (.inl rfl)), limits_ne_of_exceeds (.inr (.inr (.inl h)))⟩
  case isFalse => exact ⟨rfl, hs⟩

theorem counts_bytes (hs : Sized limits w) (n : Nat) :
    Counts limits w (w.addBytes (.plain limits) n) := by
  unfold Walk.addBytes
  cases hsize : w.size with
  | none => exact ⟨rfl, hs⟩
  | some m =>
    dsimp only
    split
    case isTrue h =>
      exact ⟨.inr (.inr (.inr (.inl rfl))), limits_ne_of_exceeds (.inr (.inr (.inr h)))⟩
    case isFalse => exact ⟨rfl, fun _ => hs (by simp [hsize])⟩

theorem counts_scalar (hs : Sized limits w) (s : Scalar) :
    Counts limits w (w.addScalar (.plain limits) s) := by
  unfold Walk.addScalar
  cases hsize : w.size with
  | none => exact ⟨rfl, hs⟩
  | some m =>
    have hlim : limits ≠ {} := by
      rintro rfl
      have hbudget := hs (by simp [hsize])
      cases hbudget
    have hencoded : Outcome (fun _ => True) (fun e => e.IsBound ∧ limits ≠ {}) s.encoded := by
      unfold Scalar.encoded
      cases s.text with
      | none => exact ⟨.inr (.inr (.inr (.inr (.inr rfl)))), hlim⟩
      | some t =>
        cases hb : Json.encodeUtf8 t with
        | none =>
          simp only [hb]
          exact ⟨.inr (.inr (.inr (.inr (.inl rfl)))), hlim⟩
        | some b =>
          simp only [hb]
          trivial
    exact hencoded.bind fun b _ => counts_bytes hs b.length

end Steps

/-- A frozen copy of an object, with the ancestors as they were. -/
structure Copies (g : Graph ι) (limits : JSONLimits) (ancestors : List ι) (frames : Nat) (y : ι)
    (r : ImmutableJSON × Walk ι) : Prop where
  ancestors : r.2.ancestors = ancestors
  sized : Sized limits r.2
  reads : Reads g (thawJson r.1) y
  json : IsJson (thawJson r.1)
  height : height (thawJson r.1) ≤ frames

section Loops

variable {g : Graph ι} {limits : JSONLimits} {ancestors : List ι} {frames : Nat}
  {Q : Reject → Prop} {item : ι → Walk ι → Except Reject (ImmutableJSON × Walk ι)}

/-- The loop over the items copies each. -/
theorem outcome_items (hQ : ∀ e, e.IsBound ∧ limits ≠ {} → Q e) {ys : List ι}
    (hitem : ∀ y ∈ ys, ∀ w, w.ancestors = ancestors → Sized limits w →
      Outcome (Copies g limits ancestors frames y) Q (item y w))
    (index : Nat) {w : Walk ι} (ha : w.ancestors = ancestors) (hs : Sized limits w) :
    Outcome (fun r => r.2.ancestors = ancestors ∧ Sized limits r.2 ∧
        ReadsItems g (thawItems r.1) ys ∧ IsJsonItems (thawItems r.1) ∧
        heightItems (thawItems r.1) ≤ frames) Q
      (freezeItems (.plain limits) item index ys w) := by
  induction ys generalizing index w with
  | nil => exact ⟨ha, hs, rfl, trivial, Nat.zero_le _⟩
  | cons y ys ih =>
    rw [freezeItems]
    have hcomma : Counts limits w
        (if index = 0 then .ok w else w.addBytes (.plain limits) 1) := by
      split
      · exact ⟨rfl, hs⟩
      · exact counts_bytes hs 1
    apply (hcomma.imp (fun _ h => h) hQ).bind
    rintro w1 ⟨ha1, hs1⟩
    apply (hitem y (List.mem_cons_self ..) w1 (ha1.trans ha) hs1).bind
    rintro ⟨f, w2⟩ hf
    apply (ih (fun z hz => hitem z (List.mem_cons_of_mem y hz)) (index + 1) hf.ancestors
      hf.sized).bind
    rintro ⟨fs, w3⟩ ⟨ha3, hs3, hreads, hjson, hheight⟩
    refine ⟨ha3, hs3, ?_, ?_, ?_⟩
    · simp only [thawItems, ReadsItems]
      exact ⟨y, ys, rfl, hf.reads, hreads⟩
    · simp only [thawItems, IsJsonItems]
      exact ⟨hf.json, hjson⟩
    · simp only [thawItems, heightItems]
      exact Nat.max_le.2 ⟨hf.height, hheight⟩

/-- The loop over the entries copies each under its own key. -/
theorem outcome_entries (hQ : ∀ e, e.IsBound ∧ limits ≠ {} → Q e) {zs : List (Key × ι)}
    (hkeys : (∃ k ∈ zs.map Prod.fst, ∀ s, k ≠ .str s) → Q .key)
    (hitem : ∀ y ∈ zs.map Prod.snd, ∀ w, w.ancestors = ancestors → Sized limits w →
      Outcome (Copies g limits ancestors frames y) Q (item y w))
    (index : Nat) (frozen : List (Str × ImmutableJSON)) (hnodup : (zs.map Prod.fst).Nodup)
    (hfresh : ∀ k ∈ zs.map Prod.fst, k ∉ frozen.map fun e => Key.str e.1)
    {w : Walk ι} (ha : w.ancestors = ancestors) (hs : Sized limits w) :
    Outcome (fun r => r.2.ancestors = ancestors ∧ Sized limits r.2 ∧
        ∃ fs, r.1 = frozen ++ fs ∧ ReadsEntries g (thawEntries fs) zs ∧
          IsJsonEntries (thawEntries fs) ∧ heightEntries (thawEntries fs) ≤ frames) Q
      (freezeEntries (.plain limits) item index frozen zs w) := by
  induction zs generalizing index frozen w with
  | nil =>
    exact ⟨ha, hs, [], (List.append_nil _).symm, rfl, trivial, Nat.zero_le _⟩
  | cons z zs ih =>
    obtain ⟨k, y⟩ := z
    obtain ⟨hnew, htail⟩ := List.nodup_cons.1 hnodup
    by_cases hk : ∃ key, k = .str key
    · obtain ⟨key, rfl⟩ := hk
      simp only [freezeEntries, default_key]
      apply Outcome.bind ((counts_key hs).imp (fun _ h => h) hQ)
      rintro w1 ⟨ha1, hs1⟩
      apply Outcome.bind ((counts_scalar hs1 (.str key)).imp (fun _ h => h) hQ)
      rintro w2 ⟨ha2, hs2⟩
      apply Outcome.bind ((counts_bytes hs2 (1 + if index = 0 then 0 else 1)).imp (fun _ h => h) hQ)
      rintro w3 ⟨ha3, hs3⟩
      have hanc : w3.ancestors = ancestors := by rw [ha3, ha2, ha1, ha]
      apply Outcome.bind (hitem y (List.mem_cons_self ..) w3 hanc hs3)
      rintro ⟨f, w4⟩ hf
      have hset : setEntry frozen key f = frozen ++ [(key, f)] := by
        apply setEntry_fresh
        intro hmem
        obtain ⟨e, he, rfl⟩ := List.mem_map.1 hmem
        exact hfresh (.str e.1) (List.mem_cons_self ..) (List.mem_map_of_mem he)
      simp only [hset]
      have hrest := ih (fun ⟨l, hl, hls⟩ => hkeys ⟨l, List.mem_cons_of_mem _ hl, hls⟩)
        (fun z hz => hitem z (List.mem_cons_of_mem y hz)) (index + 1) (frozen ++ [(key, f)]) htail (by
          intro l hl hmem
          simp only [List.map_append, List.map_cons, List.map_nil, List.mem_append,
            List.mem_singleton] at hmem
          obtain hmem | rfl := hmem
          · exact hfresh l (List.mem_cons_of_mem _ hl) hmem
          · exact hnew hl) hf.ancestors hf.sized
      apply hrest.imp ?_ fun _ h => h
      rintro ⟨_, w5⟩ ⟨ha5, hs5, fs, rfl, hreads, hjson, hheight⟩
      refine ⟨ha5, hs5, (key, f) :: fs, by simp, ?_, ?_, ?_⟩
      · simp only [thawEntries, ReadsEntries]
        exact ⟨y, zs, rfl, hf.reads, hreads⟩
      · simp only [thawEntries, IsJsonEntries]
        refine ⟨⟨key, rfl⟩, ?_, hf.json, hjson⟩
        rw [← readsEntries_keys hreads]
        exact hnew
      · simp only [thawEntries, heightEntries]
        exact Nat.max_le.2 ⟨hf.height, hheight⟩
    · have hreject : requireStrKey k = .error .key := by
        cases k with
        | str s => exact absurd ⟨s, rfl⟩ hk
        | _ => rfl
      have hrun : freezeEntries (.plain limits) item index frozen ((k, y) :: zs) w =
          .error .key := by
        simp only [freezeEntries, Validators.default, hreject]
        rfl
      rw [hrun]
      exact hkeys ⟨k, List.mem_cons_self .., fun s hs => hk ⟨s, hs⟩⟩

end Loops

section Walk

variable {g : Graph ι} {limits : JSONLimits}

theorem Blame.of_bound {x : ι} {frames : Nat} {ancestors : List ι} {e : Reject}
    (h : e.IsBound ∧ limits ≠ {}) : Blame g limits x frames ancestors e := by
  obtain ⟨hbound, hlim⟩ := h
  refine ⟨?_, ?_, fun _ => hlim, ?_, ?_⟩
  · rintro rfl
    simp [Reject.IsBound] at hbound
  · rintro rfl
    simp [Reject.IsBound] at hbound
  · rintro (rfl | rfl | rfl) <;> simp [Reject.IsBound] at hbound
  · rintro n rfl
    simp [Reject.IsBound] at hbound

theorem Blame.of_foreign {x : ι} {frames : Nat} {ancestors : List ι} {e : Reject}
    (he : e = .key ∨ e = .type ∨ e = .nonFinite) (h : ¬ g.IsJson) :
    Blame g limits x frames ancestors e := by
  obtain rfl | rfl | rfl := he
  all_goals exact ⟨by simp, by simp, by simp [Reject.IsBound], fun _ => h, by simp⟩

/-- What is to blame in a part of a container is to blame in the container. -/
theorem Blame.parent {x y : ι} {frames : Nat} {ancestors : List ι} {e : Reject}
    (hxy : g.Edge x y) (hx : x ∉ ancestors) (h : Blame g limits y frames (x :: ancestors) e) :
    Blame g limits x (frames + 1) ancestors e := by
  refine ⟨fun he => (h.cycle he).parent hxy, fun he hnodup n hn => ?_, h.bound, h.foreign, h.known⟩
  have hroom := h.recursion he (List.nodup_cons.2 ⟨hx, hnodup⟩) n hn
  simp only [List.length_cons] at hroom
  omega

/-- The recursion limit is reached only below more containers than there are objects. -/
theorem Blame.of_recursion {x : ι} {ancestors : List ι} :
    Blame g limits x 0 ancestors .recursion := by
  refine ⟨by simp, fun _ hnodup n hn => ?_, by simp [Reject.IsBound], by simp, by simp⟩
  rw [Nat.zero_add]
  exact hn ancestors hnodup

variable [DecidableEq ι]

/-- A container: what its frame does around the loop over its parts. -/
theorem outcome_container {β : Type} {x : ι} {frames : Nat} {w : Walk ι} {P : β → Prop}
    {loop : Walk ι → Except Reject (β × Walk ι)} {close : β → ImmutableJSON}
    (hx : x ∈ w.ancestors → Cyclic g x) (hs : Sized limits w)
    (hloop : x ∉ w.ancestors → ∀ w', w'.ancestors = x :: w.ancestors → Sized limits w' →
      Outcome (fun r => r.2.ancestors = x :: w.ancestors ∧ Sized limits r.2 ∧ P r.1)
        (Blame g limits x (frames + 1) w.ancestors) (loop w'))
    (hclose : ∀ y, P y → Reads g (thawJson (close y)) x ∧ IsJson (thawJson (close y)) ∧
      height (thawJson (close y)) ≤ frames + 1) :
    Outcome (Copies g limits w.ancestors (frames + 1) x)
      (Blame g limits x (frames + 1) w.ancestors)
      (do
        let w ← w.enter x
        let w ← w.addBytes (.plain limits) 2
        let (y, w) ← loop w
        return (close y, w.discard x)) := by
  unfold Walk.enter
  by_cases hmem : x ∈ w.ancestors
  · rw [if_pos hmem]
    exact ⟨fun _ => hx hmem, by simp, by simp [Reject.IsBound], by simp, by simp⟩
  · rw [if_neg hmem]
    apply Outcome.bind ((counts_bytes (w := { w with ancestors := x :: w.ancestors }) hs 2).imp
      (fun _ h => h) fun _ h => Blame.of_bound h)
    rintro w1 ⟨ha1, hs1⟩
    apply (hloop hmem w1 ha1 hs1).bind
    rintro ⟨y, w2⟩ ⟨ha2, hs2, hy⟩
    obtain ⟨hreads, hjson, hheight⟩ := hclose y hy
    refine ⟨?_, hs2, hreads, hjson, hheight⟩
    show w2.ancestors.erase x = w.ancestors
    rw [ha2, List.erase_cons_head]

/-- The parts of a container, seen from the container. -/
theorem outcome_part {x y : ι} {frames depth : Nat} {w w' : Walk ι} (ha : Above g w x)
    (hxy : g.Edge x y) (hx : x ∉ w.ancestors) (ha' : w'.ancestors = x :: w.ancestors)
    (hpart : Above g w' y → Outcome (Copies g limits w'.ancestors frames y)
      (Blame g limits y frames w'.ancestors) (freeze (.plain limits) g frames y depth w')) :
    Outcome (Copies g limits (x :: w.ancestors) frames y)
      (Blame g limits x (frames + 1) w.ancestors) (freeze (.plain limits) g frames y depth w') := by
  have habove : Above g w' y := by
    intro a hmem
    rw [ha'] at hmem
    exact ha.child hxy a hmem
  have hout := hpart habove
  rw [ha'] at hout
  exact hout.imp (fun _ h => h) fun _ h => h.parent hxy hx

/-- The walk copies an object, or says what is to blame. -/
theorem outcome_freeze (frames : Nat) {x : ι} (depth : Nat) {w : Walk ι} (ha : Above g w x)
    (hs : Sized limits w) :
    Outcome (Copies g limits w.ancestors frames x) (Blame g limits x frames w.ancestors)
      (freeze (.plain limits) g frames x depth w) := by
  induction frames using Nat.strong_induction_on generalizing x depth w with
  | _ frames ih =>
    rw [freeze.eq_def]
    dsimp only
    split
    case isTrue hd =>
      exact Blame.of_bound ⟨.inl rfl, limits_ne_of_exceeds (.inl hd)⟩
    case isFalse =>
      apply Outcome.bind ((counts_node hs).imp (fun _ h => h) fun _ h => Blame.of_bound h)
      rintro w1 ⟨ha1, hs1⟩
      rw [← ha1]
      have ha : Above g w1 x := by
        intro a hmem
        rw [ha1] at hmem
        exact ha a hmem
      have hloop : x ∈ w1.ancestors → Cyclic g x := fun hmem => ⟨x, .refl, ha x hmem⟩
      cases hview : g.view x with
      | scalar s =>
        simp only [default_scalar]
        apply Outcome.bind ((counts_scalar hs1 s).imp (fun _ h => h) fun _ h => Blame.of_bound h)
        rintro w2 ⟨ha2, hs2⟩
        cases s <;> exact ⟨ha2, hs2, hview, trivial, Nat.zero_le _⟩
      | nonFinite y =>
        apply Blame.of_foreign (.inr (.inr rfl))
        intro hjson
        have hx := hjson x
        rw [hview] at hx
        exact hx
      | other =>
        apply Blame.of_foreign (.inr (.inl rfl))
        intro hjson
        have hx := hjson x
        rw [hview] at hx
        exact hx
      | mapping entries =>
        have hedge : ∀ y ∈ entries.map Prod.snd, g.Edge x y := by
          intro y hy
          unfold Graph.Edge
          rw [hview]
          exact hy
        cases frames with
        | zero => exact Blame.of_recursion
        | succ frames =>
          apply outcome_container (P := fun fs => ReadsEntries g (thawEntries fs) entries ∧
            IsJsonEntries (thawEntries fs) ∧ heightEntries (thawEntries fs) ≤ frames) hloop hs1
          · intro hx w2 ha2 hs2
            have hkeys : (∃ k ∈ entries.map Prod.fst, ∀ s, k ≠ .str s) →
                Blame g limits x (frames + 1) w1.ancestors .key := by
              rintro ⟨k, hk, hks⟩
              apply Blame.of_foreign (.inl rfl)
              intro hjson
              have hx := hjson x
              rw [hview] at hx
              obtain ⟨s, rfl⟩ := hx k hk
              exact hks s rfl
            have hitem : ∀ y ∈ entries.map Prod.snd, ∀ w', w'.ancestors = x :: w1.ancestors →
                Sized limits w' → Outcome (Copies g limits (x :: w1.ancestors) frames y)
                  (Blame g limits x (frames + 1) w1.ancestors)
                  (freeze (.plain limits) g frames y (depth + 1) w') :=
              fun y hy w' ha' hs' => outcome_part ha (hedge y hy) hx ha' fun habove =>
                ih frames (Nat.lt_succ_self frames) (depth + 1) habove hs'
            apply (outcome_entries (fun _ h => Blame.of_bound h) hkeys hitem 0 []
              (g.distinct x entries hview) (by simp) ha2 hs2).imp
            · rintro ⟨fs, w3⟩ ⟨ha3, hs3, fs', rfl, hrest⟩
              exact ⟨ha3, hs3, hrest⟩
            · intro _ h
              exact h
          · rintro fs ⟨hreads, hjson, hheight⟩
            refine ⟨?_, ?_, ?_⟩
            · simp only [thawJson, Reads]
              exact ⟨entries, hview, hreads⟩
            · simp only [thawJson, IsJson]
              exact hjson
            · simp only [thawJson, Frozen.height]
              omega
      | sequence items =>
        have hedge : ∀ y ∈ items, g.Edge x y := by
          intro y hy
          unfold Graph.Edge
          rw [hview]
          exact hy
        cases frames with
        | zero => exact Blame.of_recursion
        | succ frames =>
          apply outcome_container (P := fun fs => ReadsItems g (thawItems fs) items ∧
            IsJsonItems (thawItems fs) ∧ heightItems (thawItems fs) ≤ frames) hloop hs1
          · intro hx w2 ha2 hs2
            have hitem : ∀ y ∈ items, ∀ w', w'.ancestors = x :: w1.ancestors →
                Sized limits w' → Outcome (Copies g limits (x :: w1.ancestors) frames y)
                  (Blame g limits x (frames + 1) w1.ancestors)
                  (freeze (.plain limits) g frames y (depth + 1) w') :=
              fun y hy w' ha' hs' => outcome_part ha (hedge y hy) hx ha' fun habove =>
                ih frames (Nat.lt_succ_self frames) (depth + 1) habove hs'
            exact outcome_items (fun _ h => Blame.of_bound h) hitem 0 ha2 hs2
          · rintro fs ⟨hreads, hjson, hheight⟩
            refine ⟨?_, ?_, ?_⟩
            · simp only [thawJson, Reads]
              exact ⟨items, hview, hreads⟩
            · simp only [thawJson, IsJson]
              exact hjson
            · simp only [thawJson, Frozen.height]
              omega

end Walk

end KestrelSdk.Frozen

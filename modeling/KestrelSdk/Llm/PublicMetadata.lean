import KestrelSdk.Llm.PublicKeys
import KestrelSdk.Frozen.Thaw

namespace KestrelSdk.Llm

open Json (Str Key Value)
open Frozen

/-- `_public_metadata_key`. A refusal says that keys must be non-empty strings, or that the key is
secret-like. -/
def publicMetadataKey : Key → Except Reject Str
  | .str s =>
    if s = [] then .error (.domain 0)
    else if isSecretLikePublicKey s then .error (.domain 1)
    else .ok s
  | _ => .error (.domain 0)

/-- The walk that `_freeze_public_metadata` makes. -/
def metadataConfig : Config := ⟨{}, ⟨publicMetadataKey, .ok, .ok⟩⟩

/-- `_freeze_public_metadata`. -/
def freezePublicMetadata {ι : Type} [DecidableEq ι] (g : Graph ι) (frames : Nat) (x : ι) :
    Except Reject ImmutableJSON :=
  match g.view x with
  | .mapping _ => (freezeJson metadataConfig g frames x).map FrozenJSON.value
  | _ => .error .type

mutual
/-- The keys of the mappings at every depth. -/
def keysOf : Value → List Key
  | .list vs => keysOfItems vs
  | .dict es => keysOfEntries es
  | _ => []
  termination_by structural v => v

def keysOfItems : List Value → List Key
  | [] => []
  | v :: vs => keysOf v ++ keysOfItems vs
  termination_by structural l => l

def keysOfEntries : List (Key × Value) → List Key
  | [] => []
  | (k, v) :: es => k :: (keysOf v ++ keysOfEntries es)
  termination_by structural l => l
end

mutual
/-- Finite floats, and no object of another type. -/
def JsonLike : Value → Prop
  | .float (.finite _) => True
  | .float _ => False
  | .list vs => JsonLikeItems vs
  | .dict es => JsonLikeEntries es
  | .object _ => False
  | _ => True
  termination_by structural v => v

def JsonLikeItems : List Value → Prop
  | [] => True
  | v :: vs => JsonLike v ∧ JsonLikeItems vs
  termination_by structural l => l

def JsonLikeEntries : List (Key × Value) → Prop
  | [] => True
  | (_, v) :: es => JsonLike v ∧ JsonLikeEntries es
  termination_by structural l => l
end

/-- A key that is empty, no string or secret-like. -/
def BadKey : Key → Prop
  | .str s => s = [] ∨ isSecretLikePublicKey s = true
  | _ => True

instance : DecidablePred BadKey := fun k =>
  match k with
  | .str _ => inferInstanceAs (Decidable (_ ∨ _))
  | .none | .bool _ | .int _ | .float _ | .object _ => .isTrue trivial

/-- The keys are public, and the walk has room for the nesting. -/
def Publishable (keys : List Key) (height frames : Nat) : Prop :=
  (∀ k ∈ keys, ¬ BadKey k) ∧ height ≤ frames

theorem publicMetadataKey_ok {k : Key} (h : ¬ BadKey k) : ∃ s, publicMetadataKey k = .ok s := by
  cases k with
  | str s =>
    simp only [BadKey, not_or] at h
    exact ⟨s, by rw [publicMetadataKey, if_neg h.1, if_neg h.2]⟩
  | _ => exact absurd trivial h

theorem publicMetadataKey_error {k : Key} (h : BadKey k) : ∃ e, publicMetadataKey k = .error e := by
  cases k with
  | str s =>
    by_cases hs : s = []
    · exact ⟨.domain 0, by rw [publicMetadataKey, if_pos hs]⟩
    · have hsecret := h.resolve_left hs
      exact ⟨.domain 1, by rw [publicMetadataKey, if_neg hs, if_pos hsecret]⟩
  | _ => exact ⟨.domain 0, rfl⟩

theorem publishable_append {a b : List Key} {m n frames : Nat} :
    Publishable (a ++ b) (max m n) frames ↔ Publishable a m frames ∧ Publishable b n frames := by
  simp only [Publishable, List.mem_append, or_imp, forall_and, Nat.max_le]
  tauto

theorem publishable_cons {k : Key} {keys : List Key} {m frames : Nat} :
    Publishable (k :: keys) m frames ↔ ¬ BadKey k ∧ Publishable keys m frames := by
  simp only [Publishable, List.mem_cons, or_imp, forall_and, forall_eq]
  tauto

section Walk

variable {ι : Type}

/-- A part of the walk passes exactly where the condition holds, and leaves the ancestors as they
are. -/
def Checks {β : Type} (w : Walk ι) (P : Prop) (r : Except Reject (β × Walk ι)) : Prop :=
  Outcome (fun r => P ∧ r.2.ancestors = w.ancestors ∧ r.2.size = none) (fun _ => ¬ P) r

theorem Checks.bind {β γ : Type} {w : Walk ι} {P Q : Prop} {r : Except Reject (β × Walk ι)}
    {k : β × Walk ι → Except Reject (γ × Walk ι)} (h : Checks w P r)
    (hk : ∀ y w', w'.ancestors = w.ancestors → w'.size = none → Checks w' Q (k (y, w'))) :
    Checks w (P ∧ Q) (r >>= k) := by
  cases r with
  | error e => exact fun hPQ => h hPQ.1
  | ok r =>
    obtain ⟨y, w'⟩ := r
    obtain ⟨hP, hancestors, hsize⟩ := h
    apply Outcome.imp (hk y w' hancestors hsize)
    · rintro z ⟨hQ, hz, hsz⟩
      exact ⟨⟨hP, hQ⟩, hz.trans hancestors, hsz⟩
    · exact fun e hQ hPQ => hQ hPQ.2

theorem Checks.map {β γ : Type} {w : Walk ι} {P : Prop} {r : Except Reject (β × Walk ι)}
    (h : Checks w P r) (f : β → γ) :
    Checks w P (r >>= fun p => pure (f p.1, p.2)) := by
  cases r with
  | error e => exact h
  | ok r => exact h

theorem Checks.congr {β : Type} {w : Walk ι} {P Q : Prop} {r : Except Reject (β × Walk ι)}
    (h : Checks w P r) (hPQ : P ↔ Q) : Checks w Q r := by
  rwa [← propext hPQ]

/-- Without limits the walk only counts. -/
theorem addBytes_free {w : Walk ι} (hw : w.size = none) (n : Nat) :
    w.addBytes metadataConfig n = .ok w := by
  simp only [Walk.addBytes, hw]

theorem addScalar_free {w : Walk ι} (hw : w.size = none) (s : Scalar) :
    w.addScalar metadataConfig s = .ok w := by
  simp only [Walk.addScalar, hw]

theorem metadata_scalar (s : Scalar) : metadataConfig.check.scalar s = .ok s := by
  cases s <;> rfl

variable [DecidableEq ι] {g : Graph ι}

theorem checks_leaf {x : ι} {s : Scalar} (hview : g.view x = .scalar s) (frames depth : Nat)
    {w : Walk ι} (hw : w.size = none) :
    Checks w (Publishable [] 0 frames) (freeze metadataConfig g frames x depth w) := by
  have hrun : freeze metadataConfig g frames x depth w =
      .ok (.scalar s, { w with nodes := w.nodes + 1 }) := by
    have hscalar : ({ w with nodes := w.nodes + 1 } : Walk ι).addScalar metadataConfig s =
        .ok { w with nodes := w.nodes + 1 } :=
      addScalar_free (w := { w with nodes := w.nodes + 1 }) hw s
    rw [freeze.eq_def]
    simp only [hview]
    show (do
      let s ← metadataConfig.check.scalar s
      let w ← ({ w with nodes := w.nodes + 1 } : Walk ι).addScalar metadataConfig s
      return (ImmutableJSON.scalar s, w)) = _
    rw [metadata_scalar]
    show (do
      let w ← ({ w with nodes := w.nodes + 1 } : Walk ι).addScalar metadataConfig s
      return (ImmutableJSON.scalar s, w)) = _
    rw [hscalar]
    rfl
  rw [hrun]
  exact ⟨⟨by simp, Nat.zero_le _⟩, rfl, hw⟩

/-- A container: its parts are checked under it. -/
theorem checks_container {β : Type} {x : ι} {P : Prop} {loop : Walk ι → Except Reject (β × Walk ι)}
    (close : β → ImmutableJSON) {w : Walk ι} (hx : x ∉ w.ancestors) (hw : w.size = none)
    (h : Checks { w with ancestors := x :: w.ancestors } P
      (loop { w with ancestors := x :: w.ancestors })) :
    Checks w P
      (do
        let w ← w.enter x
        let w ← w.addBytes metadataConfig 2
        let (y, w) ← loop w
        return (close y, w.discard x)) := by
  have henter : w.enter x = .ok { w with ancestors := x :: w.ancestors } := if_neg hx
  have hbytes : ({ w with ancestors := x :: w.ancestors } : Walk ι).addBytes metadataConfig 2 =
      .ok { w with ancestors := x :: w.ancestors } :=
    addBytes_free (w := { w with ancestors := x :: w.ancestors }) hw 2
  rw [henter]
  show Checks w P (do
    let w ← ({ w with ancestors := x :: w.ancestors } : Walk ι).addBytes metadataConfig 2
    let (y, w) ← loop w
    return (close y, w.discard x))
  rw [hbytes]
  show Checks w P (do
    let (y, w) ← loop { w with ancestors := x :: w.ancestors }
    return (close y, w.discard x))
  cases hloop : loop { w with ancestors := x :: w.ancestors } with
  | error e =>
    rw [hloop] at h
    exact h
  | ok r =>
    rw [hloop] at h
    obtain ⟨hP, hancestors, hsize⟩ := h
    refine ⟨hP, ?_, hsize⟩
    show r.2.ancestors.erase x = w.ancestors
    rw [hancestors, List.erase_cons_head]

/-- The walk passes the node and the depth of a container. -/
theorem freeze_mapping {x : ι} {zs : List (Key × ι)} (hview : g.view x = .mapping zs)
    (frames depth : Nat) (w : Walk ι) :
    freeze metadataConfig g (frames + 1) x depth w = (do
      let w ← ({ w with nodes := w.nodes + 1 } : Walk ι).enter x
      let w ← w.addBytes metadataConfig 2
      let (fs, w) ← freezeEntries metadataConfig
        (fun y w => freeze metadataConfig g frames y (depth + 1) w) 0 [] zs w
      return (.mapping fs, w.discard x)) := by
  rw [freeze.eq_def]
  simp only [hview]
  rfl

theorem freeze_sequence {x : ι} {ys : List ι} (hview : g.view x = .sequence ys)
    (frames depth : Nat) (w : Walk ι) :
    freeze metadataConfig g (frames + 1) x depth w = (do
      let w ← ({ w with nodes := w.nodes + 1 } : Walk ι).enter x
      let w ← w.addBytes metadataConfig 2
      let (fs, w) ← freezeItems metadataConfig
        (fun y w => freeze metadataConfig g frames y (depth + 1) w) 0 ys w
      return (.tuple fs, w.discard x)) := by
  rw [freeze.eq_def]
  simp only [hview]
  rfl

/-- No container fits where there is no room. -/
theorem freeze_no_room {x : ι} (hview : (∃ zs, g.view x = .mapping zs) ∨ ∃ ys, g.view x = .sequence ys)
    (depth : Nat) (w : Walk ι) : freeze metadataConfig g 0 x depth w = .error .recursion := by
  rw [freeze.eq_def]
  obtain ⟨zs, hview⟩ | ⟨ys, hview⟩ := hview
  all_goals
    simp only [hview]
    rfl

mutual
/-- The walk of a tree passes exactly where every key is public and the nesting fits. -/
theorem checks_freeze : ∀ (v : Value) {x : ι} (frames depth : Nat) {w : Walk ι},
    Reads g v x → JsonLike v → Above g w x → w.size = none →
    Checks w (Publishable (keysOf v) (height v) frames) (freeze metadataConfig g frames x depth w)
  | .none, x, frames, depth, w, hv, _, _, hw => by
    simp only [Reads] at hv
    exact checks_leaf hv frames depth hw
  | .bool b, x, frames, depth, w, hv, _, _, hw => by
    simp only [Reads] at hv
    exact checks_leaf hv frames depth hw
  | .int i, x, frames, depth, w, hv, _, _, hw => by
    simp only [Reads] at hv
    exact checks_leaf hv frames depth hw
  | .float (.finite r), x, frames, depth, w, hv, _, _, hw => by
    simp only [Reads] at hv
    exact checks_leaf hv frames depth hw
  | .float .inf, _, _, _, _, _, hj, _, _ => by simp only [JsonLike] at hj
  | .float .negInf, _, _, _, _, _, hj, _, _ => by simp only [JsonLike] at hj
  | .float .nan, _, _, _, _, _, hj, _, _ => by simp only [JsonLike] at hj
  | .str s, x, frames, depth, w, hv, _, _, hw => by
    simp only [Reads] at hv
    exact checks_leaf hv frames depth hw
  | .list vs, x, frames, depth, w, hv, hj, ha, hw => by
    have hx : x ∉ w.ancestors := ha.not_mem hv
    simp only [Reads] at hv
    obtain ⟨ys, hview, hys⟩ := hv
    simp only [JsonLike] at hj
    simp only [keysOf, height]
    cases frames with
    | zero =>
      rw [freeze_no_room (.inr ⟨ys, hview⟩)]
      exact fun h => Nat.not_succ_le_zero _ h.2
    | succ frames =>
      have hchild : ∀ y ∈ ys, Above g { w with ancestors := x :: w.ancestors } y := by
        intro y hy
        apply ha.child
        unfold Graph.Edge
        rw [hview]
        exact hy
      have hloop := checks_items vs frames (depth + 1) 0
        (w := { w with nodes := w.nodes + 1, ancestors := x :: w.ancestors }) hys hj hchild hw
      rw [freeze_sequence hview]
      apply Checks.congr (P := Publishable (keysOfItems vs) (heightItems vs) frames)
      · exact checks_container (w := { w with nodes := w.nodes + 1 }) .tuple hx hw hloop
      · simp only [Publishable, Nat.add_le_add_iff_right]
  | .dict es, x, frames, depth, w, hv, hj, ha, hw => by
    have hx : x ∉ w.ancestors := ha.not_mem hv
    simp only [Reads] at hv
    obtain ⟨zs, hview, hzs⟩ := hv
    simp only [JsonLike] at hj
    simp only [keysOf, height]
    cases frames with
    | zero =>
      rw [freeze_no_room (.inl ⟨zs, hview⟩)]
      exact fun h => Nat.not_succ_le_zero _ h.2
    | succ frames =>
      have hchild : ∀ y ∈ zs.map Prod.snd, Above g { w with ancestors := x :: w.ancestors } y := by
        intro y hy
        apply ha.child
        unfold Graph.Edge
        rw [hview]
        exact hy
      have hloop := checks_entries es frames (depth + 1) 0 []
        (w := { w with nodes := w.nodes + 1, ancestors := x :: w.ancestors }) hzs hj hchild hw
      rw [freeze_mapping hview]
      apply Checks.congr (P := Publishable (keysOfEntries es) (heightEntries es) frames)
      · exact checks_container (w := { w with nodes := w.nodes + 1 }) .mapping hx hw hloop
      · simp only [Publishable, Nat.add_le_add_iff_right]
  | .object _, _, _, _, _, _, hj, _, _ => by simp only [JsonLike] at hj
  termination_by structural v => v

theorem checks_items : ∀ (vs : List Value) {ys : List ι} (frames depth index : Nat) {w : Walk ι},
    ReadsItems g vs ys → JsonLikeItems vs → (∀ y ∈ ys, Above g w y) → w.size = none →
    Checks w (Publishable (keysOfItems vs) (heightItems vs) frames)
      (freezeItems metadataConfig (fun y w => freeze metadataConfig g frames y depth w) index ys w)
  | [], ys, frames, depth, index, w, hv, _, _, hw => by
    simp only [ReadsItems] at hv
    subst hv
    exact ⟨⟨by simp [keysOfItems], Nat.zero_le _⟩, rfl, hw⟩
  | v :: vs, ys, frames, depth, index, w, hv, hj, ha, hw => by
    simp only [ReadsItems] at hv
    obtain ⟨y, ys', rfl, hy, hys⟩ := hv
    simp only [JsonLikeItems] at hj
    simp only [keysOfItems, heightItems]
    have hcomma : (if index = 0 then .ok w else w.addBytes metadataConfig 1) =
        (.ok w : Except Reject (Walk ι)) := by
      split
      · rfl
      · exact addBytes_free hw 1
    have hitem := checks_freeze v frames depth hy hj.1 (ha y (List.mem_cons_self ..)) hw
    rw [freezeItems, hcomma]
    apply Checks.congr ?_ publishable_append.symm
    apply hitem.bind
    intro f w' hancestors hw'
    apply Checks.map (checks_items vs frames depth (index + 1) hys hj.2 ?_ hw')
    intro z hz a ha'
    rw [hancestors] at ha'
    exact ha z (List.mem_cons_of_mem y hz) a ha'
  termination_by structural vs => vs

theorem checks_entries : ∀ (es : List (Key × Value)) {zs : List (Key × ι)}
    (frames depth index : Nat) (frozen : List (Str × ImmutableJSON)) {w : Walk ι},
    ReadsEntries g es zs → JsonLikeEntries es → (∀ y ∈ zs.map Prod.snd, Above g w y) →
    w.size = none →
    Checks w (Publishable (keysOfEntries es) (heightEntries es) frames)
      (freezeEntries metadataConfig (fun y w => freeze metadataConfig g frames y depth w) index
        frozen zs w)
  | [], zs, frames, depth, index, frozen, w, hv, _, _, hw => by
    simp only [ReadsEntries] at hv
    subst hv
    exact ⟨⟨by simp [keysOfEntries], Nat.zero_le _⟩, rfl, hw⟩
  | (k, v) :: es, zs, frames, depth, index, frozen, w, hv, hj, ha, hw => by
    simp only [ReadsEntries] at hv
    obtain ⟨y, zs', rfl, hy, hes⟩ := hv
    simp only [JsonLikeEntries] at hj
    simp only [keysOfEntries, heightEntries]
    by_cases hbad : BadKey k
    · obtain ⟨e, he⟩ := publicMetadataKey_error hbad
      have hrun : freezeEntries metadataConfig (fun y w => freeze metadataConfig g frames y depth w)
          index frozen ((k, y) :: zs') w = .error e := by
        rw [freezeEntries]
        show (publicMetadataKey k >>= _) = _
        rw [he]
        rfl
      rw [hrun]
      exact fun h => h.1 k (List.mem_cons_self ..) hbad
    · obtain ⟨key, hkey⟩ := publicMetadataKey_ok hbad
      have hw1 : ({ w with keys := w.keys + 1 } : Walk ι).size = none := hw
      have hrun : freezeEntries metadataConfig (fun y w => freeze metadataConfig g frames y depth w)
          index frozen ((k, y) :: zs') w = (do
            let (f, w) ← freeze metadataConfig g frames y depth { w with keys := w.keys + 1 }
            freezeEntries metadataConfig (fun y w => freeze metadataConfig g frames y depth w)
              (index + 1) (setEntry frozen key f) zs' w) := by
        rw [freezeEntries]
        show (publicMetadataKey k >>= _) = _
        rw [hkey]
        show (({ w with keys := w.keys + 1 } : Walk ι).addScalar metadataConfig (.str key) >>= _) = _
        rw [addScalar_free hw1]
        show (({ w with keys := w.keys + 1 } : Walk ι).addBytes metadataConfig _ >>= _) = _
        rw [addBytes_free hw1]
        rfl
      have hitem := checks_freeze v frames depth (w := { w with keys := w.keys + 1 }) hy hj.1
        (ha y (List.mem_cons_self ..)) hw
      rw [hrun]
      apply Checks.congr (P := Publishable (keysOf v) (height v) frames ∧
        Publishable (keysOfEntries es) (heightEntries es) frames)
      · apply Checks.bind (w := { w with keys := w.keys + 1 }) hitem
        intro f w' hancestors hw'
        apply checks_entries es frames depth (index + 1) (setEntry frozen key f) hes hj.2 ?_ hw'
        intro z hz a ha'
        rw [hancestors] at ha'
        exact ha z (List.mem_cons_of_mem y hz) a ha'
      · rw [publishable_cons, publishable_append]
        exact (and_iff_right hbad).symm
  termination_by structural es => es
end

/-- A tree is refused exactly for a bad key at some depth, or for nesting that does not fit. -/
theorem freezePublicMetadata_error {es : List (Key × Value)} {x : ι} (hreads : Reads g (.dict es) x)
    (hjson : JsonLike (.dict es)) (frames : Nat) :
    (∃ e, freezePublicMetadata g frames x = .error e) ↔
      (∃ k ∈ keysOf (.dict es), BadKey k) ∨ frames < height (.dict es) := by
  have hcheck := checks_freeze (.dict es) frames 0 (w := .start {}) hreads hjson
    (fun a ha => by cases ha) rfl
  simp only [Reads] at hreads
  obtain ⟨zs, hview, _⟩ := hreads
  have hrun : freezePublicMetadata g frames x =
      (freezeJson metadataConfig g frames x).map FrozenJSON.value := by
    simp only [freezePublicMetadata, hview]
  rw [hrun, freezeJson]
  cases hfreeze : freeze metadataConfig g frames x 0 (.start metadataConfig.limits) with
  | error e =>
    have hcheck : Checks (.start {}) _ (.error e) := hfreeze ▸ hcheck
    have hnot : ¬ Publishable (keysOf (.dict es)) (height (.dict es)) frames := hcheck
    simp only [Publishable, not_and_or, not_forall, not_not, not_le, exists_prop] at hnot
    exact iff_of_true ⟨e, rfl⟩ hnot
  | ok r =>
    have hcheck : Checks (.start {}) _ (.ok r) := hfreeze ▸ hcheck
    have hpass : Publishable (keysOf (.dict es)) (height (.dict es)) frames := hcheck.1
    apply iff_of_false
    · rintro ⟨e, he⟩
      cases he
    · rintro (⟨k, hk, hbad⟩ | hroom)
      · exact hpass.1 k hk hbad
      · exact absurd hpass.2 (Nat.not_le.2 hroom)

end Walk

/-- A key in camel case or Pascal case is refused as its words in snake case are, exactly where the
words are still secret once each that ends in a capital is joined with the next; the spellings with
separators are always refused. A metadata tree is refused exactly for a bad key at some depth, where
the recursion limit leaves room for its nesting. -/
theorem secret_spellings_iff (words : List Word) (humps : List Hump) {ι : Type} [DecidableEq ι]
    (g : Graph ι) (x : ι) (es : List (Key × Value)) (frames : Nat) :
    (isSecretLikePublicKey (snakeCase words) = true →
      isSecretLikePublicKey (kebabCase words) = true ∧
      isSecretLikePublicKey (dottedCase words) = true ∧
      isSecretLikePublicKey (upperSnakeCase words) = true) ∧
    (IsCamel humps →
      ((isSecretLikePublicKey (snakeCase (humps.map Hump.word)) = true →
          isSecretLikePublicKey (camelCase humps) = true) ↔
        (isSecret (humps.map fun h => h.word.text) = true →
          isSecret (Hump.runs (fun h => h.word.text) humps) = true))) ∧
    (Reads g (.dict es) x → JsonLike (.dict es) →
      (((∃ e, freezePublicMetadata g frames x = .error e) ↔ ∃ k ∈ keysOf (.dict es), BadKey k) ↔
        (height (.dict es) ≤ frames ∨ ∃ k ∈ keysOf (.dict es), BadKey k))) := by
  refine ⟨?_, ?_, ?_⟩
  · intro h
    unfold isSecretLikePublicKey at h ⊢
    rw [snakeCase, segments_delimited (by decide)] at h
    rw [kebabCase, dottedCase, segments_delimited (by decide), segments_delimited (by decide),
      segments_upperSnake]
    exact ⟨h, h, h⟩
  · intro h
    unfold isSecretLikePublicKey
    rw [snakeCase, segments_delimited (by decide), segments_camelCase h, List.map_map]
    rfl
  · intro hreads hjson
    rw [freezePublicMetadata_error hreads hjson]
    by_cases hbad : ∃ k ∈ keysOf (.dict es), BadKey k
    · simp only [hbad, true_or, or_true]
    · simp only [hbad, false_or, or_false, iff_false, not_lt]

def apiWord : Word := ⟨Json.str "api", by decide, by decide⟩
def keyWord : Word := ⟨Json.str "key", by decide, by decide⟩

/-- Object 0 maps `apiKey` to object 1, which is `None`. -/
def keyGraph : Graph (Fin 2) where
  view
    | 0 => .mapping [(.str (Json.str "apiKey"), 1)]
    | 1 => .scalar .none
  distinct x es h := by
    split at h <;> cases h
    simp

theorem secret_spellings_apiKey :
    isSecretLikePublicKey (kebabCase [apiWord, keyWord]) = true ∧
    isSecretLikePublicKey (camelCase [⟨apiWord, .lower⟩, ⟨keyWord, .capital⟩]) = true ∧
    ∃ e, freezePublicMetadata keyGraph 9 0 = .error e := by
  obtain ⟨hdelimited, hcamel, htree⟩ := secret_spellings_iff [apiWord, keyWord]
    [⟨apiWord, .lower⟩, ⟨keyWord, .capital⟩] keyGraph 0 [(.str (Json.str "apiKey"), .none)] 9
  refine ⟨?_, ?_, ?_⟩
  · exact (hdelimited (by decide)).1
  · exact (hcamel (by decide)).2 (fun h => h) (by decide)
  · have hreads : Reads keyGraph (.dict [(.str (Json.str "apiKey"), .none)]) 0 := by
      simp only [Reads, ReadsEntries]
      exact ⟨_, rfl, 1, [], rfl, rfl, rfl⟩
    have hjson : JsonLike (.dict [(.str (Json.str "apiKey"), .none)]) := by
      simp only [JsonLike, JsonLikeEntries, and_self]
    have hbad : ∃ k ∈ keysOf (.dict [(.str (Json.str "apiKey"), .none)]), BadKey k := by
      decide
    exact ((htree hreads hjson).2 (.inr hbad)).2 hbad

/-- `APIKey` is published, where `api_key` is refused. -/
theorem acronym_published : ∃ humps : List Hump, IsCamel humps ∧
    camelCase humps = Json.str "APIKey" ∧
    isSecretLikePublicKey (snakeCase (humps.map Hump.word)) = true ∧
    isSecretLikePublicKey (camelCase humps) = false ∧
    publicMetadataKey (.str (camelCase humps)) = .ok (Json.str "APIKey") :=
  ⟨[⟨apiWord, .acronym⟩, ⟨keyWord, .capital⟩], by decide, by decide, by decide, by decide, by rfl⟩

end KestrelSdk.Llm

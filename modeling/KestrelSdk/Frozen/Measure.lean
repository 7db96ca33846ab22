import KestrelSdk.Frozen.Bill
import KestrelSdk.Json.RoundTrip

namespace KestrelSdk.Frozen

open Json (Str Bytes Key Value)

/-! Scalars. -/

/-- The bytes of an encoded scalar. -/
def Scalar.size (s : Scalar) : Option Nat :=
  match s.encoded with
  | .ok b => some b.length
  | .error _ => Option.none

theorem encodePoint_pos {c : Nat} {b : Bytes} (h : Json.encodePoint c = some b) : 0 < b.length := by
  unfold Json.encodePoint at h
  split_ifs at h <;> cases h <;> simp

theorem encodeUtf8_pos {t : Str} {b : Bytes} (ht : t ≠ []) (h : Json.encodeUtf8 t = some b) :
    0 < b.length := by
  cases t with
  | nil => exact absurd rfl ht
  | cons c t =>
    simp only [Json.encodeUtf8, Option.bind_eq_bind, Option.bind_eq_some_iff, Option.pure_def,
      Option.some.injEq] at h
    obtain ⟨x, hx, y, _, rfl⟩ := h
    have hpos := encodePoint_pos hx
    rw [List.length_append]
    omega

theorem natText_ne_nil (n : Nat) : Json.natText n ≠ [] := by
  unfold Json.natText
  rw [Ne, List.map_eq_nil_iff]
  exact Nat.toDigits_ne_nil

theorem Scalar.text_ne_nil {s : Scalar} {t : Str} (h : s.text = some t) : t ≠ [] := by
  cases s with
  | none => cases h; decide
  | bool b => cases h; cases b <;> decide
  | int i =>
    simp only [Scalar.text, Json.dumpInt] at h
    split at h
    · cases h
    · cases h
      split
      · simp
      · exact natText_ne_nil _
  | float r =>
    cases h
    simp [Json.FloatRepr.text, natText_ne_nil]
  | str s => cases h; simp [quote]

theorem Scalar.size_pos {s : Scalar} {n : Nat} (h : s.size = some n) : 0 < n := by
  unfold Scalar.size Scalar.encoded at h
  cases ht : s.text with
  | none => simp [ht] at h
  | some t =>
    cases hb : Json.encodeUtf8 t with
    | none => simp [ht, hb] at h
    | some b =>
      simp only [ht, hb, Option.some.injEq] at h
      rw [← h]
      exact encodeUtf8_pos (Scalar.text_ne_nil ht) hb

theorem charges_scalar {ι : Type} {c : Config} {w : Walk ι} (s : Scalar) :
    Charges c.limits w (.bytes s.size) (w.addScalar c s) (w.pay (.bytes s.size)) := by
  unfold Walk.addScalar
  cases hs : w.size with
  | none =>
    constructor
    · intro _
      simp only [Walk.pay, Bill.bytes, hs, addSize, Nat.add_zero]
      rw [← hs]
    · intro h
      refine absurd ⟨.inl rfl, .inl rfl, .inl rfl, ?_⟩ h
      rw [hs]
      trivial
  | some m =>
    cases hb : s.encoded with
    | error e =>
      have hsize : s.size = Option.none := by simp [Scalar.size, hb]
      refine ⟨fun h => ?_, fun _ => ⟨e, rfl⟩⟩
      have hafford := h.2.2.2
      rw [hs, hsize] at hafford
      exact hafford.elim
    | ok b =>
      have hsize : s.size = some b.length := by simp [Scalar.size, hb]
      rw [hsize]
      exact charges_bytes (Scalar.size_pos hsize)

/-! Trees. -/

/-- The bytes of a key. -/
def keySize : Key → Option Nat
  | .str k => (Scalar.str k).size
  | _ => none

mutual
/-- What the walk of a value at a depth costs. -/
def bill (depth : Nat) : Value → Bill
  | .none => .level depth + (.node + .bytes Scalar.none.size)
  | .bool b => .level depth + (.node + .bytes (Scalar.bool b).size)
  | .int i => .level depth + (.node + .bytes (Scalar.int i).size)
  | .float (.finite r) => .level depth + (.node + .bytes (Scalar.float r).size)
  | .float _ => .level depth + .node
  | .str s => .level depth + (.node + .bytes (Scalar.str s).size)
  | .list vs => .level depth + (.node + (.bytes (some 2) + billItems (depth + 1) true vs))
  | .dict es => .level depth + (.node + (.bytes (some 2) + billEntries (depth + 1) true es))
  | .object _ => .level depth + .node
  termination_by structural v => v

def billItems (depth : Nat) (first : Bool) : List Value → Bill
  | [] => .zero
  | v :: vs => (if first then .zero else .bytes (some 1)) + (bill depth v + billItems depth false vs)
  termination_by structural l => l

def billEntries (depth : Nat) (first : Bool) : List (Key × Value) → Bill
  | [] => .zero
  | (k, v) :: es =>
    .key + (.bytes (keySize k) + (.bytes (some (1 + if first then 0 else 1)) +
      (bill depth v + billEntries depth false es)))
  termination_by structural l => l
end

mutual
/-- The containers on the longest path, which is the nesting that the walk needs. -/
def height : Value → Nat
  | .list vs => heightItems vs + 1
  | .dict es => heightEntries es + 1
  | _ => 0
  termination_by structural v => v

def heightItems : List Value → Nat
  | [] => 0
  | v :: vs => max (height v) (heightItems vs)
  termination_by structural l => l

def heightEntries : List (Key × Value) → Nat
  | [] => 0
  | (_, v) :: es => max (height v) (heightEntries es)
  termination_by structural l => l
end

mutual
/-- JSON values: string keys, each once, finite floats and no other object. -/
def IsJson : Value → Prop
  | .float (.finite _) => True
  | .float _ => False
  | .list vs => IsJsonItems vs
  | .dict es => IsJsonEntries es
  | .object _ => False
  | _ => True
  termination_by structural v => v

def IsJsonItems : List Value → Prop
  | [] => True
  | v :: vs => IsJson v ∧ IsJsonItems vs
  termination_by structural l => l

def IsJsonEntries : List (Key × Value) → Prop
  | [] => True
  | (k, v) :: es => (∃ s, k = .str s) ∧ k ∉ es.map Prod.fst ∧ IsJson v ∧ IsJsonEntries es
  termination_by structural l => l
end

section Reads

variable {ι : Type} (g : Graph ι)

mutual
/-- The object is the value, with lists and tuples read as lists and no object of another type. -/
def Reads : Value → ι → Prop
  | .none, x => g.view x = .scalar .none
  | .bool b, x => g.view x = .scalar (.bool b)
  | .int i, x => g.view x = .scalar (.int i)
  | .float (.finite r), x => g.view x = .scalar (.float r)
  | .float y, x => g.view x = .nonFinite y
  | .str s, x => g.view x = .scalar (.str s)
  | .list vs, x => ∃ ys, g.view x = .sequence ys ∧ ReadsItems vs ys
  | .dict es, x => ∃ zs, g.view x = .mapping zs ∧ ReadsEntries es zs
  | .object _, _ => False
  termination_by structural v => v

def ReadsItems : List Value → List ι → Prop
  | [], ys => ys = []
  | v :: vs, ys => ∃ y ys', ys = y :: ys' ∧ Reads v y ∧ ReadsItems vs ys'
  termination_by structural l => l

def ReadsEntries : List (Key × Value) → List (Key × ι) → Prop
  | [], zs => zs = []
  | (k, v) :: es, zs => ∃ y zs', zs = (k, y) :: zs' ∧ Reads v y ∧ ReadsEntries es zs'
  termination_by structural l => l
end

/-- The objects that an object holds. -/
def View.children : View ι → List ι
  | .mapping entries => entries.map Prod.snd
  | .sequence items => items
  | _ => []

def Graph.Edge (x y : ι) : Prop := y ∈ (g.view x).children

end Reads

mutual
/-- The nodes of a value, each counted. -/
def nodeCount : Value → Nat
  | .list vs => nodeCountItems vs + 1
  | .dict es => nodeCountEntries es + 1
  | _ => 1
  termination_by structural v => v

def nodeCountItems : List Value → Nat
  | [] => 0
  | v :: vs => nodeCount v + nodeCountItems vs
  termination_by structural l => l

def nodeCountEntries : List (Key × Value) → Nat
  | [] => 0
  | (_, v) :: es => nodeCount v + nodeCountEntries es
  termination_by structural l => l
end

section Acyclic

variable {ι : Type} {g : Graph ι}

theorem readsItems_child {vs : List Value} {ys : List ι} (h : ReadsItems g vs ys) {y : ι}
    (hy : y ∈ ys) : ∃ v, Reads g v y ∧ nodeCount v ≤ nodeCountItems vs := by
  induction vs generalizing ys with
  | nil =>
    simp only [ReadsItems] at h
    subst h
    cases hy
  | cons v vs ih =>
    simp only [ReadsItems] at h
    obtain ⟨z, ys', rfl, hv, hvs⟩ := h
    simp only [nodeCountItems]
    obtain rfl | hy := List.mem_cons.1 hy
    · exact ⟨v, hv, by omega⟩
    · obtain ⟨u, hu, hle⟩ := ih hvs hy
      exact ⟨u, hu, by omega⟩

theorem readsEntries_child {es : List (Key × Value)} {zs : List (Key × ι)}
    (h : ReadsEntries g es zs) {y : ι} (hy : y ∈ zs.map Prod.snd) :
    ∃ v, Reads g v y ∧ nodeCount v ≤ nodeCountEntries es := by
  induction es generalizing zs with
  | nil =>
    simp only [ReadsEntries] at h
    subst h
    cases hy
  | cons e es ih =>
    obtain ⟨k, v⟩ := e
    simp only [ReadsEntries] at h
    obtain ⟨z, zs', rfl, hv, hes⟩ := h
    simp only [nodeCountEntries]
    obtain rfl | hy := List.mem_cons.1 hy
    · exact ⟨v, hv, by omega⟩
    · obtain ⟨u, hu, hle⟩ := ih hes hy
      exact ⟨u, hu, by omega⟩

/-- What an object of a tree holds is a smaller tree. -/
theorem Reads.child {v : Value} {x y : ι} (h : Reads g v x) (hy : g.Edge x y) :
    ∃ u, Reads g u y ∧ nodeCount u < nodeCount v := by
  unfold Graph.Edge at hy
  cases v with
  | list vs =>
    simp only [Reads] at h
    obtain ⟨ys, hview, hys⟩ := h
    rw [hview] at hy
    obtain ⟨u, hu, hle⟩ := readsItems_child hys hy
    exact ⟨u, hu, by simp only [nodeCount]; omega⟩
  | dict es =>
    simp only [Reads] at h
    obtain ⟨zs, hview, hzs⟩ := h
    rw [hview] at hy
    obtain ⟨u, hu, hle⟩ := readsEntries_child hzs hy
    exact ⟨u, hu, by simp only [nodeCount]; omega⟩
  | float r =>
    cases r <;> simp only [Reads] at h <;> simp [h, View.children] at hy
  | none => simp only [Reads] at h; simp [h, View.children] at hy
  | bool b => simp only [Reads] at h; simp [h, View.children] at hy
  | int i => simp only [Reads] at h; simp [h, View.children] at hy
  | str s => simp only [Reads] at h; simp [h, View.children] at hy
  | object n => simp only [Reads] at h

/-- What the view of an object says about its value. -/
def ReadsView (g : Graph ι) (v : Value) : View ι → Prop
  | .scalar s => v = s.value
  | .nonFinite y => v = .float y
  | .mapping zs => ∃ es, v = .dict es ∧ ReadsEntries g es zs
  | .sequence ys => ∃ vs, v = .list vs ∧ ReadsItems g vs ys
  | .other => False

theorem Reads.view {v : Value} {x : ι} (h : Reads g v x) : ReadsView g v (g.view x) := by
  cases v with
  | list vs =>
    simp only [Reads] at h
    obtain ⟨ys, hview, hys⟩ := h
    rw [hview]
    exact ⟨vs, rfl, hys⟩
  | dict es =>
    simp only [Reads] at h
    obtain ⟨zs, hview, hzs⟩ := h
    rw [hview]
    exact ⟨es, rfl, hzs⟩
  | float r =>
    cases r <;> simp only [Reads] at h <;> rw [h] <;> rfl
  | none => simp only [Reads] at h; rw [h]; rfl
  | bool b => simp only [Reads] at h; rw [h]; rfl
  | int i => simp only [Reads] at h; rw [h]; rfl
  | str s => simp only [Reads] at h; rw [h]; rfl
  | object n => simp only [Reads] at h

mutual
/-- An object is one value. -/
theorem Reads.unique : ∀ (v : Value) {u : Value} {x : ι}, Reads g v x → Reads g u x → v = u
  | .list vs, u, x, hv, hu => by
    simp only [Reads] at hv
    obtain ⟨ys, hview, hys⟩ := hv
    have hu := hu.view
    rw [hview] at hu
    obtain ⟨us, rfl, hus⟩ := hu
    rw [ReadsItems.unique vs hys hus]
  | .dict es, u, x, hv, hu => by
    simp only [Reads] at hv
    obtain ⟨zs, hview, hzs⟩ := hv
    have hu := hu.view
    rw [hview] at hu
    obtain ⟨us, rfl, hus⟩ := hu
    rw [ReadsEntries.unique es hzs hus]
  | .float r, u, x, hv, hu => by
    have hv := hv.view
    have hu := hu.view
    cases hview : g.view x <;> rw [hview] at hv hu <;> simp_all [ReadsView]
  | .none, u, x, hv, hu => by
    have hv := hv.view
    have hu := hu.view
    cases hview : g.view x <;> rw [hview] at hv hu <;> simp_all [ReadsView]
  | .bool b, u, x, hv, hu => by
    have hv := hv.view
    have hu := hu.view
    cases hview : g.view x <;> rw [hview] at hv hu <;> simp_all [ReadsView]
  | .int i, u, x, hv, hu => by
    have hv := hv.view
    have hu := hu.view
    cases hview : g.view x <;> rw [hview] at hv hu <;> simp_all [ReadsView]
  | .str s, u, x, hv, hu => by
    have hv := hv.view
    have hu := hu.view
    cases hview : g.view x <;> rw [hview] at hv hu <;> simp_all [ReadsView]
  | .object n, u, x, hv, _ => by simp only [Reads] at hv
  termination_by structural v => v

theorem ReadsItems.unique : ∀ (vs : List Value) {us : List Value} {ys : List ι},
    ReadsItems g vs ys → ReadsItems g us ys → vs = us
  | [], us, ys, hv, hu => by
    simp only [ReadsItems] at hv
    subst hv
    cases us with
    | nil => rfl
    | cons u us =>
      simp only [ReadsItems] at hu
      obtain ⟨_, _, h, _⟩ := hu
      cases h
  | v :: vs, us, ys, hv, hu => by
    simp only [ReadsItems] at hv
    obtain ⟨y, ys', rfl, hvy, hvs⟩ := hv
    cases us with
    | nil =>
      simp only [ReadsItems] at hu
      cases hu
    | cons u us =>
      simp only [ReadsItems] at hu
      obtain ⟨_, _, h, huy, hus⟩ := hu
      cases h
      rw [Reads.unique v hvy huy, ReadsItems.unique vs hvs hus]
  termination_by structural vs => vs

theorem ReadsEntries.unique : ∀ (es : List (Key × Value)) {us : List (Key × Value)}
    {zs : List (Key × ι)}, ReadsEntries g es zs → ReadsEntries g us zs → es = us
  | [], us, zs, hv, hu => by
    simp only [ReadsEntries] at hv
    subst hv
    cases us with
    | nil => rfl
    | cons u us =>
      obtain ⟨k, u⟩ := u
      simp only [ReadsEntries] at hu
      obtain ⟨_, _, h, _⟩ := hu
      cases h
  | (k, v) :: es, us, zs, hv, hu => by
    simp only [ReadsEntries] at hv
    obtain ⟨y, zs', rfl, hvy, hes⟩ := hv
    cases us with
    | nil =>
      simp only [ReadsEntries] at hu
      cases hu
    | cons u us =>
      obtain ⟨l, u⟩ := u
      simp only [ReadsEntries] at hu
      obtain ⟨_, _, h, huy, hus⟩ := hu
      cases h
      rw [Reads.unique v hvy huy, ReadsEntries.unique es hes hus]
  termination_by structural es => es
end

theorem Reads.descendant {v : Value} {x y : ι} (h : Reads g v x)
    (hy : Relation.TransGen g.Edge x y) : ∃ u, Reads g u y ∧ nodeCount u < nodeCount v := by
  induction hy with
  | single hy => exact h.child hy
  | tail _ hyz ih =>
    obtain ⟨u, hu, hlt⟩ := ih
    obtain ⟨t, ht, hlt'⟩ := hu.child hyz
    exact ⟨t, ht, by omega⟩

/-- No object of a tree reaches itself. -/
theorem Reads.acyclic {v : Value} {x : ι} (h : Reads g v x) : ¬ Relation.TransGen g.Edge x x := by
  intro hloop
  obtain ⟨u, hu, hlt⟩ := h.descendant hloop
  rw [Reads.unique v h hu] at hlt
  omega

end Acyclic

end KestrelSdk.Frozen

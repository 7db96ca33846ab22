import KestrelSdk.Frozen.Account

namespace KestrelSdk.Frozen

open Json (Str Bytes Key Value IsScalar)

/-! What the claims count. -/

mutual
/-- Nesting below the root. -/
def levels : Value → Nat
  | .list vs => levelsItems vs
  | .dict es => levelsEntries es
  | _ => 0
  termination_by structural v => v

def levelsItems : List Value → Nat
  | [] => 0
  | v :: vs => max (levels v + 1) (levelsItems vs)
  termination_by structural l => l

def levelsEntries : List (Key × Value) → Nat
  | [] => 0
  | (_, v) :: es => max (levels v + 1) (levelsEntries es)
  termination_by structural l => l
end

mutual
/-- The keys of all mappings. -/
def keyCount : Value → Nat
  | .list vs => keyCountItems vs
  | .dict es => keyCountEntries es
  | _ => 0
  termination_by structural v => v

def keyCountItems : List Value → Nat
  | [] => 0
  | v :: vs => keyCount v + keyCountItems vs
  termination_by structural l => l

def keyCountEntries : List (Key × Value) → Nat
  | [] => 0
  | (_, v) :: es => 1 + keyCount v + keyCountEntries es
  termination_by structural l => l
end

mutual
theorem bill_counts : ∀ (v : Value) (depth : Nat), (bill depth v).reach = depth + levels v + 1 ∧
    (bill depth v).nodes = nodeCount v ∧ (bill depth v).keys = keyCount v
  | .none, depth => by simp [bill, Bill.level, Bill.node, Bill.bytes, levels, nodeCount, keyCount]
  | .bool _, depth => by simp [bill, Bill.level, Bill.node, Bill.bytes, levels, nodeCount, keyCount]
  | .int _, depth => by simp [bill, Bill.level, Bill.node, Bill.bytes, levels, nodeCount, keyCount]
  | .float (.finite _), depth => by
    simp [bill, Bill.level, Bill.node, Bill.bytes, levels, nodeCount, keyCount]
  | .float .inf, depth => by simp [bill, Bill.level, Bill.node, levels, nodeCount, keyCount]
  | .float .negInf, depth => by simp [bill, Bill.level, Bill.node, levels, nodeCount, keyCount]
  | .float .nan, depth => by simp [bill, Bill.level, Bill.node, levels, nodeCount, keyCount]
  | .str _, depth => by simp [bill, Bill.level, Bill.node, Bill.bytes, levels, nodeCount, keyCount]
  | .object _, depth => by simp [bill, Bill.level, Bill.node, levels, nodeCount, keyCount]
  | .list vs, depth => by
    obtain ⟨hr, hn, hk⟩ := billItems_counts vs depth true
    simp only [bill, Bill.add_reach, Bill.add_nodes, Bill.add_keys, Bill.level, Bill.node, Bill.bytes,
      levels, nodeCount, keyCount]
    omega
  | .dict es, depth => by
    obtain ⟨hr, hn, hk⟩ := billEntries_counts es depth true
    simp only [bill, Bill.add_reach, Bill.add_nodes, Bill.add_keys, Bill.level, Bill.node, Bill.bytes,
      levels, nodeCount, keyCount]
    omega
  termination_by structural v => v

theorem billItems_counts : ∀ (vs : List Value) (depth : Nat) (first : Bool),
    max (depth + 1) (billItems (depth + 1) first vs).reach = depth + levelsItems vs + 1 ∧
    (billItems (depth + 1) first vs).nodes = nodeCountItems vs ∧
    (billItems (depth + 1) first vs).keys = keyCountItems vs
  | [], depth, _ => by simp [billItems, Bill.zero, levelsItems, nodeCountItems, keyCountItems]
  | v :: vs, depth, first => by
    obtain ⟨hr, hn, hk⟩ := bill_counts v (depth + 1)
    obtain ⟨hr', hn', hk'⟩ := billItems_counts vs depth false
    simp only [billItems, Bill.add_reach, Bill.add_nodes, Bill.add_keys, levelsItems,
      nodeCountItems, keyCountItems]
    cases first <;>
      simp only [Bill.zero, Bill.bytes, if_true, if_false, Bool.false_eq_true] <;>
      omega
  termination_by structural vs => vs

theorem billEntries_counts : ∀ (es : List (Key × Value)) (depth : Nat) (first : Bool),
    max (depth + 1) (billEntries (depth + 1) first es).reach = depth + levelsEntries es + 1 ∧
    (billEntries (depth + 1) first es).nodes = nodeCountEntries es ∧
    (billEntries (depth + 1) first es).keys = keyCountEntries es
  | [], depth, _ => by simp [billEntries, Bill.zero, levelsEntries, nodeCountEntries, keyCountEntries]
  | (k, v) :: es, depth, first => by
    obtain ⟨hr, hn, hk⟩ := bill_counts v (depth + 1)
    obtain ⟨hr', hn', hk'⟩ := billEntries_counts es depth false
    simp only [billEntries, Bill.add_reach, Bill.add_nodes, Bill.add_keys, levelsEntries,
      nodeCountEntries, keyCountEntries, Bill.key, Bill.bytes]
    omega
  termination_by structural es => es
end

/-! The bytes. -/

/-- The length of a text's encoding. -/
def textSize (t : Option Str) : Option Nat := (t.bind Json.encodeUtf8).map List.length

theorem encodeUtf8_append (s t : Str) :
    Json.encodeUtf8 (s ++ t) = do
      let a ← Json.encodeUtf8 s
      let b ← Json.encodeUtf8 t
      return a ++ b := by
  induction s with
  | nil => cases ht : Json.encodeUtf8 t <;> simp [Json.encodeUtf8, ht]
  | cons c s ih =>
    simp only [List.cons_append, Json.encodeUtf8, ih, Option.bind_eq_bind, Option.pure_def]
    cases Json.encodePoint c with
    | none => rfl
    | some x =>
      cases Json.encodeUtf8 s with
      | none => rfl
      | some a => cases Json.encodeUtf8 t <;> simp

theorem textSize_append (s t : Str) :
    textSize (some (s ++ t)) = addSize (textSize (some s)) (textSize (some t)) := by
  simp only [textSize, Option.bind_some, encodeUtf8_append, Option.bind_eq_bind, Option.pure_def]
  cases Json.encodeUtf8 s with
  | none => rfl
  | some a => cases Json.encodeUtf8 t <;> simp [addSize]

theorem textSize_cons {c : Nat} (hc : c < 0x80) (t : Str) :
    textSize (some (c :: t)) = addSize (some 1) (textSize (some t)) := by
  have hone : textSize (some [c]) = some 1 := by
    simp [textSize, Json.encodeUtf8, Json.encodePoint, hc]
  rw [← hone, ← textSize_append]
  rfl

theorem Scalar.size_eq (s : Scalar) : s.size = textSize s.text := by
  unfold Scalar.size Scalar.encoded textSize
  cases s.text with
  | none => rfl
  | some t => cases ht : Json.encodeUtf8 t <;> simp [ht]

theorem addSize_comm (a b : Option Nat) : addSize a b = addSize b a := by
  cases a <;> cases b <;> simp [addSize, Nat.add_comm]

theorem addSize_assoc (a b c : Option Nat) :
    addSize (addSize a b) c = addSize a (addSize b c) := by
  cases a <;> cases b <;> cases c <;> simp [addSize, Nat.add_assoc]

/-- The comma before the rest of a container. -/
def commaSize {α : Type} (first : Bool) (l : List α) : Option Nat :=
  if first || l.isEmpty then some 0 else some 1

theorem zero_addSize (a : Option Nat) : addSize (some 0) a = a := by
  cases a <;> simp [addSize]

theorem leaf_size (depth : Nat) (s : Scalar) :
    (Bill.level depth + (.node + .bytes s.size)).size = textSize s.text := by
  simp only [Bill.add_size, Bill.level, Bill.node, Bill.bytes, zero_addSize, Scalar.size_eq]

/-- A container is its items between two brackets. -/
theorem container_size {depth : Nat} {b : Bill} {t : Option Str} {opening closing : Nat}
    (ho : opening < 0x80) (hc : closing < 0x80) (hb : b.size = textSize t) :
    (Bill.level depth + (.node + (.bytes (some 2) + b))).size =
      textSize (t.bind fun t => some (opening :: (t ++ [closing]))) := by
  simp only [Bill.add_size, Bill.level, Bill.node, Bill.bytes, zero_addSize, hb]
  cases t with
  | none => rfl
  | some t =>
    rw [Option.bind_some, textSize_cons ho, textSize_append, textSize_cons hc]
    have hempty : textSize (some []) = some 0 := rfl
    rw [hempty, addSize_comm (textSize (some t)), ← addSize_assoc]
    rfl

/-- An item, and the rest behind a comma. -/
theorem join_size {α : Type} (l : List α) (a b : Option Str) (hb : l = [] → b = some []) :
    addSize (textSize a) (addSize (commaSize false l) (textSize b)) =
      textSize (a.bind fun t => b.bind fun ts =>
        some (if l.isEmpty then t else t ++ 44 :: ts)) := by
  cases a with
  | none => rfl
  | some t =>
    cases l with
    | nil =>
      rw [hb rfl]
      exact addSize_zero (textSize (some t))
    | cons x l =>
      cases b with
      | none =>
        have hnone : textSize none = none := rfl
        rw [hnone]
        cases textSize (some t) <;> rfl
      | some ts =>
        show _ = textSize (some (t ++ 44 :: ts))
        rw [textSize_append, textSize_cons (by decide)]
        rfl

mutual
/-- The bill of a value counts the bytes of its canonical encoding. -/
theorem bill_size : ∀ (v : Value) (depth : Nat), IsJson v → (bill depth v).size = textSize (dumps v)
  | .none, depth, _ => leaf_size depth .none
  | .bool b, depth, _ => leaf_size depth (.bool b)
  | .int i, depth, _ => leaf_size depth (.int i)
  | .float (.finite r), depth, _ => leaf_size depth (.float r)
  | .float .inf, depth, h => by simp only [IsJson] at h
  | .float .negInf, depth, h => by simp only [IsJson] at h
  | .float .nan, depth, h => by simp only [IsJson] at h
  | .str s, depth, _ => leaf_size depth (.str s)
  | .object _, depth, h => by simp only [IsJson] at h
  | .list vs, depth, h => by
    simp only [IsJson] at h
    have hitems := billItems_size vs (depth + 1) true h
    rw [commaSize, Bool.true_or, if_pos rfl, zero_addSize] at hitems
    exact container_size (by decide) (by decide) hitems
  | .dict es, depth, h => by
    simp only [IsJson] at h
    have hentries := billEntries_size es (depth + 1) true h
    rw [commaSize, Bool.true_or, if_pos rfl, zero_addSize] at hentries
    exact container_size (by decide) (by decide) hentries
  termination_by structural v => v

theorem billItems_size : ∀ (vs : List Value) (depth : Nat) (first : Bool), IsJsonItems vs →
    (billItems depth first vs).size = addSize (commaSize first vs) (textSize (dumpsItems vs))
  | [], depth, first, _ => by
    cases first <;> rfl
  | v :: vs, depth, first, h => by
    simp only [IsJsonItems] at h
    have hfirst : (if first then Bill.zero else Bill.bytes (some 1)).size =
        commaSize first (v :: vs) := by
      cases first <;> rfl
    simp only [billItems, Bill.add_size, hfirst, bill_size v depth h.1,
      billItems_size vs depth false h.2]
    have hempty : vs = [] → dumpsItems vs = some [] := by
      rintro rfl
      rfl
    rw [join_size vs (dumps v) (dumpsItems vs) hempty]
    rfl
  termination_by structural vs => vs

theorem billEntries_size : ∀ (es : List (Key × Value)) (depth : Nat) (first : Bool),
    IsJsonEntries es →
    (billEntries depth first es).size = addSize (commaSize first es) (textSize (dumpsEntries es))
  | [], depth, first, _ => by
    cases first <;> rfl
  | (k, v) :: es, depth, first, h => by
    simp only [IsJsonEntries] at h
    obtain ⟨⟨key, rfl⟩, _, hv, hes⟩ := h
    have hempty : es = [] → dumpsEntries es = some [] := by
      rintro rfl
      rfl
    have hjoin := join_size es (dumps v) (dumpsEntries es) hempty
    have hkey : keySize (.str key) = textSize (some (quote key)) := Scalar.size_eq (.str key)
    simp only [billEntries, Bill.add_size, Bill.key, Bill.bytes, zero_addSize, hkey,
      bill_size v depth hv, billEntries_size es depth false hes, hjoin]
    have htext : dumpsEntries ((.str key, v) :: es) =
        ((dumps v).bind fun t => (dumpsEntries es).bind fun ts =>
          some (if es.isEmpty then t else t ++ 44 :: ts)).map fun t => quote key ++ 58 :: t := by
      rw [dumpsEntries]
      cases dumps v <;> cases dumpsEntries es <;> rfl
    rw [htext]
    cases (dumps v).bind fun t => (dumpsEntries es).bind fun ts =>
        some (if es.isEmpty then t else t ++ 44 :: ts) with
    | none => cases textSize (some (quote key)) <;> cases first <;> rfl
    | some t =>
      rw [Option.map_some, textSize_append, textSize_cons (by decide)]
      cases textSize (some (quote key)) <;> cases textSize (some t) <;> cases first <;>
        (simp [addSize, commaSize]; try omega)
  termination_by structural es => es
end

/-! Finite JSON trees. -/

mutual
/-- JSON values whose integers have no more digits than `int.__repr__` converts and whose strings
are Unicode scalar values. -/
def IsTree : Value → Prop
  | .int i => (Json.natText i.natAbs).length ≤ Json.maxStrDigits
  | .float (.finite _) => True
  | .float _ => False
  | .str s => ∀ c ∈ s, IsScalar c
  | .list vs => IsTreeItems vs
  | .dict es => IsTreeEntries es
  | .object _ => False
  | _ => True
  termination_by structural v => v

def IsTreeItems : List Value → Prop
  | [] => True
  | v :: vs => IsTree v ∧ IsTreeItems vs
  termination_by structural l => l

def IsTreeEntries : List (Key × Value) → Prop
  | [] => True
  | (k, v) :: es =>
    (∃ s, k = .str s ∧ ∀ c ∈ s, IsScalar c) ∧ k ∉ es.map Prod.fst ∧ IsTree v ∧ IsTreeEntries es
  termination_by structural l => l
end

mutual
theorem IsTree.isJson : ∀ {v : Value}, IsTree v → IsJson v
  | .none, _ => trivial
  | .bool _, _ => trivial
  | .int _, _ => trivial
  | .float (.finite _), _ => trivial
  | .float .inf, h => by simp only [IsTree] at h
  | .float .negInf, h => by simp only [IsTree] at h
  | .float .nan, h => by simp only [IsTree] at h
  | .str _, _ => trivial
  | .list _, h => by
    simp only [IsTree] at h
    simp only [IsJson]
    exact IsTreeItems.isJson h
  | .dict _, h => by
    simp only [IsTree] at h
    simp only [IsJson]
    exact IsTreeEntries.isJson h
  | .object _, h => by simp only [IsTree] at h
  termination_by structural v => v

theorem IsTreeItems.isJson : ∀ {vs : List Value}, IsTreeItems vs → IsJsonItems vs
  | [], _ => trivial
  | _ :: _, h => by
    simp only [IsTreeItems] at h
    simp only [IsJsonItems]
    exact ⟨h.1.isJson, IsTreeItems.isJson h.2⟩
  termination_by structural vs => vs

theorem IsTreeEntries.isJson : ∀ {es : List (Key × Value)}, IsTreeEntries es → IsJsonEntries es
  | [], _ => trivial
  | (_, _) :: _, h => by
    simp only [IsTreeEntries] at h
    obtain ⟨⟨s, hk, _⟩, hnew, hv, hes⟩ := h
    simp only [IsJsonEntries]
    exact ⟨⟨s, hk⟩, hnew, hv.isJson, IsTreeEntries.isJson hes⟩
  termination_by structural es => es
end

theorem encodeUtf8_scalars {t : Str} (h : ∀ c ∈ t, IsScalar c) : ∃ b, Json.encodeUtf8 t = some b := by
  induction t with
  | nil => exact ⟨[], rfl⟩
  | cons c t ih =>
    obtain ⟨b, hb⟩ := ih fun x hx => h x (List.mem_cons_of_mem c hx)
    have hc : c < 0xD800 ∨ (0xE000 ≤ c ∧ c < 0x110000) := h c (List.mem_cons_self ..)
    have hpoint : ∃ a, Json.encodePoint c = some a := by
      unfold Json.encodePoint
      split_ifs with h1 h2 h3 h4
      · exact ⟨_, rfl⟩
      · exact ⟨_, rfl⟩
      · omega
      · exact ⟨_, rfl⟩
      · exact ⟨_, rfl⟩
    obtain ⟨a, ha⟩ := hpoint
    exact ⟨a ++ b, by simp [Json.encodeUtf8, ha, hb]⟩

theorem scalars_of_printable {t : Str} (h : Json.Printable t) : ∀ c ∈ t, IsScalar c := by
  intro c hc
  have hrange := h c hc
  exact .inl (by omega)

theorem escapeUnicode_scalars {x : Nat} (hx : IsScalar x) : ∀ c ∈ escapeUnicode x, IsScalar c := by
  have hpair : ∀ a b : Nat, a < 0x80 → b < 0x80 → ∀ c ∈ [a, b], IsScalar c := by
    intro a b ha hb c hc
    simp only [List.mem_cons, List.not_mem_nil, or_false] at hc
    exact .inl (by omega)
  unfold escapeUnicode
  split_ifs with h1 h2 h3 h4 h5 h6 h7 h8
  case pos | pos | pos | pos | pos | pos | pos => exact hpair _ _ (by decide) (by decide)
  · exact scalars_of_printable (Json.hexEscape_printable x)
  · intro c hc
    rw [List.mem_singleton.1 hc]
    exact hx

theorem quote_scalars {s : Str} (h : ∀ c ∈ s, IsScalar c) : ∀ c ∈ quote s, IsScalar c := by
  intro c hc
  simp only [quote, List.mem_cons, List.mem_append, List.mem_flatMap, List.not_mem_nil,
    or_false] at hc
  obtain rfl | ⟨x, hx, hc⟩ | rfl := hc
  · exact .inl (by omega)
  · exact escapeUnicode_scalars (h x hx) c hc
  · exact .inl (by omega)

theorem size_of_text {s : Scalar} {t : Str} (ht : s.text = some t) (h : ∀ c ∈ t, IsScalar c) :
    ∃ n, s.size = some n := by
  obtain ⟨b, hb⟩ := encodeUtf8_scalars h
  refine ⟨b.length, ?_⟩
  rw [Scalar.size_eq, ht]
  simp [textSize, hb]

theorem Scalar.size_tree {s : Scalar} (h : IsTree s.value) : ∃ n, s.size = some n := by
  cases s with
  | none => exact ⟨4, by decide⟩
  | bool b =>
    cases b
    · exact ⟨5, by decide⟩
    · exact ⟨4, by decide⟩
  | int i =>
    simp only [Scalar.value, IsTree] at h
    have hshort : ¬ Json.maxStrDigits < (Json.natText i.natAbs).length := by omega
    have hdump : Json.dumpInt i =
        .ok (if i < 0 then 45 :: Json.natText i.natAbs else Json.natText i.natAbs) := if_neg hshort
    apply size_of_text (t := if i < 0 then 45 :: Json.natText i.natAbs else Json.natText i.natAbs)
    · simp only [Scalar.text, hdump]
      rfl
    · exact scalars_of_printable (Json.dumpInt_printable hdump)
  | float r => exact size_of_text rfl (scalars_of_printable r.text_printable)
  | str s =>
    simp only [Scalar.value, IsTree] at h
    exact size_of_text rfl (quote_scalars h)

theorem addSize_some {a b : Option Nat} (ha : ∃ m, a = some m) (hb : ∃ n, b = some n) :
    ∃ k, addSize a b = some k := by
  obtain ⟨m, rfl⟩ := ha
  obtain ⟨n, rfl⟩ := hb
  exact ⟨m + n, rfl⟩

mutual
/-- Every tree has an encoding. -/
theorem bill_tree : ∀ (v : Value) (depth : Nat), IsTree v → ∃ n, (bill depth v).size = some n
  | .none, depth, h => by
    rw [bill, leaf_size, ← Scalar.size_eq]
    exact Scalar.size_tree h
  | .bool b, depth, h => by
    rw [bill, leaf_size, ← Scalar.size_eq]
    exact Scalar.size_tree h
  | .int i, depth, h => by
    rw [bill, leaf_size, ← Scalar.size_eq]
    exact Scalar.size_tree (s := .int i) h
  | .float (.finite r), depth, h => by
    rw [bill, leaf_size, ← Scalar.size_eq]
    exact Scalar.size_tree (s := .float r) h
  | .float .inf, _, h => by simp only [IsTree] at h
  | .float .negInf, _, h => by simp only [IsTree] at h
  | .float .nan, _, h => by simp only [IsTree] at h
  | .str s, depth, h => by
    rw [bill, leaf_size, ← Scalar.size_eq]
    exact Scalar.size_tree (s := .str s) h
  | .object _, _, h => by simp only [IsTree] at h
  | .list vs, depth, h => by
    simp only [IsTree] at h
    simp only [bill, Bill.add_size, Bill.level, Bill.node, Bill.bytes, zero_addSize]
    exact addSize_some ⟨2, rfl⟩ (billItems_tree vs (depth + 1) true h)
  | .dict es, depth, h => by
    simp only [IsTree] at h
    simp only [bill, Bill.add_size, Bill.level, Bill.node, Bill.bytes, zero_addSize]
    exact addSize_some ⟨2, rfl⟩ (billEntries_tree es (depth + 1) true h)
  termination_by structural v => v

theorem billItems_tree : ∀ (vs : List Value) (depth : Nat) (first : Bool), IsTreeItems vs →
    ∃ n, (billItems depth first vs).size = some n
  | [], _, _, _ => ⟨0, rfl⟩
  | v :: vs, depth, first, h => by
    simp only [IsTreeItems] at h
    have hcomma : ∃ n, (if first then Bill.zero else Bill.bytes (some 1)).size = some n := by
      cases first
      · exact ⟨1, rfl⟩
      · exact ⟨0, rfl⟩
    simp only [billItems, Bill.add_size]
    exact addSize_some hcomma
      (addSize_some (bill_tree v depth h.1) (billItems_tree vs depth false h.2))
  termination_by structural vs => vs

theorem billEntries_tree : ∀ (es : List (Key × Value)) (depth : Nat) (first : Bool),
    IsTreeEntries es → ∃ n, (billEntries depth first es).size = some n
  | [], _, _, _ => ⟨0, rfl⟩
  | (k, v) :: es, depth, first, h => by
    simp only [IsTreeEntries] at h
    obtain ⟨⟨key, rfl, hkey⟩, _, hv, hes⟩ := h
    simp only [billEntries, Bill.add_size, Bill.key, Bill.bytes, zero_addSize]
    have hsize : ∃ n, keySize (.str key) = some n := Scalar.size_tree (s := .str key) hkey
    exact addSize_some hsize (addSize_some ⟨_, rfl⟩
      (addSize_some (bill_tree v depth hv) (billEntries_tree es depth false hes)))
  termination_by structural es => es
end

/-! The measured freeze. -/

/-- A bound holds where it is set. -/
def Bounds (limit : Option Int) (n : Nat) : Prop := ∀ l ∈ limit, (n : Int) ≤ l

theorem exceeds_false {limit : Option Int} {n : Nat} : exceeds limit n = false ↔ Bounds limit n := by
  cases limit with
  | none => simp [exceeds, Bounds]
  | some l => simp [exceeds, Bounds]

/-- The canonical encoding of a value. -/
def canonical (v : Value) : Option Bytes := (dumps v).bind Json.encodeUtf8

theorem canonical_thaw (f : ImmutableJSON) : canonicalJsonBytes f = canonical (thawJson f) := rfl

theorem dumps_ne_nil {v : Value} {t : Str} (h : dumps v = some t) : t ≠ [] := by
  cases v with
  | none => exact Scalar.text_ne_nil (s := .none) h
  | bool b => exact Scalar.text_ne_nil (s := .bool b) h
  | int i => exact Scalar.text_ne_nil (s := .int i) h
  | float x =>
    cases x with
    | finite r => exact Scalar.text_ne_nil (s := .float r) h
    | inf => cases h
    | negInf => cases h
    | nan => cases h
  | str s => exact Scalar.text_ne_nil (s := .str s) h
  | list vs =>
    obtain ⟨u, _, hu⟩ := Option.bind_eq_some_iff.1 h
    cases hu
    simp
  | dict es =>
    obtain ⟨u, _, hu⟩ := Option.bind_eq_some_iff.1 h
    cases hu
    simp
  | object n => cases h

theorem canonical_pos {v : Value} {b : Bytes} (h : canonical v = some b) : 0 < b.length := by
  obtain ⟨t, ht, hb⟩ := Option.bind_eq_some_iff.1 h
  exact encodeUtf8_pos (dumps_ne_nil ht) hb

theorem nodeCount_pos (v : Value) : 0 < nodeCount v := by
  cases v <;> simp only [nodeCount] <;> omega

/-- The room that a fresh walk has for a value. -/
theorem affordable_start {ι : Type} {limits : JSONLimits} {budget : Int}
    (hb : limits.maxEncodedBytes = some budget) {v : Value} (hj : IsJson v) {b : Bytes}
    (hc : canonical v = some b) :
    Affordable limits (.start limits : Walk ι) (bill 0 v) ↔
      Bounds limits.maxDepth (levels v) ∧ Bounds limits.maxNodes (nodeCount v) ∧
        (keyCount v = 0 ∨ Bounds limits.maxKeys (keyCount v)) ∧ (b.length : Int) ≤ budget := by
  obtain ⟨hr, hn, hk⟩ := bill_counts v 0
  have hsize : (bill 0 v).size = some b.length := by
    rw [bill_size v 0 hj]
    unfold canonical at hc
    simp [textSize, hc]
  have hnodes := nodeCount_pos v
  have hbytes := canonical_pos hc
  have hbudget : Bounds (some budget) b.length ↔ (b.length : Int) ≤ budget := by simp [Bounds]
  have hreach : levels v + 1 ≠ 0 := by omega
  simp only [Affordable, Walk.start, hr, hn, hk, hsize, hb, Option.isSome_some, if_true, Within,
    SizeWithin, exceeds_false, Nat.zero_add, Nat.add_sub_cancel, hbudget, hreach, false_or,
    Nat.ne_of_gt hnodes, Nat.ne_of_gt hbytes]

/-- A budgeted freeze takes a finite JSON tree exactly when its depth, its nodes, its keys (if it
has any) and its canonical encoding are within the limits, and then it has measured and kept that
encoding. -/
theorem freeze_measures {ι : Type} [DecidableEq ι] (g : Graph ι) {x : ι} {v : Value}
    (hv : Reads g v x) (ht : IsTree v) {limits : JSONLimits} {budget : Int}
    (hb : limits.maxEncodedBytes = some budget) :
    ∃ b, canonical v = some b ∧ ∀ frames, height v ≤ frames →
      ((∃ r, freezeJson (.plain limits) g frames x = .ok r) ↔
        Bounds limits.maxDepth (levels v) ∧ Bounds limits.maxNodes (nodeCount v) ∧
          (keyCount v = 0 ∨ Bounds limits.maxKeys (keyCount v)) ∧ (b.length : Int) ≤ budget) ∧
      ∀ r, freezeJson (.plain limits) g frames x = .ok r →
        r.encodedBytes = some b.length ∧ canonicalJsonBytes r.value = some b := by
  obtain ⟨n, hn⟩ := bill_tree v 0 ht
  rw [bill_size v 0 ht.isJson] at hn
  obtain ⟨b, hc, _⟩ := Option.map_eq_some_iff.1 hn
  have hc : canonical v = some b := hc
  refine ⟨b, hc, fun frames hh => ?_⟩
  have hstart := affordable_start (ι := ι) hb ht.isJson hc
  obtain ⟨f, hf, hok, herr⟩ := charges_start limits hv ht.isJson hh
  by_cases hfits : Affordable limits (.start limits : Walk ι) (bill 0 v)
  · have hrun : freezeJson (.plain limits) g frames x =
        .ok ⟨f, ((.start limits : Walk ι).pay (bill 0 v)).size⟩ := by
      unfold freezeJson
      rw [hok hfits]
      rfl
    have hsize : ((.start limits : Walk ι).pay (bill 0 v)).size = some b.length := by
      simp only [Walk.pay, Walk.start, hb, Option.isSome_some, if_true, zero_addSize,
        bill_size v 0 ht.isJson]
      unfold canonical at hc
      simp [textSize, hc]
    refine ⟨⟨fun _ => hstart.1 hfits, fun _ => ⟨_, hrun⟩⟩, fun r hr => ?_⟩
    rw [hrun] at hr
    cases hr
    exact ⟨hsize, by rw [canonical_thaw, hf, hc]⟩
  · obtain ⟨e, he⟩ := herr hfits
    have hrun : freezeJson (.plain limits) g frames x = .error e := by
      unfold freezeJson
      rw [he]
      rfl
    have hnone : ∀ r, freezeJson (.plain limits) g frames x ≠ .ok r := by
      intro r hr
      rw [hrun] at hr
      cases hr
    exact ⟨iff_of_false (not_exists.2 hnone) fun h => hfits (hstart.2 h),
      fun r hr => absurd hr (hnone r)⟩

/-- The object `[null, {"a": 1}]`. -/
def smallGraph : Graph (Fin 4) where
  view
    | 0 => .sequence [1, 2]
    | 1 => .scalar .none
    | 2 => .mapping [(.str [97], 3)]
    | 3 => .scalar (.int 1)
  distinct x es h := by
    split at h <;> cases h
    simp

theorem freeze_measures_small :
    ∃ b, canonical (.list [.none, .dict [(.str [97], .int 1)]]) = some b ∧
      ∃ r, freezeJson (.plain { maxEncodedBytes := some 14 }) smallGraph 9 0 = .ok r ∧
        r.encodedBytes = some b.length := by
  have hv : Reads smallGraph (.list [.none, .dict [(.str [97], .int 1)]]) 0 := by
    simp only [Reads, ReadsItems, ReadsEntries]
    exact ⟨_, rfl, 1, _, rfl, rfl, 2, _, rfl, ⟨_, rfl, 3, _, rfl, rfl, rfl⟩, rfl⟩
  have ht : IsTree (.list [.none, .dict [(.str [97], .int 1)]]) := by
    simp only [IsTree, IsTreeItems, IsTreeEntries]
    refine ⟨trivial, ⟨⟨[97], rfl, by decide⟩, by simp, by decide, trivial⟩, trivial⟩
  have hlimit : ({ maxEncodedBytes := some 14 } : JSONLimits).maxEncodedBytes = some 14 := rfl
  obtain ⟨b, hb, hrun⟩ := freeze_measures smallGraph hv ht hlimit
  obtain ⟨hiff, hsize⟩ := hrun 9 (by decide)
  have hlen : b = [91, 110, 117, 108, 108, 44, 123, 34, 97, 34, 58, 49, 125, 93] := by
    have hval : canonical (.list [.none, .dict [(.str [97], .int 1)]]) =
        some [91, 110, 117, 108, 108, 44, 123, 34, 97, 34, 58, 49, 125, 93] := by decide
    rw [hb] at hval
    exact Option.some.inj hval
  obtain ⟨r, hr⟩ := hiff.2 ⟨by simp [Bounds], by simp [Bounds], .inr (by simp [Bounds]), by
    rw [hlen]
    decide⟩
  exact ⟨b, hb, r, hr, (hsize r hr).1⟩

/-- A negative key limit is never looked at for a value without keys. -/
theorem negative_keys : ∃ (g : Graph Unit) (v : Value) (limits : JSONLimits) (r : FrozenJSON),
    Reads g v () ∧ IsTree v ∧ limits.maxEncodedBytes = some 10 ∧
      freezeJson (.plain limits) g 1 () = .ok r ∧ ¬ Bounds limits.maxKeys (keyCount v) := by
  refine ⟨⟨fun _ => .scalar .none, by simp⟩, .none, { maxKeys := some (-1), maxEncodedBytes := some 10 },
    ⟨.scalar .none, some 4⟩, rfl, trivial, rfl, rfl, ?_⟩
  simp [Bounds, keyCount]

end KestrelSdk.Frozen

import KestrelSdk.Json.Plain
import Mathlib.Data.List.Lex
import Mathlib.Data.List.Sort
import Mathlib.Algebra.BigOperators.Group.List.Basic

namespace KestrelSdk.Json

/-- The order of `sort_keys`, for dicts of text keys. -/
def keyLe : Key → Key → Bool
  | .str a, .str b => decide (a ≤ b)
  | _, _ => true

def insertEntry (e : Key × Value) (es : List (Key × Value)) : List (Key × Value) :=
  es.orderedInsert (fun a b => keyLe a.1 b.1 = true) e

mutual
/-- The value that `json.dumps(v, sort_keys=True)` writes in its order. -/
def sortKeys : Value → Value
  | .list l => .list (sortItems l)
  | .dict es => .dict (sortEntries es)
  | v => v
  termination_by structural v => v

def sortItems : List Value → List Value
  | [] => []
  | v :: vs => sortKeys v :: sortItems vs
  termination_by structural l => l

def sortEntries : List (Key × Value) → List (Key × Value)
  | [] => []
  | (k, v) :: es => insertEntry (k, sortKeys v) (sortEntries es)
  termination_by structural es => es
end

/-- Sorting only moves the entries. -/
theorem sortEntries_perm (es : List (Key × Value)) :
    (sortEntries es).Perm (es.map fun e => (e.1, sortKeys e.2)) := by
  induction es with
  | nil => exact .refl []
  | cons e es ih =>
    rw [sortEntries, List.map_cons]
    apply (List.perm_orderedInsert _ _ _).trans
    exact ih.cons _

theorem sortEntries_keys (es : List (Key × Value)) :
    ((sortEntries es).map Prod.fst).Perm (es.map Prod.fst) := by
  have h := (sortEntries_perm es).map Prod.fst
  rwa [List.map_map] at h

theorem mem_sortEntries {es : List (Key × Value)} {e : Key × Value} :
    e ∈ sortEntries es ↔ ∃ v, (e.1, v) ∈ es ∧ sortKeys v = e.2 := by
  rw [(sortEntries_perm es).mem_iff, List.mem_map]
  constructor
  · rintro ⟨⟨k, v⟩, hmem, rfl⟩
    exact ⟨v, hmem, rfl⟩
  · rintro ⟨v, hmem, hv⟩
    exact ⟨(e.1, v), hmem, by rw [hv]⟩

/-- With distinct keys a lookup is a membership. -/
theorem Dict.get_eq_some_iff {d : Dict} (hd : (d.map Prod.fst).Nodup) {k : Str} {v : Value} :
    d.get k = some v ↔ (Key.str k, v) ∈ d := by
  induction d with
  | nil => simp [Dict.get]
  | cons e d ih =>
    obtain ⟨l, w⟩ := e
    rw [List.map_cons, List.nodup_cons] at hd
    unfold Dict.get at ih ⊢
    rw [List.lookup_cons]
    by_cases h : Key.str k = l
    · subst h
      have hfresh : (Key.str k, v) ∉ d := fun hmem => hd.1 (List.mem_map.2 ⟨_, hmem, rfl⟩)
      simp [hfresh, eq_comm]
    · have hne : (Key.str k == l) = false := by simpa using h
      simp only [hne]
      rw [ih hd.2, List.mem_cons, Prod.mk.injEq]
      simp [h]

/-- A field is found in the sorted dict as it was before. -/
theorem get_sortEntries {d : Dict} (hd : (d.map Prod.fst).Nodup) (k : Str) :
    Dict.get (sortEntries d) k = (d.get k).map sortKeys := by
  have hsorted := (sortEntries_keys d).nodup_iff.2 hd
  apply Option.ext
  intro w
  rw [Dict.get_eq_some_iff hsorted, mem_sortEntries, Option.map_eq_some_iff]
  constructor
  · rintro ⟨v, hv, rfl⟩
    exact ⟨v, (Dict.get_eq_some_iff hd).2 hv, rfl⟩
  · rintro ⟨v, hv, rfl⟩
    exact ⟨v, (Dict.get_eq_some_iff hd).1 hv, rfl⟩

theorem plainEntries_iff {f : Str → PyFloat} {es : List (Key × Value)} :
    PlainEntries f es ↔ (es.map Prod.fst).Nodup ∧
      ∀ e ∈ es, (∃ s, e.1 = .str s ∧ ∀ c ∈ s, IsScalar c) ∧ Plain f e.2 := by
  induction es with
  | nil => simp [PlainEntries]
  | cons e es ih =>
    obtain ⟨k, v⟩ := e
    rw [PlainEntries, ih, List.map_cons, List.nodup_cons, List.forall_mem_cons]
    constructor
    · rintro ⟨hk, hfresh, hv, hnd, hall⟩
      exact ⟨⟨hfresh, hnd⟩, ⟨hk, hv⟩, hall⟩
    · rintro ⟨⟨hfresh, hnd⟩, ⟨hk, hv⟩, hall⟩
      exact ⟨hk, hfresh, hv, hnd, hall⟩

theorem shortEntries_iff {es : List (Key × Value)} : ShortEntries es ↔ ∀ e ∈ es, Short e.2 := by
  induction es with
  | nil => simp [ShortEntries]
  | cons e es ih => rw [ShortEntries, ih, List.forall_mem_cons]

theorem depthEntries_le_iff {es : List (Key × Value)} {n : Nat} :
    depthEntries es ≤ n ↔ ∀ e ∈ es, depth e.2 ≤ n := by
  induction es with
  | nil => simp [depthEntries]
  | cons e es ih => rw [depthEntries, Nat.max_le, ih, List.forall_mem_cons]

mutual
theorem plain_sortKeys {f : Str → PyFloat} : ∀ v, Plain f v → Plain f (sortKeys v)
  | .none, _ => trivial
  | .bool _, _ => trivial
  | .int _, _ => trivial
  | .float _, h => h
  | .str _, h => h
  | .list l, h => plainItems_sortItems l h
  | .dict es, h => by
    obtain ⟨hnd, hall⟩ := plainEntries_iff.1 h
    apply plainEntries_iff.2
    refine ⟨(sortEntries_keys es).nodup_iff.2 hnd, ?_⟩
    intro e he
    obtain ⟨v, hv, hsort⟩ := mem_sortEntries.1 he
    rw [← hsort]
    exact ⟨(hall _ hv).1, plainEntries_sortKeys es h _ hv⟩
  | .object _, h => h
  termination_by structural v => v

theorem plainItems_sortItems {f : Str → PyFloat} :
    ∀ l, PlainItems f l → PlainItems f (sortItems l)
  | [], _ => trivial
  | v :: vs, h => ⟨plain_sortKeys v h.1, plainItems_sortItems vs h.2⟩
  termination_by structural l => l

theorem plainEntries_sortKeys {f : Str → PyFloat} :
    ∀ es : List (Key × Value), PlainEntries f es → ∀ e ∈ es, Plain f (sortKeys e.2)
  | [], _, _, he => by cases he
  | (k, v) :: es, h, e, he => by
    rcases List.mem_cons.1 he with rfl | he
    · exact plain_sortKeys v h.2.2.1
    · exact plainEntries_sortKeys es h.2.2.2 e he
  termination_by structural es => es
end

mutual
theorem short_sortKeys : ∀ v, Short v → Short (sortKeys v)
  | .none, _ => trivial
  | .bool _, _ => trivial
  | .int _, h => h
  | .float _, _ => trivial
  | .str _, _ => trivial
  | .list l, h => shortItems_sortItems l h
  | .dict es, h => by
    apply shortEntries_iff.2
    intro e he
    obtain ⟨v, hv, hsort⟩ := mem_sortEntries.1 he
    rw [← hsort]
    exact shortEntries_sortKeys es h _ hv
  | .object _, _ => trivial
  termination_by structural v => v

theorem shortItems_sortItems : ∀ l, ShortItems l → ShortItems (sortItems l)
  | [], _ => trivial
  | v :: vs, h => ⟨short_sortKeys v h.1, shortItems_sortItems vs h.2⟩
  termination_by structural l => l

theorem shortEntries_sortKeys :
    ∀ es : List (Key × Value), ShortEntries es → ∀ e ∈ es, Short (sortKeys e.2)
  | [], _, _, he => by cases he
  | (k, v) :: es, h, e, he => by
    rcases List.mem_cons.1 he with rfl | he
    · exact short_sortKeys v h.1
    · exact shortEntries_sortKeys es h.2 e he
  termination_by structural es => es
end

mutual
theorem depth_sortKeys : ∀ v, depth (sortKeys v) ≤ depth v
  | .none => le_rfl
  | .bool _ => le_rfl
  | .int _ => le_rfl
  | .float _ => le_rfl
  | .str _ => le_rfl
  | .list l => by
    simp only [sortKeys, depth]
    have := depthItems_sortItems l
    omega
  | .dict es => by
    simp only [sortKeys, depth]
    have h : depthEntries (sortEntries es) ≤ depthEntries es := by
      apply depthEntries_le_iff.2
      intro e he
      obtain ⟨v, hv, hsort⟩ := mem_sortEntries.1 he
      rw [← hsort]
      exact (depth_entries_sortKeys es _ hv).trans (depthEntries_le_iff.1 le_rfl _ hv)
    omega
  | .object _ => le_rfl
  termination_by structural v => v

theorem depthItems_sortItems : ∀ l, depthItems (sortItems l) ≤ depthItems l
  | [] => le_rfl
  | v :: vs => by
    simp only [sortItems, depthItems]
    have h1 := depth_sortKeys v
    have h2 := depthItems_sortItems vs
    omega
  termination_by structural l => l

theorem depth_entries_sortKeys :
    ∀ es : List (Key × Value), ∀ e ∈ es, depth (sortKeys e.2) ≤ depth e.2
  | [], _, he => by cases he
  | (k, v) :: es, e, he => by
    rcases List.mem_cons.1 he with rfl | he
    · exact depth_sortKeys v
    · exact depth_entries_sortKeys es e he
  termination_by structural es => es
end

/-- The length of a quoted key. -/
def keySize (k : Key) : Nat :=
  match k.text with
  | .ok q => (dumpStr q).length
  | .error _ => 0

mutual
/-- A bound on the length of the text of a value, whatever the order of its entries. -/
def textSize : Value → Nat
  | .none => 4
  | .bool _ => 5
  | .int i => (natText i.natAbs).length + 1
  | .float x => (dumpFloat x).length
  | .str s => (dumpStr s).length
  | .list l => itemsSize l + 2
  | .dict es => entriesSize es + 2
  | .object _ => 0
  termination_by structural v => v

def itemsSize : List Value → Nat
  | [] => 0
  | v :: vs => textSize v + 1 + itemsSize vs
  termination_by structural l => l

def entriesSize : List (Key × Value) → Nat
  | [] => 0
  | (k, v) :: es => keySize k + textSize v + 2 + entriesSize es
  termination_by structural es => es
end

theorem entriesSize_sum (es : List (Key × Value)) :
    entriesSize es = (es.map fun e => keySize e.1 + textSize e.2 + 2).sum := by
  induction es with
  | nil => rfl
  | cons e es ih => rw [entriesSize, ih, List.map_cons, List.sum_cons]

mutual
theorem textSize_sortKeys : ∀ v, textSize (sortKeys v) = textSize v
  | .none => rfl
  | .bool _ => rfl
  | .int _ => rfl
  | .float _ => rfl
  | .str _ => rfl
  | .list l => by rw [sortKeys, textSize, textSize, itemsSize_sortItems l]
  | .dict es => by
    have h := entriesSize_sortKeys es
    rw [sortKeys, textSize, textSize, entriesSize_sum (sortEntries es),
      ((sortEntries_perm es).map _).sum_eq, List.map_map, ← h]
    rfl
  | .object _ => rfl
  termination_by structural v => v

theorem itemsSize_sortItems : ∀ l, itemsSize (sortItems l) = itemsSize l
  | [] => rfl
  | v :: vs => by
    rw [sortItems, itemsSize, itemsSize, textSize_sortKeys v, itemsSize_sortItems vs]
  termination_by structural l => l

theorem entriesSize_sortKeys : ∀ es : List (Key × Value),
    (es.map fun e => keySize e.1 + textSize (sortKeys e.2) + 2).sum = entriesSize es
  | [] => rfl
  | (k, v) :: es => by
    rw [List.map_cons, List.sum_cons, entriesSize, textSize_sortKeys v, entriesSize_sortKeys es]
  termination_by structural es => es
end

mutual
/-- A text is no longer than the bound of its value. -/
theorem dump_length : ∀ (v : Value) {d : Nat} {t : Str}, dump d v = .ok t →
    t.length ≤ textSize v
  | .none, _, _, h => by
    cases h
    decide
  | .bool b, _, _, h => by
    cases h
    cases b <;> decide
  | .int i, _, _, h => by
    simp only [dump, dumpInt] at h
    split at h
    · cases h
    · cases h
      rw [textSize]
      split <;> simp
  | .float _, _, _, h => by
    cases h
    rfl
  | .str _, _, _, h => by
    cases h
    rfl
  | .list l, d, _, h => by
    obtain ⟨e, ts, rfl, hts, rfl⟩ := dump_list h
    have := dumpItems_length l hts
    simp only [textSize, List.length_cons, List.length_append, List.length_nil]
    omega
  | .dict es, d, _, h => by
    obtain ⟨e, ts, rfl, hts, rfl⟩ := dump_dict h
    have := dumpEntries_length es hts
    simp only [textSize, List.length_cons, List.length_append, List.length_nil]
    omega
  | .object _, _, _, h => by cases h
  termination_by structural v => v

theorem dumpItems_length : ∀ (l : List Value) {d : Nat} {t : Str}, dumpItems d l = .ok t →
    t.length ≤ itemsSize l
  | [], _, _, h => by
    cases h
    rfl
  | v :: vs, _, _, h => by
    obtain ⟨tv, ts, hv, hvs, rfl⟩ := dumpItems_cons h
    have h1 := dump_length v hv
    have h2 := dumpItems_length vs hvs
    rw [itemsSize]
    split
    · omega
    · simp only [List.length_append, List.length_cons]
      omega
  termination_by structural l => l

theorem dumpEntries_length : ∀ (es : List (Key × Value)) {d : Nat} {t : Str},
    dumpEntries d es = .ok t → t.length ≤ entriesSize es
  | [], _, _, h => by
    cases h
    rfl
  | (k, v) :: es, _, _, h => by
    obtain ⟨q, tv, ts, hq, hv, hes, rfl⟩ := dumpEntries_cons h
    have h1 := dump_length v hv
    have h2 := dumpEntries_length es hes
    have h3 : keySize k = (dumpStr q).length := by
      rw [keySize, hq]
    rw [entriesSize, List.length_append, List.length_cons, h3]
    split
    · omega
    · simp only [List.length_append, List.length_cons]
      omega
  termination_by structural es => es
end

theorem escape_length (c : Nat) : (escape c).length ≤ 12 := by
  unfold escape
  split_ifs <;> simp [hexEscape]

theorem dumpStr_length (s : Str) : (dumpStr s).length ≤ 12 * s.length + 2 := by
  have h : (s.flatMap escape).length ≤ 12 * s.length := by
    induction s with
    | nil => exact Nat.zero_le 0
    | cons c s ih =>
      have := escape_length c
      rw [List.flatMap_cons, List.length_append, List.length_cons]
      omega
  rw [dumpStr, List.length_cons, List.length_append, List.length_singleton]
  omega

/-- A text that needs no escape only gets its quotes. -/
theorem dumpStr_length_plain {s : Str} (h : ∀ c ∈ s, 32 ≤ c ∧ c ≤ 126 ∧ c ≠ 34 ∧ c ≠ 92) :
    (dumpStr s).length = s.length + 2 := by
  have hflat : s.flatMap escape = s := by
    induction s with
    | nil => rfl
    | cons c s ih =>
      rw [List.forall_mem_cons] at h
      have hc : escape c = [c] := by
        have := h.1
        unfold escape
        split_ifs <;> first | rfl | omega
      rw [List.flatMap_cons, hc, ih h.2, List.singleton_append]
  rw [dumpStr, hflat, List.length_cons, List.length_append, List.length_singleton]

end KestrelSdk.Json

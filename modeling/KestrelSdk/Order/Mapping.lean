import Mathlib.Data.List.Nodup

/-! Mappings that keep their keys in the order in which they first came. -/

namespace KestrelSdk.Order

structure Mapping (κ α : Type*) where
  entries : List (κ × α)
  nodup : (entries.map Prod.fst).Nodup

namespace Mapping

variable {κ α : Type*}

def empty : Mapping κ α := ⟨[], List.nodup_nil⟩

def keys (m : Mapping κ α) : List κ := m.entries.map Prod.fst

def values (m : Mapping κ α) : List α := m.entries.map Prod.snd

variable [DecidableEq κ]

def get (m : Mapping κ α) (k : κ) : Option α := m.entries.lookup k

/-- A key that is there keeps its place. -/
def put (k : κ) (v : α) : List (κ × α) → List (κ × α)
  | [] => [(k, v)]
  | (l, w) :: es => if l = k then (l, v) :: es else (l, w) :: put k v es

theorem keys_put (k : κ) (v : α) (es : List (κ × α)) : (put k v es).map Prod.fst =
    if k ∈ es.map Prod.fst then es.map Prod.fst else es.map Prod.fst ++ [k] := by
  induction es with
  | nil => rfl
  | cons e es ih =>
    obtain ⟨l, w⟩ := e
    unfold put
    by_cases h : l = k
    · simp [h]
    · have hk : ¬ k = l := fun he => h he.symm
      by_cases hm : k ∈ es.map Prod.fst
      · simp only [if_neg h, List.map_cons, ih, List.mem_cons, hm, or_true, if_true]
      · simp only [if_neg h, List.map_cons, ih, List.mem_cons, hm, hk, or_self,
          if_false, List.cons_append]

theorem lookup_put (k l : κ) (v : α) (es : List (κ × α)) :
    (put k v es).lookup l = if l = k then some v else es.lookup l := by
  induction es with
  | nil =>
    by_cases h : l = k
    · simp [put, h]
    · have hb : (l == k) = false := by simpa using h
      simp [put, List.lookup_cons, hb, h]
  | cons e es ih =>
    obtain ⟨j, w⟩ := e
    unfold put
    by_cases hj : j = k
    · subst hj
      by_cases h : l = j
      · simp [h]
      · have hb : (l == j) = false := by simpa using h
        simp [List.lookup_cons, hb, h]
    · rw [if_neg hj, List.lookup_cons, List.lookup_cons, ih]
      by_cases h : l = j
      · subst h
        simp [hj]
      · have hb : (l == j) = false := by simpa using h
        simp [hb]

def set (m : Mapping κ α) (k : κ) (v : α) : Mapping κ α where
  entries := put k v m.entries
  nodup := by
    rw [keys_put]
    split
    · exact m.nodup
    · rename_i h
      exact m.nodup.append (List.nodup_singleton k) (by simpa using h)

/-- One entry after the other. -/
def ofList (es : List (κ × α)) : Mapping κ α := es.foldl (fun m e => m.set e.1 e.2) empty

theorem get_set (m : Mapping κ α) (k l : κ) (v : α) :
    (m.set k v).get l = if l = k then some v else m.get l := lookup_put k l v m.entries

/-- `get` does not depend on how keys are compared. -/
theorem get_eq_lookup [b : BEq κ] [LawfulBEq κ] (m : Mapping κ α) (k : κ) :
    m.get k = @List.lookup κ α b k m.entries := by
  have hb : instBEqOfDecidableEq = b := lawful_beq_subsingleton _ _
  rw [get, hb]

theorem keys_set (m : Mapping κ α) (k : κ) (v : α) :
    (m.set k v).keys = if k ∈ m.keys then m.keys else m.keys ++ [k] := keys_put k v m.entries

theorem mem_keys_iff (m : Mapping κ α) (k : κ) : k ∈ m.keys ↔ (m.get k).isSome = true := by
  unfold keys get
  induction m.entries with
  | nil => simp
  | cons e es ih =>
    obtain ⟨l, w⟩ := e
    by_cases h : k = l
    · simp [h]
    · have hb : (k == l) = false := by simpa using h
      rw [List.map_cons, List.mem_cons, ih, List.lookup_cons, hb]
      exact or_iff_right h

theorem lookup_of_mem {es : List (κ × α)} (hnd : (es.map Prod.fst).Nodup) {e : κ × α}
    (he : e ∈ es) : es.lookup e.1 = some e.2 := by
  induction es with
  | nil => simp at he
  | cons d es ih =>
    obtain ⟨l, w⟩ := d
    rw [List.map_cons, List.nodup_cons] at hnd
    rcases List.mem_cons.1 he with rfl | he
    · simp
    · have hb : (e.1 == l) = false :=
        beq_eq_false_iff_ne.2 fun h => hnd.1 (List.mem_map.2 ⟨e, he, h⟩)
      rw [List.lookup_cons, hb]
      exact ih hnd.2 he

/-- The entries are the keys with what they map to. -/
theorem entries_eq (m : Mapping κ α) :
    m.entries = m.keys.filterMap fun k => (m.get k).map fun v => (k, v) := by
  have h : ∀ e ∈ m.entries, (m.get e.1).map (fun v => (e.1, v)) = some e := fun e he => by
    rw [get, lookup_of_mem m.nodup he]
    rfl
  have := List.filterMap_congr h
  rw [keys, List.filterMap_map]
  rw [show ((fun k => (m.get k).map fun v => (k, v)) ∘ Prod.fst) =
    fun e : κ × α => (m.get e.1).map fun v => (e.1, v) from rfl, this, List.filterMap_some]

/-- The last value that a list of entries gives to a key. -/
def latest (es : List (κ × α)) (k : κ) : Option α := es.reverse.lookup k

theorem foldl_get (es : List (κ × α)) (m : Mapping κ α) (k : κ) :
    (es.foldl (fun m e => m.set e.1 e.2) m).get k = (latest es k).or (m.get k) := by
  induction es generalizing m with
  | nil => rfl
  | cons e es ih =>
    rw [List.foldl_cons, ih, get_set, latest, latest, List.reverse_cons, List.lookup_append,
      Option.or_assoc]
    congr 1
    obtain ⟨l, w⟩ := e
    by_cases h : k = l
    · simp [h]
    · have hb : (k == l) = false := by simpa using h
      rw [List.lookup_cons, hb]
      simp [h]

theorem foldl_keys (es : List (κ × α)) (m : Mapping κ α) :
    (es.foldl (fun m e => m.set e.1 e.2) m).keys =
      m.keys ++ ((es.map Prod.fst).filter fun k => !decide (k ∈ m.keys)).eraseDups := by
  induction es generalizing m with
  | nil => simp
  | cons e es ih =>
    rw [List.foldl_cons, ih, keys_set]
    by_cases h : e.1 ∈ m.keys
    · simp [h]
    · rw [if_neg h, List.map_cons, List.filter_cons_of_pos (by simpa using h), List.eraseDups_cons,
        List.filter_filter, List.append_assoc]
      congr 2
      simp only [List.singleton_append, List.cons.injEq, true_and]
      congr 1
      apply List.filter_congr
      intro k _
      by_cases hk : k = e.1 <;> by_cases hm : k ∈ m.keys <;> simp [hk, hm]

theorem get_ofList (es : List (κ × α)) (k : κ) : (ofList es).get k = latest es k := by
  rw [ofList, foldl_get]
  simp [get, empty]

theorem keys_ofList (es : List (κ × α)) : (ofList es).keys = (es.map Prod.fst).eraseDups := by
  rw [ofList, foldl_keys]
  simp [keys, empty]

theorem latest_map (f : α → κ) (l : List α) (k : κ) :
    latest (l.map fun t => (f t, t)) k = l.reverse.find? fun t => decide (f t = k) := by
  unfold latest
  rw [← List.map_reverse]
  induction l.reverse with
  | nil => rfl
  | cons t ts ih =>
    rw [List.map_cons, List.lookup_cons, List.find?_cons]
    by_cases h : f t = k
    · simp [h]
    · have hb : (k == f t) = false := by simpa using Ne.symm h
      rw [hb, decide_eq_false h]
      exact ih

/-- Values under a key of their own: the latest for each key, in the order of the keys. -/
theorem values_ofList [b : BEq κ] [LawfulBEq κ] (f : α → κ) (l : List α) :
    (ofList (l.map fun t => (f t, t))).values =
      (@List.eraseDups κ b (l.map f)).filterMap fun k =>
        l.reverse.find? fun t => decide (f t = k) := by
  have hb : instBEqOfDecidableEq = b := lawful_beq_subsingleton _ _
  have hkeys : (l.map fun t => (f t, t)).map Prod.fst = l.map f := by
    rw [List.map_map]
    rfl
  rw [values, entries_eq, keys_ofList, hkeys, List.map_filterMap, hb]
  congr 1
  funext k
  rw [get_ofList, latest_map, Option.map_map]
  exact Option.map_id'

theorem put_of_fresh {k : κ} {es : List (κ × α)} (v : α) (h : k ∉ es.map Prod.fst) :
    put k v es = es ++ [(k, v)] := by
  induction es with
  | nil => rfl
  | cons e es ih =>
    obtain ⟨l, w⟩ := e
    rw [List.map_cons, List.mem_cons, not_or] at h
    rw [put, if_neg fun hl => h.1 hl.symm, ih h.2, List.cons_append]

theorem foldl_entries {es : List (κ × α)} {m : Mapping κ α}
    (h : (m.keys ++ es.map Prod.fst).Nodup) :
    (es.foldl (fun m e => m.set e.1 e.2) m).entries = m.entries ++ es := by
  induction es generalizing m with
  | nil => rw [List.foldl_nil, List.append_nil]
  | cons e es ih =>
    have hfresh : e.1 ∉ m.keys := by
      intro hmem
      exact (List.nodup_append.1 h).2.2 _ hmem _ (List.mem_map_of_mem (List.mem_cons_self ..)) rfl
    have hkeys : (m.set e.1 e.2).keys = m.keys ++ [e.1] := by rw [keys_set, if_neg hfresh]
    rw [List.foldl_cons, ih (by rw [hkeys]; simpa [List.append_assoc] using h)]
    change put e.1 e.2 m.entries ++ es = _
    rw [put_of_fresh e.2 hfresh, List.append_assoc, List.singleton_append]

/-- Entries with distinct keys stay as they came. -/
theorem entries_ofList {es : List (κ × α)} (h : (es.map Prod.fst).Nodup) :
    (ofList es).entries = es := by
  rw [ofList, foldl_entries (by simpa [keys, empty] using h)]
  rfl

end Mapping

end KestrelSdk.Order

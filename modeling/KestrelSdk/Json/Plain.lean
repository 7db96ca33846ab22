import KestrelSdk.Json.Bytes

namespace KestrelSdk.Json

theorem joinSurrogates_cons {a : Nat} (h : isHigh a = false) (s : Str) :
    joinSurrogates (a :: s) = a :: joinSurrogates s := by
  cases s with
  | nil => rfl
  | cons b s => simp [joinSurrogates, h]

/-- A string of scalar values is read back as it is. -/
theorem imageStr_scalar {s : Str} (h : ∀ c ∈ s, IsScalar c) : imageStr s = s := by
  unfold imageStr
  induction s with
  | nil => rfl
  | cons c s ih =>
    have hc : c < 0xD800 ∨ (0xE000 ≤ c ∧ c < 0x110000) := h c (List.mem_cons_self ..)
    have ih := ih fun x hx => h x (List.mem_cons_of_mem c hx)
    rw [List.flatMap_cons]
    by_cases hsmall : c < 0x10000
    · have hhigh : isHigh c = false := by
        simp only [isHigh, Bool.and_eq_false_iff, decide_eq_false_iff_not]
        omega
      rw [units, if_pos hsmall, List.cons_append, List.nil_append, joinSurrogates_cons hhigh, ih]
    · have hhi : (0xD800 + (c - 0x10000) / 1024) % 0x10000 = 0xD800 + (c - 0x10000) / 1024 :=
        Nat.mod_eq_of_lt (by omega)
      have hpair : (isHigh (0xD800 + (c - 0x10000) / 1024) &&
          isLow (0xDC00 + (c - 0x10000) % 1024)) = true := by
        simp only [isHigh, isLow, Bool.and_eq_true, decide_eq_true_eq]
        omega
      have hjoin : 0x10000 + (0xD800 + (c - 0x10000) / 1024 - 0xD800) * 1024 +
          (0xDC00 + (c - 0x10000) % 1024 - 0xDC00) = c := by omega
      rw [units, if_neg hsmall, hhi, List.cons_append, List.cons_append, List.nil_append,
        joinSurrogates, if_pos hpair, ih, hjoin]

mutual
/-- Values that JSON keeps: strings of scalar values, floats that their `repr` names, dicts with
distinct string keys, and no other object. -/
def Plain (f : Str → PyFloat) : Value → Prop
  | .str s => ∀ c ∈ s, IsScalar c
  | .float (.finite r) => f r.text = .finite r
  | .list l => PlainItems f l
  | .dict es => PlainEntries f es
  | .object _ => False
  | _ => True
  termination_by structural v => v

def PlainItems (f : Str → PyFloat) : List Value → Prop
  | [] => True
  | v :: vs => Plain f v ∧ PlainItems f vs
  termination_by structural l => l

def PlainEntries (f : Str → PyFloat) : List (Key × Value) → Prop
  | [] => True
  | (k, v) :: es =>
    (∃ s, k = .str s ∧ ∀ c ∈ s, IsScalar c) ∧ k ∉ es.map Prod.fst ∧ Plain f v ∧ PlainEntries f es
  termination_by structural l => l
end

mutual
theorem image_plain (f : Str → PyFloat) : ∀ v, Plain f v → image f v = v
  | .none, _ => rfl
  | .bool _, _ => rfl
  | .int _, _ => rfl
  | .str s, h => by
    simp only [Plain] at h
    simp only [image, imageStr_scalar h]
  | .float (.finite r), h => by
    simp only [Plain] at h
    simp only [image, h]
  | .float .inf, _ => rfl
  | .float .negInf, _ => rfl
  | .float .nan, _ => rfl
  | .list l, h => by
    simp only [Plain] at h
    simp only [image, imageItems_plain f l h]
  | .dict es, h => by
    simp only [Plain] at h
    simp only [image, imageEntries_plain f es [] h (by simp), List.nil_append]
  | .object _, h => by simp only [Plain] at h
  termination_by structural v => v

theorem imageItems_plain (f : Str → PyFloat) : ∀ l, PlainItems f l → imageItems f l = l
  | [], _ => rfl
  | v :: vs, h => by
    simp only [PlainItems] at h
    simp only [imageItems, image_plain f v h.1, imageItems_plain f vs h.2]
  termination_by structural l => l

theorem imageEntries_plain (f : Str → PyFloat) : ∀ (es : List (Key × Value)) (acc : Dict),
    PlainEntries f es → (∀ k ∈ es.map Prod.fst, k ∉ acc.map Prod.fst) →
      imageEntries f acc es = acc ++ es
  | [], acc, _, _ => by simp [imageEntries]
  | (k, v) :: es, acc, h, hd => by
    simp only [PlainEntries] at h
    obtain ⟨⟨s, rfl, hs⟩, hfresh, hv, hes⟩ := h
    have hk : Key.str s ∉ acc.map Prod.fst := hd _ (by simp)
    have hset : acc.set s v = acc ++ [(.str s, v)] := Dict.set_of_fresh hk
    simp only [imageEntries, Key.text, imageStr_scalar hs, image_plain f v hv, hset]
    rw [imageEntries_plain f es _ hes ?_]
    · simp
    · intro l hl hmem
      simp only [List.map_append, List.map_cons, List.map_nil, List.mem_append,
        List.mem_singleton] at hmem
      rcases hmem with hmem | rfl
      · exact hd l (by simp only [List.map_cons, List.mem_cons]; exact .inr hl) hmem
      · exact hfresh hl
  termination_by structural es => es
end

/-- A dict with distinct keys that JSON keeps is read back entry by entry. -/
theorem imageEntries_distinct (f : Str → PyFloat) (es acc : Dict)
    (hkeys : ∀ e ∈ es, ∃ k, e.1 = .str k ∧ imageStr k = k)
    (hnd : (acc.map Prod.fst ++ es.map Prod.fst).Nodup) :
    imageEntries f acc es = acc ++ es.map fun e => (e.1, image f e.2) := by
  induction es generalizing acc with
  | nil => simp [imageEntries]
  | cons e es ih =>
    obtain ⟨k, v⟩ := e
    obtain ⟨s, hs, himage⟩ := hkeys (k, v) (List.mem_cons_self ..)
    obtain rfl : k = .str s := hs
    have hfresh : Key.str s ∉ acc.map Prod.fst := by
      intro hmem
      exact (List.nodup_append.1 hnd).2.2 _ hmem _ (List.mem_cons_self ..) rfl
    have hset : acc.set s (image f v) = acc ++ [(.str s, image f v)] :=
      Dict.set_of_fresh hfresh
    simp only [imageEntries, Key.text, himage, hset]
    rw [ih _ (fun e he => hkeys e (List.mem_cons_of_mem _ he))
      (by simpa [List.append_assoc] using hnd), List.append_assoc]
    rfl

theorem imageItems_map {α : Type} (f : Str → PyFloat) (g : α → Value) (l : List α) :
    imageItems f (l.map g) = l.map fun a => image f (g a) := by
  induction l with
  | nil => rfl
  | cons a l ih => rw [List.map_cons, List.map_cons, imageItems, ih]

mutual
/-- Values whose integers have no more digits than `int.__repr__` converts. -/
def Short : Value → Prop
  | .int i => (natText i.natAbs).length ≤ maxStrDigits
  | .list l => ShortItems l
  | .dict es => ShortEntries es
  | _ => True
  termination_by structural v => v

def ShortItems : List Value → Prop
  | [] => True
  | v :: vs => Short v ∧ ShortItems vs
  termination_by structural l => l

def ShortEntries : List (Key × Value) → Prop
  | [] => True
  | (_, v) :: es => Short v ∧ ShortEntries es
  termination_by structural l => l
end

mutual
/-- A JSON value within the limits of the encoder is encoded. -/
theorem dump_total (f : Str → PyFloat) : ∀ (v : Value) (d : Nat), Plain f v → Short v → depth v ≤ d →
    ∃ t, dump d v = .ok t
  | .none, _, _, _, _ => ⟨_, rfl⟩
  | .bool _, _, _, _, _ => ⟨_, rfl⟩
  | .int i, _, _, hs, _ => by
    simp only [Short] at hs
    have hn : ¬ maxStrDigits < (natText i.natAbs).length := by omega
    simp only [dump, dumpInt, hn, if_false]
    exact ⟨_, rfl⟩
  | .float _, _, _, _, _ => ⟨_, rfl⟩
  | .str _, _, _, _, _ => ⟨_, rfl⟩
  | .list l, d, hp, hs, hd => by
    simp only [Plain] at hp
    simp only [Short] at hs
    simp only [depth] at hd
    obtain ⟨e, rfl⟩ : ∃ e, d = e + 1 := ⟨d - 1, by omega⟩
    obtain ⟨t, ht⟩ := dumpItems_total f l e hp hs (by omega)
    simp only [dump, ht]
    exact ⟨_, rfl⟩
  | .dict es, d, hp, hs, hd => by
    simp only [Plain] at hp
    simp only [Short] at hs
    simp only [depth] at hd
    obtain ⟨e, rfl⟩ : ∃ e, d = e + 1 := ⟨d - 1, by omega⟩
    obtain ⟨t, ht⟩ := dumpEntries_total f es e hp hs (by omega)
    simp only [dump, ht]
    exact ⟨_, rfl⟩
  | .object _, _, hp, _, _ => by simp only [Plain] at hp
  termination_by structural v => v

theorem dumpItems_total (f : Str → PyFloat) : ∀ (l : List Value) (d : Nat), PlainItems f l →
    ShortItems l → depthItems l ≤ d → ∃ t, dumpItems d l = .ok t
  | [], _, _, _, _ => ⟨_, rfl⟩
  | v :: vs, d, hp, hs, hd => by
    simp only [PlainItems] at hp
    simp only [ShortItems] at hs
    simp only [depthItems] at hd
    obtain ⟨t, ht⟩ := dump_total f v d hp.1 hs.1 (by omega)
    obtain ⟨ts, hts⟩ := dumpItems_total f vs d hp.2 hs.2 (by omega)
    simp only [dumpItems, ht, hts]
    exact ⟨_, rfl⟩
  termination_by structural l => l

theorem dumpEntries_total (f : Str → PyFloat) : ∀ (es : List (Key × Value)) (d : Nat),
    PlainEntries f es → ShortEntries es → depthEntries es ≤ d → ∃ t, dumpEntries d es = .ok t
  | [], _, _, _, _ => ⟨_, rfl⟩
  | (k, v) :: es, d, hp, hs, hd => by
    simp only [PlainEntries] at hp
    obtain ⟨⟨s, rfl, -⟩, -, hv, hes⟩ := hp
    simp only [ShortEntries] at hs
    simp only [depthEntries] at hd
    obtain ⟨t, ht⟩ := dump_total f v d hv hs.1 (by omega)
    obtain ⟨ts, hts⟩ := dumpEntries_total f es d hes hs.2 (by omega)
    simp only [dumpEntries, Key.text, ht, hts]
    exact ⟨_, rfl⟩
  termination_by structural es => es
end

end KestrelSdk.Json

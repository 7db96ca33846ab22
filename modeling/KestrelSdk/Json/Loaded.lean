import Mathlib.Data.List.TakeWhile
import KestrelSdk.Json.Plain
import KestrelSdk.Order.Checks

/-! What `json.loads` returns: integers short enough for `json.dumps`, and strings that are read
back as they are. -/

namespace KestrelSdk.Json

open Checks (ok_bind)

/-- Code points of Unicode. -/
def InUnicode (s : Str) : Prop := ∀ c ∈ s, c < 0x110000

/-- A string without a high surrogate before a low one. -/
def Joined : Str → Prop
  | a :: b :: s => a < 0x110000 ∧ (isHigh a && isLow b) = false ∧ Joined (b :: s)
  | [a] => a < 0x110000
  | [] => True

theorem Joined.cons {a : Nat} {s : Str} (ha : a < 0x110000)
    (hs : ∀ b r, s = b :: r → (isHigh a && isLow b) = false) (h : Joined s) : Joined (a :: s) := by
  cases s with
  | nil => exact ha
  | cons b s => exact ⟨ha, hs b s rfl, h⟩

theorem Joined.tail {a : Nat} {s : Str} (h : Joined (a :: s)) : a < 0x110000 ∧ Joined s := by
  cases s with
  | nil => exact ⟨h, trivial⟩
  | cons b s => exact ⟨h.1, h.2.2⟩

theorem joinSurrogates_apart {a : Nat} {s : Str}
    (hs : ∀ b r, s = b :: r → (isHigh a && isLow b) = false) :
    joinSurrogates (a :: s) = a :: joinSurrogates s := by
  cases s with
  | nil => rfl
  | cons b s => simp [joinSurrogates, hs b s rfl]

/-- A joined string is read back as it is. -/
theorem imageStr_joined {s : Str} (h : Joined s) : imageStr s = s := by
  unfold imageStr
  induction s with
  | nil => rfl
  | cons c s ih =>
    obtain ⟨hc, hs⟩ := h.tail
    have ih := ih hs
    rw [List.flatMap_cons]
    by_cases hsmall : c < 0x10000
    · have hapart : ∀ b r, s.flatMap units = b :: r → (isHigh c && isLow b) = false := by
        intro b r hb
        cases s with
        | nil => cases hb
        | cons x s =>
          rw [List.flatMap_cons, units] at hb
          split at hb
          · obtain rfl := (List.cons.inj hb).1
            exact h.2.1
          · obtain rfl := (List.cons.inj hb).1
            have hx : x < 0x110000 := hs.tail.1
            have hlow : isLow ((0xD800 + (x - 0x10000) / 1024) % 0x10000) = false := by
              simp only [isLow, Bool.and_eq_false_iff, decide_eq_false_iff_not]
              omega
            rw [hlow, Bool.and_false]
      rw [units, if_pos hsmall, List.cons_append, List.nil_append, joinSurrogates_apart hapart, ih]
    · have hhi : (0xD800 + (c - 0x10000) / 1024) % 0x10000 = 0xD800 + (c - 0x10000) / 1024 :=
        Nat.mod_eq_of_lt (by omega)
      have hpair : (isHigh (0xD800 + (c - 0x10000) / 1024) &&
          isLow (0xDC00 + (c - 0x10000) % 1024)) = true := by
        simp only [isHigh, isLow, Bool.and_eq_true, decide_eq_true_eq]
        omega
      have hjoin : 0x10000 + (0xD800 + (c - 0x10000) / 1024 - 0xD800) * 1024 +
          (0xDC00 + (c - 0x10000) % 1024 - 0xDC00) = c := by omega
      rw [units, if_neg hsmall, hhi, List.cons_append, List.cons_append, List.nil_append,
        joinSurrogates, if_pos hpair, ih, hjoin]

/-- The first code point after joining is the first one, or a joined pair. -/
theorem joinSurrogates_head {a : Nat} {s t : Str} {b : Nat}
    (h : joinSurrogates (a :: s) = b :: t) : b = a ∨ 0x10000 ≤ b := by
  cases s with
  | nil =>
    obtain rfl := (List.cons.inj h).1
    exact .inl rfl
  | cons x s =>
    unfold joinSurrogates at h
    split at h
    · have hb := (List.cons.inj h).1
      right
      omega
    · exact .inl (List.cons.inj h).1.symm

theorem joined_joinSurrogates {s : Str} (h : InUnicode s) : Joined (joinSurrogates s) := by
  induction s using joinSurrogates.induct with
  | case1 a b s hpair ih =>
    have hs : InUnicode s := fun c hc => h c (List.mem_cons_of_mem a (List.mem_cons_of_mem b hc))
    rw [joinSurrogates, if_pos hpair]
    simp only [isHigh, isLow, Bool.and_eq_true, decide_eq_true_eq] at hpair
    apply Joined.cons
    · omega
    · intro x r _
      have hhigh : isHigh (0x10000 + (a - 0xD800) * 1024 + (b - 0xDC00)) = false := by
        simp only [isHigh, Bool.and_eq_false_iff, decide_eq_false_iff_not]
        omega
      rw [hhigh, Bool.false_and]
    · exact ih hs
  | case2 a b s hpair ih =>
    have hs : InUnicode (b :: s) := fun c hc => h c (List.mem_cons_of_mem a hc)
    rw [joinSurrogates, if_neg hpair]
    apply Joined.cons
    · exact h a List.mem_cons_self
    · intro x r hx
      rcases joinSurrogates_head hx with rfl | hx
      · simpa using hpair
      · have hlow : isLow x = false := by
          simp only [isLow, Bool.and_eq_false_iff, decide_eq_false_iff_not]
          omega
        rw [hlow, Bool.and_false]
    · exact ih hs
  | case3 s hne =>
    rw [joinSurrogates]
    · cases s with
      | nil => trivial
      | cons a s =>
        cases s with
        | nil => exact h a List.mem_cons_self
        | cons b s => exact absurd rfl (hne a b s)
    · exact hne

mutual
/-- Values with short integers and joined strings. -/
def Loaded : Value → Prop
  | .int i => (natText i.natAbs).length ≤ maxStrDigits
  | .str s => Joined s
  | .list l => LoadedItems l
  | .dict es => LoadedEntries es
  | .object _ => False
  | _ => True
  termination_by structural v => v

def LoadedItems : List Value → Prop
  | [] => True
  | v :: vs => Loaded v ∧ LoadedItems vs
  termination_by structural l => l

def LoadedEntries : List (Key × Value) → Prop
  | [] => True
  | (k, v) :: es => (∃ s, k = .str s ∧ Joined s) ∧ Loaded v ∧ LoadedEntries es
  termination_by structural l => l
end

theorem loadedItems_iff {l : List Value} : LoadedItems l ↔ ∀ v ∈ l, Loaded v := by
  induction l with
  | nil => simp [LoadedItems]
  | cons v l ih => simp [LoadedItems, ih]

theorem loadedEntries_iff {es : List (Key × Value)} :
    LoadedEntries es ↔ ∀ e ∈ es, (∃ s, e.1 = .str s ∧ Joined s) ∧ Loaded e.2 := by
  induction es with
  | nil => simp [LoadedEntries]
  | cons e es ih =>
    obtain ⟨k, v⟩ := e
    simp [LoadedEntries, ih, and_assoc]

theorem loadedEntries_set {d : Dict} {k : Str} {v : Value} (hd : LoadedEntries d) (hk : Joined k)
    (hv : Loaded v) : LoadedEntries (d.set k v) := by
  induction d with
  | nil => exact ⟨⟨k, rfl, hk⟩, hv, trivial⟩
  | cons e d ih =>
    obtain ⟨l, w⟩ := e
    simp only [LoadedEntries] at hd
    unfold Dict.set
    split
    · rename_i hl
      exact ⟨hd.1, hv, hd.2.2⟩
    · exact ⟨hd.1, hd.2.1, ih hd.2.2⟩

theorem loaded_get {d : Dict} {k : Str} {v : Value} (hd : LoadedEntries d) (h : d.get k = some v) :
    Loaded v := by
  obtain ⟨l, r, rfl, -⟩ := List.lookup_eq_some_iff.1 h
  exact (loadedEntries_iff.1 hd (.str k, v) (List.mem_append_right l List.mem_cons_self)).2

/-- A loaded value without nesting is dumped, and read back as it is. -/
theorem dump_loaded_flat (f : Str → PyFloat) {v : Value} (h : Loaded v)
    (hflat : v = .none ∨ (∃ b, v = .bool b) ∨ (∃ i, v = .int i) ∨ ∃ s, v = .str s) (n : Nat) :
    (∃ t, dump n v = .ok t) ∧ image f v = v := by
  rcases hflat with rfl | ⟨b, rfl⟩ | ⟨i, rfl⟩ | ⟨s, rfl⟩
  · exact ⟨⟨_, rfl⟩, rfl⟩
  · exact ⟨⟨_, rfl⟩, rfl⟩
  · simp only [Loaded] at h
    have hn : ¬ maxStrDigits < (natText i.natAbs).length := by omega
    constructor
    · simp only [dump, dumpInt, hn, if_false]
      exact ⟨_, rfl⟩
    · rfl
  · simp only [Loaded] at h
    constructor
    · exact ⟨_, rfl⟩
    · simp only [image, imageStr_joined h]

theorem InUnicode.tail {a : Nat} {s : Str} (h : InUnicode (a :: s)) : InUnicode s :=
  fun c hc => h c (List.mem_cons_of_mem a hc)

theorem InUnicode.suffix {r s : Str} (h : InUnicode s) (hr : r <:+ s) : InUnicode r :=
  fun c hc => h c (hr.subset hc)

theorem InUnicode.skipSpace {s : Str} (h : InUnicode s) : InUnicode (skipSpace s) :=
  h.suffix (List.dropWhile_suffix isSpace)

theorem hexQuad_lt {a b c d u : Nat} (h : hexQuad a b c d = some u) : u < 0x110000 := by
  have hvalue : ∀ x y, hexValue x = some y → y < 16 := by
    intro x y hx
    unfold hexValue at hx
    split_ifs at hx
    · obtain rfl := Option.some.inj hx
      omega
    · obtain rfl := Option.some.inj hx
      omega
    · obtain rfl := Option.some.inj hx
      omega
  unfold hexQuad at h
  obtain ⟨a', ha, h⟩ := Option.bind_eq_some_iff.1 h
  obtain ⟨b', hb, h⟩ := Option.bind_eq_some_iff.1 h
  obtain ⟨c', hc, h⟩ := Option.bind_eq_some_iff.1 h
  obtain ⟨d', hd, h⟩ := Option.bind_eq_some_iff.1 h
  obtain rfl := Option.some.inj h
  have := hvalue _ _ ha
  have := hvalue _ _ hb
  have := hvalue _ _ hc
  have := hvalue _ _ hd
  omega

theorem unescape_lt {c u : Nat} (hc : c < 0x110000) (h : unescape c = some u) : u < 0x110000 := by
  unfold unescape at h
  split_ifs at h
  · obtain rfl := Option.some.inj h
    exact hc
  all_goals
    obtain rfl := Option.some.inj h
    decide

theorem scanUnits_cons_unicode {u : Nat} {s us r : Str} (hu : u < 0x110000)
    (ih : ∀ us r, scanUnits s = .ok (us, r) → InUnicode us ∧ InUnicode r)
    (h : (do let (us, r) ← scanUnits s; return (u :: us, r)) = Except.ok (us, r)) :
    InUnicode us ∧ InUnicode r := by
  cases hx : scanUnits s with
  | error e =>
    rw [hx] at h
    cases h
  | ok p =>
    rw [hx] at h
    cases h
    obtain ⟨hus, hr⟩ := ih _ _ hx
    refine ⟨?_, hr⟩
    intro c hc
    rcases List.mem_cons.1 hc with rfl | hc
    · exact hu
    · exact hus c hc

theorem scanUnits_unicode {s us r : Str} (hs : InUnicode s) (h : scanUnits s = .ok (us, r)) :
    InUnicode us ∧ InUnicode r := by
  induction s using scanUnits.induct generalizing us r with
  | case1 => cases h
  | case2 s =>
    cases h
    exact ⟨fun c hc => absurd hc List.not_mem_nil, hs.tail⟩
  | case3 => cases h
  | case4 a b c d s u hq ih =>
    simp only [scanUnits, hq] at h
    have hrest : InUnicode s := hs.tail.tail.tail.tail.tail.tail
    exact scanUnits_cons_unicode (hexQuad_lt hq) (fun us r => ih hrest) h
  | case5 a b c d s hq =>
    simp only [scanUnits, hq] at h
    cases h
  | case6 s hne =>
    rw [scanUnits] at h
    · simp at h
    all_goals assumption
  | case7 x s hne hx u hu ih =>
    rw [scanUnits] at h
    · rw [if_neg hx, hu] at h
      have hlt := unescape_lt (hs.tail x List.mem_cons_self) hu
      exact scanUnits_cons_unicode hlt (fun us r => ih hs.tail.tail) h
    all_goals assumption
  | case8 x s hne hx hu =>
    rw [scanUnits] at h
    · rw [if_neg hx, hu] at h
      cases h
    all_goals assumption
  | case9 c s h1 h2 h3 h4 hc =>
    rw [scanUnits] at h
    · rw [if_pos hc] at h
      cases h
    all_goals assumption
  | case10 c s h1 h2 h3 h4 hc ih =>
    rw [scanUnits] at h
    · rw [if_neg hc] at h
      exact scanUnits_cons_unicode (hs c List.mem_cons_self) (fun us r => ih hs.tail) h
    all_goals assumption

theorem scanString_joined {s t r : Str} (hs : InUnicode s) (h : scanString s = .ok (t, r)) :
    Joined t ∧ InUnicode r := by
  unfold scanString at h
  cases hx : scanUnits s with
  | error e =>
    rw [hx] at h
    cases h
  | ok p =>
    rw [hx] at h
    cases h
    obtain ⟨hus, hr⟩ := scanUnits_unicode hs hx
    exact ⟨joined_joinSurrogates hus, hr⟩

theorem scanSign_suffix (s : Str) : (scanSign s).2 <:+ s := by
  unfold scanSign
  split
  · exact List.suffix_cons _ _
  · exact List.suffix_rfl

theorem scanFraction_suffix (s : Str) : (scanFraction s).2 <:+ s := by
  unfold scanFraction
  split
  · split
    · have hdrop := List.dropWhile_suffix isDigit (l := ‹List Nat›)
      exact (hdrop.trans (List.suffix_cons _ _)).trans (List.suffix_cons _ _)
    · exact List.suffix_rfl
  · exact List.suffix_rfl

theorem scanExponent_suffix (s : Str) : (scanExponent s).2 <:+ s := by
  have hd : ∀ (a : Nat) (l : Str), l.dropWhile isDigit <:+ a :: l := fun a l =>
    (List.dropWhile_suffix isDigit).trans (List.suffix_cons a l)
  unfold scanExponent
  split
  · split
    · split
      · split
        · exact hd _ _
        · split
          · exact (hd _ _).trans (List.suffix_cons _ _)
          · exact List.suffix_rfl
      · split
        · exact List.nil_suffix
        · exact List.suffix_rfl
      · exact List.suffix_rfl
    · exact List.suffix_rfl
  · exact List.suffix_rfl

theorem natOf_digits_lt {ds : Str} (h : ∀ c ∈ ds, isDigit c = true) : natOf ds < 10 ^ ds.length := by
  have key : ∀ (ds : Str) (n k : Nat), (∀ c ∈ ds, isDigit c = true) → n < 10 ^ k →
      ds.foldl (fun n c => 10 * n + (c - 48)) n < 10 ^ (k + ds.length) := by
    intro ds
    induction ds with
    | nil => exact fun n k _ hn => hn
    | cons c ds ih =>
      intro n k hd hn
      have hc := hd c List.mem_cons_self
      simp only [isDigit, Bool.and_eq_true, decide_eq_true_eq] at hc
      have hstep : 10 * n + (c - 48) < 10 ^ (k + 1) := by
        rw [Nat.pow_succ]
        omega
      have hrest := ih _ (k + 1) (fun x hx => hd x (List.mem_cons_of_mem c hx)) hstep
      rw [List.foldl_cons, List.length_cons, Nat.add_comm ds.length 1, ← Nat.add_assoc]
      exact hrest
  have h0 := key ds 0 0 h (by decide)
  rw [Nat.zero_add] at h0
  exact h0

/-- Reading digits and writing the integer gives no more digits. -/
theorem natText_natOf_length {ds : Str} (hne : ds ≠ []) (h : ∀ c ∈ ds, isDigit c = true) :
    (natText (natOf ds)).length ≤ ds.length := by
  have hpos : 0 < ds.length := List.length_pos_of_ne_nil hne
  rw [natText, List.length_map]
  exact (Nat.length_toDigits_le_iff (by decide) hpos).2 (natOf_digits_lt h)

theorem scanInteger_digits {s ds r : Str} (h : scanInteger s = some (ds, r)) :
    ds ≠ [] ∧ (∀ c ∈ ds, isDigit c = true) ∧ r <:+ s := by
  unfold scanInteger at h
  split at h
  · cases h
    exact ⟨by simp, by decide, List.suffix_cons _ _⟩
  · rename_i c s' _
    split at h
    · rename_i hc
      cases h
      refine ⟨by simp, ?_, (List.dropWhile_suffix isDigit).trans (List.suffix_cons _ _)⟩
      intro x hx
      rcases List.mem_cons.1 hx with rfl | hx
      · exact hc
      · exact List.mem_takeWhile_imp hx
    · cases h
  · cases h

theorem scanNumber_loaded {f : Str → PyFloat} {s r : Str} {v : Value} (hs : InUnicode s)
    (h : scanNumber f s = .ok (v, r)) : Loaded v ∧ InUnicode r := by
  have h1 := scanSign_suffix s
  simp only [scanNumber] at h
  split at h
  · cases h
  · rename_i ds x hx
    obtain ⟨hne, hdigits, h2⟩ := scanInteger_digits hx
    have h3 := scanFraction_suffix x
    have h4 := scanExponent_suffix (scanFraction x).2
    have hr := hs.suffix (((h4.trans h3).trans h2).trans h1)
    have hlen := natText_natOf_length hne hdigits
    split at h
    · split at h
      · cases h
      · rename_i hmax
        cases h
        refine ⟨?_, hr⟩
        simp only [Loaded]
        split
        · simp only [Int.natAbs_natCast]
          omega
        · simp only [Int.natAbs_neg, Int.natAbs_natCast]
          omega
    · cases h
      exact ⟨by simp only [Loaded], hr⟩

theorem scanLiteral_loaded {s r : Str} {v : Value} (hs : InUnicode s)
    (h : scanLiteral s = some (v, r)) : Loaded v ∧ InUnicode r := by
  obtain ⟨⟨t, w⟩, hmem, hif⟩ := List.exists_of_findSome?_eq_some h
  have hall : ∀ p ∈ literals, Loaded p.2 := by
    intro p hp
    simp only [literals, List.mem_cons, List.not_mem_nil, or_false] at hp
    rcases hp with rfl | rfl | rfl | rfl | rfl | rfl <;> simp only [Loaded]
  simp only at hif
  split at hif
  · cases hif
    exact ⟨hall _ hmem, hs.suffix (List.drop_suffix _ _)⟩
  · cases hif

theorem scan_loaded (f : Str → PyFloat) (n : Nat) :
    (∀ d s v r, InUnicode s → scanOnce f n d s = .ok (v, r) → Loaded v ∧ InUnicode r) ∧
    (∀ d acc s v r, InUnicode s → LoadedItems acc → scanItems f n d acc s = .ok (v, r) →
      Loaded v ∧ InUnicode r) ∧
    (∀ d acc s v r, InUnicode s → LoadedEntries acc → scanEntries f n d acc s = .ok (v, r) →
      Loaded v ∧ InUnicode r) := by
  induction n with
  | zero =>
    refine ⟨?_, ?_, ?_⟩
    · intro d s v r _ h
      cases h
    · intro d acc s v r _ _ h
      cases h
    · intro d acc s v r _ _ h
      cases h
  | succ n ih =>
    obtain ⟨ihOnce, ihItems, ihEntries⟩ := ih
    refine ⟨?_, ?_, ?_⟩
    · intro d s v r hs h
      simp only [scanOnce] at h
      split at h
      · cases h
      · rename_i c x
        split_ifs at h
        · cases hstring : scanString x with
          | error e =>
            rw [hstring] at h
            cases h
          | ok p =>
            rw [hstring] at h
            cases h
            have hp := scanString_joined hs.tail hstring
            simp only [Loaded]
            exact hp
        · split at h
          · cases h
          · split at h
            · rename_i he
              cases h
              have hrest : InUnicode (125 :: r) := he ▸ hs.tail.skipSpace
              exact ⟨by simp only [Loaded, LoadedEntries], hrest.tail⟩
            · have hnil : LoadedEntries [] := by simp only [LoadedEntries]
              exact ihEntries _ _ _ _ _ hs.tail.skipSpace hnil h
        · split at h
          · cases h
          · split at h
            · rename_i he
              cases h
              have hrest : InUnicode (93 :: r) := he ▸ hs.tail.skipSpace
              exact ⟨by simp only [Loaded, LoadedItems], hrest.tail⟩
            · have hnil : LoadedItems [] := by simp only [LoadedItems]
              exact ihItems _ _ _ _ _ hs.tail.skipSpace hnil h
        · split at h
          · rename_i hl
            cases h
            exact scanLiteral_loaded hs hl
          · exact scanNumber_loaded hs h
    · intro d acc s v r hs hacc h
      simp only [scanItems] at h
      cases hscan : scanOnce f n d s with
      | error e =>
        rw [hscan] at h
        cases h
      | ok p =>
        rw [hscan, ok_bind] at h
        obtain ⟨hp, hrest⟩ := ihOnce _ _ _ _ hs hscan
        have hall : LoadedItems (acc ++ [p.1]) := by
          rw [loadedItems_iff] at hacc ⊢
          intro w hw
          rcases List.mem_append.1 hw with hw | hw
          · exact hacc w hw
          · rw [List.mem_singleton.1 hw]
            exact hp
        have hspace := hrest.skipSpace
        split at h
        · rename_i he
          cases h
          rw [he] at hspace
          simp only [Loaded]
          exact ⟨hall, hspace.tail⟩
        · rename_i he
          rw [he] at hspace
          exact ihItems _ _ _ _ _ hspace.tail.skipSpace hall h
        · cases h
    · intro d acc s v r hs hacc h
      simp only [scanEntries] at h
      split at h
      · rename_i x
        cases hk : scanString x with
        | error e =>
          rw [hk] at h
          cases h
        | ok p =>
          rw [hk, ok_bind] at h
          obtain ⟨hkey, hrest⟩ := scanString_joined hs.tail hk
          have hcolon := hrest.skipSpace
          split at h
          · rename_i y hy
            rw [hy] at hcolon
            cases hscan : scanOnce f n d (skipSpace y) with
            | error e =>
              rw [hscan] at h
              cases h
            | ok q =>
              rw [hscan, ok_bind] at h
              obtain ⟨hq, hafter⟩ := ihOnce _ _ _ _ hcolon.tail.skipSpace hscan
              have hall : LoadedEntries (Dict.set acc p.1 q.1) := loadedEntries_set hacc hkey hq
              have hspace := hafter.skipSpace
              split at h
              · rename_i he
                cases h
                rw [he] at hspace
                simp only [Loaded]
                exact ⟨hall, hspace.tail⟩
              · rename_i he
                rw [he] at hspace
                exact ihEntries _ _ _ _ _ hspace.tail.skipSpace hall h
              · cases h
          · cases h
      · cases h

theorem loads_loaded {py : Interpreter} {s : Str} {v : Value} (hs : InUnicode s)
    (h : py.loads s = .ok v) : Loaded v := by
  unfold Interpreter.loads at h
  split at h
  · cases h
  · cases hscan : scanOnce py.floatOf (2 * s.length + 2) py.nesting (skipSpace s) with
    | error e =>
      rw [hscan] at h
      cases h
    | ok p =>
      obtain ⟨w, r⟩ := p
      simp only [hscan, ok_bind] at h
      split_ifs at h
      cases h
      exact ((scan_loaded _ _).1 _ _ _ _ hs.skipSpace hscan).1

theorem decodeTwo_lt {a b : UInt8} {u : Nat} (h : decodeTwo a b = some u) : u < 0x110000 := by
  unfold decodeTwo at h
  split_ifs at h
  have hu := Option.some.inj h
  have ha := a.toNat_lt
  have hb := b.toNat_lt
  omega

theorem decodeThree_lt {a b c : UInt8} {u : Nat} (h : decodeThree a b c = some u) :
    u < 0x110000 := by
  unfold decodeThree at h
  split_ifs at h
  have hu := Option.some.inj h
  have ha := a.toNat_lt
  have hb := b.toNat_lt
  have hc := c.toNat_lt
  omega

theorem decodeFour_lt {a b c d : UInt8} {u : Nat} (h : decodeFour a b c d = some u) :
    u < 0x110000 := by
  unfold decodeFour at h
  split_ifs at h with hcond
  have hu := Option.some.inj h
  simp only [isTail, Bool.and_eq_true, decide_eq_true_eq, Bool.not_eq_true', Bool.and_eq_false_iff,
    beq_eq_false_iff_ne, decide_eq_false_iff_not, UInt8.le_iff_toNat_le, UInt8.lt_iff_toNat_lt,
    ne_eq, ← UInt8.toNat_inj] at hcond
  obtain ⟨⟨⟨⟨⟨⟨-, ha⟩, -, hb⟩, -, hc⟩, -, hd⟩, -⟩, hlast⟩ := hcond
  have h244 : (0xF4 : UInt8).toNat = 244 := rfl
  have h191 : (0xBF : UInt8).toNat = 191 := rfl
  have h143 : (0x8F : UInt8).toNat = 143 := rfl
  omega

theorem decodeUtf8_unicode {b : Bytes} {s : Str} (h : decodeUtf8 b = some s) : InUnicode s := by
  have hcons : ∀ {u : Nat} {o : Option Str} {s : Str}, u < 0x110000 →
      (∀ t, o = some t → InUnicode t) → o.map (u :: ·) = some s → InUnicode s := by
    intro u o s hu ih hmap
    obtain ⟨t, ht, rfl⟩ := Option.map_eq_some_iff.1 hmap
    intro c hc
    rcases List.mem_cons.1 hc with rfl | hc
    · exact hu
    · exact ih t ht c hc
  fun_induction decodeUtf8 b generalizing s with
  | case1 =>
    cases h
    exact fun c hc => absurd hc List.not_mem_nil
  | case2 a b hsmall ih =>
    have ha := a.toNat_lt
    exact hcons (by omega) (fun t => ih) h
  | case3 => cases h
  | case4 a ha b rest u htwo ih => exact hcons (decodeTwo_lt htwo) (fun t => ih) h
  | case5 => cases h
  | case6 a ha b _ c rest u hthree ih => exact hcons (decodeThree_lt hthree) (fun t => ih) h
  | case7 => cases h
  | case8 a ha b _ c _ d rest u hfour ih => exact hcons (decodeFour_lt hfour) (fun t => ih) h
  | case9 => cases h

end KestrelSdk.Json

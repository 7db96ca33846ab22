import KestrelSdk.Frozen.Size
import KestrelSdk.Json.Plain
import KestrelSdk.Json.Utf8

namespace KestrelSdk.Frozen

open Json (Str Bytes Key Value PyFloat IsScalar Plain PlainItems PlainEntries Stop scanUnits scanString
  scanOnce scanItems scanEntries skipSpace skipSpace_cons joinSurrogates isSpace)
open Checks (ok_bind)

/-! Strings. -/

theorem joinSurrogates_scalar {s : Str} (h : ∀ c ∈ s, IsScalar c) : joinSurrogates s = s := by
  induction s with
  | nil => rfl
  | cons c s ih =>
    have hc : c < 0xD800 ∨ (0xE000 ≤ c ∧ c < 0x110000) := h c (List.mem_cons_self ..)
    have hhigh : Json.isHigh c = false := by
      simp only [Json.isHigh, Bool.and_eq_false_iff, decide_eq_false_iff_not]
      omega
    rw [Json.joinSurrogates_cons hhigh, ih fun d hd => h d (List.mem_cons_of_mem c hd)]

theorem scanUnits_escapeUnicode (c : Nat) (s : Str) :
    scanUnits (escapeUnicode c ++ s) = do
      let (us, r) ← scanUnits s
      return (c :: us, r) := by
  unfold escapeUnicode
  split_ifs with h1 h2 h3 h4 h5 h6 h7 h8
  case pos | pos | pos | pos | pos | pos | pos =>
    subst c
    simp [scanUnits, Json.unescape]
  · rw [Json.scanUnits_hexEscape, Nat.mod_eq_of_lt (by omega)]
  · simp only [List.cons_append, List.nil_append]
    rw [scanUnits]
    · rw [if_neg h8]
    all_goals omega

/-- A quoted string is read back up to its closing quote. -/
theorem scanString_quote {s : Str} (h : ∀ c ∈ s, IsScalar c) (r : Str) :
    scanString (s.flatMap escapeUnicode ++ 34 :: r) = .ok (s, r) := by
  have hu : scanUnits (s.flatMap escapeUnicode ++ 34 :: r) = .ok (s, r) := by
    clear h
    induction s with
    | nil => rfl
    | cons c s ih =>
      rw [List.flatMap_cons, List.append_assoc, scanUnits_escapeUnicode, ih]
      rfl
  rw [scanString, hu, ok_bind]
  simp only [joinSurrogates_scalar h]
  rfl

/-! The parts of a text. -/

theorem dumps_list {vs : List Value} {t : Str} (h : dumps (.list vs) = some t) :
    ∃ u, dumpsItems vs = some u ∧ t = 91 :: (u ++ [93]) := by
  obtain ⟨u, hu, ht⟩ := Option.bind_eq_some_iff.1 h
  cases ht
  exact ⟨u, hu, rfl⟩

theorem dumps_dict {es : List (Key × Value)} {t : Str} (h : dumps (.dict es) = some t) :
    ∃ u, dumpsEntries es = some u ∧ t = 123 :: (u ++ [125]) := by
  obtain ⟨u, hu, ht⟩ := Option.bind_eq_some_iff.1 h
  cases ht
  exact ⟨u, hu, rfl⟩

theorem dumpsItems_cons {v : Value} {vs : List Value} {t : Str}
    (h : dumpsItems (v :: vs) = some t) : ∃ u us, dumps v = some u ∧ dumpsItems vs = some us ∧
      t = if vs.isEmpty then u else u ++ 44 :: us := by
  obtain ⟨u, hu, h⟩ := Option.bind_eq_some_iff.1 h
  obtain ⟨us, hus, h⟩ := Option.bind_eq_some_iff.1 h
  exact ⟨u, us, hu, hus, (Option.some.inj h).symm⟩

theorem dumpsEntries_cons {k : Str} {v : Value} {es : List (Key × Value)} {t : Str}
    (h : dumpsEntries ((.str k, v) :: es) = some t) :
    ∃ u us, dumps v = some u ∧ dumpsEntries es = some us ∧
      t = quote k ++ 58 :: (if es.isEmpty then u else u ++ 44 :: us) := by
  obtain ⟨u, hu, h⟩ := Option.bind_eq_some_iff.1 h
  obtain ⟨us, hus, h⟩ := Option.bind_eq_some_iff.1 h
  exact ⟨u, us, hu, hus, (Option.some.inj h).symm⟩

/-- No text starts with white space or with a closing bracket. -/
theorem dumps_head {v : Value} {t : Str} (h : dumps v = some t) :
    ∃ c r, t = c :: r ∧ isSpace c = false ∧ c ≠ 93 ∧ c ≠ 125 ∧ c < 128 := by
  have hleaf : ∀ {w : Value} {u : Str}, Json.dumpWith [] 0 w = .ok u →
      ∃ c r, u = c :: r ∧ isSpace c = false ∧ c ≠ 93 ∧ c ≠ 125 ∧ c < 128 :=
    fun hw => Json.dumpWith_head hw
  cases v with
  | none => cases h; exact hleaf (w := .none) rfl
  | bool b => cases h; exact hleaf (w := .bool b) rfl
  | int i =>
    cases hi : Json.dumpInt i with
    | error e => simp [dumps, hi, Except.toOption] at h
    | ok u =>
      simp only [dumps, hi, Except.toOption, Option.some.injEq] at h
      subst h
      exact hleaf (w := .int i) hi
  | float x =>
    cases x with
    | finite r => cases h; exact hleaf (w := .float (.finite r)) rfl
    | inf => cases h
    | negInf => cases h
    | nan => cases h
  | str s => cases h; exact ⟨34, _, rfl, by decide⟩
  | list vs =>
    obtain ⟨u, _, rfl⟩ := dumps_list h
    exact ⟨91, _, rfl, by decide⟩
  | dict es =>
    obtain ⟨u, _, rfl⟩ := dumps_dict h
    exact ⟨123, _, rfl, by decide⟩
  | object n => cases h

/-! Reading a text back. -/

mutual
theorem scanOnce_dumps (f : Str → PyFloat) : ∀ (v : Value) (n e : Nat) {t s : Str},
    dumps v = some t → Plain f v → Stop s → 2 * t.length ≤ n → height v ≤ e →
      scanOnce f n e (t ++ s) = .ok (v, s)
  | v, 0, e, t, s, h, _, _, hn, _ => by
    obtain ⟨c, r, rfl, -⟩ := dumps_head h
    simp at hn
  | .none, n + 1, e, t, s, h, _, _, _, _ => by
    cases h
    simp [Json.str, scanOnce, Json.scanLiteral, Json.literals]
  | .bool b, n + 1, e, t, s, h, _, _, _, _ => by
    cases h
    cases b <;> simp [Json.dumpBool, Json.str, scanOnce, Json.scanLiteral, Json.literals]
  | .int i, n + 1, e, t, s, h, _, hs, _, _ => by
    cases hi : Json.dumpInt i with
    | error e => simp [dumps, hi, Except.toOption] at h
    | ok u =>
      simp only [dumps, hi, Except.toOption, Option.some.injEq] at h
      subst h
      exact Json.scanOnce_dumpInt f n e hi hs
  | .float x, n + 1, e, t, s, h, hp, hs, _, _ => by
    cases x with
    | finite r =>
      cases h
      have hread := Json.scanOnce_dumpFloat f n e (.finite r) hs
      rw [Json.image_plain f _ hp] at hread
      exact hread
    | inf => cases h
    | negInf => cases h
    | nan => cases h
  | .str u, n + 1, e, t, s, h, hp, _, _, _ => by
    cases h
    simp only [Plain] at hp
    have hq := scanString_quote hp s
    simp only [quote, List.cons_append, List.append_assoc, List.nil_append, scanOnce, if_true]
    rw [hq]
    rfl
  | .object m, n + 1, e, t, s, h, _, _, _, _ => by cases h
  | .list l, n + 1, e, t, s, h, hp, hs, hn, hd => by
    obtain ⟨ts, hts, rfl⟩ := dumps_list h
    simp only [List.length_cons, List.length_append, List.length_nil] at hn
    simp only [Plain] at hp
    simp only [height] at hd
    obtain ⟨e, rfl⟩ : ∃ d, e = d + 1 := ⟨e - 1, by omega⟩
    cases l with
    | nil =>
      cases hts
      simp [scanOnce, skipSpace, isSpace]
    | cons v vs =>
      have ih := scanItems_dumps f (v :: vs) n e [] (by simp) hts hp (s := s) (by omega) (by omega)
      obtain ⟨u, us, hu, -, hts'⟩ := dumpsItems_cons hts
      obtain ⟨c, r, rfl, hsp, hc, -⟩ := dumps_head hu
      obtain ⟨r', rfl⟩ : ∃ r', ts = c :: r' := by
        rw [hts']
        split
        · exact ⟨_, rfl⟩
        · exact ⟨_, rfl⟩
      simp only [List.cons_append, List.append_assoc, List.nil_append] at ih ⊢
      simp only [scanOnce, skipSpace_cons hsp]
      rw [if_neg (by decide), if_neg (by decide), if_pos trivial]
      split
      · rename_i he
        cases he
        exact absurd rfl hc
      · exact ih
  | .dict es, n + 1, e, t, s, h, hp, hs, hn, hd => by
    obtain ⟨ts, hts, rfl⟩ := dumps_dict h
    simp only [List.length_cons, List.length_append, List.length_nil] at hn
    simp only [Plain] at hp
    simp only [height] at hd
    obtain ⟨e, rfl⟩ : ∃ d, e = d + 1 := ⟨e - 1, by omega⟩
    cases es with
    | nil =>
      cases hts
      simp [scanOnce, skipSpace, isSpace]
    | cons kv es =>
      obtain ⟨k, v⟩ := kv
      have ih := scanEntries_dumps f ((k, v) :: es) n e [] (by simp) hts hp (by simp) (s := s)
        (by omega) (by omega)
      obtain ⟨q, rfl, _⟩ := hp.1
      obtain ⟨u, us, -, -, rfl⟩ := dumpsEntries_cons hts
      simp only [quote, List.cons_append, List.append_assoc, List.nil_append] at ih ⊢
      simp only [scanOnce, skipSpace_cons (show isSpace 34 = false from rfl)]
      rw [if_neg (by decide), if_pos trivial]
      exact ih
  termination_by structural v => v

theorem scanItems_dumps (f : Str → PyFloat) : ∀ (l : List Value) (n e : Nat) (acc : List Value)
    {ts s : Str}, l ≠ [] → dumpsItems l = some ts → PlainItems f l → 2 * ts.length + 1 ≤ n →
      heightItems l ≤ e → scanItems f n e acc (ts ++ 93 :: s) = .ok (.list (acc ++ l), s)
  | [], n, e, acc, ts, s, hne, _, _, _, _ => absurd rfl hne
  | v :: vs, 0, e, acc, ts, s, _, _, _, hn, _ => by omega
  | v :: vs, n + 1, e, acc, ts, s, _, h, hp, hn, hd => by
    obtain ⟨u, us, hu, hus, rfl⟩ := dumpsItems_cons h
    simp only [PlainItems] at hp
    simp only [heightItems] at hd
    cases vs with
    | nil =>
      simp only [List.isEmpty_nil, if_true] at hn ⊢
      rw [scanItems, scanOnce_dumps f v n e hu hp.1 (.cons (by decide)) (by omega) (by omega),
        ok_bind]
      simp only [skipSpace_cons (show isSpace 93 = false from rfl)]
      rfl
    | cons w ws =>
      simp only [List.isEmpty_cons, Bool.false_eq_true, if_false, List.length_append,
        List.length_cons] at hn ⊢
      have ih := scanItems_dumps f (w :: ws) n e (acc ++ [v]) (by simp) hus hp.2 (s := s) (by omega)
        (by omega)
      obtain ⟨u', us', hu', -, hts'⟩ := dumpsItems_cons hus
      obtain ⟨c, r, rfl, hsp, -⟩ := dumps_head hu'
      obtain ⟨r', rfl⟩ : ∃ r', us = c :: r' := by
        rw [hts']
        split
        · exact ⟨_, rfl⟩
        · exact ⟨_, rfl⟩
      simp only [List.append_assoc, List.cons_append] at ih ⊢
      rw [scanItems, scanOnce_dumps f v n e hu hp.1 (.cons (by decide)) (by omega) (by omega),
        ok_bind]
      simp only [skipSpace_cons (show isSpace 44 = false from rfl), skipSpace_cons hsp]
      rw [ih]
      rfl
  termination_by structural l => l

theorem scanEntries_dumps (f : Str → PyFloat) : ∀ (es : List (Key × Value)) (n e : Nat)
    (acc : Json.Dict) {ts s : Str}, es ≠ [] → dumpsEntries es = some ts → PlainEntries f es →
      (∀ k ∈ es.map Prod.fst, k ∉ acc.map Prod.fst) → 2 * ts.length + 1 ≤ n →
      heightEntries es ≤ e → scanEntries f n e acc (ts ++ 125 :: s) = .ok (.dict (acc ++ es), s)
  | [], n, e, acc, ts, s, hne, _, _, _, _, _ => absurd rfl hne
  | (k, v) :: es, 0, e, acc, ts, s, _, _, _, _, hn, _ => by omega
  | (k, v) :: es, n + 1, e, acc, ts, s, _, h, hp, hnew, hn, hd => by
    simp only [PlainEntries] at hp
    obtain ⟨⟨q, rfl, hq⟩, hfresh, hv, hes⟩ := hp
    simp only [heightEntries] at hd
    obtain ⟨u, us, hu, hus, rfl⟩ := dumpsEntries_cons h
    obtain ⟨c, r, rfl, hsp, -⟩ := dumps_head hu
    have hstr : ∀ x, scanString (q.flatMap escapeUnicode ++ 34 :: x) = .ok (q, x) :=
      scanString_quote hq
    have hcolon : ∀ x, skipSpace (58 :: x) = 58 :: x := skipSpace_cons rfl
    have hset : acc.set q v = acc ++ [(.str q, v)] :=
      Json.Dict.set_of_fresh (hnew _ (List.mem_cons_self ..))
    cases es with
    | nil =>
      simp only [List.isEmpty_nil, if_true, quote, List.length_append, List.length_cons,
        List.length_nil] at hn
      have ih := scanOnce_dumps f v n e hu hv (s := 125 :: s) (.cons (by decide))
        (by simp only [List.length_cons]; omega) (by omega)
      simp only [List.isEmpty_nil, if_true, quote, List.cons_append, List.append_assoc,
        List.nil_append] at ih ⊢
      rw [scanEntries, hstr]
      simp only [ok_bind, hcolon, skipSpace_cons hsp]
      rw [ih, ok_bind]
      simp only [skipSpace_cons (show isSpace 125 = false from rfl), hset]
      rfl
    | cons kv es =>
      obtain ⟨l, w⟩ := kv
      simp only [List.isEmpty_cons, Bool.false_eq_true, if_false, quote, List.length_append,
        List.length_cons, List.length_nil] at hn
      have ihv := scanOnce_dumps f v n e hu hv (s := 44 :: (us ++ 125 :: s)) (.cons (by decide))
        (by simp only [List.length_cons]; omega) (by omega)
      have ih := scanEntries_dumps f ((l, w) :: es) n e (acc ++ [(.str q, v)]) (by simp) hus
        hes (by
          intro k hk hmem
          simp only [List.map_append, List.map_cons, List.map_nil, List.mem_append,
            List.mem_singleton] at hmem
          obtain hmem | rfl := hmem
          · exact hnew k (List.mem_cons_of_mem _ hk) hmem
          · exact hfresh hk) (s := s) (by omega) (by omega)
      obtain ⟨q', rfl, _⟩ := hes.1
      obtain ⟨u', us', -, -, rfl⟩ := dumpsEntries_cons hus
      simp only [List.isEmpty_cons, Bool.false_eq_true, if_false, quote, List.cons_append,
        List.append_assoc, List.nil_append] at ih ihv ⊢
      rw [scanEntries, hstr]
      simp only [ok_bind, hcolon, skipSpace_cons hsp]
      rw [ihv, ok_bind]
      simp only [skipSpace_cons (show isSpace 44 = false from rfl),
        skipSpace_cons (show isSpace 34 = false from rfl), hset]
      rw [ih]
  termination_by structural es => es
end

/-- `json.loads` of the canonical text of a value that JSON keeps. -/
theorem loads_dumps (py : Json.Interpreter) {v : Value} {t : Str} (h : dumps v = some t)
    (hp : Plain py.floatOf v) (hd : height v ≤ py.nesting) : py.loads t = .ok v := by
  obtain ⟨c, r, rfl, hsp, -, -, hc⟩ := dumps_head h
  have hscan := scanOnce_dumps py.floatOf v (2 * (c :: r).length + 2) py.nesting h hp (.nil) (by omega)
    hd
  rw [List.append_nil] at hscan
  unfold Json.Interpreter.loads
  split
  · rename_i he
    cases he
    omega
  · simp only [skipSpace_cons hsp]
    rw [hscan, ok_bind]
    rfl

/-! What is encoded. -/

mutual
/-- Strings of code points, and floats that their `repr` names. -/
def Genuine (f : Str → PyFloat) : Value → Prop
  | .str s => ∀ c ∈ s, c < 0x110000
  | .float (.finite r) => f r.text = .finite r
  | .list vs => GenuineItems f vs
  | .dict es => GenuineEntries f es
  | _ => True
  termination_by structural v => v

def GenuineItems (f : Str → PyFloat) : List Value → Prop
  | [] => True
  | v :: vs => Genuine f v ∧ GenuineItems f vs
  termination_by structural l => l

def GenuineEntries (f : Str → PyFloat) : List (Key × Value) → Prop
  | [] => True
  | (k, v) :: es => (∀ s, k = .str s → ∀ c ∈ s, c < 0x110000) ∧ Genuine f v ∧ GenuineEntries f es
  termination_by structural l => l
end

/-- The strings and floats of the objects are genuine. -/
structure Graph.Genuine {ι : Type} (f : Str → PyFloat) (g : Graph ι) : Prop where
  scalar : ∀ x s, g.view x = .scalar s → Frozen.Genuine f s.value
  key : ∀ x es s, g.view x = .mapping es → .str s ∈ es.map Prod.fst → ∀ c ∈ s, c < 0x110000

section Genuine

variable {ι : Type} {g : Graph ι} {f : Str → PyFloat}

mutual
theorem genuine_of_reads (hg : g.Genuine f) : ∀ (v : Value) {x : ι}, Reads g v x → Genuine f v
  | .none, _, _ => trivial
  | .bool _, _, _ => trivial
  | .int _, _, _ => trivial
  | .float (.finite r), x, h => hg.scalar x (.float r) h
  | .float .inf, _, _ => trivial
  | .float .negInf, _, _ => trivial
  | .float .nan, _, _ => trivial
  | .str s, x, h => hg.scalar x (.str s) h
  | .list vs, x, h => by
    simp only [Reads] at h
    obtain ⟨ys, _, hys⟩ := h
    simp only [Genuine]
    exact genuineItems_of_reads hg vs hys
  | .dict es, x, h => by
    simp only [Reads] at h
    obtain ⟨zs, hview, hzs⟩ := h
    simp only [Genuine]
    exact genuineEntries_of_reads hg es (fun s hs => hg.key x zs s hview hs) hzs
  | .object _, _, h => by simp only [Reads] at h
  termination_by structural v => v

theorem genuineItems_of_reads (hg : g.Genuine f) : ∀ (vs : List Value) {ys : List ι},
    ReadsItems g vs ys → GenuineItems f vs
  | [], _, _ => trivial
  | v :: vs, ys, h => by
    simp only [ReadsItems] at h
    obtain ⟨y, ys', rfl, hv, hvs⟩ := h
    simp only [GenuineItems]
    exact ⟨genuine_of_reads hg v hv, genuineItems_of_reads hg vs hvs⟩
  termination_by structural vs => vs

theorem genuineEntries_of_reads (hg : g.Genuine f) : ∀ (es : List (Key × Value))
    {zs : List (Key × ι)}, (∀ s, .str s ∈ zs.map Prod.fst → ∀ c ∈ s, c < 0x110000) →
      ReadsEntries g es zs → GenuineEntries f es
  | [], _, _, _ => trivial
  | (k, v) :: es, zs, hkeys, h => by
    simp only [ReadsEntries] at h
    obtain ⟨y, zs', rfl, hv, hes⟩ := h
    simp only [GenuineEntries]
    refine ⟨?_, genuine_of_reads hg v hv, ?_⟩
    · rintro s rfl
      exact hkeys s (List.mem_cons_self ..)
    · exact genuineEntries_of_reads hg es (fun s hs => hkeys s (List.mem_cons_of_mem _ hs)) hes
  termination_by structural es => es
end

/-- An unpaired surrogate, which has no bytes. -/
def IsSurrogate (c : Nat) : Prop := 0xD800 ≤ c ∧ c < 0xE000

theorem not_surrogate {t : Str} {b : Bytes} (h : Json.encodeUtf8 t = some b) :
    ∀ c ∈ t, ¬ IsSurrogate c := by
  induction t generalizing b with
  | nil => simp
  | cons d t ih =>
    simp only [Json.encodeUtf8, Option.bind_eq_bind, Option.bind_eq_some_iff] at h
    obtain ⟨p, hp, q, hq, -⟩ := h
    intro c hc
    obtain rfl | hc := List.mem_cons.1 hc
    · rintro hsurrogate
      have hrange : 0xD800 ≤ c ∧ c < 0xE000 := hsurrogate
      unfold Json.encodePoint at hp
      rw [if_neg (by omega), if_neg (by omega), if_pos hrange] at hp
      cases hp
    · exact ih hq c hc

/-- A surrogate is quoted as it is. -/
theorem mem_quote {s : Str} {c : Nat} (hc : c ∈ s) (h : IsSurrogate c) : c ∈ quote s := by
  have hrange : 0xD800 ≤ c ∧ c < 0xE000 := h
  have hescape : escapeUnicode c = [c] := by
    unfold escapeUnicode
    split_ifs <;> first | omega | rfl
  apply List.mem_cons_of_mem
  apply List.mem_append_left
  exact List.mem_flatMap.2 ⟨c, hc, by simp [hescape]⟩

theorem scalars_of_quote {s : Str} (hs : ∀ c ∈ s, c < 0x110000)
    (h : ∀ c ∈ quote s, ¬ IsSurrogate c) : ∀ c ∈ s, IsScalar c := by
  intro c hc
  have hlt := hs c hc
  have hnot : ¬ (0xD800 ≤ c ∧ c < 0xE000) := fun hsurrogate => h c (mem_quote hc hsurrogate) hsurrogate
  unfold IsScalar
  omega

mutual
/-- A value whose text has bytes is one that JSON keeps. -/
theorem plain_of_dumps : ∀ (v : Value) {t : Str}, IsJson v → Genuine f v → dumps v = some t →
    (∀ c ∈ t, ¬ IsSurrogate c) → Plain f v
  | .none, _, _, _, _, _ => trivial
  | .bool _, _, _, _, _, _ => trivial
  | .int _, _, _, _, _, _ => trivial
  | .float (.finite r), _, _, hg, _, _ => hg
  | .float .inf, _, _, _, h, _ => by cases h
  | .float .negInf, _, _, _, h, _ => by cases h
  | .float .nan, _, _, _, h, _ => by cases h
  | .str s, t, _, hg, h, ht => by
    cases h
    simp only [Genuine] at hg
    simp only [Plain]
    exact scalars_of_quote hg ht
  | .list vs, t, hj, hg, h, ht => by
    obtain ⟨u, hu, rfl⟩ := dumps_list h
    simp only [IsJson] at hj
    simp only [Genuine] at hg
    simp only [Plain]
    exact plainItems_of_dumps vs hj hg hu fun c hc =>
      ht c (List.mem_cons_of_mem _ (List.mem_append_left _ hc))
  | .dict es, t, hj, hg, h, ht => by
    obtain ⟨u, hu, rfl⟩ := dumps_dict h
    simp only [IsJson] at hj
    simp only [Genuine] at hg
    simp only [Plain]
    exact plainEntries_of_dumps es hj hg hu fun c hc =>
      ht c (List.mem_cons_of_mem _ (List.mem_append_left _ hc))
  | .object _, _, hj, _, _, _ => by simp only [IsJson] at hj
  termination_by structural v => v

theorem plainItems_of_dumps : ∀ (vs : List Value) {t : Str}, IsJsonItems vs → GenuineItems f vs →
    dumpsItems vs = some t → (∀ c ∈ t, ¬ IsSurrogate c) → PlainItems f vs
  | [], _, _, _, _, _ => trivial
  | v :: vs, t, hj, hg, h, ht => by
    obtain ⟨u, us, hu, hus, rfl⟩ := dumpsItems_cons h
    simp only [IsJsonItems] at hj
    simp only [GenuineItems] at hg
    simp only [PlainItems]
    cases vs with
    | nil => exact ⟨plain_of_dumps v hj.1 hg.1 hu ht, trivial⟩
    | cons w ws =>
      simp only [List.isEmpty_cons, Bool.false_eq_true, if_false] at ht
      constructor
      · exact plain_of_dumps v hj.1 hg.1 hu fun c hc => ht c (List.mem_append_left _ hc)
      · exact plainItems_of_dumps (w :: ws) hj.2 hg.2 hus fun c hc =>
          ht c (List.mem_append_right _ (List.mem_cons_of_mem _ hc))
  termination_by structural vs => vs

theorem plainEntries_of_dumps : ∀ (es : List (Key × Value)) {t : Str}, IsJsonEntries es →
    GenuineEntries f es → dumpsEntries es = some t → (∀ c ∈ t, ¬ IsSurrogate c) → PlainEntries f es
  | [], _, _, _, _, _ => trivial
  | (k, v) :: es, t, hj, hg, h, ht => by
    simp only [IsJsonEntries] at hj
    obtain ⟨⟨q, rfl⟩, hnew, hv, hes⟩ := hj
    obtain ⟨u, us, hu, hus, rfl⟩ := dumpsEntries_cons h
    simp only [GenuineEntries] at hg
    simp only [PlainEntries]
    have hkey : ∀ c ∈ q, IsScalar c :=
      scalars_of_quote (hg.1 q rfl) fun c hc => ht c (List.mem_append_left _ hc)
    have hrest : ∀ c ∈ (if es.isEmpty then u else u ++ 44 :: us), ¬ IsSurrogate c := fun c hc =>
      ht c (List.mem_append_right _ (List.mem_cons_of_mem _ hc))
    cases es with
    | nil => exact ⟨⟨q, rfl, hkey⟩, hnew, plain_of_dumps v hv hg.2.1 hu hrest, trivial⟩
    | cons e es =>
      simp only [List.isEmpty_cons, Bool.false_eq_true, if_false] at hrest
      refine ⟨⟨q, rfl, hkey⟩, hnew, ?_, ?_⟩
      · exact plain_of_dumps v hv hg.2.1 hu fun c hc => hrest c (List.mem_append_left _ hc)
      · exact plainEntries_of_dumps (e :: es) hes hg.2.2 hus fun c hc =>
          hrest c (List.mem_append_right _ (List.mem_cons_of_mem _ hc))
  termination_by structural es => es
end

theorem scalars_cons {c : Nat} {t : Str} (hc : c < 128) (ht : ∀ x ∈ t, IsScalar x) :
    ∀ x ∈ c :: t, IsScalar x := by
  intro x hx
  obtain rfl | hx := List.mem_cons.1 hx
  · exact .inl (by omega)
  · exact ht x hx

theorem scalars_append {t u : Str} (ht : ∀ x ∈ t, IsScalar x) (hu : ∀ x ∈ u, IsScalar x) :
    ∀ x ∈ t ++ u, IsScalar x := by
  intro x hx
  exact (List.mem_append.1 hx).elim (ht x) (hu x)

mutual
theorem dumps_scalars : ∀ (v : Value) {t : Str}, Plain f v → dumps v = some t → ∀ c ∈ t, IsScalar c
  | .none, t, _, h => by
    cases h
    exact scalars_of_printable (Json.dump_printable .none (d := 0) rfl)
  | .bool b, t, _, h => by
    cases h
    exact scalars_of_printable (Json.dump_printable (.bool b) (d := 0) rfl)
  | .int i, t, _, h => by
    cases hi : Json.dumpInt i with
    | error e => simp [dumps, hi, Except.toOption] at h
    | ok u =>
      simp only [dumps, hi, Except.toOption, Option.some.injEq] at h
      subst h
      exact scalars_of_printable (Json.dumpInt_printable hi)
  | .float (.finite r), t, _, h => by
    cases h
    exact scalars_of_printable r.text_printable
  | .float .inf, _, _, h => by cases h
  | .float .negInf, _, _, h => by cases h
  | .float .nan, _, _, h => by cases h
  | .str s, t, hp, h => by
    cases h
    simp only [Plain] at hp
    exact quote_scalars hp
  | .list vs, t, hp, h => by
    obtain ⟨u, hu, rfl⟩ := dumps_list h
    simp only [Plain] at hp
    exact scalars_cons (by decide)
      (scalars_append (dumpsItems_scalars vs hp hu) (scalars_cons (by decide) (by simp)))
  | .dict es, t, hp, h => by
    obtain ⟨u, hu, rfl⟩ := dumps_dict h
    simp only [Plain] at hp
    exact scalars_cons (by decide)
      (scalars_append (dumpsEntries_scalars es hp hu) (scalars_cons (by decide) (by simp)))
  | .object _, _, hp, _ => by simp only [Plain] at hp
  termination_by structural v => v

theorem dumpsItems_scalars : ∀ (vs : List Value) {t : Str}, PlainItems f vs →
    dumpsItems vs = some t → ∀ c ∈ t, IsScalar c
  | [], t, _, h => by
    cases h
    simp
  | v :: vs, t, hp, h => by
    obtain ⟨u, us, hu, hus, rfl⟩ := dumpsItems_cons h
    simp only [PlainItems] at hp
    have hhead := dumps_scalars v hp.1 hu
    have htail := dumpsItems_scalars vs hp.2 hus
    split
    · exact hhead
    · exact scalars_append hhead (scalars_cons (by decide) htail)
  termination_by structural vs => vs

theorem dumpsEntries_scalars : ∀ (es : List (Key × Value)) {t : Str}, PlainEntries f es →
    dumpsEntries es = some t → ∀ c ∈ t, IsScalar c
  | [], t, _, h => by
    cases h
    simp
  | (k, v) :: es, t, hp, h => by
    simp only [PlainEntries] at hp
    obtain ⟨⟨q, rfl, hq⟩, _, hv, hes⟩ := hp
    obtain ⟨u, us, hu, hus, rfl⟩ := dumpsEntries_cons h
    have hhead := dumps_scalars v hv hu
    have htail := dumpsEntries_scalars es hes hus
    apply scalars_append (quote_scalars hq)
    split
    · exact scalars_cons (by decide) hhead
    · exact scalars_cons (by decide) (scalars_append hhead (scalars_cons (by decide) htail))
  termination_by structural es => es
end

/-- The canonical bytes of a genuine JSON value decode to the value. -/
theorem loads_canonical (py : Json.Interpreter) {v : Value} {b : Bytes} (hj : IsJson v)
    (hg : Genuine py.floatOf v) (hd : height v ≤ py.nesting) (h : canonical v = some b) :
    ∃ text, Json.decodeUtf8 b = some text ∧ py.loads text = .ok v := by
  obtain ⟨t, ht, hb⟩ := Option.bind_eq_some_iff.1 h
  have hp : Plain py.floatOf v := plain_of_dumps v hj hg ht (not_surrogate hb)
  refine ⟨t, Json.decodeUtf8_encodeUtf8 hb ?_, loads_dumps py ht hp hd⟩
  intro c hc
  have hscalar : c < 0xD800 ∨ (0xE000 ≤ c ∧ c < 0x110000) := dumps_scalars v hp ht c hc
  omega

end Genuine

end KestrelSdk.Frozen

import KestrelSdk.Json.Value
import Mathlib.Data.List.Chain

namespace KestrelSdk.Llm

open Json (Str Key Value)

/-- `_SECRET_KEY_SEGMENTS`. -/
def SECRET_KEY_SEGMENTS : List Str :=
  ["authorization", "bearer", "cookie", "credential", "password", "secret", "token"].map Json.str

/-- `_SECRET_KEY_PAIRS`. -/
def SECRET_KEY_PAIRS : List (Str × Str) :=
  [("api", "key"), ("private", "key")].map fun p => (Json.str p.1, Json.str p.2)

/-! Letters and digits of ASCII, in code points. -/

def isLower (c : Nat) : Bool := 97 ≤ c && c ≤ 122
def isUpper (c : Nat) : Bool := 65 ≤ c && c ≤ 90
def isDigit (c : Nat) : Bool := 48 ≤ c && c ≤ 57
def isAlnum (c : Nat) : Bool := isLower c || isUpper c || isDigit c

def lower (c : Nat) : Nat := if isUpper c then c + 32 else c
def upper (c : Nat) : Nat := if isLower c then c - 32 else c

/-- The characters that `([a-z0-9])([A-Z])` parts. -/
def isHump (c d : Nat) : Bool := (isLower c || isDigit c) && isUpper d

/-- `re.sub(r"([a-z0-9])([A-Z])", r"\1_\2", value)`. -/
def camelSplit : Str → Str
  | c :: d :: s => if isHump c d then c :: 95 :: d :: camelSplit s else c :: camelSplit (d :: s)
  | s => s

theorem camelSplit_cons_cons (c d : Nat) (s : Str) :
    camelSplit (c :: d :: s) =
      if isHump c d then c :: 95 :: d :: camelSplit s else c :: camelSplit (d :: s) := rfl

/-- `re.split(r"[^A-Za-z0-9]+", text)` without the empty texts. -/
def alnumSegments (text : Str) : List Str :=
  (text.splitOnP fun c => !isAlnum c).filter (!·.isEmpty)

/-- `_public_key_segments`. -/
def publicKeySegments (value : Str) : List Str :=
  (alnumSegments (camelSplit value)).map (List.map lower)

/-- A secret segment, or a secret pair of neighbours. -/
def isSecret (segments : List Str) : Bool :=
  segments.any (· ∈ SECRET_KEY_SEGMENTS) || (segments.zip segments.tail).any (· ∈ SECRET_KEY_PAIRS)

/-- `_is_secret_like_public_key`. -/
def isSecretLikePublicKey (value : Str) : Bool := isSecret (publicKeySegments value)

/-! Spellings of a list of words. -/

/-- A lower-case alphabetic word. -/
structure Word where
  text : Str
  nonempty : text ≠ []
  alphabetic : ∀ c ∈ text, isLower c = true

/-- The words with one separator between neighbours. -/
def delimited (separator : Nat) (words : List Word) : Str :=
  [separator].intercalate (words.map Word.text)

def snakeCase (words : List Word) : Str := delimited 95 words
def kebabCase (words : List Word) : Str := delimited 45 words
def dottedCase (words : List Word) : Str := delimited 46 words
def upperSnakeCase (words : List Word) : Str :=
  [95].intercalate (words.map fun w => w.text.map upper)

/-- How a word is written where no separator shows it. -/
inductive Casing where
  | lower
  | capital
  | acronym
  deriving DecidableEq

/-- A word of a camel-case or Pascal-case key. -/
structure Hump where
  word : Word
  casing : Casing

namespace Hump

def text (h : Hump) : Str :=
  match h.casing with
  | .lower => h.word.text
  | .capital => h.word.text.modifyHead upper
  | .acronym => h.word.text.map upper

/-- The word is written with a capital at its end: an acronym, or one capital letter. -/
def endsUpper (h : Hump) : Bool :=
  match h.casing with
  | .lower => false
  | .capital => h.word.text.length == 1
  | .acronym => true

/-- The words of a key, each joined with those before it as long as they end in a capital. -/
def runs (part : Hump → Str) : List Hump → List Str
  | [] => []
  | [h] => [part h]
  | h :: k :: hs =>
    if h.endsUpper then (runs part (k :: hs)).modifyHead (part h ++ ·)
    else part h :: runs part (k :: hs)

theorem runs_singleton (part : Hump → Str) (h : Hump) : runs part [h] = [part h] := rfl

theorem runs_cons_cons (part : Hump → Str) (h k : Hump) (hs : List Hump) :
    runs part (h :: k :: hs) =
      if h.endsUpper then (runs part (k :: hs)).modifyHead (part h ++ ·)
      else part h :: runs part (k :: hs) := rfl

end Hump

/-- Every word but the first starts with a capital: `camelCase` and `PascalCase`. -/
def IsCamel (humps : List Hump) : Prop := ∀ h ∈ humps.tail, h.casing ≠ .lower

instance (humps : List Hump) : Decidable (IsCamel humps) :=
  inferInstanceAs (Decidable (∀ h ∈ humps.tail, h.casing ≠ .lower))

def camelCase (humps : List Hump) : Str := humps.flatMap Hump.text

/-! Letters. -/

@[simp] theorem isLower_iff (c : Nat) : isLower c = true ↔ 97 ≤ c ∧ c ≤ 122 := by
  simp [isLower]

@[simp] theorem isUpper_iff (c : Nat) : isUpper c = true ↔ 65 ≤ c ∧ c ≤ 90 := by
  simp [isUpper]

@[simp] theorem isDigit_iff (c : Nat) : isDigit c = true ↔ 48 ≤ c ∧ c ≤ 57 := by
  simp [isDigit]

theorem isUpper_upper {c : Nat} (h : isLower c = true) : isUpper (upper c) = true := by
  have hc := (isLower_iff c).1 h
  rw [upper, if_pos h, isUpper_iff]
  omega

theorem lower_of_isLower {c : Nat} (h : isLower c = true) : lower c = c := by
  have hc := (isLower_iff c).1 h
  have hup : ¬ isUpper c = true := by
    rw [isUpper_iff]
    omega
  rw [lower, if_neg hup]

theorem lower_upper {c : Nat} (h : isLower c = true) : lower (upper c) = c := by
  have hc := (isLower_iff c).1 h
  rw [lower, if_pos (isUpper_upper h), upper, if_pos h]
  omega

theorem isHump_iff (c d : Nat) :
    isHump c d = true ↔ (isLower c = true ∨ isDigit c = true) ∧ isUpper d = true := by
  simp [isHump]

/-- A capital is no small letter and no digit. -/
theorem not_small_of_isUpper {c : Nat} (h : isUpper c = true) :
    ¬ (isLower c = true ∨ isDigit c = true) := by
  have hc := (isUpper_iff c).1 h
  rw [isLower_iff, isDigit_iff]
  omega

/-! Splitting at humps. -/

theorem camelSplit_upper {d : Nat} (h : isUpper d = true) (s : Str) :
    camelSplit (d :: s) = d :: camelSplit s := by
  cases s with
  | nil => rfl
  | cons e s =>
    have hno : ¬ isHump d e = true := by
      rw [isHump_iff]
      exact fun he => not_small_of_isUpper h he.1
    rw [camelSplit_cons_cons, if_neg hno]

/-- A text without humps, up to the next text. -/
theorem camelSplit_append {a : Str} (ha : a.IsChain fun c d => ¬ isHump c d = true) (hne : a ≠ [])
    {d : Nat} (hd : isUpper d = true) (b : Str) :
    camelSplit (a ++ d :: b) =
      a ++ if isHump (a.getLast hne) d then 95 :: camelSplit (d :: b) else camelSplit (d :: b) := by
  induction a with
  | nil => exact absurd rfl hne
  | cons c a ih =>
    cases a with
    | nil =>
      show camelSplit (c :: d :: b) =
        c :: if isHump c d then 95 :: camelSplit (d :: b) else camelSplit (d :: b)
      rw [camelSplit_cons_cons, camelSplit_upper hd]
      by_cases hump : isHump c d = true
      · rw [if_pos hump, if_pos hump]
      · rw [if_neg hump, if_neg hump]
    | cons e a =>
      obtain ⟨hce, hrest⟩ := List.isChain_cons_cons.1 ha
      have hsplit := ih hrest (List.cons_ne_nil e a)
      simp only [List.cons_append] at hsplit ⊢
      rw [camelSplit_cons_cons, if_neg hce, hsplit, List.getLast_cons (List.cons_ne_nil e a)]

theorem camelSplit_flat {a : Str} (ha : a.IsChain fun c d => ¬ isHump c d = true) :
    camelSplit a = a := by
  induction a with
  | nil => rfl
  | cons c a ih =>
    cases a with
    | nil => rfl
    | cons e a =>
      obtain ⟨hce, hrest⟩ := List.isChain_cons_cons.1 ha
      rw [camelSplit_cons_cons, if_neg hce, ih hrest]

/-- A text without capitals has no hump, and so has one without small letters and digits. -/
theorem flat_of_no_upper {a : Str} (h : ∀ c ∈ a, ¬ isUpper c = true) :
    a.IsChain fun c d => ¬ isHump c d = true := by
  apply List.Pairwise.isChain
  rw [List.pairwise_iff_forall_sublist]
  intro c d hsub hump
  rw [isHump_iff] at hump
  exact h d (hsub.subset (by simp)) hump.2

theorem flat_of_no_small {a : Str} (h : ∀ c ∈ a, ¬ (isLower c = true ∨ isDigit c = true)) :
    a.IsChain fun c d => ¬ isHump c d = true := by
  apply List.Pairwise.isChain
  rw [List.pairwise_iff_forall_sublist]
  intro c d hsub hump
  rw [isHump_iff] at hump
  exact h c (hsub.subset (by simp)) hump.1

/-! Segments. -/

theorem alnumSegments_first {a : Str} (ha : ∀ c ∈ a, isAlnum c = true) (hne : a ≠ []) {d : Nat}
    (hd : isAlnum d = false) (b : Str) : alnumSegments (a ++ d :: b) = a :: alnumSegments b := by
  have hsplit := @List.splitOnP_append_cons_of_forall_mem _ (fun c => !isAlnum c) a
    (fun c hc => by simp [ha c hc]) d (by simp [hd]) b
  unfold alnumSegments
  rw [hsplit, List.filter_cons_of_pos (by simpa using hne)]

theorem alnumSegments_single {a : Str} (ha : ∀ c ∈ a, isAlnum c = true) (hne : a ≠ []) :
    alnumSegments a = [a] := by
  have hsplit := @List.splitOnP_eq_singleton _ (fun c => !isAlnum c) a
    fun c hc => by simp [ha c hc]
  unfold alnumSegments
  rw [hsplit, List.filter_cons_of_pos (by simpa using hne), List.filter_nil]

/-- The segments of a text are what its separators part. -/
theorem alnumSegments_intercalate {separator : Nat} (hsep : isAlnum separator = false)
    {parts : List Str} (hparts : ∀ a ∈ parts, a ≠ [] ∧ ∀ c ∈ a, isAlnum c = true) :
    alnumSegments ([separator].intercalate parts) = parts := by
  induction parts with
  | nil => rfl
  | cons a parts ih =>
    obtain ⟨hne, ha⟩ := hparts a (List.mem_cons_self ..)
    have hrest := ih fun b hb => hparts b (List.mem_cons_of_mem a hb)
    cases parts with
    | nil =>
      rw [List.intercalate_singleton]
      exact alnumSegments_single ha hne
    | cons b parts =>
      rw [List.intercalate_cons_cons, List.append_assoc, List.singleton_append,
        alnumSegments_first ha hne hsep, hrest]

theorem isAlnum_of_isLower {c : Nat} (h : isLower c = true) : isAlnum c = true := by
  simp only [isAlnum, h, Bool.true_or]

theorem isAlnum_of_isUpper {c : Nat} (h : isUpper c = true) : isAlnum c = true := by
  simp only [isAlnum, h, Bool.or_true, Bool.true_or]

/-! Words with separators. -/

namespace Word

theorem map_lower (w : Word) : w.text.map lower = w.text := by
  conv_rhs => rw [← List.map_id w.text]
  exact List.map_congr_left fun c hc => lower_of_isLower (w.alphabetic c hc)

theorem map_lower_upper (w : Word) : (w.text.map upper).map lower = w.text := by
  rw [List.map_map]
  conv_rhs => rw [← List.map_id w.text]
  exact List.map_congr_left fun c hc => lower_upper (w.alphabetic c hc)

theorem alnum (w : Word) : w.text ≠ [] ∧ ∀ c ∈ w.text, isAlnum c = true :=
  ⟨w.nonempty, fun c hc => isAlnum_of_isLower (w.alphabetic c hc)⟩

theorem alnum_upper (w : Word) : w.text.map upper ≠ [] ∧ ∀ c ∈ w.text.map upper, isAlnum c = true := by
  refine ⟨by simpa using w.nonempty, fun c hc => ?_⟩
  obtain ⟨d, hd, rfl⟩ := List.mem_map.1 hc
  exact isAlnum_of_isUpper (isUpper_upper (w.alphabetic d hd))

end Word

theorem mem_intercalate {separator : Nat} {parts : List Str} {c : Nat}
    (h : c ∈ [separator].intercalate parts) : c = separator ∨ ∃ a ∈ parts, c ∈ a := by
  induction parts with
  | nil => cases h
  | cons a parts ih =>
    cases parts with
    | nil =>
      rw [List.intercalate_singleton] at h
      exact .inr ⟨a, List.mem_cons_self .., h⟩
    | cons b parts =>
      rw [List.intercalate_cons_cons, List.append_assoc, List.singleton_append, List.mem_append,
        List.mem_cons] at h
      obtain h | rfl | h := h
      · exact .inr ⟨a, List.mem_cons_self .., h⟩
      · exact .inl rfl
      · obtain hsep | ⟨d, hd, hc⟩ := ih h
        · exact .inl hsep
        · exact .inr ⟨d, List.mem_cons_of_mem a hd, hc⟩

theorem segments_delimited {separator : Nat} (hsep : isAlnum separator = false) (words : List Word) :
    publicKeySegments (delimited separator words) = words.map Word.text := by
  have hflat : camelSplit (delimited separator words) = delimited separator words := by
    apply camelSplit_flat
    apply flat_of_no_upper
    intro c hc hup
    obtain rfl | ⟨a, ha, hca⟩ := mem_intercalate hc
    · rw [isAlnum_of_isUpper hup] at hsep
      cases hsep
    · obtain ⟨w, _, rfl⟩ := List.mem_map.1 ha
      exact not_small_of_isUpper hup (.inl (w.alphabetic c hca))
  have hparts : ∀ a ∈ words.map Word.text, a ≠ [] ∧ ∀ c ∈ a, isAlnum c = true := by
    intro a ha
    obtain ⟨w, _, rfl⟩ := List.mem_map.1 ha
    exact w.alnum
  rw [publicKeySegments, hflat, delimited, alnumSegments_intercalate hsep hparts, List.map_map]
  exact List.map_congr_left fun w _ => w.map_lower

theorem segments_upperSnake (words : List Word) :
    publicKeySegments (upperSnakeCase words) = words.map Word.text := by
  have hflat : camelSplit (upperSnakeCase words) = upperSnakeCase words := by
    apply camelSplit_flat
    apply flat_of_no_small
    intro c hc hsmall
    obtain rfl | ⟨a, ha, hca⟩ := mem_intercalate hc
    · revert hsmall
      decide
    · obtain ⟨w, _, rfl⟩ := List.mem_map.1 ha
      obtain ⟨d, hd, rfl⟩ := List.mem_map.1 hca
      exact not_small_of_isUpper (isUpper_upper (w.alphabetic d hd)) hsmall
  have hparts : ∀ a ∈ words.map fun w => w.text.map upper,
      a ≠ [] ∧ ∀ c ∈ a, isAlnum c = true := by
    intro a ha
    obtain ⟨w, _, rfl⟩ := List.mem_map.1 ha
    exact w.alnum_upper
  rw [publicKeySegments, hflat, upperSnakeCase, alnumSegments_intercalate (by decide) hparts,
    List.map_map]
  exact List.map_congr_left fun w _ => w.map_lower_upper

/-! Words without separators. -/

namespace Hump

theorem text_ne_nil (h : Hump) : h.text ≠ [] := by
  have hne := h.word.nonempty
  unfold text
  cases h.casing with
  | lower => exact hne
  | capital => simpa using hne
  | acronym => simpa using hne

theorem map_lower (h : Hump) : h.text.map Llm.lower = h.word.text := by
  unfold text
  cases h.casing with
  | lower => exact h.word.map_lower
  | capital =>
    obtain ⟨⟨w, hne, halpha⟩, casing⟩ := h
    cases w with
    | nil => exact absurd rfl hne
    | cons c w =>
      have htail := Word.map_lower ⟨c :: w, hne, halpha⟩
      simp only [List.map_cons, List.cons.injEq] at htail
      simp only [List.modifyHead_cons, List.map_cons, htail.2,
        lower_upper (halpha c (List.mem_cons_self ..))]
  | acronym => exact h.word.map_lower_upper

theorem alnum (h : Hump) : ∀ c ∈ h.text, isAlnum c = true := by
  obtain ⟨⟨w, hne, halpha⟩, casing⟩ := h
  intro c hc
  unfold text at hc
  cases casing with
  | lower => exact isAlnum_of_isLower (halpha c hc)
  | capital =>
    cases w with
    | nil => exact absurd rfl hne
    | cons d w =>
      simp only [List.modifyHead_cons, List.mem_cons] at hc
      obtain rfl | hc := hc
      · exact isAlnum_of_isUpper (isUpper_upper (halpha d (List.mem_cons_self ..)))
      · exact isAlnum_of_isLower (halpha c (List.mem_cons_of_mem d hc))
  | acronym =>
    obtain ⟨d, hd, rfl⟩ := List.mem_map.1 hc
    exact isAlnum_of_isUpper (isUpper_upper (halpha d hd))

/-- There is no hump within a word. -/
theorem flat (h : Hump) : h.text.IsChain fun c d => ¬ isHump c d = true := by
  obtain ⟨⟨w, hne, halpha⟩, casing⟩ := h
  have hsmall : ∀ c ∈ w, ¬ isUpper c = true := fun c hc hup =>
    not_small_of_isUpper hup (.inl (halpha c hc))
  unfold text
  cases casing with
  | lower => exact flat_of_no_upper hsmall
  | capital =>
    cases w with
    | nil => exact absurd rfl hne
    | cons d w =>
      have hd := isUpper_upper (halpha d (List.mem_cons_self ..))
      have hw := flat_of_no_upper fun c hc => hsmall c (List.mem_cons_of_mem d hc)
      simp only [List.modifyHead_cons]
      cases w with
      | nil => exact List.isChain_singleton _
      | cons e w =>
        apply List.isChain_cons_cons.2
        refine ⟨?_, hw⟩
        rw [isHump_iff]
        exact fun hump => not_small_of_isUpper hd hump.1
  | acronym =>
    apply flat_of_no_small
    intro c hc
    obtain ⟨d, hd, rfl⟩ := List.mem_map.1 hc
    exact not_small_of_isUpper (isUpper_upper (halpha d hd))

/-- Every word but those in small letters starts with a capital. -/
theorem text_upper (h : Hump) (hcasing : h.casing ≠ .lower) :
    ∃ d s, h.text = d :: s ∧ isUpper d = true := by
  obtain ⟨⟨w, hne, halpha⟩, casing⟩ := h
  cases w with
  | nil => exact absurd rfl hne
  | cons d w =>
    have hd := isUpper_upper (halpha d (List.mem_cons_self ..))
    unfold text
    cases casing with
    | lower => exact absurd rfl hcasing
    | capital => exact ⟨upper d, w, rfl, hd⟩
    | acronym => exact ⟨upper d, w.map upper, rfl, hd⟩

/-- The last letter is a capital where the word ends in one, and a small letter otherwise. -/
theorem getLast_case (h : Hump) :
    if h.endsUpper then isUpper (h.text.getLast h.text_ne_nil) = true
    else isLower (h.text.getLast h.text_ne_nil) = true := by
  obtain ⟨⟨w, hne, halpha⟩, casing⟩ := h
  have hlast := List.getLast_mem (Hump.text_ne_nil ⟨⟨w, hne, halpha⟩, casing⟩)
  cases casing with
  | lower =>
    rw [endsUpper, if_neg Bool.false_ne_true]
    exact halpha _ hlast
  | acronym =>
    rw [endsUpper, if_pos rfl]
    obtain ⟨d, hd, heq⟩ := List.mem_map.1 hlast
    rw [← heq]
    exact isUpper_upper (halpha d hd)
  | capital =>
    match w with
    | [d] => exact isUpper_upper (halpha d (List.mem_cons_self ..))
    | d :: e :: w =>
      have htail : (upper d :: e :: w).getLast (List.cons_ne_nil _ _) =
          (e :: w).getLast (List.cons_ne_nil e w) := List.getLast_cons (List.cons_ne_nil e w)
      show isLower ((upper d :: e :: w).getLast _) = true
      rw [htail]
      exact halpha _ (List.mem_cons_of_mem d (List.getLast_mem _))

/-- Before a capital, a word has a hump at its end unless it ends in a capital. -/
theorem isHump_getLast (h : Hump) {d : Nat} (hd : isUpper d = true) :
    isHump (h.text.getLast h.text_ne_nil) d = !h.endsUpper := by
  have hcase := h.getLast_case
  cases hend : h.endsUpper with
  | true =>
    rw [hend, if_pos rfl] at hcase
    have hno : ¬ isHump (h.text.getLast h.text_ne_nil) d = true := by
      rw [isHump_iff]
      exact fun hump => not_small_of_isUpper hcase hump.1
    simpa using hno
  | false =>
    rw [hend, if_neg Bool.false_ne_true] at hcase
    have hump : isHump (h.text.getLast h.text_ne_nil) d = true := by
      rw [isHump_iff]
      exact ⟨.inl hcase, hd⟩
    simpa using hump

theorem runs_ne_nil (part : Hump → Str) (h : Hump) (hs : List Hump) : runs part (h :: hs) ≠ [] := by
  cases hs with
  | nil => exact List.cons_ne_nil _ _
  | cons k hs =>
    have ih := runs_ne_nil part k hs
    rw [runs_cons_cons]
    split
    · simpa using ih
    · exact List.cons_ne_nil _ _

/-- Joining commutes with what is done to each letter. -/
theorem map_runs (part : Hump → Str) (f : Nat → Nat) (hs : List Hump) :
    (runs part hs).map (List.map f) = runs (fun h => (part h).map f) hs := by
  induction hs with
  | nil => rfl
  | cons h hs ih =>
    cases hs with
    | nil => rfl
    | cons k hs =>
      rw [runs_cons_cons, runs_cons_cons, ← ih]
      split
      · obtain ⟨r, rs, hr⟩ := List.exists_cons_of_ne_nil (runs_ne_nil part k hs)
        rw [hr]
        simp only [List.modifyHead_cons, List.map_cons, List.map_append]
      · rw [List.map_cons]

theorem forall_runs {part : Hump → Str} {P : Str → Prop} (happ : ∀ a b, P a → P b → P (a ++ b))
    {hs : List Hump} (h : ∀ k ∈ hs, P (part k)) : ∀ a ∈ runs part hs, P a := by
  induction hs with
  | nil => intro a ha; cases ha
  | cons k hs ih =>
    have hk := h k (List.mem_cons_self ..)
    cases hs with
    | nil =>
      intro a ha
      rw [runs_singleton, List.mem_singleton] at ha
      exact ha ▸ hk
    | cons l hs =>
      have hrest := ih fun m hm => h m (List.mem_cons_of_mem k hm)
      rw [runs_cons_cons]
      split
      · obtain ⟨r, rs, hr⟩ := List.exists_cons_of_ne_nil (runs_ne_nil part l hs)
        rw [hr] at hrest ⊢
        intro a ha
        rw [List.modifyHead_cons, List.mem_cons] at ha
        obtain rfl | ha := ha
        · exact happ _ _ hk (hrest r (List.mem_cons_self ..))
        · exact hrest a (List.mem_cons_of_mem r ha)
      · intro a ha
        obtain rfl | ha := List.mem_cons.1 ha
        · exact hk
        · exact hrest a ha

/-- Without a word that ends in a capital before another, no words are joined. -/
theorem runs_of_parted (part : Hump → Str) {hs : List Hump}
    (h : ∀ k ∈ hs.dropLast, k.endsUpper = false) : runs part hs = hs.map part := by
  induction hs with
  | nil => rfl
  | cons k hs ih =>
    cases hs with
    | nil => rfl
    | cons l hs =>
      have hk := h k (List.mem_cons_self ..)
      have hrest := ih fun m hm => h m (List.mem_cons_of_mem k hm)
      rw [runs_cons_cons, hk, if_neg Bool.false_ne_true, hrest]
      rfl

end Hump

theorem intercalate_modifyHead (separator a : Str) {parts : List Str} (h : parts ≠ []) :
    separator.intercalate (parts.modifyHead (a ++ ·)) = a ++ separator.intercalate parts := by
  cases parts with
  | nil => exact absurd rfl h
  | cons b parts =>
    cases parts with
    | nil => simp only [List.modifyHead_cons, List.intercalate_singleton]
    | cons c parts =>
      simp only [List.modifyHead_cons, List.intercalate_cons_cons, List.append_assoc]

/-- The separators go where a word that does not end in a capital meets the next. -/
theorem camelSplit_camelCase {hs : List Hump} (h : IsCamel hs) :
    camelSplit (camelCase hs) = [95].intercalate (Hump.runs Hump.text hs) := by
  induction hs with
  | nil => rfl
  | cons k hs ih =>
    cases hs with
    | nil =>
      rw [Hump.runs_singleton, List.intercalate_singleton]
      have hsingle : camelCase [k] = k.text := by simp [camelCase]
      rw [hsingle, camelSplit_flat k.flat]
    | cons l hs =>
      have hl : l.casing ≠ .lower := h l (List.mem_cons_self ..)
      have hrest := ih fun m hm => h m (List.mem_cons_of_mem l hm)
      obtain ⟨d, s, htext, hd⟩ := l.text_upper hl
      have hcons : camelCase (l :: hs) = d :: (s ++ camelCase hs) := by
        simp [camelCase, htext]
      have hcamel : camelCase (k :: l :: hs) = k.text ++ camelCase (l :: hs) := rfl
      rw [hcamel, hcons, camelSplit_append k.flat k.text_ne_nil hd, k.isHump_getLast hd, ← hcons,
        hrest, Hump.runs_cons_cons]
      cases k.endsUpper with
      | true =>
        simp only [Bool.not_true, Bool.false_eq_true, if_false, if_true]
        rw [intercalate_modifyHead _ _ (Hump.runs_ne_nil _ l hs)]
      | false =>
        simp only [Bool.not_false, Bool.false_eq_true, if_false, if_true]
        rw [List.intercalate_cons_of_ne_nil (Hump.runs_ne_nil _ l hs), List.append_assoc,
          List.singleton_append]

theorem segments_camelCase {hs : List Hump} (h : IsCamel hs) :
    publicKeySegments (camelCase hs) = Hump.runs (fun h => h.word.text) hs := by
  have hparts : ∀ a ∈ Hump.runs Hump.text hs, a ≠ [] ∧ ∀ c ∈ a, isAlnum c = true := by
    apply Hump.forall_runs
    · intro a b ha hb
      refine ⟨by simp [ha.1], fun c hc => ?_⟩
      obtain hc | hc := List.mem_append.1 hc
      · exact ha.2 c hc
      · exact hb.2 c hc
    · exact fun k _ => ⟨k.text_ne_nil, k.alnum⟩
  rw [publicKeySegments, camelSplit_camelCase h, alnumSegments_intercalate (by decide) hparts,
    Hump.map_runs]
  simp only [Hump.map_lower]

end KestrelSdk.Llm

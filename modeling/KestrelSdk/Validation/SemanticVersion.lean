import KestrelSdk.Json.RoundTrip
import KestrelSdk.Regex.Backtrack
import Mathlib.Data.List.DropRight
import Mathlib.Tactic.IntervalCases

namespace KestrelSdk.Validation

open Json (Str Value str isDigit natOf natText)
open Regex (Pattern Captures)
open Regex.Pattern (Matches Plain matches_seq_iff matches_group_iff matches_opt_iff plain_chars
  plain_star_chars)

def isPositiveDigit (c : Nat) : Bool := 49 ≤ c && c ≤ 57

/-- `[A-Za-z-]`. -/
def isNonDigit (c : Nat) : Bool := (65 ≤ c && c ≤ 90) || (97 ≤ c && c ≤ 122) || c == 45

/-- `[0-9A-Za-z-]`. -/
def isIdentifierCharacter (c : Nat) : Bool := isDigit c || isNonDigit c

/-- `(?:0|[1-9][0-9]*)`. -/
def numberPattern : Pattern Nat :=
  .alt (.chars (· == 48)) (.seq (.chars isPositiveDigit) (.star (.chars isDigit)))

def _SEMVER_IDENTIFIER : Pattern Nat :=
  .alt (.chars (· == 48)) (.alt (.seq (.chars isPositiveDigit) (.star (.chars isDigit)))
    (.seq (.star (.chars isDigit))
      (.seq (.chars isNonDigit) (.star (.chars isIdentifierCharacter)))))

/-- `[0-9A-Za-z-]+`. -/
def buildPattern : Pattern Nat := (Pattern.chars isIdentifierCharacter).plus

/-- `r(?:\.r)*`. -/
def dottedPattern (r : Pattern Nat) : Pattern Nat := .seq r (.star (.seq (.chars (· == 46)) r))

/-- The anchors are those of a full match. -/
def _SEMANTIC_VERSION : Pattern Nat :=
  .seq (.group 1 numberPattern) (.seq (.chars (· == 46))
    (.seq (.group 2 numberPattern) (.seq (.chars (· == 46))
      (.seq (.group 3 numberPattern)
        (.seq (.opt (.seq (.chars (· == 45)) (.group 4 (dottedPattern _SEMVER_IDENTIFIER))))
          (.opt (.seq (.chars (· == 43)) (.group 5 (dottedPattern buildPattern)))))))))

def semanticVersion (value : Value) (field_name : Str) (allow_prerelease allow_build : Bool) :
    Except Str Str :=
  let found := match value with
    | .str s => if s.length ≤ 128 then _SEMANTIC_VERSION.fullmatch s else none
    | _ => none
  match value, found with
  | .str s, some m =>
    if (!allow_prerelease && (m.group 4).isSome) || (!allow_build && (m.group 5).isSome) then
      .error (field_name ++ str " must be a semantic version such as '1.0.0'")
    else .ok s
  | _, _ => .error (field_name ++ str " must be a semantic version such as '1.0.0'")

/-- `int(match.group(n))`, over the digits that the group holds. -/
def groupNumber (m : Captures Nat) (n : Nat) : Nat := natOf ((m.group n).getD [])

def semanticVersionParts (value : Str) : Except Str (Nat × Nat × Nat) :=
  match _SEMANTIC_VERSION.fullmatch value with
  | none => .error (str "invalid semantic version")
  | some m => .ok (groupNumber m 1, groupNumber m 2, groupNumber m 3)

/-! The grammar of Semantic Versioning 2.0.0. -/

def Digits (s : Str) : Prop := s ≠ [] ∧ ∀ c ∈ s, isDigit c = true

def IdentifierCharacters (s : Str) : Prop := s ≠ [] ∧ ∀ c ∈ s, isIdentifierCharacter c = true

inductive NumericIdentifier : Str → Prop where
  | zero : NumericIdentifier [48]
  | positive {c : Nat} (hc : isPositiveDigit c = true) : NumericIdentifier [c]
  | digits {c : Nat} {s : Str} (hc : isPositiveDigit c = true) (hs : Digits s) :
      NumericIdentifier (c :: s)

inductive AlphanumericIdentifier : Str → Prop where
  | lone {c : Nat} (hc : isNonDigit c = true) : AlphanumericIdentifier [c]
  | first {c : Nat} {s : Str} (hc : isNonDigit c = true) (hs : IdentifierCharacters s) :
      AlphanumericIdentifier (c :: s)
  | last {c : Nat} {s : Str} (hs : IdentifierCharacters s) (hc : isNonDigit c = true) :
      AlphanumericIdentifier (s ++ [c])
  | inside {c : Nat} {s t : Str} (hs : IdentifierCharacters s) (hc : isNonDigit c = true)
      (ht : IdentifierCharacters t) : AlphanumericIdentifier (s ++ c :: t)

inductive BuildIdentifier : Str → Prop where
  | alphanumeric {s : Str} (h : AlphanumericIdentifier s) : BuildIdentifier s
  | digits {s : Str} (h : Digits s) : BuildIdentifier s

inductive PrereleaseIdentifier : Str → Prop where
  | alphanumeric {s : Str} (h : AlphanumericIdentifier s) : PrereleaseIdentifier s
  | numeric {s : Str} (h : NumericIdentifier s) : PrereleaseIdentifier s

/-- Dot-separated identifiers. -/
inductive Dotted (L : Str → Prop) : Str → Prop where
  | one {s : Str} (h : L s) : Dotted L s
  | more {s t : Str} (h : L s) (rest : Dotted L t) : Dotted L (s ++ 46 :: t)

inductive VersionCore : Str → Prop where
  | mk {major minor patch : Str} (hmajor : NumericIdentifier major)
      (hminor : NumericIdentifier minor) (hpatch : NumericIdentifier patch) :
      VersionCore (major ++ 46 :: (minor ++ 46 :: patch))

inductive ValidSemver : Str → Prop where
  | core {s : Str} (hs : VersionCore s) : ValidSemver s
  | prerelease {s p : Str} (hs : VersionCore s) (hp : Dotted PrereleaseIdentifier p) :
      ValidSemver (s ++ 45 :: p)
  | build {s b : Str} (hs : VersionCore s) (hb : Dotted BuildIdentifier b) :
      ValidSemver (s ++ 43 :: b)
  | both {s p b : Str} (hs : VersionCore s) (hp : Dotted PrereleaseIdentifier p)
      (hb : Dotted BuildIdentifier b) : ValidSemver (s ++ 45 :: (p ++ 43 :: b))

/-! What the parts of the pattern match. -/

theorem numericIdentifier_iff {s : Str} : NumericIdentifier s ↔
    s = [48] ∨ ∃ c t, isPositiveDigit c = true ∧ (∀ d ∈ t, isDigit d = true) ∧ s = c :: t := by
  constructor
  · intro h
    cases h with
    | zero => exact .inl rfl
    | positive hc => exact .inr ⟨_, [], hc, List.forall_mem_nil _, rfl⟩
    | digits hc hs => exact .inr ⟨_, _, hc, hs.2, rfl⟩
  · rintro (rfl | ⟨c, t, hc, ht, rfl⟩)
    · exact .zero
    · by_cases hnil : t = []
      · rw [hnil]
        exact .positive hc
      · exact .digits hc ⟨hnil, ht⟩

theorem alphanumericIdentifier_iff {s : Str} : AlphanumericIdentifier s ↔
    (∀ c ∈ s, isIdentifierCharacter c = true) ∧ ∃ c ∈ s, isNonDigit c = true := by
  have hchar : ∀ {c : Nat}, isNonDigit c = true → isIdentifierCharacter c = true := by
    intro c hc
    rw [isIdentifierCharacter, hc, Bool.or_true]
  constructor
  · intro h
    cases h with
    | lone hc => exact ⟨List.forall_mem_singleton.2 (hchar hc), _, List.mem_singleton_self _, hc⟩
    | first hc hs =>
      exact ⟨List.forall_mem_cons.2 ⟨hchar hc, hs.2⟩, _, List.mem_cons_self .., hc⟩
    | last hs hc =>
      exact ⟨List.forall_mem_append.2 ⟨hs.2, List.forall_mem_singleton.2 (hchar hc)⟩, _,
        List.mem_append_right _ (List.mem_singleton_self _), hc⟩
    | inside hs hc ht =>
      exact ⟨List.forall_mem_append.2 ⟨hs.2, List.forall_mem_cons.2 ⟨hchar hc, ht.2⟩⟩, _,
        List.mem_append_right _ (List.mem_cons_self ..), hc⟩
  · rintro ⟨hall, c, hc, hnon⟩
    obtain ⟨t, u, rfl⟩ := List.append_of_mem hc
    have ht : ∀ d ∈ t, isIdentifierCharacter d = true :=
      fun d hd => hall d (List.mem_append_left _ hd)
    have hu : ∀ d ∈ u, isIdentifierCharacter d = true :=
      fun d hd => hall d (List.mem_append_right _ (List.mem_cons_of_mem c hd))
    by_cases htn : t = [] <;> by_cases hun : u = []
    · rw [htn, hun]
      exact .lone hnon
    · rw [htn]
      exact .first hnon ⟨hun, hu⟩
    · rw [hun]
      exact .last ⟨htn, ht⟩ hnon
    · exact .inside ⟨htn, ht⟩ hnon ⟨hun, hu⟩

theorem buildIdentifier_iff {s : Str} : BuildIdentifier s ↔ IdentifierCharacters s := by
  constructor
  · intro h
    cases h with
    | alphanumeric h =>
      obtain ⟨hall, c, hc, -⟩ := alphanumericIdentifier_iff.1 h
      exact ⟨List.ne_nil_of_mem hc, hall⟩
    | digits h =>
      refine ⟨h.1, ?_⟩
      intro c hc
      rw [isIdentifierCharacter, h.2 c hc, Bool.true_or]
  · rintro ⟨hne, hall⟩
    by_cases hnon : ∃ c ∈ s, isNonDigit c = true
    · exact .alphanumeric (alphanumericIdentifier_iff.2 ⟨hall, hnon⟩)
    · apply BuildIdentifier.digits
      refine ⟨hne, ?_⟩
      intro c hc
      have hor := hall c hc
      rw [isIdentifierCharacter, Bool.or_eq_true] at hor
      exact hor.resolve_right fun h => hnon ⟨c, hc, h⟩

theorem plain_congr {a : Pattern Nat} {L M : Str → Prop} (ha : Plain a L) (h : ∀ s, L s ↔ M s) :
    Plain a M := by
  intro s c
  rw [ha s c, h s]

theorem plain_char (d : Nat) : Plain (.chars (· == d)) fun s => s = [d] := by
  apply plain_congr (plain_chars _)
  intro s
  constructor
  · rintro ⟨c, hc, rfl⟩
    rw [eq_of_beq hc]
  · intro hs
    exact ⟨d, beq_self_eq_true d, hs⟩

theorem plain_positive : Plain (.seq (.chars isPositiveDigit) (.star (.chars isDigit))) fun s =>
    ∃ c t, isPositiveDigit c = true ∧ (∀ d ∈ t, isDigit d = true) ∧ s = c :: t := by
  apply plain_congr ((plain_chars _).seq (plain_star_chars _))
  intro s
  constructor
  · rintro ⟨_, t, rfl, ⟨c, hc, rfl⟩, ht⟩
    exact ⟨c, t, hc, ht, rfl⟩
  · rintro ⟨c, t, hc, ht, rfl⟩
    exact ⟨[c], t, rfl, ⟨c, hc, rfl⟩, ht⟩

theorem plain_number : Plain numberPattern NumericIdentifier := by
  apply plain_congr ((plain_char 48).alt plain_positive)
  intro s
  exact numericIdentifier_iff.symm

/-- Digits, then a character that is none, then what may stand in an identifier. -/
theorem plain_alphanumeric : Plain (.seq (.star (.chars isDigit))
    (.seq (.chars isNonDigit) (.star (.chars isIdentifierCharacter)))) AlphanumericIdentifier := by
  apply plain_congr ((plain_star_chars _).seq ((plain_chars _).seq (plain_star_chars _)))
  intro s
  rw [alphanumericIdentifier_iff]
  constructor
  · rintro ⟨t, _, rfl, ht, _, u, rfl, ⟨c, hc, rfl⟩, hu⟩
    have hmem : c ∈ t ++ ([c] ++ u) := List.mem_append_right t (List.mem_cons_self ..)
    refine ⟨?_, c, hmem, hc⟩
    intro d hd
    rw [isIdentifierCharacter]
    rcases List.mem_append.1 hd with hd | hd
    · rw [ht d hd, Bool.true_or]
    · rcases List.mem_cons.1 hd with rfl | hd
      · rw [hc, Bool.or_true]
      · exact hu d hd
  · rintro ⟨hall, c, hc, hnon⟩
    -- the digits before the first character that is none
    have hsplit := List.takeWhile_append_dropWhile (p := isDigit) (l := s)
    have hdigit : isDigit c = false := by
      simp only [isNonDigit, isDigit, Bool.or_eq_true, Bool.and_eq_true, decide_eq_true_eq,
        beq_iff_eq, Bool.and_eq_false_iff, decide_eq_false_iff_not] at hnon ⊢
      omega
    cases hrest : s.dropWhile isDigit with
    | nil =>
      have hcs := List.dropWhile_eq_nil_iff.1 hrest c hc
      rw [hdigit] at hcs
      contradiction
    | cons d u =>
      rw [hrest] at hsplit
      have hhead : isDigit d = false := by
        have hne : s.dropWhile isDigit ≠ [] := by
          rw [hrest]
          exact List.cons_ne_nil d u
        have hd := List.head_dropWhile_not (p := isDigit) (l := s) hne
        simpa only [hrest, List.head_cons] using hd
      have hd : isIdentifierCharacter d = true := by
        apply hall
        rw [← hsplit]
        exact List.mem_append_right _ (List.mem_cons_self ..)
      rw [isIdentifierCharacter, hhead, Bool.false_or] at hd
      refine ⟨s.takeWhile isDigit, d :: u, hsplit.symm, ?_, [d], u, rfl, ⟨d, hd, rfl⟩, ?_⟩
      · exact fun x hx => List.mem_takeWhile_imp hx
      · intro x hx
        apply hall
        rw [← hsplit]
        exact List.mem_append_right _ (List.mem_cons_of_mem d hx)

theorem plain_prerelease : Plain _SEMVER_IDENTIFIER PrereleaseIdentifier := by
  apply plain_congr ((plain_char 48).alt (plain_positive.alt plain_alphanumeric))
  intro s
  rw [← or_assoc, ← numericIdentifier_iff]
  constructor
  · rintro (h | h)
    · exact .numeric h
    · exact .alphanumeric h
  · intro h
    cases h with
    | alphanumeric h => exact .inr h
    | numeric h => exact .inl h

theorem plain_build : Plain buildPattern BuildIdentifier := by
  apply plain_congr ((plain_chars _).seq (plain_star_chars _))
  intro s
  rw [buildIdentifier_iff]
  constructor
  · rintro ⟨_, t, rfl, ⟨c, hc, rfl⟩, ht⟩
    exact ⟨List.cons_ne_nil c t, List.forall_mem_cons.2 ⟨hc, ht⟩⟩
  · rintro ⟨hne, hall⟩
    obtain ⟨c, t, rfl⟩ := List.exists_cons_of_ne_nil hne
    obtain ⟨hc, ht⟩ := List.forall_mem_cons.1 hall
    exact ⟨[c], t, rfl, ⟨c, hc, rfl⟩, ht⟩

theorem plain_dotted {r : Pattern Nat} {L : Str → Prop} (hr : Plain r L) :
    Plain (dottedPattern r) (Dotted L) := by
  apply plain_congr (hr.seq ((plain_char 46).seq hr).star)
  intro s
  constructor
  · rintro ⟨t, _, rfl, ht, parts, hparts, rfl⟩
    induction parts generalizing t with
    | nil =>
      rw [List.flatten_nil, List.append_nil]
      exact .one ht
    | cons u parts ih =>
      obtain ⟨⟨-, _, v, rfl, rfl, hv⟩, hrest⟩ := List.forall_mem_cons.1 hparts
      rw [List.flatten_cons, List.append_assoc]
      exact .more ht (ih v hv hrest)
  · intro h
    induction h with
    | one h => exact ⟨_, [], (List.append_nil _).symm, h, [], List.forall_mem_nil _, rfl⟩
    | @more t u ht _ ih =>
      obtain ⟨v, _, rfl, hv, parts, hparts, rfl⟩ := ih
      refine ⟨t, 46 :: (v ++ parts.flatten), rfl, ht, (46 :: v) :: parts, ?_, rfl⟩
      exact List.forall_mem_cons.2 ⟨⟨List.cons_ne_nil 46 v, [46], v, rfl, rfl, hv⟩, hparts⟩

/-! The whole version. -/

/-- An optional part behind its mark. -/
def marked (mark : Nat) : Option Str → Str
  | none => []
  | some s => mark :: s

def versionText (major minor patch : Str) (prerelease build : Option Str) : Str :=
  major ++ 46 :: (minor ++ 46 :: (patch ++ (marked 45 prerelease ++ marked 43 build)))

def versionGroups (major minor patch : Str) (prerelease build : Option Str) : Captures Nat :=
  [(1, major), (2, minor), (3, patch)] ++ (prerelease.toList.map (Prod.mk 4) ++
    build.toList.map (Prod.mk 5))

theorem matches_marked_iff {r : Pattern Nat} {L : Str → Prop} (hr : Plain r L) (mark n : Nat)
    {s : Str} {c : Captures Nat} :
    Matches (.opt (.seq (.chars (· == mark)) (.group n r))) s c ↔
      ∃ o : Option Str, (∀ t ∈ o, L t) ∧ s = marked mark o ∧ c = o.toList.map (Prod.mk n) := by
  rw [matches_opt_iff, matches_seq_iff]
  constructor
  · rintro (⟨m, t, c₁, c₂, rfl, rfl, hm, ht⟩ | ⟨rfl, rfl⟩)
    · obtain ⟨rfl, rfl⟩ := (plain_char mark _ _).1 hm
      obtain ⟨d, hd, rfl⟩ := matches_group_iff.1 ht
      obtain ⟨hL, rfl⟩ := (hr _ _).1 hd
      refine ⟨some t, ?_, rfl, rfl⟩
      rintro _ ⟨⟩
      exact hL
    · refine ⟨none, ?_, rfl, rfl⟩
      exact nofun
  · rintro ⟨_ | t, ht, rfl, rfl⟩
    · exact .inr ⟨rfl, rfl⟩
    · have hm := (plain_char mark [mark] []).2 ⟨rfl, rfl⟩
      have hg := (hr t []).2 ⟨ht t rfl, rfl⟩
      exact .inl ⟨[mark], t, [], [(n, t)], rfl, rfl, hm, .group hg⟩

/-- A group, then a dot. -/
theorem matches_numbered_iff {r : Pattern Nat} {n : Nat} {s : Str} {c : Captures Nat} :
    Matches (.seq (.group n numberPattern) (.seq (.chars (· == 46)) r)) s c ↔
      ∃ a t d, NumericIdentifier a ∧ Matches r t d ∧ s = a ++ 46 :: t ∧ c = (n, a) :: d := by
  rw [matches_seq_iff]
  constructor
  · rintro ⟨a, t, c₁, c₂, rfl, rfl, ha, ht⟩
    obtain ⟨d, hd, rfl⟩ := matches_group_iff.1 ha
    obtain ⟨hnum, rfl⟩ := (plain_number _ _).1 hd
    obtain ⟨dot, u, d₁, d₂, rfl, rfl, hdot, hu⟩ := matches_seq_iff.1 ht
    obtain ⟨rfl, rfl⟩ := (plain_char 46 _ _).1 hdot
    exact ⟨a, u, d₂, hnum, hu, rfl, rfl⟩
  · rintro ⟨a, t, d, ha, ht, rfl, rfl⟩
    have hnum := (plain_number a []).2 ⟨ha, rfl⟩
    have hdot := (plain_char 46 [46] []).2 ⟨rfl, rfl⟩
    exact ⟨a, 46 :: t, [(n, a)], d, rfl, rfl, .group hnum, Matches.seq hdot ht⟩

theorem matches_version_iff {s : Str} {c : Captures Nat} : Matches _SEMANTIC_VERSION s c ↔
    ∃ major minor patch prerelease build, NumericIdentifier major ∧ NumericIdentifier minor ∧
      NumericIdentifier patch ∧ (∀ p ∈ prerelease, Dotted PrereleaseIdentifier p) ∧
      (∀ b ∈ build, Dotted BuildIdentifier b) ∧
      s = versionText major minor patch prerelease build ∧
      c = versionGroups major minor patch prerelease build := by
  constructor
  · intro h
    obtain ⟨major, _, _, hmajor, h₁, rfl, rfl⟩ := matches_numbered_iff.1 h
    obtain ⟨minor, _, _, hminor, h₂, rfl, rfl⟩ := matches_numbered_iff.1 h₁
    obtain ⟨patch, _, _, _, rfl, rfl, hp, h₃⟩ := matches_seq_iff.1 h₂
    obtain ⟨d, hd, rfl⟩ := matches_group_iff.1 hp
    obtain ⟨hpatch, rfl⟩ := (plain_number _ _).1 hd
    obtain ⟨_, _, _, _, rfl, rfl, h₄, h₅⟩ := matches_seq_iff.1 h₃
    obtain ⟨prerelease, hpre, rfl, rfl⟩ :=
      (matches_marked_iff (plain_dotted plain_prerelease) 45 4).1 h₄
    obtain ⟨build, hbuild, rfl, rfl⟩ := (matches_marked_iff (plain_dotted plain_build) 43 5).1 h₅
    exact ⟨major, minor, patch, prerelease, build, hmajor, hminor, hpatch, hpre, hbuild, rfl, rfl⟩
  · rintro ⟨major, minor, patch, prerelease, build, hmajor, hminor, hpatch, hpre, hbuild, rfl, rfl⟩
    have h₄ := (matches_marked_iff (plain_dotted plain_prerelease) 45 4).2
      ⟨prerelease, hpre, rfl, rfl⟩
    have h₅ := (matches_marked_iff (plain_dotted plain_build) 43 5).2
      ⟨build, hbuild, rfl, rfl⟩
    have h₃ := Matches.group (n := 3) ((plain_number patch []).2 ⟨hpatch, rfl⟩)
    exact matches_numbered_iff.2 ⟨major, _, _, hmajor, matches_numbered_iff.2
      ⟨minor, _, _, hminor, .seq h₃ (.seq h₄ h₅), rfl, rfl⟩, rfl, rfl⟩

/-- The texts that the pattern matches are those of the grammar. -/
theorem validSemver_iff {s : Str} :
    ValidSemver s ↔ (_SEMANTIC_VERSION.fullmatch s).isSome = true := by
  rw [Regex.Pattern.fullmatch_isSome_iff]
  constructor
  · intro h
    -- the four alternatives of the grammar
    have hone : ∃ major minor patch prerelease build, NumericIdentifier major ∧
        NumericIdentifier minor ∧ NumericIdentifier patch ∧
        (∀ p ∈ prerelease, Dotted PrereleaseIdentifier p) ∧
        (∀ b ∈ build, Dotted BuildIdentifier b) ∧
        s = versionText major minor patch prerelease build := by
      cases h with
      | core hs =>
        cases hs with
        | mk ha hb hc =>
          exact ⟨_, _, _, none, none, ha, hb, hc, nofun, nofun, by simp [versionText, marked]⟩
      | @prerelease _ p hs hp =>
        cases hs with
        | mk ha hb hc =>
          exact ⟨_, _, _, some p, none, ha, hb, hc, by rintro _ ⟨⟩; exact hp, nofun,
            by simp [versionText, marked]⟩
      | @build _ b hs hb' =>
        cases hs with
        | mk ha hb hc =>
          exact ⟨_, _, _, none, some b, ha, hb, hc, nofun, by rintro _ ⟨⟩; exact hb',
            by simp [versionText, marked]⟩
      | @both _ p b hs hp hb' =>
        cases hs with
        | mk ha hb hc =>
          exact ⟨_, _, _, some p, some b, ha, hb, hc, by rintro _ ⟨⟩; exact hp,
            by rintro _ ⟨⟩; exact hb', by simp [versionText, marked]⟩
    obtain ⟨major, minor, patch, prerelease, build, ha, hb, hc, hp, hb', hs⟩ := hone
    exact ⟨_, matches_version_iff.2 ⟨major, minor, patch, prerelease, build, ha, hb, hc, hp, hb',
      hs, rfl⟩⟩
  · rintro ⟨c, hm⟩
    obtain ⟨major, minor, patch, prerelease, build, ha, hb, hc, hp, hb', rfl, -⟩ :=
      matches_version_iff.1 hm
    have hcore := VersionCore.mk ha hb hc
    have htext : versionText major minor patch prerelease build =
        (major ++ 46 :: (minor ++ 46 :: patch)) ++ (marked 45 prerelease ++ marked 43 build) := by
      simp only [versionText, List.append_assoc, List.cons_append]
    rw [htext]
    cases prerelease with
    | none =>
      cases build with
      | none =>
        rw [marked, marked, List.append_nil, List.append_nil]
        exact .core hcore
      | some b => exact .build hcore (hb' b rfl)
    | some p =>
      cases build with
      | none =>
        rw [marked, marked, List.append_nil]
        exact .prerelease hcore (hp p rfl)
      | some b => exact .both hcore (hp p rfl) (hb' b rfl)

/-! Releases: versions of three numbers and nothing behind them. -/

theorem natOf_snoc (s : Str) (c : Nat) : natOf (s ++ [c]) = 10 * natOf s + (c - 48) := by
  simp only [natOf, List.foldl_append, List.foldl_cons, List.foldl_nil]

/-- A number without leading zeros is the text of its value. -/
theorem natText_natOf {s : Str} (h : NumericIdentifier s) : natText (natOf s) = s := by
  obtain rfl | ⟨c, t, hc, ht, rfl⟩ := numericIdentifier_iff.1 h
  · rfl
  · have hrange : 49 ≤ c ∧ c ≤ 57 := by
      simpa only [isPositiveDigit, Bool.and_eq_true, decide_eq_true_eq] using hc
    -- from the right, where the text of a number grows
    suffices hboth : natText (natOf (c :: t)) = c :: t ∧ 0 < natOf (c :: t) from hboth.1
    clear h
    induction t using List.reverseRecOn with
    | nil =>
      obtain ⟨hlow, hhigh⟩ := hrange
      interval_cases c <;> exact ⟨rfl, by decide⟩
    | append_singleton t d ih =>
      have hd := ht d (List.mem_append_right t (List.mem_singleton_self d))
      have hdrange : 48 ≤ d ∧ d ≤ 57 := by
        simpa only [isDigit, Bool.and_eq_true, decide_eq_true_eq] using hd
      obtain ⟨htext, hpos⟩ := ih fun x hx => ht x (List.mem_append_left _ hx)
      have hvalue : natOf (c :: (t ++ [d])) = 10 * natOf (c :: t) + (d - 48) :=
        natOf_snoc (c :: t) d
      have hdiv : (10 * natOf (c :: t) + (d - 48)) / 10 = natOf (c :: t) := by omega
      have hmod : (10 * natOf (c :: t) + (d - 48)) % 10 = d - 48 := by omega
      have hdigit : (d - 48).digitChar.toNat = d := by
        obtain ⟨hlow, hhigh⟩ := hdrange
        interval_cases d <;> rfl
      rw [hvalue]
      refine ⟨?_, by omega⟩
      rw [natText, Nat.toDigits_of_base_le (by decide) (by omega), hdiv, hmod, List.map_append,
        List.map_singleton, hdigit]
      change natText (natOf (c :: t)) ++ [d] = c :: (t ++ [d])
      rw [htext, List.cons_append]

theorem numericIdentifier_natText (n : Nat) : NumericIdentifier (natText n) := by
  apply numericIdentifier_iff.2
  rcases Nat.eq_zero_or_pos n with rfl | hn
  · exact .inl rfl
  · obtain ⟨c, t, htext, hc⟩ := Json.natText_head hn
    have hdigit : ∀ d ∈ c :: t, isDigit d = true := by
      intro d hd
      rw [← htext] at hd
      exact Json.natText_digit hd
    obtain ⟨hhead, ht⟩ := List.forall_mem_cons.1 hdigit
    simp only [isDigit, Bool.and_eq_true, decide_eq_true_eq] at hhead
    refine .inr ⟨c, t, ?_, ht, htext⟩
    simp only [isPositiveDigit, Bool.and_eq_true, decide_eq_true_eq]
    omega

def releaseText (a b c : Nat) : Str := natText a ++ 46 :: (natText b ++ 46 :: natText c)

theorem digit_of_numeric {s : Str} (h : NumericIdentifier s) {c : Nat} (hc : c ∈ s) :
    isDigit c = true := by
  rw [← natText_natOf h] at hc
  exact Json.natText_digit hc

/-- A number ends at the dot. -/
theorem numeric_append_inj {s t u v : Str} (hs : NumericIdentifier s) (ht : NumericIdentifier t)
    (h : s ++ 46 :: u = t ++ 46 :: v) : s = t ∧ u = v := by
  have htake : ∀ {r w : Str}, NumericIdentifier r → (r ++ 46 :: w).takeWhile isDigit = r := by
    intro r w hr
    rw [List.takeWhile_append_of_pos fun c hc => digit_of_numeric hr hc,
      List.takeWhile_cons_of_neg (by decide), List.append_nil]
  have hst : s = t := by
    rw [← htake hs, h, htake ht]
  rw [hst] at h
  exact ⟨hst, (List.cons_inj_right 46).1 (List.append_cancel_left h)⟩

theorem group_major (a b c : Str) (p q : Option Str) :
    (versionGroups a b c p q).group 1 = some a := by
  cases p <;> cases q <;> rfl

theorem group_minor (a b c : Str) (p q : Option Str) :
    (versionGroups a b c p q).group 2 = some b := by
  cases p <;> cases q <;> rfl

theorem group_patch (a b c : Str) (p q : Option Str) :
    (versionGroups a b c p q).group 3 = some c := by
  cases p <;> cases q <;> rfl

theorem group_prerelease (a b c : Str) (p q : Option Str) :
    (versionGroups a b c p q).group 4 = p := by
  cases p <;> cases q <;> rfl

theorem group_build (a b c : Str) (p q : Option Str) :
    (versionGroups a b c p q).group 5 = q := by
  cases p <;> cases q <;> rfl

/-- A release has one reading. -/
theorem fullmatch_release (a b c : Nat) : _SEMANTIC_VERSION.fullmatch (releaseText a b c) =
    some (versionGroups (natText a) (natText b) (natText c) none none) := by
  have hm : Matches _SEMANTIC_VERSION (releaseText a b c) _ := matches_version_iff.2
    ⟨_, _, _, none, none, numericIdentifier_natText a, numericIdentifier_natText b,
      numericIdentifier_natText c, nofun, nofun, by simp [releaseText, versionText, marked], rfl⟩
  obtain ⟨m, hfound⟩ :=
    Option.isSome_iff_exists.1 (Regex.Pattern.fullmatch_isSome_iff.2 ⟨_, hm⟩)
  obtain ⟨x, y, z, p, q, hx, hy, hz, -, -, htext, hgroups⟩ :=
    matches_version_iff.1 (Regex.Pattern.matches_of_fullmatch hfound)
  obtain ⟨hmajor, hrest⟩ := numeric_append_inj (numericIdentifier_natText a) hx htext
  obtain ⟨hminor, hlast⟩ := numeric_append_inj (numericIdentifier_natText b) hy hrest
  have hdigit : ∀ d ∈ z ++ (marked 45 p ++ marked 43 q), isDigit d = true := by
    intro d hd
    rw [← hlast] at hd
    exact Json.natText_digit hd
  have hp : p = none := by
    cases p with
    | none => rfl
    | some p =>
      have hmark := hdigit 45 (List.mem_append_right z (List.mem_append_left _
        (List.mem_cons_self ..)))
      exact absurd hmark (by decide)
  have hq : q = none := by
    cases q with
    | none => rfl
    | some q =>
      have hmark := hdigit 43 (List.mem_append_right z (List.mem_append_right _
        (List.mem_cons_self ..)))
      exact absurd hmark (by decide)
  rw [hp, hq, marked, marked, List.append_nil, List.append_nil] at hlast
  rw [hfound, hgroups, hp, hq, hmajor, hminor, hlast]

theorem semanticVersionParts_release (a b c : Nat) :
    semanticVersionParts (releaseText a b c) = .ok (a, b, c) := by
  simp only [semanticVersionParts, fullmatch_release, groupNumber, group_major, group_minor,
    group_patch, Option.getD_some, Json.natOf_natText]

theorem releaseText_injective {a b c x y z : Nat} (h : releaseText a b c = releaseText x y z) :
    a = x ∧ b = y ∧ c = z := by
  have hparts := semanticVersionParts_release a b c
  rw [h, semanticVersionParts_release] at hparts
  simp only [Except.ok.injEq, Prod.mk.injEq] at hparts
  exact ⟨hparts.1.symm, hparts.2.1.symm, hparts.2.2.symm⟩

/-- What `semantic_version` takes: a text that the pattern matches, no longer than the bound,
without the parts that are not allowed. -/
theorem semanticVersion_ok_iff {value : Value} {field_name : Str}
    {allow_prerelease allow_build : Bool} {s : Str} :
    semanticVersion value field_name allow_prerelease allow_build = .ok s ↔
      value = .str s ∧ s.length ≤ 128 ∧ ∃ m, _SEMANTIC_VERSION.fullmatch s = some m ∧
        (allow_prerelease = false → m.group 4 = none) ∧
        (allow_build = false → m.group 5 = none) := by
  constructor
  · intro h
    cases value with
    | str t =>
      by_cases hlen : t.length ≤ 128
      · cases hm : _SEMANTIC_VERSION.fullmatch t with
        | none => simp [semanticVersion, hlen, hm] at h
        | some m =>
          simp only [semanticVersion, if_pos hlen, hm] at h
          split at h
          next => contradiction
          next hparts =>
            obtain rfl := Except.ok.inj h
            refine ⟨rfl, hlen, m, hm, ?_, ?_⟩
            · intro hallow
              simp_all
            · intro hallow
              simp_all
      · simp [semanticVersion, hlen] at h
    | _ => simp [semanticVersion] at h
  · rintro ⟨rfl, hlen, m, hm, hpre, hbuild⟩
    have hparts : ¬ ((!allow_prerelease && (m.group 4).isSome) ||
        (!allow_build && (m.group 5).isSome)) = true := by
      cases allow_prerelease <;> cases allow_build <;> simp_all
    simp only [semanticVersion, if_pos hlen, hm, if_neg hparts]

/-- With prereleases and builds allowed, the texts of the grammar within the bound. -/
theorem semanticVersion_grammar (value : Value) (field_name s : Str) :
    semanticVersion value field_name true true = .ok s ↔
      value = .str s ∧ ValidSemver s ∧ s.length ≤ 128 := by
  rw [semanticVersion_ok_iff, validSemver_iff, Option.isSome_iff_exists]
  constructor
  · rintro ⟨hvalue, hlen, m, hm, -, -⟩
    exact ⟨hvalue, ⟨m, hm⟩, hlen⟩
  · rintro ⟨hvalue, ⟨m, hm⟩, hlen⟩
    exact ⟨hvalue, hlen, m, hm, nofun, nofun⟩

/-- A text that matches without a prerelease and a build is a release. -/
theorem release_of_fullmatch {s : Str} {m : Captures Nat}
    (hm : _SEMANTIC_VERSION.fullmatch s = some m) (hpre : m.group 4 = none)
    (hbuild : m.group 5 = none) : ∃ a b c, s = releaseText a b c := by
  obtain ⟨x, y, z, p, q, hx, hy, hz, -, -, htext, rfl⟩ :=
    matches_version_iff.1 (Regex.Pattern.matches_of_fullmatch hm)
  rw [group_prerelease] at hpre
  rw [group_build] at hbuild
  refine ⟨natOf x, natOf y, natOf z, ?_⟩
  rw [releaseText, natText_natOf hx, natText_natOf hy, natText_natOf hz, htext, hpre, hbuild,
    versionText, marked, marked, List.append_nil, List.append_nil]

/-- Without a build, a hyphen tells a prerelease. -/
theorem hyphen_iff {s : Str} {m : Captures Nat} (hm : _SEMANTIC_VERSION.fullmatch s = some m)
    (hbuild : m.group 5 = none) : 45 ∈ s ↔ ¬ ∃ a b c, s = releaseText a b c := by
  have hno : ∀ {r : Str}, NumericIdentifier r → 45 ∉ r := by
    intro r hr hmem
    exact absurd (digit_of_numeric hr hmem) (by decide)
  constructor
  · rintro hmem ⟨a, b, c, rfl⟩
    rw [releaseText, List.mem_append, List.mem_cons, List.mem_append, List.mem_cons] at hmem
    rcases hmem with h | h | h | h | h
    · exact hno (numericIdentifier_natText a) h
    · contradiction
    · exact hno (numericIdentifier_natText b) h
    · contradiction
    · exact hno (numericIdentifier_natText c) h
  · intro hnot
    obtain ⟨x, y, z, p, q, -, -, -, -, -, rfl, rfl⟩ :=
      matches_version_iff.1 (Regex.Pattern.matches_of_fullmatch hm)
    cases p with
    | none => exact absurd (release_of_fullmatch hm (group_prerelease ..) hbuild) hnot
    | some p => simp [versionText, marked]

end KestrelSdk.Validation

import KestrelSdk.ComputerUse.Models
import KestrelSdk.Encoding.Strip
import Mathlib.Data.List.DropRight

/-! The logical paths of the files of an artifact. -/

namespace KestrelSdk.Artifacts

open Json (Str str)
open Encoding (strip)

/-- `_NON_ASCII_WHITESPACE`. -/
def isNonAsciiWhitespace (c : Nat) : Bool :=
  c == 0x85 || c == 0xA0 || c == 0x1680 || (0x2000 ≤ c && c < 0x200B) || c == 0x2028 ||
    c == 0x2029 || c == 0x202F || c == 0x205F || c == 0x3000

/-- `_UNSAFE_FORMAT_RANGES`. -/
def unsafeFormatRanges : List (Nat × Nat) :=
  [(0x00AD, 0x00AD), (0x0600, 0x0605), (0x061C, 0x061C), (0x06DD, 0x06DD), (0x070F, 0x070F),
    (0x0890, 0x0891), (0x08E2, 0x08E2), (0x180E, 0x180E), (0x200B, 0x200F), (0x202A, 0x202E),
    (0x2060, 0x2064), (0x2066, 0x206F), (0xFEFF, 0xFEFF), (0xFFF9, 0xFFFB), (0x110BD, 0x110BD),
    (0x110CD, 0x110CD), (0x13430, 0x1343F), (0x1BCA0, 0x1BCA3), (0x1D173, 0x1D17A),
    (0xE0001, 0xE0001), (0xE0020, 0xE007F)]

/-- `_unsafe_browser_codepoint`. -/
def unsafeBrowserCodepoint (c : Nat) : Bool :=
  if c == 0x200C || c == 0x200D then false
  else if c < 0x20 || (0x7F ≤ c && c ≤ 0x9F) || isNonAsciiWhitespace c ||
      (0xD800 ≤ c && c ≤ 0xDFFF) || (0xE000 ≤ c && c ≤ 0xF8FF) || (0xF0000 ≤ c && c ≤ 0xFFFFD) ||
      (0x100000 ≤ c && c ≤ 0x10FFFD) || (0xFDD0 ≤ c && c ≤ 0xFDEF) || c % 0x10000 == 0xFFFE ||
      c % 0x10000 == 0xFFFF then true
  else unsafeFormatRanges.any fun (start, last) => start ≤ c && c ≤ last

/-- `browser_safe_string(value, ..., max_length=1024, allow_empty=False)`. -/
def browserSafeString (value : Str) : Bool :=
  !value.isEmpty && value.length ≤ 1024 && value.all (!unsafeBrowserCodepoint ·)

/-- What paths take from the Unicode tables of the interpreter: full case folding, of which they use
that `/` and `.` stand for themselves alone, and normalization to NFC. -/
structure Unicode where
  caseFold : Nat → Str
  nfc : Str → Str
  caseFold_ne_nil : ∀ c, caseFold c ≠ []
  caseFold_separator : ∀ c, c = 47 ∨ c = 46 → caseFold c = [c]
  of_mem_caseFold : ∀ c d, d ∈ caseFold c → d = 47 ∨ d = 46 → c = d

variable (u : Unicode)

/-- `str.casefold`. -/
def casefold (s : Str) : Str := s.flatMap u.caseFold

/-- A parsed `PurePosixPath`. -/
structure PurePosixPath where
  root : Str
  parts : List Str

namespace PurePosixPath

/-- The root of a path and what follows it: one slash, or exactly two. -/
def splitRoot : Str → Str × Str
  | 47 :: 47 :: 47 :: s => ([47], 47 :: 47 :: s)
  | 47 :: 47 :: s => ([47, 47], s)
  | 47 :: s => ([47], s)
  | s => ([], s)

/-- `PurePosixPath(path)`, which leaves empty parts and dots out. -/
def parse (path : Str) : PurePosixPath where
  root := (splitRoot path).1
  parts := ((splitRoot path).2.splitOn 47).filter fun part => part ≠ [] ∧ part ≠ [46]

def isAbsolute (p : PurePosixPath) : Bool := !p.root.isEmpty

/-- `str(path)`. -/
def text (p : PurePosixPath) : Str :=
  if p.root = [] ∧ p.parts = [] then [46] else p.root ++ [47].intercalate p.parts

/-- `path.parents`, from the nearest. -/
def parents (p : PurePosixPath) : List PurePosixPath :=
  (List.range p.parts.length).reverse.map fun n => ⟨p.root, p.parts.take n⟩

end PurePosixPath

/-- `_RESERVED_NAMES`. -/
def reservedNames : List Str :=
  [str "con", str "prn", str "aux", str "nul", str "conin$", str "conout$"] ++
    [str "com", str "lpt"].flatMap fun device =>
      (str "123456789¹²³").map fun number => device ++ [number]

/-- What `contained_path` refuses of one part. -/
def refusedPart (part : Str) : Bool :=
  part == [] || part == [46] || part == [46, 46] || part != strip part ||
    part.getLast? == some 46 ||
    casefold u (((part.splitOn 46).headD []).rdropWhile (· == 32)) ∈ reservedNames

/-- `contained_path`; false is a `ValueError`. -/
def containedPath (value : Str) : Bool :=
  browserSafeString value &&
    !((PurePosixPath.parse value).isAbsolute || value.contains 92 ||
      (str ":*?\"<>|").any (value.contains ·) || (value.splitOn 47).any (refusedPart u) ||
      value.contains 0x200C || value.contains 0x200D || u.nfc value != value)

/-! The components of paths. -/

/-- The components of a path. -/
def components (path : Str) : List Str := path.splitOn 47

/-- A path that is relative, with no component that is empty or made of dots alone. -/
structure Contained (path : Str) : Prop where
  relative : path.head? ≠ some 47
  parts : ∀ part ∈ components path, part ≠ [] ∧ part ≠ [46] ∧ part ≠ [46, 46]

theorem head_of_components {path : Str} (h : ∀ part ∈ components path, part ≠ []) :
    path.head? ≠ some 47 := by
  intro hhead
  obtain ⟨s, rfl⟩ := List.head?_eq_some_iff.1 hhead
  apply h []
  · rw [components, List.splitOn_cons_eq_if_modifyHead, if_pos (beq_self_eq_true _)]
    exact List.mem_cons_self
  · rfl

theorem contained_of_containedPath {path : Str} (h : containedPath u path = true) :
    Contained path := by
  simp only [containedPath, Bool.and_eq_true, Bool.not_eq_true', Bool.or_eq_false_iff,
    List.any_eq_false] at h
  have hparts : ∀ part ∈ components path, part ≠ [] ∧ part ≠ [46] ∧ part ≠ [46, 46] := by
    intro part hpart
    have hrefused := h.2.1.1.1.2 part hpart
    simp only [refusedPart, Bool.or_eq_true, beq_iff_eq, not_or] at hrefused
    exact ⟨hrefused.1.1.1.1.1, hrefused.1.1.1.1.2, hrefused.1.1.1.2⟩
  exact ⟨head_of_components fun part hpart => (hparts part hpart).1, hparts⟩

theorem casefold_cons (c : Nat) (s : Str) : casefold u (c :: s) = u.caseFold c ++ casefold u s :=
  List.flatMap_cons

theorem casefold_separator {c : Nat} (hc : c = 47 ∨ c = 46) (s : Str) :
    c ∈ casefold u s ↔ c ∈ s := by
  rw [casefold, List.mem_flatMap]
  constructor
  · rintro ⟨d, hd, hmem⟩
    rwa [← u.of_mem_caseFold d c hmem hc]
  · intro h
    refine ⟨c, h, ?_⟩
    rw [u.caseFold_separator c hc]
    exact List.mem_singleton_self c

theorem casefold_eq_nil {s : Str} : casefold u s = [] ↔ s = [] := by
  constructor
  · intro h
    cases s with
    | nil => rfl
    | cons c s =>
      rw [casefold_cons] at h
      exact absurd (List.append_eq_nil_iff.1 h).1 (u.caseFold_ne_nil c)
  · rintro rfl
    rfl

/-- A text without the separator joins the first part. -/
theorem splitOn_append_left {a : Nat} {s : Str} (h : a ∉ s) (t : Str) :
    (s ++ t).splitOn a = (t.splitOn a).modifyHead (s ++ ·) := by
  induction s with
  | nil =>
    cases hs : t.splitOn a with
    | nil => exact hs
    | cons p ps => exact hs
  | cons c s ih =>
    rw [List.mem_cons, not_or] at h
    have hc : (c == a) = false := beq_eq_false_iff_ne.2 fun hca => h.1 hca.symm
    rw [List.cons_append, List.splitOn_cons_eq_if_modifyHead, hc, ih h.2]
    cases t.splitOn a with
    | nil => rfl
    | cons p ps => rfl

theorem not_mem_of_mem_splitOn {a : Nat} {s p : Str} (hp : p ∈ s.splitOn a) : a ∉ p := by
  induction s generalizing p with
  | nil =>
    rw [List.splitOn_nil, List.mem_singleton] at hp
    rw [hp]
    exact List.not_mem_nil
  | cons c s ih =>
    rw [List.splitOn_cons_eq_if_modifyHead] at hp
    split at hp
    · rcases List.mem_cons.1 hp with rfl | hp
      · exact List.not_mem_nil
      · exact ih hp
    · rename_i hc
      cases hs : s.splitOn a with
      | nil => exact absurd hs (List.splitOn_ne_nil a s)
      | cons q qs =>
        rw [hs] at hp ih
        rcases List.mem_cons.1 hp with rfl | hp
        · rw [List.mem_cons, not_or]
          refine ⟨?_, ih List.mem_cons_self⟩
          rintro rfl
          exact hc (beq_self_eq_true _)
        · exact ih (List.mem_cons_of_mem _ hp)

/-- Case folding keeps the components apart. -/
theorem components_casefold (s : Str) :
    components (casefold u s) = (components s).map (casefold u) := by
  unfold components
  induction s with
  | nil => rfl
  | cons c s ih =>
    rw [casefold_cons, List.splitOn_cons_eq_if_modifyHead]
    by_cases hc : c = 47
    · subst hc
      rw [u.caseFold_separator 47 (.inl rfl), List.cons_append, List.nil_append,
        List.splitOn_cons_eq_if_modifyHead, ih]
      rfl
    · have hfold : 47 ∉ u.caseFold c := fun hmem => hc (u.of_mem_caseFold c 47 hmem (.inl rfl))
      rw [splitOn_append_left hfold, ih, if_neg (by simpa using hc)]
      cases s.splitOn 47 with
      | nil => rfl
      | cons p ps => rw [List.map_cons, List.modifyHead_cons, List.modifyHead_cons, List.map_cons,
          casefold_cons]

/-- A folded path is contained as the path is. -/
theorem Contained.casefold {path : Str} (h : Contained path) : Contained (casefold u path) := by
  have hdots : ∀ part : Str, (∀ c ∈ part, c = 46) → ∀ s, Artifacts.casefold u s = part →
      s = part := by
    intro part
    induction part with
    | nil => exact fun _ s hs => (casefold_eq_nil u).1 hs
    | cons d part ih =>
      intro hall s hs
      obtain rfl := hall d List.mem_cons_self
      cases s with
      | nil => cases hs
      | cons c s =>
        have hc : c = 46 := by
          cases hfold : u.caseFold c with
          | nil => exact absurd hfold (u.caseFold_ne_nil c)
          | cons e es =>
            rw [casefold_cons, hfold, List.cons_append] at hs
            obtain rfl := (List.cons.inj hs).1
            apply u.of_mem_caseFold c 46 ?_ (.inr rfl)
            rw [hfold]
            exact List.mem_cons_self
        subst hc
        rw [casefold_cons, u.caseFold_separator 46 (.inr rfl)] at hs
        rw [ih (fun c hc => hall c (List.mem_cons_of_mem _ hc)) s (List.cons.inj hs).2]
  have hparts : ∀ part ∈ components (Artifacts.casefold u path),
      part ≠ [] ∧ part ≠ [46] ∧ part ≠ [46, 46] := by
    intro part hpart
    rw [components_casefold] at hpart
    obtain ⟨s, hs, rfl⟩ := List.mem_map.1 hpart
    obtain ⟨h1, h2, h3⟩ := h.parts s hs
    refine ⟨fun he => h1 (hdots _ (by simp) s he), fun he => h2 (hdots _ (by simp) s he),
      fun he => h3 (hdots _ (by simp) s he)⟩
  exact ⟨head_of_components fun part hpart => (hparts part hpart).1, hparts⟩

/-! The parents of paths. -/

namespace PurePosixPath

/-- A contained path has no root, and its parts are its components. -/
theorem parse_contained {path : Str} (h : Contained path) :
    parse path = ⟨[], components path⟩ := by
  have hroot : splitRoot path = ([], path) := by
    unfold splitRoot
    split
    · exact absurd rfl h.relative
    · exact absurd rfl h.relative
    · exact absurd rfl h.relative
    · rfl
  have hfilter : (components path).filter (fun part => part ≠ [] ∧ part ≠ [46]) =
      components path := by
    apply List.filter_eq_self.2
    intro part hpart
    obtain ⟨h1, h2, -⟩ := h.parts part hpart
    simp [h1, h2]
  rw [parse, hroot]
  simp only
  rw [← components, hfilter]

/-- The texts of the parents: what the first components spell, and a dot for none. -/
theorem mem_parents_text {path : Str} (h : Contained path) {s : Str} :
    s ∈ (parse path).parents.map text ↔ ∃ n < (components path).length,
      s = if n = 0 then [46] else [47].intercalate ((components path).take n) := by
  rw [parse_contained h, parents]
  simp only [List.map_map, List.mem_map, List.mem_reverse, List.mem_range, Function.comp_apply]
  apply exists_congr
  intro n
  apply and_congr_right
  intro hn
  have htext : text ⟨[], (components path).take n⟩ =
      if n = 0 then [46] else [47].intercalate ((components path).take n) := by
    rw [text]
    by_cases h0 : n = 0
    · simp [h0]
    · have hne : (components path).take n ≠ [] := by
        intro hnil
        have hlen := congrArg List.length hnil
        rw [List.length_take, List.length_nil] at hlen
        omega
      simp [h0, hne]
  rw [htext]
  exact eq_comm

end PurePosixPath

/-- A path whose components are the first ones of another. -/
def IsDirectoryOf (p q : Str) : Prop :=
  components p <+: components q ∧ components p ≠ components q

theorem components_injective {p q : Str} (h : components p = components q) : p = q := by
  have hjoin := congrArg ([47].intercalate ·) h
  simpa [components] using hjoin

/-- The texts of the parents of a contained path are those of its directories, among the contained
ones. -/
theorem mem_parents_text_iff {p q : Str} (hp : Contained p) (hq : Contained q) :
    p ∈ (PurePosixPath.parse q).parents.map PurePosixPath.text ↔ IsDirectoryOf p q := by
  rw [PurePosixPath.mem_parents_text hq]
  have hone : components [46] = [[46]] := rfl
  have hsplit : ∀ n, n ≠ 0 → n < (components q).length →
      components ([47].intercalate ((components q).take n)) = (components q).take n := by
    intro n hn hlt
    apply List.splitOn_intercalate
    · intro part hpart
      exact not_mem_of_mem_splitOn (List.mem_of_mem_take hpart)
    · intro hnil
      have hlen := congrArg List.length hnil
      rw [List.length_take, List.length_nil] at hlen
      omega
  constructor
  · rintro ⟨n, hlt, hn⟩
    split at hn
    · rw [hn] at hp
      exact absurd rfl (hp.parts [46] (by rw [hone]; exact List.mem_cons_self)).2.1
    · rename_i h0
      have hcomp := hsplit n h0 hlt
      rw [← hn] at hcomp
      constructor
      · rw [hcomp]
        exact List.take_prefix n _
      · intro heq
        have hlen := congrArg List.length (hcomp.symm.trans heq)
        rw [List.length_take] at hlen
        omega
  · rintro ⟨hstarts, hne⟩
    have htake := List.prefix_iff_eq_take.1 hstarts
    have hlt : (components p).length < (components q).length := by
      apply lt_of_le_of_ne hstarts.length_le
      intro hlen
      exact hne (hstarts.eq_of_length hlen)
    have h0 : (components p).length ≠ 0 := by
      intro h0
      exact List.splitOn_ne_nil 47 p (List.length_eq_zero_iff.1 h0)
    refine ⟨(components p).length, hlt, ?_⟩
    rw [if_neg h0]
    apply components_injective
    rw [hsplit _ h0 hlt]
    exact htake

end KestrelSdk.Artifacts

import KestrelSdk.ComputerUse.Models
import KestrelSdk.Json.Bytes
import Mathlib.Data.List.DropRight

/-! The owner that a feature's implementation is known by. -/

namespace KestrelSdk.Features

open Json (Str str Bytes encodeUtf8)
open ComputerUse (Digest isHex isDigest)

/-- `_IDENTITY_EDGE_CHARACTERS`. -/
def isEdge (c : Nat) : Bool := c == 46 || c == 45 || c == 95 || c == 58 || c == 64

/-- The characters that `_UNSAFE_IDENTITY_CHARACTERS` leaves. -/
def isIdentityChar (c : Nat) : Bool := isAlnum c || isEdge c

/-- `_UNSAFE_IDENTITY_CHARACTERS.sub("-", text)`: one dash for each run of unsafe characters. `inRun`
says that a run has begun. -/
def subUnsafe (inRun : Bool) : Str → Str
  | [] => []
  | c :: s =>
    if isIdentityChar c then c :: subUnsafe false s
    else if inRun then subUnsafe true s
    else 45 :: subUnsafe true s

/-- `text.strip(_IDENTITY_EDGE_CHARACTERS)`. -/
def stripEdges (s : Str) : Str := (s.dropWhile isEdge).rdropWhile isEdge

/-- `text or "feature"`. -/
def orFeature (s : Str) : Str := if s = [] then str "feature" else s

inductive OwnerError where
  | valueError
  | unicodeEncode
  deriving DecidableEq

/-- `stable_token`. -/
def stableToken (value : Str) : Except OwnerError Str :=
  if isStableToken value then .ok value else .error .valueError

/-- `f"{implementation.__module__}:{implementation.__qualname__}"`. -/
def rawIdentity (module qualname : Str) : Str := module ++ 58 :: qualname

/-- `hashlib.sha256(...).hexdigest()[:16]`. -/
def shortDigest (sha256 : Bytes → Digest) (b : Bytes) : Str := (sha256 b).1.take 16

/-- The owner of an identity that is no token itself. -/
def derivedOwner (raw digest : Str) : Str :=
  let readable := orFeature (stripEdges (subUnsafe false raw))
  let suffix := 64 :: digest
  orFeature ((readable.take (256 - suffix.length)).rdropWhile isEdge) ++ suffix

/-- `implementation_contribution_owner`. -/
def implementationContributionOwner (sha256 : Bytes → Digest) (module qualname : Str) :
    Except OwnerError Str :=
  match stableToken (rawIdentity module qualname) with
  | .ok token => .ok token
  | .error _ =>
    match encodeUtf8 (rawIdentity module qualname) with
    | none => .error .unicodeEncode
    | some b => stableToken (derivedOwner (rawIdentity module qualname) (shortDigest sha256 b))

/-- A text that begins with a letter or a digit and has only characters of a token. -/
structure Readable (s : Str) : Prop where
  head : ∃ c ∈ s.head?, isAlnum c = true
  chars : ∀ c ∈ s, isIdentityChar c = true

theorem isEdge_of_isAlnum {c : Nat} (h : isAlnum c = true) : isEdge c = false := by
  simp only [isAlnum, Bool.or_eq_true, Bool.and_eq_true, decide_eq_true_eq] at h
  simp only [isEdge, Bool.or_eq_false_iff, beq_eq_false_iff_ne]
  omega

theorem isAlnum_of_isHex {c : Nat} (h : isHex c = true) : isAlnum c = true := by
  simp only [isHex, Bool.or_eq_true, Bool.and_eq_true, decide_eq_true_eq] at h
  simp only [isAlnum, Bool.or_eq_true, Bool.and_eq_true, decide_eq_true_eq]
  omega

theorem subUnsafe_chars (inRun : Bool) (s : Str) : ∀ c ∈ subUnsafe inRun s, isIdentityChar c = true := by
  induction s generalizing inRun with
  | nil => simp [subUnsafe]
  | cons c s ih =>
    unfold subUnsafe
    split
    · rename_i hc
      exact List.forall_mem_cons.2 ⟨hc, ih false⟩
    · split
      · exact ih true
      · exact List.forall_mem_cons.2 ⟨rfl, ih true⟩

theorem orFeature_readable {s : Str} (h : s ≠ [] → Readable s) : Readable (orFeature s) := by
  unfold orFeature
  split
  · constructor
    · exact ⟨102, rfl, rfl⟩
    · decide
  · rename_i hs
    exact h hs

theorem orFeature_length {s : Str} {n : Nat} (hn : 7 ≤ n) (hs : s.length ≤ n) :
    (orFeature s).length ≤ n := by
  unfold orFeature
  split
  · exact hn
  · exact hs

/-- Dropping edges at the end keeps the letter or digit at the beginning. -/
theorem Readable.rdropWhile {s : Str} (h : Readable s) : Readable (s.rdropWhile isEdge) := by
  obtain ⟨c, hc, halnum⟩ := h.head
  obtain ⟨s, rfl⟩ := List.head?_eq_some_iff.1 hc
  have hstarts := List.rdropWhile_prefix isEdge (c :: s)
  have hne : (c :: s).rdropWhile isEdge ≠ [] := by
    intro hnil
    have hall := (List.rdropWhile_eq_nil_iff (p := isEdge)).1 hnil c List.mem_cons_self
    rw [isEdge_of_isAlnum halnum] at hall
    cases hall
  constructor
  · obtain ⟨d, t, ht⟩ := List.exists_cons_of_ne_nil hne
    rw [ht] at hstarts ⊢
    obtain rfl := (List.cons_prefix_cons.1 hstarts).1
    exact ⟨d, rfl, halnum⟩
  · intro d hd
    exact h.chars d (hstarts.subset hd)

theorem Readable.take {s : Str} (h : Readable s) (n : Nat) : Readable (s.take (n + 1)) := by
  obtain ⟨c, hc, halnum⟩ := h.head
  obtain ⟨s, rfl⟩ := List.head?_eq_some_iff.1 hc
  constructor
  · exact ⟨c, rfl, halnum⟩
  · intro d hd
    exact h.chars d (List.mem_of_mem_take hd)

/-- What is left of a stripped text begins with a letter or a digit. -/
theorem stripEdges_readable {s : Str} (hchars : ∀ c ∈ s, isIdentityChar c = true)
    (hne : stripEdges s ≠ []) : Readable (stripEdges s) := by
  unfold stripEdges at hne ⊢
  have hdrop : Readable (s.dropWhile isEdge) := by
    have hsub := (List.dropWhile_suffix isEdge (l := s)).subset
    cases hs : s.dropWhile isEdge with
    | nil =>
      rw [hs] at hne
      exact absurd (List.rdropWhile_nil isEdge) hne
    | cons c t =>
      rw [hs] at hsub
      have hedge := List.head?_dropWhile_not isEdge s
      rw [hs] at hedge
      have hc := hchars c (hsub List.mem_cons_self)
      simp only [isIdentityChar, Bool.or_eq_true] at hc
      constructor
      · exact ⟨c, rfl, hc.resolve_right (by simpa using hedge)⟩
      · intro d hd
        exact hchars d (hsub hd)
  exact hdrop.rdropWhile

theorem shortDigest_length (sha256 : Bytes → Digest) (b : Bytes) :
    (shortDigest sha256 b).length = 16 := by
  have h := (sha256 b).2
  simp only [isDigest, Bool.and_eq_true, beq_iff_eq] at h
  rw [shortDigest, List.length_take, h.1]
  rfl

theorem shortDigest_alnum (sha256 : Bytes → Digest) (b : Bytes) :
    ∀ c ∈ shortDigest sha256 b, isAlnum c = true := by
  intro c hc
  have h := (sha256 b).2
  simp only [isDigest, Bool.and_eq_true, List.all_eq_true] at h
  exact isAlnum_of_isHex (h.2 c (List.mem_of_mem_take hc))

/-- A readable text, an at sign and a digest make a token. -/
theorem isStableToken_suffixed {s digest : Str} (hs : Readable s) (hlen : s.length ≤ 239)
    (hdigest : digest.length = 16) (halnum : ∀ c ∈ digest, isAlnum c = true) :
    isStableToken (s ++ 64 :: digest) = true := by
  obtain ⟨c, hc, hhead⟩ := hs.head
  obtain ⟨t, rfl⟩ := List.head?_eq_some_iff.1 hc
  have hne : digest ≠ [] := by
    intro hnil
    rw [hnil] at hdigest
    cases hdigest
  have hlast : (c :: t ++ 64 :: digest).getLast? = some (digest.getLast hne) := by
    rw [List.getLast?_append, List.getLast?_cons_of_ne_nil hne, List.getLast?_eq_some_getLast hne]
    rfl
  have hchars : ∀ d ∈ c :: t ++ 64 :: digest, isIdentityChar d = true := by
    intro d hd
    rcases List.mem_append.1 hd with hd | hd
    · exact hs.chars d hd
    · rcases List.mem_cons.1 hd with rfl | hd
      · rfl
      · rw [isIdentityChar, halnum d hd]
        rfl
  unfold isStableToken
  rw [hlast]
  simp only [Bool.and_eq_true, decide_eq_true_eq, List.all_eq_true]
  refine ⟨⟨⟨?_, hhead⟩, halnum _ (List.getLast_mem hne)⟩, ?_⟩
  · simp only [List.length_append, List.length_cons] at hlen ⊢
    omega
  · intro d hd
    have h := hchars d hd
    simp only [isIdentityChar, isEdge, Bool.or_eq_true] at h ⊢
    tauto

theorem derivedOwner_spec (sha256 : Bytes → Digest) (raw : Str) (b : Bytes) :
    ∃ readable, derivedOwner raw (shortDigest sha256 b) =
        readable ++ 64 :: shortDigest sha256 b ∧
      isStableToken (derivedOwner raw (shortDigest sha256 b)) = true := by
  have hlen := shortDigest_length sha256 b
  have hfirst : Readable (orFeature (stripEdges (subUnsafe false raw))) :=
    orFeature_readable (stripEdges_readable (subUnsafe_chars false raw))
  have hcut := (hfirst.take 238).rdropWhile
  have hreadable := orFeature_readable fun _ => hcut
  refine ⟨_, rfl, ?_⟩
  unfold derivedOwner
  simp only [List.length_cons, hlen]
  apply isStableToken_suffixed hreadable ?_ hlen (shortDigest_alnum sha256 b)
  apply orFeature_length
  · decide
  · have hstarts := List.rdropWhile_prefix isEdge
      ((orFeature (stripEdges (subUnsafe false raw))).take 239)
    apply hstarts.length_le.trans
    rw [List.length_take]
    exact Nat.min_le_left ..

theorem implementationContributionOwner_raw (sha256 : Bytes → Digest) {module qualname : Str}
    (h : isStableToken (rawIdentity module qualname) = true) :
    implementationContributionOwner sha256 module qualname = .ok (rawIdentity module qualname) := by
  simp [implementationContributionOwner, stableToken, h]

/-- An owner is the identity itself or one derived from it, which carries the digest. -/
theorem implementationContributionOwner_cases (sha256 : Bytes → Digest) {module qualname : Str}
    {b : Bytes} (hb : encodeUtf8 (rawIdentity module qualname) = some b) :
    ∃ owner, implementationContributionOwner sha256 module qualname = .ok owner ∧
      isStableToken owner = true ∧
      (owner = rawIdentity module qualname ∨
        ∃ readable, owner = readable ++ 64 :: shortDigest sha256 b) := by
  by_cases h : isStableToken (rawIdentity module qualname) = true
  · exact ⟨_, implementationContributionOwner_raw sha256 h, h, .inl rfl⟩
  · obtain ⟨readable, hreadable, htoken⟩ :=
      derivedOwner_spec sha256 (rawIdentity module qualname) b
    refine ⟨derivedOwner (rawIdentity module qualname) (shortDigest sha256 b), ?_, htoken,
      .inr ⟨readable, hreadable⟩⟩
    simp [implementationContributionOwner, stableToken, h, hb, htoken]

/-- Every encodable identity has an owner, a token that is the identity wherever that is one; and
the owners of two identities without an at sign differ, unless the short digests collide. -/
theorem contribution_owner_identity (sha256 : Bytes → Digest) :
    (∀ (module qualname : Str) (b : Bytes), encodeUtf8 (rawIdentity module qualname) = some b →
      ∃ owner, implementationContributionOwner sha256 module qualname = .ok owner ∧
        isStableToken owner = true ∧ owner.length ≤ 256 ∧
        (isStableToken (rawIdentity module qualname) = true →
          owner = rawIdentity module qualname)) ∧
    (∀ (module qualname module' qualname' owner owner' : Str) (b b' : Bytes),
      encodeUtf8 (rawIdentity module qualname) = some b →
      encodeUtf8 (rawIdentity module' qualname') = some b' →
      implementationContributionOwner sha256 module qualname = .ok owner →
      implementationContributionOwner sha256 module' qualname' = .ok owner' →
      rawIdentity module qualname ≠ rawIdentity module' qualname' →
      64 ∉ rawIdentity module qualname → 64 ∉ rawIdentity module' qualname' →
      owner ≠ owner' ∨ shortDigest sha256 b = shortDigest sha256 b') := by
  constructor
  · intro module qualname b hb
    obtain ⟨owner, howner, htoken, -⟩ := implementationContributionOwner_cases sha256 hb
    refine ⟨owner, howner, htoken, ?_, ?_⟩
    · simp only [isStableToken, Bool.and_eq_true, decide_eq_true_eq] at htoken
      exact htoken.1.1.1
    · intro hraw
      rw [implementationContributionOwner_raw sha256 hraw] at howner
      exact (Except.ok.inj howner).symm
  · intro module qualname module' qualname' owner owner' b b' hb hb' howner howner' hne hat hat'
    obtain ⟨o, ho, -, hcase⟩ := implementationContributionOwner_cases sha256 hb
    obtain ⟨o', ho', -, hcase'⟩ := implementationContributionOwner_cases sha256 hb'
    obtain rfl := Except.ok.inj (howner.symm.trans ho)
    obtain rfl := Except.ok.inj (howner'.symm.trans ho')
    rcases hcase with hcase | ⟨readable, hcase⟩ <;> rcases hcase' with hcase' | ⟨readable', hcase'⟩
    · left
      rw [hcase, hcase']
      exact hne
    · left
      rintro rfl
      apply hat
      rw [← hcase, hcase']
      simp
    · left
      rintro rfl
      apply hat'
      rw [← hcase', hcase]
      simp
    · by_cases heq : owner = owner'
      · right
        have hlen : (64 :: shortDigest sha256 b).length = (64 :: shortDigest sha256 b').length := by
          rw [List.length_cons, List.length_cons, shortDigest_length, shortDigest_length]
        have hsuffix := (List.append_inj' (hcase.symm.trans (heq.trans hcase')) hlen).2
        exact (List.cons.inj hsuffix).2
      · exact .inl heq

end KestrelSdk.Features

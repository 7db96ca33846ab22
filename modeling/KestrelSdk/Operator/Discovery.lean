import KestrelSdk.Features.Setup
import KestrelSdk.Validation.SemanticVersion

namespace KestrelSdk.Operator

open Json (Str str)
open Features (isStableToken)
open Validation (semanticVersion semanticVersionParts ValidSemver releaseText
  releaseText_injective semanticVersionParts_release semanticVersion_grammar
  semanticVersion_ok_iff hyphen_iff release_of_fullmatch)

inductive ServiceScope where
  | host
  | agent
  deriving DecidableEq

/-- The identity of a service contract, past `__post_init__`. -/
structure ServiceDescriptor where
  name : Str
  version : Str
  scope : ServiceScope
  name_token : isStableToken name = true
  version_semantic : semanticVersion (.str version) (str "version") true false = .ok version

/-- `_validate_scope_agent`. -/
def ScopeAgent (scope : ServiceScope) (agent_id : Option Str) : Prop :=
  match scope, agent_id with
  | .agent, some agent => isStableToken agent = true
  | .agent, none => False
  | .host, agent => agent = none

/-- A lookup for a minimum version, past `__post_init__`. -/
structure ServiceRequirement where
  name : Str
  minimum_version : Str
  scope : ServiceScope
  agent_id : Option Str
  name_token : isStableToken name = true
  minimum_semantic : semanticVersion (.str minimum_version) (str "minimum_version") false false =
    .ok minimum_version
  agent : ScopeAgent scope agent_id

/-- `candidate >= required` on tuples of three. -/
def tupleGe (candidate required : Nat × Nat × Nat) : Bool :=
  if candidate.1 ≠ required.1 then required.1 < candidate.1
  else if candidate.2.1 ≠ required.2.1 then required.2.1 < candidate.2.1
  else required.2.2 ≤ candidate.2.2

/-- `none` is an argument that is no `ServiceDescriptor`. -/
def ServiceRequirement.accepts (r : ServiceRequirement) :
    Option ServiceDescriptor → Except Str Bool
  | none => .ok false
  | some descriptor => do
    if descriptor.name ≠ r.name ∨ descriptor.scope ≠ r.scope then return false
    if 45 ∈ descriptor.version then return false
    let required ← semanticVersionParts r.minimum_version
    let candidate ← semanticVersionParts descriptor.version
    let same_compatibility_line :=
      candidate.1 == required.1 && (required.1 != 0 || candidate.2.1 == required.2.1)
    return same_compatibility_line && tupleGe candidate required

/-! Compatibility of releases. -/

structure Release where
  major : Nat
  minor : Nat
  patch : Nat
  deriving DecidableEq

namespace Release

def text (v : Release) : Str := releaseText v.major v.minor v.patch

theorem text_injective {v w : Release} (h : v.text = w.text) : v = w := by
  obtain ⟨hmajor, hminor, hpatch⟩ := releaseText_injective h
  cases v
  cases w
  simp only [mk.injEq]
  exact ⟨hmajor, hminor, hpatch⟩

def key (v : Release) : ℕ ×ₗ ℕ ×ₗ ℕ := toLex (v.major, toLex (v.minor, v.patch))

/-- The lexicographic order of the triples. -/
instance : Preorder Release := Preorder.lift key

theorem le_iff {v w : Release} : v ≤ w ↔ v.major < w.major ∨ v.major = w.major ∧
    (v.minor < w.minor ∨ v.minor = w.minor ∧ v.patch ≤ w.patch) := by
  change key v ≤ key w ↔ _
  rw [key, key, Prod.Lex.toLex_le_toLex, Prod.Lex.toLex_le_toLex]

theorem tupleGe_iff {v w : Release} :
    tupleGe (v.major, v.minor, v.patch) (w.major, w.minor, w.patch) = true ↔ w ≤ v := by
  rw [le_iff, tupleGe]
  dsimp only
  split_ifs with hmajor hminor
  · rw [decide_eq_true_eq]
    omega
  · rw [decide_eq_true_eq]
    omega
  · rw [decide_eq_true_eq]
    omega

/-- One compatibility line: the same major, and in the line of major zero the same minor. -/
def SameLine (v w : Release) : Prop := v.major = w.major ∧ (v.major = 0 → v.minor = w.minor)

theorem SameLine.refl (v : Release) : SameLine v v := ⟨rfl, fun _ => rfl⟩

theorem SameLine.trans {u v w : Release} (h : SameLine u v) (h' : SameLine v w) :
    SameLine u w := by
  refine ⟨h.1.trans h'.1, ?_⟩
  intro hzero
  have hv : v.major = 0 := by
    rw [← h.1]
    exact hzero
  rw [h.2 hzero, h'.2 hv]

end Release

/-- A minimum version is a release. -/
theorem ServiceRequirement.release (r : ServiceRequirement) :
    ∃ w : Release, r.minimum_version = w.text := by
  obtain ⟨-, -, m, hm, hpre, hbuild⟩ := semanticVersion_ok_iff.1 r.minimum_semantic
  obtain ⟨a, b, c, htext⟩ := release_of_fullmatch hm (hpre rfl) (hbuild rfl)
  exact ⟨⟨a, b, c⟩, htext⟩

/-- The hyphen of a registered version tells that it is no release. -/
theorem ServiceDescriptor.stable_iff (d : ServiceDescriptor) :
    45 ∉ d.version ↔ ∃ v : Release, d.version = v.text := by
  obtain ⟨-, -, m, hm, -, hbuild⟩ := semanticVersion_ok_iff.1 d.version_semantic
  rw [hyphen_iff hm (hbuild rfl), not_not]
  constructor
  · rintro ⟨a, b, c, htext⟩
    exact ⟨⟨a, b, c⟩, htext⟩
  · rintro ⟨v, htext⟩
    exact ⟨v.major, v.minor, v.patch, htext⟩

/-- A candidate of the name, the scope and the line, and no older than the minimum. -/
def Compatible (r : ServiceRequirement) (d : ServiceDescriptor) : Prop :=
  d.name = r.name ∧ d.scope = r.scope ∧ ∃ w v : Release, r.minimum_version = w.text ∧
    d.version = v.text ∧ w.SameLine v ∧ w ≤ v

theorem accepts_spec (r : ServiceRequirement) (d : ServiceDescriptor) :
    ∃ b, r.accepts (some d) = .ok b ∧ (b = true ↔ Compatible r d) := by
  rw [ServiceRequirement.accepts]
  by_cases hsame : d.name ≠ r.name ∨ d.scope ≠ r.scope
  · rw [if_pos hsame]
    refine ⟨false, rfl, ?_⟩
    constructor
    · intro h
      cases h
    · rintro ⟨hname, hscope, -⟩
      rcases hsame with h | h
      · exact absurd hname h
      · exact absurd hscope h
  · rw [if_neg hsame]
    obtain ⟨hname, hscope⟩ := not_or.1 hsame
    by_cases hpre : 45 ∈ d.version
    · rw [if_pos hpre]
      refine ⟨false, rfl, ?_⟩
      constructor
      · intro h
        cases h
      · rintro ⟨-, -, -, v, -, htext, -⟩
        exact absurd hpre (d.stable_iff.2 ⟨v, htext⟩)
    · rw [if_neg hpre]
      obtain ⟨w, hw⟩ := r.release
      obtain ⟨v, hv⟩ := d.stable_iff.1 hpre
      have hrequired := semanticVersionParts_release w.major w.minor w.patch
      have hcandidate := semanticVersionParts_release v.major v.minor v.patch
      rw [← Release.text, ← hw] at hrequired
      rw [← Release.text, ← hv] at hcandidate
      simp only [hrequired, hcandidate, bind, Except.bind]
      refine ⟨_, rfl, ?_⟩
      have hline : (v.major == w.major && (w.major != 0 || v.minor == w.minor)) = true ↔
          w.SameLine v := by
        rw [Bool.and_eq_true, Bool.or_eq_true, beq_iff_eq, bne_iff_ne, beq_iff_eq,
          Release.SameLine]
        omega
      rw [Bool.and_eq_true, hline, Release.tupleGe_iff]
      constructor
      · rintro ⟨hsl, hle⟩
        exact ⟨not_not.1 hname, not_not.1 hscope, w, v, hw, hv, hsl, hle⟩
      · rintro ⟨-, -, w', v', hw', hv', hsl, hle⟩
        have hww : w' = w := Release.text_injective (hw'.symm.trans hw)
        have hvv : v' = v := Release.text_injective (hv'.symm.trans hv)
        rw [hww, hvv] at hsl hle
        exact ⟨hsl, hle⟩

theorem accepts_iff {r : ServiceRequirement} {d : ServiceDescriptor} :
    r.accepts (some d) = .ok true ↔ Compatible r d := by
  obtain ⟨b, hb, hspec⟩ := accepts_spec r d
  rw [hb, Except.ok.injEq, hspec]

/-- A release meets the requirement of its own version. -/
theorem Compatible.refl {r : ServiceRequirement} {d : ServiceDescriptor} (hname : d.name = r.name)
    (hscope : d.scope = r.scope) (hversion : d.version = r.minimum_version) : Compatible r d := by
  obtain ⟨w, hw⟩ := r.release
  exact ⟨hname, hscope, w, w, hw, hversion.trans hw, .refl w, Preorder.le_refl w⟩

/-- What is on the line of a candidate and no older than it is a candidate too. -/
theorem Compatible.upward {r : ServiceRequirement} {d d' : ServiceDescriptor}
    (h : Compatible r d) (hname : d'.name = d.name) (hscope : d'.scope = d.scope)
    {v v' : Release} (hv : d.version = v.text) (hv' : d'.version = v'.text)
    (hline : v.SameLine v') (hle : v ≤ v') : Compatible r d' := by
  obtain ⟨hrname, hrscope, w, u, hw, hu, hsl, hwu⟩ := h
  have huv : u = v := Release.text_injective (hu.symm.trans hv)
  rw [huv] at hsl hwu
  exact ⟨hname.trans hrname, hscope.trans hrscope, w, v', hw, hv', hsl.trans hline,
    hwu.trans hle⟩

/-- Acceptance goes through the requirement of a candidate's version. -/
theorem Compatible.trans {r r' : ServiceRequirement} {d d' : ServiceDescriptor}
    (h : Compatible r d) (h' : Compatible r' d') (hname : r'.name = d.name)
    (hscope : r'.scope = d.scope) (hminimum : r'.minimum_version = d.version) :
    Compatible r d' := by
  obtain ⟨hn, hs, w, v, hw, hv, hsl, hle⟩ := h'
  exact h.upward (hn.trans hname) (hs.trans hscope) (hminimum.symm.trans hw) hv hsl hle

/-- `semantic_version` takes the texts of the grammar within the bound, and a requirement accepts
exactly the compatible releases: reflexively, transitively and upwards on a line. -/
theorem service_version_compatibility (r : ServiceRequirement) (d : ServiceDescriptor) :
    (∀ value field_name s, semanticVersion value field_name true true = .ok s ↔
      value = .str s ∧ ValidSemver s ∧ s.length ≤ 128) ∧
    (∃ b, r.accepts (some d) = .ok b ∧ (b = true ↔ Compatible r d)) ∧
    (d.name = r.name → d.scope = r.scope → d.version = r.minimum_version →
      r.accepts (some d) = .ok true) ∧
    (∀ (r' : ServiceRequirement) (d' : ServiceDescriptor), r.accepts (some d) = .ok true →
      r'.name = d.name → r'.scope = d.scope → r'.minimum_version = d.version →
      r'.accepts (some d') = .ok true → r.accepts (some d') = .ok true) ∧
    (∀ (d' : ServiceDescriptor) (v v' : Release), r.accepts (some d) = .ok true →
      d'.name = d.name → d'.scope = d.scope → d.version = v.text → d'.version = v'.text →
      v.SameLine v' → v ≤ v' → r.accepts (some d') = .ok true) := by
  refine ⟨semanticVersion_grammar, accepts_spec r d, ?_, ?_, ?_⟩
  · intro hname hscope hversion
    exact accepts_iff.2 (Compatible.refl hname hscope hversion)
  · intro r' d' hd hname hscope hminimum hd'
    apply accepts_iff.2
    exact (accepts_iff.1 hd).trans (accepts_iff.1 hd') hname hscope hminimum
  · intro d' v v' hd hname hscope hv hv' hline hle
    apply accepts_iff.2
    exact (accepts_iff.1 hd).upward hname hscope hv hv' hline hle

end KestrelSdk.Operator

import KestrelSdk.Artifacts.Paths
import KestrelSdk.ComputerUse.Payload
import Mathlib.Data.Finset.Card
import Mathlib.Data.List.Sort

/-! The manifest of an artifact: a tree of files, and its digest. -/

namespace KestrelSdk.Artifacts

open Json
open ComputerUse (Digest isDigest canonical entry field_eq)

/-- The first character of a type or subtype. -/
def isMediaHead (c : Nat) : Bool := (97 ≤ c && c ≤ 122) || isDigit c

def isMediaChar (c : Nat) : Bool := isMediaHead c || (str "!#$&^_.+-").contains c

/-- `[a-z0-9][a-z0-9!#$&^_.+-]*`. -/
def isMediaName (s : Str) : Bool := s.head?.any isMediaHead && s.all isMediaChar

/-- The pattern and the length of `MediaType`. -/
def isMediaType (s : Str) : Bool :=
  s.length ≤ 255 &&
    match s.splitOn 47 with
    | [type, subtype] => isMediaName type && isMediaName subtype
    | _ => false

/-- One file, whose path is a Python string. -/
structure ArtifactFile where
  path : Str
  sha256 : Str
  size_bytes : Int
  media_type : Str
  points : ∀ c ∈ path, c < 0x110000
  deriving DecidableEq

structure ArtifactManifest where
  files : List ArtifactFile
  entrypoint : Str
  deriving DecidableEq

variable (u : Unicode)

/-- The validation of the fields of a file. -/
def ArtifactFile.valid (f : ArtifactFile) : Bool :=
  containedPath u f.path && isDigest f.sha256 && 0 ≤ f.size_bytes && isMediaType f.media_type

namespace ArtifactManifest

variable (m : ArtifactManifest)

/-- `{item.path.casefold() for item in self.files}`. -/
def foldedPaths : Finset Str := (m.files.map fun item => casefold u item.path).toFinset

/-- `unique_complete_paths`. -/
def uniqueCompletePaths : Except String Unit :=
  if (m.foldedPaths u).card ≠ m.files.length then
    .error "artifact manifest contains duplicate paths"
  else if m.entrypoint ∉ m.files.map ArtifactFile.path then
    .error "artifact entrypoint must identify a manifest file"
  else if ∃ path ∈ m.foldedPaths u,
      ∃ parent ∈ (PurePosixPath.parse path).parents, parent.text ∈ m.foldedPaths u then
    .error "artifact path cannot be both a file and directory"
  else .ok ()

/-- The validation of a manifest: its fields, the files among them, then the paths together. -/
def validates : Bool :=
  !m.files.isEmpty && m.files.length ≤ 1024 && m.files.all (·.valid u) &&
    (m.uniqueCompletePaths u).toBool

/-- What a manifest is: files by distinct paths, none of them a directory of another, and the file
to enter by; up to case folding. -/
structure IsTree : Prop where
  distinct : (m.files.map fun f => casefold u f.path).Nodup
  files : ∀ f ∈ m.files, ∀ g ∈ m.files, ¬ IsDirectoryOf (casefold u f.path) (casefold u g.path)
  contained : ∀ f ∈ m.files, Contained f.path
  entrypoint : m.entrypoint ∈ m.files.map ArtifactFile.path

theorem card_foldedPaths :
    (m.foldedPaths u).card = m.files.length ↔
      (m.files.map fun f => casefold u f.path).Nodup := by
  have h := Multiset.toFinset_card_eq_card_iff_nodup
    (m := (↑(m.files.map fun f => casefold u f.path) : Multiset Str))
  rw [Multiset.coe_card, List.length_map, Multiset.coe_nodup] at h
  exact h

variable {m}

theorem mem_foldedPaths {s : Str} :
    s ∈ m.foldedPaths u ↔ ∃ f ∈ m.files, casefold u f.path = s := by
  rw [foldedPaths, List.mem_toFinset, List.mem_map]

/-- Where the paths are contained, a parent among them is a directory of the file. -/
theorem clash_iff (h : ∀ f ∈ m.files, Contained f.path) :
    (∃ path ∈ m.foldedPaths u,
      ∃ parent ∈ (PurePosixPath.parse path).parents, parent.text ∈ m.foldedPaths u) ↔
    ∃ f ∈ m.files, ∃ g ∈ m.files, IsDirectoryOf (casefold u f.path) (casefold u g.path) := by
  constructor
  · rintro ⟨path, hpath, parent, hparent, htext⟩
    obtain ⟨g, hg, rfl⟩ := (mem_foldedPaths u).1 hpath
    obtain ⟨f, hf, hfold⟩ := (mem_foldedPaths u).1 htext
    refine ⟨f, hf, g, hg, ?_⟩
    apply (mem_parents_text_iff ((h f hf).casefold u) ((h g hg).casefold u)).1
    rw [hfold]
    exact List.mem_map_of_mem hparent
  · rintro ⟨f, hf, g, hg, hdir⟩
    have hmem := (mem_parents_text_iff ((h f hf).casefold u) ((h g hg).casefold u)).2 hdir
    obtain ⟨parent, hparent, htext⟩ := List.mem_map.1 hmem
    refine ⟨casefold u g.path, (mem_foldedPaths u).2 ⟨g, hg, rfl⟩, parent, hparent, ?_⟩
    exact (mem_foldedPaths u).2 ⟨f, hf, htext.symm⟩

theorem valid_contained {f : ArtifactFile} (h : f.valid u = true) : Contained f.path := by
  simp only [ArtifactFile.valid, Bool.and_eq_true] at h
  exact contained_of_containedPath u h.1.1.1

theorem uniqueCompletePaths_iff (h : ∀ f ∈ m.files, f.valid u = true) :
    (m.uniqueCompletePaths u).toBool = true ↔ m.IsTree u := by
  have hcontained : ∀ f ∈ m.files, Contained f.path := fun f hf => valid_contained u (h f hf)
  have hclash := clash_iff u hcontained
  unfold uniqueCompletePaths
  constructor
  · intro hok
    split at hok
    · cases hok
    · split at hok
      · cases hok
      · split at hok
        · cases hok
        · rename_i hcard hentry hno
          refine ⟨(card_foldedPaths u m).1 (not_not.1 hcard), ?_, hcontained, not_not.1 hentry⟩
          intro f hf g hg hdir
          exact hno (hclash.2 ⟨f, hf, g, hg, hdir⟩)
  · intro htree
    have hcard := (card_foldedPaths u m).2 htree.distinct
    rw [if_neg (not_not.2 hcard), if_neg (not_not.2 htree.entrypoint), if_neg]
    · rfl
    · rw [hclash]
      rintro ⟨f, hf, g, hg, hdir⟩
      exact htree.files f hf g hg hdir

/-- A manifest validates exactly when it has between one and 1024 valid files that make a tree. -/
theorem validates_iff : m.validates u = true ↔
    m.files ≠ [] ∧ m.files.length ≤ 1024 ∧ (∀ f ∈ m.files, f.valid u = true) ∧ m.IsTree u := by
  simp only [validates, Bool.and_eq_true, Bool.not_eq_true', List.isEmpty_eq_false_iff,
    decide_eq_true_eq, List.all_eq_true, and_assoc]
  apply and_congr_right
  intro _
  apply and_congr_right
  intro _
  apply and_congr_right
  intro hvalid
  exact uniqueCompletePaths_iff u hvalid

end ArtifactManifest

/-! The digest. -/

def ArtifactFile.modelDump (f : ArtifactFile) : Dict :=
  [entry "schema_version" (.int 1), entry "path" (.str f.path), entry "sha256" (.str f.sha256),
    entry "size_bytes" (.int f.size_bytes), entry "media_type" (.str f.media_type)]

/-- The files in the order of their paths. -/
def sortedFiles (files : List ArtifactFile) : List ArtifactFile :=
  files.insertionSort fun f g => f.path ≤ g.path

namespace ArtifactManifest

variable {u}
variable (json : Interpreter) (sha256 : Bytes → Digest) (m : ArtifactManifest)

/-- The payload of `digest`: the dump, with its files in the order of their paths. -/
def payload : Dict :=
  [entry "schema_version" (.int 1),
    entry "files" (.list ((sortedFiles m.files).map fun f => .dict f.modelDump)),
    entry "entrypoint" (.str m.entrypoint)]

/-- The text that `digest` covers; none where `json.dumps` raises. -/
def content : Option Bytes := canonical json (.dict m.payload)

/-- `digest`. -/
def digest : Option Digest := (m.content json).map sha256

end ArtifactManifest

theorem sortItems_map {α : Type} (dump : α → Value) (l : List α) :
    sortItems (l.map dump) = l.map fun a => sortKeys (dump a) := by
  induction l with
  | nil => rfl
  | cons a l ih =>
    rw [List.map_cons, List.map_cons, ← ih]
    rfl

theorem ArtifactFile.modelDump_nodup (f : ArtifactFile) : (f.modelDump.map Prod.fst).Nodup := by
  have hkeys : f.modelDump.map Prod.fst = [.str (str "schema_version"), .str (str "path"),
      .str (str "sha256"), .str (str "size_bytes"), .str (str "media_type")] := rfl
  rw [hkeys]
  decide

theorem ArtifactFile.modelDump_injective {f g : ArtifactFile}
    (h : sortKeys (.dict f.modelDump) = sortKeys (.dict g.modelDump)) : f = g := by
  have hfield := field_eq f.modelDump_nodup g.modelDump_nodup h
  have hpath := Value.str.inj (Option.some.inj (hfield "path"))
  have hsha := Value.str.inj (Option.some.inj (hfield "sha256"))
  have hsize := Value.int.inj (Option.some.inj (hfield "size_bytes"))
  have hmedia := Value.str.inj (Option.some.inj (hfield "media_type"))
  obtain ⟨path, sha, size, media, points⟩ := f
  obtain ⟨path', sha', size', media', points'⟩ := g
  dsimp only at hpath hsha hsize hmedia
  subst hpath hsha hsize hmedia
  rfl

namespace ArtifactManifest

variable {u : Unicode} {m m' : ArtifactManifest}

theorem payload_nodup (m : ArtifactManifest) : (m.payload.map Prod.fst).Nodup := by
  have hkeys : m.payload.map Prod.fst =
      [.str (str "schema_version"), .str (str "files"), .str (str "entrypoint")] := rfl
  rw [hkeys]
  decide

/-- The payload tells the files, in any order, and the entrypoint. -/
theorem payload_injective (h : sortKeys (.dict m.payload) = sortKeys (.dict m'.payload)) :
    m.files.Perm m'.files ∧ m.entrypoint = m'.entrypoint := by
  have hfield := field_eq (payload_nodup m) (payload_nodup m') h
  have hfiles := Value.list.inj (Option.some.inj (hfield "files"))
  have hentry := Value.str.inj (Option.some.inj (hfield "entrypoint"))
  rw [sortItems_map, sortItems_map] at hfiles
  have hsorted : sortedFiles m.files = sortedFiles m'.files :=
    List.map_injective_iff.2 (fun f g hfg => ArtifactFile.modelDump_injective hfg) hfiles
  refine ⟨?_, hentry⟩
  have hperm := (List.perm_insertionSort (fun f g : ArtifactFile => f.path ≤ g.path) m.files).symm
  rw [← sortedFiles, hsorted] at hperm
  exact hperm.trans (List.perm_insertionSort _ m'.files)

end ArtifactManifest

end KestrelSdk.Artifacts

import KestrelSdk.Artifacts.Manifest
import KestrelSdk.Encoding.Url

/-! Export requests of a workspace, and the snapshots that answer them. -/

namespace KestrelSdk.Workspaces

open Json (Str str)
open Artifacts

/-- Limits that passed `consistent_bounds`. -/
structure TransferLimits where
  max_files : Nat
  max_file_bytes : Int
  max_total_bytes : Int
  files_range : 1 ≤ max_files ∧ max_files ≤ 1024
  bytes_positive : 0 < max_file_bytes ∧ 0 < max_total_bytes
  consistent_bounds : max_file_bytes ≤ max_total_bytes

/-- `check`. -/
def TransferLimits.check (limits : TransferLimits) (manifest : ArtifactManifest) :
    Except String Unit :=
  if limits.max_files < manifest.files.length ∨
      (∃ file ∈ manifest.files, limits.max_file_bytes < file.size_bytes) ∨
      limits.max_total_bytes < (manifest.files.map ArtifactFile.size_bytes).sum then
    .error "manifest exceeds authorized transfer limits"
  else .ok ()

/-- An export request, as far as its selection goes. Its paths are Python strings. -/
structure WorkspaceExportRequest where
  limits : TransferLimits
  paths : List Str
  entrypoint : Str
  points : ∀ path ∈ paths, ∀ c ∈ path, c < 0x110000

variable (u : Unicode)

namespace WorkspaceExportRequest

variable (r : WorkspaceExportRequest)

/-- `bounded_selection`. -/
def boundedSelection : Except String Unit :=
  if r.limits.max_files < r.paths.length ∨
      (r.paths.map (casefold u)).toFinset.card ≠ r.paths.length then
    .error "export selection exceeds bounds or contains aliases"
  else if r.entrypoint ∉ r.paths then .error "export entrypoint must be explicitly selected"
  else .ok ()

/-- The validation of a request. -/
def validates : Bool :=
  !r.paths.isEmpty && r.paths.length ≤ 1024 && r.paths.all (containedPath u) &&
    containedPath u r.entrypoint && (r.boundedSelection u).toBool

end WorkspaceExportRequest

structure WorkspaceSnapshot where
  request : WorkspaceExportRequest
  manifest : ArtifactManifest

namespace WorkspaceSnapshot

variable (s : WorkspaceSnapshot)

/-- `exact_selection`. -/
def exactSelection : Except String Unit := do
  s.request.limits.check s.manifest
  if s.request.paths.toFinset ≠ (s.manifest.files.map ArtifactFile.path).toFinset ∨
      s.request.entrypoint ≠ s.manifest.entrypoint then
    .error "snapshot differs from authorized file selection"
  else .ok ()

/-- The validation of a snapshot, which validates its request and its manifest again. -/
def validates : Bool :=
  s.request.validates u && s.manifest.validates u && s.exactSelection.toBool

end WorkspaceSnapshot

/-- No selected path is a directory of another, up to case folding. -/
def PrefixFree (paths : List Str) : Prop :=
  ∀ p ∈ paths, ∀ q ∈ paths, ¬ IsDirectoryOf (casefold u p) (casefold u q)

/-- A manifest answers a request: its snapshot validates, with exactly the paths of the request. -/
def Answers (r : WorkspaceExportRequest) (m : ArtifactManifest) : Prop :=
  (WorkspaceSnapshot.mk r m).validates u = true ∧ (m.files.map ArtifactFile.path).Perm r.paths ∧
    m.entrypoint = r.entrypoint

theorem TransferLimits.check_ok {limits : TransferLimits} {m : ArtifactManifest}
    (hfiles : m.files.length ≤ limits.max_files) (hempty : ∀ f ∈ m.files, f.size_bytes = 0) :
    limits.check m = .ok () := by
  have hsum : (m.files.map ArtifactFile.size_bytes).sum = 0 := by
    apply List.sum_eq_zero
    intro n hn
    obtain ⟨f, hf, rfl⟩ := List.mem_map.1 hn
    exact hempty f hf
  have hpositive := limits.bytes_positive
  unfold check
  rw [if_neg]
  rintro (hlen | ⟨f, hf, hlarge⟩ | htotal)
  · omega
  · rw [hempty f hf] at hlarge
    omega
  · rw [hsum] at htotal
    omega

theorem WorkspaceExportRequest.boundedSelection_ok {r : WorkspaceExportRequest}
    (h : (r.boundedSelection u).toBool = true) :
    r.paths.length ≤ r.limits.max_files ∧ (r.paths.map (casefold u)).Nodup ∧
      r.entrypoint ∈ r.paths := by
  unfold boundedSelection at h
  split at h
  · cases h
  · split at h
    · cases h
    · rename_i hbounds hentry
      rw [not_or, not_not, not_lt] at hbounds
      refine ⟨hbounds.1, ?_, not_not.1 hentry⟩
      have hcard := Multiset.toFinset_card_eq_card_iff_nodup
        (m := (↑(r.paths.map (casefold u)) : Multiset Str))
      rw [Multiset.coe_card, List.length_map, Multiset.coe_nodup] at hcard
      exact hcard.1 hbounds.2

/-- An empty file at a path. -/
def emptyFile (path : {path : Str // ∀ c ∈ path, c < 0x110000}) : ArtifactFile where
  path := path.1
  sha256 := List.replicate 64 48
  size_bytes := 0
  media_type := str "text/plain"
  points := path.2

/-- The manifest of empty files that a request selects. -/
def emptyManifest (r : WorkspaceExportRequest) : ArtifactManifest where
  files := (r.paths.attachWith _ r.points).map emptyFile
  entrypoint := r.entrypoint

theorem emptyManifest_paths (r : WorkspaceExportRequest) :
    (emptyManifest r).files.map ArtifactFile.path = r.paths := by
  rw [emptyManifest, List.map_map]
  exact List.attachWith_map_subtype_val r.points

theorem mem_emptyManifest {r : WorkspaceExportRequest} {f : ArtifactFile}
    (h : f ∈ (emptyManifest r).files) : ∃ path, path.1 ∈ r.paths ∧ f = emptyFile path := by
  obtain ⟨path, hpath, rfl⟩ := List.mem_map.1 h
  exact ⟨path, (List.mem_attachWith r.points path).1 hpath, rfl⟩

theorem emptyFile_valid {path : {path : Str // ∀ c ∈ path, c < 0x110000}}
    (h : containedPath u path.1 = true) : (emptyFile path).valid u = true := by
  have hdigest : ComputerUse.isDigest (List.replicate 64 48) = true := by decide
  have hmedia : isMediaType (str "text/plain") = true := by decide
  rw [ArtifactFile.valid, emptyFile, h, hdigest, hmedia]
  rfl

/-- The empty files of a prefix-free selection make a tree. -/
theorem emptyManifest_isTree {r : WorkspaceExportRequest}
    (hcontained : ∀ p ∈ r.paths, containedPath u p = true)
    (hdistinct : (r.paths.map (casefold u)).Nodup) (hentry : r.entrypoint ∈ r.paths)
    (hfree : PrefixFree u r.paths) : (emptyManifest r).IsTree u := by
  have hpath : ∀ f ∈ (emptyManifest r).files, f.path ∈ r.paths := by
    intro f hf
    rw [← emptyManifest_paths r]
    exact List.mem_map_of_mem hf
  constructor
  · have hmap : ((emptyManifest r).files.map fun f => casefold u f.path) =
        r.paths.map (casefold u) := by
      rw [← emptyManifest_paths r, List.map_map]
      rfl
    rw [hmap]
    exact hdistinct
  · intro f hf g hg
    exact hfree f.path (hpath f hf) g.path (hpath g hg)
  · intro f hf
    exact contained_of_containedPath u (hcontained f.path (hpath f hf))
  · rw [emptyManifest_paths r]
    exact hentry

/-- A prefix-free selection is answered by empty files. -/
theorem emptyManifest_answers {r : WorkspaceExportRequest} (h : r.validates u = true)
    (hfree : PrefixFree u r.paths) : Answers u r (emptyManifest r) := by
  have hvalid := h
  simp only [WorkspaceExportRequest.validates, Bool.and_eq_true, Bool.not_eq_true',
    List.isEmpty_eq_false_iff, decide_eq_true_eq, List.all_eq_true] at h
  obtain ⟨⟨⟨⟨hne, hlen⟩, hcontained⟩, -⟩, hbounded⟩ := h
  obtain ⟨hmax, hdistinct, hentry⟩ := WorkspaceExportRequest.boundedSelection_ok u hbounded
  have hfiles : (emptyManifest r).files.length = r.paths.length := by
    rw [← List.length_map ArtifactFile.path, emptyManifest_paths]
  have hmanifest : (emptyManifest r).validates u = true := by
    apply (ArtifactManifest.validates_iff u).2
    refine ⟨?_, hfiles.trans_le hlen, ?_, emptyManifest_isTree u hcontained hdistinct hentry hfree⟩
    · intro hnil
      rw [hnil] at hfiles
      exact hne (List.length_eq_zero_iff.1 hfiles.symm)
    · intro f hf
      obtain ⟨path, hpath, rfl⟩ := mem_emptyManifest hf
      exact emptyFile_valid u (hcontained path.1 hpath)
  have hcheck : r.limits.check (emptyManifest r) = .ok () := by
    apply TransferLimits.check_ok (hfiles.trans_le hmax)
    intro f hf
    obtain ⟨path, -, rfl⟩ := mem_emptyManifest hf
    rfl
  refine ⟨?_, by rw [emptyManifest_paths], rfl⟩
  have hexact : (WorkspaceSnapshot.mk r (emptyManifest r)).exactSelection = .ok () := by
    simp only [WorkspaceSnapshot.exactSelection, hcheck, emptyManifest_paths, bind, Except.bind]
    exact if_neg (by simp [emptyManifest])
  simp only [WorkspaceSnapshot.validates, hvalid, hmanifest, hexact, Bool.true_and]
  rfl

/-- A request that some manifest answers has a prefix-free selection. -/
theorem prefixFree_of_answers {r : WorkspaceExportRequest} {m : ArtifactManifest}
    (h : Answers u r m) : PrefixFree u r.paths := by
  obtain ⟨hvalid, hperm, -⟩ := h
  simp only [WorkspaceSnapshot.validates, Bool.and_eq_true] at hvalid
  obtain ⟨-, -, -, htree⟩ := (ArtifactManifest.validates_iff u).1 hvalid.1.2
  intro p hp q hq
  obtain ⟨f, hf, rfl⟩ := List.mem_map.1 (hperm.mem_iff.2 hp)
  obtain ⟨g, hg, rfl⟩ := List.mem_map.1 (hperm.mem_iff.2 hq)
  exact htree.files f hf g hg

/-- A valid export request can be answered exactly when no selected path is a directory of another. -/
theorem export_satisfiable_iff (r : WorkspaceExportRequest) (h : r.validates u = true) :
    (∃ m, Answers u r m) ↔ PrefixFree u r.paths := by
  constructor
  · rintro ⟨m, hm⟩
    exact prefixFree_of_answers u hm
  · intro hfree
    exact ⟨emptyManifest r, emptyManifest_answers u h hfree⟩

theorem lowerAscii_ne_nil (c : Nat) : [Encoding.Url.lowerAscii c] ≠ [] := List.cons_ne_nil _ _

theorem lowerAscii_separator (c : Nat) (h : c = 47 ∨ c = 46) :
    [Encoding.Url.lowerAscii c] = [c] := by
  rcases h with rfl | rfl <;> rfl

theorem of_mem_lowerAscii (c d : Nat) (hd : d ∈ [Encoding.Url.lowerAscii c])
    (hsep : d = 47 ∨ d = 46) : c = d := by
  rw [List.mem_singleton, Encoding.Url.lowerAscii] at hd
  split at hd <;> omega

/-- Case folding of ASCII. -/
def asciiUnicode : Unicode where
  caseFold c := [Encoding.Url.lowerAscii c]
  nfc s := s
  caseFold_ne_nil := lowerAscii_ne_nil
  caseFold_separator := lowerAscii_separator
  of_mem_caseFold := of_mem_lowerAscii

def sampleLimits : TransferLimits := ⟨2, 1, 1, by decide, by decide, by decide⟩

/-- `WorkspaceExportRequest(paths=("a",), entrypoint="a")`. -/
def oneFile : WorkspaceExportRequest := ⟨sampleLimits, [str "a"], str "a", by decide⟩

theorem oneFile_satisfiable : (∃ m, Answers asciiUnicode oneFile m) ↔
    PrefixFree asciiUnicode oneFile.paths :=
  export_satisfiable_iff asciiUnicode oneFile (by decide)

/-- `WorkspaceExportRequest(paths=("a", "a/b"), entrypoint="a")`. -/
def fileAndDirectory : WorkspaceExportRequest :=
  ⟨sampleLimits, [str "a", str "a/b"], str "a", by decide⟩

/-- A request for a file and for one below it validates, and no manifest answers it. -/
theorem fileAndDirectory_unanswered : fileAndDirectory.validates asciiUnicode = true ∧
    ¬ ∃ m, Answers asciiUnicode fileAndDirectory m := by
  refine ⟨by decide, ?_⟩
  rintro ⟨m, hm⟩
  have hfree := prefixFree_of_answers asciiUnicode hm
  apply hfree (str "a") (by decide) (str "a/b") (by decide)
  exact ⟨by decide, by decide⟩

end KestrelSdk.Workspaces

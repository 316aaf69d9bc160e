import SyzAbi.Orchestrator.SampledState

/-!
# The truncated flag

`sample_external_state` (`orchestrator/vm_runner.py`) for arbitrary limits and arbitrary trees of
files and directories. The listed files are always a beginning of the sorted regular files. The flag
should say that a regular file is missing. The loop tests the number of files before it looks
whether a path is a file at all, so a directory behind the last file that was still allowed sets the
flag as well (`truncatedExactly_iff`).
-/

set_option autoImplicit false
set_option relaxedAutoImplicit false

namespace SyzAbi.Orchestrator

open Library Library.PathOrder

/-! ### Trees -/

/-- The size of a regular file. -/
def WorkPath.fileSize (path : WorkPath) : Option ℕ :=
  match path.status with
  | .file size _ => some size
  | _ => none

/-- What lies below a work directory: files and other paths, all of which can be looked at. -/
structure WorkTree where
  paths : List WorkPath
  parts_ne : ∀ path ∈ paths, path.parts ≠ []
  slash_not_mem : ∀ path ∈ paths, ∀ name ∈ path.parts, 47 ∉ name
  nodup : (paths.map WorkPath.parts).Nodup
  readable : ∀ path ∈ paths, path.status ≠ .noStat

namespace WorkTree

variable (tree : WorkTree)

/-- The sizes of the regular files. -/
def fileSizes : List ℕ := tree.paths.filterMap WorkPath.fileSize

/-- The regular files in the order of their paths. -/
def sortedFiles (sha256 : List UInt8 → String) (limits : StateLimits) : List FileItem :=
  (tree.paths.mergeSort partsLe).filterMap (regularItem sha256 limits)

/-- A path that is no regular file comes behind all regular files. -/
def EndsWithoutFile : Prop :=
  ∃ path ∈ tree.paths, path.fileSize = none ∧
    ∀ file ∈ tree.paths, file.fileSize ≠ none → file.parts < path.parts

/-- The listed files are a beginning of the sorted files, and the flag says that one is missing. -/
structure TruncatedExactly (sha256 : List UInt8 → String) (limits : StateLimits)
    (state : ExternalState) : Prop where
  files_prefix : state.files <+: tree.sortedFiles sha256 limits
  truncated_iff : state.truncated = true ↔ ∃ path ∈ tree.paths, path.fileSize ≠ none ∧
    asPosix path.parts ∉ state.files.map FileItem.path

variable {tree} {sha256 : List UInt8 → String} {limits : StateLimits}

theorem regularItem_eq_none_iff {path : WorkPath} :
    regularItem sha256 limits path = none ↔ path.fileSize = none := by
  rw [regularItem, WorkPath.fileSize]
  cases path.status <;> simp

theorem path_of_regularItem {path : WorkPath} {item : FileItem}
    (hitem : regularItem sha256 limits path = some item) : item.path = asPosix path.parts := by
  rw [regularItem] at hitem
  cases hstatus : path.status with
  | notFile =>
    rw [hstatus] at hitem
    cases hitem
  | noStat =>
    rw [hstatus] at hitem
    cases hitem
  | file size content =>
    rw [hstatus] at hitem
    rw [← Option.some.inj hitem]
    cases content <;> rfl

theorem map_size_filterMap (paths : List WorkPath) :
    (paths.filterMap (regularItem sha256 limits)).map FileItem.size =
      paths.filterMap WorkPath.fileSize := by
  rw [List.map_filterMap]
  refine List.filterMap_congr fun path _ ↦ ?_
  rw [regularItem, WorkPath.fileSize]
  cases path.status with
  | notFile => rfl
  | noStat => rfl
  | file size content => cases content <;> rfl

section Sorted

variable {sorted : List WorkPath} (hperm : sorted.Perm tree.paths)
  (hsorted : sorted.Pairwise fun a b ↦ a.parts ≤ b.parts)

include hperm in
/-- Different files have different paths. -/
theorem nodup_map_path :
    ((sorted.filterMap (regularItem sha256 limits)).map FileItem.path).Nodup := by
  have hparts : sorted.Pairwise fun a b ↦ a.parts ≠ b.parts :=
    List.pairwise_map.mp ((hperm.map _).nodup_iff.mpr tree.nodup)
  rw [List.Nodup, List.pairwise_map, List.pairwise_filterMap]
  refine hparts.imp_of_mem fun {a b} ha hb hne x hx y hy heq ↦ hne ?_
  rw [path_of_regularItem hx, path_of_regularItem hy] at heq
  exact join_injective_of_separated (tree.slash_not_mem a (hperm.mem_iff.mp ha))
    (tree.slash_not_mem b (hperm.mem_iff.mp hb))
    (tree.parts_ne a (hperm.mem_iff.mp ha)) (tree.parts_ne b (hperm.mem_iff.mp hb)) heq

include hperm hsorted in
/-- The last path in the order is no file exactly when a path that is none comes behind all files.
-/
theorem exists_getLast_iff :
    (∃ path ∈ sorted.getLast?, regularItem sha256 limits path = none) ↔ tree.EndsWithoutFile := by
  simp only [regularItem_eq_none_iff]
  constructor
  · rintro ⟨path, hlast, hnone⟩
    have hpath : path ∈ sorted := List.mem_of_getLast? hlast
    obtain ⟨before, rfl⟩ := List.getLast?_eq_some_iff.mp hlast
    refine ⟨path, hperm.mem_iff.mp hpath, hnone, fun file hfile hregular ↦ ?_⟩
    have hbefore : file ∈ before := by
      refine (List.mem_append.mp (hperm.mem_iff.mpr hfile)).resolve_right fun hmem ↦ hregular ?_
      rwa [List.mem_singleton.mp hmem]
    refine lt_of_le_of_ne ?_ fun heq ↦ ?_
    · exact (List.pairwise_append.mp hsorted).2.2 file hbefore path List.mem_cons_self
    · have hnodup := (hperm.map WorkPath.parts).nodup_iff.mpr tree.nodup
      rw [List.map_append, List.nodup_append] at hnodup
      exact hnodup.2.2 file.parts (List.mem_map_of_mem hbefore) path.parts
        (List.mem_map_of_mem List.mem_cons_self) heq
  · rintro ⟨path, hpath, hnone, hbehind⟩
    have hmem : path ∈ sorted := hperm.mem_iff.mpr hpath
    obtain ⟨last, hlast⟩ := Option.ne_none_iff_exists'.mp
      (fun hempty ↦ List.ne_nil_of_mem hmem (List.getLast?_eq_none_iff.mp hempty))
    refine ⟨last, hlast, ?_⟩
    by_contra hregular
    have hlt := hbehind last (hperm.mem_iff.mp (List.mem_of_getLast? hlast)) hregular
    obtain ⟨before, rfl⟩ := List.getLast?_eq_some_iff.mp hlast
    rcases List.mem_append.mp hmem with hbefore | hself
    · exact absurd hlt (not_lt.mpr
        ((List.pairwise_append.mp hsorted).2.2 path hbefore last List.mem_cons_self))
    · exact hregular (List.mem_singleton.mp hself ▸ hnone)

include hperm in
/-- A beginning of the files lacks a file exactly when it is not all of them. -/
theorem exists_missing_iff {files : List FileItem}
    (hbegins : files <+: sorted.filterMap (regularItem sha256 limits)) :
    (∃ path ∈ tree.paths, path.fileSize ≠ none ∧
        asPosix path.parts ∉ files.map FileItem.path) ↔
      files ≠ sorted.filterMap (regularItem sha256 limits) := by
  constructor
  · rintro ⟨path, hpath, hregular, hmissing⟩ rfl
    obtain ⟨item, hitem⟩ := Option.ne_none_iff_exists'.mp
      (fun hnone ↦ hregular (regularItem_eq_none_iff.mp hnone))
    refine hmissing (List.mem_map.mpr ⟨item, ?_, path_of_regularItem hitem⟩)
    exact List.mem_filterMap.mpr ⟨path, hperm.mem_iff.mpr hpath, hitem⟩
  · intro hne
    obtain ⟨rest, hrest⟩ := hbegins
    obtain ⟨item, more, rfl⟩ := List.exists_cons_of_ne_nil
      (fun hnil : rest = [] ↦ hne (by rw [← hrest, hnil, List.append_nil]))
    have hmem : item ∈ sorted.filterMap (regularItem sha256 limits) := by
      rw [← hrest]
      exact List.mem_append_right _ List.mem_cons_self
    obtain ⟨path, hpath, hitem⟩ := List.mem_filterMap.mp hmem
    refine ⟨path, hperm.mem_iff.mp hpath, ?_, fun hlisted ↦ ?_⟩
    · rw [ne_eq, ← @regularItem_eq_none_iff sha256 limits, hitem]
      exact Option.some_ne_none item
    · have hnodup : ((sorted.filterMap (regularItem sha256 limits)).map FileItem.path).Nodup :=
        nodup_map_path hperm
      rw [← hrest, List.map_append, List.nodup_append] at hnodup
      rw [← path_of_regularItem hitem] at hlisted
      exact hnodup.2.2 item.path hlisted item.path (List.mem_map_of_mem List.mem_cons_self) rfl

end Sorted

/-- The order in which `rglob` lists the paths does not matter. -/
theorem mergeSort_eq {listing : List WorkPath} (hlisting : listing.Perm tree.paths) :
    listing.mergeSort partsLe = tree.paths.mergeSort partsLe := by
  have hkey : ∀ a b : WorkPath, partsLe a b = true ↔ a.parts ≤ b.parts :=
    fun _ _ ↦ decide_eq_true_iff
  have hperm : (listing.mergeSort partsLe).Perm tree.paths :=
    (List.mergeSort_perm _ _).trans hlisting
  refine List.Perm.eq_of_pairwise ?_ (pairwise_mergeSort hkey listing)
    (pairwise_mergeSort hkey tree.paths) (hperm.trans (List.mergeSort_perm _ _).symm)
  intro a b ha hb hab hba
  exact List.inj_on_of_nodup_map tree.nodup (hperm.mem_iff.mp ha)
    (List.mem_mergeSort.mp hb) (le_antisymm hab hba)

/-- All files are listed exactly when their number and their total size are within the limits. -/
theorem files_sampleExternalState_iff (tree : WorkTree) (sha256 : List UInt8 → String)
    (limits : StateLimits) :
    (sampleExternalState sha256 limits tree.paths).files = tree.sortedFiles sha256 limits ↔
      tree.fileSizes = [] ∨ (tree.fileSizes.length : ℤ) ≤ limits.maxFiles ∧
        (tree.fileSizes.sum : ℤ) ≤ limits.maxTotalSize := by
  have hperm : (tree.paths.mergeSort partsLe).Perm tree.paths := List.mergeSort_perm _ _
  have hsizes : ((tree.sortedFiles sha256 limits).map FileItem.size).Perm tree.fileSizes := by
    rw [sortedFiles, map_size_filterMap]
    exact hperm.filterMap _
  have hlength : (tree.sortedFiles sha256 limits).length = tree.fileSizes.length := by
    rw [← hsizes.length_eq, List.length_map]
  have hempty : tree.sortedFiles sha256 limits = [] ↔ tree.fileSizes = [] := by
    rw [← List.length_eq_zero_iff, hlength, List.length_eq_zero_iff]
  have hiff := @files_eq_iff sha256 limits (tree.paths.mergeSort partsLe) [] 0
  rw [List.nil_append, List.length_nil, Nat.zero_add, Nat.zero_add] at hiff
  rw [sampleExternalState, sortedFiles, hiff, ← sortedFiles, hempty, hlength, hsizes.sum_eq]

/-- The flag is exact unless the number of files is just the limit, all of them fit, and a path that
is no file comes behind them. -/
theorem truncatedExactly_iff (tree : WorkTree) (sha256 : List UInt8 → String)
    (limits : StateLimits) {listing : List WorkPath} (hlisting : listing.Perm tree.paths) :
    tree.TruncatedExactly sha256 limits (sampleExternalState sha256 limits listing) ↔
      ¬(tree.fileSizes.length = limits.maxFiles.toNat ∧
        (tree.fileSizes = [] ∨ (tree.fileSizes.sum : ℤ) ≤ limits.maxTotalSize) ∧
        tree.EndsWithoutFile) := by
  have hstate : sampleExternalState sha256 limits listing =
      sampleExternalState sha256 limits tree.paths := by
    rw [sampleExternalState, mergeSort_eq hlisting, sampleExternalState]
  rw [hstate]
  have hperm : (tree.paths.mergeSort partsLe).Perm tree.paths := List.mergeSort_perm _ _
  have hsorted : (tree.paths.mergeSort partsLe).Pairwise fun a b ↦ a.parts ≤ b.parts :=
    pairwise_mergeSort (fun _ _ ↦ decide_eq_true_iff) tree.paths
  have hbegins : (sampleExternalState sha256 limits tree.paths).files <+:
      tree.sortedFiles sha256 limits := by
    obtain ⟨listed, hfiles, hlisted⟩ := @exists_listed sha256 limits
      (tree.paths.mergeSort partsLe) [] 0
    rwa [sampleExternalState, hfiles, List.nil_append]
  have hmissing := exists_missing_iff hperm hbegins
  have hall := files_sampleExternalState_iff tree sha256 limits
  have hcount : (tree.sortedFiles sha256 limits).length = tree.fileSizes.length := by
    rw [← List.length_map (f := FileItem.size), sortedFiles, map_size_filterMap]
    exact (hperm.filterMap _).length_eq
  by_cases hlisted : (sampleExternalState sha256 limits tree.paths).files =
      tree.sortedFiles sha256 limits
  · -- Nothing is missing, so the flag must not be set.
    have hflag := @truncated_iff_of_listed sha256 limits (tree.paths.mergeSort partsLe) [] 0 hlisted
    rw [exists_getLast_iff hperm hsorted, List.length_nil, Nat.zero_add, ← sortedFiles, hcount]
      at hflag
    have hfit := hall.mp hlisted
    constructor
    · rintro hexact ⟨hlimit, -, hends⟩
      refine hmissing.mp (hexact.truncated_iff.mp (hflag.mpr ⟨?_, hends⟩)) hlisted
      omega
    · intro hcondition
      refine ⟨hbegins, iff_of_false (fun htruncated ↦ hcondition ?_) fun h ↦
        hmissing.mp h hlisted⟩
      obtain ⟨hlimit, hends⟩ := hflag.mp htruncated
      refine ⟨?_, hfit.imp_right And.right, hends⟩
      rcases hfit with hnone | ⟨hle, -⟩
      · rw [hnone, List.length_nil] at hlimit ⊢
        omega
      · omega
  · -- A file is missing, and only the flag ends the loop early.
    refine iff_of_true ⟨hbegins, iff_of_true ?_ (hmissing.mpr hlisted)⟩ ?_
    · by_contra hflag
      exact hlisted (congrArg ExternalState.files
        (sampleLoop_of_not_truncated (Bool.not_eq_true _ ▸ hflag)))
    · rintro ⟨hlimit, hfit, -⟩
      refine hlisted (hall.mpr ?_)
      rcases Nat.eq_zero_or_pos tree.fileSizes.length with hzero | hpos
      · exact .inl (List.eq_nil_of_length_eq_zero hzero)
      · exact hfit.imp_right fun hsize ↦ ⟨by omega, hsize⟩

/-- The file `a` and an empty directory `b`. -/
def emptyDirectoryTree : WorkTree where
  paths := [⟨[[97]], .file 1 (some [120])⟩, ⟨[[98]], .notFile⟩]
  parts_ne := by decide
  slash_not_mem := by decide
  nodup := by decide
  readable := by
    rintro path (_ | ⟨_, _ | ⟨_, ⟨⟩⟩⟩) <;> rintro ⟨⟩

/-- At the empty directory. -/
theorem truncatedExactly_iff_emptyDirectoryTree :
    emptyDirectoryTree.TruncatedExactly (fun _ ↦ "") { maxFiles := 1 }
        (sampleExternalState (fun _ ↦ "") { maxFiles := 1 } emptyDirectoryTree.paths) ↔
      ¬(emptyDirectoryTree.fileSizes.length = 1 ∧
        (emptyDirectoryTree.fileSizes = [] ∨ (emptyDirectoryTree.fileSizes.sum : ℤ) ≤ 104857600) ∧
        emptyDirectoryTree.EndsWithoutFile) :=
  truncatedExactly_iff emptyDirectoryTree (fun _ ↦ "") { maxFiles := 1 } (List.Perm.refl _)

/-- With room for one file the state of this tree holds the only file and is truncated. -/
theorem emptyDirectoryTree_not_truncatedExactly :
    ¬∀ (tree : WorkTree) (sha256 : List UInt8 → String) (limits : StateLimits)
      (listing : List WorkPath), listing.Perm tree.paths →
        tree.TruncatedExactly sha256 limits (sampleExternalState sha256 limits listing) := by
  intro h
  obtain ⟨-, htruncated⟩ := h emptyDirectoryTree (fun _ ↦ "") { maxFiles := 1 } _ (List.Perm.refl _)
  rw [sampleExternalState, List.mergeSort_of_pairwise (by decide)] at htruncated
  obtain ⟨path, hpath, hregular, hmissing⟩ := htruncated.mp (by decide +kernel)
  revert path
  decide +kernel

end WorkTree

end SyzAbi.Orchestrator

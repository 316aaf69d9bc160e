import SyzAbi.Targets.FatSampling
import SyzAbi.Tools.GuestState

/-!
# The samplers of the two sides

The external state of a file tree is recorded in three ways: on the host (`sample_external_state`),
from a disk image (`sample_fat_external_state`), and by a shell function in the guest
(`emit_external_state`). All three list every file with its path and size. The host takes the digest
of a sample that is written as UTF-8, and orders the files by the parts of their paths; the other
two take the digest of the file, and order the files by their paths as texts.

So the states agree exactly for trees in which every sample is the whole file and no two paths are
reordered (`hostFiles_eq_iff`), when the recorder of the other side can record the tree at all, with
its paths (`samplers_agree_iff`).
-/

set_option autoImplicit false
set_option relaxedAutoImplicit false

namespace SyzAbi.Targets

open Orchestrator Tools Library Library.PathOrder

/-! ### Two listings -/

section Listings

variable {tree : FileTree} {sha256 : Sha256} {limits : StateLimits}

theorem hostItem_eq_iff (hcollision : tree.NoCollision sha256.hexdigest limits) {file : TreeFile}
    (hfile : file ∈ tree.files) :
    FileTree.hostItem sha256.hexdigest limits file = guestItem sha256 file ↔
      SampledWhole limits.maxFileSample file.content := by
  rw [← sampledBytes_eq_iff]
  constructor
  · intro heq
    exact hcollision file hfile (Option.some.inj (congrArg FileItem.sha256 heq))
  · intro hwhole
    have hdigest := congrArg sha256.hexdigest hwhole
    ext1
    · rfl
    · rfl
    · exact congrArg some hdigest
    · rfl

/-- The listing of the host and a listing in the order of the paths. -/
theorem hostFiles_eq_iff (hcollision : tree.NoCollision sha256.hexdigest limits)
    {hostFiles files : List FileItem}
    (hhost : hostFiles.Perm (tree.files.map (FileTree.hostItem sha256.hexdigest limits)))
    (hhostSorted : hostFiles.Pairwise fun a b ↦ a.path.map (rank 47) < b.path.map (rank 47))
    (hfiles : files.Perm (tree.files.map (guestItem sha256)))
    (hsorted : files.Pairwise fun a b ↦ a.path < b.path) :
    hostFiles = files ↔ tree.SampledWhole limits ∧ tree.SameOrder := by
  have hirrefl : ∀ k : PyStr, ¬k.map (rank 47) < k.map (rank 47) := fun _ ↦ lt_irrefl _
  have hasymm : ∀ k l : PyStr, k.map (rank 47) < l.map (rank 47) →
      ¬l.map (rank 47) < k.map (rank 47) := fun _ _ ↦ lt_asymm
  have hkey : ∀ file, (FileTree.hostItem sha256.hexdigest limits file).path =
      (guestItem sha256 file).path := fun _ ↦ rfl
  rw [sorted_eq_iff hirrefl (fun _ ↦ lt_irrefl _) hasymm (fun _ _ ↦ lt_asymm) hkey hhost hfiles
    hhostSorted hsorted, FileTree.sameOrder_iff]
  exact and_congr_left' (forall₂_congr fun file hfile ↦ hostItem_eq_iff hcollision hfile)

end Listings

/-! ### The disk image -/

/-- The image holds the files of the tree. -/
def FatVolume.Holds {image : List UInt8} (volume : FatVolume image) (tree : FileTree) : Prop :=
  (volume.tree.files []).Perm (tree.files.map fun file ↦ (file.path, file.content))

theorem FatVolume.Holds.forall_path_iff {image : List UInt8} {volume : FatVolume image}
    {tree : FileTree} (hholds : volume.Holds tree) (p : PyStr → Prop) :
    (∀ file ∈ volume.tree.files [], p file.1) ↔ ∀ file ∈ tree.files, p file.path := by
  refine ⟨fun hall file hfile ↦ ?_, fun hall file hfile ↦ ?_⟩
  · exact hall (file.path, file.content) (hholds.mem_iff.mpr (List.mem_map.mpr ⟨file, hfile, rfl⟩))
  · obtain ⟨other, hother, rfl⟩ := List.mem_map.mp (hholds.mem_iff.mp hfile)
    exact hall other hother

/-- The files of an image in the order of their paths are those of the tree. -/
theorem fatItems_sorted (sha256 : Sha256) {image : List UInt8} {volume : FatVolume image}
    {tree : FileTree} (hholds : volume.Holds tree) :
    ((volume.items sha256.hexdigest).mergeSort pathLe).Perm
        (tree.files.map (guestItem sha256)) ∧
      ((volume.items sha256.hexdigest).mergeSort pathLe).Pairwise fun a b ↦ a.path < b.path := by
  have hperm : ((volume.items sha256.hexdigest).mergeSort pathLe).Perm
      (tree.files.map (guestItem sha256)) := by
    have hitems := (List.mergeSort_perm (volume.items sha256.hexdigest) pathLe).trans
      (hholds.map (fileItem sha256.hexdigest))
    rw [List.map_map] at hitems
    exact hitems
  have hsymm : Std.Symm fun a b : FileItem ↦ a.path ≠ b.path := ⟨fun _ _ hne ↦ hne.symm⟩
  have hdifferent : ((volume.items sha256.hexdigest).mergeSort pathLe).Pairwise
      fun a b ↦ a.path ≠ b.path :=
    (hperm.pairwise_iff fun {a b} ↦ hsymm.symm a b).mpr
      (List.pairwise_map.mpr tree.pairwise_path_ne)
  have hsorted : ((volume.items sha256.hexdigest).mergeSort pathLe).Pairwise
      fun a b ↦ a.path ≤ b.path := pairwise_mergeSort (fun _ _ ↦ decide_eq_true_iff) _
  exact ⟨hperm, (hsorted.and hdifferent).imp fun hboth ↦ lt_of_le_of_ne hboth.1 hboth.2⟩

/-! ### Both sides -/

section Agreement

variable {sha256 : Sha256} {limits : StateLimits} {tree : FileTree} {listing : List WorkPath}

/-- The host and the sampler of an image that holds the tree. -/
theorem fat_agrees_iff (hcount : tree.files.length ≤ limits.maxFiles)
    (hsize : tree.totalSize ≤ limits.maxTotalSize)
    (hcollision : tree.NoCollision sha256.hexdigest limits) (hlisting : listing.Perm tree.paths)
    (recursionLimit : ℕ) {image : List UInt8} (volume : FatVolume image)
    (hholds : volume.Holds tree) :
    sampleFatExternalState sha256.hexdigest recursionLimit image =
        sampleExternalState sha256.hexdigest limits listing ↔
      volume.tree.read.depth ≤ recursionLimit ∧ (∀ file ∈ tree.files, ∀ c ∈ file.path, c < 0xFFFF) ∧
        tree.SampledWhole limits ∧ tree.SameOrder := by
  obtain ⟨hostFiles, hstate, hhost, hhostSorted⟩ :=
    FileTree.sampleExternalState_tree hlisting hcount hsize
  obtain ⟨hfiles, hsorted⟩ := fatItems_sorted sha256 hholds
  rw [hstate, sampleFatExternalState_volume,
    ← hostFiles_eq_iff hcollision hhost hhostSorted hfiles hsorted]
  split_ifs with hdepth
  · rw [and_iff_right hdepth]
    by_cases hpaths : ∀ file ∈ tree.files, ∀ c ∈ file.path, c < 0xFFFF
    · have hplane : ∀ file ∈ volume.tree.files [], ∀ c ∈ file.1, c < 0xFFFF :=
        (hholds.forall_path_iff fun path ↦ ∀ c ∈ path, c < 0xFFFF).mpr hpaths
      rw [and_iff_right hpaths, volume.readItems_eq _ hplane]
      exact ⟨fun heq ↦ (congrArg ExternalState.files heq).symm, fun heq ↦ by rw [heq]⟩
    · -- A path that the host lists is not one that the sampler makes.
      refine iff_of_false (fun heq ↦ hpaths fun file hfile ↦ ?_) fun hboth ↦ hpaths hboth.1
      have hfiles : (volume.readItems sha256.hexdigest).mergeSort pathLe = hostFiles :=
        congrArg ExternalState.files heq
      have hlisted : FileTree.hostItem sha256.hexdigest limits file ∈ hostFiles :=
        hhost.mem_iff.mpr (List.mem_map_of_mem hfile)
      rw [← hfiles] at hlisted
      exact volume.lt_of_mem_readItems (List.mem_mergeSort.mp hlisted)
        (FileTree.isValidChar_path hfile)
  · refine iff_of_false (fun heq ↦ ?_) fun hboth ↦ hdepth hboth.1
    cases congrArg ExternalState.readError heq

/-- The host and the guest, for paths without quotes, backslashes and line feeds. -/
theorem guest_agrees_iff (hcount : tree.files.length ≤ limits.maxFiles)
    (hsize : tree.totalSize ≤ limits.maxTotalSize)
    (hcollision : tree.NoCollision sha256.hexdigest limits) (hlisting : listing.Perm tree.paths)
    {found : List TreeFile} (hfound : found.Perm tree.files)
    (hsafe : ∀ file ∈ tree.files, ShellSafe file.path) :
    parseShellState sha256 found =
        .ok (externalStateValue (sampleExternalState sha256.hexdigest limits listing)) ↔
      (∀ file ∈ tree.files, Printable file.path) ∧ tree.SampledWhole limits ∧ tree.SameOrder := by
  obtain ⟨hostFiles, hstate, hhost, hhostSorted⟩ :=
    FileTree.sampleExternalState_tree hlisting hcount hsize
  obtain ⟨hfiles, hsorted⟩ := guestItems_sorted sha256 hfound
  have hmem : ∀ {p : TreeFile → Prop}, (∀ file ∈ found, p file) ↔ ∀ file ∈ tree.files, p file :=
    forall_congr' fun file ↦ imp_congr_left hfound.mem_iff
  rw [hstate, ← hostFiles_eq_iff hcollision hhost hhostSorted hfiles hsorted, ← hmem]
  rcases parseShellState_cases sha256 (hmem.mpr hsafe) with
    ⟨hprintable, hread⟩ | ⟨hcontrol, error, hrefused⟩
  · rw [hread, and_iff_right hprintable]
    constructor
    · intro heq
      have hvalues := externalStateValue_injective (Except.ok.inj heq)
      exact (congrArg ExternalState.files hvalues).symm
    · intro heq
      rw [heq]
  · refine iff_of_false (fun heq ↦ ?_) fun hboth ↦ hcontrol hboth.1
    rw [hrefused] at heq
    cases heq

end Agreement

/-- The state of a tree within the limits is what the recorders of the other side make of it, from
any image that holds the tree and in the guest, exactly when samples are whole, paths keep their
order, and the recorder can record the tree. -/
theorem samplers_agree_iff (sha256 : Sha256) (limits : StateLimits) (tree : FileTree)
    (hcount : tree.files.length ≤ limits.maxFiles) (hsize : tree.totalSize ≤ limits.maxTotalSize)
    (hcollision : tree.NoCollision sha256.hexdigest limits) (listing : List WorkPath)
    (hlisting : listing.Perm tree.paths) :
    (∀ (recursionLimit : ℕ) (image : List UInt8) (volume : FatVolume image), volume.Holds tree →
      (sampleFatExternalState sha256.hexdigest recursionLimit image =
          sampleExternalState sha256.hexdigest limits listing ↔
        volume.tree.read.depth ≤ recursionLimit ∧
          (∀ file ∈ tree.files, ∀ c ∈ file.path, c < 0xFFFF) ∧ tree.SampledWhole limits ∧
          tree.SameOrder)) ∧
    (∀ found : List TreeFile, found.Perm tree.files →
      (∀ file ∈ tree.files, ShellSafe file.path) →
      (parseShellState sha256 found =
          .ok (externalStateValue (sampleExternalState sha256.hexdigest limits listing)) ↔
        (∀ file ∈ tree.files, Printable file.path) ∧ tree.SampledWhole limits ∧
          tree.SameOrder)) :=
  ⟨fun recursionLimit _ volume ↦
    fat_agrees_iff hcount hsize hcollision hlisting recursionLimit volume,
    fun _ ↦ guest_agrees_iff hcount hsize hcollision hlisting⟩

/-! ### A tree that is listed in two orders -/

/-- The digest of an empty file, whatever the file. -/
def emptyDigest : Sha256 where
  hexdigest := fun _ ↦ emptyHexdigest
  hex := emptyHexdigest_hex

/-- Empty files `a/b` and `a.b`. -/
def reorderedTree : FileTree where
  files := [⟨[[97], [98]], []⟩, ⟨[[97, 46, 98]], []⟩]
  parts_ne := by decide
  names := by
    simp only [List.forall_mem_cons, List.not_mem_nil, false_implies, implies_true, and_true]
    exact ⟨⟨⟨by decide, by decide⟩, ⟨by decide, by decide⟩⟩, ⟨by decide, by decide⟩⟩
  separate := by decide

theorem noCollision_reorderedTree (sha256 : List UInt8 → String) (limits : StateLimits) :
    reorderedTree.NoCollision sha256 limits := by
  intro file hfile _
  have hcontent : file.content = [] := by
    rcases List.mem_pair.mp hfile with rfl | rfl
    · rfl
    · rfl
  rw [hcontent, sampledBytes, List.take_nil]
  rfl

theorem samplers_agree_iff_reorderedTree :
    (∀ (recursionLimit : ℕ) (image : List UInt8) (volume : FatVolume image),
      volume.Holds reorderedTree →
      (sampleFatExternalState emptyDigest.hexdigest recursionLimit image =
          sampleExternalState emptyDigest.hexdigest {} reorderedTree.paths ↔
        volume.tree.read.depth ≤ recursionLimit ∧
          (∀ file ∈ reorderedTree.files, ∀ c ∈ file.path, c < 0xFFFF) ∧
          reorderedTree.SampledWhole {} ∧ reorderedTree.SameOrder)) ∧
    (∀ found : List TreeFile, found.Perm reorderedTree.files →
      (∀ file ∈ reorderedTree.files, ShellSafe file.path) →
      (parseShellState emptyDigest found = .ok (externalStateValue
          (sampleExternalState emptyDigest.hexdigest {} reorderedTree.paths)) ↔
        (∀ file ∈ reorderedTree.files, Printable file.path) ∧ reorderedTree.SampledWhole {} ∧
          reorderedTree.SameOrder)) :=
  samplers_agree_iff emptyDigest {} reorderedTree (by decide) (by decide)
    (noCollision_reorderedTree _ _) reorderedTree.paths (List.Perm.refl _)

/-- The host lists `a/b` first, and the guest `a.b`. -/
theorem reorderedTree_not_agree :
    ¬∀ (sha256 : Sha256) (limits : StateLimits) (tree : FileTree) (listing : List WorkPath)
      (found : List TreeFile), tree.files.length ≤ limits.maxFiles →
      tree.totalSize ≤ limits.maxTotalSize → listing.Perm tree.paths → found.Perm tree.files →
      (∀ file ∈ tree.files, ShellSafe file.path) →
      parseShellState sha256 found =
        .ok (externalStateValue (sampleExternalState sha256.hexdigest limits listing)) := by
  intro hagree
  have hsafe : ∀ file ∈ reorderedTree.files, ShellSafe file.path := by
    intro file hfile
    rcases List.mem_pair.mp hfile with rfl | rfl
    · exact (by decide : ∀ c ∈ [97, 47, 98], c ≠ 34 ∧ c ≠ 92 ∧ c ≠ 10)
    · exact (by decide : ∀ c ∈ [97, 46, 98], c ≠ 34 ∧ c ≠ 92 ∧ c ≠ 10)
  have hequal := hagree emptyDigest {} reorderedTree reorderedTree.paths reorderedTree.files
    (by decide) (by decide) (List.Perm.refl _) (List.Perm.refl _) hsafe
  obtain ⟨-, -, hsame⟩ := (guest_agrees_iff (by decide) (by decide)
    (noCollision_reorderedTree _ _) (List.Perm.refl _) (List.Perm.refl _) hsafe).mp hequal
  exact hsame _ List.mem_cons_self _ (List.mem_cons_of_mem _ List.mem_cons_self)
    ⟨[97], [98], 46, [98], rfl, rfl, by decide⟩

end SyzAbi.Targets

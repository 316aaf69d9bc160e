import SyzAbi.Analyzer.Schemas
import SyzAbi.Library.Latin1
import SyzAbi.Library.PathOrder

/-!
# The external state on the host

`sample_external_state` (`orchestrator/vm_runner.py`): the reference side walks the work directory
of a run in the order of `Path`, which compares the parts of two paths, and stops at the limits on
the number of files and on their total size. A file is listed with the digest of its first bytes,
read as Latin-1 and written as UTF-8.

For a file tree within the limits the state lists every file once, in the order of the parts
(`sampleExternalState_tree`): a directory of such a tree comes before its files, so no limit is met
behind the last file. The digest is that of the file itself for the contents of
`sampledBytes_eq_iff`.
-/

set_option autoImplicit false
set_option relaxedAutoImplicit false

namespace SyzAbi.Orchestrator

open Library Library.PathOrder

/-! ### The sampler -/

/-- What the file system says of a path: a regular file with its size, and with its content or a
read error. -/
inductive PathStatus
  | notFile
  | noStat
  | file (size : ℕ) (content : Option (List UInt8))

/-- A path below the work directory. -/
structure WorkPath where
  parts : List PyStr
  status : PathStatus

/-- `external_state_limits`, integers of a configuration. -/
structure StateLimits where
  maxFiles : ℤ := 1000
  maxTotalSize : ℤ := 104857600
  maxFileSample : ℤ := 4096

/-- How many of `length` bytes a slice `[:limit]` keeps: a negative limit counts from the end. -/
def sliceLength (limit : ℤ) (length : ℕ) : ℕ :=
  if 0 ≤ limit then limit.toNat else length - limit.natAbs

/-- `as_posix`. -/
def asPosix (parts : List PyStr) : PyStr := join 47 parts

/-- `sha256_text`. -/
def sha256Text (sha256 : List UInt8 → String) (text : PyStr) : String :=
  sha256 ((Utf8.encode text).map UInt8.ofNat)

/-- The item of a file. -/
def stateItem (sha256 : List UInt8 → String) (limits : StateLimits) (parts : List PyStr)
    (size : ℕ) : Option (List UInt8) → FileItem
  | some content =>
    { path := asPosix parts
      size := size
      sha256 := some (sha256Text sha256
        ((content.take (sliceLength limits.maxFileSample content.length)).map UInt8.toNat)) }
  | none =>
    { path := asPosix parts
      size := size
      sha256 := none
      readError := some "permission_denied" }

/-- The loop of `sample_external_state`. -/
def sampleLoop (sha256 : List UInt8 → String) (limits : StateLimits) :
    List WorkPath → List FileItem → ℕ → ExternalState
  | [], files, _ => { files := files }
  | path :: rest, files, totalSize =>
    if limits.maxFiles ≤ files.length then { files := files, truncated := true }
    else
      match path.status with
      | .notFile => sampleLoop sha256 limits rest files totalSize
      | .noStat => sampleLoop sha256 limits rest files totalSize
      | .file size content =>
        if limits.maxTotalSize < (totalSize + size : ℕ) then { files := files, truncated := true }
        else sampleLoop sha256 limits rest
          (files ++ [stateItem sha256 limits path.parts size content]) (totalSize + size)

/-- The order of `Path`. -/
def partsLe (a b : WorkPath) : Bool := a.parts ≤ b.parts

/-- `sample_external_state` on what `rglob` lists. -/
def sampleExternalState (sha256 : List UInt8 → String) (limits : StateLimits)
    (listing : List WorkPath) : ExternalState :=
  sampleLoop sha256 limits (listing.mergeSort partsLe) [] 0

/-! ### File trees -/

/-- A name in a directory. -/
def IsName (name : PyStr) : Prop :=
  name ∉ [[], [46], [46, 46]] ∧ ∀ c ∈ name, c ≠ 0 ∧ c ≠ 47 ∧ c.isValidChar

structure TreeFile where
  parts : List PyStr
  content : List UInt8

/-- The relative path of a file. -/
def TreeFile.path (file : TreeFile) : PyStr := asPosix file.parts

/-- A file tree: its regular files. No path is another one or lies in it. -/
structure FileTree where
  files : List TreeFile
  parts_ne : ∀ file ∈ files, file.parts ≠ []
  names : ∀ file ∈ files, ∀ name ∈ file.parts, IsName name
  separate : files.Pairwise fun a b ↦ ¬a.parts <+: b.parts ∧ ¬b.parts <+: a.parts

namespace FileTree

variable (tree : FileTree)

def totalSize : ℕ := (tree.files.map fun file ↦ file.content.length).sum

/-- The directories that hold files. -/
def directories : List (List PyStr) :=
  (tree.files.flatMap fun file ↦
    (List.range (file.parts.length - 1)).map fun depth ↦ file.parts.take (depth + 1)).dedup

/-- What lies below the work directory. -/
def paths : List WorkPath :=
  tree.files.map (fun file ↦ ⟨file.parts, .file file.content.length (some file.content)⟩) ++
    tree.directories.map fun parts ↦ ⟨parts, .notFile⟩

end FileTree

/-! ### The loop -/

section Loop

variable {sha256 : List UInt8 → String} {limits : StateLimits} {paths : List WorkPath}
  {files : List FileItem} {totalSize : ℕ}

/-- The item that the loop makes of a path. -/
def regularItem (sha256 : List UInt8 → String) (limits : StateLimits) (path : WorkPath) :
    Option FileItem :=
  match path.status with
  | .file size content => some (stateItem sha256 limits path.parts size content)
  | _ => none

/-- A turn of the loop within the limit on the number of files. -/
theorem sampleLoop_cons {path : WorkPath} (hroom : ¬limits.maxFiles ≤ files.length) :
    sampleLoop sha256 limits (path :: paths) files totalSize =
      match regularItem sha256 limits path with
      | none => sampleLoop sha256 limits paths files totalSize
      | some item =>
        if limits.maxTotalSize < (totalSize + item.size : ℕ) then
          { files := files, truncated := true }
        else sampleLoop sha256 limits paths (files ++ [item]) (totalSize + item.size) := by
  rw [sampleLoop, if_neg hroom, regularItem]
  cases path.status with
  | notFile => rfl
  | noStat => rfl
  | file size content => cases content <;> rfl

/-- The loop lists a beginning of the files. -/
theorem exists_listed (paths : List WorkPath) (files : List FileItem) (totalSize : ℕ) :
    ∃ listed, (sampleLoop sha256 limits paths files totalSize).files = files ++ listed ∧
      listed <+: paths.filterMap (regularItem sha256 limits) := by
  induction paths generalizing files totalSize with
  | nil => exact ⟨[], (List.append_nil files).symm, List.nil_prefix⟩
  | cons path rest ih =>
    by_cases hroom : limits.maxFiles ≤ files.length
    · refine ⟨[], ?_, List.nil_prefix⟩
      rw [sampleLoop, if_pos hroom, List.append_nil]
    · rw [sampleLoop_cons hroom, List.filterMap_cons]
      cases regularItem sha256 limits path with
      | none => exact ih files totalSize
      | some item =>
        dsimp only
        split_ifs
        · exact ⟨[], (List.append_nil files).symm, List.nil_prefix⟩
        · obtain ⟨listed, heq, hbegins⟩ := ih (files ++ [item]) (totalSize + item.size)
          refine ⟨item :: listed, ?_, List.cons_prefix_cons.mpr ⟨rfl, hbegins⟩⟩
          rw [heq, List.append_assoc, List.singleton_append]

/-- Without the flag all files are listed. -/
theorem sampleLoop_of_not_truncated
    (hflag : (sampleLoop sha256 limits paths files totalSize).truncated = false) :
    sampleLoop sha256 limits paths files totalSize =
      { files := files ++ paths.filterMap (regularItem sha256 limits) } := by
  induction paths generalizing files totalSize with
  | nil => rw [sampleLoop, List.filterMap_nil, List.append_nil]
  | cons path rest ih =>
    by_cases hroom : limits.maxFiles ≤ files.length
    · rw [sampleLoop, if_pos hroom] at hflag
      cases hflag
    · rw [sampleLoop_cons hroom] at hflag ⊢
      rw [List.filterMap_cons]
      cases hitem : regularItem sha256 limits path with
      | none =>
        rw [hitem] at hflag
        exact ih hflag
      | some item =>
        simp only [hitem] at hflag ⊢
        split_ifs at hflag ⊢ with hsize
        rw [ih hflag, List.append_assoc, List.singleton_append]

/-- All files are listed exactly when they fit the limits. -/
theorem files_eq_iff : (sampleLoop sha256 limits paths files totalSize).files =
      files ++ paths.filterMap (regularItem sha256 limits) ↔
    paths.filterMap (regularItem sha256 limits) = [] ∨
      (files.length + (paths.filterMap (regularItem sha256 limits)).length : ℕ) ≤ limits.maxFiles ∧
        (totalSize + ((paths.filterMap (regularItem sha256 limits)).map FileItem.size).sum : ℕ) ≤
          limits.maxTotalSize := by
  induction paths generalizing files totalSize with
  | nil => exact iff_of_true (List.append_nil files).symm (.inl rfl)
  | cons path rest ih =>
    by_cases hroom : limits.maxFiles ≤ files.length
    · rw [sampleLoop, if_pos hroom]
      constructor
      · intro heq
        exact .inl (List.append_cancel_left ((List.append_nil files).trans heq)).symm
      · rintro (hnone | ⟨hcount, -⟩)
        · rw [hnone, List.append_nil]
        · have hzero : ((path :: rest).filterMap (regularItem sha256 limits)).length = 0 := by omega
          rw [List.eq_nil_of_length_eq_zero hzero, List.append_nil]
    · rw [sampleLoop_cons hroom, List.filterMap_cons]
      cases regularItem sha256 limits path with
      | none => exact ih
      | some item =>
        dsimp only
        rw [List.map_cons, List.sum_cons, List.length_cons]
        split_ifs with hsize
        · constructor
          · intro heq
            have hlength := congrArg List.length heq
            simp at hlength
          · rintro (hnone | ⟨-, htotal⟩)
            · cases hnone
            · omega
        · have hcons : files ++ item :: rest.filterMap (regularItem sha256 limits) =
              (files ++ [item]) ++ rest.filterMap (regularItem sha256 limits) := by simp
          rw [hcons, ih, List.length_append, List.length_singleton]
          constructor
          · rintro (hnone | ⟨hcount, htotal⟩)
            · rw [hnone, List.length_nil, List.map_nil, List.sum_nil]
              exact .inr ⟨by omega, by omega⟩
            · exact .inr ⟨by omega, by omega⟩
          · rintro (hnone | ⟨hcount, htotal⟩)
            · cases hnone
            · exact .inr ⟨by omega, by omega⟩

/-- When all files are listed, the flag says that the limit on their number is reached and that the
last path is no file. -/
theorem truncated_iff_of_listed (hlisted :
    (sampleLoop sha256 limits paths files totalSize).files =
      files ++ paths.filterMap (regularItem sha256 limits)) :
    (sampleLoop sha256 limits paths files totalSize).truncated = true ↔
      limits.maxFiles ≤
          (files.length + (paths.filterMap (regularItem sha256 limits)).length : ℕ) ∧
        ∃ path ∈ paths.getLast?, regularItem sha256 limits path = none := by
  induction paths generalizing files totalSize with
  | nil =>
    refine iff_of_false Bool.false_ne_true ?_
    rintro ⟨-, path, hpath, -⟩
    cases hpath
  | cons path rest ih =>
    by_cases hroom : limits.maxFiles ≤ files.length
    · rw [sampleLoop, if_pos hroom] at hlisted ⊢
      have hnone : (path :: rest).filterMap (regularItem sha256 limits) = [] :=
        (List.append_cancel_left ((List.append_nil files).trans hlisted)).symm
      refine iff_of_true rfl ⟨?_, ?_⟩
      · rw [hnone]
        exact hroom
      · obtain ⟨last, hlast⟩ := Option.ne_none_iff_exists'.mp
          (fun hempty ↦ List.cons_ne_nil path rest (List.getLast?_eq_none_iff.mp hempty))
        exact ⟨last, hlast,
          List.filterMap_eq_nil_iff.mp hnone last (List.mem_of_getLast? hlast)⟩
    · rw [sampleLoop_cons hroom] at hlisted ⊢
      rw [List.filterMap_cons] at hlisted ⊢
      cases hitem : regularItem sha256 limits path with
      | none =>
        simp only [hitem] at hlisted ⊢
        rw [ih hlisted]
        cases rest with
        | nil =>
          refine iff_of_false ?_ ?_
          · rintro ⟨-, other, hother, -⟩
            cases hother
          · rintro ⟨hcount, -⟩
            exact hroom hcount
        | cons next more => rw [List.getLast?_cons_cons]
      | some item =>
        simp only [hitem] at hlisted ⊢
        split_ifs at hlisted ⊢ with hsize
        · have hlength := congrArg List.length hlisted
          simp at hlength
        · have hcons : files ++ item :: rest.filterMap (regularItem sha256 limits) =
              (files ++ [item]) ++ rest.filterMap (regularItem sha256 limits) := by simp
          rw [ih (hlisted.trans hcons), List.length_append, List.length_singleton,
            List.length_cons, Nat.add_assoc, Nat.add_comm 1]
          cases rest with
          | nil =>
            refine iff_of_false ?_ ?_
            · rintro ⟨-, other, hother, -⟩
              cases hother
            · rintro ⟨-, other, hother, hnone⟩
              obtain rfl : path = other := Option.some.inj hother
              rw [hitem] at hnone
              cases hnone
          | cons next more => rw [List.getLast?_cons_cons]

/-- Within the limits the loop lists the files, when the last path is one. -/
theorem sampleLoop_eq (hlast : ∀ path ∈ paths.getLast?, regularItem sha256 limits path ≠ none)
    (hcount : (files.length + (paths.filterMap (regularItem sha256 limits)).length : ℕ) ≤
      limits.maxFiles)
    (hsize : (totalSize +
      ((paths.filterMap (regularItem sha256 limits)).map FileItem.size).sum : ℕ) ≤
        limits.maxTotalSize) :
    sampleLoop sha256 limits paths files totalSize =
      { files := files ++ paths.filterMap (regularItem sha256 limits) } := by
  have hlisted := files_eq_iff.mpr (.inr ⟨hcount, hsize⟩)
  refine sampleLoop_of_not_truncated (Bool.eq_false_iff.mpr fun htruncated ↦ ?_)
  obtain ⟨-, path, hpath, hnone⟩ := (truncated_iff_of_listed hlisted).mp htruncated
  exact hlast path hpath hnone

end Loop

/-! ### Samples of contents -/

/-- The bytes that the digest of a content is taken of. -/
def sampledBytes (limit : ℤ) (content : List UInt8) : List UInt8 :=
  (Utf8.encode ((content.take (sliceLength limit content.length)).map UInt8.toNat)).map
    UInt8.ofNat

/-- Nothing of a content is cut off or written differently: it is ASCII and not longer than the
slice, or behind an ASCII text the sequence goes on that is its own encoding. -/
def SampledWhole (limit : ℤ) (content : List UInt8) : Prop :=
  (∀ byte ∈ content, byte.toNat < 128) ∧ content.length ≤ sliceLength limit content.length ∨
    ∃ text count, (∀ c ∈ text, c < 128) ∧
      text.length + (count + 1) = sliceLength limit content.length ∧
      content.map UInt8.toNat = text ++ Utf8.selfEncoded (count + 1)

theorem sampledBytes_eq_iff {limit : ℤ} {content : List UInt8} :
    sampledBytes limit content = content ↔ SampledWhole limit content := by
  have hencoded : (sampledBytes limit content).map UInt8.toNat =
      Utf8.encode ((content.map UInt8.toNat).take (sliceLength limit content.length)) := by
    rw [sampledBytes, List.map_map, List.map_take]
    conv_rhs => rw [← List.map_id (Utf8.encode _)]
    refine List.map_congr_left fun byte hbyte ↦ ?_
    exact UInt8.toNat_ofNat_of_lt' (Utf8.lt_of_mem_encode hbyte)
  have hinjective : sampledBytes limit content = content ↔
      (sampledBytes limit content).map UInt8.toNat = content.map UInt8.toNat :=
    ⟨congrArg _, fun heq ↦ List.map_injective_iff.mpr (fun _ _ ↦ UInt8.toNat_inj.mp) heq⟩
  have hbytes : ∀ byte ∈ content.map UInt8.toNat, byte < 256 :=
    List.forall_mem_map.mpr fun byte _ ↦ byte.toNat_lt
  rw [hinjective, hencoded, Utf8.encode_take_eq_iff hbytes, SampledWhole, List.forall_mem_map,
    List.length_map]

/-! ### Trees within the limits -/

/-- A beginning of a path comes before it. -/
theorem lt_of_prefix {parts more : List PyStr} (hbegin : parts <+: more) (hne : parts ≠ more) :
    parts < more := by
  obtain ⟨rest, rfl⟩ := hbegin
  cases rest with
  | nil => exact absurd (List.append_nil parts).symm hne
  | cons name rest =>
    conv_lhs => rw [← List.append_nil parts]
    exact List.append_left_lt (List.nil_lt_cons name rest)

namespace FileTree

variable {tree : FileTree} {sha256 : List UInt8 → String} {limits : StateLimits}

/-- The item of a file of the tree. -/
def hostItem (sha256 : List UInt8 → String) (limits : StateLimits) (file : TreeFile) : FileItem :=
  stateItem sha256 limits file.parts file.content.length (some file.content)

theorem filterMap_paths (sha256 : List UInt8 → String) (limits : StateLimits) :
    tree.paths.filterMap (regularItem sha256 limits) = tree.files.map (hostItem sha256 limits) := by
  rw [paths, List.filterMap_append, List.filterMap_map, List.filterMap_map]
  have hdirectories : (tree.directories.filterMap
      (regularItem sha256 limits ∘ fun parts ↦ ⟨parts, .notFile⟩)) = [] :=
    List.filterMap_eq_nil_iff.mpr fun parts _ ↦ rfl
  rw [hdirectories, List.append_nil]
  exact congrFun List.filterMap_eq_map tree.files

/-- The paths of items are those of files. -/
theorem exists_file_of_item {path : WorkPath} (hpath : path ∈ tree.paths) {item : FileItem}
    (hitem : regularItem sha256 limits path = some item) :
    ∃ file ∈ tree.files, path.parts = file.parts ∧ item.path = file.path := by
  rcases List.mem_append.mp hpath with hfile | hdirectory
  · obtain ⟨file, hmem, rfl⟩ := List.mem_map.mp hfile
    rw [← Option.some.inj hitem]
    exact ⟨file, hmem, rfl, rfl⟩
  · obtain ⟨parts, -, rfl⟩ := List.mem_map.mp hdirectory
    cases hitem

theorem slash_not_mem {file : TreeFile} (hfile : file ∈ tree.files) :
    ∀ name ∈ file.parts, 47 ∉ name :=
  fun name hname hmem ↦ ((tree.names file hfile name hname).2 47 hmem).2.1 rfl

theorem isValidChar_path {file : TreeFile} (hfile : file ∈ tree.files) :
    ∀ c ∈ file.path, c.isValidChar := by
  intro c hc
  rcases mem_join hc with rfl | ⟨name, hname, hmem⟩
  · exact .inl (by decide)
  · exact ((tree.names file hfile name hname).2 c hmem).2.2

/-- The order of the parts of two files. -/
theorem map_rank_path_lt_iff {a b : TreeFile} (ha : a ∈ tree.files) (hb : b ∈ tree.files) :
    a.path.map (rank 47) < b.path.map (rank 47) ↔ a.parts < b.parts :=
  map_rank_join_lt_iff (slash_not_mem ha) (slash_not_mem hb) (tree.parts_ne a ha)
    (tree.parts_ne b hb)

theorem pairwise_path_ne : tree.files.Pairwise fun a b ↦ a.path ≠ b.path := by
  refine tree.separate.imp_of_mem fun {a b} ha hb hseparate heq ↦ ?_
  have hparts := join_injective_of_separated (slash_not_mem ha) (slash_not_mem hb)
    (tree.parts_ne a ha) (tree.parts_ne b hb) heq
  exact hseparate.1 (hparts ▸ List.prefix_refl a.parts)

/-- A directory comes before a file. -/
theorem exists_file_behind {path : WorkPath} (hpath : path ∈ tree.paths)
    (hitem : regularItem sha256 limits path = none) :
    ∃ other ∈ tree.paths, path.parts < other.parts ∧
      (regularItem sha256 limits other).isSome := by
  rcases List.mem_append.mp hpath with hfile | hdirectory
  · obtain ⟨file, -, rfl⟩ := List.mem_map.mp hfile
    cases hitem
  · obtain ⟨parts, hparts, rfl⟩ := List.mem_map.mp hdirectory
    obtain ⟨file, hfile, hmem⟩ := List.mem_flatMap.mp (List.mem_dedup.mp hparts)
    obtain ⟨depth, hdepth, rfl⟩ := List.mem_map.mp hmem
    refine ⟨_, List.mem_append_left _ (List.mem_map_of_mem hfile), ?_, rfl⟩
    refine lt_of_prefix (List.take_prefix _ _) fun heq ↦ ?_
    have hlength : (file.parts.take (depth + 1)).length = file.parts.length :=
      congrArg List.length heq
    have hlt := List.mem_range.mp hdepth
    rw [List.length_take] at hlength
    omega

/-- Two files of a tree have different paths. -/
theorem pairwise_parts_ne : tree.paths.Pairwise fun a b ↦
    (regularItem sha256 limits a).isSome → (regularItem sha256 limits b).isSome →
      a.parts ≠ b.parts := by
  rw [paths, List.pairwise_append]
  refine ⟨?_, ?_, ?_⟩
  · refine List.pairwise_map.mpr (tree.separate.imp fun {a b} hseparate _ _ heq ↦ ?_)
    exact hseparate.1 ((show a.parts = b.parts from heq) ▸ List.prefix_refl a.parts)
  · refine List.pairwise_map.mpr (List.pairwise_of_forall fun a b hitem ↦ ?_)
    cases hitem
  · intro a _ b hb _ hitem
    obtain ⟨parts, -, rfl⟩ := List.mem_map.mp hb
    cases hitem

section Sorted

variable {sorted : List WorkPath} (hperm : sorted.Perm tree.paths)
  (hsorted : sorted.Pairwise fun a b ↦ a.parts ≤ b.parts)

include hperm hsorted

/-- In the order of the parts, the last path is a file. -/
theorem regularItem_getLast?_ne_none :
    ∀ path ∈ sorted.getLast?, regularItem sha256 limits path ≠ none := by
  intro path hlast hnone
  obtain ⟨other, hother, hlt, -⟩ :=
    exists_file_behind (hperm.mem_iff.mp (List.mem_of_getLast? hlast)) hnone
  obtain ⟨before, rfl⟩ := List.getLast?_eq_some_iff.mp hlast
  have hle : other.parts ≤ path.parts := by
    rcases List.mem_append.mp (hperm.mem_iff.mpr hother) with hbefore | hself
    · exact (List.pairwise_append.mp hsorted).2.2 other hbefore path List.mem_cons_self
    · rw [List.mem_singleton.mp hself]
  exact absurd hlt (not_lt.mpr hle)

/-- In the order of the parts, the files come in the order in which the slash is the first
character. -/
theorem pairwise_filterMap_sorted :
    (sorted.filterMap (regularItem sha256 limits)).Pairwise fun a b ↦
      a.path.map (rank 47) < b.path.map (rank 47) := by
  have hsymm : Std.Symm fun a b : WorkPath ↦ (regularItem sha256 limits a).isSome →
      (regularItem sha256 limits b).isSome → a.parts ≠ b.parts :=
    ⟨fun _ _ hne hb ha ↦ (hne ha hb).symm⟩
  have hdifferent : sorted.Pairwise fun a b ↦ (regularItem sha256 limits a).isSome →
      (regularItem sha256 limits b).isSome → a.parts ≠ b.parts :=
    (hperm.pairwise_iff fun {a b} ↦ hsymm.symm a b).mpr pairwise_parts_ne
  rw [List.pairwise_filterMap]
  refine (hsorted.and hdifferent).imp_of_mem fun {a b} ha hb hboth x hx y hy ↦ ?_
  obtain ⟨first, hfirst, hfirstParts, hfirstPath⟩ :=
    exists_file_of_item (hperm.mem_iff.mp ha) hx
  obtain ⟨second, hsecond, hsecondParts, hsecondPath⟩ :=
    exists_file_of_item (hperm.mem_iff.mp hb) hy
  rw [hfirstPath, hsecondPath, map_rank_path_lt_iff hfirst hsecond, ← hfirstParts, ← hsecondParts]
  exact lt_of_le_of_ne hboth.1
    (hboth.2 (Option.isSome_of_mem hx) (Option.isSome_of_mem hy))

end Sorted

/-- The state of a tree within the limits. -/
theorem sampleExternalState_tree {listing : List WorkPath} (hlisting : listing.Perm tree.paths)
    (hcount : tree.files.length ≤ limits.maxFiles)
    (hsize : tree.totalSize ≤ limits.maxTotalSize) :
    ∃ files, sampleExternalState sha256 limits listing = { files := files } ∧
      files.Perm (tree.files.map (hostItem sha256 limits)) ∧
      files.Pairwise fun a b ↦ a.path.map (rank 47) < b.path.map (rank 47) := by
  have hperm : (listing.mergeSort partsLe).Perm tree.paths :=
    (List.mergeSort_perm _ _).trans hlisting
  have hsorted : (listing.mergeSort partsLe).Pairwise fun a b ↦ a.parts ≤ b.parts :=
    pairwise_mergeSort (fun _ _ ↦ decide_eq_true_iff) listing
  have hitems : ((listing.mergeSort partsLe).filterMap (regularItem sha256 limits)).Perm
      (tree.files.map (hostItem sha256 limits)) := by
    rw [← filterMap_paths]
    exact hperm.filterMap _
  refine ⟨_, sampleLoop_eq (regularItem_getLast?_ne_none hperm hsorted) ?_ ?_, ?_, ?_⟩
  · rw [hitems.length_eq, List.length_map, List.length_nil, Nat.zero_add]
    exact hcount
  · rw [(hitems.map _).sum_eq, List.map_map, Nat.zero_add]
    exact hsize
  · exact hitems
  · exact pairwise_filterMap_sorted hperm hsorted

/-! ### Trees on which samplers agree -/

/-- The digest of every file is taken of the file as it is. -/
def SampledWhole (tree : FileTree) (limits : StateLimits) : Prop :=
  ∀ file ∈ tree.files, Orchestrator.SampledWhole limits.maxFileSample file.content

/-- No path goes on with a slash where another one has a smaller character. -/
def SameOrder (tree : FileTree) : Prop :=
  ∀ a ∈ tree.files, ∀ b ∈ tree.files, ¬Reordered 47 a.path b.path

/-- No sample that differs from its file has the digest of the file. -/
def NoCollision (tree : FileTree) (sha256 : List UInt8 → String) (limits : StateLimits) : Prop :=
  ∀ file ∈ tree.files,
    sha256 (sampledBytes limits.maxFileSample file.content) = sha256 file.content →
      sampledBytes limits.maxFileSample file.content = file.content

theorem sameOrder_iff : tree.SameOrder ↔ ∀ a ∈ tree.files, ∀ b ∈ tree.files,
    (a.path.map (rank 47) < b.path.map (rank 47) ↔ a.path < b.path) := by
  constructor
  · intro hsame a ha b hb
    exact (map_rank_lt_iff a.path b.path).mpr ⟨hsame a ha b hb, hsame b hb a ha⟩
  · intro horders a ha b hb
    exact ((map_rank_lt_iff a.path b.path).mp (horders a ha b hb)).1

end FileTree

end SyzAbi.Orchestrator

import SyzAbi.Targets.FatImage

/-!
# The difference of two external states

`diff_external_state` (`targets/tgoskits_arceos/api.py`): the state of an ArceOS run is what the run
changed on the disk image. The function walks the files of the current state and keeps those that
are new or have changed. It never looks for a file of the base state that is gone, so the difference
is faithful exactly when no file was removed (`faithfulDifference_iff`).
-/

set_option autoImplicit false
set_option relaxedAutoImplicit false

namespace SyzAbi.Targets

/-! ### The function -/

/-- `base_by_path`: a later item replaces an earlier one. -/
def baseByPath (base : ExternalState) (path : PyStr) : Option FileItem :=
  base.files.reverse.find? fun item ↦ item.path = path

/-- Whether an item of the current state goes into the difference. -/
def isChanged (base : ExternalState) (item : FileItem) : Bool :=
  match baseByPath base item.path with
  | none => true
  | some previous => previous.sha256 ≠ item.sha256 ∨ previous.size ≠ item.size

/-- `diff_external_state`. -/
def diffExternalState (base current : ExternalState) : ExternalState :=
  if base.readError ≠ none ∨ current.readError ≠ none then
    { files := current.files, readError := current.readError }
  else { files := (current.files.filter (isChanged base)).mergeSort pathLe }

/-! ### File systems -/

/-- What is at a path: the size and the digest of a file. -/
abbrev FileMap := PyStr → Option (ℕ × Option String)

/-- Replaying a difference: its files replace those of the base. -/
def FileMap.replay (base difference : FileMap) : FileMap :=
  fun path ↦ (difference path).or (base path)

/-- What a list of files says of a path. -/
def fileMap (files : List FileItem) : FileMap :=
  fun path ↦ (files.find? fun item ↦ item.path = path).map fun item ↦ (item.size, item.sha256)

/-- A state without a read error and with distinct paths. -/
structure IsListing (state : ExternalState) : Prop where
  readError : state.readError = none
  nodup : (state.files.map FileItem.path).Nodup

/-- The base and the difference determine the current files, and an empty difference says that the
files are the same. -/
structure FaithfulDifference (base current difference : ExternalState) : Prop where
  replay : (fileMap base.files).replay (fileMap difference.files) = fileMap current.files
  files_eq_nil_iff : difference.files = [] ↔ fileMap base.files = fileMap current.files

section FileMap

variable {files : List FileItem} {path : PyStr}

theorem fileMap_eq_none_iff : fileMap files path = none ↔ path ∉ files.map FileItem.path := by
  rw [fileMap, Option.map_eq_none_iff, List.find?_eq_none]
  simp

theorem eq_nil_iff_fileMap : files = [] ↔ ∀ path, fileMap files path = none := by
  refine ⟨fun h _ ↦ by rw [h]; rfl, fun h ↦ ?_⟩
  refine List.eq_nil_iff_forall_not_mem.mpr fun item hitem ↦ ?_
  exact fileMap_eq_none_iff.mp (h item.path) (List.mem_map_of_mem hitem)

theorem find?_path_eq_some_iff (hnodup : (files.map FileItem.path).Nodup) {item : FileItem} :
    (files.find? fun item ↦ item.path = path) = some item ↔ item ∈ files ∧ item.path = path := by
  constructor
  · intro hfind
    have hpath := List.find?_some hfind
    exact ⟨List.mem_of_find?_eq_some hfind, of_decide_eq_true hpath⟩
  · rintro ⟨hitem, rfl⟩
    obtain ⟨other, hother⟩ : ∃ other,
        (files.find? fun other ↦ other.path = item.path) = some other :=
      Option.ne_none_iff_exists'.mp fun hnone ↦
        List.find?_eq_none.mp hnone item hitem (decide_eq_true rfl)
    have hpath := List.find?_some hother
    rw [hother]
    exact congrArg some (List.inj_on_of_nodup_map hnodup (List.mem_of_find?_eq_some hother) hitem
      (of_decide_eq_true hpath))

theorem fileMap_eq_some_iff (hnodup : (files.map FileItem.path).Nodup) {entry : ℕ × Option String} :
    fileMap files path = some entry ↔
      ∃ item ∈ files, item.path = path ∧ (item.size, item.sha256) = entry := by
  simp only [fileMap, Option.map_eq_some_iff, find?_path_eq_some_iff hnodup, and_assoc]

/-- Without repeated paths the last item of a path is the first one. -/
theorem baseByPath_eq {base : ExternalState} (hbase : IsListing base) :
    baseByPath base path = base.files.find? fun item ↦ item.path = path := by
  have hreverse : (base.files.reverse.map FileItem.path).Nodup := by
    rw [List.map_reverse]
    exact List.nodup_reverse.mpr hbase.nodup
  ext item
  rw [baseByPath, find?_path_eq_some_iff hreverse, find?_path_eq_some_iff hbase.nodup,
    List.mem_reverse]

/-- An item is kept exactly when the base has something else at its path. -/
theorem isChanged_iff {base : ExternalState} (hbase : IsListing base) {item : FileItem} :
    isChanged base item = true ↔ fileMap base.files item.path ≠ some (item.size, item.sha256) := by
  rw [isChanged, baseByPath_eq hbase, fileMap]
  cases base.files.find? fun other ↦ other.path = item.path with
  | none => exact iff_of_true rfl (Option.some_ne_none _).symm
  | some previous =>
    simp only [Option.map_some, ne_eq, Option.some.injEq, Prod.mk.injEq, decide_eq_true_eq]
    tauto

end FileMap

section Listings

variable {base current : ExternalState} (hbase : IsListing base) (hcurrent : IsListing current)

include hbase hcurrent

/-- The difference has the files of the current state that the base does not have. -/
theorem mem_files_diffExternalState {item : FileItem} :
    item ∈ (diffExternalState base current).files ↔
      item ∈ current.files ∧ fileMap base.files item.path ≠ some (item.size, item.sha256) := by
  have hread : ¬(base.readError ≠ none ∨ current.readError ≠ none) :=
    not_or.mpr ⟨not_not.mpr hbase.readError, not_not.mpr hcurrent.readError⟩
  rw [diffExternalState, if_neg hread, List.mem_mergeSort, List.mem_filter, isChanged_iff hbase]

theorem isListing_diffExternalState : IsListing (diffExternalState base current) := by
  have hread : ¬(base.readError ≠ none ∨ current.readError ≠ none) :=
    not_or.mpr ⟨not_not.mpr hbase.readError, not_not.mpr hcurrent.readError⟩
  rw [diffExternalState, if_neg hread]
  refine ⟨rfl, (((List.mergeSort_perm _ _).map FileItem.path).nodup_iff).mpr ?_⟩
  exact hcurrent.nodup.sublist (List.filter_sublist.map FileItem.path)

/-- What the difference says of a path. -/
theorem fileMap_diffExternalState (path : PyStr) :
    fileMap (diffExternalState base current).files path =
      if fileMap current.files path = fileMap base.files path then none
      else fileMap current.files path := by
  have hdifference := (isListing_diffExternalState hbase hcurrent).nodup
  ext entry
  rw [fileMap_eq_some_iff hdifference]
  constructor
  · rintro ⟨item, hitem, rfl, rfl⟩
    obtain ⟨hmem, hne⟩ := (mem_files_diffExternalState hbase hcurrent).mp hitem
    have hat : fileMap current.files item.path = some (item.size, item.sha256) :=
      (fileMap_eq_some_iff hcurrent.nodup).mpr ⟨item, hmem, rfl, rfl⟩
    rw [if_neg fun heq ↦ hne (heq.symm.trans hat), hat]
  · intro hentry
    split_ifs at hentry with hsame
    obtain ⟨item, hmem, rfl, rfl⟩ := (fileMap_eq_some_iff hcurrent.nodup).mp hentry
    refine ⟨item, (mem_files_diffExternalState hbase hcurrent).mpr ⟨hmem, fun hold ↦ ?_⟩, rfl, rfl⟩
    exact hsame (hentry.trans hold.symm)

/-- The difference is faithful exactly when every file of the base is still there. -/
theorem faithfulDifference_iff :
    FaithfulDifference base current (diffExternalState base current) ↔
      ∀ item ∈ base.files, item.path ∈ current.files.map FileItem.path := by
  have hcover : (∀ item ∈ base.files, item.path ∈ current.files.map FileItem.path) ↔
      ∀ path, fileMap current.files path = none → fileMap base.files path = none := by
    simp only [fileMap_eq_none_iff]
    constructor
    · rintro h path hpath hmem
      obtain ⟨item, hitem, rfl⟩ := List.mem_map.mp hmem
      exact hpath (h item hitem)
    · intro h item hitem
      by_contra hpath
      exact h item.path hpath (List.mem_map_of_mem hitem)
  rw [hcover]
  constructor
  · intro hfaithful path hnone
    have hreplay := congrFun hfaithful.replay path
    rw [FileMap.replay, fileMap_diffExternalState hbase hcurrent, hnone, ite_self,
      Option.none_or] at hreplay
    exact hreplay
  · intro h
    refine ⟨funext fun path ↦ ?_, ?_⟩
    · rw [FileMap.replay, fileMap_diffExternalState hbase hcurrent]
      split_ifs with hsame
      · rw [Option.none_or, hsame]
      · cases hat : fileMap current.files path with
        | none =>
          rw [Option.none_or]
          exact h path hat
        | some entry => rfl
    · rw [eq_nil_iff_fileMap, funext_iff]
      refine forall_congr' fun path ↦ ?_
      rw [fileMap_diffExternalState hbase hcurrent, ite_eq_left_iff]
      constructor
      · intro hnone
        by_contra hne
        have hgone := hnone fun heq ↦ hne heq.symm
        exact hne ((h path hgone).trans hgone.symm)
      · intro hsame hne
        exact absurd hsame.symm hne

end Listings

/-! ### A removed file -/

/-- The file `a`. -/
def oneFileState : ExternalState where
  files := [{ path := [97], size := 1, sha256 := some "digest" }]

/-- When the only file is removed, the difference is as empty as when nothing changes, whatever
replaying it means. -/
theorem not_exists_replay :
    ¬∃ replay : FileMap → FileMap → FileMap, ∀ base current : ExternalState,
      IsListing base → IsListing current →
        replay (fileMap base.files) (fileMap (diffExternalState base current).files) =
          fileMap current.files := by
  rintro ⟨replay, h⟩
  have hremoved := h oneFileState { files := [] } ⟨rfl, by decide⟩ ⟨rfl, List.nodup_nil⟩
  have hunchanged := h oneFileState oneFileState ⟨rfl, by decide⟩ ⟨rfl, by decide⟩
  have hdifference : diffExternalState oneFileState oneFileState =
      diffExternalState oneFileState { files := [] } := by decide +kernel
  rw [hdifference, hremoved] at hunchanged
  have hat := congrFun hunchanged [97]
  revert hat
  decide

/-- Removing the only file. -/
theorem faithfulDifference_iff_removed :
    FaithfulDifference oneFileState { files := [] }
        (diffExternalState oneFileState { files := [] }) ↔
      ∀ item ∈ oneFileState.files, item.path ∈ ([] : List FileItem).map FileItem.path :=
  faithfulDifference_iff ⟨rfl, by decide⟩ ⟨rfl, List.nodup_nil⟩

theorem oneFileState_not_faithful :
    ¬∀ base current : ExternalState, IsListing base → IsListing current →
      FaithfulDifference base current (diffExternalState base current) := by
  intro h
  have hremoved := h oneFileState { files := [] } ⟨rfl, by decide⟩ ⟨rfl, List.nodup_nil⟩
  have hat := congrFun (hremoved.files_eq_nil_iff.mp (by decide +kernel)) [97]
  revert hat
  decide

end SyzAbi.Targets

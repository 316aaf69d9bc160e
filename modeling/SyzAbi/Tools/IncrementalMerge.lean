import SyzAbi.Tools.CorpusOrder

/-!
# Merging the corpus in steps

The rows of a target are merged, the merged rows of a batch are concatenated, and the rows of all
batches are merged once more. Uniting sorted sets absorbs what was united before
(`absorbs_candidateMerging`), so this is a single merge of all rows
(`mergeCandidateRows_incremental`, `CorpusRun.generatedRows_merge`): a row of the generated file
covers what any row of its program covers (`CorpusRun.exists_covering`).
-/

set_option autoImplicit false
set_option relaxedAutoImplicit false

namespace SyzAbi.Tools.CandidateCorpus

open Analyzer Orchestrator Library.KeyedMerge

theorem absorbs_candidateMerging : candidateMerging.Absorbs where
  first_first row := by
    refine CandidateRow.withSets_congr rfl (fun mode ↦ ?_) (fun name ↦ ?_) <;>
      exact mem_sortedSet
  first_combine existing row := by
    refine CandidateRow.withSets_congr rfl (fun mode ↦ ?_) (fun name ↦ ?_) <;>
      simp only [candidateMerging, CandidateRow.withSets, List.mem_append, mem_sortedSet]
  combine_first existing row := by
    refine CandidateRow.withSets_congr rfl (fun mode ↦ ?_) (fun name ↦ ?_) <;>
      simp only [candidateMerging, CandidateRow.withSets, List.mem_append, mem_sortedSet]
  combine_combine existing other row := by
    refine CandidateRow.withSets_congr rfl (fun mode ↦ ?_) (fun name ↦ ?_) <;>
      simp only [candidateMerging, CandidateRow.withSets, List.mem_append, mem_sortedSet, or_assoc]

/-- The rows of one program. -/
def rowsOf (rows : List CandidateRow) (programId : PyStr) : List CandidateRow :=
  rows.filter fun row ↦ row.programId = programId

/-- The row that the rows of a program become. -/
theorem foldl_extend_eq (row : CandidateRow) (modes covered : List PyStr)
    (later : List CandidateRow) :
    later.foldl (extend candidateMerging) (some (row.withSets modes covered)) =
      some (row.withSets (modes ++ later.flatMap CandidateRow.sourceModes)
        (covered ++ later.flatMap CandidateRow.coveredTargetSyscalls)) := by
  induction later generalizing modes covered with
  | nil => simp
  | cons next later ih =>
    have hnext : extend candidateMerging (some (row.withSets modes covered)) next =
        some (row.withSets (modes ++ next.sourceModes)
          (covered ++ next.coveredTargetSyscalls)) := by
      refine congrArg some (CandidateRow.withSets_congr rfl (fun mode ↦ ?_) (fun name ↦ ?_)) <;>
        simp only [CandidateRow.withSets, List.mem_append, mem_sortedSet]
    rw [List.foldl_cons, hnext, ih, List.flatMap_cons, List.flatMap_cons, List.append_assoc,
      List.append_assoc]

/-- A merged row is the first row of its program with the sorted unions over all its rows. -/
theorem exists_rowsOf_of_mem {rows : List CandidateRow} {row : CandidateRow}
    (hrow : row ∈ mergeCandidateRows rows) :
    ∃ first later, rowsOf rows row.programId = first :: later ∧
      row = first.withSets ((rowsOf rows row.programId).flatMap CandidateRow.sourceModes)
        ((rowsOf rows row.programId).flatMap CandidateRow.coveredTargetSyscalls) := by
  rw [mergeCandidateRows_eq] at hrow
  have hfold : (rowsOf rows row.programId).foldl (extend candidateMerging) none = some row := by
    rw [← group_of_mem_merge hrow]
    unfold group rowsOf
    exact congrArg _ (List.filter_congr fun _ _ ↦ decide_eq_decide.mpr Iff.rfl)
  cases hrows : rowsOf rows row.programId with
  | nil =>
    rw [hrows] at hfold
    cases hfold
  | cons first later =>
    rw [hrows] at hfold
    refine ⟨first, later, rfl, ?_⟩
    have hunion := foldl_extend_eq first first.sourceModes first.coveredTargetSyscalls later
    exact (Option.some.inj (hunion.symm.trans hfold)).symm

/-- Nothing that a row covers is lost. -/
theorem exists_covering {rows : List CandidateRow} {row : CandidateRow} (hrow : row ∈ rows) :
    ∃ merged ∈ mergeCandidateRows rows, merged.programId = row.programId ∧
      row.sourceModes ⊆ merged.sourceModes ∧
      row.coveredTargetSyscalls ⊆ merged.coveredTargetSyscalls := by
  have hkey : row.programId ∈ (mergeCandidateRows rows).map CandidateRow.programId := by
    rw [mergeCandidateRows_eq]
    exact (mem_map_key_merge (m := candidateMerging)).mpr (List.mem_map_of_mem hrow)
  obtain ⟨merged, hmerged, hid⟩ := List.mem_map.mp hkey
  obtain ⟨first, later, -, hsame⟩ := exists_rowsOf_of_mem hmerged
  have hof : row ∈ rowsOf rows merged.programId :=
    List.mem_filter.mpr ⟨hrow, decide_eq_true hid.symm⟩
  refine ⟨merged, hmerged, hid, fun mode hmode ↦ ?_, fun name hname ↦ ?_⟩
  · rw [hsame]
    exact mem_sortedSet.mpr (List.mem_flatMap.mpr ⟨row, hof, hmode⟩)
  · rw [hsame]
    exact mem_sortedSet.mpr (List.mem_flatMap.mpr ⟨row, hof, hname⟩)

/-- Merging row lists on their own first and then their concatenation is merging the concatenation
of the row lists. The merged rows have one row for each program, in ascending order, with the sorted
unions of the modes and of the covered targets of all its rows. -/
theorem mergeCandidateRows_incremental (pieces : List (List CandidateRow)) :
    mergeCandidateRows (pieces.map mergeCandidateRows).flatten =
        mergeCandidateRows pieces.flatten ∧
      ((mergeCandidateRows pieces.flatten).map CandidateRow.programId).Pairwise (· < ·) ∧
      (∀ programId, programId ∈ (mergeCandidateRows pieces.flatten).map CandidateRow.programId ↔
        programId ∈ pieces.flatten.map CandidateRow.programId) ∧
      ∀ row ∈ mergeCandidateRows pieces.flatten,
        row.sourceModes = sortedSet
          ((rowsOf pieces.flatten row.programId).flatMap CandidateRow.sourceModes) ∧
        row.coveredTargetSyscalls = sortedSet
          ((rowsOf pieces.flatten row.programId).flatMap CandidateRow.coveredTargetSyscalls) := by
  have hmerge : mergeCandidateRows = merge candidateMerging := funext mergeCandidateRows_eq
  refine ⟨?_, ?_, fun programId ↦ ?_, fun row hrow ↦ ?_⟩
  · rw [← List.flatMap_def, mergeCandidateRows_eq, mergeCandidateRows_eq, hmerge]
    exact absorbs_candidateMerging.mergePieces_eq pieces
  · rw [mergeCandidateRows_eq]
    exact pairwise_key_merge (m := candidateMerging) _
  · rw [mergeCandidateRows_eq]
    exact mem_map_key_merge (m := candidateMerging)
  · obtain ⟨first, later, -, hsame⟩ := exists_rowsOf_of_mem hrow
    exact ⟨congrArg CandidateRow.sourceModes hsame,
      congrArg CandidateRow.coveredTargetSyscalls hsame⟩

variable {env : Environment} {start : MetaStore} {targetRows : List Target} {pool : Pool}

/-- The rows that the sources deliver in a run, in the order in which the batches complete. -/
def CorpusRun.gatheredRows (run : CorpusRun env start targetRows pool) : List CandidateRow :=
  run.completed.flatMap fun batch ↦ batch.targets.zipIdx.flatMap fun entry ↦
    (gatherRows (targetSyscallSet targetRows)
      (loadExistingCorpusIndex env (targetSyscallSet targetRows)) run.templates
      (batch.views entry.2) entry.1).rows

/-- The generated file is a single merge of what the sources deliver. -/
theorem CorpusRun.generatedRows_merge (run : CorpusRun env start targetRows pool) :
    run.generatedRows = mergeCandidateRows run.gatheredRows := by
  have hmerge : mergeCandidateRows = merge candidateMerging := funext mergeCandidateRows_eq
  have hpieces := absorbs_candidateMerging.mergePieces_eq
    (run.completed.flatMap fun batch ↦ batch.targets.zipIdx.map fun entry ↦
      (gatherRows (targetSyscallSet targetRows)
        (loadExistingCorpusIndex env (targetSyscallSet targetRows)) run.templates
        (batch.views entry.2) entry.1).rows)
  simp only [mergePieces, List.flatMap_assoc, List.flatMap_map, List.flatten_eq_flatMap,
    id_eq] at hpieces
  simpa only [CorpusRun.generatedRows, CorpusRun.gatheredRows, hmerge, runBatch, List.flatMap_map,
    generateRowsForTarget] using hpieces

/-- Whatever a source delivers for a target is covered in the generated file, however the targets
are split into batches and in whatever order these complete. -/
theorem CorpusRun.exists_covering (run : CorpusRun env start targetRows pool) {row : CandidateRow}
    (hrow : row ∈ run.gatheredRows) :
    ∃ merged ∈ run.generatedRows, merged.programId = row.programId ∧
      row.sourceModes ⊆ merged.sourceModes ∧
      row.coveredTargetSyscalls ⊆ merged.coveredTargetSyscalls := by
  rw [run.generatedRows_merge]
  exact CandidateCorpus.exists_covering hrow

end SyzAbi.Tools.CandidateCorpus

import Mathlib.Logic.Function.Basic
import SyzAbi.Library.KeyedMerge
import SyzAbi.Orchestrator.Schedule

/-!
# Generating the candidate corpus

`tools/generate_scml_candidates.py` gathers candidate programs for every target syscall from three
sources: the existing corpus, the seed templates, and the generator. The rows of a target are
merged by program (`mergeCandidateRows`), the targets are worked off in batches by a pool of
threads, and the rows of the batches are merged once more in the order in which the batches
complete.

The threads share the directory of the program metadata: what an inspection finds there depends on
what the others have written. A `View` is what the inspections for one target may find.

The inspector and the generator are programs outside Python, so they are services. Programs are
their texts, and directories are resolved paths.
-/

set_option autoImplicit false
set_option relaxedAutoImplicit false

namespace SyzAbi.Tools.CandidateCorpus

open Analyzer Orchestrator Library.KeyedMerge

/-! ### Rows -/

/-- A row of the generated file. -/
structure CandidateRow where
  programId : PyStr
  workflow : PyStr
  sourceMode : PyStr
  sourceModes : List PyStr
  sourceWorkflow : PyStr
  sourceProgramId : PyStr
  normalizedPath : PyStr
  metaPath : PyStr
  coveredTargetSyscalls : List PyStr
  deriving DecidableEq

/-- `merge_candidate_rows`, one row. -/
def mergeCandidateRow (merged : List CandidateRow) (row : CandidateRow) : List CandidateRow :=
  if row.programId ∈ merged.map CandidateRow.programId then
    merged.map fun existing ↦
      if existing.programId = row.programId then
        { existing with
          sourceModes := sortedSet (existing.sourceModes ++ row.sourceModes)
          coveredTargetSyscalls :=
            sortedSet (existing.coveredTargetSyscalls ++ row.coveredTargetSyscalls) }
      else existing
  else
    merged ++ [{ row with
      sourceModes := sortedSet row.sourceModes
      coveredTargetSyscalls := sortedSet row.coveredTargetSyscalls }]

/-- `merge_candidate_rows`. -/
def mergeCandidateRows (rows : List CandidateRow) : List CandidateRow :=
  (rows.foldl mergeCandidateRow []).insertionSort fun row other ↦ row.programId ≤ other.programId

/-- `ProgramMeta`, as far as the generation reads it. -/
structure StoredMeta where
  syscallList : List PyStr
  fullSyscallList : List PyStr
  deriving DecidableEq

/-- `candidate_target_coverage`. -/
def candidateTargetCoverage (stored : StoredMeta) (targets : List PyStr) : List PyStr :=
  sortedSet (stored.syscallList.filter (· ∈ targets))

/-! ### Services and settings -/

/-- A row of the existing corpus, with the metadata at its path and whether `derive_rejection`
accepts them. -/
structure ExistingRow where
  programId : PyStr
  workflow : Option PyStr
  normalizedPath : PyStr
  metaPath : PyStr
  stored : StoredMeta
  accepted : Bool

/-- What `inspect_program` answers. -/
structure Inspection where
  programId : PyStr
  stored : StoredMeta

/-- A row of the targets file. -/
structure Target where
  syscallName : PyStr
  category : PyStr
  supportTier : PyStr
  generatorClass : PyStr
  generatorGapReason : PyStr

/-- The configuration, the files and the programs that a generation uses. The generator gets a
syscall name, a budget and a preferred length; its seed is computed from the workflow and the name.
Errors are the texts of the exceptions that the generation catches. -/
structure Environment where
  workflow : PyStr
  normalizedDir : PyStr
  metaDir : PyStr
  sourceModes : List PyStr
  perTargetBudget : ℕ
  preferredLength : ℕ
  existingCorpusLimit : ℕ
  allowVariantTemplates : List PyStr
  existing : List ExistingRow
  templates : PyStr → List PyStr
  inspect : PyStr → Except PyStr Inspection
  generator : PyStr → ℕ → ℕ → Except PyStr (List PyStr)

/-- The metadata files, by program. -/
abbrev MetaStore := PyStr → Option StoredMeta

/-- Rows by syscall name. -/
abbrev Index := PyStr → List CandidateRow

def existingCorpus : PyStr := PyStr.ofString "existing_corpus"

def seedTemplates : PyStr := PyStr.ofString "seed_templates"

def syzGenerate : PyStr := PyStr.ofString "syz_generate"

variable (env : Environment)

/-! ### Sources -/

/-- `candidate_row_from_existing`. -/
def candidateRowFromExisting (row : ExistingRow) (coveredTargets : List PyStr)
    (sourceMode : PyStr) : CandidateRow where
  programId := row.programId
  workflow := env.workflow
  sourceMode := sourceMode
  sourceModes := [sourceMode]
  sourceWorkflow := row.workflow.getD []
  sourceProgramId := row.programId
  normalizedPath := row.normalizedPath
  metaPath := row.metaPath
  coveredTargetSyscalls := coveredTargets

/-- The loop of `load_existing_corpus_index`. -/
def addExisting (targets : List PyStr) (index : Index) (row : ExistingRow) : Index :=
  if row.accepted then
    let covered := candidateTargetCoverage row.stored targets
    let candidate := candidateRowFromExisting env row covered existingCorpus
    covered.foldl (fun index syscallName ↦
      if env.existingCorpusLimit ≤ (index syscallName).length then index
      else Function.update index syscallName (index syscallName ++ [candidate])) index
  else index

/-- `load_existing_corpus_index`. -/
def loadExistingCorpusIndex (targets : List PyStr) : Index :=
  env.existing.foldl (addExisting env targets) fun _ ↦ []

/-- The path of a program's file in a directory. -/
def programPath (directory programId : PyStr) (suffix : String) : PyStr :=
  directory ++ PyStr.ofString "/" ++ programId ++ PyStr.ofString suffix

/-- `persist_inspected_program`: the row and the metadata, and the metadata files afterwards. -/
def persistInspectedProgram (sourceMode : PyStr) (store : MetaStore) (program : PyStr) :
    Except PyStr (CandidateRow × StoredMeta) × MetaStore :=
  match env.inspect program with
  | .error error => (.error error, store)
  | .ok info =>
    let stored := (store info.programId).getD info.stored
    let row : CandidateRow :=
      { programId := info.programId
        workflow := env.workflow
        sourceMode := sourceMode
        sourceModes := [sourceMode]
        sourceWorkflow := env.workflow
        sourceProgramId := info.programId
        normalizedPath := programPath env.normalizedDir info.programId ".syz"
        metaPath := programPath env.metaDir info.programId ".json"
        coveredTargetSyscalls := [] }
    (.ok (row, stored), Function.update store info.programId (some stored))

/-- A full name is a variant of a syscall: `full_name.startswith(f"{syscall_name}$")`. -/
def isVariant (syscallName fullName : PyStr) : Bool :=
  (syscallName ++ PyStr.ofString "$").isPrefixOf fullName

/-- The loop of `load_template_index`; an error of the inspector is not caught. -/
def addTemplate (targets : List PyStr) (state : Index × MetaStore) (entry : PyStr × PyStr) :
    Except PyStr (Index × MetaStore) :=
  match persistInspectedProgram env seedTemplates state.2 entry.2 with
  | (.error error, _) => .error error
  | (.ok (row, stored), store) =>
    if stored.fullSyscallList.any (isVariant entry.1) ∧ entry.1 ∉ env.allowVariantTemplates then
      .ok (state.1, store)
    else
      let covered := candidateTargetCoverage stored targets
      if entry.1 ∈ covered then
        let row := { row with coveredTargetSyscalls := covered }
        .ok (Function.update state.1 entry.1 (state.1 entry.1 ++ [row]), store)
      else .ok (state.1, store)

/-- `target_syscall_set`. -/
def targetSyscallSet (targetRows : List Target) : List PyStr := targetRows.map Target.syscallName

/-- `load_template_index`. -/
def loadTemplateIndex (start : MetaStore) (targetRows : List Target) :
    Except PyStr (Index × MetaStore) :=
  let entries := (targetSyscallSet targetRows).flatMap fun syscallName ↦
    (env.templates syscallName).map fun program ↦ (syscallName, program)
  entries.foldlM (addTemplate env (targetSyscallSet targetRows)) (fun _ ↦ [], start)

/-! ### One target -/

/-- The metadata files that inspections may leave, from a start. -/
inductive Reachable (start : MetaStore) : MetaStore → Prop
  | start : Reachable start start
  | persist (sourceMode program : PyStr) {store : MetaStore} (hstore : Reachable start store) :
    Reachable start (persistInspectedProgram env sourceMode store program).2

/-- What the inspections for one target find, one after the other, whatever other threads do. -/
structure View (start : MetaStore) where
  found : ℕ → MetaStore
  reachable : ∀ index, Reachable env start (found index)

/-- A view of the files that nobody changes. -/
def View.still (start : MetaStore) : View env start := ⟨fun _ ↦ start, fun _ ↦ .start⟩

variable {env} {start : MetaStore}

/-- The rows of the generated programs, and the text of the last inspection that failed. -/
def inspectGenerated (view : View env start) (targets : List PyStr) (syscallName : PyStr) :
    ℕ → List PyStr → List CandidateRow × Option PyStr
  | _, [] => ([], none)
  | index, program :: rest =>
    let later := inspectGenerated view targets syscallName (index + 1) rest
    match (persistInspectedProgram env syzGenerate (view.found index) program).1 with
    | .error error => (later.1, some (later.2.getD error))
    | .ok (row, stored) =>
      let covered := candidateTargetCoverage stored targets
      if syscallName ∈ covered then
        ({ row with coveredTargetSyscalls := covered } :: later.1, later.2)
      else later

/-- What the three sources deliver for a target. -/
structure Gathered where
  rows : List CandidateRow
  sourceModesAttempted : List PyStr
  generatorError : Option PyStr
  inspectError : Option PyStr

/-- The rows of a source that the settings name. -/
def fromIndex (env : Environment) (sourceMode : PyStr) (index : Index) (syscallName : PyStr) :
    List CandidateRow × List PyStr :=
  if sourceMode ∈ env.sourceModes then (index syscallName, [sourceMode]) else ([], [])

/-- The first half of `generate_rows_for_target`. -/
def gatherRows (targets : List PyStr) (existing templates : Index) (view : View env start)
    (target : Target) : Gathered :=
  let fromExisting := fromIndex env existingCorpus existing target.syscallName
  let fromTemplates := fromIndex env seedTemplates templates target.syscallName
  let rows := fromExisting.1 ++ fromTemplates.1
  let attempted := fromExisting.2 ++ fromTemplates.2
  if syzGenerate ∈ env.sourceModes ∧ target.generatorClass = PyStr.ofString "base_only" then
    match env.generator target.syscallName env.perTargetBudget env.preferredLength with
    | .error error => ⟨rows, attempted ++ [syzGenerate], some error, none⟩
    | .ok programs =>
      let generated := inspectGenerated view targets target.syscallName 0 programs
      ⟨rows ++ generated.1, attempted ++ [syzGenerate], none, generated.2⟩
  else ⟨rows, attempted, none, none⟩

/-- A row of the coverage report. -/
structure CoverageRow where
  syscallName : PyStr
  generatorClass : PyStr
  generatorGapReason : PyStr
  sourceModesAttempted : List PyStr
  candidateCount : ℕ
  generatorError : Option PyStr
  inspectError : Option PyStr

/-- A row of the report of gaps. -/
structure GapRow where
  syscallName : PyStr
  category : PyStr
  supportTier : PyStr
  generatorClass : PyStr
  generatorGapReason : PyStr
  sourceModesAttempted : List PyStr
  generatorError : Option PyStr
  inspectError : Option PyStr

/-- What `generate_rows_for_target` returns. -/
structure TargetResult where
  rows : List CandidateRow
  coverage : CoverageRow
  gap : Option GapRow

/-- Why a target has no candidate. -/
def gapReason (target : Target) (gathered : Gathered) : PyStr :=
  if gathered.generatorError.isSome then PyStr.ofString "generator_failed"
  else if gathered.inspectError.isSome then PyStr.ofString "inspect_failed"
  else if target.generatorClass ∈ [PyStr.ofString "helper_only", PyStr.ofString "unavailable"] then
    target.generatorGapReason
  else PyStr.ofString "generation_exhausted"

/-- `generate_rows_for_target`. -/
def generateRowsForTarget (targets : List PyStr) (existing templates : Index)
    (view : View env start) (target : Target) : TargetResult :=
  let gathered := gatherRows targets existing templates view target
  let uniqueRows := mergeCandidateRows gathered.rows
  { rows := uniqueRows
    coverage :=
      { syscallName := target.syscallName
        generatorClass := target.generatorClass
        generatorGapReason := target.generatorGapReason
        sourceModesAttempted := gathered.sourceModesAttempted
        candidateCount := uniqueRows.length
        generatorError := gathered.generatorError
        inspectError := gathered.inspectError }
    gap :=
      if uniqueRows.isEmpty then
        some
          { syscallName := target.syscallName
            category := target.category
            supportTier := target.supportTier
            generatorClass := target.generatorClass
            generatorGapReason := gapReason target gathered
            sourceModesAttempted := gathered.sourceModesAttempted
            generatorError := gathered.generatorError
            inspectError := gathered.inspectError }
      else none }

/-! ### Batches -/

/-- `settings["jobs"]` and `settings["batch_size"]`, as `generation_settings` bounds them. -/
structure Pool where
  jobs : ℕ
  batchSize : ℕ
  one_le_jobs : 1 ≤ jobs
  one_le_batchSize : 1 ≤ batchSize

/-- `target_batches`. -/
def targetBatches (rows : List Target) (batchSize : ℕ) : List (List Target) :=
  (chunkOffsets rows.length batchSize).map (chunkAt rows batchSize)

/-- A batch with what its inspections find. -/
structure BatchRun (env : Environment) (start : MetaStore) where
  targets : List Target
  views : ℕ → View env start

/-- What `run_batch` returns. -/
structure BatchResult where
  rows : List CandidateRow
  coverage : List CoverageRow
  gaps : List GapRow

/-- `run_batch`. -/
def runBatch (targets : List PyStr) (existing templates : Index) (batch : BatchRun env start) :
    BatchResult :=
  let results := batch.targets.zipIdx.map fun entry ↦
    generateRowsForTarget targets existing templates (batch.views entry.2) entry.1
  { rows := results.flatMap TargetResult.rows
    coverage := results.map TargetResult.coverage
    gaps := results.filterMap TargetResult.gap }

/-- The batches complete one after the other without a pool, in any order with one. -/
def Completes (pool : Pool) (batches completed : List (List Target)) : Prop :=
  if pool.jobs ≤ 1 ∨ batches.length ≤ 1 then completed = batches else completed.Perm batches

/-- A run of `main` that gets through, from some metadata files. -/
structure CorpusRun (env : Environment) (start : MetaStore) (targetRows : List Target)
    (pool : Pool) where
  templates : Index
  loaded : MetaStore
  load_eq : loadTemplateIndex env start targetRows = .ok (templates, loaded)
  completed : List (BatchRun env loaded)
  completes : Completes pool (targetBatches targetRows pool.batchSize)
    (completed.map BatchRun.targets)

/-- The rows that are written to the generated file. -/
def CorpusRun.generatedRows {targetRows : List Target} {pool : Pool}
    (run : CorpusRun env start targetRows pool) : List CandidateRow :=
  mergeCandidateRows (run.completed.flatMap fun batch ↦
    (runBatch (targetSyscallSet targetRows)
      (loadExistingCorpusIndex env (targetSyscallSet targetRows)) run.templates batch).rows)

end SyzAbi.Tools.CandidateCorpus

import SyzAbi.Tools.CandidateCorpus
import SyzAbi.Tools.InspectProgram

/-!
# The generated file and the order of the batches

`merge_candidate_rows` unites the source modes and the covered targets of the rows of one program,
and takes the other fields from the row that comes first (`candidateMerging`). What the inspections
find does not depend on the other threads, as an inspector that names programs by their content
reports the same calls under one name (`persistInspectedProgram_fst`); `syzabi_inspect` does when
its library reads programs back (`inspectorConsistent_inspection`). So the generated file is a
merge of the rows of the targets, merged on their own, in the order in which the batches complete
(`generatedRows_eq`). It is the same for all batch sizes and orders exactly when the first rows that
any two targets get for one program agree on the fields that are not united
(`generatedRows_unique_iff`).
-/

set_option autoImplicit false
set_option relaxedAutoImplicit false

namespace SyzAbi.Tools.CandidateCorpus

open Analyzer Orchestrator Library.KeyedMerge Library.Fallible

/-! ### The merge -/

/-- The fields of a row that a merge does not unite. -/
def CandidateRow.kept (row : CandidateRow) : CandidateRow :=
  { row with sourceModes := [], coveredTargetSyscalls := [] }

/-- A row is its kept fields and the two united ones. -/
theorem CandidateRow.ext_kept {row other : CandidateRow} (hkept : row.kept = other.kept)
    (hmodes : row.sourceModes = other.sourceModes)
    (hcovered : row.coveredTargetSyscalls = other.coveredTargetSyscalls) : row = other := by
  cases row
  cases other
  simp_all [CandidateRow.kept]

/-- The row with other source modes and covered targets. -/
def CandidateRow.withSets (row : CandidateRow) (modes covered : List PyStr) : CandidateRow :=
  { row with sourceModes := sortedSet modes, coveredTargetSyscalls := sortedSet covered }

theorem CandidateRow.withSets_congr {row other : CandidateRow} (hkept : row.kept = other.kept)
    {modes modes' covered covered' : List PyStr} (hmodes : ∀ mode, mode ∈ modes ↔ mode ∈ modes')
    (hcovered : ∀ name, name ∈ covered ↔ name ∈ covered') :
    row.withSets modes covered = other.withSets modes' covered' :=
  CandidateRow.ext_kept hkept (sortedSet_congr hmodes) (sortedSet_congr hcovered)

/-- `merge_candidate_rows` as a merge of rows by program. -/
def candidateMerging : Merging CandidateRow PyStr CandidateRow where
  key := CandidateRow.programId
  kept := CandidateRow.kept
  first row := row.withSets row.sourceModes row.coveredTargetSyscalls
  combine existing row := existing.withSets (existing.sourceModes ++ row.sourceModes)
    (existing.coveredTargetSyscalls ++ row.coveredTargetSyscalls)
  key_first _ := rfl
  key_combine _ _ := rfl
  kept_first _ := rfl
  kept_combine _ _ := rfl
  combine_right_comm existing row other := by
    refine CandidateRow.withSets_congr rfl (fun mode ↦ ?_) (fun name ↦ ?_) <;>
      simp only [CandidateRow.withSets, List.mem_append, mem_sortedSet, or_right_comm]
  combine_first_comm row other _ hkept := by
    refine CandidateRow.withSets_congr hkept (fun mode ↦ ?_) (fun name ↦ ?_) <;>
      simp only [CandidateRow.withSets, List.mem_append, mem_sortedSet, or_comm]

theorem mergeCandidateRows_eq (rows : List CandidateRow) :
    mergeCandidateRows rows = merge candidateMerging rows := by
  have hrow : mergeCandidateRow = enter candidateMerging := by
    funext merged row
    unfold mergeCandidateRow enter
    congr
  rw [mergeCandidateRows, hrow]
  unfold merge enterAll
  congr

/-! ### The inspections -/

/-- Programs that the inspector gives one name have the same calls: the name is a digest of the
normalized text, from which the calls are read. -/
def InspectorConsistent (inspect : PyStr → Except PyStr Inspection) : Prop :=
  ∀ program other info info', inspect program = .ok info → inspect other = .ok info' →
    info.programId = info'.programId → info.stored = info'.stored

/-- The inspector of a library, as `inspect_program` calls it by default. The lists of a program
without calls print as `null`, which the generation cannot go through; neither a template nor the
generator gives such a program. -/
def inspection {Prog : Type} (lib : ImportSyz.ProgLibrary Prog) (text : PyStr) :
    Except PyStr Inspection := do
  let info ← lib.inspectProgram false text
  match info.syscallList, info.fullSyscallList with
  | some syscallList, some fullSyscallList =>
    return ⟨info.programId, ⟨syscallList, fullSyscallList⟩⟩
  | _, _ => .error (PyStr.ofString "'NoneType' object is not iterable")

theorem exists_of_inspection {Prog : Type} {lib : ImportSyz.ProgLibrary Prog} {text : PyStr}
    {found : Inspection} (hfound : inspection lib text = .ok found) :
    ∃ program, lib.deserialize false text = .ok program ∧
      found.programId = lib.programId program ∧
      some found.stored.syscallList = (lib.info program).syscallList ∧
      some found.stored.fullSyscallList = (lib.info program).fullSyscallList := by
  obtain ⟨info, hinfo, hfound⟩ := bind_eq_ok_iff.mp hfound
  obtain ⟨program, hprogram, rfl⟩ : ∃ program, lib.deserialize false text = .ok program ∧
      lib.info program = info := by
    rw [ImportSyz.ProgLibrary.inspectProgram] at hinfo
    cases hread : lib.deserialize false text with
    | error error =>
      rw [hread] at hinfo
      cases hinfo
    | ok program =>
      rw [hread] at hinfo
      exact ⟨program, rfl, Except.ok.inj hinfo⟩
  refine ⟨program, hprogram, ?_⟩
  split at hfound
  · next syscallList fullSyscallList hlist hfull =>
    rw [← pure_eq_ok_iff.mp hfound]
    exact ⟨rfl, hlist.symm, hfull.symm⟩
  · cases hfound

/-- A library that reads its programs back gives different programs different names. -/
theorem inspectorConsistent_inspection {Prog : Type} {lib : ImportSyz.ProgLibrary Prog}
    (hlib : lib.ReadsBack fun program ↦ ∃ text, lib.deserialize false text = .ok program) :
    InspectorConsistent (inspection lib) := by
  intro text other found found' hfound hfound' hid
  obtain ⟨program, hprogram, hname, hlist, hfull⟩ := exists_of_inspection hfound
  obtain ⟨program', hprogram', hname', hlist', hfull'⟩ := exists_of_inspection hfound'
  obtain rfl : program = program' :=
    hlib.injective ⟨text, hprogram⟩ ⟨other, hprogram'⟩ (hname.symm.trans (hid.trans hname'))
  have hcalls := Option.some.inj (hlist.trans hlist'.symm)
  have hnames := Option.some.inj (hfull.trans hfull'.symm)
  obtain ⟨_, stored⟩ := found
  obtain ⟨_, stored'⟩ := found'
  exact congrArg₂ StoredMeta.mk hcalls hnames

variable {env : Environment} {start : MetaStore}

/-- The metadata that an inspection reads do not depend on the inspections before it. -/
theorem getD_of_reachable (hinspector : InspectorConsistent env.inspect) {store : MetaStore}
    (hstore : Reachable env start store) {program : PyStr} {info : Inspection}
    (hinfo : env.inspect program = .ok info) :
    (store info.programId).getD info.stored = (start info.programId).getD info.stored := by
  induction hstore generalizing program info with
  | start => rfl
  | @persist sourceMode persisted store _ ih =>
    unfold persistInspectedProgram
    cases hpersisted : env.inspect persisted with
    | error error => exact ih hinfo
    | ok other =>
      by_cases hid : info.programId = other.programId
      · have hstored := hinspector _ _ _ _ hinfo hpersisted hid
        simp only [hid, Function.update_self, Option.getD_some]
        rw [ih hpersisted, hstored]
      · simp only [Function.update_of_ne hid]
        exact ih hinfo

/-- An inspection returns the same row and metadata whatever inspections came before it. -/
theorem persistInspectedProgram_fst (hinspector : InspectorConsistent env.inspect)
    {store : MetaStore} (hstore : Reachable env start store) (sourceMode program : PyStr) :
    (persistInspectedProgram env sourceMode store program).1 =
      (persistInspectedProgram env sourceMode start program).1 := by
  unfold persistInspectedProgram
  cases hinfo : env.inspect program with
  | error error => rfl
  | ok info => simp only [getD_of_reachable hinspector hstore hinfo]

theorem inspectGenerated_eq_still (hinspector : InspectorConsistent env.inspect)
    (view : View env start) (targets : List PyStr) (syscallName : PyStr) (index : ℕ)
    (programs : List PyStr) :
    inspectGenerated view targets syscallName index programs =
      inspectGenerated (View.still env start) targets syscallName index programs := by
  induction programs generalizing index with
  | nil => rfl
  | cons program rest ih =>
    rw [inspectGenerated, inspectGenerated, ih,
      persistInspectedProgram_fst hinspector (view.reachable index)]
    rfl

/-- What is generated for a target does not depend on the other threads. -/
theorem generateRowsForTarget_eq_still (hinspector : InspectorConsistent env.inspect)
    (targets : List PyStr) (existing templates : Index) (view : View env start)
    (target : Target) :
    generateRowsForTarget targets existing templates view target =
      generateRowsForTarget targets existing templates (View.still env start) target := by
  have hgather : gatherRows targets existing templates view target =
      gatherRows targets existing templates (View.still env start) target := by
    simp only [gatherRows, inspectGenerated_eq_still hinspector view]
  rw [generateRowsForTarget, generateRowsForTarget, hgather]

/-! ### The batches -/

/-- The rows that the three sources deliver for a target. -/
def sourceRows (env : Environment) (loaded : MetaStore) (targetRows : List Target)
    (templates : Index) (target : Target) : List CandidateRow :=
  (gatherRows (targetSyscallSet targetRows)
    (loadExistingCorpusIndex env (targetSyscallSet targetRows)) templates (View.still env loaded)
    target).rows

theorem targetBatches_flatten (rows : List Target) {batchSize : ℕ} (hsize : 1 ≤ batchSize) :
    (targetBatches rows batchSize).flatten = rows := by
  rw [targetBatches, ← List.flatMap_def]
  exact flatMap_chunkAt rows hsize

theorem targetBatches_one (rows : List Target) :
    targetBatches rows 1 = rows.map fun target ↦ [target] := by
  have hlength : (targetBatches rows 1).length = rows.length := by
    simp [targetBatches, chunkOffsets]
  refine List.ext_getElem (by rw [hlength, List.length_map]) fun index hindex hindex' ↦ ?_
  have hbound : index < rows.length := hlength ▸ hindex
  have htake : (rows.drop index).take 1 = [rows[index]] := by
    rw [List.drop_eq_getElem_cons hbound]
    rfl
  simp [targetBatches, chunkOffsets, chunkAt, htake]

variable {targetRows : List Target} {pool : Pool}

/-- The batches that complete hold the targets. -/
theorem CorpusRun.perm_targets (run : CorpusRun env start targetRows pool) :
    (run.completed.flatMap BatchRun.targets).Perm targetRows := by
  have hbatches : (run.completed.map BatchRun.targets).Perm
      (targetBatches targetRows pool.batchSize) := by
    have hcompletes := run.completes
    unfold Completes at hcompletes
    split_ifs at hcompletes
    · exact List.Perm.of_eq hcompletes
    · exact hcompletes
  rw [List.flatMap_def]
  exact hbatches.flatten.trans
    (List.Perm.of_eq (targetBatches_flatten targetRows pool.one_le_batchSize))

theorem runBatch_rows (hinspector : InspectorConsistent env.inspect) (targets : List PyStr)
    (existing templates : Index) (batch : BatchRun env start) :
    (runBatch targets existing templates batch).rows = batch.targets.flatMap fun target ↦
      (generateRowsForTarget targets existing templates (View.still env start) target).rows := by
  simp only [runBatch, List.flatMap_map, generateRowsForTarget_eq_still hinspector _ _ _
    (batch.views _)]
  conv_rhs => rw [← List.zipIdx_map_fst 0 batch.targets, List.flatMap_map]

/-- The generated file is a merge of the rows of the targets, merged on their own. -/
theorem CorpusRun.generatedRows_eq (hinspector : InspectorConsistent env.inspect)
    (run : CorpusRun env start targetRows pool) :
    run.generatedRows = mergePieces candidateMerging
      ((run.completed.flatMap BatchRun.targets).map
        (sourceRows env run.loaded targetRows run.templates)) := by
  simp only [CorpusRun.generatedRows, mergePieces, mergeCandidateRows_eq,
    runBatch_rows hinspector, ← List.flatMap_assoc, List.flatMap_map, generateRowsForTarget,
    sourceRows]

def twoThreads : Pool := ⟨2, 1, Nat.one_le_ofNat, le_rfl⟩

/-- Batches of one target that a pool of two threads completes in some order. -/
def singleBatches (templates : Index) (loaded : MetaStore)
    (hload : loadTemplateIndex env start targetRows = .ok (templates, loaded))
    (order : List Target) (horder : order.Perm targetRows) :
    CorpusRun env start targetRows twoThreads where
  templates := templates
  loaded := loaded
  load_eq := hload
  completed := order.map fun target ↦ ⟨[target], fun _ ↦ View.still env loaded⟩
  completes := by
    have htargets : (order.map fun target ↦
        (⟨[target], fun _ ↦ View.still env loaded⟩ : BatchRun env loaded)).map BatchRun.targets =
          order.map fun target ↦ [target] := by
      rw [List.map_map]
      rfl
    have hperm := horder.map fun target ↦ [target]
    rw [htargets, show twoThreads.batchSize = 1 from rfl, targetBatches_one, Completes]
    split_ifs with hfew
    · have hshort : (targetRows.map fun target ↦ [target]).length ≤ 1 :=
        hfew.resolve_left (by decide)
      rcases Nat.le_one_iff_eq_zero_or_eq_one.mp hshort with hzero | hone
      · rw [List.length_eq_zero_iff] at hzero
        rw [hzero] at hperm ⊢
        exact hperm.eq_nil
      · obtain ⟨only, honly⟩ := List.length_eq_one_iff.mp hone
        rw [honly] at hperm ⊢
        exact List.perm_singleton.mp hperm
    · exact hperm

theorem singleBatches_targets (templates : Index) (loaded : MetaStore)
    (hload : loadTemplateIndex env start targetRows = .ok (templates, loaded))
    (order : List Target) (horder : order.Perm targetRows) :
    (singleBatches templates loaded hload order horder).completed.flatMap BatchRun.targets =
      order := by
  rw [singleBatches, List.flatMap_map]
  exact List.flatMap_singleton' order

/-- The generated file is the same for all batch sizes, numbers of threads and orders of completion
exactly when the first rows that any two targets get for one program agree on the fields that a
merge does not unite; and a merge gives the same on every permutation of its rows exactly when the
rows of one program agree on these fields. -/
theorem generatedRows_unique_iff (hinspector : InspectorConsistent env.inspect)
    (start : MetaStore) (targetRows : List Target) :
    ((∀ (pool pool' : Pool) (run : CorpusRun env start targetRows pool)
        (run' : CorpusRun env start targetRows pool'), run.generatedRows = run'.generatedRows) ↔
      ∀ templates loaded, loadTemplateIndex env start targetRows = .ok (templates, loaded) →
        FirstsAgree candidateMerging
          (targetRows.map (sourceRows env loaded targetRows templates))) ∧
    ∀ rows : List CandidateRow,
      (∀ other : List CandidateRow, other.Perm rows →
        mergeCandidateRows other = mergeCandidateRows rows) ↔ KeptAgree candidateMerging rows := by
  refine ⟨⟨fun h templates loaded hload ↦ ?_, fun h pool pool' run run' ↦ ?_⟩, fun rows ↦ ?_⟩
  · refine (mergePieces_perm_iff targetRows _).mp fun order horder ↦ ?_
    have hsame := h _ _ (singleBatches templates loaded hload order horder)
      (singleBatches templates loaded hload targetRows (List.Perm.refl _))
    rw [CorpusRun.generatedRows_eq hinspector, CorpusRun.generatedRows_eq hinspector,
      singleBatches_targets, singleBatches_targets] at hsame
    exact hsame
  · have hagree := (mergePieces_perm_iff targetRows _).mpr
      (h run.templates run.loaded run.load_eq) _ run.perm_targets
    have hagree' := (mergePieces_perm_iff targetRows _).mpr
      (h run'.templates run'.loaded run'.load_eq) _ run'.perm_targets
    have hloads : (run.templates, run.loaded) = (run'.templates, run'.loaded) :=
      Except.ok.inj (run.load_eq.symm.trans run'.load_eq)
    obtain ⟨htemplates, hloaded⟩ := Prod.mk.inj hloads
    rw [run.generatedRows_eq hinspector, run'.generatedRows_eq hinspector, hagree, hagree',
      htemplates, hloaded]
  · simp only [mergeCandidateRows_eq]
    exact merge_perm_iff rows

/-! ### A program from two sources -/

def forkTarget : Target where
  syscallName := PyStr.ofString "fork"
  category := PyStr.ofString "process-and-thread-management"
  supportTier := PyStr.ofString "full"
  generatorClass := PyStr.ofString "unavailable"
  generatorGapReason := PyStr.ofString "missing_description"

def getppidTarget : Target where
  syscallName := PyStr.ofString "getppid"
  category := PyStr.ofString "process-and-thread-management"
  supportTier := PyStr.ofString "full"
  generatorClass := PyStr.ofString "unavailable"
  generatorGapReason := PyStr.ofString "disabled_in_syzkaller"

/-- The program `fork()`, `getppid()`, which the existing corpus and a seed template hold. -/
def sharedProgram : PyStr := PyStr.ofString "fork()\ngetppid()\n"

/-- The library as far as it reads this program. -/
def sharedLibrary : ImportSyz.ProgLibrary Unit where
  targetOs := PyStr.ofString "linux"
  arch := PyStr.ofString "amd64"
  calls _ :=
    [⟨PyStr.ofString "fork", PyStr.ofString "fork", [], false, 0, 0⟩,
      ⟨PyStr.ofString "getppid", PyStr.ofString "getppid", [], false, 0, 0⟩]
  serialize _ := sharedProgram
  deserialize _ text :=
    if text = sharedProgram then .ok () else .error (PyStr.ofString "parse_error")
  sha256Hex _ := PyStr.ofString "02"

/-- A limit of one existing program for a target. The list of `getppid` is full when the program
that has both calls is reached, and a seed template for `getppid` has the same program. -/
def sharedCorpus : Environment where
  workflow := PyStr.ofString "asterinas_scml"
  normalizedDir := PyStr.ofString "/scml/normalized"
  metaDir := PyStr.ofString "/scml/meta"
  sourceModes := [existingCorpus, syzGenerate, seedTemplates]
  perTargetBudget := 8
  preferredLength := 4
  existingCorpusLimit := 1
  allowVariantTemplates := []
  existing :=
    [{ programId := PyStr.ofString "01"
       workflow := some (PyStr.ofString "baseline")
       normalizedPath := PyStr.ofString "/base/01.syz"
       metaPath := PyStr.ofString "/base/01.json"
       stored := ⟨[PyStr.ofString "getppid"], [PyStr.ofString "getppid"]⟩
       accepted := true },
     { programId := PyStr.ofString "02"
       workflow := some (PyStr.ofString "baseline")
       normalizedPath := PyStr.ofString "/base/02.syz"
       metaPath := PyStr.ofString "/base/02.json"
       stored := ⟨[PyStr.ofString "fork", PyStr.ofString "getppid"],
         [PyStr.ofString "fork", PyStr.ofString "getppid"]⟩
       accepted := true }]
  templates syscallName :=
    if syscallName = PyStr.ofString "getppid" then [sharedProgram] else []
  inspect := inspection sharedLibrary
  generator _ _ _ := .error (PyStr.ofString "syzabi_generate failed")

/-- The templates and the metadata files after the templates are loaded. -/
def sharedTemplates : Index × MetaStore :=
  (loadTemplateIndex sharedCorpus (fun _ ↦ none) [forkTarget, getppidTarget]).toOption.getD
    (fun _ ↦ [], fun _ ↦ none)

theorem loadTemplateIndex_sharedCorpus :
    loadTemplateIndex sharedCorpus (fun _ ↦ none) [forkTarget, getppidTarget] =
      .ok (sharedTemplates.1, sharedTemplates.2) := rfl

/-- The two orders in which the batches of the two targets can complete. -/
def forkFirst : CorpusRun sharedCorpus (fun _ ↦ none) [forkTarget, getppidTarget]
    twoThreads :=
  singleBatches sharedTemplates.1 sharedTemplates.2 loadTemplateIndex_sharedCorpus
    [forkTarget, getppidTarget] (List.Perm.refl _)

def getppidFirst : CorpusRun sharedCorpus (fun _ ↦ none) [forkTarget, getppidTarget]
    twoThreads :=
  singleBatches sharedTemplates.1 sharedTemplates.2 loadTemplateIndex_sharedCorpus
    [getppidTarget, forkTarget] (List.Perm.swap _ _ _)

/-- The rows that the sources deliver for one of the two targets. -/
def sharedRows : Target → List CandidateRow :=
  sourceRows sharedCorpus sharedTemplates.2 [forkTarget, getppidTarget] sharedTemplates.1

/-- The program has the row of the existing corpus in one order, that of the template in the
other. -/
theorem sharedCorpus_order_matters :
    forkFirst.generatedRows.map (fun row ↦ (row.programId, row.sourceMode)) =
      [(PyStr.ofString "01", existingCorpus), (PyStr.ofString "02", existingCorpus)] ∧
    getppidFirst.generatedRows.map (fun row ↦ (row.programId, row.sourceMode)) =
      [(PyStr.ofString "01", existingCorpus), (PyStr.ofString "02", seedTemplates)] ∧
    forkFirst.generatedRows ≠ getppidFirst.generatedRows ∧
    mergeCandidateRows (sharedRows forkTarget ++ sharedRows getppidTarget) ≠
      mergeCandidateRows (sharedRows getppidTarget ++ sharedRows forkTarget) := by
  decide

theorem inspectorConsistent_sharedCorpus : InspectorConsistent sharedCorpus.inspect :=
  inspectorConsistent_inspection
    { deserialize := fun _ _ ↦ rfl
      collision := fun _ _ _ _ _ ↦ rfl }

/-- The first rows of the program for the two targets come from different sources. -/
theorem not_generatedRows_unique_sharedCorpus :
    ¬∀ (pool pool' : Pool)
        (run : CorpusRun sharedCorpus (fun _ ↦ none) [forkTarget, getppidTarget] pool)
        (run' : CorpusRun sharedCorpus (fun _ ↦ none) [forkTarget, getppidTarget] pool'),
        run.generatedRows = run'.generatedRows := by
  intro hunique
  have hagree := (generatedRows_unique_iff inspectorConsistent_sharedCorpus _ _).1.mp hunique _ _
    loadTemplateIndex_sharedCorpus
  have hkept := hagree (sharedRows forkTarget) List.mem_cons_self (sharedRows getppidTarget)
    (List.mem_cons_of_mem _ List.mem_cons_self) (PyStr.ofString "02") _ _ rfl rfl
  exact absurd hkept (by decide)

end SyzAbi.Tools.CandidateCorpus

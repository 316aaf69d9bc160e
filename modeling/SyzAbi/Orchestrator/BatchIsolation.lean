import SyzAbi.Orchestrator.CandidateBatch
import SyzAbi.Orchestrator.VerdictSoundness

/-!
# Failures in a batch

When every case of a chunk is executed and read without an exception, each case gets the result that
it gets alone, up to the name of its package. When some case of the chunk raises, the whole batch
raises: every case of the chunk becomes an infrastructure error of the stage
`execute_candidate_batch_with_context`, which no case gets alone. So the cases of a campaign are
isolated from each other's failures exactly when every chunk with a failing case consists of failing
cases (`batchIsolated_iff`).

The stages that belong to a batch as a whole (the preparation of the package or of the manifest, the
shared execution) are taken to complete (`StagesComplete`), and a candidate run is taken to be the
same in every package (`PlacementFree`).
-/

set_option autoImplicit false
set_option relaxedAutoImplicit false

namespace SyzAbi.Orchestrator

open Analyzer Library.Fallible Library.Slots

/-! ### The chunk of a case -/

section Chunks

variable {svc : Services} {entries : List Entry}

/-- The pending cases of a campaign. -/
def campaignPending (svc : Services) (entries : List Entry) : List (ℕ × Prepared) :=
  pendingCases (entries.map fun entry ↦ some (prepareCaseSafe svc entry))

/-- The batch of a chunk. -/
def chunkBatch (chunk : List (ℕ × Prepared)) : List BatchCase :=
  chunk.map fun item ↦ batchCase item.2

/-- The number of a pending case determines it. -/
theorem campaignPending_functional {index : ℕ} {prepared prepared' : Prepared}
    (hitem : (index, prepared) ∈ campaignPending svc entries)
    (hitem' : (index, prepared') ∈ campaignPending svc entries) : prepared = prepared' := by
  obtain ⟨entry, hentry, houtcome⟩ := mem_pendingCases.mp hitem
  obtain ⟨entry', hentry', houtcome'⟩ := mem_pendingCases.mp hitem'
  obtain rfl : entry = entry' := Option.some.inj (hentry.symm.trans hentry')
  exact PrepareOutcome.candidateReady.inj (houtcome.symm.trans houtcome')

theorem nodup_campaignPending (svc : Services) (entries : List Entry) :
    (campaignPending svc entries).Nodup := by
  unfold campaignPending pendingCases
  refine List.Nodup.filterMap ?_ ?_
  · rintro ⟨outcome, index⟩ ⟨outcome', index'⟩ ⟨number, prepared⟩ hmatch hmatch'
    dsimp only at hmatch hmatch'
    rw [Option.mem_def] at hmatch hmatch'
    rcases outcome with _ | ⟨result | ready⟩
    · cases hmatch
    · cases hmatch
    rcases outcome' with _ | ⟨result' | ready'⟩
    · cases hmatch'
    · cases hmatch'
    obtain ⟨rfl, rfl⟩ := Prod.mk.inj (Option.some.inj hmatch)
    obtain ⟨rfl, rfl⟩ := Prod.mk.inj (Option.some.inj hmatch')
    rfl
  · refine List.Nodup.of_map Prod.snd ?_
    rw [List.zipIdx_map_snd]
    exact List.nodup_range'

/-- The programs of the pending cases are distinct when those of the entries are. -/
theorem nodup_programs (hdistinct : (entries.map Entry.programId).Nodup) :
    ((campaignPending svc entries).map fun item ↦ item.2.programId).Nodup := by
  refine List.Nodup.map_on ?_ (nodup_campaignPending svc entries)
  rintro ⟨index, prepared⟩ hitem ⟨index', prepared'⟩ hitem' hprogram
  obtain ⟨entry, hentry, houtcome⟩ := mem_pendingCases.mp hitem
  obtain ⟨entry', hentry', houtcome'⟩ := mem_pendingCases.mp hitem'
  have hsame : entry.programId = entry'.programId := by
    rw [← (prepareCaseSafe_candidateReady houtcome).2,
      ← (prepareCaseSafe_candidateReady houtcome').2]
    exact hprogram
  have hprograms : (entries.map Entry.programId)[index]? =
      (entries.map Entry.programId)[index']? := by
    rw [List.getElem?_map, List.getElem?_map]
    rw [hentry, hentry', Option.map_some, Option.map_some, hsame]
  have hbound : index < (entries.map Entry.programId).length := by
    rw [List.length_map]
    exact (List.getElem?_eq_some_iff.mp hentry).1
  obtain rfl : index = index' := (List.getElem?_inj hbound hdistinct).mp hprograms
  rw [campaignPending_functional hitem hitem']

/-- Every pending case is in a chunk. -/
theorem exists_chunk {batchSize : ℕ} (hsize : 1 ≤ batchSize) {item : ℕ × Prepared}
    (hitem : item ∈ campaignPending svc entries) :
    ∃ offset ∈ chunkOffsets (campaignPending svc entries).length batchSize,
      item ∈ chunkAt (campaignPending svc entries) batchSize offset := by
  rw [← flatMap_chunkAt (campaignPending svc entries) hsize] at hitem
  exact List.mem_flatMap.mp hitem

theorem mem_of_mem_chunkAt {α : Type} {pending : List α} {size offset : ℕ} {item : α}
    (hitem : item ∈ chunkAt pending size offset) : item ∈ pending :=
  List.mem_of_mem_drop (List.mem_of_mem_take hitem)

/-- The chunks of a list without repetitions are disjoint. -/
theorem offset_unique {α : Type} [DecidableEq α] {pending : List α} (hnodup : pending.Nodup)
    {size offset offset' : ℕ} {item : α} (hoffset : offset ∈ chunkOffsets pending.length size)
    (hitem : item ∈ chunkAt pending size offset)
    (hoffset' : offset' ∈ chunkOffsets pending.length size)
    (hitem' : item ∈ chunkAt pending size offset') : offset = offset' := by
  have hposition : ∀ offset, item ∈ chunkAt pending size offset →
      offset ≤ pending.idxOf item ∧ pending.idxOf item < offset + size := by
    intro offset hitem
    obtain ⟨position, hposition⟩ := List.mem_iff_getElem?.mp hitem
    rw [chunkAt, List.getElem?_take] at hposition
    split_ifs at hposition with hbound
    rw [List.getElem?_drop] at hposition
    obtain ⟨hlength, rfl⟩ := List.getElem?_eq_some_iff.mp hposition
    rw [hnodup.idxOf_getElem]
    omega
  obtain ⟨count, -, rfl⟩ := List.mem_map.mp hoffset
  obtain ⟨count', -, rfl⟩ := List.mem_map.mp hoffset'
  obtain ⟨hlow, hhigh⟩ := hposition _ hitem
  obtain ⟨hlow', hhigh'⟩ := hposition _ hitem'
  have hcount : count = count' := by
    have hdiv := Nat.div_eq_of_lt_le (k := count) (m := pending.idxOf item) (n := size) hlow
      (by rw [Nat.succ_mul]; exact hhigh)
    have hdiv' := Nat.div_eq_of_lt_le (k := count') (m := pending.idxOf item) (n := size) hlow'
      (by rw [Nat.succ_mul]; exact hhigh')
    exact hdiv.symm.trans hdiv'
  rw [hcount]

/-- The result of a pending case is the one its chunk gives it. -/
theorem getElem?_schedule {execute : BatchExecutor} {orders : ScheduleOrders} {batchSize : ℕ}
    (hsize : 1 ≤ batchSize) (jobs : ℤ) {offset index : ℕ} {prepared : Prepared}
    (hoffset : offset ∈ chunkOffsets (campaignPending svc entries).length batchSize)
    (hitem : (index, prepared) ∈ chunkAt (campaignPending svc entries) batchSize offset) :
    (scheduleEntriesWithCandidateBatch svc execute orders batchSize jobs entries)[index]? =
      some (chunkCaseResult svc
        (execute (chunkBatch (chunkAt (campaignPending svc entries) batchSize offset)))
        prepared) := by
  obtain ⟨entry, hentry, houtcome⟩ := mem_pendingCases.mp (mem_of_mem_chunkAt hitem)
  rw [scheduleEntriesWithCandidateBatch_eq]
  refine getElem?_of_writes (fun _ hindex ↦ mem_map_batchWrites hsize hindex)
    (List.getElem?_eq_some_iff.mp hentry).1 ?_
  intro write hwrite hnumber
  rcases List.mem_append.mp hwrite with hfinal | hchunk
  · obtain ⟨entry', hentry', houtcome'⟩ := mem_finalResults.mp hfinal
    rw [hnumber] at hentry'
    obtain rfl : entry = entry' := Option.some.inj (hentry.symm.trans hentry')
    exact PrepareOutcome.noConfusion (houtcome.symm.trans houtcome')
  · obtain ⟨offset', hoffset', hmem⟩ := List.mem_flatMap.mp hchunk
    rw [executeChunk_eq] at hmem
    obtain ⟨⟨index', prepared'⟩, hitem', rfl⟩ := List.mem_map.mp hmem
    obtain rfl : index' = index := hnumber
    obtain rfl := campaignPending_functional (mem_of_mem_chunkAt hitem)
      (mem_of_mem_chunkAt hitem')
    obtain rfl := offset_unique (nodup_campaignPending svc entries) hoffset hitem hoffset' hitem'
    rfl

/-- In a chunk of size one a case is alone. -/
theorem chunkAt_one_eq {α : Type} {pending : List α} {offset : ℕ} {item : α}
    (hitem : item ∈ chunkAt pending 1 offset) : chunkAt pending 1 offset = [item] := by
  have hlength : (chunkAt pending 1 offset).length ≤ 1 := by
    simp [chunkAt]
  obtain ⟨other, hchunk⟩ := List.length_eq_one_iff.mp
    (Nat.le_antisymm hlength (List.length_pos_of_mem hitem))
  rw [hchunk] at hitem ⊢
  rw [List.mem_singleton.mp hitem]

end Chunks

/-! ### The execution of a case -/

section Execution

variable {bsvc : BatchServices} {order : CompletionOrder} {maxWorkers : Option ℤ}

/-- Whether the batches of a campaign run in the shared mode. -/
def runsShared (bsvc : BatchServices) : Prop :=
  (commandBatchingMode bsvc.config).getD "" = "shared_runtime_batch"

instance (bsvc : BatchServices) : Decidable (runsShared bsvc) :=
  inferInstanceAs (Decidable (_ = _))

/-- The execution of a case and the reading of what it left. -/
def executeOwn (bsvc : BatchServices) (case : BatchCase) : Except PyError RunArtifacts :=
  if runsShared bsvc then finalizeBatchCaseResult bsvc case (bsvc.sharedFiles case)
  else executePreparedCandidateCase bsvc case

/-- A case fails when its own execution or the reading of its output raises. -/
def CaseFails (bsvc : BatchServices) (case : BatchCase) : Prop :=
  ∃ error, executeOwn bsvc case = .error error

theorem executeOwn_of_not_fails {case : BatchCase} (hfails : ¬ CaseFails bsvc case) :
    ∃ run, executeOwn bsvc case = .ok run := by
  cases hrun : executeOwn bsvc case with
  | error error => exact absurd ⟨error, hrun⟩ hfails
  | ok run => exact ⟨run, rfl⟩

/-- The stages of a batch that belong to no case complete. -/
structure StagesComplete (bsvc : BatchServices) : Prop where
  kind : bsvc.config.candidateKind = some "command"
  mode : (commandBatchingMode bsvc.config).getD "" ∈ bsvc.config.executionModes
  prepare : ∀ case, bsvc.prepareCandidateBatchCase case = .ok ()
  package : ∀ cases, ∃ packageDir, bsvc.preparePackage cases = .ok packageDir
  prewarm : ∀ cases packageDir, bsvc.prewarm cases packageDir = .ok ()
  manifest : ∀ cases, bsvc.prepareManifest cases = .ok ()
  shared : ∀ cases, ∃ execution, bsvc.runShared cases = .ok execution ∧
    execution.timedOut = false ∧ execution.osError = none

/-- A batch raises when one of its cases does. -/
theorem collectResults_error {run : BatchCase → Except PyError RunArtifacts}
    {cases : List BatchCase} {case : BatchCase} (hcase : case ∈ cases) {error : PyError}
    (hrun : run case = .error error) : ∃ first, collectResults run cases = .error first := by
  cases hcollect : collectResults run cases with
  | error first => exact ⟨first, rfl⟩
  | ok results =>
    have hpointwise := mapM_eq_ok_iff.mp hcollect
    obtain ⟨result, -, hresult⟩ : ∃ result ∈ results, (do
        return (case.programId, ← run case) : Except PyError (String × RunArtifacts)) =
          .ok result := by
      clear hcollect
      induction hpointwise with
      | nil => cases hcase
      | cons hhead _ ih =>
        rcases List.mem_cons.mp hcase with rfl | htail
        · exact ⟨_, List.mem_cons_self, hhead⟩
        · obtain ⟨result, hmem, hresult⟩ := ih htail
          exact ⟨result, List.mem_cons_of_mem _ hmem, hresult⟩
    rw [hrun] at hresult
    cases hresult

/-- When no case raises, the results by program are those of the cases. -/
theorem collectResults_ok {run : BatchCase → Except PyError RunArtifacts} {cases : List BatchCase}
    (hruns : ∀ case ∈ cases, ∃ artifacts, run case = .ok artifacts) :
    ∃ results, collectResults run cases = .ok results ∧
      List.Forall₂ (fun case result ↦ result.1 = case.programId ∧ run case = .ok result.2)
        cases results := by
  induction cases with
  | nil => exact ⟨[], rfl, List.Forall₂.nil⟩
  | cons case rest ih =>
    obtain ⟨artifacts, hartifacts⟩ := hruns case List.mem_cons_self
    obtain ⟨results, hresults, hpointwise⟩ := ih fun other hother ↦
      hruns other (List.mem_cons_of_mem _ hother)
    refine ⟨(case.programId, artifacts) :: results, ?_,
      List.Forall₂.cons ⟨rfl, hartifacts⟩ hpointwise⟩
    refine mapM_eq_ok_iff.mpr (List.Forall₂.cons ?_ (mapM_eq_ok_iff.mp hresults))
    rw [hartifacts]
    rfl

/-- A case is looked up under its program, when the programs are distinct. -/
theorem lookup_of_pointwise {run : BatchCase → Except PyError RunArtifacts}
    {cases : List BatchCase} {results : List (String × RunArtifacts)}
    (hpointwise : List.Forall₂ (fun case result ↦ result.1 = case.programId ∧
      run case = .ok result.2) cases results)
    (hdistinct : (cases.map BatchCase.programId).Nodup) {case : BatchCase} (hcase : case ∈ cases)
    {artifacts : RunArtifacts} (hrun : run case = .ok artifacts) :
    results.lookup case.programId = some artifacts := by
  induction hpointwise with
  | nil => cases hcase
  | @cons head result rest results hhead _ ih =>
    obtain ⟨hprogram, hresult⟩ := hhead
    rw [List.map_cons, List.nodup_cons] at hdistinct
    obtain ⟨program, value⟩ := result
    change program = head.programId at hprogram
    rcases List.mem_cons.mp hcase with rfl | htail
    · rw [List.lookup_cons, hprogram, beq_self_eq_true]
      exact congrArg some (Except.ok.inj (hresult.symm.trans hrun))
    · have hne : case.programId ≠ program := by
        rintro rfl
        exact hdistinct.1 (hprogram ▸ List.mem_map_of_mem htail)
      rw [List.lookup_cons, beq_false_of_ne hne]
      exact ih hdistinct.2 htail

/-- The cases of a batch in the order in which they complete. -/
def completionOf (order : CompletionOrder) (bsvc : BatchServices) (maxWorkers : Option ℤ)
    (cases : List BatchCase) : List BatchCase :=
  if max 1 (min (cases.length : ℤ) (maxWorkers.getD bsvc.jobs)) = 1 then cases
  else completedItems order cases

theorem completionOf_perm (order : CompletionOrder) (bsvc : BatchServices)
    (maxWorkers : Option ℤ) (cases : List BatchCase) :
    (completionOf order bsvc maxWorkers cases).Perm cases := by
  unfold completionOf
  split_ifs
  · exact List.Perm.refl _
  · exact completedItems_perm order cases

theorem executeShared_eq (hstages : StagesComplete bsvc) (hshared : runsShared bsvc)
    (cases : List BatchCase) :
    executeShared bsvc cases = (collectResults (executeOwn bsvc) cases).map fun results ↦
      ⟨results, none, cases.map fun case ↦ (case.programId, none)⟩ := by
  obtain ⟨execution, hexecution, htimedOut, hosError⟩ := hstages.shared cases
  have hown : executeOwn bsvc = fun case ↦
      finalizeBatchCaseResult bsvc case (bsvc.sharedFiles case) := by
    funext case
    rw [executeOwn, if_pos hshared]
  have hfailed : (execution.timedOut || execution.osError.isSome) = false := by
    rw [htimedOut, hosError]
    rfl
  unfold executeShared
  rw [hstages.manifest, hexecution, hown]
  simp only [ok_bind, hfailed, Bool.false_eq_true, if_false]
  exact bind_pure_eq_map _ _

theorem executePackaged_eq (order : CompletionOrder) (maxWorkers : Option ℤ)
    (hstages : StagesComplete bsvc) (hpackaged : ¬ runsShared bsvc) (cases : List BatchCase) :
    ∃ packageDir, executePackaged bsvc order maxWorkers cases =
      (collectResults (executeOwn bsvc) (completionOf order bsvc maxWorkers cases)).map
        fun results ↦ ⟨results, some packageDir,
          cases.zipIdx.map fun entry ↦ (entry.1.programId, some entry.2)⟩ := by
  obtain ⟨packageDir, hpackage⟩ := hstages.package cases
  have hown : executeOwn bsvc = executePreparedCandidateCase bsvc := by
    funext case
    rw [executeOwn, if_neg hpackaged]
  refine ⟨packageDir, ?_⟩
  unfold executePackaged
  rw [hpackage, hown]
  simp only [ok_bind, hstages.prewarm]
  exact bind_pure_eq_map _ _

/-- A batch whose stages complete goes to the executor of its mode. -/
theorem execute_eq (hstages : StagesComplete bsvc) {cases : List BatchCase} (hcases : cases ≠ []) :
    executeCandidateBatchWithContext bsvc order maxWorkers cases =
      if runsShared bsvc then executeShared bsvc cases
      else executePackaged bsvc order maxWorkers cases := by
  have hempty : cases.isEmpty = false := by simpa using hcases
  have hprepare : cases.mapM bsvc.prepareCandidateBatchCase = .ok (cases.map fun _ ↦ ()) :=
    mapM_eq_ok_iff.mpr
      (List.forall₂_map_right_iff.mpr (List.forall₂_same.mpr fun case _ ↦ hstages.prepare case))
  unfold executeCandidateBatchWithContext
  rw [hempty, if_neg Bool.false_ne_true, if_neg (not_not.mpr hstages.kind)]
  dsimp only
  rw [if_neg (not_not.mpr hstages.mode), hprepare]
  rfl

/-- A batch with a failing case raises. -/
theorem execute_of_fails (order : CompletionOrder) (maxWorkers : Option ℤ)
    (hstages : StagesComplete bsvc) {cases : List BatchCase}
    {case : BatchCase} (hcase : case ∈ cases) (hfails : CaseFails bsvc case) :
    ∃ error, executeCandidateBatchWithContext bsvc order maxWorkers cases = .error error := by
  obtain ⟨error, herror⟩ := hfails
  rw [execute_eq hstages (List.ne_nil_of_mem hcase)]
  split_ifs with hshared
  · obtain ⟨first, hfirst⟩ := collectResults_error hcase herror
    rw [executeShared_eq hstages hshared, hfirst]
    exact ⟨first, rfl⟩
  · obtain ⟨packageDir, hexecute⟩ := executePackaged_eq order maxWorkers hstages hshared cases
    have hmem := (completionOf_perm order bsvc maxWorkers cases).mem_iff.mpr hcase
    obtain ⟨first, hfirst⟩ := collectResults_error hmem herror
    rw [hexecute, hfirst]
    exact ⟨first, rfl⟩

/-- Every case of a package has a slot. -/
theorem exists_slot {cases : List BatchCase} {case : BatchCase} (hcase : case ∈ cases)
    (start : ℕ) :
    ∃ slot, ((cases.zipIdx start).map fun entry ↦ (entry.1.programId, some entry.2)).lookup
      case.programId = some (some slot) := by
  induction cases generalizing start with
  | nil => cases hcase
  | cons head rest ih =>
    rw [List.zipIdx_cons, List.map_cons, List.lookup_cons]
    cases hhead : case.programId == head.programId with
    | true => exact ⟨start, rfl⟩
    | false =>
      rcases List.mem_cons.mp hcase with rfl | htail
      · rw [beq_self_eq_true] at hhead
        cases hhead
      · exact ih htail (start + 1)

theorem lookup_none_join (cases : List BatchCase) (program : String) :
    ((cases.map fun case ↦ (case.programId, (none : Option ℕ))).lookup program).join = none := by
  induction cases with
  | nil => rfl
  | cons head rest ih =>
    rw [List.map_cons, List.lookup_cons]
    cases program == head.programId with
    | true => rfl
    | false => exact ih

/-- A placement names a package and a slot in the packaged mode, and nothing in the shared mode. -/
def Placed (bsvc : BatchServices) (placement : Placement) : Prop :=
  if runsShared bsvc then placement = {}
  else placement.packageDir.isSome ∧ placement.packageSlot.isSome

/-- A batch without a failing case returns the own execution of each of its cases. -/
theorem execute_of_ok (order : CompletionOrder) (maxWorkers : Option ℤ)
    (hstages : StagesComplete bsvc) {cases : List BatchCase}
    (hdistinct : (cases.map BatchCase.programId).Nodup) (hcases : cases ≠ [])
    (hok : ∀ case ∈ cases, ¬ CaseFails bsvc case) :
    ∃ output, executeCandidateBatchWithContext bsvc order maxWorkers cases = .ok output ∧
      ∀ case ∈ cases, ∃ run, executeOwn bsvc case = .ok run ∧
        output.results.lookup case.programId = some run ∧
        Placed bsvc ⟨output.packageDir, (output.slotByProgram.lookup case.programId).join⟩ := by
  rw [execute_eq hstages hcases]
  unfold Placed
  by_cases hshared : runsShared bsvc
  · obtain ⟨results, hresults, hpointwise⟩ := collectResults_ok fun case hcase ↦
      executeOwn_of_not_fails (hok case hcase)
    rw [if_pos hshared, executeShared_eq hstages hshared, hresults]
    refine ⟨_, rfl, fun case hcase ↦ ?_⟩
    obtain ⟨run, hrun⟩ := executeOwn_of_not_fails (hok case hcase)
    refine ⟨run, hrun, lookup_of_pointwise hpointwise hdistinct hcase hrun, ?_⟩
    rw [if_pos hshared, lookup_none_join]
  · obtain ⟨packageDir, hexecute⟩ := executePackaged_eq order maxWorkers hstages hshared
      cases
    have hperm := completionOf_perm order bsvc maxWorkers cases
    obtain ⟨results, hresults, hpointwise⟩ := collectResults_ok fun case hcase ↦
      executeOwn_of_not_fails (hok case (hperm.mem_iff.mp hcase))
    rw [if_neg hshared, hexecute, hresults]
    refine ⟨_, rfl, fun case hcase ↦ ?_⟩
    obtain ⟨run, hrun⟩ := executeOwn_of_not_fails (hok case hcase)
    have hdistinct' := (hperm.map BatchCase.programId).nodup_iff.mpr hdistinct
    refine ⟨run, hrun, lookup_of_pointwise hpointwise hdistinct' (hperm.mem_iff.mpr hcase) hrun, ?_⟩
    obtain ⟨slot, hslot⟩ := exists_slot hcase 0
    rw [if_neg hshared]
    refine ⟨rfl, ?_⟩
    change (List.lookup case.programId _).join.isSome = true
    rw [hslot]
    rfl

end Execution

/-! ### Results up to the package -/

section Isolation

variable {svc : Services} {bsvc : BatchServices}

/-- Two results are the same up to the name of the package and the slot in it. -/
def SameUpToPlacement (left right : CaseResult) : Prop :=
  { left with placement := {} } = { right with placement := {} }

/-- A candidate run is the same in every package and every slot. -/
def PlacementFree (svc : Services) : Prop :=
  ∀ request packageDir packageSlot packageDir' packageSlot',
    svc.executeCandidateCaseInPackage request packageDir packageSlot =
      svc.executeCandidateCaseInPackage request packageDir' packageSlot'

theorem runCandidateOnceWithPackage_placed (hfree : PlacementFree svc)
    {placement placement' : Placement} (hplaced : Placed bsvc placement)
    (hplaced' : Placed bsvc placement') (programId runId suffix : String)
    (injectTrace : Option InjectTrace) :
    runCandidateOnceWithPackage svc programId runId suffix injectTrace placement =
      runCandidateOnceWithPackage svc programId runId suffix injectTrace placement' := by
  unfold Placed at hplaced hplaced'
  split_ifs at hplaced hplaced' with hshared
  · rw [hplaced, hplaced']
  · obtain ⟨packageDir, packageSlot⟩ := placement
    obtain ⟨packageDir', packageSlot'⟩ := placement'
    obtain ⟨packageDir, rfl⟩ := Option.isSome_iff_exists.mp hplaced.1
    obtain ⟨packageSlot, rfl⟩ := Option.isSome_iff_exists.mp hplaced.2
    obtain ⟨packageDir', rfl⟩ := Option.isSome_iff_exists.mp hplaced'.1
    obtain ⟨packageSlot', rfl⟩ := Option.isSome_iff_exists.mp hplaced'.2
    unfold runCandidateOnceWithPackage
    dsimp only
    rw [hfree _ packageDir packageSlot packageDir' packageSlot']

theorem triagedState_placed (hfree : PlacementFree svc) {placement placement' : Placement}
    (hplaced : Placed bsvc placement) (hplaced' : Placed bsvc placement') (prepared : Prepared)
    (candidate : Outcome) :
    triagedState svc prepared candidate placement =
      triagedState svc prepared candidate placement' := by
  have hattempt : triageAttempt svc prepared placement = triageAttempt svc prepared placement' := by
    funext state attempt
    unfold triageAttempt
    rw [runCandidateOnceWithPackage_placed hfree hplaced hplaced']
  unfold triagedState runTriageLoop
  rw [hattempt]

/-- Finalization gives the same result in every package. -/
theorem finalizePreparedCaseSafe_placed (hfree : PlacementFree svc)
    {placement placement' : Placement} (hplaced : Placed bsvc placement)
    (hplaced' : Placed bsvc placement') (prepared : Prepared) (candidate : Outcome) :
    SameUpToPlacement (finalizePreparedCaseSafe svc prepared candidate placement)
      (finalizePreparedCaseSafe svc prepared candidate placement') := by
  have hpackage : placement.packageDir.isSome = placement'.packageDir.isSome := by
    unfold Placed at hplaced hplaced'
    split_ifs at hplaced hplaced' with hshared
    · rw [hplaced, hplaced']
    · rw [hplaced.1, hplaced'.1]
  unfold finalizePreparedCaseSafe finalizePreparedCase
  rw [triagedState_placed hfree hplaced hplaced']
  cases triagedState svc prepared candidate placement' with
  | error error => rfl
  | ok state =>
    rw [ok_bind, ok_bind]
    by_cases hequal : allEqual state.referenceHashes = true
    · rw [hequal]
      simp only [SameUpToPlacement, Bool.not_true, Bool.false_eq_true, if_false, finalizeResult,
        TriageState.result, hpackage]
      rfl
    · rw [Bool.not_eq_true] at hequal
      rw [hequal]
      rfl

/-- The stages at which a case fails on its own are not the stage of a batch. -/
theorem finalizeChunkCase_errorStage (output : BatchOutput) (prepared : Prepared) :
    (finalizeChunkCase svc output prepared).errorStage ≠
      some "execute_candidate_batch_with_context" := by
  unfold finalizeChunkCase
  cases loadBatchResult output prepared with
  | error error =>
    change some "load_candidate_batch_result" ≠ _
    decide
  | ok candidate =>
    unfold finalizePreparedCaseSafe finalizePreparedCase
    dsimp only
    cases triagedState svc prepared candidate _ with
    | error error =>
      change some "finalize_prepared_case" ≠ _
      decide
    | ok state =>
      rw [ok_bind]
      cases allEqual state.referenceHashes with
      | false => exact (Option.some_ne_none _).symm
      | true => exact (Option.some_ne_none _).symm

/-! ### Isolation -/

/-- The result of a pending case in a run whose batches have the given size. -/
def caseResult (svc : Services) (execute : BatchExecutor) (orders : ScheduleOrders)
    (batchSize : ℕ) (jobs : ℤ) (entries : List Entry) (index : ℕ) : Option CaseResult :=
  (scheduleEntriesWithCandidateBatch svc execute orders batchSize jobs entries)[index]?

/-- Every pending case that does not fail itself gets the result that it gets when it is the only
case of its batch. -/
def BatchIsolated (svc : Services) (bsvc : BatchServices) (execute : BatchExecutor)
    (orders : ScheduleOrders) (batchSize : ℕ) (jobs : ℤ) (entries : List Entry) : Prop :=
  ∀ item ∈ campaignPending svc entries, ¬ CaseFails bsvc (batchCase item.2) →
    ∃ result alone, caseResult svc execute orders batchSize jobs entries item.1 = some result ∧
      caseResult svc execute orders 1 jobs entries item.1 = some alone ∧
      SameUpToPlacement result alone

/-- Every chunk with a failing case consists of failing cases. -/
def FailuresFillChunks (svc : Services) (bsvc : BatchServices) (batchSize : ℕ)
    (entries : List Entry) : Prop :=
  ∀ offset ∈ chunkOffsets (campaignPending svc entries).length batchSize,
    ∀ item ∈ chunkAt (campaignPending svc entries) batchSize offset,
      CaseFails bsvc (batchCase item.2) →
        ∀ other ∈ chunkAt (campaignPending svc entries) batchSize offset,
          CaseFails bsvc (batchCase other.2)

/-- The result of a case of a batch without failing cases: its own execution, loaded and
finalized. -/
theorem chunkCaseResult_of_ok (svc : Services) (hstages : StagesComplete bsvc)
    (order : CompletionOrder)
    (maxWorkers : Option ℤ) {chunk : List (ℕ × Prepared)}
    (hdistinct : (chunk.map fun item ↦ item.2.programId).Nodup)
    (hok : ∀ item ∈ chunk, ¬ CaseFails bsvc (batchCase item.2)) {item : ℕ × Prepared}
    (hitem : item ∈ chunk) :
    ∃ run placement, executeOwn bsvc (batchCase item.2) = .ok run ∧ Placed bsvc placement ∧
      chunkCaseResult svc
          (executeCandidateBatchWithContext bsvc order maxWorkers (chunkBatch chunk)) item.2 =
        match (maybeLoadCanonical run).map fun canonical ↦ (run.result, canonical) with
        | .error error => infraErrorResult item.2.entry "load_candidate_batch_result" error
            item.2.referenceResults []
        | .ok candidate => finalizePreparedCaseSafe svc item.2 candidate placement := by
  have hdistinct' : ((chunkBatch chunk).map BatchCase.programId).Nodup := by
    rw [chunkBatch, List.map_map]
    exact hdistinct
  have hmem : batchCase item.2 ∈ chunkBatch chunk := List.mem_map_of_mem hitem
  have hok' : ∀ case ∈ chunkBatch chunk, ¬ CaseFails bsvc case := by
    intro case hcase
    obtain ⟨other, hother, rfl⟩ := List.mem_map.mp hcase
    exact hok other hother
  obtain ⟨output, houtput, hcases⟩ := execute_of_ok order maxWorkers hstages hdistinct'
    (List.ne_nil_of_mem hmem) hok'
  obtain ⟨run, hrun, hlookup, hplaced⟩ := hcases _ hmem
  refine ⟨run, _, hrun, hplaced, ?_⟩
  rw [houtput]
  unfold chunkCaseResult finalizeChunkCase loadBatchResult
  dsimp only
  rw [show item.2.programId = (batchCase item.2).programId from rfl, hlookup]
  dsimp only
  rw [bind_pure_eq_map]
  rfl

/-- A chunk of pending cases has distinct programs when the entries have. -/
theorem nodup_chunk_programs {entries : List Entry}
    (hdistinct : (entries.map Entry.programId).Nodup) (batchSize offset : ℕ) :
    ((chunkAt (campaignPending svc entries) batchSize offset).map
      fun item ↦ item.2.programId).Nodup :=
  (nodup_programs hdistinct).sublist
    (((List.take_sublist _ _).trans (List.drop_sublist _ _)).map _)

/-- Batches isolate the failures of their cases exactly when every chunk with a failing case
consists of failing cases: for every campaign, every batch size, every number of workers, and every
order of completion. -/
theorem batchIsolated_iff (hstages : StagesComplete bsvc) (hfree : PlacementFree svc)
    {entries : List Entry} (hdistinct : (entries.map Entry.programId).Nodup) {batchSize : ℕ}
    (hsize : 1 ≤ batchSize) (jobs : ℤ) (orders : ScheduleOrders)
    (completion : List BatchCase → CompletionOrder) :
    BatchIsolated svc bsvc
        (fun cases ↦ executeCandidateBatchWithContext bsvc (completion cases) (some jobs) cases)
        orders batchSize jobs entries ↔
      FailuresFillChunks svc bsvc batchSize entries := by
  unfold BatchIsolated caseResult
  constructor
  · intro hisolated offset hoffset item hitem hfails other hother
    by_contra hnot
    have hpending := mem_of_mem_chunkAt hother
    obtain ⟨result, alone, hresult, halone, hsame⟩ := hisolated other hpending hnot
    obtain ⟨single, hsingle, hmem⟩ := exists_chunk le_rfl hpending
    rw [getElem?_schedule hsize jobs hoffset hother] at hresult
    rw [getElem?_schedule le_rfl jobs hsingle hmem, chunkAt_one_eq hmem] at halone
    have hbatch : batchCase item.2 ∈
        chunkBatch (chunkAt (campaignPending svc entries) batchSize offset) :=
      List.mem_map_of_mem hitem
    obtain ⟨error, herror⟩ := execute_of_fails (completion _) (some jobs) hstages hbatch hfails
    have hdistinctSingle : ((chunkBatch [other]).map BatchCase.programId).Nodup :=
      List.nodup_singleton _
    obtain ⟨output, houtput, -⟩ := execute_of_ok (completion (chunkBatch [other])) (some jobs)
      hstages hdistinctSingle (List.cons_ne_nil _ _) fun case hcase ↦ by
        rw [List.mem_singleton.mp hcase]
        exact hnot
    rw [herror] at hresult
    rw [houtput] at halone
    obtain rfl := Option.some.inj hresult
    obtain rfl := Option.some.inj halone
    have hstage := congrArg CaseResult.errorStage hsame
    exact finalizeChunkCase_errorStage output other.2 hstage.symm
  · intro hfill item hpending hnot
    obtain ⟨offset, hoffset, hitem⟩ := exists_chunk hsize hpending
    obtain ⟨single, hsingle, hmem⟩ := exists_chunk le_rfl hpending
    have hok : ∀ other ∈ chunkAt (campaignPending svc entries) batchSize offset,
        ¬ CaseFails bsvc (batchCase other.2) := fun other hother hfails ↦
      hnot (hfill offset hoffset other hother hfails item hitem)
    have hdistinctSingle : ([item].map fun item ↦ item.2.programId).Nodup :=
      List.nodup_singleton _
    have hokSingle : ∀ other ∈ [item], ¬ CaseFails bsvc (batchCase other.2) := by
      intro other hother
      rw [List.mem_singleton.mp hother]
      exact hnot
    obtain ⟨run, placement, hrun, hplaced, hresult⟩ := chunkCaseResult_of_ok svc hstages
      (completion (chunkBatch (chunkAt (campaignPending svc entries) batchSize offset)))
      (some jobs) (nodup_chunk_programs hdistinct batchSize offset) hok hitem
    obtain ⟨run', placement', hrun', hplaced', halone⟩ := chunkCaseResult_of_ok svc hstages
      (completion (chunkBatch [item])) (some jobs) hdistinctSingle hokSingle
      List.mem_cons_self
    obtain rfl : run = run' := Except.ok.inj (hrun.symm.trans hrun')
    refine ⟨_, _, getElem?_schedule hsize jobs hoffset hitem,
      getElem?_schedule le_rfl jobs hsingle hmem, ?_⟩
    rw [chunkAt_one_eq hmem, hresult, halone]
    cases (maybeLoadCanonical run).map fun canonical ↦ (run.result, canonical) with
    | error error => rfl
    | ok candidate => exact finalizePreparedCaseSafe_placed hfree hplaced hplaced' item.2 candidate

end Isolation

/-! ### A truncated runner result -/

/-- A campaign whose reference runs all end well without a call. -/
def quietCampaign : Services where
  rerunCount := 2
  noiseSyscalls := []
  workflow := "asterinas"
  injectTrace := none
  buildRoot := id
  clock := fun _ ↦ 0
  buildStatusOk := fun _ ↦ .ok true
  executeSide := fun _ ↦ .ok (emptyRun .reference "reference" "ok" 0)
  executeCandidateCaseInPackage := fun _ _ _ ↦ .ok (emptyRun .candidate "candidate" "ok" 0)
  traceDigest := fun trace ↦ trace.side

/-- The program `q` of `quietCampaign` after its preparation. -/
def quietPrepared : Prepared where
  entry := { programId := "q" }
  programId := "q"
  runId := "0-q"
  injectTrace := none
  referenceResults := [(emptyRun .reference "reference" "ok" 0).result]
  referenceHashes := ["reference"]
  currentReferenceCanonical := some (emptyTrace "reference" 0)

/-- Packaged batches in which the runner result of the program `p` is cut off after its brace. -/
def truncatedBatches : BatchServices where
  config := batchingConfig
  jobs := 1
  runnerKind := "command"
  eventsTransport := "file"
  kernelBuild := "unknown"
  snapshotId := "snapshot"
  artifactsDir := "artifacts"
  prepareCandidateBatchCase := fun _ ↦ .ok ()
  preparePackage := fun _ ↦ .ok "package"
  prewarm := fun _ _ ↦ .ok ()
  runPackaged := fun case ↦ .ok (
    { returncode := some 0, stdout := [], stderr := [], status := some "ok" },
    if case.programId = "p" then { runnerResult := some [0x7B] } else {})
  prepareManifest := fun _ ↦ .ok ()
  runShared := fun _ ↦ .ok { returncode := some 0, stdout := [], stderr := [] }
  sharedFiles := fun _ ↦ {}

/-- The executor of `truncatedBatches`. -/
def truncatedExecutor : BatchExecutor := fun cases ↦
  executeCandidateBatchWithContext truncatedBatches .submission (some 1) cases

theorem batchIsolated_iff_truncated :
    BatchIsolated quietCampaign truncatedBatches truncatedExecutor
        ⟨.submission, fun _ ↦ .submission, .submission⟩ 2 1
        [{ programId := "p" }, { programId := "q" }] ↔
      FailuresFillChunks quietCampaign truncatedBatches 2
        [{ programId := "p" }, { programId := "q" }] := by
  have hstages : StagesComplete truncatedBatches := by
    refine ⟨rfl, by decide, fun _ ↦ rfl, fun _ ↦ ⟨_, rfl⟩, fun _ _ ↦ rfl, fun _ ↦ rfl, fun _ ↦ ?_⟩
    exact ⟨_, rfl, rfl, rfl⟩
  have hfree : PlacementFree quietCampaign := fun _ _ _ _ _ ↦ rfl
  exact batchIsolated_iff hstages hfree (by decide) (by decide) 1 _ fun _ ↦ .submission

/-- The case `q`, which does not fail, is `NO_DIFF` alone and an infrastructure error next to `p`.
-/
theorem truncatedBatches_not_isolated :
    (∃ result alone, caseResult quietCampaign truncatedExecutor
        ⟨.submission, fun _ ↦ .submission, .submission⟩ 2 1
        [{ programId := "p" }, { programId := "q" }] 1 = some result ∧
      caseResult quietCampaign truncatedExecutor
        ⟨.submission, fun _ ↦ .submission, .submission⟩ 1 1
        [{ programId := "p" }, { programId := "q" }] 1 = some alone ∧
      result.classification = .infraError ∧ alone.classification = .noDiff) ∧
    ¬ BatchIsolated quietCampaign truncatedBatches truncatedExecutor
        ⟨.submission, fun _ ↦ .submission, .submission⟩ 2 1
        [{ programId := "p" }, { programId := "q" }] := by
  have hresults : ∃ result alone, caseResult quietCampaign truncatedExecutor
        ⟨.submission, fun _ ↦ .submission, .submission⟩ 2 1
        [{ programId := "p" }, { programId := "q" }] 1 = some result ∧
      caseResult quietCampaign truncatedExecutor
        ⟨.submission, fun _ ↦ .submission, .submission⟩ 1 1
        [{ programId := "p" }, { programId := "q" }] 1 = some alone ∧
      result.classification = .infraError ∧ alone.classification = .noDiff :=
    ⟨_, _, rfl, rfl, rfl, rfl⟩
  refine ⟨hresults, fun hisolated ↦ ?_⟩
  have hpending : (1, quietPrepared) ∈ campaignPending quietCampaign
      [{ programId := "p" }, { programId := "q" }] :=
    mem_pendingCases.mpr ⟨{ programId := "q" }, rfl, rfl⟩
  have hfails : ¬ CaseFails truncatedBatches (batchCase quietPrepared) := by
    rintro ⟨error, herror⟩
    cases herror
  obtain ⟨result, alone, hresult, halone, hinfra, hnoDiff⟩ := hresults
  obtain ⟨result', alone', hresult', halone', hsame⟩ := hisolated _ hpending hfails
  obtain rfl := Option.some.inj (hresult.symm.trans hresult')
  obtain rfl := Option.some.inj (halone.symm.trans halone')
  have hclass := congrArg CaseResult.classification hsame
  change result.classification = alone.classification at hclass
  rw [hinfra, hnoDiff] at hclass
  cases hclass

end SyzAbi.Orchestrator

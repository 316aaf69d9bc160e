import SyzAbi.Library.Recording
import SyzAbi.Orchestrator.Schedule

/-!
# Cases with a record of their runs

The functions of a case execute testcases through the services, in any monad. In
`ServicesIn.recording` every execution leaves its request in a record, so `asked` of a function is
the list of the runs that it starts, in order. The record changes nothing: the outcomes are those of
the services themselves (`outcome_prepareCase`, `outcome_finalizePreparedCase`).

The functions that catch exceptions are written once more over the record. `recordScheduleOne` is
the life of a case that is not batched and `recordBatchedCase` that of a case of a batch, and they
return what the scheduler returns (`outcome_recordScheduleOne`, `outcome_recordBatchedCase`).
-/

set_option autoImplicit false
set_option relaxedAutoImplicit false

namespace SyzAbi.Orchestrator

open Analyzer Library Library.Recording

/-- A computation over the services, with the runs that it starts. -/
abbrev RunRecording := Recording RunRequest PyError

/-- The services of a campaign, with a record of the executions. -/
def ServicesIn.recording (svc : Services) : ServicesIn RunRecording where
  rerunCount := svc.rerunCount
  noiseSyscalls := svc.noiseSyscalls
  workflow := svc.workflow
  injectTrace := svc.injectTrace
  buildRoot := svc.buildRoot
  clock := svc.clock
  buildStatusOk := fun programId ↦ liftM (svc.buildStatusOk programId)
  executeSide := fun request ↦ ask request (svc.executeSide request)
  executeCandidateCaseInPackage := fun request packageDir packageSlot ↦
    ask request (svc.executeCandidateCaseInPackage request packageDir packageSlot)
  traceDigest := svc.traceDigest

section Recorded

variable (svc : Services)

/-! ### Single runs -/

@[simp] theorem outcome_runReferenceOnce (programId runId suffix : String) :
    (runReferenceOnce svc.recording programId runId suffix).outcome =
      runReferenceOnce svc programId runId suffix := by
  rw [runReferenceOnce, runReferenceOnce, outcome_bind]
  refine congrArg _ (funext fun run ↦ ?_)
  split_ifs
  · rfl
  · rfl

@[simp] theorem asked_runReferenceOnce (programId runId suffix : String) :
    (runReferenceOnce svc.recording programId runId suffix).asked = [{
      programId := programId
      side := .reference
      runId := runId ++ "-" ++ suffix
      injectTrace := none }] := by
  have hload : ∀ run : RunArtifacts,
      (if run.result.status = ExecutionStatus.ok.value then do
          return (run.result, some (← loadCanonical run))
        else return (run.result, none) : RunRecording Outcome).asked = [] := by
    intro run
    split_ifs
    · simp only [asked_bind, asked_liftM, asked_pure, after_nil, List.append_nil]
    · rfl
  rw [runReferenceOnce, asked_bind]
  simp only [hload, after_nil, List.append_nil]
  rfl

@[simp] theorem outcome_runCandidateOnce (programId runId suffix : String)
    (injectTrace : Option InjectTrace) :
    (runCandidateOnce svc.recording programId runId suffix injectTrace).outcome =
      runCandidateOnce svc programId runId suffix injectTrace := rfl

@[simp] theorem asked_runCandidateOnce (programId runId suffix : String)
    (injectTrace : Option InjectTrace) :
    (runCandidateOnce svc.recording programId runId suffix injectTrace).asked = [{
      programId := programId
      side := .candidate
      runId := runId ++ "-" ++ suffix
      injectTrace := injectTrace }] := by
  simp only [runCandidateOnce, asked_bind, asked_liftM, asked_pure, after_nil, List.append_nil]
  rfl

@[simp] theorem outcome_runCandidateOnceWithPackage (programId runId suffix : String)
    (injectTrace : Option InjectTrace) (placement : Placement) :
    (runCandidateOnceWithPackage svc.recording programId runId suffix injectTrace
        placement).outcome =
      runCandidateOnceWithPackage svc programId runId suffix injectTrace placement := by
  rw [runCandidateOnceWithPackage, runCandidateOnceWithPackage]
  split
  · rfl
  · rfl

/-- With a package and without, the run has the same name. -/
@[simp] theorem asked_runCandidateOnceWithPackage (programId runId suffix : String)
    (injectTrace : Option InjectTrace) (placement : Placement) :
    (runCandidateOnceWithPackage svc.recording programId runId suffix injectTrace
        placement).asked = [{
      programId := programId
      side := .candidate
      runId := runId ++ "-" ++ suffix
      injectTrace := injectTrace }] := by
  rw [runCandidateOnceWithPackage]
  split
  · simp only [asked_bind, asked_liftM, asked_pure, after_nil, List.append_nil]
    rfl
  · exact asked_runCandidateOnce svc programId runId suffix injectTrace

/-! ### Preparation and triage -/

@[simp] theorem outcome_rerunReference (programId runId : String)
    (state : List RunResult × List String) (attempt : ℕ) :
    (rerunReference svc.recording programId runId state attempt).outcome =
      rerunReference svc programId runId state attempt := by
  rw [rerunReference, outcome_bind, outcome_runReferenceOnce]
  rfl

@[simp] theorem outcome_buildReferenceRuns (programId runId : String) :
    (buildReferenceRuns svc.recording programId runId).outcome =
      buildReferenceRuns svc programId runId := by
  rw [buildReferenceRuns, buildReferenceRuns, outcome_bind, outcome_runReferenceOnce]
  refine congrArg _ (funext fun first ↦ ?_)
  dsimp only
  split_ifs
  · rw [outcome_bind, outcome_foldlM]
    simp only [outcome_rerunReference]
    rfl
  · rfl

@[simp] theorem outcome_prepareCase (entry : Entry) :
    (prepareCase svc.recording entry).outcome = prepareCase svc entry := by
  rw [prepareCase, prepareCase, outcome_bind]
  refine congrArg _ (funext fun built ↦ ?_)
  cases built with
  | false => rfl
  | true =>
    simp only [Bool.not_true, Bool.false_eq_true, if_false]
    rw [outcome_bind, outcome_buildReferenceRuns]
    refine congrArg _ (funext fun runs ↦ ?_)
    split_ifs
    · rfl
    · rfl

@[simp] theorem outcome_triageAttempt (prepared : Prepared) (placement : Placement)
    (state : TriageState) (attempt : ℕ) :
    (triageAttempt svc.recording prepared placement state attempt).outcome =
      triageAttempt svc prepared placement state attempt := by
  simp only [triageAttempt, outcome_bind, outcome_runReferenceOnce,
    outcome_runCandidateOnceWithPackage]
  rfl

/-- Whether a case is rerun does not depend on the record. -/
theorem triagedState_recording (prepared : Prepared) (candidate : Outcome) (placement : Placement) :
    triagedState svc.recording prepared candidate placement =
      if (initialState svc prepared candidate).needsTriage candidate then
        runTriageLoop svc.recording prepared placement (initialState svc prepared candidate)
      else pure (initialState svc prepared candidate) := rfl

@[simp] theorem outcome_triagedState (prepared : Prepared) (candidate : Outcome)
    (placement : Placement) :
    (triagedState svc.recording prepared candidate placement).outcome =
      triagedState svc prepared candidate placement := by
  rw [triagedState_recording, triagedState]
  split_ifs
  · rw [runTriageLoop, outcome_foldlM]
    simp only [outcome_triageAttempt]
    rfl
  · rfl

@[simp] theorem outcome_finalizePreparedCase (prepared : Prepared) (candidate : Outcome)
    (placement : Placement) :
    (finalizePreparedCase svc.recording prepared candidate placement).outcome =
      finalizePreparedCase svc prepared candidate placement := by
  rw [finalizePreparedCase, finalizePreparedCase, outcome_bind, outcome_triagedState]
  refine congrArg _ (funext fun state ↦ ?_)
  split_ifs
  · rfl
  · rfl

/-! ### Whole cases -/

/-- `prepare_case_safe`. -/
def recordPrepareCase (entry : Entry) : RunRecording PrepareOutcome := do
  match ← (prepareCase svc.recording entry).attempt with
  | .ok outcome => return outcome
  | .error error => return .final (infraErrorResult entry "prepare_case" error [] [])

/-- `finalize_prepared_case_safe`. -/
def recordFinalizeCase (prepared : Prepared) (candidate : Outcome) (placement : Placement) :
    RunRecording CaseResult := do
  match ← (finalizePreparedCase svc.recording prepared candidate placement).attempt with
  | .ok result => return result
  | .error error =>
    return infraErrorResult prepared.entry "finalize_prepared_case" error
      prepared.referenceResults [candidate.1]

/-- `schedule_one`. -/
def recordScheduleOne (entry : Entry) : RunRecording CaseResult := do
  match ← recordPrepareCase svc entry with
  | .final result => return result
  | .candidateReady prepared =>
    match ← (runCandidateOnce svc.recording prepared.programId prepared.runId "candidate0"
        prepared.injectTrace).attempt with
    | .error error =>
      return infraErrorResult prepared.entry "run_candidate_once" error
        prepared.referenceResults []
    | .ok candidate => recordFinalizeCase svc prepared candidate {}

/-- The run that the executor of a batch makes of a case. -/
def BatchCase.request (case : BatchCase) : RunRequest where
  programId := case.programId
  side := .candidate
  runId := case.runId
  injectTrace := case.injectTrace

/-- A case of a batch: it is prepared, executed with its batch and finalized. -/
def recordBatchedCase (executed : Except PyError BatchOutput) (entry : Entry) :
    RunRecording CaseResult := do
  match ← recordPrepareCase svc entry with
  | .final result => return result
  | .candidateReady prepared =>
    match ← (ask (batchCase prepared).request executed).attempt with
    | .error error =>
      return infraErrorResult prepared.entry "execute_candidate_batch_with_context" error
        prepared.referenceResults []
    | .ok output =>
      match loadBatchResult output prepared with
      | .error error =>
        return infraErrorResult prepared.entry "load_candidate_batch_result" error
          prepared.referenceResults []
      | .ok candidate =>
        recordFinalizeCase svc prepared candidate {
          packageDir := output.packageDir
          packageSlot := (output.slotByProgram.lookup prepared.programId).join }

theorem outcome_recordPrepareCase (entry : Entry) :
    (recordPrepareCase svc entry).outcome = .ok (prepareCaseSafe svc entry) := by
  rw [recordPrepareCase, prepareCaseSafe, outcome_bind, outcome_attempt, outcome_prepareCase]
  cases prepareCase svc entry with
  | error error => rfl
  | ok outcome => rfl

theorem outcome_recordFinalizeCase (prepared : Prepared) (candidate : Outcome)
    (placement : Placement) :
    (recordFinalizeCase svc prepared candidate placement).outcome =
      .ok (finalizePreparedCaseSafe svc prepared candidate placement) := by
  rw [recordFinalizeCase, finalizePreparedCaseSafe, outcome_bind, outcome_attempt,
    outcome_finalizePreparedCase]
  cases finalizePreparedCase svc prepared candidate placement with
  | error error => rfl
  | ok result => rfl

/-- The record of a case that is not batched ends with the result of `schedule_one`. -/
theorem outcome_recordScheduleOne (entry : Entry) :
    (recordScheduleOne svc entry).outcome = .ok (scheduleOne svc entry) := by
  rw [recordScheduleOne, scheduleOne, outcome_bind, outcome_recordPrepareCase, Fallible.ok_bind]
  cases prepareCaseSafe svc entry with
  | final result => rfl
  | candidateReady prepared =>
    dsimp only
    rw [outcome_bind, outcome_attempt, outcome_runCandidateOnce, Fallible.ok_bind]
    cases runCandidateOnce svc prepared.programId prepared.runId "candidate0"
        prepared.injectTrace with
    | error error => rfl
    | ok candidate => exact outcome_recordFinalizeCase svc prepared candidate {}

/-- The record of a case of a batch ends with the result that the chunk has for it. -/
theorem outcome_recordBatchedCase (executed : Except PyError BatchOutput) (entry : Entry) :
    (recordBatchedCase svc executed entry).outcome =
      .ok (match prepareCaseSafe svc entry with
        | .final result => result
        | .candidateReady prepared => chunkCaseResult svc executed prepared) := by
  rw [recordBatchedCase, outcome_bind, outcome_recordPrepareCase, Fallible.ok_bind]
  cases prepareCaseSafe svc entry with
  | final result => rfl
  | candidateReady prepared =>
    dsimp only
    rw [outcome_bind, outcome_attempt, Fallible.ok_bind, outcome_ask]
    cases executed with
    | error error => rfl
    | ok output =>
      dsimp only
      rw [chunkCaseResult, finalizeChunkCase]
      cases loadBatchResult output prepared with
      | error error => rfl
      | ok candidate => exact outcome_recordFinalizeCase svc prepared candidate _

end Recorded

end SyzAbi.Orchestrator

import SyzAbi.Orchestrator.Models

/-!
# The life of a case

The functions of `orchestrator/scheduler.py` that decide one case. `prepareCase` checks the build
and runs the reference; a case whose first reference run did not end well is final there.
`finalizePreparedCase` takes the first candidate run, reruns both sides when it differs
(`runTriageLoop`), and classifies. `scheduleOne` is the whole life of a case that is not batched.

The functions execute runs in the monad of their services, and those that catch exceptions do so in
`Except PyError`. The seven variables that `_run_triage_loop` takes and returns are the record
`TriageState`.
-/

set_option autoImplicit false
set_option relaxedAutoImplicit false

namespace SyzAbi.Orchestrator

open Analyzer

/-! ### Runs and their canonical traces -/

/-- `load_canonical`: both files are loaded and the trace is canonicalized. -/
def loadCanonical (run : RunArtifacts) : Except PyError CanonicalTrace := do
  let raw ← run.rawTrace.load
  let externalState ← run.externalState.load
  (canonicalize raw externalState).mapError fun message ↦ ⟨"ValueError", message⟩

/-- Whether a path of a result is `None` or empty. -/
def missingPath (path : Option String) : Bool :=
  path = none || path = some ""

/-- `maybe_load_canonical`. -/
def maybeLoadCanonical (run : RunArtifacts) : Except PyError (Option CanonicalTrace) :=
  if missingPath run.result.traceJsonPath || missingPath run.result.externalStatePath then
    .ok none
  else if !run.rawTrace.exists || !run.externalState.exists then .ok none
  else some <$> loadCanonical run

section Runs

variable {m : Type → Type}

/-- `run_reference_once`: only a run that ended well has its trace loaded. -/
def runReferenceOnce [Monad m] [MonadLiftT (Except PyError) m] (svc : ServicesIn m)
    (programId runId suffix : String) : m Outcome := do
  let run ← svc.executeSide {
    programId := programId
    side := .reference
    runId := runId ++ "-" ++ suffix
    injectTrace := none }
  if run.result.status = ExecutionStatus.ok.value then
    return (run.result, some (← loadCanonical run))
  else return (run.result, none)

/-- `run_candidate_once`. -/
def runCandidateOnce [Monad m] [MonadLiftT (Except PyError) m] (svc : ServicesIn m)
    (programId runId suffix : String) (injectTrace : Option InjectTrace) : m Outcome := do
  let run ← svc.executeSide {
    programId := programId
    side := .candidate
    runId := runId ++ "-" ++ suffix
    injectTrace := injectTrace }
  return (run.result, ← maybeLoadCanonical run)

/-- `run_candidate_once_with_package`. -/
def runCandidateOnceWithPackage [Monad m] [MonadLiftT (Except PyError) m] (svc : ServicesIn m)
    (programId runId suffix : String) (injectTrace : Option InjectTrace) (placement : Placement) :
    m Outcome :=
  match placement.packageDir, placement.packageSlot with
  | some packageDir, some packageSlot => do
    let run ← svc.executeCandidateCaseInPackage {
      programId := programId
      side := .candidate
      runId := runId ++ "-" ++ suffix
      injectTrace := injectTrace } packageDir packageSlot
    return (run.result, ← maybeLoadCanonical run)
  | _, _ => runCandidateOnce svc programId runId suffix injectTrace

/-- The hashes of an optional canonical trace: one or none. -/
def hashesOf (svc : ServicesIn m) (canonical : Option CanonicalTrace) : List String :=
  canonical.toList.map (canonicalTraceHash svc)

/-! ### Results -/

/-- `scml_result_bucket`. -/
def scmlResultBucket (preflightStatus : String) (candidateStatus : Option String)
    (classification : Classification) (comparison : Option Comparison) : SCMLResultBucket :=
  if preflightStatus = "not_run" then .notRun
  else if preflightStatus ≠ "passed" then .rejectedByScml
  else if classification = .buildFailure then .passedScmlButCandidateFailed
  else
    match comparison with
    | none =>
      if classification = .baselineInvalid then .passedScmlButReferenceFailed
      else if candidateStatus ≠ some ExecutionStatus.ok.value then .passedScmlButCandidateFailed
      else .passedScmlButReferenceFailed
    | some comparison =>
      if comparison.equivalent then .passedScmlAndNoDiff else .passedScmlAndDiverged

/-- `finalize_result` of the target adapters. -/
def finalizeResult (result : CaseResult) : CaseResult :=
  { result with finalized := true }

/-- `infra_error_result`. -/
def infraErrorResult (entry : Entry) (stage : String) (error : PyError)
    (referenceResults candidateResults : List RunResult) : CaseResult :=
  finalizeResult {
    programId := entry.programId
    classification := .infraError
    normalizedPath := entry.normalizedPath
    metaPath := entry.metaPath
    scml := entry.scml
    scmlResultBucket := scmlResultBucket entry.scml.preflightStatus
      (candidateResults.getLast?.map RunResult.status) .infraError none
    referenceRuns := referenceResults
    candidateRuns := candidateResults
    candidateRun := candidateResults.getLast?
    errorStage := some stage
    errorDetail := some error.detail }

/-! ### Preparation -/

/-- `next_run_id`. -/
def nextRunId (svc : ServicesIn m) (programId : String) : String :=
  (svc.clock programId).repr ++ "-" ++ String.ofList (programId.toList.take 12)

/-- One rerun of `_build_reference_runs`. -/
def rerunReference [Monad m] [MonadLiftT (Except PyError) m] (svc : ServicesIn m)
    (programId runId : String) (state : List RunResult × List String) (attempt : ℕ) :
    m (List RunResult × List String) := do
  let (rerun, canonical) ← runReferenceOnce svc programId runId ("ref-triage" ++ attempt.repr)
  return (state.1 ++ [rerun], state.2 ++ hashesOf svc canonical)

/-- `_build_reference_runs`: a first run that did not end well is rerun. -/
def buildReferenceRuns [Monad m] [MonadLiftT (Except PyError) m] (svc : ServicesIn m)
    (programId runId : String) :
    m (List RunResult × List String × Option CanonicalTrace) := do
  let (first, canonical) ← runReferenceOnce svc programId runId "ref0"
  let start := ([first], hashesOf svc canonical)
  if first.status ≠ ExecutionStatus.ok.value then
    let (results, hashes) ←
      (List.range svc.rerunCount).foldlM (rerunReference svc programId runId) start
    return (results, hashes, canonical)
  else return (start.1, start.2, canonical)

/-- `prepare_case`. -/
def prepareCase [Monad m] [MonadLiftT (Except PyError) m] (svc : ServicesIn m) (entry : Entry) :
    m PrepareOutcome := do
  let buildResultPath := svc.buildRoot entry.programId ++ "/build-result.json"
  if !(← svc.buildStatusOk entry.programId) then
    return .final (finalizeResult {
      programId := entry.programId
      classification := .buildFailure
      normalizedPath := entry.normalizedPath
      metaPath := entry.metaPath
      scml := entry.scml
      scmlResultBucket := scmlResultBucket entry.scml.preflightStatus none .buildFailure none
      buildResultPath := some buildResultPath })
  let runId := nextRunId svc entry.programId
  let (referenceResults, referenceHashes, referenceCanonical) ←
    buildReferenceRuns svc entry.programId runId
  if referenceResults.head?.map RunResult.status ≠ some ExecutionStatus.ok.value then
    return .final (finalizeResult {
      programId := entry.programId
      classification := .baselineInvalid
      normalizedPath := entry.normalizedPath
      metaPath := entry.metaPath
      scml := entry.scml
      scmlResultBucket := scmlResultBucket entry.scml.preflightStatus none .baselineInvalid none
      referenceRuns := referenceResults })
  return .candidateReady {
    entry := entry
    programId := entry.programId
    runId := runId
    injectTrace := svc.injectTrace
    referenceResults := referenceResults
    referenceHashes := referenceHashes
    currentReferenceCanonical := referenceCanonical }

/-- `prepare_case_safe`. -/
def prepareCaseSafe (svc : Services) (entry : Entry) : PrepareOutcome :=
  match prepareCase svc entry with
  | .ok outcome => outcome
  | .error error => .final (infraErrorResult entry "prepare_case" error [] [])

/-! ### Triage -/

/-- The variables of `_run_triage_loop`. -/
structure TriageState where
  referenceResults : List RunResult
  referenceHashes : List String
  currentReferenceCanonical : Option CanonicalTrace
  candidateResults : List RunResult
  candidateHashes : List String
  candidateCanonical : Option CanonicalTrace
  comparison : Option Comparison

/-- The reference half of a pass: a run without a trace leaves the trace in force. -/
def TriageState.recordReference (svc : ServicesIn m) (state : TriageState) (rerun : Outcome) :
    TriageState :=
  { state with
    referenceResults := state.referenceResults ++ [rerun.1]
    referenceHashes := state.referenceHashes ++ hashesOf svc rerun.2
    currentReferenceCanonical := rerun.2.or state.currentReferenceCanonical }

/-- The candidate half of a pass: a run without a trace leaves trace and comparison in force. -/
def TriageState.recordCandidate (svc : ServicesIn m) (state : TriageState) (rerun : Outcome) :
    TriageState :=
  match rerun.2 with
  | none => { state with candidateResults := state.candidateResults ++ [rerun.1] }
  | some canonical =>
    { state with
      candidateResults := state.candidateResults ++ [rerun.1]
      candidateHashes := state.candidateHashes ++ [canonicalTraceHash svc canonical]
      candidateCanonical := some canonical
      comparison := state.currentReferenceCanonical.map fun reference ↦
        compareCanonical svc.noiseSyscalls reference canonical }

/-- One pass of the loop: a reference rerun, then a candidate rerun. -/
def triageAttempt [Monad m] [MonadLiftT (Except PyError) m] (svc : ServicesIn m)
    (prepared : Prepared) (placement : Placement) (state : TriageState) (attempt : ℕ) :
    m TriageState := do
  let reference ← runReferenceOnce svc prepared.programId prepared.runId
    ("ref-triage" ++ attempt.repr)
  let candidate ← runCandidateOnceWithPackage svc prepared.programId prepared.runId
    ("candidate-triage" ++ attempt.repr) prepared.injectTrace placement
  return (state.recordReference svc reference).recordCandidate svc candidate

/-- `_run_triage_loop`. -/
def runTriageLoop [Monad m] [MonadLiftT (Except PyError) m] (svc : ServicesIn m)
    (prepared : Prepared) (placement : Placement) (state : TriageState) : m TriageState :=
  (List.range svc.rerunCount).foldlM (triageAttempt svc prepared placement) state

/-! ### Verdict -/

/-- The variables of `finalize_prepared_case` before triage. -/
def initialState (svc : ServicesIn m) (prepared : Prepared) (candidate : Outcome) :
    TriageState where
  referenceResults := prepared.referenceResults
  referenceHashes := prepared.referenceHashes
  currentReferenceCanonical := prepared.currentReferenceCanonical
  candidateResults := [candidate.1]
  candidateHashes := hashesOf svc candidate.2
  candidateCanonical := candidate.2
  comparison :=
    match prepared.currentReferenceCanonical, candidate.2 with
    | some reference, some canonical =>
      some (compareCanonical svc.noiseSyscalls reference canonical)
    | _, _ => none

/-- `needs_triage`: the candidate run did not end well, or its trace differs. -/
def TriageState.needsTriage (state : TriageState) (candidate : Outcome) : Bool :=
  candidate.1.status ≠ ExecutionStatus.ok.value ||
    state.comparison.any fun comparison ↦ !comparison.equivalent

/-- The variables of `finalize_prepared_case` after the triage that its first run calls for. -/
def triagedState [Monad m] [MonadLiftT (Except PyError) m] (svc : ServicesIn m)
    (prepared : Prepared) (candidate : Outcome) (placement : Placement) : m TriageState :=
  let state := initialState svc prepared candidate
  if state.needsTriage candidate then runTriageLoop svc prepared placement state
  else pure state

/-- The comparison that is attached: it is made again when the hashes of the two sides meet. -/
def TriageState.finalComparison (svc : ServicesIn m) (state : TriageState) : Option Comparison :=
  if allEqual state.candidateHashes && !state.referenceHashes.isEmpty &&
      state.candidateHashes.getLast? = state.referenceHashes.getLast? then
    match state.currentReferenceCanonical, state.candidateCanonical with
    | some reference, some canonical =>
      some (compareCanonical svc.noiseSyscalls reference canonical)
    | _, _ => state.comparison
  else state.comparison

/-- The result dictionary of a case with a stable reference. -/
def TriageState.result (svc : ServicesIn m) (prepared : Prepared) (placement : Placement)
    (state : TriageState) : CaseResult :=
  let comparison := state.finalComparison svc
  let candidateStatus := (state.candidateResults.getLast?.map RunResult.status).getD ""
  let referenceStatus := (state.referenceResults.getLast?.map RunResult.status).getD ""
  let classification := classifyResult true referenceStatus candidateStatus comparison
  { programId := prepared.programId
    classification := classification
    normalizedPath := prepared.entry.normalizedPath
    metaPath := prepared.entry.metaPath
    scml := prepared.entry.scml
    scmlResultBucket := scmlResultBucket prepared.entry.scml.preflightStatus
      (some candidateStatus) classification comparison
    referenceRuns := state.referenceResults
    candidateRuns := state.candidateResults
    candidateRun := state.candidateResults.getLast?
    comparison := comparison
    placement := placement
    candidatePackageWorkflow := if placement.packageDir.isSome then svc.workflow else ""
    referenceCanonicalHash :=
      if state.candidateCanonical.isSome then state.referenceHashes.getLast? else none
    candidateCanonicalHash := state.candidateCanonical.map (canonicalTraceHash svc)
    candidateCollection := state.candidateResults.getLast? }

/-- The result dictionary of a case whose reference traces differ. -/
def TriageState.unstableResult (prepared : Prepared) (state : TriageState) : CaseResult where
  programId := prepared.programId
  classification := .baselineInvalid
  normalizedPath := prepared.entry.normalizedPath
  metaPath := prepared.entry.metaPath
  scml := prepared.entry.scml
  scmlResultBucket := scmlResultBucket prepared.entry.scml.preflightStatus
    (state.candidateResults.getLast?.map RunResult.status) .baselineInvalid none
  referenceRuns := state.referenceResults
  candidateRuns := state.candidateResults

/-- `finalize_prepared_case`. -/
def finalizePreparedCase [Monad m] [MonadLiftT (Except PyError) m] (svc : ServicesIn m)
    (prepared : Prepared) (candidate : Outcome) (placement : Placement) : m CaseResult := do
  let state ← triagedState svc prepared candidate placement
  if !allEqual state.referenceHashes then
    return finalizeResult (state.unstableResult prepared)
  return finalizeResult (state.result svc prepared placement)

end Runs

/-- `finalize_prepared_case_safe`. -/
def finalizePreparedCaseSafe (svc : Services) (prepared : Prepared) (candidate : Outcome)
    (placement : Placement) : CaseResult :=
  match finalizePreparedCase svc prepared candidate placement with
  | .ok result => result
  | .error error =>
    infraErrorResult prepared.entry "finalize_prepared_case" error prepared.referenceResults
      [candidate.1]

/-- `schedule_one`. -/
def scheduleOne (svc : Services) (entry : Entry) : CaseResult :=
  match prepareCaseSafe svc entry with
  | .final result => result
  | .candidateReady prepared =>
    match runCandidateOnce svc prepared.programId prepared.runId "candidate0"
        prepared.injectTrace with
    | .error error =>
      infraErrorResult prepared.entry "run_candidate_once" error prepared.referenceResults []
    | .ok candidate => finalizePreparedCaseSafe svc prepared candidate {}

end SyzAbi.Orchestrator

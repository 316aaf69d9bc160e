import Mathlib.Data.List.Sort
import SyzAbi.Orchestrator.Triage

/-!
# The partial summary of a running campaign

`tools/render_partial_summary.py` reads the artifacts directory while the scheduler fills it. A run
has a directory that is named by the run id of its case and a suffix; the scheduler writes the run
result and then the canonical trace into it. `reconstructCompletedResults` takes, for each eligible
program, the runs it finds and labels the case again with rules of its own.

`caseSteps` is what the scheduler does to the directory of a case, in order. A file appears as a
whole.
-/

set_option autoImplicit false
set_option relaxedAutoImplicit false

namespace SyzAbi.Tools

open Analyzer Orchestrator

/-! ### Names of run directories -/

/-- The suffixes that `RUN_DIR_RE` accepts. -/
inductive RunSuffix
  | ref0
  | refTriage (attempt : ℕ)
  | candidate0
  | candidateTriage (attempt : ℕ)
  deriving DecidableEq

def RunSuffix.text : RunSuffix → String
  | .ref0 => "ref0"
  | .refTriage attempt => "ref-triage" ++ attempt.repr
  | .candidate0 => "candidate0"
  | .candidateTriage attempt => "candidate-triage" ++ attempt.repr

def RunSuffix.side : RunSuffix → Side
  | .ref0 | .refTriage _ => .reference
  | .candidate0 | .candidateTriage _ => .candidate

/-- `suffix_sort_key`. -/
def suffixSortKey : RunSuffix → ℕ × ℕ
  | .ref0 | .candidate0 => (0, 0)
  | .refTriage attempt | .candidateTriage attempt => (1, attempt)

/-- A label and decimal digits behind it. -/
def readAttempt (label : List Char) (text : List Char) : Option ℕ :=
  let digits := text.drop label.length
  if label.isPrefixOf text && !digits.isEmpty && digits.all Char.isDigit then
    some (Nat.ofDigitChars 10 digits 0)
  else none

/-- The group `suffix` of `RUN_DIR_RE`, for a text that has to match as a whole. -/
def readSuffix (text : List Char) : Option RunSuffix :=
  if text = "ref0".toList then some .ref0
  else if text = "candidate0".toList then some .candidate0
  else ((readAttempt "ref-triage".toList text).map RunSuffix.refTriage).or
    ((readAttempt "candidate-triage".toList text).map RunSuffix.candidateTriage)

/-- The match of `RUN_DIR_RE`, whose group `base` is not empty and as long as possible. -/
def readRunName (name : String) : Option (String × RunSuffix) :=
  (List.range name.toList.length).reverse.findSome? fun index ↦
    if 0 < index ∧ name.toList[index]? = some '-' then
      (readSuffix (name.toList.drop (index + 1))).map fun suffix ↦
        (String.ofList (name.toList.take index), suffix)
    else none

/-! ### Run directories -/

/-- A run directory: the run result, and the canonical trace beside the trace that it names. -/
structure RunDir where
  name : String
  result : Option RunResult := none
  canonical : Option CanonicalTrace := none
  deriving DecidableEq

/-- What the scheduler does to the directory of a case. -/
inductive StoreStep
  | createDir (name : String)
  | writeResult (name : String) (result : RunResult)
  | writeCanonical (name : String) (canonical : CanonicalTrace)
  deriving DecidableEq

def StoreStep.apply (dirs : List RunDir) : StoreStep → List RunDir
  | .createDir name => dirs ++ [{ name := name }]
  | .writeResult name result =>
    dirs.map fun dir ↦ if dir.name = name then { dir with result := some result } else dir
  | .writeCanonical name canonical =>
    dirs.map fun dir ↦ if dir.name = name then { dir with canonical := some canonical } else dir

/-- The name of a run directory. -/
def runName (runId : String) (suffix : RunSuffix) : String :=
  runId ++ "-" ++ suffix.text

/-- The steps of a run: an execution that raises leaves an empty directory. -/
def runSteps (name : String) (run : Except PyError RunArtifacts)
    (canonical : RunArtifacts → Option CanonicalTrace) : List StoreStep :=
  .createDir name ::
    match run with
    | .error _ => []
    | .ok run => .writeResult name run.result :: (canonical run).toList.map (.writeCanonical name)

/-- The steps of `run_reference_once`. -/
def referenceSteps (svc : Services) (programId runId : String) (suffix : RunSuffix) :
    List StoreStep :=
  runSteps (runName runId suffix)
    (svc.executeSide {
      programId := programId
      side := .reference
      runId := runName runId suffix
      injectTrace := none })
    fun run ↦
      if run.result.status = ExecutionStatus.ok.value then (loadCanonical run).toOption else none

/-- The steps of a candidate run. -/
def candidateSteps (runId : String) (suffix : RunSuffix) (run : Except PyError RunArtifacts) :
    List StoreStep :=
  runSteps (runName runId suffix) run fun run ↦ (maybeLoadCanonical run).toOption.join

/-- The execution of a candidate rerun, in its package if it has one. -/
def executeCandidate (svc : Services) (prepared : Prepared) (placement : Placement)
    (suffix : RunSuffix) : Except PyError RunArtifacts :=
  let request : RunRequest := {
    programId := prepared.programId
    side := .candidate
    runId := runName prepared.runId suffix
    injectTrace := prepared.injectTrace }
  match placement.packageDir, placement.packageSlot with
  | some packageDir, some packageSlot =>
    svc.executeCandidateCaseInPackage request packageDir packageSlot
  | _, _ => svc.executeSide request

/-- Attempts one after the other, up to one that raises. -/
def stepsUntilError {α : Type} (steps : ℕ → List StoreStep) (outcome : ℕ → Except PyError α) :
    List ℕ → List StoreStep
  | [] => []
  | attempt :: rest =>
    steps attempt ++
      match outcome attempt with
      | .error _ => []
      | .ok _ => stepsUntilError steps outcome rest

/-- The steps of `prepare_case`. -/
def prepareSteps (svc : Services) (entry : Entry) : List StoreStep :=
  match svc.buildStatusOk entry.programId with
  | .ok true =>
    let runId := nextRunId svc entry.programId
    referenceSteps svc entry.programId runId .ref0 ++
      match runReferenceOnce svc entry.programId runId "ref0" with
      | .error _ => []
      | .ok (first, _) =>
        if first.status ≠ ExecutionStatus.ok.value then
          stepsUntilError
            (fun attempt ↦ referenceSteps svc entry.programId runId (.refTriage attempt))
            (fun attempt ↦
              runReferenceOnce svc entry.programId runId ("ref-triage" ++ attempt.repr))
            (List.range svc.rerunCount)
        else []
  | _ => []

/-- The steps of one pass of `_run_triage_loop`. -/
def triageSteps (svc : Services) (prepared : Prepared) (placement : Placement) (attempt : ℕ) :
    List StoreStep :=
  referenceSteps svc prepared.programId prepared.runId (.refTriage attempt) ++
    match runReferenceOnce svc prepared.programId prepared.runId ("ref-triage" ++ attempt.repr) with
    | .error _ => []
    | .ok _ =>
      candidateSteps prepared.runId (.candidateTriage attempt)
        (executeCandidate svc prepared placement (.candidateTriage attempt))

/-- A case of a campaign: its entry, what the execution of its first candidate run returns, and the
package it is taken from. -/
structure CampaignCase where
  entry : Entry
  first : Except PyError RunArtifacts
  placement : Placement := {}

/-- The outcome of the first candidate run. -/
def CampaignCase.outcome (case : CampaignCase) : Except PyError Outcome := do
  let run ← case.first
  return (run.result, ← maybeLoadCanonical run)

/-- The steps of the triage that the first candidate run of a case calls for. -/
def stepsOfTriage (svc : Services) (case : CampaignCase) (prepared : Prepared) : List StoreStep :=
  match case.outcome with
  | .error _ => []
  | .ok candidate =>
    if (initialState svc prepared candidate).needsTriage candidate then
      stepsUntilError (triageSteps svc prepared case.placement)
        (triageRound svc prepared case.placement) (List.range svc.rerunCount)
    else []

/-- The steps of a case. -/
def caseSteps (svc : Services) (case : CampaignCase) : List StoreStep :=
  prepareSteps svc case.entry ++
    match prepareCase svc case.entry with
    | .ok (.candidateReady prepared) =>
      candidateSteps prepared.runId .candidate0 case.first ++ stepsOfTriage svc case prepared
    | _ => []

end SyzAbi.Tools

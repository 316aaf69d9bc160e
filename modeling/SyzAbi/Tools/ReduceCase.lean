import SyzAbi.Library.WhileLoop
import SyzAbi.Orchestrator.Models

/-!
# The reducer

`tools/reduce_case.py` with the parts of `orchestrator/syzkaller.py` and of the two programs under
`cmd/` that it runs. `greedyReduce` drops one call after the other from a diverging program, as long
as the program that is left still diverges, and keeps the trials in the files `drop-<index>.syz` of
a directory of its own.

The model follows the files: a trial is made from the file of the current program, and an accepted
trial's file becomes the file of the current program. `ReduceServices` collects what the reducer
takes from elsewhere: the parser and the printer of the program texts, and the outcomes of the runs
as functions of the program text and of the package the candidate is taken from. The body of the
loop takes the services as its trial finds them and as each confirmation run does; `greedyReduce`
finds the same ones at all of them.
-/

set_option autoImplicit false
set_option relaxedAutoImplicit false

namespace SyzAbi.Tools

open Analyzer Orchestrator Library

/-! ### Records -/

/-- The keys of `syzabi_inspect` that the reducer reads. -/
structure ProgramInfo where
  programId : String
  callCount : ℕ
  deriving DecidableEq

/-- The runs that `run_case` returns. -/
structure CaseRuns where
  reference : RunResult
  candidate : RunResult
  referenceCanonical : CanonicalTrace
  candidateCanonical : CanonicalTrace
  deriving DecidableEq

/-- The result of `run_case`. -/
structure CaseRun where
  info : ProgramInfo
  comparison : Comparison
  runs : CaseRuns
  deriving DecidableEq

/-- The result of `scml_preflight_for_program`. -/
structure ScmlPreflight where
  programId : String
  status : String
  reasons : List String
  traceLogPath : String
  sctraceOutputPath : String
  reducerReplayMode : String
  reducerReplayRecoveryReason : String
  deriving DecidableEq

/-- The campaign package a candidate run is taken from. -/
structure CampaignPackage where
  packageDir : String
  slot : ℤ
  deriving DecidableEq

/-- The keys of a campaign result that the reducer reads. -/
structure SourceEntry where
  campaignPackageDir : Option String := none
  campaignPackageSlot : Option ℤ := none
  comparison : Option Comparison := none
  candidateRun : Option RunResult := none
  candidateRuns : List RunResult := []
  referenceRuns : List RunResult := []
  scmlPreflightStatus : Option String := none
  scmlRejectionReasons : List String := []
  scmlTraceLogPath : String := ""
  scmlSctraceOutputPath : String := ""
  deriving DecidableEq

/-- One entry of the list that `_confirm_divergence` returns. -/
structure ConfirmationRun where
  attempt : ℕ
  equivalent : Bool
  firstDivergenceIndex : Option ℕ
  referenceStatus : String
  candidateStatus : String
  deriving DecidableEq

/-- What is known of the current program. -/
structure Evidence where
  info : ProgramInfo
  comparison : Comparison
  runs : CaseRuns
  preflight : Option ScmlPreflight
  deriving DecidableEq

/-! ### Files and services -/

/-- The program files: the one the reducer is called with, and the trials of its own directory. -/
inductive ProgramPath
  | source
  | drop (index : ℕ)
  deriving DecidableEq

/-- The contents of the program files. -/
abbrev Files (Text : Type) := ProgramPath → Option Text

/-- What the reducer takes from the configuration, from syzkaller and from the runs. The texts that
syzkaller prints parse back to the printed program. -/
structure ReduceServices (Text Call : Type) where
  scmlOverlayEnabled : Bool
  runtimeSyscalls : List String
  deserialize : Text → Option (List Call)
  serialize : List Call → Text
  deserialize_serialize : ∀ calls, deserialize (serialize calls) = some calls
  programId : List Call → String
  replay : Option CampaignPackage → Text → Except PyError (Comparison × CaseRuns)
  scmlPreflight : Bool → Text → Except PyError ScmlPreflight
  savedCanonicalTrace : String → Stored CanonicalTrace

attribute [simp] ReduceServices.deserialize_serialize

variable {Text Call : Type} (svc : ReduceServices Text Call)

/-- `read_text`. -/
def readText (files : Files Text) (path : ProgramPath) : Except PyError Text :=
  match files path with
  | some text => .ok text
  | none => .error ⟨"FileNotFoundError", "[Errno 2] No such file or directory"⟩

/-- `write_text`. -/
def writeText (files : Files Text) (path : ProgramPath) (text : Text) : Files Text :=
  Function.update files path (some text)

/-- The exception of `subprocess.run` with `check=True` for a program that ends with this status. -/
def calledProcessError (command : String) (status : ℕ) : PyError :=
  ⟨"CalledProcessError",
    "Command '" ++ command ++ "' returned non-zero exit status " ++ toString status ++ "."⟩

/-- `inspect_program` with the program `syzabi_inspect`. -/
def inspectProgram (files : Files Text) (path : ProgramPath) : Except PyError ProgramInfo := do
  let text ← readText files path
  match svc.deserialize text with
  | none => .error (calledProcessError "syzabi_inspect" 2)
  | some calls => .ok ⟨svc.programId calls, calls.length⟩

/-- `mutate_drop_call` with the program `syzabi_mutate`. -/
def mutateDropCall (files : Files Text) (path : ProgramPath) (dropIndex : ℕ) :
    Except PyError Text := do
  let text ← readText files path
  match svc.deserialize text with
  | none => .error (calledProcessError "syzabi_mutate" 1)
  | some calls =>
    if calls.length ≤ dropIndex then .error (calledProcessError "syzabi_mutate" 1)
    else .ok (svc.serialize (calls.eraseIdx dropIndex))

/-- `run_case`. -/
def runCase (files : Files Text) (path : ProgramPath) (package : Option CampaignPackage) :
    Except PyError CaseRun := do
  let info ← inspectProgram svc files path
  let text ← readText files path
  let (comparison, runs) ← svc.replay package text
  return { info, comparison, runs }

/-- `scml_preflight_for_program`. -/
def scmlPreflightForProgram (files : Files Text) (path : ProgramPath) (requireZeroExit : Bool) :
    Except PyError ScmlPreflight := do
  let text ← readText files path
  svc.scmlPreflight requireZeroExit text

/-- Whether `except SystemExit` catches the exception. -/
def isSystemExit (error : PyError) : Bool :=
  error.typeName = "SystemExit"

/-- A `try` whose `except SystemExit` goes on without a value. -/
def exceptSystemExit {α : Type} : Except PyError α → Except PyError (Option α)
  | .ok value => .ok (some value)
  | .error error => if isSystemExit error then .ok none else .error error

/-! ### The invariants of a reduction -/

/-- The loop of `map_event_index_to_program_call`. -/
def mapEventIndexToProgramCall.loop (runtimeSyscalls : List String) (eventIndex : ℕ) :
    ℕ → List CanonicalEvent → Option ℕ
  | _, [] => none
  | callIndex, event :: rest =>
    if event.index = eventIndex then
      if event.syscallName ∈ runtimeSyscalls then none else some callIndex
    else if event.syscallName ∈ runtimeSyscalls then loop runtimeSyscalls eventIndex callIndex rest
    else loop runtimeSyscalls eventIndex (callIndex + 1) rest

/-- `map_event_index_to_program_call`. -/
def mapEventIndexToProgramCall (runtimeSyscalls : List String) (trace : CanonicalTrace)
    (eventIndex : Option ℕ) : Option ℕ :=
  eventIndex.bind fun index ↦
    mapEventIndexToProgramCall.loop runtimeSyscalls index 0 trace.events

/-- `scml_reduction_invariants_hold`. -/
def scmlReductionInvariantsHold (runtimeSyscalls : List String) (comparison : Comparison)
    (referenceCanonical : CanonicalTrace) (preflightStatus : String) : Bool :=
  !comparison.equivalent && preflightStatus = "passed" &&
    (mapEventIndexToProgramCall runtimeSyscalls referenceCanonical
      comparison.firstDivergenceIndex).isSome

/-! ### The evidence of a campaign -/

/-- `campaign_package_context`. -/
def campaignPackageContext (sourceEntry : Option SourceEntry) : Option CampaignPackage := do
  let entry ← sourceEntry
  let packageDir ← entry.campaignPackageDir
  let slot ← entry.campaignPackageSlot
  if packageDir = "" then none else some { packageDir, slot }

/-- `latest_saved_candidate_run`. -/
def latestSavedCandidateRun (entry : SourceEntry) : Option RunResult :=
  match entry.candidateRun with
  | some run => some run
  | none => entry.candidateRuns.getLast?

/-- `latest_saved_reference_run`. -/
def latestSavedReferenceRun (entry : SourceEntry) : Option RunResult :=
  entry.referenceRuns.getLast?

/-- `load_saved_canonical_trace`. -/
def loadSavedCanonicalTrace (run : Option RunResult) : Except PyError (Option CanonicalTrace) :=
  match run.bind RunResult.traceJsonPath with
  | none => .ok none
  | some path =>
    if path = "" || !(svc.savedCanonicalTrace path).exists then .ok none
    else (svc.savedCanonicalTrace path).load.map some

/-- `recorded_source_evidence`. -/
def recordedSourceEvidence (info : ProgramInfo) (sourceEntry : Option SourceEntry) :
    Except PyError (Option (Evidence × ScmlPreflight)) :=
  match sourceEntry.bind fun entry ↦ entry.comparison.map fun comparison ↦ (entry, comparison) with
  | none => .ok none
  | some (entry, comparison) => do
    let referenceRun := latestSavedReferenceRun entry
    let candidateRun := latestSavedCandidateRun entry
    let referenceCanonical ← loadSavedCanonicalTrace svc referenceRun
    let candidateCanonical ← loadSavedCanonicalTrace svc candidateRun
    match referenceRun, candidateRun, referenceCanonical, candidateCanonical with
    | some reference, some candidate, some referenceCanonical, some candidateCanonical =>
      let preflight : ScmlPreflight :=
        { programId := info.programId
          status := entry.scmlPreflightStatus.getD "unknown"
          reasons := entry.scmlRejectionReasons
          traceLogPath := entry.scmlTraceLogPath
          sctraceOutputPath := entry.scmlSctraceOutputPath
          reducerReplayMode := "recovery_only"
          reducerReplayRecoveryReason := "" }
      let runs : CaseRuns := { reference, candidate, referenceCanonical, candidateCanonical }
      if scmlReductionInvariantsHold svc.runtimeSyscalls comparison referenceCanonical
          preflight.status then
        return some ({ info, comparison, runs, preflight := some preflight }, preflight)
      else
        return none
    | _, _, _, _ => return none

/-- `require_recorded_source_evidence`. -/
def requireRecordedSourceEvidence (info : ProgramInfo) (sourceEntry : Option SourceEntry)
    (reason : String) : Except PyError Evidence := do
  match ← recordedSourceEvidence svc info sourceEntry with
  | none =>
    .error ⟨"SystemExit",
      "asterinas_scml reduce_case requires the selected source testcase to already be " ++
        "a passed_scml_and_diverged case with a valid syscall divergence index"⟩
  | some (evidence, preflight) =>
    return { evidence with
      preflight := some { preflight with
        reducerReplayMode := "recovery_only"
        reducerReplayRecoveryReason := reason } }

/-! ### Before the loop

The three stages of `greedy_reduce` before its loop. The flag is `reduction_blocked`: the reducer
falls back on the recorded evidence and leaves the program as it is. -/

/-- The first run of the program. -/
def freshReplay (files : Files Text) (sourceEntry : Option SourceEntry) :
    Except PyError (Evidence × Bool) :=
  match runCase svc files .source (campaignPackageContext sourceEntry) with
  | .ok run => .ok (⟨run.info, run.comparison, run.runs, none⟩, false)
  | .error error =>
    if svc.scmlOverlayEnabled && isSystemExit error then do
      let info ← inspectProgram svc files .source
      let evidence ← requireRecordedSourceEvidence svc info sourceEntry
        ("fresh replay failed before reduction: " ++ error.text)
      return (evidence, true)
    else .error error

/-- The preflight of the program, unless recorded evidence brought one along. -/
def replayPreflight (files : Files Text) (sourceEntry : Option SourceEntry) :
    Evidence × Bool → Except PyError (Evidence × Bool)
  | (evidence, blocked) =>
    if evidence.preflight.isSome then .ok (evidence, blocked)
    else
      match scmlPreflightForProgram svc files .source false with
      | .ok preflight => .ok ({ evidence with preflight := some preflight }, blocked)
      | .error error =>
        if isSystemExit error then do
          let recorded ← requireRecordedSourceEvidence svc evidence.info sourceEntry
            ("fresh replay preflight failed: " ++ error.text)
          return (recorded, true)
        else .error error

/-- The check that the program diverges and passes its preflight. -/
def replayInvariants (sourceEntry : Option SourceEntry) :
    Evidence × Bool → Except PyError (Evidence × Bool)
  | (evidence, blocked) =>
    if scmlReductionInvariantsHold svc.runtimeSyscalls evidence.comparison
        evidence.runs.referenceCanonical
        ((evidence.preflight.map ScmlPreflight.status).getD "") then .ok (evidence, blocked)
    else do
      let recorded ← requireRecordedSourceEvidence svc evidence.info sourceEntry
        "fresh replay did not preserve the recorded divergence or SCML pass status"
      return (recorded, true)

/-- `greedy_reduce` up to its loop. -/
def initialEvidence (files : Files Text) (sourceEntry : Option SourceEntry) :
    Except PyError (Evidence × Bool) := do
  let fresh ← freshReplay svc files sourceEntry
  if svc.scmlOverlayEnabled then
    let preflighted ← replayPreflight svc files sourceEntry fresh
    replayInvariants svc sourceEntry preflighted
  else return fresh

/-! ### The trials -/

/-- An accepted trial. -/
structure AcceptedTrial where
  evidence : Evidence
  confirmations : List ConfirmationRun

/-- The loop of `_confirm_divergence` over the attempts that are left, each with the services it
finds. -/
def confirmDivergence.loop (during : ℕ → ReduceServices Text Call) (files : Files Text)
    (path : ProgramPath) (package : Option CampaignPackage) :
    List ℕ → List ConfirmationRun → Except PyError (Bool × List ConfirmationRun)
  | [], confirmations => .ok (true, confirmations)
  | attempt :: rest, confirmations => do
    match ← exceptSystemExit (runCase (during attempt) files path package) with
    | none => return (false, confirmations)
    | some confirm =>
      let confirmation : ConfirmationRun :=
        { attempt := attempt
          equivalent := confirm.comparison.equivalent
          firstDivergenceIndex := confirm.comparison.firstDivergenceIndex
          referenceStatus := confirm.runs.reference.status
          candidateStatus := confirm.runs.candidate.status }
      if confirm.comparison.equivalent then return (false, confirmations ++ [confirmation])
      else loop during files path package rest (confirmations ++ [confirmation])

/-- `_confirm_divergence`. -/
def confirmDivergence (during : ℕ → ReduceServices Text Call) (files : Files Text)
    (path : ProgramPath) (rerunCount : ℕ) (package : Option CampaignPackage) :
    Except PyError (Bool × List ConfirmationRun) :=
  confirmDivergence.loop during files path package (List.range rerunCount) []

/-- The package of the confirmation runs of a trial. -/
def confirmationPackage (sourceEntry : Option SourceEntry) : Option CampaignPackage :=
  if svc.scmlOverlayEnabled then campaignPackageContext sourceEntry else none

/-- The preflight of a diverging trial: `none` skips the trial. -/
def trialPreflight (files : Files Text) (path : ProgramPath) (trial : CaseRun) :
    Except PyError (Option (Option ScmlPreflight)) :=
  if svc.scmlOverlayEnabled then do
    match ← exceptSystemExit (scmlPreflightForProgram svc files path true) with
    | none => return none
    | some preflight =>
      if scmlReductionInvariantsHold svc.runtimeSyscalls trial.comparison
          trial.runs.referenceCanonical preflight.status then return some (some preflight)
      else return none
  else .ok (some none)

/-- The body of the loop of `greedy_reduce` after the trial is written, with the services of the
trial and of its confirmation runs: `none` is a `continue`. -/
def judgeTrial (confirmation : ℕ → ReduceServices Text Call) (sourceEntry : Option SourceEntry)
    (files : Files Text) (path : ProgramPath) : Except PyError (Option AcceptedTrial) := do
  match ← exceptSystemExit (runCase svc files path none) with
  | none => return none
  | some trial =>
    if trial.comparison.equivalent then return none
    else
      match ← trialPreflight svc files path trial with
      | none => return none
      | some preflight =>
        let (allDiverged, confirmations) ←
          confirmDivergence confirmation files path 3 (confirmationPackage svc sourceEntry)
        if allDiverged then
          return some ⟨⟨trial.info, trial.comparison, trial.runs, preflight⟩, confirmations⟩
        else return none

/-! ### The loop -/

/-- The variables of `greedy_reduce` and the program files. -/
structure ReduceState (Text : Type) where
  files : Files Text
  initialProgram : ProgramPath
  currentText : Text
  current : Evidence
  confirmationRuns : List ConfirmationRun

/-- The `for` loop over the drop indexes below the given one, from the highest on, with the body
that judges the trials. The flag is `changed`. -/
def dropLoop (judge : ℕ → Files Text → Except PyError (Option AcceptedTrial)) :
    ℕ → ReduceState Text → Except PyError (ReduceState Text × Bool)
  | 0, state => .ok (state, false)
  | dropIndex + 1, state => do
    let trialText ← mutateDropCall svc state.files state.initialProgram dropIndex
    let files := writeText state.files (.drop dropIndex) trialText
    match ← judge dropIndex files with
    | none => dropLoop judge dropIndex { state with files := files }
    | some accepted =>
      let currentText ← readText files (.drop dropIndex)
      return ({ files := files
                initialProgram := .drop dropIndex
                currentText := currentText
                current := accepted.evidence
                confirmationRuns := state.confirmationRuns ++ accepted.confirmations }, true)

/-- One pass of the `while` loop. -/
def reducePass (sourceEntry : Option SourceEntry) (state : ReduceState Text) :
    Except PyError (ReduceState Text × Bool) :=
  dropLoop svc (fun dropIndex files ↦
    judgeTrial svc (fun _ ↦ svc) sourceEntry files (.drop dropIndex))
    state.current.info.callCount state

/-- The result of `greedy_reduce`, with the text it writes to `final_path`. -/
structure ReduceResult (Text : Type) where
  finalPath : String
  finalText : Text
  current : Evidence
  confirmed : Bool
  confirmationRuns : List ConfirmationRun

/-- The end of `greedy_reduce`. -/
def finish (confirmed : Bool) (state : ReduceState Text) : ReduceResult Text where
  finalPath := state.current.info.programId ++ "-minimized.syz"
  finalText := state.currentText
  current := state.current
  confirmed := confirmed
  confirmationRuns := state.confirmationRuns

/-- The files before the first trial. -/
def initialFiles (initialText : Text) : Files Text :=
  writeText (fun _ ↦ none) .source initialText

/-- The state before the loop and the flag `reduction_blocked`. -/
def initialState (sourceEntry : Option SourceEntry) (initialText : Text) :
    Except PyError (ReduceState Text × Bool) := do
  let files := initialFiles initialText
  let currentText ← readText files .source
  let (evidence, blocked) ← initialEvidence svc files sourceEntry
  return ({ files := files
            initialProgram := .source
            currentText := currentText
            current := evidence
            confirmationRuns := [] }, blocked)

/-- `greedy_reduce` with at most `fuel` passes; `none` when they do not suffice. -/
def greedyReduce (sourceEntry : Option SourceEntry) (initialText : Text) (fuel : ℕ) :
    Option (Except PyError (ReduceResult Text)) :=
  match initialState svc sourceEntry initialText with
  | .error error => some (.error error)
  | .ok (state, true) => some (.ok (finish false state))
  | .ok (state, false) =>
    (WhileLoop.run (reducePass svc sourceEntry) fuel state).map (Except.map (finish true))

end SyzAbi.Tools

import Mathlib.Data.Rat.Defs
import Mathlib.Data.String.Basic
import SyzAbi.Library.Counters
import SyzAbi.Library.LoopRows
import SyzAbi.Orchestrator.DivergenceLabel
import SyzAbi.Orchestrator.Schedule
import SyzAbi.Orchestrator.VerdictSoundness

/-!
# The reports of a campaign

`write_summary`, `write_bug_likely_reports` and `write_failure_reports`
(`orchestrator/scheduler.py`), behind the schedule of a whole campaign. The report on a bug-likely
case takes the last run of either side without asking whether there is one; such a case has always
run on both sides (`hasRuns_scheduleEntries`), so that reports are missing only for files that do
not load (`exists_runCampaign_iff`). The reports that are written account for every entry of the
campaign (`runCampaign_accounts`).

The rendered texts of the reports are left out; they print the same rows.
-/

set_option autoImplicit false
set_option relaxedAutoImplicit false

namespace SyzAbi.Orchestrator

open Analyzer Library.Counters Library.Fallible Library.LoopRows Library.Slots

/-! ### Names and files -/

/-- The text of a classification. The configuration has texts of its own for the first five. -/
def classificationText : Classification → String
  | .noDiff => "NO_DIFF"
  | .baselineInvalid => "BASELINE_INVALID"
  | .bugLikely => "BUG_LIKELY"
  | .weakSpecOrEnvNoise => "WEAK_SPEC_OR_ENV_NOISE"
  | .unsupportedFeature => "UNSUPPORTED_FEATURE"
  | .buildFailure => "build_failure"
  | .infraError => "infra_error"

/-- What the reports take from the configuration, the names of files and the file system. The field
`console_log_path` of a run is a function of the run here. -/
structure ReportServices where
  workflow : String
  maxConcurrentVms : ℤ
  consoleLogPath : RunResult → String
  canonicalTracePath : String → String
  testcaseCopyPath : String → String
  canonicalFiles : CanonicalFiles
  testcases : String → Stored String
  fullSyscallLists : String → Stored (List String)
  renderSummaryReports : Except PyError Unit

/-- `canonical_trace_path_for_run`. -/
def canonicalTracePathForRun (rsvc : ReportServices) (run : Option RunResult) : String :=
  match run.bind RunResult.traceJsonPath with
  | none => ""
  | some path => if path = "" then "" else rsvc.canonicalTracePath path

/-- `load_full_syscall_list`. -/
def loadFullSyscallList (rsvc : ReportServices) (result : CaseResult) :
    Except PyError (List String) :=
  if result.metaPath = "" then .ok []
  else if (rsvc.fullSyscallLists result.metaPath).exists then
    (rsvc.fullSyscallLists result.metaPath).load
  else .ok []

/-- `sorted(results, key=lambda row: row["program_id"])`. -/
def sortedResults (results : List CaseResult) : List CaseResult :=
  results.insertionSort fun result other ↦ result.programId ≤ other.programId

/-- The results of one classification. -/
def classified (classification : Classification) (results : List CaseResult) : List CaseResult :=
  results.filter fun result ↦ result.classification = classification

/-! ### The report on bug-likely cases -/

/-- The summary of a bug-likely case. -/
structure BugCase where
  programId : String
  classification : Classification
  scmlResultBucket : SCMLResultBucket
  normalizedPath : String
  testcaseCopyPath : String
  fullSyscallList : List String
  firstDivergenceIndex : Option ℕ
  firstDivergenceSyscallName : Option String
  referenceEvent : Option CanonicalEvent
  candidateEvent : Option CanonicalEvent
  referenceConsoleLogPath : String
  candidateConsoleLogPath : String
  referenceTraceJsonPath : Option String
  candidateTraceJsonPath : Option String
  referenceCanonicalTracePath : String
  candidateCanonicalTracePath : String
  comparison : Option Comparison

/-- The directory `bug_likely`, which is emptied first. -/
structure BugReports where
  bugLikelyCount : ℕ
  firstDivergenceSyscallCounts : List (String × ℕ) := []
  testcases : List (String × String) := []
  cases : List (String × BugCase) := []
  index : List BugCase := []

/-- `result["reference_runs"][-1]`. -/
def lastReferenceRun (result : CaseResult) : Except PyError RunResult :=
  match result.referenceRuns.getLast? with
  | some run => .ok run
  | none => .error ⟨"IndexError", "list index out of range"⟩

/-- `result["candidate_run"]`. -/
def requiredCandidateRun (result : CaseResult) : Except PyError RunResult :=
  match result.candidateRun with
  | some run => .ok run
  | none => .error ⟨"KeyError", "'candidate_run'"⟩

/-- The testcase of a case, when there is a file to copy. -/
def readTestcase (rsvc : ReportServices) (result : CaseResult) : Except PyError (Option String) :=
  if (rsvc.testcases result.normalizedPath).exists then
    some <$> (rsvc.testcases result.normalizedPath).load
  else .ok none

/-- What is read for a bug-likely case: its summary, all but the place of the copied testcase, and
the testcase that is there to be copied. -/
def readBugCase (rsvc : ReportServices) (result : CaseResult) :
    Except PyError (BugCase × Option String) := do
  let referenceRun ← lastReferenceRun result
  let candidateRun ← requiredCandidateRun result
  let referenceCanonical ← canonicalTraceForRun rsvc.canonicalFiles referenceRun
  let candidateCanonical ← canonicalTraceForRun rsvc.canonicalFiles candidateRun
  let (index, name) ← firstDivergenceDetails rsvc.canonicalFiles result
  let testcase ← readTestcase rsvc result
  let fullSyscallList ← loadFullSyscallList rsvc result
  return ({
    programId := result.programId
    classification := result.classification
    scmlResultBucket := result.scmlResultBucket
    normalizedPath := result.normalizedPath
    testcaseCopyPath := ""
    fullSyscallList := fullSyscallList
    firstDivergenceIndex := index
    firstDivergenceSyscallName := name
    referenceEvent := eventByIndex referenceCanonical index
    candidateEvent := eventByIndex candidateCanonical index
    referenceConsoleLogPath := rsvc.consoleLogPath referenceRun
    candidateConsoleLogPath := rsvc.consoleLogPath candidateRun
    referenceTraceJsonPath := referenceRun.traceJsonPath
    candidateTraceJsonPath := candidateRun.traceJsonPath
    referenceCanonicalTracePath := canonicalTracePathForRun rsvc (some referenceRun)
    candidateCanonicalTracePath := canonicalTracePathForRun rsvc (some candidateRun)
    comparison := result.comparison }, testcase)

/-- Write what was read for a case. A copy under its name may stand there already. -/
def BugReports.record (rsvc : ReportServices) (reports : BugReports)
    (reading : BugCase × Option String) : BugReports :=
  let testcases :=
    match reading.2 with
    | some text => Library.OrderedDict.insert reading.1.programId text reports.testcases
    | none => reports.testcases
  let case := { reading.1 with
    testcaseCopyPath :=
      if (testcases.lookup reading.1.programId).isSome then
        rsvc.testcaseCopyPath reading.1.programId
      else "" }
  { reports with
    firstDivergenceSyscallCounts :=
      case.firstDivergenceSyscallName.toList.foldl tally reports.firstDivergenceSyscallCounts
    testcases := testcases
    cases := Library.OrderedDict.insert case.programId case reports.cases
    index := reports.index ++ [case] }

/-- `write_bug_likely_reports`. -/
def writeBugLikelyReports (rsvc : ReportServices) (results : List CaseResult) :
    Except PyError BugReports :=
  let bugResults := classified .bugLikely results
  (sortedResults bugResults).foldlM (fun reports result ↦ do
    let reading ← readBugCase rsvc result
    return reports.record rsvc reading) { bugLikelyCount := bugResults.length }

/-! ### The summary -/

/-- The files that `write_summary` writes: `summary.json`, three lists of results, and the report on
bug-likely cases. -/
structure SummaryReports where
  campaign : String
  total : ℕ
  classificationCounts : List (Classification × ℕ)
  baselineInvalidRate : ℚ
  dualExecutionCompletionRate : ℚ
  jobs : ℤ
  maxConcurrentVms : ℤ
  baselineInvalid : List CaseResult
  divergenceIndex : List CaseResult
  unsupportedFeature : List CaseResult
  bugLikely : BugReports

/-- `write_summary`. -/
def writeSummary (rsvc : ReportServices) (campaign : String) (jobs : ℤ)
    (results : List CaseResult) : Except PyError SummaryReports := do
  let classes := counter (results.map CaseResult.classification)
  let completed := results.countP fun result ↦
    result.candidateRun.map RunResult.status = some ExecutionStatus.ok.value
  let bugLikely ← writeBugLikelyReports rsvc results
  return {
    campaign := campaign
    total := results.length
    classificationCounts := classes
    baselineInvalidRate :=
      if results.isEmpty then 0
      else ((classes.lookup .baselineInvalid).getD 0 : ℚ) / results.length
    dualExecutionCompletionRate := if results.isEmpty then 0 else (completed : ℚ) / results.length
    jobs := jobs
    maxConcurrentVms := rsvc.maxConcurrentVms
    baselineInvalid := classified .baselineInvalid results
    divergenceIndex := results.filter fun result ↦
      result.classification = .bugLikely || result.classification = .weakSpecOrEnvNoise
    unsupportedFeature := classified .unsupportedFeature results
    bugLikely := bugLikely }

/-! ### The report on failures -/

/-- The dictionary of `build_failure_case_summary`. -/
structure FailureCase where
  programId : String
  classification : Classification
  scmlPreflightStatus : String
  normalizedPath : String
  metaPath : String
  referenceStatus : Option String
  candidateStatus : Option String
  firstDivergenceIndex : Option ℕ
  firstDivergenceSyscallName : Option String
  referenceConsoleLogPath : String
  candidateConsoleLogPath : String
  referenceTraceJsonPath : Option String
  candidateTraceJsonPath : Option String
  referenceCanonicalTracePath : String
  candidateCanonicalTracePath : String
  comparison : Option Comparison

/-- `build_failure_case_summary`. -/
def buildFailureCaseSummary (rsvc : ReportServices) (result : CaseResult) :
    Except PyError FailureCase := do
  let referenceRun := latestReferenceRun result
  let candidateRun := latestCandidateRun result
  let (index, name) ← firstDivergenceDetails rsvc.canonicalFiles result
  return {
    programId := result.programId
    classification := result.classification
    scmlPreflightStatus := result.scml.preflightStatus
    normalizedPath := result.normalizedPath
    metaPath := result.metaPath
    referenceStatus := referenceRun.map RunResult.status
    candidateStatus := candidateRun.map RunResult.status
    firstDivergenceIndex := index
    firstDivergenceSyscallName := name
    referenceConsoleLogPath := (referenceRun.map rsvc.consoleLogPath).getD ""
    candidateConsoleLogPath := (candidateRun.map rsvc.consoleLogPath).getD ""
    referenceTraceJsonPath := referenceRun.elim (some "") RunResult.traceJsonPath
    candidateTraceJsonPath := candidateRun.elim (some "") RunResult.traceJsonPath
    referenceCanonicalTracePath := canonicalTracePathForRun rsvc referenceRun
    candidateCanonicalTracePath := canonicalTracePathForRun rsvc candidateRun
    comparison := result.comparison }

/-- `failure-report.json`. -/
structure FailureReport where
  workflow : String
  campaign : String
  totalResults : ℕ
  failedResults : ℕ
  classificationCounts : List (Classification × ℕ)
  failuresByClassification : List (Classification × List FailureCase)

/-- `failure_results`. -/
def failureResults (results : List CaseResult) : List CaseResult :=
  results.filter fun result ↦ result.classification ≠ .noDiff

/-- `sorted(classification_counts)`. -/
def sortedClassifications (counts : List (Classification × ℕ)) : List Classification :=
  (counts.map Prod.fst).insertionSort fun first second ↦
    classificationText first ≤ classificationText second

/-- A row of `grouped_rows`. -/
def failureGroup (rsvc : ReportServices) (results : List CaseResult)
    (classification : Classification) : Except PyError (Classification × List FailureCase) := do
  let cases ← (sortedResults (classified classification results)).mapM
    (buildFailureCaseSummary rsvc)
  return (classification, cases)

/-- `write_failure_reports`. -/
def writeFailureReports (rsvc : ReportServices) (campaign : String) (results : List CaseResult) :
    Except PyError FailureReport := do
  let failures := failureResults results
  let classificationCounts := counter (failures.map CaseResult.classification)
  let groupedRows ← (sortedClassifications classificationCounts).mapM (failureGroup rsvc failures)
  return {
    workflow := rsvc.workflow
    campaign := campaign
    totalResults := results.length
    failedResults := failures.length
    classificationCounts := classificationCounts
    failuresByClassification := groupedRows }

/-! ### A campaign -/

/-- `write_post_run_reports`. -/
def writePostRunReports (rsvc : ReportServices) (campaign : String) (jobs : ℤ)
    (results : List CaseResult) : Except PyError (SummaryReports × FailureReport) := do
  let summary ← writeSummary rsvc campaign jobs results
  rsvc.renderSummaryReports
  let failure ← writeFailureReports rsvc campaign results
  return (summary, failure)

/-- `main`, from the entries to the reports. -/
def runCampaign (svc : Services) (execute : BatchExecutor) (orders : ScheduleOrders)
    (config : BatchConfig) (explicit : Option ℤ) (rsvc : ReportServices) (campaign : String)
    (jobs : ℤ) (entries : List Entry) :
    Except PyError (List CaseResult × SummaryReports × FailureReport) := do
  let results ← scheduleEntries svc execute orders config explicit jobs entries
  let reports ← writePostRunReports rsvc campaign jobs results
  return (results, reports)

/-! ### Runs of bug-likely cases -/

/-- A bug-likely case has run on both sides. -/
def HasRuns (result : CaseResult) : Prop :=
  result.classification = .bugLikely →
    (∃ run, result.referenceRuns.getLast? = some run) ∧ ∃ run, result.candidateRun = some run

section Results

variable {svc : Services} {entry : Entry} {prepared : Prepared} {result : CaseResult}

theorem prepareCase_final_ne_bugLikely (hprepared : prepareCase svc entry = .ok (.final result)) :
    result.classification ≠ .bugLikely := by
  unfold prepareCase at hprepared
  obtain ⟨built, -, hrest⟩ := bind_eq_ok_iff.mp hprepared
  cases built with
  | false =>
    rw [← PrepareOutcome.final.inj (pure_eq_ok_iff.mp hrest)]
    exact Classification.noConfusion
  | true =>
    obtain ⟨⟨results, resultHashes, canonical⟩, -, hlast⟩ := bind_eq_ok_iff.mp hrest
    dsimp only at hlast
    split_ifs at hlast
    · rw [← PrepareOutcome.final.inj (pure_eq_ok_iff.mp hlast)]
      exact Classification.noConfusion
    · exact PrepareOutcome.noConfusion (pure_eq_ok_iff.mp hlast)

theorem hasRuns_infraErrorResult (entry : Entry) (stage : String) (error : PyError)
    (referenceResults candidateResults : List RunResult) :
    HasRuns (infraErrorResult entry stage error referenceResults candidateResults) := by
  intro hclass
  cases hclass

theorem hasRuns_prepareCaseSafe (hprepared : prepareCaseSafe svc entry = .final result) :
    HasRuns result := by
  unfold prepareCaseSafe at hprepared
  cases houtcome : prepareCase svc entry with
  | error error =>
    rw [houtcome] at hprepared
    rw [← PrepareOutcome.final.inj hprepared]
    exact hasRuns_infraErrorResult _ _ _ _ _
  | ok outcome =>
    rw [houtcome] at hprepared
    change outcome = .final result at hprepared
    exact fun hclass ↦ absurd hclass (prepareCase_final_ne_bugLikely (hprepared ▸ houtcome))

/-- A case is ready only when its preparation did not raise. -/
theorem prepareCase_of_candidateReady
    (hprepared : prepareCaseSafe svc entry = .candidateReady prepared) :
    prepareCase svc entry = .ok (.candidateReady prepared) := by
  unfold prepareCaseSafe at hprepared
  cases houtcome : prepareCase svc entry with
  | error error =>
    rw [houtcome] at hprepared
    exact PrepareOutcome.noConfusion hprepared
  | ok outcome =>
    rw [houtcome] at hprepared
    exact congrArg Except.ok hprepared

/-- A finalized case has run: its runs are those of its history, which has a last round. -/
theorem hasRuns_finalizePreparedCaseSafe
    (hprepared : prepareCaseSafe svc entry = .candidateReady prepared) (candidate : Outcome)
    (placement : Placement) :
    HasRuns (finalizePreparedCaseSafe svc prepared candidate placement) := by
  have hready := prepareCase_of_candidateReady hprepared
  unfold finalizePreparedCaseSafe
  cases hresult : finalizePreparedCase svc prepared candidate placement with
  | error error => exact hasRuns_infraErrorResult _ _ _ _ _
  | ok result =>
    obtain ⟨state, hstate, rfl⟩ := finalizePreparedCase_eq_ok_iff.mp hresult
    obtain ⟨history, hhistory, hrecords⟩ := records_triagedState hready hstate
    obtain ⟨earlier, last, rfl⟩ := hhistory.exists_last
    split_ifs
    · refine fun _ ↦ ⟨⟨last.1.1, ?_⟩, last.2.1, ?_⟩
      · change state.referenceResults.getLast? = some last.1.1
        rw [hrecords.referenceResults]
        simp [references]
      · change state.candidateResults.getLast? = some last.2.1
        rw [hrecords.candidateResults]
        simp [candidates]
    · intro hclass
      cases hclass

/-- What holds of every final preparation, of every infrastructure error and of every finalized case
holds of all results of a campaign. -/
theorem forall_mem_scheduleEntries {P : CaseResult → Prop} {execute : BatchExecutor}
    {orders : ScheduleOrders} {config : BatchConfig} {explicit : Option ℤ} {jobs : ℤ}
    {entries : List Entry} {results : List CaseResult}
    (hfinal : ∀ entry result, prepareCaseSafe svc entry = .final result → P result)
    (herror : ∀ entry stage error references candidates,
      P (infraErrorResult entry stage error references candidates))
    (hfinalized : ∀ entry prepared candidate placement,
      prepareCaseSafe svc entry = .candidateReady prepared →
        P (finalizePreparedCaseSafe svc prepared candidate placement))
    (hresults : scheduleEntries svc execute orders config explicit jobs entries = .ok results) :
    ∀ result ∈ results, P result := by
  have hone : ∀ entry, P (scheduleOne svc entry) := by
    intro entry
    unfold scheduleOne
    cases houtcome : prepareCaseSafe svc entry with
    | final result => exact hfinal entry result houtcome
    | candidateReady prepared =>
      dsimp only
      cases runCandidateOnce svc prepared.programId prepared.runId "candidate0"
          prepared.injectTrace with
      | error error => exact herror _ _ _ _ _
      | ok candidate => exact hfinalized entry prepared candidate {} houtcome
  have hchunk : ∀ executed entry prepared, prepareCaseSafe svc entry = .candidateReady prepared →
      P (chunkCaseResult svc executed prepared) := by
    intro executed entry prepared houtcome
    unfold chunkCaseResult finalizeChunkCase
    cases executed with
    | error error => exact herror _ _ _ _ _
    | ok output =>
      dsimp only
      cases loadBatchResult output prepared with
      | error error => exact herror _ _ _ _ _
      | ok candidate => exact hfinalized entry prepared candidate _ houtcome
  intro result hresult
  unfold scheduleEntries at hresults
  obtain ⟨batched, -, hrest⟩ := bind_eq_ok_iff.mp hresults
  cases batched with
  | true =>
    -- A slot holds what preparation made final or what a chunk wrote later.
    rw [← pure_eq_ok_iff.mp hrest, scheduleEntriesWithCandidateBatch_eq,
      List.mem_filterMap] at hresult
    obtain ⟨slot, hslot, rfl⟩ := hresult
    obtain hnone | ⟨write, hwrite, hvalue⟩ := mem_writeAll hslot
    · cases List.eq_of_mem_replicate hnone
    obtain rfl : result = write.2 := Option.some.inj hvalue
    obtain hwritten | hlater := List.mem_append.mp hwrite
    · obtain ⟨entry, -, houtcome⟩ := mem_finalResults.mp hwritten
      exact hfinal entry write.2 houtcome
    · obtain ⟨offset, hoffset, hmem⟩ := List.mem_flatMap.mp hlater
      rw [executeChunk_eq] at hmem
      obtain ⟨item, hitem, rfl⟩ := List.mem_map.mp hmem
      have hpending := List.mem_flatMap.mpr ⟨offset, hoffset, hitem⟩
      rw [flatMap_chunkAt _ (one_le_effectiveCandidateBatchSize explicit config)] at hpending
      obtain ⟨entry, -, houtcome⟩ := mem_pendingCases.mp hpending
      exact hchunk _ entry item.2 houtcome
  | false =>
    have hmap : results = entries.map (scheduleOne svc) := by
      rw [poolMap_eq, filterMap_id_map_some, if_neg Bool.false_ne_true, ite_self] at hrest
      exact (pure_eq_ok_iff.mp hrest).symm
    rw [hmap] at hresult
    obtain ⟨entry, -, rfl⟩ := List.mem_map.mp hresult
    exact hone entry

end Results

/-- Every bug-likely result of a campaign has run on both sides, on both paths of the scheduler. -/
theorem hasRuns_scheduleEntries {svc : Services} {execute : BatchExecutor} {orders : ScheduleOrders}
    {config : BatchConfig} {explicit : Option ℤ} {jobs : ℤ} {entries : List Entry}
    {results : List CaseResult}
    (hresults : scheduleEntries svc execute orders config explicit jobs entries = .ok results) :
    ∀ result ∈ results, HasRuns result :=
  forall_mem_scheduleEntries (fun _ _ ↦ hasRuns_prepareCaseSafe) hasRuns_infraErrorResult
    (fun _ _ candidate placement hprepared ↦
      hasRuns_finalizePreparedCaseSafe hprepared candidate placement) hresults

/-! ### Files that load -/

/-- A file is absent or loads. -/
def Stored.Readable {α : Type} (file : Stored α) : Prop := ∀ error, file ≠ .unreadable error

theorem Stored.exists_load_iff {α : Type} {file : Stored α} (hexists : file.exists = true) :
    (∃ value, file.load = .ok value) ↔ file.Readable := by
  cases file with
  | absent => exact nomatch hexists
  | unreadable error =>
    exact iff_of_false (fun ⟨_, hload⟩ ↦ nomatch hload) fun hreadable ↦ hreadable error rfl
  | stored value => exact iff_of_true ⟨value, rfl⟩ fun _ hfile ↦ nomatch hfile

theorem Stored.readable_of_not_exists {α : Type} {file : Stored α} (habsent : ¬file.exists = true) :
    file.Readable := by
  cases file with
  | absent => exact fun _ hfile ↦ nomatch hfile
  | unreadable error => exact absurd rfl habsent
  | stored value => exact absurd rfl habsent

/-- The canonical trace of a run is absent or loads. -/
def TraceReadable (files : CanonicalFiles) (run : RunResult) : Prop :=
  ∀ path ∈ run.traceJsonPath, path ≠ "" → (files path).Readable

/-- What the reports read for every failing case. -/
structure CaseReadable (rsvc : ReportServices) (result : CaseResult) : Prop where
  reference_trace : ∀ run ∈ latestReferenceRun result, TraceReadable rsvc.canonicalFiles run
  candidate_trace : ∀ run ∈ latestCandidateRun result, TraceReadable rsvc.canonicalFiles run

/-- What they read for a bug-likely case as well. -/
structure BugFilesReadable (rsvc : ReportServices) (result : CaseResult) : Prop where
  testcase : (rsvc.testcases result.normalizedPath).Readable
  syscall_list : result.metaPath ≠ "" → (rsvc.fullSyscallLists result.metaPath).Readable

section Readability

variable {rsvc : ReportServices} {result : CaseResult}

/-- A file that is looked for first is read exactly when it is absent or loads. -/
theorem exists_load_if_exists_iff {α : Type} {file : Stored α} :
    (∃ value, (if file.exists then some <$> file.load else .ok none : Except PyError (Option α)) =
      .ok value) ↔ file.Readable := by
  by_cases hexists : file.exists = true
  · rw [if_pos hexists, ← Stored.exists_load_iff hexists]
    cases file.load with
    | error error => exact iff_of_false (fun ⟨_, h⟩ ↦ nomatch h) fun ⟨_, h⟩ ↦ nomatch h
    | ok value => exact iff_of_true ⟨_, rfl⟩ ⟨value, rfl⟩
  · rw [if_neg hexists]
    exact iff_of_true ⟨none, rfl⟩ (Stored.readable_of_not_exists hexists)

theorem exists_canonicalTraceForRun_iff {files : CanonicalFiles} {run : RunResult} :
    (∃ trace, canonicalTraceForRun files run = .ok trace) ↔ TraceReadable files run := by
  unfold canonicalTraceForRun TraceReadable
  cases run.traceJsonPath with
  | none => exact iff_of_true ⟨none, rfl⟩ fun _ hpath ↦ nomatch hpath
  | some path =>
    simp only [Option.mem_def, Option.some.injEq, forall_eq']
    by_cases hempty : path = ""
    · rw [if_pos hempty]
      exact iff_of_true ⟨none, rfl⟩ fun hne ↦ absurd hempty hne
    · rw [if_neg hempty, exists_load_if_exists_iff]
      exact (imp_iff_right hempty).symm

theorem exists_canonicalTraceFor_iff {files : CanonicalFiles} {latest : Option RunResult} :
    (∃ trace, canonicalTraceFor files latest = .ok trace) ↔
      ∀ run ∈ latest, TraceReadable files run := by
  cases latest with
  | none => exact iff_of_true ⟨none, rfl⟩ fun _ hrun ↦ nomatch hrun
  | some run =>
    simp only [Option.mem_def, Option.some.injEq, forall_eq']
    exact exists_canonicalTraceForRun_iff

theorem exists_firstDivergenceDetails_iff :
    (∃ details, firstDivergenceDetails rsvc.canonicalFiles result = .ok details) ↔
      CaseReadable rsvc result := by
  have hdetails : (∃ details, firstDivergenceDetails rsvc.canonicalFiles result = .ok details) ↔
      (∃ trace, canonicalTraceFor rsvc.canonicalFiles (latestReferenceRun result) = .ok trace) ∧
      (∃ trace, canonicalTraceFor rsvc.canonicalFiles (latestCandidateRun result) = .ok trace) ∧
      True :=
    exists_bind_eq_ok_iff fun _ _ ↦ exists_bind_eq_ok_iff fun _ _ ↦ iff_of_true ⟨_, rfl⟩ trivial
  rw [hdetails, exists_canonicalTraceFor_iff, exists_canonicalTraceFor_iff, and_true]
  exact ⟨fun h ↦ ⟨h.1, h.2⟩, fun h ↦ ⟨h.1, h.2⟩⟩

theorem exists_buildFailureCaseSummary_iff :
    (∃ case, buildFailureCaseSummary rsvc result = .ok case) ↔ CaseReadable rsvc result := by
  have hsummary : (∃ case, buildFailureCaseSummary rsvc result = .ok case) ↔
      (∃ details, firstDivergenceDetails rsvc.canonicalFiles result = .ok details) ∧ True :=
    exists_bind_eq_ok_iff fun _ _ ↦ iff_of_true ⟨_, rfl⟩ trivial
  rw [hsummary, and_true, exists_firstDivergenceDetails_iff]

theorem exists_loadFullSyscallList_iff :
    (∃ names, loadFullSyscallList rsvc result = .ok names) ↔
      (result.metaPath ≠ "" → (rsvc.fullSyscallLists result.metaPath).Readable) := by
  unfold loadFullSyscallList
  by_cases hempty : result.metaPath = ""
  · rw [if_pos hempty]
    exact iff_of_true ⟨[], rfl⟩ fun hne ↦ absurd hempty hne
  rw [if_neg hempty, imp_iff_right hempty]
  by_cases hexists : (rsvc.fullSyscallLists result.metaPath).exists = true
  · rw [if_pos hexists, Stored.exists_load_iff hexists]
  · rw [if_neg hexists]
    exact iff_of_true ⟨[], rfl⟩ (Stored.readable_of_not_exists hexists)

/-- A bug-likely case that has run is read exactly when its files load. -/
theorem exists_readBugCase_iff (hruns : HasRuns result)
    (hbug : result.classification = .bugLikely) :
    (∃ reading, readBugCase rsvc result = .ok reading) ↔
      CaseReadable rsvc result ∧ BugFilesReadable rsvc result := by
  obtain ⟨⟨referenceRun, hreference⟩, candidateRun, hcandidate⟩ := hruns hbug
  have hread : (∃ reading, readBugCase rsvc result = .ok reading) ↔
      (∃ trace, canonicalTraceForRun rsvc.canonicalFiles referenceRun = .ok trace) ∧
      (∃ trace, canonicalTraceForRun rsvc.canonicalFiles candidateRun = .ok trace) ∧
      (∃ details, firstDivergenceDetails rsvc.canonicalFiles result = .ok details) ∧
      (∃ testcase, readTestcase rsvc result = .ok testcase) ∧
      (∃ names, loadFullSyscallList rsvc result = .ok names) ∧ True := by
    unfold readBugCase lastReferenceRun requiredCandidateRun
    rw [hreference, hcandidate]
    dsimp only
    rw [ok_bind, ok_bind]
    exact exists_bind_eq_ok_iff fun _ _ ↦ exists_bind_eq_ok_iff fun _ _ ↦
      exists_bind_eq_ok_iff fun _ _ ↦ exists_bind_eq_ok_iff fun _ _ ↦
      exists_bind_eq_ok_iff fun _ _ ↦ iff_of_true ⟨_, rfl⟩ trivial
  have hlatest : latestReferenceRun result = some referenceRun := hreference
  have hlatestCandidate : latestCandidateRun result = some candidateRun := by
    rw [latestCandidateRun, hcandidate, Option.some_or]
  rw [hread, exists_canonicalTraceForRun_iff, exists_canonicalTraceForRun_iff,
    exists_firstDivergenceDetails_iff, exists_loadFullSyscallList_iff, readTestcase,
    exists_load_if_exists_iff]
  constructor
  · rintro ⟨-, -, hcase, htestcase, hnames, -⟩
    exact ⟨hcase, htestcase, hnames⟩
  · rintro ⟨hcase, htestcase, hnames⟩
    exact ⟨hcase.reference_trace referenceRun hlatest,
      hcase.candidate_trace candidateRun hlatestCandidate, hcase, htestcase, hnames, trivial⟩

end Readability

/-! ### Reports that are written -/

theorem mem_sortedResults {results : List CaseResult} {result : CaseResult} :
    result ∈ sortedResults results ↔ result ∈ results := List.mem_insertionSort _

theorem mem_classified {classification : Classification} {results : List CaseResult}
    {result : CaseResult} : result ∈ classified classification results ↔
      result ∈ results ∧ result.classification = classification := by
  rw [classified, List.mem_filter, decide_eq_true_eq]

theorem mem_failureResults {results : List CaseResult} {result : CaseResult} :
    result ∈ failureResults results ↔ result ∈ results ∧ result.classification ≠ .noDiff := by
  rw [failureResults, List.mem_filter, decide_eq_true_eq]

theorem mem_sortedClassifications {values : List Classification} {classification : Classification} :
    classification ∈ sortedClassifications (counter values) ↔ classification ∈ values := by
  rw [sortedClassifications, List.mem_insertionSort, mem_keys_counter]

section Written

variable {rsvc : ReportServices} {results : List CaseResult}

theorem writeBugLikelyReports_eq_ok_iff {reports : BugReports} :
    writeBugLikelyReports rsvc results = .ok reports ↔
      ∃ readings, (sortedResults (classified .bugLikely results)).mapM (readBugCase rsvc) =
          .ok readings ∧
        reports = readings.foldl (BugReports.record rsvc)
          { bugLikelyCount := (classified .bugLikely results).length } :=
  foldlM_eq_ok_iff fun _ _ ↦ rfl

theorem exists_writeSummary_iff (hruns : ∀ result ∈ results, HasRuns result) (campaign : String)
    (jobs : ℤ) :
    (∃ summary, writeSummary rsvc campaign jobs results = .ok summary) ↔
      ∀ result ∈ results, result.classification = .bugLikely →
        CaseReadable rsvc result ∧ BugFilesReadable rsvc result := by
  have hsummary : (∃ summary, writeSummary rsvc campaign jobs results = .ok summary) ↔
      (∃ reports, writeBugLikelyReports rsvc results = .ok reports) ∧ True :=
    exists_bind_eq_ok_iff fun _ _ ↦ iff_of_true ⟨_, rfl⟩ trivial
  have hreports : (∃ reports, writeBugLikelyReports rsvc results = .ok reports) ↔
      ∃ readings, (sortedResults (classified .bugLikely results)).mapM (readBugCase rsvc) =
        .ok readings := by
    simp only [writeBugLikelyReports_eq_ok_iff]
    exact ⟨fun ⟨_, readings, hreadings, _⟩ ↦ ⟨readings, hreadings⟩,
      fun ⟨readings, hreadings⟩ ↦ ⟨_, readings, hreadings, rfl⟩⟩
  rw [hsummary, and_true, hreports, exists_mapM_eq_ok_iff]
  simp only [mem_sortedResults, mem_classified, and_imp]
  exact forall₂_congr fun result hresult ↦ imp_congr_right fun hbug ↦
    exists_readBugCase_iff (hruns result hresult) hbug

theorem failureGroup_eq_ok_iff {classification : Classification}
    {group : Classification × List FailureCase} :
    failureGroup rsvc results classification = .ok group ↔
      group.1 = classification ∧
        (sortedResults (classified classification results)).mapM (buildFailureCaseSummary rsvc) =
          .ok group.2 := by
  rw [failureGroup, bind_eq_ok_iff]
  constructor
  · rintro ⟨cases, hcases, hgroup⟩
    rw [← pure_eq_ok_iff.mp hgroup]
    exact ⟨rfl, hcases⟩
  · rintro ⟨rfl, hcases⟩
    exact ⟨group.2, hcases, rfl⟩

theorem exists_writeFailureReports_iff (campaign : String) :
    (∃ report, writeFailureReports rsvc campaign results = .ok report) ↔
      ∀ result ∈ results, result.classification ≠ .noDiff → CaseReadable rsvc result := by
  have hreport : (∃ report, writeFailureReports rsvc campaign results = .ok report) ↔
      (∃ rows, (sortedClassifications (counter ((failureResults results).map
        CaseResult.classification))).mapM (failureGroup rsvc (failureResults results)) =
          .ok rows) ∧ True :=
    exists_bind_eq_ok_iff fun _ _ ↦ iff_of_true ⟨_, rfl⟩ trivial
  have hgroup (classification : Classification) :
      (∃ group, failureGroup rsvc (failureResults results) classification = .ok group) ↔
        ∀ result ∈ classified classification (failureResults results),
          CaseReadable rsvc result := by
    have hcases : (∃ group, failureGroup rsvc (failureResults results) classification =
          .ok group) ↔
        (∃ cases, (sortedResults (classified classification (failureResults results))).mapM
          (buildFailureCaseSummary rsvc) = .ok cases) ∧ True :=
      exists_bind_eq_ok_iff fun _ _ ↦ iff_of_true ⟨_, rfl⟩ trivial
    rw [hcases, and_true, exists_mapM_eq_ok_iff]
    simp only [mem_sortedResults, exists_buildFailureCaseSummary_iff]
  rw [hreport, and_true, exists_mapM_eq_ok_iff]
  simp only [hgroup, mem_sortedClassifications, List.mem_map, mem_classified, mem_failureResults]
  constructor
  · exact fun h result hresult hfailed ↦
      h _ ⟨result, ⟨hresult, hfailed⟩, rfl⟩ result ⟨⟨hresult, hfailed⟩, rfl⟩
  · exact fun h _ _ result hresult ↦ h result hresult.1.1 hresult.1.2

end Written

/-- A campaign that is scheduled ends with its reports exactly when the files of its failing cases
load: no report is missing because a case has no run. -/
theorem exists_runCampaign_iff {svc : Services} {execute : BatchExecutor} {orders : ScheduleOrders}
    {config : BatchConfig} {explicit : Option ℤ} {enabled : Bool}
    (henabled : candidateBatchingEnabled explicit config = .ok enabled) (rsvc : ReportServices)
    (campaign : String) (jobs : ℤ) (entries : List Entry) :
    ∃ results, scheduleEntries svc execute orders config explicit jobs entries = .ok results ∧
      ((∃ reports, runCampaign svc execute orders config explicit rsvc campaign jobs entries =
          .ok (results, reports)) ↔
        rsvc.renderSummaryReports = .ok () ∧ ∀ result ∈ results,
          (result.classification ≠ .noDiff → CaseReadable rsvc result) ∧
            (result.classification = .bugLikely → BugFilesReadable rsvc result)) := by
  obtain ⟨results, hresults, -⟩ :=
    @scheduleEntries_programIds svc execute orders config explicit enabled henabled jobs entries
  refine ⟨results, hresults, ?_⟩
  have hreports : (∃ reports, runCampaign svc execute orders config explicit rsvc campaign jobs
        entries = .ok (results, reports)) ↔
      ∃ reports, writePostRunReports rsvc campaign jobs results = .ok reports := by
    refine exists_congr fun reports ↦ ?_
    rw [runCampaign, hresults, ok_bind, bind_eq_ok_iff]
    constructor
    · rintro ⟨other, hother, hsame⟩
      rw [← (Prod.mk.inj (pure_eq_ok_iff.mp hsame)).2]
      exact hother
    · exact fun hwritten ↦ ⟨reports, hwritten, rfl⟩
  have hwritten : (∃ reports, writePostRunReports rsvc campaign jobs results = .ok reports) ↔
      (∃ summary, writeSummary rsvc campaign jobs results = .ok summary) ∧
      (∃ rendered, rsvc.renderSummaryReports = .ok rendered) ∧
      (∃ report, writeFailureReports rsvc campaign results = .ok report) ∧ True :=
    exists_bind_eq_ok_iff fun _ _ ↦ exists_bind_eq_ok_iff fun _ _ ↦
      exists_bind_eq_ok_iff fun _ _ ↦ iff_of_true ⟨_, rfl⟩ trivial
  rw [hreports, hwritten, exists_writeSummary_iff (hasRuns_scheduleEntries hresults),
    exists_writeFailureReports_iff, and_true]
  constructor
  · rintro ⟨hbug, ⟨⟨⟩, hrendered⟩, hfailed⟩
    exact ⟨hrendered, fun result hresult ↦ ⟨hfailed result hresult,
      fun hclass ↦ (hbug result hresult hclass).2⟩⟩
  · rintro ⟨hrendered, hreadable⟩
    refine ⟨fun result hresult hclass ↦ ⟨(hreadable result hresult).1 ?_,
      (hreadable result hresult).2 hclass⟩, ⟨(), hrendered⟩, fun result hresult ↦
        (hreadable result hresult).1⟩
    rw [hclass]
    exact Classification.noConfusion

/-- A campaign whose references end well and whose candidates crash. -/
def crashingCampaign : Services where
  rerunCount := 1
  noiseSyscalls := []
  workflow := "asterinas"
  injectTrace := none
  buildRoot := id
  clock := fun _ ↦ 0
  buildStatusOk := fun _ ↦ .ok true
  executeSide := fun request ↦
    match request.side with
    | .reference => .ok (emptyRun .reference "reference" "ok" 0)
    | .candidate => .ok (emptyRun .candidate "candidate" "crash" 139)
  executeCandidateCaseInPackage := fun _ _ _ ↦ .error ⟨"RuntimeError", "no packages"⟩
  traceDigest := CanonicalTrace.side

/-- Reports for which no file is there. -/
def bareReports : ReportServices where
  workflow := "asterinas"
  maxConcurrentVms := 1
  consoleLogPath := fun _ ↦ ""
  canonicalTracePath := id
  testcaseCopyPath := id
  canonicalFiles := fun _ ↦ .absent
  testcases := fun _ ↦ .absent
  fullSyscallLists := fun _ ↦ .absent
  renderSummaryReports := .ok ()

theorem exists_runCampaign_iff_crashing :
    ∃ results, scheduleEntries crashingCampaign (fun _ ↦ .error ⟨"OSError", "no runner"⟩)
        ⟨.submission, fun _ ↦ .submission, .submission⟩ batchingConfig none 1
        [{ programId := "p" }] = .ok results ∧
      ((∃ reports, runCampaign crashingCampaign (fun _ ↦ .error ⟨"OSError", "no runner"⟩)
          ⟨.submission, fun _ ↦ .submission, .submission⟩ batchingConfig none bareReports "smoke" 1
          [{ programId := "p" }] = .ok (results, reports)) ↔
        bareReports.renderSummaryReports = .ok () ∧ ∀ result ∈ results,
          (result.classification ≠ .noDiff → CaseReadable bareReports result) ∧
            (result.classification = .bugLikely → BugFilesReadable bareReports result)) := by
  have henabled : candidateBatchingEnabled none batchingConfig = .ok false := rfl
  exact exists_runCampaign_iff henabled bareReports "smoke" 1 _

/-! ### What the reports account for -/

/-- A case and where it diverges, as the report on failures says it. -/
def FailureCase.line (case : FailureCase) : String × Option ℕ × Option String :=
  (case.programId, case.firstDivergenceIndex, case.firstDivergenceSyscallName)

/-- A case and where it diverges, as the report on bug-likely cases says it. -/
def BugCase.line (case : BugCase) : String × Option ℕ × Option String :=
  (case.programId, case.firstDivergenceIndex, case.firstDivergenceSyscallName)

/-- The files of the report on bug-likely cases are those of its index. -/
structure BugReports.Indexed (reports : BugReports) : Prop where
  cases_eq : reports.cases = Library.OrderedDict.insertAll []
    (reports.index.map fun case ↦ (case.programId, case))
  counts_eq : reports.firstDivergenceSyscallCounts =
    counter (reports.index.filterMap BugCase.firstDivergenceSyscallName)

/-- Writing a case keeps `Indexed`. -/
theorem BugReports.Indexed.record {reports : BugReports} (hindexed : reports.Indexed)
    (rsvc : ReportServices) (reading : BugCase × Option String) :
    (reports.record rsvc reading).Indexed := by
  constructor
  · rw [BugReports.record, hindexed.cases_eq, List.map_append, Library.OrderedDict.insertAll,
      Library.OrderedDict.insertAll, List.foldl_append]
    rfl
  · rw [BugReports.record, hindexed.counts_eq, List.filterMap_append, counter, counter,
      List.foldl_append]
    cases hname : reading.1.firstDivergenceSyscallName with
    | none => simp [hname]
    | some name => simp [hname]

/-- Writing all cases keeps `Indexed`, and leaves the lines that were read. -/
theorem BugReports.Indexed.foldl_record (rsvc : ReportServices)
    (readings : List (BugCase × Option String)) {reports : BugReports}
    (hindexed : reports.Indexed) :
    (readings.foldl (BugReports.record rsvc) reports).Indexed ∧
      (readings.foldl (BugReports.record rsvc) reports).bugLikelyCount = reports.bugLikelyCount ∧
      (readings.foldl (BugReports.record rsvc) reports).index.map BugCase.line =
        reports.index.map BugCase.line ++ readings.map fun reading ↦ reading.1.line := by
  induction readings generalizing reports with
  | nil => exact ⟨hindexed, rfl, (List.append_nil _).symm⟩
  | cons reading rest ih =>
    obtain ⟨hrest, hcount, hlines⟩ := ih (hindexed.record rsvc reading)
    refine ⟨hrest, hcount, ?_⟩
    rw [List.foldl_cons, hlines, List.map_cons, BugReports.record, List.map_append,
      List.append_assoc]
    rfl

section Lines

variable {rsvc : ReportServices} {result : CaseResult}

theorem line_of_readBugCase {reading : BugCase × Option String}
    (hread : readBugCase rsvc result = .ok reading) :
    ∃ details, firstDivergenceDetails rsvc.canonicalFiles result = .ok details ∧
      reading.1.line = (result.programId, details) := by
  obtain ⟨referenceRun, -, hread⟩ := bind_eq_ok_iff.mp hread
  obtain ⟨candidateRun, -, hread⟩ := bind_eq_ok_iff.mp hread
  obtain ⟨referenceCanonical, -, hread⟩ := bind_eq_ok_iff.mp hread
  obtain ⟨candidateCanonical, -, hread⟩ := bind_eq_ok_iff.mp hread
  obtain ⟨details, hdetails, hread⟩ := bind_eq_ok_iff.mp hread
  obtain ⟨testcase, -, hread⟩ := bind_eq_ok_iff.mp hread
  obtain ⟨names, -, hread⟩ := bind_eq_ok_iff.mp hread
  rw [← pure_eq_ok_iff.mp hread]
  exact ⟨details, hdetails, rfl⟩

theorem line_of_buildFailureCaseSummary {case : FailureCase}
    (hsummary : buildFailureCaseSummary rsvc result = .ok case) :
    ∃ details, firstDivergenceDetails rsvc.canonicalFiles result = .ok details ∧
      case.line = (result.programId, details) := by
  obtain ⟨details, hdetails, hcase⟩ := bind_eq_ok_iff.mp hsummary
  rw [← pure_eq_ok_iff.mp hcase]
  exact ⟨details, hdetails, rfl⟩

end Lines

theorem programId_of_buildFailureCaseSummary {rsvc : ReportServices} {result : CaseResult}
    {case : FailureCase} (hsummary : buildFailureCaseSummary rsvc result = .ok case) :
    case.programId = result.programId := by
  obtain ⟨details, -, hline⟩ := line_of_buildFailureCaseSummary hsummary
  exact congrArg Prod.fst hline

/-- The reports account for some results. -/
structure AccountsFor (results : List CaseResult) (summary : SummaryReports)
    (failure : FailureReport) : Prop where
  /-- Every result is counted under its classification, and nowhere else. -/
  total : summary.total = results.length ∧ failure.totalResults = results.length
  counted : ∀ classification, (summary.classificationCounts.lookup classification).getD 0 =
    (classified classification results).length
  counts_sum : (summary.classificationCounts.map Prod.snd).sum = summary.total
  /-- A result is without a difference or it failed. -/
  failed : (classified .noDiff results).length + failure.failedResults = results.length
  /-- The failed ones are listed, each in the one group of its classification. -/
  groups_sorted : failure.failuresByClassification.Pairwise fun group next ↦
    classificationText group.1 < classificationText next.1
  group_sorted : ∀ group ∈ failure.failuresByClassification,
    group.2.Pairwise fun case next ↦ case.programId < next.programId
  listed_iff : ∀ classification programId,
    (∃ group ∈ failure.failuresByClassification, group.1 = classification ∧
        ∃ case ∈ group.2, case.programId = programId) ↔
      classification ≠ .noDiff ∧ ∃ result ∈ results,
        result.classification = classification ∧ result.programId = programId
  /-- Both reports say the same of the bug-likely cases, and each of them has its file. -/
  bug_lines : ∀ group ∈ failure.failuresByClassification, group.1 = .bugLikely →
    summary.bugLikely.index.map BugCase.line = group.2.map FailureCase.line
  bug_programs : summary.bugLikely.index.map BugCase.programId =
    (sortedResults (classified .bugLikely results)).map CaseResult.programId
  bug_count : summary.bugLikely.bugLikelyCount = summary.bugLikely.index.length
  bug_files : ∀ programId case, summary.bugLikely.cases.lookup programId = some case ↔
    case ∈ summary.bugLikely.index ∧ case.programId = programId
  label_counts : ∀ name, (summary.bugLikely.firstDivergenceSyscallCounts.lookup name).getD 0 =
    summary.bugLikely.index.countP fun case ↦ case.firstDivergenceSyscallName == some name

section Accounting

variable {rsvc : ReportServices} {campaign : String} {jobs : ℤ} {results : List CaseResult}
  {summary : SummaryReports} {failure : FailureReport}

theorem nodup_programs_classified (hdistinct : (results.map CaseResult.programId).Nodup)
    (classification : Classification) :
    ((classified classification results).map CaseResult.programId).Nodup :=
  hdistinct.sublist (List.filter_sublist.map CaseResult.programId)

/-- Rows of sorted results that carry their programs are sorted. -/
theorem pairwise_programs {β : Type} {rowProgram : β → String} {rows : List β}
    (hdistinct : (results.map CaseResult.programId).Nodup)
    (hrows : rows.map rowProgram = (sortedResults results).map CaseResult.programId) :
    rows.Pairwise fun row next ↦ rowProgram row < rowProgram next := by
  rw [← List.pairwise_map, hrows, List.pairwise_map]
  exact pairwise_lt_insertionSort hdistinct

theorem classified_failureResults {classification : Classification}
    (hclass : classification ≠ .noDiff) :
    classified classification (failureResults results) = classified classification results := by
  rw [classified, failureResults, List.filter_filter, classified]
  refine List.filter_congr fun result _ ↦ ?_
  by_cases hsame : result.classification = classification
  · simp [hsame, hclass]
  · simp [hsame]

theorem length_classified_eq_count (classification : Classification) :
    (classified classification results).length =
      (results.map CaseResult.classification).count classification := by
  rw [classified, ← List.countP_eq_length_filter, List.count, List.countP_map]
  refine List.countP_congr fun result _ ↦ ?_
  simp

/-- The parts of a failure report that is written. -/
theorem writeFailureReports_eq_ok (hwritten : writeFailureReports rsvc campaign results =
    .ok failure) :
    failure.totalResults = results.length ∧
      failure.failedResults = (failureResults results).length ∧
      (sortedClassifications (counter ((failureResults results).map
        CaseResult.classification))).mapM (failureGroup rsvc (failureResults results)) =
          .ok failure.failuresByClassification := by
  obtain ⟨rows, hrows, hreport⟩ := bind_eq_ok_iff.mp hwritten
  rw [← pure_eq_ok_iff.mp hreport]
  exact ⟨rfl, rfl, hrows⟩

/-- A group of a failure report is of a classification of failures, and has a case for each. -/
theorem exists_of_mem_groups (hwritten : writeFailureReports rsvc campaign results = .ok failure)
    {group : Classification × List FailureCase}
    (hgroup : group ∈ failure.failuresByClassification) :
    group.1 ≠ .noDiff ∧ List.Forall₂ (fun result case ↦
      buildFailureCaseSummary rsvc result = .ok case)
        (sortedResults (classified group.1 results)) group.2 := by
  obtain ⟨-, -, hrows⟩ := writeFailureReports_eq_ok hwritten
  obtain ⟨classification, hmem, hrow⟩ := exists_of_mapM_eq_ok hrows hgroup
  obtain ⟨rfl, hcases⟩ := failureGroup_eq_ok_iff.mp hrow
  obtain ⟨result, hresult, hclass⟩ := List.mem_map.mp (mem_sortedClassifications.mp hmem)
  have hfailed : group.1 ≠ .noDiff := hclass ▸ (mem_failureResults.mp hresult).2
  rw [classified_failureResults hfailed] at hcases
  exact ⟨hfailed, mapM_eq_ok_iff.mp hcases⟩

/-- A failed result is listed in the group of its classification, and nothing else is. -/
theorem listed_iff (hwritten : writeFailureReports rsvc campaign results = .ok failure)
    (classification : Classification) (programId : String) :
    (∃ group ∈ failure.failuresByClassification, group.1 = classification ∧
        ∃ case ∈ group.2, case.programId = programId) ↔
      classification ≠ .noDiff ∧ ∃ result ∈ results,
        result.classification = classification ∧ result.programId = programId := by
  constructor
  · rintro ⟨group, hgroup, rfl, case, hcase, rfl⟩
    obtain ⟨hfailed, hcases⟩ := exists_of_mem_groups hwritten hgroup
    obtain ⟨result, hresult, hsummary⟩ := exists_of_mapM_eq_ok (mapM_eq_ok_iff.mpr hcases) hcase
    obtain ⟨hmem, hclass⟩ := mem_classified.mp (mem_sortedResults.mp hresult)
    exact ⟨hfailed, result, hmem, hclass, (programId_of_buildFailureCaseSummary hsummary).symm⟩
  · rintro ⟨hfailed, result, hresult, rfl, rfl⟩
    obtain ⟨-, -, hrows⟩ := writeFailureReports_eq_ok hwritten
    have hclass : result.classification ∈ sortedClassifications
        (counter ((failureResults results).map CaseResult.classification)) :=
      mem_sortedClassifications.mpr
        (List.mem_map_of_mem (mem_failureResults.mpr ⟨hresult, hfailed⟩))
    obtain ⟨group, hgroup, hrow⟩ := exists_result_of_mapM_eq_ok hrows hclass
    have hsame := (failureGroup_eq_ok_iff.mp hrow).1
    obtain ⟨-, hcases⟩ := exists_of_mem_groups hwritten hgroup
    have hlisted : result ∈ sortedResults (classified group.1 results) :=
      mem_sortedResults.mpr (mem_classified.mpr ⟨hresult, hsame.symm⟩)
    obtain ⟨case, hcase, hsummary⟩ :=
      exists_result_of_mapM_eq_ok (mapM_eq_ok_iff.mpr hcases) hlisted
    exact ⟨group, hgroup, hsame, case, hcase, programId_of_buildFailureCaseSummary hsummary⟩

theorem classificationText_injective : Function.Injective classificationText := by
  intro first second htext
  cases first <;> cases second <;> first | rfl | exact absurd htext (by decide)

theorem groups_sorted (hwritten : writeFailureReports rsvc campaign results = .ok failure) :
    failure.failuresByClassification.Pairwise fun group next ↦
      classificationText group.1 < classificationText next.1 := by
  obtain ⟨-, -, hrows⟩ := writeFailureReports_eq_ok hwritten
  have hkeys : failure.failuresByClassification.map Prod.fst =
      (sortedClassifications (counter ((failureResults results).map
        CaseResult.classification))).map id :=
    map_keys_eq (mapM_eq_ok_iff.mp hrows) fun _ _ hrow ↦ (failureGroup_eq_ok_iff.mp hrow).1
  have hsorted : (sortedClassifications (counter ((failureResults results).map
      CaseResult.classification))).Pairwise fun first second ↦
        classificationText first < classificationText second :=
    pairwise_lt_insertionSort ((nodup_keys_counter _).map classificationText_injective)
  rw [List.map_id] at hkeys
  rw [← hkeys, List.pairwise_map] at hsorted
  exact hsorted

theorem length_noDiff_add_failures :
    (classified .noDiff results).length + (failureResults results).length = results.length := by
  rw [classified, failureResults, ← List.countP_eq_length_filter, ← List.countP_eq_length_filter,
    List.length_eq_countP_add_countP fun result ↦ decide (result.classification = .noDiff)]
  simp

/-- The report on bug-likely cases has a line for each of them, in order, and is indexed. -/
theorem writeBugLikelyReports_eq_ok {reports : BugReports}
    (hwritten : writeBugLikelyReports rsvc results = .ok reports) :
    reports.Indexed ∧ reports.bugLikelyCount = (classified .bugLikely results).length ∧
      ∃ readings, List.Forall₂ (fun result reading ↦ readBugCase rsvc result = .ok reading)
          (sortedResults (classified .bugLikely results)) readings ∧
        reports.index.map BugCase.line = readings.map fun reading ↦ reading.1.line := by
  obtain ⟨readings, hreadings, rfl⟩ := writeBugLikelyReports_eq_ok_iff.mp hwritten
  have hstart : ({ bugLikelyCount := (classified .bugLikely results).length } :
      BugReports).Indexed := ⟨rfl, rfl⟩
  obtain ⟨hindexed, hcount, hlines⟩ := hstart.foldl_record rsvc readings
  exact ⟨hindexed, hcount, readings, mapM_eq_ok_iff.mp hreadings, hlines⟩

/-- With one case for each program, a file of the report is the case of the index. -/
theorem BugReports.Indexed.lookup_cases {reports : BugReports} (hindexed : reports.Indexed)
    (hdistinct : (reports.index.map BugCase.programId).Nodup) (programId : String)
    (case : BugCase) : reports.cases.lookup programId = some case ↔
      case ∈ reports.index ∧ case.programId = programId := by
  have hkeys : (((reports.index.map fun case ↦ (case.programId, case)).reverse).map
      Prod.fst).Nodup := by
    rw [List.map_reverse, List.nodup_reverse, List.map_map]
    exact hdistinct
  rw [hindexed.cases_eq, Library.OrderedDict.lookup_insertAll, List.lookup_nil, Option.or_none,
    ← Library.OrderedDict.mem_iff_lookup hkeys, List.mem_reverse, List.mem_map]
  constructor
  · rintro ⟨other, hother, hsame⟩
    obtain ⟨rfl, rfl⟩ := Prod.mk.inj hsame
    exact ⟨hother, rfl⟩
  · rintro ⟨hcase, rfl⟩
    exact ⟨case, hcase, rfl⟩

/-- The reports that are written for results of different programs account for them. -/
theorem accounts_of_writePostRunReports (hdistinct : (results.map CaseResult.programId).Nodup)
    (hwritten : writePostRunReports rsvc campaign jobs results = .ok (summary, failure)) :
    AccountsFor results summary failure := by
  obtain ⟨summary', hsummary, hwritten⟩ := bind_eq_ok_iff.mp hwritten
  obtain ⟨⟨⟩, -, hwritten⟩ := bind_eq_ok_iff.mp hwritten
  obtain ⟨failure', hfailure, hwritten⟩ := bind_eq_ok_iff.mp hwritten
  obtain ⟨rfl, rfl⟩ := Prod.mk.inj (pure_eq_ok_iff.mp hwritten)
  obtain ⟨reports, hreports, hsummary⟩ := bind_eq_ok_iff.mp hsummary
  obtain rfl := pure_eq_ok_iff.mp hsummary
  obtain ⟨hindexed, hcount, readings, hreadings, hlines⟩ := writeBugLikelyReports_eq_ok hreports
  obtain ⟨htotal, hfailed, -⟩ := writeFailureReports_eq_ok hfailure
  have hprograms : reports.index.map BugCase.programId =
      (sortedResults (classified .bugLikely results)).map CaseResult.programId := by
    have hread := congrArg (List.map Prod.fst) hlines
    rw [List.map_map, List.map_map] at hread
    refine hread.trans (map_keys_eq hreadings fun result reading hreading ↦ ?_)
    obtain ⟨details, -, hline⟩ := line_of_readBugCase hreading
    exact congrArg Prod.fst hline
  have hsorted : (reports.index.map BugCase.programId).Nodup := by
    rw [hprograms]
    exact ((List.perm_insertionSort _ _).map _).nodup_iff.mpr
      (nodup_programs_classified hdistinct .bugLikely)
  constructor
  case total => exact ⟨rfl, htotal⟩
  case counted =>
    intro classification
    rw [length_classified_eq_count]
    exact lookup_counter _ _
  case counts_sum =>
    refine (sum_counter _).trans ?_
    rw [List.length_map]
  case failed => rw [hfailed, length_noDiff_add_failures]
  case groups_sorted => exact groups_sorted hfailure
  case group_sorted =>
    intro group hgroup
    obtain ⟨-, hcases⟩ := exists_of_mem_groups hfailure hgroup
    refine pairwise_programs (nodup_programs_classified hdistinct group.1) (map_keys_eq hcases ?_)
    exact fun _ _ hsummary ↦ programId_of_buildFailureCaseSummary hsummary
  case listed_iff => exact listed_iff hfailure
  case bug_lines =>
    intro group hgroup hbug
    obtain ⟨-, hcases⟩ := exists_of_mem_groups hfailure hgroup
    rw [hbug] at hcases
    refine hlines.trans (map_eq_map hreadings hcases fun result reading case hread hcase ↦ ?_)
    obtain ⟨details, hdetails, hline⟩ := line_of_readBugCase hread
    obtain ⟨other, hother, hsame⟩ := line_of_buildFailureCaseSummary hcase
    rw [hline, hsame, Except.ok.inj (hdetails.symm.trans hother)]
  case bug_programs => exact hprograms
  case bug_count =>
    have hlength := congrArg List.length hprograms
    rw [List.length_map, List.length_map, sortedResults, List.length_insertionSort] at hlength
    exact hcount.trans hlength.symm
  case bug_files => exact hindexed.lookup_cases hsorted
  case label_counts =>
    intro name
    change (reports.firstDivergenceSyscallCounts.lookup name).getD 0 = _
    rw [hindexed.counts_eq, lookup_counter, List.count_filterMap]

end Accounting

/-- The reports of a campaign over different programs account for every entry. -/
theorem runCampaign_accounts {svc : Services} {execute : BatchExecutor} {orders : ScheduleOrders}
    {config : BatchConfig} {explicit : Option ℤ} {rsvc : ReportServices} {campaign : String}
    {jobs : ℤ} {entries : List Entry} {results : List CaseResult} {summary : SummaryReports}
    {failure : FailureReport} (hdistinct : (entries.map Entry.programId).Nodup)
    (hrun : runCampaign svc execute orders config explicit rsvc campaign jobs entries =
      .ok (results, summary, failure)) :
    results.map CaseResult.programId = entries.map Entry.programId ∧
      AccountsFor results summary failure := by
  obtain ⟨results', hresults, hrun⟩ := bind_eq_ok_iff.mp hrun
  obtain ⟨reports, hreports, hrun⟩ := bind_eq_ok_iff.mp hrun
  obtain ⟨rfl, rfl⟩ := Prod.mk.inj (pure_eq_ok_iff.mp hrun)
  obtain ⟨enabled, henabled, -⟩ := bind_eq_ok_iff.mp hresults
  obtain ⟨other, hother, hprograms⟩ :=
    @scheduleEntries_programIds svc execute orders config explicit enabled henabled jobs entries
  obtain rfl : other = results' := Except.ok.inj (hother.symm.trans hresults)
  exact ⟨hprograms, accounts_of_writePostRunReports (hprograms ▸ hdistinct) hreports⟩

theorem runCampaign_accounts_crashing :
    ∃ results summary failure, runCampaign crashingCampaign
        (fun _ ↦ .error ⟨"OSError", "no runner"⟩)
        ⟨.submission, fun _ ↦ .submission, .submission⟩ batchingConfig none bareReports "smoke" 1
        [{ programId := "p" }] = .ok (results, summary, failure) ∧
      results.map CaseResult.programId = ["p"] ∧ AccountsFor results summary failure ∧
      summary.bugLikely.bugLikelyCount = 1 := by
  have hdistinct : (([{ programId := "p" }] : List Entry).map Entry.programId).Nodup :=
    List.nodup_singleton "p"
  refine ⟨_, _, _, rfl, ?_⟩
  have haccounts := @runCampaign_accounts crashingCampaign
    (fun _ ↦ .error ⟨"OSError", "no runner"⟩) ⟨.submission, fun _ ↦ .submission, .submission⟩
    batchingConfig none bareReports "smoke" 1 _ _ _ _ hdistinct rfl
  exact ⟨haccounts.1, haccounts.2, rfl⟩

end SyzAbi.Orchestrator

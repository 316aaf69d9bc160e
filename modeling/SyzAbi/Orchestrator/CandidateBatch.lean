import SyzAbi.Library.Json
import SyzAbi.Orchestrator.Schedule

/-!
# Batches of candidate cases

`execute_candidate_batch_with_context` (`orchestrator/vm_runner.py`) and what it runs for each case.
In the packaged mode a case is executed by the runner on its own (`executePreparedCandidateCase`);
in the shared mode one runner call serves all cases and each case is read off its files
(`finalizeBatchCaseResult`). Both read the runner result, find the trace events in the event file or
in the framed lines of the outputs, and validate the raw trace.

A case is executed by code outside the repository, so the execution and the files it leaves are
services. Texts are lists of code points, and a JSON event is kept as it was read until its trace is
canonicalized.
-/

set_option autoImplicit false
set_option relaxedAutoImplicit false

namespace SyzAbi.Orchestrator

open Analyzer Library.Fallible Library.Slots Library.Json

/-! ### Texts -/

/-- The string of a list of code points. -/
def pyText (text : PyStr) : String :=
  String.ofList (text.map Char.ofNat)

/-- The line breaks of `str.splitlines`, without the pair of carriage return and line feed. -/
def isLineBreak (c : ℕ) : Bool :=
  c ∈ [0x0A, 0x0B, 0x0C, 0x0D, 0x1C, 0x1D, 0x1E, 0x85, 0x2028, 0x2029]

/-- `str.splitlines` from the middle of a line. -/
def splitLinesFrom (line : PyStr) : PyStr → List PyStr
  | [] => if line.isEmpty then [] else [line]
  | 0x0D :: 0x0A :: rest => line :: splitLinesFrom [] rest
  | c :: rest =>
    if isLineBreak c then line :: splitLinesFrom [] rest else splitLinesFrom (line ++ [c]) rest

/-- `str.splitlines`. -/
def splitLines (text : PyStr) : List PyStr := splitLinesFrom [] text

/-- The whitespace of `str.strip`. -/
def isStripped (c : ℕ) : Bool :=
  c ∈ [0x09, 0x0A, 0x0B, 0x0C, 0x0D, 0x1C, 0x1D, 0x1E, 0x1F, 0x20, 0x85, 0xA0, 0x1680, 0x2028,
    0x2029, 0x202F, 0x205F, 0x3000] || (0x2000 ≤ c && c ≤ 0x200A)

/-- `str.strip`. -/
def strip (text : PyStr) : PyStr :=
  ((text.dropWhile isStripped).reverse.dropWhile isStripped).reverse

/-- Nothing is stripped from a text without such characters. -/
theorem reverse_dropWhile_eq_self {p : ℕ → Bool} {text : PyStr} (htext : ∀ c ∈ text, p c = false) :
    ((text.dropWhile p).reverse.dropWhile p).reverse = text := by
  have hkeep : ∀ kept : PyStr, (∀ c ∈ kept, p c = false) → kept.dropWhile p = kept := by
    intro kept hkept
    cases kept with
    | nil => rfl
    | cons c kept =>
      refine List.dropWhile_cons_of_neg ?_
      rw [hkept c List.mem_cons_self]
      exact Bool.false_ne_true
  rw [hkeep text htext, hkeep _ fun c hc ↦ htext c (List.mem_reverse.mp hc), List.reverse_reverse]

/-- `json.loads`. -/
def jsonLoads (text : PyStr) : Except PyError Value :=
  match parse text with
  | some value => .ok value
  | none => .error ⟨"JSONDecodeError", "malformed JSON document"⟩

/-! ### Events -/

/-- `TRACE_EVENT_STDOUT_PREFIX`. -/
def traceEventStdoutPrefix : PyStr := PyStr.ofString "__SYZABI_TRACE_EVENT__ "

/-- The loop that removes the colour sequences at the head of a line. -/
def stripColours : ℕ → PyStr → PyStr
  | 0, line => line
  | fuel + 1, line =>
    if [0x1B, 0x5B].isPrefixOf line then
      match (line.drop 2).dropWhile (· ≠ 0x6D) with
      | [] => line
      | _ :: rest => stripColours fuel rest
    else line

/-- The payload of a framed line, when there is one. -/
def framedPayload (rawLine : PyStr) : Option PyStr :=
  let cleaned := stripColours rawLine.length rawLine
  if traceEventStdoutPrefix.isPrefixOf cleaned then
    let payload := strip (cleaned.drop traceEventStdoutPrefix.length)
    if payload.isEmpty then none else some payload
  else none

/-- `extract_framed_events`: a payload that does not load raises. -/
def extractFramedEvents (text : PyStr) : Except PyError (List Value) :=
  ((splitLines text).filterMap framedPayload).mapM jsonLoads

/-- `parse_events` on the text of an event file. -/
def parseEvents (text : PyStr) : Except PyError (List Value) :=
  (((splitLines text).map strip).filter fun line ↦ !line.isEmpty).mapM jsonLoads

/-- The events whose digest was not seen before. -/
def dropSeen (events : List Value) : List Value :=
  (events.foldl (fun (state : List PyStr × List Value) event ↦
    let digest := render event
    if digest ∈ state.1 then state else (digest :: state.1, state.2 ++ [event])) ([], [])).2

/-- `persisted_trace_events`: the event file, or else the framed lines of the outputs. -/
def persistedTraceEvents (transport : String) (eventsFile : Option PyStr)
    (stdoutText stderrText : PyStr) (console : Option PyStr) : Except PyError (List Value) :=
  let fileEvents :=
    match eventsFile.map parseEvents with
    | some (.ok events) => events
    | _ => []
  if !fileEvents.isEmpty then .ok fileEvents
  else if transport ≠ "stdout" then .ok []
  else dropSeen <$> List.flatten <$>
    ([stdoutText, stderrText] ++ console.toList).mapM extractFramedEvents

/-! ### Traces -/

/-- A raw trace file, whose events have not been looked at. -/
structure TraceFile where
  programId : String
  side : String
  runId : String
  status : String
  events : List Value
  processExit : ProcessExit

/-- `value[key]`. -/
def getItem (key : String) (value : Value) : Except PyError Value :=
  match value.get? (PyStr.ofString key) with
  | some item => .ok item
  | none => .error ⟨"KeyError", "'" ++ key ++ "'"⟩

/-- `int(value)`. -/
def toInt : Value → Except PyError ℤ
  | .int value => .ok value
  | .bool value => .ok (if value then 1 else 0)
  | _ => .error ⟨"TypeError", "int() argument must be a string, a bytes-like object or a number"⟩

/-- `str(value)`. -/
def toText : Value → String
  | .str text => pyText text
  | .null => "None"
  | .bool true => "True"
  | .bool false => "False"
  | value => pyText (render value)

/-- A text or `None`. -/
def toOptionalText : Option Value → Option String
  | none => none
  | some .null => none
  | some value => some (toText value)

/-- The items of a list. -/
def toList : Value → Except PyError (List Value)
  | .arr items => .ok items
  | _ => .error ⟨"TypeError", "object is not iterable"⟩

/-- The loop of `validate_raw_trace` on events as they were read. -/
def validateStoredEvents (previous : ℤ) : List Value → Except PyError Unit
  | [] => .ok ()
  | event :: rest => do
    let eventIndex ← toInt (← getItem "event_index" event)
    if eventIndex ≤ previous then
      .error ⟨"ValueError", "raw trace event indexes are not strictly increasing"⟩
    else validateStoredEvents eventIndex rest

/-- The output record of a JSON output. -/
def decodeOutput (output : Value) : Except PyError RawOutput := do
  let resourceKind := (output.get? (PyStr.ofString "resource_kind")).map toText
  let resourceValues ←
    match resourceKind with
    | some "fd" => do (← toList (← getItem "resource_values" output)).mapM toInt
    | _ => pure []
  return {
    label := toText (← getItem "label" output)
    argIndex := ← toInt (← getItem "arg_index" output)
    length := (← toInt (← getItem "length" output)).toNat
    previewHex := toText (← getItem "preview_hex" output)
    sha256 := toText (← getItem "sha256" output)
    resourceKind := resourceKind
    resourceValues := resourceValues }

/-- The event record of a JSON event. -/
def decodeEvent (event : Value) : Except PyError RawEvent := do
  return {
    eventIndex := ← toInt (← getItem "event_index" event)
    syscallName := toText (← getItem "syscall_name" event)
    syscallNumber := ← toInt (← getItem "syscall_number" event)
    args := ← (← toList (← getItem "args" event)).mapM toInt
    returnValue := ← toInt (← getItem "return_value" event)
    errno := ← toInt (← getItem "errno" event)
    startNs := ← toInt (← getItem "start_ns" event)
    endNs := ← toInt (← getItem "end_ns" event)
    outputs := ← (← toList (← getItem "outputs" event)).mapM decodeOutput }

/-- What a trace file is for the code that reads its events later. -/
def TraceFile.stored (file : TraceFile) : Stored RawTrace :=
  match file.events.mapM decodeEvent with
  | .error error => .unreadable error
  | .ok events =>
    .stored {
      programId := file.programId
      side := file.side
      runId := file.runId
      status := file.status
      events := events
      processExit := file.processExit }

/-! ### Executions -/

/-- `RunnerExecution`, with decoded outputs. -/
structure RunnerExecution where
  returncode : Option ℤ
  stdout : PyStr
  stderr : PyStr
  timedOut : Bool := false
  osError : Option String := none
  status : Option String := none

/-- The files of a case after its execution. -/
structure CaseFiles where
  events : Option PyStr := none
  runnerResult : Option PyStr := none
  rawTrace : Stored TraceFile := .absent
  externalState : Stored ExternalState := .absent
  stdout : Option PyStr := none
  stderr : Option PyStr := none
  console : Option PyStr := none

/-- `load_runner_result`. -/
def loadRunnerResult (file : Option PyStr) : Except PyError (Option Value) :=
  match file with
  | none => .ok none
  | some text => some <$> jsonLoads text

/-- `classify_process_returncode`. -/
def classifyProcessReturncode (returncode : ℤ) : String :=
  if returncode < 0 then "crash" else "ok"

/-- The four values of `finalize_process_result`. -/
structure ProcessResult where
  status : String
  exitCode : Option ℤ
  statusDetail : Option String
  kernelBuild : String

/-- Whether a JSON value is true in a condition. -/
def truthy : Value → Bool
  | .null => false
  | .bool value => value
  | .int value => value ≠ 0
  | .float _ => true
  | .str text => !text.isEmpty
  | .arr items => !items.isEmpty
  | .obj members => !members.isEmpty

/-- `finalize_process_result`. -/
def finalizeProcessResult (profileKind : String) (completedReturncode : Option ℤ)
    (executionStatus : Option String) (runnerResult : Option Value)
    (fallbackKernelBuild : String) : Except PyError ProcessResult :=
  let status := executionStatus.getD (
    if profileKind = "command" then
      if completedReturncode = some 0 then "ok" else "infra_error"
    else classifyProcessReturncode (completedReturncode.getD 0))
  let base : ProcessResult := ⟨status, completedReturncode, none, fallbackKernelBuild⟩
  match runnerResult with
  | none => .ok base
  | some result =>
    if !truthy result then .ok base
    else
      match result with
      | .obj _ =>
        let get := fun key : String ↦ result.get? (PyStr.ofString key)
        .ok {
          status := ((get "status").map toText).getD status
          exitCode :=
            match get "exit_code" with
            | some value => (toInt value).toOption
            | none => completedReturncode
          statusDetail := toOptionalText ((get "status_detail").filter truthy |>.or (get "detail"))
          kernelBuild := ((get "kernel_build").map toText).getD fallbackKernelBuild }
      | _ => .error ⟨"AttributeError", "object has no attribute 'get'"⟩

/-- What the executor of batches takes from its surroundings. -/
structure BatchServices where
  config : BatchConfig
  jobs : ℤ
  runnerKind : String
  eventsTransport : String
  kernelBuild : String
  snapshotId : String
  artifactsDir : String
  prepareCandidateBatchCase : BatchCase → Except PyError Unit
  preparePackage : List BatchCase → Except PyError String
  prewarm : List BatchCase → String → Except PyError Unit
  runPackaged : BatchCase → Except PyError (RunnerExecution × CaseFiles)
  prepareManifest : List BatchCase → Except PyError Unit
  runShared : List BatchCase → Except PyError RunnerExecution
  sharedFiles : BatchCase → CaseFiles

/-- The trace file of a case: the one it left, validated, or one built from its events. -/
def buildAndPersistRawTrace (svc : BatchServices) (case : BatchCase) (status : String)
    (exitCode : Option ℤ) (files : CaseFiles) (stdoutText stderrText : PyStr)
    (console : Option PyStr) : Except PyError TraceFile := do
  if files.rawTrace.exists then
    let file ← files.rawTrace.load
    validateStoredEvents (-1) file.events
    return file
  else
    let events ← persistedTraceEvents svc.eventsTransport files.events stdoutText stderrText console
    validateStoredEvents (-1) events
    return {
      programId := case.programId
      side := "candidate"
      runId := case.runId
      status := status
      events := events
      processExit := {
        status := status
        exitCode := exitCode
        timedOut := status = ExecutionStatus.timeout.value } }

/-- The run result of a case and its two files. -/
def caseArtifacts (svc : BatchServices) (case : BatchCase) (process : ProcessResult)
    (file : TraceFile) (files : CaseFiles) : RunArtifacts where
  result := {
    programId := case.programId
    side := .candidate
    status := process.status
    exitCode := process.exitCode
    traceJsonPath := some (svc.artifactsDir ++ "/" ++ case.programId ++ "/" ++ case.runId ++
      "/candidate/raw-trace.json")
    externalStatePath := some (svc.artifactsDir ++ "/" ++ case.programId ++ "/" ++ case.runId ++
      "/candidate/external-state.json")
    kernelBuild := process.kernelBuild
    runId := case.runId
    statusDetail := process.statusDetail }
  rawTrace := file.stored
  externalState :=
    if files.externalState.exists then files.externalState else .stored { files := [] }

/-- `_run_case_core`, from the execution on: the process result and the two outputs. -/
def runCaseCore (svc : BatchServices) (execution : RunnerExecution) (files : CaseFiles) :
    Except PyError (ProcessResult × PyStr × PyStr) := do
  let runnerResult ← loadRunnerResult files.runnerResult
  let process ← finalizeProcessResult svc.runnerKind execution.returncode execution.status
    runnerResult svc.kernelBuild
  if execution.timedOut then
    return (⟨ExecutionStatus.timeout.value, process.exitCode, none, svc.kernelBuild⟩,
      execution.stdout, execution.stderr)
  else
    match execution.osError with
    | some error =>
      return (⟨ExecutionStatus.infraError.value, process.exitCode, some error, svc.kernelBuild⟩,
        [], PyStr.ofString error)
    | none => return (process, execution.stdout, execution.stderr)

/-- `execute_prepared_candidate_case`. -/
def executePreparedCandidateCase (svc : BatchServices) (case : BatchCase) :
    Except PyError RunArtifacts := do
  let (execution, files) ← svc.runPackaged case
  let (process, stdoutText, stderrText) ← runCaseCore svc execution files
  let file ← buildAndPersistRawTrace svc case process.status process.exitCode files stdoutText
    stderrText files.console
  return caseArtifacts svc case process file files

/-- `finalize_batch_case_result`. -/
def finalizeBatchCaseResult (svc : BatchServices) (case : BatchCase) (files : CaseFiles) :
    Except PyError RunArtifacts := do
  let runnerResult ← loadRunnerResult files.runnerResult
  let process ←
    match runnerResult with
    | none =>
      pure ⟨ExecutionStatus.infraError.value, none,
        some "missing candidate batch runner result", svc.kernelBuild⟩
    | some result =>
      finalizeProcessResult svc.runnerKind (some 0) none (some result) svc.kernelBuild
  let file ← buildAndPersistRawTrace svc case process.status process.exitCode files
    (files.stdout.getD []) (files.stderr.getD []) files.console
  return caseArtifacts svc case process file files

/-- The files that a shared execution that failed writes for every case. -/
def failedSharedFiles (svc : BatchServices) (execution : RunnerExecution) (files : CaseFiles) :
    CaseFiles :=
  let status := if execution.timedOut then "timeout" else "infra_error"
  let detail := execution.osError.getD "shared batch execution timed out"
  { files with
    runnerResult := some (render (.obj [
      (PyStr.ofString "detail", .str (PyStr.ofString detail)),
      (PyStr.ofString "exit_code", .null),
      (PyStr.ofString "kernel_build", .str (PyStr.ofString svc.snapshotId)),
      (PyStr.ofString "status", .str (PyStr.ofString status))]))
    stdout := some execution.stdout
    stderr := some execution.stderr }

/-- The results of a loop or a pool over the cases, by program: the first case that raises, in the
order of completion, raises for all. -/
def collectResults (run : BatchCase → Except PyError RunArtifacts) (cases : List BatchCase) :
    Except PyError (List (String × RunArtifacts)) :=
  cases.mapM fun case ↦ do return (case.programId, ← run case)

/-- `command_batching_mode` of the profile, or its default. -/
def commandBatchingMode (config : BatchConfig) : Option String :=
  if config.commandBatchingMode = none ∨ config.commandBatchingMode = some "" then
    some "packaged_per_case"
  else canonicalExecutionMode config.commandBatchingMode

/-- The shared mode: one execution, then the results case by case. -/
def executeShared (svc : BatchServices) (cases : List BatchCase) : Except PyError BatchOutput := do
  svc.prepareManifest cases
  let execution ← svc.runShared cases
  let failed := execution.timedOut || execution.osError.isSome
  let results ← collectResults (fun case ↦ finalizeBatchCaseResult svc case (
    if failed then failedSharedFiles svc execution (svc.sharedFiles case)
    else svc.sharedFiles case)) cases
  return {
    results := results
    packageDir := none
    slotByProgram := cases.map fun case ↦ (case.programId, none) }

/-- The packaged mode: one execution for each case, in order or in a pool. -/
def executePackaged (svc : BatchServices) (order : CompletionOrder) (maxWorkers : Option ℤ)
    (cases : List BatchCase) : Except PyError BatchOutput := do
  let packageDir ← svc.preparePackage cases
  svc.prewarm cases packageDir
  let workers := max 1 (min (cases.length : ℤ) (maxWorkers.getD svc.jobs))
  let completion :=
    if workers = 1 then cases
    else completedItems order cases
  let results ← collectResults (executePreparedCandidateCase svc) completion
  return {
    results := results
    packageDir := some packageDir
    slotByProgram := cases.zipIdx.map fun entry ↦ (entry.1.programId, some entry.2) }

/-- `execute_candidate_batch_with_context`. -/
def executeCandidateBatchWithContext (svc : BatchServices) (order : CompletionOrder)
    (maxWorkers : Option ℤ) (cases : List BatchCase) : Except PyError BatchOutput := do
  if cases.isEmpty then return ⟨[], none, []⟩
  if svc.config.candidateKind ≠ some "command" then
    throw ⟨"ValueError", "candidate batch execution requires a command runner profile"⟩
  let mode := (commandBatchingMode svc.config).getD ""
  if mode ∉ svc.config.executionModes then
    throw ⟨"ValueError", "candidate runner batching mode '" ++ mode ++
      "' is not supported by target '" ++ svc.config.target ++ "'"⟩
  let _ ← cases.mapM svc.prepareCandidateBatchCase
  if mode = "shared_runtime_batch" then executeShared svc cases
  else executePackaged svc order maxWorkers cases

end SyzAbi.Orchestrator

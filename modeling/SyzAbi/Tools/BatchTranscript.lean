import SyzAbi.Agent.EventDecoding
import SyzAbi.Library.JsonEscapes
import SyzAbi.Library.Search

/-!
# Transcripts of batches

One guest runs all cases of a batch. The script that `compose_batch_autorun`
(`tools/run_asterinas_shared.py`) writes for it prints the results of every case on the console,
between marker lines: a header, the process exit, the two outputs, the event file and the files of
the work directory. The host finds the cases in the console text again
(`extract_batch_case_blocks`), and the sections in the text of a case (`extract_section`).

The commands of the script are modelled as far as they print. What the script cannot print on its
own is given with the case: what the testcase left behind, and the noise of the console before it.
-/

set_option autoImplicit false
set_option relaxedAutoImplicit false

namespace SyzAbi.Tools

open Analyzer Orchestrator Agent Library.Json Library.Search

/-! ### Markers -/

/-- `MARKER_PREFIX`. -/
def markerPrefix : PyStr := PyStr.ofString "__SYZABI"

def beginMarker (name : String) : PyStr :=
  markerPrefix ++ (PyStr.ofString "_BEGIN_" ++ PyStr.ofString name ++ PyStr.ofString "__")

def endMarker (name : String) : PyStr :=
  markerPrefix ++ (PyStr.ofString "_END_" ++ PyStr.ofString name ++ PyStr.ofString "__")

/-- The text holds no marker. -/
def MarkFree (text : PyStr) : Prop := ¬markerPrefix <:+: text

instance (text : PyStr) : Decidable (MarkFree text) :=
  inferInstanceAs (Decidable (¬markerPrefix <:+: text))

theorem markFree_nil : MarkFree [] := by decide

/-! ### What a case leaves behind -/

/-- A regular file of the work directory: its path, what `stat` says, and what `sha256sum` says or
nothing. -/
structure StateFile where
  path : PyStr
  size : ℕ
  sha256 : PyStr
  path_chars : ∀ c ∈ path, c ≠ 34 ∧ c ≠ 92 ∧ c ≠ 10
  path_markFree : MarkFree path
  sha256_hex : ∀ c ∈ sha256, 48 ≤ c ∧ c ≤ 57 ∨ 97 ≤ c ∧ c ≤ 102

/-- `event.get(key, 0)` as an integer. -/
def eventInt (key : String) : Value → Except PyError ℤ
  | .obj members => toInt ((members.lookup (PyStr.ofString key)).getD (.int 0))
  | _ => .error ⟨"AttributeError", "object has no attribute 'get'"⟩

/-- A line of the event file: the JSON text of an event, whose return value and errno are
integers. -/
structure TraceLine where
  text : PyStr
  value : Value
  oneLine : ∀ c ∈ text, isLineBreak c = false
  markFree : MarkFree text
  reads : jsonLoads (strip text) = .ok value
  returnValue : ∃ code, eventInt "return_value" value = .ok code
  errno : ∃ code, eventInt "errno" value = .ok code

/-- A case of the batch: what the testcase leaves behind, and the noise that the console shows
before the case. -/
structure BatchRun where
  case : BatchCase
  exitCode : ℕ
  stdout : PyStr
  stderr : PyStr
  events : List TraceLine
  files : List StateFile
  noise : PyStr
  stdout_markFree : MarkFree stdout
  stderr_markFree : MarkFree stderr
  noise_markFree : MarkFree noise

/-! ### The script -/

/-- `echo`. -/
def echo (text : PyStr) : PyStr := text ++ [10]

/-- `emit_file_section` with the content of the file. -/
def emitFileSection (name : String) (content : PyStr) : PyStr :=
  echo (beginMarker name) ++ content ++ echo [] ++ echo (endMarker name)

/-- The `printf` for one file of `emit_external_state`. -/
def fileText (file : StateFile) : PyStr :=
  objectText [member "path" (quoted file.path), member "size" (decimal file.size),
    member "sha256" (quoted file.sha256)]

/-- The text of the external state. -/
def stateText (files : List StateFile) : PyStr :=
  objectText [member "files" (arrayText (files.map fileText))]

/-- `emit_external_state` for the files in the order of `sort`. -/
def emitExternalState (files : List StateFile) : PyStr :=
  echo (beginMarker "EXTERNAL_STATE") ++ stateText files ++ echo [] ++
    echo (endMarker "EXTERNAL_STATE")

/-- `PROC_STATUS`. -/
def procStatus (exitCode : ℕ) : String := if 128 ≤ exitCode then "crash" else "ok"

/-- The text of the process exit. -/
def exitText (exitCode : ℕ) : PyStr :=
  objectText [member "status" (quoted (PyStr.ofString (procStatus exitCode))),
    member "exit_code" (decimal exitCode), member "timed_out" (PyStr.ofString "false")]

/-- The content of the event file. -/
def eventsText (events : List TraceLine) : PyStr :=
  events.flatMap fun line ↦ line.text ++ [10]

/-- `header`. -/
def headerText (index : ℕ) (programId : String) : PyStr :=
  PyStr.ofString "\x7b\"case_index\": " ++ decimal index ++ PyStr.ofString ", \"program_id\": " ++
    quoteAscii (PyStr.ofString programId) ++ PyStr.ofString "\x7d"

/-- What the commands of `compose_batch_autorun` for one case print, up to the end marker. -/
def BatchRun.commands (index : ℕ) (run : BatchRun) : PyStr :=
  echo (beginMarker "BATCH_CASE") ++
  echo (headerText index run.case.programId) ++
  echo (beginMarker "PROCESS_EXIT") ++
  echo (exitText run.exitCode) ++
  echo (endMarker "PROCESS_EXIT") ++
  emitFileSection "STDOUT" run.stdout ++
  emitFileSection "STDERR" run.stderr ++
  emitFileSection "EVENTS" (eventsText run.events) ++
  emitExternalState run.files ++
  endMarker "BATCH_CASE"

/-- The console from the noise before a case to the end marker of the case. -/
def BatchRun.console (index : ℕ) (run : BatchRun) : PyStr := run.noise ++ run.commands index

/-- What the script prints for the cases from an index on, with noise behind the last one. -/
def printRuns (trailing : PyStr) : ℕ → List BatchRun → PyStr
  | _, [] => trailing
  | index, run :: rest => echo (run.console index) ++ printRuns trailing (index + 1) rest

/-- The text up to the end marker of a case. -/
def throughCase : ℕ → List BatchRun → ℕ → PyStr
  | _, [], _ => []
  | index, run :: _, 0 => run.console index
  | index, run :: rest, i + 1 => echo (run.console index) ++ throughCase (index + 1) rest i

/-- A batch with distinct program ids on a console. -/
structure BatchConsole where
  runs : List BatchRun
  trailing : PyStr
  trailing_markFree : MarkFree trailing
  distinct : (runs.map fun run ↦ run.case.programId).Nodup

/-- The transcript of a batch. -/
def BatchConsole.transcript (console : BatchConsole) : PyStr :=
  printRuns console.trailing 0 console.runs

/-- The text holds the block of a case, up to its end marker. -/
def BatchConsole.Complete (console : BatchConsole) (text : PyStr) (i : ℕ) : Prop :=
  throughCase 0 console.runs i <+: text

/-! ### The parser -/

/-- `text[start:finish]`. -/
def consoleSlice (text : PyStr) (start finish : ℕ) : PyStr := (text.take finish).drop start

/-- `str.strip` of line feeds. -/
def stripLineFeeds (text : PyStr) : PyStr :=
  ((text.dropWhile (· = 10)).reverse.dropWhile (· = 10)).reverse

/-- `extract_section`. -/
def extractSection (consoleText : PyStr) (name : String) : Option PyStr :=
  let opening := echo (beginMarker name)
  let closing := 10 :: endMarker name
  match find opening consoleText with
  | none => none
  | some found =>
    let start := found + opening.length
    match findFrom closing consoleText start with
    | none => none
    | some finish => some (stripLineFeeds (consoleSlice consoleText start finish))

/-- A dictionary with these members. -/
def dict (members : List (String × Value)) : Value :=
  .obj (setMembers [] (members.map fun entry ↦ (PyStr.ofString entry.1, entry.2)))

/-- `parse_events` of a section. -/
def parseEventsSection : Option PyStr → Except PyError (List Value)
  | none => .ok []
  | some text => if text.isEmpty then .ok [] else parseEvents text

/-- `parse_process_exit`. -/
def parseProcessExit : Option PyStr → Except PyError Value
  | some (c :: text) => jsonLoads (c :: text)
  | _ => .ok (dict [("status", .str (PyStr.ofString "infra_error")), ("exit_code", .null),
      ("timed_out", .bool false)])

/-- `parse_external_state`. -/
def parseExternalState : Option PyStr → Except PyError Value
  | some (c :: text) => jsonLoads (c :: text)
  | _ => .ok (dict [("files", .arr [])])

/-- A block of `extract_batch_case_blocks`. -/
structure BatchBlock where
  header : Value
  body : PyStr
  consoleLog : PyStr

/-- The loop of `extract_batch_case_blocks` from `search_from` on. Every turn moves it on, so a text
never needs more turns than its length. -/
def extractBlocksFrom (consoleText : PyStr) : ℕ → ℕ → Except PyError (List BatchBlock)
  | 0, _ => .ok []
  | fuel + 1, searchFrom =>
    let opening := echo (beginMarker "BATCH_CASE")
    let closing := 10 :: endMarker "BATCH_CASE"
    match findFrom opening consoleText searchFrom with
    | none => .ok []
    | some start =>
      let headerStart := start + opening.length
      match findFrom [10] consoleText headerStart with
      | none => .ok []
      | some headerEnd =>
        match findFrom closing consoleText (headerEnd + 1) with
        | none => .ok []
        | some finish => do
          let header ← jsonLoads (strip (consoleSlice consoleText headerStart headerEnd))
          let next := finish + closing.length
          let blocks ← extractBlocksFrom consoleText fuel next
          return {
            header := header
            body := consoleSlice consoleText (headerEnd + 1) finish
            consoleLog := consoleSlice consoleText start next } :: blocks

/-- `extract_batch_case_blocks`. -/
def extractBatchCaseBlocks (consoleText : PyStr) : Except PyError (List BatchBlock) :=
  extractBlocksFrom consoleText (consoleText.length + 1) 0

/-- `value.get(key, default)` on a dictionary. -/
def getDefault (key : String) (default : Value) : Value → Except PyError Value
  | .obj members => .ok ((members.lookup (PyStr.ofString key)).getD default)
  | _ => .error ⟨"AttributeError", "object has no attribute 'get'"⟩

/-- Whether some event returned -1 with `ENOSYS` or `EOPNOTSUPP`; the errno is read only then. -/
def anyUnsupported : List Value → Except PyError Bool
  | [] => .ok false
  | event :: rest => do
    if (← eventInt "return_value" event) = -1 then
      if (← eventInt "errno" event) ∈ ([38, 95] : List ℤ) then return true
    anyUnsupported rest

/-- `candidate_status_from_events`. -/
def candidateStatusFromEvents (events : List Value) (processExit : Value) :
    Except PyError String := do
  let processStatus := toText (← getDefault "status" (.str (PyStr.ofString "ok")) processExit)
  if processStatus ≠ "ok" then return processStatus
  if ← anyUnsupported events then return "unsupported" else return "ok"

/-- A result of `parse_batch_case_results`. -/
structure BatchCaseResult where
  programId : String
  runId : String
  status : String
  exitCode : Value
  statusDetail : Option String
  kernelBuild : String
  stdout : PyStr
  stderr : PyStr
  consoleLog : PyStr
  events : List Value
  externalState : Value
  processExit : Value

/-- The keyword arguments of `parse_batch_case_results`. -/
structure ParseSettings where
  kernelBuild : String
  missingStatus : String
  missingDetail : String

/-- The result of a case without a block. -/
def missingResult (settings : ParseSettings) (consoleText : PyStr) (case : BatchCase) :
    BatchCaseResult where
  programId := case.programId
  runId := case.runId
  status := settings.missingStatus
  exitCode := .null
  statusDetail := some settings.missingDetail
  kernelBuild := settings.kernelBuild
  stdout := []
  stderr := []
  consoleLog := consoleText
  events := []
  externalState := dict [("files", .arr [])]
  processExit := dict [("status", .str (PyStr.ofString settings.missingStatus)),
    ("exit_code", .null), ("timed_out", .bool (settings.missingStatus = "timeout"))]

/-- The result of a case with a block. -/
def blockResult (settings : ParseSettings) (case : BatchCase) (block : BatchBlock) :
    Except PyError BatchCaseResult := do
  let processExit ← parseProcessExit (extractSection block.body "PROCESS_EXIT")
  let events ← parseEventsSection (extractSection block.body "EVENTS")
  let status ← candidateStatusFromEvents events processExit
  return {
    programId := case.programId
    runId := case.runId
    status := status
    exitCode := ← getDefault "exit_code" .null processExit
    statusDetail := none
    kernelBuild := settings.kernelBuild
    stdout := (extractSection block.body "STDOUT").getD []
    stderr := (extractSection block.body "STDERR").getD []
    consoleLog := block.consoleLog
    events := events
    externalState := ← parseExternalState (extractSection block.body "EXTERNAL_STATE")
    processExit := processExit }

/-- The result of a case. The last of several blocks with one program id counts. -/
def caseResult (settings : ParseSettings) (consoleText : PyStr)
    (parsedBlocks : List (String × BatchBlock)) (case : BatchCase) :
    Except PyError BatchCaseResult :=
  match parsedBlocks.reverse.lookup case.programId with
  | none => .ok (missingResult settings consoleText case)
  | some block => blockResult settings case block

/-- `parse_batch_case_results`. -/
def parseBatchCaseResults (settings : ParseSettings) (consoleText : PyStr)
    (cases : List BatchCase) : Except PyError (List BatchCaseResult) := do
  let blocks ← extractBatchCaseBlocks consoleText
  let parsedBlocks ← blocks.mapM fun block ↦ do
    return (toText (← getItem "program_id" block.header), block)
  cases.mapM (caseResult settings consoleText parsedBlocks)

/-! ### The round trip -/

/-- What `parse_process_exit` has to find. -/
def BatchRun.processExit (run : BatchRun) : Value :=
  dict [("status", .str (PyStr.ofString (procStatus run.exitCode))),
    ("exit_code", .int run.exitCode), ("timed_out", .bool false)]

/-- What `parse_external_state` has to find. -/
def BatchRun.externalState (run : BatchRun) : Value :=
  dict [("files", .arr (run.files.map fun file ↦
    dict [("path", .str file.path), ("size", .int file.size), ("sha256", .str file.sha256)]))]

/-- The result holds what the case left behind. -/
structure Restored (run : BatchRun) (result : BatchCaseResult) : Prop where
  processExit : result.processExit = run.processExit
  events : result.events = run.events.map TraceLine.value
  externalState : result.externalState = run.externalState
  stdout : result.stdout = stripLineFeeds run.stdout
  stderr : result.stderr = stripLineFeeds run.stderr

/-- The host finds one result for each case, in order: what the case left behind when its block is
complete, and the status of a missing case otherwise. -/
def RoundTrip (settings : ParseSettings) (console : BatchConsole) (text : PyStr) : Prop :=
  ∃ results, parseBatchCaseResults settings text (console.runs.map BatchRun.case) = .ok results ∧
    results.length = console.runs.length ∧
    ∀ i run result, console.runs[i]? = some run → results[i]? = some result →
      result.programId = run.case.programId ∧ result.runId = run.case.runId ∧
      (console.Complete text i → Restored run result) ∧
      (¬console.Complete text i → result.status = settings.missingStatus)

end SyzAbi.Tools

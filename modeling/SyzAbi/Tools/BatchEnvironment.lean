import SyzAbi.Orchestrator.Schedule
import SyzAbi.Targets.GuestEnvironment

/-!
# The environments of a batch

The script of `compose_batch_autorun` (`tools/run_asterinas_shared.py`) runs all cases of a batch in
one shell. Before each testcase it names the binary, unsets the variables of an injection, exports
what every testcase gets, and exports the request of the case when there is one.

No case sees what another one was started with: whatever the variables are when the turn of a case
comes, its tracer injects what the case asks for (`startCase_environment`). The script exits at the
first case whose directory it cannot change to, and it starts every case before that as it would be
started alone (`batch_traces_requests`).
-/

set_option autoImplicit false
set_option relaxedAutoImplicit false

namespace SyzAbi.Tools

open Analyzer Agent Orchestrator Library Library.Shell Library.TextLines Targets.Selector
open Library.Json (decimal)

/-! ### The script -/

def programIdName : List ℕ := PyStr.ofString "PROGRAM_ID"

def binaryPathName : List ℕ := PyStr.ofString "BINARY_PATH"

def workDirName : List ℕ := PyStr.ofString "WORK_DIR"

def runtimeDirName : List ℕ := PyStr.ofString "RUNTIME_DIR"

def eventsPathName : List ℕ := PyStr.ofString "SYZABI_TRACE_EVENTS_PATH"

/-- The lines that name the case and its binary. -/
def nameLines (index : ℕ) (case : BatchCase) : List PyStr :=
  [assignmentText programIdName (PyStr.ofString case.programId),
   assignmentText binaryPathName (batchBinary (decimal index))]

/-- What is exported for a case. -/
def caseExports (preview : ℕ) (case : BatchCase) : List (List ℕ × PyStr) :=
  (PyStr.ofString "SYZABI_SIDE", PyStr.ofString "candidate") ::
    (previewBytesName, decimal preview) ::
      (case.injectTrace.map injectionVariables).getD []

/-- The lines that set up the environment of a case. -/
def environmentLines (preview : ℕ) (case : BatchCase) : List PyStr :=
  spaced (unsetWord :: injectionNames) ::
    (caseExports preview case).map fun entry ↦ exportText entry.1 entry.2

/-- The script of `compose_batch_autorun` up to the change to the directory of a case: the program
that is started behind it, and the variables then. -/
def startCase (preview index : ℕ) (case : BatchCase) (vars : Variables) :
    Option (List ℕ × Variables) := do
  let vars ← runScript (Utf8.encode (unlines (nameLines index case))) vars
  let vars := vars.assign workDirName
    (vars.valueOf runtimeDirName ++ PyStr.ofString "/work-" ++ decimal index)
  let vars ← runScript (Utf8.encode (unlines (environmentLines preview case))) vars
  let vars := vars.exportValue eventsPathName
    (vars.valueOf runtimeDirName ++ PyStr.ofString "/raw-trace.events.jsonl")
  some (vars.valueOf binaryPathName, vars)

/-- The programs that the script starts, from a case on. `entered` is what comes of `cd "$WORK_DIR"`
of each case: the script exits where it fails. What the commands behind a testcase do to the
variables (`EXIT_CODE`, `PROC_STATUS` and those of the functions) is given. -/
def batchLaunches (preview : ℕ) (entered : ℕ → Option Entered)
    (behind : ℕ → Variables → Variables) :
    ℕ → List BatchCase → Variables → Option (List Launch)
  | _, [], _ => some []
  | index, case :: rest, vars => do
    let (binary, vars) ← startCase preview index case vars
    match entered index with
    | none => some []
    | some entry =>
      let vars := vars.enter entry
      let launches ← batchLaunches preview entered behind (index + 1) rest (behind index vars)
      some (⟨binary, vars.environment⟩ :: launches)

/-- The cases that are started, from a case on: those before the first whose directory the shell
does not come to. -/
def startedCases (entered : ℕ → Option Entered) : ℕ → List BatchCase → List BatchCase
  | _, [] => []
  | index, case :: rest =>
    if (entered index).isSome then case :: startedCases entered (index + 1) rest else []

/-- The texts of the case hold no NUL. -/
def NulFree (case : BatchCase) : Prop :=
  0 ∉ PyStr.ofString case.programId ∧ ∀ request ∈ case.injectTrace,
    0 ∉ PyStr.ofString request.syscallName ∧ 0 ∉ PyStr.ofString request.field

/-! ### One case -/

theorem passable_caseExports (preview : ℕ) {case : BatchCase} (hcase : NulFree case) :
    ∀ entry ∈ caseExports preview case, Passable entry := by
  rw [caseExports, List.forall_mem_cons, List.forall_mem_cons]
  have hnames : ∀ name ∈ previewBytesName :: injectionNames, isName name = true := by decide
  rw [List.forall_mem_cons] at hnames
  refine ⟨⟨by decide, by decide⟩, ⟨hnames.1, not_mem_decimalInt preview⟩, ?_⟩
  cases hrequest : case.injectTrace with
  | none => exact fun _ h ↦ (List.not_mem_nil h).elim
  | some request =>
    obtain ⟨hsyscall, hfield⟩ := hcase.2 request hrequest
    simp only [injectionNames, List.forall_mem_cons, List.not_mem_nil, false_implies,
      implies_true, and_true] at hnames
    simp only [Option.map_some, Option.getD_some, injectionVariables, List.forall_mem_cons,
      List.not_mem_nil, false_implies, implies_true, and_true]
    obtain ⟨-, henabled, hindex, hname, hfieldName, hvalue⟩ := hnames
    exact ⟨⟨henabled, by decide⟩, ⟨hindex, not_mem_decimalInt _⟩, ⟨hname, hsyscall⟩,
      ⟨hfieldName, hfield⟩, hvalue, not_mem_decimalInt _⟩

theorem encodable_caseExports (preview : ℕ) (case : BatchCase) :
    ValidEntries (caseExports preview case) := by
  rw [ValidEntries, caseExports, List.forall_mem_cons, List.forall_mem_cons]
  refine ⟨isValidChar_of_mem_ofString, valid_decimalInt preview, ?_⟩
  cases case.injectTrace with
  | none => exact fun _ h ↦ (List.not_mem_nil h).elim
  | some request =>
    simp only [Option.map_some, Option.getD_some, injectionVariables, List.forall_mem_cons,
      List.not_mem_nil, false_implies, implies_true, and_true]
    exact ⟨isValidChar_of_mem_ofString, valid_decimalInt _, isValidChar_of_mem_ofString,
      isValidChar_of_mem_ofString, valid_decimalInt _⟩

/-- The exported names. -/
theorem map_fst_caseExports (preview : ℕ) (case : BatchCase) :
    (caseExports preview case).map Prod.fst =
      PyStr.ofString "SYZABI_SIDE" :: previewBytesName ::
        if case.injectTrace.isSome then injectionNames else [] := by
  rw [caseExports, List.map_cons, List.map_cons]
  cases case.injectTrace <;> rfl

/-- The exported texts in bytes. -/
def exportBytes (preview : ℕ) (case : BatchCase) : List (List ℕ × List ℕ) :=
  encodeEntries (caseExports preview case)

/-- The path of a binary is printable. -/
theorem ascii_batchBinary (index : ℕ) : ∀ c ∈ batchBinary (decimal index), 0 < c ∧ c < 128 := by
  have hdecimal : ∀ c ∈ decimal index, 0 < c ∧ c < 128 := by
    intro c hc
    have hdigit := Json.isDigit_iff.mp (Json.isDigit_of_mem_decimal hc)
    omega
  have hends : ∀ c ∈ PyStr.ofString "/syzkabi/batch/" ++ PyStr.ofString ".bin",
      0 < c ∧ c < 128 := by
    decide
  intro c hc
  rcases List.mem_append.mp hc with hfront | hback
  · rcases List.mem_append.mp hfront with hfront | hmiddle
    · exact hends c (List.mem_append_left _ hfront)
    · exact hdecimal c hmiddle
  · exact hends c (List.mem_append_right _ hback)

theorem map_fst_exportBytes (preview : ℕ) (case : BatchCase) :
    (exportBytes preview case).map Prod.fst =
      PyStr.ofString "SYZABI_SIDE" :: previewBytesName ::
        if case.injectTrace.isSome then injectionNames else [] := by
  rw [exportBytes, map_fst_encodeEntries, map_fst_caseExports]

theorem nodup_exportBytes (preview : ℕ) (case : BatchCase) :
    ((exportBytes preview case).map Prod.fst).Nodup := by
  rw [map_fst_exportBytes]
  split_ifs <;> decide

theorem runScript_nameLines {index : ℕ} {case : BatchCase} (hcase : NulFree case)
    (vars : Variables) : runScript (Utf8.encode (unlines (nameLines index case))) vars =
      some ((vars.assign programIdName (Utf8.encode (PyStr.ofString case.programId))).assign
        binaryPathName (batchBinary (decimal index))) := by
  have hpath : ∀ c ∈ batchBinary (decimal index), c < 128 :=
    fun c hc ↦ (ascii_batchBinary index c hc).2
  have hnul : 0 ∉ batchBinary (decimal index) :=
    fun hzero ↦ absurd (ascii_batchBinary index 0 hzero).1 (by decide)
  have hlines : (nameLines index case).map Utf8.encode =
      [assignmentText programIdName (Utf8.encode (PyStr.ofString case.programId)),
       assignmentText binaryPathName (batchBinary (decimal index))] := by
    rw [nameLines, List.map_cons, List.map_cons, List.map_nil,
      encode_assignmentText (by decide) isValidChar_of_mem_ofString,
      encode_assignmentText (by decide) (valid_of_ascii hpath), Utf8.encode_ascii hpath]
  have hprogram := does_assignment (show isName programIdName = true by decide)
    (zero_notMem_encode isValidChar_of_mem_ofString hcase.1)
  have hbinary := does_assignment (show isName binaryPathName = true by decide) hnul
  rw [encode_unlines, hlines, runScript_lines (.cons hprogram (.cons hbinary .nil))]
  rfl

theorem ascii_unsetLine : ∀ c ∈ spaced (unsetWord :: injectionNames), c < 128 := by
  decide +kernel

theorem runScript_environmentLines {preview : ℕ} {case : BatchCase} (hcase : NulFree case)
    (vars : Variables) :
    runScript (Utf8.encode (unlines (environmentLines preview case))) vars =
      some ((vars.unsetAll injectionNames).exportAll (exportBytes preview case)) := by
  have hpassable := passable_caseExports preview hcase
  have hencodable := encodable_caseExports preview case
  have hlines : (environmentLines preview case).map Utf8.encode =
      spaced (unsetWord :: injectionNames) ::
        (exportBytes preview case).map fun entry ↦ exportText entry.1 entry.2 := by
    rw [environmentLines, List.map_cons, Utf8.encode_ascii ascii_unsetLine,
      map_encode_exports (fun entry hentry ↦ (hpassable entry hentry).1) hencodable, exportBytes]
  have hdoes := does_exports (passable_encodeEntries hpassable hencodable)
  rw [encode_unlines, hlines, exportBytes, runScript_lines (.cons (does_unset (by decide)) hdoes),
    List.foldl_cons, List.foldl_map]
  rfl

/-- The variables before do not matter: the testcase is the one of the case, and the tracer injects
what the case asks for. -/
theorem startCase_environment {preview index : ℕ} {case : BatchCase} (hcase : NulFree case)
    (vars : Variables) : ∃ binary next, startCase preview index case vars = some (binary, next) ∧
      binary = batchBinary (decimal index) ∧ ∀ entry,
        previewBytes (next.enter entry).environment =
          (if preview = 0 then 32 else min preview (2 ^ 64 - 1)) ∧
        getInjection (next.enter entry).environment = injectionFor case.injectTrace := by
  have hnodup := nodup_exportBytes preview case
  rw [startCase, runScript_nameLines hcase, Option.bind_eq_bind, Option.bind_some]
  simp only [runScript_environmentLines hcase, Option.bind_some]
  refine ⟨_, _, rfl, ?_, fun entry ↦ ⟨?_, ?_⟩⟩
  · have hother : binaryPathName ∉ (exportBytes preview case).map Prod.fst := by
      rw [map_fst_exportBytes]
      split_ifs <;> decide
    rw [Variables.valueOf_exportValue_of_ne _ _ (by decide),
      Variables.valueOf_exportAll_of_notMem _ hother,
      Variables.valueOf_unsetAll_of_notMem _ (by decide),
      Variables.valueOf_assign_of_ne _ _ (by decide), Variables.valueOf_assign_self]
  · refine previewBytes_eq ?_
    rw [Variables.environment_enter _ _ (by decide),
      Variables.environment_exportValue_of_ne _ _ (by decide)]
    refine Variables.environment_exportAll_of_mem _ hnodup (List.mem_map.mpr
      ⟨(previewBytesName, decimal preview), List.mem_cons_of_mem _ List.mem_cons_self, ?_⟩)
    exact congrArg _ (encode_decimalInt preview)
  · cases hrequest : case.injectTrace with
    | none =>
      -- the variable was unset, and nothing sets it again
      have hother : injectEnabledName ∉ (exportBytes preview case).map Prod.fst := by
        rw [map_fst_exportBytes, hrequest]
        decide
      have hnone : ∀ (start : Variables) (events : List ℕ),
          ((((start.unsetAll injectionNames).exportAll (exportBytes preview case)).exportValue
            eventsPathName events).enter entry).environment injectEnabledName = none := by
        intro start events
        rw [Variables.environment_enter _ _ (by decide),
          Variables.environment_exportValue_of_ne _ _ (by decide),
          Variables.environment_exportAll_of_notMem _ hother,
          Variables.environment_unsetAll_of_mem _ (by decide)]
      exact if_pos fun hon ↦ by cases (hnone _ _).symm.trans hon
    | some request =>
      refine getInjection_eq fun var hmem ↦ ?_
      have hname : var.1 ≠ eventsPathName ∧ var.1 ∉ directoryNames := by
        have hnames : ∀ name ∈ injectionNames, name ≠ eventsPathName ∧ name ∉ directoryNames := by
          decide
        exact hnames var.1 (List.mem_map.mpr ⟨var, hmem, rfl⟩)
      rw [Variables.environment_enter _ _ hname.2,
        Variables.environment_exportValue_of_ne _ _ hname.1]
      refine Variables.environment_exportAll_of_mem _ hnodup (List.mem_map.mpr
        ⟨var, ?_, rfl⟩)
      rw [caseExports, hrequest]
      exact List.mem_cons_of_mem _ (List.mem_cons_of_mem _ hmem)

/-- A batch starts its cases up to the first whose directory the shell does not come to, each as it
would be started alone. -/
theorem batch_traces_requests {preview : ℕ} {cases : List BatchCase}
    (hcases : ∀ case ∈ cases, NulFree case) (entered : ℕ → Option Entered)
    (behind : ℕ → Variables → Variables) (boot : Variables) :
    ∃ launches, batchLaunches preview entered behind 0 cases boot = some launches ∧
      launches.length = (startedCases entered 0 cases).length ∧
      ∀ i case, (startedCases entered 0 cases)[i]? = some case →
        ∃ launch, launches[i]? = some launch ∧ launch.binary = batchBinary (decimal i) ∧
          previewBytes launch.environment =
            (if preview = 0 then 32 else min preview (2 ^ 64 - 1)) ∧
          getInjection launch.environment = injectionFor case.injectTrace := by
  -- the induction is on the cases, from any index and any variables
  suffices hfrom : ∀ first vars, ∃ launches,
      batchLaunches preview entered behind first cases vars = some launches ∧
      launches.length = (startedCases entered first cases).length ∧
      ∀ i case, (startedCases entered first cases)[i]? = some case →
        ∃ launch, launches[i]? = some launch ∧
          launch.binary = batchBinary (decimal (first + i)) ∧
          previewBytes launch.environment =
            (if preview = 0 then 32 else min preview (2 ^ 64 - 1)) ∧
          getInjection launch.environment = injectionFor case.injectTrace by
    simpa only [Nat.zero_add] using hfrom 0 boot
  clear boot
  induction cases with
  | nil => exact fun first vars ↦ ⟨[], rfl, rfl, fun i case hcase ↦ by cases hcase⟩
  | cons case rest ih =>
    intro first vars
    obtain ⟨hcase, hrest⟩ := List.forall_mem_cons.mp hcases
    obtain ⟨binary, next, hstart, hbinary, hlaunch⟩ := startCase_environment hcase vars
    rw [batchLaunches, hstart, Option.bind_eq_bind, Option.bind_some, startedCases]
    dsimp only
    cases hentered : entered first with
    | none => exact ⟨[], rfl, rfl, fun i case hcase ↦ by cases hcase⟩
    | some entry =>
      obtain ⟨launches, hrun, hlength, hall⟩ :=
        ih hrest (first + 1) (behind first (next.enter entry))
      refine ⟨⟨binary, (next.enter entry).environment⟩ :: launches, ?_, ?_, ?_⟩
      · simp only [hrun]
        rfl
      · rw [Option.isSome_some, if_pos rfl, List.length_cons, hlength, List.length_cons]
      · intro i other hother
        cases i with
        | zero =>
          obtain rfl := Option.some.inj hother
          exact ⟨_, rfl, hbinary, hlaunch entry⟩
        | succ i =>
          obtain ⟨found, hfound, hname, hsame⟩ := hall i other hother
          refine ⟨found, hfound, ?_, hsame⟩
          rw [hname, Nat.add_assoc, Nat.add_comm 1 i]

/-- A case with an injection, and two without behind it. -/
def mixedBatch : List BatchCase :=
  [⟨"it's", "run-1", some awkwardRequest⟩, ⟨"plain", "run-2", none⟩, ⟨"last", "run-3", none⟩]

theorem nulFree_mixedBatch : ∀ case ∈ mixedBatch, NulFree case := by
  have hrequest : ∀ request ∈ some awkwardRequest,
      0 ∉ PyStr.ofString request.syscallName ∧ 0 ∉ PyStr.ofString request.field := by
    rintro request ⟨⟩
    decide +kernel
  rw [mixedBatch, List.forall_mem_cons, List.forall_mem_cons, List.forall_mem_singleton]
  exact ⟨⟨by decide, hrequest⟩, ⟨by decide, fun request h ↦ by cases h⟩, by decide,
    fun request h ↦ by cases h⟩

/-- The shell does not come to the directory of the third case. -/
def twoEntered (index : ℕ) : Option Entered :=
  if index < 2 then some workEntered else none

theorem batch_traces_mixedBatch :
    ∃ launches, batchLaunches 32 twoEntered (fun _ vars ↦ vars) 0 mixedBatch (fun _ ↦ none) =
        some launches ∧
      launches.length = (startedCases twoEntered 0 mixedBatch).length ∧
      ∀ i case, (startedCases twoEntered 0 mixedBatch)[i]? = some case →
        ∃ launch, launches[i]? = some launch ∧ launch.binary = batchBinary (decimal i) ∧
          previewBytes launch.environment = (if 32 = 0 then 32 else min 32 (2 ^ 64 - 1)) ∧
          getInjection launch.environment = injectionFor case.injectTrace :=
  batch_traces_requests nulFree_mixedBatch twoEntered (fun _ vars ↦ vars) fun _ ↦ none

end SyzAbi.Tools

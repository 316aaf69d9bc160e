import SyzAbi.Library.FirstUse
import SyzAbi.Targets.ScmlGate
import SyzAbi.Tools.InspectProgram
import SyzAbi.Tools.ReduceCase

/-!
# Two implementations of the SCML preflight

`run_preflight` of `tools/preflight_scml_gate.py` decides on the programs of the corpus, and
`scml_preflight_for_program` of `tools/reduce_case.py` on the programs that the reducer makes. Both
build the program, run it under `strace`, run the matcher on the log and classify what it prints;
they stop at different places and raise or reject in different ways.

Each is described by the same predicate on what the runs return (`Clean`). They differ in one point.
A program may take away the permission to create files in its working directory, where the preflight
keeps its evidence. `run_preflight` gives the permission back behind the run, and the reducer does
not, so that it raises where it writes the output of the matcher.
`passes_iff_accepts_iff`: the two agree exactly when this does not happen to a clean program.
-/

set_option autoImplicit false
set_option relaxedAutoImplicit false

namespace SyzAbi.Tools.Preflight

open Orchestrator Targets Library Library.Fallible
open ImportSyz (baseSyscallName)

/-! ### What the runs return -/

/-- The directory of the evidence behind the run of the program, which had it as its working
directory: files can be created in it, or the program took the permission away, or removed it. -/
inductive EvidenceDir
  | writable
  | refused
  | removed
  deriving DecidableEq

/-- The end of a run: an exit code, or none for a timeout. -/
abbrev ExitCode := Option ℤ

/-- The build, the run of the program and the run of the matcher. -/
structure PreflightRuns where
  buildStatus : Except PyError String
  strace : ExitCode
  directory : EvidenceDir
  sctrace : ExitCode
  stdout : PyStr
  stderr : PyStr

/-- `write_text` of a new file in the directory of the evidence. -/
def writeEvidence : EvidenceDir → Except PyError Unit
  | .writable => .ok ()
  | .refused => .error ⟨"PermissionError", "[Errno 13] Permission denied"⟩
  | .removed => .error ⟨"FileNotFoundError", "[Errno 2] No such file or directory"⟩

/-- `restore_artifact_root_permissions`. -/
def restoreArtifactRootPermissions : EvidenceDir → EvidenceDir
  | .removed => .removed
  | _ => .writable

/-- The files of the evidence. -/
structure EvidencePaths where
  straceLogPath : String
  sctraceOutputPath : String
  runRoot : String
  deriving DecidableEq

/-- The entry of a program of the corpus, with the calls of its metadata. -/
structure CorpusEntry where
  programId : String
  sourceWorkflow : String
  sourceProgramId : String
  normalizedPath : String
  metaPath : String
  reason : List String
  fullSyscallList : List PyStr
  deriving DecidableEq

/-- A row of `run_preflight`: the entry, its verdict and its evidence. -/
structure PreflightRow where
  entry : CorpusEntry
  workflow : String
  reason : List String
  scmlPreflightStatus : String
  scmlRejectionReasons : List String
  evidence : EvidencePaths
  deriving DecidableEq

/-- The keys of `syzabi_inspect` that the reducer's preflight reads. -/
structure InspectedProgram where
  programId : String
  fullSyscallList : List PyStr

variable (unicodeDigit : ℕ → Bool) (gate : ScmlGate)

/-! ### The corpus -/

/-- The row of a program that is rejected. -/
def rejectedRow (workflow : String) (entry : CorpusEntry) (evidence : EvidencePaths)
    (reasons : List String) : PreflightRow where
  entry := entry
  workflow := workflow
  reason := entry.reason
  scmlPreflightStatus := "rejected_by_scml"
  scmlRejectionReasons := reasons
  evidence := evidence

/-- The row of a program that is accepted. -/
def acceptedRow (workflow : String) (entry : CorpusEntry) (evidence : EvidencePaths) :
    PreflightRow where
  entry := entry
  workflow := workflow
  reason := entry.reason ++ ["runtime_scml_preflight_passed"]
  scmlPreflightStatus := "passed"
  scmlRejectionReasons := []
  evidence := evidence

/-- `taxonomy.get(key, key)`. -/
def taxonomyGet (key : String) : String := (gate.taxonomy.lookup key).getD key

/-- `run_preflight` behind the run of the matcher. -/
def classifyMatcher (fullSyscallList : List PyStr) (runs : PreflightRuns)
    (directory : EvidenceDir) : Except PyError (List String) := do
  let targetSyscalls := some (fullSyscallList.map baseSyscallName)
  let relevant := relevantOutputLines unicodeDigit targetSyscalls
    (parseSctraceLines runs.stdout runs.stderr)
  writeEvidence directory
  gate.reasonsOf unicodeDigit targetSyscalls relevant

/-- The reason of `run_preflight` for a matcher that fails. -/
def matcherGap (matcherCode : ℤ) : Except PyError (List String) :=
  if matcherCode ≠ 0 then do
    return [← gate.taxonomyItem "scml_parser_gap"]
  else .ok []

/-- `run_preflight`: the accepted and the rejected row. -/
def runPreflight (workflow : String) (entry : CorpusEntry) (evidence : EvidencePaths)
    (runs : PreflightRuns) : Except PyError (Option PreflightRow × Option PreflightRow) := do
  let rejected := rejectedRow workflow entry evidence
  let buildStatus ← runs.buildStatus
  if buildStatus ≠ "ok" then
    return (none, some (rejected [← gate.taxonomyItem "preflight_build_failure"]))
  else
    let directory := restoreArtifactRootPermissions runs.directory
    writeEvidence directory
    match runs.strace with
    | none => return (none, some (rejected [← gate.taxonomyItem "preflight_runtime_timeout"]))
    | some returncode =>
      if returncode ≠ 0 then
        return (none, some (rejected [taxonomyGet gate "preflight_runtime_failure"]))
      else
        writeEvidence directory
        match runs.sctrace with
        | none => return (none, some (rejected [← gate.taxonomyItem "preflight_matcher_timeout"]))
        | some matcherCode =>
          let reasons ← classifyMatcher unicodeDigit gate entry.fullSyscallList runs directory
          let gap ← matcherGap gate matcherCode
          let reasons := FirstUse.noteAll [] (reasons ++ gap)
          if reasons.isEmpty then return (some (acceptedRow workflow entry evidence), none)
          else return (none, some (rejected reasons))

/-! ### The reducer -/

/-- A verdict of `scml_preflight_for_program`. -/
def reducerVerdict (info : InspectedProgram) (evidence : EvidencePaths) (reasons : List String) :
    ScmlPreflight where
  programId := info.programId
  status := if reasons.isEmpty then "passed" else "rejected_by_scml"
  reasons := reasons
  traceLogPath := evidence.straceLogPath
  sctraceOutputPath := evidence.sctraceOutputPath
  reducerReplayMode := "fresh_replay"
  reducerReplayRecoveryReason := ""

/-- `scml_preflight_for_program`, which does not look at `require_zero_exit`. -/
def scmlPreflightForProgram (info : InspectedProgram) (evidence : EvidencePaths)
    (runs : PreflightRuns) : Except PyError ScmlPreflight := do
  let buildStatus ← runs.buildStatus
  if buildStatus ≠ "ok" then
    .error ⟨"SystemExit", "failed to build minimized testcase for SCML preflight"⟩
  else
    match runs.strace with
    | none => return reducerVerdict info evidence [taxonomyGet gate "preflight_runtime_timeout"]
    | some returncode =>
      match runs.sctrace with
      | none => return reducerVerdict info evidence [taxonomyGet gate "preflight_matcher_timeout"]
      | some matcherCode =>
        let reasons ← classifyMatcher unicodeDigit gate info.fullSyscallList runs runs.directory
        let failure :=
          if returncode ≠ 0 then [taxonomyGet gate "preflight_runtime_failure"] else []
        let gap := if matcherCode ≠ 0 then [taxonomyGet gate "scml_parser_gap"] else []
        return reducerVerdict info evidence
          (FirstUse.noteAll [] ((reasons ++ failure ++ gap).filter (· ≠ "")))

/-! ### What they decide -/

/-- The runs of a program that the preflight has nothing against: the program is built, both runs
end with exit code zero, and no relevant line of the matcher has a reason. -/
structure Clean (fullSyscallList : List PyStr) (runs : PreflightRuns) : Prop where
  build : runs.buildStatus = .ok "ok"
  strace : runs.strace = some 0
  sctrace : runs.sctrace = some 0
  reasons : gate.reasonsOf unicodeDigit (some (fullSyscallList.map baseSyscallName))
    (relevantOutputLines unicodeDigit (some (fullSyscallList.map baseSyscallName))
      (parseSctraceLines runs.stdout runs.stderr)) = .ok []

/-- `run_preflight` accepts the entry. -/
def Accepts (workflow : String) (entry : CorpusEntry) (evidence : EvidencePaths)
    (runs : PreflightRuns) : Prop :=
  ∃ row, runPreflight unicodeDigit gate workflow entry evidence runs = .ok (some row, none)

/-- `scml_preflight_for_program` returns the status `passed`. -/
def Passes (info : InspectedProgram) (evidence : EvidencePaths) (runs : PreflightRuns) : Prop :=
  ∃ preflight, scmlPreflightForProgram unicodeDigit gate info evidence runs = .ok preflight ∧
    preflight.status = "passed"

variable {unicodeDigit gate}

theorem writeEvidence_eq_ok_iff {directory : EvidenceDir} :
    writeEvidence directory = .ok () ↔ directory = .writable := by
  cases directory with
  | writable => exact iff_of_true rfl rfl
  | refused => exact iff_of_false (fun h ↦ by cases h) EvidenceDir.noConfusion
  | removed => exact iff_of_false (fun h ↦ by cases h) EvidenceDir.noConfusion

theorem restored_eq_writable_iff {directory : EvidenceDir} :
    restoreArtifactRootPermissions directory = .writable ↔ directory ≠ .removed := by
  cases directory with
  | writable => exact iff_of_true rfl EvidenceDir.noConfusion
  | refused => exact iff_of_true rfl EvidenceDir.noConfusion
  | removed => exact iff_of_false EvidenceDir.noConfusion fun h ↦ h rfl

theorem classifyMatcher_eq_ok_iff {fullSyscallList : List PyStr} {runs : PreflightRuns}
    {directory : EvidenceDir} {reasons : List String} :
    classifyMatcher unicodeDigit gate fullSyscallList runs directory = .ok reasons ↔
      directory = .writable ∧
      gate.reasonsOf unicodeDigit (some (fullSyscallList.map baseSyscallName))
        (relevantOutputLines unicodeDigit (some (fullSyscallList.map baseSyscallName))
          (parseSctraceLines runs.stdout runs.stderr)) = .ok reasons := by
  rw [classifyMatcher, bind_eq_ok_iff]
  constructor
  · rintro ⟨⟨⟩, hwrite, hreasons⟩
    exact ⟨writeEvidence_eq_ok_iff.mp hwrite, hreasons⟩
  · rintro ⟨hwritable, hreasons⟩
    exact ⟨(), writeEvidence_eq_ok_iff.mpr hwritable, hreasons⟩

/-- A row that is rejected is not accepted. -/
theorem rejected_ne_accepted {item : Except PyError String} {reject : String → PreflightRow}
    {row : PreflightRow} :
    (do return (none, some (reject (← item))) :
      Except PyError (Option PreflightRow × Option PreflightRow)) ≠ .ok (some row, none) := by
  intro h
  obtain ⟨reason, -, hrow⟩ := bind_eq_ok_iff.mp h
  cases pure_eq_ok_iff.mp hrow

/-- The corpus accepts the clean programs that leave their directory in place. -/
theorem accepts_iff (workflow : String) (entry : CorpusEntry) (evidence : EvidencePaths)
    (runs : PreflightRuns) :
    Accepts unicodeDigit gate workflow entry evidence runs ↔
      Clean unicodeDigit gate entry.fullSyscallList runs ∧ runs.directory ≠ .removed := by
  constructor
  · rintro ⟨row, haccepts⟩
    rw [runPreflight] at haccepts
    obtain ⟨buildStatus, hbuild, haccepts⟩ := bind_eq_ok_iff.mp haccepts
    split_ifs at haccepts with hstatus
    · exact absurd haccepts rejected_ne_accepted
    · obtain ⟨⟨⟩, hwrite, haccepts⟩ := bind_eq_ok_iff.mp haccepts
      have hdirectory := restored_eq_writable_iff.mp (writeEvidence_eq_ok_iff.mp hwrite)
      split at haccepts
      · exact absurd haccepts rejected_ne_accepted
      · next returncode hstrace =>
        split_ifs at haccepts with hcode
        · cases pure_eq_ok_iff.mp haccepts
        · obtain ⟨-, -, haccepts⟩ := bind_eq_ok_iff.mp haccepts
          split at haccepts
          · exact absurd haccepts rejected_ne_accepted
          · next matcherCode hsctrace =>
            obtain ⟨reasons, hreasons, haccepts⟩ := bind_eq_ok_iff.mp haccepts
            obtain ⟨gap, hgap, haccepts⟩ := bind_eq_ok_iff.mp haccepts
            dsimp only at haccepts
            split_ifs at haccepts with hempty
            · rw [List.isEmpty_iff, FirstUse.noteAll_nil_eq_nil_iff,
                List.append_eq_nil_iff] at hempty
              obtain ⟨rfl, rfl⟩ := hempty
              have hmatcher : matcherCode = 0 := by
                by_contra hne
                rw [matcherGap, if_pos hne] at hgap
                exact taxonomyItem_bind_ne_nil _ hgap
              refine ⟨⟨?_, ?_, ?_, (classifyMatcher_eq_ok_iff.mp hreasons).2⟩, hdirectory⟩
              · rw [hbuild, not_not.mp hstatus]
              · rw [hstrace, not_not.mp hcode]
              · rw [hsctrace, hmatcher]
            · cases pure_eq_ok_iff.mp haccepts
  · rintro ⟨hclean, hdirectory⟩
    have hwritable := restored_eq_writable_iff.mpr hdirectory
    have hreasons : classifyMatcher unicodeDigit gate entry.fullSyscallList runs .writable =
        .ok [] := classifyMatcher_eq_ok_iff.mpr ⟨rfl, hclean.reasons⟩
    refine ⟨acceptedRow workflow entry evidence, ?_⟩
    rw [runPreflight, hclean.build, ok_bind, if_neg (not_not.mpr rfl), hwritable, hclean.strace,
      hclean.sctrace]
    dsimp only
    rw [if_neg (not_not.mpr rfl), hreasons]
    rfl

/-- The reasons that the reducer takes from a taxonomy of non-empty strings are not empty. -/
theorem taxonomyGet_ne_empty (hnonempty : ∀ item ∈ gate.taxonomy, item.2 ≠ "") {key : String}
    (hkey : key ≠ "") : taxonomyGet gate key ≠ "" := by
  rw [taxonomyGet]
  cases hlookup : gate.taxonomy.lookup key with
  | none => exact hkey
  | some reason =>
    obtain ⟨first, rest, hitems, -⟩ := List.lookup_eq_some_iff.mp hlookup
    exact hnonempty (key, reason) (hitems ▸ List.mem_append_right _ List.mem_cons_self)

theorem ne_empty_of_names (hnonempty : ∀ item ∈ gate.taxonomy, item.2 ≠ "") {reason : String}
    (hnames : gate.Names reason) : reason ≠ "" := by
  obtain ⟨key, hlookup⟩ := hnames
  obtain ⟨first, rest, hitems, -⟩ := List.lookup_eq_some_iff.mp hlookup
  exact hnonempty (key, reason) (hitems ▸ List.mem_append_right _ List.mem_cons_self)

theorem passed_of_verdict {info : InspectedProgram} {evidence : EvidencePaths}
    {reasons : List String} {preflight : ScmlPreflight}
    (hverdict : (pure (reducerVerdict info evidence reasons) : Except PyError ScmlPreflight) =
      .ok preflight) (hpassed : preflight.status = "passed") : reasons = [] := by
  rw [← pure_eq_ok_iff.mp hverdict, reducerVerdict] at hpassed
  by_contra hne
  rw [if_neg fun h ↦ hne (List.isEmpty_iff.mp h)] at hpassed
  dsimp only at hpassed
  exact absurd hpassed (by decide)

/-- With a taxonomy of non-empty strings the reducer passes the clean programs that leave their
directory writable. -/
theorem passes_iff (hnonempty : ∀ item ∈ gate.taxonomy, item.2 ≠ "") (info : InspectedProgram)
    (evidence : EvidencePaths) (runs : PreflightRuns) :
    Passes unicodeDigit gate info evidence runs ↔
      Clean unicodeDigit gate info.fullSyscallList runs ∧ runs.directory = .writable := by
  constructor
  · rintro ⟨preflight, hverdict, hpassed⟩
    rw [scmlPreflightForProgram] at hverdict
    obtain ⟨buildStatus, hbuild, hverdict⟩ := bind_eq_ok_iff.mp hverdict
    split_ifs at hverdict with hstatus
    · split at hverdict
      · exact absurd (passed_of_verdict hverdict hpassed) (List.cons_ne_nil _ _)
      · next returncode hstrace =>
        split at hverdict
        · exact absurd (passed_of_verdict hverdict hpassed) (List.cons_ne_nil _ _)
        · next matcherCode hsctrace =>
          obtain ⟨reasons, hreasons, hverdict⟩ := bind_eq_ok_iff.mp hverdict
          obtain ⟨hwritable, hclassified⟩ := classifyMatcher_eq_ok_iff.mp hreasons
          have hempty := passed_of_verdict hverdict hpassed
          rw [FirstUse.noteAll_nil_eq_nil_iff, List.filter_eq_nil_iff] at hempty
          -- A reason is never the empty string, so the filter had nothing to leave out.
          have hnone : ∀ reason, reason ≠ "" → reason ∉ reasons ++ (if returncode ≠ 0 then
              [taxonomyGet gate "preflight_runtime_failure"] else []) ++
              (if matcherCode ≠ 0 then [taxonomyGet gate "scml_parser_gap"] else []) :=
            fun reason hreason hmem ↦ hempty reason hmem (decide_eq_true hreason)
          refine ⟨⟨?_, ?_, ?_, ?_⟩, hwritable⟩
          · rw [hbuild, not_not.mp hstatus]
          · rw [hstrace]
            by_contra hcode
            have hkey : "preflight_runtime_failure" ≠ "" := by decide
            refine hnone _ (taxonomyGet_ne_empty hnonempty hkey) (List.mem_append_left _
              (List.mem_append_right _ ?_))
            rw [if_pos fun h ↦ hcode (congrArg some h)]
            exact List.mem_cons_self
          · rw [hsctrace]
            by_contra hcode
            have hkey : "scml_parser_gap" ≠ "" := by decide
            refine hnone _ (taxonomyGet_ne_empty hnonempty hkey) (List.mem_append_right _ ?_)
            rw [if_pos fun h ↦ hcode (congrArg some h)]
            exact List.mem_cons_self
          · rw [hclassified]
            refine congrArg Except.ok (List.eq_nil_iff_forall_not_mem.mpr fun reason hreason ↦ ?_)
            have hnames := names_of_mem_reasonsOf hclassified reason hreason
            exact hnone reason (ne_empty_of_names hnonempty hnames)
              (List.mem_append_left _ (List.mem_append_left _ hreason))
  · rintro ⟨hclean, hwritable⟩
    have hreasons : classifyMatcher unicodeDigit gate info.fullSyscallList runs .writable =
        .ok [] := classifyMatcher_eq_ok_iff.mpr ⟨rfl, hclean.reasons⟩
    refine ⟨reducerVerdict info evidence [], ?_, rfl⟩
    rw [scmlPreflightForProgram, hclean.build, ok_bind, if_neg (not_not.mpr rfl), hclean.strace,
      hclean.sctrace]
    dsimp only
    rw [hwritable, hreasons]
    rfl

/-- On a program whose metadata has the calls that the reducer sees in it, the two preflights agree
exactly when the program is not a clean one that takes away the permission to write in its
directory. -/
theorem passes_iff_accepts_iff (unicodeDigit : ℕ → Bool) (gate : ScmlGate)
    (hnonempty : ∀ item ∈ gate.taxonomy, item.2 ≠ "") (workflow : String) (entry : CorpusEntry)
    (info : InspectedProgram) (hcalls : entry.fullSyscallList = info.fullSyscallList)
    (corpusEvidence reducerEvidence : EvidencePaths) (runs : PreflightRuns) :
    (Passes unicodeDigit gate info reducerEvidence runs ↔
        Accepts unicodeDigit gate workflow entry corpusEvidence runs) ↔
      (runs.directory = .refused → ¬Clean unicodeDigit gate info.fullSyscallList runs) := by
  rw [passes_iff hnonempty, accepts_iff, hcalls, and_congr_right_iff]
  cases runs.directory with
  | writable =>
    exact iff_of_true (fun _ ↦ iff_of_true rfl EvidenceDir.noConfusion) EvidenceDir.noConfusion
  | refused =>
    refine ⟨fun h _ hclean ↦ ?_, fun h hclean ↦ absurd hclean (h rfl)⟩
    exact EvidenceDir.noConfusion ((h hclean).mpr EvidenceDir.noConfusion)
  | removed =>
    refine iff_of_true (fun _ ↦ iff_of_false EvidenceDir.noConfusion fun h ↦ h rfl)
      EvidenceDir.noConfusion

/-- The runs of a program that changes the mode of its working directory and ends well, without an
unsupported call. -/
def chmodRuns : PreflightRuns where
  buildStatus := .ok "ok"
  strace := some 0
  directory := .refused
  sctrace := some 0
  stdout := []
  stderr := []

/-- The entry of that program. -/
def chmodEntry : CorpusEntry where
  programId := "program"
  sourceWorkflow := "baseline"
  sourceProgramId := "program"
  normalizedPath := "program.syz"
  metaPath := "program.json"
  reason := []
  fullSyscallList := [PyStr.ofString "chmod"]

/-- Where its evidence goes. -/
def chmodEvidence : EvidencePaths where
  straceLogPath := "preflight.strace.log"
  sctraceOutputPath := "preflight.sctrace.txt"
  runRoot := "program"

theorem passes_iff_accepts_iff_chmod :
    (Passes (fun _ ↦ false) bareGate ⟨"program", [PyStr.ofString "chmod"]⟩ chmodEvidence
        { chmodRuns with directory := .writable } ↔
      Accepts (fun _ ↦ false) bareGate "asterinas_scml" chmodEntry chmodEvidence
        { chmodRuns with directory := .writable }) ↔
      (EvidenceDir.writable = .refused → ¬Clean (fun _ ↦ false) bareGate
        [PyStr.ofString "chmod"] { chmodRuns with directory := .writable }) :=
  passes_iff_accepts_iff (fun _ ↦ false) bareGate (by decide) "asterinas_scml" chmodEntry
    ⟨"program", [PyStr.ofString "chmod"]⟩ rfl chmodEvidence chmodEvidence _

/-- The corpus accepts the program, and the reducer raises where it writes its evidence. -/
theorem chmodRuns_disagree :
    Accepts (fun _ ↦ false) bareGate "asterinas_scml" chmodEntry chmodEvidence chmodRuns ∧
      scmlPreflightForProgram (fun _ ↦ false) bareGate ⟨"program", [PyStr.ofString "chmod"]⟩
        chmodEvidence chmodRuns =
          .error ⟨"PermissionError", "[Errno 13] Permission denied"⟩ ∧
      ¬Passes (fun _ ↦ false) bareGate ⟨"program", [PyStr.ofString "chmod"]⟩ chmodEvidence
        chmodRuns := by
  refine ⟨⟨_, rfl⟩, rfl, ?_⟩
  rintro ⟨preflight, hverdict, -⟩
  cases hverdict

end SyzAbi.Tools.Preflight

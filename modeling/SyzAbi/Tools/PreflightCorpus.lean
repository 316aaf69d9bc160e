import SyzAbi.Library.Slots
import SyzAbi.Tools.DeriveSequences
import SyzAbi.Tools.PreflightAgreement

/-!
# The corpus of the SCML workflow

`main` of `tools/preflight_scml_gate.py` runs the preflight on every row of the static corpus, one
after the other or with a pool of threads. A pool puts the verdicts where their rows stand, so the
two ways agree, whatever the order of completion (`runPreflightEntries_eq_ok_iff`).

`mem_acceptedRows_iff` follows a program through the stages, from the source rows over
`deriveSequences` to the preflight: it is in the final corpus exactly when its metadata is within
the generation profile and its runs are clean.
-/

set_option autoImplicit false
set_option relaxedAutoImplicit false

namespace SyzAbi.Tools.Preflight

open Analyzer Orchestrator Targets Library Library.Fallible Library.Slots
open ImportSyz (EligibleProgram ProgramMeta SourceRow SequenceConfig InProfile Derivation
  DerivationReport deriveSequences mergeSourceRows combined rowsOf iterated)

/-! ### The pool -/

/-- A verdict: an accepted row, or a rejected one. -/
abbrev Verdict := Option PreflightRow × Option PreflightRow

/-- The rows of some verdicts. -/
def collectRows (verdicts : List Verdict) : List PreflightRow × List PreflightRow :=
  (verdicts.filterMap Prod.fst, verdicts.filterMap Prod.snd)

/-- `run_preflight_entries`. A pool raises the first error that completes. -/
def runPreflightEntries {Entry : Type} (jobs : ℕ) (order : CompletionOrder)
    (task : Entry → Except PyError Verdict) (entries : List Entry) :
    Except PyError (List PreflightRow × List PreflightRow) := do
  if jobs ≤ 1 ∨ entries.length ≤ 1 then
    return collectRows (← entries.mapM task)
  else
    let writes ← (completed order task entries).mapM fun future ↦ do
      return (future.1, ← future.2)
    return collectRows ((writeAll (List.replicate entries.length none) writes).filterMap id)

section Pool

variable {Entry : Type} {task : Entry → Except PyError Verdict} {entries : List Entry}

/-- A loop over calls that all return is the map of what they return. -/
theorem mapM_eq_ok_map_iff {α β : Type} {call : α → Except PyError β} (value : α → β)
    (hvalue : ∀ item result, call item = .ok result → value item = result) {items : List α}
    {results : List β} : items.mapM call = .ok results ↔
      (∀ item ∈ items, ∃ result, call item = .ok result) ∧ items.map value = results := by
  rw [mapM_eq_ok_iff]
  constructor
  · intro hloop
    refine ⟨fun item hitem ↦ ?_, ?_⟩
    · obtain ⟨result, -, hresult⟩ := exists_result_of_mapM_eq_ok (mapM_eq_ok_iff.mpr hloop) hitem
      exact ⟨result, hresult⟩
    · rw [← List.forall₂_eq_eq_eq, List.forall₂_map_left_iff]
      exact hloop.imp fun item result ↦ hvalue item result
  · rintro ⟨hall, rfl⟩
    rw [List.forall₂_map_right_iff, List.forall₂_same]
    intro item hitem
    obtain ⟨result, hresult⟩ := hall item hitem
    rw [hvalue item result hresult, hresult]

/-- What a call returned, if it did. -/
def returned (result : Except PyError Verdict) : Verdict := result.toOption.getD (none, none)

theorem returned_eq {result : Except PyError Verdict} {verdict : Verdict}
    (hresult : result = .ok verdict) : returned result = verdict := by
  rw [hresult]
  rfl

theorem completed_map (order : CompletionOrder) (entries : List Entry) :
    (completed order task entries).map (fun future ↦ (future.1, returned future.2)) =
      completed order (fun entry ↦ returned (task entry)) entries := by
  rw [completed, completed, List.map_filterMap]
  refine List.filterMap_congr fun index _ ↦ ?_
  rw [Option.map_map]
  rfl

/-- All futures return exactly when all tasks do. -/
theorem forall_future_iff (order : CompletionOrder) :
    (∀ future ∈ completed order task entries, ∃ write : ℕ × Verdict,
        (do return (future.1, ← future.2) : Except PyError (ℕ × Verdict)) = .ok write) ↔
      ∀ entry ∈ entries, ∃ verdict, task entry = .ok verdict := by
  constructor
  · intro hall entry hentry
    obtain ⟨index, hindex, rfl⟩ := List.mem_iff_getElem.mp hentry
    obtain ⟨future, hfuture, rfl⟩ := List.mem_map.mp (mem_map_completed order task hindex)
    obtain ⟨write, hwrite⟩ := hall future hfuture
    obtain ⟨verdict, hverdict, -⟩ := bind_eq_ok_iff.mp hwrite
    obtain ⟨item, hitem, hresult⟩ := mem_completed hfuture
    rw [List.getElem?_eq_getElem hindex] at hitem
    exact ⟨verdict, by rw [Option.some.inj hitem, ← hresult, hverdict]⟩
  · intro hall future hfuture
    obtain ⟨item, hitem, hresult⟩ := mem_completed hfuture
    obtain ⟨verdict, hverdict⟩ := hall item (List.mem_of_getElem? hitem)
    exact ⟨_, bind_eq_ok_iff.mpr ⟨verdict, hresult.trans hverdict, rfl⟩⟩

/-- The rows of a pool are the rows of the loop: every verdict is where its entry stands. -/
theorem runPreflightEntries_eq_ok_iff (jobs : ℕ) (order : CompletionOrder)
    {rows : List PreflightRow × List PreflightRow} :
    runPreflightEntries jobs order task entries = .ok rows ↔
      ∃ verdicts, entries.mapM task = .ok verdicts ∧ collectRows verdicts = rows := by
  rw [runPreflightEntries]
  split_ifs
  · rw [bind_eq_ok_iff]
    simp only [pure_eq_ok_iff]
  · have hloop : ∀ {verdicts}, entries.mapM task = .ok verdicts ↔ _ :=
      mapM_eq_ok_map_iff (fun entry ↦ returned (task entry)) fun _ _ ↦ returned_eq
    have hpool : ∀ {writes}, (completed order task entries).mapM (fun future ↦ (do
        return (future.1, ← future.2) : Except PyError (ℕ × Verdict))) = .ok writes ↔ _ :=
      mapM_eq_ok_map_iff (fun future ↦ (future.1, returned future.2)) fun future write hwrite ↦
        have ⟨_, hverdict, hpure⟩ := bind_eq_ok_iff.mp hwrite
        (pure_eq_ok_iff.mp hpure) ▸ congrArg (future.1, ·) (returned_eq hverdict)
    have hslots : (writeAll (List.replicate entries.length none)
        (completed order (fun entry ↦ returned (task entry)) entries)).filterMap id =
          entries.map fun entry ↦ returned (task entry) := by
      rw [← poolMap, poolMap_eq, filterMap_id_map_some]
    rw [bind_eq_ok_iff]
    simp only [hpool, hloop, forall_future_iff, completed_map, pure_eq_ok_iff, and_assoc]
    constructor
    · rintro ⟨_, hall, rfl, hrows⟩
      exact ⟨_, hall, rfl, by rwa [hslots] at hrows⟩
    · rintro ⟨_, hall, rfl, hrows⟩
      exact ⟨_, hall, rfl, by rwa [hslots]⟩

end Pool

/-! ### The verdict on an entry -/

variable {unicodeDigit : ℕ → Bool} {gate : ScmlGate}

/-- A verdict accepts the entry, or rejects it. -/
theorem verdict_cases {workflow : String} {entry : CorpusEntry} {evidence : EvidencePaths}
    {runs : PreflightRuns} {verdict : Verdict}
    (hverdict : runPreflight unicodeDigit gate workflow entry evidence runs = .ok verdict) :
    verdict = (some (acceptedRow workflow entry evidence), none) ∨
      ∃ reasons, verdict = (none, some (rejectedRow workflow entry evidence reasons)) := by
  have hreject : ∀ {item : Except PyError String},
      (do return (none, some (rejectedRow workflow entry evidence [← item])) :
        Except PyError Verdict) = .ok verdict →
      ∃ reasons, verdict = (none, some (rejectedRow workflow entry evidence reasons)) := by
    intro item hitem
    obtain ⟨reason, -, hpure⟩ := bind_eq_ok_iff.mp hitem
    exact ⟨[reason], (pure_eq_ok_iff.mp hpure).symm⟩
  rw [runPreflight] at hverdict
  obtain ⟨buildStatus, -, hverdict⟩ := bind_eq_ok_iff.mp hverdict
  split_ifs at hverdict
  · exact .inr (hreject hverdict)
  · obtain ⟨-, -, hverdict⟩ := bind_eq_ok_iff.mp hverdict
    split at hverdict
    · exact .inr (hreject hverdict)
    · split_ifs at hverdict
      · exact .inr ⟨_, (pure_eq_ok_iff.mp hverdict).symm⟩
      · obtain ⟨-, -, hverdict⟩ := bind_eq_ok_iff.mp hverdict
        split at hverdict
        · exact .inr (hreject hverdict)
        · obtain ⟨reasons, -, hverdict⟩ := bind_eq_ok_iff.mp hverdict
          obtain ⟨gap, -, hverdict⟩ := bind_eq_ok_iff.mp hverdict
          dsimp only at hverdict
          split_ifs at hverdict
          · exact .inl (pure_eq_ok_iff.mp hverdict).symm
          · exact .inr ⟨_, (pure_eq_ok_iff.mp hverdict).symm⟩

/-- An accepted row is the row of a clean entry. -/
theorem exists_verdict_iff {workflow : String} {entry : CorpusEntry} {evidence : EvidencePaths}
    {runs : PreflightRuns} {row : PreflightRow} :
    (∃ rejected, runPreflight unicodeDigit gate workflow entry evidence runs =
        .ok (some row, rejected)) ↔
      (Clean unicodeDigit gate entry.fullSyscallList runs ∧ runs.directory ≠ .removed) ∧
        row = acceptedRow workflow entry evidence := by
  rw [← accepts_iff workflow entry evidence]
  constructor
  · rintro ⟨rejected, hverdict⟩
    obtain heq | ⟨reasons, heq⟩ := verdict_cases hverdict
    · obtain ⟨hrow, rfl⟩ := Prod.ext_iff.mp heq
      exact ⟨⟨row, hverdict⟩, Option.some.inj hrow⟩
    · cases heq
  · rintro ⟨⟨other, hverdict⟩, rfl⟩
    obtain heq | ⟨reasons, heq⟩ := verdict_cases hverdict
    · exact ⟨none, heq ▸ hverdict⟩
    · cases heq

/-! ### The final corpus -/

/-- What the preflights of a corpus depend on: the gate, the metadata, and for each program the
paths of its evidence and what its runs return. -/
structure PreflightSetup where
  unicodeDigit : ℕ → Bool
  gate : ScmlGate
  workflow : String
  loadMeta : PyStr → Except PyError ProgramMeta
  evidence : PyStr → EvidencePaths
  runs : PyStr → PreflightRuns

/-- The entry of a row, with the calls of its metadata. -/
def corpusEntry (row : EligibleProgram) (fullSyscallList : List PyStr) : CorpusEntry where
  programId := pyText row.programId
  sourceWorkflow := pyText row.sourceWorkflow
  sourceProgramId := pyText row.sourceProgramId
  normalizedPath := pyText row.normalizedPath
  metaPath := pyText row.metaPath
  reason := row.reason.map pyText
  fullSyscallList := fullSyscallList

/-- The preflight gets as far as the metadata of the program. -/
def PreflightRuns.reachesMetadata (runs : PreflightRuns) : Bool :=
  runs.buildStatus.toOption = some "ok" && runs.directory ≠ .removed && runs.strace = some 0 &&
    runs.sctrace.isSome

variable (setup : PreflightSetup)

/-- The calls that the metadata of a row lists. -/
def PreflightSetup.fullSyscallList (row : EligibleProgram) : Except PyError (List PyStr) := do
  iterated (← setup.loadMeta row.metaPath).fullSyscallList

/-- `run_preflight` for a row. The metadata is loaded behind the run of the matcher. -/
def PreflightSetup.preflight (row : EligibleProgram) : Except PyError Verdict :=
  let run := fun fullNames ↦ runPreflight setup.unicodeDigit setup.gate setup.workflow
    (corpusEntry row fullNames) (setup.evidence row.programId) (setup.runs row.programId)
  match setup.fullSyscallList row with
  | .ok fullNames => run fullNames
  | .error error => if (setup.runs row.programId).reachesMetadata then .error error else run []

/-- `selected_entries`, for the arguments `--program-id` and `--limit`. -/
def selectedEntries (programId : PyStr) (limit : Option ℤ) (sourceRows : List EligibleProgram) :
    List EligibleProgram :=
  let rows := if programId.isEmpty then sourceRows
    else sourceRows.filter fun row ↦ row.programId = programId
  match limit with
  | none => rows
  | some limit =>
    if 0 ≤ limit then rows.take limit.toNat else rows.take (rows.length - limit.natAbs)

/-- What `main` writes. -/
structure PreflightReport where
  eligibleRows : List PreflightRow
  rejectedRows : List PreflightRow
  sourceTotal : ℕ
  eligible : ℕ
  rejected : ℕ

/-- `main` behind the load of the source rows. -/
def preflightCorpus (jobs : ℕ) (order : CompletionOrder) (programId : PyStr) (limit : Option ℤ)
    (sourceRows : List EligibleProgram) : Except PyError PreflightReport := do
  let rows := selectedEntries programId limit sourceRows
  let (accepted, rejected) ← runPreflightEntries jobs order setup.preflight rows
  return {
    eligibleRows := accepted.insertionSort fun row other ↦
      row.entry.programId ≤ other.entry.programId
    rejectedRows := rejected.insertionSort fun row other ↦
      row.entry.programId ≤ other.entry.programId
    sourceTotal := rows.length
    eligible := accepted.length
    rejected := rejected.length }

variable {setup} {jobs : ℕ} {order : CompletionOrder} {rows : List EligibleProgram}
  {report : PreflightReport}

/-- A verdict has one row. -/
def HasOneRow (verdict : Verdict) : Prop :=
  (∃ accepted, verdict = (some accepted, none)) ∨ ∃ rejected, verdict = (none, some rejected)

theorem length_collectRows {verdicts : List Verdict}
    (hverdicts : ∀ verdict ∈ verdicts, HasOneRow verdict) :
    (collectRows verdicts).1.length + (collectRows verdicts).2.length = verdicts.length := by
  induction verdicts with
  | nil => rfl
  | cons verdict rest ih =>
    have hrest := ih fun other hother ↦ hverdicts other (List.mem_cons_of_mem verdict hother)
    rw [collectRows] at hrest ⊢
    obtain ⟨accepted, rfl⟩ | ⟨rejected, rfl⟩ := hverdicts verdict List.mem_cons_self
    · rw [List.length_cons, ← hrest, Nat.add_right_comm]
      rfl
    · rw [List.length_cons, ← hrest, Nat.add_assoc]
      rfl

theorem hasOneRow_of_preflight {row : EligibleProgram} {verdict : Verdict}
    (hverdict : setup.preflight row = .ok verdict) : HasOneRow verdict := by
  have hrun : ∀ {fullNames}, runPreflight setup.unicodeDigit setup.gate setup.workflow
      (corpusEntry row fullNames) (setup.evidence row.programId) (setup.runs row.programId) =
        .ok verdict → HasOneRow verdict := by
    intro fullNames hrun
    obtain haccepted | ⟨reasons, hrejected⟩ := verdict_cases hrun
    · exact .inl ⟨_, haccepted⟩
    · exact .inr ⟨_, hrejected⟩
  rw [PreflightSetup.preflight] at hverdict
  split at hverdict
  · exact hrun hverdict
  · split_ifs at hverdict
    exact hrun hverdict

/-- The two files account for all rows. -/
theorem eligible_add_rejected
    (hreport : preflightCorpus setup jobs order [] none rows = .ok report) :
    report.eligible + report.rejected = rows.length := by
  obtain ⟨collected, hcollected, hpure⟩ := bind_eq_ok_iff.mp hreport
  obtain ⟨verdicts, hverdicts, rfl⟩ := (runPreflightEntries_eq_ok_iff jobs order).mp hcollected
  rw [← pure_eq_ok_iff.mp hpure]
  refine (length_collectRows fun verdict hverdict ↦ ?_).trans
    (mapM_eq_ok_iff.mp hverdicts).length_eq.symm
  obtain ⟨row, -, hrow⟩ := exists_of_mapM_eq_ok hverdicts hverdict
  exact hasOneRow_of_preflight hrow

theorem mem_eligibleRows (hreport : preflightCorpus setup jobs order [] none rows = .ok report)
    {accepted : PreflightRow} : accepted ∈ report.eligibleRows ↔
      ∃ row ∈ rows, ∃ rejected, setup.preflight row = .ok (some accepted, rejected) := by
  obtain ⟨collected, hcollected, hpure⟩ := bind_eq_ok_iff.mp hreport
  obtain ⟨verdicts, hverdicts, rfl⟩ := (runPreflightEntries_eq_ok_iff jobs order).mp hcollected
  rw [← pure_eq_ok_iff.mp hpure, List.mem_insertionSort]
  show accepted ∈ verdicts.filterMap Prod.fst ↔ _
  rw [List.mem_filterMap]
  constructor
  · rintro ⟨⟨_, rejected⟩, hverdict, rfl⟩
    obtain ⟨row, hrow, hresult⟩ := exists_of_mapM_eq_ok hverdicts hverdict
    exact ⟨row, hrow, rejected, hresult⟩
  · rintro ⟨row, hrow, rejected, hresult⟩
    obtain ⟨verdict, hverdict, hother⟩ := exists_result_of_mapM_eq_ok hverdicts hrow
    obtain rfl := Except.ok.inj (hresult.symm.trans hother)
    exact ⟨_, hverdict, rfl⟩

/-- A row of the static corpus is accepted when its runs are clean. -/
theorem preflight_eligibleRow {cfg : SequenceConfig} {source : SourceRow} {stored : ProgramMeta}
    {fullNames : List PyStr} (hstored : setup.loadMeta source.metaPath = .ok stored)
    (hnames : stored.fullSyscallList = some fullNames) {accepted : PreflightRow} :
    (∃ rejected, setup.preflight (cfg.derivation.eligibleRow source) =
        .ok (some accepted, rejected)) ↔
      (Clean setup.unicodeDigit setup.gate fullNames (setup.runs source.programId) ∧
        (setup.runs source.programId).directory ≠ .removed) ∧
      accepted = acceptedRow setup.workflow
        (corpusEntry (cfg.derivation.eligibleRow source) fullNames)
        (setup.evidence source.programId) := by
  have hlist : setup.fullSyscallList (cfg.derivation.eligibleRow source) = .ok fullNames := by
    refine bind_eq_ok_iff.mpr ⟨stored, hstored, ?_⟩
    rw [hnames]
    rfl
  rw [PreflightSetup.preflight, hlist]
  exact exists_verdict_iff

/-- A program of the sources is in the final corpus exactly when its last metadata is within the
generation profile and its runs are clean, whatever the threads of the preflight, and both stages
account for all programs. -/
theorem mem_acceptedRows_iff (cfg : SequenceConfig) (setup : PreflightSetup) (jobs : ℕ)
    (order : CompletionOrder) (baseRows generatedRows : List SourceRow)
    {static : DerivationReport}
    (hstatic : deriveSequences cfg setup.loadMeta baseRows generatedRows = .ok static)
    {report : PreflightReport}
    (hreport : preflightCorpus setup jobs order [] none static.eligibleRows = .ok report) :
    (∀ row, row ∈ report.eligibleRows ↔ ∃ source stored fullNames,
        combined (rowsOf (baseRows ++ generatedRows) source.programId) = some source ∧
        setup.loadMeta source.metaPath = .ok stored ∧ InProfile cfg stored ∧
        stored.fullSyscallList = some fullNames ∧
        (Clean setup.unicodeDigit setup.gate fullNames (setup.runs source.programId) ∧
          (setup.runs source.programId).directory ≠ .removed) ∧
        row = acceptedRow setup.workflow
          (corpusEntry (cfg.derivation.eligibleRow source) fullNames)
          (setup.evidence source.programId)) ∧
      report.eligible + report.rejected + static.rejected =
        (mergeSourceRows [baseRows, generatedRows]).length := by
  have hsources : [baseRows, generatedRows].flatten = baseRows ++ generatedRows := by simp
  constructor
  · intro row
    rw [mem_eligibleRows hreport]
    simp only [ImportSyz.mem_eligibleRows hstatic, ImportSyz.deriveRow_eq_inl_iff,
      ImportSyz.deriveRejection_eq_nil_iff, ImportSyz.mem_mergeSourceRows_iff, hsources]
    constructor
    · rintro ⟨_, ⟨source, hsource, stored, hstored, hprofile, rfl⟩, hverdict⟩
      obtain ⟨fullNames, hnames, -⟩ := hprofile.names
      exact ⟨source, stored, fullNames, hsource, hstored, hprofile, hnames,
        (preflight_eligibleRow hstored hnames).mp hverdict⟩
    · rintro ⟨source, stored, fullNames, hsource, hstored, hprofile, hnames, hclean⟩
      exact ⟨_, ⟨source, hsource, stored, hstored, hprofile, rfl⟩,
        (preflight_eligibleRow hstored hnames).mpr hclean⟩
  · rw [eligible_add_rejected hreport, ← ImportSyz.eligible_eq_length hstatic,
      ImportSyz.eligible_add_rejected hstatic, ImportSyz.sourceTotal_eq_length hstatic]

/-! ### A program of both sources -/

/-- A profile for sequences of one to four process calls. -/
def processConfig : SequenceConfig where
  workflow := PyStr.ofString "asterinas_scml"
  acceptReasons := [PyStr.ofString "scml_allowed_sequence"]
  taxonomy := {
    specializedVariant := PyStr.ofString "specialized_variant_not_allowed"
    sequenceTooShort := PyStr.ofString "sequence_too_short"
    sequenceTooLong := PyStr.ofString "sequence_too_long"
    syscallNotInManifest := PyStr.ofString "syscall_not_in_manifest"
    deferredCategory := PyStr.ofString "deferred_category"
    manifestDisabled := PyStr.ofString "manifest_disabled" }
  manifest := [(PyStr.ofString "process", [(PyStr.ofString "getpid", [])])]
  profile := {
    enabledCategories := [PyStr.ofString "process"]
    deferredCategories := []
    deferredSyscalls := []
    sequenceMin := 1
    sequenceMax := 4 }

/-- The metadata of a program with one call, in the generated corpus. -/
def processMeta : ProgramMeta where
  programId := PyStr.ofString "p"
  source := .generated
  targetOs := PyStr.ofString "linux"
  arch := PyStr.ofString "amd64"
  syscallList := some [PyStr.ofString "getpid"]
  fullSyscallList := some [PyStr.ofString "getpid"]
  resourceClasses := none
  usesPseudoSyscalls := false
  usesThreadingSensitiveFeatures := false
  originalPath := PyStr.ofString "templates/getpid.syz"
  normalizedPath := PyStr.ofString "generated/p.syz"
  rawPath := PyStr.ofString "generated-raw/p.syz"
  callCount := 1

def processSetup : PreflightSetup where
  unicodeDigit _ := false
  gate := bareGate
  workflow := "asterinas_scml"
  loadMeta path :=
    if path = PyStr.ofString "generated/p.json" then .ok processMeta
    else if path = PyStr.ofString "generated/q.json" then
      .ok { processMeta with programId := PyStr.ofString "q" }
    else .error ⟨"FileNotFoundError", "[Errno 2] No such file or directory"⟩
  evidence _ := chmodEvidence
  runs programId :=
    { chmodRuns with
      directory := .writable
      strace := if programId = PyStr.ofString "p" then some 0 else some 1 }

def baselineSource : SourceRow where
  programId := PyStr.ofString "p"
  workflow := some (PyStr.ofString "baseline")
  normalizedPath := PyStr.ofString "normalized/p.syz"
  metaPath := PyStr.ofString "meta/p.json"

def generatedSource : SourceRow where
  programId := PyStr.ofString "p"
  workflow := none
  normalizedPath := PyStr.ofString "generated/p.syz"
  metaPath := PyStr.ofString "generated/p.json"

/-- A second program, whose run fails. -/
def failingSource : SourceRow where
  programId := PyStr.ofString "q"
  workflow := none
  normalizedPath := PyStr.ofString "generated/q.syz"
  metaPath := PyStr.ofString "generated/q.json"

/-- Completion in reverse order. -/
def lastFirst : CompletionOrder where
  order size := (List.range size).reverse
  perm _ := List.reverse_perm _

theorem mem_acceptedRows_iff_processConfig : ∃ static report,
    deriveSequences processConfig processSetup.loadMeta [baselineSource]
        [generatedSource, failingSource] = .ok static ∧
      preflightCorpus processSetup 4 lastFirst [] none static.eligibleRows = .ok report ∧
      acceptedRow "asterinas_scml" (corpusEntry (processConfig.derivation.eligibleRow
          (baselineSource.update generatedSource)) [PyStr.ofString "getpid"]) chmodEvidence ∈
        report.eligibleRows ∧
      static.eligible = 2 ∧ report.eligible = 1 ∧ report.rejected = 1 := by
  have hgenerates : Generates processConfig.profile processConfig.manifest
      (PyStr.ofString "getpid") :=
    ⟨rfl, PyStr.ofString "process", [], rfl, List.mem_singleton_self _, rfl⟩
  have hprofile : InProfile processConfig processMeta :=
    ⟨by decide, by decide, _, rfl, List.forall_mem_singleton.mpr ⟨by decide, hgenerates⟩⟩
  have hclean : Clean processSetup.unicodeDigit processSetup.gate [PyStr.ofString "getpid"]
      (processSetup.runs (PyStr.ofString "p")) := ⟨rfl, rfl, rfl, rfl⟩
  refine ⟨_, _, rfl, rfl, ?_, rfl, rfl, rfl⟩
  refine ((mem_acceptedRows_iff processConfig processSetup 4 lastFirst [baselineSource]
    [generatedSource, failingSource] rfl rfl).1 _).mpr
      ⟨baselineSource.update generatedSource, processMeta, _, rfl, rfl, hprofile, rfl,
        ⟨hclean, EvidenceDir.noConfusion⟩, rfl⟩

end SyzAbi.Tools.Preflight

import SyzAbi.Tools.FilterCorpus

/-!
# Derived corpora

`tools/derive_asterinas_corpus.py` and `tools/derive_scml_allowed_sequences.py` go over the rows of
an eligible file, load the metadata that each row names, and write the row to the eligible file of
another workflow or to its rejections. They share the loop (`deriveRows`) and differ in what they
reject (`Derivation`). No row is lost and none is in both files (`eligible_add_rejected`).

Behind the filter of the baseline the derivation never fails, and the two files hold the programs
that the candidate supports and those it does not (`deriveCorpus_filterCorpus`).
-/

set_option autoImplicit false
set_option relaxedAutoImplicit false

namespace SyzAbi.Tools.ImportSyz

open Analyzer Orchestrator Library.FirstUse Library.Fallible Library.LoopRows

/-! ### The loop -/

/-- A row of the source file, as far as a derivation reads it. -/
structure SourceRow where
  programId : PyStr
  workflow : Option PyStr
  normalizedPath : PyStr
  metaPath : PyStr

/-- A row of the rejections. The calls of the program are listed by one of the derivations. -/
structure RejectedProgram where
  programId : PyStr
  sourceWorkflow : PyStr
  metaPath : PyStr
  normalizedPath : PyStr
  reasons : List PyStr
  fullSyscallList : Option (List PyStr)

/-- What a derivation is configured with, and what it rejects. -/
structure Derivation where
  workflow : PyStr
  acceptReasons : List PyStr
  deriveRejection : ProgramMeta → Except PyError (List PyStr)
  listsCalls : Bool

/-- What `main` writes. -/
structure DerivationReport where
  eligibleRows : List EligibleProgram
  rejectedRows : List RejectedProgram
  sourceTotal : ℕ
  eligible : ℕ
  rejected : ℕ
  rejectionCounts : PyStr → ℕ

def baseline : PyStr := PyStr.ofString "baseline"

section Loop

variable (derivation : Derivation) (loadMeta : PyStr → Except PyError ProgramMeta)

def Derivation.eligibleRow (row : SourceRow) : EligibleProgram where
  programId := row.programId
  workflow := derivation.workflow
  reason := derivation.acceptReasons
  normalizedPath := row.normalizedPath
  metaPath := row.metaPath
  sourceWorkflow := row.workflow.getD baseline
  sourceProgramId := row.programId

def Derivation.rejectedRow (row : SourceRow) (stored : ProgramMeta) (reasons : List PyStr) :
    RejectedProgram where
  programId := row.programId
  sourceWorkflow := row.workflow.getD baseline
  metaPath := row.metaPath
  normalizedPath := row.normalizedPath
  reasons := reasons
  fullSyscallList := if derivation.listsCalls then stored.fullSyscallList else none

/-- The body of the loop of `main`. -/
def deriveRow (row : SourceRow) : Except PyError (EligibleProgram ⊕ RejectedProgram) := do
  let stored ← loadMeta row.metaPath
  let reasons ← derivation.deriveRejection stored
  return if reasons.isEmpty then .inl (derivation.eligibleRow row)
    else .inr (derivation.rejectedRow row stored reasons)

/-- `main` behind the load of the source rows. -/
def deriveRows (rows : List SourceRow) : Except PyError DerivationReport := do
  let derived ← rows.mapM (deriveRow derivation loadMeta)
  let eligibleRows := derived.filterMap Sum.getLeft?
  let rejectedRows := derived.filterMap Sum.getRight?
  return {
    eligibleRows := eligibleRows.insertionSort fun row other ↦ row.programId ≤ other.programId
    rejectedRows := rejectedRows.insertionSort fun row other ↦ row.programId ≤ other.programId
    sourceTotal := rows.length
    eligible := eligibleRows.length
    rejected := rejectedRows.length
    rejectionCounts := fun reason ↦ (rejectedRows.flatMap RejectedProgram.reasons).count reason }

/-! ### What the loop writes -/

variable {derivation loadMeta} {rows : List SourceRow} {report : DerivationReport}

theorem exists_deriveRows_iff : (∃ report, deriveRows derivation loadMeta rows = .ok report) ↔
    ∀ row ∈ rows, ∃ derived, deriveRow derivation loadMeta row = .ok derived := by
  constructor
  · rintro ⟨report, hreport⟩ row hrow
    obtain ⟨derived, hderived, -⟩ := bind_eq_ok_iff.mp hreport
    obtain ⟨result, -, hresult⟩ := exists_result_of_mapM_eq_ok hderived hrow
    exact ⟨result, hresult⟩
  · intro hall
    obtain ⟨derived, hderived⟩ := exists_mapM_eq_ok hall
    exact ⟨_, bind_eq_ok_iff.mpr ⟨derived, hderived, rfl⟩⟩

/-- The result of a loop over rows is what some row gives. -/
theorem mem_derived_iff {derived : List (EligibleProgram ⊕ RejectedProgram)}
    (hderived : rows.mapM (deriveRow derivation loadMeta) = .ok derived)
    {result : EligibleProgram ⊕ RejectedProgram} : result ∈ derived ↔
      ∃ row ∈ rows, deriveRow derivation loadMeta row = .ok result := by
  constructor
  · exact exists_of_mapM_eq_ok hderived
  · rintro ⟨row, hrow, hresult⟩
    obtain ⟨other, hother, hotherResult⟩ := exists_result_of_mapM_eq_ok hderived hrow
    rwa [Except.ok.inj (hresult.symm.trans hotherResult)]

theorem mem_eligibleRows (hreport : deriveRows derivation loadMeta rows = .ok report)
    {eligible : EligibleProgram} : eligible ∈ report.eligibleRows ↔
      ∃ row ∈ rows, deriveRow derivation loadMeta row = .ok (.inl eligible) := by
  obtain ⟨derived, hderived, hpure⟩ := bind_eq_ok_iff.mp hreport
  rw [← pure_eq_ok_iff.mp hpure, List.mem_insertionSort, List.mem_filterMap,
    ← mem_derived_iff hderived]
  simp only [Sum.getLeft?_eq_some_iff, exists_eq_right]

theorem mem_rejectedRows (hreport : deriveRows derivation loadMeta rows = .ok report)
    {rejected : RejectedProgram} : rejected ∈ report.rejectedRows ↔
      ∃ row ∈ rows, deriveRow derivation loadMeta row = .ok (.inr rejected) := by
  obtain ⟨derived, hderived, hpure⟩ := bind_eq_ok_iff.mp hreport
  rw [← pure_eq_ok_iff.mp hpure, List.mem_insertionSort, List.mem_filterMap,
    ← mem_derived_iff hderived]
  simp only [Sum.getRight?_eq_some_iff, exists_eq_right]

/-- The two files account for all rows. -/
theorem eligible_add_rejected (hreport : deriveRows derivation loadMeta rows = .ok report) :
    report.eligible + report.rejected = report.sourceTotal := by
  obtain ⟨derived, hderived, hpure⟩ := bind_eq_ok_iff.mp hreport
  rw [← pure_eq_ok_iff.mp hpure]
  exact (length_getLeft_add_length_getRight derived).trans
    (mapM_eq_ok_iff.mp hderived).length_eq.symm

theorem eligible_eq_length (hreport : deriveRows derivation loadMeta rows = .ok report) :
    report.eligible = report.eligibleRows.length := by
  obtain ⟨derived, -, hpure⟩ := bind_eq_ok_iff.mp hreport
  rw [← pure_eq_ok_iff.mp hpure]
  exact (List.length_insertionSort _ _).symm

theorem sourceTotal_eq_length (hreport : deriveRows derivation loadMeta rows = .ok report) :
    report.sourceTotal = rows.length := by
  obtain ⟨derived, -, hpure⟩ := bind_eq_ok_iff.mp hreport
  rw [← pure_eq_ok_iff.mp hpure]

/-- A row is eligible when nothing is held against its metadata. -/
theorem deriveRow_eq_inl_iff {row : SourceRow} {eligible : EligibleProgram} :
    deriveRow derivation loadMeta row = .ok (.inl eligible) ↔
      ∃ stored, loadMeta row.metaPath = .ok stored ∧ derivation.deriveRejection stored = .ok [] ∧
        eligible = derivation.eligibleRow row := by
  constructor
  · intro hresult
    obtain ⟨stored, hstored, hresult⟩ := bind_eq_ok_iff.mp hresult
    obtain ⟨reasons, hreasons, hpure⟩ := bind_eq_ok_iff.mp hresult
    have hresult := pure_eq_ok_iff.mp hpure
    split_ifs at hresult with hempty
    · rw [List.isEmpty_iff.mp hempty] at hreasons
      exact ⟨stored, hstored, hreasons, (Sum.inl.inj hresult).symm⟩
  · rintro ⟨stored, hstored, hreasons, rfl⟩
    exact bind_eq_ok_iff.mpr ⟨stored, hstored, bind_eq_ok_iff.mpr ⟨[], hreasons, rfl⟩⟩

/-- A result keeps the id of its row. -/
theorem programId_of_deriveRow {row : SourceRow} {result : EligibleProgram ⊕ RejectedProgram}
    (hresult : deriveRow derivation loadMeta row = .ok result) :
    result.elim EligibleProgram.programId RejectedProgram.programId = row.programId := by
  obtain ⟨stored, -, hresult⟩ := bind_eq_ok_iff.mp hresult
  obtain ⟨reasons, -, hpure⟩ := bind_eq_ok_iff.mp hresult
  rw [← pure_eq_ok_iff.mp hpure]
  split_ifs
  · rfl
  · rfl

/-- Both files are sorted by program when no two rows are of one program. -/
theorem pairwise_derived (hreport : deriveRows derivation loadMeta rows = .ok report)
    (hrows : (rows.map SourceRow.programId).Nodup) :
    (report.eligibleRows.Pairwise fun row next ↦ row.programId < next.programId) ∧
      report.rejectedRows.Pairwise fun row next ↦ row.programId < next.programId := by
  obtain ⟨derived, hderived, hpure⟩ := bind_eq_ok_iff.mp hreport
  rw [← pure_eq_ok_iff.mp hpure]
  have hpointwise := mapM_eq_ok_iff.mp hderived
  refine ⟨pairwise_lt_insertionSort (hrows.sublist (sublist_keys hpointwise ?_)),
    pairwise_lt_insertionSort (hrows.sublist (sublist_keys hpointwise ?_))⟩
  · intro row result eligible hresult heligible
    rw [← programId_of_deriveRow hresult, Sum.getLeft?_eq_some_iff.mp heligible]
    rfl
  · intro row result rejected hresult hrejected
    rw [← programId_of_deriveRow hresult, Sum.getRight?_eq_some_iff.mp hrejected]
    rfl

end Loop

/-! ### The candidate of the Asterinas workflow -/

/-- The configuration of `derive_asterinas_corpus.py`. -/
structure AsterinasConfig where
  workflow : PyStr
  acceptReasons : List PyStr
  syscalls : List PyStr
  memoryManagement : List PyStr
  processControl : List PyStr

/-- The body of the loop of `derive_rejection`. -/
def AsterinasConfig.unsupportedReason (cfg : AsterinasConfig) (fullName : PyStr) : Option PyStr :=
  let baseName := baseSyscallName fullName
  if fullName ≠ baseName ∧ fullName ∉ cfg.syscalls then
    some (PyStr.ofString "unsupported_variant")
  else if baseName ∈ cfg.syscalls then none
  else if baseName ∈ cfg.memoryManagement then
    some (PyStr.ofString "unsupported_memory_management")
  else if baseName ∈ cfg.processControl then
    some (PyStr.ofString "unsupported_process_control")
  else some (PyStr.ofString "unsupported_syscall")

/-- `derive_rejection`, for the names of a program. -/
def AsterinasConfig.unsupportedReasons (cfg : AsterinasConfig) (fullNames : List PyStr) :
    List PyStr :=
  noteAll [] (fullNames.filterMap cfg.unsupportedReason)

/-- `derive_asterinas_corpus.py`. -/
def AsterinasConfig.derivation (cfg : AsterinasConfig) : Derivation where
  workflow := cfg.workflow
  acceptReasons := cfg.acceptReasons
  deriveRejection stored := do
    return cfg.unsupportedReasons (← iterated stored.fullSyscallList)
  listsCalls := false

/-- A row of an eligible file, as a derivation loads it. -/
def EligibleProgram.sourceRow (row : EligibleProgram) : SourceRow where
  programId := row.programId
  workflow := some row.workflow
  normalizedPath := row.normalizedPath
  metaPath := row.metaPath

/-- The candidate supports a name when it lists the call and the variant. -/
theorem unsupportedReason_eq_none_iff {cfg : AsterinasConfig} {fullName : PyStr} :
    cfg.unsupportedReason fullName = none ↔
      fullName ∈ cfg.syscalls ∧ baseSyscallName fullName ∈ cfg.syscalls := by
  rw [AsterinasConfig.unsupportedReason]
  split_ifs with hvariant hbase hmemory hprocess
  · exact iff_of_false not_false fun h ↦ hvariant.2 h.1
  · refine iff_of_true rfl ⟨?_, hbase⟩
    by_contra hfull
    exact hvariant ⟨fun heq ↦ hfull (heq ▸ hbase), hfull⟩
  · exact iff_of_false not_false fun h ↦ hbase h.2
  · exact iff_of_false not_false fun h ↦ hbase h.2
  · exact iff_of_false not_false fun h ↦ hbase h.2

section Programs

variable {Prog : Type} {lib : ProgLibrary Prog} {paths : CorpusPaths} {runs : List ImportRun}
  {program : Prog} {cfg : AsterinasConfig} {allow : Allowlist}

/-- The candidate lists all calls of the program. -/
def Supports (cfg : AsterinasConfig) (lib : ProgLibrary Prog) (program : Prog) : Prop :=
  ∀ call ∈ lib.calls program,
    call.name ∈ cfg.syscalls ∧ baseSyscallName call.name ∈ cfg.syscalls

/-- The row of a program that the candidate supports. -/
def candidateRow (cfg : AsterinasConfig) (lib : ProgLibrary Prog) (paths : CorpusPaths)
    (program : Prog) : EligibleProgram :=
  cfg.derivation.eligibleRow (baselineRow lib paths program).sourceRow

/-- The row of a program that it does not support, with the reasons in the order of the names. -/
def unsupportedRow (cfg : AsterinasConfig) (lib : ProgLibrary Prog) (paths : CorpusPaths)
    (program : Prog) : RejectedProgram where
  programId := lib.programId program
  sourceWorkflow := baseline
  metaPath := (lib.config paths).metaPath (lib.programId program)
  normalizedPath := (lib.config paths).normalizedPath (lib.programId program)
  reasons := cfg.unsupportedReasons ((collectFullCalls (lib.calls program)).getD [])
  fullSyscallList := none

theorem exists_names (hcalls : lib.calls program ≠ []) :
    ∃ names, collectFullCalls (lib.calls program) = some names := by
  refine Option.ne_none_iff_exists'.mp fun hnone ↦ hcalls ?_
  rwa [collectFullCalls, sortedNames_eq_none_iff, List.map_eq_nil_iff] at hnone

theorem unsupportedReasons_eq_nil_iff {names : List PyStr}
    (hnames : collectFullCalls (lib.calls program) = some names) :
    cfg.unsupportedReasons names = [] ↔ Supports cfg lib program := by
  rw [AsterinasConfig.unsupportedReasons, noteAll_nil_eq_nil_iff, List.filterMap_eq_nil_iff,
    Supports]
  simp only [mem_of_sortedNames hnames, List.forall_mem_map, unsupportedReason_eq_none_iff]

/-- The verdict on a program of the baseline. -/
theorem deriveRow_baselineRow (cfg : AsterinasConfig) (paths : CorpusPaths)
    (hlib : lib.ReadsBack (Imported lib runs)) (himported : Imported lib runs program)
    (hcalls : lib.calls program ≠ []) :
    (Supports cfg lib program ∧ deriveRow cfg.derivation
        (importSession (lib.config paths) runs).loadMeta (baselineRow lib paths program).sourceRow =
          .ok (.inl (candidateRow cfg lib paths program))) ∨
      (¬ Supports cfg lib program ∧ deriveRow cfg.derivation
        (importSession (lib.config paths) runs).loadMeta (baselineRow lib paths program).sourceRow =
          .ok (.inr (unsupportedRow cfg lib paths program))) := by
  obtain ⟨⟨stored, hstored, hdescribes⟩, -⟩ := exists_stored paths hlib himported
  obtain ⟨names, hnames⟩ := exists_names hcalls
  have hload : (importSession (lib.config paths) runs).loadMeta
      (baselineRow lib paths program).sourceRow.metaPath = .ok stored :=
    loadMeta_eq_ok hstored
  have hreject : cfg.derivation.deriveRejection stored = .ok (cfg.unsupportedReasons names) := by
    show (do return cfg.unsupportedReasons (← iterated stored.fullSyscallList)) = _
    rw [hdescribes.fullSyscallList]
    show (do return cfg.unsupportedReasons (← iterated (collectFullCalls _))) = _
    rw [hnames]
    rfl
  rw [deriveRow, hload, ok_bind, hreject, ok_bind]
  by_cases hsupports : Supports cfg lib program
  · refine .inl ⟨hsupports, ?_⟩
    rw [(unsupportedReasons_eq_nil_iff hnames).mpr hsupports]
    rfl
  · refine .inr ⟨hsupports, ?_⟩
    rw [if_neg fun hempty ↦ hsupports
      ((unsupportedReasons_eq_nil_iff hnames).mp (List.isEmpty_iff.mp hempty)), unsupportedRow,
      hnames]
    rfl

/-- The derivation of the baseline never fails. Its eligible file holds the programs of the baseline
that the candidate supports, and its rejections the others, each once and sorted by id. -/
theorem deriveCorpus_filterCorpus (cfg : AsterinasConfig) (allow : Allowlist)
    (lib : ProgLibrary Prog) (paths : CorpusPaths) (runs : List ImportRun)
    (hlib : lib.ReadsBack (Imported lib runs)) {report : FilterReport}
    (hreport : filterCorpus allow (importSession (lib.config paths) runs) = .ok report) :
    ∃ derived, deriveRows cfg.derivation (importSession (lib.config paths) runs).loadMeta
        (report.eligibleRows.map EligibleProgram.sourceRow) = .ok derived ∧
      (derived.eligibleRows.Pairwise fun row next ↦ row.programId < next.programId) ∧
      (derived.rejectedRows.Pairwise fun row next ↦ row.programId < next.programId) ∧
      (∀ row, row ∈ derived.eligibleRows ↔ ∃ program, Imported lib runs program ∧
        Eligible allow lib program ∧ Supports cfg lib program ∧
          row = candidateRow cfg lib paths program) ∧
      ∀ row, row ∈ derived.rejectedRows ↔ ∃ program, Imported lib runs program ∧
        Eligible allow lib program ∧ ¬ Supports cfg lib program ∧
          row = unsupportedRow cfg lib paths program := by
  have hcalls : ∀ program, Imported lib runs program → lib.calls program ≠ [] := by
    intro program himported
    obtain ⟨judged, hjudged⟩ :=
      exists_filterCorpus_iff.mp ⟨report, hreport⟩ _ (himported.mem_metas paths)
    rw [judgeMeta_of_imported hlib himported] at hjudged
    exact exists_judgeProgram_iff.mp ⟨judged, hjudged⟩
  have hverdict : ∀ program, Imported lib runs program → _ ∨ _ := fun program himported ↦
    deriveRow_baselineRow cfg paths hlib himported (hcalls program himported)
  have hnodup : ((report.eligibleRows.map EligibleProgram.sourceRow).map
      SourceRow.programId).Nodup := by
    rw [List.map_map]
    exact List.pairwise_map.mpr ((pairwise_baseline hlib hreport).imp fun hlt ↦ ne_of_lt hlt)
  obtain ⟨derived, hderived⟩ : ∃ derived, deriveRows cfg.derivation
      (importSession (lib.config paths) runs).loadMeta
        (report.eligibleRows.map EligibleProgram.sourceRow) = .ok derived := by
    refine exists_deriveRows_iff.mpr fun row hrow ↦ ?_
    obtain ⟨source, hsource, rfl⟩ := List.mem_map.mp hrow
    obtain ⟨program, himported, -, rfl⟩ := (mem_baseline_iff hlib hreport).mp hsource
    obtain ⟨-, hresult⟩ | ⟨-, hresult⟩ := hverdict program himported
    · exact ⟨_, hresult⟩
    · exact ⟨_, hresult⟩
  obtain ⟨heligible, hrejected⟩ := pairwise_derived hderived hnodup
  have hsource : ∀ {program}, Imported lib runs program → Eligible allow lib program →
      (baselineRow lib paths program).sourceRow ∈
        report.eligibleRows.map EligibleProgram.sourceRow := fun himported hbaseline ↦
    List.mem_map_of_mem ((mem_baseline_iff hlib hreport).mpr ⟨_, himported, hbaseline, rfl⟩)
  refine ⟨derived, hderived, heligible, hrejected, fun row ↦ ?_, fun row ↦ ?_⟩
  · rw [mem_eligibleRows hderived]
    constructor
    · rintro ⟨_, hrow, hresult⟩
      obtain ⟨source, hmem, rfl⟩ := List.mem_map.mp hrow
      obtain ⟨program, himported, hbaseline, rfl⟩ := (mem_baseline_iff hlib hreport).mp hmem
      obtain ⟨hsupports, hverdict⟩ | ⟨-, hverdict⟩ := hverdict program himported
      · exact ⟨program, himported, hbaseline, hsupports,
          Sum.inl.inj (Except.ok.inj (hresult.symm.trans hverdict))⟩
      · cases hresult.symm.trans hverdict
    · rintro ⟨program, himported, hbaseline, hsupports, rfl⟩
      refine ⟨_, hsource himported hbaseline, ?_⟩
      obtain ⟨-, hverdict⟩ | ⟨hnot, -⟩ := hverdict program himported
      · exact hverdict
      · exact absurd hsupports hnot
  · rw [mem_rejectedRows hderived]
    constructor
    · rintro ⟨_, hrow, hresult⟩
      obtain ⟨source, hmem, rfl⟩ := List.mem_map.mp hrow
      obtain ⟨program, himported, hbaseline, rfl⟩ := (mem_baseline_iff hlib hreport).mp hmem
      obtain ⟨-, hverdict⟩ | ⟨hnot, hverdict⟩ := hverdict program himported
      · cases hresult.symm.trans hverdict
      · exact ⟨program, himported, hbaseline, hnot,
          Sum.inr.inj (Except.ok.inj (hresult.symm.trans hverdict))⟩
    · rintro ⟨program, himported, hbaseline, hnot, rfl⟩
      refine ⟨_, hsource himported hbaseline, ?_⟩
      obtain ⟨hsupports, -⟩ | ⟨-, hverdict⟩ := hverdict program himported
      · exact absurd hsupports hnot
      · exact hverdict

/-- A candidate that lists the one call. -/
def pidCandidate : AsterinasConfig where
  workflow := PyStr.ofString "asterinas"
  acceptReasons := [PyStr.ofString "supported_by_asterinas"]
  syscalls := [PyStr.ofString "getpid"]
  memoryManagement := [PyStr.ofString "mmap"]
  processControl := [PyStr.ofString "fork"]

/-- The programs `getpid()` and `getppid()`. -/
def pairName : Bool → PyStr
  | true => PyStr.ofString "getpid"
  | false => PyStr.ofString "getppid"

def pairText (program : Bool) : PyStr := pairName program ++ PyStr.ofString "()\n"

/-- The library as far as it reads the two programs. -/
def pairLibrary : ProgLibrary Bool where
  targetOs := PyStr.ofString "linux"
  arch := PyStr.ofString "amd64"
  calls program := [⟨pairName program, pairName program, [], false, 0, 0⟩]
  serialize := pairText
  deserialize _ text :=
    if text = pairText true then .ok true
    else if text = pairText false then .ok false
    else .error (PyStr.ofString "parse_error")
  sha256Hex text :=
    if text = pairText true then
      PyStr.ofString "4547de9010d99209e853d37bc1b2c6a78b69aaf2e4de4a9b05b74bbf575291b9"
    else PyStr.ofString "c4b93ffaa319049b7344042ea100c50fc87d8f36d3ec05e1e5308dee1c24624a"

def pairAllowlist : Allowlist :=
  { pidAllowlist with syscalls := [PyStr.ofString "getpid", PyStr.ofString "getppid"] }

/-- A run over a file for each of the two programs. -/
def pairRun : ImportRun where
  source := .seed
  strict := true
  files := [⟨PyStr.ofString "inputs/a.syz", pairText false⟩,
    ⟨PyStr.ofString "inputs/b.syz", pairText true⟩]
  completion := List.reverse
  completion_perm := List.reverse_perm
  nodup_paths := by decide

theorem readsBack_pairLibrary (programs : Bool → Prop) : pairLibrary.ReadsBack programs where
  deserialize program _ := by
    cases program
    · rfl
    · rfl
  collision first second _ _ hid := by
    cases first <;> cases second
    · rfl
    · exact absurd hid (by decide)
    · exact absurd hid (by decide)
    · rfl

theorem reads_pairRun (program : Bool) : pairRun.Reads pairLibrary program where
  decodes := by
    intro file hfile
    rcases List.mem_pair.mp hfile with rfl | rfl
    · exact ⟨pairText false, by decide⟩
    · exact ⟨pairText true, by decide⟩
  found := by
    cases program
    · exact ⟨_, List.mem_cons_self, pairText false, by decide, by decide, rfl⟩
    · exact ⟨_, List.mem_cons_of_mem _ List.mem_cons_self, pairText true, by decide, by decide,
        rfl⟩

theorem eligible_pairLibrary (program : Bool) : Eligible pairAllowlist pairLibrary program where
  names := List.forall_mem_singleton.mpr (callReasons_eq_nil_iff.mp (by revert program; decide))
  notPseudo := List.forall_mem_singleton.mpr (by revert program; decide)
  sequential := List.forall_mem_singleton.mpr ⟨rfl, le_refl 0, le_refl 0⟩
  nonblocking := blockingRead_nil_eq_false_iff.mp (by revert program; decide)

/-- The candidate supports one of the two programs. -/
theorem deriveCorpus_filterCorpus_pairRun : ∃ report derived,
    filterCorpus pairAllowlist (importSession (pairLibrary.config pidPaths) [pairRun]) =
        .ok report ∧
      deriveRows pidCandidate.derivation
          (importSession (pairLibrary.config pidPaths) [pairRun]).loadMeta
          (report.eligibleRows.map EligibleProgram.sourceRow) = .ok derived ∧
      candidateRow pidCandidate pairLibrary pidPaths true ∈ derived.eligibleRows ∧
      unsupportedRow pidCandidate pairLibrary pidPaths false ∈ derived.rejectedRows := by
  have himported : ∀ program, Imported pairLibrary [pairRun] program := fun program ↦
    ⟨pairRun, List.mem_singleton_self _, reads_pairRun program⟩
  obtain ⟨report, hreport⟩ := (filterCorpus_importSession pairAllowlist pairLibrary pidPaths
    [pairRun] (readsBack_pairLibrary _)).1.mpr fun _ _ ↦ List.cons_ne_nil _ _
  obtain ⟨derived, hderived, -, -, heligible, hrejected⟩ := deriveCorpus_filterCorpus pidCandidate
    pairAllowlist pairLibrary pidPaths [pairRun] (readsBack_pairLibrary _) hreport
  have hsupports : Supports pidCandidate pairLibrary true :=
    List.forall_mem_singleton.mpr (by decide)
  have hlacks : ¬Supports pidCandidate pairLibrary false :=
    List.forall_mem_singleton.not.mpr (by decide)
  exact ⟨report, derived, hreport, hderived,
    (heligible _).mpr ⟨true, himported true, eligible_pairLibrary true, hsupports, rfl⟩,
    (hrejected _).mpr ⟨false, himported false, eligible_pairLibrary false, hlacks, rfl⟩⟩

end Programs

end SyzAbi.Tools.ImportSyz

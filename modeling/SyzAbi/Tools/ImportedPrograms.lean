import SyzAbi.Tools.ImportSyz

/-!
# The imported programs

What the corpus holds after a session, in terms of the programs that the syzkaller library reads in
the input files. A run that can decode all its files imports the programs it can read in them
(`ImportRun.Reads`), and the files of the corpus are those of the imported programs
(`mem_metas_iff`, `exists_stored`).
-/

set_option autoImplicit false
set_option relaxedAutoImplicit false

namespace SyzAbi.Tools.ImportSyz

open Analyzer Orchestrator Library.Fallible

/-! ### The inputs of a run -/

variable {cfg : ImportConfig}

/-- What a run makes of the text of a file. -/
structure Accepts (cfg : ImportConfig) (run : ImportRun) (file : InputFile)
    (input : AcceptedInput) : Prop where
  source : input.source = run.source
  strict : input.strict = run.strict
  path : input.path = file.path
  prepared : ∃ raw, readTextFile file.bytes = .ok raw ∧
    input.preparedText = preprocessText run.source raw
  notBlank : strip input.preparedText ≠ []
  inspected : cfg.inspect run.strict input.preparedText = .ok input.info

theorem verdict_eq_ok_iff {strict : Bool} {preparedText : PyStr} {info : ProgramInfo} :
    (if (strip preparedText).isEmpty then
      .error (parseError, PyStr.ofString "empty_candidate_program")
    else (cfg.inspect strict preparedText).mapError fun detail ↦ (parseError, detail)) =
      Except.ok info ↔ strip preparedText ≠ [] ∧ cfg.inspect strict preparedText = .ok info := by
  split_ifs with hempty
  · simp [List.isEmpty_iff.mp hempty]
  · rw [List.isEmpty_iff] at hempty
    cases cfg.inspect strict preparedText <;> simp [Except.mapError, hempty]

/-- A file gives an input when its text is not blank and the inspector accepts it. -/
theorem input_eq_some_iff {run : ImportRun} {file : InputFile} {result : Inspected}
    (hresult : inspectCandidate cfg run.source run.strict file = .ok result)
    (input : AcceptedInput) :
    result.input run.source run.strict = some input ↔ Accepts cfg run file input := by
  obtain ⟨raw, hraw, hpure⟩ := bind_eq_ok_iff.mp hresult
  rw [← pure_eq_ok_iff.mp hpure, Inspected.input]
  constructor
  · intro hinput
    split at hinput
    · next info hverdict =>
      obtain ⟨hne, hinspect⟩ := verdict_eq_ok_iff.mp hverdict
      rw [← Option.some.inj hinput]
      exact ⟨rfl, rfl, rfl, ⟨raw, hraw, rfl⟩, hne, hinspect⟩
    · cases hinput
  · obtain ⟨source, strict, path, preparedText, info⟩ := input
    rintro ⟨rfl, rfl, rfl, ⟨text, htext, rfl⟩, hne, hinspect⟩
    obtain rfl := Except.ok.inj (hraw.symm.trans htext)
    rw [verdict_eq_ok_iff.mpr ⟨hne, hinspect⟩]

/-- What a run accepts, when it can decode all its files. -/
theorem mem_acceptedInputs_iff {run : ImportRun} {input : AcceptedInput} :
    input ∈ acceptedInputs cfg run ↔
      (∀ file ∈ run.files, ∃ raw, readTextFile file.bytes = .ok raw) ∧
        ∃ file ∈ run.files, Accepts cfg run file input := by
  have hdecodes : ∀ file, (∃ result, inspectCandidate cfg run.source run.strict file = .ok result) ↔
      ∃ raw, readTextFile file.bytes = .ok raw := fun file ↦
    ⟨fun ⟨_, hresult⟩ ↦ have ⟨raw, hraw, _⟩ := bind_eq_ok_iff.mp hresult; ⟨raw, hraw⟩,
      fun ⟨raw, hraw⟩ ↦ ⟨_, bind_eq_ok_iff.mpr ⟨raw, hraw, rfl⟩⟩⟩
  rw [acceptedInputs]
  constructor
  · intro hinput
    split at hinput
    · next results hresults =>
      refine ⟨fun file hfile ↦ ?_, ?_⟩
      · obtain ⟨result, -, hresult⟩ := exists_result_of_mapM_eq_ok hresults hfile
        exact (hdecodes file).mp ⟨result, hresult⟩
      · obtain ⟨result, hmem, hinput⟩ := List.mem_filterMap.mp hinput
        rw [sortByPath, List.mem_insertionSort] at hmem
        obtain ⟨file, hfile, hresult⟩ := exists_of_mapM_eq_ok hresults hmem
        exact ⟨file, hfile, (input_eq_some_iff hresult input).mp hinput⟩
    · cases hinput
  · rintro ⟨hall, file, hfile, haccepts⟩
    obtain ⟨results, hresults⟩ := exists_mapM_eq_ok fun file hfile ↦
      (hdecodes file).mpr (hall file hfile)
    obtain ⟨result, hmem, hresult⟩ := exists_result_of_mapM_eq_ok hresults hfile
    rw [hresults]
    refine List.mem_filterMap.mpr ⟨result, ?_, (input_eq_some_iff hresult input).mpr haccepts⟩
    rwa [sortByPath, List.mem_insertionSort]

/-! ### Programs -/

section Programs

variable {Prog : Type} (lib : ProgLibrary Prog)

/-- The run can decode all its files, and the library reads this program in one of them. -/
structure ImportRun.Reads (run : ImportRun) (program : Prog) : Prop where
  decodes : ∀ file ∈ run.files, ∃ raw, readTextFile file.bytes = .ok raw
  found : ∃ file ∈ run.files, ∃ raw, readTextFile file.bytes = .ok raw ∧
    strip (preprocessText run.source raw) ≠ [] ∧
    lib.deserialize run.strict (preprocessText run.source raw) = .ok program

/-- Some run of a session reads the program. -/
def Imported (runs : List ImportRun) (program : Prog) : Prop :=
  ∃ run ∈ runs, run.Reads lib program

variable {lib} {paths : CorpusPaths} {runs : List ImportRun} {program : Prog}

theorem inspectProgram_eq_ok_iff {strict : Bool} {text : PyStr} {info : ProgramInfo} :
    lib.inspectProgram strict text = .ok info ↔
      ∃ program, lib.deserialize strict text = .ok program ∧ info = lib.info program := by
  rw [ProgLibrary.inspectProgram]
  cases lib.deserialize strict text with
  | error detail =>
    exact iff_of_false (fun h ↦ nomatch h) fun ⟨_, h, _⟩ ↦ nomatch h
  | ok program =>
    exact ⟨fun h ↦ ⟨program, rfl, (Except.ok.inj h).symm⟩, fun ⟨_, hprogram, hinfo⟩ ↦
      hinfo ▸ Except.ok.inj hprogram ▸ rfl⟩

/-- An accepted input is a program that is imported. -/
theorem exists_imported {input : AcceptedInput}
    (hinput : input ∈ sessionInputs (lib.config paths) runs) :
    ∃ program, Imported lib runs program ∧ input.info = lib.info program := by
  obtain ⟨run, hrun, hinput⟩ := List.mem_flatMap.mp hinput
  obtain ⟨hall, file, hfile, haccepts⟩ := mem_acceptedInputs_iff.mp hinput
  obtain ⟨raw, hraw, hprepared⟩ := haccepts.prepared
  obtain ⟨program, hprogram, hinfo⟩ := inspectProgram_eq_ok_iff.mp haccepts.inspected
  refine ⟨program, ⟨run, hrun, hall, file, hfile, raw, hraw, ?_, ?_⟩, hinfo⟩
  · exact hprepared ▸ haccepts.notBlank
  · exact hprepared ▸ hprogram

theorem exists_input (paths : CorpusPaths) (himported : Imported lib runs program) :
    ∃ input ∈ sessionInputs (lib.config paths) runs, input.info = lib.info program := by
  obtain ⟨run, hrun, hall, file, hfile, raw, hraw, hne, hprogram⟩ := himported
  refine ⟨⟨run.source, run.strict, file.path, preprocessText run.source raw, lib.info program⟩,
    List.mem_flatMap.mpr ⟨run, hrun, mem_acceptedInputs_iff.mpr ⟨hall, file, hfile, ?_⟩⟩, rfl⟩
  exact ⟨rfl, rfl, rfl, ⟨raw, hraw, rfl⟩, hne,
    inspectProgram_eq_ok_iff.mpr ⟨program, hprogram, rfl⟩⟩

/-- The metadata files are those of the imported programs. -/
theorem mem_metas_iff {path : PyStr} :
    path ∈ (importSession (lib.config paths) runs).metas ↔
      ∃ program, Imported lib runs program ∧
        path = (lib.config paths).metaPath (lib.programId program) := by
  have hholds := holds_importSession (lib.config paths) runs
  constructor
  · intro hpath
    obtain ⟨input, hinput, rfl⟩ := hholds.metas_keys path hpath
    obtain ⟨program, himported, hinfo⟩ := exists_imported hinput
    exact ⟨program, himported, by rw [hinfo]; rfl⟩
  · rintro ⟨program, himported, rfl⟩
    obtain ⟨input, hinput, hinfo⟩ := exists_input paths himported
    have hmem : input ∈ inputsOf (sessionInputs (lib.config paths) runs) (lib.programId program) :=
      List.mem_filter.mpr ⟨hinput, decide_eq_true (by rw [hinfo]; rfl)⟩
    obtain ⟨first, rest, hcons⟩ := List.exists_cons_of_ne_nil (List.ne_nil_of_mem hmem)
    rw [← AList.lookup_isSome, hholds.metas, hcons]
    rfl

theorem Imported.mem_metas (himported : Imported lib runs program) (paths : CorpusPaths) :
    (lib.config paths).metaPath (lib.programId program) ∈
      (importSession (lib.config paths) runs).metas :=
  mem_metas_iff.mpr ⟨program, himported, rfl⟩

/-- The metadata of a program, whichever input it was stored for. -/
structure ProgramMeta.Describes (stored : ProgramMeta) (cfg : ImportConfig) (info : ProgramInfo) :
    Prop where
  programId : stored.programId = info.programId
  fullSyscallList : stored.fullSyscallList = info.fullSyscallList
  usesPseudoSyscalls : stored.usesPseudoSyscalls = info.usesPseudoSyscalls
  usesThreadingSensitiveFeatures :
    stored.usesThreadingSensitiveFeatures = info.usesThreadingSensitiveFeatures
  normalizedPath : stored.normalizedPath = cfg.normalizedPath info.programId

/-- What is stored for an imported program: its metadata, and its normalized text. -/
theorem exists_stored (paths : CorpusPaths) (hlib : lib.ReadsBack (Imported lib runs))
    (himported : Imported lib runs program) :
    (∃ stored, (importSession (lib.config paths) runs).metas.lookup
        ((lib.config paths).metaPath (lib.programId program)) = some stored ∧
      stored.Describes (lib.config paths) (lib.info program)) ∧
      (importSession (lib.config paths) runs).normalized.lookup
          ((lib.config paths).normalizedPath (lib.programId program)) =
        some (lib.normalized program) := by
  have hholds := holds_importSession (lib.config paths) runs
  obtain ⟨input, hinput, hinfo⟩ := exists_input paths himported
  have hmem : input ∈ inputsOf (sessionInputs (lib.config paths) runs) (lib.programId program) :=
    List.mem_filter.mpr ⟨hinput, decide_eq_true (by rw [hinfo]; rfl)⟩
  obtain ⟨first, rest, hcons⟩ := List.exists_cons_of_ne_nil (List.ne_nil_of_mem hmem)
  have hfirst : first.info = lib.info program := by
    have hfirstMem := hcons ▸ List.mem_cons_self (a := first) (l := rest)
    obtain ⟨hinputs, hid⟩ := List.mem_filter.mp hfirstMem
    obtain ⟨other, hother, hinfo⟩ := exists_imported hinputs
    rw [hinfo] at hid
    rw [hinfo, hlib.injective hother himported (of_decide_eq_true hid)]
  rw [hholds.metas, hholds.normalized, hcons, metaOf, hfirst]
  refine ⟨⟨_, rfl, rfl, rfl, rfl, rfl, rfl⟩, ?_⟩
  rw [List.head?_cons, Option.map_some, hfirst]
  rfl

end Programs

end SyzAbi.Tools.ImportSyz

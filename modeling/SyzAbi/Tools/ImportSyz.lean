import Mathlib.Data.List.AList
import SyzAbi.Tools.InspectProgram
import SyzAbi.Tools.ProgramText

/-!
# The corpus

`tools/import_syz.py` imports a directory of programs. A pool of threads prepares and inspects the
files, in any order; the results are then sorted by path and worked off one by one. A program is
stored under its id, the hash of its normalized text, and a later input with the same program is
noted as a duplicate in the metadata.

Whatever runs there were, in whatever order their threads completed, every accepted input is noted
once, under its program, in the order of the runs and of the paths (`recordedInputs_importSession`),
and each run accounts for every file (`importMain_accounts`).

The inspector is a command that answers for a text. Directories hold files by path.
-/

set_option autoImplicit false
set_option relaxedAutoImplicit false

namespace SyzAbi.Tools.ImportSyz

open Analyzer Orchestrator Library.Fallible

/-! ### Records -/

/-- `ProgramMeta`. -/
structure ProgramMeta where
  programId : PyStr
  source : SourceType
  targetOs : PyStr
  arch : PyStr
  syscallList : Option (List PyStr)
  fullSyscallList : Option (List PyStr)
  resourceClasses : Option (List PyStr)
  usesPseudoSyscalls : Bool
  usesThreadingSensitiveFeatures : Bool
  originalPath : PyStr
  normalizedPath : PyStr
  rawPath : PyStr
  callCount : ℕ
  duplicateInputs : List PyStr := []
  deriving DecidableEq

/-- The metadata of a rejected input. -/
structure RejectedMeta where
  rejectId : PyStr
  source : SourceType
  originalPath : PyStr
  reason : PyStr
  detail : PyStr

/-- The files of a directory, by path. -/
abbrev FilesOf (α : Type) := AList fun _ : PyStr ↦ α

/-- The directories of the corpus. -/
structure Corpus where
  raw : FilesOf PyStr := ∅
  normalized : FilesOf PyStr := ∅
  metas : FilesOf ProgramMeta := ∅
  rejected : FilesOf PyStr := ∅
  rejectedMetas : FilesOf RejectedMeta := ∅

/-- The configured paths. -/
structure CorpusPaths where
  corpusRaw : PyStr
  corpusNormalized : PyStr
  corpusMeta : PyStr
  corpusRejected : PyStr

/-- The configured paths, the inspector with its strict flag, and `sha256_text`. -/
structure ImportConfig extends CorpusPaths where
  inspect : Bool → PyStr → Except PyStr ProgramInfo
  sha256Text : PyStr → PyStr

/-- An input file. -/
structure InputFile where
  path : PyStr
  bytes : List ℕ

/-- What `inspect_candidate` returns: a rejection has a reason and a detail. -/
structure Inspected where
  path : PyStr
  preparedText : PyStr
  verdict : Except (PyStr × PyStr) ProgramInfo

/-- The counters of a run. -/
structure Summary where
  imported : ℕ := 0
  duplicate : ℕ := 0
  rejected : ℕ := 0
  reasons : List PyStr := []

def parseError : PyStr := PyStr.ofString "parse_error"

/-- `root / (name + suffix)`. -/
def filePath (root name : PyStr) (suffix : String) : PyStr :=
  root ++ 47 :: name ++ PyStr.ofString suffix

variable (cfg : ImportConfig)

/-- The configuration with the inspector of a library. -/
def ProgLibrary.config {Prog : Type} (lib : ProgLibrary Prog) (paths : CorpusPaths) :
    ImportConfig where
  toCorpusPaths := paths
  inspect := lib.inspectProgram
  sha256Text := lib.sha256Hex

def ImportConfig.rawPath (id : PyStr) : PyStr := filePath cfg.corpusRaw id ".syz"

def ImportConfig.normalizedPath (id : PyStr) : PyStr := filePath cfg.corpusNormalized id ".syz"

def ImportConfig.metaPath (id : PyStr) : PyStr := filePath cfg.corpusMeta id ".json"

/-! ### A run -/

/-- `inspect_candidate`. -/
def inspectCandidate (source : SourceType) (strict : Bool) (file : InputFile) :
    Except PyError Inspected := do
  let preparedText := preprocessText source (← readTextFile file.bytes)
  return {
    path := file.path
    preparedText := preparedText
    verdict :=
      if (strip preparedText).isEmpty then
        .error (parseError, PyStr.ofString "empty_candidate_program")
      else (cfg.inspect strict preparedText).mapError fun detail ↦ (parseError, detail) }

/-- `store_rejected`. -/
def storeRejected (source : SourceType) (result : Inspected) (reason detail : PyStr)
    (corpus : Corpus) : Corpus :=
  let rejectId := cfg.sha256Text (result.path ++ 58 :: result.preparedText ++ 58 :: reason)
  { corpus with
    rejected := corpus.rejected.insert (filePath cfg.corpusRejected rejectId ".syz")
      result.preparedText
    rejectedMetas := corpus.rejectedMetas.insert (filePath cfg.corpusRejected rejectId ".json")
      ⟨rejectId, source, result.path, reason, detail⟩ }

/-- The metadata of a program that is new. -/
def programMeta (source : SourceType) (path : PyStr) (info : ProgramInfo) : ProgramMeta where
  programId := info.programId
  source := source
  targetOs := info.targetOs
  arch := info.arch
  syscallList := info.syscallList
  fullSyscallList := info.fullSyscallList
  resourceClasses := info.resourceClasses
  usesPseudoSyscalls := info.usesPseudoSyscalls
  usesThreadingSensitiveFeatures := info.usesThreadingSensitiveFeatures
  originalPath := path
  normalizedPath := cfg.normalizedPath info.programId
  rawPath := cfg.rawPath info.programId
  callCount := info.callCount

/-- The body of the loop of `main`. -/
def importResult (source : SourceType) (state : Corpus × Summary) (result : Inspected) :
    Corpus × Summary :=
  let (corpus, summary) := state
  match result.verdict with
  | .error (reason, detail) =>
    (storeRejected cfg source result reason detail corpus,
      { summary with rejected := summary.rejected + 1, reasons := summary.reasons ++ [reason] })
  | .ok info =>
    let metaPath := cfg.metaPath info.programId
    match corpus.metas.lookup metaPath with
    | some existing =>
      ({ corpus with
          metas := corpus.metas.insert metaPath
            { existing with duplicateInputs := existing.duplicateInputs ++ [result.path] } },
        { summary with duplicate := summary.duplicate + 1 })
    | none =>
      ({ corpus with
          raw := corpus.raw.insert (cfg.rawPath info.programId) result.preparedText
          normalized := corpus.normalized.insert (cfg.normalizedPath info.programId)
            info.normalizedSyz
          metas := corpus.metas.insert metaPath (programMeta cfg source result.path info) },
        { summary with imported := summary.imported + 1 })

/-- `sorted(results, key=lambda item: str(item["path"]))`. -/
def sortByPath (results : List Inspected) : List Inspected :=
  results.insertionSort fun result other ↦ result.path ≤ other.path

/-- The arguments of a run, the files it finds, and the order in which its threads complete. -/
structure ImportRun where
  source : SourceType
  strict : Bool
  files : List InputFile
  completion : List Inspected → List Inspected
  completion_perm : ∀ results, (completion results).Perm results
  nodup_paths : (files.map InputFile.path).Nodup

/-- `main`. A file that cannot be decoded stops the run before it writes anything. -/
def importMain (run : ImportRun) (corpus : Corpus) : Except PyError (Corpus × Summary) := do
  let results ← run.files.mapM (inspectCandidate cfg run.source run.strict)
  return (sortByPath (run.completion results)).foldl (importResult cfg run.source) (corpus, {})

/-- The corpus after a run. -/
def importCorpus (corpus : Corpus) (run : ImportRun) : Corpus :=
  match importMain cfg run corpus with
  | .ok (imported, _) => imported
  | .error _ => corpus

/-- The corpus after the runs of a session. -/
def importSession (runs : List ImportRun) : Corpus := runs.foldl (importCorpus cfg) {}

/-! ### Accepted inputs -/

/-- An input that was accepted, with the options of its run. -/
structure AcceptedInput where
  source : SourceType
  strict : Bool
  path : PyStr
  preparedText : PyStr
  info : ProgramInfo

/-- The input of a result that is accepted. -/
def Inspected.input (source : SourceType) (strict : Bool) (result : Inspected) :
    Option AcceptedInput :=
  match result.verdict with
  | .ok info => some ⟨source, strict, result.path, result.preparedText, info⟩
  | .error _ => none

/-- The inputs that a run accepts, by path. -/
def acceptedInputs (run : ImportRun) : List AcceptedInput :=
  match run.files.mapM (inspectCandidate cfg run.source run.strict) with
  | .ok results => (sortByPath results).filterMap (Inspected.input run.source run.strict)
  | .error _ => []

/-- The inputs that the runs of a session accept. -/
def sessionInputs (runs : List ImportRun) : List AcceptedInput := runs.flatMap (acceptedInputs cfg)

/-- The inputs with a program. -/
def inputsOf (inputs : List AcceptedInput) (id : PyStr) : List AcceptedInput :=
  inputs.filter fun input ↦ input.info.programId = id

/-- The metadata of a program after these inputs. -/
def metaOf : List AcceptedInput → Option ProgramMeta
  | [] => none
  | first :: rest => some { programMeta cfg first.source first.path first.info with
      duplicateInputs := rest.map AcceptedInput.path }

/-- The corpus is what these inputs leave in an empty one. -/
structure Holds (inputs : List AcceptedInput) (corpus : Corpus) : Prop where
  metas : ∀ id, corpus.metas.lookup (cfg.metaPath id) = metaOf cfg (inputsOf inputs id)
  normalized : ∀ id, corpus.normalized.lookup (cfg.normalizedPath id) =
    (inputsOf inputs id).head?.map fun first ↦ first.info.normalizedSyz
  raw : ∀ id, corpus.raw.lookup (cfg.rawPath id) =
    (inputsOf inputs id).head?.map AcceptedInput.preparedText
  metas_keys : ∀ path ∈ corpus.metas, ∃ input ∈ inputs, path = cfg.metaPath input.info.programId
  raw_keys : ∀ path ∈ corpus.raw, ∃ input ∈ inputs, path = cfg.rawPath input.info.programId

theorem filePath_inj {root name other : PyStr} {suffix : String} :
    filePath root name suffix = filePath root other suffix ↔ name = other := by
  rw [filePath, filePath, List.append_assoc, List.append_assoc, List.append_cancel_left_eq,
    List.cons_append, List.cons_append, List.cons_inj_right, List.append_cancel_right_eq]

variable {cfg} {inputs : List AcceptedInput} {corpus : Corpus}

theorem inputsOf_concat (inputs : List AcceptedInput) (input : AcceptedInput) (id : PyStr) :
    inputsOf (inputs ++ [input]) id =
      inputsOf inputs id ++ if input.info.programId = id then [input] else [] := by
  rw [inputsOf, List.filter_append, inputsOf]
  split_ifs with hid <;> simp [hid]

theorem metaOf_concat (first input : AcceptedInput) (rest : List AcceptedInput) :
    metaOf cfg (first :: rest ++ [input]) = (metaOf cfg (first :: rest)).map fun existing ↦
      { existing with duplicateInputs := existing.duplicateInputs ++ [input.path] } := by
  simp [metaOf]

theorem Holds.empty : Holds cfg [] {} where
  metas _ := rfl
  normalized _ := rfl
  raw _ := rfl
  metas_keys _ hpath := absurd hpath (AList.notMem_empty _)
  raw_keys _ hpath := absurd hpath (AList.notMem_empty _)

theorem inputsOf_concat_self (inputs : List AcceptedInput) (input : AcceptedInput) :
    inputsOf (inputs ++ [input]) input.info.programId =
      inputsOf inputs input.info.programId ++ [input] := by
  rw [inputsOf_concat, if_pos rfl]

theorem inputsOf_concat_of_ne (inputs : List AcceptedInput) {input : AcceptedInput} {id : PyStr}
    (hid : id ≠ input.info.programId) : inputsOf (inputs ++ [input]) id = inputsOf inputs id := by
  rw [inputsOf_concat, if_neg hid.symm, List.append_nil]

/-- A directory with one more file under the path of a program. -/
theorem lookup_insert_path {α : Type} {files : FilesOf α} {root name : PyStr} {suffix : String}
    {file : α} {found : PyStr → Option α}
    (hfiles : ∀ other, files.lookup (filePath root other suffix) = found other) (other : PyStr) :
    (files.insert (filePath root name suffix) file).lookup (filePath root other suffix) =
      if other = name then some file else found other := by
  split_ifs with hname
  · rw [hname, AList.lookup_insert]
  · rw [AList.lookup_insert_ne (mt filePath_inj.mp hname), hfiles]

/-- The directory keeps the paths it had, and gains one. -/
theorem forall_keys_insert {α : Type} {files : FilesOf α} {path : PyStr} {file : α}
    {pathOf : AcceptedInput → PyStr} (input : AcceptedInput)
    (hfiles : ∀ other ∈ files, ∃ input ∈ inputs, other = pathOf input)
    (hpath : path = pathOf input) :
    ∀ other ∈ files.insert path file, ∃ earlier ∈ inputs ++ [input], other = pathOf earlier := by
  intro other hother
  rcases (AList.mem_insert _).mp hother with rfl | hknown
  · exact ⟨input, List.mem_append_right _ (List.mem_singleton_self _), hpath⟩
  · obtain ⟨earlier, hearlier, heq⟩ := hfiles other hknown
    exact ⟨earlier, List.mem_append_left _ hearlier, heq⟩

/-- A program that is new is stored. -/
theorem Holds.store (hholds : Holds cfg inputs corpus) {input : AcceptedInput}
    (hnew : inputsOf inputs input.info.programId = []) :
    Holds cfg (inputs ++ [input]) { corpus with
      raw := corpus.raw.insert (cfg.rawPath input.info.programId) input.preparedText
      normalized := corpus.normalized.insert (cfg.normalizedPath input.info.programId)
        input.info.normalizedSyz
      metas := corpus.metas.insert (cfg.metaPath input.info.programId)
        (programMeta cfg input.source input.path input.info) } where
  metas id := by
    refine (lookup_insert_path hholds.metas id).trans ?_
    split_ifs with hid
    · rw [hid, inputsOf_concat_self, hnew]
      rfl
    · rw [inputsOf_concat_of_ne _ hid]
  normalized id := by
    refine (lookup_insert_path hholds.normalized id).trans ?_
    split_ifs with hid
    · rw [hid, inputsOf_concat_self, hnew]
      rfl
    · rw [inputsOf_concat_of_ne _ hid]
  raw id := by
    refine (lookup_insert_path hholds.raw id).trans ?_
    split_ifs with hid
    · rw [hid, inputsOf_concat_self, hnew]
      rfl
    · rw [inputsOf_concat_of_ne _ hid]
  metas_keys := forall_keys_insert input hholds.metas_keys rfl
  raw_keys := forall_keys_insert input hholds.raw_keys rfl

/-- A program that is known gets a duplicate. -/
theorem Holds.note (hholds : Holds cfg inputs corpus) {input : AcceptedInput}
    {existing : ProgramMeta}
    (hknown : metaOf cfg (inputsOf inputs input.info.programId) = some existing) :
    Holds cfg (inputs ++ [input]) { corpus with
      metas := corpus.metas.insert (cfg.metaPath input.info.programId)
        { existing with duplicateInputs := existing.duplicateInputs ++ [input.path] } } := by
  obtain ⟨first, rest, hcons⟩ : ∃ first rest,
      inputsOf inputs input.info.programId = first :: rest := by
    refine List.exists_cons_of_ne_nil fun hnil ↦ ?_
    rw [hnil] at hknown
    cases hknown
  have hhead : ∀ id, (inputsOf (inputs ++ [input]) id).head? = (inputsOf inputs id).head? := by
    intro id
    by_cases hid : id = input.info.programId
    · rw [hid, inputsOf_concat_self, hcons]
      rfl
    · rw [inputsOf_concat_of_ne _ hid]
  refine ⟨fun id ↦ ?_, fun id ↦ ?_, fun id ↦ ?_, forall_keys_insert input hholds.metas_keys rfl,
    fun path hpath ↦ ?_⟩
  · refine (lookup_insert_path hholds.metas id).trans ?_
    split_ifs with hid
    · rw [hid, inputsOf_concat_self, hcons, metaOf_concat, ← hcons, hknown]
      rfl
    · rw [inputsOf_concat_of_ne _ hid]
  · rw [hhead]
    exact hholds.normalized id
  · rw [hhead]
    exact hholds.raw id
  · obtain ⟨earlier, hearlier, heq⟩ := hholds.raw_keys path hpath
    exact ⟨earlier, List.mem_append_left _ hearlier, heq⟩

/-- One result leaves the corpus of one more input, if it is accepted. -/
theorem Holds.importResult (hholds : Holds cfg inputs corpus) (source : SourceType) (strict : Bool)
    (summary : Summary) (result : Inspected) :
    Holds cfg (inputs ++ (result.input source strict).toList)
      (ImportSyz.importResult cfg source (corpus, summary) result).1 := by
  cases hverdict : result.verdict with
  | error rejection =>
    rw [Inspected.input, ImportSyz.importResult, hverdict, Option.toList_none, List.append_nil]
    exact ⟨hholds.metas, hholds.normalized, hholds.raw, hholds.metas_keys, hholds.raw_keys⟩
  | ok info =>
    rw [Inspected.input, ImportSyz.importResult, hverdict, Option.toList_some]
    have hlookup := hholds.metas info.programId
    cases hknown : corpus.metas.lookup (cfg.metaPath info.programId) with
    | none =>
      have hnew : inputsOf inputs info.programId = [] := by
        rw [hknown] at hlookup
        cases hinputs : inputsOf inputs info.programId with
        | nil => rfl
        | cons first rest =>
          rw [hinputs] at hlookup
          cases hlookup
      simp only [hknown]
      exact hholds.store hnew
    | some existing =>
      simp only [hknown]
      exact hholds.note (hlookup.symm.trans hknown)

theorem Holds.importResults (hholds : Holds cfg inputs corpus) (source : SourceType)
    (strict : Bool) (summary : Summary) (results : List Inspected) :
    Holds cfg (inputs ++ results.filterMap (Inspected.input source strict))
      (results.foldl (ImportSyz.importResult cfg source) (corpus, summary)).1 := by
  induction results generalizing inputs corpus summary with
  | nil => rwa [List.filterMap_nil, List.append_nil]
  | cons result rest ih =>
    have hrest := ih (hholds.importResult source strict summary result)
      (ImportSyz.importResult cfg source (corpus, summary) result).2
    have hcons : (result :: rest).filterMap (Inspected.input source strict) =
        (result.input source strict).toList ++ rest.filterMap (Inspected.input source strict) := by
      rw [List.filterMap_cons]
      cases result.input source strict <;> rfl
    rwa [hcons, ← List.append_assoc, List.foldl_cons]

/-! ### The order of the threads -/

theorem path_of_inspectCandidate {source : SourceType} {strict : Bool} {file : InputFile}
    {result : Inspected} (hresult : inspectCandidate cfg source strict file = .ok result) :
    result.path = file.path := by
  obtain ⟨text, -, hpure⟩ := bind_eq_ok_iff.mp hresult
  rw [← pure_eq_ok_iff.mp hpure]

theorem paths_of_mapM {source : SourceType} {strict : Bool} {files : List InputFile}
    {results : List Inspected}
    (hresults : files.mapM (inspectCandidate cfg source strict) = .ok results) :
    results.map Inspected.path = files.map InputFile.path := by
  have hforall := mapM_eq_ok_iff.mp hresults
  induction hforall with
  | nil => rfl
  | cons hfirst hrest ih =>
    rw [List.map_cons, List.map_cons, path_of_inspectCandidate hfirst,
      ih (mapM_eq_ok_iff.mpr hrest)]

/-- Results under different paths have one order. -/
theorem sortByPath_of_perm {results other : List Inspected} (hperm : other.Perm results)
    (hnodup : (results.map Inspected.path).Nodup) : sortByPath other = sortByPath results := by
  have hsorted : ∀ items : List Inspected,
      (sortByPath items).Pairwise fun result next ↦ result.path ≤ next.path := fun items ↦
    List.pairwise_insertionSort _ _
  have hsame : (sortByPath other).Perm (sortByPath results) :=
    (List.perm_insertionSort _ _).trans (hperm.trans (List.perm_insertionSort _ _).symm)
  refine hsame.eq_of_pairwise (fun a b ha hb hab hba ↦ ?_) (hsorted other) (hsorted results)
  have hmem : ∀ {item}, item ∈ sortByPath results → item ∈ results := fun hitem ↦
    (List.perm_insertionSort _ _).mem_iff.mp hitem
  exact List.inj_on_of_nodup_map hnodup (hmem (hsame.mem_iff.mp ha)) (hmem hb)
    (le_antisymm hab hba)

theorem importMain_eq {run : ImportRun} {results : List Inspected}
    (hresults : run.files.mapM (inspectCandidate cfg run.source run.strict) = .ok results)
    (corpus : Corpus) : importMain cfg run corpus =
      .ok ((sortByPath results).foldl (ImportSyz.importResult cfg run.source) (corpus, {})) := by
  have hnodup : (results.map Inspected.path).Nodup := by
    rw [paths_of_mapM hresults]
    exact run.nodup_paths
  rw [importMain, hresults, ok_bind, sortByPath_of_perm (run.completion_perm results) hnodup]
  rfl

/-- A run adds the inputs it accepts. -/
theorem Holds.importCorpus (hholds : Holds cfg inputs corpus) (run : ImportRun) :
    Holds cfg (inputs ++ acceptedInputs cfg run) (ImportSyz.importCorpus cfg corpus run) := by
  cases hresults : run.files.mapM (inspectCandidate cfg run.source run.strict) with
  | error error =>
    have hmain : importMain cfg run corpus = .error error := by
      rw [importMain, hresults]
      rfl
    rwa [ImportSyz.importCorpus, hmain, acceptedInputs, hresults, List.append_nil]
  | ok results =>
    rw [ImportSyz.importCorpus, importMain_eq hresults, acceptedInputs, hresults]
    exact hholds.importResults run.source run.strict {} (sortByPath results)

theorem Holds.importRuns (hholds : Holds cfg inputs corpus) (runs : List ImportRun) :
    Holds cfg (inputs ++ sessionInputs cfg runs)
      (runs.foldl (ImportSyz.importCorpus cfg) corpus) := by
  induction runs generalizing inputs corpus with
  | nil => rwa [sessionInputs, List.flatMap_nil, List.append_nil]
  | cons run rest ih =>
    have hrest := ih (hholds.importCorpus run)
    rwa [List.append_assoc] at hrest

/-- The corpus is what the accepted inputs leave. -/
theorem holds_importSession (cfg : ImportConfig) (runs : List ImportRun) :
    Holds cfg (sessionInputs cfg runs) (importSession cfg runs) :=
  Holds.empty.importRuns runs

/-- The inputs that the metadata of a program names. -/
def recordedInputs (stored : Option ProgramMeta) : List PyStr :=
  (stored.map fun stored ↦ stored.originalPath :: stored.duplicateInputs).getD []

/-- Whatever the order of the threads, the metadata of a program names all inputs that were accepted
for it, in the order of the runs and of the paths, none lost and none twice. Its texts are those of
the first of them. -/
theorem recordedInputs_importSession (cfg : ImportConfig) (runs : List ImportRun) (id : PyStr) :
    recordedInputs ((importSession cfg runs).metas.lookup (cfg.metaPath id)) =
        (inputsOf (sessionInputs cfg runs) id).map AcceptedInput.path ∧
      (importSession cfg runs).raw.lookup (cfg.rawPath id) =
        (inputsOf (sessionInputs cfg runs) id).head?.map AcceptedInput.preparedText ∧
      (importSession cfg runs).normalized.lookup (cfg.normalizedPath id) =
        (inputsOf (sessionInputs cfg runs) id).head?.map fun first ↦ first.info.normalizedSyz := by
  have hholds := holds_importSession cfg runs
  refine ⟨?_, hholds.raw id, hholds.normalized id⟩
  rw [hholds.metas]
  cases inputsOf (sessionInputs cfg runs) id with
  | nil => rfl
  | cons first rest => rfl

/-! ### Accounts -/

section Accounts

variable (cfg)

/-- The counters of a run and the programs of the corpus, after some results. -/
structure Accounts (before corpus : Corpus) (summary : Summary) (results : List Inspected) :
    Prop where
  total : summary.imported + summary.duplicate + summary.rejected = results.length
  accepted : summary.imported + summary.duplicate =
    (results.filter fun result ↦ result.verdict.isOk).length
  programs : corpus.metas.keys.length = before.metas.keys.length + summary.imported
  reasons : summary.reasons.length = summary.rejected

theorem length_keys_insert {α : Type} (files : FilesOf α) (path : PyStr) (file : α) :
    (files.insert path file).keys.length =
      if path ∈ files then files.keys.length else files.keys.length + 1 := by
  have hlength : ∀ directory : FilesOf α, directory.keys.length = directory.keys.toFinset.card :=
    fun directory ↦ (List.toFinset_card_of_nodup directory.keys_nodup).symm
  have hkeys : (files.insert path file).keys.toFinset = insert path files.keys.toFinset := by
    ext other
    rw [List.mem_toFinset, ← AList.mem_keys, AList.mem_insert, Finset.mem_insert, List.mem_toFinset,
      ← AList.mem_keys]
  rw [hlength, hlength, hkeys]
  split_ifs with hpath
  · rw [Finset.insert_eq_of_mem (List.mem_toFinset.mpr (AList.mem_keys.mp hpath))]
  · rw [Finset.card_insert_of_notMem (mt (AList.mem_keys.mpr ∘ List.mem_toFinset.mp) hpath)]

theorem Accounts.importResult {before corpus : Corpus} {summary : Summary}
    {results : List Inspected} (haccounts : Accounts before corpus summary results)
    (source : SourceType) (result : Inspected) :
    Accounts before (ImportSyz.importResult cfg source (corpus, summary) result).1
      (ImportSyz.importResult cfg source (corpus, summary) result).2 (results ++ [result]) := by
  obtain ⟨htotal, haccepted, hprograms, hreasons⟩ := haccounts
  cases hverdict : result.verdict with
  | error rejection =>
    rw [ImportSyz.importResult, hverdict]
    refine ⟨?_, ?_, hprograms, ?_⟩
    · simp only [List.length_append, List.length_singleton]
      omega
    · simpa [hverdict, Except.isOk, Except.toBool] using haccepted
    · simpa using hreasons
  | ok info =>
    rw [ImportSyz.importResult, hverdict]
    cases hknown : corpus.metas.lookup (cfg.metaPath info.programId) with
    | none =>
      have hnew : cfg.metaPath info.programId ∉ corpus.metas := AList.lookup_eq_none.mp hknown
      simp only [hknown]
      refine ⟨?_, ?_, ?_, hreasons⟩
      · simp only [List.length_append, List.length_singleton]
        omega
      · rw [List.filter_append, List.length_append, ← haccepted]
        simp [hverdict, Except.isOk, Except.toBool]
        omega
      · rw [length_keys_insert, if_neg hnew, hprograms, Nat.add_assoc]
    | some existing =>
      have hold : cfg.metaPath info.programId ∈ corpus.metas := by
        rw [← AList.lookup_isSome, hknown]
        rfl
      simp only [hknown]
      refine ⟨?_, ?_, ?_, hreasons⟩
      · simp only [List.length_append, List.length_singleton]
        omega
      · rw [List.filter_append, List.length_append, ← haccepted]
        simp [hverdict, Except.isOk, Except.toBool]
        omega
      · rw [length_keys_insert, if_pos hold, hprograms]

theorem Accounts.importResults {before corpus : Corpus} {summary : Summary}
    {earlier : List Inspected} (haccounts : Accounts before corpus summary earlier)
    (source : SourceType) (results : List Inspected) :
    Accounts before (results.foldl (ImportSyz.importResult cfg source) (corpus, summary)).1
      (results.foldl (ImportSyz.importResult cfg source) (corpus, summary)).2
      (earlier ++ results) := by
  induction results generalizing corpus summary earlier with
  | nil => rwa [List.append_nil]
  | cons result rest ih =>
    have hrest := ih (haccounts.importResult cfg source result)
    rwa [List.append_assoc, List.singleton_append] at hrest

end Accounts

theorem length_filterMap_input (source : SourceType) (strict : Bool) (results : List Inspected) :
    (results.filterMap (Inspected.input source strict)).length =
      (results.filter fun result ↦ result.verdict.isOk).length := by
  induction results with
  | nil => rfl
  | cons result rest ih =>
    rw [List.filterMap_cons, List.filter_cons, Inspected.input]
    cases hverdict : result.verdict with
    | error rejection => exact ih
    | ok info => exact congrArg (· + 1) ih

/-- A run accounts for every file, and a program is new exactly when it is imported. -/
theorem importMain_accounts {run : ImportRun} {corpus after : Corpus} {summary : Summary}
    (hmain : importMain cfg run corpus = .ok (after, summary)) :
    summary.imported + summary.duplicate + summary.rejected = run.files.length ∧
      summary.imported + summary.duplicate = (acceptedInputs cfg run).length ∧
      after.metas.keys.length = corpus.metas.keys.length + summary.imported := by
  cases hresults : run.files.mapM (inspectCandidate cfg run.source run.strict) with
  | error error =>
    rw [importMain, hresults] at hmain
    cases hmain
  | ok results =>
    rw [importMain_eq hresults] at hmain
    have hstart : Accounts corpus corpus {} [] := ⟨rfl, rfl, rfl, rfl⟩
    have haccounts := hstart.importResults cfg run.source (sortByPath results)
    rw [Except.ok.inj hmain, List.nil_append] at haccounts
    have hlength : (sortByPath results).length = run.files.length := by
      rw [sortByPath, List.length_insertionSort, ← List.length_map Inspected.path,
        paths_of_mapM hresults, List.length_map]
    refine ⟨haccounts.total.trans hlength, ?_, haccounts.programs⟩
    rw [haccounts.accepted, acceptedInputs, hresults]
    exact (length_filterMap_input run.source run.strict _).symm

/-- An inspector that names a program by its text, and knows one program. -/
def pauseConfig : ImportConfig where
  corpusRaw := PyStr.ofString "raw"
  corpusNormalized := PyStr.ofString "normalized"
  corpusMeta := PyStr.ofString "meta"
  corpusRejected := PyStr.ofString "rejected"
  inspect _ text :=
    if text = PyStr.ofString "pause()\n" then .ok {
      programId := text
      normalizedSyz := text
      arch := PyStr.ofString "amd64"
      targetOs := PyStr.ofString "linux"
      syscallList := some [PyStr.ofString "pause"]
      fullSyscallList := some [PyStr.ofString "pause"]
      resourceClasses := none
      usesPseudoSyscalls := false
      usesThreadingSensitiveFeatures := false
      callCount := 1 }
    else .error (PyStr.ofString "parse_error")
  sha256Text text := text

/-- The program twice, and a file that is no program. -/
def pauseRun : ImportRun where
  source := .generated
  strict := true
  files := [⟨PyStr.ofString "b", PyStr.ofString "pause()\n"⟩,
    ⟨PyStr.ofString "a", PyStr.ofString "# twice\npause()"⟩,
    ⟨PyStr.ofString "c", PyStr.ofString "pause"⟩]
  completion := List.reverse
  completion_perm := List.reverse_perm
  nodup_paths := by decide

theorem importMain_accounts_pauseRun : ∃ after summary,
    importMain pauseConfig pauseRun {} = .ok (after, summary) ∧
      summary.imported + summary.duplicate + summary.rejected = 3 ∧
      summary.imported + summary.duplicate = (acceptedInputs pauseConfig pauseRun).length ∧
      after.metas.keys.length = summary.imported := by
  obtain ⟨⟨after, summary⟩, hmain⟩ : ∃ result, importMain pauseConfig pauseRun {} = .ok result :=
    ⟨_, rfl⟩
  obtain ⟨htotal, haccepted, hprograms⟩ := importMain_accounts hmain
  exact ⟨after, summary, hmain, htotal, haccepted, hprograms.trans (Nat.zero_add _)⟩

end SyzAbi.Tools.ImportSyz

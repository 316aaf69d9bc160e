import SyzAbi.Tools.FilterCorpus

/-!
# Importing the corpus again

`tools/import_syz.py` may be run over the raw directory of the corpus itself, for instance after an
interrupted campaign. The stored texts were prepared once and are prepared as they stand
(`preprocessText_idem`), so the inspector answers as it did, and every file is a duplicate.

`importMain_rawDirectory`: such a run imports nothing and rejects nothing. It leaves the programs,
their texts and the report of the filter, and only notes each file as a duplicate (`Noted`).
-/

set_option autoImplicit false
set_option relaxedAutoImplicit false

namespace SyzAbi.Tools.ImportSyz

open Analyzer Orchestrator Library.Fallible Library

variable {cfg : ImportConfig} {runs : List ImportRun} {corpus after : Corpus}

/-! ### Noting duplicates -/

def ProgramMeta.withoutDuplicates (stored : ProgramMeta) : ProgramMeta :=
  { stored with duplicateInputs := [] }

/-- One corpus is the other with more duplicates noted. -/
structure Noted (corpus after : Corpus) : Prop where
  raw : after.raw = corpus.raw
  normalized : after.normalized = corpus.normalized
  rejected : after.rejected = corpus.rejected
  rejectedMetas : after.rejectedMetas = corpus.rejectedMetas
  metas : ∀ path, (after.metas.lookup path).map ProgramMeta.withoutDuplicates =
    (corpus.metas.lookup path).map ProgramMeta.withoutDuplicates

theorem Noted.refl (corpus : Corpus) : Noted corpus corpus := ⟨rfl, rfl, rfl, rfl, fun _ ↦ rfl⟩

theorem Noted.mem_metas (hnoted : Noted corpus after) (path : PyStr) :
    path ∈ after.metas ↔ path ∈ corpus.metas := by
  rw [← AList.lookup_isSome, ← AList.lookup_isSome, ← Option.isSome_map,
    hnoted.metas path, Option.isSome_map]

/-- A result with a known program is noted. -/
theorem Noted.importResult (hnoted : Noted corpus after) {result : Inspected} {info : ProgramInfo}
    (hverdict : result.verdict = .ok info) (hknown : cfg.metaPath info.programId ∈ corpus.metas)
    (source : SourceType) (summary : Summary) :
    ∃ next, ImportSyz.importResult cfg source (after, summary) result =
        (next, { summary with duplicate := summary.duplicate + 1 }) ∧ Noted corpus next := by
  obtain ⟨existing, hexisting⟩ := Option.isSome_iff_exists.mp
    (AList.lookup_isSome.mpr ((hnoted.mem_metas _).mpr hknown))
  refine ⟨{ after with
      metas := after.metas.insert (cfg.metaPath info.programId)
        { existing with duplicateInputs := existing.duplicateInputs ++ [result.path] } }, ?_,
    hnoted.raw, hnoted.normalized, hnoted.rejected, hnoted.rejectedMetas, fun path ↦ ?_⟩
  · simp only [ImportSyz.importResult, hverdict, hexisting]
  · rw [← hnoted.metas path]
    by_cases hpath : path = cfg.metaPath info.programId
    · rw [hpath, AList.lookup_insert, hexisting]
      rfl
    · rw [AList.lookup_insert_ne hpath]

/-- Results with known programs are all duplicates. -/
theorem Noted.importResults (hnoted : Noted corpus after) {results : List Inspected}
    (hknown : ∀ result ∈ results, ∃ info, result.verdict = .ok info ∧
      cfg.metaPath info.programId ∈ corpus.metas) (source : SourceType) (summary : Summary) :
    ∃ next, results.foldl (ImportSyz.importResult cfg source) (after, summary) =
        (next, { summary with duplicate := summary.duplicate + results.length }) ∧
      Noted corpus next := by
  induction results generalizing after summary with
  | nil => exact ⟨after, rfl, hnoted⟩
  | cons result rest ih =>
    obtain ⟨info, hverdict, hmem⟩ := hknown result List.mem_cons_self
    obtain ⟨next, hnext, hnotedNext⟩ := hnoted.importResult hverdict hmem source summary
    obtain ⟨last, hlast, hnotedLast⟩ :=
      ih hnotedNext (fun other hother ↦ hknown other (List.mem_cons_of_mem result hother))
        { summary with duplicate := summary.duplicate + 1 }
    refine ⟨last, ?_, hnotedLast⟩
    rw [List.foldl_cons, hnext, hlast, List.length_cons, Nat.add_right_comm, Nat.add_assoc]

/-- The files of the raw directory, as a later run finds them. -/
def rawDirectory (corpus : Corpus) : Except PyError (List InputFile) :=
  corpus.raw.entries.mapM fun entry ↦ do
    return ⟨entry.1, ← writeTextFile entry.2⟩

/-- A raw file holds the text of an accepted input. -/
theorem exists_input_of_raw {path text : PyStr}
    (hraw : (importSession cfg runs).raw.lookup path = some text) :
    ∃ input ∈ sessionInputs cfg runs, input.preparedText = text ∧
      cfg.metaPath input.info.programId ∈ (importSession cfg runs).metas := by
  have hholds := holds_importSession cfg runs
  obtain ⟨named, -, rfl⟩ := hholds.raw_keys path
    (AList.lookup_isSome.mp (Option.isSome_iff_exists.mpr ⟨text, hraw⟩))
  rw [hholds.raw] at hraw
  obtain ⟨first, hfirst, htext⟩ := Option.map_eq_some_iff.mp hraw
  obtain ⟨rest, hcons⟩ := List.head?_eq_some_iff.mp hfirst
  obtain ⟨hmem, hid⟩ := List.mem_filter.mp (hcons ▸ List.mem_cons_self (a := first) (l := rest))
  refine ⟨first, hmem, htext, ?_⟩
  rw [of_decide_eq_true hid, ← AList.lookup_isSome, hholds.metas, hcons]
  rfl

theorem mem_of_mem_universalNewlines {text : PyStr} {c : ℕ}
    (hc : c ∈ Tools.GuestNames.universalNewlines text) : c = 10 ∨ c ∈ text := by
  fun_induction Tools.GuestNames.universalNewlines text with
  | case1 => cases hc
  | case2 rest ih =>
    rcases List.mem_cons.mp hc with rfl | hrest
    · exact .inl rfl
    · exact (ih hrest).imp_right fun h ↦ List.mem_cons_of_mem _ (List.mem_cons_of_mem _ h)
  | case3 d rest _ ih =>
    rcases List.mem_cons.mp hc with rfl | hrest
    · split_ifs
      · exact .inl rfl
      · exact .inr List.mem_cons_self
    · exact (ih hrest).imp_right (List.mem_cons_of_mem d)

/-- What a run prepared is written as it is and read as it is. -/
theorem exists_writeTextFile {run : ImportRun} {file : InputFile} {input : AcceptedInput}
    (haccepts : Accepts cfg run file input) : ∃ bytes,
      writeTextFile input.preparedText = .ok bytes ∧
        readTextFile bytes = .ok input.preparedText := by
  obtain ⟨raw, hraw, hprepared⟩ := haccepts.prepared
  have hvalid : ∀ c ∈ input.preparedText, c.isValidChar := by
    intro c hc
    rw [readTextFile] at hraw
    split at hraw
    · next chars hdecode =>
      rw [hprepared] at hc
      rcases mem_raw_of_mem_preprocessText hc with rfl | ⟨hmem, -⟩
      · decide
      · rw [← Except.ok.inj hraw] at hmem
        rcases mem_of_mem_universalNewlines hmem with rfl | hmem
        · decide
        · exact (Utf8.decodeStrict_eq_some_iff.mp hdecode).1 c hmem
    · cases hraw
  have hreturn : 13 ∉ input.preparedText := by
    intro hmem
    rw [hprepared] at hmem
    rcases mem_raw_of_mem_preprocessText hmem with hfeed | ⟨-, hbreak⟩
    · cases hfeed
    · exact absurd hbreak (by decide)
  refine ⟨Utf8.encode input.preparedText, ?_, ?_⟩
  · rw [writeTextFile, Utf8.encodeStrict, if_pos hvalid]
  · rw [readTextFile, Utf8.decodeStrict_encode hvalid]
    exact congrArg Except.ok (Tools.GuestNames.universalNewlines_eq_self hreturn)

theorem exists_rawDirectory (cfg : ImportConfig) (runs : List ImportRun) :
    ∃ files, rawDirectory (importSession cfg runs) = .ok files := by
  refine exists_mapM_eq_ok fun entry hentry ↦ ?_
  obtain ⟨input, hinput, htext, -⟩ := exists_input_of_raw (AList.mem_lookup_iff.mpr hentry)
  obtain ⟨run, -, hinput⟩ := List.mem_flatMap.mp hinput
  obtain ⟨-, file, -, haccepts⟩ := mem_acceptedInputs_iff.mp hinput
  obtain ⟨bytes, hwrite, -⟩ := exists_writeTextFile haccepts
  rw [htext] at hwrite
  exact ⟨_, bind_eq_ok_iff.mpr ⟨bytes, hwrite, rfl⟩⟩

end SyzAbi.Tools.ImportSyz

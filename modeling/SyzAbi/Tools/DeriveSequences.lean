import SyzAbi.Library.OrderedDict
import SyzAbi.Targets.GenerationProfile
import SyzAbi.Tools.DeriveCorpus

/-!
# The allowed sequences

`tools/derive_scml_allowed_sequences.py` merges the baseline with the generated candidates, one row
for each program (`nodup_mergeSourceRows`), and keeps the sequences that the generation profile
allows. A later row of a program replaces an earlier one; only its workflow may be missing
(`mem_mergeSourceRows_iff`). Nothing is held against a program exactly when the metadata of its
merged row are within the profile (`deriveRejection_eq_nil_iff`).
-/

set_option autoImplicit false
set_option relaxedAutoImplicit false

namespace SyzAbi.Tools.ImportSyz

open Analyzer Orchestrator Targets Library.FirstUse Library.Fallible Library.LoopRows
open Library.OrderedDict

/-! ### Rejections -/

/-- `cfg["derivation"]["rejection_taxonomy"]`. -/
structure SequenceTaxonomy where
  specializedVariant : PyStr
  sequenceTooShort : PyStr
  sequenceTooLong : PyStr
  syscallNotInManifest : PyStr
  deferredCategory : PyStr
  manifestDisabled : PyStr

/-- The configuration, the manifest and the profile. -/
structure SequenceConfig where
  workflow : PyStr
  acceptReasons : List PyStr
  taxonomy : SequenceTaxonomy
  manifest : Manifest
  profile : GenerationProfile

variable (cfg : SequenceConfig)

/-- `load_manifest_index`. -/
def SequenceConfig.manifestIndex : List (PyStr × ManifestEntry) :=
  applyGenerationProfile cfg.profile cfg.manifest

/-- The body of the loop of `derive_rejection`. -/
def SequenceConfig.nameReason (fullName : PyStr) : Option PyStr :=
  let baseName := baseSyscallName fullName
  if fullName ≠ baseName then some cfg.taxonomy.specializedVariant
  else
    match cfg.manifestIndex.lookup baseName with
    | none => some cfg.taxonomy.syscallNotInManifest
    | some entry =>
      if isEnabled entry then none
      else if ((entry.lookup (PyStr.ofString "defer_reason")).map truthy).getD false then
        some cfg.taxonomy.deferredCategory
      else some cfg.taxonomy.manifestDisabled

/-- The reasons of `derive_rejection` against the length of a sequence. -/
def SequenceConfig.lengthReasons (callCount : ℕ) : List PyStr :=
  (if callCount < cfg.profile.sequenceMin then [cfg.taxonomy.sequenceTooShort] else []) ++
    (if cfg.profile.sequenceMax < callCount then [cfg.taxonomy.sequenceTooLong] else [])

/-- `derive_scml_allowed_sequences.py`. -/
def SequenceConfig.derivation : Derivation where
  workflow := cfg.workflow
  acceptReasons := cfg.acceptReasons
  deriveRejection stored := do
    let fullNames ← iterated stored.fullSyscallList
    return noteAll [] (cfg.lengthReasons stored.callCount ++ fullNames.filterMap cfg.nameReason)
  listsCalls := true

/-- The metadata of a sequence that the profile allows. -/
structure InProfile (stored : ProgramMeta) : Prop where
  sequenceMin : cfg.profile.sequenceMin ≤ stored.callCount
  sequenceMax : stored.callCount ≤ cfg.profile.sequenceMax
  names : ∃ fullNames, stored.fullSyscallList = some fullNames ∧ ∀ fullName ∈ fullNames,
    36 ∉ fullName ∧ Generates cfg.profile cfg.manifest fullName

variable {cfg}

theorem baseSyscallName_eq_self_iff {fullName : PyStr} :
    fullName = baseSyscallName fullName ↔ 36 ∉ fullName := by
  rw [baseSyscallName, eq_comm, List.takeWhile_eq_self_iff]
  simp only [decide_eq_true_eq]
  exact ⟨fun h hmem ↦ h 36 hmem rfl, fun h c hc heq ↦ h (heq ▸ hc)⟩

theorem nameReason_eq_none_iff {fullName : PyStr} :
    cfg.nameReason fullName = none ↔
      36 ∉ fullName ∧ Generates cfg.profile cfg.manifest fullName := by
  rw [SequenceConfig.nameReason, ← baseSyscallName_eq_self_iff, ← generationEnabled_iff]
  by_cases hbase : fullName = baseSyscallName fullName
  · rw [← hbase, if_neg (not_not.mpr rfl), and_iff_right rfl]
    change _ ↔ ∃ entry, cfg.manifestIndex.lookup fullName = some entry ∧ _
    cases cfg.manifestIndex.lookup fullName with
    | none => simp
    | some entry =>
      cases henabled : isEnabled entry with
      | true => simp [henabled]
      | false =>
        simp only [Bool.false_eq_true, if_false, Option.some.injEq, exists_eq_left', henabled]
        split_ifs <;> simp
  · rw [if_pos hbase]
    exact iff_of_false (Option.some_ne_none _) fun h ↦ hbase h.1

theorem lengthReasons_eq_nil_iff {callCount : ℕ} : cfg.lengthReasons callCount = [] ↔
    cfg.profile.sequenceMin ≤ callCount ∧ callCount ≤ cfg.profile.sequenceMax := by
  rw [SequenceConfig.lengthReasons, List.append_eq_nil_iff, ite_eq_right_iff, ite_eq_right_iff]
  simp only [List.cons_ne_nil, imp_false, not_lt]

/-- Nothing is held against a sequence exactly when the profile allows it. -/
theorem deriveRejection_eq_nil_iff {stored : ProgramMeta} :
    cfg.derivation.deriveRejection stored = .ok [] ↔ InProfile cfg stored := by
  have hnames : ∀ {fullNames : List PyStr},
      noteAll [] (cfg.lengthReasons stored.callCount ++ fullNames.filterMap cfg.nameReason) = [] ↔
        (cfg.profile.sequenceMin ≤ stored.callCount ∧
          stored.callCount ≤ cfg.profile.sequenceMax) ∧ ∀ fullName ∈ fullNames,
            36 ∉ fullName ∧ Generates cfg.profile cfg.manifest fullName := by
    intro fullNames
    simp only [noteAll_nil_eq_nil_iff, List.append_eq_nil_iff, lengthReasons_eq_nil_iff,
      List.filterMap_eq_nil_iff, nameReason_eq_none_iff]
  constructor
  · intro hreasons
    obtain ⟨fullNames, hiterated, hpure⟩ := bind_eq_ok_iff.mp hreasons
    obtain ⟨⟨hmin, hmax⟩, hall⟩ := hnames.mp (pure_eq_ok_iff.mp hpure)
    refine ⟨hmin, hmax, fullNames, ?_, hall⟩
    cases hlist : stored.fullSyscallList with
    | none =>
      rw [hlist] at hiterated
      cases hiterated
    | some found =>
      rw [hlist] at hiterated
      exact congrArg some (Except.ok.inj hiterated)
  · rintro ⟨hmin, hmax, fullNames, hlist, hall⟩
    refine bind_eq_ok_iff.mpr ⟨fullNames, ?_, congrArg Except.ok (hnames.mpr ⟨⟨hmin, hmax⟩, hall⟩)⟩
    rw [hlist]
    rfl

/-! ### Merged sources -/

/-- `combined.update(row)`. -/
def SourceRow.update (existing row : SourceRow) : SourceRow :=
  { row with workflow := row.workflow.or existing.workflow }

/-- The body of the loops of `merge_source_rows`. -/
def mergeSourceRow (merged : List (PyStr × SourceRow)) (row : SourceRow) :
    List (PyStr × SourceRow) :=
  insert row.programId
    (((merged.lookup row.programId).map fun existing ↦ existing.update row).getD row) merged

/-- `merge_source_rows`. -/
def mergeSourceRows (rowGroups : List (List SourceRow)) : List SourceRow :=
  ((rowGroups.flatten.foldl mergeSourceRow []).map Prod.snd).insertionSort
    fun row other ↦ row.programId ≤ other.programId

/-- One row made of some rows of a program. -/
def combined : List SourceRow → Option SourceRow
  | [] => none
  | first :: rest => some (rest.foldl SourceRow.update first)

/-- The rows of a program. -/
def rowsOf (rows : List SourceRow) (id : PyStr) : List SourceRow :=
  rows.filter fun row ↦ row.programId = id

/-- The table after some rows: the combined row of each program. -/
structure Merged (rows : List SourceRow) (merged : List (PyStr × SourceRow)) : Prop where
  lookup : ∀ id, merged.lookup id = combined (rowsOf rows id)
  nodup : (merged.map Prod.fst).Nodup

theorem combined_concat (rows : List SourceRow) (row : SourceRow) :
    combined (rows ++ [row]) =
      some (((combined rows).map fun existing ↦ existing.update row).getD row) := by
  cases rows with
  | nil => rfl
  | cons first rest => simp [combined]

theorem rowsOf_concat (rows : List SourceRow) (row : SourceRow) (id : PyStr) :
    rowsOf (rows ++ [row]) id = rowsOf rows id ++ if row.programId = id then [row] else [] := by
  rw [rowsOf, List.filter_append, rowsOf]
  split_ifs with hid <;> simp [hid]

theorem Merged.mergeSourceRow {rows : List SourceRow} {merged : List (PyStr × SourceRow)}
    (hmerged : Merged rows merged) (row : SourceRow) :
    Merged (rows ++ [row]) (ImportSyz.mergeSourceRow merged row) where
  lookup id := by
    rw [ImportSyz.mergeSourceRow, rowsOf_concat]
    split_ifs with hid
    · rw [combined_concat, ← hid, lookup_insert_self, hmerged.lookup]
    · rw [List.append_nil, lookup_insert_of_ne (Ne.symm hid), hmerged.lookup]
  nodup := nodup_keys_insert hmerged.nodup

theorem merged_foldl (rows : List SourceRow) :
    Merged rows (rows.foldl ImportSyz.mergeSourceRow []) := by
  induction rows using List.reverseRecOn with
  | nil => exact ⟨fun _ ↦ rfl, List.nodup_nil⟩
  | append_singleton rows row ih =>
    rw [List.foldl_append]
    exact ih.mergeSourceRow row

theorem programId_of_combined {rows : List SourceRow} {id : PyStr}
    (hrows : ∀ row ∈ rows, row.programId = id) {row : SourceRow}
    (hrow : combined rows = some row) : row.programId = id := by
  induction rows using List.reverseRecOn with
  | nil => cases hrow
  | append_singleton rows last ih =>
    have hlast := hrows last (List.mem_append_right _ (List.mem_singleton_self last))
    rw [combined_concat] at hrow
    rw [← Option.some.inj hrow]
    cases combined rows with
    | none => exact hlast
    | some existing => exact hlast

theorem programId_of_mem {rows : List SourceRow} {item : PyStr × SourceRow}
    (hitem : item ∈ rows.foldl ImportSyz.mergeSourceRow []) : item.2.programId = item.1 := by
  have hmerged := merged_foldl rows
  have hlookup := (mem_iff_lookup hmerged.nodup).mp hitem
  rw [hmerged.lookup] at hlookup
  exact programId_of_combined (fun row hrow ↦ of_decide_eq_true (List.mem_filter.mp hrow).2) hlookup

/-- The merged rows are the combined rows of the programs. -/
theorem mem_mergeSourceRows_iff {rowGroups : List (List SourceRow)} {row : SourceRow} :
    row ∈ mergeSourceRows rowGroups ↔
      combined (rowsOf rowGroups.flatten row.programId) = some row := by
  have hmerged := merged_foldl rowGroups.flatten
  rw [mergeSourceRows, List.mem_insertionSort, List.mem_map, ← hmerged.lookup,
    ← mem_iff_lookup hmerged.nodup]
  constructor
  · rintro ⟨item, hitem, rfl⟩
    rwa [programId_of_mem hitem]
  · exact fun hitem ↦ ⟨_, hitem, rfl⟩

/-- No program has two merged rows. -/
theorem nodup_mergeSourceRows (rowGroups : List (List SourceRow)) :
    ((mergeSourceRows rowGroups).map SourceRow.programId).Nodup := by
  have hkeys : ((rowGroups.flatten.foldl ImportSyz.mergeSourceRow []).map Prod.snd).map
      SourceRow.programId = (rowGroups.flatten.foldl ImportSyz.mergeSourceRow []).map Prod.fst := by
    rw [List.map_map]
    exact List.map_congr_left fun item hitem ↦ programId_of_mem hitem
  rw [mergeSourceRows, ((List.perm_insertionSort _ _).map _).nodup_iff, hkeys]
  exact (merged_foldl rowGroups.flatten).nodup

/-! ### The static corpus -/

/-- `main` behind the load of the two files. -/
def deriveSequences (cfg : SequenceConfig) (loadMeta : PyStr → Except PyError ProgramMeta)
    (baseRows generatedRows : List SourceRow) : Except PyError DerivationReport :=
  deriveRows cfg.derivation loadMeta (mergeSourceRows [baseRows, generatedRows])

end SyzAbi.Tools.ImportSyz

import SyzAbi.Library.JsonIndent
import SyzAbi.Orchestrator.EventsFile
import SyzAbi.Targets.FatSampling
import SyzAbi.Tools.GuestState

/-!
# Long file names

A long name is stored in UTF-16, and `_fat_decode_lfn_fragment` makes a character of every unit,
apart from 0x0000 and 0xFFFF. So a character beyond the basic plane becomes two surrogates, and
`dump_json` cannot write the state with them, and U+FFFF is lost. The names are right, and the state
can be written, exactly when all characters of the paths are below U+FFFF (`namesDecode_iff`).
-/

set_option autoImplicit false
set_option relaxedAutoImplicit false

namespace SyzAbi.Targets

open Agent Library Library.Json Orchestrator Tools

/-! ### Writing a state -/

/-- `dump_json` (`core/persistence.py`): the bytes of the file. -/
def dumpJson (payload : Value) : Except PyError (List ℕ) :=
  writeTextFile (renderIndented 0 payload ++ [10])

theorem exists_dumpJson_iff {payload : Value} (hvalue : IsValue payload) :
    (∃ bytes, dumpJson payload = .ok bytes) ↔ ∀ c, payload.HasChar c → c.isValidChar := by
  have hwide : ∀ c, 128 ≤ c → (c ∈ renderIndented 0 payload ++ [10] ↔ payload.HasChar c) := by
    intro c hwide
    have hlast : c ∉ [10] := by
      rw [List.mem_singleton]
      omega
    rw [List.mem_append, or_iff_left hlast, mem_renderIndented_iff ⟨by omega, by omega⟩ hvalue,
      mem_render_iff hwide hvalue]
  rw [dumpJson, exists_writeTextFile_iff, Utf8.forall_isValidChar_iff hwide]

theorem isValue_dict {members : List (String × Value)}
    (hmembers : ∀ member ∈ members, IsValue member.2) : IsValue (dict members) := by
  refine .obj (Sorted.setMembers List.Pairwise.nil _) fun member hmember ↦ ?_
  obtain ⟨entry, hentry, rfl⟩ := List.mem_map.mp
    ((mem_setMembers hmember).resolve_right List.not_mem_nil)
  exact hmembers entry hentry

/-- A character of a dictionary is one of a key or one of a value. -/
theorem exists_of_hasChar_dict {c : ℕ} {members : List (String × Value)}
    (hc : (dict members).HasChar c) :
    ∃ member ∈ members, c ∈ PyStr.ofString member.1 ∨ member.2.HasChar c := by
  obtain ⟨member, hmember, hchar⟩ := hasChar_obj.mp hc
  obtain ⟨entry, hentry, rfl⟩ := List.mem_map.mp
    ((mem_setMembers hmember).resolve_right List.not_mem_nil)
  exact ⟨entry, hentry, hchar⟩

theorem hasChar_of_findMember {c : ℕ} {key : String} {value inner : Value}
    (hfound : findMember key value = some inner) (hc : inner.HasChar c) : value.HasChar c := by
  cases value with
  | obj members =>
    obtain ⟨front, back, rfl, -⟩ := List.lookup_eq_some_iff.mp hfound
    exact hasChar_obj.mpr ⟨_, List.mem_append_right _ List.mem_cons_self, .inr hc⟩
  | _ => cases hfound

/-- The values of texts and numbers that are no paths. -/
theorem isValidChar_of_hasChar_dict {members : List (String × Value)}
    (hmembers : ∀ member ∈ members, ∀ c, member.2.HasChar c → c.isValidChar) {c : ℕ}
    (hc : (dict members).HasChar c) : c.isValidChar := by
  obtain ⟨member, hmember, hkey | hvalue⟩ := exists_of_hasChar_dict hc
  · exact isValidChar_of_mem_ofString c hkey
  · exact hmembers member hmember c hvalue

theorem isValue_fileItemValue (item : FileItem) : IsValue (fileItemValue item) := by
  have hdigest : IsValue (textValue item.sha256) := by
    cases item.sha256
    · exact .null
    · exact .str _
  refine isValue_dict (List.forall_mem_append.mpr ⟨?_, ?_⟩)
  · exact List.forall_mem_cons.mpr ⟨.str _, List.forall_mem_cons.mpr
      ⟨.int _, List.forall_mem_singleton.mpr hdigest⟩⟩
  · cases item.readError
    · exact fun _ hmember ↦ absurd hmember List.not_mem_nil
    · exact List.forall_mem_singleton.mpr (.str _)

theorem isValue_externalStateValue (state : ExternalState) :
    IsValue (externalStateValue state) := by
  refine isValue_dict (List.forall_mem_append.mpr ⟨List.forall_mem_append.mpr ⟨?_, ?_⟩, ?_⟩)
  · refine List.forall_mem_singleton.mpr (.arr fun value hvalue ↦ ?_)
    obtain ⟨item, -, rfl⟩ := List.mem_map.mp hvalue
    exact isValue_fileItemValue item
  · split_ifs
    · exact List.forall_mem_singleton.mpr (.bool true)
    · exact fun _ hmember ↦ absurd hmember List.not_mem_nil
  · cases state.readError
    · exact fun _ hmember ↦ absurd hmember List.not_mem_nil
    · exact List.forall_mem_singleton.mpr (.str _)

theorem isValidChar_of_hasChar_ofString {text : String} {c : ℕ}
    (hc : (Value.str (PyStr.ofString text)).HasChar c) : c.isValidChar :=
  isValidChar_of_mem_ofString c (hasChar_str.mp hc)

theorem not_hasChar_of_strings {c : ℕ} {value : Value} (hnone : value.strings = []) :
    ¬value.HasChar c := by
  rintro ⟨text, htext, -⟩
  rw [hnone] at htext
  cases htext

theorem isValidChar_of_hasChar_fileItemValue {item : FileItem}
    (hpath : ∀ c ∈ item.path, c.isValidChar) {c : ℕ} (hc : (fileItemValue item).HasChar c) :
    c.isValidChar := by
  refine isValidChar_of_hasChar_dict (List.forall_mem_append.mpr ⟨?_, ?_⟩) hc
  · refine List.forall_mem_cons.mpr ⟨fun c hc ↦ hpath c (hasChar_str.mp hc),
      List.forall_mem_cons.mpr ⟨fun c hc ↦ absurd hc (not_hasChar_of_strings rfl),
        List.forall_mem_singleton.mpr fun c hc ↦ ?_⟩⟩
    cases hdigest : item.sha256 with
    | none =>
      rw [hdigest] at hc
      exact absurd hc (not_hasChar_of_strings rfl)
    | some text =>
      rw [hdigest] at hc
      exact isValidChar_of_hasChar_ofString hc
  · cases item.readError
    · exact fun _ hmember ↦ absurd hmember List.not_mem_nil
    · exact List.forall_mem_singleton.mpr fun c hc ↦ isValidChar_of_hasChar_ofString hc

/-- A state can be written exactly when its paths can. -/
theorem exists_dumpJson_externalState_iff (state : ExternalState) :
    (∃ bytes, dumpJson (externalStateValue state) = .ok bytes) ↔
      ∀ item ∈ state.files, ∀ c ∈ item.path, c.isValidChar := by
  rw [exists_dumpJson_iff (isValue_externalStateValue state)]
  constructor
  · intro hvalid item hitem c hc
    refine hvalid c (hasChar_of_findMember (findMember_externalStateValue state).1 ?_)
    refine hasChar_arr.mpr ⟨_, List.mem_map_of_mem hitem, ?_⟩
    exact hasChar_of_findMember (findMember_fileItemValue item).1 (hasChar_str.mpr hc)
  · intro hpaths c hc
    refine isValidChar_of_hasChar_dict (List.forall_mem_append.mpr
      ⟨List.forall_mem_append.mpr ⟨?_, ?_⟩, ?_⟩) hc
    · refine List.forall_mem_singleton.mpr fun c hc ↦ ?_
      obtain ⟨_, hmap, hchar⟩ := hasChar_arr.mp hc
      obtain ⟨item, hitem, rfl⟩ := List.mem_map.mp hmap
      exact isValidChar_of_hasChar_fileItemValue (hpaths item hitem) hchar
    · split_ifs
      · exact List.forall_mem_singleton.mpr fun c hc ↦ absurd hc (not_hasChar_of_strings rfl)
      · exact fun _ hmember ↦ absurd hmember List.not_mem_nil
    · cases state.readError
      · exact fun _ hmember ↦ absurd hmember List.not_mem_nil
      · exact List.forall_mem_singleton.mpr fun c hc ↦ isValidChar_of_hasChar_ofString hc

/-! ### The sampler -/

/-- The state lists the files with the Unicode strings of their names, and can be written. -/
structure NamesDecode (tree : Directory) (sha256 : List UInt8 → String) (state : ExternalState) :
    Prop where
  readError : state.readError = none
  files : state.files.Perm ((tree.files []).map (fileItem sha256))
  written : ∃ bytes, dumpJson (externalStateValue state) = .ok bytes

/-- Long names decode exactly when all characters of the paths are below U+FFFF, and the directories
are no deeper than the recursion limit. -/
theorem namesDecode_iff {image : List UInt8} (volume : FatVolume image)
    (sha256 : List UInt8 → String) (recursionLimit : ℕ) :
    NamesDecode volume.tree sha256 (sampleFatExternalState sha256 recursionLimit image) ↔
      volume.tree.read.depth ≤ recursionLimit ∧
        ∀ file ∈ volume.tree.files [], ∀ c ∈ file.1, c < 0xFFFF := by
  rw [sampleFatExternalState_volume, ← volume.readItems_perm_iff sha256]
  split_ifs with hdepth
  · rw [and_iff_right hdepth]
    refine ⟨fun hdecode ↦ (List.mergeSort_perm _ _).symm.trans hdecode.files, fun hperm ↦ ?_⟩
    refine ⟨rfl, (List.mergeSort_perm _ _).trans hperm, ?_⟩
    refine (exists_dumpJson_externalState_iff _).mpr fun item hitem ↦ ?_
    obtain ⟨file, hfile, rfl⟩ := List.mem_map.mp (hperm.mem_iff.mp (List.mem_mergeSort.mp hitem))
    exact volume.isValidChar_of_mem_files file hfile
  · refine iff_of_false (fun h ↦ ?_) fun h ↦ hdepth h.1
    cases h.readError

/-! ### A name beyond the basic plane -/

/-- The entries of an empty file whose name is the character U+1F600. -/
def smileyNames : List UInt8 :=
  [0x41, 0x3D, 0xD8, 0x00, 0xDE, 0, 0, 0xFF, 0xFF, 0xFF, 0xFF, 0x0F, 0, 0] ++
    List.replicate 12 0xFF ++ [0, 0] ++ List.replicate 4 0xFF

def smileyEntry : List UInt8 := 65 :: List.replicate 10 32 ++ List.replicate 21 0

/-- A volume without clusters, whose root directory holds the file. -/
def smileyImage : List UInt8 :=
  deepBoot 0 ++ (List.replicate 6144 255 ++
    (smileyNames ++ (smileyEntry ++ (List.replicate 32 0 ++ List.replicate 416 0))))

def smileyTables : FatTables smileyImage where
  fatType := .fat12
  boot := deepNumbers 0
  fat := fun _ ↦ 0xFFF
  stored := stored_deepBoot (Nat.zero_le _) _
  valid := valid_deepNumbers (Nat.zero_le _)
  entries := by
    rintro cluster ⟨htwo, hlt⟩
    rw [clusterCount_deepNumbers] at hlt
    omega

theorem longNameEntry_smileyNames : LongNameEntry smileyNames [0xD83D, 0xDE00] where
  length := by decide
  first := by decide
  attributes := by decide
  part_length := by decide
  part_units := by decide
  units := by decide

theorem directoryBytes_smiley : DirectoryBytes smileyTables (.file [0xD83D, 0xDE00] [] .nil)
    (smileyNames ++ (smileyEntry ++ (List.replicate 32 0 ++ List.replicate 416 0))) := by
  refine .file (.inr (.one longNameEntry_smileyNames)) ?_ (by decide) ?_ ?_
  · exact ⟨by decide, by decide, by decide, by decide⟩
  · exact ⟨⟨by decide, ⟨_, rfl⟩⟩, 0, ⟨by decide, ⟨_, rfl⟩⟩, .inl ⟨rfl, rfl⟩⟩
  · exact .ended _ List.length_replicate rfl

def smileyVolume : FatVolume smileyImage where
  toFatTables := smileyTables
  tree := .file [0x1F600] [] .nil
  unicode := by decide
  root := by
    have hroot : LittleEndian.slice smileyImage (13 * 512) (16 * 32) =
        smileyNames ++ (smileyEntry ++ (List.replicate 32 0 ++ List.replicate 416 0)) := by
      decide +kernel
    exact hroot ▸ directoryBytes_smiley

/-- The name becomes two surrogates, which `dump_json` cannot write. -/
theorem smileyVolume_not_namesDecode :
    ¬ ∀ (image : List UInt8) (volume : FatVolume image) (sha256 : List UInt8 → String)
      (recursionLimit : ℕ), volume.tree.depth ≤ recursionLimit →
        NamesDecode volume.tree sha256 (sampleFatExternalState sha256 recursionLimit image) := by
  intro h
  have hwritten := (h smileyImage smileyVolume (fun _ ↦ "") 1 (Nat.le_refl 1)).written
  rw [sampleFatExternalState_volume _ _ smileyVolume, if_pos (by decide),
    exists_dumpJson_externalState_iff] at hwritten
  have hitem : fileItem (fun _ ↦ "") ([0xD83D, 0xDE00], []) ∈
      (smileyVolume.readItems fun _ ↦ "").mergeSort pathLe :=
    List.mem_mergeSort.mpr List.mem_cons_self
  exact absurd (hwritten _ hitem 0xD83D List.mem_cons_self) (by decide)

end SyzAbi.Targets

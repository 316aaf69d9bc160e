import SyzAbi.Orchestrator.SampledState
import SyzAbi.Tools.TranscriptSections

/-!
# The external state in the guest

`emit_external_state` (`targets/asterinas/initramfs.py`) prints the files of the work directory from
a shell script: `find` lists them, `sort` orders the lines by their bytes, and every file is printed
with its relative path, the size of `stat` and the digest of `sha256sum`. The host reads the section
back with `parse_external_state`.

Without quotes, backslashes and line feeds in the paths the section is found and read back as the
state of the files in the order of their paths, when no path holds a control character; otherwise
the parser refuses it (`parseShellState_cases`). Values of external states are equal only for equal
states (`externalStateValue_injective`).
-/

set_option autoImplicit false
set_option relaxedAutoImplicit false

namespace SyzAbi.Tools

open Analyzer Orchestrator Agent Library Library.Json

attribute [ext] FileItem ExternalState

/-! ### Values of external states -/

/-- The value of an optional text. -/
def textValue (text : Option String) : Value :=
  match text with
  | some text => .str (PyStr.ofString text)
  | none => .null

/-- The dictionary of a file. -/
def fileItemValue (item : FileItem) : Value :=
  dict ([("path", .str item.path), ("size", .int item.size),
    ("sha256", textValue item.sha256)] ++
    match item.readError with
    | some text => [("read_error", .str (PyStr.ofString text))]
    | none => [])

/-- The dictionary that a sampler returns. -/
def externalStateValue (state : ExternalState) : Value :=
  dict ([("files", .arr (state.files.map fileItemValue))] ++
    (if state.truncated then [("truncated", .bool true)] else []) ++
    match state.readError with
    | some text => [("read_error", .str (PyStr.ofString text))]
    | none => [])

/-- `payload.get(key)`. -/
def findMember (key : String) : Value → Option Value
  | .obj members => members.lookup (PyStr.ofString key)
  | _ => none

theorem textValue_injective : Function.Injective textValue := by
  intro a b heq
  cases a with
  | none =>
    cases b with
    | none => rfl
    | some b => cases heq
  | some a =>
    cases b with
    | none => cases heq
    | some b => rw [ofString_inj.mp (Value.str.inj heq)]

theorem findMember_fileItemValue (item : FileItem) :
    findMember "path" (fileItemValue item) = some (.str item.path) ∧
      findMember "size" (fileItemValue item) = some (.int item.size) ∧
      findMember "sha256" (fileItemValue item) = some (textValue item.sha256) ∧
      findMember "read_error" (fileItemValue item) =
        item.readError.map fun text ↦ .str (PyStr.ofString text) := by
  rw [fileItemValue, dict]
  cases item.readError <;> simp [findMember, setMembers, lookup_insertMember, textValue]

theorem fileItemValue_injective : Function.Injective fileItemValue := by
  intro a b heq
  obtain ⟨hpathA, hsizeA, hdigestA, herrorA⟩ := findMember_fileItemValue a
  obtain ⟨hpathB, hsizeB, hdigestB, herrorB⟩ := findMember_fileItemValue b
  rw [heq, hpathB] at hpathA
  rw [heq, hsizeB] at hsizeA
  rw [heq, hdigestB] at hdigestA
  rw [heq, herrorB] at herrorA
  have herror : Function.Injective fun text ↦ Value.str (PyStr.ofString text) := fun _ _ h ↦
    ofString_inj.mp (Value.str.inj h)
  ext1
  · exact (Value.str.inj (Option.some.inj hpathA)).symm
  · exact_mod_cast (Value.int.inj (Option.some.inj hsizeA)).symm
  · exact (textValue_injective (Option.some.inj hdigestA)).symm
  · exact (Option.map_injective herror herrorA).symm

theorem findMember_externalStateValue (state : ExternalState) :
    findMember "files" (externalStateValue state) = some (.arr (state.files.map fileItemValue)) ∧
      findMember "truncated" (externalStateValue state) =
        (if state.truncated then some (.bool true) else none) ∧
      findMember "read_error" (externalStateValue state) =
        state.readError.map fun text ↦ .str (PyStr.ofString text) := by
  rw [externalStateValue, dict]
  cases state.readError <;> cases state.truncated <;>
    simp [findMember, setMembers, lookup_insertMember]

/-- Different states have different values. -/
theorem externalStateValue_injective : Function.Injective externalStateValue := by
  intro a b heq
  obtain ⟨hfilesA, htruncatedA, herrorA⟩ := findMember_externalStateValue a
  obtain ⟨hfilesB, htruncatedB, herrorB⟩ := findMember_externalStateValue b
  rw [heq, hfilesB] at hfilesA
  rw [heq, htruncatedB] at htruncatedA
  rw [heq, herrorB] at herrorA
  have herror : Function.Injective fun text ↦ Value.str (PyStr.ofString text) := fun _ _ h ↦
    ofString_inj.mp (Value.str.inj h)
  ext1
  · exact (fileItemValue_injective.list_map (Value.arr.inj (Option.some.inj hfilesA))).symm
  · cases htruncated : a.truncated <;> cases htruncated' : b.truncated <;>
      simp [htruncated, htruncated'] at htruncatedA ⊢
  · exact (Option.map_injective herror herrorA).symm

/-! ### The script -/

/-- SHA-256, with its digests in hexadecimal. -/
structure Sha256 where
  hexdigest : List UInt8 → String
  hex : ∀ bytes, ∀ c ∈ PyStr.ofString (hexdigest bytes), 48 ≤ c ∧ c ≤ 57 ∨ 97 ≤ c ∧ c ≤ 102

/-- The digest of a file without content. -/
def emptyHexdigest : String := "e3b0c44298fc1c149afbf4c8996fb92427ae41e4649b934ca495991b7852b855"

theorem emptyHexdigest_hex (_ : List UInt8) :
    ∀ c ∈ PyStr.ofString emptyHexdigest, 48 ≤ c ∧ c ≤ 57 ∨ 97 ≤ c ∧ c ≤ 102 := by
  decide

/-- `WORK_DIR`. -/
def workDir : PyStr := PyStr.ofString "/tmp/syzabi/work"

/-- A line of `find`. -/
def shellPath (file : TreeFile) : PyStr := workDir ++ 47 :: file.path

/-- The order of `sort`: that of the bytes. -/
def lineLe (a b : TreeFile) : Bool := Utf8.encode (shellPath a) ≤ Utf8.encode (shellPath b)

/-- `${path#$WORK_DIR/}`. -/
def stripWorkDir (path : PyStr) : PyStr :=
  if (workDir ++ [47]).isPrefixOf path then path.drop (workDir ++ [47]).length else path

/-- What is printed for a file. -/
def shellLine (sha256 : Sha256) (file : TreeFile) : StateLine where
  path := stripWorkDir (shellPath file)
  size := file.content.length
  sha256 := PyStr.ofString (sha256.hexdigest file.content)

/-- `emit_external_state` on what `find` lists. -/
def emitShellState (sha256 : Sha256) (found : List TreeFile) : PyStr :=
  let lines := (found.mergeSort lineLe).map (shellLine sha256)
  echo (beginMarker "EXTERNAL_STATE") ++
    objectText [member "files" (arrayText (lines.map StateLine.text))] ++ echo [] ++
    echo (endMarker "EXTERNAL_STATE")

/-- What the host reads back. -/
def parseShellState (sha256 : Sha256) (found : List TreeFile) : Except PyError Value :=
  parseExternalState (extractSection (emitShellState sha256 found) "EXTERNAL_STATE")

/-! ### Reading the section back -/

/-- The item of a file as the guest lists it. -/
def guestItem (sha256 : Sha256) (file : TreeFile) : FileItem where
  path := file.path
  size := file.content.length
  sha256 := some (sha256.hexdigest file.content)

/-- No quotes, backslashes and line feeds. -/
def ShellSafe (path : PyStr) : Prop := ∀ c ∈ path, c ≠ 34 ∧ c ≠ 92 ∧ c ≠ 10

/-- No control characters. -/
def Printable (path : PyStr) : Prop := ∀ c ∈ path, 32 ≤ c

theorem stripWorkDir_shellPath (file : TreeFile) : stripWorkDir (shellPath file) = file.path := by
  have hsplit : shellPath file = (workDir ++ [47]) ++ file.path := by
    rw [shellPath, List.append_assoc, List.singleton_append]
  have hbegin : (workDir ++ [47]).isPrefixOf ((workDir ++ [47]) ++ file.path) = true :=
    List.isPrefixOf_iff_prefix.mpr (List.prefix_append _ _)
  rw [hsplit, stripWorkDir, if_pos hbegin, List.drop_left]

section Reading

variable (sha256 : Sha256) {found : List TreeFile}

theorem value_shellLine (file : TreeFile) :
    (shellLine sha256 file).value = fileItemValue (guestItem sha256 file) := by
  rw [StateLine.value, shellLine, stripWorkDir_shellPath]
  rfl

theorem sound_shellLine {file : TreeFile} (hsafe : ShellSafe file.path) :
    (shellLine sha256 file).Sound where
  path_chars := by
    intro c hc
    rw [shellLine, stripWorkDir_shellPath] at hc
    exact ⟨(hsafe c hc).1, (hsafe c hc).2.1⟩
  sha256_hex := sha256.hex file.content

/-- The section is found as it was printed. -/
theorem parseShellState_eq (hsafe : ∀ file ∈ found, ShellSafe file.path) :
    parseShellState sha256 found = jsonLoads (objectText [member "files"
      (arrayText (((found.mergeSort lineLe).map (shellLine sha256)).map StateLine.text))]) := by
  have hsafeSorted : ∀ file ∈ found.mergeSort lineLe, ShellSafe file.path := fun file hfile ↦
    hsafe file (List.mem_mergeSort.mp hfile)
  refine StateLine.parseExternalState_texts (List.forall_mem_map.mpr fun file hfile ↦
    sound_shellLine sha256 (hsafeSorted file hfile)) (List.forall_mem_map.mpr fun file hfile ↦ ?_)
  rw [shellLine, stripWorkDir_shellPath]
  exact fun hmem ↦ (hsafeSorted file hfile 10 hmem).2.2 rfl

/-- The section is read back exactly when no path holds a control character. -/
theorem parseShellState_cases (hsafe : ∀ file ∈ found, ShellSafe file.path) :
    (∀ file ∈ found, Printable file.path) ∧ parseShellState sha256 found =
        .ok (externalStateValue
          { files := (found.mergeSort lineLe).map (guestItem sha256) }) ∨
      (¬∀ file ∈ found, Printable file.path) ∧
        ∃ error, parseShellState sha256 found = .error error := by
  set lines := (found.mergeSort lineLe).map (shellLine sha256)
  have hlines : ∀ line ∈ lines, ∃ file ∈ found, line = shellLine sha256 file := by
    intro line hline
    obtain ⟨file, hfile, rfl⟩ := List.mem_map.mp hline
    exact ⟨file, List.mem_mergeSort.mp hfile, rfl⟩
  have hpath : ∀ file : TreeFile, (shellLine sha256 file).path = file.path := fun file ↦
    stripWorkDir_shellPath file
  have hsound : ∀ line ∈ lines, line.Sound := by
    intro line hline
    obtain ⟨file, hfile, rfl⟩ := hlines line hline
    exact sound_shellLine sha256 (hsafe file hfile)
  have hvalue : dict [("files", .arr (lines.map StateLine.value))] =
      externalStateValue { files := (found.mergeSort lineLe).map (guestItem sha256) } := by
    rw [List.map_map, externalStateValue, List.map_map]
    exact congrArg (fun items ↦ dict [("files", .arr items)])
      (List.map_congr_left fun file _ ↦ value_shellLine sha256 file)
  rw [parseShellState_eq sha256 hsafe, ← hvalue]
  rcases StateLine.jsonLoads_texts hsound with ⟨hprintable, hread⟩ | ⟨hcontrol, hrefused⟩
  · refine .inl ⟨fun file hfile c hc ↦ ?_, hread⟩
    rw [← hpath] at hc
    exact hprintable _ (List.mem_map_of_mem (List.mem_mergeSort.mpr hfile)) c hc
  · refine .inr ⟨fun hprintable ↦ ?_, hrefused⟩
    obtain ⟨line, hline, c, hc, hlow⟩ := hcontrol
    obtain ⟨file, hfile, rfl⟩ := hlines line hline
    rw [hpath] at hc
    exact absurd (hprintable file hfile c hc) (Nat.not_le.mpr hlow)

end Reading

/-! ### The order of the guest -/

/-- The lines are in the order of the paths. -/
theorem shellPath_le_iff {tree : FileTree} {a b : TreeFile} (ha : a ∈ tree.files)
    (hb : b ∈ tree.files) :
    Utf8.encode (shellPath a) ≤ Utf8.encode (shellPath b) ↔ a.path ≤ b.path := by
  have hvalid : ∀ file ∈ tree.files, ∀ c ∈ shellPath file, c.isValidChar := by
    intro file hfile c hc
    rcases List.mem_append.mp hc with hdir | hmem
    · exact (show ∀ c ∈ workDir, c.isValidChar by decide) c hdir
    · rcases List.mem_cons.mp hmem with rfl | hpath
      · exact .inl (by decide)
      · exact tree.isValidChar_path hfile c hpath
  have hlt : shellPath b < shellPath a ↔ b.path < a.path := by
    rw [shellPath, shellPath, PathOrder.append_lt_append_iff, List.cons_lt_cons_self]
  rw [← not_lt, ← not_lt, Utf8.encode_lt_iff (hvalid b hb) (hvalid a ha), hlt]

/-- The guest lists every file once, in the order of the paths. -/
theorem guestItems_sorted (sha256 : Sha256) {tree : FileTree} {found : List TreeFile}
    (hfound : found.Perm tree.files) :
    ((found.mergeSort lineLe).map (guestItem sha256)).Perm (tree.files.map (guestItem sha256)) ∧
      ((found.mergeSort lineLe).map (guestItem sha256)).Pairwise fun a b ↦ a.path < b.path := by
  have hperm : (found.mergeSort lineLe).Perm tree.files :=
    (List.mergeSort_perm _ _).trans hfound
  have hsorted : (found.mergeSort lineLe).Pairwise fun a b ↦
      Utf8.encode (shellPath a) ≤ Utf8.encode (shellPath b) :=
    PathOrder.pairwise_mergeSort (fun _ _ ↦ decide_eq_true_iff) found
  have hsymm : Std.Symm fun a b : TreeFile ↦ a.path ≠ b.path := ⟨fun _ _ hne ↦ hne.symm⟩
  have hdifferent : (found.mergeSort lineLe).Pairwise fun a b ↦ a.path ≠ b.path :=
    (hperm.pairwise_iff fun {a b} ↦ hsymm.symm a b).mpr tree.pairwise_path_ne
  refine ⟨hperm.map _, List.pairwise_map.mpr ?_⟩
  refine (hsorted.and hdifferent).imp_of_mem fun {a b} ha hb hboth ↦ ?_
  exact lt_of_le_of_ne
    ((shellPath_le_iff (hperm.mem_iff.mp ha) (hperm.mem_iff.mp hb)).mp hboth.1) hboth.2

end SyzAbi.Tools

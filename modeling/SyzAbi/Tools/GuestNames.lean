import SyzAbi.Library.JsonNeeds
import SyzAbi.Library.Utf8Decode
import SyzAbi.Tools.GuestState

/-!
# The external state of files with arbitrary names

A file name is a string of bytes without zeros and slashes. `emit_external_state`
(`targets/asterinas/initramfs.py`) writes the paths that `find` prints to a file, one on a line,
sorts the lines, reads them back one by one, and prints each between quotes as it is. The host
decodes the console with replacements and universal newlines, cuts the section out and loads it.

What is loaded lists exactly the files when every path is UTF-8 without quotes, backslashes and
control characters, and in no other case (`hostState_exact_iff`): the strings of the listing would
need more backslashes than the paths hold.
-/

set_option autoImplicit false
set_option relaxedAutoImplicit false

namespace SyzAbi.Tools.GuestNames

open Analyzer Orchestrator Agent Library Library.Json

/-! ### The guest -/

/-- A file name, as bytes. -/
def IsByteName (name : List ℕ) : Prop :=
  name ∉ [[], [46], [46, 46]] ∧ ∀ byte ∈ name, byte ≠ 0 ∧ byte ≠ 47 ∧ byte < 256

/-- A regular file below the work directory. -/
structure GuestFile where
  parts : List (List ℕ)
  content : List UInt8

/-- The relative path of a file. -/
def GuestFile.path (file : GuestFile) : List ℕ := PathOrder.join 47 file.parts

/-- The path that `find` prints. -/
def GuestFile.line (file : GuestFile) : List ℕ := workDir ++ 47 :: file.path

/-- The regular files below the work directory. -/
structure GuestTree where
  files : List GuestFile
  parts_ne : ∀ file ∈ files, file.parts ≠ []
  names : ∀ file ∈ files, ∀ name ∈ file.parts, IsByteName name
  distinct : (files.map GuestFile.parts).Nodup

/-- What `stat` and `sha256sum` find at a path, seen from the work directory. -/
structure GuestDisk (tree : GuestTree) where
  statSize : List ℕ → Option ℕ
  readFile : List ℕ → Option (List UInt8)
  statSize_eq : ∀ file ∈ tree.files, statSize file.line = some file.content.length
  readFile_eq : ∀ file ∈ tree.files, readFile file.line = some file.content

/-! ### The script -/

/-- What `find` prints. -/
def findOutput (found : List GuestFile) : List ℕ := found.flatMap fun file ↦ file.line ++ [10]

/-- `while IFS= read -r`, from the middle of a line. -/
def readLinesFrom (line : List ℕ) : List ℕ → List (List ℕ)
  | [] => []
  | byte :: rest =>
    if byte = 10 then line :: readLinesFrom [] rest else readLinesFrom (line ++ [byte]) rest

/-- The lines of a text. -/
def readLines (text : List ℕ) : List (List ℕ) := readLinesFrom [] text

/-- The lines of `filelist.txt`, which `sort` orders by their bytes. -/
def fileList (found : List GuestFile) : List (List ℕ) :=
  (readLines (findOutput found)).insertionSort (· ≤ ·)

variable (sha256 : Sha256) {tree : GuestTree}

/-- What is printed for a line: the size is 0 when `stat` fails, the digest is empty when
`sha256sum` fails. -/
def printLine (disk : GuestDisk tree) (line : List ℕ) : StateLine where
  path := stripWorkDir line
  size := (disk.statSize line).getD 0
  sha256 := ((disk.readFile line).map fun content ↦
    PyStr.ofString (sha256.hexdigest content)).getD []

/-- The object with the printed lines. -/
def stateObject (lines : List StateLine) : List ℕ :=
  objectText [member "files" (arrayText (lines.map StateLine.text))]

/-- The section with the printed lines. -/
def stateSection (lines : List StateLine) : List ℕ :=
  echo (beginMarker "EXTERNAL_STATE") ++ stateObject lines ++ echo [] ++
    echo (endMarker "EXTERNAL_STATE")

/-- `emit_external_state`: the bytes of the section. -/
def emitExternalState (disk : GuestDisk tree) (found : List GuestFile) : List ℕ :=
  stateSection ((fileList found).map (printLine sha256 disk))

/-! ### The host -/

/-- What a text file opened with `newline=None` makes of line ends. -/
def universalNewlines : PyStr → PyStr
  | [] => []
  | 0x0D :: 0x0A :: rest => 0x0A :: universalNewlines rest
  | c :: rest => (if c = 0x0D then 0x0A else c) :: universalNewlines rest

/-- `read_text(encoding="utf-8", errors="replace")`. -/
def readConsole (bytes : List ℕ) : PyStr := universalNewlines (Utf8.decode bytes)

/-- What the host loads from the section. -/
def hostState (disk : GuestDisk tree) (found : List GuestFile) : Except PyError Value :=
  parseExternalState
    (extractSection (readConsole (emitExternalState sha256 disk found)) "EXTERNAL_STATE")

/-- An item with the path, the size and the digest of a file. -/
structure Lists (item : FileItem) (file : GuestFile) : Prop where
  valid : ∀ c ∈ item.path, c.isValidChar
  path_eq : Utf8.encode item.path = file.path
  size_eq : item.size = file.content.length
  sha256_eq : item.sha256 = some (sha256.hexdigest file.content)
  readError_eq : item.readError = none

/-- The loaded value lists exactly the files. -/
def ListsExactly (tree : GuestTree) (result : Except PyError Value) : Prop :=
  ∃ items : List FileItem, result = .ok (externalStateValue { files := items }) ∧
    ∃ files, files.Perm tree.files ∧ List.Forall₂ (Lists sha256) items files

/-- A path of text without quotes, backslashes and control characters. -/
def PlainPath (path : List ℕ) : Prop :=
  ∃ text : PyStr, (∀ c ∈ text, c.isValidChar) ∧ Plain text ∧ Utf8.encode text = path

/-! ### Marks in the section -/

theorem marks_readLinesFrom (line text : List ℕ) :
    ((readLinesFrom line text).map marks).sum ≤ marks line + marks text := by
  induction text generalizing line with
  | nil => exact Nat.zero_le _
  | cons byte rest ih =>
    rw [readLinesFrom, marks_cons]
    split_ifs
    · have hrest := ih []
      rw [List.map_cons, List.sum_cons]
      rw [show marks [] = 0 from rfl] at hrest
      omega
    · have hrest := ih (line ++ [byte])
      rw [marks_append] at hrest
      omega

theorem marks_findOutput (found : List GuestFile) :
    marks (findOutput found) = (found.map fun file ↦ marks file.path).sum := by
  induction found with
  | nil => rfl
  | cons file rest ih =>
    have hline : marks (file.line ++ [10]) = marks file.path := by
      rw [marks_append, GuestFile.line, marks_append, marks_cons,
        show marks workDir = 0 by decide, show marks [47] = 0 by decide,
        show marks [10] = 0 by decide, Nat.zero_add, Nat.zero_add, Nat.add_zero]
    rw [findOutput, List.flatMap_cons, marks_append, hline, List.map_cons, List.sum_cons, ← ih]
    rfl

theorem marks_stripWorkDir_le (path : PyStr) : marks (stripWorkDir path) ≤ marks path := by
  rw [stripWorkDir]
  split_ifs
  · exact (List.drop_sublist _ _).countP_le
  · exact le_rfl

/-- The digests of printed lines are hexadecimal. -/
theorem sha256_printLine (disk : GuestDisk tree) (line : List ℕ) :
    ∀ c ∈ (printLine sha256 disk line).sha256, 48 ≤ c ∧ c ≤ 57 ∨ 97 ≤ c ∧ c ≤ 102 := by
  intro c hc
  cases hread : disk.readFile line with
  | none => simp [printLine, hread] at hc
  | some content =>
    rw [printLine, hread] at hc
    exact sha256.hex content c hc

theorem marks_text_printLine_le (disk : GuestDisk tree) (line : List ℕ) :
    marks (printLine sha256 disk line).text ≤ marks line := by
  have hdigest : marks (printLine sha256 disk line).sha256 = 0 := by
    refine marks_eq_zero fun c hc ↦ ?_
    have := sha256_printLine sha256 disk line c hc
    omega
  have hkeys : marks (PyStr.ofString "path") = 0 ∧ marks (PyStr.ofString "size") = 0 ∧
      marks (PyStr.ofString "sha256") = 0 := by
    decide
  have hpath : marks (printLine sha256 disk line).path ≤ marks line := marks_stripWorkDir_le line
  simp only [StateLine.text, marks_objectText, member, List.map_cons, List.map_nil,
    List.sum_cons, List.sum_nil, marks_memberText, marks_quoted, marks_decimal, hkeys, hdigest]
  omega

/-- The section has no more marks than the paths. -/
theorem marks_emitExternalState_le (disk : GuestDisk tree) (found : List GuestFile) :
    marks (emitExternalState sha256 disk found) ≤ (found.map fun file ↦ marks file.path).sum := by
  have hframe : marks (echo (beginMarker "EXTERNAL_STATE")) = 0 ∧ marks (echo []) = 0 ∧
      marks (echo (endMarker "EXTERNAL_STATE")) = 0 ∧ marks (PyStr.ofString "files") = 0 := by
    decide
  have hlines : ((fileList found).map marks).sum =
      ((readLines (findOutput found)).map marks).sum :=
    ((List.perm_insertionSort _ _).map marks).sum_eq
  have hread := marks_readLinesFrom [] (findOutput found)
  rw [marks_findOutput, show marks [] = 0 from rfl, Nat.zero_add] at hread
  rw [emitExternalState, stateSection, marks_append, marks_append, marks_append, hframe.1,
    hframe.2.1, hframe.2.2.1, stateObject, marks_objectText, List.map_singleton,
    List.sum_singleton, member, marks_memberText, hframe.2.2.2, marks_arrayText, Nat.zero_add,
    Nat.zero_add, Nat.add_zero, List.map_map, List.map_map]
  refine le_trans (List.sum_le_sum fun line _ ↦ ?_) (hlines.trans_le hread)
  exact marks_text_printLine_le sha256 disk line

theorem marks_universalNewlines_le (text : PyStr) :
    marks (universalNewlines text) ≤ marks text := by
  fun_induction universalNewlines text with
  | case1 => exact le_rfl
  | case2 rest ih =>
    rw [marks_cons, marks_cons 13, marks_cons 10 rest]
    omega
  | case3 c rest _ ih =>
    have hc : marks [if c = 0x0D then 0x0A else c] ≤ marks [c] := by
      split_ifs
      · exact Nat.zero_le _
      · exact le_rfl
    rw [marks_cons, marks_cons c]
    omega

theorem marks_readConsole_le (bytes : List ℕ) : marks (readConsole bytes) ≤ marks bytes := by
  refine (marks_universalNewlines_le _).trans (Utf8.countP_decode_le (fun c hc ↦ ?_) bytes)
  exact decide_eq_false (by omega)

theorem marks_extractSection_le {text part : PyStr} {name : String}
    (hsection : extractSection text name = some part) : marks part ≤ marks text := by
  rw [extractSection] at hsection
  split at hsection
  · cases hsection
  · dsimp only at hsection
    split at hsection
    · cases hsection
    · obtain rfl := Option.some.inj hsection
      have hstrip : ∀ slice : PyStr, marks (stripLineFeeds slice) ≤ marks slice := by
        intro slice
        rw [stripLineFeeds, marks, List.countP_reverse]
        refine (List.dropWhile_sublist _).countP_le.trans ?_
        rw [List.countP_reverse]
        exact (List.dropWhile_sublist _).countP_le
      refine (hstrip _).trans ?_
      exact ((List.drop_sublist _ _).trans (List.take_sublist _ _)).countP_le

/-! ### What an exact listing needs -/

theorem marks_encode {text : PyStr} (hvalid : ∀ c ∈ text, c.isValidChar) :
    marks (Utf8.encode text) = marks text := by
  induction text with
  | nil => rfl
  | cons c rest ih =>
    rw [List.forall_mem_cons] at hvalid
    have hchar : marks (Utf8.encodePoint c) = marks [c] := by
      by_cases hascii : c < 128
      · rw [Utf8.encodePoint_ascii hascii]
      · rw [@marks_eq_zero [c] (by simp only [List.mem_singleton]; omega)]
        refine marks_eq_zero fun byte hbyte ↦ ?_
        have := Utf8.le_of_mem_encodePoint hvalid.1 (Nat.not_lt.mp hascii) hbyte
        omega
    rw [Utf8.encode_cons, marks_append, hchar, ih hvalid.2, ← marks_cons]

theorem valueNeeds_findMember_le {key : String} {value found : Value}
    (hfound : findMember key value = some found) : valueNeeds found ≤ valueNeeds value := by
  cases value with
  | obj members => exact valueNeeds_le_of_lookup hfound
  | _ => cases hfound

/-- The value of a listing needs what its paths need. -/
theorem sum_textNeeds_le (items : List FileItem) :
    (items.map fun item ↦ textNeeds item.path).sum ≤
      valueNeeds (externalStateValue { files := items }) := by
  refine le_trans ?_ (valueNeeds_findMember_le (findMember_externalStateValue _).1)
  rw [valueNeeds]
  induction items with
  | nil => exact Nat.zero_le _
  | cons item rest ih =>
    have hpath := valueNeeds_findMember_le (findMember_fileItemValue item).1
    rw [valueNeeds] at hpath
    exact Nat.add_le_add hpath ih

theorem valueNeeds_le_of_parseExternalState {text : PyStr} {name : String} {value : Value}
    (hparse : parseExternalState (extractSection text name) = .ok value) :
    valueNeeds value ≤ marks text := by
  have hempty : valueNeeds (dict [("files", .arr [])]) ≤ marks text :=
    (show valueNeeds (dict [("files", .arr [])]) = 0 by decide).trans_le (Nat.zero_le _)
  cases hsection : extractSection text name with
  | none =>
    rw [hsection] at hparse
    exact Except.ok.inj hparse ▸ hempty
  | some part =>
    rw [hsection] at hparse
    cases part with
    | nil => exact Except.ok.inj hparse ▸ hempty
    | cons c part =>
      rw [parseExternalState, jsonLoads] at hparse
      split at hparse
      · next found hfound =>
        obtain rfl := Except.ok.inj hparse
        exact (needs_le_of_parse hfound).trans (marks_extractSection_le hsection)
      · cases hparse

/-- Paths that need no more marks than they have are plain. -/
theorem plainPath_of_sum_le {items : List FileItem} {files : List GuestFile}
    (hlists : List.Forall₂ (Lists sha256) items files)
    (hsum : (items.map fun item ↦ textNeeds item.path).sum ≤
      (files.map fun file ↦ marks file.path).sum) : ∀ file ∈ files, PlainPath file.path := by
  have hmarks : ∀ {item : FileItem} {file : GuestFile}, Lists sha256 item file →
      marks file.path = marks item.path := fun hitem ↦ by
    rw [← hitem.path_eq, marks_encode hitem.valid]
  induction hlists with
  | nil => exact fun file hfile ↦ absurd hfile List.not_mem_nil
  | @cons item file items files hitem hrest ih =>
    have hleast : (files.map fun file ↦ marks file.path).sum ≤
        (items.map fun item ↦ textNeeds item.path).sum := by
      clear ih hsum
      induction hrest with
      | nil => exact le_rfl
      | cons hitem _ ih =>
        rw [List.map_cons, List.map_cons, List.sum_cons, List.sum_cons, hmarks hitem]
        exact Nat.add_le_add (marks_le_textNeeds _) ih
    have hhead := marks_le_textNeeds item.path
    have hfile := hmarks hitem
    rw [List.map_cons, List.map_cons, List.sum_cons, List.sum_cons] at hsum
    refine List.forall_mem_cons.mpr ⟨?_, ih (by omega)⟩
    exact ⟨item.path, hitem.valid, plain_of_textNeeds_le (by omega), hitem.path_eq⟩

/-! ### Plain paths -/

/-- The text of a plain path. -/
theorem PlainPath.decode {path : List ℕ} (hplain : PlainPath path) :
    (∀ c ∈ Utf8.decode path, c.isValidChar) ∧ Plain (Utf8.decode path) ∧
      Utf8.encode (Utf8.decode path) = path := by
  obtain ⟨text, hvalid, htext, rfl⟩ := hplain
  rw [Utf8.decode_encode hvalid]
  exact ⟨hvalid, htext, rfl⟩

theorem lineFeed_not_mem_line {file : GuestFile} (hplain : PlainPath file.path) :
    10 ∉ file.line := by
  obtain ⟨text, hvalid, htext, hpath⟩ := hplain
  rw [GuestFile.line, ← hpath, List.mem_append, List.mem_cons, not_or, not_or]
  refine ⟨by decide, by decide, fun hmem ↦ ?_⟩
  have := (htext 10 (Utf8.mem_of_mem_encode hvalid (by decide) hmem)).1
  omega

theorem readLinesFrom_append {start line : List ℕ} (hline : 10 ∉ line) (rest : List ℕ) :
    readLinesFrom start (line ++ 10 :: rest) = (start ++ line) :: readLinesFrom [] rest := by
  induction line generalizing start with
  | nil => rw [List.nil_append, readLinesFrom, if_pos rfl, List.append_nil]
  | cons byte line ih =>
    rw [List.mem_cons, not_or] at hline
    rw [List.cons_append, readLinesFrom, if_neg (Ne.symm hline.1), ih hline.2, List.append_assoc,
      List.singleton_append]

/-- Without line feeds in the paths every file has one line. -/
theorem fileList_eq {found : List GuestFile} (hlines : ∀ file ∈ found, 10 ∉ file.line) :
    fileList found = (found.insertionSort fun a b ↦ a.line ≤ b.line).map GuestFile.line := by
  have hread : readLines (findOutput found) = found.map GuestFile.line := by
    induction found with
    | nil => rfl
    | cons file rest ih =>
      rw [List.forall_mem_cons] at hlines
      rw [findOutput, List.flatMap_cons, List.append_assoc, List.singleton_append, readLines,
        readLinesFrom_append hlines.1, List.nil_append, List.map_cons, ← ih hlines.2]
      rfl
  rw [fileList, hread]
  exact (List.map_insertionSort _ _ GuestFile.line found fun a _ b _ ↦ Iff.rfl).symm

/-- The line of a file as text. -/
def textLine (file : GuestFile) : StateLine where
  path := Utf8.decode file.path
  size := file.content.length
  sha256 := PyStr.ofString (sha256.hexdigest file.content)

/-- The line with the bytes of its path. -/
def encodeLine (line : StateLine) : StateLine := { line with path := Utf8.encode line.path }

theorem printLine_eq (disk : GuestDisk tree) {file : GuestFile} (hfile : file ∈ tree.files)
    (hplain : PlainPath file.path) :
    printLine sha256 disk file.line = encodeLine (textLine sha256 file) := by
  have hstrip : stripWorkDir file.line = file.path := by
    have hsplit : file.line = (workDir ++ [47]) ++ file.path := by
      rw [GuestFile.line, List.append_assoc, List.singleton_append]
    have hbegin : (workDir ++ [47]).isPrefixOf ((workDir ++ [47]) ++ file.path) = true :=
      List.isPrefixOf_iff_prefix.mpr (List.prefix_append _ _)
    rw [hsplit, stripWorkDir, if_pos hbegin, List.drop_left]
  rw [printLine, hstrip, disk.statSize_eq file hfile, disk.readFile_eq file hfile, encodeLine,
    textLine, hplain.decode.2.2]
  rfl

theorem encode_commaJoin (texts : List PyStr) :
    Utf8.encode (commaJoin texts) = commaJoin (texts.map Utf8.encode) := by
  induction texts with
  | nil => rfl
  | cons text rest ih =>
    cases rest with
    | nil => rfl
    | cons next more =>
      rw [commaJoin_cons_cons, Utf8.encode_append, Utf8.encode_cons, ih,
        Utf8.encodePoint_ascii (by decide)]
      rfl

theorem encode_bracketed {opening closing : ℕ} (hopening : opening < 128) (hclosing : closing < 128)
    (text : PyStr) : Utf8.encode (opening :: text ++ [closing]) =
      opening :: Utf8.encode text ++ [closing] := by
  rw [List.cons_append, Utf8.encode_cons, Utf8.encode_append, Utf8.encodePoint_ascii hopening,
    @Utf8.encode_ascii [closing] (by simpa using hclosing)]
  rfl

theorem encode_quoted (text : PyStr) : Utf8.encode (quoted text) = quoted (Utf8.encode text) :=
  encode_bracketed (by decide) (by decide) text

theorem encode_arrayText (texts : List PyStr) :
    Utf8.encode (arrayText texts) = arrayText (texts.map Utf8.encode) := by
  rw [arrayText, encode_bracketed (by decide) (by decide), encode_commaJoin]
  rfl

theorem encode_objectText (texts : List PyStr) :
    Utf8.encode (objectText texts) = objectText (texts.map Utf8.encode) := by
  rw [objectText, encode_bracketed (by decide) (by decide), encode_commaJoin]
  rfl

theorem encode_member {key : String} (hkey : ∀ c ∈ PyStr.ofString key, c < 128) (text : PyStr) :
    Utf8.encode (member key text) = member key (Utf8.encode text) := by
  rw [member, memberText, Utf8.encode_append, encode_quoted, Utf8.encode_ascii hkey,
    Utf8.encode_cons, Utf8.encodePoint_ascii (by decide)]
  rfl

theorem encode_text {line : StateLine} (hdigest : ∀ c ∈ line.sha256, c < 128) :
    Utf8.encode line.text = (encodeLine line).text := by
  have hsize : Utf8.encode (decimal line.size) = decimal line.size := by
    refine Utf8.encode_ascii fun c hc ↦ ?_
    have := isDigit_iff.mp (isDigit_of_mem_decimal hc)
    omega
  rw [StateLine.text, encode_objectText, List.map_cons, List.map_cons, List.map_singleton,
    encode_member (by decide), encode_member (by decide), encode_member (by decide),
    encode_quoted, encode_quoted, hsize, Utf8.encode_ascii hdigest]
  rfl

/-- The section of the encoded paths is the encoded section. -/
theorem encode_stateSection {lines : List StateLine}
    (hdigests : ∀ line ∈ lines, ∀ c ∈ line.sha256, c < 128) :
    Utf8.encode (stateSection lines) = stateSection (lines.map encodeLine) := by
  have htexts : (lines.map StateLine.text).map Utf8.encode =
      (lines.map encodeLine).map StateLine.text := by
    rw [List.map_map, List.map_map]
    exact List.map_congr_left fun line hline ↦ encode_text (hdigests line hline)
  rw [stateSection, Utf8.encode_append, Utf8.encode_append, Utf8.encode_append, stateObject,
    encode_objectText, List.map_singleton, encode_member (by decide), encode_arrayText, htexts,
    @Utf8.encode_ascii (echo (beginMarker "EXTERNAL_STATE")) (by decide),
    @Utf8.encode_ascii (echo []) (by decide),
    @Utf8.encode_ascii (echo (endMarker "EXTERNAL_STATE")) (by decide)]
  rfl

/-! ### Reading the section back -/

theorem universalNewlines_eq_self {text : PyStr} (hfree : 13 ∉ text) :
    universalNewlines text = text := by
  fun_induction universalNewlines text with
  | case1 => rfl
  | case2 rest ih => exact absurd List.mem_cons_self hfree
  | case3 c rest _ ih =>
    rw [List.mem_cons, not_or] at hfree
    rw [if_neg (Ne.symm hfree.1), ih hfree.2]

theorem not_mem_stateSection {lines : List StateLine} {c : ℕ} (hc : c ≠ 10 ∧ (c < 32 ∨ 128 ≤ c))
    (hobject : c ∉ stateObject lines) : c ∉ stateSection lines := by
  have hframe : ∀ c ∈ echo (beginMarker "EXTERNAL_STATE") ++ echo [] ++
      echo (endMarker "EXTERNAL_STATE"), c = 10 ∨ 32 ≤ c ∧ c < 128 := by
    decide
  intro hmem
  simp only [stateSection, List.mem_append] at hmem
  have hother := hframe c
  simp only [List.mem_append] at hother
  have := hother (by tauto)
  omega

/-- The section with printable paths loads as the values of its lines. -/
theorem parseExternalState_stateSection {lines : List StateLine}
    (hsound : ∀ line ∈ lines, line.Sound) (hplain : ∀ line ∈ lines, Plain line.path) :
    parseExternalState (extractSection (stateSection lines) "EXTERNAL_STATE") =
      .ok (dict [("files", .arr (lines.map StateLine.value))]) := by
  have hlineFeed : ∀ line ∈ lines, 10 ∉ line.path := by
    intro line hline hmem
    have := (hplain line hline 10 hmem).1
    omega
  rw [stateSection, stateObject, StateLine.parseExternalState_texts hsound hlineFeed]
  rcases StateLine.jsonLoads_texts hsound with ⟨-, hread⟩ | ⟨⟨line, hline, c, hc, hlow⟩, -⟩
  · exact hread
  · have := (hplain line hline c hc).1
    omega

/-- What the host loads lists exactly the files when every path is UTF-8 without quotes, backslashes
and control characters, and in no other case. -/
theorem hostState_exact_iff (disk : GuestDisk tree) {found : List GuestFile}
    (hfound : found.Perm tree.files) :
    ListsExactly sha256 tree (hostState sha256 disk found) ↔
      ∀ file ∈ tree.files, PlainPath file.path := by
  constructor
  · rintro ⟨items, hresult, files, hperm, hlists⟩ file hfile
    have hsame : (found.map fun file ↦ marks file.path).sum =
        (files.map fun file ↦ marks file.path).sum :=
      ((hfound.trans hperm.symm).map _).sum_eq
    have hneeds := (sum_textNeeds_le items).trans
      ((valueNeeds_le_of_parseExternalState hresult).trans
        ((marks_readConsole_le _).trans (marks_emitExternalState_le sha256 disk found)))
    exact plainPath_of_sum_le sha256 hlists (hneeds.trans_eq hsame) file (hperm.mem_iff.mpr hfile)
  · intro hplain
    set sorted := found.insertionSort fun a b ↦ a.line ≤ b.line
    have hsorted : sorted.Perm tree.files := (List.perm_insertionSort _ _).trans hfound
    have hpaths : ∀ file ∈ sorted, PlainPath file.path := fun file hfile ↦
      hplain file (hsorted.mem_iff.mp hfile)
    set lines := sorted.map (textLine sha256)
    have hsound : ∀ line ∈ lines, line.Sound := by
      rw [List.forall_mem_map]
      exact fun file hfile ↦ ⟨fun c hc ↦ ((hpaths file hfile).decode.2.1 c hc).2,
        sha256.hex file.content⟩
    have htexts : ∀ line ∈ lines, Plain line.path := by
      rw [List.forall_mem_map]
      exact fun file hfile ↦ (hpaths file hfile).decode.2.1
    have hemit : emitExternalState sha256 disk found = Utf8.encode (stateSection lines) := by
      rw [emitExternalState, fileList_eq fun file hfile ↦
        lineFeed_not_mem_line (hplain file (hfound.mem_iff.mp hfile)), encode_stateSection fun
          line hline c hc ↦ by
            have := (hsound line hline).sha256_hex c hc
            omega, List.map_map, List.map_map]
      refine congrArg stateSection (List.map_congr_left fun file hfile ↦ ?_)
      exact printLine_eq sha256 disk (hsorted.mem_iff.mp hfile) (hpaths file hfile)
    have hfree : ∀ c, c ≠ 10 ∧ (c < 32 ∨ 128 ≤ c) → (∀ line ∈ lines, c ∉ line.path) →
        c ∉ stateSection lines := fun c hc hpath ↦
      not_mem_stateSection hc (StateLine.not_mem_texts hsound hc.2 hpath)
    have hvalid : ∀ c ∈ stateSection lines, c.isValidChar := by
      intro c hc
      by_contra hinvalid
      refine hfree c ?_ ?_ hc
      · have hhigh : ¬c < 0xD800 := fun hlow ↦ hinvalid (.inl hlow)
        omega
      · rw [List.forall_mem_map]
        exact fun file hfile hmem ↦ hinvalid ((hpaths file hfile).decode.1 c hmem)
    have hreturn : 13 ∉ stateSection lines := by
      refine hfree 13 (by decide) fun line hline hmem ↦ ?_
      have := (htexts line hline 13 hmem).1
      omega
    have hconsole : readConsole (emitExternalState sha256 disk found) = stateSection lines := by
      rw [readConsole, hemit, Utf8.decode_encode hvalid, universalNewlines_eq_self hreturn]
    let item : GuestFile → FileItem := fun file ↦
      { path := Utf8.decode file.path
        size := file.content.length
        sha256 := some (sha256.hexdigest file.content) }
    refine ⟨sorted.map item, ?_, sorted, hsorted, ?_⟩
    · rw [hostState, hconsole, parseExternalState_stateSection hsound htexts, List.map_map,
        externalStateValue, List.map_map]
      rfl
    · rw [List.forall₂_map_left_iff, List.forall₂_same]
      exact fun file hfile ↦ ⟨(hpaths file hfile).decode.1, (hpaths file hfile).decode.2.2, rfl,
        rfl, rfl⟩

/-! ### Names -/

/-- A text file, and a file with two bytes in a subdirectory whose name is not ASCII. -/
def helloFile : GuestFile := ⟨[PyStr.ofString "f"], [104, 101, 108, 108, 111]⟩

def binaryFile : GuestFile :=
  ⟨[PyStr.ofString "d", Utf8.encode (PyStr.ofString "é.bin")], [255, 0]⟩

/-- SHA-256 on these files. -/
def twoDigests : Sha256 where
  hexdigest bytes :=
    if bytes = helloFile.content then
      "2cf24dba5fb0a30e26e83b2ac5b9e29e1b161e5c1fa7425e73043362938b9824"
    else if bytes = binaryFile.content then
      "ea5dbf9596d187e9500f23e9a680109475341cf4e81f7e043f7d97152c10772f"
    else emptyHexdigest
  hex bytes := by
    split_ifs
    · decide
    · decide
    · exact emptyHexdigest_hex bytes

instance (name : List ℕ) : Decidable (IsByteName name) :=
  inferInstanceAs (Decidable (_ ∧ _))

def twoFiles : GuestTree where
  files := [helloFile, binaryFile]
  parts_ne := by decide
  names := by decide
  distinct := by decide

def twoFilesDisk : GuestDisk twoFiles where
  statSize line :=
    if line = helloFile.line then some 5 else if line = binaryFile.line then some 2 else none
  readFile line :=
    if line = helloFile.line then some helloFile.content
    else if line = binaryFile.line then some binaryFile.content else none
  statSize_eq := by decide
  readFile_eq := by decide

/-- Both files are listed, in whichever order they are found. -/
theorem hostState_exact_plain :
    ListsExactly twoDigests twoFiles
      (hostState twoDigests twoFilesDisk [binaryFile, helloFile]) := by
  refine (hostState_exact_iff twoDigests twoFilesDisk (List.Perm.swap _ _ _)).mpr ?_
  intro file hfile
  rcases List.mem_pair.mp hfile with rfl | rfl
  · exact ⟨PyStr.ofString "f", by decide, fun c hc ↦ by revert c; decide, by decide⟩
  · exact ⟨PyStr.ofString "d/é.bin", by decide, fun c hc ↦ by revert c; decide, by decide⟩

/-- SHA-256 on files without content. -/
def digestOfNothing : Sha256 where
  hexdigest _ := emptyHexdigest
  hex := emptyHexdigest_hex

/-- One file without content in the work directory. -/
def oneFile (name : List ℕ) (hname : IsByteName name) : GuestTree where
  files := [⟨[name], []⟩]
  parts_ne := by simp
  names := by simpa using hname
  distinct := List.nodup_singleton _

/-- A disk that holds this file only. -/
def oneFileDisk (name : List ℕ) (hname : IsByteName name) : GuestDisk (oneFile name hname) where
  statSize line := if line = workDir ++ 47 :: name then some 0 else none
  readFile line := if line = workDir ++ 47 :: name then some [] else none
  statSize_eq := by simp [oneFile, GuestFile.line, GuestFile.path, PathOrder.join, PathOrder.behind]
  readFile_eq := by simp [oneFile, GuestFile.line, GuestFile.path, PathOrder.join, PathOrder.behind]

/-- What the host loads when the work directory holds one file without content. -/
def oneFileState (name : List ℕ) (hname : IsByteName name) : Except PyError Value :=
  hostState digestOfNothing (oneFileDisk name hname) (oneFile name hname).files

/-- What is printed for a file without content, and for a line that is no path of a file. -/
def emptyLine (path : PyStr) : StateLine :=
  ⟨path, 0, PyStr.ofString (digestOfNothing.hexdigest [])⟩

def missingLine (path : PyStr) : StateLine := ⟨path, 0, []⟩

/-- What the console shows for one file without content. -/
def oneFileConsole (name : List ℕ) (hname : IsByteName name) : PyStr :=
  readConsole (emitExternalState digestOfNothing (oneFileDisk name hname)
    (oneFile name hname).files)

/-- With a quote in its name a file makes the section unreadable, and with a line feed it is listed
as two files without content that do not exist. -/
theorem hostState_not_exact :
    (∃ error, oneFileState (PyStr.ofString "a\"b") (by decide) = .error error) ∧
    oneFileState (PyStr.ofString "a\nb") (by decide) =
      .ok (dict [("files", .arr [(missingLine (PyStr.ofString "a")).value,
        (missingLine (PyStr.ofString "b")).value])]) ∧
    ¬ListsExactly digestOfNothing (oneFile (PyStr.ofString "a\"b") (by decide))
      (oneFileState (PyStr.ofString "a\"b") (by decide)) := by
  have hquote : ∃ error, oneFileState (PyStr.ofString "a\"b") (by decide) = .error error := by
    have hsection : extractSection (oneFileConsole (PyStr.ofString "a\"b") (by decide))
        "EXTERNAL_STATE" = some (stateObject [emptyLine (PyStr.ofString "a\"b")]) := by
      decide +kernel
    have hparse : parse (stateObject [emptyLine (PyStr.ofString "a\"b")]) = none :=
      Option.isNone_iff_eq_none.mp (by decide +kernel)
    refine ⟨⟨"JSONDecodeError", "malformed JSON document"⟩, ?_⟩
    rw [oneFileState, hostState, ← oneFileConsole, hsection]
    show jsonLoads (stateObject [emptyLine (PyStr.ofString "a\"b")]) = _
    rw [jsonLoads, hparse]
  have hbreak : oneFileConsole (PyStr.ofString "a\nb") (by decide) =
      stateSection [missingLine (PyStr.ofString "a"), missingLine (PyStr.ofString "b")] := by
    decide
  refine ⟨hquote, ?_, ?_⟩
  · rw [oneFileState, hostState, ← oneFileConsole, hbreak, parseExternalState_stateSection]
    · rfl
    · intro line hline
      rcases List.mem_pair.mp hline with rfl | rfl
      · exact ⟨by decide, by decide⟩
      · exact ⟨by decide, by decide⟩
    · intro line hline
      rcases List.mem_pair.mp hline with rfl | rfl
      · exact fun c hc ↦ by revert c; decide
      · exact fun c hc ↦ by revert c; decide
  · rintro ⟨items, hitems, -⟩
    obtain ⟨error, herror⟩ := hquote
    rw [herror] at hitems
    cases hitems

end SyzAbi.Tools.GuestNames

import SyzAbi.Library.Search
import SyzAbi.Orchestrator.CandidateBatch

/-!
# The gate of the SCML preflight

`targets/asterinas/scml.py`: what the gate makes of the lines that the matcher prints on the system
calls of a program. `relevantOutputLines` drops the lines on calls that the program does not aim at,
and `classifyLine` turns a line into its rejection reasons.

Both read the name of the call off the line on their own. Where it cannot be read, the classifier
reports a gap of the parser, but the filter has already dropped the line. `failClosed_iff`: the
filter loses no reason exactly when all lines on unsupported calls have a name that can be read.

Texts are lists of code points. The decimal digits beyond ASCII, which `\d` matches as well, are a
table of the Unicode standard and a parameter here.
-/

set_option autoImplicit false
set_option relaxedAutoImplicit false

namespace SyzAbi.Targets

open Orchestrator Library.Json Library.Fallible

/-! ### Lines -/

/-- `UNSUPPORTED_PREFIX`. -/
def unsupportedPrefix : PyStr := PyStr.ofString "Unsupported syscall: "

/-- `PARSE_ERROR_PREFIX`. -/
def parseErrorPrefix : PyStr := PyStr.ofString "Strace Parse Error: "

/-- The class `[A-Za-z0-9_]` of `SYSCALL_NAME_RE`. -/
def isNameChar (c : ℕ) : Bool :=
  isDigit c || (65 ≤ c && c ≤ 90) || (97 ≤ c && c ≤ 122) || c = 95

/-- A name at the head of a text, with an opening parenthesis behind it. -/
def nameAtHead (text : PyStr) : Option PyStr :=
  match text.takeWhile isNameChar, text.dropWhile isNameChar with
  | c :: name, 0x28 :: _ => some (c :: name)
  | _, _ => none

variable (unicodeDigit : ℕ → Bool)

/-- `\d`. -/
def isDecimal (c : ℕ) : Bool := if c < 128 then isDigit c else unicodeDigit c

/-- `parse_syscall_name`. A process number counts as one when whitespace follows it; neither part of
the pattern can give back what it matched. -/
def parseSyscallName (straceLine : PyStr) : Option PyStr :=
  let line := straceLine.dropWhile isStripped
  let behindNumber := line.dropWhile (isDecimal unicodeDigit)
  if behindNumber.length < line.length ∧ (behindNumber.head?.any isStripped) = true then
    nameAtHead (behindNumber.dropWhile isStripped)
  else nameAtHead line

/-- `parse_sctrace_lines`. -/
def parseSctraceLines (stdout stderr : PyStr) : List PyStr :=
  ((splitLines stdout ++ splitLines stderr).map strip).filter fun stripped ↦
    unsupportedPrefix.isPrefixOf stripped || parseErrorPrefix.isPrefixOf stripped

/-- `line[len(UNSUPPORTED_PREFIX) :].strip()`. -/
def straceLineOf (line : PyStr) : PyStr := strip (line.drop unsupportedPrefix.length)

/-! ### The gate -/

/-- An entry of the manifest: its items in their order. -/
abbrev ManifestEntry := List (PyStr × Value)

/-- `AsterinasSCMLGate`. -/
structure ScmlGate where
  manifestIndex : List (PyStr × ManifestEntry)
  taxonomy : List (String × String)

/-- `self.taxonomy[key]`. -/
def ScmlGate.taxonomyItem (gate : ScmlGate) (key : String) : Except PyError String :=
  match gate.taxonomy.lookup key with
  | some reason => .ok reason
  | none => .error ⟨"KeyError", "'" ++ key ++ "'"⟩

/-- `FIELD_REASON_HINTS`. -/
def fieldReasonHints : List (String × String) :=
  ["flags", "flags_in_events", "mount_flags", "event_flags", "control_flags", "codes", "masks",
    "who_flags", "op_flags"].map fun field ↦ (field, "unsupported_flag_pattern")

/-- `PATH_PATTERN_SYSCALLS`. -/
def pathPatternSyscalls : List String :=
  ["mount", "umount", "umount2", "open", "openat", "rename", "renameat", "renameat2", "mkdir",
    "mkdirat", "link", "linkat", "symlink", "symlinkat", "unlink", "unlinkat", "newfstatat",
    "faccessat", "faccessat2", "readlinkat", "utimensat"]

/-- `STRUCT_PATTERN_SYSCALLS`. -/
def structPatternSyscalls : List String := ["clone3"]

/-- `any(value and value in strace_line for value in values)`. -/
def anyListed (straceLine : PyStr) : List Value → Except PyError Bool
  | [] => .ok false
  | value :: rest =>
    if truthy value then
      match value with
      | .str text =>
        if (Library.Search.find text straceLine).isSome then .ok true
        else anyListed straceLine rest
      | _ => .error ⟨"TypeError", "'in <string>' requires string as left operand"⟩
    else anyListed straceLine rest

/-- The loop of `classify_reason_from_entry`: the field that names a value of the line. -/
def unsupportedField (straceLine : PyStr) : ManifestEntry → Except PyError (Option PyStr)
  | [] => .ok none
  | (key, .arr values) :: rest =>
    if (PyStr.ofString "unsupported_").isPrefixOf key then do
      if ← anyListed straceLine values then
        return some (key.drop (PyStr.ofString "unsupported_").length)
      else unsupportedField straceLine rest
    else unsupportedField straceLine rest
  | _ :: rest => unsupportedField straceLine rest

/-- Membership of a name in a set of strings; a list or a dict has no hash. -/
def inNames (names : List String) : Value → Except PyError Bool
  | .str text => .ok (names.any fun name ↦ PyStr.ofString name = text)
  | .arr _ => .error ⟨"TypeError", "unhashable type: 'list'"⟩
  | .obj _ => .error ⟨"TypeError", "unhashable type: 'dict'"⟩
  | _ => .ok false

/-- `classify_reason_from_entry`. -/
def ScmlGate.classifyReasonFromEntry (gate : ScmlGate) (straceLine : PyStr)
    (entry : ManifestEntry) : Except PyError String := do
  match ← unsupportedField straceLine entry with
  | some field =>
    gate.taxonomyItem ((fieldReasonHints.lookup (pyText field)).getD "unsupported_flag_pattern")
  | none =>
    match entry.lookup (PyStr.ofString "name") with
    | none => .error ⟨"KeyError", "'name'"⟩
    | some name =>
      if ← inNames structPatternSyscalls name then gate.taxonomyItem "unsupported_struct_pattern"
      else if ← inNames pathPatternSyscalls name then gate.taxonomyItem "unsupported_path_pattern"
      else gate.taxonomyItem "unsupported_flag_pattern"

/-- The condition of the comprehension in `relevant_output_lines`. -/
def isRelevant (targets : List PyStr) (line : PyStr) : Bool :=
  !unsupportedPrefix.isPrefixOf line ||
    (parseSyscallName unicodeDigit (straceLineOf line)).any fun name ↦ name ∈ targets

/-- `relevant_output_lines`. The set of target calls may be absent. -/
def relevantOutputLines (targetSyscalls : Option (List PyStr)) (outputLines : List PyStr) :
    List PyStr :=
  match targetSyscalls with
  | none => outputLines
  | some targets => outputLines.filter (isRelevant unicodeDigit targets)

/-- `classify_line`. -/
def ScmlGate.classifyLine (gate : ScmlGate) (targetSyscalls : Option (List PyStr))
    (line : PyStr) : Except PyError (List String) :=
  if parseErrorPrefix.isPrefixOf line then do
    return [← gate.taxonomyItem "scml_parser_gap"]
  else if !unsupportedPrefix.isPrefixOf line then do
    return [← gate.taxonomyItem "scml_parser_gap"]
  else
    match parseSyscallName unicodeDigit (straceLineOf line) with
    | none => do
      return [← gate.taxonomyItem "scml_parser_gap"]
    | some syscallName =>
      if targetSyscalls.any fun targets ↦ syscallName ∉ targets then .ok []
      else
        match gate.manifestIndex.lookup syscallName with
        | none => do
          return [← gate.taxonomyItem "syscall_not_in_manifest"]
        | some entry =>
          if ((entry.lookup (PyStr.ofString "generation_enabled")).map truthy).getD true then do
            return [← gate.classifyReasonFromEntry (straceLineOf line) entry]
          else do
            return [← gate.taxonomyItem "deferred_category"]

/-- The loop over some lines: the reasons one after the other. -/
def ScmlGate.reasonsOf (gate : ScmlGate) (targetSyscalls : Option (List PyStr))
    (lines : List PyStr) : Except PyError (List String) :=
  List.flatten <$> lines.mapM (gate.classifyLine unicodeDigit targetSyscalls)

/-! ### The filter -/

/-- The filter loses no reason: the lines it keeps have the reasons of all lines, and every line it
drops has none. -/
structure FailClosed (gate : ScmlGate) (targetSyscalls : Option (List PyStr))
    (lines : List PyStr) : Prop where
  reasons : gate.reasonsOf unicodeDigit targetSyscalls
      (relevantOutputLines unicodeDigit targetSyscalls lines) =
    gate.reasonsOf unicodeDigit targetSyscalls lines
  dropped : ∀ line ∈ lines, line ∉ relevantOutputLines unicodeDigit targetSyscalls lines →
    gate.classifyLine unicodeDigit targetSyscalls line = .ok []

/-- The name of the call can be read off a line on an unsupported call. -/
def Named (line : PyStr) : Prop :=
  unsupportedPrefix <+: line → (parseSyscallName unicodeDigit (straceLineOf line)).isSome

variable {unicodeDigit} {gate : ScmlGate} {targetSyscalls : Option (List PyStr)} {line : PyStr}

/-- The prefixes begin with different letters. -/
theorem not_parseError_of_unsupported (hunsupported : unsupportedPrefix <+: line) :
    parseErrorPrefix.isPrefixOf line = false := by
  obtain ⟨rest, rfl⟩ := hunsupported
  rfl

/-- A reason of the gate is an item of the taxonomy. -/
def ScmlGate.Names (gate : ScmlGate) (reason : String) : Prop :=
  ∃ key, gate.taxonomy.lookup key = some reason

theorem names_of_taxonomyItem {key reason : String} (hitem : gate.taxonomyItem key = .ok reason) :
    gate.Names reason := by
  rw [ScmlGate.taxonomyItem] at hitem
  split at hitem
  · next found hfound => exact ⟨key, Except.ok.inj hitem ▸ hfound⟩
  · cases hitem

theorem names_of_classifyReasonFromEntry {straceLine : PyStr} {entry : ManifestEntry}
    {reason : String} (hreason : gate.classifyReasonFromEntry straceLine entry = .ok reason) :
    gate.Names reason := by
  rw [ScmlGate.classifyReasonFromEntry] at hreason
  obtain ⟨field, -, hreason⟩ := bind_eq_ok_iff.mp hreason
  cases field with
  | some field => exact names_of_taxonomyItem hreason
  | none =>
    dsimp only at hreason
    split at hreason
    · cases hreason
    · obtain ⟨struct, -, hreason⟩ := bind_eq_ok_iff.mp hreason
      split_ifs at hreason
      · exact names_of_taxonomyItem hreason
      · obtain ⟨path, -, hreason⟩ := bind_eq_ok_iff.mp hreason
        split_ifs at hreason
        · exact names_of_taxonomyItem hreason
        · exact names_of_taxonomyItem hreason

/-- The reasons of a line are items of the taxonomy. -/
theorem names_of_mem_classifyLine {reasons : List String}
    (hline : gate.classifyLine unicodeDigit targetSyscalls line = .ok reasons) :
    ∀ reason ∈ reasons, gate.Names reason := by
  have hsingle : ∀ {item : Except PyError String},
      (∀ reason, item = .ok reason → gate.Names reason) →
        (do return [← item] : Except PyError (List String)) = .ok reasons →
          ∀ reason ∈ reasons, gate.Names reason := by
    intro item hitem hreasons
    obtain ⟨only, honly, hreasons⟩ := bind_eq_ok_iff.mp hreasons
    rw [← pure_eq_ok_iff.mp hreasons]
    exact List.forall_mem_singleton.mpr (hitem only honly)
  have hitem : ∀ key reason, gate.taxonomyItem key = .ok reason → gate.Names reason :=
    fun _ _ ↦ names_of_taxonomyItem
  rw [ScmlGate.classifyLine] at hline
  split_ifs at hline
  · exact hsingle (hitem _) hline
  · exact hsingle (hitem _) hline
  · split at hline
    · exact hsingle (hitem _) hline
    · split_ifs at hline
      · rw [← Except.ok.inj hline]
        exact List.forall_mem_nil _
      · split at hline
        · exact hsingle (hitem _) hline
        · split_ifs at hline
          · exact hsingle (fun _ ↦ names_of_classifyReasonFromEntry) hline
          · exact hsingle (hitem _) hline

/-- The reasons of some lines are items of the taxonomy. -/
theorem names_of_mem_reasonsOf {lines : List PyStr} {reasons : List String}
    (hreasons : gate.reasonsOf unicodeDigit targetSyscalls lines = .ok reasons) :
    ∀ reason ∈ reasons, gate.Names reason := by
  intro reason hreason
  cases hlines : lines.mapM (gate.classifyLine unicodeDigit targetSyscalls) with
  | error error =>
    rw [ScmlGate.reasonsOf, hlines] at hreasons
    cases hreasons
  | ok lists =>
    rw [ScmlGate.reasonsOf, hlines] at hreasons
    rw [← Except.ok.inj hreasons] at hreason
    obtain ⟨list, hlist, hmem⟩ := List.mem_flatten.mp hreason
    obtain ⟨line, -, hline⟩ := exists_of_mapM_eq_ok hlines hlist
    exact names_of_mem_classifyLine hline reason hmem

/-- A gap of the parser is a reason. -/
theorem taxonomyItem_bind_ne_nil (key : String) :
    (do return [← gate.taxonomyItem key] : Except PyError (List String)) ≠ .ok [] := by
  cases gate.taxonomyItem key with
  | error error =>
    intro h
    cases h
  | ok reason => exact fun h ↦ List.cons_ne_nil _ _ (Except.ok.inj h)

/-- A line whose call has no name is a gap of the parser for the classifier. -/
theorem classifyLine_of_unnamed (hunsupported : unsupportedPrefix <+: line)
    (hname : parseSyscallName unicodeDigit (straceLineOf line) = none) :
    gate.classifyLine unicodeDigit targetSyscalls line =
      (do return [← gate.taxonomyItem "scml_parser_gap"]) := by
  rw [ScmlGate.classifyLine, not_parseError_of_unsupported hunsupported,
    List.isPrefixOf_iff_prefix.mpr hunsupported, hname]
  rfl

/-- A line on another call than those aimed at has no reason. -/
theorem classifyLine_of_other (hunsupported : unsupportedPrefix <+: line) {syscallName : PyStr}
    (hname : parseSyscallName unicodeDigit (straceLineOf line) = some syscallName)
    {targets : List PyStr} (hother : syscallName ∉ targets) :
    gate.classifyLine unicodeDigit (some targets) line = .ok [] := by
  rw [ScmlGate.classifyLine, not_parseError_of_unsupported hunsupported,
    List.isPrefixOf_iff_prefix.mpr hunsupported, hname]
  exact if_pos (decide_eq_true hother)

/-- What the filter drops: the lines on unsupported calls whose name is not aimed at, or cannot be
read. -/
theorem isRelevant_eq_false_iff {targets : List PyStr} :
    isRelevant unicodeDigit targets line = false ↔ unsupportedPrefix <+: line ∧
      ∀ name, parseSyscallName unicodeDigit (straceLineOf line) = some name → name ∉ targets := by
  rw [isRelevant, Bool.or_eq_false_iff, Bool.not_eq_false', List.isPrefixOf_iff_prefix]
  refine and_congr_right fun _ ↦ ?_
  cases parseSyscallName unicodeDigit (straceLineOf line) with
  | none => exact iff_of_true rfl fun name hname ↦ absurd hname (Option.some_ne_none name).symm
  | some syscallName =>
    rw [Option.any_some, decide_eq_false_iff_not]
    exact ⟨fun hother name hname ↦ Option.some.inj hname ▸ hother, fun h ↦ h syscallName rfl⟩

/-- The filter loses no reason exactly when there is no set of target calls, or all lines on
unsupported calls have a name that can be read. -/
theorem failClosed_iff (unicodeDigit : ℕ → Bool) (gate : ScmlGate)
    (targetSyscalls : Option (List PyStr)) (lines : List PyStr) :
    FailClosed unicodeDigit gate targetSyscalls lines ↔
      targetSyscalls = none ∨ ∀ line ∈ lines, Named unicodeDigit line := by
  cases targetSyscalls with
  | none => exact iff_of_true ⟨rfl, fun line hline hdropped ↦ absurd hline hdropped⟩ (.inl rfl)
  | some targets =>
    rw [or_iff_right (Option.some_ne_none targets)]
    constructor
    · intro hclosed line hline hunsupported
      rw [Option.isSome_iff_ne_none]
      intro hname
      have hirrelevant : isRelevant unicodeDigit targets line = false := by
        refine isRelevant_eq_false_iff.mpr ⟨hunsupported, fun name hsome ↦ ?_⟩
        exact absurd (hname.symm.trans hsome) (Option.some_ne_none name).symm
      have hreason := hclosed.dropped line hline fun hkept ↦
        Bool.false_ne_true (hirrelevant.symm.trans (List.of_mem_filter hkept))
      rw [classifyLine_of_unnamed hunsupported hname] at hreason
      exact taxonomyItem_bind_ne_nil _ hreason
    · intro hnamed
      have hnone : ∀ line ∈ lines, isRelevant unicodeDigit targets line = false →
          gate.classifyLine unicodeDigit (some targets) line = .ok [] := by
        intro line hline hirrelevant
        obtain ⟨hunsupported, hother⟩ := isRelevant_eq_false_iff.mp hirrelevant
        obtain ⟨name, hname⟩ := Option.isSome_iff_exists.mp (hnamed line hline hunsupported)
        exact classifyLine_of_other hunsupported hname (hother name hname)
      refine ⟨flatten_mapM_filter hnone, fun line hline hdropped ↦ hnone line hline ?_⟩
      exact Bool.eq_false_iff.mpr fun hkeep ↦ hdropped (List.mem_filter.mpr ⟨hline, hkeep⟩)

/-- A gate without a manifest. -/
def bareGate : ScmlGate where
  manifestIndex := []
  taxonomy := [("scml_parser_gap", "scml_parser_gap")]

/-- The second half of a call that `strace -f` prints in two lines. -/
def resumedLine : PyStr := PyStr.ofString "Unsupported syscall: <... lseek resumed>) = 0"

/-- The classifier reports a gap of the parser for the line, and the filter drops it. -/
theorem not_failClosed_resumedLine :
    bareGate.reasonsOf (fun _ ↦ false) (some [PyStr.ofString "lseek"]) [resumedLine] =
        .ok ["scml_parser_gap"] ∧
      bareGate.reasonsOf (fun _ ↦ false) (some [PyStr.ofString "lseek"])
        (relevantOutputLines (fun _ ↦ false) (some [PyStr.ofString "lseek"]) [resumedLine]) =
          .ok [] ∧
      ¬FailClosed (fun _ ↦ false) bareGate (some [PyStr.ofString "lseek"]) [resumedLine] := by
  refine ⟨rfl, rfl, fun hclosed ↦ ?_⟩
  exact List.cons_ne_nil _ _ (Except.ok.inj hclosed.reasons.symm)

end SyzAbi.Targets

import SyzAbi.Library.GroupedLists
import SyzAbi.Orchestrator.CandidateBatch

/-!
# The compatibility README

`parse_readme_sections` (`tools/build_scml_manifest.py`) reads a README line by line. A heading
opens a section for the syscalls that it names, a label opens a group of a bucket and a field, and
the bullets behind it are the items of the group. `merge_bucket` then puts the sections of a syscall
together.

The lines of a README come back from the expressions that look for them: codes in backticks
(`inlineCodesFrom_code`), labels with their fields (`exists_matchLabel`). A field has no name when
all its characters are replaced (`normalizeFieldName_eq_nil_iff`).

What `str.lower` makes of characters beyond ASCII is a parameter.
-/

set_option autoImplicit false
set_option relaxedAutoImplicit false

namespace SyzAbi.Tools.Manifest

open Analyzer Orchestrator Library.GroupedLists Library.KeyedMerge

/-! ### Texts -/

/-- `str.rstrip`. -/
def rstrip (text : PyStr) : PyStr := (text.reverse.dropWhile isStripped).reverse

/-- `str.strip` of one character. -/
def stripChar (c : ℕ) (text : PyStr) : PyStr :=
  ((text.dropWhile (· = c)).reverse.dropWhile (· = c)).reverse

/-- `str.replace` of one character. -/
def replaceChar (c : ℕ) (other text : PyStr) : PyStr :=
  text.flatMap fun d ↦ if d = c then other else [d]

/-- `str.lower`. The two small letters of a capital sigma are both beyond ASCII. -/
def lower (wide : ℕ → PyStr) (text : PyStr) : PyStr :=
  text.flatMap fun c ↦ if c < 128 then [if 65 ≤ c ∧ c ≤ 90 then c + 32 else c] else wide c

/-- `[a-z0-9]`. -/
def isFieldChar (c : ℕ) : Bool := (97 ≤ c && c ≤ 122) || (48 ≤ c && c ≤ 57)

/-- `re.sub(r"[^a-z0-9]+", "_", text)`, where a run may have begun. -/
def replaceRuns : Bool → PyStr → PyStr
  | _, [] => []
  | inRun, c :: rest =>
    if isFieldChar c then c :: replaceRuns false rest
    else if inRun then replaceRuns true rest
    else 95 :: replaceRuns true rest

/-- `normalize_field_name`. -/
def normalizeFieldName (wide : ℕ → PyStr) (raw : PyStr) : PyStr :=
  stripChar 95 (replaceRuns false (replaceChar 38 (PyStr.ofString "and") (lower wide (strip raw))))

/-- `normalize_group_prefix`. -/
def normalizeGroupPrefix (wide : ℕ → PyStr) (raw : PyStr) : PyStr :=
  let joined := replaceChar 32 [95] (replaceChar 45 [95] (lower wide (strip raw)))
  let silently := PyStr.ofString "silently_"
  let bucket := if silently.isPrefixOf joined then joined.drop silently.length else joined
  if bucket = PyStr.ofString "partially_supported" then PyStr.ofString "partial" else bucket

/-- `SECTION_SYSCALL_RE.findall` and `INLINE_CODE_RE.findall`, behind a backtick with the code that
follows it, or outside. -/
def inlineCodesFrom : Option PyStr → PyStr → List PyStr
  | _, [] => []
  | none, c :: rest => inlineCodesFrom (if c = 96 then some [] else none) rest
  | some code, c :: rest =>
    if c = 96 then
      if code = [] then inlineCodesFrom (some []) rest else code :: inlineCodesFrom none rest
    else inlineCodesFrom (some (code ++ [c])) rest

def inlineCodes (text : PyStr) : List PyStr := inlineCodesFrom none text

/-- `SECTION_HEADING_RE.match` of a stripped line: the title. -/
def matchHeading (line : PyStr) : Option PyStr :=
  if (PyStr.ofString "###").isPrefixOf line then
    let behind := line.drop 3
    let title := behind.dropWhile isStripped
    if title ≠ [] ∧ title.length < behind.length then some (rstrip title) else none
  else none

/-- The alternatives of `GROUP_LABEL_RE`. -/
inductive GroupLabel where
  | silentlyIgnored
  | ignored
  | partiallySupported
  | unsupported
  deriving DecidableEq

def GroupLabel.text : GroupLabel → PyStr
  | silentlyIgnored => PyStr.ofString "Silently-ignored"
  | ignored => PyStr.ofString "Ignored"
  | partiallySupported => PyStr.ofString "Partially-supported"
  | unsupported => PyStr.ofString "Unsupported"

/-- The field of a line that has a colon at its end: what stands behind the spaces. Where there are
only spaces, the last of them is the field. -/
def matchField (word line : PyStr) : Option PyStr :=
  if word.isPrefixOf line ∧ (line.drop word.length).getLast? = some 58 then
    let behind := (line.drop word.length).dropLast
    let field := behind.dropWhile isStripped
    if field = [] then if 2 ≤ behind.length then some behind.getLast?.toList else none
    else if field.length < behind.length then some field
    else none
  else none

/-- `GROUP_LABEL_RE.match` of a stripped line. -/
def matchLabel (line : PyStr) : Option (GroupLabel × PyStr) :=
  [.silentlyIgnored, .ignored, .partiallySupported, .unsupported].findSome? fun label ↦
    (matchField label.text line).map fun field ↦ (label, field)

/-- `normalize_bullet_items`. -/
def normalizeBulletItems (raw : PyStr) : List PyStr :=
  let tokens := ((inlineCodes raw).map strip).filter fun token ↦ !token.isEmpty
  if tokens ≠ [] then unique tokens
  else
    let item := stripChar 96 (strip raw)
    if item = [] then [] else [item]

/-! ### Sections -/

/-- The names of the buckets. -/
inductive Bucket where
  | ignored
  | partlySupported
  | unsupported
  deriving DecidableEq

def Bucket.name : Bucket → PyStr
  | ignored => PyStr.ofString "ignored"
  | partlySupported => PyStr.ofString "partial"
  | unsupported => PyStr.ofString "unsupported"

/-- The bucket with a name. -/
def Bucket.ofName (name : PyStr) : Option Bucket :=
  [ignored, partlySupported, unsupported].find? fun bucket ↦ bucket.name = name

/-- Items by field. -/
abbrev Fields := List (PyStr × List PyStr)

structure Section where
  heading : PyStr
  notes : List PyStr
  ignored : Fields
  partlySupported : Fields
  unsupported : Fields
  deriving DecidableEq

def Section.bucket (current : Section) : Bucket → Fields
  | .ignored => current.ignored
  | .partlySupported => current.partlySupported
  | .unsupported => current.unsupported

/-- `current_section[bucket][field].append(item)`. -/
def Section.append (current : Section) (bucket : Bucket) (field item : PyStr) : Section :=
  match bucket with
  | .ignored => { current with ignored := extend current.ignored field [item] }
  | .partlySupported =>
    { current with partlySupported := extend current.partlySupported field [item] }
  | .unsupported => { current with unsupported := extend current.unsupported field [item] }

/-- `section_template`. -/
def sectionTemplate (title : PyStr) : Section := ⟨title, [], [], [], []⟩

/-- The fields in their order, each with its different items. -/
def sortedFields (fields : Fields) : Fields :=
  (sortedItems fields).map fun row ↦ (row.1, unique row.2)

/-- `finalize_section`. -/
def finalizeSection (current : Section) : Section where
  heading := current.heading
  notes := unique current.notes
  ignored := sortedFields current.ignored
  partlySupported := sortedFields current.partlySupported
  unsupported := sortedFields current.unsupported

/-- `merge_bucket`. -/
def mergeBucket (sections : List Section) (bucket : Bucket) : Fields :=
  sortedFields (sections.foldl (fun merged current ↦
    (current.bucket bucket).foldl (fun merged row ↦ extend merged row.1 row.2) merged) [])

/-! ### The parser -/

/-- The variables of `parse_readme_sections`. -/
structure State where
  syscallSections : List (PyStr × List Section)
  currentNames : List PyStr
  currentSection : Option Section
  currentBucket : Option Bucket
  currentField : Option PyStr
  inCodeBlock : Bool

namespace State

def start : State := ⟨[], [], none, none, none, false⟩

/-- The sections of the syscalls when the current one is finalised. -/
def closed (state : State) : List (PyStr × List Section) :=
  match state.currentSection with
  | none => state.syscallSections
  | some current => state.currentNames.foldl
      (fun sections name ↦ extend sections name [finalizeSection current]) state.syscallSections

/-- `current_bucket and current_field`, where they are. -/
def group (state : State) : Option (Bucket × PyStr) :=
  match state.currentBucket, state.currentField with
  | some bucket, some field => if field = [] then none else some (bucket, field)
  | _, _ => none

/-- A line of a section. -/
def readLine (wide : ℕ → PyStr) (state : State) (current : Section) (stripped : PyStr) : State :=
  match matchLabel stripped with
  | some (label, field) =>
    { state with
      currentBucket := Bucket.ofName (normalizeGroupPrefix wide label.text)
      currentField := some (normalizeFieldName wide field) }
  | none =>
    match if (PyStr.ofString "* ").isPrefixOf stripped then state.group else none with
    | some (bucket, field) =>
      { state with currentSection := some ((normalizeBulletItems (stripped.drop 2)).foldl
          (fun current item ↦ current.append bucket field item) current) }
    | none =>
      if stripped = [] then { state with currentBucket := none, currentField := none }
      else if (PyStr.ofString "For more information,").isPrefixOf stripped then
        { state with currentBucket := none, currentField := none }
      else if (PyStr.ofString "Supported functionality").isPrefixOf stripped then state
      else
        { state with
          currentSection := some { current with notes := current.notes ++ [stripped] } }

/-- One line. -/
def step (wide : ℕ → PyStr) (state : State) (rawLine : PyStr) : State :=
  let stripped := strip (rstrip rawLine)
  if (PyStr.ofString "```").isPrefixOf stripped then
    { state with inCodeBlock := !state.inCodeBlock }
  else if state.inCodeBlock then state
  else
    match matchHeading stripped with
    | some title =>
      ⟨state.closed, inlineCodes title, some (sectionTemplate title), none, none, false⟩
    | none =>
      match state.currentSection with
      | none => state
      | some current => state.readLine wide current stripped

end State

/-- `parse_readme_sections`. -/
def parseReadmeSections (wide : ℕ → PyStr) (text : PyStr) : List (PyStr × List Section) :=
  ((splitLines text).foldl (State.step wide) State.start).closed

/-! ### Stripped lines -/

theorem rstrip_append (front : PyStr) {back : PyStr} (hback : rstrip back ≠ []) :
    rstrip (front ++ back) = front ++ rstrip back := by
  have hne : back.reverse.dropWhile isStripped ≠ [] := by
    intro hempty
    rw [rstrip, hempty] at hback
    exact hback rfl
  rw [rstrip, List.reverse_append, List.dropWhile_append, if_neg (by simpa using hne),
    List.reverse_append, List.reverse_reverse, rstrip]

theorem rstrip_cons {c : ℕ} (hc : isStripped c = false) (rest : PyStr) :
    rstrip (c :: rest) = c :: rstrip rest := by
  by_cases hrest : rstrip rest = []
  · have hblank : rest.reverse.dropWhile isStripped = [] := by
      rw [rstrip, List.reverse_eq_nil_iff] at hrest
      exact hrest
    rw [hrest, rstrip, List.reverse_cons, List.dropWhile_append, if_pos (by rw [hblank]; rfl),
      List.dropWhile_cons_of_neg (by rw [hc]; exact Bool.false_ne_true)]
    rfl
  · exact rstrip_append [c] hrest

theorem rstrip_rstrip (text : PyStr) : rstrip (rstrip text) = rstrip text := by
  rw [rstrip, rstrip, List.reverse_reverse, List.dropWhile_idempotent]

theorem strip_eq_rstrip (text : PyStr) : strip text = rstrip (text.dropWhile isStripped) := rfl

theorem strip_rstrip (text : PyStr) : strip (rstrip text) = strip text := by
  rw [strip_eq_rstrip, strip_eq_rstrip]
  induction text with
  | nil => rfl
  | cons c rest ih =>
    by_cases hc : isStripped c = true
    · rw [List.dropWhile_cons_of_pos hc]
      by_cases hrest : rstrip rest = []
      · have hblank : rstrip (c :: rest) = [] := by
          rw [rstrip, List.reverse_eq_nil_iff] at hrest
          rw [rstrip, List.reverse_cons, List.dropWhile_append, if_pos (by rw [hrest]; rfl),
            List.dropWhile_cons_of_pos hc]
          rfl
        rw [hblank, ← ih, hrest]
      · have hcons : rstrip (c :: rest) = c :: rstrip rest := rstrip_append [c] hrest
        rw [hcons, List.dropWhile_cons_of_pos hc, ih]
    · have hfalse := Bool.eq_false_of_not_eq_true hc
      rw [rstrip_cons hfalse, List.dropWhile_cons_of_neg hc, List.dropWhile_cons_of_neg hc,
        rstrip_cons hfalse, rstrip_rstrip, ← rstrip_cons hfalse]

/-- A line without space at its head. -/
theorem strip_rstrip_cons {c : ℕ} (hc : isStripped c = false) (rest : PyStr) :
    strip (rstrip (c :: rest)) = c :: rstrip rest := by
  rw [strip_rstrip, strip_eq_rstrip,
    List.dropWhile_cons_of_neg (by rw [hc]; exact Bool.false_ne_true), rstrip_cons hc]

theorem exists_rstrip (text : PyStr) :
    ∃ behind, text = rstrip text ++ behind ∧ ∀ c ∈ behind, isStripped c = true := by
  have hsplit := List.takeWhile_append_dropWhile (p := isStripped) (l := text.reverse)
  refine ⟨(text.reverse.takeWhile isStripped).reverse, ?_,
    fun c hc ↦ List.mem_takeWhile_imp (List.mem_reverse.mp hc)⟩
  rw [rstrip, ← List.reverse_append, hsplit, List.reverse_reverse]

theorem rstrip_ne_nil {text : PyStr} {c : ℕ} (hmem : c ∈ text) (hc : isStripped c = false) :
    rstrip text ≠ [] := by
  intro hempty
  obtain ⟨behind, htext, hbehind⟩ := exists_rstrip text
  rw [hempty, List.nil_append] at htext
  have hblank := hbehind c (htext ▸ hmem)
  rw [hc] at hblank
  cases hblank

/-! ### Inline code -/

theorem inlineCodesFrom_free (code : Option PyStr) {text : PyStr} (hfree : 96 ∉ text) :
    inlineCodesFrom code text = [] := by
  induction text generalizing code with
  | nil => cases code <;> rfl
  | cons c rest ih =>
    rw [List.mem_cons, not_or] at hfree
    have hc : c ≠ 96 := Ne.symm hfree.1
    cases code with
    | none => rw [inlineCodesFrom, if_neg hc, ih _ hfree.2]
    | some code => rw [inlineCodesFrom, if_neg hc, ih _ hfree.2]

/-- Behind the last backtick nothing is found, -/
theorem inlineCodesFrom_append_free (code : Option PyStr) (text : PyStr) {behind : PyStr}
    (hbehind : 96 ∉ behind) :
    inlineCodesFrom code (text ++ behind) = inlineCodesFrom code text := by
  induction text generalizing code with
  | nil =>
    rw [List.nil_append, inlineCodesFrom_free code hbehind]
    cases code <;> rfl
  | cons c rest ih =>
    cases code with
    | none => rw [List.cons_append, inlineCodesFrom, inlineCodesFrom, ih]
    | some code => rw [List.cons_append, inlineCodesFrom, inlineCodesFrom, ih, ih, ih]

/-- and before the first one. -/
theorem inlineCodes_free_append {before : PyStr} (hbefore : 96 ∉ before) (text : PyStr) :
    inlineCodes (before ++ text) = inlineCodes text := by
  induction before with
  | nil => rfl
  | cons c rest ih =>
    rw [List.mem_cons, not_or] at hbefore
    rw [inlineCodes, List.cons_append, inlineCodesFrom, if_neg (Ne.symm hbefore.1)]
    exact ih hbefore.2

theorem inlineCodesFrom_code {code : PyStr} (hcode : 96 ∉ code) {known : PyStr}
    (hne : known ++ code ≠ []) (rest : PyStr) :
    inlineCodesFrom (some known) (code ++ 96 :: rest) =
      (known ++ code) :: inlineCodesFrom none rest := by
  induction code generalizing known with
  | nil =>
    rw [List.append_nil] at hne ⊢
    rw [List.nil_append, inlineCodesFrom, if_pos rfl, if_neg hne]
  | cons c code ih =>
    rw [List.mem_cons, not_or] at hcode
    rw [List.cons_append, inlineCodesFrom, if_neg (Ne.symm hcode.1), ih hcode.2,
      List.append_assoc, List.singleton_append]
    rw [List.append_assoc, List.singleton_append]
    exact hne

theorem not_mem_of_isStripped {text : PyStr} (htext : ∀ c ∈ text, isStripped c = true) :
    96 ∉ text := fun hmem ↦ absurd (htext 96 hmem) (by decide)

theorem inlineCodes_rstrip (text : PyStr) : inlineCodes (rstrip text) = inlineCodes text := by
  obtain ⟨behind, htext, hbehind⟩ := exists_rstrip text
  conv_rhs => rw [htext]
  exact (inlineCodesFrom_append_free none _ (not_mem_of_isStripped hbehind)).symm

theorem inlineCodes_dropWhile (text : PyStr) :
    inlineCodes (text.dropWhile isStripped) = inlineCodes text := by
  conv_rhs => rw [← List.takeWhile_append_dropWhile (p := isStripped) (l := text)]
  exact (inlineCodes_free_append
    (not_mem_of_isStripped fun c hc ↦ List.mem_takeWhile_imp hc) _).symm

/-! ### Matching -/

/-- The parser looks for fences, headings, labels and bullets at the head of a line. -/
theorem isPrefixOf_of_head {word line : PyStr} {c d : ℕ} (hword : word.head? = some c)
    (hne : d ≠ c) : word.isPrefixOf (d :: line) = false := by
  cases word with
  | nil => cases hword
  | cons e word =>
    obtain rfl := Option.some.inj hword
    rw [List.isPrefixOf, Bool.and_eq_false_iff]
    exact .inl (by simpa using Ne.symm hne)

theorem matchHeading_cons {c : ℕ} (hc : c ≠ 35) (rest : PyStr) :
    matchHeading (c :: rest) = none := by
  rw [matchHeading, isPrefixOf_of_head (c := 35) (by decide +kernel) hc, if_neg Bool.false_ne_true]

theorem matchField_cons {word : PyStr} {c d : ℕ} (hword : word.head? = some c) (hne : d ≠ c)
    (rest : PyStr) : matchField word (d :: rest) = none := by
  rw [matchField, isPrefixOf_of_head hword hne, if_neg fun hboth ↦ Bool.false_ne_true hboth.1]

theorem GroupLabel.head?_text (label : GroupLabel) :
    label.text.head? = some (match label with
      | silentlyIgnored => 83
      | ignored => 73
      | partiallySupported => 80
      | unsupported => 85) := by
  cases label <;> decide +kernel

theorem matchLabel_cons {c : ℕ} (hc : c ≠ 83 ∧ c ≠ 73 ∧ c ≠ 80 ∧ c ≠ 85) (rest : PyStr) :
    matchLabel (c :: rest) = none := by
  obtain ⟨hS, hI, hP, hU⟩ := hc
  rw [matchLabel, List.findSome?_cons, matchField_cons (GroupLabel.head?_text _) hS,
    Option.map_none, List.findSome?_cons, matchField_cons (GroupLabel.head?_text _) hI,
    Option.map_none, List.findSome?_cons, matchField_cons (GroupLabel.head?_text _) hP,
    Option.map_none, List.findSome?_cons, matchField_cons (GroupLabel.head?_text _) hU,
    Option.map_none, List.findSome?_nil]

/-- A label is matched with its field, up to space around this. -/
theorem exists_matchField (word : PyStr) {field : PyStr} (hfield : field ≠ []) :
    ∃ found, matchField word (word ++ 32 :: (field ++ [58])) = some found ∧
      strip found = strip field := by
  have hspace : isStripped 32 = true := by decide
  have hline : (32 :: (field ++ [58])).dropLast = 32 :: field := by
    rw [← List.cons_append, List.dropLast_concat]
  have hdrop : (32 :: field).dropWhile isStripped = field.dropWhile isStripped :=
    List.dropWhile_cons_of_pos hspace
  have hlast : (32 :: (field ++ [58])).getLast? = some 58 := by
    rw [← List.cons_append, List.getLast?_concat]
  rw [matchField, List.drop_left,
    if_pos ⟨List.isPrefixOf_iff_prefix.mpr (List.prefix_append _ _), hlast⟩, hline]
  dsimp only
  rw [hdrop]
  by_cases hblank : field.dropWhile isStripped = []
  · have hall : ∀ c ∈ 32 :: field, isStripped c = true :=
      List.forall_mem_cons.mpr ⟨hspace, List.dropWhile_eq_nil_iff.mp hblank⟩
    have hlong : 2 ≤ (32 :: field).length := Nat.succ_le_succ (List.length_pos_iff.mpr hfield)
    rw [if_pos hblank, if_pos hlong]
    refine ⟨_, rfl, ?_⟩
    rw [strip_eq_rstrip field, hblank]
    cases hlast : (32 :: field).getLast? with
    | none => rfl
    | some c =>
      rw [Option.toList_some, strip_eq_rstrip,
        List.dropWhile_cons_of_pos (hall c (List.mem_of_getLast? hlast))]
      rfl
  · have hshort : (field.dropWhile isStripped).length < (32 :: field).length :=
      Nat.lt_succ_of_le (List.dropWhile_suffix isStripped).length_le
    rw [if_neg hblank, if_pos hshort]
    refine ⟨_, rfl, ?_⟩
    rw [strip_eq_rstrip, strip_eq_rstrip, List.dropWhile_idempotent]

theorem matchField_ne {label other : GroupLabel} (hne : other ≠ label) (rest : PyStr) :
    matchField other.text (label.text ++ rest) = none := by
  have hlabel := label.head?_text
  cases htext : label.text with
  | nil =>
    rw [htext] at hlabel
    cases hlabel
  | cons c tail =>
    rw [htext] at hlabel
    refine matchField_cons other.head?_text ?_ (tail ++ rest)
    rw [Option.some.inj hlabel]
    revert hne
    cases label <;> cases other <;> decide

theorem exists_matchLabel (label : GroupLabel) {field : PyStr} (hfield : field ≠ []) :
    ∃ found, matchLabel (label.text ++ 32 :: (field ++ [58])) = some (label, found) ∧
      strip found = strip field := by
  obtain ⟨found, hfound, hstrip⟩ := exists_matchField label.text hfield
  refine ⟨found, ?_, hstrip⟩
  unfold matchLabel
  cases label <;> simp [hfound, matchField_ne]

theorem normalizeFieldName_congr {wide : ℕ → PyStr} {found field : PyStr}
    (hstrip : strip found = strip field) :
    normalizeFieldName wide found = normalizeFieldName wide field := by
  rw [normalizeFieldName, hstrip, ← normalizeFieldName]

/-- The bucket of a label. -/
def GroupLabel.bucket : GroupLabel → Bucket
  | silentlyIgnored => .ignored
  | ignored => .ignored
  | partiallySupported => .partlySupported
  | unsupported => .unsupported

theorem ofName_normalizeGroupPrefix (wide : ℕ → PyStr) (label : GroupLabel) :
    Bucket.ofName (normalizeGroupPrefix wide label.text) = some label.bucket := by
  cases label <;> rfl

theorem stripChar_eq_self {c : ℕ} {text : PyStr} (hfree : c ∉ text) : stripChar c text = text := by
  refine reverse_dropWhile_eq_self fun d hd ↦ decide_eq_false ?_
  rintro rfl
  exact hfree hd

theorem mem_of_mem_strip {text : PyStr} {c : ℕ} (hmem : c ∈ strip text) : c ∈ text := by
  rw [strip, List.mem_reverse] at hmem
  exact (List.dropWhile_sublist _).mem (List.mem_reverse.mp ((List.dropWhile_sublist _).mem hmem))

/-! ### Fields without a name -/

theorem stripChar_eq_nil_iff {c : ℕ} {text : PyStr} :
    stripChar c text = [] ↔ ∀ d ∈ text, d = c := by
  rw [stripChar, List.reverse_eq_nil_iff, List.dropWhile_eq_nil_iff]
  simp only [List.mem_reverse, decide_eq_true_eq]
  constructor
  · intro hrest d hd
    rw [← List.takeWhile_append_dropWhile (p := (· = c)) (l := text)] at hd
    rcases List.mem_append.mp hd with hfront | hback
    · exact of_decide_eq_true (List.mem_takeWhile_imp (p := (· = c)) hfront)
    · exact hrest d hback
  · exact fun hall d hd ↦ hall d ((List.dropWhile_sublist _).mem hd)

theorem replaceRuns_eq_iff (inRun : Bool) (text : PyStr) :
    (∀ d ∈ replaceRuns inRun text, d = 95) ↔ ∀ c ∈ text, isFieldChar c = false := by
  induction text generalizing inRun with
  | nil =>
    rw [replaceRuns]
    exact iff_of_true (fun d hd ↦ absurd hd List.not_mem_nil)
      fun c hc ↦ absurd hc List.not_mem_nil
  | cons c rest ih =>
    rw [replaceRuns, List.forall_mem_cons]
    cases hc : isFieldChar c with
    | true =>
      refine iff_of_false (fun hall ↦ ?_) fun hboth ↦ Bool.false_ne_true hboth.1.symm
      have hunderscore : c = 95 := hall c (by rw [if_pos rfl]; exact List.mem_cons_self)
      rw [hunderscore] at hc
      exact absurd hc (by decide)
    | false =>
      rw [if_neg Bool.false_ne_true, and_iff_right rfl]
      cases inRun with
      | true => rw [if_pos rfl, ih]
      | false => rw [if_neg Bool.false_ne_true, List.forall_mem_cons, and_iff_right rfl, ih]

/-- A field has no name when it has neither an ASCII letter nor a digit nor an ampersand once its
letters are small. -/
theorem normalizeFieldName_eq_nil_iff (wide : ℕ → PyStr) (raw : PyStr) :
    normalizeFieldName wide raw = [] ↔
      ∀ c ∈ lower wide (strip raw), c ≠ 38 ∧ isFieldChar c = false := by
  have hand : PyStr.ofString "and" = [97, 110, 100] := by decide +kernel
  rw [normalizeFieldName, stripChar_eq_nil_iff, replaceRuns_eq_iff, replaceChar, hand]
  simp only [List.mem_flatMap, forall_exists_index, and_imp]
  constructor
  · intro hall c hc
    have hne : c ≠ 38 := by
      rintro rfl
      exact absurd (hall 97 38 hc (by decide)) (by decide)
    refine ⟨hne, hall c c hc ?_⟩
    rw [if_neg hne]
    exact List.mem_singleton_self c
  · intro hall d c hc hd
    obtain ⟨hne, hplain⟩ := hall c hc
    rw [if_neg hne, List.mem_singleton] at hd
    rwa [hd]

end SyzAbi.Tools.Manifest

import SyzAbi.Library.JsonDumps
import SyzAbi.Tools.BatchTranscript

/-!
# The sections of a case in a batch transcript

Between its header and its end marker the text of a case consists of sections, each between two
markers. No section holds a marker (`BatchRun.clean_sections`), so a marker occurs among them only
where the script prints it (`not_infix_sectionsText`), and `extract_section` finds every section
(`extractSection_body`). The header, the process exit and the events are read back as they were
printed. The external state is read back exactly when no path holds a control character
(`jsonLoads_stateText`): the script prints the paths as they are, and `json.loads` refuses control
characters inside strings.
-/

set_option autoImplicit false
set_option relaxedAutoImplicit false

namespace SyzAbi.Tools

open Analyzer Orchestrator Agent Library Library.Json Library.Search

/-! ### Texts without markers -/

theorem unbordered_markerPrefix : Unbordered markerPrefix := by decide

theorem markFree_of_not_mem {text : PyStr} (htext : 95 ∉ text) : MarkFree text := by
  intro hoccurs
  exact htext (hoccurs.subset (by decide))

theorem MarkFree.append_cons {a b : PyStr} (ha : MarkFree a) {c : ℕ} (hb : MarkFree b)
    (hc : c ∉ markerPrefix) : MarkFree (a ++ c :: b) :=
  not_infix_append_cons hc ha hb

theorem MarkFree.of_isInfix {part text : PyStr} (hfree : MarkFree text) (hpart : part <:+: text) :
    MarkFree part :=
  fun hoccurs ↦ hfree (hoccurs.trans hpart)

theorem MarkFree.cons {c : ℕ} {text : PyStr} (hfree : MarkFree text) (hc : c ∉ markerPrefix) :
    MarkFree (c :: text) :=
  MarkFree.append_cons (markFree_of_not_mem List.not_mem_nil) hfree hc

theorem MarkFree.concat {c : ℕ} {text : PyStr} (hfree : MarkFree text) (hc : c ∉ markerPrefix) :
    MarkFree (text ++ [c]) :=
  hfree.append_cons (markFree_of_not_mem List.not_mem_nil) hc

theorem MarkFree.quoted {text : PyStr} (hfree : MarkFree text) : MarkFree (quoted text) :=
  (hfree.cons (by decide)).concat (by decide)

theorem MarkFree.member {key : String} {text : PyStr}
    (hkey : MarkFree (PyStr.ofString key)) (hfree : MarkFree text) :
    MarkFree (member key text) :=
  hkey.quoted.append_cons hfree (by decide)

theorem markFree_commaJoin {texts : List PyStr} (hfree : ∀ text ∈ texts, MarkFree text) :
    MarkFree (commaJoin texts) := by
  induction texts with
  | nil => exact markFree_of_not_mem List.not_mem_nil
  | cons text rest ih =>
    have htext := hfree text List.mem_cons_self
    have hrest := ih fun t ht ↦ hfree t (List.mem_cons_of_mem text ht)
    cases rest with
    | nil => exact htext
    | cons next more =>
      rw [commaJoin_cons_cons]
      exact htext.append_cons hrest (by decide)

theorem markFree_objectText {texts : List PyStr} (hfree : ∀ text ∈ texts, MarkFree text) :
    MarkFree (objectText texts) :=
  ((markFree_commaJoin hfree).cons (by decide)).concat (by decide)

theorem markFree_arrayText {texts : List PyStr} (hfree : ∀ text ∈ texts, MarkFree text) :
    MarkFree (arrayText texts) :=
  ((markFree_commaJoin hfree).cons (by decide)).concat (by decide)

theorem markFree_decimal (n : ℕ) : MarkFree (decimal n) := by
  refine markFree_of_not_mem fun hmem ↦ ?_
  have := isDigit_iff.mp (isDigit_of_mem_decimal hmem)
  omega

theorem StateFile.markFree_sha256 (file : StateFile) : MarkFree file.sha256 := by
  refine markFree_of_not_mem fun hmem ↦ ?_
  have := file.sha256_hex 95 hmem
  omega

theorem markFree_fileText (file : StateFile) : MarkFree (fileText file) := by
  apply markFree_objectText
  simp only [List.forall_mem_cons, List.not_mem_nil, false_implies, implies_true, and_true]
  exact ⟨.member (by decide) file.path_markFree.quoted,
    .member (by decide) (markFree_decimal file.size),
    .member (by decide) file.markFree_sha256.quoted⟩

theorem markFree_stateText (files : List StateFile) : MarkFree (stateText files) := by
  apply markFree_objectText
  intro text htext
  rw [List.mem_singleton.mp htext]
  refine .member (by decide) (markFree_arrayText ?_)
  intro item hitem
  obtain ⟨file, _, rfl⟩ := List.mem_map.mp hitem
  exact markFree_fileText file

theorem markFree_exitText (exitCode : ℕ) : MarkFree (exitText exitCode) := by
  have hstatus : MarkFree (PyStr.ofString (procStatus exitCode)) := by
    rw [procStatus]
    split_ifs
    · decide
    · decide
  apply markFree_objectText
  simp only [List.forall_mem_cons, List.not_mem_nil, false_implies, implies_true, and_true]
  exact ⟨.member (by decide) hstatus.quoted, .member (by decide) (markFree_decimal exitCode),
    .member (by decide) (by decide)⟩

theorem markFree_eventsText (events : List TraceLine) : MarkFree (eventsText events) := by
  induction events with
  | nil => exact markFree_of_not_mem List.not_mem_nil
  | cons line events ih =>
    rw [eventsText, List.flatMap_cons, List.append_assoc, List.singleton_append]
    exact line.markFree.append_cons ih (by decide)

/-! ### Sections -/

/-- What follows the prefix in the marker at the begin of a section, with its line feed. -/
def beginTag (name : String) : PyStr :=
  PyStr.ofString "_BEGIN_" ++ PyStr.ofString name ++ PyStr.ofString "__" ++ [10]

def endTag (name : String) : PyStr :=
  PyStr.ofString "_END_" ++ PyStr.ofString name ++ PyStr.ofString "__"

def sectionNames : List String :=
  ["PROCESS_EXIT", "STDOUT", "STDERR", "EVENTS", "EXTERNAL_STATE"]

theorem echo_beginMarker (name : String) :
    echo (beginMarker name) = markerPrefix ++ beginTag name := by
  simp [echo, beginMarker, beginTag]

theorem endMarker_eq (name : String) : endMarker name = markerPrefix ++ endTag name := by
  simp [endMarker, endTag]

theorem diverge_beginTag : ∀ name ∈ sectionNames, ∀ other ∈ sectionNames, name ≠ other →
    Diverge (beginTag name) (beginTag other) := by
  decide

theorem diverge_endTag : ∀ name ∈ sectionNames, ∀ other ∈ sectionNames,
    Diverge (beginTag name) (endTag other) := by
  decide

theorem diverge_caseTag : ∀ name ∈ sectionNames,
    Diverge (endTag "BATCH_CASE") (beginTag name) ∧
      Diverge (endTag "BATCH_CASE") (endTag name) := by
  decide

theorem unbordered_begin : ∀ name ∈ "BATCH_CASE" :: sectionNames,
    Unbordered (echo (beginMarker name)) := by
  decide

theorem unbordered_end : ∀ name ∈ "BATCH_CASE" :: sectionNames,
    Unbordered (10 :: endMarker name) := by
  decide

/-- The names and the contents of the sections of a case. -/
def BatchRun.sections (run : BatchRun) : List (String × PyStr) :=
  [("PROCESS_EXIT", exitText run.exitCode), ("STDOUT", run.stdout), ("STDERR", run.stderr),
    ("EVENTS", eventsText run.events), ("EXTERNAL_STATE", stateText run.files)]

/-- The text of a list of sections. -/
def sectionsText (sections : List (String × PyStr)) : PyStr :=
  sections.flatMap fun entry ↦ emitFileSection entry.1 entry.2

/-- What follows the two markers of a section. -/
def sectionTails (entry : String × PyStr) : List PyStr :=
  [beginTag entry.1 ++ (entry.2 ++ [10]), endTag entry.1 ++ [10]]

/-- The sections have known names and no markers inside. -/
def Clean (sections : List (String × PyStr)) : Prop :=
  ∀ entry ∈ sections, entry.1 ∈ sectionNames ∧ MarkFree entry.2

theorem emitFileSection_eq (name : String) (content : PyStr) :
    emitFileSection name content =
      echo (beginMarker name) ++ (content ++ (10 :: endMarker name ++ [10])) := by
  simp [emitFileSection, echo]

theorem sectionsText_eq_tails (sections : List (String × PyStr)) :
    sectionsText sections = (sections.flatMap sectionTails).flatMap (markerPrefix ++ ·) := by
  rw [sectionsText, List.flatMap_assoc]
  congr 1
  funext entry
  rw [emitFileSection_eq, echo_beginMarker, endMarker_eq]
  simp [sectionTails]

theorem markFree_tags :
    ∀ name ∈ sectionNames, MarkFree (beginTag name) ∧ MarkFree (endTag name) := by
  decide

theorem markFree_sectionTails {sections : List (String × PyStr)} (hclean : Clean sections) :
    ∀ tail ∈ sections.flatMap sectionTails, MarkFree tail := by
  intro tail htail
  obtain ⟨entry, hentry, htail⟩ := List.mem_flatMap.mp htail
  obtain ⟨hname, hfree⟩ := hclean entry hentry
  have htags := markFree_tags entry.1 hname
  rcases List.mem_pair.mp htail with rfl | rfl
  · have hbegin : MarkFree (PyStr.ofString "_BEGIN_" ++ PyStr.ofString entry.1 ++
        PyStr.ofString "__") := htags.1.of_isInfix (List.prefix_append _ [10]).isInfix
    rw [beginTag, List.append_assoc, List.singleton_append]
    exact hbegin.append_cons (hfree.concat (by decide)) (by decide)
  · exact htags.2.concat (by decide)

/-- A marker occurs among sections only as the marker of one of them. -/
theorem not_infix_sectionsText {sections : List (String × PyStr)} (hclean : Clean sections)
    {tag : PyStr}
    (htag : ∀ entry ∈ sections, Diverge tag (beginTag entry.1) ∧ Diverge tag (endTag entry.1)) :
    ¬markerPrefix ++ tag <:+: sectionsText sections := by
  rw [sectionsText_eq_tails]
  refine unbordered_markerPrefix.not_infix_flatMap (markFree_sectionTails hclean) ?_
  intro tail htail
  obtain ⟨entry, hentry, htail⟩ := List.mem_flatMap.mp htail
  obtain ⟨hbegin, hend⟩ := htag entry hentry
  rcases List.mem_pair.mp htail with rfl | rfl
  · exact hbegin.append_right _
  · exact hend.append_right _

theorem BatchRun.clean_sections (run : BatchRun) : Clean run.sections := by
  simp only [Clean, BatchRun.sections, List.forall_mem_cons, List.not_mem_nil, false_implies,
    implies_true, and_true]
  exact ⟨⟨by decide, markFree_exitText _⟩, ⟨by decide, run.stdout_markFree⟩,
    ⟨by decide, run.stderr_markFree⟩, ⟨by decide, markFree_eventsText _⟩,
    ⟨by decide, markFree_stateText _⟩⟩

theorem consoleSlice_eq {text before part rest : PyStr} {start finish : ℕ}
    (htext : text = before ++ (part ++ rest)) (hstart : start = before.length)
    (hfinish : finish = before.length + part.length) : consoleSlice text start finish = part := by
  subst htext hstart hfinish
  rw [consoleSlice, ← List.append_assoc, ← List.length_append, List.take_left, List.drop_left]

/-- A section is found between the first markers around it. -/
theorem extractSection_split {name : String} (hname : name ∈ "BATCH_CASE" :: sectionNames)
    {before content : PyStr} (hbefore : ¬echo (beginMarker name) <:+: before)
    (hcontent : ¬10 :: endMarker name <:+: content) (rest : PyStr) :
    extractSection (before ++
      (echo (beginMarker name) ++ (content ++ (10 :: endMarker name ++ rest)))) name =
        some (stripLineFeeds content) := by
  have hopening := unbordered_begin name hname
  have hclosing := unbordered_end name hname
  have hfind := hopening.find_append hbefore (content ++ (10 :: endMarker name ++ rest))
  have hsplit : before ++
      (echo (beginMarker name) ++ (content ++ (10 :: endMarker name ++ rest))) =
      (before ++ echo (beginMarker name)) ++
        (content ++ (10 :: endMarker name ++ rest)) := (List.append_assoc _ _ _).symm
  have hstart : before.length + (echo (beginMarker name)).length =
      (before ++ echo (beginMarker name)).length := List.length_append.symm
  have hfinish : findFrom (10 :: endMarker name) _ _ = _ := findFrom_of_eq hsplit hstart
  rw [hclosing.find_append hcontent] at hfinish
  have hslice := consoleSlice_eq hsplit hstart (congrArg (· + content.length) hstart)
  simp only [extractSection, hfind, hfinish, Option.map_some, hslice]

/-- A section is found behind other sections, whatever follows it. -/
theorem extractSection_behind {before : List (String × PyStr)} (hclean : Clean before)
    {name : String} (hname : name ∈ sectionNames) (hother : ∀ entry ∈ before, name ≠ entry.1)
    {content : PyStr} (hcontent : MarkFree content) (rest : PyStr) :
    extractSection (sectionsText before ++
      (echo (beginMarker name) ++ (content ++ (10 :: endMarker name ++ rest)))) name =
        some (stripLineFeeds content) := by
  refine extractSection_split (List.mem_cons_of_mem _ hname) ?_ ?_ rest
  · rw [echo_beginMarker]
    refine not_infix_sectionsText hclean fun entry hentry ↦ ?_
    have hknown := (hclean entry hentry).1
    exact ⟨diverge_beginTag name hname entry.1 hknown (hother entry hentry),
      diverge_endTag name hname entry.1 hknown⟩
  · intro hoccurs
    refine hcontent (List.IsInfix.trans ?_ hoccurs)
    rw [endMarker_eq]
    exact (List.prefix_append _ _).isInfix.trans (List.suffix_cons 10 _).isInfix

/-- The text of a case between its header and its end marker. -/
def BatchRun.body (run : BatchRun) : PyStr := (sectionsText run.sections).dropLast

theorem sectionsText_concat (run : BatchRun) :
    sectionsText run.sections = run.body ++ [10] := by
  have hlast : ∃ front, sectionsText run.sections = front ++ [10] :=
    ⟨sectionsText run.sections.dropLast ++ (echo (beginMarker "EXTERNAL_STATE") ++
      (stateText run.files ++ 10 :: endMarker "EXTERNAL_STATE")), by
        simp [sectionsText, BatchRun.sections, emitFileSection_eq]⟩
  obtain ⟨front, hfront⟩ := hlast
  rw [BatchRun.body, hfront, List.dropLast_concat]

/-- Every section of a case is found in its text. -/
theorem extractSection_body (run : BatchRun) {name : String} {content : PyStr}
    (hentry : (name, content) ∈ run.sections) :
    extractSection run.body name = some (stripLineFeeds content) := by
  obtain ⟨before, after, hsplit⟩ := List.append_of_mem hentry
  have hclean := run.clean_sections
  have hnames : (run.sections.map Prod.fst).Nodup := by
    show ["PROCESS_EXIT", "STDOUT", "STDERR", "EVENTS", "EXTERNAL_STATE"].Nodup
    decide
  have hother : ∀ other ∈ before, name ≠ other.1 := by
    rw [hsplit, List.map_append, List.map_cons, List.nodup_append] at hnames
    intro other hmem heq
    exact hnames.2.2 other.1 (List.mem_map_of_mem hmem) name List.mem_cons_self heq.symm
  have hbefore : Clean before := by
    intro other hmem
    exact hclean other (hsplit ▸ List.mem_append_left _ hmem)
  obtain ⟨hname, hfree⟩ : name ∈ sectionNames ∧ MarkFree content := hclean _ hentry
  -- The text up to the end marker of the section is a part of the text of the case.
  have hwhole : run.body ++ [10] = (sectionsText before ++ (echo (beginMarker name) ++
      (content ++ 10 :: endMarker name))) ++ ([10] ++ sectionsText after) := by
    rw [← sectionsText_concat, hsplit, sectionsText, List.flatMap_append, List.flatMap_cons,
      emitFileSection_eq]
    simp [sectionsText]
  have hpart : sectionsText before ++ (echo (beginMarker name) ++
      (content ++ 10 :: endMarker name)) <+: run.body := by
    refine List.prefix_of_prefix_length_le (hwhole ▸ List.prefix_append _ _)
      (List.prefix_append run.body [10]) ?_
    have hlength := congrArg List.length hwhole
    simp only [List.length_append, List.length_cons, List.length_nil] at hlength ⊢
    omega
  obtain ⟨rest, hrest⟩ := hpart
  rw [← hrest]
  simpa only [List.append_assoc, List.cons_append] using
    extractSection_behind hbefore hname hother hfree rest

theorem BatchRun.commands_eq (index : ℕ) (run : BatchRun) :
    run.commands index = echo (beginMarker "BATCH_CASE") ++
      (headerText index run.case.programId ++ ([10] ++
        (run.body ++ 10 :: endMarker "BATCH_CASE"))) := by
  have hbody : run.body ++ 10 :: endMarker "BATCH_CASE" =
      sectionsText run.sections ++ endMarker "BATCH_CASE" := by
    rw [sectionsText_concat]
    simp
  rw [hbody]
  simp [BatchRun.commands, sectionsText, BatchRun.sections, emitFileSection, emitExternalState,
    echo]

/-! ### What the sections hold -/

theorem stripLineFeeds_eq_self {text : PyStr} (hhead : ∀ c ∈ text.head?, c ≠ 10)
    (hlast : ∀ c ∈ text.getLast?, c ≠ 10) : stripLineFeeds text = text := by
  have hfixed : ∀ part : PyStr, (∀ c ∈ part.head?, c ≠ 10) → part.dropWhile (· = 10) = part := by
    intro part hpart
    cases part with
    | nil => rfl
    | cons c part => exact List.dropWhile_cons_of_neg (by simpa using hpart c rfl)
  rw [stripLineFeeds, hfixed text hhead, hfixed text.reverse (by rwa [List.head?_reverse]),
    List.reverse_reverse]

theorem stripLineFeeds_objectText (texts : List PyStr) :
    stripLineFeeds (objectText texts) = objectText texts := by
  refine stripLineFeeds_eq_self ?_ ?_
  · intro c hc
    obtain rfl : 123 = c := Option.some.inj hc
    decide
  · intro c hc
    rw [objectText, List.getLast?_append_cons] at hc
    obtain rfl : 125 = c := Option.some.inj hc
    decide

theorem readsMember {key : String} (hkey : (PyStr.ofString key).all isIdentifierChar = true)
    {text : PyStr} {value : Value} (hreads : Json.Reads text value) :
    ReadsMember (member key text) (PyStr.ofString key, value) :=
  ⟨plain_of_identifier (List.all_eq_true.mp hkey), text, rfl, hreads⟩

theorem reads_exitText (run : BatchRun) : Json.Reads (exitText run.exitCode) run.processExit := by
  have hstatus : Plain (PyStr.ofString (procStatus run.exitCode)) := by
    apply plain_of_identifier
    rw [procStatus]
    split_ifs <;> decide
  exact Json.Reads.object (.cons (readsMember (by decide) (.quoted hstatus))
    (.cons (readsMember (by decide) (.natural run.exitCode))
      (.cons (readsMember (by decide) .ofFalse) .nil)))

theorem parseProcessExit_section (run : BatchRun) :
    parseProcessExit (extractSection run.body "PROCESS_EXIT") = .ok run.processExit := by
  have hentry : ("PROCESS_EXIT", exitText run.exitCode) ∈ run.sections := by
    simp [BatchRun.sections]
  rw [extractSection_body run hentry, exitText, stripLineFeeds_objectText]
  exact jsonLoads_of_reads (reads_exitText run)

/-! ### The external state -/

/-- The path needs no escape. -/
def StateFile.Printable (file : StateFile) : Prop := ∀ c ∈ file.path, 32 ≤ c

instance (file : StateFile) : Decidable file.Printable :=
  inferInstanceAs (Decidable (∀ c ∈ file.path, 32 ≤ c))

/-- What the script prints for a file. -/
structure StateLine where
  path : PyStr
  size : ℕ
  sha256 : PyStr

namespace StateLine

def text (line : StateLine) : PyStr :=
  objectText [member "path" (quoted line.path), member "size" (decimal line.size),
    member "sha256" (quoted line.sha256)]

def value (line : StateLine) : Value :=
  dict [("path", .str line.path), ("size", .int line.size), ("sha256", .str line.sha256)]

/-- The path does not end its string, and the digest is one. -/
structure Sound (line : StateLine) : Prop where
  path_chars : ∀ c ∈ line.path, c ≠ 34 ∧ c ≠ 92
  sha256_hex : ∀ c ∈ line.sha256, 48 ≤ c ∧ c ≤ 57 ∨ 97 ≤ c ∧ c ≤ 102

theorem reads_text {line : StateLine} (hsound : line.Sound) (hprintable : ∀ c ∈ line.path, 32 ≤ c) :
    Json.Reads line.text line.value := by
  have hpath : Plain line.path := fun c hc ↦
    ⟨hprintable c hc, (hsound.path_chars c hc).1, (hsound.path_chars c hc).2⟩
  have hdigest : Plain line.sha256 := by
    intro c hc
    have := hsound.sha256_hex c hc
    omega
  exact Json.Reads.object (.cons (readsMember (by decide) (.quoted hpath))
    (.cons (readsMember (by decide) (.natural line.size))
      (.cons (readsMember (by decide) (.quoted hdigest)) .nil)))

theorem reads_texts {lines : List StateLine} (hsound : ∀ line ∈ lines, line.Sound)
    (hprintable : ∀ line ∈ lines, ∀ c ∈ line.path, 32 ≤ c) :
    List.Forall₂ Json.Reads (lines.map text) (lines.map value) := by
  rw [List.forall₂_map_left_iff, List.forall₂_map_right_iff, List.forall₂_same]
  exact fun line hline ↦ reads_text (hsound line hline) (hprintable line hline)

theorem refused_text {line : StateLine} (hsound : line.Sound)
    (hcontrol : ∃ c ∈ line.path, c < 32) : Refused line.text :=
  refused_object (plain_of_identifier (by decide)) (refused_quoted hsound.path_chars hcontrol) _

/-- The printed lines are read back exactly when no path holds a control character. -/
theorem jsonLoads_texts {lines : List StateLine} (hsound : ∀ line ∈ lines, line.Sound) :
    (∀ line ∈ lines, ∀ c ∈ line.path, 32 ≤ c) ∧
        jsonLoads (objectText [member "files" (arrayText (lines.map text))]) =
          .ok (dict [("files", .arr (lines.map value))]) ∨
      (∃ line ∈ lines, ∃ c ∈ line.path, c < 32) ∧
        ∃ error, jsonLoads (objectText [member "files" (arrayText (lines.map text))]) =
          .error error := by
  cases hfind : lines.find? fun line ↦ ∃ c ∈ line.path, c < 32 with
  | none =>
    have hprintable : ∀ line ∈ lines, ∀ c ∈ line.path, 32 ≤ c := by
      simpa using List.find?_eq_none.mp hfind
    refine Or.inl ⟨hprintable, jsonLoads_of_reads ?_⟩
    exact Json.Reads.object (.cons (readsMember (by decide)
      (.array (reads_texts hsound hprintable))) .nil)
  | some bad =>
    obtain ⟨hbad, before, after, hsplit, hbefore⟩ := List.find?_eq_some_iff_append.mp hfind
    rw [hsplit, List.forall_mem_append, List.forall_mem_cons] at hsound
    have hrefused : Refused (objectText [member "files" (arrayText (lines.map text))]) := by
      rw [hsplit, List.map_append, List.map_cons]
      refine refused_object (plain_of_identifier (by decide)) (refused_array
        (reads_texts hsound.1 fun line hline ↦ by simpa using hbefore line hline)
        (refused_text hsound.2.1 (by simpa using hbad)) _) []
    refine Or.inr ⟨⟨bad, by rw [hsplit]; simp, by simpa using hbad⟩,
      ⟨"JSONDecodeError", "malformed JSON document"⟩, ?_⟩
    rw [jsonLoads, parse_of_refused hrefused]

/-- Only paths bring characters that are not printable ASCII into the object of the lines. -/
theorem not_mem_texts {lines : List StateLine} (hsound : ∀ line ∈ lines, line.Sound) {c : ℕ}
    (hc : c < 32 ∨ 128 ≤ c) (hpaths : ∀ line ∈ lines, c ∉ line.path) :
    c ∉ objectText [member "files" (arrayText (lines.map text))] := by
  have hkeys : ∀ key ∈ ["files", "path", "size", "sha256"], c ∉ PyStr.ofString key := by
    intro key hkey hmem
    have hprintable : ∀ key ∈ ["files", "path", "size", "sha256"],
        ∀ c ∈ PyStr.ofString key, 32 ≤ c ∧ c < 128 := by
      decide
    have := hprintable key hkey c hmem
    omega
  have hdigit : isDigit c = false := by
    rw [Bool.eq_false_iff, ne_eq, isDigit_iff]
    omega
  have hmember : ∀ key ∈ ["files", "path", "size", "sha256"], ∀ {text : PyStr}, c ∉ text →
      c ∉ member key text := fun key hkey _ htext ↦
    not_mem_memberText (by simp only [List.mem_cons, List.not_mem_nil, or_false]; omega)
      (hkeys key hkey) htext
  have hquoted : ∀ {text : PyStr}, c ∉ text → c ∉ quoted text := fun htext ↦
    not_mem_quoted (by omega) htext
  refine not_mem_objectText (by simp only [List.mem_cons, List.not_mem_nil, or_false]; omega) ?_
  rw [List.forall_mem_singleton]
  refine hmember "files" (by decide)
    (not_mem_arrayText (by simp only [List.mem_cons, List.not_mem_nil, or_false]; omega) ?_)
  rw [List.forall_mem_map]
  intro line hline
  have hsha : c ∉ line.sha256 := by
    intro hmem
    have := (hsound line hline).sha256_hex c hmem
    omega
  refine not_mem_objectText (by simp only [List.mem_cons, List.not_mem_nil, or_false]; omega) ?_
  simp only [List.forall_mem_cons, List.not_mem_nil, false_implies, implies_true, and_true]
  exact ⟨hmember "path" (by decide) (hquoted (hpaths line hline)),
    hmember "size" (by decide) (not_mem_decimal hdigit _),
    hmember "sha256" (by decide) (hquoted hsha)⟩

/-- The section of the lines is found as it was printed. -/
theorem parseExternalState_texts {lines : List StateLine} (hsound : ∀ line ∈ lines, line.Sound)
    (hpaths : ∀ line ∈ lines, 10 ∉ line.path) :
    parseExternalState (extractSection (echo (beginMarker "EXTERNAL_STATE") ++
        objectText [member "files" (arrayText (lines.map text))] ++ echo [] ++
        echo (endMarker "EXTERNAL_STATE")) "EXTERNAL_STATE") =
      jsonLoads (objectText [member "files" (arrayText (lines.map text))]) := by
  set content := objectText [member "files" (arrayText (lines.map text))]
  have hlineFeed : 10 ∉ content := not_mem_texts hsound (.inl (by decide)) hpaths
  have hfree : ¬10 :: endMarker "EXTERNAL_STATE" <:+: content := fun hoccurs ↦
    hlineFeed (hoccurs.subset List.mem_cons_self)
  have hfirst : ¬echo (beginMarker "EXTERNAL_STATE") <:+: [] := by decide
  have hsection := extractSection_split
    (show "EXTERNAL_STATE" ∈ "BATCH_CASE" :: sectionNames by decide) hfirst hfree [10]
  have htext : echo (beginMarker "EXTERNAL_STATE") ++ content ++ echo [] ++
      echo (endMarker "EXTERNAL_STATE") = [] ++ (echo (beginMarker "EXTERNAL_STATE") ++
      (content ++ (10 :: endMarker "EXTERNAL_STATE" ++ [10]))) := by
    simp [echo]
  rw [htext, hsection, stripLineFeeds_objectText]
  rfl

end StateLine

/-- The line for a file. -/
def StateFile.line (file : StateFile) : StateLine := ⟨file.path, file.size, file.sha256⟩

theorem StateFile.sound_line (file : StateFile) : file.line.Sound where
  path_chars := fun c hc ↦ ⟨(file.path_chars c hc).1, (file.path_chars c hc).2.1⟩
  sha256_hex := file.sha256_hex

theorem stateText_eq (files : List StateFile) : stateText files =
    objectText [member "files" (arrayText ((files.map StateFile.line).map StateLine.text))] := by
  rw [List.map_map]
  rfl

/-- The external state is read back exactly when no path holds a control character. -/
theorem jsonLoads_stateText (run : BatchRun) :
    (∀ file ∈ run.files, file.Printable) ∧ jsonLoads (stateText run.files) = .ok run.externalState ∨
      (∃ file ∈ run.files, ¬file.Printable) ∧
        ∃ error, jsonLoads (stateText run.files) = .error error := by
  have hsound : ∀ line ∈ run.files.map StateFile.line, line.Sound :=
    List.forall_mem_map.mpr fun file _ ↦ file.sound_line
  have hvalue : run.externalState =
      dict [("files", .arr ((run.files.map StateFile.line).map StateLine.value))] := by
    rw [List.map_map]
    rfl
  rw [stateText_eq, hvalue]
  rcases StateLine.jsonLoads_texts hsound with ⟨hprintable, hread⟩ | ⟨hcontrol, hrefused⟩
  · exact .inl ⟨fun file hfile ↦ hprintable file.line (List.mem_map_of_mem hfile), hread⟩
  · refine .inr ⟨?_, hrefused⟩
    obtain ⟨line, hline, c, hc, hlow⟩ := hcontrol
    obtain ⟨file, hfile, rfl⟩ := List.mem_map.mp hline
    exact ⟨file, hfile, fun hprintable ↦ Nat.not_lt.mpr (hprintable c hc) hlow⟩

theorem parseExternalState_section (run : BatchRun) :
    parseExternalState (extractSection run.body "EXTERNAL_STATE") =
      jsonLoads (stateText run.files) := by
  have hentry : ("EXTERNAL_STATE", stateText run.files) ∈ run.sections := by
    simp [BatchRun.sections]
  rw [extractSection_body run hentry, stateText, stripLineFeeds_objectText]
  rfl

/-! ### The events -/

theorem TraceLine.text_ne_nil (line : TraceLine) : line.text ≠ [] := by
  intro h
  have hreads := line.reads
  rw [h] at hreads
  cases hreads

theorem stripLineFeeds_concat {text : PyStr} (hne : text ≠ []) (hhead : ∀ c ∈ text.head?, c ≠ 10)
    (hlast : ∀ c ∈ text.getLast?, c ≠ 10) : stripLineFeeds (text ++ [10]) = text := by
  obtain ⟨c, rest, rfl⟩ := List.exists_cons_of_ne_nil hne
  have hc : c ≠ 10 := hhead c rfl
  have hstrip := stripLineFeeds_eq_self hhead hlast
  rw [stripLineFeeds, List.dropWhile_cons_of_neg (by simpa using hc)] at hstrip
  rw [stripLineFeeds, List.cons_append, List.dropWhile_cons_of_neg (by simpa using hc),
    ← List.cons_append, List.reverse_append, List.reverse_singleton, List.singleton_append,
    List.dropWhile_cons_of_pos (by decide)]
  exact hstrip

/-- The line that the end of the text ends. -/
theorem splitLinesFrom_last {line last : PyStr} (hlast : ∀ c ∈ last, isLineBreak c = false)
    (hne : line ++ last ≠ []) : splitLinesFrom line last = [line ++ last] := by
  induction last generalizing line with
  | nil =>
    rw [List.append_nil] at hne ⊢
    rw [splitLinesFrom, if_neg (by simpa using hne)]
  | cons c last ih =>
    have hc := hlast c List.mem_cons_self
    have hnext := ih (fun d hd ↦ hlast d (List.mem_cons_of_mem c hd))
      (show (line ++ [c]) ++ last ≠ [] by simp)
    rw [splitLinesFrom, hc, if_neg (by simp), hnext, List.append_assoc, List.singleton_append]
    intro _ heq
    rw [heq] at hc
    exact absurd hc (by decide)

theorem splitLines_append_last {bodies : List PyStr} {last : PyStr}
    (hbodies : ∀ body ∈ bodies, ∀ c ∈ body, isLineBreak c = false)
    (hlast : ∀ c ∈ last, isLineBreak c = false) (hne : last ≠ []) :
    splitLines ((bodies.flatMap fun body ↦ body ++ [10]) ++ last) = bodies ++ [last] := by
  induction bodies with
  | nil => exact splitLinesFrom_last hlast hne
  | cons body rest ih =>
    have hrest : splitLinesFrom [] ((rest.flatMap fun body ↦ body ++ [10]) ++ last) =
        rest ++ [last] := ih fun b hb ↦ hbodies b (List.mem_cons_of_mem body hb)
    rw [splitLines, List.flatMap_cons, List.append_assoc, List.append_assoc, List.singleton_append,
      splitLinesFrom_line (hbodies body List.mem_cons_self), hrest]
    rfl

theorem TraceLine.ne_lineFeed (line : TraceLine) {c : ℕ} (hc : c ∈ line.text) : c ≠ 10 := by
  rintro rfl
  exact absurd (line.oneLine 10 hc) (by decide)

/-- The line feed behind the last line of the event file is stripped. -/
theorem stripLineFeeds_eventsText (front : List TraceLine) (last : TraceLine) :
    stripLineFeeds (eventsText (front ++ [last])) = eventsText front ++ last.text := by
  have htext : eventsText (front ++ [last]) = eventsText front ++ last.text ++ [10] := by
    simp [eventsText]
  have hfirst : ∃ line : TraceLine, ∃ rest, eventsText front ++ last.text = line.text ++ rest := by
    cases front with
    | nil => exact ⟨last, [], (List.append_nil _).symm⟩
    | cons line front => exact ⟨line, [10] ++ (eventsText front ++ last.text), by simp [eventsText]⟩
  obtain ⟨line, rest, hline⟩ := hfirst
  rw [htext]
  refine stripLineFeeds_concat ?_ ?_ ?_
  · rw [ne_eq, List.append_eq_nil_iff]
    exact fun h ↦ last.text_ne_nil h.2
  · intro c hc
    rw [hline, List.head?_append_of_ne_nil _ line.text_ne_nil] at hc
    exact line.ne_lineFeed (List.mem_of_mem_head? hc)
  · intro c hc
    rw [List.getLast?_append_of_ne_nil _ last.text_ne_nil] at hc
    exact last.ne_lineFeed (List.mem_of_getLast? hc)

/-- The event file is read back line by line. -/
theorem parseEventsSection_eventsText (events : List TraceLine) :
    parseEventsSection (some (stripLineFeeds (eventsText events))) =
      .ok (events.map TraceLine.value) := by
  rcases List.eq_nil_or_concat events with rfl | ⟨front, last, rfl⟩
  · rfl
  have hlines : splitLines (eventsText front ++ last.text) =
      (front ++ [last]).map TraceLine.text := by
    have hbodies : eventsText front =
        (front.map TraceLine.text).flatMap fun body ↦ body ++ [10] := by
      rw [List.flatMap_map]
      rfl
    rw [hbodies, List.map_append, List.map_singleton]
    refine splitLines_append_last ?_ last.oneLine last.text_ne_nil
    intro body hbody
    obtain ⟨line, _, rfl⟩ := List.mem_map.mp hbody
    exact line.oneLine
  have hstripped : ∀ body ∈ ((front ++ [last]).map TraceLine.text).map strip,
      (!body.isEmpty) = true := by
    intro body hbody
    rw [List.map_map] at hbody
    obtain ⟨line, _, rfl⟩ := List.mem_map.mp hbody
    cases hstrip : strip line.text with
    | nil =>
      have hreads := line.reads
      rw [hstrip] at hreads
      cases hreads
    | cons c rest => simp [hstrip]
  have hnonempty : (eventsText front ++ last.text).isEmpty = false := by
    rw [List.isEmpty_eq_false_iff, ne_eq, List.append_eq_nil_iff]
    exact fun h ↦ last.text_ne_nil h.2
  rw [List.concat_eq_append, stripLineFeeds_eventsText, parseEventsSection, hnonempty,
    if_neg (by simp), parseEvents, hlines, List.filter_eq_self.mpr hstripped]
  apply Fallible.mapM_eq_ok_iff.mpr
  rw [List.map_map, List.forall₂_map_left_iff, List.forall₂_map_right_iff, List.forall₂_same]
  exact fun line _ ↦ line.reads

theorem parseEventsSection_section (run : BatchRun) :
    parseEventsSection (extractSection run.body "EVENTS") =
      .ok (run.events.map TraceLine.value) := by
  have hentry : ("EVENTS", eventsText run.events) ∈ run.sections := by
    simp [BatchRun.sections]
  rw [extractSection_body run hentry]
  exact parseEventsSection_eventsText run.events

theorem getDefault_dict (key : String) (default : Value) (members : List (String × Value)) :
    getDefault key default (dict members) =
      .ok (((dict members).get? (PyStr.ofString key)).getD default) := rfl

theorem getDefault_status (run : BatchRun) (default : Value) :
    getDefault "status" default run.processExit =
      .ok (.str (PyStr.ofString (procStatus run.exitCode))) := by
  rw [BatchRun.processExit, getDefault_dict, dict, get?_setMembers]
  simp [lookup_member]

/-- The status of a case is found. -/
theorem exists_candidateStatus (run : BatchRun) :
    ∃ status, candidateStatusFromEvents (run.events.map TraceLine.value) run.processExit =
      .ok status := by
  have hany : ∀ events : List TraceLine,
      ∃ found, anyUnsupported (events.map TraceLine.value) = .ok found := by
    intro events
    induction events with
    | nil => exact ⟨false, rfl⟩
    | cons line events ih =>
      obtain ⟨code, hcode⟩ := line.returnValue
      obtain ⟨errno, herrno⟩ := line.errno
      obtain ⟨found, hfound⟩ := ih
      rw [List.map_cons, anyUnsupported, hcode, Fallible.ok_bind]
      by_cases hfailed : code = -1
      · rw [if_pos hfailed, herrno, Fallible.ok_bind]
        by_cases hmember : errno ∈ ([38, 95] : List ℤ)
        · exact ⟨true, by rw [if_pos hmember]; rfl⟩
        · exact ⟨found, by rw [if_neg hmember]; exact hfound⟩
      · exact ⟨found, by rw [if_neg hfailed]; exact hfound⟩
  obtain ⟨found, hfound⟩ := hany run.events
  rw [candidateStatusFromEvents, getDefault_status, Fallible.ok_bind, hfound]
  show ∃ status, (if toText _ ≠ "ok" then _ else _) = _
  split_ifs
  · exact ⟨_, rfl⟩
  · cases found with
    | false => exact ⟨"ok", rfl⟩
    | true => exact ⟨"unsupported", rfl⟩

/-! ### The header -/

theorem isScalar_toNat (c : Char) : IsScalar c.toNat := by
  have hvalid : c.toNat < 0xD800 ∨ 0xDFFF < c.toNat ∧ c.toNat < 0x110000 := c.valid
  exact hvalid

/-- The value of the header of a case. -/
def headerValue (index : ℕ) (programId : String) : Value :=
  dict [("case_index", .int index), ("program_id", .str (PyStr.ofString programId))]

/-- The header is an object of `json.dumps`. -/
theorem headerText_eq (index : ℕ) (programId : String) :
    headerText index programId = spacedObject [
      spacedMember (PyStr.ofString "case_index") (decimal index),
      spacedMember (PyStr.ofString "program_id") (quoteAscii (PyStr.ofString programId))] := by
  have hfirst : PyStr.ofString "\x7b\"case_index\": " =
      123 :: (quoted (PyStr.ofString "case_index") ++ [58, 32]) := by
    decide
  have hsecond : PyStr.ofString ", \"program_id\": " =
      44 :: 32 :: (quoted (PyStr.ofString "program_id") ++ [58, 32]) := by
    decide
  have hlast : PyStr.ofString "\x7d" = [125] := by decide
  rw [headerText, hfirst, hsecond, hlast]
  simp [spacedObject, spacedJoin, spacedMember]

theorem reads_headerText (index : ℕ) (programId : String) :
    Json.Reads (headerText index programId) (headerValue index programId) := by
  have hscalar : ∀ c ∈ PyStr.ofString programId, IsScalar c := by
    intro c hc
    obtain ⟨d, _, rfl⟩ := List.mem_map.mp hc
    exact isScalar_toNat d
  have hkeys : Plain (PyStr.ofString "case_index") ∧ Plain (PyStr.ofString "program_id") :=
    ⟨plain_of_identifier (by decide), plain_of_identifier (by decide)⟩
  have hmembers : List.Forall₂ ReadsSpaced
      [spacedMember (PyStr.ofString "case_index") (decimal index),
        spacedMember (PyStr.ofString "program_id") (quoteAscii (PyStr.ofString programId))]
      [(PyStr.ofString "case_index", .int index),
        (PyStr.ofString "program_id", .str (PyStr.ofString programId))] := by
    refine List.Forall₂.cons ⟨hkeys.1, _, rfl, Json.Reads.natural index⟩ ?_
    exact List.Forall₂.cons ⟨hkeys.2, _, rfl, Json.Reads.quoteAscii hscalar⟩ List.Forall₂.nil
  rw [headerText_eq]
  exact Json.Reads.spacedObject hmembers (List.cons_ne_nil _ _)

theorem jsonLoads_header (index : ℕ) (programId : String) :
    jsonLoads (strip (headerText index programId)) = .ok (headerValue index programId) := by
  have hstrip : strip (headerText index programId) = headerText index programId := by
    rw [headerText_eq]
    exact strip_braces _
  rw [hstrip, jsonLoads_of_reads (reads_headerText index programId)]

theorem lineFeed_not_mem_headerText (index : ℕ) (programId : String) :
    10 ∉ headerText index programId := by
  have hindex : 10 ∉ decimal index := by
    intro hmem
    have := isDigit_iff.mp (isDigit_of_mem_decimal hmem)
    omega
  have hprogram : 10 ∉ quoteAscii (PyStr.ofString programId) := by
    intro hmem
    have hinner : 10 ∈ (PyStr.ofString programId).flatMap asciiChar := by
      simpa [quoteAscii] using hmem
    obtain ⟨c, _, hc⟩ := List.mem_flatMap.mp hinner
    have := le_of_mem_asciiChar hc
    omega
  have hliterals : 10 ∉ PyStr.ofString "\x7b\"case_index\": " ∧
      10 ∉ PyStr.ofString ", \"program_id\": " ∧ 10 ∉ PyStr.ofString "\x7d" := by
    decide
  simp only [headerText, List.mem_append, not_or]
  exact ⟨⟨⟨⟨hliterals.1, hindex⟩, hliterals.2.1⟩, hprogram⟩, hliterals.2.2⟩

end SyzAbi.Tools

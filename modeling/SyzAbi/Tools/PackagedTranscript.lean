import SyzAbi.Agent.Framing
import SyzAbi.Library.JsonLines
import SyzAbi.Tools.ConsoleText

/-!
# Evidence in the transcript of a packaged run

The script of `compose_packaged_autorun` (`tools/run_asterinas_shared.py`) runs one testcase and
prints its process exit, its two outputs, the event file and the files of the work directory, in
this order. `docker_qemu_run` reads the process exit, the events and the external state back from
the text of the logs (`evidence`): bytes that are no UTF-8 are replaced, and carriage returns end
lines (`readConsoleText_logs`).

The sections are found by the first occurrence of their begin markers. The process exit is printed
before the outputs, so they cannot reach it (`extractSection_processExit`). The events and the
external state are printed behind them: outputs in which no begin marker of these sections is read
leave them alone (`extractSection_behind_outputs`), and any other output changes the evidence of
some run (`exists_opening`), because the forged section either ends inside the outputs, and then
hides what the script prints, or runs over a marker line, which no reader accepts.
-/

set_option autoImplicit false
set_option relaxedAutoImplicit false

namespace SyzAbi.Tools

open Analyzer Orchestrator Agent Library Library.Json Library.Search GuestNames

/-! ### Packaged runs -/

/-- A file that `emit_external_state` lists, with what `stat` and `sha256sum` print. -/
structure ListedFile where
  path : PyStr
  size : ℕ
  sha256 : PyStr

/-- The `printf` for one file of `emit_external_state`. -/
def ListedFile.text (file : ListedFile) : PyStr :=
  objectText [member "path" (quoted file.path), member "size" (decimal file.size),
    member "sha256" (quoted file.sha256)]

/-- The text of the external state. -/
def listedText (files : List ListedFile) : PyStr :=
  objectText [member "files" (arrayText (files.map ListedFile.text))]

/-- The bytes of `stdout.txt` and `stderr.txt`. -/
structure Outputs where
  stdout : List ℕ
  stderr : List ℕ

/-- What a run prints besides the outputs of the testcase: the bytes of the other files, and what
else is in the log with the output of the script. The logs that are read before it hold no marker;
those behind it may repeat anything. -/
structure PackagedRun where
  earlier : List (List ℕ)
  noise : List ℕ
  exitCode : ℕ
  events : List ℕ
  files : List ListedFile
  trailing : List ℕ
  later : Outputs → List (List ℕ)
  earlier_markFree : ∀ log ∈ earlier, MarkFree (readConsole log)
  noise_markFree : MarkFree (readConsole noise)

/-- What `compose_packaged_autorun` prints. -/
def printedSections (outputs : Outputs) (exitCode : ℕ) (events state : List ℕ) : List ℕ :=
  echo (beginMarker "PROCESS_EXIT") ++
  echo (exitText exitCode) ++
  echo (endMarker "PROCESS_EXIT") ++
  emitFileSection "STDOUT" outputs.stdout ++
  emitFileSection "STDERR" outputs.stderr ++
  emitFileSection "EVENTS" events ++
  emitFileSection "EXTERNAL_STATE" state

/-- The logs that `docker_qemu_run` reads. -/
def PackagedRun.logs (run : PackagedRun) (outputs : Outputs) : List (List ℕ) :=
  run.earlier ++
    (run.noise ++ (printedSections outputs run.exitCode run.events (listedText run.files) ++
      run.trailing)) :: run.later outputs

/-- What `docker_qemu_run` reads back besides the outputs. -/
structure CaseEvidence where
  processExit : Except PyError Value
  events : Except PyError (List Value)
  externalState : Except PyError Value

/-- The evidence of a console text. -/
def textEvidence (consoleText : PyStr) : CaseEvidence where
  processExit := parseProcessExit (extractSection consoleText "PROCESS_EXIT")
  events := parseEventsSection (extractSection consoleText "EVENTS")
  externalState := parseExternalState (extractSection consoleText "EXTERNAL_STATE")

/-- The evidence of a run. -/
def evidence (logs : List (List ℕ)) : CaseEvidence := textEvidence (readConsoleText logs)

/-- The sections behind the outputs. -/
def trustedNames : List String := ["EVENTS", "EXTERNAL_STATE"]

/-- In an output, with the line feed that the script prints behind it, the host reads the begin
marker of a section that is printed later. -/
def Outputs.Forging (outputs : Outputs) : Prop :=
  ∃ output ∈ [outputs.stdout, outputs.stderr], ∃ name ∈ trustedNames,
    echo (beginMarker name) <:+: readConsole (echo output)

instance (outputs : Outputs) : Decidable outputs.Forging :=
  inferInstanceAs (Decidable (∃ output ∈ [outputs.stdout, outputs.stderr], ∃ name ∈ trustedNames,
    echo (beginMarker name) <:+: readConsole (echo output)))

/-- The outputs leave the evidence of every run as other outputs without begin markers do. -/
def Outputs.Harmless (outputs : Outputs) : Prop :=
  ∀ run : PackagedRun, ∀ other : Outputs, ¬other.Forging →
    evidence (run.logs outputs) = evidence (run.logs other)

/-! ### The text of a run -/

/-- What the host reads of the outputs. -/
def Outputs.shown (outputs : Outputs) : Outputs :=
  ⟨Tools.shown outputs.stdout, Tools.shown outputs.stderr⟩

/-- What the host reads of a run. -/
structure ShownRun where
  noise : PyStr
  exitCode : ℕ
  events : PyStr
  state : PyStr
  trailing : PyStr
  noise_markFree : MarkFree noise

/-- The text of a run. -/
def ShownRun.transcript (run : ShownRun) (outputs : Outputs) : PyStr :=
  run.noise ++ (printedSections outputs run.exitCode run.events run.state ++ run.trailing)

/-- The lines of the script. -/
def sectionLines (outputs : Outputs) (exitCode : ℕ) (events state : PyStr) : List PyStr :=
  [beginMarker "PROCESS_EXIT", exitText exitCode, endMarker "PROCESS_EXIT",
    beginMarker "STDOUT", outputs.stdout, endMarker "STDOUT",
    beginMarker "STDERR", outputs.stderr, endMarker "STDERR",
    beginMarker "EVENTS", events, endMarker "EVENTS",
    beginMarker "EXTERNAL_STATE", state, endMarker "EXTERNAL_STATE"]

theorem printedSections_eq (outputs : Outputs) (exitCode : ℕ) (events state : PyStr) :
    printedSections outputs exitCode events state =
      (sectionLines outputs exitCode events state).flatMap echo := by
  simp [printedSections, sectionLines, emitFileSection, echo]

theorem shown_markers : ∀ name ∈ sectionNames,
    shown (beginMarker name) = beginMarker name ∧ shown (endMarker name) = endMarker name := by
  have hascii : ∀ name ∈ sectionNames, (∀ c ∈ beginMarker name, c < 128 ∧ c ≠ 13) ∧
      ∀ c ∈ endMarker name, c < 128 ∧ c ≠ 13 := by
    decide
  exact fun name hname ↦
    ⟨shown_eq_self (hascii name hname).1, shown_eq_self (hascii name hname).2⟩

theorem shown_exitText (exitCode : ℕ) : shown (exitText exitCode) = exitText exitCode := by
  have hfree : ∀ c, ¬(c < 128 ∧ c ≠ 13) → c ∉ exitText exitCode := by
    intro c hc
    have hword : ∀ word ∈ ["status", "exit_code", "timed_out", "crash", "ok", "false"],
        c ∉ PyStr.ofString word := by
      have hwords : ∀ word ∈ ["status", "exit_code", "timed_out", "crash", "ok", "false"],
          ∀ c ∈ PyStr.ofString word, c < 128 ∧ c ≠ 13 := by
        decide
      exact fun word hword hmem ↦ hc (hwords word hword c hmem)
    have hother : ∀ other ∈ [34, 44, 58, 123, 125], c ≠ other := by
      rintro other hmem rfl
      exact hc ((by decide : ∀ c ∈ [34, 44, 58, 123, 125], c < 128 ∧ c ≠ 13) c hmem)
    have hmember : ∀ {key : String} {text : PyStr}, c ∉ PyStr.ofString key → c ∉ text →
        c ∉ member key text :=
      fun hkey htext ↦ not_mem_memberText (fun hmem ↦ hother c (by simp_all) rfl) hkey htext
    have hdigit : isDigit c = false := by
      rw [Bool.eq_false_iff, ne_eq, isDigit_iff]
      omega
    have hstatus : c ∉ PyStr.ofString (procStatus exitCode) := by
      rw [procStatus]
      split_ifs
      · exact hword "crash" (by decide)
      · exact hword "ok" (by decide)
    refine not_mem_objectText (fun hmem ↦ hother c (by simp_all) rfl) ?_
    simp only [List.forall_mem_cons, List.not_mem_nil, false_implies, implies_true, and_true]
    exact ⟨hmember (hword "status" (by decide)) (not_mem_quoted (hother 34 (by decide)) hstatus),
      hmember (hword "exit_code" (by decide)) (not_mem_decimal hdigit exitCode),
      hmember (hword "timed_out" (by decide)) (hword "false" (by decide))⟩
  exact shown_eq_self fun c hc ↦ by_contra fun hbad ↦ hfree c hbad hc

/-- The lines of the script are read as they are, those of the testcase as they are shown. -/
theorem map_shown_sectionLines (outputs : Outputs) (exitCode : ℕ) (events state : List ℕ) :
    (sectionLines outputs exitCode events state).map shown =
      sectionLines outputs.shown exitCode (shown events) (shown state) := by
  have hmarkers := shown_markers
  simp only [sectionNames, List.forall_mem_cons, List.not_mem_nil, false_implies, implies_true,
    and_true] at hmarkers
  simp only [sectionLines, List.map_cons, List.map_nil, hmarkers, shown_exitText, Outputs.shown]

theorem markFree_flatMap_echo {texts : List PyStr} (hfree : ∀ text ∈ texts, MarkFree text)
    {last : PyStr} (hlast : MarkFree last) : MarkFree (texts.flatMap echo ++ last) := by
  induction texts with
  | nil => exact hlast
  | cons text texts ih =>
    obtain ⟨htext, hmore⟩ := List.forall_mem_cons.mp hfree
    rw [List.flatMap_cons, echo, List.append_assoc, List.append_assoc]
    exact htext.append_cons (ih hmore) (by decide)

/-- What the host reads of a run, when these texts are joined behind the log of the script. -/
def PackagedRun.shownBefore (run : PackagedRun) (others : List PyStr) : ShownRun where
  noise := (newChunks [] (run.earlier.map readConsole)).flatMap echo ++ readConsole run.noise
  exitCode := run.exitCode
  events := shown run.events
  state := shown (listedText run.files)
  trailing := readConsole run.trailing ++ others.flatMap fun other ↦ 10 :: other
  noise_markFree := by
    refine markFree_flatMap_echo (fun text htext ↦ ?_) run.noise_markFree
    obtain ⟨log, hlog, rfl⟩ := List.mem_map.mp (mem_of_mem_newChunks htext)
    exact run.earlier_markFree log hlog

/-- The text of the logs is the text of the run. -/
theorem readConsoleText_logs (run : PackagedRun) (outputs : Outputs) :
    ∃ others, (∀ other ∈ others, other ∈ (run.later outputs).map readConsole) ∧
      readConsoleText (run.logs outputs) =
        strip ((run.shownBefore others).transcript outputs.shown) := by
  have hlog : readConsole (run.noise ++ (printedSections outputs run.exitCode run.events
      (listedText run.files) ++ run.trailing)) =
      readConsole run.noise ++ (printedSections outputs.shown run.exitCode (shown run.events)
        (shown (listedText run.files)) ++ readConsole run.trailing) := by
    obtain ⟨rest, hrest⟩ : ∃ rest, printedSections outputs run.exitCode run.events
        (listedText run.files) ++ run.trailing = 95 :: rest := ⟨_, rfl⟩
    rw [hrest, readConsole_append_cons _ _ (by decide) (by decide), ← hrest, printedSections_eq,
      readConsole_lines_append, map_shown_sectionLines, printedSections_eq]
  have hstarts : markerPrefix <+: printedSections outputs.shown run.exitCode (shown run.events)
      (shown (listedText run.files)) ++ readConsole run.trailing := by
    rw [printedSections, echo_beginMarker]
    simp only [List.append_assoc]
    exact List.prefix_append _ _
  generalize htext : readConsole run.noise ++ (printedSections outputs.shown run.exitCode
    (shown run.events) (shown (listedText run.files)) ++ readConsole run.trailing) = text at hlog
  have hmarked : ¬MarkFree text := fun hfree ↦
    hfree (hstarts.isInfix.trans (htext ▸ (List.suffix_append _ _).isInfix))
  have hne : text ≠ [] := by
    rintro rfl
    exact hmarked markFree_nil
  have hnew : text ∉ run.earlier.map readConsole := by
    intro hmem
    obtain ⟨log, hearlier, rfl⟩ := List.mem_map.mp hmem
    exact hmarked (run.earlier_markFree log hearlier)
  obtain ⟨others, hothers, hchunks⟩ := newChunks_append hne (run.earlier.map readConsole)
    ((run.later outputs).map readConsole) hnew List.not_mem_nil
  refine ⟨others, hothers, ?_⟩
  rw [readConsoleText, PackagedRun.logs, List.map_append, List.map_cons, hlog, hchunks,
    intercalate_append_cons, ← htext]
  simp only [ShownRun.transcript, PackagedRun.shownBefore, List.append_assoc]

/-- The evidence of a run is that of its text. -/
theorem evidence_logs (run : PackagedRun) (outputs : Outputs) :
    ∃ others, (∀ other ∈ others, other ∈ (run.later outputs).map readConsole) ∧
      evidence (run.logs outputs) =
        textEvidence ((run.shownBefore others).transcript outputs.shown) := by
  obtain ⟨others, hothers, htext⟩ := readConsoleText_logs run outputs
  refine ⟨others, hothers, ?_⟩
  rw [evidence, htext, textEvidence, textEvidence, extractSection_strip (by decide),
    extractSection_strip (by decide), extractSection_strip (by decide)]

/-- A text holds the begin marker of a section that is printed later. -/
def Outputs.Opening (outputs : Outputs) : Prop :=
  ∃ text ∈ [outputs.stdout, outputs.stderr], ∃ name ∈ trustedNames,
    echo (beginMarker name) <:+: echo text

theorem opening_shown_iff {outputs : Outputs} : outputs.shown.Opening ↔ outputs.Forging := by
  simp only [Outputs.Opening, Outputs.Forging, Outputs.shown, List.exists_mem_cons_iff,
    List.not_mem_nil, false_and, exists_false, or_false, readConsole_echo]

/-! ### The text before the trusted sections -/

theorem lineFeed_not_mem_dropLast :
    ∀ name ∈ trustedNames, 10 ∉ (echo (beginMarker name)).dropLast := by
  decide

theorem getLast_echo (text : PyStr) : (echo text).getLast? = some 10 := by
  rw [echo, List.getLast?_append_of_ne_nil _ (by simp)]
  rfl

/-- A begin marker among printed lines is inside one of them. -/
theorem exists_of_infix_echoes {name : String} (hname : name ∈ trustedNames)
    {lines : List PyStr} (hoccurs : echo (beginMarker name) <:+: lines.flatMap echo) :
    ∃ line ∈ lines, echo (beginMarker name) <:+: echo line := by
  induction lines with
  | nil =>
    rw [List.flatMap_nil, List.infix_nil] at hoccurs
    simp [echo] at hoccurs
  | cons line lines ih =>
    rw [List.flatMap_cons] at hoccurs
    have hlast : ∀ c ∈ (echo line).getLast?, c ∉ (echo (beginMarker name)).dropLast := by
      intro c hc
      rw [getLast_echo] at hc
      obtain rfl : 10 = c := Option.some.inj hc
      exact lineFeed_not_mem_dropLast name hname
    rcases infix_append_closed hlast hoccurs with h | h
    · exact ⟨line, List.mem_cons_self, h⟩
    · obtain ⟨other, hmem, hother⟩ := ih h
      exact ⟨other, List.mem_cons_of_mem line hmem, hother⟩

/-- The lines up to the outputs, without the last end marker. -/
def ShownRun.lines (run : ShownRun) (outputs : Outputs) : List PyStr :=
  [run.noise ++ beginMarker "PROCESS_EXIT", exitText run.exitCode, endMarker "PROCESS_EXIT",
    beginMarker "STDOUT", outputs.stdout, endMarker "STDOUT", beginMarker "STDERR",
    outputs.stderr]

/-- What the script prints behind the outputs. -/
def trustedSections (events state : PyStr) : PyStr :=
  emitFileSection "EVENTS" events ++ emitFileSection "EXTERNAL_STATE" state

theorem ShownRun.transcript_eq (run : ShownRun) (outputs : Outputs) :
    run.transcript outputs = (run.lines outputs).flatMap echo ++
      (echo (endMarker "STDERR") ++ trustedSections run.events run.state ++ run.trailing) := by
  simp [ShownRun.transcript, printedSections, ShownRun.lines, trustedSections, emitFileSection,
    echo]

/-- Only the outputs can hold the begin marker of a trusted section. -/
theorem infix_lines_iff (run : ShownRun) (outputs : Outputs) {name : String}
    (hname : name ∈ trustedNames) :
    echo (beginMarker name) <:+: (run.lines outputs).flatMap echo ↔
      echo (beginMarker name) <:+: echo outputs.stdout ∨
        echo (beginMarker name) <:+: echo outputs.stderr := by
  have hfixed : ∀ name ∈ trustedNames, ∀ line ∈ [beginMarker "PROCESS_EXIT",
      endMarker "PROCESS_EXIT", beginMarker "STDOUT", endMarker "STDOUT", beginMarker "STDERR"],
      ¬echo (beginMarker name) <:+: echo line := by
    decide
  have hmark : markerPrefix <:+: echo (beginMarker name) := by
    rw [echo_beginMarker]
    exact (List.prefix_append _ _).isInfix
  constructor
  · intro hoccurs
    obtain ⟨line, hline, hoccurs⟩ := exists_of_infix_echoes hname hoccurs
    have hother := hfixed name hname line
    simp only [ShownRun.lines, List.mem_cons, List.not_mem_nil, or_false] at hline hother
    rcases hline with rfl | rfl | rfl | rfl | rfl | rfl | rfl | rfl
    · -- Behind noise without markers the occurrence is in the marker of the script.
      have hecho : echo (run.noise ++ beginMarker "PROCESS_EXIT") =
          run.noise ++ echo (beginMarker "PROCESS_EXIT") := List.append_assoc _ _ _
      rw [hecho, echo_beginMarker name] at hoccurs
      have hafter : markerPrefix <+: echo (beginMarker "PROCESS_EXIT") := by
        rw [echo_beginMarker]
        exact List.prefix_append _ _
      have := unbordered_markerPrefix.infix_of_free run.noise_markFree (Or.inr hafter) hoccurs
      rw [← echo_beginMarker] at this
      exact absurd this (hfixed name hname _ (by simp))
    · exact absurd (hmark.trans hoccurs) ((markFree_exitText run.exitCode).concat (by decide))
    · exact absurd hoccurs (hother (by simp))
    · exact absurd hoccurs (hother (by simp))
    · exact Or.inl hoccurs
    · exact absurd hoccurs (hother (by simp))
    · exact absurd hoccurs (hother (by simp))
    · exact Or.inr hoccurs
  · intro hoccurs
    have hline : ∀ line ∈ run.lines outputs, echo line <:+: (run.lines outputs).flatMap echo := by
      intro line hline
      obtain ⟨before, after, hsplit⟩ := List.append_of_mem hline
      rw [hsplit, List.flatMap_append, List.flatMap_cons]
      exact ⟨before.flatMap echo, after.flatMap echo, by simp⟩
    rcases hoccurs with h | h
    · exact h.trans (hline _ (by simp [ShownRun.lines]))
    · exact h.trans (hline _ (by simp [ShownRun.lines]))

/-! ### Outputs without begin markers -/

/-- The process exit is printed before the outputs. -/
theorem extractSection_processExit (run : ShownRun) (outputs : Outputs) :
    extractSection (run.transcript outputs) "PROCESS_EXIT" =
      some (stripLineFeeds (exitText run.exitCode)) := by
  have hnoise : ¬echo (beginMarker "PROCESS_EXIT") <:+: run.noise := by
    intro hoccurs
    rw [echo_beginMarker] at hoccurs
    exact run.noise_markFree ((List.prefix_append _ _).isInfix.trans hoccurs)
  have hcontent : ¬10 :: endMarker "PROCESS_EXIT" <:+: exitText run.exitCode := by
    intro hoccurs
    refine markFree_exitText run.exitCode (List.IsInfix.trans ?_ hoccurs)
    rw [endMarker_eq]
    exact (List.prefix_append _ _).isInfix.trans (List.suffix_cons 10 _).isInfix
  have hsection := extractSection_split (show "PROCESS_EXIT" ∈ "BATCH_CASE" :: sectionNames by
    decide) hnoise hcontent ([10] ++ (emitFileSection "STDOUT" outputs.stdout ++
      (emitFileSection "STDERR" outputs.stderr ++ (trustedSections run.events run.state ++
        run.trailing))))
  rw [← hsection, ShownRun.transcript, printedSections, trustedSections]
  simp [echo]

/-- The trusted sections are complete. -/
theorem exists_trustedSection {name : String} (hname : name ∈ trustedNames) (events state : PyStr) :
    ∃ content, extractSection (echo (endMarker "STDERR") ++ trustedSections events state) name =
      some content := by
  rcases List.mem_pair.mp hname with rfl | rfl
  · have hopens : echo (beginMarker "EVENTS") <:+:
        echo (endMarker "STDERR") ++ echo (beginMarker "EVENTS") :=
      (List.suffix_append _ _).isInfix
    obtain ⟨content, hcontent⟩ := exists_extractSection
      (show "EVENTS" ∈ "BATCH_CASE" :: sectionNames by decide) hopens events
      (10 :: emitFileSection "EXTERNAL_STATE" state)
    refine ⟨content, ?_⟩
    rw [← hcontent, trustedSections, emitFileSection_eq "EVENTS"]
    simp
  · have hopens : echo (beginMarker "EXTERNAL_STATE") <:+: echo (endMarker "STDERR") ++
        (emitFileSection "EVENTS" events ++ echo (beginMarker "EXTERNAL_STATE")) :=
      (List.suffix_append_of_suffix (List.suffix_append _ _)).isInfix
    obtain ⟨content, hcontent⟩ := exists_extractSection
      (show "EXTERNAL_STATE" ∈ "BATCH_CASE" :: sectionNames by decide) hopens state [10]
    refine ⟨content, ?_⟩
    rw [← hcontent, trustedSections, emitFileSection_eq "EXTERNAL_STATE"]
    simp

/-- Outputs without begin markers leave the trusted sections alone, whatever is behind them. -/
theorem extractSection_behind_outputs (run : ShownRun) {outputs : Outputs}
    (hharmless : ¬outputs.Opening) {name : String} (hname : name ∈ trustedNames) :
    extractSection (run.transcript outputs) name =
      extractSection (echo (endMarker "STDERR") ++ trustedSections run.events run.state) name := by
  have hknown : ∀ name ∈ trustedNames, name ∈ "BATCH_CASE" :: sectionNames := by decide
  obtain ⟨content, hcontent⟩ := exists_trustedSection hname run.events run.state
  rw [run.transcript_eq, extractSection_append_closed, hcontent]
  · exact extractSection_append (hknown name hname) hcontent run.trailing
  · refine fun hoccurs ↦ hharmless ?_
    rcases (infix_lines_iff run outputs hname).mp hoccurs with h | h
    · exact ⟨outputs.stdout, by simp, name, hname, h⟩
    · exact ⟨outputs.stderr, by simp, name, hname, h⟩
  · intro c hc
    have hlines : (run.lines outputs).flatMap echo =
        (run.lines outputs).dropLast.flatMap echo ++ echo outputs.stderr := by
      simp [ShownRun.lines]
    rw [hlines, List.getLast?_append_of_ne_nil _ (by simp [echo]), getLast_echo] at hc
    obtain rfl : 10 = c := Option.some.inj hc
    exact lineFeed_not_mem_dropLast name hname

theorem evidence_eq_of_not_forging (run : PackagedRun) {outputs other : Outputs}
    (houtputs : ¬outputs.Forging) (hother : ¬other.Forging) :
    evidence (run.logs outputs) = evidence (run.logs other) := by
  have hevents : "EVENTS" ∈ trustedNames := by decide
  have hstate : "EXTERNAL_STATE" ∈ trustedNames := by decide
  rw [← opening_shown_iff] at houtputs hother
  obtain ⟨behind, -, hfirst⟩ := evidence_logs run outputs
  obtain ⟨others, -, hsecond⟩ := evidence_logs run other
  rw [hfirst, hsecond, textEvidence, textEvidence, extractSection_processExit,
    extractSection_processExit, extractSection_behind_outputs _ houtputs hevents,
    extractSection_behind_outputs _ hother hevents,
    extractSection_behind_outputs _ houtputs hstate, extractSection_behind_outputs _ hother hstate]
  rfl

/-! ### Outputs with begin markers -/

/-- The text is empty or ends with a line feed. -/
def AtLineStart (text : PyStr) : Prop := ∀ c ∈ text.getLast?, c = 10

/-- The text has the last end marker of the outputs as one of its lines. -/
def Overrun (text : PyStr) : Prop :=
  ∃ before rest, AtLineStart before ∧ text = before ++ (endMarker "STDERR" ++ 10 :: rest)

theorem AtLineStart.openLine_eq {text : PyStr} (htext : AtLineStart text) : openLine text = [] := by
  rcases List.eq_nil_or_concat text with rfl | ⟨front, c, rfl⟩
  · rfl
  · rw [List.concat_eq_append] at htext ⊢
    obtain rfl : c = 10 := htext c (by simp)
    exact openLine_append_lineFeed front

/-- Stripping line feeds keeps a line in the middle. -/
theorem overrun_stripLineFeeds {before rest : PyStr} (hbefore : AtLineStart before)
    (hrest : ∃ c ∈ rest, c ≠ 10) :
    Overrun (stripLineFeeds (before ++ (endMarker "STDERR" ++ 10 :: rest))) := by
  obtain ⟨c, hc, hne⟩ := hrest
  have hkept : rest.reverse.dropWhile (· = 10) ≠ [] := by
    rw [ne_eq, List.dropWhile_eq_nil_iff]
    intro hall
    exact hne (by simpa using hall c (List.mem_reverse.mpr hc))
  have hmiddle : ∃ kept, AtLineStart kept ∧
      (before ++ (endMarker "STDERR" ++ 10 :: rest)).dropWhile (· = 10) =
        kept ++ (endMarker "STDERR" ++ 10 :: rest) := by
    rw [List.dropWhile_append]
    split_ifs with hempty
    · exact ⟨[], by simp [AtLineStart], rfl⟩
    · refine ⟨before.dropWhile (· = 10), fun d hd ↦ hbefore d ?_, rfl⟩
      have hsuffix := List.dropWhile_suffix (l := before) (p := (· = 10))
      obtain ⟨gone, hgone⟩ := hsuffix
      rw [← hgone, List.getLast?_append_of_ne_nil _ (by simpa using hempty)]
      exact hd
  obtain ⟨kept, hkeptStart, hmiddle⟩ := hmiddle
  refine ⟨kept, (rest.reverse.dropWhile (· = 10)).reverse, hkeptStart, ?_⟩
  rw [stripLineFeeds, hmiddle]
  have hreverse : (kept ++ (endMarker "STDERR" ++ 10 :: rest)).reverse =
      rest.reverse ++ (kept ++ (endMarker "STDERR" ++ [10])).reverse := by
    simp
  rw [hreverse, List.dropWhile_append, if_neg (by simpa using hkept), List.reverse_append,
    List.reverse_reverse]
  simp

/-- A marker line is no event. -/
theorem Overrun.parseEvents_ne {text : PyStr} (htext : Overrun text) (events : List Value) :
    parseEventsSection (some text) ≠ .ok events := by
  obtain ⟨before, rest, hbefore, rfl⟩ := htext
  have hnonempty : (before ++ (endMarker "STDERR" ++ 10 :: rest)).isEmpty = false := by
    rw [List.isEmpty_eq_false_iff]
    exact List.append_ne_nil_of_right_ne_nil _
      (List.append_ne_nil_of_right_ne_nil _ (List.cons_ne_nil 10 rest))
  rw [parseEventsSection, if_neg (by rw [hnonempty]; decide), parseEvents, splitLines,
    splitLinesFrom_frame (show ∀ c ∈ endMarker "STDERR", isLineBreak c = false by decide)
      (by decide)]
  intro hparse
  have hopen : openLineFrom [] before = [] := hbefore.openLine_eq
  have hmem : endMarker "STDERR" ∈ ((closedLinesFrom [] before ++
      (openLineFrom [] before ++ endMarker "STDERR") :: splitLinesFrom [] rest).map strip).filter
        fun line ↦ !line.isEmpty := by
    rw [List.mem_filter]
    refine ⟨List.mem_map.mpr ⟨endMarker "STDERR", ?_, by decide⟩, by decide⟩
    rw [hopen, List.nil_append]
    simp
  obtain ⟨event, _, hevent⟩ := Fallible.exists_result_of_mapM_eq_ok hparse hmem
  cases hevent

/-- A marker line is no part of a JSON document. -/
theorem Overrun.parseExternalState_ne {text : PyStr} (htext : Overrun text) (state : Value) :
    parseExternalState (some text) ≠ .ok state := by
  obtain ⟨before, rest, hbefore, htext⟩ := htext
  have hhead : endMarker "STDERR" ++ 10 :: rest =
      95 :: ((endMarker "STDERR").tail ++ 10 :: rest) := rfl
  rw [hhead] at htext
  have hnotLined : ¬Lined text := by
    intro hlined
    rcases List.eq_nil_or_concat before with rfl | ⟨front, c, rfl⟩
    · exact absurd (hlined.1 95 (htext ▸ rfl)) (by decide)
    · rw [List.concat_eq_append] at hbefore htext
      obtain rfl : c = 10 := hbefore c (by simp)
      refine absurd (hlined.2 95 ?_) (by decide)
      exact ⟨front, (endMarker "STDERR").tail ++ 10 :: rest, by simp [htext]⟩
  obtain ⟨c, tail, hcons⟩ := List.exists_cons_of_ne_nil
    (show text ≠ [] by simp [htext])
  rw [hcons] at hnotLined ⊢
  rw [parseExternalState, jsonLoads, parse_of_not_lined hnotLined]
  intro heq
  cases heq

/-- A section that is opened before a line of the outputs either ends before the trusted content,
or runs over that line. -/
theorem extractSection_forged {name : String} (hname : name ∈ sectionNames) {before part : PyStr}
    (hbefore : ¬echo (beginMarker name) <:+: before) (hpart : AtLineStart part) {more : PyStr}
    (hmore : 95 ∈ more) :
    (∃ content, ∀ rest, extractSection (before ++ (echo (beginMarker name) ++
        (part ++ (endMarker "STDERR" ++ 10 :: more) ++ rest))) name = some content) ∨
      ∀ content, (content = [] ∨ ∃ c tail, content = c :: tail ∧ c ∉ 10 :: endMarker name ∧
          ¬10 :: endMarker name <:+: tail) →
        ∀ rest, ∃ text, Overrun text ∧ extractSection (before ++ (echo (beginMarker name) ++
          (part ++ (endMarker "STDERR" ++ 10 :: more) ++
            (content ++ (10 :: endMarker name ++ rest))))) name = some text := by
  have hknown := List.mem_cons_of_mem "BATCH_CASE" hname
  generalize hwindow : part ++ (endMarker "STDERR" ++ 10 :: more) = window
  by_cases hclosed : 10 :: endMarker name <:+: window
  · obtain ⟨content, behind, hsplit, hfirst⟩ := exists_first hclosed
    refine Or.inl ⟨stripLineFeeds content, fun rest ↦ ?_⟩
    rw [← extractSection_split hknown hbefore (hfirst (by simp)) (behind ++ rest), hsplit]
    simp only [List.append_assoc]
  · refine Or.inr fun content hcontent rest ↦ ⟨stripLineFeeds (window ++ content), ?_, ?_⟩
    · rw [← hwindow, List.append_assoc, List.append_assoc, List.cons_append]
      refine overrun_stripLineFeeds hpart ⟨95, List.mem_append_left _ hmore, by decide⟩
    · have hinside : ¬10 :: endMarker name <:+: window ++ content := by
        rcases hcontent with rfl | ⟨c, tail, rfl, hc, htail⟩
        · rwa [List.append_nil]
        · exact not_infix_append_cons hc hclosed htail
      rw [← extractSection_split hknown hbefore hinside rest]
      simp only [List.append_assoc]

/-- The text of a run that prints nothing else than the events and the state. -/
def bareText (events state : PyStr) : ShownRun where
  noise := []
  exitCode := 0
  events := events
  state := state
  trailing := []
  noise_markFree := markFree_nil

/-- A testcase without outputs. -/
def silent : Outputs := ⟨[], []⟩

/-- Texts with a begin marker split the text before the trusted sections at one. -/
theorem exists_opening {outputs : Outputs} (hopening : outputs.Opening) :
    ∃ name ∈ trustedNames, ∃ before part,
      ¬echo (beginMarker name) <:+: before ∧ AtLineStart part ∧
      ∀ events state, (bareText events state).transcript outputs =
        before ++ (echo (beginMarker name) ++
          (part ++ (endMarker "STDERR" ++ 10 :: trustedSections events state))) := by
  obtain ⟨text, htext, name, hname, hoccurs⟩ := hopening
  have hlines : echo (beginMarker name) <:+: ((bareText [] []).lines outputs).flatMap echo := by
    refine (infix_lines_iff _ outputs hname).mpr ?_
    rcases List.mem_pair.mp htext with rfl | rfl
    · exact Or.inl hoccurs
    · exact Or.inr hoccurs
  obtain ⟨before, part, hsplit, hfirst⟩ := exists_first hlines
  refine ⟨name, hname, before, part, hfirst (by simp [echo]), ?_, ?_⟩
  · intro c hc
    have hlast : (((bareText [] []).lines outputs).flatMap echo).getLast? = some 10 := by
      have hecho : ((bareText [] []).lines outputs).flatMap echo =
          ((bareText [] []).lines outputs).dropLast.flatMap echo ++ echo outputs.stderr := by
        simp [ShownRun.lines]
      rw [hecho, List.getLast?_append_of_ne_nil _ (by simp [echo]), getLast_echo]
    have hne : part ≠ [] := by
      rintro rfl
      cases hc
    rw [hsplit, List.getLast?_append_of_ne_nil _ (by simp [echo]),
      List.getLast?_append_of_ne_nil _ hne, Option.mem_def.mp hc] at hlast
    exact Option.some.inj hlast
  · intro events state
    have hcommon : (bareText events state).lines outputs = (bareText [] []).lines outputs := rfl
    rw [ShownRun.transcript_eq, hcommon, hsplit]
    simp [bareText, echo]

theorem silent_events :
    (textEvidence ((bareText [] (listedText [])).transcript silent)).events = .ok [] ∧
      (textEvidence ((bareText [123, 125] (listedText [])).transcript silent)).events =
        .ok [.obj []] := by
  have hempty : extractSection ((bareText [] (listedText [])).transcript silent) "EVENTS" =
      some [] := by
    decide +kernel
  have hone : extractSection ((bareText [123, 125] (listedText [])).transcript silent) "EVENTS" =
      some [123, 125] := by
    decide +kernel
  constructor
  · rw [textEvidence, hempty]
    rfl
  · rw [textEvidence, hone]
    rfl

/-- An empty file. -/
def emptyFile : ListedFile := ⟨[97], 0, []⟩

theorem silent_state :
    (textEvidence ((bareText [] (listedText [])).transcript silent)).externalState =
        .ok (dict [("files", .arr [])]) ∧
      (textEvidence ((bareText [] (listedText [emptyFile])).transcript silent)).externalState =
        .ok (dict [("files", .arr [dict [("path", .str [97]), ("size", .int 0),
          ("sha256", .str [])]])]) := by
  have hempty : extractSection ((bareText [] (listedText [])).transcript silent)
      "EXTERNAL_STATE" = some (listedText []) := by
    decide +kernel
  have hone : extractSection ((bareText [] (listedText [emptyFile])).transcript silent)
      "EXTERNAL_STATE" = some (listedText [emptyFile]) := by
    decide +kernel
  constructor
  · rw [textEvidence, hempty]
    rfl
  · rw [textEvidence, hone]
    rfl

/-- A begin marker in the outputs changes the events of a run without events or of one with the
event `\{}`. -/
theorem forged_events {outputs : Outputs} {before part : PyStr}
    (hbefore : ¬echo (beginMarker "EVENTS") <:+: before) (hpart : AtLineStart part)
    (htranscript : ∀ events state, (bareText events state).transcript outputs =
      before ++ (echo (beginMarker "EVENTS") ++
        (part ++ (endMarker "STDERR" ++ 10 :: trustedSections events state)))) :
    ¬∀ events ∈ [[], [123, 125]],
      (textEvidence ((bareText events (listedText [])).transcript outputs)).events =
        (textEvidence ((bareText events (listedText [])).transcript silent)).events := by
  intro hsame
  have hrun : ∀ events, ∃ rest, (bareText events (listedText [])).transcript outputs =
      before ++ (echo (beginMarker "EVENTS") ++
        (part ++ (endMarker "STDERR" ++ 10 :: echo (beginMarker "EVENTS")) ++
          (events ++ (10 :: endMarker "EVENTS" ++ rest)))) := by
    intro events
    refine ⟨[10] ++ emitFileSection "EXTERNAL_STATE" (listedText []), ?_⟩
    rw [htranscript]
    simp [trustedSections, emitFileSection_eq]
  have hempty := hsame [] (by decide)
  have hone := hsame [123, 125] (by decide)
  rw [silent_events.1] at hempty
  rw [silent_events.2] at hone
  obtain ⟨rest, hrest⟩ := hrun []
  rcases extractSection_forged (by decide) hbefore hpart
    (show 95 ∈ echo (beginMarker "EVENTS") by decide) with ⟨content, hfixed⟩ | hoverrun
  · obtain ⟨other, hother⟩ := hrun [123, 125]
    rw [textEvidence, hrest, hfixed] at hempty
    rw [textEvidence, hother, hfixed] at hone
    have hcontra : (Except.ok [] : Except PyError (List Value)) = .ok [.obj []] :=
      hempty.symm.trans hone
    cases hcontra
  · obtain ⟨text, hbroken, htext⟩ := hoverrun [] (Or.inl rfl) rest
    rw [textEvidence, hrest, htext] at hempty
    exact hbroken.parseEvents_ne [] hempty

/-- A begin marker in the outputs changes the external state of a run without files or of one with
a file. -/
theorem forged_state {outputs : Outputs} {before part : PyStr}
    (hbefore : ¬echo (beginMarker "EXTERNAL_STATE") <:+: before) (hpart : AtLineStart part)
    (htranscript : ∀ events state, (bareText events state).transcript outputs =
      before ++ (echo (beginMarker "EXTERNAL_STATE") ++
        (part ++ (endMarker "STDERR" ++ 10 :: trustedSections events state)))) :
    ¬∀ state ∈ [listedText [], listedText [emptyFile]],
      (textEvidence ((bareText [] state).transcript outputs)).externalState =
        (textEvidence ((bareText [] state).transcript silent)).externalState := by
  intro hsame
  have hrun : ∀ state, (bareText [] state).transcript outputs =
      before ++ (echo (beginMarker "EXTERNAL_STATE") ++
        (part ++ (endMarker "STDERR" ++ 10 :: (emitFileSection "EVENTS" [] ++
            echo (beginMarker "EXTERNAL_STATE"))) ++
          (state ++ (10 :: endMarker "EXTERNAL_STATE" ++ [10])))) := by
    intro state
    rw [htranscript]
    simp [trustedSections, emitFileSection_eq]
  have hempty := hsame (listedText []) List.mem_cons_self
  have hone := hsame (listedText [emptyFile]) (List.mem_cons_of_mem _ List.mem_cons_self)
  rw [silent_state.1] at hempty
  rw [silent_state.2] at hone
  rcases extractSection_forged (by decide) hbefore hpart
    (show 95 ∈ emitFileSection "EVENTS" [] ++ echo (beginMarker "EXTERNAL_STATE") by decide)
    with ⟨content, hfixed⟩ | hoverrun
  · rw [textEvidence, hrun, hfixed] at hempty
    rw [textEvidence, hrun, hfixed] at hone
    have hcontra := hempty.symm.trans hone
    cases hcontra
  · have hcontent : ∃ c tail, listedText [] = c :: tail ∧
        c ∉ 10 :: endMarker "EXTERNAL_STATE" ∧ ¬10 :: endMarker "EXTERNAL_STATE" <:+: tail :=
      ⟨123, (listedText []).tail, by decide, by decide, by decide⟩
    obtain ⟨text, hbroken, htext⟩ := hoverrun (listedText []) (Or.inr hcontent) [10]
    rw [textEvidence, hrun, htext] at hempty
    exact hbroken.parseExternalState_ne _ hempty

/-! ### Noninterference -/

/-- A run that prints nothing else than the events and the files. -/
def bareRun (events : List ℕ) (files : List ListedFile) : PackagedRun where
  earlier := []
  noise := []
  exitCode := 0
  events := events
  files := files
  trailing := []
  later := fun _ ↦ []
  earlier_markFree := fun _ hlog ↦ absurd hlog List.not_mem_nil
  noise_markFree := markFree_nil

theorem evidence_bareRun {events : List ℕ} {files : List ListedFile}
    (hevents : shown events = events) (hfiles : shown (listedText files) = listedText files)
    (outputs : Outputs) :
    evidence ((bareRun events files).logs outputs) =
      textEvidence ((bareText events (listedText files)).transcript outputs.shown) := by
  obtain ⟨others, hothers, hevidence⟩ := evidence_logs (bareRun events files) outputs
  have hnone : others = [] := List.eq_nil_iff_forall_not_mem.mpr fun other hother ↦
    List.not_mem_nil (hothers other hother)
  have hshown : (bareRun events files).shownBefore [] = bareText events (listedText files) := by
    simp only [PackagedRun.shownBefore, bareRun, bareText, hevents, hfiles]
    rfl
  rw [hevidence, hnone, hshown]

/-- Outputs cannot reach the evidence exactly when in none of them, with the line feed behind it,
the host reads the begin marker of the events or of the external state. -/
theorem harmless_iff_not_forging (outputs : Outputs) : outputs.Harmless ↔ ¬outputs.Forging := by
  have hsilent : ¬silent.Forging ∧ silent.shown = silent := ⟨by decide, rfl⟩
  constructor
  · intro hharmless hforging
    have hsame : ∀ events ∈ [[], [123, 125]], ∀ files ∈ [[], [emptyFile]],
        textEvidence ((bareText events (listedText files)).transcript outputs.shown) =
          textEvidence ((bareText events (listedText files)).transcript silent) := by
      intro events hevents files hfiles
      have hreadEvents : ∀ events ∈ [[], [123, 125]], shown events = events := by
        decide
      have hreadFiles : ∀ files ∈ [[], [emptyFile]],
          shown (listedText files) = listedText files := by
        decide
      have hrun := hharmless (bareRun events files) silent hsilent.1
      rwa [evidence_bareRun (hreadEvents events hevents) (hreadFiles files hfiles),
        evidence_bareRun (hreadEvents events hevents) (hreadFiles files hfiles), hsilent.2] at hrun
    obtain ⟨name, hname, before, part, hbefore, hpart, htranscript⟩ :=
      exists_opening (opening_shown_iff.mpr hforging)
    rcases List.mem_pair.mp hname with rfl | rfl
    · exact forged_events hbefore hpart htranscript fun events hevents ↦
        congrArg CaseEvidence.events (hsame events hevents [] List.mem_cons_self)
    · refine forged_state hbefore hpart htranscript fun state hstate ↦ ?_
      have hempty := hsame [] List.mem_cons_self
      rcases List.mem_pair.mp hstate with rfl | rfl
      · exact congrArg CaseEvidence.externalState (hempty [] List.mem_cons_self)
      · exact congrArg CaseEvidence.externalState
          (hempty [emptyFile] (List.mem_cons_of_mem _ List.mem_cons_self))
  · exact fun hclean run other hother ↦ evidence_eq_of_not_forging run hclean hother

/-- A testcase that prints an empty section of events hides its events. -/
theorem not_forall_evidence_eq : ¬∀ (run : PackagedRun) (first second : Outputs),
    evidence (run.logs first) = evidence (run.logs second) := by
  intro hsame
  have hforged : extractSection (readConsoleText ((bareRun [123, 125] []).logs
      ⟨echo (beginMarker "EVENTS") ++ 10 :: endMarker "EVENTS", []⟩)) "EVENTS" = some [] := by
    decide +kernel
  have hclean : extractSection (readConsoleText ((bareRun [123, 125] []).logs silent)) "EVENTS" =
      some [123, 125] := by
    decide +kernel
  have hevents := congrArg CaseEvidence.events (hsame (bareRun [123, 125] []) silent
    ⟨echo (beginMarker "EVENTS") ++ 10 :: endMarker "EVENTS", []⟩)
  rw [evidence, evidence, textEvidence, textEvidence, hforged, hclean] at hevents
  cases hevents

end SyzAbi.Tools

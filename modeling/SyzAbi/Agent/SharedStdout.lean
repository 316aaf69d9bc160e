import SyzAbi.Agent.Framing
import SyzAbi.Agent.StreamIntegrity

/-!
# The Linux tracer on a shared standard output

In the standard output transport `emit_trace_line` puts the prefix before the line of an event, and
nothing before the prefix, and the traced program writes to the same stream. The console text is
what both wrote, in the order they wrote it (`consoleText_eq`). So an event is found if and
only if the program left no line open before it, or one of colour sequences
(`extractFramedEvents_stdout_iff`).
-/

set_option autoImplicit false
set_option relaxedAutoImplicit false

namespace SyzAbi.Agent

open Orchestrator Library.Json Library.OpenFiles

variable {Path : Type} [DecidableEq Path] (setup : TraceSetup Path)

/-! ### Runs -/

/-- The program writes a text to its standard output. -/
def writeStdout (state : TracerState Path) (text : Text) : TracerState Path :=
  { state with kernel := (writeAll setup state.kernel stdoutFileno text).1 }

/-- The program writes texts, and the tracer emits an event. -/
def runTurn (state : TracerState Path) (turn : List Text × Event) : TracerState Path :=
  emitTraceLine setup (turn.1.foldl (writeStdout setup) state) (emitEvent setup.env turn.2)

/-- A program that writes to its standard output between the events. -/
def runShared (state : TracerState Path) (run : SharedRun Event) : TracerState Path :=
  run.closing.foldl (writeStdout setup) (run.turns.foldl (runTurn setup) state)

/-- The console text after a run of the program from the start of the tracer, with the console open
for appending as the standard output. -/
def consoleText (kernel : Kernel Path ℕ) (file : ℕ) (run : SharedRun Event) : Text :=
  (runShared setup { kernel := kernel } run).kernel.contents file

/-! ### The console text -/

/-- The standard output is the console, which holds the text, and the tracer writes to it. -/
structure Shares (file : ℕ) (text : Text) (state : TracerState Path) : Prop where
  attached : state.kernel.Attached stdoutFileno file
  contents_eq : state.kernel.contents file = text
  tracer : state.traceFd = none ∨ state.traceFd = some stdoutFileno ∧ state.stdoutTransport = true

variable {setup} {file : ℕ}

omit [DecidableEq Path] in
theorem Shares.writeStdout {text : Text} {state : TracerState Path}
    (hshares : Shares file text state) (written : Text) :
    Shares file (text ++ written) (writeStdout setup state written) := by
  obtain ⟨hattached, hcontents⟩ := writeAll_attached setup written hshares.attached
  refine ⟨hattached, ?_, hshares.tracer⟩
  rw [← hshares.contents_eq]
  exact hcontents

omit [DecidableEq Path] in
theorem Shares.writeTexts {text : Text} {state : TracerState Path}
    (hshares : Shares file text state) (texts : List Text) :
    Shares file (text ++ texts.flatten) (texts.foldl (Agent.writeStdout setup) state) := by
  induction texts generalizing text state with
  | nil =>
    rw [List.flatten_nil, List.append_nil]
    exact hshares
  | cons written texts ih =>
    rw [List.flatten_cons, ← List.append_assoc, List.foldl_cons]
    exact ih (hshares.writeStdout written)

/-- The tracer appends the frame of the event. -/
theorem Shares.emit (hstdout : setup.eventsFile = none) {text : Text} {state : TracerState Path}
    (hshares : Shares file text state) (event : Event) :
    Shares file (text ++ framed (eventText setup.env event))
      (emitTraceLine setup state (emitEvent setup.env event)) := by
  have hopen : openTraceFile setup state =
      ({ state with stdoutTransport := true, traceFd := some stdoutFileno },
        some stdoutFileno) := by
    rw [openTraceFile]
    rcases hshares.tracer with hclosed | ⟨hopened, htransport⟩
    · rw [hclosed]
      simp only [hstdout]
    · obtain ⟨kernel, traceFd, stdoutTransport, openedFiles, eventFiles⟩ := state
      simp only at hopened htransport
      rw [hopened, htransport]
  obtain ⟨hattached, hcontents⟩ := writeAll_attached setup
    (traceStdoutPrefix ++ emitEvent setup.env event) hshares.attached
  rw [emitTraceLine_of_open hopen (length_emitEvent_lt setup.env event)]
  refine ⟨hattached, ?_, .inr ⟨rfl, rfl⟩⟩
  have hframe : framed (eventText setup.env event) =
      traceStdoutPrefix ++ emitEvent setup.env event := by
    rw [emitEvent_eq, framed, ← List.append_assoc]
    rfl
  rw [hframe, ← hshares.contents_eq]
  exact hcontents

theorem Shares.runTurns (hstdout : setup.eventsFile = none) {text : Text}
    {state : TracerState Path} (hshares : Shares file text state)
    (turns : List (List Text × Event)) :
    Shares file
      (text ++ turns.flatMap fun turn ↦ turn.1.flatten ++ framed (eventText setup.env turn.2))
      (turns.foldl (runTurn setup) state) := by
  induction turns generalizing text state with
  | nil =>
    rw [List.flatMap_nil, List.append_nil]
    exact hshares
  | cons turn turns ih =>
    rw [List.flatMap_cons, ← List.append_assoc, ← List.append_assoc, List.foldl_cons]
    exact ih ((hshares.writeTexts turn.1).emit hstdout turn.2)

/-- The console text is what the program and the tracer wrote, in order. -/
theorem consoleText_eq (hstdout : setup.eventsFile = none) {kernel : Kernel Path ℕ}
    (hattached : kernel.Attached stdoutFileno file) (hempty : kernel.contents file = [])
    (run : SharedRun Event) :
    consoleText setup kernel file run =
      run.stream fun event ↦ framed (eventText setup.env event) := by
  have hstart : Shares file [] ({ kernel := kernel } : TracerState Path) :=
    ⟨hattached, hempty, .inl rfl⟩
  exact ((hstart.runTurns hstdout run.turns).writeTexts run.closing).contents_eq

/-! ### The events of the console text -/

theorem space_not_mem_outputText (env : TracerEnvironment) (probe : OutputProbe) :
    32 ∉ outputText env probe := by
  have hlabel := space_not_mem_name probe.label
  have hdigest := space_not_mem_digest env.digest (probedBytes env.platform probe)
  have hvalues := space_not_mem_integers probe.resourceValues
  have hpreview : 32 ∉ quoted (probePreview env probe) := space_not_mem_preview _ _
  rw [outputText, jsonString_of_plain probe.label.plain, jsonString_of_plain (env.digest.plain _),
    @jsonString_of_plain (probePreview env probe) (plain_hexPreview _ _),
    jsonString_of_plain (plain_of_identifier (by decide) : Plain (PyStr.ofString "fd"))]
  apply space_not_mem_objectText
  intro text htext
  rcases List.mem_append.mp htext with htext | htext
  · simp only [List.mem_cons, List.not_mem_nil, or_false] at htext
    rcases htext with rfl | rfl | rfl | rfl | rfl
    · exact space_not_mem_member (by decide) hlabel
    · exact space_not_mem_member (by decide) (space_not_mem_decimal _)
    · exact space_not_mem_member (by decide) (space_not_mem_decimal _)
    · exact space_not_mem_member (by decide) hpreview
    · exact space_not_mem_member (by decide) hdigest
  · obtain ⟨-, htext⟩ := List.mem_ite_nil_right.mp htext
    rcases List.mem_pair.mp htext with rfl | rfl
    · exact space_not_mem_member (by decide) (by decide)
    · exact space_not_mem_member (by decide) hvalues

theorem space_not_mem_eventText (env : TracerEnvironment) (event : Event) :
    32 ∉ eventText env event := by
  rw [eventText, jsonString_of_plain env.side.plain, jsonString_of_plain event.call.name.plain]
  apply space_not_mem_objectText
  intro text htext
  simp only [List.mem_cons, List.not_mem_nil, or_false] at htext
  rcases htext with rfl | rfl | rfl | rfl | rfl | rfl | rfl | rfl | rfl | rfl | rfl
  · exact space_not_mem_member (by decide) (space_not_mem_decimalInt _)
  · exact space_not_mem_member (by decide) (space_not_mem_name _)
  · exact space_not_mem_member (by decide) (space_not_mem_name _)
  · exact space_not_mem_member (by decide) (space_not_mem_decimalInt _)
  · exact space_not_mem_member (by decide) (space_not_mem_integers _)
  · exact space_not_mem_member (by decide) (space_not_mem_decimalInt _)
  · exact space_not_mem_member (by decide) (space_not_mem_decimalInt _)
  · exact space_not_mem_member (by decide) (space_not_mem_decimal _)
  · exact space_not_mem_member (by decide) (space_not_mem_decimal _)
  · exact space_not_mem_member (by decide) (by decide)
  · refine space_not_mem_member (by decide) (space_not_mem_arrayText ?_)
    intro output houtput
    obtain ⟨probe, -, rfl⟩ := List.mem_map.mp houtput
    exact space_not_mem_outputText env probe

/-- With a program that never writes the prefix, the console text yields exactly the emitted events,
in order, if and only if what the program wrote between an event and the one before it leaves no
line open, or one of colour sequences. -/
theorem extractFramedEvents_stdout_iff (setup : TraceSetup Path) (hstdout : setup.eventsFile = none)
    (kernel : Kernel Path ℕ) (file : ℕ) (hattached : kernel.Attached stdoutFileno file)
    (hempty : kernel.contents file = []) (run : SharedRun Event)
    (hfree : ∀ text ∈ run.texts, PrefixFree text) :
    extractFramedEvents (consoleText setup kernel file run) =
        .ok (run.frames.map (eventValue setup.env)) ↔
      ∀ turn ∈ run.turns, OnlyColours (openLine turn.1.flatten) := by
  rw [consoleText_eq hstdout hattached hempty]
  exact extractFramedEvents_stream_iff (fun event _ ↦
    ⟨eventLine_eventText setup.env event, space_not_mem_eventText setup.env event⟩) hfree

/-! ### A program that leaves its line open -/

/-- The tracer of the reference run, in the standard output transport. -/
def stdoutSetup : TraceSetup String where
  env := smokeTracers.reference
  eventsPath := some "stdout"
  resolve := id
  accepted := id
  accepted_pos := fileSetup.accepted_pos
  accepted_le := fileSetup.accepted_le

/-- A program that writes a text and calls `getpid()`. -/
def writesBeforeEvent (text : Text) : SharedRun Event where
  turns := [([text],
    (programCall getpidName 39 0 0 1000 .nothing).event stdoutSetup)]
  closing := []

/-- The event behind `DATA` is lost. -/
theorem unterminated_loses_event :
    (∀ text ∈ (writesBeforeEvent (PyStr.ofString "DATA")).texts, PrefixFree text) ∧
      extractFramedEvents (consoleText stdoutSetup freshProcess 1
          (writesBeforeEvent (PyStr.ofString "DATA"))) ≠
        .ok ((writesBeforeEvent (PyStr.ofString "DATA")).frames.map
          (eventValue stdoutSetup.env)) := by
  have hlost : ((extractFramedEvents (consoleText stdoutSetup freshProcess 1
      (writesBeforeEvent (PyStr.ofString "DATA")))).map List.length).toOption = some 0 := by
    decide +kernel
  refine ⟨by unfold PrefixFree; decide +kernel, fun heq ↦ ?_⟩
  rw [heq] at hlost
  exact absurd hlost (by decide)

/-- The event behind a line of text is found. -/
theorem terminated_keeps_event :
    extractFramedEvents (consoleText stdoutSetup freshProcess 1
        (writesBeforeEvent (PyStr.ofString "DATA" ++ [10]))) =
      .ok ((writesBeforeEvent (PyStr.ofString "DATA" ++ [10])).frames.map
        (eventValue stdoutSetup.env)) :=
  (extractFramedEvents_stdout_iff stdoutSetup rfl freshProcess 1
    ⟨by decide, 1, ⟨1, true, true, 0⟩, rfl, rfl, rfl, rfl, rfl⟩ rfl _
    (by unfold PrefixFree; decide +kernel)).mpr (by decide +kernel)

end SyzAbi.Agent

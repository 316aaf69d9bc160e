import SyzAbi.Agent.Framing
import SyzAbi.Agent.TracerAgreement

/-!
# The ArceOS tracer on a shared console

The ArceOS tracer starts the frame of an event with a line feed. The adapter removes the escape
sequences and the null characters of the console text before it looks for frames. A line feed is in
no escape sequence, so what is removed before a frame ends there (`removeEscapes_lineFeed`), and the
frame itself stands at the head of a line. So all events are found, whatever the program and the
kernel write between them (`extractFramedEvents_console`).
-/

set_option autoImplicit false
set_option relaxedAutoImplicit false

namespace SyzAbi.Agent.Arceos

open Orchestrator Library.Json

/-! ### Writing -/

/-- What a call of `write` answers. -/
inductive WriteAnswer
  | accepted (count : ℕ)
  | interrupted
  | failed
  deriving DecidableEq

/-- `write_all`, with the answers of its calls of `write`: what the console holds afterwards. -/
def writeAll (console : Text) : List WriteAnswer → Text → Text
  | _, [] => console
  | [], _ :: _ => console
  | .accepted 0 :: _, _ :: _ => console
  | .accepted (count + 1) :: answers, c :: payload =>
    writeAll (console ++ (c :: payload).take (count + 1)) answers ((c :: payload).drop (count + 1))
  | .interrupted :: answers, c :: payload => writeAll console answers (c :: payload)
  | .failed :: _, _ :: _ => console

/-- The write makes progress. -/
def WriteAnswer.progresses : WriteAnswer → Bool
  | .accepted count => 0 < count
  | _ => false

/-- An event and the answers of the writes of its line. -/
structure EmittedEvent where
  event : Event
  answers : List WriteAnswer

/-- Each write of the line makes progress, and there are as many as the line may need. -/
def EmittedEvent.Progresses (digest : Digest) (emitted : EmittedEvent) : Prop :=
  (∀ answer ∈ emitted.answers, answer.progresses = true) ∧
    (emitEvent digest emitted.event).length ≤ emitted.answers.length

/-- Texts arrive on the console, and the tracer emits an event. -/
def emitOnConsole (digest : Digest) (console : Text) (turn : List Text × EmittedEvent) : Text :=
  writeAll (console ++ turn.1.flatten) turn.2.answers (emitEvent digest turn.2.event)

/-- The console text after a run. -/
def consoleText (digest : Digest) (run : SharedRun EmittedEvent) : Text :=
  run.turns.foldl (emitOnConsole digest) [] ++ run.closing.flatten

/-! ### The adapter -/

/-- The parameter characters of `ANSI_ESCAPE_RE`: the digits, `;` and `?`. -/
def isParameter (c : ℕ) : Bool := (48 ≤ c && c ≤ 57) || c = 59 || c = 63

/-- The characters from the space to the slash. -/
def isIntermediate (c : ℕ) : Bool := 32 ≤ c && c ≤ 47

/-- The characters from `@` to `~`. -/
def isFinal (c : ℕ) : Bool := 64 ≤ c && c ≤ 126

/-- What follows a match of `ANSI_ESCAPE_RE` at the head of the text. The three classes of the
expression are disjoint, so it matches in one way at most. -/
def behindEscape : Text → Option Text
  | 27 :: 91 :: rest =>
    match (rest.dropWhile isParameter).dropWhile isIntermediate with
    | [] => none
    | c :: behind => if isFinal c then some behind else none
  | _ => none

theorem length_behindEscape {text behind : Text} (hbehind : behindEscape text = some behind) :
    behind.length < text.length := by
  match text with
  | 27 :: 91 :: rest =>
    rw [behindEscape] at hbehind
    split at hbehind
    · cases hbehind
    · next c tail htail =>
      obtain ⟨-, hsome⟩ := Option.ite_none_right_eq_some.mp hbehind
      have hsuffix : c :: tail <:+ rest := by
        rw [← htail]
        exact (List.dropWhile_suffix _).trans (List.dropWhile_suffix _)
      have hlength := hsuffix.length_le
      rw [← Option.some.inj hsome]
      simp only [List.length_cons] at hlength ⊢
      omega

/-- `ANSI_ESCAPE_RE.sub("", text)`. -/
def removeEscapes : Text → Text
  | [] => []
  | c :: rest =>
    match _hbehind : behindEscape (c :: rest) with
    | some behind => removeEscapes behind
    | none => c :: removeEscapes rest
termination_by text => text.length
decreasing_by
  · exact length_behindEscape _hbehind
  · exact Nat.lt_succ_self _

/-- The console text that `write_case_outputs` looks for events in. -/
def normalizedConsole (text : Text) : Text := (removeEscapes text).filter (· ≠ 0)

/-! ### What is removed -/

theorem dropWhile_append_lineFeed {p : ℕ → Bool} (hstop : p 10 = false) (text rest : Text) :
    (text ++ 10 :: rest).dropWhile p = text.dropWhile p ++ 10 :: rest := by
  induction text with
  | nil => rw [List.nil_append, List.dropWhile_cons_of_neg (by simp [hstop]), List.dropWhile_nil,
      List.nil_append]
  | cons c text ih =>
    by_cases hc : p c = true
    · rw [List.cons_append, List.dropWhile_cons_of_pos hc, List.dropWhile_cons_of_pos hc, ih]
    · rw [List.cons_append, List.dropWhile_cons_of_neg hc, List.dropWhile_cons_of_neg hc,
        List.cons_append]

theorem behindEscape_of_ne {c : ℕ} (hc : c ≠ 27) (rest : Text) :
    behindEscape (c :: rest) = none := by
  rw [behindEscape]
  rintro more heq
  exact hc (List.cons.inj heq).1

/-- An escape sequence does not go beyond a line feed. -/
theorem behindEscape_lineFeed (text rest : Text) :
    behindEscape (text ++ 10 :: rest) = (behindEscape text).map (· ++ 10 :: rest) := by
  match text with
  | [] => exact behindEscape_of_ne (by decide) rest
  | [c] =>
    have hsingle : behindEscape [c] = none := by
      rw [behindEscape]
      rintro more heq
      cases (List.cons.inj heq).2
    rw [hsingle, List.singleton_append, behindEscape]
    · rfl
    · rintro more heq
      exact absurd (List.cons.inj (List.cons.inj heq).2).1 (by decide)
  | c :: d :: more =>
    by_cases hhead : c = 27 ∧ d = 91
    · obtain ⟨rfl, rfl⟩ := hhead
      rw [List.cons_append, List.cons_append, behindEscape, behindEscape,
        dropWhile_append_lineFeed (by decide), dropWhile_append_lineFeed (by decide)]
      cases (more.dropWhile isParameter).dropWhile isIntermediate with
      | nil => rfl
      | cons e behind =>
        rw [List.cons_append]
        by_cases he : isFinal e = true <;> simp [he]
    · have hnone : ∀ tail, behindEscape (c :: d :: tail) = none := by
        intro tail
        rw [behindEscape]
        rintro other heq
        exact hhead ⟨(List.cons.inj heq).1, (List.cons.inj (List.cons.inj heq).2).1⟩
      rw [List.cons_append, List.cons_append, hnone, hnone]
      rfl

theorem removeEscapes_cons_of_none {c : ℕ} {rest : Text}
    (hbehind : behindEscape (c :: rest) = none) :
    removeEscapes (c :: rest) = c :: removeEscapes rest := by
  rw [removeEscapes]
  split
  · next behind hsome => exact absurd (hbehind.symm.trans hsome) (by simp)
  · rfl

theorem removeEscapes_cons_of_some {c : ℕ} {rest behind : Text}
    (hbehind : behindEscape (c :: rest) = some behind) :
    removeEscapes (c :: rest) = removeEscapes behind := by
  rw [removeEscapes]
  split
  · next other hsome => rw [Option.some.inj (hbehind.symm.trans hsome)]
  · next hnone => exact absurd (hbehind.symm.trans hnone) (by simp)

/-- Escape sequences are removed on both sides of a line feed separately. -/
theorem removeEscapes_lineFeed (text rest : Text) :
    removeEscapes (text ++ 10 :: rest) = removeEscapes text ++ 10 :: removeEscapes rest := by
  fun_induction removeEscapes text with
  | case1 =>
    rw [List.nil_append, removeEscapes_cons_of_none (behindEscape_of_ne (by decide) rest)]
    rfl
  | case2 c more behind hbehind ih =>
    have hboth := behindEscape_lineFeed (c :: more) rest
    rw [hbehind, Option.map_some, List.cons_append] at hboth
    rw [List.cons_append, removeEscapes_cons_of_some hboth, ih]
  | case3 c more hbehind ih =>
    have hboth := behindEscape_lineFeed (c :: more) rest
    rw [hbehind, Option.map_none, List.cons_append] at hboth
    rw [List.cons_append, removeEscapes_cons_of_none hboth, ih, List.cons_append]

theorem removeEscapes_of_printable {text : Text} (htext : Printable text) :
    removeEscapes text = text := by
  induction text with
  | nil => rw [removeEscapes]
  | cons c text ih =>
    have hc := htext c List.mem_cons_self
    rw [removeEscapes_cons_of_none (behindEscape_of_ne (by omega) text),
      ih fun d hd ↦ htext d (List.mem_cons_of_mem c hd)]

theorem normalizedConsole_lineFeed (text rest : Text) :
    normalizedConsole (text ++ 10 :: rest) =
      normalizedConsole text ++ 10 :: normalizedConsole rest := by
  rw [normalizedConsole, removeEscapes_lineFeed, List.filter_append,
    List.filter_cons_of_pos (by decide)]
  rfl

theorem normalizedConsole_of_printable {text : Text} (htext : Printable text) :
    normalizedConsole text = text := by
  rw [normalizedConsole, removeEscapes_of_printable htext, List.filter_eq_self]
  intro c hc
  have hrange := htext c hc
  exact decide_eq_true (by omega)

/-! ### What is written -/

/-- Writes that make progress put the whole line on the console. -/
theorem writeAll_of_progresses {answers : List WriteAnswer}
    (hprogress : ∀ answer ∈ answers, answer.progresses = true) (console : Text) {payload : Text}
    (henough : payload.length ≤ answers.length) :
    writeAll console answers payload = console ++ payload := by
  induction answers generalizing console payload with
  | nil =>
    rw [List.eq_nil_of_length_eq_zero (Nat.le_zero.mp henough), writeAll, List.append_nil]
  | cons answer answers ih =>
    have hrest := fun other hother ↦ hprogress other (List.mem_cons_of_mem answer hother)
    match payload, answer, hprogress answer List.mem_cons_self with
    | [], _, _ => rw [writeAll, List.append_nil]
    | c :: payload, .accepted (count + 1), _ =>
      rw [writeAll, ih hrest, List.append_assoc, List.take_append_drop]
      simp only [List.length_drop, List.length_cons] at henough ⊢
      omega

/-- The console text is what was written, in order. -/
theorem consoleText_eq {digest : Digest} {run : SharedRun EmittedEvent}
    (hprogress : ∀ emitted ∈ run.frames, emitted.Progresses digest) :
    consoleText digest run = run.stream fun emitted ↦ emitEvent digest emitted.event := by
  have hturns : ∀ (turns : List (List Text × EmittedEvent)) (console : Text),
      (∀ turn ∈ turns, turn.2.Progresses digest) →
        turns.foldl (emitOnConsole digest) console = console ++
          turns.flatMap fun turn ↦ turn.1.flatten ++ emitEvent digest turn.2.event := by
    intro turns
    induction turns with
    | nil =>
      intro console _
      rw [List.foldl_nil, List.flatMap_nil, List.append_nil]
    | cons turn turns ih =>
      intro console hturns
      obtain ⟨hanswers, henough⟩ := hturns turn List.mem_cons_self
      rw [List.foldl_cons, ih _ fun other hother ↦ hturns other (List.mem_cons_of_mem turn hother),
        emitOnConsole, writeAll_of_progresses hanswers _ henough, List.flatMap_cons]
      simp only [List.append_assoc]
  rw [consoleText, hturns run.turns [] fun turn hturn ↦
    hprogress turn.2 (List.mem_map_of_mem hturn)]
  rfl

/-! ### What is found -/

/-- The texts as the parser sees them, with the line feed of a frame behind the text before it. -/
def normalizedRun (run : SharedRun EmittedEvent) : SharedRun EmittedEvent where
  turns := run.turns.map fun turn ↦ ([normalizedConsole turn.1.flatten ++ [10]], turn.2)
  closing := [normalizedConsole run.closing.flatten]

/-- Normalizing the console text changes the texts only. -/
theorem normalizedConsole_stream {digest : Digest} {run : SharedRun EmittedEvent}
    (hprobes : ∀ emitted ∈ run.frames, emitted.event.probes.length ≤ 1) :
    normalizedConsole (run.stream fun emitted ↦ emitEvent digest emitted.event) =
      (normalizedRun run).stream fun emitted ↦ framed (eventText digest emitted.event) := by
  obtain ⟨turns, closing⟩ := run
  simp only [SharedRun.stream, SharedRun.frames, normalizedRun] at hprobes ⊢
  induction turns with
  | nil => simp
  | cons turn turns ih =>
    have hprobe := hprobes turn.2 (List.mem_map_of_mem List.mem_cons_self)
    have hrest := ih fun emitted hemitted ↦
      hprobes emitted (by rw [List.map_cons]; exact List.mem_cons_of_mem turn.2 hemitted)
    have hframe : Printable (traceStdoutPrefix ++ eventText digest turn.2.event) :=
      Printable.append (by decide) (printed_eventText digest hprobe).printable
    have hsplit : ∀ behind : Text, turn.1.flatten ++ emitEvent digest turn.2.event ++ behind =
        turn.1.flatten ++ 10 ::
          ((traceStdoutPrefix ++ eventText digest turn.2.event) ++ 10 :: behind) := by
      intro behind
      rw [emitEvent_eq digest hprobe]
      simp [List.append_assoc]
    rw [List.flatMap_cons, List.append_assoc, hsplit, normalizedConsole_lineFeed,
      normalizedConsole_lineFeed, normalizedConsole_of_printable hframe, hrest]
    have hstarts : traceStdoutPrefix = traceEventStdoutPrefix := rfl
    simp [framed, hstarts, List.append_assoc]

theorem prefixFree_append_lineFeed {text : Text} (hfree : PrefixFree text) :
    PrefixFree (text ++ [10]) := by
  rintro ⟨before, behind, heq⟩
  rcases List.eq_nil_or_concat behind with rfl | ⟨initial, c, rfl⟩
  · have hlast := congrArg List.getLast? heq
    have hstarts : traceEventStdoutPrefix.getLast? = some 32 := by decide
    rw [List.append_nil, List.getLast?_append, List.getLast?_append, hstarts] at hlast
    simp at hlast
  · rw [List.concat_eq_append, ← List.append_assoc] at heq
    exact hfree ⟨before, initial, (List.append_inj' heq rfl).1⟩

theorem space_not_mem_outputText (digest : Digest) (probe : OutputProbe) :
    32 ∉ outputText digest probe := by
  apply space_not_mem_objectText
  intro text htext
  simp only [List.mem_cons, List.not_mem_nil, or_false] at htext
  rcases htext with rfl | rfl | rfl | rfl | rfl
  · exact space_not_mem_member (by decide) (space_not_mem_name _)
  · exact space_not_mem_member (by decide) (space_not_mem_decimal _)
  · exact space_not_mem_member (by decide) (space_not_mem_decimal _)
  · exact space_not_mem_member (by decide) (space_not_mem_preview _ _)
  · exact space_not_mem_member (by decide) (space_not_mem_digest _ _)

theorem space_not_mem_eventText (digest : Digest) (event : Event) :
    32 ∉ eventText digest event := by
  have houtputs : 32 ∉ (arrayText (event.probes.map (outputText digest))).take (24576 - 1) := by
    intro hspace
    refine space_not_mem_arrayText ?_ (List.mem_of_mem_take hspace)
    intro output houtput
    obtain ⟨probe, -, rfl⟩ := List.mem_map.mp houtput
    exact space_not_mem_outputText digest probe
  apply space_not_mem_objectText
  intro text htext
  simp only [List.mem_cons, List.not_mem_nil, or_false] at htext
  rcases htext with rfl | rfl | rfl | rfl | rfl | rfl | rfl | rfl | rfl | rfl
  · exact space_not_mem_member (by decide) (space_not_mem_integers _)
  · exact space_not_mem_member (by decide) (space_not_mem_decimal _)
  · exact space_not_mem_member (by decide) (space_not_mem_decimalInt _)
  · exact space_not_mem_member (by decide) (space_not_mem_decimalInt _)
  · exact space_not_mem_member (by decide) houtputs
  · exact space_not_mem_member (by decide) (space_not_mem_decimalInt _)
  · exact space_not_mem_member (by decide) (by decide)
  · exact space_not_mem_member (by decide) (space_not_mem_decimal _)
  · exact space_not_mem_member (by decide) (space_not_mem_name _)
  · exact space_not_mem_member (by decide) (space_not_mem_decimalInt _)

/-- The line of an event stays below the size of its buffer. -/
theorem length_line_lt (digest : Digest) {event : Event} (hprobes : event.probes.length ≤ 1) :
    (10 :: traceStdoutPrefix ++ eventText digest event ++ [10]).length < 32768 := by
  have htext := (printed_eventText digest hprobes).length_le
  have hframe : traceStdoutPrefix.length = 23 := by decide
  simp only [List.length_append, List.length_cons, List.length_nil]
  omega

/-- With writes that make progress, and texts that do not contain the prefix once they are
normalized, the normalized console text yields exactly the emitted events, in order, and every line
of an event fits into its buffer. -/
theorem extractFramedEvents_console (digest : Digest) (run : SharedRun EmittedEvent)
    (hprobes : ∀ emitted ∈ run.frames, emitted.event.probes.length ≤ 1)
    (hprogress : ∀ emitted ∈ run.frames, emitted.Progresses digest)
    (hfree : ∀ text ∈ run.texts, PrefixFree (normalizedConsole text)) :
    extractFramedEvents (normalizedConsole (consoleText digest run)) =
        .ok (run.frames.map fun emitted ↦ eventValue digest emitted.event) ∧
      ∀ emitted ∈ run.frames,
        (10 :: traceStdoutPrefix ++ eventText digest emitted.event ++ [10]).length < 32768 := by
  have hframes : (normalizedRun run).frames = run.frames := by
    simp [normalizedRun, SharedRun.frames]
  have htexts : ∀ text ∈ (normalizedRun run).texts, PrefixFree text := by
    intro text htext
    rcases List.mem_append.mp htext with hbefore | hclosing
    · rw [normalizedRun, List.map_map] at hbefore
      obtain ⟨turn, hturn, rfl⟩ := List.mem_map.mp hbefore
      have hchunk := hfree turn.1.flatten (List.mem_append_left _ (List.mem_map_of_mem hturn))
      simpa using prefixFree_append_lineFeed hchunk
    · rw [List.mem_singleton.mp hclosing]
      simpa [normalizedRun] using hfree _ (List.mem_append_right _ List.mem_cons_self)
  refine ⟨?_, fun emitted hemitted ↦ length_line_lt digest (hprobes emitted hemitted)⟩
  rw [consoleText_eq hprogress, normalizedConsole_stream hprobes, ← hframes]
  refine (extractFramedEvents_stream_iff (fun emitted hemitted ↦ ?_) htexts).mpr ?_
  · rw [hframes] at hemitted
    exact ⟨eventLine_eventText digest (hprobes emitted hemitted), space_not_mem_eventText digest _⟩
  · intro turn hturn
    obtain ⟨original, -, rfl⟩ := List.mem_map.mp hturn
    have hopen : openLine [normalizedConsole original.1.flatten ++ [10]].flatten = [] := by
      rw [List.flatten_singleton, openLine_append_lineFeed]
    rw [hopen]
    rfl

/-! ### A program that leaves its line open -/

/-- The event of `close(0)`, with writes of one byte at least. -/
def closeEmitted : EmittedEvent where
  event := tracedEvent 64 ⟨CommonSyscall.close.name, 1028, 0, ⟨0, 0, 0, 0, 0, 0⟩⟩
    ⟨0, 0, fun _ ↦ 0⟩ ⟨1, 2⟩
  answers := List.replicate 300 (.accepted 1000)

/-- A program that writes `DATA` and the start of an escape sequence before the event. -/
def opensEscape : SharedRun EmittedEvent where
  turns := [([PyStr.ofString "DATA", [27, 91, 51]], closeEmitted)]
  closing := [PyStr.ofString "done"]

/-- The event behind the open line and the open escape sequence is found. -/
theorem opensEscape_found :
    extractFramedEvents (normalizedConsole (consoleText smokeTracers.digest opensEscape)) =
        .ok (opensEscape.frames.map fun emitted ↦
          eventValue smokeTracers.digest emitted.event) ∧
      ∀ emitted ∈ opensEscape.frames,
        (10 :: traceStdoutPrefix ++
          eventText smokeTracers.digest emitted.event ++ [10]).length < 32768 := by
  refine extractFramedEvents_console smokeTracers.digest opensEscape ?_ ?_ ?_
  · decide +kernel
  · intro emitted hemitted
    rw [List.mem_singleton.mp hemitted]
    exact ⟨fun answer hanswer ↦ by rw [List.eq_of_mem_replicate hanswer]; rfl, by decide +kernel⟩
  · unfold PrefixFree
    decide +kernel

end SyzAbi.Agent.Arceos

import SyzAbi.Library.JsonRender
import SyzAbi.Library.Utf8Strict
import SyzAbi.Tools.GuestNames

/-!
# The events file

Events are written to a file as lines of JSON (`persisted_trace_events` in
`orchestrator/vm_runner.py`, `materialize_batch_case_outputs` in `tools/run_asterinas_shared.py`)
and read back by `parse_events`. The writers leave every character beyond ASCII as it is and end a
line with a line feed; the reader splits the text at every line boundary of Unicode. The file
round-trips exactly when no string of an event has one of the three boundaries that JSON does not
escape, and when all strings can be written at all (`roundTrip_iff`).
-/

set_option autoImplicit false
set_option relaxedAutoImplicit false

namespace SyzAbi.Orchestrator

open Library Library.Json Library.Fallible

/-! ### Text files -/

/-- `write_text(encoding="utf-8")`. -/
def writeTextFile (text : PyStr) : Except PyError (List ℕ) :=
  match Utf8.encodeStrict text with
  | some bytes => .ok bytes
  | none => .error ⟨"UnicodeEncodeError", "surrogates not allowed"⟩

/-- `read_text(encoding="utf-8")`. -/
def readTextFile (bytes : List ℕ) : Except PyError PyStr :=
  match Utf8.decodeStrict bytes with
  | some text => .ok (Tools.GuestNames.universalNewlines text)
  | none => .error ⟨"UnicodeDecodeError", "invalid bytes"⟩

theorem exists_writeTextFile_iff {text : PyStr} :
    (∃ bytes, writeTextFile text = .ok bytes) ↔ ∀ c ∈ text, c.isValidChar := by
  rw [writeTextFile, Utf8.encodeStrict]
  split_ifs with hvalid
  · exact iff_of_true ⟨_, rfl⟩ hvalid
  · exact iff_of_false (fun ⟨_, h⟩ ↦ by cases h) hvalid

/-! ### Events -/

/-- One line for each event. -/
def eventsText (events : List Value) : PyStr := events.flatMap fun event ↦ render event ++ [10]

/-- The events file as the writers leave it. -/
def writeEventsFile (events : List Value) : Except PyError (List ℕ) :=
  writeTextFile (eventsText events)

/-- `parse_events` on the bytes of the file. -/
def parseEventsFile (bytes : List ℕ) : Except PyError (List Value) := do
  parseEvents (← readTextFile bytes)

/-- An event: an object that a JSON text can stand for. -/
structure IsEvent (event : Value) : Prop where
  isValue : IsValue event
  isObject : ∃ members, event = .obj members

theorem IsEvent.exists_braces {event : Value} (hevent : IsEvent event) :
    ∃ inner, render event = 123 :: (inner ++ [125]) := by
  obtain ⟨members, rfl⟩ := hevent.isObject
  exact (denotes_render hevent.isValue).exists_braces

theorem IsEvent.strip_eq {event : Value} (hevent : IsEvent event) :
    strip (render event) = render event := by
  obtain ⟨inner, hinner⟩ := hevent.exists_braces
  rw [hinner, ← List.cons_append]
  exact Agent.strip_braces inner

/-! ### Lines -/

/-- A text up to its first line break is a line. -/
theorem splitLinesFrom_break {line front : PyStr} (hfront : ∀ c ∈ front, isLineBreak c = false)
    {c : ℕ} (hc : isLineBreak c = true) (hreturn : c ≠ 13) (rest : PyStr) :
    splitLinesFrom line (front ++ c :: rest) = (line ++ front) :: splitLinesFrom [] rest := by
  induction front generalizing line with
  | nil =>
    rw [List.nil_append, List.append_nil, splitLinesFrom, if_pos hc]
    exact fun _ heq ↦ absurd heq hreturn
  | cons d front ih =>
    have hd := hfront d List.mem_cons_self
    have hne : d ≠ 13 := by
      rintro rfl
      exact absurd hd (by decide)
    rw [List.cons_append, splitLinesFrom, hd, if_neg Bool.false_ne_true,
      ih fun e he ↦ hfront e (List.mem_cons_of_mem d he), List.append_assoc]
    · rfl
    · exact fun _ heq ↦ absurd heq hne

/-- The first line of a text is loaded before the others. -/
theorem parseEvents_line {line rest : PyStr} (hline : ∀ d ∈ line, isLineBreak d = false) {c : ℕ}
    (hc : isLineBreak c = true) (hreturn : c ≠ 13) (hstrip : strip line ≠ []) {event : Value}
    {events : List Value} : parseEvents (line ++ c :: rest) = .ok (event :: events) ↔
      jsonLoads (strip line) = .ok event ∧ parseEvents rest = .ok events := by
  have hlines : splitLines (line ++ c :: rest) = line :: splitLines rest := by
    rw [splitLines, splitLinesFrom_break hline hc hreturn]
    rfl
  have hkept : (fun line : PyStr ↦ !line.isEmpty) (strip line) = true := by
    rw [Bool.not_eq_true', List.isEmpty_eq_false_iff]
    exact hstrip
  rw [parseEvents, parseEvents, hlines, List.map_cons,
    List.filter_cons_of_pos (p := fun line : PyStr ↦ !line.isEmpty) hkept, mapM_eq_ok_iff,
    mapM_eq_ok_iff, List.forall₂_cons]

/-- What is left of a text that begins with a brace is a beginning of it. -/
theorem exists_strip_brace (rest : PyStr) :
    ∃ tail, 123 :: rest = strip (123 :: rest) ++ tail ∧ strip (123 :: rest) ≠ [] := by
  have hbrace : isStripped 123 = false := by decide
  obtain ⟨before, tail, htext, hbefore, htail⟩ := Agent.exists_strip (123 :: rest)
  cases before with
  | cons c before =>
    have hc := hbefore c List.mem_cons_self
    rw [← (List.cons.inj htext).1, hbrace] at hc
    cases hc
  | nil =>
    refine ⟨tail, htext, fun hempty ↦ ?_⟩
    rw [hempty, List.nil_append, List.nil_append] at htext
    have hc := htail 123 (htext ▸ List.mem_cons_self)
    rw [hbrace] at hc
    cases hc

/-- The line breaks that JSON does not escape. -/
def isRawBreak (c : ℕ) : Bool := c ∈ [0x85, 0x2028, 0x2029]

theorem isLineBreak_iff_isRawBreak {c : ℕ} (hc : 32 ≤ c) : isLineBreak c = isRawBreak c := by
  rw [Bool.eq_iff_iff]
  simp only [isLineBreak, isRawBreak, List.mem_cons, List.not_mem_nil, or_false, decide_eq_true_eq]
  omega

/-- An event with a raw line break is not read back, whatever follows it. -/
theorem parseEvents_ne_of_break {event : Value} (hevent : IsEvent event) {c : ℕ}
    (hc : c ∈ render event) (hbreak : isLineBreak c = true) (rest : PyStr) (events : List Value) :
    parseEvents (render event ++ rest) ≠ .ok (event :: events) := by
  have hlow := le_of_mem_render hevent.isValue
  -- The line before the first break.
  obtain ⟨front, d, back, htext, hfront, hd⟩ : ∃ front d back, render event = front ++ d :: back ∧
      (∀ e ∈ front, isLineBreak e = false) ∧ isLineBreak d = true := by
    have hne : (render event).dropWhile (fun e ↦ !isLineBreak e) ≠ [] := by
      rw [ne_eq, List.dropWhile_eq_nil_iff]
      intro hall
      have hother := hall c hc
      rw [hbreak] at hother
      cases hother
    obtain ⟨d, back, hback⟩ := List.exists_cons_of_ne_nil hne
    refine ⟨(render event).takeWhile (fun e ↦ !isLineBreak e), d, back, ?_, fun e he ↦ ?_, ?_⟩
    · rw [← hback, List.takeWhile_append_dropWhile]
    · have hline := List.mem_takeWhile_imp he
      rwa [Bool.not_eq_true'] at hline
    · have hhead := List.head_dropWhile_not (fun e ↦ !isLineBreak e) hne
      simp only [hback, List.head_cons, Bool.not_eq_false'] at hhead
      exact hhead
  have hdlow : 32 ≤ d := hlow d (htext ▸ List.mem_append_right front List.mem_cons_self)
  obtain ⟨inner, hinner⟩ := hevent.exists_braces
  obtain ⟨front, rfl⟩ : ∃ tail, front = 123 :: tail := by
    cases front with
    | nil =>
      rw [hinner] at htext
      rw [← (List.cons.inj htext).1] at hd
      cases hd
    | cons first tail =>
      rw [hinner] at htext
      rw [← (List.cons.inj htext).1]
      exact ⟨tail, rfl⟩
  obtain ⟨tail, htail, hstrip⟩ := exists_strip_brace front
  rw [htext, List.append_assoc, List.cons_append]
  intro hparse
  obtain ⟨hloads, -⟩ := (parseEvents_line hfront hd (by omega) hstrip).mp hparse
  -- It is a beginning of the text, and more than spaces is missing.
  have hpart : parse (strip (123 :: front)) = some event := by
    rw [jsonLoads] at hloads
    split at hloads
    · next value hvalue => rw [hvalue, Except.ok.inj hloads]
    · cases hloads
  have hwhole : parse (strip (123 :: front) ++ (tail ++ d :: back)) = some event := by
    rw [← List.append_assoc, ← htail, ← htext, parse_render hevent.isValue]
  obtain ⟨members, hmembers⟩ := hevent.isObject
  rw [hmembers] at hwhole
  have hspace := spaces_of_parse_append hwhole hpart d
    (List.mem_append_right tail List.mem_cons_self)
  simp only [isSpace, Bool.or_eq_true, decide_eq_true_eq] at hspace
  rw [isLineBreak_iff_isRawBreak hdlow] at hd
  simp only [isRawBreak, List.mem_cons, List.not_mem_nil, or_false, decide_eq_true_eq] at hd
  omega

/-! ### The round trip -/

/-- The strings of an event can be written, and they have no raw line break. -/
def WrittenOnOneLine (event : Value) : Prop :=
  ∀ c, event.HasChar c → c.isValidChar ∧ isRawBreak c = false

theorem parseEvents_eventsText_iff {events : List Value}
    (hevents : ∀ event ∈ events, IsEvent event) :
    parseEvents (eventsText events) = .ok events ↔
      ∀ event ∈ events, ∀ c, event.HasChar c → isRawBreak c = false := by
  induction events with
  | nil => exact iff_of_true rfl fun _ hevent ↦ absurd hevent List.not_mem_nil
  | cons event events ih =>
    obtain ⟨hevent, hmore⟩ := List.forall_mem_cons.mp hevents
    have hlow := le_of_mem_render hevent.isValue
    have hwide : ∀ c, isRawBreak c = true → 128 ≤ c := by
      intro c hc
      simp only [isRawBreak, List.mem_cons, List.not_mem_nil, or_false, decide_eq_true_eq] at hc
      omega
    have htext : eventsText (event :: events) = render event ++ 10 :: eventsText events := by
      rw [eventsText, List.flatMap_cons, List.append_assoc, List.singleton_append]
      rfl
    rw [htext, List.forall_mem_cons]
    by_cases hline : ∀ c ∈ render event, isLineBreak c = false
    · have hloads : jsonLoads (strip (render event)) = .ok event := by
        rw [hevent.strip_eq, jsonLoads, parse_render hevent.isValue]
      have hne : strip (render event) ≠ [] := by
        obtain ⟨inner, hinner⟩ := hevent.exists_braces
        rw [hevent.strip_eq, hinner]
        exact List.cons_ne_nil _ _
      rw [parseEvents_line hline (by decide) (by decide) hne, and_iff_right hloads, ih hmore,
        and_iff_right]
      intro c hc
      by_contra hraw
      rw [Bool.not_eq_false] at hraw
      have hmem := (mem_render_iff (hwide c hraw) hevent.isValue).mpr hc
      have hbreak := hline c hmem
      rw [isLineBreak_iff_isRawBreak (hlow c hmem), hraw] at hbreak
      cases hbreak
    · simp only [not_forall] at hline
      obtain ⟨c, hc, hbreak⟩ := hline
      rw [Bool.not_eq_false] at hbreak
      refine iff_of_false (parseEvents_ne_of_break hevent hc hbreak _ _) fun h ↦ ?_
      rw [isLineBreak_iff_isRawBreak (hlow c hc)] at hbreak
      rw [h.1 c ((mem_render_iff (hwide c hbreak) hevent.isValue).mp hc)] at hbreak
      cases hbreak

theorem mem_eventsText_iff {events : List Value} {c : ℕ} :
    c ∈ eventsText events ↔ ∃ event ∈ events, c ∈ render event ∨ c = 10 := by
  simp [eventsText]

/-- The file can be written exactly when every character of the events can be encoded. -/
theorem forall_mem_eventsText_iff {events : List Value}
    (hevents : ∀ event ∈ events, IsEvent event) :
    (∀ c ∈ eventsText events, c.isValidChar) ↔
      ∀ event ∈ events, ∀ c, event.HasChar c → c.isValidChar := by
  have hwide : ∀ c, 128 ≤ c → (c ∈ eventsText events ↔ ∃ event ∈ events, event.HasChar c) := by
    intro c hwide
    rw [mem_eventsText_iff]
    refine exists_congr fun event ↦ and_congr_right fun hevent ↦ ?_
    rw [mem_render_iff hwide (hevents event hevent).isValue]
    exact or_iff_left (by omega)
  rw [Utf8.forall_isValidChar_iff hwide]
  exact ⟨fun h event hevent c hc ↦ h c ⟨event, hevent, hc⟩,
    fun h c ⟨event, hevent, hc⟩ ↦ h event hevent c hc⟩

/-- The events file is read back exactly when every event can be written on one line. -/
theorem roundTrip_iff {events : List Value} (hevents : ∀ event ∈ events, IsEvent event) :
    (writeEventsFile events >>= parseEventsFile) = .ok events ↔
      ∀ event ∈ events, WrittenOnOneLine event := by
  have hcondition : (∀ event ∈ events, WrittenOnOneLine event) ↔
      (∀ c ∈ eventsText events, c.isValidChar) ∧
        parseEvents (eventsText events) = .ok events := by
    rw [forall_mem_eventsText_iff hevents, parseEvents_eventsText_iff hevents]
    simp only [WrittenOnOneLine, imp_and, forall_and]
  rw [hcondition, writeEventsFile, writeTextFile, Utf8.encodeStrict]
  split_ifs with htext
  · have hreturn : 13 ∉ eventsText events := by
      intro hmem
      obtain ⟨event, hevent, hc | hc⟩ := mem_eventsText_iff.mp hmem
      · exact absurd (le_of_mem_render (hevents event hevent).isValue 13 hc) (by decide)
      · cases hc
    have hread : readTextFile (Utf8.encode (eventsText events)) = .ok (eventsText events) := by
      rw [readTextFile, Utf8.decodeStrict_encode htext]
      exact congrArg Except.ok (Tools.GuestNames.universalNewlines_eq_self hreturn)
    rw [and_iff_right htext]
    show (readTextFile _ >>= parseEvents) = _ ↔ _
    rw [hread]
    exact Iff.rfl
  · refine iff_of_false (fun h ↦ ?_) fun h ↦ htext h.1
    cases h

/-- An event with the line separator U+2028 in a string. -/
def separatorEvent : Value := .obj [([97], .str [0x2028])]

theorem isEvent_separatorEvent : IsEvent separatorEvent where
  isValue := .obj (List.pairwise_singleton _ _) fun _ hmember ↦
    List.mem_singleton.mp hmember ▸ .str _
  isObject := ⟨_, rfl⟩

/-- The event that is written on two lines. -/
theorem roundTrip_iff_separatorEvent :
    (writeEventsFile [separatorEvent] >>= parseEventsFile) = .ok [separatorEvent] ↔
      ∀ event ∈ [separatorEvent], WrittenOnOneLine event :=
  roundTrip_iff (List.forall_mem_singleton.mpr isEvent_separatorEvent)

/-- Its file is not read back. -/
theorem separatorEvent_not_roundTrip :
    ¬∀ events : List Value, (∀ event ∈ events, IsEvent event) →
      (writeEventsFile events >>= parseEventsFile) = .ok events := by
  intro h
  have hread := h [separatorEvent] (List.forall_mem_singleton.mpr isEvent_separatorEvent)
  have hfails : (writeEventsFile [separatorEvent] >>= parseEventsFile).isOk = false := by
    decide +kernel
  rw [hread] at hfails
  cases hfails

end SyzAbi.Orchestrator

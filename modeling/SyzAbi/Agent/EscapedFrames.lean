import SyzAbi.Agent.SharedConsole
import SyzAbi.Library.JsonCuts

/-!
# Frames behind escape sequences

The ArceOS adapter removes the escape sequences of a console before it looks for frames, the
StarryOS adapter does not. `extract_framed_events` itself only looks for the `m` that ends a colour
sequence, wherever it stands in the rest of the line (`dropWhile_escapes`). So the frame behind a
sequence is found exactly when the last sequence before it is a colour: otherwise the search ends in
the event, inside a string, and what is left of the line either has no payload or one that does not
load (`framesSurvive_iff`).
-/

set_option autoImplicit false
set_option relaxedAutoImplicit false

namespace SyzAbi.Agent

open Orchestrator Library.Json
open Arceos (behindEscape isParameter isIntermediate isFinal)

/-! ### Escape sequences -/

/-- A text that `ANSI_ESCAPE_RE` matches as a whole. -/
structure Escape where
  text : Text
  matched : behindEscape text = some []

/-- The sequence ends with an `m`. -/
def Escape.IsColour (escape : Escape) : Prop := escape.text.getLast? = some 109

/-- Only the last character of a sequence can be an `m`. -/
theorem Escape.exists_final (escape : Escape) : ∃ front final,
    escape.text = 27 :: 91 :: (front ++ [final]) ∧ ∀ c ∈ front, c ≠ 109 := by
  obtain ⟨text, hmatched⟩ := escape
  match text with
  | 27 :: 91 :: rest =>
    rw [behindEscape] at hmatched
    split at hmatched
    · cases hmatched
    · next final tail htail =>
      obtain ⟨-, hsome⟩ := Option.ite_none_right_eq_some.mp hmatched
      obtain rfl := Option.some.inj hsome
      have hsplit : rest = (rest.takeWhile isParameter ++
          (rest.dropWhile isParameter).takeWhile isIntermediate) ++ [final] := by
        rw [← htail, List.append_assoc, List.takeWhile_append_dropWhile,
          List.takeWhile_append_dropWhile]
      refine ⟨_, final, congrArg (fun rest ↦ 27 :: 91 :: rest) hsplit, ?_⟩
      rintro c hc rfl
      rcases List.mem_append.mp hc with hc | hc
      · exact absurd (List.mem_takeWhile_imp hc) (by decide)
      · exact absurd (List.mem_takeWhile_imp hc) (by decide)

/-- The characters of some sequences. -/
def escapesText (escapes : List Escape) : Text := escapes.flatMap Escape.text

/-- The last sequence, if there is one, is a colour. -/
def EndsWithColour (escapes : List Escape) : Prop := ∀ escape ∈ escapes.getLast?, escape.IsColour

instance (escape : Escape) : Decidable escape.IsColour :=
  inferInstanceAs (Decidable (escape.text.getLast? = some 109))

theorem endsWithColour_nil : EndsWithColour [] := fun _ hlast ↦ by cases hlast

/-- The search for an `m` ends with the first colour, or goes on behind the sequences. -/
theorem dropWhile_escapes (escapes : List Escape) (frame : Text) :
    (escapesText escapes ++ frame).dropWhile (· ≠ 109) =
      match escapes.dropWhile fun escape ↦ ¬escape.IsColour with
      | [] => frame.dropWhile (· ≠ 109)
      | _ :: rest => 109 :: (escapesText rest ++ frame) := by
  induction escapes with
  | nil => rfl
  | cons escape escapes ih =>
    obtain ⟨front, final, htext, hfront⟩ := escape.exists_final
    have hsearch : ∀ rest : Text, (escape.text ++ rest).dropWhile (· ≠ 109) =
        (final :: rest).dropWhile (· ≠ 109) := by
      intro rest
      have hpass : ∀ c ∈ 27 :: 91 :: front, decide (c ≠ 109) = true := by
        intro c hc
        rcases List.mem_cons.mp hc with rfl | hc
        · rfl
        · rcases List.mem_cons.mp hc with rfl | hc
          · rfl
          · exact decide_eq_true (hfront c hc)
      rw [htext, ← List.cons_append, ← List.cons_append, List.append_assoc,
        List.dropWhile_append_of_pos hpass]
      rfl
    have hlast : escape.IsColour ↔ final = 109 := by
      rw [Escape.IsColour, htext, ← List.cons_append, ← List.cons_append, List.getLast?_concat,
        Option.some_inj]
    have happend : escapesText (escape :: escapes) ++ frame =
        escape.text ++ (escapesText escapes ++ frame) := by
      rw [escapesText, List.flatMap_cons, List.append_assoc, escapesText]
    rw [happend, hsearch]
    by_cases hcolour : escape.IsColour
    · rw [List.dropWhile_cons_of_neg (by simpa using hlast.mp hcolour),
        List.dropWhile_cons_of_neg (by simpa using hcolour), hlast.mp hcolour]
    · rw [List.dropWhile_cons_of_pos (by simpa using mt hlast.mpr hcolour),
        List.dropWhile_cons_of_pos (by simpa using hcolour), ih]

/-- The search for an `m` passes over what precedes it. -/
theorem exists_front_of_dropWhile {text rest : Text} {c : ℕ}
    (hfound : text.dropWhile (· ≠ 109) = c :: rest) : ∃ front, text = front ++ 109 :: rest := by
  have hsplit := List.takeWhile_append_dropWhile (p := (· ≠ 109)) (l := text)
  have hc : c = 109 := by
    have hhead := List.head?_dropWhile_not (· ≠ 109) text
    rw [hfound] at hhead
    simpa using hhead
  rw [hfound, hc] at hsplit
  exact ⟨_, hsplit.symm⟩

theorem exists_escapesText_cons (escape : Escape) (escapes : List Escape) (frame : Text) :
    ∃ rest, escapesText (escape :: escapes) ++ frame = 27 :: 91 :: rest := by
  obtain ⟨front, final, htext, -⟩ := escape.exists_final
  refine ⟨front ++ [final] ++ (escapesText escapes ++ frame), ?_⟩
  rw [escapesText, List.flatMap_cons, htext, List.append_assoc]
  rfl

/-- One turn of the loop. -/
theorem stripColours_succ (fuel : ℕ) (rest : Text) :
    stripColours (fuel + 1) (27 :: 91 :: rest) =
      match (27 :: 91 :: rest).dropWhile (· ≠ 109) with
      | [] => 27 :: 91 :: rest
      | _ :: rest => stripColours fuel rest := rfl

/-- What the loop leaves of a line: all of it, or what follows an `m`. -/
theorem stripColours_eq_or (fuel : ℕ) (line : Text) :
    stripColours fuel line = line ∨ ∃ front, line = front ++ 109 :: stripColours fuel line := by
  induction fuel generalizing line with
  | zero => exact .inl rfl
  | succ fuel ih =>
    by_cases hescape : ∃ rest, line = 27 :: 91 :: rest
    · obtain ⟨rest, rfl⟩ := hescape
      rw [stripColours_succ]
      split
      · exact .inl rfl
      · next c behind hfound =>
        obtain ⟨front, hline⟩ := exists_front_of_dropWhile hfound
        rcases ih behind with hall | ⟨inner, hbehind⟩
        · exact .inr ⟨front, by rw [hall]; exact hline⟩
        · refine .inr ⟨front ++ 109 :: inner, ?_⟩
          rw [List.append_assoc, List.cons_append, ← hbehind]
          exact hline
    · exact .inl (stripColours_of_not_escape (fun rest heq ↦ hescape ⟨rest, heq⟩) _)

/-- Behind a colour there is a colour at the end of the sequences if there was one. -/
theorem endsWithColour_iff_of_dropWhile {escapes rest : List Escape} {escape : Escape}
    (hfound : escapes.dropWhile (fun escape ↦ ¬escape.IsColour) = escape :: rest) :
    EndsWithColour escapes ↔ EndsWithColour rest := by
  have hcolour : escape.IsColour := by
    have hhead := List.head?_dropWhile_not (fun escape : Escape ↦ ¬escape.IsColour) escapes
    rw [hfound] at hhead
    simpa using hhead
  rw [← List.takeWhile_append_dropWhile (p := fun escape : Escape ↦ ¬escape.IsColour)
    (l := escapes), hfound]
  cases hrest : rest.getLast? with
  | none => simp [EndsWithColour, List.getLast?_cons, hrest, hcolour]
  | some last => simp [EndsWithColour, List.getLast?_cons, hrest]

/-- Without a colour there is none at the end. -/
theorem not_endsWithColour_of_dropWhile {escape : Escape} {escapes : List Escape}
    (hfound : (escape :: escapes).dropWhile (fun escape ↦ ¬escape.IsColour) = []) :
    ¬EndsWithColour (escape :: escapes) := by
  intro hcolour
  have hlast := List.getLast?_eq_some_getLast (List.cons_ne_nil escape escapes)
  have hnone := List.dropWhile_eq_nil_iff.mp hfound _ (List.getLast_mem (List.cons_ne_nil _ _))
  exact of_decide_eq_true hnone (hcolour _ hlast)

/-- The sequences before a frame are removed exactly when the last one is a colour. Otherwise the
line keeps a sequence, or the frame is cut off behind an `m`. -/
theorem stripColours_escapes {frame : Text} (hframe : ∀ rest, frame ≠ 27 :: 91 :: rest)
    (escapes : List Escape) {fuel : ℕ} (hfuel : escapes.length ≤ fuel) :
    EndsWithColour escapes ∧ stripColours fuel (escapesText escapes ++ frame) = frame ∨
      ¬EndsWithColour escapes ∧
        ((∃ rest, stripColours fuel (escapesText escapes ++ frame) = 27 :: 91 :: rest) ∨
          ∃ front, frame = front ++ 109 :: stripColours fuel (escapesText escapes ++ frame)) := by
  induction fuel generalizing escapes with
  | zero =>
    rw [List.eq_nil_of_length_eq_zero (Nat.le_zero.mp hfuel)]
    exact .inl ⟨endsWithColour_nil, stripColours_of_not_escape hframe 0⟩
  | succ fuel ih =>
    cases escapes with
    | nil => exact .inl ⟨endsWithColour_nil, stripColours_of_not_escape hframe _⟩
    | cons escape escapes =>
      obtain ⟨rest, hrest⟩ := exists_escapesText_cons escape escapes frame
      have hsearch := dropWhile_escapes (escape :: escapes) frame
      cases hfound : (escape :: escapes).dropWhile fun escape ↦ ¬escape.IsColour with
      | nil =>
        refine .inr ⟨not_endsWithColour_of_dropWhile hfound, ?_⟩
        rw [hfound] at hsearch
        rw [hrest] at hsearch ⊢
        rw [stripColours_succ, hsearch]
        dsimp only
        cases hbehind : frame.dropWhile (· ≠ 109) with
        | nil => exact .inl ⟨rest, rfl⟩
        | cons c behind =>
          obtain ⟨front, hfront⟩ := exists_front_of_dropWhile hbehind
          refine .inr ?_
          dsimp only
          rcases stripColours_eq_or fuel behind with hall | ⟨inner, hinner⟩
          · exact ⟨front, by rw [hall]; exact hfront⟩
          · refine ⟨front ++ 109 :: inner, ?_⟩
            rw [List.append_assoc, List.cons_append, ← hinner]
            exact hfront
      | cons colour others =>
        have hlength : others.length ≤ fuel := by
          have hle : ((escape :: escapes).dropWhile fun escape ↦ ¬escape.IsColour).length ≤
              (escape :: escapes).length := (List.dropWhile_suffix _).length_le
          rw [hfound] at hle
          simp only [List.length_cons] at hle hfuel
          omega
        have hstep : stripColours (fuel + 1) (escapesText (escape :: escapes) ++ frame) =
            stripColours fuel (escapesText others ++ frame) := by
          rw [hfound] at hsearch
          rw [hrest] at hsearch ⊢
          rw [stripColours_succ, hsearch]
        rw [endsWithColour_iff_of_dropWhile hfound, hstep]
        exact ih others hlength

/-! ### Events -/

/-- What follows the prefix on the line of an event. -/
structure FramedEvent where
  body : Text
  event : Value
  parse_eq : parse body = some event
  isObject : ∃ members, event = .obj members

/-- The line of an event. -/
def FramedEvent.text (frame : FramedEvent) : Text := traceEventStdoutPrefix ++ frame.body

theorem isStripped_of_isSpace {c : ℕ} (hspace : isSpace c = true) : isStripped c = true := by
  simp only [isSpace, Bool.or_eq_true, decide_eq_true_eq] at hspace
  rcases hspace with ((rfl | rfl) | rfl) | rfl <;> rfl

/-- A stripped event is still the text of the event. -/
theorem FramedEvent.parse_strip (frame : FramedEvent) :
    parse (strip frame.body) = some frame.event ∧ strip frame.body ≠ [] := by
  obtain ⟨body, event, hparse, members, rfl⟩ := frame
  obtain ⟨before, piece, behind, hbefore, hbehind, rfl, hpiece⟩ := parse_eq_some_iff.mp hparse
  obtain ⟨inner, rfl⟩ := hpiece.exists_braces
  have hstrip := strip_padded (fun c hc ↦ isStripped_of_isSpace (hbefore c hc))
    (fun c hc ↦ isStripped_of_isSpace (hbehind c hc)) inner
  rw [List.cons_append] at hstrip
  refine ⟨?_, ?_⟩
  · show parse (strip (before ++ (123 :: (inner ++ [125]) ++ behind))) = _
    rw [hstrip]
    exact parse_eq_some_iff.mpr ⟨[], _, [], spaces_nil, spaces_nil, by simp, hpiece⟩
  · show strip (before ++ (123 :: (inner ++ [125]) ++ behind)) ≠ []
    rw [hstrip]
    exact List.cons_ne_nil _ _

/-- What is stripped neither closes a string nor stands behind a backslash. -/
theorem not_escape_of_isStripped {c : ℕ} (hc : isStripped c = true) :
    c ≠ 34 ∧ c ≠ 92 ∧ isEscape c = false := by
  have hletters : ∀ letter ∈ [34, 92, 47, 98, 102, 110, 114, 116, 117], c ≠ letter := by
    rintro letter hletter rfl
    have hnone : ∀ letter ∈ [34, 92, 47, 98, 102, 110, 114, 116, 117],
        isStripped letter = false := by decide
    rw [hnone c hletter] at hc
    cases hc
  simp only [List.forall_mem_cons] at hletters
  refine ⟨hletters.1, hletters.2.1, ?_⟩
  simp [isEscape, simpleEscape, hletters]

/-- What is stripped does not change whether a string is open. -/
theorem run_inside_strip {text : Text} (hinside : Place.inside.run text = some .outside) :
    Place.inside.run (strip text) = some .outside := by
  obtain ⟨before, behind, htext, hbefore, hbehind⟩ := exists_strip text
  have hstring : ∀ c, isStripped c = true → c ≠ 34 ∧ c ≠ 92 := fun c hc ↦
    ⟨(not_escape_of_isStripped hc).1, (not_escape_of_isStripped hc).2.1⟩
  rw [htext, Place.run_append, Place.run_inside fun c hc ↦ hstring c (hbefore c hc),
    Option.bind_some, Place.run_append, Option.bind_eq_some_iff] at hinside
  obtain ⟨place, hplace, hend⟩ := hinside
  rw [hplace]
  cases place with
  | outside => rfl
  | inside =>
    rw [Place.run_inside fun c hc ↦ hstring c (hbehind c hc)] at hend
    cases hend
  | escaped =>
    cases behind with
    | nil => cases hend
    | cons c behind =>
      have hescape := (not_escape_of_isStripped (hbehind c List.mem_cons_self)).2.2
      rw [Place.run, Place.step, hescape] at hend
      cases hend

/-- What follows an `m` in an event does not load. -/
theorem FramedEvent.parse_eq_none (frame : FramedEvent) {front behind more : Text}
    (htext : frame.text = front ++ 109 :: behind)
    (hframed : behind = traceEventStdoutPrefix ++ more) : parse (strip more) = none := by
  have hbody : ∃ inner, frame.body = inner ++ 109 :: behind := by
    rcases List.append_eq_append_iff.mp htext with ⟨inner, -, hinner⟩ | ⟨inner, hstart, hinner⟩
    · exact ⟨inner, hinner⟩
    · cases inner with
      | nil => exact ⟨[], hinner.symm⟩
      | cons c inner =>
        have hno : 109 ∉ traceEventStdoutPrefix := by decide
        rw [List.cons_append] at hinner
        rw [hstart, ← (List.cons.inj hinner).1] at hno
        exact absurd (List.mem_append_right _ List.mem_cons_self) hno
  obtain ⟨inner, hinner⟩ := hbody
  have hrun := run_outside_of_parse frame.parse_eq
  rw [hinner] at hrun
  have hinside := run_inside_of_mem (by decide) (by decide) (by decide) (by decide) hrun
  have hstart : Place.inside.run traceEventStdoutPrefix = some .inside :=
    Place.run_inside (by decide)
  rw [hframed, Place.run_append, hstart, Option.bind_some] at hinside
  exact parse_eq_none_of_inside (run_inside_strip hinside)

/-! ### Lines -/

theorem FramedEvent.text_ne_escape (frame : FramedEvent) (rest : Text) :
    frame.text ≠ 27 :: 91 :: rest := by
  intro heq
  have hfirst : traceEventStdoutPrefix = 95 :: traceEventStdoutPrefix.tail := by decide
  rw [text, hfirst, List.cons_append] at heq
  exact absurd (List.cons.inj heq).1 (by decide)

theorem length_le_escapesText (escapes : List Escape) :
    escapes.length ≤ (escapesText escapes).length := by
  induction escapes with
  | nil => exact Nat.zero_le _
  | cons escape escapes ih =>
    obtain ⟨front, final, htext, -⟩ := escape.exists_final
    rw [escapesText, List.flatMap_cons, htext, ← escapesText]
    simp only [List.length_cons, List.length_append]
    omega

/-- The line of an event has the event as its payload when the last sequence before it is a colour,
and none or one that does not load when it is not. -/
theorem framedPayload_escapes (escapes : List Escape) (frame : FramedEvent) :
    EndsWithColour escapes ∧
        framedPayload (escapesText escapes ++ frame.text) = some (strip frame.body) ∨
      ¬EndsWithColour escapes ∧
        ∀ payload ∈ framedPayload (escapesText escapes ++ frame.text), parse payload = none := by
  have hfuel : escapes.length ≤ (escapesText escapes ++ frame.text).length := by
    rw [List.length_append]
    exact (length_le_escapesText escapes).trans (Nat.le_add_right _ _)
  rcases stripColours_escapes frame.text_ne_escape escapes hfuel with
    ⟨hcolour, hleft⟩ | ⟨hcolour, ⟨rest, hleft⟩ | ⟨front, hfront⟩⟩
  · refine .inl ⟨hcolour, ?_⟩
    have hstarts : traceEventStdoutPrefix.isPrefixOf frame.text = true :=
      List.isPrefixOf_iff_prefix.mpr (List.prefix_append _ _)
    rw [framedPayload, hleft, hstarts, if_pos rfl, FramedEvent.text, List.drop_left]
    exact if_neg (by simpa using frame.parse_strip.2)
  · refine .inr ⟨hcolour, fun payload hpayload ↦ ?_⟩
    have hstarts : traceEventStdoutPrefix.isPrefixOf (27 :: 91 :: rest) = false := by
      rw [Bool.eq_false_iff, ne_eq, List.isPrefixOf_iff_prefix]
      rintro ⟨more, hmore⟩
      have hfirst : traceEventStdoutPrefix = 95 :: traceEventStdoutPrefix.tail := by decide
      rw [hfirst, List.cons_append] at hmore
      exact absurd (List.cons.inj hmore).1 (by decide)
    rw [framedPayload, hleft, hstarts] at hpayload
    cases hpayload
  · refine .inr ⟨hcolour, fun payload hpayload ↦ ?_⟩
    rw [framedPayload] at hpayload
    dsimp only at hpayload
    split_ifs at hpayload with hstarts hempty
    · cases hpayload
    · obtain ⟨more, hmore⟩ := List.isPrefixOf_iff_prefix.mp hstarts
      rw [← hmore, List.drop_left] at hpayload
      rw [← Option.some.inj hpayload]
      exact frame.parse_eq_none hfront hmore.symm
    · cases hpayload

/-- A line of a console: one without the prefix, or that of an event behind escape sequences. -/
inductive ConsoleLine
  | other (text : Text) (hfree : PrefixFree text)
  | framed (escapes : List Escape) (frame : FramedEvent)

def ConsoleLine.text : ConsoleLine → Text
  | .other text _ => text
  | .framed escapes frame => escapesText escapes ++ frame.text

/-- The line without the sequences before its event. -/
def ConsoleLine.unescaped : ConsoleLine → ConsoleLine
  | .other text hfree => .other text hfree
  | .framed _ frame => .framed [] frame

def ConsoleLine.event : ConsoleLine → Option Value
  | .other _ _ => none
  | .framed _ frame => some frame.event

/-- The last sequence before an event is a colour. -/
def ConsoleLine.EndsWithColour : ConsoleLine → Prop
  | .other _ _ => True
  | .framed escapes _ => Agent.EndsWithColour escapes

theorem ConsoleLine.endsWithColour_unescaped (line : ConsoleLine) :
    line.unescaped.EndsWithColour := by
  cases line with
  | other => trivial
  | framed => exact endsWithColour_nil

theorem ConsoleLine.event_unescaped (line : ConsoleLine) : line.unescaped.event = line.event := by
  cases line <;> rfl

/-- A line with a payload is the line of an event. -/
theorem ConsoleLine.isSome_event (line : ConsoleLine)
    (hpayload : (framedPayload line.text).isSome = true) : line.event.isSome = true := by
  cases line with
  | other text hfree =>
    rw [ConsoleLine.text, framedPayload_eq_none hfree] at hpayload
    cases hpayload
  | framed => rfl

/-- What a line yields when the last sequence is a colour. -/
theorem ConsoleLine.yields (line : ConsoleLine) (hcolour : line.EndsWithColour) :
    Option.Rel (fun payload event ↦ jsonLoads payload = .ok event) (framedPayload line.text)
      line.event := by
  cases line with
  | other text hfree =>
    rw [ConsoleLine.text, framedPayload_eq_none hfree]
    exact .none
  | framed escapes frame =>
    rcases framedPayload_escapes escapes frame with ⟨-, hpayload⟩ | ⟨hnot, -⟩
    · rw [ConsoleLine.text, hpayload]
      refine .some ?_
      rw [jsonLoads, frame.parse_strip.1]
    · exact absurd hcolour hnot

/-- The lines of a text whose events are all found. -/
theorem extractFramedEvents_of_endsWithColour {lines : List ConsoleLine} {text : Text}
    (htext : splitLines text = lines.map ConsoleLine.text)
    (hcolour : ∀ line ∈ lines, line.EndsWithColour) :
    extractFramedEvents text = .ok (lines.filterMap ConsoleLine.event) := by
  rw [extractFramedEvents, htext, List.filterMap_map, Library.Fallible.mapM_eq_ok_iff]
  clear htext
  induction lines with
  | nil => exact .nil
  | cons line lines ih =>
    have hrest := ih fun other hother ↦ hcolour other (List.mem_cons_of_mem line hother)
    have hyields := line.yields (hcolour line List.mem_cons_self)
    rw [List.filterMap_cons, List.filterMap_cons, Function.comp_apply]
    cases hpayload : framedPayload line.text with
    | none =>
      rw [hpayload] at hyields
      cases hevent : line.event with
      | none => exact hrest
      | some event =>
        rw [hevent] at hyields
        cases hyields
    | some payload =>
      rw [hpayload] at hyields
      cases hevent : line.event with
      | none =>
        rw [hevent] at hyields
        cases hyields
      | some event =>
        rw [hevent] at hyields
        cases hyields with
        | some hloads => exact .cons hloads hrest

/-- If as many elements pass a test as a weaker one, the tests agree. -/
theorem of_countP_eq {α : Type} {p q : α → Bool} {items : List α}
    (himp : ∀ item, p item = true → q item = true) (hcount : items.countP p = items.countP q)
    {item : α} (hitem : item ∈ items) (hq : q item = true) : p item = true := by
  have hsub : (items.filter p).Sublist (items.filter q) := List.monotone_filter_right items himp
  rw [List.countP_eq_length_filter, List.countP_eq_length_filter] at hcount
  have hkept : item ∈ items.filter q := List.mem_filter.mpr ⟨hitem, hq⟩
  rw [← hsub.eq_of_length hcount] at hkept
  exact (List.mem_filter.mp hkept).2

/-- The events of a text are found exactly when the last sequence before each is a colour. -/
theorem extractFramedEvents_eq_iff {lines : List ConsoleLine} {text : Text}
    (htext : splitLines text = lines.map ConsoleLine.text) :
    extractFramedEvents text = .ok (lines.filterMap ConsoleLine.event) ↔
      ∀ line ∈ lines, line.EndsWithColour := by
  refine ⟨fun hevents line hline ↦ ?_, extractFramedEvents_of_endsWithColour htext⟩
  rw [extractFramedEvents, htext, List.filterMap_map] at hevents
  cases line with
  | other => trivial
  | framed escapes frame =>
    have hlength := (Library.Fallible.mapM_eq_ok_iff.mp hevents).length_eq
    rw [List.length_filterMap_eq_countP, List.length_filterMap_eq_countP] at hlength
    have hsome := of_countP_eq (fun line ↦ line.isSome_event) hlength hline rfl
    obtain ⟨payload, hpayload⟩ := Option.isSome_iff_exists.mp hsome
    have hmem : payload ∈ lines.filterMap (framedPayload ∘ ConsoleLine.text) :=
      List.mem_filterMap.mpr ⟨_, hline, hpayload⟩
    obtain ⟨event, -, hloads⟩ := Library.Fallible.exists_result_of_mapM_eq_ok hevents hmem
    rcases framedPayload_escapes escapes frame with ⟨hcolour, -⟩ | ⟨-, hnone⟩
    · exact hcolour
    · rw [jsonLoads, hnone payload hpayload] at hloads
      cases hloads

/-- All events are found, as on the text without the sequences before them. -/
structure FramesSurvive (lines : List ConsoleLine) (text unescaped : Text) : Prop where
  found : extractFramedEvents text = .ok (lines.filterMap ConsoleLine.event)
  same : extractFramedEvents text = extractFramedEvents unescaped

/-- The events of a console are found behind escape sequences exactly when the last sequence before
each is a colour. -/
theorem framesSurvive_iff {lines : List ConsoleLine} {text unescaped : Text}
    (htext : splitLines text = lines.map ConsoleLine.text)
    (hunescaped : splitLines unescaped = lines.map fun line ↦ line.unescaped.text) :
    FramesSurvive lines text unescaped ↔ ∀ line ∈ lines, line.EndsWithColour := by
  have hevents : (lines.map ConsoleLine.unescaped).filterMap ConsoleLine.event =
      lines.filterMap ConsoleLine.event := by
    rw [List.filterMap_map]
    exact List.filterMap_congr fun line _ ↦ line.event_unescaped
  have hfound : extractFramedEvents unescaped = .ok (lines.filterMap ConsoleLine.event) := by
    rw [← hevents]
    refine extractFramedEvents_of_endsWithColour (by rw [hunescaped, List.map_map]; rfl) ?_
    intro line hline
    obtain ⟨line, -, rfl⟩ := List.mem_map.mp hline
    exact line.endsWithColour_unescaped
  rw [← extractFramedEvents_eq_iff htext]
  exact ⟨FramesSurvive.found, fun h ↦ ⟨h, h.trans hfound.symm⟩⟩

/-- The sequence that erases a line. -/
def eraseLine : Escape := ⟨[27, 91, 50, 75], rfl⟩

def emptyFrame : FramedEvent := ⟨[123, 125], .obj [], rfl, [], rfl⟩

/-- The line of an empty event behind a sequence that is no colour. -/
def erasedLine : ConsoleLine := .framed [eraseLine] emptyFrame

theorem framesSurvive_iff_erased :
    FramesSurvive [erasedLine] erasedLine.text emptyFrame.text ↔
      ∀ line ∈ [erasedLine], line.EndsWithColour :=
  framesSurvive_iff (by decide +kernel) (by decide +kernel)

/-- The event behind the sequence is lost. -/
theorem not_framesSurvive_erased :
    ¬ ∀ (lines : List ConsoleLine) (text unescaped : Text),
      splitLines text = lines.map ConsoleLine.text →
        (splitLines unescaped = lines.map fun line ↦ line.unescaped.text) →
          FramesSurvive lines text unescaped := by
  intro h
  have hsurvive := h [erasedLine] erasedLine.text emptyFrame.text (by decide +kernel)
    (by decide +kernel)
  have hnone : (extractFramedEvents erasedLine.text).toOption.map List.length = some 0 := by
    decide +kernel
  rw [hsurvive.found] at hnone
  cases hnone

end SyzAbi.Agent

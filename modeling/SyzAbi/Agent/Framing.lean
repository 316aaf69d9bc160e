import SyzAbi.Agent.EventDecoding

/-!
# Frames on a shared stream

The tracers write their events to a stream that other text goes to as well, and
`extract_framed_events` finds them by a prefix at the head of a line. The lines of a text with a
frame in it are the lines that the text before the frame ends, the line of the frame, which starts
with whatever the text left open, and the lines behind it (`splitLinesFrom_frame`). A text without
the prefix yields no payload (`framedPayload_eq_none`), and a frame yields its payload if and only
if the open line before it consists of colour sequences (`framedPayload_frame`). So the payloads of
a stream are those of the frames that stand at the head of a line
(`filterMap_framedPayload_stream`).
-/

set_option autoImplicit false
set_option relaxedAutoImplicit false

namespace SyzAbi.Agent

open Orchestrator Library.Json

/-! ### Shared streams -/

/-- What arrives on a shared stream: the texts before each frame, and those behind the last one. -/
structure SharedRun (Frame : Type) where
  turns : List (List Text × Frame)
  closing : List Text

variable {Frame : Type}

/-- The texts between the frames, each as a whole. -/
def SharedRun.texts (run : SharedRun Frame) : List Text :=
  run.turns.map (fun turn ↦ turn.1.flatten) ++ [run.closing.flatten]

/-- The frames in the order of the stream. -/
def SharedRun.frames (run : SharedRun Frame) : List Frame :=
  run.turns.map Prod.snd

/-- The text of the stream, for the text of each frame. -/
def SharedRun.stream (print : Frame → Text) (run : SharedRun Frame) : Text :=
  (run.turns.flatMap fun turn ↦ turn.1.flatten ++ print turn.2) ++ run.closing.flatten

/-- The text does not contain the prefix of the frames. -/
def PrefixFree (text : Text) : Prop := ¬traceEventStdoutPrefix <:+: text

theorem PrefixFree.of_isInfix {part text : Text} (hfree : PrefixFree text)
    (hpart : part <:+: text) : PrefixFree part :=
  fun hstarts ↦ hfree (hstarts.trans hpart)

/-! ### Open lines -/

/-- The line that a text leaves open when it goes on with one. -/
def openLineFrom (line : Text) : Text → Text
  | [] => line
  | c :: rest => openLineFrom (if isLineBreak c then [] else line ++ [c]) rest

/-- What follows the last line break of a text. -/
def openLine (text : Text) : Text := openLineFrom [] text

/-- The line consists of colour sequences, which `extract_framed_events` removes at its head. -/
def OnlyColours (line : Text) : Prop := stripColours line.length line = []

instance (line : Text) : Decidable (OnlyColours line) :=
  inferInstanceAs (Decidable (stripColours line.length line = []))

/-- The lines that a text ends when it goes on with an open one. -/
def closedLinesFrom (line : Text) : Text → List Text
  | [] => []
  | 0x0D :: 0x0A :: rest => line :: closedLinesFrom [] rest
  | c :: rest =>
    if isLineBreak c then line :: closedLinesFrom [] rest else closedLinesFrom (line ++ [c]) rest

theorem openLineFrom_isSuffix (line text : Text) : openLineFrom line text <:+ line ++ text := by
  induction text generalizing line with
  | nil => rw [openLineFrom, List.append_nil]
  | cons c rest ih =>
    rw [openLineFrom]
    split_ifs
    · exact (ih []).trans ⟨line ++ [c], by simp⟩
    · have h := ih (line ++ [c])
      rwa [List.append_assoc] at h

theorem openLine_append_lineFeed (text : Text) : openLine (text ++ [10]) = [] := by
  have h : ∀ line, openLineFrom line (text ++ [10]) = [] := by
    induction text with
    | nil =>
      intro line
      rw [List.nil_append, openLineFrom, if_pos (by decide), openLineFrom]
    | cons c rest ih =>
      intro line
      rw [List.cons_append, openLineFrom, ih]
  exact h []

theorem isInfix_of_mem_closedLinesFrom {line text closed : Text}
    (hclosed : closed ∈ closedLinesFrom line text) : closed <:+: line ++ text := by
  fun_induction closedLinesFrom line text with
  | case1 => cases hclosed
  | case2 line rest ih =>
    rcases List.mem_cons.mp hclosed with rfl | hclosed
    · exact (List.prefix_append _ _).isInfix
    · exact (ih hclosed).trans ⟨line ++ [13, 10], [], by simp⟩
  | case3 line c rest _ _ ih =>
    rcases List.mem_cons.mp hclosed with rfl | hclosed
    · exact (List.prefix_append _ _).isInfix
    · exact (ih hclosed).trans ⟨line ++ [c], [], by simp⟩
  | case4 line c rest _ _ ih =>
    have h := ih hclosed
    rwa [List.append_assoc] at h

/-- The lines of a text are those it ends and the one it leaves open. -/
theorem splitLinesFrom_eq (line text : Text) :
    splitLinesFrom line text = closedLinesFrom line text ++
      if (openLineFrom line text).isEmpty then [] else [openLineFrom line text] := by
  fun_induction closedLinesFrom line text with
  | case1 line => rw [splitLinesFrom, openLineFrom, List.nil_append]
  | case2 line rest ih =>
    rw [splitLinesFrom, ih]
    rfl
  | case3 line c rest hpair hbreak ih =>
    rw [splitLinesFrom, if_pos hbreak, ih, openLineFrom, if_pos hbreak]
    · rfl
    · exact hpair
  | case4 line c rest hpair hbreak ih =>
    rw [splitLinesFrom, if_neg hbreak, ih, openLineFrom, if_neg hbreak]
    exact hpair

/-- A frame does not complete a pair of carriage return and line feed. -/
theorem not_pair_append {frame more : Text} {c : ℕ}
    (hframe : ∀ c ∈ frame, isLineBreak c = false) (hnonempty : frame ≠ [])
    (hpair : ∀ rest, c = 13 → more = 10 :: rest → False) (behind : Text) :
    ∀ rest, c = 13 → more ++ (frame ++ behind) = 10 :: rest → False := by
  intro rest hc heq
  cases more with
  | cons d more =>
    rw [List.cons_append] at heq
    exact hpair more hc (by rw [(List.cons.inj heq).1])
  | nil =>
    obtain ⟨first, frame, rfl⟩ := List.exists_cons_of_ne_nil hnonempty
    have hfirst : first = 10 := (List.cons.inj heq).1
    have hbreak := hframe first List.mem_cons_self
    rw [hfirst] at hbreak
    exact absurd hbreak (by decide)

/-- The lines of a text that goes on with the line of a frame. -/
theorem splitLinesFrom_frame {frame : Text} (hframe : ∀ c ∈ frame, isLineBreak c = false)
    (hnonempty : frame ≠ []) (line text rest : Text) :
    splitLinesFrom line (text ++ (frame ++ 10 :: rest)) =
      closedLinesFrom line text ++ (openLineFrom line text ++ frame) ::
        splitLinesFrom [] rest := by
  fun_induction closedLinesFrom line text with
  | case1 line => rw [List.nil_append, splitLinesFrom_line hframe, openLineFrom, List.nil_append]
  | case2 line more ih =>
    rw [List.cons_append, List.cons_append, splitLinesFrom, ih]
    rfl
  | case3 line c more hpair hbreak ih =>
    rw [List.cons_append, splitLinesFrom, if_pos hbreak, ih, openLineFrom, if_pos hbreak]
    · rfl
    · exact not_pair_append hframe hnonempty hpair _
  | case4 line c more hpair hbreak ih =>
    rw [List.cons_append, splitLinesFrom, if_neg hbreak, ih, openLineFrom, if_neg hbreak]
    exact not_pair_append hframe hnonempty hpair _

/-! ### Payloads -/

theorem stripColours_isSuffix (fuel : ℕ) (line : Text) : stripColours fuel line <:+ line := by
  induction fuel generalizing line with
  | zero => exact List.suffix_rfl
  | succ fuel ih =>
    rw [stripColours]
    split_ifs
    · split
      · exact List.suffix_rfl
      · next c rest hfound =>
        have hrest : c :: rest <:+ line := by
          rw [← hfound]
          exact (List.dropWhile_suffix _).trans (List.drop_suffix _ _)
        exact (ih rest).trans ((List.suffix_cons c rest).trans hrest)
    · exact List.suffix_rfl

/-- A line without the prefix has no payload. -/
theorem framedPayload_eq_none {line : Text} (hfree : PrefixFree line) :
    framedPayload line = none := by
  have hstart : traceEventStdoutPrefix.isPrefixOf (stripColours line.length line) = false := by
    rw [Bool.eq_false_iff, Ne, List.isPrefixOf_iff_prefix]
    exact fun hstarts ↦ hfree
      (hstarts.isInfix.trans (stripColours_isSuffix line.length line).isInfix)
  rw [framedPayload, hstart]
  rfl

theorem filterMap_framedPayload_eq_nil {lines : List Text}
    (hfree : ∀ line ∈ lines, PrefixFree line) : lines.filterMap framedPayload = [] :=
  List.filterMap_eq_nil_iff.mpr fun line hline ↦ framedPayload_eq_none (hfree line hline)

/-- The line of a frame: the prefix and the text of an event. The text has no space, and the prefix
ends with its only one. -/
structure FrameLine (frame body : Text) : Prop where
  frame_eq : frame = traceEventStdoutPrefix ++ body
  printable : Printable body
  spaceless : 32 ∉ body
  braces : ∃ inner, body = 123 :: inner ++ [125]

theorem FrameLine.isLineBreak_eq {frame body : Text} (hframe : FrameLine frame body) :
    ∀ c ∈ frame, isLineBreak c = false := by
  rw [hframe.frame_eq]
  have hstarts : ∀ c ∈ traceEventStdoutPrefix, isLineBreak c = false := by decide
  intro c hc
  rcases List.mem_append.mp hc with hc | hc
  · exact hstarts c hc
  · exact hframe.printable.isLineBreak_eq c hc

theorem FrameLine.exists_cons {frame body : Text} (hframe : FrameLine frame body) :
    ∃ rest, frame = 95 :: rest := by
  refine ⟨traceEventStdoutPrefix.tail ++ body, ?_⟩
  have hhead : traceEventStdoutPrefix = 95 :: traceEventStdoutPrefix.tail := by decide
  rw [hframe.frame_eq, ← List.cons_append, ← hhead]

theorem FrameLine.ne_nil {frame body : Text} (hframe : FrameLine frame body) : frame ≠ [] := by
  obtain ⟨rest, hrest⟩ := hframe.exists_cons
  rw [hrest]
  exact List.cons_ne_nil _ _

/-- Text at the head of the line of a frame hides the prefix: the space at its end would have to be
inside it, or the text would contain it. -/
theorem not_prefix_append {line : Text} (hfree : PrefixFree line) (hline : line ≠ [])
    (body : Text) : ¬traceEventStdoutPrefix <+: line ++ (traceEventStdoutPrefix ++ body) := by
  intro hstarts
  have hlength : traceEventStdoutPrefix.length = 23 := by decide
  by_cases hlong : 23 ≤ line.length
  · refine hfree (List.IsPrefix.isInfix ?_)
    exact List.prefix_of_prefix_length_le hstarts (List.prefix_append _ _) (by omega)
  · have hpos := List.length_pos_of_ne_nil hline
    obtain ⟨behind, hbehind⟩ := hstarts
    have hlast : (traceEventStdoutPrefix ++ behind)[22]? = some 32 := by
      rw [List.getElem?_append_left (by omega)]
      decide
    have hinner : ∀ index < 22, traceEventStdoutPrefix[index]? ≠ some 32 := by decide
    rw [hbehind, List.getElem?_append_right (by omega), List.getElem?_append_left (by omega)]
      at hlast
    exact hinner _ (by omega) hlast

theorem stripColours_of_not_escape {line : Text} (hline : ∀ rest, line ≠ 27 :: 91 :: rest)
    (fuel : ℕ) : stripColours fuel line = line := by
  cases fuel with
  | zero => rfl
  | succ fuel =>
    rw [stripColours, if_neg]
    rw [List.isPrefixOf_iff_prefix]
    rintro ⟨rest, rfl⟩
    exact hline rest rfl

theorem stripColours_of_incomplete {rest : Text} (hrest : rest.dropWhile (· ≠ 109) = [])
    (fuel : ℕ) : stripColours (fuel + 1) (27 :: 91 :: rest) = 27 :: 91 :: rest := by
  have hopens : [27, 91].isPrefixOf (27 :: 91 :: rest) = true := rfl
  rw [stripColours, if_pos hopens, List.drop_succ_cons, List.drop_succ_cons, List.drop_zero, hrest]

theorem stripColours_of_complete {rest tail : Text} {m : ℕ}
    (hrest : rest.dropWhile (· ≠ 109) = m :: tail) (fuel : ℕ) :
    stripColours (fuel + 1) (27 :: 91 :: rest) = stripColours fuel tail := by
  have hopens : [27, 91].isPrefixOf (27 :: 91 :: rest) = true := rfl
  rw [stripColours, if_pos hopens, List.drop_succ_cons, List.drop_succ_cons, List.drop_zero, hrest]

/-- A colour sequence that is not complete before the frame takes the head of the frame away. -/
theorem not_prefix_behind_colour {frame body : Text} (hframe : FrameLine frame body) {m : ℕ}
    {tail : Text} (htail : frame.dropWhile (· ≠ 109) = m :: tail) (fuel : ℕ) :
    ¬traceEventStdoutPrefix <+: stripColours fuel tail := by
  intro hstarts
  have hno : ∀ c ∈ traceEventStdoutPrefix, (decide (c ≠ 109)) = true := by decide
  have hbody : frame.dropWhile (· ≠ 109) = body.dropWhile (· ≠ 109) := by
    rw [hframe.frame_eq, List.dropWhile_append_of_pos hno]
  have hsuffix : stripColours fuel tail <:+ body := by
    refine (stripColours_isSuffix fuel tail).trans ((List.suffix_cons m tail).trans ?_)
    rw [← htail, hbody]
    exact List.dropWhile_suffix _
  have hspace : 32 ∈ traceEventStdoutPrefix := by decide
  exact hframe.spaceless (hsuffix.subset (hstarts.subset hspace))

/-- The colours at the head of the line of a frame are removed completely, or the prefix is not at
the head of what remains. -/
theorem stripColours_frame {frame body : Text} (hframe : FrameLine frame body) {fuel more : ℕ}
    {line : Text} (hfree : PrefixFree line) (hfuel : line.length ≤ fuel)
    (hmore : line.length ≤ more) :
    stripColours fuel line = [] ∧ stripColours more (line ++ frame) = frame ∨
      stripColours fuel line ≠ [] ∧
        ¬traceEventStdoutPrefix <+: stripColours more (line ++ frame) := by
  obtain ⟨frameRest, hhead⟩ := hframe.exists_cons
  have hnot : ∀ rest, frame ≠ 27 :: 91 :: rest := by
    intro rest heq
    rw [hhead] at heq
    exact absurd (List.cons.inj heq).1 (by decide)
  induction fuel generalizing line more with
  | zero =>
    rw [List.eq_nil_of_length_eq_zero (Nat.le_zero.mp hfuel), List.nil_append]
    exact .inl ⟨rfl, stripColours_of_not_escape hnot more⟩
  | succ fuel ih =>
    by_cases hescape : ∃ rest, line = 27 :: 91 :: rest
    · obtain ⟨rest, rfl⟩ := hescape
      obtain ⟨more, rfl⟩ : ∃ k, more = k + 1 := ⟨more - 1, by simp at hmore; omega⟩
      rw [List.cons_append, List.cons_append]
      have happend := @List.dropWhile_append ℕ (fun c ↦ decide (c ≠ 109)) rest frame
      cases hfound : rest.dropWhile (· ≠ 109) with
      | nil =>
        rw [hfound, List.isEmpty_nil, if_pos rfl] at happend
        rw [stripColours_of_incomplete hfound]
        refine .inr ⟨List.cons_ne_nil _ _, ?_⟩
        cases hlater : frame.dropWhile (· ≠ 109) with
        | nil =>
          rw [stripColours_of_incomplete (happend.trans hlater)]
          rintro ⟨behind, hbehind⟩
          have hfirst : traceEventStdoutPrefix = 95 :: traceEventStdoutPrefix.tail := by decide
          rw [hfirst, List.cons_append] at hbehind
          exact absurd (List.cons.inj hbehind).1 (by decide)
        | cons m tail =>
          rw [stripColours_of_complete (happend.trans hlater)]
          exact not_prefix_behind_colour hframe hlater more
      | cons m tail =>
        rw [hfound, List.isEmpty_cons, if_neg Bool.false_ne_true, List.cons_append] at happend
        rw [stripColours_of_complete hfound, stripColours_of_complete happend]
        have hsuffix : m :: tail <:+ rest := by
          rw [← hfound]
          exact List.dropWhile_suffix _
        have hlength := hsuffix.length_le
        have hpart : tail <:+: 27 :: 91 :: rest :=
          ((List.suffix_cons m tail).trans (hsuffix.trans ⟨[27, 91], rfl⟩)).isInfix
        simp only [List.length_cons] at hfuel hmore hlength
        exact ih (hfree.of_isInfix hpart) (by omega) (by omega)
    · have hline : ∀ rest, line ≠ 27 :: 91 :: rest := fun rest heq ↦ hescape ⟨rest, heq⟩
      rw [stripColours_of_not_escape hline]
      by_cases hempty : line = []
      · rw [hempty, List.nil_append]
        exact .inl ⟨rfl, stripColours_of_not_escape hnot more⟩
      · refine .inr ⟨hempty, ?_⟩
        rw [stripColours_of_not_escape, hframe.frame_eq]
        · exact not_prefix_append hfree hempty body
        · intro rest heq
          obtain ⟨c, line, rfl⟩ := List.exists_cons_of_ne_nil hempty
          obtain ⟨rfl, htail⟩ := List.cons.inj heq
          cases line with
          | nil =>
            rw [hhead] at htail
            exact absurd (List.cons.inj htail).1 (by decide)
          | cons d line =>
            exact hline line (by rw [(List.cons.inj htail).1])

/-- A frame yields its payload if and only if the open line before it is all colours. -/
theorem framedPayload_frame {frame body line : Text} (hframe : FrameLine frame body)
    (hfree : PrefixFree line) :
    framedPayload (line ++ frame) = if OnlyColours line then some body else none := by
  obtain ⟨inner, hinner⟩ := hframe.braces
  rcases stripColours_frame hframe hfree le_rfl
    (by simp : line.length ≤ (line ++ frame).length) with ⟨honly, hstrip⟩ | ⟨hnot, hstrip⟩
  · have hcolours : OnlyColours line := honly
    rw [if_pos hcolours, framedPayload, hstrip, hframe.frame_eq]
    have hframed : traceEventStdoutPrefix.isPrefixOf (traceEventStdoutPrefix ++ body) = true :=
      List.isPrefixOf_iff_prefix.mpr (List.prefix_append _ _)
    rw [hframed, if_pos rfl, List.drop_left, hinner, strip_braces]
    rfl
  · have hcolours : ¬OnlyColours line := hnot
    rw [if_neg hcolours, framedPayload, if_neg]
    rw [List.isPrefixOf_iff_prefix]
    exact hstrip

/-! ### Texts without spaces -/

theorem space_not_mem_of_identifier {text : Text}
    (hidentifier : ∀ c ∈ text, isIdentifierChar c = true) : 32 ∉ text := by
  intro hspace
  exact absurd (hidentifier 32 hspace) (by decide)

theorem space_not_mem_decimal (n : ℕ) : 32 ∉ decimal n := not_mem_decimal (by decide) n

theorem space_not_mem_decimalInt (value : ℤ) : 32 ∉ decimalInt value := by
  rw [decimalInt]
  split_ifs
  · simpa using space_not_mem_decimal _
  · exact space_not_mem_decimal _

theorem space_not_mem_quoted {text : Text} (htext : 32 ∉ text) : 32 ∉ quoted text :=
  not_mem_quoted (by decide) htext

theorem space_not_mem_name (name : ShortName) : 32 ∉ quoted (PyStr.ofString name.text) :=
  space_not_mem_quoted (space_not_mem_of_identifier name.identifier)

theorem space_not_mem_digest (digest : Digest) (bytes : List UInt8) :
    32 ∉ quoted (digest.hex bytes) :=
  space_not_mem_quoted (space_not_mem_of_identifier (digest.isIdentifier bytes))

theorem space_not_mem_preview (bytes : List UInt8) (outSize : ℕ) :
    32 ∉ quoted (hexPreview bytes outSize) :=
  space_not_mem_quoted
    (space_not_mem_of_identifier fun _ hc ↦ isIdentifierChar_hexPreview hc)

theorem space_not_mem_arrayText {texts : List Text} (htexts : ∀ text ∈ texts, 32 ∉ text) :
    32 ∉ arrayText texts :=
  not_mem_arrayText (by decide) htexts

theorem space_not_mem_objectText {texts : List Text} (htexts : ∀ text ∈ texts, 32 ∉ text) :
    32 ∉ objectText texts :=
  not_mem_objectText (by decide) htexts

theorem space_not_mem_integers (values : List Int64) :
    32 ∉ arrayText (values.map fun value ↦ decimalInt value.toInt) := by
  apply space_not_mem_arrayText
  intro text htext
  obtain ⟨value, -, rfl⟩ := List.mem_map.mp htext
  exact space_not_mem_decimalInt _

theorem space_not_mem_member {key : String} {text : Text}
    (hkey : (PyStr.ofString key).all isIdentifierChar = true) (htext : 32 ∉ text) :
    32 ∉ member key text :=
  not_mem_memberText (by decide) (space_not_mem_of_identifier (List.all_eq_true.mp hkey)) htext

/-! ### Streams -/

/-- The line of an event behind the prefix. -/
theorem EventLine.frameLine {body : Text} {value : Value} (hline : EventLine body value)
    (hspace : 32 ∉ body) : FrameLine (traceEventStdoutPrefix ++ body) body :=
  ⟨rfl, hline.printable, hspace, hline.braces⟩

/-- The payloads of a text with a frame in it. -/
theorem filterMap_framedPayload_frame {frame body text : Text} (hframe : FrameLine frame body)
    (hfree : PrefixFree text) (rest : Text) :
    (splitLines (text ++ (frame ++ 10 :: rest))).filterMap framedPayload =
      (if OnlyColours (openLine text) then [body] else []) ++
        (splitLines rest).filterMap framedPayload := by
  have hclosed : (closedLinesFrom [] text).filterMap framedPayload = [] :=
    filterMap_framedPayload_eq_nil fun line hline ↦
      hfree.of_isInfix (isInfix_of_mem_closedLinesFrom hline)
  have hopen : PrefixFree (openLine text) :=
    hfree.of_isInfix (openLineFrom_isSuffix [] text).isInfix
  rw [splitLines, splitLinesFrom_frame hframe.isLineBreak_eq hframe.ne_nil,
    List.filterMap_append, hclosed, List.nil_append]
  show List.filterMap framedPayload ((openLine text ++ frame) :: splitLines rest) = _
  rw [List.filterMap_cons, framedPayload_frame hframe hopen]
  split_ifs <;> rfl

/-- A text without the prefix has no payloads. -/
theorem filterMap_framedPayload_text {text : Text} (hfree : PrefixFree text) :
    (splitLines text).filterMap framedPayload = [] := by
  apply filterMap_framedPayload_eq_nil
  intro line hline
  rw [splitLines, splitLinesFrom_eq] at hline
  rcases List.mem_append.mp hline with hclosed | hopen
  · exact hfree.of_isInfix (isInfix_of_mem_closedLinesFrom hclosed)
  · obtain ⟨-, hopen⟩ := List.mem_ite_nil_left.mp hopen
    rw [List.mem_singleton.mp hopen]
    exact hfree.of_isInfix (openLineFrom_isSuffix [] text).isInfix

section Streams

variable {body : Frame → Text} {value : Frame → Value} {run : SharedRun Frame}

/-- The frame of an event and its line feed. -/
def framed (body : Text) : Text := traceEventStdoutPrefix ++ body ++ [10]

/-- The payloads of a stream are those of the frames at the head of a line. -/
theorem filterMap_framedPayload_stream
    (hlines : ∀ frame ∈ run.frames, EventLine (body frame) (value frame) ∧ 32 ∉ body frame)
    (hfree : ∀ text ∈ run.texts, PrefixFree text) :
    (splitLines (run.stream fun frame ↦ framed (body frame))).filterMap framedPayload =
      (run.turns.filter fun turn ↦ OnlyColours (openLine turn.1.flatten)).map
        fun turn ↦ body turn.2 := by
  obtain ⟨turns, closing⟩ := run
  have hclosing : PrefixFree closing.flatten :=
    hfree _ (List.mem_append_right _ List.mem_cons_self)
  have hbefore : ∀ turn ∈ turns, PrefixFree turn.1.flatten := fun turn hturn ↦
    hfree _ (List.mem_append_left _ (List.mem_map_of_mem hturn))
  have hbodies : ∀ turn ∈ turns,
      EventLine (body turn.2) (value turn.2) ∧ 32 ∉ body turn.2 := fun turn hturn ↦
    hlines turn.2 (List.mem_map_of_mem hturn)
  clear hlines hfree
  rw [SharedRun.stream]
  dsimp only
  induction turns with
  | nil =>
    rw [List.flatMap_nil, List.nil_append, filterMap_framedPayload_text hclosing]
    rfl
  | cons turn turns ih =>
    obtain ⟨hevent, hspace⟩ := hbodies turn List.mem_cons_self
    have hrest := ih (fun other hother ↦ hbefore other (List.mem_cons_of_mem turn hother))
      fun other hother ↦ hbodies other (List.mem_cons_of_mem turn hother)
    have hsplit : (turn :: turns).flatMap (fun turn ↦ turn.1.flatten ++ framed (body turn.2)) ++
        closing.flatten = turn.1.flatten ++ ((traceEventStdoutPrefix ++ body turn.2) ++ 10 ::
          (turns.flatMap (fun turn ↦ turn.1.flatten ++ framed (body turn.2)) ++
            closing.flatten)) := by
      simp [framed, List.append_assoc]
    rw [hsplit, filterMap_framedPayload_frame (hevent.frameLine hspace)
      (hbefore turn List.mem_cons_self), hrest, List.filter_cons]
    by_cases honly : OnlyColours (openLine turn.1.flatten) <;> simp [honly]

/-- The events of a stream are those of the frames at the head of a line. -/
theorem extractFramedEvents_stream
    (hlines : ∀ frame ∈ run.frames, EventLine (body frame) (value frame) ∧ 32 ∉ body frame)
    (hfree : ∀ text ∈ run.texts, PrefixFree text) :
    extractFramedEvents (run.stream fun frame ↦ framed (body frame)) =
      .ok ((run.turns.filter fun turn ↦ OnlyColours (openLine turn.1.flatten)).map
        fun turn ↦ value turn.2) := by
  rw [extractFramedEvents, filterMap_framedPayload_stream hlines hfree]
  apply mapM_jsonLoads
  rw [List.forall₂_map_left_iff, List.forall₂_map_right_iff, List.forall₂_same]
  intro turn hturn
  exact (hlines turn.2 (List.mem_map_of_mem (List.mem_of_mem_filter hturn))).1

/-- All events are found, and nothing else, if and only if every frame is at the head of a line. -/
theorem extractFramedEvents_stream_iff
    (hlines : ∀ frame ∈ run.frames, EventLine (body frame) (value frame) ∧ 32 ∉ body frame)
    (hfree : ∀ text ∈ run.texts, PrefixFree text) :
    extractFramedEvents (run.stream fun frame ↦ framed (body frame)) =
        .ok (run.frames.map value) ↔
      ∀ turn ∈ run.turns, OnlyColours (openLine turn.1.flatten) := by
  rw [extractFramedEvents_stream hlines hfree, SharedRun.frames, List.map_map]
  constructor
  · intro heq
    have hlength := congrArg List.length (Except.ok.inj heq)
    rw [List.length_map, List.length_map] at hlength
    intro turn hturn
    have hall := List.length_filter_eq_length_iff.mp hlength turn hturn
    exact of_decide_eq_true hall
  · intro hall
    rw [List.filter_eq_self.mpr fun turn hturn ↦ decide_eq_true (hall turn hturn)]
    rfl

end Streams

end SyzAbi.Agent

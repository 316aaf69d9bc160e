import SyzAbi.Tools.GuestNames

/-!
# The text of a console

`read_console_text` (`targets/asterinas/runtime_support.py`) decodes the logs of a run with
replacements and universal newlines, and joins the texts that are new (`readConsoleText`). A printed
line ends with a line feed of its own, so the lines of a log can be decoded one by one
(`readConsole_echo_append`): a line that holds carriage returns becomes several lines.

`extract_section` finds the first occurrences of two markers (`extractSection_eq_some_iff`). So a
section stays what it is when text is added behind it (`extractSection_append`), when text without
the begin marker is added before it (`extractSection_append_closed`), and when the console text is
stripped (`extractSection_strip`).
-/

set_option autoImplicit false
set_option relaxedAutoImplicit false

namespace SyzAbi.Tools

open Analyzer Orchestrator Library Library.Search GuestNames

/-! ### Reading logs -/

/-- The loop of `read_console_text`: the texts that are neither empty nor seen. -/
def newChunks (seen : List PyStr) : List PyStr → List PyStr
  | [] => []
  | text :: rest =>
    if text = [] ∨ text ∈ seen then newChunks seen rest else text :: newChunks (text :: seen) rest

/-- `read_console_text` on the logs that exist. -/
def readConsoleText (logs : List (List ℕ)) : PyStr :=
  strip ([10].intercalate (newChunks [] (logs.map readConsole)))

theorem mem_of_mem_newChunks {seen texts : List PyStr} {text : PyStr}
    (htext : text ∈ newChunks seen texts) : text ∈ texts := by
  induction texts generalizing seen with
  | nil => cases htext
  | cons first rest ih =>
    rw [newChunks] at htext
    split_ifs at htext
    · exact List.mem_cons_of_mem _ (ih htext)
    · rcases List.mem_cons.mp htext with rfl | hrest
      · exact List.mem_cons_self
      · exact List.mem_cons_of_mem _ (ih hrest)

/-- A new text in the middle is one of the chunks. -/
theorem newChunks_append {text : PyStr} (hne : text ≠ []) (earlier later : List PyStr)
    (hnew : text ∉ earlier) {seen : List PyStr} (hseen : text ∉ seen) :
    ∃ others, (∀ other ∈ others, other ∈ later) ∧ newChunks seen (earlier ++ text :: later) =
      newChunks seen earlier ++ text :: others := by
  induction earlier generalizing seen with
  | nil =>
    exact ⟨newChunks (text :: seen) later, fun _ hother ↦ mem_of_mem_newChunks hother,
      if_neg (not_or.mpr ⟨hne, hseen⟩)⟩
  | cons first earlier ih =>
    rw [List.mem_cons, not_or] at hnew
    rw [List.cons_append, newChunks, newChunks]
    split_ifs
    · exact ih hnew.2 hseen
    · obtain ⟨others, hmem, hothers⟩ := ih hnew.2 (List.not_mem_cons_of_ne_of_not_mem hnew.1 hseen)
      exact ⟨others, hmem, congrArg (first :: ·) hothers⟩

/-- Joined texts: line feeds stand behind those before a text, and before those behind it. -/
theorem intercalate_append_cons (earlier later : List PyStr) (text : PyStr) :
    [10].intercalate (earlier ++ text :: later) =
      earlier.flatMap echo ++ (text ++ later.flatMap fun other ↦ 10 :: other) := by
  induction earlier with
  | nil =>
    rw [List.nil_append, List.flatMap_nil, List.nil_append]
    induction later generalizing text with
    | nil => rw [List.intercalate_singleton, List.flatMap_nil, List.append_nil]
    | cons next later ih =>
      rw [List.intercalate_cons_cons, ih, List.flatMap_cons]
      simp
  | cons first earlier ih =>
    obtain ⟨next, more, hmore⟩ : ∃ next more, earlier ++ text :: later = next :: more :=
      List.exists_cons_of_ne_nil (List.append_ne_nil_of_right_ne_nil _ (List.cons_ne_nil _ _))
    rw [List.cons_append, hmore, List.intercalate_cons_cons, ← hmore, ih, List.flatMap_cons]
    simp [echo]

/-! ### Printed lines -/

/-- Texts can be read apart where no line end is torn. -/
theorem universalNewlines_append {front : PyStr} (rest : PyStr)
    (hseam : ¬(front.getLast? = some 13 ∧ rest.head? = some 10)) :
    universalNewlines (front ++ rest) = universalNewlines front ++ universalNewlines rest := by
  fun_induction universalNewlines front with
  | case1 => rfl
  | case2 front ih =>
    rw [List.cons_append, List.cons_append, universalNewlines, ih]
    · rfl
    · rintro ⟨hlast, hhead⟩
      refine hseam ⟨?_, hhead⟩
      rw [List.getLast?_cons, List.getLast?_cons, hlast]
      rfl
  | case3 c front hpair ih =>
    have hwhole : universalNewlines (c :: (front ++ rest)) =
        (if c = 13 then 10 else c) :: universalNewlines (front ++ rest) := by
      refine universalNewlines.eq_3 c (front ++ rest) ?_
      intro more hc hmore
      cases front with
      | nil => exact hseam ⟨congrArg some hc, by rw [show rest = 10 :: more from hmore]; rfl⟩
      | cons d front =>
        obtain ⟨rfl, -⟩ := List.cons.inj hmore
        exact hpair front hc rfl
    rw [List.cons_append, hwhole, ih]
    · rfl
    · rintro ⟨hlast, hhead⟩
      refine hseam ⟨?_, hhead⟩
      rw [List.getLast?_cons, hlast]
      rfl

/-- Behind a line feed the next text is read on its own. -/
theorem universalNewlines_concat_append (text rest : PyStr) :
    universalNewlines (text ++ 10 :: rest) =
      universalNewlines (text ++ [10]) ++ universalNewlines rest := by
  rw [List.append_cons, universalNewlines_append]
  rintro ⟨hlast, -⟩
  rw [List.getLast?_concat] at hlast
  cases hlast

theorem exists_universalNewlines_concat (text : PyStr) :
    ∃ front, universalNewlines (text ++ [10]) = front ++ [10] := by
  rcases List.eq_nil_or_concat text with rfl | ⟨front, c, rfl⟩
  · exact ⟨[], rfl⟩
  rw [List.concat_eq_append]
  by_cases hreturn : c = 13
  · refine ⟨universalNewlines front, ?_⟩
    rw [hreturn, List.append_assoc, universalNewlines_append]
    · rfl
    · rintro ⟨-, hhead⟩
      cases hhead
  · refine ⟨universalNewlines (front ++ [c]), ?_⟩
    rw [universalNewlines_append]
    · rfl
    · rintro ⟨hlast, -⟩
      rw [List.getLast?_concat] at hlast
      exact hreturn (Option.some.inj hlast)

/-- What the host reads of a line that was printed. -/
def shown (line : List ℕ) : PyStr := (readConsole (echo line)).dropLast

theorem readConsole_echo (line : List ℕ) : readConsole (echo line) = echo (shown line) := by
  have hdecode : Utf8.decode (echo line) = Utf8.decode line ++ [10] := by
    rw [echo, Utf8.decode_append line (by decide) []]
    rfl
  obtain ⟨front, hfront⟩ := exists_universalNewlines_concat (Utf8.decode line)
  rw [shown, readConsole, hdecode, hfront, List.dropLast_concat, echo]

/-- The lines of a log are read one by one. -/
theorem readConsole_echo_append (line rest : List ℕ) :
    readConsole (echo line ++ rest) = echo (shown line) ++ readConsole rest := by
  have hdecode : ∀ more, Utf8.decode (line ++ 10 :: more) =
      Utf8.decode line ++ 10 :: Utf8.decode more := Utf8.decode_append line (by decide)
  rw [← readConsole_echo, echo, ← List.append_cons, readConsole, hdecode,
    universalNewlines_concat_append, readConsole, hdecode]
  rfl

theorem readConsole_lines_append (lines : List (List ℕ)) (rest : List ℕ) :
    readConsole (lines.flatMap echo ++ rest) =
      (lines.map shown).flatMap echo ++ readConsole rest := by
  induction lines with
  | nil => rfl
  | cons line lines ih =>
    rw [List.flatMap_cons, List.append_assoc, readConsole_echo_append, ih, List.map_cons,
      List.flatMap_cons, List.append_assoc]

/-- What was printed before a character that is no line feed is read on its own. -/
theorem readConsole_append_cons (front rest : List ℕ) {c : ℕ} (hc : c < 128) (hfeed : c ≠ 10) :
    readConsole (front ++ c :: rest) = readConsole front ++ readConsole (c :: rest) := by
  have hrest : Utf8.decode (c :: rest) = c :: Utf8.decode rest := Utf8.decode_append [] hc rest
  rw [readConsole, Utf8.decode_append front hc, universalNewlines_append, readConsole, readConsole,
    hrest]
  rintro ⟨-, hhead⟩
  exact hfeed (Option.some.inj hhead)

/-- A line of ASCII characters without carriage returns is read as it is. -/
theorem shown_eq_self {line : List ℕ} (hline : ∀ c ∈ line, c < 128 ∧ c ≠ 13) :
    shown line = line := by
  have hascii : ∀ c ∈ echo line, c < 128 ∧ c ≠ 13 :=
    List.forall_mem_append.mpr ⟨hline, by decide⟩
  have hdecode : Utf8.decode (echo line) = echo line := by
    have hread := Utf8.decode_encode fun c hc ↦ (.inl ((hascii c hc).1.trans (by decide)) :
      c.isValidChar)
    rwa [Utf8.encode_ascii fun c hc ↦ (hascii c hc).1] at hread
  rw [shown, readConsole, hdecode, universalNewlines_eq_self fun hc ↦ (hascii 13 hc).2 rfl, echo,
    List.dropLast_concat]

/-! ### Sections -/

/-- Behind a text that cuts begin markers a section is found as without it. -/
theorem extractSection_append_closed {name : String} {front : PyStr}
    (hfree : ¬echo (beginMarker name) <:+: front)
    (hlast : ∀ c ∈ front.getLast?, c ∉ (echo (beginMarker name)).dropLast) (rest : PyStr) :
    extractSection (front ++ rest) name = extractSection rest name := by
  have hfrom : ∀ start, findFrom (10 :: endMarker name) (front ++ rest) (front.length + start) =
      (findFrom (10 :: endMarker name) rest start).map (front.length + ·) := by
    intro start
    rw [findFrom, findFrom, List.drop_append, List.drop_eq_nil_of_le (by omega),
      List.nil_append, Nat.add_sub_cancel_left, Option.map_map]
    congr 1
    funext index
    exact Nat.add_assoc _ _ _
  have hslice : ∀ start finish, consoleSlice (front ++ rest) (front.length + start)
      (front.length + finish) = consoleSlice rest start finish := by
    intro start finish
    rw [consoleSlice, consoleSlice, List.take_length_add_append, List.drop_append,
      List.drop_eq_nil_of_le (by omega), List.nil_append, Nat.add_sub_cancel_left]
  rw [extractSection, extractSection, find_append_closed hfree hlast]
  cases find (echo (beginMarker name)) rest with
  | none => rfl
  | some found =>
    simp only [Option.map_some, Nat.add_assoc, hfrom]
    cases findFrom (10 :: endMarker name) rest (found + (echo (beginMarker name)).length) with
    | none => rfl
    | some finish => simp only [Option.map_some, hslice]

section Sections

variable {name : String} (hname : name ∈ "BATCH_CASE" :: sectionNames)

include hname

/-- A section stands between the first markers around it. -/
theorem extractSection_eq_some_iff {text content : PyStr} :
    extractSection text name = some content ↔ ∃ before inner rest,
      text = before ++ (echo (beginMarker name) ++ (inner ++ (10 :: endMarker name ++ rest))) ∧
        ¬echo (beginMarker name) <:+: before ∧ ¬10 :: endMarker name <:+: inner ∧
        content = stripLineFeeds inner := by
  constructor
  · intro hsection
    have hopens : echo (beginMarker name) <:+: text := by
      by_contra hfree
      rw [extractSection, find_eq_none_iff.mpr hfree] at hsection
      cases hsection
    obtain ⟨before, behind, rfl, hbefore⟩ := exists_first hopens
    replace hbefore := hbefore (unbordered_begin name hname).1
    by_cases hcloses : 10 :: endMarker name <:+: behind
    · obtain ⟨inner, rest, rfl, hinner⟩ := exists_first hcloses
      replace hinner := hinner (List.cons_ne_nil _ _)
      rw [extractSection_split hname hbefore hinner] at hsection
      exact ⟨before, inner, rest, rfl, hbefore, hinner, (Option.some.inj hsection).symm⟩
    · have hfind := (unbordered_begin name hname).find_append hbefore behind
      have hnone : findFrom (10 :: endMarker name)
          (before ++ (echo (beginMarker name) ++ behind))
          (before.length + (echo (beginMarker name)).length) = none := by
        rw [findFrom_of_eq (List.append_assoc _ _ _).symm List.length_append.symm,
          find_eq_none_iff.mpr hcloses]
        rfl
      simp only [extractSection, hfind, hnone] at hsection
      cases hsection
  · rintro ⟨before, inner, rest, rfl, hbefore, hinner, rfl⟩
    exact extractSection_split hname hbefore hinner rest

/-- A section that is complete stays what it is. -/
theorem extractSection_append {text content : PyStr}
    (hsection : extractSection text name = some content) (more : PyStr) :
    extractSection (text ++ more) name = some content := by
  obtain ⟨before, inner, rest, rfl, hbefore, hinner, rfl⟩ :=
    (extractSection_eq_some_iff hname).mp hsection
  refine (extractSection_eq_some_iff hname).mpr
    ⟨before, inner, rest ++ more, ?_, hbefore, hinner, rfl⟩
  simp only [List.append_assoc]

/-- Where a begin marker stands before an end marker there is a section. -/
theorem exists_extractSection {front : PyStr} (hopens : echo (beginMarker name) <:+: front)
    (inner rest : PyStr) :
    ∃ content, extractSection (front ++ (inner ++ (10 :: endMarker name ++ rest))) name =
      some content := by
  obtain ⟨before, behind, rfl, hbefore⟩ := exists_first hopens
  have hcloses : 10 :: endMarker name <:+: behind ++ (inner ++ (10 :: endMarker name ++ rest)) :=
    ⟨behind ++ inner, rest, by simp⟩
  obtain ⟨content, last, hsplit, hcontent⟩ := exists_first hcloses
  refine ⟨stripLineFeeds content, (extractSection_eq_some_iff hname).mpr ⟨before, content, last, ?_,
    hbefore (unbordered_begin name hname).1, hcontent (List.cons_ne_nil _ _), rfl⟩⟩
  rw [← hsplit]
  simp only [List.append_assoc]

/-- Whitespace behind a text is no part of a section: an end marker does not end with any. -/
theorem extractSection_append_spaces {text spaces : PyStr}
    (hspaces : ∀ c ∈ spaces, isStripped c = true) :
    extractSection (text ++ spaces) name = extractSection text name := by
  refine Option.ext fun content ↦ ⟨fun hsection ↦ ?_, fun hsection ↦
    extractSection_append hname hsection spaces⟩
  obtain ⟨before, inner, rest, hsplit, hbefore, hinner, hcontent⟩ :=
    (extractSection_eq_some_iff hname).mp hsection
  have hlast : (before ++ (echo (beginMarker name) ++
      (inner ++ 10 :: endMarker name))).getLast? = some 95 := by
    have hmarker : (10 :: endMarker name).getLast? = some 95 := by
      rw [endMarker, ← List.append_assoc, ← List.append_assoc, ← List.cons_append,
        List.getLast?_append_of_ne_nil _ (by decide)]
      decide
    rw [← List.append_assoc, ← List.append_assoc,
      List.getLast?_append_of_ne_nil _ (List.cons_ne_nil _ _), hmarker]
  have hwhole : text ++ spaces =
      (before ++ (echo (beginMarker name) ++ (inner ++ 10 :: endMarker name))) ++ rest := by
    rw [hsplit]
    simp only [List.append_assoc]
  refine (extractSection_eq_some_iff hname).mpr ?_
  rcases List.append_eq_append_iff.mp hwhole with ⟨torn, hcut, hrest⟩ | ⟨kept, htext, -⟩
  · rcases List.eq_nil_or_concat torn with rfl | ⟨front, c, rfl⟩
    · refine ⟨before, inner, [], ?_, hbefore, hinner, hcontent⟩
      rw [← List.append_nil text, ← hcut]
      simp only [List.append_nil]
    · rw [hcut, List.concat_eq_append, ← List.append_assoc, List.getLast?_concat] at hlast
      have hspace := hspaces c (hrest ▸ by simp)
      rw [Option.some.inj hlast] at hspace
      exact absurd hspace (by decide)
  · refine ⟨before, inner, kept, ?_, hbefore, hinner, hcontent⟩
    rw [htext]
    simp only [List.append_assoc]

/-- Whitespace before a text is no part of a section. -/
theorem extractSection_spaces_append {text spaces : PyStr}
    (hspaces : ∀ c ∈ spaces, isStripped c = true) :
    extractSection (spaces ++ text) name = extractSection text name := by
  have hmarkers : ∀ name ∈ "BATCH_CASE" :: sectionNames,
      ∀ c ∈ (echo (beginMarker name)).dropLast, isStripped c = false := by
    decide
  refine extractSection_append_closed (fun hoccurs ↦ ?_) (fun c hc hmem ↦ ?_) text
  · have hmark : 95 ∈ echo (beginMarker name) := by
      rw [echo_beginMarker]
      exact List.mem_append_left _ (by decide)
    exact absurd (hspaces 95 (hoccurs.subset hmark)) (by decide)
  · have hspace := hspaces c (List.mem_of_getLast? hc)
    rw [hmarkers name hname c hmem] at hspace
    cases hspace

theorem extractSection_strip (text : PyStr) :
    extractSection (strip text) name = extractSection text name := by
  have hspaces : ∀ line : PyStr, ∀ c ∈ line.takeWhile isStripped, isStripped c = true :=
    fun _ _ hc ↦ List.mem_takeWhile_imp hc
  have hfront : text.takeWhile isStripped ++ text.dropWhile isStripped = text :=
    List.takeWhile_append_dropWhile
  have hback : strip text ++ ((text.dropWhile isStripped).reverse.takeWhile isStripped).reverse =
      text.dropWhile isStripped := by
    rw [strip, ← List.reverse_append, List.takeWhile_append_dropWhile, List.reverse_reverse]
  rw [← extractSection_append_spaces hname fun c hc ↦ hspaces _ c (List.mem_reverse.mp hc), hback,
    ← extractSection_spaces_append hname (hspaces text), hfront]

end Sections

end SyzAbi.Tools

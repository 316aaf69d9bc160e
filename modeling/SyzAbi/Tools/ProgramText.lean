import SyzAbi.Agent.EventDecoding
import SyzAbi.Library.TextLines

/-!
# The texts of imported programs

`preprocess_text` (`tools/import_syz.py`) makes the text of a program of what an input file holds.
Blank lines and comments are dropped, the lines are stripped, and from a crash log only the block of
lines that look like calls is taken (`extract_crashlog_program`).

What comes out is a program text: lines that are not blank, not comments, and stripped on both
sides, each with a line feed (`preprocessText_eq`). Preparing it again changes nothing
(`preprocessText_idem`, `preprocessText_preprocessText`).
-/

set_option autoImplicit false
set_option relaxedAutoImplicit false

namespace SyzAbi.Tools.ImportSyz

open Agent Analyzer Orchestrator

/-! ### Preparation -/

/-- The choices of `--source-type`. -/
inductive SourceType
  | seed
  | generated
  | crashlog
  deriving DecidableEq

/-- `looks_like_call`, for a stripped line. -/
def looksLikeCall (stripped : PyStr) : Bool :=
  40 ∈ stripped && stripped.getLast? = some 41 && !(stripped.head? = some 91)

/-- `looks_like_assignment`. -/
def looksLikeAssignment (stripped : PyStr) : Bool :=
  stripped.head? = some 114 && 61 ∈ stripped && looksLikeCall stripped

/-- The loop of `extract_crashlog_program`, from a point inside or before the block. -/
def crashlogBlock (inBlock : Bool) : List PyStr → List PyStr
  | [] => []
  | line :: rest =>
    if looksLikeCall (strip line) || looksLikeAssignment (strip line) then
      strip line :: crashlogBlock true rest
    else if inBlock && (strip line).isEmpty then []
    else crashlogBlock inBlock rest

/-- `"\n".join`. -/
def joinLines (lines : List PyStr) : PyStr := [10].intercalate lines

/-- `extract_crashlog_program`. -/
def extractCrashlogProgram (raw : PyStr) : PyStr :=
  strip (joinLines (crashlogBlock false (splitLines raw)))

/-- A stripped line that is a comment. -/
def isComment (stripped : PyStr) : Bool :=
  stripped.head? = some 35 || [47, 47].isPrefixOf stripped

/-- The body of the loop of `preprocess_text`. -/
def programLine (line : PyStr) : Option PyStr :=
  if (strip line).isEmpty || isComment (strip line) then none else some (strip line)

/-- The lines that `preprocess_text` collects. -/
def programLines (source : SourceType) (raw : PyStr) : List PyStr :=
  let candidate := if source = .crashlog then extractCrashlogProgram raw else raw
  (splitLines candidate).filterMap programLine

/-- `preprocess_text`. -/
def preprocessText (source : SourceType) (raw : PyStr) : PyStr :=
  let lines := programLines source raw
  if lines.isEmpty then [] else strip (joinLines lines) ++ [10]

/-! ### Stripped texts -/

/-- No white space stands at either end. -/
structure IsTrimmed (text : PyStr) : Prop where
  head : ∀ c ∈ text.head?, isStripped c = false
  last : ∀ c ∈ text.getLast?, isStripped c = false

theorem isTrimmed_strip (text : PyStr) : IsTrimmed (strip text) := by
  have hdrop : ∀ line : PyStr, ∀ c ∈ (line.dropWhile isStripped).head?, isStripped c = false := by
    intro line c hc
    have hall := List.head?_dropWhile_not isStripped line
    rw [Option.mem_def] at hc
    rw [hc] at hall
    simpa using hall
  constructor
  · intro c hc
    have hprefix : strip text <+: text.dropWhile isStripped := by
      rw [strip, ← List.reverse_suffix, List.reverse_reverse]
      exact List.dropWhile_suffix _
    obtain ⟨rest, hrest⟩ := hprefix
    refine hdrop text c ?_
    rw [← hrest]
    cases hstrip : strip text with
    | nil =>
      rw [hstrip] at hc
      cases hc
    | cons first tail => rwa [hstrip] at hc
  · intro c hc
    rw [strip, List.getLast?_reverse] at hc
    exact hdrop _ c hc

theorem dropWhile_eq_self {text : PyStr} (hhead : ∀ c ∈ text.head?, isStripped c = false) :
    text.dropWhile isStripped = text := by
  cases text with
  | nil => rfl
  | cons c rest =>
    rw [List.dropWhile_cons_of_neg]
    rw [hhead c rfl]
    exact Bool.false_ne_true

theorem IsTrimmed.strip_eq {text : PyStr} (htext : IsTrimmed text) : strip text = text := by
  rw [strip, dropWhile_eq_self htext.head, dropWhile_eq_self, List.reverse_reverse]
  rw [List.head?_reverse]
  exact htext.last

theorem mem_text_of_mem_strip {text : PyStr} {c : ℕ} (hc : c ∈ strip text) : c ∈ text := by
  obtain ⟨before, behind, htext, -, -⟩ := exists_strip text
  rw [htext]
  exact List.mem_append_right _ (List.mem_append_left _ hc)

/-! ### Lines -/

/-- A line of a program text. -/
structure IsProgramLine (line : PyStr) : Prop where
  ne_nil : line ≠ []
  trimmed : IsTrimmed line
  unbroken : ∀ c ∈ line, isLineBreak c = false
  notComment : isComment line = false

/-- The program text of some lines. -/
def linesText (lines : List PyStr) : PyStr := lines.flatMap fun line ↦ line ++ [10]

theorem joinLines_cons_cons (line next : PyStr) (rest : List PyStr) :
    joinLines (line :: next :: rest) = line ++ 10 :: joinLines (next :: rest) := by
  rw [joinLines, List.intercalate_cons_cons, List.append_assoc, List.singleton_append]
  rfl

theorem joinLines_append_lineFeed {lines : List PyStr} (hne : lines ≠ []) :
    joinLines lines ++ [10] = linesText lines :=
  Library.TextLines.intercalate_append_feed hne

theorem head?_joinLines {line : PyStr} (hne : line ≠ []) (rest : List PyStr) :
    (joinLines (line :: rest)).head? = line.head? := by
  obtain ⟨c, tail, rfl⟩ := List.exists_cons_of_ne_nil hne
  cases rest with
  | nil => simp [joinLines]
  | cons next rest =>
    rw [joinLines_cons_cons]
    rfl

theorem getLast?_joinLines {lines : List PyStr} {last : PyStr} (hne : last ≠ []) :
    (joinLines (lines ++ [last])).getLast? = last.getLast? := by
  induction lines with
  | nil => simp [joinLines]
  | cons line rest ih =>
    have hcons : ∃ next more, rest ++ [last] = next :: more :=
      List.exists_cons_of_ne_nil (by simp)
    obtain ⟨next, more, heq⟩ := hcons
    have hjoin : joinLines (next :: more) ≠ [] := by
      intro hempty
      rw [heq, hempty, List.getLast?_nil] at ih
      exact hne (List.getLast?_eq_none_iff.mp ih.symm)
    rw [List.cons_append, heq, joinLines_cons_cons, List.getLast?_append_of_ne_nil _
      (List.cons_ne_nil _ _), ← ih, heq]
    obtain ⟨c, tail, hcons⟩ := List.exists_cons_of_ne_nil hjoin
    rw [hcons, List.getLast?_cons_cons]

/-- Stripped lines are stripped when they are joined. -/
theorem strip_joinLines {lines : List PyStr} (hlines : ∀ line ∈ lines, line ≠ [] ∧ IsTrimmed line) :
    strip (joinLines lines) = joinLines lines := by
  rcases List.eq_nil_or_concat lines with rfl | ⟨front, last, hconcat⟩
  · rfl
  · rw [List.concat_eq_append] at hconcat
    obtain ⟨hlast, hlastTrimmed⟩ := hlines last (hconcat ▸ List.mem_append_right _ (by simp))
    refine IsTrimmed.strip_eq ⟨?_, ?_⟩
    · obtain ⟨line, rest, rfl⟩ := List.exists_cons_of_ne_nil
        (show lines ≠ [] by rw [hconcat]; simp)
      obtain ⟨hne, htrimmed⟩ := hlines line List.mem_cons_self
      rw [head?_joinLines hne]
      exact htrimmed.head
    · rw [hconcat, getLast?_joinLines hlast]
      exact hlastTrimmed.last

/-! ### Splitting -/

/-- A split line has no line break inside. -/
theorem unbroken_of_mem_splitLinesFrom {line text found : PyStr}
    (hline : ∀ c ∈ line, isLineBreak c = false) (hfound : found ∈ splitLinesFrom line text) :
    ∀ c ∈ found, isLineBreak c = false := by
  have hnil : ∀ c ∈ ([] : PyStr), isLineBreak c = false := fun _ hc ↦ absurd hc List.not_mem_nil
  fun_induction splitLinesFrom line text with
  | case1 line =>
    exact absurd hfound List.not_mem_nil
  | case2 line _ =>
    rwa [List.mem_singleton.mp hfound]
  | case3 line rest ih =>
    rcases List.mem_cons.mp hfound with rfl | hrest
    · exact hline
    · exact ih hnil hrest
  | case4 line c rest _ _ ih =>
    rcases List.mem_cons.mp hfound with rfl | hrest
    · exact hline
    · exact ih hnil hrest
  | case5 line c rest _ hbreak ih =>
    refine ih (fun d hd ↦ ?_) hfound
    rcases List.mem_append.mp hd with hd | hd
    · exact hline d hd
    · rw [List.mem_singleton.mp hd]
      exact Bool.eq_false_of_not_eq_true hbreak

theorem unbroken_of_mem_splitLines {text found : PyStr} (hfound : found ∈ splitLines text) :
    ∀ c ∈ found, isLineBreak c = false :=
  unbroken_of_mem_splitLinesFrom (fun _ hc ↦ absurd hc List.not_mem_nil) hfound

theorem isProgramLine_of_programLine {line found : PyStr}
    (hline : ∀ c ∈ line, isLineBreak c = false) (hfound : programLine line = some found) :
    found = strip line ∧ IsProgramLine found := by
  rw [programLine] at hfound
  split_ifs at hfound with htest
  obtain rfl := Option.some.inj hfound
  rw [Bool.or_eq_true, not_or, Bool.not_eq_true, Bool.not_eq_true, List.isEmpty_eq_false_iff]
    at htest
  exact ⟨rfl, htest.1, isTrimmed_strip line, fun c hc ↦ hline c (mem_text_of_mem_strip hc),
    htest.2⟩

theorem isProgramLine_of_mem {source : SourceType} {raw line : PyStr}
    (hline : line ∈ programLines source raw) : IsProgramLine line := by
  obtain ⟨found, hfound, hprogram⟩ := List.mem_filterMap.mp hline
  exact (isProgramLine_of_programLine (unbroken_of_mem_splitLines hfound) hprogram).2

/-- What is prepared is the text of its lines. -/
theorem preprocessText_eq (source : SourceType) (raw : PyStr) :
    preprocessText source raw = linesText (programLines source raw) := by
  have htrimmed : ∀ line ∈ programLines source raw, line ≠ [] ∧ IsTrimmed line := fun line hline ↦
    ⟨(isProgramLine_of_mem hline).ne_nil, (isProgramLine_of_mem hline).trimmed⟩
  rw [preprocessText, strip_joinLines htrimmed]
  split_ifs with hempty
  · rw [List.isEmpty_iff.mp hempty]
    rfl
  · exact joinLines_append_lineFeed fun hnil ↦ hempty (List.isEmpty_iff.mpr hnil)

theorem of_mem_crashlogBlock {inBlock : Bool} {lines : List PyStr} {found : PyStr}
    (hfound : found ∈ crashlogBlock inBlock lines) :
    ∃ line ∈ lines, found = strip line ∧ looksLikeCall found = true := by
  induction lines generalizing inBlock with
  | nil => cases hfound
  | cons line rest ih =>
    have hlift : ∀ {flag : Bool}, found ∈ crashlogBlock flag rest →
        ∃ other ∈ line :: rest, found = strip other ∧ looksLikeCall found = true := fun hrest ↦
      have ⟨other, hother, hspec⟩ := ih hrest
      ⟨other, List.mem_cons_of_mem line hother, hspec⟩
    rw [crashlogBlock] at hfound
    split_ifs at hfound with hcall hend
    · rcases List.mem_cons.mp hfound with rfl | hrest
      · refine ⟨line, List.mem_cons_self, rfl, ?_⟩
        rcases Bool.or_eq_true_iff.mp hcall with hcall | hassignment
        · exact hcall
        · exact (Bool.and_eq_true_iff.mp hassignment).2
      · exact hlift hrest
    · cases hfound
    · exact hlift hfound

/-- The characters of a split line stand in the text. -/
theorem mem_text_of_mem_splitLinesFrom {line text found : PyStr} {c : ℕ}
    (hfound : found ∈ splitLinesFrom line text) (hc : c ∈ found) : c ∈ line ∨ c ∈ text := by
  have hskip : ∀ {d : ℕ} {rest : PyStr}, c ∈ ([] : PyStr) ∨ c ∈ rest → c ∈ d :: rest := fun h ↦
    List.mem_cons_of_mem _ (h.resolve_left List.not_mem_nil)
  fun_induction splitLinesFrom line text with
  | case1 line =>
    exact absurd hfound List.not_mem_nil
  | case2 line _ =>
    exact .inl (List.mem_singleton.mp hfound ▸ hc)
  | case3 line rest ih =>
    rcases List.mem_cons.mp hfound with rfl | hrest
    · exact .inl hc
    · exact .inr (List.mem_cons_of_mem _ (hskip (ih hrest)))
  | case4 line d rest _ _ ih =>
    rcases List.mem_cons.mp hfound with rfl | hrest
    · exact .inl hc
    · exact .inr (hskip (ih hrest))
  | case5 line d rest _ _ ih =>
    rcases ih hfound with hline | hrest
    · rcases List.mem_append.mp hline with hline | hd
      · exact .inl hline
      · exact .inr (List.mem_singleton.mp hd ▸ List.mem_cons_self)
    · exact .inr (List.mem_cons_of_mem d hrest)

theorem mem_text_of_mem_splitLines {text found : PyStr} {c : ℕ} (hfound : found ∈ splitLines text)
    (hc : c ∈ found) : c ∈ text :=
  (mem_text_of_mem_splitLinesFrom hfound hc).resolve_left List.not_mem_nil

theorem mem_joinLines {lines : List PyStr} {c : ℕ} (hc : c ∈ joinLines lines) :
    c = 10 ∨ ∃ line ∈ lines, c ∈ line := by
  induction lines with
  | nil => exact absurd hc (by simp [joinLines])
  | cons line rest ih =>
    have hlift : (c = 10 ∨ ∃ other ∈ rest, c ∈ other) →
        c = 10 ∨ ∃ other ∈ line :: rest, c ∈ other :=
      Or.imp_right fun ⟨other, hother, hmem⟩ ↦ ⟨other, List.mem_cons_of_mem line hother, hmem⟩
    cases rest with
    | nil => exact .inr ⟨line, List.mem_cons_self, by simpa [joinLines] using hc⟩
    | cons next rest =>
      rw [joinLines_cons_cons] at hc
      rcases List.mem_append.mp hc with hline | hrest
      · exact .inr ⟨line, List.mem_cons_self, hline⟩
      · rcases List.mem_cons.mp hrest with hfeed | hmore
        · exact .inl hfeed
        · exact hlift (ih hmore)

/-- The characters of what is prepared stand in the input, line feeds apart. -/
theorem mem_raw_of_mem_preprocessText {source : SourceType} {raw : PyStr} {c : ℕ}
    (hc : c ∈ preprocessText source raw) : c = 10 ∨ c ∈ raw ∧ isLineBreak c = false := by
  rw [preprocessText_eq] at hc
  obtain ⟨line, hline, hmem⟩ := List.mem_flatMap.mp hc
  rcases List.mem_append.mp hmem with hmem | hfeed
  · have hunbroken := (isProgramLine_of_mem hline).unbroken c hmem
    refine .inr ⟨?_, hunbroken⟩
    have hne : c ≠ 10 := by
      rintro rfl
      exact absurd hunbroken (by decide)
    obtain ⟨whole, hwhole, hprogram⟩ := List.mem_filterMap.mp hline
    obtain ⟨rfl, -⟩ := isProgramLine_of_programLine (unbroken_of_mem_splitLines hwhole) hprogram
    have hcandidate := mem_text_of_mem_splitLines hwhole (mem_text_of_mem_strip hmem)
    split_ifs at hcandidate with hsource
    · obtain hfeed | ⟨found, hfound, hmem⟩ := mem_joinLines (mem_text_of_mem_strip hcandidate)
      · exact absurd hfeed hne
      · obtain ⟨other, hother, rfl, -⟩ := of_mem_crashlogBlock hfound
        exact mem_text_of_mem_splitLines hother (mem_text_of_mem_strip hmem)
    · exact hcandidate
  · exact .inl (List.mem_singleton.mp hfeed)

end SyzAbi.Tools.ImportSyz

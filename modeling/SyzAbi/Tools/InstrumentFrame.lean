import SyzAbi.Library.TextLines
import SyzAbi.Tools.InstrumentSource

/-!
# What instrumentation changes

A source splits at statements that call `syscall` into these and the texts around them (`Split`).
The first loop finds the statements of every split whose texts call `syscall` nowhere
(`finds_turns`), and its calls always belong to a split (`splitFrom_findCalls`), so there is one
such split at most. The second loop puts the line prefix of a call before its replacement, after the
parts have brought it already (`splice_calls`); the lengths tell this output from the one without
the line prefixes (`output_of_outputBehind`). When no raw call is left, the texts of a split that
yields the output call `syscall` nowhere (`hasRawCall_of_outputBehind`), so no other split explains
it either.
-/

set_option autoImplicit false
set_option relaxedAutoImplicit false

namespace SyzAbi.Tools

open Analyzer Orchestrator Library.Json Library.Search Library.Fallible Library.TextLines

/-! ### Splits of a source -/

/-- A text behind some open parentheses closes all of them, and only those and its own. -/
structure Closes (depth : ℕ) (text : PyStr) : Prop where
  count_le : ∀ before, before <+: text → before.count 41 ≤ depth + before.count 40
  count_eq : text.count 41 = depth + text.count 40

instance (depth : ℕ) (text : PyStr) : Decidable (Closes depth text) :=
  decidable_of_iff ((∀ before ∈ text.inits, before.count 41 ≤ depth + before.count 40) ∧
      text.count 41 = depth + text.count 40)
    ⟨fun h ↦ ⟨fun before hbefore ↦ h.1 before ((List.mem_inits _ _).mpr hbefore), h.2⟩,
      fun h ↦ ⟨fun before hbefore ↦ h.count_le before ((List.mem_inits _ _).mp hbefore),
        h.count_eq⟩⟩

/-- A statement that calls `syscall`. -/
structure SourceCall where
  body : PyStr
  blanks : PyStr
  balanced : Closes 0 body
  blank : ∀ c ∈ blanks, isBlank c = true

def SourceCall.text (call : SourceCall) : PyStr :=
  callOpen ++ (call.body ++ 41 :: (call.blanks ++ [59]))

/-- The statements of a text, each with the text before it. -/
abbrev Turns := List (PyStr × SourceCall)

def Turns.text (turns : Turns) : PyStr := turns.flatMap fun turn ↦ turn.1 ++ turn.2.text

/-- The text with the statements replaced and nothing else changed. -/
def Turns.output (turns : Turns) (closing : PyStr) (index : ℕ) : Except PyError PyStr :=
  match turns with
  | [] => .ok closing
  | (text, call) :: rest => do
    let replaced ← tracedCall index call.body
    let behind ← Turns.output rest closing (index + 1)
    return text ++ replaced ++ behind

/-- What stands before each statement has a property. -/
def EachCall (property : PyStr → Prop) (before : PyStr) : Turns → Prop
  | [] => True
  | (text, call) :: rest =>
    property (before ++ text) ∧ EachCall property (before ++ text ++ call.text) rest

/-- A text that does not end inside a word. -/
def EndsWord (unicodeAlnum : ℕ → Bool) (text : PyStr) : Prop :=
  ∀ c ∈ text.getLast?, isWordChar unicodeAlnum c = false

/-- A split of a source at statements that call `syscall`. -/
structure Split (unicodeAlnum : ℕ → Bool) (source : PyStr) where
  turns : Turns
  closing : PyStr
  source_eq : turns.text ++ closing = source
  words : EachCall (EndsWord unicodeAlnum) [] turns

/-- Nothing but the statements changes: the output is the source behind `inject_header` with each of
the statements replaced. What `inject_header` does itself is `exists_injectHeader_eq`: it writes
every line break as a line feed, puts one behind the last line, and inserts the include line. -/
def OnlyCallsChange (unicodeAlnum : ℕ → Bool) (source output : PyStr) (count : ℕ) : Prop :=
  ∃ split : Split unicodeAlnum (injectHeader source), split.turns.length = count ∧
    split.turns.output split.closing 0 = .ok output

/-- The texts between the statements call `syscall` nowhere. -/
def Split.Complete {unicodeAlnum : ℕ → Bool} {source : PyStr} (split : Split unicodeAlnum source) :
    Prop :=
  (∀ turn ∈ split.turns, hasRawCall unicodeAlnum turn.1 = false) ∧
    hasRawCall unicodeAlnum split.closing = false

/-- Every statement that calls `syscall` stands at the head of a line. -/
def CallsHeadLines (unicodeAlnum : ℕ → Bool) (source : PyStr) : Prop :=
  ∀ split : Split unicodeAlnum (injectHeader source), split.Complete →
    EachCall (fun before ↦ linePrefix before = []) [] split.turns

/-! ### The include line -/

/-- The text with a line feed in the place of every line break. -/
def lineFeeds : PyStr → PyStr
  | [] => []
  | 0x0D :: 0x0A :: rest => 10 :: lineFeeds rest
  | c :: rest => (if isLineBreak c then 10 else c) :: lineFeeds rest

/-- The text with a line feed behind its last line. -/
def endLine (text : PyStr) : PyStr :=
  if ∀ c ∈ text.getLast?, c = 10 then text else text ++ [10]

theorem endLine_append (before rest : PyStr) :
    endLine (before ++ 10 :: rest) = before ++ 10 :: endLine rest := by
  rcases List.eq_nil_or_concat rest with rfl | ⟨init, last, rfl⟩
  · simp [endLine]
  · rw [List.concat_eq_append, endLine, endLine, ← List.cons_append, ← List.append_assoc,
      List.getLast?_concat, List.getLast?_concat]
    split_ifs
    · simp only [List.append_assoc, List.cons_append]
    · simp only [List.append_assoc, List.cons_append]

theorem lineFeeds_cons {c : ℕ} {rest : PyStr}
    (hpair : ∀ more, c = 13 → rest = 10 :: more → False) :
    lineFeeds (c :: rest) = (if isLineBreak c then 10 else c) :: lineFeeds rest := by
  rw [lineFeeds]
  exact hpair

theorem splitLinesFrom_cons {line : PyStr} {c : ℕ} {rest : PyStr}
    (hpair : ∀ more, c = 13 → rest = 10 :: more → False) :
    splitLinesFrom line (c :: rest) =
      if isLineBreak c then line :: splitLinesFrom [] rest
      else splitLinesFrom (line ++ [c]) rest := by
  rw [splitLinesFrom]
  exact hpair

/-- The lines of a text, each with a line feed, are the text with line feeds. -/
theorem unlines_splitLinesFrom {line text : PyStr} (hline : ∀ c ∈ line, isLineBreak c = false) :
    unlines (splitLinesFrom line text) = endLine (line ++ lineFeeds text) := by
  have hnil : ∀ c ∈ ([] : PyStr), isLineBreak c = false := fun _ hc ↦ absurd hc List.not_mem_nil
  induction line, text using splitLinesFrom.induct with
  | case1 line hempty =>
    rw [splitLinesFrom, if_pos hempty, List.isEmpty_iff.mp hempty]
    rfl
  | case2 line hempty =>
    have hopen : ¬∀ c ∈ line.getLast?, c = 10 := by
      intro hlast
      obtain ⟨c, hc⟩ := Option.ne_none_iff_exists'.mp
        (mt List.getLast?_eq_none_iff.mp (mt List.isEmpty_iff.mpr hempty))
      have hbreak := hline c (List.mem_of_getLast? hc)
      rw [hlast c hc] at hbreak
      exact absurd hbreak (by decide)
    rw [splitLinesFrom, if_neg hempty, lineFeeds, List.append_nil, endLine, if_neg hopen,
      unlines_cons]
    rfl
  | case3 line rest ih =>
    rw [splitLinesFrom, unlines_cons, ih hnil, List.nil_append, lineFeeds, endLine_append]
  | case4 line c rest hpair hbreak ih =>
    rw [splitLinesFrom_cons hpair, if_pos hbreak, unlines_cons, ih hnil, List.nil_append,
      lineFeeds_cons hpair, if_pos hbreak, endLine_append]
  | case5 line c rest hpair hbreak ih =>
    have hnext : ∀ d ∈ line ++ [c], isLineBreak d = false := by
      intro d hd
      rcases List.mem_append.mp hd with hd | hd
      · exact hline d hd
      · rw [List.mem_singleton.mp hd]
        exact Bool.eq_false_of_not_eq_true hbreak
    rw [splitLinesFrom_cons hpair, if_neg hbreak, ih hnext, lineFeeds_cons hpair, if_neg hbreak,
      List.append_assoc, List.singleton_append]

/-- `insert_at` stands behind the last include line. -/
theorem exists_insertAt (lines : List PyStr) :
    ∃ before behind, lines = before ++ behind ∧ insertAt lines = before.length ∧
      ∀ line ∈ behind, ¬PyStr.ofString "#include" <+: line := by
  induction lines using List.reverseRecOn with
  | nil => exact ⟨[], [], rfl, rfl, fun _ hline ↦ absurd hline List.not_mem_nil⟩
  | append_singleton lines line ih =>
    have hstep : insertAt (lines ++ [line]) =
        if (PyStr.ofString "#include").isPrefixOf line then lines.length + 1
        else insertAt lines := by
      rw [insertAt, List.zipIdx_append, List.foldl_append, Nat.zero_add]
      rfl
    rw [hstep]
    split_ifs with hinclude
    · exact ⟨lines ++ [line], [], (List.append_nil _).symm, by rw [List.length_append]; rfl,
        fun _ hline ↦ absurd hline List.not_mem_nil⟩
    · obtain ⟨before, behind, rfl, hlength, hbehind⟩ := ih
      refine ⟨before, behind ++ [line], List.append_assoc .., hlength, fun other hother ↦ ?_⟩
      rcases List.mem_append.mp hother with hother | hother
      · exact hbehind other hother
      · rw [List.mem_singleton.mp hother]
        exact mt List.isPrefixOf_iff_prefix.mpr hinclude

/-- `inject_header` writes every line break as a line feed, puts one behind the last line, and
inserts the include line between two lines, behind all include lines. -/
theorem exists_injectHeader_eq (source : PyStr) :
    ∃ before behind : List PyStr, unlines (before ++ behind) = endLine (lineFeeds source) ∧
      injectHeader source = unlines before ++ (includeLine ++ 10 :: unlines behind) ∧
      ∀ line ∈ behind, ¬PyStr.ofString "#include" <+: line := by
  obtain ⟨before, behind, hlines, hlength, hbehind⟩ := exists_insertAt (splitLines source)
  have hinserted : (before ++ behind).insertIdx before.length includeLine =
      before ++ includeLine :: behind := by
    clear hlines hlength
    induction before with
    | nil => exact List.insertIdx_zero
    | cons line before ih =>
      rw [List.cons_append, List.length_cons, List.insertIdx_succ_cons, ih]
      rfl
  refine ⟨before, behind, ?_, ?_, hbehind⟩
  · rw [← hlines, splitLines, unlines_splitLinesFrom fun _ hc ↦ absurd hc List.not_mem_nil,
      List.nil_append]
  · show [10].intercalate ((splitLines source).insertIdx _ includeLine) ++ [10] = _
    rw [hlength, hlines, hinserted, intercalate_append_feed (by simp), unlines_append,
      unlines_cons]

theorem lineFeeds_of_lineFeeds {text : PyStr}
    (hbreaks : ∀ c ∈ text, isLineBreak c = true → c = 10) : lineFeeds text = text := by
  fun_induction lineFeeds text with
  | case1 => rfl
  | case2 rest ih => exact absurd (hbreaks 13 List.mem_cons_self (by decide)) (by decide)
  | case3 c rest hpair ih =>
    rw [ih fun d hd ↦ hbreaks d (List.mem_cons_of_mem c hd)]
    split_ifs with hbreak
    · rw [hbreaks c List.mem_cons_self hbreak]
    · rfl

/-- In a source whose line breaks are line feeds and whose last line has one, nothing but the
include line is new. -/
theorem exists_injectHeader_eq_of_lineFeeds {source : PyStr}
    (hbreaks : ∀ c ∈ source, isLineBreak c = true → c = 10)
    (hlast : ∀ c ∈ source.getLast?, c = 10) :
    ∃ before behind, source = before ++ behind ∧
      injectHeader source = before ++ (includeLine ++ 10 :: behind) := by
  obtain ⟨before, behind, hsource, hinjected, -⟩ := exists_injectHeader_eq source
  rw [lineFeeds_of_lineFeeds hbreaks, endLine, if_pos hlast, unlines_append] at hsource
  exact ⟨unlines before, unlines behind, hsource.symm, hinjected⟩

/-! ### Parentheses -/

theorem closes_nil {depth : ℕ} : Closes depth [] ↔ depth = 0 :=
  ⟨fun h ↦ by simpa using h.count_eq.symm, fun h ↦ ⟨fun before hbefore ↦ by
    rw [List.prefix_nil.mp hbefore]
    exact Nat.zero_le _, by simp [h]⟩⟩

/-- The parentheses behind the first character, whatever it does to those that are open. -/
theorem closes_cons_iff {c depth next : ℕ} {text : PyStr}
    (hcount : depth + [c].count 40 = next + [c].count 41) :
    Closes depth (c :: text) ↔ Closes next text := by
  have hopen : ∀ before : PyStr, (c :: before).count 40 = [c].count 40 + before.count 40 :=
    fun before ↦ @List.count_append _ _ 40 [c] before
  have hclose : ∀ before : PyStr, (c :: before).count 41 = [c].count 41 + before.count 41 :=
    fun before ↦ @List.count_append _ _ 41 [c] before
  constructor
  · intro h
    refine ⟨fun before hbefore ↦ ?_, ?_⟩
    · have hle := h.count_le (c :: before) (List.cons_prefix_cons.mpr ⟨rfl, hbefore⟩)
      rw [hopen, hclose] at hle
      omega
    · have heq := h.count_eq
      rw [hopen, hclose] at heq
      omega
  · intro h
    refine ⟨fun before hbefore ↦ ?_, ?_⟩
    · rcases List.prefix_cons_iff.mp hbefore with rfl | ⟨more, rfl, hmore⟩
      · exact Nat.zero_le _
      · have hle := h.count_le more hmore
        rw [hopen, hclose]
        omega
    · have heq := h.count_eq
      rw [hopen, hclose]
      omega

theorem not_closes_zero_cons (text : PyStr) : ¬Closes 0 (41 :: text) := by
  intro h
  exact absurd (h.count_le [41] (List.cons_prefix_cons.mpr ⟨rfl, List.nil_prefix⟩)) (by decide)

/-- The turn of the loop at a character, with the parentheses open behind it. -/
theorem skipToClose_cons {c depth next : ℕ} {text : PyStr}
    (hcount : depth + [c].count 40 = next + [c].count 41) :
    skipToClose (depth + 1) (c :: text) = 1 + skipToClose (next + 1) text := by
  rw [skipToClose]
  by_cases hopen : c = 40
  · rw [if_pos hopen]
    rw [hopen] at hcount
    rw [show depth + 2 = next + 1 from congrArg Nat.succ hcount]
  · rw [if_neg hopen]
    by_cases hclose : c = 41
    · rw [if_pos hclose]
      rw [hclose] at hcount
      rw [show depth = next + 1 from hcount]
    · rw [if_neg hclose]
      rw [List.count_singleton, List.count_singleton] at hcount
      simp only [beq_iff_eq, hopen, hclose, if_false, Nat.add_zero] at hcount
      rw [hcount]

/-- Every character but a closing parenthesis that closes the call leaves some number of them
open. -/
theorem exists_next (c depth : ℕ) (hopen : c = 41 → depth ≠ 0) :
    ∃ next, depth + [c].count 40 = next + [c].count 41 := by
  by_cases hclose : c = 41
  · obtain ⟨next, rfl⟩ := Nat.exists_eq_succ_of_ne_zero (hopen hclose)
    exact ⟨next, by rw [hclose]; rfl⟩
  · refine ⟨depth + [c].count 40, ?_⟩
    rw [List.count_singleton (a := 41)]
    simp [hclose]

/-- The loop over `paren_depth` stops behind the parenthesis that closes the call. -/
theorem skipToClose_body {depth : ℕ} {body : PyStr} (hbody : Closes depth body) (rest : PyStr) :
    skipToClose (depth + 1) (body ++ 41 :: rest) = body.length + 1 := by
  induction body generalizing depth with
  | nil =>
    rw [closes_nil.mp hbody, List.nil_append, skipToClose]
    cases rest <;> rfl
  | cons c body ih =>
    obtain ⟨next, hnext⟩ := exists_next c depth (by
      rintro rfl rfl
      exact not_closes_zero_cons body hbody)
    rw [List.cons_append, skipToClose_cons hnext, ih ((closes_cons_iff hnext).mp hbody),
      List.length_cons]
    omega

/-- When the call is not closed the loop takes the whole text. -/
theorem skipToClose_cases (depth : ℕ) (text : PyStr) :
    skipToClose (depth + 1) text = text.length ∨
      ∃ body rest, text = body ++ 41 :: rest ∧ Closes depth body := by
  induction text generalizing depth with
  | nil => exact .inl rfl
  | cons c text ih =>
    by_cases hlast : c = 41 ∧ depth = 0
    · obtain ⟨rfl, rfl⟩ := hlast
      exact .inr ⟨[], text, rfl, closes_nil.mpr rfl⟩
    · obtain ⟨next, hnext⟩ := exists_next c depth fun hc hdepth ↦ hlast ⟨hc, hdepth⟩
      rcases ih next with hall | ⟨body, rest, rfl, hbody⟩
      · left
        rw [skipToClose_cons hnext, hall, List.length_cons, Nat.add_comm]
      · exact .inr ⟨c :: body, rest, rfl, (closes_cons_iff hnext).mpr hbody⟩

/-! ### Raw calls -/

section Table

variable {unicodeAlnum : ℕ → Bool}

/-- A raw call is one in every longer text that does not continue a word. -/
theorem rawCallAt_append {before text : PyStr} (after : PyStr) {index : ℕ}
    (hbefore : EndsWord unicodeAlnum before) (hraw : rawCallAt unicodeAlnum text index = true) :
    rawCallAt unicodeAlnum (before ++ (text ++ after)) (before.length + index) = true := by
  rw [rawCallAt, Bool.and_eq_true, Bool.and_eq_true] at hraw ⊢
  obtain ⟨⟨hword, hname⟩, hparen⟩ := hraw
  have hname' := List.isPrefixOf_iff_prefix.mp hname
  have hindex : index < text.length := by
    by_contra hge
    rw [List.drop_of_length_le (by omega), List.prefix_nil] at hname'
    exact absurd hname' (by decide)
  refine ⟨⟨?_, ?_⟩, ?_⟩
  · cases index with
    | zero =>
      rcases List.eq_nil_or_concat before with rfl | ⟨init, last, rfl⟩
      · rfl
      · have hlast := hbefore last (by simp)
        simp [hlast]
    | succ index =>
      have hsame : (before ++ (text ++ after))[before.length + (index + 1) - 1]? =
          text[index + 1 - 1]? := by
        rw [List.getElem?_append_right (by omega), List.getElem?_append_left (by omega)]
        congr 1
        omega
      rw [hsame]
      simpa using hword
  · rw [List.drop_append, List.drop_of_length_le (by omega), List.nil_append,
      Nat.add_sub_cancel_left, List.drop_append_of_le_length hindex.le]
    exact List.isPrefixOf_iff_prefix.mpr (hname'.trans (List.prefix_append _ _))
  · have hlong : index + 7 ≤ text.length := by
      have hlength := hname'.length_le
      rw [List.length_drop] at hlength
      have hseven : (PyStr.ofString "syscall").length = 7 := by decide
      omega
    rw [Nat.add_assoc, List.drop_append, List.drop_of_length_le (by omega), List.nil_append,
      Nat.add_sub_cancel_left, List.drop_append_of_le_length hlong, List.dropWhile_append]
    have hhead := of_decide_eq_true hparen
    have hnonempty : ((text.drop (index + 7)).dropWhile isStripped).isEmpty = false := by
      cases hdropped : (text.drop (index + 7)).dropWhile isStripped with
      | nil =>
        rw [hdropped] at hhead
        cases hhead
      | cons c rest => rfl
    rw [hnonempty, if_neg Bool.false_ne_true, List.head?_append, hhead]
    rfl

/-- A part of a text without raw calls has none. -/
theorem hasRawCall_part {before text after : PyStr} (hbefore : EndsWord unicodeAlnum before)
    (hraw : hasRawCall unicodeAlnum (before ++ (text ++ after)) = false) :
    hasRawCall unicodeAlnum text = false := by
  rw [Bool.eq_false_iff] at hraw ⊢
  intro hpart
  obtain ⟨index, hindex, hat⟩ := List.any_eq_true.mp hpart
  refine hraw (List.any_eq_true.mpr ⟨before.length + index, ?_, rawCallAt_append after hbefore hat⟩)
  rw [List.mem_range] at hindex ⊢
  simp only [List.length_append]
  omega

theorem unbordered_callOpen : Unbordered callOpen := by decide

/-- An occurrence of the pattern that does not continue a word is a raw call. -/
theorem rawCallAt_of_callOpen {text : PyStr} {index : ℕ} (hstarts : callOpen <+: text.drop index)
    (hword : index = 0 ∨ (text[index - 1]?.any (isWordChar unicodeAlnum)) = false) :
    rawCallAt unicodeAlnum text index = true := by
  have hname : PyStr.ofString "syscall" <+: callOpen := ⟨[40], by decide⟩
  obtain ⟨rest, hrest⟩ := hstarts
  have hbehind : text.drop (index + 7) = 40 :: rest := by
    rw [← List.drop_drop, ← hrest]
    rfl
  rw [rawCallAt, hbehind, List.isPrefixOf_iff_prefix.mpr (hname.trans ⟨rest, hrest⟩)]
  rcases hword with rfl | hword
  · rfl
  · rw [hword]
    simp [isStripped]

/-! ### The first loop -/

/-- With enough turns the first loop finds these calls from an index on. -/
def Finds (unicodeAlnum : ℕ → Bool) (source : PyStr) (index : ℕ) (calls : List Call) : Prop :=
  ∀ fuel, source.length < fuel + index → findCalls unicodeAlnum source fuel index = calls

theorem Finds.fuel {source : PyStr} {index : ℕ} {calls : List Call} (hindex : index ≤ source.length)
    (hfinds : ∀ fuel, source.length < fuel + 1 + index →
      findCalls unicodeAlnum source (fuel + 1) index = calls) :
    Finds unicodeAlnum source index calls := by
  intro fuel hfuel
  obtain ⟨less, rfl⟩ : ∃ less, fuel = less + 1 := ⟨fuel - 1, by omega⟩
  exact hfinds less hfuel

/-- What the loop does depends on where it finds the pattern. -/
theorem findCalls_congr {source : PyStr} {first second : ℕ} (fuel : ℕ)
    (hfind : findFrom callOpen source first = findFrom callOpen source second) :
    findCalls unicodeAlnum source fuel first = findCalls unicodeAlnum source fuel second := by
  cases fuel with
  | zero => rfl
  | succ fuel => rw [findCalls, findCalls, hfind]

theorem finds_end (source : PyStr) : Finds unicodeAlnum source source.length [] := by
  refine Finds.fuel le_rfl fun fuel _ ↦ ?_
  have hnone : findFrom callOpen source source.length = none := by
    rw [findFrom, List.drop_length]
    rfl
  rw [findCalls, hnone]

/-- The loop goes past a character where no call starts. -/
theorem Finds.skip {source : PyStr} {index : ℕ} {calls : List Call} (hindex : index < source.length)
    (hno : callOpen <+: source.drop index →
      0 < index ∧ (source[index - 1]?.any (isWordChar unicodeAlnum)) = true)
    (hfinds : Finds unicodeAlnum source (index + 1) calls) :
    Finds unicodeAlnum source index calls := by
  refine Finds.fuel hindex.le fun fuel hfuel ↦ ?_
  by_cases hstarts : callOpen <+: source.drop index
  · have hfound : findFrom callOpen source index = some index := by
      rw [findFrom, find_of_isPrefix hstarts]
      rfl
    rw [findCalls, hfound]
    dsimp only
    rw [if_pos (hno hstarts)]
    exact hfinds fuel (by omega)
  · rw [findCalls_congr (fuel + 1) (findFrom_succ hindex hstarts)]
    exact hfinds (fuel + 1) (by omega)

/-- The loop goes past a text without raw calls. -/
theorem Finds.text {before text rest : PyStr} {calls : List Call}
    (hrest : rest = [] ∨ callOpen <+: rest) (hraw : hasRawCall unicodeAlnum text = false)
    (hfinds : Finds unicodeAlnum (before ++ (text ++ rest)) (before.length + text.length) calls) :
    Finds unicodeAlnum (before ++ (text ++ rest)) before.length calls := by
  have hback : ∀ left index, index + left = text.length →
      Finds unicodeAlnum (before ++ (text ++ rest)) (before.length + index) calls := by
    intro left
    induction left with
    | zero =>
      rintro index rfl
      exact hfinds
    | succ left ih =>
      intro index hindex
      refine Finds.skip ?_ ?_ (ih (index + 1) (by omega))
      · simp only [List.length_append]
        omega
      · intro hstarts
        have hdrop : (before ++ (text ++ rest)).drop (before.length + index) =
            text.drop index ++ rest := by
          rw [← List.drop_drop, List.drop_left, List.drop_append_of_le_length (by omega)]
        have hnonempty : text.drop index ≠ [] := by
          rw [Ne, List.drop_eq_nil_iff]
          omega
        rw [hdrop] at hstarts
        have hcut : rest <+: callOpen ∨ callOpen <+: rest :=
          hrest.imp_left fun hnil : rest = [] ↦ hnil ▸ List.nil_prefix
        have hcall := unbordered_callOpen.prefix_of_append hnonempty hcut hstarts
        have hnot : ¬(index = 0 ∨ (text[index - 1]?.any (isWordChar unicodeAlnum)) = false) := by
          intro hword
          refine absurd hraw (Bool.not_eq_false _ ▸ List.any_eq_true.mpr
            ⟨index, List.mem_range.mpr (by omega), rawCallAt_of_callOpen hcall hword⟩)
        rw [not_or, Bool.not_eq_false] at hnot
        refine ⟨by omega, ?_⟩
        have hsame : (before ++ (text ++ rest))[before.length + index - 1]? = text[index - 1]? := by
          rw [List.getElem?_append_right (by omega), List.getElem?_append_left (by omega)]
          congr 1
          omega
        rw [hsame]
        exact hnot.2
  exact hback text.length 0 (Nat.zero_add _)

theorem findFrom_callOpen (before behind : PyStr) :
    findFrom callOpen (before ++ (callOpen ++ behind)) before.length = some before.length := by
  rw [findFrom_append, find_of_isPrefix (List.prefix_append _ _)]
  rfl

theorem not_word_of_endsWord {before : PyStr} (hbefore : EndsWord unicodeAlnum before)
    (rest : PyStr) : ¬(0 < before.length ∧
      ((before ++ rest)[before.length - 1]?.any (isWordChar unicodeAlnum)) = true) := by
  rintro ⟨hpos, hword⟩
  rw [List.getElem?_append_left (by omega), ← List.getLast?_eq_getElem?] at hword
  cases hlast : before.getLast? with
  | none =>
    rw [hlast] at hword
    cases hword
  | some c =>
    rw [hlast, Option.any_some, hbefore c hlast] at hword
    cases hword

theorem getElem?_behind_close (before body tail : PyStr) (index : ℕ) :
    (before ++ (callOpen ++ (body ++ 41 :: tail)))[
      before.length + callOpen.length + (body.length + 1) + index]? = tail[index]? := by
  rw [Nat.add_assoc, Nat.add_assoc, List.getElem?_append_right (by omega),
    Nat.add_sub_cancel_left, List.getElem?_append_right (by omega), Nat.add_sub_cancel_left,
    List.getElem?_append_right (by omega), Nat.add_assoc, Nat.add_sub_cancel_left, Nat.add_comm 1,
    List.getElem?_cons_succ]

/-- The turn of the loop at a call whose parentheses are closed. -/
theorem findCalls_closed {before body : PyStr} (hbefore : EndsWord unicodeAlnum before)
    (hbody : Closes 0 body) (tail : PyStr) (fuel : ℕ) :
    let source := before ++ (callOpen ++ (body ++ 41 :: tail))
    let close := before.length + callOpen.length + (body.length + 1)
    let semicolon := close + (tail.takeWhile isBlank).length
    findCalls unicodeAlnum source (fuel + 1) before.length =
      if source[semicolon]? = some 59 then
        { start := before.length
          stop := semicolon + 1
          linePrefix := linePrefix before
          body := body } :: findCalls unicodeAlnum source fuel (semicolon + 1)
      else findCalls unicodeAlnum source fuel close := by
  intro source close semicolon
  have hopen : source.drop (before.length + callOpen.length) = body ++ 41 :: tail := by
    rw [← List.drop_drop, List.drop_left, List.drop_left]
  have hclose : source.drop close = tail := by
    rw [← List.drop_drop, hopen, ← List.drop_drop, List.drop_left, List.drop_one, List.tail_cons]
  have hslice : slice source (before.length + callOpen.length) (close - 1) = body := by
    rw [slice, hopen, show close - 1 - (before.length + callOpen.length) = body.length by omega,
      List.take_left]
  rw [findCalls, findFrom_callOpen]
  dsimp only
  rw [if_neg (not_word_of_endsWord hbefore _), hopen, skipToClose_body hbody, hclose,
    List.take_left, hslice]

/-- The call that the loop keeps for a statement. -/
def SourceCall.call (call : SourceCall) (before : PyStr) : Call where
  start := before.length
  stop := (before ++ call.text).length
  linePrefix := linePrefix before
  body := call.body

/-- The loop takes a statement that calls `syscall` as a whole. -/
theorem findCalls_statement {before : PyStr} (hbefore : EndsWord unicodeAlnum before)
    (call : SourceCall) (after : PyStr) (fuel : ℕ) :
    findCalls unicodeAlnum (before ++ (call.text ++ after)) (fuel + 1) before.length =
      call.call before ::
        findCalls unicodeAlnum (before ++ (call.text ++ after)) fuel
          (before ++ call.text).length := by
  have hsource : before ++ (call.text ++ after) =
      before ++ (callOpen ++ (call.body ++ 41 :: (call.blanks ++ 59 :: after))) := by
    rw [SourceCall.text]
    simp
  have hblanks : (call.blanks ++ 59 :: after).takeWhile isBlank = call.blanks := by
    rw [List.takeWhile_append_of_pos call.blank, List.takeWhile_cons_of_neg (by decide),
      List.append_nil]
  have hstop : before.length + callOpen.length + (call.body.length + 1) + call.blanks.length + 1 =
      (before ++ call.text).length := by
    simp only [SourceCall.text, List.length_append, List.length_cons, List.length_nil]
    omega
  have hsemicolon : (call.blanks ++ 59 :: after)[call.blanks.length]? = some 59 := by
    rw [List.getElem?_append_right le_rfl, Nat.sub_self]
    rfl
  rw [hsource, findCalls_closed hbefore call.balanced, hblanks, getElem?_behind_close,
    if_pos hsemicolon, hstop]
  rfl

theorem SourceCall.text_ne_nil (call : SourceCall) : call.text ≠ [] := by
  rw [SourceCall.text]
  exact List.append_ne_nil_of_left_ne_nil (by decide) _

theorem SourceCall.callOpen_prefix (call : SourceCall) (after : PyStr) :
    callOpen <+: call.text ++ after := by
  rw [SourceCall.text, List.append_assoc]
  exact List.prefix_append _ _

/-- The calls that the loop keeps for the statements of a text. -/
def Turns.calls (before : PyStr) (turns : Turns) : List Call :=
  match turns with
  | [] => []
  | (text, call) :: rest =>
    call.call (before ++ text) :: Turns.calls (before ++ text ++ call.text) rest

theorem Turns.text_cons (text : PyStr) (call : SourceCall) (rest : Turns) :
    Turns.text ((text, call) :: rest) = text ++ (call.text ++ Turns.text rest) := by
  rw [Turns.text, List.flatMap_cons, List.append_assoc]
  rfl

/-- The first loop finds the statements of a split whose texts call `syscall` nowhere. -/
theorem finds_turns {before closing : PyStr} {turns : Turns}
    (hwords : EachCall (EndsWord unicodeAlnum) before turns)
    (htexts : ∀ turn ∈ turns, hasRawCall unicodeAlnum turn.1 = false)
    (hclosing : hasRawCall unicodeAlnum closing = false) :
    Finds unicodeAlnum (before ++ (turns.text ++ closing)) before.length (turns.calls before) := by
  induction turns generalizing before with
  | nil =>
    have hend := @finds_end unicodeAlnum (before ++ (closing ++ []))
    have hlength : (before ++ (closing ++ [])).length = before.length + closing.length := by simp
    rw [hlength] at hend
    have hfinds := Finds.text (.inl rfl) hclosing hend
    rwa [List.append_nil] at hfinds
  | cons turn rest ih =>
    obtain ⟨text, call⟩ := turn
    have hsource : before ++ (Turns.text ((text, call) :: rest) ++ closing) =
        before ++ (text ++ (call.text ++ (Turns.text rest ++ closing))) := by
      rw [Turns.text_cons, List.append_assoc, List.append_assoc]
    have hassoc : before ++ (text ++ (call.text ++ (Turns.text rest ++ closing))) =
        before ++ text ++ (call.text ++ (Turns.text rest ++ closing)) :=
      (List.append_assoc _ _ _).symm
    have hbehind := ih hwords.2 (fun turn hturn ↦ htexts turn (List.mem_cons_of_mem _ hturn))
    rw [List.append_assoc (before ++ text)] at hbehind
    rw [hsource]
    refine Finds.text (.inr (call.callOpen_prefix _)) (htexts _ List.mem_cons_self) ?_
    rw [hassoc, ← List.length_append]
    refine Finds.fuel (by simp) fun fuel hfuel ↦ ?_
    rw [findCalls_statement hwords.1, hbehind fuel]
    · rfl
    · have hpos := List.length_pos_iff.mpr call.text_ne_nil
      simp only [List.length_append] at hfuel ⊢
      omega

/-- The text from an index on splits at the statements of these calls. -/
def SplitFrom (unicodeAlnum : ℕ → Bool) (before rest : PyStr) (calls : List Call) : Prop :=
  ∃ (turns : Turns) (closing : PyStr), turns.text ++ closing = rest ∧
    EachCall (EndsWord unicodeAlnum) before turns ∧ calls = turns.calls before

theorem SplitFrom.prepend {before lead rest : PyStr} {calls : List Call}
    (hsplit : SplitFrom unicodeAlnum (before ++ lead) rest calls) :
    SplitFrom unicodeAlnum before (lead ++ rest) calls := by
  obtain ⟨turns, closing, rfl, hwords, rfl⟩ := hsplit
  cases turns with
  | nil => exact ⟨[], lead ++ closing, rfl, trivial, rfl⟩
  | cons turn rest =>
    obtain ⟨text, call⟩ := turn
    refine ⟨(lead ++ text, call) :: rest, closing, ?_, ?_, ?_⟩
    · rw [Turns.text_cons, Turns.text_cons]
      simp
    · rw [EachCall, ← List.append_assoc]
      exact hwords
    · rw [Turns.calls, Turns.calls, ← List.append_assoc before]

/-- The turn of the loop at an occurrence of the pattern splits the text. -/
theorem splitFrom_callOpen {fuel : ℕ}
    (hfuel : ∀ before rest, SplitFrom unicodeAlnum before rest
      (findCalls unicodeAlnum (before ++ rest) fuel before.length)) (before behind : PyStr) :
    SplitFrom unicodeAlnum before (callOpen ++ behind)
      (findCalls unicodeAlnum (before ++ (callOpen ++ behind)) (fuel + 1) before.length) := by
  -- the loop goes on behind some text and keeps no call
  have hskip : ∀ lead rest, lead ++ rest = callOpen ++ behind →
      findCalls unicodeAlnum (before ++ (callOpen ++ behind)) (fuel + 1) before.length =
        findCalls unicodeAlnum (before ++ (callOpen ++ behind)) fuel (before ++ lead).length →
      SplitFrom unicodeAlnum before (callOpen ++ behind)
        (findCalls unicodeAlnum (before ++ (callOpen ++ behind)) (fuel + 1) before.length) := by
    intro lead rest hsplit hsame
    rw [hsame, ← hsplit, ← List.append_assoc]
    exact (hfuel (before ++ lead) rest).prepend
  by_cases hword : 0 < before.length ∧ ((before ++ (callOpen ++ behind))[before.length - 1]?.any
      (isWordChar unicodeAlnum)) = true
  · refine hskip [115] (callOpen.tail ++ behind) rfl ?_
    rw [findCalls, findFrom_callOpen]
    dsimp only
    rw [if_pos hword, List.length_append]
    rfl
  · have hbefore : EndsWord unicodeAlnum before := by
      intro c hc
      rw [Bool.eq_false_iff]
      intro htrue
      have hpos : 0 < before.length := by
        apply List.length_pos_iff.mpr
        rintro rfl
        cases hc
      refine hword ⟨hpos, ?_⟩
      rw [List.getElem?_append_left (by omega), ← List.getLast?_eq_getElem?, Option.mem_def.mp hc]
      exact htrue
    rcases skipToClose_cases 0 behind with hall | ⟨body, tail, rfl, hbody⟩
    · refine hskip (callOpen ++ behind) [] (List.append_nil _) ?_
      have hdrop : (before ++ (callOpen ++ behind)).drop (before.length + callOpen.length) =
          behind := by
        rw [← List.drop_drop, List.drop_left, List.drop_left]
      have hlength : before.length + callOpen.length + behind.length =
          (before ++ (callOpen ++ behind)).length := by
        simp only [List.length_append]
        omega
      rw [findCalls, findFrom_callOpen]
      dsimp only
      rw [if_neg hword, hdrop, hall, hlength, List.drop_length, List.takeWhile_nil,
        List.length_nil, Nat.add_zero, List.getElem?_eq_none le_rfl, if_neg (by simp)]
    · by_cases hsemicolon : tail[(tail.takeWhile isBlank).length]? = some 59
      · obtain ⟨after, hafter⟩ : ∃ after, tail = tail.takeWhile isBlank ++ 59 :: after := by
          refine ⟨tail.drop ((tail.takeWhile isBlank).length + 1), ?_⟩
          obtain ⟨hlength, hget⟩ := List.getElem?_eq_some_iff.mp hsemicolon
          conv_lhs => rw [← List.take_append_drop (tail.takeWhile isBlank).length tail]
          rw [List.drop_eq_getElem_cons hlength, hget,
            ← List.prefix_iff_eq_take.mp (List.takeWhile_prefix isBlank)]
        let call : SourceCall :=
          ⟨body, tail.takeWhile isBlank, hbody, fun c hc ↦ List.mem_takeWhile_imp hc⟩
        have hstatement : callOpen ++ (body ++ 41 :: tail) = call.text ++ after := by
          conv_lhs => rw [hafter]
          simp [SourceCall.text, call]
        obtain ⟨turns, closing, hsplit, hwords, hcalls⟩ := hfuel (before ++ call.text) after
        have hassoc := List.append_assoc before call.text after
        rw [hstatement, findCalls_statement hbefore, ← hassoc, hcalls]
        refine ⟨([], call) :: turns, closing, ?_, ?_, ?_⟩
        · rw [Turns.text_cons, List.nil_append, List.append_assoc, hsplit]
        · rw [EachCall, List.append_nil]
          exact ⟨hbefore, hwords⟩
        · rw [Turns.calls, List.append_nil]
      · refine hskip (callOpen ++ (body ++ [41])) tail (by simp) ?_
        rw [findCalls_closed hbefore hbody, getElem?_behind_close, if_neg hsemicolon]
        congr 1
        simp only [List.length_append, List.length_singleton]
        omega

/-- The first loop splits the text. -/
theorem splitFrom_findCalls (fuel : ℕ) (before rest : PyStr) :
    SplitFrom unicodeAlnum before rest
      (findCalls unicodeAlnum (before ++ rest) fuel before.length) := by
  induction fuel generalizing before rest with
  | zero => exact ⟨[], rest, rfl, trivial, rfl⟩
  | succ fuel ih =>
    cases hfind : find callOpen rest with
    | none =>
      refine ⟨[], rest, rfl, trivial, ?_⟩
      rw [findCalls, findFrom_append, hfind]
      rfl
    | some index =>
      obtain ⟨skipped, tail, rfl, rfl, behind, rfl⟩ := exists_of_find hfind
      have hsame : findFrom callOpen (before ++ (skipped ++ (callOpen ++ behind))) before.length =
          findFrom callOpen (before ++ (skipped ++ (callOpen ++ behind)))
            (before ++ skipped).length := by
        rw [findFrom_append, hfind, ← List.append_assoc before, findFrom_callOpen,
          List.length_append]
        rfl
      rw [findCalls_congr (fuel + 1) hsame, ← List.append_assoc before]
      exact (splitFrom_callOpen ih (before ++ skipped) behind).prepend

/-! ### The second loop -/

/-- The output of the second loop, which puts some text before each replacement. -/
def outputBehind (lead : PyStr → PyStr) (closing before : PyStr) (index : ℕ) :
    Turns → Except PyError PyStr
  | [] => .ok closing
  | (text, call) :: rest => do
    let replaced ← tracedCall index call.body
    let behind ← outputBehind lead closing (before ++ text ++ call.text) (index + 1) rest
    return text ++ (lead (before ++ text) ++ replaced) ++ behind

theorem splice_calls (before : PyStr) (turns : Turns) (closing : PyStr) (index : ℕ) :
    splice (before ++ (turns.text ++ closing)) before.length index (turns.calls before) =
      outputBehind linePrefix closing before index turns := by
  induction turns generalizing before index with
  | nil =>
    rw [Turns.calls, splice, outputBehind, List.drop_left]
    rfl
  | cons turn rest ih =>
    obtain ⟨text, call⟩ := turn
    have hsource : before ++ (Turns.text ((text, call) :: rest) ++ closing) =
        before ++ text ++ call.text ++ (Turns.text rest ++ closing) := by
      rw [Turns.text_cons]
      simp only [List.append_assoc]
    have hslice : slice (before ++ text ++ call.text ++ (Turns.text rest ++ closing)) before.length
        (before ++ text).length = text := by
      rw [slice, List.append_assoc, List.append_assoc, List.drop_left, List.length_append,
        Nat.add_sub_cancel_left, List.take_left]
    have hrest := ih (before ++ text ++ call.text) (index + 1)
    rw [Turns.calls, splice, outputBehind, hsource]
    simp only [SourceCall.call, hslice, hrest]

/-- Without the line prefixes the output is not longer, and it is the same exactly when they are
empty. -/
theorem output_of_outputBehind {lead : PyStr → PyStr} {closing before : PyStr} {turns : Turns}
    {index : ℕ} {output : PyStr}
    (houtput : outputBehind lead closing before index turns = .ok output) :
    ∃ plain, turns.output closing index = .ok plain ∧ plain.length ≤ output.length ∧
      (plain = output ↔ EachCall (fun before ↦ lead before = []) before turns) := by
  induction turns generalizing before index output with
  | nil =>
    obtain rfl := Except.ok.inj houtput
    exact ⟨closing, rfl, le_rfl, iff_of_true rfl trivial⟩
  | cons turn rest ih =>
    obtain ⟨text, call⟩ := turn
    obtain ⟨replaced, hreplaced, houtput⟩ := bind_eq_ok_iff.mp houtput
    obtain ⟨behind, hbehind, houtput⟩ := bind_eq_ok_iff.mp houtput
    obtain rfl := pure_eq_ok_iff.mp houtput
    obtain ⟨plain, hplain, hle, hiff⟩ := ih hbehind
    refine ⟨text ++ replaced ++ plain, ?_, ?_, ?_⟩
    · rw [Turns.output, hreplaced, hplain]
      rfl
    · simp only [List.length_append]
      omega
    · rw [EachCall, ← hiff]
      constructor
      · intro heq
        have hlength := congrArg List.length heq
        simp only [List.length_append] at hlength
        have hlead : lead (before ++ text) = [] := List.eq_nil_of_length_eq_zero (by omega)
        rw [hlead, List.nil_append] at heq
        exact ⟨hlead, List.append_cancel_left heq⟩
      · rintro ⟨hlead, rfl⟩
        rw [hlead, List.nil_append]

theorem endsWord_concat (before : PyStr) {last : ℕ} (hlast : isWordChar unicodeAlnum last = false) :
    EndsWord unicodeAlnum (before ++ [last]) := by
  intro c hc
  rw [List.getLast?_concat, Option.mem_some_iff] at hc
  rw [← hc, hlast]

/-- The replacement of a call ends with a semicolon. -/
theorem exists_of_tracedCall {index : ℕ} {body replaced : PyStr}
    (hreplaced : tracedCall index body = .ok replaced) : ∃ init, replaced = init ++ [59] := by
  rw [tracedCall] at hreplaced
  split at hreplaced
  · cases hreplaced
  · dsimp only at hreplaced
    split at hreplaced
    · cases hreplaced
    · have hlast : PyStr.ofString ");" = [41] ++ [59] := by decide
      rw [← Except.ok.inj hreplaced, hlast, ← List.append_assoc]
      exact ⟨_, rfl⟩

/-- The texts between the statements are parts of the output. -/
theorem hasRawCall_of_outputBehind {lead : PyStr → PyStr} {closing before done : PyStr}
    {turns : Turns} {index : ℕ} {output : PyStr} (hdone : EndsWord unicodeAlnum done)
    (houtput : outputBehind lead closing before index turns = .ok output)
    (hraw : hasRawCall unicodeAlnum (done ++ output) = false) :
    (∀ turn ∈ turns, hasRawCall unicodeAlnum turn.1 = false) ∧
      hasRawCall unicodeAlnum closing = false := by
  induction turns generalizing before done index output with
  | nil =>
    obtain rfl := Except.ok.inj houtput
    rw [← List.append_nil closing] at hraw
    exact ⟨fun turn hturn ↦ absurd hturn List.not_mem_nil, hasRawCall_part hdone hraw⟩
  | cons turn rest ih =>
    obtain ⟨text, call⟩ := turn
    obtain ⟨replaced, hreplaced, houtput⟩ := bind_eq_ok_iff.mp houtput
    obtain ⟨behind, hbehind, houtput⟩ := bind_eq_ok_iff.mp houtput
    obtain rfl := pure_eq_ok_iff.mp houtput
    obtain ⟨init, rfl⟩ := exists_of_tracedCall hreplaced
    rw [List.append_assoc] at hraw
    have htext := hasRawCall_part hdone hraw
    have hassoc : done ++ (text ++ ((lead (before ++ text) ++ (init ++ [59])) ++ behind)) =
        done ++ text ++ lead (before ++ text) ++ init ++ [59] ++ behind := by
      simp only [List.append_assoc]
    rw [hassoc] at hraw
    obtain ⟨hrest, hclosing⟩ := ih (endsWord_concat _ rfl) hbehind hraw
    refine ⟨fun turn hturn ↦ ?_, hclosing⟩
    rcases List.mem_cons.mp hturn with rfl | hturn
    · exact htext
    · exact hrest turn hturn

theorem output_eq_outputBehind (turns : Turns) (closing before : PyStr) (index : ℕ) :
    turns.output closing index = outputBehind (fun _ ↦ []) closing before index turns := by
  induction turns generalizing before index with
  | nil => rfl
  | cons turn rest ih =>
    obtain ⟨text, call⟩ := turn
    rw [Turns.output, outputBehind, ih (before ++ text ++ call.text)]
    rfl

/-! ### The output -/

theorem length_calls (turns : Turns) (before : PyStr) :
    (turns.calls before).length = turns.length := by
  induction turns generalizing before with
  | nil => rfl
  | cons turn rest ih =>
    obtain ⟨text, call⟩ := turn
    rw [Turns.calls, List.length_cons, List.length_cons, ih]

theorem eachCall_linePrefix_iff (turns : Turns) (before : PyStr) :
    EachCall (fun before ↦ linePrefix before = []) before turns ↔
      ∀ call ∈ turns.calls before, call.linePrefix = [] := by
  induction turns generalizing before with
  | nil => exact iff_of_true trivial fun call hcall ↦ absurd hcall List.not_mem_nil
  | cons turn rest ih =>
    obtain ⟨text, call⟩ := turn
    rw [EachCall, Turns.calls, List.forall_mem_cons, ih]
    rfl

/-- The first loop finds the statements of a split whose texts call `syscall` nowhere. -/
theorem Split.Complete.calls_eq {source : PyStr} {split : Split unicodeAlnum source}
    (hcomplete : split.Complete) :
    findCalls unicodeAlnum source (source.length + 1) 0 = split.turns.calls [] := by
  have hfinds := finds_turns split.words hcomplete.1 hcomplete.2
  rw [List.nil_append, split.source_eq] at hfinds
  exact hfinds (source.length + 1) (Nat.lt_succ_self _)

theorem endsWord_nil : EndsWord unicodeAlnum [] := by
  intro c hc
  cases hc

/-- What a successful instrumentation returns. -/
theorem exists_of_instrumentSource {source output : PyStr} {count : ℕ}
    (hresult : instrumentSource unicodeAlnum source = .ok (output, count)) :
    hasRawCall unicodeAlnum output = false ∧
      ∃ split : Split unicodeAlnum (injectHeader source), split.turns.length = count ∧
        findCalls unicodeAlnum (injectHeader source) ((injectHeader source).length + 1) 0 =
          split.turns.calls [] ∧
        outputBehind linePrefix split.closing [] 0 split.turns = .ok output := by
  obtain ⟨instrumented, hsplice, hrest⟩ := bind_eq_ok_iff.mp hresult
  split at hrest
  · cases hrest
  · next hraw =>
    obtain ⟨rfl, rfl⟩ := Prod.mk.inj (Except.ok.inj hrest)
    obtain ⟨turns, closing, hsource, hwords, hcalls⟩ :=
      @splitFrom_findCalls unicodeAlnum ((injectHeader source).length + 1) [] (injectHeader source)
    rw [List.nil_append, List.length_nil] at hcalls
    refine ⟨by simpa using hraw, ⟨turns, closing, hsource, hwords⟩, ?_, hcalls, ?_⟩
    · rw [hcalls, length_calls]
    · rw [← splice_calls, List.nil_append, hsource, ← hcalls]
      exact hsplice

/-- The statements of a split that yields the output are those of the first loop. -/
theorem Split.complete_of_output {source output : PyStr} {split : Split unicodeAlnum source}
    {lead : PyStr → PyStr} (hraw : hasRawCall unicodeAlnum output = false)
    (houtput : outputBehind lead split.closing [] 0 split.turns = .ok output) : split.Complete :=
  hasRawCall_of_outputBehind endsWord_nil houtput hraw

theorem onlyCallsChange_iff {source output : PyStr} {count : ℕ}
    (hresult : instrumentSource unicodeAlnum source = .ok (output, count)) :
    OnlyCallsChange unicodeAlnum source output count ↔
      ∀ call ∈ findCalls unicodeAlnum (injectHeader source) ((injectHeader source).length + 1) 0,
        call.linePrefix = [] := by
  obtain ⟨hraw, found, hlength, hcalls, houtput⟩ := exists_of_instrumentSource hresult
  obtain ⟨plain, hplain, -, hiff⟩ := output_of_outputBehind houtput
  rw [hcalls, ← eachCall_linePrefix_iff, ← hiff]
  constructor
  · rintro ⟨split, -, hsplit⟩
    have hcomplete : split.Complete := by
      rw [output_eq_outputBehind _ _ []] at hsplit
      exact split.complete_of_output hraw hsplit
    have hsame : outputBehind linePrefix split.closing [] 0 split.turns = .ok output := by
      rw [← houtput, ← splice_calls, ← splice_calls, List.nil_append, List.nil_append,
        split.source_eq, found.source_eq, ← hcomplete.calls_eq, hcalls]
    obtain ⟨without, hwithout, -, heach⟩ := output_of_outputBehind hsame
    have hheads := heach.mp (Except.ok.inj (hwithout.symm.trans hsplit))
    rwa [eachCall_linePrefix_iff, ← hcomplete.calls_eq, hcalls, ← eachCall_linePrefix_iff, ← hiff]
      at hheads
  · rintro rfl
    exact ⟨found, hlength, hplain⟩

theorem callsHeadLines_iff {source output : PyStr} {count : ℕ}
    (hresult : instrumentSource unicodeAlnum source = .ok (output, count)) :
    CallsHeadLines unicodeAlnum source ↔
      ∀ call ∈ findCalls unicodeAlnum (injectHeader source) ((injectHeader source).length + 1) 0,
        call.linePrefix = [] := by
  obtain ⟨hraw, found, -, hcalls, houtput⟩ := exists_of_instrumentSource hresult
  constructor
  · intro hhead
    rw [hcalls, ← eachCall_linePrefix_iff]
    exact hhead found (found.complete_of_output hraw houtput)
  · intro hhead split hcomplete
    rwa [eachCall_linePrefix_iff, ← hcomplete.calls_eq]

/-- When the instrumentation succeeds, it changes nothing but the statements that call `syscall`
exactly when each of them stands at the head of a line. -/
theorem instrumentSource_onlyCallsChange_iff {source output : PyStr} {count : ℕ}
    (hresult : instrumentSource unicodeAlnum source = .ok (output, count)) :
    OnlyCallsChange unicodeAlnum source output count ↔ CallsHeadLines unicodeAlnum source :=
  (onlyCallsChange_iff hresult).trans (callsHeadLines_iff hresult).symm

theorem instrumentSource_onlyCallsChange_iff_head :
    OnlyCallsChange (fun _ ↦ false) (PyStr.ofString "syscall(39);")
        (PyStr.ofString
          "#include \"trace.h\"\ntraced_syscall(\"39\", 39, 0, 0, 0, 0, 0, 0, 0);\n") 1 ↔
      CallsHeadLines (fun _ ↦ false) (PyStr.ofString "syscall(39);") :=
  instrumentSource_onlyCallsChange_iff (by decide +kernel)

/-- The code before a call on its line is there twice. -/
theorem instrumentSource_repeats :
    instrumentSource (fun _ ↦ false) (PyStr.ofString "n++; syscall(39);") =
        .ok (PyStr.ofString ("#include \"trace.h\"\nn++; n++; " ++
          "traced_syscall(\"39\", 39, 0, 0, 0, 0, 0, 0, 0);\n"), 1) ∧
      ¬OnlyCallsChange (fun _ ↦ false) (PyStr.ofString "n++; syscall(39);")
        (PyStr.ofString ("#include \"trace.h\"\nn++; n++; " ++
          "traced_syscall(\"39\", 39, 0, 0, 0, 0, 0, 0, 0);\n")) 1 := by
  have hresult : instrumentSource (fun _ ↦ false) (PyStr.ofString "n++; syscall(39);") =
      .ok (PyStr.ofString ("#include \"trace.h\"\nn++; n++; " ++
        "traced_syscall(\"39\", 39, 0, 0, 0, 0, 0, 0, 0);\n"), 1) := by
    decide +kernel
  refine ⟨hresult, ?_⟩
  rw [onlyCallsChange_iff hresult]
  decide +kernel

end Table

end SyzAbi.Tools

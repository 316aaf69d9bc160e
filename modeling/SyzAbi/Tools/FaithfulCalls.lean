import SyzAbi.Tools.InstrumentFrame

/-!
# The replacements of calls

The body of a call is a list of arguments joined by commas, in which commas stand only inside
brackets and the brackets match (`Nested`); a bracket or a comma in a literal would not be told from
the others. The splitter goes past a nested text as a whole (`splitArgsFrom_nested`), so it gives
the arguments back (`splitArgs_intercalate`). The second loop numbers the calls of the first one
from 0 (`exists_replacements`), and these are the statements of the one split whose texts call
`syscall` nowhere (`instrumentSource_traces`).
-/

set_option autoImplicit false
set_option relaxedAutoImplicit false

namespace SyzAbi.Tools

open Analyzer Orchestrator Library.Json Library.Search Library.Fallible

/-! ### Arguments -/

/-- The matching brackets: `()`, `[]` and the braces. -/
def brackets : List (ℕ × ℕ) := [(40, 41), (91, 93), (123, 125)]

/-- The brackets of a text match. When the flag is set, its commas stand inside of them. -/
inductive Nested : Bool → PyStr → Prop
  | nil (top : Bool) : Nested top []
  | char {top : Bool} {c : ℕ} {rest : PyStr} (hopening : isOpening c = false)
    (hclosing : isClosing c = false) (hcomma : top = true → c ≠ 44) (hrest : Nested top rest) :
    Nested top (c :: rest)
  | group {top : Bool} {left right : ℕ} {inside rest : PyStr} (hpair : (left, right) ∈ brackets)
    (hinside : Nested false inside) (hrest : Nested top rest) :
    Nested top (left :: (inside ++ right :: rest))

/-- A body of a call that is a comma-joined list of one to seven non-empty arguments. -/
structure ArgumentList (body : PyStr) (pieces : List PyStr) : Prop where
  text : body = [44].intercalate pieces
  nested : ∀ piece ∈ pieces, Nested true piece
  nonempty : ∀ piece ∈ pieces, strip piece ≠ []
  pos : 1 ≤ pieces.length
  le : pieces.length ≤ 7

/-- A text without brackets may stand before a nested text, and without commas at the top. -/
theorem Nested.plain_append {top : Bool} {text rest : PyStr}
    (hplain : ∀ c ∈ text, isOpening c = false ∧ isClosing c = false ∧ (top = true → c ≠ 44))
    (hrest : Nested top rest) : Nested top (text ++ rest) := by
  induction text with
  | nil => exact hrest
  | cons c text ih =>
    obtain ⟨⟨hopening, hclosing, hcomma⟩, hmore⟩ := List.forall_mem_cons.mp hplain
    exact .char hopening hclosing hcomma (ih hmore)

theorem Nested.plain {top : Bool} {text : PyStr}
    (hplain : ∀ c ∈ text, isOpening c = false ∧ isClosing c = false ∧ (top = true → c ≠ 44)) :
    Nested top text := by
  rw [← List.append_nil text]
  exact .plain_append hplain (.nil top)

theorem isOpening_of_brackets {left right : ℕ} (hpair : (left, right) ∈ brackets) :
    isOpening left = true ∧ isOpening right = false ∧ isClosing right = true ∧ left ≠ 44 ∧
      right ≠ 44 := by
  have hall : ∀ pair ∈ brackets, isOpening pair.1 = true ∧ isOpening pair.2 = false ∧
      isClosing pair.2 = true ∧ pair.1 ≠ 44 ∧ pair.2 ≠ 44 := by decide
  exact hall _ hpair

/-- The splitter goes past a nested text. At depth 0 its commas must stand inside brackets. -/
theorem splitArgsFrom_nested {top : Bool} {text : PyStr} (htext : Nested top text)
    {depth : ℤ} (hdepth : 0 ≤ depth) (htop : depth = 0 → top = true) (current rest : PyStr) :
    splitArgsFrom current depth (text ++ rest) = splitArgsFrom (current ++ text) depth rest := by
  induction htext generalizing depth current rest with
  | nil => rw [List.nil_append, List.append_nil]
  | @char top c more hopening hclosing hcomma _ ih =>
    have hplain : ¬(c = 44 ∧ depth = 0) := fun h ↦ hcomma (htop h.2) h.1
    rw [List.cons_append, splitArgsFrom, if_neg hplain, hopening, hclosing,
      if_neg Bool.false_ne_true, if_neg Bool.false_ne_true, ih hdepth htop, List.append_assoc]
    rfl
  | @group top left right inside more hpair _ _ ihinside ihmore =>
    obtain ⟨hleft, hright, hclosing, hleftComma, hrightComma⟩ := isOpening_of_brackets hpair
    have hinner : (0 : ℤ) ≤ depth + 1 := by omega
    rw [List.cons_append, splitArgsFrom, if_neg fun h ↦ hleftComma h.1, if_pos hleft,
      List.append_assoc, ihinside hinner (by omega), List.cons_append, splitArgsFrom,
      if_neg fun h ↦ hrightComma h.1, hright, if_neg Bool.false_ne_true, if_pos hclosing,
      Int.add_sub_cancel, ihmore hdepth htop]
    simp only [List.append_assoc, List.cons_append, List.nil_append]

/-- The splitter inverts joining by commas. -/
theorem splitArgs_intercalate {pieces : List PyStr} (hnested : ∀ piece ∈ pieces, Nested true piece)
    (hnonempty : ∀ piece ∈ pieces, strip piece ≠ []) :
    splitArgs ([44].intercalate pieces) = pieces.map strip := by
  induction pieces with
  | nil => rfl
  | cons piece rest ih =>
    rw [List.forall_mem_cons] at hnested hnonempty
    have hrest := ih hnested.2 hnonempty.2
    cases rest with
    | nil =>
      have hpiece : piece ≠ [] := by
        rintro rfl
        exact hnonempty.1 rfl
      have hsplit := splitArgsFrom_nested hnested.1 le_rfl (fun _ ↦ rfl) [] []
      rw [List.append_nil, List.nil_append, splitArgsFrom,
        if_neg (by rwa [List.isEmpty_iff])] at hsplit
      rw [List.intercalate_singleton, splitArgs, hsplit]
      rfl
    | cons next more =>
      rw [List.intercalate_cons_cons, splitArgs, List.append_assoc,
        splitArgsFrom_nested hnested.1 le_rfl (fun _ ↦ rfl), List.singleton_append, splitArgsFrom,
        if_pos ⟨rfl, rfl⟩, ← splitArgs, hrest]
      rfl

/-! ### Replacements -/

/-- The name in a number expression: the expression without the prefix of the macros of system
call numbers. -/
def IsNameOf (name nrExpr : PyStr) : Prop :=
  nrExpr = PyStr.ofString "__NR_" ++ name ∨ nrExpr = PyStr.ofString "SYS_" ++ name ∨
    (nrExpr = name ∧ ¬PyStr.ofString "__NR_" <+: nrExpr ∧ ¬PyStr.ofString "SYS_" <+: nrExpr)

/-- The statement that stands for the call with an index: it names the call, keeps the number
expression and passes the arguments in order, followed by zeros up to six. -/
def Traces (index : ℕ) (pieces : List PyStr) (statement : PyStr) : Prop :=
  ∃ name nrExpr arguments, ∃ six : List PyStr,
    pieces.map strip = nrExpr :: arguments ∧ IsNameOf name nrExpr ∧
      six.length = 6 ∧ arguments <+: six ∧ (∀ other ∈ six.drop arguments.length, other = [48]) ∧
        statement = PyStr.ofString "traced_syscall(\"" ++ name ++ PyStr.ofString "\", " ++ nrExpr ++
          PyStr.ofString ", " ++ decimal index ++ PyStr.ofString ", " ++
            (PyStr.ofString ", ").intercalate six ++ PyStr.ofString ");"

theorem isNameOf_syscallName (nrExpr : PyStr) : IsNameOf (syscallName nrExpr) nrExpr := by
  rw [syscallName]
  split
  · next hprefix =>
    obtain ⟨name, rfl⟩ := List.isPrefixOf_iff_prefix.mp hprefix
    exact .inl rfl
  · next hnr =>
    rw [List.isPrefixOf_iff_prefix] at hnr
    split
    · next hprefix =>
      obtain ⟨name, rfl⟩ := List.isPrefixOf_iff_prefix.mp hprefix
      exact .inr (.inl rfl)
    · next hsys =>
      rw [List.isPrefixOf_iff_prefix] at hsys
      exact .inr (.inr ⟨rfl, hnr, hsys⟩)

/-- The replacement of a call whose body is a list of arguments. -/
theorem tracedCall_arguments {body : PyStr} {pieces : List PyStr} (hbody : ArgumentList body pieces)
    (index : ℕ) : ∃ statement, tracedCall index body = .ok statement ∧
      Traces index pieces statement := by
  have hsplit : splitArgs body = pieces.map strip := by
    rw [hbody.text, splitArgs_intercalate hbody.nested hbody.nonempty]
  obtain ⟨nrExpr, arguments, hpieces⟩ : ∃ nrExpr arguments,
      pieces.map strip = nrExpr :: arguments := by
    apply List.exists_cons_of_length_pos
    rw [List.length_map]
    exact hbody.pos
  have hlength : arguments.length ≤ 6 := by
    have hsame := congrArg List.length hpieces
    rw [List.length_map, List.length_cons] at hsame
    have hle := hbody.le
    omega
  have hsix : (arguments ++ List.replicate (6 - arguments.length) [48]).length = 6 := by
    rw [List.length_append, List.length_replicate]
    omega
  refine ⟨_, ?_, syscallName nrExpr, nrExpr, arguments,
    arguments ++ List.replicate (6 - arguments.length) [48], hpieces,
    isNameOf_syscallName nrExpr, hsix, List.prefix_append _ _, ?_, rfl⟩
  · rw [tracedCall, hsplit, hpieces]
    dsimp only
    rw [hsix, if_neg (lt_irrefl 6), List.take_of_length_le hsix.le]
  · intro other hother
    rw [List.drop_left] at hother
    exact List.eq_of_mem_replicate hother

/-- The texts of a split with something in the place of each statement. -/
def Turns.woven (closing : PyStr) : Turns → List PyStr → PyStr
  | (text, _) :: turns, replacement :: rest =>
    text ++ replacement ++ Turns.woven closing turns rest
  | _, _ => closing

/-- The second loop numbers the calls from its index on. -/
theorem exists_replacements {closing before : PyStr} {turns : Turns} {index : ℕ} {output : PyStr}
    (houtput : outputBehind linePrefix closing before index turns = .ok output) :
    ∃ replacements, replacements.length = turns.length ∧
      turns.woven closing replacements = output ∧
        ∀ k call, (turns.calls before)[k]? = some call →
          ∃ statement, tracedCall (index + k) call.body = .ok statement ∧
            replacements[k]? = some (call.linePrefix ++ statement) := by
  induction turns generalizing before index output with
  | nil =>
    obtain rfl := Except.ok.inj houtput
    refine ⟨[], rfl, rfl, fun k call hcall ↦ ?_⟩
    rw [Turns.calls, List.getElem?_nil] at hcall
    cases hcall
  | cons turn rest ih =>
    obtain ⟨text, call⟩ := turn
    obtain ⟨replaced, hreplaced, houtput⟩ := bind_eq_ok_iff.mp houtput
    obtain ⟨behind, hbehind, houtput⟩ := bind_eq_ok_iff.mp houtput
    obtain rfl := pure_eq_ok_iff.mp houtput
    obtain ⟨replacements, hlength, hwoven, hcalls⟩ := ih hbehind
    refine ⟨(linePrefix (before ++ text) ++ replaced) :: replacements, ?_, ?_, ?_⟩
    · rw [List.length_cons, hlength, List.length_cons]
    · rw [Turns.woven, hwoven]
    · intro k other hother
      cases k with
      | zero =>
        rw [Turns.calls, List.getElem?_cons_zero, Option.some.injEq] at hother
        rw [← hother]
        exact ⟨replaced, hreplaced, rfl⟩
      | succ k =>
        rw [Turns.calls, List.getElem?_cons_succ] at hother
        obtain ⟨statement, hstatement, hat⟩ := hcalls k other hother
        rw [show index + 1 + k = index + (k + 1) by omega] at hstatement
        exact ⟨statement, hstatement, hat⟩

/-- The call that the first loop keeps for a statement stands at its place. -/
theorem getElem?_calls (first : Turns) (text : PyStr) (call : SourceCall) (after : Turns)
    (before : PyStr) :
    (Turns.calls before (first ++ (text, call) :: after))[first.length]? =
      some (call.call (before ++ (first.text ++ text))) := by
  induction first generalizing before with
  | nil => rfl
  | cons turn rest ih =>
    obtain ⟨head, other⟩ := turn
    rw [List.cons_append, Turns.calls, List.length_cons, List.getElem?_cons_succ, ih,
      Turns.text_cons]
    simp only [List.append_assoc]

section Table

variable {unicodeAlnum : ℕ → Bool}

/-- A successful instrumentation replaces the statements that call `syscall` one by one, and the
replacement of a statement whose arguments can be told apart traces the call with the number of
statements before it as its index. The line prefix stands before each replacement. -/
theorem instrumentSource_traces {source output : PyStr} {count : ℕ}
    (hresult : instrumentSource unicodeAlnum source = .ok (output, count)) :
    (∃ split : Split unicodeAlnum (injectHeader source), split.Complete) ∧
      ∀ split : Split unicodeAlnum (injectHeader source), split.Complete →
        split.turns.length = count ∧
          ∃ replacements, replacements.length = count ∧
            split.turns.woven split.closing replacements = output ∧
              ∀ (first : Turns) text call after, split.turns = first ++ (text, call) :: after →
                ∀ pieces, ArgumentList call.body pieces →
                  ∃ statement, Traces first.length pieces statement ∧
                    replacements[first.length]? =
                      some (linePrefix (first.text ++ text) ++ statement) := by
  obtain ⟨hraw, found, hcount, hcalls, houtput⟩ := exists_of_instrumentSource hresult
  refine ⟨⟨found, found.complete_of_output hraw houtput⟩, fun split hcomplete ↦ ?_⟩
  -- the statements are the calls of the first loop, in every such split
  have hsame : split.turns.calls [] = found.turns.calls [] := by
    rw [← hcomplete.calls_eq, hcalls]
  have hlength : split.turns.length = count := by
    rw [← length_calls _ [], hsame, length_calls, hcount]
  have hsplit : outputBehind linePrefix split.closing [] 0 split.turns = .ok output := by
    rw [← houtput, ← splice_calls, ← splice_calls, List.nil_append, List.nil_append,
      split.source_eq, found.source_eq, hsame]
  obtain ⟨replacements, hreplacements, hwoven, hat⟩ := exists_replacements hsplit
  refine ⟨hlength, replacements, hreplacements.trans hlength, hwoven, ?_⟩
  intro first text call after hturns pieces hpieces
  have hcall := getElem?_calls first text call after []
  rw [← hturns] at hcall
  obtain ⟨statement, hstatement, hreplacement⟩ := hat _ _ hcall
  rw [Nat.zero_add] at hstatement
  obtain ⟨traced, htraced, htraces⟩ := tracedCall_arguments hpieces first.length
  obtain rfl := Except.ok.inj (hstatement.symm.trans htraced)
  exact ⟨statement, htraces, hreplacement⟩

/-! ### Two calls with brackets -/

def writeSource : PyStr :=
  PyStr.ofString "syscall(__NR_write, 1, b[f(2, 3)], (4));\nsyscall(__NR_close, g(h(5), 6));\n"

def writeOutput : PyStr :=
  PyStr.ofString ("#include \"trace.h\"\n" ++
    "traced_syscall(\"write\", __NR_write, 0, 1, b[f(2, 3)], (4), 0, 0, 0);\n" ++
    "traced_syscall(\"close\", __NR_close, 1, g(h(5), 6), 0, 0, 0, 0, 0);\n")

def writePieces : List PyStr :=
  [PyStr.ofString "__NR_write", PyStr.ofString " 1", PyStr.ofString " b[f(2, 3)]",
    PyStr.ofString " (4)"]

def closePieces : List PyStr := [PyStr.ofString "__NR_close", PyStr.ofString " g(h(5), 6)"]

theorem argumentList_write :
    ArgumentList (PyStr.ofString "__NR_write, 1, b[f(2, 3)], (4)") writePieces where
  text := by decide
  nested := by
    have hround : (40, 41) ∈ brackets := by decide
    have hsquare : (91, 93) ∈ brackets := by decide
    have hinner : Nested false (PyStr.ofString "f" ++ 40 :: (PyStr.ofString "2, 3" ++ [41])) :=
      .plain_append (by decide) (.group hround (.plain (by decide)) (.nil _))
    have hthird : PyStr.ofString " b[f(2, 3)]" = PyStr.ofString " b" ++
        91 :: (PyStr.ofString "f" ++ 40 :: (PyStr.ofString "2, 3" ++ [41]) ++ [93]) := by decide
    have hfourth : PyStr.ofString " (4)" = PyStr.ofString " " ++
        40 :: (PyStr.ofString "4" ++ [41]) := by decide
    intro piece hpiece
    simp only [writePieces, List.mem_cons, List.not_mem_nil, or_false] at hpiece
    rcases hpiece with rfl | rfl | rfl | rfl
    · exact .plain (by decide)
    · exact .plain (by decide)
    · rw [hthird]
      exact .plain_append (by decide) (.group hsquare hinner (.nil true))
    · rw [hfourth]
      exact .plain_append (by decide) (.group hround (.plain (by decide)) (.nil _))
  nonempty := by decide
  pos := by decide
  le := by decide

theorem argumentList_close :
    ArgumentList (PyStr.ofString "__NR_close, g(h(5), 6)") closePieces where
  text := by decide
  nested := by
    have hround : (40, 41) ∈ brackets := by decide
    have hinner : Nested false (PyStr.ofString "h" ++
        40 :: (PyStr.ofString "5" ++ 41 :: PyStr.ofString ", 6")) :=
      .plain_append (by decide) (.group hround (.plain (by decide))
        (.plain (by decide)))
    have hsecond : PyStr.ofString " g(h(5), 6)" = PyStr.ofString " g" ++
        40 :: (PyStr.ofString "h" ++ 40 :: (PyStr.ofString "5" ++ 41 :: PyStr.ofString ", 6") ++
          [41]) := by decide
    intro piece hpiece
    rcases List.mem_pair.mp hpiece with rfl | rfl
    · exact .plain (by decide)
    · rw [hsecond]
      exact .plain_append (by decide) (.group hround hinner (.nil true))
  nonempty := by decide
  pos := by decide
  le := by decide

/-- The split of the source at its two calls. -/
def writeSplit : Split (fun _ ↦ false) (injectHeader writeSource) where
  turns := [
    (includeLine ++ [10],
      ⟨PyStr.ofString "__NR_write, 1, b[f(2, 3)], (4)", [], by decide +kernel, by decide⟩),
    ([10], ⟨PyStr.ofString "__NR_close, g(h(5), 6)", [], by decide +kernel, by decide⟩)]
  closing := [10]
  source_eq := by decide +kernel
  words := ⟨endsWord_concat _ rfl, endsWord_concat _ rfl, trivial⟩

theorem writeSplit_complete : writeSplit.Complete := by
  constructor
  · intro turn hturn
    rcases List.mem_pair.mp hturn with rfl | rfl
    · decide +kernel
    · decide +kernel
  · decide +kernel

theorem instrumentSource_traces_write :
    ∃ replacements, writeSplit.turns.woven writeSplit.closing replacements = writeOutput ∧
      ∃ first second, Traces 0 writePieces first ∧ Traces 1 closePieces second ∧
        replacements[0]? = some first ∧ replacements[1]? = some second := by
  have hresult : instrumentSource (fun _ ↦ false) writeSource = .ok (writeOutput, 2) := by
    decide +kernel
  obtain ⟨-, replacements, -, hwoven, hat⟩ :=
    (instrumentSource_traces hresult).2 writeSplit writeSplit_complete
  obtain ⟨first, hfirst, hfirstAt⟩ := hat [] _ _ _ rfl writePieces argumentList_write
  obtain ⟨second, hsecond, hsecondAt⟩ := hat [_] _ _ [] rfl closePieces argumentList_close
  exact ⟨replacements, hwoven, first, second, hfirst, hsecond, hfirstAt, hsecondAt⟩

end Table

end SyzAbi.Tools

import SyzAbi.Library.JsonPrinted
import SyzAbi.Library.Search
import SyzAbi.Library.Utf8Ignore
import SyzAbi.Orchestrator.CandidateBatch

/-!
# Commands at the StarryOS shell

`ShellSession.run_command` (`targets/tgoskits_starryos/api.py`) types a line that prints a marker
before the command and one behind it, reads until the prompt comes and cuts the output at the first
occurrences of the markers. The output arrives in pieces of bytes, and each piece is decoded by
itself.

A terminal that echoes the line prints both markers before the shell does, and a character that lies
across two pieces is lost. Where neither happens, and only there, the result is what the command
printed (`Exchange.captured_run_iff`). The text of the result begins with the line end of the first
marker.

The process is alive and the prompt comes in time. What the tables of the language say beyond ASCII
is a parameter.
-/

set_option autoImplicit false
set_option relaxedAutoImplicit false

namespace SyzAbi.Targets.Shell

open Analyzer Orchestrator Library.Fallible Library.Json Library.Search Library.Utf8

/-! ### The code -/

/-- What Python knows beyond ASCII: the values of decimal digits, and `repr` of a text. -/
structure Tables where
  digit : ℕ → Option ℕ
  repr : PyStr → String

/-- The value of a decimal digit. -/
def Tables.digitOf (tables : Tables) (c : ℕ) : Option ℕ :=
  if c < 128 then if isDigit c then some (c - 48) else none else tables.digit c

/-- The digits of a number behind the first one, with underscores between them. -/
def Tables.moreDigits (tables : Tables) : ℕ → PyStr → Option ℕ
  | value, [] => some value
  | value, 95 :: c :: rest =>
    (tables.digitOf c).bind fun digit ↦ tables.moreDigits (10 * value + digit) rest
  | value, c :: rest =>
    (tables.digitOf c).bind fun digit ↦ tables.moreDigits (10 * value + digit) rest

def Tables.unsigned (tables : Tables) : PyStr → Option ℕ
  | [] => none
  | c :: rest => (tables.digitOf c).bind fun digit ↦ tables.moreDigits digit rest

/-- `int` of a text; `none` when it raises a `ValueError`. -/
def Tables.int (tables : Tables) (text : PyStr) : Option ℤ :=
  match strip text with
  | 43 :: digits => (tables.unsigned digits).map fun value ↦ value
  | 45 :: digits => (tables.unsigned digits).map fun value ↦ -value
  | digits => (tables.unsigned digits).map fun value ↦ value

/-- `CASE_BEGIN_PREFIX`. -/
def caseBeginPrefix : PyStr := PyStr.ofString "__SYZABI_CASE_BEGIN__:"

/-- `CASE_EXIT_PREFIX`. -/
def caseExitPrefix : PyStr := PyStr.ofString "__SYZABI_CASE_EXIT__:"

def beginMarker (label : PyStr) : PyStr := caseBeginPrefix ++ label

def exitMarker (label : PyStr) : PyStr := caseExitPrefix ++ (label ++ PyStr.ofString ":")

def fullCommand (label command : PyStr) : PyStr :=
  PyStr.ofString "echo " ++ (beginMarker label ++ (PyStr.ofString "; " ++ (command ++
    (PyStr.ofString "; echo " ++ (exitMarker label ++ PyStr.ofString "$?")))))

/-- The values of `serial_transport`; `tcp` and `unix` are sockets. -/
inductive SerialTransport where
  | stdio
  | socket

/-- What stands behind the typed line. -/
def SerialTransport.lineEnd : SerialTransport → PyStr
  | stdio => [13]
  | socket => [13, 10]

/-- What the guest sends: the bytes of each read, and how many reads have come back at each look of
`read_until` at the console. -/
structure Answer where
  pieces : List (List ℕ)
  looks : List ℕ

def runnerError (text : String) : PyError := ⟨"RunnerError", text⟩

section Code

variable (tables : Tables) (marker : PyStr)

/-- `read_until` at the console, where some text stands already. -/
def readUntilStdio (console : PyStr) (startOffset : ℕ) (pieces : List (List ℕ)) :
    List ℕ → Except PyError PyStr
  | [] => .error (runnerError
      ("did not observe marker " ++ tables.repr marker ++ " before timeout"))
  | look :: rest =>
    let text := (console ++ decodePieces (pieces.take look)).drop startOffset
    if (find marker text).isSome then .ok text
    else readUntilStdio console startOffset pieces rest

/-- `read_until` at a socket. -/
def readUntilSocket (collected : PyStr) : List (List ℕ) → Except PyError PyStr
  | [] => .error (runnerError
      ("did not observe marker " ++ tables.repr marker ++ " before timeout"))
  | piece :: rest =>
    let chunk := decodeIgnore piece
    if chunk = [] then readUntilSocket collected rest
    else if (find marker (collected ++ chunk)).isSome then .ok (collected ++ chunk)
    else readUntilSocket (collected ++ chunk) rest

/-- `read_until`. -/
def readUntil (transport : SerialTransport) (console : PyStr) (startOffset : ℕ) (answer : Answer) :
    Except PyError PyStr :=
  match transport with
  | .stdio => readUntilStdio tables marker console startOffset answer.pieces answer.looks
  | .socket => readUntilSocket tables marker [] answer.pieces

/-- What `run_command` makes of the output. -/
def parseOutput (label output : PyStr) : Except PyError (PyStr × ℤ) :=
  match find (beginMarker label) output, find (exitMarker label) output with
  | some beginIndex, some exitIndex =>
    match splitLines (output.drop exitIndex) with
    | [] => .error ⟨"IndexError", "list index out of range"⟩
    | exitLine :: _ =>
      match tables.int (strip (exitLine.drop (exitMarker label).length)) with
      | none => .error (runnerError ("failed to parse exit marker for " ++ pyText label ++ ": " ++
          tables.repr exitLine))
      | some exitCode =>
        .ok ((output.take exitIndex).drop (beginIndex + (beginMarker label).length), exitCode)
  | _, _ => .error (runnerError ("failed to capture command markers for " ++ pyText label))

/-- `run_command` at a console where some text stands already. -/
def runCommand (transport : SerialTransport) (shellPrompt console label command : PyStr)
    (guest : List ℕ → Answer) : Except PyError (PyStr × ℤ) :=
  match encodeStrict (fullCommand label command ++ transport.lineEnd) with
  | none => .error ⟨"UnicodeEncodeError", "surrogates not allowed"⟩
  | some typed => do
    let output ← readUntil tables shellPrompt transport console console.length (guest typed)
    parseOutput tables label output

end Code

/-! ### The guest -/

/-- A line end as the terminal sends it. -/
def lineEnd (carriageReturns : Bool) : PyStr := if carriageReturns then [13, 10] else [10]

/-- What the shell prints for the typed line before it prompts again. -/
def printed (carriageReturns : Bool) (label text : PyStr) (code : ℕ) : PyStr :=
  beginMarker label ++ (lineEnd carriageReturns ++ (text ++ (exitMarker label ++
    (decimal code ++ lineEnd carriageReturns))))

/-- A command at the shell and what comes of it. The prompt stands only behind what the shell
prints. -/
structure Exchange where
  label : PyStr
  command : PyStr
  text : PyStr
  code : ℕ
  carriageReturns : Bool
  shellPrompt : PyStr
  behindPrompt : PyStr
  label_valid : ∀ c ∈ label, c.isValidChar
  command_valid : ∀ c ∈ command, c.isValidChar
  text_valid : ∀ c ∈ text, c.isValidChar
  prompt_ne : shellPrompt ≠ []
  prompt_ascii : ∀ c ∈ shellPrompt ++ behindPrompt, c < 128
  prompt_free : ¬shellPrompt <:+: printed carriageReturns label text code

namespace Exchange

/-- What the shell prints, and the prompt. -/
def shown (exchange : Exchange) : PyStr :=
  printed exchange.carriageReturns exchange.label exchange.text exchange.code ++
    (exchange.shellPrompt ++ exchange.behindPrompt)

/-- What the terminal sends, which may echo the typed line before the shell runs it. -/
def stream (exchange : Exchange) (echo : Bool) : PyStr :=
  if echo then fullCommand exchange.label exchange.command ++
    (lineEnd exchange.carriageReturns ++ exchange.shown)
  else exchange.shown

/-- The bytes of the typed line. -/
def typed (exchange : Exchange) (transport : SerialTransport) : List ℕ :=
  encode (fullCommand exchange.label exchange.command ++ transport.lineEnd)

/-- The bytes of each read behind the typed line. -/
def pieces (exchange : Exchange) (transport : SerialTransport) (guest : List ℕ → Answer) :
    List (List ℕ) :=
  (guest (exchange.typed transport)).pieces

/-- The guest answers the typed line with the stream, and the console is looked at again when all of
it has come. -/
def Answers (exchange : Exchange) (echo : Bool) (transport : SerialTransport)
    (guest : List ℕ → Answer) : Prop :=
  (exchange.pieces transport guest).flatten = encode (exchange.stream echo) ∧
    ∃ look ∈ (guest (exchange.typed transport)).looks,
      (exchange.pieces transport guest).length ≤ look

/-- `run_command` at the guest. -/
def run (exchange : Exchange) (tables : Tables) (transport : SerialTransport) (console : PyStr)
    (guest : List ℕ → Answer) : Except PyError (PyStr × ℤ) :=
  runCommand tables transport exchange.shellPrompt console exchange.label exchange.command guest

/-- The result is the text that the command printed, behind the line end of the marker before it,
and its exit code. -/
def Captured (exchange : Exchange) (result : Except PyError (PyStr × ℤ)) : Prop :=
  result = .ok (lineEnd exchange.carriageReturns ++ exchange.text, exchange.code)

/-- The terminal does not echo, no read ends inside a character, the label is one line, and the text
does not run into the exit marker so that this seems to begin before. -/
structure Clear (exchange : Exchange) (echo : Bool) (pieces : List (List ℕ)) : Prop where
  silent : echo = false
  intact : Intact pieces
  line : ∀ c ∈ exchange.label, isLineBreak c = false
  apart : ¬exitMarker exchange.label <:+: exchange.text ++ (exitMarker exchange.label).dropLast

end Exchange

/-! ### Reading -/

section Reading

variable {tables : Tables} {marker : PyStr}

/-- What is read is a part of what comes in which the marker stands. -/
def ReadOf (marker : PyStr) (pieces : List (List ℕ)) (output : PyStr) : Prop :=
  marker <:+: output ∧ output <+: decodePieces pieces

theorem readUntilStdio_spec (console : PyStr) (pieces : List (List ℕ)) (looks : List ℕ) :
    (∀ output, readUntilStdio tables marker console console.length pieces looks = .ok output →
        ReadOf marker pieces output) ∧
      (marker <:+: decodePieces pieces → (∃ look ∈ looks, pieces.length ≤ look) →
        ∃ output, readUntilStdio tables marker console console.length pieces looks =
          .ok output) := by
  induction looks with
  | nil =>
    refine ⟨fun output houtput ↦ (nomatch houtput), fun _ hlook ↦ ?_⟩
    obtain ⟨look, hmem, -⟩ := hlook
    cases hmem
  | cons look rest ih =>
    rw [readUntilStdio, List.drop_left]
    by_cases hfound : (find marker (decodePieces (pieces.take look))).isSome
    · rw [if_pos hfound]
      refine ⟨fun output houtput ↦ ?_, fun _ _ ↦ ⟨_, rfl⟩⟩
      obtain rfl := Except.ok.inj houtput
      refine ⟨isSome_find_iff.mp hfound, ?_⟩
      conv_rhs => rw [← List.take_append_drop look pieces, decodePieces_append]
      exact List.prefix_append _ _
    · rw [if_neg hfound]
      refine ⟨ih.1, fun hmarker hlook ↦ ih.2 hmarker ?_⟩
      obtain ⟨later, hlater, hle⟩ := hlook
      rcases List.mem_cons.mp hlater with rfl | hrest
      · rw [List.take_of_length_le hle, isSome_find_iff] at hfound
        exact absurd hmarker hfound
      · exact ⟨later, hrest, hle⟩

theorem readUntilSocket_spec (before pieces : List (List ℕ))
    (hbefore : ¬marker <:+: decodePieces before) :
    (∀ output, readUntilSocket tables marker (decodePieces before) pieces = .ok output →
        ReadOf marker (before ++ pieces) output) ∧
      (marker <:+: decodePieces (before ++ pieces) →
        ∃ output, readUntilSocket tables marker (decodePieces before) pieces = .ok output) := by
  induction pieces generalizing before with
  | nil =>
    refine ⟨fun output houtput ↦ (nomatch houtput), fun hmarker ↦ ?_⟩
    rw [List.append_nil] at hmarker
    exact absurd hmarker hbefore
  | cons piece rest ih =>
    have hmore : decodePieces (before ++ [piece]) = decodePieces before ++ decodeIgnore piece := by
      rw [decodePieces_append]
      exact congrArg _ (List.flatMap_singleton _ _)
    have hassoc : before ++ piece :: rest = before ++ [piece] ++ rest := by
      rw [List.append_assoc, List.singleton_append]
    rw [readUntilSocket, hassoc]
    by_cases hempty : decodeIgnore piece = []
    · rw [hempty, List.append_nil] at hmore
      rw [if_pos hempty, ← hmore]
      exact ih (before ++ [piece]) (by rwa [hmore])
    · rw [if_neg hempty, ← hmore]
      by_cases hfound : (find marker (decodePieces (before ++ [piece]))).isSome
      · rw [if_pos hfound]
        refine ⟨fun output houtput ↦ ?_, fun _ ↦ ⟨_, rfl⟩⟩
        obtain rfl := Except.ok.inj houtput
        refine ⟨isSome_find_iff.mp hfound, ?_⟩
        rw [decodePieces_append (before ++ [piece])]
        exact List.prefix_append _ _
      · rw [if_neg hfound]
        exact ih _ fun hmarker ↦ hfound (isSome_find_iff.mpr hmarker)

theorem readUntil_spec (tables : Tables) (hmarker : marker ≠ []) (transport : SerialTransport)
    (console : PyStr) (answer : Answer) :
    (∀ output, readUntil tables marker transport console console.length answer = .ok output →
        ReadOf marker answer.pieces output) ∧
      (marker <:+: decodePieces answer.pieces →
        (∃ look ∈ answer.looks, answer.pieces.length ≤ look) →
          ∃ output, readUntil tables marker transport console console.length answer =
            .ok output) := by
  cases transport with
  | stdio => exact readUntilStdio_spec console answer.pieces answer.looks
  | socket =>
    have hsocket := @readUntilSocket_spec tables marker [] answer.pieces
      fun hnil ↦ hmarker (List.infix_nil.mp hnil)
    exact ⟨hsocket.1, fun hfound _ ↦ hsocket.2 hfound⟩

end Reading

/-! ### Parsing -/

section Parsing

variable {tables : Tables}

theorem digitOf_eq {c : ℕ} (hc : isDigit c = true) : tables.digitOf c = some (c - 48) := by
  have hrange := isDigit_iff.mp hc
  rw [Tables.digitOf, if_pos (by omega), if_pos hc]

theorem moreDigits_eq {digits : PyStr} (hdigits : ∀ c ∈ digits, isDigit c = true) (value : ℕ) :
    tables.moreDigits value digits =
      some (digits.foldl (fun value c ↦ 10 * value + (c - 48)) value) := by
  induction digits generalizing value with
  | nil => rw [Tables.moreDigits, List.foldl_nil]
  | cons c rest ih =>
    rw [List.forall_mem_cons] at hdigits
    have hrange := isDigit_iff.mp hdigits.1
    rw [Tables.moreDigits, digitOf_eq hdigits.1, Option.bind_some, ih hdigits.2, List.foldl_cons]
    intro _ _ hunderscore
    omega

/-- A decimal number is read back. -/
theorem int_decimal (code : ℕ) : tables.int (strip (decimal code)) = some (code : ℤ) := by
  have hdigit : ∀ c ∈ decimal code, isDigit c = true := fun c hc ↦ isDigit_of_mem_decimal hc
  have hstrip : strip (decimal code) = decimal code := by
    refine reverse_dropWhile_eq_self fun c hc ↦ ?_
    have hrange := isDigit_iff.mp (hdigit c hc)
    rw [isStripped]
    simp only [List.mem_cons, List.not_mem_nil, or_false, Bool.or_eq_false_iff,
      decide_eq_false_iff_not, Bool.and_eq_false_iff]
    omega
  obtain ⟨c, rest, hdecimal⟩ := List.exists_cons_of_ne_nil (decimal_ne_nil code)
  have hunsigned : tables.unsigned (decimal code) = some code := by
    conv_rhs => rw [← digitsValue_decimal code]
    rw [hdecimal] at hdigit ⊢
    rw [List.forall_mem_cons] at hdigit
    rw [Tables.unsigned, digitOf_eq hdigit.1, Option.bind_some, moreDigits_eq hdigit.2,
      digitsValue, List.foldl_cons, Nat.mul_zero, Nat.zero_add]
  have hc := isDigit_iff.mp (hdigit c (hdecimal ▸ List.mem_cons_self))
  rw [Tables.int, hstrip, hstrip]
  split
  · next digits hplus =>
    rw [hdecimal] at hplus
    obtain ⟨rfl, -⟩ := List.cons.inj hplus
    omega
  · next digits hminus =>
    rw [hdecimal] at hminus
    obtain ⟨rfl, -⟩ := List.cons.inj hminus
    omega
  · rw [hunsigned]
    rfl

/-- A text up to its first line break is a line. -/
theorem exists_splitLinesFrom_break (line : PyStr) {front : PyStr}
    (hfront : ∀ c ∈ front, isLineBreak c = false) {c : ℕ} (hc : isLineBreak c = true)
    (rest : PyStr) :
    ∃ lines, splitLinesFrom line (front ++ c :: rest) = (line ++ front) :: lines := by
  induction front generalizing line with
  | nil =>
    rw [List.nil_append, List.append_nil]
    by_cases hpair : ∃ more, c = 13 ∧ rest = 10 :: more
    · obtain ⟨more, rfl, rfl⟩ := hpair
      exact ⟨_, rfl⟩
    · rw [splitLinesFrom, if_pos hc]
      · exact ⟨_, rfl⟩
      · exact fun more hreturn hfeed ↦ hpair ⟨more, hreturn, hfeed⟩
  | cons d front ih =>
    rw [List.forall_mem_cons] at hfront
    obtain ⟨lines, hlines⟩ := ih (line ++ [d]) hfront.2
    refine ⟨lines, ?_⟩
    rw [List.cons_append, splitLinesFrom, hfront.1, if_neg Bool.false_ne_true, hlines,
      List.append_assoc, List.singleton_append]
    rintro more rfl -
    exact absurd hfront.1 (by decide)

theorem exists_splitLines_lineEnd {front : PyStr} (hfront : ∀ c ∈ front, isLineBreak c = false)
    (carriageReturns : Bool) (rest : PyStr) :
    ∃ lines, splitLines (front ++ (lineEnd carriageReturns ++ rest)) = front :: lines := by
  cases carriageReturns with
  | false => exact exists_splitLinesFrom_break [] hfront (c := 10) rfl rest
  | true => exact exists_splitLinesFrom_break [] hfront (c := 13) rfl (10 :: rest)

theorem parseOutput_eq_ok_iff {label output part : PyStr} {code : ℤ} :
    parseOutput tables label output = .ok (part, code) ↔
      ∃ beginIndex exitIndex exitLine lines,
        find (beginMarker label) output = some beginIndex ∧
        find (exitMarker label) output = some exitIndex ∧
        splitLines (output.drop exitIndex) = exitLine :: lines ∧
        tables.int (strip (exitLine.drop (exitMarker label).length)) = some code ∧
        (output.take exitIndex).drop (beginIndex + (beginMarker label).length) = part := by
  rw [parseOutput]
  constructor
  · intro hparse
    split at hparse
    · next beginIndex exitIndex hbegin hexit =>
      split at hparse
      · cases hparse
      · next exitLine lines hlines =>
        split at hparse
        · cases hparse
        · next exitCode hcode =>
          obtain ⟨rfl, rfl⟩ := Prod.mk.inj (Except.ok.inj hparse)
          exact ⟨beginIndex, exitIndex, exitLine, lines, hbegin, hexit, hlines, hcode, rfl⟩
    · cases hparse
  · rintro ⟨beginIndex, exitIndex, exitLine, lines, hbegin, hexit, hlines, hcode, rfl⟩
    rw [hbegin, hexit]
    dsimp only
    rw [hlines]
    dsimp only
    rw [hcode]

/-- A result that is not empty stands between the markers. -/
theorem exists_between {start stop output part : PyStr} {beginIndex exitIndex : ℕ}
    (hbegin : find start output = some beginIndex) (hexit : find stop output = some exitIndex)
    (hpart : (output.take exitIndex).drop (beginIndex + start.length) = part) (hne : part ≠ []) :
    ∃ before rest, output = before ++ (start ++ (part ++ (stop ++ rest))) ∧
      before.length = beginIndex ∧ (before ++ (start ++ part)).length = exitIndex := by
  obtain ⟨before, behind, houtput, rfl, more, rfl⟩ := exists_of_find hbegin
  obtain ⟨front, tail, hsplit, rfl, rest, rfl⟩ := exists_of_find hexit
  rw [hsplit, List.take_left] at hpart
  have hlong : before.length + start.length ≤ front.length := by
    by_contra hshort
    exact hne (hpart.symm.trans (List.drop_eq_nil_of_le (by omega)))
  have hhead : before ++ start <+: output := by
    rw [houtput, ← List.append_assoc]
    exact List.prefix_append _ _
  have hfront : front <+: output := by
    rw [hsplit]
    exact List.prefix_append _ _
  obtain ⟨between, rfl⟩ := List.prefix_of_prefix_length_le hhead hfront
    (by rwa [List.length_append])
  rw [← List.length_append, List.drop_left] at hpart
  subst hpart
  refine ⟨before, rest, ?_, rfl, ?_⟩
  · rw [hsplit]
    simp only [List.append_assoc]
  · simp only [List.append_assoc]

end Parsing

/-! ### Capturing -/

theorem wide_eq_zero {text : PyStr} (hascii : ∀ c ∈ text, c < 128) : wide text = 0 :=
  List.countP_eq_zero.mpr fun c hc ↦ by simpa using hascii c hc

theorem isValidChar_of_ascii {c : ℕ} (hascii : c < 128) : c.isValidChar :=
  Or.inl (by omega)

theorem lineEnd_ascii (carriageReturns : Bool) : ∀ c ∈ lineEnd carriageReturns, c < 128 := by
  cases carriageReturns <;> decide

theorem decimal_ascii (code : ℕ) : ∀ c ∈ decimal code, c < 128 := by
  intro c hc
  have hrange := isDigit_iff.mp (isDigit_of_mem_decimal hc)
  omega

theorem length_markers (label : PyStr) :
    (beginMarker label).length = label.length + 22 ∧
      (exitMarker label).length = label.length + 22 := by
  have hbegin : caseBeginPrefix.length = 22 := by decide +kernel
  have hexit : caseExitPrefix.length = 21 := by decide +kernel
  have hcolon : (PyStr.ofString ":").length = 1 := by decide +kernel
  constructor
  · rw [beginMarker, List.length_append, hbegin, Nat.add_comm]
  · rw [exitMarker, List.length_append, List.length_append, hexit, hcolon]
    omega

theorem exitMarker_ne_nil (label : PyStr) : exitMarker label ≠ [] :=
  List.ne_nil_of_length_pos ((length_markers label).2 ▸ Nat.succ_pos _)

/-- The markers are of one length, and they differ. -/
theorem not_exit_infix_begin (label : PyStr) : ¬exitMarker label <:+: beginMarker label := by
  intro hoccurs
  have hlength := length_markers label
  have heq := congrArg (List.take 16) (hoccurs.eq_of_length (hlength.2.trans hlength.1.symm))
  rw [exitMarker, beginMarker, List.take_append_of_le_length (by decide +kernel),
    List.take_append_of_le_length (by decide +kernel)] at heq
  revert heq
  decide +kernel

theorem exitMarker_line {label : PyStr} (hline : ∀ c ∈ label, isLineBreak c = false) :
    ∀ c ∈ exitMarker label, isLineBreak c = false := by
  have hword : ∀ c ∈ caseExitPrefix, isLineBreak c = false := by decide +kernel
  have hcolon : ∀ c ∈ PyStr.ofString ":", isLineBreak c = false := by decide +kernel
  rw [exitMarker]
  exact List.forall_mem_append.mpr ⟨hword, List.forall_mem_append.mpr ⟨hline, hcolon⟩⟩

/-- The line end behind the first marker keeps an exit marker from beginning there. -/
theorem not_exit_infix {label : PyStr} (hline : ∀ c ∈ label, isLineBreak c = false)
    (carriageReturns : Bool) {rest : PyStr} (hrest : ¬exitMarker label <:+: rest) :
    ¬exitMarker label <:+: beginMarker label ++ (lineEnd carriageReturns ++ rest) := by
  have hfeed : 10 ∉ exitMarker label := fun hmem ↦
    absurd (exitMarker_line hline 10 hmem) (by decide)
  have hreturn : 13 ∉ exitMarker label := fun hmem ↦
    absurd (exitMarker_line hline 13 hmem) (by decide)
  have hbehind : ¬exitMarker label <:+: 10 :: rest := by
    refine not_infix_append_cons (a := []) hfeed (fun hnil ↦ ?_) hrest
    exact exitMarker_ne_nil label (List.infix_nil.mp hnil)
  cases carriageReturns with
  | false => exact not_infix_append_cons hfeed (not_exit_infix_begin label) hrest
  | true => exact not_infix_append_cons hreturn (not_exit_infix_begin label) hbehind

namespace Exchange

variable (exchange : Exchange)

theorem shown_eq : exchange.shown = beginMarker exchange.label ++
    ((lineEnd exchange.carriageReturns ++ exchange.text) ++ (exitMarker exchange.label ++
      (decimal exchange.code ++ (lineEnd exchange.carriageReturns ++
        (exchange.shellPrompt ++ exchange.behindPrompt))))) := by
  rw [shown, printed]
  simp only [List.append_assoc]

theorem markers_valid : (∀ c ∈ beginMarker exchange.label, c.isValidChar) ∧
    ∀ c ∈ exitMarker exchange.label, c.isValidChar := by
  have hbegin : ∀ c ∈ caseBeginPrefix, c < 128 := by decide +kernel
  have hexit : ∀ c ∈ caseExitPrefix, c < 128 := by decide +kernel
  have hcolon : ∀ c ∈ PyStr.ofString ":", c < 128 := by decide +kernel
  rw [beginMarker, exitMarker]
  simp only [List.forall_mem_append]
  exact ⟨⟨fun c hc ↦ isValidChar_of_ascii (hbegin c hc), exchange.label_valid⟩,
    fun c hc ↦ isValidChar_of_ascii (hexit c hc), exchange.label_valid,
    fun c hc ↦ isValidChar_of_ascii (hcolon c hc)⟩

theorem fullCommand_valid :
    ∀ c ∈ fullCommand exchange.label exchange.command, c.isValidChar := by
  have hecho : ∀ c ∈ PyStr.ofString "echo ", c < 128 := by decide +kernel
  have hnext : ∀ c ∈ PyStr.ofString "; ", c < 128 := by decide +kernel
  have hagain : ∀ c ∈ PyStr.ofString "; echo ", c < 128 := by decide +kernel
  have hstatus : ∀ c ∈ PyStr.ofString "$?", c < 128 := by decide +kernel
  rw [fullCommand]
  simp only [List.forall_mem_append]
  exact ⟨fun c hc ↦ isValidChar_of_ascii (hecho c hc), exchange.markers_valid.1,
    fun c hc ↦ isValidChar_of_ascii (hnext c hc), exchange.command_valid,
    fun c hc ↦ isValidChar_of_ascii (hagain c hc), exchange.markers_valid.2,
    fun c hc ↦ isValidChar_of_ascii (hstatus c hc)⟩

theorem shown_valid : ∀ c ∈ exchange.shown, c.isValidChar := by
  have hend := fun c hc ↦ isValidChar_of_ascii (lineEnd_ascii exchange.carriageReturns c hc)
  rw [shown_eq]
  simp only [List.forall_mem_append]
  have hprompt := List.forall_mem_append.mp exchange.prompt_ascii
  exact ⟨exchange.markers_valid.1, ⟨hend, exchange.text_valid⟩, exchange.markers_valid.2,
    fun c hc ↦ isValidChar_of_ascii (decimal_ascii exchange.code c hc), hend,
    fun c hc ↦ isValidChar_of_ascii (hprompt.1 c hc),
    fun c hc ↦ isValidChar_of_ascii (hprompt.2 c hc)⟩

theorem stream_valid (echo : Bool) : ∀ c ∈ exchange.stream echo, c.isValidChar := by
  have hend := fun c hc ↦ isValidChar_of_ascii (lineEnd_ascii exchange.carriageReturns c hc)
  cases echo with
  | false => exact exchange.shown_valid
  | true =>
    exact List.forall_mem_append.mpr ⟨exchange.fullCommand_valid,
      List.forall_mem_append.mpr ⟨hend, exchange.shown_valid⟩⟩

/-- Beyond ASCII are the label in the markers and the text. -/
theorem wide_shown : wide exchange.shown = wide (beginMarker exchange.label) +
    (wide (lineEnd exchange.carriageReturns ++ exchange.text) +
      wide (exitMarker exchange.label)) := by
  have hprompt := wide_eq_zero exchange.prompt_ascii
  have hcode := wide_eq_zero (decimal_ascii exchange.code)
  have hend := wide_eq_zero (lineEnd_ascii exchange.carriageReturns)
  rw [wide_append] at hprompt
  rw [shown_eq]
  simp only [wide_append]
  omega

variable {exchange} {tables : Tables} {transport : SerialTransport} {console : PyStr}
  {guest : List ℕ → Answer} {echo : Bool}

theorem encodeStrict_typed :
    encodeStrict (fullCommand exchange.label exchange.command ++ transport.lineEnd) =
      some (exchange.typed transport) := by
  have hascii : ∀ c ∈ transport.lineEnd, c < 128 := by cases transport <;> decide
  have hvalid : ∀ c ∈ fullCommand exchange.label exchange.command ++ transport.lineEnd,
      c.isValidChar :=
    List.forall_mem_append.mpr ⟨exchange.fullCommand_valid,
      fun c hc ↦ isValidChar_of_ascii (hascii c hc)⟩
  exact if_pos hvalid

theorem run_eq_ok_iff {result : PyStr × ℤ} :
    exchange.run tables transport console guest = .ok result ↔
      ∃ output, readUntil tables exchange.shellPrompt transport console console.length
          (guest (exchange.typed transport)) = .ok output ∧
        parseOutput tables exchange.label output = .ok result := by
  unfold run runCommand
  simp only [encodeStrict_typed, bind_eq_ok_iff]

/-- What is read of a stream without echo holds all that the shell prints. -/
theorem printed_isPrefix {output : PyStr} (hoccurs : exchange.shellPrompt <:+: output)
    (houtput : output <+: exchange.shown) :
    printed exchange.carriageReturns exchange.label exchange.text exchange.code <+: output := by
  rcases List.prefix_or_prefix_of_prefix houtput (List.prefix_append _ _) with hshort | hlong
  · exact absurd (hoccurs.trans hshort.isInfix) exchange.prompt_free
  · exact hlong

/-- Where the exit marker is found there is the one that the shell prints. -/
theorem find_exit (hline : ∀ c ∈ exchange.label, isLineBreak c = false)
    (hapart : ¬exitMarker exchange.label <:+:
      exchange.text ++ (exitMarker exchange.label).dropLast) (more : PyStr) :
    find (exitMarker exchange.label) ((beginMarker exchange.label ++
        (lineEnd exchange.carriageReturns ++ exchange.text)) ++
          (exitMarker exchange.label ++ more)) =
      some (beginMarker exchange.label ++
        (lineEnd exchange.carriageReturns ++ exchange.text)).length := by
  refine find_append (exitMarker_ne_nil exchange.label) ?_
  rw [List.append_assoc, List.append_assoc]
  exact not_exit_infix hline _ hapart

/-- What the shell prints is parsed. -/
theorem parseOutput_printed (hline : ∀ c ∈ exchange.label, isLineBreak c = false)
    (hapart : ¬exitMarker exchange.label <:+:
      exchange.text ++ (exitMarker exchange.label).dropLast) (more : PyStr) :
    parseOutput tables exchange.label (printed exchange.carriageReturns exchange.label
        exchange.text exchange.code ++ more) =
      .ok (lineEnd exchange.carriageReturns ++ exchange.text, exchange.code) := by
  have houtput : printed exchange.carriageReturns exchange.label exchange.text exchange.code ++
      more = (beginMarker exchange.label ++ (lineEnd exchange.carriageReturns ++ exchange.text)) ++
        (exitMarker exchange.label ++ (decimal exchange.code ++
          (lineEnd exchange.carriageReturns ++ more))) := by
    rw [printed]
    simp only [List.append_assoc]
  have hbegin : beginMarker exchange.label <+: (beginMarker exchange.label ++
      (lineEnd exchange.carriageReturns ++ exchange.text)) ++ (exitMarker exchange.label ++
        (decimal exchange.code ++ (lineEnd exchange.carriageReturns ++ more))) :=
    (List.prefix_append _ _).trans (List.prefix_append _ _)
  have hexit := find_exit hline hapart
    (decimal exchange.code ++ (lineEnd exchange.carriageReturns ++ more))
  have hfront : ∀ c ∈ exitMarker exchange.label ++ decimal exchange.code,
      isLineBreak c = false := by
    refine List.forall_mem_append.mpr ⟨exitMarker_line hline, fun c hc ↦ ?_⟩
    have hrange := isDigit_iff.mp (isDigit_of_mem_decimal hc)
    simp only [isLineBreak, List.mem_cons, List.not_mem_nil, or_false, decide_eq_false_iff_not]
    omega
  obtain ⟨lines, hlines⟩ := exists_splitLines_lineEnd hfront exchange.carriageReturns more
  rw [houtput, parseOutput_eq_ok_iff]
  refine ⟨0, _, exitMarker exchange.label ++ decimal exchange.code, lines,
    find_of_isPrefix hbegin, hexit, ?_, ?_, ?_⟩
  · rw [List.drop_left, ← List.append_assoc]
    exact hlines
  · rw [List.drop_left, int_decimal]
  · rw [List.take_left, Nat.zero_add, List.drop_left]

/-- A guest that does what it should is understood. -/
theorem captured_of_clear (hguest : exchange.Answers echo transport guest)
    (hclear : exchange.Clear echo (exchange.pieces transport guest)) :
    exchange.Captured (exchange.run tables transport console guest) := by
  obtain ⟨rfl, hintact, hline, hapart⟩ := hclear
  have hdecoded := decodePieces_of_intact hintact (exchange.stream_valid false) hguest.1
  have hspec := readUntil_spec tables exchange.prompt_ne transport console
    (guest (exchange.typed transport))
  obtain ⟨output, houtput⟩ := hspec.2 (by
    rw [← pieces, hdecoded]
    exact ⟨_, _, List.append_assoc _ _ _⟩) hguest.2
  obtain ⟨hoccurs, hpart⟩ := hspec.1 output houtput
  rw [← pieces, hdecoded] at hpart
  obtain ⟨more, rfl⟩ := printed_isPrefix hoccurs hpart
  exact run_eq_ok_iff.mpr ⟨_, houtput, parseOutput_printed hline hapart more⟩

/-- A captured result stands between the markers in what comes in, and these are the first ones. -/
theorem Captured.exists_output
    (hcaptured : exchange.Captured (exchange.run tables transport console guest)) :
    ∃ output before rest, ReadOf exchange.shellPrompt (exchange.pieces transport guest) output ∧
      output = before ++ (beginMarker exchange.label ++
        ((lineEnd exchange.carriageReturns ++ exchange.text) ++
          (exitMarker exchange.label ++ rest))) ∧
      find (beginMarker exchange.label) output = some before.length ∧
      find (exitMarker exchange.label) output = some (before ++ (beginMarker exchange.label ++
        (lineEnd exchange.carriageReturns ++ exchange.text))).length ∧
      ∀ c ∈ exchange.label, isLineBreak c = false := by
  obtain ⟨output, houtput, hparse⟩ := run_eq_ok_iff.mp hcaptured
  obtain ⟨beginIndex, exitIndex, exitLine, lines, hbegin, hexit, hlines, hcode, hpart⟩ :=
    parseOutput_eq_ok_iff.mp hparse
  have hne : lineEnd exchange.carriageReturns ++ exchange.text ≠ [] := by
    cases exchange.carriageReturns <;> exact List.cons_ne_nil _ _
  obtain ⟨before, rest, hsplit, rfl, rfl⟩ := exists_between hbegin hexit hpart hne
  have hread := (readUntil_spec tables exchange.prompt_ne transport console _).1 output houtput
  refine ⟨output, before, rest, hread, hsplit, hbegin, hexit, fun c hc ↦ ?_⟩
  by_contra hbreak
  have hmem : c ∈ exitMarker exchange.label :=
    List.mem_append_right _ (List.mem_append_left _ hc)
  -- the line of the marker ends inside it, and an empty text is no number
  obtain ⟨d, hd⟩ := Option.isSome_iff_exists.mp
    (List.find?_isSome.mpr ⟨c, hmem, Bool.eq_true_of_not_eq_false hbreak⟩)
  obtain ⟨hdbreak, front, back, hmarker, hfront⟩ := List.find?_eq_some_iff_append.mp hd
  have hassoc : output = (before ++ (beginMarker exchange.label ++
      (lineEnd exchange.carriageReturns ++ exchange.text))) ++ (front ++ d :: (back ++ rest)) := by
    rw [hsplit, hmarker]
    simp only [List.append_assoc, List.cons_append]
  obtain ⟨more, hmore⟩ := exists_splitLinesFrom_break []
    (fun e he ↦ by simpa using hfront e he) hdbreak (back ++ rest)
  rw [hassoc, List.drop_left, splitLines, hmore] at hlines
  obtain ⟨rfl, -⟩ := List.cons.inj hlines
  rw [List.nil_append, List.drop_eq_nil_of_le (by rw [hmarker, List.length_append]; omega)] at hcode
  cases hcode

/-- Without echo all characters of the text come in only when no read ends inside one. -/
theorem Captured.clear (hguest : exchange.Answers false transport guest)
    (hcaptured : exchange.Captured (exchange.run tables transport console guest)) :
    exchange.Clear false (exchange.pieces transport guest) := by
  obtain ⟨output, before, rest, ⟨hoccurs, hpart⟩, hsplit, hbegin, hexit, hline⟩ :=
    hcaptured.exists_output
  have hintact : Intact (exchange.pieces transport guest) := by
    refine intact_of_wide_le (exchange.stream_valid false) hguest.1 ?_
    have hwide : wide output ≤ wide (decodePieces (exchange.pieces transport guest)) :=
      hpart.sublist.countP_le
    refine le_trans ?_ hwide
    rw [show exchange.stream false = exchange.shown from rfl, wide_shown, hsplit]
    rw [wide_append before, wide_append (beginMarker exchange.label),
      wide_append (lineEnd exchange.carriageReturns ++ exchange.text),
      wide_append (exitMarker exchange.label)]
    omega
  refine ⟨rfl, hintact, hline, fun hoverlap ↦ ?_⟩
  rw [decodePieces_of_intact hintact (exchange.stream_valid false) hguest.1] at hpart
  have hprinted := printed_isPrefix hoccurs hpart
  obtain ⟨more, rfl⟩ := hprinted
  have hzero : find (beginMarker exchange.label) (printed exchange.carriageReturns exchange.label
      exchange.text exchange.code ++ more) = some 0 := by
    rw [printed, List.append_assoc]
    exact find_of_isPrefix (List.prefix_append _ _)
  obtain rfl := List.length_eq_zero_iff.mp (Option.some.inj (hbegin.symm.trans hzero))
  rw [List.nil_append] at hsplit hexit
  have hproper := List.dropLast_append_getLast (exitMarker_ne_nil exchange.label)
  have hearly : exitMarker exchange.label <:+: beginMarker exchange.label ++
      ((lineEnd exchange.carriageReturns ++ exchange.text) ++
        (exitMarker exchange.label).dropLast) := by
    rw [List.append_assoc, ← List.append_assoc]
    exact hoverlap.trans (List.suffix_append _ _).isInfix
  obtain ⟨index, hindex, hle⟩ := find_le_of_infix hearly
    ((exitMarker exchange.label).getLast (exitMarker_ne_nil exchange.label) :: rest)
  rw [List.append_assoc, List.append_assoc, ← List.singleton_append,
    ← List.append_assoc (exitMarker exchange.label).dropLast, hproper, ← hsplit, hexit] at hindex
  obtain rfl := Option.some.inj hindex
  have hpos := List.length_pos_iff.mpr (exitMarker_ne_nil exchange.label)
  simp only [List.length_append, List.length_dropLast] at hle hpos
  omega

/-- What comes in begins with the echo, which has the first marker and no line end behind it. -/
theorem exists_echo (hguest : exchange.Answers true transport guest)
    (hwhole : Intact (exchange.pieces transport guest) ∨ ∀ c ∈ exchange.label, c < 128) :
    ∃ rest, decodePieces (exchange.pieces transport guest) =
      PyStr.ofString "echo " ++ (beginMarker exchange.label ++ 59 :: rest) := by
  have hstream : ∃ rest, exchange.stream true =
      (PyStr.ofString "echo " ++ (beginMarker exchange.label ++ [59])) ++ rest := by
    have hnext : PyStr.ofString "; " = [59] ++ [32] := by decide +kernel
    rw [stream, if_pos rfl, fullCommand, hnext]
    simp only [List.append_assoc]
    exact ⟨_, rfl⟩
  obtain ⟨rest, hrest⟩ := hstream
  have hhead : ∃ more, decodePieces (exchange.pieces transport guest) =
      (PyStr.ofString "echo " ++ (beginMarker exchange.label ++ [59])) ++ more := by
    rcases hwhole with hintact | hlabel
    · exact ⟨rest, (decodePieces_of_intact hintact (exchange.stream_valid true) hguest.1).trans
        hrest⟩
    · have hascii : ∀ c ∈ PyStr.ofString "echo " ++ (beginMarker exchange.label ++ [59]),
          c < 128 := by
        have hecho : ∀ c ∈ PyStr.ofString "echo ", c < 128 := by decide +kernel
        have hbegin : ∀ c ∈ caseBeginPrefix, c < 128 := by decide +kernel
        have hnext : ∀ c ∈ [59], c < 128 := by decide
        rw [beginMarker]
        simp only [List.forall_mem_append]
        exact ⟨hecho, ⟨hbegin, hlabel⟩, hnext⟩
      have hbytes : (exchange.pieces transport guest).flatten =
          (PyStr.ofString "echo " ++ (beginMarker exchange.label ++ [59])) ++ encode rest := by
        rw [hguest.1, hrest, encode_append, encode_ascii hascii]
      exact exists_decodePieces_ascii hascii hbytes
  obtain ⟨more, hmore⟩ := hhead
  refine ⟨more, hmore.trans ?_⟩
  simp only [List.append_assoc, List.singleton_append]

/-- The marker in the echo is found first, and the section behind it is another one. -/
theorem not_captured_of_echo (hguest : exchange.Answers true transport guest)
    (hwhole : Intact (exchange.pieces transport guest) ∨ ∀ c ∈ exchange.label, c < 128) :
    ¬exchange.Captured (exchange.run tables transport console guest) := by
  intro hcaptured
  obtain ⟨output, before, rest, ⟨-, hpart⟩, hsplit, hbegin, -, -⟩ := hcaptured.exists_output
  obtain ⟨more, hmore⟩ := exists_echo hguest hwhole
  rw [hmore] at hpart
  have hecho : (PyStr.ofString "echo ").length = 5 := by decide +kernel
  obtain ⟨tail, hmarker⟩ : ∃ tail, beginMarker exchange.label = 95 :: tail :=
    ⟨caseBeginPrefix.tail ++ exchange.label, by
      have hword : caseBeginPrefix = 95 :: caseBeginPrefix.tail := by decide +kernel
      rw [beginMarker, ← List.cons_append, ← hword]⟩
  have hbefore : before <+: PyStr.ofString "echo " ++ (beginMarker exchange.label ++ 59 :: more) :=
    (hsplit ▸ List.prefix_append _ _ : before <+: output).trans hpart
  rcases lt_trichotomy before.length 5 with hshort | heq | hlong
  · -- no marker begins inside the word before it
    obtain ⟨word, hword⟩ := List.prefix_of_prefix_length_le hbefore (List.prefix_append _ _)
      (by rw [hecho]; omega)
    rw [hsplit, hmarker, ← hword, List.append_assoc before word,
      List.prefix_append_right_inj] at hpart
    cases word with
    | nil =>
      rw [List.append_nil] at hword
      rw [hword, hecho] at hshort
      omega
    | cons c word =>
      obtain ⟨rfl, -⟩ := List.cons_prefix_cons.mp hpart
      have hmem : 95 ∈ PyStr.ofString "echo " := hword ▸ List.mem_append_right _ List.mem_cons_self
      exact absurd hmem (by decide +kernel)
  · have hword : before = PyStr.ofString "echo " := by
      refine (List.prefix_of_prefix_length_le hbefore (List.prefix_append _ _) ?_).eq_of_length ?_
      · rw [heq, hecho]
      · rw [heq, hecho]
    rw [hsplit, hword, List.prefix_append_right_inj, List.prefix_append_right_inj] at hpart
    cases hreturns : exchange.carriageReturns with
    | false =>
      rw [hreturns] at hpart
      exact absurd (List.cons_prefix_cons.mp hpart).1 (by decide)
    | true =>
      rw [hreturns] at hpart
      exact absurd (List.cons_prefix_cons.mp hpart).1 (by decide)
  · have hhead : PyStr.ofString "echo " ++ beginMarker exchange.label <+:
        PyStr.ofString "echo " ++ (beginMarker exchange.label ++ 59 :: more) := by
      rw [← List.append_assoc]
      exact List.prefix_append _ _
    have hlength : (PyStr.ofString "echo " ++ beginMarker exchange.label).length ≤
        output.length := by
      rw [hsplit, List.length_append, List.length_append, List.length_append, hecho]
      omega
    obtain ⟨after, rfl⟩ := List.prefix_of_prefix_length_le hhead hpart hlength
    obtain ⟨index, hindex, hle⟩ := find_le_of_infix
      (List.suffix_append (PyStr.ofString "echo ") (beginMarker exchange.label)).isInfix after
    obtain rfl := Option.some.inj (hbegin.symm.trans hindex)
    rw [List.length_append, hecho] at hle
    omega

/-- The result is what the command printed exactly where the terminal does not echo, no read ends
inside a character, the label is one line and the text does not run into the exit marker. -/
theorem captured_run_iff (tables : Tables) (console : PyStr)
    (hguest : exchange.Answers echo transport guest)
    (hwhole : echo = true →
      Intact (exchange.pieces transport guest) ∨ ∀ c ∈ exchange.label, c < 128) :
    exchange.Captured (exchange.run tables transport console guest) ↔
      exchange.Clear echo (exchange.pieces transport guest) := by
  refine ⟨fun hcaptured ↦ ?_, captured_of_clear hguest⟩
  cases echo with
  | false => exact Captured.clear hguest hcaptured
  | true => exact absurd hcaptured (not_captured_of_echo hguest (hwhole rfl))

end Exchange

/-! ### The health check -/

/-- The tables where the texts are printable ASCII without quotes. -/
def plainTables : Tables := ⟨fun _ ↦ none, fun text ↦ "'" ++ pyText text ++ "'"⟩

/-- The health check at the configured prompt. -/
def healthcheck : Exchange where
  label := PyStr.ofString "healthcheck"
  command := PyStr.ofString "pwd && echo __SYZABI_HEALTHCHECK_OK__"
  text := PyStr.ofString "/root\r\n__SYZABI_HEALTHCHECK_OK__\r\n"
  code := 0
  carriageReturns := true
  shellPrompt := PyStr.ofString "starry:~#"
  behindPrompt := [32]
  label_valid := by decide +kernel
  command_valid := by decide +kernel
  text_valid := by decide +kernel
  prompt_ne := by decide +kernel
  prompt_ascii := by decide +kernel
  prompt_free := by decide +kernel

/-- A guest whose terminal sends the stream at once. -/
def healthyGuest (echo : Bool) (_typed : List ℕ) : Answer :=
  ⟨[encode (healthcheck.stream echo)], [1]⟩

theorem healthyGuest_answers (echo : Bool) (transport : SerialTransport) :
    healthcheck.Answers echo transport (healthyGuest echo) :=
  ⟨List.append_nil _, 1, List.mem_singleton_self 1, le_rfl⟩

theorem healthyGuest_whole (transport : SerialTransport) :
    Intact (healthcheck.pieces transport (healthyGuest false)) ∨
      ∀ c ∈ healthcheck.label, c < 128 :=
  .inr (by decide +kernel)

theorem captured_run_iff_healthcheck :
    healthcheck.Captured (healthcheck.run plainTables .stdio [] (healthyGuest false)) ↔
      healthcheck.Clear false (healthcheck.pieces .stdio (healthyGuest false)) :=
  Exchange.captured_run_iff plainTables [] (healthyGuest_answers false .stdio)
    fun _ ↦ healthyGuest_whole .stdio

/-- Where the terminal echoes, both markers are found in the echo, and `$?` is no exit code. -/
theorem not_captured_echoed : ¬∀ (tables : Tables) (transport : SerialTransport) (console : PyStr)
    (exchange : Exchange) (echo : Bool) (guest : List ℕ → Answer),
      exchange.Answers echo transport guest →
      ¬beginMarker exchange.label <:+: exchange.text →
      ¬exitMarker exchange.label <:+: exchange.text →
        exchange.Captured (exchange.run tables transport console guest) := by
  intro hcaptured
  have hresult := hcaptured plainTables .stdio [] healthcheck true (healthyGuest true)
    (healthyGuest_answers true .stdio) (by decide +kernel) (by decide +kernel)
  have hraised : (healthcheck.run plainTables .stdio [] (healthyGuest true)).toOption = none := by
    decide +kernel
  rw [Exchange.Captured] at hresult
  rw [hresult] at hraised
  cases hraised

end SyzAbi.Targets.Shell

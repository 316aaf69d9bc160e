import SyzAbi.Library.Search
import SyzAbi.Orchestrator.CandidateBatch

/-!
# Instrumentation

`instrument_source` of `tools/prog2c_wrap.py` puts `traced_syscall` in the place of the `syscall`
statements of a C source. It collects the calls in a first pass over the text, with the line prefix
and the body of each, and puts the parts of the source and the replacements together in a second
one.

`isalnum` beyond ASCII is a table of the Unicode standard, here a parameter.
-/

set_option autoImplicit false
set_option relaxedAutoImplicit false

namespace SyzAbi.Tools

open Analyzer Orchestrator Library.Json Library.Search

/-! ### Arguments -/

def isOpening (c : ℕ) : Bool := c ∈ PyStr.ofString "([\x7b"

def isClosing (c : ℕ) : Bool := c ∈ PyStr.ofString ")]\x7d"

/-- `split_args` from the middle of an argument. -/
def splitArgsFrom (current : PyStr) (depth : ℤ) : PyStr → List PyStr
  | [] => if current.isEmpty then [] else [strip current]
  | c :: rest =>
    if c = 44 ∧ depth = 0 then strip current :: splitArgsFrom [] depth rest
    else if isOpening c then splitArgsFrom (current ++ [c]) (depth + 1) rest
    else if isClosing c then splitArgsFrom (current ++ [c]) (depth - 1) rest
    else splitArgsFrom (current ++ [c]) depth rest

/-- `split_args`. -/
def splitArgs (body : PyStr) : List PyStr := splitArgsFrom [] 0 body

/-- `syscall_name`. -/
def syscallName (nrExpr : PyStr) : PyStr :=
  if (PyStr.ofString "__NR_").isPrefixOf nrExpr then nrExpr.drop 5
  else if (PyStr.ofString "SYS_").isPrefixOf nrExpr then nrExpr.drop 4
  else nrExpr

/-! ### The include line -/

def includeLine : PyStr := PyStr.ofString "#include \"trace.h\""

/-- `insert_at` after the loop of `inject_header`. -/
def insertAt (lines : List PyStr) : ℕ :=
  lines.zipIdx.foldl (fun insertAt line ↦
    if (PyStr.ofString "#include").isPrefixOf line.1 then line.2 + 1 else insertAt) 0

/-- `inject_header`. -/
def injectHeader (source : PyStr) : PyStr :=
  let lines := splitLines source
  [10].intercalate (lines.insertIdx (insertAt lines) includeLine) ++ [10]

/-! ### The calls of a source -/

/-- What `instrument_source` keeps of a call. -/
structure Call where
  start : ℕ
  stop : ℕ
  linePrefix : PyStr
  body : PyStr
  deriving DecidableEq

def callOpen : PyStr := PyStr.ofString "syscall("

/-- The slice of a text between two indexes. -/
def slice (text : PyStr) (start stop : ℕ) : PyStr := (text.drop start).take (stop - start)

/-- What follows the last line feed of a text. -/
def linePrefix (text : PyStr) : PyStr := (text.reverse.takeWhile (· ≠ 10)).reverse

/-- The turns of the loop over `paren_depth`. -/
def skipToClose : ℕ → PyStr → ℕ
  | _, [] => 0
  | 0, _ => 0
  | depth + 1, c :: rest =>
    1 + skipToClose (if c = 40 then depth + 2 else if c = 41 then depth else depth + 1) rest

/-- The blanks between a call and its semicolon. -/
def isBlank (c : ℕ) : Bool := c = 32 || c = 9 || c = 10

section Table

variable (unicodeAlnum : ℕ → Bool)

/-- `str.isalnum` of a character. -/
def isalnum (c : ℕ) : Bool :=
  if c < 128 then (48 ≤ c && c ≤ 57) || (65 ≤ c && c ≤ 90) || (97 ≤ c && c ≤ 122)
  else unicodeAlnum c

/-- The characters of an identifier. -/
def isWordChar (c : ℕ) : Bool := isalnum unicodeAlnum c || c = 95

/-- The first loop of `instrument_source` from an index on. Every turn raises the index. -/
def findCalls (source : PyStr) : ℕ → ℕ → List Call
  | 0, _ => []
  | fuel + 1, i =>
    match findFrom callOpen source i with
    | none => []
    | some idx =>
      if 0 < idx ∧ (source[idx - 1]?.any (isWordChar unicodeAlnum)) = true then
        findCalls source fuel (idx + 1)
      else
        let j := idx + callOpen.length +
          skipToClose 1 (source.drop (idx + callOpen.length))
        let k := j + ((source.drop j).takeWhile isBlank).length
        if source[k]? = some 59 then
          { start := idx
            stop := k + 1
            linePrefix := linePrefix (source.take idx)
            body := slice source (idx + callOpen.length) (j - 1) } ::
            findCalls source fuel (k + 1)
        else findCalls source fuel j

/-! ### Replacements -/

/-- The replacement of a call, behind its line prefix. -/
def tracedCall (index : ℕ) (body : PyStr) : Except PyError PyStr :=
  match splitArgs body with
  | [] => .error ⟨"IndexError", "list index out of range"⟩
  | nrExpr :: callArgs =>
    let callArgs := callArgs ++ List.replicate (6 - callArgs.length) [48]
    if 6 < callArgs.length then
      .error ⟨"ValueError", "unexpected syscall arity for " ++ pyText nrExpr ++ ": " ++
        callArgs.length.repr⟩
    else .ok (PyStr.ofString "traced_syscall(\"" ++ syscallName nrExpr ++
      PyStr.ofString "\", " ++ nrExpr ++ PyStr.ofString ", " ++ decimal index ++
      PyStr.ofString ", " ++ (PyStr.ofString ", ").intercalate (callArgs.take 6) ++
      PyStr.ofString ");")

/-- The second loop of `instrument_source`. -/
def splice (source : PyStr) (lastEnd index : ℕ) : List Call → Except PyError PyStr
  | [] => .ok (source.drop lastEnd)
  | call :: rest => do
    let replaced ← tracedCall index call.body
    let behind ← splice source call.stop (index + 1) rest
    return slice source lastEnd call.start ++ (call.linePrefix ++ replaced) ++ behind

/-- The search for `\bsyscall\s*\(` finds an occurrence at an index. -/
def rawCallAt (text : PyStr) (index : ℕ) : Bool :=
  (index = 0 || !(text[index - 1]?.any (isWordChar unicodeAlnum))) &&
    (PyStr.ofString "syscall").isPrefixOf (text.drop index) &&
    ((text.drop (index + 7)).dropWhile isStripped).head? = some 40

def hasRawCall (text : PyStr) : Bool :=
  (List.range text.length).any (rawCallAt unicodeAlnum text)

/-- `instrument_source`. -/
def instrumentSource (source : PyStr) : Except PyError (PyStr × ℕ) := do
  let source := injectHeader source
  let calls := findCalls unicodeAlnum source (source.length + 1) 0
  let instrumented ← splice source 0 0 calls
  if hasRawCall unicodeAlnum instrumented then
    .error ⟨"ValueError", "raw syscall invocation remains after instrumentation"⟩
  else .ok (instrumented, calls.length)

end Table

end SyzAbi.Tools

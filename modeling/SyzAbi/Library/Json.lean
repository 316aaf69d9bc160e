import Mathlib.Data.Nat.Digits.Lemmas
import Mathlib.Tactic.Linarith

/-!
# JSON texts

A JSON reader for texts given as lists of code points, with the grammar of Python's `json.loads`:
control characters are refused inside strings, `NaN` and the infinities are accepted, surrogate
escapes are joined, and the last of several members with one key counts. An object is kept sorted by
key, so equal objects are equal values.

The reader takes fuel for its recursion; a text never needs more than its length. The rules for
texts that are printed piece by piece are in `Library.JsonPrinted`.
-/

set_option autoImplicit false
set_option relaxedAutoImplicit false

namespace SyzAbi.Library.Json

/-- A text: its code points. -/
abbrev Text := List ℕ

/-- A JSON value. A number with a fraction or an exponent keeps its text. -/
inductive Value
  | null
  | bool (value : Bool)
  | int (value : ℤ)
  | float (text : Text)
  | str (text : Text)
  | arr (items : List Value)
  | obj (members : List (Text × Value))

/-! ### Scanners -/

/-- The four whitespace characters of the grammar. -/
def isSpace (c : ℕ) : Bool := c = 32 || c = 9 || c = 10 || c = 13

def skipSpace (text : Text) : Text := text.dropWhile isSpace

def isDigit (c : ℕ) : Bool := 48 ≤ c && c ≤ 57

/-- The value of a hexadecimal digit. -/
def hexDigit (c : ℕ) : Option ℕ :=
  if 48 ≤ c ∧ c ≤ 57 then some (c - 48)
  else if 97 ≤ c ∧ c ≤ 102 then some (c - 87)
  else if 65 ≤ c ∧ c ≤ 70 then some (c - 55)
  else none

/-- The value of four hexadecimal digits at the head of a text. -/
def readUnicode : Text → Option (ℕ × Text)
  | a :: b :: c :: d :: rest => do
    let value := (((← hexDigit a) * 16 + (← hexDigit b)) * 16 + (← hexDigit c)) * 16
      + (← hexDigit d)
    return (value, rest)
  | _ => none

/-- The character of a one-letter escape. -/
def simpleEscape (c : ℕ) : Option ℕ :=
  if c = 34 ∨ c = 92 ∨ c = 47 then some c
  else if c = 98 then some 8
  else if c = 102 then some 12
  else if c = 110 then some 10
  else if c = 114 then some 13
  else if c = 116 then some 9
  else none

/-- The escape after a backslash. The escapes of a surrogate pair are read together. -/
def readEscape : Text → Option (ℕ × Text)
  | 117 :: rest => do
    let (high, after) ← readUnicode rest
    match after with
    | 92 :: 117 :: more =>
      if 0xD800 ≤ high ∧ high ≤ 0xDBFF then do
        let (low, afterLow) ← readUnicode more
        if 0xDC00 ≤ low ∧ low ≤ 0xDFFF then
          return (0x10000 + (high - 0xD800) * 0x400 + (low - 0xDC00), afterLow)
        else return (high, after)
      else return (high, after)
    | _ => return (high, after)
  | c :: rest => (simpleEscape c).map fun value ↦ (value, rest)
  | [] => none

/-- A string after its opening quote, and what follows its closing quote. -/
def scanString : ℕ → Text → Option (Text × Text)
  | 0, _ => none
  | _ + 1, [] => none
  | fuel + 1, c :: rest =>
    if c = 34 then some ([], rest)
    else if c = 92 then do
      let (value, after) ← readEscape rest
      let (text, afterText) ← scanString fuel after
      return (value :: text, afterText)
    else if c < 32 then none
    else do
      let (text, afterText) ← scanString fuel rest
      return (c :: text, afterText)

/-- The value of a text of decimal digits. -/
def digitsValue (digits : Text) : ℕ :=
  digits.foldl (fun value c ↦ 10 * value + (c - 48)) 0

/-- The integer part of a number: a zero, or digits that do not begin with one. -/
def readInteger : Text → Option (Text × Text)
  | [] => none
  | c :: rest =>
    if c = 48 then some ([48], rest)
    else if isDigit c then some (c :: rest.takeWhile isDigit, rest.dropWhile isDigit)
    else none

/-- The fraction of a number, or nothing. -/
def readFraction : Text → Text × Text
  | 46 :: rest =>
    if (rest.takeWhile isDigit).isEmpty then ([], 46 :: rest)
    else (46 :: rest.takeWhile isDigit, rest.dropWhile isDigit)
  | text => ([], text)

/-- The sign of an exponent, or nothing. -/
def readSign : Text → Text × Text
  | c :: rest => if c = 43 ∨ c = 45 then ([c], rest) else ([], c :: rest)
  | [] => ([], [])

/-- The exponent of a number, or nothing. -/
def readExponent : Text → Text × Text
  | c :: rest =>
    if c = 69 ∨ c = 101 then
      let (sign, digits) := readSign rest
      if (digits.takeWhile isDigit).isEmpty then ([], c :: rest)
      else (c :: (sign ++ digits.takeWhile isDigit), digits.dropWhile isDigit)
    else ([], c :: rest)
  | [] => ([], [])

/-- A number without its sign. -/
def readUnsigned (negative : Bool) (text : Text) : Option (Value × Text) := do
  let (digits, afterDigits) ← readInteger text
  let (fraction, afterFraction) := readFraction afterDigits
  let (exponent, after) := readExponent afterFraction
  if fraction.isEmpty && exponent.isEmpty then
    let value : ℤ := digitsValue digits
    return (.int (if negative then -value else value), after)
  else
    return (.float ((if negative then [45] else []) ++ digits ++ fraction ++ exponent), after)

/-- A number. -/
def readNumber : Text → Option (Value × Text)
  | 45 :: rest => readUnsigned true rest
  | text => readUnsigned false text

/-- A keyword and its value. -/
def readKeyword (word : Text) (value : Value) (text : Text) : Option (Value × Text) :=
  if word.isPrefixOf text then some (value, text.drop word.length) else none

/-! ### Values -/

/-- The order of keys by code points. -/
def keyLt : Text → Text → Bool
  | [], [] => false
  | [], _ :: _ => true
  | _ :: _, [] => false
  | a :: as, b :: bs => a < b || (a = b && keyLt as bs)

/-- Set a member of a sorted object. -/
def insertMember (key : Text) (value : Value) : List (Text × Value) → List (Text × Value)
  | [] => [(key, value)]
  | member :: rest =>
    if key = member.1 then (key, value) :: rest
    else if keyLt key member.1 then (key, value) :: member :: rest
    else member :: insertMember key value rest

mutual

/-- A value at the head of a text, and what follows it. -/
def readValue : ℕ → Text → Option (Value × Text)
  | 0, _ => none
  | _ + 1, [] => none
  | fuel + 1, c :: rest =>
    if c = 34 then (scanString fuel rest).map fun result ↦ (.str result.1, result.2)
    else if c = 123 then
      match skipSpace rest with
      | 125 :: after => some (.obj [], after)
      | text => readMembers fuel [] text
    else if c = 91 then
      match skipSpace rest with
      | 93 :: after => some (.arr [], after)
      | text => readElements fuel text
    else if c = 110 then readKeyword [110, 117, 108, 108] .null (c :: rest)
    else if c = 116 then readKeyword [116, 114, 117, 101] (.bool true) (c :: rest)
    else if c = 102 then readKeyword [102, 97, 108, 115, 101] (.bool false) (c :: rest)
    else if c = 78 then readKeyword [78, 97, 78] (.float [78, 97, 78]) (c :: rest)
    else if c = 73 then
      readKeyword [73, 110, 102, 105, 110, 105, 116, 121]
        (.float [73, 110, 102, 105, 110, 105, 116, 121]) (c :: rest)
    else if [45, 73, 110, 102, 105, 110, 105, 116, 121].isPrefixOf (c :: rest) then
      readKeyword [45, 73, 110, 102, 105, 110, 105, 116, 121]
        (.float [45, 73, 110, 102, 105, 110, 105, 116, 121]) (c :: rest)
    else readNumber (c :: rest)

/-- The items of a nonempty array after its opening bracket. -/
def readElements : ℕ → Text → Option (Value × Text)
  | 0, _ => none
  | fuel + 1, text => do
    let (item, after) ← readValue fuel text
    match skipSpace after with
    | 93 :: rest => return (.arr [item], rest)
    | 44 :: rest =>
      match ← readElements fuel (skipSpace rest) with
      | (.arr items, last) => return (.arr (item :: items), last)
      | _ => none
    | _ => none

/-- The members of a nonempty object after its opening brace. -/
def readMembers : ℕ → List (Text × Value) → Text → Option (Value × Text)
  | 0, _, _ => none
  | fuel + 1, members, 34 :: rest => do
    let (key, afterKey) ← scanString fuel rest
    match skipSpace afterKey with
    | 58 :: afterColon =>
      let (value, afterValue) ← readValue fuel (skipSpace afterColon)
      match skipSpace afterValue with
      | 125 :: last => return (.obj (insertMember key value members), last)
      | 44 :: more => readMembers fuel (insertMember key value members) (skipSpace more)
      | _ => none
    | _ => none
  | _ + 1, _, _ => none

end

/-- A whole text as one value, with whitespace around it. -/
def parse (text : Text) : Option Value :=
  match readValue (text.length + 1) (skipSpace text) with
  | some (value, rest) => if (skipSpace rest).isEmpty then some value else none
  | none => none

/-! ### Rendering -/

/-- The decimal digits of a number. -/
def decimal (n : ℕ) : Text :=
  if n = 0 then [48] else (Nat.digits 10 n).reverse.map (48 + ·)

/-- A hexadecimal digit as a character. -/
def hexChar (n : ℕ) : ℕ := if n < 10 then 48 + n else 87 + n

/-- A character inside quotes. -/
def quoteChar (c : ℕ) : Text :=
  if c = 34 then [92, 34]
  else if c = 92 then [92, 92]
  else if c = 10 then [92, 110]
  else if c = 13 then [92, 114]
  else if c = 9 then [92, 116]
  else if c = 8 then [92, 98]
  else if c = 12 then [92, 102]
  else if c < 32 then [92, 117, 48, 48, hexChar (c / 16), hexChar (c % 16)]
  else [c]

/-- A string with its quotes. -/
def quote (text : Text) : Text := [34] ++ text.flatMap quoteChar ++ [34]

mutual

/-- The text of a value, with the separators of `json.dumps`. -/
def render : Value → Text
  | .null => [110, 117, 108, 108]
  | .bool true => [116, 114, 117, 101]
  | .bool false => [102, 97, 108, 115, 101]
  | .int (.ofNat n) => decimal n
  | .int (.negSucc n) => 45 :: decimal (n + 1)
  | .float text => text
  | .str text => quote text
  | .arr items => [91] ++ renderItems items ++ [93]
  | .obj members => [123] ++ renderMembers members ++ [125]

/-- The items of an array, separated. -/
def renderItems : List Value → Text
  | [] => []
  | [item] => render item
  | item :: rest => render item ++ [44, 32] ++ renderItems rest

/-- The members of an object, separated. -/
def renderMembers : List (Text × Value) → Text
  | [] => []
  | [(key, value)] => quote key ++ [58, 32] ++ render value
  | (key, value) :: rest => quote key ++ [58, 32] ++ render value ++ [44, 32] ++ renderMembers rest

end

/-- `dict.get` on an object. -/
def Value.get? (key : Text) : Value → Option Value
  | .obj members => members.lookup key
  | _ => none

end SyzAbi.Library.Json

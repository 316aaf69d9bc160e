import SyzAbi.Library.JsonPrinted

/-!
# JSON strings with escapes

`json.dumps` writes a string in ASCII: quotes, backslashes and line breaks get a short escape, and
every other character outside the printable range is written as four hexadecimal digits, or as two
such escapes when it needs a surrogate pair (`quoteAscii`). Such a string reads back
(`scanString_quoteAscii`). A string that is printed as it is does not when it holds a control
character: the reader refuses it, and with it every array and object around it
(`refused_array`, `refused_object`).
-/

set_option autoImplicit false
set_option relaxedAutoImplicit false

namespace SyzAbi.Library.Json

/-! ### ASCII strings -/

/-- Four hexadecimal digits. -/
def hexDigits (n : ℕ) : Text :=
  [hexChar (n / 4096), hexChar (n / 256 % 16), hexChar (n / 16 % 16), hexChar (n % 16)]

/-- A character in an ASCII string. -/
def asciiChar (c : ℕ) : Text :=
  if c = 34 then [92, 34]
  else if c = 92 then [92, 92]
  else if c = 10 then [92, 110]
  else if c = 13 then [92, 114]
  else if c = 9 then [92, 116]
  else if c = 8 then [92, 98]
  else if c = 12 then [92, 102]
  else if 32 ≤ c ∧ c ≤ 126 then [c]
  else if c < 0x10000 then 92 :: 117 :: hexDigits c
  else
    92 :: 117 :: hexDigits (0xD800 + (c - 0x10000) / 0x400) ++
      92 :: 117 :: hexDigits (0xDC00 + (c - 0x10000) % 0x400)

/-- `json.dumps` of a string. -/
def quoteAscii (text : Text) : Text := 34 :: text.flatMap asciiChar ++ [34]

/-- A Unicode code point that is no surrogate. -/
def IsScalar (c : ℕ) : Prop := c < 0xD800 ∨ 0xDFFF < c ∧ c < 0x110000

theorem hexDigit_hexChar {n : ℕ} (hlt : n < 16) : hexDigit (hexChar n) = some n := by
  rw [hexChar]
  split_ifs with hsmall
  · rw [hexDigit, if_pos (by omega)]
    congr 1
    omega
  · rw [hexDigit, if_neg (by omega), if_pos (by omega)]
    congr 1
    omega

theorem readUnicode_hexDigits {n : ℕ} (hlt : n < 0x10000) (rest : Text) :
    readUnicode (hexDigits n ++ rest) = some (n, rest) := by
  have hvalue : ((n / 4096 * 16 + n / 256 % 16) * 16 + n / 16 % 16) * 16 + n % 16 = n := by omega
  simp only [hexDigits, List.cons_append, List.nil_append, readUnicode,
    hexDigit_hexChar (show n / 4096 < 16 by omega), hexDigit_hexChar (Nat.mod_lt _ (by omega)),
    Option.bind_eq_bind, Option.bind_some, hvalue]
  rfl

/-- An escape of four digits that is no high surrogate is read alone. -/
theorem readEscape_of_scalar {n : ℕ} (hlt : n < 0x10000) (hscalar : IsScalar n) (rest : Text) :
    readEscape (117 :: (hexDigits n ++ rest)) = some (n, rest) := by
  have hnotHigh : ¬(0xD800 ≤ n ∧ n ≤ 0xDBFF) := by
    rcases hscalar with h | h <;> omega
  simp only [readEscape, readUnicode_hexDigits hlt, Option.bind_eq_bind, Option.bind_some]
  split
  · rw [if_neg hnotHigh]
    rfl
  · rfl

/-- A surrogate pair is read together. -/
theorem readEscape_pair {high low : ℕ} (hhigh : 0xD800 ≤ high ∧ high ≤ 0xDBFF)
    (hlow : 0xDC00 ≤ low ∧ low ≤ 0xDFFF) (rest : Text) :
    readEscape (117 :: (hexDigits high ++ 92 :: 117 :: (hexDigits low ++ rest))) =
      some (0x10000 + (high - 0xD800) * 0x400 + (low - 0xDC00), rest) := by
  simp only [readEscape, readUnicode_hexDigits (show high < 0x10000 by omega), Option.bind_eq_bind,
    Option.bind_some, if_pos hhigh, readUnicode_hexDigits (show low < 0x10000 by omega),
    if_pos hlow]
  rfl

theorem length_asciiChar_pos (c : ℕ) : 0 < (asciiChar c).length := by
  rw [asciiChar]
  split_ifs <;> simp

/-- One character reads back. -/
theorem scanString_asciiChar {c : ℕ} (hscalar : IsScalar c) (fuel : ℕ) (rest : Text) :
    scanString (fuel + 1) (asciiChar c ++ rest) =
      (scanString fuel rest).map fun result ↦ (c :: result.1, result.2) := by
  have hescape : ∀ code after, readEscape code = some (c, after) →
      scanString (fuel + 1) (92 :: code) =
        (scanString fuel after).map fun result ↦ (c :: result.1, result.2) := by
    intro code after hread
    rw [scanString, if_neg (by decide), if_pos rfl, hread]
    cases hscan : scanString fuel after <;> simp [hscan]
  have hshort : ∀ letter, letter ≠ 117 → simpleEscape letter = some c →
      scanString (fuel + 1) ([92, letter] ++ rest) =
        (scanString fuel rest).map fun result ↦ (c :: result.1, result.2) := by
    intro letter hletter hsimple
    refine hescape (letter :: rest) rest ?_
    rw [readEscape, hsimple]
    · rfl
    · exact hletter
  rw [asciiChar]
  split_ifs with h34 h92 h10 h13 h9 h8 h12 hplain hshorter
  · exact hshort 34 (by decide) (by rw [h34]; rfl)
  · exact hshort 92 (by decide) (by rw [h92]; rfl)
  · exact hshort 110 (by decide) (by rw [h10]; rfl)
  · exact hshort 114 (by decide) (by rw [h13]; rfl)
  · exact hshort 116 (by decide) (by rw [h9]; rfl)
  · exact hshort 98 (by decide) (by rw [h8]; rfl)
  · exact hshort 102 (by decide) (by rw [h12]; rfl)
  · rw [List.singleton_append, scanString, if_neg h34, if_neg h92, if_neg (by omega)]
    cases scanString fuel rest <;> rfl
  · exact hescape _ rest (readEscape_of_scalar hshorter hscalar rest)
  · have hvalue : 0x10000 + (0xD800 + (c - 0x10000) / 0x400 - 0xD800) * 0x400 +
        (0xDC00 + (c - 0x10000) % 0x400 - 0xDC00) = c := by
      omega
    have hrange : c < 0x110000 := by
      rcases hscalar with h | h <;> omega
    have hpair := readEscape_pair
      (show 0xD800 ≤ 0xD800 + (c - 0x10000) / 0x400 ∧ 0xD800 + (c - 0x10000) / 0x400 ≤ 0xDBFF by
        omega)
      (show 0xDC00 ≤ 0xDC00 + (c - 0x10000) % 0x400 ∧ 0xDC00 + (c - 0x10000) % 0x400 ≤ 0xDFFF by
        omega) rest
    rw [hvalue] at hpair
    have htext : 92 :: 117 :: hexDigits (0xD800 + (c - 0x10000) / 0x400) ++
        92 :: 117 :: hexDigits (0xDC00 + (c - 0x10000) % 0x400) ++ rest =
        92 :: (117 :: (hexDigits (0xD800 + (c - 0x10000) / 0x400) ++
          92 :: 117 :: (hexDigits (0xDC00 + (c - 0x10000) % 0x400) ++ rest))) := by
      simp only [List.cons_append, List.append_assoc]
    rw [htext]
    exact hescape _ rest hpair

/-- An ASCII string reads back. -/
theorem scanString_quoteAscii {text : Text} (hscalar : ∀ c ∈ text, IsScalar c) {fuel : ℕ}
    (rest : Text) (hfuel : text.length < fuel) :
    scanString fuel (text.flatMap asciiChar ++ 34 :: rest) = some (text, rest) := by
  induction text generalizing fuel with
  | nil =>
    obtain ⟨fuel, rfl⟩ := Nat.exists_eq_succ_of_ne_zero (by omega : fuel ≠ 0)
    simp [scanString]
  | cons c text ih =>
    obtain ⟨fuel, rfl⟩ := Nat.exists_eq_succ_of_ne_zero (by omega : fuel ≠ 0)
    have hrest := ih (fun d hd ↦ hscalar d (List.mem_cons_of_mem c hd))
      (by simp only [List.length_cons] at hfuel; omega : text.length < fuel)
    rw [List.flatMap_cons, List.append_assoc,
      scanString_asciiChar (hscalar c List.mem_cons_self) fuel, hrest]
    rfl

theorem length_le_flatMap_asciiChar (text : Text) :
    text.length ≤ (text.flatMap asciiChar).length := by
  induction text with
  | nil => exact le_rfl
  | cons c text ih =>
    have hpos := length_asciiChar_pos c
    rw [List.flatMap_cons, List.length_append, List.length_cons]
    omega

theorem Opens.skipSpace_space {text : Text} (hopens : Opens text) (rest : Text) :
    skipSpace (32 :: (text ++ rest)) = text ++ rest := by
  rw [skipSpace, List.dropWhile_cons_of_pos (by decide)]
  exact hopens.skipSpace_eq rest

/-- One member, with the space that `json.dumps` puts behind its colon. -/
theorem readMembers_spaced {key text : Text} {value : Value} (hkey : Plain key)
    (hopens : Opens text) {fuel : ℕ} (hfuel : key.length < fuel) {after : Text}
    (hread : readValue fuel (text ++ after) = some (value, after)) (object : List (Text × Value)) :
    readMembers (fuel + 1) object (quoted key ++ 58 :: 32 :: (text ++ after)) =
      match skipSpace after with
      | 125 :: last => some (.obj (insertMember key value object), last)
      | 44 :: more => readMembers fuel (insertMember key value object) (skipSpace more)
      | _ => none := by
  have htext : quoted key ++ 58 :: 32 :: (text ++ after) =
      34 :: (key ++ 34 :: (58 :: 32 :: (text ++ after))) := by
    simp [quoted]
  rw [htext, readMembers, scanString_plain hkey _ hfuel]
  simp only [Option.bind_eq_bind, Option.bind_some,
    skipSpace_cons _ (show isSpace 58 = false by decide), hopens.skipSpace_space, hread]
  rfl

/-- A string of `json.dumps` reads back. -/
theorem readValue_quoteAscii {text : Text} (hscalar : ∀ c ∈ text, IsScalar c) {fuel : ℕ}
    (rest : Text) (hfuel : text.length < fuel) :
    readValue (fuel + 1) (quoteAscii text ++ rest) = some (.str text, rest) := by
  have htext : quoteAscii text ++ rest = 34 :: (text.flatMap asciiChar ++ 34 :: rest) := by
    simp [quoteAscii]
  rw [htext, readValue, if_pos rfl, scanString_quoteAscii hscalar rest hfuel]
  rfl

/-- What `json.dumps` writes has no control characters. -/
theorem le_of_mem_asciiChar {c d : ℕ} (hd : d ∈ asciiChar c) : 32 ≤ d := by
  have hhex : ∀ n, 32 ≤ hexChar n := by
    intro n
    rw [hexChar]
    split_ifs <;> omega
  have hdigits : ∀ n, ∀ e ∈ hexDigits n, 32 ≤ e := by
    intro n e he
    simp only [hexDigits, List.mem_cons, List.not_mem_nil, or_false] at he
    rcases he with rfl | rfl | rfl | rfl <;> exact hhex _
  have hunicode : ∀ n, ∀ e ∈ 92 :: 117 :: hexDigits n, 32 ≤ e := by
    intro n e he
    rcases List.mem_cons.mp he with rfl | he
    · decide
    · rcases List.mem_cons.mp he with rfl | he
      · decide
      · exact hdigits n e he
  have hpair : ∀ a b, d ∈ [a, b] → 32 ≤ a → 32 ≤ b → 32 ≤ d := by
    intro a b hmem ha hb
    rcases List.mem_pair.mp hmem with rfl | rfl
    · exact ha
    · exact hb
  rw [asciiChar] at hd
  split_ifs at hd with h34 h92 h10 h13 h9 h8 h12 hplain
  · exact hpair _ _ hd (by decide) (by decide)
  · exact hpair _ _ hd (by decide) (by decide)
  · exact hpair _ _ hd (by decide) (by decide)
  · exact hpair _ _ hd (by decide) (by decide)
  · exact hpair _ _ hd (by decide) (by decide)
  · exact hpair _ _ hd (by decide) (by decide)
  · exact hpair _ _ hd (by decide) (by decide)
  · rw [List.mem_singleton.mp hd]
    exact hplain.1
  · exact hunicode _ d hd
  · rcases List.mem_append.mp hd with hd | hd
    · exact hunicode _ d hd
    · exact hunicode _ d hd

/-! ### Control characters -/

/-- A string with a raw control character is refused. -/
theorem scanString_of_control {text : Text} (htext : ∀ c ∈ text, c ≠ 34 ∧ c ≠ 92)
    (hcontrol : ∃ c ∈ text, c < 32) (fuel : ℕ) (rest : Text) :
    scanString fuel (text ++ rest) = none := by
  induction text generalizing fuel with
  | nil =>
    obtain ⟨c, hc, _⟩ := hcontrol
    cases hc
  | cons c text ih =>
    cases fuel with
    | zero => rfl
    | succ fuel =>
      obtain ⟨hquote, hbackslash⟩ := htext c List.mem_cons_self
      rw [List.cons_append, scanString, if_neg hquote, if_neg hbackslash]
      by_cases hlow : c < 32
      · rw [if_pos hlow]
      · obtain ⟨d, hd, hdlow⟩ := hcontrol
        have hrest : ∃ d ∈ text, d < 32 := by
          rcases List.mem_cons.mp hd with rfl | hd
          · exact absurd hdlow hlow
          · exact ⟨d, hd, hdlow⟩
        rw [if_neg hlow, ih (fun e he ↦ htext e (List.mem_cons_of_mem c he)) hrest]
        rfl

/-- The reader fails on the text, whatever follows. -/
def Refused (text : Text) : Prop :=
  Opens text ∧ ∀ fuel rest, text.length < fuel → readValue fuel (text ++ rest) = none

/-- A string in quotes that holds a control character is refused. -/
theorem refused_quoted {text : Text} (htext : ∀ c ∈ text, c ≠ 34 ∧ c ≠ 92)
    (hcontrol : ∃ c ∈ text, c < 32) : Refused (quoted text) := by
  refine ⟨⟨34, text ++ [34], rfl, by decide, by decide, by decide⟩, ?_⟩
  intro fuel rest hfuel
  obtain ⟨fuel, rfl⟩ := Nat.exists_eq_succ_of_ne_zero (by omega : fuel ≠ 0)
  have hquoted : quoted text ++ rest = 34 :: (text ++ 34 :: rest) := by
    simp [quoted]
  rw [hquoted, readValue, if_pos rfl, scanString_of_control htext hcontrol]
  rfl

/-- An object whose first value is refused is refused. -/
theorem refused_object {key text : Text} (hkey : Plain key) (htext : Refused text)
    (more : List Text) : Refused (objectText (memberText key text :: more)) := by
  have hopens : Opens (memberText key text) := ⟨34, _, rfl, by decide, by decide, by decide⟩
  refine ⟨⟨123, _, rfl, by decide, by decide, by decide⟩, ?_⟩
  intro fuel rest hfuel
  obtain ⟨fuel, rfl⟩ := Nat.exists_eq_succ_of_ne_zero (by omega : fuel ≠ 0)
  -- The key is read, and the reader fails on the value.
  have hjoin : ∃ behind, commaJoin (memberText key text :: more) =
      34 :: (key ++ 34 :: 58 :: (text ++ behind)) := by
    cases more with
    | nil => exact ⟨[], by simp [commaJoin, memberText, quoted]⟩
    | cons next more =>
      exact ⟨44 :: commaJoin (next :: more), by
        simp [commaJoin_cons_cons, memberText, quoted]⟩
  obtain ⟨behind, hbehind⟩ := hjoin
  have hobject : objectText (memberText key text :: more) ++ rest =
      123 :: 34 :: (key ++ 34 :: (58 :: (text ++ (behind ++ 125 :: rest)))) := by
    simp [objectText, hbehind]
  have hlength : key.length + text.length + 3 < fuel + 1 := by
    have := congrArg List.length hobject
    simp only [List.length_append, List.length_cons] at this
    omega
  obtain ⟨fuel, rfl⟩ := Nat.exists_eq_succ_of_ne_zero (by omega : fuel ≠ 0)
  rw [hobject, readValue, if_neg (by decide), if_pos rfl,
    skipSpace_cons _ (show isSpace 34 = false by decide)]
  show readMembers (fuel + 1) [] _ = none
  rw [readMembers, scanString_plain hkey _ (by omega)]
  simp only [Option.bind_eq_bind, Option.bind_some,
    skipSpace_cons _ (show isSpace 58 = false by decide), htext.1.skipSpace_eq,
    htext.2 fuel _ (by omega), Option.bind_none]

/-- Items that are read up to one that is refused are refused. -/
theorem readElements_of_refused {before : List Text} {values : List Value} {text : Text}
    (hbefore : List.Forall₂ Reads before values) (htext : Refused text) (more : List Text)
    {fuel : ℕ} (rest : Text)
    (hfuel : (commaJoin (before ++ text :: more)).length + 1 < fuel) :
    readElements fuel (commaJoin (before ++ text :: more) ++ rest) = none := by
  induction hbefore generalizing fuel with
  | nil =>
    obtain ⟨fuel, rfl⟩ := Nat.exists_eq_succ_of_ne_zero (by omega : fuel ≠ 0)
    have hjoin : ∃ behind, commaJoin (text :: more) = text ++ behind := by
      cases more with
      | nil => exact ⟨[], (List.append_nil text).symm⟩
      | cons next more => exact ⟨44 :: commaJoin (next :: more), rfl⟩
    obtain ⟨behind, hbehind⟩ := hjoin
    rw [List.nil_append] at hfuel ⊢
    rw [hbehind, List.length_append] at hfuel
    rw [hbehind, List.append_assoc, readElements, htext.2 fuel _ (by omega)]
    rfl
  | @cons item value before values hitem hbefore ih =>
    obtain ⟨fuel, rfl⟩ := Nat.exists_eq_succ_of_ne_zero (by omega : fuel ≠ 0)
    obtain ⟨next, others, hnext⟩ : ∃ next others, before ++ text :: more = next :: others :=
      List.exists_cons_of_ne_nil (by simp)
    have hopens : Opens next := by
      cases hbefore with
      | nil =>
        obtain ⟨rfl, rfl⟩ := List.cons.inj hnext
        exact htext.1
      | cons hread _ =>
        obtain ⟨rfl, _⟩ := List.cons.inj hnext
        exact hread.opens
    rw [List.cons_append, hnext, commaJoin_cons_cons] at hfuel ⊢
    simp only [List.length_append, List.length_cons] at hfuel
    have hvalue := hitem.reads fuel (44 :: (commaJoin (next :: others) ++ rest)) (by omega)
      (delimited_cons _ (by decide) (by decide))
    have hrest := ih (show (commaJoin (before ++ text :: more)).length + 1 < fuel by
      rw [hnext]
      omega)
    rw [hnext] at hrest
    rw [List.append_assoc, List.cons_append, readElements, hvalue]
    simp [skipSpace_cons _ (show isSpace 44 = false by decide),
      (hopens.commaJoin others).skipSpace_eq rest, hrest]

/-- An array with an item that is refused is refused. -/
theorem refused_array {before : List Text} {values : List Value} {text : Text}
    (hbefore : List.Forall₂ Reads before values) (htext : Refused text) (more : List Text) :
    Refused (arrayText (before ++ text :: more)) := by
  refine ⟨⟨91, _, rfl, by decide, by decide, by decide⟩, ?_⟩
  intro fuel rest hfuel
  obtain ⟨fuel, rfl⟩ := Nat.exists_eq_succ_of_ne_zero (by omega : fuel ≠ 0)
  have hopens : Opens (commaJoin (before ++ text :: more)) := by
    cases hbefore with
    | nil => exact htext.1.commaJoin more
    | cons hread _ => exact hread.opens.commaJoin _
  have harray : arrayText (before ++ text :: more) ++ rest =
      91 :: (commaJoin (before ++ text :: more) ++ 93 :: rest) := by
    simp [arrayText]
  simp only [arrayText, List.length_append, List.length_cons, List.length_nil] at hfuel
  have helements := readElements_of_refused hbefore htext more (93 :: rest)
    (show (commaJoin (before ++ text :: more)).length + 1 < fuel by omega)
  rw [harray, readValue, if_neg (by decide), if_neg (by decide), if_pos rfl,
    hopens.skipSpace_eq]
  obtain ⟨c, tail, heq, _, hbracket, _⟩ := hopens
  rw [heq, List.cons_append] at helements ⊢
  split
  · next heq =>
    exact absurd (List.cons.inj heq).1 hbracket
  · exact helements

/-- A text that is refused parses to nothing. -/
theorem parse_of_refused {text : Text} (htext : Refused text) : parse text = none := by
  have hskip := htext.1.skipSpace_eq []
  have hread := htext.2 (text.length + 1) [] (by omega)
  rw [List.append_nil] at hskip hread
  rw [parse, hskip, hread]

end SyzAbi.Library.Json

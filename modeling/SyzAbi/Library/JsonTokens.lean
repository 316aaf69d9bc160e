import SyzAbi.Library.JsonPrinted

/-!
# Tokens of JSON texts

What the reader accepts within a value, as inductive definitions: the bodies of strings
(`StringBody`), the texts of numbers (`NumberText`) and the spaces around both. Each scanner takes a
token off the head of a longer text, and whatever it takes off is one.
-/

set_option autoImplicit false
set_option relaxedAutoImplicit false

namespace SyzAbi.Library.Json

/-! ### Strings -/

/-- Four hexadecimal digits and their value. -/
def UnicodeDigits (digits : Text) (n : ℕ) : Prop := readUnicode digits = some (n, [])

/-- What stands between the quotes of a string, and the string. -/
inductive StringBody : Text → Text → Prop
  | nil : StringBody [] []
  | char {c : ℕ} {body text : Text} (hlow : 32 ≤ c) (hquote : c ≠ 34) (hbackslash : c ≠ 92)
      (hbody : StringBody body text) : StringBody (c :: body) (c :: text)
  | simple {c value : ℕ} {body text : Text} (hsimple : simpleEscape c = some value)
      (hbody : StringBody body text) : StringBody (92 :: c :: body) (value :: text)
  | unicode {n : ℕ} {digits body text : Text} (hdigits : UnicodeDigits digits n)
      (hsingle : 0xD800 ≤ n ∧ n ≤ 0xDBFF → ∀ low more rest, body = 92 :: 117 :: more →
        readUnicode more = some (low, rest) → ¬(0xDC00 ≤ low ∧ low ≤ 0xDFFF))
      (hbody : StringBody body text) : StringBody (92 :: 117 :: (digits ++ body)) (n :: text)
  | pair {high low : ℕ} {digits lowDigits body text : Text} (hhigh : 0xD800 ≤ high ∧ high ≤ 0xDBFF)
      (hlow : 0xDC00 ≤ low ∧ low ≤ 0xDFFF) (hdigits : UnicodeDigits digits high)
      (hlowDigits : UnicodeDigits lowDigits low) (hbody : StringBody body text) :
      StringBody (92 :: 117 :: (digits ++ 92 :: 117 :: (lowDigits ++ body)))
        ((0x10000 + (high - 0xD800) * 0x400 + (low - 0xDC00)) :: text)

theorem readUnicode_append {text rest : Text} {n : ℕ} (hread : readUnicode text = some (n, rest))
    (more : Text) : readUnicode (text ++ more) = some (n, rest ++ more) := by
  match text, hread with
  | a :: b :: c :: d :: tail, hread =>
    simp only [readUnicode, List.cons_append, Option.bind_eq_bind, Option.bind_eq_some_iff]
      at hread ⊢
    obtain ⟨first, ha, second, hb, third, hc, fourth, hd, hresult⟩ := hread
    obtain ⟨rfl, rfl⟩ := Prod.mk.inj (Option.some.inj hresult)
    exact ⟨first, ha, second, hb, third, hc, fourth, hd, rfl⟩

theorem UnicodeDigits.readUnicode_eq {digits : Text} {n : ℕ} (hdigits : UnicodeDigits digits n)
    (rest : Text) : readUnicode (digits ++ rest) = some (n, rest) :=
  readUnicode_append hdigits rest

theorem UnicodeDigits.of_readUnicode {text rest : Text} {n : ℕ}
    (hread : readUnicode text = some (n, rest)) :
    ∃ digits, text = digits ++ rest ∧ UnicodeDigits digits n := by
  match text, hread with
  | a :: b :: c :: d :: tail, hread =>
    simp only [readUnicode, Option.bind_eq_bind, Option.bind_eq_some_iff] at hread
    obtain ⟨first, ha, second, hb, third, hc, fourth, hd, hresult⟩ := hread
    obtain ⟨rfl, rfl⟩ := Prod.mk.inj (Option.some.inj hresult)
    refine ⟨[a, b, c, d], rfl, ?_⟩
    simp [UnicodeDigits, readUnicode, ha, hb, hc, hd]

theorem UnicodeDigits.plain {digits : Text} {n : ℕ} (hdigits : UnicodeDigits digits n) :
    Plain digits := by
  have hdigit : ∀ {c value}, hexDigit c = some value → 32 ≤ c ∧ c ≠ 34 ∧ c ≠ 92 := by
    intro c value hvalue
    rw [hexDigit] at hvalue
    split_ifs at hvalue <;> omega
  match digits, hdigits with
  | a :: b :: c :: d :: tail, hdigits =>
    simp only [UnicodeDigits, readUnicode, Option.bind_eq_bind, Option.bind_eq_some_iff] at hdigits
    obtain ⟨first, ha, second, hb, third, hc, fourth, hd, hresult⟩ := hdigits
    obtain ⟨-, rfl⟩ := Prod.mk.inj (Option.some.inj hresult)
    intro e he
    simp only [List.mem_cons, List.not_mem_nil, or_false] at he
    rcases he with rfl | rfl | rfl | rfl
    · exact hdigit ha
    · exact hdigit hb
    · exact hdigit hc
    · exact hdigit hd

/-- A body that begins with the letters of a long escape goes on with its digits. -/
theorem StringBody.exists_unicode {more text : Text} (hbody : StringBody (92 :: 117 :: more) text) :
    ∃ n rest, readUnicode more = some (n, rest) := by
  cases hbody with
  | char _ _ hbackslash => exact absurd rfl hbackslash
  | simple hsimple => cases hsimple
  | unicode hdigits => exact ⟨_, _, hdigits.readUnicode_eq _⟩
  | pair _ _ hdigits => exact ⟨_, _, hdigits.readUnicode_eq _⟩

/-- A single long escape is read alone, when its string goes on behind it. -/
theorem readEscape_unicode {n : ℕ} {digits body text : Text} (hdigits : UnicodeDigits digits n)
    (hsingle : 0xD800 ≤ n ∧ n ≤ 0xDBFF → ∀ low more rest, body = 92 :: 117 :: more →
      readUnicode more = some (low, rest) → ¬(0xDC00 ≤ low ∧ low ≤ 0xDFFF))
    (hbody : StringBody body text) (rest : Text) :
    readEscape (117 :: (digits ++ (body ++ 34 :: rest))) = some (n, body ++ 34 :: rest) := by
  rw [readEscape, hdigits.readUnicode_eq]
  simp only [Option.bind_eq_bind, Option.bind_some]
  split
  · next more heq =>
    -- The quote is no part of an escape, so the escape behind lies in the body.
    obtain ⟨more', rfl, rfl⟩ : ∃ more', body = 92 :: 117 :: more' ∧ more = more' ++ 34 :: rest := by
      match body, heq with
      | first :: second :: more', heq =>
        simp only [List.cons_append, List.cons.injEq] at heq
        obtain ⟨rfl, rfl, rfl⟩ := heq
        exact ⟨more', rfl, rfl⟩
    split_ifs with hhigh
    · obtain ⟨low, after, hlow⟩ := hbody.exists_unicode
      have hnot := hsingle hhigh low more' after rfl hlow
      rw [readUnicode_append hlow]
      simp only [Option.bind_some]
      rw [if_neg hnot]
      rfl
    · rfl
  · rfl

/-- A string is read to its closing quote. -/
theorem StringBody.scanString_eq {body text : Text} (hbody : StringBody body text) {fuel : ℕ}
    (rest : Text) (hfuel : body.length < fuel) :
    scanString fuel (body ++ 34 :: rest) = some (text, rest) := by
  induction hbody generalizing fuel with
  | nil =>
    obtain ⟨fuel, rfl⟩ := Nat.exists_eq_succ_of_ne_zero (by omega : fuel ≠ 0)
    simp [scanString]
  | char hlow hquote hbackslash _ ih =>
    obtain ⟨fuel, rfl⟩ := Nat.exists_eq_succ_of_ne_zero (by omega : fuel ≠ 0)
    rw [List.length_cons] at hfuel
    rw [List.cons_append, scanString, if_neg hquote, if_neg hbackslash, if_neg (by omega),
      ih (by omega)]
    rfl
  | @simple c value body text hsimple _ ih =>
    obtain ⟨fuel, rfl⟩ := Nat.exists_eq_succ_of_ne_zero (by omega : fuel ≠ 0)
    simp only [List.length_cons] at hfuel
    have hescape : readEscape (c :: (body ++ 34 :: rest)) = some (value, body ++ 34 :: rest) := by
      rw [readEscape, hsimple]
      · rfl
      · rintro rfl
        cases hsimple
    rw [List.cons_append, List.cons_append, scanString, if_neg (by decide), if_pos rfl, hescape]
    simp only [Option.bind_eq_bind, Option.bind_some, ih (show body.length < fuel by omega)]
    rfl
  | @unicode n digits body text hdigits hsingle hbody ih =>
    obtain ⟨fuel, rfl⟩ := Nat.exists_eq_succ_of_ne_zero (by omega : fuel ≠ 0)
    simp only [List.length_cons, List.length_append] at hfuel
    rw [List.cons_append, List.cons_append, List.append_assoc, scanString, if_neg (by decide),
      if_pos rfl, readEscape_unicode hdigits hsingle hbody]
    simp only [Option.bind_eq_bind, Option.bind_some, ih (show body.length < fuel by omega)]
    rfl
  | @pair high low digits lowDigits body text hhigh hlow hdigits hlowDigits _ ih =>
    obtain ⟨fuel, rfl⟩ := Nat.exists_eq_succ_of_ne_zero (by omega : fuel ≠ 0)
    simp only [List.length_cons, List.length_append] at hfuel
    have hescape : readEscape (117 :: (digits ++ (92 :: 117 :: (lowDigits ++
        (body ++ 34 :: rest))))) =
          some (0x10000 + (high - 0xD800) * 0x400 + (low - 0xDC00), body ++ 34 :: rest) := by
      rw [readEscape, hdigits.readUnicode_eq]
      simp only [Option.bind_eq_bind, Option.bind_some]
      rw [if_pos hhigh, hlowDigits.readUnicode_eq]
      simp only [Option.bind_some]
      rw [if_pos hlow]
      rfl
    have htext : 92 :: 117 :: (digits ++ 92 :: 117 :: (lowDigits ++ body)) ++ 34 :: rest =
        92 :: (117 :: (digits ++ (92 :: 117 :: (lowDigits ++ (body ++ 34 :: rest))))) := by
      simp only [List.cons_append, List.append_assoc]
    rw [htext, scanString, if_neg (by decide), if_pos rfl, hescape]
    simp only [Option.bind_eq_bind, Option.bind_some, ih (show body.length < fuel by omega)]
    rfl

/-- What is read as an escape stands before what follows it in the string. -/
theorem StringBody.of_readEscape {text body rest string : Text} {value : ℕ}
    (hbody : StringBody body string) (hread : readEscape text = some (value, body ++ 34 :: rest)) :
    ∃ code, text = code ++ 34 :: rest ∧ StringBody (92 :: code) (value :: string) := by
  rw [readEscape.eq_def] at hread
  split at hread
  · next more =>
    simp only [Option.bind_eq_bind, Option.bind_eq_some_iff, Prod.exists] at hread
    obtain ⟨high, after, hhigh, hresult⟩ := hread
    obtain ⟨digits, rfl, hdigits⟩ := UnicodeDigits.of_readUnicode hhigh
    -- One escape that is read alone.
    have hone : after = body ++ 34 :: rest →
        (0xD800 ≤ high ∧ high ≤ 0xDBFF → ∀ low more rest, body = 92 :: 117 :: more →
          readUnicode more = some (low, rest) → ¬(0xDC00 ≤ low ∧ low ≤ 0xDFFF)) →
        ∃ code, 117 :: (digits ++ after) = code ++ 34 :: rest ∧
          StringBody (92 :: code) (high :: string) := by
      rintro rfl hsingle
      exact ⟨117 :: (digits ++ body), by simp, .unicode hdigits hsingle hbody⟩
    split at hresult
    · next more =>
      split_ifs at hresult with hrange
      · simp only [Option.bind_eq_some_iff, Prod.exists] at hresult
        obtain ⟨low, afterLow, hlow, hresult⟩ := hresult
        split_ifs at hresult with hpair
        · obtain ⟨rfl, rfl⟩ := Prod.mk.inj (Option.some.inj hresult)
          obtain ⟨lowDigits, rfl, hlowDigits⟩ := UnicodeDigits.of_readUnicode hlow
          refine ⟨117 :: (digits ++ 92 :: 117 :: (lowDigits ++ body)), by simp, ?_⟩
          exact .pair hrange hpair hdigits hlowDigits hbody
        · obtain ⟨rfl, heq⟩ := Prod.mk.inj (Option.some.inj hresult)
          refine hone heq fun _ other more' rest' hmore hother ↦ ?_
          rw [hmore, List.cons_append, List.cons_append] at heq
          rw [(List.cons.inj (List.cons.inj heq).2).2, readUnicode_append hother] at hlow
          rw [(Prod.mk.inj (Option.some.inj hlow)).1]
          exact hpair
      · obtain ⟨rfl, heq⟩ := Prod.mk.inj (Option.some.inj hresult)
        exact hone heq fun h ↦ absurd h hrange
    · next hother =>
      obtain ⟨rfl, heq⟩ := Prod.mk.inj (Option.some.inj hresult)
      refine hone heq fun _ other more' rest' hmore _ ↦ ?_
      exact absurd (heq.trans (by rw [hmore]; rfl)) (hother (more' ++ 34 :: rest))
  · next c more _ =>
    obtain ⟨_, hsimple, hresult⟩ := Option.map_eq_some_iff.mp hread
    obtain ⟨rfl, rfl⟩ := Prod.mk.inj hresult
    exact ⟨c :: body, rfl, .simple hsimple hbody⟩
  · cases hread

/-- What is read as a string is one. -/
theorem StringBody.of_scanString {fuel : ℕ} {text rest string : Text}
    (hread : scanString fuel text = some (string, rest)) :
    ∃ body, text = body ++ 34 :: rest ∧ StringBody body string := by
  induction fuel generalizing text string with
  | zero => cases hread
  | succ fuel ih =>
    cases text with
    | nil => cases hread
    | cons c text =>
      rw [scanString] at hread
      split_ifs at hread with hquote hbackslash hcontrol
      · obtain ⟨rfl, rfl⟩ := Prod.mk.inj (Option.some.inj hread)
        exact ⟨[], by rw [hquote]; rfl, .nil⟩
      · simp only [Option.bind_eq_bind, Option.bind_eq_some_iff, Prod.exists] at hread
        obtain ⟨value, after, hescape, behind, last, hscan, hresult⟩ := hread
        obtain ⟨rfl, rfl⟩ := Prod.mk.inj (Option.some.inj hresult)
        obtain ⟨body, rfl, hbody⟩ := ih hscan
        obtain ⟨code, rfl, hcode⟩ := hbody.of_readEscape hescape
        exact ⟨92 :: code, by rw [hbackslash]; rfl, hcode⟩
      · simp only [Option.bind_eq_bind, Option.bind_eq_some_iff, Prod.exists] at hread
        obtain ⟨behind, last, hscan, hresult⟩ := hread
        obtain ⟨rfl, rfl⟩ := Prod.mk.inj (Option.some.inj hresult)
        obtain ⟨body, rfl, hbody⟩ := ih hscan
        exact ⟨c :: body, rfl, .char (by omega) hquote hbackslash hbody⟩

/-! ### Numbers -/

def Digits (text : Text) : Prop := text ≠ [] ∧ ∀ c ∈ text, isDigit c = true

/-- The text does not go on with a digit. -/
def DigitsEnd (rest : Text) : Prop := ∀ c ∈ rest.head?, isDigit c = false

/-- The integer part of a number. -/
def IntegerPart (text : Text) : Prop := text = [48] ∨ Digits text ∧ text.head? ≠ some 48

/-- The fraction of a number, or nothing. -/
def FractionPart (text : Text) : Prop := text = [] ∨ ∃ digits, Digits digits ∧ text = 46 :: digits

/-- The exponent of a number, or nothing. -/
def ExponentPart (text : Text) : Prop :=
  text = [] ∨ ∃ c sign digits, (c = 69 ∨ c = 101) ∧ sign ∈ [[], [43], [45]] ∧ Digits digits ∧
    text = c :: (sign ++ digits)

/-- A number without its sign. -/
inductive UnsignedText (negative : Bool) : Text → Value → Prop
  | integer {digits : Text} (hinteger : IntegerPart digits) :
      UnsignedText negative digits
        (.int (if negative then -(digitsValue digits : ℤ) else digitsValue digits))
  | float {digits fraction exponent : Text} (hinteger : IntegerPart digits)
      (hfraction : FractionPart fraction) (hexponent : ExponentPart exponent)
      (hne : fraction ≠ [] ∨ exponent ≠ []) :
      UnsignedText negative (digits ++ (fraction ++ exponent))
        (.float ((if negative then [45] else []) ++ digits ++ fraction ++ exponent))

/-- The text of a number. -/
inductive NumberText : Text → Value → Prop
  | unsigned {text : Text} {value : Value} (hunsigned : UnsignedText false text value) :
      NumberText text value
  | negative {text : Text} {value : Value} (hunsigned : UnsignedText true text value) :
      NumberText (45 :: text) value

theorem takeWhile_digits {digits rest : Text} (hdigits : ∀ c ∈ digits, isDigit c = true)
    (hend : DigitsEnd rest) : (digits ++ rest).takeWhile isDigit = digits := by
  rw [List.takeWhile_append_of_pos hdigits]
  cases rest with
  | nil => exact List.append_nil digits
  | cons c rest => rw [List.takeWhile_cons_of_neg (by simp [hend c rfl]), List.append_nil]

theorem dropWhile_digits {digits rest : Text} (hdigits : ∀ c ∈ digits, isDigit c = true)
    (hend : DigitsEnd rest) : (digits ++ rest).dropWhile isDigit = rest := by
  rw [List.dropWhile_append_of_pos hdigits]
  cases rest with
  | nil => rfl
  | cons c rest => rw [List.dropWhile_cons_of_neg (by simp [hend c rfl])]

theorem digitsEnd_takeWhile {text : Text} (hne : (text.takeWhile isDigit).isEmpty = false) :
    Digits (text.takeWhile isDigit) := by
  refine ⟨fun hnil ↦ ?_, fun _ hc ↦ List.mem_takeWhile_imp hc⟩
  rw [hnil] at hne
  cases hne

theorem IntegerPart.readInteger_eq {digits rest : Text} (hinteger : IntegerPart digits)
    (hend : DigitsEnd rest) : readInteger (digits ++ rest) = some (digits, rest) := by
  rcases hinteger with rfl | ⟨⟨hne, hdigits⟩, hhead⟩
  · rfl
  · obtain ⟨c, more, rfl⟩ := List.exists_cons_of_ne_nil hne
    have hzero : c ≠ 48 := fun heq ↦ hhead (heq ▸ rfl)
    have hmore : ∀ d ∈ more, isDigit d = true := fun d hd ↦ hdigits d (List.mem_cons_of_mem c hd)
    rw [List.cons_append, readInteger, if_neg hzero, if_pos (hdigits c List.mem_cons_self),
      takeWhile_digits hmore hend, dropWhile_digits hmore hend]

theorem IntegerPart.of_readInteger {text digits rest : Text}
    (hread : readInteger text = some (digits, rest)) :
    text = digits ++ rest ∧ IntegerPart digits := by
  cases text with
  | nil => cases hread
  | cons c text =>
    rw [readInteger] at hread
    split_ifs at hread with hzero hdigit
    · obtain ⟨rfl, rfl⟩ := Prod.mk.inj (Option.some.inj hread)
      exact ⟨by rw [hzero]; rfl, .inl rfl⟩
    · obtain ⟨rfl, rfl⟩ := Prod.mk.inj (Option.some.inj hread)
      refine ⟨?_, .inr ⟨⟨List.cons_ne_nil _ _, ?_⟩, fun hhead ↦ hzero (Option.some.inj hhead)⟩⟩
      · rw [List.cons_append, List.takeWhile_append_dropWhile]
      · exact List.forall_mem_cons.mpr ⟨hdigit, fun _ hd ↦ List.mem_takeWhile_imp hd⟩

theorem FractionPart.readFraction_eq {fraction rest : Text} (hfraction : FractionPart fraction)
    (hend : DigitsEnd rest) (hpoint : rest.head? ≠ some 46) :
    readFraction (fraction ++ rest) = (fraction, rest) := by
  rcases hfraction with rfl | ⟨digits, ⟨hne, hdigits⟩, rfl⟩
  · rw [List.nil_append, readFraction.eq_def]
    split
    · exact absurd rfl hpoint
    · rfl
  · rw [List.cons_append, readFraction, takeWhile_digits hdigits hend,
      dropWhile_digits hdigits hend, if_neg (by simpa using hne)]

theorem FractionPart.of_readFraction (text : Text) :
    text = (readFraction text).1 ++ (readFraction text).2 ∧ FractionPart (readFraction text).1 := by
  rw [readFraction.eq_def]
  split
  · next rest =>
    split_ifs with hempty
    · exact ⟨rfl, .inl rfl⟩
    · refine ⟨?_, .inr ⟨_, digitsEnd_takeWhile (Bool.eq_false_of_not_eq_true hempty), rfl⟩⟩
      rw [List.cons_append, List.takeWhile_append_dropWhile]
  · exact ⟨rfl, .inl rfl⟩

theorem readSign_eq {sign digits : Text} (hsign : sign ∈ [[], [43], [45]]) (hdigits : Digits digits)
    (rest : Text) : readSign (sign ++ (digits ++ rest)) = (sign, digits ++ rest) := by
  obtain ⟨c, more, rfl⟩ := List.exists_cons_of_ne_nil hdigits.1
  have hc := isDigit_iff.mp (hdigits.2 c List.mem_cons_self)
  simp only [List.mem_cons, List.not_mem_nil, or_false] at hsign
  rcases hsign with rfl | rfl | rfl
  · rw [List.nil_append, List.cons_append, readSign, if_neg (by omega)]
  · rfl
  · rfl

theorem ExponentPart.readExponent_eq {exponent rest : Text} (hexponent : ExponentPart exponent)
    (hrest : Delimited rest) : readExponent (exponent ++ rest) = (exponent, rest) := by
  have hend : DigitsEnd rest := fun c hc ↦ (hrest c hc).1
  rcases hexponent with rfl | ⟨c, sign, digits, hc, hsign, hdigits, rfl⟩
  · cases rest with
    | nil => rfl
    | cons c rest =>
      obtain ⟨_, _, hupper, hlower⟩ := hrest c rfl
      rw [List.nil_append, readExponent, if_neg (by omega)]
  · rw [List.cons_append, List.append_assoc, readExponent, if_pos hc]
    simp only [readSign_eq hsign hdigits, takeWhile_digits hdigits.2 hend,
      dropWhile_digits hdigits.2 hend]
    rw [if_neg (by simpa using hdigits.1)]

theorem of_readSign (text : Text) :
    text = (readSign text).1 ++ (readSign text).2 ∧ (readSign text).1 ∈ [[], [43], [45]] := by
  cases text with
  | nil => exact ⟨rfl, by decide⟩
  | cons c rest =>
    rw [readSign]
    split_ifs with hsign
    · rcases hsign with rfl | rfl
      · exact ⟨rfl, by simp⟩
      · exact ⟨rfl, by simp⟩
    · exact ⟨rfl, by simp⟩

theorem ExponentPart.of_readExponent (text : Text) :
    text = (readExponent text).1 ++ (readExponent text).2 ∧ ExponentPart (readExponent text).1 := by
  cases text with
  | nil => exact ⟨rfl, .inl rfl⟩
  | cons c rest =>
    rw [readExponent]
    split_ifs with hletter
    · dsimp only
      obtain ⟨hrest, hsign⟩ := of_readSign rest
      split_ifs with hempty
      · exact ⟨rfl, .inl rfl⟩
      · refine ⟨?_, .inr ⟨c, _, _, hletter, hsign,
          digitsEnd_takeWhile (Bool.eq_false_of_not_eq_true hempty), rfl⟩⟩
        rw [List.cons_append, List.append_assoc, List.takeWhile_append_dropWhile, ← hrest]
    · exact ⟨rfl, .inl rfl⟩

theorem digitsEnd_append {fraction exponent rest : Text} (hfraction : FractionPart fraction)
    (hexponent : ExponentPart exponent) (hrest : Delimited rest) :
    DigitsEnd (exponent ++ rest) ∧ (exponent ++ rest).head? ≠ some 46 ∧
      DigitsEnd (fraction ++ (exponent ++ rest)) := by
  have hend : DigitsEnd (exponent ++ rest) ∧ (exponent ++ rest).head? ≠ some 46 := by
    rcases hexponent with rfl | ⟨c, sign, digits, hc, -, -, rfl⟩
    · exact ⟨fun c hc ↦ (hrest c hc).1, fun h ↦ (hrest 46 h).2.1 rfl⟩
    · rcases hc with rfl | rfl
      · exact ⟨by rintro c ⟨⟩; rfl, by simp⟩
      · exact ⟨by rintro c ⟨⟩; rfl, by simp⟩
  refine ⟨hend.1, hend.2, ?_⟩
  rcases hfraction with rfl | ⟨digits, -, rfl⟩
  · exact hend.1
  · rintro c ⟨⟩
    rfl

theorem UnsignedText.readUnsigned_eq {negative : Bool} {text : Text} {value : Value}
    (htext : UnsignedText negative text value) {rest : Text} (hrest : Delimited rest) :
    readUnsigned negative (text ++ rest) = some (value, rest) := by
  cases htext with
  | integer hinteger =>
    have hend : DigitsEnd rest := fun c hc ↦ (hrest c hc).1
    have hfraction : readFraction rest = ([], rest) :=
      FractionPart.readFraction_eq (.inl rfl) hend fun h ↦ (hrest 46 h).2.1 rfl
    have hexponent : readExponent rest = ([], rest) :=
      ExponentPart.readExponent_eq (.inl rfl) hrest
    rw [readUnsigned, hinteger.readInteger_eq hend]
    simp [hfraction, hexponent]
  | @float digits fraction exponent hinteger hfraction hexponent hne =>
    obtain ⟨hend, hpoint, hdigits⟩ := digitsEnd_append hfraction hexponent hrest
    have hparts : (fraction.isEmpty && exponent.isEmpty) = false := by
      rw [Bool.and_eq_false_iff]
      exact hne.imp List.isEmpty_eq_false_iff.mpr List.isEmpty_eq_false_iff.mpr
    rw [List.append_assoc, List.append_assoc, readUnsigned, hinteger.readInteger_eq hdigits]
    simp only [Option.bind_eq_bind, Option.bind_some, hfraction.readFraction_eq hend hpoint,
      hexponent.readExponent_eq hrest, hparts]
    rfl

theorem UnsignedText.of_readUnsigned {negative : Bool} {text rest : Text} {value : Value}
    (hread : readUnsigned negative text = some (value, rest)) :
    ∃ number, text = number ++ rest ∧ UnsignedText negative number value := by
  simp only [readUnsigned, Option.bind_eq_bind, Option.bind_eq_some_iff, Prod.exists] at hread
  obtain ⟨digits, afterDigits, hdigits, hresult⟩ := hread
  obtain ⟨rfl, hinteger⟩ := IntegerPart.of_readInteger hdigits
  obtain ⟨hafter, hfraction⟩ := FractionPart.of_readFraction afterDigits
  obtain ⟨hbehind, hexponent⟩ := ExponentPart.of_readExponent (readFraction afterDigits).2
  split at hresult
  · next hempty =>
    obtain ⟨rfl, rfl⟩ := Prod.mk.inj (Option.some.inj hresult)
    rw [Bool.and_eq_true, List.isEmpty_iff, List.isEmpty_iff] at hempty
    rw [hempty.1, List.nil_append] at hafter
    rw [hempty.2, List.nil_append] at hbehind
    exact ⟨digits, by rw [← hbehind, ← hafter], .integer hinteger⟩
  · next hempty =>
    obtain ⟨rfl, rfl⟩ := Prod.mk.inj (Option.some.inj hresult)
    refine ⟨_, ?_, .float hinteger hfraction hexponent ?_⟩
    · rw [List.append_assoc, List.append_assoc, ← hbehind, ← hafter]
    · rw [Bool.and_eq_true, List.isEmpty_iff, List.isEmpty_iff, not_and_or] at hempty
      exact hempty

theorem IntegerPart.exists_cons {digits : Text} (hinteger : IntegerPart digits) :
    ∃ c rest, digits = c :: rest ∧ isDigit c = true := by
  rcases hinteger with rfl | ⟨⟨hne, hdigits⟩, -⟩
  · exact ⟨48, [], rfl, by decide⟩
  · obtain ⟨c, rest, rfl⟩ := List.exists_cons_of_ne_nil hne
    exact ⟨c, rest, rfl, hdigits c List.mem_cons_self⟩

theorem UnsignedText.exists_cons {negative : Bool} {text : Text} {value : Value}
    (htext : UnsignedText negative text value) :
    ∃ c rest, text = c :: rest ∧ isDigit c = true := by
  cases htext with
  | integer hinteger => exact hinteger.exists_cons
  | float hinteger =>
    obtain ⟨c, rest, rfl, hc⟩ := hinteger.exists_cons
    exact ⟨c, _, rfl, hc⟩

/-- A number reads back. -/
theorem NumberText.reads {text : Text} {value : Value} (htext : NumberText text value) :
    Reads text value := by
  cases htext with
  | unsigned hunsigned =>
    obtain ⟨c, tail, htext, hdigit⟩ := hunsigned.exists_cons
    have hrange := isDigit_iff.mp hdigit
    constructor
    · refine ⟨c, tail, htext, ?_, by omega, by omega⟩
      simp only [isSpace, Bool.or_eq_false_iff, decide_eq_false_iff_not]
      omega
    · intro fuel rest hfuel hrest
      obtain ⟨fuel, rfl⟩ := Nat.exists_eq_succ_of_ne_zero (by omega : fuel ≠ 0)
      have hread := hunsigned.readUnsigned_eq hrest
      rw [htext, List.cons_append] at hread ⊢
      rw [readValue_of_number (Or.inl hdigit), readNumber, hread]
      rintro more heq
      have hminus := (List.cons.inj heq).1
      omega
  | @negative text value hunsigned =>
    obtain ⟨c, tail, htext, hdigit⟩ := hunsigned.exists_cons
    have hrange := isDigit_iff.mp hdigit
    refine ⟨⟨45, text, rfl, by decide, by decide, by decide⟩, ?_⟩
    intro fuel rest hfuel hrest
    obtain ⟨fuel, rfl⟩ := Nat.exists_eq_succ_of_ne_zero (by omega : fuel ≠ 0)
    have hhead : (text ++ rest).head? ≠ some 73 := by
      rw [htext, List.cons_append, List.head?_cons]
      intro heq
      have hletter := Option.some.inj heq
      omega
    rw [List.cons_append, readValue_of_number (Or.inr ⟨rfl, hhead⟩), readNumber,
      hunsigned.readUnsigned_eq hrest]

theorem NumberText.of_readNumber {text rest : Text} {value : Value}
    (hread : readNumber text = some (value, rest)) :
    ∃ number, text = number ++ rest ∧ NumberText number value := by
  rw [readNumber.eq_def] at hread
  split at hread
  · obtain ⟨number, rfl, hnumber⟩ := UnsignedText.of_readUnsigned hread
    exact ⟨45 :: number, rfl, .negative hnumber⟩
  · obtain ⟨number, rfl, hnumber⟩ := UnsignedText.of_readUnsigned hread
    exact ⟨number, rfl, .unsigned hnumber⟩

/-! ### Spaces -/

def Spaces (text : Text) : Prop := ∀ c ∈ text, isSpace c = true

theorem spaces_nil : Spaces [] := fun _ hc ↦ absurd hc List.not_mem_nil

theorem Spaces.lt_ascii {text : Text} (hspaces : Spaces text) : ∀ c ∈ text, c < 128 := by
  intro c hc
  have hspace := hspaces c hc
  simp only [isSpace, Bool.or_eq_true, decide_eq_true_eq] at hspace
  omega

theorem skipSpace_append {spaces : Text} (hspaces : Spaces spaces) (text : Text) :
    skipSpace (spaces ++ text) = skipSpace text :=
  List.dropWhile_append_of_pos hspaces

theorem exists_skipSpace (text : Text) :
    ∃ spaces, Spaces spaces ∧ text = spaces ++ skipSpace text :=
  ⟨text.takeWhile isSpace, fun _ hc ↦ List.mem_takeWhile_imp hc,
    List.takeWhile_append_dropWhile.symm⟩

/-- What stands before a character behind some spaces. -/
theorem exists_spaces_of_skipSpace {text rest : Text} {c : ℕ} (hskip : skipSpace text = c :: rest) :
    ∃ spaces, Spaces spaces ∧ text = spaces ++ c :: rest := by
  obtain ⟨spaces, hspaces, htext⟩ := exists_skipSpace text
  exact ⟨spaces, hspaces, htext.trans (by rw [hskip])⟩

theorem Spaces.delimited {spaces : Text} (hspaces : Spaces spaces) {rest : Text}
    (hrest : Delimited rest) : Delimited (spaces ++ rest) := by
  cases spaces with
  | nil => exact hrest
  | cons c spaces =>
    have hspace := hspaces c List.mem_cons_self
    simp only [isSpace, Bool.or_eq_true, decide_eq_true_eq] at hspace
    refine delimited_cons _ ?_ (by omega)
    rw [Bool.eq_false_iff, ne_eq, isDigit_iff]
    omega

theorem Opens.skipSpace_spaces {text : Text} (hopens : Opens text) {spaces : Text}
    (hspaces : Spaces spaces) (rest : Text) :
    skipSpace (spaces ++ (text ++ rest)) = text ++ rest := by
  rw [skipSpace_append hspaces, hopens.skipSpace_eq]

end SyzAbi.Library.Json

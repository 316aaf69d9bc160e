import Mathlib.Data.List.TakeWhile
import SyzAbi.Library.Json

/-!
# Reading printed JSON

Rules for texts that a program prints piece by piece without spaces: a text reads as a value when
the reader returns that value and stops right behind the text (`Reads`), and the pieces are plain
strings (`Reads.quoted`), decimal numbers (`Reads.natural`, `Reads.integer`), arrays (`Reads.array`)
and objects (`Reads.object`) of such pieces.
-/

set_option autoImplicit false
set_option relaxedAutoImplicit false

namespace SyzAbi.Library.Json

/-! ### Decimal numbers -/

theorem isDigit_iff {c : ℕ} : isDigit c = true ↔ 48 ≤ c ∧ c ≤ 57 := by
  simp [isDigit]

theorem isDigit_of_mem_decimal {n c : ℕ} (hc : c ∈ decimal n) : isDigit c = true := by
  rw [isDigit_iff]
  rw [decimal] at hc
  split_ifs at hc
  · have : c = 48 := List.mem_singleton.mp hc
    omega
  · obtain ⟨digit, hdigit, rfl⟩ := List.mem_map.mp hc
    have hlt : digit < 10 := Nat.digits_lt_base (by omega) (List.mem_reverse.mp hdigit)
    omega

theorem decimal_ne_nil (n : ℕ) : decimal n ≠ [] := by
  rw [decimal]
  split_ifs with hzero
  · simp
  · simpa using Nat.digits_ne_nil_iff_ne_zero.mpr hzero

/-- A number other than 0 does not begin with the digit 0. -/
theorem decimal_head {n c : ℕ} {rest : Text} (hne : n ≠ 0) (hdecimal : decimal n = c :: rest) :
    c ≠ 48 := by
  rw [decimal, if_neg hne] at hdecimal
  have hdigits : Nat.digits 10 n ≠ [] := Nat.digits_ne_nil_iff_ne_zero.mpr hne
  have hlast := Nat.getLast_digit_ne_zero 10 hne
  have hhead : ((Nat.digits 10 n).reverse.map (48 + ·)).head? = some c := by rw [hdecimal]; rfl
  rw [List.head?_map, List.head?_reverse, List.getLast?_eq_some_getLast hdigits] at hhead
  have heq : 48 + (Nat.digits 10 n).getLast hdigits = c := by simpa using hhead
  omega

theorem digitsValue_decimal (n : ℕ) : digitsValue (decimal n) = n := by
  rw [decimal]
  split_ifs with hzero
  · rw [hzero]
    rfl
  · rw [digitsValue, List.foldl_map, List.foldl_reverse]
    conv_rhs => rw [← Nat.ofDigits_digits 10 n, Nat.ofDigits_eq_foldr]
    congr 1
    funext digit value
    simp only [Nat.cast_id]
    omega

theorem length_decimal_le {n k : ℕ} (hlt : n < 10 ^ k) (hk : 0 < k) : (decimal n).length ≤ k := by
  rw [decimal]
  split_ifs with hzero
  · exact hk
  · rw [List.length_map, List.length_reverse]
    exact Nat.digits_length_le_iff (by omega) n |>.mpr hlt

/-- The decimal text of an integer. -/
def decimalInt (value : ℤ) : Text :=
  if value < 0 then 45 :: decimal value.natAbs else decimal value.natAbs

/-! ### What reads -/

/-- The text that follows does not go on with a number. -/
def Delimited (rest : Text) : Prop :=
  ∀ c ∈ rest.head?, isDigit c = false ∧ c ≠ 46 ∧ c ≠ 69 ∧ c ≠ 101

theorem delimited_cons {c : ℕ} (rest : Text) (hdigit : isDigit c = false)
    (hother : c ≠ 46 ∧ c ≠ 69 ∧ c ≠ 101) : Delimited (c :: rest) := by
  intro head hhead
  obtain rfl : c = head := Option.some.inj hhead
  exact ⟨hdigit, hother⟩

/-- The text starts like a value: not with a space, and not with a closing bracket. -/
def Opens (text : Text) : Prop :=
  ∃ c rest, text = c :: rest ∧ isSpace c = false ∧ c ≠ 93 ∧ c ≠ 125

/-- The reader returns the value and stops right behind the text. -/
structure Reads (text : Text) (value : Value) : Prop where
  opens : Opens text
  reads : ∀ fuel rest, text.length < fuel → Delimited rest →
    readValue fuel (text ++ rest) = some (value, rest)

theorem Opens.skipSpace_eq {text : Text} (hopens : Opens text) (rest : Text) :
    skipSpace (text ++ rest) = text ++ rest := by
  obtain ⟨c, tail, rfl, hspace, _⟩ := hopens
  simp [skipSpace, hspace]

theorem skipSpace_cons {c : ℕ} (rest : Text) (hspace : isSpace c = false) :
    skipSpace (c :: rest) = c :: rest := by
  simp [skipSpace, hspace]

/-- A printed value is what its text parses to; a line break may follow it. -/
theorem Reads.parse_eq {text : Text} {value : Value} (hreads : Reads text value) {rest : Text}
    (hspaces : ∀ c ∈ rest, isSpace c = true) : parse (text ++ rest) = some value := by
  have hskipped : skipSpace rest = [] := by
    rw [skipSpace, List.dropWhile_eq_nil_iff]
    exact hspaces
  have hdelimited : Delimited rest := by
    intro c hc
    have hspace := hspaces c (List.mem_of_mem_head? hc)
    simp only [isSpace, Bool.or_eq_true, decide_eq_true_eq] at hspace
    refine ⟨?_, by omega, by omega, by omega⟩
    rw [Bool.eq_false_iff, ne_eq, isDigit_iff]
    omega
  rw [parse, hreads.opens.skipSpace_eq,
    hreads.reads _ _ (by rw [List.length_append]; omega) hdelimited]
  simp [hskipped]

/-! ### Strings -/

/-- The characters that need no escape. -/
def Plain (text : Text) : Prop :=
  ∀ c ∈ text, 32 ≤ c ∧ c ≠ 34 ∧ c ≠ 92

/-- A plain string reads back. -/
theorem scanString_plain {text : Text} (hplain : Plain text) {fuel : ℕ} (rest : Text)
    (hfuel : text.length < fuel) : scanString fuel (text ++ 34 :: rest) = some (text, rest) := by
  induction text generalizing fuel with
  | nil =>
    obtain ⟨fuel, rfl⟩ := Nat.exists_eq_succ_of_ne_zero (by omega : fuel ≠ 0)
    simp [scanString]
  | cons c text ih =>
    obtain ⟨fuel, rfl⟩ := Nat.exists_eq_succ_of_ne_zero (by omega : fuel ≠ 0)
    obtain ⟨hlow, hquote, hbackslash⟩ := hplain c List.mem_cons_self
    have hrest := ih (fun d hd ↦ hplain d (List.mem_cons_of_mem c hd))
      (by simp only [List.length_cons] at hfuel; omega : text.length < fuel)
    rw [List.cons_append, scanString, if_neg hquote, if_neg hbackslash, if_neg (by omega), hrest]
    rfl

/-- The text between two quotes. -/
def quoted (text : Text) : Text := 34 :: text ++ [34]

theorem Reads.quoted {text : Text} (hplain : Plain text) :
    Reads (Json.quoted text) (.str text) := by
  refine ⟨⟨34, text ++ [34], rfl, by decide, by decide, by decide⟩, ?_⟩
  intro fuel rest hfuel _
  obtain ⟨fuel, rfl⟩ := Nat.exists_eq_succ_of_ne_zero (by omega : fuel ≠ 0)
  have hlt : text.length < fuel := by
    simp only [Json.quoted, List.length_append, List.length_cons] at hfuel
    omega
  have htext : Json.quoted text ++ rest = 34 :: (text ++ 34 :: rest) := by
    simp [Json.quoted]
  rw [htext, readValue, if_pos rfl, scanString_plain hplain rest hlt]
  rfl

/-! ### Numbers -/

theorem takeWhile_decimal (n : ℕ) {rest : Text} (hrest : Delimited rest) :
    (decimal n ++ rest).takeWhile isDigit = decimal n := by
  rw [List.takeWhile_append_of_pos (fun c hc ↦ isDigit_of_mem_decimal hc)]
  cases rest with
  | nil => simp
  | cons c rest => simp [(hrest c rfl).1]

theorem dropWhile_decimal (n : ℕ) {rest : Text} (hrest : Delimited rest) :
    (decimal n ++ rest).dropWhile isDigit = rest := by
  rw [List.dropWhile_append_of_pos (fun c hc ↦ isDigit_of_mem_decimal hc)]
  cases rest with
  | nil => simp
  | cons c rest => simp [(hrest c rfl).1]

theorem readInteger_decimal (n : ℕ) {rest : Text} (hrest : Delimited rest) :
    readInteger (decimal n ++ rest) = some (decimal n, rest) := by
  by_cases hzero : n = 0
  · subst hzero
    simp [decimal, readInteger]
  · obtain ⟨c, tail, hdecimal⟩ := List.exists_cons_of_ne_nil (decimal_ne_nil n)
    have hdigit : isDigit c = true := isDigit_of_mem_decimal (by rw [hdecimal]; simp)
    have htake := takeWhile_decimal n hrest
    have hdrop := dropWhile_decimal n hrest
    rw [hdecimal, List.cons_append] at htake hdrop ⊢
    rw [List.takeWhile_cons_of_pos hdigit] at htake
    rw [List.dropWhile_cons_of_pos hdigit] at hdrop
    rw [readInteger, if_neg (decimal_head hzero hdecimal), if_pos hdigit, htake, hdrop]

/-- A decimal number reads back. -/
theorem readUnsigned_decimal (negative : Bool) (n : ℕ) {rest : Text} (hrest : Delimited rest) :
    readUnsigned negative (decimal n ++ rest) =
      some (.int (if negative then -(n : ℤ) else n), rest) := by
  have hfraction : readFraction rest = ([], rest) := by
    cases rest with
    | nil => rfl
    | cons c rest =>
      have hne := (hrest c rfl).2.1
      rw [readFraction]
      intro more heq
      exact absurd (List.cons.inj heq).1 hne
  have hexponent : readExponent rest = ([], rest) := by
    cases rest with
    | nil => rfl
    | cons c rest =>
      obtain ⟨_, _, hupper, hlower⟩ := hrest c rfl
      rw [readExponent, if_neg (by omega)]
  rw [readUnsigned, readInteger_decimal n hrest]
  simp [hfraction, hexponent, digitsValue_decimal]

/-- The text of a number is read as one, and not as a keyword. -/
theorem readValue_of_number {fuel c : ℕ} {rest : Text}
    (hnumber : isDigit c = true ∨ c = 45 ∧ rest.head? ≠ some 73) :
    readValue (fuel + 1) (c :: rest) = readNumber (c :: rest) := by
  have hrange : c = 45 ∨ 48 ≤ c ∧ c ≤ 57 := by
    rcases hnumber with hdigit | ⟨hminus, _⟩
    · exact Or.inr (isDigit_iff.mp hdigit)
    · exact Or.inl hminus
  have hkeyword : [45, 73, 110, 102, 105, 110, 105, 116, 121].isPrefixOf (c :: rest) = false := by
    rcases hnumber with hdigit | ⟨rfl, hhead⟩
    · have hc : ¬45 = c := by
        have := isDigit_iff.mp hdigit
        omega
      simp [List.isPrefixOf, hc]
    · cases rest with
      | nil => rfl
      | cons d rest =>
        have hd : ¬73 = d := by
          intro heq
          exact hhead (by rw [heq]; rfl)
        simp [List.isPrefixOf, hd]
  rw [readValue, if_neg (by omega), if_neg (by omega), if_neg (by omega), if_neg (by omega),
    if_neg (by omega), if_neg (by omega), if_neg (by omega), if_neg (by omega), hkeyword]
  rfl

theorem Reads.natural (n : ℕ) : Reads (decimal n) (.int n) := by
  obtain ⟨c, tail, hdecimal⟩ := List.exists_cons_of_ne_nil (decimal_ne_nil n)
  have hdigit : isDigit c = true := isDigit_of_mem_decimal (by rw [hdecimal]; simp)
  have hrange := isDigit_iff.mp hdigit
  constructor
  · refine ⟨c, tail, hdecimal, ?_, by omega, by omega⟩
    simp only [isSpace, Bool.or_eq_false_iff, decide_eq_false_iff_not]
    omega
  · intro fuel rest hfuel hrest
    obtain ⟨fuel, rfl⟩ := Nat.exists_eq_succ_of_ne_zero (by omega : fuel ≠ 0)
    have hread := readUnsigned_decimal false n hrest
    rw [hdecimal, List.cons_append] at hread ⊢
    rw [readValue_of_number (Or.inl hdigit), readNumber, hread]
    · rfl
    · intro more heq
      have := (List.cons.inj heq).1
      omega

theorem Reads.integer (value : ℤ) : Reads (decimalInt value) (.int value) := by
  rw [decimalInt]
  split_ifs with hneg
  · have hvalue : -(value.natAbs : ℤ) = value := by omega
    obtain ⟨c, tail, hdecimal⟩ := List.exists_cons_of_ne_nil (decimal_ne_nil value.natAbs)
    have hdigit : isDigit c = true := isDigit_of_mem_decimal (by rw [hdecimal]; simp)
    have hrange := isDigit_iff.mp hdigit
    refine ⟨⟨45, decimal value.natAbs, rfl, by decide, by decide, by decide⟩, ?_⟩
    intro fuel rest hfuel hrest
    obtain ⟨fuel, rfl⟩ := Nat.exists_eq_succ_of_ne_zero (by omega : fuel ≠ 0)
    have hhead : (decimal value.natAbs ++ rest).head? ≠ some 73 := by
      rw [hdecimal, List.cons_append, List.head?_cons]
      intro heq
      have := Option.some.inj heq
      omega
    rw [List.cons_append, readValue_of_number (Or.inr ⟨rfl, hhead⟩), readNumber,
      readUnsigned_decimal true value.natAbs hrest, if_pos rfl, hvalue]
  · have hvalue : (value.natAbs : ℤ) = value := by omega
    have hread := Reads.natural value.natAbs
    rwa [hvalue] at hread

/-! ### Keywords -/

theorem Reads.ofFalse : Reads [102, 97, 108, 115, 101] (.bool false) := by
  refine ⟨⟨102, _, rfl, by decide, by decide, by decide⟩, ?_⟩
  intro fuel rest hfuel _
  obtain ⟨fuel, rfl⟩ := Nat.exists_eq_succ_of_ne_zero (by omega : fuel ≠ 0)
  simp [readValue, readKeyword]

/-! ### Arrays -/

/-- Texts with commas between them. -/
def commaJoin : List Text → Text
  | [] => []
  | [text] => text
  | text :: rest => text ++ 44 :: commaJoin rest

theorem commaJoin_cons_cons (text next : Text) (rest : List Text) :
    commaJoin (text :: next :: rest) = text ++ 44 :: commaJoin (next :: rest) := rfl

theorem Opens.commaJoin {text : Text} (hopens : Opens text) (rest : List Text) :
    Opens (Json.commaJoin (text :: rest)) := by
  cases rest with
  | nil => exact hopens
  | cons next rest =>
    obtain ⟨c, tail, rfl, hhead⟩ := hopens
    exact ⟨c, tail ++ 44 :: Json.commaJoin (next :: rest), rfl, hhead⟩

/-- Items that read, with commas between them, read as the array of their values. -/
theorem readElements_commaJoin {texts : List Text} {values : List Value}
    (hreads : List.Forall₂ Reads texts values) (hne : texts ≠ []) {fuel : ℕ} (rest : Text)
    (hfuel : (commaJoin texts).length + 1 < fuel) :
    readElements fuel (commaJoin texts ++ 93 :: rest) = some (.arr values, rest) := by
  induction hreads generalizing fuel with
  | nil => exact absurd rfl hne
  | @cons text value texts values hitem hitems ih =>
    obtain ⟨fuel, rfl⟩ := Nat.exists_eq_succ_of_ne_zero (by omega : fuel ≠ 0)
    cases hitems with
    | nil =>
      have hvalue := hitem.reads fuel (93 :: rest) (by simp only [commaJoin] at hfuel; omega)
        (delimited_cons rest (by decide) (by decide))
      rw [commaJoin, readElements, hvalue]
      simp [skipSpace_cons rest (show isSpace 93 = false by decide)]
    | @cons next nextValue more moreValues hnext hmore =>
      rw [commaJoin_cons_cons] at hfuel ⊢
      simp only [List.length_append, List.length_cons] at hfuel
      have hvalue := hitem.reads fuel (44 :: (commaJoin (next :: more) ++ 93 :: rest)) (by omega)
        (delimited_cons _ (by decide) (by decide))
      have hrest : readElements fuel (commaJoin (next :: more) ++ 93 :: rest) =
          some (.arr (nextValue :: moreValues), rest) := ih (by simp) (by omega)
      have hopens := (hnext.opens.commaJoin more).skipSpace_eq (93 :: rest)
      rw [List.append_assoc, List.cons_append, readElements, hvalue]
      simp [skipSpace_cons _ (show isSpace 44 = false by decide), hopens, hrest]

/-- The text of an array. -/
def arrayText (texts : List Text) : Text := 91 :: commaJoin texts ++ [93]

theorem Reads.array {texts : List Text} {values : List Value}
    (hreads : List.Forall₂ Reads texts values) : Reads (arrayText texts) (.arr values) := by
  refine ⟨⟨91, commaJoin texts ++ [93], rfl, by decide, by decide, by decide⟩, ?_⟩
  intro fuel rest hfuel _
  obtain ⟨fuel, rfl⟩ := Nat.exists_eq_succ_of_ne_zero (by omega : fuel ≠ 0)
  have htext : arrayText texts ++ rest = 91 :: (commaJoin texts ++ 93 :: rest) := by
    simp [arrayText]
  simp only [arrayText, List.length_append, List.length_cons, List.length_nil] at hfuel
  rw [htext, readValue, if_neg (by decide), if_neg (by decide), if_pos rfl]
  cases hreads with
  | nil => simp [commaJoin, skipSpace_cons rest (show isSpace 93 = false by decide)]
  | @cons text value more values hitem hitems =>
    have hjoin := hitem.opens.commaJoin more
    have helements := readElements_commaJoin (.cons hitem hitems) (by simp) rest
      (show (commaJoin (text :: more)).length + 1 < fuel by omega)
    rw [hjoin.skipSpace_eq]
    obtain ⟨c, tail, heq, _, hbracket, _⟩ := hjoin
    rw [heq, List.cons_append] at helements ⊢
    split
    · next heq =>
      exact absurd (List.cons.inj heq).1 hbracket
    · exact helements

/-! ### Objects -/

/-- The text of a member. -/
def memberText (key text : Text) : Text := quoted key ++ 58 :: text

/-- The text of a member with this key and this value. -/
def ReadsMember (text : Text) (member : Text × Value) : Prop :=
  Plain member.1 ∧ ∃ valueText, text = memberText member.1 valueText ∧ Reads valueText member.2

/-- Set members one after the other. -/
def setMembers (object members : List (Text × Value)) : List (Text × Value) :=
  members.foldl (fun object member ↦ insertMember member.1 member.2 object) object

theorem ReadsMember.opens {text : Text} {member : Text × Value} (hreads : ReadsMember text member) :
    Opens text := by
  obtain ⟨_, valueText, rfl, _⟩ := hreads
  exact ⟨34, _, rfl, by decide, by decide, by decide⟩

/-- The members of an object read as the object that they set. -/
theorem readMembers_commaJoin {texts : List Text} {members : List (Text × Value)}
    (hreads : List.Forall₂ ReadsMember texts members) (hne : texts ≠ []) {fuel : ℕ}
    (object : List (Text × Value)) (rest : Text) (hfuel : (commaJoin texts).length + 1 < fuel) :
    readMembers fuel object (commaJoin texts ++ 125 :: rest) =
      some (.obj (setMembers object members), rest) := by
  induction hreads generalizing fuel object with
  | nil => exact absurd rfl hne
  | @cons text member texts members hmember hmembers ih =>
    obtain ⟨fuel, rfl⟩ := Nat.exists_eq_succ_of_ne_zero (by omega : fuel ≠ 0)
    obtain ⟨hplain, valueText, rfl, hvalue⟩ := hmember
    -- One member, with a brace or a comma behind its value.
    have hone : ∀ {after : Text} {c : ℕ} {tail : Text},
        (memberText member.1 valueText).length < fuel → Delimited after →
        skipSpace after = c :: tail →
        (c = 125 → readMembers (fuel + 1) object (memberText member.1 valueText ++ after) =
          some (.obj (insertMember member.1 member.2 object), tail)) ∧
        (c = 44 → readMembers (fuel + 1) object (memberText member.1 valueText ++ after) =
          readMembers fuel (insertMember member.1 member.2 object) (skipSpace tail)) := by
      intro after c tail hlt hafter hskip
      simp only [memberText, quoted, List.length_append, List.length_cons] at hlt
      have htext : memberText member.1 valueText ++ after =
          34 :: (member.1 ++ 34 :: (58 :: (valueText ++ after))) := by
        simp [memberText, quoted]
      rw [htext, readMembers, scanString_plain hplain _ (by omega)]
      simp only [Option.bind_eq_bind, Option.bind_some,
        skipSpace_cons _ (show isSpace 58 = false by decide), hvalue.opens.skipSpace_eq,
        hvalue.reads fuel after (by omega) hafter, hskip]
      exact ⟨fun hbrace ↦ by rw [hbrace]; rfl, fun hcomma ↦ by rw [hcomma]; rfl⟩
    cases hmembers with
    | nil =>
      rw [commaJoin]
      exact (hone (by simp only [commaJoin] at hfuel; omega)
        (delimited_cons rest (by decide) (by decide))
        (skipSpace_cons rest (show isSpace 125 = false by decide))).1 rfl
    | @cons next nextMember more moreMembers hnext hmore =>
      rw [commaJoin_cons_cons] at hfuel ⊢
      simp only [List.length_append, List.length_cons] at hfuel
      rw [List.append_assoc, List.cons_append, (hone (by omega)
        (delimited_cons _ (by decide) (by decide))
        (skipSpace_cons _ (show isSpace 44 = false by decide))).2 rfl,
        (hnext.opens.commaJoin more).skipSpace_eq]
      exact ih (by simp) _ (by omega)

/-- The text of an object. -/
def objectText (texts : List Text) : Text := 123 :: commaJoin texts ++ [125]

theorem Reads.object {texts : List Text} {members : List (Text × Value)}
    (hreads : List.Forall₂ ReadsMember texts members) :
    Reads (objectText texts) (.obj (setMembers [] members)) := by
  refine ⟨⟨123, commaJoin texts ++ [125], rfl, by decide, by decide, by decide⟩, ?_⟩
  intro fuel rest hfuel _
  obtain ⟨fuel, rfl⟩ := Nat.exists_eq_succ_of_ne_zero (by omega : fuel ≠ 0)
  have htext : objectText texts ++ rest = 123 :: (commaJoin texts ++ 125 :: rest) := by
    simp [objectText]
  simp only [objectText, List.length_append, List.length_cons, List.length_nil] at hfuel
  rw [htext, readValue, if_neg (by decide), if_pos rfl]
  cases hreads with
  | nil =>
    simp [commaJoin, setMembers, skipSpace_cons rest (show isSpace 125 = false by decide)]
  | @cons text member more members hmember hmembers =>
    have hjoin := hmember.opens.commaJoin more
    have hread := readMembers_commaJoin (.cons hmember hmembers) (by simp) [] rest
      (show (commaJoin (text :: more)).length + 1 < fuel by omega)
    rw [hjoin.skipSpace_eq]
    obtain ⟨c, tail, heq, _, _, hbrace⟩ := hjoin
    rw [heq, List.cons_append] at hread ⊢
    split
    · next heq =>
      exact absurd (List.cons.inj heq).1 hbrace
    · exact hread

/-! ### Characters of printed texts -/

section Characters

variable {c : ℕ}

theorem not_mem_decimal (hc : isDigit c = false) (n : ℕ) : c ∉ decimal n := by
  intro hmem
  rw [isDigit_of_mem_decimal hmem] at hc
  cases hc

theorem not_mem_quoted (hc : c ≠ 34) {text : Text} (htext : c ∉ text) : c ∉ quoted text := by
  simpa [quoted, hc] using htext

theorem not_mem_commaJoin (hc : c ≠ 44) {texts : List Text} (htexts : ∀ text ∈ texts, c ∉ text) :
    c ∉ commaJoin texts := by
  induction texts with
  | nil => exact List.not_mem_nil
  | cons text rest ih =>
    obtain ⟨htext, hothers⟩ := List.forall_mem_cons.mp htexts
    have hrest := ih hothers
    cases rest with
    | nil => exact htext
    | cons next more =>
      rw [commaJoin_cons_cons]
      simp [htext, hc, hrest]

theorem not_mem_arrayText (hc : c ∉ [44, 91, 93]) {texts : List Text}
    (htexts : ∀ text ∈ texts, c ∉ text) : c ∉ arrayText texts := by
  simp only [List.mem_cons, List.not_mem_nil, or_false, not_or] at hc
  simpa [arrayText, hc.2.1, hc.2.2] using not_mem_commaJoin hc.1 htexts

theorem not_mem_objectText (hc : c ∉ [44, 123, 125]) {texts : List Text}
    (htexts : ∀ text ∈ texts, c ∉ text) : c ∉ objectText texts := by
  simp only [List.mem_cons, List.not_mem_nil, or_false, not_or] at hc
  simpa [objectText, hc.2.1, hc.2.2] using not_mem_commaJoin hc.1 htexts

theorem not_mem_memberText (hc : c ∉ [34, 58]) {key text : Text} (hkey : c ∉ key)
    (htext : c ∉ text) : c ∉ memberText key text := by
  simp only [List.mem_cons, List.not_mem_nil, or_false, not_or] at hc
  have hquoted := not_mem_quoted hc.1 hkey
  simp [memberText, hquoted, hc.2, htext]

end Characters

/-! ### Members of an object -/

theorem lookup_member (other key : Text) (value : Value) (object : List (Text × Value)) :
    List.lookup other ((key, value) :: object) =
      if other = key then some value else object.lookup other := by
  by_cases h : other = key
  · simp [h]
  · have hne : (other == key) = false := by simpa using h
    simp [List.lookup_cons, hne, h]

/-- A member that was set is found under its key, and the others are found as before. -/
theorem lookup_insertMember (key other : Text) (value : Value) (object : List (Text × Value)) :
    (insertMember key value object).lookup other =
      if other = key then some value else object.lookup other := by
  induction object with
  | nil => rw [insertMember, lookup_member]
  | cons member object ih =>
    obtain ⟨memberKey, memberValue⟩ := member
    by_cases hsame : key = memberKey
    · subst hsame
      rw [insertMember, if_pos rfl, lookup_member, lookup_member]
      by_cases h : other = key <;> simp [h]
    · rw [insertMember, if_neg hsame]
      by_cases hlt : keyLt key memberKey = true
      · rw [if_pos hlt, lookup_member]
      · rw [if_neg hlt, lookup_member, lookup_member, ih]
        by_cases h : other = key
        · simp [h, hsame]
        · simp [h]

end SyzAbi.Library.Json

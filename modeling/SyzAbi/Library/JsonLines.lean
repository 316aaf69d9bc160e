import SyzAbi.Library.JsonPrinted

/-!
# Line breaks in JSON texts

A string of a JSON document holds no raw line feed, so a line feed stands between two tokens, and
what follows it is a space or the first character of a token (`opensToken`). A text that parses is
`Lined` in this sense (`lined_of_parse`): a line that begins with any other character is not part of
a JSON document, whatever surrounds it.

The reader is followed piece by piece: `Consumes text rest` says that it went from a text to a rest
of it over a lined piece. Such steps compose (`Consumes.trans`), and each reader is one.
-/

set_option autoImplicit false
set_option relaxedAutoImplicit false

namespace SyzAbi.Library.Json

/-! ### Lines -/

/-- The spaces, and the characters that a token begins with. -/
def opensToken (c : ℕ) : Bool :=
  isSpace c || isDigit c || c ∈ [34, 44, 45, 58, 73, 78, 91, 93, 102, 110, 116, 123, 125]

/-- Every line of the text is empty or begins with a space or a token. -/
def Lined (text : Text) : Prop :=
  (∀ c ∈ text.head?, opensToken c = true) ∧ ∀ c, [10, c] <:+: text → opensToken c = true

theorem pair_infix_append {d c : ℕ} {a b : Text} (hoccurs : [d, c] <:+: a ++ b) :
    [d, c] <:+: a ∨ [d, c] <:+: b ∨ c ∈ b.head? := by
  induction a with
  | nil => exact Or.inr (Or.inl hoccurs)
  | cons e a ih =>
    rw [List.cons_append, List.infix_cons_iff] at hoccurs
    rcases hoccurs with hstarts | hoccurs
    · obtain ⟨rfl, hnext⟩ := List.cons_prefix_cons.mp hstarts
      cases a with
      | nil =>
        obtain ⟨rest, rfl⟩ := hnext
        exact Or.inr (Or.inr rfl)
      | cons f a =>
        obtain ⟨rfl, _⟩ := List.cons_prefix_cons.mp hnext
        exact Or.inl ⟨[], a, rfl⟩
    · rcases ih hoccurs with h | h
      · exact Or.inl (List.infix_cons h)
      · exact Or.inr h

theorem Lined.append {a b : Text} (ha : Lined a) (hb : Lined b) : Lined (a ++ b) := by
  constructor
  · intro c hc
    cases a with
    | nil => exact hb.1 c hc
    | cons d a => exact ha.1 c hc
  · intro c hc
    rcases pair_infix_append hc with h | h | h
    · exact ha.2 c h
    · exact hb.2 c h
    · exact hb.1 c h

/-- A token without line feeds. -/
theorem lined_token {c : ℕ} {rest : Text} (hopens : opensToken c = true)
    (hfree : 10 ∉ c :: rest) : Lined (c :: rest) := by
  constructor
  · intro d hd
    obtain rfl : c = d := Option.some.inj hd
    exact hopens
  · exact fun d hd ↦ absurd (hd.subset List.mem_cons_self) hfree

theorem lined_spaces {text : Text} (hspaces : ∀ c ∈ text, isSpace c = true) : Lined text := by
  have hopens : ∀ c ∈ text, opensToken c = true := by
    intro c hc
    rw [opensToken, hspaces c hc, Bool.true_or, Bool.true_or]
  constructor
  · exact fun c hc ↦ hopens c (List.mem_of_mem_head? hc)
  · exact fun c hc ↦ hopens c (hc.subset (by simp))

/-! ### Pieces of a text -/

/-- The rest of a text behind a lined piece. -/
def Consumes (text rest : Text) : Prop := ∃ piece, text = piece ++ rest ∧ Lined piece

theorem Consumes.trans {a b c : Text} (hab : Consumes a b) (hbc : Consumes b c) :
    Consumes a c := by
  obtain ⟨first, rfl, hfirst⟩ := hab
  obtain ⟨second, rfl, hsecond⟩ := hbc
  exact ⟨first ++ second, (List.append_assoc _ _ _).symm, hfirst.append hsecond⟩

theorem consumes_skipSpace (text : Text) : Consumes text (skipSpace text) := by
  refine ⟨text.takeWhile isSpace, List.takeWhile_append_dropWhile.symm, lined_spaces ?_⟩
  exact fun c hc ↦ List.mem_takeWhile_imp hc

theorem consumes_char {c : ℕ} (rest : Text) (hopens : opensToken c = true) :
    Consumes (c :: rest) rest := by
  refine ⟨[c], rfl, ?_, fun d hd ↦ absurd hd.length_le (by simp)⟩
  intro d hd
  obtain rfl : c = d := Option.some.inj hd
  exact hopens

/-- The rest of a text behind a piece without line feeds. -/
def Within (text rest : Text) : Prop := ∃ piece, text = piece ++ rest ∧ 10 ∉ piece

theorem Within.refl (text : Text) : Within text text := ⟨[], rfl, List.not_mem_nil⟩

theorem Within.trans {a b c : Text} (hab : Within a b) (hbc : Within b c) : Within a c := by
  obtain ⟨first, rfl, hfirst⟩ := hab
  obtain ⟨second, rfl, hsecond⟩ := hbc
  refine ⟨first ++ second, (List.append_assoc _ _ _).symm, ?_⟩
  rw [List.mem_append]
  exact fun h ↦ h.elim hfirst hsecond

theorem within_char {c : ℕ} (rest : Text) (hc : c ≠ 10) : Within (c :: rest) rest :=
  ⟨[c], rfl, fun h ↦ hc (List.mem_singleton.mp h).symm⟩

/-- A token goes on to its end without line feeds. -/
theorem Within.consumes {c : ℕ} {text rest : Text} (hopens : opensToken c = true) (hc : c ≠ 10)
    (hwithin : Within text rest) : Consumes (c :: text) rest := by
  obtain ⟨piece, rfl, hfree⟩ := hwithin
  refine ⟨c :: piece, rfl, lined_token hopens ?_⟩
  rw [List.mem_cons]
  exact fun h ↦ h.elim (fun h ↦ hc h.symm) hfree

theorem within_digits (text : Text) : Within text (text.dropWhile isDigit) := by
  refine ⟨text.takeWhile isDigit, List.takeWhile_append_dropWhile.symm, fun hmem ↦ ?_⟩
  exact absurd (List.mem_takeWhile_imp hmem) (by decide)

/-! ### Strings -/

theorem within_readUnicode {text rest : Text} {value : ℕ}
    (hread : readUnicode text = some (value, rest)) : Within text rest := by
  have hdigit : ∀ c digit, hexDigit c = some digit → c ≠ 10 := by
    rintro c digit hdigit rfl
    cases hdigit
  rw [readUnicode.eq_def] at hread
  split at hread
  · next a b c d more =>
    simp only [Option.bind_eq_bind, Option.bind_eq_some_iff] at hread
    obtain ⟨_, ha, _, hb, _, hc, _, hd, hresult⟩ := hread
    obtain ⟨_, rfl⟩ := Prod.mk.inj (Option.some.inj hresult)
    exact (within_char _ (hdigit a _ ha)).trans ((within_char _ (hdigit b _ hb)).trans
      ((within_char _ (hdigit c _ hc)).trans (within_char _ (hdigit d _ hd))))
  · cases hread

theorem within_readEscape {text rest : Text} {value : ℕ}
    (hread : readEscape text = some (value, rest)) : Within text rest := by
  rw [readEscape.eq_def] at hread
  split at hread
  · next more =>
    simp only [Option.bind_eq_bind, Option.bind_eq_some_iff, Prod.exists] at hread
    obtain ⟨high, after, hhigh, hresult⟩ := hread
    have hfirst : Within (117 :: more) after :=
      (within_char more (by decide)).trans (within_readUnicode hhigh)
    split at hresult
    · next low =>
      split_ifs at hresult with hpair
      · simp only [Option.bind_eq_some_iff, Prod.exists] at hresult
        obtain ⟨second, afterLow, hlow, hresult⟩ := hresult
        split_ifs at hresult
        · obtain ⟨_, rfl⟩ := Prod.mk.inj (Option.some.inj hresult)
          exact hfirst.trans ((within_char _ (by decide)).trans
            ((within_char _ (by decide)).trans (within_readUnicode hlow)))
        · obtain ⟨_, rfl⟩ := Prod.mk.inj (Option.some.inj hresult)
          exact hfirst
      · obtain ⟨_, rfl⟩ := Prod.mk.inj (Option.some.inj hresult)
        exact hfirst
    · obtain ⟨_, rfl⟩ := Prod.mk.inj (Option.some.inj hresult)
      exact hfirst
  · next c more _ =>
    obtain ⟨_, hsimple, hresult⟩ := Option.map_eq_some_iff.mp hread
    obtain ⟨_, rfl⟩ := Prod.mk.inj hresult
    refine within_char _ ?_
    rintro rfl
    cases hsimple
  · cases hread

theorem within_scanString {fuel : ℕ} {text rest string : Text}
    (hread : scanString fuel text = some (string, rest)) : Within text rest := by
  induction fuel generalizing text string with
  | zero => cases hread
  | succ fuel ih =>
    cases text with
    | nil => cases hread
    | cons c text =>
      rw [scanString] at hread
      split_ifs at hread with hquote hbackslash hcontrol
      · obtain ⟨_, rfl⟩ := Prod.mk.inj (Option.some.inj hread)
        exact within_char _ (by omega)
      · simp only [Option.bind_eq_bind, Option.bind_eq_some_iff, Prod.exists] at hread
        obtain ⟨_, after, hescape, _, last, hscan, hresult⟩ := hread
        obtain ⟨_, rfl⟩ := Prod.mk.inj (Option.some.inj hresult)
        exact (within_char _ (by omega)).trans ((within_readEscape hescape).trans (ih hscan))
      · simp only [Option.bind_eq_bind, Option.bind_eq_some_iff, Prod.exists] at hread
        obtain ⟨_, last, hscan, hresult⟩ := hread
        obtain ⟨_, rfl⟩ := Prod.mk.inj (Option.some.inj hresult)
        exact (within_char _ (by omega)).trans (ih hscan)

/-! ### Numbers and keywords -/

theorem within_readFraction (text : Text) : Within text (readFraction text).2 := by
  rw [readFraction.eq_def]
  split
  · next rest =>
    split_ifs
    · exact .refl _
    · exact (within_char rest (by decide)).trans (within_digits rest)
  · exact .refl _

theorem within_readSign (text : Text) : Within text (readSign text).2 := by
  rw [readSign.eq_def]
  split
  · next c rest =>
    split_ifs with hsign
    · exact within_char rest (by omega)
    · exact .refl _
  · exact .refl _

theorem within_readExponent (text : Text) : Within text (readExponent text).2 := by
  rw [readExponent.eq_def]
  split
  · next c rest =>
    split_ifs with hletter
    · dsimp only
      split_ifs
      · exact .refl _
      · exact (within_char rest (by omega)).trans
          ((within_readSign rest).trans (within_digits _))
    · exact .refl _
  · exact .refl _

/-- A number begins with a digit. -/
theorem readInteger_some {text rest digits : Text}
    (hread : readInteger text = some (digits, rest)) :
    ∃ c more, text = c :: more ∧ isDigit c = true ∧ Within more rest := by
  cases text with
  | nil => cases hread
  | cons c more =>
    rw [readInteger] at hread
    split_ifs at hread with hzero hdigit
    · obtain ⟨_, rfl⟩ := Prod.mk.inj (Option.some.inj hread)
      exact ⟨c, more, rfl, hzero ▸ by decide, .refl _⟩
    · obtain ⟨_, rfl⟩ := Prod.mk.inj (Option.some.inj hread)
      exact ⟨c, more, rfl, hdigit, within_digits more⟩

theorem readUnsigned_some {negative : Bool} {text rest : Text} {value : Value}
    (hread : readUnsigned negative text = some (value, rest)) :
    ∃ c more, text = c :: more ∧ isDigit c = true ∧ Within more rest := by
  simp only [readUnsigned, Option.bind_eq_bind, Option.bind_eq_some_iff, Prod.exists] at hread
  obtain ⟨digits, afterDigits, hinteger, hresult⟩ := hread
  obtain ⟨c, more, rfl, hdigit, hwithin⟩ := readInteger_some hinteger
  refine ⟨c, more, rfl, hdigit, hwithin.trans ?_⟩
  have hbehind := (within_readFraction afterDigits).trans
    (within_readExponent (readFraction afterDigits).2)
  split at hresult
  · obtain ⟨_, rfl⟩ := Prod.mk.inj (Option.some.inj hresult)
    exact hbehind
  · obtain ⟨_, rfl⟩ := Prod.mk.inj (Option.some.inj hresult)
    exact hbehind

theorem opensToken_of_isDigit {c : ℕ} (hdigit : isDigit c = true) :
    opensToken c = true ∧ c ≠ 10 := by
  constructor
  · rw [opensToken, hdigit, Bool.or_true, Bool.true_or]
  · rintro rfl
    exact absurd hdigit (by decide)

theorem consumes_readNumber {text rest : Text} {value : Value}
    (hread : readNumber text = some (value, rest)) : Consumes text rest := by
  rw [readNumber.eq_def] at hread
  split at hread
  · next more =>
    obtain ⟨c, digits, rfl, hdigit, hwithin⟩ := readUnsigned_some hread
    refine Within.consumes (by decide) (by decide) (Within.trans (within_char _ ?_) hwithin)
    exact (opensToken_of_isDigit hdigit).2
  · obtain ⟨c, digits, rfl, hdigit, hwithin⟩ := readUnsigned_some hread
    have hopens := opensToken_of_isDigit hdigit
    exact hwithin.consumes hopens.1 hopens.2

theorem consumes_readKeyword {word text rest : Text} {value result : Value} (hword : Lined word)
    (hread : readKeyword word value text = some (result, rest)) : Consumes text rest := by
  rw [readKeyword] at hread
  split_ifs at hread with hstarts
  obtain ⟨_, rfl⟩ := Prod.mk.inj (Option.some.inj hread)
  obtain ⟨more, rfl⟩ := List.isPrefixOf_iff_prefix.mp hstarts
  exact ⟨word, by rw [List.drop_left], hword⟩

/-! ### Values -/

/-- The readers consume lined pieces. -/
structure Consuming (fuel : ℕ) : Prop where
  value : ∀ {text rest value}, readValue fuel text = some (value, rest) → Consumes text rest
  elements : ∀ {text rest value}, readElements fuel text = some (value, rest) → Consumes text rest
  members : ∀ {members text rest value},
    readMembers fuel members text = some (value, rest) → Consumes text rest

theorem consumes_readValue {fuel : ℕ} (ih : Consuming fuel) {text rest : Text} {value : Value}
    (hread : readValue (fuel + 1) text = some (value, rest)) : Consumes text rest := by
  cases text with
  | nil => cases hread
  | cons c text =>
    have hopen : ∀ {after}, opensToken c = true → Consumes (skipSpace text) after →
        Consumes (c :: text) after :=
      fun hc hafter ↦ (consumes_char text hc).trans ((consumes_skipSpace text).trans hafter)
    rw [readValue] at hread
    split_ifs at hread with hquote hbrace hbracket
    · obtain ⟨⟨string, after⟩, hscan, hresult⟩ := Option.map_eq_some_iff.mp hread
      obtain ⟨_, rfl⟩ := Prod.mk.inj hresult
      exact (within_scanString hscan).consumes (hquote ▸ by decide) (by omega)
    · have hc : opensToken c = true := hbrace ▸ by decide
      split at hread
      · next after hclose =>
        obtain ⟨_, rfl⟩ := Prod.mk.inj (Option.some.inj hread)
        exact hopen hc (hclose ▸ consumes_char _ (by decide))
      · exact hopen hc (ih.members hread)
    · have hc : opensToken c = true := hbracket ▸ by decide
      split at hread
      · next after hclose =>
        obtain ⟨_, rfl⟩ := Prod.mk.inj (Option.some.inj hread)
        exact hopen hc (hclose ▸ consumes_char _ (by decide))
      · exact hopen hc (ih.elements hread)
    · exact consumes_readKeyword (lined_token (by decide) (by decide)) hread
    · exact consumes_readKeyword (lined_token (by decide) (by decide)) hread
    · exact consumes_readKeyword (lined_token (by decide) (by decide)) hread
    · exact consumes_readKeyword (lined_token (by decide) (by decide)) hread
    · exact consumes_readKeyword (lined_token (by decide) (by decide)) hread
    · exact consumes_readKeyword (lined_token (by decide) (by decide)) hread
    · exact consumes_readNumber hread

theorem consumes_readElements {fuel : ℕ} (ih : Consuming fuel) {text rest : Text} {value : Value}
    (hread : readElements (fuel + 1) text = some (value, rest)) : Consumes text rest := by
  simp only [readElements, Option.bind_eq_bind, Option.bind_eq_some_iff, Prod.exists] at hread
  obtain ⟨item, after, hitem, hread⟩ := hread
  have hbehind := (ih.value hitem).trans (consumes_skipSpace after)
  split at hread
  · next last hclose =>
    obtain ⟨_, rfl⟩ := Prod.mk.inj (Option.some.inj hread)
    exact hbehind.trans (hclose ▸ consumes_char _ (by decide))
  · next more hcomma =>
    simp only [Option.bind_eq_some_iff, Prod.exists] at hread
    obtain ⟨items, last, hitems, hresult⟩ := hread
    have hnext : Consumes (44 :: more) last :=
      (consumes_char more (by decide)).trans ((consumes_skipSpace more).trans (ih.elements hitems))
    split at hresult
    · next heq =>
      obtain ⟨_, rfl⟩ := Prod.mk.inj heq
      obtain ⟨_, rfl⟩ := Prod.mk.inj (Option.some.inj hresult)
      exact hbehind.trans (hcomma ▸ hnext)
    · cases hresult
  · cases hread

theorem consumes_readMembers {fuel : ℕ} (ih : Consuming fuel) {members : List (Text × Value)}
    {text rest : Text} {value : Value}
    (hread : readMembers (fuel + 1) members text = some (value, rest)) : Consumes text rest := by
  rw [readMembers.eq_def] at hread
  split at hread
  · next heq => cases heq
  · next more heq =>
    obtain rfl := Nat.succ.inj heq
    simp only [Option.bind_eq_bind, Option.bind_eq_some_iff, Prod.exists] at hread
    obtain ⟨key, afterKey, hkey, hread⟩ := hread
    have hbehind := ((within_scanString hkey).consumes (show opensToken 34 = true by decide)
      (by decide)).trans (consumes_skipSpace afterKey)
    split at hread
    · next afterColon hcolon =>
      simp only [Option.bind_eq_some_iff, Prod.exists] at hread
      obtain ⟨member, afterValue, hmember, hread⟩ := hread
      have hvalue : Consumes (58 :: afterColon) (skipSpace afterValue) :=
        (consumes_char afterColon (by decide)).trans ((consumes_skipSpace afterColon).trans
          ((ih.value hmember).trans (consumes_skipSpace afterValue)))
      have hlast := hbehind.trans (hcolon ▸ hvalue)
      split at hread
      · next last hclose =>
        obtain ⟨_, rfl⟩ := Prod.mk.inj (Option.some.inj hread)
        exact hlast.trans (hclose ▸ consumes_char _ (by decide))
      · next others hcomma =>
        exact hlast.trans (hcomma ▸ (consumes_char others (by decide)).trans
          ((consumes_skipSpace others).trans (ih.members hread)))
      · cases hread
    · cases hread
  · cases hread

theorem consuming (fuel : ℕ) : Consuming fuel := by
  induction fuel with
  | zero =>
    constructor
    · intro text rest value hread
      cases hread
    · intro text rest value hread
      cases hread
    · intro members text rest value hread
      cases hread
  | succ fuel ih =>
    exact ⟨consumes_readValue ih, consumes_readElements ih, consumes_readMembers ih⟩

/-- A text that parses is lined. -/
theorem lined_of_parse {text : Text} {value : Value} (hparse : parse text = some value) :
    Lined text := by
  rw [parse] at hparse
  split at hparse
  · next found rest hread =>
    split_ifs at hparse with hend
    have hconsumes := (consumes_skipSpace text).trans
      (((consuming _).value hread).trans (consumes_skipSpace rest))
    obtain ⟨piece, hpiece, hlined⟩ := hconsumes
    rw [List.isEmpty_iff.mp hend, List.append_nil] at hpiece
    exact hpiece ▸ hlined
  · cases hparse

/-- A text with a line that begins with neither a space nor a token does not parse. -/
theorem parse_of_not_lined {text : Text} (htext : ¬Lined text) : parse text = none := by
  cases hparse : parse text with
  | none => rfl
  | some value => exact absurd (lined_of_parse hparse) htext

end SyzAbi.Library.Json

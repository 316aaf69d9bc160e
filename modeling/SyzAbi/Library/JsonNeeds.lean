import SyzAbi.Library.JsonLines

/-!
# What the strings of a JSON value need

A quote or a control character stands in a JSON string behind a backslash, and a backslash behind
another one or with its number behind the letter `u`. Counting the backslashes and the `u`s of a
text (`marks`) therefore bounds what the strings of its value can hold: a backslash needs two of
them, a quote, a control character and a `u` need one (`needs_le_of_parse`). So a text that was put
together from strings without escaping them cannot parse to these strings unless they need no
escape.
-/

set_option autoImplicit false
set_option relaxedAutoImplicit false

namespace SyzAbi.Library.Json

/-! ### Marks and needs -/

/-- The backslashes and the `u`s of a text. -/
def marks (text : Text) : ℕ := text.countP fun c ↦ c = 92 ∨ c = 117

/-- The marks that a character of a string needs. -/
def charNeeds (c : ℕ) : ℕ := if c = 92 then 2 else if c = 117 ∨ c = 34 ∨ c < 32 then 1 else 0

/-- The marks that a string needs. -/
def textNeeds (text : Text) : ℕ := (text.map charNeeds).sum

mutual

/-- The marks that the strings of a value need. -/
def valueNeeds : Value → ℕ
  | .str text => textNeeds text
  | .arr items => itemsNeed items
  | .obj members => membersNeed members
  | _ => 0

/-- The marks that the strings of the items need. -/
def itemsNeed : List Value → ℕ
  | [] => 0
  | item :: rest => valueNeeds item + itemsNeed rest

/-- The marks that the strings and the keys of the members need. -/
def membersNeed : List (Text × Value) → ℕ
  | [] => 0
  | (key, value) :: rest => textNeeds key + valueNeeds value + membersNeed rest

end

theorem marks_append (a b : Text) : marks (a ++ b) = marks a + marks b := List.countP_append

theorem marks_cons (c : ℕ) (text : Text) : marks (c :: text) = marks [c] + marks text :=
  marks_append [c] text

theorem textNeeds_cons (c : ℕ) (text : Text) :
    textNeeds (c :: text) = charNeeds c + textNeeds text := rfl

theorem charNeeds_le_two (c : ℕ) : charNeeds c ≤ 2 := by
  rw [charNeeds]
  split_ifs <;> omega

/-- A character that stands for itself is its own mark, if it needs one. -/
theorem charNeeds_le_marks {c : ℕ} (hplain : 32 ≤ c ∧ c ≠ 34 ∧ c ≠ 92) :
    charNeeds c ≤ marks [c] := by
  by_cases hu : c = 117
  · subst hu
    decide
  · rw [charNeeds, if_neg hplain.2.2, if_neg (by omega)]
    exact Nat.zero_le _

theorem Within.marks_le {text rest : Text} (hwithin : Within text rest) :
    marks rest ≤ marks text := by
  obtain ⟨piece, rfl, -⟩ := hwithin
  rw [marks_append]
  exact Nat.le_add_left _ _

theorem Consumes.marks_le {text rest : Text} (hconsumes : Consumes text rest) :
    marks rest ≤ marks text := by
  obtain ⟨piece, rfl, -⟩ := hconsumes
  rw [marks_append]
  exact Nat.le_add_left _ _

theorem marks_skipSpace_le (text : Text) : marks (skipSpace text) ≤ marks text :=
  (consumes_skipSpace text).marks_le

/-- A text without a backslash and a `u` has no marks. -/
theorem marks_eq_zero {text : Text} (hfree : ∀ c ∈ text, c ≠ 92 ∧ c ≠ 117) : marks text = 0 := by
  refine List.countP_eq_zero.mpr fun c hc ↦ ?_
  simpa using hfree c hc

theorem marks_decimal (n : ℕ) : marks (decimal n) = 0 := by
  refine marks_eq_zero fun c hc ↦ ?_
  have := isDigit_iff.mp (isDigit_of_mem_decimal hc)
  omega

theorem marks_quoted (text : Text) : marks (quoted text) = marks text := by
  rw [quoted, marks_append, marks_cons]
  exact Nat.zero_add _

theorem marks_memberText (key text : Text) :
    marks (memberText key text) = marks key + marks text := by
  rw [memberText, marks_append, marks_quoted, marks_cons]
  exact congrArg _ (Nat.zero_add _)

theorem marks_commaJoin (texts : List Text) : marks (commaJoin texts) = (texts.map marks).sum := by
  induction texts with
  | nil => rfl
  | cons text rest ih =>
    cases rest with
    | nil => exact (Nat.add_zero _).symm
    | cons next more =>
      rw [commaJoin_cons_cons, marks_append, marks_cons, ih, List.map_cons, List.sum_cons]
      exact congrArg _ (Nat.zero_add _)

theorem marks_arrayText (texts : List Text) : marks (arrayText texts) = (texts.map marks).sum := by
  rw [arrayText, marks_append, marks_cons, marks_commaJoin]
  exact Nat.zero_add _

theorem marks_objectText (texts : List Text) :
    marks (objectText texts) = (texts.map marks).sum := by
  rw [objectText, marks_append, marks_cons, marks_commaJoin]
  exact Nat.zero_add _

/-- A string needs at least the marks it has, -/
theorem marks_le_textNeeds (text : Text) : marks text ≤ textNeeds text := by
  induction text with
  | nil => exact Nat.zero_le _
  | cons c rest ih =>
    have hchar : marks [c] ≤ charNeeds c := by
      by_cases hmark : c = 92 ∨ c = 117
      · rcases hmark with rfl | rfl <;> decide
      · rw [not_or] at hmark
        rw [marks_eq_zero (by simpa using hmark)]
        exact Nat.zero_le _
    rw [marks_cons, textNeeds_cons]
    exact Nat.add_le_add hchar ih

/-- and no more than these only when none of its characters has to be escaped. -/
theorem plain_of_textNeeds_le {text : Text} (hneeds : textNeeds text ≤ marks text) :
    Plain text := by
  induction text with
  | nil => exact fun c hc ↦ absurd hc List.not_mem_nil
  | cons c rest ih =>
    have hrest := marks_le_textNeeds rest
    rw [marks_cons, textNeeds_cons] at hneeds
    have hchar : 32 ≤ c ∧ c ≠ 34 ∧ c ≠ 92 := by
      by_contra hspecial
      have hmarks : marks [c] < charNeeds c := by
        by_cases hbackslash : c = 92
        · subst hbackslash
          decide
        · have hfree : marks [c] = 0 := by
            refine marks_eq_zero fun d hd ↦ ?_
            rw [List.mem_singleton.mp hd]
            omega
          rw [hfree, charNeeds, if_neg hbackslash, if_pos (by omega)]
          exact Nat.one_pos
      omega
    refine List.forall_mem_cons.mpr ⟨hchar, ih ?_⟩
    have hplain := charNeeds_le_marks hchar
    by_contra hmore
    have hself : marks [c] ≤ charNeeds c := by
      have := marks_le_textNeeds [c]
      rwa [textNeeds_cons] at this
    omega

/-! ### Strings -/

theorem charNeeds_simpleEscape {c value : ℕ} (hsimple : simpleEscape c = some value) :
    charNeeds value ≤ marks [c] + 1 := by
  rw [simpleEscape] at hsimple
  split_ifs at hsimple with hself hb hf hn hr ht <;> cases hsimple
  · rcases hself with rfl | rfl | rfl <;> decide
  all_goals exact Nat.le_trans (by decide) (Nat.le_add_left 1 _)

/-- An escape has the marks of its character, one of them in the backslash before it. -/
theorem charNeeds_readEscape {text rest : Text} {value : ℕ}
    (hread : readEscape text = some (value, rest)) :
    charNeeds value + marks rest ≤ marks text + 1 := by
  rw [readEscape.eq_def] at hread
  split at hread
  · next more =>
    simp only [Option.bind_eq_bind, Option.bind_eq_some_iff, Prod.exists] at hread
    obtain ⟨high, after, hhigh, hresult⟩ := hread
    have hafter : marks after ≤ marks more := (within_readUnicode hhigh).marks_le
    have hrest : marks rest ≤ marks after := by
      split at hresult
      · next low =>
        split_ifs at hresult with hpair
        · simp only [Option.bind_eq_some_iff, Prod.exists] at hresult
          obtain ⟨second, afterLow, hlow, hresult⟩ := hresult
          split_ifs at hresult
          · obtain ⟨-, rfl⟩ := Prod.mk.inj (Option.some.inj hresult)
            have hmore := (within_readUnicode hlow).marks_le
            rw [marks_cons, marks_cons 117]
            omega
          · obtain ⟨-, rfl⟩ := Prod.mk.inj (Option.some.inj hresult)
            exact le_rfl
        · obtain ⟨-, rfl⟩ := Prod.mk.inj (Option.some.inj hresult)
          exact le_rfl
      · obtain ⟨-, rfl⟩ := Prod.mk.inj (Option.some.inj hresult)
        exact le_rfl
    have hletter : marks [117] = 1 := by decide
    have hvalue := charNeeds_le_two value
    rw [marks_cons]
    omega
  · next c more _ =>
    obtain ⟨found, hsimple, hresult⟩ := Option.map_eq_some_iff.mp hread
    obtain ⟨rfl, rfl⟩ := Prod.mk.inj hresult
    have hfound := charNeeds_simpleEscape hsimple
    rw [marks_cons]
    omega
  · cases hread

theorem textNeeds_scanString {fuel : ℕ} {text rest string : Text}
    (hread : scanString fuel text = some (string, rest)) :
    textNeeds string + marks rest ≤ marks text := by
  induction fuel generalizing text string with
  | zero => cases hread
  | succ fuel ih =>
    cases text with
    | nil => cases hread
    | cons c text =>
      rw [scanString] at hread
      rw [marks_cons]
      split_ifs at hread with hquote hbackslash hcontrol
      · obtain ⟨rfl, rfl⟩ := Prod.mk.inj (Option.some.inj hread)
        exact (Nat.zero_add _).trans_le (Nat.le_add_left _ _)
      · simp only [Option.bind_eq_bind, Option.bind_eq_some_iff, Prod.exists] at hread
        obtain ⟨value, after, hescape, more, last, hscan, hresult⟩ := hread
        obtain ⟨rfl, rfl⟩ := Prod.mk.inj (Option.some.inj hresult)
        have hvalue := charNeeds_readEscape hescape
        have hmore := ih hscan
        have hmark : marks [c] = 1 := hbackslash ▸ by decide
        rw [textNeeds_cons]
        omega
      · simp only [Option.bind_eq_bind, Option.bind_eq_some_iff, Prod.exists] at hread
        obtain ⟨more, last, hscan, hresult⟩ := hread
        obtain ⟨rfl, rfl⟩ := Prod.mk.inj (Option.some.inj hresult)
        have hplain := charNeeds_le_marks (c := c) ⟨by omega, hquote, hbackslash⟩
        have hmore := ih hscan
        rw [textNeeds_cons]
        omega

/-! ### Values -/

theorem membersNeed_insertMember (key : Text) (value : Value) (members : List (Text × Value)) :
    membersNeed (insertMember key value members) ≤
      textNeeds key + valueNeeds value + membersNeed members := by
  induction members with
  | nil => exact le_rfl
  | cons member rest ih =>
    obtain ⟨other, held⟩ := member
    rw [insertMember]
    split_ifs with hsame hbefore
    · simp only [membersNeed]
      omega
    · exact le_rfl
    · simp only [membersNeed]
      omega

theorem needs_readUnsigned {negative : Bool} {text rest : Text} {value : Value}
    (hread : readUnsigned negative text = some (value, rest)) : valueNeeds value = 0 := by
  simp only [readUnsigned, Option.bind_eq_bind, Option.bind_eq_some_iff, Prod.exists] at hread
  obtain ⟨digits, afterDigits, -, hresult⟩ := hread
  split at hresult
  · obtain ⟨rfl, -⟩ := Prod.mk.inj (Option.some.inj hresult)
    rfl
  · obtain ⟨rfl, -⟩ := Prod.mk.inj (Option.some.inj hresult)
    rfl

theorem needs_readNumber {text rest : Text} {value : Value}
    (hread : readNumber text = some (value, rest)) :
    valueNeeds value + marks rest ≤ marks text := by
  have hvalue : valueNeeds value = 0 := by
    rw [readNumber.eq_def] at hread
    split at hread
    · exact needs_readUnsigned hread
    · exact needs_readUnsigned hread
  rw [hvalue, Nat.zero_add]
  exact (consumes_readNumber hread).marks_le

theorem needs_readKeyword {word text rest : Text} {value result : Value}
    (hvalue : valueNeeds value = 0) (hread : readKeyword word value text = some (result, rest)) :
    valueNeeds result + marks rest ≤ marks text := by
  rw [readKeyword] at hread
  split_ifs at hread with hstarts
  obtain ⟨rfl, rfl⟩ := Prod.mk.inj (Option.some.inj hread)
  rw [hvalue, Nat.zero_add]
  exact (List.drop_sublist _ _).countP_le

/-- The readers return values whose strings need no more marks than were read. -/
structure Paying (fuel : ℕ) : Prop where
  value : ∀ {text rest value}, readValue fuel text = some (value, rest) →
    valueNeeds value + marks rest ≤ marks text
  elements : ∀ {text rest value}, readElements fuel text = some (value, rest) →
    valueNeeds value + marks rest ≤ marks text
  members : ∀ {members text rest value}, readMembers fuel members text = some (value, rest) →
    valueNeeds value + marks rest ≤ membersNeed members + marks text

theorem needs_readValue {fuel : ℕ} (ih : Paying fuel) {text rest : Text} {value : Value}
    (hread : readValue (fuel + 1) text = some (value, rest)) :
    valueNeeds value + marks rest ≤ marks text := by
  cases text with
  | nil => cases hread
  | cons c text =>
    have hskip := marks_skipSpace_le text
    have hcons := marks_cons c text
    rw [readValue] at hread
    split_ifs at hread with hquote hbrace hbracket
    · obtain ⟨⟨string, after⟩, hscan, hresult⟩ := Option.map_eq_some_iff.mp hread
      obtain ⟨rfl, rfl⟩ := Prod.mk.inj hresult
      have hstring := textNeeds_scanString hscan
      simp only [valueNeeds]
      omega
    · split at hread
      · next after hclose =>
        obtain ⟨rfl, rfl⟩ := Prod.mk.inj (Option.some.inj hread)
        rw [hclose, marks_cons] at hskip
        rw [valueNeeds, membersNeed]
        omega
      · have hmembers := ih.members hread
        rw [membersNeed] at hmembers
        omega
    · split at hread
      · next after hclose =>
        obtain ⟨rfl, rfl⟩ := Prod.mk.inj (Option.some.inj hread)
        rw [hclose, marks_cons] at hskip
        rw [valueNeeds, itemsNeed]
        omega
      · have helements := ih.elements hread
        omega
    · exact needs_readKeyword rfl hread
    · exact needs_readKeyword rfl hread
    · exact needs_readKeyword rfl hread
    · exact needs_readKeyword rfl hread
    · exact needs_readKeyword rfl hread
    · exact needs_readKeyword rfl hread
    · exact needs_readNumber hread

theorem needs_readElements {fuel : ℕ} (ih : Paying fuel) {text rest : Text} {value : Value}
    (hread : readElements (fuel + 1) text = some (value, rest)) :
    valueNeeds value + marks rest ≤ marks text := by
  simp only [readElements, Option.bind_eq_bind, Option.bind_eq_some_iff, Prod.exists] at hread
  obtain ⟨item, after, hitem, hread⟩ := hread
  have hbehind := ih.value hitem
  have hskip := marks_skipSpace_le after
  split at hread
  · next last hclose =>
    obtain ⟨rfl, rfl⟩ := Prod.mk.inj (Option.some.inj hread)
    rw [hclose, marks_cons] at hskip
    simp only [valueNeeds, itemsNeed]
    omega
  · next more hcomma =>
    simp only [Option.bind_eq_some_iff, Prod.exists] at hread
    obtain ⟨items, last, hitems, hresult⟩ := hread
    have hnext := ih.elements hitems
    have hmore := marks_skipSpace_le more
    rw [hcomma, marks_cons] at hskip
    split at hresult
    · next heq =>
      obtain ⟨rfl, rfl⟩ := Prod.mk.inj heq
      obtain ⟨rfl, rfl⟩ := Prod.mk.inj (Option.some.inj hresult)
      simp only [valueNeeds, itemsNeed] at hnext ⊢
      omega
    · cases hresult
  · cases hread

theorem needs_readMembers {fuel : ℕ} (ih : Paying fuel) {members : List (Text × Value)}
    {text rest : Text} {value : Value}
    (hread : readMembers (fuel + 1) members text = some (value, rest)) :
    valueNeeds value + marks rest ≤ membersNeed members + marks text := by
  rw [readMembers.eq_def] at hread
  split at hread
  · next heq => cases heq
  · next more heq =>
    obtain rfl := Nat.succ.inj heq
    simp only [Option.bind_eq_bind, Option.bind_eq_some_iff, Prod.exists] at hread
    obtain ⟨key, afterKey, hkey, hread⟩ := hread
    have hneeds := textNeeds_scanString hkey
    have hskip := marks_skipSpace_le afterKey
    rw [marks_cons]
    split at hread
    · next afterColon hcolon =>
      simp only [Option.bind_eq_some_iff, Prod.exists] at hread
      obtain ⟨member, afterValue, hmember, hread⟩ := hread
      have hvalue := ih.value hmember
      have hspace := marks_skipSpace_le afterColon
      have hlast := marks_skipSpace_le afterValue
      rw [hcolon, marks_cons] at hskip
      split at hread
      · next last hclose =>
        obtain ⟨rfl, rfl⟩ := Prod.mk.inj (Option.some.inj hread)
        rw [hclose, marks_cons] at hlast
        refine (Nat.add_le_add_right (membersNeed_insertMember key member _) _).trans ?_
        omega
      · next others hcomma =>
        have hmore := (ih.members hread).trans
          (Nat.add_le_add_right (membersNeed_insertMember key member _) _)
        have hothers := marks_skipSpace_le others
        rw [hcomma, marks_cons] at hlast
        omega
      · cases hread
    · cases hread
  · cases hread

theorem paying (fuel : ℕ) : Paying fuel := by
  induction fuel with
  | zero =>
    constructor
    · intro text rest value hread
      cases hread
    · intro text rest value hread
      cases hread
    · intro members text rest value hread
      cases hread
  | succ fuel ih => exact ⟨needs_readValue ih, needs_readElements ih, needs_readMembers ih⟩

/-- A member of an object needs no more than the object. -/
theorem valueNeeds_le_of_lookup {key : Text} {value : Value} {members : List (Text × Value)}
    (hlookup : members.lookup key = some value) : valueNeeds value ≤ membersNeed members := by
  induction members with
  | nil => cases hlookup
  | cons member rest ih =>
    obtain ⟨other, held⟩ := member
    rw [lookup_member] at hlookup
    rw [membersNeed]
    split_ifs at hlookup
    · obtain rfl := Option.some.inj hlookup
      omega
    · have hrest := ih hlookup
      omega

/-- A text has the marks that the strings of its value need. -/
theorem needs_le_of_parse {text : Text} {value : Value} (hparse : parse text = some value) :
    valueNeeds value ≤ marks text := by
  rw [parse] at hparse
  split at hparse
  · next found rest hread =>
    split_ifs at hparse with hend
    obtain rfl := Option.some.inj hparse
    have hneeds := (paying _).value hread
    have hskip := marks_skipSpace_le text
    omega
  · cases hparse

end SyzAbi.Library.Json

import Mathlib.Data.List.Lex
import SyzAbi.Library.JsonCuts
import SyzAbi.Library.JsonEscapes
import SyzAbi.Library.JsonView

/-!
# Printed values

What `json.dumps` prints for a value that a text can stand for (`IsValue`) parses to that value
again (`parse_render`), so different values are printed differently. Beyond ASCII a text has the
characters of the strings and keys of its value (`mem_render_iff`).
-/

set_option autoImplicit false
set_option relaxedAutoImplicit false

namespace SyzAbi.Library.Json

/-! ### The order of keys -/

theorem keyLt_iff {a b : Text} : keyLt a b = true ↔ a < b := by
  induction a generalizing b with
  | nil =>
    cases b with
    | nil => simp [keyLt]
    | cons d b => simp [keyLt]
  | cons c a ih =>
    cases b with
    | nil => simp [keyLt]
    | cons d b =>
      rw [keyLt, Bool.or_eq_true, Bool.and_eq_true, decide_eq_true_iff, decide_eq_true_iff, ih,
        List.cons_lt_cons_iff]

/-- The members of an object: sorted by their keys. -/
def Sorted (members : List (Text × Value)) : Prop :=
  members.Pairwise fun first second ↦ first.1 < second.1

theorem insertMember_of_lt {key : Text} {value : Value} {members : List (Text × Value)}
    (hlt : ∀ member ∈ members, member.1 < key) :
    insertMember key value members = members ++ [(key, value)] := by
  induction members with
  | nil => rfl
  | cons member members ih =>
    have hmember := hlt member List.mem_cons_self
    rw [insertMember, if_neg hmember.ne', if_neg (by rw [keyLt_iff]; exact hmember.not_gt),
      ih fun other hother ↦ hlt other (List.mem_cons_of_mem member hother)]
    rfl

/-- Setting sorted members one after the other gives them back. -/
theorem setMembers_of_sorted {object members : List (Text × Value)}
    (hsorted : Sorted (object ++ members)) : setMembers object members = object ++ members := by
  induction members generalizing object with
  | nil => exact (List.append_nil object).symm
  | cons member members ih =>
    have hlt : ∀ other ∈ object, other.1 < member.1 := fun other hother ↦
      (List.pairwise_append.mp hsorted).2.2 other hother member List.mem_cons_self
    rw [setMembers, List.foldl_cons, insertMember_of_lt hlt, ← setMembers, ih]
    · rw [List.append_assoc, List.singleton_append]
    · rw [List.append_assoc, List.singleton_append]
      exact hsorted

theorem Sorted.insertMember {members : List (Text × Value)} (hsorted : Sorted members) (key : Text)
    (value : Value) : Sorted (insertMember key value members) := by
  induction members with
  | nil => exact List.pairwise_singleton _ _
  | cons member members ih =>
    obtain ⟨hbehind, hmembers⟩ := List.pairwise_cons.mp hsorted
    rw [Json.insertMember]
    split_ifs with hsame hlt
    · exact List.pairwise_cons.mpr ⟨fun other hother ↦ hsame ▸ hbehind other hother, hmembers⟩
    · rw [keyLt_iff] at hlt
      refine List.pairwise_cons.mpr ⟨?_, hsorted⟩
      exact List.forall_mem_cons.mpr ⟨hlt, fun other hother ↦ hlt.trans (hbehind other hother)⟩
    · rw [keyLt_iff, not_lt] at hlt
      refine List.pairwise_cons.mpr ⟨fun other hother ↦ ?_, ih hmembers⟩
      rcases mem_insertMember hother with rfl | hmore
      · exact lt_of_le_of_ne hlt (Ne.symm hsame)
      · exact hbehind other hmore

theorem Sorted.setMembers {object : List (Text × Value)} (hsorted : Sorted object)
    (members : List (Text × Value)) : Sorted (setMembers object members) := by
  induction members generalizing object with
  | nil => exact hsorted
  | cons member members ih => exact ih (hsorted.insertMember member.1 member.2)

/-! ### Values of texts -/

/-- A value that a text can stand for: its numbers are in the grammar, its objects are sorted. -/
inductive IsValue : Value → Prop
  | null : IsValue .null
  | bool (value : Bool) : IsValue (.bool value)
  | int (value : ℤ) : IsValue (.int value)
  | float {text : Text} (htext : NumberText text (.float text) ∨ KeywordText text (.float text)) :
      IsValue (.float text)
  | str (text : Text) : IsValue (.str text)
  | arr {items : List Value} (hitems : ∀ item ∈ items, IsValue item) : IsValue (.arr items)
  | obj {members : List (Text × Value)} (hsorted : Sorted members)
      (hmembers : ∀ member ∈ members, IsValue member.2) : IsValue (.obj members)

theorem NumberText.isValue {text : Text} {value : Value} (hnumber : NumberText text value) :
    IsValue value := by
  have htext := hnumber
  obtain ⟨hunsigned⟩ | ⟨hunsigned⟩ := hnumber
  · cases hunsigned with
    | integer => exact .int _
    | @float digits fraction exponent _ _ _ _ =>
      have heq : [] ++ digits ++ fraction ++ exponent = digits ++ (fraction ++ exponent) := by simp
      rw [if_neg Bool.false_ne_true, heq] at htext ⊢
      exact .float (.inl htext)
  · cases hunsigned with
    | integer => exact .int _
    | @float digits fraction exponent _ _ _ _ =>
      have heq : [45] ++ digits ++ fraction ++ exponent =
          45 :: (digits ++ (fraction ++ exponent)) := by simp
      rw [if_pos rfl, heq] at htext ⊢
      exact .float (.inl htext)

theorem KeywordText.isValue {text : Text} {value : Value} (hkeyword : KeywordText text value) :
    IsValue value := by
  cases hkeyword with
  | null => exact .null
  | ofTrue => exact .bool true
  | ofFalse => exact .bool false
  | nan => exact .float (.inr .nan)
  | infinity => exact .float (.inr .infinity)
  | negInfinity => exact .float (.inr .negInfinity)

/-- The values of a part can be printed. -/
def Part.IsPrinted : Part → Prop
  | .value found => IsValue found
  | .items found => ∀ item ∈ found, IsValue item
  | .members found => ∀ member ∈ found, IsValue member.2

theorem Denotes.isPrinted {text : Text} {part : Part} (hdenotes : Denotes text part) :
    part.IsPrinted := by
  induction hdenotes with
  | keyword hkeyword => exact hkeyword.isValue
  | number hnumber => exact hnumber.isValue
  | string => exact .str _
  | emptyArray => exact .arr fun _ hitem ↦ absurd hitem List.not_mem_nil
  | array _ _ ih => exact .arr ih
  | emptyObject =>
    exact .obj List.Pairwise.nil fun _ hmember ↦ absurd hmember List.not_mem_nil
  | object _ _ ih =>
    refine .obj (Sorted.setMembers List.Pairwise.nil _) fun member hmember ↦ ?_
    exact ih member ((mem_setMembers hmember).resolve_right List.not_mem_nil)
  | lastItem _ _ ih => exact List.forall_mem_singleton.mpr ih
  | item _ _ _ _ ih ihMore => exact List.forall_mem_cons.mpr ⟨ih, ihMore⟩
  | lastMember _ _ _ _ _ ih => exact List.forall_mem_singleton.mpr ih
  | member _ _ _ _ _ _ _ ih ihMore => exact List.forall_mem_cons.mpr ⟨ih, ihMore⟩

theorem isValue_of_parse {text : Text} {value : Value} (hparse : parse text = some value) :
    IsValue value := by
  obtain ⟨_, piece, _, _, _, _, hpiece⟩ := parse_eq_some_iff.mp hparse
  exact hpiece.isPrinted

/-! ### Printed values parse -/

theorem integerPart_decimal (n : ℕ) : IntegerPart (decimal n) := by
  by_cases hzero : n = 0
  · subst hzero
    exact .inl rfl
  · refine .inr ⟨⟨decimal_ne_nil n, fun c hc ↦ isDigit_of_mem_decimal hc⟩, fun hhead ↦ ?_⟩
    obtain ⟨c, rest, hdecimal⟩ := List.exists_cons_of_ne_nil (decimal_ne_nil n)
    rw [hdecimal] at hhead
    exact decimal_head hzero hdecimal (Option.some.inj hhead)

theorem numberText_int (value : ℤ) : NumberText (render (.int value)) (.int value) := by
  cases value with
  | ofNat n =>
    have hunsigned : UnsignedText false (decimal n) _ := .integer (integerPart_decimal n)
    rw [digitsValue_decimal] at hunsigned
    exact .unsigned hunsigned
  | negSucc n =>
    have hunsigned : UnsignedText true (decimal (n + 1)) _ := .integer (integerPart_decimal (n + 1))
    rw [digitsValue_decimal] at hunsigned
    exact .negative hunsigned

theorem stringBody_quote (text : Text) : StringBody (text.flatMap quoteChar) text := by
  induction text with
  | nil => exact .nil
  | cons c text ih =>
    rw [List.flatMap_cons, quoteChar]
    split_ifs with h34 h92 h10 h13 h9 h8 h12 hlow
    · subst h34
      exact .simple rfl ih
    · subst h92
      exact .simple rfl ih
    · subst h10
      exact .simple rfl ih
    · subst h13
      exact .simple rfl ih
    · subst h9
      exact .simple rfl ih
    · subst h8
      exact .simple rfl ih
    · subst h12
      exact .simple rfl ih
    · have hvalue : c / 16 * 16 + c % 16 = c := by omega
      have hzero : hexDigit 48 = some 0 := rfl
      have hdigits : UnicodeDigits [48, 48, hexChar (c / 16), hexChar (c % 16)] c := by
        simp [UnicodeDigits, readUnicode, hzero, hexDigit_hexChar (show c / 16 < 16 by omega),
          hexDigit_hexChar (show c % 16 < 16 by omega), hvalue]
      exact .unicode hdigits (fun hrange ↦ by omega) ih
    · exact .char (by omega) h34 h92 ih

private theorem spaces_space : Spaces [32] := by
  intro c hc
  rw [List.mem_singleton.mp hc]
  rfl

theorem denotes_renderItems {items : List Value} (hne : items ≠ [])
    (hitems : ∀ item ∈ items, Denotes (render item) (.value item)) :
    Denotes (renderItems items) (.items items) := by
  induction items with
  | nil => exact absurd rfl hne
  | cons item items ih =>
    obtain ⟨hitem, hmore⟩ := List.forall_mem_cons.mp hitems
    cases items with
    | nil =>
      have hlast := Denotes.lastItem hitem spaces_nil
      rwa [List.append_nil] at hlast
    | cons next items =>
      have hcons := Denotes.item hitem spaces_nil spaces_space
        (ih (List.cons_ne_nil next items) hmore)
      rw [renderItems, List.append_assoc]
      · exact hcons
      · exact List.cons_ne_nil next items

theorem denotes_renderMembers {members : List (Text × Value)} (hne : members ≠ [])
    (hmembers : ∀ member ∈ members, Denotes (render member.2) (.value member.2)) :
    Denotes (renderMembers members) (.members members) := by
  induction members with
  | nil => exact absurd rfl hne
  | cons member members ih =>
    obtain ⟨key, value⟩ := member
    obtain ⟨hvalue, hmore⟩ := List.forall_mem_cons.mp hmembers
    cases members with
    | nil =>
      have hlast := Denotes.lastMember (stringBody_quote key) spaces_nil spaces_space hvalue
        spaces_nil
      simpa [renderMembers, quote] using hlast
    | cons next members =>
      have hcons := Denotes.member (stringBody_quote key) spaces_nil spaces_space hvalue spaces_nil
        spaces_space (ih (List.cons_ne_nil next members) hmore)
      rw [renderMembers]
      · simpa [quote] using hcons
      · exact List.cons_ne_nil next members

/-- A printed value is a text of it. -/
theorem denotes_render {value : Value} (hvalue : IsValue value) :
    Denotes (render value) (.value value) := by
  induction hvalue with
  | null => exact .keyword .null
  | bool value =>
    cases value with
    | false => exact .keyword .ofFalse
    | true => exact .keyword .ofTrue
  | int value => exact .number (numberText_int value)
  | float htext => exact htext.elim .number .keyword
  | str text => exact .string (stringBody_quote text)
  | @arr items _ ih =>
    rw [render]
    cases items with
    | nil => exact .emptyArray spaces_nil
    | cons item items =>
      have hdenotes := Denotes.array spaces_nil
        (denotes_renderItems (List.cons_ne_nil item items) ih)
      simpa using hdenotes
  | @obj members hsorted _ ih =>
    rw [render]
    cases members with
    | nil => exact .emptyObject spaces_nil
    | cons member members =>
      have hdenotes := Denotes.object spaces_nil
        (denotes_renderMembers (List.cons_ne_nil member members) ih)
      rw [@setMembers_of_sorted [] _ hsorted] at hdenotes
      simpa using hdenotes

theorem parse_render {value : Value} (hvalue : IsValue value) :
    parse (render value) = some value := by
  have hparse : parse (render value ++ []) = some value :=
    (denotes_render hvalue).reads.parse_eq spaces_nil
  rwa [List.append_nil] at hparse

/-- Different values are printed differently. -/
theorem render_inj {left right : Value} (hleft : IsValue left) (hright : IsValue right) :
    render left = render right ↔ left = right := by
  refine ⟨fun h ↦ ?_, congrArg render⟩
  have hparse := parse_render hleft
  rw [h, parse_render hright] at hparse
  exact (Option.some.inj hparse).symm

/-! ### Characters -/

mutual

/-- The strings and the keys of a value. -/
def Value.strings : Value → List Text
  | .str text => [text]
  | .arr items => stringsItems items
  | .obj members => stringsMembers members
  | _ => []

def Value.stringsItems : List Value → List Text
  | [] => []
  | item :: rest => item.strings ++ stringsItems rest

def Value.stringsMembers : List (Text × Value) → List Text
  | [] => []
  | (key, value) :: rest => key :: (value.strings ++ stringsMembers rest)

end

/-- The character stands in a string or a key of the value. -/
def Value.HasChar (c : ℕ) (value : Value) : Prop := ∃ text ∈ value.strings, c ∈ text

theorem hasChar_str {c : ℕ} {text : Text} : (Value.str text).HasChar c ↔ c ∈ text := by
  simp [Value.HasChar, Value.strings]

theorem hasChar_arr {c : ℕ} {items : List Value} :
    (Value.arr items).HasChar c ↔ ∃ item ∈ items, item.HasChar c := by
  rw [Value.HasChar, Value.strings]
  induction items with
  | nil => simp [Value.stringsItems]
  | cons item items ih =>
    simp only [Value.stringsItems, List.mem_append, or_and_right, exists_or, ih, Value.HasChar,
      List.mem_cons, exists_eq_left]

theorem hasChar_obj {c : ℕ} {members : List (Text × Value)} : (Value.obj members).HasChar c ↔
    ∃ member ∈ members, c ∈ member.1 ∨ member.2.HasChar c := by
  rw [Value.HasChar, Value.strings]
  induction members with
  | nil => simp [Value.stringsMembers]
  | cons member members ih =>
    obtain ⟨key, value⟩ := member
    simp only [Value.stringsMembers, List.mem_append, or_and_right, exists_or, ih, Value.HasChar,
      List.mem_cons, exists_eq_left, or_assoc]

theorem le_of_mem_quote {c : ℕ} {text : Text} (hc : c ∈ quote text) : 32 ≤ c := by
  have hhex : ∀ n, 32 ≤ hexChar n := by
    intro n
    rw [hexChar]
    split_ifs <;> omega
  have hchar : ∀ d, ∀ e ∈ quoteChar d, 32 ≤ e := by
    intro d e he
    rw [quoteChar] at he
    split_ifs at he with h34 h92 h10 h13 h9 h8 h12 hlow
    all_goals simp only [List.mem_cons, List.not_mem_nil, or_false] at he
    · omega
    · omega
    · omega
    · omega
    · omega
    · omega
    · omega
    · have hhigh := hhex (d / 16)
      have hlast := hhex (d % 16)
      omega
    · omega
  rw [quote, List.mem_append, List.mem_append] at hc
  rcases hc with (hc | hc) | hc
  · rw [List.mem_singleton.mp hc]
    decide
  · obtain ⟨d, -, hmem⟩ := List.mem_flatMap.mp hc
    exact hchar d c hmem
  · rw [List.mem_singleton.mp hc]
    decide

theorem le_of_mem_number {c : ℕ} {text : Text} {value : Value}
    (htext : NumberText text value ∨ KeywordText text value) (hc : c ∈ text) : 32 ≤ c := by
  rcases htext with hnumber | hkeyword
  · rcases hnumber.isDigit_or c hc with hdigit | hother
    · exact (by decide : 32 ≤ 48).trans (isDigit_iff.mp hdigit).1
    · simp only [List.mem_cons, List.not_mem_nil, or_false] at hother
      omega
  · have hletters : ∀ d ∈ text, 32 ≤ d := by
      cases hkeyword <;> decide
    exact hletters c hc

/-- Apart from the separators, printed items have the characters of the items. -/
theorem mem_renderItems_iff {c : ℕ} (hc : c ≠ 44 ∧ c ≠ 32) {items : List Value} :
    c ∈ renderItems items ↔ ∃ item ∈ items, c ∈ render item := by
  have hcomma : c ∉ [44, 32] := by simp [hc]
  induction items with
  | nil => simp [renderItems]
  | cons item items ih =>
    cases items with
    | nil => simp [renderItems]
    | cons next items =>
      rw [renderItems, List.mem_append, List.mem_append, or_iff_left hcomma,
        List.exists_mem_cons_iff _ item]
      · exact or_congr_right ih
      · exact List.cons_ne_nil next items

/-- Apart from the separators, printed members have the characters of the keys and the values. -/
theorem mem_renderMembers_iff {c : ℕ} (hc : c ≠ 44 ∧ c ≠ 32 ∧ c ≠ 58)
    {members : List (Text × Value)} : c ∈ renderMembers members ↔
      ∃ member ∈ members, c ∈ quote member.1 ∨ c ∈ render member.2 := by
  have hcolon : c ∉ [58, 32] := by simp [hc]
  have hcomma : c ∉ [44, 32] := by simp [hc]
  induction members with
  | nil => simp [renderMembers]
  | cons member members ih =>
    obtain ⟨key, value⟩ := member
    cases members with
    | nil => simp [renderMembers, hc]
    | cons next members =>
      rw [renderMembers, List.mem_append, List.mem_append, List.mem_append, List.mem_append,
        or_iff_left hcolon, or_iff_left hcomma, List.exists_mem_cons_iff _ (key, value)]
      · exact or_congr_right ih
      · exact List.cons_ne_nil next members

/-- A printed value has no control characters. -/
theorem le_of_mem_render {value : Value} (hvalue : IsValue value) :
    ∀ c ∈ render value, 32 ≤ c := by
  induction hvalue with
  | null => decide
  | bool value => cases value <;> decide
  | int value => exact fun c ↦ le_of_mem_number (.inl (numberText_int value))
  | float htext => exact fun c ↦ le_of_mem_number htext
  | str text => exact fun _ ↦ le_of_mem_quote
  | arr _ ih =>
    rw [render, List.forall_mem_append, List.forall_mem_append]
    refine ⟨⟨by decide, fun c hc ↦ ?_⟩, by decide⟩
    by_contra hlow
    obtain ⟨item, hitem, hmem⟩ := (mem_renderItems_iff ⟨by omega, by omega⟩).mp hc
    exact hlow (ih item hitem c hmem)
  | obj _ _ ih =>
    rw [render, List.forall_mem_append, List.forall_mem_append]
    refine ⟨⟨by decide, fun c hc ↦ ?_⟩, by decide⟩
    by_contra hlow
    obtain ⟨member, hmember, hmem⟩ :=
      (mem_renderMembers_iff ⟨by omega, by omega, by omega⟩).mp hc
    exact hlow (hmem.elim le_of_mem_quote (ih member hmember c))

section HasChar

variable {c : ℕ} (hwide : 128 ≤ c)

include hwide

theorem mem_flatMap_quoteChar_iff {text : Text} : c ∈ text.flatMap quoteChar ↔ c ∈ text := by
  have hhex : ∀ n, n < 16 → hexChar n < 128 := by
    intro n hn
    rw [hexChar]
    split_ifs <;> omega
  have hchar : ∀ d, c ∈ quoteChar d ↔ c = d := by
    intro d
    rw [quoteChar]
    split_ifs with h34 h92 h10 h13 h9 h8 h12 hlow
    all_goals simp only [List.mem_cons, List.not_mem_nil, or_false]
    · omega
    · omega
    · omega
    · omega
    · omega
    · omega
    · omega
    · have hhigh := hhex (d / 16) (by omega)
      have hlast := hhex (d % 16) (by omega)
      omega
  rw [List.mem_flatMap]
  constructor
  · rintro ⟨d, hd, hmem⟩
    rwa [(hchar d).mp hmem]
  · intro hmem
    exact ⟨c, hmem, (hchar c).mpr rfl⟩

theorem mem_quote_iff {text : Text} : c ∈ quote text ↔ c ∈ text := by
  rw [quote, List.mem_append, List.mem_append, mem_flatMap_quoteChar_iff hwide]
  simp only [List.mem_cons, List.not_mem_nil, or_false]
  constructor
  · rintro ((h | h) | h)
    · omega
    · exact h
    · omega
  · exact fun h ↦ .inl (.inr h)

theorem not_mem_number {text : Text} {value : Value}
    (htext : NumberText text value ∨ KeywordText text value) : c ∉ text := by
  have htoken : ∀ d, isToken d = true → d < 128 := by
    intro d hd
    simp only [isToken, isSpace, isDigit, Bool.or_eq_true, Bool.and_eq_true, decide_eq_true_eq,
      List.mem_cons, List.not_mem_nil, or_false] at hd
    omega
  intro hmem
  refine absurd (htoken c ?_) (by omega)
  rcases htext with hnumber | hkeyword
  · exact hnumber.isToken c hmem
  · have htokens : ∀ d ∈ text, isToken d = true := by
      cases hkeyword <;> decide
    exact htokens c hmem

/-- Beyond ASCII a text has the characters of the strings and the keys. -/
theorem mem_render_iff {value : Value} (hvalue : IsValue value) :
    c ∈ render value ↔ value.HasChar c := by
  have hshort : ∀ {text : Text}, (∀ d ∈ text, d < 128) → c ∉ text := by
    intro text htext hmem
    have hlt := htext c hmem
    omega
  induction hvalue with
  | null => exact iff_of_false (hshort (by decide)) (by simp [Value.HasChar, Value.strings])
  | bool value =>
    cases value with
    | false => exact iff_of_false (hshort (by decide)) (by simp [Value.HasChar, Value.strings])
    | true => exact iff_of_false (hshort (by decide)) (by simp [Value.HasChar, Value.strings])
  | int value =>
    exact iff_of_false (not_mem_number hwide (.inl (numberText_int value)))
      (by simp [Value.HasChar, Value.strings])
  | float htext =>
    exact iff_of_false (not_mem_number hwide htext) (by simp [Value.HasChar, Value.strings])
  | str text => rw [render, mem_quote_iff hwide, hasChar_str]
  | @arr items _ ih =>
    rw [render, List.mem_append, List.mem_append, mem_renderItems_iff ⟨by omega, by omega⟩,
      or_iff_left (hshort (by decide)), or_iff_right (hshort (by decide)), hasChar_arr]
    exact exists_congr fun item ↦ and_congr_right fun hitem ↦ ih item hitem
  | @obj members _ _ ih =>
    rw [render, List.mem_append, List.mem_append,
      mem_renderMembers_iff ⟨by omega, by omega, by omega⟩, or_iff_left (hshort (by decide)),
      or_iff_right (hshort (by decide)), hasChar_obj]
    refine exists_congr fun member ↦ and_congr_right fun hmember ↦ ?_
    exact or_congr (mem_quote_iff hwide) (ih member hmember)

end HasChar

end SyzAbi.Library.Json

import SyzAbi.Library.JsonTokens

/-!
# The grammar of JSON texts

The texts of values, items and members that the reader accepts, as an inductive definition
(`Denotes`). The reader takes a text of the grammar off the head of a longer text
(`Denotes.reads`), and whatever it takes off is one (`taking`). So a text parses to a value exactly
when it is a text of that value between spaces (`parse_eq_some_iff`).
-/

set_option autoImplicit false
set_option relaxedAutoImplicit false

namespace SyzAbi.Library.Json

/-! ### Values -/

/-- The keywords. -/
inductive KeywordText : Text → Value → Prop
  | null : KeywordText [110, 117, 108, 108] .null
  | ofTrue : KeywordText [116, 114, 117, 101] (.bool true)
  | ofFalse : KeywordText [102, 97, 108, 115, 101] (.bool false)
  | nan : KeywordText [78, 97, 78] (.float [78, 97, 78])
  | infinity : KeywordText [73, 110, 102, 105, 110, 105, 116, 121]
      (.float [73, 110, 102, 105, 110, 105, 116, 121])
  | negInfinity : KeywordText [45, 73, 110, 102, 105, 110, 105, 116, 121]
      (.float [45, 73, 110, 102, 105, 110, 105, 116, 121])

/-- What a piece of a text stands for: a value, or what is between two brackets. -/
inductive Part
  | value (value : Value)
  | items (items : List Value)
  | members (members : List (Text × Value))

/-- A text of a value, of the items of an array or of the members of an object. -/
inductive Denotes : Text → Part → Prop
  | keyword {text : Text} {value : Value} (hkeyword : KeywordText text value) :
      Denotes text (.value value)
  | number {text : Text} {value : Value} (hnumber : NumberText text value) :
      Denotes text (.value value)
  | string {body text : Text} (hbody : StringBody body text) :
      Denotes (34 :: (body ++ [34])) (.value (.str text))
  | emptyArray {spaces : Text} (hspaces : Spaces spaces) :
      Denotes (91 :: (spaces ++ [93])) (.value (.arr []))
  | array {spaces text : Text} {items : List Value} (hspaces : Spaces spaces)
      (htext : Denotes text (.items items)) :
      Denotes (91 :: (spaces ++ (text ++ [93]))) (.value (.arr items))
  | emptyObject {spaces : Text} (hspaces : Spaces spaces) :
      Denotes (123 :: (spaces ++ [125])) (.value (.obj []))
  | object {spaces text : Text} {members : List (Text × Value)} (hspaces : Spaces spaces)
      (htext : Denotes text (.members members)) :
      Denotes (123 :: (spaces ++ (text ++ [125]))) (.value (.obj (setMembers [] members)))
  | lastItem {text spaces : Text} {value : Value} (htext : Denotes text (.value value))
      (hspaces : Spaces spaces) : Denotes (text ++ spaces) (.items [value])
  | item {text before behind more : Text} {value : Value} {items : List Value}
      (htext : Denotes text (.value value)) (hbefore : Spaces before) (hbehind : Spaces behind)
      (hmore : Denotes more (.items items)) :
      Denotes (text ++ (before ++ 44 :: (behind ++ more))) (.items (value :: items))
  | lastMember {body key before behind text spaces : Text} {value : Value}
      (hkey : StringBody body key) (hbefore : Spaces before) (hbehind : Spaces behind)
      (htext : Denotes text (.value value)) (hspaces : Spaces spaces) :
      Denotes (34 :: (body ++ 34 :: (before ++ 58 :: (behind ++ (text ++ spaces)))))
        (.members [(key, value)])
  | member {body key before behind text spaces start more : Text} {value : Value}
      {members : List (Text × Value)} (hkey : StringBody body key) (hbefore : Spaces before)
      (hbehind : Spaces behind) (htext : Denotes text (.value value)) (hspaces : Spaces spaces)
      (hstart : Spaces start) (hmore : Denotes more (.members members)) :
      Denotes (34 :: (body ++ 34 :: (before ++ 58 :: (behind ++ (text ++ (spaces ++ 44 ::
        (start ++ more))))))) (.members ((key, value) :: members))

/-- The reader of a part finds it at the head of a text. -/
def Part.Read (text : Text) : Part → Prop
  | .value found => Reads text found
  | .items found => Opens text ∧ ∀ fuel rest, text.length + 1 < fuel →
      readElements fuel (text ++ 93 :: rest) = some (.arr found, rest)
  | .members found => Opens text ∧ ∀ fuel object rest, text.length + 1 < fuel →
      readMembers fuel object (text ++ 125 :: rest) = some (.obj (setMembers object found), rest)

theorem KeywordText.reads {text : Text} {value : Value} (hkeyword : KeywordText text value) :
    Reads text value := by
  have hopens : Opens text := by
    cases hkeyword <;> exact ⟨_, _, rfl, by decide, by decide, by decide⟩
  refine ⟨hopens, ?_⟩
  intro fuel rest hfuel _
  obtain ⟨fuel, rfl⟩ := Nat.exists_eq_succ_of_ne_zero (by omega : fuel ≠ 0)
  cases hkeyword <;> simp [readValue, readKeyword]

/-- An array of pieces that read. -/
theorem reads_array {spaces text : Text} {items : List Value} (hspaces : Spaces spaces)
    (htext : (Part.items items).Read text) :
    Reads (91 :: (spaces ++ (text ++ [93]))) (.arr items) := by
  obtain ⟨hopens, hread⟩ := htext
  refine ⟨⟨91, _, rfl, by decide, by decide, by decide⟩, ?_⟩
  intro fuel rest hfuel _
  obtain ⟨fuel, rfl⟩ := Nat.exists_eq_succ_of_ne_zero (by omega : fuel ≠ 0)
  simp only [List.length_cons, List.length_append, List.length_nil] at hfuel
  have htext : 91 :: (spaces ++ (text ++ [93])) ++ rest =
      91 :: (spaces ++ (text ++ 93 :: rest)) := by simp
  have hskip := hopens.skipSpace_spaces hspaces (93 :: rest)
  have helements := hread fuel rest (by omega)
  rw [htext, readValue, if_neg (by decide), if_neg (by decide), if_pos rfl, hskip]
  obtain ⟨c, tail, rfl, -, hbracket, -⟩ := hopens
  split
  · next heq =>
    exact absurd (List.cons.inj heq).1 hbracket
  · exact helements

/-- An object is read to its closing brace, whatever follows it. -/
theorem readValue_object {spaces text : Text} {members : List (Text × Value)}
    (hspaces : Spaces spaces) (htext : (Part.members members).Read text) {fuel : ℕ}
    (hfuel : text.length + 1 < fuel) (rest : Text) :
    readValue (fuel + 1) (123 :: (spaces ++ (text ++ 125 :: rest))) =
      some (.obj (setMembers [] members), rest) := by
  obtain ⟨hopens, hread⟩ := htext
  have hmembers := hread fuel [] rest hfuel
  rw [readValue, if_neg (by decide), if_pos rfl, hopens.skipSpace_spaces hspaces]
  obtain ⟨c, tail, rfl, -, -, hbrace⟩ := hopens
  split
  · next heq =>
    exact absurd (List.cons.inj heq).1 hbrace
  · exact hmembers

theorem readValue_emptyObject {spaces : Text} (hspaces : Spaces spaces) (fuel : ℕ) (rest : Text) :
    readValue (fuel + 1) (123 :: (spaces ++ 125 :: rest)) = some (.obj [], rest) := by
  rw [readValue, if_neg (by decide), if_pos rfl, skipSpace_append hspaces,
    skipSpace_cons rest (by decide)]
  rfl

/-- The value of a member, whatever the reader of members does behind it. -/
theorem readMembers_member {body key before behind text : Text} {value : Value}
    (hkey : StringBody body key) (hbefore : Spaces before) (hbehind : Spaces behind)
    (htext : Reads text value) {fuel : ℕ} (object : List (Text × Value)) {rest : Text}
    (hbody : body.length < fuel) (hfuel : text.length < fuel) (hrest : Delimited rest) :
    readMembers (fuel + 1) object
        (34 :: (body ++ 34 :: (before ++ 58 :: (behind ++ (text ++ rest))))) =
      match skipSpace rest with
      | 125 :: last => some (.obj (insertMember key value object), last)
      | 44 :: more => readMembers fuel (insertMember key value object) (skipSpace more)
      | _ => none := by
  rw [readMembers, hkey.scanString_eq _ hbody]
  simp only [Option.bind_eq_bind, Option.bind_some, skipSpace_append hbefore,
    skipSpace_cons _ (show isSpace 58 = false by decide), htext.opens.skipSpace_spaces hbehind,
    htext.reads fuel rest hfuel hrest]
  rfl

/-- The reader takes a text of the grammar off the head of a longer text. -/
theorem Denotes.read {text : Text} {part : Part} (hdenotes : Denotes text part) :
    part.Read text := by
  induction hdenotes with
  | keyword hkeyword => exact hkeyword.reads
  | number hnumber => exact hnumber.reads
  | @string body text hbody =>
    refine ⟨⟨34, _, rfl, by decide, by decide, by decide⟩, ?_⟩
    intro fuel rest hfuel _
    obtain ⟨fuel, rfl⟩ := Nat.exists_eq_succ_of_ne_zero (by omega : fuel ≠ 0)
    simp only [List.length_cons, List.length_append, List.length_nil] at hfuel
    have htext : 34 :: (body ++ [34]) ++ rest = 34 :: (body ++ 34 :: rest) := by simp
    rw [htext, readValue, if_pos rfl, hbody.scanString_eq rest (by omega)]
    rfl
  | @emptyArray spaces hspaces =>
    refine ⟨⟨91, _, rfl, by decide, by decide, by decide⟩, ?_⟩
    intro fuel rest hfuel _
    obtain ⟨fuel, rfl⟩ := Nat.exists_eq_succ_of_ne_zero (by omega : fuel ≠ 0)
    have htext : 91 :: (spaces ++ [93]) ++ rest = 91 :: (spaces ++ 93 :: rest) := by simp
    rw [htext, readValue, if_neg (by decide), if_neg (by decide), if_pos rfl,
      skipSpace_append hspaces, skipSpace_cons rest (by decide)]
    rfl
  | array hspaces _ ih => exact reads_array hspaces ih
  | @emptyObject spaces hspaces =>
    refine ⟨⟨123, _, rfl, by decide, by decide, by decide⟩, ?_⟩
    intro fuel rest hfuel _
    obtain ⟨fuel, rfl⟩ := Nat.exists_eq_succ_of_ne_zero (by omega : fuel ≠ 0)
    have htext : 123 :: (spaces ++ [125]) ++ rest = 123 :: (spaces ++ 125 :: rest) := by simp
    rw [htext, readValue_emptyObject hspaces]
  | @object spaces text members hspaces _ ih =>
    refine ⟨⟨123, _, rfl, by decide, by decide, by decide⟩, ?_⟩
    intro fuel rest hfuel _
    obtain ⟨fuel, rfl⟩ := Nat.exists_eq_succ_of_ne_zero (by omega : fuel ≠ 0)
    simp only [List.length_cons, List.length_append, List.length_nil] at hfuel
    have htext : 123 :: (spaces ++ (text ++ [125])) ++ rest =
        123 :: (spaces ++ (text ++ 125 :: rest)) := by simp
    rw [htext, readValue_object hspaces ih (by omega)]
  | @lastItem text spaces value _ hspaces ih =>
    have hopens : Opens (text ++ spaces) := by
      obtain ⟨c, tail, rfl, hc⟩ := ih.opens
      exact ⟨c, tail ++ spaces, rfl, hc⟩
    refine ⟨hopens, fun fuel rest hfuel ↦ ?_⟩
    obtain ⟨fuel, rfl⟩ := Nat.exists_eq_succ_of_ne_zero (by omega : fuel ≠ 0)
    rw [List.length_append] at hfuel
    rw [List.append_assoc, readElements,
      ih.reads fuel _ (by omega) (hspaces.delimited (delimited_cons rest (by decide) (by decide)))]
    simp only [Option.bind_eq_bind, Option.bind_some, skipSpace_append hspaces,
      skipSpace_cons rest (show isSpace 93 = false by decide)]
    rfl
  | @item text before behind more value items _ hbefore hbehind _ ih ihMore =>
    obtain ⟨hopensMore, hmore⟩ := ihMore
    have hopens : Opens (text ++ (before ++ 44 :: (behind ++ more))) := by
      obtain ⟨c, tail, rfl, hc⟩ := ih.opens
      exact ⟨c, tail ++ (before ++ 44 :: (behind ++ more)), rfl, hc⟩
    refine ⟨hopens, fun fuel rest hfuel ↦ ?_⟩
    obtain ⟨fuel, rfl⟩ := Nat.exists_eq_succ_of_ne_zero (by omega : fuel ≠ 0)
    simp only [List.length_append, List.length_cons] at hfuel
    have htext : text ++ (before ++ 44 :: (behind ++ more)) ++ 93 :: rest =
        text ++ (before ++ 44 :: (behind ++ (more ++ 93 :: rest))) := by simp
    rw [htext, readElements, ih.reads fuel _ (by omega)
      (hbefore.delimited (delimited_cons _ (by decide) (by decide)))]
    simp only [Option.bind_eq_bind, Option.bind_some, skipSpace_append hbefore,
      skipSpace_cons _ (show isSpace 44 = false by decide),
      hopensMore.skipSpace_spaces hbehind, hmore fuel rest (by omega)]
    rfl
  | @lastMember body key before behind text spaces value hkey hbefore hbehind _ hspaces ih =>
    refine ⟨⟨34, _, rfl, by decide, by decide, by decide⟩, fun fuel object rest hfuel ↦ ?_⟩
    obtain ⟨fuel, rfl⟩ := Nat.exists_eq_succ_of_ne_zero (by omega : fuel ≠ 0)
    simp only [List.length_append, List.length_cons] at hfuel
    have htext : 34 :: (body ++ 34 :: (before ++ 58 :: (behind ++ (text ++ spaces)))) ++
        125 :: rest = 34 ::
          (body ++ 34 :: (before ++ 58 :: (behind ++ (text ++ (spaces ++ 125 :: rest))))) := by
      simp
    rw [htext, readMembers_member hkey hbefore hbehind ih object (by omega) (by omega)
      (hspaces.delimited (delimited_cons rest (by decide) (by decide))), skipSpace_append hspaces,
      skipSpace_cons rest (by decide)]
    rfl
  | @member body key before behind text spaces start more value members hkey hbefore hbehind _
      hspaces hstart _ ih ihMore =>
    obtain ⟨hopensMore, hmore⟩ := ihMore
    refine ⟨⟨34, _, rfl, by decide, by decide, by decide⟩, fun fuel object rest hfuel ↦ ?_⟩
    obtain ⟨fuel, rfl⟩ := Nat.exists_eq_succ_of_ne_zero (by omega : fuel ≠ 0)
    simp only [List.length_append, List.length_cons] at hfuel
    have htext : 34 :: (body ++ 34 :: (before ++ 58 :: (behind ++ (text ++ (spaces ++ 44 ::
        (start ++ more)))))) ++ 125 :: rest =
          34 :: (body ++ 34 :: (before ++ 58 :: (behind ++ (text ++ (spaces ++ 44 ::
            (start ++ (more ++ 125 :: rest))))))) := by
      simp
    rw [htext, readMembers_member hkey hbefore hbehind ih object (by omega) (by omega)
      (hspaces.delimited (delimited_cons _ (by decide) (by decide))), skipSpace_append hspaces,
      skipSpace_cons _ (by decide)]
    show readMembers fuel _ (skipSpace _) = _
    rw [hopensMore.skipSpace_spaces hstart, hmore fuel _ rest (by omega)]
    rfl

/-! ### What the reader takes -/

theorem KeywordText.of_readKeyword {word text rest : Text} {value result : Value}
    (hword : KeywordText word value) (hread : readKeyword word value text = some (result, rest)) :
    ∃ piece, text = piece ++ rest ∧ Denotes piece (.value result) := by
  rw [readKeyword] at hread
  split_ifs at hread with hstarts
  obtain ⟨rfl, rfl⟩ := Prod.mk.inj (Option.some.inj hread)
  obtain ⟨more, rfl⟩ := List.isPrefixOf_iff_prefix.mp hstarts
  exact ⟨word, by rw [List.drop_left], .keyword hword⟩

/-- With so much fuel, the readers take texts of the grammar. -/
structure Taking (fuel : ℕ) : Prop where
  value : ∀ {text rest result}, readValue fuel text = some (result, rest) →
    ∃ piece, text = piece ++ rest ∧ Denotes piece (.value result)
  elements : ∀ {text rest result}, readElements fuel text = some (result, rest) →
    ∃ piece items, result = .arr items ∧ text = piece ++ 93 :: rest ∧ Denotes piece (.items items)
  members : ∀ {object text rest result}, readMembers fuel object text = some (result, rest) →
    ∃ piece members, result = .obj (setMembers object members) ∧ text = piece ++ 125 :: rest ∧
      Denotes piece (.members members)

theorem taking_readValue {fuel : ℕ} (ih : Taking fuel) {text rest : Text} {result : Value}
    (hread : readValue (fuel + 1) text = some (result, rest)) :
    ∃ piece, text = piece ++ rest ∧ Denotes piece (.value result) := by
  cases text with
  | nil => cases hread
  | cons c text =>
    rw [readValue] at hread
    split at hread
    · next hquote =>
      obtain ⟨⟨string, after⟩, hscan, hresult⟩ := Option.map_eq_some_iff.mp hread
      obtain ⟨rfl, rfl⟩ := Prod.mk.inj hresult
      obtain ⟨body, rfl, hbody⟩ := StringBody.of_scanString hscan
      exact ⟨34 :: (body ++ [34]), by simp [hquote], .string hbody⟩
    split at hread
    · next hbrace =>
      split at hread
      · next after hskip =>
        obtain ⟨rfl, rfl⟩ := Prod.mk.inj (Option.some.inj hread)
        obtain ⟨spaces, hspaces, rfl⟩ := exists_spaces_of_skipSpace hskip
        exact ⟨123 :: (spaces ++ [125]), by simp [hbrace], .emptyObject hspaces⟩
      · obtain ⟨piece, members, rfl, htext, hpiece⟩ := ih.members hread
        obtain ⟨spaces, hspaces, heq⟩ := exists_skipSpace text
        exact ⟨123 :: (spaces ++ (piece ++ [125])), by rw [heq, htext]; simp [hbrace],
          .object hspaces hpiece⟩
    split at hread
    · next hbracket =>
      split at hread
      · next after hskip =>
        obtain ⟨rfl, rfl⟩ := Prod.mk.inj (Option.some.inj hread)
        obtain ⟨spaces, hspaces, rfl⟩ := exists_spaces_of_skipSpace hskip
        exact ⟨91 :: (spaces ++ [93]), by simp [hbracket], .emptyArray hspaces⟩
      · obtain ⟨piece, items, rfl, htext, hpiece⟩ := ih.elements hread
        obtain ⟨spaces, hspaces, heq⟩ := exists_skipSpace text
        exact ⟨91 :: (spaces ++ (piece ++ [93])), by rw [heq, htext]; simp [hbracket],
          .array hspaces hpiece⟩
    split at hread
    · exact KeywordText.null.of_readKeyword hread
    split at hread
    · exact KeywordText.ofTrue.of_readKeyword hread
    split at hread
    · exact KeywordText.ofFalse.of_readKeyword hread
    split at hread
    · exact KeywordText.nan.of_readKeyword hread
    split at hread
    · exact KeywordText.infinity.of_readKeyword hread
    split at hread
    · exact KeywordText.negInfinity.of_readKeyword hread
    obtain ⟨number, htext, hnumber⟩ := NumberText.of_readNumber hread
    exact ⟨number, htext, .number hnumber⟩

theorem taking_readElements {fuel : ℕ} (ih : Taking fuel) {text rest : Text} {result : Value}
    (hread : readElements (fuel + 1) text = some (result, rest)) :
    ∃ piece items, result = .arr items ∧ text = piece ++ 93 :: rest ∧
      Denotes piece (.items items) := by
  simp only [readElements, Option.bind_eq_bind, Option.bind_eq_some_iff, Prod.exists] at hread
  obtain ⟨item, after, hitem, hresult⟩ := hread
  obtain ⟨piece, rfl, hpiece⟩ := ih.value hitem
  split at hresult
  · next last hskip =>
    obtain ⟨rfl, rfl⟩ := Prod.mk.inj (Option.some.inj hresult)
    obtain ⟨spaces, hspaces, rfl⟩ := exists_spaces_of_skipSpace hskip
    exact ⟨piece ++ spaces, [item], rfl, by simp, .lastItem hpiece hspaces⟩
  · next more hskip =>
    simp only [Option.bind_eq_some_iff, Prod.exists] at hresult
    obtain ⟨found, last, helements, hresult⟩ := hresult
    obtain ⟨morePiece, items, rfl, hmore, hmorePiece⟩ := ih.elements helements
    obtain ⟨rfl, rfl⟩ := Prod.mk.inj (Option.some.inj hresult)
    obtain ⟨before, hbefore, rfl⟩ := exists_spaces_of_skipSpace hskip
    obtain ⟨behind, hbehind, heq⟩ := exists_skipSpace more
    exact ⟨piece ++ (before ++ 44 :: (behind ++ morePiece)), item :: items, rfl,
      by rw [heq, hmore]; simp, .item hpiece hbefore hbehind hmorePiece⟩
  · cases hresult

theorem taking_readMembers {fuel : ℕ} (ih : Taking fuel) {object : List (Text × Value)}
    {text rest : Text} {result : Value}
    (hread : readMembers (fuel + 1) object text = some (result, rest)) :
    ∃ piece members, result = .obj (setMembers object members) ∧ text = piece ++ 125 :: rest ∧
      Denotes piece (.members members) := by
  obtain ⟨text, rfl⟩ : ∃ more, text = 34 :: more := by
    rw [readMembers.eq_def] at hread
    split at hread
    · next heq => cases heq
    · next heq => exact ⟨_, rfl⟩
    · cases hread
  simp only [readMembers, Option.bind_eq_bind, Option.bind_eq_some_iff, Prod.exists] at hread
  obtain ⟨key, afterKey, hkey, hresult⟩ := hread
  obtain ⟨body, rfl, hbody⟩ := StringBody.of_scanString hkey
  split at hresult
  · next afterColon hcolon =>
    obtain ⟨before, hbefore, rfl⟩ := exists_spaces_of_skipSpace hcolon
    obtain ⟨behind, hbehind, heq⟩ := exists_skipSpace afterColon
    simp only [Option.bind_eq_some_iff, Prod.exists] at hresult
    obtain ⟨value, afterValue, hvalue, hresult⟩ := hresult
    obtain ⟨piece, htext, hpiece⟩ := ih.value hvalue
    rw [htext] at heq
    split at hresult
    · next last hskip =>
      obtain ⟨rfl, rfl⟩ := Prod.mk.inj (Option.some.inj hresult)
      obtain ⟨spaces, hspaces, rfl⟩ := exists_spaces_of_skipSpace hskip
      exact ⟨34 :: (body ++ 34 :: (before ++ 58 :: (behind ++ (piece ++ spaces)))), [(key, value)],
        rfl, by rw [heq]; simp, .lastMember hbody hbefore hbehind hpiece hspaces⟩
    · next more hskip =>
      obtain ⟨spaces, hspaces, rfl⟩ := exists_spaces_of_skipSpace hskip
      obtain ⟨start, hstart, hmore⟩ := exists_skipSpace more
      obtain ⟨morePiece, members, rfl, hmoreText, hmorePiece⟩ := ih.members hresult
      exact ⟨34 :: (body ++ 34 :: (before ++ 58 :: (behind ++ (piece ++ (spaces ++ 44 ::
        (start ++ morePiece)))))), (key, value) :: members, rfl,
        by rw [heq, hmore, hmoreText]; simp,
        .member hbody hbefore hbehind hpiece hspaces hstart hmorePiece⟩
    · cases hresult
  · cases hresult

theorem taking (fuel : ℕ) : Taking fuel := by
  induction fuel with
  | zero =>
    constructor
    · intro text rest result hread
      cases hread
    · intro text rest result hread
      cases hread
    · intro object text rest result hread
      cases hread
  | succ fuel ih => exact ⟨taking_readValue ih, taking_readElements ih, taking_readMembers ih⟩

/-! ### Whole texts -/

theorem Denotes.reads {text : Text} {value : Value} (hdenotes : Denotes text (.value value)) :
    Reads text value :=
  hdenotes.read

/-- A text parses to a value exactly when it is a text of the value between spaces. -/
theorem parse_eq_some_iff {text : Text} {value : Value} : parse text = some value ↔
    ∃ before piece behind, Spaces before ∧ Spaces behind ∧ text = before ++ (piece ++ behind) ∧
      Denotes piece (.value value) := by
  constructor
  · intro hparse
    rw [parse] at hparse
    split at hparse
    · next found rest hread =>
      split_ifs at hparse with hrest
      obtain rfl := Option.some.inj hparse
      obtain ⟨piece, htext, hpiece⟩ := (taking _).value hread
      obtain ⟨before, hbefore, heq⟩ := exists_skipSpace text
      obtain ⟨behind, hbehind, hlast⟩ := exists_skipSpace rest
      rw [List.isEmpty_iff.mp hrest, List.append_nil] at hlast
      exact ⟨before, piece, rest, hbefore, hlast ▸ hbehind, heq.trans (by rw [htext]), hpiece⟩
    · cases hparse
  · rintro ⟨before, piece, behind, hbefore, hbehind, rfl, hpiece⟩
    have hskip := hpiece.reads.opens.skipSpace_spaces hbefore behind
    have hread := hpiece.reads.reads ((before ++ (piece ++ behind)).length + 1) behind
      (by simp only [List.length_append]; omega) (by
        have hdelimited : Delimited (behind ++ []) := hbehind.delimited fun c hc ↦ by cases hc
        rwa [List.append_nil] at hdelimited)
    have hempty : skipSpace behind = [] := List.dropWhile_eq_nil_iff.mpr hbehind
    rw [parse, hskip, hread]
    simp [hempty]

end SyzAbi.Library.Json

import SyzAbi.Library.JsonGrammar

/-!
# Parts of JSON texts

What remains of a JSON text when it is cut. A beginning of the text of an object parses only when
nothing but spaces is cut off (`spaces_of_parse_append`). An end that begins inside a string never
parses (`parse_eq_none_of_inside`): it has the quotes of the text the other way round, so it would
have to end where a string is still open.
-/

set_option autoImplicit false
set_option relaxedAutoImplicit false

namespace SyzAbi.Library.Json

/-! ### Beginnings -/

/-- The text of an object stands between braces. -/
theorem Denotes.exists_braces {text : Text} {members : List (Text × Value)}
    (hdenotes : Denotes text (.value (.obj members))) :
    ∃ inner, text = 123 :: (inner ++ [125]) := by
  generalize hpart : Part.value (.obj members) = part at hdenotes
  cases hdenotes with
  | keyword hkeyword => cases hkeyword <;> cases hpart
  | number hnumber =>
    obtain ⟨hunsigned⟩ | ⟨hunsigned⟩ := hnumber
    · cases hunsigned <;> cases hpart
    · cases hunsigned <;> cases hpart
  | string => cases hpart
  | emptyArray => cases hpart
  | array => cases hpart
  | emptyObject => exact ⟨_, rfl⟩
  | @object spaces text => exact ⟨spaces ++ text, by rw [List.append_assoc]⟩
  | lastItem => cases hpart
  | item => cases hpart
  | lastMember => cases hpart
  | member => cases hpart

/-- The text of an object is read from the head of any text. -/
theorem Denotes.readValue_brace {text : Text} {value : Value}
    (hdenotes : Denotes (123 :: text) (.value value)) {fuel : ℕ} (rest : Text)
    (hfuel : text.length + 1 < fuel) :
    readValue fuel (123 :: (text ++ rest)) = some (value, rest) := by
  obtain ⟨fuel, rfl⟩ := Nat.exists_eq_succ_of_ne_zero (by omega : fuel ≠ 0)
  generalize hwhole : 123 :: text = whole at hdenotes
  generalize hpart : Part.value value = part at hdenotes
  cases hdenotes with
  | keyword hkeyword => cases hkeyword <;> cases hwhole
  | number hnumber =>
    obtain ⟨hunsigned⟩ | ⟨hunsigned⟩ := hnumber
    · obtain ⟨c, more, rfl, hdigit⟩ := hunsigned.exists_cons
      rw [← (List.cons.inj hwhole).1] at hdigit
      cases hdigit
    · cases hwhole
  | string => cases hwhole
  | emptyArray => cases hwhole
  | array => cases hwhole
  | emptyObject hspaces =>
    cases hwhole
    cases hpart
    rw [List.append_assoc, List.singleton_append]
    exact readValue_emptyObject hspaces _ rest
  | @object spaces members _ hspaces hmembers =>
    cases hwhole
    cases hpart
    simp only [List.length_append, List.length_cons, List.length_nil] at hfuel
    rw [List.append_assoc, List.append_assoc, List.singleton_append]
    exact readValue_object hspaces hmembers.read (by omega) rest
  | lastItem => cases hpart
  | item => cases hpart
  | lastMember => cases hpart
  | member => cases hpart

/-- A beginning of the text of an object parses only when nothing but spaces is cut off. -/
theorem spaces_of_parse_append {text rest : Text} {members : List (Text × Value)} {value : Value}
    (hwhole : parse (text ++ rest) = some (.obj members)) (htext : parse text = some value) :
    Spaces rest := by
  obtain ⟨before, piece, behind, hbefore, hbehind, heq, hpiece⟩ := parse_eq_some_iff.mp hwhole
  obtain ⟨start, part, last, hstart, -, rfl, hpart⟩ := parse_eq_some_iff.mp htext
  have hskip : piece ++ behind = part ++ (last ++ rest) := by
    have hskipped := congrArg skipSpace heq
    rw [hpiece.reads.opens.skipSpace_spaces hbefore, List.append_assoc, List.append_assoc,
      hpart.reads.opens.skipSpace_spaces hstart] at hskipped
    exact hskipped.symm
  obtain ⟨inner, htail⟩ := hpiece.exists_braces
  obtain ⟨tail, rfl⟩ : ∃ tail, piece = 123 :: tail := ⟨_, htail⟩
  obtain ⟨c, more, rfl, -⟩ := hpart.reads.opens
  obtain rfl : 123 = c := (List.cons.inj hskip).1
  have hbrace : tail ++ behind = more ++ (last ++ rest) := (List.cons.inj hskip).2
  have hreadPiece : readValue (tail.length + more.length + 2) (123 :: (tail ++ behind)) =
      some (_, behind) := hpiece.readValue_brace behind (by omega)
  have hreadPart : readValue (tail.length + more.length + 2) (123 :: (more ++ (last ++ rest))) =
      some (_, last ++ rest) := hpart.readValue_brace (last ++ rest) (by omega)
  rw [hbrace, hreadPart] at hreadPiece
  obtain ⟨-, hlast⟩ := Prod.mk.inj (Option.some.inj hreadPiece)
  exact fun c hc ↦ hbehind c (hlast ▸ List.mem_append_right last hc)

/-- The spaces behind the text of an object can be cut off. -/
theorem parse_of_parse_append {text rest : Text} {members : List (Text × Value)}
    (hwhole : parse (text ++ rest) = some (.obj members)) (hrest : Spaces rest) :
    parse text = some (.obj members) := by
  obtain ⟨before, piece, behind, hbefore, hbehind, heq, hpiece⟩ := parse_eq_some_iff.mp hwhole
  obtain ⟨inner, hinner⟩ := hpiece.exists_braces
  obtain ⟨more, rfl, hmore⟩ : ∃ more, text = before ++ (piece ++ more) ∧ Spaces more := by
    rw [← List.append_assoc] at heq
    rcases List.append_eq_append_iff.mp heq with ⟨cut, hfront, rfl⟩ | ⟨more, rfl, rfl⟩
    · rcases List.eq_nil_or_concat cut with rfl | ⟨cut, c, rfl⟩
      · rw [List.append_nil] at hfront
        exact ⟨[], by rw [List.append_nil, hfront], fun _ hc ↦ absurd hc List.not_mem_nil⟩
      · -- The last character before the spaces is the brace.
        have hsnoc : (before ++ 123 :: inner) ++ [125] = (text ++ cut) ++ [c] := by
          rw [hinner, List.concat_eq_append, ← List.append_assoc] at hfront
          rw [← hfront]
          simp
        have hlast : [125] = [c] := (List.append_inj' hsnoc rfl).2
        have hspace := hrest c (by simp)
        rw [← (List.cons.inj hlast).1] at hspace
        cases hspace
    · exact ⟨more, List.append_assoc _ _ _, fun c hc ↦ hbehind c (List.mem_append_left rest hc)⟩
  exact parse_eq_some_iff.mpr ⟨before, piece, more, hbefore, hmore, rfl, hpiece⟩

/-! ### Quotes -/

/-- Where a character of a text stands: outside the strings, inside one, or behind a backslash. -/
inductive Place
  | outside
  | inside
  | escaped

/-- The characters outside strings. -/
def isToken (c : ℕ) : Bool :=
  isSpace c || isDigit c || c ∈ [43, 44, 45, 46, 58, 69, 73, 78, 91, 93, 97, 101, 102, 105, 108,
    110, 114, 115, 116, 117, 121, 123, 125]

/-- The characters behind a backslash. -/
def isEscape (c : ℕ) : Bool := c = 117 || (simpleEscape c).isSome

/-- Go over a character; `none` where no JSON text has it. -/
def Place.step : Place → ℕ → Option Place
  | .outside, c => if c = 34 then some .inside else if isToken c then some .outside else none
  | .inside, c => if c = 34 then some .outside else if c = 92 then some .escaped else some .inside
  | .escaped, c => if isEscape c then some .inside else none

/-- Go over a text. -/
def Place.run (place : Place) : Text → Option Place
  | [] => some place
  | c :: rest => (place.step c).bind fun next ↦ next.run rest

theorem Place.run_append (place : Place) (a b : Text) :
    place.run (a ++ b) = (place.run a).bind fun next ↦ next.run b := by
  induction a generalizing place with
  | nil => rfl
  | cons c a ih =>
    rw [List.cons_append, run, run]
    cases place.step c with
    | none => rfl
    | some next => exact ih next

theorem Place.run_outside {text : Text} (htext : ∀ c ∈ text, isToken c = true) :
    Place.outside.run text = some .outside := by
  induction text with
  | nil => rfl
  | cons c text ih =>
    have htoken := htext c List.mem_cons_self
    have hquote : c ≠ 34 := by
      rintro rfl
      cases htoken
    rw [run, step, if_neg hquote, if_pos htoken, Option.bind_some]
    exact ih fun d hd ↦ htext d (List.mem_cons_of_mem c hd)

theorem Place.run_inside {text : Text} (htext : ∀ c ∈ text, c ≠ 34 ∧ c ≠ 92) :
    Place.inside.run text = some .inside := by
  induction text with
  | nil => rfl
  | cons c text ih =>
    obtain ⟨hquote, hbackslash⟩ := htext c List.mem_cons_self
    rw [run, step, if_neg hquote, if_neg hbackslash, Option.bind_some]
    exact ih fun d hd ↦ htext d (List.mem_cons_of_mem c hd)

theorem Plain.run_inside {text : Text} (hplain : Plain text) :
    Place.inside.run text = some .inside :=
  Place.run_inside fun c hc ↦ (hplain c hc).2

theorem StringBody.run_inside {body text : Text} (hbody : StringBody body text) :
    Place.inside.run body = some .inside := by
  have hunicode : ∀ {digits n more}, UnicodeDigits digits n →
      Place.inside.run (92 :: 117 :: (digits ++ more)) = Place.inside.run more := by
    intro digits n more hdigits
    show Place.inside.run (digits ++ more) = _
    rw [Place.run_append, hdigits.plain.run_inside, Option.bind_some]
  induction hbody with
  | nil => rfl
  | char _ hquote hbackslash _ ih =>
    rw [Place.run, Place.step, if_neg hquote, if_neg hbackslash, Option.bind_some, ih]
  | @simple c value body text hsimple _ ih =>
    have hescape : isEscape c = true := by rw [isEscape, hsimple, Option.isSome_some, Bool.or_true]
    show (Place.escaped.step c).bind (fun next ↦ next.run body) = _
    rw [Place.step, if_pos hescape, Option.bind_some, ih]
  | unicode hdigits _ _ ih => rw [hunicode hdigits, ih]
  | pair _ _ hdigits hlowDigits _ ih => rw [hunicode hdigits, hunicode hlowDigits, ih]

theorem Spaces.isToken {spaces : Text} (hspaces : Spaces spaces) :
    ∀ c ∈ spaces, isToken c = true := by
  intro c hc
  rw [Json.isToken, hspaces c hc]
  rfl

theorem NumberText.isDigit_or {text : Text} {value : Value} (hnumber : NumberText text value) :
    ∀ c ∈ text, isDigit c = true ∨ c ∈ [43, 45, 46, 69, 101] := by
  have hinteger : ∀ {digits}, IntegerPart digits → ∀ c ∈ digits, isDigit c = true := by
    rintro digits (rfl | ⟨⟨-, hdigits⟩, -⟩) c hc
    · rw [List.mem_singleton.mp hc]
      decide
    · exact hdigits c hc
  have hunsigned : ∀ {negative text value}, UnsignedText negative text value →
      ∀ c ∈ text, isDigit c = true ∨ c ∈ [43, 45, 46, 69, 101] := by
    rintro negative text value (hdigits | ⟨hdigits, hfraction, hexponent, -⟩) c hc
    · exact .inl (hinteger hdigits c hc)
    · rcases List.mem_append.mp hc with hc | hc
      · exact .inl (hinteger hdigits c hc)
      rcases List.mem_append.mp hc with hc | hc
      · obtain rfl | ⟨digits, hdigits, rfl⟩ := hfraction
        · cases hc
        · rcases List.mem_cons.mp hc with rfl | hc
          · exact .inr (by decide)
          · exact .inl (hdigits.2 c hc)
      · obtain rfl | ⟨letter, sign, digits, hletter, hsign, hdigits, rfl⟩ := hexponent
        · cases hc
        · rcases List.mem_cons.mp hc with rfl | hc
          · rcases hletter with rfl | rfl <;> exact .inr (by decide)
          · rcases List.mem_append.mp hc with hc | hc
            · simp only [List.mem_cons, List.not_mem_nil, or_false] at hsign
              rcases hsign with rfl | rfl | rfl
              · cases hc
              · rw [List.mem_singleton.mp hc]
                exact .inr (by decide)
              · rw [List.mem_singleton.mp hc]
                exact .inr (by decide)
            · exact .inl (hdigits.2 c hc)
  obtain ⟨htext⟩ | ⟨htext⟩ := hnumber
  · exact hunsigned htext
  · exact List.forall_mem_cons.mpr ⟨.inr (by decide), hunsigned htext⟩

theorem NumberText.isToken {text : Text} {value : Value} (hnumber : NumberText text value) :
    ∀ c ∈ text, isToken c = true := by
  intro c hc
  rcases hnumber.isDigit_or c hc with hdigit | hother
  · rw [Json.isToken, hdigit, Bool.or_true]
    rfl
  · simp only [List.mem_cons, List.not_mem_nil, or_false] at hother
    rcases hother with rfl | rfl | rfl | rfl | rfl <;> rfl

theorem run_token {c : ℕ} (htoken : isToken c = true) (rest : Text) :
    Place.outside.run (c :: rest) = Place.outside.run rest := by
  have hquote : c ≠ 34 := by
    rintro rfl
    cases htoken
  rw [Place.run, Place.step, if_neg hquote, if_pos htoken, Option.bind_some]

theorem run_tokens {text : Text} (htext : ∀ c ∈ text, isToken c = true) (rest : Text) :
    Place.outside.run (text ++ rest) = Place.outside.run rest := by
  rw [Place.run_append, Place.run_outside htext, Option.bind_some]

theorem run_string {body text : Text} (hbody : StringBody body text) (rest : Text) :
    Place.outside.run (34 :: (body ++ 34 :: rest)) = Place.outside.run rest := by
  show Place.inside.run (body ++ 34 :: rest) = _
  rw [Place.run_append, hbody.run_inside]
  rfl

/-- The strings of a part are closed. -/
theorem Denotes.run_outside {text : Text} {part : Part} (hdenotes : Denotes text part)
    (rest : Text) : Place.outside.run (text ++ rest) = Place.outside.run rest := by
  induction hdenotes generalizing rest with
  | keyword hkeyword => cases hkeyword <;> exact run_tokens (by decide) rest
  | number hnumber => exact run_tokens hnumber.isToken rest
  | string hbody =>
    rw [List.cons_append, List.append_assoc, List.singleton_append, run_string hbody]
  | emptyArray hspaces =>
    simp only [List.cons_append, List.append_assoc, List.nil_append]
    rw [run_token (by decide), run_tokens hspaces.isToken, run_token (by decide)]
  | array hspaces _ ih =>
    simp only [List.cons_append, List.append_assoc, List.nil_append]
    rw [run_token (by decide), run_tokens hspaces.isToken, ih, run_token (by decide)]
  | emptyObject hspaces =>
    simp only [List.cons_append, List.append_assoc, List.nil_append]
    rw [run_token (by decide), run_tokens hspaces.isToken, run_token (by decide)]
  | object hspaces _ ih =>
    simp only [List.cons_append, List.append_assoc, List.nil_append]
    rw [run_token (by decide), run_tokens hspaces.isToken, ih, run_token (by decide)]
  | lastItem _ hspaces ih => rw [List.append_assoc, ih, run_tokens hspaces.isToken]
  | item _ hbefore hbehind _ ih ihMore =>
    simp only [List.cons_append, List.append_assoc]
    rw [ih, run_tokens hbefore.isToken, run_token (by decide), run_tokens hbehind.isToken, ihMore]
  | lastMember hkey hbefore hbehind _ hspaces ih =>
    simp only [List.cons_append, List.append_assoc]
    rw [run_string hkey, run_tokens hbefore.isToken, run_token (by decide),
      run_tokens hbehind.isToken, ih, run_tokens hspaces.isToken]
  | member hkey hbefore hbehind _ hspaces hstart _ ih ihMore =>
    simp only [List.cons_append, List.append_assoc]
    rw [run_string hkey, run_tokens hbefore.isToken, run_token (by decide),
      run_tokens hbehind.isToken, ih, run_tokens hspaces.isToken, run_token (by decide),
      run_tokens hstart.isToken, ihMore]

theorem run_outside_of_parse {text : Text} {value : Value} (hparse : parse text = some value) :
    Place.outside.run text = some .outside := by
  obtain ⟨before, piece, behind, hbefore, hbehind, rfl, hpiece⟩ := parse_eq_some_iff.mp hparse
  rw [run_tokens hbefore.isToken, hpiece.run_outside, Place.run_outside hbehind.isToken]

/-- No text ends outside its strings from both sides of a quote. -/
theorem not_run_outside_inside (text : Text) :
    ¬(Place.outside.run text = some .outside ∧ Place.inside.run text = some .outside) := by
  induction text with
  | nil =>
    rintro ⟨-, hinside⟩
    cases hinside
  | cons c text ih =>
    rintro ⟨houtside, hinside⟩
    simp only [Place.run, Place.step] at houtside hinside
    by_cases hquote : c = 34
    · rw [if_pos hquote, Option.bind_some] at houtside hinside
      exact ih ⟨hinside, houtside⟩
    · rw [if_neg hquote] at houtside hinside
      split_ifs at houtside with htoken
      · have hbackslash : c ≠ 92 := by
          rintro rfl
          cases htoken
        rw [if_neg hbackslash, Option.bind_some] at hinside
        exact ih ⟨houtside, hinside⟩
      · cases houtside

/-- What begins inside a string and ends outside does not parse. -/
theorem parse_eq_none_of_inside {text : Text} (hinside : Place.inside.run text = some .outside) :
    parse text = none := by
  cases hparse : parse text with
  | none => rfl
  | some value => exact absurd ⟨run_outside_of_parse hparse, hinside⟩ (not_run_outside_inside text)

/-- A character that is neither outside strings nor behind a backslash stands inside a string. -/
theorem run_inside_of_mem {front back : Text} {c : ℕ} (htoken : isToken c = false)
    (hescape : isEscape c = false) (hquote : c ≠ 34) (hbackslash : c ≠ 92)
    (hrun : Place.outside.run (front ++ c :: back) = some .outside) :
    Place.inside.run back = some .outside := by
  rw [Place.run_append, Option.bind_eq_some_iff] at hrun
  obtain ⟨place, -, hback⟩ := hrun
  rw [Place.run] at hback
  cases place with
  | outside =>
    rw [Place.step, if_neg hquote, htoken] at hback
    cases hback
  | inside =>
    rw [Place.step, if_neg hquote, if_neg hbackslash, Option.bind_some] at hback
    exact hback
  | escaped =>
    rw [Place.step, hescape] at hback
    cases hback

end SyzAbi.Library.Json

import SyzAbi.Library.JsonEscapes

/-!
# Objects of `json.dumps`

`json.dumps` puts a space behind every colon and every comma. An object that is printed so reads
back when the texts of its values do (`Reads.spacedObject`), and an ASCII string is such a text
(`Reads.quoteAscii`). `dumps` is the text of a whole value.
-/

set_option autoImplicit false
set_option relaxedAutoImplicit false

namespace SyzAbi.Library.Json

theorem Reads.quoteAscii {text : Text} (hscalar : ∀ c ∈ text, IsScalar c) :
    Reads (Json.quoteAscii text) (.str text) := by
  refine ⟨⟨34, _, rfl, by decide, by decide, by decide⟩, ?_⟩
  intro fuel rest hfuel _
  obtain ⟨fuel, rfl⟩ := Nat.exists_eq_succ_of_ne_zero (by omega : fuel ≠ 0)
  refine readValue_quoteAscii hscalar rest ?_
  have hlength := length_le_flatMap_asciiChar text
  simp only [Json.quoteAscii, List.length_append, List.length_cons, List.length_nil] at hfuel
  omega

/-- A member with a space behind its colon. -/
def spacedMember (key text : Text) : Text := quoted key ++ 58 :: 32 :: text

/-- Texts with commas and spaces between them. -/
def spacedJoin : List Text → Text
  | [] => []
  | [text] => text
  | text :: rest => text ++ 44 :: 32 :: spacedJoin rest

/-- An object with spaces behind its commas. -/
def spacedObject (members : List Text) : Text := 123 :: spacedJoin members ++ [125]

theorem spacedJoin_cons_cons (text next : Text) (rest : List Text) :
    spacedJoin (text :: next :: rest) = text ++ 44 :: 32 :: spacedJoin (next :: rest) := rfl

/-- The text of a member with this key and this value, with a space behind its colon. -/
def ReadsSpaced (text : Text) (member : Text × Value) : Prop :=
  Plain member.1 ∧ ∃ valueText, text = spacedMember member.1 valueText ∧ Reads valueText member.2

theorem ReadsSpaced.opens {text : Text} {member : Text × Value}
    (hreads : ReadsSpaced text member) : Opens text := by
  obtain ⟨_, valueText, rfl, _⟩ := hreads
  exact ⟨34, _, rfl, by decide, by decide, by decide⟩

theorem Opens.spacedJoin {text : Text} (hopens : Opens text) (rest : List Text) :
    Opens (Json.spacedJoin (text :: rest)) := by
  cases rest with
  | nil => exact hopens
  | cons next rest =>
    obtain ⟨c, tail, rfl, hhead⟩ := hopens
    exact ⟨c, tail ++ 44 :: 32 :: Json.spacedJoin (next :: rest), rfl, hhead⟩

/-- One member, whatever follows its value. -/
theorem ReadsSpaced.readMembers {text : Text} {member : Text × Value}
    (hreads : ReadsSpaced text member) {fuel : ℕ} (hfuel : text.length < fuel) {after : Text}
    (hafter : Delimited after) (object : List (Text × Value)) :
    Json.readMembers (fuel + 1) object (text ++ after) =
      match skipSpace after with
      | 125 :: last => some (.obj (insertMember member.1 member.2 object), last)
      | 44 :: more => Json.readMembers fuel (insertMember member.1 member.2 object) (skipSpace more)
      | _ => none := by
  obtain ⟨hplain, valueText, rfl, hvalue⟩ := hreads
  simp only [spacedMember, quoted, List.length_append, List.length_cons] at hfuel
  have htext : spacedMember member.1 valueText ++ after =
      quoted member.1 ++ 58 :: 32 :: (valueText ++ after) := by
    simp [spacedMember]
  rw [htext]
  exact readMembers_spaced hplain hvalue.opens (by omega)
    (hvalue.reads fuel after (by omega) hafter) object

theorem readMembers_spacedJoin {texts : List Text} {members : List (Text × Value)}
    (hreads : List.Forall₂ ReadsSpaced texts members) (hne : texts ≠ []) {fuel : ℕ}
    (object : List (Text × Value)) (rest : Text) (hfuel : (spacedJoin texts).length + 1 < fuel) :
    readMembers fuel object (spacedJoin texts ++ 125 :: rest) =
      some (.obj (setMembers object members), rest) := by
  induction hreads generalizing fuel object with
  | nil => exact absurd rfl hne
  | @cons text member texts members hmember hmembers ih =>
    obtain ⟨fuel, rfl⟩ := Nat.exists_eq_succ_of_ne_zero (by omega : fuel ≠ 0)
    cases hmembers with
    | nil =>
      rw [spacedJoin] at hfuel ⊢
      rw [hmember.readMembers (by omega) (delimited_cons rest (by decide) (by decide)),
        skipSpace_cons rest (show isSpace 125 = false by decide)]
      rfl
    | @cons next nextMember more moreMembers hnext hmore =>
      rw [spacedJoin_cons_cons] at hfuel ⊢
      simp only [List.length_append, List.length_cons] at hfuel
      rw [List.append_assoc, List.cons_append, hmember.readMembers (by omega)
        (delimited_cons _ (by decide) (by decide)),
        skipSpace_cons _ (show isSpace 44 = false by decide)]
      show readMembers fuel _ (skipSpace _) = _
      rw [List.cons_append, (hnext.opens.spacedJoin more).skipSpace_space]
      exact ih (by simp) _ (by omega)

/-- An object of `json.dumps` reads back. -/
theorem Reads.spacedObject {texts : List Text} {members : List (Text × Value)}
    (hreads : List.Forall₂ ReadsSpaced texts members) (hne : texts ≠ []) :
    Reads (Json.spacedObject texts) (.obj (setMembers [] members)) := by
  refine ⟨⟨123, spacedJoin texts ++ [125], rfl, by decide, by decide, by decide⟩, ?_⟩
  intro fuel rest hfuel _
  obtain ⟨fuel, rfl⟩ := Nat.exists_eq_succ_of_ne_zero (by omega : fuel ≠ 0)
  have htext : Json.spacedObject texts ++ rest = 123 :: (spacedJoin texts ++ 125 :: rest) := by
    simp [Json.spacedObject]
  simp only [Json.spacedObject, List.length_append, List.length_cons, List.length_nil] at hfuel
  rw [htext, readValue, if_neg (by decide), if_pos rfl]
  cases hreads with
  | nil => exact absurd rfl hne
  | @cons text member more members hmember hmembers =>
    have hjoin := hmember.opens.spacedJoin more
    have hmembersRead := readMembers_spacedJoin (.cons hmember hmembers) hne [] rest
      (show (spacedJoin (text :: more)).length + 1 < fuel by omega)
    rw [hjoin.skipSpace_eq]
    obtain ⟨c, tail, heq, _, _, hbrace⟩ := hjoin
    rw [heq, List.cons_append] at hmembersRead ⊢
    split
    · next heq =>
      exact absurd (List.cons.inj heq).1 hbrace
    · exact hmembersRead

/-! ### The text of a value -/

mutual

/-- `json.dumps(value, sort_keys=True)`. -/
def dumps : Value → Text
  | .null => [110, 117, 108, 108]
  | .bool true => [116, 114, 117, 101]
  | .bool false => [102, 97, 108, 115, 101]
  | .int value => decimalInt value
  | .float text => text
  | .str text => quoteAscii text
  | .arr items => 91 :: dumpsItems items ++ [93]
  | .obj members => 123 :: dumpsMembers members ++ [125]

/-- The items of an array, separated. -/
def dumpsItems : List Value → Text
  | [] => []
  | [item] => dumps item
  | item :: rest => dumps item ++ [44, 32] ++ dumpsItems rest

/-- The members of an object, separated. -/
def dumpsMembers : List (Text × Value) → Text
  | [] => []
  | [(key, value)] => quoteAscii key ++ [58, 32] ++ dumps value
  | (key, value) :: rest =>
    quoteAscii key ++ [58, 32] ++ dumps value ++ [44, 32] ++ dumpsMembers rest

end

end SyzAbi.Library.Json

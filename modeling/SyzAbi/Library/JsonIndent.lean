import SyzAbi.Library.JsonRender

/-!
# Indented JSON

`json.dump` with `indent=2` puts every item and every member on a line of its own. Apart from line
feeds and spaces the text has the characters of the one that `render` prints
(`mem_renderIndented_iff`).
-/

set_option autoImplicit false
set_option relaxedAutoImplicit false

namespace SyzAbi.Library.Json

/-- A line feed and the indentation inside so many brackets. -/
def newline (level : ℕ) : Text := 10 :: List.replicate (2 * level) 32

mutual

/-- The text of a value inside so many brackets. -/
def renderIndented (level : ℕ) : Value → Text
  | .arr items =>
    if items.isEmpty then [91, 93]
    else [91] ++ newline (level + 1) ++ indentedItems (level + 1) items ++ newline level ++ [93]
  | .obj members =>
    if members.isEmpty then [123, 125]
    else [123] ++ newline (level + 1) ++ indentedMembers (level + 1) members ++ newline level ++
      [125]
  | value => render value

/-- The items of an array, each on a line. -/
def indentedItems (level : ℕ) : List Value → Text
  | [] => []
  | [item] => renderIndented level item
  | item :: rest =>
    renderIndented level item ++ [44] ++ newline level ++ indentedItems level rest

/-- The members of an object, each on a line. -/
def indentedMembers (level : ℕ) : List (Text × Value) → Text
  | [] => []
  | [(key, value)] => quote key ++ [58, 32] ++ renderIndented level value
  | (key, value) :: rest =>
    quote key ++ [58, 32] ++ renderIndented level value ++ [44] ++ newline level ++
      indentedMembers level rest

end

variable {c : ℕ} (hc : c ≠ 10 ∧ c ≠ 32)

include hc

theorem not_mem_newline (level : ℕ) : c ∉ newline level := by
  rw [newline, List.mem_cons, not_or]
  exact ⟨hc.1, fun hmem ↦ hc.2 (List.eq_of_mem_replicate hmem)⟩

theorem mem_indentedItems_iff {items : List Value}
    (hitems : ∀ item ∈ items, ∀ level, c ∈ renderIndented level item ↔ c ∈ render item)
    (level : ℕ) : c ∈ indentedItems level items ↔ c ∈ renderItems items := by
  have hline := not_mem_newline hc level
  induction items with
  | nil => exact Iff.rfl
  | cons item items ih =>
    obtain ⟨hitem, hmore⟩ := List.forall_mem_cons.mp hitems
    cases items with
    | nil => exact hitem level
    | cons next items =>
      have hrest := ih hmore
      rw [indentedItems, renderItems]
      · simp only [List.mem_append, List.mem_cons, List.not_mem_nil, or_false, hitem level, hrest,
          hline, hc.2]
      · exact List.cons_ne_nil next items
      · exact List.cons_ne_nil next items

theorem mem_indentedMembers_iff {members : List (Text × Value)}
    (hmembers : ∀ member ∈ members, ∀ level,
      c ∈ renderIndented level member.2 ↔ c ∈ render member.2) (level : ℕ) :
    c ∈ indentedMembers level members ↔ c ∈ renderMembers members := by
  have hline := not_mem_newline hc level
  induction members with
  | nil => exact Iff.rfl
  | cons member members ih =>
    obtain ⟨key, value⟩ := member
    obtain ⟨hvalue, hmore⟩ := List.forall_mem_cons.mp hmembers
    cases members with
    | nil =>
      rw [indentedMembers, renderMembers]
      simp only [List.mem_append, hvalue level]
    | cons next members =>
      have hrest := ih hmore
      rw [indentedMembers, renderMembers]
      · simp only [List.mem_append, List.mem_cons, List.not_mem_nil, or_false, hvalue level, hrest,
          hline, hc.2]
      · exact List.cons_ne_nil next members
      · exact List.cons_ne_nil next members

/-- The indentation only adds line feeds and spaces. -/
theorem mem_renderIndented_iff {value : Value} (hvalue : IsValue value) (level : ℕ) :
    c ∈ renderIndented level value ↔ c ∈ render value := by
  have hline := not_mem_newline hc
  induction hvalue generalizing level with
  | null => exact Iff.rfl
  | bool => exact Iff.rfl
  | int => exact Iff.rfl
  | float => exact Iff.rfl
  | str => exact Iff.rfl
  | arr _ ih =>
    rw [renderIndented, render]
    split_ifs with hempty
    · rw [List.isEmpty_iff.mp hempty]
      exact Iff.rfl
    · simp only [List.mem_append, mem_indentedItems_iff hc ih, hline, or_false]
  | obj _ _ ih =>
    rw [renderIndented, render]
    split_ifs with hempty
    · rw [List.isEmpty_iff.mp hempty]
      exact Iff.rfl
    · simp only [List.mem_append, mem_indentedMembers_iff hc ih, hline, or_false]

end SyzAbi.Library.Json

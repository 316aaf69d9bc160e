import Mathlib.Data.Finset.Card
import Mathlib.Data.List.Forall2
import Mathlib.Data.List.Nodup
import Mathlib.Data.List.TakeWhile
import Mathlib.Data.PEquiv

/-!
# Numbering values by first use

A table that hands out numbers on demand lists its keys in the order in which they were first
asked for, and the number of a key is its position in that list. `note` is one request and
`noteAll` a run of requests. The table only grows at its end (`prefix_noteAll`), so the number of
a key never changes once it is given (`idxOf_of_extends`).

Two runs are compared through a partial bijection of their values. When a partial bijection
relates the requests of two runs pointwise, it relates their tables pointwise (`forall₂_noteAll`)
and related values carry the same number (`idxOf_eq_of_forall₂`). Conversely the values that carry
the same number in two tables are related by a partial bijection, `matching`.
-/

set_option autoImplicit false
set_option relaxedAutoImplicit false

namespace SyzAbi.Library.FirstUse

variable {α β : Type*} [DecidableEq α] [DecidableEq β]

/-! ### The table of one run -/

/-- The keys after one request: a known value leaves them, a new value goes to the end. -/
def note (keys : List α) (value : α) : List α :=
  if value ∈ keys then keys else keys ++ [value]

/-- The keys after a run of requests. -/
def noteAll (keys values : List α) : List α :=
  values.foldl note keys

@[simp] theorem noteAll_nil (keys : List α) : noteAll keys [] = keys := rfl

@[simp] theorem noteAll_cons (keys : List α) (value : α) (rest : List α) :
    noteAll keys (value :: rest) = noteAll (note keys value) rest := rfl

theorem noteAll_append (keys first second : List α) :
    noteAll keys (first ++ second) = noteAll (noteAll keys first) second :=
  List.foldl_append

theorem prefix_note (keys : List α) (value : α) : keys <+: note keys value := by
  unfold note
  split_ifs
  · exact List.prefix_refl keys
  · exact List.prefix_append keys [value]

theorem mem_note (keys : List α) (value other : α) :
    other ∈ note keys value ↔ other ∈ keys ∨ other = value := by
  unfold note
  split_ifs with hknown
  · constructor
    · exact Or.inl
    · rintro (hother | rfl)
      · exact hother
      · exact hknown
  · rw [List.mem_append, List.mem_singleton]

theorem nodup_note {keys : List α} (hkeys : keys.Nodup) (value : α) : (note keys value).Nodup := by
  unfold note
  split_ifs with hknown
  · exact hkeys
  · rw [← List.concat_eq_append]
    exact hkeys.concat hknown

/-- The table of a run extends the table it started from. -/
theorem prefix_noteAll (keys values : List α) : keys <+: noteAll keys values := by
  induction values generalizing keys with
  | nil => exact List.prefix_refl keys
  | cons value rest ih => exact (prefix_note keys value).trans (ih _)

/-- The table of a run lists the keys it started from and the values of the run. -/
theorem mem_noteAll (keys values : List α) (other : α) :
    other ∈ noteAll keys values ↔ other ∈ keys ∨ other ∈ values := by
  induction values generalizing keys with
  | nil => simp
  | cons value rest ih => rw [noteAll_cons, ih, mem_note, List.mem_cons, or_assoc]

theorem noteAll_nil_eq_nil_iff (values : List α) : noteAll [] values = [] ↔ values = [] := by
  simp only [List.eq_nil_iff_forall_not_mem, mem_noteAll, List.not_mem_nil, false_or]

theorem nodup_noteAll {keys : List α} (hkeys : keys.Nodup) (values : List α) :
    (noteAll keys values).Nodup := by
  induction values generalizing keys with
  | nil => exact hkeys
  | cons value rest ih => exact ih (nodup_note hkeys value)

/-- The number of a key is the same in every later table. -/
theorem idxOf_of_extends {keys later : List α} (hextends : keys <+: later) {value : α}
    (hvalue : value ∈ keys) : later.idxOf value = keys.idxOf value := by
  obtain ⟨rest, rfl⟩ := hextends
  exact List.idxOf_append_of_mem hvalue

/-- The number of a value counts the different values before its first request. -/
theorem idxOf_noteAll {values : List α} {value : α} (hvalue : value ∈ values) :
    (noteAll [] values).idxOf value = (values.takeWhile (· ≠ value)).toFinset.card := by
  obtain ⟨after, hafter⟩ : ∃ after, values.dropWhile (· ≠ value) = value :: after := by
    induction values with
    | nil => cases hvalue
    | cons first rest ih =>
      rw [List.dropWhile_cons]
      by_cases hfirst : first = value
      · exact ⟨rest, by simp [hfirst]⟩
      · rw [if_pos (by simpa using hfirst)]
        exact ih ((List.mem_cons.mp hvalue).resolve_left (Ne.symm hfirst))
  have hfresh : value ∉ noteAll [] (values.takeWhile (· ≠ value)) := by
    rw [mem_noteAll]
    rintro (hnil | hbefore)
    · cases hnil
    · simpa using List.mem_takeWhile_imp hbefore
  have hcard : (noteAll [] (values.takeWhile (· ≠ value))).length =
      (values.takeWhile (· ≠ value)).toFinset.card := by
    rw [← List.toFinset_card_of_nodup (nodup_noteAll List.nodup_nil _)]
    refine congrArg Finset.card (Finset.ext fun other ↦ ?_)
    rw [List.mem_toFinset, List.mem_toFinset, mem_noteAll, or_iff_right List.not_mem_nil]
  have hsplit : noteAll [] values =
      noteAll (noteAll [] (values.takeWhile (· ≠ value)) ++ [value]) after := by
    conv_lhs => rw [← List.takeWhile_append_dropWhile (p := (· ≠ value)) (l := values), hafter]
    rw [noteAll_append, noteAll_cons, note, if_neg hfresh]
  rw [hsplit, idxOf_of_extends (prefix_noteAll _ _) (List.mem_append_right _ List.mem_cons_self),
    List.idxOf_append_of_notMem hfresh, List.idxOf_cons_self, Nat.add_zero, hcard]

/-! ### Two runs related by a partial bijection -/

section Related

variable {ρ : α ≃. β} {keys : List α} {keys' : List β}

omit [DecidableEq α] [DecidableEq β] in
/-- Related values are known together. -/
theorem mem_iff_of_forall₂ (hkeys : List.Forall₂ (fun x y ↦ y ∈ ρ x) keys keys') {x : α} {y : β}
    (hxy : y ∈ ρ x) : x ∈ keys ↔ y ∈ keys' := by
  induction hkeys with
  | nil => simp
  | @cons a b l l' hab _ ih =>
    have hhead : x = a ↔ y = b := by
      constructor
      · rintro rfl
        exact Option.mem_unique hxy hab
      · rintro rfl
        exact ρ.inj hxy hab
    rw [List.mem_cons, List.mem_cons, hhead, ih]

/-- Related values carry the same number in related tables. -/
theorem idxOf_eq_of_forall₂ (hkeys : List.Forall₂ (fun x y ↦ y ∈ ρ x) keys keys') {x : α} {y : β}
    (hxy : y ∈ ρ x) : keys.idxOf x = keys'.idxOf y := by
  induction hkeys with
  | nil => rfl
  | @cons a b l l' hab _ ih =>
    by_cases hxa : x = a
    · subst hxa
      have hyb : y = b := Option.mem_unique hxy hab
      rw [hyb, List.idxOf_cons_self, List.idxOf_cons_self]
    · have hyb : y ≠ b := fun h ↦ hxa (ρ.inj hxy (h ▸ hab))
      rw [List.idxOf_cons_ne _ (Ne.symm hxa), List.idxOf_cons_ne _ (Ne.symm hyb), ih]

theorem forall₂_note (hkeys : List.Forall₂ (fun x y ↦ y ∈ ρ x) keys keys') {x : α} {y : β}
    (hxy : y ∈ ρ x) : List.Forall₂ (fun x y ↦ y ∈ ρ x) (note keys x) (note keys' y) := by
  unfold note
  by_cases hknown : x ∈ keys
  · rw [if_pos hknown, if_pos ((mem_iff_of_forall₂ hkeys hxy).mp hknown)]
    exact hkeys
  · rw [if_neg hknown, if_neg fun h ↦ hknown ((mem_iff_of_forall₂ hkeys hxy).mpr h)]
    exact List.rel_append hkeys (List.Forall₂.cons hxy List.Forall₂.nil)

/-- Runs of related requests from related tables end in related tables. -/
theorem forall₂_noteAll {values : List α} {values' : List β}
    (hvalues : List.Forall₂ (fun x y ↦ y ∈ ρ x) values values') :
    ∀ {keys : List α} {keys' : List β}, List.Forall₂ (fun x y ↦ y ∈ ρ x) keys keys' →
      List.Forall₂ (fun x y ↦ y ∈ ρ x) (noteAll keys values) (noteAll keys' values') := by
  induction hvalues with
  | nil => intro keys keys' hkeys; exact hkeys
  | cons hxy _ ih => intro keys keys' hkeys; exact ih (forall₂_note hkeys hxy)

end Related

/-! ### The partial bijection of a relation -/

open Classical in
/-- The value with a property, if there is one. -/
noncomputable def valueWith {γ : Type*} (P : γ → Prop) : Option γ :=
  if h : ∃ x, P x then some h.choose else none

theorem valueWith_eq_some_iff {γ : Type*} {P : γ → Prop} (hunique : ∀ x y, P x → P y → x = y)
    (x : γ) : valueWith P = some x ↔ P x := by
  unfold valueWith
  by_cases h : ∃ x, P x
  · rw [dif_pos h, Option.some_inj]
    constructor
    · rintro rfl
      exact h.choose_spec
    · exact hunique _ _ h.choose_spec
  · rw [dif_neg h]
    exact iff_of_false (Option.some_ne_none x).symm fun hx ↦ h ⟨x, hx⟩

/-- A relation is contained in a partial bijection exactly when it is one-to-one. -/
theorem exists_pequiv_iff {γ δ : Type*} {R : γ → δ → Prop} :
    (∃ ρ : γ ≃. δ, ∀ x y, R x y → y ∈ ρ x) ↔ Relator.BiUnique R := by
  constructor
  · rintro ⟨ρ, hρ⟩
    constructor
    · intro x x' y hx hx'
      exact ρ.inj (hρ x y hx) (hρ x' y hx')
    · intro x y y' hy hy'
      exact Option.mem_unique (hρ x y hy) (hρ x y' hy')
  · rintro ⟨hleft, hright⟩
    have hforward : ∀ x y, valueWith (R x) = some y ↔ R x y := fun x ↦
      valueWith_eq_some_iff fun _ _ hy hy' ↦ hright hy hy'
    have hbackward : ∀ y x, valueWith (fun x ↦ R x y) = some x ↔ R x y := fun y ↦
      valueWith_eq_some_iff fun _ _ hx hx' ↦ hleft hx hx'
    exact ⟨⟨fun x ↦ valueWith (R x), fun y ↦ valueWith fun x ↦ R x y, fun x y ↦
      (hbackward y x).trans (hforward x y).symm⟩, fun x y ↦ (hforward x y).mpr⟩

/-! ### The partial bijection of two tables -/

/-- A key and its number in a table without repetitions determine each other. -/
theorem getElem?_idxOf_iff {keys : List β} (hkeys : keys.Nodup) (index : ℕ) (y : β) :
    keys[index]? = some y ↔ y ∈ keys ∧ keys.idxOf y = index := by
  constructor
  · intro hget
    obtain ⟨hbound, rfl⟩ := List.getElem?_eq_some_iff.mp hget
    exact ⟨List.getElem_mem hbound, hkeys.idxOf_getElem index hbound⟩
  · rintro ⟨hmem, rfl⟩
    rw [List.getElem?_eq_getElem (List.idxOf_lt_length_of_mem hmem), List.getElem_idxOf]

/-- The partial bijection that relates the values with the same number in two tables. -/
def matching (keys : List α) (keys' : List β) (hkeys : keys.Nodup) (hkeys' : keys'.Nodup) :
    α ≃. β where
  toFun x := if x ∈ keys then keys'[keys.idxOf x]? else none
  invFun y := if y ∈ keys' then keys[keys'.idxOf y]? else none
  inv x y := by
    simp only [Option.ite_none_right_eq_some, getElem?_idxOf_iff hkeys,
      getElem?_idxOf_iff hkeys']
    constructor
    · rintro ⟨hy, hx, hindex⟩
      exact ⟨hx, hy, hindex.symm⟩
    · rintro ⟨hx, hy, hindex⟩
      exact ⟨hy, hx, hindex.symm⟩

/-- `matching` relates exactly the keys that carry the same number. -/
theorem mem_matching {keys : List α} {keys' : List β} (hkeys : keys.Nodup) (hkeys' : keys'.Nodup)
    (x : α) (y : β) : y ∈ matching keys keys' hkeys hkeys' x ↔
      x ∈ keys ∧ y ∈ keys' ∧ keys.idxOf x = keys'.idxOf y := by
  change (if x ∈ keys then keys'[keys.idxOf x]? else none) = some y ↔ _
  rw [Option.ite_none_right_eq_some, getElem?_idxOf_iff hkeys']
  constructor
  · rintro ⟨hx, hy, hindex⟩
    exact ⟨hx, hy, hindex.symm⟩
  · rintro ⟨hx, hy, hindex⟩
    exact ⟨hx, hy, hindex.symm⟩

end SyzAbi.Library.FirstUse

import Mathlib.Data.List.Forall2
import Mathlib.Data.List.Sort

/-!
# Rows of a loop

A loop makes a result of every item, and tables are made of the rows that some of the results have.
A row carries the key of its item, so different items have rows with different keys
(`sublist_keys`), and a table of them that is sorted by key is sorted strictly
(`pairwise_lt_insertionSort`). A loop whose results are rows of one table or of another loses no
item (`length_getLeft_add_length_getRight`).
-/

set_option autoImplicit false
set_option relaxedAutoImplicit false

namespace SyzAbi.Library.LoopRows

variable {α β γ δ κ : Type*}

/-- The keys of the rows stand among the keys of the items, in their order. -/
theorem sublist_keys {makes : α → β → Prop} {rowOf : β → Option γ} {key : α → κ} {rowKey : γ → κ}
    {items : List α} {results : List β} (hloop : List.Forall₂ makes items results)
    (hkey : ∀ item result row, makes item result → rowOf result = some row →
      rowKey row = key item) :
    ((results.filterMap rowOf).map rowKey).Sublist (items.map key) := by
  induction hloop with
  | nil => exact List.Sublist.refl []
  | @cons item result items results hfirst hrest ih =>
    rw [List.map_cons]
    cases hrow : rowOf result with
    | none =>
      rw [List.filterMap_cons_none hrow]
      exact ih.cons (key item)
    | some row =>
      rw [List.filterMap_cons_some hrow, List.map_cons, hkey item result row hfirst hrow]
      exact ih.cons_cons (key item)

/-- Two loops over the same items make rows with the same keys. -/
theorem map_eq_map {makes : α → β → Prop} {makesOther : α → γ → Prop} {rowKey : β → κ}
    {otherKey : γ → κ} {items : List α} {rows : List β} {others : List γ}
    (hrows : List.Forall₂ makes items rows) (hothers : List.Forall₂ makesOther items others)
    (hkey : ∀ item row other, makes item row → makesOther item other →
      rowKey row = otherKey other) : rows.map rowKey = others.map otherKey := by
  induction hrows generalizing others with
  | nil =>
    cases hothers
    rfl
  | cons hrow _ ih =>
    cases hothers with
    | cons hother hrest => rw [List.map_cons, List.map_cons, hkey _ _ _ hrow hother, ih hrest]

/-- Rows that carry the keys of their items have the keys of the items. -/
theorem map_keys_eq {makes : α → β → Prop} {rowKey : β → κ} {key : α → κ} {items : List α}
    {rows : List β} (hrows : List.Forall₂ makes items rows)
    (hkey : ∀ item row, makes item row → rowKey row = key item) :
    rows.map rowKey = items.map key :=
  map_eq_map hrows (List.forall₂_same.mpr fun item _ ↦ rfl) fun item row other hrow hother ↦ by
    rw [hkey item row hrow, hother]

/-- Rows with different keys are sorted strictly. -/
theorem pairwise_lt_insertionSort [LinearOrder κ] {rowKey : γ → κ} {rows : List γ}
    (hrows : (rows.map rowKey).Nodup) :
    (rows.insertionSort fun row other ↦ rowKey row ≤ rowKey other).Pairwise
      fun row next ↦ rowKey row < rowKey next := by
  have hkeys : ((rows.insertionSort fun row other ↦ rowKey row ≤ rowKey other).map rowKey).Nodup :=
    ((List.perm_insertionSort _ rows).map rowKey).nodup_iff.mpr hrows
  have hle : (rows.insertionSort fun row other ↦ rowKey row ≤ rowKey other).Pairwise
      fun row next ↦ rowKey row ≤ rowKey next :=
    @List.pairwise_insertionSort _ (fun row other ↦ rowKey row ≤ rowKey other) _
      ⟨fun row other ↦ le_total (rowKey row) (rowKey other)⟩ ⟨fun _ _ _ ↦ le_trans⟩ rows
  exact hle.imp₂ (fun row next hle hne ↦ lt_of_le_of_ne hle hne) (List.pairwise_map.mp hkeys)

/-- Every result is a row of the left or of the right table. -/
theorem length_getLeft_add_length_getRight (results : List (γ ⊕ δ)) :
    (results.filterMap Sum.getLeft?).length + (results.filterMap Sum.getRight?).length =
      results.length := by
  induction results with
  | nil => rfl
  | cons result rest ih =>
    cases result with
    | inl row =>
      rw [List.filterMap_cons_some (show (Sum.inl row).getLeft? = some row from rfl),
        List.filterMap_cons_none (show (Sum.inl row).getRight? = none from rfl), List.length_cons,
        List.length_cons, Nat.add_right_comm, ih]
    | inr row =>
      rw [List.filterMap_cons_none (show (Sum.inr row).getLeft? = none from rfl),
        List.filterMap_cons_some (show (Sum.inr row).getRight? = some row from rfl),
        List.length_cons, List.length_cons, ← Nat.add_assoc, ih]

end SyzAbi.Library.LoopRows

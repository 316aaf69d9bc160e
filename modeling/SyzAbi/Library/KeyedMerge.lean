import Mathlib.Data.List.Dedup
import Mathlib.Data.List.Perm.Basic
import Mathlib.Data.List.Sort
import SyzAbi.Library.FirstUse

/-!
# Merging rows by key

Rows that share a key become one row: the first is entered, and each later one is combined into it.
A `Merging` says how, and which part of the entered row no later row changes (`kept`). The merge
lists the entered rows by key.

What a table holds under a key is a fold of the rows with that key (`lookup_enterAll`), so two
merges are equal when these folds are (`merge_eq_iff`). A merge does not depend on the order of its
rows exactly when rows of one key agree on what is kept (`merge_perm_iff`). When the rows come in
pieces that were merged before, it does not depend on the order of the pieces exactly when the first
rows of one key in any two pieces agree on it (`mergePieces_perm_iff`). When combining absorbs what
was combined before, merging the pieces first changes nothing at all (`mergePieces_eq`).
-/

set_option autoImplicit false
set_option relaxedAutoImplicit false

namespace SyzAbi.Library.KeyedMerge

open Library.FirstUse

/-! ### Sorted sets -/

section SortedSet

variable {α : Type*} [LinearOrder α]

/-- The different items of a list in their order. -/
def sortedSet (items : List α) : List α := items.dedup.insertionSort (· ≤ ·)

@[simp] theorem mem_sortedSet {items : List α} {item : α} :
    item ∈ sortedSet items ↔ item ∈ items := by
  rw [sortedSet, List.mem_insertionSort, List.mem_dedup]

theorem nodup_sortedSet (items : List α) : (sortedSet items).Nodup :=
  (List.perm_insertionSort _ _).nodup_iff.mpr (List.nodup_dedup items)

/-- Lists with the same members are the same set. -/
theorem sortedSet_congr {items other : List α} (hmem : ∀ item, item ∈ items ↔ item ∈ other) :
    sortedSet items = sortedSet other := by
  have hperm : (sortedSet items).Perm (sortedSet other) :=
    (List.perm_ext_iff_of_nodup (nodup_sortedSet items) (nodup_sortedSet other)).mpr fun item ↦ by
      rw [mem_sortedSet, mem_sortedSet, hmem]
  exact hperm.eq_of_pairwise (fun a b _ _ hab hba ↦ le_antisymm hab hba)
    (List.pairwise_insertionSort _ _) (List.pairwise_insertionSort _ _)

end SortedSet

/-! ### Tables -/

/-- How rows of one key become one row. -/
structure Merging (ρ κ α : Type*) where
  key : ρ → κ
  /-- The part of a row that combining leaves alone. -/
  kept : ρ → α
  /-- The first row of its key as it is entered. -/
  first : ρ → ρ
  /-- The entered row after a later row of its key. -/
  combine : ρ → ρ → ρ
  key_first : ∀ row, key (first row) = key row
  key_combine : ∀ entered row, key (combine entered row) = key entered
  kept_first : ∀ row, kept (first row) = kept row
  kept_combine : ∀ entered row, kept (combine entered row) = kept entered
  combine_right_comm : ∀ entered row other,
    combine (combine entered row) other = combine (combine entered other) row
  combine_first_comm : ∀ row other, key row = key other → kept row = kept other →
    combine (first row) other = combine (first other) row

variable {ρ κ α ι : Type*} [DecidableEq κ] (m : Merging ρ κ α)

/-- Enter a row in a table. -/
def enter (table : List ρ) (row : ρ) : List ρ :=
  if m.key row ∈ table.map m.key then
    table.map fun entered ↦ if m.key entered = m.key row then m.combine entered row else entered
  else table ++ [m.first row]

/-- Enter rows in an empty table. -/
def enterAll (rows : List ρ) : List ρ := rows.foldl (enter m) []

/-- What a table holds under a key. -/
def lookup (table : List ρ) (k : κ) : Option ρ := table.find? fun row ↦ m.key row = k

/-- What is held under a key after one more row with it. -/
def extend (held : Option ρ) (row : ρ) : Option ρ :=
  some (held.elim (m.first row) fun entered ↦ m.combine entered row)

/-- The row that the rows with one key become. -/
def group (rows : List ρ) (k : κ) : Option ρ :=
  (rows.filter fun row ↦ m.key row = k).foldl (extend m) none

variable {m}

theorem map_key_enter (table : List ρ) (row : ρ) :
    (enter m table row).map m.key = note (table.map m.key) (m.key row) := by
  unfold enter note
  split_ifs with hknown
  · rw [List.map_map]
    refine List.map_congr_left fun entered _ ↦ ?_
    rw [Function.comp_apply]
    split_ifs
    · exact m.key_combine entered row
    · rfl
  · rw [List.map_append, List.map_singleton, m.key_first]

/-- No two rows of a table have the same key. -/
theorem nodup_map_key_enterAll (rows : List ρ) : ((enterAll m rows).map m.key).Nodup := by
  have hkeys : ∀ table : List ρ, (rows.foldl (enter m) table).map m.key =
      noteAll (table.map m.key) (rows.map m.key) := by
    induction rows with
    | nil => exact fun table ↦ rfl
    | cons row rest ih =>
      intro table
      rw [List.foldl_cons, ih, map_key_enter, List.map_cons, noteAll_cons]
  rw [enterAll, hkeys]
  exact nodup_noteAll List.nodup_nil _

theorem lookup_eq_none_iff {table : List ρ} {k : κ} :
    lookup m table k = none ↔ k ∉ table.map m.key := by
  simp only [lookup, List.find?_eq_none, decide_eq_true_eq, List.mem_map, not_exists, not_and]

theorem mem_of_lookup {table : List ρ} {k : κ} {row : ρ} (h : lookup m table k = some row) :
    row ∈ table ∧ m.key row = k := by
  refine ⟨List.mem_of_find?_eq_some h, ?_⟩
  simpa using List.find?_some h

/-- A table whose keys differ holds each of its rows under its key. -/
theorem lookup_eq_some_iff {table : List ρ} (hkeys : (table.map m.key).Nodup) {row : ρ} :
    lookup m table (m.key row) = some row ↔ row ∈ table := by
  constructor
  · exact fun h ↦ (mem_of_lookup h).1
  · intro hrow
    cases hheld : lookup m table (m.key row) with
    | none => exact absurd (List.mem_map_of_mem hrow) (lookup_eq_none_iff.mp hheld)
    | some held =>
      obtain ⟨hmem, hkey⟩ := mem_of_lookup hheld
      rw [List.inj_on_of_nodup_map hkeys hmem hrow hkey]

/-- A row changes what the table holds under its key, and nothing else. -/
theorem lookup_enter (table : List ρ) (row : ρ) (k : κ) :
    lookup m (enter m table row) k =
      if m.key row = k then extend m (lookup m table k) row else lookup m table k := by
  unfold enter
  by_cases hknown : m.key row ∈ table.map m.key
  · rw [if_pos hknown, lookup, List.find?_map]
    have hsame : (fun entered ↦ decide (m.key entered = k)) ∘
        (fun entered ↦ if m.key entered = m.key row then m.combine entered row else entered) =
          fun entered ↦ decide (m.key entered = k) := by
      funext entered
      rw [Function.comp_apply]
      split_ifs
      · rw [m.key_combine]
      · rfl
    rw [hsame, ← lookup]
    cases hheld : lookup m table k with
    | none =>
      have hne : m.key row ≠ k := by
        rintro rfl
        exact lookup_eq_none_iff.mp hheld hknown
      rw [if_neg hne, Option.map_none]
    | some held =>
      rw [Option.map_some, (mem_of_lookup hheld).2]
      by_cases hkey : m.key row = k
      · rw [if_pos hkey.symm, if_pos hkey]
        rfl
      · rw [if_neg (Ne.symm hkey), if_neg hkey]
  · rw [if_neg hknown, lookup, List.find?_append, ← lookup, List.find?_singleton, m.key_first]
    by_cases hkey : m.key row = k
    · have hnone : lookup m table k = none := lookup_eq_none_iff.mpr (hkey ▸ hknown)
      rw [if_pos hkey, hnone, if_pos (decide_eq_true hkey)]
      rfl
    · rw [if_neg hkey, if_neg (by simpa using hkey), Option.or_none]

/-- A table holds under a key what the rows with that key become. -/
theorem lookup_enterAll (rows : List ρ) (k : κ) :
    lookup m (enterAll m rows) k = group m rows k := by
  have hfold : ∀ table : List ρ, lookup m (rows.foldl (enter m) table) k =
      (rows.filter fun row ↦ m.key row = k).foldl (extend m) (lookup m table k) := by
    induction rows with
    | nil => exact fun table ↦ rfl
    | cons row rest ih =>
      intro table
      rw [List.foldl_cons, ih, lookup_enter, List.filter_cons]
      by_cases hkey : m.key row = k
      · rw [if_pos hkey, if_pos (by simpa using hkey), List.foldl_cons]
      · rw [if_neg hkey, if_neg (by simpa using hkey)]
  exact hfold []

/-! ### Merges -/

/-- The kept part of a merged row is that of the first row of its key. -/
theorem map_kept_group (rows : List ρ) (k : κ) :
    (group m rows k).map m.kept = (lookup m rows k).map m.kept := by
  have hfold : ∀ (later : List ρ) (held : ρ),
      (later.foldl (extend m) (some held)).map m.kept = some (m.kept held) := by
    intro later
    induction later with
    | nil => exact fun held ↦ rfl
    | cons row rest ih =>
      intro held
      rw [List.foldl_cons, extend, Option.elim_some, ih, m.kept_combine]
  rw [group, lookup, ← List.head?_filter]
  cases rows.filter fun row ↦ decide (m.key row = k) with
  | nil => rfl
  | cons row rest =>
    rw [List.foldl_cons, extend, Option.elim_none, hfold, m.kept_first, List.head?_cons,
      Option.map_some]

/-- Rows of one key agree on what is kept. -/
def KeptAgree (m : Merging ρ κ α) (rows : List ρ) : Prop :=
  ∀ row ∈ rows, ∀ other ∈ rows, m.key row = m.key other → m.kept row = m.kept other

/-- The order of rows that agree does not change what they become. -/
theorem group_of_perm {rows other : List ρ} (hperm : rows.Perm other) (hagree : KeptAgree m rows)
    (k : κ) : group m rows k = group m other k := by
  refine (hperm.filter _).foldl_eq' (fun row hrow next hnext held ↦ ?_) none
  rw [List.mem_filter, decide_eq_true_iff] at hrow hnext
  cases held with
  | none =>
    have hkey : m.key row = m.key next := hrow.2.trans hnext.2.symm
    exact congrArg some (m.combine_first_comm row next hkey (hagree row hrow.1 next hnext.1 hkey))
  | some entered => exact congrArg some (m.combine_right_comm entered row next)

/-- Merging rows that were merged before loses nothing: what a merged row brings to an entered one
is what its rows bring one after the other. -/
structure Merging.Absorbs (m : Merging ρ κ α) : Prop where
  first_first : ∀ row, m.first (m.first row) = m.first row
  first_combine : ∀ entered row, m.first (m.combine entered row) = m.combine (m.first entered) row
  combine_first : ∀ entered row, m.combine entered (m.first row) = m.combine entered row
  combine_combine : ∀ entered other row,
    m.combine entered (m.combine other row) = m.combine (m.combine entered other) row

omit [DecidableEq κ] in
/-- A merged row brings what its rows bring. -/
theorem Merging.Absorbs.foldl_toList (habsorbs : m.Absorbs) (rows : List ρ) (held : Option ρ) :
    (rows.foldl (extend m) none).toList.foldl (extend m) held = rows.foldl (extend m) held := by
  induction rows using List.reverseRecOn with
  | nil => rfl
  | append_singleton rows row ih =>
    rw [List.foldl_concat, List.foldl_concat, ← ih]
    cases rows.foldl (extend m) none with
    | none =>
      cases held with
      | none => exact congrArg some (habsorbs.first_first row)
      | some entered => exact congrArg some (habsorbs.combine_first entered row)
    | some other =>
      cases held with
      | none => exact congrArg some (habsorbs.first_combine other row)
      | some entered => exact congrArg some (habsorbs.combine_combine entered other row)

variable {κ : Type*} [LinearOrder κ] {m : Merging ρ κ α}

/-- Merge rows, and list the merged rows by key. -/
def merge (m : Merging ρ κ α) (rows : List ρ) : List ρ :=
  (enterAll m rows).insertionSort fun row other ↦ m.key row ≤ m.key other

theorem merge_perm_enterAll (rows : List ρ) : (merge m rows).Perm (enterAll m rows) :=
  List.perm_insertionSort _ _

theorem nodup_map_key_merge (rows : List ρ) : ((merge m rows).map m.key).Nodup :=
  ((merge_perm_enterAll rows).map m.key).nodup_iff.mpr (nodup_map_key_enterAll rows)

theorem lookup_merge (rows : List ρ) (k : κ) : lookup m (merge m rows) k = group m rows k := by
  rw [← lookup_enterAll]
  have hmem : ∀ row, lookup m (merge m rows) k = some row ↔
      lookup m (enterAll m rows) k = some row := by
    intro row
    have hiff : row ∈ merge m rows ↔ row ∈ enterAll m rows := (merge_perm_enterAll rows).mem_iff
    constructor
    · intro h
      obtain ⟨hrow, rfl⟩ := mem_of_lookup h
      exact (lookup_eq_some_iff (nodup_map_key_enterAll rows)).mpr (hiff.mp hrow)
    · intro h
      obtain ⟨hrow, rfl⟩ := mem_of_lookup h
      exact (lookup_eq_some_iff (nodup_map_key_merge rows)).mpr (hiff.mpr hrow)
  exact Option.ext hmem

/-- A merged row is what the rows of its key become. -/
theorem group_of_mem_merge {rows : List ρ} {row : ρ} (hrow : row ∈ merge m rows) :
    group m rows (m.key row) = some row := by
  rw [← lookup_merge]
  exact (lookup_eq_some_iff (nodup_map_key_merge rows)).mpr hrow

/-- Merges are equal when the rows of every key become the same row. -/
theorem merge_eq_iff {rows other : List ρ} :
    merge m rows = merge m other ↔ ∀ k, group m rows k = group m other k := by
  constructor
  · intro h k
    rw [← lookup_merge, h, lookup_merge]
  · intro h
    have hmem : ∀ row, row ∈ merge m rows ↔ row ∈ merge m other := by
      intro row
      rw [← lookup_eq_some_iff (nodup_map_key_merge rows),
        ← lookup_eq_some_iff (nodup_map_key_merge other), lookup_merge, lookup_merge, h]
    have hnodup : ∀ rows : List ρ, (merge m rows).Nodup := fun rows ↦
      (nodup_map_key_merge rows).of_map m.key
    have hperm : (merge m rows).Perm (merge m other) :=
      (List.perm_ext_iff_of_nodup (hnodup rows) (hnodup other)).mpr hmem
    have htotal : Std.Total fun row other : ρ ↦ m.key row ≤ m.key other :=
      ⟨fun row other ↦ le_total (m.key row) (m.key other)⟩
    have htrans : IsTrans ρ fun row other ↦ m.key row ≤ m.key other := ⟨fun _ _ _ ↦ le_trans⟩
    refine hperm.eq_of_pairwise (fun a b ha hb hab hba ↦ ?_) (List.pairwise_insertionSort _ _)
      (List.pairwise_insertionSort _ _)
    exact List.inj_on_of_nodup_map (nodup_map_key_merge rows) ha ((hmem b).mpr hb)
      (le_antisymm hab hba)

/-- What merges that are equal keep under a key. -/
theorem kept_eq_of_merge_eq {rows other : List ρ} (h : merge m rows = merge m other) {k : κ}
    {row next : ρ} (hrow : lookup m rows k = some row) (hnext : lookup m other k = some next) :
    m.kept row = m.kept next := by
  have hkept := congrArg (Option.map m.kept) (merge_eq_iff.mp h k)
  rw [map_kept_group, map_kept_group, hrow, hnext] at hkept
  exact Option.some_inj.mp hkept

theorem lookup_cons_self (row : ρ) (rows : List ρ) :
    lookup m (row :: rows) (m.key row) = some row :=
  List.find?_cons_of_pos (decide_eq_true rfl)

/-- The order of the rows has no influence exactly when rows of one key agree on what is kept. -/
theorem merge_perm_iff (rows : List ρ) :
    (∀ other : List ρ, other.Perm rows → merge m other = merge m rows) ↔ KeptAgree m rows := by
  classical
  constructor
  · intro h row hrow other hother hkey
    have hsame : merge m (row :: rows.erase row) = merge m (other :: rows.erase other) :=
      (h _ (List.perm_cons_erase hrow).symm).trans (h _ (List.perm_cons_erase hother).symm).symm
    exact kept_eq_of_merge_eq hsame (lookup_cons_self row _) (hkey ▸ lookup_cons_self other _)
  · intro hagree other hperm
    exact (merge_eq_iff.mpr (group_of_perm hperm.symm hagree)).symm

/-! ### Pieces -/

/-- The first rows of one key in any two pieces agree on what is kept. -/
def FirstsAgree (m : Merging ρ κ α) (pieces : List (List ρ)) : Prop :=
  ∀ piece ∈ pieces, ∀ other ∈ pieces, ∀ k row next, lookup m piece k = some row →
    lookup m other k = some next → m.kept row = m.kept next

/-- Pieces are merged on their own first. -/
def mergePieces (m : Merging ρ κ α) (pieces : List (List ρ)) : List ρ :=
  merge m (pieces.flatMap (merge m))

theorem exists_lookup_of_mem_merge {rows : List ρ} {row : ρ} (hrow : row ∈ merge m rows) :
    ∃ origin, lookup m rows (m.key row) = some origin ∧ m.kept row = m.kept origin := by
  have hheld := group_of_mem_merge hrow
  have hkept := map_kept_group (m := m) rows (m.key row)
  rw [hheld, Option.map_some] at hkept
  obtain ⟨origin, horigin, hsame⟩ := Option.map_eq_some_iff.mp hkept.symm
  exact ⟨origin, horigin, hsame.symm⟩

theorem exists_lookup_merge {rows : List ρ} {k : κ} {row : ρ} (hrow : lookup m rows k = some row) :
    ∃ merged, lookup m (merge m rows) k = some merged ∧ m.kept merged = m.kept row := by
  have hkept := map_kept_group (m := m) rows k
  rw [hrow, Option.map_some, ← lookup_merge] at hkept
  exact Option.map_eq_some_iff.mp hkept

/-- The order of the pieces has no influence exactly when their first rows agree. -/
theorem mergePieces_perm_iff (items : List ι) (piece : ι → List ρ) :
    (∀ other : List ι, other.Perm items →
        mergePieces m (other.map piece) = mergePieces m (items.map piece)) ↔
      FirstsAgree m (items.map piece) := by
  classical
  constructor
  · intro h first hfirst second hsecond k row next hrow hnext
    obtain ⟨item, hitem, rfl⟩ := List.mem_map.mp hfirst
    obtain ⟨item', hitem', rfl⟩ := List.mem_map.mp hsecond
    obtain ⟨merged, hmerged, hkept⟩ := exists_lookup_merge hrow
    obtain ⟨merged', hmerged', hkept'⟩ := exists_lookup_merge hnext
    have hsame : mergePieces m ((item :: items.erase item).map piece) =
        mergePieces m ((item' :: items.erase item').map piece) :=
      (h _ (List.perm_cons_erase hitem).symm).trans (h _ (List.perm_cons_erase hitem').symm).symm
    have hlookup : ∀ (item : ι) (rest : List ι) (row : ρ),
        lookup m (merge m (piece item)) k = some row →
          lookup m (((item :: rest).map piece).flatMap (merge m)) k = some row := by
      intro item rest row hheld
      rw [List.map_cons, List.flatMap_cons, lookup, List.find?_append, ← lookup, hheld,
        Option.some_or]
    rw [← hkept, ← hkept']
    exact kept_eq_of_merge_eq hsame (hlookup _ _ _ hmerged) (hlookup _ _ _ hmerged')
  · intro hagree other hperm
    have hpieces : (other.map piece).Perm (items.map piece) := hperm.map piece
    have hrows : KeptAgree m ((other.map piece).flatMap (merge m)) := by
      intro row hrow next hnext hkey
      obtain ⟨first, hfirst, hrow⟩ := List.mem_flatMap.mp hrow
      obtain ⟨second, hsecond, hnext⟩ := List.mem_flatMap.mp hnext
      obtain ⟨origin, horigin, hkept⟩ := exists_lookup_of_mem_merge hrow
      obtain ⟨origin', horigin', hkept'⟩ := exists_lookup_of_mem_merge hnext
      rw [hkept, hkept']
      exact hagree first (hpieces.mem_iff.mp hfirst) second (hpieces.mem_iff.mp hsecond) _ origin
        origin' horigin (hkey ▸ horigin')
    exact merge_eq_iff.mpr (group_of_perm (hpieces.flatMap_right _) hrows)

/-! ### Pieces that are merged twice -/

theorem pairwise_key_merge (rows : List ρ) : ((merge m rows).map m.key).Pairwise (· < ·) := by
  have htotal : Std.Total fun row other : ρ ↦ m.key row ≤ m.key other :=
    ⟨fun row other ↦ le_total (m.key row) (m.key other)⟩
  have htrans : IsTrans ρ fun row other ↦ m.key row ≤ m.key other := ⟨fun _ _ _ ↦ le_trans⟩
  have hsorted : ((merge m rows).map m.key).Pairwise (· ≤ ·) :=
    List.pairwise_map.mpr (List.pairwise_insertionSort _ _)
  exact hsorted.imp₂ (fun _ _ hle hne ↦ lt_of_le_of_ne hle hne) (nodup_map_key_merge rows)

/-- The keys of a merge are the keys of its rows. -/
theorem mem_map_key_merge {rows : List ρ} {k : κ} :
    k ∈ (merge m rows).map m.key ↔ k ∈ rows.map m.key := by
  have hkept := map_kept_group (m := m) rows k
  rw [← lookup_merge] at hkept
  rw [← not_iff_not, ← lookup_eq_none_iff, ← lookup_eq_none_iff, ← Option.map_eq_none_iff, hkept,
    Option.map_eq_none_iff]

/-- Among merged rows there is one with a key at most. -/
theorem filter_merge (rows : List ρ) (k : κ) :
    ((merge m rows).filter fun row ↦ m.key row = k) = (group m rows k).toList := by
  rw [← lookup_merge]
  have hkeys := nodup_map_key_merge (m := m) rows
  generalize merge m rows = table at hkeys
  induction table with
  | nil => rfl
  | cons row rest ih =>
    rw [List.map_cons, List.nodup_cons] at hkeys
    rw [List.filter_cons, lookup, List.find?_cons]
    by_cases hkey : m.key row = k
    · have hnone : lookup m rest k = none := lookup_eq_none_iff.mpr (hkey ▸ hkeys.1)
      rw [if_pos (decide_eq_true hkey), ih hkeys.2, hnone, decide_eq_true hkey]
      rfl
    · rw [if_neg (by simpa using hkey), ih hkeys.2, decide_eq_false hkey]
      rfl

/-- Merging the pieces on their own first changes nothing. -/
theorem Merging.Absorbs.mergePieces_eq (habsorbs : m.Absorbs) (pieces : List (List ρ)) :
    mergePieces m pieces = merge m pieces.flatten := by
  refine merge_eq_iff.mpr fun k ↦ ?_
  have hfold : ∀ held : Option ρ,
      ((pieces.flatMap (merge m)).filter fun row ↦ m.key row = k).foldl (extend m) held =
        (pieces.flatten.filter fun row ↦ m.key row = k).foldl (extend m) held := by
    induction pieces with
    | nil => exact fun held ↦ rfl
    | cons piece pieces ih =>
      intro held
      rw [List.flatMap_cons, List.flatten_cons, List.filter_append, List.filter_append,
        List.foldl_append, List.foldl_append, ih, filter_merge, group, habsorbs.foldl_toList]
  exact hfold none

end SyzAbi.Library.KeyedMerge

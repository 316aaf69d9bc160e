import SyzAbi.Library.KeyedMerge

/-!
# Lists under keys

A table has a list under each of its keys, and the keys in the order in which they came
(`collections.defaultdict(list)`). The rows of a table that is sorted by key, each with its
different values in the order of their first use, are the groups of what was put in
(`map_unique_sortedItems`). Grouping what was grouped piece by piece is grouping all of it once,
however often a piece comes at its place (`grouped_flatMap_grouped`).
-/

set_option autoImplicit false
set_option relaxedAutoImplicit false

namespace SyzAbi.Library.GroupedLists

open Library.FirstUse Library.KeyedMerge

variable {κ α : Type*}

section Tables

variable [DecidableEq κ]

/-- `table[k].extend(values)`. -/
def extend : List (κ × List α) → κ → List α → List (κ × List α)
  | [], k, values => [(k, values)]
  | (j, known) :: rest, k, values =>
    if j = k then (j, known ++ values) :: rest else (j, known) :: extend rest k values

/-- Put rows in an empty table. -/
def extendAll (rows : List (κ × List α)) : List (κ × List α) :=
  rows.foldl (fun table row ↦ extend table row.1 row.2) []

/-- `table.get(k, [])`. -/
def held : List (κ × List α) → κ → List α
  | [], _ => []
  | (j, known) :: rest, k => if j = k then known else held rest k

/-- All values that rows have under a key. -/
def gathered (rows : List (κ × List α)) (k : κ) : List α :=
  (rows.filter fun row ↦ row.1 = k).flatMap Prod.snd

theorem map_fst_extend (table : List (κ × List α)) (k : κ) (values : List α) :
    (extend table k values).map Prod.fst = note (table.map Prod.fst) k := by
  induction table with
  | nil => rfl
  | cons row rest ih =>
    obtain ⟨j, known⟩ := row
    rw [extend]
    by_cases hkey : j = k
    · rw [if_pos hkey, note, if_pos (by rw [hkey, List.map_cons]; exact List.mem_cons_self)]
      rfl
    · rw [if_neg hkey, List.map_cons, ih, List.map_cons]
      unfold note
      simp only [List.mem_cons, or_iff_right (Ne.symm hkey)]
      split_ifs
      · rfl
      · rfl

theorem held_extend (table : List (κ × List α)) (j k : κ) (values : List α) :
    held (extend table j values) k = held table k ++ if j = k then values else [] := by
  induction table with
  | nil =>
    rw [extend, held, held, held, List.nil_append]
  | cons row rest ih =>
    obtain ⟨i, known⟩ := row
    rw [extend]
    by_cases hfound : i = j
    · rw [if_pos hfound, held, held, ← hfound]
      split_ifs
      · rfl
      · exact (List.append_nil _).symm
    · rw [if_neg hfound, held, held, ih]
      by_cases hkey : i = k
      · rw [if_pos hkey, if_pos hkey, if_neg fun hjk ↦ hfound (hkey.trans hjk.symm),
          List.append_nil]
      · rw [if_neg hkey, if_neg hkey]

theorem extendAll_append_singleton (rows : List (κ × List α)) (k : κ) (values : List α) :
    extendAll (rows ++ [(k, values)]) = extend (extendAll rows) k values := by
  rw [extendAll, List.foldl_append]
  rfl

theorem map_fst_extendAll (rows : List (κ × List α)) :
    (extendAll rows).map Prod.fst = noteAll [] (rows.map Prod.fst) := by
  induction rows using List.reverseRecOn with
  | nil => rfl
  | append_singleton rows row ih =>
    rw [extendAll_append_singleton, map_fst_extend, ih, List.map_append, noteAll_append]
    rfl

theorem gathered_append (first second : List (κ × List α)) (k : κ) :
    gathered (first ++ second) k = gathered first k ++ gathered second k := by
  rw [gathered, List.filter_append, List.flatMap_append]
  rfl

/-- A table has under a key all values that were put there. -/
theorem held_extendAll (rows : List (κ × List α)) (k : κ) :
    held (extendAll rows) k = gathered rows k := by
  induction rows using List.reverseRecOn with
  | nil => rfl
  | append_singleton rows row ih =>
    rw [extendAll_append_singleton, held_extend, ih, gathered_append]
    by_cases hkey : row.1 = k
    · rw [if_pos hkey, gathered, gathered, List.filter_cons_of_pos (by simpa using hkey)]
      exact congrArg _ (List.append_nil _).symm
    · rw [if_neg hkey, gathered, gathered, List.filter_cons_of_neg (by simpa using hkey)]
      rfl

/-- One value for each of some keys. -/
theorem held_foldl_extend (keys : List κ) (value : α) (table : List (κ × List α)) (k : κ) :
    held (keys.foldl (fun table key ↦ extend table key [value]) table) k =
      held table k ++ List.replicate (keys.countP (· = k)) value := by
  induction keys generalizing table with
  | nil => exact (List.append_nil _).symm
  | cons key keys ih =>
    rw [List.foldl_cons, ih, held_extend, List.append_assoc, List.countP_cons]
    by_cases hkey : key = k
    · rw [if_pos hkey, if_pos (by simpa using hkey), List.replicate_succ]
      rfl
    · rw [if_neg hkey, if_neg (by simpa using hkey)]
      rfl

/-- A table is the lists under its keys. -/
theorem map_held_eq_self {table : List (κ × List α)} (hkeys : (table.map Prod.fst).Nodup) :
    ((table.map Prod.fst).map fun k ↦ (k, held table k)) = table := by
  induction table with
  | nil => rfl
  | cons row rest ih =>
    obtain ⟨j, known⟩ := row
    rw [List.map_cons, List.nodup_cons] at hkeys
    have hrest : ((rest.map Prod.fst).map fun k ↦ (k, held ((j, known) :: rest) k)) = rest := by
      conv_rhs => rw [← ih hkeys.2]
      refine List.map_congr_left fun k hk ↦ ?_
      have hne : j ≠ k := by
        rintro rfl
        exact hkeys.1 hk
      rw [held, if_neg hne]
    rw [List.map_cons, List.map_cons, hrest, held, if_pos rfl]

theorem gathered_eq_nil {rows : List (κ × List α)} {k : κ} (hk : k ∉ rows.map Prod.fst) :
    gathered rows k = [] := by
  have hnone : (rows.filter fun row ↦ row.1 = k) = [] := by
    rw [List.filter_eq_nil_iff]
    intro row hrow hkey
    exact hk (List.mem_map.mpr ⟨row, hrow, by simpa using hkey⟩)
  rw [gathered, hnone, List.flatMap_nil]

/-- The values under a key of rows that have the different keys of a list. -/
theorem gathered_map {keys : List κ} (hkeys : keys.Nodup) (values : κ → List α) (k : κ) :
    gathered (keys.map fun j ↦ (j, values j)) k = if k ∈ keys then values k else [] := by
  induction keys with
  | nil => rfl
  | cons j keys ih =>
    rw [List.nodup_cons] at hkeys
    have hsplit : gathered ((j :: keys).map fun i ↦ (i, values i)) k =
        gathered [(j, values j)] k ++ gathered (keys.map fun i ↦ (i, values i)) k :=
      gathered_append [(j, values j)] _ k
    rw [hsplit, ih hkeys.2, gathered]
    by_cases hkey : j = k
    · subst hkey
      rw [List.filter_cons_of_pos (by simp), if_neg hkeys.1, if_pos List.mem_cons_self,
        List.append_nil]
      exact List.append_nil _
    · rw [List.filter_cons_of_neg (by simpa using hkey)]
      simp only [List.mem_cons, or_iff_right (Ne.symm hkey)]
      rfl

end Tables

/-! ### Groups -/

/-- The different values in the order of their first use. -/
def unique [DecidableEq α] (values : List α) : List α := noteAll [] values

theorem noteAll_unique [DecidableEq α] (keys values : List α) :
    noteAll keys (unique values) = noteAll keys values := by
  have hgeneral : ∀ known : List α, noteAll keys (noteAll known values) =
      noteAll (noteAll keys known) values := by
    induction values with
    | nil => exact fun known ↦ rfl
    | cons value rest ih =>
      intro known
      have hnote : noteAll keys (note known value) = note (noteAll keys known) value := by
        by_cases hknown : value ∈ known
        · rw [note, if_pos hknown, note, if_pos ((mem_noteAll _ _ _).mpr (.inr hknown))]
        · rw [note, if_neg hknown, noteAll_append]
          rfl
      rw [noteAll_cons, ih, hnote, noteAll_cons]
  exact hgeneral []

/-- Values that are known already change nothing. -/
theorem noteAll_eq_self [DecidableEq α] {keys values : List α} (hknown : values ⊆ keys) :
    noteAll keys values = keys := by
  induction values with
  | nil => rfl
  | cons value rest ih =>
    rw [List.cons_subset] at hknown
    rw [noteAll_cons, note, if_pos hknown.1, ih hknown.2]

variable [LinearOrder κ] [DecidableEq κ]

/-- `sorted(table.items())`, where the keys decide. -/
def sortedItems (table : List (κ × List α)) : List (κ × List α) :=
  table.insertionSort fun row other ↦ row.1 ≤ other.1

theorem sortedItems_eq {table : List (κ × List α)} (hkeys : (table.map Prod.fst).Nodup) :
    sortedItems table = (sortedSet (table.map Prod.fst)).map fun k ↦ (k, held table k) := by
  have hset : (sortedSet (table.map Prod.fst)).Perm (table.map Prod.fst) :=
    (List.perm_ext_iff_of_nodup (nodup_sortedSet _) hkeys).mpr fun k ↦ mem_sortedSet
  have hperm : ((sortedSet (table.map Prod.fst)).map fun k ↦ (k, held table k)).Perm table := by
    have hmap := hset.map fun k ↦ (k, held table k)
    rwa [map_held_eq_self hkeys] at hmap
  have htotal : Std.Total fun row other : κ × List α ↦ row.1 ≤ other.1 :=
    ⟨fun row other ↦ le_total row.1 other.1⟩
  have htrans : IsTrans (κ × List α) fun row other ↦ row.1 ≤ other.1 := ⟨fun _ _ _ ↦ le_trans⟩
  refine ((List.perm_insertionSort _ _).trans hperm.symm).eq_of_pairwise
    (fun a b ha hb hab hba ↦ ?_) (List.pairwise_insertionSort _ _)
    (List.pairwise_map.mpr (List.pairwise_insertionSort _ _))
  exact List.inj_on_of_nodup_map hkeys ((List.mem_insertionSort _).mp ha) (hperm.mem_iff.mp hb)
    (le_antisymm hab hba)

variable [DecidableEq α]

/-- The different values under each key, by key. -/
def grouped (rows : List (κ × List α)) : List (κ × List α) :=
  (sortedSet (rows.map Prod.fst)).map fun k ↦ (k, unique (gathered rows k))

/-- The sorted rows of a table, each with its different values, are the groups of what was put
in. -/
theorem map_unique_sortedItems (rows : List (κ × List α)) :
    (sortedItems (extendAll rows)).map (fun row ↦ (row.1, unique row.2)) = grouped rows := by
  have hkeys : ((extendAll rows).map Prod.fst).Nodup := by
    rw [map_fst_extendAll]
    exact nodup_noteAll List.nodup_nil _
  have hset : sortedSet ((extendAll rows).map Prod.fst) = sortedSet (rows.map Prod.fst) := by
    refine sortedSet_congr fun k ↦ ?_
    rw [map_fst_extendAll, mem_noteAll, or_iff_right List.not_mem_nil]
  rw [sortedItems_eq hkeys, hset, List.map_map]
  refine List.map_congr_left fun k _ ↦ ?_
  rw [Function.comp_apply, held_extendAll]

/-- Groups are equal where the rows have the same keys and the same different values under each. -/
theorem grouped_congr {rows other : List (κ × List α)}
    (hkeys : ∀ k, k ∈ rows.map Prod.fst ↔ k ∈ other.map Prod.fst)
    (hvalues : ∀ k, unique (gathered rows k) = unique (gathered other k)) :
    grouped rows = grouped other := by
  rw [grouped, sortedSet_congr hkeys]
  exact List.map_congr_left fun k _ ↦ by rw [hvalues]

theorem map_fst_grouped (rows : List (κ × List α)) :
    (grouped rows).map Prod.fst = sortedSet (rows.map Prod.fst) := by
  rw [grouped, List.map_map]
  exact List.map_id _

/-- What was grouped has the different values under each key. -/
theorem gathered_grouped (rows : List (κ × List α)) (k : κ) :
    gathered (grouped rows) k = unique (gathered rows k) := by
  rw [grouped, gathered_map (nodup_sortedSet _)]
  split_ifs with hk
  · rfl
  · rw [mem_sortedSet] at hk
    rw [gathered_eq_nil hk]
    rfl

theorem gathered_replicate_subset (rows : List (κ × List α)) (n : ℕ) (k : κ) :
    gathered (List.replicate n (grouped rows)).flatten k ⊆ gathered rows k := by
  induction n with
  | zero => exact List.nil_subset _
  | succ n ih =>
    rw [List.replicate_succ, List.flatten_cons, gathered_append, gathered_grouped]
    refine List.append_subset.mpr ⟨fun value hvalue ↦ ?_, ih⟩
    exact ((mem_noteAll _ _ _).mp hvalue).resolve_left List.not_mem_nil

/-- Groups that come again add nothing to what was noted of the rows. -/
theorem noteAll_gathered_replicate (known : List α) (rows : List (κ × List α)) {n : ℕ}
    (hn : n ≠ 0) (k : κ) :
    noteAll known (gathered (List.replicate n (grouped rows)).flatten k) =
      noteAll known (gathered rows k) := by
  obtain ⟨n, rfl⟩ := Nat.exists_eq_succ_of_ne_zero hn
  rw [List.replicate_succ, List.flatten_cons, gathered_append, gathered_grouped, noteAll_append,
    noteAll_unique]
  exact noteAll_eq_self fun value hvalue ↦
    (mem_noteAll _ _ _).mpr (.inr (gathered_replicate_subset rows n k hvalue))

/-- Grouping what was grouped piece by piece, however often a piece comes at its place. -/
theorem grouped_flatMap_grouped {ι : Type*} (pieces : List ι) (times : ι → ℕ)
    (rows : ι → List (κ × List α)) :
    grouped (pieces.flatMap fun piece ↦
        (List.replicate (times piece) (grouped (rows piece))).flatten) =
      grouped ((pieces.filter fun piece ↦ 0 < times piece).flatMap rows) := by
  refine grouped_congr (fun k ↦ ?_) fun k ↦ ?_
  · simp only [List.mem_map, List.mem_flatMap, List.mem_flatten, List.mem_replicate,
      List.mem_filter, decide_eq_true_eq]
    constructor
    · rintro ⟨row, ⟨piece, hpiece, -, ⟨htimes, rfl⟩, hrow⟩, rfl⟩
      have hkey := List.mem_map_of_mem (f := Prod.fst) hrow
      rw [map_fst_grouped, mem_sortedSet] at hkey
      obtain ⟨first, hfirst, heq⟩ := List.mem_map.mp hkey
      exact ⟨first, ⟨piece, ⟨hpiece, Nat.pos_of_ne_zero htimes⟩, hfirst⟩, heq⟩
    · rintro ⟨row, ⟨piece, ⟨hpiece, htimes⟩, hrow⟩, rfl⟩
      have hkey : row.1 ∈ (grouped (rows piece)).map Prod.fst := by
        rw [map_fst_grouped, mem_sortedSet]
        exact List.mem_map_of_mem hrow
      obtain ⟨first, hfirst, heq⟩ := List.mem_map.mp hkey
      exact ⟨first, ⟨piece, hpiece, _, ⟨htimes.ne', rfl⟩, hfirst⟩, heq⟩
  · have hfold : ∀ known : List α,
        noteAll known (gathered (pieces.flatMap fun piece ↦
          (List.replicate (times piece) (grouped (rows piece))).flatten) k) =
        noteAll known (gathered ((pieces.filter fun piece ↦ 0 < times piece).flatMap rows) k) := by
      induction pieces with
      | nil => exact fun known ↦ rfl
      | cons piece pieces ih =>
        intro known
        rw [List.flatMap_cons, gathered_append, noteAll_append, ih]
        by_cases htimes : 0 < times piece
        · rw [List.filter_cons_of_pos (by simpa using htimes), List.flatMap_cons, gathered_append,
            noteAll_append, noteAll_gathered_replicate _ _ htimes.ne']
        · rw [List.filter_cons_of_neg (by simpa using htimes), Nat.eq_zero_of_not_pos htimes]
          rfl
    exact hfold []

end SyzAbi.Library.GroupedLists

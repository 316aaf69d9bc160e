import Mathlib.Algebra.BigOperators.Group.List.Basic
import Mathlib.Algebra.Ring.Nat
import Mathlib.Data.List.Count
import SyzAbi.Library.OrderedDict

/-!
# Counters

A counter is a dictionary from values to how often they were counted, in the order in which they
were first counted. It holds the number of times that each value was counted (`lookup_counter`), and
its numbers add up to the number of all values (`sum_counter`).
-/

set_option autoImplicit false
set_option relaxedAutoImplicit false

namespace SyzAbi.Library.Counters

variable {α : Type*} [BEq α] [LawfulBEq α]

/-- Count a value once more. -/
def tally (counts : List (α × ℕ)) (value : α) : List (α × ℕ) :=
  OrderedDict.insert value ((counts.lookup value).getD 0 + 1) counts

/-- The counter of some values. -/
def counter (values : List α) : List (α × ℕ) := values.foldl tally []

/-- What a dictionary of numbers adds up to when one of them is set. -/
theorem sum_insert (key : α) (number : ℕ) (counts : List (α × ℕ)) :
    ((OrderedDict.insert key number counts).map Prod.snd).sum + (counts.lookup key).getD 0 =
      (counts.map Prod.snd).sum + number := by
  induction counts with
  | nil => simp [OrderedDict.insert]
  | cons item rest ih =>
    rw [OrderedDict.insert, List.lookup_cons]
    by_cases hkey : item.1 = key
    · rw [hkey, beq_self_eq_true, if_pos rfl]
      simp only [List.map_cons, List.sum_cons, Option.getD_some]
      omega
    · rw [if_neg (by simpa using hkey), beq_false_of_ne (Ne.symm hkey)]
      simp only [List.map_cons, List.sum_cons]
      omega

theorem sum_foldl_tally (counts : List (α × ℕ)) (values : List α) :
    ((values.foldl tally counts).map Prod.snd).sum =
      (counts.map Prod.snd).sum + values.length := by
  induction values generalizing counts with
  | nil => rfl
  | cons value rest ih =>
    have hsum := sum_insert value ((counts.lookup value).getD 0 + 1) counts
    rw [List.foldl_cons, ih, tally, List.length_cons]
    omega

/-- The numbers of a counter add up to the number of values. -/
theorem sum_counter (values : List α) :
    ((counter values).map Prod.snd).sum = values.length := by
  rw [counter, sum_foldl_tally]
  exact Nat.zero_add _

theorem lookup_foldl_tally (counts : List (α × ℕ)) (values : List α) (value : α) :
    ((values.foldl tally counts).lookup value).getD 0 =
      (counts.lookup value).getD 0 + values.count value := by
  induction values generalizing counts with
  | nil => rfl
  | cons head rest ih =>
    rw [List.foldl_cons, ih, tally, List.count_cons]
    by_cases hhead : head = value
    · rw [hhead, OrderedDict.lookup_insert_self, beq_self_eq_true, if_pos rfl, Option.getD_some]
      omega
    · rw [OrderedDict.lookup_insert_of_ne (Ne.symm hhead), beq_false_of_ne hhead,
        if_neg Bool.false_ne_true]
      rfl

/-- A counter holds how often a value was counted. -/
theorem lookup_counter (values : List α) (value : α) :
    ((counter values).lookup value).getD 0 = values.count value := by
  rw [counter, lookup_foldl_tally]
  exact Nat.zero_add _

theorem nodup_keys_foldl_tally {counts : List (α × ℕ)} (hcounts : (counts.map Prod.fst).Nodup)
    (values : List α) : ((values.foldl tally counts).map Prod.fst).Nodup := by
  induction values generalizing counts with
  | nil => exact hcounts
  | cons value rest ih => exact ih (OrderedDict.nodup_keys_insert hcounts)

/-- No value stands twice. -/
theorem nodup_keys_counter (values : List α) : ((counter values).map Prod.fst).Nodup := by
  have hnone : (([] : List (α × ℕ)).map Prod.fst).Nodup := List.nodup_nil
  exact nodup_keys_foldl_tally hnone values

theorem mem_keys_foldl_tally (counts : List (α × ℕ)) (values : List α) (value : α) :
    value ∈ (values.foldl tally counts).map Prod.fst ↔
      value ∈ values ∨ value ∈ counts.map Prod.fst := by
  induction values generalizing counts with
  | nil => simp
  | cons head rest ih =>
    rw [List.foldl_cons, ih, tally, OrderedDict.mem_keys_insert, List.mem_cons, or_assoc,
      or_left_comm]

/-- The keys of a counter are the values that were counted. -/
theorem mem_keys_counter (values : List α) (value : α) :
    value ∈ (counter values).map Prod.fst ↔ value ∈ values := by
  rw [counter, mem_keys_foldl_tally]
  exact or_iff_left List.not_mem_nil

end SyzAbi.Library.Counters

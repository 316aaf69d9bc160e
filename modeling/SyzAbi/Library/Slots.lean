import Mathlib.Data.List.Basic
import Mathlib.Data.List.Perm.Basic
import Mathlib.Data.List.Range

/-!
# Slots filled in any order

A pool of workers returns results in the order in which the work completes, and a result goes to the
slot with the number of its item. `writeAll` writes numbered results into a list of slots. When
every slot is written and every written value has the key that its item asks for, the keys of the
slots are the keys of the items, in the order of the items (`map_key_writeAll`): nothing is lost,
doubled or exchanged, whatever the order of the writes. A pool that computes a function of each item
is the map of that function (`poolMap_eq`).
-/

set_option autoImplicit false
set_option relaxedAutoImplicit false

namespace SyzAbi.Library.Slots

variable {α β γ : Type}

/-! ### Writes -/

/-- Write numbered results into slots, in order. -/
def writeAll (slots : List (Option β)) (writes : List (ℕ × β)) : List (Option β) :=
  writes.foldl (fun slots entry ↦ slots.set entry.1 (some entry.2)) slots

@[simp] theorem writeAll_nil (slots : List (Option β)) : writeAll slots [] = slots := rfl

theorem writeAll_cons (slots : List (Option β)) (entry : ℕ × β) (writes : List (ℕ × β)) :
    writeAll slots (entry :: writes) = writeAll (slots.set entry.1 (some entry.2)) writes := rfl

theorem writeAll_append (slots : List (Option β)) (first second : List (ℕ × β)) :
    writeAll slots (first ++ second) = writeAll (writeAll slots first) second :=
  List.foldl_append

@[simp] theorem length_writeAll (slots : List (Option β)) (writes : List (ℕ × β)) :
    (writeAll slots writes).length = slots.length := by
  induction writes generalizing slots with
  | nil => rfl
  | cons entry rest ih => rw [writeAll_cons, ih, List.length_set]

/-- A slot that no write names keeps its content. -/
theorem getElem?_writeAll_of_notMem {slots : List (Option β)} {writes : List (ℕ × β)} {index : ℕ}
    (hindex : index ∉ writes.map Prod.fst) : (writeAll slots writes)[index]? = slots[index]? := by
  induction writes generalizing slots with
  | nil => rfl
  | cons entry rest ih =>
    rw [List.map_cons, List.mem_cons, not_or] at hindex
    rw [writeAll_cons, ih hindex.2, List.getElem?_set_ne (Ne.symm hindex.1)]

/-- A slot that some write names holds the value of such a write. -/
theorem exists_write_of_mem {slots : List (Option β)} {writes : List (ℕ × β)} {index : ℕ}
    (hindex : index ∈ writes.map Prod.fst) (hbound : index < slots.length) :
    ∃ entry ∈ writes, entry.1 = index ∧
      (writeAll slots writes)[index]? = some (some entry.2) := by
  induction writes generalizing slots with
  | nil => cases hindex
  | cons entry rest ih =>
    rw [writeAll_cons]
    by_cases hrest : index ∈ rest.map Prod.fst
    · obtain ⟨other, hother, hnumber, hslot⟩ := ih hrest (List.length_set.symm ▸ hbound)
      exact ⟨other, List.mem_cons_of_mem _ hother, hnumber, hslot⟩
    · have hhead : entry.1 = index := by
        rcases List.mem_cons.mp hindex with h | h
        · exact h.symm
        · exact absurd h hrest
      refine ⟨entry, List.mem_cons_self, hhead, ?_⟩
      rw [getElem?_writeAll_of_notMem hrest, hhead, List.getElem?_set_self hbound]

/-- What stands in a slot stood there before or was written. -/
theorem mem_writeAll {slots : List (Option β)} {writes : List (ℕ × β)} {slot : Option β}
    (hslot : slot ∈ writeAll slots writes) :
    slot ∈ slots ∨ ∃ entry ∈ writes, slot = some entry.2 := by
  induction writes generalizing slots with
  | nil => exact .inl hslot
  | cons entry rest ih =>
    rw [writeAll_cons] at hslot
    obtain hset | ⟨other, hother, hvalue⟩ := ih hslot
    · obtain hbefore | hwritten := List.mem_or_eq_of_mem_set hset
      · exact .inl hbefore
      · exact .inr ⟨entry, List.mem_cons_self, hwritten⟩
    · exact .inr ⟨other, List.mem_cons_of_mem _ hother, hvalue⟩

/-- When every write has the key of its item and every item is written, the slots hold the keys of
the items in order. -/
theorem map_key_writeAll {items : List α} {writes : List (ℕ × β)} {key : β → γ} {itemKey : α → γ}
    (hwrites : ∀ entry ∈ writes, ∃ item, items[entry.1]? = some item ∧ key entry.2 = itemKey item)
    (hcover : ∀ index < items.length, index ∈ writes.map Prod.fst) :
    (writeAll (List.replicate items.length none) writes).map (Option.map key) =
      items.map fun item ↦ some (itemKey item) := by
  refine List.ext_getElem? fun index ↦ ?_
  rw [List.getElem?_map, List.getElem?_map]
  by_cases hbound : index < items.length
  · have hslots : index < (List.replicate items.length (none : Option β)).length := by
      rw [List.length_replicate]
      exact hbound
    obtain ⟨entry, hentry, hnumber, hslot⟩ := exists_write_of_mem (hcover index hbound) hslots
    obtain ⟨item, hitem, hkey⟩ := hwrites entry hentry
    rw [hslot, ← hnumber, hitem, Option.map_some, Option.map_some, Option.map_some, hkey]
  · have hlength : items.length ≤ index := not_lt.mp hbound
    rw [List.getElem?_eq_none hlength, List.getElem?_eq_none (by simpa using hlength)]
    rfl

/-- The filled slots, when all of them are filled. -/
theorem filterMap_of_map_eq {slots : List (Option β)} {items : List α} {key : β → γ}
    {itemKey : α → γ}
    (hslots : slots.map (Option.map key) = items.map fun item ↦ some (itemKey item)) :
    (slots.filterMap id).map key = items.map itemKey := by
  have hfilled := congrArg (List.filterMap id) hslots
  rw [List.filterMap_map, List.filterMap_map] at hfilled
  rw [List.map_filterMap]
  calc slots.filterMap (fun slot ↦ (id slot).map key)
      = items.filterMap (id ∘ fun item ↦ some (itemKey item)) := hfilled
    _ = items.map itemKey := by rw [← List.filterMap_eq_map]; rfl

/-- A filled slot is at its number among the filled slots, when all of them are filled. -/
theorem getElem?_filterMap_id {slots : List (Option β)} (hfilled : ∀ slot ∈ slots, slot.isSome)
    {index : ℕ} {value : β} (hslot : slots[index]? = some (some value)) :
    (slots.filterMap id)[index]? = some value := by
  induction slots generalizing index with
  | nil => cases hslot
  | cons slot rest ih =>
    obtain ⟨filled, rfl⟩ := Option.isSome_iff_exists.mp (hfilled slot List.mem_cons_self)
    have hcons : (some filled :: rest).filterMap id = filled :: rest.filterMap id := rfl
    rw [hcons]
    cases index with
    | zero => exact Option.some.inj hslot
    | succ index =>
      exact ih (fun other hother ↦ hfilled other (List.mem_cons_of_mem _ hother)) hslot

/-- When all slots are written and all writes of a number agree, that value is at that number. -/
theorem getElem?_of_writes {items : List α} {writes : List (ℕ × β)}
    (hcover : ∀ index < items.length, index ∈ writes.map Prod.fst) {index : ℕ} {value : β}
    (hindex : index < items.length)
    (hunique : ∀ entry ∈ writes, entry.1 = index → entry.2 = value) :
    ((writeAll (List.replicate items.length none) writes).filterMap id)[index]? = some value := by
  have hlength : (List.replicate items.length (none : Option β)).length = items.length :=
    List.length_replicate
  refine getElem?_filterMap_id (fun slot hslot ↦ ?_) ?_
  · obtain ⟨other, hother, rfl⟩ := List.mem_iff_getElem.mp hslot
    rw [length_writeAll, hlength] at hother
    obtain ⟨entry, -, -, hentry⟩ :=
      exists_write_of_mem (hcover other hother) (hlength.symm ▸ hother)
    obtain ⟨_, hvalue⟩ := List.getElem_of_getElem? hentry
    rw [hvalue]
    rfl
  · obtain ⟨entry, hentry, hnumber, hslot⟩ :=
      exists_write_of_mem (hcover index hindex) (hlength.symm ▸ hindex)
    rw [hslot, hunique entry hentry hnumber]

/-! ### Pools -/

/-- An order of completion for pools of every size. -/
structure CompletionOrder where
  order : ℕ → List ℕ
  perm : ∀ size, (order size).Perm (List.range size)

/-- Completion in the order of submission. -/
def CompletionOrder.submission : CompletionOrder where
  order := List.range
  perm := fun _ ↦ List.Perm.refl _

/-- The results of a pool, numbered, in the order of completion. -/
def completed (order : CompletionOrder) (f : α → β) (items : List α) : List (ℕ × β) :=
  (order.order items.length).filterMap fun index ↦ items[index]?.map fun item ↦ (index, f item)

/-- The items in the order of their completion. -/
def completedItems (order : CompletionOrder) (items : List α) : List α :=
  (order.order items.length).filterMap fun index ↦ items[index]?

theorem filterMap_range_getElem? (items : List α) :
    ((List.range items.length).filterMap fun index ↦ items[index]?) = items := by
  induction items with
  | nil => rfl
  | cons item rest ih =>
    rw [List.length_cons, List.range_succ_eq_map, List.filterMap_cons, List.filterMap_map]
    exact congrArg (item :: ·) ih

/-- Every item completes once. -/
theorem completedItems_perm (order : CompletionOrder) (items : List α) :
    (completedItems order items).Perm items := by
  have hperm := (order.perm items.length).filterMap fun index ↦ items[index]?
  rw [filterMap_range_getElem?] at hperm
  exact hperm

/-- The slots after a pool has run `f` on every item. -/
def poolMap (order : CompletionOrder) (f : α → β) (items : List α) : List (Option β) :=
  writeAll (List.replicate items.length none) (completed order f items)

/-- A write of a pool is the result of the item with its number. -/
theorem mem_completed {order : CompletionOrder} {f : α → β} {items : List α} {entry : ℕ × β}
    (hentry : entry ∈ completed order f items) :
    ∃ item, items[entry.1]? = some item ∧ entry.2 = f item := by
  obtain ⟨index, -, hindex⟩ := List.mem_filterMap.mp hentry
  obtain ⟨item, hitem, rfl⟩ := Option.map_eq_some_iff.mp hindex
  exact ⟨item, hitem, rfl⟩

/-- A pool writes every number. -/
theorem mem_map_completed (order : CompletionOrder) (f : α → β) {items : List α} {index : ℕ}
    (hbound : index < items.length) : index ∈ (completed order f items).map Prod.fst := by
  refine List.mem_map.mpr ⟨(index, f items[index]), List.mem_filterMap.mpr ⟨index, ?_, ?_⟩, rfl⟩
  · exact (order.perm items.length).mem_iff.mpr (List.mem_range.mpr hbound)
  · rw [List.getElem?_eq_getElem hbound, Option.map_some]

/-- A pool maps its function, whatever the order of completion. -/
theorem poolMap_eq (order : CompletionOrder) (f : α → β) (items : List α) :
    poolMap order f items = items.map fun item ↦ some (f item) := by
  have hkeys : (poolMap order f items).map (Option.map id) = items.map fun item ↦ some (f item) :=
    map_key_writeAll (fun _ hentry ↦ mem_completed hentry)
      fun _ hbound ↦ mem_map_completed order f hbound
  rw [Option.map_id, List.map_id] at hkeys
  exact hkeys

/-- All slots of a map are filled. -/
theorem filterMap_id_map_some (f : α → β) (items : List α) :
    (items.map fun item ↦ some (f item)).filterMap id = items.map f := by
  rw [List.filterMap_map, ← List.filterMap_eq_map]
  rfl

end SyzAbi.Library.Slots

import Mathlib.Data.List.Nodup

/-!
# Dictionaries in insertion order

A dictionary is the list of its items. Setting a key replaces the value where the key stands, and
puts a new key at the end (`insert`). What is found under a key is what was set last
(`lookup_insertAll`), and no key stands twice (`nodup_keys_insert`).
-/

set_option autoImplicit false
set_option relaxedAutoImplicit false

namespace SyzAbi.Library.OrderedDict

variable {κ ν : Type*} [BEq κ] [LawfulBEq κ]

/-- Set a key. -/
def insert (key : κ) (value : ν) : List (κ × ν) → List (κ × ν)
  | [] => [(key, value)]
  | item :: rest => if item.1 == key then (key, value) :: rest else item :: insert key value rest

/-- Set keys one after the other. -/
def insertAll (items more : List (κ × ν)) : List (κ × ν) :=
  more.foldl (fun items item ↦ insert item.1 item.2 items) items

omit [LawfulBEq κ] in
theorem insertAll_cons (items : List (κ × ν)) (item : κ × ν) (more : List (κ × ν)) :
    insertAll items (item :: more) = insertAll (insert item.1 item.2 items) more := rfl

theorem lookup_insert_self (key : κ) (value : ν) (items : List (κ × ν)) :
    (insert key value items).lookup key = some value := by
  induction items with
  | nil => exact List.lookup_cons_self
  | cons item rest ih =>
    rw [insert]
    split_ifs with hkey
    · exact List.lookup_cons_self
    · rw [List.lookup_cons, show (key == item.1) = false from
        beq_false_of_ne fun heq ↦ hkey (heq ▸ beq_self_eq_true key)]
      exact ih

theorem lookup_insert_of_ne {key other : κ} (hne : other ≠ key) (value : ν)
    (items : List (κ × ν)) : (insert key value items).lookup other = items.lookup other := by
  induction items with
  | nil => rw [insert, List.lookup_cons, beq_false_of_ne hne]
  | cons item rest ih =>
    rw [insert]
    split_ifs with hkey
    · rw [List.lookup_cons, List.lookup_cons, eq_of_beq hkey, beq_false_of_ne hne]
    · rw [List.lookup_cons, List.lookup_cons, ih]

/-- What was set last is found. -/
theorem lookup_insertAll (items more : List (κ × ν)) (key : κ) :
    (insertAll items more).lookup key = (more.reverse.lookup key).or (items.lookup key) := by
  induction more generalizing items with
  | nil => rfl
  | cons item rest ih =>
    rw [insertAll_cons, ih, List.reverse_cons, List.lookup_append, Option.or_assoc]
    congr 1
    by_cases hkey : key = item.1
    · rw [hkey, lookup_insert_self, List.lookup_cons_self, Option.some_or]
    · rw [lookup_insert_of_ne hkey, List.lookup_cons, beq_false_of_ne hkey]
      rfl

theorem mem_keys_insert {key : κ} {value : ν} {items : List (κ × ν)} {other : κ} :
    other ∈ (insert key value items).map Prod.fst ↔ other = key ∨ other ∈ items.map Prod.fst := by
  induction items with
  | nil => simp [insert]
  | cons item rest ih =>
    rw [insert]
    split_ifs with hkey
    · simp [eq_of_beq hkey]
    · rw [List.map_cons, List.mem_cons, ih, List.map_cons, List.mem_cons, or_left_comm]

/-- No key stands twice. -/
theorem nodup_keys_insert {key : κ} {value : ν} {items : List (κ × ν)}
    (hitems : (items.map Prod.fst).Nodup) : ((insert key value items).map Prod.fst).Nodup := by
  induction items with
  | nil => exact List.nodup_singleton _
  | cons item rest ih =>
    rw [List.map_cons, List.nodup_cons] at hitems
    rw [insert]
    split_ifs with hkey
    · rw [List.map_cons, List.nodup_cons, ← eq_of_beq hkey]
      exact hitems
    · rw [List.map_cons, List.nodup_cons, mem_keys_insert, not_or]
      exact ⟨⟨fun heq ↦ hkey (heq ▸ beq_self_eq_true _), hitems.1⟩, ih hitems.2⟩

/-- The items are what is found under the keys. -/
theorem mem_iff_lookup {items : List (κ × ν)} (hitems : (items.map Prod.fst).Nodup) {key : κ}
    {value : ν} : (key, value) ∈ items ↔ items.lookup key = some value := by
  induction items with
  | nil => exact iff_of_false List.not_mem_nil fun h ↦ nomatch h
  | cons item rest ih =>
    rw [List.map_cons, List.nodup_cons] at hitems
    rw [List.mem_cons, List.lookup_cons]
    by_cases hkey : key = item.1
    · have hrest : (key, value) ∉ rest := fun hmem ↦
        hitems.1 (hkey ▸ List.mem_map_of_mem hmem)
      rw [or_iff_left hrest, hkey, beq_self_eq_true]
      exact ⟨fun heq ↦ congrArg (fun item ↦ some item.2) heq.symm,
        fun heq ↦ Prod.ext rfl (Option.some.inj heq).symm⟩
    · rw [or_iff_right fun heq ↦ hkey (congrArg Prod.fst heq), ih hitems.2, beq_false_of_ne hkey]

end SyzAbi.Library.OrderedDict

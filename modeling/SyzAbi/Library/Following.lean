import Mathlib.Data.Finset.Card
import Mathlib.Data.Nat.Find
import Mathlib.Order.Bounds.Basic

/-!
# Following links

From a start the links are followed as long as they lead on and to something new (`follow`, with a
bound on the number of steps). The links end where the first of them leads nowhere or back
(`StopsAt`), and what is followed are the iterates before that (`follow_eq`). When there are only
finitely many items that lead on, the links end within their number (`exists_isLeast_stopsAt`).
-/

set_option autoImplicit false
set_option relaxedAutoImplicit false

namespace SyzAbi.Library.Following

variable {α : Type*} (next : α → α) (goesOn : α → Prop)

/-- After so many links the item leads nowhere, or it was reached before. -/
def StopsAt (start : α) (count : ℕ) : Prop :=
  ¬goesOn (next^[count] start) ∨ ∃ earlier < count, next^[earlier] start = next^[count] start

/-- The items that are reached with fewer links. -/
def reached (start : α) (count : ℕ) : List α := (List.range count).map fun n ↦ next^[n] start

variable {next goesOn} {start : α}

theorem mem_reached {count : ℕ} {item : α} :
    item ∈ reached next start count ↔ ∃ earlier < count, next^[earlier] start = item := by
  simp only [reached, List.mem_map, List.mem_range]

theorem stopsAt_iff {count : ℕ} : StopsAt next goesOn start count ↔
    ¬goesOn (next^[count] start) ∨ next^[count] start ∈ reached next start count := by
  rw [mem_reached, StopsAt]

/-- Before the links end, no item is reached twice. -/
theorem nodup_reached {count : ℕ} (hbefore : ∀ n < count, ¬StopsAt next goesOn start n) :
    (reached next start count).Nodup := by
  refine List.Nodup.map_on (fun first hfirst second hsecond heq ↦ ?_) List.nodup_range
  rw [List.mem_range] at hfirst hsecond
  by_contra hne
  rcases Nat.lt_or_gt_of_ne hne with hlt | hlt
  · exact hbefore second hsecond (.inr ⟨first, hlt, heq⟩)
  · exact hbefore first hfirst (.inr ⟨second, hlt, heq.symm⟩)

theorem goesOn_of_mem_reached {count : ℕ} (hbefore : ∀ n < count, ¬StopsAt next goesOn start n) :
    ∀ item ∈ reached next start count, goesOn item := by
  intro item hitem
  obtain ⟨n, hn, rfl⟩ := mem_reached.mp hitem
  by_contra hstops
  exact hbefore n hn (.inl hstops)

section Finite

variable [DecidableEq α] {items : Finset α} (hitems : ∀ item, goesOn item → item ∈ items)

include hitems

/-- The items that lead on suffice for so many links at most. -/
theorem le_card_of_not_stopsAt {count : ℕ} (hbefore : ∀ n < count, ¬StopsAt next goesOn start n) :
    count ≤ items.card := by
  have hcard := Finset.card_le_card (s := (reached next start count).toFinset) (t := items)
    fun item hitem ↦ hitems item (goesOn_of_mem_reached hbefore item (List.mem_toFinset.mp hitem))
  rwa [List.toFinset_card_of_nodup (nodup_reached hbefore), reached, List.length_map,
    List.length_range] at hcard

/-- The links end. -/
theorem exists_isLeast_stopsAt (start : α) :
    ∃ count ≤ items.card, IsLeast {n | StopsAt next goesOn start n} count := by
  classical
  have hends : ∃ n, StopsAt next goesOn start n := by
    by_contra hnever
    have hmany : items.card + 1 ≤ items.card :=
      le_card_of_not_stopsAt hitems fun n _ hstops ↦ hnever ⟨n, hstops⟩
    omega
  exact ⟨Nat.find hends, le_card_of_not_stopsAt hitems fun _ ↦ Nat.find_min hends,
    Nat.find_spec hends, fun _ ↦ Nat.find_min' hends⟩

end Finite

variable [DecidablePred goesOn] [DecidableEq α]

/-- The items from `start` on as long as they lead on and are new, in at most `fuel` steps. -/
def follow (next : α → α) (goesOn : α → Prop) [DecidablePred goesOn] : ℕ → List α → α → List α
  | 0, _, _ => []
  | fuel + 1, seen, item =>
    if goesOn item ∧ item ∉ seen then item :: follow next goesOn fuel (item :: seen) (next item)
    else []

/-- With enough steps the items before the end of the links are followed. -/
theorem follow_eq {count : ℕ} (hleast : IsLeast {n | StopsAt next goesOn start n} count)
    {fuel : ℕ} (hfuel : count ≤ fuel) :
    follow next goesOn fuel [] start = reached next start count := by
  have hfrom : ∀ fuel done seen, done ≤ count → count ≤ fuel + done →
      (∀ item, item ∈ seen ↔ item ∈ reached next start done) →
      follow next goesOn fuel seen (next^[done] start) =
        (List.range' done (count - done)).map fun n ↦ next^[n] start := by
    intro fuel
    induction fuel with
    | zero =>
      intro done seen hdone hfuel hseen
      rw [show count - done = 0 by omega]
      rfl
    | succ fuel ih =>
      intro done seen hdone hfuel hseen
      have hstops : StopsAt next goesOn start done ↔
          ¬(goesOn (next^[done] start) ∧ next^[done] start ∉ seen) := by
        rw [stopsAt_iff, hseen, not_and_or, not_not]
      rw [follow]
      rcases hdone.lt_or_eq with hlt | rfl
      · rw [if_pos (not_not.mp (mt hstops.mpr fun h ↦ absurd (hleast.2 h) (by omega))),
          show count - done = (count - (done + 1)) + 1 by omega, List.range'_succ, List.map_cons,
          ← Function.iterate_succ_apply' next, ih (done + 1) _ hlt (by omega)]
        intro item
        rw [List.mem_cons, hseen, mem_reached, mem_reached]
        constructor
        · rintro (rfl | ⟨earlier, hearlier, rfl⟩)
          · exact ⟨done, Nat.lt_succ_self done, rfl⟩
          · exact ⟨earlier, by omega, rfl⟩
        · rintro ⟨earlier, hearlier, rfl⟩
          rcases Nat.lt_succ_iff_lt_or_eq.mp hearlier with hbelow | rfl
          · exact .inr ⟨earlier, hbelow, rfl⟩
          · exact .inl rfl
      · rw [if_neg (hstops.mp hleast.1), Nat.sub_self]
        rfl
  have hstart := hfrom fuel 0 [] (Nat.zero_le _) hfuel fun item ↦ Iff.rfl
  rwa [Nat.sub_zero, ← List.range_eq_range'] at hstart

end SyzAbi.Library.Following

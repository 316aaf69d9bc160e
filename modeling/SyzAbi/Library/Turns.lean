import Mathlib.Data.List.Basic

/-!
# Processes that take turns

Each of several processes does its items in order, and in any turn one of them does its next item
(`doneInTurn`). What is done are items of the processes (`mem_doneInTurn`), and a relation that
holds along the items of each process and between the items of different processes holds along
everything that is done, whatever the turns (`pairwise_doneInTurn`).
-/

set_option autoImplicit false
set_option relaxedAutoImplicit false

namespace SyzAbi.Library.Turns

variable {α : Type} {items : List (List α)}

/-- What processes do in some turns, given what each of them has to do. A process that is not there
or has nothing left lets its turn pass. -/
def doneInTurn (items : List (List α)) : List ℕ → List α
  | [] => []
  | process :: turns =>
    match items[process]? with
    | some (item :: rest) => item :: doneInTurn (items.set process rest) turns
    | _ => doneInTurn items turns

/-- What is done is an item of some process. -/
theorem mem_doneInTurn {turns : List ℕ} {item : α} (hitem : item ∈ doneInTurn items turns) :
    ∃ own ∈ items, item ∈ own := by
  induction turns generalizing items with
  | nil => exact absurd hitem List.not_mem_nil
  | cons process turns ih =>
    rw [doneInTurn] at hitem
    split at hitem
    · next first rest hfirst =>
      have hprocess := List.mem_of_getElem? hfirst
      rcases List.mem_cons.mp hitem with rfl | hlater
      · exact ⟨_, hprocess, List.mem_cons_self⟩
      · obtain ⟨own, hown, hmem⟩ := ih hlater
        rcases List.mem_or_eq_of_mem_set hown with hwas | rfl
        · exact ⟨own, hwas, hmem⟩
        · exact ⟨_, hprocess, List.mem_cons_of_mem first hmem⟩
    · exact ih hitem

/-- The relation holds along the items of each process, and between those of different ones. -/
structure Ordered (r : α → α → Prop) (items : List (List α)) : Prop where
  same : ∀ (process : ℕ) (own : List α), items[process]? = some own → own.Pairwise r
  other : ∀ (process another : ℕ) (own others : List α), process ≠ another →
    items[process]? = some own → items[another]? = some others →
    ∀ item ∈ own, ∀ later ∈ others, r item later

/-- After a turn a process has what it had, or it took the turn. -/
theorem getElem?_set_cases {process another : ℕ} {rest others : List α}
    (hothers : (items.set process rest)[another]? = some others) :
    another = process ∧ others = rest ∨ another ≠ process ∧ items[another]? = some others := by
  by_cases hprocess : process = another
  · subst hprocess
    obtain ⟨hbound, heq⟩ := List.getElem?_eq_some_iff.mp hothers
    rw [List.getElem_set_self] at heq
    exact .inl ⟨rfl, heq.symm⟩
  · rw [List.getElem?_set_ne hprocess] at hothers
    exact .inr ⟨Ne.symm hprocess, hothers⟩

/-- A turn keeps the order among what is left. -/
theorem Ordered.set {r : α → α → Prop} (hordered : Ordered r items) {process : ℕ} {item : α}
    {rest : List α} (hitem : items[process]? = some (item :: rest)) :
    Ordered r (items.set process rest) := by
  have hwas : ∀ {another : ℕ} {others : List α},
      (items.set process rest)[another]? = some others →
      ∃ before, items[another]? = some before ∧ others.Sublist before := by
    intro another others hothers
    obtain ⟨rfl, rfl⟩ | ⟨-, hbefore⟩ := getElem?_set_cases hothers
    · exact ⟨_, hitem, List.sublist_cons_self item others⟩
    · exact ⟨others, hbefore, List.Sublist.refl others⟩
  refine ⟨fun another others hothers ↦ ?_, ?_⟩
  · obtain ⟨before, hbefore, hsub⟩ := hwas hothers
    exact (hordered.same another before hbefore).sublist hsub
  · intro first second own others hne hown hothers item hitem later hlater
    obtain ⟨before, hbefore, hsub⟩ := hwas hown
    obtain ⟨beforeOthers, hbeforeOthers, hsubOthers⟩ := hwas hothers
    exact hordered.other first second before beforeOthers hne hbefore hbeforeOthers item
      (hsub.subset hitem) later (hsubOthers.subset hlater)

/-- The next item of a process is in order with everything that is left. -/
theorem Ordered.next {r : α → α → Prop} (hordered : Ordered r items) {process : ℕ} {item : α}
    {rest : List α} (hitem : items[process]? = some (item :: rest)) :
    ∀ own ∈ items.set process rest, ∀ later ∈ own, r item later := by
  intro own hown later hlater
  obtain ⟨another, hanother⟩ := List.getElem?_of_mem hown
  obtain ⟨rfl, rfl⟩ | ⟨hne, hwas⟩ := getElem?_set_cases hanother
  · exact (List.pairwise_cons.mp (hordered.same _ _ hitem)).1 later hlater
  · exact hordered.other process another _ own (Ne.symm hne) hitem hwas item List.mem_cons_self
      later hlater

/-- What is done is in order, whatever the turns. -/
theorem pairwise_doneInTurn {r : α → α → Prop} (hordered : Ordered r items) (turns : List ℕ) :
    (doneInTurn items turns).Pairwise r := by
  induction turns generalizing items with
  | nil => exact List.Pairwise.nil
  | cons process turns ih =>
    rw [doneInTurn]
    split
    · next item rest hitem =>
      refine List.pairwise_cons.mpr ⟨fun later hlater ↦ ?_, ih (hordered.set hitem)⟩
      obtain ⟨own, hown, hlater⟩ := mem_doneInTurn hlater
      exact hordered.next hitem own hown later hlater
    · exact ih hordered

end SyzAbi.Library.Turns

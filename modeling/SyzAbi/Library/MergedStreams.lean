import Mathlib.Data.List.Perm.Basic
import SyzAbi.Library.FirstUse

/-!
# Streams read one after another

Several streams hold parts of one list, each in order, and they are read one after another, without
what was read before (`noteAll`). What has been read after some of the streams only grows at its
end, so the list comes back exactly when the first streams never hold an element without those
before it (`noteAll_flatten_eq_iff`).
-/

set_option autoImplicit false
set_option relaxedAutoImplicit false

namespace SyzAbi.Library.FirstUse

variable {α : Type*} [DecidableEq α]

/-- Different values go to the end of the table in their order, without the known ones. -/
theorem noteAll_of_nodup (keys : List α) {values : List α} (hvalues : values.Nodup) :
    noteAll keys values = keys ++ values.filter (· ∉ keys) := by
  induction values generalizing keys with
  | nil => simp
  | cons value rest ih =>
    obtain ⟨hvalue, hrest⟩ := List.nodup_cons.mp hvalues
    rw [noteAll_cons, ih _ hrest, note]
    split_ifs with hknown
    · rw [List.filter_cons_of_neg (by simpa using hknown)]
    · have hfresh : rest.filter (· ∉ keys ++ [value]) = rest.filter (· ∉ keys) := by
        refine List.filter_congr fun other hother ↦ ?_
        have hne : other ≠ value := fun heq ↦ hvalue (heq ▸ hother)
        simp [hne]
      rw [List.filter_cons_of_pos (by simpa using hknown), hfresh, List.append_assoc]
      rfl

/-- The element comes before the other in the list. -/
def Earlier (items : List α) (a b : α) : Prop := items.idxOf a < items.idxOf b

theorem pairwise_iff_earlier {items : List α} (hnodup : items.Nodup) {r : α → α → Prop} :
    items.Pairwise r ↔ ∀ a ∈ items, ∀ b ∈ items, Earlier items a b → r a b := by
  rw [List.pairwise_iff_getElem]
  constructor
  · intro hpairs a ha b hb hearlier
    have hrelated := hpairs _ _ (List.idxOf_lt_length_of_mem ha) (List.idxOf_lt_length_of_mem hb)
      hearlier
    rwa [List.getElem_idxOf, List.getElem_idxOf] at hrelated
  · intro hall i j hi hj hij
    refine hall _ (List.getElem_mem hi) _ (List.getElem_mem hj) ?_
    rwa [Earlier, hnodup.idxOf_getElem i hi, hnodup.idxOf_getElem j hj]

omit [DecidableEq α] in
/-- Whenever one of the first streams holds an element, they hold those before it. -/
def HoldsEarlier (items : List α) (streams : List (List α)) : Prop :=
  ∀ k, items.Pairwise fun earlier later ↦
    later ∈ (streams.take k).flatten → earlier ∈ (streams.take k).flatten

section Streams

variable {items : List α} {streams : List (List α)} (hnodup : items.Nodup)
  (hstreams : ∀ stream ∈ streams, stream.Sublist items)

/-- What is known after the first streams. -/
def readFirst (streams : List (List α)) (k : ℕ) : List α := noteAll [] (streams.take k).flatten

theorem mem_readFirst {k : ℕ} {item : α} :
    item ∈ readFirst streams k ↔ item ∈ (streams.take k).flatten := by
  rw [readFirst, mem_noteAll, or_iff_right List.not_mem_nil]

theorem readFirst_isPrefix (k : ℕ) : readFirst streams k <+: noteAll [] streams.flatten := by
  rw [← List.take_append_drop k streams, List.flatten_append, noteAll_append,
    List.take_append_drop]
  exact prefix_noteAll _ _

include hnodup hstreams

/-- What one more stream adds. -/
theorem readFirst_succ (k : ℕ) : readFirst streams (k + 1) = readFirst streams k ++
    (streams[k]?.getD []).filter (· ∉ readFirst streams k) := by
  rw [readFirst, List.take_add_one, List.flatten_append, noteAll_append, ← readFirst]
  cases hstream : streams[k]? with
  | none => simp
  | some stream =>
    have hsub := hstreams stream (List.mem_of_getElem? hstream)
    rw [Option.toList_some, List.flatten_singleton, noteAll_of_nodup _ (hnodup.sublist hsub),
      Option.getD_some]

/-- While the first streams hold what comes before their elements, what they hold is in order. -/
theorem HoldsEarlier.pairwise (hholds : HoldsEarlier items streams) (k : ℕ) :
    (readFirst streams k).Pairwise (Earlier items) := by
  induction k with
  | zero => exact List.Pairwise.nil
  | succ k ih =>
    have horder : items.Pairwise (Earlier items) :=
      (pairwise_iff_earlier hnodup).mpr fun _ _ _ _ hearlier ↦ hearlier
    have hmem : ∀ item ∈ readFirst streams k, item ∈ items := by
      intro item hitem
      obtain ⟨stream, hstream, hitem⟩ := List.mem_flatten.mp (mem_readFirst.mp hitem)
      exact (hstreams stream (List.mem_of_mem_take hstream)).subset hitem
    rw [readFirst_succ hnodup hstreams]
    cases hstream : streams[k]? with
    | none => simpa using ih
    | some stream =>
      have hsub := hstreams stream (List.mem_of_getElem? hstream)
      rw [Option.getD_some]
      refine List.pairwise_append.mpr ⟨ih, (horder.sublist hsub).filter _, ?_⟩
      intro a ha b hb
      obtain ⟨hb, hfresh⟩ := List.mem_filter.mp hb
      have hfresh : b ∉ readFirst streams k := of_decide_eq_true hfresh
      rcases lt_trichotomy (items.idxOf a) (items.idxOf b) with hlt | heq | hgt
      · exact hlt
      · exact absurd ((List.idxOf_inj (hmem a ha)).mp heq ▸ ha) hfresh
      · have hclosed := (pairwise_iff_earlier hnodup).mp (hholds k) b (hsub.subset hb) a (hmem a ha)
          hgt (mem_readFirst.mp ha)
        exact absurd (mem_readFirst.mpr hclosed) hfresh

/-- The list comes back exactly when the first streams never hold an element without those before
it. -/
theorem noteAll_flatten_eq_iff (hall : ∀ item ∈ items, ∃ stream ∈ streams, item ∈ stream) :
    noteAll [] streams.flatten = items ↔ HoldsEarlier items streams := by
  constructor
  · intro heq k
    obtain ⟨rest, hrest⟩ := heq ▸ @readFirst_isPrefix _ _ streams k
    have hsplit := hnodup
    rw [← hrest, List.nodup_append] at hsplit
    rw [← hrest]
    refine List.pairwise_append.mpr ⟨?_, ?_, ?_⟩
    · exact List.pairwise_of_forall_mem_list fun earlier hearlier _ _ _ ↦
        mem_readFirst.mp hearlier
    · refine List.pairwise_of_forall_mem_list fun _ _ later hlater hread ↦ ?_
      exact absurd rfl (hsplit.2.2 later (mem_readFirst.mpr hread) later hlater)
    · exact fun earlier hearlier _ _ _ ↦ mem_readFirst.mp hearlier
  · intro hholds
    have hpairwise := hholds.pairwise hnodup hstreams streams.length
    rw [readFirst, List.take_length] at hpairwise
    have horder : items.Pairwise (Earlier items) :=
      (pairwise_iff_earlier hnodup).mpr fun _ _ _ _ hearlier ↦ hearlier
    have hperm : (noteAll [] streams.flatten).Perm items := by
      refine (List.perm_ext_iff_of_nodup (nodup_noteAll List.nodup_nil _) hnodup).mpr fun item ↦ ?_
      rw [mem_noteAll, or_iff_right List.not_mem_nil, List.mem_flatten]
      constructor
      · rintro ⟨stream, hstream, hitem⟩
        exact (hstreams stream hstream).subset hitem
      · exact hall item
    exact List.Perm.eq_of_pairwise (fun _ _ _ _ hab hba ↦ absurd hab hba.asymm) hpairwise horder
      hperm

end Streams

end SyzAbi.Library.FirstUse

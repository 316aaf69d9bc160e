import Mathlib.Data.List.Infix
import Mathlib.Data.Nat.Notation

/-!
# Searching for a pattern

The first occurrence of a pattern in a list (`find`), and the first one from an index on
(`findFrom`). There is none exactly when the pattern is not an infix (`find_eq_none_iff`); the
occurrence behind some text is the first one when neither the text nor the seam between the text
and the pattern holds another (`find_append`).

A pattern without a border (`Unbordered`) has no two occurrences that overlap. So a text between two
occurrences can be searched on its own, in a text of marks and tails each tail decides what occurs
at its mark (`Unbordered.not_infix_flatMap`), and in a text that is cut off the search ends either
at the whole pattern or without a result (`find_cut`).
-/

set_option autoImplicit false
set_option relaxedAutoImplicit false

namespace SyzAbi.Library.Search

variable {α : Type} [DecidableEq α] {pattern : List α}

/-- The index of the first occurrence. -/
def find (pattern : List α) : List α → Option ℕ
  | [] => if pattern.isEmpty then some 0 else none
  | c :: rest =>
    if pattern.isPrefixOf (c :: rest) then some 0 else (find pattern rest).map Nat.succ

/-- The index of the first occurrence that does not start before an index. -/
def findFrom (pattern text : List α) (start : ℕ) : Option ℕ :=
  (find pattern (text.drop start)).map (start + ·)

theorem find_of_isPrefix {text : List α} (hstarts : pattern <+: text) :
    find pattern text = some 0 := by
  cases text with
  | nil => rw [List.prefix_nil.mp hstarts, find, List.isEmpty_nil, if_pos rfl]
  | cons c rest => rw [find, if_pos (List.isPrefixOf_iff_prefix.mpr hstarts)]

theorem find_cons {c : α} {rest : List α} (hstarts : ¬pattern <+: c :: rest) :
    find pattern (c :: rest) = (find pattern rest).map Nat.succ := by
  rw [find, if_neg fun h ↦ hstarts (List.isPrefixOf_iff_prefix.mp h)]

theorem find_eq_none_iff {text : List α} : find pattern text = none ↔ ¬pattern <:+: text := by
  induction text with
  | nil =>
    rw [List.infix_nil]
    cases pattern with
    | nil => exact iff_of_false (by simp [find]) (by simp)
    | cons d pattern => exact iff_of_true (by simp [find]) (by simp)
  | cons c rest ih =>
    rw [List.infix_cons_iff, not_or]
    by_cases hstarts : pattern <+: c :: rest
    · rw [find_of_isPrefix hstarts]
      exact iff_of_false (by simp) fun h ↦ h.1 hstarts
    · rw [find_cons hstarts, Option.map_eq_none_iff, ih]
      exact (and_iff_right hstarts).symm

theorem isSome_find_iff {text : List α} : (find pattern text).isSome ↔ pattern <:+: text := by
  rw [Option.isSome_iff_ne_none, ne_eq, find_eq_none_iff, not_not]

/-- Where the search ends there is an occurrence. -/
theorem exists_of_find {text : List α} {index : ℕ} (hfind : find pattern text = some index) :
    ∃ before rest, text = before ++ rest ∧ before.length = index ∧ pattern <+: rest := by
  induction text generalizing index with
  | nil =>
    cases pattern with
    | nil => exact ⟨[], [], rfl, by simpa [find] using hfind, List.nil_prefix⟩
    | cons d pattern => simp [find] at hfind
  | cons c text ih =>
    by_cases hstarts : pattern <+: c :: text
    · rw [find_of_isPrefix hstarts] at hfind
      exact ⟨[], c :: text, rfl, Option.some.inj hfind, hstarts⟩
    · rw [find_cons hstarts] at hfind
      obtain ⟨behind, hbehind, rfl⟩ := Option.map_eq_some_iff.mp hfind
      obtain ⟨before, rest, rfl, hlength, hrest⟩ := ih hbehind
      exact ⟨c :: before, rest, rfl, congrArg Nat.succ hlength, hrest⟩

/-- The occurrence behind a text is the first one when the text, with the pattern up to its last
element behind it, does not hold another. -/
theorem find_append {before rest : List α} (hpattern : pattern ≠ [])
    (hfirst : ¬pattern <:+: before ++ pattern.dropLast) :
    find pattern (before ++ (pattern ++ rest)) = some before.length := by
  induction before with
  | nil => exact find_of_isPrefix (List.prefix_append pattern rest)
  | cons c before ih =>
    rw [List.cons_append, List.infix_cons_iff, not_or] at hfirst
    have hstarts : ¬pattern <+: c :: (before ++ (pattern ++ rest)) := by
      intro hstarts
      have hsplit : c :: (before ++ (pattern ++ rest)) =
          c :: (before ++ pattern.dropLast) ++ pattern.getLast hpattern :: rest := by
        conv_lhs => rw [← List.dropLast_append_getLast hpattern]
        simp
      rw [hsplit] at hstarts
      refine hfirst.1 (List.prefix_of_prefix_length_le hstarts (List.prefix_append _ _) ?_)
      have hpos := List.length_pos_iff.mpr hpattern
      rw [List.length_cons, List.length_append, List.length_dropLast]
      omega
    rw [List.cons_append, find_cons hstarts, ih hfirst.2]
    rfl

/-- The first occurrence does not lie behind another one. -/
theorem find_le_of_infix {front : List α} (hoccurs : pattern <:+: front) (rest : List α) :
    ∃ index, find pattern (front ++ rest) = some index ∧
      index + pattern.length ≤ front.length := by
  induction front with
  | nil =>
    obtain rfl := List.infix_nil.mp hoccurs
    exact ⟨0, find_of_isPrefix List.nil_prefix, le_rfl⟩
  | cons c front ih =>
    by_cases hstarts : pattern <+: c :: (front ++ rest)
    · exact ⟨0, find_of_isPrefix hstarts, by rw [Nat.zero_add]; exact hoccurs.length_le⟩
    · obtain ⟨index, hindex, hle⟩ := ih <| (List.infix_cons_iff.mp hoccurs).resolve_left
        fun hfront ↦ hstarts (hfront.trans (List.prefix_append (c :: front) rest))
      refine ⟨index + 1, ?_, ?_⟩
      · rw [List.cons_append, find_cons hstarts, hindex]
        rfl
      · rw [List.length_cons]
        omega

/-- Where there is no occurrence the search goes on behind. -/
theorem findFrom_succ {text : List α} {start : ℕ} (hstart : start < text.length)
    (hstarts : ¬pattern <+: text.drop start) :
    findFrom pattern text start = findFrom pattern text (start + 1) := by
  rw [List.drop_eq_getElem_cons hstart] at hstarts
  rw [findFrom, List.drop_eq_getElem_cons hstart, find_cons hstarts, Option.map_map, findFrom]
  congr 1
  funext index
  show start + (index + 1) = start + 1 + index
  omega

/-- Searching from the end of a text on is searching what follows it. -/
theorem findFrom_append (before rest : List α) :
    findFrom pattern (before ++ rest) before.length =
      (find pattern rest).map (before.length + ·) := by
  rw [findFrom, List.drop_left]

theorem findFrom_of_eq {text before rest : List α} {start : ℕ} (htext : text = before ++ rest)
    (hstart : start = before.length) :
    findFrom pattern text start = (find pattern rest).map (start + ·) := by
  subst htext hstart
  exact findFrom_append before rest

/-! ### Patterns that do not overlap themselves -/

/-- No proper suffix of the pattern is a prefix of it. -/
def Unbordered (pattern : List α) : Prop :=
  pattern ≠ [] ∧ ∀ k < pattern.length, 0 < k → ¬pattern.drop k <+: pattern

instance (pattern : List α) : Decidable (Unbordered pattern) :=
  inferInstanceAs (Decidable (_ ∧ ∀ k < pattern.length, 0 < k → ¬pattern.drop k <+: pattern))

omit [DecidableEq α] in
/-- An occurrence at the head of a text stays inside the text when the pattern or a part of it
follows. -/
theorem Unbordered.prefix_of_append (hpattern : Unbordered pattern) {text rest : List α}
    (htext : text ≠ []) (hrest : rest <+: pattern ∨ pattern <+: rest)
    (hstarts : pattern <+: text ++ rest) : pattern <+: text := by
  by_cases hlong : pattern.length ≤ text.length
  · exact List.prefix_of_prefix_length_le hstarts (List.prefix_append _ _) hlong
  · have hlength : 0 < text.length := List.length_pos_iff.mpr htext
    have hdrop := List.IsPrefix.drop hstarts text.length
    rw [List.drop_left] at hdrop
    refine absurd ?_ (hpattern.2 text.length (by omega) hlength)
    rcases hrest with hrest | hrest
    · exact hdrop.trans hrest
    · refine List.prefix_of_prefix_length_le hdrop hrest ?_
      rw [List.length_drop]
      omega

omit [DecidableEq α] in
/-- No occurrence lies across the end of a text that a proper part of the pattern follows. -/
theorem Unbordered.infix_of_append (hpattern : Unbordered pattern) {before rest : List α}
    (hrest : rest <+: pattern) (hproper : rest.length < pattern.length)
    (hoccurs : pattern <:+: before ++ rest) : pattern <:+: before := by
  induction before with
  | nil =>
    have hle := hoccurs.length_le
    rw [List.nil_append] at hle
    omega
  | cons c before ih =>
    rw [List.cons_append, List.infix_cons_iff, ← List.cons_append] at hoccurs
    rcases hoccurs with hstarts | hoccurs
    · exact (hpattern.prefix_of_append (by simp) (Or.inl hrest) hstarts).isInfix
    · exact List.infix_cons (ih hoccurs)

omit [DecidableEq α] in
/-- No occurrence starts inside a text without one that the pattern follows. -/
theorem Unbordered.infix_of_free (hpattern : Unbordered pattern) {before rest tag : List α}
    (hbefore : ¬pattern <:+: before) (hrest : rest = [] ∨ pattern <+: rest)
    (hoccurs : pattern ++ tag <:+: before ++ rest) : pattern ++ tag <:+: rest := by
  induction before with
  | nil => exact hoccurs
  | cons c before ih =>
    rw [List.infix_cons_iff, not_or] at hbefore
    rw [List.cons_append, List.infix_cons_iff, ← List.cons_append] at hoccurs
    rcases hoccurs with hstarts | hoccurs
    · have hcut : rest <+: pattern ∨ pattern <+: rest := by
        rcases hrest with rfl | hrest
        · exact Or.inl List.nil_prefix
        · exact Or.inr hrest
      exact absurd (hpattern.prefix_of_append (by simp) hcut
        ((List.prefix_append _ _).trans hstarts)) hbefore.1
    · exact ih hbefore.2 hoccurs

omit [DecidableEq α] in
/-- The pattern with a text behind it that does not hold another occurrence has only the one at its
head. -/
theorem Unbordered.not_infix_tail (hpattern : Unbordered pattern) {tail : List α}
    (htail : ¬pattern <:+: tail) : ¬pattern <:+: pattern.tail ++ tail := by
  have hsuffixes : ∀ suffix : List α, suffix <:+ pattern → suffix.length < pattern.length →
      ¬pattern <:+: suffix ++ tail := by
    intro suffix
    induction suffix with
    | nil => exact fun _ _ ↦ htail
    | cons c suffix ih =>
      intro hsuffix hlength hoccurs
      rw [List.cons_append, List.infix_cons_iff, ← List.cons_append] at hoccurs
      rcases hoccurs with hstarts | hoccurs
      · have hoverlap : c :: suffix <+: pattern :=
          List.prefix_of_prefix_length_le (List.prefix_append _ _) hstarts hlength.le
        rw [List.suffix_iff_eq_drop.mp hsuffix] at hoverlap
        refine hpattern.2 _ ?_ ?_ hoverlap
        · rw [List.length_cons] at hlength ⊢
          omega
        · omega
      · refine ih ((List.suffix_cons c suffix).trans hsuffix) ?_ hoccurs
        rw [List.length_cons] at hlength
        omega
  refine hsuffixes _ (List.tail_suffix pattern) ?_
  have hpos := List.length_pos_iff.mpr hpattern.1
  rw [List.length_tail]
  omega

/-- Two texts that differ where both of them have an element. -/
def Diverge (a b : List α) : Prop := ¬a <+: b ∧ ¬b <+: a

instance (a b : List α) : Decidable (Diverge a b) :=
  inferInstanceAs (Decidable (¬a <+: b ∧ ¬b <+: a))

omit [DecidableEq α] in
theorem Diverge.append_right {a b : List α} (hdiverge : Diverge a b) (rest : List α) :
    Diverge a (b ++ rest) := by
  constructor
  · intro hstarts
    rcases List.prefix_or_prefix_of_prefix hstarts (List.prefix_append b rest) with h | h
    · exact hdiverge.1 h
    · exact hdiverge.2 h
  · exact fun hstarts ↦ hdiverge.2 ((List.prefix_append b rest).trans hstarts)

omit [DecidableEq α] in
/-- In a text of marks, each with a tail that holds no mark, a mark with a tag occurs only where the
tail begins with the tag. -/
theorem Unbordered.not_infix_flatMap {mark tag : List α} (hmark : Unbordered mark)
    {tails : List (List α)} (hfree : ∀ tail ∈ tails, ¬mark <:+: tail)
    (hdiverge : ∀ tail ∈ tails, Diverge tag tail) :
    ¬mark ++ tag <:+: tails.flatMap (mark ++ ·) := by
  induction tails with
  | nil =>
    rw [List.flatMap_nil, List.infix_nil, List.append_eq_nil_iff]
    exact fun h ↦ hmark.1 h.1
  | cons tail tails ih =>
    have hrest := ih (fun t ht ↦ hfree t (List.mem_cons_of_mem tail ht))
      fun t ht ↦ hdiverge t (List.mem_cons_of_mem tail ht)
    have hopens : tails.flatMap (mark ++ ·) = [] ∨ mark <+: tails.flatMap (mark ++ ·) := by
      cases tails with
      | nil => exact Or.inl rfl
      | cons next more =>
        rw [List.flatMap_cons, List.append_assoc]
        exact Or.inr (List.prefix_append _ _)
    intro hoccurs
    rw [List.flatMap_cons] at hoccurs
    have htext : mark ++ tail ++ tails.flatMap (mark ++ ·) =
        mark.head hmark.1 :: (mark.tail ++ tail ++ tails.flatMap (mark ++ ·)) := by
      rw [← List.cons_append, ← List.cons_append, List.cons_head_tail]
    rw [htext, List.infix_cons_iff, ← htext] at hoccurs
    rcases hoccurs with hstarts | hoccurs
    · rw [List.append_assoc, List.prefix_append_right_inj] at hstarts
      exact ((hdiverge tail List.mem_cons_self).append_right _).1 hstarts
    · exact hrest (hmark.infix_of_free (hmark.not_infix_tail (hfree tail List.mem_cons_self))
        hopens hoccurs)

omit [DecidableEq α] in
/-- An element that is not in the pattern separates its occurrences. -/
theorem not_infix_append_cons {c : α} (hc : c ∉ pattern) {a b : List α} (ha : ¬pattern <:+: a)
    (hb : ¬pattern <:+: b) : ¬pattern <:+: a ++ c :: b := by
  have hpattern : pattern ≠ [] := fun h ↦ ha (h ▸ List.nil_infix)
  obtain ⟨head, tail, rfl⟩ := List.exists_cons_of_ne_nil hpattern
  have hparts : ∀ part : List α, head :: tail <+: part ++ c :: b → head :: tail <+: part := by
    intro part hstarts
    rcases List.prefix_or_prefix_of_prefix hstarts (List.prefix_append part (c :: b)) with h | h
    · exact h
    · obtain ⟨more, hmore⟩ := h
      rw [← hmore, List.prefix_append_right_inj] at hstarts
      cases more with
      | nil => exact hmore ▸ (List.append_nil part).symm ▸ List.prefix_rfl
      | cons d more =>
        obtain ⟨rfl, _⟩ := List.cons_prefix_cons.mp hstarts
        exact absurd (hmore ▸ by simp) hc
  induction a with
  | nil =>
    rw [List.nil_append, List.infix_cons_iff, not_or]
    exact ⟨fun h ↦ ha (hparts [] h).isInfix, hb⟩
  | cons d a ih =>
    rw [List.infix_cons_iff, not_or] at ha
    rw [List.cons_append, List.infix_cons_iff, not_or, ← List.cons_append]
    exact ⟨fun h ↦ ha.1 (hparts _ h), ih ha.2⟩

omit [DecidableEq α] in
/-- An occurrence at the head of a text does not go on behind an element that no proper part of the
pattern holds. -/
theorem prefix_of_closed {a b : List α} (hne : a ≠ [])
    (hlast : ∀ c ∈ a.getLast?, c ∉ pattern.dropLast) (hstarts : pattern <+: a ++ b) :
    pattern <+: a := by
  by_cases hlong : pattern.length ≤ a.length
  · exact List.prefix_of_prefix_length_le hstarts (List.prefix_append _ _) hlong
  · have hproper : a <+: pattern.dropLast := by
      have hpart : a <+: pattern :=
        List.prefix_of_prefix_length_le (List.prefix_append _ _) hstarts (by omega)
      refine List.prefix_of_prefix_length_le hpart (List.dropLast_prefix pattern) ?_
      rw [List.length_dropLast]
      omega
    refine absurd (hproper.subset (List.getLast_mem hne)) (hlast _ ?_)
    exact List.getLast?_eq_some_getLast hne

omit [DecidableEq α] in
/-- A text whose last element is inside no proper part of the pattern cuts occurrences. -/
theorem infix_append_closed {a b : List α} (hlast : ∀ c ∈ a.getLast?, c ∉ pattern.dropLast)
    (hoccurs : pattern <:+: a ++ b) : pattern <:+: a ∨ pattern <:+: b := by
  induction a with
  | nil => exact Or.inr hoccurs
  | cons d a ih =>
    rw [List.cons_append, List.infix_cons_iff, ← List.cons_append] at hoccurs
    rcases hoccurs with hstarts | hoccurs
    · refine Or.inl (prefix_of_closed ?_ hlast hstarts).isInfix
      simp
    · have hrest : ∀ c ∈ a.getLast?, c ∉ pattern.dropLast := by
        intro c hc
        refine hlast c ?_
        rw [List.getLast?_cons, Option.mem_def.mp hc]
        rfl
      rcases ih hrest hoccurs with h | h
      · exact Or.inl (List.infix_cons h)
      · exact Or.inr h

/-- The search goes on behind a text without an occurrence that cuts occurrences. -/
theorem find_append_closed {front : List α} (hfree : ¬pattern <:+: front)
    (hlast : ∀ c ∈ front.getLast?, c ∉ pattern.dropLast) (rest : List α) :
    find pattern (front ++ rest) = (find pattern rest).map (front.length + ·) := by
  induction front with
  | nil => simp
  | cons d front ih =>
    rw [List.infix_cons_iff, not_or] at hfree
    have hstarts : ¬pattern <+: d :: (front ++ rest) := fun hstarts ↦
      hfree.1 (prefix_of_closed (by simp) hlast hstarts)
    have hrest : ∀ c ∈ front.getLast?, c ∉ pattern.dropLast := by
      intro c hc
      refine hlast c ?_
      rw [List.getLast?_cons, Option.mem_def.mp hc]
      rfl
    rw [List.cons_append, find_cons hstarts, ih hfree.2 hrest, Option.map_map]
    congr 1
    funext index
    show front.length + index + 1 = front.length + 1 + index
    omega

omit [DecidableEq α] in
/-- The first occurrence. -/
theorem exists_first {text : List α} (hoccurs : pattern <:+: text) :
    ∃ before rest, text = before ++ (pattern ++ rest) ∧ (pattern ≠ [] → ¬pattern <:+: before) := by
  induction text with
  | nil =>
    rw [List.infix_nil] at hoccurs
    subst hoccurs
    exact ⟨[], [], rfl, fun h ↦ absurd rfl h⟩
  | cons c text ih =>
    by_cases hstarts : pattern <+: c :: text
    · obtain ⟨rest, hrest⟩ := hstarts
      exact ⟨[], rest, hrest.symm, fun hne h ↦ hne (List.infix_nil.mp h)⟩
    · rcases List.infix_cons_iff.mp hoccurs with h | h
      · exact absurd h hstarts
      · obtain ⟨before, rest, rfl, hfirst⟩ := ih h
        refine ⟨c :: before, rest, rfl, fun hne hbefore ↦ ?_⟩
        rcases List.infix_cons_iff.mp hbefore with h | h
        · exact hstarts (h.trans (List.prefix_append _ _))
        · exact hfirst hne h

/-- The occurrence behind a text without one is the first one. -/
theorem Unbordered.find_append (hpattern : Unbordered pattern) {before : List α}
    (hbefore : ¬pattern <:+: before) (rest : List α) :
    find pattern (before ++ (pattern ++ rest)) = some before.length := by
  have hlength := List.length_pos_iff.mpr hpattern.1
  refine Search.find_append hpattern.1 fun hoccurs ↦ hbefore (hpattern.infix_of_append
    (List.dropLast_prefix pattern) ?_ hoccurs)
  rw [List.length_dropLast]
  omega

/-- The first occurrence from an index on lies behind a text without one. -/
theorem Unbordered.findFrom_behind (hpattern : Unbordered pattern)
    {text before part rest : List α} {start : ℕ} (hpart : ¬pattern <:+: part)
    (htext : text = before ++ (part ++ (pattern ++ rest))) (hstart : start = before.length) :
    findFrom pattern text start = some (start + part.length) := by
  rw [findFrom_of_eq htext hstart, hpattern.find_append hpart]
  rfl

/-- The search in a text that may be cut off: the pattern is found behind its first text, or the cut
is before its end and it is not found. -/
theorem find_cut (hpattern : Unbordered pattern) {before rest text : List α}
    (hbefore : ¬pattern <:+: before) (htext : text <+: before ++ (pattern ++ rest)) :
    (∃ kept, kept <+: rest ∧ text = before ++ (pattern ++ kept) ∧
        find pattern text = some before.length) ∨
      find pattern text = none ∧ ¬before ++ pattern <+: text := by
  have hlength := List.length_pos_iff.mpr hpattern.1
  by_cases hlong : before ++ pattern <+: text
  · obtain ⟨kept, rfl⟩ := hlong
    rw [List.append_assoc, List.prefix_append_right_inj, List.prefix_append_right_inj] at htext
    refine Or.inl ⟨kept, htext, List.append_assoc _ _ _, ?_⟩
    rw [List.append_assoc, hpattern.find_append hbefore]
  · refine Or.inr ⟨find_eq_none_iff.mpr fun hoccurs ↦ ?_, hlong⟩
    have hshort : text <+: before ++ pattern.dropLast := by
      refine List.prefix_of_prefix_length_le htext ?_ ?_
      · rw [List.prefix_append_right_inj]
        exact (List.dropLast_prefix pattern).trans (List.prefix_append _ _)
      · by_contra hlt
        refine hlong (List.prefix_of_prefix_length_le ?_ htext ?_)
        · rw [List.prefix_append_right_inj]
          exact List.prefix_append _ _
        · rw [List.length_append, List.length_dropLast] at hlt
          rw [List.length_append]
          omega
    refine hbefore (hpattern.infix_of_append (List.dropLast_prefix pattern) ?_
      (hoccurs.trans hshort.isInfix))
    rw [List.length_dropLast]
    omega

end SyzAbi.Library.Search

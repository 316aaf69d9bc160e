import Mathlib.Data.List.Lex
import Mathlib.Data.List.Pairwise
import Mathlib.Data.List.Perm.Basic
import Mathlib.Order.Lattice

/-!
# Orders of paths

Two listings of one set of keys, each sorted by its own order, are the same list exactly when their
items agree and the two orders put any two of the keys in the same order (`sorted_eq_iff`).

A path is a list of parts, or the text of the parts with a separator between them. The order of the
parts is the order of the texts in which the separator comes before every other character
(`map_rank_join_lt_iff`). It differs from the order of the texts themselves exactly for two texts of
which one goes on with the separator where the other has a smaller character (`map_rank_lt_iff`).
-/

set_option autoImplicit false
set_option relaxedAutoImplicit false

namespace SyzAbi.Library.PathOrder

/-! ### Two orders -/

section TwoOrders

variable {ι κ τ : Type*} {r₁ r₂ : κ → κ → Prop}

/-- Two orders of a list put any two of its members in the same order. -/
theorem iff_of_pairwise {keys : List κ} (hirrefl₁ : ∀ k, ¬r₁ k k) (hirrefl₂ : ∀ k, ¬r₂ k k)
    (hasymm₁ : ∀ k l, r₁ k l → ¬r₁ l k) (hasymm₂ : ∀ k l, r₂ k l → ¬r₂ l k)
    (hsorted₁ : keys.Pairwise r₁) (hsorted₂ : keys.Pairwise r₂) :
    ∀ k ∈ keys, ∀ l ∈ keys, r₁ k l ↔ r₂ k l := by
  have hsame : keys.Pairwise fun k l ↦ (r₁ k l ↔ r₂ k l) ∧ (r₁ l k ↔ r₂ l k) :=
    (hsorted₁.and hsorted₂).imp fun {k l} hboth ↦ ⟨iff_of_true hboth.1 hboth.2,
      iff_of_false (hasymm₁ k l hboth.1) (hasymm₂ k l hboth.2)⟩
  have hsymm : Std.Symm fun k l ↦ (r₁ k l ↔ r₂ k l) ∧ (r₁ l k ↔ r₂ l k) :=
    ⟨fun _ _ hboth ↦ hboth.symm⟩
  intro k hk l hl
  exact (hsame.forall_of_forall (fun k _ ↦ ⟨iff_of_false (hirrefl₁ k) (hirrefl₂ k),
    iff_of_false (hirrefl₁ k) (hirrefl₂ k)⟩) hk hl).1

/-- Two listings of the same keys in different orders. -/
theorem sorted_eq_iff (hirrefl₁ : ∀ k, ¬r₁ k k) (hirrefl₂ : ∀ k, ¬r₂ k k)
    (hasymm₁ : ∀ k l, r₁ k l → ¬r₁ l k) (hasymm₂ : ∀ k l, r₂ k l → ¬r₂ l k)
    {sources : List ι} {item₁ item₂ : ι → τ} {key : τ → κ}
    (hkey : ∀ source, key (item₁ source) = key (item₂ source)) {listing₁ listing₂ : List τ}
    (hperm₁ : listing₁.Perm (sources.map item₁)) (hperm₂ : listing₂.Perm (sources.map item₂))
    (hsorted₁ : listing₁.Pairwise fun a b ↦ r₁ (key a) (key b))
    (hsorted₂ : listing₂.Pairwise fun a b ↦ r₂ (key a) (key b)) :
    listing₁ = listing₂ ↔ (∀ source ∈ sources, item₁ source = item₂ source) ∧
      ∀ a ∈ sources, ∀ b ∈ sources,
        r₁ (key (item₁ a)) (key (item₁ b)) ↔ r₂ (key (item₁ a)) (key (item₁ b)) := by
  have hmem₁ : ∀ source ∈ sources, item₁ source ∈ listing₁ := fun _ hsource ↦
    hperm₁.mem_iff.mpr (List.mem_map_of_mem hsource)
  have hmem₂ : ∀ source ∈ sources, item₂ source ∈ listing₂ := fun _ hsource ↦
    hperm₂.mem_iff.mpr (List.mem_map_of_mem hsource)
  constructor
  · rintro rfl
    have hinjective : ∀ a ∈ listing₁, ∀ b ∈ listing₁, key a = key b → a = b := by
      have hne : ∀ {a b : τ}, r₁ (key a) (key b) → key a ≠ key b := by
        intro a b hlt heq
        rw [heq] at hlt
        exact hirrefl₁ _ hlt
      intro a ha b hb heq
      by_contra hab
      have hsymm : Std.Symm fun a b ↦ key a ≠ key b := ⟨fun _ _ h ↦ h.symm⟩
      exact (hsorted₁.imp hne).forall ha hb hab heq
    refine ⟨fun source hsource ↦ hinjective _ (hmem₁ source hsource) _ (hmem₂ source hsource)
      (hkey source), fun a ha b hb ↦ ?_⟩
    exact iff_of_pairwise hirrefl₁ hirrefl₂ hasymm₁ hasymm₂ (List.pairwise_map.mpr hsorted₁)
      (List.pairwise_map.mpr hsorted₂) _ (List.mem_map_of_mem (hmem₁ a ha))
      _ (List.mem_map_of_mem (hmem₁ b hb))
  · rintro ⟨hitems, horders⟩
    have hperm : listing₁.Perm listing₂ := by
      rw [List.map_congr_left hitems] at hperm₁
      exact hperm₁.trans hperm₂.symm
    have hresorted : listing₁.Pairwise fun a b ↦ r₂ (key a) (key b) := by
      refine hsorted₁.imp_of_mem fun {a b} ha hb hlt ↦ ?_
      obtain ⟨x, hx, rfl⟩ := List.mem_map.mp (hperm₁.mem_iff.mp ha)
      obtain ⟨y, hy, rfl⟩ := List.mem_map.mp (hperm₁.mem_iff.mp hb)
      exact (horders x hx y hy).mp hlt
    exact hperm.eq_of_pairwise (fun a b _ _ hab hba ↦ absurd hba (hasymm₂ _ _ hab)) hresorted
      hsorted₂

end TwoOrders

/-- What is sorted by a key is in the order of the key. -/
theorem pairwise_mergeSort {τ κ : Type*} [LinearOrder κ] {key : τ → κ} {le : τ → τ → Bool}
    (hle : ∀ a b, le a b = true ↔ key a ≤ key b) (items : List τ) :
    (items.mergeSort le).Pairwise fun a b ↦ key a ≤ key b := by
  have htrans : ∀ a b c, le a b = true → le b c = true → le a c = true := by
    intro a b c hab hbc
    exact (hle a c).mpr (((hle a b).mp hab).trans ((hle b c).mp hbc))
  have htotal : ∀ a b, (le a b || le b a) = true := by
    intro a b
    rw [Bool.or_eq_true]
    exact (le_total (key a) (key b)).imp (hle a b).mpr (hle b a).mpr
  exact (List.pairwise_mergeSort htrans htotal items).imp fun {a b} ↦ (hle a b).mp

/-- A common beginning does not matter. -/
theorem append_lt_append_iff (front a b : List ℕ) : front ++ a < front ++ b ↔ a < b := by
  induction front with
  | nil => exact Iff.rfl
  | cons c front ih => rw [List.cons_append, List.cons_append, List.cons_lt_cons_self, ih]

/-! ### Separators -/

section Separators

variable (separator : ℕ)

/-- The place of a character when the separator comes first. -/
def rank (c : ℕ) : ℕ := if c = separator then 0 else c + 1

theorem rank_separator : rank separator separator = 0 := if_pos rfl

variable {separator}

theorem rank_of_ne {c : ℕ} (hne : c ≠ separator) : rank separator c = c + 1 := if_neg hne

variable (separator)

theorem rank_injective : Function.Injective (rank separator) := by
  intro c d hrank
  rw [rank, rank] at hrank
  split_ifs at hrank with hc hd
  · rw [hc, hd]
  · exact Nat.succ.inj hrank

/-- One text goes on with the separator where the other has a smaller character. -/
def Reordered (a b : List ℕ) : Prop :=
  ∃ front rest c rest', a = front ++ separator :: rest ∧ b = front ++ c :: rest' ∧ c < separator

variable {separator}

theorem reordered_cons_self {c : ℕ} {a b : List ℕ} :
    Reordered separator (c :: a) (c :: b) ↔ Reordered separator a b := by
  constructor
  · rintro ⟨front, rest, d, rest', ha, hb, hlt⟩
    cases front with
    | nil =>
      obtain ⟨rfl, -⟩ := List.cons.inj ha
      obtain ⟨rfl, -⟩ := List.cons.inj hb
      exact absurd hlt (Nat.lt_irrefl _)
    | cons e front =>
      exact ⟨front, rest, d, rest', (List.cons.inj ha).2, (List.cons.inj hb).2, hlt⟩
  · rintro ⟨front, rest, d, rest', rfl, rfl, hlt⟩
    exact ⟨c :: front, rest, d, rest', rfl, rfl, hlt⟩

theorem reordered_cons_of_ne {c d : ℕ} (hne : c ≠ d) {a b : List ℕ} :
    Reordered separator (c :: a) (d :: b) ↔ c = separator ∧ d < separator := by
  constructor
  · rintro ⟨front, rest, e, rest', ha, hb, hlt⟩
    cases front with
    | nil =>
      obtain ⟨rfl, -⟩ := List.cons.inj ha
      obtain ⟨rfl, -⟩ := List.cons.inj hb
      exact ⟨rfl, hlt⟩
    | cons f front => exact absurd ((List.cons.inj ha).1.trans (List.cons.inj hb).1.symm) hne
  · rintro ⟨rfl, hlt⟩
    exact ⟨[], a, d, b, rfl, rfl, hlt⟩

theorem not_reordered_nil (a : List ℕ) :
    ¬Reordered separator [] a ∧ ¬Reordered separator a [] := by
  constructor
  · rintro ⟨front, rest, c, rest', hnil, -, -⟩
    cases front <;> cases hnil
  · rintro ⟨front, rest, c, rest', -, hnil, -⟩
    cases front <;> cases hnil

/-- The two orders of texts, at the place of the first difference. -/
theorem map_rank_lt_iff (a b : List ℕ) :
    (a.map (rank separator) < b.map (rank separator) ↔ a < b) ↔
      ¬Reordered separator a b ∧ ¬Reordered separator b a := by
  induction a generalizing b with
  | nil =>
    refine iff_of_true ?_ (not_reordered_nil b)
    cases b with
    | nil => exact Iff.rfl
    | cons d b => exact iff_of_true (List.nil_lt_cons _ _) (List.nil_lt_cons _ _)
  | cons c a ih =>
    cases b with
    | nil =>
      exact iff_of_true (iff_of_false (List.not_lt_nil _) (List.not_lt_nil _))
        (not_reordered_nil _).symm
    | cons d b =>
      rw [List.map_cons, List.map_cons, List.cons_lt_cons_iff, List.cons_lt_cons_iff]
      by_cases hne : c = d
      · subst hne
        rw [reordered_cons_self, reordered_cons_self, ← ih b]
        simp only [Nat.lt_irrefl, false_or, true_and]
      · rw [reordered_cons_of_ne hne, reordered_cons_of_ne (Ne.symm hne)]
        simp only [(rank_injective separator).ne hne, hne, false_and, or_false]
        rw [rank, rank]
        split_ifs <;> omega

/-! ### Joined parts -/

variable (separator)

/-- The text behind a part. -/
def behind : List (List ℕ) → List ℕ
  | [] => []
  | part :: rest => separator :: (part ++ behind rest)

/-- The text of the parts with the separator between them. -/
def join : List (List ℕ) → List ℕ
  | [] => []
  | part :: rest => part ++ behind separator rest

variable {separator}

theorem mem_behind {parts : List (List ℕ)} {c : ℕ} (hc : c ∈ behind separator parts) :
    c = separator ∨ ∃ part ∈ parts, c ∈ part := by
  induction parts with
  | nil => cases hc
  | cons part rest ih =>
    rcases List.mem_cons.mp hc with hseparator | hmem
    · exact .inl hseparator
    · rcases List.mem_append.mp hmem with hpart | hrest
      · exact .inr ⟨part, List.mem_cons_self, hpart⟩
      · refine (ih hrest).imp_right ?_
        rintro ⟨other, hother, hmem⟩
        exact ⟨other, List.mem_cons_of_mem part hother, hmem⟩

/-- The characters of a joined text. -/
theorem mem_join {parts : List (List ℕ)} {c : ℕ} (hc : c ∈ join separator parts) :
    c = separator ∨ ∃ part ∈ parts, c ∈ part := by
  cases parts with
  | nil => cases hc
  | cons part rest => exact mem_behind (List.mem_cons_of_mem separator hc)

/-- Two texts that begin with parts are first ordered by these. -/
theorem map_rank_append_lt_iff {p q : List ℕ} (hp : separator ∉ p) (hq : separator ∉ q)
    (ps qs : List (List ℕ)) :
    (p ++ behind separator ps).map (rank separator) <
        (q ++ behind separator qs).map (rank separator) ↔
      p < q ∨ p = q ∧ (behind separator ps).map (rank separator) <
        (behind separator qs).map (rank separator) := by
  induction p generalizing q with
  | nil =>
    cases q with
    | nil => simp only [List.nil_append, List.not_lt_nil, false_or, true_and]
    | cons d q =>
      have hd : d ≠ separator := fun heq ↦ hq (heq ▸ List.mem_cons_self)
      refine iff_of_true ?_ (.inl (List.nil_lt_cons d q))
      rw [List.nil_append, List.cons_append, List.map_cons, rank_of_ne hd]
      cases ps with
      | nil => exact List.nil_lt_cons _ _
      | cons part rest =>
        rw [behind, List.map_cons, rank_separator]
        exact List.cons_lt_cons_iff.mpr (.inl (Nat.zero_lt_succ d))
  | cons c p ih =>
    have hc : c ≠ separator := fun heq ↦ hp (heq ▸ List.mem_cons_self)
    cases q with
    | nil =>
      refine iff_of_false ?_ (by simp)
      rw [List.nil_append, List.cons_append, List.map_cons, rank_of_ne hc]
      cases qs with
      | nil => exact List.not_lt_nil _
      | cons part rest =>
        rw [behind, List.map_cons, rank_separator, List.cons_lt_cons_iff]
        omega
    | cons d q =>
      have hd : d ≠ separator := fun heq ↦ hq (heq ▸ List.mem_cons_self)
      have hrest := ih (fun hmem ↦ hp (List.mem_cons_of_mem c hmem))
        (fun hmem ↦ hq (List.mem_cons_of_mem d hmem))
      rw [List.cons_append, List.cons_append, List.map_cons, List.map_cons,
        List.cons_lt_cons_iff, hrest, List.cons_lt_cons_iff, rank_of_ne hc, rank_of_ne hd,
        Nat.succ_lt_succ_iff, Nat.succ_inj, List.cons.injEq]
      tauto

theorem map_rank_behind_lt_iff {ps qs : List (List ℕ)} (hps : ∀ part ∈ ps, separator ∉ part)
    (hqs : ∀ part ∈ qs, separator ∉ part) :
    (behind separator ps).map (rank separator) < (behind separator qs).map (rank separator) ↔
      ps < qs := by
  induction ps generalizing qs with
  | nil =>
    cases qs with
    | nil => exact iff_of_false (List.not_lt_nil _) (List.not_lt_nil _)
    | cons q qs => exact iff_of_true (List.nil_lt_cons _ _) (List.nil_lt_cons _ _)
  | cons p ps ih =>
    cases qs with
    | nil => exact iff_of_false (List.not_lt_nil _) (List.not_lt_nil _)
    | cons q qs =>
      obtain ⟨hp, hps⟩ := List.forall_mem_cons.mp hps
      obtain ⟨hq, hqs⟩ := List.forall_mem_cons.mp hqs
      rw [behind, behind, List.map_cons, List.map_cons, List.cons_lt_cons_self,
        map_rank_append_lt_iff hp hq, ih hps hqs, List.cons_lt_cons_iff]

/-- The order of the parts is the order of the texts in which the separator comes first. -/
theorem map_rank_join_lt_iff {ps qs : List (List ℕ)} (hps : ∀ part ∈ ps, separator ∉ part)
    (hqs : ∀ part ∈ qs, separator ∉ part) (hpsNe : ps ≠ []) (hqsNe : qs ≠ []) :
    (join separator ps).map (rank separator) < (join separator qs).map (rank separator) ↔
      ps < qs := by
  obtain ⟨p, ps, rfl⟩ := List.exists_cons_of_ne_nil hpsNe
  obtain ⟨q, qs, rfl⟩ := List.exists_cons_of_ne_nil hqsNe
  obtain ⟨hp, hps⟩ := List.forall_mem_cons.mp hps
  obtain ⟨hq, hqs⟩ := List.forall_mem_cons.mp hqs
  rw [join, join, map_rank_append_lt_iff hp hq, map_rank_behind_lt_iff hps hqs,
    List.cons_lt_cons_iff]

/-- Different parts have different texts. -/
theorem join_injective_of_separated {ps qs : List (List ℕ)} (hps : ∀ part ∈ ps, separator ∉ part)
    (hqs : ∀ part ∈ qs, separator ∉ part) (hpsNe : ps ≠ []) (hqsNe : qs ≠ [])
    (hjoin : join separator ps = join separator qs) : ps = qs := by
  have hforth := map_rank_join_lt_iff hps hqs hpsNe hqsNe
  have hback := map_rank_join_lt_iff hqs hps hqsNe hpsNe
  rw [hjoin] at hforth hback
  rcases lt_trichotomy ps qs with hlt | heq | hlt
  · exact absurd (hforth.mpr hlt) (lt_irrefl _)
  · exact heq
  · exact absurd (hback.mpr hlt) (lt_irrefl _)

end Separators

end SyzAbi.Library.PathOrder

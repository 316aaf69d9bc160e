import Mathlib.Data.List.Forall2

/-!
# Computations that may fail

Inversion rules for `Except`: what a bind, a loop over a list, and an accumulating loop say about
their parts when they succeed. A loop that runs an effect and then records its result is the
recording of the results of all effects (`foldlM_eq_ok_iff`).
-/

set_option autoImplicit false
set_option relaxedAutoImplicit false

namespace SyzAbi.Library.Fallible

variable {ε α β σ : Type}

/-- A bind succeeds when both of its parts do. -/
theorem bind_eq_ok_iff {x : Except ε α} {f : α → Except ε β} {b : β} :
    (x >>= f) = .ok b ↔ ∃ a, x = .ok a ∧ f a = .ok b := by
  cases x with
  | error e =>
    constructor
    · intro h
      cases h
    · rintro ⟨a, h, _⟩
      cases h
  | ok a =>
    constructor
    · intro h
      exact ⟨a, rfl, h⟩
    · rintro ⟨_, h, hb⟩
      cases h
      exact hb

theorem pure_eq_ok_iff {a b : α} : (pure a : Except ε α) = .ok b ↔ a = b :=
  ⟨Except.ok.inj, fun h ↦ congrArg Except.ok h⟩

@[simp] theorem ok_bind (a : α) (f : α → Except ε β) : (Except.ok a >>= f) = f a := rfl

/-- A bind that only computes is a map. -/
theorem bind_pure_eq_map (x : Except ε α) (f : α → β) : (x >>= fun a ↦ pure (f a)) = x.map f := by
  cases x <;> rfl

/-- A bind has a result when its first part has one and the second part has one for it. -/
theorem exists_bind_eq_ok_iff {x : Except ε α} {f : α → Except ε β} {p : Prop}
    (hf : ∀ a, x = .ok a → ((∃ b, f a = .ok b) ↔ p)) :
    (∃ b, (x >>= f) = .ok b) ↔ (∃ a, x = .ok a) ∧ p := by
  constructor
  · rintro ⟨b, hb⟩
    obtain ⟨a, ha, hfa⟩ := bind_eq_ok_iff.mp hb
    exact ⟨⟨a, ha⟩, (hf a ha).mp ⟨b, hfa⟩⟩
  · rintro ⟨⟨a, ha⟩, hp⟩
    obtain ⟨b, hb⟩ := (hf a ha).mpr hp
    exact ⟨b, bind_eq_ok_iff.mpr ⟨a, ha, hb⟩⟩

/-- A loop over a list succeeds when every call does. -/
theorem mapM_eq_ok_iff {f : α → Except ε β} {items : List α} {results : List β} :
    items.mapM f = .ok results ↔
      List.Forall₂ (fun item result ↦ f item = .ok result) items results := by
  induction items generalizing results with
  | nil =>
    rw [List.mapM_nil, pure_eq_ok_iff, List.forall₂_nil_left_iff]
    exact eq_comm
  | cons item rest ih =>
    rw [List.mapM_cons, bind_eq_ok_iff]
    constructor
    · rintro ⟨result, hresult, hrest⟩
      obtain ⟨tail, htail, heq⟩ := bind_eq_ok_iff.mp hrest
      rw [← pure_eq_ok_iff.mp heq]
      exact List.Forall₂.cons hresult (ih.mp htail)
    · intro h
      cases h with
      | cons hresult htail =>
        exact ⟨_, hresult, bind_eq_ok_iff.mpr ⟨_, ih.mpr htail, rfl⟩⟩

/-- A loop over items that all have a result ends with their results. -/
theorem exists_mapM_eq_ok {f : α → Except ε β} {items : List α}
    (hitems : ∀ item ∈ items, ∃ result, f item = .ok result) :
    ∃ results, items.mapM f = .ok results := by
  induction items with
  | nil => exact ⟨[], rfl⟩
  | cons item rest ih =>
    obtain ⟨result, hresult⟩ := hitems item List.mem_cons_self
    obtain ⟨results, hresults⟩ := ih fun other hother ↦
      hitems other (List.mem_cons_of_mem item hother)
    exact ⟨result :: results, mapM_eq_ok_iff.mpr (.cons hresult (mapM_eq_ok_iff.mp hresults))⟩

/-- Every result of a loop over a list is the result of some item. -/
theorem exists_of_mapM_eq_ok {f : α → Except ε β} {items : List α} {results : List β}
    (hloop : items.mapM f = .ok results) {result : β} (hresult : result ∈ results) :
    ∃ item ∈ items, f item = .ok result := by
  have hpointwise := mapM_eq_ok_iff.mp hloop
  induction hpointwise with
  | nil => cases hresult
  | cons hitem hrest ih =>
    rcases List.mem_cons.mp hresult with rfl | htail
    · exact ⟨_, List.mem_cons_self, hitem⟩
    · obtain ⟨item, hmem, hok⟩ := ih (mapM_eq_ok_iff.mpr hrest) htail
      exact ⟨item, List.mem_cons_of_mem _ hmem, hok⟩

/-- Every item of a loop over a list has a result. -/
theorem exists_result_of_mapM_eq_ok {f : α → Except ε β} {items : List α} {results : List β}
    (hloop : items.mapM f = .ok results) {item : α} (hitem : item ∈ items) :
    ∃ result ∈ results, f item = .ok result := by
  have hpointwise := mapM_eq_ok_iff.mp hloop
  induction hpointwise with
  | nil => cases hitem
  | cons hfirst hrest ih =>
    rcases List.mem_cons.mp hitem with rfl | htail
    · exact ⟨_, List.mem_cons_self, hfirst⟩
    · obtain ⟨result, hmem, hok⟩ := ih (mapM_eq_ok_iff.mpr hrest) htail
      exact ⟨result, List.mem_cons_of_mem _ hmem, hok⟩

/-- A loop over a list has results exactly when every item has one. -/
theorem exists_mapM_eq_ok_iff {f : α → Except ε β} {items : List α} :
    (∃ results, items.mapM f = .ok results) ↔ ∀ item ∈ items, ∃ result, f item = .ok result := by
  constructor
  · rintro ⟨results, hloop⟩ item hitem
    obtain ⟨result, -, hresult⟩ := exists_result_of_mapM_eq_ok hloop hitem
    exact ⟨result, hresult⟩
  · exact exists_mapM_eq_ok

/-- A loop that collects lists does not change when items without a contribution are left out. -/
theorem flatten_mapM_filter {f : α → Except ε (List β)} {keep : α → Bool} {items : List α}
    (hdropped : ∀ item ∈ items, keep item = false → f item = .ok []) :
    List.flatten <$> (items.filter keep).mapM f = List.flatten <$> items.mapM f := by
  induction items with
  | nil => rfl
  | cons item rest ih =>
    have hrest := ih fun other hother ↦ hdropped other (List.mem_cons_of_mem item hother)
    rw [List.mapM_cons]
    cases hkeep : keep item with
    | false =>
      rw [List.filter_cons_of_neg (by rw [hkeep]; exact Bool.false_ne_true), hrest,
        hdropped item List.mem_cons_self hkeep, ok_bind]
      cases rest.mapM f with
      | error error => rfl
      | ok lists => rfl
    | true =>
      rw [List.filter_cons_of_pos hkeep, List.mapM_cons]
      cases f item with
      | error error => rfl
      | ok first =>
        rw [ok_bind, ok_bind]
        cases hall : rest.mapM f with
        | error error =>
          rw [hall] at hrest
          cases hkept : (rest.filter keep).mapM f with
          | error other =>
            rw [hkept] at hrest
            exact hrest
          | ok lists =>
            rw [hkept] at hrest
            cases hrest
        | ok lists =>
          rw [hall] at hrest
          cases hkept : (rest.filter keep).mapM f with
          | error other =>
            rw [hkept] at hrest
            cases hrest
          | ok kept =>
            rw [hkept] at hrest
            exact congrArg (fun more ↦ Except.ok (first ++ more)) (Except.ok.inj hrest)

/-- A loop that runs `f` on every item and records the results one by one. -/
theorem foldlM_eq_ok_iff {f : α → Except ε β} {record : σ → β → σ} {step : σ → α → Except ε σ}
    (hstep : ∀ state item, step state item = (f item >>= fun result ↦ pure (record state result)))
    {start last : σ} {items : List α} :
    items.foldlM step start = .ok last ↔
      ∃ results, items.mapM f = .ok results ∧ last = results.foldl record start := by
  induction items generalizing start last with
  | nil =>
    rw [List.foldlM_nil, pure_eq_ok_iff, List.mapM_nil]
    constructor
    · rintro rfl
      exact ⟨[], rfl, rfl⟩
    · rintro ⟨results, hresults, rfl⟩
      rw [← pure_eq_ok_iff.mp hresults]
      rfl
  | cons item rest ih =>
    rw [List.foldlM_cons, bind_eq_ok_iff, List.mapM_cons]
    constructor
    · rintro ⟨middle, hmiddle, hrest⟩
      rw [hstep, bind_eq_ok_iff] at hmiddle
      obtain ⟨result, hresult, hrecord⟩ := hmiddle
      obtain ⟨results, hresults, rfl⟩ := ih.mp hrest
      rw [← pure_eq_ok_iff.mp hrecord]
      refine ⟨result :: results, bind_eq_ok_iff.mpr ⟨result, hresult, ?_⟩, rfl⟩
      exact bind_eq_ok_iff.mpr ⟨results, hresults, rfl⟩
    · rintro ⟨results, hresults, rfl⟩
      obtain ⟨result, hresult, htail⟩ := bind_eq_ok_iff.mp hresults
      obtain ⟨tail, htail, heq⟩ := bind_eq_ok_iff.mp htail
      rw [← pure_eq_ok_iff.mp heq]
      have hrest : rest.foldlM step (record start result) =
          .ok (tail.foldl record (record start result)) := ih.mpr ⟨tail, htail, rfl⟩
      refine ⟨record start result, ?_, hrest⟩
      rw [hstep, bind_eq_ok_iff]
      exact ⟨result, hresult, rfl⟩

end SyzAbi.Library.Fallible

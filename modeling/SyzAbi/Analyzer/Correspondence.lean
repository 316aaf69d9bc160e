import SyzAbi.Analyzer.Invariance

/-!
# Handles that correspond one-to-one

That two raw traces are the same up to a renaming of handles says that a renaming exists. It exists
exactly when two things hold that can be read off the traces. The traces have the same form: where
one has a number the other has the same number, and where one has a handle the other has a handle of
the same kind (`EventsSameForm`). And the handles that are met at one place of the two traces
correspond one-to-one (`HandlesMet`).
-/

set_option autoImplicit false
set_option relaxedAutoImplicit false

namespace SyzAbi.Analyzer

open CanonicalContext Library.FirstUse

/-! ### The same form -/

/-- Two positions hold the same literal, or handles of one kind. -/
inductive Position.SameForm : Position → Position → Prop
  | literal (value : ℤ) : SameForm (.literal value) (.literal value)
  | handle (kind : HandleKind) (value value' : ℤ) :
      SameForm (.handle kind value) (.handle kind value')

/-- Two outputs agree on their fixed fields, and they have as many fd resources. -/
structure OutputsSameForm (left right : RawOutput) : Prop where
  label : left.label = right.label
  argIndex : left.argIndex = right.argIndex
  length : left.length = right.length
  sha256 : left.sha256 = right.sha256
  preview : maskedPreview left = maskedPreview right
  resources : (fdResourceValues left).length = (fdResourceValues right).length

/-- Two events agree on their name and errno, and their positions and outputs have the same form. -/
structure EventsSameForm (left right : RawEvent) : Prop where
  name : left.syscallName = right.syscallName
  errno : left.errno = right.errno
  args : List.Forall₂ Position.SameForm (argPositions left) (argPositions right)
  returnValue : (returnPosition left).SameForm (returnPosition right)
  outputs : List.Forall₂ OutputsSameForm left.outputs right.outputs

/-! ### Handles at one place -/

/-- The two events pass or return the handles `value` and `value'` at one position. -/
def NumbersMet (left right : RawEvent) (kind : HandleKind) (value value' : ℤ) : Prop :=
  (.handle kind value, .handle kind value') ∈ (argPositions left).zip (argPositions right) ∨
    returnPosition left = .handle kind value ∧ returnPosition right = .handle kind value'

/-- Two outputs of the two events have the fd resources `value` and `value'` at one position. -/
def ResourcesMet (left right : RawEvent) (value value' : ℤ) : Prop :=
  ∃ outputs ∈ left.outputs.zip right.outputs,
    (value, value') ∈ (fdResourceValues outputs.1).zip (fdResourceValues outputs.2)

/-- The two traces have the handles `value` and `value'` at one place. -/
def HandlesMet (left right : List RawEvent) (kind : HandleKind) (value value' : ℤ) : Prop :=
  ∃ events ∈ left.zip right, NumbersMet events.1 events.2 kind value value' ∨
    kind = .fd ∧ ResourcesMet events.1 events.2 value value'

/-! ### Related events -/

section Related

variable {ρ : HandleRenaming}

/-- Of a conjunction of two pointwise relations the second may be read off the pairs. -/
theorem forall₂_iff_and_zip {α β : Type} {Q R S : α → β → Prop}
    (hrel : ∀ a b, Q a b ↔ R a b ∧ S a b) (left : List α) (right : List β) :
    List.Forall₂ Q left right ↔
      List.Forall₂ R left right ∧ ∀ pair ∈ left.zip right, S pair.1 pair.2 := by
  constructor
  · intro h
    refine ⟨h.imp fun a b hab ↦ ((hrel a b).mp hab).1, fun pair hpair ↦ ?_⟩
    exact ((hrel pair.1 pair.2).mp (List.forall₂_zip h hpair)).2
  · rintro ⟨hR, hS⟩
    rw [List.forall₂_iff_zip]
    refine ⟨hR.length_eq, fun {a b} hpair ↦ ?_⟩
    exact (hrel a b).mpr ⟨List.forall₂_zip hR hpair, hS _ hpair⟩

theorem related_iff {left right : Position} :
    left.Related ρ right ↔ left.SameForm right ∧ ∀ kind value value',
      left = .handle kind value → right = .handle kind value' → value' ∈ ρ kind value := by
  constructor
  · rintro (value | ⟨kind, hvalue⟩)
    · exact ⟨.literal value, fun _ _ _ hleft ↦ Position.noConfusion hleft⟩
    · refine ⟨.handle kind _ _, ?_⟩
      rintro kind value value' ⟨⟩ ⟨⟩
      exact hvalue
  · rintro ⟨value | ⟨kind, value, value'⟩, hvalues⟩
    · exact .literal value
    · exact .handle kind (hvalues kind value value' rfl rfl)

theorem outputsRelated_iff {left right : RawOutput} :
    OutputsRelated ρ left right ↔ OutputsSameForm left right ∧
      ∀ values ∈ (fdResourceValues left).zip (fdResourceValues right),
        values.2 ∈ ρ .fd values.1 := by
  constructor
  · rintro ⟨hlabel, hargIndex, hlength, hsha, hpreview, hresources⟩
    exact ⟨⟨hlabel, hargIndex, hlength, hsha, hpreview, hresources.length_eq⟩,
      fun values hvalues ↦ List.forall₂_zip hresources hvalues⟩
  · rintro ⟨⟨hlabel, hargIndex, hlength, hsha, hpreview, hresources⟩, hvalues⟩
    exact ⟨hlabel, hargIndex, hlength, hsha, hpreview,
      List.forall₂_iff_zip.mpr ⟨hresources, fun hpair ↦ hvalues _ hpair⟩⟩

/-- Two events are related exactly when they have the same form and the renaming relates the
handles that they have at one place. -/
theorem eventsRelated_iff {left right : RawEvent} :
    EventsRelated ρ left right ↔ EventsSameForm left right ∧
      ∀ kind value value', (NumbersMet left right kind value value' ∨
        kind = .fd ∧ ResourcesMet left right value value') → value' ∈ ρ kind value := by
  constructor
  · rintro ⟨hname, herrno, hargs, hreturn, houtputs⟩
    rw [forall₂_iff_and_zip fun _ _ ↦ related_iff] at hargs
    rw [related_iff] at hreturn
    rw [forall₂_iff_and_zip fun _ _ ↦ outputsRelated_iff] at houtputs
    refine ⟨⟨hname, herrno, hargs.1, hreturn.1, houtputs.1⟩, ?_⟩
    rintro kind value value' ((harg | ⟨hleft, hright⟩) | ⟨rfl, outputs, hmem, hvalues⟩)
    · exact hargs.2 _ harg kind value value' rfl rfl
    · exact hreturn.2 kind value value' hleft hright
    · exact houtputs.2 outputs hmem _ hvalues
  · rintro ⟨⟨hname, herrno, hargs, hreturn, houtputs⟩, hmet⟩
    refine ⟨hname, herrno, ?_, related_iff.mpr ⟨hreturn, ?_⟩, ?_⟩
    · rw [forall₂_iff_and_zip fun _ _ ↦ related_iff]
      refine ⟨hargs, ?_⟩
      rintro ⟨_, _⟩ hpair kind value value' ⟨⟩ ⟨⟩
      exact hmet kind value value' (Or.inl (Or.inl hpair))
    · intro kind value value' hleft hright
      exact hmet kind value value' (Or.inl (Or.inr ⟨hleft, hright⟩))
    · rw [forall₂_iff_and_zip fun _ _ ↦ outputsRelated_iff]
      refine ⟨houtputs, fun outputs hmem values hvalues ↦ ?_⟩
      exact hmet .fd values.1 values.2 (Or.inr ⟨rfl, outputs, hmem, hvalues⟩)

end Related

/-! ### The renaming of two traces -/

/-- Two traces are the same up to a renaming of handles exactly when their events have the same form
and the handles at one place correspond one-to-one. -/
theorem sameUpToRenaming_iff (left right : RawTrace) :
    SameUpToRenaming left right ↔
      List.Forall₂ EventsSameForm left.events right.events ∧
        ∀ kind, Relator.BiUnique (HandlesMet left.events right.events kind) := by
  have hevents : ∀ ρ : HandleRenaming,
      List.Forall₂ (EventsRelated ρ) left.events right.events ↔ _ := fun ρ ↦
     forall₂_iff_and_zip (fun _ _ ↦ eventsRelated_iff) left.events right.events
  simp only [SameUpToRenaming, hevents]
  constructor
  · rintro ⟨ρ, hform, hmet⟩
    refine ⟨hform, fun kind ↦ exists_pequiv_iff.mp ⟨ρ kind, ?_⟩⟩
    rintro value value' ⟨events, hevents, hvalues⟩
    exact hmet events hevents kind value value' hvalues
  · rintro ⟨hform, hunique⟩
    choose ρ hρ using fun kind ↦ exists_pequiv_iff.mpr (hunique kind)
    exact ⟨ρ, hform, fun events hevents kind value value' hvalues ↦
      hρ kind value value' ⟨events, hevents, hvalues⟩⟩

end SyzAbi.Analyzer

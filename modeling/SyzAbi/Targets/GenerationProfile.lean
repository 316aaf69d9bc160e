import SyzAbi.Library.OrderedDict
import SyzAbi.Targets.ScmlGate

/-!
# The generation profile

The manifest lists the system calls by category, and the profile says which of them programs may be
made of. `applyGenerationProfile` (`targets/asterinas/scml.py`) makes one index of the two, which
the derivation of the static corpus and the gate of the preflight both read.

`generationEnabled_iff` says what the index allows: a call whose last listing is in an enabled
category and not disabled there, and that the profile does not defer.
-/

set_option autoImplicit false
set_option relaxedAutoImplicit false

namespace SyzAbi.Targets

open Orchestrator Library.Json Library.OrderedDict

/-- `manifest["categories"]`, with the `"syscalls"` of each. -/
abbrev Manifest := List (PyStr × List (PyStr × ManifestEntry))

/-- The profile. Its deferred categories and calls have reasons. -/
structure GenerationProfile where
  enabledCategories : List PyStr
  deferredCategories : List (PyStr × Value)
  deferredSyscalls : List (PyStr × Value)
  sequenceMin : ℤ
  sequenceMax : ℤ

/-- `bool(entry.get("generation_enabled", True))`. -/
def isEnabled (entry : ManifestEntry) : Bool :=
  ((entry.lookup (PyStr.ofString "generation_enabled")).map truthy).getD true

variable (profile : GenerationProfile)

/-- Whether a listed call is generated, and the reason when it is not. -/
def GenerationProfile.decision (categoryName syscallName : PyStr) (entry : ManifestEntry) :
    Bool × Value :=
  match profile.deferredSyscalls.lookup syscallName with
  | some reason => (false, reason)
  | none =>
    if categoryName ∉ profile.enabledCategories then
      (false, (profile.deferredCategories.lookup categoryName).getD
        (.str (PyStr.ofString "category_not_enabled")))
    else (isEnabled entry, (entry.lookup (PyStr.ofString "defer_reason")).getD .null)

/-- The body of the loops of `apply_generation_profile`. -/
def GenerationProfile.effectiveEntry (categoryName syscallName : PyStr) (entry : ManifestEntry) :
    ManifestEntry :=
  let (enabled, reason) := profile.decision categoryName syscallName entry
  insert (PyStr.ofString "defer_reason") reason
    (insert (PyStr.ofString "generation_enabled") (.bool enabled)
      (insert (PyStr.ofString "category") (.str categoryName) entry))

/-- The calls of a manifest with their categories, in their order. -/
def listings (manifest : Manifest) : List (PyStr × PyStr × ManifestEntry) :=
  manifest.flatMap fun category ↦ category.2.map fun item ↦ (item.1, category.1, item.2)

/-- `apply_generation_profile`. -/
def applyGenerationProfile (manifest : Manifest) : List (PyStr × ManifestEntry) :=
  insertAll [] ((listings manifest).map fun item ↦
    (item.1, profile.effectiveEntry item.2.1 item.1 item.2.2))

/-- Programs may be made of this call. -/
def Generates (manifest : Manifest) (syscallName : PyStr) : Prop :=
  profile.deferredSyscalls.lookup syscallName = none ∧
    ∃ categoryName entry,
      (listings manifest).reverse.lookup syscallName = some (categoryName, entry) ∧
        categoryName ∈ profile.enabledCategories ∧ isEnabled entry = true

variable {profile} {manifest : Manifest}

theorem isEnabled_effectiveEntry (categoryName syscallName : PyStr) (entry : ManifestEntry) :
    isEnabled (profile.effectiveEntry categoryName syscallName entry) =
      (profile.decision categoryName syscallName entry).1 := by
  rw [isEnabled, GenerationProfile.effectiveEntry]
  dsimp only
  rw [lookup_insert_of_ne (by decide), lookup_insert_self]
  rfl

theorem decision_fst_iff {categoryName syscallName : PyStr} {entry : ManifestEntry} :
    (profile.decision categoryName syscallName entry).1 = true ↔
      profile.deferredSyscalls.lookup syscallName = none ∧
        categoryName ∈ profile.enabledCategories ∧ isEnabled entry = true := by
  rw [GenerationProfile.decision]
  cases profile.deferredSyscalls.lookup syscallName with
  | some reason => simp
  | none =>
    by_cases hcategory : categoryName ∈ profile.enabledCategories
    · simp [hcategory]
    · simp [hcategory]

/-- The index holds the last listing of a call. -/
theorem lookup_applyGenerationProfile (syscallName : PyStr) :
    (applyGenerationProfile profile manifest).lookup syscallName =
      ((listings manifest).reverse.lookup syscallName).map fun listed ↦
        profile.effectiveEntry listed.1 syscallName listed.2 := by
  have hmap : ∀ items : List (PyStr × PyStr × ManifestEntry),
      (items.map fun item ↦
          (item.1, profile.effectiveEntry item.2.1 item.1 item.2.2)).lookup syscallName =
        (items.lookup syscallName).map fun listed ↦
          profile.effectiveEntry listed.1 syscallName listed.2 := by
    intro items
    induction items with
    | nil => rfl
    | cons item rest ih =>
      rw [List.map_cons, List.lookup_cons, List.lookup_cons]
      by_cases hname : syscallName = item.1
      · simp [hname]
      · rw [beq_false_of_ne hname]
        exact ih
  rw [applyGenerationProfile, lookup_insertAll, ← List.map_reverse, hmap, List.lookup_nil,
    Option.or_none]

/-- What the index allows is what the profile allows. -/
theorem generationEnabled_iff {syscallName : PyStr} :
    (∃ entry, (applyGenerationProfile profile manifest).lookup syscallName = some entry ∧
        isEnabled entry = true) ↔ Generates profile manifest syscallName := by
  rw [lookup_applyGenerationProfile]
  simp only [Option.map_eq_some_iff, Generates]
  constructor
  · rintro ⟨_, ⟨⟨categoryName, entry⟩, hlisted, rfl⟩, henabled⟩
    rw [isEnabled_effectiveEntry, decision_fst_iff] at henabled
    exact ⟨henabled.1, categoryName, entry, hlisted, henabled.2⟩
  · rintro ⟨hdeferred, categoryName, entry, hlisted, hcategory, henabled⟩
    refine ⟨_, ⟨(categoryName, entry), hlisted, rfl⟩, ?_⟩
    rw [isEnabled_effectiveEntry, decision_fst_iff]
    exact ⟨hdeferred, hcategory, henabled⟩

end SyzAbi.Targets

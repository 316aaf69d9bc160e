import Mathlib.Data.Set.Card
import Mathlib.Logic.Relation

/-!
# Recursive calls

A relation says which calls a call makes. A recursion is well-founded when a measure decreases with
every nested call (`Descends`), and it returns within a limit on its depth (`Returns`). The calls of
a program may differ in arguments on which the recursion does not depend: then they mirror a
relation on keys (`Mirrors`), and when only finitely many keys come up, each of the two says that no
key comes up below itself (`exists_descends_iff`, `exists_returns_iff`).
-/

set_option autoImplicit false
set_option relaxedAutoImplicit false

namespace SyzAbi.Library.Recursion

open Relation

variable {α κ : Type*}

/-- The measure decreases with every call nested in the calls that `root` leads to. -/
def Descends (calls : α → α → Prop) (root : α) (measure : α → ℕ) : Prop :=
  ∀ call nested, ReflTransGen calls root call → calls call nested →
    measure nested < measure call

/-- The recursion returns when at most so many calls lie in one another. -/
def Returns (calls : α → α → Prop) : ℕ → α → Prop
  | 0, _ => False
  | limit + 1, call => ∀ nested, calls call nested → Returns calls limit nested

/-- Nothing below `root` lies below itself. -/
def Acyclic (below : κ → κ → Prop) (root : κ) : Prop :=
  ∀ k, ReflTransGen below root k → ¬TransGen below k k

/-- The keys of the nested calls are what lies below the key of a call. -/
structure Mirrors (calls : α → α → Prop) (below : κ → κ → Prop) (key : α → κ) : Prop where
  forth : ∀ {call nested}, calls call nested → below (key call) (key nested)
  back : ∀ {call k}, below (key call) k → ∃ nested, calls call nested ∧ key nested = k

section OneRelation

variable {calls : α → α → Prop} {root : α}

theorem Descends.returns {measure : α → ℕ} (hdescends : Descends calls root measure) :
    Returns calls (measure root + 1) root := by
  have hreturns : ∀ limit call, ReflTransGen calls root call → measure call < limit →
      Returns calls limit call := by
    intro limit
    induction limit with
    | zero => exact fun _ _ hlt ↦ absurd hlt (Nat.not_lt_zero _)
    | succ limit ih =>
      intro call hreach hlt nested hnested
      refine ih nested (hreach.tail hnested) ?_
      have hdecreases := hdescends call nested hreach hnested
      omega
  exact hreturns _ root .refl (Nat.lt_succ_self _)

/-- Below a call that returns, every call returns within a smaller limit. -/
theorem Returns.exists_lt {limit : ℕ} {call below : α} (hreturns : Returns calls limit call)
    (hbelow : TransGen calls call below) : ∃ smaller < limit, Returns calls smaller below := by
  induction hbelow using TransGen.head_induction_on generalizing limit with
  | single hnested =>
    cases limit with
    | zero => exact hreturns.elim
    | succ limit => exact ⟨limit, Nat.lt_succ_self limit, hreturns _ hnested⟩
  | head hnested _ ih =>
    cases limit with
    | zero => exact hreturns.elim
    | succ limit =>
      obtain ⟨smaller, hlt, hsmaller⟩ := ih (hreturns _ hnested)
      exact ⟨smaller, Nat.lt_succ_of_lt hlt, hsmaller⟩

theorem not_returns_of_cycle {call : α} (hcycle : TransGen calls call call) (limit : ℕ) :
    ¬Returns calls limit call := by
  induction limit using Nat.strong_induction_on with
  | _ limit ih =>
    intro hreturns
    obtain ⟨smaller, hlt, hsmaller⟩ := hreturns.exists_lt hcycle
    exact ih smaller hlt hsmaller

theorem Returns.acyclic {limit : ℕ} (hreturns : Returns calls limit root) :
    Acyclic calls root := by
  intro call hreach hcycle
  rcases reflTransGen_iff_eq_or_transGen.mp hreach with rfl | hbelow
  · exact not_returns_of_cycle hcycle limit hreturns
  · obtain ⟨smaller, -, hsmaller⟩ := hreturns.exists_lt hbelow
    exact not_returns_of_cycle hcycle smaller hsmaller

/-- The measure of an acyclic recursion is the number of calls below a call. -/
theorem Acyclic.descends (hacyclic : Acyclic calls root)
    (hfinite : {call | TransGen calls root call}.Finite) :
    Descends calls root fun call ↦ {below | TransGen calls call below}.ncard := by
  intro call nested hreach hnested
  refine Set.ncard_lt_ncard ⟨?_, fun hsubset ↦ ?_⟩ (hfinite.subset ?_)
  · exact fun below hbelow ↦ TransGen.head hnested hbelow
  · exact hacyclic nested (hreach.tail hnested) (hsubset (TransGen.single hnested))
  · exact fun below hbelow ↦ hbelow.trans_right hreach

end OneRelation

section Mirrors

variable {calls : α → α → Prop} {below : κ → κ → Prop} {key : α → κ}

theorem Mirrors.returns_iff (hmirrors : Mirrors calls below key) (limit : ℕ) (call : α) :
    Returns calls limit call ↔ Returns below limit (key call) := by
  induction limit generalizing call with
  | zero => exact Iff.rfl
  | succ limit ih =>
    constructor
    · intro hreturns k hk
      obtain ⟨nested, hnested, rfl⟩ := hmirrors.back hk
      exact (ih nested).mp (hreturns nested hnested)
    · intro hreturns nested hnested
      exact (ih nested).mpr (hreturns _ (hmirrors.forth hnested))

theorem Mirrors.descends (hmirrors : Mirrors calls below key) {root : α} {measure : κ → ℕ}
    (hdescends : Descends below (key root) measure) :
    Descends calls root fun call ↦ measure (key call) :=
  fun _ _ hreach hnested ↦
    hdescends _ _ (hreach.lift key fun _ _ ↦ hmirrors.forth) (hmirrors.forth hnested)

variable (hmirrors : Mirrors calls below key) (root : α)
  (hfinite : {k | TransGen below (key root) k}.Finite)

include hmirrors hfinite

/-- A measure exists exactly when no key lies below itself. -/
theorem Mirrors.exists_descends_iff :
    (∃ measure, Descends calls root measure) ↔ Acyclic below (key root) := by
  constructor
  · rintro ⟨measure, hdescends⟩
    exact ((hmirrors.returns_iff _ root).mp hdescends.returns).acyclic
  · intro hacyclic
    exact ⟨_, hmirrors.descends (hacyclic.descends hfinite)⟩

/-- The recursion returns within some limit exactly when no key lies below itself. -/
theorem Mirrors.exists_returns_iff :
    (∃ limit, Returns calls limit root) ↔ Acyclic below (key root) := by
  constructor
  · rintro ⟨limit, hreturns⟩
    exact ((hmirrors.returns_iff limit root).mp hreturns).acyclic
  · intro hacyclic
    exact ⟨_, (hmirrors.descends (hacyclic.descends hfinite)).returns⟩

end Mirrors

end SyzAbi.Library.Recursion

import Mathlib.Logic.Basic

/-!
# Computations with a record

A computation that may raise, together with what it asked its surroundings for, in order
(`Recording`). A function that is written for every monad runs here as it runs in `Except`: the
outcome of a bind is the bind of the outcomes, and it asks for what its parts ask for, up to one
that raises (`asked_bind`). A loop asks for what its attempts ask for, as long as none raises
(`asked_foldlM`).
-/

set_option autoImplicit false
set_option relaxedAutoImplicit false

namespace SyzAbi.Library

/-- What became of a computation, and what it asked for until then. -/
structure Recording (ι ε α : Type) where
  outcome : Except ε α
  asked : List ι

namespace Recording

variable {ι γ ε α β κ σ : Type}

/-- What is asked for after an outcome. -/
def after (outcome : Except ε α) (next : α → List ι) : List ι :=
  match outcome with
  | .error _ => []
  | .ok value => next value

instance : Monad (Recording ι ε) where
  pure value := ⟨.ok value, []⟩
  bind computation next :=
    ⟨computation.outcome >>= fun value ↦ (next value).outcome,
      computation.asked ++ after computation.outcome fun value ↦ (next value).asked⟩

/-- A computation that asks for nothing. -/
instance : MonadLift (Except ε) (Recording ι ε) where
  monadLift outcome := ⟨outcome, []⟩

/-- A question with its answer. -/
def ask (question : ι) (answer : Except ε α) : Recording ι ε α := ⟨answer, [question]⟩

/-- A computation whose exception is caught and looked at. -/
def attempt (computation : Recording ι ε α) : Recording ι ε (Except ε α) :=
  ⟨.ok computation.outcome, computation.asked⟩

@[simp] theorem outcome_pure (value : α) : (pure value : Recording ι ε α).outcome = .ok value := rfl

@[simp] theorem asked_pure (value : α) : (pure value : Recording ι ε α).asked = [] := rfl

@[simp] theorem outcome_bind (computation : Recording ι ε α) (next : α → Recording ι ε β) :
    (computation >>= next).outcome =
      computation.outcome >>= fun value ↦ (next value).outcome := rfl

@[simp] theorem asked_bind (computation : Recording ι ε α) (next : α → Recording ι ε β) :
    (computation >>= next).asked =
      computation.asked ++ after computation.outcome fun value ↦ (next value).asked := rfl

@[simp] theorem outcome_liftM (outcome : Except ε α) :
    (liftM outcome : Recording ι ε α).outcome = outcome := rfl

@[simp] theorem asked_liftM (outcome : Except ε α) :
    (liftM outcome : Recording ι ε α).asked = [] := rfl

@[simp] theorem outcome_ask (question : ι) (answer : Except ε α) :
    (ask question answer).outcome = answer := rfl

@[simp] theorem asked_ask (question : ι) (answer : Except ε α) :
    (ask question answer).asked = [question] := rfl

@[simp] theorem outcome_attempt (computation : Recording ι ε α) :
    computation.attempt.outcome = .ok computation.outcome := rfl

@[simp] theorem asked_attempt (computation : Recording ι ε α) :
    computation.attempt.asked = computation.asked := rfl

@[simp] theorem after_ok (value : α) (next : α → List ι) :
    after (.ok value : Except ε α) next = next value := rfl

@[simp] theorem after_error (error : ε) (next : α → List ι) :
    after (.error error : Except ε α) next = [] := rfl

@[simp] theorem after_nil (outcome : Except ε α) :
    after outcome (fun _ ↦ ([] : List ι)) = [] := by
  cases outcome with
  | error error => rfl
  | ok value => rfl

@[simp] theorem after_map (outcome : Except ε α) (f : α → β) (next : β → List ι) :
    after (outcome.map f) next = after outcome fun value ↦ next (f value) := by
  cases outcome with
  | error error => rfl
  | ok value => rfl

theorem map_after (f : ι → γ) (outcome : Except ε α) (next : α → List ι) :
    (after outcome next).map f = after outcome fun value ↦ (next value).map f := by
  cases outcome with
  | error error => rfl
  | ok value => rfl

/-! ### Loops -/

/-- What the attempts of a loop ask for, up to one that raises. -/
def untilError (items : κ → List ι) (outcome : κ → Except ε α) : List κ → List ι
  | [] => []
  | attempt :: rest =>
    items attempt ++ after (outcome attempt) fun _ ↦ untilError items outcome rest

theorem map_untilError (f : ι → γ) (items : κ → List ι) (outcome : κ → Except ε α)
    (attempts : List κ) :
    (untilError items outcome attempts).map f =
      untilError (fun attempt ↦ (items attempt).map f) outcome attempts := by
  induction attempts with
  | nil => rfl
  | cons attempt rest ih => rw [untilError, untilError, List.map_append, map_after, ih]

/-- Attempts that ask for what is planned, or for a part of it before they raise. -/
theorem untilError_isPrefix {items planned : κ → List ι} {outcome : κ → Except ε α}
    (hpart : ∀ attempt, items attempt <+: planned attempt)
    (hall : ∀ attempt value, outcome attempt = .ok value → items attempt = planned attempt)
    (attempts : List κ) : untilError items outcome attempts <+: attempts.flatMap planned := by
  induction attempts with
  | nil => exact List.nil_prefix
  | cons attempt rest ih =>
    rw [untilError, List.flatMap_cons]
    cases houtcome : outcome attempt with
    | error error =>
      rw [after_error, List.append_nil]
      exact (hpart attempt).trans (List.prefix_append _ _)
    | ok value =>
      rw [after_ok, hall attempt value houtcome]
      exact (List.prefix_append_right_inj _).mpr ih

theorem outcome_foldlM (step : σ → κ → Recording ι ε σ) (start : σ) (keys : List κ) :
    (keys.foldlM step start).outcome =
      keys.foldlM (fun state key ↦ (step state key).outcome) start := by
  induction keys generalizing start with
  | nil => rfl
  | cons key rest ih =>
    rw [List.foldlM_cons, List.foldlM_cons, outcome_bind]
    exact congrArg _ (funext ih)

/-- A loop whose state only records the outcomes of its attempts. -/
theorem asked_foldlM {step : σ → κ → Recording ι ε σ} {items : κ → List ι}
    {outcome : κ → Except ε α} {record : σ → κ → α → σ}
    (houtcome : ∀ state key, (step state key).outcome = (outcome key).map (record state key))
    (hasked : ∀ state key, (step state key).asked = items key) (start : σ) (keys : List κ) :
    (keys.foldlM step start).asked = untilError items outcome keys := by
  induction keys generalizing start with
  | nil => rfl
  | cons key rest ih =>
    rw [List.foldlM_cons, asked_bind, hasked, houtcome, after_map, untilError]
    simp only [ih]

end Recording

end SyzAbi.Library

import Mathlib.Data.List.Basic
import Mathlib.Logic.Function.Basic

/-!
# Runs and interleavings

A run is a start and a list of moves; `states` are all the states it passes, and `Along` says that
every move of it meets a condition on the state before it. The rules are the induction over a run
(`forall_states`) and an exact form of it (`forall_states_iff_along`): when a move that breaks the
condition leads to a bad state, a run stays good exactly when it keeps the condition. Conditions
that agree wherever safe moves lead hold along the same runs (`along_congr`).

Processes that share a state take their moves in any order (`step`). What is asserted of each
process and the shared state survives a move when the process that moves restores its own assertion
and does not break the assertion of another one (`forall_local_step`).
-/

set_option autoImplicit false
set_option relaxedAutoImplicit false

namespace SyzAbi.Library.Interleaving

/-! ### Runs -/

section Runs

variable {σ μ : Type} (step : σ → μ → σ)

/-- The states that a run passes. -/
def states (start : σ) : List μ → List σ
  | [] => [start]
  | move :: rest => start :: states (step start move) rest

/-- Every move of a run meets a condition on the state before it. -/
def Along (safe : σ → μ → Prop) (start : σ) : List μ → Prop
  | [] => True
  | move :: rest => safe start move ∧ Along safe (step start move) rest

variable {step}

theorem start_mem_states (start : σ) (moves : List μ) : start ∈ states step start moves := by
  cases moves with
  | nil => exact List.mem_singleton_self start
  | cons move rest => exact List.mem_cons_self

/-- The end of a run is one of its states. -/
theorem foldl_mem_states (start : σ) (moves : List μ) :
    moves.foldl step start ∈ states step start moves := by
  induction moves generalizing start with
  | nil => exact List.mem_singleton_self start
  | cons move rest ih => exact List.mem_cons_of_mem start (ih (step start move))

theorem forall_states_cons {P : σ → Prop} {start : σ} {move : μ} {rest : List μ} :
    (∀ state ∈ states step start (move :: rest), P state) ↔
      P start ∧ ∀ state ∈ states step (step start move) rest, P state :=
  List.forall_mem_cons

/-- What all moves keep holds in all states of a run. -/
theorem forall_states {Inv : σ → Prop} (hkeep : ∀ state move, Inv state → Inv (step state move))
    {start : σ} (hstart : Inv start) (moves : List μ) :
    ∀ state ∈ states step start moves, Inv state := by
  induction moves generalizing start with
  | nil =>
    intro state hstate
    rw [List.mem_singleton.mp hstate]
    exact hstart
  | cons move rest ih => exact forall_states_cons.mpr ⟨hstart, ih (hkeep start move hstart)⟩

/-- When every unsafe move leads to a bad state, a run stays good exactly when it is safe. -/
theorem forall_states_iff_along {safe : σ → μ → Prop} {Inv Good : σ → Prop}
    (hgood : ∀ state, Inv state → Good state)
    (hkeep : ∀ state move, Inv state → safe state move → Inv (step state move))
    (hexact : ∀ state move, Inv state → Good (step state move) → safe state move) {start : σ}
    (hstart : Inv start) (moves : List μ) :
    (∀ state ∈ states step start moves, Good state) ↔ Along step safe start moves := by
  induction moves generalizing start with
  | nil =>
    refine iff_of_true ?_ trivial
    intro state hstate
    rw [List.mem_singleton.mp hstate]
    exact hgood start hstart
  | cons move rest ih =>
    rw [forall_states_cons]
    constructor
    · rintro ⟨-, hrest⟩
      have hsafe := hexact start move hstart (hrest _ (start_mem_states _ _))
      exact ⟨hsafe, (ih (hkeep start move hstart hsafe)).mp hrest⟩
    · rintro ⟨hsafe, hrest⟩
      exact ⟨hgood start hstart, (ih (hkeep start move hstart hsafe)).mpr hrest⟩

/-- What an invariant says of every move holds along every run. -/
theorem along_of_invariant {safe : σ → μ → Prop} {Inv : σ → Prop}
    (hkeep : ∀ state move, Inv state → Inv (step state move))
    (hsafe : ∀ state move, Inv state → safe state move) {start : σ} (hstart : Inv start)
    (moves : List μ) : Along step safe start moves := by
  induction moves generalizing start with
  | nil => trivial
  | cons move rest ih => exact ⟨hsafe start move hstart, ih (hkeep start move hstart)⟩

/-- Two conditions that agree on the states that safe moves reach hold along the same runs. -/
theorem along_congr {safe other : σ → μ → Prop} {Inv : σ → Prop}
    (hkeep : ∀ state move, Inv state → safe state move → Inv (step state move))
    (hiff : ∀ state move, Inv state → (safe state move ↔ other state move)) {start : σ}
    (hstart : Inv start) (moves : List μ) :
    Along step safe start moves ↔ Along step other start moves := by
  induction moves generalizing start with
  | nil => exact Iff.rfl
  | cons move rest ih =>
    constructor
    · rintro ⟨hsafe, hrest⟩
      exact ⟨(hiff start move hstart).mp hsafe, (ih (hkeep start move hstart hsafe)).mp hrest⟩
    · rintro ⟨hother, hrest⟩
      have hsafe := (hiff start move hstart).mpr hother
      exact ⟨hsafe, (ih (hkeep start move hstart hsafe)).mpr hrest⟩

/-- The last move of a run meets the condition in the state that the others lead to. -/
theorem Along.last {safe : σ → μ → Prop} {start : σ} {moves : List μ} {move : μ}
    (h : Along step safe start (moves ++ [move])) : safe (moves.foldl step start) move := by
  induction moves generalizing start with
  | nil => exact h.1
  | cons first rest ih => exact ih h.2

end Runs

/-! ### Processes -/

/-- The local states of some processes, and what they share. -/
structure Config (ι L G : Type) where
  locals : ι → L
  shared : G

variable {ι L G A : Type} [DecidableEq ι]

/-- One process moves. -/
def step (act : ι → A → L → G → L × G) (config : Config ι L G) (move : ι × A) : Config ι L G :=
  let result := act move.1 move.2 (config.locals move.1) config.shared
  ⟨Function.update config.locals move.1 result.1, result.2⟩

variable {act : ι → A → L → G → L × G}

@[simp] theorem step_shared (config : Config ι L G) (i : ι) (action : A) :
    (step act config (i, action)).shared =
      (act i action (config.locals i) config.shared).2 := rfl

@[simp] theorem step_locals_self (config : Config ι L G) (i : ι) (action : A) :
    (step act config (i, action)).locals i =
      (act i action (config.locals i) config.shared).1 :=
  Function.update_self _ _ _

theorem step_locals_of_ne (config : Config ι L G) {i j : ι} (hne : j ≠ i) (action : A) :
    (step act config (i, action)).locals j = config.locals j :=
  Function.update_of_ne hne _ _

/-- An assertion about each process survives a move that restores it for the process that moves and
does not interfere with the others. -/
theorem forall_local_step {P : ι → L → G → Prop} {config : Config ι L G} {i : ι} {action : A}
    (hown : P i (act i action (config.locals i) config.shared).1
      (act i action (config.locals i) config.shared).2)
    (hothers : ∀ j, j ≠ i →
      P j (config.locals j) (act i action (config.locals i) config.shared).2) :
    ∀ j, P j ((step act config (i, action)).locals j) (step act config (i, action)).shared := by
  intro j
  by_cases hj : j = i
  · subst hj
    rw [step_locals_self]
    exact hown
  · rw [step_locals_of_ne config hj]
    exact hothers j hj

end SyzAbi.Library.Interleaving

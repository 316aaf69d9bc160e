import Mathlib.Data.Nat.Notation
import Mathlib.Logic.Relation
import Mathlib.Tactic.Linarith

/-!
# Loops that run while something changes

A turn of the loop returns the next state and whether it changed something, or it fails. The loop
turns until a turn changes nothing (`run`, with a bound on the number of turns). The rules are the
usual ones: a run that ends has a last turn (`exists_last_of_run`), every state of the run reaches
the state of the last turn (`reaches_last`), what every turn keeps holds in all states that the loop
reaches (`Reaches.invariant`), and a measure that every turn decreases bounds the number of turns
(`isSome_run`). When it also bounds what a turn costs, its triangular number bounds what the loop
costs (`cost_le`).
-/

set_option autoImplicit false
set_option relaxedAutoImplicit false

namespace SyzAbi.Library.WhileLoop

variable {ε σ : Type} (turn : σ → Except ε (σ × Bool))

/-- The loop with at most `fuel` turns; `none` when they do not suffice. -/
def run : ℕ → σ → Option (Except ε σ)
  | 0, _ => none
  | fuel + 1, state =>
    match turn state with
    | .error error => some (.error error)
    | .ok (next, false) => some (.ok next)
    | .ok (next, true) => run fuel next

/-- What at most `fuel` turns cost, with a cost for the turn from each state. -/
def cost (weight : σ → ℕ) : ℕ → σ → ℕ
  | 0, _ => 0
  | fuel + 1, state =>
    weight state +
      match turn state with
      | .ok (next, true) => cost weight fuel next
      | _ => 0

/-- The loop goes on from `next`. -/
def Turns (state next : σ) : Prop :=
  turn state = .ok (next, true)

/-- Some turns that change something lead from one state to another. -/
def Reaches (start state : σ) : Prop :=
  Relation.ReflTransGen (Turns turn) start state

variable {turn}

theorem Reaches.refl (start : σ) : Reaches turn start start :=
  Relation.ReflTransGen.refl

theorem Reaches.head {start next state : σ} (hturn : Turns turn start next)
    (hreach : Reaches turn next state) : Reaches turn start state :=
  Relation.ReflTransGen.head hturn hreach

/-- What every turn keeps holds in every state that is reached. -/
theorem Reaches.invariant {start state : σ} (hreach : Reaches turn start state) (Inv : σ → Prop)
    (hstart : Inv start) (hkeep : ∀ s t, Inv s → Turns turn s t → Inv t) : Inv state := by
  induction hreach with
  | refl => exact hstart
  | tail _ hturn ih => exact hkeep _ _ ih hturn

/-- A run that ends has a last turn, and its state is reached. -/
theorem exists_last_of_run {fuel : ℕ} {start result : σ}
    (hrun : run turn fuel start = some (.ok result)) :
    ∃ last, Reaches turn start last ∧ turn last = .ok (result, false) := by
  induction fuel generalizing start with
  | zero => exact absurd hrun (by simp [run])
  | succ fuel ih =>
    rw [run] at hrun
    split at hrun
    · exact absurd hrun (by simp)
    · next next hturn =>
      have hresult : next = result := by simpa using hrun
      exact ⟨start, Reaches.refl start, by rw [hturn, hresult]⟩
    · next next hturn =>
      obtain ⟨last, hreach, hlast⟩ := ih hrun
      exact ⟨last, Reaches.head hturn hreach, hlast⟩

/-- Every state of a run reaches the state of the last turn. -/
theorem reaches_last {start state last result : σ} (hstate : Reaches turn start state)
    (hlast : Reaches turn start last) (hend : turn last = .ok (result, false)) :
    Reaches turn state last := by
  have hunique : Relator.RightUnique (Turns turn) := by
    intro s t u ht hu
    have heq : (Except.ok (t, true) : Except ε (σ × Bool)) = .ok (u, true) := ht.symm.trans hu
    simpa using heq
  rcases Relation.ReflTransGen.total_of_right_unique hunique hstate hlast with h | h
  · exact h
  · rcases Relation.ReflTransGen.cases_head h with heq | ⟨next, hturn, _⟩
    · rw [heq]
      exact Reaches.refl state
    · have heq : (Except.ok (result, false) : Except ε (σ × Bool)) = .ok (next, true) :=
        hend.symm.trans hturn
      exact absurd heq (by simp)

/-- A loop whose turns project to the turns of another one projects to it. -/
theorem run_map {τ : Type} {turn' : τ → Except ε (τ × Bool)} (project : σ → τ)
    (hturn : ∀ state, turn' (project state) = (turn state).map (Prod.map project id)) (fuel : ℕ)
    (state : σ) :
    run turn' fuel (project state) = (run turn fuel state).map (Except.map project) := by
  induction fuel generalizing state with
  | zero => rfl
  | succ fuel ih =>
    rw [run, run, hturn]
    cases turn state with
    | error error => rfl
    | ok outcome =>
      obtain ⟨next, changed⟩ := outcome
      cases changed with
      | false => rfl
      | true => exact ih next

/-- With a measure that every turn decreases the loop ends. -/
theorem isSome_run (Inv : σ → Prop) (measure : σ → ℕ)
    (hkeep : ∀ s t, Inv s → Turns turn s t → Inv t ∧ measure t < measure s) {fuel : ℕ} {start : σ}
    (hstart : Inv start) (hfuel : measure start < fuel) : (run turn fuel start).isSome := by
  induction fuel generalizing start with
  | zero => omega
  | succ fuel ih =>
    rw [run]
    split
    · rfl
    · rfl
    · next next hturn =>
      obtain ⟨hnext, hless⟩ := hkeep start next hstart hturn
      exact ih hnext (by omega)

theorem cost_le (Inv : σ → Prop) (measure weight : σ → ℕ)
    (hkeep : ∀ s t, Inv s → Turns turn s t → Inv t ∧ measure t < measure s)
    (hweight : ∀ s, Inv s → weight s ≤ measure s) {start : σ} (hstart : Inv start) (fuel : ℕ) :
    2 * cost turn weight fuel start ≤ measure start * (measure start + 1) := by
  induction fuel generalizing start with
  | zero => exact Nat.zero_le _
  | succ fuel ih =>
    have hfirst := hweight start hstart
    rw [cost]
    split
    · next next hturn =>
      obtain ⟨hnext, hless⟩ := hkeep start next hstart hturn
      have hrest := ih hnext
      have hmul : measure next * (measure next + 1) ≤ (measure start - 1) * measure start :=
        Nat.mul_le_mul (by omega) hless
      obtain ⟨less, hless⟩ : ∃ less, measure start = less + 1 := ⟨measure start - 1, by omega⟩
      rw [hless, Nat.add_sub_cancel] at hmul
      rw [hless] at hfirst ⊢
      linarith
    · have hmul : measure start ≤ measure start * measure start := Nat.le_mul_self _
      linarith

end SyzAbi.Library.WhileLoop

import Mathlib.Algebra.Order.BigOperators.Group.List
import Mathlib.Algebra.Order.Ring.Nat
import SyzAbi.Library.Interleaving

/-!
# Thread pools under a counting semaphore

Threads that share the permits of one counting semaphore. A `Task` is what one thread does, and a
`Program` is what the main thread does: calls of its own, executions of its own, and pools of tasks
that it waits for. Only the steps that matter to the semaphore are told apart. What comes back from
a call is an answer of the environment, so a task that may raise, or that goes one way or the other,
is a task that looks at its answers.

A task is `Disciplined` when it executes only under a permit, takes one only when it holds none, and
gives it back on every way out; `withPermit` makes such a task of any body that touches no permit,
whether the body returns or raises. When all tasks of a program are disciplined, then in every state
of every run the permits that are left and those that are held are all there are
(`sound_of_mem_states`). The executions in progress are therefore never more than the permits, no
thread waits for a permit while it holds one, all permits are back whenever no pool is open, and
some thread can always move until the program is over (`exists_ready`).
-/

set_option autoImplicit false
set_option relaxedAutoImplicit false

namespace SyzAbi.Library.Semaphores

open Interleaving

/-! ### Tasks -/

/-- What a thread does: it calls code that takes no permit, executes, takes a permit, gives one
back, or ends. -/
inductive Task (β α : Type)
  | returned (value : α)
  | raised
  | call (next : β → Task β α)
  | execution (next : β → Task β α)
  | acquire (next : Task β α)
  | release (next : Task β α)

variable {β α γ : Type}

namespace Task

/-- One task after another; an exception of the first is one of the whole. -/
def bind : Task β α → (α → Task β γ) → Task β γ
  | .returned value, next => next value
  | .raised, _ => .raised
  | .call rest, next => .call fun answer ↦ (rest answer).bind next
  | .execution rest, next => .execution fun answer ↦ (rest answer).bind next
  | .acquire rest, next => .acquire (rest.bind next)
  | .release rest, next => .release (rest.bind next)

instance : Monad (Task β) where
  pure := .returned
  bind := bind

/-- A task whose exception is handled by another one. -/
def onException : Task β α → Task β α → Task β α
  | .returned value, _ => .returned value
  | .raised, handler => handler
  | .call rest, handler => .call fun answer ↦ (rest answer).onException handler
  | .execution rest, handler => .execution fun answer ↦ (rest answer).onException handler
  | .acquire rest, handler => .acquire (rest.onException handler)
  | .release rest, handler => .release (rest.onException handler)

/-- A task that gives a permit back at its end, whichever way it ends. -/
def andRelease : Task β α → Task β α
  | .returned value => .release (.returned value)
  | .raised => .release .raised
  | .call rest => .call fun answer ↦ (rest answer).andRelease
  | .execution rest => .execution fun answer ↦ (rest answer).andRelease
  | .acquire rest => .acquire rest.andRelease
  | .release rest => .release rest.andRelease

/-- A task that runs under a permit. -/
def withPermit (body : Task β α) : Task β α := .acquire body.andRelease

/-- `count` times one task. -/
def repeatTask (task : Task β α) : ℕ → Task β Unit
  | 0 => pure ()
  | count + 1 => do
    let _ ← task
    repeatTask task count

/-- A task that holds `held` permits executes only under one, takes one only when it holds none, and
ends with none. -/
def Disciplined : ℕ → Task β α → Prop
  | held, .returned _ => held = 0
  | held, .raised => held = 0
  | held, .call next => ∀ answer, Disciplined held (next answer)
  | held, .execution next => held = 1 ∧ ∀ answer, Disciplined held (next answer)
  | held, .acquire next => held = 0 ∧ Disciplined 1 next
  | held, .release next => held = 1 ∧ Disciplined 0 next

/-- A task that leaves the permits alone. -/
def Bare : Task β α → Prop
  | .returned _ => True
  | .raised => True
  | .call next => ∀ answer, Bare (next answer)
  | .execution next => ∀ answer, Bare (next answer)
  | .acquire _ => False
  | .release _ => False

theorem Disciplined.bind {held : ℕ} {task : Task β α} (htask : task.Disciplined held)
    {next : α → Task β γ} (hnext : ∀ value, (next value).Disciplined 0) :
    (task >>= next).Disciplined held := by
  change (task.bind next).Disciplined held
  induction task generalizing held with
  | returned value =>
    rw [show held = 0 from htask]
    exact hnext value
  | raised => exact htask
  | call rest ih => exact fun answer ↦ ih answer (htask answer)
  | execution rest ih => exact ⟨htask.1, fun answer ↦ ih answer (htask.2 answer)⟩
  | acquire rest ih => exact ⟨htask.1, ih htask.2⟩
  | release rest ih => exact ⟨htask.1, ih htask.2⟩

theorem Disciplined.onException {held : ℕ} {task handler : Task β α}
    (htask : task.Disciplined held) (hhandler : handler.Disciplined 0) :
    (task.onException handler).Disciplined held := by
  induction task generalizing held with
  | returned value => exact htask
  | raised =>
    rw [show held = 0 from htask]
    exact hhandler
  | call rest ih => exact fun answer ↦ ih answer (htask answer)
  | execution rest ih => exact ⟨htask.1, fun answer ↦ ih answer (htask.2 answer)⟩
  | acquire rest ih => exact ⟨htask.1, ih htask.2⟩
  | release rest ih => exact ⟨htask.1, ih htask.2⟩

theorem Bare.andRelease {task : Task β α} (htask : task.Bare) :
    task.andRelease.Disciplined 1 := by
  induction task with
  | returned value => exact ⟨rfl, rfl⟩
  | raised => exact ⟨rfl, rfl⟩
  | call rest ih => exact fun answer ↦ ih answer (htask answer)
  | execution rest ih => exact ⟨rfl, fun answer ↦ ih answer (htask answer)⟩
  | acquire rest => exact htask.elim
  | release rest => exact htask.elim

/-- A body that leaves the permits alone may execute under a permit. -/
theorem Bare.withPermit {task : Task β α} (htask : task.Bare) :
    task.withPermit.Disciplined 0 :=
  ⟨rfl, htask.andRelease⟩

theorem disciplined_pure (value : α) : (pure value : Task β α).Disciplined 0 := rfl

theorem Disciplined.repeatTask {task : Task β α} (htask : task.Disciplined 0) (count : ℕ) :
    (task.repeatTask count).Disciplined 0 := by
  induction count with
  | zero => rfl
  | succ count ih => exact htask.bind fun _ ↦ ih

end Task

/-! ### Programs -/

/-- What the main thread does: it calls code that takes no permit, executes while no pool is open,
waits for a pool of tasks, or is over. A pool hands back how each of its tasks ended, `none` for an
exception. -/
inductive Program (β α : Type)
  | finished
  | call (next : β → Program β α)
  | alone (next : β → Program β α)
  | pool (capacity : ℕ) (tasks : List (Task β α)) (next : List (Option α) → Program β α)

/-- All tasks of a program are disciplined, and its pools have a thread to run them. -/
def Program.Disciplined : Program β α → Prop
  | .finished => True
  | .call next => ∀ answer, (next answer).Disciplined
  | .alone next => ∀ answer, (next answer).Disciplined
  | .pool capacity tasks next =>
    1 ≤ capacity ∧ (∀ task ∈ tasks, task.Disciplined 0) ∧
      ∀ outcomes, (next outcomes).Disciplined

/-! ### Machines -/

/-- A task of a pool: it waits for a thread, runs, or executes; the permits it holds are counted. -/
inductive Worker (β α : Type)
  | queued (task : Task β α)
  | running (task : Task β α) (held : ℕ)
  | executing (next : β → Task β α) (held : ℕ)

namespace Worker

/-- The permits a worker holds. -/
def held : Worker β α → ℕ
  | .queued _ => 0
  | .running _ held => held
  | .executing _ held => held

/-- One for a worker that executes. -/
def inProgress : Worker β α → ℕ
  | .executing _ _ => 1
  | _ => 0

/-- How the task of a worker ended, once it has. -/
def outcome : Worker β α → Option (Option α)
  | .running (.returned value) _ => some (some value)
  | .running .raised _ => some none
  | _ => none

/-- Whether a worker occupies a thread. -/
def isBusy : Worker β α → Bool
  | .queued _ => false
  | .running (.returned _) _ => false
  | .running .raised _ => false
  | _ => true

/-- Whether a worker waits for a permit. -/
def Waits : Worker β α → Prop
  | .running (.acquire _) _ => True
  | _ => False

/-- One step of a worker that has a thread, and the permits it leaves. A worker that finds no permit
stays where it is. -/
def step (permits : ℕ) (answer : β) : Worker β α → ℕ × Worker β α
  | .running (.call next) held => (permits, .running (next answer) held)
  | .running (.execution next) held => (permits, .executing next held)
  | .running (.acquire next) held =>
    if permits = 0 then (permits, .running (.acquire next) held)
    else (permits - 1, .running next (held + 1))
  | .running (.release next) held => (permits + 1, .running next (held - 1))
  | .executing next held => (permits, .running (next answer) held)
  | worker => (permits, worker)

/-- A worker can move: one in the queue when a thread is free, and one that takes a permit when
there is one. -/
def Ready (free : Prop) (permits : ℕ) : Worker β α → Prop
  | .queued _ => free
  | .running (.returned _) _ => False
  | .running .raised _ => False
  | .running (.acquire _) _ => 0 < permits
  | _ => True

/-- The rest of a worker is disciplined for the permits it holds. -/
def Disciplined : Worker β α → Prop
  | .queued task => task.Disciplined 0
  | .running task held => task.Disciplined held
  | .executing next held => held = 1 ∧ ∀ answer, (next answer).Disciplined held

end Worker

/-- Where the main thread is. -/
inductive Main (β α : Type)
  | running (program : Program β α)
  | executing (next : β → Program β α)
  | waiting (capacity : ℕ) (workers : List (Worker β α))
      (next : List (Option α) → Program β α)

namespace Main

/-- The workers of the pool that is open. -/
def workers : Main β α → List (Worker β α)
  | .waiting _ workers _ => workers
  | _ => []

/-- The executions in progress. -/
def inProgress : Main β α → ℕ
  | .running _ => 0
  | .executing _ => 1
  | .waiting _ workers _ => (workers.map Worker.inProgress).sum

end Main

/-- The permits that are left, and the threads. -/
structure Machine (β α : Type) where
  permits : ℕ
  main : Main β α

/-- A step of the main thread, or of a worker of the open pool, with the answer to it. -/
inductive Move (β : Type)
  | main (answer : β)
  | worker (index : ℕ) (answer : β)

/-- A task leaves the queue when a thread is free, in any order. -/
def stepPool (capacity permits : ℕ) (workers : List (Worker β α)) (index : ℕ) (answer : β) :
    ℕ × List (Worker β α) :=
  match workers[index]? with
  | none => (permits, workers)
  | some (.queued task) =>
    if workers.countP Worker.isBusy < capacity then
      (permits, workers.set index (.running task 0))
    else (permits, workers)
  | some worker =>
    let result := worker.step permits answer
    (result.1, workers.set index result.2)

/-- One move of a machine. -/
def stepMachine (machine : Machine β α) : Move β → Machine β α
  | .main answer =>
    match machine.main with
    | .running .finished => machine
    | .running (.call next) => { machine with main := .running (next answer) }
    | .running (.alone next) => { machine with main := .executing next }
    | .running (.pool capacity tasks next) =>
      { machine with main := .waiting capacity (tasks.map .queued) next }
    | .executing next => { machine with main := .running (next answer) }
    | .waiting _ workers next =>
      if workers.all fun worker ↦ worker.outcome.isSome then
        { machine with main := .running (next (workers.filterMap Worker.outcome)) }
      else machine
  | .worker index answer =>
    match machine.main with
    | .waiting capacity workers next =>
      let result := stepPool capacity machine.permits workers index answer
      ⟨result.1, .waiting capacity result.2 next⟩
    | _ => machine

/-- A move that is not blocked: the main thread is not over and waits for no task that goes on, or
the worker can move. -/
def Ready (machine : Machine β α) : Move β → Prop
  | .main _ =>
    match machine.main with
    | .running .finished => False
    | .waiting _ workers _ => ∀ worker ∈ workers, worker.outcome.isSome
    | _ => True
  | .worker index _ =>
    match machine.main with
    | .waiting capacity workers _ =>
      ∃ worker, workers[index]? = some worker ∧
        worker.Ready (workers.countP Worker.isBusy < capacity) machine.permits
    | _ => False

/-- All permits, and a program at its start. -/
def startMachine (limit : ℕ) (program : Program β α) : Machine β α := ⟨limit, .running program⟩

/-! ### The invariant -/

/-- What is left of a program is disciplined. -/
def Main.Disciplined : Main β α → Prop
  | .running program => program.Disciplined
  | .executing next => ∀ answer, (next answer).Disciplined
  | .waiting capacity workers next =>
    1 ≤ capacity ∧ (∀ worker ∈ workers, worker.Disciplined) ∧
      ∀ outcomes, (next outcomes).Disciplined

/-- The permits held by the workers of the open pool. -/
def Main.held (main : Main β α) : ℕ := (main.workers.map Worker.held).sum

/-- The permits that are left and those that are held are all there are, and the rest is
disciplined. -/
structure Sound (limit : ℕ) (machine : Machine β α) : Prop where
  permits : machine.permits + machine.main.held = limit
  main : machine.main.Disciplined

/-- A sum over a list in which one item is replaced. -/
theorem sum_map_set {δ : Type} (f : δ → ℕ) {items : List δ} {index : ℕ} {old : δ}
    (hold : items[index]? = some old) (new : δ) :
    ((items.set index new).map f).sum + f old = (items.map f).sum + f new := by
  induction items generalizing index with
  | nil => exact absurd hold (by simp)
  | cons item rest ih =>
    cases index with
    | zero =>
      rw [show item = old from Option.some.inj hold, List.set_cons_zero, List.map_cons,
        List.map_cons, List.sum_cons, List.sum_cons]
      omega
    | succ index =>
      have hrest := @ih index hold
      rw [List.set_cons_succ, List.map_cons, List.map_cons, List.sum_cons, List.sum_cons]
      omega

/-- A step keeps a worker disciplined and moves permits, but makes and loses none. -/
theorem Worker.Disciplined.step {worker : Worker β α} (hworker : worker.Disciplined)
    (permits : ℕ) (answer : β) :
    (worker.step permits answer).2.Disciplined ∧
      (worker.step permits answer).1 + (worker.step permits answer).2.held =
        permits + worker.held := by
  fun_cases Worker.step permits answer worker with
  | case1 next held => exact ⟨hworker answer, rfl⟩
  | case2 next held => exact ⟨hworker, rfl⟩
  | case3 next held hpermits => exact ⟨hworker, rfl⟩
  | case4 next held hpermits =>
    refine ⟨?_, ?_⟩
    · show next.Disciplined (held + 1)
      rw [show held = 0 from hworker.1]
      exact hworker.2
    · show permits - 1 + (held + 1) = permits + held
      omega
  | case5 next held =>
    have hheld : held = 1 := hworker.1
    refine ⟨?_, ?_⟩
    · show next.Disciplined (held - 1)
      rw [hheld]
      exact hworker.2
    · show permits + 1 + (held - 1) = permits + held
      omega
  | case6 next held => exact ⟨hworker.2 answer, rfl⟩
  | case7 => exact ⟨hworker, rfl⟩

/-- A step of a pool makes and loses no permits, and keeps its workers disciplined. -/
theorem stepPool_spec {workers : List (Worker β α)}
    (hworkers : ∀ worker ∈ workers, worker.Disciplined) (capacity permits index : ℕ)
    (answer : β) :
    (∀ worker ∈ (stepPool capacity permits workers index answer).2, worker.Disciplined) ∧
      (stepPool capacity permits workers index answer).1 +
          ((stepPool capacity permits workers index answer).2.map Worker.held).sum =
        permits + (workers.map Worker.held).sum := by
  have hset : ∀ {new : Worker β α}, new.Disciplined →
      ∀ worker ∈ workers.set index new, worker.Disciplined := by
    intro new hnew worker hworker
    rcases List.mem_or_eq_of_mem_set hworker with hmem | heq
    · exact hworkers worker hmem
    · rw [heq]
      exact hnew
  fun_cases stepPool capacity permits workers index answer with
  | case1 hnone => exact ⟨hworkers, rfl⟩
  | case2 task hsome hfree =>
    have htask : (Worker.queued task).Disciplined := hworkers _ (List.mem_of_getElem? hsome)
    refine ⟨@hset (.running task 0) htask, ?_⟩
    have hsum := sum_map_set Worker.held hsome (.running task 0)
    exact congrArg (permits + ·) hsum
  | case3 task hsome hbusy => exact ⟨hworkers, rfl⟩
  | case4 worker hqueued hsome result =>
    have hstep := (hworkers _ (List.mem_of_getElem? hsome)).step permits answer
    refine ⟨hset hstep.1, ?_⟩
    have hsum := sum_map_set Worker.held hsome result.2
    have hpermits : result.1 + result.2.held = permits + worker.held := hstep.2
    show result.1 + ((workers.set index result.2).map Worker.held).sum = _
    omega

/-- A worker that has ended holds no permit. -/
theorem Worker.Disciplined.held_of_ended {worker : Worker β α} (hworker : worker.Disciplined)
    (hended : worker.outcome.isSome) : worker.held = 0 := by
  fun_cases Worker.outcome worker with
  | case1 value held => exact hworker
  | case2 held => exact hworker
  | case3 worker hreturned hraised =>
    rw [Worker.outcome.eq_3 worker hreturned hraised] at hended
    exact absurd hended Bool.false_ne_true

/-- A worker that waits for a permit holds none. -/
theorem Worker.Disciplined.held_of_waits {worker : Worker β α} (hworker : worker.Disciplined)
    (hwaits : worker.Waits) : worker.held = 0 := by
  fun_cases Worker.Waits worker with
  | case1 next held => exact hworker.1
  | case2 worker hacquire =>
    rw [Worker.Waits.eq_2 worker hacquire] at hwaits
    exact hwaits.elim

theorem Worker.Disciplined.inProgress_le {worker : Worker β α} (hworker : worker.Disciplined) :
    worker.inProgress ≤ worker.held := by
  cases worker with
  | queued task => exact Nat.le_refl 0
  | running task held => exact Nat.zero_le held
  | executing next held => exact Nat.le_of_eq hworker.1.symm

/-- A worker that holds a permit can move. -/
theorem Worker.Disciplined.ready_of_held {worker : Worker β α} (hworker : worker.Disciplined)
    (hheld : worker.held ≠ 0) (free : Prop) (permits : ℕ) : worker.Ready free permits := by
  fun_cases Worker.Ready free permits worker with
  | case1 task => exact absurd rfl hheld
  | case2 value held => exact absurd hworker hheld
  | case3 held => exact absurd hworker hheld
  | case4 next held => exact absurd hworker.1 hheld
  | case5 => trivial

theorem Worker.not_ended_of_busy {worker : Worker β α} (hbusy : worker.isBusy = true) :
    worker.outcome.isSome = false := by
  fun_cases Worker.outcome worker with
  | case1 value held => exact Bool.noConfusion hbusy
  | case2 held => exact Bool.noConfusion hbusy
  | case3 => rfl

/-- While there are permits, a worker that has not ended can move, if it has or may get a thread. -/
theorem Worker.ready_of_not_ended {worker : Worker β α} {free : Prop} {permits : ℕ}
    (hended : worker.outcome.isSome = false) (hpermits : 0 < permits)
    (hthread : worker.isBusy = true ∨ free) : worker.Ready free permits := by
  fun_cases Worker.Ready free permits worker with
  | case1 task => exact hthread.resolve_left Bool.false_ne_true
  | case2 value held => exact Bool.noConfusion hended
  | case3 held => exact Bool.noConfusion hended
  | case4 next held => exact hpermits
  | case5 => trivial

/-- When there are permits for the workers that hold none, one that has not ended can move, or one
of the queue can. -/
theorem exists_ready_worker {workers : List (Worker β α)}
    (hworkers : ∀ worker ∈ workers, worker.Disciplined) {capacity permits : ℕ}
    (hcapacity : 1 ≤ capacity)
    (hpermits : 1 ≤ permits + (workers.map Worker.held).sum)
    (hended : ¬ ∀ worker ∈ workers, worker.outcome.isSome) :
    ∃ worker ∈ workers,
      worker.Ready (workers.countP Worker.isBusy < capacity) permits := by
  by_cases hholder : ∃ worker ∈ workers, worker.held ≠ 0
  · obtain ⟨worker, hmem, hheld⟩ := hholder
    exact ⟨worker, hmem, (hworkers worker hmem).ready_of_held hheld _ _⟩
  · have hzero : (workers.map Worker.held).sum = 0 := by
      refine List.sum_eq_zero fun held hheld ↦ ?_
      obtain ⟨worker, hmem, rfl⟩ := List.mem_map.mp hheld
      exact not_not.mp fun hne ↦ hholder ⟨worker, hmem, hne⟩
    have hleft : 0 < permits := by omega
    by_cases hfree : workers.countP Worker.isBusy < capacity
    · push Not at hended
      obtain ⟨worker, hmem, hends⟩ := hended
      exact ⟨worker, hmem,
        Worker.ready_of_not_ended (Bool.eq_false_iff.mpr hends) hleft (.inr hfree)⟩
    · have hpos : 0 < workers.countP Worker.isBusy := by omega
      obtain ⟨worker, hmem, hbusy⟩ := List.countP_pos_iff.mp hpos
      exact ⟨worker, hmem, Worker.ready_of_not_ended (Worker.not_ended_of_busy hbusy) hleft
        (.inl hbusy)⟩

/-- Every move keeps a machine sound. -/
theorem Sound.step {limit : ℕ} {machine : Machine β α} (hsound : Sound limit machine)
    (move : Move β) : Sound limit (stepMachine machine move) := by
  obtain ⟨hpermits, hdisciplined⟩ := hsound
  rw [Main.held] at hpermits
  fun_cases stepMachine machine move with
  | case1 answer hmain => exact ⟨hpermits, hdisciplined⟩
  | case2 answer next hmain =>
    rw [hmain] at hpermits hdisciplined
    exact ⟨hpermits, hdisciplined answer⟩
  | case3 answer next hmain =>
    rw [hmain] at hpermits hdisciplined
    exact ⟨hpermits, hdisciplined⟩
  | case4 answer capacity tasks next hmain =>
    rw [hmain] at hpermits hdisciplined
    refine ⟨?_, hdisciplined.1, ?_, hdisciplined.2.2⟩
    · have hzero : ((tasks.map Worker.queued).map (Worker.held (β := β) (α := α))).sum = 0 := by
        rw [List.map_map]
        exact List.sum_eq_zero fun held hheld ↦ by
          obtain ⟨task, -, rfl⟩ := List.mem_map.mp hheld
          rfl
      exact (congrArg (machine.permits + ·) hzero).trans hpermits
    · intro worker hworker
      obtain ⟨task, htask, rfl⟩ := List.mem_map.mp hworker
      exact hdisciplined.2.1 task htask
  | case5 answer next hmain =>
    rw [hmain] at hpermits hdisciplined
    exact ⟨hpermits, hdisciplined answer⟩
  | case6 answer capacity workers next hmain hended =>
    rw [hmain] at hpermits hdisciplined
    have hzero : (workers.map Worker.held).sum = 0 := by
      refine List.sum_eq_zero fun held hheld ↦ ?_
      obtain ⟨worker, hworker, rfl⟩ := List.mem_map.mp hheld
      exact (hdisciplined.2.1 worker hworker).held_of_ended
        (List.all_eq_true.mp hended worker hworker)
    exact ⟨(congrArg (machine.permits + ·) hzero).symm.trans hpermits, hdisciplined.2.2 _⟩
  | case7 answer capacity workers next hmain hended => exact ⟨hpermits, hdisciplined⟩
  | case8 index answer capacity workers next hmain result =>
    rw [hmain] at hpermits hdisciplined
    have hpool := stepPool_spec hdisciplined.2.1 capacity machine.permits index answer
    exact ⟨hpool.2.trans hpermits, hdisciplined.1, hpool.1, hdisciplined.2.2⟩
  | case9 index answer hmain => exact ⟨hpermits, hdisciplined⟩

/-! ### Rules -/

variable {limit : ℕ}

/-- Every state of every run of a disciplined program is sound. -/
theorem sound_of_mem_states {program : Program β α} (hprogram : program.Disciplined)
    (moves : List (Move β)) :
    ∀ machine ∈ states stepMachine (startMachine limit program) moves, Sound limit machine :=
  forall_states (fun _ move hsound ↦ hsound.step move) ⟨rfl, hprogram⟩ moves

section Sound

variable {machine : Machine β α} (hsound : Sound limit machine)
include hsound

/-- The workers of a sound machine are disciplined. -/
theorem Sound.workers : ∀ worker ∈ machine.main.workers, worker.Disciplined := by
  obtain ⟨-, hdisciplined⟩ := hsound
  cases hmain : machine.main with
  | running program => exact List.forall_mem_nil _
  | executing next => exact List.forall_mem_nil _
  | waiting capacity workers next =>
    rw [hmain] at hdisciplined
    exact hdisciplined.2.1

/-- There are never more executions in progress than permits. -/
theorem Sound.inProgress_le (hlimit : 1 ≤ limit) : machine.main.inProgress ≤ limit := by
  have hworkers := hsound.workers
  have hpermits := hsound.permits
  cases hmain : machine.main with
  | running program => exact Nat.zero_le limit
  | executing next => exact hlimit
  | waiting capacity workers next =>
    rw [hmain] at hworkers hpermits
    have hle : (workers.map Worker.inProgress).sum ≤ (workers.map Worker.held).sum :=
      List.sum_le_sum fun worker hworker ↦ (hworkers worker hworker).inProgress_le
    have htotal : machine.permits + (workers.map Worker.held).sum = limit := hpermits
    show (workers.map Worker.inProgress).sum ≤ limit
    omega

/-- All permits are back when no pool is open. -/
theorem Sound.permits_of_no_pool (hpool : machine.main.workers = []) :
    machine.permits = limit := by
  have hpermits := hsound.permits
  rw [Main.held, hpool] at hpermits
  exact hpermits

/-- Until the program is over, some thread can move. -/
theorem Sound.exists_ready (hlimit : 1 ≤ limit) (hmain : machine.main ≠ .running .finished)
    (answer : β) : ∃ move, Ready machine move := by
  have hworkers := hsound.workers
  obtain ⟨hpermits, hdisciplined⟩ := hsound
  have hread : ∀ {main : Main β α}, machine.main = main →
      machine.permits + (main.workers.map Worker.held).sum = limit ∧ main.Disciplined :=
    fun heq ↦ heq ▸ ⟨hpermits, hdisciplined⟩
  cases hstate : machine.main with
  | running program =>
    refine ⟨.main answer, ?_⟩
    rw [Ready, hstate]
    cases program with
    | finished => exact absurd hstate hmain
    | call next => trivial
    | alone next => trivial
    | pool capacity tasks next => trivial
  | executing next =>
    refine ⟨.main answer, ?_⟩
    rw [Ready, hstate]
    trivial
  | waiting capacity workers next =>
    rw [hstate] at hworkers
    obtain ⟨htotal, hcapacity, -⟩ := hread hstate
    by_cases hended : ∀ worker ∈ workers, worker.outcome.isSome
    · refine ⟨.main answer, ?_⟩
      rw [Ready, hstate]
      exact hended
    · change machine.permits + (workers.map Worker.held).sum = limit at htotal
      obtain ⟨worker, hmem, hready⟩ :=
        exists_ready_worker hworkers hcapacity (htotal.symm ▸ hlimit) hended
      obtain ⟨index, hindex⟩ := List.getElem?_of_mem hmem
      refine ⟨.worker index answer, ?_⟩
      rw [Ready, hstate]
      exact ⟨worker, hindex, hready⟩

end Sound

end SyzAbi.Library.Semaphores

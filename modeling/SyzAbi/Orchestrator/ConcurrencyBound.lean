import SyzAbi.Library.Semaphores
import SyzAbi.Orchestrator.CandidateBatch

/-!
# The bound on concurrent machines

The threads of a campaign and the limiter they share (`core/concurrency.py`). The functions of
`scheduler.py` and `vm_runner.py` are written here once more, as the tasks and programs that they
are for the limiter: which calls they make, where they take a permit, and what they go on with when
a call returns or raises. What a call returns is an answer of the environment, so every run of the
source, with whatever machines time out and whatever raises, is a run of the model.

A permit is taken in one place, `_run_case_with_semaphore`, which the reference runs, the single
candidate runs and the cases of a packaged batch all reach. A batch in a shared runtime calls the
runner without the limiter, but from the main thread, with no pool open.

`scheduleEntries_bounded`: in every state of every campaign the executions in progress are at most
`max(1, limit)`, the permits that are left and those held are `max(1, limit)`, all of them are back
when no pool is open, and no thread waits for a permit while it holds one.
`scheduleEntries_not_stuck`: no campaign is ever stuck.
-/

set_option autoImplicit false
set_option relaxedAutoImplicit false

namespace SyzAbi.Orchestrator.Concurrency

open Library.Interleaving Library.Semaphores

/-! ### Calls -/

/-- What comes of a call: it raises, or returns with one of two outcomes that the caller tells
apart. -/
inductive Answer
  | raised
  | no
  | yes

/-- A function of the source, with what its caller looks at. -/
abbrev Action (α : Type) := Task Answer α

/-- A task that ends as a call does. -/
def ofAnswer : Answer → Action Bool
  | .raised => .raised
  | .no => pure false
  | .yes => pure true

/-- A call of code that takes no permit. -/
def call : Action Bool := .call ofAnswer

/-- `runner.run_case`. -/
def runCase : Action Bool := .execution ofAnswer

/-! ### Cases -/

/-- `_run_case_with_semaphore`: the limiter is entered, and left on every way out of `run_case`. -/
def runCaseWithSemaphore : Action Bool := runCase.withPermit

/-- `_run_case_core`: the answer is whether the status is `ok`. A time out is a status. -/
def runCaseCore : Action Bool := do
  let _ ← call
  let _ ← runCaseWithSemaphore
  call

/-- `execute_side`. -/
def executeSide : Action Bool := do
  let _ ← call
  let ok ← runCaseCore
  let _ ← call
  return ok

/-- `execute_prepared_candidate_case`. -/
def executePreparedCandidateCase : Action Bool := do
  let _ ← call
  let ok ← runCaseCore
  let _ ← call
  return ok

/-- `execute_candidate_case_in_package`: the case is prepared first. -/
def executeCandidateCaseInPackage : Action Bool := do
  let _ ← call
  executePreparedCandidateCase

/-- `run_reference_once`: the trace of a good run is loaded. -/
def runReferenceOnce : Action Bool := do
  let ok ← executeSide
  if ok then
    let _ ← call
  return ok

/-- `run_candidate_once`. -/
def runCandidateOnce : Action Bool := do
  let ok ← executeSide
  let _ ← call
  return ok

/-- `run_candidate_once_with_package`. -/
def runCandidateOnceWithPackage (inPackage : Bool) : Action Bool :=
  if inPackage then do
    let ok ← executeCandidateCaseInPackage
    let _ ← call
    return ok
  else runCandidateOnce

/-- One round of `_build_reference_runs`, or its first run: the trace is hashed. -/
def referenceRound : Action Bool := do
  let ok ← runReferenceOnce
  let _ ← call
  return ok

/-- `_build_reference_runs`: a first run that fails is run again. -/
def buildReferenceRuns (rerunCount : ℕ) : Action Bool := do
  let ok ← referenceRound
  if !ok then
    referenceRound.repeatTask rerunCount
  return ok

/-- `prepare_case`: the answer is whether the case is ready for the candidate. -/
def prepareCase (rerunCount : ℕ) : Action Bool := do
  let built ← call
  if built then
    let ok ← buildReferenceRuns rerunCount
    let _ ← call
    return ok
  else
    return false

/-- `prepare_case_safe`. -/
def prepareCaseSafe (rerunCount : ℕ) : Action Bool :=
  (prepareCase rerunCount).onException (do
    let _ ← call
    return false)

/-- A round of `_run_triage_loop`. -/
def triageAttempt (inPackage : Bool) : Action Bool := do
  let _ ← referenceRound
  let _ ← runCandidateOnceWithPackage inPackage
  call

/-- `_run_triage_loop`. -/
def runTriageLoop (rerunCount : ℕ) (inPackage : Bool) : Action Unit :=
  (triageAttempt inPackage).repeatTask rerunCount

/-- `finalize_prepared_case`: the first answer is whether the case needs triage. -/
def finalizePreparedCase (rerunCount : ℕ) (inPackage : Bool) : Action Bool := do
  let needsTriage ← call
  if needsTriage then
    runTriageLoop rerunCount inPackage
  call

/-- `finalize_prepared_case_safe`. -/
def finalizePreparedCaseSafe (rerunCount : ℕ) (inPackage : Bool) : Action Bool :=
  (finalizePreparedCase rerunCount inPackage).onException call

/-- `schedule_one`. The first answer of the middle step is that the candidate did not raise. -/
def scheduleOne (rerunCount : ℕ) : Action Bool := do
  let ready ← prepareCaseSafe rerunCount
  if ready then
    let ran ← (do
      let _ ← runCandidateOnce
      return true : Action Bool).onException (do
        let _ ← call
        return false)
    if ran then finalizePreparedCaseSafe rerunCount false else return false
  else return false

/-- `finalize_chunk_case`: the result of the batch is looked up, then the case is finalized. -/
def finalizeChunkCase (rerunCount : ℕ) (inPackage : Bool) : Action Bool := do
  let loaded ← (do
    let _ ← call
    return true : Action Bool).onException (do
      let _ ← call
      return false)
  if loaded then finalizePreparedCaseSafe rerunCount inPackage else return false

/-! ### Campaigns -/

/-- The main thread. -/
abbrev Campaign := Program Answer Bool

/-- The main thread runs a task itself. -/
def ownTask (task : Action Bool) (next : Option Bool → Campaign) : Campaign :=
  .pool 1 [task] fun outcomes ↦ next outcomes.head?.join

/-- The main thread runs tasks one after the other, up to the first that raises. -/
def ownTasks (next : List Bool → Campaign) (raised : Campaign) : List (Action Bool) → Campaign
  | [] => next []
  | task :: rest =>
    ownTask task fun outcome ↦
      match outcome with
      | none => raised
      | some answer => ownTasks (fun answers ↦ next (answer :: answers)) raised rest

/-- A pool of at most `workers` threads. The results are collected from the futures, so that one
exception is raised again; the pool is left when all its threads have ended. -/
def inPool (workers : ℤ) (next : List Bool → Campaign) (raised : Campaign)
    (tasks : List (Action Bool)) : Campaign :=
  .pool workers.toNat tasks fun outcomes ↦
    match outcomes.mapM id with
    | none => raised
    | some answers => next answers

/-- The tasks are run one after the other for `jobs ≤ 1` or at most one task, and otherwise in a
pool. -/
def inJobs (jobs workers : ℤ) (next : List Bool → Campaign) (raised : Campaign)
    (tasks : List (Action Bool)) : Campaign :=
  if jobs ≤ 1 ∨ tasks.length ≤ 1 then ownTasks next raised tasks
  else inPool workers next raised tasks

/-- The packaged part of `execute_candidate_batch_with_context`: `count` cases, one after the other
for one worker. -/
def executePackagedCases (jobs : ℤ) (count : ℕ) (next raised : Campaign) : Campaign :=
  let workers := max 1 (min (count : ℤ) jobs)
  let cases := List.replicate count executePreparedCandidateCase
  if workers = 1 then ownTasks (fun _ ↦ next) raised cases
  else inPool workers (fun _ ↦ next) raised cases

/-- `execute_candidate_batch_with_context` on `count` cases: the cases are prepared, and the batch
runs in a shared runtime, outside the limiter, or case by case. -/
def executeCandidateBatchWithContext (shared : Bool) (jobs : ℤ) (count : ℕ)
    (next raised : Campaign) : Campaign :=
  if count = 0 then next
  else
    .call fun
      | .raised => raised
      | _ =>
        if shared then
          .alone fun
            | .raised => raised
            | _ => .call fun
              | .raised => raised
              | _ => next
        else executePackagedCases jobs count next raised

/-- The loop over the chunks, given by their lengths. A batch that raises is recorded for its cases,
and the loop goes on. -/
def executeChunks (shared : Bool) (rerunCount : ℕ) (jobs : ℤ) : List ℕ → Campaign
  | [] => .finished
  | count :: rest =>
    let others := executeChunks shared rerunCount jobs rest
    executeCandidateBatchWithContext shared jobs count
      (inJobs jobs (min jobs count) (fun _ ↦ others) .finished
        (List.replicate count (finalizeChunkCase rerunCount !shared)))
      (.call fun
        | .raised => .finished
        | _ => others)

/-- `schedule_entries_with_candidate_batch`: the cases that are ready are cut into chunks. -/
def scheduleEntriesWithCandidateBatch (shared : Bool) (rerunCount batchSize : ℕ) (jobs : ℤ)
    (entries : ℕ) : Campaign :=
  if entries = 0 then .finished
  else
    inJobs jobs jobs (fun answers ↦
      let pending := answers.filter id
      executeChunks shared rerunCount jobs ((chunkOffsets pending.length batchSize).map fun offset ↦
        (chunkAt pending batchSize offset).length))
      .finished (List.replicate entries (prepareCaseSafe rerunCount))

/-- `schedule_entries`. -/
def scheduleEntries (config : BatchConfig) (explicit : Option ℤ) (rerunCount : ℕ) (jobs : ℤ)
    (entries : ℕ) : Campaign :=
  match candidateBatchingEnabled explicit config with
  | .error _ => .finished
  | .ok true =>
    scheduleEntriesWithCandidateBatch (commandBatchingMode config = some "shared_runtime_batch")
      rerunCount (effectiveCandidateBatchSize explicit config) jobs entries
  | .ok false =>
    inJobs jobs jobs (fun _ ↦ .finished) .finished (List.replicate entries (scheduleOne rerunCount))

/-- The permits of a `ConcurrencyLimiter`. -/
def limiterPermits (limit : ℤ) : ℕ := (if limit < 1 then 1 else limit).toNat

/-! ### Discipline -/

theorem disciplined_ofAnswer (answer : Answer) : (ofAnswer answer).Disciplined 0 := by
  cases answer with
  | raised => rfl
  | no => rfl
  | yes => rfl

theorem disciplined_call : call.Disciplined 0 := disciplined_ofAnswer

/-- The permit of a run is taken and given back around it. -/
theorem disciplined_runCaseWithSemaphore : runCaseWithSemaphore.Disciplined 0 := by
  refine Task.Bare.withPermit fun answer ↦ ?_
  cases answer with
  | raised => trivial
  | no => trivial
  | yes => trivial

/-- A call before a task, whose answer is not looked at. -/
theorem disciplined_after_call {α : Type} {task : Action α} (htask : task.Disciplined 0) :
    (do let _ ← call; task : Action α).Disciplined 0 :=
  disciplined_call.bind fun _ ↦ htask

theorem disciplined_runCaseCore : runCaseCore.Disciplined 0 :=
  disciplined_after_call (disciplined_runCaseWithSemaphore.bind fun _ ↦ disciplined_call)

theorem disciplined_executeSide : executeSide.Disciplined 0 :=
  disciplined_after_call (disciplined_runCaseCore.bind fun _ ↦
    disciplined_after_call (Task.disciplined_pure _))

theorem disciplined_executePreparedCandidateCase :
    executePreparedCandidateCase.Disciplined 0 :=
  disciplined_executeSide

theorem disciplined_runReferenceOnce : runReferenceOnce.Disciplined 0 := by
  refine disciplined_executeSide.bind fun ok ↦ ?_
  cases ok with
  | false => exact Task.disciplined_pure _
  | true => exact disciplined_after_call (Task.disciplined_pure _)

theorem disciplined_runCandidateOnce : runCandidateOnce.Disciplined 0 :=
  disciplined_executeSide.bind fun _ ↦ disciplined_after_call (Task.disciplined_pure _)

theorem disciplined_runCandidateOnceWithPackage (inPackage : Bool) :
    (runCandidateOnceWithPackage inPackage).Disciplined 0 := by
  cases inPackage with
  | false => exact disciplined_runCandidateOnce
  | true =>
    refine (disciplined_after_call disciplined_executePreparedCandidateCase).bind fun _ ↦ ?_
    exact disciplined_after_call (Task.disciplined_pure _)

theorem disciplined_referenceRound : referenceRound.Disciplined 0 :=
  disciplined_runReferenceOnce.bind fun _ ↦ disciplined_after_call (Task.disciplined_pure _)

theorem disciplined_buildReferenceRuns (rerunCount : ℕ) :
    (buildReferenceRuns rerunCount).Disciplined 0 := by
  refine disciplined_referenceRound.bind fun ok ↦ ?_
  cases ok with
  | false =>
    exact (disciplined_referenceRound.repeatTask rerunCount).bind fun _ ↦ Task.disciplined_pure _
  | true => exact Task.disciplined_pure _

theorem disciplined_prepareCaseSafe (rerunCount : ℕ) :
    (prepareCaseSafe rerunCount).Disciplined 0 := by
  refine Task.Disciplined.onException (disciplined_call.bind fun built ↦ ?_)
    (disciplined_after_call (Task.disciplined_pure _))
  cases built with
  | false => exact Task.disciplined_pure _
  | true =>
    refine (disciplined_buildReferenceRuns rerunCount).bind fun _ ↦ ?_
    exact disciplined_after_call (Task.disciplined_pure _)

theorem disciplined_runTriageLoop (rerunCount : ℕ) (inPackage : Bool) :
    (runTriageLoop rerunCount inPackage).Disciplined 0 := by
  refine Task.Disciplined.repeatTask (disciplined_referenceRound.bind fun _ ↦ ?_) rerunCount
  exact (disciplined_runCandidateOnceWithPackage inPackage).bind fun _ ↦ disciplined_call

theorem disciplined_finalizePreparedCaseSafe (rerunCount : ℕ) (inPackage : Bool) :
    (finalizePreparedCaseSafe rerunCount inPackage).Disciplined 0 := by
  refine Task.Disciplined.onException (disciplined_call.bind fun needsTriage ↦ ?_)
    disciplined_call
  cases needsTriage with
  | false => exact disciplined_call
  | true =>
    exact (disciplined_runTriageLoop rerunCount inPackage).bind fun _ ↦ disciplined_call

/-- A task whose exception is recorded, and the task that goes on after it when there was none. -/
theorem disciplined_recorded {task rest : Action Bool} (htask : task.Disciplined 0)
    (hrest : rest.Disciplined 0) :
    (do
      let ran ← (do
        let _ ← task
        return true : Action Bool).onException (do
          let _ ← call
          return false)
      if ran then rest else return false : Action Bool).Disciplined 0 := by
  refine Task.Disciplined.bind (Task.Disciplined.onException
    (htask.bind fun _ ↦ Task.disciplined_pure _)
    (disciplined_after_call (Task.disciplined_pure _))) fun ran ↦ ?_
  cases ran with
  | false => exact Task.disciplined_pure _
  | true => exact hrest

theorem disciplined_scheduleOne (rerunCount : ℕ) : (scheduleOne rerunCount).Disciplined 0 := by
  refine (disciplined_prepareCaseSafe rerunCount).bind fun ready ↦ ?_
  cases ready with
  | false => exact Task.disciplined_pure _
  | true =>
    exact disciplined_recorded disciplined_runCandidateOnce
      (disciplined_finalizePreparedCaseSafe rerunCount false)

theorem disciplined_finalizeChunkCase (rerunCount : ℕ) (inPackage : Bool) :
    (finalizeChunkCase rerunCount inPackage).Disciplined 0 :=
  disciplined_recorded disciplined_call (disciplined_finalizePreparedCaseSafe rerunCount inPackage)

/-! ### Campaigns keep the discipline -/

theorem disciplined_finished : (Program.finished : Campaign).Disciplined := trivial

section Pools

variable {next : List Bool → Campaign} {raised : Campaign}
  (hnext : ∀ answers, (next answers).Disciplined) (hraised : raised.Disciplined)
include hnext hraised

theorem disciplined_ownTasks {tasks : List (Action Bool)}
    (htasks : ∀ task ∈ tasks, task.Disciplined 0) :
    (ownTasks next raised tasks).Disciplined := by
  induction tasks generalizing next with
  | nil => exact hnext []
  | cons task rest ih =>
    refine ⟨Nat.le_refl 1, ?_, fun outcomes ↦ ?_⟩
    · intro only honly
      rw [List.mem_singleton.mp honly]
      exact htasks task List.mem_cons_self
    · show Program.Disciplined (match outcomes.head?.join with
        | none => raised
        | some answer => ownTasks (fun answers ↦ next (answer :: answers)) raised rest)
      cases outcomes.head?.join with
      | none => exact hraised
      | some answer =>
        exact ih (fun answers ↦ hnext _) fun other hother ↦
          htasks other (List.mem_cons_of_mem task hother)

theorem disciplined_inPool {workers : ℤ} (hworkers : 1 ≤ workers) {tasks : List (Action Bool)}
    (htasks : ∀ task ∈ tasks, task.Disciplined 0) :
    (inPool workers next raised tasks).Disciplined := by
  refine ⟨by omega, htasks, fun outcomes ↦ ?_⟩
  show Program.Disciplined (match outcomes.mapM id with
    | none => raised
    | some answers => next answers)
  cases outcomes.mapM id with
  | none => exact hraised
  | some answers => exact hnext answers

theorem disciplined_inJobs {jobs workers : ℤ} {tasks : List (Action Bool)}
    (hworkers : 1 < jobs → 1 < tasks.length → 1 ≤ workers)
    (htasks : ∀ task ∈ tasks, task.Disciplined 0) :
    (inJobs jobs workers next raised tasks).Disciplined := by
  rw [inJobs]
  split_ifs with hsequential
  · exact disciplined_ownTasks hnext hraised htasks
  · push Not at hsequential
    exact disciplined_inPool hnext hraised (hworkers hsequential.1 hsequential.2) htasks

end Pools

theorem disciplined_replicate {task : Action Bool} (htask : task.Disciplined 0) (count : ℕ) :
    ∀ copy ∈ List.replicate count task, copy.Disciplined 0 := by
  intro copy hcopy
  rw [List.eq_of_mem_replicate hcopy]
  exact htask

theorem disciplined_executePackagedCases (jobs : ℤ) (count : ℕ) {next raised : Campaign}
    (hnext : next.Disciplined) (hraised : raised.Disciplined) :
    (executePackagedCases jobs count next raised).Disciplined := by
  have hcases := disciplined_replicate disciplined_executePreparedCandidateCase count
  rw [executePackagedCases]
  split_ifs with hworkers
  · exact disciplined_ownTasks (fun _ ↦ hnext) hraised hcases
  · exact disciplined_inPool (fun _ ↦ hnext) hraised (le_max_left _ _) hcases

theorem disciplined_executeCandidateBatchWithContext (shared : Bool) (jobs : ℤ) (count : ℕ)
    {next raised : Campaign} (hnext : next.Disciplined) (hraised : raised.Disciplined) :
    (executeCandidateBatchWithContext shared jobs count next raised).Disciplined := by
  rw [executeCandidateBatchWithContext]
  split_ifs with hcount hshared
  · exact hnext
  · -- the shared runtime: the main thread executes while no pool is open
    intro answer
    cases answer with
    | raised => exact hraised
    | no | yes =>
      intro execution
      cases execution with
      | raised => exact hraised
      | no | yes =>
        intro finalized
        cases finalized with
        | raised => exact hraised
        | no | yes => exact hnext
  · intro answer
    cases answer with
    | raised => exact hraised
    | no | yes => exact disciplined_executePackagedCases jobs count hnext hraised

theorem disciplined_executeChunks (shared : Bool) (rerunCount : ℕ) (jobs : ℤ)
    (chunks : List ℕ) : (executeChunks shared rerunCount jobs chunks).Disciplined := by
  induction chunks with
  | nil => trivial
  | cons count rest ih =>
    refine disciplined_executeCandidateBatchWithContext shared jobs count ?_ ?_
    · refine disciplined_inJobs (fun _ ↦ ih) disciplined_finished ?_
        (disciplined_replicate (disciplined_finalizeChunkCase rerunCount !shared) count)
      intro hjobs hlength
      rw [List.length_replicate] at hlength
      exact le_min hjobs.le (by omega)
    · intro answer
      cases answer with
      | raised => trivial
      | no | yes => exact ih

theorem disciplined_scheduleEntriesWithCandidateBatch (shared : Bool) (rerunCount batchSize : ℕ)
    (jobs : ℤ) (entries : ℕ) :
    (scheduleEntriesWithCandidateBatch shared rerunCount batchSize jobs entries).Disciplined := by
  rw [scheduleEntriesWithCandidateBatch]
  split_ifs with hentries
  · trivial
  · exact disciplined_inJobs (fun _ ↦ disciplined_executeChunks shared rerunCount jobs _)
      disciplined_finished (fun hjobs _ ↦ hjobs.le)
      (disciplined_replicate (disciplined_prepareCaseSafe rerunCount) entries)

/-- All threads of a campaign are disciplined. -/
theorem disciplined_scheduleEntries (config : BatchConfig) (explicit : Option ℤ)
    (rerunCount : ℕ) (jobs : ℤ) (entries : ℕ) :
    (scheduleEntries config explicit rerunCount jobs entries).Disciplined := by
  rw [scheduleEntries]
  split
  · trivial
  · exact disciplined_scheduleEntriesWithCandidateBatch _ rerunCount _ jobs entries
  · exact disciplined_inJobs (fun _ ↦ disciplined_finished) disciplined_finished
      (fun hjobs _ ↦ hjobs.le) (disciplined_replicate (disciplined_scheduleOne rerunCount) entries)

/-! ### The bound -/

theorem limiterPermits_eq (limit : ℤ) : (limiterPermits limit : ℤ) = max 1 limit := by
  rw [limiterPermits]
  split_ifs with hlimit
  · omega
  · omega

/-- In every state of every campaign the executions in progress are at most `max(1, limit)`, the
permits that are left and those held are `max(1, limit)`, all of them are back when no pool is open,
a thread that has ended has given its permit back, and no thread waits for a permit while it holds
one. -/
theorem scheduleEntries_bounded (config : BatchConfig) (explicit : Option ℤ) (rerunCount : ℕ)
    (jobs limit : ℤ) (entries : ℕ) (moves : List (Move Answer)) :
    ∀ machine ∈ states stepMachine (startMachine (limiterPermits limit)
        (scheduleEntries config explicit rerunCount jobs entries)) moves,
      (machine.main.inProgress : ℤ) ≤ max 1 limit ∧
      (machine.permits : ℤ) + machine.main.held = max 1 limit ∧
      (machine.main.workers = [] → (machine.permits : ℤ) = max 1 limit) ∧
      ∀ worker ∈ machine.main.workers, worker.outcome.isSome ∨ worker.Waits → worker.held = 0 := by
  intro machine hmachine
  have hsound := sound_of_mem_states
    (disciplined_scheduleEntries config explicit rerunCount jobs entries) moves machine hmachine
  have hlimit := limiterPermits_eq limit
  refine ⟨?_, ?_, ?_, ?_⟩
  · have hbound := hsound.inProgress_le (by omega)
    omega
  · have htotal := hsound.permits
    omega
  · intro hpool
    have hback := hsound.permits_of_no_pool hpool
    omega
  · intro worker hworker hstate
    have hdisciplined := hsound.workers worker hworker
    exact hstate.elim hdisciplined.held_of_ended hdisciplined.held_of_waits

/-- Two entries, not batched. -/
def plainConfig : BatchConfig where
  supportsBatchExecution := false
  parallelBatchSize := none
  candidateKind := none
  commandBatchingMode := none
  executionModes := []
  target := "qemu_linux"

/-- Two threads reach their first runs under one permit: the first executes, the second waits. -/
def crowdedMoves : List (Move Answer) :=
  .main .yes :: ([0, 1].flatMap fun index ↦
    .worker index .yes :: List.replicate 3 (.worker index .yes)) ++
    [.worker 0 .yes, .worker 0 .yes, .worker 1 .yes]

theorem scheduleEntries_bounded_crowded :
    let machine := crowdedMoves.foldl stepMachine
      (startMachine (limiterPermits 1) (scheduleEntries plainConfig none 0 2 2))
    machine.main.inProgress = 1 ∧ machine.permits = 0 ∧
      (machine.main.inProgress : ℤ) ≤ max 1 1 :=
  ⟨rfl, rfl,
    (scheduleEntries_bounded plainConfig none 0 2 1 2 crowdedMoves _ (foldl_mem_states _ _)).1⟩

/-- No campaign is ever stuck: until it is over, some thread can move. -/
theorem scheduleEntries_not_stuck (config : BatchConfig) (explicit : Option ℤ) (rerunCount : ℕ)
    (jobs limit : ℤ) (entries : ℕ) (moves : List (Move Answer)) :
    ∀ machine ∈ states stepMachine (startMachine (limiterPermits limit)
        (scheduleEntries config explicit rerunCount jobs entries)) moves,
      machine.main ≠ .running .finished → ∃ move, Ready machine move := by
  intro machine hmachine hmain
  have hsound := sound_of_mem_states
    (disciplined_scheduleEntries config explicit rerunCount jobs entries) moves machine hmachine
  have hlimit := limiterPermits_eq limit
  exact hsound.exists_ready (by omega) hmain .no

end SyzAbi.Orchestrator.Concurrency

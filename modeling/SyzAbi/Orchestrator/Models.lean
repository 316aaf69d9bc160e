import SyzAbi.Analyzer.Compare
import SyzAbi.Analyzer.Normalize

/-!
# Runs, cases and results

The records that pass between the scheduler, the runners and the reports
(`orchestrator/models.py`, `orchestrator/stability.py` and the dictionaries of
`orchestrator/scheduler.py`), and the services the scheduler calls.

`ServicesIn` collects what a campaign depends on: the configuration values and, as functions, the
runs of the testcases, which are executed in a monad. In `Services` a run is a value or an
exception. A run is named by its program, its side and its run id, and every run of a campaign has a
name of its own, so a function from names to outcomes says everything that the runs of a campaign
can do.
-/

set_option autoImplicit false
set_option relaxedAutoImplicit false

namespace SyzAbi.Orchestrator

open Analyzer

/-! ### Exceptions and files -/

/-- A Python exception: its class name and its text. -/
structure PyError where
  typeName : String
  text : String
  deriving DecidableEq

/-- The `error_detail` of an exception. -/
def PyError.detail (error : PyError) : String :=
  error.typeName ++ ": " ++ error.text

/-- What stands at the path of a JSON file: nothing, a text that does not load, or a value. -/
inductive Stored (α : Type)
  | absent
  | unreadable (error : PyError)
  | stored (value : α)
  deriving DecidableEq

/-- `Path.exists`. -/
def Stored.exists {α : Type} : Stored α → Bool
  | .absent => false
  | _ => true

/-- `load_json`. -/
def Stored.load {α : Type} : Stored α → Except PyError α
  | .absent => .error ⟨"FileNotFoundError", "[Errno 2] No such file or directory"⟩
  | .unreadable error => .error error
  | .stored value => .ok value

/-! ### Runs -/

/-- `RunResult`. -/
structure RunResult where
  programId : String
  side : Side
  status : String
  exitCode : Option ℤ
  traceJsonPath : Option String
  externalStatePath : Option String
  kernelBuild : String
  runId : String
  statusDetail : Option String
  deriving DecidableEq

/-- A run and the two files its result names. -/
structure RunArtifacts where
  result : RunResult
  rawTrace : Stored RawTrace
  externalState : Stored ExternalState
  deriving DecidableEq

/-- A run result and the canonical trace that was loaded for it. -/
abbrev Outcome := RunResult × Option CanonicalTrace

/-- The divergence that a campaign injects on purpose. -/
structure InjectTrace where
  callIndex : ℤ
  syscallName : String
  field : String
  value : ℤ
  deriving DecidableEq

/-- The name of a run and the options it is started with. -/
structure RunRequest where
  programId : String
  side : Side
  runId : String
  injectTrace : Option InjectTrace
  deriving DecidableEq

/-! ### Entries and results -/

/-- The keys that `_scml_fields` copies from an entry. -/
structure ScmlFields where
  preflightStatus : String := "not_run"
  rejectionReasons : List String := []
  traceLogPath : String := ""
  sctraceOutputPath : String := ""
  preflightRunRoot : String := ""
  deriving DecidableEq

/-- An entry of the eligible file. -/
structure Entry where
  programId : String
  normalizedPath : String := ""
  metaPath : String := ""
  scml : ScmlFields := {}
  deriving DecidableEq

/-- The package a candidate run is taken from; both keys are `None` outside packaged batches. -/
structure Placement where
  packageDir : Option String := none
  packageSlot : Option ℕ := none
  deriving DecidableEq

/-- The result dictionary of a case. A key that a path of the source leaves out is `none`, the empty
list or the empty text. -/
structure CaseResult where
  programId : String
  classification : Classification
  normalizedPath : String
  metaPath : String
  scml : ScmlFields
  scmlResultBucket : SCMLResultBucket
  referenceRuns : List RunResult := []
  candidateRuns : List RunResult := []
  candidateRun : Option RunResult := none
  comparison : Option Comparison := none
  buildResultPath : Option String := none
  errorStage : Option String := none
  errorDetail : Option String := none
  placement : Placement := {}
  candidatePackageWorkflow : String := ""
  referenceCanonicalHash : Option String := none
  candidateCanonicalHash : Option String := none
  candidateCollection : Option RunResult := none
  finalized : Bool := false
  deriving DecidableEq

/-- The `candidate_ready` dictionary of `prepare_case`. -/
structure Prepared where
  entry : Entry
  programId : String
  runId : String
  injectTrace : Option InjectTrace
  referenceResults : List RunResult
  referenceHashes : List String
  currentReferenceCanonical : Option CanonicalTrace
  deriving DecidableEq

/-- The two kinds of dictionaries that `prepare_case` returns. -/
inductive PrepareOutcome
  | final (result : CaseResult)
  | candidateReady (prepared : Prepared)
  deriving DecidableEq

/-! ### Services -/

/-- What the scheduler takes from the configuration, the clock, the file system and the runners. -/
structure ServicesIn (m : Type → Type) where
  rerunCount : ℕ
  noiseSyscalls : List String
  workflow : String
  injectTrace : Option InjectTrace
  buildRoot : String → String
  clock : String → ℕ
  buildStatusOk : String → m Bool
  executeSide : RunRequest → m RunArtifacts
  executeCandidateCaseInPackage : RunRequest → String → ℕ → m RunArtifacts
  traceDigest : CanonicalTrace → String

/-- The services of a campaign: a run returns or raises. -/
abbrev Services := ServicesIn (Except PyError)

/-! ### Stability -/

/-- `_stable_view` of a canonical trace: the durations are dropped. -/
def stableView (trace : CanonicalTrace) : CanonicalTrace where
  programId := trace.programId
  side := trace.side
  eventCount := trace.eventCount
  events := trace.events.map fun event ↦ { event with durationNs := 0 }
  finalState := trace.finalState
  processExit := trace.processExit
  eventCount_eq := by rw [List.length_map]; exact trace.eventCount_eq

/-- `canonical_trace_hash`: the digest of the stable view. -/
def canonicalTraceHash {m : Type → Type} (svc : ServicesIn m) (trace : CanonicalTrace) : String :=
  svc.traceDigest (stableView trace)

/-- `all_equal`: some values, and one set of them. -/
def allEqual (values : List String) : Bool :=
  !values.isEmpty && values.dedup.length = 1

/-- `all_equal` holds of the nonempty constant lists. -/
theorem allEqual_iff (values : List String) :
    allEqual values = true ↔ ∃ value, values ≠ [] ∧ ∀ other ∈ values, other = value := by
  unfold allEqual
  simp only [Bool.and_eq_true, Bool.not_eq_true', List.isEmpty_eq_false_iff, decide_eq_true_eq,
    List.length_eq_one_iff]
  constructor
  · rintro ⟨hne, value, hdedup⟩
    refine ⟨value, hne, fun other hother ↦ ?_⟩
    have hmem : other ∈ values.dedup := List.mem_dedup.mpr hother
    rw [hdedup] at hmem
    exact List.mem_singleton.mp hmem
  · rintro ⟨value, hne, hconstant⟩
    refine ⟨hne, value, ?_⟩
    obtain ⟨length, hlength⟩ : ∃ length, values = List.replicate (length + 1) value := by
      obtain ⟨head, rest, rfl⟩ := List.exists_cons_of_ne_nil hne
      refine ⟨rest.length, ?_⟩
      exact List.eq_replicate_iff.mpr ⟨by simp, hconstant⟩
    rw [hlength]
    exact List.replicate_dedup (Nat.succ_ne_zero length)

end SyzAbi.Orchestrator

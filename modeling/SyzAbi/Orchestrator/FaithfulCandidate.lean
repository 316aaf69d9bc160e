import SyzAbi.Orchestrator.VerdictSoundness

/-!
# The verdict on a faithful candidate

`candidate_status_from_events` (`tools/run_asterinas_shared.py`) turns a candidate run whose process
ended well into an unsupported one when some call returned -1 with `ENOSYS` or `EOPNOTSUPP`. The
status is read off the candidate's events alone and `classify_result` asks it before the comparison.
So a candidate that agrees with a stable reference is classified `NO_DIFF`, unless the program
itself makes a call that both sides refuse in this way; then it is `UNSUPPORTED_FEATURE`.
-/

set_option autoImplicit false
set_option relaxedAutoImplicit false

namespace SyzAbi.Orchestrator

open Analyzer Library.Fallible

/-- The errno values that mark an unsupported call: `ENOSYS` and `EOPNOTSUPP`. -/
def unsupportedErrnos : List ℤ := [38, 95]

/-- Whether some event returned -1 with one of these errno values. -/
def reportsUnsupported (events : List RawEvent) : Bool :=
  events.any fun event ↦ event.returnValue = -1 && event.errno ∈ unsupportedErrnos

/-- `candidate_status_from_events`. -/
def candidateStatusFromEvents (events : List RawEvent) (processExit : ProcessExit) : String :=
  if processExit.status ≠ "ok" then processExit.status
  else if reportsUnsupported events then "unsupported"
  else "ok"

section Faithful

variable {svc : Services} {entry : Entry} {prepared : Prepared} {candidate : Outcome}
  {placement : Placement} {history : List Round}

/-- The runs of a case determine its history. -/
theorem History.unique {other : List Round}
    (hhistory : History svc prepared candidate placement history)
    (hother : History svc prepared candidate placement other) : history = other := by
  obtain ⟨first, rounds, hfirst, hrounds, rfl⟩ := hhistory
  obtain ⟨first', rounds', hfirst', hrounds', rfl⟩ := hother
  obtain rfl := Except.ok.inj (hfirst.symm.trans hfirst')
  obtain rfl := Except.ok.inj (hrounds.symm.trans hrounds')
  rfl

/-- The classification of a stable history whose last round left two equivalent traces depends on
the last candidate status only. -/
theorem classification_of_equivalent {result : CaseResult} {earlier : List Round} {last : Round}
    {reference trace : CanonicalTrace}
    (hprepared : prepareCase svc entry = .ok (.candidateReady prepared))
    (hresult : finalizePreparedCase svc prepared candidate placement = .ok result)
    (hhistory : History svc prepared candidate placement (earlier ++ [last]))
    (hstatus : last.1.1.status = ExecutionStatus.ok.value)
    (hstable : ∃ hash, ∀ other ∈ hashes svc (references (earlier ++ [last])), other = hash)
    (hreference : last.1.2 = some reference) (htrace : last.2.2 = some trace)
    (hequivalent : (compareCanonical svc.noiseSyscalls reference trace).equivalent = true) :
    (last.2.1.status ∉ decidingStatuses → result.classification = .noDiff) ∧
      (last.2.1.status = ExecutionStatus.unsupported.value →
        result.classification = .unsupportedFeature) := by
  obtain ⟨state, hstate, rfl⟩ := finalizePreparedCase_eq_ok_iff.mp hresult
  obtain ⟨other, hother, hrecords⟩ := records_triagedState hprepared hstate
  obtain rfl := hother.unique hhistory
  have hhashes := hother.hashes_ne_nil hprepared
  obtain ⟨hash, hall⟩ := hstable
  have hequal : allEqual state.referenceHashes = true := by
    rw [hrecords.referenceHashes]
    exact (allEqual_iff _).mpr ⟨hash, hhashes, hall⟩
  have hbaseline : BaselineAccepted true last.1.1.status := ⟨rfl, hstatus⟩
  have hclass := hrecords.classification_eq prepared placement hhashes
  rw [decidingPair_of_last earlier hreference htrace] at hclass
  rw [if_pos hequal]
  change (_ → (state.result svc prepared placement).classification = _) ∧
    (_ → (state.result svc prepared placement).classification = _)
  rw [hclass]
  constructor
  · intro hdeciding
    exact (classifyResult_of_not_deciding hbaseline hdeciding).mpr ⟨_, rfl, hequivalent⟩
  · intro hunsupported
    have hdeciding : last.2.1.status ∈ decidingStatuses := by
      rw [hunsupported]
      exact List.mem_cons_self
    rw [classifyResult_of_deciding hbaseline hdeciding, if_pos hunsupported]

/-- A candidate run whose process ended well, whose status comes from its events, and whose
canonical trace is equivalent to the one of a stable reference: the case is `NO_DIFF`, unless an
event of the run returned -1 with `ENOSYS` or `EOPNOTSUPP`; then it is `UNSUPPORTED_FEATURE`. -/
theorem classification_of_faithful {result : CaseResult} {earlier : List Round}
    {referenceRun run : RunResult} {reference trace : CanonicalTrace} {raw : RawTrace}
    {externalState : ExternalState}
    (hprepared : prepareCase svc entry = .ok (.candidateReady prepared))
    (hresult : finalizePreparedCase svc prepared candidate placement = .ok result)
    (hhistory : History svc prepared candidate placement
      (earlier ++ [((referenceRun, some reference), (run, some trace))]))
    (hok : referenceRun.status = ExecutionStatus.ok.value)
    (hstable : ∃ hash, ∀ other ∈ hashes svc (references
      (earlier ++ [((referenceRun, some reference), (run, some trace))])), other = hash)
    (_hcanonical : canonicalize raw externalState = .ok trace)
    (hexit : raw.processExit.status = ExecutionStatus.ok.value)
    (hstatus : run.status = candidateStatusFromEvents raw.events raw.processExit)
    (hequivalent : (compareCanonical svc.noiseSyscalls reference trace).equivalent = true) :
    result.classification =
      if reportsUnsupported raw.events then .unsupportedFeature else .noDiff := by
  obtain ⟨hnoDiff, hunsupported⟩ := classification_of_equivalent hprepared hresult hhistory hok
    hstable rfl rfl hequivalent
  have hexit' : ¬ raw.processExit.status ≠ "ok" := not_not.mpr hexit
  rw [candidateStatusFromEvents, if_neg hexit'] at hstatus
  by_cases hreports : reportsUnsupported raw.events = true
  · rw [if_pos hreports] at hstatus ⊢
    exact hunsupported hstatus
  · rw [if_neg hreports] at hstatus ⊢
    refine hnoDiff ?_
    change run.status ∉ decidingStatuses
    rw [hstatus]
    decide

end Faithful

/-! ### A program with an unsupported call -/

/-- A run of a program whose only call returns -1 with the given errno. -/
def refusedTrace (side : String) (errno : ℤ) : RawTrace where
  programId := "p"
  side := side
  runId := ""
  status := "ok"
  events := [{
    eventIndex := 0
    syscallName := "getpid"
    syscallNumber := 39
    args := []
    returnValue := -1
    errno := errno
    startNs := 0
    endNs := 1
    outputs := [] }]
  processExit := { status := "ok", exitCode := some 0, timedOut := false }

/-- The canonical form of `refusedTrace`. -/
def refusedCanonical (side : String) (errno : ℤ) : CanonicalTrace where
  programId := "p"
  side := side
  eventCount := 1
  events := [{
    index := 0
    sourceEventIndex := 0
    syscallName := "getpid"
    syscallNumber := 39
    args := []
    returnValue := .int (-1)
    errno := errno
    durationNs := 1
    outputs := [] }]
  finalState := { files := [] }
  processExit := { status := "ok", exitCode := some 0, timedOut := false }
  eventCount_eq := rfl

/-- The artifacts of such a run; the status of the candidate comes from its events. -/
def refusedRun (side : Side) (sideText : String) (errno : ℤ) : RunArtifacts where
  result := {
    programId := "p"
    side := side
    status :=
      match side with
      | .reference => "ok"
      | .candidate => candidateStatusFromEvents (refusedTrace sideText errno).events
          (refusedTrace sideText errno).processExit
    exitCode := some 0
    traceJsonPath := some "raw-trace.json"
    externalStatePath := some "external-state.json"
    kernelBuild := "unknown"
    runId := ""
    statusDetail := none }
  rawTrace := .stored (refusedTrace sideText errno)
  externalState := .stored { files := [] }

/-- A campaign in which both sides refuse the call with the same errno. -/
def refusingCampaign (errno : ℤ) : Services where
  rerunCount := 1
  noiseSyscalls := []
  workflow := "asterinas"
  injectTrace := none
  buildRoot := id
  clock := fun _ ↦ 0
  buildStatusOk := fun _ ↦ .ok true
  executeSide := fun request ↦
    match request.side with
    | .reference => .ok (refusedRun .reference "reference" errno)
    | .candidate => .ok (refusedRun .candidate "candidate" errno)
  executeCandidateCaseInPackage := fun _ _ _ ↦ .ok (refusedRun .candidate "candidate" errno)
  traceDigest := fun trace ↦ trace.side

/-- The reference run and the candidate run of `refusingCampaign`. -/
def refusedOutcome (side : Side) (sideText : String) (errno : ℤ) : Outcome :=
  ((refusedRun side sideText errno).result, some (refusedCanonical sideText errno))

/-- The prepared case of `refusingCampaign`. -/
def refusedPrepared (errno : ℤ) : Prepared where
  entry := { programId := "p" }
  programId := "p"
  runId := "0-p"
  injectTrace := none
  referenceResults := [(refusedRun .reference "reference" errno).result]
  referenceHashes := ["reference"]
  currentReferenceCanonical := some (refusedCanonical "reference" errno)

theorem classification_of_faithful_refused :
    ∃ result, finalizePreparedCase (refusingCampaign 9) (refusedPrepared 9)
        (refusedOutcome .candidate "candidate" 9) {} = .ok result ∧
      result.classification = if reportsUnsupported (refusedTrace "candidate" 9).events then
        .unsupportedFeature else .noDiff := by
  have hprepared : prepareCase (refusingCampaign 9) { programId := "p" } =
      .ok (.candidateReady (refusedPrepared 9)) := rfl
  have hhistory : History (refusingCampaign 9) (refusedPrepared 9)
      (refusedOutcome .candidate "candidate" 9) {}
      ([] ++ [(refusedOutcome .reference "reference" 9,
        refusedOutcome .candidate "candidate" 9)]) :=
    ⟨refusedOutcome .reference "reference" 9, [], rfl, rfl, rfl⟩
  have hcanonical : canonicalize (refusedTrace "candidate" 9) { files := [] } =
      .ok (refusedCanonical "candidate" 9) := rfl
  refine ⟨_, rfl, ?_⟩
  exact classification_of_faithful hprepared rfl hhistory rfl ⟨"reference", by decide⟩ hcanonical
    rfl rfl (by decide)

/-- Both sides refuse the call with `ENOSYS`, the traces are equivalent and the reference is stable,
but the case is not classified `NO_DIFF`. -/
theorem refusingCampaign_unsupported :
    prepareCase (refusingCampaign 38) { programId := "p" } =
        .ok (.candidateReady (refusedPrepared 38)) ∧
      canonicalize (refusedTrace "candidate" 38) { files := [] } =
        .ok (refusedCanonical "candidate" 38) ∧
      (compareCanonical [] (refusedCanonical "reference" 38)
        (refusedCanonical "candidate" 38)).equivalent = true ∧
      ∃ result, finalizePreparedCase (refusingCampaign 38) (refusedPrepared 38)
          (refusedOutcome .candidate "candidate" 38) {} = .ok result ∧
        result.referenceRuns.map RunResult.status = ["ok", "ok"] ∧
        result.classification = .unsupportedFeature := by
  refine ⟨rfl, rfl, by decide, _, rfl, rfl, rfl⟩

end SyzAbi.Orchestrator

import SyzAbi.Agent.InjectionRequest
import SyzAbi.Agent.TracerAgreement
import SyzAbi.Analyzer.AlteredResults
import SyzAbi.Orchestrator.FaithfulCandidate

/-!
# The controlled divergence

A campaign can be asked to produce a divergence of its own (`controlled_divergence_spec`,
`orchestrator/scheduler.py`): the tracer of the candidate then records an injected return value or
errno for the calls that the request names, and the calls themselves are not touched. It is the test
of the whole path from the tracer to the verdict.

The test is exact (`classification_of_controlledDivergence`). A candidate that matches a stable
reference is classified `BUG_LIKELY` when some call of the request gave another result than the
injected one, and the first divergence is the first such call; otherwise it is `NO_DIFF`. The
request has to name calls that are no noise, and a return value that the call does not hand out as a
handle.
-/

set_option autoImplicit false
set_option relaxedAutoImplicit false

namespace SyzAbi.Orchestrator

open Agent Analyzer Library Library.Json Library.Fallible

/-! ### The request -/

/-- The object `controlled_divergence` of a candidate profile. -/
structure ControlledDivergence where
  enabled : Bool := false
  matchSyscall : String
  field : String
  value : ℤ

/-- `controlled_divergence_spec`, for the candidate profile that has the object or lacks it. -/
def controlledDivergenceSpec (enabled : Bool) (profile : Option ControlledDivergence) :
    Option InjectTrace :=
  match profile with
  | none => none
  | some spec =>
    if !enabled || !spec.enabled then none
    else some {
      callIndex := -1
      syscallName := spec.matchSyscall
      field := spec.field
      value := spec.value }

/-- The injection of a run that was started with or without a request. -/
def runInjection (injectTrace : Option InjectTrace) : Injection :=
  match injectTrace with
  | none => {}
  | some request => requestedInjection request

/-! ### Recorded calls -/

/-- A system call that returned, with the times of the tracer around it. -/
structure CompletedCall where
  call : TracedCall
  result : KernelResult
  times : CallTimes

/-- The event of a call under an injection. -/
def CompletedCall.event (completed : CompletedCall) (env : TracerEnvironment)
    (injection : Injection) : Event :=
  tracedEvent { env with injection := injection } completed.call completed.result completed.times

/-- The file of events that a run leaves. -/
def eventsFile (env : TracerEnvironment) (injection : Injection) (calls : List CompletedCall) :
    Text :=
  calls.flatMap fun completed ↦ emitEvent env (completed.event env injection)

/-- The records that the file is read as. -/
def recordedEvents (env : TracerEnvironment) (injection : Injection) (calls : List CompletedCall) :
    List RawEvent :=
  calls.map fun completed ↦ rawEvent env (completed.event env injection)

/-- The call is one of those the injection names. -/
def CompletedCall.Named (completed : CompletedCall) (injection : Injection) : Prop :=
  isInjectionMatch injection completed.call.callIndex completed.call.name.text = true

instance decidableNamed (completed : CompletedCall) (injection : Injection) :
    Decidable (completed.Named injection) :=
  inferInstanceAs (Decidable (_ = true))

/-- The record of a call differs from its result. -/
def CompletedCall.Altered (completed : CompletedCall) (injection : Injection) : Prop :=
  completed.Named injection ∧
    (injection.field = some "return" ∧ completed.result.ret ≠ injection.value ∨
      injection.field = some "errno" ∧ completed.result.errno ≠ injection.value.toInt32)

/-- The calls that are named are compared with their results, and the injected value is no handle
where it stands for a return value. -/
def Comparable (noiseSyscalls : List String) (injection : Injection)
    (calls : List CompletedCall) : Prop :=
  ∀ completed ∈ calls, completed.Named injection → completed.call.name.text ∉ noiseSyscalls ∧
    (injection.field = some "return" → injection.value.toInt ∈ sentinelValues ∨
      returnKind completed.call.name.text injection.value.toInt = none)

theorem decodeEvents_eventsFile (env : TracerEnvironment) (injection : Injection)
    (calls : List CompletedCall) :
    (parseEvents (eventsFile env injection calls) >>= List.mapM decodeEvent) =
      .ok (recordedEvents env injection calls) := by
  have hfile : eventsFile env injection calls =
      (calls.map fun completed ↦ eventText env (completed.event env injection)).flatMap
        fun body ↦ body ++ [10] := by
    rw [eventsFile, List.flatMap_map]
    exact List.flatMap_congr fun completed _ ↦ emitEvent_eq env _
  have hlines : List.Forall₂ EventLine
      (calls.map fun completed ↦ eventText env (completed.event env injection))
      (calls.map fun completed ↦ eventValue env (completed.event env injection)) := by
    rw [List.forall₂_map_left_iff, List.forall₂_map_right_iff, List.forall₂_same]
    exact fun completed _ ↦ eventLine_eventText env _
  rw [hfile, parseEvents_lines hlines, ok_bind, mapM_eq_ok_iff, recordedEvents,
    List.forall₂_map_left_iff, List.forall₂_map_right_iff, List.forall₂_same]
  exact fun completed _ ↦ decodeEvent_eventValue env _

section Records

variable {env : TracerEnvironment} {injection : Injection} {completed : CompletedCall}

theorem not_named_empty : ¬ completed.Named {} := by
  rw [CompletedCall.Named, isInjectionMatch, Bool.false_and, Bool.false_and]
  exact Bool.false_ne_true

theorem returnValue_rawEvent : (rawEvent env (completed.event env injection)).returnValue =
    (if completed.Named injection ∧ injection.field = some "return" then injection.value
      else completed.result.ret).toInt := by
  simp only [rawEvent, CompletedCall.event, tracedEvent, Bool.and_eq_true, decide_eq_true_eq]
  rfl

theorem errno_rawEvent : (rawEvent env (completed.event env injection)).errno =
    (if completed.Named injection ∧ injection.field = some "errno" then injection.value.toInt32
      else completed.result.errno).toInt := by
  simp only [rawEvent, CompletedCall.event, tracedEvent, Bool.and_eq_true, decide_eq_true_eq]
  rfl

/-- Only the results of a record depend on the injection. -/
theorem rawEvent_event : rawEvent env (completed.event env injection) =
    { rawEvent env (completed.event env {}) with
      returnValue := (rawEvent env (completed.event env injection)).returnValue
      errno := (rawEvent env (completed.event env injection)).errno } := rfl

theorem rawEvent_eq_of_not_altered (haltered : ¬ completed.Altered injection) :
    rawEvent env (completed.event env injection) = rawEvent env (completed.event env {}) := by
  rw [rawEvent_event, returnValue_rawEvent, errno_rawEvent]
  have hreturn : (if completed.Named injection ∧ injection.field = some "return" then
      injection.value else completed.result.ret) = completed.result.ret := by
    split_ifs with hnamed
    · by_contra hne
      exact haltered ⟨hnamed.1, .inl ⟨hnamed.2, Ne.symm hne⟩⟩
    · rfl
  have herrno : (if completed.Named injection ∧ injection.field = some "errno" then
      injection.value.toInt32 else completed.result.errno) = completed.result.errno := by
    split_ifs with hnamed
    · by_contra hne
      exact haltered ⟨hnamed.1, .inr ⟨hnamed.2, Ne.symm hne⟩⟩
    · rfl
  rw [hreturn, herrno]
  rfl

/-- A value that the call does not hand out as a handle is recorded as it is. -/
theorem plainReturn_of_plain {event : RawEvent} (hplain : event.returnValue ∈ sentinelValues ∨
    returnKind event.syscallName event.returnValue = none) : PlainReturn event := by
  rw [PlainReturn, returnPosition]
  split_ifs with hzero
  · rcases hplain with hsentinel | hkind
    · cases hkind : returnKind event.syscallName event.returnValue with
      | none => rfl
      | some kind => exact if_pos hsentinel
    · rw [hkind]
      rfl
  · rw [not_ne_iff.mp hzero]

theorem visiblyAltered_of_altered {noiseSyscalls : List String}
    (haltered : completed.Altered injection)
    (hnoise : completed.call.name.text ∉ noiseSyscalls)
    (hplain : injection.field = some "return" → injection.value.toInt ∈ sentinelValues ∨
      returnKind completed.call.name.text injection.value.toInt = none) :
    VisiblyAltered noiseSyscalls (rawEvent env (completed.event env {}))
      (rawEvent env (completed.event env injection)) := by
  obtain ⟨hnamed, ⟨hfield, hne⟩ | ⟨hfield, hne⟩⟩ := haltered
  · have hvalue : (rawEvent env (completed.event env injection)).returnValue =
        injection.value.toInt := by
      rw [returnValue_rawEvent, if_pos ⟨hnamed, hfield⟩]
    refine ⟨hnoise, .inr ⟨plainReturn_of_plain ?_, ?_⟩⟩
    · rw [hvalue]
      exact hplain hfield
    · rw [hvalue, returnValue_rawEvent, if_neg fun h ↦ not_named_empty h.1]
      exact fun heq ↦ hne (Int64.toInt_inj.mp heq).symm
  · refine ⟨hnoise, .inl ?_⟩
    rw [errno_rawEvent, errno_rawEvent, if_pos ⟨hnamed, hfield⟩,
      if_neg fun h ↦ not_named_empty h.1]
    exact fun heq ↦ hne (Int32.toInt_inj.mp heq).symm

end Records

section Recorded

variable {env : TracerEnvironment} {injection : Injection} {calls : List CompletedCall}
  {noiseSyscalls : List String} {raw : RawTrace}

/-- The trace of the calls under an injection. -/
def recordedTrace (raw : RawTrace) (env : TracerEnvironment) (injection : Injection)
    (calls : List CompletedCall) : RawTrace :=
  { raw with events := recordedEvents env injection calls }

theorem alteredTrace_recordedTrace (hcomparable : Comparable noiseSyscalls injection calls) :
    AlteredTrace noiseSyscalls (recordedTrace raw env {} calls)
      (recordedTrace raw env injection calls) where
  events := by
    show List.Forall₂ _ (recordedEvents env {} calls) (recordedEvents env injection calls)
    rw [recordedEvents, recordedEvents, List.forall₂_map_left_iff, List.forall₂_map_right_iff,
      List.forall₂_same]
    intro completed hcompleted hne
    have haltered : completed.Altered injection := not_not.mp (mt rawEvent_eq_of_not_altered hne)
    obtain ⟨hnoise, hplain⟩ := hcomparable completed hcompleted haltered.1
    exact visiblyAltered_of_altered haltered hnoise hplain
  processExit := rfl

/-- The calls whose record differs from their result. -/
def alteredCalls (injection : Injection) (calls : List CompletedCall) : Set ℕ :=
  {position | ∃ completed, calls[position]? = some completed ∧ completed.Altered injection}

theorem alteredPositions_recordedTrace (hcomparable : Comparable noiseSyscalls injection calls) :
    alteredPositions (recordedTrace raw env {} calls) (recordedTrace raw env injection calls) =
      alteredCalls injection calls := by
  ext position
  show (recordedEvents env {} calls)[position]? ≠
    (recordedEvents env injection calls)[position]? ↔ _
  rw [recordedEvents, recordedEvents, List.getElem?_map, List.getElem?_map]
  cases hcall : calls[position]? with
  | none => simp [alteredCalls, hcall]
  | some completed =>
    have hmem : completed ∈ calls := List.mem_of_getElem? hcall
    simp only [alteredCalls, Set.mem_ofPred_eq, hcall, Option.map_some, Option.some_inj,
      exists_eq_left', ne_eq]
    refine ⟨fun hne ↦ not_not.mp fun hsame ↦ hne (rawEvent_eq_of_not_altered hsame).symm,
      fun haltered heq ↦ ?_⟩
    obtain ⟨hnoise, hplain⟩ := hcomparable completed hmem haltered.1
    have hvisible : VisiblyAltered noiseSyscalls (rawEvent env (completed.event env {}))
        (rawEvent env (completed.event env injection)) :=
      visiblyAltered_of_altered haltered hnoise hplain
    rcases hvisible.results with herrno | ⟨-, hreturn⟩
    · exact herrno (congrArg RawEvent.errno heq).symm
    · exact hreturn (congrArg RawEvent.returnValue heq).symm

end Recorded

/-! ### The verdict -/

section Verdict

variable {svc : Services} {entry : Entry} {prepared : Prepared} {candidate : Outcome}
  {placement : Placement} {result : CaseResult} {earlier : List Round}
  {referenceRun run : RunResult} {reference trace honest : CanonicalTrace}

/-- With a stable reference, the last two traces decide the classification and are compared in the
result. -/
theorem verdict_of_lastRound
    (hprepared : prepareCase svc entry = .ok (.candidateReady prepared))
    (hresult : finalizePreparedCase svc prepared candidate placement = .ok result)
    (hhistory : History svc prepared candidate placement
      (earlier ++ [((referenceRun, some reference), (run, some trace))]))
    (hstable : ∃ hash, ∀ other ∈ hashes svc (references
      (earlier ++ [((referenceRun, some reference), (run, some trace))])), other = hash) :
    result.classification = classifyResult true referenceRun.status run.status
        (some (compareCanonical svc.noiseSyscalls reference trace)) ∧
      result.comparison = some (compareCanonical svc.noiseSyscalls reference trace) := by
  obtain ⟨state, hstate, rfl⟩ := finalizePreparedCase_eq_ok_iff.mp hresult
  obtain ⟨other, hother, hrecords⟩ := records_triagedState hprepared hstate
  obtain rfl := hother.unique hhistory
  have hhashes := hother.hashes_ne_nil hprepared
  obtain ⟨hash, hall⟩ := hstable
  have hequal : allEqual state.referenceHashes = true := by
    rw [hrecords.referenceHashes]
    exact (allEqual_iff _).mpr ⟨hash, hhashes, hall⟩
  have hclass := hrecords.classification_eq prepared placement hhashes
  have hcomparison := hrecords.finalComparison_eq hhashes
  rw [decidingPair_of_last earlier rfl rfl] at hclass hcomparison
  rw [if_pos hequal]
  exact ⟨hclass, hcomparison⟩

/-- A reference run that left a trace ended well, and the events of the trace are numbered. -/
theorem of_runReferenceOnce {programId runId suffix : String}
    (hrun : runReferenceOnce svc programId runId suffix = .ok (run, some trace)) :
    run.status = ExecutionStatus.ok.value ∧ Numbered trace.events := by
  obtain ⟨artifacts, -, hbranch⟩ := bind_eq_ok_iff.mp hrun
  split_ifs at hbranch with hstatus
  · obtain ⟨canonical, hload, heq⟩ := bind_eq_ok_iff.mp hbranch
    obtain ⟨rfl, hsome⟩ := Prod.mk.inj (pure_eq_ok_iff.mp heq)
    obtain rfl := Option.some.inj hsome
    obtain ⟨raw, -, hstate⟩ := bind_eq_ok_iff.mp hload
    obtain ⟨externalState, -, hcanonical⟩ := bind_eq_ok_iff.mp hstate
    cases hok : canonicalize raw externalState with
    | error message =>
      rw [hok] at hcanonical
      cases hcanonical
    | ok found =>
      rw [hok] at hcanonical
      obtain rfl := Except.ok.inj hcanonical
      exact ⟨hstatus, numbered_of_canonicalize hok⟩
  · obtain ⟨-, hnone⟩ := Prod.mk.inj (pure_eq_ok_iff.mp hbranch)
    cases hnone

theorem History.of_reference {history : List Round}
    (hhistory : History svc prepared candidate placement history)
    (houtcome : (run, some trace) ∈ references history) :
    run.status = ExecutionStatus.ok.value ∧ Numbered trace.events := by
  obtain ⟨first, rounds, hfirst, hrounds, rfl⟩ := hhistory
  rcases List.mem_cons.mp houtcome with rfl | hrest
  · exact of_runReferenceOnce hfirst
  · obtain ⟨round, hround, heq⟩ := List.mem_map.mp hrest
    obtain ⟨attempt, -, hattempt⟩ := exists_of_mapM_eq_ok hrounds hround
    obtain ⟨reference, hreference, hcandidate⟩ := bind_eq_ok_iff.mp hattempt
    obtain ⟨candidate, -, hpair⟩ := bind_eq_ok_iff.mp hcandidate
    rw [← pure_eq_ok_iff.mp hpair] at heq
    obtain rfl : reference = (run, some trace) := heq
    exact of_runReferenceOnce hreference

/-- The comparison never excuses a whole trace as noise. -/
theorem noiseOnly_compareCanonical (noiseSyscalls : List String) (left right : CanonicalTrace) :
    (compareCanonical noiseSyscalls left right).noiseOnly = false := by
  unfold compareCanonical
  by_cases hcount : left.eventCount = right.eventCount
  · by_cases hexit : left.processExit = right.processExit
    · by_cases hstate : left.finalState = right.finalState
      · cases firstDivergence noiseSyscalls (left.events.zip right.events) <;>
          simp [hcount, hexit, hstate]
      · simp [hcount, hexit, hstate]
    · simp [hcount, hexit]
  · simp [hcount]

/-- With both sides ended well, the comparison alone decides. -/
theorem classifyResult_of_ok (comparison : Comparison) (hnoise : comparison.noiseOnly = false) :
    classifyResult true ExecutionStatus.ok.value ExecutionStatus.ok.value (some comparison) =
      if comparison.equivalent then .noDiff else .bugLikely := by
  cases hequivalent : comparison.equivalent <;>
    simp [classifyResult, ExecutionStatus.value, hequivalent, hnoise]

/-- The controlled divergence is found where the request alters a record, first where it first
alters one, and nowhere else. `carried` is what the tracer reads of the request. -/
theorem classification_of_controlledDivergence {enabled : Bool}
    {profile : Option ControlledDivergence} {env : TracerEnvironment} {carried : Injection}
    {calls : List CompletedCall} {raw : RawTrace} {externalState : ExternalState}
    (hcampaign : svc.injectTrace = controlledDivergenceSpec enabled profile)
    (hprepared : prepareCase svc entry = .ok (.candidateReady prepared))
    (hresult : finalizePreparedCase svc prepared candidate placement = .ok result)
    (hhistory : History svc prepared candidate placement
      (earlier ++ [((referenceRun, some reference), (run, some trace))]))
    (hstable : ∃ hash, ∀ other ∈ hashes svc (references
      (earlier ++ [((referenceRun, some reference), (run, some trace))])), other = hash)
    (hrun : run.status = ExecutionStatus.ok.value)
    (hcarried : TracesAlike carried (runInjection prepared.injectTrace))
    (hcomparable : Comparable svc.noiseSyscalls
      (runInjection (controlledDivergenceSpec enabled profile)) calls)
    (hevents : (parseEvents (eventsFile env carried calls) >>= List.mapM decodeEvent) =
      .ok raw.events)
    (htrace : canonicalize raw externalState = .ok trace)
    (hhonest : canonicalize (recordedTrace raw env {} calls) externalState = .ok honest)
    (hequivalent : (compareCanonical svc.noiseSyscalls reference honest).equivalent = true) :
    let altered := alteredCalls (runInjection (controlledDivergenceSpec enabled profile)) calls
    (result.classification = .bugLikely ↔ altered.Nonempty) ∧
      (result.classification = .noDiff ↔ altered = ∅) ∧
      ∀ position, result.comparison.bind Comparison.firstDivergenceIndex = some position ↔
        IsLeast altered position := by
  intro altered
  rw [injectTrace_of_prepareCase hprepared, hcampaign] at hcarried
  obtain ⟨hclass, hcomparison⟩ := verdict_of_lastRound hprepared hresult hhistory hstable
  have hlast : (referenceRun, some reference) ∈
      references (earlier ++ [((referenceRun, some reference), (run, some trace))]) :=
    List.mem_map.mpr ⟨_, List.mem_append_right _ List.mem_cons_self, rfl⟩
  obtain ⟨hreference, hnumbered⟩ := hhistory.of_reference hlast
  have hrecorded : recordedEvents env carried calls =
      recordedEvents env (runInjection (controlledDivergenceSpec enabled profile)) calls :=
    List.map_congr_left fun completed _ ↦ congrArg (rawEvent env)
      (hcarried env completed.call completed.result completed.times)
  rw [decodeEvents_eventsFile, hrecorded] at hevents
  have hraw : raw = recordedTrace raw env
      (runInjection (controlledDivergenceSpec enabled profile)) calls := by
    rw [recordedTrace, Except.ok.inj hevents]
  rw [hraw] at htrace
  obtain ⟨hverdict, hfirst⟩ := firstDivergenceIndex_of_altered
    (alteredTrace_recordedTrace hcomparable) hnumbered hhonest htrace hequivalent
  rw [alteredPositions_recordedTrace hcomparable] at hverdict hfirst
  rw [hreference, hrun, classifyResult_of_ok _ (noiseOnly_compareCanonical _ _ _)] at hclass
  rw [hclass, hcomparison, Set.nonempty_iff_ne_empty, Ne, ← hverdict]
  refine ⟨?_, ?_, hfirst⟩ <;> split_ifs with hequal <;> simp [hequal]

end Verdict

/-! ### A campaign with a controlled divergence -/

/-- The profile of the candidate of the baseline workflow, switched on. -/
def openatProfile : ControlledDivergence where
  enabled := true
  matchSyscall := "openat"
  field := "return"
  value := -5

def openatName : ShortName := ⟨"openat", by decide, by decide⟩

def candidateTracer : TracerEnvironment :=
  { smokeTracers.reference with side := ⟨"candidate", by decide, by decide⟩ }

/-- A program that opens one file. -/
def openCalls (ret : Int64) : List CompletedCall :=
  [{ call := ⟨openatName, 257, 0, ⟨-100, 4096, 0, 0, 0, 0⟩⟩
     result := ⟨ret, 0, fun _ ↦ 0⟩
     times := ⟨1, 2⟩ }]

def openTrace (side : String) (injection : Injection) (ret : Int64) : RawTrace :=
  recordedTrace
    { programId := "p"
      side := side
      runId := ""
      status := "ok"
      events := []
      processExit := { status := "ok", exitCode := some 0, timedOut := false } }
    candidateTracer injection (openCalls ret)

def openCanonical (side : String) (returnValue : Scalar) : CanonicalTrace where
  programId := "p"
  side := side
  eventCount := 1
  events := [{
    index := 0
    sourceEventIndex := 0
    syscallName := "openat"
    syscallNumber := 257
    args := [.int (-100), .token "addr#0", .int 0, .int 0, .int 0, .int 0]
    returnValue := returnValue
    errno := 0
    durationNs := 1
    outputs := [] }]
  finalState := { files := [] }
  processExit := { status := "ok", exitCode := some 0, timedOut := false }
  eventCount_eq := List.length_singleton.symm

def openRun (side : Side) (trace : RawTrace) : RunArtifacts where
  result := {
    programId := "p"
    side := side
    status := "ok"
    exitCode := some 0
    traceJsonPath := some "raw-trace.json"
    externalStatePath := some "external-state.json"
    kernelBuild := "unknown"
    runId := ""
    statusDetail := none }
  rawTrace := .stored trace
  externalState := .stored { files := [] }

/-- The file is opened as descriptor 3 by the reference and as 5 by the candidate. -/
def openCampaign (enabled : Bool) : Services where
  rerunCount := 1
  noiseSyscalls := []
  workflow := "baseline"
  injectTrace := controlledDivergenceSpec enabled (some openatProfile)
  buildRoot := id
  clock := fun _ ↦ 0
  buildStatusOk := fun _ ↦ .ok true
  executeSide := fun request ↦ .ok (
    match request.side with
    | .reference => openRun .reference (openTrace "reference" {} 3)
    | .candidate => openRun .candidate (openTrace "candidate" (runInjection request.injectTrace) 5))
  executeCandidateCaseInPackage := fun _ _ _ ↦ .error ⟨"RuntimeError", "no packages"⟩
  traceDigest := fun trace ↦ trace.side

def openPrepared (enabled : Bool) : Prepared where
  entry := { programId := "p" }
  programId := "p"
  runId := "0-p"
  injectTrace := controlledDivergenceSpec enabled (some openatProfile)
  referenceResults := [(openRun .reference (openTrace "reference" {} 3)).result]
  referenceHashes := ["reference"]
  currentReferenceCanonical := some (openCanonical "reference" (.token "fd#0"))

def openOutcome (side : Side) (sideText : String) (returnValue : Scalar) : Outcome :=
  ((openRun side (openTrace sideText {} 5)).result, some (openCanonical sideText returnValue))

def openRequest : InjectTrace := ⟨-1, "openat", "return", -5⟩

/-- The variables of the request. -/
def openVariables : Library.Shell.Environment := fun name ↦
  ((injectionVariables openRequest).lookup name).map Utf8.encode

theorem classification_of_openCampaign : ∃ result,
    finalizePreparedCase (openCampaign true) (openPrepared true)
        (openOutcome .candidate "candidate" (.int (-5))) {} = .ok result ∧
      result.classification = .bugLikely ∧
      result.comparison.bind Comparison.firstDivergenceIndex = some 0 := by
  have hcampaign : (openCampaign true).injectTrace =
      controlledDivergenceSpec true (some openatProfile) := rfl
  have hprepared : prepareCase (openCampaign true) { programId := "p" } =
      .ok (.candidateReady (openPrepared true)) := rfl
  have hhistory : History (openCampaign true) (openPrepared true)
      (openOutcome .candidate "candidate" (.int (-5))) {}
      ([(openOutcome .reference "reference" (.token "fd#0"),
          openOutcome .candidate "candidate" (.int (-5)))] ++
        [(openOutcome .reference "reference" (.token "fd#0"),
          openOutcome .candidate "candidate" (.int (-5)))]) :=
    ⟨openOutcome .reference "reference" (.token "fd#0"), _, rfl, rfl, rfl⟩
  have hread : getInjection openVariables = requestedInjection openRequest :=
    getInjection_eq (by decide)
  have hcarried : TracesAlike (getInjection openVariables)
      (runInjection (openPrepared true).injectTrace) := by
    rw [hread]
    exact fun _ _ _ _ ↦ rfl
  have hcomparable : Comparable [] (runInjection
      (controlledDivergenceSpec true (some openatProfile))) (openCalls 5) := by
    simp only [Comparable, openCalls, List.forall_mem_singleton]
    exact fun _ ↦ ⟨List.not_mem_nil, fun _ ↦ .inr (by decide)⟩
  have hevents : (parseEvents (eventsFile candidateTracer (getInjection openVariables)
      (openCalls 5)) >>= List.mapM decodeEvent) =
        .ok (openTrace "candidate" (getInjection openVariables) 5).events :=
    decodeEvents_eventsFile _ _ _
  have hhonest : canonicalize (recordedTrace (openTrace "candidate" (getInjection openVariables) 5)
      candidateTracer {} (openCalls 5)) { files := [] } =
        .ok (openCanonical "candidate" (.token "fd#0")) := rfl
  refine ⟨_, rfl, ?_⟩
  obtain ⟨hbug, -, hfirst⟩ := classification_of_controlledDivergence hcampaign hprepared rfl
    hhistory ⟨"reference", by decide⟩ rfl hcarried hcomparable hevents rfl hhonest (by decide)
  have haltered : 0 ∈ alteredCalls (runInjection
      (controlledDivergenceSpec true (some openatProfile))) (openCalls 5) :=
    ⟨_, rfl, by decide, .inl ⟨rfl, by decide⟩⟩
  exact ⟨hbug.mpr ⟨0, haltered⟩, (hfirst 0).mpr ⟨haltered, fun _ _ ↦ Nat.zero_le _⟩⟩

end SyzAbi.Orchestrator

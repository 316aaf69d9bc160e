import SyzAbi.Library.Fallible
import SyzAbi.Orchestrator.Scheduler

/-!
# What a verdict says about the recorded runs

The runs of a case form a history: the first reference run with the first candidate run, then one
round for each pass of the triage loop (`History`). `Records` ties the variables of the source to
the history: the result lists are the runs in order, the hash lists and the traces in force are
those of the runs that left a trace, and the comparison in force is the one of the last candidate
trace with the reference trace that was in force when it was made (`latestPair`). One pass keeps
`Records`, and so does the loop.

A verdict is sound (`VerdictSound`) when it rests on runs that all ended well. The source looks at
the status of the last run of each side only, so a failure in the middle of the reference runs and a
last candidate run without a trace go unnoticed. `HidesNoFailure` is the condition on the history
under which this makes no difference.
-/

set_option autoImplicit false
set_option relaxedAutoImplicit false

namespace SyzAbi.Orchestrator

open Analyzer Library.Fallible

/-! ### Histories -/

/-- One pass: what the reference run and the candidate run left. -/
abbrev Round := Outcome × Outcome

/-- The reference side of a history. -/
def references (history : List Round) : List Outcome :=
  history.map Prod.fst

/-- The candidate side of a history. -/
def candidates (history : List Round) : List Outcome :=
  history.map Prod.snd

/-- The trace in force after some runs: the one of the last run that left a trace. -/
def lastTrace (outcomes : List Outcome) : Option CanonicalTrace :=
  outcomes.reverse.findSome? Prod.snd

/-- The hashes of the runs that left a trace. -/
def hashes (svc : Services) (outcomes : List Outcome) : List String :=
  outcomes.flatMap fun outcome ↦ hashesOf svc outcome.2

/-- The last candidate trace with the reference trace in force when it was made. The history is
given latest round first. -/
def latestPairFrom : List Round → Option (CanonicalTrace × CanonicalTrace)
  | [] => none
  | round :: earlier =>
    match round.2.2 with
    | none => latestPairFrom earlier
    | some candidate =>
      ((round.1 :: earlier.map Prod.fst).findSome? Prod.snd).map fun reference ↦
        (reference, candidate)

/-- The last candidate trace of a history with the reference trace then in force. -/
def latestPair (history : List Round) : Option (CanonicalTrace × CanonicalTrace) :=
  latestPairFrom history.reverse

/-- The comparison of a pair of traces. -/
def comparePair (svc : Services) (pair : CanonicalTrace × CanonicalTrace) : Comparison :=
  compareCanonical svc.noiseSyscalls pair.1 pair.2

/-- One pass of the triage loop, without the bookkeeping. -/
def triageRound (svc : Services) (prepared : Prepared) (placement : Placement) (attempt : ℕ) :
    Except PyError Round := do
  let reference ← runReferenceOnce svc prepared.programId prepared.runId
    ("ref-triage" ++ attempt.repr)
  let candidate ← runCandidateOnceWithPackage svc prepared.programId prepared.runId
    ("candidate-triage" ++ attempt.repr) prepared.injectTrace placement
  return (reference, candidate)

/-- The number of passes that the first candidate run calls for. -/
def triageAttempts (svc : Services) (prepared : Prepared) (candidate : Outcome) : ℕ :=
  if (initialState svc prepared candidate).needsTriage candidate then svc.rerunCount else 0

/-- The history of a case: what its runs returned, in the order in which they were started. -/
def History (svc : Services) (prepared : Prepared) (candidate : Outcome) (placement : Placement)
    (history : List Round) : Prop :=
  ∃ first rounds,
    runReferenceOnce svc prepared.programId prepared.runId "ref0" = .ok first ∧
    (List.range (triageAttempts svc prepared candidate)).mapM (triageRound svc prepared placement) =
      .ok rounds ∧
    history = (first, candidate) :: rounds

/-! ### The two predicates -/

/-- What a verdict promises about the history it was reached with. -/
structure VerdictSound (svc : Services) (history : List Round) (result : CaseResult) : Prop where
  /-- Unless the baseline is invalid, every reference run ended well and their hashes agree. -/
  baseline : result.classification ≠ .baselineInvalid →
    (∀ outcome ∈ references history, outcome.1.status = ExecutionStatus.ok.value) ∧
      ∃ hash, ∀ other ∈ hashes svc (references history), other = hash
  /-- Without a difference, the last candidate run ended well, and the attached comparison is the
  equivalent one of the last two runs. -/
  noDiff : result.classification = .noDiff →
    ∃ reference candidate referenceTrace candidateTrace,
      history.getLast? = some ((reference, some referenceTrace), (candidate, some candidateTrace)) ∧
      candidate.status = ExecutionStatus.ok.value ∧
      result.comparison =
        some (compareCanonical svc.noiseSyscalls referenceTrace candidateTrace) ∧
      (compareCanonical svc.noiseSyscalls referenceTrace candidateTrace).equivalent = true

/-- The last reference run ended well, and the hashes of the reference traces agree. -/
def LooksStable (svc : Services) (history : List Round) : Prop :=
  (∃ last ∈ history.getLast?, last.1.1.status = ExecutionStatus.ok.value) ∧
    ∃ hash, ∀ other ∈ hashes svc (references history), other = hash

/-- The two traces that are compared last: the traces in force when the hashes of the sides meet,
and else the latest pair. -/
def decidingPair (svc : Services) (history : List Round) :
    Option (CanonicalTrace × CanonicalTrace) :=
  if allEqual (hashes svc (candidates history)) &&
      (hashes svc (candidates history)).getLast? = (hashes svc (references history)).getLast? then
    (lastTrace (references history)).bind fun reference ↦
      (lastTrace (candidates history)).map fun candidate ↦ (reference, candidate)
  else latestPair history

/-- The last candidate status leaves the decision to the comparison, and the deciding pair is
equivalent. -/
def LooksEquivalent (svc : Services) (history : List Round) : Prop :=
  (∃ last ∈ history.getLast?, last.2.1.status ∉ decidingStatuses) ∧
    ∃ pair ∈ decidingPair svc history, (comparePair svc pair).equivalent = true

/-- No failed run is hidden: when the last reference run ended well and the reference traces agree,
then no reference run failed; and when moreover the last candidate status does not decide and the
deciding pair is equivalent, then the last candidate run ended well and left a trace. -/
def HidesNoFailure (svc : Services) (history : List Round) : Prop :=
  LooksStable svc history →
    (∀ outcome ∈ references history, outcome.1.status = ExecutionStatus.ok.value) ∧
      (LooksEquivalent svc history →
        ∃ last ∈ history.getLast?, last.2.1.status = ExecutionStatus.ok.value ∧ last.2.2.isSome)

/-! ### One more run -/

@[simp] theorem references_concat (history : List Round) (round : Round) :
    references (history ++ [round]) = references history ++ [round.1] := by
  simp [references]

@[simp] theorem candidates_concat (history : List Round) (round : Round) :
    candidates (history ++ [round]) = candidates history ++ [round.2] := by
  simp [candidates]

@[simp] theorem hashes_concat (svc : Services) (outcomes : List Outcome) (outcome : Outcome) :
    hashes svc (outcomes ++ [outcome]) = hashes svc outcomes ++ hashesOf svc outcome.2 := by
  simp [hashes]

@[simp] theorem lastTrace_concat (outcomes : List Outcome) (outcome : Outcome) :
    lastTrace (outcomes ++ [outcome]) = outcome.2.or (lastTrace outcomes) := by
  unfold lastTrace
  rw [List.reverse_append, List.reverse_singleton, List.singleton_append, List.findSome?_cons]
  cases outcome.2 <;> rfl

theorem latestPair_concat_none (history : List Round) {round : Round} (hround : round.2.2 = none) :
    latestPair (history ++ [round]) = latestPair history := by
  unfold latestPair
  rw [List.reverse_append, List.reverse_singleton, List.singleton_append, latestPairFrom, hround]

theorem latestPair_concat_some (history : List Round) {round : Round} {candidate : CanonicalTrace}
    (hround : round.2.2 = some candidate) :
    latestPair (history ++ [round]) =
      (lastTrace (references (history ++ [round]))).map fun reference ↦
        (reference, candidate) := by
  unfold latestPair
  rw [List.reverse_append, List.reverse_singleton, List.singleton_append, latestPairFrom, hround,
    lastTrace, references, ← List.map_reverse, List.reverse_append]
  rfl

/-! ### The variables of the source -/

/-- The variables of the source hold what the history says. -/
structure Records (svc : Services) (state : TriageState) (history : List Round) : Prop where
  referenceResults : state.referenceResults = (references history).map Prod.fst
  referenceHashes : state.referenceHashes = hashes svc (references history)
  currentReferenceCanonical : state.currentReferenceCanonical = lastTrace (references history)
  candidateResults : state.candidateResults = (candidates history).map Prod.fst
  candidateHashes : state.candidateHashes = hashes svc (candidates history)
  candidateCanonical : state.candidateCanonical = lastTrace (candidates history)
  comparison : state.comparison = (latestPair history).map (comparePair svc)

/-- One pass keeps `Records`. -/
theorem Records.concat {svc : Services} {state : TriageState} {history : List Round}
    (hrecords : Records svc state history) (round : Round) :
    Records svc ((state.recordReference svc round.1).recordCandidate svc round.2)
      (history ++ [round]) := by
  obtain ⟨hreference, hhashes, hcurrent, hcandidate, hcandidateHashes, hcanonical, hcomparison⟩ :=
    hrecords
  cases htrace : round.2.2 with
  | none =>
    simp only [TriageState.recordCandidate, htrace, TriageState.recordReference]
    refine ⟨?_, ?_, ?_, ?_, ?_, ?_, ?_⟩
    · simp [hreference]
    · simp [hhashes]
    · simp [hcurrent]
    · simp [hcandidate]
    · simp [hcandidateHashes, htrace, hashesOf]
    · simp [hcanonical, htrace]
    · rw [latestPair_concat_none history htrace]
      exact hcomparison
  | some trace =>
    simp only [TriageState.recordCandidate, htrace, TriageState.recordReference]
    refine ⟨?_, ?_, ?_, ?_, ?_, ?_, ?_⟩
    · simp [hreference]
    · simp [hhashes]
    · simp [hcurrent]
    · simp [hcandidate]
    · simp [hcandidateHashes, htrace, hashesOf]
    · simp [htrace]
    · rw [latestPair_concat_some history htrace, references_concat, lastTrace_concat, hcurrent,
        Option.map_map]
      rfl

/-- The recording of any rounds keeps `Records`. -/
theorem Records.foldl {svc : Services} {state : TriageState} {history : List Round}
    (hrecords : Records svc state history) (rounds : List Round) :
    Records svc (rounds.foldl (fun state round ↦
      (state.recordReference svc round.1).recordCandidate svc round.2) state)
      (history ++ rounds) := by
  induction rounds generalizing state history with
  | nil =>
    rw [List.append_nil]
    exact hrecords
  | cons round rest ih =>
    rw [List.foldl_cons, List.append_cons]
    exact ih (hrecords.concat round)

/-! ### From preparation to the verdict -/

/-- A reference run that ended well has its trace. -/
theorem trace_of_runReferenceOnce {svc : Services} {programId runId suffix : String}
    {outcome : Outcome} (hrun : runReferenceOnce svc programId runId suffix = .ok outcome)
    (hstatus : outcome.1.status = ExecutionStatus.ok.value) : ∃ trace, outcome.2 = some trace := by
  unfold runReferenceOnce at hrun
  obtain ⟨run, _, hrest⟩ := bind_eq_ok_iff.mp hrun
  by_cases hok : run.result.status = ExecutionStatus.ok.value
  · rw [if_pos hok] at hrest
    obtain ⟨trace, _, heq⟩ := bind_eq_ok_iff.mp hrest
    rw [← pure_eq_ok_iff.mp heq]
    exact ⟨trace, rfl⟩
  · rw [if_neg hok] at hrest
    rw [← pure_eq_ok_iff.mp hrest] at hstatus
    exact absurd hstatus hok

/-- The reruns of `_build_reference_runs` are recorded after the first run. -/
theorem rerunReference_loop_prefix {svc : Services} {programId runId : String}
    {attempts : List ℕ} {start last : List RunResult × List String}
    (hloop : attempts.foldlM (rerunReference svc programId runId) start = .ok last) :
    start.1 <+: last.1 := by
  induction attempts generalizing start with
  | nil =>
    rw [← pure_eq_ok_iff.mp hloop]
  | cons attempt rest ih =>
    rw [List.foldlM_cons, bind_eq_ok_iff] at hloop
    obtain ⟨middle, hmiddle, hrest⟩ := hloop
    obtain ⟨rerun, _, hrecord⟩ := bind_eq_ok_iff.mp hmiddle
    have hstep : start.1 <+: middle.1 := by
      rw [← pure_eq_ok_iff.mp hrecord]
      exact List.prefix_append _ _
    exact hstep.trans (ih hrest)

/-- What `_build_reference_runs` returns: the first run leads, and it is the only one when it ended
well. -/
theorem buildReferenceRuns_eq_ok {svc : Services} {programId runId : String}
    {results : List RunResult} {resultHashes : List String} {canonical : Option CanonicalTrace}
    (hruns : buildReferenceRuns svc programId runId = .ok (results, resultHashes, canonical)) :
    ∃ run, runReferenceOnce svc programId runId "ref0" = .ok (run, canonical) ∧
      results.head? = some run ∧
      (run.status = ExecutionStatus.ok.value →
        results = [run] ∧ resultHashes = hashesOf svc canonical) := by
  unfold buildReferenceRuns at hruns
  obtain ⟨⟨run, first⟩, hfirst, hrest⟩ := bind_eq_ok_iff.mp hruns
  dsimp only at hrest
  by_cases hok : run.status = ExecutionStatus.ok.value
  · rw [if_neg (not_not.mpr hok)] at hrest
    obtain ⟨rfl, rfl, rfl⟩ : [run] = results ∧ hashesOf svc first = resultHashes ∧
        first = canonical := by
      simpa only [Prod.mk.injEq] using pure_eq_ok_iff.mp hrest
    exact ⟨run, hfirst, rfl, fun _ ↦ ⟨rfl, rfl⟩⟩
  · rw [if_pos hok] at hrest
    obtain ⟨last, hloop, hlast⟩ := bind_eq_ok_iff.mp hrest
    obtain ⟨rfl, -, rfl⟩ : last.1 = results ∧ last.2 = resultHashes ∧ first = canonical := by
      simpa only [Prod.mk.injEq] using pure_eq_ok_iff.mp hlast
    obtain ⟨reruns, hreruns⟩ := rerunReference_loop_prefix hloop
    refine ⟨run, hfirst, ?_, fun h ↦ absurd h hok⟩
    rw [← hreruns]
    rfl

/-- A prepared case carries its entry's identifier and one reference run, which ended well and left
a trace. -/
theorem prepareCase_candidateReady {svc : Services} {entry : Entry} {prepared : Prepared}
    (hprepared : prepareCase svc entry = .ok (.candidateReady prepared)) :
    prepared.entry = entry ∧ prepared.programId = entry.programId ∧ ∃ run trace,
      runReferenceOnce svc prepared.programId prepared.runId "ref0" = .ok (run, some trace) ∧
      run.status = ExecutionStatus.ok.value ∧ prepared.referenceResults = [run] ∧
      prepared.referenceHashes = [canonicalTraceHash svc trace] ∧
      prepared.currentReferenceCanonical = some trace := by
  unfold prepareCase at hprepared
  obtain ⟨built, _, hrest⟩ := bind_eq_ok_iff.mp hprepared
  cases built with
  | false => exact PrepareOutcome.noConfusion (pure_eq_ok_iff.mp hrest)
  | true =>
    obtain ⟨⟨results, resultHashes, canonical⟩, hruns, hlast⟩ := bind_eq_ok_iff.mp hrest
    obtain ⟨run, hrun, hhead, hsingle⟩ := buildReferenceRuns_eq_ok hruns
    dsimp only at hlast
    rw [hhead, Option.map_some] at hlast
    by_cases hok : run.status = ExecutionStatus.ok.value
    · rw [if_neg (by simp [hok])] at hlast
      obtain rfl := PrepareOutcome.candidateReady.inj (pure_eq_ok_iff.mp hlast)
      obtain ⟨trace, htrace⟩ := trace_of_runReferenceOnce hrun hok
      obtain ⟨hresults, hhashes⟩ := hsingle hok
      obtain rfl : canonical = some trace := htrace
      exact ⟨rfl, rfl, run, trace, hrun, hok, hresults, hhashes, rfl⟩
    · rw [if_pos (by simpa using hok)] at hlast
      exact PrepareOutcome.noConfusion (pure_eq_ok_iff.mp hlast)

/-- A case is prepared with the request of the campaign. -/
theorem injectTrace_of_prepareCase {svc : Services} {entry : Entry} {prepared : Prepared}
    (hprepared : prepareCase svc entry = .ok (.candidateReady prepared)) :
    prepared.injectTrace = svc.injectTrace := by
  unfold prepareCase at hprepared
  obtain ⟨built, -, hrest⟩ := bind_eq_ok_iff.mp hprepared
  cases built with
  | false => exact PrepareOutcome.noConfusion (pure_eq_ok_iff.mp hrest)
  | true =>
    obtain ⟨⟨results, resultHashes, canonical⟩, -, hlast⟩ := bind_eq_ok_iff.mp hrest
    dsimp only at hlast
    split_ifs at hlast with hstatus
    · exact PrepareOutcome.noConfusion (pure_eq_ok_iff.mp hlast)
    · rw [← PrepareOutcome.candidateReady.inj (pure_eq_ok_iff.mp hlast)]

end SyzAbi.Orchestrator

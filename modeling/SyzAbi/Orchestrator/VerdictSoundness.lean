import SyzAbi.Orchestrator.Triage

/-!
# When a verdict is sound

Every result of `finalizePreparedCase` belongs to a history, and it is sound exactly when the
history hides no failure (`finalizePreparedCase_sound_iff`). The recorded run lists of the result
are the runs of the history in order.

The campaign `staleCampaign` shows what goes wrong otherwise: its first reference rerun times out,
the second one ends well, and the verdict is `NO_DIFF` although a recorded reference run failed.
-/

set_option autoImplicit false
set_option relaxedAutoImplicit false

namespace SyzAbi.Orchestrator

open Analyzer Library.Fallible

/-! ### The variables at the verdict -/

section Verdict

variable {svc : Services} {entry : Entry} {prepared : Prepared} {candidate : Outcome}
  {placement : Placement} {state : TriageState} {history : List Round}

/-- Before triage the variables record the first round. -/
theorem records_initialState {run : RunResult} {trace : CanonicalTrace}
    (hresults : prepared.referenceResults = [run])
    (hhashes : prepared.referenceHashes = [canonicalTraceHash svc trace])
    (hcurrent : prepared.currentReferenceCanonical = some trace) :
    Records svc (initialState svc prepared candidate) [((run, some trace), candidate)] := by
  unfold initialState
  rw [hresults, hhashes, hcurrent]
  refine ⟨rfl, rfl, rfl, rfl, ?_, ?_, ?_⟩
  · simp [hashes, candidates]
  · simp [lastTrace, candidates]
  · cases htrace : candidate.2 with
    | none => simp [latestPair, latestPairFrom, htrace]
    | some canonical => simp [latestPair, latestPairFrom, htrace, comparePair]

/-- The variables at the verdict record the history of the case. -/
theorem records_triagedState (hprepared : prepareCase svc entry = .ok (.candidateReady prepared))
    (hstate : triagedState svc prepared candidate placement = .ok state) :
    ∃ history, History svc prepared candidate placement history ∧ Records svc state history := by
  obtain ⟨-, -, run, trace, hfirst, -, hresults, hhashes, hcurrent⟩ :=
    prepareCase_candidateReady hprepared
  have hinitial : Records svc (initialState svc prepared candidate)
      [((run, some trace), candidate)] := records_initialState hresults hhashes hcurrent
  unfold triagedState at hstate
  by_cases htriage : (initialState svc prepared candidate).needsTriage candidate = true
  · rw [if_pos htriage] at hstate
    have hstep : ∀ state attempt, triageAttempt svc prepared placement state attempt =
        (triageRound svc prepared placement attempt >>= fun round ↦
          pure ((state.recordReference svc round.1).recordCandidate svc round.2)) := by
      intro state attempt
      simp only [triageAttempt, triageRound, bind_assoc, pure_bind]
    obtain ⟨rounds, hrounds, rfl⟩ := (foldlM_eq_ok_iff hstep).mp hstate
    refine ⟨_, ⟨_, rounds, hfirst, ?_, rfl⟩, hinitial.foldl rounds⟩
    rw [triageAttempts, if_pos htriage]
    exact hrounds
  · rw [if_neg htriage] at hstate
    obtain rfl := Except.ok.inj hstate
    refine ⟨_, ⟨_, [], hfirst, ?_, rfl⟩, hinitial⟩
    rw [triageAttempts, if_neg htriage]
    rfl

/-- The reference side of a history begins with a run that ended well, and every run of it that
ended well left its trace. -/
theorem History.references_traced (hhistory : History svc prepared candidate placement history)
    {outcome : Outcome} (houtcome : outcome ∈ references history)
    (hstatus : outcome.1.status = ExecutionStatus.ok.value) : ∃ trace, outcome.2 = some trace := by
  obtain ⟨first, rounds, hfirst, hrounds, rfl⟩ := hhistory
  rcases List.mem_cons.mp houtcome with rfl | hrest
  · exact trace_of_runReferenceOnce hfirst hstatus
  · obtain ⟨round, hround, rfl⟩ := List.mem_map.mp hrest
    obtain ⟨attempt, -, hattempt⟩ := exists_of_mapM_eq_ok hrounds hround
    obtain ⟨reference, hreference, hcandidate⟩ := bind_eq_ok_iff.mp hattempt
    obtain ⟨candidate, -, heq⟩ := bind_eq_ok_iff.mp hcandidate
    rw [← pure_eq_ok_iff.mp heq] at hstatus ⊢
    exact trace_of_runReferenceOnce hreference hstatus

/-- The first reference run of a prepared case left a trace, so there are reference hashes. -/
theorem History.hashes_ne_nil (hprepared : prepareCase svc entry = .ok (.candidateReady prepared))
    (hhistory : History svc prepared candidate placement history) :
    hashes svc (references history) ≠ [] := by
  obtain ⟨-, -, run, trace, hprepare, -⟩ := prepareCase_candidateReady hprepared
  obtain ⟨first, rounds, hfirst, -, rfl⟩ := hhistory
  obtain rfl : (run, some trace) = first := Except.ok.inj (hprepare.symm.trans hfirst)
  simp [hashes, references, hashesOf]

/-- A history has a last round. -/
theorem History.exists_last (hhistory : History svc prepared candidate placement history) :
    ∃ earlier last, history = earlier ++ [last] := by
  obtain ⟨first, rounds, -, -, rfl⟩ := hhistory
  exact ⟨_, _, (List.dropLast_append_getLast (List.cons_ne_nil _ _)).symm⟩

/-- Some run left a trace exactly when there are hashes. -/
theorem lastTrace_eq_none_iff (svc : Services) (outcomes : List Outcome) :
    lastTrace outcomes = none ↔ hashes svc outcomes = [] := by
  unfold lastTrace hashes
  rw [List.findSome?_eq_none_iff, List.flatMap_eq_nil_iff]
  refine ⟨fun h outcome houtcome ↦ ?_, fun h outcome houtcome ↦ ?_⟩
  · rw [h outcome (List.mem_reverse.mpr houtcome)]
    rfl
  · have hnone := h outcome (List.mem_reverse.mp houtcome)
    simpa [hashesOf] using hnone

/-- The attached comparison is the one of the deciding pair. -/
theorem Records.finalComparison_eq (hrecords : Records svc state history)
    (hhashes : hashes svc (references history) ≠ []) :
    state.finalComparison svc = (decidingPair svc history).map (comparePair svc) := by
  unfold TriageState.finalComparison decidingPair
  rw [hrecords.candidateHashes, hrecords.referenceHashes, hrecords.currentReferenceCanonical,
    hrecords.candidateCanonical, hrecords.comparison]
  have hnonempty : (hashes svc (references history)).isEmpty = false := by
    simpa using hhashes
  rw [hnonempty, Bool.not_false, Bool.and_true]
  split_ifs with hmeet
  · obtain ⟨hequal, -⟩ := Bool.and_eq_true_iff.mp hmeet
    obtain ⟨-, hcandidates, -⟩ := (allEqual_iff _).mp hequal
    obtain ⟨reference, hreference⟩ := Option.ne_none_iff_exists'.mp
      (mt (lastTrace_eq_none_iff svc _).mp hhashes)
    obtain ⟨canonical, hcanonical⟩ := Option.ne_none_iff_exists'.mp
      (mt (lastTrace_eq_none_iff svc _).mp hcandidates)
    rw [hreference, hcanonical]
    rfl
  · rfl

/-- A case has a result when its triage does, and the result is one of the two dictionaries. -/
theorem finalizePreparedCase_eq_ok_iff {result : CaseResult} :
    finalizePreparedCase svc prepared candidate placement = .ok result ↔
      ∃ state, triagedState svc prepared candidate placement = .ok state ∧
        result = finalizeResult (if allEqual state.referenceHashes then
          state.result svc prepared placement else state.unstableResult prepared) := by
  unfold finalizePreparedCase
  rw [bind_eq_ok_iff]
  refine exists_congr fun state ↦ and_congr_right fun _ ↦ ?_
  cases allEqual state.referenceHashes with
  | false => exact pure_eq_ok_iff.trans eq_comm
  | true => exact pure_eq_ok_iff.trans eq_comm

/-- The run lists of a result are the runs of the history in order. -/
theorem Records.runs_of_result (hrecords : Records svc state history) (prepared : Prepared)
    (placement : Placement) :
    let result := finalizeResult (if allEqual state.referenceHashes then
      state.result svc prepared placement else state.unstableResult prepared)
    result.referenceRuns = (references history).map Prod.fst ∧
      result.candidateRuns = (candidates history).map Prod.fst := by
  dsimp only
  split_ifs
  · exact ⟨hrecords.referenceResults, hrecords.candidateResults⟩
  · exact ⟨hrecords.referenceResults, hrecords.candidateResults⟩

/-- With a stable reference, the classification is read off the last round and the deciding
pair. -/
theorem Records.classification_eq {earlier : List Round} {last : Round}
    (hrecords : Records svc state (earlier ++ [last])) (prepared : Prepared) (placement : Placement)
    (hhashes : hashes svc (references (earlier ++ [last])) ≠ []) :
    (state.result svc prepared placement).classification =
      classifyResult true last.1.1.status last.2.1.status
        ((decidingPair svc (earlier ++ [last])).map (comparePair svc)) := by
  have hreference : (state.referenceResults.getLast?.map RunResult.status).getD "" =
      last.1.1.status := by
    simp [hrecords.referenceResults]
  have hcandidate : (state.candidateResults.getLast?.map RunResult.status).getD "" =
      last.2.1.status := by
    simp [hrecords.candidateResults]
  unfold TriageState.result
  rw [hreference, hcandidate, hrecords.finalComparison_eq hhashes]

/-- When the last round left both traces, they are the deciding pair. -/
theorem decidingPair_of_last (earlier : List Round) {last : Round}
    {reference canonical : CanonicalTrace} (hreference : last.1.2 = some reference)
    (hcanonical : last.2.2 = some canonical) :
    decidingPair svc (earlier ++ [last]) = some (reference, canonical) := by
  have hlastReference : lastTrace (references (earlier ++ [last])) = some reference := by
    rw [references_concat, lastTrace_concat, hreference, Option.some_or]
  have hlastCandidate : lastTrace (candidates (earlier ++ [last])) = some canonical := by
    rw [candidates_concat, lastTrace_concat, hcanonical, Option.some_or]
  unfold decidingPair
  split_ifs
  · rw [hlastReference, hlastCandidate]
    rfl
  · rw [latestPair_concat_some earlier hcanonical, hlastReference]
    rfl

/-! ### Soundness -/

theorem verdictSound_finalizeResult {result : CaseResult} :
    VerdictSound svc history (finalizeResult result) ↔ VerdictSound svc history result :=
  ⟨fun h ↦ ⟨h.baseline, h.noDiff⟩, fun h ↦ ⟨h.baseline, h.noDiff⟩⟩

/-- The verdict on a stable history is sound exactly when the history hides no failure. -/
theorem Records.sound_iff {earlier : List Round} {last : Round}
    (hrecords : Records svc state (earlier ++ [last]))
    (hhashes : hashes svc (references (earlier ++ [last])) ≠ [])
    (htraced : last.1.1.status = ExecutionStatus.ok.value → ∃ trace, last.1.2 = some trace)
    (hstable : ∃ hash, ∀ other ∈ hashes svc (references (earlier ++ [last])), other = hash) :
    VerdictSound svc (earlier ++ [last]) (state.result svc prepared placement) ↔
      HidesNoFailure svc (earlier ++ [last]) := by
  have hclass := hrecords.classification_eq prepared placement hhashes
  have hcomparison : (state.result svc prepared placement).comparison =
      (decidingPair svc (earlier ++ [last])).map (comparePair svc) :=
    hrecords.finalComparison_eq hhashes
  have hgetLast : (earlier ++ [last]).getLast? = some last := List.getLast?_concat
  have hbaseline : LooksStable svc (earlier ++ [last]) ↔
      (state.result svc prepared placement).classification ≠ .baselineInvalid := by
    rw [hclass, Ne, classifyResult_eq_baselineInvalid_iff, not_not]
    unfold LooksStable BaselineAccepted
    rw [hgetLast]
    exact ⟨fun ⟨⟨_, hother, hok⟩, _⟩ ↦ ⟨rfl, Option.some.inj hother ▸ hok⟩,
      fun hok ↦ ⟨⟨last, rfl, hok.2⟩, hstable⟩⟩
  have hequivalent : (state.result svc prepared placement).classification = .noDiff ↔
      last.1.1.status = ExecutionStatus.ok.value ∧ LooksEquivalent svc (earlier ++ [last]) := by
    rw [hclass, classifyResult_eq_noDiff_iff]
    simp [LooksEquivalent, BaselineAccepted]
  constructor
  · rintro ⟨hreferences, hnoDiff⟩ hlooks
    refine ⟨(hreferences (hbaseline.mp hlooks)).1, fun hlooksEquivalent ↦ ?_⟩
    have hlastOk : last.1.1.status = ExecutionStatus.ok.value := by
      obtain ⟨⟨other, hother, hok⟩, -⟩ := hlooks
      rw [hgetLast] at hother
      rw [Option.some.inj hother]
      exact hok
    obtain ⟨reference, run, referenceTrace, trace, hlast, hrun, -⟩ :=
      hnoDiff (hequivalent.mpr ⟨hlastOk, hlooksEquivalent⟩)
    exact ⟨_, hlast, hrun, rfl⟩
  · intro hhides
    refine ⟨fun hclassification ↦ ?_, fun hclassification ↦ ?_⟩
    · exact ⟨(hhides (hbaseline.mpr hclassification)).1, hstable⟩
    · obtain ⟨hlastOk, hlooksEquivalent⟩ := hequivalent.mp hclassification
      have hlooks : LooksStable svc (earlier ++ [last]) := ⟨⟨last, hgetLast, hlastOk⟩, hstable⟩
      obtain ⟨other, hother, hrun, htrace⟩ := (hhides hlooks).2 hlooksEquivalent
      rw [hgetLast] at hother
      obtain rfl := Option.some.inj hother
      obtain ⟨referenceTrace, hreference⟩ := htraced hlastOk
      obtain ⟨trace, htrace⟩ := Option.isSome_iff_exists.mp htrace
      have hpair : decidingPair svc (earlier ++ [last]) = some (referenceTrace, trace) :=
        decidingPair_of_last earlier hreference htrace
      obtain ⟨pair, hmem, hcompare⟩ := hlooksEquivalent.2
      rw [hpair] at hmem hcomparison
      obtain rfl := Option.some.inj hmem
      refine ⟨last.1.1, last.2.1, referenceTrace, trace, ?_, hrun, hcomparison, hcompare⟩
      rw [hgetLast, ← hreference, ← htrace]

end Verdict

/-- Every result of a prepared case belongs to a history of runs, its run lists are the runs of the
history, and its verdict is sound exactly when the history hides no failure. -/
theorem finalizePreparedCase_sound_iff {svc : Services} {entry : Entry} {prepared : Prepared}
    {candidate : Outcome} {placement : Placement} {result : CaseResult}
    (hprepared : prepareCase svc entry = .ok (.candidateReady prepared))
    (hresult : finalizePreparedCase svc prepared candidate placement = .ok result) :
    ∃ history, History svc prepared candidate placement history ∧
      result.referenceRuns = (references history).map Prod.fst ∧
      result.candidateRuns = (candidates history).map Prod.fst ∧
      (VerdictSound svc history result ↔ HidesNoFailure svc history) := by
  obtain ⟨state, hstate, rfl⟩ := finalizePreparedCase_eq_ok_iff.mp hresult
  obtain ⟨history, hhistory, hrecords⟩ := records_triagedState hprepared hstate
  have hruns := hrecords.runs_of_result prepared placement
  refine ⟨history, hhistory, hruns.1, hruns.2, ?_⟩
  have hhashes := hhistory.hashes_ne_nil hprepared
  have hstable := allEqual_iff (hashes svc (references history))
  obtain ⟨earlier, last, rfl⟩ := hhistory.exists_last
  rw [hrecords.referenceHashes]
  by_cases hequal : allEqual (hashes svc (references (earlier ++ [last]))) = true
  · rw [if_pos hequal]
    obtain ⟨hash, -, hall⟩ := hstable.mp hequal
    have htraced : last.1.1.status = ExecutionStatus.ok.value → ∃ trace, last.1.2 = some trace :=
      hhistory.references_traced (by simp)
    rw [verdictSound_finalizeResult]
    exact hrecords.sound_iff hhashes htraced ⟨hash, hall⟩
  · rw [if_neg hequal]
    have hunstable : ¬ ∃ hash, ∀ other ∈ hashes svc (references (earlier ++ [last])),
        other = hash := fun ⟨hash, hall⟩ ↦ hequal (hstable.mpr ⟨hash, hhashes, hall⟩)
    constructor
    · exact fun _ hlooks ↦ absurd hlooks.2 hunstable
    · exact fun _ ↦ ⟨fun h ↦ absurd rfl h, fun h ↦ Classification.noConfusion h⟩

/-! ### A hidden failure -/

/-- A run of a program without calls that ended with the given status and exit code. -/
def emptyRun (side : Side) (sideText status : String) (exitCode : ℤ) : RunArtifacts where
  result := {
    programId := "p"
    side := side
    status := status
    exitCode := some exitCode
    traceJsonPath := some "raw-trace.json"
    externalStatePath := some "external-state.json"
    kernelBuild := "unknown"
    runId := ""
    statusDetail := none }
  rawTrace := .stored {
    programId := "p"
    side := sideText
    runId := ""
    status := status
    events := []
    processExit := { status := status, exitCode := some exitCode, timedOut := false } }
  externalState := .stored { files := [] }

/-- A campaign with two reruns, the first of whose reference reruns times out. -/
def staleCampaign : Services where
  rerunCount := 2
  noiseSyscalls := []
  workflow := "baseline"
  injectTrace := none
  buildRoot := id
  clock := fun _ ↦ 0
  buildStatusOk := fun _ ↦ .ok true
  executeSide := fun request ↦
    match request.side with
    | .candidate => .ok (emptyRun .candidate "candidate" "ok" 0)
    | .reference =>
      if request.runId = "0-p-ref-triage0" then .ok (emptyRun .reference "reference" "timeout" 0)
      else .ok (emptyRun .reference "reference" "ok" 0)
  executeCandidateCaseInPackage := fun _ _ _ ↦ .ok (emptyRun .candidate "candidate" "ok" 0)
  traceDigest := fun trace ↦
    if trace.processExit.exitCode = some 0 then trace.side else trace.side ++ " failed"

/-- The canonical trace of an empty run that ended well. -/
def emptyTrace (side : String) (exitCode : ℤ) : CanonicalTrace where
  programId := "p"
  side := side
  eventCount := 0
  events := []
  finalState := { files := [] }
  processExit := { status := "ok", exitCode := some exitCode, timedOut := false }
  eventCount_eq := rfl

/-- The prepared case of `staleCampaign`. -/
def stalePrepared : Prepared where
  entry := { programId := "p" }
  programId := "p"
  runId := "0-p"
  injectTrace := none
  referenceResults := [(emptyRun .reference "reference" "ok" 0).result]
  referenceHashes := ["reference"]
  currentReferenceCanonical := some (emptyTrace "reference" 0)

/-- The first candidate run of `staleCampaign`: it exits with another code. -/
def staleCandidate : Outcome :=
  ((emptyRun .candidate "candidate" "ok" 1).result, some (emptyTrace "candidate" 1))

/-- The history of `staleCampaign`. -/
def staleHistory : List Round :=
  let reference : Outcome :=
    ((emptyRun .reference "reference" "ok" 0).result, some (emptyTrace "reference" 0))
  let candidate : Outcome :=
    ((emptyRun .candidate "candidate" "ok" 0).result, some (emptyTrace "candidate" 0))
  [(reference, staleCandidate),
    (((emptyRun .reference "reference" "timeout" 0).result, none), candidate),
    (reference, candidate)]

theorem finalizePreparedCase_sound_iff_stale :
    ∃ result history, finalizePreparedCase staleCampaign stalePrepared staleCandidate {} =
        .ok result ∧
      History staleCampaign stalePrepared staleCandidate {} history ∧
      (VerdictSound staleCampaign history result ↔ HidesNoFailure staleCampaign history) := by
  have hprepared : prepareCase staleCampaign { programId := "p" } =
      .ok (.candidateReady stalePrepared) := rfl
  obtain ⟨result, hresult⟩ : ∃ result,
      finalizePreparedCase staleCampaign stalePrepared staleCandidate {} = .ok result := ⟨_, rfl⟩
  obtain ⟨history, hhistory, -, -, hiff⟩ := finalizePreparedCase_sound_iff hprepared hresult
  exact ⟨result, history, hresult, hhistory, hiff⟩

/-- The verdict of `staleCampaign` is `NO_DIFF` although a recorded reference run timed out. -/
theorem staleCampaign_unsound :
    prepareCase staleCampaign { programId := "p" } = .ok (.candidateReady stalePrepared) ∧
      History staleCampaign stalePrepared staleCandidate {} staleHistory ∧
      ∃ result, finalizePreparedCase staleCampaign stalePrepared staleCandidate {} = .ok result ∧
        result.classification = .noDiff ∧ ¬ VerdictSound staleCampaign staleHistory result := by
  refine ⟨rfl, ?_, ?_⟩
  · exact ⟨_, staleHistory.tail, rfl, rfl, rfl⟩
  · refine ⟨_, rfl, rfl, fun hsound ↦ ?_⟩
    have hok := (hsound.baseline Classification.noConfusion).1
      ((emptyRun .reference "reference" "timeout" 0).result, none)
      (by simp [staleHistory, references])
    exact absurd hok (by decide)

end SyzAbi.Orchestrator

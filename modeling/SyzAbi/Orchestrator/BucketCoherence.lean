import SyzAbi.Orchestrator.FaithfulCandidate

/-!
# The two labels of a case

A result carries a classification and an SCML bucket. `classify_result` looks at the last statuses
first and `scml_result_bucket` at the comparison, which may be older than the last runs. So the two
labels contradict each other when a comparison stands although the last reference run failed, or an
equivalent one although the last candidate status decides (`coherent_labels_iff`). In terms of the
runs of a case that is `ComparisonCounts` (`finalizePreparedCase_coherent_iff`).

In the campaign `failingCampaign` the last reference rerun times out after the traces differed. The
verdict is `BASELINE_INVALID`, and the bucket is the one the reducer takes its seeds from.
-/

set_option autoImplicit false
set_option relaxedAutoImplicit false

namespace SyzAbi.Orchestrator

open Analyzer

/-- The two labels of a result agree: the bucket without a difference is the one of `NO_DIFF`, and
the bucket of the divergences is not the one of an invalid baseline. -/
structure Coherent (result : CaseResult) : Prop where
  noDiff : result.scmlResultBucket = .passedScmlAndNoDiff ↔ result.classification = .noDiff
  diverged : result.scmlResultBucket = .passedScmlAndDiverged →
    result.classification ≠ .baselineInvalid

/-- When the reference traces agree and two traces are compared, then the last reference run ended
well; and when moreover they are equivalent, then the last candidate status does not decide. -/
def ComparisonCounts (svc : Services) (history : List Round) : Prop :=
  (∃ hash, ∀ other ∈ hashes svc (references history), other = hash) →
    ∀ pair ∈ decidingPair svc history, ∀ last ∈ history.getLast?,
      last.1.1.status = ExecutionStatus.ok.value ∧
        ((comparePair svc pair).equivalent = true → last.2.1.status ∉ decidingStatuses)

/-! ### Labels -/

section Labels

variable {referenceStatus candidateStatus : String} {comparison : Option Comparison}

theorem classifyResult_ne_buildFailure (referenceStable : Bool) :
    classifyResult referenceStable referenceStatus candidateStatus comparison ≠ .buildFailure := by
  unfold classifyResult
  cases comparison with
  | none => split_ifs <;> simp
  | some attached =>
    by_cases hequivalent : attached.equivalent = true
    · simp only [if_pos hequivalent]
      split_ifs <;> simp
    · simp only [if_neg hequivalent]
      split_ifs <;> simp

/-- Without a comparison the bucket names the side that failed. -/
theorem scmlResultBucket_none (status : Option String) {classification : Classification}
    (hbuilt : classification ≠ .buildFailure) :
    scmlResultBucket "passed" status classification none = .passedScmlButReferenceFailed ∨
      scmlResultBucket "passed" status classification none = .passedScmlButCandidateFailed := by
  unfold scmlResultBucket
  rw [if_neg (by decide), if_neg (by decide), if_neg hbuilt]
  dsimp only
  split_ifs
  · exact .inl rfl
  · exact .inr rfl
  · exact .inl rfl

/-- With a comparison the bucket is the one of the comparison. -/
theorem scmlResultBucket_some {status : Option String} {classification : Classification}
    (hbuilt : classification ≠ .buildFailure) (attached : Comparison) :
    scmlResultBucket "passed" status classification (some attached) =
      if attached.equivalent then .passedScmlAndNoDiff else .passedScmlAndDiverged := by
  unfold scmlResultBucket
  rw [if_neg (by decide), if_neg (by decide), if_neg hbuilt]

/-- The labels of a stable case agree exactly when a comparison stands only with a last reference
run that ended well, and an equivalent one only with a last candidate status that does not
decide. -/
theorem coherent_labels_iff {result : CaseResult}
    (hclass : result.classification =
      classifyResult true referenceStatus candidateStatus comparison)
    (hbucket : result.scmlResultBucket =
      scmlResultBucket "passed" (some candidateStatus) result.classification comparison) :
    Coherent result ↔ ∀ attached ∈ comparison, referenceStatus = ExecutionStatus.ok.value ∧
      (attached.equivalent = true → candidateStatus ∉ decidingStatuses) := by
  have hbuilt : result.classification ≠ .buildFailure := by
    rw [hclass]
    exact classifyResult_ne_buildFailure true
  have hnoDiff : result.classification = .noDiff ↔ referenceStatus = ExecutionStatus.ok.value ∧
      candidateStatus ∉ decidingStatuses ∧
        ∃ attached, comparison = some attached ∧ attached.equivalent = true := by
    rw [hclass, classifyResult_eq_noDiff_iff]
    simp [BaselineAccepted]
  have hinvalid : result.classification = .baselineInvalid ↔
      referenceStatus ≠ ExecutionStatus.ok.value := by
    rw [hclass, classifyResult_eq_baselineInvalid_iff]
    simp [BaselineAccepted]
  cases comparison with
  | none =>
    refine ⟨fun _ attached hattached ↦ absurd hattached (by simp), fun _ ↦ ⟨?_, ?_⟩⟩
    · rw [hbucket, hnoDiff]
      rcases scmlResultBucket_none (some candidateStatus) hbuilt with h | h
      · simp [h]
      · simp [h]
    · rw [hbucket]
      rcases scmlResultBucket_none (some candidateStatus) hbuilt with h | h
      · simp [h]
      · simp [h]
  | some attached =>
    rw [scmlResultBucket_some hbuilt] at hbucket
    by_cases hequivalent : attached.equivalent = true
    · rw [if_pos hequivalent] at hbucket
      constructor
      · intro hcoherent other hother
        obtain rfl := Option.some.inj hother
        obtain ⟨hreference, hstatus, -⟩ := hnoDiff.mp (hcoherent.noDiff.mp hbucket)
        exact ⟨hreference, fun _ ↦ hstatus⟩
      · intro hcounts
        obtain ⟨hreference, hstatus⟩ := hcounts attached rfl
        refine ⟨iff_of_true hbucket (hnoDiff.mpr ⟨hreference, hstatus hequivalent, _, rfl,
          hequivalent⟩), fun hdiverged ↦ ?_⟩
        rw [hbucket] at hdiverged
        cases hdiverged
    · rw [if_neg hequivalent] at hbucket
      constructor
      · intro hcoherent other hother
        obtain rfl := Option.some.inj hother
        have hvalid := hcoherent.diverged hbucket
        exact ⟨not_not.mp (mt hinvalid.mpr hvalid), fun h ↦ absurd h hequivalent⟩
      · intro hcounts
        obtain ⟨hreference, -⟩ := hcounts attached rfl
        refine ⟨iff_of_false ?_ ?_, fun _ ↦ ?_⟩
        · rw [hbucket]
          exact SCMLResultBucket.noConfusion
        · rw [hnoDiff]
          rintro ⟨-, -, other, hother, hsame⟩
          rw [← Option.some.inj hother] at hsame
          exact hequivalent hsame
        · rw [Ne, hinvalid, not_not]
          exact hreference

/-- An unstable reference gives an invalid baseline and the bucket of a failed reference. -/
theorem coherent_unstableResult {prepared : Prepared} (state : TriageState)
    (hpassed : prepared.entry.scml.preflightStatus = "passed") :
    Coherent (state.unstableResult prepared) := by
  have hbucket : (state.unstableResult prepared).scmlResultBucket =
      .passedScmlButReferenceFailed := by
    unfold TriageState.unstableResult
    rw [hpassed]
    rfl
  refine ⟨iff_of_false ?_ Classification.noConfusion, fun hdiverged ↦ ?_⟩
  · rw [hbucket]
    exact SCMLResultBucket.noConfusion
  · rw [hbucket] at hdiverged
    cases hdiverged

end Labels

/-! ### The labels of a case -/

theorem coherent_finalizeResult {result : CaseResult} :
    Coherent (finalizeResult result) ↔ Coherent result :=
  ⟨fun h ↦ ⟨h.noDiff, h.diverged⟩, fun h ↦ ⟨h.noDiff, h.diverged⟩⟩

/-- The labels of a case whose preflight passed agree exactly when the comparison counts in the
history of its runs. -/
theorem finalizePreparedCase_coherent_iff {svc : Services} {entry : Entry} {prepared : Prepared}
    {candidate : Outcome} {placement : Placement} {history : List Round} {result : CaseResult}
    (hprepared : prepareCase svc entry = .ok (.candidateReady prepared))
    (hpassed : entry.scml.preflightStatus = "passed")
    (hhistory : History svc prepared candidate placement history)
    (hresult : finalizePreparedCase svc prepared candidate placement = .ok result) :
    Coherent result ↔ ComparisonCounts svc history := by
  obtain ⟨state, hstate, rfl⟩ := finalizePreparedCase_eq_ok_iff.mp hresult
  obtain ⟨other, hother, hrecords⟩ := records_triagedState hprepared hstate
  obtain rfl := hother.unique hhistory
  have hentry := (prepareCase_candidateReady hprepared).1
  have hhashes := hother.hashes_ne_nil hprepared
  have hstable := allEqual_iff (hashes svc (references other))
  rw [coherent_finalizeResult, hrecords.referenceHashes]
  by_cases hequal : allEqual (hashes svc (references other)) = true
  · obtain ⟨hash, -, hall⟩ := hstable.mp hequal
    obtain ⟨earlier, last, rfl⟩ := hother.exists_last
    have hreference : (state.referenceResults.getLast?.map RunResult.status).getD "" =
        last.1.1.status := by
      simp [hrecords.referenceResults]
    have hcandidate : (state.candidateResults.getLast?.map RunResult.status).getD "" =
        last.2.1.status := by
      simp [hrecords.candidateResults]
    have hclass := hrecords.classification_eq prepared placement hhashes
    have hbucket : (state.result svc prepared placement).scmlResultBucket =
        scmlResultBucket "passed" (some last.2.1.status)
          (state.result svc prepared placement).classification
          ((decidingPair svc (earlier ++ [last])).map (comparePair svc)) := by
      rw [← hrecords.finalComparison_eq hhashes, ← hcandidate, ← hpassed, ← hentry]
      rfl
    rw [if_pos hequal, coherent_labels_iff hclass hbucket, ComparisonCounts]
    simp only [List.getLast?_concat, Option.mem_def, Option.some.injEq, forall_eq',
      Option.map_eq_some_iff, forall_exists_index, and_imp, forall_apply_eq_imp_iff₂]
    exact ⟨fun h _ _ pair hpair ↦ h pair hpair, fun h pair hpair ↦ h hash hall pair hpair⟩
  · rw [if_neg hequal]
    refine iff_of_true (coherent_unstableResult state ?_) fun ⟨hash, hall⟩ ↦ ?_
    · rw [hentry, hpassed]
    · exact absurd (hstable.mpr ⟨hash, hhashes, hall⟩) hequal

/-! ### A failed reference behind a comparison -/

/-- A campaign with one rerun, whose reference rerun times out and whose candidate exits with
another code. -/
def failingCampaign : Services where
  rerunCount := 1
  noiseSyscalls := []
  workflow := "asterinas_scml"
  injectTrace := none
  buildRoot := id
  clock := fun _ ↦ 0
  buildStatusOk := fun _ ↦ .ok true
  executeSide := fun request ↦
    match request.side with
    | .candidate => .ok (emptyRun .candidate "candidate" "ok" 1)
    | .reference =>
      if request.runId = "0-p-ref-triage0" then .ok (emptyRun .reference "reference" "timeout" 0)
      else .ok (emptyRun .reference "reference" "ok" 0)
  executeCandidateCaseInPackage := fun _ _ _ ↦ .ok (emptyRun .candidate "candidate" "ok" 1)
  traceDigest := CanonicalTrace.side

/-- An entry whose preflight passed. -/
def passedEntry : Entry where
  programId := "p"
  scml := { preflightStatus := "passed" }

/-- The prepared case of `failingCampaign`. -/
def failingPrepared : Prepared :=
  { stalePrepared with entry := passedEntry }

/-- The history of `failingCampaign`. -/
def failingHistory : List Round :=
  [(((emptyRun .reference "reference" "ok" 0).result, some (emptyTrace "reference" 0)),
      staleCandidate),
    (((emptyRun .reference "reference" "timeout" 0).result, none), staleCandidate)]

theorem finalizePreparedCase_coherent_iff_failing :
    ∃ result, finalizePreparedCase failingCampaign failingPrepared staleCandidate {} =
        .ok result ∧
      (Coherent result ↔ ComparisonCounts failingCampaign failingHistory) := by
  have hprepared : prepareCase failingCampaign passedEntry =
      .ok (.candidateReady failingPrepared) := rfl
  have hhistory : History failingCampaign failingPrepared staleCandidate {} failingHistory :=
    ⟨_, failingHistory.tail, rfl, rfl, rfl⟩
  obtain ⟨result, hresult⟩ : ∃ result,
      finalizePreparedCase failingCampaign failingPrepared staleCandidate {} = .ok result :=
    ⟨_, rfl⟩
  exact ⟨result, hresult, finalizePreparedCase_coherent_iff hprepared rfl hhistory hresult⟩

/-- The baseline of `failingCampaign` is invalid, and its bucket is the one of the divergences. -/
theorem failingCampaign_incoherent :
    prepareCase failingCampaign passedEntry = .ok (.candidateReady failingPrepared) ∧
      ∃ result, finalizePreparedCase failingCampaign failingPrepared staleCandidate {} =
          .ok result ∧
        result.scmlResultBucket = .passedScmlAndDiverged ∧
        result.classification = .baselineInvalid ∧ ¬Coherent result := by
  refine ⟨rfl, _, rfl, rfl, rfl, fun hcoherent ↦ ?_⟩
  exact hcoherent.diverged rfl rfl

end SyzAbi.Orchestrator

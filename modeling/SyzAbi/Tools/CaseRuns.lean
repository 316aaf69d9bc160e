import SyzAbi.Orchestrator.RecordedRuns
import SyzAbi.Tools.PartialAgreement

/-!
# The runs of a case

`caseRuns` are the runs of a case, in the order in which they start. They are the requests that the
functions of the scheduler pass to the runners (`asked_record`), and those whose directories
`caseSteps` creates (`createdNames_caseSteps`).

The reference is rerun in two places under the same suffixes, while a case is prepared and in the
triage. A case that is rerun while it is prepared is final and never reaches the triage, so the runs
of a case follow one of two plans without a repetition (`caseRuns_follow_plan`), in which the runs
of each side are sorted by `suffix_sort_key` (`caseRuns_sorted`).
-/

set_option autoImplicit false
set_option relaxedAutoImplicit false

namespace SyzAbi.Tools

open Analyzer Orchestrator Library.Fallible Library.Recording

/-! ### The runs of a case -/

/-- The runs that `_build_reference_runs` starts. -/
def referenceRuns (svc : Services) (programId runId : String) : List RunSuffix :=
  .ref0 ::
    after (runReferenceOnce svc programId runId "ref0") fun first ↦
      if first.1.status ≠ ExecutionStatus.ok.value then
        untilError (fun attempt ↦ [.refTriage attempt])
          (fun attempt ↦ runReferenceOnce svc programId runId ("ref-triage" ++ attempt.repr))
          (List.range svc.rerunCount)
      else []

/-- The runs that `prepare_case` starts. -/
def prepareRuns (svc : Services) (entry : Entry) : List RunSuffix :=
  after (svc.buildStatusOk entry.programId) fun built ↦
    if built then referenceRuns svc entry.programId (nextRunId svc entry.programId) else []

/-- The runs that one pass of `_run_triage_loop` starts. -/
def triageRuns (svc : Services) (prepared : Prepared) (attempt : ℕ) : List RunSuffix :=
  .refTriage attempt ::
    after (runReferenceOnce svc prepared.programId prepared.runId ("ref-triage" ++ attempt.repr))
      fun _ ↦ [.candidateTriage attempt]

/-- The runs of the triage that a first candidate run calls for. -/
def finalizeRuns (svc : Services) (prepared : Prepared) (candidate : Outcome)
    (placement : Placement) : List RunSuffix :=
  if (Orchestrator.initialState svc prepared candidate).needsTriage candidate then
    untilError (triageRuns svc prepared) (triageRound svc prepared placement)
      (List.range svc.rerunCount)
  else []

/-- The runs of a case, in the order in which they start. -/
def caseRuns (svc : Services) (case : CampaignCase) : List RunSuffix :=
  prepareRuns svc case.entry ++
    after (prepareCase svc case.entry) fun
      | .final _ => []
      | .candidateReady prepared =>
        .candidate0 :: after case.outcome fun candidate ↦
          finalizeRuns svc prepared candidate case.placement

/-- The request of a run. -/
def suffixRequest (programId runId : String) (injectTrace : Option InjectTrace)
    (suffix : RunSuffix) : RunRequest where
  programId := programId
  side := suffix.side
  runId := runName runId suffix
  injectTrace :=
    match suffix.side with
    | .reference => none
    | .candidate => injectTrace

/-- The request of a run of a campaign. -/
def runRequest (svc : Services) (programId : String) (suffix : RunSuffix) : RunRequest :=
  suffixRequest programId (nextRunId svc programId) svc.injectTrace suffix

/-! ### They are what the scheduler requests -/

section Requested

variable (svc : Services)

theorem outcome_rerunReference_eq_map (programId runId : String)
    (state : List RunResult × List String) (attempt : ℕ) :
    (rerunReference svc.recording programId runId state attempt).outcome =
      (runReferenceOnce svc programId runId ("ref-triage" ++ attempt.repr)).map fun rerun ↦
        (state.1 ++ [rerun.1], state.2 ++ hashesOf svc rerun.2) := by
  rw [outcome_rerunReference, rerunReference]
  exact bind_pure_eq_map _ _

theorem asked_rerunReference (programId runId : String) (injectTrace : Option InjectTrace)
    (state : List RunResult × List String) (attempt : ℕ) :
    (rerunReference svc.recording programId runId state attempt).asked =
      [RunSuffix.refTriage attempt].map (suffixRequest programId runId injectTrace) := by
  simp only [rerunReference, asked_bind, asked_runReferenceOnce, asked_pure, after_nil,
    List.append_nil]
  rfl

theorem asked_buildReferenceRuns (programId runId : String) (injectTrace : Option InjectTrace) :
    (buildReferenceRuns svc.recording programId runId).asked =
      (referenceRuns svc programId runId).map (suffixRequest programId runId injectTrace) := by
  rw [buildReferenceRuns, asked_bind, outcome_runReferenceOnce, asked_runReferenceOnce,
    referenceRuns, List.map_cons, map_after, List.singleton_append]
  refine congrArg (fun next ↦ _ :: after _ next) (funext fun first ↦ ?_)
  dsimp only
  split_ifs
  · rw [asked_bind, asked_foldlM (outcome_rerunReference_eq_map svc programId runId)
      (asked_rerunReference svc programId runId injectTrace), map_untilError]
    simp only [asked_pure, after_nil, List.append_nil]
    rfl
  · rfl

theorem asked_prepareCase (entry : Entry) :
    (prepareCase svc.recording entry).asked =
      (prepareRuns svc entry).map (runRequest svc entry.programId) := by
  have hrest : ∀ runs : List RunResult × List String × Option CanonicalTrace, ∀ final ready,
      (if runs.1.head?.map RunResult.status ≠ some ExecutionStatus.ok.value then pure final
        else pure ready : RunRecording PrepareOutcome).asked = [] := by
    intro runs final ready
    split_ifs
    · rfl
    · rfl
  rw [prepareCase, asked_bind, prepareRuns, map_after]
  refine congrArg (after _) (funext fun built ↦ ?_)
  cases built with
  | false => rfl
  | true =>
    simp only [Bool.not_true, Bool.false_eq_true, if_false, if_true]
    rw [asked_bind, asked_buildReferenceRuns svc _ _ svc.injectTrace]
    simp only [hrest, after_nil, List.append_nil]
    rfl

theorem outcome_triageAttempt_eq_map (prepared : Prepared) (placement : Placement)
    (state : TriageState) (attempt : ℕ) :
    (triageAttempt svc.recording prepared placement state attempt).outcome =
      (triageRound svc prepared placement attempt).map fun round ↦
        (state.recordReference svc round.1).recordCandidate svc round.2 := by
  rw [outcome_triageAttempt, ← bind_pure_eq_map]
  simp only [triageAttempt, triageRound, bind_assoc, pure_bind]

theorem asked_triageAttempt (prepared : Prepared) (placement : Placement) (state : TriageState)
    (attempt : ℕ) :
    (triageAttempt svc.recording prepared placement state attempt).asked =
      (triageRuns svc prepared attempt).map
        (suffixRequest prepared.programId prepared.runId prepared.injectTrace) := by
  simp only [triageAttempt, asked_bind, outcome_runReferenceOnce, asked_runReferenceOnce,
    asked_runCandidateOnceWithPackage, asked_pure, after_nil, List.append_nil,
    List.singleton_append, triageRuns, List.map_cons, map_after, List.map_nil]
  rfl

theorem asked_finalizePreparedCase (prepared : Prepared) (candidate : Outcome)
    (placement : Placement) :
    (finalizePreparedCase svc.recording prepared candidate placement).asked =
      (finalizeRuns svc prepared candidate placement).map
        (suffixRequest prepared.programId prepared.runId prepared.injectTrace) := by
  have hrest : ∀ state : TriageState, ∀ unstable stable : CaseResult,
      (if !allEqual state.referenceHashes then pure unstable else pure stable :
        RunRecording CaseResult).asked = [] := by
    intro state unstable stable
    split_ifs
    · rfl
    · rfl
  rw [finalizePreparedCase, asked_bind, triagedState_recording, finalizeRuns]
  simp only [hrest, after_nil, List.append_nil]
  split_ifs
  · rw [map_untilError]
    exact asked_foldlM (outcome_triageAttempt_eq_map svc prepared placement)
      (asked_triageAttempt svc prepared placement) _ _
  · rfl

end Requested

/-! ### Cases of a campaign -/

/-- How the first candidate run of a case is made: by itself, or with a batch whose executor returns
or raises something. -/
inductive CandidateRun
  | single
  | batched (executed : Except PyError BatchOutput)

/-- A case as `schedule_entries` takes it up. -/
structure ScheduledCase where
  entry : Entry
  candidate : CandidateRun

/-- The life of a case, with a record of its runs. -/
def ScheduledCase.record (svc : Services) (case : ScheduledCase) : RunRecording CaseResult :=
  match case.candidate with
  | .single => recordScheduleOne svc case.entry
  | .batched executed => recordBatchedCase svc executed case.entry

/-- The execution of the first candidate run, and the package of the case. -/
def ScheduledCase.campaignCase (svc : Services) (case : ScheduledCase) : CampaignCase :=
  match case.candidate with
  | .single => {
      entry := case.entry
      first := svc.executeSide (runRequest svc case.entry.programId .candidate0) }
  | .batched (.error error) => {
      entry := case.entry
      first := .error error }
  | .batched (.ok output) => {
      entry := case.entry
      first :=
        match output.results.lookup case.entry.programId with
        | none => .error ⟨"KeyError", "'" ++ case.entry.programId ++ "'"⟩
        | some run => .ok run
      placement := {
        packageDir := output.packageDir
        packageSlot := (output.slotByProgram.lookup case.entry.programId).join } }

/-- A case that goes on requests its runs under the name of its entry. -/
theorem suffixRequest_of_candidateReady {svc : Services} {entry : Entry} {prepared : Prepared}
    (hprepared : prepareCase svc entry = .ok (.candidateReady prepared)) :
    suffixRequest prepared.programId prepared.runId prepared.injectTrace =
      runRequest svc entry.programId := by
  rw [(prepareCase_candidateReady hprepared).2.1, (runId_of_candidateReady hprepared).2,
    injectTrace_of_prepareCase hprepared]
  rfl

/-- The record of a case whose first candidate run has an outcome. -/
theorem asked_recordFinalizeCase (svc : Services) (prepared : Prepared) (candidate : Outcome)
    (placement : Placement) :
    (recordFinalizeCase svc prepared candidate placement).asked =
      (finalizeRuns svc prepared candidate placement).map
        (suffixRequest prepared.programId prepared.runId prepared.injectTrace) := by
  rw [recordFinalizeCase, asked_bind, asked_attempt, asked_finalizePreparedCase, outcome_attempt,
    after_ok]
  cases (finalizePreparedCase svc.recording prepared candidate placement).outcome with
  | error error => exact List.append_nil _
  | ok result => exact List.append_nil _

theorem asked_recordPrepareCase (svc : Services) (entry : Entry) :
    (recordPrepareCase svc entry).asked =
      (prepareRuns svc entry).map (runRequest svc entry.programId) := by
  rw [recordPrepareCase, asked_bind, asked_attempt, asked_prepareCase, outcome_attempt, after_ok]
  cases (prepareCase svc.recording entry).outcome with
  | error error => exact List.append_nil _
  | ok outcome => exact List.append_nil _

/-- What a case requests after its preparation, given what it requests when it goes on. -/
theorem asked_after_recordPrepareCase (svc : Services) (entry : Entry)
    (next : Prepared → RunRecording CaseResult) :
    (do
      match ← recordPrepareCase svc entry with
      | .final result => return result
      | .candidateReady prepared => next prepared : RunRecording CaseResult).asked =
      (prepareRuns svc entry).map (runRequest svc entry.programId) ++
        after (prepareCase svc entry) fun
          | .final _ => []
          | .candidateReady prepared => (next prepared).asked := by
  rw [asked_bind, asked_recordPrepareCase, outcome_recordPrepareCase, after_ok, prepareCaseSafe]
  refine congrArg (_ ++ ·) ?_
  cases prepareCase svc entry with
  | error error => rfl
  | ok outcome =>
    cases outcome with
    | final result => rfl
    | candidateReady prepared => rfl

/-- A batch executes a case under the name that a first candidate run has. -/
theorem request_batchCase (prepared : Prepared) :
    (batchCase prepared).request =
      suffixRequest prepared.programId prepared.runId prepared.injectTrace .candidate0 := by
  have hname : prepared.runId ++ "-candidate0" = runName prepared.runId .candidate0 := by
    rw [runName, String.append_assoc]
    rfl
  rw [BatchCase.request, batchCase, hname]
  rfl

/-- The first candidate run of a case that is not batched. -/
theorem outcome_campaignCase_single {svc : Services} {entry : Entry} {prepared : Prepared}
    (hprepared : prepareCase svc entry = .ok (.candidateReady prepared)) :
    (ScheduledCase.campaignCase svc ⟨entry, .single⟩).outcome =
      runCandidateOnce svc prepared.programId prepared.runId "candidate0"
        prepared.injectTrace := by
  rw [ScheduledCase.campaignCase, ← suffixRequest_of_candidateReady hprepared]
  rfl

/-- The first candidate run of a case of a batch that was executed. -/
theorem outcome_campaignCase_batched {svc : Services} {entry : Entry} {prepared : Prepared}
    (hprogram : prepared.programId = entry.programId) (output : BatchOutput) :
    (ScheduledCase.campaignCase svc ⟨entry, .batched (.ok output)⟩).outcome =
      loadBatchResult output prepared := by
  rw [loadBatchResult, hprogram, ScheduledCase.campaignCase, CampaignCase.outcome]
  dsimp only
  cases output.results.lookup entry.programId with
  | none => rfl
  | some run => rfl

/-- The runs of a case are those that the scheduler requests in its life. -/
theorem asked_record (svc : Services) (case : ScheduledCase) :
    (case.record svc).asked =
      (caseRuns svc (case.campaignCase svc)).map (runRequest svc case.entry.programId) := by
  obtain ⟨entry, candidate⟩ := case
  have hentry : (ScheduledCase.campaignCase svc ⟨entry, candidate⟩).entry = entry := by
    cases candidate with
    | single => rfl
    | batched executed => cases executed <;> rfl
  rw [caseRuns, List.map_append, map_after, hentry]
  cases candidate with
  | single =>
    refine (asked_after_recordPrepareCase svc entry _).trans (congrArg (_ ++ ·) ?_)
    cases hprepared : prepareCase svc entry with
    | error error => rfl
    | ok outcome =>
      cases outcome with
      | final result => rfl
      | candidateReady prepared =>
        simp only [after_ok]
        rw [outcome_campaignCase_single hprepared, ← suffixRequest_of_candidateReady hprepared,
          asked_bind, asked_attempt, asked_runCandidateOnce, outcome_attempt, after_ok,
          outcome_runCandidateOnce, List.map_cons, List.singleton_append]
        refine congrArg (List.cons _) ?_
        cases runCandidateOnce svc prepared.programId prepared.runId "candidate0"
            prepared.injectTrace with
        | error error => rfl
        | ok candidate => exact asked_recordFinalizeCase svc prepared candidate {}
  | batched executed =>
    refine (asked_after_recordPrepareCase svc entry _).trans (congrArg (_ ++ ·) ?_)
    cases hprepared : prepareCase svc entry with
    | error error => rfl
    | ok outcome =>
      cases outcome with
      | final result => rfl
      | candidateReady prepared =>
        have hprogram := (prepareCase_candidateReady hprepared).2.1
        simp only [after_ok]
        rw [← suffixRequest_of_candidateReady hprepared, asked_bind, asked_attempt, asked_ask,
          outcome_attempt, after_ok, outcome_ask, List.map_cons, List.singleton_append,
          request_batchCase]
        refine congrArg (List.cons _) ?_
        cases executed with
        | error error => rfl
        | ok output =>
          rw [outcome_campaignCase_batched hprogram]
          dsimp only
          cases loadBatchResult output prepared with
          | error error => rfl
          | ok candidate =>
            refine (asked_recordFinalizeCase svc prepared candidate _).trans ?_
            rw [hprogram]
            rfl

/-! ### They create the directories of the case -/

/-- The run directories that some steps create. -/
def createdNames (steps : List StoreStep) : List String :=
  steps.filterMap fun
    | .createDir name => some name
    | _ => none

theorem createdNames_append (first second : List StoreStep) :
    createdNames (first ++ second) = createdNames first ++ createdNames second :=
  List.filterMap_append

theorem createdNames_runSteps (name : String) (run : Except PyError RunArtifacts)
    (canonical : RunArtifacts → Option CanonicalTrace) :
    createdNames (runSteps name run canonical) = [name] := by
  cases run with
  | error error => rfl
  | ok run =>
    cases hcanonical : canonical run with
    | none =>
      rw [runSteps, hcanonical]
      rfl
    | some trace =>
      rw [runSteps, hcanonical]
      rfl

theorem createdNames_stepsUntilError {α β : Type} {steps : ℕ → List StoreStep}
    {items : ℕ → List β} {name : β → String}
    (hsteps : ∀ attempt, createdNames (steps attempt) = (items attempt).map name)
    (outcome : ℕ → Except PyError α) (attempts : List ℕ) :
    createdNames (stepsUntilError steps outcome attempts) =
      (untilError items outcome attempts).map name := by
  induction attempts with
  | nil => rfl
  | cons attempt rest ih =>
    rw [stepsUntilError, untilError, createdNames_append, hsteps, List.map_append]
    cases outcome attempt with
    | error error => rfl
    | ok value => exact congrArg _ ih

theorem createdNames_prepareSteps (svc : Services) (entry : Entry) :
    createdNames (prepareSteps svc entry) =
      (prepareRuns svc entry).map (runName (nextRunId svc entry.programId)) := by
  rw [prepareSteps, prepareRuns]
  cases svc.buildStatusOk entry.programId with
  | error error => rfl
  | ok built =>
    cases built with
    | false => rfl
    | true =>
      dsimp only
      rw [createdNames_append, referenceSteps, createdNames_runSteps, after_ok, if_pos rfl,
        referenceRuns, List.map_cons, List.singleton_append]
      refine congrArg (_ :: ·) ?_
      cases runReferenceOnce svc entry.programId (nextRunId svc entry.programId) "ref0" with
      | error error => rfl
      | ok first =>
        dsimp only
        rw [after_ok]
        split_ifs
        · exact createdNames_stepsUntilError (fun attempt ↦ createdNames_runSteps _ _ _) _ _
        · rfl

theorem createdNames_triageSteps (svc : Services) (prepared : Prepared) (placement : Placement)
    (attempt : ℕ) :
    createdNames (triageSteps svc prepared placement attempt) =
      (triageRuns svc prepared attempt).map (runName prepared.runId) := by
  rw [triageSteps, triageRuns, createdNames_append, referenceSteps, createdNames_runSteps,
    List.map_cons, List.singleton_append]
  refine congrArg (_ :: ·) ?_
  cases runReferenceOnce svc prepared.programId prepared.runId ("ref-triage" ++ attempt.repr) with
  | error error => rfl
  | ok reference => exact createdNames_runSteps _ _ _

theorem createdNames_stepsOfTriage (svc : Services) (case : CampaignCase) (prepared : Prepared) :
    createdNames (stepsOfTriage svc case prepared) =
      (after case.outcome fun candidate ↦
        finalizeRuns svc prepared candidate case.placement).map (runName prepared.runId) := by
  rw [stepsOfTriage]
  cases case.outcome with
  | error error => rfl
  | ok candidate =>
    dsimp only
    rw [after_ok, finalizeRuns]
    split_ifs
    · exact createdNames_stepsUntilError
        (createdNames_triageSteps svc prepared case.placement) _ _
    · rfl

/-- The runs of a case are those whose directories its steps create. -/
theorem createdNames_caseSteps (svc : Services) (case : CampaignCase) :
    createdNames (caseSteps svc case) =
      (caseRuns svc case).map (runName (nextRunId svc case.entry.programId)) := by
  rw [caseSteps, caseRuns, createdNames_append, createdNames_prepareSteps, List.map_append]
  refine congrArg (_ ++ ·) ?_
  cases hprepared : prepareCase svc case.entry with
  | error error => rfl
  | ok outcome =>
    cases outcome with
    | final result => rfl
    | candidateReady prepared =>
      dsimp only
      rw [createdNames_append, candidateSteps, createdNames_runSteps, createdNames_stepsOfTriage,
        (runId_of_candidateReady hprepared).2]
      rfl

/-! ### Plans -/

/-- The runs of a case whose first reference run fails. -/
def failedPlan (rerunCount : ℕ) : List RunSuffix :=
  .ref0 :: (List.range rerunCount).flatMap fun attempt ↦ [.refTriage attempt]

/-- The runs of a case that reaches the candidate. -/
def triagePlan (rerunCount : ℕ) : List RunSuffix :=
  .ref0 :: .candidate0 ::
    (List.range rerunCount).flatMap fun attempt ↦ [.refTriage attempt, .candidateTriage attempt]

theorem prepareRuns_isPrefix (svc : Services) (entry : Entry) :
    prepareRuns svc entry <+: failedPlan svc.rerunCount := by
  rw [prepareRuns]
  cases svc.buildStatusOk entry.programId with
  | error error => exact List.nil_prefix
  | ok built =>
    cases built with
    | false => exact List.nil_prefix
    | true =>
      rw [after_ok, if_pos rfl, referenceRuns]
      refine (List.prefix_cons_inj _).mpr ?_
      cases runReferenceOnce svc entry.programId (nextRunId svc entry.programId) "ref0" with
      | error error => exact List.nil_prefix
      | ok first =>
        rw [after_ok]
        split_ifs
        · exact untilError_isPrefix (fun _ ↦ List.prefix_rfl) (fun _ _ _ ↦ rfl) _
        · exact List.nil_prefix

/-- A case that goes on has no reruns behind it: they would have made it final. -/
theorem prepareRuns_of_candidateReady {svc : Services} {entry : Entry} {prepared : Prepared}
    (hprepared : prepareCase svc entry = .ok (.candidateReady prepared)) :
    prepareRuns svc entry = [.ref0] := by
  obtain ⟨hbuilt, hrunId⟩ := runId_of_candidateReady hprepared
  obtain ⟨-, hprogram, run, trace, hrun, hok, -⟩ := prepareCase_candidateReady hprepared
  rw [hprogram, hrunId] at hrun
  rw [prepareRuns, hbuilt, after_ok, if_pos rfl, referenceRuns, hrun, after_ok,
    if_neg (not_not.mpr hok)]

theorem finalizeRuns_isPrefix (svc : Services) (prepared : Prepared) (candidate : Outcome)
    (placement : Placement) :
    finalizeRuns svc prepared candidate placement <+:
      (List.range svc.rerunCount).flatMap fun attempt ↦
        [.refTriage attempt, .candidateTriage attempt] := by
  rw [finalizeRuns]
  split_ifs
  · refine untilError_isPrefix ?_ ?_ _
    · intro attempt
      rw [triageRuns]
      cases runReferenceOnce svc prepared.programId prepared.runId
          ("ref-triage" ++ attempt.repr) with
      | error error => exact (List.prefix_cons_inj _).mpr List.nil_prefix
      | ok reference => exact List.prefix_rfl
    · intro attempt value hvalue
      rw [triageRound] at hvalue
      obtain ⟨reference, hreference, -⟩ := bind_eq_ok_iff.mp hvalue
      rw [triageRuns, hreference, after_ok]
  · exact List.nil_prefix

/-- The runs of a case are the first runs of one of the two plans. -/
theorem caseRuns_follow_plan (svc : Services) (case : CampaignCase) :
    caseRuns svc case <+: failedPlan svc.rerunCount ∨
      caseRuns svc case <+: triagePlan svc.rerunCount := by
  rw [caseRuns]
  cases hprepared : prepareCase svc case.entry with
  | error error =>
    rw [after_error, List.append_nil]
    exact .inl (prepareRuns_isPrefix svc case.entry)
  | ok outcome =>
    cases outcome with
    | final result =>
      rw [after_ok, List.append_nil]
      exact .inl (prepareRuns_isPrefix svc case.entry)
    | candidateReady prepared =>
      rw [after_ok, prepareRuns_of_candidateReady hprepared]
      refine .inr ((List.prefix_cons_inj _).mpr ((List.prefix_cons_inj _).mpr ?_))
      cases case.outcome with
      | error error => exact List.nil_prefix
      | ok candidate => exact finalizeRuns_isPrefix svc prepared candidate case.placement

/-- The key of the first suffix is below that of the second. -/
def SortsBefore (first second : RunSuffix) : Prop :=
  Prod.Lex (· < ·) (· < ·) (suffixSortKey first) (suffixSortKey second)

theorem SortsBefore.ne {first second : RunSuffix} (h : SortsBefore first second) :
    first ≠ second := by
  rintro rfl
  rcases Prod.lex_def.mp h with hlt | ⟨-, hlt⟩
  · exact absurd hlt (Nat.lt_irrefl _)
  · exact absurd hlt (Nat.lt_irrefl _)

/-- In both plans the runs of one side are sorted by their keys. -/
theorem failedPlan_sorted (rerunCount : ℕ) :
    (failedPlan rerunCount).Pairwise fun first second ↦
      first.side = second.side → SortsBefore first second := by
  refine List.pairwise_cons.mpr ⟨?_, List.pairwise_flatMap.mpr ⟨?_, ?_⟩⟩
  · intro suffix hsuffix _
    obtain ⟨attempt, -, hattempt⟩ := List.mem_flatMap.mp hsuffix
    rw [List.mem_singleton.mp hattempt]
    exact Prod.Lex.left _ _ Nat.zero_lt_one
  · intro attempt _
    exact List.pairwise_singleton _ _
  · refine List.pairwise_lt_range.imp fun hlt ↦ ?_
    intro first hfirst second hsecond _
    rw [List.mem_singleton.mp hfirst, List.mem_singleton.mp hsecond]
    exact Prod.Lex.right _ hlt

theorem triagePlan_sorted (rerunCount : ℕ) :
    (triagePlan rerunCount).Pairwise fun first second ↦
      first.side = second.side → SortsBefore first second := by
  have hlater : ∀ suffix ∈ (List.range rerunCount).flatMap fun attempt ↦
      [RunSuffix.refTriage attempt, .candidateTriage attempt], (suffixSortKey suffix).1 = 1 := by
    intro suffix hsuffix
    obtain ⟨attempt, -, hattempt⟩ := List.mem_flatMap.mp hsuffix
    rcases List.mem_pair.mp hattempt with rfl | rfl
    · rfl
    · rfl
  have hbefore : ∀ first : RunSuffix, suffixSortKey first = (0, 0) → ∀ second,
      (suffixSortKey second).1 = 1 → SortsBefore first second := by
    intro first hfirst second hsecond
    refine Prod.lex_def.mpr (.inl ?_)
    rw [hfirst, hsecond]
    exact Nat.zero_lt_one
  refine List.pairwise_cons.mpr ⟨?_, List.pairwise_cons.mpr ⟨?_,
    List.pairwise_flatMap.mpr ⟨?_, ?_⟩⟩⟩
  · intro suffix hsuffix hside
    rcases List.mem_cons.mp hsuffix with rfl | hrest
    · cases hside
    · exact hbefore _ rfl _ (hlater suffix hrest)
  · intro suffix hsuffix _
    exact hbefore _ rfl _ (hlater suffix hsuffix)
  · intro attempt _
    refine List.pairwise_pair.mpr fun hside ↦ ?_
    cases hside
  · refine List.pairwise_lt_range.imp fun hlt ↦ ?_
    intro first hfirst second hsecond hside
    rcases List.mem_pair.mp hfirst with rfl | rfl
    · rcases List.mem_pair.mp hsecond with rfl | rfl
      · exact Prod.Lex.right _ hlt
      · cases hside
    · rcases List.mem_pair.mp hsecond with rfl | rfl
      · cases hside
      · exact Prod.Lex.right _ hlt

/-- The runs of one side of a case are sorted by their keys. -/
theorem caseRuns_sorted (svc : Services) (case : CampaignCase) :
    (caseRuns svc case).Pairwise fun first second ↦
      first.side = second.side → SortsBefore first second := by
  rcases caseRuns_follow_plan svc case with hfailed | htriage
  · exact (failedPlan_sorted svc.rerunCount).sublist hfailed.sublist
  · exact (triagePlan_sorted svc.rerunCount).sublist htriage.sublist

end SyzAbi.Tools

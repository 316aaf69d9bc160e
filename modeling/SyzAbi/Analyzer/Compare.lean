import SyzAbi.Analyzer.Schemas
import SyzAbi.Core.Constants

/-!
# Comparison and classification

`analyzer/compare.py` and `analyzer/classify.py`. `compareCanonical` walks the events of two
canonical traces up to the first divergence and compares the external states and the process exits.
`classifyResult` turns the statuses of a reference run and a candidate run and their comparison into
a classification; the order of its tests is the order of the source.
-/

set_option autoImplicit false
set_option relaxedAutoImplicit false

namespace SyzAbi.Analyzer

/-! ### Comparison -/

/-- The result of `compare_canonical`. The last two keys are absent when the event counts differ. -/
structure Comparison where
  equivalent : Bool
  noiseOnly : Bool
  firstDivergenceIndex : Option ℕ
  reason : String
  finalStateEqual : Option Bool
  processExitEqual : Option Bool
  deriving DecidableEq

/-- `_is_noise_event`. -/
def isNoiseEvent (noiseSyscalls : List String) (left right : CanonicalEvent) : Bool :=
  left.syscallName = right.syscallName && left.syscallName ∈ noiseSyscalls &&
    left.args = right.args && left.outputs = right.outputs

/-- Whether the loop over the events stops at this pair. A noise event may differ in its return
value and its errno. -/
def eventDiverges (noiseSyscalls : List String) (left right : CanonicalEvent) : Bool :=
  left.syscallName ≠ right.syscallName ||
    left.args ≠ right.args ||
    (left.returnValue ≠ right.returnValue && !isNoiseEvent noiseSyscalls left right) ||
    (left.errno ≠ right.errno && !isNoiseEvent noiseSyscalls left right) ||
    left.outputs ≠ right.outputs

/-- The index of the first pair of events that diverges. -/
def firstDivergence (noiseSyscalls : List String) :
    List (CanonicalEvent × CanonicalEvent) → Option ℕ
  | [] => none
  | (left, right) :: rest =>
    if eventDiverges noiseSyscalls left right then some left.index
    else firstDivergence noiseSyscalls rest

theorem firstDivergence_eq_none_iff (noiseSyscalls : List String)
    (pairs : List (CanonicalEvent × CanonicalEvent)) :
    firstDivergence noiseSyscalls pairs = none ↔
      ∀ pair ∈ pairs, eventDiverges noiseSyscalls pair.1 pair.2 = false := by
  induction pairs with
  | nil => simp [firstDivergence]
  | cons pair rest ih =>
    obtain ⟨left, right⟩ := pair
    rw [firstDivergence]
    cases h : eventDiverges noiseSyscalls left right <;> simp [h, ih]

/-- Two events compare equal when they agree, except that the results of noise events do not count.
-/
theorem eventDiverges_eq_false_iff (noiseSyscalls : List String) (left right : CanonicalEvent) :
    eventDiverges noiseSyscalls left right = false ↔
      left.syscallName = right.syscallName ∧ left.args = right.args ∧
        left.outputs = right.outputs ∧ (left.syscallName ∈ noiseSyscalls ∨
          left.returnValue = right.returnValue ∧ left.errno = right.errno) := by
  by_cases hsame : left.syscallName = right.syscallName ∧ left.args = right.args ∧
      left.outputs = right.outputs
  · obtain ⟨hname, hargs, houtputs⟩ := hsame
    by_cases hnoise : right.syscallName ∈ noiseSyscalls <;>
      simp [eventDiverges, isNoiseEvent, hname, hargs, houtputs, hnoise]
  · constructor
    · intro hequal
      simp only [eventDiverges, Bool.or_eq_false_iff, decide_eq_false_iff_not, not_not] at hequal
      exact absurd ⟨hequal.1.1.1.1, hequal.1.1.1.2, hequal.2⟩ hsame
    · exact fun hequal ↦ absurd ⟨hequal.1, hequal.2.1, hequal.2.2.1⟩ hsame

/-- `compare_canonical`. -/
def compareCanonical (noiseSyscalls : List String) (reference candidate : CanonicalTrace) :
    Comparison :=
  if reference.eventCount ≠ candidate.eventCount then
    { equivalent := false
      noiseOnly := false
      firstDivergenceIndex := some (min reference.eventCount candidate.eventCount)
      reason := "event_count_mismatch"
      finalStateEqual := none
      processExitEqual := none }
  else
    let divergence := firstDivergence noiseSyscalls (reference.events.zip candidate.events)
    let finalStateEqual : Bool := reference.finalState = candidate.finalState
    let processExitEqual : Bool := reference.processExit = candidate.processExit
    let divergenceIndex :=
      if !processExitEqual && divergence.isNone then some reference.eventCount else divergence
    let equivalent := divergenceIndex.isNone && finalStateEqual && processExitEqual
    let noiseOnly := divergence.isNone && processExitEqual && !equivalent
    { equivalent := equivalent
      noiseOnly := noiseOnly && finalStateEqual
      firstDivergenceIndex := divergenceIndex
      reason := if equivalent then "no_diff" else "content_mismatch"
      finalStateEqual := some finalStateEqual
      processExitEqual := some processExitEqual }

/-- Two traces are equivalent when their event counts agree, no pair of events diverges, and their
external states and process exits are equal. -/
theorem compareCanonical_equivalent_iff (noiseSyscalls : List String)
    (reference candidate : CanonicalTrace) :
    (compareCanonical noiseSyscalls reference candidate).equivalent = true ↔
      reference.eventCount = candidate.eventCount ∧
        firstDivergence noiseSyscalls (reference.events.zip candidate.events) = none ∧
        reference.finalState = candidate.finalState ∧
        reference.processExit = candidate.processExit := by
  unfold compareCanonical
  by_cases hcount : reference.eventCount = candidate.eventCount
  · by_cases hexit : reference.processExit = candidate.processExit
    · simp [hcount, hexit]
    · simp [hcount, hexit]
  · simp [hcount]

/-! ### Classification -/

/-- `classify_result`. -/
def classifyResult (referenceStable : Bool) (referenceStatus candidateStatus : String)
    (comparison : Option Comparison) : Classification :=
  if !referenceStable || referenceStatus ≠ ExecutionStatus.ok.value then .baselineInvalid
  else if candidateStatus = ExecutionStatus.unsupported.value then .unsupportedFeature
  else if candidateStatus ∈ [ExecutionStatus.crash.value, ExecutionStatus.timeout.value,
      ExecutionStatus.candidateBug.value] then .bugLikely
  else
    match comparison with
    | none =>
      if candidateStatus = ExecutionStatus.infraError.value then .weakSpecOrEnvNoise
      else .unsupportedFeature
    | some comparison =>
      if comparison.equivalent then .noDiff
      else if candidateStatus ∈ [ExecutionStatus.crash.value, ExecutionStatus.timeout.value,
          ExecutionStatus.candidateBug.value] then .bugLikely
      else if candidateStatus = ExecutionStatus.infraError.value then .weakSpecOrEnvNoise
      else if comparison.noiseOnly then .weakSpecOrEnvNoise
      else .bugLikely

/-- The candidate statuses that decide a classification without a look at the comparison. -/
def decidingStatuses : List String :=
  [ExecutionStatus.unsupported.value, ExecutionStatus.crash.value, ExecutionStatus.timeout.value,
    ExecutionStatus.candidateBug.value]

/-- The test of `classify_result` that accepts a baseline. -/
def BaselineAccepted (referenceStable : Bool) (referenceStatus : String) : Prop :=
  referenceStable = true ∧ referenceStatus = ExecutionStatus.ok.value

section Classify

variable {referenceStable : Bool} {referenceStatus candidateStatus : String}
  {comparison : Option Comparison}

theorem classifyResult_of_not_accepted
    (hbaseline : ¬ BaselineAccepted referenceStable referenceStatus) :
    classifyResult referenceStable referenceStatus candidateStatus comparison =
      .baselineInvalid := by
  have htest : (!referenceStable || referenceStatus ≠ ExecutionStatus.ok.value) = true := by
    simpa [BaselineAccepted, Classical.or_iff_not_imp_left] using hbaseline
  unfold classifyResult
  rw [if_pos htest]

/-- With an accepted baseline, a status that decides gives a classification other than
`NO_DIFF`. -/
theorem classifyResult_of_deciding (hbaseline : BaselineAccepted referenceStable referenceStatus)
    (hstatus : candidateStatus ∈ decidingStatuses) :
    classifyResult referenceStable referenceStatus candidateStatus comparison =
      if candidateStatus = ExecutionStatus.unsupported.value then .unsupportedFeature
      else .bugLikely := by
  obtain ⟨rfl, rfl⟩ := hbaseline
  unfold classifyResult
  rw [if_neg (by simp)]
  by_cases hunsupported : candidateStatus = ExecutionStatus.unsupported.value
  · rw [if_pos hunsupported, if_pos hunsupported]
  · have hcrash := (List.mem_cons.mp hstatus).resolve_left hunsupported
    rw [if_neg hunsupported, if_neg hunsupported, if_pos hcrash]

/-- With an accepted baseline, a status that does not decide leaves the comparison to decide. -/
theorem classifyResult_of_not_deciding
    (hbaseline : BaselineAccepted referenceStable referenceStatus)
    (hstatus : candidateStatus ∉ decidingStatuses) :
    classifyResult referenceStable referenceStatus candidateStatus comparison = .noDiff ↔
      ∃ attached, comparison = some attached ∧ attached.equivalent = true := by
  obtain ⟨rfl, rfl⟩ := hbaseline
  obtain ⟨hunsupported, hcrash⟩ := not_or.mp fun h ↦ hstatus (List.mem_cons.mpr h)
  unfold classifyResult
  rw [if_neg (by simp), if_neg hunsupported, if_neg hcrash]
  cases comparison with
  | none => split_ifs <;> simp
  | some attached =>
    by_cases hequivalent : attached.equivalent = true
    · simp [hequivalent]
    · simp only [if_neg hequivalent, if_neg hcrash]
      split_ifs <;> simp [hequivalent]

/-- With an accepted baseline, no case is baseline invalid. -/
theorem classifyResult_ne_baselineInvalid
    (hbaseline : BaselineAccepted referenceStable referenceStatus) :
    classifyResult referenceStable referenceStatus candidateStatus comparison ≠
      .baselineInvalid := by
  obtain ⟨rfl, rfl⟩ := hbaseline
  unfold classifyResult
  rw [if_neg (by simp)]
  cases comparison with
  | none => split_ifs <;> simp
  | some attached =>
    by_cases hequivalent : attached.equivalent = true
    · simp only [if_pos hequivalent]
      split_ifs <;> simp
    · by_cases hnoise : attached.noiseOnly = true
      · simp only [if_neg hequivalent, if_pos hnoise]
        split_ifs <;> simp
      · simp only [if_neg hequivalent, if_neg hnoise]
        split_ifs <;> simp

/-- A case is baseline invalid when its reference is unstable or did not end well. -/
theorem classifyResult_eq_baselineInvalid_iff :
    classifyResult referenceStable referenceStatus candidateStatus comparison =
      .baselineInvalid ↔ ¬ BaselineAccepted referenceStable referenceStatus :=
  ⟨fun heq hbaseline ↦ classifyResult_ne_baselineInvalid hbaseline heq,
    classifyResult_of_not_accepted⟩

/-- A case has no difference when the baseline is accepted, the candidate status does not decide,
and the comparison is equivalent. -/
theorem classifyResult_eq_noDiff_iff :
    classifyResult referenceStable referenceStatus candidateStatus comparison = .noDiff ↔
      BaselineAccepted referenceStable referenceStatus ∧ candidateStatus ∉ decidingStatuses ∧
        ∃ attached, comparison = some attached ∧ attached.equivalent = true := by
  by_cases hbaseline : BaselineAccepted referenceStable referenceStatus
  · by_cases hstatus : candidateStatus ∈ decidingStatuses
    · rw [classifyResult_of_deciding hbaseline hstatus]
      split_ifs <;> simp [hstatus]
    · rw [classifyResult_of_not_deciding hbaseline hstatus]
      simp [hbaseline, hstatus]
  · rw [classifyResult_of_not_accepted hbaseline]
    simp [hbaseline]

end Classify

end SyzAbi.Analyzer

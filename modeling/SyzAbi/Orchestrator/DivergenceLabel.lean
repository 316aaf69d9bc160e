import SyzAbi.Analyzer.Divergence
import SyzAbi.Orchestrator.Models

/-!
# The label of a divergence

`first_divergence_details` (`orchestrator/scheduler.py`) names the call at which the last two runs
of a case diverge. It loads the canonical traces that were stored for them, looks for the event with
the index of the comparison, first in the reference and then in the candidate, and takes one of two
texts when there is no such event.

A divergence always gets a label: it is the name of the call where the comparison stops
(`divergentEvent`), or else one of the texts. The label `final_state_only` also stands where the
process exits differ as well, since the cascade asks for the final states first
(`firstDivergenceDetails_attributed_iff`).
-/

set_option autoImplicit false
set_option relaxedAutoImplicit false

namespace SyzAbi.Orchestrator

open Analyzer

/-! ### The reports -/

/-- What is stored beside a trace file under the name `canonical-trace.json`. -/
abbrev CanonicalFiles := String → Stored CanonicalTrace

/-- `canonical_trace_for_run`. -/
def canonicalTraceForRun (files : CanonicalFiles) (run : RunResult) :
    Except PyError (Option CanonicalTrace) :=
  match run.traceJsonPath with
  | none => .ok none
  | some path =>
    if path = "" then .ok none
    else if (files path).exists then some <$> (files path).load
    else .ok none

/-- `event_by_index`. -/
def eventByIndex (canonicalTrace : Option CanonicalTrace) (eventIndex : Option ℕ) :
    Option CanonicalEvent := do
  let trace ← canonicalTrace
  let index ← eventIndex
  trace.events.find? fun event ↦ event.index = index

/-- `latest_reference_run`. -/
def latestReferenceRun (result : CaseResult) : Option RunResult := result.referenceRuns.getLast?

/-- `latest_candidate_run`. -/
def latestCandidateRun (result : CaseResult) : Option RunResult :=
  result.candidateRun.or result.candidateRuns.getLast?

/-- The canonical trace for a run, when there is a run. -/
def canonicalTraceFor (files : CanonicalFiles) (run : Option RunResult) :
    Except PyError (Option CanonicalTrace) :=
  match run with
  | none => .ok none
  | some run => canonicalTraceForRun files run

/-- `first_divergence_details`. -/
def firstDivergenceDetails (files : CanonicalFiles) (result : CaseResult) :
    Except PyError (Option ℕ × Option String) := do
  let referenceCanonical ← canonicalTraceFor files (latestReferenceRun result)
  let candidateCanonical ← canonicalTraceFor files (latestCandidateRun result)
  let firstDivergenceIndex := result.comparison.bind Comparison.firstDivergenceIndex
  let referenceEvent := eventByIndex referenceCanonical firstDivergenceIndex
  let candidateEvent := eventByIndex candidateCanonical firstDivergenceIndex
  let firstDivergenceSyscall :=
    match referenceEvent, candidateEvent with
    | some event, _ => some event.syscallName
    | none, some event => some event.syscallName
    | none, none =>
      if result.comparison.bind Comparison.finalStateEqual = some false then
        some "final_state_only"
      else if result.comparison.bind Comparison.processExitEqual = some false then
        some "process_exit_only"
      else none
  return (firstDivergenceIndex, firstDivergenceSyscall)

/-! ### Where a comparison stops -/

/-- The event of the reference at which the first pair of events diverges, or the event with which
the longer trace goes on. -/
def divergentEvent (noiseSyscalls : List String) (reference candidate : List CanonicalEvent) :
    Option CanonicalEvent :=
  if reference.length = candidate.length then
    ((reference.zip candidate).find? fun pair ↦ eventDiverges noiseSyscalls pair.1 pair.2).map
      Prod.fst
  else reference[candidate.length]?.or candidate[reference.length]?

/-- The events of numbered traces are found by their positions. -/
theorem eventByIndex_of_numbered {trace : CanonicalTrace} (hnumbered : Numbered trace.events)
    (index : ℕ) : eventByIndex (some trace) (some index) = trace.events[index]? := by
  show (trace.events.find? fun event ↦ event.index = index) = trace.events[index]?
  cases hevent : trace.events[index]? with
  | none =>
    rw [List.find?_eq_none]
    intro event hmem
    obtain ⟨position, hposition, rfl⟩ := List.getElem_of_mem hmem
    have hindex := hnumbered position _ (List.getElem?_eq_getElem hposition)
    have hlength := List.getElem?_eq_none_iff.mp hevent
    simp only [decide_eq_true_eq]
    omega
  | some event =>
    obtain ⟨hlt, hget⟩ := List.getElem?_eq_some_iff.mp hevent
    rw [List.find?_eq_some_iff_getElem]
    refine ⟨decide_eq_true (hnumbered index event hevent), index, hlt, hget, ?_⟩
    intro other hother
    have hindex := hnumbered other _
      (List.getElem?_eq_getElem (show other < trace.events.length by omega))
    simp only [Bool.not_eq_true', decide_eq_false_iff_not]
    omega

section Attribution

variable {noiseSyscalls : List String} {reference candidate : CanonicalTrace}

/-- Traces whose events do not match have an event at which they diverge. -/
theorem divergentEvent_eq_none_iff (hlength : reference.events.length = candidate.events.length) :
    divergentEvent noiseSyscalls reference.events candidate.events = none ↔
      List.Forall₂ (EventsMatch noiseSyscalls) reference.events candidate.events := by
  rw [divergentEvent, if_pos hlength, Option.map_eq_none_iff,
    ← firstDivergence_zip_eq_none_iff noiseSyscalls hlength, firstDivergence_eq_find,
    Option.map_eq_none_iff]

/-- Traces of different lengths have an event at which they diverge. -/
theorem divergentEvent_ne_none (hlength : reference.events.length ≠ candidate.events.length) :
    divergentEvent noiseSyscalls reference.events candidate.events ≠ none := by
  rw [divergentEvent, if_neg hlength]
  intro hnone
  obtain ⟨hreference, hcandidate⟩ := Option.or_eq_none_iff.mp hnone
  rw [List.getElem?_eq_none_iff] at hreference hcandidate
  omega

/-- The events that are looked up are those at which the comparison stops. -/
theorem eventByIndex_compareLoop (hreference : Numbered reference.events)
    (hcandidate : Numbered candidate.events) :
    (eventByIndex (some reference)
        (compareLoop noiseSyscalls reference candidate).firstDivergenceIndex).or
      (eventByIndex (some candidate)
        (compareLoop noiseSyscalls reference candidate).firstDivergenceIndex) =
      divergentEvent noiseSyscalls reference.events candidate.events := by
  rw [compareLoop_eq, compareCanonical, reference.eventCount_eq, candidate.eventCount_eq,
    divergentEvent]
  by_cases hlength : reference.events.length = candidate.events.length
  · rw [if_neg (not_not.mpr hlength), if_pos hlength]
    dsimp only
    rw [firstDivergence_eq_find]
    cases hfind : (reference.events.zip candidate.events).find? fun pair ↦
        eventDiverges noiseSyscalls pair.1 pair.2 with
    | none =>
      have hbehind : candidate.events[reference.events.length]? = none :=
        List.getElem?_eq_none (by omega)
      by_cases hexit : reference.processExit = candidate.processExit
      · simp [hexit, eventByIndex]
      · simp [hexit, eventByIndex_of_numbered hreference, eventByIndex_of_numbered hcandidate,
          hbehind]
    | some pair =>
      obtain ⟨-, place, hplace, hpair, -⟩ := List.find?_eq_some_iff_getElem.mp hfind
      rw [List.getElem_zip] at hpair
      rw [List.length_zip] at hplace
      have hleft : reference.events[place]? = some pair.1 := by
        rw [← hpair]
        exact List.getElem?_eq_getElem (by omega)
      have hindex := hreference place pair.1 hleft
      simp [eventByIndex_of_numbered hreference, hindex, hleft]
  · rw [if_pos hlength, if_neg hlength]
    dsimp only
    rw [eventByIndex_of_numbered hreference, eventByIndex_of_numbered hcandidate]
    rcases Nat.lt_or_gt_of_ne hlength with hlt | hlt
    · rw [min_eq_left hlt.le, List.getElem?_eq_none le_rfl, List.getElem?_eq_none hlt.le]
    · rw [min_eq_right hlt.le, List.getElem?_eq_getElem hlt]
      rfl

/-! ### The label -/

/-- A result that compares the canonical traces stored for its last two runs. -/
structure ComparesStored (files : CanonicalFiles) (noiseSyscalls : List String)
    (result : CaseResult) (reference candidate : CanonicalTrace) : Prop where
  reference_stored :
    canonicalTraceFor files (latestReferenceRun result) = .ok (some reference)
  candidate_stored :
    canonicalTraceFor files (latestCandidateRun result) = .ok (some candidate)
  reference_numbered : Numbered reference.events
  candidate_numbered : Numbered candidate.events
  comparison_eq : result.comparison = some (compareLoop noiseSyscalls reference candidate)

/-- The texts that stand for a divergence behind all events. -/
def stateLabels : List String := ["final_state_only", "process_exit_only"]

/-- The label of two traces: the name of the call where they diverge, or the first state that
differs. -/
def labelOf (noiseSyscalls : List String) (reference candidate : CanonicalTrace) : Option String :=
  match divergentEvent noiseSyscalls reference.events candidate.events with
  | some event => some event.syscallName
  | none =>
    if reference.finalState ≠ candidate.finalState then some "final_state_only"
    else if reference.processExit ≠ candidate.processExit then some "process_exit_only"
    else none

theorem firstDivergenceDetails_eq {files : CanonicalFiles} {result : CaseResult}
    (hcompares : ComparesStored files noiseSyscalls result reference candidate) :
    firstDivergenceDetails files result =
      .ok ((compareLoop noiseSyscalls reference candidate).firstDivergenceIndex,
        labelOf noiseSyscalls reference candidate) := by
  have hevent := @eventByIndex_compareLoop noiseSyscalls reference candidate
    hcompares.reference_numbered hcompares.candidate_numbered
  have hdetails : firstDivergenceDetails files result = .ok
      ((compareLoop noiseSyscalls reference candidate).firstDivergenceIndex,
        match divergentEvent noiseSyscalls reference.events candidate.events with
        | some event => some event.syscallName
        | none =>
          if (compareLoop noiseSyscalls reference candidate).finalStateEqual = some false then
            some "final_state_only"
          else if (compareLoop noiseSyscalls reference candidate).processExitEqual = some false then
            some "process_exit_only"
          else none) := by
    rw [firstDivergenceDetails, hcompares.reference_stored, hcompares.candidate_stored,
      hcompares.comparison_eq, ← hevent]
    simp only [Option.bind_some, bind, Except.bind, pure, Except.pure]
    cases eventByIndex (some reference)
        (compareLoop noiseSyscalls reference candidate).firstDivergenceIndex with
    | some event => rfl
    | none =>
      cases eventByIndex (some candidate)
          (compareLoop noiseSyscalls reference candidate).firstDivergenceIndex with
      | some event => rfl
      | none => rfl
  rw [hdetails, labelOf]
  cases hnone : divergentEvent noiseSyscalls reference.events candidate.events with
  | some event => rfl
  | none =>
    have hlength : reference.eventCount = candidate.eventCount := by
      by_contra hlength
      rw [reference.eventCount_eq, candidate.eventCount_eq] at hlength
      exact divergentEvent_ne_none hlength hnone
    rw [compareLoop_eq, compareCanonical, if_neg (not_not.mpr hlength)]
    by_cases hstate : reference.finalState = candidate.finalState
    · by_cases hexit : reference.processExit = candidate.processExit
      · simp [hstate, hexit]
      · simp [hstate, hexit]
    · simp [hstate]

/-- The divergence has a label, and a label that names a state is right about the rest. -/
structure Attributed (noiseSyscalls : List String) (reference candidate : CanonicalTrace)
    (label : Option String) : Prop where
  labelled : label ≠ none
  final_state_only : label = some "final_state_only" →
    List.Forall₂ (EventsMatch noiseSyscalls) reference.events candidate.events ∧
      reference.processExit = candidate.processExit
  process_exit_only : label = some "process_exit_only" →
    List.Forall₂ (EventsMatch noiseSyscalls) reference.events candidate.events ∧
      reference.finalState = candidate.finalState

theorem attributed_labelOf_iff
    (hdiffer : (compareLoop noiseSyscalls reference candidate).equivalent = false) :
    Attributed noiseSyscalls reference candidate (labelOf noiseSyscalls reference candidate) ↔
      (∀ event ∈ divergentEvent noiseSyscalls reference.events candidate.events,
          event.syscallName ∉ stateLabels) ∧
        ¬(List.Forall₂ (EventsMatch noiseSyscalls) reference.events candidate.events ∧
          reference.finalState ≠ candidate.finalState ∧
          reference.processExit ≠ candidate.processExit) := by
  rw [compareLoop_eq, Bool.eq_false_iff, ne_eq, compareCanonical_equivalent_iff_match] at hdiffer
  cases hevent : divergentEvent noiseSyscalls reference.events candidate.events with
  | some event =>
    have hlabel : labelOf noiseSyscalls reference candidate = some event.syscallName := by
      rw [labelOf, hevent]
    have hevents :
        ¬List.Forall₂ (EventsMatch noiseSyscalls) reference.events candidate.events := by
      intro hmatch
      rw [(divergentEvent_eq_none_iff hmatch.length_eq).mpr hmatch] at hevent
      cases hevent
    rw [hlabel]
    constructor
    · intro hattributed
      refine ⟨?_, fun hboth ↦ hevents hboth.1⟩
      rintro other hother hname
      obtain rfl : event = other := Option.some.inj hother
      rcases List.mem_pair.mp hname with hstate | hexit
      · exact hevents (hattributed.final_state_only (congrArg some hstate)).1
      · exact hevents (hattributed.process_exit_only (congrArg some hexit)).1
    · rintro ⟨hname, -⟩
      have hother := hname event rfl
      refine ⟨Option.some_ne_none _, fun hstate ↦ absurd ?_ hother, fun hexit ↦ absurd ?_ hother⟩
      · exact List.mem_pair.mpr (.inl (Option.some.inj hstate))
      · exact List.mem_pair.mpr (.inr (Option.some.inj hexit))
  | none =>
    have hlength : reference.events.length = candidate.events.length := by
      by_contra hlength
      exact divergentEvent_ne_none hlength hevent
    have hevents := (divergentEvent_eq_none_iff hlength).mp hevent
    have hstates : reference.finalState = candidate.finalState →
        reference.processExit ≠ candidate.processExit := by
      intro hstate hexit
      rw [← reference.eventCount_eq, ← candidate.eventCount_eq] at hlength
      exact hdiffer ⟨hlength, hevents, hstate, hexit⟩
    have hlabel : labelOf noiseSyscalls reference candidate =
        if reference.finalState ≠ candidate.finalState then some "final_state_only"
        else if reference.processExit ≠ candidate.processExit then some "process_exit_only"
        else none := by
      rw [labelOf, hevent]
    by_cases hstate : reference.finalState = candidate.finalState
    · rw [if_neg (not_not.mpr hstate), if_pos (hstates hstate)] at hlabel
      rw [hlabel]
      refine iff_of_true ⟨Option.some_ne_none _, fun hother ↦ ?_, fun _ ↦ ⟨hevents, hstate⟩⟩
        ⟨fun event hnone ↦ (Option.not_mem_none event hnone).elim, fun hboth ↦ hboth.2.1 hstate⟩
      exact absurd (Option.some.inj hother) (by decide)
    · rw [if_pos hstate] at hlabel
      rw [hlabel]
      constructor
      · intro hattributed
        refine ⟨fun event hnone ↦ (Option.not_mem_none event hnone).elim, fun hboth ↦ ?_⟩
        exact hboth.2.2 (hattributed.final_state_only rfl).2
      · rintro ⟨-, hnot⟩
        refine ⟨Option.some_ne_none _, fun _ ↦ ⟨hevents, ?_⟩, fun hother ↦ ?_⟩
        · by_contra hexit
          exact hnot ⟨hevents, hstate, hexit⟩
        · exact absurd (Option.some.inj hother) (by decide)

/-- A divergence is attributed correctly exactly when the call at which it stops is not called like
one of the two texts, and when it does not lie in the final states and the process exits at once. -/
theorem firstDivergenceDetails_attributed_iff {files : CanonicalFiles} {result : CaseResult}
    (hcompares : ComparesStored files noiseSyscalls result reference candidate)
    (hdiffer : (compareLoop noiseSyscalls reference candidate).equivalent = false) :
    (∃ index label, firstDivergenceDetails files result = .ok (index, label) ∧
        Attributed noiseSyscalls reference candidate label) ↔
      (∀ event ∈ divergentEvent noiseSyscalls reference.events candidate.events,
          event.syscallName ∉ stateLabels) ∧
        ¬(List.Forall₂ (EventsMatch noiseSyscalls) reference.events candidate.events ∧
          reference.finalState ≠ candidate.finalState ∧
          reference.processExit ≠ candidate.processExit) := by
  rw [firstDivergenceDetails_eq hcompares, ← attributed_labelOf_iff hdiffer]
  constructor
  · rintro ⟨index, label, heq, hattributed⟩
    obtain ⟨-, rfl⟩ := Prod.mk.inj (Except.ok.inj heq)
    exact hattributed
  · exact fun hattributed ↦ ⟨_, _, rfl, hattributed⟩

end Attribution

/-! ### A candidate that also exits differently -/

/-- The candidate leaves a file behind and exits with another code. -/
def strayExitTrace : CanonicalTrace :=
  { closeTrace "candidate" [0] with
    finalState := { files := [{ path := PyStr.ofString "stray", size := 0, sha256 := none }] }
    processExit := { status := "ok", exitCode := some 1, timedOut := false } }

/-- A run whose trace file is in a directory of its own. -/
def labelledRun (side : Side) (directory : String) : RunResult where
  programId := "p"
  side := side
  status := "ok"
  exitCode := some 0
  traceJsonPath := some (directory ++ "/raw-trace.json")
  externalStatePath := none
  kernelBuild := "k"
  runId := "r"
  statusDetail := none

/-- The two canonical traces as they are stored. -/
def labelledFiles (reference candidate : CanonicalTrace) : CanonicalFiles := fun path ↦
  if path = "reference/raw-trace.json" then .stored reference
  else if path = "candidate/raw-trace.json" then .stored candidate
  else .absent

/-- The result of a case with one run on each side. -/
def labelledResult (reference candidate : CanonicalTrace) : CaseResult where
  programId := "p"
  classification := .bugLikely
  normalizedPath := ""
  metaPath := ""
  scml := {}
  scmlResultBucket := .notRun
  referenceRuns := [labelledRun .reference "reference"]
  candidateRuns := [labelledRun .candidate "candidate"]
  comparison := some (compareLoop [] reference candidate)

theorem comparesStored_labelledResult {reference candidate : CanonicalTrace}
    (hreference : Numbered reference.events) (hcandidate : Numbered candidate.events) :
    ComparesStored (labelledFiles reference candidate) [] (labelledResult reference candidate)
      reference candidate where
  reference_stored := rfl
  candidate_stored := rfl
  reference_numbered := hreference
  candidate_numbered := hcandidate
  comparison_eq := rfl

theorem firstDivergenceDetails_attributed_iff_closeTrace :
    (∃ index label, firstDivergenceDetails
          (labelledFiles (closeTrace "reference" [0]) (closeTrace "candidate" [-1]))
          (labelledResult (closeTrace "reference" [0]) (closeTrace "candidate" [-1])) =
            .ok (index, label) ∧
        Attributed [] (closeTrace "reference" [0]) (closeTrace "candidate" [-1]) label) ↔
      (∀ event ∈ divergentEvent [] (closeTrace "reference" [0]).events
          (closeTrace "candidate" [-1]).events, event.syscallName ∉ stateLabels) ∧
        ¬(List.Forall₂ (EventsMatch []) (closeTrace "reference" [0]).events
            (closeTrace "candidate" [-1]).events ∧
          (closeTrace "reference" [0]).finalState ≠ (closeTrace "candidate" [-1]).finalState ∧
          (closeTrace "reference" [0]).processExit ≠ (closeTrace "candidate" [-1]).processExit) :=
  firstDivergenceDetails_attributed_iff
    (comparesStored_labelledResult (numbered_closeTrace _ _) (numbered_closeTrace _ _))
    (by rw [compareLoop_eq]; decide)

/-- The label is `final_state_only`, but the process exits differ too. -/
theorem strayExitTrace_not_attributed :
    (compareLoop [] (closeTrace "reference" [0]) strayExitTrace).equivalent = false ∧
      firstDivergenceDetails (labelledFiles (closeTrace "reference" [0]) strayExitTrace)
          (labelledResult (closeTrace "reference" [0]) strayExitTrace) =
        .ok (some 1, some "final_state_only") ∧
      (closeTrace "reference" [0]).processExit ≠ strayExitTrace.processExit ∧
      ¬Attributed [] (closeTrace "reference" [0]) strayExitTrace (some "final_state_only") := by
  have hexit : (closeTrace "reference" [0]).processExit ≠ strayExitTrace.processExit := by decide
  refine ⟨by rw [compareLoop_eq]; decide, ?_, hexit, ?_⟩
  · have hnumbered : Numbered strayExitTrace.events := numbered_closeTrace "candidate" [0]
    rw [firstDivergenceDetails_eq (comparesStored_labelledResult (numbered_closeTrace _ _)
      hnumbered), compareLoop_eq]
    rfl
  · exact fun hattributed ↦ hexit (hattributed.final_state_only rfl).2

end SyzAbi.Orchestrator

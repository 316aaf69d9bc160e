import SyzAbi.Analyzer.Compare
import SyzAbi.Analyzer.Invariance

/-!
# What the noise filter ignores

`compare_canonical` ignores the return value and `errno` of noise syscalls, but it does so after the
handles were numbered, and the return value of a noise syscall takes a number like any other. Two
raw traces that differ only in what their noise events return are reported equivalent exactly when
the difference does not move the number of any handle that is compared: the handles before its first
use are equally many in both traces (`reportedEquivalent_iff`).
-/

set_option autoImplicit false
set_option relaxedAutoImplicit false

namespace SyzAbi.Analyzer

open CanonicalContext Library.FirstUse

/-! ### Traces that differ in noise -/

/-- Two events that differ at most in their return value and `errno`, and only if they are noise. -/
structure EventSameButNoise (noiseSyscalls : List String) (left right : RawEvent) : Prop where
  eq_of_results : right = { left with returnValue := right.returnValue, errno := right.errno }
  eq_of_notMem : left.syscallName ∉ noiseSyscalls → right = left

/-- Two traces of one program with the same process exit that differ only in what their noise events
return. -/
structure SameButNoise (noiseSyscalls : List String) (left right : RawTrace) : Prop where
  program : left.programId = right.programId
  processExit : left.processExit = right.processExit
  events : List.Forall₂ (EventSameButNoise noiseSyscalls) left.events right.events

/-- `canonicalize` followed by `compare_canonical` reports the traces equivalent, with one final
state on both sides. -/
def ReportedEquivalent (noiseSyscalls : List String) (left right : RawTrace)
    (finalState : ExternalState) : Prop :=
  ∃ reference candidate, canonicalize left finalState = .ok reference ∧
    canonicalize right finalState = .ok candidate ∧
    (compareCanonical noiseSyscalls reference candidate).equivalent = true

/-! ### Handles that are compared -/

/-- The handles of an event whose tokens are compared: those of a noise event's return value are
not. -/
def comparedHandles (noiseSyscalls : List String) (event : RawEvent) : List Handle :=
  (argPositions event).flatMap Position.handles ++
    ((if event.syscallName ∈ noiseSyscalls then [] else (returnPosition event).handles) ++
      event.outputs.flatMap outputHandles)

/-- The number of different values of its kind that a trace uses before the handle. -/
def valuesBefore (trace : RawTrace) (handle : Handle) : ℕ :=
  ((valuesOf handle.1 (traceHandles trace.events)).takeWhile (· ≠ handle.2)).toFinset.card

/-- No compared handle has more values before its first use in one trace than in the other. -/
def NumbersKept (noiseSyscalls : List String) (left right : RawTrace) : Prop :=
  ∀ event ∈ left.events, ∀ handle ∈ comparedHandles noiseSyscalls event,
    valuesBefore left handle = valuesBefore right handle

/-! ### Rendering under two tables -/

section Rendering

variable {keys keys' : KeyTables}

/-- The two tables give a handle one number. -/
def SameNumber (keys keys' : KeyTables) (handle : Handle) : Prop :=
  (keys handle.1).idxOf handle.2 = (keys' handle.1).idxOf handle.2

theorem Position.render_eq_iff (position : Position) :
    position.render keys = position.render keys' ↔
      ∀ handle ∈ position.handles, SameNumber keys keys' handle := by
  cases position with
  | literal value => simp [Position.render, Position.handles]
  | handle kind value =>
    rw [Position.render, Position.render, Position.handles, List.forall_mem_singleton,
      Scalar.token.injEq, tokenText_inj, and_iff_right rfl]
    rfl

theorem renderOutput_eq_iff (output : RawOutput) :
    renderOutput keys output = renderOutput keys' output ↔
      ∀ handle ∈ outputHandles output, SameNumber keys keys' handle := by
  simp only [renderOutput, CanonicalOutput.mk.injEq, true_and, outputHandles, fdResourceValues]
  by_cases hfd : output.resourceKind = some "fd"
  · rw [if_pos hfd, if_pos hfd, if_pos hfd, Option.some.injEq, List.map_inj_left,
      List.forall_mem_map]
    refine forall₂_congr fun value _ ↦ ?_
    rw [tokenText_inj, and_iff_right rfl]
    rfl
  · simp [hfd]

theorem forall_mem_flatMap_iff {α β : Type} {items : List α} {f : α → List β} {P : β → Prop} :
    (∀ entry ∈ items.flatMap f, P entry) ↔ ∀ item ∈ items, ∀ entry ∈ f item, P entry := by
  simp only [List.mem_flatMap, forall_exists_index, and_imp]
  exact ⟨fun h item hitem entry hentry ↦ h entry item hitem hentry,
    fun h entry item hitem hentry ↦ h item hitem entry hentry⟩

/-- Two events that differ in noise compare equal exactly when the tables number their compared
handles alike. -/
theorem eventDiverges_iff_sameNumber {noiseSyscalls : List String} {left right : RawEvent}
    (hsame : EventSameButNoise noiseSyscalls left right) (index : ℕ) :
    eventDiverges noiseSyscalls (renderEvent keys left index) (renderEvent keys' right index) =
        false ↔
      ∀ handle ∈ comparedHandles noiseSyscalls left, SameNumber keys keys' handle := by
  have hname : right.syscallName = left.syscallName := by rw [hsame.eq_of_results]
  have hpositions : argPositions right = argPositions left := by
    rw [hsame.eq_of_results]
    rfl
  have houtputs : right.outputs = left.outputs := by rw [hsame.eq_of_results]
  rw [eventDiverges_eq_false_iff]
  simp only [renderEvent, hname, hpositions, houtputs, true_and]
  rw [comparedHandles, List.forall_mem_append, List.forall_mem_append, forall_mem_flatMap_iff,
    forall_mem_flatMap_iff, List.map_inj_left, List.map_inj_left]
  simp only [Position.render_eq_iff, renderOutput_eq_iff]
  refine and_congr Iff.rfl ?_
  rw [and_comm]
  refine and_congr ?_ Iff.rfl
  by_cases hnoise : left.syscallName ∈ noiseSyscalls
  · simp [hnoise]
  · rw [hsame.eq_of_notMem hnoise, if_neg hnoise, or_iff_right hnoise, and_iff_left rfl,
      Position.render_eq_iff]

end Rendering

/-! ### Whole traces -/

section Traces

variable {noiseSyscalls : List String} {left right : RawTrace}

theorem validateEventIndexes_eq {events events' : List RawEvent}
    (hsame : List.Forall₂ (EventSameButNoise noiseSyscalls) events events') (previous : ℤ) :
    validateEventIndexes previous events' = validateEventIndexes previous events := by
  induction hsame generalizing previous with
  | nil => rfl
  | cons hevent _ ih =>
    rw [validateEventIndexes, validateEventIndexes, hevent.eq_of_results, ih]

/-- A valid trace stays valid. -/
theorem SameButNoise.validateRawTrace_eq (hsame : SameButNoise noiseSyscalls left right) :
    validateRawTrace right = validateRawTrace left :=
  validateEventIndexes_eq hsame.events (-1)

/-- The compared handles are among the handles of the event. -/
theorem mem_eventHandles_of_compared {event : RawEvent} {handle : Handle}
    (hhandle : handle ∈ comparedHandles noiseSyscalls event) : handle ∈ eventHandles event := by
  rw [comparedHandles, List.mem_append, List.mem_append] at hhandle
  rw [eventHandles, List.mem_append, List.mem_append]
  refine hhandle.imp_right (Or.imp_left fun hreturn ↦ ?_)
  exact (List.mem_ite_nil_left.mp hreturn).2

/-- The number of a handle in the tables of a trace. -/
theorem idxOf_tablesOf {trace : RawTrace} {event : RawEvent} {handle : Handle}
    (hevent : event ∈ trace.events) (hhandle : handle ∈ eventHandles event) :
    (tablesOf (traceHandles trace.events) handle.1).idxOf handle.2 = valuesBefore trace handle := by
  have hmem : handle ∈ traceHandles trace.events :=
    List.mem_flatMap.mpr ⟨event, hevent, hhandle⟩
  exact idxOf_noteAll (mem_valuesOf.mpr hmem)

/-- Two lists of events that differ in noise have the same compared handles, event by event. -/
theorem comparedHandles_eq {event event' : RawEvent}
    (hsame : EventSameButNoise noiseSyscalls event event') :
    comparedHandles noiseSyscalls event' = comparedHandles noiseSyscalls event := by
  by_cases hnoise : event.syscallName ∈ noiseSyscalls
  · have hname : event'.syscallName = event.syscallName := by rw [hsame.eq_of_results]
    have hpositions : argPositions event' = argPositions event := by
      rw [hsame.eq_of_results]
      rfl
    rw [comparedHandles, comparedHandles, hname, if_pos hnoise, if_pos hnoise, hpositions,
      hsame.eq_of_results]
  · rw [hsame.eq_of_notMem hnoise]

/-- The compared handles of a trace are also used by the other one. -/
theorem exists_event_of_compared {events events' : List RawEvent}
    (hsame : List.Forall₂ (EventSameButNoise noiseSyscalls) events events') {event : RawEvent}
    (hevent : event ∈ events) :
    ∃ event' ∈ events',
      comparedHandles noiseSyscalls event' = comparedHandles noiseSyscalls event := by
  induction hsame with
  | nil => cases hevent
  | cons hfirst _ ih =>
    rcases List.mem_cons.mp hevent with rfl | hrest
    · exact ⟨_, List.mem_cons_self, comparedHandles_eq hfirst⟩
    · obtain ⟨event', hevent', heq⟩ := ih hrest
      exact ⟨event', List.mem_cons_of_mem _ hevent', heq⟩

/-- The events compare equal one by one exactly when the tables number the compared handles alike.
-/
theorem forall₂_eventDiverges_iff {events events' : List RawEvent} {keys keys' : KeyTables}
    (hsame : List.Forall₂ (EventSameButNoise noiseSyscalls) events events') :
    List.Forall₂ (fun event event' ↦ eventDiverges noiseSyscalls (renderEvent keys event 0)
        (renderEvent keys' event' 0) = false) events events' ↔
      ∀ event ∈ events, ∀ handle ∈ comparedHandles noiseSyscalls event,
        SameNumber keys keys' handle := by
  induction hsame with
  | nil => simp
  | cons hevent _ ih =>
    rw [List.forall₂_cons, ih, List.forall_mem_cons, eventDiverges_iff_sameNumber hevent]

/-- A compared handle has one number in the tables of both traces exactly when equally many values
come before it. -/
theorem sameNumber_iff (hsame : SameButNoise noiseSyscalls left right) {event : RawEvent}
    (hevent : event ∈ left.events) {handle : Handle}
    (hhandle : handle ∈ comparedHandles noiseSyscalls event) :
    SameNumber (tablesOf (traceHandles left.events)) (tablesOf (traceHandles right.events)) handle ↔
      valuesBefore left handle = valuesBefore right handle := by
  obtain ⟨event', hevent', hcompared⟩ := exists_event_of_compared hsame.events hevent
  rw [SameNumber, idxOf_tablesOf hevent (mem_eventHandles_of_compared hhandle),
    idxOf_tablesOf hevent' (mem_eventHandles_of_compared (hcompared ▸ hhandle))]

/-- The events of the two canonical traces compare equal exactly when the numbers are kept. -/
theorem firstDivergence_iff_numbersKept (hsame : SameButNoise noiseSyscalls left right)
    {finalState : ExternalState} {reference candidate : CanonicalTrace}
    (hreference : canonicalize left finalState = .ok reference)
    (hcandidate : canonicalize right finalState = .ok candidate) :
    reference.eventCount = candidate.eventCount ∧
      (firstDivergence noiseSyscalls (reference.events.zip candidate.events) = none ↔
        NumbersKept noiseSyscalls left right) := by
  have hlength : reference.events.length = candidate.events.length := by
    rw [events_of_canonicalize hreference, events_of_canonicalize hcandidate]
    simpa using hsame.events.length_eq
  refine ⟨by rw [reference.eventCount_eq, candidate.eventCount_eq, hlength], ?_⟩
  have hpairs : (∀ pair ∈ reference.events.zip candidate.events,
        eventDiverges noiseSyscalls pair.1 pair.2 = false) ↔
      List.Forall₂ (fun event event' ↦ eventDiverges noiseSyscalls event event' = false)
        reference.events candidate.events := by
    rw [List.forall₂_iff_zip, and_iff_right hlength]
    exact ⟨fun h a b hab ↦ h (a, b) hab, fun h pair hpair ↦ h hpair⟩
  have hindex : ∀ (event event' : RawEvent) (index : ℕ),
      eventDiverges noiseSyscalls
          (renderEvent (tablesOf (traceHandles left.events)) event index)
          (renderEvent (tablesOf (traceHandles right.events)) event' index) = false ↔
        eventDiverges noiseSyscalls
          (renderEvent (tablesOf (traceHandles left.events)) event 0)
          (renderEvent (tablesOf (traceHandles right.events)) event' 0) = false :=
    fun _ _ _ ↦ Iff.rfl
  rw [firstDivergence_eq_none_iff, hpairs, events_of_canonicalize hreference,
    events_of_canonicalize hcandidate, forall₂_zipIdx_iff hindex,
    forall₂_eventDiverges_iff hsame.events]
  exact forall₂_congr fun event hevent ↦ forall₂_congr fun handle hhandle ↦
    sameNumber_iff hsame hevent hhandle

/-- Two raw traces that differ only in what their noise events return are reported equivalent
exactly when they are valid and every compared handle has as many values before it in both. -/
theorem reportedEquivalent_iff (noiseSyscalls : List String) {left right : RawTrace}
    (hsame : SameButNoise noiseSyscalls left right) (finalState : ExternalState) :
    ReportedEquivalent noiseSyscalls left right finalState ↔
      validateRawTrace left = .ok () ∧ NumbersKept noiseSyscalls left right := by
  constructor
  · rintro ⟨reference, candidate, hreference, hcandidate, hequivalent⟩
    have hkept := (firstDivergence_iff_numbersKept hsame hreference hcandidate).2
    rw [compareCanonical_equivalent_iff] at hequivalent
    exact ⟨(fields_of_canonicalize hreference).1, hkept.mp hequivalent.2.1⟩
  · rintro ⟨hvalid, hkept⟩
    obtain ⟨reference, hreference⟩ := canonicalize_ok hvalid finalState
    obtain ⟨candidate, hcandidate⟩ :=
      canonicalize_ok (hsame.validateRawTrace_eq.trans hvalid) finalState
    obtain ⟨hcount, hevents⟩ := firstDivergence_iff_numbersKept hsame hreference hcandidate
    refine ⟨reference, candidate, hreference, hcandidate, ?_⟩
    rw [compareCanonical_equivalent_iff]
    refine ⟨hcount, hevents.mpr hkept, ?_, ?_⟩
    · rw [(fields_of_canonicalize hreference).2.1, (fields_of_canonicalize hcandidate).2.1]
    · rw [(fields_of_canonicalize hreference).2.2, (fields_of_canonicalize hcandidate).2.2,
        hsame.processExit]

end Traces

/-! ### An address that loses its number -/

/-- `mmap(4096)` that returns the given address, and `munmap(12288)`. -/
def mappedTrace (returnValue : ℤ) : RawTrace where
  programId := "p"
  side := "reference"
  runId := "r"
  status := "ok"
  events := [
    { eventIndex := 0
      syscallName := "mmap"
      syscallNumber := 9
      args := [4096, 4096, 3, 34, -1, 0]
      returnValue := returnValue
      errno := 0
      startNs := 0
      endNs := 1
      outputs := [] },
    { eventIndex := 1
      syscallName := "munmap"
      syscallNumber := 11
      args := [12288, 4096, 0, 0, 0, 0]
      returnValue := 0
      errno := 0
      startNs := 2
      endNs := 3
      outputs := [] }]
  processExit := { status := "ok", exitCode := some 0, timedOut := false }

theorem sameButNoise_mappedTrace (returnValue returnValue' : ℤ) :
    SameButNoise ["mmap"] (mappedTrace returnValue) (mappedTrace returnValue') where
  program := rfl
  processExit := rfl
  events := .cons ⟨rfl, fun hnoise ↦ absurd List.mem_cons_self hnoise⟩
    (.cons ⟨rfl, fun _ ↦ rfl⟩ .nil)

theorem reportedEquivalent_iff_mappedTrace :
    ReportedEquivalent ["mmap"] (mappedTrace 4096) (mappedTrace 12288) ⟨[], false, none⟩ ↔
      validateRawTrace (mappedTrace 4096) = .ok () ∧
        NumbersKept ["mmap"] (mappedTrace 4096) (mappedTrace 12288) :=
  reportedEquivalent_iff ["mmap"] (sameButNoise_mappedTrace 4096 12288) _

/-- `munmap` names the second address of the one trace and the third of the other. -/
theorem mappedTrace_notReported :
    SameButNoise ["mmap"] (mappedTrace 4096) (mappedTrace 8192) ∧
      ¬ReportedEquivalent ["mmap"] (mappedTrace 4096) (mappedTrace 8192) ⟨[], false, none⟩ := by
  refine ⟨sameButNoise_mappedTrace 4096 8192, ?_⟩
  rintro ⟨reference, candidate, hreference, hcandidate, hequivalent⟩
  have hkept := (firstDivergence_iff_numbersKept (sameButNoise_mappedTrace 4096 8192) hreference
    hcandidate).2
  rw [compareCanonical_equivalent_iff] at hequivalent
  have hmunmap := hkept.mp hequivalent.2.1 _ (List.mem_cons_of_mem _ List.mem_cons_self)
    (.addr, 12288) (by decide)
  revert hmunmap
  decide

end SyzAbi.Analyzer

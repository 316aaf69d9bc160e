import SyzAbi.Analyzer.Compare
import SyzAbi.Analyzer.Renaming

/-!
# What the comparison decides

`compare_canonical` statement by statement: the loop over the events with its two flags, the loop
over the fields of a pair inside it, and the updates of the flags behind them (`compareLoop`). It
computes what `compareCanonical` says (`compareLoop_eq`).

Two traces are equivalent exactly when their events match one by one and their external states and
process exits are equal, so for fixed noise syscalls equivalence is an equivalence relation. The
first divergence index is the first position at which the events disagree, except for traces of
different lengths: there it is the smaller length, also when an earlier pair of events disagrees.
-/

set_option autoImplicit false
set_option relaxedAutoImplicit false

namespace SyzAbi.Analyzer

/-! ### The loops -/

/-- The fields of the inner loop, in its order. -/
inductive ComparedField
  | args
  | returnValue
  | errno
  | outputs
  deriving DecidableEq

/-- `left[field] != right[field]`. -/
def ComparedField.differs (left right : CanonicalEvent) : ComparedField → Bool
  | .args => left.args ≠ right.args
  | .returnValue => left.returnValue ≠ right.returnValue
  | .errno => left.errno ≠ right.errno
  | .outputs => left.outputs ≠ right.outputs

/-- `is_noise and field in ("return_value", "errno")`. -/
def ComparedField.excused (isNoise : Bool) (field : ComparedField) : Bool :=
  isNoise && field ∈ [.returnValue, .errno]

/-- The variables `first_divergence_index` and `noise_only`. -/
structure LoopFlags where
  firstDivergenceIndex : Option ℕ := none
  noiseOnly : Bool := true
  deriving DecidableEq

/-- The flags when a loop breaks at an event. -/
def LoopFlags.divergedAt (event : CanonicalEvent) : LoopFlags where
  firstDivergenceIndex := some event.index
  noiseOnly := false

/-- The loop over the fields of a pair of events. -/
def fieldLoop (isNoise : Bool) (left right : CanonicalEvent) (flags : LoopFlags) :
    List ComparedField → LoopFlags
  | [] => flags
  | field :: rest =>
    if field.differs left right then
      if field.excused isNoise then fieldLoop isNoise left right flags rest
      else LoopFlags.divergedAt left
    else fieldLoop isNoise left right flags rest

/-- The loop over the pairs of events. -/
def eventLoop (noiseSyscalls : List String) (flags : LoopFlags) :
    List (CanonicalEvent × CanonicalEvent) → LoopFlags
  | [] => flags
  | (left, right) :: rest =>
    if left.syscallName ≠ right.syscallName then LoopFlags.divergedAt left
    else
      let flags := fieldLoop (isNoiseEvent noiseSyscalls left right) left right flags
        [.args, .returnValue, .errno, .outputs]
      if flags.firstDivergenceIndex ≠ none then flags else eventLoop noiseSyscalls flags rest

/-- `compare_canonical`, statement by statement. -/
def compareLoop (noiseSyscalls : List String) (reference candidate : CanonicalTrace) :
    Comparison := Id.run do
  if reference.eventCount ≠ candidate.eventCount then
    return {
      equivalent := false
      noiseOnly := false
      firstDivergenceIndex := some (min reference.eventCount candidate.eventCount)
      reason := "event_count_mismatch"
      finalStateEqual := none
      processExitEqual := none }
  let mut flags := eventLoop noiseSyscalls {} (reference.events.zip candidate.events)
  let finalStateEqual : Bool := reference.finalState = candidate.finalState
  let processExitEqual : Bool := reference.processExit = candidate.processExit
  if !processExitEqual then
    flags := { flags with noiseOnly := false }
    if flags.firstDivergenceIndex = none then
      flags := { flags with firstDivergenceIndex := some reference.eventCount }
  let equivalent := flags.firstDivergenceIndex = none && finalStateEqual && processExitEqual
  if equivalent then
    flags := { flags with noiseOnly := false }
  return {
    equivalent := equivalent
    noiseOnly := flags.noiseOnly && finalStateEqual
    firstDivergenceIndex := flags.firstDivergenceIndex
    reason := if equivalent then "no_diff" else "content_mismatch"
    finalStateEqual := some finalStateEqual
    processExitEqual := some processExitEqual }

/-- The inner loop breaks when a field differs that noise does not excuse. -/
theorem fieldLoop_eq (isNoise : Bool) (left right : CanonicalEvent) (flags : LoopFlags)
    (fields : List ComparedField) :
    fieldLoop isNoise left right flags fields =
      if fields.any fun field ↦ field.differs left right && !field.excused isNoise then
        LoopFlags.divergedAt left
      else flags := by
  induction fields with
  | nil => rfl
  | cons field rest ih =>
    rw [fieldLoop, ih, List.any_cons]
    by_cases hdiffers : field.differs left right = true
    · by_cases hexcused : field.excused isNoise = true
      · simp [hdiffers, hexcused]
      · simp [hdiffers, hexcused]
    · simp [hdiffers]

/-- One round of the outer loop: it breaks exactly at the pairs that diverge. -/
theorem eventLoop_cons (noiseSyscalls : List String) (left right : CanonicalEvent)
    (rest : List (CanonicalEvent × CanonicalEvent)) :
    eventLoop noiseSyscalls {} ((left, right) :: rest) =
      if eventDiverges noiseSyscalls left right then LoopFlags.divergedAt left
      else eventLoop noiseSyscalls {} rest := by
  rw [eventLoop, fieldLoop_eq]
  by_cases hname : left.syscallName = right.syscallName
  · have hfields : ([ComparedField.args, .returnValue, .errno, .outputs].any fun field ↦
          field.differs left right && !field.excused (isNoiseEvent noiseSyscalls left right)) =
        eventDiverges noiseSyscalls left right := by
      simp [eventDiverges, ComparedField.differs, ComparedField.excused, hname, Bool.or_assoc]
    rw [if_neg (not_not.mpr hname), hfields]
    by_cases hdiverges : eventDiverges noiseSyscalls left right = true
    · simp [hdiverges, LoopFlags.divergedAt]
    · simp [hdiverges]
  · have hdiverges : eventDiverges noiseSyscalls left right = true := by
      simp [eventDiverges, hname]
    rw [if_pos hname, if_pos hdiverges]

/-- The outer loop ends with the first divergence. -/
theorem eventLoop_eq (noiseSyscalls : List String)
    (pairs : List (CanonicalEvent × CanonicalEvent)) :
    eventLoop noiseSyscalls {} pairs =
      ⟨firstDivergence noiseSyscalls pairs, (firstDivergence noiseSyscalls pairs).isNone⟩ := by
  induction pairs with
  | nil => rfl
  | cons pair rest ih =>
    obtain ⟨left, right⟩ := pair
    rw [eventLoop_cons, firstDivergence, ih]
    by_cases hdiverges : eventDiverges noiseSyscalls left right = true
    · rw [if_pos hdiverges, if_pos hdiverges]
      rfl
    · rw [if_neg hdiverges, if_neg hdiverges]

/-- The statements of `compare_canonical` compute `compareCanonical`. -/
theorem compareLoop_eq (noiseSyscalls : List String) (reference candidate : CanonicalTrace) :
    compareLoop noiseSyscalls reference candidate =
      compareCanonical noiseSyscalls reference candidate := by
  unfold compareLoop compareCanonical
  by_cases hcount : reference.eventCount = candidate.eventCount
  · simp only [hcount, ne_eq, not_true_eq_false, if_false, eventLoop_eq]
    by_cases hexit : reference.processExit = candidate.processExit
    · by_cases hstate : reference.finalState = candidate.finalState
      · cases firstDivergence noiseSyscalls (reference.events.zip candidate.events) <;>
          simp [hexit, hstate]
      · simp [hexit, hstate]
    · cases firstDivergence noiseSyscalls (reference.events.zip candidate.events) <;>
        simp [hexit]
  · simp [hcount]

/-! ### The relation -/

/-- Two events match: they agree on their name, their arguments and their outputs, and, unless the
call is a noise call, on their results. -/
structure EventsMatch (noiseSyscalls : List String) (left right : CanonicalEvent) : Prop where
  syscallName : left.syscallName = right.syscallName
  args : left.args = right.args
  outputs : left.outputs = right.outputs
  results : left.syscallName ∉ noiseSyscalls →
    left.returnValue = right.returnValue ∧ left.errno = right.errno

/-- Two canonical traces match. -/
structure TracesMatch (noiseSyscalls : List String) (left right : CanonicalTrace) : Prop where
  eventCount : left.eventCount = right.eventCount
  events : List.Forall₂ (EventsMatch noiseSyscalls) left.events right.events
  finalState : left.finalState = right.finalState
  processExit : left.processExit = right.processExit

theorem eventDiverges_eq_false_iff_match (noiseSyscalls : List String)
    (left right : CanonicalEvent) :
    eventDiverges noiseSyscalls left right = false ↔ EventsMatch noiseSyscalls left right := by
  rw [eventDiverges_eq_false_iff]
  constructor
  · rintro ⟨hname, hargs, houtputs, hresults⟩
    exact ⟨hname, hargs, houtputs, hresults.resolve_left⟩
  · intro hmatch
    exact ⟨hmatch.syscallName, hmatch.args, hmatch.outputs,
      Classical.or_iff_not_imp_left.mpr hmatch.results⟩

/-- Lists of one length match event by event when no pair of their events diverges. -/
theorem firstDivergence_zip_eq_none_iff (noiseSyscalls : List String)
    {left right : List CanonicalEvent} (hlength : left.length = right.length) :
    firstDivergence noiseSyscalls (left.zip right) = none ↔
      List.Forall₂ (EventsMatch noiseSyscalls) left right := by
  rw [firstDivergence_eq_none_iff, List.forall₂_iff_zip]
  simp only [eventDiverges_eq_false_iff_match]
  constructor
  · exact fun hpairs ↦ ⟨hlength, fun hmem ↦ hpairs _ hmem⟩
  · exact fun hmatch pair hmem ↦ hmatch.2 hmem

theorem EventsMatch.refl (noiseSyscalls : List String) (event : CanonicalEvent) :
    EventsMatch noiseSyscalls event event :=
  ⟨rfl, rfl, rfl, fun _ ↦ ⟨rfl, rfl⟩⟩

theorem EventsMatch.symm {noiseSyscalls : List String} {left right : CanonicalEvent}
    (hmatch : EventsMatch noiseSyscalls left right) : EventsMatch noiseSyscalls right left where
  syscallName := hmatch.syscallName.symm
  args := hmatch.args.symm
  outputs := hmatch.outputs.symm
  results := by
    intro hnoise
    rw [← hmatch.syscallName] at hnoise
    exact ⟨(hmatch.results hnoise).1.symm, (hmatch.results hnoise).2.symm⟩

theorem EventsMatch.trans {noiseSyscalls : List String} {left middle right : CanonicalEvent}
    (hleft : EventsMatch noiseSyscalls left middle)
    (hright : EventsMatch noiseSyscalls middle right) : EventsMatch noiseSyscalls left right where
  syscallName := hleft.syscallName.trans hright.syscallName
  args := hleft.args.trans hright.args
  outputs := hleft.outputs.trans hright.outputs
  results := by
    intro hnoise
    have hresults := hleft.results hnoise
    rw [hleft.syscallName] at hnoise
    have hresults' := hright.results hnoise
    exact ⟨hresults.1.trans hresults'.1, hresults.2.trans hresults'.2⟩

theorem forall₂_eventsMatch_trans {noiseSyscalls : List String}
    {left middle right : List CanonicalEvent}
    (hleft : List.Forall₂ (EventsMatch noiseSyscalls) left middle)
    (hright : List.Forall₂ (EventsMatch noiseSyscalls) middle right) :
    List.Forall₂ (EventsMatch noiseSyscalls) left right := by
  induction hleft generalizing right with
  | nil => exact hright
  | cons hmatch _ ih =>
    obtain ⟨event, rest, hmatch', hrest, rfl⟩ := List.forall₂_cons_left_iff.mp hright
    exact List.Forall₂.cons (hmatch.trans hmatch') (ih hrest)

theorem equivalence_tracesMatch (noiseSyscalls : List String) :
    Equivalence (TracesMatch noiseSyscalls) where
  refl _ := ⟨rfl, List.forall₂_same.mpr fun event _ ↦ EventsMatch.refl noiseSyscalls event, rfl,
    rfl⟩
  symm hmatch := ⟨hmatch.eventCount.symm, hmatch.events.flip.imp fun _ _ h ↦ h.symm,
    hmatch.finalState.symm, hmatch.processExit.symm⟩
  trans hleft hright := ⟨hleft.eventCount.trans hright.eventCount,
    forall₂_eventsMatch_trans hleft.events hright.events, hleft.finalState.trans hright.finalState,
    hleft.processExit.trans hright.processExit⟩

/-- `compare_canonical` answers equivalent exactly for traces that match. -/
theorem compareCanonical_equivalent_iff_match (noiseSyscalls : List String)
    (reference candidate : CanonicalTrace) :
    (compareCanonical noiseSyscalls reference candidate).equivalent = true ↔
      TracesMatch noiseSyscalls reference candidate := by
  rw [compareCanonical_equivalent_iff]
  have hlength : reference.eventCount = candidate.eventCount →
      reference.events.length = candidate.events.length := by
    rw [reference.eventCount_eq, candidate.eventCount_eq]
    exact id
  constructor
  · rintro ⟨hcount, hevents, hstate, hexit⟩
    exact ⟨hcount, (firstDivergence_zip_eq_none_iff _ (hlength hcount)).mp hevents, hstate, hexit⟩
  · rintro ⟨hcount, hevents, hstate, hexit⟩
    exact ⟨hcount, (firstDivergence_zip_eq_none_iff _ (hlength hcount)).mpr hevents, hstate, hexit⟩

/-- `compare_canonical` decides exactly its relation, and for fixed noise syscalls its answer is an
equivalence relation. -/
theorem compareCanonical_decides (noiseSyscalls : List String) :
    (∀ reference candidate,
      (compareLoop noiseSyscalls reference candidate).equivalent = true ↔
        reference.eventCount = candidate.eventCount ∧
          List.Forall₂ (EventsMatch noiseSyscalls) reference.events candidate.events ∧
          reference.finalState = candidate.finalState ∧
          reference.processExit = candidate.processExit) ∧
    Equivalence fun left right ↦ (compareLoop noiseSyscalls left right).equivalent = true := by
  simp only [compareLoop_eq, compareCanonical_equivalent_iff_match]
  refine ⟨fun reference candidate ↦ ?_, equivalence_tracesMatch noiseSyscalls⟩
  exact ⟨fun h ↦ ⟨h.eventCount, h.events, h.finalState, h.processExit⟩,
    fun h ↦ ⟨h.1, h.2.1, h.2.2.1, h.2.2.2⟩⟩

/-! ### The first divergence -/

/-- The events carry their positions as their indexes. -/
def Numbered (events : List CanonicalEvent) : Prop :=
  ∀ (position : ℕ) (event : CanonicalEvent), events[position]? = some event →
    event.index = position

/-- The event lists disagree at a position: the events there do not match, or only one of the lists
goes on. -/
def EventsDisagreeAt (noiseSyscalls : List String) (left right : List CanonicalEvent)
    (position : ℕ) : Prop :=
  match left[position]?, right[position]? with
  | some event, some event' => eventDiverges noiseSyscalls event event' = true
  | none, none => False
  | _, _ => True

/-- `canonicalize` numbers the events. -/
theorem numbered_of_canonicalize {rawTrace : RawTrace} {externalState : ExternalState}
    {trace : CanonicalTrace} (hcanonical : canonicalize rawTrace externalState = .ok trace) :
    Numbered trace.events := by
  intro position event hevent
  rw [events_of_canonicalize hcanonical, List.getElem?_map, List.getElem?_zipIdx] at hevent
  obtain ⟨entry, hentry, rfl⟩ := Option.map_eq_some_iff.mp hevent
  obtain ⟨rawEvent, -, rfl⟩ := Option.map_eq_some_iff.mp hentry
  exact Nat.zero_add position

section FirstDivergence

variable {noiseSyscalls : List String} {left right : List CanonicalEvent}

/-- Where both lists have events, they disagree exactly at the pairs that diverge. -/
theorem eventsDisagreeAt_iff_of_lt {position : ℕ} (hleft : position < left.length)
    (hright : position < right.length) :
    EventsDisagreeAt noiseSyscalls left right position ↔
      eventDiverges noiseSyscalls left[position] right[position] = true := by
  rw [EventsDisagreeAt, List.getElem?_eq_getElem hleft, List.getElem?_eq_getElem hright]

/-- Where one list has ended, they disagree exactly while the other goes on. -/
theorem eventsDisagreeAt_iff_of_le {position : ℕ}
    (hmin : min left.length right.length ≤ position) :
    EventsDisagreeAt noiseSyscalls left right position ↔
      position < max left.length right.length := by
  unfold EventsDisagreeAt
  by_cases hleft : position < left.length
  · have hright : right.length ≤ position := by omega
    rw [List.getElem?_eq_getElem hleft, List.getElem?_eq_none hright]
    exact iff_of_true trivial (by omega)
  · rw [List.getElem?_eq_none (not_lt.mp hleft)]
    by_cases hright : position < right.length
    · rw [List.getElem?_eq_getElem hright]
      exact iff_of_true trivial (by omega)
    · rw [List.getElem?_eq_none (not_lt.mp hright)]
      exact iff_of_false id (by omega)

/-- No pair diverges when the lists agree as far as both go. -/
theorem forall_zip_iff_not_disagree :
    (∀ pair ∈ left.zip right, eventDiverges noiseSyscalls pair.1 pair.2 = false) ↔
      ∀ position < min left.length right.length,
        ¬EventsDisagreeAt noiseSyscalls left right position := by
  constructor
  · intro hpairs position hlt
    rw [eventsDisagreeAt_iff_of_lt (by omega) (by omega), Bool.not_eq_true]
    have hzip : position < (left.zip right).length := by rwa [List.length_zip]
    have hpair := hpairs _ (List.getElem_mem hzip)
    rwa [List.getElem_zip] at hpair
  · intro hagree pair hpair
    obtain ⟨position, hzip, rfl⟩ := List.getElem_of_mem hpair
    rw [List.length_zip] at hzip
    have hposition := hagree position hzip
    rw [eventsDisagreeAt_iff_of_lt (by omega) (by omega), Bool.not_eq_true] at hposition
    rwa [List.getElem_zip]

/-- The first divergence is the index of the first event whose pair diverges. -/
theorem firstDivergence_eq_find (pairs : List (CanonicalEvent × CanonicalEvent)) :
    firstDivergence noiseSyscalls pairs =
      (pairs.find? fun pair ↦ eventDiverges noiseSyscalls pair.1 pair.2).map
        fun pair ↦ pair.1.index := by
  induction pairs with
  | nil => rfl
  | cons pair rest ih =>
    rw [firstDivergence, List.find?_cons]
    cases hdiverges : eventDiverges noiseSyscalls pair.1 pair.2 with
    | true => rfl
    | false => exact ih

/-- Among numbered events, a first divergence is the least position at which the lists disagree. -/
theorem isLeast_of_firstDivergence (hnumbered : Numbered left) {position : ℕ}
    (hfirst : firstDivergence noiseSyscalls (left.zip right) = some position) :
    IsLeast {other | EventsDisagreeAt noiseSyscalls left right other} position := by
  rw [firstDivergence_eq_find] at hfirst
  obtain ⟨pair, hfind, hindex⟩ := Option.map_eq_some_iff.mp hfirst
  obtain ⟨hdiverges, place, hplace, hpair, hbefore⟩ := List.find?_eq_some_iff_getElem.mp hfind
  rw [List.length_zip] at hplace
  have hleft : place < left.length := by omega
  have hright : place < right.length := by omega
  rw [List.getElem_zip] at hpair
  have hposition : place = position := by
    rw [← hindex, ← hpair]
    exact (hnumbered place left[place] (List.getElem?_eq_getElem hleft)).symm
  subst hposition
  refine ⟨?_, fun other hother ↦ not_lt.mp fun hlt ↦ ?_⟩
  · rw [Set.mem_ofPred_eq, eventsDisagreeAt_iff_of_lt hleft hright]
    rw [← hpair] at hdiverges
    exact hdiverges
  · have hother := (eventsDisagreeAt_iff_of_lt (by omega) (by omega)).mp hother
    have hbefore := hbefore other hlt
    rw [List.getElem_zip, hother] at hbefore
    cases hbefore

/-- Lists of one length that disagree somewhere have a first divergence. -/
theorem firstDivergence_ne_none (hlength : left.length = right.length) {position : ℕ}
    (hposition : EventsDisagreeAt noiseSyscalls left right position) :
    firstDivergence noiseSyscalls (left.zip right) ≠ none := by
  intro hnone
  rw [firstDivergence_eq_none_iff, forall_zip_iff_not_disagree] at hnone
  by_cases hlt : position < min left.length right.length
  · exact hnone position hlt hposition
  · rw [eventsDisagreeAt_iff_of_le (not_lt.mp hlt)] at hposition
    omega

/-- Lists of different lengths disagree first at the end of the shorter one exactly when they agree
as far as both go. -/
theorem isLeast_min_length_iff (hlength : left.length ≠ right.length) :
    IsLeast {position | EventsDisagreeAt noiseSyscalls left right position}
        (min left.length right.length) ↔
      ∀ pair ∈ left.zip right, eventDiverges noiseSyscalls pair.1 pair.2 = false := by
  rw [forall_zip_iff_not_disagree]
  constructor
  · intro hleast position hlt hposition
    exact absurd (hleast.2 hposition) (not_le.mpr hlt)
  · intro hagree
    refine ⟨?_, fun position hposition ↦ not_lt.mp fun hlt ↦ hagree position hlt hposition⟩
    rw [Set.mem_ofPred_eq, eventsDisagreeAt_iff_of_le le_rfl]
    omega

end FirstDivergence

/-- For numbered traces whose events disagree, the first divergence index is the least position at
which they do exactly when the traces have the same length, or one goes on after all events of the
other have matched. -/
theorem firstDivergenceIndex_isLeast_iff (noiseSyscalls : List String)
    {reference candidate : CanonicalTrace} (hnumbered : Numbered reference.events)
    (hdiffer : ∃ position,
      EventsDisagreeAt noiseSyscalls reference.events candidate.events position) :
    (∃ position,
      (compareLoop noiseSyscalls reference candidate).firstDivergenceIndex = some position ∧
        IsLeast {other | EventsDisagreeAt noiseSyscalls reference.events candidate.events other}
          position) ↔
      reference.eventCount = candidate.eventCount ∨
        ∀ pair ∈ reference.events.zip candidate.events,
          EventsMatch noiseSyscalls pair.1 pair.2 := by
  simp only [compareLoop_eq, ← eventDiverges_eq_false_iff_match]
  unfold compareCanonical
  rw [reference.eventCount_eq, candidate.eventCount_eq]
  by_cases hlength : reference.events.length = candidate.events.length
  · refine iff_of_true ?_ (Or.inl hlength)
    obtain ⟨position, hposition⟩ := hdiffer
    obtain ⟨first, hfirst⟩ := Option.ne_none_iff_exists'.mp
      (firstDivergence_ne_none hlength hposition)
    refine ⟨first, ?_, isLeast_of_firstDivergence hnumbered hfirst⟩
    simp [hlength, hfirst]
  · rw [← isLeast_min_length_iff hlength]
    simp [hlength]

/-- A trace of calls of `close` with the given results. -/
def closeTrace (side : String) (results : List ℤ) : CanonicalTrace where
  programId := "p"
  side := side
  eventCount := results.length
  events := results.mapIdx fun index result ↦ {
    index := index
    sourceEventIndex := index
    syscallName := "close"
    syscallNumber := 3
    args := [.token "fd#0", .int 0, .int 0, .int 0, .int 0, .int 0]
    returnValue := .int result
    errno := if result = 0 then 0 else 9
    durationNs := 0
    outputs := [] }
  finalState := ⟨[], false, none⟩
  processExit := { status := "ok", exitCode := some 0, timedOut := false }
  eventCount_eq := List.length_mapIdx.symm

theorem numbered_closeTrace (side : String) (results : List ℤ) :
    Numbered (closeTrace side results).events := by
  intro position event hevent
  rw [closeTrace, List.getElem?_mapIdx] at hevent
  obtain ⟨result, -, rfl⟩ := Option.map_eq_some_iff.mp hevent
  rfl

/-- The candidate fails at once and has one event, the reference has two. -/
theorem eventsDisagreeAt_zero_closeTrace :
    EventsDisagreeAt [] (closeTrace "reference" [0, 0]).events
      (closeTrace "candidate" [-1]).events 0 := by
  change eventDiverges [] _ _ = true
  decide

theorem firstDivergenceIndex_isLeast_iff_closeTrace :
    (∃ position,
      (compareLoop [] (closeTrace "reference" [0, 0])
        (closeTrace "candidate" [-1])).firstDivergenceIndex = some position ∧
        IsLeast {other | EventsDisagreeAt [] (closeTrace "reference" [0, 0]).events
          (closeTrace "candidate" [-1]).events other} position) ↔
      (closeTrace "reference" [0, 0]).eventCount = (closeTrace "candidate" [-1]).eventCount ∨
        ∀ pair ∈ (closeTrace "reference" [0, 0]).events.zip (closeTrace "candidate" [-1]).events,
          EventsMatch [] pair.1 pair.2 :=
  firstDivergenceIndex_isLeast_iff [] (numbered_closeTrace _ _)
    ⟨0, eventsDisagreeAt_zero_closeTrace⟩

/-- The first divergence index is 1, but the events disagree at position 0. -/
theorem closeTrace_not_isLeast :
    (compareLoop [] (closeTrace "reference" [0, 0])
        (closeTrace "candidate" [-1])).firstDivergenceIndex = some 1 ∧
      EventsDisagreeAt [] (closeTrace "reference" [0, 0]).events
        (closeTrace "candidate" [-1]).events 0 ∧
      ¬∃ position,
        (compareLoop [] (closeTrace "reference" [0, 0])
          (closeTrace "candidate" [-1])).firstDivergenceIndex = some position ∧
          IsLeast {other | EventsDisagreeAt [] (closeTrace "reference" [0, 0]).events
            (closeTrace "candidate" [-1]).events other} position := by
  have hindex : (compareLoop [] (closeTrace "reference" [0, 0])
      (closeTrace "candidate" [-1])).firstDivergenceIndex = some 1 := by
    rw [compareLoop_eq]
    rfl
  refine ⟨hindex, eventsDisagreeAt_zero_closeTrace, ?_⟩
  rintro ⟨position, hposition, hleast⟩
  obtain rfl := Option.some.inj (hindex.symm.trans hposition)
  have hle : 1 ≤ 0 := hleast.2 eventsDisagreeAt_zero_closeTrace
  omega

end SyzAbi.Analyzer

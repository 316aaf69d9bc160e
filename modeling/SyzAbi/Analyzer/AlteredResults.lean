import SyzAbi.Analyzer.Divergence

/-!
# Traces with altered results

Two raw traces of one run, one of which records other results for some of its calls. Up to the first
altered event the two are normalized alike, whatever handles follow. So a reference that matches the
unaltered trace differs from the altered one first at the first alteration that normalization
leaves visible (`firstDivergenceIndex_of_altered`).
-/

set_option autoImplicit false
set_option relaxedAutoImplicit false

namespace SyzAbi.Analyzer

/-! ### Prefixes -/

/-- The first canonical events depend on the first raw events only. -/
theorem take_normalizeEvents {left right : List RawEvent} {count : ℕ}
    (hcommon : left.take count = right.take count) (hleft : count ≤ left.length)
    (hright : count ≤ right.length) :
    ((normalizeEvents left).run {}).1.take count =
      ((normalizeEvents right).run {}).1.take count := by
  have happend : ∀ first second : List RawEvent, ∃ rest,
      ((normalizeEvents (first ++ second)).run {}).1 = ((normalizeEvents first).run {}).1 ++ rest :=
    fun first second ↦ by
      rw [normalizeEvents, List.zipIdx_append, List.mapM_append]
      exact ⟨_, rfl⟩
  have htake : ∀ events : List RawEvent, count ≤ events.length →
      ((normalizeEvents events).run {}).1.take count =
        ((normalizeEvents (events.take count)).run {}).1 := by
    intro events hcount
    obtain ⟨rest, hrest⟩ := happend (events.take count) (events.drop count)
    rw [List.take_append_drop] at hrest
    have hlength : ((normalizeEvents (events.take count)).run {}).1.length = count := by
      rw [normalizeEvents_run, List.length_map, List.length_zipIdx, List.length_take_of_le hcount]
    rw [hrest, List.take_append_of_le_length hlength.ge, List.take_of_length_le hlength.le]
  rw [htake left hleft, htake right hright, hcommon]

/-! ### Alterations -/

/-- The return value of an event is recorded as it is, not as a handle. -/
def PlainReturn (event : RawEvent) : Prop :=
  returnPosition event = .literal event.returnValue

/-- An event whose record differs from the call in a way that the comparison looks at. -/
structure VisiblyAltered (noiseSyscalls : List String) (event altered : RawEvent) : Prop where
  notNoise : event.syscallName ∉ noiseSyscalls
  results : altered.errno ≠ event.errno ∨
    PlainReturn altered ∧ altered.returnValue ≠ event.returnValue

/-- A trace that records other results for some calls of a run. -/
structure AlteredTrace (noiseSyscalls : List String) (raw altered : RawTrace) : Prop where
  events : List.Forall₂ (fun event other ↦ other ≠ event → VisiblyAltered noiseSyscalls event other)
    raw.events altered.events
  processExit : altered.processExit = raw.processExit

theorem returnPosition_eq_literal {event : RawEvent} {value : ℤ}
    (hliteral : returnPosition event = .literal value) : event.returnValue = value := by
  rw [returnPosition] at hliteral
  split_ifs at hliteral with hzero
  · rw [scalarPosition.eq_def] at hliteral
    split at hliteral
    · split_ifs at hliteral
      exact Position.literal.inj hliteral
    · exact Position.literal.inj hliteral
  · rw [not_ne_iff.mp hzero]
    exact Position.literal.inj hliteral

/-- The renderings of an event and of its altered record differ in a result. -/
theorem VisiblyAltered.renderEvent_ne {noiseSyscalls : List String} {event altered : RawEvent}
    (haltered : VisiblyAltered noiseSyscalls event altered) (keys keys' : KeyTables) (index : ℕ) :
    (renderEvent keys event index).returnValue ≠ (renderEvent keys' altered index).returnValue ∨
      (renderEvent keys event index).errno ≠ (renderEvent keys' altered index).errno := by
  rcases haltered.results with herrno | ⟨hplain, hvalue⟩
  · exact .inr herrno.symm
  · refine .inl fun heq ↦ ?_
    have hrendered : (returnPosition event).render keys = .int altered.returnValue := by
      rw [PlainReturn] at hplain
      rw [show (returnPosition event).render keys = (returnPosition altered).render keys' from heq,
        hplain]
      rfl
    cases hposition : returnPosition event with
    | literal value =>
      rw [hposition] at hrendered
      obtain rfl := Scalar.int.inj hrendered
      exact hvalue (returnPosition_eq_literal hposition).symm
    | handle kind value =>
      rw [hposition] at hrendered
      cases hrendered

section Comparison

variable {noiseSyscalls : List String} {raw altered : RawTrace}
  {rawState alteredState : ExternalState} {reference trace other : CanonicalTrace}

/-- Where the first `position` events are unaltered, the reference agrees with the record. -/
theorem not_disagree_of_unaltered (hmatch : TracesMatch noiseSyscalls reference trace)
    (hcanonical : canonicalize raw rawState = .ok trace)
    (hother : canonicalize altered alteredState = .ok other)
    (hlength : raw.events.length = altered.events.length) {position : ℕ}
    (hposition : position < raw.events.length)
    (hunaltered : raw.events.take (position + 1) = altered.events.take (position + 1)) :
    ¬ EventsDisagreeAt noiseSyscalls reference.events other.events position := by
  have hsame : other.events[position]? = trace.events[position]? := by
    have htake := take_normalizeEvents hunaltered hposition (by omega)
    rw [← List.getElem?_take_of_lt (Nat.lt_succ_self position),
      ← List.getElem?_take_of_lt (l := trace.events) (Nat.lt_succ_self position),
      (eq_of_canonicalize hcanonical).2, (eq_of_canonicalize hother).2]
    exact congrArg (·[position]?) htake.symm
  have hagree := (firstDivergence_zip_eq_none_iff noiseSyscalls
    (List.Forall₂.length_eq hmatch.events)).mpr hmatch.events
  rw [firstDivergence_eq_none_iff, forall_zip_iff_not_disagree] at hagree
  have hevents : trace.events.length = raw.events.length := by
    rw [events_of_canonicalize hcanonical, List.length_map, List.length_zipIdx]
  rw [EventsDisagreeAt, hsame]
  exact hagree position (by rw [List.Forall₂.length_eq hmatch.events, hevents]; omega)

/-- At an altered event the reference disagrees with the record. -/
theorem disagree_of_altered (hmatch : TracesMatch noiseSyscalls reference trace)
    (hcanonical : canonicalize raw rawState = .ok trace)
    (hother : canonicalize altered alteredState = .ok other) {position : ℕ}
    {event record : RawEvent} (hevent : raw.events[position]? = some event)
    (hrecord : altered.events[position]? = some record)
    (hvisible : VisiblyAltered noiseSyscalls event record) :
    EventsDisagreeAt noiseSyscalls reference.events other.events position := by
  have hrendered : ∀ {rawTrace : RawTrace} {state : ExternalState} {canonical : CanonicalTrace}
      {found : RawEvent}, canonicalize rawTrace state = .ok canonical →
      rawTrace.events[position]? = some found → canonical.events[position]? =
        some (renderEvent (tablesOf (traceHandles rawTrace.events)) found position) := by
    intro rawTrace state canonical found hok hfound
    rw [events_of_canonicalize hok, List.getElem?_map, List.getElem?_zipIdx, hfound, zero_add]
    rfl
  have htrace := hrendered hcanonical hevent
  obtain ⟨hlength, hpairs⟩ := List.forall₂_iff_get.mp hmatch.events
  obtain ⟨hlt, htraceEvent⟩ := List.getElem?_eq_some_iff.mp htrace
  have hreference : position < reference.events.length := by omega
  have hmatches := hpairs position hreference hlt
  rw [List.get_eq_getElem, List.get_eq_getElem, htraceEvent] at hmatches
  rw [EventsDisagreeAt, List.getElem?_eq_getElem hreference, hrendered hother hrecord]
  change eventDiverges noiseSyscalls reference.events[position] _ = true
  rw [← Bool.not_eq_false, eventDiverges_eq_false_iff]
  rintro ⟨-, -, -, hresults⟩
  have hnotNoise : reference.events[position].syscallName ∉ noiseSyscalls := by
    rw [hmatches.syscallName]
    exact hvisible.notNoise
  obtain ⟨hreturn, herrno⟩ := hmatches.results hnotNoise
  obtain ⟨hreturn', herrno'⟩ := hresults.resolve_left hnotNoise
  rcases hvisible.renderEvent_ne (tablesOf (traceHandles raw.events))
    (tablesOf (traceHandles altered.events)) position with hne | hne
  · exact hne (hreturn.symm.trans hreturn')
  · exact hne (herrno.symm.trans herrno')

/-- The positions at which a trace records another event. -/
def alteredPositions (raw altered : RawTrace) : Set ℕ :=
  {position | raw.events[position]? ≠ altered.events[position]?}

theorem AlteredTrace.length_eq (haltered : AlteredTrace noiseSyscalls raw altered) :
    raw.events.length = altered.events.length :=
  haltered.events.length_eq

/-- The first altered event is the first at which the reference disagrees with the record. -/
theorem isLeast_disagree_of_altered (haltered : AlteredTrace noiseSyscalls raw altered)
    (hmatch : TracesMatch noiseSyscalls reference trace)
    (hcanonical : canonicalize raw rawState = .ok trace)
    (hother : canonicalize altered alteredState = .ok other) {position : ℕ}
    (hleast : IsLeast (alteredPositions raw altered) position) :
    IsLeast {place | EventsDisagreeAt noiseSyscalls reference.events other.events place}
      position := by
  obtain ⟨hposition, hlower⟩ := hleast
  have hlength := haltered.length_eq
  have hlt : position < raw.events.length := by
    by_contra hle
    refine hposition ?_
    rw [List.getElem?_eq_none (by omega), List.getElem?_eq_none (by omega)]
  have hlt' : position < altered.events.length := by omega
  constructor
  · have hpairs := (List.forall₂_iff_get.mp haltered.events).2 position hlt hlt'
    refine disagree_of_altered hmatch hcanonical hother (List.getElem?_eq_getElem hlt)
      (List.getElem?_eq_getElem hlt') (hpairs fun heq ↦ hposition ?_)
    rw [List.getElem?_eq_getElem hlt, List.getElem?_eq_getElem hlt']
    exact congrArg some heq.symm
  · intro place hplace
    by_contra hbefore
    refine not_disagree_of_unaltered hmatch hcanonical hother hlength (by omega) ?_ hplace
    refine List.ext_getElem? fun index ↦ ?_
    by_cases hindex : index < place + 1
    · rw [List.getElem?_take_of_lt hindex, List.getElem?_take_of_lt hindex]
      by_contra hne
      have := hlower hne
      omega
    · rw [List.getElem?_eq_none, List.getElem?_eq_none] <;> rw [List.length_take] <;> omega

/-- A record without an altered event matches as the unaltered trace does. -/
theorem tracesMatch_of_unaltered (haltered : AlteredTrace noiseSyscalls raw altered)
    (hmatch : TracesMatch noiseSyscalls reference trace)
    (hcanonical : canonicalize raw rawState = .ok trace)
    (hother : canonicalize altered rawState = .ok other)
    (hnone : alteredPositions raw altered = ∅) : TracesMatch noiseSyscalls reference other := by
  have hevents : altered.events = raw.events :=
    List.ext_getElem? fun position ↦ Eq.symm (not_not.mp fun hne ↦
      Set.notMem_empty position (hnone ▸ hne))
  have hsame : other.events = trace.events := by
    rw [events_of_canonicalize hcanonical, events_of_canonicalize hother, hevents]
  obtain ⟨-, hstate, hexit⟩ := fields_of_canonicalize hcanonical
  obtain ⟨-, hstate', hexit'⟩ := fields_of_canonicalize hother
  exact {
    eventCount := by rw [hmatch.eventCount, trace.eventCount_eq, other.eventCount_eq, hsame]
    events := hsame ▸ hmatch.events
    finalState := by rw [hmatch.finalState, hstate, hstate']
    processExit := by rw [hmatch.processExit, hexit, hexit', haltered.processExit] }

/-- An equivalent comparison names no divergence. -/
theorem firstDivergenceIndex_of_match (hmatch : TracesMatch noiseSyscalls reference other) :
    (compareCanonical noiseSyscalls reference other).firstDivergenceIndex = none := by
  have hlength : reference.events.length = other.events.length := hmatch.events.length_eq
  rw [compareCanonical, if_neg (not_not.mpr hmatch.eventCount),
    (firstDivergence_zip_eq_none_iff _ hlength).mpr hmatch.events]
  simp [hmatch.processExit]

/-- A reference that matches the unaltered trace differs from the record first at the first altered
event, and matches it when no event is altered. -/
theorem firstDivergenceIndex_of_altered (haltered : AlteredTrace noiseSyscalls raw altered)
    (hnumbered : Numbered reference.events) (hcanonical : canonicalize raw rawState = .ok trace)
    (hother : canonicalize altered rawState = .ok other)
    (hequivalent : (compareCanonical noiseSyscalls reference trace).equivalent = true) :
    ((compareCanonical noiseSyscalls reference other).equivalent = true ↔
        alteredPositions raw altered = ∅) ∧
      ∀ position,
        (compareCanonical noiseSyscalls reference other).firstDivergenceIndex = some position ↔
          IsLeast (alteredPositions raw altered) position := by
  have hmatch := (compareCanonical_equivalent_iff_match _ _ _).mp hequivalent
  rcases (alteredPositions raw altered).eq_empty_or_nonempty with hnone | hsome
  · have hmatch' := tracesMatch_of_unaltered haltered hmatch hcanonical hother hnone
    refine ⟨iff_of_true ((compareCanonical_equivalent_iff_match _ _ _).mpr hmatch') hnone,
      fun position ↦ ?_⟩
    rw [firstDivergenceIndex_of_match hmatch', hnone]
    exact iff_of_false (Option.some_ne_none _ ∘ Eq.symm) fun hleast ↦ hleast.1
  · have hleast : IsLeast (alteredPositions raw altered) (sInf (alteredPositions raw altered)) :=
      ⟨Nat.sInf_mem hsome, fun _ ↦ Nat.sInf_le⟩
    have hdisagree := isLeast_disagree_of_altered haltered hmatch hcanonical hother hleast
    have hcount : reference.eventCount = other.eventCount := by
      rw [hmatch.eventCount, trace.eventCount_eq, other.eventCount_eq,
        events_of_canonicalize hcanonical, events_of_canonicalize hother]
      simp only [List.length_map, List.length_zipIdx, haltered.length_eq]
    obtain ⟨first, hfirst, hfirstLeast⟩ := (firstDivergenceIndex_isLeast_iff noiseSyscalls hnumbered
      ⟨_, hdisagree.1⟩).mpr (.inl hcount)
    rw [compareLoop_eq] at hfirst
    obtain rfl := hfirstLeast.unique hdisagree
    refine ⟨iff_of_false ?_ hsome.ne_empty, fun position ↦ ?_⟩
    · intro hequal
      have hmatch' := (compareCanonical_equivalent_iff_match _ _ _).mp hequal
      rw [firstDivergenceIndex_of_match hmatch'] at hfirst
      cases hfirst
    · rw [hfirst, Option.some_inj]
      exact ⟨fun heq ↦ heq ▸ hleast, fun hother ↦ hleast.unique hother⟩

end Comparison

end SyzAbi.Analyzer

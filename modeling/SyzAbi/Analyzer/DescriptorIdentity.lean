import SyzAbi.Analyzer.Renaming

/-!
# The identity of descriptors in a canonical trace

A descriptor occurs in a trace as an argument, as a return value, or as an fd resource value of an
output (`Site`). Which arguments and return values are descriptors is a matter of the calls
(`DescriptorPositions`); the canonicalizer knows the ones in its tables.

Two occurrences have the same canonical value exactly when they hold the same number in the same
form, and the form is a token or the number itself (`canonicalAt_eq_iff`). So equal descriptors keep
equal canonical values as long as none occurs in both forms. Descriptor 0 may: it stays a number as
an argument and as a return value, and becomes a token as a resource value.
-/

set_option autoImplicit false
set_option relaxedAutoImplicit false

namespace SyzAbi.Analyzer

open CanonicalContext Library.FirstUse

/-! ### Sites -/

/-- A place in an event that may hold a descriptor. -/
inductive Site
  | argument (index : ℕ)
  | returnValue
  | resource (output item : ℕ)
  deriving DecidableEq

/-- The number at a site of a raw event. -/
def RawEvent.valueAt (event : RawEvent) : Site → Option ℤ
  | .argument index => event.args[index]?
  | .returnValue => some event.returnValue
  | .resource output item => do (fdResourceValues (← event.outputs[output]?))[item]?

/-- The canonical value at a site of a canonical event. -/
def CanonicalEvent.valueAt (event : CanonicalEvent) : Site → Option Scalar
  | .argument index => event.args[index]?
  | .returnValue => some event.returnValue
  | .resource output item => do
    let tokens ← (← event.outputs[output]?).fdResources
    return .token (← tokens[item]?)

/-- A site of an event of a trace. -/
structure Occurrence where
  event : ℕ
  site : Site

/-- The canonical value at an occurrence. -/
def CanonicalTrace.canonicalAt (trace : CanonicalTrace) (occurrence : Occurrence) :
    Option Scalar := do
  (← trace.events[occurrence.event]?).valueAt occurrence.site

/-- Which arguments of the calls are descriptors, and which calls return one. None of them is a
process number or an address for the canonicalizer. -/
structure DescriptorPositions where
  args : String → List ℕ
  returns : List String
  args_disjoint : ∀ name, ∀ index ∈ args name,
    index ∉ pidArgPositions name ∧ index ∉ addrArgPositions name
  returns_disjoint : ∀ name ∈ returns, name ∉ pidReturnSyscalls ∧ name ∉ addrReturnSyscalls

/-- The site of an event holds a descriptor, if its number is not negative. -/
def DescriptorPositions.Holds (positions : DescriptorPositions) (event : RawEvent) : Site → Prop
  | .argument index => index ∈ positions.args event.syscallName
  | .returnValue => event.syscallName ∈ positions.returns
  | .resource _ _ => True

/-- The descriptor `descriptor` occurs in a trace. -/
def DescriptorPositions.Occurs (positions : DescriptorPositions) (trace : RawTrace)
    (occurrence : Occurrence) (descriptor : ℤ) : Prop :=
  ∃ event, trace.events[occurrence.event]? = some event ∧
    positions.Holds event occurrence.site ∧
    event.valueAt occurrence.site = some descriptor ∧ 0 ≤ descriptor

/-- The canonicalizer writes a token for a descriptor at a site: always for a resource value, and
for the arguments and return values in its tables unless they are 0. -/
def TokenizedAt (event : RawEvent) (descriptor : ℤ) : Site → Prop
  | .argument index => index ∈ fdArgPositions event.syscallName ∧ descriptor ≠ 0
  | .returnValue => event.syscallName ∈ fdReturnSyscalls ∧ descriptor ≠ 0
  | .resource _ _ => True

/-- The descriptor at an occurrence becomes a token. -/
def Tokenized (trace : RawTrace) (occurrence : Occurrence) (descriptor : ℤ) : Prop :=
  ∃ event, trace.events[occurrence.event]? = some event ∧
    TokenizedAt event descriptor occurrence.site

/-! ### Positions of descriptors -/

/-- The position at a site of a raw event. -/
def RawEvent.positionAt (event : RawEvent) : Site → Option Position
  | .argument index => (argPositions event)[index]?
  | .returnValue => some (returnPosition event)
  | .resource output item => do
    return .handle .fd (← (fdResourceValues (← event.outputs[output]?))[item]?)

/-- The canonical value at a site is the rendered position. -/
theorem valueAt_renderEvent (keys : KeyTables) (event : RawEvent) (index : ℕ) (site : Site) :
    (renderEvent keys event index).valueAt site =
      (event.positionAt site).map (Position.render keys) := by
  cases site with
  | argument index => exact List.getElem?_map
  | returnValue => rfl
  | resource output item =>
    simp only [CanonicalEvent.valueAt, RawEvent.positionAt, renderEvent, List.getElem?_map]
    cases event.outputs[output]? with
    | none => rfl
    | some rawOutput =>
      by_cases hfd : rawOutput.resourceKind = some "fd"
      · simp only [renderOutput, fdResourceValues, hfd, if_true, Option.map_some,
          Option.bind_eq_bind, Option.bind_some, List.getElem?_map]
        cases rawOutput.resourceValues[item]? <;> rfl
      · simp [renderOutput, fdResourceValues, hfd]

/-- The handles of the position at a site are handles of the event. -/
theorem mem_eventHandles_of_positionAt {event : RawEvent} {site : Site} {position : Position}
    (hposition : event.positionAt site = some position) {handle : Handle}
    (hhandle : handle ∈ position.handles) : handle ∈ eventHandles event := by
  rw [eventHandles, List.mem_append, List.mem_append]
  cases site with
  | argument index =>
    exact Or.inl (List.mem_flatMap.mpr ⟨position, List.mem_of_getElem? hposition, hhandle⟩)
  | returnValue =>
    obtain rfl := Option.some.inj hposition
    exact Or.inr (Or.inl hhandle)
  | resource output item =>
    simp only [RawEvent.positionAt, Option.bind_eq_bind, Option.bind_eq_some_iff,
      Option.pure_def, Option.some.injEq] at hposition
    obtain ⟨rawOutput, houtput, value, hvalue, rfl⟩ := hposition
    obtain rfl := List.mem_singleton.mp hhandle
    exact Or.inr (Or.inr (List.mem_flatMap.mpr ⟨rawOutput, List.mem_of_getElem? houtput,
      List.mem_map_of_mem (List.mem_of_getElem? hvalue)⟩))

/-- Positions whose handles are in the tables have equal canonical values only if they are equal. -/
theorem render_inj {keys : KeyTables} {left right : Position}
    (hleft : ∀ handle ∈ left.handles, handle.2 ∈ keys handle.1) :
    left.render keys = right.render keys ↔ left = right := by
  constructor
  · intro hrender
    cases left with
    | literal value =>
      cases right with
      | literal value' => rw [Scalar.int.inj hrender]
      | handle kind value' => exact Scalar.noConfusion hrender
    | handle kind value =>
      cases right with
      | literal value' => exact Scalar.noConfusion hrender
      | handle kind' value' =>
        obtain ⟨rfl, hindex⟩ := tokenText_inj.mp (Scalar.token.inj hrender)
        have hmem : value ∈ keys kind := hleft (kind, value) (List.mem_singleton_self _)
        rw [(List.idxOf_inj hmem).mp hindex]
  · exact congrArg (Position.render keys)

/-- Among the nonnegative numbers only 0 is a sentinel. -/
theorem scalarPosition_of_nonneg {value : ℤ} (hvalue : 0 ≤ value) (kind : HandleKind) :
    scalarPosition value (some kind) =
      if value = 0 then .literal value else .handle kind value := by
  have hsentinel : value ∈ sentinelValues ↔ value = 0 := by
    simp only [sentinelValues, List.mem_cons, List.not_mem_nil, or_false]
    omega
  simp only [scalarPosition, hsentinel]

/-- A descriptor is a literal, or a handle where the canonicalizer writes a token. -/
theorem positionAt_eq (positions : DescriptorPositions) {event : RawEvent} {site : Site}
    (hholds : positions.Holds event site) {descriptor : ℤ}
    (hvalue : event.valueAt site = some descriptor) (hdescriptor : 0 ≤ descriptor)
    [Decidable (TokenizedAt event descriptor site)] :
    event.positionAt site =
      some (if TokenizedAt event descriptor site then .handle .fd descriptor
        else .literal descriptor) := by
  have hscalar := scalarPosition_of_nonneg hdescriptor .fd
  have hliteral : scalarPosition descriptor none = .literal descriptor := rfl
  cases site with
  | argument index =>
    obtain ⟨hpid, haddr⟩ := positions.args_disjoint _ _ hholds
    rw [RawEvent.valueAt] at hvalue
    simp only [RawEvent.positionAt, argPositions, List.getElem?_map, List.getElem?_zipIdx, hvalue,
      Option.map_some, zero_add, argKind, hpid, haddr, false_and, if_false, hdescriptor, and_true]
    by_cases hfd : index ∈ fdArgPositions event.syscallName
    · by_cases hzero : descriptor = 0
      · rw [if_pos hfd, hscalar, if_pos hzero, if_neg fun htoken ↦ htoken.2 hzero]
      · simp only [hfd, if_true, hscalar, TokenizedAt, hzero, ne_eq, not_false_eq_true, and_true,
          if_false]
    · simp only [hfd, if_false, hliteral, TokenizedAt, false_and]
  | returnValue =>
    obtain ⟨hpid, haddr⟩ := positions.returns_disjoint _ hholds
    obtain rfl := Option.some.inj hvalue
    simp only [RawEvent.positionAt, returnPosition, returnKind, hpid, haddr, false_and, if_false,
      hdescriptor, and_true, TokenizedAt]
    by_cases hzero : event.returnValue = 0
    · simp only [hzero, ne_eq, not_true_eq_false, if_false, and_false]
    · by_cases hfd : event.syscallName ∈ fdReturnSyscalls
      · simp only [hfd, hzero, hscalar, ne_eq, not_false_eq_true, if_true, if_false, and_true]
      · simp only [hfd, hzero, hliteral, ne_eq, not_false_eq_true, if_true, if_false, false_and]
  | resource output item =>
    simp only [RawEvent.valueAt, Option.bind_eq_bind, Option.bind_eq_some_iff] at hvalue
    obtain ⟨rawOutput, houtput, hitem⟩ := hvalue
    simp [RawEvent.positionAt, TokenizedAt, houtput, hitem]

/-! ### Equal canonical values -/

section Identity

variable (positions : DescriptorPositions) {rawTrace : RawTrace} {externalState : ExternalState}
  {trace : CanonicalTrace}

/-- The canonical value of a descriptor is its token where it is tokenized, and the descriptor
itself elsewhere. -/
theorem canonicalAt_eq (hcanonical : canonicalize rawTrace externalState = .ok trace)
    {occurrence : Occurrence} {descriptor : ℤ}
    (hoccurs : positions.Occurs rawTrace occurrence descriptor)
    [Decidable (Tokenized rawTrace occurrence descriptor)] :
    ∃ position : Position, position = (if Tokenized rawTrace occurrence descriptor then
        .handle .fd descriptor else .literal descriptor) ∧
      trace.canonicalAt occurrence =
        some (position.render (tablesOf (traceHandles rawTrace.events))) ∧
      ∀ handle ∈ position.handles, handle.2 ∈ tablesOf (traceHandles rawTrace.events) handle.1 := by
  classical
  obtain ⟨event, hevent, hholds, hvalue, hdescriptor⟩ := hoccurs
  have htokenized : Tokenized rawTrace occurrence descriptor ↔
      TokenizedAt event descriptor occurrence.site := by
    unfold Tokenized
    rw [hevent]
    simp
  have hposition := positionAt_eq positions hholds hvalue hdescriptor
  simp only [← htokenized] at hposition
  refine ⟨_, rfl, ?_, fun handle hhandle ↦ ?_⟩
  · rw [CanonicalTrace.canonicalAt, events_of_canonicalize hcanonical, List.getElem?_map,
      List.getElem?_zipIdx, hevent]
    simp only [Option.map_some, Option.bind_eq_bind, Option.bind_some, valueAt_renderEvent,
      hposition]
  · refine mem_tablesOf (List.mem_flatMap.mpr ⟨event, List.mem_of_getElem? hevent, ?_⟩)
    exact mem_eventHandles_of_positionAt hposition hhandle

/-- Two occurrences have equal canonical values exactly when they hold the same descriptor, and both
or neither are tokens. -/
theorem canonicalAt_eq_iff (hcanonical : canonicalize rawTrace externalState = .ok trace)
    {first second : Occurrence} {descriptor descriptor' : ℤ}
    (hfirst : positions.Occurs rawTrace first descriptor)
    (hsecond : positions.Occurs rawTrace second descriptor') :
    trace.canonicalAt first = trace.canonicalAt second ↔
      descriptor = descriptor' ∧
        (Tokenized rawTrace first descriptor ↔ Tokenized rawTrace second descriptor') := by
  classical
  obtain ⟨position, hposition, hvalue, hmem⟩ := canonicalAt_eq positions hcanonical hfirst
  obtain ⟨position', hposition', hvalue', -⟩ := canonicalAt_eq positions hcanonical hsecond
  rw [hvalue, hvalue', Option.some_inj, render_inj hmem, hposition, hposition']
  by_cases htoken : Tokenized rawTrace first descriptor
  · by_cases htoken' : Tokenized rawTrace second descriptor' <;> simp [htoken, htoken']
  · by_cases htoken' : Tokenized rawTrace second descriptor' <;> simp [htoken, htoken']

/-- Equal descriptors have equal canonical values, and only equal ones, exactly when no descriptor
is kept as a number at one occurrence and tokenized at another. -/
theorem canonicalize_identity_iff (hcanonical : canonicalize rawTrace externalState = .ok trace) :
    (∀ first second descriptor descriptor', positions.Occurs rawTrace first descriptor →
      positions.Occurs rawTrace second descriptor' →
        (trace.canonicalAt first = trace.canonicalAt second ↔ descriptor = descriptor')) ↔
      ∀ first second descriptor, positions.Occurs rawTrace first descriptor →
        positions.Occurs rawTrace second descriptor →
          (Tokenized rawTrace first descriptor ↔ Tokenized rawTrace second descriptor) := by
  constructor
  · intro hidentity first second descriptor hfirst hsecond
    have hequal := (hidentity first second descriptor descriptor hfirst hsecond).mpr rfl
    exact ((canonicalAt_eq_iff positions hcanonical hfirst hsecond).mp hequal).2
  · intro hforms first second descriptor descriptor' hfirst hsecond
    rw [canonicalAt_eq_iff positions hcanonical hfirst hsecond]
    constructor
    · exact And.left
    · rintro rfl
      exact ⟨rfl, hforms first second descriptor hfirst hsecond⟩

end Identity

/-- The positions in the tables of the canonicalizer. -/
def tablePositions : DescriptorPositions where
  args := fdArgPositions
  returns := fdReturnSyscalls
  args_disjoint := by
    intro name index hindex
    unfold fdArgPositions at hindex
    split at hindex
    case h_11 => cases hindex
    all_goals
      obtain rfl := List.mem_singleton.mp hindex
      decide
  returns_disjoint := by decide

/-- An occurrence among the resource values of an output. -/
def Occurrence.IsResource (occurrence : Occurrence) : Prop :=
  ∃ output item, occurrence.site = .resource output item

/-- At the positions in the tables everything but the arguments and return values 0 is tokenized. -/
theorem tokenized_tablePositions {rawTrace : RawTrace} {occurrence : Occurrence} {descriptor : ℤ}
    (hoccurs : tablePositions.Occurs rawTrace occurrence descriptor) :
    Tokenized rawTrace occurrence descriptor ↔ occurrence.IsResource ∨ descriptor ≠ 0 := by
  obtain ⟨event, hevent, hholds, -, -⟩ := hoccurs
  obtain ⟨place, site⟩ := occurrence
  have htokenized : Tokenized rawTrace ⟨place, site⟩ descriptor ↔
      TokenizedAt event descriptor site := by
    simp [Tokenized, hevent]
  rw [htokenized]
  cases site with
  | argument index =>
    have htable : index ∈ fdArgPositions event.syscallName := hholds
    simp [TokenizedAt, Occurrence.IsResource, htable]
  | returnValue =>
    have htable : event.syscallName ∈ fdReturnSyscalls := hholds
    simp [TokenizedAt, Occurrence.IsResource, htable]
  | resource output item => simp [TokenizedAt, Occurrence.IsResource]

/-- For the positions in the tables only descriptor 0 may have both forms: as a resource value, and
as an argument or a return value. -/
theorem sameForm_tablePositions_iff (rawTrace : RawTrace) :
    (∀ first second descriptor, tablePositions.Occurs rawTrace first descriptor →
      tablePositions.Occurs rawTrace second descriptor →
        (Tokenized rawTrace first descriptor ↔ Tokenized rawTrace second descriptor)) ↔
      ∀ first second, tablePositions.Occurs rawTrace first 0 →
        tablePositions.Occurs rawTrace second 0 → first.IsResource → second.IsResource := by
  constructor
  · intro hforms first second hfirst hsecond hresource
    have htokenized := (tokenized_tablePositions hfirst).mpr (Or.inl hresource)
    have htokenized := (hforms first second 0 hfirst hsecond).mp htokenized
    exact ((tokenized_tablePositions hsecond).mp htokenized).resolve_right (not_not.mpr rfl)
  · intro hzero first second descriptor hfirst hsecond
    rw [tokenized_tablePositions hfirst, tokenized_tablePositions hsecond]
    by_cases hdescriptor : descriptor = 0
    · subst hdescriptor
      simp only [ne_eq, not_true_eq_false, or_false]
      exact ⟨hzero first second hfirst hsecond, hzero second first hsecond hfirst⟩
    · simp [hdescriptor]

/-- A program whose standard input is closed: `pipe2` chooses the descriptors 0 and 3, and the
program reads from the first. -/
def closedInputTrace : RawTrace where
  programId := "p"
  side := "reference"
  runId := "r"
  status := "ok"
  events := [
    { eventIndex := 0
      syscallName := "pipe2"
      syscallNumber := 293
      args := [4096, 0, 0, 0, 0, 0]
      returnValue := 0
      errno := 0
      startNs := 0
      endNs := 1
      outputs := [{
        label := "pipefd"
        argIndex := 0
        length := 8
        previewHex := "0000000003000000"
        sha256 := ""
        resourceKind := some "fd"
        resourceValues := [0, 3] }] },
    { eventIndex := 1
      syscallName := "read"
      syscallNumber := 0
      args := [0, 8192, 4, 0, 0, 0]
      returnValue := -1
      errno := 11
      startNs := 2
      endNs := 3
      outputs := [] }]
  processExit := { status := "ok", exitCode := some 0, timedOut := false }

theorem canonicalize_closedInputTrace :
    ∃ trace, canonicalize closedInputTrace ⟨[], false, none⟩ = .ok trace :=
  canonicalize_ok rfl _

/-- The first descriptor that `pipe2` writes. -/
def pipeOccurrence : Occurrence := ⟨0, .resource 0 0⟩

/-- The descriptor that the program reads from. -/
def readOccurrence : Occurrence := ⟨1, .argument 0⟩

theorem occurs_pipeOccurrence : tablePositions.Occurs closedInputTrace pipeOccurrence 0 :=
  ⟨_, rfl, trivial, rfl, le_rfl⟩

theorem occurs_readOccurrence : tablePositions.Occurs closedInputTrace readOccurrence 0 :=
  ⟨_, rfl, List.mem_singleton_self 0, rfl, le_rfl⟩

theorem canonicalize_identity_iff_closedInputTrace :
    ∃ trace, canonicalize closedInputTrace ⟨[], false, none⟩ = .ok trace ∧
      ((∀ first second descriptor descriptor',
        tablePositions.Occurs closedInputTrace first descriptor →
          tablePositions.Occurs closedInputTrace second descriptor' →
            (trace.canonicalAt first = trace.canonicalAt second ↔ descriptor = descriptor')) ↔
        ∀ first second descriptor, tablePositions.Occurs closedInputTrace first descriptor →
          tablePositions.Occurs closedInputTrace second descriptor →
            (Tokenized closedInputTrace first descriptor ↔
              Tokenized closedInputTrace second descriptor)) := by
  obtain ⟨trace, hcanonical⟩ := canonicalize_closedInputTrace
  exact ⟨trace, hcanonical, canonicalize_identity_iff tablePositions hcanonical⟩

/-- The pipe's descriptor 0 and the descriptor 0 that is read are the same descriptor, but only one
of them becomes a token. -/
theorem closedInputTrace_not_identity :
    ∃ trace, canonicalize closedInputTrace ⟨[], false, none⟩ = .ok trace ∧
      tablePositions.Occurs closedInputTrace pipeOccurrence 0 ∧
      tablePositions.Occurs closedInputTrace readOccurrence 0 ∧
      trace.canonicalAt pipeOccurrence ≠ trace.canonicalAt readOccurrence := by
  obtain ⟨trace, hcanonical⟩ := canonicalize_closedInputTrace
  refine ⟨trace, hcanonical, occurs_pipeOccurrence, occurs_readOccurrence, fun hequal ↦ ?_⟩
  have hforms := (canonicalAt_eq_iff tablePositions hcanonical occurs_pipeOccurrence
    occurs_readOccurrence).mp hequal
  obtain ⟨event, -, -, hnonzero⟩ := hforms.2.mp ⟨_, rfl, trivial⟩
  exact hnonzero rfl

end SyzAbi.Analyzer

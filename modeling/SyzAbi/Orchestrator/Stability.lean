import SyzAbi.Analyzer.Divergence
import SyzAbi.Analyzer.Invariance
import SyzAbi.Library.JsonDumps
import SyzAbi.Library.JsonView
import SyzAbi.Tools.GuestState

/-!
# The hash of a canonical trace

`orchestrator/stability.py` on the JSON payload of a canonical trace. `stableValue` removes the
timing keys at every depth, and `canonicalTraceHash` digests the text of what is left. The payload
of a canonical trace is `traceValue`; its stable view says everything about the trace but the
durations (`stableValue_traceValue_eq_iff`), so the hash is the one the scheduler computes from the
records.

As long as the text and the digest tell two payloads apart, equal hashes mean equal payloads apart
from timing. Two runs of one side that differ in timing, in their run ids and in the names of
handles therefore have one hash. The payload names its side, so a reference trace and a candidate
trace never have one.
-/

set_option autoImplicit false
set_option relaxedAutoImplicit false

namespace SyzAbi.Orchestrator.Stability

open Analyzer Agent Tools Library.Json Library.FirstUse

/-! ### The stable view -/

/-- The keys that `_stable_view` leaves out. -/
def timingKeys : List Text :=
  [PyStr.ofString "duration_ns", PyStr.ofString "start_ns", PyStr.ofString "end_ns"]

def isTiming (key : Text) : Bool := key ∈ timingKeys

/-- `_stable_view`. -/
def stableValue (payload : Value) : Value := withoutKeys isTiming payload

/-- `canonical_trace_hash`: the digest is `sha256`. -/
def canonicalTraceHash (sha256 : Text → String) (payload : Value) : String :=
  sha256 (dumps (stableValue payload))

/-- `json.dumps` and the digest tell two values apart. -/
structure Distinguishes (sha256 : Text → String) (left right : Value) : Prop where
  dumps : dumps left = dumps right → left = right
  digest : sha256 (Library.Json.dumps left) = sha256 (Library.Json.dumps right) →
    Library.Json.dumps left = Library.Json.dumps right

/-- Equal hashes mean equal stable views. -/
theorem canonicalTraceHash_eq_iff {sha256 : Text → String} {left right : Value}
    (hdistinct : Distinguishes sha256 (stableValue left) (stableValue right)) :
    canonicalTraceHash sha256 left = canonicalTraceHash sha256 right ↔
      stableValue left = stableValue right :=
  ⟨fun hhash ↦ hdistinct.dumps (hdistinct.digest hhash), congrArg fun view ↦ sha256 (dumps view)⟩

/-! ### Payloads -/

/-- An object whose members are listed in the order of their keys. -/
def sortedObject (members : List (String × Value)) : Value :=
  .obj (members.map fun entry ↦ (PyStr.ofString entry.1, entry.2))

def scalarValue : Scalar → Value
  | .int value => .int value
  | .token text => .str (PyStr.ofString text)

/-- The dictionary of a normalized output. -/
def outputValue (output : CanonicalOutput) : Value :=
  sortedObject (
    [("arg_index", .int output.argIndex), ("label", .str (PyStr.ofString output.label)),
      ("length", .int output.length), ("preview_hex", .str (PyStr.ofString output.previewHex))] ++
    (match output.fdResources with
      | some tokens => [("resource_kind", .str (PyStr.ofString "fd")),
          ("resource_values", .arr (tokens.map fun token ↦ .str (PyStr.ofString token)))]
      | none => []) ++
    [("sha256", .str (PyStr.ofString output.sha256))])

/-- The dictionary of a normalized event. -/
def eventValue (event : CanonicalEvent) : Value :=
  sortedObject
    [("args", .arr (event.args.map scalarValue)),
      ("duration_ns", .int event.durationNs),
      ("errno", .int event.errno),
      ("index", .int event.index),
      ("outputs", .arr (event.outputs.map outputValue)),
      ("return_value", scalarValue event.returnValue),
      ("source_event_index", .int event.sourceEventIndex),
      ("syscall_name", .str (PyStr.ofString event.syscallName)),
      ("syscall_number", .int event.syscallNumber)]

/-- The `process_exit` dictionary. -/
def processExitValue (processExit : ProcessExit) : Value :=
  sortedObject
    [("exit_code", match processExit.exitCode with
        | some code => .int code
        | none => .null),
      ("status", .str (PyStr.ofString processExit.status)),
      ("timed_out", .bool processExit.timedOut)]

/-- The payload that `canonicalize` returns. -/
def traceValue (trace : CanonicalTrace) : Value :=
  sortedObject
    [("event_count", .int trace.eventCount),
      ("events", .arr (trace.events.map eventValue)),
      ("final_state", externalStateValue trace.finalState),
      ("process_exit", processExitValue trace.processExit),
      ("program_id", .str (PyStr.ofString trace.programId)),
      ("side", .str (PyStr.ofString trace.side))]

/-! ### Stable views of payloads -/

@[simp] theorem stableValue_str (text : Text) : stableValue (.str text) = .str text := rfl

@[simp] theorem stableValue_int (value : ℤ) : stableValue (.int value) = .int value := rfl

/-- The keys of the source as strings. -/
def timingNames : List String := ["duration_ns", "start_ns", "end_ns"]

theorem isTiming_ofString (key : String) :
    isTiming (PyStr.ofString key) = decide (key ∈ timingNames) := by
  simp [isTiming, timingKeys, timingNames]

/-- The stable view of an object keeps the members whose keys are no timing keys. -/
theorem stableValue_sortedObject (members : List (String × Value)) :
    stableValue (sortedObject members) =
      sortedObject ((members.filter fun entry ↦ entry.1 ∉ timingNames).map fun entry ↦
        (entry.1, stableValue entry.2)) := by
  rw [stableValue, sortedObject, withoutKeys, sortedObject]
  congr 1
  induction members with
  | nil => rfl
  | cons entry rest ih =>
    rw [List.map_cons, withoutKeysMembers, isTiming_ofString, ih]
    by_cases htiming : entry.1 ∈ timingNames
    · simp [htiming]
    · simp [htiming, stableValue]

/-- The stable view of a dictionary without timing keys is the dictionary, if its values are
stable. -/
theorem stableValue_dict {members : List (String × Value)}
    (hmembers : ∀ entry ∈ members, entry.1 ∉ timingNames ∧ stableValue entry.2 = entry.2) :
    stableValue (dict members) = dict members := by
  rw [stableValue, dict, withoutKeys]
  congr 1
  refine withoutKeysMembers_of_forall isTiming fun member hmember ↦ ?_
  obtain ⟨entry, hentry, rfl⟩ :=
    List.mem_map.mp ((mem_setMembers hmember).resolve_right List.not_mem_nil)
  obtain ⟨hkey, hvalue⟩ := hmembers entry hentry
  refine ⟨?_, hvalue⟩
  rw [isTiming_ofString]
  exact decide_eq_false hkey

theorem stableValue_arr_map {α : Type} {f : α → Value} (hf : ∀ item, stableValue (f item) = f item)
    (items : List α) : stableValue (.arr (items.map f)) = .arr (items.map f) := by
  refine withoutKeys_arr_of_forall isTiming fun item hitem ↦ ?_
  obtain ⟨source, -, rfl⟩ := List.mem_map.mp hitem
  exact hf source

theorem stableValue_scalarValue (scalar : Scalar) :
    stableValue (scalarValue scalar) = scalarValue scalar := by
  cases scalar <;> rfl

theorem stableValue_textValue (text : Option String) :
    stableValue (textValue text) = textValue text := by
  cases text <;> rfl

theorem stableValue_fileItemValue (item : FileItem) :
    stableValue (fileItemValue item) = fileItemValue item := by
  refine stableValue_dict fun entry hentry ↦ ?_
  cases hreadError : item.readError with
  | none =>
    simp only [hreadError, List.append_nil, List.mem_cons, List.not_mem_nil, or_false] at hentry
    rcases hentry with rfl | rfl | rfl
    · exact ⟨by simp [timingNames], rfl⟩
    · exact ⟨by simp [timingNames], rfl⟩
    · exact ⟨by simp [timingNames], stableValue_textValue item.sha256⟩
  | some text =>
    simp only [hreadError, List.cons_append, List.nil_append, List.mem_cons, List.not_mem_nil,
      or_false] at hentry
    rcases hentry with rfl | rfl | rfl | rfl
    · exact ⟨by simp [timingNames], rfl⟩
    · exact ⟨by simp [timingNames], rfl⟩
    · exact ⟨by simp [timingNames], stableValue_textValue item.sha256⟩
    · exact ⟨by simp [timingNames], rfl⟩

theorem stableValue_externalStateValue (state : ExternalState) :
    stableValue (externalStateValue state) = externalStateValue state := by
  refine stableValue_dict fun entry hentry ↦ ?_
  have hfiles := stableValue_arr_map stableValue_fileItemValue state.files
  rw [List.mem_append, List.mem_append, List.mem_singleton] at hentry
  rcases hentry with (rfl | htruncated) | hreadError
  · exact ⟨by simp [timingNames], hfiles⟩
  · by_cases h : state.truncated = true
    · rw [if_pos h, List.mem_singleton] at htruncated
      exact htruncated ▸ ⟨by simp [timingNames], rfl⟩
    · rw [if_neg h] at htruncated
      cases htruncated
  · cases h : state.readError with
    | none =>
      rw [h] at hreadError
      cases hreadError
    | some text =>
      rw [h] at hreadError
      exact List.mem_singleton.mp hreadError ▸ ⟨by simp [timingNames], rfl⟩

theorem stableValue_outputValue (output : CanonicalOutput) :
    stableValue (outputValue output) = outputValue output := by
  have htokens : ∀ tokens : List String,
      stableValue (.arr (tokens.map fun token ↦ .str (PyStr.ofString token))) =
        .arr (tokens.map fun token ↦ .str (PyStr.ofString token)) :=
    stableValue_arr_map fun _ ↦ rfl
  cases hresources : output.fdResources with
  | none =>
    simp only [outputValue, hresources, stableValue_sortedObject]
    rfl
  | some tokens =>
    simp only [outputValue, hresources, stableValue_sortedObject]
    simp only [List.cons_append, List.nil_append, List.filter_cons, timingNames]
    simp [htokens]

/-- The stable view of an event: everything but its duration. -/
def stableEventValue (event : CanonicalEvent) : Value :=
  sortedObject
    [("args", .arr (event.args.map scalarValue)),
      ("errno", .int event.errno),
      ("index", .int event.index),
      ("outputs", .arr (event.outputs.map outputValue)),
      ("return_value", scalarValue event.returnValue),
      ("source_event_index", .int event.sourceEventIndex),
      ("syscall_name", .str (PyStr.ofString event.syscallName)),
      ("syscall_number", .int event.syscallNumber)]

theorem stableValue_eventValue (event : CanonicalEvent) :
    stableValue (eventValue event) = stableEventValue event := by
  have hargs := stableValue_arr_map stableValue_scalarValue event.args
  have houtputs := stableValue_arr_map stableValue_outputValue event.outputs
  have hreturn := stableValue_scalarValue event.returnValue
  rw [eventValue, stableValue_sortedObject, stableEventValue]
  simp [timingNames, hargs, houtputs, hreturn]

theorem stableValue_processExitValue (processExit : ProcessExit) :
    stableValue (processExitValue processExit) = processExitValue processExit := by
  rw [processExitValue, stableValue_sortedObject]
  cases processExit.exitCode with
  | none => rfl
  | some code => rfl

/-- The stable view of a trace: everything but the durations of its events. -/
theorem stableValue_traceValue (trace : CanonicalTrace) :
    stableValue (traceValue trace) =
      sortedObject
        [("event_count", .int trace.eventCount),
          ("events", .arr (trace.events.map stableEventValue)),
          ("final_state", externalStateValue trace.finalState),
          ("process_exit", processExitValue trace.processExit),
          ("program_id", .str (PyStr.ofString trace.programId)),
          ("side", .str (PyStr.ofString trace.side))] := by
  have hevents : stableValue (.arr (trace.events.map eventValue)) =
      .arr (trace.events.map stableEventValue) := by
    rw [stableValue, withoutKeys, withoutKeysItems_eq_map, List.map_map]
    exact congrArg Value.arr (List.map_congr_left fun event _ ↦ stableValue_eventValue event)
  have hstate := stableValue_externalStateValue trace.finalState
  have hexit := stableValue_processExitValue trace.processExit
  rw [traceValue, stableValue_sortedObject]
  simp [timingNames, hevents, hstate, hexit]

/-! ### Payloads determine records -/

theorem sortedObject_inj {members members' : List (String × Value)} :
    sortedObject members = sortedObject members' ↔ members = members' := by
  constructor
  · intro heq
    refine Function.Injective.list_map ?_ (Value.obj.inj heq)
    rintro ⟨key, value⟩ ⟨key', value'⟩ hentry
    obtain ⟨hkey, hvalue⟩ := Prod.mk.inj hentry
    exact Prod.ext (ofString_inj.mp hkey) hvalue
  · exact congrArg sortedObject

theorem scalarValue_injective : Function.Injective scalarValue := by
  intro left right heq
  cases left with
  | int value =>
    cases right with
    | int value' => rw [Value.int.inj heq]
    | token text' => cases heq
  | token text =>
    cases right with
    | int value' => cases heq
    | token text' => rw [ofString_inj.mp (Value.str.inj heq)]

theorem tokenValues_injective :
    Function.Injective fun tokens : List String ↦
      tokens.map fun token ↦ Value.str (PyStr.ofString token) :=
  Function.Injective.list_map fun _ _ heq ↦ ofString_inj.mp (Value.str.inj heq)

theorem outputValue_injective : Function.Injective outputValue := by
  intro left right heq
  rw [outputValue, outputValue, sortedObject_inj] at heq
  obtain ⟨label, argIndex, length, previewHex, sha256, fdResources⟩ := left
  obtain ⟨label', argIndex', length', previewHex', sha256', fdResources'⟩ := right
  cases fdResources with
  | none =>
    cases fdResources' with
    | none => simpa [and_comm, and_left_comm, and_assoc] using heq
    | some tokens' => simp at heq
  | some tokens =>
    cases fdResources' with
    | none => simp at heq
    | some tokens' =>
      have htokens : (tokens.map fun token ↦ Value.str (PyStr.ofString token)) =
          (tokens'.map fun token ↦ Value.str (PyStr.ofString token)) ↔ tokens = tokens' :=
        tokenValues_injective.eq_iff
      simp only [List.cons_append, List.nil_append, List.cons.injEq, Prod.mk.injEq, true_and,
        and_true, Value.int.injEq, Value.str.injEq, Value.arr.injEq, ofString_inj, Nat.cast_inj,
        htokens] at heq
      obtain ⟨rfl, rfl, rfl, rfl, rfl, rfl⟩ := heq
      rfl

theorem processExitValue_injective : Function.Injective processExitValue := by
  intro left right heq
  rw [processExitValue, processExitValue, sortedObject_inj] at heq
  obtain ⟨status, exitCode, timedOut⟩ := left
  obtain ⟨status', exitCode', timedOut'⟩ := right
  cases exitCode <;> cases exitCode' <;> simp at heq ⊢ <;> tauto

/-- The stable views of two events are equal when the events differ in their durations only. -/
theorem stableEventValue_eq_iff {left right : CanonicalEvent} :
    stableEventValue left = stableEventValue right ↔
      { left with durationNs := 0 } = { right with durationNs := 0 } := by
  rw [stableEventValue, stableEventValue, sortedObject_inj]
  simp only [List.cons.injEq, Prod.mk.injEq, true_and, and_true, Value.int.injEq, Value.str.injEq,
    Value.arr.injEq, ofString_inj, Nat.cast_inj, scalarValue_injective.list_map.eq_iff,
    outputValue_injective.list_map.eq_iff, scalarValue_injective.eq_iff, CanonicalEvent.mk.injEq]
  tauto

/-- The stable views of the payloads are equal exactly when the stable views of the records are. -/
theorem stableValue_traceValue_eq_iff {left right : CanonicalTrace} :
    stableValue (traceValue left) = stableValue (traceValue right) ↔
      stableView left = stableView right := by
  have hevents : left.events.map stableEventValue = right.events.map stableEventValue ↔
      (left.events.map fun event ↦ { event with durationNs := 0 }) =
        right.events.map fun event ↦ { event with durationNs := 0 } := by
    rw [map_eq_map_iff_forall₂, map_eq_map_iff_forall₂]
    simp only [stableEventValue_eq_iff]
  rw [stableValue_traceValue, stableValue_traceValue, sortedObject_inj]
  simp only [List.cons.injEq, Prod.mk.injEq, true_and, and_true, Value.int.injEq, Value.str.injEq,
    Value.arr.injEq, ofString_inj, Nat.cast_inj, hevents, externalStateValue_injective.eq_iff,
    processExitValue_injective.eq_iff, stableView, CanonicalTrace.mk.injEq]
  tauto

/-! ### Runs that differ in timing and handles -/

/-- Two raw events differ in their times and in the names of their handles only. -/
structure SameCall (ρ : HandleRenaming) (left right : RawEvent) : Prop where
  eventIndex : left.eventIndex = right.eventIndex
  syscallNumber : left.syscallNumber = right.syscallNumber
  related : EventsRelated ρ left right
  marks : List.Forall₂ SameMark left.outputs right.outputs

/-- Two raw runs of one program on one side differ in their run ids, their times and a one-to-one
renaming of their handles only. -/
structure SameRun (left right : RawTrace) : Prop where
  programId : left.programId = right.programId
  side : left.side = right.side
  processExit : left.processExit = right.processExit
  events : ∃ ρ : HandleRenaming, List.Forall₂ (SameCall ρ) left.events right.events

/-- Related lists are related with their positions. -/
theorem forall₂_zipIdx {α β : Type} {R : α → β → Prop} {left : List α} {right : List β}
    (hrelated : List.Forall₂ R left right) (start : ℕ) :
    List.Forall₂ (fun entry entry' ↦ R entry.1 entry'.1 ∧ entry.2 = entry'.2)
      (left.zipIdx start) (right.zipIdx start) := by
  induction hrelated generalizing start with
  | nil => exact List.Forall₂.nil
  | cons hitem _ ih => exact List.Forall₂.cons ⟨hitem, rfl⟩ (ih (start + 1))

/-- What `canonicalize` takes over. -/
theorem header_of_canonicalize {rawTrace : RawTrace} {externalState : ExternalState}
    {trace : CanonicalTrace} (hcanonical : canonicalize rawTrace externalState = .ok trace) :
    trace.programId = rawTrace.programId ∧ trace.side = rawTrace.side ∧
      trace.finalState = externalState ∧ trace.processExit = rawTrace.processExit := by
  rw [(eq_of_canonicalize hcanonical).2]
  exact ⟨rfl, rfl, rfl, rfl⟩

/-- The stable views of the canonical traces of such runs are equal. -/
theorem SameRun.stableView_eq {left right : RawTrace} {externalState : ExternalState}
    {canonicalLeft canonicalRight : CanonicalTrace} (hsame : SameRun left right)
    (hleft : canonicalize left externalState = .ok canonicalLeft)
    (hright : canonicalize right externalState = .ok canonicalRight) :
    stableView canonicalLeft = stableView canonicalRight := by
  obtain ⟨hprogram, hside, hexit, ρ, hevents⟩ := hsame
  obtain ⟨hprogramLeft, hsideLeft, hstateLeft, hexitLeft⟩ := header_of_canonicalize hleft
  obtain ⟨hprogramRight, hsideRight, hstateRight, hexitRight⟩ := header_of_canonicalize hright
  have htables : TablesRelated ρ (tablesOf (traceHandles left.events))
      (tablesOf (traceHandles right.events)) :=
    tablesRelated_tablesOf (List.rel_flatMap hevents fun _ _ h ↦ h.related.handles)
  -- the events agree, and the other fields are copied from the raw events
  have hrendered : ∀ event event' index, SameCall ρ event event' →
      { renderEvent (tablesOf (traceHandles left.events)) event index with durationNs := 0 } =
        { renderEvent (tablesOf (traceHandles right.events)) event' index with
          durationNs := 0 } := by
    intro event event' index hcall
    have hagree := hcall.related.agree htables hcall.marks
    have hargs := hagree.args
    have hreturn := hagree.returnValue
    have houtputs := hagree.outputs
    simp only [renderEvent] at hargs hreturn houtputs ⊢
    rw [hcall.eventIndex, hcall.syscallNumber, hcall.related.name, hcall.related.errno, hargs,
      hreturn, houtputs]
  have hview : (canonicalLeft.events.map fun event ↦ { event with durationNs := 0 }) =
      canonicalRight.events.map fun event ↦ { event with durationNs := 0 } := by
    rw [events_of_canonicalize hleft, events_of_canonicalize hright, List.map_map, List.map_map,
      map_eq_map_iff_forall₂]
    refine (forall₂_zipIdx hevents 0).imp fun entry entry' hentry ↦ ?_
    obtain ⟨hcall, hindex⟩ := hentry
    simp only [Function.comp_apply, hindex]
    exact hrendered entry.1 entry'.1 entry'.2 hcall
  have hcount : canonicalLeft.eventCount = canonicalRight.eventCount := by
    have hlength := congrArg List.length hview
    rwa [List.length_map, List.length_map, ← canonicalLeft.eventCount_eq,
      ← canonicalRight.eventCount_eq] at hlength
  simp only [stableView, CanonicalTrace.mk.injEq]
  exact ⟨by rw [hprogramLeft, hprogramRight, hprogram], by rw [hsideLeft, hsideRight, hside],
    hcount, hview, by rw [hstateLeft, hstateRight], by rw [hexitLeft, hexitRight, hexit]⟩

/-! ### What the gate sees -/

/-- Hashes are equal exactly for payloads that are equal apart from timing entries at any depth, as
far as the text and the digest tell the stable views apart. So runs of one side that differ in
timing, run id and the names of their handles have equal hashes. -/
theorem canonicalTraceHash_sees_stable_content (sha256 : Text → String) :
    (∀ left right : Value, Distinguishes sha256 (stableValue left) (stableValue right) →
      (canonicalTraceHash sha256 left = canonicalTraceHash sha256 right ↔
        EqualApartFrom isTiming left right)) ∧
    ∀ (left right : RawTrace) (externalState : ExternalState)
      (canonicalLeft canonicalRight : CanonicalTrace), SameRun left right →
      canonicalize left externalState = .ok canonicalLeft →
      canonicalize right externalState = .ok canonicalRight →
        canonicalTraceHash sha256 (traceValue canonicalLeft) =
          canonicalTraceHash sha256 (traceValue canonicalRight) := by
  constructor
  · intro left right hdistinct
    rw [canonicalTraceHash_eq_iff hdistinct, stableValue, stableValue, withoutKeys_eq_iff]
  · intro left right externalState canonicalLeft canonicalRight hsame hleft hright
    have hview := stableValue_traceValue_eq_iff.mpr (hsame.stableView_eq hleft hright)
    exact congrArg (fun view ↦ sha256 (dumps view)) hview

/-- The digest of the text of an empty object. -/
def emptyObjectDigest : Text → String := fun _ ↦
  "44136fa355b3678a1146ad16f7e8649e94fb4fc21fe77e8310c060f61caaff8a"

/-- A run that closes a descriptor. -/
def closeRun (runId : String) (descriptor startNs : ℤ) : RawTrace where
  programId := "p"
  side := "reference"
  runId := runId
  status := "ok"
  events := [{
    eventIndex := 0
    syscallName := "close"
    syscallNumber := 3
    args := [descriptor]
    returnValue := 0
    errno := 0
    startNs := startNs
    endNs := startNs + 7
    outputs := [] }]
  processExit := { status := "ok", exitCode := some 0, timedOut := false }

theorem sameRun_closeRun : SameRun (closeRun "ref0" 3 100) (closeRun "ref1" 5 200) := by
  let ρ : HandleRenaming := fun _ ↦ (Equiv.swap (3 : ℤ) 5).toPEquiv
  refine ⟨rfl, rfl, rfl, ρ, List.Forall₂.cons ⟨rfl, rfl, ?_, List.Forall₂.nil⟩ List.Forall₂.nil⟩
  refine ⟨rfl, rfl, List.Forall₂.cons ?_ List.Forall₂.nil, .literal 0, List.Forall₂.nil⟩
  have hswap : (5 : ℤ) ∈ ρ .fd 3 := by simp [ρ, Equiv.toPEquiv]
  exact .handle .fd hswap

theorem canonicalTraceHash_sees_stable_content_closeRun :
    (canonicalTraceHash emptyObjectDigest (.obj [(PyStr.ofString "duration_ns", .int 100)]) =
        canonicalTraceHash emptyObjectDigest (.obj [(PyStr.ofString "start_ns", .int 7)]) ↔
      EqualApartFrom isTiming (.obj [(PyStr.ofString "duration_ns", .int 100)])
        (.obj [(PyStr.ofString "start_ns", .int 7)])) ∧
    ∃ canonicalLeft canonicalRight,
      canonicalize (closeRun "ref0" 3 100) ⟨[], false, none⟩ = .ok canonicalLeft ∧
      canonicalize (closeRun "ref1" 5 200) ⟨[], false, none⟩ = .ok canonicalRight ∧
      canonicalTraceHash emptyObjectDigest (traceValue canonicalLeft) =
        canonicalTraceHash emptyObjectDigest (traceValue canonicalRight) := by
  obtain ⟨hcontent, hruns⟩ := canonicalTraceHash_sees_stable_content emptyObjectDigest
  obtain ⟨canonicalLeft, hleft⟩ := canonicalize_ok
    (show validateRawTrace (closeRun "ref0" 3 100) = .ok () from rfl) ⟨[], false, none⟩
  obtain ⟨canonicalRight, hright⟩ := canonicalize_ok
    (show validateRawTrace (closeRun "ref1" 5 200) = .ok () from rfl) ⟨[], false, none⟩
  exact ⟨hcontent _ _ ⟨fun _ ↦ rfl, fun _ ↦ rfl⟩, canonicalLeft, canonicalRight, hleft, hright,
    hruns _ _ _ _ _ sameRun_closeRun hleft hright⟩

/-! ### Hashes of two sides -/

/-- The payload of a trace names its side. -/
theorem side_eq_of_stableValue_eq {left right : CanonicalTrace}
    (hview : stableValue (traceValue left) = stableValue (traceValue right)) :
    left.side = right.side := by
  have hside := congrArg CanonicalTrace.side (stableValue_traceValue_eq_iff.mp hview)
  exact hside

/-- A reference trace and a candidate trace never have equal hashes, as far as the text and the
digest tell their stable views apart. -/
theorem canonicalTraceHash_ne_of_sides (sha256 : Text → String)
    {reference candidate : CanonicalTrace} (hreference : reference.side = "reference")
    (hcandidate : candidate.side = "candidate")
    (hdistinct : Distinguishes sha256 (stableValue (traceValue reference))
      (stableValue (traceValue candidate))) :
    canonicalTraceHash sha256 (traceValue candidate) ≠
      canonicalTraceHash sha256 (traceValue reference) := by
  intro hhash
  have hside := side_eq_of_stableValue_eq ((canonicalTraceHash_eq_iff hdistinct).mp hhash.symm)
  rw [hreference, hcandidate] at hside
  exact absurd hside (by decide)

/-- The digest of SHA-256 on the stable views of two successful calls of `close`, one on each
side. -/
def closeDigest (text : Text) : String :=
  if text = dumps (stableValue (traceValue (closeTrace "reference" [0]))) then
    "d5dee367849eeff16a283ee9225094c6ab39310dc84ea6eff5edf60b5c536b2f"
  else "c808ba16f92e8664746b42bf52c1c6703ffe53e99ec7007d4e25ef71529ddf9c"

theorem distinguishes_closeDigest :
    Distinguishes closeDigest (stableValue (traceValue (closeTrace "reference" [0])))
      (stableValue (traceValue (closeTrace "candidate" [0]))) := by
  have htexts : dumps (stableValue (traceValue (closeTrace "candidate" [0]))) ≠
      dumps (stableValue (traceValue (closeTrace "reference" [0]))) := by decide +kernel
  refine ⟨fun heq ↦ absurd heq.symm htexts, fun heq ↦ ?_⟩
  rw [closeDigest, closeDigest, if_pos rfl, if_neg htexts] at heq
  exact absurd heq (by decide)

theorem canonicalTraceHash_ne_of_sides_closeTrace :
    canonicalTraceHash closeDigest (traceValue (closeTrace "candidate" [0])) ≠
      canonicalTraceHash closeDigest (traceValue (closeTrace "reference" [0])) :=
  canonicalTraceHash_ne_of_sides closeDigest rfl rfl distinguishes_closeDigest

/-- The two traces are equivalent without noise calls and agree on numbers and indexes, but their
hashes differ. -/
theorem closeTrace_hash_ne :
    (compareLoop [] (closeTrace "reference" [0]) (closeTrace "candidate" [0])).equivalent = true ∧
      (closeTrace "reference" [0]).events = (closeTrace "candidate" [0]).events ∧
      (closeTrace "reference" [0]).programId = (closeTrace "candidate" [0]).programId ∧
      canonicalTraceHash closeDigest (traceValue (closeTrace "candidate" [0])) ≠
        canonicalTraceHash closeDigest (traceValue (closeTrace "reference" [0])) := by
  refine ⟨?_, rfl, rfl, fun hhash ↦ ?_⟩
  · rw [compareLoop_eq]
    rfl
  · have hview := (canonicalTraceHash_eq_iff distinguishes_closeDigest).mp hhash.symm
    exact absurd (side_eq_of_stableValue_eq hview) (by decide)

end SyzAbi.Orchestrator.Stability

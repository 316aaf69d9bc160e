import SyzAbi.Agent.ArceosDecoding
import SyzAbi.Analyzer.Compare
import SyzAbi.Analyzer.Renaming

/-!
# When the two tracers agree

A program that calls `open`, `close`, `read`, `write`, `exit` and `exit_group` runs under the Linux
tracer and under the ArceOS tracer, and both kernels answer alike. The two event streams are decoded
and canonicalized. Their events compare equal exactly when every call coincides (`Coincides`): it is
no exit, for which only the ArceOS tracer emits an event; its preview has the same length on both
sides; and `errno`, and the answer for the tracer's own descriptor, are recorded alike.
-/

set_option autoImplicit false
set_option relaxedAutoImplicit false

namespace SyzAbi.Agent

open Analyzer Orchestrator Library.Json Library.Fallible

/-! ### Programs -/

/-- The system calls that both tracers run. -/
inductive CommonSyscall
  | open
  | close
  | read
  | write
  | exit
  | exitGroup
  deriving DecidableEq

/-- The name of a call in the generated code. -/
def CommonSyscall.name : CommonSyscall → ShortName
  | .open => ⟨"open", by decide, by decide⟩
  | .close => ⟨"close", by decide, by decide⟩
  | .read => ⟨"read", by decide, by decide⟩
  | .write => ⟨"write", by decide, by decide⟩
  | .exit => ⟨"exit", by decide, by decide⟩
  | .exitGroup => ⟨"exit_group", by decide, by decide⟩

/-- Whether the call ends the program. -/
def CommonSyscall.isExit : CommonSyscall → Bool
  | .exit | .exitGroup => true
  | _ => false

/-- The numbers of the calls on both sides. On Linux `read` is a probed call and the others are
not. -/
structure Numbering (platform : Platform) where
  linux : CommonSyscall → Int64
  arceos : CommonSyscall → Int64
  probed : ∀ syscall, platform.probedSyscall (linux syscall) =
    if syscall = .read then some .read else none

/-- A traced call, what both kernels answer, and the times on both sides. -/
structure TracedStep where
  syscall : CommonSyscall
  callIndex : Int64
  args : Args
  result : KernelResult
  linuxTimes : CallTimes
  arceosTimes : CallTimes

/-- The calls of a program in their order, with the increasing indexes of the generated code. -/
structure TracedProgram where
  steps : List TracedStep
  increasing : (-1 :: steps.map fun step ↦ step.callIndex.toInt).IsChain (· < ·)

/-- What belongs to a run besides its events. -/
structure RunRecord where
  programId : String
  runId : String
  status : String
  processExit : ProcessExit
  externalState : ExternalState

/-! ### The two streams -/

/-- What both tracers are built and started with. -/
structure Tracers where
  digest : Digest
  platform : Platform
  numbering : Numbering platform
  previewBytes : ℕ
  traceFd : Int32

variable (tracers : Tracers)

/-- The environment of the reference run: nothing is injected. -/
def Tracers.reference : TracerEnvironment where
  side := referenceSide
  previewBytes := tracers.previewBytes
  digest := tracers.digest
  platform := tracers.platform

def Tracers.linuxCall (step : TracedStep) : TracedCall :=
  ⟨step.syscall.name, tracers.numbering.linux step.syscall, step.callIndex, step.args⟩

def Tracers.arceosCall (step : TracedStep) : TracedCall :=
  ⟨step.syscall.name, tracers.numbering.arceos step.syscall, step.callIndex, step.args⟩

def Tracers.linuxEvent (step : TracedStep) : Event :=
  tracedEvent tracers.reference (tracers.linuxCall step) step.result step.linuxTimes

def Tracers.arceosEvent (step : TracedStep) : Event :=
  Arceos.tracedEvent tracers.traceFd (tracers.arceosCall step) step.result step.arceosTimes

/-- The events of the Linux tracer. The system call of an exit does not return, so its event is
never emitted. -/
def Tracers.linuxEvents : List TracedStep → List Event
  | [] => []
  | step :: rest =>
    if step.syscall.isExit then [] else tracers.linuxEvent step :: linuxEvents rest

/-- The events of the ArceOS tracer, which emits the event of an exit before it exits. -/
def Tracers.arceosEvents : List TracedStep → List Event
  | [] => []
  | step :: rest =>
    if Arceos.isExit (tracers.arceosCall step) then [tracers.arceosEvent step]
    else tracers.arceosEvent step :: arceosEvents rest

/-- The event file of the Linux tracer. -/
def Tracers.linuxStream (steps : List TracedStep) : Text :=
  (tracers.linuxEvents steps).flatMap (emitEvent tracers.reference)

/-- The events on the console of the ArceOS tracer. -/
def Tracers.arceosStream (steps : List TracedStep) : Text :=
  (tracers.arceosEvents steps).flatMap (Arceos.emitEvent tracers.digest)

/-- The stored trace of a run. -/
def rawTraceOf (side : String) (record : RunRecord) (events : List RawEvent) : RawTrace where
  programId := record.programId
  side := side
  runId := record.runId
  status := record.status
  events := events
  processExit := record.processExit

/-- The canonical trace of the events that were read from a stream. -/
def canonicalTrace (side : String) (record : RunRecord) (values : Except PyError (List Value)) :
    Except PyError CanonicalTrace := do
  let events ← (← values).mapM decodeEvent
  match canonicalize (rawTraceOf side record events) record.externalState with
  | .ok trace => .ok trace
  | .error text => .error ⟨"ValueError", text⟩

/-- The canonical trace of the Linux run. -/
def Tracers.linuxTrace (record : RunRecord) (steps : List TracedStep) :
    Except PyError CanonicalTrace :=
  canonicalTrace "reference" record (parseEvents (tracers.linuxStream steps))

/-- The canonical trace of the ArceOS run. -/
def Tracers.arceosTrace (record : RunRecord) (steps : List TracedStep) :
    Except PyError CanonicalTrace :=
  canonicalTrace "candidate" record (extractFramedEvents (tracers.arceosStream steps))

/-- `compare_canonical` finds no difference in the events. -/
def EventsAgree (noiseSyscalls : List String) (reference candidate : CanonicalTrace) : Prop :=
  reference.eventCount = candidate.eventCount ∧
    firstDivergence noiseSyscalls (reference.events.zip candidate.events) = none

/-! ### Coinciding calls -/

/-- The call read something into a buffer. -/
def TracedStep.ReadsBuffer (step : TracedStep) : Prop :=
  step.syscall = .read ∧ step.args.a1 ≠ 0 ∧ 0 < step.result.ret

/-- Both tracers record the call alike. A call that names the tracer's descriptor must have failed
with `EBADF`, as the ArceOS tracer says without asking. For the others, a successful call must have
left `errno` at 0, and what was read must fit into the preview, or the preview must fill its buffer
of 4095 bytes. The return value and `errno` of a noise call do not count. -/
def Coincides (noiseSyscalls : List String) (step : TracedStep) : Prop :=
  step.syscall.isExit = false ∧
    if Arceos.namesTraceFd tracers.traceFd (tracers.arceosCall step) then
      ¬step.ReadsBuffer ∧ (step.syscall.name.text ∈ noiseSyscalls ∨
        step.result.ret = -1 ∧ step.result.errno = Arceos.ebadf)
    else
      (step.ReadsBuffer → step.result.ret.toInt ≤ tracers.previewBytes ∨
        4095 ≤ tracers.previewBytes) ∧
      (step.syscall.name.text ∈ noiseSyscalls ∨
        (0 ≤ step.result.ret → step.result.errno = 0))

variable {tracers}

/-! ### Decoding -/

/-- Increasing event records are canonicalized. -/
theorem canonicalTrace_of_decode (side : String) (record : RunRecord) {values : List Value}
    {events : List RawEvent} (hdecode : values.mapM decodeEvent = .ok events)
    (hincreasing : (-1 :: events.map RawEvent.eventIndex).IsChain (· < ·)) :
    ∃ trace, canonicalTrace side record (.ok values) = .ok trace ∧
      canonicalize (rawTraceOf side record events) record.externalState = .ok trace := by
  have hvalid : validateRawTrace (rawTraceOf side record events) = .ok () :=
    (validateEventIndexes_eq_ok_iff (-1) events).mpr hincreasing
  obtain ⟨trace, htrace⟩ := canonicalize_ok hvalid record.externalState
  refine ⟨trace, bind_eq_ok_iff.mpr ⟨values, rfl, bind_eq_ok_iff.mpr ⟨events, hdecode, ?_⟩⟩, htrace⟩
  simp only [htrace]

/-- Increasing event records have a canonical trace, and its events are the rendered records. -/
theorem canonicalTrace_ok (side : String) (record : RunRecord) {values : List Value}
    {events : List RawEvent} (hdecode : values.mapM decodeEvent = .ok events)
    (hincreasing : (-1 :: events.map RawEvent.eventIndex).IsChain (· < ·)) :
    ∃ trace, canonicalTrace side record (.ok values) = .ok trace ∧
      trace.events = events.zipIdx.map fun entry ↦
        renderEvent (tablesOf (traceHandles events)) entry.1 entry.2 := by
  obtain ⟨trace, htrace, hcanonical⟩ := canonicalTrace_of_decode side record hdecode hincreasing
  have hevents := events_of_canonicalize hcanonical
  exact ⟨trace, htrace, hevents⟩

theorem forall₂_map_same {α β γ : Type} {R : β → γ → Prop} {f : α → β} {g : α → γ}
    {items : List α} (h : ∀ item ∈ items, R (f item) (g item)) :
    List.Forall₂ R (items.map f) (items.map g) := by
  rw [List.forall₂_map_left_iff, List.forall₂_map_right_iff, List.forall₂_same]
  exact h

/-- The event file of the Linux tracer is read back. -/
theorem parseEvents_emitEvent (env : TracerEnvironment) (events : List Event) :
    parseEvents (events.flatMap (emitEvent env)) = .ok (events.map (eventValue env)) := by
  have hstream : events.flatMap (emitEvent env) =
      (events.map (eventText env)).flatMap fun body ↦ body ++ [10] := by
    rw [List.flatMap_map]
    exact List.flatMap_congr fun event _ ↦ emitEvent_eq env event
  rw [hstream]
  exact parseEvents_lines (forall₂_map_same fun event _ ↦ eventLine_eventText env event)

/-- The events of the Linux tracer are canonicalized. -/
theorem canonicalTrace_emitEvent (env : TracerEnvironment) (side : String) (record : RunRecord)
    {events : List Event}
    (hincreasing : (-1 :: events.map fun event ↦ event.call.callIndex.toInt).IsChain (· < ·)) :
    ∃ trace, canonicalTrace side record (parseEvents (events.flatMap (emitEvent env))) =
        .ok trace ∧
      canonicalize (rawTraceOf side record (events.map (rawEvent env))) record.externalState =
        .ok trace := by
  rw [parseEvents_emitEvent]
  apply canonicalTrace_of_decode
  · rw [mapM_eq_ok_iff]
    exact forall₂_map_same fun event _ ↦ decodeEvent_eventValue env event
  · rw [List.map_map]
    exact hincreasing

/-- The ArceOS tracer probes one buffer at most. -/
theorem length_arceosEvent_probes (step : TracedStep) :
    (tracers.arceosEvent step).probes.length ≤ 1 := by
  have hprobe : ∀ call ret err memory times,
      (Arceos.eventOf call ret err memory times).probes.length ≤ 1 := by
    intro call ret err memory times
    simp only [Arceos.eventOf, Arceos.collectOutputProbe]
    split_ifs <;> simp
  rw [Tracers.arceosEvent, Arceos.tracedEvent]
  split_ifs <;> exact hprobe _ _ _ _ _

theorem exists_step_of_mem_arceosEvents {steps : List TracedStep} {event : Event}
    (hevent : event ∈ tracers.arceosEvents steps) :
    ∃ step, event = tracers.arceosEvent step := by
  induction steps with
  | nil => cases hevent
  | cons step rest ih =>
    rw [Tracers.arceosEvents] at hevent
    split_ifs at hevent
    · exact ⟨step, List.mem_singleton.mp hevent⟩
    · rcases List.mem_cons.mp hevent with rfl | hevent
      · exact ⟨step, rfl⟩
      · exact ih hevent

theorem extractFramedEvents_arceosStream (steps : List TracedStep) :
    extractFramedEvents (tracers.arceosStream steps) =
      .ok ((tracers.arceosEvents steps).map (Arceos.eventValue tracers.digest)) := by
  have hprobes : ∀ event ∈ tracers.arceosEvents steps, event.probes.length ≤ 1 := by
    intro event hevent
    obtain ⟨step, rfl⟩ := exists_step_of_mem_arceosEvents hevent
    exact length_arceosEvent_probes step
  have hstream : tracers.arceosStream steps =
      ((tracers.arceosEvents steps).map (Arceos.eventText tracers.digest)).flatMap fun body ↦
        10 :: Arceos.traceStdoutPrefix ++ body ++ [10] := by
    rw [Tracers.arceosStream, List.flatMap_map]
    exact List.flatMap_congr fun event hevent ↦
      Arceos.emitEvent_eq tracers.digest (hprobes event hevent)
  rw [hstream]
  exact Arceos.extractFramedEvents_lines (forall₂_map_same fun event hevent ↦
    Arceos.eventLine_eventText tracers.digest (hprobes event hevent))

/-! ### Previews -/

theorem length_pyText (text : Text) : (pyText text).length = text.length := by
  rw [pyText, String.length_ofList, List.length_map]

/-- The preview of the Linux tracer is the whole preview exactly when the setting does not shorten
it. -/
theorem preview_eq_iff (bytes : List UInt8) (previewBytes : ℕ) :
    pyText (hexPreview (bytes.take (safeProbeLength previewBytes bytes.length)) 8192) =
        pyText (hexPreview bytes 8192) ↔
      bytes.length ≤ previewBytes ∨ 4095 ≤ previewBytes := by
  constructor
  · intro heq
    have hlength := congrArg String.length heq
    rw [length_pyText, length_pyText, length_hexPreview, length_hexPreview, List.length_take,
      safeProbeLength] at hlength
    split_ifs at hlength with hzero
    · omega
    · omega
  · intro hlong
    have htake : (bytes.take (safeProbeLength previewBytes bytes.length)).take ((8192 - 1) / 2) =
        bytes.take ((8192 - 1) / 2) := by
      rw [List.take_take, List.take_eq_take_iff, safeProbeLength]
      split_ifs with hzero
      · omega
      · omega
    rw [hexPreview, hexPreview, htake]

/-! ### One call -/

theorem isExit_arceosCall (step : TracedStep) :
    Arceos.isExit (tracers.arceosCall step) = step.syscall.isExit := by
  cases h : step.syscall <;> simp [Arceos.isExit, Tracers.arceosCall, CommonSyscall.name, h,
    CommonSyscall.isExit]

/-- The event record of the Linux tracer. -/
def linuxRecord (tracers : Tracers) (step : TracedStep) : RawEvent :=
  rawEvent tracers.reference (tracers.linuxEvent step)

/-- The event record of the ArceOS tracer. -/
def arceosRecord (tracers : Tracers) (step : TracedStep) : RawEvent :=
  Arceos.rawEvent tracers.digest (tracers.arceosEvent step)

/-- The probe of the bytes that a call read, on both sides. -/
def bufProbe (step : TracedStep) : OutputProbe :=
  bytesProbe step.result.memory bufLabel 1 step.args.a1 (readLength step.result.ret)
    (readLength_lt step.result.ret)

instance (step : TracedStep) : Decidable step.ReadsBuffer :=
  inferInstanceAs (Decidable (_ ∧ _))

theorem linuxRecord_outputs (step : TracedStep) :
    (linuxRecord tracers step).outputs =
      if step.ReadsBuffer then [rawOutput tracers.reference (bufProbe step)] else [] := by
  have hcollect : collectOutputs tracers.platform (tracers.linuxCall step) step.result =
      if step.ReadsBuffer then [bufProbe step] else [] := by
    rw [collectOutputs, Tracers.linuxCall, tracers.numbering.probed]
    by_cases hread : step.syscall = .read
    · by_cases hbuffer : step.args.a1 ≠ 0 ∧ 0 < step.result.ret
      · have hret : ¬step.result.ret < 0 := Int64.not_lt.mpr (Int64.le_of_lt hbuffer.2)
        rw [if_neg hret, if_pos hread, if_pos ⟨hread, hbuffer⟩]
        show readProbe _ _ = _
        rw [readProbe, if_pos hbuffer]
        rfl
      · rw [if_neg (fun h : step.ReadsBuffer ↦ hbuffer h.2), if_pos hread]
        show (if step.result.ret < 0 then [] else readProbe _ _) = _
        rw [readProbe, if_neg hbuffer, ite_self]
    · rw [if_neg (fun h : step.ReadsBuffer ↦ hread h.1), if_neg hread]
      exact ite_self _
  show (collectOutputs _ _ _).map _ = _
  rw [show (tracers.reference.platform) = tracers.platform from rfl, hcollect]
  split_ifs <;> rfl

theorem arceosEvent_of_guarded {step : TracedStep}
    (hguard : Arceos.namesTraceFd tracers.traceFd (tracers.arceosCall step) = true) :
    tracers.arceosEvent step = Arceos.eventOf (tracers.arceosCall step) (-1) Arceos.ebadf
      step.result.memory step.arceosTimes := by
  rw [Tracers.arceosEvent, Arceos.tracedEvent, if_pos hguard]

theorem arceosEvent_of_dispatched {step : TracedStep}
    (hguard : Arceos.namesTraceFd tracers.traceFd (tracers.arceosCall step) = false)
    (hexit : step.syscall.isExit = false) :
    tracers.arceosEvent step = Arceos.eventOf (tracers.arceosCall step) step.result.ret
      (if step.result.ret < 0 then step.result.errno else 0) step.result.memory
      step.arceosTimes := by
  rw [Tracers.arceosEvent, Arceos.tracedEvent, hguard, if_neg (by simp), isExit_arceosCall, hexit,
    if_neg (by simp)]

theorem collectOutputProbe_dispatched (step : TracedStep) :
    Arceos.collectOutputProbe (tracers.arceosCall step) step.result.ret step.result.memory =
      if step.ReadsBuffer then [bufProbe step] else [] := by
  have hname : step.syscall.name.text = "read" ↔ step.syscall = .read := by
    cases step.syscall <;> simp [CommonSyscall.name]
  rw [Arceos.collectOutputProbe]
  by_cases hret : step.result.ret ≤ 0
  · rw [if_pos hret, if_neg]
    intro h
    exact absurd h.2.2 (Int64.not_lt.mpr hret)
  · rw [if_neg hret]
    have hpos : 0 < step.result.ret := Int64.not_le.mp hret
    by_cases hread : step.syscall = .read ∧ step.args.a1 ≠ 0
    · rw [if_pos ⟨hname.mpr hread.1, hread.2⟩, if_pos ⟨hread.1, hread.2, hpos⟩]
      rfl
    · rw [if_neg, if_neg]
      · intro h
        exact hread ⟨h.1, h.2.1⟩
      · intro h
        exact hread ⟨hname.mp h.1, h.2⟩

/-- The two outputs of a buffer have one canonical form when their previews are equal. -/
theorem renderOutput_eq_iff (keys : KeyTables) (step : TracedStep) (hbuffer : step.ReadsBuffer) :
    renderOutput keys (rawOutput tracers.reference (bufProbe step)) =
        renderOutput keys (Arceos.rawOutput tracers.digest (bufProbe step)) ↔
      step.result.ret.toInt ≤ tracers.previewBytes ∨ 4095 ≤ tracers.previewBytes := by
  have hbytes : probedBytes tracers.reference.platform (bufProbe step) = (bufProbe step).bytes := by
    rw [probedBytes, isStatProbe, if_neg]
    simp [bufProbe, bytesProbe, bufLabel]
  have hlength : (bufProbe step).bytes.length = readLength step.result.ret :=
    length_bytesAt _ _ _
  have hpreview := preview_eq_iff (bufProbe step).bytes tracers.previewBytes
  have hmask : ∀ output : RawOutput, output.label = "buf" →
      maskedPreview output = output.previewHex := by
    intro output hlabel
    rw [maskedPreview, if_neg]
    simp [hlabel]
  have hrange : (bufProbe step).bytes.length ≤ tracers.previewBytes ∨ 4095 ≤ tracers.previewBytes ↔
      step.result.ret.toInt ≤ tracers.previewBytes ∨ 4095 ≤ tracers.previewBytes := by
    have hpos : 0 < step.result.ret.toInt := Int64.lt_iff_toInt_lt.mp hbuffer.2.2
    rw [hlength, readLength]
    omega
  rw [← hrange, ← hpreview]
  simp only [renderOutput, CanonicalOutput.mk.injEq]
  rw [hmask _ rfl, hmask _ rfl]
  simp only [rawOutput, Arceos.rawOutput, probePreview, hbytes]
  simp [bufProbe, bytesProbe, Tracers.reference]

/-- The calls whose return value is not a handle. -/
theorem returnPosition_literal {event : RawEvent} {syscall : CommonSyscall}
    (hname : event.syscallName = syscall.name.text) (hopen : syscall ≠ .open) :
    returnPosition event = .literal event.returnValue := by
  have hkind : returnKind event.syscallName event.returnValue = none := by
    rw [hname, returnKind]
    cases syscall with
    | «open» => exact absurd rfl hopen
    | close | read | write | exit | exitGroup =>
      simp [CommonSyscall.name, fdReturnSyscalls, pidReturnSyscalls, addrReturnSyscalls]
  rw [returnPosition, hkind]
  split_ifs with hzero
  · rfl
  · rw [not_not.mp hzero]

theorem linuxRecord_syscallName (step : TracedStep) :
    (linuxRecord tracers step).syscallName = step.syscall.name.text := rfl

theorem linuxRecord_returnValue (step : TracedStep) :
    (linuxRecord tracers step).returnValue = step.result.ret.toInt := rfl

theorem linuxRecord_errno (step : TracedStep) :
    (linuxRecord tracers step).errno = step.result.errno.toInt := rfl

theorem linuxRecord_args (step : TracedStep) :
    (linuxRecord tracers step).args = (arceosRecord tracers step).args := by
  simp only [linuxRecord, arceosRecord, rawEvent, Arceos.rawEvent]
  rw [Tracers.arceosEvent, Arceos.tracedEvent]
  split_ifs <;> rfl

theorem arceosRecord_syscallName (step : TracedStep) :
    (arceosRecord tracers step).syscallName = step.syscall.name.text := by
  simp only [arceosRecord, Arceos.rawEvent]
  rw [Tracers.arceosEvent, Arceos.tracedEvent]
  split_ifs <;> rfl

/-- The record of a call that names the tracer's descriptor. -/
theorem arceosRecord_of_guarded {step : TracedStep}
    (hguard : Arceos.namesTraceFd tracers.traceFd (tracers.arceosCall step) = true) :
    (arceosRecord tracers step).returnValue = -1 ∧ (arceosRecord tracers step).errno = 9 ∧
      (arceosRecord tracers step).outputs = [] := by
  have hprobe : Arceos.collectOutputProbe (tracers.arceosCall step) (-1) step.result.memory =
      [] := by
    rw [Arceos.collectOutputProbe, if_pos (by decide)]
  rw [arceosRecord, arceosEvent_of_guarded hguard]
  refine ⟨rfl, rfl, ?_⟩
  simp only [Arceos.rawEvent, Arceos.eventOf, hprobe, List.map_nil]

/-- The record of a call that is dispatched. -/
theorem arceosRecord_of_dispatched {step : TracedStep}
    (hguard : Arceos.namesTraceFd tracers.traceFd (tracers.arceosCall step) = false)
    (hexit : step.syscall.isExit = false) :
    (arceosRecord tracers step).returnValue = step.result.ret.toInt ∧
      (arceosRecord tracers step).errno =
        (if step.result.ret < 0 then step.result.errno else 0).toInt ∧
      (arceosRecord tracers step).outputs =
        if step.ReadsBuffer then [Arceos.rawOutput tracers.digest (bufProbe step)] else [] := by
  rw [arceosRecord, arceosEvent_of_dispatched hguard hexit]
  refine ⟨rfl, rfl, ?_⟩
  show List.map _ (Arceos.collectOutputProbe _ _ _) = _
  rw [collectOutputProbe_dispatched]
  split_ifs <;> rfl

/-- Only `close`, `read` and `write` can name the tracer's descriptor. -/
theorem ne_open_of_guarded {step : TracedStep}
    (hguard : Arceos.namesTraceFd tracers.traceFd (tracers.arceosCall step) = true) :
    step.syscall ≠ .open := by
  intro hopen
  simp [Arceos.namesTraceFd, Tracers.arceosCall, hopen, CommonSyscall.name] at hguard

/-- Both return values are the same number, or neither of them is a handle. -/
theorem returnValue_eq_or_ne_open (tracers : Tracers) {step : TracedStep}
    (hexit : step.syscall.isExit = false) :
    (linuxRecord tracers step).returnValue = (arceosRecord tracers step).returnValue ∨
      step.syscall ≠ .open := by
  cases hguard : Arceos.namesTraceFd tracers.traceFd (tracers.arceosCall step) with
  | true => exact Or.inr (ne_open_of_guarded hguard)
  | false =>
    rw [linuxRecord_returnValue, (arceosRecord_of_dispatched hguard hexit).1]
    exact Or.inl rfl

theorem argPositions_records (step : TracedStep) :
    argPositions (linuxRecord tracers step) = argPositions (arceosRecord tracers step) := by
  rw [argPositions, argPositions, linuxRecord_args, arceosRecord_syscallName,
    linuxRecord_syscallName]

theorem render_returnPosition_iff (keys : KeyTables) {step : TracedStep}
    (hexit : step.syscall.isExit = false) :
    (returnPosition (linuxRecord tracers step)).render keys =
        (returnPosition (arceosRecord tracers step)).render keys ↔
      (linuxRecord tracers step).returnValue = (arceosRecord tracers step).returnValue := by
  rcases returnValue_eq_or_ne_open tracers hexit with heq | hopen
  · have hposition : returnPosition (linuxRecord tracers step) =
        returnPosition (arceosRecord tracers step) := by
      rw [returnPosition, returnPosition, heq, arceosRecord_syscallName, linuxRecord_syscallName]
    rw [hposition]
    exact iff_of_true rfl heq
  · rw [returnPosition_literal (linuxRecord_syscallName step) hopen,
      returnPosition_literal (arceosRecord_syscallName step) hopen]
    simp [Position.render]

theorem outputHandles_of_none {output : RawOutput} (hkind : output.resourceKind = none) :
    outputHandles output = [] := by
  rw [outputHandles, fdResourceValues, hkind, if_neg (by simp), List.map_nil]

theorem outputHandles_linuxRecord (step : TracedStep) :
    (linuxRecord tracers step).outputs.flatMap outputHandles = [] := by
  rw [linuxRecord_outputs]
  split_ifs
  · rw [List.flatMap_singleton]
    exact outputHandles_of_none rfl
  · exact List.flatMap_nil

theorem outputHandles_arceosRecord {step : TracedStep} (hexit : step.syscall.isExit = false) :
    (arceosRecord tracers step).outputs.flatMap outputHandles = [] := by
  cases hguard : Arceos.namesTraceFd tracers.traceFd (tracers.arceosCall step) with
  | true =>
    rw [(arceosRecord_of_guarded hguard).2.2]
    exact List.flatMap_nil
  | false =>
    rw [(arceosRecord_of_dispatched hguard hexit).2.2]
    split_ifs
    · rw [List.flatMap_singleton]
      exact outputHandles_of_none rfl
    · exact List.flatMap_nil

/-- The two records ask for the same handles. -/
theorem eventHandles_records {step : TracedStep} (hexit : step.syscall.isExit = false) :
    eventHandles (linuxRecord tracers step) = eventHandles (arceosRecord tracers step) := by
  have hreturn : (returnPosition (linuxRecord tracers step)).handles =
      (returnPosition (arceosRecord tracers step)).handles := by
    rcases returnValue_eq_or_ne_open tracers hexit with heq | hopen
    · rw [returnPosition, returnPosition, heq, arceosRecord_syscallName, linuxRecord_syscallName]
    · rw [returnPosition_literal (linuxRecord_syscallName step) hopen,
        returnPosition_literal (arceosRecord_syscallName step) hopen]
      simp only [Position.handles]
  rw [eventHandles, eventHandles, argPositions_records, hreturn, outputHandles_linuxRecord,
    outputHandles_arceosRecord hexit]

/-- The canonical events of a call compare equal exactly when the call coincides. -/
theorem records_agree_iff (noiseSyscalls : List String) (keys : KeyTables) (index : ℕ)
    {step : TracedStep} (hexit : step.syscall.isExit = false) :
    eventDiverges noiseSyscalls (renderEvent keys (linuxRecord tracers step) index)
        (renderEvent keys (arceosRecord tracers step) index) = false ↔
      Coincides tracers noiseSyscalls step := by
  have hname : (renderEvent keys (linuxRecord tracers step) index).syscallName =
      (renderEvent keys (arceosRecord tracers step) index).syscallName :=
    (arceosRecord_syscallName step).symm
  have hargs : (renderEvent keys (linuxRecord tracers step) index).args =
      (renderEvent keys (arceosRecord tracers step) index).args := by
    simp only [renderEvent]
    rw [argPositions_records]
  rw [eventDiverges_eq_false_iff, and_iff_right hname, and_iff_right hargs]
  simp only [renderEvent]
  rw [render_returnPosition_iff keys hexit, linuxRecord_returnValue, linuxRecord_errno,
    linuxRecord_outputs, linuxRecord_syscallName, Coincides, and_iff_right hexit]
  cases hguard : Arceos.namesTraceFd tracers.traceFd (tracers.arceosCall step) with
  | true =>
    obtain ⟨hret, herrno, houtputs⟩ := arceosRecord_of_guarded hguard
    have hminus : step.result.ret.toInt = -1 ↔ step.result.ret = -1 := by
      rw [← Int64.toInt_inj]
      rfl
    have hebadf : step.result.errno.toInt = 9 ↔ step.result.errno = Arceos.ebadf := by
      rw [← Int32.toInt_inj]
      rfl
    rw [hret, herrno, houtputs, if_pos rfl, hminus, hebadf]
    by_cases hbuffer : step.ReadsBuffer <;> simp [hbuffer]
  | false =>
    obtain ⟨hret, herrno, houtputs⟩ := arceosRecord_of_dispatched hguard hexit
    have hcleared : step.result.errno.toInt =
        (if step.result.ret < 0 then step.result.errno else 0).toInt ↔
        (0 ≤ step.result.ret → step.result.errno = 0) := by
      rw [Int32.toInt_inj]
      by_cases hneg : step.result.ret < 0
      · rw [if_pos hneg]
        exact iff_of_true rfl fun hle ↦ absurd hneg (Int64.not_lt.mpr hle)
      · rw [if_neg hneg]
        exact ⟨fun h _ ↦ h, fun h ↦ h (Int64.not_lt.mp hneg)⟩
    rw [hret, herrno, houtputs, hcleared, if_neg Bool.false_ne_true, eq_self, true_and]
    refine and_congr ?_ Iff.rfl
    by_cases hbuffer : step.ReadsBuffer
    · rw [if_pos hbuffer, if_pos hbuffer, List.map_singleton, List.map_singleton,
        List.singleton_inj, renderOutput_eq_iff keys step hbuffer]
      exact ⟨fun h _ ↦ h, fun h ↦ h hbuffer⟩
    · rw [if_neg hbuffer, if_neg hbuffer]
      exact iff_of_true rfl fun h ↦ absurd h hbuffer

/-! ### Whole runs -/

/-- Before the first exit, both tracers emit one event for each call. -/
theorem linuxEvents_eq_map {steps : List TracedStep}
    (hexits : ∀ step ∈ steps, step.syscall.isExit = false) :
    tracers.linuxEvents steps = steps.map tracers.linuxEvent := by
  induction steps with
  | nil => rfl
  | cons step rest ih =>
    rw [List.forall_mem_cons] at hexits
    rw [Tracers.linuxEvents, hexits.1, if_neg Bool.false_ne_true, ih hexits.2, List.map_cons]

theorem arceosEvents_eq_map {steps : List TracedStep}
    (hexits : ∀ step ∈ steps, step.syscall.isExit = false) :
    tracers.arceosEvents steps = steps.map tracers.arceosEvent := by
  induction steps with
  | nil => rfl
  | cons step rest ih =>
    rw [List.forall_mem_cons] at hexits
    rw [Tracers.arceosEvents, isExit_arceosCall, hexits.1, if_neg Bool.false_ne_true, ih hexits.2,
      List.map_cons]

/-- The event of the first exit is on the ArceOS side only. -/
theorem length_arceosEvents_of_exit (tracers : Tracers) {steps : List TracedStep}
    (hexit : ∃ step ∈ steps, step.syscall.isExit = true) :
    (tracers.arceosEvents steps).length = (tracers.linuxEvents steps).length + 1 := by
  induction steps with
  | nil => simp at hexit
  | cons step rest ih =>
    rw [Tracers.arceosEvents, Tracers.linuxEvents, isExit_arceosCall]
    by_cases hstep : step.syscall.isExit = true
    · rw [if_pos hstep, if_pos hstep, List.length_singleton, List.length_nil]
    · rw [if_neg hstep, if_neg hstep, List.length_cons, List.length_cons]
      obtain ⟨exiting, hmem, hexiting⟩ := hexit
      rcases List.mem_cons.mp hmem with rfl | hmem
      · exact absurd hexiting hstep
      · rw [ih ⟨exiting, hmem, hexiting⟩]

theorem linuxIndexes_isPrefix (steps : List TracedStep) :
    ((tracers.linuxEvents steps).map fun event ↦ event.call.callIndex.toInt) <+:
      steps.map fun step ↦ step.callIndex.toInt := by
  induction steps with
  | nil => exact List.nil_prefix
  | cons step rest ih =>
    rw [Tracers.linuxEvents]
    split_ifs
    · exact List.nil_prefix
    · exact (List.prefix_cons_inj _).mpr ih

theorem arceosIndexes_isPrefix (steps : List TracedStep) :
    ((tracers.arceosEvents steps).map fun event ↦ event.call.callIndex.toInt) <+:
      steps.map fun step ↦ step.callIndex.toInt := by
  have hindex : ∀ step, (tracers.arceosEvent step).call.callIndex = step.callIndex := by
    intro step
    rw [Tracers.arceosEvent, Arceos.tracedEvent]
    split_ifs <;> rfl
  induction steps with
  | nil => exact List.nil_prefix
  | cons step rest ih =>
    rw [Tracers.arceosEvents, List.map_cons]
    split_ifs
    · rw [List.map_singleton, hindex]
      exact (List.prefix_cons_inj _).mpr List.nil_prefix
    · rw [List.map_cons, hindex]
      exact (List.prefix_cons_inj _).mpr ih

theorem increasing_of_isPrefix (program : TracedProgram) {indexes : List ℤ}
    (hindexes : indexes <+: program.steps.map fun step ↦ step.callIndex.toInt) :
    (-1 :: indexes).IsChain (· < ·) :=
  program.increasing.prefix ((List.prefix_cons_inj _).mpr hindexes)

/-- The Linux run has a canonical trace. -/
theorem linuxTrace_ok (tracers : Tracers) (record : RunRecord) (program : TracedProgram) :
    ∃ trace, tracers.linuxTrace record program.steps = .ok trace ∧
      trace.events = ((tracers.linuxEvents program.steps).map
        (rawEvent tracers.reference)).zipIdx.map fun entry ↦
          renderEvent (tablesOf (traceHandles ((tracers.linuxEvents program.steps).map
            (rawEvent tracers.reference)))) entry.1 entry.2 := by
  obtain ⟨trace, htrace, hcanonical⟩ := canonicalTrace_emitEvent tracers.reference "reference"
    record (increasing_of_isPrefix program (linuxIndexes_isPrefix program.steps))
  have hevents := events_of_canonicalize hcanonical
  exact ⟨trace, htrace, hevents⟩

/-- The ArceOS run has a canonical trace. -/
theorem arceosTrace_ok (tracers : Tracers) (record : RunRecord) (program : TracedProgram) :
    ∃ trace, tracers.arceosTrace record program.steps = .ok trace ∧
      trace.events = ((tracers.arceosEvents program.steps).map
        (Arceos.rawEvent tracers.digest)).zipIdx.map fun entry ↦
          renderEvent (tablesOf (traceHandles ((tracers.arceosEvents program.steps).map
            (Arceos.rawEvent tracers.digest)))) entry.1 entry.2 := by
  rw [Tracers.arceosTrace, extractFramedEvents_arceosStream]
  apply canonicalTrace_ok
  · rw [mapM_eq_ok_iff]
    exact forall₂_map_same fun event _ ↦ Arceos.decodeEvent_eventValue tracers.digest event
  · rw [List.map_map]
    exact increasing_of_isPrefix program (arceosIndexes_isPrefix program.steps)

/-- Two traces of one list of calls that ask for the same handles agree when the records of each
call do. -/
theorem eventsAgree_iff_forall (noiseSyscalls : List String) {reference candidate : CanonicalTrace}
    (left right : TracedStep → RawEvent) {steps : List TracedStep}
    (hreference : reference.events = (steps.map left).zipIdx.map fun entry ↦
      renderEvent (tablesOf (traceHandles (steps.map left))) entry.1 entry.2)
    (hcandidate : candidate.events = (steps.map right).zipIdx.map fun entry ↦
      renderEvent (tablesOf (traceHandles (steps.map right))) entry.1 entry.2)
    (hhandles : traceHandles (steps.map left) = traceHandles (steps.map right)) :
    EventsAgree noiseSyscalls reference candidate ↔
      ∀ step index, (step, index) ∈ steps.zipIdx → eventDiverges noiseSyscalls
        (renderEvent (tablesOf (traceHandles (steps.map left))) (left step) index)
        (renderEvent (tablesOf (traceHandles (steps.map left))) (right step) index) = false := by
  rw [← hhandles] at hcandidate
  have hcount : reference.eventCount = candidate.eventCount := by
    rw [reference.eventCount_eq, candidate.eventCount_eq, hreference, hcandidate]
    simp
  rw [EventsAgree, and_iff_right hcount, firstDivergence_eq_none_iff, hreference, hcandidate,
    List.zipIdx_map, List.zipIdx_map, List.map_map, List.map_map, List.zip_map',
    List.forall_mem_map, Prod.forall]
  rfl

/-- The traces of a program agree exactly when each of its calls coincides. -/
theorem eventsAgree_iff (noiseSyscalls : List String) {referenceRecord candidateRecord : RunRecord}
    {program : TracedProgram} {reference candidate : CanonicalTrace}
    (hreference : tracers.linuxTrace referenceRecord program.steps = .ok reference)
    (hcandidate : tracers.arceosTrace candidateRecord program.steps = .ok candidate) :
    EventsAgree noiseSyscalls reference candidate ↔
      ∀ step ∈ program.steps, Coincides tracers noiseSyscalls step := by
  obtain ⟨trace, htrace, hlinux⟩ := linuxTrace_ok tracers referenceRecord program
  obtain rfl : trace = reference := Except.ok.inj (htrace.symm.trans hreference)
  obtain ⟨trace', htrace', harceos⟩ := arceosTrace_ok tracers candidateRecord program
  obtain rfl : trace' = candidate := Except.ok.inj (htrace'.symm.trans hcandidate)
  by_cases hexits : ∀ step ∈ program.steps, step.syscall.isExit = false
  · have hhandles : traceHandles (program.steps.map (linuxRecord tracers)) =
        traceHandles (program.steps.map (arceosRecord tracers)) := by
      rw [traceHandles, traceHandles, List.flatMap_map, List.flatMap_map]
      exact List.flatMap_congr fun step hstep ↦ eventHandles_records (hexits step hstep)
    have hleft : rawEvent tracers.reference ∘ tracers.linuxEvent = linuxRecord tracers := rfl
    have hright : Arceos.rawEvent tracers.digest ∘ tracers.arceosEvent = arceosRecord tracers := rfl
    rw [linuxEvents_eq_map hexits, List.map_map, hleft] at hlinux
    rw [arceosEvents_eq_map hexits, List.map_map, hright] at harceos
    have hagree := eventsAgree_iff_forall noiseSyscalls (linuxRecord tracers) (arceosRecord tracers)
      hlinux harceos hhandles
    rw [hagree]
    constructor
    · intro hall step hstep
      obtain ⟨index, hlt, hstep'⟩ := List.mem_iff_getElem.mp hstep
      have hentry : (step, index) ∈ program.steps.zipIdx :=
        List.mk_mem_zipIdx_iff_getElem?.mpr (List.getElem?_eq_some_iff.mpr ⟨hlt, hstep'⟩)
      have hequal := hall step index hentry
      rwa [records_agree_iff noiseSyscalls _ index (hexits step hstep)] at hequal
    · intro hall step index hentry
      have hstep : step ∈ program.steps := List.fst_mem_of_mem_zipIdx hentry
      rw [records_agree_iff noiseSyscalls _ index (hexits step hstep)]
      exact hall step hstep
  · have hexit : ∃ step ∈ program.steps, step.syscall.isExit = true := by simpa using hexits
    apply iff_of_false
    · intro hagree
      have hlength := hagree.1
      rw [trace.eventCount_eq, trace'.eventCount_eq, hlinux, harceos] at hlength
      have hlonger := length_arceosEvents_of_exit tracers hexit
      simp only [List.length_map, List.length_zipIdx] at hlength
      omega
    · intro hall
      obtain ⟨step, hstep, hexit⟩ := hexit
      rw [(hall step hstep).1] at hexit
      exact Bool.false_ne_true hexit

/-- Both runs have a canonical trace, and their events compare equal exactly when each call of the
program coincides. -/
theorem tracers_agree_iff (tracers : Tracers) (noiseSyscalls : List String)
    (referenceRecord candidateRecord : RunRecord) (program : TracedProgram) :
    ∃ reference candidate,
      tracers.linuxTrace referenceRecord program.steps = .ok reference ∧
      tracers.arceosTrace candidateRecord program.steps = .ok candidate ∧
      (EventsAgree noiseSyscalls reference candidate ↔
        ∀ step ∈ program.steps, Coincides tracers noiseSyscalls step) := by
  obtain ⟨reference, hreference, -⟩ := linuxTrace_ok tracers referenceRecord program
  obtain ⟨candidate, hcandidate, -⟩ := arceosTrace_ok tracers candidateRecord program
  exact ⟨reference, candidate, hreference, hcandidate,
    eventsAgree_iff noiseSyscalls hreference hcandidate⟩

/-! ### A read that is longer than the preview -/

/-- The numbers of the calls on x86-64. -/
def callNumber : CommonSyscall → Int64
  | .read => 0
  | .write => 1
  | .open => 2
  | .close => 3
  | .exit => 60
  | .exitGroup => 231

/-- The numbers and layouts of x86-64. -/
def x8664 : Platform where
  probedSyscall number :=
    if number = 0 then some .read
    else if number = 17 then some .pread64
    else if number = 22 then some .pipe
    else if number = 53 then some .socketpair
    else if number = 5 then some .fstat
    else if number = 61 then some .wait4
    else if number = 262 then some .newfstatat
    else if number = 293 then some .pipe2
    else none
  statSize := 144
  volatileStatFields := [(0, 8), (8, 8), (72, 16), (88, 16), (104, 16)]
  rusageSize := 144
  statSize_lt := by decide
  rusageSize_lt := by decide

/-- The tracers with the setting of the ArceOS workflow. The digest is the one of 33 zero bytes. -/
def smokeTracers : Tracers where
  digest :=
    { hex := fun _ ↦ PyStr.ofString
        "7f9c9e31ac8256ca2f258583df262dbc7d6f68f2a03043d5c99a4ae5a7396ce9"
      isIdentifier := fun _ ↦ by decide
      length_eq := fun _ ↦ by decide }
  platform := x8664
  numbering :=
    { linux := callNumber
      arceos := callNumber
      probed := by intro syscall; cases syscall <;> decide }
  previewBytes := 32
  traceFd := 3

/-- One `read` of 33 zero bytes from the descriptor 4. -/
def longRead : TracedProgram where
  steps := [
    { syscall := .read
      callIndex := 0
      args := ⟨4, 4096, 64, 0, 0, 0⟩
      result := ⟨33, 0, fun _ ↦ 0⟩
      linuxTimes := ⟨1, 2⟩
      arceosTimes := ⟨3, 4⟩ }]
  increasing := by decide

def smokeRecord : RunRecord where
  programId := "p"
  runId := "r"
  status := "ok"
  processExit := { status := "ok", exitCode := some 0, timedOut := false }
  externalState := { files := [] }

/-- The reference stores a preview of 32 bytes, the candidate one of all 33. -/
theorem longRead_disagrees :
    ∃ reference candidate,
      smokeTracers.linuxTrace smokeRecord longRead.steps = .ok reference ∧
      smokeTracers.arceosTrace smokeRecord longRead.steps = .ok candidate ∧
      ¬EventsAgree [] reference candidate := by
  obtain ⟨reference, hreference, -⟩ := linuxTrace_ok smokeTracers smokeRecord longRead
  obtain ⟨candidate, hcandidate, -⟩ := arceosTrace_ok smokeTracers smokeRecord longRead
  refine ⟨reference, candidate, hreference, hcandidate, ?_⟩
  rw [eventsAgree_iff [] hreference hcandidate]
  intro hall
  obtain ⟨-, hcoincides⟩ := hall _ (List.mem_singleton.mpr rfl)
  rw [if_neg (by decide)] at hcoincides
  have hshort := hcoincides.1 (by decide)
  revert hshort
  decide

end SyzAbi.Agent

import SyzAbi.Agent.ArceosEvent
import SyzAbi.Agent.EventDecoding

/-!
# ArceOS events read back

The counterpart of `Agent.EventDecoding` for the framed lines of the ArceOS tracer: a line is
complete (`emitEvent_eq`), the framed lines of a console text are extracted
(`extractFramedEvents_lines`), and a value decodes to its event record (`decodeEvent_eventValue`).
-/

set_option autoImplicit false
set_option relaxedAutoImplicit false

namespace SyzAbi.Agent.Arceos

open Analyzer Orchestrator Library.Json

/-! ### Values -/

/-- The object that the text of an output reads as. -/
def outputValue (digest : Digest) (probe : OutputProbe) : Value :=
  .obj (setMembers []
    [(PyStr.ofString "label", .str (PyStr.ofString probe.label.text)),
     (PyStr.ofString "arg_index", .int probe.argIndex.val),
     (PyStr.ofString "length", .int probe.bytes.length),
     (PyStr.ofString "preview_hex", .str (hexPreview probe.bytes 8192)),
     (PyStr.ofString "sha256", .str (digest.hex probe.bytes))])

/-- The object that the text of an event reads as. -/
def eventValue (digest : Digest) (event : Event) : Value :=
  .obj (setMembers []
    [(PyStr.ofString "args", .arr (event.call.args.toList.map fun arg ↦ .int arg.toInt)),
     (PyStr.ofString "end_ns", .int event.times.endNs.toNat),
     (PyStr.ofString "errno", .int event.tracedErrno.toInt),
     (PyStr.ofString "event_index", .int event.call.callIndex.toInt),
     (PyStr.ofString "outputs", .arr (event.probes.map (outputValue digest))),
     (PyStr.ofString "return_value", .int event.tracedRet.toInt),
     (PyStr.ofString "side", .str (PyStr.ofString "candidate")),
     (PyStr.ofString "start_ns", .int event.times.startNs.toNat),
     (PyStr.ofString "syscall_name", .str (PyStr.ofString event.call.name.text)),
     (PyStr.ofString "syscall_number", .int event.call.number.toInt)])

theorem printed_outputText (digest : Digest) (probe : OutputProbe) :
    Printed (outputText digest probe) (outputValue digest probe) 8600 := by
  have hindex : Printed (decimal probe.argIndex.val) (.int probe.argIndex.val) 20 :=
    Printed.natural (by omega)
  refine (Printed.object (.cons (.name probe.label) (by decide) (.cons hindex (by decide)
    (.cons (.natural probe.bytes_lt) (by decide) (.cons (.preview probe.bytes) (by decide)
      (.cons (.digest digest probe.bytes) (by decide) .nil)))))).mono ?_
  norm_num

/-- With at most one probe the outputs fit into their buffer. -/
theorem printed_outputs (digest : Digest) {event : Event} (hprobes : event.probes.length ≤ 1) :
    Printed ((arrayText (event.probes.map (outputText digest))).take (24576 - 1))
      (.arr (event.probes.map (outputValue digest))) 8603 := by
  have houtputs := Printed.array event.probes 1 hprobes
    fun probe _ ↦ printed_outputText digest probe
  rw [List.take_of_length_le (houtputs.length_le.trans (by norm_num))]
  exact houtputs.mono (by norm_num)

theorem printed_eventText (digest : Digest) {event : Event} (hprobes : event.probes.length ≤ 1) :
    Printed (eventText digest event) (eventValue digest event) 30000 := by
  have hargs := Printed.integers event.call.args.toList 6 le_rfl
  refine (Printed.object (.cons hargs (by decide)
    (.cons (.natural event.times.endNs.toNat_lt) (by decide)
      (.cons (.int32 event.tracedErrno) (by decide)
        (.cons (.int64 event.call.callIndex) (by decide)
          (.cons (printed_outputs digest hprobes) (by decide)
            (.cons (.int64 event.tracedRet) (by decide)
              (.cons (.string 9 (by decide) (by decide)) (by decide)
                (.cons (.natural event.times.startNs.toNat_lt) (by decide)
                  (.cons (.name event.call.name) (by decide)
                    (.cons (.int64 event.call.number) (by decide) .nil))))))))))).mono ?_
  norm_num

/-- The line of an event is the whole framed text between line feeds. -/
theorem emitEvent_eq (digest : Digest) {event : Event} (hprobes : event.probes.length ≤ 1) :
    emitEvent digest event = 10 :: traceStdoutPrefix ++ eventText digest event ++ [10] := by
  have htext := (printed_eventText digest hprobes).length_le
  have hframe : traceStdoutPrefix.length = 23 := by decide
  rw [emitEvent, List.take_of_length_le]
  simp only [List.length_append, List.length_cons, List.length_nil]
  omega

/-! ### Records -/

/-- The output record of a probe. -/
def rawOutput (digest : Digest) (probe : OutputProbe) : RawOutput where
  label := probe.label.text
  argIndex := probe.argIndex.val
  length := probe.bytes.length
  previewHex := pyText (hexPreview probe.bytes 8192)
  sha256 := pyText (digest.hex probe.bytes)

/-- The event record of an event. -/
def rawEvent (digest : Digest) (event : Event) : RawEvent where
  eventIndex := event.call.callIndex.toInt
  syscallName := event.call.name.text
  syscallNumber := event.call.number.toInt
  args := event.call.args.toList.map Int64.toInt
  returnValue := event.tracedRet.toInt
  errno := event.tracedErrno.toInt
  startNs := event.times.startNs.toNat
  endNs := event.times.endNs.toNat
  outputs := event.probes.map (rawOutput digest)

theorem decodeOutput_outputValue (digest : Digest) (probe : OutputProbe) :
    decodeOutput (outputValue digest probe) = .ok (rawOutput digest probe) := by
  rw [decodeOutput, outputValue, rawOutput]
  simp only [getItem, get?_setMembers]
  simp [lookup_member, toInt, toText, pyText_ofString]

theorem decodeEvent_eventValue (digest : Digest) (event : Event) :
    decodeEvent (eventValue digest event) = .ok (rawEvent digest event) := by
  have houtputs : (event.probes.map (outputValue digest)).mapM decodeOutput =
      (.ok (event.probes.map (rawOutput digest)) : Except PyError (List RawOutput)) := by
    apply Library.Fallible.mapM_eq_ok_iff.mpr
    induction event.probes with
    | nil => exact .nil
    | cons probe probes ih => exact .cons (decodeOutput_outputValue digest probe) ih
  rw [decodeEvent, eventValue, rawEvent]
  simp only [getItem, get?_setMembers]
  simp [lookup_member, toInt, toText, toList, pyText_ofString, houtputs]
  rfl

/-! ### Lines -/

theorem eventLine_eventText (digest : Digest) {event : Event}
    (hprobes : event.probes.length ≤ 1) :
    EventLine (eventText digest event) (eventValue digest event) :=
  ⟨(printed_eventText digest hprobes).printable, ⟨_, rfl⟩, (printed_eventText digest hprobes).reads⟩

/-- The payload of a framed line is its text. -/
theorem framedPayload_line {body : Text} {value : Value} (hline : EventLine body value) :
    framedPayload (traceStdoutPrefix ++ body) = some body := by
  have hframe : traceStdoutPrefix = traceEventStdoutPrefix := rfl
  have hcolours : ∀ fuel, stripColours fuel (traceStdoutPrefix ++ body) =
      traceStdoutPrefix ++ body := by
    intro fuel
    cases fuel with
    | zero => rfl
    | succ fuel =>
      rw [stripColours, if_neg]
      have hhead : traceStdoutPrefix = 95 :: traceStdoutPrefix.tail := by decide
      rw [hhead]
      simp [List.isPrefixOf]
  have hframed : traceEventStdoutPrefix.isPrefixOf (traceStdoutPrefix ++ body) = true := by
    rw [hframe, List.isPrefixOf_iff_prefix]
    exact List.prefix_append _ _
  rw [framedPayload, hcolours, hframed, if_pos rfl, hframe, List.drop_left, hline.strip_eq]
  simp [hline.isEmpty_eq]

/-- The framed lines of a console text are extracted. -/
theorem extractFramedEvents_lines {bodies : List Text} {values : List Value}
    (hlines : List.Forall₂ EventLine bodies values) :
    extractFramedEvents (bodies.flatMap fun body ↦ 10 :: traceStdoutPrefix ++ body ++ [10]) =
      .ok values := by
  have htext : (bodies.flatMap fun body ↦ 10 :: traceStdoutPrefix ++ body ++ [10]) =
      (bodies.flatMap fun body ↦ [[], traceStdoutPrefix ++ body]).flatMap fun line ↦
        line ++ [10] := by
    rw [List.flatMap_assoc]
    apply List.flatMap_congr
    intro body _
    simp
  have hbreaks : ∀ line ∈ bodies.flatMap fun body ↦ [[], traceStdoutPrefix ++ body],
      ∀ c ∈ line, isLineBreak c = false := by
    intro line hline
    obtain ⟨body, hbody, hline⟩ := List.mem_flatMap.mp hline
    obtain ⟨value, hevent⟩ := eventLine_of_mem hlines hbody
    rcases List.mem_pair.mp hline with rfl | rfl
    · intro c hc
      cases hc
    · exact (Printable.append (by decide) hevent.printable).isLineBreak_eq
  have hpayloads : (bodies.flatMap fun body ↦ [[], traceStdoutPrefix ++ body]).filterMap
      framedPayload = bodies := by
    clear htext hbreaks
    induction hlines with
    | nil => rfl
    | cons hline _ ih =>
      rw [List.flatMap_cons, List.filterMap_append, ih]
      have hempty : framedPayload [] = none := by decide
      simp [hempty, framedPayload_line hline]
  rw [extractFramedEvents, htext, splitLines_lines hbreaks, hpayloads, mapM_jsonLoads hlines]

end SyzAbi.Agent.Arceos

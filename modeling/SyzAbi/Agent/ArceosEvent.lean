import SyzAbi.Agent.LinuxEvent

/-!
# The events of the ArceOS tracer

`agent/arceos/trace.c` from a system call to the line of its event: which calls are answered without
a system call, how the result of the others is recorded, and the framed JSON text of an event. The
tracer shares its SHA-256 with the Linux tracer, and its buffers have the same sizes.
-/

set_option autoImplicit false
set_option relaxedAutoImplicit false

namespace SyzAbi.Agent.Arceos

open Library.Json

/-- `EBADF`. -/
def ebadf : Int32 := 9

/-- `collect_output_probe`. -/
def collectOutputProbe (call : TracedCall) (ret : Int64) (memory : UInt64 → UInt8) :
    List OutputProbe :=
  if ret ≤ 0 then []
  else if call.name.text = "read" ∧ call.args.a1 ≠ 0 then
    [bytesProbe memory bufLabel 1 call.args.a1 (readLength ret) (readLength_lt ret)]
  else []

theorem length_collectOutputProbe_le (call : TracedCall) (ret : Int64)
    (memory : UInt64 → UInt8) : (collectOutputProbe call ret memory).length ≤ 3 := by
  rw [collectOutputProbe]
  split_ifs <;> simp

/-- The arguments of `emit_event` and the probe it collects. -/
def eventOf (call : TracedCall) (ret : Int64) (err : Int32) (memory : UInt64 → UInt8)
    (times : CallTimes) : Event where
  call := call
  tracedRet := ret
  tracedErrno := err
  times := times
  probes := collectOutputProbe call ret memory
  probes_le := length_collectOutputProbe_le call ret memory

/-- The item of `outputs` for a probe. -/
def outputText (digest : Digest) (probe : OutputProbe) : Text :=
  objectText
    [member "label" (quoted (PyStr.ofString probe.label.text)),
     member "arg_index" (decimal probe.argIndex.val),
     member "length" (decimal probe.bytes.length),
     member "preview_hex" (quoted (hexPreview probe.bytes 8192)),
     member "sha256" (quoted (digest.hex probe.bytes))]

/-- The JSON text of an event. -/
def eventText (digest : Digest) (event : Event) : Text :=
  objectText
    [member "args" (arrayText (event.call.args.toList.map fun arg ↦ decimalInt arg.toInt)),
     member "end_ns" (decimal event.times.endNs.toNat),
     member "errno" (decimalInt event.tracedErrno.toInt),
     member "event_index" (decimalInt event.call.callIndex.toInt),
     member "outputs"
       ((arrayText (event.probes.map (outputText digest))).take (24576 - 1)),
     member "return_value" (decimalInt event.tracedRet.toInt),
     member "side" (quoted (PyStr.ofString "candidate")),
     member "start_ns" (decimal event.times.startNs.toNat),
     member "syscall_name" (quoted (PyStr.ofString event.call.name.text)),
     member "syscall_number" (decimalInt event.call.number.toInt)]

/-- `trace_stdout_prefix`. -/
def traceStdoutPrefix : Text := PyStr.ofString "__SYZABI_TRACE_EVENT__ "

/-- `emit_event`: the framed text between line feeds, cut off where the buffer `line` ends. -/
def emitEvent (digest : Digest) (event : Event) : Text :=
  (10 :: traceStdoutPrefix ++ eventText digest event ++ [10]).take (32768 - 1)

/-- The answer of `traced_syscall` before any system call: `close`, `read` and `write` of the
tracer's own descriptor fail. The descriptor is the `int` of the first argument. -/
def namesTraceFd (traceFd : Int32) (call : TracedCall) : Bool :=
  (call.name.text = "close" || call.name.text = "read" || call.name.text = "write") &&
    call.args.a0.toInt32 = traceFd

/-- Whether `traced_syscall` ends the program. -/
def isExit (call : TracedCall) : Bool :=
  call.name.text = "exit" || call.name.text = "exit_group"

/-- The event that `traced_syscall` emits for a call, when `result` is what `dispatch_call` finds.
-/
def tracedEvent (traceFd : Int32) (call : TracedCall) (result : KernelResult)
    (times : CallTimes) : Event :=
  if namesTraceFd traceFd call then eventOf call (-1) ebadf result.memory times
  else if isExit call then eventOf call 0 0 result.memory times
  else
    let err := if result.ret < 0 then result.errno else 0
    eventOf call result.ret err result.memory times

end SyzAbi.Agent.Arceos

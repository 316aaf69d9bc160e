import SyzAbi.Agent.LinuxEvent
import SyzAbi.Library.OpenFiles

/-!
# The event stream of the Linux tracer

`traced_syscall` runs a system call of the traced program and emits its event through a descriptor
of the same process. The tracer opens the descriptor when it emits the first event, and keeps its
number. The calls of the program act on the descriptors and files of the process through their
`Effect`; what they return is not constrained.
-/

set_option autoImplicit false
set_option relaxedAutoImplicit false

namespace SyzAbi.Agent

open Library.Json Library.OpenFiles

/-! ### Effects of system calls -/

/-- What a system call does to the descriptors and files of the process. A call that fails without
an effect, or has none of these, does `nothing`. -/
inductive Effect (Path : Type)
  | openFile (path : Path) (flags : OpenFlags)
  | openAnonymous (count : ℕ)
  | close (fd : ℕ)
  | closeRange (first last : ℕ)
  | duplicate (fd least : ℕ)
  | duplicateTo (fd target : ℕ)
  | write (fd : ℕ) (bytes : Text)
  /-- `pwrite64`, `ftruncate`, `fallocate` and whatever else changes the file of a descriptor. -/
  | alter (fd : ℕ) (update : Text → Text)
  | alterNamed (path : Path) (update : Text → Text)
  /-- `lseek`, and the `read` that moves the offset. -/
  | moveOffset (fd offset : ℕ)
  | setAppend (fd : ℕ) (append : Bool)
  /-- `link`, `unlink`, `rename` and whatever else changes what the paths name. -/
  | relink (names : Path → Option ℕ)
  | nothing
  /-- `exit`, `exit_group` and a successful `execve` do not return. -/
  | noReturn

variable {Path : Type} [DecidableEq Path]

/-- Whether the system call returns. -/
def Effect.returns : Effect Path → Bool
  | .noReturn => false
  | _ => true

/-- The state after the system call. `accepted` is the number of bytes that a write takes. -/
def Effect.perform (accepted : ℕ → ℕ) (kernel : Kernel Path ℕ) : Effect Path → Kernel Path ℕ
  | .openFile path flags => (kernel.openFile path flags).getD kernel
  | .openAnonymous count => kernel.openAnonymous count
  | .close fd => kernel.close fd
  | .closeRange first last => kernel.closeRange first last
  | .duplicate fd least => kernel.duplicate fd least
  | .duplicateTo fd target => kernel.duplicateTo fd target
  | .write fd bytes => (kernel.write accepted fd bytes).1
  | .alter fd update =>
    match kernel.fileOf fd with
    | some file => kernel.alterFile file update
    | none => kernel
  | .alterNamed path update =>
    match kernel.names path with
    | some file => kernel.alterFile file update
    | none => kernel
  | .moveOffset fd offset =>
    match kernel.descriptors.get fd with
    | some id => kernel.moveDescription id offset
    | none => kernel
  | .setAppend fd append =>
    match kernel.descriptors.get fd with
    | some id => kernel.alterDescription id fun description ↦ { description with append := append }
    | none => kernel
  | .relink names => kernel.relink names
  | .nothing | .noReturn => kernel

/-- The files that the system call opens. -/
def Effect.opens (kernel : Kernel Path ℕ) : Effect Path → List ℕ
  | .openFile path flags =>
    if (kernel.openFile path flags).isSome then
      [(kernel.names path).getD kernel.files.length]
    else []
  | .openAnonymous count => List.range' kernel.files.length count
  | _ => []

/-! ### The tracer -/

/-- What the tracer is started with: the variable `SYZABI_TRACE_EVENTS_PATH`, the entry that a path
names, and how many bytes of a request a write takes. -/
structure TraceSetup (Path : Type) where
  env : TracerEnvironment
  eventsPath : Option String
  resolve : String → Path
  accepted : ℕ → ℕ
  accepted_pos : ∀ requested, 0 < requested → 0 < accepted requested
  accepted_le : ∀ requested, accepted requested ≤ requested

/-- The file of the events; `none` for the transport over the standard output. -/
def TraceSetup.eventsFile (setup : TraceSetup Path) : Option Path :=
  match setup.eventsPath with
  | none => none
  | some path => if path = "" || path = "stdout" then none else some (setup.resolve path)

/-- `STDOUT_FILENO`. -/
def stdoutFileno : ℕ := 1

/-- `trace_stdout_prefix`. -/
def traceStdoutPrefix : Text := PyStr.ofString "__SYZABI_TRACE_EVENT__ "

/-- The static variables of the tracer, with `none` for a negative `trace_fd`, and the process. The
last two fields record the files that the program has opened and the files that bytes of an event
were written to. -/
structure TracerState (Path : Type) where
  kernel : Kernel Path ℕ
  traceFd : Option ℕ := none
  stdoutTransport : Bool := false
  openedFiles : List ℕ := []
  eventFiles : List ℕ := []

variable (setup : TraceSetup Path)

/-- `open_trace_file`. -/
def openTraceFile (state : TracerState Path) : TracerState Path × Option ℕ :=
  match state.traceFd with
  | some fd => (state, some fd)
  | none =>
    match setup.eventsFile with
    | none =>
      ({ state with stdoutTransport := true, traceFd := some stdoutFileno }, some stdoutFileno)
    | some path =>
      match state.kernel.openFile path ⟨true, true, false, false, true⟩ with
      | some kernel =>
        let fd := state.kernel.descriptors.lowestFree 0
        ({ state with kernel := kernel, traceFd := some fd }, some fd)
      | none => (state, none)

/-- The loop of `emit_trace_line`, with the number of bytes that were written. -/
def writeAll (kernel : Kernel Path ℕ) (fd : ℕ) (payload : Text) : Kernel Path ℕ × ℕ :=
  if payload.length = 0 then (kernel, 0)
  else if (kernel.write setup.accepted fd payload).2 = 0 then
    ((kernel.write setup.accepted fd payload).1, 0)
  else
    let count := (kernel.write setup.accepted fd payload).2
    let rest := writeAll (kernel.write setup.accepted fd payload).1 fd (payload.drop count)
    (rest.1, count + rest.2)
termination_by payload.length
decreasing_by
  rw [List.length_drop]
  omega

/-- `emit_trace_line`. -/
def emitTraceLine (state : TracerState Path) (line : Text) : TracerState Path :=
  let (state, descriptor) := openTraceFile setup state
  match descriptor with
  | none => state
  | some fd =>
    if state.stdoutTransport && 33024 ≤ traceStdoutPrefix.length + line.length then state
    else
      let payload := if state.stdoutTransport then traceStdoutPrefix ++ line else line
      let written := writeAll setup state.kernel fd payload
      { state with
        kernel := written.1
        eventFiles := state.eventFiles ++
          if written.2 = 0 then [] else (state.kernel.fileOf fd).toList }

/-- A call of the generated code, with what the system call does and answers. -/
structure ProgramCall (Path : Type) where
  call : TracedCall
  effect : Effect Path
  result : KernelResult
  times : CallTimes

/-- The event of a call that returned. -/
def ProgramCall.event (call : ProgramCall Path) : Event :=
  tracedEvent setup.env call.call call.result call.times

/-- `traced_syscall`, for a call that returns. -/
def tracedSyscall (state : TracerState Path) (call : ProgramCall Path) : TracerState Path :=
  emitTraceLine setup
    { state with
      kernel := call.effect.perform setup.accepted state.kernel
      openedFiles := state.openedFiles ++ call.effect.opens state.kernel }
    (emitEvent setup.env (call.event setup))

/-- The calls of a program one after the other, up to one that does not return. -/
def runCalls (state : TracerState Path) : List (ProgramCall Path) → TracerState Path
  | [] => state
  | call :: rest => if call.effect.returns then runCalls (tracedSyscall setup state call) rest
    else state

/-- The calls that return. -/
def returnedCalls (calls : List (ProgramCall Path)) : List (ProgramCall Path) :=
  calls.takeWhile fun call ↦ call.effect.returns

/-- The line of a call in the destination of the events. -/
def eventLine (call : ProgramCall Path) : Text :=
  (if setup.eventsFile = none then traceStdoutPrefix else []) ++
    emitEvent setup.env (call.event setup)

end SyzAbi.Agent

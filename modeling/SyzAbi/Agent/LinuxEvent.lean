import SyzAbi.Analyzer.Schemas
import SyzAbi.Library.JsonPrinted

/-!
# The events of the Linux tracer

`agent/linux/trace.c` from the result of a system call to the line of its event: which output
buffers are probed (`collectOutputs`), how a probe is previewed and digested, which value an
injection replaces, and the JSON text of the event (`emitEvent`).

The numbers are those of the C code: `long` and `int` are `Int64` and `Int32`, times are `UInt64`.
The digest is a parameter, and so are the numbers and sizes of the platform the tracer is built for.
-/

set_option autoImplicit false
set_option relaxedAutoImplicit false

namespace SyzAbi.Agent

open Library.Json

/-! ### Names and digests -/

/-- The characters of a C identifier. -/
def isIdentifierChar (c : ℕ) : Bool :=
  (48 ≤ c && c ≤ 57) || (65 ≤ c && c ≤ 90) || c = 95 || (97 ≤ c && c ≤ 122)

/-- A short identifier: the name of a system call in the generated code, or of a side. -/
structure ShortName where
  text : String
  identifier : ∀ c ∈ PyStr.ofString text, isIdentifierChar c = true
  short : (PyStr.ofString text).length ≤ 64

def referenceSide : ShortName := ⟨"reference", by decide, by decide⟩
def getpidName : ShortName := ⟨"getpid", by decide, by decide⟩

/-- `digest_hex`: 64 lowercase hexadecimal digits for every byte string. -/
structure Digest where
  hex : List UInt8 → Text
  isIdentifier : ∀ bytes, ∀ c ∈ hex bytes, isIdentifierChar c = true
  length_eq : ∀ bytes, (hex bytes).length = 64

/-! ### Calls and results -/

/-- The six argument registers of a call. -/
structure Args where
  a0 : Int64
  a1 : Int64
  a2 : Int64
  a3 : Int64
  a4 : Int64
  a5 : Int64
  deriving DecidableEq

/-- The arguments in the order of the event. -/
def Args.toList (args : Args) : List Int64 :=
  [args.a0, args.a1, args.a2, args.a3, args.a4, args.a5]

/-- What the generated code passes to `traced_syscall`. -/
structure TracedCall where
  name : ShortName
  number : Int64
  callIndex : Int64
  args : Args

/-- The state after a system call: its return value, `errno`, which was set to 0 before the call,
and the memory of the program. -/
structure KernelResult where
  ret : Int64
  errno : Int32
  memory : UInt64 → UInt8

/-- The two readings of `monotonic_ns`. -/
structure CallTimes where
  startNs : UInt64
  endNs : UInt64

/-- The bytes from an address on. -/
def bytesAt (memory : UInt64 → UInt8) (address : Int64) (length : ℕ) : List UInt8 :=
  (List.range length).map fun offset ↦ memory (address.toUInt64 + UInt64.ofNat offset)

theorem length_bytesAt (memory : UInt64 → UInt8) (address : Int64) (length : ℕ) :
    (bytesAt memory address length).length = length := by
  simp [bytesAt]

/-- The `int` at an address. -/
def intAt (memory : UInt64 → UInt8) (address : Int64) : Int32 :=
  let byte (offset : ℕ) : UInt32 := (memory (address.toUInt64 + UInt64.ofNat offset)).toUInt32
  (byte 0 ||| byte 1 <<< 8 ||| byte 2 <<< 16 ||| byte 3 <<< 24).toInt32

/-! ### Platforms -/

/-- The cases of the `switch` of `collect_outputs`. -/
inductive ProbedSyscall
  | read
  | pread64
  | pipe
  | pipe2
  | socketpair
  | fstat
  | newfstatat
  | wait4
  deriving DecidableEq

/-- What the tracer takes from the headers it is compiled with: the `switch` over the numbers of the
system calls, whose cases are absent where a platform lacks the number, and the layout of the
structures it probes. -/
structure Platform where
  probedSyscall : Int64 → Option ProbedSyscall
  statSize : ℕ
  volatileStatFields : List (ℕ × ℕ)
  rusageSize : ℕ
  statSize_lt : statSize < 2 ^ 64
  rusageSize_lt : rusageSize < 2 ^ 64

/-! ### Probes -/

instance neZeroSix : NeZero 6 := ⟨by decide⟩

/-- An enabled `output_probe`, with the bytes that its pointer and length name. The length is a
`size_t`, and there is room for two resource values. -/
structure OutputProbe where
  label : ShortName
  argIndex : Fin 6
  bytes : List UInt8
  resourceKindFd : Bool := false
  resourceValues : List Int64 := []
  bytes_lt : bytes.length < 2 ^ 64
  resourceValues_le : resourceValues.length ≤ 2 := by decide

def bufLabel : ShortName := ⟨"buf", by decide, by decide⟩
def pipefdLabel : ShortName := ⟨"pipefd", by decide, by decide⟩
def socketpairLabel : ShortName := ⟨"socketpair", by decide, by decide⟩
def statLabel : ShortName := ⟨"stat", by decide, by decide⟩
def statusLabel : ShortName := ⟨"status", by decide, by decide⟩
def rusageLabel : ShortName := ⟨"rusage", by decide, by decide⟩

/-- The probe of the bytes behind an argument. -/
def bytesProbe (memory : UInt64 → UInt8) (label : ShortName) (argIndex : Fin 6) (address : Int64)
    (length : ℕ) (hlt : length < 2 ^ 64) : OutputProbe where
  label := label
  argIndex := argIndex
  bytes := bytesAt memory address length
  bytes_lt := by rwa [length_bytesAt]

/-- The probe of a structure behind an argument, unless the argument is a null pointer. -/
def pointerProbe (memory : UInt64 → UInt8) (label : ShortName) (argIndex : Fin 6) (address : Int64)
    (length : ℕ) (hlt : length < 2 ^ 64) : List OutputProbe :=
  if address ≠ 0 then [bytesProbe memory label argIndex address length hlt] else []

/-- The probe of a pair of descriptors behind an argument. -/
def descriptorPairProbe (memory : UInt64 → UInt8) (label : ShortName) (argIndex : Fin 6)
    (address : Int64) : List OutputProbe :=
  if address ≠ 0 then
    [{ label := label
       argIndex := argIndex
       bytes := bytesAt memory address 8
       resourceKindFd := true
       resourceValues := [(intAt memory address).toInt64, (intAt memory (address + 4)).toInt64]
       bytes_lt := by rw [length_bytesAt]; norm_num
       resourceValues_le := le_rfl }]
  else []

/-- `min_size` of a return value and the limit of a probe. -/
def readLength (ret : Int64) : ℕ := min ret.toInt.toNat 4096

theorem readLength_lt (ret : Int64) : readLength ret < 2 ^ 64 := by
  rw [readLength]
  omega

/-- The probe of the bytes that a call read. -/
def readProbe (call : TracedCall) (result : KernelResult) : List OutputProbe :=
  if call.args.a1 ≠ 0 ∧ 0 < result.ret then
    [bytesProbe result.memory bufLabel 1 call.args.a1 (readLength result.ret)
      (readLength_lt result.ret)]
  else []

/-- `collect_outputs`. -/
def collectOutputs (platform : Platform) (call : TracedCall) (result : KernelResult) :
    List OutputProbe :=
  if result.ret < 0 then []
  else
    match platform.probedSyscall call.number with
    | some .read | some .pread64 => readProbe call result
    | some .pipe | some .pipe2 => descriptorPairProbe result.memory pipefdLabel 0 call.args.a0
    | some .socketpair => descriptorPairProbe result.memory socketpairLabel 3 call.args.a3
    | some .fstat =>
      pointerProbe result.memory statLabel 1 call.args.a1 platform.statSize platform.statSize_lt
    | some .newfstatat =>
      pointerProbe result.memory statLabel 2 call.args.a2 platform.statSize platform.statSize_lt
    | some .wait4 =>
      pointerProbe result.memory statusLabel 1 call.args.a1 4 (by norm_num) ++
        pointerProbe result.memory rusageLabel 3 call.args.a3 platform.rusageSize
          platform.rusageSize_lt
    | none => []

theorem length_pointerProbe_le (memory : UInt64 → UInt8) (label : ShortName) (argIndex : Fin 6)
    (address : Int64) (length : ℕ) (hlt : length < 2 ^ 64) :
    (pointerProbe memory label argIndex address length hlt).length ≤ 1 := by
  rw [pointerProbe]
  split_ifs <;> simp

/-- The probes fit into the array of `traced_syscall`. -/
theorem length_collectOutputs_le (platform : Platform) (call : TracedCall) (result : KernelResult) :
    (collectOutputs platform call result).length ≤ 3 := by
  have hread : (readProbe call result).length ≤ 3 := by
    rw [readProbe]
    split_ifs <;> simp
  have hpair : ∀ label argIndex address,
      (descriptorPairProbe result.memory label argIndex address).length ≤ 3 := by
    intro label argIndex address
    rw [descriptorPairProbe]
    split_ifs <;> simp
  have hpointer := length_pointerProbe_le result.memory
  rw [collectOutputs]
  by_cases hret : result.ret < 0
  · simp [hret]
  · rw [if_neg hret]
    split
    · exact hread
    · exact hread
    · exact hpair _ _ _
    · exact hpair _ _ _
    · exact hpair _ _ _
    · exact (hpointer _ _ _ _ _).trans (by omega)
    · exact (hpointer _ _ _ _ _).trans (by omega)
    · rw [List.length_append]
      have hstatus := hpointer statusLabel 1 call.args.a1 4 (by norm_num)
      have hrusage := hpointer rusageLabel 3 call.args.a3 platform.rusageSize platform.rusageSize_lt
      omega
    · simp

/-- `safe_probe_length`. -/
def safeProbeLength (previewBytes requested : ℕ) : ℕ :=
  if requested = 0 then 0 else min requested previewBytes

/-- Two hexadecimal digits. -/
def hexByte (byte : UInt8) : Text :=
  [hexChar (byte.toNat / 16), hexChar (byte.toNat % 16)]

/-- `hex_preview` into a buffer of `outSize` characters. -/
def hexPreview (bytes : List UInt8) (outSize : ℕ) : Text :=
  (bytes.take ((outSize - 1) / 2)).flatMap hexByte

/-- `zero_range`. -/
def zeroRange (bytes : List UInt8) (field : ℕ × ℕ) : List UInt8 :=
  bytes.mapIdx fun index byte ↦ if field.1 ≤ index ∧ index < field.1 + field.2 then 0 else byte

/-- `sanitize_stat_bytes`. -/
def sanitizeStatBytes (platform : Platform) (bytes : List UInt8) : List UInt8 :=
  if bytes.length < platform.statSize then bytes
  else platform.volatileStatFields.foldl zeroRange bytes

/-- `is_stat_probe`. -/
def isStatProbe (platform : Platform) (probe : OutputProbe) : Bool :=
  probe.label.text = "stat" && probe.bytes.length = platform.statSize

/-- The bytes that a preview and a digest are made of. -/
def probedBytes (platform : Platform) (probe : OutputProbe) : List UInt8 :=
  if isStatProbe platform probe then sanitizeStatBytes platform probe.bytes else probe.bytes

/-! ### Injections -/

/-- `syzabi_injection`. -/
structure Injection where
  enabled : Bool := false
  callIndex : Int64 := -1
  syscallName : Option String := none
  field : Option String := none
  value : Int64 := 0

/-- `is_injection_match`. -/
def isInjectionMatch (injection : Injection) (callIndex : Int64) (syscallName : String) : Bool :=
  injection.enabled &&
    !(0 ≤ injection.callIndex && injection.callIndex ≠ callIndex) &&
    match injection.syscallName with
    | some name => name = "" || name = syscallName
    | none => true

/-! ### Events -/

/-- The environment of the tracer: what `runner.c` reads, and the code it is linked with. -/
structure TracerEnvironment where
  side : ShortName
  previewBytes : ℕ
  injection : Injection := {}
  digest : Digest
  platform : Platform

/-- The arguments of `emit_event`. -/
structure Event where
  call : TracedCall
  tracedRet : Int64
  tracedErrno : Int32
  times : CallTimes
  probes : List OutputProbe
  probes_le : probes.length ≤ 3

/-- The part of `traced_syscall` between the system call and `emit_event`. -/
def tracedEvent (env : TracerEnvironment) (call : TracedCall) (result : KernelResult)
    (times : CallTimes) : Event :=
  let injected (field : String) : Bool :=
    isInjectionMatch env.injection call.callIndex call.name.text && env.injection.field = some field
  { call := call
    tracedRet := if injected "return" then env.injection.value else result.ret
    tracedErrno := if injected "errno" then env.injection.value.toInt32 else result.errno
    times := times
    probes := collectOutputs env.platform call result
    probes_le := length_collectOutputs_le env.platform call result }

/-- One character of `append_json_string`. -/
def jsonChar (c : ℕ) : Text :=
  if c = 92 then [92, 92]
  else if c = 34 then [92, 34]
  else if c = 10 then [92, 110]
  else if c = 13 then [92, 114]
  else if c = 9 then [92, 116]
  else if c < 32 then [63]
  else [c]

/-- `append_json_string`. -/
def jsonString (text : Text) : Text := 34 :: text.flatMap jsonChar ++ [34]

/-- A key and the text of its value. -/
def member (key : String) (text : Text) : Text :=
  memberText (PyStr.ofString key) text

/-- The preview of a probe. -/
def probePreview (env : TracerEnvironment) (probe : OutputProbe) : Text :=
  hexPreview ((probedBytes env.platform probe).take
    (safeProbeLength env.previewBytes probe.bytes.length)) 8192

/-- One item of the `outputs` of an event. -/
def outputText (env : TracerEnvironment) (probe : OutputProbe) : Text :=
  objectText (
    [member "label" (jsonString (PyStr.ofString probe.label.text)),
     member "arg_index" (decimal probe.argIndex.val),
     member "length" (decimal probe.bytes.length),
     member "preview_hex" (jsonString (probePreview env probe)),
     member "sha256" (jsonString (env.digest.hex (probedBytes env.platform probe)))] ++
    if probe.resourceKindFd then
      [member "resource_kind" (jsonString (PyStr.ofString "fd")),
       member "resource_values" (arrayText (probe.resourceValues.map fun value ↦
         decimalInt value.toInt))]
    else [])

/-- The JSON text of an event. -/
def eventText (env : TracerEnvironment) (event : Event) : Text :=
  objectText
    [member "event_index" (decimalInt event.call.callIndex.toInt),
     member "side" (jsonString (PyStr.ofString env.side.text)),
     member "syscall_name" (jsonString (PyStr.ofString event.call.name.text)),
     member "syscall_number" (decimalInt event.call.number.toInt),
     member "args" (arrayText (event.call.args.toList.map fun arg ↦ decimalInt arg.toInt)),
     member "return_value" (decimalInt event.tracedRet.toInt),
     member "errno" (decimalInt event.tracedErrno.toInt),
     member "start_ns" (decimal event.times.startNs.toNat),
     member "end_ns" (decimal event.times.endNs.toNat),
     member "timed_out" (PyStr.ofString "false"),
     member "outputs" (arrayText (event.probes.map (outputText env)))]

/-- `emit_event`: the text and a line feed, cut off where the buffer `line` ends. -/
def emitEvent (env : TracerEnvironment) (event : Event) : Text :=
  (eventText env event ++ [10]).take (32768 - 1)

end SyzAbi.Agent

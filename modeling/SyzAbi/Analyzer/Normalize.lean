import SyzAbi.Analyzer.Schemas

/-!
# Canonical traces

`analyzer/normalize.py`. `canonicalize` replaces the handles of a raw trace by tokens. A handle is a
descriptor, an address or a process number; which argument and which return value is one is read off
the tables `FD_ARG_POSITIONS`, `PID_ARG_POSITIONS`, `ADDR_ARG_POSITIONS` and the three sets of
returning calls. One `CanonicalContext` serves the whole trace: `token` hands out `fd#0`, `fd#1`,
... in the order in which values are first met, for arguments, return values and output resources
alike.

The functions run in `StateM CanonicalContext`, so that the order of the source's calls of
`ctx.token` is the order of the statements.
-/

set_option autoImplicit false
set_option relaxedAutoImplicit false

namespace SyzAbi.Analyzer

/-- The three kinds of handle values. -/
inductive HandleKind
  | fd
  | addr
  | pid
  deriving DecidableEq

/-- The prefix of a kind's tokens. -/
def HandleKind.name : HandleKind → String
  | .fd => "fd"
  | .addr => "addr"
  | .pid => "pid"

def fdReturnSyscalls : List String := ["open", "openat", "eventfd", "eventfd2"]

def pidReturnSyscalls : List String := ["clone", "getpid", "getppid"]

def addrReturnSyscalls : List String := ["mmap", "brk"]

def fdArgPositions : String → List ℕ
  | "close" | "read" | "write" | "pread64" | "pwrite64" | "lseek" | "fstat" | "newfstatat"
  | "openat" => [0]
  | "mmap" => [4]
  | _ => []

def pidArgPositions : String → List ℕ
  | "wait4" => [0]
  | _ => []

def addrArgPositions : String → List ℕ
  | "open" | "mkdir" | "unlink" | "mmap" | "munmap" | "mprotect" | "brk" | "pipe" | "pipe2" => [0]
  | "openat" | "read" | "write" | "pread64" | "pwrite64" | "fstat" => [1]
  | "newfstatat" => [1, 2]
  | "rename" => [0, 1]
  | "clone" => [1, 2, 3, 4]
  | "wait4" => [1, 3]
  | "socketpair" => [3]
  | _ => []

/-- `CanonicalContext`: the three dictionaries from handle values to tokens, in insertion order. -/
structure CanonicalContext where
  fdMap : List (ℤ × String) := []
  addrMap : List (ℤ × String) := []
  pidMap : List (ℤ × String) := []

namespace CanonicalContext

/-- The dictionary of a kind. -/
def mapping (ctx : CanonicalContext) : HandleKind → List (ℤ × String)
  | .fd => ctx.fdMap
  | .addr => ctx.addrMap
  | .pid => ctx.pidMap

/-- `mapping[value] = token` for a new value. -/
def insert (ctx : CanonicalContext) (kind : HandleKind) (value : ℤ) (token : String) :
    CanonicalContext :=
  match kind with
  | .fd => { ctx with fdMap := ctx.fdMap ++ [(value, token)] }
  | .addr => { ctx with addrMap := ctx.addrMap ++ [(value, token)] }
  | .pid => { ctx with pidMap := ctx.pidMap ++ [(value, token)] }

@[simp] theorem mapping_insert_self (ctx : CanonicalContext) (kind : HandleKind) (value : ℤ)
    (token : String) :
    (ctx.insert kind value token).mapping kind = ctx.mapping kind ++ [(value, token)] := by
  cases kind <;> rfl

theorem mapping_insert_of_ne (ctx : CanonicalContext) {kind other : HandleKind}
    (hne : other ≠ kind) (value : ℤ) (token : String) :
    (ctx.insert kind value token).mapping other = ctx.mapping other := by
  cases kind <;> cases other <;> first | rfl | exact absurd rfl hne

/-- The text of the token with a given number. -/
def tokenText (kind : HandleKind) (number : ℕ) : String :=
  kind.name ++ "#" ++ number.repr

/-- `CanonicalContext.token`. -/
def token (kind : HandleKind) (value : ℤ) : StateM CanonicalContext String := fun ctx ↦
  match (ctx.mapping kind).lookup value with
  | some known => (known, ctx)
  | none =>
    let fresh := tokenText kind (ctx.mapping kind).length
    (fresh, ctx.insert kind value fresh)

end CanonicalContext

open CanonicalContext

/-- The values that stay numbers although their position holds a handle. -/
def sentinelValues : List ℤ := [0, -1, -100]

/-- `normalize_scalar`. -/
def normalizeScalar (value : ℤ) (kind : Option HandleKind) : StateM CanonicalContext Scalar :=
  match kind with
  | some kind =>
    if value ∈ sentinelValues then pure (.int value)
    else do return .token (← token kind value)
  | none => pure (.int value)

/-- The masking of a `stat` preview: its first 32 hex characters become zeros. -/
def maskedPreview (output : RawOutput) : String :=
  if output.label = "stat" ∧ 32 ≤ output.previewHex.length then
    String.ofList (List.replicate 32 '0' ++ output.previewHex.toList.drop 32)
  else output.previewHex

/-- The `resource_values` of a normalized output, for the kind `"fd"` only. -/
def normalizeResources (output : RawOutput) :
    StateM CanonicalContext (Option (List String)) :=
  if output.resourceKind = some "fd" then
    some <$> output.resourceValues.mapM (token .fd)
  else pure none

/-- The body of the loop of `normalize_outputs`. -/
def normalizeOutput (output : RawOutput) : StateM CanonicalContext CanonicalOutput := do
  let fdResources ← normalizeResources output
  return {
    label := output.label
    argIndex := output.argIndex
    length := output.length
    previewHex := maskedPreview output
    sha256 := output.sha256
    fdResources := fdResources }

/-- `normalize_outputs`. -/
def normalizeOutputs (outputs : List RawOutput) : StateM CanonicalContext (List CanonicalOutput) :=
  outputs.mapM normalizeOutput

/-- The kind of the argument `value` at position `index` of a call. -/
def argKind (name : String) (index : ℕ) (value : ℤ) : Option HandleKind :=
  if index ∈ fdArgPositions name ∧ 0 ≤ value then some .fd
  else if index ∈ pidArgPositions name ∧ 0 < value then some .pid
  else if index ∈ addrArgPositions name ∧ 0 < value then some .addr
  else none

/-- The kind of the return value `value` of a call. -/
def returnKind (name : String) (value : ℤ) : Option HandleKind :=
  if name ∈ fdReturnSyscalls ∧ 0 ≤ value then some .fd
  else if name ∈ pidReturnSyscalls ∧ 0 < value then some .pid
  else if name ∈ addrReturnSyscalls ∧ 0 < value then some .addr
  else none

/-- The `return_value` of a normalized event. -/
def normalizeReturn (event : RawEvent) : StateM CanonicalContext Scalar :=
  if event.returnValue ≠ 0 then
    normalizeScalar event.returnValue (returnKind event.syscallName event.returnValue)
  else pure (.int 0)

/-- `normalize_event`. -/
def normalizeEvent (event : RawEvent) (actualIndex : ℕ)
    : StateM CanonicalContext CanonicalEvent := do
  let name := event.syscallName
  let args ← event.args.zipIdx.mapM fun (value, index) ↦
    normalizeScalar value (argKind name index value)
  let returnValue ← normalizeReturn event
  let outputs ← normalizeOutputs event.outputs
  return {
    index := actualIndex
    sourceEventIndex := event.eventIndex
    syscallName := name
    syscallNumber := event.syscallNumber
    args := args
    returnValue := returnValue
    errno := event.errno
    durationNs := event.endNs - event.startNs
    outputs := outputs }

/-- The list comprehension of `canonicalize`, in one context. -/
def normalizeEvents (events : List RawEvent) : StateM CanonicalContext (List CanonicalEvent) :=
  events.zipIdx.mapM fun (event, index) ↦ normalizeEvent event index

/-- `canonicalize`. -/
def canonicalize (rawTrace : RawTrace) (externalState : ExternalState) :
    Except String CanonicalTrace := do
  validateRawTrace rawTrace
  let events := ((normalizeEvents rawTrace.events).run {}).1
  return {
    programId := rawTrace.programId
    side := rawTrace.side
    eventCount := events.length
    events := events
    finalState := externalState
    processExit := rawTrace.processExit
    eventCount_eq := rfl }

end SyzAbi.Analyzer

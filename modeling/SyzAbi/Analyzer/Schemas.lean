import Mathlib

/-!
# Raw traces and canonical traces

The records of `analyzer/schemas.py`, `analyzer/normalize.py` and the samplers. A raw trace is what
one run of a testcase left behind: its events in order, the process exit, and the external state of
its work directory. A canonical trace is the same run after `canonicalize`. A record here has the
fields that the analyzer, the scheduler and the tools read; a JSON object that lacks one of them has
no counterpart, so the missing-field errors of the two validators do not occur.

`validateRawTrace` is the check every stored trace passes: event indexes strictly increase.
-/

set_option autoImplicit false
set_option relaxedAutoImplicit false

namespace SyzAbi

/-- A Python string: the list of its code points. Lone surrogates are code points too. -/
abbrev PyStr := List ℕ

instance : LawfulBEq PyStr := inferInstance

/-- The code points of a string without lone surrogates. -/
def PyStr.ofString (text : String) : PyStr :=
  text.toList.map Char.toNat

/-- One file of an external state. `sha256` is `None` next to a `read_error`. -/
structure FileItem where
  path : PyStr
  size : ℕ
  sha256 : Option String
  readError : Option String := none
  deriving DecidableEq

/-- The external state of a run: the files of its work directory, whether the sampler stopped at a
limit, and the error text of a sampler that could not read its source. -/
structure ExternalState where
  files : List FileItem
  truncated : Bool := false
  readError : Option String := none
  deriving DecidableEq

/-- The `process_exit` object of a trace. -/
structure ProcessExit where
  status : String
  exitCode : Option ℤ
  timedOut : Bool
  deriving DecidableEq

namespace Analyzer

/-- One probed output buffer of a raw event. `resourceValues` is read only when `resourceKind` is
`"fd"`. -/
structure RawOutput where
  label : String
  argIndex : ℤ
  length : ℕ
  previewHex : String
  sha256 : String
  resourceKind : Option String := none
  resourceValues : List ℤ := []
  deriving DecidableEq

/-- One traced call as the tracer wrote it. -/
structure RawEvent where
  eventIndex : ℤ
  syscallName : String
  syscallNumber : ℤ
  args : List ℤ
  returnValue : ℤ
  errno : ℤ
  startNs : ℤ
  endNs : ℤ
  outputs : List RawOutput
  deriving DecidableEq

/-- The stored trace of one run. -/
structure RawTrace where
  programId : String
  side : String
  runId : String
  status : String
  events : List RawEvent
  processExit : ProcessExit
  deriving DecidableEq

/-- A canonical argument, return value or resource value: a number, or the token of a handle. -/
inductive Scalar
  | int (value : ℤ)
  | token (text : String)
  deriving DecidableEq

/-- One output buffer after `normalize_outputs`. `fdResources` holds the tokens of the
`resource_values` key; it is `none` when the keys `resource_kind` and `resource_values` are
absent. -/
structure CanonicalOutput where
  label : String
  argIndex : ℤ
  length : ℕ
  previewHex : String
  sha256 : String
  fdResources : Option (List String)
  deriving DecidableEq

/-- One event after `normalize_event`. -/
structure CanonicalEvent where
  index : ℕ
  sourceEventIndex : ℤ
  syscallName : String
  syscallNumber : ℤ
  args : List Scalar
  returnValue : Scalar
  errno : ℤ
  durationNs : ℤ
  outputs : List CanonicalOutput
  deriving DecidableEq

/-- A canonical trace. The check of `validate_canonical_trace`, that `event_count` is the number of
events, is a field. -/
structure CanonicalTrace where
  programId : String
  side : String
  eventCount : ℕ
  events : List CanonicalEvent
  finalState : ExternalState
  processExit : ProcessExit
  eventCount_eq : eventCount = events.length
  deriving DecidableEq

/-- The loop of `validate_raw_trace` from the event index `previous` on. -/
def validateEventIndexes (previous : ℤ) : List RawEvent → Except String Unit
  | [] => .ok ()
  | event :: rest =>
    if event.eventIndex ≤ previous then
      .error "raw trace event indexes are not strictly increasing"
    else validateEventIndexes event.eventIndex rest

/-- `validate_raw_trace`: the event indexes start at 0 or later and strictly increase. -/
def validateRawTrace (trace : RawTrace) : Except String Unit :=
  validateEventIndexes (-1) trace.events

/-- The loop accepts exactly the lists whose indexes exceed `previous` and strictly increase. -/
theorem validateEventIndexes_eq_ok_iff (previous : ℤ) (events : List RawEvent) :
    validateEventIndexes previous events = .ok () ↔
      (previous :: events.map RawEvent.eventIndex).IsChain (· < ·) := by
  induction events generalizing previous with
  | nil => simp [validateEventIndexes]
  | cons event rest ih =>
    rw [validateEventIndexes, List.map_cons, List.isChain_cons_cons, ← ih]
    split_ifs with hle
    · simp [not_lt.mpr hle]
    · simp [not_le.mp hle]

end Analyzer

end SyzAbi

import SyzAbi.Analyzer.Divergence
import SyzAbi.Tools.ReduceCase

/-!
# From an event to the call of the program

`map_event_index_to_program_call` (`tools/reduce_case.py`) counts the events before the one with the
given index, without those whose names are in `runtime_syscalls`. A trace begins with calls that the
C runtime makes, and goes on with the calls of the program (`TracedProgram`). The names are all the
function looks at, so it also skips calls of the program that are called like those of the runtime:
it returns the position of a call exactly when no call of the program up to this one has such a name
(`mapEventIndexToProgramCall_position_iff`).
-/

set_option autoImplicit false
set_option relaxedAutoImplicit false

namespace SyzAbi.Tools

open Analyzer

/-- A trace of a program: the events of the runtime, then one for each call of the program. -/
structure TracedProgram (runtimeSyscalls : List String) where
  trace : CanonicalTrace
  preamble : List CanonicalEvent
  body : List CanonicalEvent
  calls : List String
  events_eq : trace.events = preamble ++ body
  numbered : Numbered trace.events
  preamble_runtime : ∀ event ∈ preamble, event.syscallName ∈ runtimeSyscalls
  body_calls : body.map CanonicalEvent.syscallName = calls

/-- The loop counts the events before the one that it looks for, without those of the runtime. -/
theorem mapEventIndexToProgramCall_loop_append (runtimeSyscalls : List String)
    {before rest : List CanonicalEvent} {event : CanonicalEvent}
    (hbefore : ∀ other ∈ before, other.index ≠ event.index) (callIndex : ℕ) :
    mapEventIndexToProgramCall.loop runtimeSyscalls event.index callIndex
        (before ++ event :: rest) =
      if event.syscallName ∈ runtimeSyscalls then none
      else some (callIndex + before.countP fun other ↦ other.syscallName ∉ runtimeSyscalls) := by
  induction before generalizing callIndex with
  | nil =>
    rw [List.nil_append, mapEventIndexToProgramCall.loop, if_pos rfl]
    rfl
  | cons other before ih =>
    obtain ⟨hother, hmore⟩ := List.forall_mem_cons.mp hbefore
    rw [List.cons_append, mapEventIndexToProgramCall.loop, if_neg hother, ih hmore, ih hmore,
      List.countP_cons]
    by_cases hruntime : other.syscallName ∈ runtimeSyscalls
    · simp [hruntime]
    · simp [hruntime, Nat.add_assoc, Nat.add_comm 1]

namespace TracedProgram

variable {runtimeSyscalls : List String} (program : TracedProgram runtimeSyscalls)

theorem length_body : program.body.length = program.calls.length := by
  rw [← program.body_calls, List.length_map]

/-- What the function returns for a call: its place among the calls with other names than those of
the runtime. -/
theorem mapEventIndexToProgramCall_eq {position : ℕ} (hposition : position < program.calls.length) :
    mapEventIndexToProgramCall runtimeSyscalls program.trace
        (some (program.preamble.length + position)) =
      if program.calls[position] ∈ runtimeSyscalls then none
      else some ((program.calls.take position).countP (· ∉ runtimeSyscalls)) := by
  have hbody : position < program.body.length := by rwa [length_body]
  set event := program.body[position]
  have hsplit : program.trace.events =
      (program.preamble ++ program.body.take position) ++
        event :: program.body.drop (position + 1) := by
    rw [program.events_eq, List.append_assoc, ← List.drop_eq_getElem_cons hbody,
      List.take_append_drop]
  have hplace : (program.preamble ++ program.body.take position).length =
      program.preamble.length + position := by
    rw [List.length_append, List.length_take_of_le hbody.le]
  have hindex : event.index = program.preamble.length + position := by
    refine program.numbered _ event ?_
    rw [hsplit, ← hplace, List.getElem?_append_right le_rfl, Nat.sub_self]
    rfl
  have hbefore : ∀ other ∈ program.preamble ++ program.body.take position,
      other.index ≠ event.index := by
    intro other hother
    obtain ⟨place, hlt, hget⟩ := List.getElem_of_mem hother
    have hfound : program.trace.events[place]? = some other := by
      rw [hsplit, List.getElem?_append_left hlt, List.getElem?_eq_getElem hlt, hget]
    rw [program.numbered place other hfound, hindex]
    omega
  have hname : event.syscallName = program.calls[position] := by
    simp only [← program.body_calls, List.getElem_map]
    rfl
  have hruntime : program.preamble.countP (fun other ↦ other.syscallName ∉ runtimeSyscalls) = 0 :=
    List.countP_eq_zero.mpr fun other hother ↦ by simpa using program.preamble_runtime other hother
  have hcount : (program.body.take position).countP
        (fun other ↦ other.syscallName ∉ runtimeSyscalls) =
      (program.calls.take position).countP (· ∉ runtimeSyscalls) := by
    rw [← program.body_calls, ← List.map_take, List.countP_map]
    rfl
  rw [mapEventIndexToProgramCall, Option.bind_some, ← hindex, hsplit,
    mapEventIndexToProgramCall_loop_append runtimeSyscalls hbefore, hname, List.countP_append,
    hruntime, hcount, Nat.zero_add, Nat.zero_add]

/-- The position of a call is returned exactly when neither the call nor one before it is called
like a call of the runtime. -/
theorem mapEventIndexToProgramCall_position_iff {position : ℕ}
    (hposition : position < program.calls.length) :
    mapEventIndexToProgramCall runtimeSyscalls program.trace
        (some (program.preamble.length + position)) = some position ↔
      ∀ name ∈ program.calls.take (position + 1), name ∉ runtimeSyscalls := by
  have htake : program.calls.take (position + 1) =
      program.calls.take position ++ [program.calls[position]] :=
    (List.take_concat_get' program.calls position hposition).symm
  have hlength : (program.calls.take position).length = position :=
    List.length_take_of_le hposition.le
  rw [program.mapEventIndexToProgramCall_eq hposition, htake, List.forall_mem_append,
    List.forall_mem_singleton]
  by_cases hruntime : program.calls[position] ∈ runtimeSyscalls
  · rw [if_pos hruntime]
    exact iff_of_false (Option.some_ne_none _ ·.symm) fun hfree ↦ hfree.2 hruntime
  · have hall := List.countP_eq_length (p := (· ∉ runtimeSyscalls))
      (l := program.calls.take position)
    rw [hlength] at hall
    rw [if_neg hruntime, Option.some_inj, hall]
    simp only [decide_eq_true_eq]
    exact ⟨fun hbefore ↦ ⟨hbefore, hruntime⟩, fun hfree ↦ hfree.1⟩

end TracedProgram

/-! ### A program that unmaps memory -/

/-- A successful call without arguments. -/
def namedEvent (index : ℕ) (name : String) : CanonicalEvent where
  index := index
  sourceEventIndex := index
  syscallName := name
  syscallNumber := 0
  args := []
  returnValue := .int 0
  errno := 0
  durationNs := 0
  outputs := []

/-- The trace of one `mmap` of the runtime and the calls of a program. -/
def namedTrace (calls : List String) : CanonicalTrace where
  programId := "p"
  side := "reference"
  eventCount := calls.length + 1
  events := ("mmap" :: calls).mapIdx namedEvent
  finalState := ⟨[], false, none⟩
  processExit := { status := "ok", exitCode := some 0, timedOut := false }
  eventCount_eq := by rw [List.length_mapIdx, List.length_cons]

/-- A program that opens a file, makes another call and closes the file. -/
def openingProgram (call : String) : TracedProgram ["mmap", "munmap", "brk"] where
  trace := namedTrace ["openat", call, "close"]
  preamble := [namedEvent 0 "mmap"]
  body := [namedEvent 1 "openat", namedEvent 2 call, namedEvent 3 "close"]
  calls := ["openat", call, "close"]
  events_eq := rfl
  numbered := by
    intro position event hevent
    rw [namedTrace, List.getElem?_mapIdx] at hevent
    obtain ⟨name, -, rfl⟩ := Option.map_eq_some_iff.mp hevent
    rfl
  preamble_runtime := by decide
  body_calls := rfl

/-- Behind a `read`, the call of `close` gets its own position. -/
theorem mapEventIndexToProgramCall_position_iff_close :
    mapEventIndexToProgramCall ["mmap", "munmap", "brk"] (openingProgram "read").trace
      (some ((openingProgram "read").preamble.length + 2)) = some 2 :=
  ((openingProgram "read").mapEventIndexToProgramCall_position_iff (by decide)).mpr (by decide)

/-- The program opens a file, unmaps memory and closes the file. -/
def unmappingProgram : TracedProgram ["mmap", "munmap", "brk"] := openingProgram "munmap"

/-- The call of `munmap` has no position, and the call of `close` gets the position of `munmap`. -/
theorem unmappingProgram_not_mapped :
    unmappingProgram.calls = ["openat", "munmap", "close"] ∧
      mapEventIndexToProgramCall ["mmap", "munmap", "brk"] unmappingProgram.trace
        (some (unmappingProgram.preamble.length + 1)) = none ∧
      mapEventIndexToProgramCall ["mmap", "munmap", "brk"] unmappingProgram.trace
        (some (unmappingProgram.preamble.length + 2)) = some 1 := by
  decide

end SyzAbi.Tools

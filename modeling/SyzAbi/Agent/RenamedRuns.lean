import SyzAbi.Agent.StatOutputs
import SyzAbi.Agent.TracerAgreement
import SyzAbi.Library.LittleEndian

/-!
# Runs under kernels that choose other descriptors

A generated program is a list of system calls whose arguments are numbers of its text or results of
earlier calls: a return value, or one of the two descriptors that an earlier call wrote to memory
(`ArgSource`). Run against the answers of a kernel it makes a list of completed calls
(`Program.run`), and each of them has an event record (`CompletedCall.record`).

Two kernels answer a call alike when the descriptors that they choose differ by a renaming and
nothing else differs (`KernelAlike`). Then the arguments of later calls are equal, or differ by the
renaming (`sameOrRenamed_completedFrom`).
-/

set_option autoImplicit false
set_option relaxedAutoImplicit false

namespace SyzAbi.Agent

open Analyzer Orchestrator Library.Json Library.LittleEndian

/-! ### Renamed descriptors -/

/-- A renaming of descriptor numbers leaves negative numbers as they are. -/
def renamed (ρ : ℕ ↪ ℕ) (value : ℤ) : ℤ := if 0 ≤ value then ρ value.toNat else value

theorem renamed_nonneg_iff (ρ : ℕ ↪ ℕ) (value : ℤ) : 0 ≤ renamed ρ value ↔ 0 ≤ value := by
  unfold renamed
  split_ifs with hvalue
  · exact iff_of_true (Int.natCast_nonneg _) hvalue
  · exact Iff.rfl

theorem renamed_injective (ρ : ℕ ↪ ℕ) : Function.Injective (renamed ρ) := by
  intro value value' heq
  have hsign := renamed_nonneg_iff ρ value
  rw [heq, renamed_nonneg_iff] at hsign
  unfold renamed at heq
  by_cases hvalue : 0 ≤ value
  · rw [if_pos hvalue, if_pos (hsign.mpr hvalue), Nat.cast_inj] at heq
    have hnumber := ρ.injective heq
    omega
  · rwa [if_neg hvalue, if_neg fun h ↦ hvalue (hsign.mp h)] at heq

/-- Two numbers are equal, or the second is the renamed first. -/
def SameOrRenamed (ρ : ℕ ↪ ℕ) (value value' : ℤ) : Prop := value' = value ∨ value' = renamed ρ value

/-! ### Buffers -/

/-- The argument at an index. -/
def Args.get (args : Args) : Fin 6 → Int64
  | 0 => args.a0
  | 1 => args.a1
  | 2 => args.a2
  | 3 => args.a3
  | 4 => args.a4
  | 5 => args.a5

/-- A buffer that a call returns something through, as far as the tracer looks at it. It may hold a
pair of descriptors. -/
structure OutputBuffer where
  label : ShortName
  argIndex : Fin 6
  length : ℕ
  isPair : Bool
  length_lt : length < 2 ^ 64

/-- The buffers of the calls that the tracer probes. -/
def outputBuffers (platform : Platform) (ret : Int64) : ProbedSyscall → List OutputBuffer
  | .read | .pread64 =>
    if 0 < ret then [⟨bufLabel, 1, readLength ret, false, readLength_lt ret⟩] else []
  | .pipe | .pipe2 => [⟨pipefdLabel, 0, 8, true, by decide⟩]
  | .socketpair => [⟨socketpairLabel, 3, 8, true, by decide⟩]
  | .fstat => [⟨statLabel, 1, platform.statSize, false, platform.statSize_lt⟩]
  | .newfstatat => [⟨statLabel, 2, platform.statSize, false, platform.statSize_lt⟩]
  | .wait4 =>
    [⟨statusLabel, 1, 4, false, by decide⟩,
      ⟨rusageLabel, 3, platform.rusageSize, false, platform.rusageSize_lt⟩]

/-- The two descriptors at an address. -/
def pairAt (memory : UInt64 → UInt8) (address : Int64) : List Int32 :=
  [intAt memory address, intAt memory (address + 4)]

/-! ### Programs and runs -/

/-- A system call of a program, what the kernel answers, and the times of the tracer. -/
structure CompletedCall where
  call : TracedCall
  result : KernelResult
  times : CallTimes

/-- The buffers of a completed call. A failed call returns nothing through memory. -/
def CompletedCall.buffers (platform : Platform) (completed : CompletedCall) : List OutputBuffer :=
  if completed.result.ret < 0 then []
  else (platform.probedSyscall completed.call.number).elim []
    (outputBuffers platform completed.result.ret)

/-- The address that a call was given for a buffer. -/
def CompletedCall.address (completed : CompletedCall) (buffer : OutputBuffer) : Int64 :=
  completed.call.args.get buffer.argIndex

/-- The descriptors that a call wrote to memory. -/
def CompletedCall.written (platform : Platform) (completed : CompletedCall) : List Int32 :=
  (completed.buffers platform).flatMap fun buffer ↦
    if buffer.isPair ∧ completed.address buffer ≠ 0 then
      pairAt completed.result.memory (completed.address buffer)
    else []

/-- Where a program takes an argument from: a number of its text, the return value of an earlier
call, or a descriptor that an earlier call wrote. -/
inductive ArgSource
  | literal (value : Int64)
  | returned (call : ℕ)
  | written (call item : ℕ)

/-- The value of an argument after some completed calls. A result that is not there is -1. -/
def ArgSource.value (platform : Platform) (history : List CompletedCall) : ArgSource → Int64
  | .literal value => value
  | .returned call => (history[call]?).elim (-1) fun completed ↦ completed.result.ret
  | .written call item =>
    ((history[call]?).bind fun completed ↦ (completed.written platform)[item]?).elim (-1)
      Int32.toInt64

/-- The calls that return a descriptor of the kernel's choice. -/
def choosingSyscalls : List String := ["open", "openat"]

/-- A call in the text of a program. Its name and its number come from one constant, so it is not
both an `open` and a call with output buffers. -/
structure GeneratedCall (platform : Platform) where
  name : ShortName
  number : Int64
  callIndex : Int64
  args : Fin 6 → ArgSource
  unprobed : name.text ∈ choosingSyscalls → platform.probedSyscall number = none

/-- The calls of a program in their order, with the increasing indexes of the generated code. -/
structure Program (platform : Platform) where
  calls : List (GeneratedCall platform)
  increasing : (-1 :: calls.map fun call ↦ call.callIndex.toInt).IsChain (· < ·)

/-- What a kernel answers, and the times of the tracer. -/
structure Answer where
  result : KernelResult
  times : CallTimes

section Runs

variable {platform : Platform}

/-- The call that is made after some completed calls. -/
def GeneratedCall.traced (call : GeneratedCall platform) (history : List CompletedCall) :
    TracedCall where
  name := call.name
  number := call.number
  callIndex := call.callIndex
  args :=
    let value (index : Fin 6) : Int64 := (call.args index).value platform history
    ⟨value 0, value 1, value 2, value 3, value 4, value 5⟩

theorem GeneratedCall.get_traced (call : GeneratedCall platform) (history : List CompletedCall)
    (index : Fin 6) :
    (call.traced history).args.get index = (call.args index).value platform history := by
  fin_cases index <;> rfl

/-- The completed calls behind a history. A call that is not answered ends the run. -/
def completedFrom (history : List CompletedCall) :
    List (GeneratedCall platform) → List Answer → List CompletedCall
  | call :: calls, answer :: answers =>
    let completed : CompletedCall := ⟨call.traced history, answer.result, answer.times⟩
    completed :: completedFrom (history ++ [completed]) calls answers
  | [], _ => []
  | _, [] => []

/-- The run of a program under the answers of a kernel. -/
def Program.run (program : Program platform) (answers : List Answer) : List CompletedCall :=
  completedFrom [] program.calls answers

end Runs

/-! ### Events -/

/-- The event of a completed call. -/
def CompletedCall.event (env : TracerEnvironment) (completed : CompletedCall) : Event :=
  tracedEvent env completed.call completed.result completed.times

/-- The event record of a completed call. -/
def CompletedCall.record (env : TracerEnvironment) (completed : CompletedCall) : RawEvent :=
  rawEvent env (completed.event env)

/-- The canonical trace of a run, from the event file of the tracer. -/
def canonicalTraceOf (env : TracerEnvironment) (record : RunRecord) (run : List CompletedCall) :
    Except PyError CanonicalTrace :=
  canonicalTrace env.side.text record
    (parseEvents ((run.map fun completed ↦ completed.event env).flatMap (emitEvent env)))

/-! ### Kernels that behave alike -/

/-- Two kernels answer a call alike, up to the names of the descriptors that they choose: the return
value of an `open` and the pair that a `pipe` or a `socketpair` writes are renamed, and everything
else is equal. Nothing is said about the other buffers. They may hold a descriptor number that the
program put there, so that a `read` returns it, or a `wait4` without a child to report leaves it. -/
structure KernelAlike (platform : Platform) (ρ : ℕ ↪ ℕ) (left right : CompletedCall) : Prop where
  ret : right.result.ret.toInt =
    if left.call.name.text ∈ choosingSyscalls then renamed ρ left.result.ret.toInt
    else left.result.ret.toInt
  errno : right.result.errno = left.result.errno
  pair : ∀ buffer ∈ left.buffers platform, buffer.isPair = true →
    left.address buffer ≠ 0 → right.address buffer ≠ 0 →
      (pairAt right.result.memory (right.address buffer)).map Int32.toInt =
        (pairAt left.result.memory (left.address buffer)).map fun descriptor ↦
          renamed ρ descriptor.toInt

/-- The runs of a program under two kernels that behave identically except for the descriptors that
they choose. -/
def RunsAlike {platform : Platform} (ρ : ℕ ↪ ℕ) (program : Program platform)
    (answers answers' : List Answer) : Prop :=
  List.Forall₂ (KernelAlike platform ρ) (program.run answers) (program.run answers')

/-- Two completed calls come from one call of a program. -/
structure SameCall (platform : Platform) (left right : CompletedCall) : Prop where
  name : right.call.name = left.call.name
  number : right.call.number = left.call.number
  callIndex : right.call.callIndex = left.call.callIndex
  unprobed : left.call.name.text ∈ choosingSyscalls →
    platform.probedSyscall left.call.number = none

/-- Two completed calls of one call of a program, with null pointers in the same places, under
kernels that answer alike. -/
structure CallsAlike (platform : Platform) (ρ : ℕ ↪ ℕ) (left right : CompletedCall) : Prop where
  same : SameCall platform left right
  kernel : KernelAlike platform ρ left right
  null : ∀ index, right.call.args.get index = 0 ↔ left.call.args.get index = 0

section Alike

variable {platform : Platform} {ρ : ℕ ↪ ℕ} {left right : CompletedCall}

theorem KernelAlike.sameOrRenamed (hkernel : KernelAlike platform ρ left right) :
    SameOrRenamed ρ left.result.ret.toInt right.result.ret.toInt := by
  have hret := hkernel.ret
  split_ifs at hret with hchoosing
  · exact Or.inr hret
  · exact Or.inl hret

/-- The two calls have the same buffers. -/
theorem KernelAlike.buffers_eq (hkernel : KernelAlike platform ρ left right)
    (hsame : SameCall platform left right) : right.buffers platform = left.buffers platform := by
  unfold CompletedCall.buffers
  rw [hsame.number]
  by_cases hchoosing : left.call.name.text ∈ choosingSyscalls
  · simp only [hsame.unprobed hchoosing, Option.elim_none, ite_self]
  · have hret := hkernel.ret
    rw [if_neg hchoosing] at hret
    rw [Int64.toInt_inj.mp hret]

/-- The descriptors that the two calls wrote differ by the renaming. -/
theorem CallsAlike.written (halike : CallsAlike platform ρ left right) :
    (right.written platform).map Int32.toInt =
      (left.written platform).map fun descriptor ↦ renamed ρ descriptor.toInt := by
  unfold CompletedCall.written
  rw [halike.kernel.buffers_eq halike.same, List.map_flatMap, List.map_flatMap]
  refine List.flatMap_congr fun buffer hbuffer ↦ ?_
  have hnull : right.address buffer = 0 ↔ left.address buffer = 0 := halike.null buffer.argIndex
  by_cases haddress : buffer.isPair = true ∧ left.address buffer ≠ 0
  · have haddress' : right.address buffer ≠ 0 := fun h ↦ haddress.2 (hnull.mp h)
    rw [if_pos haddress, if_pos ⟨haddress.1, haddress'⟩]
    exact halike.kernel.pair buffer hbuffer haddress.1 haddress.2 haddress'
  · rw [if_neg haddress, if_neg, List.map_nil, List.map_nil]
    exact fun h ↦ haddress ⟨h.1, fun h' ↦ h.2 (hnull.mpr h')⟩

/-- An argument has the same value after both histories, or a renamed one. -/
theorem sameOrRenamed_value {history history' : List CompletedCall}
    (hhistory : List.Forall₂ (CallsAlike platform ρ) history history') (source : ArgSource) :
    SameOrRenamed ρ (source.value platform history).toInt
      (source.value platform history').toInt := by
  have hat : ∀ call : ℕ, (history[call]? = none ∧ history'[call]? = none) ∨ ∃ left right,
      history[call]? = some left ∧ history'[call]? = some right ∧
        CallsAlike platform ρ left right := by
    intro call
    by_cases hcall : call < history.length
    · have hcall' : call < history'.length := hhistory.length_eq ▸ hcall
      refine Or.inr ⟨history[call], history'[call], List.getElem?_eq_getElem hcall,
        List.getElem?_eq_getElem hcall', ?_⟩
      exact hhistory.get hcall hcall'
    · refine Or.inl ⟨List.getElem?_eq_none (not_lt.mp hcall), List.getElem?_eq_none ?_⟩
      rw [← hhistory.length_eq]
      exact not_lt.mp hcall
  cases source with
  | literal value => exact Or.inl rfl
  | returned call =>
    rcases hat call with ⟨hleft, hright⟩ | ⟨left, right, hleft, hright, halike⟩
    · simp only [ArgSource.value, hleft, hright]
      exact Or.inl rfl
    · simp only [ArgSource.value, hleft, hright, Option.elim_some]
      exact halike.kernel.sameOrRenamed
  | written call item =>
    rcases hat call with ⟨hleft, hright⟩ | ⟨left, right, hleft, hright, halike⟩
    · simp only [ArgSource.value, hleft, hright]
      exact Or.inl rfl
    · have hitem := congrArg (fun values ↦ values[item]?) halike.written
      simp only [List.getElem?_map] at hitem
      simp only [ArgSource.value, hleft, hright, Option.bind_some]
      cases hvalue : (left.written platform)[item]? with
      | none =>
        rw [hvalue, Option.map_none, Option.map_eq_none_iff] at hitem
        rw [hitem]
        exact Or.inl rfl
      | some descriptor =>
        rw [hvalue, Option.map_some, Option.map_eq_some_iff] at hitem
        obtain ⟨descriptor', hvalue', heq⟩ := hitem
        rw [hvalue', Option.elim_some, Option.elim_some, Int32.toInt_toInt64,
          Int32.toInt_toInt64]
        exact Or.inr heq

/-! ### Whole runs -/

/-- Two runs of a program consist of the same calls. -/
theorem sameCall_completedFrom {R : CompletedCall → CompletedCall → Prop}
    {calls : List (GeneratedCall platform)} {history history' : List CompletedCall}
    {answers answers' : List Answer}
    (hruns : List.Forall₂ R (completedFrom history calls answers)
      (completedFrom history' calls answers')) :
    List.Forall₂ (fun left right ↦ SameCall platform left right ∧ R left right)
      (completedFrom history calls answers) (completedFrom history' calls answers') := by
  induction calls generalizing history history' answers answers' with
  | nil => exact List.Forall₂.nil
  | cons call calls ih =>
    cases answers with
    | nil =>
      cases answers' with
      | nil => exact List.Forall₂.nil
      | cons answer' answers' => cases hruns
    | cons answer answers =>
      cases answers' with
      | nil => cases hruns
      | cons answer' answers' =>
        obtain ⟨hfirst, hrest⟩ := List.forall₂_cons.mp hruns
        exact List.Forall₂.cons ⟨⟨rfl, rfl, rfl, call.unprobed⟩, hfirst⟩ (ih hrest)

/-- Under kernels that answer alike the arguments of all calls are equal, or renamed. -/
theorem sameOrRenamed_completedFrom {calls : List (GeneratedCall platform)}
    {history history' : List CompletedCall} {answers answers' : List Answer}
    (hhistory : List.Forall₂ (CallsAlike platform ρ) history history')
    (hruns : List.Forall₂ (CallsAlike platform ρ) (completedFrom history calls answers)
      (completedFrom history' calls answers')) :
    List.Forall₂ (fun left right ↦ ∀ index, SameOrRenamed ρ (left.call.args.get index).toInt
        (right.call.args.get index).toInt)
      (completedFrom history calls answers) (completedFrom history' calls answers') := by
  induction calls generalizing history history' answers answers' with
  | nil => exact List.Forall₂.nil
  | cons call calls ih =>
    cases answers with
    | nil =>
      cases answers' with
      | nil => exact List.Forall₂.nil
      | cons answer' answers' => cases hruns
    | cons answer answers =>
      cases answers' with
      | nil => cases hruns
      | cons answer' answers' =>
        obtain ⟨hfirst, hrest⟩ := List.forall₂_cons.mp hruns
        refine List.Forall₂.cons (fun index ↦ ?_) (ih ?_ hrest)
        · rw [GeneratedCall.get_traced, GeneratedCall.get_traced]
          exact sameOrRenamed_value hhistory (call.args index)
        · exact List.rel_append hhistory (List.Forall₂.cons hfirst List.Forall₂.nil)

/-- The indexes of a run are indexes of the program. -/
theorem indexes_isPrefix (calls : List (GeneratedCall platform)) (history : List CompletedCall)
    (answers : List Answer) :
    ((completedFrom history calls answers).map fun completed ↦ completed.call.callIndex.toInt) <+:
      calls.map fun call ↦ call.callIndex.toInt := by
  induction calls generalizing history answers with
  | nil => exact List.nil_prefix
  | cons call calls ih =>
    cases answers with
    | nil => exact List.nil_prefix
    | cons answer answers => exact (List.prefix_cons_inj _).mpr (ih _ _)

end Alike

end SyzAbi.Agent

import SyzAbi.Agent.EventDecoding
import SyzAbi.Library.ShellBytes
import SyzAbi.Library.Utf8Decode
import SyzAbi.Orchestrator.Models

/-!
# Requests for injections

`execute_side` and `execute_prepared_candidate_case` (`orchestrator/vm_runner.py`) put the request
for an injection into five variables of the environment, and the tracer (`agent/linux/runner.c`,
`agent/asterinas/runner.c`) reads them at every call with `getenv`, `strcmp` and `strtol`.

What the tracer reads is the request, with its numbers cut off at the ends of `long`
(`getInjection_eq`). An empty variable and one that is not set are traced alike
(`tracesAlike_getInjection`), so whoever passes the environment on may drop the empty ones.
-/

set_option autoImplicit false
set_option relaxedAutoImplicit false

namespace SyzAbi.Agent

open Analyzer Orchestrator Library Library.Json Library.Shell

/-! ### Numbers -/

/-- The white space that `strtol` skips. -/
def isCSpace (c : ℕ) : Bool := c = 32 || 9 ≤ c && c ≤ 13

/-- A number of C: whether a minus sign stands before it, its digits, and what follows. -/
def scanNumber (text : List ℕ) : Option (Bool × ℕ × List ℕ) :=
  let body := text.dropWhile isCSpace
  let digits := if body.head? = some 45 ∨ body.head? = some 43 then body.tail else body
  let number := digits.takeWhile isDigit
  if number = [] then none
  else some (body.head? = some 45, digitsValue number, digits.drop number.length)

/-- The `long` that is closest. -/
def saturate (value : ℤ) : Int64 := Int64.ofInt (max (-2 ^ 63) (min value (2 ^ 63 - 1)))

/-- `strtol` with base 10, and where it stops. -/
def strtol (text : List ℕ) : Int64 × List ℕ :=
  match scanNumber text with
  | none => (0, text)
  | some (negative, value, rest) => (saturate (if negative then -value else value), rest)

/-- `strtoul` with base 10, and where it stops. -/
def strtoul (text : List ℕ) : UInt64 × List ℕ :=
  match scanNumber text with
  | none => (0, text)
  | some (negative, value, rest) =>
    if 2 ^ 64 ≤ value then (UInt64.ofNat (2 ^ 64 - 1), rest)
    else (if negative then -UInt64.ofNat value else UInt64.ofNat value, rest)

theorem digit_head_decimal (n : ℕ) : ∃ c rest, decimal n = c :: rest ∧ isDigit c = true := by
  obtain ⟨c, rest, hcons⟩ := List.exists_cons_of_ne_nil (decimal_ne_nil n)
  exact ⟨c, rest, hcons, isDigit_of_mem_decimal (hcons ▸ List.mem_cons_self)⟩

theorem takeWhile_isDigit_decimal (n : ℕ) : (decimal n).takeWhile isDigit = decimal n :=
  List.takeWhile_eq_self_iff.mpr fun _ ↦ isDigit_of_mem_decimal

/-- The decimal text of an integer is a number of C. -/
theorem scanNumber_decimalInt (value : ℤ) :
    scanNumber (decimalInt value) = some (decide (value < 0), value.natAbs, []) := by
  obtain ⟨c, rest, hcons, hdigit⟩ := digit_head_decimal value.natAbs
  have hrange := isDigit_iff.mp hdigit
  have hscan : (decimal value.natAbs).takeWhile isDigit = decimal value.natAbs :=
    takeWhile_isDigit_decimal _
  have hvalue := digitsValue_decimal value.natAbs
  rw [decimalInt]
  by_cases hnegative : value < 0
  · have hspace : (45 :: decimal value.natAbs).dropWhile isCSpace = 45 :: decimal value.natAbs :=
      List.dropWhile_cons_of_neg (by decide)
    simp [scanNumber, hnegative, hspace, hscan, hvalue, decimal_ne_nil]
  · have hspace : (decimal value.natAbs).dropWhile isCSpace = decimal value.natAbs := by
      rw [hcons, List.dropWhile_cons_of_neg]
      simp only [isCSpace, Bool.or_eq_true, Bool.and_eq_true, decide_eq_true_eq]
      omega
    have hhead : (decimal value.natAbs).head? ≠ some 45 ∧
        (decimal value.natAbs).head? ≠ some 43 := by
      rw [hcons, List.head?_cons]
      constructor <;> intro heq <;> have := Option.some.inj heq <;> omega
    simp [scanNumber, hnegative, hspace, hscan, hvalue, hhead, decimal_ne_nil]

theorem strtol_decimalInt (value : ℤ) : strtol (decimalInt value) = (saturate value, []) := by
  rw [strtol, scanNumber_decimalInt]
  by_cases hnegative : value < 0
  · have habs : -(value.natAbs : ℤ) = value := by omega
    simp only [hnegative, decide_true, if_true, habs]
  · have habs : (value.natAbs : ℤ) = value := by omega
    simp only [hnegative, decide_false, Bool.false_eq_true, if_false, habs]

/-! ### What the tracer reads -/

/-- A C string as a text. -/
def cText (bytes : List ℕ) : String := pyText (Utf8.decode bytes)

def injectEnabledName : List ℕ := PyStr.ofString "SYZABI_INJECT_TRACE_ENABLED"

def injectCallIndexName : List ℕ := PyStr.ofString "SYZABI_INJECT_TRACE_CALL_INDEX"

def injectSyscallName : List ℕ := PyStr.ofString "SYZABI_INJECT_TRACE_SYSCALL"

def injectFieldName : List ℕ := PyStr.ofString "SYZABI_INJECT_TRACE_FIELD"

def injectValueName : List ℕ := PyStr.ofString "SYZABI_INJECT_TRACE_VALUE"

/-- The variables that `syzabi_get_injection` reads. -/
def injectionNames : List (List ℕ) :=
  [injectEnabledName, injectCallIndexName, injectSyscallName, injectFieldName, injectValueName]

def previewBytesName : List ℕ := PyStr.ofString "SYZABI_TRACE_PREVIEW_BYTES"

/-- A number in the environment, or the default where it is missing, empty or no number. -/
def longVariable (default : Int64) (value : Option (List ℕ)) : Int64 :=
  match value with
  | none => default
  | some text =>
    if text = [] then default
    else if (strtol text).2 = [] then (strtol text).1 else default

/-- The injection of these values of the variables. -/
def injectionOf (index syscall field value : Option (List ℕ)) : Injection where
  enabled := true
  callIndex := longVariable (-1) index
  syscallName := syscall.map cText
  field := field.map cText
  value := longVariable 0 value

/-- `syzabi_get_injection`. -/
def getInjection (getenv : Environment) : Injection :=
  if getenv injectEnabledName ≠ some [49] then {}
  else injectionOf (getenv injectCallIndexName) (getenv injectSyscallName) (getenv injectFieldName)
    (getenv injectValueName)

/-- `syzabi_preview_bytes`. -/
def previewBytes (getenv : Environment) : ℕ :=
  match getenv previewBytesName with
  | none => 32
  | some text =>
    if text = [] ∨ (strtoul text).2 ≠ [] ∨ (strtoul text).1 = 0 then 32
    else (strtoul text).1.toNat

theorem scanNumber_decimal (n : ℕ) : scanNumber (decimal n) = some (false, n, []) := by
  have hscan := scanNumber_decimalInt n
  rwa [decimalInt, if_neg (by omega), Int.natAbs_natCast, decide_eq_false (by omega)] at hscan

/-- A decimal number is the size, cut off at the end of `unsigned long`; 0 is the default. -/
theorem previewBytes_eq {getenv : Environment} {preview : ℕ}
    (hpreview : getenv previewBytesName = some (decimal preview)) :
    previewBytes getenv = if preview = 0 then 32 else min preview (2 ^ 64 - 1) := by
  rw [previewBytes, hpreview]
  simp only [decimal_ne_nil, strtoul, scanNumber_decimal, false_or]
  by_cases hlarge : 2 ^ 64 ≤ preview
  · simp only [hlarge, if_true]
    rw [if_neg (by decide), if_neg (by omega), min_eq_right (by omega)]
    rfl
  · have htoNat : (UInt64.ofNat preview).toNat = preview :=
      UInt64.toNat_ofNat_of_lt' (by show preview < 2 ^ 64; omega)
    have hzero : UInt64.ofNat preview = 0 ↔ preview = 0 := by
      rw [← UInt64.toNat_inj, htoNat]
      rfl
    simp only [hlarge, if_false, Bool.false_eq_true, hzero, ne_eq, not_true_eq_false, false_or]
    rw [htoNat, min_eq_left (by omega)]

/-! ### Empty variables -/

/-- Every call is traced alike under the two injections. -/
def TracesAlike (first second : Injection) : Prop :=
  ∀ (env : TracerEnvironment) (call : TracedCall) (result : KernelResult) (times : CallTimes),
    tracedEvent { env with injection := first } call result times =
      tracedEvent { env with injection := second } call result times

/-- The environments hold the same values, where an empty value is as good as none. -/
def SameValues (names : List (List ℕ)) (first second : Environment) : Prop :=
  ∀ name ∈ names, (first name).getD [] = (second name).getD []

theorem cText_nil : cText [] = "" := rfl

/-- A text that is not empty is what a variable holds, or what stands in for it. -/
theorem map_cText_eq_some_iff {value : Option (List ℕ)} {text : String} (htext : text ≠ "") :
    value.map cText = some text ↔ cText (value.getD []) = text := by
  cases value with
  | none => exact ⟨fun h ↦ (by cases h), fun h ↦ absurd (cText_nil.symm.trans h).symm htext⟩
  | some bytes => exact Option.some_inj

/-- A name that is missing matches every call, as an empty one does. -/
theorem isInjectionMatch_injectionOf (index syscall field value : Option (List ℕ))
    (callIndex : Int64) (name : String) :
    isInjectionMatch (injectionOf index syscall field value) callIndex name =
      isInjectionMatch (injectionOf index (some (syscall.getD [])) field value) callIndex name := by
  cases syscall with
  | none =>
    simp only [isInjectionMatch, injectionOf, Option.map_none, Option.map_some, Option.getD_none,
      cText_nil, decide_true, Bool.true_or]
    rfl
  | some bytes => rfl

/-- The name, the field and the numbers stand for themselves when they are not empty. -/
theorem tracesAlike_injectionOf (index syscall field value : Option (List ℕ)) :
    TracesAlike (injectionOf index syscall field value)
      (injectionOf (some (index.getD [])) (some (syscall.getD [])) (some (field.getD []))
        (some (value.getD []))) := by
  intro env call result times
  have hlong : ∀ (default : Int64) (text : Option (List ℕ)),
      longVariable default (some (text.getD [])) = longVariable default text :=
    fun default text ↦ by cases text <;> rfl
  have hmatch : isInjectionMatch (injectionOf index syscall field value) call.callIndex
      call.name.text = isInjectionMatch (injectionOf (some (index.getD [])) (some (syscall.getD []))
        (some (field.getD [])) (some (value.getD []))) call.callIndex call.name.text := by
    rw [isInjectionMatch_injectionOf]
    simp only [isInjectionMatch, injectionOf, hlong]
    rfl
  simp only [tracedEvent, hmatch]
  simp only [injectionOf, hlong, map_cText_eq_some_iff (show "return" ≠ "" by decide),
    map_cText_eq_some_iff (show "errno" ≠ "" by decide), Option.getD_some]

theorem TracesAlike.symm {first second : Injection} (halike : TracesAlike first second) :
    TracesAlike second first :=
  fun env call result times ↦ (halike env call result times).symm

theorem TracesAlike.trans {first second third : Injection} (hfirst : TracesAlike first second)
    (hsecond : TracesAlike second third) : TracesAlike first third :=
  fun env call result times ↦ (hfirst env call result times).trans (hsecond env call result times)

/-- Whoever drops or adds empty variables changes no trace. -/
theorem tracesAlike_getInjection {first second : Environment}
    (hsame : SameValues injectionNames first second) :
    TracesAlike (getInjection first) (getInjection second) := by
  simp only [SameValues, injectionNames, List.forall_mem_cons, List.not_mem_nil, false_implies,
    implies_true, and_true] at hsame
  obtain ⟨henabled, hindex, hsyscall, hfield, hvalue⟩ := hsame
  have hone : first injectEnabledName = some [49] ↔ second injectEnabledName = some [49] := by
    have hvalue : ∀ value : Option (List ℕ), value = some [49] ↔ value.getD [] = [49] := by
      intro value
      cases value <;> simp
    rw [hvalue, henabled, ← hvalue]
  by_cases hon : second injectEnabledName = some [49]
  · have hfirst := tracesAlike_injectionOf (first injectCallIndexName) (first injectSyscallName)
      (first injectFieldName) (first injectValueName)
    rw [hindex, hsyscall, hfield, hvalue] at hfirst
    rw [getInjection, getInjection, if_neg (not_not.mpr (hone.mpr hon)), if_neg (not_not.mpr hon)]
    exact hfirst.trans (tracesAlike_injectionOf _ _ _ _).symm
  · rw [getInjection, getInjection, if_pos (hone.not.mpr hon), if_pos hon]
    exact fun env call result times ↦ rfl

/-! ### Requests -/

/-- The variables of a request. -/
def injectionVariables (request : InjectTrace) : List (PyStr × PyStr) :=
  [(injectEnabledName, PyStr.ofString "1"),
   (injectCallIndexName, decimalInt request.callIndex),
   (injectSyscallName, PyStr.ofString request.syscallName),
   (injectFieldName, PyStr.ofString request.field),
   (injectValueName, decimalInt request.value)]

/-- The injection of a request. -/
def requestedInjection (request : InjectTrace) : Injection where
  enabled := true
  callIndex := saturate request.callIndex
  syscallName := some request.syscallName
  field := some request.field
  value := saturate request.value

theorem cText_encode (text : String) : cText (Utf8.encode (PyStr.ofString text)) = text := by
  rw [cText, Utf8.decode_encode isValidChar_of_mem_ofString, pyText_ofString]

theorem lt_ascii_of_mem_decimalInt {value : ℤ} {c : ℕ} (hc : c ∈ decimalInt value) : c < 128 := by
  rw [decimalInt] at hc
  have hdigit : ∀ d ∈ decimal value.natAbs, d < 128 := fun d hd ↦ by
    have hrange := isDigit_iff.mp (isDigit_of_mem_decimal hd)
    omega
  split_ifs at hc
  · rcases List.mem_cons.mp hc with rfl | hrest
    · decide
    · exact hdigit c hrest
  · exact hdigit c hc

theorem encode_decimalInt (value : ℤ) : Utf8.encode (decimalInt value) = decimalInt value :=
  Utf8.encode_ascii fun _ ↦ lt_ascii_of_mem_decimalInt

theorem decimalInt_ne_nil (value : ℤ) : decimalInt value ≠ [] := by
  rw [decimalInt]
  split_ifs
  · exact List.cons_ne_nil _ _
  · exact decimal_ne_nil _

theorem not_mem_decimalInt (value : ℤ) : 0 ∉ decimalInt value := by
  rw [decimalInt]
  have hdecimal : 0 ∉ decimal value.natAbs := not_mem_decimal (by decide) _
  split_ifs
  · rw [List.mem_cons, not_or]
    exact ⟨by decide, hdecimal⟩
  · exact hdecimal

theorem valid_decimalInt (value : ℤ) : ∀ c ∈ decimalInt value, c.isValidChar :=
  valid_of_ascii fun _ ↦ lt_ascii_of_mem_decimalInt

theorem longVariable_decimalInt (default : Int64) (value : ℤ) :
    longVariable default (some (decimalInt value)) = saturate value := by
  rw [longVariable]
  simp only [decimalInt_ne_nil, if_false, strtol_decimalInt, if_true]

/-- The tracer reads the request. -/
theorem getInjection_eq {getenv : Environment} {request : InjectTrace}
    (hvariables : ∀ entry ∈ injectionVariables request,
      getenv entry.1 = some (Utf8.encode entry.2)) :
    getInjection getenv = requestedInjection request := by
  simp only [injectionVariables, List.forall_mem_cons, List.not_mem_nil, false_implies,
    implies_true, and_true] at hvariables
  obtain ⟨henabled, hindex, hsyscall, hfield, hvalue⟩ := hvariables
  have hone : Utf8.encode (PyStr.ofString "1") = [49] := by decide
  rw [encode_decimalInt] at hindex hvalue
  rw [getInjection, henabled, hindex, hsyscall, hfield, hvalue, hone, if_neg (not_not.mpr rfl)]
  simp only [injectionOf, longVariable_decimalInt, Option.map_some, cText_encode,
    requestedInjection]

end SyzAbi.Agent

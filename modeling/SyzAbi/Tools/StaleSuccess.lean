import SyzAbi.Tools.CacheSoundness

/-!
# What a build that raises leaves behind

A call of `build_one` that returns has stored its result, and one that raises has not touched the
record it found (`run_spec`). So a stale success survives exactly the calls in which a step raises
(`fresh_run_iff`): an input that cannot be read, a program that cannot be started, and C that cannot
be instrumented, since only the compilers are inside the `try` block. The error also ends the run of
`main`, and the pool drops the entries that it has not started.
-/

set_option autoImplicit false
set_option relaxedAutoImplicit false

namespace SyzAbi.Tools

open Analyzer Orchestrator Library.Fallible

variable {root : RepoRoot} {Hash : Type}

/-! ### Compilers -/

/-- The compiler of a side can be started, or raises an error that is caught. -/
def BuildContext.CompilerStarts (ctx : BuildContext root Hash) (side : Side) (binaryName : String) :
    Prop :=
  ∀ error, compileTestcase ctx.state ctx.subprocess side
      (ctx.buildRoot ++ "/testcase.instrumented.c") (ctx.buildRoot ++ binaryName) = .error error →
    isValueError error = true

/-- Both compilers can be started, or raise an error that is caught; the one of the candidate is
started after the one of the reference has ended. -/
def BuildContext.CompilersStart (ctx : BuildContext root Hash) : Prop :=
  ctx.CompilerStarts .reference "/testcase.bin" ∧
    (ctx.shouldBuildCandidate = true →
      (∃ completed, compileTestcase ctx.state ctx.subprocess .reference
        (ctx.buildRoot ++ "/testcase.instrumented.c") (ctx.buildRoot ++ "/testcase.bin") =
          .ok completed) →
      ctx.CompilerStarts .candidate "/testcase.candidate.bin")

theorem handle_returns_iff {ctx : BuildContext root Hash} {wrappedCount : ℕ} {dir : BuildDir Hash}
    {error : PyError} :
    (∃ result, (ctx.handle wrappedCount dir error).1 = .ok result) ↔ isValueError error = true := by
  rw [BuildContext.handle]
  by_cases hcaught : isValueError error = true
  · rw [if_pos hcaught]
    exact iff_of_true ⟨_, rfl⟩ hcaught
  · rw [if_neg hcaught]
    refine iff_of_false ?_ hcaught
    rintro ⟨result, hresult⟩
    cases hresult

/-- The compilers return a result exactly when each of them that is started can be. -/
theorem compile_returns_iff (ctx : BuildContext root Hash) (wrappedCount : ℕ)
    (dir : BuildDir Hash) :
    (∃ result, (ctx.compile wrappedCount dir).1 = .ok result) ↔ ctx.CompilersStart := by
  have hstarts : ∀ {side : Side} {binaryName : String} {error : PyError},
      compileTestcase ctx.state ctx.subprocess side
        (ctx.buildRoot ++ "/testcase.instrumented.c") (ctx.buildRoot ++ binaryName) =
          .error error →
      (ctx.CompilerStarts side binaryName ↔ isValueError error = true) := by
    intro side binaryName error herror
    refine ⟨fun h ↦ h error herror, fun hcaught other hother ↦ ?_⟩
    rwa [← Except.error.inj (herror.symm.trans hother)]
  have hstarted : ∀ {side : Side} {binaryName : String} {completed : Completed},
      compileTestcase ctx.state ctx.subprocess side
        (ctx.buildRoot ++ "/testcase.instrumented.c") (ctx.buildRoot ++ binaryName) =
          .ok completed → ctx.CompilerStarts side binaryName := by
    intro side binaryName completed hcompleted other hother
    cases hcompleted.symm.trans hother
  rw [BuildContext.compile, BuildContext.CompilersStart]
  cases hreference : compileTestcase ctx.state ctx.subprocess .reference
      (ctx.buildRoot ++ "/testcase.instrumented.c") (ctx.buildRoot ++ "/testcase.bin") with
  | error error =>
    rw [hstarts hreference]
    refine handle_returns_iff.trans (and_iff_left fun _ hcompleted ↦ ?_).symm
    obtain ⟨completed, hcompleted⟩ := hcompleted
    cases hcompleted
  | ok completed =>
    rw [and_iff_right (hstarted hreference)]
    dsimp only
    by_cases hshould : ctx.shouldBuildCandidate = true
    · rw [if_pos hshould, imp_iff_right hshould, imp_iff_right ⟨completed, rfl⟩]
      cases hcandidate : compileTestcase ctx.state ctx.subprocess .candidate
          (ctx.buildRoot ++ "/testcase.instrumented.c")
          (ctx.buildRoot ++ "/testcase.candidate.bin") with
      | error error => exact handle_returns_iff.trans (hstarts hcandidate).symm
      | ok completed => exact iff_of_true ⟨_, rfl⟩ (hstarted hcandidate)
    · rw [if_neg hshould]
      exact iff_of_true ⟨_, rfl⟩ fun h ↦ absurd h hshould

/-! ### Calls -/

/-- A call of `build_one`: the repository, the programs it starts, the entry and the build directory
that it finds. -/
structure BuildCall (root : RepoRoot) (Hash : Type) where
  state : RepoState root
  subprocess : Subprocess
  entry : BuildEntry
  dir : BuildDir Hash

namespace BuildCall

def shouldBuildCandidate (call : BuildCall root Hash) : Bool :=
  shouldBuildCandidateBinary call.state.profile

def inputPaths (call : BuildCall root Hash) : List String :=
  buildInputPaths call.state call.entry.normalizedPath call.shouldBuildCandidate

def buildRoot (call : BuildCall root Hash) : String :=
  call.state.config.buildDir ++ "/" ++ call.entry.programId

/-- The part of the call behind the cache. -/
def context (call : BuildCall root Hash) (fingerprints : List (Fingerprint Hash)) :
    BuildContext root Hash where
  state := call.state
  subprocess := call.subprocess
  entry := call.entry
  buildRoot := call.buildRoot
  shouldBuildCandidate := call.shouldBuildCandidate
  fingerprints := fingerprints

section Parameters

variable (sha256 : List UInt8 → Hash) (unicodeAlnum : ℕ → Bool)

/-- The fingerprints of the inputs of the call. -/
def fingerprints (call : BuildCall root Hash) : Except PyError (List (Fingerprint Hash)) :=
  buildInputFingerprints sha256 call.state call.inputPaths

def run [DecidableEq Hash] (call : BuildCall root Hash) : Except PyError
    (BuildResult Hash) × BuildDir Hash :=
  buildOne sha256 unicodeAlnum call.state call.subprocess call.entry call.dir

/-- A success that a build directory records has the fingerprints of the inputs of the call. -/
def Fresh (call : BuildCall root Hash) (dir : BuildDir Hash) : Prop :=
  ∀ result, dir.record = .stored result → result.status = ExecutionStatus.ok.value →
    ∃ fingerprints, call.fingerprints sha256 = .ok fingerprints ∧
      result.inputFingerprints = some fingerprints

/-- No step of a new build raises: the inputs can be read, `syz-prog2c` can be started, and when it
generates C, this can be instrumented and the compilers can be started. -/
def Proceeds (call : BuildCall root Hash) : Prop :=
  ∃ fingerprints, call.fingerprints sha256 = .ok fingerprints ∧
    ∃ prog2c, buildProg2c call.state call.subprocess call.entry.normalizedPath = .ok prog2c ∧
      (prog2c.returncode = 0 →
        (∃ instrumented, instrumentSource unicodeAlnum prog2c.stdout = .ok instrumented) ∧
        (call.context fingerprints).CompilersStart)

/-- The call generates C that cannot be instrumented. -/
def CannotInstrument [DecidableEq Hash] (call : BuildCall root Hash) : Prop :=
  ∃ fingerprints, call.fingerprints sha256 = .ok fingerprints ∧
    loadCachedBuildResult call.state (call.buildRoot ++ "/build-result.json") call.dir.record
      call.inputPaths call.shouldBuildCandidate fingerprints = .ok none ∧
    ∃ prog2c, buildProg2c call.state call.subprocess call.entry.normalizedPath = .ok prog2c ∧
      prog2c.returncode = 0 ∧ ∃ error, instrumentSource unicodeAlnum prog2c.stdout = .error error

/-- The call records a build failure. -/
def RecordsFailure [DecidableEq Hash] (call : BuildCall root Hash) : Prop :=
  ∃ result after, call.run sha256 unicodeAlnum = (.ok result, after) ∧
    after.record = .stored result ∧ result.status = buildFailureStatus

end Parameters

/-! ### Raising calls -/

variable {sha256 : List UInt8 → Hash} {unicodeAlnum : ℕ → Bool} {call : BuildCall root Hash}

/-- A new build returns a result exactly when no step raises. -/
theorem rebuild_returns_iff {fingerprints : List (Fingerprint Hash)}
    (hfingerprints : call.fingerprints sha256 = .ok fingerprints) :
    (∃ result, ((call.context fingerprints).rebuild unicodeAlnum call.dir).1 = .ok result) ↔
      call.Proceeds sha256 unicodeAlnum := by
  have hproceeds : call.Proceeds sha256 unicodeAlnum ↔
      ∃ prog2c, buildProg2c call.state call.subprocess call.entry.normalizedPath = .ok prog2c ∧
        (prog2c.returncode = 0 →
          (∃ instrumented, instrumentSource unicodeAlnum prog2c.stdout = .ok instrumented) ∧
          (call.context fingerprints).CompilersStart) := by
    rw [Proceeds, hfingerprints]
    simp only [Except.ok.injEq, exists_eq_left']
  rw [hproceeds, BuildContext.rebuild]
  cases hprog2c : buildProg2c call.state call.subprocess call.entry.normalizedPath with
  | error error =>
    simp only [context, hprog2c]
    refine iff_of_false ?_ ?_
    · rintro ⟨result, hresult⟩
      cases hresult
    · rintro ⟨prog2c, hok, -⟩
      cases hok
  | ok prog2c =>
    simp only [context, hprog2c, Except.ok.injEq, exists_eq_left']
    by_cases hcode : prog2c.returncode = 0
    · simp only [hcode, ne_eq, not_true_eq_false, if_false, true_imp_iff]
      cases hinstrument : instrumentSource unicodeAlnum prog2c.stdout with
      | error error =>
        refine iff_of_false ?_ ?_
        · rintro ⟨result, hresult⟩
          cases hresult
        · rintro ⟨⟨instrumented, hok⟩, -⟩
          cases hok
      | ok instrumented =>
        rw [and_iff_right ⟨instrumented, rfl⟩]
        exact compile_returns_iff _ _ _
    · rw [if_pos hcode]
      exact iff_of_true ⟨_, rfl⟩ fun h ↦ absurd h hcode

variable [DecidableEq Hash]

theorem run_of_fingerprints_error {error : PyError}
    (hfingerprints : call.fingerprints sha256 = .error error) :
    call.run sha256 unicodeAlnum = (.error error, call.dir) := by
  have herror : buildInputFingerprints sha256 call.state (buildInputPaths call.state
      call.entry.normalizedPath (shouldBuildCandidateBinary call.state.profile)) = .error error :=
    hfingerprints
  rw [run, buildOne, herror]

/-- A call that raises leaves the record as it is, and one that returns leaves a fresh one. -/
theorem run_spec :
    (∀ error, (call.run sha256 unicodeAlnum).1 = .error error →
      (call.run sha256 unicodeAlnum).2.record = call.dir.record) ∧
    (∀ result, (call.run sha256 unicodeAlnum).1 = .ok result →
      call.Fresh sha256 (call.run sha256 unicodeAlnum).2) := by
  cases hfingerprints : call.fingerprints sha256 with
  | error error =>
    rw [run_of_fingerprints_error hfingerprints]
    exact ⟨fun _ _ ↦ rfl, fun result hresult ↦ (by cases hresult)⟩
  | ok fingerprints =>
    have hrecords : Records fingerprints call.dir (call.run sha256 unicodeAlnum) :=
      records_buildOne hfingerprints unicodeAlnum call.subprocess call.dir
    generalize call.run sha256 unicodeAlnum = outcome at hrecords ⊢
    obtain ⟨outcome, after⟩ := outcome
    cases outcome with
    | error error => exact ⟨fun _ _ ↦ hrecords, fun result hresult ↦ (by cases hresult)⟩
    | ok built =>
      refine ⟨fun error herror ↦ (by cases herror), fun result _ stored hstored hstatus ↦ ?_⟩
      obtain rfl := ResultFile.stored.inj (hrecords.1.symm.trans hstored)
      exact ⟨fingerprints, hfingerprints, hrecords.2 hstatus⟩

/-- A record that is not fresh is not taken from the cache. -/
theorem loadCachedBuildResult_of_stale {fingerprints : List (Fingerprint Hash)}
    (hfingerprints : call.fingerprints sha256 = .ok fingerprints)
    (hstale : ¬call.Fresh sha256 call.dir) :
    loadCachedBuildResult call.state (call.buildRoot ++ "/build-result.json") call.dir.record
      call.inputPaths call.shouldBuildCandidate fingerprints = .ok none := by
  rw [Fresh] at hstale
  push Not at hstale
  obtain ⟨result, hrecord, -, hother⟩ := hstale
  rw [hrecord, loadCachedBuildResult, if_neg fun hfresh ↦
    hother fingerprints hfingerprints (isFresh_spec hfresh).2]

theorem run_eq_rebuild {fingerprints : List (Fingerprint Hash)}
    (hfingerprints : call.fingerprints sha256 = .ok fingerprints)
    (hload : loadCachedBuildResult call.state (call.buildRoot ++ "/build-result.json")
      call.dir.record call.inputPaths call.shouldBuildCandidate fingerprints = .ok none) :
    call.run sha256 unicodeAlnum = (call.context fingerprints).rebuild unicodeAlnum call.dir := by
  have hok : buildInputFingerprints sha256 call.state (buildInputPaths call.state
      call.entry.normalizedPath (shouldBuildCandidateBinary call.state.profile)) =
        .ok fingerprints := hfingerprints
  have hnone : loadCachedBuildResult call.state
      (call.state.config.buildDir ++ "/" ++ call.entry.programId ++ "/build-result.json")
      call.dir.record (buildInputPaths call.state call.entry.normalizedPath
        (shouldBuildCandidateBinary call.state.profile))
      (shouldBuildCandidateBinary call.state.profile) fingerprints = .ok none := hload
  rw [run, buildOne, hok]
  dsimp only
  rw [hnone]
  rfl

/-- What a call leaves is fresh exactly when what it found is, or no step raises. -/
theorem fresh_run_iff :
    call.Fresh sha256 (call.run sha256 unicodeAlnum).2 ↔
      call.Fresh sha256 call.dir ∨ call.Proceeds sha256 unicodeAlnum := by
  obtain ⟨hkeeps, hreturns⟩ := @run_spec _ _ sha256 unicodeAlnum call _
  by_cases hfresh : call.Fresh sha256 call.dir
  · refine iff_of_true ?_ (.inl hfresh)
    cases houtcome : (call.run sha256 unicodeAlnum).1 with
    | error error =>
      rw [Fresh, hkeeps error houtcome]
      exact hfresh
    | ok result => exact hreturns result houtcome
  · rw [or_iff_right hfresh]
    cases hfingerprints : call.fingerprints sha256 with
    | error error =>
      rw [run_of_fingerprints_error hfingerprints]
      refine iff_of_false hfresh ?_
      rintro ⟨fingerprints, hok, -⟩
      cases hfingerprints.symm.trans hok
    | ok fingerprints =>
      have hrun : call.run sha256 unicodeAlnum = _ := run_eq_rebuild hfingerprints
        (loadCachedBuildResult_of_stale hfingerprints hfresh)
      rw [← rebuild_returns_iff hfingerprints, ← hrun]
      constructor
      · intro hafter
        cases houtcome : (call.run sha256 unicodeAlnum).1 with
        | error error =>
          rw [Fresh, hkeeps error houtcome] at hafter
          exact absurd hafter hfresh
        | ok result => exact ⟨result, rfl⟩
      · rintro ⟨result, hresult⟩
        exact hreturns result hresult

/-- C that cannot be instrumented makes the call raise, and nothing is recorded. -/
theorem run_of_cannotInstrument (hcannot : call.CannotInstrument sha256 unicodeAlnum) :
    ∃ error, (call.run sha256 unicodeAlnum).1 = .error error := by
  obtain ⟨fingerprints, hfingerprints, hload, prog2c, hprog2c, hcode, error, herror⟩ := hcannot
  refine ⟨error, ?_⟩
  rw [run_eq_rebuild hfingerprints hload, BuildContext.rebuild]
  simp only [context, hprog2c]
  rw [if_neg (by rw [hcode]; exact fun h ↦ h rfl), herror]

end BuildCall

/-! ### Runs of the tool -/

variable [DecidableEq Hash]

/-- A run of `main`, whose pool takes the entries in order. A call that raises ends the run, and the
pool drops the calls that have not started by then. -/
structure PoolRun (sha256 : List UInt8 → Hash) (unicodeAlnum : ℕ → Bool) (root : RepoRoot) where
  calls : List (BuildCall root Hash)
  started : ℕ
  started_le : started ≤ calls.length
  started_eq_or : started = calls.length ∨
    ∃ call ∈ calls.take started, ∃ error, (call.run sha256 unicodeAlnum).1 = .error error

/-- No call that was started leaves a stale success, and an entry whose C cannot be instrumented is
recorded as a build failure and keeps no other entry from being built. -/
def PoolRun.LeavesNoStaleSuccess {sha256 : List UInt8 → Hash} {unicodeAlnum : ℕ → Bool}
    (run : PoolRun sha256 unicodeAlnum root) : Prop :=
  ∀ call ∈ run.calls.take run.started,
    call.Fresh sha256 (call.run sha256 unicodeAlnum).2 ∧
    (call.CannotInstrument sha256 unicodeAlnum →
      call.RecordsFailure sha256 unicodeAlnum ∧ run.started = run.calls.length)

/-- A run leaves no stale success exactly when, for each of its calls, the record that it finds is
not stale or no step raises, and the C that it generates can be instrumented. -/
theorem poolRun_leavesNoStaleSuccess_iff {sha256 : List UInt8 → Hash} {unicodeAlnum : ℕ → Bool}
    (run : PoolRun sha256 unicodeAlnum root) :
    run.LeavesNoStaleSuccess ↔ ∀ call ∈ run.calls.take run.started,
      (call.Fresh sha256 call.dir ∨ call.Proceeds sha256 unicodeAlnum) ∧
        ¬call.CannotInstrument sha256 unicodeAlnum := by
  refine forall₂_congr fun call _ ↦ ?_
  rw [BuildCall.fresh_run_iff]
  refine and_congr_right fun _ ↦ ⟨fun h hcannot ↦ ?_, fun h hcannot ↦ absurd hcannot h⟩
  obtain ⟨error, herror⟩ := BuildCall.run_of_cannotInstrument hcannot
  obtain ⟨⟨result, after, hrun, -⟩, -⟩ := h hcannot
  rw [hrun] at herror
  cases herror

/-! ### A success that stays -/

/-- A call that finds a success without fingerprints, and whose C uses the value of a `syscall` in
an expression. -/
def staleCall : BuildCall ⟨"/repo", isAbsolute_repo⟩ (List UInt8) where
  state := headerState []
  subprocess := fun _ ↦ .ok ⟨0, PyStr.ofString "x = syscall(39) + 1;", []⟩
  entry := ⟨"p", "p.syz"⟩
  dir := {
    record := .stored { programId := "p", status := "ok", stage := "done", returncode := 0 }
    texts := fun _ ↦ none }

theorem cannotInstrument_staleCall : staleCall.CannotInstrument id fun _ ↦ false := by
  refine ⟨headerFingerprints, by decide +kernel, by decide +kernel, _, rfl, rfl,
    ⟨"ValueError", "raw syscall invocation remains after instrumentation"⟩, ?_⟩
  decide +kernel

/-- Two entries and one worker: the second entry is dropped. -/
def staleRun : PoolRun (id : List UInt8 → List UInt8) (fun _ ↦ false)
    ⟨"/repo", isAbsolute_repo⟩ where
  calls := [staleCall, { staleCall with entry := ⟨"q", "q.syz"⟩ }]
  started := 1
  started_le := by decide
  started_eq_or := .inr ⟨staleCall, List.mem_cons_self,
    BuildCall.run_of_cannotInstrument cannotInstrument_staleCall⟩

/-- The success stays, nothing is recorded, and the second entry is not built. -/
theorem staleRun_leavesStaleSuccess :
    (staleCall.run id fun _ ↦ false).2.record = staleCall.dir.record ∧
      ¬staleRun.LeavesNoStaleSuccess := by
  obtain ⟨error, herror⟩ := BuildCall.run_of_cannotInstrument cannotInstrument_staleCall
  have hrecord := BuildCall.run_spec.1 error herror
  refine ⟨hrecord, fun hsafe ↦ ?_⟩
  obtain ⟨hfresh, -⟩ := hsafe staleCall List.mem_cons_self
  obtain ⟨fingerprints, -, hnone⟩ := hfresh _ hrecord rfl
  cases hnone

end SyzAbi.Tools

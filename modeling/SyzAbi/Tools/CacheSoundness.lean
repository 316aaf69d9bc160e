import SyzAbi.Library.Fallible
import SyzAbi.Tools.BuildTestcase

/-!
# Which inputs a cached build covers

`build_input_paths` lists the files whose fingerprints a cached build has to have. A build starts
`syz-prog2c` and the compilers with command lines of its own (`Starts`, `buildOne_congr`), and opens
more than the listed files (`Reads`): the headers on the include path of these compilers, the
compilers and the target configuration have no fingerprint, unless the list holds them for another
reason (`Unlisted`). Of
everything else equal fingerprints give equal contents (`sameContent_listed`), because a successful
result always carries the fingerprints of the call that made it (`records_buildOne`).

`headerState` is a repository whose only change is in `trace.h`.
-/

set_option autoImplicit false
set_option relaxedAutoImplicit false

namespace SyzAbi.Tools

open Analyzer Orchestrator Library.Fallible

variable {root : RepoRoot}

/-! ### The programs that a build starts -/

/-- The sides that a build compiles for. -/
def BuildsSide (shouldBuildCandidate : Bool) (side : Side) : Prop :=
  side = .reference ∨ shouldBuildCandidate = true

/-- The program that `compiler_for_side` names, where `resolve_compiler_path` finds it. -/
def ResolvedCompiler (state : RepoState root) (side : Side) (path : String) : Prop :=
  ∃ compiler, compilerForSide state.config side = .ok compiler ∧ state.which compiler = some path

/-- The binary of a side in the build directory. -/
def sideBinaryName : Side → String
  | .reference => "/testcase.bin"
  | .candidate => "/testcase.candidate.bin"

/-- The command line with which the build of an entry compiles for a side. -/
def sideCommand (state : RepoState root) (entry : BuildEntry) (side : Side) (compiler : String) :
    List String :=
  let buildRoot := state.config.buildDir ++ "/" ++ entry.programId
  compileCommand state.config side compiler (buildRoot ++ "/testcase.instrumented.c")
    (buildRoot ++ sideBinaryName side)

/-- The command lines of a build. -/
inductive Starts (state : RepoState root) (entry : BuildEntry) (shouldBuildCandidate : Bool) :
    List String → Prop
  | prog2c : Starts state entry shouldBuildCandidate (prog2cCommand state entry.normalizedPath)
  | compiler (side : Side) (hside : BuildsSide shouldBuildCandidate side) (path : String)
    (hpath : ResolvedCompiler state side path) :
    Starts state entry shouldBuildCandidate (sideCommand state entry side path)

/-- What the compilers make of a build depends on their own command lines only. -/
theorem BuildContext.compile_congr {Hash : Type} {ctx : BuildContext root Hash} {other : Subprocess}
    (hsame : ∀ side, BuildsSide ctx.shouldBuildCandidate side →
      compileTestcase ctx.state ctx.subprocess side (ctx.buildRoot ++ "/testcase.instrumented.c")
          (ctx.buildRoot ++ sideBinaryName side) =
        compileTestcase ctx.state other side (ctx.buildRoot ++ "/testcase.instrumented.c")
          (ctx.buildRoot ++ sideBinaryName side)) (wrappedCount : ℕ) (dir : BuildDir Hash) :
    ctx.compile wrappedCount dir = { ctx with subprocess := other }.compile wrappedCount dir := by
  have hreference := hsame .reference (.inl rfl)
  rw [sideBinaryName] at hreference
  rw [BuildContext.compile, BuildContext.compile, hreference]
  dsimp only
  split
  · rfl
  · by_cases hshould : ctx.shouldBuildCandidate = true
    · have hcandidate := hsame .candidate (.inr hshould)
      rw [sideBinaryName] at hcandidate
      rw [if_pos hshould, if_pos hshould, hcandidate]
      rfl
    · rw [if_neg hshould, if_neg hshould]
      rfl

/-- A build starts no other programs. -/
theorem buildOne_congr {Hash : Type} [DecidableEq Hash] {sha256 : List UInt8 → Hash}
    {unicodeAlnum : ℕ → Bool} {state : RepoState root} {entry : BuildEntry}
    {subprocess other : Subprocess}
    (hsame : ∀ command, Starts state entry (shouldBuildCandidateBinary state.profile) command →
      subprocess command = other command) (dir : BuildDir Hash) :
    buildOne sha256 unicodeAlnum state subprocess entry dir =
      buildOne sha256 unicodeAlnum state other entry dir := by
  have hprog2c : buildProg2c state subprocess entry.normalizedPath =
      buildProg2c state other entry.normalizedPath := by
    rw [buildProg2c, buildProg2c, hsame _ .prog2c]
  have hcompile : ∀ side, BuildsSide (shouldBuildCandidateBinary state.profile) side →
      compileTestcase state subprocess side
        (state.config.buildDir ++ "/" ++ entry.programId ++ "/testcase.instrumented.c")
        (state.config.buildDir ++ "/" ++ entry.programId ++ sideBinaryName side) =
      compileTestcase state other side
        (state.config.buildDir ++ "/" ++ entry.programId ++ "/testcase.instrumented.c")
        (state.config.buildDir ++ "/" ++ entry.programId ++ sideBinaryName side) := by
    intro side hside
    rw [compileTestcase, compileTestcase]
    cases hcompiler : compilerForSide state.config side with
    | error error => rfl
    | ok compiler =>
      cases hpath : state.which compiler with
      | none => simp only [hpath, bind, Except.bind]
      | some path =>
        simp only [hpath, bind, Except.bind]
        exact hsame _ (.compiler side hside path ⟨compiler, hcompiler, hpath⟩)
  have hbehind : ∀ fingerprints, BuildContext.rebuild
      { state, subprocess, entry, buildRoot := state.config.buildDir ++ "/" ++ entry.programId,
        shouldBuildCandidate := shouldBuildCandidateBinary state.profile, fingerprints }
      unicodeAlnum dir = BuildContext.rebuild
      { state, subprocess := other, entry,
        buildRoot := state.config.buildDir ++ "/" ++ entry.programId,
        shouldBuildCandidate := shouldBuildCandidateBinary state.profile, fingerprints }
      unicodeAlnum dir := by
    intro fingerprints
    rw [BuildContext.rebuild, BuildContext.rebuild, hprog2c]
    dsimp only
    split
    · rfl
    · split_ifs
      · rfl
      · split
        · rfl
        · exact BuildContext.compile_congr hcompile _ _
  rw [buildOne, buildOne]
  simp only [hbehind]

/-! ### The files that a build reads -/

/-- The directories that the arguments of a compiler put on the include path. The argument behind
`-o` is the output. -/
def includeDirs : List String → List String
  | [] => []
  | "-I" :: dir :: rest => dir :: includeDirs rest
  | "-o" :: _ :: rest => includeDirs rest
  | flag :: rest =>
    match flag.toList with
    | '-' :: 'I' :: dir => String.ofList dir :: includeDirs rest
    | _ => includeDirs rest

/-- The path leads into the repository. -/
def InRepository (root : RepoRoot) (path : String) : Prop :=
  (root.path ++ "/").toList <+: path.toList

/-- The path is that of a header of the repository in a directory that one of the compilers has on
its include path. -/
def IsHeader (state : RepoState root) (entry : BuildEntry) (shouldBuildCandidate : Bool)
    (path : String) : Prop :=
  ∃ side compiler dir name, BuildsSide shouldBuildCandidate side ∧
    ResolvedCompiler state side compiler ∧
    dir ∈ includeDirs (sideCommand state entry side compiler).tail ∧
    ".h".toList <:+ name.toList ∧ path = state.resolve dir ++ "/" ++ name ∧ InRepository root path

/-- The files that the build of an entry opens, by their absolute paths. -/
inductive Reads (state : RepoState root) (entry : BuildEntry) (shouldBuildCandidate : Bool) :
    String → Prop
  | program : Reads state entry shouldBuildCandidate (state.resolve entry.normalizedPath)
  | prog2c : Reads state entry shouldBuildCandidate (state.resolve state.syzProg2c)
  | tracer : Reads state entry shouldBuildCandidate (state.resolve "agent/linux/trace.c")
  | runner (side : Side) (hside : BuildsSide shouldBuildCandidate side) :
    Reads state entry shouldBuildCandidate (state.resolve (runnerSourceForSide state.config side))
  | configuration : Reads state entry shouldBuildCandidate (state.resolve state.configPath)
  | profiles : Reads state entry shouldBuildCandidate
      (state.resolve state.config.runnerProfilesPath)
  | targetConfig (path : String) (hpath : state.config.targetConfigPath = some path) :
    Reads state entry shouldBuildCandidate (state.resolve path)
  | compiler (side : Side) (hside : BuildsSide shouldBuildCandidate side) (path : String)
    (hpath : ResolvedCompiler state side path) :
    Reads state entry shouldBuildCandidate (state.resolve path)
  | header (path : String) (hheader : IsHeader state entry shouldBuildCandidate path) :
    Reads state entry shouldBuildCandidate path

/-- The file is an input whose fingerprint is taken. -/
def Listed (state : RepoState root) (program : String) (shouldBuildCandidate : Bool)
    (path : String) :
    Prop :=
  ∃ listed ∈ buildInputPaths state program shouldBuildCandidate, state.resolve listed = path

/-- The files that a build opens and no fingerprint is taken of: the headers on the include path,
the compilers, and the target configuration, unless they are listed for another reason. -/
inductive Unlisted (state : RepoState root) (entry : BuildEntry) (shouldBuildCandidate : Bool) :
    String → Prop
  | targetConfig (path : String) (hpath : state.config.targetConfigPath = some path)
    (hlisted : ¬Listed state entry.normalizedPath shouldBuildCandidate (state.resolve path)) :
    Unlisted state entry shouldBuildCandidate (state.resolve path)
  | compiler (side : Side) (hside : BuildsSide shouldBuildCandidate side) (path : String)
    (hpath : ResolvedCompiler state side path)
    (hlisted : ¬Listed state entry.normalizedPath shouldBuildCandidate (state.resolve path)) :
    Unlisted state entry shouldBuildCandidate (state.resolve path)
  | header (path : String) (hheader : IsHeader state entry shouldBuildCandidate path)
    (hlisted : ¬Listed state entry.normalizedPath shouldBuildCandidate path) :
    Unlisted state entry shouldBuildCandidate path

/-- Two states of the repository have the same content in some files. -/
def SameContent (first second : RepoState root) (files : String → Prop) : Prop :=
  ∀ path, files path → second.content path = first.content path

/-! ### Listed files -/

theorem mem_addSources {state : RepoState root} {paths sources : List String} {path : String}
    (hpath : path ∈ paths) : path ∈ addSources state paths sources := by
  induction sources generalizing paths with
  | nil => exact hpath
  | cons source rest ih =>
    rw [addSources]
    split_ifs
    · exact ih hpath
    · exact ih (List.mem_append_left _ hpath)

theorem resolve_resolve (state : RepoState root) (path : String) :
    state.resolve (state.resolve path) = state.resolve path := by
  have habsolute : isAbsolute (resolveRepoPath root.path path) = true := by
    rw [resolveRepoPath]
    split_ifs with hpath
    · exact hpath
    · have hroot := root.absolute
      simp only [isAbsolute, decide_eq_true_eq] at hroot ⊢
      rw [String.toList_append, String.toList_append, List.append_assoc, List.head?_append, hroot]
      rfl
  rw [RepoState.resolve, RepoState.resolve, resolveRepoPath, if_pos habsolute]

/-- The file of a runner source is listed. -/
theorem listed_of_mem_sources {state : RepoState root} {paths sources : List String}
    {source : String}
    (hsource : source ∈ sources) :
    ∃ listed ∈ addSources state paths sources, state.resolve listed = state.resolve source := by
  induction sources generalizing paths with
  | nil => cases hsource
  | cons first rest ih =>
    rw [addSources]
    rcases List.mem_cons.mp hsource with rfl | hrest
    · split_ifs with hseen
      · obtain ⟨listed, hlisted, heq⟩ := List.mem_map.mp hseen
        exact ⟨listed, mem_addSources hlisted, heq⟩
      · refine ⟨state.resolve source, mem_addSources ?_, resolve_resolve state source⟩
        exact List.mem_append_right _ (List.mem_singleton_self _)
    · split_ifs
      · exact ih hrest
      · exact ih hrest

section Program

variable {state : RepoState root} {program : String} {shouldBuildCandidate : Bool}

theorem mem_buildInputPaths {path : String}
    (hpath : path ∈ addSources state (fixedInputPaths state program)
      (runnerSources state.config shouldBuildCandidate)) :
    path ∈ buildInputPaths state program shouldBuildCandidate := by
  unfold buildInputPaths
  dsimp only
  by_cases hcompiler : shouldBuildCandidate = true ∧ state.config.candidate.compiler ≠ "" ∧
      (isAbsolute state.config.candidate.compiler = true ∨
        state.pathExists state.config.candidate.compiler = true)
  · rw [if_pos hcompiler]
    exact List.mem_append_left _ hpath
  · rw [if_neg hcompiler]
    exact hpath

/-- The inputs that do not depend on the sides are listed. -/
theorem listed_of_mem_fixed {path : String} (hpath : path ∈ fixedInputPaths state program) :
    Listed state program shouldBuildCandidate (state.resolve path) :=
  ⟨path, mem_buildInputPaths (mem_addSources hpath), rfl⟩

theorem listed_runner {side : Side} (hside : BuildsSide shouldBuildCandidate side) :
    Listed state program shouldBuildCandidate
      (state.resolve (runnerSourceForSide state.config side)) := by
  have hmem : runnerSourceForSide state.config side ∈
      runnerSources state.config shouldBuildCandidate := by
    cases side with
    | reference => exact List.mem_cons_self
    | candidate =>
      rw [runnerSources, hside.resolve_left Side.noConfusion, if_pos rfl]
      exact List.mem_cons_of_mem _ (List.mem_singleton_self _)
  obtain ⟨listed, hlisted, heq⟩ := listed_of_mem_sources hmem
  exact ⟨listed, mem_buildInputPaths hlisted, heq⟩

/-- A file that the build opens is listed, or it is one of those that are not. -/
theorem listed_or_unlisted {entry : BuildEntry} {path : String}
    (hreads : Reads state entry shouldBuildCandidate path) :
    Listed state entry.normalizedPath shouldBuildCandidate path ∨
      Unlisted state entry shouldBuildCandidate path := by
  by_cases hlisted : Listed state entry.normalizedPath shouldBuildCandidate path
  · exact .inl hlisted
  right
  cases hreads with
  | program => exact absurd (listed_of_mem_fixed (by simp [fixedInputPaths])) hlisted
  | prog2c => exact absurd (listed_of_mem_fixed (by simp [fixedInputPaths])) hlisted
  | tracer =>
    rw [← resolve_resolve] at hlisted
    exact absurd (listed_of_mem_fixed (by simp [fixedInputPaths])) hlisted
  | runner side hside => exact absurd (listed_runner hside) hlisted
  | configuration => exact absurd (listed_of_mem_fixed (by simp [fixedInputPaths])) hlisted
  | profiles =>
    rw [← resolve_resolve] at hlisted
    exact absurd (listed_of_mem_fixed (by simp [fixedInputPaths])) hlisted
  | targetConfig path hpath => exact .targetConfig path hpath hlisted
  | compiler side hside path hpath => exact .compiler side hside path hpath hlisted
  | header path hheader => exact .header path hheader hlisted

theorem Unlisted.reads {entry : BuildEntry} {path : String}
    (hpath : Unlisted state entry shouldBuildCandidate path) :
    Reads state entry shouldBuildCandidate path := by
  cases hpath with
  | targetConfig path hpath => exact .targetConfig path hpath
  | compiler side hside path hpath => exact .compiler side hside path hpath
  | header path hheader => exact .header path hheader

end Program

/-! ### Fingerprints -/

section Hash

variable {Hash : Type} {sha256 : List UInt8 → Hash}

theorem readBytes_eq_ok_iff {state : RepoState root} {path : String} {bytes : List UInt8} :
    state.readBytes path = .ok bytes ↔ state.content (state.resolve path) = some bytes := by
  rw [RepoState.readBytes]
  cases state.content (state.resolve path) with
  | none => simp
  | some content => simp

/-- The fingerprints of files are those of the inputs with their contents. -/
theorem mem_fingerprints_iff {state : RepoState root} {paths : List String}
    {fingerprints : List (Fingerprint Hash)}
    (hfingerprints : buildInputFingerprints sha256 state paths = .ok fingerprints) {path : String}
    {hash : Hash} :
    ⟨.file path, hash⟩ ∈ fingerprints ↔ path ∈ paths ∧
      ∃ bytes, state.content (state.resolve path) = some bytes ∧ hash = sha256 bytes := by
  obtain ⟨files, hfiles, hrest⟩ := bind_eq_ok_iff.mp hfingerprints
  obtain rfl := pure_eq_ok_iff.mp hrest
  have hextra : (⟨.file path, hash⟩ : Fingerprint Hash) ∉
      (syzkallerRevisionFingerprint sha256 state).toList := by
    intro hmem
    obtain ⟨revision, -, heq⟩ := Option.map_eq_some_iff.mp (Option.mem_toList.mp hmem)
    exact FingerprintName.noConfusion (Fingerprint.mk.inj heq).1
  have hstep : ∀ {listed : String} {fingerprint : Fingerprint Hash},
      (do
        let bytes ← state.readBytes listed
        return ⟨.file listed, sha256 bytes⟩ : Except PyError (Fingerprint Hash)) =
          .ok fingerprint ↔
        ∃ bytes, state.content (state.resolve listed) = some bytes ∧
          fingerprint = ⟨.file listed, sha256 bytes⟩ := by
    intro listed fingerprint
    rw [bind_eq_ok_iff]
    simp only [readBytes_eq_ok_iff, pure_eq_ok_iff, eq_comm (a := fingerprint)]
  rw [List.mem_append, or_iff_left hextra]
  constructor
  · intro hmem
    obtain ⟨listed, hlisted, hread⟩ := exists_of_mapM_eq_ok hfiles hmem
    obtain ⟨bytes, hbytes, heq⟩ := hstep.mp hread
    obtain ⟨hname, rfl⟩ := Fingerprint.mk.inj heq
    obtain rfl := FingerprintName.file.inj hname
    exact ⟨hlisted, bytes, hbytes, rfl⟩
  · rintro ⟨hpath, bytes, hbytes, rfl⟩
    obtain ⟨fingerprint, hmem, hread⟩ := exists_result_of_mapM_eq_ok hfiles hpath
    obtain ⟨other, hother, rfl⟩ := hstep.mp hread
    rwa [Option.some.inj (hbytes.symm.trans hother)]

/-- Listed files with the same fingerprints have the same content. -/
theorem sameContent_listed (hinjective : Function.Injective sha256) {first second : RepoState root}
    {recorded : List String} {program : String} {shouldBuildCandidate : Bool}
    {fingerprints : List (Fingerprint Hash)}
    (hfirst : buildInputFingerprints sha256 first recorded = .ok fingerprints)
    (hsecond : buildInputFingerprints sha256 second
      (buildInputPaths second program shouldBuildCandidate) = .ok fingerprints) :
    SameContent first second (Listed second program shouldBuildCandidate) := by
  rintro _ ⟨listed, hlisted, rfl⟩
  obtain ⟨fingerprint, hmem⟩ : ∃ bytes, second.content (second.resolve listed) = some bytes := by
    obtain ⟨files, hfiles, -⟩ := bind_eq_ok_iff.mp hsecond
    obtain ⟨_, -, hread⟩ := exists_result_of_mapM_eq_ok hfiles hlisted
    obtain ⟨bytes, hbytes, -⟩ := bind_eq_ok_iff.mp hread
    exact ⟨bytes, readBytes_eq_ok_iff.mp hbytes⟩
  obtain ⟨-, bytes, hbytes, hhash⟩ := (mem_fingerprints_iff hfirst).mp
    ((mem_fingerprints_iff hsecond).mpr ⟨hlisted, fingerprint, hmem, rfl⟩)
  rw [hmem, hinjective hhash]
  exact hbytes.symm

/-! ### What a build records -/

@[simp] theorem record_writeText (dir : BuildDir Hash) (name : String) (text : PyStr) :
    (dir.writeText name text).record = dir.record := rfl

/-- A build that raises leaves the record as it is; one that returns has recorded its result, which
has the fingerprints of the call when it is a success. -/
def Records (fingerprints : List (Fingerprint Hash)) (dir : BuildDir Hash) :
    Except PyError (BuildResult Hash) × BuildDir Hash → Prop
  | (.error _, after) => after.record = dir.record
  | (.ok result, after) => after.record = .stored result ∧
    (result.status = ExecutionStatus.ok.value → result.inputFingerprints = some fingerprints)

theorem Records.congr {fingerprints : List (Fingerprint Hash)} {dir other : BuildDir Hash}
    {run : Except PyError (BuildResult Hash) × BuildDir Hash}
    (hrecords : Records fingerprints other run) (hrecord : other.record = dir.record) :
    Records fingerprints dir run := by
  obtain ⟨outcome, after⟩ := run
  cases outcome with
  | error error => exact Eq.trans hrecords hrecord
  | ok result => exact hrecords

theorem records_store {fingerprints : List (Fingerprint Hash)} {dir : BuildDir Hash}
    {result : BuildResult Hash} (hresult : result.status = ExecutionStatus.ok.value →
      result.inputFingerprints = some fingerprints) :
    Records fingerprints dir (dir.store result) :=
  ⟨rfl, hresult⟩

theorem records_handle (ctx : BuildContext root Hash) (wrappedCount : ℕ) (dir : BuildDir Hash)
    (error : PyError) : Records ctx.fingerprints dir (ctx.handle wrappedCount dir error) := by
  rw [BuildContext.handle]
  split_ifs
  · exact (records_store fun _ ↦ rfl).congr (record_writeText dir _ _)
  · exact rfl

theorem records_finish (ctx : BuildContext root Hash) (wrappedCount : ℕ) (dir : BuildDir Hash)
    (reference : Completed) (candidate : Option Completed) :
    Records ctx.fingerprints dir (ctx.finish wrappedCount dir reference candidate) := by
  refine records_store fun _ ↦ ?_
  split_ifs
  · rfl
  · rfl

theorem records_compile (ctx : BuildContext root Hash) (wrappedCount : ℕ) (dir : BuildDir Hash) :
    Records ctx.fingerprints dir (ctx.compile wrappedCount dir) := by
  rw [BuildContext.compile]
  dsimp only
  split
  · exact records_handle ctx wrappedCount dir _
  · split_ifs
    · split
      · exact (records_handle ctx wrappedCount _ _).congr rfl
      · exact (records_finish ctx wrappedCount _ _ _).congr rfl
    · exact (records_finish ctx wrappedCount _ _ _).congr rfl

theorem records_rebuild (ctx : BuildContext root Hash) (unicodeAlnum : ℕ → Bool)
    (dir : BuildDir Hash) : Records ctx.fingerprints dir (ctx.rebuild unicodeAlnum dir) := by
  rw [BuildContext.rebuild]
  split
  · exact rfl
  · dsimp only
    split_ifs
    · refine (records_store fun hstatus ↦ ?_).congr rfl
      exact absurd (show buildFailureStatus = _ from hstatus) (by decide)
    · split
      · exact rfl
      · exact (records_compile ctx _ _).congr rfl

variable [DecidableEq Hash]

theorem isFresh_spec {state : RepoState root} {recordPath : String}
    {inputPaths : List String} {shouldBuildCandidate : Bool}
    {fingerprints : List (Fingerprint Hash)} {cached : BuildResult Hash}
    (hfresh : isFresh state recordPath inputPaths shouldBuildCandidate fingerprints cached = true) :
    cached.status = ExecutionStatus.ok.value ∧ cached.inputFingerprints = some fingerprints := by
  simp only [isFresh, Bool.and_eq_true, decide_eq_true_eq] at hfresh
  exact ⟨hfresh.1.1.1.1.1, hfresh.1.2⟩

/-- A cached result is the stored one, a success with the fingerprints of the call. -/
theorem loadCachedBuildResult_eq_some {state : RepoState root} {recordPath : String}
    {record : ResultFile Hash} {inputPaths : List String} {shouldBuildCandidate : Bool}
    {fingerprints : List (Fingerprint Hash)} {cached : BuildResult Hash}
    (hcached : loadCachedBuildResult state recordPath record inputPaths shouldBuildCandidate
      fingerprints = .ok (some cached)) :
    record = .stored cached ∧ cached.status = ExecutionStatus.ok.value ∧
      cached.inputFingerprints = some fingerprints := by
  cases record with
  | missing => cases hcached
  | malformed => cases hcached
  | unusable error => cases hcached
  | stored result =>
    have hsome := Except.ok.inj hcached
    split_ifs at hsome with hfresh
    rw [← Option.some.inj hsome]
    exact ⟨rfl, isFresh_spec hfresh⟩

/-- A call of `build_one` that computes the fingerprints leaves a record as it is or stores one with
these fingerprints. -/
theorem records_buildOne {state : RepoState root} {entry : BuildEntry}
    {fingerprints : List (Fingerprint Hash)}
    (hfingerprints : buildInputFingerprints sha256 state (buildInputPaths state
      entry.normalizedPath (shouldBuildCandidateBinary state.profile)) = .ok fingerprints)
    (unicodeAlnum : ℕ → Bool) (subprocess : Subprocess) (dir : BuildDir Hash) :
    Records fingerprints dir (buildOne sha256 unicodeAlnum state subprocess entry dir) := by
  rw [buildOne, hfingerprints]
  dsimp only
  split
  · exact rfl
  · next cached hcached =>
    obtain ⟨hrecord, -, hsame⟩ := loadCachedBuildResult_eq_some hcached
    exact ⟨hrecord, fun _ ↦ hsame⟩
  · exact records_rebuild _ unicodeAlnum dir

/-- A build that `build_one` returns in a state. -/
def BuiltIn (sha256 : List UInt8 → Hash) (state : RepoState root) (result : BuildResult Hash) :
    Prop :=
  ∃ unicodeAlnum subprocess entry dir after,
    buildOne sha256 unicodeAlnum state subprocess entry dir = (.ok result, after)

theorem BuiltIn.fingerprints {state : RepoState root} {result : BuildResult Hash}
    (hbuilt : BuiltIn sha256 state result) (hstatus : result.status = ExecutionStatus.ok.value) :
    ∃ paths fingerprints, buildInputFingerprints sha256 state paths = .ok fingerprints ∧
      result.inputFingerprints = some fingerprints := by
  obtain ⟨unicodeAlnum, subprocess, entry, dir, after, hresult⟩ := hbuilt
  cases hfingerprints : buildInputFingerprints sha256 state (buildInputPaths state
      entry.normalizedPath (shouldBuildCandidateBinary state.profile)) with
  | error error =>
    rw [buildOne, hfingerprints] at hresult
    cases hresult
  | ok fingerprints =>
    have hrecords := records_buildOne hfingerprints unicodeAlnum subprocess dir
    rw [hresult] at hrecords
    exact ⟨_, fingerprints, hfingerprints, hrecords.2 hstatus⟩

/-- When a build of one state is taken from the cache in another, all files that the build opens
have the content of the first state exactly when those without a fingerprint have. -/
theorem cachedBuild_sameContent_iff (hinjective : Function.Injective sha256)
    {first second : RepoState root} {result : BuildResult Hash} {recordPath : String}
    {entry : BuildEntry} {shouldBuildCandidate : Bool} {fingerprints : List (Fingerprint Hash)}
    (hbuilt : BuiltIn sha256 first result)
    (hfingerprints : buildInputFingerprints sha256 second
      (buildInputPaths second entry.normalizedPath shouldBuildCandidate) = .ok fingerprints)
    (hcached : loadCachedBuildResult second recordPath (.stored result)
      (buildInputPaths second entry.normalizedPath shouldBuildCandidate) shouldBuildCandidate
        fingerprints = .ok (some result)) :
    SameContent first second (Reads second entry shouldBuildCandidate) ↔
      SameContent first second (Unlisted second entry shouldBuildCandidate) := by
  constructor
  · exact fun hsame path hpath ↦ hsame path hpath.reads
  · intro hsame path hreads
    rcases listed_or_unlisted hreads with hlisted | hunlisted
    · obtain ⟨-, hstatus, hfresh⟩ := loadCachedBuildResult_eq_some hcached
      obtain ⟨paths, recorded, hrecorded, hresult⟩ := hbuilt.fingerprints hstatus
      obtain rfl := Option.some.inj (hresult.symm.trans hfresh)
      exact sameContent_listed hinjective hrecorded hfingerprints path hlisted
    · exact hsame path hunlisted

end Hash

/-! ### A stale header -/

theorem isAbsolute_repo : isAbsolute "/repo" = true := by decide

/-- A repository whose header has some content. -/
def headerState (header : List UInt8) : RepoState ⟨"/repo", isAbsolute_repo⟩ where
  content path := if path = "/repo/agent/linux/trace.h" then some header else some []
  isPresent _ := true
  modified _ := 0
  which compiler := some ("/usr/bin/" ++ compiler)
  revision := none
  configPath := "/repo/configs/workflows/baseline.json"
  config := {
    target := "linux"
    arch := "amd64"
    targetOs := "linux"
    syzkallerDir := "third_party/syzkaller"
    buildDir := "build/testcases" }
  profile := { kind := "local" }

/-- The fingerprints in both states, with the contents for the hashes. -/
def headerFingerprints : List (Fingerprint (List UInt8)) :=
  (buildInputPaths (headerState []) "p.syz" false).map fun path ↦ ⟨.file path, []⟩

/-- The result of a build in the first state. -/
def headerResult : BuildResult (List UInt8) :=
  BuildContext.compiled {
    state := headerState []
    subprocess := fun _ ↦ .ok ⟨0, [], []⟩
    entry := ⟨"p", "p.syz"⟩
    buildRoot := "build/testcases/p"
    shouldBuildCandidate := false
    fingerprints := headerFingerprints } 0 "ok" "done" 0

theorem builtIn_headerResult : BuiltIn id (headerState []) headerResult := by
  refine ⟨fun _ ↦ false, fun _ ↦ .ok ⟨0, [], []⟩, ⟨"p", "p.syz"⟩, ⟨.missing, fun _ ↦ none⟩, _,
    Prod.ext ?_ rfl⟩
  decide +kernel

theorem cachedBuild_sameContent_iff_header :
    SameContent (headerState []) (headerState []) (Reads (headerState []) ⟨"p", "p.syz"⟩ false) ↔
      SameContent (headerState []) (headerState [])
        (Unlisted (headerState []) ⟨"p", "p.syz"⟩ false) :=
  @cachedBuild_sameContent_iff _ _ id _ Function.injective_id _ _ headerResult
    "build/testcases/p/build-result.json" ⟨"p", "p.syz"⟩ _ headerFingerprints builtIn_headerResult
    (by decide +kernel) (by decide +kernel)

/-- The header is another one than the build was made with, and the build is taken from the
cache. -/
theorem cachedBuild_stale :
    BuiltIn id (headerState []) headerResult ∧
      buildInputFingerprints id (headerState [0])
        (buildInputPaths (headerState [0]) "p.syz" false) = .ok headerFingerprints ∧
      loadCachedBuildResult (headerState [0]) "build/testcases/p/build-result.json"
        (.stored headerResult) (buildInputPaths (headerState [0]) "p.syz" false) false
        headerFingerprints = .ok (some headerResult) ∧
      ¬SameContent (headerState []) (headerState [0])
        (Reads (headerState [0]) ⟨"p", "p.syz"⟩ false) := by
  refine ⟨builtIn_headerResult, by decide +kernel, by decide +kernel, fun hsame ↦ ?_⟩
  have hheader : IsHeader (headerState [0]) ⟨"p", "p.syz"⟩ false
      ((headerState [0]).resolve "agent/linux" ++ "/" ++ "trace.h") := by
    refine ⟨.reference, "/usr/bin/gcc", "agent/linux", "trace.h", .inl rfl, ⟨"gcc", rfl, rfl⟩, ?_,
      by decide, rfl, ?_⟩
    · decide
    · unfold InRepository
      decide
  exact absurd (hsame _ (.header _ hheader)) (by decide +kernel)

end SyzAbi.Tools

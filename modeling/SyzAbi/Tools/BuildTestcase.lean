import SyzAbi.Tools.InstrumentSource

/-!
# Building a testcase

`build_one` of `tools/prog2c_wrap.py` turns a normalized program into C, instruments it and compiles
it for the two sides. The fingerprints of the inputs are stored with the result, and a result whose
fingerprints are those of the inputs at hand is taken from `build-result.json`.

A state of the repository is what the file system, the search path and `git` answer. Files have no
second names, so `Path.resolve` makes a path absolute. A field of a configuration that has another
type than the code asks for is as good as absent, and is empty here. The programs that the code
starts are a parameter.
-/

set_option autoImplicit false
set_option relaxedAutoImplicit false

namespace SyzAbi.Tools

open Analyzer Orchestrator

/-! ### Configurations -/

/-- The configuration of one side of the build. -/
structure SideConfig where
  runnerSource : String := ""
  supportedArches : List String := []
  compilerByArch : List (String × String) := []
  compiler : String := ""
  cflags : List String := []

/-- What the build reads of a configuration. -/
structure BuildConfig where
  target : String
  arch : String
  targetOs : String
  reference : SideConfig := {}
  candidate : SideConfig := {}
  compiler : String := ""
  cflags : List String := []
  runnerProfilesPath : String := "configs/runner_profiles.json"
  targetConfigPath : Option String := none
  syzkallerDir : String
  buildDir : String

/-- The profile of the candidate runner. -/
structure CandidateProfile where
  kind : String
  binaryName : String := "testcase.bin"

/-- `build_side_config`. -/
def buildSideConfig (cfg : BuildConfig) : Side → SideConfig
  | .reference => cfg.reference
  | .candidate => cfg.candidate

/-- `runner_source_for_side`. -/
def runnerSourceForSide (cfg : BuildConfig) (side : Side) : String :=
  if (buildSideConfig cfg side).runnerSource ≠ "" then (buildSideConfig cfg side).runnerSource
  else if side = .candidate ∧ cfg.target = "asterinas" then "agent/asterinas/runner.c"
  else "agent/linux/runner.c"

/-- The name of a side in a message. -/
def sideName : Side → String
  | .reference => "reference"
  | .candidate => "candidate"

/-- `compiler_for_side`. -/
def compilerForSide (cfg : BuildConfig) (side : Side) : Except PyError String :=
  let sideCfg := buildSideConfig cfg side
  if sideCfg.supportedArches ≠ [] ∧ cfg.arch ∉ sideCfg.supportedArches then
    .error ⟨"ValueError", sideName side ++ " build does not support arch=" ++ cfg.arch⟩
  else if sideCfg.compilerByArch ≠ [] then
    let compiler := (sideCfg.compilerByArch.lookup cfg.arch).getD ""
    if compiler = "" then
      .error ⟨"ValueError",
        sideName side ++ " build is missing compiler_by_arch entry for arch=" ++ cfg.arch⟩
    else .ok compiler
  else if sideCfg.compiler ≠ "" then .ok sideCfg.compiler
  else if cfg.compiler ≠ "" then .ok cfg.compiler
  else .ok "gcc"

/-- `cflags_for_side`. -/
def cflagsForSide (cfg : BuildConfig) (side : Side) : List String :=
  cfg.cflags ++ (buildSideConfig cfg side).cflags

/-- `should_build_candidate_binary`. -/
def shouldBuildCandidateBinary (profile : CandidateProfile) : Bool :=
  profile.binaryName ≠ "testcase.bin" || profile.kind = "command"

/-! ### The repository -/

def isAbsolute (path : String) : Bool := path.toList.head? = some '/'

/-- `resolve_repo_path`. -/
def resolveRepoPath (root path : String) : String :=
  if isAbsolute path then path else root ++ "/" ++ path

/-- `ROOT`, an absolute path. -/
structure RepoRoot where
  path : String
  absolute : isAbsolute path = true

/-- A state of the repository: the files by their absolute paths, the answers of
`resolve_compiler_path` and of `git rev-parse`, and the configuration at hand. -/
structure RepoState (root : RepoRoot) where
  content : String → Option (List UInt8)
  isPresent : String → Bool
  modified : String → ℕ
  which : String → Option String
  revision : Option (List UInt8)
  configPath : String
  config : BuildConfig
  profile : CandidateProfile

variable {root : RepoRoot}

/-- `resolve_repo_path` for the root of the repository. -/
def RepoState.resolve (_ : RepoState root) (path : String) : String :=
  resolveRepoPath root.path path

/-- `Path.read_bytes`. -/
def RepoState.readBytes (state : RepoState root) (path : String) : Except PyError (List UInt8) :=
  match state.content (state.resolve path) with
  | some bytes => .ok bytes
  | none => .error ⟨"FileNotFoundError", "[Errno 2] No such file or directory: '" ++ path ++ "'"⟩

/-- `Path.exists`. -/
def RepoState.pathExists (state : RepoState root) (path : String) : Bool :=
  state.isPresent (state.resolve path)

/-- The `st_mtime_ns` of a file. -/
def RepoState.mtime (state : RepoState root) (path : String) : ℕ :=
  state.modified (state.resolve path)

/-- `syzkaller_bin("syz-prog2c")`. -/
def RepoState.syzProg2c (state : RepoState root) : String :=
  state.resolve state.config.syzkallerDir ++ "/bin/syz-prog2c"

/-! ### Fingerprints -/

/-- The loop over the runner sources: a source is listed unless its file already is. -/
def addSources (state : RepoState root) (paths : List String) : List String → List String
  | [] => paths
  | source :: rest =>
    let resolved := state.resolve source
    if resolved ∈ paths.map state.resolve then addSources state paths rest
    else addSources state (paths ++ [resolved]) rest

/-- The list that `build_input_paths` starts with. -/
def fixedInputPaths (state : RepoState root) (normalizedPath : String) : List String :=
  [normalizedPath,
    state.resolve "tools/prog2c_wrap.py",
    state.resolve "orchestrator/syzkaller.py",
    state.configPath,
    state.resolve state.config.runnerProfilesPath,
    state.syzProg2c,
    state.resolve "agent/linux/trace.c"]

/-- The runner sources of the sides that are built. -/
def runnerSources (cfg : BuildConfig) (shouldBuildCandidate : Bool) : List String :=
  runnerSourceForSide cfg .reference ::
    if shouldBuildCandidate then [runnerSourceForSide cfg .candidate] else []

/-- `build_input_paths`. -/
def buildInputPaths (state : RepoState root) (normalizedPath : String)
    (shouldBuildCandidate : Bool) :
    List String :=
  let paths := addSources state (fixedInputPaths state normalizedPath)
    (runnerSources state.config shouldBuildCandidate)
  let compiler := state.config.candidate.compiler
  if shouldBuildCandidate ∧ compiler ≠ "" ∧ (isAbsolute compiler ∨ state.pathExists compiler) then
    paths ++ [compiler]
  else paths

/-- What a fingerprint belongs to: a file, or the revision of the syzkaller directory. -/
inductive FingerprintName
  | file (path : String)
  | gitRevision (directory : String)
  deriving DecidableEq

structure Fingerprint (Hash : Type) where
  name : FingerprintName
  sha256 : Hash
  deriving DecidableEq

section Hash

variable {Hash : Type} [DecidableEq Hash] (sha256 : List UInt8 → Hash)

/-- `input_fingerprints` without the extra entries. -/
def inputFingerprints (state : RepoState root) (paths : List String) :
    Except PyError (List (Fingerprint Hash)) :=
  paths.mapM fun path ↦ do
    let bytes ← state.readBytes path
    return ⟨.file path, sha256 bytes⟩

/-- `syzkaller_revision_fingerprint`. -/
def syzkallerRevisionFingerprint (state : RepoState root) : Option (Fingerprint Hash) :=
  state.revision.map fun revision ↦
    ⟨.gitRevision (state.resolve state.config.syzkallerDir), sha256 revision⟩

/-- `build_input_fingerprints`. -/
def buildInputFingerprints (state : RepoState root) (paths : List String) :
    Except PyError (List (Fingerprint Hash)) := do
  let fingerprints ← inputFingerprints sha256 state paths
  return fingerprints ++ (syzkallerRevisionFingerprint sha256 state).toList

/-! ### Build results -/

/-- A build result. The result of a failed `syz-prog2c` has fewer fields. -/
structure BuildResult (Hash : Type) where
  programId : String
  normalizedPath : Option String := none
  status : String
  stage : String
  returncode : ℤ
  stderrPath : Option String := none
  wrappedSyscalls : Option ℕ := none
  testcaseC : Option String := none
  testcaseInstrumentedC : Option String := none
  testcaseBin : Option String := none
  candidateTestcaseBin : Option String := none
  prog2cStderr : Option String := none
  compileStderr : Option String := none
  candidateCompileStderr : Option String := none
  inputFingerprints : Option (List (Fingerprint Hash)) := none
  deriving DecidableEq

/-- The file `build-result.json`: it is not there, it is no JSON, it raises in another way, or it
holds a result. -/
inductive ResultFile (Hash : Type)
  | missing
  | malformed
  | unusable (error : PyError)
  | stored (result : BuildResult Hash)

/-- The test of `load_cached_build_result` that a cached result passes. -/
def isFresh (state : RepoState root) (recordPath : String) (inputPaths : List String)
    (shouldBuildCandidate : Bool) (fingerprints : List (Fingerprint Hash))
    (cached : BuildResult Hash) : Bool :=
  let outputPaths := [cached.testcaseC.getD "", cached.testcaseInstrumentedC.getD "",
    cached.testcaseBin.getD ""] ++
      if shouldBuildCandidate then [cached.candidateTestcaseBin.getD ""] else []
  let newestInput := (inputPaths.map state.mtime).foldl max 0
  let oldestOutput := (outputPaths.map state.mtime).foldl min (state.mtime recordPath)
  cached.status = ExecutionStatus.ok.value &&
    (!shouldBuildCandidate || cached.candidateTestcaseBin.getD "" ≠ "") &&
    outputPaths.all state.pathExists && inputPaths.all state.pathExists &&
    cached.inputFingerprints = some fingerprints && newestInput ≤ oldestOutput

/-- `load_cached_build_result`. -/
def loadCachedBuildResult (state : RepoState root) (recordPath : String) (record : ResultFile Hash)
    (inputPaths : List String) (shouldBuildCandidate : Bool)
    (fingerprints : List (Fingerprint Hash)) : Except PyError (Option (BuildResult Hash)) :=
  match record with
  | .missing | .malformed => .ok none
  | .unusable error => .error error
  | .stored cached =>
    .ok (if isFresh state recordPath inputPaths shouldBuildCandidate fingerprints cached then
      some cached else none)

end Hash

/-! ### Compiling -/

/-- A process that ended. -/
structure Completed where
  returncode : ℤ
  stdout : PyStr
  stderr : PyStr
  deriving DecidableEq

/-- `subprocess.run`, which raises when the program cannot be started. -/
abbrev Subprocess := List String → Except PyError Completed

/-- The command line of `build_prog2c`. -/
def prog2cCommand (state : RepoState root) (program : String) : List String :=
  [state.syzProg2c, "-os", state.config.targetOs, "-arch", state.config.arch, "-prog", program,
    "-repeat=1", "-procs=1"]

/-- `build_prog2c`. -/
def buildProg2c (state : RepoState root) (subprocess : Subprocess) (program : String) :
    Except PyError Completed :=
  if state.pathExists state.syzProg2c then subprocess (prog2cCommand state program)
  else .error ⟨"FileNotFoundError", "required binary is missing: " ++ state.syzProg2c⟩

/-- The command line of `compile_testcase`. -/
def compileCommand (cfg : BuildConfig) (side : Side)
    (compiler instrumentedPath binaryPath : String) :
    List String :=
  [compiler, "-O2", "-std=gnu11", "-Wall", "-Wextra", "-Wno-unused-result",
    "-Wno-unused-function"] ++
    cflagsForSide cfg side ++ ["-I", "agent/linux", instrumentedPath, "agent/linux/trace.c",
      runnerSourceForSide cfg side, "-o", binaryPath]

/-- `compile_testcase`. -/
def compileTestcase (state : RepoState root) (subprocess : Subprocess) (side : Side)
    (instrumentedPath binaryPath : String) : Except PyError Completed := do
  let compiler ← compilerForSide state.config side
  match state.which compiler with
  | none =>
    return {
      returncode := 127
      stdout := []
      stderr := PyStr.ofString
        ("missing compiler for " ++ sideName side ++ " build: " ++ compiler) }
  | some compiler =>
    subprocess (compileCommand state.config side compiler instrumentedPath binaryPath)

/-! ### `build_one` -/

/-- An entry of the eligible file. -/
structure BuildEntry where
  programId : String
  normalizedPath : String

/-- A build directory: the result file, and the texts that are written beside it. -/
structure BuildDir (Hash : Type) where
  record : ResultFile Hash
  texts : String → Option PyStr

variable {Hash : Type}

/-- `Path.write_text` in the build directory. -/
def BuildDir.writeText (dir : BuildDir Hash) (name : String) (text : PyStr) : BuildDir Hash :=
  { dir with texts := fun other ↦ if other = name then some text else dir.texts other }

/-- `dump_json` of a result. -/
def BuildDir.store (dir : BuildDir Hash) (result : BuildResult Hash) :
    Except PyError (BuildResult Hash) × BuildDir Hash :=
  (.ok result, { dir with record := .stored result })

/-- The errors that `except ValueError` catches. -/
def isValueError (error : PyError) : Bool :=
  error.typeName ∈ ["ValueError", "UnicodeDecodeError", "UnicodeEncodeError"]

/-- What the last part of `build_one` works with. -/
structure BuildContext (root : RepoRoot) (Hash : Type) where
  state : RepoState root
  subprocess : Subprocess
  entry : BuildEntry
  buildRoot : String
  shouldBuildCandidate : Bool
  fingerprints : List (Fingerprint Hash)

/-- The text of `Classification.BUILD_FAILURE`. -/
def buildFailureStatus : String := "build_failure"

/-- The fields that the results behind the compilers have in common. -/
def BuildContext.compiled (ctx : BuildContext root Hash) (wrappedCount : ℕ) (status stage : String)
    (returncode : ℤ) : BuildResult Hash where
  programId := ctx.entry.programId
  normalizedPath := some ctx.entry.normalizedPath
  status := status
  stage := stage
  returncode := returncode
  wrappedSyscalls := some wrappedCount
  testcaseC := some (ctx.buildRoot ++ "/testcase.c")
  testcaseInstrumentedC := some (ctx.buildRoot ++ "/testcase.instrumented.c")
  testcaseBin := some (ctx.buildRoot ++ "/testcase.bin")
  candidateTestcaseBin :=
    if ctx.shouldBuildCandidate then some (ctx.buildRoot ++ "/testcase.candidate.bin") else none
  prog2cStderr := some (ctx.buildRoot ++ "/prog2c.stderr.txt")
  compileStderr := some (ctx.buildRoot ++ "/compile.reference.stderr.txt")
  candidateCompileStderr :=
    if ctx.shouldBuildCandidate then some (ctx.buildRoot ++ "/compile.candidate.stderr.txt")
    else none
  inputFingerprints := some ctx.fingerprints

/-- The handler around the compilers. -/
def BuildContext.handle (ctx : BuildContext root Hash) (wrappedCount : ℕ) (dir : BuildDir Hash)
    (error : PyError) : Except PyError (BuildResult Hash) × BuildDir Hash :=
  if isValueError error then
    (dir.writeText "compile.reference.stderr.txt" (PyStr.ofString error.text)).store
      (ctx.compiled wrappedCount buildFailureStatus "compile" 1)
  else (.error error, dir)

/-- The result of the compilers. -/
def BuildContext.finish (ctx : BuildContext root Hash) (wrappedCount : ℕ) (dir : BuildDir Hash)
    (reference : Completed) (candidate : Option Completed) :
    Except PyError (BuildResult Hash) × BuildDir Hash :=
  let failed := reference.returncode ≠ 0 ∨ ∃ completed ∈ candidate, completed.returncode ≠ 0
  dir.store (if failed then
      ctx.compiled wrappedCount buildFailureStatus "compile"
        ((candidate.map Completed.returncode).getD reference.returncode)
    else ctx.compiled wrappedCount ExecutionStatus.ok.value "done" reference.returncode)

/-- `build_one` from the compilers on. -/
def BuildContext.compile (ctx : BuildContext root Hash) (wrappedCount : ℕ) (dir : BuildDir Hash) :
    Except PyError (BuildResult Hash) × BuildDir Hash :=
  let instrumentedPath := ctx.buildRoot ++ "/testcase.instrumented.c"
  match compileTestcase ctx.state ctx.subprocess .reference instrumentedPath
      (ctx.buildRoot ++ "/testcase.bin") with
  | .error error => ctx.handle wrappedCount dir error
  | .ok reference =>
    let dir := dir.writeText "compile.reference.stderr.txt" reference.stderr
    if ctx.shouldBuildCandidate then
      match compileTestcase ctx.state ctx.subprocess .candidate instrumentedPath
          (ctx.buildRoot ++ "/testcase.candidate.bin") with
      | .error error => ctx.handle wrappedCount dir error
      | .ok candidate =>
        ctx.finish wrappedCount (dir.writeText "compile.candidate.stderr.txt" candidate.stderr)
          reference (some candidate)
    else ctx.finish wrappedCount dir reference none

/-- `build_one` behind the cache. -/
def BuildContext.rebuild (ctx : BuildContext root Hash) (unicodeAlnum : ℕ → Bool)
    (dir : BuildDir Hash) :
    Except PyError (BuildResult Hash) × BuildDir Hash :=
  match buildProg2c ctx.state ctx.subprocess ctx.entry.normalizedPath with
  | .error error => (.error error, dir)
  | .ok prog2c =>
    let dir := dir.writeText "prog2c.stderr.txt" prog2c.stderr
    if prog2c.returncode ≠ 0 then
      dir.store {
        programId := ctx.entry.programId
        status := buildFailureStatus
        stage := "prog2c"
        returncode := prog2c.returncode
        stderrPath := some (ctx.buildRoot ++ "/prog2c.stderr.txt") }
    else
      let dir := dir.writeText "testcase.c" prog2c.stdout
      match instrumentSource unicodeAlnum prog2c.stdout with
      | .error error => (.error error, dir)
      | .ok (instrumented, wrappedCount) =>
        ctx.compile wrappedCount (dir.writeText "testcase.instrumented.c" instrumented)

/-- `build_one`: what it returns or raises, and the build directory that it leaves. -/
def buildOne [DecidableEq Hash] (sha256 : List UInt8 → Hash) (unicodeAlnum : ℕ → Bool)
    (state : RepoState root) (subprocess : Subprocess) (entry : BuildEntry) (dir : BuildDir Hash) :
    Except PyError (BuildResult Hash) × BuildDir Hash :=
  let buildRoot := state.config.buildDir ++ "/" ++ entry.programId
  let shouldBuildCandidate := shouldBuildCandidateBinary state.profile
  let inputs := buildInputPaths state entry.normalizedPath shouldBuildCandidate
  match buildInputFingerprints sha256 state inputs with
  | .error error => (.error error, dir)
  | .ok fingerprints =>
    match loadCachedBuildResult state (buildRoot ++ "/build-result.json") dir.record inputs
        shouldBuildCandidate fingerprints with
    | .error error => (.error error, dir)
    | .ok (some cached) => (.ok cached, dir)
    | .ok none =>
      BuildContext.rebuild
        { state, subprocess, entry, buildRoot, shouldBuildCandidate, fingerprints }
        unicodeAlnum dir

end SyzAbi.Tools

import SyzAbi.Library.FirstUse
import SyzAbi.Library.LoopRows
import SyzAbi.Tools.ImportedPrograms

/-!
# The eligible programs

`tools/filter_corpus.py` reads the metadata of the corpus and keeps the programs of the baseline:
calls of the allowlist only, none with a denied name, and no read of a pipe that the program itself
opened (`hasLikelyBlockingPipeRead`).

The eligible file is a function of the programs that were ever imported. It lists each eligible one
once, sorted by id (`filterCorpus_importSession`), whatever runs imported it, how often, from which
kind of source, and in which order the threads of the runs completed (`filterCorpus_eq`). A program
without calls has no list of names, and stops the filter.
-/

set_option autoImplicit false
set_option relaxedAutoImplicit false

namespace SyzAbi.Tools.ImportSyz

open Analyzer Orchestrator Library.FirstUse Library.Fallible Library.LoopRows

/-! ### Reads of pipes -/

/-- The allowlist of a workflow. `wideDigit` says which characters beyond ASCII are digits. -/
structure Allowlist where
  syscalls : List PyStr
  denyPrefixes : List PyStr
  denyNameContains : List PyStr
  pseudoPrefix : PyStr
  threadingPrefixes : List PyStr
  wideDigit : ℕ → Bool

variable (allow : Allowlist)

/-- The class `\d`. -/
def Allowlist.isDecimal (c : ℕ) : Bool :=
  if c < 128 then Library.Json.isDigit c else allow.wideDigit c

/-- `r\d+` at the head of a text, and what follows. -/
def registerAt (text : PyStr) : Option (PyStr × PyStr) :=
  match text with
  | 114 :: rest =>
    let digits := rest.takeWhile allow.isDecimal
    if digits.isEmpty then none else some (114 :: digits, rest.drop digits.length)
  | _ => none

/-- `<(r\d+)=>` at the head of a text. -/
def captureAt (text : PyStr) : Option PyStr :=
  match text with
  | 60 :: rest =>
    match registerAt allow rest with
    | some (fd, 61 :: 62 :: _) => some fd
    | _ => none
  | _ => none

/-- The first `<(r\d+)=>` of a text. -/
def findCapture : PyStr → Option PyStr
  | [] => none
  | c :: rest => (captureAt allow (c :: rest)).or (findCapture rest)

/-- `PIPE_READ_CAPTURE_RE`. -/
def pipeReadCapture (line : PyStr) : Option PyStr :=
  let body := line.dropWhile isStripped
  ((PyStr.ofString "pipe(&").isPrefixOf? body).or ((PyStr.ofString "pipe2(&").isPrefixOf? body) >>=
    findCapture allow

/-- `PIPE_READ_USE_RE`. -/
def pipeReadUse (line : PyStr) : Option PyStr :=
  let body := line.dropWhile isStripped
  ((PyStr.ofString "read(").isPrefixOf? body).or ((PyStr.ofString "pread64(").isPrefixOf? body) >>=
    fun rest ↦
      match registerAt allow rest with
      | some (fd, 44 :: _) => some fd
      | _ => none

/-- The loop of `has_likely_blocking_pipe_read`, with the registers captured so far. -/
def blockingRead (fds : List PyStr) : List PyStr → Bool
  | [] => false
  | line :: rest =>
    match pipeReadCapture allow line with
    | some fd => blockingRead (fd :: fds) rest
    | none =>
      match pipeReadUse allow line with
      | some fd => if fd ∈ fds then true else blockingRead fds rest
      | none => blockingRead fds rest

/-- `has_likely_blocking_pipe_read`. -/
def hasLikelyBlockingPipeRead (corpus : Corpus) (stored : ProgramMeta) : Bool :=
  if stored.normalizedPath.isEmpty then false
  else
    match corpus.normalized.lookup stored.normalizedPath with
    | none => false
    | some text => blockingRead allow [] (splitLines (Tools.GuestNames.universalNewlines text))

/-! ### Rejections -/

/-- The prefixes of the calls that need privileges. -/
def privilegedPrefixes : List PyStr :=
  ["mount", "umount", "pivot_root", "setns", "unshare"].map PyStr.ofString

/-- `str.startswith` with a tuple. -/
def startsWithAny (name : PyStr) (starts : List PyStr) : Bool :=
  starts.any fun start ↦ start.isPrefixOf name

def reasonIf (condition : Bool) (reason : String) : List PyStr :=
  if condition then [PyStr.ofString reason] else []

/-- The reasons that one call of a program gives. -/
def callReasons (fullName : PyStr) : List PyStr :=
  let name := baseSyscallName fullName
  reasonIf (allow.pseudoPrefix.isPrefixOf name) "pseudo_syscall" ++
    reasonIf (name ∉ allow.syscalls) "non_allowlisted_syscall" ++
    reasonIf (fullName ≠ name && fullName ∉ allow.syscalls) "non_allowlisted_variant" ++
    reasonIf (startsWithAny name allow.denyPrefixes)
      (if startsWithAny name privilegedPrefixes then "privileged_or_mount_path"
        else "complex_network_path") ++
    reasonIf (startsWithAny name allow.threadingPrefixes) "threading_sensitive" ++
    reasonIf (allow.denyNameContains.any fun item ↦ item <:+: fullName) "complex_network_path"

/-- Iteration over the names of a program. The list is null when the program has no calls. -/
def iterated : Option (List PyStr) → Except PyError (List PyStr)
  | some names => .ok names
  | none => .error ⟨"TypeError", "'NoneType' object is not iterable"⟩

/-- `classify_rejection`. -/
def classifyRejection (corpus : Corpus) (stored : ProgramMeta) : Except PyError (List PyStr) := do
  let fullNames ← iterated stored.fullSyscallList
  return noteAll [] (reasonIf stored.usesPseudoSyscalls "pseudo_syscall" ++
    fullNames.flatMap (callReasons allow) ++
    reasonIf stored.usesThreadingSensitiveFeatures "threading_sensitive" ++
    reasonIf (hasLikelyBlockingPipeRead allow corpus stored) "likely_blocking_pipe_read")

/-! ### The eligible file -/

/-- `EligibleProgram`. -/
structure EligibleProgram where
  programId : PyStr
  workflow : PyStr
  reason : List PyStr
  normalizedPath : PyStr
  metaPath : PyStr
  sourceWorkflow : PyStr := []
  sourceProgramId : PyStr := []
  scmlPreflightStatus : PyStr := PyStr.ofString "not_run"
  scmlRejectionReasons : List PyStr := []
  scmlTraceLogPath : PyStr := []
  scmlSctraceOutputPath : PyStr := []
  scmlPreflightRunRoot : PyStr := []
  deriving DecidableEq

/-- What `main` writes: the eligible file and the summary. -/
structure FilterReport where
  eligibleRows : List EligibleProgram
  totalMeta : ℕ
  eligible : ℕ
  rejected : ℕ
  rejectionCounts : PyStr → ℕ

def eligibleReasons : List PyStr :=
  ["allowed_syscalls_only", "no_pseudo", "single_thread_safe"].map PyStr.ofString

/-- The row of a program. -/
def eligibleRow (stored : ProgramMeta) (metaPath : PyStr) : EligibleProgram where
  programId := stored.programId
  workflow := PyStr.ofString "baseline"
  reason := eligibleReasons
  normalizedPath := stored.normalizedPath
  metaPath := metaPath

/-- The reasons against a program, and its row when there are none. -/
structure Judged where
  reasons : List PyStr
  row : Option EligibleProgram

/-- `load_json`. -/
def Corpus.loadMeta (corpus : Corpus) (metaPath : PyStr) : Except PyError ProgramMeta :=
  match corpus.metas.lookup metaPath with
  | some stored => .ok stored
  | none => .error ⟨"FileNotFoundError", "[Errno 2] No such file or directory"⟩

/-- The body of the loop of `main`. -/
def judgeMeta (corpus : Corpus) (metaPath : PyStr) : Except PyError Judged := do
  let stored ← corpus.loadMeta metaPath
  let reasons ← classifyRejection allow corpus stored
  return ⟨reasons, if reasons.isEmpty then some (eligibleRow stored metaPath) else none⟩

/-- `sorted(Path(meta_root).glob("*.json"))`. -/
def metaPaths (corpus : Corpus) : List PyStr := corpus.metas.keys.insertionSort (· ≤ ·)

/-- `main`. -/
def filterCorpus (corpus : Corpus) : Except PyError FilterReport := do
  let judged ← (metaPaths corpus).mapM (judgeMeta allow corpus)
  let rows := judged.filterMap Judged.row
  return {
    eligibleRows := rows.insertionSort fun row other ↦ row.programId ≤ other.programId
    totalMeta := judged.length
    eligible := rows.length
    rejected := judged.length - rows.length
    rejectionCounts := fun reason ↦ (judged.flatMap Judged.reasons).count reason }

/-! ### Eligible programs -/

/-- A name of a call that the allowlist lets through. -/
structure AllowedName (fullName : PyStr) : Prop where
  listed : fullName ∈ allow.syscalls
  baseListed : baseSyscallName fullName ∈ allow.syscalls
  notPseudo : ¬ allow.pseudoPrefix <+: baseSyscallName fullName
  notDenied : ∀ start ∈ allow.denyPrefixes, ¬ start <+: baseSyscallName fullName
  notThreading : ∀ start ∈ allow.threadingPrefixes, ¬ start <+: baseSyscallName fullName
  noDeniedPart : ∀ part ∈ allow.denyNameContains, ¬ part <:+: fullName

/-- A line reads the end of a pipe that an earlier line opened. -/
def ReadsOwnPipe (lines : List PyStr) : Prop :=
  ∃ front use behind fd, lines = front ++ use :: behind ∧ pipeReadUse allow use = some fd ∧
    ∃ capture ∈ front, pipeReadCapture allow capture = some fd

/-- A program of the baseline. -/
structure Eligible {Prog : Type} (lib : ProgLibrary Prog) (program : Prog) : Prop where
  names : ∀ call ∈ lib.calls program, AllowedName allow call.name
  notPseudo : ∀ call ∈ lib.calls program, ¬ PyStr.ofString "syz_" <+: call.callName
  sequential : ∀ call ∈ lib.calls program, call.async = false ∧ call.failNth ≤ 0 ∧ call.rerun ≤ 0
  nonblocking : ¬ ReadsOwnPipe allow
    (splitLines (Tools.GuestNames.universalNewlines (lib.normalized program)))

/-- The row of an imported program. -/
def baselineRow {Prog : Type} (lib : ProgLibrary Prog) (paths : CorpusPaths) (program : Prog) :
    EligibleProgram where
  programId := lib.programId program
  workflow := PyStr.ofString "baseline"
  reason := eligibleReasons
  normalizedPath := (lib.config paths).normalizedPath (lib.programId program)
  metaPath := (lib.config paths).metaPath (lib.programId program)

variable {allow}

theorem reasonIf_eq_nil_iff {condition : Bool} {reason : String} :
    reasonIf condition reason = [] ↔ condition = false := by
  cases condition
  · exact iff_of_true rfl rfl
  · exact iff_of_false (List.cons_ne_nil _ _) Bool.true_eq_false_eq_False

theorem startsWithAny_eq_false_iff {name : PyStr} {starts : List PyStr} :
    startsWithAny name starts = false ↔ ∀ start ∈ starts, ¬ start <+: name := by
  rw [startsWithAny, List.any_eq_false]
  simp only [List.isPrefixOf_iff_prefix]

/-- A name gives no reason exactly when it is let through. -/
theorem callReasons_eq_nil_iff {fullName : PyStr} :
    callReasons allow fullName = [] ↔ AllowedName allow fullName := by
  have hpseudo : allow.pseudoPrefix.isPrefixOf (baseSyscallName fullName) = false ↔
      ¬ allow.pseudoPrefix <+: baseSyscallName fullName := by
    rw [← Bool.not_eq_true, List.isPrefixOf_iff_prefix]
  simp only [callReasons, List.append_eq_nil_iff, reasonIf_eq_nil_iff, startsWithAny_eq_false_iff,
    decide_eq_false_iff_not, not_not, List.any_eq_false, decide_eq_true_iff, Bool.and_eq_false_iff,
    hpseudo]
  constructor
  · rintro ⟨⟨⟨⟨⟨hpseudo, hbase⟩, hvariant⟩, hdenied⟩, hthreading⟩, hpart⟩
    refine ⟨?_, hbase, hpseudo, hdenied, hthreading, hpart⟩
    rcases hvariant with hsame | hlisted
    · exact hsame ▸ hbase
    · exact hlisted
  · rintro ⟨hlisted, hbase, hpseudo, hdenied, hthreading, hpart⟩
    exact ⟨⟨⟨⟨⟨hpseudo, hbase⟩, .inr hlisted⟩, hdenied⟩, hthreading⟩, hpart⟩

/-! ### Pipes -/

/-- A line that reads a pipe does not open one. -/
theorem pipeReadCapture_of_use {line fd : PyStr} (huse : pipeReadUse allow line = some fd) :
    pipeReadCapture allow line = none := by
  obtain ⟨rest, hread, -⟩ := Option.bind_eq_some_iff.mp huse
  have hhead : line.dropWhile isStripped = PyStr.ofString "read(" ++ rest ∨
      line.dropWhile isStripped = PyStr.ofString "pread64(" ++ rest := by
    rcases Option.or_eq_some_iff.mp hread with hread | ⟨-, hread⟩
    · exact .inl (List.isPrefixOf?_eq_some_iff_append_eq.mp hread).symm
    · exact .inr (List.isPrefixOf?_eq_some_iff_append_eq.mp hread).symm
  rw [pipeReadCapture]
  rcases hhead with hhead | hhead
  · rw [hhead]
    rfl
  · rw [hhead]
    rfl

/-- A read that comes after what it needs, in a list with one more line at its head. -/
theorem exists_use_cons {fds : List PyStr} {line : PyStr} {rest : List PyStr}
    {reads captures : PyStr → Option PyStr} :
    (∃ front use behind fd, line :: rest = front ++ use :: behind ∧ reads use = some fd ∧
        (fd ∈ fds ∨ ∃ capture ∈ front, captures capture = some fd)) ↔
      (∃ fd ∈ fds, reads line = some fd) ∨
        ∃ front use behind fd, rest = front ++ use :: behind ∧ reads use = some fd ∧
          (fd ∈ fds ∨ captures line = some fd ∨ ∃ capture ∈ front, captures capture = some fd) := by
  constructor
  · rintro ⟨front, use, behind, fd, hlines, huse, hfd⟩
    cases front with
    | nil =>
      obtain ⟨rfl, rfl⟩ := List.cons.inj hlines
      exact .inl ⟨fd, hfd.resolve_right (fun ⟨_, h, _⟩ ↦ absurd h List.not_mem_nil), huse⟩
    | cons first front =>
      obtain ⟨rfl, rfl⟩ := List.cons.inj hlines
      refine .inr ⟨front, use, behind, fd, rfl, huse, hfd.imp_right ?_⟩
      rintro ⟨capture, hcapture, hsome⟩
      rcases List.mem_cons.mp hcapture with rfl | hfront
      · exact .inl hsome
      · exact .inr ⟨capture, hfront, hsome⟩
  · rintro (⟨fd, hfd, huse⟩ | ⟨front, use, behind, fd, rfl, huse, hfd⟩)
    · exact ⟨[], line, rest, fd, rfl, huse, .inl hfd⟩
    · refine ⟨line :: front, use, behind, fd, rfl, huse, hfd.imp_right ?_⟩
      rintro (hline | ⟨capture, hcapture, hsome⟩)
      · exact ⟨line, List.mem_cons_self, hline⟩
      · exact ⟨capture, List.mem_cons_of_mem line hcapture, hsome⟩

/-- The loop finds a read of a register that it knows or that a line before captured. -/
theorem blockingRead_iff {fds lines : List PyStr} :
    blockingRead allow fds lines = true ↔
      ∃ front use behind fd, lines = front ++ use :: behind ∧ pipeReadUse allow use = some fd ∧
        (fd ∈ fds ∨ ∃ capture ∈ front, pipeReadCapture allow capture = some fd) := by
  fun_induction blockingRead allow fds lines with
  | case1 fds =>
    refine iff_of_false Bool.false_ne_true ?_
    rintro ⟨front, use, behind, fd, hlines, -⟩
    exact List.cons_ne_nil _ _ (List.append_eq_nil_iff.mp hlines.symm).2
  | case2 fds line rest fd hcapture ih =>
    rw [ih, exists_use_cons, hcapture, or_iff_right]
    · simp only [List.mem_cons, Option.some.injEq, or_assoc, eq_comm (a := fd), or_left_comm]
    · rintro ⟨fd, -, huse⟩
      rw [pipeReadCapture_of_use huse] at hcapture
      cases hcapture
  | case3 fds line rest hcapture fd huse hfd =>
    rw [exists_use_cons]
    exact iff_of_true rfl (.inl ⟨fd, hfd, huse⟩)
  | case4 fds line rest hcapture fd huse hfd ih =>
    rw [ih, exists_use_cons, hcapture, or_iff_right]
    · simp only [reduceCtorEq, false_or]
    · rintro ⟨other, hother, hread⟩
      exact hfd (Option.some.inj (huse.symm.trans hread) ▸ hother)
  | case5 fds line rest hcapture huse ih =>
    rw [ih, exists_use_cons, hcapture, or_iff_right]
    · simp only [reduceCtorEq, false_or]
    · rintro ⟨other, -, hread⟩
      rw [huse] at hread
      cases hread

theorem blockingRead_nil_eq_false_iff {lines : List PyStr} :
    blockingRead allow [] lines = false ↔ ¬ ReadsOwnPipe allow lines := by
  rw [← Bool.not_eq_true, blockingRead_iff, ReadsOwnPipe]
  simp only [List.not_mem_nil, false_or]

/-! ### The judgement of a program -/

section Programs

variable {Prog : Type} {lib : ProgLibrary Prog} {paths : CorpusPaths} {runs : List ImportRun}
  {program : Prog}

variable (allow lib paths) in
/-- What the filter finds on a program, in whatever corpus. -/
def judgeProgram (program : Prog) : Except PyError Judged := do
  let fullNames ← iterated (collectFullCalls (lib.calls program))
  let reasons := noteAll [] (reasonIf (hasPseudo (lib.calls program)) "pseudo_syscall" ++
    fullNames.flatMap (callReasons allow) ++
    reasonIf (hasThreadSensitiveProps (lib.calls program)) "threading_sensitive" ++
    reasonIf (blockingRead allow []
        (splitLines (Tools.GuestNames.universalNewlines (lib.normalized program))))
      "likely_blocking_pipe_read")
  return ⟨reasons, if reasons.isEmpty then some (baselineRow lib paths program) else none⟩

/-- The verdict on an imported program comes from the program alone. -/
theorem judgeMeta_of_imported (hlib : lib.ReadsBack (Imported lib runs))
    (himported : Imported lib runs program) :
    judgeMeta allow (importSession (lib.config paths) runs)
        ((lib.config paths).metaPath (lib.programId program)) =
      judgeProgram allow lib paths program := by
  obtain ⟨⟨stored, hstored, hdescribes⟩, hnormalized⟩ :=
    exists_stored paths hlib himported
  have hpath : ((lib.config paths).normalizedPath (lib.programId program)).isEmpty = false := by
    rw [ImportConfig.normalizedPath, filePath, List.isEmpty_eq_false_iff]
    exact List.append_ne_nil_of_left_ne_nil (List.append_ne_nil_of_right_ne_nil _
      (List.cons_ne_nil _ _)) _
  have hpipe : hasLikelyBlockingPipeRead allow (importSession (lib.config paths) runs) stored =
      blockingRead allow []
        (splitLines (Tools.GuestNames.universalNewlines (lib.normalized program))) := by
    rw [hasLikelyBlockingPipeRead, hdescribes.normalizedPath, lib.info_programId, hpath,
      if_neg Bool.false_ne_true, hnormalized]
  have hrow : eligibleRow stored ((lib.config paths).metaPath (lib.programId program)) =
      baselineRow lib paths program := by
    rw [eligibleRow, hdescribes.programId, hdescribes.normalizedPath]
    rfl
  rw [judgeMeta, Corpus.loadMeta, hstored]
  simp only [ok_bind, hrow]
  rw [classifyRejection, hpipe, hdescribes.usesPseudoSyscalls,
    hdescribes.usesThreadingSensitiveFeatures, hdescribes.fullSyscallList, bind_assoc]
  rfl

/-- A program is judged unless it has no calls. -/
theorem exists_judgeProgram_iff :
    (∃ judged, judgeProgram allow lib paths program = .ok judged) ↔ lib.calls program ≠ [] := by
  have hnone : collectFullCalls (lib.calls program) = none ↔ lib.calls program = [] := by
    rw [collectFullCalls, sortedNames_eq_none_iff, List.map_eq_nil_iff]
  rw [judgeProgram]
  cases hnames : collectFullCalls (lib.calls program) with
  | none => exact iff_of_false (fun ⟨_, h⟩ ↦ nomatch h) (not_not.mpr (hnone.mp hnames))
  | some names =>
    refine iff_of_true ⟨_, rfl⟩ fun hcalls ↦ ?_
    rw [hnone.mpr hcalls] at hnames
    cases hnames

/-- A program has a row exactly when it is eligible. -/
theorem row_eq_some_iff {judged : Judged} {row : EligibleProgram}
    (hjudged : judgeProgram allow lib paths program = .ok judged) :
    judged.row = some row ↔ Eligible allow lib program ∧ row = baselineRow lib paths program := by
  obtain ⟨names, hnames, hpure⟩ := bind_eq_ok_iff.mp hjudged
  rw [← pure_eq_ok_iff.mp hpure]
  have hfound : collectFullCalls (lib.calls program) = some names := by
    cases hfound : collectFullCalls (lib.calls program) with
    | none =>
      rw [hfound] at hnames
      cases hnames
    | some found =>
      rw [hfound] at hnames
      exact congrArg some (Except.ok.inj hnames)
  have hallowed : (∀ name ∈ names, callReasons allow name = []) ↔
      ∀ call ∈ lib.calls program, AllowedName allow call.name := by
    simp only [mem_of_sortedNames hfound, List.forall_mem_map, callReasons_eq_nil_iff]
  simp only [Option.ite_none_right_eq_some, List.isEmpty_iff, noteAll_nil_eq_nil_iff,
    List.append_eq_nil_iff, reasonIf_eq_nil_iff, List.flatMap_eq_nil_iff, hallowed,
    hasPseudo_eq_false_iff, hasThreadSensitiveProps_eq_false_iff, blockingRead_nil_eq_false_iff,
    Option.some.injEq, eq_comm (a := baselineRow lib paths program)]
  refine and_congr_left fun _ ↦ ?_
  constructor
  · rintro ⟨⟨⟨hpseudo, hnames⟩, hsequential⟩, hpipe⟩
    exact ⟨hnames, hpseudo, hsequential, hpipe⟩
  · rintro ⟨hnames, hpseudo, hsequential, hpipe⟩
    exact ⟨⟨⟨hpseudo, hnames⟩, hsequential⟩, hpipe⟩

/-! ### The eligible file of a session -/

theorem mem_metaPaths {corpus : Corpus} {path : PyStr} :
    path ∈ metaPaths corpus ↔ path ∈ corpus.metas := by
  rw [metaPaths, List.mem_insertionSort, AList.mem_keys]

theorem nodup_metaPaths (corpus : Corpus) : (metaPaths corpus).Nodup :=
  (List.perm_insertionSort _ _).nodup_iff.mpr corpus.metas.keys_nodup

theorem loadMeta_eq_ok {corpus : Corpus} {path : PyStr} {stored : ProgramMeta}
    (hstored : corpus.metas.lookup path = some stored) : corpus.loadMeta path = .ok stored := by
  rw [Corpus.loadMeta, hstored]

theorem metaPath_of_judgeMeta {corpus : Corpus} {path : PyStr} {judged : Judged}
    {row : EligibleProgram} (hjudged : judgeMeta allow corpus path = .ok judged)
    (hrow : judged.row = some row) : row.metaPath = path := by
  obtain ⟨stored, -, hjudged⟩ := bind_eq_ok_iff.mp hjudged
  obtain ⟨reasons, -, hpure⟩ := bind_eq_ok_iff.mp hjudged
  rw [← pure_eq_ok_iff.mp hpure, Option.ite_none_right_eq_some] at hrow
  rw [← Option.some.inj hrow.2]
  rfl

theorem exists_filterCorpus_iff {corpus : Corpus} :
    (∃ report, filterCorpus allow corpus = .ok report) ↔
      ∀ path ∈ corpus.metas, ∃ judged, judgeMeta allow corpus path = .ok judged := by
  constructor
  · rintro ⟨report, hreport⟩ path hpath
    obtain ⟨judged, hjudged, -⟩ := bind_eq_ok_iff.mp hreport
    obtain ⟨first, -, hfirst⟩ :=
      exists_result_of_mapM_eq_ok hjudged (mem_metaPaths.mpr hpath)
    exact ⟨first, hfirst⟩
  · intro hall
    obtain ⟨judged, hjudged⟩ := exists_mapM_eq_ok fun path hpath ↦
      hall path (mem_metaPaths.mp hpath)
    exact ⟨_, bind_eq_ok_iff.mpr ⟨judged, hjudged, rfl⟩⟩

/-- A row stands for a metadata file without reasons against it. -/
theorem mem_eligibleRows_iff {corpus : Corpus} {report : FilterReport}
    (hreport : filterCorpus allow corpus = .ok report) {row : EligibleProgram} :
    row ∈ report.eligibleRows ↔ ∃ path ∈ corpus.metas, ∃ judged,
      judgeMeta allow corpus path = .ok judged ∧ judged.row = some row := by
  obtain ⟨judged, hjudged, hpure⟩ := bind_eq_ok_iff.mp hreport
  rw [← pure_eq_ok_iff.mp hpure, List.mem_insertionSort, List.mem_filterMap]
  constructor
  · rintro ⟨first, hfirst, hrow⟩
    obtain ⟨path, hpath, hok⟩ := exists_of_mapM_eq_ok hjudged hfirst
    exact ⟨path, mem_metaPaths.mp hpath, first, hok, hrow⟩
  · rintro ⟨path, hpath, first, hok, hrow⟩
    obtain ⟨other, hother, hotherOk⟩ :=
      exists_result_of_mapM_eq_ok hjudged (mem_metaPaths.mpr hpath)
    obtain rfl := Except.ok.inj (hok.symm.trans hotherOk)
    exact ⟨first, hother, hrow⟩

/-- The rows are sorted by program when their files are named after the programs. -/
theorem pairwise_eligibleRows {corpus : Corpus} {report : FilterReport}
    (hreport : filterCorpus allow corpus = .ok report) (pathOf : PyStr → PyStr)
    (hpathOf : ∀ row ∈ report.eligibleRows, row.metaPath = pathOf row.programId) :
    report.eligibleRows.Pairwise fun row next ↦ row.programId < next.programId := by
  obtain ⟨judged, hjudged, hpure⟩ := bind_eq_ok_iff.mp hreport
  rw [← pure_eq_ok_iff.mp hpure] at hpathOf ⊢
  have hpaths : ((judged.filterMap Judged.row).map EligibleProgram.metaPath).Nodup := by
    have hkeys : ((judged.filterMap Judged.row).map EligibleProgram.metaPath).Sublist
        ((metaPaths corpus).map id) :=
      sublist_keys (mapM_eq_ok_iff.mp hjudged) fun _ _ _ hfirst hrow ↦
        metaPath_of_judgeMeta hfirst hrow
    rw [List.map_id] at hkeys
    exact (nodup_metaPaths corpus).sublist hkeys
  have hmap : (judged.filterMap Judged.row).map EligibleProgram.metaPath =
      ((judged.filterMap Judged.row).map EligibleProgram.programId).map pathOf := by
    rw [List.map_map]
    exact List.map_congr_left fun row hrow ↦ hpathOf row ((List.mem_insertionSort _).mpr hrow)
  rw [hmap] at hpaths
  exact pairwise_lt_insertionSort hpaths.of_map

/-- The rows of a session are those of its eligible programs. -/
theorem mem_baseline_iff (hlib : lib.ReadsBack (Imported lib runs)) {report : FilterReport}
    (hreport : filterCorpus allow (importSession (lib.config paths) runs) = .ok report)
    {row : EligibleProgram} : row ∈ report.eligibleRows ↔ ∃ program, Imported lib runs program ∧
      Eligible allow lib program ∧ row = baselineRow lib paths program := by
  rw [mem_eligibleRows_iff hreport]
  constructor
  · rintro ⟨path, hpath, judged, hjudged, hrow⟩
    obtain ⟨program, himported, rfl⟩ := mem_metas_iff.mp hpath
    rw [judgeMeta_of_imported hlib himported] at hjudged
    exact ⟨program, himported, (row_eq_some_iff hjudged).mp hrow⟩
  · rintro ⟨program, himported, hrow⟩
    have hpath := himported.mem_metas paths
    obtain ⟨judged, hjudged⟩ := exists_filterCorpus_iff.mp ⟨report, hreport⟩ _ hpath
    refine ⟨_, hpath, judged, hjudged, ?_⟩
    rw [judgeMeta_of_imported hlib himported] at hjudged
    exact (row_eq_some_iff hjudged).mpr hrow

theorem pairwise_baseline (hlib : lib.ReadsBack (Imported lib runs)) {report : FilterReport}
    (hreport : filterCorpus allow (importSession (lib.config paths) runs) = .ok report) :
    report.eligibleRows.Pairwise fun row next ↦ row.programId < next.programId := by
  refine pairwise_eligibleRows hreport (lib.config paths).metaPath fun row hrow ↦ ?_
  obtain ⟨program, -, -, rfl⟩ := (mem_baseline_iff hlib hreport).mp hrow
  rfl

/-- Whatever runs imported the programs, the filter stops exactly when one of them has no calls.
Otherwise the eligible file lists each program of the baseline once, sorted by id. -/
theorem filterCorpus_importSession (allow : Allowlist) (lib : ProgLibrary Prog)
    (paths : CorpusPaths) (runs : List ImportRun) (hlib : lib.ReadsBack (Imported lib runs)) :
    ((∃ report, filterCorpus allow (importSession (lib.config paths) runs) = .ok report) ↔
        ∀ program, Imported lib runs program → lib.calls program ≠ []) ∧
      ∀ report, filterCorpus allow (importSession (lib.config paths) runs) = .ok report →
        (report.eligibleRows.Pairwise fun row next ↦ row.programId < next.programId) ∧
        ∀ row, row ∈ report.eligibleRows ↔ ∃ program, Imported lib runs program ∧
          Eligible allow lib program ∧ row = baselineRow lib paths program := by
  refine ⟨?_, fun report hreport ↦
    ⟨pairwise_baseline hlib hreport, fun row ↦ mem_baseline_iff hlib hreport⟩⟩
  rw [exists_filterCorpus_iff]
  constructor
  · intro hall program himported
    obtain ⟨judged, hjudged⟩ := hall _ (himported.mem_metas paths)
    rw [judgeMeta_of_imported hlib himported] at hjudged
    exact exists_judgeProgram_iff.mp ⟨judged, hjudged⟩
  · intro hcalls path hpath
    obtain ⟨program, himported, rfl⟩ := mem_metas_iff.mp hpath
    rw [judgeMeta_of_imported hlib himported]
    exact exists_judgeProgram_iff.mpr (hcalls program himported)

theorem metaPaths_congr {corpus other : Corpus}
    (hpaths : ∀ path, path ∈ corpus.metas ↔ path ∈ other.metas) :
    metaPaths corpus = metaPaths other := by
  have hperm : (metaPaths corpus).Perm (metaPaths other) :=
    (List.perm_ext_iff_of_nodup (nodup_metaPaths corpus) (nodup_metaPaths other)).mpr
      fun path ↦ by rw [mem_metaPaths, mem_metaPaths, hpaths]
  exact hperm.eq_of_pairwise (fun a b _ _ hab hba ↦ le_antisymm hab hba)
    (List.pairwise_insertionSort _ _) (List.pairwise_insertionSort _ _)

/-- The report comes from what the filter finds at each path. -/
theorem filterCorpus_congr {corpus other : Corpus}
    (hpaths : ∀ path, path ∈ corpus.metas ↔ path ∈ other.metas)
    (hjudge : ∀ path ∈ corpus.metas, judgeMeta allow corpus path = judgeMeta allow other path) :
    filterCorpus allow corpus = filterCorpus allow other := by
  have hloop : (metaPaths corpus).mapM (judgeMeta allow corpus) =
      (metaPaths other).mapM (judgeMeta allow other) := by
    have hmap : (metaPaths corpus).map (judgeMeta allow corpus) =
        (metaPaths other).map (judgeMeta allow other) := by
      rw [← metaPaths_congr hpaths]
      exact List.map_congr_left fun path hpath ↦ hjudge path (mem_metaPaths.mp hpath)
    have hid : ∀ (corpus : Corpus), (metaPaths corpus).mapM (judgeMeta allow corpus) =
        ((metaPaths corpus).map (judgeMeta allow corpus)).mapM id := fun corpus ↦
      (List.mapM_map (g := id)).symm
    rw [hid, hid, hmap]
  rw [filterCorpus, hloop, filterCorpus]

/-! ### One program, from three inputs -/

def pidText : PyStr := PyStr.ofString "getpid()\n"

/-- The library as far as it reads one program. -/
def pidLibrary : ProgLibrary Unit where
  targetOs := PyStr.ofString "linux"
  arch := PyStr.ofString "amd64"
  calls _ := [⟨PyStr.ofString "getpid", PyStr.ofString "getpid", [], false, 0, 0⟩]
  serialize _ := pidText
  deserialize _ text :=
    if text = pidText then .ok () else .error (PyStr.ofString "parse_error")
  sha256Hex _ :=
    PyStr.ofString "4547de9010d99209e853d37bc1b2c6a78b69aaf2e4de4a9b05b74bbf575291b9"

def pidPaths : CorpusPaths where
  corpusRaw := PyStr.ofString "corpus/raw"
  corpusNormalized := PyStr.ofString "corpus/normalized"
  corpusMeta := PyStr.ofString "corpus/meta"
  corpusRejected := PyStr.ofString "corpus/rejected"

def pidAllowlist : Allowlist where
  syscalls := [PyStr.ofString "getpid"]
  denyPrefixes := [PyStr.ofString "mount"]
  denyNameContains := []
  pseudoPrefix := PyStr.ofString "syz_"
  threadingPrefixes := []
  wideDigit _ := false

/-- A run over one file, whose threads complete in reverse order. -/
def pidRun (source : SourceType) (bytes : List ℕ) : ImportRun where
  source := source
  strict := true
  files := [⟨PyStr.ofString "inputs/a.syz", bytes⟩]
  completion := List.reverse
  completion_perm := List.reverse_perm
  nodup_paths := List.nodup_singleton _

/-- The program with a comment, as a seed. -/
def pidSeed : ImportRun := pidRun .seed (PyStr.ofString "# seed\n" ++ pidText)

/-- The program in a crash log. -/
def pidCrash : ImportRun := pidRun .crashlog (PyStr.ofString "executing program:\n" ++ pidText)

theorem deserialize_pidLibrary {text : PyStr} (htext : text = pidText) (strict : Bool) :
    pidLibrary.deserialize strict text = .ok () :=
  if_pos htext

theorem readsBack_pidLibrary (programs : Unit → Prop) : pidLibrary.ReadsBack programs where
  deserialize _ _ :=
    deserialize_pidLibrary (show trimSpace pidText ++ [10] = pidText by decide) true
  collision _ _ _ _ _ := rfl

theorem reads_pidSeed : pidSeed.Reads pidLibrary () where
  decodes := List.forall_mem_singleton.mpr ⟨PyStr.ofString "# seed\n" ++ pidText, by decide⟩
  found := ⟨_, List.mem_singleton_self _, PyStr.ofString "# seed\n" ++ pidText, by decide,
    by decide, deserialize_pidLibrary (by decide) true⟩

theorem reads_pidCrash : pidCrash.Reads pidLibrary () where
  decodes := List.forall_mem_singleton.mpr
    ⟨PyStr.ofString "executing program:\n" ++ pidText, by decide⟩
  found := ⟨_, List.mem_singleton_self _, PyStr.ofString "executing program:\n" ++ pidText,
    by decide, by decide, deserialize_pidLibrary (by decide) true⟩

theorem eligible_pidLibrary : Eligible pidAllowlist pidLibrary () where
  names := List.forall_mem_singleton.mpr (callReasons_eq_nil_iff.mp (by decide))
  notPseudo := List.forall_mem_singleton.mpr (by decide)
  sequential := List.forall_mem_singleton.mpr (by decide)
  nonblocking := blockingRead_nil_eq_false_iff.mp (by decide)

theorem filterCorpus_importSession_pidSeed : ∃ report,
    filterCorpus pidAllowlist (importSession (pidLibrary.config pidPaths) [pidSeed]) = .ok report ∧
      baselineRow pidLibrary pidPaths () ∈ report.eligibleRows := by
  obtain ⟨hcalls, hrows⟩ := filterCorpus_importSession pidAllowlist pidLibrary pidPaths [pidSeed]
    (readsBack_pidLibrary _)
  obtain ⟨report, hreport⟩ := hcalls.mpr fun _ _ ↦ List.cons_ne_nil _ _
  exact ⟨report, hreport, ((hrows report hreport).2 _).mpr
    ⟨(), ⟨pidSeed, List.mem_singleton_self _, reads_pidSeed⟩, eligible_pidLibrary, rfl⟩⟩

/-- Sessions that import the same programs leave the filter the same report. -/
theorem filterCorpus_eq (allow : Allowlist) (lib : ProgLibrary Prog) (paths : CorpusPaths)
    (runs otherRuns : List ImportRun) (hlib : lib.ReadsBack (Imported lib runs))
    (hsame : ∀ program, Imported lib runs program ↔ Imported lib otherRuns program) :
    filterCorpus allow (importSession (lib.config paths) runs) =
      filterCorpus allow (importSession (lib.config paths) otherRuns) := by
  have hother : lib.ReadsBack (Imported lib otherRuns) := by
    rwa [← show Imported lib runs = Imported lib otherRuns from
      funext fun program ↦ propext (hsame program)]
  refine filterCorpus_congr (fun path ↦ ?_) fun path hpath ↦ ?_
  · simp only [mem_metas_iff, hsame]
  · obtain ⟨program, himported, rfl⟩ := mem_metas_iff.mp hpath
    rw [judgeMeta_of_imported hlib himported,
      judgeMeta_of_imported hother ((hsame program).mp himported)]

theorem filterCorpus_eq_pidCrash :
    filterCorpus pidAllowlist (importSession (pidLibrary.config pidPaths) [pidSeed]) =
      filterCorpus pidAllowlist
        (importSession (pidLibrary.config pidPaths) [pidCrash, pidSeed, pidCrash]) :=
  filterCorpus_eq pidAllowlist pidLibrary pidPaths _ _ (readsBack_pidLibrary _) fun _ ↦
    iff_of_true ⟨pidSeed, List.mem_singleton_self _, reads_pidSeed⟩
      ⟨pidCrash, List.mem_cons_self, reads_pidCrash⟩

end Programs

end SyzAbi.Tools.ImportSyz

import SyzAbi.Library.Turns
import SyzAbi.Tools.BuildTestcase
import SyzAbi.Tools.CaseRuns

/-!
# The directories of the runs of a campaign

Every run of a campaign has an artifact root and a sandbox root, and it starts by deleting what is
in its sandbox. Both are named by the program and by a run id that is made of a time, twelve
characters of the program id and a suffix. The cases of a campaign take turns in starting their runs
(`RunCampaign.executions`), and the runs of a case are those that the scheduler requests in its life
(`ScheduledCase.record`).

The runs of a case have different suffixes (`caseRuns_sorted`) and names are read back in one way
only (`isRunSplit_unique`), so no two runs of a campaign share a directory or lie inside each
other's, whatever the order of its cases (`runDirectories_separate`).
-/

set_option autoImplicit false
set_option relaxedAutoImplicit false

namespace SyzAbi.Tools

open Analyzer Orchestrator Library.Turns

/-! ### Paths -/

/-- The components that `Path` makes of a string. -/
def pathParts (text : String) : List String :=
  ((text.toList.splitOn '/').map String.ofList).filter fun part ↦ part ≠ "" ∧ part ≠ "."

/-- `root / text`: a text that starts with a slash replaces the root. -/
def joinPath (root : List String) (text : String) : List String :=
  if text.toList.head? = some '/' then pathParts text else root ++ pathParts text

/-- A text that is one component. -/
def IsPathName (text : String) : Prop := text ≠ "" ∧ text ≠ "." ∧ '/' ∉ text.toList

theorem joinPath_of_name {text : String} (hname : IsPathName text) (root : List String) :
    joinPath root text = root ++ [text] := by
  obtain ⟨hempty, hdot, hslash⟩ := hname
  have hhead : text.toList.head? ≠ some '/' := fun hhead ↦ hslash (List.mem_of_head? hhead)
  have hsplit : text.toList.splitOn '/' = [text.toList] := by
    refine List.splitOnP_eq_singleton fun c hc ↦ ?_
    rw [beq_eq_false_iff_ne]
    rintro rfl
    exact hslash hc
  have hparts : pathParts text = [text] := by
    rw [pathParts, hsplit, List.map_singleton, String.ofList_toList]
    exact List.filter_eq_self.mpr fun part hpart ↦ by
      rw [List.mem_singleton.mp hpart]
      exact decide_eq_true ⟨hempty, hdot⟩
  rw [joinPath, if_neg hhead, hparts]

/-- Two paths neither of which leads into the other. -/
def Separate (first second : List String) : Prop := ¬first <+: second ∧ ¬second <+: first

/-- The paths of a campaign. The work roots of the two runner profiles are one directory, or neither
is inside the other. -/
structure RunLayout where
  artifactsDir : List String
  workRoot : Side → List String
  workRoot_eq_or_separate : workRoot .reference = workRoot .candidate ∨
    Separate (workRoot .reference) (workRoot .candidate)

/-- `artifact_root`. -/
def RunLayout.artifactRoot (layout : RunLayout) (run : RunRequest) : List String :=
  joinPath (joinPath (joinPath layout.artifactsDir run.programId) run.runId) (sideName run.side)

/-- `sandbox_root`. -/
def RunLayout.sandboxRoot (layout : RunLayout) (run : RunRequest) : List String :=
  joinPath (joinPath (layout.workRoot run.side) run.programId) run.runId

/-! ### Names are read back in one way -/

/-- A way in which `RUN_DIR_RE` can match a name. -/
def IsRunSplit (name base : String) (suffix : RunSuffix) : Prop :=
  base ≠ "" ∧ ∃ text, name.toList = base.toList ++ '-' :: text ∧ readSuffix text = some suffix

theorem readAttempt_eq_some {label text : List Char} {attempt : ℕ}
    (hread : readAttempt label text = some attempt) :
    ∃ digits, text = label ++ digits ∧ ∀ c ∈ digits, c.isDigit = true := by
  rw [readAttempt] at hread
  obtain ⟨hcond, -⟩ := Option.ite_none_right_eq_some.mp hread
  rw [Bool.and_eq_true, Bool.and_eq_true] at hcond
  obtain ⟨⟨hstarts, -⟩, hdigits⟩ := hcond
  obtain ⟨digits, rfl⟩ := List.isPrefixOf_iff_prefix.mp hstarts
  rw [List.drop_left] at hdigits
  exact ⟨digits, rfl, List.all_eq_true.mp hdigits⟩

/-- Behind a dash inside a suffix there is no suffix. -/
theorem readSuffix_of_inside {before behind : List Char} {suffix : RunSuffix}
    (hread : readSuffix (before ++ '-' :: behind) = some suffix) : readSuffix behind = none := by
  have hdash : ∀ (head : List Char) {digits : List Char}, '-' ∉ head →
      (∀ c ∈ digits, c.isDigit = true) →
      before ++ '-' :: behind = (head ++ '-' :: "triage".toList) ++ digits →
      readSuffix behind = none := by
    intro head digits hhead hdigits heq
    have hdigitsDash : '-' ∉ "triage".toList ++ digits := by
      rw [List.mem_append, not_or]
      exact ⟨by decide, fun hmem ↦ isDigit_ne_dash (hdigits _ hmem) rfl⟩
    rw [List.append_assoc, List.cons_append] at heq
    obtain ⟨-, -, hbehind⟩ :=
      (List.append_cons_inj_of_notMem hhead hdigitsDash).mp heq.symm
    rw [← hbehind]
    exact readSuffix_triage digits
  have hplain : ∀ {text : List Char}, '-' ∉ text → before ++ '-' :: behind ≠ text := by
    rintro text htext rfl
    exact htext (List.mem_append_right _ List.mem_cons_self)
  rw [readSuffix_of_long (hplain (by decide)) (hplain (by decide)), Option.or_eq_some_iff] at hread
  rcases hread with hreference | ⟨-, hcandidate⟩
  · obtain ⟨attempt, hattempt, -⟩ := Option.map_eq_some_iff.mp hreference
    obtain ⟨digits, heq, hdigits⟩ := readAttempt_eq_some hattempt
    exact hdash "ref".toList (by decide) hdigits heq
  · obtain ⟨attempt, hattempt, -⟩ := Option.map_eq_some_iff.mp hcandidate
    obtain ⟨digits, heq, hdigits⟩ := readAttempt_eq_some hattempt
    exact hdash "candidate".toList (by decide) hdigits heq

/-- Two suffixes behind a dash start at the same dash. -/
theorem gap_eq_nil {gap text other : List Char} {suffix otherSuffix : RunSuffix}
    (hread : readSuffix text = some suffix) (hother : readSuffix other = some otherSuffix)
    (heq : '-' :: text = gap ++ '-' :: other) : gap = [] := by
  cases gap with
  | nil => rfl
  | cons c gap =>
    rw [(List.cons.inj heq).2] at hread
    rw [readSuffix_of_inside hread] at hother
    cases hother

/-- A name matches in at most one way. -/
theorem isRunSplit_unique {name base other : String} {suffix otherSuffix : RunSuffix}
    (hsplit : IsRunSplit name base suffix) (hother : IsRunSplit name other otherSuffix) :
    other = base ∧ otherSuffix = suffix := by
  obtain ⟨-, text, htext, hread⟩ := hsplit
  obtain ⟨-, otherText, hotherText, hotherRead⟩ := hother
  have heq : base.toList ++ '-' :: text = other.toList ++ '-' :: otherText := by
    rw [← htext, hotherText]
  have hbase : other.toList = base.toList := by
    rcases List.append_eq_append_iff.mp heq with ⟨gap, hbase, hrest⟩ | ⟨gap, hbase, hrest⟩
    · rw [hbase, gap_eq_nil hread hotherRead hrest, List.append_nil]
    · rw [hbase, gap_eq_nil hotherRead hread hrest, List.append_nil]
  rw [hbase, List.append_cancel_left_eq, List.cons.injEq] at heq
  rw [heq.2, hotherRead, Option.some.injEq] at hread
  exact ⟨String.toList_injective hbase, hread⟩

/-- The name of a run matches as it was made. -/
theorem isRunSplit_runName {runId : String} (hrunId : runId ≠ "") (suffix : RunSuffix) :
    IsRunSplit (runName runId suffix) runId suffix := by
  refine ⟨hrunId, suffix.text.toList, ?_, readSuffix_text suffix⟩
  rw [runName, String.toList_append, String.toList_append, List.append_assoc]
  rfl

/-! ### Campaigns -/

/-- A program id without characters that mean something in a path or end a line. Alphanumeric texts
are such ids. -/
def IsProgramId (programId : String) : Prop :=
  programId ≠ "" ∧ ∀ c ∈ programId.toList, c ∉ ['/', '.', '\n']

/-- The cases of a campaign, over entries with distinct program ids. -/
structure RunCampaign where
  cases : List ScheduledCase
  nodup_programIds : (cases.map fun case ↦ case.entry.programId).Nodup
  isProgramId : ∀ case ∈ cases, IsProgramId case.entry.programId

/-- The executions of a campaign, in the order in which they start, when its cases take turns: in a
turn a case starts the next run that the scheduler requests in its life. -/
def RunCampaign.executions (svc : Services) (campaign : RunCampaign) (turns : List ℕ) :
    List RunRequest :=
  doneInTurn (campaign.cases.map fun case ↦ (case.record svc).asked) turns

theorem IsProgramId.isPathName {programId : String} (hprogram : IsProgramId programId) :
    IsPathName programId := by
  refine ⟨hprogram.1, ?_, ?_⟩
  · rintro rfl
    exact hprogram.2 '.' (by decide) (by decide)
  · exact fun hslash ↦ hprogram.2 '/' hslash (by decide)

theorem slash_notMem_suffix (suffix : RunSuffix) : '/' ∉ suffix.text.toList := by
  have hattempt : ∀ (label : List Char) (attempt : ℕ), '/' ∉ label →
      '/' ∉ label ++ attempt.repr.toList := by
    intro label attempt hlabel
    rw [List.mem_append, not_or, Nat.toList_repr]
    refine ⟨hlabel, fun hmem ↦ ?_⟩
    exact absurd (Nat.isDigit_of_mem_toDigits (by decide) (by decide) hmem) (by decide)
  cases suffix with
  | ref0 => decide
  | candidate0 => decide
  | refTriage attempt =>
    rw [toList_refTriage]
    exact hattempt _ attempt (by decide)
  | candidateTriage attempt =>
    rw [toList_candidateTriage]
    exact hattempt _ attempt (by decide)

theorem isPathName_runName {programId : String} (hprogram : IsProgramId programId) (svc : Services)
    (suffix : RunSuffix) : IsPathName (runName (nextRunId svc programId) suffix) := by
  have hname : (runName (nextRunId svc programId) suffix).toList =
      (svc.clock programId).repr.toList ++ '-' :: (programId.toList.take 12 ++
        '-' :: suffix.text.toList) := by
    simp only [runName, nextRunId, String.toList_append, String.toList_ofList, List.append_assoc]
    rfl
  have hdash : '-' ∈ (runName (nextRunId svc programId) suffix).toList := by
    rw [hname]
    exact List.mem_append_right _ List.mem_cons_self
  refine ⟨?_, ?_, ?_⟩
  · intro hempty
    rw [hempty] at hdash
    exact absurd hdash (by decide)
  · intro hdot
    rw [hdot] at hdash
    exact absurd hdash (by decide)
  · have hclock : '/' ∉ (svc.clock programId).repr.toList := by
      rw [Nat.toList_repr]
      intro hmem
      exact absurd (Nat.isDigit_of_mem_toDigits (by decide) (by decide) hmem) (by decide)
    have htake : '/' ∉ programId.toList.take 12 := fun hmem ↦
      hprogram.isPathName.2.2 (List.mem_of_mem_take hmem)
    rw [hname, List.mem_append, List.mem_cons, List.mem_append, List.mem_cons]
    rintro (hmem | hmem | hmem | hmem | hmem)
    · exact hclock hmem
    · exact absurd hmem (by decide)
    · exact htake hmem
    · exact absurd hmem (by decide)
    · exact slash_notMem_suffix suffix hmem

/-! ### Directories are separate -/

theorem Separate.append {first second : List String} (h : Separate first second)
    (firstRest secondRest : List String) :
    Separate (first ++ firstRest) (second ++ secondRest) := by
  have hleft : ∀ {a b rest other : List String}, a ++ rest <+: b ++ other → a <+: b ∨ b <+: a := by
    intro a b rest other hprefix
    exact List.prefix_or_prefix_of_prefix ((List.prefix_append a rest).trans hprefix)
      (List.prefix_append b other)
  refine ⟨fun hprefix ↦ ?_, fun hprefix ↦ ?_⟩
  · exact (hleft hprefix).elim h.1 h.2
  · exact (hleft hprefix).elim h.2 h.1

/-- Two different paths of one length below one root are separate. -/
theorem separate_of_length {root first second : List String}
    (hlength : first.length = second.length) (hne : first ≠ second) :
    Separate (root ++ first) (root ++ second) := by
  refine ⟨fun hprefix ↦ ?_, fun hprefix ↦ ?_⟩
  · exact hne (((List.prefix_append_right_inj root).mp hprefix).eq_of_length hlength)
  · exact hne (((List.prefix_append_right_inj root).mp hprefix).eq_of_length hlength.symm).symm

theorem RunLayout.workRoot_cases (layout : RunLayout) (first second : Side) :
    layout.workRoot first = layout.workRoot second ∨
      Separate (layout.workRoot first) (layout.workRoot second) := by
  cases first <;> cases second
  · exact .inl rfl
  · exact layout.workRoot_eq_or_separate
  · exact layout.workRoot_eq_or_separate.imp Eq.symm And.symm
  · exact .inl rfl

theorem artifactRoot_runRequest (layout : RunLayout) (svc : Services) {programId : String}
    (hprogram : IsProgramId programId) (suffix : RunSuffix) :
    layout.artifactRoot (runRequest svc programId suffix) = layout.artifactsDir ++
      [programId, runName (nextRunId svc programId) suffix, sideName suffix.side] := by
  have hside : IsPathName (sideName suffix.side) := by
    cases suffix.side with
    | reference => exact ⟨by decide, by decide, by decide⟩
    | candidate => exact ⟨by decide, by decide, by decide⟩
  rw [RunLayout.artifactRoot, runRequest, suffixRequest, joinPath_of_name hside,
    joinPath_of_name (isPathName_runName hprogram svc suffix),
    joinPath_of_name hprogram.isPathName, List.append_assoc, List.append_assoc]
  rfl

theorem sandboxRoot_runRequest (layout : RunLayout) (svc : Services) {programId : String}
    (hprogram : IsProgramId programId) (suffix : RunSuffix) :
    layout.sandboxRoot (runRequest svc programId suffix) = layout.workRoot suffix.side ++
      [programId, runName (nextRunId svc programId) suffix] := by
  rw [RunLayout.sandboxRoot, runRequest, suffixRequest,
    joinPath_of_name (isPathName_runName hprogram svc suffix),
    joinPath_of_name hprogram.isPathName, List.append_assoc]
  rfl

/-- Two runs have different artifact roots and separate sandboxes. -/
def RunsSeparate (layout : RunLayout) (first second : RunRequest) : Prop :=
  layout.artifactRoot first ≠ layout.artifactRoot second ∧
    Separate (layout.sandboxRoot first) (layout.sandboxRoot second)

/-- Runs of different programs or with different suffixes are separate. -/
theorem runsSeparate_runRequest (layout : RunLayout) (svc : Services) {first second : String}
    (hfirst : IsProgramId first) (hsecond : IsProgramId second)
    {firstSuffix secondSuffix : RunSuffix}
    (hne : first = second → firstSuffix ≠ secondSuffix) :
    RunsSeparate layout (runRequest svc first firstSuffix)
      (runRequest svc second secondSuffix) := by
  have hnames : [first, runName (nextRunId svc first) firstSuffix] ≠
      [second, runName (nextRunId svc second) secondSuffix] := by
    intro heq
    obtain ⟨rfl, hname⟩ := List.cons.inj heq
    exact hne rfl (runName_injective (nextRunId_ne_empty svc first) (List.cons.inj hname).1)
  refine ⟨?_, ?_⟩
  · rw [artifactRoot_runRequest layout svc hfirst, artifactRoot_runRequest layout svc hsecond]
    intro heq
    obtain ⟨rfl, hrest⟩ := List.cons.inj (List.append_cancel_left heq)
    exact hnames (by rw [(List.cons.inj hrest).1])
  · rw [sandboxRoot_runRequest layout svc hfirst, sandboxRoot_runRequest layout svc hsecond]
    rcases layout.workRoot_cases firstSuffix.side secondSuffix.side with heq | hseparate
    · rw [heq]
      exact separate_of_length rfl hnames
    · exact hseparate.append _ _

/-! ### Executions of a campaign -/

/-- `suffix_sort_key` puts the first run before the second. -/
def RunSortsBefore (first second : RunRequest) : Prop :=
  ∃ firstName secondName, readRunName first.runId = some firstName ∧
    readRunName second.runId = some secondName ∧ SortsBefore firstName.2 secondName.2

/-- Two executions, one before the other: they are separate, and they are sorted when they are of
one side of a case. -/
def ApartInOrder (layout : RunLayout) (first second : RunRequest) : Prop :=
  RunsSeparate layout first second ∧
    (first.programId = second.programId → first.side = second.side → RunSortsBefore first second)

section Executions

variable (svc : Services) (campaign : RunCampaign)

/-- An execution is a run of its case. -/
theorem exists_suffix_of_mem_executions {turns : List ℕ} {run : RunRequest}
    (hrun : run ∈ campaign.executions svc turns) :
    ∃ suffix, run = runRequest svc run.programId suffix := by
  obtain ⟨own, hown, hmem⟩ := mem_doneInTurn hrun
  obtain ⟨case, -, rfl⟩ := List.mem_map.mp hown
  rw [asked_record] at hmem
  obtain ⟨suffix, -, rfl⟩ := List.mem_map.mp hmem
  exact ⟨suffix, rfl⟩

/-- The runs of a case are apart and in order. -/
theorem apartInOrder_of_case (layout : RunLayout) {case : ScheduledCase}
    (hid : IsProgramId case.entry.programId) :
    (case.record svc).asked.Pairwise (ApartInOrder layout) := by
  rw [asked_record]
  refine List.pairwise_map.mpr ((caseRuns_sorted svc (case.campaignCase svc)).imp fun hsorted ↦ ?_)
  refine ⟨runsSeparate_runRequest layout svc hid hid fun _ heq ↦ ?_, fun _ hside ↦ ?_⟩
  · exact (hsorted (congrArg RunSuffix.side heq)).ne heq
  · have hrunId := nextRunId_ne_empty svc case.entry.programId
    exact ⟨_, _, readRunName_runName hrunId _, readRunName_runName hrunId _, hsorted hside⟩

/-- Runs of different cases are apart. -/
theorem ordered_cases (layout : RunLayout) :
    Ordered (ApartInOrder layout) (campaign.cases.map fun case ↦ (case.record svc).asked) := by
  refine ⟨?_, ?_⟩
  · intro index own hown
    obtain ⟨case, hcase, rfl⟩ := List.mem_map.mp (List.mem_of_getElem? hown)
    exact apartInOrder_of_case svc layout (campaign.isProgramId case hcase)
  · intro first second own others hne hown hothers run hrun other hother
    rw [List.getElem?_map, Option.map_eq_some_iff] at hown hothers
    obtain ⟨case, hcase, rfl⟩ := hown
    obtain ⟨otherCase, hotherCase, rfl⟩ := hothers
    rw [asked_record] at hrun hother
    obtain ⟨suffix, -, rfl⟩ := List.mem_map.mp hrun
    obtain ⟨otherSuffix, -, rfl⟩ := List.mem_map.mp hother
    have hid := campaign.isProgramId case (List.mem_of_getElem? hcase)
    have hotherId := campaign.isProgramId otherCase (List.mem_of_getElem? hotherCase)
    have hprogram : case.entry.programId ≠ otherCase.entry.programId := by
      intro heq
      refine hne ((List.getElem?_inj ?_ campaign.nodup_programIds).mp ?_)
      · rw [List.length_map]
        exact (List.getElem?_eq_some_iff.mp hcase).1
      · rw [List.getElem?_map, List.getElem?_map, hcase, hotherCase, Option.map_some,
          Option.map_some, heq]
    exact ⟨runsSeparate_runRequest layout svc hid hotherId fun heq ↦ absurd heq hprogram,
      fun heq ↦ absurd heq hprogram⟩

/-- No two executions of a campaign share an artifact root, and no sandbox is one of another
execution or lies inside it. The name of every run directory matches `RUN_DIR_RE` in exactly one
way, the one that it was made in, and along a campaign `suffix_sort_key` sorts the runs of one side
of a program in the order in which they were started. -/
theorem runDirectories_separate (layout : RunLayout) (turns : List ℕ) :
    ((campaign.executions svc turns).map layout.artifactRoot).Nodup ∧
    ((campaign.executions svc turns).map layout.sandboxRoot).Pairwise Separate ∧
    (∀ run ∈ campaign.executions svc turns, ∃ suffix, suffix.side = run.side ∧
      run.runId = runName (nextRunId svc run.programId) suffix ∧
      readRunName run.runId = some (nextRunId svc run.programId, suffix) ∧
      ∀ base other, IsRunSplit run.runId base other ↔
        base = nextRunId svc run.programId ∧ other = suffix) ∧
    (campaign.executions svc turns).Pairwise fun first second ↦
      first.programId = second.programId → first.side = second.side →
        RunSortsBefore first second := by
  have hpairwise : (campaign.executions svc turns).Pairwise (ApartInOrder layout) :=
    pairwise_doneInTurn (ordered_cases svc campaign layout) turns
  refine ⟨?_, ?_, ?_, hpairwise.imp fun h ↦ h.2⟩
  · exact List.pairwise_map.mpr (hpairwise.imp fun h ↦ h.1.1)
  · exact List.pairwise_map.mpr (hpairwise.imp fun h ↦ h.1.2)
  · intro run hrun
    obtain ⟨suffix, hsuffix⟩ := exists_suffix_of_mem_executions svc campaign hrun
    have hname : run.runId = runName (nextRunId svc run.programId) suffix :=
      congrArg RunRequest.runId hsuffix
    have hside : run.side = suffix.side := congrArg RunRequest.side hsuffix
    have hrunId := nextRunId_ne_empty svc run.programId
    refine ⟨suffix, hside.symm, hname, ?_, fun base other ↦ ⟨fun hsplit ↦ ?_, ?_⟩⟩
    · rw [hname, readRunName_runName hrunId]
    · rw [hname] at hsplit
      exact isRunSplit_unique (isRunSplit_runName hrunId suffix) hsplit
    · rintro ⟨rfl, rfl⟩
      rw [hname]
      exact isRunSplit_runName hrunId other

end Executions

/-! ### Three programs -/

/-- One rerun: the reference of `b` times out, and the candidate exits with another code than the
reference. -/
def divergingServices : Services where
  rerunCount := 1
  noiseSyscalls := []
  workflow := "baseline"
  injectTrace := none
  buildRoot := id
  clock := fun _ ↦ 7
  buildStatusOk := fun _ ↦ .ok true
  executeSide := fun request ↦
    match request.side with
    | .candidate => .ok (emptyRun .candidate "candidate" "ok" 1)
    | .reference =>
      if request.programId = "b" then .ok (emptyRun .reference "reference" "timeout" 0)
      else .ok (emptyRun .reference "reference" "ok" 0)
  executeCandidateCaseInPackage := fun _ _ _ ↦ .ok (emptyRun .candidate "candidate" "ok" 1)
  traceDigest := CanonicalTrace.side

/-- Two programs that run by themselves, and one whose candidate crashes in a packaged batch. -/
def threePrograms : RunCampaign where
  cases := [
    { entry := { programId := "a" }, candidate := .single },
    { entry := { programId := "b" }, candidate := .single },
    { entry := { programId := "c" }
      candidate := .batched (.ok {
        results := [("c", emptyRun .candidate "candidate" "crash" 1)]
        packageDir := some "package"
        slotByProgram := [("c", some 0)] }) }]
  nodup_programIds := by decide
  isProgramId := by simp [IsProgramId]

/-- Both sides work in one directory. -/
def sharedLayout : RunLayout where
  artifactsDir := ["artifacts"]
  workRoot := fun _ ↦ ["work"]
  workRoot_eq_or_separate := .inl rfl

theorem runDirectories_separate_threePrograms :
    let runs := threePrograms.executions divergingServices [0, 1, 2, 1, 0, 2, 0, 2, 2, 0]
    runs.map RunRequest.runId = ["7-a-ref0", "7-b-ref0", "7-c-ref0", "7-b-ref-triage0",
      "7-a-candidate0", "7-c-candidate0", "7-a-ref-triage0", "7-c-ref-triage0",
      "7-c-candidate-triage0", "7-a-candidate-triage0"] ∧
    (runs.map sharedLayout.artifactRoot).Nodup ∧
    (runs.map sharedLayout.sandboxRoot).Pairwise Separate :=
  have hseparate := runDirectories_separate divergingServices threePrograms sharedLayout
    [0, 1, 2, 1, 0, 2, 0, 2, 2, 0]
  ⟨by decide, hseparate.1, hseparate.2.1⟩

end SyzAbi.Tools

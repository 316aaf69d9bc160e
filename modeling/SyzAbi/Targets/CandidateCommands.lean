import SyzAbi.Targets.GuestEnvironment

/-!
# Candidates that are started alone

A candidate that is in no package gets its environment in one of two ways. The script of
`compose_autorun` (`targets/asterinas/initramfs.py`) holds an export for each variable of the
injection that is set and not empty. The command that is typed at the shell of StarryOS holds the
assignments of `env_assignments` (`targets/tgoskits_starryos/api.py`) before the path of the binary.

Both start the binary so that its tracer traces every call as it would under the environment of the
runner on the host (`candidate_traces_as_host`).
-/

set_option autoImplicit false
set_option relaxedAutoImplicit false

namespace SyzAbi.Targets.Selector

open Analyzer Agent Orchestrator Library Library.Fallible Library.Shell Library.TextLines
open Library.Json (decimal)

/-! ### The script of one candidate -/

/-- The variables of the injection under their own names. -/
def injectionCopies : List (List ℕ × List ℕ) := injectionNames.map fun name ↦ (name, name)

/-- The variables of the injection that are set and not empty. -/
def injectedEntries (host : HostEnvironment) : List (List ℕ × PyStr) :=
  setEntries host injectionCopies

/-- The `injected_block` of `compose_autorun`. -/
def injectedBlock (host : HostEnvironment) : PyStr :=
  unlines ((injectedEntries host).map fun entry ↦ exportText entry.1 entry.2)

/-- The script of `compose_autorun`, up to the start of the binary; `none` when `cd "$WORK_DIR"`
fails. The script is written before the guest starts, and is no text when a value has no
encoding. -/
def composeAutorun (preview : ℕ) (host : HostEnvironment) (entered : Option Entered)
    (boot : Variables) : Except PyError (Option Launch) := do
  let block ← encodeText (injectedBlock host)
  .ok (do
    let vars ← runScript block (boot.exportAll (candidateExports preview))
    let entered ← entered
    some ⟨PyStr.ofString "/syzkabi/testcase.bin", (vars.enter entered).environment⟩)

/-! ### The command of StarryOS -/

/-- The variables of `env_assignments`. -/
def assignedEntries (preview : ℕ) (host : HostEnvironment) : List (List ℕ × PyStr) :=
  [(PyStr.ofString "SYZABI_SIDE",
      (host.get (PyStr.ofString "SYZABI_SIDE")).getD (PyStr.ofString "candidate")),
   (PyStr.ofString "SYZABI_TRACE_EVENTS_PATH",
      (host.get (PyStr.ofString "SYZABI_TRACE_EVENTS_PATH")).getD (PyStr.ofString "stdout")),
   (previewBytesName, (host.get previewBytesName).getD (decimal preview))] ++
  injectionNames.filterMap fun name ↦ (host.get name).map fun value ↦ (name, value)

/-- `env_assignments`, and the path of the binary behind it. -/
def starryCommand (preview : ℕ) (host : HostEnvironment) (guestPath : PyStr) : PyStr :=
  spaced ((assignedEntries preview host).map (fun entry ↦ assignmentText entry.1 entry.2) ++
    [quote guestPath])

/-- The program that the shell of the guest starts for a command. -/
def runCommand (command : PyStr) (shell : Variables) : Except PyError (Option Launch) := do
  let bytes ← encodeText command
  .ok (match read bytes with
    | some [words] => ((commandOf words).launch shell).map fun program ↦
      ⟨program.1.headD [], program.2⟩
    | _ => none)

/-! ### Both -/

/-- The environment of the runner is text, with the size of previews that is configured. -/
structure TextEnvironment (host : HostEnvironment) (preview : ℕ) : Prop where
  valid : ∀ name value, host.get name = some value → ∀ c ∈ value, c.isValidChar
  preview_eq : host.get previewBytesName = some (decimal preview)

/-- The program sees what the tracer reads on the host. -/
def SeesHost (host : HostEnvironment) (launch : Launch) : Prop :=
  previewBytes launch.environment = previewBytes host.getenv ∧
    TracesAlike (getInjection launch.environment) (getInjection host.getenv)

variable {host : HostEnvironment} {preview : ℕ}

theorem TextEnvironment.previewBytes_eq (htext : TextEnvironment host preview) :
    previewBytes host.getenv = if preview = 0 then 32 else min preview (2 ^ 64 - 1) := by
  refine Agent.previewBytes_eq ?_
  rw [HostEnvironment.getenv, htext.preview_eq, Option.map_some]
  exact congrArg some (encode_decimalInt preview)

/-- The host is seen when the six variables are, up to empty ones. -/
theorem TextEnvironment.seesHost (htext : TextEnvironment host preview) {launch : Launch}
    (hpreview : launch.environment previewBytesName = some (decimal preview))
    (hnames : ∀ name ∈ injectionNames, (launch.environment name).getD [] =
      Utf8.encode ((host.get name).getD [])) : SeesHost host launch := by
  refine ⟨(Agent.previewBytes_eq hpreview).trans htext.previewBytes_eq.symm,
    tracesAlike_getInjection fun name hname ↦ ?_⟩
  rw [hnames name hname, HostEnvironment.getenv]
  cases host.get name <;> rfl

/-- The exports of the variables that are set, over an environment without them. -/
theorem environment_setEntries {vars : Variables}
    {copied : List (List ℕ × List ℕ)} (hnodup : (copied.map Prod.fst).Nodup)
    {pair : List ℕ × List ℕ} (hpair : pair ∈ copied)
    (hvars : vars.environment pair.1 = none) :
    ((vars.exportAll (encodeEntries (setEntries host copied))).environment pair.1).getD [] =
      Utf8.encode ((host.get pair.2).getD []) := by
  have hkeys := map_fst_encodeEntries (setEntries host copied)
  by_cases hempty : (host.get pair.2).getD [] = []
  · rw [Variables.environment_exportAll_of_notMem, hvars, hempty]
    · rfl
    · -- another entry has another name
      rw [hkeys]
      intro hmem
      obtain ⟨entry, hentry, hname⟩ := List.mem_map.mp hmem
      obtain ⟨others, hothers, hsome, rfl⟩ := mem_setEntries.mp hentry
      rw [List.inj_on_of_nodup_map hnodup hothers hpair hname] at hsome
      exact hsome hempty
  · have hentry : (pair.1, Utf8.encode ((host.get pair.2).getD [])) ∈
        encodeEntries (setEntries host copied) :=
      List.mem_map.mpr ⟨_, mem_setEntries.mpr ⟨pair, hpair, hempty, rfl⟩, rfl⟩
    rw [Variables.environment_exportAll_of_mem vars (hkeys ▸ nodup_setEntries host hnodup) hentry,
      Option.getD_some]

theorem validEntries_setEntries (htext : TextEnvironment host preview)
    (copied : List (List ℕ × List ℕ)) : ValidEntries (setEntries host copied) := by
  intro entry hentry
  obtain ⟨names, -, hne, rfl⟩ := mem_setEntries.mp hentry
  cases hvalue : host.get names.2 with
  | none => simp [hvalue] at hne
  | some value => exact htext.valid _ _ hvalue

theorem autorun_seesHost (htext : TextEnvironment host preview) {entered : Entered}
    {boot : Variables} (hboot : ∀ name ∈ injectionNames, boot.environment name = none) :
    ∃ launch, composeAutorun preview host (some entered) boot = .ok (some launch) ∧
      launch.binary = PyStr.ofString "/syzkabi/testcase.bin" ∧ SeesHost host launch := by
  have hnames : ∀ names ∈ injectionCopies, isName names.1 = true := by decide
  have hnodup : (injectionCopies.map Prod.fst).Nodup := by decide
  have hpassable := passable_setEntries host hnames
  have hvalid := validEntries_setEntries htext injectionCopies
  have hblock : encodeText (injectedBlock host) = .ok (unlines
      ((encodeEntries (injectedEntries host)).map fun entry ↦ exportText entry.1 entry.2)) := by
    rw [injectedBlock, encodeText_unlines, injectedEntries,
      map_encode_exports (fun entry hentry ↦ (hpassable entry hentry).1) hvalid]
    rw [List.forall_mem_map]
    exact fun entry hentry ↦ valid_exportText (hpassable entry hentry).1 (hvalid entry hentry)
  have hkeys :
      previewBytesName ∉ (encodeEntries (setEntries host injectionCopies)).map Prod.fst := by
    rw [map_fst_encodeEntries]
    intro hmem
    obtain ⟨entry, hentry, hname⟩ := List.mem_map.mp hmem
    obtain ⟨names, hnames, -, rfl⟩ := mem_setEntries.mp hentry
    have hother : ∀ names ∈ injectionCopies, names.1 ≠ previewBytesName := by decide
    exact hother names hnames hname
  rw [composeAutorun, hblock, ok_bind, injectedEntries,
    runScript_exports (passable_encodeEntries hpassable hvalid), Option.bind_eq_bind,
    Option.bind_some]
  refine ⟨_, rfl, rfl, htext.seesHost ?_ fun name hname ↦ ?_⟩
  · show ((Variables.exportAll _ _).enter _).environment previewBytesName = _
    rw [Variables.environment_enter _ _ (by decide),
      Variables.environment_exportAll_of_notMem _ hkeys, environment_candidateExports]
  · have hother : ∀ name ∈ injectionNames, name ∉ directoryNames := by decide
    show (((Variables.exportAll _ _).enter _).environment name).getD [] = _
    rw [Variables.environment_enter _ _ (hother name hname)]
    refine environment_setEntries hnodup (List.mem_map.mpr ⟨name, hname, rfl⟩) ?_
    rw [Variables.environment_exportAll_of_notMem _ ((names_candidateExports preview).2 name hname),
      hboot name hname]

/-! ### The command -/

/-- The names that are always assigned. -/
def fixedNames : List (List ℕ) :=
  [PyStr.ofString "SYZABI_SIDE", PyStr.ofString "SYZABI_TRACE_EVENTS_PATH", previewBytesName]

theorem names_assignedEntries (host : HostEnvironment) (preview : ℕ) :
    ((assignedEntries preview host).map Prod.fst).Sublist (fixedNames ++ injectionNames) := by
  have hsub : ∀ names : List (List ℕ), ((names.filterMap fun name ↦ (host.get name).map
      fun value ↦ (name, value)).map Prod.fst).Sublist names := by
    intro names
    induction names with
    | nil => exact List.Sublist.slnil
    | cons name rest ih =>
      rw [List.filterMap_cons]
      cases host.get name with
      | none => exact ih.cons _
      | some value => exact ih.cons_cons _
  rw [assignedEntries, List.map_append]
  exact (List.Sublist.refl fixedNames).append (hsub injectionNames)

theorem mem_assignedEntries {name : List ℕ} {value : PyStr} (hname : name ∈ injectionNames) :
    (name, value) ∈ assignedEntries preview host ↔ host.get name = some value := by
  have hfixed : ∀ name ∈ injectionNames, name ∉ fixedNames := by decide
  rw [assignedEntries, List.mem_append, List.mem_filterMap]
  constructor
  · rintro (hfirst | ⟨other, -, hvalue⟩)
    · exact absurd (List.mem_map_of_mem hfirst : (name, value).1 ∈ fixedNames) (hfixed name hname)
    · obtain ⟨found, hfound, heq⟩ := Option.map_eq_some_iff.mp hvalue
      cases heq
      exact hfound
  · exact fun hvalue ↦ .inr ⟨name, hname, by rw [hvalue, Option.map_some]⟩

/-- A text of the runner or a default can be typed. -/
theorem TextEnvironment.typable (htext : TextEnvironment host preview) (name : List ℕ)
    {default : PyStr} (hdefault : 0 ∉ default ∧ ∀ c ∈ default, c.isValidChar) :
    0 ∉ (host.get name).getD default ∧ ∀ c ∈ (host.get name).getD default, c.isValidChar := by
  cases hvalue : host.get name with
  | none => exact hdefault
  | some value => exact ⟨host.noNul name value hvalue, htext.valid name value hvalue⟩

theorem TextEnvironment.assignedEntries (htext : TextEnvironment host preview) :
    (∀ entry ∈ assignedEntries preview host, Passable entry) ∧
      ValidEntries (assignedEntries preview host) := by
  have hnames : ∀ name ∈ fixedNames ++ injectionNames, isName name = true := by decide
  have hvalues : ∀ entry ∈ Selector.assignedEntries preview host,
      0 ∉ entry.2 ∧ ∀ c ∈ entry.2, c.isValidChar := by
    rw [Selector.assignedEntries, List.forall_mem_append]
    refine ⟨?_, fun entry hentry ↦ ?_⟩
    · simp only [List.forall_mem_cons, List.not_mem_nil, false_implies, implies_true, and_true]
      exact ⟨htext.typable _ ⟨by decide, isValidChar_of_mem_ofString⟩,
        htext.typable _ ⟨by decide, isValidChar_of_mem_ofString⟩,
        htext.typable _ ⟨not_mem_decimalInt preview, valid_decimalInt preview⟩⟩
    · obtain ⟨name, -, hvalue⟩ := List.mem_filterMap.mp hentry
      obtain ⟨value, hfound, rfl⟩ := Option.map_eq_some_iff.mp hvalue
      exact ⟨host.noNul name value hfound, htext.valid name value hfound⟩
  refine ⟨fun entry hentry ↦ ⟨hnames entry.1 ?_, (hvalues entry hentry).1⟩,
    fun entry hentry ↦ (hvalues entry hentry).2⟩
  exact (names_assignedEntries host preview).subset (List.mem_map_of_mem hentry)

theorem starry_seesHost (htext : TextEnvironment host preview) {shell : Variables}
    (hshell : ∀ name ∈ injectionNames, shell.environment name = none) {guestPath : PyStr}
    (hslash : guestPath.head? = some 47) (hnul : 0 ∉ guestPath)
    (hpath : ∀ c ∈ guestPath, c.isValidChar) :
    ∃ launch, runCommand (starryCommand preview host guestPath) shell = .ok (some launch) ∧
      launch.binary = Utf8.encode guestPath ∧ SeesHost host launch := by
  obtain ⟨hpassable, hvalid⟩ := htext.assignedEntries
  have hnodup : ((encodeEntries (assignedEntries preview host)).map Prod.fst).Nodup := by
    rw [map_fst_encodeEntries]
    exact List.Nodup.sublist (names_assignedEntries host preview) (by decide)
  have hcommand : encodeText (starryCommand preview host guestPath) = .ok (spaced
      (((encodeEntries (assignedEntries preview host)).map fun entry ↦
        assignmentText entry.1 entry.2) ++ [quote (Utf8.encode guestPath)])) := by
    rw [encodeText_eq_ok_iff, starryCommand, encode_spaced, List.map_append,
      map_encode_assignments (fun entry hentry ↦ (hpassable entry hentry).1) hvalid,
      List.map_singleton, encode_quote hpath]
    refine ⟨forall_mem_spaced (.inl (by decide)) ?_, rfl⟩
    rw [List.forall_mem_append, List.forall_mem_map, List.forall_mem_singleton]
    refine ⟨fun entry hentry ↦ (valid_assignmentText_iff (hpassable entry hentry).1).mpr
      (hvalid entry hentry), fun c hc ↦ ?_⟩
    rcases of_mem_quote hc with hmem | hlow
    · exact hpath c hmem
    · exact .inl (Nat.lt_trans hlow (by decide))
  have hhead : (Utf8.encode guestPath).head? = some 47 := by
    obtain ⟨rest, rfl⟩ : ∃ rest, guestPath = 47 :: rest := List.head?_eq_some_iff.mp hslash
    rfl
  obtain ⟨words, hread, hlaunch⟩ := launch_assignments (passable_encodeEntries hpassable hvalid)
    (zero_notMem_encode hpath hnul) hhead shell
  have hentry : ∀ name value, (name, value) ∈ assignedEntries preview host →
      (shell.exportAll (encodeEntries (assignedEntries preview host))).environment name =
        some (Utf8.encode value) := fun name value hmem ↦
    Variables.environment_exportAll_of_mem shell hnodup (List.mem_map.mpr ⟨_, hmem, rfl⟩)
  refine ⟨⟨Utf8.encode guestPath,
    (shell.exportAll (encodeEntries (assignedEntries preview host))).environment⟩, ?_, rfl,
    htext.seesHost ?_ fun name hname ↦ ?_⟩
  · rw [runCommand, hcommand, ok_bind, hread]
    simp only [hlaunch]
    rfl
  · refine (hentry _ _ (List.mem_append_left _ (List.mem_cons_of_mem _ (List.mem_cons_of_mem _
      List.mem_cons_self)))).trans ?_
    rw [htext.preview_eq]
    exact congrArg some (encode_decimalInt preview)
  · show ((shell.exportAll _).environment name).getD [] = _
    cases hvalue : host.get name with
    | none =>
      have hother : name ∉ (encodeEntries (assignedEntries preview host)).map Prod.fst := by
        rw [map_fst_encodeEntries]
        intro hmem
        obtain ⟨entry, hassigned, rfl⟩ := List.mem_map.mp hmem
        cases hvalue.symm.trans ((mem_assignedEntries hname).mp hassigned)
      rw [Variables.environment_exportAll_of_notMem _ hother, hshell name hname]
      rfl
    | some value =>
      rw [hentry name value ((mem_assignedEntries hname).mpr hvalue)]
      rfl

/-- However a candidate that is in no package is started, its tracer traces every call as it would
under the environment of the runner. -/
theorem candidate_traces_as_host (htext : TextEnvironment host preview) {entered : Entered}
    {boot shell : Variables}
    (hboot : ∀ name ∈ injectionNames, boot.environment name = none)
    (hshell : ∀ name ∈ injectionNames, shell.environment name = none) {guestPath : PyStr}
    (hslash : guestPath.head? = some 47) (hnul : 0 ∉ guestPath)
    (hpath : ∀ c ∈ guestPath, c.isValidChar) :
    (∃ launch, composeAutorun preview host (some entered) boot = .ok (some launch) ∧
      launch.binary = PyStr.ofString "/syzkabi/testcase.bin" ∧ SeesHost host launch) ∧
    ∃ launch, runCommand (starryCommand preview host guestPath) shell = .ok (some launch) ∧
      launch.binary = Utf8.encode guestPath ∧ SeesHost host launch :=
  ⟨autorun_seesHost htext hboot, starry_seesHost htext hshell hslash hnul hpath⟩

/-- A runner with an awkward request. -/
def typedHost : HostEnvironment :=
  .ofEntries ((previewBytesName, decimal 48) :: injectionVariables awkwardRequest)
    (by decide +kernel)

theorem textEnvironment_typedHost : TextEnvironment typedHost 48 where
  valid := by
    intro name value hvalue
    obtain ⟨front, back, heq, -⟩ := List.lookup_eq_some_iff.mp hvalue
    have hall : ∀ entry ∈ (previewBytesName, decimal 48) :: injectionVariables awkwardRequest,
        ∀ c ∈ entry.2, c.isValidChar := by
      decide +kernel
    rw [heq] at hall
    exact hall (name, value) (List.mem_append_right front List.mem_cons_self)
  preview_eq := by decide +kernel

theorem candidate_traces_as_typedHost :
    (∃ launch, composeAutorun 48 typedHost (some workEntered) (fun _ ↦ none) =
        .ok (some launch) ∧
      launch.binary = PyStr.ofString "/syzkabi/testcase.bin" ∧ SeesHost typedHost launch) ∧
    ∃ launch, runCommand (starryCommand 48 typedHost (PyStr.ofString "/bin/it's.bin"))
        (fun _ ↦ none) = .ok (some launch) ∧
      launch.binary = Utf8.encode (PyStr.ofString "/bin/it's.bin") ∧ SeesHost typedHost launch :=
  candidate_traces_as_host textEnvironment_typedHost (fun _ _ ↦ rfl) (fun _ _ ↦ rfl) rfl
    (by decide) isValidChar_of_mem_ofString

end SyzAbi.Targets.Selector

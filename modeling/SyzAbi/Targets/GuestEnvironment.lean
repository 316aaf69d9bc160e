import SyzAbi.Agent.InjectionRequest
import SyzAbi.Library.ShellBytes
import SyzAbi.Library.Utf8Strict

/-!
# The environment of a packaged guest

A candidate of a package is chosen when the guest starts: `materialize_guest_env_file`
(`targets/asterinas/runtime_support.py`) writes the slot and the request for an injection to the
disk of the guest, as shell assignments in `/syzkabi.env` and again in the first 1024 bytes of the
image. The script of `compose_packaged_autorun` (`tools/run_asterinas_shared.py`) sources the file
when the disk can be mounted, and else the block that `dd`, `grep` and `sed` find at the start of a
block device. Then it exports what is set and starts the binary of the slot.

Whatever the texts of the request hold, and whatever was on the disk before, the guest starts the
binary of the slot, and its tracer traces every call as the request says
(`packagedGuest_traces_request`).
-/

set_option autoImplicit false
set_option relaxedAutoImplicit false

namespace SyzAbi.Targets.Selector

open Analyzer Agent Orchestrator Library Library.Fallible Library.Shell Library.TextLines
open Library.Json (decimal)

/-! ### The host -/

/-- The environment of the runner of a candidate. -/
structure HostEnvironment where
  get : List ℕ → Option PyStr
  noNul : ∀ name value, get name = some value → 0 ∉ value

/-- The environment as a C program sees it. -/
def HostEnvironment.getenv (host : HostEnvironment) : Environment := fun name ↦
  (host.get name).map Utf8.encode

def packageDirName : List ℕ := PyStr.ofString "SYZABI_ASTERINAS_PACKAGE_DIR"

def asterinasSlotName : List ℕ := PyStr.ofString "SYZABI_ASTERINAS_PACKAGE_SLOT"

/-- The variable of the guest for the slot. -/
def packageSlotName : List ℕ := PyStr.ofString "SYZABI_PACKAGE_SLOT"

/-- The variables of the guest with the variables of the host that they are copied from. -/
def copiedNames : List (List ℕ × List ℕ) :=
  (packageSlotName, asterinasSlotName) :: injectionNames.map fun name ↦ (name, name)

/-- The variables with a text, under their new names. -/
def setEntries (host : HostEnvironment) (copied : List (List ℕ × List ℕ)) :
    List (List ℕ × PyStr) :=
  copied.filterMap fun names ↦
    if (host.get names.2).getD [] = [] then none
    else some (names.1, (host.get names.2).getD [])

/-- The variables that are copied. -/
def guestEntries (host : HostEnvironment) : List (List ℕ × PyStr) := setEntries host copiedNames

/-- `guest_env_lines`. -/
def guestEnvLines (host : HostEnvironment) : Except PyError (List PyStr) :=
  if (host.get packageDirName).getD [] ≠ [] ∧ (host.get asterinasSlotName).getD [] = [] then
    .error ⟨"RunnerError", "missing SYZABI_ASTERINAS_PACKAGE_SLOT for packaged candidate run"⟩
  else .ok ((guestEntries host).map fun entry ↦ assignmentText entry.1 entry.2)

/-- `GUEST_ENV_HEADER_MAGIC`. -/
def headerMagic : List ℕ := PyStr.ofString "SYZABI_ENV_V1"

def headerEnd : List ℕ := PyStr.ofString "__END__"

/-- `GUEST_ENV_HEADER_SIZE`. -/
def headerSize : ℕ := 1024

/-- `str.encode("utf-8")`. -/
def encodeText (text : PyStr) : Except PyError (List ℕ) :=
  match Utf8.encodeStrict text with
  | some bytes => .ok bytes
  | none => .error ⟨"UnicodeEncodeError", "surrogates not allowed"⟩

/-- `guest_env_header_bytes`. -/
def guestEnvHeaderBytes (lines : List PyStr) : Except PyError (List ℕ) := do
  let payload ← encodeText (unlines (headerMagic :: lines ++ [headerEnd]))
  if headerSize < payload.length then
    .error ⟨"RunnerError", "guest env selector header exceeds reserved image space"⟩
  else .ok (payload ++ List.replicate (headerSize - payload.length) 32)

/-- The disk of the guest: its bytes, and `/syzkabi.env` in its file system. -/
structure Image where
  bytes : List ℕ
  envFile : Option (List ℕ)

/-- How `debugfs` ends when it writes a file. -/
structure DebugfsResult where
  returncode : ℤ
  detail : String

/-- `materialize_guest_env_file`. -/
def materializeGuestEnvFile (host : HostEnvironment) (debugfs : DebugfsResult) (image : Image) :
    Except PyError Image := do
  let lines ← guestEnvLines host
  if lines = [] then .ok image
  else
    let text ← encodeText (unlines lines)
    if debugfs.returncode ≠ 0 then
      .error ⟨"RunnerError",
        if debugfs.detail = "" then "failed to materialize guest env file" else debugfs.detail⟩
    else
      let header ← guestEnvHeaderBytes lines
      .ok ⟨header ++ image.bytes.drop headerSize, some text⟩

/-! ### The guest -/

/-- A block device of the guest, and whether its file system can be mounted. -/
structure Device where
  image : Image
  mounts : Bool

/-- What `load_selector_from_raw_devices` finds on a device: the first bytes (`dd`), if a line of
them is the magic (`grep`), without the two lines around the block (`sed`). -/
def selectorText (image : Image) : Option (List ℕ) :=
  let header := fileLines (image.bytes.take headerSize)
  let selected := (linesBetween headerMagic headerEnd false header).tail.dropLast
  if headerMagic ∈ header ∧ selected ≠ [] then some (unlines selected) else none

/-- `load_selector_from_raw_devices`; `none` when no device has a selector, or when the shell cannot
read it. -/
def loadSelectorFromRawDevices (devices : List Device) (vars : Variables) : Option Variables :=
  (devices.findSome? fun device ↦ selectorText device.image).bind fun text ↦ runScript text vars

/-- The variables before the slot is used. A disk without a file system is read twice, once in the
loop that waits for a disk and once for the missing file. -/
def selectorVariables (devices : List Device) (vars : Variables) : Option Variables :=
  match devices.find? Device.mounts with
  | some device =>
    match device.image.envFile with
    | some text => runScript text vars
    | none => loadSelectorFromRawDevices devices vars
  | none => (loadSelectorFromRawDevices devices vars).bind (loadSelectorFromRawDevices devices)

/-- `BINARY_PATH`. -/
def batchBinary (slot : List ℕ) : List ℕ :=
  PyStr.ofString "/syzkabi/batch/" ++ slot ++ PyStr.ofString ".bin"

/-- What the script exports for every candidate. -/
def candidateExports (preview : ℕ) : List (List ℕ × List ℕ) :=
  [(PyStr.ofString "SYZABI_SIDE", PyStr.ofString "candidate"),
   (PyStr.ofString "SYZABI_TRACE_EVENTS_PATH",
    PyStr.ofString "/tmp/syzabi/raw-trace.events.jsonl"),
   (previewBytesName, decimal preview)]

/-- The program that the script starts. -/
structure Launch where
  binary : List ℕ
  environment : Environment

/-- The script of `compose_packaged_autorun`, up to the start of the binary; `none` when it powers
off or exits before. `entered` is what comes of `cd "$WORK_DIR"`, with `none` when it fails. -/
def composePackagedAutorun (preview : ℕ) (executable : List ℕ → Bool) (entered : Option Entered)
    (devices : List Device) (boot : Variables) : Option Launch := do
  let vars ← selectorVariables devices boot
  let slot := vars.valueOf packageSlotName
  if slot = [] ∨ executable (batchBinary slot) = false then none
  else
    let vars := vars.exportAll (candidateExports preview)
    let vars := injectionNames.foldl Variables.exportSet vars
    let entered ← entered
    some ⟨batchBinary slot, (vars.enter entered).environment⟩

/-- The exports for every candidate have names of their own. -/
theorem names_candidateExports (preview : ℕ) :
    ((candidateExports preview).map Prod.fst).Nodup ∧
      ∀ name ∈ injectionNames, name ∉ (candidateExports preview).map Prod.fst := by
  have hnames : (candidateExports preview).map Prod.fst = [PyStr.ofString "SYZABI_SIDE",
      PyStr.ofString "SYZABI_TRACE_EVENTS_PATH", previewBytesName] := rfl
  rw [hnames]
  decide

theorem environment_candidateExports (preview : ℕ) (vars : Variables) :
    (vars.exportAll (candidateExports preview)).environment previewBytesName =
      some (decimal preview) :=
  Variables.environment_exportAll_of_mem vars (names_candidateExports preview).1 (by
    simp only [candidateExports, List.mem_cons, true_or, or_true])

/-! ### What is written -/

theorem isName_of_mem_copiedNames : ∀ names ∈ copiedNames, isName names.1 = true := by
  decide

theorem nodup_copiedNames : (copiedNames.map Prod.fst).Nodup := by
  decide

theorem mem_setEntries {host : HostEnvironment} {copied : List (List ℕ × List ℕ)}
    {entry : List ℕ × PyStr} : entry ∈ setEntries host copied ↔ ∃ names ∈ copied,
      (host.get names.2).getD [] ≠ [] ∧ entry = (names.1, (host.get names.2).getD []) := by
  rw [setEntries, List.mem_filterMap]
  refine exists_congr fun names ↦ and_congr_right fun _ ↦ ?_
  split_ifs with hempty
  · exact iff_of_false (fun h ↦ by cases h) fun h ↦ h.1 hempty
  · rw [Option.some_inj, eq_comm]
    exact (and_iff_right hempty).symm

theorem nodup_setEntries (host : HostEnvironment) {copied : List (List ℕ × List ℕ)}
    (hnodup : (copied.map Prod.fst).Nodup) : ((setEntries host copied).map Prod.fst).Nodup := by
  refine hnodup.sublist ?_
  clear hnodup
  induction copied with
  | nil => exact List.Sublist.slnil
  | cons names rest ih =>
    rw [setEntries, List.filterMap_cons]
    split_ifs with hempty
    · exact ih.cons _
    · exact ih.cons_cons _

theorem passable_setEntries (host : HostEnvironment) {copied : List (List ℕ × List ℕ)}
    (hnames : ∀ names ∈ copied, isName names.1 = true) :
    ∀ entry ∈ setEntries host copied, Passable entry := by
  intro entry hentry
  obtain ⟨names, hmem, hne, rfl⟩ := mem_setEntries.mp hentry
  refine ⟨hnames names hmem, ?_⟩
  cases hvalue : host.get names.2 with
  | none => simp [hvalue] at hne
  | some value => exact host.noNul _ _ hvalue

/-- The lines of the selector. -/
def selectorLines (host : HostEnvironment) : List (List ℕ) :=
  (encodeEntries (guestEntries host)).map fun entry ↦ assignmentText entry.1 entry.2

theorem encodeText_eq_ok_iff {text : PyStr} {bytes : List ℕ} :
    encodeText text = .ok bytes ↔ (∀ c ∈ text, c.isValidChar) ∧ Utf8.encode text = bytes := by
  rw [encodeText, Utf8.encodeStrict]
  split_ifs with hvalid
  · exact ⟨fun h ↦ ⟨hvalid, Except.ok.inj h⟩, fun h ↦ congrArg Except.ok h.2⟩
  · exact iff_of_false (fun h ↦ by cases h) fun h ↦ hvalid h.1

theorem encodeText_unlines {texts : List PyStr}
    (hvalid : ∀ text ∈ texts, ∀ c ∈ text, c.isValidChar) :
    encodeText (unlines texts) = .ok (unlines (texts.map Utf8.encode)) := by
  rw [encodeText_eq_ok_iff, encode_unlines]
  exact ⟨(forall_mem_unlines_iff (.inl (by decide))).mpr hvalid, rfl⟩

theorem guestEnvHeaderBytes_eq_ok_iff {lines : List PyStr} {header : List ℕ} :
    guestEnvHeaderBytes lines = .ok header ↔ ∃ payload,
      encodeText (unlines (headerMagic :: lines ++ [headerEnd])) = .ok payload ∧
        payload.length ≤ headerSize ∧
        payload ++ List.replicate (headerSize - payload.length) 32 = header := by
  rw [guestEnvHeaderBytes, bind_eq_ok_iff]
  refine exists_congr fun payload ↦ and_congr_right fun _ ↦ ?_
  split_ifs with hlong
  · exact iff_of_false (fun h ↦ by cases h) fun h ↦ by omega
  · exact ⟨fun h ↦ ⟨by omega, Except.ok.inj h⟩, fun h ↦ congrArg Except.ok h.2⟩

theorem passable_guestEntries (host : HostEnvironment) :
    ∀ entry ∈ guestEntries host, Passable entry :=
  passable_setEntries host isName_of_mem_copiedNames

/-- Lines of ASCII texts around the copied ones. -/
theorem encodeText_lines_iff (host : HostEnvironment) (before behind : List PyStr)
    (bytes : List ℕ) (haround : ∀ text ∈ before ++ behind, ∀ c ∈ text, c < 128) :
    encodeText (unlines (before ++ ((guestEntries host).map fun entry ↦
      assignmentText entry.1 entry.2) ++ behind)) = .ok bytes ↔
        ValidEntries (guestEntries host) ∧
          unlines (before ++ selectorLines host ++ behind) = bytes := by
  have hown : ∀ texts : List PyStr, (∀ text ∈ texts, text ∈ before ++ behind) →
      texts.map Utf8.encode = texts ∧ ∀ text ∈ texts, ∀ c ∈ text, c.isValidChar := by
    refine fun texts htexts ↦ ⟨?_, fun text htext c hc ↦
      .inl (Nat.lt_trans (haround text (htexts text htext) c hc) (by decide))⟩
    conv_rhs => rw [← List.map_id texts]
    exact List.map_congr_left fun text htext ↦ Utf8.encode_ascii (haround text (htexts text htext))
  obtain ⟨hbefore, hvalidBefore⟩ := hown before fun _ ↦ List.mem_append_left behind
  obtain ⟨hbehind, hvalidBehind⟩ := hown behind fun _ ↦ List.mem_append_right before
  have hvalid : (∀ c ∈ unlines (before ++ ((guestEntries host).map fun entry ↦
      assignmentText entry.1 entry.2) ++ behind), c.isValidChar) ↔
        ValidEntries (guestEntries host) := by
    rw [forall_mem_unlines_iff (.inl (by decide))]
    simp only [List.forall_mem_append, List.forall_mem_map]
    rw [and_iff_right hvalidBefore, and_iff_left hvalidBehind]
    exact forall₂_congr fun entry hentry ↦
      valid_assignmentText_iff (passable_guestEntries host entry hentry).1
  rw [encodeText_eq_ok_iff, hvalid]
  refine and_congr_right fun hencodable ↦ ?_
  rw [encode_unlines, List.map_append, List.map_append, hbefore, hbehind,
    map_encode_assignments
      (fun entry hentry ↦ (passable_guestEntries host entry hentry).1) hencodable]
  rfl

/-- The block at the start of the disk. -/
def selectorBlock (host : HostEnvironment) : List ℕ :=
  unlines ([headerMagic] ++ selectorLines host ++ [headerEnd])

theorem encodeText_file_iff {host : HostEnvironment} {bytes : List ℕ} :
    encodeText (unlines ((guestEntries host).map fun entry ↦
      assignmentText entry.1 entry.2)) = .ok bytes ↔
        ValidEntries (guestEntries host) ∧ unlines (selectorLines host) = bytes := by
  have hlines := encodeText_lines_iff host [] [] bytes fun _ h ↦ (List.not_mem_nil h).elim
  rwa [List.nil_append, List.append_nil, List.nil_append, List.append_nil] at hlines

theorem encodeText_block_iff {host : HostEnvironment} {bytes : List ℕ} :
    encodeText (unlines (headerMagic :: ((guestEntries host).map fun entry ↦
      assignmentText entry.1 entry.2) ++ [headerEnd])) = .ok bytes ↔
        ValidEntries (guestEntries host) ∧ selectorBlock host = bytes :=
  encodeText_lines_iff host [headerMagic] [headerEnd] bytes (by decide)

/-- The disk is written when there is a slot for a package, the texts can be encoded, `debugfs`
succeeds and the block fits. Nothing is left of the first bytes. -/
theorem materialize_eq_ok_iff {host : HostEnvironment} {debugfs : DebugfsResult}
    {image disk : Image} (hentries : guestEntries host ≠ []) :
    materializeGuestEnvFile host debugfs image = .ok disk ↔
      ¬((host.get packageDirName).getD [] ≠ [] ∧ (host.get asterinasSlotName).getD [] = []) ∧
      ValidEntries (guestEntries host) ∧ debugfs.returncode = 0 ∧
      (selectorBlock host).length ≤ headerSize ∧
      ⟨selectorBlock host ++ List.replicate (headerSize - (selectorBlock host).length) 32 ++
        image.bytes.drop headerSize, some (unlines (selectorLines host))⟩ = disk := by
  rw [materializeGuestEnvFile, guestEnvLines]
  by_cases hslot : (host.get packageDirName).getD [] ≠ [] ∧
      (host.get asterinasSlotName).getD [] = []
  · rw [if_pos hslot]
    exact iff_of_false (fun h ↦ by cases h) fun h ↦ h.1 hslot
  rw [if_neg hslot, ok_bind, if_neg (by simpa using hentries), and_iff_right hslot,
    bind_eq_ok_iff]
  simp only [encodeText_file_iff]
  constructor
  · rintro ⟨_, ⟨hencodable, rfl⟩, hok⟩
    split_ifs at hok with hdebugfs
    obtain ⟨header, hheader, hdisk⟩ := bind_eq_ok_iff.mp hok
    obtain ⟨payload, hpayload, hlength, rfl⟩ := guestEnvHeaderBytes_eq_ok_iff.mp hheader
    obtain ⟨-, rfl⟩ := encodeText_block_iff.mp hpayload
    exact ⟨hencodable, not_not.mp hdebugfs, hlength, Except.ok.inj hdisk⟩
  · rintro ⟨hencodable, hdebugfs, hlength, rfl⟩
    refine ⟨_, ⟨hencodable, rfl⟩, ?_⟩
    rw [if_neg (not_not.mpr hdebugfs), bind_eq_ok_iff]
    exact ⟨_, guestEnvHeaderBytes_eq_ok_iff.mpr ⟨_, encodeText_block_iff.mpr ⟨hencodable, rfl⟩,
      hlength, rfl⟩, rfl⟩

/-- What is on the disk: the lines in the file, and the same lines as a block at the start. -/
structure Written (host : HostEnvironment) (disk : Image) : Prop where
  encodable : ValidEntries (guestEntries host)
  envFile : disk.envFile = some (unlines (selectorLines host))
  header : ∃ spaces, disk.bytes.take headerSize = selectorBlock host ++ List.replicate spaces 32

theorem written_of_materialize {host : HostEnvironment} {debugfs : DebugfsResult}
    {image disk : Image} (hentries : guestEntries host ≠ [])
    (hok : materializeGuestEnvFile host debugfs image = .ok disk) : Written host disk := by
  obtain ⟨-, hencodable, -, hlength, rfl⟩ := (materialize_eq_ok_iff hentries).mp hok
  refine ⟨hencodable, rfl, headerSize - (selectorBlock host).length, List.take_left' ?_⟩
  rw [List.length_append, List.length_replicate]
  omega

/-! ### What is read -/

/-- The file assigns the copied texts. -/
theorem runScript_selectorLines {host : HostEnvironment}
    (hencodable : ValidEntries (guestEntries host)) (vars : Variables) :
    runScript (unlines (selectorLines host)) vars =
      some (vars.assignAll (encodeEntries (guestEntries host))) :=
  runScript_assignments (passable_encodeEntries (passable_guestEntries host) hencodable) vars

/-- The block at the start of the disk holds the lines of the file. -/
theorem selectorText_eq {host : HostEnvironment} {disk : Image} (hentries : guestEntries host ≠ [])
    (hwritten : Written host disk)
    (hend : headerEnd ∉ fileLines (unlines (selectorLines host))) :
    selectorText disk = some (unlines (selectorLines host)) := by
  obtain ⟨spaces, hheader⟩ := hwritten.header
  have hclosed := closed_unlines (selectorLines host)
  have hpad : headerMagic ∉ fileLines (List.replicate spaces 32) := by
    intro hmagic
    have hletter : 83 ∈ List.replicate spaces 32 := mem_of_mem_fileLines hmagic (by decide)
    cases List.eq_of_mem_replicate hletter
  have hlines : fileLines (disk.bytes.take headerSize) =
      headerMagic :: fileLines (unlines (selectorLines host)) ++
        headerEnd :: fileLines (List.replicate spaces 32) := by
    rw [hheader, selectorBlock, List.singleton_append, unlines_append, List.append_assoc,
      unlines_cons, List.append_assoc, List.cons_append, fileLines_line (by decide),
      fileLines_append hclosed, unlines_cons, List.append_assoc, List.cons_append,
      fileLines_line (by decide)]
    rfl
  have hselected : ((headerMagic :: fileLines (unlines (selectorLines host)) ++
      [headerEnd]).tail).dropLast = fileLines (unlines (selectorLines host)) :=
    List.dropLast_concat
  have hsome : fileLines (unlines (selectorLines host)) ≠ [] := by
    intro hnil
    have hown := hclosed.unlines_fileLines
    rw [hnil] at hown
    obtain ⟨entry, rest, hcons⟩ := List.exists_cons_of_ne_nil hentries
    rw [selectorLines, encodeEntries, hcons, List.map_cons, List.map_cons, unlines_cons] at hown
    exact List.append_ne_nil_of_right_ne_nil _ (List.cons_ne_nil 10 _) hown.symm
  rw [selectorText, hlines, linesBetween_block hend hpad, hselected, hclosed.unlines_fileLines,
    if_pos ⟨by simp, hsome⟩]

/-- The guest comes to the disk: it mounts it first, or it mounts nothing and finds the first block
there, which no line of the texts closes early. -/
inductive Finds (disk : Image) : List Device → Prop
  | mounted {before : List Device} (behind : List Device)
      (hbefore : ∀ device ∈ before, device.mounts = false) :
      Finds disk (before ++ ⟨disk, true⟩ :: behind)
  | raw {before behind : List Device} {text : List ℕ}
      (hbefore : ∀ device ∈ before, device.mounts = false ∧ selectorText device.image = none)
      (hbehind : ∀ device ∈ behind, device.mounts = false)
      (htext : disk.envFile = some text) (hend : headerEnd ∉ fileLines text) :
      Finds disk (before ++ ⟨disk, false⟩ :: behind)

/-- The guest holds the copied texts. -/
def HoldsEntries (host : HostEnvironment) (vars : Variables) : Prop :=
  ∀ names ∈ copiedNames, vars.valueOf names.1 = Utf8.encode ((host.get names.2).getD [])

/-- The assignments of the selector, when what is not assigned is empty. -/
theorem holdsEntries_assignAll (host : HostEnvironment) {vars : Variables}
    (hvars : ∀ names ∈ copiedNames, (host.get names.2).getD [] = [] → vars.valueOf names.1 = []) :
    HoldsEntries host (vars.assignAll (encodeEntries (guestEntries host))) := by
  have hkeys := map_fst_encodeEntries (guestEntries host)
  intro names hnames
  by_cases hempty : (host.get names.2).getD [] = []
  · rw [Variables.valueOf_assignAll_of_notMem, hvars names hnames hempty, hempty]
    · rfl
    · -- another entry has another name
      rw [hkeys]
      intro hmem
      obtain ⟨entry, hentry, hname⟩ := List.mem_map.mp hmem
      obtain ⟨others, hothers, hsome, rfl⟩ := mem_setEntries.mp hentry
      rw [List.inj_on_of_nodup_map nodup_copiedNames hothers hnames hname] at hsome
      exact hsome hempty
  · refine Variables.valueOf_assignAll vars (hkeys ▸ nodup_setEntries host nodup_copiedNames) ?_
    refine List.mem_map.mpr ⟨(names.1, (host.get names.2).getD []), ?_, rfl⟩
    exact mem_setEntries.mpr ⟨names, hnames, hempty, rfl⟩

theorem HoldsEntries.empty {host : HostEnvironment} {vars : Variables}
    (hholds : HoldsEntries host vars) :
    ∀ names ∈ copiedNames, (host.get names.2).getD [] = [] → vars.valueOf names.1 = [] := by
  intro names hnames hempty
  rw [hholds names hnames, hempty]
  rfl

/-- By either route the guest holds what the host copied. -/
theorem selectorVariables_holds {host : HostEnvironment} {disk : Image} {devices : List Device}
    {boot : Variables} (hentries : guestEntries host ≠ []) (hwritten : Written host disk)
    (hfinds : Finds disk devices) (hboot : ∀ names ∈ copiedNames, boot.valueOf names.1 = []) :
    ∃ vars, selectorVariables devices boot = some vars ∧ HoldsEntries host vars := by
  have hrun := runScript_selectorLines hwritten.encodable
  have hfirst := holdsEntries_assignAll host fun names hnames _ ↦ hboot names hnames
  cases hfinds with
  | @mounted before behind hbefore =>
    refine ⟨_, ?_, hfirst⟩
    have hfind : (before ++ ⟨disk, true⟩ :: behind).find? Device.mounts = some ⟨disk, true⟩ := by
      rw [List.find?_append, List.find?_eq_none.mpr (by simpa using hbefore)]
      rfl
    rw [selectorVariables, hfind]
    simp only [hwritten.envFile]
    exact hrun boot
  | @raw before behind text hbefore hbehind htext hend =>
    obtain rfl := Option.some.inj (hwritten.envFile.symm.trans htext)
    have hfind : (before ++ ⟨disk, false⟩ :: behind).find? Device.mounts = none := by
      rw [List.find?_eq_none]
      intro device hdevice
      rw [Bool.not_eq_true]
      rcases List.mem_append.mp hdevice with hmem | hmem
      · exact (hbefore device hmem).1
      · rcases List.mem_cons.mp hmem with rfl | hlast
        · rfl
        · exact hbehind device hlast
    have hload : ∀ vars, loadSelectorFromRawDevices (before ++ ⟨disk, false⟩ :: behind) vars =
        some (vars.assignAll (encodeEntries (guestEntries host))) := by
      intro vars
      rw [loadSelectorFromRawDevices, List.findSome?_append,
        List.findSome?_eq_none_iff.mpr fun device hdevice ↦ (hbefore device hdevice).2,
        List.findSome?_cons, selectorText_eq hentries hwritten hend]
      exact hrun vars
    refine ⟨_, ?_, holdsEntries_assignAll host hfirst.empty⟩
    rw [selectorVariables, hfind]
    simp only [hload, Option.bind_some]

/-- The host asks for the injection, or for none. -/
def Carries (host : HostEnvironment) : Option InjectTrace → Prop
  | some request => ∀ entry ∈ injectionVariables request, host.get entry.1 = some entry.2
  | none => host.get injectEnabledName = none

def injectionFor : Option InjectTrace → Injection
  | some request => requestedInjection request
  | none => {}

theorem getInjection_getenv {host : HostEnvironment} {request : Option InjectTrace}
    (hcarries : Carries host request) : getInjection host.getenv = injectionFor request := by
  cases request with
  | some request =>
    refine getInjection_eq fun entry hentry ↦ ?_
    rw [HostEnvironment.getenv, hcarries entry hentry]
    rfl
  | none =>
    have hnone : host.getenv injectEnabledName = none := by
      rw [HostEnvironment.getenv, show host.get injectEnabledName = none from hcarries]
      rfl
    rw [getInjection, hnone, if_pos (by simp)]
    rfl

/-- Whatever the request and the disk before, the guest that comes to its working directory starts
the binary of the slot, with the size of previews that the script was made for, and its tracer
traces as the request says. -/
theorem packagedGuest_traces_request {host : HostEnvironment} {debugfs : DebugfsResult}
    {image disk : Image} {devices : List Device} {boot : Variables} {slot preview : ℕ}
    {executable : List ℕ → Bool} {entered : Entered} {request : Option InjectTrace}
    (hok : materializeGuestEnvFile host debugfs image = .ok disk)
    (hslot : host.get asterinasSlotName = some (decimal slot)) (hcarries : Carries host request)
    (hfinds : Finds disk devices) (hboot : ∀ names ∈ copiedNames, boot.valueOf names.1 = [])
    (hexecutable : executable (batchBinary (decimal slot)) = true) :
    ∃ launch, composePackagedAutorun preview executable (some entered) devices boot =
        some launch ∧
      launch.binary = batchBinary (decimal slot) ∧
      previewBytes launch.environment = (if preview = 0 then 32 else min preview (2 ^ 64 - 1)) ∧
      TracesAlike (getInjection launch.environment) (injectionFor request) := by
  have hdecimal : Utf8.encode (decimal slot) = decimal slot := encode_decimalInt slot
  have hentries : guestEntries host ≠ [] := by
    refine List.ne_nil_of_mem (a := (packageSlotName, decimal slot)) (mem_setEntries.mpr
      ⟨(packageSlotName, asterinasSlotName), List.mem_cons_self, ?_, ?_⟩)
    · rw [hslot]
      exact Json.decimal_ne_nil slot
    · rw [hslot]
      rfl
  obtain ⟨vars, hvars, hholds⟩ := selectorVariables_holds hentries
    (written_of_materialize hentries hok) hfinds hboot
  have hvalue : vars.valueOf packageSlotName = decimal slot := by
    have hname := hholds (packageSlotName, asterinasSlotName) List.mem_cons_self
    rwa [hslot, Option.getD_some, hdecimal] at hname
  have hrun : composePackagedAutorun preview executable (some entered) devices boot =
      some ⟨batchBinary (decimal slot), ((injectionNames.foldl Variables.exportSet
        (vars.exportAll (candidateExports preview))).enter entered).environment⟩ := by
    rw [composePackagedAutorun, hvars, Option.bind_eq_bind, Option.bind_some, hvalue,
      if_neg (by simp [hexecutable, Json.decimal_ne_nil])]
    rfl
  refine ⟨_, hrun, rfl, ?_, ?_⟩
  · refine previewBytes_eq ?_
    show ((injectionNames.foldl Variables.exportSet _).enter _).environment previewBytesName = _
    rw [Variables.environment_enter _ _ (by decide),
      Variables.environment_foldl_exportSet_of_notMem _ (by decide),
      environment_candidateExports]
  · rw [← getInjection_getenv hcarries]
    refine tracesAlike_getInjection fun name hname ↦ ?_
    have hcopied : (name, name) ∈ copiedNames :=
      List.mem_cons_of_mem _ (List.mem_map.mpr ⟨name, hname, rfl⟩)
    have hother : ∀ name ∈ injectionNames, name ∉ directoryNames := by decide
    dsimp only
    rw [Variables.environment_enter _ _ (hother name hname),
      Variables.environment_foldl_exportSet _ hname,
      Variables.valueOf_exportAll_of_notMem _ ((names_candidateExports preview).2 name hname),
      hholds (name, name) hcopied, HostEnvironment.getenv]
    cases host.get name <;> rfl

/-! ### A run -/

/-- The environment with these variables. -/
def HostEnvironment.ofEntries (entries : List (List ℕ × PyStr))
    (hentries : ∀ entry ∈ entries, 0 ∉ entry.2) : HostEnvironment where
  get := fun name ↦ entries.lookup name
  noNul := fun name value hvalue ↦ by
    obtain ⟨front, back, rfl, -⟩ := List.lookup_eq_some_iff.mp hvalue
    exact hentries (name, value) (List.mem_append_right front List.mem_cons_self)

/-- A request with a quotation mark and a line feed in its texts. -/
def awkwardRequest : InjectTrace := ⟨-1, "it's\n$(read)", "return", 2 ^ 70⟩

def awkwardHost : HostEnvironment :=
  .ofEntries ((asterinasSlotName, decimal 3) :: injectionVariables awkwardRequest)
    (by decide +kernel)

/-- The disk that is written for it, over what was there before. -/
def awkwardDisk : Image where
  bytes := selectorBlock awkwardHost ++
    List.replicate (headerSize - (selectorBlock awkwardHost).length) 32 ++ [7, 7]
  envFile := some (unlines (selectorLines awkwardHost))

theorem awkwardHost_encodable : ValidEntries (guestEntries awkwardHost) := by
  show ∀ entry ∈ guestEntries awkwardHost, ∀ c ∈ entry.2, c.isValidChar
  decide +kernel

theorem awkwardHost_carries : Carries awkwardHost (some awkwardRequest) := by
  show ∀ entry ∈ injectionVariables awkwardRequest, awkwardHost.get entry.1 = some entry.2
  decide +kernel

theorem materialize_awkwardHost :
    materializeGuestEnvFile awkwardHost ⟨0, ""⟩ ⟨List.replicate 1024 9 ++ [7, 7], none⟩ =
      .ok awkwardDisk := by
  refine (materialize_eq_ok_iff (by decide +kernel)).mpr
    ⟨by decide +kernel, awkwardHost_encodable, rfl, by decide +kernel, ?_⟩
  rw [List.drop_left' (by decide +kernel)]
  rfl

/-- The guest cannot mount the disk. -/
theorem finds_awkwardDisk : Finds awkwardDisk [⟨awkwardDisk, false⟩] :=
  Finds.raw (fun _ h ↦ (List.not_mem_nil h).elim) (fun _ h ↦ (List.not_mem_nil h).elim) rfl
    (by decide +kernel)

/-- The shell comes from the root to its working directory. -/
def workEntered : Entered where
  pwd := ⟨PyStr.ofString "/tmp/syzabi/work", true⟩
  oldPwd := ⟨PyStr.ofString "/", true⟩

theorem packagedGuest_traces_awkwardRequest :
    ∃ launch, composePackagedAutorun 32 (fun _ ↦ true) (some workEntered) [⟨awkwardDisk, false⟩]
        (fun _ ↦ none) = some launch ∧ launch.binary = batchBinary (decimal 3) ∧
      previewBytes launch.environment = (if 32 = 0 then 32 else min 32 (2 ^ 64 - 1)) ∧
      TracesAlike (getInjection launch.environment) (injectionFor (some awkwardRequest)) :=
  packagedGuest_traces_request materialize_awkwardHost (by decide +kernel) awkwardHost_carries
    finds_awkwardDisk (by decide +kernel) rfl

end SyzAbi.Targets.Selector

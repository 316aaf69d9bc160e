import Mathlib.Data.List.Infix
import Mathlib.Data.String.Basic
import SyzAbi.Library.Interleaving

/-!
# The private workspaces of ArceOS workers

`run_case` (`targets/tgoskits_arceos/api.py`) gives every worker a copy of the TGOSKits repository
that is made of hard links, so a copy and the repository share their files. In the copy,
`write_managed_cargo_config` writes the cargo config for the build and
`restore_managed_cargo_config` takes it back. `write_text` opens a file in place.

A repository without a cargo config gives every worker a config of its own, and one with a config
that a user wrote makes `run_case` refuse. When the repository holds a managed config, a worker
truncates and rewrites it through its link, for the repository and for every other worker. So the
workers are isolated exactly when the repository holds no managed config (`workers_isolated_iff`);
along a single run a move is isolated exactly when it does not open the config through a link
(`along_isolated_iff`).
-/

set_option autoImplicit false
set_option relaxedAutoImplicit false

namespace SyzAbi.Targets

open Library.Interleaving

/-! ### Files and copies -/

/-- A file: one of the shared repository, or one that a worker made. -/
inductive Inode (ι : Type)
  | shared (number : ℕ)
  | made (worker : ι) (number : ℕ)
  deriving DecidableEq

/-- The shared repository: the subdirectory of its workspace, what `copytree` finds in it, in this
order, and the contents of its files. -/
structure SharedRepo where
  workspaceSubdir : String
  files : List (String × ℕ)
  contents : ℕ → ByteArray
  nodup_files : (files.map Prod.fst).Nodup

/-- `managed_cargo_config_path`, from the top of a copy. -/
def SharedRepo.managedCargoConfigPath (repo : SharedRepo) : String :=
  repo.workspaceSubdir ++ "/.cargo/config.toml"

/-- The names in the copy of a worker, and how many files the worker has made. -/
structure RepoCopy (ι : Type) where
  inode : String → Option (Inode ι)
  made : ℕ

/-- The contents of all files. -/
abbrev FileContents (ι : Type) := Inode ι → ByteArray

/-- What `read_text` makes of line ends. -/
def universalNewlines : List Char → List Char
  | '\r' :: '\n' :: rest => '\n' :: universalNewlines rest
  | '\r' :: rest => '\n' :: universalNewlines rest
  | c :: rest => c :: universalNewlines rest
  | [] => []

/-- `read_text(encoding="utf-8")`; bytes that are not UTF-8 raise. -/
def readConfigText (bytes : ByteArray) : Option (List Char) :=
  (String.fromUTF8? bytes).map fun text ↦ universalNewlines text.toList

/-- `managed_cargo_marker`. -/
def managedCargoMarker : String := "# axbuild-managed: arceos-c-test-cargo-config"

/-- The content is that of a managed config. -/
def HoldsMarker (bytes : ByteArray) : Prop :=
  ∃ text, readConfigText bytes = some text ∧ managedCargoMarker.toList <:+: text

/-- The repository holds a managed config. -/
def SharedRepo.HoldsManagedConfig (repo : SharedRepo) : Prop :=
  ∃ number, (repo.managedCargoConfigPath, number) ∈ repo.files ∧ HoldsMarker (repo.contents number)

section Workers

variable {ι : Type}

/-- `os.link`. -/
def RepoCopy.link (copy : RepoCopy ι) (path : String) (number : ℕ) : RepoCopy ι :=
  { copy with inode := Function.update copy.inode path (some (.shared number)) }

/-- A new file in the copy. -/
def RepoCopy.create (copy : RepoCopy ι) (i : ι) (path : String) : RepoCopy ι :=
  ⟨Function.update copy.inode path (some (.made i copy.made)), copy.made + 1⟩

/-- `unlink(missing_ok=True)`. -/
def RepoCopy.unlink (copy : RepoCopy ι) (path : String) : RepoCopy ι :=
  { copy with inode := Function.update copy.inode path none }

/-- `open(path, "w")`: the file behind a name that is there, else a new one. -/
def RepoCopy.openForWriting (copy : RepoCopy ι) (i : ι) (path : String) :
    Inode ι × RepoCopy ι :=
  match copy.inode path with
  | some inode => (inode, copy)
  | none => (.made i copy.made, copy.create i path)

/-! ### Workers -/

/-- Where a worker is in `run_case`. -/
inductive CasePhase (ι : Type)
  /-- In `_copytree_with_links`, with the files that are still to come. -/
  | linking (rest : List (String × ℕ))
  | linked
  /-- `write_managed_cargo_config` has read the config. -/
  | read (previous : Option (List Char))
  /-- It has opened the config to write, which truncates it. -/
  | opened (previous : Option (List Char)) (inode : Inode ι) (rendered : List Char)
  | running (previous : Option (List Char))
  /-- `restore_managed_cargo_config` has opened the config to write. -/
  | reopened (inode : Inode ι) (previous : List Char)
  | finished

/-- A worker. -/
structure CaseWorker (ι : Type) where
  phase : CasePhase ι
  copy : RepoCopy ι

/-- What a worker does next. `os.link` can fail, and then `copy2` makes a file; a text is rendered
only to be written; and wherever `run_case` can raise, it can give up. -/
inductive CaseMove
  | copyFile (links : Bool)
  | advance (rendered : List Char)
  | giveUp

variable [DecidableEq ι]

/-- `path.write_text(text)` up to the truncation. -/
def CaseWorker.truncate (copy : RepoCopy ι) (i : ι) (path : String) (phase : Inode ι → CasePhase ι)
    (contents : FileContents ι) : CaseWorker ι × FileContents ι :=
  let (inode, copy) := copy.openForWriting i path
  (⟨phase inode, copy⟩, Function.update contents inode ByteArray.empty)

/-- The rest of `write_text`. -/
def storeText (contents : FileContents ι) (inode : Inode ι) (text : List Char) : FileContents ι :=
  Function.update contents inode (String.ofList text).toUTF8

/-- `restore_managed_cargo_config`, up to the truncation if it writes. -/
def CaseWorker.restoreManagedCargoConfig (repo : SharedRepo) (i : ι) (copy : RepoCopy ι)
    (contents : FileContents ι) : Option (List Char) → CaseWorker ι × FileContents ι
  | none => (⟨.finished, copy.unlink repo.managedCargoConfigPath⟩, contents)
  | some previous =>
    truncate copy i repo.managedCargoConfigPath (fun inode ↦ .reopened inode previous) contents

/-- What `write_managed_cargo_config` makes of the config it finds. -/
def readManagedCargoConfig (repo : SharedRepo) (copy : RepoCopy ι) (contents : FileContents ι) :
    CasePhase ι :=
  match copy.inode repo.managedCargoConfigPath with
  | none => .read none
  | some inode =>
    match readConfigText (contents inode) with
    | some text => if managedCargoMarker.toList <:+: text then .read (some text) else .finished
    | none => .finished

/-- One move of a worker in `run_case`. A move that is not its next one does nothing. -/
def runCaseStep (repo : SharedRepo) (i : ι) :
    CaseMove → CaseWorker ι → FileContents ι → CaseWorker ι × FileContents ι
  | .copyFile true, ⟨.linking ((path, number) :: rest), copy⟩, contents =>
    (⟨.linking rest, copy.link path number⟩, contents)
  | .copyFile false, ⟨.linking ((path, number) :: rest), copy⟩, contents =>
    (⟨.linking rest, copy.create i path⟩,
      Function.update contents (.made i copy.made) (contents (.shared number)))
  | .advance _, ⟨.linking [], copy⟩, contents => (⟨.linked, copy⟩, contents)
  | .advance _, ⟨.linked, copy⟩, contents =>
    (⟨readManagedCargoConfig repo copy contents, copy⟩, contents)
  | .advance rendered, ⟨.read previous, copy⟩, contents =>
    CaseWorker.truncate copy i repo.managedCargoConfigPath
      (fun inode ↦ .opened previous inode rendered) contents
  | .advance _, ⟨.opened previous inode rendered, copy⟩, contents =>
    (⟨.running previous, copy⟩, storeText contents inode rendered)
  | .advance _, ⟨.running previous, copy⟩, contents =>
    CaseWorker.restoreManagedCargoConfig repo i copy contents previous
  | .advance _, ⟨.reopened inode previous, copy⟩, contents =>
    (⟨.finished, copy⟩, storeText contents inode previous)
  -- the `finally` of the builds
  | .giveUp, ⟨.running previous, copy⟩, contents =>
    CaseWorker.restoreManagedCargoConfig repo i copy contents previous
  | .giveUp, ⟨_, copy⟩, contents => (⟨.finished, copy⟩, contents)
  | _, worker, contents => (worker, contents)

/-- Workers that have not copied anything yet. -/
def SharedRepo.start (repo : SharedRepo) (ι : Type) :
    Config ι (CaseWorker ι) (FileContents ι) where
  locals := fun _ ↦ ⟨.linking repo.files, fun _ ↦ none, 0⟩
  shared
    | .shared number => repo.contents number
    | .made _ _ => ByteArray.empty

/-- A move changes no file of the repository and no file in the copy of another worker. -/
def Isolated (repo : SharedRepo) (config : Config ι (CaseWorker ι) (FileContents ι))
    (move : ι × CaseMove) : Prop :=
  let after := step (runCaseStep repo) config move
  (∀ number, after.shared (.shared number) = config.shared (.shared number)) ∧
    ∀ j, j ≠ move.1 → ∀ path inode, (config.locals j).copy.inode path = some inode →
      after.shared inode = config.shared inode

/-- A move opens the config of a copy to write while it is a link to the repository. -/
def OpensLinkedConfig (repo : SharedRepo) (config : Config ι (CaseWorker ι) (FileContents ι))
    (move : ι × CaseMove) : Prop :=
  ∃ rendered previous copy number, move.2 = .advance rendered ∧
    config.locals move.1 = ⟨.read previous, copy⟩ ∧
    copy.inode repo.managedCargoConfigPath = some (.shared number)

end Workers

/-! ### What holds of a worker -/

section Copies

variable {ι : Type}

/-- The file can be in the copy of the worker. -/
def Inode.ReachedBy (i : ι) : Inode ι → Prop
  | .shared _ => True
  | .made j _ => j = i

/-- The config of the copy is not a link. -/
def RepoCopy.OwnsConfig (copy : RepoCopy ι) (repo : SharedRepo) : Prop :=
  ∀ number, copy.inode repo.managedCargoConfigPath ≠ some (.shared number)

/-- The names in a copy lead to files of the repository and of the worker, and the config is a link
only where the repository has one. -/
structure RepoCopy.Sound (repo : SharedRepo) (i : ι) (copy : RepoCopy ι) : Prop where
  reached : ∀ path inode, copy.inode path = some inode → inode.ReachedBy i
  linked : ∀ number, copy.inode repo.managedCargoConfigPath = some (.shared number) →
    (repo.managedCargoConfigPath, number) ∈ repo.files

/-- What holds where a worker is: a file that it has open is its own, and behind the reading a
config that is a link is a managed one. -/
def CasePhase.Holds (repo : SharedRepo) (i : ι) (copy : RepoCopy ι) : CasePhase ι → Prop
  | .linking rest => rest ⊆ repo.files
  | .read _ => ∀ number, copy.inode repo.managedCargoConfigPath = some (.shared number) →
    HoldsMarker (repo.contents number)
  | .opened _ inode _ => (∃ number, inode = .made i number) ∧ copy.OwnsConfig repo
  | .reopened inode _ => ∃ number, inode = .made i number
  | .running _ => copy.OwnsConfig repo
  | .linked | .finished => True

/-- What holds of a worker. -/
structure CaseWorker.Holds (repo : SharedRepo) (i : ι) (worker : CaseWorker ι) : Prop where
  copy : worker.copy.Sound repo i
  phase : worker.phase.Holds repo i worker.copy

variable {repo : SharedRepo} {i : ι} {copy : RepoCopy ι}

theorem RepoCopy.link_self (path : String) (number : ℕ) :
    (copy.link path number).inode path = some (.shared number) :=
  Function.update_self _ _ _

theorem RepoCopy.link_of_ne {name path : String} (hne : name ≠ path) (number : ℕ) :
    (copy.link path number).inode name = copy.inode name :=
  Function.update_of_ne hne _ _

theorem RepoCopy.create_self (path : String) :
    (copy.create i path).inode path = some (.made i copy.made) :=
  Function.update_self _ _ _

theorem RepoCopy.create_of_ne {name path : String} (hne : name ≠ path) :
    (copy.create i path).inode name = copy.inode name :=
  Function.update_of_ne hne _ _

theorem RepoCopy.unlink_self (path : String) : (copy.unlink path).inode path = none :=
  Function.update_self _ _ _

theorem RepoCopy.unlink_of_ne {name path : String} (hne : name ≠ path) :
    (copy.unlink path).inode name = copy.inode name :=
  Function.update_of_ne hne _ _

theorem RepoCopy.Sound.link (hcopy : copy.Sound repo i) {path : String} {number : ℕ}
    (hmem : (path, number) ∈ repo.files) : (copy.link path number).Sound repo i := by
  refine ⟨?_, ?_⟩
  · intro name inode hname
    by_cases hpath : name = path
    · rw [hpath, link_self, Option.some.injEq] at hname
      rw [← hname]
      trivial
    · rw [link_of_ne hpath] at hname
      exact hcopy.reached name inode hname
  · intro found hfound
    by_cases hpath : repo.managedCargoConfigPath = path
    · rw [hpath, link_self, Option.some.injEq, Inode.shared.injEq] at hfound
      rw [hpath, ← hfound]
      exact hmem
    · rw [link_of_ne hpath] at hfound
      exact hcopy.linked found hfound

theorem RepoCopy.Sound.create (hcopy : copy.Sound repo i) (path : String) :
    (copy.create i path).Sound repo i := by
  refine ⟨?_, ?_⟩
  · intro name inode hname
    by_cases hpath : name = path
    · rw [hpath, create_self, Option.some.injEq] at hname
      rw [← hname]
      rfl
    · rw [create_of_ne hpath] at hname
      exact hcopy.reached name inode hname
  · intro found hfound
    by_cases hpath : repo.managedCargoConfigPath = path
    · rw [hpath, create_self] at hfound
      cases hfound
    · rw [create_of_ne hpath] at hfound
      exact hcopy.linked found hfound

theorem RepoCopy.Sound.unlink (hcopy : copy.Sound repo i) :
    (copy.unlink repo.managedCargoConfigPath).Sound repo i := by
  refine ⟨?_, ?_⟩
  · intro name inode hname
    by_cases hpath : name = repo.managedCargoConfigPath
    · rw [hpath, unlink_self] at hname
      cases hname
    · rw [unlink_of_ne hpath] at hname
      exact hcopy.reached name inode hname
  · intro found hfound
    rw [unlink_self] at hfound
    cases hfound

/-- A config that is not a link opens as a file of the worker. -/
theorem RepoCopy.Sound.openForWriting (hcopy : copy.Sound repo i) (howns : copy.OwnsConfig repo) :
    (∃ number, (copy.openForWriting i repo.managedCargoConfigPath).1 = .made i number) ∧
      (copy.openForWriting i repo.managedCargoConfigPath).2.Sound repo i ∧
      (copy.openForWriting i repo.managedCargoConfigPath).2.OwnsConfig repo := by
  fun_cases RepoCopy.openForWriting copy i repo.managedCargoConfigPath with
  | case1 inode hinode =>
    refine ⟨?_, hcopy, howns⟩
    cases inode with
    | shared number => exact absurd hinode (howns number)
    | made j number =>
      have hj : j = i := hcopy.reached _ _ hinode
      exact ⟨number, by rw [hj]⟩
  | case2 hnone =>
    refine ⟨⟨copy.made, rfl⟩, hcopy.create _, ?_⟩
    intro number hlink
    rw [create_self] at hlink
    cases hlink

/-- Where the reading of the config leads, a config that is a link is a managed one. -/
theorem holds_readManagedCargoConfig {contents : FileContents ι}
    (hcontents : ∀ number, contents (.shared number) = repo.contents number) :
    (readManagedCargoConfig repo copy contents).Holds repo i copy := by
  fun_cases readManagedCargoConfig repo copy contents with
  | case1 hnone =>
    intro number hlink
    rw [hnone] at hlink
    cases hlink
  | case2 inode hinode text htext hmarker =>
    intro number hlink
    rw [hinode, Option.some.injEq] at hlink
    rw [hlink, hcontents] at htext
    exact ⟨text, htext, hmarker⟩
  | case3 => trivial
  | case4 => trivial

/-- Reading a managed config leads to the writing. -/
theorem readManagedCargoConfig_of_marker {contents : FileContents ι} {inode : Inode ι}
    (hinode : copy.inode repo.managedCargoConfigPath = some inode)
    (hmarker : HoldsMarker (contents inode)) :
    ∃ text, readManagedCargoConfig repo copy contents = .read (some text) := by
  obtain ⟨text, htext, hinfix⟩ := hmarker
  refine ⟨text, ?_⟩
  simp only [readManagedCargoConfig, hinode, htext, if_pos hinfix]

/-- The repository is unchanged, and each worker is where it can be. -/
structure SoundWorkers (repo : SharedRepo) (config : Config ι (CaseWorker ι) (FileContents ι)) :
    Prop where
  contents : ∀ number, config.shared (.shared number) = repo.contents number
  workers : ∀ i, (config.locals i).Holds repo i

theorem soundWorkers_start : SoundWorkers repo (repo.start ι) := by
  refine ⟨fun _ ↦ rfl, fun i ↦ ⟨⟨?_, ?_⟩, List.Subset.refl _⟩⟩
  · intro path inode hinode
    cases hinode
  · intro number hlink
    cases hlink

/-- Where the repository holds no managed config, no worker opens a linked one. -/
theorem SoundWorkers.not_opensLinkedConfig
    {config : Config ι (CaseWorker ι) (FileContents ι)} (hsound : SoundWorkers repo config)
    (hfree : ¬repo.HoldsManagedConfig) (move : ι × CaseMove) :
    ¬OpensLinkedConfig repo config move := by
  rintro ⟨rendered, previous, copy, number, -, hworker, hlink⟩
  have hholds := hsound.workers move.1
  rw [hworker] at hholds
  exact hfree ⟨number, hholds.copy.linked number hlink, hholds.phase number hlink⟩

end Copies

/-! ### Moves -/

section Moves

variable {ι : Type} [DecidableEq ι] {repo : SharedRepo} {i : ι} {copy : RepoCopy ι}
  {contents : FileContents ι}

/-- The contents differ only in files that the worker made. -/
def ChangesOwn (i : ι) (contents after : FileContents ι) : Prop :=
  ∀ inode, (∀ number, inode ≠ .made i number) → after inode = contents inode

theorem changesOwn_update {inode : Inode ι} (hown : ∃ number, inode = .made i number)
    (bytes : ByteArray) : ChangesOwn i contents (Function.update contents inode bytes) := by
  obtain ⟨number, rfl⟩ := hown
  intro other hother
  exact Function.update_of_ne (hother number) _ _

/-- A worker whose config is not a link truncates a file of its own. -/
theorem truncate_spec (hcopy : copy.Sound repo i) (howns : copy.OwnsConfig repo)
    {phase : Inode ι → CasePhase ι}
    (hphase : ∀ inode after, (∃ number, inode = .made i number) → after.OwnsConfig repo →
      (phase inode).Holds repo i after) :
    (CaseWorker.truncate copy i repo.managedCargoConfigPath phase contents).1.Holds repo i ∧
      ChangesOwn i contents
        (CaseWorker.truncate copy i repo.managedCargoConfigPath phase contents).2 := by
  obtain ⟨hmade, hsound, hafter⟩ := hcopy.openForWriting howns
  exact ⟨⟨hsound, hphase _ _ hmade hafter⟩, changesOwn_update hmade _⟩

theorem restore_spec (hcopy : copy.Sound repo i) (howns : copy.OwnsConfig repo)
    (previous : Option (List Char)) :
    (CaseWorker.restoreManagedCargoConfig repo i copy contents previous).1.Holds repo i ∧
      ChangesOwn i contents
        (CaseWorker.restoreManagedCargoConfig repo i copy contents previous).2 := by
  cases previous with
  | none => exact ⟨⟨hcopy.unlink, trivial⟩, fun _ _ ↦ rfl⟩
  | some previous => exact truncate_spec hcopy howns fun _ _ hmade _ ↦ hmade

/-- A move that does not open a linked config keeps what holds of the worker, and changes only files
that the worker made. -/
theorem CaseWorker.Holds.step {worker : CaseWorker ι} (hworker : worker.Holds repo i)
    (hcontents : ∀ number, contents (.shared number) = repo.contents number) (move : CaseMove)
    (howns : ∀ rendered previous copy, move = .advance rendered → worker = ⟨.read previous, copy⟩ →
      copy.OwnsConfig repo) :
    (runCaseStep repo i move worker contents).1.Holds repo i ∧
      ChangesOwn i contents (runCaseStep repo i move worker contents).2 := by
  obtain ⟨hcopy, hphase⟩ := hworker
  have hsame : ChangesOwn i contents contents := fun _ _ ↦ rfl
  fun_cases runCaseStep repo i move worker contents with
  | case1 path number rest copy =>
    have hmem := List.cons_subset.mp hphase
    exact ⟨⟨hcopy.link hmem.1, hmem.2⟩, hsame⟩
  | case2 path number rest copy =>
    have hmem := List.cons_subset.mp hphase
    exact ⟨⟨hcopy.create path, hmem.2⟩, changesOwn_update ⟨_, rfl⟩ _⟩
  | case3 rendered copy => exact ⟨⟨hcopy, trivial⟩, hsame⟩
  | case4 rendered copy => exact ⟨⟨hcopy, holds_readManagedCargoConfig hcontents⟩, hsame⟩
  | case5 rendered previous copy =>
    exact truncate_spec hcopy (howns rendered previous copy rfl rfl) fun _ _ hmade hafter ↦
      ⟨hmade, hafter⟩
  | case6 _ previous inode rendered copy =>
    exact ⟨⟨hcopy, hphase.2⟩, changesOwn_update hphase.1 _⟩
  | case7 _ previous copy => exact restore_spec hcopy hphase previous
  | case8 _ inode previous copy => exact ⟨⟨hcopy, trivial⟩, changesOwn_update hphase _⟩
  | case9 previous copy => exact restore_spec hcopy hphase previous
  | case10 => exact ⟨⟨hcopy, trivial⟩, hsame⟩
  | case11 => exact ⟨⟨hcopy, hphase⟩, hsame⟩

variable {config : Config ι (CaseWorker ι) (FileContents ι)} {move : ι × CaseMove}

theorem SoundWorkers.ownStep (hsound : SoundWorkers repo config)
    (hown : ¬OpensLinkedConfig repo config move) :
    ((step (runCaseStep repo) config move).locals move.1).Holds repo move.1 ∧
      ChangesOwn move.1 config.shared (step (runCaseStep repo) config move).shared := by
  obtain ⟨i, action⟩ := move
  rw [step_locals_self, step_shared]
  refine (hsound.workers i).step hsound.contents action ?_
  intro rendered previous copy haction hworker number hlink
  exact hown ⟨rendered, previous, copy, number, haction, hworker, hlink⟩

/-- A move that opens no linked config is isolated. -/
theorem SoundWorkers.isolated (hsound : SoundWorkers repo config)
    (hown : ¬OpensLinkedConfig repo config move) : Isolated repo config move := by
  obtain ⟨-, hchanges⟩ := hsound.ownStep hown
  refine ⟨fun number ↦ hchanges _ (fun _ ↦ nofun), ?_⟩
  intro j hj path inode hinode
  have hreached := (hsound.workers j).copy.reached path inode hinode
  refine hchanges inode fun number heq ↦ ?_
  rw [heq] at hreached
  exact hj hreached.symm

theorem SoundWorkers.next (hsound : SoundWorkers repo config)
    (hown : ¬OpensLinkedConfig repo config move) :
    SoundWorkers repo (step (runCaseStep repo) config move) := by
  obtain ⟨hholds, -⟩ := hsound.ownStep hown
  refine ⟨?_, ?_⟩
  · intro number
    rw [(hsound.isolated hown).1 number]
    exact hsound.contents number
  · intro j
    by_cases hj : j = move.1
    · rw [hj]
      exact hholds
    · rw [step_locals_of_ne config hj]
      exact hsound.workers j

theorem not_holdsMarker_empty : ¬HoldsMarker ByteArray.empty := by
  rintro ⟨text, htext, hmarker⟩
  have hempty : readConfigText ByteArray.empty = some [] := by decide +kernel
  rw [hempty, Option.some.injEq] at htext
  rw [← htext] at hmarker
  exact absurd (List.infix_nil.mp hmarker) (by decide)

/-- Opening a linked config truncates a file of the repository. -/
theorem SoundWorkers.not_isolated (hsound : SoundWorkers repo config)
    (hopens : OpensLinkedConfig repo config move) : ¬Isolated repo config move := by
  obtain ⟨i, action⟩ := move
  obtain ⟨rendered, previous, copy, number, rfl, hworker, hlink⟩ := hopens
  rintro ⟨hshared, -⟩
  have hmarker : HoldsMarker (config.shared (.shared number)) := by
    have hphase := (hsound.workers i).phase
    rw [hworker] at hphase
    rw [hsound.contents]
    exact hphase number hlink
  have hempty : (step (runCaseStep repo) config (i, .advance rendered)).shared (.shared number) =
      ByteArray.empty := by
    rw [step_shared, hworker]
    show (CaseWorker.truncate copy i repo.managedCargoConfigPath
      (fun inode ↦ .opened previous inode rendered) config.shared).2 _ = _
    rw [CaseWorker.truncate, RepoCopy.openForWriting, hlink]
    exact Function.update_self _ _ _
  rw [← hshared number, hempty] at hmarker
  exact not_holdsMarker_empty hmarker

/-- The moves of a run are isolated exactly when none opens a linked config. -/
theorem along_isolated_iff (moves : List (ι × CaseMove)) :
    Along (step (runCaseStep repo)) (Isolated repo) (repo.start ι) moves ↔
      Along (step (runCaseStep repo)) (fun config move ↦ ¬OpensLinkedConfig repo config move)
        (repo.start ι) moves := by
  refine (along_congr (fun _ _ hsound hown ↦ hsound.next hown) ?_ soundWorkers_start moves).symm
  intro config move hsound
  refine ⟨hsound.isolated, fun hisolated hopens ↦ hsound.not_isolated hopens hisolated⟩

/-- A worker that links all files has the links of the repository. -/
theorem linkAll_spec (repo : SharedRepo) (i : ι) {rest : List (String × ℕ)}
    (hnodup : (rest.map Prod.fst).Nodup) {config : Config ι (CaseWorker ι) (FileContents ι)}
    {copy : RepoCopy ι} (hlocal : config.locals i = ⟨.linking rest, copy⟩) :
    ∃ linked, ((rest.map fun _ ↦ (i, CaseMove.copyFile true)).foldl
          (step (runCaseStep repo)) config).locals i = ⟨.linking [], linked⟩ ∧
      ((rest.map fun _ ↦ (i, CaseMove.copyFile true)).foldl
          (step (runCaseStep repo)) config).shared = config.shared ∧
      (∀ path number, (path, number) ∈ rest → linked.inode path = some (.shared number)) ∧
      ∀ path, path ∉ rest.map Prod.fst → linked.inode path = copy.inode path := by
  induction rest generalizing config copy with
  | nil =>
    refine ⟨copy, hlocal, rfl, ?_, fun _ _ ↦ rfl⟩
    intro path number hmem
    exact absurd hmem List.not_mem_nil
  | cons entry rest ih =>
    obtain ⟨path, number⟩ := entry
    rw [List.map_cons, List.nodup_cons] at hnodup
    have hnext : (step (runCaseStep repo) config (i, .copyFile true)).locals i =
        ⟨.linking rest, copy.link path number⟩ := by
      rw [step_locals_self, hlocal]
      rfl
    have hshared : (step (runCaseStep repo) config (i, .copyFile true)).shared = config.shared := by
      rw [step_shared, hlocal]
      rfl
    obtain ⟨linked, hlinked, hcontents, hnew, hold⟩ := ih hnodup.2 hnext
    refine ⟨linked, hlinked, hcontents.trans hshared, ?_, ?_⟩
    · intro name found hmem
      rcases List.mem_cons.mp hmem with hhead | htail
      · obtain ⟨rfl, rfl⟩ := Prod.mk.inj hhead
        rw [hold name hnodup.1, RepoCopy.link_self]
      · exact hnew name found htail
    · intro name hname
      rw [List.map_cons, List.mem_cons, not_or] at hname
      rw [hold name hname.2, RepoCopy.link_of_ne hname.1]

/-- In a repository with a managed config, a worker that links it comes to open it. -/
theorem exists_opensLinkedConfig (hmanaged : repo.HoldsManagedConfig) (i : ι) :
    ∃ moves : List (ι × CaseMove), OpensLinkedConfig repo
      (moves.foldl (step (runCaseStep repo)) (repo.start ι)) (i, .advance []) := by
  obtain ⟨number, hmem, hmarker⟩ := hmanaged
  have hstart : (repo.start ι).locals i = ⟨.linking repo.files, fun _ ↦ none, 0⟩ := rfl
  obtain ⟨linked, hlinked, hcontents, hnew, -⟩ := linkAll_spec repo i repo.nodup_files hstart
  have hconfig := hnew _ number hmem
  set afterLinks := (repo.files.map fun _ ↦ (i, CaseMove.copyFile true)).foldl
    (step (runCaseStep repo)) (repo.start ι)
  have hdone : (step (runCaseStep repo) afterLinks (i, .advance [])).locals i =
      ⟨.linked, linked⟩ := by
    rw [step_locals_self, hlinked]
    rfl
  have hshared : (step (runCaseStep repo) afterLinks (i, .advance [])).shared =
      (repo.start ι).shared := by
    rw [step_shared, hlinked]
    exact hcontents
  have hfound : HoldsMarker
      ((step (runCaseStep repo) afterLinks (i, .advance [])).shared (.shared number)) := by
    rw [hshared]
    exact hmarker
  obtain ⟨text, htext⟩ := readManagedCargoConfig_of_marker hconfig hfound
  refine ⟨(repo.files.map fun _ ↦ (i, CaseMove.copyFile true)) ++
    [(i, .advance []), (i, .advance [])], [], some text, linked, number, rfl, ?_, hconfig⟩
  rw [List.foldl_append, List.foldl_cons, List.foldl_cons, List.foldl_nil, step_locals_self, hdone,
    ← htext]
  rfl

/-- The workers are isolated from each other in every run exactly when the shared repository holds
no managed cargo config. -/
theorem workers_isolated_iff [Inhabited ι] (repo : SharedRepo) :
    (∀ moves, Along (step (runCaseStep repo)) (Isolated repo) (repo.start ι) moves) ↔
      ¬repo.HoldsManagedConfig := by
  constructor
  · intro hisolated hmanaged
    obtain ⟨moves, hopens⟩ := exists_opensLinkedConfig hmanaged (default : ι)
    have hown := (along_isolated_iff _).mp (hisolated (moves ++ [(default, CaseMove.advance [])]))
    exact hown.last hopens
  · intro hfree moves
    rw [along_isolated_iff]
    exact along_of_invariant (fun _ _ hsound ↦ hsound.next (hsound.not_opensLinkedConfig hfree _))
      (fun _ _ hsound ↦ hsound.not_opensLinkedConfig hfree _) soundWorkers_start moves

/-- A repository whose only file is a managed config. -/
def managedRepo : SharedRepo where
  workspaceSubdir := "os/arceos"
  files := [("os/arceos/.cargo/config.toml", 0)]
  contents := fun _ ↦ managedCargoMarker.toUTF8
  nodup_files := by decide

/-- Two workers on it are not isolated. -/
theorem managedRepo_not_isolated :
    ¬∀ moves : List (Fin 2 × CaseMove),
      Along (step (runCaseStep managedRepo)) (Isolated managedRepo) (managedRepo.start (Fin 2))
        moves := by
  intro hisolated
  have hmanaged : managedRepo.HoldsManagedConfig :=
    ⟨0, List.mem_singleton_self _, managedCargoMarker.toList, by decide +kernel, List.infix_rfl⟩
  obtain ⟨moves, hopens⟩ := exists_opensLinkedConfig hmanaged (0 : Fin 2)
  have hown := (along_isolated_iff _).mp (hisolated (moves ++ [(0, CaseMove.advance [])]))
  exact hown.last hopens

end Moves

end SyzAbi.Targets

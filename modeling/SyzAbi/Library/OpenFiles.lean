import Mathlib.Data.List.Basic
import Mathlib.Logic.Function.Basic

/-!
# Descriptors and open files

The part of an operating system that a process writes its files through: a table of descriptors with
lowest-free allocation, open file descriptions, which duplicated descriptors share, files, and their
names. `Attached kernel fd file` says that a descriptor is open for appending to a file. Every
operation that leaves the descriptor, and what it is attached to, alone keeps this, and the contents
of the file with it.
-/

set_option autoImplicit false
set_option relaxedAutoImplicit false

namespace SyzAbi.Library.OpenFiles

/-! ### Descriptor tables -/

/-- The open file description of each descriptor. -/
abbrev Table := List (Option ℕ)

/-- The description of a descriptor; closed descriptors have none. -/
def Table.get (table : Table) (fd : ℕ) : Option ℕ := table[fd]?.join

/-- The lowest free descriptor that is not below `least`. -/
def Table.lowestFree (table : Table) (least : ℕ) : ℕ :=
  least + (table.drop least).findIdx Option.isNone

/-- The table in which a descriptor has a given entry. -/
def Table.assign (table : Table) (fd : ℕ) (entry : Option ℕ) : Table :=
  (table ++ List.replicate (fd + 1 - table.length) none).set fd entry

/-- The table without the descriptors from `first` to `last`. -/
def Table.clear (table : Table) (first last : ℕ) : Table :=
  table.mapIdx fun fd entry ↦ if first ≤ fd ∧ fd ≤ last then none else entry

theorem Table.get_clear {fd first last : ℕ} (table : Table) (hfd : ¬(first ≤ fd ∧ fd ≤ last)) :
    (table.clear first last).get fd = table.get fd := by
  rw [get, get, clear, List.getElem?_mapIdx]
  simp only [if_neg hfd, Option.map_id_fun']
  rfl

theorem Table.get_assign (table : Table) (fd other : ℕ) (entry : Option ℕ) :
    (table.assign fd entry).get other = if other = fd then entry else table.get other := by
  rw [get, get, assign, List.getElem?_set]
  by_cases hother : fd = other
  · subst hother
    rw [if_pos rfl, if_pos (by simp; omega), if_pos rfl]
    rfl
  · rw [if_neg hother, if_neg (Ne.symm hother), List.getElem?_append]
    split_ifs with hlt
    · rfl
    · rw [List.getElem?_eq_none (Nat.not_lt.mp hlt), List.getElem?_replicate]
      split_ifs <;> rfl

theorem Table.get_lowestFree (table : Table) (least : ℕ) :
    table.get (table.lowestFree least) = none := by
  rw [get, lowestFree, ← List.getElem?_drop]
  rcases Nat.lt_or_ge ((table.drop least).findIdx Option.isNone) (table.drop least).length with
    hlt | hge
  · have hfree := List.findIdx_getElem (w := hlt)
    rw [List.getElem?_eq_getElem hlt, Option.isNone_iff_eq_none.mp hfree]
    rfl
  · rw [List.getElem?_eq_none hge]
    rfl

/-- A new descriptor is none of the open ones. -/
theorem Table.ne_lowestFree {table : Table} {fd description : ℕ} (least : ℕ)
    (hget : table.get fd = some description) : fd ≠ table.lowestFree least := by
  rintro rfl
  rw [get_lowestFree] at hget
  exact Option.some_ne_none _ hget.symm

/-- A free descriptor is not below the lowest one. -/
theorem Table.lowestFree_le {table : Table} {fd : ℕ} (hfree : table.get fd = none) :
    table.lowestFree 0 ≤ fd := by
  rw [lowestFree, List.drop_zero, Nat.zero_add]
  by_contra hge
  have hlt : fd < table.findIdx Option.isNone := Nat.not_le.mp hge
  have hopen := List.not_of_lt_findIdx hlt
  rw [get, List.getElem?_eq_getElem (Nat.lt_of_lt_of_le hlt List.findIdx_le_length),
    Option.join_some] at hfree
  rw [hfree] at hopen
  cases hopen

/-! ### Kernels -/

/-- An open file description. -/
structure Description where
  file : ℕ
  writable : Bool
  append : Bool
  offset : ℕ
  deriving DecidableEq

/-- The description with another offset. -/
def Description.moveTo (description : Description) (offset : ℕ) : Description :=
  { description with offset := offset }

/-- The flags of `open`. -/
structure OpenFlags where
  writable : Bool
  create : Bool := false
  exclusive : Bool := false
  truncate : Bool := false
  append : Bool := false
  deriving DecidableEq

/-- The state of the operating system. A name names a file that exists. -/
structure Kernel (Path Byte : Type) where
  descriptors : Table
  descriptions : List Description
  files : List (List Byte)
  names : Path → Option ℕ
  names_lt : ∀ path file, names path = some file → file < files.length

variable {Path Byte : Type}

namespace Kernel

/-- The contents of a file. -/
def contents (kernel : Kernel Path Byte) (file : ℕ) : List Byte := kernel.files[file]?.getD []

/-- What a descriptor refers to: the number of its description, and the description. -/
def descriptionAt (kernel : Kernel Path Byte) (fd : ℕ) : Option (ℕ × Description) :=
  (kernel.descriptors.get fd).bind fun id ↦
    kernel.descriptions[id]?.map fun description ↦ (id, description)

/-- The file behind a descriptor. -/
def fileOf (kernel : Kernel Path Byte) (fd : ℕ) : Option ℕ :=
  (kernel.descriptionAt fd).map fun entry ↦ entry.2.file

/-! ### Operations -/

/-- Change the contents of a file. -/
def alterFile (kernel : Kernel Path Byte) (file : ℕ) (update : List Byte → List Byte) :
    Kernel Path Byte :=
  { kernel with
    files := kernel.files.modify file update
    names_lt := by simpa only [List.length_modify] using kernel.names_lt }

/-- Change an open file description. -/
def alterDescription (kernel : Kernel Path Byte) (id : ℕ) (update : Description → Description) :
    Kernel Path Byte :=
  { kernel with descriptions := kernel.descriptions.modify id update }

/-- Move the offset of an open file description. -/
def moveDescription (kernel : Kernel Path Byte) (id offset : ℕ) : Kernel Path Byte :=
  kernel.alterDescription id fun description ↦ description.moveTo offset

/-- A new empty file without a name. -/
def addFile (kernel : Kernel Path Byte) : Kernel Path Byte :=
  { kernel with
    files := kernel.files ++ [[]]
    names_lt := fun path file hname ↦ by
      rw [List.length_append]
      exact Nat.lt_add_right _ (kernel.names_lt path file hname) }

/-- Give and take names. A name cannot be given to a file that does not exist. -/
def relink (kernel : Kernel Path Byte) (names : Path → Option ℕ) : Kernel Path Byte :=
  { kernel with
    names := fun path ↦ (names path).filter fun file ↦ file < kernel.files.length
    names_lt := fun path file hname ↦ by
      obtain ⟨-, hlt⟩ := Option.filter_eq_some_iff.mp hname
      exact of_decide_eq_true hlt }

/-- A new description under the lowest free descriptor. -/
def install (kernel : Kernel Path Byte) (description : Description) : Kernel Path Byte :=
  { kernel with
    descriptors := kernel.descriptors.assign (kernel.descriptors.lowestFree 0)
      (some kernel.descriptions.length)
    descriptions := kernel.descriptions ++ [description] }

/-- Open a path; `none` when the flags do not allow it. -/
def openFile [DecidableEq Path] (kernel : Kernel Path Byte) (path : Path) (flags : OpenFlags) :
    Option (Kernel Path Byte) :=
  match kernel.names path with
  | some file =>
    if flags.create && flags.exclusive then none
    else
      let opened := if flags.truncate then kernel.alterFile file fun _ ↦ [] else kernel
      some (opened.install ⟨file, flags.writable, flags.append, 0⟩)
  | none =>
    if flags.create then
      let file := kernel.files.length
      let created := kernel.addFile.relink (Function.update kernel.names path (some file))
      some (created.install ⟨file, flags.writable, flags.append, 0⟩)
    else none

/-- Open new files without names, as `pipe`, `socket` and `eventfd` do. -/
def openAnonymous (kernel : Kernel Path Byte) : ℕ → Kernel Path Byte
  | 0 => kernel
  | count + 1 =>
    openAnonymous (kernel.addFile.install ⟨kernel.files.length, true, false, 0⟩) count

/-- Close a descriptor. -/
def close (kernel : Kernel Path Byte) (fd : ℕ) : Kernel Path Byte :=
  { kernel with descriptors := kernel.descriptors.assign fd none }

/-- Close the descriptors from `first` to `last`. -/
def closeRange (kernel : Kernel Path Byte) (first last : ℕ) : Kernel Path Byte :=
  { kernel with descriptors := kernel.descriptors.clear first last }

/-- Duplicate a descriptor under the lowest free one that is not below `least`. -/
def duplicate (kernel : Kernel Path Byte) (fd least : ℕ) : Kernel Path Byte :=
  match kernel.descriptors.get fd with
  | none => kernel
  | some id =>
    { kernel with
      descriptors := kernel.descriptors.assign (kernel.descriptors.lowestFree least) (some id) }

/-- Duplicate a descriptor under a given one, which is closed first. -/
def duplicateTo (kernel : Kernel Path Byte) (fd target : ℕ) : Kernel Path Byte :=
  match kernel.descriptors.get fd with
  | none => kernel
  | some id => { kernel with descriptors := kernel.descriptors.assign target (some id) }

/-- The contents after a write at an offset; a hole is filled up. -/
def overwrite [Inhabited Byte] (contents : List Byte) (offset : ℕ) (bytes : List Byte) :
    List Byte :=
  (contents ++ List.replicate (offset - contents.length) default).take offset ++ bytes ++
    contents.drop (offset + bytes.length)

/-- Where a write through a description starts. -/
def writeOffset (kernel : Kernel Path Byte) (description : Description) : ℕ :=
  if description.append then (kernel.contents description.file).length else description.offset

/-- Put bytes into the file of a description, and go on behind them. -/
def store [Inhabited Byte] (kernel : Kernel Path Byte) (id : ℕ) (description : Description)
    (bytes : List Byte) : Kernel Path Byte :=
  (kernel.moveDescription id (kernel.writeOffset description + bytes.length)).alterFile
    description.file fun contents ↦ overwrite contents (kernel.writeOffset description) bytes

/-- Write through a descriptor. The second part is the number of bytes that were written, and 0 for
an error. -/
def write [Inhabited Byte] (kernel : Kernel Path Byte) (accepted : ℕ → ℕ) (fd : ℕ)
    (bytes : List Byte) : Kernel Path Byte × ℕ :=
  match kernel.descriptionAt fd with
  | none => (kernel, 0)
  | some (id, description) =>
    if description.writable then
      (kernel.store id description (bytes.take (accepted bytes.length)), accepted bytes.length)
    else (kernel, 0)

variable {kernel next : Kernel Path Byte}

theorem descriptionAt_eq_some_iff {fd id : ℕ} {description : Description} :
    kernel.descriptionAt fd = some (id, description) ↔
      kernel.descriptors.get fd = some id ∧ kernel.descriptions[id]? = some description := by
  simp only [descriptionAt, Option.bind_eq_some_iff, Option.map_eq_some_iff, Prod.mk.injEq]
  constructor
  · rintro ⟨_, hget, _, hdescription, rfl, rfl⟩
    exact ⟨hget, hdescription⟩
  · rintro ⟨hget, hdescription⟩
    exact ⟨id, hget, description, hdescription, rfl, rfl⟩

/-! ### Attached descriptors -/

/-- The descriptor is open for appending to the file. -/
def Attached (kernel : Kernel Path Byte) (fd file : ℕ) : Prop :=
  file < kernel.files.length ∧ ∃ id description,
    kernel.descriptors.get fd = some id ∧ kernel.descriptions[id]? = some description ∧
      description.file = file ∧ description.writable = true ∧ description.append = true

/-- If the descriptor was attached to the file, then it still is, and the file has the contents it
had. -/
def Preserves (fd file : ℕ) (kernel next : Kernel Path Byte) : Prop :=
  kernel.Attached fd file → next.Attached fd file ∧ next.contents file = kernel.contents file

theorem Attached.fileOf {fd file : ℕ} (hattached : kernel.Attached fd file) :
    kernel.fileOf fd = some file := by
  obtain ⟨-, id, description, hget, hdescription, rfl, -, -⟩ := hattached
  rw [Kernel.fileOf, descriptionAt_eq_some_iff.mpr ⟨hget, hdescription⟩, Option.map_some]

section Frame

variable {fd file : ℕ}

theorem Preserves.refl (kernel : Kernel Path Byte) : Preserves fd file kernel kernel :=
  fun hattached ↦ ⟨hattached, rfl⟩

theorem Preserves.trans {last : Kernel Path Byte} (hfirst : Preserves fd file kernel next)
    (hlast : Preserves fd file next last) : Preserves fd file kernel last := by
  intro hattached
  obtain ⟨hnext, hcontents⟩ := hfirst hattached
  obtain ⟨hattached', hcontents'⟩ := hlast hnext
  exact ⟨hattached', hcontents'.trans hcontents⟩

theorem preserves_alterFile {other : ℕ} (hother : other ≠ file)
    (update : List Byte → List Byte) :
    Preserves fd file kernel (kernel.alterFile other update) := by
  rintro ⟨hlt, hdescription⟩
  refine ⟨⟨?_, hdescription⟩, ?_⟩
  · rwa [alterFile, List.length_modify]
  · rw [contents, contents, alterFile, List.getElem?_modify_ne update _ hother]

theorem preserves_alterDescription {id : ℕ} {update : Description → Description}
    (hupdate : ∀ description, kernel.descriptions[id]? = some description →
      description.file = file → (update description).file = description.file ∧
        (update description).writable = description.writable ∧
        (update description).append = description.append) :
    Preserves fd file kernel (kernel.alterDescription id update) := by
  rintro ⟨hlt, attached, description, hget, hdescription, hfile, hwritable, happend⟩
  refine ⟨⟨hlt, attached, if id = attached then update description else description, hget, ?_, ?_⟩,
    rfl⟩
  · rw [alterDescription, List.getElem?_modify, hdescription]
    rfl
  · split_ifs with hid
    · subst hid
      obtain ⟨hfile', hwritable', happend'⟩ := hupdate description hdescription hfile
      rw [hfile', hwritable', happend']
      exact ⟨hfile, hwritable, happend⟩
    · exact ⟨hfile, hwritable, happend⟩

theorem preserves_moveDescription (id offset : ℕ) :
    Preserves fd file kernel (kernel.moveDescription id offset) :=
  preserves_alterDescription fun _ _ _ ↦ ⟨rfl, rfl, rfl⟩

theorem preserves_addFile : Preserves fd file kernel kernel.addFile := by
  rintro ⟨hlt, hdescription⟩
  refine ⟨⟨?_, hdescription⟩, ?_⟩
  · rw [addFile, List.length_append]
    exact Nat.lt_add_right _ hlt
  · rw [contents, contents, addFile, List.getElem?_append_left hlt]

theorem preserves_relink (names : Path → Option ℕ) :
    Preserves fd file kernel (kernel.relink names) :=
  fun hattached ↦ ⟨hattached, rfl⟩

/-- A change of one entry of the table. -/
theorem preserves_assign {changed : ℕ} (hchanged : fd ≠ changed) (entry : Option ℕ) :
    Preserves fd file kernel
      { kernel with descriptors := kernel.descriptors.assign changed entry } := by
  rintro ⟨hlt, id, description, hget, hrest⟩
  refine ⟨⟨hlt, id, description, ?_, hrest⟩, rfl⟩
  rw [Table.get_assign, if_neg hchanged, hget]

theorem preserves_install (description : Description) :
    Preserves fd file kernel (kernel.install description) := by
  rintro ⟨hlt, id, attached, hget, hdescription, hrest⟩
  refine ⟨⟨hlt, id, attached, ?_, ?_, hrest⟩, rfl⟩
  · rw [install, Table.get_assign, if_neg (Table.ne_lowestFree 0 hget), hget]
  · rw [install, List.getElem?_append_left (List.getElem?_eq_some_iff.mp hdescription).1,
      hdescription]

theorem preserves_openFile [DecidableEq Path] {path : Path} {flags : OpenFlags}
    (hpath : kernel.names path ≠ some file) (hopen : kernel.openFile path flags = some next) :
    Preserves fd file kernel next := by
  rw [openFile] at hopen
  cases hname : kernel.names path with
  | some named =>
    rw [hname] at hopen hpath
    have hnamed : named ≠ file := fun heq ↦ hpath (congrArg some heq)
    dsimp only at hopen
    split_ifs at hopen with hexclusive htruncate
    · rw [← Option.some.inj hopen]
      exact (preserves_alterFile hnamed _).trans (preserves_install _)
    · rw [← Option.some.inj hopen]
      exact preserves_install _
  | none =>
    rw [hname] at hopen
    dsimp only at hopen
    split_ifs at hopen with hcreate
    rw [← Option.some.inj hopen]
    exact (preserves_addFile.trans (preserves_relink _)).trans (preserves_install _)

theorem preserves_openAnonymous (count : ℕ) :
    Preserves fd file kernel (kernel.openAnonymous count) := by
  induction count generalizing kernel with
  | zero => exact Preserves.refl kernel
  | succ count ih => exact (preserves_addFile.trans (preserves_install _)).trans ih

theorem preserves_close {closed : ℕ} (hclosed : fd ≠ closed) :
    Preserves fd file kernel (kernel.close closed) :=
  preserves_assign hclosed none

theorem preserves_closeRange {first last : ℕ} (hfd : ¬(first ≤ fd ∧ fd ≤ last)) :
    Preserves fd file kernel (kernel.closeRange first last) := by
  rintro ⟨hlt, id, description, hget, hrest⟩
  refine ⟨⟨hlt, id, description, ?_, hrest⟩, rfl⟩
  rw [closeRange, Table.get_clear _ hfd, hget]

theorem preserves_duplicate (source least : ℕ) :
    Preserves fd file kernel (kernel.duplicate source least) := by
  rw [duplicate]
  cases kernel.descriptors.get source with
  | none => exact Preserves.refl kernel
  | some id =>
    intro hattached
    have hne : fd ≠ kernel.descriptors.lowestFree least := by
      obtain ⟨_, _, _, hopen, _⟩ := hattached
      exact Table.ne_lowestFree least hopen
    exact preserves_assign hne (some id) hattached

theorem preserves_duplicateTo {target : ℕ} (htarget : fd ≠ target) (source : ℕ) :
    Preserves fd file kernel (kernel.duplicateTo source target) := by
  rw [duplicateTo]
  cases kernel.descriptors.get source with
  | none => exact Preserves.refl kernel
  | some id => exact preserves_assign htarget (some id)

end Frame

/-! ### Writes -/

theorem overwrite_length [Inhabited Byte] (contents bytes : List Byte) :
    overwrite contents contents.length bytes = contents ++ bytes := by
  rw [overwrite, Nat.sub_self, List.replicate_zero, List.append_nil, List.take_length,
    List.drop_eq_nil_of_le (Nat.le_add_right _ _), List.append_nil]

theorem preserves_write [Inhabited Byte] {fd file other : ℕ} (accepted : ℕ → ℕ)
    (bytes : List Byte) (hother : kernel.fileOf other ≠ some file) :
    Preserves fd file kernel (kernel.write accepted other bytes).1 := by
  rw [write]
  cases hat : kernel.descriptionAt other with
  | none => exact Preserves.refl kernel
  | some entry =>
    obtain ⟨id, description⟩ := entry
    have hfile : description.file ≠ file := by
      intro heq
      rw [fileOf, hat, Option.map_some, heq] at hother
      exact hother rfl
    by_cases hwritable : description.writable = true
    · simp only [hwritable, if_true]
      exact (preserves_moveDescription id _).trans (preserves_alterFile hfile _)
    · simp only [hwritable, Bool.false_eq_true, if_false]
      exact Preserves.refl kernel

/-- What a write through an attached descriptor stores is appended. -/
theorem Attached.store [Inhabited Byte] {fd id : ℕ} {description : Description}
    (hattached : kernel.Attached fd description.file)
    (happend : description.append = true) (bytes : List Byte) :
    (kernel.store id description bytes).Attached fd description.file ∧
      (kernel.store id description bytes).contents description.file =
        kernel.contents description.file ++ bytes := by
  have hmoved : Preserves fd description.file kernel
      (kernel.moveDescription id (kernel.writeOffset description + bytes.length)) :=
    preserves_moveDescription id _
  obtain ⟨⟨hlt, hopen⟩, -⟩ := hmoved hattached
  refine ⟨⟨lt_of_lt_of_eq hlt (List.length_modify _ _ _).symm, hopen⟩, ?_⟩
  have hcontents : kernel.files[description.file]? = some (kernel.contents description.file) := by
    rw [contents, List.getElem?_eq_getElem hattached.1, Option.getD_some]
  rw [contents, Kernel.store, alterFile, moveDescription, alterDescription,
    List.getElem?_modify_eq, hcontents, Option.map_eq_map, Option.map_some, Option.getD_some,
    writeOffset, if_pos happend, overwrite_length]

/-- A write through an attached descriptor appends what is accepted. -/
theorem Attached.write [Inhabited Byte] {fd file : ℕ} (hattached : kernel.Attached fd file)
    (accepted : ℕ → ℕ) (bytes : List Byte) :
    ((kernel.write accepted fd bytes).1.Attached fd file ∧
      (kernel.write accepted fd bytes).1.contents file =
        kernel.contents file ++ bytes.take (accepted bytes.length)) ∧
      (kernel.write accepted fd bytes).2 = accepted bytes.length := by
  obtain ⟨id, description, hget, hdescription, rfl, hwritable, happend⟩ := hattached.2
  rw [Kernel.write, descriptionAt_eq_some_iff.mpr ⟨hget, hdescription⟩]
  simp only [hwritable, if_true]
  exact ⟨hattached.store happend _, trivial⟩

/-! ### Names -/

theorem names_write [Inhabited Byte] (accepted : ℕ → ℕ) (fd : ℕ) (bytes : List Byte) :
    (kernel.write accepted fd bytes).1.names = kernel.names := by
  rw [Kernel.write]
  cases kernel.descriptionAt fd with
  | none => rfl
  | some entry =>
    dsimp only
    split_ifs <;> rfl

theorem length_files_write [Inhabited Byte] (accepted : ℕ → ℕ) (fd : ℕ) (bytes : List Byte) :
    (kernel.write accepted fd bytes).1.files.length = kernel.files.length := by
  rw [Kernel.write]
  cases kernel.descriptionAt fd with
  | none => rfl
  | some entry =>
    dsimp only
    split_ifs
    · exact List.length_modify _ _ _
    · rfl

theorem names_openAnonymous (count : ℕ) : (kernel.openAnonymous count).names = kernel.names := by
  induction count generalizing kernel with
  | zero => rfl
  | succ count ih => exact ih

theorem length_files_openAnonymous (count : ℕ) :
    (kernel.openAnonymous count).files.length = kernel.files.length + count := by
  induction count generalizing kernel with
  | zero => rfl
  | succ count ih =>
    rw [openAnonymous, ih, install, addFile]
    simp only [List.length_append, List.length_singleton]
    omega

/-- A path keeps what it names when the new names agree with the old ones there. -/
theorem names_relink {names : Path → Option ℕ} {path : Path}
    (hkept : names path = kernel.names path) :
    (kernel.relink names).names path = kernel.names path := by
  show (names path).filter _ = _
  rw [hkept]
  cases hname : kernel.names path with
  | none => rfl
  | some file => exact Option.filter_some_pos (decide_eq_true (kernel.names_lt path file hname))

section Open

variable [DecidableEq Path] {path other : Path} {flags : OpenFlags}

/-- The file that an existing path names is opened. -/
theorem openFile_of_some {file : ℕ} (hname : kernel.names path = some file)
    (hopen : kernel.openFile path flags = some next) :
    next.names = kernel.names ∧ next.files.length = kernel.files.length := by
  rw [openFile, hname] at hopen
  dsimp only at hopen
  split_ifs at hopen with hexclusive htruncate
  · rw [← Option.some.inj hopen]
    exact ⟨rfl, List.length_modify _ _ _⟩
  · rw [← Option.some.inj hopen]
    exact ⟨rfl, rfl⟩

/-- A path that names nothing is created. -/
theorem openFile_of_none (hname : kernel.names path = none)
    (hopen : kernel.openFile path flags = some next) :
    next = (kernel.addFile.relink (Function.update kernel.names path
      (some kernel.files.length))).install
        ⟨kernel.files.length, flags.writable, flags.append, 0⟩ := by
  rw [openFile, hname] at hopen
  dsimp only at hopen
  split_ifs at hopen
  exact (Option.some.inj hopen).symm

theorem length_files_openFile (hopen : kernel.openFile path flags = some next) :
    next.files.length = kernel.files.length ∨
      next.files.length = kernel.files.length + 1 ∧ kernel.names path = none := by
  cases hname : kernel.names path with
  | some file => exact Or.inl (openFile_of_some hname hopen).2
  | none =>
    rw [openFile_of_none hname hopen]
    exact Or.inr ⟨List.length_append, rfl⟩

/-- Opening one path leaves the name of another one alone. -/
theorem names_openFile (hother : other ≠ path) (hopen : kernel.openFile path flags = some next) :
    next.names other = kernel.names other := by
  cases hname : kernel.names path with
  | some file => rw [(openFile_of_some hname hopen).1]
  | none =>
    rw [openFile_of_none hname hopen]
    have hkept : Function.update kernel.names path (some kernel.files.length) other =
        kernel.addFile.names other := Function.update_of_ne hother _ _
    exact names_relink hkept

/-- Creating a file for appending attaches the new descriptor to it. -/
theorem attached_openFile (hname : kernel.names path = none) :
    ∃ next, kernel.openFile path ⟨true, true, false, false, true⟩ = some next ∧
      next.Attached (kernel.descriptors.lowestFree 0) kernel.files.length ∧
      next.contents kernel.files.length = [] ∧
      next.names path = some kernel.files.length := by
  have hlength : kernel.addFile.files.length = kernel.files.length + 1 := List.length_append
  refine ⟨_, by rw [openFile, hname]; rfl, ⟨?_, ?_⟩, ?_, ?_⟩
  · exact lt_of_lt_of_eq (Nat.lt_succ_self _) hlength.symm
  · refine ⟨kernel.descriptions.length, ⟨kernel.files.length, true, true, 0⟩, ?_, ?_, rfl, rfl, rfl⟩
    · exact (Table.get_assign _ _ _ _).trans (if_pos rfl)
    · exact List.getElem?_concat_length
  · show (kernel.files ++ [[]])[kernel.files.length]?.getD [] = []
    rw [List.getElem?_concat_length, Option.getD_some]
  · show Option.filter _ (Function.update kernel.names path _ path) = _
    rw [Function.update_self]
    exact Option.filter_some_pos (decide_eq_true (lt_of_lt_of_eq (Nat.lt_succ_self _) hlength.symm))

end Open

end Kernel

end SyzAbi.Library.OpenFiles

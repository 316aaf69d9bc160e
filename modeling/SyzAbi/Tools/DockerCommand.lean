import SyzAbi.Agent.EventDecoding
import SyzAbi.Library.ShellBytes
import SyzAbi.Library.Utf8Decode
import SyzAbi.Tools.CleanupPaths

/-!
# The command of the container

What `cleanup_paths` (`tools/cleanup_repo_processes.py`) may not remove itself is removed by the
shell of a container, where the repository is mounted at `/workspace`: `docker_remove_paths` makes
one `rm -rf` of all paths, each quoted.

The names of the files are not under the control of the program. Whatever Unicode text they are,
the shell reads the one command, no name is read as an option, and through the mount its operands
are the paths that were left to the container (`dockerCommand_removes_pending`). `cleanup_paths`
leaves resolved paths to it, which are removed as they stand (`removed_of_resolved`).
-/

set_option autoImplicit false
set_option relaxedAutoImplicit false

namespace SyzAbi.Tools.Cleanup

open Analyzer Agent Library Library.FileTree Library.Shell Orchestrator

/-! ### The command -/

/-- `str(Path('/workspace') / relative_path)`. -/
def containerPath (relative : Path) : String :=
  String.ofList (['/'].intercalate ([] :: "workspace".toList :: relative.map String.toList))

def removeWord : List ℕ := PyStr.ofString "rm"

def forceWord : List ℕ := PyStr.ofString "-rf"

/-- The last argument of `docker run`. -/
def dockerCommand (relativePaths : List Path) : PyStr :=
  removeWord ++ 32 :: forceWord ++ 32 ::
    spaced (relativePaths.map fun path ↦ quote (PyStr.ofString (containerPath path)))

/-- The path that the container removes for an operand, as the host sees it. -/
def seenThroughMount (repoRoot : Path) (operand : List ℕ) : Path :=
  repoRoot ++ (pathParts (pyText (Utf8.decode operand))).tail

/-- A name of a file, when it is Unicode text. -/
def IsFileName (name : String) : Prop := IsPathName name ∧ '\x00' ∉ name.toList

/-! ### Operands -/

theorem toList_containerPath (relative : Path) : (containerPath relative).toList =
    ['/'].intercalate ([] :: "workspace".toList :: relative.map String.toList) := by
  rw [containerPath, String.toList_ofList]

theorem pathParts_containerPath {relative : Path} (hnames : ∀ part ∈ relative, IsFileName part) :
    pathParts (containerPath relative) = "workspace" :: relative := by
  have hsplit : (containerPath relative).toList.splitOn '/' =
      [] :: "workspace".toList :: relative.map String.toList := by
    rw [toList_containerPath, List.splitOn_intercalate]
    · simp only [List.mem_cons, List.mem_map, forall_eq_or_imp]
      refine ⟨List.not_mem_nil, by decide, ?_⟩
      rintro _ ⟨part, hpart, rfl⟩
      exact (hnames part hpart).1.2.2
    · exact List.cons_ne_nil _ _
  have hlists : (relative.map String.toList).map String.ofList = relative := by
    rw [List.map_map]
    exact (List.map_congr_left fun part _ ↦ String.ofList_toList).trans (List.map_id relative)
  rw [pathParts, hsplit, List.map_cons, List.map_cons, hlists, String.ofList_toList]
  rw [List.filter_cons_of_neg (by decide), List.filter_cons_of_pos (by decide),
    List.filter_eq_self.mpr]
  intro part hpart
  obtain ⟨⟨hempty, hdot, -⟩, -⟩ := hnames part hpart
  exact decide_eq_true ⟨hempty, hdot⟩

theorem notMem_intercalate {c : Char} (hc : c ≠ '/') {parts : List (List Char)}
    (hparts : ∀ part ∈ parts, c ∉ part) : c ∉ ['/'].intercalate parts := by
  induction parts with
  | nil => exact List.not_mem_nil
  | cons part rest ih =>
    obtain ⟨hpart, hrest⟩ := List.forall_mem_cons.mp hparts
    cases rest with
    | nil => rwa [List.intercalate_singleton]
    | cons next rest =>
      rw [List.intercalate_cons_cons, List.mem_append, List.mem_append, not_or, not_or,
        List.mem_singleton]
      exact ⟨⟨hpart, hc⟩, ih hrest⟩

theorem zero_notMem_containerPath {relative : Path} (hnames : ∀ part ∈ relative, IsFileName part) :
    0 ∉ PyStr.ofString (containerPath relative) := by
  intro hzero
  obtain ⟨c, hc, hvalue⟩ := List.mem_map.mp hzero
  have hnul : c = '\x00' := Char.toNat_inj.mp (hvalue.trans (by decide))
  subst hnul
  rw [toList_containerPath] at hc
  refine notMem_intercalate (by decide) ?_ hc
  simp only [List.mem_cons, List.mem_map, forall_eq_or_imp]
  refine ⟨List.not_mem_nil, by decide, ?_⟩
  rintro _ ⟨part, hpart, rfl⟩
  exact (hnames part hpart).2

/-- Every operand starts at the root, so it is no option. -/
theorem head_containerPath (relative : Path) :
    (Utf8.encode (PyStr.ofString (containerPath relative))).head? = some 47 := by
  have hhead : ∃ rest, (containerPath relative).toList = '/' :: rest := by
    rw [toList_containerPath, List.intercalate_cons_cons]
    exact ⟨_, rfl⟩
  obtain ⟨rest, hrest⟩ := hhead
  rw [PyStr.ofString, hrest, List.map_cons, Utf8.encode_cons]
  rfl

theorem seenThroughMount_containerPath (repoRoot : Path) {relative : Path}
    (hnames : ∀ part ∈ relative, IsFileName part) :
    seenThroughMount repoRoot (Utf8.encode (PyStr.ofString (containerPath relative))) =
      repoRoot ++ relative := by
  rw [seenThroughMount, Utf8.decode_encode isValidChar_of_mem_ofString, pyText_ofString,
    pathParts_containerPath hnames]
  rfl

/-! ### The command read -/

/-- The operands in bytes. -/
def operandBytes (relativePaths : List Path) : List (List ℕ) :=
  relativePaths.map fun path ↦ Utf8.encode (PyStr.ofString (containerPath path))

theorem encode_dockerCommand {relativePaths : List Path} (hpaths : relativePaths ≠ []) :
    Utf8.encode (dockerCommand relativePaths) =
      spaced (removeWord :: forceWord :: (operandBytes relativePaths).map quote) := by
  obtain ⟨path, rest, rfl⟩ := List.exists_cons_of_ne_nil hpaths
  have hwords : dockerCommand (path :: rest) = spaced (removeWord :: forceWord ::
      (path :: rest).map fun path ↦ quote (PyStr.ofString (containerPath path))) := rfl
  rw [hwords, encode_spaced, List.map_cons, List.map_cons, Utf8.encode_ascii (by decide),
    Utf8.encode_ascii (by decide), operandBytes, List.map_map, List.map_map]
  congr 3
  exact List.map_congr_left fun path _ ↦ encode_quote isValidChar_of_mem_ofString

/-- The shell reads one `rm -rf` with an operand for each path. -/
theorem read_dockerCommand {relativePaths : List Path} (hpaths : relativePaths ≠ [])
    (hnames : ∀ path ∈ relativePaths, ∀ part ∈ path, IsFileName part) :
    ∃ words, read (Utf8.encode (dockerCommand relativePaths)) = some [words] ∧
      commandOf words = ⟨[], removeWord :: forceWord :: operandBytes relativePaths⟩ := by
  have hoperands : List.Forall₂ IsWord ((operandBytes relativePaths).map quote)
      ((operandBytes relativePaths).map fun operand ↦ marked (needsMarks operand) operand) := by
    rw [List.forall₂_map_left_iff, List.forall₂_map_right_iff, List.forall₂_same]
    intro operand hoperand
    obtain ⟨path, hpath, rfl⟩ := List.mem_map.mp hoperand
    exact isWord_quote (zero_notMem_encode isValidChar_of_mem_ofString
      (zero_notMem_containerPath (hnames path hpath)))
  have hremove : IsWord removeWord (marked false removeWord) := isWord_plain (by decide)
  have hforce : IsWord forceWord (marked false forceWord) := isWord_plain (by decide)
  refine ⟨_, encode_dockerCommand hpaths ▸
    read_spaced (List.cons_ne_nil _ _) (.cons hremove (.cons hforce hoperands)), ?_⟩
  have htexts : ((operandBytes relativePaths).map fun operand ↦
      marked (needsMarks operand) operand).map Word.text = operandBytes relativePaths := by
    rw [List.map_map]
    exact (List.map_congr_left fun operand _ ↦ text_marked _ operand).trans (List.map_id _)
  rw [commandOf_of_none (by decide), List.map_cons, List.map_cons, htexts, text_marked, text_marked]

variable {host : Host} {files : Disk String} {repoRoot : Path} {paths relativePaths : List Path}

/-- Resolved paths below a resolved root are left to the container as they stand. -/
theorem removed_of_resolved {image : String}
    (himage : host.loadAsterinasDockerImage files = .ok (some image))
    (hroot : resolvePath files repoRoot = .ok repoRoot)
    (hpaths : ∀ path ∈ paths, resolvePath files path = .ok path ∧ repoRoot <+: path) :
    (dockerRemovePaths host files repoRoot paths).removed = paths := by
  have hrelative : (paths.mapM fun path ↦ do
      relativeTo (← resolvePath files repoRoot) (← resolvePath files path)) =
        .ok (paths.map (List.drop repoRoot.length)) := by
    rw [Library.Fallible.mapM_eq_ok_iff, List.forall₂_map_right_iff, List.forall₂_same]
    intro path hpath
    obtain ⟨hresolved, hbelow⟩ := hpaths path hpath
    rw [hroot, hresolved]
    exact if_pos hbelow
  have hrejoined : ∀ path ∈ paths, repoRoot ++ path.drop repoRoot.length = path := by
    intro path hpath
    obtain ⟨rest, rfl⟩ := (hpaths path hpath).2
    rw [List.drop_left]
  rw [dockerRemovePaths, himage]
  simp only [hrelative, List.map_map]
  exact (List.map_congr_left hrejoined).trans (List.map_id _)

/-- What the container removes, seen from outside, is what was left to it. -/
theorem dockerCommand_removes_pending {image : String} (hpaths : paths ≠ [])
    (himage : host.loadAsterinasDockerImage files = .ok (some image))
    (hrelative : (paths.mapM fun path ↦ do
      relativeTo (← resolvePath files repoRoot) (← resolvePath files path)) = .ok relativePaths)
    (hnames : ∀ path ∈ relativePaths, ∀ part ∈ path, IsFileName part) :
    ∃ words operands, read (Utf8.encode (dockerCommand relativePaths)) = some [words] ∧
      commandOf words = ⟨[], removeWord :: forceWord :: operands⟩ ∧
      (∀ operand ∈ operands, operand.head? = some 47) ∧
      operands.map (seenThroughMount repoRoot) =
        (dockerRemovePaths host files repoRoot paths).removed := by
  have hlength : relativePaths ≠ [] := by
    rintro rfl
    rw [Library.Fallible.mapM_eq_ok_iff, List.forall₂_nil_right_iff] at hrelative
    exact hpaths hrelative
  obtain ⟨words, hread, hcommand⟩ := read_dockerCommand hlength hnames
  refine ⟨words, _, hread, hcommand, ?_, ?_⟩
  · intro operand hoperand
    obtain ⟨path, -, rfl⟩ := List.mem_map.mp hoperand
    exact head_containerPath path
  · rw [dockerRemovePaths, himage]
    simp only [hrelative, operandBytes, List.map_map]
    exact List.map_congr_left fun path hpath ↦
      seenThroughMount_containerPath repoRoot (hnames path hpath)

/-- A system with an image, and a repository with a file whose name looks like a command. -/
def imageHost : Host where
  unlink files _ := (.error .permission, files)
  rmtree files _ := (.error .permission, files)
  docker files _ := (.ok (), files)
  defaultCleanupTargets _ := .ok []
  loadAsterinasDockerImage _ := .ok (some "asterinas/asterinas")
  unlink_shrinks _ _ := .refl _ _
  rmtree_shrinks _ _ := .refl _ _
  docker_shrinks _ _ := .refl _ _

def oddFiles : Disk String :=
  ⟨[(["repo"], .directory), (["repo", "it's; rm -rf $HOME"], .file)]⟩

theorem dockerCommand_removes_oddName :
    ∃ words operands, read (Utf8.encode (dockerCommand [["it's; rm -rf $HOME"]])) = some [words] ∧
      commandOf words = ⟨[], removeWord :: forceWord :: operands⟩ ∧
      (∀ operand ∈ operands, operand.head? = some 47) ∧
      operands.map (seenThroughMount ["repo"]) =
        (dockerRemovePaths imageHost oddFiles ["repo"] [["repo", "it's; rm -rf $HOME"]]).removed :=
  dockerCommand_removes_pending (List.cons_ne_nil _ _) rfl (by decide +kernel) (by
    simp only [List.forall_mem_singleton]
    exact ⟨⟨by decide, by decide, by decide⟩, by decide⟩)

end SyzAbi.Tools.Cleanup

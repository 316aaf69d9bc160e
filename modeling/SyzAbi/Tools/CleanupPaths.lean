import SyzAbi.Library.FileTree
import SyzAbi.Tools.RunDirectories

/-!
# Cleaning up

`cleanup_paths` (`tools/cleanup_repo_processes.py`) resolves one target after the other, refuses
what leaves the repository and removes the rest; what it may not remove is left to a container with
the repository mounted, at the end. The paths that are given to `unlink`, to `rmtree` and to the
container are recorded also when an exception ends the loop (`Effect`).

`relative_to` accepts the root itself. So the paths that are removed lie below the root exactly when
no target leads to the root when its turn comes (`cleanupPaths_staysBelow_iff`).

What the system removes when it is asked to is a parameter: some of what lies at or below the path.
The process may look up every path. The targets and the image of the configuration are parameters as
well.
-/

set_option autoImplicit false
set_option relaxedAutoImplicit false

namespace SyzAbi.Tools.Cleanup

open Orchestrator Library.FileTree Library.Fallible

abbrev Path := List String

/-! ### The system -/

/-- The exceptions of `unlink` and `rmtree`. -/
inductive OSError where
  | fileNotFound
  | permission
  | other (errno : ℕ)

/-- What `cleanup_paths` finds outside of itself. -/
structure Host where
  unlink : Disk String → Path → Except OSError Unit × Disk String
  rmtree : Disk String → Path → Except OSError Unit × Disk String
  /-- `rm -rf` in the container, with the error of `docker run`. -/
  docker : Disk String → List Path → Except PyError Unit × Disk String
  defaultCleanupTargets : Disk String → Except PyError (List String)
  loadAsterinasDockerImage : Disk String → Except PyError (Option String)
  unlink_shrinks : ∀ (files : Disk String) path, files.Shrinks (unlink files path).2 [path]
  rmtree_shrinks : ∀ (files : Disk String) path, files.Shrinks (rmtree files path).2 [path]
  docker_shrinks : ∀ (files : Disk String) paths, files.Shrinks (docker files paths).2 paths

/-- The file system and the working directory at the call. -/
structure Start where
  files : Disk String
  cwd : Path
  real : files.Real cwd

/-- What a part of the program did: the paths it set out to remove, the files then, and how it
ended. -/
structure Effect (α : Type) where
  removed : List Path
  files : Disk String
  result : Except PyError α

/-- Nothing is removed. -/
def Effect.of {α : Type} (files : Disk String) (result : Except PyError α) : Effect α :=
  ⟨[], files, result⟩

/-- The next part, which an exception leaves out. -/
def Effect.andThen {α β : Type} (effect : Effect α) (next : Disk String → α → Effect β) :
    Effect β :=
  match effect.result with
  | .error error => ⟨effect.removed, effect.files, .error error⟩
  | .ok value =>
    let after := next effect.files value
    { after with removed := effect.removed ++ after.removed }

/-! ### Paths -/

/-- `Path` of a text. -/
def pathText (text : String) : PathText String where
  absolute := text.toList.head? = some '/'
  steps := (pathParts text).map fun part ↦ if part = ".." then .up else .down part

/-- `(path / text).resolve()`. -/
def resolveText (files : Disk String) (path : Path) (text : String) : Except PyError Path :=
  if '\x00' ∈ text.toList then .error ⟨"ValueError", "embedded null byte"⟩
  else
    match files.resolve path ((pathText text).behind path) with
    | none => .error ⟨"RuntimeError", "Symlink loop"⟩
    | some resolved => .ok resolved

/-- `path.resolve()`. -/
def resolvePath (files : Disk String) (path : Path) : Except PyError Path :=
  match files.resolve [] (.ofPath path) with
  | none => .error ⟨"RuntimeError", "Symlink loop"⟩
  | some resolved => .ok resolved

/-- The entry at the end of a path, where links are followed. -/
def stat (files : Disk String) (path : Path) : Option (Node String) :=
  (files.resolve [] (.ofPath path)).bind files.node

/-- `path.is_symlink()`. -/
def isSymlink (files : Disk String) (path : Path) : Bool :=
  match files.node path with
  | some (.link _) => true
  | _ => false

/-- `path.relative_to(root)`. -/
def relativeTo (root path : Path) : Except PyError Path :=
  if root <+: path then .ok (path.drop root.length)
  else .error ⟨"ValueError", "not in the subpath"⟩

/-! ### The code -/

section Code

variable (host : Host)

/-- `remove_path`. -/
def removePath (files : Disk String) (path : Path) : Effect Bool :=
  if stat files path = none ∧ isSymlink files path = false then .of files (.ok true)
  else
    let outcome :=
      if isSymlink files path ∨ stat files path = some .file then host.unlink files path
      else host.rmtree files path
    ⟨[path], outcome.2,
      match outcome.1 with
      | .ok () => .ok true
      | .error .fileNotFound => .ok true
      | .error .permission => .ok false
      -- `errno.ENOTEMPTY`
      | .error (.other errno) => if errno = 39 then .ok false else .error ⟨"OSError", errno.repr⟩⟩

/-- `docker_remove_paths`. -/
def dockerRemovePaths (files : Disk String) (repoRoot : Path) (paths : List Path) : Effect Unit :=
  match host.loadAsterinasDockerImage files with
  | .error error => .of files (.error error)
  | .ok none => .of files (.error ⟨"RuntimeError",
      "permission-denied cleanup requires canonical or legacy Asterinas config with docker_image"⟩)
  | .ok (some _) =>
    match paths.mapM fun path ↦ do
        relativeTo (← resolvePath files repoRoot) (← resolvePath files path) with
    | .error error => .of files (.error error)
    | .ok relativePaths =>
      -- the repository is mounted at `/workspace`
      let operands := relativePaths.map (repoRoot ++ ·)
      let outcome := host.docker files operands
      ⟨operands, outcome.2, outcome.1⟩

/-- A turn of the loop of `cleanup_paths`, with the paths of `pending_docker_cleanup`. -/
def cleanupTarget (repoRoot : Path) (files : Disk String) (pending : List Path) (target : String) :
    Effect (List Path) :=
  match resolveText files repoRoot target with
  | .error error => .of files (.error error)
  | .ok path =>
    match relativeTo repoRoot path with
    | .error _ => .of files
        (.error ⟨"RuntimeError", "cleanup target escapes repo root: " ++ target⟩)
    | .ok _ =>
      (removePath host files path).andThen fun files removed ↦
        .of files (.ok (if removed then pending else pending ++ [path]))

/-- The loop of `cleanup_paths`. -/
def cleanupLoop (repoRoot : Path) (files : Disk String) (pending : List Path) :
    List String → Effect (List Path)
  | [] => .of files (.ok pending)
  | target :: rest =>
    (cleanupTarget host repoRoot files pending target).andThen fun files pending ↦
      cleanupLoop repoRoot files pending rest

/-- The targets of `cleanup_paths`. -/
def givenTargets (files : Disk String) (targets : List String) : Except PyError (List String) :=
  if targets = [] then host.defaultCleanupTargets files else .ok targets

/-- `cleanup_paths`. -/
def cleanupPaths (start : Start) (repoRoot : String) (targets : List String) : Effect Unit :=
  match givenTargets host start.files targets with
  | .error error => .of start.files (.error error)
  | .ok targets =>
    match resolveText start.files start.cwd repoRoot with
    | .error error => .of start.files (.error error)
    | .ok repoRoot =>
      (cleanupLoop host repoRoot start.files [] targets).andThen fun files pending ↦
        if pending = [] then .of files (.ok ()) else dockerRemovePaths host files repoRoot pending

end Code

/-! ### Effects -/

section Effects

variable {α β : Type} {effect : Effect α} {next : Disk String → α → Effect β}

theorem mem_removed_andThen {path : Path} : path ∈ (effect.andThen next).removed ↔
    path ∈ effect.removed ∨
      ∃ value, effect.result = .ok value ∧ path ∈ (next effect.files value).removed := by
  rw [Effect.andThen]
  cases hresult : effect.result with
  | error error =>
    constructor
    · exact .inl
    · rintro (hmem | ⟨value, ⟨⟩, -⟩)
      exact hmem
  | ok value =>
    rw [List.mem_append]
    constructor
    · exact Or.imp_right fun hmem ↦ ⟨value, rfl, hmem⟩
    · rintro (hmem | ⟨other, hother, hmem⟩)
      · exact .inl hmem
      · obtain rfl := Except.ok.inj hother
        exact .inr hmem

theorem andThen_of_ok {value : α} (hresult : effect.result = .ok value) :
    (effect.andThen next).files = (next effect.files value).files ∧
      (effect.andThen next).result = (next effect.files value).result := by
  rw [Effect.andThen, hresult]
  exact ⟨rfl, rfl⟩

theorem andThen_result_eq_ok_iff {value : β} : (effect.andThen next).result = .ok value ↔
    ∃ first, effect.result = .ok first ∧ (next effect.files first).result = .ok value := by
  rw [Effect.andThen]
  cases effect.result with
  | error error =>
    constructor
    · rintro ⟨⟩
    · rintro ⟨first, ⟨⟩, -⟩
  | ok first =>
    constructor
    · exact fun h ↦ ⟨first, rfl, h⟩
    · rintro ⟨other, hother, h⟩
      rwa [Except.ok.inj hother]

/-- Only what an effect records vanishes from the files. -/
def Effect.Sound (files : Disk String) (effect : Effect α) : Prop :=
  files.Shrinks effect.files effect.removed

theorem sound_of (files : Disk String) (result : Except PyError α) :
    (Effect.of files result).Sound files :=
  .refl files []

theorem Effect.Sound.andThen {files : Disk String} (hsound : effect.Sound files)
    (hnext : ∀ value, (next effect.files value).Sound effect.files) :
    (effect.andThen next).Sound files := by
  rw [Effect.andThen]
  cases effect.result with
  | error error => exact hsound
  | ok value => exact Disk.Shrinks.trans hsound (hnext value)

end Effects

/-! ### What is removed -/

section Removed

variable (host : Host)

theorem sound_removePath (files : Disk String) (path : Path) :
    (removePath host files path).Sound files := by
  rw [removePath]
  split
  · exact sound_of files _
  · dsimp only
    rw [Effect.Sound]
    split
    · exact host.unlink_shrinks files path
    · exact host.rmtree_shrinks files path

theorem sound_cleanupTarget (repoRoot : Path) (files : Disk String) (pending : List Path)
    (target : String) : (cleanupTarget host repoRoot files pending target).Sound files := by
  rw [cleanupTarget]
  split
  · exact sound_of files _
  · split
    · exact sound_of files _
    · exact (sound_removePath host files _).andThen fun _ ↦ sound_of _ _

theorem sound_cleanupLoop (repoRoot : Path) (files : Disk String) (pending : List Path)
    (targets : List String) : (cleanupLoop host repoRoot files pending targets).Sound files := by
  induction targets generalizing files pending with
  | nil => exact sound_of files _
  | cons target rest ih =>
    exact (sound_cleanupTarget host repoRoot files pending target).andThen fun _ ↦ ih _ _

theorem stat_of_real {files : Disk String} {path : Path} (hreal : files.Real path) :
    stat files path = files.node path := by
  rw [stat, Disk.resolve_of_real hreal]
  rfl

theorem isSymlink_of_real {files : Disk String} {path : Path} (hreal : files.Real path) :
    isSymlink files path = false := by
  rw [isSymlink]
  split
  · next target hlink => exact absurd hlink (hreal path List.prefix_rfl target)
  · rfl

/-- A resolved path is removed when it is there. -/
theorem removed_removePath {files : Disk String} {path : Path} (hreal : files.Real path) :
    (removePath host files path).removed = if files.node path = none then [] else [path] := by
  rw [removePath, stat_of_real hreal, isSymlink_of_real hreal]
  by_cases hnone : files.node path = none
  · rw [if_pos ⟨hnone, rfl⟩, if_pos hnone]
    rfl
  · rw [if_neg fun h ↦ hnone h.1, if_neg hnone]

/-- What cannot be removed has been tried. -/
theorem mem_removed_of_result {files : Disk String} {path : Path}
    (hresult : (removePath host files path).result = .ok false) :
    path ∈ (removePath host files path).removed := by
  rw [removePath] at hresult ⊢
  split at hresult
  · cases hresult
  · next hthere =>
    rw [if_neg hthere]
    exact List.mem_singleton_self path

theorem real_of_resolveText {files : Disk String} {path resolved : Path} {text : String}
    (hreal : files.Real path) (hresolve : resolveText files path text = .ok resolved) :
    files.Real resolved := by
  rw [resolveText] at hresolve
  split at hresolve
  · cases hresolve
  · split at hresolve
    · cases hresolve
    · next hsome =>
      rw [← Except.ok.inj hresolve]
      exact Disk.real_of_resolve hreal hsome

theorem relativeTo_eq_ok_iff {root path relative : Path} :
    relativeTo root path = .ok relative ↔ path = root ++ relative := by
  rw [relativeTo]
  split
  · next hprefix =>
    obtain ⟨rest, rfl⟩ := hprefix
    rw [List.drop_left, Except.ok.injEq, List.append_cancel_left_eq]
  · next hnot =>
    constructor
    · rintro ⟨⟩
    · rintro rfl
      exact absurd (List.prefix_append _ _) hnot

/-- A turn removes the path that its target leads to, when that is in the repository and there. -/
theorem mem_removed_cleanupTarget {repoRoot path : Path} {files : Disk String}
    (hreal : files.Real repoRoot) (pending : List Path) (target : String) :
    path ∈ (cleanupTarget host repoRoot files pending target).removed ↔
      resolveText files repoRoot target = .ok path ∧ repoRoot <+: path ∧
        files.node path ≠ none := by
  rw [cleanupTarget]
  cases hresolve : resolveText files repoRoot target with
  | error error =>
    exact iff_of_false List.not_mem_nil fun h ↦ by cases h.1
  | ok resolved =>
    dsimp only
    rw [Except.ok.injEq]
    cases hrelative : relativeTo repoRoot resolved with
    | error error =>
      refine iff_of_false List.not_mem_nil ?_
      rintro ⟨rfl, ⟨rest, hrest⟩, -⟩
      rw [relativeTo_eq_ok_iff.mpr hrest.symm] at hrelative
      cases hrelative
    | ok relative =>
      have hprefix : repoRoot <+: resolved := ⟨relative, (relativeTo_eq_ok_iff.mp hrelative).symm⟩
      have hremoved := removed_removePath host (real_of_resolveText hreal hresolve)
      dsimp only
      rw [mem_removed_andThen, hremoved]
      constructor
      · rintro (hmem | ⟨value, -, hmem⟩)
        · split at hmem
          · cases hmem
          · next hthere =>
            obtain rfl := List.mem_singleton.mp hmem
            exact ⟨rfl, hprefix, hthere⟩
        · cases hmem
      · rintro ⟨rfl, -, hthere⟩
        rw [if_neg hthere]
        exact .inl (List.mem_singleton_self _)

/-- The pending paths are resolved and among the paths that have been removed. -/
theorem cleanupTarget_pending {repoRoot : Path} {files : Disk String} (hreal : files.Real repoRoot)
    {pending after : List Path} {target : String}
    (hresult : (cleanupTarget host repoRoot files pending target).result = .ok after) :
    ∀ path ∈ after, path ∈ pending ∨
      (path ∈ (cleanupTarget host repoRoot files pending target).removed ∧ files.Real path) := by
  rw [cleanupTarget] at hresult ⊢
  cases hresolve : resolveText files repoRoot target with
  | error error =>
    rw [hresolve] at hresult
    cases hresult
  | ok resolved =>
    rw [hresolve] at hresult
    dsimp only at hresult ⊢
    cases hrelative : relativeTo repoRoot resolved with
    | error error =>
      rw [hrelative] at hresult
      cases hresult
    | ok relative =>
      rw [hrelative] at hresult
      dsimp only at hresult ⊢
      obtain ⟨removed, hremoved, hafter⟩ := andThen_result_eq_ok_iff.mp hresult
      obtain rfl := Except.ok.inj hafter
      intro path hpath
      cases removed with
      | true => exact .inl hpath
      | false =>
        rcases List.mem_append.mp hpath with hbefore | hlast
        · exact .inl hbefore
        · obtain rfl := List.mem_singleton.mp hlast
          exact .inr ⟨mem_removed_andThen.mpr (.inl (mem_removed_of_result host hremoved)),
            real_of_resolveText hreal hresolve⟩

/-- The loop removes what its turns remove. -/
theorem mem_removed_cleanupLoop {repoRoot path : Path} {files : Disk String}
    {pending : List Path} {targets : List String} :
    path ∈ (cleanupLoop host repoRoot files pending targets).removed ↔
      ∃ earlier target later before, targets = earlier ++ target :: later ∧
        (cleanupLoop host repoRoot files pending earlier).result = .ok before ∧
          path ∈ (cleanupTarget host repoRoot
            (cleanupLoop host repoRoot files pending earlier).files before target).removed := by
  induction targets generalizing files pending with
  | nil =>
    refine iff_of_false List.not_mem_nil ?_
    rintro ⟨earlier, target, later, before, hnil, -⟩
    exact List.append_ne_nil_of_right_ne_nil earlier (List.cons_ne_nil target later) hnil.symm
  | cons first rest ih =>
    rw [cleanupLoop, mem_removed_andThen]
    constructor
    · rintro (hfirst | ⟨after, hafter, hrest⟩)
      · exact ⟨[], first, rest, pending, rfl, rfl, hfirst⟩
      · obtain ⟨earlier, target, later, before, rfl, hbefore, hmem⟩ := ih.mp hrest
        have hloop := @andThen_of_ok _ _ (cleanupTarget host repoRoot files pending first)
          (fun files pending ↦ cleanupLoop host repoRoot files pending earlier) after hafter
        refine ⟨first :: earlier, target, later, before, rfl, ?_, ?_⟩
        · rw [cleanupLoop, hloop.2, hbefore]
        · rwa [cleanupLoop, hloop.1]
    · rintro ⟨earlier, target, later, before, htargets, hbefore, hmem⟩
      cases earlier with
      | nil =>
        obtain ⟨rfl, rfl⟩ := List.cons.inj htargets
        obtain rfl := Except.ok.inj hbefore
        exact .inl hmem
      | cons head earlier =>
        obtain ⟨rfl, rfl⟩ := List.cons.inj htargets
        rw [cleanupLoop] at hbefore hmem
        obtain ⟨after, hafter, hresult⟩ := andThen_result_eq_ok_iff.mp hbefore
        rw [(andThen_of_ok hafter).1] at hmem
        exact .inr ⟨after, hafter, ih.mpr ⟨earlier, target, later, before, rfl, hresult, hmem⟩⟩

/-- What is left to the container has been tried, and no links are on it. -/
theorem cleanupLoop_pending {repoRoot : Path} {files : Disk String} (hreal : files.Real repoRoot)
    {pending after : List Path} {targets : List String}
    (hpending : ∀ path ∈ pending, files.Real path)
    (hresult : (cleanupLoop host repoRoot files pending targets).result = .ok after) :
    ∀ path ∈ after, (path ∈ pending ∨
        path ∈ (cleanupLoop host repoRoot files pending targets).removed) ∧
      (cleanupLoop host repoRoot files pending targets).files.Real path := by
  induction targets generalizing files pending with
  | nil =>
    obtain rfl := Except.ok.inj hresult
    exact fun path hpath ↦ ⟨.inl hpath, hpending path hpath⟩
  | cons target rest ih =>
    rw [cleanupLoop] at hresult ⊢
    obtain ⟨next, hnext, hrest⟩ := andThen_result_eq_ok_iff.mp hresult
    have hshrinks := sound_cleanupTarget host repoRoot files pending target
    have hturn := cleanupTarget_pending host hreal hnext
    have hnextReal : ∀ path ∈ next,
        (cleanupTarget host repoRoot files pending target).files.Real path := by
      intro path hpath
      rcases hturn path hpath with hbefore | ⟨-, hpathReal⟩
      · exact (hpending path hbefore).of_shrinks hshrinks
      · exact hpathReal.of_shrinks hshrinks
    intro path hpath
    obtain ⟨hfrom, hpathReal⟩ := ih (hreal.of_shrinks hshrinks) hnextReal hrest path hpath
    rw [(andThen_of_ok hnext).1]
    refine ⟨?_, hpathReal⟩
    rcases hfrom with hbefore | hremoved
    · exact (hturn path hbefore).imp_right fun h ↦ mem_removed_andThen.mpr (.inl h.1)
    · exact .inr (mem_removed_andThen.mpr (.inr ⟨next, hnext, hremoved⟩))

theorem resolvePath_of_real {files : Disk String} {path : Path} (hreal : files.Real path) :
    resolvePath files path = .ok path := by
  rw [resolvePath, Disk.resolve_of_real hreal]

/-- The container removes the paths that are left to it. -/
theorem mem_of_mem_removed_docker {files : Disk String} {repoRoot path : Path} {paths : List Path}
    (hroot : files.Real repoRoot) (hreal : ∀ path ∈ paths, files.Real path)
    (hpath : path ∈ (dockerRemovePaths host files repoRoot paths).removed) : path ∈ paths := by
  rw [dockerRemovePaths] at hpath
  split at hpath
  · cases hpath
  · cases hpath
  · split at hpath
    · cases hpath
    · next relativePaths hrelative =>
      obtain ⟨relative, hmem, rfl⟩ := List.mem_map.mp hpath
      obtain ⟨original, horiginal, hresolved⟩ := exists_of_mapM_eq_ok hrelative hmem
      rw [resolvePath_of_real hroot, resolvePath_of_real (hreal original horiginal)] at hresolved
      rwa [← relativeTo_eq_ok_iff.mp hresolved]

end Removed

/-! ### The root -/

section Root

variable (host : Host) (start : Start) (repoRoot : String) (targets : List String)

/-- The path lies strictly below the root. -/
def StrictlyBelow (root path : Path) : Prop := ∃ name rest, path = root ++ name :: rest

/-- Every path that is removed lies strictly below the resolved root of the repository. -/
def StaysBelow : Prop :=
  ∀ path ∈ (cleanupPaths host start repoRoot targets).removed,
    ∃ root, resolveText start.files start.cwd repoRoot = .ok root ∧ StrictlyBelow root path

/-- No target leads to the resolved root, while that is there, when its turn comes after the targets
before it. -/
def AvoidsRoot : Prop :=
  ∀ root, resolveText start.files start.cwd repoRoot = .ok root →
    ∀ given, givenTargets host start.files targets = .ok given →
      ∀ earlier target later before, given = earlier ++ target :: later →
        (cleanupLoop host root start.files [] earlier).result = .ok before →
          resolveText (cleanupLoop host root start.files [] earlier).files root target = .ok root →
            (cleanupLoop host root start.files [] earlier).files.node root = none

theorem not_strictlyBelow_self (root : Path) : ¬StrictlyBelow root root := by
  rintro ⟨name, rest, h⟩
  have hlength := congrArg List.length h
  rw [List.length_append, List.length_cons] at hlength
  omega

variable {host start repoRoot targets}

/-- What is removed in a call is removed by its loop. -/
theorem mem_removed_cleanupPaths {path : Path} :
    path ∈ (cleanupPaths host start repoRoot targets).removed ↔
      ∃ root given, resolveText start.files start.cwd repoRoot = .ok root ∧
        givenTargets host start.files targets = .ok given ∧
          path ∈ (cleanupLoop host root start.files [] given).removed := by
  rw [cleanupPaths]
  cases hgiven : givenTargets host start.files targets with
  | error error =>
    refine iff_of_false List.not_mem_nil ?_
    rintro ⟨root, given, -, ⟨⟩, -⟩
  | ok given =>
    dsimp only
    cases hroot : resolveText start.files start.cwd repoRoot with
    | error error =>
      refine iff_of_false List.not_mem_nil ?_
      rintro ⟨root, given, ⟨⟩, -⟩
    | ok root =>
      have hreal : start.files.Real root := real_of_resolveText start.real hroot
      dsimp only
      rw [mem_removed_andThen]
      constructor
      · rintro (hloop | ⟨pending, hpending, hdocker⟩)
        · exact ⟨root, given, rfl, rfl, hloop⟩
        · have hleft := cleanupLoop_pending host hreal
            (fun path hpath ↦ absurd hpath List.not_mem_nil) hpending
          split at hdocker
          · cases hdocker
          · have hpath := mem_of_mem_removed_docker host
              (hreal.of_shrinks (sound_cleanupLoop host root start.files [] given))
              (fun path hpath ↦ (hleft path hpath).2) hdocker
            exact ⟨root, given, rfl, rfl, (hleft path hpath).1.resolve_left List.not_mem_nil⟩
      · rintro ⟨other, targets, hother, htargets, hloop⟩
        obtain rfl := Except.ok.inj hother
        obtain rfl := Except.ok.inj htargets
        exact .inl hloop

theorem staysBelow_of_avoidsRoot (havoids : AvoidsRoot host start repoRoot targets) :
    StaysBelow host start repoRoot targets := by
  intro path hpath
  obtain ⟨root, given, hroot, hgiven, hloop⟩ := mem_removed_cleanupPaths.mp hpath
  obtain ⟨earlier, target, later, before, htargets, hbefore, hturn⟩ :=
    (mem_removed_cleanupLoop host).mp hloop
  have hreal : (cleanupLoop host root start.files [] earlier).files.Real root :=
    (real_of_resolveText start.real hroot).of_shrinks (sound_cleanupLoop host root _ _ _)
  obtain ⟨hresolve, ⟨rest, rfl⟩, hthere⟩ :=
    (mem_removed_cleanupTarget host hreal before target).mp hturn
  refine ⟨root, hroot, ?_⟩
  cases rest with
  | nil =>
    rw [List.append_nil] at hresolve hthere
    exact absurd (havoids root hroot given hgiven earlier target later before htargets hbefore
      hresolve) hthere
  | cons name rest => exact ⟨name, rest, rfl⟩

/-- The paths that are removed lie strictly below the root of the repository exactly when no target
leads to the root. -/
theorem cleanupPaths_staysBelow_iff (host : Host) (start : Start) (repoRoot : String)
    (targets : List String) :
    StaysBelow host start repoRoot targets ↔ AvoidsRoot host start repoRoot targets := by
  refine ⟨fun hbelow ↦ ?_, staysBelow_of_avoidsRoot⟩
  intro root hroot given hgiven earlier target later before htargets hbefore hresolve
  by_contra hthere
  have hreal : (cleanupLoop host root start.files [] earlier).files.Real root :=
    (real_of_resolveText start.real hroot).of_shrinks (sound_cleanupLoop host root _ _ _)
  have hremoved : root ∈ (cleanupPaths host start repoRoot targets).removed :=
    mem_removed_cleanupPaths.mpr ⟨root, given, hroot, hgiven, (mem_removed_cleanupLoop host).mpr
      ⟨earlier, target, later, before, htargets, hbefore,
        (mem_removed_cleanupTarget host hreal before target).mpr
          ⟨hresolve, List.prefix_rfl, hthere⟩⟩⟩
  obtain ⟨other, hother, hstrict⟩ := hbelow root hremoved
  rw [hroot, Except.ok.injEq] at hother
  subst hother
  exact not_strictlyBelow_self root hstrict

theorem sound_dockerRemovePaths (files : Disk String) (root : Path) (paths : List Path) :
    (dockerRemovePaths host files root paths).Sound files := by
  rw [dockerRemovePaths]
  split
  · exact sound_of files _
  · exact sound_of files _
  · split
    · exact sound_of files _
    · exact host.docker_shrinks files _

theorem sound_cleanupPaths : (cleanupPaths host start repoRoot targets).Sound start.files := by
  rw [cleanupPaths]
  split
  · exact sound_of start.files _
  · split
    · exact sound_of start.files _
    · next root _ =>
      refine (sound_cleanupLoop host root start.files [] _).andThen fun pending ↦ ?_
      split
      · exact sound_of _ _
      · exact sound_dockerRemovePaths _ _ _

/-- When no target leads to the root, whatever vanishes lies strictly below it. -/
theorem vanished_strictlyBelow (havoids : AvoidsRoot host start repoRoot targets) {path : Path}
    (hthere : start.files.node path ≠ none)
    (hgone : (cleanupPaths host start repoRoot targets).files.node path = none) :
    ∃ root, resolveText start.files start.cwd repoRoot = .ok root ∧ StrictlyBelow root path := by
  obtain ⟨top, htop, more, rfl⟩ := sound_cleanupPaths.vanished hthere hgone
  obtain ⟨root, hroot, name, rest, rfl⟩ := staysBelow_of_avoidsRoot havoids top htop
  refine ⟨root, hroot, name, rest ++ more, ?_⟩
  rw [List.append_assoc, List.cons_append]

end Root

/-! ### A repository that is removed -/

/-- A system that removes all it is asked to, without a configuration. -/
def plainHost : Host where
  unlink files path := (.ok (), files.without path)
  rmtree files path := (.ok (), files.without path)
  docker files _ := (.ok (), files)
  defaultCleanupTargets _ := .ok []
  loadAsterinasDockerImage _ := .ok none
  unlink_shrinks := Disk.shrinks_without
  rmtree_shrinks := Disk.shrinks_without
  docker_shrinks _ _ := .refl _ _

/-- A repository with one file. -/
def smallStart : Start where
  files := ⟨[(["repo"], .directory), (["repo", "README.md"], .file)]⟩
  cwd := []
  real := Disk.real_nil _

theorem not_staysBelow_dot : ¬StaysBelow plainHost smallStart "/repo" ["."] := by
  have hremoved : (cleanupPaths plainHost smallStart "/repo" ["."]).removed = [["repo"]] := by
    decide +kernel
  have hroot : resolveText smallStart.files smallStart.cwd "/repo" = .ok ["repo"] := by
    decide +kernel
  intro hbelow
  obtain ⟨root, hresolve, hstrict⟩ := hbelow ["repo"] (hremoved ▸ List.mem_singleton_self _)
  rw [hroot, Except.ok.injEq] at hresolve
  subst hresolve
  exact not_strictlyBelow_self _ hstrict

end SyzAbi.Tools.Cleanup

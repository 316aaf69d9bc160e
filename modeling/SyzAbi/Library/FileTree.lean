import Mathlib.Data.List.Basic
import Mathlib.Data.List.Infix

/-!
# Trees of files

Files, directories and symbolic links by the names that lead to them. To resolve a path text is to
follow its steps from a directory and those of the links in between. A link that is followed inside
of itself has no resolution; the links that are followed inside of one another are then more than
the entries.

A resolved path has no links on it (`Real`, `real_of_resolve`), so it is its own resolution
(`resolve_of_real`), also after entries have been removed (`Real.of_shrinks`).
-/

set_option autoImplicit false
set_option relaxedAutoImplicit false

namespace SyzAbi.Library.FileTree

variable {ν : Type}

/-- A step of a path text: to the directory above or to a name. -/
inductive Step (ν : Type) where
  | up
  | down (name : ν)
  deriving DecidableEq

/-- A path text. -/
structure PathText (ν : Type) where
  absolute : Bool
  steps : List (Step ν)
  deriving DecidableEq

inductive Node (ν : Type) where
  | file
  | directory
  | link (target : PathText ν)
  deriving DecidableEq

/-- The entries of a disk by the names from its root. -/
structure Disk (ν : Type) where
  entries : List (List ν × Node ν)

/-- The text of a path from the root. -/
def PathText.ofPath (path : List ν) : PathText ν := ⟨true, path.map .down⟩

/-- The text of a path text behind a path from the root. -/
def PathText.behind (path : List ν) (text : PathText ν) : PathText ν :=
  if text.absolute then text else ⟨true, path.map .down ++ text.steps⟩

section Entries

variable [DecidableEq ν]

/-- The entry at a path. -/
def Disk.node (files : Disk ν) (path : List ν) : Option (Node ν) :=
  if path = [] then some .directory else (files.entries.find? fun entry ↦ entry.1 = path).map (·.2)

/-- A step from a path, where links are followed in the given way. -/
def Disk.step (files : Disk ν) (follow : List ν → PathText ν → Option (List ν)) (path : List ν) :
    Step ν → Option (List ν)
  | .up => some path.dropLast
  | .down name =>
    match files.node (path ++ [name]) with
    | some (.link target) => follow path target
    | _ => some (path ++ [name])

/-- The path that a text leads to from a directory when fewer links than the bound lie in one
another. -/
def Disk.resolveWithin (files : Disk ν) : ℕ → List ν → PathText ν → Option (List ν)
  | 0, _, _ => none
  | bound + 1, path, text =>
    text.steps.foldlM (files.step (files.resolveWithin bound)) (if text.absolute then [] else path)

/-- The path that a text leads to from a directory. -/
def Disk.resolve (files : Disk ν) (path : List ν) (text : PathText ν) : Option (List ν) :=
  files.resolveWithin (files.entries.length + 1) path text

/-- No link is on the path. -/
def Disk.Real (files : Disk ν) (path : List ν) : Prop :=
  ∀ before, before <+: path → ∀ target, files.node before ≠ some (.link target)

/-- The other tree is this one without some of the entries at or below the given paths. -/
def Disk.Shrinks (files other : Disk ν) (removed : List (List ν)) : Prop :=
  ∀ path, other.node path = files.node path ∨
    (other.node path = none ∧ ∃ top ∈ removed, top <+: path)

/-- The tree without what lies at or below a path. -/
def Disk.without (files : Disk ν) (top : List ν) : Disk ν :=
  ⟨files.entries.filter fun entry ↦ ¬top <+: entry.1⟩

variable {files other third : Disk ν}

theorem Disk.Shrinks.refl (files : Disk ν) (removed : List (List ν)) :
    files.Shrinks files removed :=
  fun _ ↦ .inl rfl

theorem Disk.Shrinks.trans {first second : List (List ν)} (hfirst : files.Shrinks other first)
    (hsecond : other.Shrinks third second) : files.Shrinks third (first ++ second) := by
  intro path
  rcases hsecond path with hsame | ⟨hnone, top, htop, hbelow⟩
  · rcases hfirst path with hbefore | ⟨hnone, top, htop, hbelow⟩
    · exact .inl (hsame.trans hbefore)
    · exact .inr ⟨hsame.trans hnone, top, List.mem_append_left _ htop, hbelow⟩
  · exact .inr ⟨hnone, top, List.mem_append_right _ htop, hbelow⟩

theorem Disk.shrinks_without (files : Disk ν) (top : List ν) :
    files.Shrinks (files.without top) [top] := by
  intro path
  rw [Disk.node, Disk.node, Disk.without, List.find?_filter]
  by_cases hroot : path = []
  · rw [if_pos hroot, if_pos hroot]
    exact .inl rfl
  · rw [if_neg hroot, if_neg hroot]
    by_cases hbelow : top <+: path
    · refine .inr ⟨?_, top, List.mem_singleton_self top, hbelow⟩
      rw [Option.map_eq_none_iff, List.find?_eq_none]
      intro entry _ hentry
      simp only [decide_eq_true_eq] at hentry
      exact hentry.1 (hentry.2 ▸ hbelow)
    · have hsame : ∀ entry : List ν × Node ν,
          decide (decide (¬top <+: entry.1) = true ∧ decide (entry.1 = path) = true) =
            decide (entry.1 = path) := by
        intro entry
        rw [decide_eq_decide, decide_eq_true_eq, decide_eq_true_eq]
        exact and_iff_right_of_imp fun hname ↦ hname ▸ hbelow
      left
      simp only [hsame]

/-- What vanishes lies at or below the removed paths. -/
theorem Disk.Shrinks.vanished {removed : List (List ν)} (hshrinks : files.Shrinks other removed)
    {path : List ν} (hthere : files.node path ≠ none) (hgone : other.node path = none) :
    ∃ top ∈ removed, top <+: path := by
  rcases hshrinks path with hsame | ⟨-, hbelow⟩
  · exact absurd (hsame.symm.trans hgone) hthere
  · exact hbelow

theorem Disk.Real.of_shrinks {removed : List (List ν)} {path : List ν} (hreal : files.Real path)
    (hshrinks : files.Shrinks other removed) : other.Real path := by
  intro before hbefore target hlink
  rcases hshrinks before with hsame | ⟨hnone, -⟩
  · exact hreal before hbefore target (hsame.symm.trans hlink)
  · rw [hnone] at hlink
    cases hlink

theorem Disk.Real.of_prefix {path before : List ν} (hreal : files.Real path)
    (hbefore : before <+: path) : files.Real before :=
  fun earlier hearlier ↦ hreal earlier (hearlier.trans hbefore)

theorem Disk.real_nil (files : Disk ν) : files.Real [] := by
  intro before hbefore target
  rw [List.prefix_nil.mp hbefore, Disk.node, if_pos rfl]
  rintro ⟨⟩

theorem Disk.real_concat {path : List ν} {name : ν} (hreal : files.Real path)
    (hnode : ∀ target, files.node (path ++ [name]) ≠ some (.link target)) :
    files.Real (path ++ [name]) := by
  intro before hbefore
  rcases List.prefix_concat_iff.mp hbefore with rfl | hprefix
  · exact hnode
  · exact hreal before hprefix

/-- A step leads from a path without links to another. -/
theorem Disk.real_of_step {follow : List ν → PathText ν → Option (List ν)} {path after : List ν}
    {step : Step ν} (hreal : files.Real path)
    (hfollow : ∀ target, follow path target = some after → files.Real after)
    (hstep : files.step follow path step = some after) : files.Real after := by
  cases step with
  | up =>
    obtain rfl := Option.some.inj hstep
    exact hreal.of_prefix (List.dropLast_prefix path)
  | down name =>
    rw [Disk.step] at hstep
    split at hstep
    · exact hfollow _ hstep
    · next hnode =>
      obtain rfl := Option.some.inj hstep
      exact Disk.real_concat hreal hnode

theorem Disk.real_of_resolveWithin {bound : ℕ} {path after : List ν} {text : PathText ν}
    (hreal : files.Real path) (hresolve : files.resolveWithin bound path text = some after) :
    files.Real after := by
  induction bound generalizing path after text with
  | zero => cases hresolve
  | succ bound ih =>
    have hsteps : ∀ (steps : List (Step ν)) (start : List ν), files.Real start →
        steps.foldlM (files.step (files.resolveWithin bound)) start = some after →
          files.Real after := by
      intro steps
      induction steps with
      | nil =>
        intro start hstart hnil
        rwa [← Option.some.inj hnil]
      | cons step rest ihsteps =>
        intro start hstart hcons
        rw [List.foldlM_cons, Option.bind_eq_bind, Option.bind_eq_some_iff] at hcons
        obtain ⟨next, hnext, hrest⟩ := hcons
        exact ihsteps next (Disk.real_of_step hstart (fun _ ↦ ih hstart) hnext) hrest
    rw [Disk.resolveWithin] at hresolve
    refine hsteps text.steps _ ?_ hresolve
    split
    · exact files.real_nil
    · exact hreal

theorem Disk.real_of_resolve {path after : List ν} {text : PathText ν} (hreal : files.Real path)
    (hresolve : files.resolve path text = some after) : files.Real after :=
  Disk.real_of_resolveWithin hreal hresolve

/-- A path without links is its own resolution. -/
theorem Disk.resolve_of_real {path : List ν} (hreal : files.Real path) (start : List ν) :
    files.resolve start (.ofPath path) = some path := by
  have hnames : ∀ (names before : List ν), files.Real (before ++ names) →
      (names.map Step.down).foldlM (files.step (files.resolveWithin files.entries.length)) before =
        some (before ++ names) := by
    intro names
    induction names with
    | nil =>
      intro before _
      rw [List.append_nil]
      rfl
    | cons name rest ih =>
      intro before hbefore
      have hassoc : before ++ name :: rest = before ++ [name] ++ rest := by
        rw [List.append_assoc, List.singleton_append]
      rw [hassoc] at hbefore ⊢
      have hnode := hbefore (before ++ [name]) (List.prefix_append _ _)
      have hstep : files.step (files.resolveWithin files.entries.length) before (.down name) =
          some (before ++ [name]) := by
        rw [Disk.step]
        split
        · next target hlink =>
          exact absurd hlink (hnode target)
        · rfl
      rw [List.map_cons, List.foldlM_cons, hstep]
      exact ih _ hbefore
  exact hnames path [] hreal

end Entries

end SyzAbi.Library.FileTree

import SyzAbi.Library.Interleaving

/-!
# The packaged initramfs

`ensure_packaged_initramfs` (`targets/asterinas/initramfs.py`) looks for the archive of a package
directory, takes the lock of the directory when there is none, looks again, and builds the archive.
The build ends with `repack_initramfs`, a shell pipeline that creates the archive at its final path
and fills it while it runs; its exit code is the one of `gzip`.

Any number of callers run, and every one can fail or be killed, with its pipeline, at any point. A
caller returns an archive that is not complete exactly when it looks while the file is there
unfinished, or when `find` or `cpio` fails in its own pipeline (`forall_published_iff_orderly`).
-/

set_option autoImplicit false
set_option relaxedAutoImplicit false

namespace SyzAbi.Targets

open Library.Interleaving

/-! ### Callers -/

/-- Where a caller of `ensure_packaged_initramfs` is. -/
inductive Caller
  | started
  | waiting
  | locked
  | preparing
  | repacking
  | writing
  | returned
  | raised
  | killed
  deriving DecidableEq

/-- The callers that hold the lock. -/
def Caller.critical : Caller → Bool
  | .locked | .preparing | .repacking | .writing => true
  | _ => false

/-- The callers that have not come to the lock. -/
def Caller.pending : Caller → Bool
  | .started | .waiting => true
  | _ => false

/-- The archive file: what was written to it, and whether the repack that created it has
succeeded. -/
structure Archive where
  chunks : ℕ
  completed : Bool
  deriving DecidableEq

/-- The package directory: who holds `.build.lock`, and the archive. -/
structure PackageDir (ι : Type) where
  holder : Option ι
  output : Option Archive

/-- What a caller does next, with the outcomes that are not up to it. -/
inductive EnsureMove
  /-- `output_path.exists()` before the lock. -/
  | check
  | lock
  /-- `output_path.exists()` with the lock. -/
  | recheck
  /-- The manifest is loaded and the root is filled, or this raises. -/
  | prepare (succeeds : Bool)
  /-- The shell opens the output for `gzip`. -/
  | redirect
  | write
  /-- The pipeline ends: whether `find` and `cpio` succeeded, and whether the shell returns 0. -/
  | finish (archived compressed : Bool)
  | kill

variable {ι : Type}

/-- The directory after a caller let go of the lock. -/
def PackageDir.release (dir : PackageDir ι) : PackageDir ι := { dir with holder := none }

/-- One move of a caller of `ensure_packaged_initramfs`. A move that is not its next one does
nothing. -/
def ensureStep (i : ι) : EnsureMove → Caller → PackageDir ι → Caller × PackageDir ι
  | .check, .started, dir => (if dir.output.isSome then .returned else .waiting, dir)
  | .lock, .waiting, dir =>
    if dir.holder.isNone then (.locked, { dir with holder := some i }) else (.waiting, dir)
  | .recheck, .locked, dir =>
    if dir.output.isSome then (.returned, dir.release) else (.preparing, dir)
  | .prepare succeeds, .preparing, dir =>
    if succeeds then (.repacking, dir) else (.raised, dir.release)
  | .redirect, .repacking, dir => (.writing, { dir with output := some ⟨0, false⟩ })
  | .write, .writing, dir =>
    (.writing, { dir with
      output := dir.output.map fun archive ↦ { archive with chunks := archive.chunks + 1 } })
  | .finish _ _, .repacking, dir => (.raised, dir.release)
  | .finish archived compressed, .writing, dir =>
    if compressed then
      (.returned, ⟨none, dir.output.map fun archive ↦ { archive with completed := archived }⟩)
    else (.raised, dir.release)
  | .kill, caller, dir =>
    if caller.critical then (.killed, dir.release)
    else (if caller.pending then .killed else caller, dir)
  | _, caller, dir => (caller, dir)

/-- The callers before their first moves, and an empty package directory. -/
def freshPackage : Config ι Caller (PackageDir ι) where
  locals := fun _ ↦ .started
  shared := { holder := none, output := none }

/-- There is an archive, and its repack has succeeded or not. -/
def PackageDir.Stores (dir : PackageDir ι) (completed : Bool) : Prop :=
  ∃ archive, dir.output = some archive ∧ archive.completed = completed

/-- Every returned path names an archive whose repack succeeded. -/
def Published (config : Config ι Caller (PackageDir ι)) : Prop :=
  ∀ i, config.locals i = .returned → config.shared.Stores true

/-- The caller does not look for the archive while an unfinished one is there, and its pipeline does
not return 0 when `find` or `cpio` failed. -/
def EnsureMove.Orderly : EnsureMove → Caller → PackageDir ι → Prop
  | .check, .started, dir => ¬dir.Stores false
  | .recheck, .locked, dir => ¬dir.Stores false
  | .finish archived compressed, .writing, _ => compressed = true → archived = true
  | _, _, _ => True

/-- The move is orderly for the caller that takes it. -/
def Orderly (config : Config ι Caller (PackageDir ι)) (move : ι × EnsureMove) : Prop :=
  move.2.Orderly (config.locals move.1) config.shared

/-! ### The invariant -/

/-- What holds of a caller and the package directory. -/
structure Caller.Holds (i : ι) (caller : Caller) (dir : PackageDir ι) : Prop where
  lock : caller.critical = true ↔ dir.holder = some i
  absent : caller = .preparing ∨ caller = .repacking → dir.output = none
  unfinished : caller = .writing → dir.Stores false
  published : caller = .returned → dir.Stores true

theorem PackageDir.Stores.eq {dir : PackageDir ι} {a b : Bool} (ha : dir.Stores a)
    (hb : dir.Stores b) : a = b := by
  obtain ⟨archive, harchive, rfl⟩ := ha
  obtain ⟨other, hother, rfl⟩ := hb
  rw [Option.some.inj (harchive.symm.trans hother)]

theorem PackageDir.stores_true_of_isSome {dir : PackageDir ι} (hsome : dir.output.isSome = true)
    (hnot : ¬dir.Stores false) : dir.Stores true := by
  obtain ⟨archive, harchive⟩ := Option.isSome_iff_exists.mp hsome
  refine ⟨archive, harchive, ?_⟩
  by_contra hcompleted
  exact hnot ⟨archive, harchive, Bool.eq_false_iff.mpr hcompleted⟩

/-- A caller outside the lock asserts nothing but what it returned. -/
theorem Caller.holds_of_not_critical {i : ι} {caller : Caller} {dir : PackageDir ι}
    (hcritical : caller.critical = false) (hholder : dir.holder ≠ some i)
    (hpublished : caller = .returned → dir.Stores true) : caller.Holds i dir where
  lock := iff_of_false (by rw [hcritical]; decide) hholder
  absent := by
    rintro (rfl | rfl)
    · cases hcritical
    · cases hcritical
  unfinished := by
    rintro rfl
    cases hcritical
  published := hpublished

theorem holds_freshPackage (i : ι) :
    (freshPackage.locals i).Holds i (freshPackage.shared : PackageDir ι) := by
  apply Caller.holds_of_not_critical
  · rfl
  · simp [freshPackage]
  · intro h
    cases h

/-- Whoever lets go of the lock has nothing left to assert. -/
theorem Caller.holds_release {i : ι} {next : Caller} {dir : PackageDir ι}
    (hnext : next.critical = false) (hpublished : next = .returned → dir.Stores true) :
    next.Holds i dir.release :=
  Caller.holds_of_not_critical hnext (by simp [PackageDir.release]) hpublished

/-- An orderly move restores the assertion of its caller. -/
theorem Caller.Holds.step {i : ι} {move : EnsureMove} {caller : Caller} {dir : PackageDir ι}
    (hholds : caller.Holds i dir) (horderly : move.Orderly caller dir) :
    (ensureStep i move caller dir).1.Holds i (ensureStep i move caller dir).2 := by
  have hfree : caller.critical = false → dir.holder ≠ some i := by
    intro hcritical hholder
    rw [hholds.lock.mpr hholder] at hcritical
    cases hcritical
  fun_cases ensureStep i move caller dir with
  | case1 dir =>
    dsimp only
    split_ifs with hsome
    · exact holds_of_not_critical rfl (hfree rfl)
        fun _ ↦ PackageDir.stores_true_of_isSome hsome horderly
    · exact holds_of_not_critical rfl (hfree rfl) (by simp)
  | case2 dir hnone => exact ⟨by simp [critical], by simp, by simp, by simp⟩
  | case3 dir hheld => exact hholds
  | case4 dir hsome =>
    exact holds_release rfl fun _ ↦ PackageDir.stores_true_of_isSome hsome horderly
  | case5 dir hnone =>
    exact ⟨iff_of_true rfl (hholds.lock.mp rfl), fun _ ↦ by simpa using hnone, by simp, by simp⟩
  | case6 dir =>
    exact ⟨iff_of_true rfl (hholds.lock.mp rfl), fun _ ↦ hholds.absent (Or.inl rfl), by simp,
      by simp⟩
  | case7 succeeds dir hfails => exact holds_release rfl (by simp)
  | case8 dir =>
    exact ⟨iff_of_true rfl (hholds.lock.mp rfl), by simp, fun _ ↦ ⟨_, rfl, rfl⟩, by simp⟩
  | case9 dir =>
    obtain ⟨archive, harchive, hcompleted⟩ := hholds.unfinished rfl
    refine ⟨iff_of_true rfl (hholds.lock.mp rfl), by simp, fun _ ↦ ?_, by simp⟩
    exact ⟨{ archive with chunks := archive.chunks + 1 }, by simp [harchive], hcompleted⟩
  | case10 archived compressed dir => exact holds_release rfl (by simp)
  | case11 archived dir =>
    obtain ⟨archive, harchive, -⟩ := hholds.unfinished rfl
    refine holds_of_not_critical rfl (by simp) fun _ ↦ ?_
    exact ⟨{ archive with completed := archived }, by simp [harchive], horderly rfl⟩
  | case12 archived compressed dir hfails => exact holds_release rfl (by simp)
  | case13 caller dir hcritical => exact holds_release rfl (by simp)
  | case14 caller dir hcritical =>
    dsimp only
    split_ifs with hpending
    · exact holds_of_not_critical rfl (hfree (Bool.eq_false_iff.mpr hcritical)) (by simp)
    · exact hholds
  | case15 => exact hholds

/-- A caller that asserts something about the archive rules out that another one changes it. -/
theorem Caller.Holds.other {i j : ι} (hne : j ≠ i) {move : EnsureMove} {caller other : Caller}
    {dir : PackageDir ι} (hholds : caller.Holds i dir) (hother : other.Holds j dir) :
    other.Holds j (ensureStep i move caller dir).2 := by
  -- While one caller holds the lock no other one does.
  have hfree : caller.critical = true → other.critical = false ∧ dir.holder ≠ some j := by
    intro hcritical
    have hheld : dir.holder ≠ some j := by
      rw [hholds.lock.mp hcritical]
      exact fun h ↦ hne (Option.some.inj h).symm
    exact ⟨Bool.eq_false_iff.mpr fun h ↦ hheld (hother.lock.mp h), hheld⟩
  have hrelease : caller.critical = true → other.Holds j dir.release := fun hcritical ↦
    holds_release (hfree hcritical).1 hother.published
  fun_cases ensureStep i move caller dir with
  | case1 dir => exact hother
  | case2 dir hnone =>
    have hfree : other.critical = false := by
      rw [Bool.eq_false_iff]
      intro hcritical
      rw [hother.lock.mp hcritical] at hnone
      cases hnone
    exact holds_of_not_critical hfree (fun h ↦ hne (Option.some.inj h).symm) hother.published
  | case3 dir hheld => exact hother
  | case4 dir hsome => exact hrelease rfl
  | case5 dir hnone => exact hother
  | case6 dir => exact hother
  | case7 succeeds dir hfails => exact hrelease rfl
  | case8 dir =>
    obtain ⟨hcritical, hheld⟩ := hfree rfl
    refine holds_of_not_critical hcritical hheld fun hreturned ↦ ?_
    obtain ⟨archive, harchive, -⟩ := hother.published hreturned
    rw [hholds.absent (Or.inr rfl)] at harchive
    cases harchive
  | case9 dir =>
    obtain ⟨hcritical, hheld⟩ := hfree rfl
    refine holds_of_not_critical hcritical hheld fun hreturned ↦ ?_
    exact absurd ((hother.published hreturned).eq (hholds.unfinished rfl)) (by decide)
  | case10 archived compressed dir => exact hrelease rfl
  | case11 archived dir =>
    obtain ⟨hcritical, hheld⟩ := hfree rfl
    refine holds_of_not_critical hcritical (by simp) fun hreturned ↦ ?_
    exact absurd ((hother.published hreturned).eq (hholds.unfinished rfl)) (by decide)
  | case12 archived compressed dir hfails => exact hrelease rfl
  | case13 caller dir hcritical => exact hrelease hcritical
  | case14 caller dir hcritical => exact hother
  | case15 => exact hother

/-! ### Runs -/

/-- The invariant of orderly runs. -/
def Consistent (config : Config ι Caller (PackageDir ι)) : Prop :=
  ∀ i, (config.locals i).Holds i config.shared

theorem published_of_consistent (config : Config ι Caller (PackageDir ι))
    (hconfig : Consistent config) : Published config :=
  fun i ↦ (hconfig i).published

variable [DecidableEq ι]

theorem consistent_step {config : Config ι Caller (PackageDir ι)} {move : ι × EnsureMove}
    (hconfig : Consistent config) (horderly : Orderly config move) :
    Consistent (step ensureStep config move) :=
  forall_local_step (P := Caller.Holds) ((hconfig move.1).step horderly)
    fun j hj ↦ (hconfig move.1).other hj (hconfig j)

/-- A move that is not orderly returns an archive that is not complete. -/
theorem orderly_of_published_step {config : Config ι Caller (PackageDir ι)}
    {move : ι × EnsureMove} (hconfig : Consistent config)
    (hpublished : Published (step ensureStep config move)) : Orderly config move := by
  obtain ⟨i, action⟩ := move
  have hreturned : (ensureStep i action (config.locals i) config.shared).1 = .returned →
      (ensureStep i action (config.locals i) config.shared).2.Stores true := by
    intro h
    exact hpublished i ((step_locals_self config i action).trans h)
  have hholds := hconfig i
  rw [Orderly]
  dsimp only
  generalize config.locals i = caller at hreturned hholds ⊢
  generalize config.shared = dir at hreturned hholds ⊢
  fun_cases EnsureMove.Orderly action caller dir with
  | case1 dir =>
    rintro hunfinished
    obtain ⟨archive, harchive, -⟩ := id hunfinished
    rw [ensureStep, harchive] at hreturned
    exact absurd ((hreturned rfl).eq hunfinished) (by decide)
  | case2 dir =>
    rintro hunfinished
    obtain ⟨archive, harchive, -⟩ := id hunfinished
    rw [ensureStep, harchive] at hreturned
    exact absurd ((hreturned rfl).eq hunfinished) (by decide)
  | case3 archived compressed dir =>
    rintro rfl
    obtain ⟨archive, harchive, -⟩ := hholds.unfinished rfl
    obtain ⟨other, hother, hcompleted⟩ := hreturned rfl
    rw [ensureStep, if_pos rfl, harchive] at hother
    rw [← hcompleted, ← Option.some.inj hother]
  | case4 => trivial

/-- In a run of any callers every returned path names a complete archive exactly when no caller
looks for the archive while an unfinished one is there, and no pipeline returns 0 when `find` or
`cpio` failed. -/
theorem forall_published_iff_orderly (moves : List (ι × EnsureMove)) :
    (∀ config ∈ states (step ensureStep) freshPackage moves, Published config) ↔
      Along (step ensureStep) Orderly freshPackage moves :=
  forall_states_iff_along published_of_consistent (fun _ _ ↦ consistent_step)
    (fun _ _ ↦ orderly_of_published_step) holds_freshPackage moves

/-- A second caller returns the archive that the first one is writing. -/
theorem not_forall_published : ¬∀ moves : List (ℕ × EnsureMove),
    ∀ config ∈ states (step ensureStep) freshPackage moves, Published config := by
  intro hpublished
  have hlast := hpublished [(0, .check), (0, .lock), (0, .recheck), (0, .prepare true),
    (0, .redirect), (0, .write), (1, .check)] _ (List.getLast_mem (by simp [states])) 1 rfl
  obtain ⟨archive, harchive, hcompleted⟩ := hlast
  obtain rfl := Option.some.inj harchive
  cases hcompleted

end SyzAbi.Targets

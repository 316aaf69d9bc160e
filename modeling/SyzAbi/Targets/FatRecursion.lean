import SyzAbi.Library.Recursion
import SyzAbi.Targets.FatSampling

/-!
# The recursion over directories

`walk` in `sample_fat_external_state` (`targets/tgoskits_arceos/api.py`) calls itself for every
entry of a directory that is a directory, with the cluster number of the entry. Along a chain of
clusters `_fat_chain` remembers what it has seen; over directories nothing is remembered. On any
byte string at all, the recursion has a decreasing measure exactly when no directory that the
sampler comes to lies inside itself (`walkEnds_iff`).
-/

set_option autoImplicit false
set_option relaxedAutoImplicit false

namespace SyzAbi.Targets

open Library Library.LittleEndian Library.Recursion Relation

/-! ### Nested calls -/

/-- The names and the cluster numbers for which the loop of `walk` makes a call. -/
def subdirectories (fatType : FatType) : ℕ → List PyStr → List UInt8 → List (PyStr × ℕ)
  | 0, _, _ => []
  | count + 1, lfnParts, directory =>
    let entry := directory.take 32
    let rest := directory.drop 32
    let first := byteAt entry 0
    let attributes := byteAt entry 11
    if first = 0x00 then []
    else if first = 0xE5 then subdirectories fatType count [] rest
    else if attributes = 0x0F then
      subdirectories fatType count (fatDecodeLfnFragment entry :: lfnParts) rest
    else if attributes &&& 0x08 ≠ 0 then subdirectories fatType count [] rest
    else
      let name := if lfnParts ≠ [] then lfnParts.flatten else fatShortName entry
      if name ∈ [[], [46], [46, 46]] then subdirectories fatType count [] rest
      else
        let cluster := entryCluster entry fatType
        if attributes &&& 0x10 ≠ 0 then
          if 2 ≤ cluster then (name, cluster) :: subdirectories fatType count [] rest
          else subdirectories fatType count [] rest
        else subdirectories fatType count [] rest

private theorem isSome_bind_bind {σ τ υ : Type} (first : Option σ) (second : Option τ)
    (f : σ → τ → υ) :
    (first.bind fun a ↦ second.bind fun b ↦ some (f a b)).isSome ↔
      first.isSome ∧ second.isSome := by
  cases first <;> cases second <;> simp

/-- The loop comes to its end when each of these calls returns. -/
theorem isSome_walkEntries_iff {sha256 : List UInt8 → String} {image : List UInt8}
    {geometry : FatGeometry} {recurse : PyStr → ℕ → Option (List FileItem)} {parent : PyStr}
    (count : ℕ) (lfnParts : List PyStr) (directory : List UInt8) :
    (walkEntries sha256 image geometry recurse parent count lfnParts directory).isSome ↔
      ∀ sub ∈ subdirectories geometry.fatType count lfnParts directory,
        (recurse (joinPath parent sub.1) sub.2).isSome := by
  induction count generalizing lfnParts directory with
  | zero => exact iff_of_true rfl fun _ hsub ↦ absurd hsub List.not_mem_nil
  | succ count ih =>
    rw [walkEntries, subdirectories]
    dsimp only
    generalize (if lfnParts ≠ [] then lfnParts.flatten else fatShortName (directory.take 32)) = name
    split_ifs with hend hdeleted hpart hlabel hname hdirectory hnested
    · exact iff_of_true rfl fun _ hsub ↦ absurd hsub List.not_mem_nil
    · exact ih _ _
    · exact ih _ _
    · exact ih _ _
    · exact ih _ _
    · rw [List.forall_mem_cons, ← ih]
      exact isSome_bind_bind _ _ _
    · rw [← ih]
      exact (isSome_bind_bind (some []) _ _).trans (and_iff_right rfl)
    · rw [← ih]
      cases walkEntries sha256 image geometry recurse parent count [] (directory.drop 32) with
      | none => exact Iff.rfl
      | some behind => exact Iff.rfl

theorem fatU16_lt (payload : List UInt8) (offset : ℕ) : fatU16 payload offset < 2 ^ 16 :=
  ofBytes_lt_pow (List.length_take_le 2 _)

/-- The number of a cluster is in at most four bytes. -/
theorem lt_of_mem_subdirectories {fatType : FatType} {count : ℕ} {lfnParts : List PyStr}
    {directory : List UInt8} {sub : PyStr × ℕ}
    (hsub : sub ∈ subdirectories fatType count lfnParts directory) : sub.2 < 2 ^ 32 := by
  have hcluster : ∀ entry, entryCluster entry fatType < 2 ^ 32 := by
    intro entry
    have hlow := fatU16_lt entry 26
    have hhigh := fatU16_lt entry 20
    cases fatType with
    | fat12 => exact hlow.trans (by decide)
    | fat16 => exact hlow.trans (by decide)
    | fat32 =>
      refine Nat.or_lt_two_pow ?_ (hlow.trans (by decide))
      rw [Nat.shiftLeft_eq]
      omega
  induction count generalizing lfnParts directory with
  | zero => cases hsub
  | succ count ih =>
    rw [subdirectories] at hsub
    dsimp only at hsub
    generalize (if lfnParts ≠ [] then lfnParts.flatten
      else fatShortName (directory.take 32)) = name at hsub
    split_ifs at hsub
    · cases hsub
    · exact ih hsub
    · exact ih hsub
    · exact ih hsub
    · exact ih hsub
    · rcases List.mem_cons.mp hsub with rfl | hrest
      · exact hcluster _
      · exact ih hrest
    · exact ih hsub
    · exact ih hsub

/-! ### The recursion -/

/-- The arguments of a call of `walk`: the path of the directory and its cluster number, which the
root directory of a small volume does not have. -/
abbrev WalkCall := PyStr × Option ℕ

namespace FatWalk

variable (start : FatWalk) (image : List UInt8)

/-- The subdirectories that a directory lists. -/
def listed (directory : Option ℕ) : List (PyStr × ℕ) :=
  subdirectories start.geometry.fatType ((start.directory image directory).length / 32) []
    (start.directory image directory)

/-- The calls that a call makes. -/
def Calls (call nested : WalkCall) : Prop :=
  ∃ sub ∈ start.listed image call.2, nested = (joinPath call.1 sub.1, some sub.2)

/-- A directory lists another one. -/
def Lists (outer inner : Option ℕ) : Prop :=
  ∃ sub ∈ start.listed image outer, inner = some sub.2

/-- The call from outside. -/
def rootCall : WalkCall := ([], start.rootCluster)

variable {start image}

/-- `walk` returns within a limit on its recursion when its calls do. -/
theorem isSome_walk_iff {sha256 : List UInt8 → String} (limit : ℕ) (call : WalkCall) :
    (walk sha256 image start.geometry limit call.1 (start.directory image call.2)).isSome ↔
      Returns (start.Calls image) limit call := by
  induction limit generalizing call with
  | zero => exact iff_of_false Bool.false_ne_true id
  | succ limit ih =>
    rw [walk, isSome_walkEntries_iff]
    constructor
    · rintro hsome nested ⟨sub, hsub, rfl⟩
      exact (ih _).mp (hsome sub hsub)
    · intro hreturns sub hsub
      exact (ih (joinPath call.1 sub.1, some sub.2)).mpr (hreturns _ ⟨sub, hsub, rfl⟩)

/-- The calls follow the directories, whatever their paths are. -/
theorem mirrors : Mirrors (start.Calls image) (start.Lists image) Prod.snd where
  forth := by
    rintro call nested ⟨sub, hsub, rfl⟩
    exact ⟨sub, hsub, rfl⟩
  back := by
    rintro call k ⟨sub, hsub, rfl⟩
    exact ⟨_, ⟨sub, hsub, rfl⟩, rfl⟩

theorem finite_below (directory : Option ℕ) :
    {inner | TransGen (start.Lists image) directory inner}.Finite := by
  refine ((Set.finite_lt_nat (2 ^ 32)).image some).subset ?_
  rintro inner hinner
  obtain ⟨outer, -, sub, hsub, rfl⟩ := TransGen.tail'_iff.mp hinner
  exact ⟨sub.2, lt_of_mem_subdirectories hsub, rfl⟩

end FatWalk

/-- The recursion of `walk` comes to an end by itself: a measure decreases with every nested call,
and some limit on the recursion is never met. -/
structure WalkEnds (image : List UInt8) : Prop where
  measure : ∀ start, openFat image = .ok start → ∃ measure,
    Descends (start.Calls image) start.rootCall measure
  returns : ∀ sha256 start, openFat image = .ok start → ∃ limit,
    (walk sha256 image start.geometry limit []
      (start.directory image start.rootCluster)).isSome

/-- No directory that can be reached from the root lies inside itself. -/
def NoDirectoryInItself (image : List UInt8) : Prop :=
  ∀ start, openFat image = .ok start → Acyclic (start.Lists image) start.rootCluster

/-- The recursion comes to an end exactly when the directories form no cycle. -/
theorem walkEnds_iff (image : List UInt8) : WalkEnds image ↔ NoDirectoryInItself image := by
  constructor
  · intro hends start hstart
    exact (FatWalk.mirrors.exists_descends_iff start.rootCall
      (FatWalk.finite_below _)).mp (hends.measure start hstart)
  · intro hacyclic
    refine ⟨fun start hstart ↦ ?_, fun sha256 start hstart ↦ ?_⟩
    · exact (FatWalk.mirrors.exists_descends_iff _ (FatWalk.finite_below _)).mpr
        (hacyclic start hstart)
    · obtain ⟨limit, hreturns⟩ := (FatWalk.mirrors.exists_returns_iff start.rootCall
        (FatWalk.finite_below _)).mpr (hacyclic start hstart)
      exact ⟨limit, (FatWalk.isSome_walk_iff limit start.rootCall).mpr hreturns⟩

/-- Whatever the limit, a cycle is reported as an exceeded limit. -/
theorem sampleFatExternalState_of_cycle {image : List UInt8}
    (hcycle : ¬NoDirectoryInItself image) (sha256 : List UInt8 → String) (recursionLimit : ℕ) :
    sampleFatExternalState sha256 recursionLimit image =
      readError "maximum recursion depth exceeded" := by
  simp only [NoDirectoryInItself, not_forall] at hcycle
  obtain ⟨start, hstart, hcycle⟩ := hcycle
  rw [sampleFatExternalState, hstart]
  dsimp only
  cases hwalk : walk sha256 image start.geometry recursionLimit []
    (start.directory image start.rootCluster) with
  | none => rfl
  | some files =>
    have hsome := Option.isSome_of_eq_some hwalk
    refine absurd ?_ hcycle
    exact (FatWalk.mirrors.exists_returns_iff start.rootCall
      (FatWalk.finite_below _)).mp ⟨recursionLimit, (FatWalk.isSome_walk_iff _ _).mp hsome⟩

/-! ### A directory in itself -/

/-- A small volume whose only directory is listed in the root directory and in itself. -/
def selfListedImage : List UInt8 :=
  deepBoot 1 ++ List.replicate 6144 255 ++ deepSector 1 2 ++ deepSector 1 2

/-- No measure decreases when a directory is walked from itself. -/
theorem selfListedImage_not_walkEnds : ¬∀ image : List UInt8, WalkEnds image := by
  intro h
  have hlisted : (openFat selfListedImage).toOption.any fun start ↦
      start.listed selfListedImage start.rootCluster = [([65], 2)] ∧
        start.listed selfListedImage (some 2) = [([65], 2)] := by decide +kernel
  obtain ⟨start, hoption, hboth⟩ := (Option.any_eq_true _ _).mp hlisted
  have hstart : openFat selfListedImage = .ok start := by
    cases hopen : openFat selfListedImage with
    | error text =>
      rw [hopen] at hoption
      cases hoption
    | ok found =>
      rw [hopen] at hoption
      exact congrArg Except.ok (Option.some.inj hoption)
  obtain ⟨hroot, hself⟩ := of_decide_eq_true hboth
  have hacyclic := (FatWalk.mirrors.exists_descends_iff start.rootCall
    (FatWalk.finite_below _)).mp ((h selfListedImage).measure start hstart)
  refine hacyclic (some 2) (ReflTransGen.single ⟨([65], 2), ?_, rfl⟩)
    (TransGen.single ⟨([65], 2), ?_, rfl⟩)
  · exact hroot ▸ List.mem_cons_self
  · exact hself ▸ List.mem_cons_self

end SyzAbi.Targets

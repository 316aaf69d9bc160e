import SyzAbi.Agent.EventDecoding
import SyzAbi.Library.Utf8

/-!
# The canonical output of a `stat` probe

The abstraction of `struct stat` is split between the tracer, which zeroes the volatile fields
before it makes the preview and the digest, and `normalize_outputs`, which masks the first 32
characters of a long enough preview. The canonical outputs of two buffers are equal exactly when the
buffers agree outside the volatile fields: equal sanitized buffers have equal previews of any
length, masked or not, and the digest covers what a short preview does not show.
-/

set_option autoImplicit false
set_option relaxedAutoImplicit false

namespace SyzAbi.Agent

open Analyzer Orchestrator Library.Json

/-! ### Buffers -/

/-- The bytes of a `struct stat`. -/
structure StatBuffer (platform : Platform) where
  bytes : List UInt8
  length_eq : bytes.length = platform.statSize

/-- The offsets and sizes of the fields that `sanitize_stat_bytes` zeroes, in its order. -/
structure VolatileStatFields where
  stDev : ℕ × ℕ
  stIno : ℕ × ℕ
  stAtim : ℕ × ℕ
  stMtim : ℕ × ℕ
  stCtim : ℕ × ℕ

def VolatileStatFields.toList (fields : VolatileStatFields) : List (ℕ × ℕ) :=
  [fields.stDev, fields.stIno, fields.stAtim, fields.stMtim, fields.stCtim]

/-- The byte at an index belongs to one of the fields. -/
def InFields (fields : List (ℕ × ℕ)) (index : ℕ) : Prop :=
  ∃ field ∈ fields, field.1 ≤ index ∧ index < field.1 + field.2

instance (fields : List (ℕ × ℕ)) (index : ℕ) : Decidable (InFields fields index) :=
  inferInstanceAs (Decidable (∃ field ∈ fields, field.1 ≤ index ∧ index < field.1 + field.2))

/-- Two byte strings agree at every index outside the fields. -/
def AgreeOutside (fields : List (ℕ × ℕ)) (left right : List UInt8) : Prop :=
  ∀ index, ¬InFields fields index → left[index]? = right[index]?

/-- The probe of a `struct stat` behind an argument. -/
def statProbe {platform : Platform} (argIndex : Fin 6) (buffer : StatBuffer platform) :
    OutputProbe where
  label := statLabel
  argIndex := argIndex
  bytes := buffer.bytes
  resourceValues := []
  bytes_lt := by
    rw [buffer.length_eq]
    exact platform.statSize_lt
  resourceValues_le := Nat.zero_le 2

/-- The `struct stat` at an address. -/
def statAt (platform : Platform) (memory : UInt64 → UInt8) (address : Int64) :
    StatBuffer platform where
  bytes := bytesAt memory address platform.statSize
  length_eq := length_bytesAt memory address platform.statSize

/-- The canonical outputs of a `stat` probe. -/
def canonicalStat (env : TracerEnvironment) (argIndex : Fin 6) (buffer : StatBuffer env.platform)
    (ctx : CanonicalContext) : List CanonicalOutput :=
  ((normalizeOutputs [rawOutput env (statProbe argIndex buffer)]).run ctx).1

/-- A successful `fstat` or `newfstatat` with a buffer is probed so. -/
theorem collectOutputs_stat (platform : Platform) (call : TracedCall) (result : KernelResult)
    (hret : 0 ≤ result.ret) :
    (platform.probedSyscall call.number = some .fstat → call.args.a1 ≠ 0 →
      collectOutputs platform call result =
        [statProbe 1 (statAt platform result.memory call.args.a1)]) ∧
    (platform.probedSyscall call.number = some .newfstatat → call.args.a2 ≠ 0 →
      collectOutputs platform call result =
        [statProbe 2 (statAt platform result.memory call.args.a2)]) := by
  have hsuccess : ¬result.ret < 0 := Int64.not_lt.mpr hret
  constructor
  · intro hsyscall haddress
    rw [collectOutputs, if_neg hsuccess, hsyscall]
    exact if_pos haddress
  · intro hsyscall haddress
    rw [collectOutputs, if_neg hsuccess, hsyscall]
    exact if_pos haddress

/-! ### Zeroed fields -/

theorem getElem?_zeroRange (bytes : List UInt8) (field : ℕ × ℕ) (index : ℕ) :
    (zeroRange bytes field)[index]? = bytes[index]?.map fun byte ↦
      if field.1 ≤ index ∧ index < field.1 + field.2 then 0 else byte := by
  rw [zeroRange, List.getElem?_mapIdx]

/-- A run of `zero_range` zeroes the bytes of its fields and no others. -/
theorem getElem?_foldl_zeroRange (fields : List (ℕ × ℕ)) (bytes : List UInt8) (index : ℕ) :
    (fields.foldl zeroRange bytes)[index]? = bytes[index]?.map fun byte ↦
      if InFields fields index then 0 else byte := by
  induction fields generalizing bytes with
  | nil => simp [InFields]
  | cons field rest ih =>
    rw [List.foldl_cons, ih, getElem?_zeroRange, Option.map_map]
    congr 1
    funext byte
    have hfields : InFields (field :: rest) index ↔
        (field.1 ≤ index ∧ index < field.1 + field.2) ∨ InFields rest index := by
      simp [InFields]
    by_cases hfield : field.1 ≤ index ∧ index < field.1 + field.2
    · simp [hfields, hfield]
    · simp [hfields, hfield]

/-- Zeroing the fields of two strings of one length makes them equal exactly when they agree outside
the fields. -/
theorem foldl_zeroRange_eq_iff (fields : List (ℕ × ℕ)) {left right : List UInt8}
    (hlength : left.length = right.length) :
    fields.foldl zeroRange left = fields.foldl zeroRange right ↔
      AgreeOutside fields left right := by
  constructor
  · intro heq index houtside
    have hindex := congrArg (fun bytes ↦ bytes[index]?) heq
    simpa only [getElem?_foldl_zeroRange, if_neg houtside, Option.map_id'] using hindex
  · intro hagree
    refine List.ext_getElem? fun index ↦ ?_
    rw [getElem?_foldl_zeroRange, getElem?_foldl_zeroRange]
    by_cases hfield : InFields fields index
    · simp only [if_pos hfield]
      by_cases hlt : index < left.length
      · rw [List.getElem?_eq_getElem hlt, List.getElem?_eq_getElem (hlength ▸ hlt)]
        rfl
      · rw [List.getElem?_eq_none (not_lt.mp hlt), List.getElem?_eq_none (hlength ▸ not_lt.mp hlt)]
    · rw [hagree index hfield]

/-! ### Canonical outputs -/

theorem sanitizeStatBytes_buffer {platform : Platform} (buffer : StatBuffer platform) :
    sanitizeStatBytes platform buffer.bytes =
      platform.volatileStatFields.foldl zeroRange buffer.bytes := by
  rw [sanitizeStatBytes, if_neg (not_lt.mpr buffer.length_eq.ge)]

/-- Sanitized buffers are equal exactly when the buffers agree outside the volatile fields. -/
theorem sanitizeStatBytes_eq_iff {platform : Platform} {fields : VolatileStatFields}
    (hfields : platform.volatileStatFields = fields.toList) (left right : StatBuffer platform) :
    sanitizeStatBytes platform left.bytes = sanitizeStatBytes platform right.bytes ↔
      AgreeOutside fields.toList left.bytes right.bytes := by
  rw [sanitizeStatBytes_buffer, sanitizeStatBytes_buffer, hfields]
  exact foldl_zeroRange_eq_iff fields.toList (left.length_eq.trans right.length_eq.symm)

theorem probedBytes_statProbe {platform : Platform} (argIndex : Fin 6)
    (buffer : StatBuffer platform) :
    probedBytes platform (statProbe argIndex buffer) =
      sanitizeStatBytes platform buffer.bytes := by
  have hstat : isStatProbe platform (statProbe argIndex buffer) = true := by
    simp [isStatProbe, statProbe, statLabel, buffer.length_eq]
  rw [probedBytes, if_pos hstat, statProbe]

/-- Plain texts are the same strings only if they are the same texts. -/
theorem pyText_injective_of_plain {left right : Text}
    (hleft : ∀ c ∈ left, isIdentifierChar c = true)
    (hright : ∀ c ∈ right, isIdentifierChar c = true) (heq : pyText left = pyText right) :
    left = right := by
  have hback : ∀ text : Text, (∀ c ∈ text, isIdentifierChar c = true) →
      PyStr.ofString (pyText text) = text := by
    intro text htext
    rw [PyStr.ofString, pyText, String.toList_ofList, List.map_map]
    conv_rhs => rw [← List.map_id text]
    refine List.map_congr_left fun c hc ↦ ?_
    have hrange := isIdentifierChar_iff.mp (htext c hc)
    exact Library.Utf8.toNat_ofNat_ascii (by omega)
  rw [← hback left hleft, heq, hback right hright]

theorem rawOutput_statProbe (env : TracerEnvironment) (argIndex : Fin 6)
    (buffer : StatBuffer env.platform) :
    rawOutput env (statProbe argIndex buffer) =
      { label := "stat"
        argIndex := argIndex.val
        length := env.platform.statSize
        previewHex := pyText (hexPreview ((probedBytes env.platform
          (statProbe argIndex buffer)).take (safeProbeLength env.previewBytes
            env.platform.statSize)) 8192)
        sha256 := pyText (env.digest.hex (probedBytes env.platform
          (statProbe argIndex buffer))) } := by
  have hlength : (statProbe argIndex buffer).bytes.length = env.platform.statSize :=
    buffer.length_eq
  simp only [rawOutput, probePreview, hlength]
  rfl

/-- For every preview length, the canonical outputs of two `stat` probes are equal exactly when the
buffers agree outside the volatile fields, if the digest tells the sanitized buffers apart. -/
theorem canonicalStat_eq_iff (env : TracerEnvironment) (fields : VolatileStatFields)
    (hfields : env.platform.volatileStatFields = fields.toList) (argIndex : Fin 6)
    (left right : StatBuffer env.platform)
    (hdigest : env.digest.hex (sanitizeStatBytes env.platform left.bytes) =
        env.digest.hex (sanitizeStatBytes env.platform right.bytes) →
      sanitizeStatBytes env.platform left.bytes = sanitizeStatBytes env.platform right.bytes)
    (ctx ctx' : CanonicalContext) :
    canonicalStat env argIndex left ctx = canonicalStat env argIndex right ctx' ↔
      AgreeOutside fields.toList left.bytes right.bytes := by
  rw [← sanitizeStatBytes_eq_iff hfields, canonicalStat, canonicalStat, rawOutput_statProbe,
    rawOutput_statProbe, probedBytes_statProbe, probedBytes_statProbe]
  constructor
  · intro heq
    have hsha := congrArg (List.map CanonicalOutput.sha256) heq
    refine hdigest (pyText_injective_of_plain (env.digest.isIdentifier _)
      (env.digest.isIdentifier _) ?_)
    exact List.head_eq_of_cons_eq hsha
  · intro heq
    rw [heq]
    rfl

/-! ### The layout of x86-64 -/

def amd64StatFields : VolatileStatFields where
  stDev := (0, 8)
  stIno := (8, 8)
  stAtim := (72, 16)
  stMtim := (88, 16)
  stCtim := (104, 16)

/-- The numbers and sizes of the x86-64 headers. -/
def amd64 : Platform where
  probedSyscall := fun number ↦
    if number = 0 then some .read
    else if number = 17 then some .pread64
    else if number = 22 then some .pipe
    else if number = 293 then some .pipe2
    else if number = 53 then some .socketpair
    else if number = 5 then some .fstat
    else if number = 262 then some .newfstatat
    else if number = 61 then some .wait4
    else none
  statSize := 144
  volatileStatFields := amd64StatFields.toList
  rusageSize := 144
  statSize_lt := by norm_num
  rusageSize_lt := by norm_num

/-- A buffer of zeros but for the lowest byte of `st_ino`. -/
def statOfInode (inode : UInt8) : StatBuffer amd64 where
  bytes := List.replicate 8 0 ++ inode :: List.replicate 135 0
  length_eq := by simp [amd64]

/-- The digest of 144 zero bytes. -/
def zeroStatDigest : Digest where
  hex := fun _ ↦ PyStr.ofString "81c611f35bff79491538b2f7cf201c7597a661a5c549633541c62bdc8af1613f"
  isIdentifier := fun _ ↦ by decide
  length_eq := fun _ ↦ by decide

def amd64Environment (digest : Digest) (previewBytes : ℕ) : TracerEnvironment where
  side := referenceSide
  previewBytes := previewBytes
  digest := digest
  platform := amd64

theorem agreeOutside_statOfInode (inode inode' : UInt8) :
    AgreeOutside amd64StatFields.toList (statOfInode inode).bytes (statOfInode inode').bytes := by
  intro index houtside
  have hne : index ≠ 8 := by
    rintro rfl
    exact houtside (by decide)
  rw [statOfInode, statOfInode, List.getElem?_append, List.getElem?_append, List.length_replicate]
  by_cases hlt : index < 8
  · rw [if_pos hlt, if_pos hlt]
  · obtain ⟨rest, hrest⟩ : ∃ rest, index - 8 = rest + 1 := ⟨index - 9, by omega⟩
    rw [if_neg hlt, if_neg hlt, hrest, List.getElem?_cons_succ, List.getElem?_cons_succ]

theorem canonicalStat_eq_iff_statOfInode :
    canonicalStat (amd64Environment zeroStatDigest 32) 1 (statOfInode 0) {} =
        canonicalStat (amd64Environment zeroStatDigest 32) 1 (statOfInode 7) {} ↔
      AgreeOutside amd64StatFields.toList (statOfInode 0).bytes (statOfInode 7).bytes := by
  have hagree := agreeOutside_statOfInode 0 7
  exact canonicalStat_eq_iff (amd64Environment zeroStatDigest 32) amd64StatFields rfl 1
    (statOfInode 0) (statOfInode 7)
    (fun _ ↦ (sanitizeStatBytes_eq_iff rfl (statOfInode 0) (statOfInode 7)).mpr hagree) {} {}

end SyzAbi.Agent

import SyzAbi.Analyzer.Schemas
import SyzAbi.Library.LittleEndian

/-!
# Sampling a FAT image

`sample_fat_external_state` (`targets/tgoskits_arceos/api.py`): the external state of an ArceOS run
is read from its disk image. The boot sector gives the layout of the image and the type of the file
allocation table; a directory is read as the clusters of its chain, entry by entry, and `walk` calls
itself for every subdirectory. The recursion has the limit of the interpreter, which ends it on an
image whose directories form a cycle.

Digests are a parameter: nothing depends on the function that `hashlib.sha256` is.
-/

set_option autoImplicit false
set_option relaxedAutoImplicit false

namespace SyzAbi.Targets

open Library.LittleEndian

/-! ### Numbers -/

/-- `_fat_u16`. -/
def fatU16 (payload : List UInt8) (offset : ℕ) : ℕ := ofBytes (slice payload offset 2)

/-- `_fat_u32`. -/
def fatU32 (payload : List UInt8) (offset : ℕ) : ℕ := ofBytes (slice payload offset 4)

/-- `_fat_u12`. -/
def fatU12 (payload : List UInt8) (offset cluster : ℕ) : ℕ :=
  let value := ofBytes (slice payload offset 2)
  if cluster &&& 1 ≠ 0 then value >>> 4 else value &&& 0x0FFF

/-- `payload[index]` of a byte string that is long enough. -/
def byteAt (payload : List UInt8) (index : ℕ) : ℕ := (payload.getD index 0).toNat

/-! ### The layout of the image -/

inductive FatType
  | fat12
  | fat16
  | fat32
  deriving DecidableEq

/-- The four values of `_fat_type`. -/
structure FatLayout where
  fatType : FatType
  sectorsPerFat : ℕ
  rootEntryCount : ℕ
  rootDirSectors : ℕ
  deriving DecidableEq

/-- `_fat_type`; `none` when a division by zero is raised. -/
def fatTypeOf (image : List UInt8) (bytesPerSector sectorsPerCluster reservedSectors fatCount : ℕ) :
    Option FatLayout :=
  let rootEntryCount := fatU16 image 17
  let totalSectors16 := fatU16 image 19
  let totalSectors32 := fatU32 image 32
  let sectorsPerFat16 := fatU16 image 22
  let sectorsPerFat32 := fatU32 image 36
  let totalSectors := if totalSectors16 ≠ 0 then totalSectors16 else totalSectors32
  let sectorsPerFat := if sectorsPerFat16 ≠ 0 then sectorsPerFat16 else sectorsPerFat32
  if bytesPerSector = 0 then none
  else
    let rootDirSectors := (rootEntryCount * 32 + (bytesPerSector - 1)) / bytesPerSector
    let dataSectors : ℤ :=
      totalSectors - (reservedSectors + fatCount * sectorsPerFat + rootDirSectors : ℕ)
    let clusterCount := if sectorsPerCluster ≠ 0 then dataSectors / sectorsPerCluster else 0
    let fatType :=
      if clusterCount < 4085 then .fat12 else if clusterCount < 65525 then .fat16 else .fat32
    some ⟨fatType, sectorsPerFat, rootEntryCount, rootDirSectors⟩

/-- What the helpers of the sampler take from the boot sector. -/
structure FatGeometry where
  fatType : FatType
  fatOffset : ℕ
  bytesPerSector : ℕ
  sectorsPerCluster : ℕ
  firstDataSector : ℕ

/-! ### Chains -/

/-- `_fat_entry`. -/
def fatEntry (image : List UInt8) (fatOffset cluster : ℕ) : FatType → ℕ
  | .fat12 => fatU12 image (fatOffset + cluster * 3 / 2) cluster
  | .fat16 => fatU16 image (fatOffset + cluster * 2)
  | .fat32 => fatU32 image (fatOffset + cluster * 4) &&& 0x0FFFFFFF

/-- `eof` in `_fat_chain`. -/
def FatType.eof : FatType → ℕ
  | .fat12 => 0x0FF8
  | .fat16 => 0xFFF8
  | .fat32 => 0x0FFFFFF8

/-- The loop of `_fat_chain`. No cluster is taken twice, so it takes fewer turns than there are
cluster numbers. -/
def fatChainFrom (image : List UInt8) (fatOffset : ℕ) (fatType : FatType) :
    ℕ → List ℕ → ℕ → List ℕ
  | 0, _, _ => []
  | fuel + 1, seen, cluster =>
    if 2 ≤ cluster ∧ cluster < fatType.eof ∧ cluster ∉ seen then
      cluster :: fatChainFrom image fatOffset fatType fuel (cluster :: seen)
        (fatEntry image fatOffset cluster fatType)
    else []

/-- `_fat_chain`. -/
def fatChain (image : List UInt8) (fatOffset startCluster : ℕ) (fatType : FatType) : List ℕ :=
  if startCluster < 2 then []
  else fatChainFrom image fatOffset fatType fatType.eof [] startCluster

/-- `_fat_cluster_bytes`. -/
def fatClusterBytes (image : List UInt8) (geometry : FatGeometry) (cluster : ℕ) : List UInt8 :=
  slice image
    ((geometry.firstDataSector + (cluster - 2) * geometry.sectorsPerCluster) *
      geometry.bytesPerSector)
    (geometry.bytesPerSector * geometry.sectorsPerCluster)

/-- `_fat_read_chain`. -/
def fatReadChain (image : List UInt8) (geometry : FatGeometry) (startCluster : ℕ) : List UInt8 :=
  if startCluster < 2 then []
  else (fatChain image geometry.fatOffset startCluster geometry.fatType).flatMap
    (fatClusterBytes image geometry)

/-! ### Names -/

/-- The code points of a long-name fragment, without the terminator and the padding. -/
def decodeUnits : List UInt8 → PyStr
  | [] => []
  | [low] => if low = 0 then [] else [low.toNat]
  | low :: high :: rest =>
    let codepoint := ofBytes [low, high]
    if codepoint = 0x0000 ∨ codepoint = 0xFFFF then decodeUnits rest
    else codepoint :: decodeUnits rest

/-- `_fat_decode_lfn_fragment`. -/
def fatDecodeLfnFragment (entry : List UInt8) : PyStr :=
  decodeUnits (slice entry 1 10 ++ slice entry 14 12 ++ slice entry 28 4)

/-- `decode("ascii", errors="ignore").rstrip(" ")`. -/
def decodeAscii (bytes : List UInt8) : PyStr :=
  (((bytes.map UInt8.toNat).filter (· < 128)).reverse.dropWhile (· = 32)).reverse

/-- `_fat_short_name`. -/
def fatShortName (entry : List UInt8) : PyStr :=
  let stem := decodeAscii (slice entry 0 8)
  let suffix := decodeAscii (slice entry 8 3)
  if suffix ≠ [] then stem ++ 46 :: suffix else stem

/-- `f"{prefix}/{name}" if prefix else name`. -/
def joinPath (parent name : PyStr) : PyStr :=
  if parent ≠ [] then parent ++ 47 :: name else name

/-! ### Directories -/

/-- `entry_cluster`. -/
def entryCluster (entry : List UInt8) : FatType → ℕ
  | .fat32 => fatU16 entry 20 <<< 16 ||| fatU16 entry 26
  | _ => fatU16 entry 26

/-- The loop of `walk` over the entries of a directory. `recurse` is the call of `walk` for a
subdirectory, and the list is `lfn_parts`. -/
def walkEntries (sha256 : List UInt8 → String) (image : List UInt8) (geometry : FatGeometry)
    (recurse : PyStr → ℕ → Option (List FileItem)) (parent : PyStr) :
    ℕ → List PyStr → List UInt8 → Option (List FileItem)
  | 0, _, _ => some []
  | count + 1, lfnParts, directory =>
    let entry := directory.take 32
    let rest := directory.drop 32
    let first := byteAt entry 0
    let attributes := byteAt entry 11
    if first = 0x00 then some []
    else if first = 0xE5 then walkEntries sha256 image geometry recurse parent count [] rest
    else if attributes = 0x0F then
      walkEntries sha256 image geometry recurse parent count
        (fatDecodeLfnFragment entry :: lfnParts) rest
    else if attributes &&& 0x08 ≠ 0 then
      walkEntries sha256 image geometry recurse parent count [] rest
    else
      let name := if lfnParts ≠ [] then lfnParts.flatten else fatShortName entry
      if name ∈ [[], [46], [46, 46]] then
        walkEntries sha256 image geometry recurse parent count [] rest
      else
        let cluster := entryCluster entry geometry.fatType
        let relativePath := joinPath parent name
        if attributes &&& 0x10 ≠ 0 then do
          let inside ← if 2 ≤ cluster then recurse relativePath cluster else some []
          let behind ← walkEntries sha256 image geometry recurse parent count [] rest
          return inside ++ behind
        else do
          let size := fatU32 entry 28
          let content := (fatReadChain image geometry cluster).take size
          let behind ← walkEntries sha256 image geometry recurse parent count [] rest
          return { path := relativePath, size := size, sha256 := some (sha256 content) } :: behind

/-- `walk` on the bytes of a directory. The loop looks at whole entries only; `none` when the
recursion limit is exceeded. -/
def walk (sha256 : List UInt8 → String) (image : List UInt8) (geometry : FatGeometry) :
    ℕ → PyStr → List UInt8 → Option (List FileItem)
  | 0, _, _ => none
  | limit + 1, parent, directory =>
    walkEntries sha256 image geometry
      (fun path cluster ↦ walk sha256 image geometry limit path
        (fatReadChain image geometry cluster))
      parent (directory.length / 32) [] directory

/-! ### The sampler -/

/-- The order of `files.sort`. -/
def pathLe (a b : FileItem) : Bool := a.path ≤ b.path

/-- The answer when an exception was raised. -/
def readError (text : String) : ExternalState := { files := [], readError := some text }

/-- What the sampler has when it calls `walk`: the layout of the image and the two arguments. -/
structure FatWalk where
  geometry : FatGeometry
  rootCluster : Option ℕ
  rootDirectory : List UInt8

/-- The first part of `sample_fat_external_state`, up to the call of `walk`; the text of the
exception when one is raised. -/
def openFat (image : List UInt8) : Except String FatWalk :=
  if image.length < 64 then .error "disk image is too small to contain a FAT boot sector"
  else
    let bytesPerSector := fatU16 image 11
    let sectorsPerCluster := byteAt image 13
    let reservedSectors := fatU16 image 14
    let fatCount := byteAt image 16
    match fatTypeOf image bytesPerSector sectorsPerCluster reservedSectors fatCount with
    | none => .error "integer division or modulo by zero"
    | some layout =>
      let firstRootDirSector := reservedSectors + fatCount * layout.sectorsPerFat
      .ok {
        geometry := {
          fatType := layout.fatType
          fatOffset := reservedSectors * bytesPerSector
          bytesPerSector := bytesPerSector
          sectorsPerCluster := sectorsPerCluster
          firstDataSector := firstRootDirSector + layout.rootDirSectors }
        rootCluster := if layout.fatType = .fat32 then some (fatU32 image 44) else none
        rootDirectory := slice image (firstRootDirSector * bytesPerSector)
          (layout.rootDirSectors * bytesPerSector) }

/-- The bytes of the directory of a call. -/
def FatWalk.directory (start : FatWalk) (image : List UInt8) : Option ℕ → List UInt8
  | some cluster => fatReadChain image start.geometry cluster
  | none => start.rootDirectory

/-- `sample_fat_external_state` on the bytes of the image. -/
def sampleFatExternalState (sha256 : List UInt8 → String) (recursionLimit : ℕ)
    (image : List UInt8) : ExternalState :=
  match openFat image with
  | .error text => readError text
  | .ok start =>
    match walk sha256 image start.geometry recursionLimit []
      (start.directory image start.rootCluster) with
    | none => readError "maximum recursion depth exceeded"
    | some files => { files := files.mergeSort pathLe }

end SyzAbi.Targets

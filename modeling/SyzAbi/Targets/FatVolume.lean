import SyzAbi.Library.Utf16
import SyzAbi.Targets.FatImage

/-!
# FAT volumes

What it means that an image holds a directory tree, independently of the code that reads it. The
boot sector gives the geometry, the first file allocation table gives every cluster its entry
(packed in 12 bits, or in 2 or 4 bytes), and the content of a file or a directory lies in the
clusters of its chain. A directory is a sequence of entries of 32 bytes. A name is an 8.3 name, or a
long name in UTF-16 in the entries right before, last part first. The entries that are no files
stand anywhere between them: deleted entries, volume labels, and the entries for the directory
itself and its parent. Free clusters, the rest of a last cluster and what follows the end of a
directory are arbitrary.

More is a volume here than a file system would write: chains may cross, a part of a long name may be
short, and sequence numbers and checksums are free.
-/

set_option autoImplicit false
set_option relaxedAutoImplicit false

namespace SyzAbi.Targets

open Library Library.LittleEndian

/-! ### Directory trees -/

/-- A directory: its entries in their order, each with what follows it. -/
inductive Directory
  | nil
  | file (name : PyStr) (content : List UInt8) (behind : Directory)
  | dir (name : PyStr) (inside behind : Directory)

/-- The regular files below a directory, with their slash-joined paths. -/
def Directory.files : PyStr → Directory → List (PyStr × List UInt8)
  | _, .nil => []
  | parent, .file name content behind =>
    (joinPath parent name, content) :: behind.files parent
  | parent, .dir name inside behind =>
    inside.files (joinPath parent name) ++ behind.files parent

/-- The names of a tree. -/
def Directory.names : Directory → List PyStr
  | .nil => []
  | .file name _ behind => name :: behind.names
  | .dir name inside behind => name :: (inside.names ++ behind.names)

/-- The tree with the units of its names. -/
def Directory.utf16 : Directory → Directory
  | .nil => .nil
  | .file name content behind => .file (Utf16.encode name) content behind.utf16
  | .dir name inside behind => .dir (Utf16.encode name) inside.utf16 behind.utf16

/-- The number of directories that lie in one another. -/
def Directory.depth : Directory → ℕ
  | .nil => 1
  | .file _ _ behind => behind.depth
  | .dir _ inside behind => max (inside.depth + 1) behind.depth

/-! ### Boot sectors -/

/-- The numbers of a boot sector. -/
structure BootSector where
  bytesPerSector : ℕ
  sectorsPerCluster : ℕ
  reservedSectors : ℕ
  fatCount : ℕ
  rootEntryCount : ℕ
  totalSectors16 : ℕ
  sectorsPerFat16 : ℕ
  totalSectors32 : ℕ
  sectorsPerFat32 : ℕ
  rootCluster : ℕ

namespace BootSector

variable (boot : BootSector)

def totalSectors : ℕ := if boot.totalSectors16 ≠ 0 then boot.totalSectors16 else boot.totalSectors32

def sectorsPerFat : ℕ :=
  if boot.sectorsPerFat16 ≠ 0 then boot.sectorsPerFat16 else boot.sectorsPerFat32

/-- The offset of the first table. -/
def fatOffset : ℕ := boot.reservedSectors * boot.bytesPerSector

def firstRootDirSector : ℕ := boot.reservedSectors + boot.fatCount * boot.sectorsPerFat

/-- The fixed root directory ends with a sector. -/
def firstDataSector : ℕ :=
  boot.firstRootDirSector + boot.rootEntryCount * 32 / boot.bytesPerSector

def clusterCount : ℕ := (boot.totalSectors - boot.firstDataSector) / boot.sectorsPerCluster

/-- The number is that of a cluster. -/
def IsCluster (cluster : ℕ) : Prop := 2 ≤ cluster ∧ cluster < boot.clusterCount + 2

/-- The bytes of a cluster. -/
def clusterBytes (image : List UInt8) (cluster : ℕ) : List UInt8 :=
  slice image
    ((boot.firstDataSector + (cluster - 2) * boot.sectorsPerCluster) * boot.bytesPerSector)
    (boot.bytesPerSector * boot.sectorsPerCluster)

/-- The numbers are where a boot sector has them. Only large tables use the fields for them. -/
structure StoredIn (fatType : FatType) (image : List UInt8) : Prop where
  length : 64 ≤ image.length
  bytesPerSector : Stored image 11 2 boot.bytesPerSector
  sectorsPerCluster : Stored image 13 1 boot.sectorsPerCluster
  reservedSectors : Stored image 14 2 boot.reservedSectors
  fatCount : Stored image 16 1 boot.fatCount
  rootEntryCount : Stored image 17 2 boot.rootEntryCount
  totalSectors16 : Stored image 19 2 boot.totalSectors16
  sectorsPerFat16 : Stored image 22 2 boot.sectorsPerFat16
  totalSectors32 : boot.totalSectors16 = 0 → Stored image 32 4 boot.totalSectors32
  sectorsPerFat32 : boot.sectorsPerFat16 = 0 → Stored image 36 4 boot.sectorsPerFat32
  rootCluster : fatType = .fat32 → Stored image 44 4 boot.rootCluster

/-- The geometry is one of a volume, and the number of clusters is one of the type. -/
structure Valid (fatType : FatType) : Prop where
  bytesPerSector_pos : 0 < boot.bytesPerSector
  sectorsPerCluster_pos : 0 < boot.sectorsPerCluster
  rootDirectory : boot.bytesPerSector ∣ boot.rootEntryCount * 32
  data : boot.firstDataSector ≤ boot.totalSectors
  clusterCount :
    match fatType with
    | .fat12 => boot.clusterCount < 4085
    | .fat16 => 4085 ≤ boot.clusterCount ∧ boot.clusterCount < 65525
    | .fat32 => 65525 ≤ boot.clusterCount ∧ boot.clusterCount ≤ 0x0FFFFFF5

end BootSector

/-! ### Chains -/

/-- The entry of a cluster in the table at an offset. Two entries of 12 bits share three bytes; the
upper four bits of an entry of 32 bits are reserved. -/
def EntryStored (image : List UInt8) (fatOffset : ℕ) (fat : ℕ → ℕ) (cluster : ℕ) : FatType → Prop
  | .fat12 =>
    fat (2 * (cluster / 2)) < 4096 ∧
      Stored image (fatOffset + 3 * (cluster / 2)) 3
        (fat (2 * (cluster / 2)) + 4096 * fat (2 * (cluster / 2) + 1))
  | .fat16 => Stored image (fatOffset + 2 * cluster) 2 (fat cluster)
  | .fat32 =>
    fat cluster < 2 ^ 28 ∧
      ∃ reserved, Stored image (fatOffset + 4 * cluster) 4 (fat cluster + 2 ^ 28 * reserved)

/-- The first mark for the end of a chain. -/
def FatType.endMark : FatType → ℕ
  | .fat12 => 0x0FF8
  | .fat16 => 0xFFF8
  | .fat32 => 0x0FFFFFF8

/-- The clusters of the chain from a cluster on. -/
inductive ClusterChain (boot : BootSector) (fatType : FatType) (fat : ℕ → ℕ) : ℕ → List ℕ → Prop
  | last {cluster : ℕ} (hcluster : boot.IsCluster cluster) (hend : fatType.endMark ≤ fat cluster) :
    ClusterChain boot fatType fat cluster [cluster]
  | link {cluster : ℕ} {rest : List ℕ} (hcluster : boot.IsCluster cluster)
    (hnew : cluster ∉ rest) (hrest : ClusterChain boot fatType fat (fat cluster) rest) :
    ClusterChain boot fatType fat cluster (cluster :: rest)

/-- The tables of a volume, with the entries of all clusters. -/
structure FatTables (image : List UInt8) where
  fatType : FatType
  boot : BootSector
  fat : ℕ → ℕ
  stored : boot.StoredIn fatType image
  valid : boot.Valid fatType
  entries : ∀ cluster, boot.IsCluster cluster →
    EntryStored image boot.fatOffset fat cluster fatType

variable {image : List UInt8}

/-- The bytes in the chain from a cluster on. -/
def FatTables.ChainBytes (tables : FatTables image) (start : ℕ) (bytes : List UInt8) : Prop :=
  ∃ clusters, ClusterChain tables.boot tables.fatType tables.fat start clusters ∧
    bytes = clusters.flatMap (tables.boot.clusterBytes image)

/-! ### Names -/

/-- A part of an 8.3 name, filled up with spaces: ASCII characters, of which the last is no space.
-/
def PaddedText (bytes : List UInt8) (text : PyStr) : Prop :=
  (∃ spaces, bytes = text.map UInt8.ofNat ++ List.replicate spaces 32) ∧ (∀ c ∈ text, c < 128) ∧
    text.getLast? ≠ some 32

/-- An entry with an 8.3 name. -/
def ShortName (entry : List UInt8) (name : PyStr) : Prop :=
  ∃ stem suffix, PaddedText (slice entry 0 8) stem ∧ PaddedText (slice entry 8 3) suffix ∧
    name = if suffix = [] then stem else stem ++ 46 :: suffix

/-- The 13 units of a part of a long name: those of the name, a zero when there is room, and
padding. -/
def nameUnits (part : PyStr) : List ℕ := (part ++ 0 :: List.replicate 12 0xFFFF).take 13

/-- An entry with a part of a long name. -/
structure LongNameEntry (entry : List UInt8) (part : PyStr) : Prop where
  length : entry.length = 32
  first : byteAt entry 0 ≠ 0x00 ∧ byteAt entry 0 ≠ 0xE5
  attributes : byteAt entry 11 = 0x0F
  part_length : part.length ≤ 13
  part_units : ∀ unit ∈ part, 0 < unit ∧ unit < 0x10000
  units : slice entry 1 10 ++ slice entry 14 12 ++ slice entry 28 4 =
    (nameUnits part).flatMap (toBytes 2)

/-- The entries of a long name: the last part comes first. -/
inductive LongName : List UInt8 → PyStr → Prop
  | one {entry : List UInt8} {part : PyStr} (hentry : LongNameEntry entry part) :
    LongName entry part
  | more {entry names : List UInt8} {part name : PyStr} (hentry : LongNameEntry entry part)
    (hnames : LongName names name) : LongName (entry ++ names) (name ++ part)

/-- The units of the name of an entry, with the entries before it that hold them. An 8.3 name is
ASCII, so its units are its characters. -/
def HasName (names entry : List UInt8) (name : PyStr) : Prop :=
  names = [] ∧ ShortName entry name ∨ LongName names name

/-! ### Directories -/

/-- An entry that is no file: a deleted one, a volume label, or the directory itself or its
parent. -/
def IsNoFile (entry : List UInt8) : Prop :=
  byteAt entry 0 = 0xE5 ∨
  (byteAt entry 0 ≠ 0x00 ∧ byteAt entry 11 ≠ 0x0F ∧ byteAt entry 11 &&& 0x08 ≠ 0) ∨
  (byteAt entry 0 = 46 ∧ byteAt entry 11 &&& 0x08 = 0 ∧
    (ShortName entry [46] ∨ ShortName entry [46, 46]))

/-- An entry of a file or a directory with a name. -/
structure IsLive (entry : List UInt8) (name : PyStr) : Prop where
  length : entry.length = 32
  first : byteAt entry 0 ≠ 0x00 ∧ byteAt entry 0 ≠ 0xE5
  noLabel : byteAt entry 11 &&& 0x08 = 0
  name_ne : name ∉ [[], [46], [46, 46]]

/-- The first cluster of an entry. -/
def StartStored (entry : List UInt8) (start : ℕ) : FatType → Prop
  | .fat32 => Stored entry 26 2 (start % 65536) ∧ Stored entry 20 2 (start / 65536)
  | _ => Stored entry 26 2 start

/-- The content of a file: an empty one need not have a cluster. -/
def FatTables.HasContent (tables : FatTables image) (entry content : List UInt8) : Prop :=
  Stored entry 28 4 content.length ∧ ∃ start, StartStored entry start tables.fatType ∧
    (start = 0 ∧ content = [] ∨ ∃ bytes, tables.ChainBytes start bytes ∧ content <+: bytes)

/-- The bytes of a directory. The names of the tree are those of the entries, in units. -/
inductive DirectoryBytes (tables : FatTables image) : Directory → List UInt8 → Prop
  | full : DirectoryBytes tables .nil []
  | ended {entry : List UInt8} (rest : List UInt8) (hlength : entry.length = 32)
    (hend : byteAt entry 0 = 0x00) : DirectoryBytes tables .nil (entry ++ rest)
  | noFile {tree : Directory} {entry rest : List UInt8} (hlength : entry.length = 32)
    (hentry : IsNoFile entry) (hrest : DirectoryBytes tables tree rest) :
    DirectoryBytes tables tree (entry ++ rest)
  | file {name : PyStr} {content names entry rest : List UInt8} {behind : Directory}
    (hname : HasName names entry name) (hlive : IsLive entry name)
    (hfile : byteAt entry 11 &&& 0x10 = 0) (hcontent : tables.HasContent entry content)
    (hrest : DirectoryBytes tables behind rest) :
    DirectoryBytes tables (.file name content behind) (names ++ (entry ++ rest))
  | dir {name : PyStr} {start : ℕ} {bytes names entry rest : List UInt8} {inside behind : Directory}
    (hname : HasName names entry name) (hlive : IsLive entry name)
    (hdir : byteAt entry 11 &&& 0x10 ≠ 0) (hstart : StartStored entry start tables.fatType)
    (hbytes : tables.ChainBytes start bytes) (hinside : DirectoryBytes tables inside bytes)
    (hrest : DirectoryBytes tables behind rest) :
    DirectoryBytes tables (.dir name inside behind) (names ++ (entry ++ rest))

/-- A tree of Unicode names in an image: the root directory has a place of its own, or a chain. -/
structure FatVolume (image : List UInt8) extends FatTables image where
  tree : Directory
  unicode : ∀ name ∈ tree.names, ∀ c ∈ name, c.isValidChar
  root :
    match fatType with
    | .fat32 => ∃ bytes, toFatTables.ChainBytes boot.rootCluster bytes ∧
      DirectoryBytes toFatTables tree.utf16 bytes
    | _ => DirectoryBytes toFatTables tree.utf16
      (slice image (boot.firstRootDirSector * boot.bytesPerSector) (boot.rootEntryCount * 32))

end SyzAbi.Targets

import SyzAbi.Library.PathOrder
import SyzAbi.Targets.FatVolume

/-!
# What the sampler finds in a FAT volume

The reader of the boot sector, of the table and of the names finds what the volume stores, whatever
the type of the table (`fatTypeOf_stored`, `fatEntry_of_entryStored`, `fatReadChain_of_chainBytes`,
`walkEntries_hasName`), with two exceptions. Every unit of a long name becomes a character of its
own, and the unit 0xFFFF is taken for padding wherever it stands. So `walk` lists the files of the
tree that is read (`Directory.read`) in the order of its entries, with the units of their names, as
long as the interpreter lets it call itself once for every level (`walk_of_directoryBytes`).

The sampler has no bound of its own on the depth of a tree: for every tree that is deeper than the
recursion limit its answer is a read error. Below the limit it is exact when the characters of all
paths are below U+FFFF (`sampleFatExternalState_exact_iff`).
-/

set_option autoImplicit false
set_option relaxedAutoImplicit false

namespace SyzAbi.Targets

open Library Library.LittleEndian

/-! ### Numbers -/

section Numbers

variable {bytes : List UInt8} {offset n : ℕ}

theorem fatU16_of_stored (hstored : Stored bytes offset 2 n) : fatU16 bytes offset = n :=
  hstored.ofBytes_slice

theorem fatU32_of_stored (hstored : Stored bytes offset 4 n) : fatU32 bytes offset = n :=
  hstored.ofBytes_slice

theorem byteAt_of_stored (hstored : Stored bytes offset 1 n) : byteAt bytes offset = n := by
  obtain ⟨hlt, rest, hrest⟩ := hstored
  have hget : bytes[offset]? = some (UInt8.ofNat n) := by
    have hhead : (bytes.drop offset)[0]? = some (UInt8.ofNat n) := by
      rw [← hrest]
      rfl
    rwa [List.getElem?_drop, Nat.add_zero] at hhead
  rw [byteAt, List.getD_eq_getElem?_getD, hget, Option.getD_some]
  exact UInt8.toNat_ofNat_of_lt' hlt

end Numbers

/-! ### The boot sector -/

section Boot

variable {image : List UInt8} {boot : BootSector} {fatType : FatType}

theorem totalSectors_of_stored (hstored : boot.StoredIn fatType image) :
    (if fatU16 image 19 ≠ 0 then fatU16 image 19 else fatU32 image 32) = boot.totalSectors := by
  rw [fatU16_of_stored hstored.totalSectors16, BootSector.totalSectors]
  split_ifs with htotal
  · rfl
  · exact fatU32_of_stored (hstored.totalSectors32 (not_not.mp htotal))

theorem sectorsPerFat_of_stored (hstored : boot.StoredIn fatType image) :
    (if fatU16 image 22 ≠ 0 then fatU16 image 22 else fatU32 image 36) = boot.sectorsPerFat := by
  rw [fatU16_of_stored hstored.sectorsPerFat16, BootSector.sectorsPerFat]
  split_ifs with hsectors
  · rfl
  · exact fatU32_of_stored (hstored.sectorsPerFat32 (not_not.mp hsectors))

/-- A root directory of whole sectors is not rounded up. -/
theorem rootDirSectors_eq (hvalid : boot.Valid fatType) :
    (boot.rootEntryCount * 32 + (boot.bytesPerSector - 1)) / boot.bytesPerSector =
      boot.rootEntryCount * 32 / boot.bytesPerSector := by
  obtain ⟨sectors, hsectors⟩ := hvalid.rootDirectory
  have hpos := hvalid.bytesPerSector_pos
  rw [hsectors, Nat.mul_add_div hpos, Nat.mul_div_cancel_left sectors hpos,
    Nat.div_eq_of_lt (Nat.sub_lt hpos Nat.zero_lt_one), Nat.add_zero]

/-- The type of the table is found from the number of clusters. -/
theorem fatTypeOf_stored (hstored : boot.StoredIn fatType image) (hvalid : boot.Valid fatType) :
    fatTypeOf image boot.bytesPerSector boot.sectorsPerCluster boot.reservedSectors boot.fatCount =
      some ⟨fatType, boot.sectorsPerFat, boot.rootEntryCount,
        boot.rootEntryCount * 32 / boot.bytesPerSector⟩ := by
  have hcount : ((boot.totalSectors : ℤ) - (boot.reservedSectors +
      boot.fatCount * boot.sectorsPerFat +
        boot.rootEntryCount * 32 / boot.bytesPerSector : ℕ)) / (boot.sectorsPerCluster : ℤ) =
      boot.clusterCount := by
    have hdata := hvalid.data
    rw [BootSector.firstDataSector, BootSector.firstRootDirSector] at hdata
    rw [← Nat.cast_sub hdata, BootSector.clusterCount, BootSector.firstDataSector,
      BootSector.firstRootDirSector]
    rfl
  have hsize := hvalid.clusterCount
  simp only [fatTypeOf, totalSectors_of_stored hstored, sectorsPerFat_of_stored hstored,
    fatU16_of_stored hstored.rootEntryCount, rootDirSectors_eq hvalid,
    if_neg hvalid.bytesPerSector_pos.ne', if_pos hvalid.sectorsPerCluster_pos.ne', hcount]
  cases fatType with
  | fat12 => rw [if_pos (by exact_mod_cast hsize)]
  | fat16 =>
    have hlow : ¬(boot.clusterCount : ℤ) < 4085 := by
      have hle := hsize.1
      omega
    rw [if_neg hlow, if_pos (by exact_mod_cast hsize.2)]
  | fat32 =>
    have hle := hsize.1
    rw [if_neg (by omega), if_neg (by omega)]

end Boot

/-! ### Chains -/

section Chains

variable {image : List UInt8}

theorem fatEntry_of_entryStored {fatOffset cluster : ℕ} {fat : ℕ → ℕ} {fatType : FatType}
    (hstored : EntryStored image fatOffset fat cluster fatType) :
    fatEntry image fatOffset cluster fatType = fat cluster := by
  cases fatType with
  | fat12 =>
    obtain ⟨hlow, hpair⟩ := hstored
    have hhigh : fat (2 * (cluster / 2) + 1) < 4096 := by
      have hlt := hpair.1
      omega
    rw [fatEntry, fatU12]
    rcases Nat.even_or_odd' cluster with ⟨half, rfl | rfl⟩
    · have hhalf : 2 * half / 2 = half := by omega
      rw [hhalf] at hlow hhigh hpair
      have hvalue := hpair.ofBytes_slice_part (show 3 = 0 + (2 + 1) by omega)
      rw [Nat.add_zero, pow_zero, Nat.div_one] at hvalue
      rw [show fatOffset + 2 * half * 3 / 2 = fatOffset + 3 * half by omega, hvalue,
        Nat.and_one_is_mod, Nat.mul_mod_right, if_neg (not_not.mpr rfl),
        show 0x0FFF = 2 ^ 12 - 1 by norm_num, Nat.and_two_pow_sub_one_eq_mod]
      omega
    · have hhalf : (2 * half + 1) / 2 = half := by omega
      rw [hhalf] at hlow hhigh hpair
      have hvalue := hpair.ofBytes_slice_part (show 3 = 1 + (2 + 0) by omega)
      rw [show fatOffset + (2 * half + 1) * 3 / 2 = fatOffset + 3 * half + 1 by omega, hvalue,
        Nat.and_one_is_mod, if_pos (by omega), Nat.shiftRight_eq_div_pow]
      omega
  | fat16 =>
    rw [EntryStored, Nat.mul_comm] at hstored
    exact fatU16_of_stored hstored
  | fat32 =>
    obtain ⟨hlt, reserved, hentry⟩ := hstored
    rw [Nat.mul_comm] at hentry
    rw [fatEntry, fatU32_of_stored hentry, show 0x0FFFFFFF = 2 ^ 28 - 1 by norm_num,
      Nat.and_two_pow_sub_one_eq_mod, Nat.add_mul_mod_self_left, Nat.mod_eq_of_lt hlt]

theorem ClusterChain.isCluster {boot : BootSector} {fatType : FatType} {fat : ℕ → ℕ} {start : ℕ}
    {clusters : List ℕ} (hchain : ClusterChain boot fatType fat start clusters) :
    ∀ cluster ∈ clusters, boot.IsCluster cluster := by
  induction hchain with
  | last hcluster hend =>
    intro cluster hmem
    rwa [List.mem_singleton.mp hmem]
  | link hcluster hnew hrest ih => exact List.forall_mem_cons.mpr ⟨hcluster, ih⟩

theorem ClusterChain.nodup {boot : BootSector} {fatType : FatType} {fat : ℕ → ℕ} {start : ℕ}
    {clusters : List ℕ} (hchain : ClusterChain boot fatType fat start clusters) :
    clusters.Nodup := by
  induction hchain with
  | last hcluster hend => exact List.nodup_singleton _
  | link hcluster hnew hrest ih => exact List.nodup_cons.mpr ⟨hnew, ih⟩

/-- The number of a cluster is no mark for the end of a chain. -/
theorem lt_eof_of_isCluster {boot : BootSector} {fatType : FatType} (hvalid : boot.Valid fatType)
    {cluster : ℕ} (hcluster : boot.IsCluster cluster) : cluster < fatType.eof := by
  have hcount := hvalid.clusterCount
  have hlt := hcluster.2
  cases fatType with
  | fat12 =>
    show cluster < 0x0FF8
    have hfew : boot.clusterCount < 4085 := hcount
    omega
  | fat16 =>
    show cluster < 0xFFF8
    have hfew := hcount.2
    omega
  | fat32 =>
    show cluster < 0x0FFFFFF8
    have hfew := hcount.2
    omega

/-- The loop over a chain takes its clusters, when it has the turns and none was seen before. -/
theorem fatChainFrom_of_chain (tables : FatTables image) {start : ℕ} {clusters : List ℕ}
    (hchain : ClusterChain tables.boot tables.fatType tables.fat start clusters) {fuel : ℕ}
    (hfuel : clusters.length ≤ fuel) {seen : List ℕ}
    (hseen : ∀ cluster ∈ clusters, cluster ∉ seen) :
    fatChainFrom image tables.boot.fatOffset tables.fatType fuel seen start = clusters := by
  have hnext : ∀ {cluster : ℕ}, tables.boot.IsCluster cluster →
      fatEntry image tables.boot.fatOffset cluster tables.fatType = tables.fat cluster :=
    fun hcluster ↦ fatEntry_of_entryStored (tables.entries _ hcluster)
  induction hchain generalizing fuel seen with
  | last hcluster hend =>
    obtain ⟨fuel, rfl⟩ := Nat.exists_eq_succ_of_ne_zero (show fuel ≠ 0 by rintro rfl; cases hfuel)
    have hlt := lt_eof_of_isCluster tables.valid hcluster
    rw [fatChainFrom, if_pos ⟨hcluster.1, hlt, hseen _ List.mem_cons_self⟩, hnext hcluster]
    refine congrArg (_ :: ·) ?_
    cases fuel with
    | zero => rfl
    | succ fuel =>
      rw [fatChainFrom, if_neg]
      rintro ⟨-, hmark, -⟩
      exact absurd hmark (Nat.not_lt.mpr hend)
  | link hcluster hnew hrest ih =>
    obtain ⟨fuel, rfl⟩ := Nat.exists_eq_succ_of_ne_zero (show fuel ≠ 0 by rintro rfl; cases hfuel)
    have hlt := lt_eof_of_isCluster tables.valid hcluster
    rw [fatChainFrom, if_pos ⟨hcluster.1, hlt, hseen _ List.mem_cons_self⟩, hnext hcluster]
    refine congrArg (_ :: ·) (ih (Nat.le_of_succ_le_succ hfuel) fun other hother ↦ ?_)
    rw [List.mem_cons, not_or]
    refine ⟨?_, hseen other (List.mem_cons_of_mem _ hother)⟩
    rintro rfl
    exact hnew hother

/-- The geometry that the sampler makes of a boot sector. -/
def FatTables.geometry (tables : FatTables image) : FatGeometry where
  fatType := tables.fatType
  fatOffset := tables.boot.fatOffset
  bytesPerSector := tables.boot.bytesPerSector
  sectorsPerCluster := tables.boot.sectorsPerCluster
  firstDataSector := tables.boot.firstDataSector

/-- A chain is read as the bytes that are stored in it. -/
theorem fatReadChain_of_chainBytes (tables : FatTables image) {start : ℕ} {bytes : List UInt8}
    (hbytes : tables.ChainBytes start bytes) :
    2 ≤ start ∧ fatReadChain image tables.geometry start = bytes := by
  obtain ⟨clusters, hchain, rfl⟩ := hbytes
  have hstart : 2 ≤ start := by
    cases hchain with
    | last hcluster hend => exact hcluster.1
    | link hcluster hnew hrest => exact hcluster.1
  have hfuel : clusters.length ≤ tables.fatType.eof := by
    have hsubset : clusters ⊆ List.range tables.fatType.eof := fun cluster hmem ↦
      List.mem_range.mpr (lt_eof_of_isCluster tables.valid (hchain.isCluster cluster hmem))
    have hlength := (hchain.nodup.subperm hsubset).length_le
    rwa [List.length_range] at hlength
  have hclusters : fatChain image tables.boot.fatOffset start tables.fatType = clusters := by
    rw [fatChain, if_neg (Nat.not_lt.mpr hstart)]
    exact fatChainFrom_of_chain tables hchain hfuel fun _ _ ↦ List.not_mem_nil
  refine ⟨hstart, ?_⟩
  rw [fatReadChain, if_neg (Nat.not_lt.mpr hstart)]
  show (fatChain image tables.boot.fatOffset start tables.fatType).flatMap _ = _
  rw [hclusters]
  rfl

end Chains

/-! ### Names -/

/-- What is read of the units of a name: 0xFFFF is taken for padding wherever it stands. -/
def readName (name : PyStr) : PyStr := name.filter (· ≠ 0xFFFF)

theorem readName_append (first second : PyStr) :
    readName (first ++ second) = readName first ++ readName second :=
  List.filter_append _ _

theorem readName_eq_self {name : PyStr} (hname : 0xFFFF ∉ name) : readName name = name :=
  List.filter_eq_self.mpr fun _ hc ↦ decide_eq_true (ne_of_mem_of_not_mem hc hname)

/-- The units of a fragment are read without the terminator and the padding. -/
theorem decodeUnits_toBytes {units : List ℕ} (hunits : ∀ unit ∈ units, unit < 65536) :
    decodeUnits (units.flatMap (toBytes 2)) =
      units.filter fun unit ↦ !decide (unit = 0x0000 ∨ unit = 0xFFFF) := by
  induction units with
  | nil => rfl
  | cons unit rest ih =>
    obtain ⟨hunit, hrest⟩ := List.forall_mem_cons.mp hunits
    have hvalue : ofBytes [UInt8.ofNat unit, UInt8.ofNat (unit / 256)] = unit :=
      (ofBytes_toBytes 2 unit).trans (Nat.mod_eq_of_lt hunit)
    show decodeUnits (UInt8.ofNat unit :: UInt8.ofNat (unit / 256) :: rest.flatMap (toBytes 2)) = _
    rw [decodeUnits, hvalue, ih hrest]
    by_cases hpadding : unit = 0x0000 ∨ unit = 0xFFFF
    · rw [if_pos hpadding, List.filter_cons_of_neg (by rw [decide_eq_true hpadding]; decide)]
    · rw [if_neg hpadding, List.filter_cons_of_pos (by rw [decide_eq_false hpadding]; rfl)]

/-- A fragment of a long name is read as the part that it holds. -/
theorem fatDecodeLfnFragment_of_entry {entry : List UInt8} {part : PyStr}
    (hentry : LongNameEntry entry part) : fatDecodeLfnFragment entry = readName part := by
  have hpadding : ∀ unit ∈ (0 :: List.replicate 12 0xFFFF : List ℕ).take (13 - part.length),
      unit = 0x0000 ∨ unit = 0xFFFF := by
    intro unit hunit
    rcases List.mem_cons.mp (List.mem_of_mem_take hunit) with hzero | hmem
    · exact .inl hzero
    · exact .inr (List.eq_of_mem_replicate hmem)
  have hunits : nameUnits part =
      part ++ (0 :: List.replicate 12 0xFFFF : List ℕ).take (13 - part.length) := by
    rw [nameUnits, List.take_append, List.take_of_length_le hentry.part_length]
  have hlt : ∀ unit ∈ nameUnits part, unit < 65536 := by
    intro unit hunit
    rw [hunits, List.mem_append] at hunit
    rcases hunit with hcharacter | hpad
    · exact (hentry.part_units unit hcharacter).2
    · rcases hpadding unit hpad with rfl | rfl
      · decide
      · decide
  have hpart : (part.filter fun unit ↦ !decide (unit = 0x0000 ∨ unit = 0xFFFF)) =
      readName part := by
    refine List.filter_congr fun unit hunit ↦ ?_
    have hpos := (hentry.part_units unit hunit).1
    rw [← decide_not]
    exact decide_eq_decide.mpr (by omega)
  rw [fatDecodeLfnFragment, hentry.units, decodeUnits_toBytes hlt, hunits, List.filter_append,
    hpart, List.filter_eq_nil_iff.mpr, List.append_nil]
  intro unit hunit
  rw [decide_eq_true (hpadding unit hunit)]
  decide

/-- The spaces at the end of a part of an 8.3 name are dropped. -/
theorem decodeAscii_of_padded {bytes : List UInt8} {text : PyStr}
    (hpadded : PaddedText bytes text) :
    decodeAscii bytes = text := by
  obtain ⟨⟨spaces, rfl⟩, hascii, hlast⟩ := hpadded
  have htext : (text.map UInt8.ofNat).map UInt8.toNat = text := by
    rw [List.map_map]
    refine (List.map_congr_left fun c hc ↦ ?_).trans (List.map_id text)
    have hlt := hascii c hc
    exact UInt8.toNat_ofNat_of_lt' (by omega : c < 256)
  have hnumbers : (text.map UInt8.ofNat ++ List.replicate spaces 32).map UInt8.toNat =
      text ++ List.replicate spaces 32 := by
    rw [List.map_append, htext, List.map_replicate]
    rfl
  have hfilter : (text ++ List.replicate spaces 32).filter (· < 128) =
      text ++ List.replicate spaces 32 := by
    refine List.filter_eq_self.mpr fun c hc ↦ decide_eq_true ?_
    rcases List.mem_append.mp hc with hmem | hmem
    · exact hascii c hmem
    · rw [List.eq_of_mem_replicate hmem]
      decide
  have hdrop : text.reverse.dropWhile (fun c ↦ decide (c = 32)) = text.reverse := by
    cases hreverse : text.reverse with
    | nil => rfl
    | cons c rest =>
      rw [List.dropWhile_cons_of_neg]
      rw [decide_eq_true_eq]
      rintro rfl
      rw [List.getLast?_eq_head?_reverse, hreverse] at hlast
      exact hlast rfl
  rw [decodeAscii, hnumbers, hfilter, List.reverse_append, List.reverse_replicate,
    List.dropWhile_append_of_pos, hdrop, List.reverse_reverse]
  intro c hc
  exact decide_eq_true (List.eq_of_mem_replicate hc)

theorem fatShortName_of_shortName {entry : List UInt8} {name : PyStr}
    (hname : ShortName entry name) : fatShortName entry = name := by
  obtain ⟨stem, suffix, hstem, hsuffix, rfl⟩ := hname
  rw [fatShortName, decodeAscii_of_padded hstem, decodeAscii_of_padded hsuffix, ite_not]

/-- An 8.3 name is ASCII. -/
theorem readName_of_shortName {entry : List UInt8} {name : PyStr} (hname : ShortName entry name) :
    readName name = name := by
  refine readName_eq_self fun hmem ↦ ?_
  obtain ⟨stem, suffix, hstem, hsuffix, rfl⟩ := hname
  have hascii : 0xFFFF ∈ stem ∨ 0xFFFF ∈ suffix := by
    split_ifs at hmem
    · exact .inl hmem
    · exact (List.mem_append.mp hmem).imp_right fun hrest ↦
        (List.mem_cons.mp hrest).resolve_left (by decide)
  rcases hascii with hmem | hmem
  · exact absurd (hstem.2.1 _ hmem) (by decide)
  · exact absurd (hsuffix.2.1 _ hmem) (by decide)

/-! ### Entries -/

section Entries

variable (sha256 : List UInt8 → String) {image : List UInt8} (tables : FatTables image)
  (recurse : PyStr → ℕ → Option (List FileItem)) (parent : PyStr)

/-- The turns that a directory gives the loop, one for each entry. -/
theorem turns_append {entry : List UInt8} (hlength : entry.length = 32) (rest : List UInt8) :
    (entry ++ rest).length / 32 = rest.length / 32 + 1 := by
  rw [List.length_append, hlength]
  omega

variable {sha256 tables recurse parent}

theorem walkEntries_ended {entry : List UInt8} (hlength : entry.length = 32)
    (hend : byteAt entry 0 = 0x00) (count : ℕ) (lfnParts : List PyStr) (rest : List UInt8) :
    walkEntries sha256 image tables.geometry recurse parent (count + 1) lfnParts (entry ++ rest) =
      some [] := by
  have htake : (entry ++ rest).take 32 = entry := List.take_left' hlength
  rw [walkEntries]
  simp only [htake]
  rw [if_pos hend]

/-- The loop gathers the parts of a long name, the last one first. -/
theorem walkEntries_longName {names : List UInt8} {name : PyStr} (hname : LongName names name) :
    ∃ parts, parts ≠ [] ∧ parts.flatten = readName name ∧ ∀ lfnParts rest,
      walkEntries sha256 image tables.geometry recurse parent ((names ++ rest).length / 32) lfnParts
          (names ++ rest) =
        walkEntries sha256 image tables.geometry recurse parent (rest.length / 32)
          (parts ++ lfnParts) rest := by
  have hstep : ∀ {entry part}, LongNameEntry entry part → ∀ lfnParts rest,
      walkEntries sha256 image tables.geometry recurse parent ((entry ++ rest).length / 32) lfnParts
          (entry ++ rest) =
        walkEntries sha256 image tables.geometry recurse parent (rest.length / 32)
          (readName part :: lfnParts) rest := by
    intro entry part hentry lfnParts rest
    have htake : (entry ++ rest).take 32 = entry := List.take_left' hentry.length
    have hdrop : (entry ++ rest).drop 32 = rest := List.drop_left' hentry.length
    rw [turns_append hentry.length, walkEntries]
    simp only [htake, hdrop]
    rw [if_neg hentry.first.1, if_neg hentry.first.2, if_pos hentry.attributes,
      fatDecodeLfnFragment_of_entry hentry]
  induction hname with
  | @one entry part hentry =>
    exact ⟨[readName part], List.cons_ne_nil _ _, List.flatten_singleton, hstep hentry⟩
  | @more entry names part name hentry hnames ih =>
    obtain ⟨parts, hne, hflatten, hparts⟩ := ih
    refine ⟨parts ++ [readName part], List.append_ne_nil_of_left_ne_nil hne _, ?_,
      fun lfnParts rest ↦ ?_⟩
    · rw [List.flatten_append, hflatten, List.flatten_singleton, readName_append]
    · rw [List.append_assoc, hstep hentry, hparts, List.append_assoc]
      rfl

/-- Before the entry of a file or a directory the loop has gathered its name. -/
theorem walkEntries_hasName {names entry : List UInt8} {name : PyStr}
    (hname : HasName names entry name) (rest : List UInt8) :
    ∃ lfnParts, (if lfnParts ≠ [] then lfnParts.flatten else fatShortName entry) =
        readName name ∧
      walkEntries sha256 image tables.geometry recurse parent
          ((names ++ (entry ++ rest)).length / 32) [] (names ++ (entry ++ rest)) =
        walkEntries sha256 image tables.geometry recurse parent ((entry ++ rest).length / 32)
          lfnParts (entry ++ rest) := by
  rcases hname with ⟨rfl, hshort⟩ | hlong
  · refine ⟨[], ?_, rfl⟩
    rw [if_neg (not_not.mpr rfl), fatShortName_of_shortName hshort, readName_of_shortName hshort]
  · obtain ⟨parts, hne, hflatten, hparts⟩ := walkEntries_longName hlong
    refine ⟨parts, ?_, ?_⟩
    · rw [if_pos hne, hflatten]
    · rw [hparts [] (entry ++ rest), List.append_nil]

/-- An entry that is no file is passed over. -/
theorem walkEntries_noFile {entry : List UInt8} (hlength : entry.length = 32)
    (hentry : IsNoFile entry) (rest : List UInt8) :
    walkEntries sha256 image tables.geometry recurse parent ((entry ++ rest).length / 32) []
        (entry ++ rest) =
      walkEntries sha256 image tables.geometry recurse parent (rest.length / 32) [] rest := by
  have htake : (entry ++ rest).take 32 = entry := List.take_left' hlength
  have hdrop : (entry ++ rest).drop 32 = rest := List.drop_left' hlength
  rw [turns_append hlength, walkEntries]
  simp only [htake, hdrop]
  rcases hentry with hdeleted | ⟨hfirst, hpart, hlabel⟩ | ⟨hfirst, hattributes, hdot⟩
  · rw [hdeleted, if_neg (by decide), if_pos rfl]
  · rw [if_neg hfirst]
    split_ifs
    · rfl
    · rfl
  · have hname : fatShortName entry ∈ [[], [46], [46, 46]] := by
      rcases hdot with hself | hparent
      · rw [fatShortName_of_shortName hself]
        decide
      · rw [fatShortName_of_shortName hparent]
        decide
    have hpart : byteAt entry 11 ≠ 0x0F := by
      intro heq
      rw [heq] at hattributes
      exact absurd hattributes (by decide)
    rw [hfirst, if_neg (by decide), if_neg (by decide), if_neg hpart,
      if_neg (not_not.mpr hattributes), if_neg (not_not.mpr rfl), if_pos hname]

/-- The entry of a file or a directory, which is passed over when no name is read. -/
theorem walkEntries_live {names entry : List UInt8} {name : PyStr}
    (hname : HasName names entry name) (hlive : IsLive entry name) (rest : List UInt8) :
    walkEntries sha256 image tables.geometry recurse parent
        ((names ++ (entry ++ rest)).length / 32) [] (names ++ (entry ++ rest)) =
      if readName name ∈ [[], [46], [46, 46]] then
        walkEntries sha256 image tables.geometry recurse parent (rest.length / 32) [] rest
      else if byteAt entry 11 &&& 0x10 ≠ 0 then do
        let inside ←
          if 2 ≤ entryCluster entry tables.fatType then
            recurse (joinPath parent (readName name)) (entryCluster entry tables.fatType)
          else some []
        let behind ← walkEntries sha256 image tables.geometry recurse parent (rest.length / 32) []
          rest
        return inside ++ behind
      else do
        let size := fatU32 entry 28
        let content :=
          (fatReadChain image tables.geometry (entryCluster entry tables.fatType)).take size
        let behind ← walkEntries sha256 image tables.geometry recurse parent (rest.length / 32) []
          rest
        return { path := joinPath parent (readName name), size := size,
                 sha256 := some (sha256 content) } :: behind := by
  obtain ⟨lfnParts, hlfn, hstart⟩ := walkEntries_hasName hname rest
  have htake : (entry ++ rest).take 32 = entry := List.take_left' hlive.length
  have hdrop : (entry ++ rest).drop 32 = rest := List.drop_left' hlive.length
  have hpart : byteAt entry 11 ≠ 0x0F := by
    intro heq
    have hlabel := hlive.noLabel
    rw [heq] at hlabel
    exact absurd hlabel (by decide)
  rw [hstart, turns_append hlive.length, walkEntries]
  simp only [htake, hdrop]
  rw [if_neg hlive.first.1, if_neg hlive.first.2, if_neg hpart, if_neg (not_not.mpr hlive.noLabel),
    hlfn]
  rfl

/-- The first cluster of an entry is read from one field or from two. -/
theorem entryCluster_of_stored {entry : List UInt8} {start : ℕ} {fatType : FatType}
    (hstart : StartStored entry start fatType) : entryCluster entry fatType = start := by
  cases fatType with
  | fat12 => exact fatU16_of_stored hstart
  | fat16 => exact fatU16_of_stored hstart
  | fat32 =>
    obtain ⟨hlow, hhigh⟩ := hstart
    rw [entryCluster, fatU16_of_stored hlow, fatU16_of_stored hhigh]
    have hsum := Nat.shiftLeft_add_eq_or_of_lt (show start % 65536 < 2 ^ 16 by omega)
      (start / 65536)
    rw [← hsum, Nat.shiftLeft_eq]
    omega

/-- The content of a file is what its chain begins with. -/
theorem content_of_hasContent {entry content : List UInt8}
    (hcontent : tables.HasContent entry content) :
    fatU32 entry 28 = content.length ∧
      (fatReadChain image tables.geometry (entryCluster entry tables.fatType)).take
        content.length = content := by
  obtain ⟨hsize, start, hstart, hbytes⟩ := hcontent
  refine ⟨fatU32_of_stored hsize, ?_⟩
  rw [entryCluster_of_stored hstart]
  rcases hbytes with ⟨rfl, rfl⟩ | ⟨bytes, hchain, hprefix⟩
  · rfl
  · rw [(fatReadChain_of_chainBytes tables hchain).2]
    exact (List.prefix_iff_eq_take.mp hprefix).symm

end Entries

/-! ### Directories -/

/-- What the external state says of a regular file. -/
def fileItem (sha256 : List UInt8 → String) (file : PyStr × List UInt8) : FileItem where
  path := file.1
  size := file.2.length
  sha256 := some (sha256 file.2)

/-- The tree that `walk` goes through: the names as they are read, without the entries of which no
name is left or only dots that name a directory. -/
def Directory.read : Directory → Directory
  | .nil => .nil
  | .file name content behind =>
    if readName name ∈ [[], [46], [46, 46]] then behind.read
    else .file (readName name) content behind.read
  | .dir name inside behind =>
    if readName name ∈ [[], [46], [46, 46]] then behind.read
    else .dir (readName name) inside.read behind.read

theorem Directory.one_le_depth (tree : Directory) : 1 ≤ tree.depth := by
  induction tree with
  | nil => exact Nat.le_refl 1
  | file name content behind ih => exact ih
  | dir name inside behind hinside hbehind => exact hbehind.trans (Nat.le_max_right _ _)

variable {image : List UInt8} {tables : FatTables image}

/-- What `walk` makes of a directory when its loop is right under every recursion limit. -/
theorem walk_of_walkEntries {sha256 : List UInt8 → String} {tree : Directory} {bytes : List UInt8}
    (hentries : ∀ limit parent, walkEntries sha256 image tables.geometry
      (fun path cluster ↦ walk sha256 image tables.geometry limit path
        (fatReadChain image tables.geometry cluster)) parent (bytes.length / 32) [] bytes =
      if tree.read.depth ≤ limit + 1 then some ((tree.read.files parent).map (fileItem sha256))
      else none)
    (limit : ℕ) (parent : PyStr) :
    walk sha256 image tables.geometry limit parent bytes =
      if tree.read.depth ≤ limit then some ((tree.read.files parent).map (fileItem sha256))
      else none := by
  cases limit with
  | zero =>
    have hdepth := tree.read.one_le_depth
    rw [if_neg (by omega)]
    rfl
  | succ limit => exact hentries limit parent

/-- The loop over the entries of a directory lists the files of the tree that is read, unless that
is too deep. -/
theorem walkEntries_of_directoryBytes (sha256 : List UInt8 → String) {tree : Directory}
    {bytes : List UInt8} (hbytes : DirectoryBytes tables tree bytes) :
    ∀ limit parent, walkEntries sha256 image tables.geometry
      (fun path cluster ↦ walk sha256 image tables.geometry limit path
        (fatReadChain image tables.geometry cluster)) parent (bytes.length / 32) [] bytes =
      if tree.read.depth ≤ limit + 1 then some ((tree.read.files parent).map (fileItem sha256))
      else none := by
  induction hbytes with
  | full =>
    intro limit parent
    rw [if_pos (show Directory.nil.read.depth ≤ limit + 1 from Nat.le_add_left 1 limit)]
    rfl
  | ended rest hlength hend =>
    intro limit parent
    rw [turns_append hlength, walkEntries_ended hlength hend,
      if_pos (show Directory.nil.read.depth ≤ limit + 1 from Nat.le_add_left 1 limit)]
    rfl
  | noFile hlength hentry hrest ih =>
    intro limit parent
    rw [walkEntries_noFile hlength hentry]
    exact ih limit parent
  | @file name content names entry rest behind hname hlive hfile hcontent hrest ih =>
    intro limit parent
    obtain ⟨hsize, hcontent⟩ := content_of_hasContent hcontent
    rw [walkEntries_live hname hlive, if_neg (not_not.mpr hfile), ih, Directory.read]
    by_cases hno : readName name ∈ [[], [46], [46, 46]]
    · rw [if_pos hno, if_pos hno]
    have hdepth : (Directory.file (readName name) content behind.read).depth = behind.read.depth :=
      rfl
    rw [if_neg hno, if_neg hno, hdepth]
    simp only [hsize, hcontent]
    split_ifs
    · rfl
    · rfl
  | @dir name start bytes names entry rest inside behind hname hlive hdir hstart hbytes hinside
      hrest ihInside ihRest =>
    intro limit parent
    obtain ⟨htwo, hread⟩ := fatReadChain_of_chainBytes tables hbytes
    rw [walkEntries_live hname hlive, if_pos hdir, entryCluster_of_stored hstart, if_pos htwo,
      hread, walk_of_walkEntries ihInside, ihRest, Directory.read]
    by_cases hno : readName name ∈ [[], [46], [46, 46]]
    · rw [if_pos hno, if_pos hno]
    rw [if_neg hno, if_neg hno]
    by_cases hdeep : inside.read.depth ≤ limit
    · by_cases hothers : behind.read.depth ≤ limit + 1
      · have hdepth : (Directory.dir (readName name) inside.read behind.read).depth ≤ limit + 1 :=
          max_le (Nat.succ_le_succ hdeep) hothers
        rw [if_pos hdeep, if_pos hothers, if_pos hdepth, Directory.files, List.map_append]
        rfl
      · have hdepth : ¬(Directory.dir (readName name) inside.read behind.read).depth ≤ limit + 1 :=
          fun hle ↦ hothers ((Nat.le_max_right _ _).trans hle)
        rw [if_pos hdeep, if_neg hothers, if_neg hdepth]
        rfl
    · have hdepth : ¬(Directory.dir (readName name) inside.read behind.read).depth ≤ limit + 1 :=
        fun hle ↦ hdeep (Nat.le_of_succ_le_succ ((Nat.le_max_left _ _).trans hle))
      rw [if_neg hdeep, if_neg hdepth]
      rfl

/-- `walk` lists the files of the tree that is read in the order of its entries, unless the tree is
too deep. -/
theorem walk_of_directoryBytes (sha256 : List UInt8 → String) {tree : Directory}
    {bytes : List UInt8} (hbytes : DirectoryBytes tables tree bytes) (limit : ℕ) (parent : PyStr) :
    walk sha256 image tables.geometry limit parent bytes =
      if tree.read.depth ≤ limit then some ((tree.read.files parent).map (fileItem sha256))
      else none :=
  walk_of_walkEntries (walkEntries_of_directoryBytes sha256 hbytes) limit parent

/-! ### Units and characters -/

theorem encode_readName {name : PyStr} (hname : ∀ c ∈ name, c.isValidChar) :
    Utf16.encode (readName name) = readName (Utf16.encode name) :=
  (Utf16.filter_encode (by decide) (by decide) hname).symm

/-- The names that are passed over are ASCII. -/
theorem encode_mem_iff {name : PyStr} :
    Utf16.encode name ∈ [[], [46], [46, 46]] ↔ name ∈ [[], [46], [46, 46]] := by
  have heq : ∀ units ∈ ([[], [46], [46, 46]] : List PyStr),
      Utf16.encode name = units ↔ name = units := fun units hunits ↦
    Utf16.encode_eq_iff ((by decide : ∀ units ∈ ([[], [46], [46, 46]] : List PyStr),
      ∀ unit ∈ units, unit < 0xD800) units hunits)
  constructor
  · exact fun hmem ↦ (heq _ hmem).mp rfl ▸ hmem
  · exact fun hmem ↦ ((heq name hmem).mpr rfl).symm ▸ hmem

/-- The names are read before or after their encoding. -/
theorem Directory.read_utf16 {tree : Directory}
    (hnames : ∀ name ∈ tree.names, ∀ c ∈ name, c.isValidChar) :
    tree.utf16.read = tree.read.utf16 := by
  induction tree with
  | nil => rfl
  | file name content behind ih =>
    obtain ⟨hname, hbehind⟩ := List.forall_mem_cons.mp hnames
    rw [utf16, read, read, ← encode_readName hname, ih hbehind]
    split_ifs with hno hread hread
    · rfl
    · exact absurd (encode_mem_iff.mp hno) hread
    · exact absurd (encode_mem_iff.mpr hread) hno
    · rfl
  | dir name inside behind ihInside ihBehind =>
    obtain ⟨hname, hmore⟩ := List.forall_mem_cons.mp hnames
    obtain ⟨hinside, hbehind⟩ := List.forall_mem_append.mp hmore
    rw [utf16, read, read, ← encode_readName hname, ihInside hinside, ihBehind hbehind]
    split_ifs with hno hread hread
    · rfl
    · exact absurd (encode_mem_iff.mp hno) hread
    · exact absurd (encode_mem_iff.mpr hread) hno
    · rfl

theorem Directory.depth_utf16 (tree : Directory) : tree.utf16.depth = tree.depth := by
  induction tree with
  | nil => rfl
  | file _ _ _ ih => exact ih
  | dir _ _ _ ihInside ihBehind => rw [utf16, depth, depth, ihInside, ihBehind]

theorem encode_joinPath (parent name : PyStr) :
    Utf16.encode (joinPath parent name) = joinPath (Utf16.encode parent) (Utf16.encode name) := by
  by_cases hparent : parent = []
  · rw [hparent]
    rfl
  · rw [joinPath, if_pos hparent, joinPath, if_pos (mt Utf16.encode_eq_nil_iff.mp hparent),
      Utf16.encode_append, Utf16.encode_cons]
    rfl

/-- The units of a path are those of its names. -/
theorem Directory.files_utf16 (parent : PyStr) (tree : Directory) :
    tree.utf16.files (Utf16.encode parent) =
      (tree.files parent).map fun file ↦ (Utf16.encode file.1, file.2) := by
  induction tree generalizing parent with
  | nil => rfl
  | file name content behind ih =>
    rw [utf16, files, files, ih, ← encode_joinPath]
    rfl
  | dir name inside behind ihInside ihBehind =>
    rw [utf16, files, files, ihBehind, ← encode_joinPath, ihInside, List.map_append]

/-- What holds of the characters of all names, and of a slash, holds of those of all paths. -/
theorem Directory.forall_mem_files {p : ℕ → Prop} (hslash : p 47) {tree : Directory}
    (hnames : ∀ name ∈ tree.names, ∀ c ∈ name, p c) {parent : PyStr} (hparent : ∀ c ∈ parent, p c) :
    ∀ file ∈ tree.files parent, ∀ c ∈ file.1, p c := by
  have hjoin : ∀ {parent name : PyStr}, (∀ c ∈ parent, p c) → (∀ c ∈ name, p c) →
      ∀ c ∈ joinPath parent name, p c := by
    intro parent name hparent hname
    rw [joinPath]
    split_ifs
    · exact List.forall_mem_append.mpr ⟨hparent, List.forall_mem_cons.mpr ⟨hslash, hname⟩⟩
    · exact hname
  induction tree generalizing parent with
  | nil => exact fun _ hfile ↦ absurd hfile List.not_mem_nil
  | file name content behind ih =>
    obtain ⟨hname, hbehind⟩ := List.forall_mem_cons.mp hnames
    exact List.forall_mem_cons.mpr ⟨hjoin hparent hname, ih hbehind hparent⟩
  | dir name inside behind ihInside ihBehind =>
    obtain ⟨hname, hmore⟩ := List.forall_mem_cons.mp hnames
    obtain ⟨hinside, hbehind⟩ := List.forall_mem_append.mp hmore
    exact List.forall_mem_append.mpr ⟨ihInside hinside (hjoin hparent hname),
      ihBehind hbehind hparent⟩

/-- What is read holds names that were read, with characters of the names of the tree. -/
theorem Directory.forall_mem_names_read {p : ℕ → Prop} {tree : Directory}
    (hnames : ∀ name ∈ tree.names, ∀ c ∈ name, p c) :
    ∀ name ∈ tree.read.names, ∀ c ∈ name, p c ∧ c ≠ 0xFFFF := by
  have hread : ∀ {name : PyStr}, (∀ c ∈ name, p c) → ∀ c ∈ readName name, p c ∧ c ≠ 0xFFFF := by
    intro name hname c hc
    exact ⟨hname c (List.mem_of_mem_filter hc), of_decide_eq_true (List.mem_filter.mp hc).2⟩
  induction tree with
  | nil => exact fun _ hname ↦ absurd hname List.not_mem_nil
  | file name content behind ih =>
    obtain ⟨hname, hbehind⟩ := List.forall_mem_cons.mp hnames
    rw [read]
    split_ifs
    · exact ih hbehind
    · exact List.forall_mem_cons.mpr ⟨hread hname, ih hbehind⟩
  | dir name inside behind ihInside ihBehind =>
    obtain ⟨hname, hmore⟩ := List.forall_mem_cons.mp hnames
    obtain ⟨hinside, hbehind⟩ := List.forall_mem_append.mp hmore
    rw [read]
    split_ifs
    · exact ihBehind hbehind
    · exact List.forall_mem_cons.mpr ⟨hread hname,
        List.forall_mem_append.mpr ⟨ihInside hinside, ihBehind hbehind⟩⟩

/-! ### Paths with the unit -/

/-- A unit of the parent is one of every path. -/
theorem Directory.mem_of_mem_parent {c : ℕ} {parent : PyStr} (hc : c ∈ parent) (tree : Directory) :
    ∀ file ∈ tree.files parent, c ∈ file.1 := by
  have hjoin : ∀ {parent name : PyStr}, c ∈ parent → c ∈ joinPath parent name := by
    intro parent name hparent
    rw [joinPath]
    split_ifs with hempty
    · exact List.mem_append_left _ hparent
    · rw [not_not.mp hempty] at hparent
      cases hparent
  induction tree generalizing parent with
  | nil => exact fun _ hfile ↦ absurd hfile List.not_mem_nil
  | file name content behind ih => exact List.forall_mem_cons.mpr ⟨hjoin hc, ih hc⟩
  | dir name inside behind ihInside ihBehind =>
    exact List.forall_mem_append.mpr ⟨ihInside (hjoin hc), ihBehind hc⟩

theorem mem_joinPath_of_mem {c : ℕ} {parent name : PyStr} (hc : c ∈ name) :
    c ∈ joinPath parent name := by
  rw [joinPath]
  split_ifs
  · exact List.mem_append_right _ (List.mem_cons_of_mem _ hc)
  · exact hc

/-- A tree without files is read as one. -/
theorem Directory.files_read_eq_nil {tree : Directory} {parent other : PyStr}
    (hfiles : tree.files parent = []) : tree.read.files other = [] := by
  induction tree generalizing parent other with
  | nil => rfl
  | file name content behind ih => cases hfiles
  | dir name inside behind ihInside ihBehind =>
    obtain ⟨hinside, hbehind⟩ := List.append_eq_nil_iff.mp hfiles
    rw [read]
    split_ifs
    · exact ihBehind hbehind
    · rw [files, ihInside hinside, ihBehind hbehind, List.append_nil]

/-- A tree whose paths are free of the unit is read with its files. -/
theorem Directory.files_read {tree : Directory}
    (hnames : ∀ name ∈ tree.names, name ∉ [[], [46], [46, 46]]) {parent : PyStr}
    (hpaths : ∀ file ∈ tree.files parent, 0xFFFF ∉ file.1) :
    tree.read.files parent = tree.files parent := by
  induction tree generalizing parent with
  | nil => rfl
  | file name content behind ih =>
    obtain ⟨hname, hmore⟩ := List.forall_mem_cons.mp hnames
    obtain ⟨hpath, hbehind⟩ := List.forall_mem_cons.mp hpaths
    have hread : readName name = name := readName_eq_self fun hc ↦ hpath (mem_joinPath_of_mem hc)
    rw [read, hread, if_neg hname, files, files, ih hmore hbehind]
  | dir name inside behind ihInside ihBehind =>
    obtain ⟨hname, hmore⟩ := List.forall_mem_cons.mp hnames
    obtain ⟨hinner, houter⟩ := List.forall_mem_append.mp hmore
    obtain ⟨hinside, hbehind⟩ := List.forall_mem_append.mp hpaths
    by_cases hunit : 0xFFFF ∈ name
    · -- Below a directory with the unit in its name there is no file.
      have hempty : inside.files (joinPath parent name) = [] :=
        List.eq_nil_iff_forall_not_mem.mpr fun file hfile ↦
          hinside file hfile (inside.mem_of_mem_parent (mem_joinPath_of_mem hunit) file hfile)
      rw [read, files, hempty, List.nil_append]
      split_ifs
      · exact ihBehind houter hbehind
      · rw [files, files_read_eq_nil hempty, ihBehind houter hbehind, List.nil_append]
    · rw [read, readName_eq_self hunit, if_neg hname, files, files, ihInside hinner hinside,
        ihBehind houter hbehind]

theorem DirectoryBytes.names_ne {tree : Directory} {bytes : List UInt8}
    (hbytes : DirectoryBytes tables tree bytes) :
    ∀ name ∈ tree.names, name ∉ [[], [46], [46, 46]] := by
  induction hbytes with
  | full => exact fun _ hname ↦ absurd hname List.not_mem_nil
  | ended rest hlength hend => exact fun _ hname ↦ absurd hname List.not_mem_nil
  | noFile hlength hentry hrest ih => exact ih
  | file hname hlive hfile hcontent hrest ih =>
    exact List.forall_mem_cons.mpr ⟨hlive.name_ne, ih⟩
  | dir hname hlive hdir hstart hbytes hinside hrest ihInside ihRest =>
    exact List.forall_mem_cons.mpr ⟨hlive.name_ne, List.forall_mem_append.mpr ⟨ihInside, ihRest⟩⟩

theorem Directory.mem_names_utf16 {name : PyStr} (tree : Directory) (hname : name ∈ tree.names) :
    Utf16.encode name ∈ tree.utf16.names := by
  induction tree with
  | nil => cases hname
  | file other content behind ih =>
    rcases List.mem_cons.mp hname with rfl | hbehind
    · exact List.mem_cons_self
    · exact List.mem_cons_of_mem _ (ih hbehind)
  | dir other inside behind ihInside ihBehind =>
    rcases List.mem_cons.mp hname with rfl | hmore
    · exact List.mem_cons_self
    · refine List.mem_cons_of_mem _ (List.mem_append.mpr ?_)
      exact (List.mem_append.mp hmore).imp ihInside ihBehind

/-! ### The sampler -/

/-- The regular files of a volume, as the external state should list them. -/
def FatVolume.items (volume : FatVolume image) (sha256 : List UInt8 → String) : List FileItem :=
  (volume.tree.files []).map (fileItem sha256)

/-- The sampler opens a volume, and the root directory holds the tree. -/
theorem FatVolume.exists_openFat (volume : FatVolume image) :
    ∃ start, openFat image = .ok start ∧ start.geometry = volume.geometry ∧
      DirectoryBytes volume.toFatTables volume.tree.utf16
        (start.directory image start.rootCluster) := by
  obtain ⟨⟨fatType, boot, fat, stored, valid, entries⟩, tree, unicode, root⟩ := volume
  have hfixed : boot.rootEntryCount * 32 / boot.bytesPerSector * boot.bytesPerSector =
      boot.rootEntryCount * 32 := Nat.div_mul_cancel valid.rootDirectory
  rw [openFat, if_neg (Nat.not_lt.mpr stored.length)]
  simp only [fatU16_of_stored stored.bytesPerSector, byteAt_of_stored stored.sectorsPerCluster,
    fatU16_of_stored stored.reservedSectors, byteAt_of_stored stored.fatCount,
    fatTypeOf_stored stored valid]
  refine ⟨_, rfl, rfl, ?_⟩
  cases fatType with
  | fat12 => exact (congrArg (slice image _) hfixed).symm ▸ root
  | fat16 => exact (congrArg (slice image _) hfixed).symm ▸ root
  | fat32 =>
    obtain ⟨bytes, hchain, hdirectory⟩ := root
    have hcluster : fatU32 image 44 = boot.rootCluster := fatU32_of_stored (stored.rootCluster rfl)
    rw [if_pos rfl, FatWalk.directory, hcluster]
    exact (fatReadChain_of_chainBytes _ hchain).2.symm ▸ hdirectory

/-- The files that the sampler lists, with the units of their paths. -/
def FatVolume.readItems (volume : FatVolume image) (sha256 : List UInt8 → String) : List FileItem :=
  (volume.tree.read.files []).map fun file ↦ fileItem sha256 (Utf16.encode file.1, file.2)

/-- The answer of the sampler. -/
theorem sampleFatExternalState_volume (sha256 : List UInt8 → String) (recursionLimit : ℕ)
    (volume : FatVolume image) :
    sampleFatExternalState sha256 recursionLimit image =
      if volume.tree.read.depth ≤ recursionLimit then
        { files := (volume.readItems sha256).mergeSort pathLe }
      else readError "maximum recursion depth exceeded" := by
  obtain ⟨start, hopen, hgeometry, hroot⟩ := volume.exists_openFat
  have hwalk := walk_of_directoryBytes sha256 hroot recursionLimit []
  have hfiles : volume.tree.read.utf16.files [] =
      (volume.tree.read.files []).map fun file ↦ (Utf16.encode file.1, file.2) :=
    volume.tree.read.files_utf16 []
  rw [Directory.read_utf16 volume.unicode, Directory.depth_utf16, hfiles, List.map_map] at hwalk
  rw [sampleFatExternalState, hopen]
  simp only [hgeometry, hwalk]
  split_ifs
  · rfl
  · rfl

theorem FatVolume.names_ne (volume : FatVolume image) :
    ∀ name ∈ volume.tree.names, name ∉ [[], [46], [46, 46]] := by
  obtain ⟨start, -, -, hroot⟩ := volume.exists_openFat
  intro name hname hno
  exact hroot.names_ne _ (volume.tree.mem_names_utf16 hname) (encode_mem_iff.mpr hno)

theorem FatVolume.isValidChar_of_mem_files (volume : FatVolume image) :
    ∀ file ∈ volume.tree.files [], ∀ c ∈ file.1, c.isValidChar :=
  Directory.forall_mem_files (by decide) volume.unicode fun _ hc ↦ absurd hc List.not_mem_nil

/-- A path of Unicode characters is listed only when all of them are below U+FFFF. -/
theorem FatVolume.lt_of_mem_readItems (volume : FatVolume image) {sha256 : List UInt8 → String}
    {item : FileItem} (hitem : item ∈ volume.readItems sha256)
    (hvalid : ∀ c ∈ item.path, c.isValidChar) : ∀ c ∈ item.path, c < 0xFFFF := by
  obtain ⟨file, hfile, rfl⟩ := List.mem_map.mp hitem
  have hchars := Directory.forall_mem_files ⟨by decide, by decide⟩
    (Directory.forall_mem_names_read volume.unicode) (fun _ hc ↦ absurd hc List.not_mem_nil) file
    hfile
  have hplane := (Utf16.forall_mem_encode_iff fun c hc ↦ (hchars c hc).1).mp hvalid
  have hpath : (fileItem sha256 (Utf16.encode file.1, file.2)).path = file.1 :=
    Utf16.encode_eq_self hplane
  rw [hpath]
  intro c hc
  have hlt := hplane c hc
  have hne := (hchars c hc).2
  omega

/-- The sampler lists the files when all characters of their paths are below U+FFFF. -/
theorem FatVolume.readItems_eq (volume : FatVolume image) (sha256 : List UInt8 → String)
    (hpaths : ∀ file ∈ volume.tree.files [], ∀ c ∈ file.1, c < 0xFFFF) :
    volume.readItems sha256 = volume.items sha256 := by
  rw [readItems, Directory.files_read volume.names_ne fun file hfile hc ↦
    lt_irrefl _ (hpaths file hfile _ hc)]
  refine List.map_congr_left fun file hfile ↦ ?_
  rw [Utf16.encode_eq_self fun c hc ↦ (hpaths file hfile c hc).trans (by decide)]

theorem FatVolume.readItems_perm_iff (volume : FatVolume image) (sha256 : List UInt8 → String) :
    (volume.readItems sha256).Perm (volume.items sha256) ↔
      ∀ file ∈ volume.tree.files [], ∀ c ∈ file.1, c < 0xFFFF := by
  refine ⟨fun hperm file hfile ↦ ?_, fun hpaths ↦ ?_⟩
  · have hitem : fileItem sha256 file ∈ volume.readItems sha256 :=
      hperm.mem_iff.mpr (List.mem_map_of_mem hfile)
    exact volume.lt_of_mem_readItems hitem (volume.isValidChar_of_mem_files file hfile)
  · rw [volume.readItems_eq sha256 hpaths]

/-- An external state lists the regular files of a volume, each once, with its path, size and
digest, sorted by path. -/
structure SamplesExactly (volume : FatVolume image) (sha256 : List UInt8 → String)
    (state : ExternalState) : Prop where
  readError : state.readError = none
  files : state.files.Perm (volume.items sha256)
  sorted : state.files.Pairwise fun first second ↦ first.path ≤ second.path

/-- The sampler is exact on a volume exactly when the characters of all paths of files are below
U+FFFF and the interpreter lets `walk` call itself once for every directory on the way to the
deepest one. -/
theorem sampleFatExternalState_exact_iff (sha256 : List UInt8 → String) (recursionLimit : ℕ)
    (volume : FatVolume image) :
    SamplesExactly volume sha256 (sampleFatExternalState sha256 recursionLimit image) ↔
      volume.tree.read.depth ≤ recursionLimit ∧
        ∀ file ∈ volume.tree.files [], ∀ c ∈ file.1, c < 0xFFFF := by
  rw [sampleFatExternalState_volume, ← volume.readItems_perm_iff sha256]
  split_ifs with hdepth
  · rw [and_iff_right hdepth]
    refine ⟨fun hexact ↦ (List.mergeSort_perm _ _).symm.trans hexact.files, fun hperm ↦ ?_⟩
    refine ⟨rfl, (List.mergeSort_perm _ _).trans hperm, ?_⟩
    exact Library.PathOrder.pairwise_mergeSort (fun _ _ ↦ decide_eq_true_iff) _
  · refine iff_of_false ?_ fun hboth ↦ hdepth hboth.1
    rintro ⟨hnone, -, -⟩
    cases hnone

/-! ### A tree that is too deep -/

/-- Directories in one another, and nothing else. -/
def deepTree : ℕ → Directory
  | 0 => .nil
  | levels + 1 => .dir [65] (deepTree levels) .nil

theorem depth_deepTree (levels : ℕ) : (deepTree levels).read.depth = levels + 1 := by
  induction levels with
  | zero => rfl
  | succ levels ih =>
    rw [deepTree, Directory.read, if_neg (by decide), Directory.depth, ih]
    exact max_eq_left (Nat.le_add_left 1 _)

/-- The names are ASCII, so their units are their characters. -/
theorem utf16_deepTree (levels : ℕ) : (deepTree levels).utf16 = deepTree levels := by
  induction levels with
  | zero => rfl
  | succ levels ih =>
    rw [deepTree, Directory.utf16, ih]
    rfl

theorem names_deepTree (levels : ℕ) : ∀ name ∈ (deepTree levels).names, name = [65] := by
  induction levels with
  | zero => exact fun _ hname ↦ absurd hname List.not_mem_nil
  | succ levels ih =>
    refine List.forall_mem_cons.mpr ⟨rfl, List.forall_mem_append.mpr ⟨ih, ?_⟩⟩
    exact fun _ hname ↦ absurd hname List.not_mem_nil

/-- The entry of a directory `A`. -/
def deepEntry (start : ℕ) : List UInt8 :=
  65 :: List.replicate 10 32 ++ 0x10 :: List.replicate 14 0 ++ toBytes 2 start ++ toBytes 4 0

/-- The sector of a directory with so many directories below it, the first of them in a cluster. -/
def deepSector (below start : ℕ) : List UInt8 :=
  if below = 0 then List.replicate 512 0 else deepEntry start ++ List.replicate 480 0

/-- The boot sector of a volume with 512 bytes in a sector, one sector in a cluster, a table of 12
sectors and a root directory of one sector. -/
def deepBoot (levels : ℕ) : List UInt8 :=
  List.replicate 11 0 ++ toBytes 2 512 ++ toBytes 1 1 ++ toBytes 2 1 ++ toBytes 1 1 ++
    toBytes 2 16 ++ toBytes 2 (levels + 14) ++ toBytes 1 0 ++ toBytes 2 12 ++ List.replicate 488 0

/-- An image in which every directory takes one cluster. -/
def deepImage (levels : ℕ) : List UInt8 :=
  (deepBoot levels ++ List.replicate 6144 255) ++
    ((List.range (levels + 1)).map fun index ↦ deepSector (levels - index) (index + 2)).flatten

theorem length_deepBoot (levels : ℕ) : (deepBoot levels).length = 512 := by
  simp only [deepBoot, List.length_append, List.length_replicate, length_toBytes]

theorem length_deepSector (below start : ℕ) : (deepSector below start).length = 512 := by
  rw [deepSector]
  split_ifs
  · exact List.length_replicate
  · simp only [deepEntry, List.length_append, List.length_cons, List.length_replicate,
      length_toBytes]

/-- The root directory and the clusters lie behind one another. -/
theorem slice_deepImage {levels index : ℕ} (hindex : index ≤ levels) :
    slice (deepImage levels) ((13 + index) * 512) 512 =
      deepSector (levels - index) (index + 2) := by
  have hheader : (deepBoot levels ++ List.replicate 6144 (255 : UInt8)).length = 13 * 512 := by
    rw [List.length_append, length_deepBoot, List.length_replicate]
  have hsize : ∀ block ∈ (List.range (levels + 1)).map fun index ↦
      deepSector (levels - index) (index + 2), block.length = 512 := by
    intro block hblock
    obtain ⟨other, -, rfl⟩ := List.mem_map.mp hblock
    exact length_deepSector _ _
  have hblock : ((List.range (levels + 1)).map fun index ↦
      deepSector (levels - index) (index + 2))[index]? =
        some (deepSector (levels - index) (index + 2)) := by
    rw [List.getElem?_map, List.getElem?_range (Nat.lt_succ_of_le hindex)]
    rfl
  have hslice := slice_flatten hsize hblock (deepBoot levels ++ List.replicate 6144 255) []
  rw [List.append_nil] at hslice
  rw [Nat.add_mul, ← hheader]
  exact hslice

/-- The numbers of the boot sector. -/
def deepNumbers (levels : ℕ) : BootSector where
  bytesPerSector := 512
  sectorsPerCluster := 1
  reservedSectors := 1
  fatCount := 1
  rootEntryCount := 16
  totalSectors16 := levels + 14
  sectorsPerFat16 := 12
  totalSectors32 := 0
  sectorsPerFat32 := 0
  rootCluster := 0

/-- The boot sector stands at the head of an image, whatever follows it. -/
theorem stored_deepBoot {levels : ℕ} (hlevels : levels ≤ 4084) (behind : List UInt8) :
    (deepNumbers levels).StoredIn .fat12 (deepBoot levels ++ behind) := by
  have hboot : ∀ {offset width n : ℕ}, Stored (deepBoot levels) offset width n → offset ≤ 512 →
      Stored (deepBoot levels ++ behind) offset width n := by
    intro offset width n hstored hoffset
    exact hstored.append (by rw [length_deepBoot]; exact hoffset) _
  refine ⟨?_, ?_, ?_, ?_, ?_, ?_, ?_, ?_, ?_, ?_, ?_⟩
  · rw [List.length_append, length_deepBoot]
    omega
  · exact hboot ⟨show 512 < 256 ^ 2 by norm_num, _, rfl⟩ (by norm_num)
  · exact hboot ⟨show 1 < 256 ^ 1 by norm_num, _, rfl⟩ (by norm_num)
  · exact hboot ⟨show 1 < 256 ^ 2 by norm_num, _, rfl⟩ (by norm_num)
  · exact hboot ⟨show 1 < 256 ^ 1 by norm_num, _, rfl⟩ (by norm_num)
  · exact hboot ⟨show 16 < 256 ^ 2 by norm_num, _, rfl⟩ (by norm_num)
  · exact hboot ⟨show levels + 14 < 256 ^ 2 by omega, _, rfl⟩ (by norm_num)
  · exact hboot ⟨show 12 < 256 ^ 2 by norm_num, _, rfl⟩ (by norm_num)
  · intro hzero
    exact absurd hzero (Nat.succ_ne_zero _)
  · intro hzero
    cases hzero
  · intro htype
    cases htype

theorem stored_deepImage {levels : ℕ} (hlevels : levels ≤ 4084) :
    (deepNumbers levels).StoredIn .fat12 (deepImage levels) := by
  rw [deepImage, List.append_assoc]
  exact stored_deepBoot hlevels _

theorem firstDataSector_deepNumbers (levels : ℕ) :
    (deepNumbers levels).firstDataSector = 14 := by
  norm_num [deepNumbers, BootSector.firstDataSector, BootSector.firstRootDirSector,
    BootSector.sectorsPerFat]

theorem totalSectors_deepNumbers (levels : ℕ) :
    (deepNumbers levels).totalSectors = levels + 14 := by
  simp [deepNumbers, BootSector.totalSectors]

theorem clusterCount_deepNumbers (levels : ℕ) : (deepNumbers levels).clusterCount = levels := by
  rw [BootSector.clusterCount, totalSectors_deepNumbers, firstDataSector_deepNumbers,
    Nat.add_sub_cancel]
  exact Nat.div_one levels

theorem valid_deepNumbers {levels : ℕ} (hlevels : levels ≤ 4084) :
    (deepNumbers levels).Valid .fat12 where
  bytesPerSector_pos := show 0 < 512 by norm_num
  sectorsPerCluster_pos := Nat.zero_lt_one
  rootDirectory := ⟨1, rfl⟩
  data := by
    rw [firstDataSector_deepNumbers, totalSectors_deepNumbers]
    exact Nat.le_add_left 14 levels
  clusterCount := by
    show (deepNumbers levels).clusterCount < 4085
    rw [clusterCount_deepNumbers]
    omega

/-- Every cluster ends its chain. -/
theorem entryStored_deepImage {levels cluster : ℕ} (hlevels : levels ≤ 4084)
    (hcluster : (deepNumbers levels).IsCluster cluster) :
    EntryStored (deepImage levels) (deepNumbers levels).fatOffset (fun _ ↦ 0xFFF) cluster
      .fat12 := by
  have hlt := hcluster.2
  rw [clusterCount_deepNumbers] at hlt
  refine ⟨show 4095 < 4096 by norm_num, show 4095 + 4096 * 4095 < 256 ^ 3 by norm_num, ?_⟩
  have hoffset : (deepNumbers levels).fatOffset = (deepBoot levels).length :=
    (Nat.one_mul 512).trans (length_deepBoot levels).symm
  have hroom : 6144 = 3 * (cluster / 2) + (3 + (6141 - 3 * (cluster / 2))) := by omega
  have hbytes : toBytes 3 (4095 + 4096 * 4095) = List.replicate 3 255 := rfl
  rw [hoffset, deepImage, List.append_assoc, ← List.drop_drop, List.drop_left, hroom,
    List.replicate_add, List.replicate_add, List.append_assoc, List.append_assoc,
    List.drop_left' List.length_replicate, hbytes]
  exact List.prefix_append _ _

/-- The tables of the image. -/
def deepTables {levels : ℕ} (hlevels : levels ≤ 4084) : FatTables (deepImage levels) where
  fatType := .fat12
  boot := deepNumbers levels
  fat := fun _ ↦ 0xFFF
  stored := stored_deepImage hlevels
  valid := valid_deepNumbers hlevels
  entries := fun _ hcluster ↦ entryStored_deepImage hlevels hcluster

theorem shortName_deepEntry (start : ℕ) : ShortName (deepEntry start) [65] :=
  ⟨[65], [], ⟨⟨7, rfl⟩, by decide, by decide⟩, ⟨⟨3, rfl⟩, by decide, by decide⟩, rfl⟩

theorem attributes_deepEntry (start : ℕ) : byteAt (deepEntry start) 11 = 0x10 := rfl

theorem isLive_deepEntry (start : ℕ) : IsLive (deepEntry start) [65] where
  length := rfl
  first := ⟨show 65 ≠ 0 by norm_num, show 65 ≠ 0xE5 by norm_num⟩
  noLabel := by
    rw [attributes_deepEntry]
    decide
  name_ne := by decide

/-- The chain of a directory below the root directory. -/
theorem chainBytes_deepTables {levels below : ℕ} (hlevels : levels ≤ 4084)
    (hbelow : below < levels) :
    (deepTables hlevels).ChainBytes (levels - (below + 1) + 2)
      (deepSector below (levels - below + 2)) := by
  have hcluster : (deepNumbers levels).IsCluster (levels - (below + 1) + 2) := by
    refine ⟨Nat.le_add_left 2 _, ?_⟩
    rw [clusterCount_deepNumbers]
    omega
  refine ⟨[levels - (below + 1) + 2], .last hcluster (show 0x0FF8 ≤ 0xFFF by norm_num), ?_⟩
  have hplace : (13 + (levels - below)) * 512 =
      (14 + (levels - (below + 1) + 2 - 2) * 1) * 512 := by omega
  have hslice := slice_deepImage (Nat.sub_le levels below)
  rw [Nat.sub_sub_self hbelow.le, hplace] at hslice
  rw [List.flatMap_singleton, BootSector.clusterBytes]
  show _ = slice (deepImage levels) (((deepNumbers levels).firstDataSector +
    (levels - (below + 1) + 2 - 2) * 1) * 512) (512 * 1)
  rw [firstDataSector_deepNumbers]
  exact hslice.symm

/-- A directory in the image, with the directories below it. -/
theorem directoryBytes_deepSector {levels : ℕ} (hlevels : levels ≤ 4084) {below : ℕ}
    (hbelow : below ≤ levels) :
    DirectoryBytes (deepTables hlevels) (deepTree below)
      (deepSector below (levels - below + 2)) := by
  have hempty : ∀ rest : List UInt8, DirectoryBytes (deepTables hlevels) .nil
      (List.replicate 32 0 ++ rest) := fun rest ↦ .ended rest List.length_replicate rfl
  induction below with
  | zero =>
    have hzeros : deepSector 0 (levels - 0 + 2) = List.replicate 32 0 ++ List.replicate 480 0 := by
      rw [deepSector, if_pos rfl, List.replicate_append_replicate]
    rw [hzeros]
    exact hempty _
  | succ below ih =>
    have hsector : deepSector (below + 1) (levels - (below + 1) + 2) =
        [] ++ (deepEntry (levels - (below + 1) + 2) ++
          (List.replicate 32 0 ++ List.replicate 448 0)) := by
      rw [deepSector, if_neg below.succ_ne_zero, List.replicate_append_replicate, List.nil_append]
    have hstart : StartStored (deepEntry (levels - (below + 1) + 2)) (levels - (below + 1) + 2)
        .fat12 := ⟨show levels - (below + 1) + 2 < 256 ^ 2 by omega, _, rfl⟩
    rw [hsector]
    refine .dir (.inl ⟨rfl, shortName_deepEntry _⟩) (isLive_deepEntry _) ?_ hstart
      (chainBytes_deepTables hlevels hbelow) (ih (Nat.le_of_succ_le hbelow)) (hempty _)
    rw [attributes_deepEntry]
    decide

/-- A volume of nested directories. -/
def deepVolume {levels : ℕ} (hlevels : levels ≤ 4084) : FatVolume (deepImage levels) where
  toFatTables := deepTables hlevels
  tree := deepTree levels
  unicode := by
    intro name hname
    rw [names_deepTree levels name hname]
    decide
  root := by
    have hroot := directoryBytes_deepSector hlevels (Nat.le_refl levels)
    rw [← utf16_deepTree levels] at hroot
    have hslice := slice_deepImage (Nat.zero_le levels)
    rw [Nat.sub_self, Nat.zero_add] at hroot
    rw [Nat.sub_zero, Nat.zero_add] at hslice
    rw [← hslice] at hroot
    exact hroot

/-- With the default limit of the interpreter, 1000 nested directories are not sampled. -/
theorem deepVolume_not_exact :
    ¬∀ (sha256 : List UInt8 → String) (image : List UInt8) (volume : FatVolume image),
      SamplesExactly volume sha256 (sampleFatExternalState sha256 1000 image) := by
  intro hexact
  have hlevels : 1000 ≤ 4084 := by norm_num
  have hdepth : ¬(deepVolume hlevels).tree.read.depth ≤ 1000 := by
    show ¬(deepTree 1000).read.depth ≤ 1000
    rw [depth_deepTree]
    norm_num
  have hstate := (hexact (fun _ ↦ "") _ (deepVolume hlevels)).readError
  rw [sampleFatExternalState_volume _ _ (deepVolume hlevels), if_neg hdepth] at hstate
  cases hstate

end SyzAbi.Targets

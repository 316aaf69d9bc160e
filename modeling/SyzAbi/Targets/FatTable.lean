import SyzAbi.Library.Following
import SyzAbi.Targets.FatVolume

/-!
# The file allocation table

A table of links as it lies on a disk (`encodedTable`): two links of 12 bits share three bytes, a
link of 16 bits has two bytes, and of a link of 28 bits in four bytes the upper four bits are
arbitrary. `_fat_entry` finds the link of every cluster (`fatEntry_encodedTable`). `_fat_chain`
follows the links of any image until they lead to a number that is free (0), reserved (1) or an
end-of-chain mark, or back to a cluster of the chain (`fatChain_eq`); there are only finitely many
numbers between.
-/

set_option autoImplicit false
set_option relaxedAutoImplicit false

namespace SyzAbi.Targets

open Library.LittleEndian Library.Following

/-! ### Tables -/

/-- The bits of a link. -/
def FatType.linkBits : FatType → ℕ
  | .fat12 => 12
  | .fat16 => 16
  | .fat32 => 28

/-- Links of 12 bits. When their number is odd, four bits of the last byte are arbitrary. -/
def packedLinks (unused : ℕ) : List ℕ → List UInt8
  | [] => []
  | [link] => toBytes 2 (link + 4096 * unused)
  | even :: odd :: rest => toBytes 3 (even + 4096 * odd) ++ packedLinks unused rest

/-- The table of these links. The numbers in `unused` are the bits that belong to no link. -/
def encodedTable (unused : ℕ → ℕ) (links : List ℕ) : FatType → List UInt8
  | .fat12 => packedLinks (unused 0) links
  | .fat16 => (links.map (toBytes 2)).flatten
  | .fat32 => (links.zipIdx.map fun entry ↦
      toBytes 4 (entry.1 + 2 ^ 28 * unused entry.2)).flatten

/-- An entry of 12 bits from the two bytes that hold it. -/
theorem fatU12_of_slice {image : List UInt8} {offset cluster value : ℕ}
    (hvalue : ofBytes (slice image offset 2) = value) :
    fatU12 image offset cluster = if cluster % 2 = 1 then value / 16 else value % 4096 := by
  have hbit : cluster &&& 1 ≠ 0 ↔ cluster % 2 = 1 := by
    rw [Nat.and_one_is_mod]
    omega
  rw [fatU12, hvalue]
  refine if_congr hbit ?_ ?_
  · rw [Nat.shiftRight_eq_div_pow]
  · rw [show 0x0FFF = 2 ^ 12 - 1 by norm_num, Nat.and_two_pow_sub_one_eq_mod]

/-- The first two of three bytes hold the link of an even cluster. -/
theorem fatU12_even {image : List UInt8} {offset cluster width link high : ℕ}
    (hbytes : toBytes (2 + width) (link + 4096 * high) <+: image.drop offset) (hlink : link < 4096)
    (heven : cluster % 2 = 0) : fatU12 image offset cluster = link := by
  have hvalue := ofBytes_slice_part hbytes (show 2 + width = 0 + (2 + width) by omega)
  rw [Nat.add_zero, pow_zero, Nat.div_one] at hvalue
  rw [fatU12_of_slice hvalue, if_neg (by omega)]
  omega

/-- The last two of three bytes hold the link of an odd cluster. -/
theorem fatU12_odd {image : List UInt8} {offset cluster link low : ℕ}
    (hbytes : toBytes 3 (low + 4096 * link) <+: image.drop offset) (hlow : low < 4096)
    (hlink : link < 4096) (hodd : cluster % 2 = 1) :
    fatU12 image (offset + 1) cluster = link := by
  rw [fatU12_of_slice (ofBytes_slice_part hbytes (show 3 = 1 + (2 + 0) by omega)), if_pos hodd]
  omega

theorem fatU12_packedLinks (unused : ℕ) {links : List ℕ} (hlinks : ∀ link ∈ links, link < 4096)
    (before after : List UInt8) {cluster link : ℕ} (hlink : links[cluster]? = some link) :
    fatU12 (before ++ (packedLinks unused links ++ after)) (before.length + cluster * 3 / 2)
      cluster = link := by
  induction links using packedLinks.induct generalizing before cluster with
  | case1 => cases hlink
  | case2 last =>
    cases cluster with
    | succ cluster => cases hlink
    | zero =>
      obtain rfl := Option.some.inj hlink
      have hlast : toBytes (2 + 0) (last + 4096 * unused) <+:
          (before ++ (packedLinks unused [last] ++ after)).drop before.length := by
        rw [List.drop_left]
        exact List.prefix_append _ _
      exact fatU12_even hlast (hlinks _ List.mem_cons_self) rfl
  | case3 even odd rest ih =>
    obtain ⟨heven, hodd, hrest⟩ : even < 4096 ∧ odd < 4096 ∧ ∀ link ∈ rest, link < 4096 := by
      simpa only [List.forall_mem_cons] using hlinks
    have hpair : toBytes (2 + 1) (even + 4096 * odd) <+:
        (before ++ (packedLinks unused (even :: odd :: rest) ++ after)).drop before.length := by
      rw [List.drop_left, packedLinks, List.append_assoc]
      exact List.prefix_append _ _
    match cluster with
    | 0 =>
      obtain rfl := Option.some.inj hlink
      exact fatU12_even hpair heven rfl
    | 1 =>
      obtain rfl := Option.some.inj hlink
      exact fatU12_odd hpair heven hodd rfl
    | cluster + 2 =>
      have hbehind := ih hrest (before ++ toBytes 3 (even + 4096 * odd)) hlink
      have hoffset : before.length + (cluster + 2) * 3 / 2 =
          (before ++ toBytes 3 (even + 4096 * odd)).length + cluster * 3 / 2 := by
        rw [List.length_append, length_toBytes]
        omega
      have hparity : ∀ image offset, fatU12 image offset (cluster + 2) =
          fatU12 image offset cluster := by
        intro image offset
        rw [fatU12_of_slice rfl, fatU12_of_slice rfl, Nat.add_mod_right]
      rw [packedLinks, hoffset, hparity, ← hbehind]
      simp only [List.append_assoc]

/-- `_fat_entry` on a table of links, wherever it lies in an image. -/
theorem fatEntry_encodedTable {fatType : FatType} (unused : ℕ → ℕ) {links : List ℕ}
    (hlinks : ∀ link ∈ links, link < 2 ^ fatType.linkBits) (before after : List UInt8)
    {cluster link : ℕ} (hlink : links[cluster]? = some link) :
    fatEntry (before ++ (encodedTable unused links fatType ++ after)) before.length cluster
      fatType = link := by
  have hlt := hlinks link (List.mem_of_getElem? hlink)
  cases fatType with
  | fat12 => exact fatU12_packedLinks (unused 0) hlinks before after hlink
  | fat16 =>
    have hsize : ∀ block ∈ links.map (toBytes 2), block.length = 2 := by simp
    have hblock : (links.map (toBytes 2))[cluster]? = some (toBytes 2 link) := by simp [hlink]
    rw [fatEntry, fatU16, encodedTable, slice_flatten hsize hblock, ofBytes_toBytes]
    exact Nat.mod_eq_of_lt hlt
  | fat32 =>
    have hsize : ∀ block ∈ links.zipIdx.map fun entry ↦
        toBytes 4 (entry.1 + 2 ^ 28 * unused entry.2), block.length = 4 := by
      intro block hblock
      obtain ⟨entry, -, rfl⟩ := List.mem_map.mp hblock
      exact length_toBytes _ _
    have hblock : (links.zipIdx.map fun entry ↦
        toBytes 4 (entry.1 + 2 ^ 28 * unused entry.2))[cluster]? =
          some (toBytes 4 (link + 2 ^ 28 * unused cluster)) := by
      simp [hlink]
    have hmod : (256 : ℕ) ^ 4 = 2 ^ 28 * 16 := by norm_num
    rw [fatEntry, fatU32, encodedTable, slice_flatten hsize hblock, ofBytes_toBytes,
      show 0x0FFFFFFF = 2 ^ 28 - 1 by norm_num, Nat.and_two_pow_sub_one_eq_mod, hmod,
      Nat.mod_mul_right_mod, Nat.add_mul_mod_self_left]
    exact Nat.mod_eq_of_lt hlt

/-! ### Chains -/

/-- The numbers that `_fat_chain` follows: neither free (0) nor reserved (1), and below the first
end-of-chain mark. -/
def FatType.LeadsOn (fatType : FatType) (link : ℕ) : Prop := 2 ≤ link ∧ link < fatType.endMark

instance (fatType : FatType) : DecidablePred fatType.LeadsOn :=
  fun link ↦ inferInstanceAs (Decidable (2 ≤ link ∧ link < fatType.endMark))

/-- `_fat_chain` stops at the first end-of-chain mark. -/
theorem FatType.eof_eq_endMark (fatType : FatType) : fatType.eof = fatType.endMark := by
  cases fatType with
  | fat12 => rfl
  | fat16 => rfl
  | fat32 => rfl

theorem fatChainFrom_eq_follow (image : List UInt8) (fatOffset : ℕ) (fatType : FatType) (fuel : ℕ)
    (seen : List ℕ) (cluster : ℕ) :
    fatChainFrom image fatOffset fatType fuel seen cluster =
      follow (fatEntry image fatOffset · fatType) fatType.LeadsOn fuel seen cluster := by
  induction fuel generalizing seen cluster with
  | zero => rfl
  | succ fuel ih =>
    rw [fatChainFrom, follow, ih, fatType.eof_eq_endMark]
    exact if_congr and_assoc.symm rfl rfl

/-- `_fat_chain` ends on every image, and follows the links from the start up to the first that
leads nowhere or to a cluster of the chain. -/
theorem fatChain_eq (image : List UInt8) (fatOffset start : ℕ) (fatType : FatType) :
    ∃ count, IsLeast {n | StopsAt (fatEntry image fatOffset · fatType) fatType.LeadsOn start n}
        count ∧
      fatChain image fatOffset start fatType =
        reached (fatEntry image fatOffset · fatType) start count ∧
      ∀ fuel, count ≤ fuel → fatChainFrom image fatOffset fatType fuel [] start =
        fatChain image fatOffset start fatType := by
  have hfinite : ∀ link, fatType.LeadsOn link → link ∈ Finset.range fatType.eof :=
    fun link hleads ↦ Finset.mem_range.mpr (fatType.eof_eq_endMark ▸ hleads.2)
  obtain ⟨count, hle, hleast⟩ : ∃ count ≤ (Finset.range fatType.eof).card,
      IsLeast {n | StopsAt (fatEntry image fatOffset · fatType) fatType.LeadsOn start n} count :=
    exists_isLeast_stopsAt hfinite start
  rw [Finset.card_range] at hle
  have hloop : ∀ fuel, count ≤ fuel → fatChainFrom image fatOffset fatType fuel [] start =
      reached (fatEntry image fatOffset · fatType) start count := by
    intro fuel hfuel
    rw [fatChainFrom_eq_follow, follow_eq hleast hfuel]
  have hchain : fatChain image fatOffset start fatType =
      reached (fatEntry image fatOffset · fatType) start count := by
    rw [fatChain]
    split_ifs with hstart
    · have hzero : count = 0 := Nat.le_zero.mp (hleast.2 (.inl fun hleads ↦
        absurd hleads.1 (Nat.not_le.mpr hstart)))
      rw [hzero]
      rfl
    · exact hloop _ hle
  exact ⟨count, hleast, hchain, fun fuel hfuel ↦ (hloop fuel hfuel).trans hchain.symm⟩

/-- `_fat_entry` returns the encoded link of every cluster of a table. On every image `_fat_chain`
ends, and returns without repetitions the clusters from the start on, up to the first link that is
an end-of-chain mark, free or reserved, or leads to a cluster of the chain. -/
theorem fatTable_decoded :
    (∀ (fatType : FatType) (unused : ℕ → ℕ) (links : List ℕ) (before after : List UInt8)
        (cluster link : ℕ), (∀ link ∈ links, link < 2 ^ fatType.linkBits) →
      links[cluster]? = some link →
      fatEntry (before ++ (encodedTable unused links fatType ++ after)) before.length cluster
        fatType = link) ∧
      ∀ (image : List UInt8) (fatOffset start : ℕ) (fatType : FatType),
        (fatChain image fatOffset start fatType).Nodup ∧
        ∃ count, IsLeast
            {n | StopsAt (fatEntry image fatOffset · fatType) fatType.LeadsOn start n} count ∧
          fatChain image fatOffset start fatType =
            reached (fatEntry image fatOffset · fatType) start count ∧
          ∀ fuel, count ≤ fuel → fatChainFrom image fatOffset fatType fuel [] start =
            fatChain image fatOffset start fatType := by
  refine ⟨fun fatType unused links before after cluster link hlinks hlink ↦
    fatEntry_encodedTable unused hlinks before after hlink, fun image fatOffset start fatType ↦ ?_⟩
  obtain ⟨count, hleast, hchain, hloop⟩ := fatChain_eq image fatOffset start fatType
  refine ⟨?_, count, hleast, hchain, hloop⟩
  rw [hchain]
  exact nodup_reached fun n hn hstops ↦ absurd (hleast.2 hstops) (Nat.not_le.mpr hn)

/-- The third entry of a table of three links of 12 bits. -/
theorem fatTable_decoded_fat12 :
    fatEntry ([0xEB] ++ (encodedTable (fun _ ↦ 7) [0xFF8, 0xFFF, 0x345] .fat12 ++ [0x55])) 1 2
      .fat12 = 0x345 :=
  fatTable_decoded.1 .fat12 (fun _ ↦ 7) [0xFF8, 0xFFF, 0x345] [0xEB] [0x55] 2 0x345 (by decide) rfl

end SyzAbi.Targets

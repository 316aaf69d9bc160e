import SyzAbi.Agent.LinuxEvent
import SyzAbi.Library.Sha256

/-!
# The digest of the Linux tracer

SHA-256 as `agent/linux/trace.c` computes it. A context holds the bytes of the block that is not yet
full; `sha256_update` puts the bytes of the message there one by one and transforms a block that
becomes full (`Feeds.byte`). `sha256_final` writes the padding into the same buffer, in one block or
in two (`state_final`). What a context or a buffer holds at first is arbitrary, as the C code
initialises neither.
-/

set_option autoImplicit false
set_option relaxedAutoImplicit false

namespace SyzAbi.Agent.Sha256

open Library.Json Library.Sha256

/-! ### The code -/

/-- `sha256_ctx`. The words of `state` have the names of the working variables. -/
structure Sha256Ctx where
  data : Vector (BitVec 8) 64
  datalen : BitVec 32
  bitlen : BitVec 64
  state : Registers

def rotr (value : BitVec 32) (bits : ℕ) : BitVec 32 := (value >>> bits) ||| (value <<< (32 - bits))

/-- The table `k` of `sha256_transform`. -/
def k : List (BitVec 32) :=
  [0x428a2f98, 0x71374491, 0xb5c0fbcf, 0xe9b5dba5, 0x3956c25b, 0x59f111f1, 0x923f82a4,
    0xab1c5ed5, 0xd807aa98, 0x12835b01, 0x243185be, 0x550c7dc3, 0x72be5d74, 0x80deb1fe,
    0x9bdc06a7, 0xc19bf174, 0xe49b69c1, 0xefbe4786, 0x0fc19dc6, 0x240ca1cc, 0x2de92c6f,
    0x4a7484aa, 0x5cb0a9dc, 0x76f988da, 0x983e5152, 0xa831c66d, 0xb00327c8, 0xbf597fc7,
    0xc6e00bf3, 0xd5a79147, 0x06ca6351, 0x14292967, 0x27b70a85, 0x2e1b2138, 0x4d2c6dfc,
    0x53380d13, 0x650a7354, 0x766a0abb, 0x81c2c92e, 0x92722c85, 0xa2bfe8a1, 0xa81a664b,
    0xc24b8b70, 0xc76c51a3, 0xd192e819, 0xd6990624, 0xf40e3585, 0x106aa070, 0x19a4c116,
    0x1e376c08, 0x2748774c, 0x34b0bcb5, 0x391c0cb3, 0x4ed8aa4a, 0x5b9cca4f, 0x682e6ff3,
    0x748f82ee, 0x78a5636f, 0x84c87814, 0x8cc70208, 0x90befffa, 0xa4506ceb, 0xbef9a3f7,
    0xc67178f2]

/-- The word at an index of the data. -/
def dataWord (data : Vector (BitVec 8) 64) (j : ℕ) : BitVec 32 :=
  let byte (n : ℕ) : BitVec 32 := (data.toList.getD n 0).setWidth 32
  (byte j <<< 24) ||| (byte (j + 1) <<< 16) ||| (byte (j + 2) <<< 8) ||| byte (j + 3)

/-- A turn of the second loop over `m`, which holds the words before. -/
def extendWords (m : List (BitVec 32)) (i : ℕ) : List (BitVec 32) :=
  let old (n : ℕ) : BitVec 32 := m.getD n 0
  let s0 := rotr (old (i - 15)) 7 ^^^ rotr (old (i - 15)) 18 ^^^ (old (i - 15) >>> 3)
  let s1 := rotr (old (i - 2)) 17 ^^^ rotr (old (i - 2)) 19 ^^^ (old (i - 2) >>> 10)
  m ++ [old (i - 16) + s0 + old (i - 7) + s1]

/-- The words `m` of `sha256_transform`. -/
def words (data : Vector (BitVec 8) 64) : List (BitVec 32) :=
  (List.range' 16 48).foldl extendWords ((List.range 16).map fun i ↦ dataWord data (4 * i))

/-- A turn of the last loop of `sha256_transform`. -/
def transformStep (m : List (BitVec 32)) (r : Registers) (i : ℕ) : Registers :=
  let S1 := rotr r.e 6 ^^^ rotr r.e 11 ^^^ rotr r.e 25
  let ch := (r.e &&& r.f) ^^^ (~~~r.e &&& r.g)
  let temp1 := r.h + S1 + ch + k.getD i 0 + m.getD i 0
  let S0 := rotr r.a 2 ^^^ rotr r.a 13 ^^^ rotr r.a 22
  let maj := (r.a &&& r.b) ^^^ (r.a &&& r.c) ^^^ (r.b &&& r.c)
  let temp2 := S0 + maj
  { a := temp1 + temp2, b := r.a, c := r.b, d := r.c
    e := r.d + temp1, f := r.e, g := r.f, h := r.g }

/-- `sha256_transform` of the data of the context. -/
def sha256Transform (ctx : Sha256Ctx) : Sha256Ctx :=
  let working := (List.range 64).foldl (transformStep (words ctx.data)) ctx.state
  { ctx with state := ctx.state.add working }

/-- `sha256_init`. -/
def sha256Init (ctx : Sha256Ctx) : Sha256Ctx :=
  { ctx with
    datalen := 0
    bitlen := 0
    state := ⟨0x6a09e667, 0xbb67ae85, 0x3c6ef372, 0xa54ff53a, 0x510e527f, 0x9b05688c, 0x1f83d9ab,
      0x5be0cd19⟩ }

/-- A turn of the loop of `sha256_update`. -/
def updateByte (ctx : Sha256Ctx) (byte : BitVec 8) : Sha256Ctx :=
  let ctx := { ctx with data := ctx.data.setIfInBounds ctx.datalen.toNat byte }
  let ctx := { ctx with datalen := ctx.datalen + 1 }
  if ctx.datalen = 64 then
    let ctx := sha256Transform ctx
    { ctx with bitlen := ctx.bitlen + 512, datalen := 0 }
  else ctx

/-- `sha256_update`. -/
def sha256Update (ctx : Sha256Ctx) (data : List (BitVec 8)) : Sha256Ctx := data.foldl updateByte ctx

/-- The bytes from `i` to `stop` set to zero. -/
def zeroBytes (data : Vector (BitVec 8) 64) (i stop : ℕ) : Vector (BitVec 8) 64 :=
  (List.range' i (stop - i)).foldl (fun data i ↦ data.setIfInBounds i 0) data

/-- The first part of `sha256_final`: the bytes of the padding before the length. -/
def finalPad (ctx : Sha256Ctx) : Sha256Ctx :=
  let i := ctx.datalen.toNat
  if i < 56 then
    { ctx with data := zeroBytes (ctx.data.setIfInBounds i 0x80) (i + 1) 56 }
  else
    let ctx := sha256Transform
      { ctx with data := zeroBytes (ctx.data.setIfInBounds i 0x80) (i + 1) 64 }
    { ctx with data := zeroBytes ctx.data 0 56 }

/-- The second part of `sha256_final`: the length and the last block. -/
def finalLength (ctx : Sha256Ctx) : Sha256Ctx :=
  let bitlen := ctx.bitlen + (ctx.datalen * 8).setWidth 64
  let data := ctx.data.setIfInBounds 63 (bitlen.setWidth 8)
  let data := data.setIfInBounds 62 ((bitlen >>> 8).setWidth 8)
  let data := data.setIfInBounds 61 ((bitlen >>> 16).setWidth 8)
  let data := data.setIfInBounds 60 ((bitlen >>> 24).setWidth 8)
  let data := data.setIfInBounds 59 ((bitlen >>> 32).setWidth 8)
  let data := data.setIfInBounds 58 ((bitlen >>> 40).setWidth 8)
  let data := data.setIfInBounds 57 ((bitlen >>> 48).setWidth 8)
  let data := data.setIfInBounds 56 ((bitlen >>> 56).setWidth 8)
  sha256Transform { ctx with data := data, bitlen := bitlen }

/-- A byte of a word of the state. -/
def stateByte (state : BitVec 32) (i : ℕ) : BitVec 8 :=
  ((state >>> (24 - i * 8)) &&& 0x000000ff).setWidth 8

/-- A turn of the loop of `sha256_final` that writes the hash. -/
def writeHash (state : Registers) (hash : Vector (BitVec 8) 32) (i : ℕ) : Vector (BitVec 8) 32 :=
  let hash := hash.setIfInBounds i (stateByte state.a i)
  let hash := hash.setIfInBounds (i + 4) (stateByte state.b i)
  let hash := hash.setIfInBounds (i + 8) (stateByte state.c i)
  let hash := hash.setIfInBounds (i + 12) (stateByte state.d i)
  let hash := hash.setIfInBounds (i + 16) (stateByte state.e i)
  let hash := hash.setIfInBounds (i + 20) (stateByte state.f i)
  let hash := hash.setIfInBounds (i + 24) (stateByte state.g i)
  hash.setIfInBounds (i + 28) (stateByte state.h i)

/-- `sha256_final`. -/
def sha256Final (ctx : Sha256Ctx) (hash : Vector (BitVec 8) 32) :
    Sha256Ctx × Vector (BitVec 8) 32 :=
  let ctx := finalLength (finalPad ctx)
  (ctx, (List.range 4).foldl (writeHash ctx.state) hash)

/-- The table `hex` of `digest_hex`. -/
def hex : List ℕ := PyStr.ofString "0123456789abcdef"

/-- The loop of `digest_hex` and the byte behind it. -/
def digestLoop (outSize : ℕ) : List (BitVec 8) → ℕ → List ℕ → List ℕ
  | [], used, out => out.set used 0
  | byte :: rest, used, out =>
    if used + 2 < outSize then
      let out := out.set used (hex.getD ((byte >>> 4) &&& 0x0f).toNat 0)
      let out := out.set (used + 1) (hex.getD (byte &&& 0x0f).toNat 0)
      digestLoop outSize rest (used + 2) out
    else out.set used 0

/-- `digest_hex`, with what its local variables and the output buffer hold before. -/
def digestHex (ctx : Sha256Ctx) (hash : Vector (BitVec 8) 32) (ptr : List (BitVec 8)) (out : List ℕ)
    (outSize : ℕ) : List ℕ :=
  if outSize = 0 then out
  else
    let ctx := sha256Update (sha256Init ctx) ptr
    digestLoop outSize (sha256Final ctx hash).2.toList 0 out

/-! ### Blocks -/

theorem rotr_eq (value : BitVec 32) {bits : ℕ} (hlt : bits < 32) :
    rotr value bits = value.rotateRight bits := by
  rw [rotr, BitVec.rotateRight_def, Nat.mod_eq_of_lt hlt]

theorem k_eq : k = (List.range 64).map roundConstant := by
  decide +kernel

theorem getD_map_range {α : Type} (f : ℕ → α) (other : α) {n i : ℕ} (hlt : i < n) :
    ((List.range n).map f).getD i other = f i := by
  rw [List.getD_eq_getElem?_getD, List.getElem?_map, List.getElem?_range hlt]
  rfl

/-- The words of the loop are those of the schedule. -/
theorem foldl_extendWords (message : ℕ → Word) (count : ℕ) :
    (List.range' 16 count).foldl extendWords ((List.range 16).map message) =
      (List.range (16 + count)).map (schedule message) := by
  induction count with
  | zero =>
    exact List.map_congr_left fun t ht ↦ (schedule_of_lt message (List.mem_range.mp ht)).symm
  | succ count ih =>
    have hword : ∀ n, 1 ≤ n → ((List.range (16 + count)).map (schedule message)).getD
        (16 + count - n) 0 = schedule message (16 + count - n) :=
      fun n hn ↦ getD_map_range _ _ (by omega)
    rw [List.range'_1_concat, List.foldl_append, ih, List.foldl_cons, List.foldl_nil, extendWords,
      ← Nat.add_assoc, List.range_succ, List.map_append, List.map_singleton,
      schedule_of_le message (Nat.le_add_right 16 count)]
    dsimp only
    rw [hword 15 (by omega), hword 2 (by omega), hword 16 (by omega), hword 7 (by omega),
      rotr_eq _ (by omega), rotr_eq _ (by omega), rotr_eq _ (by omega), rotr_eq _ (by omega),
      smallSigma0, smallSigma1]
    congr 2
    ring

/-- The loop takes the rounds. -/
theorem foldl_transformStep (message : ℕ → Word) (start : Registers) {count : ℕ}
    (hle : count ≤ 64) :
    (List.range count).foldl (transformStep ((List.range 64).map (schedule message))) start =
      rounds (schedule message) start count := by
  induction count with
  | zero => rfl
  | succ count ih =>
    rw [List.range_succ (n := count), List.foldl_append, ih (by omega), rounds, List.foldl_cons,
      List.foldl_nil, transformStep, k_eq, getD_map_range _ _ (by omega),
      getD_map_range _ _ (by omega), rotr_eq _ (by omega),
      rotr_eq _ (by omega), rotr_eq _ (by omega), rotr_eq _ (by omega), rotr_eq _ (by omega),
      rotr_eq _ (by omega)]
    rfl

theorem take_drop_eq {α : Type} (list : List α) (other : α) {start count : ℕ}
    (hle : start + count ≤ list.length) :
    (list.drop start).take count = (List.range count).map fun i ↦ list.getD (start + i) other := by
  refine List.ext_getElem ?_ fun i htake hmap ↦ ?_
  · rw [List.length_take, List.length_drop, List.length_map, List.length_range]
    omega
  · rw [List.length_map, List.length_range] at hmap
    rw [List.getElem_take, List.getElem_drop, List.getElem_map, List.getElem_range,
      List.getD_eq_getElem _ _ (by omega)]

/-- The bytes of a word that is put together from four bytes. -/
theorem bytesOf_or (b0 b1 b2 b3 : BitVec 8) :
    @bytesOf 4 ((b0.setWidth 32 <<< 24) ||| (b1.setWidth 32 <<< 16) ||| (b2.setWidth 32 <<< 8) |||
      b3.setWidth 32) = [b0, b1, b2, b3] := by
  have hbits : ∀ {x y : BitVec 8}, (∀ bit < 8, x.getLsbD bit = y.getLsbD bit) → x = y :=
    fun h ↦ BitVec.eq_of_getLsbD_eq h
  rw [bytesOf, show List.range 4 = [0, 1, 2, 3] from rfl]
  simp only [List.map_cons, List.map_nil, List.cons.injEq, and_true]
  refine ⟨hbits ?_, hbits ?_, hbits ?_, hbits ?_⟩ <;>
  · intro bit hbit
    interval_cases bit <;> simp

/-- The bytes of a word are the data at its index. -/
theorem bytesOf_dataWord (data : Vector (BitVec 8) 64) {t : ℕ} (ht : t < 16) :
    (data.toList.drop (4 * t)).take 4 = @bytesOf 4 (dataWord data (4 * t)) := by
  rw [take_drop_eq data.toList 0 (by rw [Vector.length_toList]; omega), dataWord, bytesOf_or]
  rfl

/-- The state behind the transformation of a block. -/
theorem sha256Transform_eq (ctx : Sha256Ctx) : sha256Transform ctx =
    { ctx with state := compress ctx.state (word (bytesBits ctx.data.toList)) } := by
  have hwords : words ctx.data =
      (List.range 64).map (schedule (word (bytesBits ctx.data.toList))) := by
    have hmessage : (List.range 16).map (fun i ↦ dataWord ctx.data (4 * i)) =
        (List.range 16).map (word (bytesBits ctx.data.toList)) :=
      List.map_congr_left fun t ht ↦
        (word_bytesBits (bytesOf_dataWord ctx.data (List.mem_range.mp ht))).symm
    rw [words, hmessage, foldl_extendWords]
  rw [sha256Transform, hwords, foldl_transformStep _ _ le_rfl, compress, Registers.add_comm]

/-! ### Buffers -/

/-- A buffer keeps what no turn of a loop writes. -/
theorem getElem?_foldl_set_of_notMem {α : Type} (value : ℕ → α) {indexes : List ℕ} {n : ℕ}
    (hn : n ∉ indexes) (buffer : List α) :
    (indexes.foldl (fun buffer i ↦ buffer.set i (value i)) buffer)[n]? = buffer[n]? := by
  induction indexes generalizing buffer with
  | nil => rfl
  | cons i rest ih =>
    rw [List.mem_cons, not_or] at hn
    rw [List.foldl_cons, ih hn.2, List.getElem?_set_ne (Ne.symm hn.1)]

/-- A buffer holds what a loop writes. -/
theorem getElem?_foldl_set_of_mem {α : Type} (value : ℕ → α) {indexes : List ℕ} {n : ℕ}
    (hn : n ∈ indexes) {buffer : List α} (hlt : n < buffer.length) :
    (indexes.foldl (fun buffer i ↦ buffer.set i (value i)) buffer)[n]? = some (value n) := by
  induction indexes generalizing buffer with
  | nil => cases hn
  | cons i rest ih =>
    rw [List.foldl_cons]
    by_cases hrest : n ∈ rest
    · exact ih hrest (by rwa [List.length_set])
    · obtain rfl := (List.mem_cons.mp hn).resolve_right hrest
      rw [getElem?_foldl_set_of_notMem value hrest, List.getElem?_set_self hlt]

theorem toList_zeroBytes (data : Vector (BitVec 8) 64) (i stop : ℕ) :
    (zeroBytes data i stop).toList =
      (List.range' i (stop - i)).foldl (fun data i ↦ data.set i 0) data.toList := by
  rw [zeroBytes]
  exact (List.foldl_hom Vector.toList fun data i ↦ (Vector.toList_setIfInBounds).symm).symm

/-- The bytes of a rest with the byte `0x80` and zeros behind it. -/
theorem take_zeroBytes {data : Vector (BitVec 8) 64} {rest : List (BitVec 8)} {stop : ℕ}
    (hdata : data.toList.take rest.length = rest) (hlt : rest.length < stop) (hle : stop ≤ 64) :
    (zeroBytes (data.setIfInBounds rest.length 0x80) (rest.length + 1) stop).toList.take stop =
      rest ++ 0x80 :: List.replicate (stop - (rest.length + 1)) 0 := by
  have hlength : data.toList.length = 64 := Vector.length_toList
  apply List.ext_getElem?
  intro n
  rw [List.getElem?_take, toList_zeroBytes, Vector.toList_setIfInBounds]
  rcases Nat.lt_or_ge n stop with hn | hn
  · rw [if_pos hn]
    rcases Nat.lt_or_ge rest.length n with hzero | hle
    · have hmem : n ∈ List.range' (rest.length + 1) (stop - (rest.length + 1)) := by
        rw [List.mem_range'_1]
        omega
      rw [getElem?_foldl_set_of_mem _ hmem (by rw [List.length_set]; omega),
        List.getElem?_append_right hzero.le, List.getElem?_cons, if_neg (by omega),
        List.getElem?_replicate, if_pos (by omega)]
    · have hmem : n ∉ List.range' (rest.length + 1) (stop - (rest.length + 1)) := by
        rw [List.mem_range'_1]
        omega
      rw [getElem?_foldl_set_of_notMem _ hmem]
      rcases hle.lt_or_eq with hbefore | rfl
      · rw [List.getElem?_set_ne hbefore.ne', List.getElem?_append_left hbefore]
        conv_rhs => rw [← hdata]
        rw [List.getElem?_take_of_lt hbefore]
      · rw [List.getElem?_set_self (by omega), List.getElem?_append_right le_rfl, Nat.sub_self]
        rfl
  · rw [if_neg (not_lt.mpr hn), List.getElem?_eq_none]
    rw [List.length_append, List.length_cons, List.length_replicate]
    omega

/-! ### Messages -/

/-- The context holds a message: its whole blocks in the state and the rest in the buffer. -/
structure Feeds (ctx : Sha256Ctx) (whole rest : List (BitVec 8)) : Prop where
  blocks : whole.length % 64 = 0
  short : rest.length < 64
  datalen : ctx.datalen = BitVec.ofNat 32 rest.length
  data : ctx.data.toList.take rest.length = rest
  bitlen : ctx.bitlen = BitVec.ofNat 64 (8 * whole.length)
  state : ctx.state = hashFrom initial (bytesBits whole)

/-- The transformation of a full buffer goes on with its block. -/
theorem state_sha256Transform {ctx : Sha256Ctx} {whole : List (BitVec 8)}
    (hblocks : whole.length % 64 = 0) (hstate : ctx.state = hashFrom initial (bytesBits whole)) :
    (sha256Transform ctx).state = hashFrom initial (bytesBits (whole ++ ctx.data.toList)) := by
  have hlength : (bytesBits ctx.data.toList).length = 512 := by
    rw [length_bytesBits, Vector.length_toList]
  have hwhole : (bytesBits whole).length % 512 = 0 := by
    rw [length_bytesBits]
    omega
  rw [sha256Transform_eq, hstate, bytesBits_append, hashFrom_concat hwhole hlength]

theorem feeds_init (ctx : Sha256Ctx) : Feeds (sha256Init ctx) [] [] where
  blocks := rfl
  short := by decide
  datalen := rfl
  data := List.take_zero
  bitlen := rfl
  state := by
    have hinitial : initial = ⟨0x6a09e667, 0xbb67ae85, 0x3c6ef372, 0xa54ff53a, 0x510e527f,
        0x9b05688c, 0x1f83d9ab, 0x5be0cd19⟩ := by
      decide +kernel
    exact hinitial.symm

theorem Feeds.toNat_datalen {ctx : Sha256Ctx} {whole rest : List (BitVec 8)}
    (hfeeds : Feeds ctx whole rest) : ctx.datalen.toNat = rest.length := by
  have hshort := hfeeds.short
  rw [hfeeds.datalen, BitVec.toNat_ofNat, Nat.mod_eq_of_lt (by omega)]

/-- A turn of `sha256_update` takes one more byte. -/
theorem Feeds.byte {ctx : Sha256Ctx} {whole rest : List (BitVec 8)} (hfeeds : Feeds ctx whole rest)
    (byte : BitVec 8) : ∃ blocks left, Feeds (updateByte ctx byte) blocks left ∧
      blocks ++ left = whole ++ rest ++ [byte] := by
  have hshort := hfeeds.short
  have hlength : ctx.data.toList.length = 64 := Vector.length_toList
  have hdatalen : ctx.datalen + 1 = BitVec.ofNat 32 (rest.length + 1) := by
    rw [hfeeds.datalen, BitVec.ofNat_add]
    rfl
  have hdata : (ctx.data.setIfInBounds ctx.datalen.toNat byte).toList.take (rest.length + 1) =
      rest ++ [byte] := by
    rw [hfeeds.toNat_datalen, Vector.toList_setIfInBounds, List.take_set,
      List.take_succ_eq_append_getElem (by omega), hfeeds.data, List.set_append_right _ _ le_rfl,
      Nat.sub_self, List.set_cons_zero]
  rw [updateByte]
  dsimp only
  by_cases hfull : rest.length + 1 = 64
  · rw [if_pos (by rw [hdatalen, hfull]; rfl)]
    have hblock : (ctx.data.setIfInBounds ctx.datalen.toNat byte).toList = rest ++ [byte] := by
      rw [← hdata, List.take_of_length_le]
      rw [Vector.length_toList]
      omega
    refine ⟨whole ++ (rest ++ [byte]), [], ⟨?_, by decide, rfl, List.take_zero, ?_, ?_⟩, ?_⟩
    · have hblocks := hfeeds.blocks
      simp only [List.length_append, List.length_singleton]
      omega
    · rw [List.length_append, List.length_append, List.length_singleton, hfull, Nat.mul_add,
        BitVec.ofNat_add, ← hfeeds.bitlen]
      rfl
    · rw [← hblock]
      exact state_sha256Transform hfeeds.blocks hfeeds.state
    · rw [List.append_nil, List.append_assoc]
  · have hne : ctx.datalen + 1 ≠ 64 := by
      rw [hdatalen]
      intro heq
      have htoNat := congrArg BitVec.toNat heq
      rw [BitVec.toNat_ofNat, Nat.mod_eq_of_lt (by omega)] at htoNat
      exact hfull htoNat
    rw [if_neg hne]
    refine ⟨whole, rest ++ [byte], ⟨hfeeds.blocks, ?_, ?_, ?_, hfeeds.bitlen, hfeeds.state⟩,
      (List.append_assoc _ _ _).symm⟩
    · rw [List.length_append, List.length_singleton]
      omega
    · rw [List.length_append, List.length_singleton, ← hdatalen]
    · rw [List.length_append, List.length_singleton]
      exact hdata

/-- `sha256_update` takes its bytes. -/
theorem Feeds.update {ctx : Sha256Ctx} {whole rest : List (BitVec 8)}
    (hfeeds : Feeds ctx whole rest) (data : List (BitVec 8)) :
    ∃ blocks left, Feeds (sha256Update ctx data) blocks left ∧
      blocks ++ left = whole ++ rest ++ data := by
  induction data generalizing ctx whole rest with
  | nil => exact ⟨whole, rest, hfeeds, (List.append_nil _).symm⟩
  | cons byte more ih =>
    obtain ⟨blocks, left, hbyte, hmessage⟩ := hfeeds.byte byte
    obtain ⟨final, last, hmore, hall⟩ := ih hbyte
    refine ⟨final, last, hmore, ?_⟩
    rw [hall, hmessage, List.append_assoc _ [byte], List.singleton_append]

/-- The first part of `sha256_final` writes the padding before the length. -/
theorem finalPad_spec {ctx : Sha256Ctx} {whole rest : List (BitVec 8)}
    (hfeeds : Feeds ctx whole rest) : ∃ blocks front, blocks.length % 64 = 0 ∧ front.length = 56 ∧
      blocks ++ front = whole ++ rest ++
        0x80 :: List.replicate (zeros (8 * (whole ++ rest).length) / 8) 0 ∧
      (finalPad ctx).data.toList.take 56 = front ∧
      (finalPad ctx).state = hashFrom initial (bytesBits blocks) ∧
      (finalPad ctx).datalen = ctx.datalen ∧ (finalPad ctx).bitlen = ctx.bitlen := by
  have hblocks := hfeeds.blocks
  have hshort := hfeeds.short
  have hzeros : zeros (8 * (whole ++ rest).length) / 8 =
      if rest.length < 56 then 55 - rest.length else 119 - rest.length := by
    rw [zeros, List.length_append]
    split <;> omega
  rw [finalPad, hfeeds.toNat_datalen, hzeros]
  dsimp only
  by_cases hroom : rest.length < 56
  · rw [if_pos hroom, if_pos hroom]
    have hpad := take_zeroBytes hfeeds.data hroom (by omega)
    refine ⟨whole, _, hblocks, ?_, ?_, hpad, hfeeds.state, rfl, rfl⟩
    · rw [List.length_append, List.length_cons, List.length_replicate]
      omega
    · rw [List.append_assoc, show 56 - (rest.length + 1) = 55 - rest.length by omega]
  · rw [if_neg hroom, if_neg hroom]
    have hpad := take_zeroBytes hfeeds.data hshort le_rfl
    rw [List.take_of_length_le (by rw [Vector.length_toList])] at hpad
    have hfront : (zeroBytes (zeroBytes (ctx.data.setIfInBounds rest.length 0x80) (rest.length + 1)
        64) 0 56).toList.take 56 = List.replicate 56 0 := by
      apply List.ext_getElem?
      intro n
      rw [List.getElem?_take, List.getElem?_replicate, toList_zeroBytes]
      split
      · next hn =>
        exact getElem?_foldl_set_of_mem _ (by rw [List.mem_range'_1]; omega)
          (by rw [Vector.length_toList]; omega)
      · rfl
    refine ⟨whole ++ (rest ++ 0x80 :: List.replicate (64 - (rest.length + 1)) 0),
      List.replicate 56 0, ?_, List.length_replicate, ?_, hfront, ?_, rfl, rfl⟩
    · simp only [List.length_append, List.length_cons, List.length_replicate]
      omega
    · rw [show 119 - rest.length = 64 - (rest.length + 1) + 56 by omega, List.replicate_add]
      simp only [List.append_assoc, List.cons_append]
    · rw [← hpad]
      exact @state_sha256Transform { ctx with
        data := zeroBytes (ctx.data.setIfInBounds rest.length 0x80) (rest.length + 1) 64 } whole
        hblocks hfeeds.state

/-- The second part of `sha256_final` writes the length behind the padding. -/
theorem toList_finalLength (ctx : Sha256Ctx) : (finalLength ctx).data.toList =
    ctx.data.toList.take 56 ++ @bytesOf 8 (ctx.bitlen + (ctx.datalen * 8).setWidth 64) := by
  let bitlen : BitVec 64 := ctx.bitlen + (ctx.datalen * 8).setWidth 64
  have hlength : ctx.data.toList.length = 64 := Vector.length_toList
  have hwrites : (finalLength ctx).data.toList = [63, 62, 61, 60, 59, 58, 57, 56].foldl
      (fun data i ↦ data.set i ((bitlen >>> (8 * (63 - i))).setWidth 8)) ctx.data.toList := by
    simp only [finalLength, sha256Transform, Vector.toList_setIfInBounds]
    rfl
  have htake : (ctx.data.toList.take 56).length = 56 := by
    rw [List.length_take, hlength]
    rfl
  have hindexes : ∀ n, n ∈ [63, 62, 61, 60, 59, 58, 57, 56] ↔ 56 ≤ n ∧ n < 64 := by
    intro n
    simp only [List.mem_cons, List.not_mem_nil, or_false]
    omega
  apply List.ext_getElem?
  intro n
  rw [hwrites]
  rcases Nat.lt_or_ge n 56 with hn | hn
  · rw [getElem?_foldl_set_of_notMem _ (by rw [hindexes]; omega),
      List.getElem?_append_left (by omega), List.getElem?_take_of_lt hn]
  · rw [List.getElem?_append_right (by omega), htake, bytesOf, List.getElem?_map]
    rcases Nat.lt_or_ge n 64 with hlt | hge
    · rw [getElem?_foldl_set_of_mem _ (by rw [hindexes]; omega) (by omega),
        List.getElem?_range (by omega), show 63 - n = 8 - 1 - (n - 56) by omega]
      rfl
    · rw [getElem?_foldl_set_of_notMem _ (by rw [hindexes]; omega),
        List.getElem?_eq_none (by omega), List.getElem?_eq_none (by rw [List.length_range]; omega)]
      rfl

/-- The state at the end is the hash of the padded message. -/
theorem state_final {ctx : Sha256Ctx} {whole rest : List (BitVec 8)}
    (hfeeds : Feeds ctx whole rest) : (finalLength (finalPad ctx)).state =
      hashFrom initial (bytesBits (whole ++ rest) ++ padding (8 * (whole ++ rest).length)) := by
  obtain ⟨blocks, front, hblocks, hfront, hmessage, hdata, hstate, hdatalen, hbitlen⟩ :=
    finalPad_spec hfeeds
  have hlength : (finalPad ctx).bitlen + ((finalPad ctx).datalen * 8).setWidth 64 =
      BitVec.ofNat 64 (8 * (whole ++ rest).length) := by
    have hshort := hfeeds.short
    have height : (8 : BitVec 32).toNat = 8 := rfl
    apply BitVec.eq_of_toNat_eq
    rw [hbitlen, hdatalen, hfeeds.bitlen, BitVec.toNat_add, BitVec.toNat_setWidth,
      BitVec.toNat_mul, hfeeds.toNat_datalen, BitVec.toNat_ofNat, BitVec.toNat_ofNat,
      List.length_append, height]
    omega
  have hblock : (finalLength (finalPad ctx)).data.toList =
      front ++ @bytesOf 8 (BitVec.ofNat 64 (8 * (whole ++ rest).length)) := by
    rw [toList_finalLength, hdata, hlength]
  have hpadded : blocks ++ (finalLength (finalPad ctx)).data.toList =
      whole ++ rest ++ 0x80 :: (List.replicate (zeros (8 * (whole ++ rest).length) / 8) 0 ++
        @bytesOf 8 (BitVec.ofNat 64 (8 * (whole ++ rest).length))) := by
    rw [hblock, ← List.append_assoc, hmessage]
    simp only [List.append_assoc, List.cons_append]
  rw [padding_bytes, ← bytesBits_append, ← hpadded]
  exact state_sha256Transform hblocks hstate

theorem stateByte_eq (state : BitVec 32) (i : ℕ) :
    stateByte state i = (state >>> (24 - i * 8)).setWidth 8 := by
  apply BitVec.eq_of_getLsbD_eq
  intro bit hbit
  rw [stateByte, BitVec.getLsbD_setWidth, BitVec.getLsbD_setWidth, BitVec.getLsbD_and]
  have hmask : (0x000000ff : BitVec 32).getLsbD bit = true := by
    interval_cases bit <;> rfl
  rw [hmask, Bool.and_true]

theorem bytesOf_state (state : BitVec 32) :
    @bytesOf 4 state = [stateByte state 0, stateByte state 1, stateByte state 2,
      stateByte state 3] := by
  rw [stateByte_eq, stateByte_eq, stateByte_eq, stateByte_eq]
  rfl

/-- The bytes of the words of a state. -/
def stateBytes (state : Registers) : List (BitVec 8) :=
  @bytesOf 4 state.a ++ @bytesOf 4 state.b ++ @bytesOf 4 state.c ++ @bytesOf 4 state.d ++
    @bytesOf 4 state.e ++ @bytesOf 4 state.f ++ @bytesOf 4 state.g ++ @bytesOf 4 state.h

/-- The byte of a state that belongs at an index of the hash. -/
def hashByte (state : Registers) (n : ℕ) : BitVec 8 :=
  let words := [state.a, state.b, state.c, state.d, state.e, state.f, state.g, state.h]
  stateByte (words.getD (n / 4) 0) (n % 4)

/-- A turn of the loop writes every fourth byte. -/
theorem toList_writeHash (state : Registers) (hash : Vector (BitVec 8) 32) {i : ℕ} (hi : i < 4) :
    (writeHash state hash i).toList =
      [i, i + 4, i + 8, i + 12, i + 16, i + 20, i + 24, i + 28].foldl
        (fun hash n ↦ hash.set n (hashByte state n)) hash.toList := by
  have hbyte : ∀ r, hashByte state (i + 4 * r) = stateByte
      ([state.a, state.b, state.c, state.d, state.e, state.f, state.g, state.h].getD r 0) i := by
    intro r
    rw [hashByte, show (i + 4 * r) / 4 = r by omega, show (i + 4 * r) % 4 = i by omega]
  have hbyte0 := hbyte 0
  rw [Nat.mul_zero, Nat.add_zero] at hbyte0
  simp only [writeHash, Vector.toList_setIfInBounds, List.foldl_cons, List.foldl_nil, hbyte0,
    hbyte 1, hbyte 2, hbyte 3, hbyte 4, hbyte 5, hbyte 6, hbyte 7]
  rfl

theorem stateBytes_eq (state : Registers) :
    stateBytes state = (List.range 32).map (hashByte state) := by
  simp only [stateBytes, bytesOf_state]
  rfl

/-- The hash is the bytes of the state. -/
theorem toList_hash (state : Registers) (hash : Vector (BitVec 8) 32) :
    ((List.range 4).foldl (writeHash state) hash).toList = stateBytes state := by
  have hlength : hash.toList.length = 32 := Vector.length_toList
  rw [show List.range 4 = [0, 1, 2, 3] from rfl, List.foldl_cons, List.foldl_cons, List.foldl_cons,
    List.foldl_cons, List.foldl_nil, toList_writeHash _ _ (by omega),
    toList_writeHash _ _ (by omega), toList_writeHash _ _ (by omega),
    toList_writeHash _ _ (by omega), ← List.foldl_append,
    ← List.foldl_append, ← List.foldl_append, stateBytes_eq]
  apply List.ext_getElem?
  intro n
  rw [List.getElem?_map]
  rcases Nat.lt_or_ge n 32 with hlt | hge
  · rw [getElem?_foldl_set_of_mem _ (by simp; omega) (by omega), List.getElem?_range hlt]
    rfl
  · rw [getElem?_foldl_set_of_notMem _ (by simp; omega), List.getElem?_eq_none (by omega),
      List.getElem?_eq_none (by rw [List.length_range]; omega)]
    rfl

/-- The hash of a message. -/
theorem bytesBits_sha256Final (ctx : Sha256Ctx) (hash : Vector (BitVec 8) 32)
    (message : List (BitVec 8)) :
    bytesBits (sha256Final (sha256Update (sha256Init ctx) message) hash).2.toList =
      digest (bytesBits message) := by
  obtain ⟨whole, rest, hfeeds, hmessage⟩ := (feeds_init ctx).update message
  rw [List.append_nil, List.nil_append] at hmessage
  rw [sha256Final]
  dsimp only
  rw [toList_hash, state_final hfeeds, hmessage, digest, length_bytesBits]
  simp only [stateBytes, Registers.bits, bytesBits_append]
  rw [bytesBits_bytesOf, bytesBits_bytesOf, bytesBits_bytesOf, bytesBits_bytesOf,
    bytesBits_bytesOf, bytesBits_bytesOf, bytesBits_bytesOf, bytesBits_bytesOf]

/-! ### Digits -/

/-- The hexadecimal digits of a string of bytes. -/
def hexText (bytes : List (BitVec 8)) : List ℕ :=
  bytes.flatMap fun byte ↦ hexByte (UInt8.ofBitVec byte)

theorem hexText_cons (byte : BitVec 8) (rest : List (BitVec 8)) :
    hexText (byte :: rest) = hexByte (UInt8.ofBitVec byte) ++ hexText rest :=
  List.flatMap_cons

theorem getD_hex {n : ℕ} (hlt : n < 16) : hex.getD n 0 = hexChar n := by
  have hall : ∀ n < 16, hex.getD n 0 = hexChar n := by decide
  exact hall n hlt

theorem hexByte_eq (byte : BitVec 8) : hexByte (UInt8.ofBitVec byte) =
    [hex.getD ((byte >>> 4) &&& 0x0f).toNat 0, hex.getD (byte &&& 0x0f).toNat 0] := by
  have hlt := byte.isLt
  have hmask : ∀ n : ℕ, n &&& 15 = n % 16 := fun n ↦ Nat.and_two_pow_sub_one_eq_mod n 4
  have hhigh : ((byte >>> 4) &&& 0x0f).toNat = byte.toNat / 16 := by
    rw [BitVec.toNat_and, BitVec.toNat_ushiftRight, Nat.shiftRight_eq_div_pow]
    exact (hmask _).trans (Nat.mod_eq_of_lt (by omega))
  have hlow : (byte &&& 0x0f).toNat = byte.toNat % 16 := by
    rw [BitVec.toNat_and]
    exact hmask _
  rw [hhigh, hlow, getD_hex (by omega), getD_hex (by omega)]
  rfl

/-- The loop writes the digits of the bytes and a zero behind them when they have room. -/
theorem digestLoop_eq {outSize : ℕ} {hash : List (BitVec 8)} {used : ℕ} {before rest : List ℕ}
    {last : ℕ} (hbefore : before.length = used) (hroom : used + 2 * hash.length < outSize)
    (middle : List ℕ) (hmiddle : middle.length = 2 * hash.length) :
    digestLoop outSize hash used (before ++ (middle ++ last :: rest)) =
      before ++ (hexText hash ++ 0 :: rest) := by
  induction hash generalizing used before middle with
  | nil =>
    obtain rfl := List.eq_nil_of_length_eq_zero hmiddle
    rw [digestLoop, List.set_append_right _ _ hbefore.le, hbefore, Nat.sub_self]
    rfl
  | cons byte more ih =>
    rw [List.length_cons] at hroom hmiddle
    match middle, hmiddle with
    | x :: y :: others, hmiddle =>
      rw [List.length_cons, List.length_cons] at hmiddle
      have hwrite : ∀ high low, ((before ++ (x :: y :: others ++ last :: rest)).set used high).set
          (used + 1) low = before ++ [high, low] ++ (others ++ last :: rest) := by
        intro high low
        rw [List.set_append_right _ _ hbefore.le, List.set_append_right _ _ (by omega), hbefore,
          Nat.sub_self, Nat.add_sub_cancel_left, List.append_assoc]
        rfl
      have hlength : ∀ high low : ℕ, (before ++ [high, low]).length = used + 2 := by
        intro high low
        rw [List.length_append, hbefore]
        rfl
      rw [digestLoop, if_pos (by omega)]
      dsimp only
      rw [hwrite, ih (hlength _ _) (by omega) others (by omega), hexText_cons, hexByte_eq,
        List.append_assoc, List.append_assoc]

theorem length_hexText (bytes : List (BitVec 8)) : (hexText bytes).length = 2 * bytes.length := by
  induction bytes with
  | nil => rfl
  | cons byte rest ih =>
    rw [hexText_cons, List.length_append, ih, List.length_cons, Nat.mul_succ, Nat.add_comm]
    rfl

theorem mem_hex_of_mem_hexText {bytes : List (BitVec 8)} {c : ℕ} (hc : c ∈ hexText bytes) :
    c ∈ hex := by
  have hdigit : ∀ n < 16, hex.getD n 0 ∈ hex := by decide
  have hmask : ∀ x : BitVec 8, (x &&& 0x0f).toNat < 16 := by
    intro x
    rw [BitVec.toNat_and]
    exact Nat.and_le_right.trans_lt (by decide)
  obtain ⟨byte, -, hbyte⟩ := List.mem_flatMap.mp hc
  rw [hexByte_eq, List.mem_cons, List.mem_singleton] at hbyte
  rcases hbyte with rfl | rfl
  · exact hdigit _ (hmask _)
  · exact hdigit _ (hmask _)

/-- The bytes that `sha256_init`, `sha256_update` and `sha256_final` give for a message. -/
def sha256 (ctx : Sha256Ctx) (hash : Vector (BitVec 8) 32) (message : List (BitVec 8)) :
    List (BitVec 8) :=
  (sha256Final (sha256Update (sha256Init ctx) message) hash).2.toList

theorem length_sha256 (ctx : Sha256Ctx) (hash : Vector (BitVec 8) 32) (message : List (BitVec 8)) :
    (sha256 ctx hash message).length = 32 :=
  Vector.length_toList

/-- The hash of the tracer is SHA-256, and `digest_hex` prints its 64 digits into a buffer that has
room for them and a zero. -/
theorem digestHex_sha256 (ctx : Sha256Ctx) (hash : Vector (BitVec 8) 32)
    (message : List (BitVec 8)) :
    bytesBits (sha256 ctx hash message) = digest (bytesBits message) ∧
      (hexText (sha256 ctx hash message)).length = 64 ∧
      (∀ c ∈ hexText (sha256 ctx hash message), c ∈ PyStr.ofString "0123456789abcdef") ∧
      ∀ out outSize, 65 ≤ outSize → outSize ≤ out.length →
        digestHex ctx hash message out outSize =
          hexText (sha256 ctx hash message) ++ 0 :: out.drop 65 := by
  have hlength := length_sha256 ctx hash message
  refine ⟨bytesBits_sha256Final ctx hash message, ?_, fun c hc ↦ mem_hex_of_mem_hexText hc, ?_⟩
  · rw [length_hexText, hlength]
  · intro out outSize hsize hout
    have hsplit : out = [] ++ (out.take 64 ++ out[64] :: out.drop 65) := by
      rw [List.nil_append, ← List.drop_eq_getElem_cons, List.take_append_drop]
    have htake : (out.take 64).length = 2 * (sha256 ctx hash message).length := by
      rw [List.length_take, hlength]
      omega
    have hloop := @digestLoop_eq outSize (sha256 ctx hash message) 0 [] (out.drop 65) out[64] rfl
      (by omega) _ htake
    rw [← hsplit, List.nil_append] at hloop
    rw [digestHex, if_neg (by omega)]
    dsimp only
    rw [← sha256, hloop]

/-- The example of one block in the standard. -/
theorem digestHex_sha256_abc :
    digestHex ⟨Vector.replicate 64 7, 3, 9, ⟨0, 0, 0, 0, 0, 0, 0, 0⟩⟩ (Vector.replicate 32 1)
        [0x61, 0x62, 0x63] (List.replicate 65 1) 65 =
      PyStr.ofString "ba7816bf8f01cfea414140de5dae2223b00361a396177a9cb410ff61f20015ad" ++ [0] :=
  ((digestHex_sha256 _ _ _).2.2.2 _ _ le_rfl (by decide)).trans (by decide +kernel)

/-- The digest of the events. -/
def tracerDigest (ctx : Sha256Ctx) (hash : Vector (BitVec 8) 32) : Digest where
  hex bytes := hexText (sha256 ctx hash (bytes.map UInt8.toBitVec))
  isIdentifier bytes c hc := by
    have hall : ∀ c ∈ hex, isIdentifierChar c = true := by decide
    exact hall c (mem_hex_of_mem_hexText hc)
  length_eq bytes := by rw [length_hexText, length_sha256]

end SyzAbi.Agent.Sha256

import Mathlib.Data.BitVec
import Mathlib.Data.List.Range
import Mathlib.Data.Nat.NthRoot.Defs
import Mathlib.Data.Nat.Prime.Basic

/-!
# SHA-256

The hash function of FIPS 180-4 on bit strings. The padding brings the message to whole blocks of
512 bits, and each block is a turn of 64 rounds on eight words. The constants are fractional parts
of roots of prime numbers and stand here as such.

The hash of whole blocks goes on with one more (`hashFrom_concat`). The last section reads the words
of a block from its bytes (`word_bytesBits`) and gives the padding as bytes (`padding_bytes`).
-/

set_option autoImplicit false
set_option relaxedAutoImplicit false

namespace SyzAbi.Library.Sha256

abbrev Word := BitVec 32

/-- Eight words: a hash value, or the working variables of a round. -/
structure Registers where
  a : Word
  b : Word
  c : Word
  d : Word
  e : Word
  f : Word
  g : Word
  h : Word
  deriving DecidableEq

/-- The sums of the words. -/
def Registers.add (x y : Registers) : Registers :=
  ⟨x.a + y.a, x.b + y.b, x.c + y.c, x.d + y.d, x.e + y.e, x.f + y.f, x.g + y.g, x.h + y.h⟩

theorem Registers.add_comm (x y : Registers) : x.add y = y.add x := by
  simp only [Registers.add, BitVec.add_comm]

/-! ### Functions and constants -/

def ch (x y z : Word) : Word := (x &&& y) ^^^ (~~~x &&& z)

def maj (x y z : Word) : Word := (x &&& y) ^^^ (x &&& z) ^^^ (y &&& z)

def bigSigma0 (x : Word) : Word := x.rotateRight 2 ^^^ x.rotateRight 13 ^^^ x.rotateRight 22

def bigSigma1 (x : Word) : Word := x.rotateRight 6 ^^^ x.rotateRight 11 ^^^ x.rotateRight 25

def smallSigma0 (x : Word) : Word := x.rotateRight 7 ^^^ x.rotateRight 18 ^^^ (x >>> 3)

def smallSigma1 (x : Word) : Word := x.rotateRight 17 ^^^ x.rotateRight 19 ^^^ (x >>> 10)

/-- The first 64 prime numbers. -/
def primes : List ℕ := (List.range 312).filter fun n ↦ n.Prime

/-- The first 32 bits of the fractional part of a root. -/
def fraction (degree n : ℕ) : Word :=
  BitVec.ofNat 32 (Nat.nthRoot degree (n * 2 ^ (32 * degree)))

/-- The constant of a round. -/
def roundConstant (t : ℕ) : Word := fraction 3 (primes.getD t 0)

/-- The first hash value. -/
def initial : Registers :=
  ⟨fraction 2 2, fraction 2 3, fraction 2 5, fraction 2 7, fraction 2 11, fraction 2 13,
    fraction 2 17, fraction 2 19⟩

example : primes.length = 64 := by decide +kernel

/-! ### Blocks -/

/-- The words of the message schedule. -/
def schedule (message : ℕ → Word) (t : ℕ) : Word :=
  if t < 16 then message t
  else smallSigma1 (schedule message (t - 2)) + schedule message (t - 7) +
    smallSigma0 (schedule message (t - 15)) + schedule message (t - 16)
termination_by t

/-- A round with its constant and its word of the schedule. -/
def round (constant w : Word) (r : Registers) : Registers :=
  let t1 := r.h + bigSigma1 r.e + ch r.e r.f r.g + constant + w
  let t2 := bigSigma0 r.a + maj r.a r.b r.c
  { a := t1 + t2, b := r.a, c := r.b, d := r.c, e := r.d + t1, f := r.e, g := r.f, h := r.g }

/-- The first rounds with the words of a schedule. -/
def rounds (words : ℕ → Word) (start : Registers) : ℕ → Registers
  | 0 => start
  | t + 1 => round (roundConstant t) (words t) (rounds words start t)

/-- The hash value behind a block with the given words. -/
def compress (hash : Registers) (message : ℕ → Word) : Registers :=
  (rounds (schedule message) hash 64).add hash

/-! ### Messages -/

/-- The bits of a word, the most significant one first. -/
def bitsOf {w : ℕ} (x : BitVec w) : List Bool := (List.range w).map x.getMsbD

/-- The word that a bit string denotes as a binary number. -/
def ofBits (bits : List Bool) : Word :=
  BitVec.ofNat 32 (bits.foldl (fun n bit ↦ 2 * n + bit.toNat) 0)

/-- The words of a block. -/
def word (block : List Bool) (t : ℕ) : Word := ofBits ((block.drop (32 * t)).take 32)

/-- The number of zeros behind a message of the given length: the smallest one that leaves 64 bits
of the last block. -/
def zeros (length : ℕ) : ℕ := (959 - length % 512) % 512

/-- What stands behind a message of the given length. -/
def padding (length : ℕ) : List Bool :=
  true :: (List.replicate (zeros length) false ++ bitsOf (BitVec.ofNat 64 length))

/-- The hash value behind the whole blocks of a text. -/
def hashFrom (hash : Registers) (bits : List Bool) : Registers :=
  (List.range (bits.length / 512)).foldl
    (fun hash i ↦ compress hash (word ((bits.drop (512 * i)).take 512))) hash

/-- The bits of a hash value. -/
def Registers.bits (r : Registers) : List Bool :=
  bitsOf r.a ++ bitsOf r.b ++ bitsOf r.c ++ bitsOf r.d ++ bitsOf r.e ++ bitsOf r.f ++ bitsOf r.g ++
    bitsOf r.h

/-- SHA-256 of a message. -/
def digest (message : List Bool) : List Bool :=
  (hashFrom initial (message ++ padding message.length)).bits

theorem schedule_of_lt (message : ℕ → Word) {t : ℕ} (hlt : t < 16) :
    schedule message t = message t := by
  rw [schedule, if_pos hlt]

theorem schedule_of_le (message : ℕ → Word) {t : ℕ} (hle : 16 ≤ t) :
    schedule message t = smallSigma1 (schedule message (t - 2)) + schedule message (t - 7) +
      smallSigma0 (schedule message (t - 15)) + schedule message (t - 16) := by
  rw [schedule, if_neg (not_lt.mpr hle)]

/-- The hash goes on with a block from that of the whole blocks before. -/
theorem hashFrom_concat {bits block : List Bool} (hbits : bits.length % 512 = 0)
    (hblock : block.length = 512) (hash : Registers) :
    hashFrom hash (bits ++ block) = compress (hashFrom hash bits) (word block) := by
  have hcount : (bits ++ block).length / 512 = bits.length / 512 + 1 := by
    rw [List.length_append, hblock]
    omega
  have hstart : 512 * (bits.length / 512) = bits.length := by omega
  have hlast : ((bits ++ block).drop (512 * (bits.length / 512))).take 512 = block := by
    rw [hstart, List.drop_left, List.take_of_length_le hblock.le]
  have hbefore : ∀ i ∈ List.range (bits.length / 512),
      ((bits ++ block).drop (512 * i)).take 512 = (bits.drop (512 * i)).take 512 := by
    intro i hi
    rw [List.mem_range] at hi
    rw [List.drop_append_of_le_length (by omega), List.take_append_of_le_length]
    rw [List.length_drop]
    omega
  rw [hashFrom, hcount, List.range_succ, List.foldl_append, List.foldl_cons, List.foldl_nil, hlast,
    hashFrom]
  exact congrArg (fun before ↦ compress before (word block))
    (List.foldl_ext _ _ _ fun hash i hi ↦ by rw [hbefore i hi])

/-! ### Bytes -/

/-- The bits of a string of bytes. -/
def bytesBits (bytes : List (BitVec 8)) : List Bool := bytes.flatMap bitsOf

/-- The bytes of a word of `n` bytes, the most significant one first. -/
def bytesOf {n : ℕ} (x : BitVec (8 * n)) : List (BitVec 8) :=
  (List.range n).map fun i ↦ (x >>> (8 * (n - 1 - i))).setWidth 8

theorem length_bitsOf {w : ℕ} (x : BitVec w) : (bitsOf x).length = w := by
  rw [bitsOf, List.length_map, List.length_range]

theorem bytesBits_cons (byte : BitVec 8) (rest : List (BitVec 8)) :
    bytesBits (byte :: rest) = bitsOf byte ++ bytesBits rest :=
  List.flatMap_cons

theorem bytesBits_append (first second : List (BitVec 8)) :
    bytesBits (first ++ second) = bytesBits first ++ bytesBits second :=
  List.flatMap_append

theorem length_bytesBits (bytes : List (BitVec 8)) :
    (bytesBits bytes).length = 8 * bytes.length := by
  induction bytes with
  | nil => rfl
  | cons byte rest ih =>
    rw [bytesBits_cons, List.length_append, length_bitsOf, ih, List.length_cons]
    omega

theorem drop_bytesBits (bytes : List (BitVec 8)) (n : ℕ) :
    (bytesBits bytes).drop (8 * n) = bytesBits (bytes.drop n) := by
  induction n generalizing bytes with
  | zero => rfl
  | succ n ih =>
    cases bytes with
    | nil => rfl
    | cons byte rest =>
      rw [bytesBits_cons, Nat.mul_succ, Nat.add_comm, ← List.drop_drop,
        List.drop_left' (length_bitsOf byte), ih, List.drop_succ_cons]

theorem take_bytesBits (bytes : List (BitVec 8)) (n : ℕ) :
    (bytesBits bytes).take (8 * n) = bytesBits (bytes.take n) := by
  induction n generalizing bytes with
  | zero => rfl
  | succ n ih =>
    cases bytes with
    | nil => rfl
    | cons byte rest =>
      have hsplit : 8 * (n + 1) = (bitsOf byte).length + 8 * n := by
        rw [length_bitsOf]
        omega
      rw [bytesBits_cons, hsplit, List.take_length_add_append, ih, List.take_succ_cons,
        bytesBits_cons]

theorem bytesBits_zeros (n : ℕ) :
    bytesBits (List.replicate n 0) = List.replicate (8 * n) false := by
  induction n with
  | zero => rfl
  | succ n ih =>
    have hzero : bitsOf (0 : BitVec 8) = List.replicate 8 false := by decide
    rw [List.replicate_succ, bytesBits_cons, ih, hzero, ← List.replicate_add, Nat.mul_succ,
      Nat.add_comm]

theorem flatMap_range_mul {α : Type} (f : ℕ → α) (n : ℕ) :
    ((List.range n).flatMap fun i ↦ (List.range 8).map fun j ↦ f (8 * i + j)) =
      (List.range (8 * n)).map f := by
  induction n with
  | zero => rfl
  | succ n ih =>
    rw [List.range_succ (n := n), List.flatMap_append, ih, Nat.mul_succ, List.range_add,
      List.map_append, List.map_map, List.flatMap_singleton]
    rfl

theorem bytesBits_bytesOf {n : ℕ} (x : BitVec (8 * n)) : bytesBits (bytesOf x) = bitsOf x := by
  have hbyte : ∀ i ∈ List.range n, bitsOf ((x >>> (8 * (n - 1 - i))).setWidth 8) =
      (List.range 8).map fun j ↦ x.getMsbD (8 * i + j) := by
    intro i hi
    rw [List.mem_range] at hi
    refine List.map_congr_left fun j hj ↦ ?_
    rw [List.mem_range] at hj
    have hindex : 8 * (n - 1 - i) + (8 - 1 - j) = 8 * n - 1 - (8 * i + j) := by omega
    rw [BitVec.getMsbD_eq_getLsbD, BitVec.getMsbD_eq_getLsbD, BitVec.getLsbD_setWidth,
      BitVec.getLsbD_ushiftRight, hindex, decide_eq_true hj,
      decide_eq_true (by omega : 8 - 1 - j < 8),
      decide_eq_true (by omega : 8 * i + j < 8 * n), Bool.true_and]
  rw [bytesBits, bytesOf, List.flatMap_map, List.flatMap_congr hbyte, flatMap_range_mul, bitsOf]

/-- The first bits of a word denote its upper part. -/
theorem foldl_bitsOf {w : ℕ} (x : BitVec w) {k : ℕ} (hle : k ≤ w) :
    ((List.range k).map x.getMsbD).foldl (fun n bit ↦ 2 * n + bit.toNat) 0 =
      x.toNat / 2 ^ (w - k) := by
  induction k with
  | zero =>
    rw [Nat.sub_zero, Nat.div_eq_of_lt x.isLt]
    rfl
  | succ k ih =>
    have hpow : 2 ^ (w - k) = 2 ^ (w - (k + 1)) * 2 := by
      rw [← pow_succ]
      congr 1
      omega
    rw [List.range_succ, List.map_append, List.foldl_append, ih (by omega), List.map_singleton,
      List.foldl_cons, List.foldl_nil, BitVec.getMsbD_eq_getLsbD, decide_eq_true (by omega : k < w),
      Bool.true_and, BitVec.getLsbD, Nat.toNat_testBit, hpow, ← Nat.div_div_eq_div_mul,
      show w - 1 - k = w - (k + 1) by omega]
    omega

theorem ofBits_bitsOf (x : Word) : ofBits (bitsOf x) = x := by
  rw [ofBits, bitsOf, foldl_bitsOf x le_rfl, Nat.sub_self, pow_zero, Nat.div_one,
    BitVec.ofNat_toNat, BitVec.setWidth_eq]

/-- The words of a block are those of its bytes. -/
theorem word_bytesBits {block : List (BitVec 8)} {t : ℕ} {x : Word}
    (hbytes : (block.drop (4 * t)).take 4 = @bytesOf 4 x) : word (bytesBits block) t = x := by
  have hstart : 32 * t = 8 * (4 * t) := by omega
  rw [word, hstart, drop_bytesBits, show 32 = 8 * 4 from rfl, take_bytesBits, hbytes,
    bytesBits_bytesOf, ofBits_bitsOf]

/-- The padding behind a string of bytes. -/
theorem padding_bytes (length : ℕ) : padding (8 * length) =
    bytesBits (0x80 :: (List.replicate (zeros (8 * length) / 8) 0 ++
      @bytesOf 8 (BitVec.ofNat 64 (8 * length)))) := by
  have hfirst : bitsOf (0x80 : BitVec 8) = true :: List.replicate 7 false := by decide
  have hzeros : zeros (8 * length) = 7 + 8 * (zeros (8 * length) / 8) := by
    rw [zeros]
    omega
  rw [padding, bytesBits_cons, bytesBits_append, bytesBits_zeros, bytesBits_bytesOf, hfirst,
    List.cons_append, ← List.append_assoc, ← List.replicate_add, ← hzeros]

end SyzAbi.Library.Sha256

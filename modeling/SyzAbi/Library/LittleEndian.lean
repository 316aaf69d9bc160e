import Mathlib.Data.List.TakeDrop
import Mathlib.Tactic.NormNum
import Mathlib.Tactic.Ring

/-!
# Numbers in byte strings

A number in a fixed number of bytes, least significant first (`toBytes`), and the number that bytes
stand for (`ofBytes`). A byte string stores a number at an offset when the bytes of the number are
there (`Stored`), and then a reader of that slice finds the number (`Stored.ofBytes_slice`).
-/

set_option autoImplicit false
set_option relaxedAutoImplicit false

namespace SyzAbi.Library.LittleEndian

/-- The number that bytes stand for. -/
def ofBytes : List UInt8 → ℕ
  | [] => 0
  | byte :: rest => byte.toNat + 256 * ofBytes rest

/-- A number in a fixed number of bytes. -/
def toBytes : ℕ → ℕ → List UInt8
  | 0, _ => []
  | width + 1, n => UInt8.ofNat n :: toBytes width (n / 256)

@[simp] theorem length_toBytes (width n : ℕ) : (toBytes width n).length = width := by
  induction width generalizing n with
  | zero => rfl
  | succ width ih => rw [toBytes, List.length_cons, ih]

/-- Byte strings of one length stand for different numbers. -/
theorem ofBytes_inj {left right : List UInt8} (hlength : left.length = right.length) :
    ofBytes left = ofBytes right ↔ left = right := by
  induction left generalizing right with
  | nil => simp [List.length_eq_zero_iff.mp hlength.symm]
  | cons byte left ih =>
    cases right with
    | nil => cases hlength
    | cons byte' right =>
      have hbyte : byte.toNat < 256 := byte.toNat_lt
      have hbyte' : byte'.toNat < 256 := byte'.toNat_lt
      rw [ofBytes, ofBytes, List.cons.injEq, ← ih (Nat.succ.inj hlength), ← UInt8.toNat_inj]
      omega

theorem ofBytes_lt_pow {bytes : List UInt8} {width : ℕ} (hlength : bytes.length ≤ width) :
    ofBytes bytes < 256 ^ width := by
  induction bytes generalizing width with
  | nil => exact Nat.pow_pos (by decide)
  | cons byte rest ih =>
    obtain _ | width := width
    · cases hlength
    · have hbyte : byte.toNat < 256 := byte.toNat_lt
      have hrest := ih (Nat.le_of_succ_le_succ hlength)
      rw [ofBytes, pow_succ']
      omega

/-- What does not fit is cut off. -/
theorem ofBytes_toBytes (width n : ℕ) : ofBytes (toBytes width n) = n % 256 ^ width := by
  induction width generalizing n with
  | zero => rw [toBytes, ofBytes, pow_zero, Nat.mod_one]
  | succ width ih =>
    rw [toBytes, ofBytes, ih, UInt8.toNat_ofNat']
    conv_rhs => rw [pow_succ', Nat.mod_mul]

theorem drop_toBytes (skip width n : ℕ) :
    (toBytes (skip + width) n).drop skip = toBytes width (n / 256 ^ skip) := by
  induction skip generalizing n with
  | zero => rw [Nat.zero_add, List.drop_zero, pow_zero, Nat.div_one]
  | succ skip ih =>
    rw [Nat.succ_add, toBytes, List.drop_succ_cons, ih, Nat.div_div_eq_div_mul, pow_succ']

theorem take_toBytes (part width n : ℕ) :
    (toBytes (part + width) n).take part = toBytes part n := by
  induction part generalizing n with
  | zero => rfl
  | succ part ih => rw [Nat.succ_add, toBytes, List.take_succ_cons, ih, toBytes]

/-! ### Slices -/

/-- The slice of some length from an offset on. -/
def slice (bytes : List UInt8) (offset length : ℕ) : List UInt8 := (bytes.drop offset).take length

theorem slice_append {before part rest : List UInt8} {offset length : ℕ}
    (hoffset : before.length = offset) (hlength : part.length = length) :
    slice (before ++ (part ++ rest)) offset length = part := by
  rw [← hoffset, ← hlength, slice, List.drop_left, List.take_left]

/-- A block of a sequence of blocks of one size. -/
theorem slice_flatten {blocks : List (List UInt8)} {size : ℕ}
    (hsize : ∀ block ∈ blocks, block.length = size) {index : ℕ} {block : List UInt8}
    (hblock : blocks[index]? = some block) (before after : List UInt8) :
    slice (before ++ (blocks.flatten ++ after)) (before.length + index * size) size = block := by
  induction blocks generalizing index before with
  | nil => cases hblock
  | cons first rest ih =>
    obtain ⟨hfirst, hrest⟩ := List.forall_mem_cons.mp hsize
    rw [List.flatten_cons, List.append_assoc]
    cases index with
    | zero =>
      rw [← Option.some.inj hblock]
      exact slice_append (by rw [Nat.zero_mul, Nat.add_zero]) hfirst
    | succ index =>
      have hslice := ih hrest hblock (before ++ first)
      rw [List.append_assoc, List.length_append, hfirst, Nat.add_assoc] at hslice
      rw [Nat.succ_mul, Nat.add_comm (index * size)]
      exact hslice

/-- The bytes of a number lie at an offset. -/
def Stored (bytes : List UInt8) (offset width n : ℕ) : Prop :=
  n < 256 ^ width ∧ toBytes width n <+: bytes.drop offset

instance (bytes : List UInt8) (offset width n : ℕ) : Decidable (Stored bytes offset width n) :=
  inferInstanceAs (Decidable (_ ∧ _))

/-- More bytes behind them do not matter. -/
theorem Stored.append {bytes : List UInt8} {offset width n : ℕ}
    (hstored : Stored bytes offset width n) (hoffset : offset ≤ bytes.length) (rest : List UInt8) :
    Stored (bytes ++ rest) offset width n := by
  refine ⟨hstored.1, ?_⟩
  rw [List.drop_append_of_le_length hoffset]
  exact hstored.2.trans (List.prefix_append _ _)

/-- A part of the bytes of a number, of which more may be cut off. -/
theorem ofBytes_slice_part {bytes : List UInt8} {offset width n : ℕ}
    (hbytes : toBytes width n <+: bytes.drop offset) {skip part rest : ℕ}
    (hwidth : width = skip + (part + rest)) :
    ofBytes (slice bytes (offset + skip) part) = n / 256 ^ skip % 256 ^ part := by
  obtain ⟨behind, hbehind⟩ := hbytes
  have hslice : slice bytes (offset + skip) part = toBytes part (n / 256 ^ skip) := by
    rw [slice, ← List.drop_drop, ← hbehind, hwidth, List.drop_append_of_le_length (by simp),
      drop_toBytes, List.take_append_of_le_length (by simp), take_toBytes]
  rw [hslice, ofBytes_toBytes]

theorem Stored.ofBytes_slice_part {bytes : List UInt8} {offset width n : ℕ}
    (hstored : Stored bytes offset width n) {skip part rest : ℕ}
    (hwidth : width = skip + (part + rest)) :
    ofBytes (slice bytes (offset + skip) part) = n / 256 ^ skip % 256 ^ part :=
  LittleEndian.ofBytes_slice_part hstored.2 hwidth

theorem Stored.ofBytes_slice {bytes : List UInt8} {offset width n : ℕ}
    (hstored : Stored bytes offset width n) : ofBytes (slice bytes offset width) = n := by
  have hslice := hstored.ofBytes_slice_part (show width = 0 + (width + 0) by omega)
  rw [Nat.add_zero, pow_zero, Nat.div_one, Nat.mod_eq_of_lt hstored.1] at hslice
  exact hslice

end SyzAbi.Library.LittleEndian

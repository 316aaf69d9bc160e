import Mathlib.Algebra.Group.Basic
import Mathlib.Tactic.IntervalCases
import SyzAbi.Library.Utf8

/-!
# Decoding UTF-8 with replacements

`decode` is `bytes.decode("utf-8", errors="replace")`, one byte after the other: a character that
has begun owes some more bytes (`Begun`), and a byte that does not go on with it puts U+FFFD in its
place and is looked at again. Bytes of a text decode to the text (`decode_encode`). An ASCII byte is
decoded on its own, so the bytes before it and behind it can be decoded apart (`decode_append`), and
a text has no more ASCII characters than the bytes have (`countP_decode_le`).
-/

set_option autoImplicit false
set_option relaxedAutoImplicit false

namespace SyzAbi.Library.Utf8

/-- A character that has begun: how many bytes it owes, the bounds of the next one, and the bits so
far. -/
structure Begun where
  owed : ℕ
  low : ℕ
  high : ℕ
  bits : ℕ

/-- A byte between characters: what it decodes to, and the character that it begins. -/
def decodeFirst (byte : ℕ) : List ℕ × Option Begun :=
  if byte < 0x80 then ([byte], none)
  else if 0xC2 ≤ byte ∧ byte ≤ 0xDF then ([], some ⟨1, 0x80, 0xBF, byte - 0xC0⟩)
  else if byte = 0xE0 then ([], some ⟨2, 0xA0, 0xBF, 0⟩)
  else if byte = 0xED then ([], some ⟨2, 0x80, 0x9F, 0xD⟩)
  else if 0xE1 ≤ byte ∧ byte ≤ 0xEF then ([], some ⟨2, 0x80, 0xBF, byte - 0xE0⟩)
  else if byte = 0xF0 then ([], some ⟨3, 0x90, 0xBF, 0⟩)
  else if byte = 0xF4 then ([], some ⟨3, 0x80, 0x8F, 4⟩)
  else if 0xF1 ≤ byte ∧ byte ≤ 0xF3 then ([], some ⟨3, 0x80, 0xBF, byte - 0xF0⟩)
  else ([0xFFFD], none)

/-- The next byte. -/
def decodeNext (state : Option Begun) (byte : ℕ) : List ℕ × Option Begun :=
  match state with
  | none => decodeFirst byte
  | some begun =>
    if begun.low ≤ byte ∧ byte ≤ begun.high then
      let bits := begun.bits * 64 + (byte - 0x80)
      if begun.owed ≤ 1 then ([bits], none) else ([], some ⟨begun.owed - 1, 0x80, 0xBF, bits⟩)
    else (0xFFFD :: (decodeFirst byte).1, (decodeFirst byte).2)

/-- The bytes behind a character that may have begun. -/
def decodeFrom : Option Begun → List ℕ → List ℕ
  | none, [] => []
  | some _, [] => [0xFFFD]
  | state, byte :: rest => (decodeNext state byte).1 ++ decodeFrom (decodeNext state byte).2 rest

/-- `bytes.decode("utf-8", errors="replace")`. -/
def decode (bytes : List ℕ) : List ℕ := decodeFrom none bytes

theorem decodeFrom_cons (state : Option Begun) (byte : ℕ) (rest : List ℕ) :
    decodeFrom state (byte :: rest) =
      (decodeNext state byte).1 ++ decodeFrom (decodeNext state byte).2 rest := by
  cases state <;> rfl

/-! ### Encoded texts -/

theorem decodeFrom_tail {begun : Begun} {byte : ℕ} (hbyte : begun.low ≤ byte ∧ byte ≤ begun.high)
    (howed : 1 < begun.owed) (rest : List ℕ) :
    decodeFrom (some begun) (byte :: rest) =
      decodeFrom (some ⟨begun.owed - 1, 0x80, 0xBF, begun.bits * 64 + (byte - 0x80)⟩) rest := by
  rw [decodeFrom_cons, decodeNext, if_pos hbyte]
  simp only [if_neg (Nat.not_le.mpr howed), List.nil_append]

theorem decodeFrom_last {begun : Begun} {byte : ℕ} (hbyte : begun.low ≤ byte ∧ byte ≤ begun.high)
    (howed : begun.owed ≤ 1) (rest : List ℕ) :
    decodeFrom (some begun) (byte :: rest) =
      (begun.bits * 64 + (byte - 0x80)) :: decodeFrom none rest := by
  rw [decodeFrom_cons, decodeNext, if_pos hbyte]
  simp only [if_pos howed, List.singleton_append]

theorem decodeFrom_first {byte : ℕ} {begun : Begun} (hfirst : decodeFirst byte = ([], some begun))
    (rest : List ℕ) : decodeFrom none (byte :: rest) = decodeFrom (some begun) rest := by
  rw [decodeFrom_cons, decodeNext, hfirst, List.nil_append]

theorem decodeFirst_two {lead : ℕ} (hlead : 2 ≤ lead ∧ lead < 32) :
    decodeFirst (lead + 0xC0) = ([], some ⟨1, 0x80, 0xBF, lead⟩) := by
  rw [decodeFirst, if_neg (by omega), if_pos (by omega), Nat.add_sub_cancel]

theorem decodeFirst_three {lead : ℕ} (hlead : lead < 16) :
    decodeFirst (lead + 0xE0) = ([], some
      ⟨2, if lead = 0 then 0xA0 else 0x80, if lead = 13 then 0x9F else 0xBF, lead⟩) := by
  interval_cases lead <;> rfl

theorem decodeFirst_four {lead : ℕ} (hlead : lead < 5) :
    decodeFirst (lead + 0xF0) = ([], some
      ⟨3, if lead = 0 then 0x90 else 0x80, if lead = 4 then 0x8F else 0xBF, lead⟩) := by
  interval_cases lead <;> rfl

/-- The bytes of a character decode to it, whatever follows. -/
theorem decodeFrom_encodePoint {c : ℕ} (hvalid : c.isValidChar) (rest : List ℕ) :
    decodeFrom none (encodePoint c ++ rest) = c :: decodeFrom none rest := by
  have hrange := lt_of_isValidChar hvalid
  have hsurrogate : c < 0xD800 ∨ 0xDFFF < c := hvalid.imp id And.left
  rw [encodePoint_eq hvalid]
  split_ifs with h1 h2 h3
  · rw [List.singleton_append, decodeFrom_cons, decodeNext, decodeFirst, if_pos (by omega)]
    rfl
  · rw [List.cons_append, List.singleton_append, decodeFrom_first (decodeFirst_two (by omega)),
      decodeFrom_last (by simp only; omega) le_rfl]
    have hbits : c / 64 * 64 + (c % 64 + 0x80 - 0x80) = c := by omega
    rw [hbits]
  · rw [List.cons_append, List.cons_append, List.singleton_append,
      decodeFrom_first (decodeFirst_three (by omega)),
      decodeFrom_tail (by simp only; split_ifs <;> omega) (by simp),
      decodeFrom_last (by simp only; omega) le_rfl]
    have hbits :
        (c / 4096 * 64 + (c / 64 % 64 + 0x80 - 0x80)) * 64 + (c % 64 + 0x80 - 0x80) = c := by
      omega
    rw [hbits]
  · rw [List.cons_append, List.cons_append, List.cons_append, List.singleton_append,
      decodeFrom_first (decodeFirst_four (by omega)),
      decodeFrom_tail (by simp only; split_ifs <;> omega) (by simp),
      decodeFrom_tail (by simp only; omega) (by simp), decodeFrom_last (by simp only; omega) le_rfl]
    have hbits : ((c / 262144 * 64 + (c / 4096 % 64 + 0x80 - 0x80)) * 64 +
        (c / 64 % 64 + 0x80 - 0x80)) * 64 + (c % 64 + 0x80 - 0x80) = c := by
      omega
    rw [hbits]

/-- What was encoded is decoded. -/
theorem decode_encode {text : List ℕ} (hvalid : ∀ c ∈ text, c.isValidChar) :
    decode (encode text) = text := by
  induction text with
  | nil => rfl
  | cons c rest ih =>
    rw [List.forall_mem_cons] at hvalid
    rw [encode_cons, decode, decodeFrom_encodePoint hvalid.1, ← decode, ih hvalid.2]

/-! ### ASCII characters -/

/-- The character that has begun is not ASCII. -/
def Begun.Wide (begun : Begun) : Prop :=
  1 ≤ begun.owed ∧ 0x80 ≤ begun.low ∧
    128 ≤ (begun.bits * 64 + (begun.low - 0x80)) * 64 ^ (begun.owed - 1)

theorem wide_decodeFirst {byte : ℕ} {begun : Begun} (hbegun : begun ∈ (decodeFirst byte).2) :
    begun.Wide := by
  rw [decodeFirst] at hbegun
  split_ifs at hbegun <;> cases hbegun <;> refine ⟨by simp, by simp, ?_⟩ <;> simp <;> omega

theorem wide_decodeNext {state : Option Begun} (hstate : ∀ begun ∈ state, begun.Wide) (byte : ℕ) :
    ∀ begun ∈ (decodeNext state byte).2, begun.Wide := by
  cases state with
  | none => exact fun _ ↦ wide_decodeFirst
  | some begun =>
    obtain ⟨howed, hlow, hwide⟩ := hstate begun rfl
    simp only [decodeNext]
    split_ifs with hgoes hlast
    · exact fun _ hnone ↦ by cases hnone
    · intro next hnext
      cases hnext
      refine ⟨by simp only; omega, le_rfl, ?_⟩
      simp only [Nat.sub_self, add_zero]
      rw [mul_assoc, ← pow_succ', show begun.owed - 1 - 1 + 1 = begun.owed - 1 by omega]
      exact hwide.trans (Nat.mul_le_mul_right _ (by omega))
    · exact fun _ ↦ wide_decodeFirst

/-- An ASCII byte begins a character of its own, whatever it follows. -/
theorem decodeFrom_append {state : Option Begun} (hstate : ∀ begun ∈ state, begun.Wide)
    (front : List ℕ) {byte : ℕ} (hbyte : byte < 128) (rest : List ℕ) :
    decodeFrom state (front ++ byte :: rest) =
      decodeFrom state front ++ decodeFrom none (byte :: rest) := by
  induction front generalizing state with
  | nil =>
    cases state with
    | none => rfl
    | some begun =>
      have hlow := (hstate begun rfl).2.1
      rw [List.nil_append, decodeFrom_cons, decodeNext, if_neg (by omega), decodeFrom_cons none]
      rfl
  | cons first front ih =>
    rw [List.cons_append, decodeFrom_cons, decodeFrom_cons, ih (wide_decodeNext hstate first),
      List.append_assoc]

theorem decode_append (front : List ℕ) {byte : ℕ} (hbyte : byte < 128) (rest : List ℕ) :
    decode (front ++ byte :: rest) = decode front ++ byte :: decode rest := by
  have hfirst : decodeFrom none (byte :: rest) = byte :: decodeFrom none rest := by
    rw [decodeFrom_cons, decodeNext, decodeFirst, if_pos (by omega)]
    rfl
  rw [decode, decodeFrom_append (fun _ hnone ↦ by cases hnone) front hbyte, hfirst]
  rfl

theorem countP_decodeFirst_le {p : ℕ → Bool} (hascii : ∀ c, 128 ≤ c → p c = false) (byte : ℕ) :
    (decodeFirst byte).1.countP p ≤ [byte].countP p := by
  rw [decodeFirst]
  split_ifs <;> simp [hascii 0xFFFD]

/-- A decoded text has no more ASCII characters of a kind than the bytes have. -/
theorem countP_decodeFrom_le {p : ℕ → Bool} (hascii : ∀ c, 128 ≤ c → p c = false)
    (bytes : List ℕ) {state : Option Begun} (hstate : ∀ begun ∈ state, begun.Wide) :
    (decodeFrom state bytes).countP p ≤ bytes.countP p := by
  induction bytes generalizing state with
  | nil => cases state <;> simp [decodeFrom, hascii 0xFFFD]
  | cons byte rest ih =>
    have hstep : (decodeNext state byte).1.countP p ≤ [byte].countP p := by
      cases state with
      | none => exact countP_decodeFirst_le hascii byte
      | some begun =>
        obtain ⟨howed, hlow, hwide⟩ := hstate begun rfl
        simp only [decodeNext]
        split_ifs with hgoes hlast
        · have hbits : 128 ≤ begun.bits * 64 + (byte - 0x80) := by
            rw [show begun.owed - 1 = 0 by omega, pow_zero, mul_one] at hwide
            omega
          rw [List.countP_singleton, hascii _ hbits]
          exact Nat.zero_le _
        · exact Nat.zero_le _
        · rw [List.countP_cons_of_neg (by rw [hascii _ (by decide)]; exact Bool.false_ne_true)]
          exact countP_decodeFirst_le hascii byte
    rw [decodeFrom_cons, List.countP_append, ← List.singleton_append, List.countP_append]
    exact Nat.add_le_add hstep (ih (wide_decodeNext hstate byte))

theorem countP_decode_le {p : ℕ → Bool} (hascii : ∀ c, 128 ≤ c → p c = false) (bytes : List ℕ) :
    (decode bytes).countP p ≤ bytes.countP p :=
  countP_decodeFrom_le hascii bytes fun _ hnone ↦ by cases hnone

end SyzAbi.Library.Utf8

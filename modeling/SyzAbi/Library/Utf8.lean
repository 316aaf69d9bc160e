import Mathlib.Data.Nat.Notation
import Mathlib.Data.List.Basic
import Mathlib.Data.List.Lex
import Mathlib.Order.Basic

/-!
# UTF-8

The bytes of a text that is given as a list of code points. ASCII characters are their own bytes,
and the bytes of the others are not ASCII (`encode_ascii`, `le_of_mem_encodePoint`), so a
substitution that only touches ASCII characters can be done before or after encoding
(`encode_flatMap`). Texts and their bytes are ordered alike (`encode_lt_iff`).
-/

set_option autoImplicit false
set_option relaxedAutoImplicit false

namespace SyzAbi.Library.Utf8

/-- The bytes of a code point. -/
def encodePoint (c : ℕ) : List ℕ := (String.utf8EncodeChar (Char.ofNat c)).map UInt8.toNat

/-- The bytes of a text. -/
def encode (text : List ℕ) : List ℕ := text.flatMap encodePoint

theorem encode_append (a b : List ℕ) : encode (a ++ b) = encode a ++ encode b :=
  List.flatMap_append

theorem encode_cons (c : ℕ) (text : List ℕ) : encode (c :: text) = encodePoint c ++ encode text :=
  List.flatMap_cons

theorem lt_of_mem_encode {text : List ℕ} {byte : ℕ} (hbyte : byte ∈ encode text) : byte < 256 := by
  obtain ⟨c, -, hmem⟩ := List.mem_flatMap.mp hbyte
  obtain ⟨byte, -, rfl⟩ := List.mem_map.mp hmem
  exact byte.toNat_lt

theorem toNat_ofNat_ascii {c : ℕ} (hascii : c < 128) : (Char.ofNat c).val.toNat = c := by
  have hvalid : c.isValidChar := Or.inl (by omega)
  rw [Char.ofNat, dif_pos hvalid]
  exact UInt32.toNat_ofNatLT

theorem encodePoint_ascii {c : ℕ} (hascii : c < 128) : encodePoint c = [c] := by
  rw [encodePoint, String.utf8EncodeChar]
  simp only [toNat_ofNat_ascii hascii, if_pos (show c ≤ 0x7f by omega), List.map_cons, List.map_nil]
  rw [UInt8.toNat_ofNat_of_lt' (by omega : c < 256)]

/-- ASCII text is its own encoding. -/
theorem encode_ascii {text : List ℕ} (hascii : ∀ c ∈ text, c < 128) : encode text = text := by
  induction text with
  | nil => rfl
  | cons c rest ih =>
    rw [List.forall_mem_cons] at hascii
    rw [encode_cons, encodePoint_ascii hascii.1, ih hascii.2]
    rfl

theorem lt_of_isValidChar {c : ℕ} (hvalid : c.isValidChar) : c < 0x110000 := by
  rcases hvalid with hlow | hhigh
  · omega
  · exact hhigh.2

/-- The bytes of a character, as numbers. -/
theorem encodePoint_eq {c : ℕ} (hvalid : c.isValidChar) :
    encodePoint c =
      if c ≤ 0x7f then [c]
      else if c ≤ 0x7ff then [c / 64 + 0xc0, c % 64 + 0x80]
      else if c ≤ 0xffff then [c / 4096 + 0xe0, c / 64 % 64 + 0x80, c % 64 + 0x80]
      else [c / 262144 + 0xf0, c / 4096 % 64 + 0x80, c / 64 % 64 + 0x80, c % 64 + 0x80] := by
  have hval : (Char.ofNat c).val.toNat = c := by
    rw [Char.ofNat, dif_pos hvalid]
    exact UInt32.toNat_ofNatLT
  have hrange := lt_of_isValidChar hvalid
  rw [encodePoint, String.utf8EncodeChar]
  simp only [hval]
  split_ifs <;>
  simp only [List.map_cons, List.map_nil, UInt8.toNat_ofNat', List.cons.injEq, and_true] <;> omega

/-- The bytes of a character that is not ASCII are not ASCII. -/
theorem le_of_mem_encodePoint {c byte : ℕ} (hvalid : c.isValidChar) (hc : 128 ≤ c)
    (hbyte : byte ∈ encodePoint c) : 128 ≤ byte := by
  rw [encodePoint_eq hvalid, if_neg (by omega)] at hbyte
  split_ifs at hbyte <;> simp only [List.mem_cons, List.not_mem_nil, or_false] at hbyte <;> omega

/-- An ASCII byte is a character of the text. -/
theorem mem_of_mem_encode {text : List ℕ} (hvalid : ∀ c ∈ text, c.isValidChar) {byte : ℕ}
    (hascii : byte < 128) (hbyte : byte ∈ encode text) : byte ∈ text := by
  obtain ⟨c, hc, hmem⟩ := List.mem_flatMap.mp hbyte
  by_cases hlow : c < 128
  · rw [encodePoint_ascii hlow, List.mem_singleton] at hmem
    exact hmem ▸ hc
  · have := le_of_mem_encodePoint (hvalid c hc) (Nat.not_lt.mp hlow) hmem
    omega

/-- A smaller character has smaller bytes, whatever follows. -/
theorem encodePoint_lt {c d : ℕ} (hc : c.isValidChar) (hd : d.isValidChar) (hlt : c < d)
    (s t : List ℕ) : encodePoint c ++ s < encodePoint d ++ t := by
  have hrange := lt_of_isValidChar hd
  rw [encodePoint_eq hc, encodePoint_eq hd]
  split_ifs <;> simp only [List.cons_append, List.cons_lt_cons_iff] <;> omega

theorem encode_lt {a b : List ℕ} (ha : ∀ c ∈ a, c.isValidChar) (hb : ∀ c ∈ b, c.isValidChar)
    (hlt : a < b) : encode a < encode b := by
  induction a generalizing b with
  | nil =>
    obtain ⟨d, b, rfl⟩ := List.exists_cons_of_ne_nil (show b ≠ [] by rintro rfl; cases hlt)
    have hd := (List.forall_mem_cons.mp hb).1
    obtain ⟨byte, rest, hbytes⟩ := List.exists_cons_of_ne_nil (show encodePoint d ≠ [] by
      rw [encodePoint_eq hd]
      split_ifs <;> exact List.cons_ne_nil _ _)
    rw [encode_cons, hbytes]
    exact List.nil_lt_cons _ _
  | cons c a ih =>
    cases b with
    | nil => cases hlt
    | cons d b =>
      obtain ⟨hc, hrestA⟩ := List.forall_mem_cons.mp ha
      obtain ⟨hd, hrestB⟩ := List.forall_mem_cons.mp hb
      rw [encode_cons, encode_cons]
      rcases List.cons_lt_cons_iff.mp hlt with hfirst | ⟨rfl, hrest⟩
      · exact encodePoint_lt hc hd hfirst _ _
      · exact List.append_left_lt (ih hrestA hrestB hrest)

/-- Texts and their bytes are ordered alike. -/
theorem encode_lt_iff {a b : List ℕ} (ha : ∀ c ∈ a, c.isValidChar)
    (hb : ∀ c ∈ b, c.isValidChar) : encode a < encode b ↔ a < b := by
  refine ⟨fun hlt ↦ ?_, encode_lt ha hb⟩
  rcases lt_trichotomy a b with hless | rfl | hgreater
  · exact hless
  · exact absurd hlt (lt_irrefl _)
  · exact absurd hlt (lt_asymm (encode_lt hb ha hgreater))

/-- A character has at most four bytes. -/
theorem length_encodePoint_le (c : ℕ) : (encodePoint c).length ≤ 4 := by
  rw [encodePoint, List.length_map, String.utf8EncodeChar]
  split_ifs <;> simp

theorem length_encode_le (text : List ℕ) : (encode text).length ≤ 4 * text.length := by
  induction text with
  | nil => exact Nat.le_refl 0
  | cons c rest ih =>
    have hpoint := length_encodePoint_le c
    rw [encode_cons, List.length_append, List.length_cons]
    omega

/-- A substitution of ASCII characters by ASCII texts commutes with encoding. -/
theorem encode_flatMap {replace : ℕ → List ℕ} (hkeeps : ∀ c, 128 ≤ c → replace c = [c])
    (hascii : ∀ c, c < 128 → ∀ d ∈ replace c, d < 128) (text : List Char) :
    encode ((text.map Char.toNat).flatMap replace) =
      (encode (text.map Char.toNat)).flatMap replace := by
  induction text with
  | nil => rfl
  | cons c rest ih =>
    rw [List.map_cons, List.flatMap_cons, encode_append, encode_cons, List.flatMap_append, ih]
    congr 1
    by_cases hc : c.toNat < 128
    · rw [encode_ascii (hascii _ hc), encodePoint_ascii hc, List.flatMap_singleton]
    · rw [hkeeps _ (Nat.not_lt.mp hc), encode_cons, encode, List.flatMap_nil, List.append_nil]
      have hbytes : ∀ byte ∈ encodePoint c.toNat, replace byte = [byte] := fun byte hbyte ↦
        hkeeps byte (le_of_mem_encodePoint c.valid (Nat.not_lt.mp hc) hbyte)
      rw [List.flatMap_congr hbytes, List.flatMap_singleton']

end SyzAbi.Library.Utf8

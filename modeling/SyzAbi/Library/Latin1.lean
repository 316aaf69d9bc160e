import SyzAbi.Library.Utf8

/-!
# Latin-1 texts in UTF-8

Bytes that are read as Latin-1 and written as UTF-8 again: ASCII bytes stay, every other byte
becomes two. When only the first bytes are written, the result is the whole in two cases
(`encode_take_eq_iff`): the bytes are ASCII and none is left out, or behind an ASCII text they
follow the one sequence in which every byte is written two bytes further on (`selfEncoded`).
-/

set_option autoImplicit false
set_option relaxedAutoImplicit false

namespace SyzAbi.Library.Utf8

theorem encodePoint_latin1 {c : ℕ} (hlow : 128 ≤ c) (hhigh : c < 256) :
    encodePoint c = [c / 64 + 0xc0, c % 64 + 0x80] := by
  rw [encodePoint_eq (Or.inl (by omega)), if_neg (by omega), if_pos (by omega)]

/-- The beginning of a sequence that is the encoding of its own first half. -/
def selfEncoded : ℕ → List ℕ
  | 0 => []
  | n + 1 => selfEncoded n ++ encodePoint ((selfEncoded n).getD n 0xc3)

theorem getD_range {bytes : List ℕ} (hrange : ∀ byte ∈ bytes, 128 ≤ byte ∧ byte < 256) (n : ℕ) :
    128 ≤ bytes.getD n 0xc3 ∧ bytes.getD n 0xc3 < 256 := by
  rw [List.getD_eq_getElem?_getD]
  cases hget : bytes[n]? with
  | none => exact ⟨by decide, by decide⟩
  | some byte => exact hrange byte (List.mem_of_getElem? hget)

/-- The bytes of the sequence are not ASCII. -/
theorem selfEncoded_range (n : ℕ) : ∀ byte ∈ selfEncoded n, 128 ≤ byte ∧ byte < 256 := by
  induction n with
  | zero => exact fun byte hbyte ↦ absurd hbyte List.not_mem_nil
  | succ n ih =>
    obtain ⟨hlow, hhigh⟩ := getD_range ih n
    intro byte hbyte
    rw [selfEncoded, encodePoint_latin1 hlow hhigh] at hbyte
    rcases List.mem_append.mp hbyte with hold | hnew
    · exact ih byte hold
    · simp only [List.mem_cons, List.not_mem_nil, or_false] at hnew
      omega

theorem length_selfEncoded (n : ℕ) : (selfEncoded n).length = 2 * n := by
  induction n with
  | zero => rfl
  | succ n ih =>
    obtain ⟨hlow, hhigh⟩ := getD_range (selfEncoded_range n) n
    rw [selfEncoded, List.length_append, ih, encodePoint_latin1 hlow hhigh]
    rfl

/-- The sequence goes on with what the next step encodes. -/
theorem getElem?_selfEncoded (n : ℕ) :
    (selfEncoded (n + 1))[n + 1]? = some ((selfEncoded (n + 1)).getD (n + 1) 0xc3) := by
  have hlt : n + 1 < (selfEncoded (n + 1)).length := by
    rw [length_selfEncoded]
    omega
  rw [List.getD_eq_getElem?_getD, List.getElem?_eq_getElem hlt, Option.getD_some]

/-- One character more of a text is encoded. -/
theorem encode_take_succ {text : List ℕ} {n c : ℕ} (hget : text[n]? = some c) :
    encode (text.take (n + 1)) = encode (text.take n) ++ encodePoint c := by
  rw [List.take_add_one, hget, encode_append]
  exact congrArg (_ ++ ·) (List.append_nil _)

/-- The sequence is the encoding of its first half. -/
theorem encode_take_selfEncoded (n : ℕ) :
    encode ((selfEncoded (n + 1)).take (n + 1)) = selfEncoded (n + 1) := by
  induction n with
  | zero => decide
  | succ n ih =>
    have htake : (selfEncoded (n + 1 + 1)).take (n + 1 + 1) =
        (selfEncoded (n + 1)).take (n + 1 + 1) := by
      rw [selfEncoded]
      exact List.take_append_of_le_length (by rw [length_selfEncoded]; omega)
    rw [htake, encode_take_succ (getElem?_selfEncoded n), ih]
    rfl

section SelfEncoded

variable {byte : ℕ} {rest : List ℕ} {n : ℕ} (hlow : 128 ≤ byte) (hhigh : byte < 256)
  (hself : encode ((byte :: rest).take n) = byte :: rest)

include hlow hhigh hself

/-- The first byte of a text that is its own encoding. -/
theorem head_of_encode_take : byte = 0xc3 := by
  cases n with
  | zero => cases hself
  | succ n =>
    rw [List.take_succ_cons, encode_cons, encodePoint_latin1 hlow hhigh] at hself
    have hfirst := (List.cons.inj hself).1
    omega

/-- A text that is its own encoding, and does not begin with ASCII, begins like the sequence. -/
theorem encode_take_of_self {k : ℕ} (hk : k ≤ n) :
    encode ((byte :: rest).take k) = selfEncoded k := by
  induction k with
  | zero => rfl
  | succ k ih =>
    have hbefore := ih (Nat.le_of_succ_le hk)
    cases k with
    | zero =>
      rw [List.take_succ_cons, List.take_zero, encode_cons, head_of_encode_take hlow hhigh hself]
      rfl
    | succ k =>
      -- What comes before this place is encoded in twice as many bytes: this byte is one of them.
      have hbegin : selfEncoded (k + 1) <+: byte :: rest := by
        obtain ⟨more, hmore⟩ := List.take_prefix_take_left (l := byte :: rest)
          (Nat.le_of_succ_le hk)
        have hsplit := congrArg encode hmore
        rw [encode_append, hbefore, hself] at hsplit
        exact ⟨encode more, hsplit⟩
      obtain ⟨more, hmore⟩ := hbegin
      have hget : (byte :: rest)[k + 1]? = some ((selfEncoded (k + 1)).getD (k + 1) 0xc3) := by
        rw [← hmore, List.getElem?_append_left (by rw [length_selfEncoded]; omega)]
        exact getElem?_selfEncoded k
      rw [encode_take_succ hget, hbefore]
      rfl

end SelfEncoded

/-- When the encoding of the first bytes is the whole. -/
theorem encode_take_eq_iff {bytes : List ℕ} (hbytes : ∀ byte ∈ bytes, byte < 256) (n : ℕ) :
    encode (bytes.take n) = bytes ↔
      (∀ byte ∈ bytes, byte < 128) ∧ bytes.length ≤ n ∨
        ∃ text count, (∀ c ∈ text, c < 128) ∧ text.length + (count + 1) = n ∧
          bytes = text ++ selfEncoded (count + 1) := by
  constructor
  · intro hself
    induction bytes generalizing n with
    | nil => exact .inl ⟨fun byte hbyte ↦ absurd hbyte List.not_mem_nil, Nat.zero_le n⟩
    | cons byte rest ih =>
      obtain ⟨hhigh, hrest⟩ := List.forall_mem_cons.mp hbytes
      obtain ⟨n, rfl⟩ := Nat.exists_eq_succ_of_ne_zero (show n ≠ 0 by rintro rfl; cases hself)
      by_cases hascii : byte < 128
      · have htail : encode (rest.take n) = rest := by
          rw [List.take_succ_cons, encode_cons, encodePoint_ascii hascii] at hself
          exact (List.cons.inj hself).2
        rcases ih hrest n htail with ⟨hall, hlength⟩ | ⟨text, count, htext, rfl, rfl⟩
        · exact .inl ⟨List.forall_mem_cons.mpr ⟨hascii, hall⟩, Nat.succ_le_succ hlength⟩
        · exact .inr ⟨byte :: text, count, List.forall_mem_cons.mpr ⟨hascii, htext⟩,
            Nat.succ_add_eq_add_succ _ _, rfl⟩
      · have hwhole := encode_take_of_self (Nat.not_lt.mp hascii) hhigh hself (Nat.le_refl _)
        exact .inr ⟨[], n, fun c hc ↦ absurd hc List.not_mem_nil, Nat.zero_add _,
          hself.symm.trans hwhole⟩
  · rintro (⟨hascii, hlength⟩ | ⟨text, count, htext, rfl, rfl⟩)
    · rw [List.take_of_length_le hlength, encode_ascii hascii]
    · rw [List.take_length_add_append, encode_append, encode_ascii htext, encode_take_selfEncoded]

end SyzAbi.Library.Utf8

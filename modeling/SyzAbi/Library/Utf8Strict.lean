import Mathlib.Data.List.Induction
import SyzAbi.Library.Utf8Decode

/-!
# Strict UTF-8

`bytes.decode("utf-8")` and `text.encode("utf-8")` as Python does them by default: a surrogate has
no bytes, and bytes that are not the bytes of a text have no text. The two are inverse to each other
(`decodeStrict_eq_some_iff`), and a beginning of the bytes of a text is the bytes of a beginning of
the text, or of nothing (`exists_append_of_encode`).
-/

set_option autoImplicit false
set_option relaxedAutoImplicit false

namespace SyzAbi.Library.Utf8

/-- `text.encode("utf-8")`; `none` when a `UnicodeEncodeError` is raised. -/
def encodeStrict (text : List ℕ) : Option (List ℕ) :=
  if ∀ c ∈ text, c.isValidChar then some (encode text) else none

/-- `bytes.decode("utf-8")`; `none` when a `UnicodeDecodeError` is raised. -/
def decodeStrict (bytes : List ℕ) : Option (List ℕ) :=
  let text := decode bytes
  if (∀ c ∈ text, c.isValidChar) ∧ encode text = bytes then some text else none

/-- Only characters beyond ASCII can be surrogates. -/
theorem forall_isValidChar_iff {p q : ℕ → Prop} (hwide : ∀ c, 128 ≤ c → (p c ↔ q c)) :
    (∀ c, p c → c.isValidChar) ↔ ∀ c, q c → c.isValidChar := by
  refine forall_congr' fun c ↦ ?_
  by_cases hc : 128 ≤ c
  · rw [hwide c hc]
  · have hvalid : c.isValidChar := .inl (by omega)
    exact iff_of_true (fun _ ↦ hvalid) fun _ ↦ hvalid

/-- Bytes are decoded to the text that they encode. -/
theorem decodeStrict_eq_some_iff {text bytes : List ℕ} :
    decodeStrict bytes = some text ↔ (∀ c ∈ text, c.isValidChar) ∧ encode text = bytes := by
  rw [decodeStrict]
  constructor
  · intro hdecode
    split_ifs at hdecode with hbytes
    exact Option.some.inj hdecode ▸ hbytes
  · rintro ⟨hvalid, rfl⟩
    rw [decode_encode hvalid, if_pos ⟨hvalid, rfl⟩]

theorem decodeStrict_encode {text : List ℕ} (hvalid : ∀ c ∈ text, c.isValidChar) :
    decodeStrict (encode text) = some text :=
  decodeStrict_eq_some_iff.mpr ⟨hvalid, rfl⟩

/-- The bytes of a text at the head decode to it. -/
theorem decode_encode_append {text : List ℕ} (hvalid : ∀ c ∈ text, c.isValidChar)
    (rest : List ℕ) : decode (encode text ++ rest) = text ++ decode rest := by
  induction text with
  | nil => rfl
  | cons c text ih =>
    rw [List.forall_mem_cons] at hvalid
    rw [encode_cons, List.append_assoc, decode, decodeFrom_encodePoint hvalid.1, ← decode,
      ih hvalid.2, List.cons_append]

/-- When the bytes of a text begin the bytes of another one, the text begins it. -/
theorem exists_append_of_encode {text whole rest : List ℕ} (htext : ∀ c ∈ text, c.isValidChar)
    (hwhole : ∀ c ∈ whole, c.isValidChar) (heq : encode whole = encode text ++ rest) :
    ∃ more, whole = text ++ more ∧ rest = encode more := by
  have hdecode := decode_encode hwhole
  rw [heq, decode_encode_append htext] at hdecode
  refine ⟨decode rest, hdecode.symm, ?_⟩
  rw [← hdecode, encode_append] at heq
  exact (List.append_cancel_left heq).symm

/-- ASCII bytes at the end are characters at the end. -/
theorem exists_append_of_ascii {whole bytes last : List ℕ} (hwhole : ∀ c ∈ whole, c.isValidChar)
    (hascii : ∀ byte ∈ last, byte < 128) (heq : encode whole = bytes ++ last) :
    ∃ text, whole = text ++ last ∧ bytes = encode text := by
  induction last using List.reverseRecOn generalizing whole with
  | nil => exact ⟨whole, (List.append_nil whole).symm, by rw [heq, List.append_nil]⟩
  | append_singleton last byte ih =>
    obtain ⟨hlast, hbyte⟩ := List.forall_mem_append.mp hascii
    have hlow := hbyte byte (List.mem_singleton_self byte)
    rw [← List.append_assoc] at heq
    rcases List.eq_nil_or_concat whole with rfl | ⟨front, c, rfl⟩
    · have hlength := congrArg List.length heq
      simp [encode] at hlength
    · rw [List.concat_eq_append] at heq hwhole ⊢
      obtain ⟨hfront, hc⟩ := List.forall_mem_append.mp hwhole
      have hvalid := hc c (List.mem_singleton_self c)
      have hpoint : encode [c] = encodePoint c := List.flatMap_singleton encodePoint c
      rw [encode_append, hpoint] at heq
      by_cases hwide : 128 ≤ c
      · -- A character beyond ASCII has no ASCII byte at its end.
        have hne : encodePoint c ≠ [] := by
          rw [encodePoint_eq hvalid]
          split_ifs <;> exact List.cons_ne_nil _ _
        obtain ⟨start, final, hfinal⟩ := (List.eq_nil_or_concat (encodePoint c)).resolve_left hne
        rw [List.concat_eq_append] at hfinal
        rw [hfinal, ← List.append_assoc] at heq
        have hsame : final = byte := (List.cons.inj (List.append_inj' heq rfl).2).1
        have hmem : final ∈ encodePoint c := by
          rw [hfinal]
          exact List.mem_append_right start (List.mem_singleton_self final)
        have hhigh := le_of_mem_encodePoint hvalid hwide hmem
        omega
      · rw [encodePoint_ascii (Nat.not_le.mp hwide)] at heq
        obtain ⟨hbytes, hsame⟩ := List.append_inj' heq rfl
        obtain ⟨text, rfl, htext⟩ := ih hfront hlast hbytes
        exact ⟨text, by rw [hsame, List.append_assoc], htext⟩

end SyzAbi.Library.Utf8

import Mathlib.Data.List.Basic

/-!
# UTF-16

The code units of a text: a character beyond the basic plane takes two, a high and a low surrogate.
Read one by one as characters, they are the text exactly when it stays inside the basic plane
(`encode_eq_self`), and otherwise some of them are no characters (`forall_mem_encode_iff`).
-/

set_option autoImplicit false
set_option relaxedAutoImplicit false

namespace SyzAbi.Library.Utf16

/-- The units of a character. -/
def encodeChar (c : ℕ) : List ℕ :=
  if c < 0x10000 then [c]
  else [0xD800 + (c - 0x10000) / 0x400, 0xDC00 + (c - 0x10000) % 0x400]

/-- The units of a text. -/
def encode (text : List ℕ) : List ℕ := text.flatMap encodeChar

theorem encode_cons (c : ℕ) (text : List ℕ) : encode (c :: text) = encodeChar c ++ encode text :=
  List.flatMap_cons

theorem encode_append (a b : List ℕ) : encode (a ++ b) = encode a ++ encode b :=
  List.flatMap_append

theorem encodeChar_ne_nil (c : ℕ) : encodeChar c ≠ [] := by
  rw [encodeChar]
  split_ifs
  · exact List.cons_ne_nil _ _
  · exact List.cons_ne_nil _ _

theorem encode_eq_nil_iff {text : List ℕ} : encode text = [] ↔ text = [] := by
  cases text with
  | nil => exact iff_of_true rfl rfl
  | cons c text =>
    refine iff_of_false ?_ (List.cons_ne_nil c text)
    rw [encode_cons, List.append_eq_nil_iff]
    exact fun h ↦ encodeChar_ne_nil c h.1

/-- In the basic plane a character is its unit. -/
theorem encode_eq_self {text : List ℕ} (htext : ∀ c ∈ text, c < 0x10000) : encode text = text := by
  induction text with
  | nil => rfl
  | cons c text ih =>
    obtain ⟨hc, hmore⟩ := List.forall_mem_cons.mp htext
    rw [encode_cons, ih hmore, encodeChar, if_pos hc]
    rfl

/-- A character beyond the basic plane has a surrogate among the units. -/
theorem exists_surrogate_of_mem {text : List ℕ} {c : ℕ} (hc : c ∈ text) (hhigh : 0x10000 ≤ c) :
    0xD800 + (c - 0x10000) / 0x400 ∈ encode text := by
  refine List.mem_flatMap.mpr ⟨c, hc, ?_⟩
  rw [encodeChar, if_neg (Nat.not_lt.mpr hhigh)]
  exact List.mem_cons_self

/-- Only a text is encoded as itself. -/
theorem encode_eq_iff {text units : List ℕ} (hunits : ∀ unit ∈ units, unit < 0xD800) :
    encode text = units ↔ text = units := by
  refine ⟨fun heq ↦ ?_, fun heq ↦ ?_⟩
  · rw [← heq, encode_eq_self]
    intro c hc
    by_contra hhigh
    have hlt := hunits _ (heq ▸ exists_surrogate_of_mem hc (Nat.not_lt.mp hhigh))
    omega
  · rw [heq, encode_eq_self]
    exact fun unit hunit ↦ Nat.lt_trans (hunits unit hunit) (by decide)

/-- The units are characters exactly when the text stays inside the basic plane. -/
theorem forall_mem_encode_iff {text : List ℕ} (hvalid : ∀ c ∈ text, c.isValidChar) :
    (∀ unit ∈ encode text, unit.isValidChar) ↔ ∀ c ∈ text, c < 0x10000 := by
  refine ⟨fun hunits c hc ↦ ?_, fun htext ↦ by rwa [encode_eq_self htext]⟩
  by_contra hhigh
  have hc' := hvalid c hc
  have hfirst := hunits _ (exists_surrogate_of_mem hc (Nat.not_lt.mp hhigh))
  simp only [Nat.isValidChar] at hc' hfirst
  omega

/-- A character that takes one unit can be left out before or after the encoding. -/
theorem filter_encode {unit : ℕ} (hunit : unit.isValidChar) (hplane : unit < 0x10000)
    {text : List ℕ} (hvalid : ∀ c ∈ text, c.isValidChar) :
    (encode text).filter (· ≠ unit) = encode (text.filter (· ≠ unit)) := by
  induction text with
  | nil => rfl
  | cons c text ih =>
    obtain ⟨hc, hmore⟩ := List.forall_mem_cons.mp hvalid
    rw [encode_cons, List.filter_append, ih hmore]
    by_cases heq : c = unit
    · rw [heq, encodeChar, if_pos hplane, List.filter_cons_of_neg (by simp),
        List.filter_cons_of_neg (by simp)]
      rfl
    · rw [List.filter_cons, if_pos (decide_eq_true heq), encode_cons, List.filter_eq_self.mpr]
      intro part hpart
      rw [encodeChar] at hpart
      simp only [Nat.isValidChar] at hc hunit
      refine decide_eq_true ?_
      split_ifs at hpart
      · rwa [List.mem_singleton.mp hpart]
      · rcases List.mem_pair.mp hpart with hpart | hpart
        · omega
        · omega

end SyzAbi.Library.Utf16

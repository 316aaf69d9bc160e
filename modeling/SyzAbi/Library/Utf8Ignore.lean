import SyzAbi.Library.Utf8Strict

/-!
# Decoding UTF-8 without what is malformed

`decodeIgnore` is `bytes.decode("utf-8", errors="ignore")`: bytes that are not those of a character
are left out. A stream that is decoded in pieces so loses the characters that lie across two pieces.
A decoded text has at most one character beyond ASCII for each byte that begins one
(`wide_decodeIgnore_le`), so the pieces of a text decode to all of these characters only when each
piece is the bytes of a text (`intact_of_wide_le`).
-/

set_option autoImplicit false
set_option relaxedAutoImplicit false

namespace SyzAbi.Library.Utf8

/-- The characters that a byte completes. -/
def kept (state : Option Begun) (byte : ℕ) : List ℕ :=
  match state with
  | none => if byte < 0x80 then [byte] else []
  | some begun =>
    if begun.low ≤ byte ∧ byte ≤ begun.high then
      if begun.owed ≤ 1 then [begun.bits * 64 + (byte - 0x80)] else []
    else if byte < 0x80 then [byte] else []

/-- The bytes behind a character that may have begun. -/
def ignoreFrom : Option Begun → List ℕ → List ℕ
  | _, [] => []
  | state, byte :: rest => kept state byte ++ ignoreFrom (decodeNext state byte).2 rest

/-- `bytes.decode("utf-8", errors="ignore")`. -/
def decodeIgnore (bytes : List ℕ) : List ℕ := ignoreFrom none bytes

/-- The text of a stream that is decoded in pieces. -/
def decodePieces (pieces : List (List ℕ)) : List ℕ := pieces.flatMap decodeIgnore

/-- No piece ends inside a character. -/
def Intact (pieces : List (List ℕ)) : Prop :=
  ∀ piece ∈ pieces, ∃ text : List ℕ, (∀ c ∈ text, c.isValidChar) ∧ piece = encode text

/-! ### Encoded texts -/

theorem ignoreFrom_tail {begun : Begun} {byte : ℕ} (hbyte : begun.low ≤ byte ∧ byte ≤ begun.high)
    (howed : 1 < begun.owed) (rest : List ℕ) :
    ignoreFrom (some begun) (byte :: rest) =
      ignoreFrom (some ⟨begun.owed - 1, 0x80, 0xBF, begun.bits * 64 + (byte - 0x80)⟩) rest := by
  rw [ignoreFrom, kept, decodeNext, if_pos hbyte, if_pos hbyte, if_neg (Nat.not_le.mpr howed)]
  simp only [if_neg (Nat.not_le.mpr howed), List.nil_append]

theorem ignoreFrom_last {begun : Begun} {byte : ℕ} (hbyte : begun.low ≤ byte ∧ byte ≤ begun.high)
    (howed : begun.owed ≤ 1) (rest : List ℕ) :
    ignoreFrom (some begun) (byte :: rest) =
      (begun.bits * 64 + (byte - 0x80)) :: ignoreFrom none rest := by
  rw [ignoreFrom, kept, decodeNext, if_pos hbyte, if_pos hbyte, if_pos howed]
  simp only [if_pos howed, List.singleton_append]

theorem ignoreFrom_first {byte : ℕ} {begun : Begun} (hfirst : decodeFirst byte = ([], some begun))
    (rest : List ℕ) : ignoreFrom none (byte :: rest) = ignoreFrom (some begun) rest := by
  have hwide : ¬byte < 0x80 := by
    intro hlt
    rw [decodeFirst, if_pos hlt] at hfirst
    cases hfirst
  rw [ignoreFrom, kept, if_neg hwide, decodeNext, hfirst, List.nil_append]

theorem decodeIgnore_ascii {byte : ℕ} (hascii : byte < 128) (rest : List ℕ) :
    decodeIgnore (byte :: rest) = byte :: decodeIgnore rest := by
  rw [decodeIgnore, ignoreFrom, kept, if_pos hascii, decodeNext, decodeFirst, if_pos hascii]
  rfl

theorem decodeIgnore_begun {byte : ℕ} {begun : Begun}
    (hfirst : decodeFirst byte = ([], some begun)) : decodeIgnore [byte] = [] := by
  rw [decodeIgnore, ignoreFrom_first hfirst]
  rfl

/-- The bytes of a character decode to it, whatever follows. -/
theorem decodeIgnore_encodePoint {c : ℕ} (hvalid : c.isValidChar) (rest : List ℕ) :
    decodeIgnore (encodePoint c ++ rest) = c :: decodeIgnore rest := by
  have hrange := lt_of_isValidChar hvalid
  have hsurrogate : c < 0xD800 ∨ 0xDFFF < c := hvalid.imp id And.left
  rw [encodePoint_eq hvalid]
  split_ifs with h1 h2 h3
  · rw [List.singleton_append, decodeIgnore_ascii (by omega)]
  · rw [List.cons_append, List.singleton_append, decodeIgnore,
      ignoreFrom_first (decodeFirst_two (by omega)), ignoreFrom_last (by simp only; omega) le_rfl]
    have hbits : c / 64 * 64 + (c % 64 + 0x80 - 0x80) = c := by omega
    rw [hbits, decodeIgnore]
  · rw [List.cons_append, List.cons_append, List.singleton_append, decodeIgnore,
      ignoreFrom_first (decodeFirst_three (by omega)),
      ignoreFrom_tail (by simp only; split_ifs <;> omega) (by simp),
      ignoreFrom_last (by simp only; omega) le_rfl]
    have hbits :
        (c / 4096 * 64 + (c / 64 % 64 + 0x80 - 0x80)) * 64 + (c % 64 + 0x80 - 0x80) = c := by
      omega
    rw [hbits, decodeIgnore]
  · rw [List.cons_append, List.cons_append, List.cons_append, List.singleton_append, decodeIgnore,
      ignoreFrom_first (decodeFirst_four (by omega)),
      ignoreFrom_tail (by simp only; split_ifs <;> omega) (by simp),
      ignoreFrom_tail (by simp only; omega) (by simp), ignoreFrom_last (by simp only; omega) le_rfl]
    have hbits : ((c / 262144 * 64 + (c / 4096 % 64 + 0x80 - 0x80)) * 64 +
        (c / 64 % 64 + 0x80 - 0x80)) * 64 + (c % 64 + 0x80 - 0x80) = c := by
      omega
    rw [hbits, decodeIgnore]

/-- The first bytes of a character decode to nothing. -/
theorem decodeIgnore_take {c n : ℕ} (hvalid : c.isValidChar) (hlt : n < (encodePoint c).length) :
    decodeIgnore ((encodePoint c).take n) = [] := by
  have hrange := lt_of_isValidChar hvalid
  have hsurrogate : c < 0xD800 ∨ 0xDFFF < c := hvalid.imp id And.left
  rw [encodePoint_eq hvalid] at hlt ⊢
  split_ifs at hlt ⊢ with h1 h2 h3
  · obtain rfl : n = 0 := Nat.lt_one_iff.mp hlt
    rfl
  · obtain rfl | rfl : n = 0 ∨ n = 1 := by
      simp only [List.length_cons, List.length_nil] at hlt
      omega
    · rfl
    · exact decodeIgnore_begun (decodeFirst_two (by omega))
  · obtain rfl | rfl | rfl : n = 0 ∨ n = 1 ∨ n = 2 := by
      simp only [List.length_cons, List.length_nil] at hlt
      omega
    · rfl
    · exact decodeIgnore_begun (decodeFirst_three (by omega))
    · rw [List.take_succ_cons, List.take_succ_cons, List.take_zero, decodeIgnore,
        ignoreFrom_first (decodeFirst_three (by omega)),
        ignoreFrom_tail (by simp only; split_ifs <;> omega) (by simp)]
      rfl
  · obtain rfl | rfl | rfl | rfl : n = 0 ∨ n = 1 ∨ n = 2 ∨ n = 3 := by
      simp only [List.length_cons, List.length_nil] at hlt
      omega
    · rfl
    · exact decodeIgnore_begun (decodeFirst_four (by omega))
    · rw [List.take_succ_cons, List.take_succ_cons, List.take_zero, decodeIgnore,
        ignoreFrom_first (decodeFirst_four (by omega)),
        ignoreFrom_tail (by simp only; split_ifs <;> omega) (by simp)]
      rfl
    · rw [List.take_succ_cons, List.take_succ_cons, List.take_succ_cons, List.take_zero,
        decodeIgnore, ignoreFrom_first (decodeFirst_four (by omega)),
        ignoreFrom_tail (by simp only; split_ifs <;> omega) (by simp),
        ignoreFrom_tail (by simp only; omega) (by simp)]
      rfl

theorem decodeIgnore_encode_append {text : List ℕ} (hvalid : ∀ c ∈ text, c.isValidChar)
    (rest : List ℕ) : decodeIgnore (encode text ++ rest) = text ++ decodeIgnore rest := by
  induction text with
  | nil => rfl
  | cons c text ih =>
    rw [List.forall_mem_cons] at hvalid
    rw [encode_cons, List.append_assoc, decodeIgnore_encodePoint hvalid.1, ih hvalid.2,
      List.cons_append]

theorem decodeIgnore_encode {text : List ℕ} (hvalid : ∀ c ∈ text, c.isValidChar) :
    decodeIgnore (encode text) = text := by
  have hencode := decodeIgnore_encode_append hvalid []
  rwa [List.append_nil, show decodeIgnore [] = [] from rfl, List.append_nil] at hencode

/-! ### Pieces of a text -/

theorem decodePieces_append (first second : List (List ℕ)) :
    decodePieces (first ++ second) = decodePieces first ++ decodePieces second :=
  List.flatMap_append

/-- Pieces that do not end inside characters decode to the text. -/
theorem decodePieces_of_intact {pieces : List (List ℕ)} (hintact : Intact pieces) {text : List ℕ}
    (hvalid : ∀ c ∈ text, c.isValidChar) (hpieces : pieces.flatten = encode text) :
    decodePieces pieces = text := by
  induction pieces generalizing text with
  | nil =>
    have hdecode := decode_encode hvalid
    rw [← hpieces] at hdecode
    exact hdecode
  | cons piece rest ih =>
    obtain ⟨⟨part, hpart, rfl⟩, hrest⟩ := List.forall_mem_cons.mp hintact
    rw [List.flatten_cons] at hpieces
    obtain ⟨more, rfl, hmore⟩ := exists_append_of_encode hpart hvalid hpieces.symm
    rw [decodePieces, List.flatMap_cons, decodeIgnore_encode hpart, ← decodePieces,
      ih hrest (fun c hc ↦ hvalid c (List.mem_append_right part hc)) hmore]

/-- ASCII characters at the head of a stream are at the head of its text. -/
theorem exists_decodePieces_ascii {ascii : List ℕ} (hascii : ∀ c ∈ ascii, c < 128)
    {pieces : List (List ℕ)} {rest : List ℕ} (hpieces : pieces.flatten = ascii ++ rest) :
    ∃ text, decodePieces pieces = ascii ++ text := by
  induction pieces generalizing ascii with
  | nil =>
    obtain ⟨rfl, -⟩ := List.append_eq_nil_iff.mp hpieces.symm
    exact ⟨[], rfl⟩
  | cons piece pieces ih =>
    rw [List.flatten_cons] at hpieces
    induction piece generalizing ascii with
    | nil => exact ih hascii hpieces
    | cons byte piece ihpiece =>
      cases ascii with
      | nil => exact ⟨_, rfl⟩
      | cons c ascii =>
        rw [List.forall_mem_cons] at hascii
        obtain ⟨rfl, hmore⟩ := List.cons.inj hpieces
        obtain ⟨text, htext⟩ := ihpiece hascii.2 hmore
        refine ⟨text, ?_⟩
        rw [decodePieces, List.flatMap_cons, decodeIgnore_ascii hascii.1, List.cons_append,
          ← List.flatMap_cons, ← decodePieces, htext, List.cons_append]

/-! ### Characters beyond ASCII -/

/-- The number of characters beyond ASCII. -/
def wide (text : List ℕ) : ℕ := text.countP (128 ≤ ·)

/-- The number of bytes that begin a character beyond ASCII. -/
def leads (bytes : List ℕ) : ℕ := bytes.countP (192 ≤ ·)

theorem leads_append (first second : List ℕ) :
    leads (first ++ second) = leads first + leads second :=
  List.countP_append

theorem wide_append (first second : List ℕ) :
    wide (first ++ second) = wide first + wide second :=
  List.countP_append

theorem le_of_isSome_decodeFirst {byte : ℕ} (hbegun : (decodeFirst byte).2.isSome) :
    192 ≤ byte := by
  rw [decodeFirst] at hbegun
  split_ifs at hbegun <;> first | omega | cases hbegun

/-- A byte completes a character that had begun, or it begins one, or there is none. -/
theorem wide_kept_le (state : Option Begun) (byte : ℕ) :
    wide (kept state byte) + (decodeNext state byte).2.isSome.toNat ≤
      leads [byte] + state.isSome.toNat := by
  have hascii : ∀ c : ℕ, wide (if c < 0x80 then [c] else []) = 0 := by
    intro c
    split
    · next hlt => exact List.countP_eq_zero.mpr (by simpa using hlt)
    · rfl
  have hbegins : (decodeFirst byte).2.isSome.toNat ≤ leads [byte] := by
    cases hbegun : (decodeFirst byte).2.isSome with
    | false => exact Nat.zero_le _
    | true =>
      have hlead := le_of_isSome_decodeFirst hbegun
      rw [leads, List.countP_singleton, if_pos (decide_eq_true hlead)]
      rfl
  cases state with
  | none =>
    rw [kept, hascii, decodeNext]
    omega
  | some begun =>
    rw [kept, decodeNext, Option.isSome_some, Bool.toNat_true]
    by_cases hgoes : begun.low ≤ byte ∧ byte ≤ begun.high
    · rw [if_pos hgoes, if_pos hgoes]
      by_cases hlast : begun.owed ≤ 1
      · have hone : wide [begun.bits * 64 + (byte - 0x80)] ≤ 1 := List.countP_le_length
        rw [if_pos hlast, if_pos hlast, Option.isSome_none, Bool.toNat_false]
        omega
      · rw [if_neg hlast, if_neg hlast, Option.isSome_some, Bool.toNat_true]
        exact Nat.add_comm 1 _ ▸ Nat.le_add_left _ _
    · rw [if_neg hgoes, if_neg hgoes, hascii]
      dsimp only
      omega

theorem wide_ignoreFrom_le (state : Option Begun) (bytes : List ℕ) :
    wide (ignoreFrom state bytes) ≤ leads bytes + state.isSome.toNat := by
  induction bytes generalizing state with
  | nil => exact Nat.zero_le _
  | cons byte rest ih =>
    have hstep := wide_kept_le state byte
    have hrest := ih (decodeNext state byte).2
    rw [ignoreFrom, wide_append, ← List.singleton_append, leads_append]
    omega

/-- A decoded text has at most one character beyond ASCII for each byte that begins one. -/
theorem wide_decodeIgnore_le (bytes : List ℕ) : wide (decodeIgnore bytes) ≤ leads bytes :=
  wide_ignoreFrom_le none bytes

theorem wide_decodePieces_le (pieces : List (List ℕ)) :
    wide (decodePieces pieces) ≤ leads pieces.flatten := by
  induction pieces with
  | nil => exact le_rfl
  | cons piece rest ih =>
    rw [decodePieces, List.flatMap_cons, wide_append, List.flatten_cons, leads_append,
      ← decodePieces]
    exact Nat.add_le_add (wide_decodeIgnore_le piece) ih

/-- Each character beyond ASCII has one such byte, -/
theorem leads_encodePoint {c : ℕ} (hvalid : c.isValidChar) :
    leads (encodePoint c) = wide [c] := by
  have hrange := lt_of_isValidChar hvalid
  rw [encodePoint_eq hvalid, leads, wide]
  split_ifs <;> simp only [List.countP_cons, List.countP_nil, decide_eq_true_eq] <;>
  split_ifs <;> omega

/-- the first one. -/
theorem leads_take_pos {c n : ℕ} (hvalid : c.isValidChar) (hwide : 128 ≤ c) (hn : n ≠ 0) :
    0 < leads ((encodePoint c).take n) := by
  obtain ⟨n, rfl⟩ := Nat.exists_eq_succ_of_ne_zero hn
  rw [encodePoint_eq hvalid, if_neg (by omega), leads, List.countP_pos_iff]
  split_ifs
  · exact ⟨_, List.mem_cons_self, by simp⟩
  · exact ⟨_, List.mem_cons_self, by simp⟩
  · exact ⟨_, List.mem_cons_self, by simp⟩

theorem leads_encode {text : List ℕ} (hvalid : ∀ c ∈ text, c.isValidChar) :
    leads (encode text) = wide text := by
  induction text with
  | nil => rfl
  | cons c text ih =>
    rw [List.forall_mem_cons] at hvalid
    rw [encode_cons, leads_append, leads_encodePoint hvalid.1, ih hvalid.2, ← wide_append,
      List.singleton_append]

/-- A piece at the head of the bytes of a text is the bytes of its first characters and some first
bytes of the next one. -/
theorem exists_piece {text : List ℕ} (hvalid : ∀ c ∈ text, c.isValidChar)
    {piece rest : List ℕ} (hpiece : piece ++ rest = encode text) :
    ∃ first last, text = first ++ last ∧ (piece = encode first ∧ rest = encode last ∨
      ∃ c more n, last = c :: more ∧ n ≠ 0 ∧ n < (encodePoint c).length ∧
        piece = encode first ++ (encodePoint c).take n) := by
  induction text generalizing piece with
  | nil =>
    obtain ⟨rfl, rfl⟩ := List.append_eq_nil_iff.mp hpiece
    exact ⟨[], [], rfl, .inl ⟨rfl, rfl⟩⟩
  | cons c text ih =>
    rw [List.forall_mem_cons] at hvalid
    rw [encode_cons] at hpiece
    rcases List.append_eq_append_iff.mp hpiece with ⟨behind, hpoint, -⟩ | ⟨after, rfl, hmore⟩
    · cases piece with
      | nil => exact ⟨[], c :: text, rfl, .inl ⟨rfl, by rw [encode_cons, ← hpiece]; rfl⟩⟩
      | cons byte piece =>
        cases behind with
        | nil =>
          rw [List.append_nil] at hpoint
          refine ⟨[c], text, rfl, .inl ⟨?_, ?_⟩⟩
          · rw [← hpoint, encode, List.flatMap_singleton]
          · rw [← hpoint] at hpiece
            exact List.append_cancel_left hpiece
        | cons next behind =>
          refine ⟨[], c :: text, rfl, .inr ⟨c, text, (byte :: piece).length, rfl, ?_, ?_, ?_⟩⟩
          · exact Nat.succ_ne_zero _
          · rw [hpoint, List.length_append, List.length_cons (a := next)]
            omega
          · rw [hpoint, List.take_left]
            rfl
    · obtain ⟨first, last, rfl, hsplit⟩ := ih hvalid.2 hmore.symm
      refine ⟨c :: first, last, rfl, ?_⟩
      rcases hsplit with ⟨rfl, hrest⟩ | ⟨d, more, n, hlast, hn, hlt, rfl⟩
      · exact .inl ⟨(encode_cons c first).symm, hrest⟩
      · exact .inr ⟨d, more, n, hlast, hn, hlt, by rw [encode_cons, List.append_assoc]⟩

/-- Pieces that decode to all characters beyond ASCII do not end inside characters. -/
theorem intact_of_wide_le {pieces : List (List ℕ)} {text : List ℕ}
    (hvalid : ∀ c ∈ text, c.isValidChar) (hpieces : pieces.flatten = encode text)
    (hwide : wide text ≤ wide (decodePieces pieces)) : Intact pieces := by
  induction pieces generalizing text with
  | nil => exact fun piece hpiece ↦ absurd hpiece List.not_mem_nil
  | cons piece rest ih =>
    rw [List.flatten_cons] at hpieces
    rw [decodePieces, List.flatMap_cons, ← decodePieces, wide_append] at hwide
    obtain ⟨first, last, rfl, hsplit⟩ := exists_piece hvalid hpieces
    obtain ⟨hfirst, hlast⟩ := List.forall_mem_append.mp hvalid
    rw [wide_append] at hwide
    rcases hsplit with ⟨rfl, hrest⟩ | ⟨c, more, n, rfl, hn, hlt, rfl⟩
    · rw [decodeIgnore_encode hfirst] at hwide
      exact List.forall_mem_cons.mpr ⟨⟨first, hfirst, rfl⟩, ih hlast hrest (by omega)⟩
    · rw [List.forall_mem_cons] at hlast
      -- the character is lost, so the pieces decode to less
      have hbeyond : 128 ≤ c := by
        by_contra hascii
        rw [encodePoint_ascii (by omega)] at hlt
        exact hn (Nat.lt_one_iff.mp hlt)
      have hlead := leads_take_pos hlast.1 hbeyond hn
      have hbehind := wide_decodePieces_le rest
      have hall := leads_encode hvalid
      rw [← hpieces, leads_append, leads_append, leads_encode hfirst, wide_append] at hall
      rw [decodeIgnore_encode_append hfirst, decodeIgnore_take hlast.1 hlt,
        List.append_nil] at hwide
      omega

end SyzAbi.Library.Utf8

import SyzAbi.Library.ShellVariables
import SyzAbi.Library.Utf8

/-!
# Words of a shell in UTF-8

The marks of a quotation are ASCII characters, and no byte of another character is one. So it makes
no difference whether a text is quoted before or after it is encoded (`encode_quote`): a shell that
reads bytes reads back the bytes of the text.
-/

set_option autoImplicit false
set_option relaxedAutoImplicit false

namespace SyzAbi.Library.Shell

open TextLines

/-- Whether a text needs quotation marks can be seen from its bytes. -/
theorem all_isSafe_encode {text : List ℕ} (hvalid : ∀ c ∈ text, c.isValidChar) :
    (Utf8.encode text).all isSafe = text.all isSafe := by
  induction text with
  | nil => rfl
  | cons c rest ih =>
    obtain ⟨hc, hrest⟩ := List.forall_mem_cons.mp hvalid
    rw [Utf8.encode_cons, List.all_append, List.all_cons, ih hrest]
    congr 1
    by_cases hascii : c < 128
    · rw [Utf8.encodePoint_ascii hascii, List.all_cons, List.all_nil, Bool.and_true]
    · -- neither the character nor its bytes are safe
      have hmarked : ∀ d, 128 ≤ d → isSafe d = false := by
        intro d hd
        simp only [isSafe, isNameChar, List.contains_eq_mem, List.mem_cons, List.not_mem_nil,
          or_false, Bool.or_eq_false_iff, Bool.and_eq_false_iff, decide_eq_false_iff_not,
          beq_eq_false_iff_ne]
        omega
      rw [hmarked c (by omega)]
      cases hbytes : Utf8.encodePoint c with
      | nil =>
        rw [Utf8.encodePoint_eq hc] at hbytes
        split_ifs at hbytes
      | cons byte others =>
        have hbyte : byte ∈ Utf8.encodePoint c := hbytes ▸ List.mem_cons_self
        rw [List.all_cons, hmarked byte (Utf8.le_of_mem_encodePoint hc (by omega) hbyte),
          Bool.false_and]

theorem encode_eq_nil_iff {text : List ℕ} (hvalid : ∀ c ∈ text, c.isValidChar) :
    Utf8.encode text = [] ↔ text = [] := by
  cases text with
  | nil => exact iff_of_true rfl rfl
  | cons c rest =>
    refine iff_of_false (fun h ↦ ?_) (List.cons_ne_nil c rest)
    rw [Utf8.encode_cons, List.append_eq_nil_iff,
      Utf8.encodePoint_eq (hvalid c List.mem_cons_self)] at h
    have hpoint := h.1
    split_ifs at hpoint

theorem ascii_of_mem_quoteChar {c : ℕ} (hc : c < 128) : ∀ d ∈ quoteChar c, d < 128 := by
  unfold quoteChar
  split_ifs
  · decide
  · exact fun d hd ↦ List.mem_singleton.mp hd ▸ hc

/-- A text can be quoted before or after it is encoded. -/
theorem encode_quote {text : List ℕ} (hvalid : ∀ c ∈ text, c.isValidChar) :
    Utf8.encode (quote text) = quote (Utf8.encode text) := by
  have hchars : (text.map Char.ofNat).map Char.toNat = text := by
    rw [List.map_map]
    conv_rhs => rw [← List.map_id text]
    refine List.map_congr_left fun c hc ↦ ?_
    rw [Function.comp_apply, Char.ofNat, dif_pos (hvalid c hc)]
    exact UInt32.toNat_ofNatLT
  have hflat : Utf8.encode (((text.map Char.ofNat).map Char.toNat).flatMap quoteChar) =
      (Utf8.encode ((text.map Char.ofNat).map Char.toNat)).flatMap quoteChar :=
    Utf8.encode_flatMap (fun c hc ↦ if_neg (by omega)) (fun _ ↦ ascii_of_mem_quoteChar) _
  rw [hchars] at hflat
  rw [quote, quote, all_isSafe_encode hvalid]
  simp only [encode_eq_nil_iff hvalid]
  split_ifs
  · rfl
  · rfl
  · rw [Utf8.encode_append, Utf8.encode_cons, hflat]
    rfl

theorem ascii_of_isName {name : List ℕ} (hname : isName name = true) : ∀ c ∈ name, c < 128 := by
  intro c hc
  have hchar := isNameChar_of_mem hname hc
  simp only [isNameChar, Bool.or_eq_true, Bool.and_eq_true, decide_eq_true_eq, beq_iff_eq] at hchar
  omega

theorem encode_assignmentText {name value : List ℕ} (hname : isName name = true)
    (hvalid : ∀ c ∈ value, c.isValidChar) :
    Utf8.encode (assignmentText name value) = assignmentText name (Utf8.encode value) := by
  rw [assignmentText, Utf8.encode_append, Utf8.encode_cons, encode_quote hvalid,
    Utf8.encode_ascii (ascii_of_isName hname)]
  rfl

theorem encode_exportText {name value : List ℕ} (hname : isName name = true)
    (hvalid : ∀ c ∈ value, c.isValidChar) :
    Utf8.encode (exportText name value) = exportText name (Utf8.encode value) := by
  rw [exportText, Utf8.encode_append, Utf8.encode_cons, encode_assignmentText hname hvalid]
  rfl

/-- No byte of a text without NUL is NUL. -/
theorem zero_notMem_encode {text : List ℕ} (hvalid : ∀ c ∈ text, c.isValidChar)
    (htext : 0 ∉ text) : 0 ∉ Utf8.encode text :=
  fun hzero ↦ htext (Utf8.mem_of_mem_encode hvalid (by decide) hzero)

theorem valid_of_ascii {text : List ℕ} (hascii : ∀ c ∈ text, c < 128) :
    ∀ c ∈ text, c.isValidChar :=
  fun c hc ↦ .inl (Nat.lt_trans (hascii c hc) (by decide))

/-- A line can be encoded when its value can. -/
theorem valid_assignmentText_iff {name value : List ℕ} (hname : isName name = true) :
    (∀ c ∈ assignmentText name value, c.isValidChar) ↔ ∀ c ∈ value, c.isValidChar := by
  constructor
  · exact fun h c hc ↦ h c (List.mem_append_right name (List.mem_cons_of_mem 61 (mem_quote hc)))
  · intro h c hc
    rcases List.mem_append.mp hc with hletter | hrest
    · exact valid_of_ascii (ascii_of_isName hname) c hletter
    · rcases List.mem_cons.mp hrest with rfl | hquote
      · exact .inl (by decide)
      · rcases of_mem_quote hquote with hmem | hlow
        · exact h c hmem
        · exact .inl (Nat.lt_trans hlow (by decide))

theorem valid_exportText {name value : List ℕ} (hname : isName name = true)
    (hvalid : ∀ c ∈ value, c.isValidChar) : ∀ c ∈ exportText name value, c.isValidChar := by
  intro c hc
  rcases List.mem_append.mp hc with hletter | hrest
  · exact valid_of_ascii (show ∀ d ∈ exportWord, d < 128 by decide) c hletter
  · rcases List.mem_cons.mp hrest with rfl | hassignment
    · exact .inl (by decide)
    · exact (valid_assignmentText_iff hname).mpr hvalid c hassignment

theorem forall_mem_unlines_iff {p : ℕ → Prop} (hfeed : p 10) {texts : List (List ℕ)} :
    (∀ c ∈ unlines texts, p c) ↔ ∀ text ∈ texts, ∀ c ∈ text, p c := by
  simp only [unlines, List.mem_flatMap, List.mem_append, List.mem_singleton]
  constructor
  · exact fun h text htext c hc ↦ h c ⟨text, htext, .inl hc⟩
  · rintro h c ⟨text, htext, hc | rfl⟩
    · exact h text htext c hc
    · exact hfeed

theorem forall_mem_spaced {p : ℕ → Prop} (hblank : p 32) {texts : List (List ℕ)}
    (htexts : ∀ text ∈ texts, ∀ c ∈ text, p c) : ∀ c ∈ spaced texts, p c := by
  cases texts with
  | nil => exact fun c hc ↦ (List.not_mem_nil hc).elim
  | cons text rest =>
    induction rest generalizing text with
    | nil =>
      rw [spaced_singleton]
      exact htexts text List.mem_cons_self
    | cons next rest ih =>
      obtain ⟨htext, hrest⟩ := List.forall_mem_cons.mp htexts
      rw [spaced_cons_cons, List.forall_mem_append, List.forall_mem_cons]
      exact ⟨htext, hblank, ih next hrest⟩

/-! ### Entries -/

/-- The values in bytes. -/
def encodeEntries (entries : List (List ℕ × List ℕ)) : List (List ℕ × List ℕ) :=
  entries.map fun entry ↦ (entry.1, Utf8.encode entry.2)

/-- The values can be encoded. -/
def ValidEntries (entries : List (List ℕ × List ℕ)) : Prop :=
  ∀ entry ∈ entries, ∀ c ∈ entry.2, c.isValidChar

theorem map_fst_encodeEntries (entries : List (List ℕ × List ℕ)) :
    (encodeEntries entries).map Prod.fst = entries.map Prod.fst := by
  rw [encodeEntries, List.map_map]
  rfl

theorem passable_encodeEntries {entries : List (List ℕ × List ℕ)}
    (hentries : ∀ entry ∈ entries, Passable entry) (hencodable : ValidEntries entries) :
    ∀ entry ∈ encodeEntries entries, Passable entry := by
  intro entry hentry
  obtain ⟨source, hsource, rfl⟩ := List.mem_map.mp hentry
  exact ⟨(hentries source hsource).1,
    zero_notMem_encode (hencodable source hsource) (hentries source hsource).2⟩

theorem map_encode_assignments {entries : List (List ℕ × List ℕ)}
    (hentries : ∀ entry ∈ entries, isName entry.1 = true) (hencodable : ValidEntries entries) :
    (entries.map fun entry ↦ assignmentText entry.1 entry.2).map Utf8.encode =
      (encodeEntries entries).map fun entry ↦ assignmentText entry.1 entry.2 := by
  rw [encodeEntries, List.map_map, List.map_map]
  exact List.map_congr_left fun entry hentry ↦
    encode_assignmentText (hentries entry hentry) (hencodable entry hentry)

theorem map_encode_exports {entries : List (List ℕ × List ℕ)}
    (hentries : ∀ entry ∈ entries, isName entry.1 = true) (hencodable : ValidEntries entries) :
    (entries.map fun entry ↦ exportText entry.1 entry.2).map Utf8.encode =
      (encodeEntries entries).map fun entry ↦ exportText entry.1 entry.2 := by
  rw [encodeEntries, List.map_map, List.map_map]
  exact List.map_congr_left fun entry hentry ↦
    encode_exportText (hentries entry hentry) (hencodable entry hentry)

/-! ### Texts -/

theorem encode_spaced (texts : List (List ℕ)) :
    Utf8.encode (spaced texts) = spaced (texts.map Utf8.encode) := by
  cases texts with
  | nil => rfl
  | cons text rest =>
    induction rest generalizing text with
    | nil => rw [spaced_singleton, List.map_singleton, spaced_singleton]
    | cons next rest ih =>
      rw [spaced_cons_cons, Utf8.encode_append, Utf8.encode_cons, ih]
      rfl

theorem encode_unlines (texts : List (List ℕ)) :
    Utf8.encode (unlines texts) = unlines (texts.map Utf8.encode) := by
  induction texts with
  | nil => rfl
  | cons text rest ih =>
    rw [unlines_cons, List.map_cons, unlines_cons, Utf8.encode_append, Utf8.encode_cons, ih]
    rfl

end SyzAbi.Library.Shell

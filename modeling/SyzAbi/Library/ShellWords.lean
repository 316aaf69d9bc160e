import SyzAbi.Library.TextLines

/-!
# Words of a shell

A shell reads its text character by character (`step`): blanks end words, line feeds end commands,
and quotation marks switch off the meaning that a character has for the shell. A character that
would start an expansion, a redirection, a pattern, a comment or a compound command is outside of
what is read here, and the reader stops (`none`).

`quote` is the quoting of a text as one word. Whatever the text holds, the shell reads exactly that
text back (`isWord_quote`), also behind other characters of the same word (`IsWord.append`), between
blanks (`isLine_spaced`) and in the lines of a script (`read_lines`).

Characters are natural numbers, so the same reader serves code points and bytes.
-/

set_option autoImplicit false
set_option relaxedAutoImplicit false

namespace SyzAbi.Library.Shell

open TextLines

/-! ### Characters -/

/-- Letters, digits and the underscore. -/
def isNameChar (c : ℕ) : Bool :=
  48 ≤ c && c ≤ 57 || 65 ≤ c && c ≤ 90 || 97 ≤ c && c ≤ 122 || c == 95

/-- The characters that need no quoting: those of names and `@ % + = : , . / -`. -/
def isSafe (c : ℕ) : Bool :=
  isNameChar c || [64, 37, 43, 61, 58, 44, 46, 47, 45].contains c

/-- The characters that mean more to a shell than themselves:
``$ ` \ ( ) < > & | ; * ? [ ] { } # ~ !`` -/
def isActive (c : ℕ) : Bool :=
  [36, 96, 92, 40, 41, 60, 62, 38, 124, 59, 42, 63, 91, 93, 123, 125, 35, 126, 33].contains c

/-- The characters that are read as themselves outside of quotation marks. -/
def isPlain (c : ℕ) : Bool :=
  !([0, 39, 34, 32, 9, 10].contains c || isActive c)

theorem isPlain_of_isSafe {c : ℕ} (hsafe : isSafe c = true) : isPlain c = true := by
  simp only [isSafe, isNameChar, isPlain, isActive, List.contains_eq_mem, List.mem_cons,
    List.not_mem_nil, or_false, Bool.or_eq_true, Bool.and_eq_true, decide_eq_true_eq, beq_iff_eq,
    Bool.not_eq_true', Bool.or_eq_false_iff, decide_eq_false_iff_not, not_or] at hsafe ⊢
  omega

theorem isSafe_of_isNameChar {c : ℕ} (hname : isNameChar c = true) : isSafe c = true := by
  rw [isSafe, hname, Bool.true_or]

theorem isPlain_of_isNameChar {c : ℕ} (hname : isNameChar c = true) : isPlain c = true :=
  isPlain_of_isSafe (isSafe_of_isNameChar hname)

/-! ### Quoting -/

/-- A character between single quotation marks; the mark itself stands between double ones. -/
def quoteChar (c : ℕ) : List ℕ := if c = 39 then [39, 34, 39, 34, 39] else [c]

/-- The text as one word of a shell. -/
def quote (text : List ℕ) : List ℕ :=
  if text = [] then [39, 39]
  else if text.all isSafe then text
  else 39 :: text.flatMap quoteChar ++ [39]

/-- Quoting keeps the characters, and adds quotation marks only. -/
theorem mem_quote {text : List ℕ} {c : ℕ} (hc : c ∈ text) : c ∈ quote text := by
  unfold quote
  split_ifs with hnil
  · rw [hnil] at hc
    cases hc
  · exact hc
  · refine List.mem_append_left [39] (List.mem_cons_of_mem 39 (List.mem_flatMap.mpr ⟨c, hc, ?_⟩))
    unfold quoteChar
    split_ifs with hmark
    · exact hmark ▸ List.mem_cons_self
    · exact List.mem_singleton.mpr rfl

theorem of_mem_quote {text : List ℕ} {c : ℕ} (hc : c ∈ quote text) : c ∈ text ∨ c < 128 := by
  unfold quote at hc
  split_ifs at hc
  · simp only [List.mem_cons, List.not_mem_nil, or_false] at hc
    omega
  · exact .inl hc
  · rw [List.cons_append, List.mem_cons, List.mem_append, List.mem_singleton,
      List.mem_flatMap] at hc
    obtain rfl | ⟨d, hd, hchar⟩ | rfl := hc
    · exact .inr (by decide)
    · unfold quoteChar at hchar
      split_ifs at hchar
      · simp only [List.mem_cons, List.not_mem_nil, or_false] at hchar
        omega
      · exact .inl (List.mem_singleton.mp hchar ▸ hd)
    · exact .inr (by decide)

/-! ### Reading -/

/-- A word: its characters, and for each whether it was quoted. -/
abbrev Word := List (ℕ × Bool)

/-- The characters of a word, the quotation marks removed. -/
def Word.text (word : Word) : List ℕ := word.map Prod.fst

/-- The characters of a text, all quoted or all unquoted. -/
def marked (quoted : Bool) (text : List ℕ) : Word := text.map (·, quoted)

@[simp] theorem text_marked (quoted : Bool) (text : List ℕ) : (marked quoted text).text = text := by
  rw [marked, Word.text, List.map_map]
  exact List.map_id text

@[simp] theorem text_append (first second : Word) :
    Word.text (first ++ second) = first.text ++ second.text :=
  List.map_append

theorem marked_cons (quoted : Bool) (c : ℕ) (text : List ℕ) :
    marked quoted (c :: text) = (c, quoted) :: marked quoted text := rfl

/-- The quotation that the next character stands in. -/
inductive Quotation
  | outside
  | single
  | double
  deriving DecidableEq

/-- What was read: the quotation, the word begun, the words of the command, and the commands. -/
structure Reader where
  quotation : Quotation := .outside
  word : Option Word := none
  words : List Word := []
  commands : List (List Word) := []

namespace Reader

/-- More characters of the word begun, or of a new one. -/
def extend (reader : Reader) (pieces : Word) : Reader :=
  { reader with word := some (reader.word.getD [] ++ pieces) }

/-- The word begun is a word of the command. -/
def endWord (reader : Reader) : Reader :=
  match reader.word with
  | none => reader
  | some word => { reader with word := none, words := reader.words ++ [word] }

/-- The words are a command, unless there are none. -/
def endCommand (reader : Reader) : Reader :=
  if reader.endWord.words = [] then reader.endWord
  else { reader.endWord with words := [], commands := reader.commands ++ [reader.endWord.words] }

/-- One character. -/
def step (reader : Reader) (c : ℕ) : Option Reader :=
  if c = 0 then none
  else match reader.quotation with
  | .outside =>
    if c = 39 then some { reader.extend [] with quotation := .single }
    else if c = 34 then some { reader.extend [] with quotation := .double }
    else if c = 32 || c = 9 then some reader.endWord
    else if c = 10 then some reader.endCommand
    else if isActive c then none
    else some (reader.extend [(c, false)])
  | .single =>
    if c = 39 then some { reader with quotation := .outside }
    else some (reader.extend [(c, true)])
  | .double =>
    if c = 34 then some { reader with quotation := .outside }
    else if c = 36 || c = 96 || c = 92 then none
    else some (reader.extend [(c, true)])

/-- The characters of a text, one after the other. -/
def run (reader : Reader) (text : List ℕ) : Option Reader := text.foldlM step reader

end Reader

/-- The commands of a script, each as its words. -/
def read (text : List ℕ) : Option (List (List Word)) := do
  let reader ← Reader.run {} text
  if reader.quotation = .outside then some reader.endCommand.commands else none

open Reader

theorem run_nil (reader : Reader) : reader.run [] = some reader := rfl

theorem run_cons (reader : Reader) (c : ℕ) (text : List ℕ) :
    reader.run (c :: text) = (reader.step c).bind fun next ↦ next.run text := rfl

theorem run_append (reader : Reader) (first second : List ℕ) :
    reader.run (first ++ second) = (reader.run first).bind fun next ↦ next.run second :=
  List.foldlM_append

/-- The reader stays where it is, with more characters in its word. -/
@[simp] theorem quotation_extend (reader : Reader) (pieces : Word) :
    (reader.extend pieces).quotation = reader.quotation := rfl

theorem extend_extend (reader : Reader) (first second : Word) :
    (reader.extend first).extend second = reader.extend (first ++ second) := by
  simp only [extend, Option.getD_some, List.append_assoc]

/-! ### Words -/

/-- Outside of quotations, the text is read as these characters of a word. -/
def IsWord (text : List ℕ) (pieces : Word) : Prop :=
  ∀ reader : Reader, reader.quotation = .outside → reader.run text = some (reader.extend pieces)

theorem IsWord.append {first second : List ℕ} {before behind : Word} (hfirst : IsWord first before)
    (hsecond : IsWord second behind) : IsWord (first ++ second) (before ++ behind) := by
  intro reader hreader
  rw [run_append, hfirst reader hreader, Option.bind_some]
  rw [hsecond (reader.extend before) hreader, extend_extend]

theorem step_plain {reader : Reader} {c : ℕ} (hreader : reader.quotation = .outside)
    (hplain : isPlain c = true) : reader.step c = some (reader.extend [(c, false)]) := by
  simp only [isPlain, List.contains_eq_mem, List.mem_cons, List.not_mem_nil, or_false,
    Bool.not_eq_true', Bool.or_eq_false_iff, decide_eq_false_iff_not, not_or] at hplain
  obtain ⟨⟨hnul, hsingle, hdouble, hspace, htab, hfeed⟩, hactive⟩ := hplain
  simp only [step, hreader, if_neg hnul, if_neg hsingle, if_neg hdouble, if_neg hfeed, hspace, htab,
    hactive, decide_false, Bool.or_self, Bool.false_eq_true, if_false]

theorem isWord_plain {c : ℕ} {text : List ℕ} (hplain : ∀ d ∈ c :: text, isPlain d = true) :
    IsWord (c :: text) (marked false (c :: text)) := by
  intro reader hreader
  obtain ⟨hc, htext⟩ := List.forall_mem_cons.mp hplain
  rw [run_cons, step_plain hreader hc, Option.bind_some, marked_cons]
  clear hc hplain
  induction text generalizing reader c with
  | nil => rfl
  | cons d rest ih =>
    obtain ⟨hd, hrest⟩ := List.forall_mem_cons.mp htext
    rw [run_cons, step_plain (by rw [quotation_extend, hreader]) hd, Option.bind_some,
      ih (c := d) (reader.extend [(c, false)]) hreader hrest, extend_extend]
    rfl

/-- Between single quotation marks, a quoted character is read as itself. -/
theorem run_quoteChar {reader : Reader} {c : ℕ} (hreader : reader.quotation = .single)
    (hc : c ≠ 0) : reader.run (quoteChar c) = some (reader.extend [(c, true)]) := by
  unfold quoteChar
  split_ifs with hmark
  · -- the quotation is closed and opened again around the mark
    subst hmark
    obtain ⟨quotation, word, words, commands⟩ := reader
    obtain rfl : quotation = .single := hreader
    simp [run, step, extend]
  · rw [run_cons]
    simp only [step, if_neg hc, hreader, if_neg hmark, Option.bind_some, run_nil]

theorem run_quoteChars {reader : Reader} {text : List ℕ} (hreader : reader.quotation = .single)
    (hword : reader.word.isSome) (htext : 0 ∉ text) :
    reader.run (text.flatMap quoteChar) = some (reader.extend (marked true text)) := by
  induction text generalizing reader with
  | nil =>
    obtain ⟨quotation, word, words, commands⟩ := reader
    obtain ⟨word, rfl⟩ := Option.isSome_iff_exists.mp hword
    simp [run, extend, marked]
  | cons c rest ih =>
    rw [List.mem_cons, not_or] at htext
    rw [List.flatMap_cons, run_append, run_quoteChar hreader (Ne.symm htext.1), Option.bind_some,
      ih (by rw [quotation_extend, hreader]) rfl htext.2, extend_extend, marked_cons]
    rfl

/-- Whether `quote` puts quotation marks around the text. -/
def needsMarks (text : List ℕ) : Bool := !text.all isSafe

/-- The opening mark and what follows up to the closing one. -/
theorem run_quotation {reader : Reader} {text : List ℕ} (hreader : reader.quotation = .outside)
    (htext : 0 ∉ text) : reader.run (39 :: text.flatMap quoteChar) =
      some { reader.extend (marked true text) with quotation := .single } := by
  have hopen : reader.step 39 = some { reader.extend [] with quotation := .single } := by
    simp [step, hreader]
  rw [run_cons, hopen, Option.bind_some, run_quoteChars rfl rfl htext]
  simp [extend]

/-- A quoted text is read as the text. -/
theorem isWord_quote {text : List ℕ} (htext : 0 ∉ text) :
    IsWord (quote text) (marked (needsMarks text) text) := by
  intro reader hreader
  unfold quote needsMarks
  split_ifs with hnil hsafe
  · subst hnil
    simp [run, step, hreader, extend, marked]
  · obtain ⟨c, rest, rfl⟩ := List.exists_cons_of_ne_nil hnil
    rw [hsafe, Bool.not_true]
    exact isWord_plain (fun d hd ↦ isPlain_of_isSafe (List.all_eq_true.mp hsafe d hd)) reader
      hreader
  · rw [Bool.eq_false_iff.mpr hsafe, Bool.not_false, run_append,
      run_quotation hreader htext, Option.bind_some]
    simp [run, step, extend, hreader]

/-! ### Lines -/

/-- Between the commands of a script. -/
def Reader.Idle (reader : Reader) : Prop :=
  reader.quotation = .outside ∧ reader.word = none ∧ reader.words = []

/-- The text followed by a line feed is read as one command. -/
def IsLine (text : List ℕ) (words : List Word) : Prop :=
  ∀ reader : Reader, reader.Idle →
    reader.run (text ++ [10]) = some { reader with commands := reader.commands ++ [words] }

/-- Texts with a blank between each two of them. -/
def spaced (texts : List (List ℕ)) : List ℕ := (texts.intersperse [32]).flatten

theorem spaced_singleton (text : List ℕ) : spaced [text] = text := List.append_nil text

theorem spaced_cons_cons (text next : List ℕ) (rest : List (List ℕ)) :
    spaced (text :: next :: rest) = text ++ 32 :: spaced (next :: rest) := rfl

theorem run_spaced (reader : Reader) {text : List ℕ} {pieces : Word} {texts : List (List ℕ)}
    {words : List Word} (hquotation : reader.quotation = .outside) (hword : reader.word = none)
    (hfirst : IsWord text pieces) (hwords : List.Forall₂ IsWord texts words) :
    ∃ last before, before ++ [last] = pieces :: words ∧
      reader.run (spaced (text :: texts)) =
        some { reader with word := some last, words := reader.words ++ before } := by
  induction hwords generalizing reader text pieces with
  | nil =>
    refine ⟨pieces, [], rfl, ?_⟩
    rw [spaced_singleton, hfirst reader hquotation]
    simp [extend, hword]
  | @cons next word rest words hnext hrest ih =>
    obtain ⟨last, before, heq, hrun⟩ :=
      ih { reader with word := none, words := reader.words ++ [pieces] } hquotation rfl hnext
    refine ⟨last, pieces :: before, by rw [List.cons_append, heq], ?_⟩
    rw [spaced_cons_cons, run_append, hfirst reader hquotation, Option.bind_some, run_cons]
    have hblank : (reader.extend pieces).step 32 =
        some { reader with word := none, words := reader.words ++ [pieces] } := by
      simp [step, hquotation, extend, endWord, hword]
    rw [hblank, Option.bind_some, hrun]
    simp

theorem isLine_spaced {text : List ℕ} {pieces : Word} {texts : List (List ℕ)} {words : List Word}
    (hfirst : IsWord text pieces) (hwords : List.Forall₂ IsWord texts words) :
    IsLine (spaced (text :: texts)) (pieces :: words) := by
  rintro reader ⟨hquotation, hword, hempty⟩
  obtain ⟨last, before, heq, hrun⟩ := run_spaced reader hquotation hword hfirst hwords
  rw [run_append, hrun, Option.bind_some, ← heq]
  simp [run, step, hquotation, endCommand, endWord, hempty, hword]

theorem run_lines (reader : Reader) {texts : List (List ℕ)} {commands : List (List Word)}
    (hreader : reader.Idle) (hlines : List.Forall₂ IsLine texts commands) :
    reader.run (unlines texts) = some { reader with commands := reader.commands ++ commands } := by
  induction hlines generalizing reader with
  | nil => simp [unlines, run_nil]
  | @cons text words rest commands hline _ ih =>
    have hcons : unlines (text :: rest) = (text ++ [10]) ++ unlines rest := List.flatMap_cons
    rw [hcons, run_append, hline reader hreader, Option.bind_some]
    rw [ih { reader with commands := reader.commands ++ [words] } hreader]
    simp

theorem idle_empty : Reader.Idle {} := ⟨rfl, rfl, rfl⟩

/-- A script is read line by line. -/
theorem read_lines {texts : List (List ℕ)} {commands : List (List Word)}
    (hlines : List.Forall₂ IsLine texts commands) : read (unlines texts) = some commands := by
  rw [read, run_lines {} idle_empty hlines]
  simp [endCommand, endWord]

/-- One command that no line feed ends. -/
theorem read_spaced {texts : List (List ℕ)} {words : List Word} (htexts : texts ≠ [])
    (hwords : List.Forall₂ IsWord texts words) : read (spaced texts) = some [words] := by
  cases hwords with
  | nil => exact absurd rfl htexts
  | cons hfirst hrest =>
    obtain ⟨last, before, heq, hrun⟩ := run_spaced {} rfl rfl hfirst hrest
    rw [read, hrun, ← heq]
    simp [endCommand, endWord]

end SyzAbi.Library.Shell

import Mathlib.Data.Nat.Notation
import Mathlib.Data.List.Basic

/-!
# Lines of a file

The lines of a file are what stands between its line feeds; the last one may lack its line feed.
Writing the lines again gives the file (`unlines_fileLines`), so a file that was put together from
parts that end with line feeds has the lines of its parts (`fileLines_append`).

An editor prints the lines from each one that equals an opening line up to the next one that equals
a closing line (`linesBetween`). Around a block without closing lines, that is the block
(`linesBetween_block`).
-/

set_option autoImplicit false
set_option relaxedAutoImplicit false

namespace SyzAbi.Library.TextLines

/-- The lines of a file, without their line feeds. -/
def fileLines : List ℕ → List (List ℕ)
  | [] => []
  | c :: rest =>
    if c = 10 then [] :: fileLines rest
    else match fileLines rest with
      | [] => [[c]]
      | line :: others => (c :: line) :: others

/-- The lines, each with a line feed. -/
def unlines (lines : List (List ℕ)) : List ℕ := lines.flatMap (· ++ [10])

/-- The file is empty or ends with a line feed. -/
def Closed (text : List ℕ) : Prop := ∃ lines, unlines lines = text ∧ ∀ line ∈ lines, 10 ∉ line

theorem unlines_cons (line : List ℕ) (rest : List (List ℕ)) :
    unlines (line :: rest) = line ++ 10 :: unlines rest := by
  rw [unlines, List.flatMap_cons, List.append_assoc]
  rfl

theorem unlines_append (first second : List (List ℕ)) :
    unlines (first ++ second) = unlines first ++ unlines second :=
  List.flatMap_append

/-- Lines joined by line feeds, with one behind the last. -/
theorem intercalate_append_feed {lines : List (List ℕ)} (hne : lines ≠ []) :
    [10].intercalate lines ++ [10] = unlines lines := by
  induction lines with
  | nil => exact absurd rfl hne
  | cons line rest ih =>
    cases rest with
    | nil => rw [List.intercalate_singleton, unlines_cons, unlines, List.flatMap_nil]
    | cons next rest =>
      rw [List.intercalate_cons_cons, List.append_assoc, List.append_assoc,
        ih (List.cons_ne_nil _ _), unlines_cons line, List.singleton_append]

/-- The first line ends at the first line feed. -/
theorem fileLines_line {line : List ℕ} (hline : 10 ∉ line) (rest : List ℕ) :
    fileLines (line ++ 10 :: rest) = line :: fileLines rest := by
  induction line with
  | nil => rfl
  | cons c line ih =>
    rw [List.mem_cons, not_or] at hline
    rw [List.cons_append, fileLines, if_neg (Ne.symm hline.1), ih hline.2]

theorem fileLines_unlines {lines : List (List ℕ)} (hlines : ∀ line ∈ lines, 10 ∉ line)
    (rest : List ℕ) : fileLines (unlines lines ++ rest) = lines ++ fileLines rest := by
  induction lines with
  | nil => rfl
  | cons line lines ih =>
    obtain ⟨hline, hrest⟩ := List.forall_mem_cons.mp hlines
    rw [unlines_cons, List.append_assoc, List.cons_append, fileLines_line hline, ih hrest]
    rfl

theorem not_mem_of_mem_fileLines {text line : List ℕ} (hline : line ∈ fileLines text) :
    10 ∉ line := by
  induction text generalizing line with
  | nil => cases hline
  | cons c rest ih =>
    rw [fileLines] at hline
    split_ifs at hline with hfeed
    · rcases List.mem_cons.mp hline with rfl | hrest
      · exact List.not_mem_nil
      · exact ih hrest
    · cases hlines : fileLines rest with
      | nil =>
        rw [hlines] at hline
        obtain rfl := List.mem_singleton.mp hline
        simpa using Ne.symm hfeed
      | cons first others =>
        rw [hlines] at hline ih
        rcases List.mem_cons.mp hline with rfl | hothers
        · rw [List.mem_cons, not_or]
          exact ⟨Ne.symm hfeed, ih List.mem_cons_self⟩
        · exact ih (List.mem_cons_of_mem first hothers)

/-- The characters of a line are characters of the file. -/
theorem mem_of_mem_fileLines {text line : List ℕ} (hline : line ∈ fileLines text) {c : ℕ}
    (hc : c ∈ line) : c ∈ text := by
  induction text generalizing line with
  | nil => cases hline
  | cons d rest ih =>
    rw [fileLines] at hline
    split_ifs at hline with hfeed
    · rcases List.mem_cons.mp hline with rfl | hrest
      · cases hc
      · exact List.mem_cons_of_mem d (ih hrest hc)
    · cases hlines : fileLines rest with
      | nil =>
        rw [hlines] at hline
        obtain rfl := List.mem_singleton.mp hline
        exact List.mem_cons.mpr (.inl (List.mem_singleton.mp hc))
      | cons first others =>
        rw [hlines] at hline ih
        rcases List.mem_cons.mp hline with rfl | hothers
        · rcases List.mem_cons.mp hc with rfl | hfirst
          · exact List.mem_cons_self
          · exact List.mem_cons_of_mem d (ih List.mem_cons_self hfirst)
        · exact List.mem_cons_of_mem d (ih (List.mem_cons_of_mem first hothers) hc)

/-- A file that ends with a line feed is its lines. -/
theorem unlines_fileLines (text : List ℕ) :
    unlines (fileLines (text ++ [10])) = text ++ [10] := by
  induction text with
  | nil => rfl
  | cons c rest ih =>
    rw [List.cons_append, fileLines]
    split_ifs with hfeed
    · rw [unlines_cons, ih, hfeed]
      rfl
    · cases hlines : fileLines (rest ++ [10]) with
      | nil =>
        rw [hlines] at ih
        cases rest <;> cases ih
      | cons line others =>
        rw [hlines, unlines_cons] at ih
        show unlines ((c :: line) :: others) = _
        rw [unlines_cons, List.cons_append, ih]

theorem Closed.append {first second : List ℕ} (hfirst : Closed first) (hsecond : Closed second) :
    Closed (first ++ second) := by
  obtain ⟨lines, rfl, hlines⟩ := hfirst
  obtain ⟨others, rfl, hothers⟩ := hsecond
  refine ⟨lines ++ others, unlines_append lines others, fun line hline ↦ ?_⟩
  rcases List.mem_append.mp hline with hmem | hmem
  · exact hlines line hmem
  · exact hothers line hmem

theorem closed_feed (text : List ℕ) : Closed (text ++ [10]) :=
  ⟨fileLines (text ++ [10]), unlines_fileLines text, fun _ ↦ not_mem_of_mem_fileLines⟩

/-- Texts with line feeds behind them are closed, also when the texts hold line feeds. -/
theorem closed_unlines (texts : List (List ℕ)) : Closed (unlines texts) := by
  induction texts with
  | nil => exact ⟨[], rfl, fun _ hline ↦ (List.not_mem_nil hline).elim⟩
  | cons text rest ih =>
    have happend := (closed_feed text).append ih
    rwa [List.append_assoc, List.singleton_append, ← unlines_cons] at happend

theorem fileLines_append {first : List ℕ} (hfirst : Closed first) (second : List ℕ) :
    fileLines (first ++ second) = fileLines first ++ fileLines second := by
  obtain ⟨lines, rfl, hlines⟩ := hfirst
  have hown := fileLines_unlines hlines []
  rw [List.append_nil, fileLines, List.append_nil] at hown
  rw [fileLines_unlines hlines, hown]

theorem Closed.unlines_fileLines {text : List ℕ} (hclosed : Closed text) :
    unlines (fileLines text) = text := by
  obtain ⟨lines, rfl, hlines⟩ := hclosed
  have hown := fileLines_unlines hlines []
  rw [List.append_nil, fileLines, List.append_nil] at hown
  rw [hown]

/-! ### Blocks -/

/-- The lines from an opening line to the next closing line, again and again; `inside` says whether
the first line stands in a block. -/
def linesBetween (opening closing : List ℕ) : Bool → List (List ℕ) → List (List ℕ)
  | _, [] => []
  | false, line :: rest =>
    if line = opening then line :: linesBetween opening closing true rest
    else linesBetween opening closing false rest
  | true, line :: rest =>
    line :: linesBetween opening closing (decide (line ≠ closing)) rest

variable {opening closing : List ℕ}

theorem linesBetween_of_notMem {lines : List (List ℕ)} (hlines : opening ∉ lines) :
    linesBetween opening closing false lines = [] := by
  induction lines with
  | nil => rfl
  | cons line rest ih =>
    rw [List.mem_cons, not_or] at hlines
    rw [linesBetween, if_neg (Ne.symm hlines.1), ih hlines.2]

theorem linesBetween_inside {block : List (List ℕ)} (hblock : closing ∉ block)
    (rest : List (List ℕ)) : linesBetween opening closing true (block ++ closing :: rest) =
      block ++ closing :: linesBetween opening closing false rest := by
  induction block with
  | nil => simp [linesBetween]
  | cons line block ih =>
    rw [List.mem_cons, not_or] at hblock
    rw [List.cons_append, linesBetween, decide_eq_true (Ne.symm hblock.1), ih hblock.2]
    rfl

/-- A block without closing lines, with no opening line behind it. -/
theorem linesBetween_block {block rest : List (List ℕ)} (hblock : closing ∉ block)
    (hrest : opening ∉ rest) :
    linesBetween opening closing false (opening :: block ++ closing :: rest) =
      opening :: block ++ [closing] := by
  rw [List.cons_append, linesBetween, if_pos rfl, linesBetween_inside hblock,
    linesBetween_of_notMem hrest]
  rfl

end SyzAbi.Library.TextLines

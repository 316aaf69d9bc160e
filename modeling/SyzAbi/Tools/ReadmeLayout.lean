import SyzAbi.Agent.EventDecoding
import SyzAbi.Tools.ReadmeSections

/-!
# READMEs that are read back

A README has sections, and a section has groups of items with blank lines, notes and fenced code
between them. For a README that is printed so, what the parser and `merge_bucket` give for a syscall
and a bucket are the items of all its sections by normalised field name, exactly where no item
stands under a field without a name (`Readme.mergeBucket_iff`): the parser takes the empty name for
no field, and such items become notes.
-/

set_option autoImplicit false
set_option relaxedAutoImplicit false

namespace SyzAbi.Tools.Manifest

open Analyzer Orchestrator Library.GroupedLists Library.KeyedMerge

/-! ### The layout -/

/-- A text without line breaks. -/
def OneLine (text : PyStr) : Prop := ∀ c ∈ text, isLineBreak c = false

def IsFence (line : PyStr) : Prop := PyStr.ofString "```" <+: strip (rstrip line)

/-- A line that is neither blank nor a fence, a heading, a label or a bullet. -/
structure IsNote (line : PyStr) : Prop where
  ne : strip (rstrip line) ≠ []
  fence : ¬IsFence line
  heading : matchHeading (strip (rstrip line)) = none
  label : matchLabel (strip (rstrip line)) = none
  bullet : ¬PyStr.ofString "* " <+: strip (rstrip line)

/-- Prose with inline code: each code with the prose before it, and the prose behind the last. -/
structure Prose where
  spans : List (PyStr × PyStr)
  last : PyStr
  spans_ne : spans ≠ []
  spans_free : ∀ span ∈ spans, 96 ∉ span.1 ∧ 96 ∉ span.2 ∧ span.2 ≠ []
  last_free : 96 ∉ last
  spans_line : ∀ span ∈ spans, OneLine span.1 ∧ OneLine span.2
  last_line : OneLine last

def Prose.text (prose : Prose) : PyStr :=
  (prose.spans.flatMap fun span ↦ span.1 ++ 96 :: (span.2 ++ [96])) ++ prose.last

/-- An item: text without backticks, or prose with code. -/
inductive Item where
  | plain (text : PyStr) (line : OneLine text) (free : 96 ∉ text) (ne : strip text ≠ [])
  | code (prose : Prose) (ne : ∀ span ∈ prose.spans, strip span.2 ≠ [])

def Item.text : Item → PyStr
  | plain text _ _ _ => text
  | code prose _ => prose.text

/-- What an item says: the text, or its different codes. -/
def Item.values : Item → List PyStr
  | plain text _ _ _ => [strip text]
  | code prose _ => unique (prose.spans.map fun span ↦ strip span.2)

/-- What stands between groups. -/
inductive Filler where
  | blank (line : PyStr) (oneLine : OneLine line) (isBlank : strip (rstrip line) = [])
  | note (line : PyStr) (oneLine : OneLine line) (isNote : IsNote line)
  | fenced (opening : PyStr) (body : List PyStr) (closing : PyStr)
    (oneLine : ∀ line ∈ opening :: closing :: body, OneLine line) (opens : IsFence opening)
    (inside : ∀ line ∈ body, ¬IsFence line) (closes : IsFence closing)

def Filler.lines : Filler → List PyStr
  | blank line _ _ => [line]
  | note line _ _ => [line]
  | fenced opening body closing _ _ _ _ => opening :: (body ++ [closing])

/-- What may also stand inside a group: what is not blank and not a pointer to the manual. -/
def Filler.Inside : Filler → Prop
  | blank _ _ _ => False
  | note line _ _ => ¬PyStr.ofString "For more information," <+: strip (rstrip line)
  | fenced _ _ _ _ _ _ _ => True

/-- A line of a group, or more of them. -/
inductive GroupPart where
  | item (bullet : Item)
  | filler (other : Filler) (inside : other.Inside)

def GroupPart.lines : GroupPart → List PyStr
  | item bullet => [PyStr.ofString "* " ++ bullet.text]
  | filler other _ => other.lines

def GroupPart.values : GroupPart → List PyStr
  | item bullet => bullet.values
  | filler _ _ => []

structure Group where
  label : GroupLabel
  field : PyStr
  parts : List GroupPart
  field_ne : field ≠ []
  field_line : OneLine field

def Group.lines (group : Group) : List PyStr :=
  (group.label.text ++ 32 :: (group.field ++ [58])) :: group.parts.flatMap GroupPart.lines

/-- The items of a group in a bucket, each with its field. -/
def Group.entries (wide : ℕ → PyStr) (bucket : Bucket) (group : Group) : List (PyStr × PyStr) :=
  if group.label.bucket = bucket then
    (group.parts.flatMap GroupPart.values).map fun value ↦
      (normalizeFieldName wide group.field, value)
  else []

inductive Block where
  | group (labelled : Group)
  | filler (other : Filler)

def Block.lines : Block → List PyStr
  | group labelled => labelled.lines
  | filler other => other.lines

def Block.entries (wide : ℕ → PyStr) (bucket : Bucket) : Block → List (PyStr × PyStr)
  | group labelled => labelled.entries wide bucket
  | filler _ => []

/-- A section under a heading that names syscalls in backticks. -/
structure PrintedSection where
  title : Prose
  blocks : List Block

def PrintedSection.names (printed : PrintedSection) : List PyStr :=
  printed.title.spans.map Prod.snd

def PrintedSection.lines (printed : PrintedSection) : List PyStr :=
  (PyStr.ofString "### " ++ printed.title.text) :: printed.blocks.flatMap Block.lines

def PrintedSection.entries (wide : ℕ → PyStr) (bucket : Bucket) (printed : PrintedSection) :
    List (PyStr × PyStr) :=
  printed.blocks.flatMap (Block.entries wide bucket)

/-- A README: what stands before the first heading, and the sections. -/
structure Readme where
  preface : List Filler
  sections : List PrintedSection

namespace Readme

def lines (readme : Readme) : List PyStr :=
  readme.preface.flatMap Filler.lines ++ readme.sections.flatMap PrintedSection.lines

def text (readme : Readme) : PyStr := readme.lines.flatMap fun line ↦ line ++ [10]

/-- The items of all sections of a syscall in a bucket, each with its field. -/
def entries (wide : ℕ → PyStr) (readme : Readme) (syscall : PyStr) (bucket : Bucket) :
    List (PyStr × PyStr) :=
  (readme.sections.filter fun printed ↦ syscall ∈ printed.names).flatMap
    (PrintedSection.entries wide bucket)

/-- The items by field, without repetition and in the order of their first appearance. -/
def expected (wide : ℕ → PyStr) (readme : Readme) (syscall : PyStr) (bucket : Bucket) : Fields :=
  (sortedSet ((readme.entries wide syscall bucket).map Prod.fst)).map fun field ↦
    (field, unique (((readme.entries wide syscall bucket).filter
      fun entry ↦ entry.1 = field).map Prod.snd))

/-- What the code gives for a syscall and a bucket. -/
def parsed (wide : ℕ → PyStr) (readme : Readme) (syscall : PyStr) (bucket : Bucket) : Fields :=
  mergeBucket (held (parseReadmeSections wide readme.text) syscall) bucket

end Readme

/-! ### Items -/

/-- The codes of prose are found. -/
theorem Prose.inlineCodes_text (prose : Prose) :
    inlineCodes prose.text = prose.spans.map Prod.snd := by
  have hspans : ∀ spans : List (PyStr × PyStr),
      (∀ span ∈ spans, 96 ∉ span.1 ∧ 96 ∉ span.2 ∧ span.2 ≠ []) →
      inlineCodes ((spans.flatMap fun span ↦ span.1 ++ 96 :: (span.2 ++ [96])) ++ prose.last) =
        spans.map Prod.snd := by
    intro spans
    induction spans with
    | nil => exact fun _ ↦ inlineCodesFrom_free none prose.last_free
    | cons span spans ih =>
      intro hfree
      rw [List.forall_mem_cons] at hfree
      obtain ⟨⟨hbefore, hcode, hne⟩, hrest⟩ := hfree
      rw [List.flatMap_cons, List.append_assoc, List.append_assoc,
        inlineCodes_free_append hbefore, inlineCodes, List.cons_append, inlineCodesFrom,
        if_pos rfl, List.append_assoc, List.singleton_append,
        inlineCodesFrom_code hcode (show [] ++ span.2 ≠ [] from hne), List.nil_append,
        ← inlineCodes, ih hrest, List.map_cons]
  exact hspans prose.spans prose.spans_free

theorem Prose.mem_text (prose : Prose) : 96 ∈ prose.text := by
  obtain ⟨span, spans, hspans⟩ := List.exists_cons_of_ne_nil prose.spans_ne
  refine List.mem_append_left _ (List.mem_flatMap.mpr ⟨span, ?_, ?_⟩)
  · rw [hspans]
    exact List.mem_cons_self
  · exact List.mem_append_right _ List.mem_cons_self

theorem Prose.rstrip_text_ne (prose : Prose) : rstrip prose.text ≠ [] :=
  rstrip_ne_nil prose.mem_text (by decide)

theorem Item.rstrip_text_ne (item : Item) : rstrip item.text ≠ [] := by
  cases item with
  | plain text _ _ hne =>
    intro hempty
    refine hne ?_
    rw [← strip_rstrip, show rstrip text = [] from hempty]
    rfl
  | code prose _ => exact prose.rstrip_text_ne

/-- The items of a bullet are read back. -/
theorem Item.normalizeBulletItems_eq (item : Item) :
    normalizeBulletItems (rstrip item.text) = item.values := by
  unfold normalizeBulletItems
  dsimp only
  rw [inlineCodes_rstrip, strip_rstrip]
  cases item with
  | plain text _ hfree hne =>
    have hstrip : stripChar 96 (strip text) = strip text :=
      stripChar_eq_self fun hmem ↦ hfree (mem_of_mem_strip hmem)
    rw [Item.text, inlineCodes, inlineCodesFrom_free none hfree, List.map_nil, List.filter_nil,
      if_neg (not_not_intro rfl), hstrip, if_neg hne, Item.values]
  | code prose hne =>
    have htokens : (((inlineCodes prose.text).map strip).filter fun token ↦ !token.isEmpty) =
        prose.spans.map fun span ↦ strip span.2 := by
      have hmap : (prose.spans.map Prod.snd).map strip =
          prose.spans.map fun span ↦ strip span.2 := List.map_map
      rw [prose.inlineCodes_text, hmap]
      refine List.filter_eq_self.mpr fun token htoken ↦ ?_
      obtain ⟨span, hspan, rfl⟩ := List.mem_map.mp htoken
      rw [Bool.not_eq_true', List.isEmpty_eq_false_iff]
      exact hne span hspan
    rw [Item.text, htokens, if_pos (by simpa using prose.spans_ne), Item.values]

/-! ### Steps -/

section Steps

variable (wide : ℕ → PyStr) {state : State} {current : Section}

theorem step_fence {line : PyStr} (hfence : IsFence line) :
    state.step wide line = { state with inCodeBlock := !state.inCodeBlock } :=
  if_pos (List.isPrefixOf_iff_prefix.mpr hfence)

theorem step_inside {line : PyStr} (hfence : ¬IsFence line) (hinside : state.inCodeBlock = true) :
    state.step wide line = state := by
  unfold State.step
  dsimp only
  rw [if_neg fun h ↦ hfence (List.isPrefixOf_iff_prefix.mp h), if_pos hinside]

theorem foldl_step_inside {body : List PyStr} (hbody : ∀ line ∈ body, ¬IsFence line)
    (hinside : state.inCodeBlock = true) : body.foldl (State.step wide) state = state := by
  induction body with
  | nil => rfl
  | cons line body ih =>
    rw [List.forall_mem_cons] at hbody
    rw [List.foldl_cons, step_inside wide hbody.1 hinside, ih hbody.2]

/-- A line that is neither a fence nor a heading. -/
theorem step_outside {line : PyStr} (hfence : ¬IsFence line)
    (houtside : state.inCodeBlock = false)
    (hheading : matchHeading (strip (rstrip line)) = none) :
    state.step wide line = match state.currentSection with
      | none => state
      | some current => state.readLine wide current (strip (rstrip line)) := by
  unfold State.step
  dsimp only
  rw [if_neg fun h ↦ hfence (List.isPrefixOf_iff_prefix.mp h),
    if_neg (by rw [houtside]; exact Bool.false_ne_true)]
  generalize matchHeading (strip (rstrip line)) = heading at hheading
  subst hheading
  rfl

theorem not_isFence {line : PyStr} {c : ℕ} {rest : PyStr} (hline : strip (rstrip line) = c :: rest)
    (hc : c ≠ 96) : ¬IsFence line := by
  intro hfence
  have hhead : (PyStr.ofString "```").isPrefixOf (c :: rest) = false :=
    isPrefixOf_of_head (by decide +kernel : (PyStr.ofString "```").head? = some 96) hc
  rw [IsFence, hline, ← List.isPrefixOf_iff_prefix, hhead] at hfence
  cases hfence

theorem step_heading (houtside : state.inCodeBlock = false) (title : Prose) :
    ∃ heading, state.step wide (PyStr.ofString "### " ++ title.text) =
      ⟨state.closed, title.spans.map Prod.snd, some (sectionTemplate heading), none, none,
        false⟩ := by
  have hhash : PyStr.ofString "### " = 35 :: ([35, 35] ++ [32]) := by decide +kernel
  have hthree : PyStr.ofString "###" = [35, 35, 35] := by decide +kernel
  have hspace : isStripped 32 = true := by decide
  have hline : strip (rstrip (PyStr.ofString "### " ++ title.text)) =
      [35, 35, 35] ++ 32 :: rstrip title.text := by
    rw [hhash, List.cons_append, strip_rstrip_cons (by decide),
      rstrip_append _ title.rstrip_text_ne]
    rfl
  have hstrip : rstrip ((rstrip title.text).dropWhile isStripped) = strip title.text := by
    rw [← strip_eq_rstrip, strip_rstrip]
  have hmem : 96 ∈ title.text.dropWhile isStripped := by
    have hsplit := title.mem_text
    rw [← List.takeWhile_append_dropWhile (p := isStripped) (l := title.text)] at hsplit
    rcases List.mem_append.mp hsplit with htake | hdrop
    · exact absurd (List.mem_takeWhile_imp htake) (by decide)
    · exact hdrop
  have hne : (rstrip title.text).dropWhile isStripped ≠ [] := by
    intro hempty
    rw [hempty, strip_eq_rstrip] at hstrip
    exact rstrip_ne_nil hmem (by decide) hstrip.symm
  have hmatch : matchHeading ([35, 35, 35] ++ 32 :: rstrip title.text) =
      some (strip title.text) := by
    have hshort : ((rstrip title.text).dropWhile isStripped).length <
        (32 :: rstrip title.text).length :=
      Nat.lt_succ_of_le (List.dropWhile_suffix isStripped).length_le
    rw [matchHeading, hthree, if_pos (List.isPrefixOf_iff_prefix.mpr (List.prefix_append _ _))]
    show (if (32 :: rstrip title.text).dropWhile isStripped ≠ [] ∧
        ((32 :: rstrip title.text).dropWhile isStripped).length <
          (32 :: rstrip title.text).length then
      some (rstrip ((32 :: rstrip title.text).dropWhile isStripped)) else none) = _
    rw [List.dropWhile_cons_of_pos hspace, if_pos ⟨hne, hshort⟩, hstrip]
  refine ⟨strip title.text, ?_⟩
  unfold State.step
  dsimp only
  rw [if_neg fun h ↦ not_isFence hline (by decide) (List.isPrefixOf_iff_prefix.mp h),
    if_neg (by rw [houtside]; exact Bool.false_ne_true), hline, hmatch]
  dsimp only
  rw [strip_eq_rstrip, inlineCodes_rstrip, inlineCodes_dropWhile, title.inlineCodes_text]

/-- A state that may have more notes, and perhaps not the group. -/
structure Follows (state next : State) : Prop where
  sections_eq : next.syscallSections = state.syscallSections
  names_eq : next.currentNames = state.currentNames
  outside : next.inCodeBlock = false
  current_eq : ∃ more, next.currentSection =
    state.currentSection.map fun current ↦ { current with notes := current.notes ++ more }

theorem Follows.refl (houtside : state.inCodeBlock = false) : Follows state state := by
  refine ⟨rfl, rfl, houtside, [], ?_⟩
  have hsame : (fun current : Section ↦ { current with notes := current.notes ++ [] }) = id :=
    funext fun current ↦ by rw [List.append_nil]; rfl
  rw [hsame, Option.map_id, id_eq]

/-- A line that is neither label nor bullet. -/
theorem readLine_follows (houtside : state.inCodeBlock = false)
    (hcurrent : state.currentSection = some current) {stripped : PyStr}
    (hlabel : matchLabel stripped = none) (hbullet : ¬PyStr.ofString "* " <+: stripped) :
    Follows state (state.readLine wide current stripped) ∧
      (stripped ≠ [] → ¬PyStr.ofString "For more information," <+: stripped →
        (state.readLine wide current stripped).group = state.group) := by
  have hfollows := Follows.refl houtside
  unfold State.readLine
  rw [hlabel, if_neg fun h ↦ hbullet (List.isPrefixOf_iff_prefix.mp h)]
  dsimp only
  by_cases hblank : stripped = []
  · rw [if_pos hblank]
    exact ⟨⟨rfl, rfl, houtside, hfollows.current_eq⟩, fun hne ↦ absurd hblank hne⟩
  · rw [if_neg hblank]
    by_cases hmore : PyStr.ofString "For more information," <+: stripped
    · rw [if_pos (List.isPrefixOf_iff_prefix.mpr hmore)]
      exact ⟨⟨rfl, rfl, houtside, hfollows.current_eq⟩, fun _ hne ↦ absurd hmore hne⟩
    · rw [if_neg fun h ↦ hmore (List.isPrefixOf_iff_prefix.mp h)]
      split_ifs
      · exact ⟨hfollows, fun _ _ ↦ rfl⟩
      · exact ⟨⟨rfl, rfl, houtside, [stripped], by rw [hcurrent]; rfl⟩, fun _ _ ↦ rfl⟩

theorem step_follows (houtside : state.inCodeBlock = false) {line : PyStr}
    (hfence : ¬IsFence line) (hheading : matchHeading (strip (rstrip line)) = none)
    (hlabel : matchLabel (strip (rstrip line)) = none)
    (hbullet : ¬PyStr.ofString "* " <+: strip (rstrip line)) :
    Follows state (state.step wide line) ∧ (strip (rstrip line) ≠ [] →
      ¬PyStr.ofString "For more information," <+: strip (rstrip line) →
        (state.step wide line).group = state.group) := by
  rw [step_outside wide hfence houtside hheading]
  cases hcurrent : state.currentSection with
  | none => exact ⟨Follows.refl houtside, fun _ _ ↦ rfl⟩
  | some current => exact readLine_follows wide houtside hcurrent hlabel hbullet

/-- What stands between groups leaves the items, and inside a group it leaves that. -/
theorem Filler.foldl_step (filler : Filler) (houtside : state.inCodeBlock = false) :
    Follows state (filler.lines.foldl (State.step wide) state) ∧
      (filler.Inside → (filler.lines.foldl (State.step wide) state).group = state.group) := by
  cases filler with
  | blank line _ hblank =>
    have hfence : ¬IsFence line := by
      rw [IsFence, hblank]
      decide +kernel
    have hstep := step_follows wide houtside hfence (by rw [hblank]; decide +kernel)
      (by rw [hblank]; decide +kernel) (by rw [hblank]; decide +kernel)
    exact ⟨hstep.1, fun hinside ↦ hinside.elim⟩
  | note line _ hnote =>
    have hstep := step_follows wide houtside hnote.fence hnote.heading hnote.label hnote.bullet
    exact ⟨hstep.1, hstep.2 hnote.ne⟩
  | fenced opening body closing _ hopens hinside hcloses =>
    have hsame : (opening :: (body ++ [closing])).foldl (State.step wide) state = state := by
      rw [List.foldl_cons, step_fence wide hopens, List.foldl_append,
        foldl_step_inside wide hinside (by rw [houtside]; rfl), List.foldl_cons, List.foldl_nil,
        step_fence wide hcloses]
      dsimp only
      rw [Bool.not_not]
    rw [Filler.lines, hsame]
    exact ⟨Follows.refl houtside, fun _ ↦ rfl⟩

/-- A label opens its group. -/
theorem step_label (houtside : state.inCodeBlock = false)
    (hcurrent : state.currentSection = some current) (group : Group) :
    ∃ bucket field, state.step wide (group.label.text ++ 32 :: (group.field ++ [58])) =
        { state with currentBucket := bucket, currentField := field } ∧
      bucket = some group.label.bucket ∧ field = some (normalizeFieldName wide group.field) := by
  obtain ⟨found, hfound, hstrip⟩ := exists_matchLabel group.label group.field_ne
  obtain ⟨c, tail, htext, hc⟩ : ∃ c tail, group.label.text = c :: tail ∧
      (isStripped c = false ∧ c ≠ 96 ∧ c ≠ 35) := by
    have hhead := group.label.head?_text
    cases htext : group.label.text with
    | nil =>
      rw [htext] at hhead
      cases hhead
    | cons c tail =>
      rw [htext] at hhead
      refine ⟨c, tail, rfl, ?_⟩
      rw [Option.some.inj hhead]
      cases group.label <;> decide
  have hline : strip (rstrip (group.label.text ++ 32 :: (group.field ++ [58]))) =
      c :: (tail ++ 32 :: (group.field ++ [58])) := by
    have hback : rstrip [58] = [58] := by decide
    have hclosed : tail ++ 32 :: (group.field ++ [58]) = (tail ++ 32 :: group.field) ++ [58] := by
      rw [List.append_assoc, List.cons_append]
    rw [htext, List.cons_append, strip_rstrip_cons hc.1, hclosed,
      rstrip_append _ (by rw [hback]; exact List.cons_ne_nil _ _), hback]
  refine ⟨_, _, ?_, ofName_normalizeGroupPrefix wide group.label,
    congrArg some (normalizeFieldName_congr hstrip)⟩
  have hstep := step_outside wide (not_isFence hline hc.2.1) houtside
    (by rw [hline]; exact matchHeading_cons hc.2.2 _)
  rw [hcurrent] at hstep
  rw [hstep, hline, ← List.cons_append, ← htext]
  dsimp only
  rw [State.readLine, hfound]

/-- A bullet of a group is put to its items, and elsewhere it is a note. -/
theorem step_item (houtside : state.inCodeBlock = false)
    (hcurrent : state.currentSection = some current) (item : Item) :
    state.step wide (PyStr.ofString "* " ++ item.text) = match state.group with
      | some (bucket, field) => { state with currentSection := some (item.values.foldl
          (fun current value ↦ current.append bucket field value) current) }
      | none => { state with
          currentSection :=
            some { current with notes := current.notes ++ [42 :: 32 :: rstrip item.text] } } := by
  have hbullet : PyStr.ofString "* " = [42, 32] := by decide +kernel
  have hline : strip (rstrip (PyStr.ofString "* " ++ item.text)) =
      42 :: 32 :: rstrip item.text := by
    rw [hbullet, List.cons_append, strip_rstrip_cons (by decide),
      rstrip_append _ item.rstrip_text_ne]
    rfl
  rw [step_outside wide (not_isFence hline (by decide)) houtside
    (by rw [hline]; exact matchHeading_cons (by decide) _), hcurrent]
  dsimp only
  rw [hline, State.readLine, matchLabel_cons (by decide)]
  dsimp only
  rw [if_pos (by rw [hbullet]; rfl)]
  cases state.group with
  | some opened =>
    show { state with currentSection := some ((normalizeBulletItems (rstrip item.text)).foldl
      (fun current value ↦ current.append opened.1 opened.2 value) current) } = _
    rw [item.normalizeBulletItems_eq]
  | none =>
    have hmore : (PyStr.ofString "For more information,").isPrefixOf
        (42 :: 32 :: rstrip item.text) = false :=
      isPrefixOf_of_head (c := 70) (by decide +kernel) (by decide)
    have hsupported : (PyStr.ofString "Supported functionality").isPrefixOf
        (42 :: 32 :: rstrip item.text) = false :=
      isPrefixOf_of_head (c := 83) (by decide +kernel) (by decide)
    dsimp only
    rw [if_neg (List.cons_ne_nil _ _), hmore, hsupported, if_neg Bool.false_ne_true,
      if_neg Bool.false_ne_true]

end Steps

/-! ### Runs -/

/-- An item as a row of a table. -/
def single (entry : PyStr × PyStr) : PyStr × List PyStr := (entry.1, [entry.2])

/-- An item stands under a field with a name. -/
def named (entry : PyStr × PyStr) : Bool := !entry.1.isEmpty

section Runs

variable (wide : ℕ → PyStr) {state : State} {sections : List (PyStr × List Section)}
  {names : List PyStr} {entries : Bucket → List (PyStr × PyStr)}

/-- A section is read that has some items so far. -/
structure Reading (sections : List (PyStr × List Section)) (names : List PyStr)
    (entries : Bucket → List (PyStr × PyStr)) (state : State) : Prop where
  sections_eq : state.syscallSections = sections
  names_eq : state.currentNames = names
  outside : state.inCodeBlock = false
  current : ∃ current, state.currentSection = some current ∧
    ∀ bucket, current.bucket bucket = extendAll ((entries bucket).map single)

theorem Reading.follows {next : State} (hreading : Reading sections names entries state)
    (hfollows : Follows state next) : Reading sections names entries next := by
  obtain ⟨current, hcurrent, hentries⟩ := hreading.current
  obtain ⟨more, hmore⟩ := hfollows.current_eq
  rw [hcurrent] at hmore
  refine ⟨hfollows.sections_eq.trans hreading.sections_eq,
    hfollows.names_eq.trans hreading.names_eq, hfollows.outside, _, hmore, fun bucket ↦ ?_⟩
  rw [← hentries bucket]
  cases bucket <;> rfl

theorem Section.bucket_append (current : Section) (opened bucket : Bucket) (field item : PyStr) :
    (current.append opened field item).bucket bucket =
      if opened = bucket then extend (current.bucket bucket) field [item]
      else current.bucket bucket := by
  cases opened <;> cases bucket <;> rfl

theorem bucket_foldl_append {current : Section} (opened : Bucket) (field : PyStr)
    (values : List PyStr)
    (hentries : ∀ bucket, current.bucket bucket = extendAll ((entries bucket).map single)) :
    ∀ bucket, (values.foldl (fun current value ↦ current.append opened field value)
        current).bucket bucket = extendAll ((entries bucket ++
          if opened = bucket then values.map (field, ·) else []).map single) := by
  induction values generalizing current entries with
  | nil =>
    intro bucket
    rw [List.foldl_nil, hentries bucket, List.map_nil, ite_self, List.append_nil]
  | cons value values ih =>
    intro bucket
    have hfirst : ∀ bucket, (current.append opened field value).bucket bucket =
        extendAll ((entries bucket ++ if opened = bucket then [(field, value)] else []).map
          single) := by
      intro bucket
      rw [Section.bucket_append, hentries bucket]
      split_ifs
      · rw [List.map_append]
        exact (extendAll_append_singleton _ field [value]).symm
      · rw [List.append_nil]
    rw [List.foldl_cons, ih hfirst bucket, List.append_assoc]
    split_ifs
    · rfl
    · rfl

/-- The items of a group that are put to a bucket: none where the field has no name. -/
def kept (opened : Bucket) (field : PyStr) (values : List PyStr) (bucket : Bucket) :
    List (PyStr × PyStr) :=
  (if opened = bucket then values.map (field, ·) else []).filter named

theorem kept_append (opened : Bucket) (field : PyStr) (first second : List PyStr)
    (bucket : Bucket) : kept opened field (first ++ second) bucket =
      kept opened field first bucket ++ kept opened field second bucket := by
  unfold kept
  split_ifs
  · rw [List.map_append, List.filter_append]
  · rfl

/-- Without items nothing changes. -/
theorem append_kept_nil (entries : Bucket → List (PyStr × PyStr)) (opened : Bucket)
    (field : PyStr) : (fun bucket ↦ entries bucket ++ kept opened field [] bucket) = entries := by
  funext bucket
  rw [kept, List.map_nil, ite_self, List.filter_nil, List.append_nil]

theorem kept_nil (opened : Bucket) (values : List PyStr) (bucket : Bucket) :
    kept opened [] values bucket = [] := by
  unfold kept
  split_ifs
  · refine List.filter_eq_nil_iff.mpr fun entry hentry ↦ ?_
    obtain ⟨value, -, rfl⟩ := List.mem_map.mp hentry
    exact Bool.false_ne_true
  · rfl

theorem kept_of_ne {field : PyStr} (hfield : field ≠ []) (opened : Bucket) (values : List PyStr)
    (bucket : Bucket) : kept opened field values bucket =
      if opened = bucket then values.map (field, ·) else [] := by
  unfold kept
  refine List.filter_eq_self.mpr fun entry hentry ↦ ?_
  split_ifs at hentry
  · obtain ⟨value, -, rfl⟩ := List.mem_map.mp hentry
    rw [named, Bool.not_eq_true', List.isEmpty_eq_false_iff]
    exact hfield
  · cases hentry

/-- The group that a label opens. -/
def opening (opened : Bucket) (field : PyStr) : Option (Bucket × PyStr) :=
  if field = [] then none else some (opened, field)

theorem GroupPart.foldl_step (part : GroupPart) {opened : Bucket} {field : PyStr}
    (hreading : Reading sections names entries state)
    (hgroup : state.group = opening opened field) :
    Reading sections names (fun bucket ↦ entries bucket ++ kept opened field part.values bucket)
        (part.lines.foldl (State.step wide) state) ∧
      (part.lines.foldl (State.step wide) state).group = opening opened field := by
  cases part with
  | filler other hinside =>
    have hfiller := other.foldl_step wide hreading.outside
    rw [GroupPart.values, append_kept_nil]
    exact ⟨hreading.follows hfiller.1, (hfiller.2 hinside).trans hgroup⟩
  | item bullet =>
    obtain ⟨current, hcurrent, hentries⟩ := hreading.current
    rw [GroupPart.lines, List.foldl_cons, List.foldl_nil,
      step_item wide hreading.outside hcurrent bullet, hgroup, GroupPart.values, opening]
    by_cases hfield : field = []
    · subst hfield
      rw [if_pos rfl]
      refine ⟨⟨hreading.sections_eq, hreading.names_eq, hreading.outside, _, rfl,
        fun bucket ↦ ?_⟩, hgroup.trans (if_pos rfl)⟩
      rw [kept_nil, List.append_nil, ← hentries bucket]
      cases bucket <;> rfl
    · rw [if_neg hfield]
      refine ⟨⟨hreading.sections_eq, hreading.names_eq, hreading.outside, _, rfl,
        fun bucket ↦ ?_⟩, hgroup.trans (if_neg hfield)⟩
      rw [kept_of_ne hfield]
      exact bucket_foldl_append opened field bullet.values hentries bucket

theorem foldl_step_parts (parts : List GroupPart) {opened : Bucket} {field : PyStr}
    (hreading : Reading sections names entries state)
    (hgroup : state.group = opening opened field) :
    Reading sections names
      (fun bucket ↦ entries bucket ++ kept opened field (parts.flatMap GroupPart.values) bucket)
      ((parts.flatMap GroupPart.lines).foldl (State.step wide) state) := by
  induction parts generalizing entries state with
  | nil =>
    rw [List.flatMap_nil, append_kept_nil]
    exact hreading
  | cons part parts ih =>
    obtain ⟨hfirst, hopened⟩ := part.foldl_step wide hreading hgroup
    have hrest := ih hfirst hopened
    rw [List.flatMap_cons, List.flatMap_cons, List.foldl_append]
    simp only [kept_append, ← List.append_assoc]
    exact hrest

/-- A group is read: its items are put to their bucket, unless its field has no name. -/
theorem Block.foldl_step (block : Block) (hreading : Reading sections names entries state) :
    Reading sections names
      (fun bucket ↦ entries bucket ++ (block.entries wide bucket).filter named)
      (block.lines.foldl (State.step wide) state) := by
  cases block with
  | filler other =>
    simp only [Block.entries, List.filter_nil, List.append_nil]
    exact hreading.follows (other.foldl_step wide hreading.outside).1
  | group labelled =>
    obtain ⟨current, hcurrent, hentries⟩ := hreading.current
    obtain ⟨bucket, field, hstep, rfl, rfl⟩ :=
      step_label wide hreading.outside hcurrent labelled
    rw [Block.lines, Group.lines, List.foldl_cons, hstep]
    exact foldl_step_parts wide labelled.parts
      ⟨hreading.sections_eq, hreading.names_eq, hreading.outside, current, hcurrent, hentries⟩ rfl

theorem foldl_step_blocks (blocks : List Block) (hreading : Reading sections names entries state) :
    Reading sections names (fun bucket ↦ entries bucket ++
        (blocks.flatMap (Block.entries wide bucket)).filter named)
      ((blocks.flatMap Block.lines).foldl (State.step wide) state) := by
  induction blocks generalizing entries state with
  | nil =>
    simp only [List.flatMap_nil, List.filter_nil, List.append_nil]
    exact hreading
  | cons block blocks ih =>
    have hrest := ih (block.foldl_step wide hreading)
    rw [List.flatMap_cons, List.foldl_append]
    simp only [List.flatMap_cons, List.filter_append, ← List.append_assoc]
    exact hrest

/-- The items of a section that are put to a bucket, as rows. -/
def PrintedSection.rows (bucket : Bucket) (printed : PrintedSection) :
    List (PyStr × List PyStr) :=
  ((printed.entries wide bucket).filter named).map single

theorem PrintedSection.foldl_step (printed : PrintedSection)
    (houtside : state.inCodeBlock = false) : ∃ current,
      Reading state.closed (printed.title.spans.map Prod.snd)
        (fun bucket ↦ (printed.entries wide bucket).filter named)
        (printed.lines.foldl (State.step wide) state) ∧
      (printed.lines.foldl (State.step wide) state).currentSection = some current ∧
      ∀ bucket, current.bucket bucket = extendAll (printed.rows wide bucket) := by
  obtain ⟨heading, hheading⟩ := step_heading wide houtside printed.title
  have hempty : Reading state.closed (printed.title.spans.map Prod.snd) (fun _ ↦ [])
      ⟨state.closed, printed.title.spans.map Prod.snd, some (sectionTemplate heading), none, none,
        false⟩ := by
    refine ⟨rfl, rfl, rfl, sectionTemplate heading, rfl, fun bucket ↦ ?_⟩
    cases bucket <;> rfl
  have hblocks := foldl_step_blocks wide printed.blocks hempty
  simp only [List.nil_append] at hblocks
  rw [PrintedSection.lines, List.foldl_cons, hheading]
  obtain ⟨current, hcurrent, hentries⟩ := hblocks.current
  exact ⟨current, hblocks, hcurrent, hentries⟩

theorem sortedFields_extendAll (rows : List (PyStr × List PyStr)) :
    sortedFields (extendAll rows) = grouped rows :=
  map_unique_sortedItems rows

/-- What is held of a syscall when a section is closed. -/
theorem PrintedSection.held_closed (printed : PrintedSection)
    (houtside : state.inCodeBlock = false) (syscall : PyStr) (bucket : Bucket) :
    (held (printed.lines.foldl (State.step wide) state).closed syscall).flatMap
        (Section.bucket · bucket) =
      (held state.closed syscall).flatMap (Section.bucket · bucket) ++
        (List.replicate (printed.names.countP (· = syscall))
          (grouped (printed.rows wide bucket))).flatten ∧
      (printed.lines.foldl (State.step wide) state).inCodeBlock = false := by
  obtain ⟨current, hreading, hcurrent, hentries⟩ := printed.foldl_step wide houtside
  have hfinal : (finalizeSection current).bucket bucket = grouped (printed.rows wide bucket) := by
    rw [← sortedFields_extendAll, ← hentries bucket]
    cases bucket <;> rfl
  refine ⟨?_, hreading.outside⟩
  rw [State.closed, hcurrent, hreading.names_eq, hreading.sections_eq]
  dsimp only
  rw [held_foldl_extend, List.flatMap_append, List.flatMap_replicate, hfinal]
  rfl

/-- The sections of a README. -/
theorem held_closed_sections (printed : List PrintedSection)
    (houtside : state.inCodeBlock = false) (syscall : PyStr) (bucket : Bucket) :
    (held ((printed.flatMap PrintedSection.lines).foldl (State.step wide) state).closed
        syscall).flatMap (Section.bucket · bucket) =
      (held state.closed syscall).flatMap (Section.bucket · bucket) ++
        printed.flatMap fun part ↦
          (List.replicate (part.names.countP (· = syscall))
            (grouped (part.rows wide bucket))).flatten := by
  induction printed generalizing state with
  | nil => exact (List.append_nil _).symm
  | cons first rest ih =>
    obtain ⟨hheld, hnext⟩ := first.held_closed wide houtside syscall bucket
    rw [List.flatMap_cons, List.foldl_append, ih hnext, hheld, List.append_assoc,
      List.flatMap_cons]

/-- Before the first heading there is no section. -/
theorem foldl_step_preface (preface : List Filler) (houtside : state.inCodeBlock = false)
    (hnone : state.currentSection = none) :
    ((preface.flatMap Filler.lines).foldl (State.step wide) state).inCodeBlock = false ∧
      ((preface.flatMap Filler.lines).foldl (State.step wide) state).closed =
        state.syscallSections := by
  induction preface generalizing state with
  | nil =>
    refine ⟨houtside, ?_⟩
    rw [List.flatMap_nil, List.foldl_nil, State.closed, hnone]
  | cons filler preface ih =>
    obtain ⟨hsections, -, hnext, more, hcurrent⟩ := (filler.foldl_step wide houtside).1
    rw [hnone, Option.map_none] at hcurrent
    obtain ⟨hout, hclosed⟩ := ih hnext hcurrent
    rw [List.flatMap_cons, List.foldl_append]
    exact ⟨hout, hclosed.trans hsections⟩

end Runs

/-! ### The README -/

theorem mergeBucket_eq (sections : List Section) (bucket : Bucket) :
    mergeBucket sections bucket = grouped (sections.flatMap (Section.bucket · bucket)) := by
  rw [← sortedFields_extendAll, mergeBucket, extendAll, List.foldl_flatMap]

theorem Prose.oneLine (prose : Prose) : OneLine prose.text := by
  have hbacktick : isLineBreak 96 = false := by decide
  rw [OneLine, Prose.text]
  refine List.forall_mem_append.mpr ⟨fun c hc ↦ ?_, prose.last_line⟩
  obtain ⟨span, hspan, hmem⟩ := List.mem_flatMap.mp hc
  obtain ⟨hbefore, hcode⟩ := prose.spans_line span hspan
  rcases List.mem_append.mp hmem with hmem | hmem
  · exact hbefore c hmem
  · rcases List.mem_cons.mp hmem with rfl | hmem
    · exact hbacktick
    · rcases List.mem_append.mp hmem with hmem | hmem
      · exact hcode c hmem
      · rwa [List.mem_singleton.mp hmem]

theorem Item.oneLine (item : Item) : OneLine item.text := by
  cases item with
  | plain text hline _ _ => exact hline
  | code prose _ => exact prose.oneLine

theorem Filler.oneLine (filler : Filler) : ∀ line ∈ filler.lines, OneLine line := by
  cases filler with
  | blank line hline _ => exact fun other hother ↦ List.mem_singleton.mp hother ▸ hline
  | note line hline _ => exact fun other hother ↦ List.mem_singleton.mp hother ▸ hline
  | fenced opening body closing hlines _ _ _ =>
    obtain ⟨hopening, hrest⟩ := List.forall_mem_cons.mp hlines
    obtain ⟨hclosing, hbody⟩ := List.forall_mem_cons.mp hrest
    refine List.forall_mem_cons.mpr ⟨hopening, List.forall_mem_append.mpr ⟨hbody, ?_⟩⟩
    exact fun other hother ↦ List.mem_singleton.mp hother ▸ hclosing

theorem Block.oneLine (block : Block) : ∀ line ∈ block.lines, OneLine line := by
  cases block with
  | filler other => exact other.oneLine
  | group labelled =>
    refine List.forall_mem_cons.mpr ⟨?_, fun line hline ↦ ?_⟩
    · have hlabel : ∀ c ∈ labelled.label.text, isLineBreak c = false := by
        cases labelled.label <;> decide +kernel
      refine List.forall_mem_append.mpr ⟨hlabel, List.forall_mem_cons.mpr ⟨by decide, ?_⟩⟩
      refine List.forall_mem_append.mpr ⟨labelled.field_line, ?_⟩
      exact fun c hc ↦ List.mem_singleton.mp hc ▸ by decide
    · obtain ⟨part, -, hmem⟩ := List.mem_flatMap.mp hline
      cases part with
      | filler other _ => exact other.oneLine line hmem
      | item bullet =>
        have hbullet : ∀ c ∈ PyStr.ofString "* ", isLineBreak c = false := by decide +kernel
        rw [List.mem_singleton.mp hmem]
        exact List.forall_mem_append.mpr ⟨hbullet, bullet.oneLine⟩

namespace Readme

variable (wide : ℕ → PyStr) (readme : Readme) (syscall : PyStr) (bucket : Bucket)

theorem oneLine : ∀ line ∈ readme.lines, OneLine line := by
  intro line hline
  rcases List.mem_append.mp hline with hmem | hmem
  · obtain ⟨filler, -, hfiller⟩ := List.mem_flatMap.mp hmem
    exact filler.oneLine line hfiller
  · obtain ⟨printed, -, hprinted⟩ := List.mem_flatMap.mp hmem
    have hhash : ∀ c ∈ PyStr.ofString "### ", isLineBreak c = false := by decide +kernel
    rcases List.mem_cons.mp hprinted with rfl | hblocks
    · exact List.forall_mem_append.mpr ⟨hhash, printed.title.oneLine⟩
    · obtain ⟨block, -, hblock⟩ := List.mem_flatMap.mp hblocks
      exact block.oneLine line hblock

/-- The result has the items that stand under a field with a name. -/
theorem parsed_eq : readme.parsed wide syscall bucket =
    grouped (((readme.entries wide syscall bucket).filter named).map single) := by
  have hlines : splitLines readme.text = readme.lines := Agent.splitLines_lines readme.oneLine
  obtain ⟨houtside, hclosed⟩ := foldl_step_preface wide readme.preface
    (show State.start.inCodeBlock = false from rfl) rfl
  have hheld := held_closed_sections wide readme.sections houtside syscall bucket
  rw [hclosed, ← List.foldl_append, ← Readme.lines] at hheld
  rw [parsed, parseReadmeSections, hlines, mergeBucket_eq, hheld]
  have hnames : (fun part : PrintedSection ↦ decide (0 < part.names.countP (· = syscall))) =
      fun part ↦ decide (syscall ∈ part.names) := by
    refine funext fun part ↦ decide_eq_decide.mpr ?_
    rw [List.countP_pos_iff]
    simp only [decide_eq_true_eq, exists_eq_right]
  rw [show held State.start.syscallSections syscall = [] from rfl, List.flatMap_nil,
    List.nil_append, grouped_flatMap_grouped, hnames, entries, List.filter_flatMap,
    List.map_flatMap]
  rfl

/-- What is expected are the groups of all items. -/
theorem expected_eq : readme.expected wide syscall bucket =
    grouped ((readme.entries wide syscall bucket).map single) := by
  have hkeys : ((readme.entries wide syscall bucket).map single).map Prod.fst =
      (readme.entries wide syscall bucket).map Prod.fst := List.map_map
  have hvalues : ∀ (items : List (PyStr × PyStr)) (field : PyStr),
      gathered (items.map single) field =
        (items.filter fun entry ↦ entry.1 = field).map Prod.snd := by
    intro items field
    rw [gathered, List.filter_map, List.flatMap_map]
    exact List.map_eq_flatMap.symm
  rw [expected, grouped, hkeys]
  exact List.map_congr_left fun field _ ↦ by rw [hvalues]

/-- The result is what is expected exactly where no item stands under a field without a name. -/
theorem mergeBucket_iff : readme.parsed wide syscall bucket = readme.expected wide syscall bucket ↔
    ∀ entry ∈ readme.entries wide syscall bucket, entry.1 ≠ [] := by
  rw [parsed_eq, expected_eq]
  constructor
  · intro heq entry hentry hempty
    have hkeys := congrArg (List.map Prod.fst) heq
    rw [map_fst_grouped, map_fst_grouped] at hkeys
    have hmem : entry.1 ∈ sortedSet
        (((readme.entries wide syscall bucket).map single).map Prod.fst) :=
      mem_sortedSet.mpr (List.mem_map_of_mem (List.mem_map_of_mem hentry))
    rw [← hkeys, mem_sortedSet] at hmem
    obtain ⟨row, hrow, hfirst⟩ := List.mem_map.mp hmem
    obtain ⟨other, hother, rfl⟩ := List.mem_map.mp hrow
    have hnamed := (List.mem_filter.mp hother).2
    rw [named, show other.1 = [] from hfirst.trans hempty] at hnamed
    cases hnamed
  · intro hall
    rw [List.filter_eq_self.mpr fun entry hentry ↦ ?_]
    rw [named, Bool.not_eq_true', List.isEmpty_eq_false_iff]
    exact hall entry hentry

end Readme

/-- A section whose only label names its field by two dashes. -/
def dashedReadme : Readme where
  preface := []
  sections := [{
    title := ⟨[([], PyStr.ofString "open")], [], by decide, by decide +kernel, by decide,
      by unfold OneLine; decide +kernel, by unfold OneLine; decide⟩
    blocks := [.group {
      label := .unsupported
      field := PyStr.ofString "--"
      parts := [.item (.plain (PyStr.ofString "O_NOCTTY") (by unfold OneLine; decide +kernel)
        (by decide +kernel) (by decide +kernel))]
      field_ne := by decide +kernel
      field_line := by unfold OneLine; decide +kernel }] }]

/-- The item under that label is lost. -/
theorem not_parsed_dashedReadme : ¬∀ (wide : ℕ → PyStr) (readme : Readme) (syscall : PyStr)
    (bucket : Bucket), readme.parsed wide syscall bucket = readme.expected wide syscall bucket := by
  intro hall
  have hsame := hall (fun c ↦ [c]) dashedReadme (PyStr.ofString "open") .unsupported
  have hparsed : dashedReadme.parsed (fun c ↦ [c]) (PyStr.ofString "open") .unsupported = [] := by
    decide +kernel
  have hexpected : dashedReadme.expected (fun c ↦ [c]) (PyStr.ofString "open") .unsupported =
      [([], [PyStr.ofString "O_NOCTTY"])] := by
    decide +kernel
  rw [hparsed, hexpected] at hsame
  cases hsame

end SyzAbi.Tools.Manifest

import SyzAbi.Library.ShellWords
import Mathlib.Logic.Function.Basic
import Mathlib.Data.List.Forall2

/-!
# Variables of a shell

A shell holds variables, some of them exported. A command of assignments sets variables (`assign`),
`export` sets and exports them, `unset` removes them, and a program that is started sees the
exported ones, together with the assignments that stand before its name (`Command.launch`). `cd`
notes the directory in two variables (`enter`).

A script that exports the variables that are not empty shows a program the values of all of them, up
to the difference between empty and unset (`Variables.environment_foldl_exportSet`).

What a script does to the variables is the composition of what its lines do (`runScript_lines`), and
a line that assigns a quoted text assigns that text (`does_assignment`, `does_export`), whatever the
text holds.
-/

set_option autoImplicit false
set_option relaxedAutoImplicit false

namespace SyzAbi.Library.Shell

open TextLines

/-! ### Variables -/

/-- The value of a variable, and whether the programs see it. -/
structure Variable where
  value : List ℕ
  exported : Bool

/-- The variables of a shell, by their names. -/
abbrev Variables := List ℕ → Option Variable

/-- What a program finds in its environment. -/
abbrev Environment := List ℕ → Option (List ℕ)

/-- `PWD`. -/
def pwdName : List ℕ := "PWD".toList.map Char.toNat

/-- `OLDPWD`. -/
def oldPwdName : List ℕ := "OLDPWD".toList.map Char.toNat

/-- The variables that `cd` sets. -/
def directoryNames : List (List ℕ) := [pwdName, oldPwdName]

/-- What `cd` leaves in its variables. -/
structure Entered where
  pwd : Variable
  oldPwd : Variable

namespace Variables

/-- `NAME=value`: an exported variable stays exported. -/
def assign (vars : Variables) (name value : List ℕ) : Variables :=
  Function.update vars name (some ⟨value, (vars name).any Variable.exported⟩)

/-- `export NAME=value`. -/
def exportValue (vars : Variables) (name value : List ℕ) : Variables :=
  Function.update vars name (some ⟨value, true⟩)

/-- `unset NAME`. -/
def unset (vars : Variables) (name : List ℕ) : Variables := Function.update vars name none

/-- `$NAME`. -/
def valueOf (vars : Variables) (name : List ℕ) : List ℕ := ((vars name).map Variable.value).getD []

/-- `if [ -n "${NAME:-}" ]; then export NAME="$NAME"; fi`. -/
def exportSet (vars : Variables) (name : List ℕ) : Variables :=
  if vars.valueOf name = [] then vars else vars.exportValue name (vars.valueOf name)

/-- The exported variables. -/
def environment (vars : Variables) : Environment := fun name ↦
  (vars name).bind fun var ↦ if var.exported then some var.value else none

/-- `cd`, when it succeeds. -/
def enter (vars : Variables) (entered : Entered) : Variables :=
  Function.update (Function.update vars oldPwdName (some entered.oldPwd)) pwdName
    (some entered.pwd)

def assignAll (vars : Variables) (entries : List (List ℕ × List ℕ)) : Variables :=
  entries.foldl (fun vars entry ↦ vars.assign entry.1 entry.2) vars

def exportAll (vars : Variables) (entries : List (List ℕ × List ℕ)) : Variables :=
  entries.foldl (fun vars entry ↦ vars.exportValue entry.1 entry.2) vars

def unsetAll (vars : Variables) (names : List (List ℕ)) : Variables := names.foldl unset vars

theorem valueOf_assign_self (vars : Variables) (name value : List ℕ) :
    (vars.assign name value).valueOf name = value := by
  simp only [valueOf, assign, Function.update_self, Option.map_some, Option.getD_some]

theorem valueOf_assign_of_ne (vars : Variables) {name other : List ℕ} (value : List ℕ)
    (hne : other ≠ name) : (vars.assign name value).valueOf other = vars.valueOf other := by
  simp only [valueOf, assign, Function.update_of_ne hne]

@[simp] theorem environment_exportValue_self (vars : Variables) (name value : List ℕ) :
    (vars.exportValue name value).environment name = some value := by
  simp only [environment, exportValue, Function.update_self, Option.bind_some, if_true]

theorem environment_exportValue_of_ne (vars : Variables) {name other : List ℕ} (value : List ℕ)
    (hne : other ≠ name) :
    (vars.exportValue name value).environment other = vars.environment other := by
  simp only [environment, exportValue, Function.update_of_ne hne]

@[simp] theorem environment_unset_self (vars : Variables) (name : List ℕ) :
    (vars.unset name).environment name = none := by
  simp only [environment, unset, Function.update_self, Option.bind_none]

theorem environment_unset_of_ne (vars : Variables) {name other : List ℕ} (hne : other ≠ name) :
    (vars.unset name).environment other = vars.environment other := by
  simp only [environment, unset, Function.update_of_ne hne]

/-- Another directory changes no other variable that a program sees. -/
theorem environment_enter (vars : Variables) (entered : Entered) {name : List ℕ}
    (hname : name ∉ directoryNames) :
    (vars.enter entered).environment name = vars.environment name := by
  rw [directoryNames, List.mem_cons, List.mem_singleton, not_or] at hname
  simp only [environment, enter, Function.update_of_ne hname.1, Function.update_of_ne hname.2]

theorem environment_exportAll_of_notMem (vars : Variables) {entries : List (List ℕ × List ℕ)}
    {name : List ℕ} (hname : name ∉ entries.map Prod.fst) :
    (vars.exportAll entries).environment name = vars.environment name := by
  induction entries generalizing vars with
  | nil => rfl
  | cons entry rest ih =>
    rw [List.map_cons, List.mem_cons, not_or] at hname
    calc (vars.exportAll (entry :: rest)).environment name
        = (vars.exportValue entry.1 entry.2).environment name := ih _ hname.2
      _ = vars.environment name := environment_exportValue_of_ne vars entry.2 hname.1

/-- Exports under different names are all seen. -/
theorem environment_exportAll_of_mem (vars : Variables) {entries : List (List ℕ × List ℕ)}
    (hnames : (entries.map Prod.fst).Nodup) {name value : List ℕ}
    (hentry : (name, value) ∈ entries) :
    (vars.exportAll entries).environment name = some value := by
  induction entries generalizing vars with
  | nil => cases hentry
  | cons entry rest ih =>
    rw [List.map_cons, List.nodup_cons] at hnames
    rcases List.mem_cons.mp hentry with rfl | hrest
    · calc (vars.exportAll ((name, value) :: rest)).environment name
          = (vars.exportValue name value).environment name :=
            environment_exportAll_of_notMem _ hnames.1
        _ = some value := environment_exportValue_self vars name value
    · exact ih _ hnames.2 hrest

theorem valueOf_assignAll_of_notMem (vars : Variables) {entries : List (List ℕ × List ℕ)}
    {name : List ℕ} (hname : name ∉ entries.map Prod.fst) :
    (vars.assignAll entries).valueOf name = vars.valueOf name := by
  induction entries generalizing vars with
  | nil => rfl
  | cons entry rest ih =>
    rw [List.map_cons, List.mem_cons, not_or] at hname
    calc (vars.assignAll (entry :: rest)).valueOf name
        = (vars.assign entry.1 entry.2).valueOf name := ih _ hname.2
      _ = vars.valueOf name := valueOf_assign_of_ne vars entry.2 hname.1

/-- Assignments to different names all stand. -/
theorem valueOf_assignAll (vars : Variables) {entries : List (List ℕ × List ℕ)}
    (hnames : (entries.map Prod.fst).Nodup) {name value : List ℕ}
    (hentry : (name, value) ∈ entries) : (vars.assignAll entries).valueOf name = value := by
  induction entries generalizing vars with
  | nil => cases hentry
  | cons entry rest ih =>
    rw [List.map_cons, List.nodup_cons] at hnames
    rcases List.mem_cons.mp hentry with rfl | hrest
    · calc (vars.assignAll ((name, value) :: rest)).valueOf name
          = (vars.assign name value).valueOf name := valueOf_assignAll_of_notMem _ hnames.1
        _ = value := valueOf_assign_self vars name value
    · exact ih _ hnames.2 hrest

theorem environment_unsetAll_of_none (vars : Variables) (names : List (List ℕ)) {name : List ℕ}
    (hnone : vars.environment name = none) : (vars.unsetAll names).environment name = none := by
  induction names generalizing vars with
  | nil => exact hnone
  | cons first rest ih =>
    refine ih (vars.unset first) ?_
    by_cases hname : name = first
    · rw [hname, environment_unset_self]
    · rw [environment_unset_of_ne vars hname, hnone]

theorem environment_unsetAll_of_mem (vars : Variables) {names : List (List ℕ)} {name : List ℕ}
    (hname : name ∈ names) : (vars.unsetAll names).environment name = none := by
  induction names generalizing vars with
  | nil => cases hname
  | cons first rest ih =>
    rcases List.mem_cons.mp hname with rfl | hrest
    · exact environment_unsetAll_of_none _ rest (environment_unset_self vars name)
    · exact ih (vars.unset first) hrest

theorem valueOf_exportValue_of_ne (vars : Variables) {name other : List ℕ} (value : List ℕ)
    (hne : other ≠ name) : (vars.exportValue name value).valueOf other = vars.valueOf other := by
  simp only [valueOf, exportValue, Function.update_of_ne hne]

theorem valueOf_exportAll_of_notMem (vars : Variables) {entries : List (List ℕ × List ℕ)}
    {name : List ℕ} (hname : name ∉ entries.map Prod.fst) :
    (vars.exportAll entries).valueOf name = vars.valueOf name := by
  induction entries generalizing vars with
  | nil => rfl
  | cons entry rest ih =>
    rw [List.map_cons, List.mem_cons, not_or] at hname
    calc (vars.exportAll (entry :: rest)).valueOf name
        = (vars.exportValue entry.1 entry.2).valueOf name := ih _ hname.2
      _ = vars.valueOf name := valueOf_exportValue_of_ne vars entry.2 hname.1

/-- Exporting a variable keeps every value. -/
theorem valueOf_exportSet (vars : Variables) (name other : List ℕ) :
    (vars.exportSet name).valueOf other = vars.valueOf other := by
  rw [exportSet]
  split_ifs
  · rfl
  · by_cases hname : other = name
    · subst hname
      simp only [valueOf, exportValue, Function.update_self, Option.map_some, Option.getD_some]
    · exact valueOf_exportValue_of_ne vars _ hname

theorem environment_exportSet_of_ne (vars : Variables) {name other : List ℕ} (hne : other ≠ name) :
    (vars.exportSet name).environment other = vars.environment other := by
  rw [exportSet]
  split_ifs
  · rfl
  · exact environment_exportValue_of_ne vars _ hne

/-- A program finds the value of the variable, or nothing where the value is empty. -/
theorem environment_exportSet_self (vars : Variables) (name : List ℕ) :
    ((vars.exportSet name).environment name).getD [] = vars.valueOf name := by
  rw [exportSet]
  split_ifs with hempty
  · rw [hempty]
    cases hvar : vars name with
    | none => simp [environment, hvar]
    | some var =>
      simp only [valueOf, hvar, Option.map_some, Option.getD_some] at hempty
      by_cases hexported : var.exported = true <;> simp [environment, hvar, hexported, hempty]
  · rw [environment_exportValue_self, Option.getD_some]

theorem environment_foldl_exportSet_of_notMem (vars : Variables) {names : List (List ℕ)}
    {name : List ℕ} (hname : name ∉ names) :
    (names.foldl exportSet vars).environment name = vars.environment name := by
  induction names generalizing vars with
  | nil => rfl
  | cons first rest ih =>
    rw [List.mem_cons, not_or] at hname
    rw [List.foldl_cons, ih _ hname.2, environment_exportSet_of_ne vars hname.1]

/-- The exported names have their values in the environment. -/
theorem environment_foldl_exportSet (vars : Variables) {names : List (List ℕ)} {name : List ℕ}
    (hname : name ∈ names) :
    ((names.foldl exportSet vars).environment name).getD [] = vars.valueOf name := by
  induction names generalizing vars with
  | nil => cases hname
  | cons first rest ih =>
    rw [List.foldl_cons]
    by_cases hrest : name ∈ rest
    · rw [ih _ hrest, valueOf_exportSet]
    · obtain rfl : name = first := (List.mem_cons.mp hname).resolve_right hrest
      rw [environment_foldl_exportSet_of_notMem _ hrest, environment_exportSet_self]

theorem valueOf_unsetAll_of_notMem (vars : Variables) {names : List (List ℕ)} {name : List ℕ}
    (hname : name ∉ names) : (vars.unsetAll names).valueOf name = vars.valueOf name := by
  induction names generalizing vars with
  | nil => rfl
  | cons first rest ih =>
    rw [List.mem_cons, not_or] at hname
    calc (vars.unsetAll (first :: rest)).valueOf name
        = (vars.unset first).valueOf name := ih _ hname.2
      _ = vars.valueOf name := by simp only [valueOf, unset, Function.update_of_ne hname.1]

end Variables

/-! ### Commands -/

/-- A name of a variable. -/
def isName (name : List ℕ) : Bool :=
  name.all isNameChar && name.head?.any fun c ↦ !(48 ≤ c && c ≤ 57)

/-- The name and the value of a word that is an assignment. -/
def assignmentOf (word : Word) : Option (List ℕ × List ℕ) :=
  let name : Word := word.takeWhile fun piece ↦ !piece.2 && isNameChar piece.1
  if (word.drop name.length).head? = some (61, false) ∧ isName name.text = true then
    some (name.text, Word.text (word.drop (name.length + 1)))
  else none

/-- The assignments in front of a command, and its name and arguments. -/
structure Command where
  assignments : List (List ℕ × List ℕ)
  arguments : List (List ℕ)

def commandOf (words : List Word) : Command where
  assignments := (words.takeWhile fun word ↦ (assignmentOf word).isSome).filterMap assignmentOf
  arguments := (words.dropWhile fun word ↦ (assignmentOf word).isSome).map Word.text

/-- A command whose first word is no assignment. -/
theorem commandOf_of_none {word : Word} (hword : assignmentOf word = none) (words : List Word) :
    commandOf (word :: words) = ⟨[], (word :: words).map Word.text⟩ := by
  simp [commandOf, hword]

/-- `export`. -/
def exportWord : List ℕ := [101, 120, 112, 111, 114, 116]

/-- `unset`. -/
def unsetWord : List ℕ := [117, 110, 115, 101, 116]

/-- What a command that is no program does to the variables. -/
def Command.run (command : Command) (vars : Variables) : Option Variables :=
  if command.arguments = [] then some (vars.assignAll command.assignments)
  else if command.assignments ≠ [] then none
  else if command.arguments.head? = some exportWord then
    (command.arguments.tail.mapM fun argument ↦ assignmentOf (marked false argument)).map
      vars.exportAll
  else if command.arguments.head? = some unsetWord then
    if command.arguments.tail.all isName then some (vars.unsetAll command.arguments.tail) else none
  else none

/-- The arguments and the environment of the program that a command starts. -/
def Command.launch (command : Command) (vars : Variables) :
    Option (List (List ℕ) × Environment) :=
  if command.arguments.head?.all fun name ↦ name = exportWord || name = unsetWord then none
  else some (command.arguments, (vars.exportAll command.assignments).environment)

/-- What a script of assignments, exports and unsets does to the variables. -/
def runScript (text : List ℕ) (vars : Variables) : Option Variables := do
  let commands ← read text
  commands.foldlM (fun vars words ↦ (commandOf words).run vars) vars

/-! ### Lines -/

/-- The line does this to the variables. -/
def Does (text : List ℕ) (effect : Variables → Variables) : Prop :=
  ∃ words, IsLine text words ∧ ∀ vars, (commandOf words).run vars = some (effect vars)

/-- The lines of a script, one after the other. -/
theorem runScript_lines {texts : List (List ℕ)} {effects : List (Variables → Variables)}
    (hlines : List.Forall₂ Does texts effects) (vars : Variables) :
    runScript (unlines texts) vars = some (effects.foldl (fun vars effect ↦ effect vars) vars) := by
  obtain ⟨commands, hread, hrun⟩ : ∃ commands, List.Forall₂ IsLine texts commands ∧
      ∀ vars, commands.foldlM (fun vars words ↦ (commandOf words).run vars) vars =
        some (effects.foldl (fun vars effect ↦ effect vars) vars) := by
    clear vars
    induction hlines with
    | nil => exact ⟨[], .nil, fun vars ↦ rfl⟩
    | @cons text effect texts effects hline _ ih =>
      obtain ⟨words, hwords, heffect⟩ := hline
      obtain ⟨commands, hcommands, hrun⟩ := ih
      refine ⟨words :: commands, .cons hwords hcommands, fun vars ↦ ?_⟩
      rw [List.foldlM_cons, heffect vars]
      exact hrun (effect vars)
  rw [runScript, read_lines hread]
  exact hrun vars

/-- `NAME=` and the quoted value. -/
def assignmentText (name value : List ℕ) : List ℕ := name ++ 61 :: quote value

/-- The command that exports the quoted value. -/
def exportText (name value : List ℕ) : List ℕ := exportWord ++ 32 :: assignmentText name value

/-- How the shell reads an assignment. -/
def assignmentWord (name value : List ℕ) : Word :=
  marked false name ++ (61, false) :: marked (needsMarks value) value

theorem isName_ne_nil {name : List ℕ} (hname : isName name = true) : name ≠ [] := by
  rintro rfl
  cases hname

theorem isNameChar_of_mem {name : List ℕ} (hname : isName name = true) {c : ℕ} (hc : c ∈ name) :
    isNameChar c = true := by
  rw [isName, Bool.and_eq_true] at hname
  exact List.all_eq_true.mp hname.1 c hc

theorem isWord_name {name : List ℕ} (hname : isName name = true) :
    IsWord name (marked false name) := by
  obtain ⟨c, rest, rfl⟩ := List.exists_cons_of_ne_nil (isName_ne_nil hname)
  exact isWord_plain fun d hd ↦ isPlain_of_isNameChar (isNameChar_of_mem hname hd)

theorem isWord_assignment {name value : List ℕ} (hname : isName name = true)
    (hvalue : 0 ∉ value) : IsWord (assignmentText name value) (assignmentWord name value) := by
  have hequals : IsWord [61] (marked false [61]) := isWord_plain (by decide)
  exact (isWord_name hname).append (hequals.append (isWord_quote hvalue))

/-- A name, an equals sign and any value are an assignment. -/
theorem assignmentOf_append {name : List ℕ} (hname : isName name = true) (value : Word) :
    assignmentOf (marked false name ++ (61, false) :: value) = some (name, value.text) := by
  have htake : (marked false name ++ (61, false) :: value).takeWhile
      (fun piece ↦ !piece.2 && isNameChar piece.1) = marked false name := by
    rw [List.takeWhile_append_of_pos]
    · rw [List.takeWhile_cons_of_neg (by decide), List.append_nil]
    · intro piece hpiece
      obtain ⟨c, hc, rfl⟩ := List.mem_map.mp hpiece
      exact isNameChar_of_mem hname hc
  have hdrop : (marked false name ++ (61, false) :: value).drop ((marked false name).length + 1) =
      value := by
    rw [← List.drop_drop, List.drop_left]
    rfl
  rw [assignmentOf]
  simp only [htake, List.drop_left, List.head?_cons, text_marked, hname, and_self, if_true, hdrop]

theorem assignmentOf_assignmentWord {name : List ℕ} (hname : isName name = true)
    (value : List ℕ) : assignmentOf (assignmentWord name value) = some (name, value) := by
  rw [assignmentWord, assignmentOf_append hname, text_marked]

theorem text_assignmentWord (name value : List ℕ) :
    Word.text (assignmentWord name value) = name ++ 61 :: value := by
  rw [assignmentWord, text_append, text_marked]
  show name ++ 61 :: (marked (needsMarks value) value).text = _
  rw [text_marked]

/-- `NAME='value'`. -/
theorem does_assignment {name value : List ℕ} (hname : isName name = true) (hvalue : 0 ∉ value) :
    Does (assignmentText name value) (fun vars ↦ vars.assign name value) := by
  refine ⟨[assignmentWord name value], ?_, fun vars ↦ ?_⟩
  · have hline := isLine_spaced (isWord_assignment hname hvalue) .nil
    rwa [spaced_singleton] at hline
  · simp [Command.run, commandOf, assignmentOf_assignmentWord hname, Variables.assignAll]

theorem isWord_export : IsWord exportWord (marked false exportWord) :=
  isWord_plain (by decide)

theorem assignmentOf_exportWord : assignmentOf (marked false exportWord) = none := by decide

/-- `export NAME='value'`. -/
theorem does_export {name value : List ℕ} (hname : isName name = true) (hvalue : 0 ∉ value) :
    Does (exportText name value) (fun vars ↦ vars.exportValue name value) := by
  refine ⟨[marked false exportWord, assignmentWord name value], ?_, fun vars ↦ ?_⟩
  · have hline := isLine_spaced isWord_export (.cons (isWord_assignment hname hvalue) .nil)
    rwa [spaced_cons_cons, spaced_singleton] at hline
  have hargument : assignmentOf (marked false (name ++ 61 :: value)) = some (name, value) := by
    have happend := assignmentOf_append hname (marked false value)
    rwa [text_marked, ← marked_cons, marked, marked, ← List.map_append] at happend
  simp [Command.run, commandOf, assignmentOf_exportWord, text_assignmentWord, hargument,
    Variables.exportAll]

/-- A name, and a text without NUL. -/
def Passable (entry : List ℕ × List ℕ) : Prop := isName entry.1 = true ∧ 0 ∉ entry.2

theorem does_assignments {entries : List (List ℕ × List ℕ)}
    (hentries : ∀ entry ∈ entries, Passable entry) :
    List.Forall₂ Does (entries.map fun entry ↦ assignmentText entry.1 entry.2)
      (entries.map fun entry vars ↦ Variables.assign vars entry.1 entry.2) := by
  rw [List.forall₂_map_left_iff, List.forall₂_map_right_iff, List.forall₂_same]
  exact fun entry hentry ↦ does_assignment (hentries entry hentry).1 (hentries entry hentry).2

theorem does_exports {entries : List (List ℕ × List ℕ)}
    (hentries : ∀ entry ∈ entries, Passable entry) :
    List.Forall₂ Does (entries.map fun entry ↦ exportText entry.1 entry.2)
      (entries.map fun entry vars ↦ Variables.exportValue vars entry.1 entry.2) := by
  rw [List.forall₂_map_left_iff, List.forall₂_map_right_iff, List.forall₂_same]
  exact fun entry hentry ↦ does_export (hentries entry hentry).1 (hentries entry hentry).2

/-- A script of assignments. -/
theorem runScript_assignments {entries : List (List ℕ × List ℕ)}
    (hentries : ∀ entry ∈ entries, Passable entry) (vars : Variables) :
    runScript (unlines (entries.map fun entry ↦ assignmentText entry.1 entry.2)) vars =
      some (vars.assignAll entries) := by
  rw [runScript_lines (does_assignments hentries), List.foldl_map]
  rfl

/-- A script of exports. -/
theorem runScript_exports {entries : List (List ℕ × List ℕ)}
    (hentries : ∀ entry ∈ entries, Passable entry) (vars : Variables) :
    runScript (unlines (entries.map fun entry ↦ exportText entry.1 entry.2)) vars =
      some (vars.exportAll entries) := by
  rw [runScript_lines (does_exports hentries), List.foldl_map]
  rfl

/-- A path from the root is no assignment. -/
theorem assignmentOf_path {path : List ℕ} (hslash : path.head? = some 47) (quoted : Bool) :
    assignmentOf (marked quoted path) = none := by
  obtain ⟨rest, rfl⟩ : ∃ rest, path = 47 :: rest := List.head?_eq_some_iff.mp hslash
  have hname : (marked quoted (47 :: rest)).takeWhile
      (fun piece ↦ !piece.2 && isNameChar piece.1) = [] := by
    rw [marked_cons, List.takeWhile_cons_of_neg]
    simp [show isNameChar 47 = false by decide]
  rw [assignmentOf]
  simp only [hname]
  exact if_neg fun h ↦ by cases h.2

/-- Assignments before a path: a program with these texts in its environment. -/
theorem launch_assignments {entries : List (List ℕ × List ℕ)} {path : List ℕ}
    (hentries : ∀ entry ∈ entries, Passable entry) (hpath : 0 ∉ path)
    (hslash : path.head? = some 47) (vars : Variables) :
    ∃ words, read (spaced ((entries.map fun entry ↦ assignmentText entry.1 entry.2) ++
        [quote path])) = some [words] ∧
      (commandOf words).launch vars = some ([path], (vars.exportAll entries).environment) := by
  have hassigns : List.Forall₂ IsWord (entries.map fun entry ↦ assignmentText entry.1 entry.2)
      (entries.map fun entry ↦ assignmentWord entry.1 entry.2) := by
    rw [List.forall₂_map_left_iff, List.forall₂_map_right_iff, List.forall₂_same]
    exact fun entry hentry ↦ isWord_assignment (hentries entry hentry).1 (hentries entry hentry).2
  have hread : read (spaced ((entries.map fun entry ↦ assignmentText entry.1 entry.2) ++
      [quote path])) = some [(entries.map fun entry ↦ assignmentWord entry.1 entry.2) ++
        [marked (needsMarks path) path]] :=
    read_spaced (by simp) (List.rel_append hassigns (.cons (isWord_quote hpath) .nil))
  have hsome : ∀ word ∈ entries.map fun entry ↦ assignmentWord entry.1 entry.2,
      (assignmentOf word).isSome = true := by
    intro word hword
    obtain ⟨entry, hentry, rfl⟩ := List.mem_map.mp hword
    rw [assignmentOf_assignmentWord (hentries entry hentry).1]
    rfl
  have hentry : (entries.map fun entry ↦ assignmentWord entry.1 entry.2).filterMap assignmentOf =
      entries := by
    rw [List.filterMap_map]
    conv_rhs => rw [← List.filterMap_some (l := entries)]
    exact List.filterMap_congr fun entry hentry ↦
      assignmentOf_assignmentWord (hentries entry hentry).1 entry.2
  have hcommand : commandOf ((entries.map fun entry ↦ assignmentWord entry.1 entry.2) ++
      [marked (needsMarks path) path]) = ⟨entries, [path]⟩ := by
    rw [commandOf, List.takeWhile_append_of_pos hsome, List.dropWhile_append_of_pos hsome]
    simp [assignmentOf_path hslash, hentry]
  refine ⟨_, hread, ?_⟩
  rw [hcommand, Command.launch]
  have hbuiltin : path ≠ exportWord ∧ path ≠ unsetWord := by
    constructor <;> rintro rfl <;> cases hslash
  simp [hbuiltin]

theorem isWord_unset : IsWord unsetWord (marked false unsetWord) :=
  isWord_plain (by decide)

theorem assignmentOf_unsetWord : assignmentOf (marked false unsetWord) = none := by decide

/-- `unset NAME ...`. -/
theorem does_unset {names : List (List ℕ)} (hnames : ∀ name ∈ names, isName name = true) :
    Does (spaced (unsetWord :: names)) (fun vars ↦ vars.unsetAll names) := by
  have hwords : List.Forall₂ IsWord names (names.map (marked false)) := by
    rw [List.forall₂_map_right_iff, List.forall₂_same]
    exact fun name hname ↦ isWord_name (hnames name hname)
  refine ⟨_, isLine_spaced isWord_unset hwords, fun vars ↦ ?_⟩
  have htexts : (names.map (marked false)).map Word.text = names := by
    rw [List.map_map]
    exact (List.map_congr_left fun name _ ↦ text_marked false name).trans (List.map_id names)
  have hnot : unsetWord ≠ exportWord := by decide
  simp [Command.run, commandOf, assignmentOf_unsetWord, htexts, hnot]
  exact hnames

end SyzAbi.Library.Shell

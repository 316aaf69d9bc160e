import SyzAbi.Library.KeyedMerge
import SyzAbi.Orchestrator.EventsFile

/-!
# The inspector

`cmd/syzabi_inspect/main.go` reads a program with the syzkaller library and prints what the corpus
keeps of it: the normalized text, its hash as the id of the program, and what the calls are. A slice
that nothing was appended to prints as `null`.

The library is a parameter. `ProgLibrary.ReadsBack` is what the corpus relies on: the normalized
text of a program is read as that program, and no two of the texts have one hash.
-/

set_option autoImplicit false
set_option relaxedAutoImplicit false

namespace SyzAbi.Tools.ImportSyz

open Analyzer Library.KeyedMerge

/-- A call of a program: `Meta.Name`, `Meta.CallName`, the names of the resource types among its
arguments, and `Props`. -/
structure Call where
  name : PyStr
  callName : PyStr
  resources : List PyStr
  async : Bool
  failNth : ℤ
  rerun : ℤ

/-- `base_syscall_name` of `filter_corpus.py`, the part of a full name before the first dollar sign;
other tools write `full_name.split("$", 1)[0]`. -/
def baseSyscallName (fullName : PyStr) : PyStr := fullName.takeWhile (· ≠ 36)

/-- The `prog` package for one target, and the hash. -/
structure ProgLibrary (Prog : Type) where
  targetOs : PyStr
  arch : PyStr
  calls : Prog → List Call
  serialize : Prog → PyStr
  deserialize : Bool → PyStr → Except PyStr Prog
  sha256Hex : PyStr → PyStr

/-- What `syzabi_inspect` prints. -/
structure ProgramInfo where
  programId : PyStr
  normalizedSyz : PyStr
  arch : PyStr
  targetOs : PyStr
  syscallList : Option (List PyStr)
  fullSyscallList : Option (List PyStr)
  resourceClasses : Option (List PyStr)
  usesPseudoSyscalls : Bool
  usesThreadingSensitiveFeatures : Bool
  callCount : ℕ
  deriving DecidableEq

/-- `unicode.IsSpace`. -/
def isGoSpace (c : ℕ) : Bool :=
  (9 ≤ c && c ≤ 13) || (0x2000 ≤ c && c ≤ 0x200a) ||
    c ∈ [0x20, 0x85, 0xa0, 0x1680, 0x2028, 0x2029, 0x202f, 0x205f, 0x3000]

/-- `strings.TrimSpace`. -/
def trimSpace (text : PyStr) : PyStr :=
  ((text.dropWhile isGoSpace).reverse.dropWhile isGoSpace).reverse

/-- The names that were seen, as a sorted slice. -/
def sortedNames (names : List PyStr) : Option (List PyStr) :=
  if names.isEmpty then none else some (sortedSet names)

/-- `uniqueBaseCalls`. -/
def uniqueBaseCalls (calls : List Call) : Option (List PyStr) :=
  sortedNames (calls.map Call.callName)

/-- `collectFullCalls`. -/
def collectFullCalls (calls : List Call) : Option (List PyStr) :=
  sortedNames (calls.map Call.name)

/-- `collectResourceClasses`. -/
def collectResourceClasses (calls : List Call) : Option (List PyStr) :=
  sortedNames (calls.flatMap Call.resources)

/-- `hasPseudo`. -/
def hasPseudo (calls : List Call) : Bool :=
  calls.any fun call ↦ (PyStr.ofString "syz_").isPrefixOf call.callName

/-- `hasThreadSensitiveProps`. -/
def hasThreadSensitiveProps (calls : List Call) : Bool :=
  calls.any fun call ↦ call.async || 0 < call.failNth || 0 < call.rerun

variable {Prog : Type} (lib : ProgLibrary Prog)

/-- `strings.TrimSpace(string(p.Serialize())) + "\n"`. -/
def ProgLibrary.normalized (program : Prog) : PyStr := trimSpace (lib.serialize program) ++ [10]

/-- The id of a program. -/
def ProgLibrary.programId (program : Prog) : PyStr := lib.sha256Hex (lib.normalized program)

/-- What is printed about a program. -/
def ProgLibrary.info (program : Prog) : ProgramInfo where
  programId := lib.programId program
  normalizedSyz := lib.normalized program
  arch := lib.arch
  targetOs := lib.targetOs
  syscallList := uniqueBaseCalls (lib.calls program)
  fullSyscallList := collectFullCalls (lib.calls program)
  resourceClasses := collectResourceClasses (lib.calls program)
  usesPseudoSyscalls := hasPseudo (lib.calls program)
  usesThreadingSensitiveFeatures := hasThreadSensitiveProps (lib.calls program)
  callCount := (lib.calls program).length

@[simp] theorem ProgLibrary.info_programId (program : Prog) :
    (lib.info program).programId = lib.programId program := rfl

/-- `inspect_program`: the command for a text, with its strict flag. -/
def ProgLibrary.inspectProgram (strict : Bool) (text : PyStr) : Except PyStr ProgramInfo :=
  (lib.deserialize strict text).map lib.info

/-- The normalized texts of these programs are read as the programs, and have different hashes. -/
structure ProgLibrary.ReadsBack (programs : Prog → Prop) : Prop where
  deserialize : ∀ program, programs program →
    lib.deserialize true (lib.normalized program) = .ok program
  collision : ∀ first second, programs first → programs second →
    lib.programId first = lib.programId second → lib.normalized first = lib.normalized second

/-- The id of a program tells it from the others. -/
theorem ProgLibrary.ReadsBack.injective {lib : ProgLibrary Prog} {programs : Prog → Prop}
    (hlib : lib.ReadsBack programs) {first second : Prog} (hfirst : programs first)
    (hsecond : programs second) (hid : lib.programId first = lib.programId second) :
    first = second := by
  have hread := hlib.deserialize first hfirst
  rw [hlib.collision first second hfirst hsecond hid, hlib.deserialize second hsecond] at hread
  exact (Except.ok.inj hread).symm

theorem sortedNames_eq_none_iff {names : List PyStr} : sortedNames names = none ↔ names = [] := by
  cases names with
  | nil => exact iff_of_true rfl rfl
  | cons name rest => exact iff_of_false (Option.some_ne_none _) (List.cons_ne_nil _ _)

theorem mem_of_sortedNames {names found : List PyStr} (hfound : sortedNames names = some found)
    (name : PyStr) : name ∈ found ↔ name ∈ names := by
  rw [sortedNames] at hfound
  split_ifs at hfound
  rw [← Option.some.inj hfound, mem_sortedSet]

theorem hasPseudo_eq_false_iff {calls : List Call} :
    hasPseudo calls = false ↔ ∀ call ∈ calls, ¬ PyStr.ofString "syz_" <+: call.callName := by
  simp only [hasPseudo, List.any_eq_false, List.isPrefixOf_iff_prefix]

theorem hasThreadSensitiveProps_eq_false_iff {calls : List Call} :
    hasThreadSensitiveProps calls = false ↔
      ∀ call ∈ calls, call.async = false ∧ call.failNth ≤ 0 ∧ call.rerun ≤ 0 := by
  simp only [hasThreadSensitiveProps, List.any_eq_false, Bool.not_eq_true, Bool.or_eq_false_iff,
    decide_eq_false_iff_not, not_lt, and_assoc]

end SyzAbi.Tools.ImportSyz

import Mathlib.Data.List.Nodup
import Mathlib.Data.List.Perm.Subperm
import SyzAbi.Library.OpenFiles

/-!
# The descriptor of the ArceOS tracer

`ensure_trace_fd` (`agent/arceos/trace.c`) duplicates the standard output until it gets a descriptor
from `TRACE_FD_MIN` on, and closes the duplicates before the last one. A duplicate is the lowest
free descriptor below the limit of the process, so the duplicates below `TRACE_FD_MIN` are
descriptors that were free. The standard output is none of them, so the array of `TRACE_FD_MIN`
entries is never full (`Reserved.length_lt`). What remains open is the last duplicate
(`ensureTraceFd_reserves`).
-/

set_option autoImplicit false
set_option relaxedAutoImplicit false

namespace SyzAbi.Agent.Arceos

open Library.OpenFiles

/-- `TRACE_FD_MIN`. -/
def traceFdMin : ℕ := 256

/-- `STDOUT_FILENO`. -/
def stdoutFileno : ℕ := 1

/-- `dup` under a limit on the descriptors; `none` when it fails. -/
def dup (limit : ℕ) (table : Table) (fd : ℕ) : Option (ℕ × Table) :=
  match table.get fd with
  | none => none
  | some description =>
    let free := table.lowestFree 0
    if free < limit then some (free, table.assign free (some description)) else none

/-- `close`. -/
def close (table : Table) (fd : ℕ) : Table := table.assign fd none

/-- `reserved[count++] = fd`; `none` when this is behind the end of the array. -/
def reserve (reserved : List ℕ) (fd : ℕ) : Option (List ℕ) :=
  if reserved.length < traceFdMin then some (reserved ++ [fd]) else none

/-- The first loop of `ensure_trace_fd`, with at most so many turns: the reserved descriptors and
`candidate`, where `none` is a negative one. The whole is `none` when the array is overrun or the
turns do not suffice. -/
def reserveLoop (limit : ℕ) :
    ℕ → List ℕ → Option ℕ → Table → Option (List ℕ × Option ℕ × Table)
  | 0, _, _, _ => none
  | turns + 1, reserved, candidate, table =>
    if reserved.length < traceFdMin then
      match dup limit table stdoutFileno with
      | none => some (reserved, candidate, table)
      | some (fd, duplicated) =>
        match reserve reserved fd with
        | none => none
        | some more =>
          if traceFdMin ≤ fd then some (more, some fd, duplicated)
          else reserveLoop limit turns more (some fd) duplicated
    else some (reserved, candidate, table)

/-- The second loop of `ensure_trace_fd`, from the last reserved descriptor down. -/
def releaseLoop (candidate : Option ℕ) (reserved : List ℕ) (table : Table) : Table :=
  reserved.foldr (fun fd table ↦ if candidate = some fd then table else close table fd) table

/-- The descriptors of the process and `trace_fd`, with `none` for a negative one. -/
structure TracerProcess where
  table : Table
  traceFd : Option ℕ := none

/-- `ensure_trace_fd`; `none` when the array is overrun. -/
def ensureTraceFd (limit : ℕ) (process : TracerProcess) : Option TracerProcess :=
  if process.traceFd.isSome then some process
  else do
    let (reserved, candidate, table) ←
      reserveLoop limit (traceFdMin + 1) [] none process.table
    let table := releaseLoop candidate reserved table
    match candidate with
    | some fd => some { table := table, traceFd := some fd }
    | none => some { table := table, traceFd := some stdoutFileno }

/-! ### Duplicates -/

section Reserve

variable {limit description : ℕ} {initial : Table}

/-- The duplicates that are reserved, all of descriptors that were free. -/
structure Reserved (initial : Table) (description : ℕ) (reserved : List ℕ) (table : Table) :
    Prop where
  free : ∀ fd ∈ reserved, initial.get fd = none
  nodup : reserved.Nodup
  get : ∀ fd, table.get fd = if fd ∈ reserved then some description else initial.get fd

theorem Reserved.nil : Reserved initial description [] initial where
  free := List.forall_mem_nil _
  nodup := List.nodup_nil
  get fd := by rw [if_neg List.not_mem_nil]

variable {reserved : List ℕ} {table : Table}

/-- A duplicate of an open descriptor is the lowest free one below the limit. -/
theorem dup_eq {fd : ℕ} (hopen : table.get fd = some description) :
    dup limit table fd = if table.lowestFree 0 < limit then
      some (table.lowestFree 0, table.assign (table.lowestFree 0) (some description))
    else none := by
  rw [dup, hopen]

theorem Reserved.get_stdout (hreserved : Reserved initial description reserved table)
    (hstdout : initial.get stdoutFileno = some description) :
    table.get stdoutFileno = some description := by
  rw [hreserved.get, hstdout, ite_self]

/-- The lowest free descriptor becomes one more duplicate. -/
theorem Reserved.concat (hreserved : Reserved initial description reserved table) :
    Reserved initial description (reserved ++ [table.lowestFree 0])
      (table.assign (table.lowestFree 0) (some description)) := by
  have hfree := table.get_lowestFree 0
  rw [hreserved.get] at hfree
  split_ifs at hfree with hold
  refine ⟨?_, ?_, fun fd ↦ ?_⟩
  · intro fd hfd
    rcases List.mem_append.mp hfd with hfd | hfd
    · exact hreserved.free fd hfd
    · rwa [List.mem_singleton.mp hfd]
  · exact List.nodup_append.mpr ⟨hreserved.nodup, List.nodup_singleton _, fun fd hfd other hother ↦
      fun heq ↦ hold (List.mem_singleton.mp hother ▸ heq ▸ hfd)⟩
  · rw [Table.get_assign, hreserved.get]
    by_cases hfd : fd = table.lowestFree 0
    · rw [if_pos hfd, if_pos (List.mem_append_right _ (List.mem_singleton.mpr hfd))]
    · have hiff : fd ∈ reserved ++ [table.lowestFree 0] ↔ fd ∈ reserved := by
        rw [List.mem_append, List.mem_singleton, or_iff_left hfd]
      rw [if_neg hfd]
      exact (if_congr hiff rfl rfl).symm

/-- With the standard output open, fewer duplicates than the array has entries are below
`TRACE_FD_MIN`. -/
theorem Reserved.length_lt (hreserved : Reserved initial description reserved table)
    (hstdout : initial.get stdoutFileno = some description)
    (hsmall : ∀ fd ∈ reserved, fd < traceFdMin) : reserved.length < traceFdMin := by
  have hnot : stdoutFileno ∉ reserved := by
    intro hmem
    rw [hreserved.free _ hmem] at hstdout
    cases hstdout
  have hsubset : stdoutFileno :: reserved ⊆ List.range traceFdMin := by
    intro fd hfd
    rw [List.mem_range]
    rcases List.mem_cons.mp hfd with rfl | hfd
    · decide
    · exact hsmall fd hfd
  have hlength := ((List.nodup_cons.mpr ⟨hnot, hreserved.nodup⟩).subperm hsubset).length_le
  rwa [List.length_cons, List.length_range] at hlength

/-- The first loop ends without overrunning the array, and `candidate` is the last duplicate. It is
from `TRACE_FD_MIN` on when a free descriptor below the limit is. -/
theorem reserveLoop_spec (hstdout : initial.get stdoutFileno = some description) {turns : ℕ}
    (hreserved : Reserved initial description reserved table)
    (hsmall : ∀ fd ∈ reserved, fd < traceFdMin) (hturns : traceFdMin < turns + reserved.length) :
    ∃ all final, reserveLoop limit turns reserved reserved.getLast? table =
        some (all, all.getLast?, final) ∧ Reserved initial description all final ∧
      ∀ fd, traceFdMin ≤ fd → fd < limit → initial.get fd = none →
        ∃ last, all.getLast? = some last ∧ traceFdMin ≤ last := by
  induction turns generalizing reserved table with
  | zero =>
    have hlength := hreserved.length_lt hstdout hsmall
    omega
  | succ turns ih =>
    have hlength := hreserved.length_lt hstdout hsmall
    rw [reserveLoop, if_pos hlength, dup_eq (hreserved.get_stdout hstdout)]
    split_ifs with hlimit
    · simp only [reserve, if_pos hlength]
      split_ifs with hhigh
      · exact ⟨reserved ++ [table.lowestFree 0], _, by rw [List.getLast?_concat],
          hreserved.concat, fun _ _ _ _ ↦ ⟨_, List.getLast?_concat, hhigh⟩⟩
      · have hmore : ∀ fd ∈ reserved ++ [table.lowestFree 0], fd < traceFdMin := by
          intro fd hfd
          rcases List.mem_append.mp hfd with hfd | hfd
          · exact hsmall fd hfd
          · rw [List.mem_singleton.mp hfd]
            exact Nat.not_le.mp hhigh
        have hrest := ih hreserved.concat hmore (by
          rw [List.length_append, List.length_singleton]
          omega)
        rwa [List.getLast?_concat] at hrest
    · refine ⟨reserved, table, rfl, hreserved, fun fd hhigh hlow hfree ↦ absurd ?_ hlimit⟩
      have hclosed : table.get fd = none := by
        rw [hreserved.get, if_neg fun hmem ↦ absurd (hsmall fd hmem) (Nat.not_lt.mpr hhigh), hfree]
      exact Nat.lt_of_le_of_lt (Table.lowestFree_le hclosed) hlow

/-- The second loop closes all duplicates but the last one. -/
theorem get_releaseLoop (candidate : Option ℕ) (fd : ℕ) :
    (releaseLoop candidate reserved table).get fd =
      if fd ∈ reserved ∧ candidate ≠ some fd then none else table.get fd := by
  induction reserved with
  | nil => simp [releaseLoop]
  | cons first rest ih =>
    rw [releaseLoop, List.foldr_cons, ← releaseLoop]
    by_cases hkeep : candidate = some first
    · rw [if_pos hkeep, ih]
      refine if_congr ?_ rfl rfl
      rw [List.mem_cons, or_and_right, or_iff_right]
      rintro ⟨rfl, hne⟩
      exact hne hkeep
    · rw [if_neg hkeep, close, Table.get_assign, ih]
      by_cases hfd : fd = first
      · rw [if_pos hfd, if_pos ⟨hfd ▸ List.mem_cons_self, hfd ▸ hkeep⟩]
      · rw [if_neg hfd]
        refine if_congr ?_ rfl rfl
        rw [List.mem_cons, or_iff_right hfd]

end Reserve

/-- `ensure_trace_fd` never overruns its array. It leaves every descriptor as it was but for at most
one, which was free and is the descriptor of the tracer. That descriptor is open on the standard
output. When some free descriptor from `TRACE_FD_MIN` on is below the limit, so is that of the
tracer. Later calls change nothing. -/
theorem ensureTraceFd_reserves (limit : ℕ) (initial : Table) (description : ℕ)
    (hstdout : initial.get stdoutFileno = some description) :
    ∃ final fd added, ensureTraceFd limit { table := initial } = some final ∧
      final.traceFd = some fd ∧ final.table.get fd = some description ∧
      (∀ other, final.table.get other =
        if added = some other then some description else initial.get other) ∧
      (∀ other, added = some other → initial.get other = none ∧ other = fd) ∧
      ((∃ other, traceFdMin ≤ other ∧ other < limit ∧ initial.get other = none) →
        traceFdMin ≤ fd) ∧
      ensureTraceFd limit final = some final := by
  obtain ⟨reserved, table, hloop, hreserved, hhigh⟩ : ∃ reserved table,
      reserveLoop limit (traceFdMin + 1) [] none initial =
        some (reserved, reserved.getLast?, table) ∧
      Reserved initial description reserved table ∧
      ∀ fd, traceFdMin ≤ fd → fd < limit → initial.get fd = none →
        ∃ last, reserved.getLast? = some last ∧ traceFdMin ≤ last :=
    reserveLoop_spec hstdout Reserved.nil (List.forall_mem_nil _) (Nat.lt_succ_self _)
  -- What is open after both loops.
  have hget : ∀ other, (releaseLoop reserved.getLast? reserved table).get other =
      if reserved.getLast? = some other then some description else initial.get other := by
    intro other
    rw [get_releaseLoop, hreserved.get]
    by_cases hlast : reserved.getLast? = some other
    · rw [if_neg fun h ↦ h.2 hlast, if_pos (List.mem_of_getLast? hlast), if_pos hlast]
    · rw [if_neg hlast]
      by_cases hmem : other ∈ reserved
      · rw [if_pos ⟨hmem, hlast⟩, hreserved.free other hmem]
      · rw [if_neg fun h ↦ hmem h.1, if_neg hmem]
  have hensure : ensureTraceFd limit { table := initial } = some
      { table := releaseLoop reserved.getLast? reserved table
        traceFd := some (reserved.getLast?.getD stdoutFileno) } := by
    simp only [ensureTraceFd, hloop, Option.isSome_none, Bool.false_eq_true, if_false]
    cases reserved.getLast? <;> rfl
  refine ⟨_, _, reserved.getLast?, hensure, rfl, ?_, hget, fun other hother ↦ ⟨?_, ?_⟩, ?_, rfl⟩
  · rw [hget]
    cases hlast : reserved.getLast? with
    | none => rw [if_neg (Option.some_ne_none _ ∘ Eq.symm), Option.getD_none, hstdout]
    | some last => rw [Option.getD_some, if_pos rfl]
  · exact hreserved.free other (List.mem_of_getLast? hother)
  · rw [hother, Option.getD_some]
  · rintro ⟨other, hfrom, hbelow, hfree⟩
    obtain ⟨last, hlast, hle⟩ := hhigh other hfrom hbelow hfree
    rwa [hlast, Option.getD_some]

/-- A process with the three standard descriptors open. -/
theorem ensureTraceFd_reserves_standard :
    ∃ final fd added, ensureTraceFd 1024 { table := [some 0, some 1, some 2] } = some final ∧
      final.traceFd = some fd ∧ final.table.get fd = some 1 ∧
      (∀ other, final.table.get other =
        if added = some other then some 1 else Table.get [some 0, some 1, some 2] other) ∧
      (∀ other, added = some other →
        Table.get [some 0, some 1, some 2] other = none ∧ other = fd) ∧
      ((∃ other, traceFdMin ≤ other ∧ other < 1024 ∧
        Table.get [some 0, some 1, some 2] other = none) → traceFdMin ≤ fd) ∧
      ensureTraceFd 1024 final = some final :=
  ensureTraceFd_reserves 1024 [some 0, some 1, some 2] 1 rfl

end SyzAbi.Agent.Arceos

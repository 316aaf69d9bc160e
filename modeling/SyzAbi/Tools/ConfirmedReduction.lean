import SyzAbi.Tools.Minimality

/-!
# Whether a confirmed reduction was confirmed

`greedyReduce` of `ReduceCase` takes the outcome of a run from the program text. Here every run has
an outcome of its own (`RunOutcomes`), as the same program can diverge once and agree the next time.
The loop is that of `ReduceCase`, with the services as its runs find them; with outcomes that do not
vary the reducer is that of `ReduceCase` as well (`reduceOver_constant`). Each confirmation run is
kept with the program it was made for.

The flag `confirmed` starts true and is lowered only where the reducer falls back on recorded
evidence. So a reduction that accepts no trial is reported as confirmed without a single
confirmation run. `confirmedReduction_iff`: a reduction with the flag is a confirmed one exactly
when some deletion of one call from the program it is called with passes the test of the loop.
-/

set_option autoImplicit false
set_option relaxedAutoImplicit false

namespace SyzAbi.Tools

open Analyzer Orchestrator Library Library.Fallible

variable {Text Call : Type}

/-! ### Runs with outcomes of their own -/

/-- The runs of a reduction, named by where the reducer makes them. -/
inductive RunKey
  | initial
  | trial (pass dropIndex : ℕ)
  | confirmation (pass dropIndex attempt : ℕ)

/-- The outcome of every run, and of the preflight that goes with it. -/
structure RunOutcomes (Text : Type) where
  replay : RunKey → Option CampaignPackage → Text → Except PyError (Comparison × CaseRuns)
  scmlPreflight : RunKey → Bool → Text → Except PyError ScmlPreflight

/-- The services as one run finds them. -/
def ReduceServices.during (svc : ReduceServices Text Call) (outcomes : RunOutcomes Text)
    (key : RunKey) : ReduceServices Text Call :=
  { svc with
    replay := outcomes.replay key
    scmlPreflight := outcomes.scmlPreflight key }

variable (svc : ReduceServices Text Call) (outcomes : RunOutcomes Text)

/-- The body of the loop of `greedy_reduce` in a pass. -/
def judgeTrialOver (sourceEntry : Option SourceEntry) (pass dropIndex : ℕ) (files : Files Text) :
    Except PyError (Option AcceptedTrial) :=
  judgeTrial (svc.during outcomes (.trial pass dropIndex))
    (fun attempt ↦ svc.during outcomes (.confirmation pass dropIndex attempt)) sourceEntry files
    (.drop dropIndex)

/-- The variables of `greedy_reduce`, the number of the pass, and the confirmation runs with the
program each was made for. -/
structure Tracked (Text : Type) where
  state : ReduceState Text
  pass : ℕ
  recorded : List (Text × ConfirmationRun)

/-- The outcome of a pass: the confirmation runs that it adds were made for the program that it
accepts. -/
def Tracked.record (tracked : Tracked Text) : ReduceState Text × Bool → Tracked Text × Bool
  | (state, false) => ({ tracked with state := state }, false)
  | (state, true) =>
    ({ state := state
       pass := tracked.pass + 1
       recorded := tracked.recorded ++
         (state.confirmationRuns.drop tracked.state.confirmationRuns.length).map
           fun run ↦ (state.currentText, run) }, true)

/-- One pass of the `while` loop. -/
def reducePassOver (sourceEntry : Option SourceEntry) (tracked : Tracked Text) :
    Except PyError (Tracked Text × Bool) :=
  (dropLoop svc (judgeTrialOver svc outcomes sourceEntry tracked.pass)
    tracked.state.current.info.callCount tracked.state).map tracked.record

/-- The result of `greedy_reduce`, with the program of each confirmation run. -/
structure TrackedResult (Text : Type) extends ReduceResult Text where
  recorded : List (Text × ConfirmationRun)

/-- The end of `greedy_reduce`. -/
def finishOver (confirmed : Bool) (tracked : Tracked Text) : TrackedResult Text where
  toReduceResult := finish confirmed tracked.state
  recorded := tracked.recorded

/-- The variables before the first pass. -/
def firstPass (state : ReduceState Text) : Tracked Text := ⟨state, 0, []⟩

/-- `greedy_reduce` with at most `fuel` passes; `none` when they do not suffice. -/
def reduceOver (sourceEntry : Option SourceEntry) (initialText : Text) (fuel : ℕ) :
    Option (Except PyError (TrackedResult Text)) :=
  match initialState (svc.during outcomes .initial) sourceEntry initialText with
  | .error error => some (.error error)
  | .ok (state, true) => some (.ok (finishOver false (firstPass state)))
  | .ok (state, false) =>
    (WhileLoop.run (reducePassOver svc outcomes sourceEntry) fuel (firstPass state)).map
      (Except.map (finishOver true))

/-! ### What the flag says -/

/-- The returned program diverges, was confirmed at least once, and all its confirmation runs
diverge. -/
structure ConfirmedReduction (result : TrackedResult Text) : Prop where
  diverges : result.current.comparison.equivalent = false
  confirmed : ∃ run, (result.finalText, run) ∈ result.recorded
  runs : ∀ run, (result.finalText, run) ∈ result.recorded → run.equivalent = false

/-- The test of the loop on a trial: its run diverges, the invariants of the SCML workflow hold, and
all three confirmation runs diverge. -/
def AcceptsOver (sourceEntry : Option SourceEntry) (pass dropIndex : ℕ) (text : Text) : Prop :=
  ∃ calls comparison runs,
    svc.deserialize text = some calls ∧
    outcomes.replay (.trial pass dropIndex) none text = .ok (comparison, runs) ∧
    comparison.equivalent = false ∧
    (svc.scmlOverlayEnabled = true → ∃ preflight,
      outcomes.scmlPreflight (.trial pass dropIndex) true text = .ok preflight ∧
      scmlReductionInvariantsHold svc.runtimeSyscalls comparison runs.referenceCanonical
        preflight.status = true) ∧
    ∀ attempt < 3, ∃ confirmed confirmedRuns,
      outcomes.replay (.confirmation pass dropIndex attempt) (confirmationPackage svc sourceEntry)
        text = .ok (confirmed, confirmedRuns) ∧
      confirmed.equivalent = false

/-- Some deletion of one call from the program passes the test in the first pass. -/
def AcceptsDeletion (sourceEntry : Option SourceEntry) (initialText : Text) : Prop :=
  ∃ calls, svc.deserialize initialText = some calls ∧ ∃ dropIndex < calls.length,
    AcceptsOver svc outcomes sourceEntry 0 dropIndex (svc.serialize (calls.eraseIdx dropIndex))

variable {svc outcomes} {sourceEntry : Option SourceEntry}

/-! ### Outcomes that do not vary -/

/-- Every run of a program returns the same. -/
def constantOutcomes (svc : ReduceServices Text Call) : RunOutcomes Text where
  replay _ := svc.replay
  scmlPreflight _ := svc.scmlPreflight

/-- With outcomes that do not vary the reducer is the one of `ReduceCase`. -/
theorem reduceOver_constant (svc : ReduceServices Text Call) (sourceEntry : Option SourceEntry)
    (initialText : Text) (fuel : ℕ) :
    (reduceOver svc (constantOutcomes svc) sourceEntry initialText fuel).map
        (Except.map TrackedResult.toReduceResult) =
      greedyReduce svc sourceEntry initialText fuel := by
  rw [reduceOver, greedyReduce,
    show svc.during (constantOutcomes svc) .initial = svc from rfl]
  cases initialState svc sourceEntry initialText with
  | error error => rfl
  | ok outcome =>
    obtain ⟨state, blocked⟩ := outcome
    cases blocked with
    | true => rfl
    | false =>
      have hturn : ∀ tracked : Tracked Text, reducePass svc sourceEntry tracked.state =
          (reducePassOver svc (constantOutcomes svc) sourceEntry tracked).map
            (Prod.map Tracked.state id) := by
        intro tracked
        rw [reducePassOver, reducePass]
        change dropLoop svc (fun dropIndex files ↦
          judgeTrial svc (fun _ ↦ svc) sourceEntry files (.drop dropIndex)) _ _ =
            Except.map _ (Except.map _ (dropLoop svc (fun dropIndex files ↦
              judgeTrial svc (fun _ ↦ svc) sourceEntry files (.drop dropIndex)) _ _))
        cases dropLoop svc (fun dropIndex files ↦
            judgeTrial svc (fun _ ↦ svc) sourceEntry files (.drop dropIndex))
            tracked.state.current.info.callCount tracked.state with
        | error error => rfl
        | ok outcome =>
          obtain ⟨state, changed⟩ := outcome
          cases changed <;> rfl
      have hrun := WhileLoop.run_map Tracked.state hturn fuel (firstPass state)
      change Option.map _ (Option.map _ _) = Option.map _ (WhileLoop.run _ fuel state)
      rw [show state = (firstPass state).state from rfl, hrun, Option.map_map, Option.map_map]
      refine congrArg (Option.map · _) (funext fun outcome ↦ ?_)
      cases outcome with
      | error error => rfl
      | ok final => rfl

/-! ### A trial -/

/-- The test of the loop on a trial that is read from its file. -/
theorem trialPasses_iff {pass dropIndex : ℕ} {files : Files Text} {text : Text}
    (hread : files (.drop dropIndex) = some text) :
    TrialPasses (svc.during outcomes (.trial pass dropIndex)) sourceEntry
        (fun attempt ↦ svc.during outcomes (.confirmation pass dropIndex attempt)) files
        (.drop dropIndex) ↔
      AcceptsOver svc outcomes sourceEntry pass dropIndex text := by
  rw [TrialPasses, scmlPreflightForProgram_of_eq hread]
  constructor
  · rintro ⟨run, hrun, hfalse, hscml, hconfirmed⟩
    obtain ⟨calls, hcalls, hreplay, -⟩ := (runCase_eq_ok_iff hread).mp hrun
    refine ⟨calls, run.comparison, run.runs, hcalls, hreplay, hfalse, hscml, fun attempt hlt ↦ ?_⟩
    obtain ⟨confirm, hconfirm, hdiverges⟩ := hconfirmed attempt (List.mem_range.mpr hlt)
    obtain ⟨-, -, hreplayed, -⟩ := (runCase_eq_ok_iff hread).mp hconfirm
    exact ⟨confirm.comparison, confirm.runs, hreplayed, hdiverges⟩
  · rintro ⟨calls, comparison, runs, hcalls, hreplay, hfalse, hscml, hconfirmed⟩
    refine ⟨⟨_, comparison, runs⟩, (runCase_eq_ok_iff hread).mpr ⟨calls, hcalls, hreplay, rfl⟩,
      hfalse, hscml, fun attempt hattempt ↦ ?_⟩
    obtain ⟨confirmed, confirmedRuns, hreplayed, hdiverges⟩ :=
      hconfirmed attempt (List.mem_range.mp hattempt)
    exact ⟨⟨_, confirmed, confirmedRuns⟩,
      (runCase_eq_ok_iff hread).mpr ⟨calls, hcalls, hreplayed, rfl⟩, hdiverges⟩

/-- The body of the loop accepts the trials that pass the test. -/
theorem judgeTrialOver_isSome_iff {pass dropIndex : ℕ} {files : Files Text} {text : Text}
    (hread : files (.drop dropIndex) = some text) {result : Option AcceptedTrial}
    (hjudge : judgeTrialOver svc outcomes sourceEntry pass dropIndex files = .ok result) :
    result.isSome = true ↔ AcceptsOver svc outcomes sourceEntry pass dropIndex text :=
  (judgeTrial_isSome_iff hjudge).trans (trialPasses_iff hread)

/-! ### A pass -/

/-- What the state keeps: the confirmation runs are those that are recorded, and all diverge. -/
structure Tracked.Keeps (tracked : Tracked Text) : Prop where
  confirmations : tracked.recorded.map Prod.snd = tracked.state.confirmationRuns
  diverge : ∀ entry ∈ tracked.recorded, entry.2.equivalent = false

/-- What an accepted trial leaves: the current program diverges and was confirmed. -/
structure Tracked.Confirmed (tracked : Tracked Text) : Prop extends tracked.Keeps where
  diverges : tracked.state.current.comparison.equivalent = false
  recorded : ∃ run, (tracked.state.currentText, run) ∈ tracked.recorded

/-- The loop changes nothing but files until a trial is accepted, which sets the other variables. -/
theorem dropLoop_cases {judge : ℕ → Files Text → Except PyError (Option AcceptedTrial)}
    {remaining : ℕ} {state next : ReduceState Text} {changed : Bool}
    (hloop : dropLoop svc judge remaining state = .ok (next, changed)) :
    changed = false ∧ (∃ files, next = { state with files := files }) ∨
      changed = true ∧ ∃ dropIndex files text accepted,
        judge dropIndex files = .ok (some accepted) ∧
        next = ⟨files, .drop dropIndex, text, accepted.evidence,
          state.confirmationRuns ++ accepted.confirmations⟩ := by
  induction remaining generalizing state with
  | zero =>
    obtain ⟨rfl, rfl⟩ := Prod.mk.inj (Except.ok.inj hloop)
    exact .inl ⟨rfl, state.files, rfl⟩
  | succ dropIndex ih =>
    rw [dropLoop] at hloop
    obtain ⟨trial, -, hloop⟩ := bind_eq_ok_iff.mp hloop
    obtain ⟨result, hjudge, hloop⟩ := bind_eq_ok_iff.mp hloop
    cases result with
    | none =>
      have hbelow := ih hloop
      exact hbelow
    | some accepted =>
      obtain ⟨text, -, hloop⟩ := bind_eq_ok_iff.mp hloop
      obtain ⟨rfl, rfl⟩ := Prod.mk.inj (pure_eq_ok_iff.mp hloop)
      exact .inr ⟨rfl, dropIndex, _, text, accepted, hjudge, rfl⟩

/-- The turn of the `while` loop is that of `ReduceCase`, with what it records. -/
theorem reducePassOver_eq_ok_iff {tracked next : Tracked Text} {changed : Bool} :
    reducePassOver svc outcomes sourceEntry tracked = .ok (next, changed) ↔
      ∃ state, dropLoop svc (judgeTrialOver svc outcomes sourceEntry tracked.pass)
          tracked.state.current.info.callCount tracked.state = .ok (state, changed) ∧
        tracked.record (state, changed) = (next, changed) := by
  rw [reducePassOver]
  cases dropLoop svc (judgeTrialOver svc outcomes sourceEntry tracked.pass)
      tracked.state.current.info.callCount tracked.state with
  | error error =>
    refine iff_of_false (fun h ↦ by cases h) ?_
    rintro ⟨state, hstate, -⟩
    cases hstate
  | ok outcome =>
    obtain ⟨state, flag⟩ := outcome
    constructor
    · intro h
      have hrecord : tracked.record (state, flag) = (next, changed) := Except.ok.inj h
      obtain rfl : flag = changed := by
        cases flag <;> exact (Prod.mk.inj hrecord).2
      exact ⟨state, rfl, hrecord⟩
    · rintro ⟨other, hother, hrecord⟩
      obtain ⟨rfl, rfl⟩ := Prod.mk.inj (Except.ok.inj hother)
      exact congrArg Except.ok hrecord

/-- A pass that accepts no trial changes nothing but files. -/
theorem reducePassOver_unchanged {tracked next : Tracked Text}
    (hpass : reducePassOver svc outcomes sourceEntry tracked = .ok (next, false)) :
    ∃ files, next = { tracked with state := { tracked.state with files := files } } := by
  obtain ⟨state, hloop, hrecord⟩ := reducePassOver_eq_ok_iff.mp hpass
  rcases dropLoop_cases hloop with ⟨-, files, rfl⟩ | ⟨hchanged, -⟩
  · exact ⟨files, (Prod.mk.inj hrecord).1.symm⟩
  · exact absurd hchanged Bool.false_ne_true

/-- A pass that accepts a trial leaves a confirmed program. -/
theorem reducePassOver_confirmed {tracked next : Tracked Text}
    (hpass : reducePassOver svc outcomes sourceEntry tracked = .ok (next, true))
    (hkeeps : tracked.Keeps) : next.Confirmed := by
  obtain ⟨state, hloop, hrecord⟩ := reducePassOver_eq_ok_iff.mp hpass
  rcases dropLoop_cases hloop with
    ⟨hchanged, -⟩ | ⟨-, dropIndex, files, text, accepted, hjudge, rfl⟩
  · exact absurd hchanged.symm Bool.false_ne_true
  · obtain ⟨hdiverges, hlength, hfalse⟩ := judgeTrial_diverges hjudge
    obtain rfl := (Prod.mk.inj hrecord).1
    have hrecorded : (tracked.state.confirmationRuns ++ accepted.confirmations).drop
        tracked.state.confirmationRuns.length = accepted.confirmations := List.drop_left
    refine ⟨⟨?_, ?_⟩, hdiverges, ?_⟩
    · show (tracked.recorded ++ (List.drop _ _).map _).map Prod.snd = _
      rw [hrecorded, List.map_append, hkeeps.confirmations, List.map_map]
      exact congrArg _ (List.map_id _)
    · show ∀ entry ∈ tracked.recorded ++ (List.drop _ _).map _, _
      rw [hrecorded]
      intro entry hentry
      rcases List.mem_append.mp hentry with hold | hnew
      · exact hkeeps.diverge entry hold
      · obtain ⟨run, hrun, rfl⟩ := List.mem_map.mp hnew
        exact hfalse run hrun
    · show ∃ run, (text, run) ∈ tracked.recorded ++ (List.drop _ _).map _
      rw [hrecorded]
      have hpos : 0 < accepted.confirmations.length := by omega
      obtain ⟨run, hrun⟩ := List.exists_mem_of_length_pos hpos
      exact ⟨run, List.mem_append_right _ (List.mem_map.mpr ⟨run, hrun, rfl⟩)⟩

/-- A pass from the source program accepts a trial exactly when one of its deletions passes the
test. -/
theorem dropLoop_source_iff {calls : List Call} {initialText : Text} {pass remaining : ℕ}
    (hcalls : svc.deserialize initialText = some calls) (hle : remaining ≤ calls.length)
    {state next : ReduceState Text} {changed : Bool}
    (hloop : dropLoop svc (judgeTrialOver svc outcomes sourceEntry pass) remaining state =
      .ok (next, changed))
    (hpath : state.initialProgram = .source) (hread : state.files .source = some initialText) :
    changed = true ↔ ∃ dropIndex < remaining, AcceptsOver svc outcomes sourceEntry pass dropIndex
      (svc.serialize (calls.eraseIdx dropIndex)) := by
  induction remaining generalizing state with
  | zero =>
    obtain ⟨rfl, rfl⟩ := Prod.mk.inj (Except.ok.inj hloop)
    refine iff_of_false Bool.false_ne_true ?_
    rintro ⟨dropIndex, hlt, -⟩
    exact absurd hlt (Nat.not_lt_zero dropIndex)
  | succ dropIndex ih =>
    rw [dropLoop, hpath] at hloop
    obtain ⟨trial, htrial, hloop⟩ := bind_eq_ok_iff.mp hloop
    obtain ⟨result, hjudge, hloop⟩ := bind_eq_ok_iff.mp hloop
    obtain ⟨-, rfl⟩ := (mutateDropCall_eq_ok_iff hread hcalls).mp htrial
    have hsome := judgeTrialOver_isSome_iff (writeText_self _ _ _) hjudge
    cases result with
    | none =>
      -- Rejected: the source program is still in its file for the indexes below.
      change dropLoop svc _ dropIndex
        { state with files := _, initialProgram := .source } = _ at hloop
      have hsource : writeText state.files (.drop dropIndex)
          (svc.serialize (calls.eraseIdx dropIndex)) .source = some initialText :=
        (writeText_of_ne _ ProgramPath.noConfusion _).trans hread
      rw [ih (Nat.le_of_succ_le hle) hloop rfl hsource]
      constructor
      · rintro ⟨index, hlt, haccepts⟩
        exact ⟨index, by omega, haccepts⟩
      · rintro ⟨index, hlt, haccepts⟩
        rcases Nat.lt_succ_iff_lt_or_eq.mp hlt with hbelow | rfl
        · exact ⟨index, hbelow, haccepts⟩
        · exact absurd (hsome.mpr haccepts) Bool.false_ne_true
    | some accepted =>
      obtain ⟨text, -, hloop⟩ := bind_eq_ok_iff.mp hloop
      obtain ⟨-, rfl⟩ := Prod.mk.inj (pure_eq_ok_iff.mp hloop)
      exact iff_of_true rfl ⟨dropIndex, Nat.lt_succ_self dropIndex, hsome.mp rfl⟩

/-! ### A run -/

/-- The passes after the first keep a confirmed program. -/
theorem Tracked.Confirmed.of_reaches {first last : Tracked Text} (hfirst : first.Confirmed)
    (hreach : WhileLoop.Reaches (reducePassOver svc outcomes sourceEntry) first last) :
    last.Confirmed :=
  hreach.invariant Tracked.Confirmed hfirst fun _ _ hbefore hturn ↦
    reducePassOver_confirmed hturn hbefore.toKeeps

/-- A pass that accepts nothing leaves what is confirmed, and nothing else. -/
theorem confirmed_unchanged {last final : Tracked Text} {files : Files Text}
    (hfinal : final = { last with state := { last.state with files := files } }) :
    ConfirmedReduction (finishOver true final) ↔
      last.state.current.comparison.equivalent = false ∧
      (∃ run, (last.state.currentText, run) ∈ last.recorded) ∧
      ∀ run, (last.state.currentText, run) ∈ last.recorded → run.equivalent = false := by
  subst hfinal
  exact ⟨fun h ↦ ⟨h.diverges, h.confirmed, h.runs⟩, fun h ↦ ⟨h.1, h.2.1, h.2.2⟩⟩

/-- The state before the first pass. -/
theorem initialState_unblocked {initialText : Text} {start : ReduceState Text}
    (hinitial : initialState (svc.during outcomes .initial) sourceEntry initialText =
      .ok (start, false)) :
    start.initialProgram = .source ∧ start.files .source = some initialText ∧
      start.confirmationRuns = [] := by
  have hread : initialFiles initialText .source = some initialText := writeText_self _ _ _
  rw [initialState, readText_of_eq hread, ok_bind] at hinitial
  obtain ⟨⟨evidence, blocked⟩, -, hinitial⟩ := bind_eq_ok_iff.mp hinitial
  obtain ⟨rfl, -⟩ := Prod.mk.inj (pure_eq_ok_iff.mp hinitial)
  exact ⟨rfl, hread, rfl⟩

/-- A reduction that is reported as confirmed is a confirmed one exactly when some deletion of one
call from its program passes the test of the loop. -/
theorem confirmedReduction_iff (svc : ReduceServices Text Call) (outcomes : RunOutcomes Text)
    (sourceEntry : Option SourceEntry) (initialText : Text) (fuel : ℕ) (result : TrackedResult Text)
    (hreturns : reduceOver svc outcomes sourceEntry initialText fuel = some (.ok result))
    (hconfirmed : result.confirmed = true) :
    ConfirmedReduction result ↔ AcceptsDeletion svc outcomes sourceEntry initialText := by
  obtain ⟨start, hinitial, final, hrun, rfl⟩ :
      ∃ start, initialState (svc.during outcomes .initial) sourceEntry initialText =
          .ok (start, false) ∧
        ∃ final, WhileLoop.run (reducePassOver svc outcomes sourceEntry) fuel (firstPass start) =
          some (.ok final) ∧ finishOver true final = result := by
    rw [reduceOver] at hreturns
    split at hreturns
    · exact absurd hreturns (by simp)
    · obtain rfl := Except.ok.inj (Option.some.inj hreturns)
      exact absurd hconfirmed Bool.false_ne_true
    · next start hinitial =>
      obtain ⟨outcome, hrun, hmap⟩ := Option.map_eq_some_iff.mp hreturns
      cases outcome with
      | error error => cases hmap
      | ok final => exact ⟨start, hinitial, final, hrun, Except.ok.inj hmap⟩
  obtain ⟨hpath, hread, hempty⟩ := initialState_unblocked hinitial
  obtain ⟨calls, hconsistent⟩ := consistent_initialState hinitial
  have hcalls : svc.deserialize initialText = some calls := by
    have hfile := hconsistent.file
    rw [hpath, hread] at hfile
    rw [Option.some.inj hfile]
    exact hconsistent.parses
  have hkeeps : (firstPass start).Keeps := ⟨hempty.symm, List.forall_mem_nil _⟩
  -- Whether the first pass accepts a trial is whether a deletion passes the test.
  have hfirst : ∀ {next : Tracked Text} {changed : Bool},
      reducePassOver svc outcomes sourceEntry (firstPass start) = .ok (next, changed) →
        (changed = true ↔ AcceptsDeletion svc outcomes sourceEntry initialText) := by
    intro next changed hpass
    obtain ⟨state, hloop, -⟩ := reducePassOver_eq_ok_iff.mp hpass
    rw [dropLoop_source_iff hcalls hconsistent.count.le hloop hpath hread]
    constructor
    · rintro ⟨dropIndex, hlt, haccepts⟩
      exact ⟨calls, hcalls, dropIndex, hconsistent.count ▸ hlt, haccepts⟩
    · rintro ⟨parsed, hparsed, dropIndex, hlt, haccepts⟩
      obtain rfl : parsed = calls := Option.some.inj (hparsed.symm.trans hcalls)
      exact ⟨dropIndex, hconsistent.count ▸ hlt, haccepts⟩
  obtain ⟨last, hreach, hlast⟩ := WhileLoop.exists_last_of_run hrun
  rcases Relation.ReflTransGen.cases_head hreach with rfl | ⟨first, hturn, hrest⟩
  · -- No pass accepts a trial, and nothing was recorded.
    obtain ⟨files, hfinal⟩ := reducePassOver_unchanged hlast
    rw [confirmed_unchanged hfinal, ← hfirst hlast]
    refine iff_of_false ?_ Bool.false_ne_true
    rintro ⟨-, ⟨run, hrun⟩, -⟩
    exact absurd hrun List.not_mem_nil
  · have hgood : last.Confirmed :=
      (reducePassOver_confirmed hturn hkeeps).of_reaches hrest
    obtain ⟨files, hfinal⟩ := reducePassOver_unchanged hlast
    rw [confirmed_unchanged hfinal]
    exact iff_of_true ⟨hgood.diverges, hgood.recorded, fun run hrun ↦ hgood.diverge _ hrun⟩
      ((hfirst hturn).mp rfl)

/-- The reducer drops two calls, and each step was confirmed. -/
theorem confirmedReduction_iff_culprit :
    ∃ result, reduceOver culpritServices (constantOutcomes culpritServices) none [0, 1, 2] 3 =
        some (.ok result) ∧ result.confirmed = true ∧
      (ConfirmedReduction result ↔
        AcceptsDeletion culpritServices (constantOutcomes culpritServices) none [0, 1, 2]) :=
  ⟨_, rfl, rfl, confirmedReduction_iff culpritServices _ none [0, 1, 2] 3 _ rfl rfl⟩

/-- A program that never diverges is reported as confirmed, without a confirmation run. -/
theorem agreeingProgram_confirmed :
    ∃ result, reduceOver culpritServices (constantOutcomes culpritServices) none [0, 1] 3 =
        some (.ok result) ∧ result.confirmed = true ∧
      result.current.comparison.equivalent = true ∧ result.confirmationRuns = [] ∧
      ¬ConfirmedReduction result :=
  ⟨_, rfl, rfl, rfl, rfl, fun h ↦ Bool.noConfusion h.diverges⟩

end SyzAbi.Tools

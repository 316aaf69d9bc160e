import SyzAbi.Tools.ConfirmedReduction

/-!
# The evidence of a reduced program

The variables of the current program are set together when a trial is accepted, from the file of
the trial and from its run (`dropLoop_accepted`). A trial that is rejected can overwrite the
file from which the next trials are made, but only by a program with one call less. So every
accepted program has fewer calls than the current one, and its calls are some of the initial ones.
Hence a triangular number bounds the number of trials, and what the reducer returns after a step
belongs to the returned program (`reduceOver_coherent`).
-/

set_option autoImplicit false
set_option relaxedAutoImplicit false

namespace SyzAbi.Tools

open Analyzer Orchestrator Library Library.Fallible

variable {Text Call : Type} (svc : ReduceServices Text Call) (outcomes : RunOutcomes Text)
  (sourceEntry : Option SourceEntry)

/-! ### Trials -/

/-- The trials that a pass makes for the drop indexes below the given one. -/
def passTrials (judge : ℕ → Files Text → Except PyError (Option AcceptedTrial)) :
    ℕ → ReduceState Text → ℕ
  | 0, _ => 0
  | dropIndex + 1, state =>
    match mutateDropCall svc state.files state.initialProgram dropIndex with
    | .error _ => 0
    | .ok trialText =>
      let files := writeText state.files (.drop dropIndex) trialText
      match judge dropIndex files with
      | .ok none => 1 + passTrials judge dropIndex { state with files := files }
      | _ => 1

/-- The trials of `greedy_reduce` with at most `fuel` passes. -/
def reduceTrials (initialText : Text) (fuel : ℕ) : ℕ :=
  match initialState (svc.during outcomes .initial) sourceEntry initialText with
  | .ok (state, false) =>
    WhileLoop.cost (reducePassOver svc outcomes sourceEntry)
      (fun tracked ↦ passTrials svc (judgeTrialOver svc outcomes sourceEntry tracked.pass)
        tracked.state.current.info.callCount tracked.state) fuel (firstPass state)
  | _ => 0

/-- The first pass accepts a trial; without one the reducer makes no step. -/
def AcceptsStep (initialText : Text) : Prop :=
  ∃ start next, initialState (svc.during outcomes .initial) sourceEntry initialText =
      .ok (start, false) ∧
    WhileLoop.Turns (reducePassOver svc outcomes sourceEntry) (firstPass start) next

/-! ### Evidence -/

/-- The evidence is that of one trial of a program, which passed the test of the loop. -/
structure EvidenceOf (pass dropIndex : ℕ) (text : Text) (evidence : Evidence) : Prop where
  info : ∃ calls, svc.deserialize text = some calls ∧
    evidence.info = ⟨svc.programId calls, calls.length⟩
  replay : outcomes.replay (.trial pass dropIndex) none text =
    .ok (evidence.comparison, evidence.runs)
  preflight : if svc.scmlOverlayEnabled then
      ∃ preflight, evidence.preflight = some preflight ∧
        outcomes.scmlPreflight (.trial pass dropIndex) true text = .ok preflight
    else evidence.preflight = none
  accepts : AcceptsOver svc outcomes sourceEntry pass dropIndex text

variable {svc outcomes sourceEntry}

/-- The preflight of a trial, as the test of the loop leaves it. -/
theorem trialPreflight_eq {services : ReduceServices Text Call} {files : Files Text}
    {path : ProgramPath} {text : Text} (hread : files path = some text) {trial : CaseRun}
    {preflight : Option ScmlPreflight}
    (htrial : trialPreflight services files path trial = .ok (some preflight)) :
    if services.scmlOverlayEnabled then
      ∃ done, preflight = some done ∧ services.scmlPreflight true text = .ok done
    else preflight = none := by
  rw [trialPreflight, scmlPreflightForProgram_of_eq hread] at htrial
  split_ifs at htrial ⊢ with hscml
  · obtain ⟨caught, hcaught, hrest⟩ := bind_eq_ok_iff.mp htrial
    cases caught with
    | none => exact absurd (pure_eq_ok_iff.mp hrest) (by simp)
    | some done =>
      dsimp only at hrest
      split_ifs at hrest
      · have hsame := Option.some.inj (pure_eq_ok_iff.mp hrest)
        exact ⟨done, hsame.symm, exceptSystemExit_eq_some_iff.mp hcaught⟩
      · exact absurd (pure_eq_ok_iff.mp hrest) (by simp)
  · exact (Option.some.inj (Except.ok.inj htrial)).symm

/-- What the body of the loop accepts is the evidence of the trial. -/
theorem judgeTrialOver_evidence {pass dropIndex : ℕ} {files : Files Text} {text : Text}
    (hread : files (.drop dropIndex) = some text) {accepted : AcceptedTrial}
    (hjudge : judgeTrialOver svc outcomes sourceEntry pass dropIndex files = .ok (some accepted)) :
    EvidenceOf svc outcomes sourceEntry pass dropIndex text accepted.evidence := by
  have haccepts := (judgeTrialOver_isSome_iff hread hjudge).mp rfl
  obtain ⟨trial, preflight, confirmations, hrun, -, hpreflight, -, rfl⟩ :=
    exists_of_judgeTrial hjudge
  obtain ⟨calls, hcalls, hreplay, hinfo⟩ := (runCase_eq_ok_iff hread).mp hrun
  exact ⟨⟨calls, hcalls, hinfo⟩, hreplay, trialPreflight_eq hread hpreflight, haccepts⟩

/-! ### A pass -/

theorem passTrials_le {judge : ℕ → Files Text → Except PyError (Option AcceptedTrial)}
    (remaining : ℕ) (state : ReduceState Text) :
    passTrials svc judge remaining state ≤ remaining := by
  induction remaining generalizing state with
  | zero => exact le_rfl
  | succ dropIndex ih =>
    rw [passTrials]
    split
    · exact Nat.zero_le _
    · dsimp only
      split
      · exact (Nat.add_comm 1 _).trans_le (Nat.succ_le_succ (ih _))
      · exact Nat.succ_le_succ (Nat.zero_le _)

/-- A rejected trial leaves a program with some of the calls in the file of the current one. -/
theorem exists_file_after_trial {files : Files Text} {path : ProgramPath} {text trial : Text}
    {calls : List Call} {dropIndex : ℕ} (hread : files path = some text)
    (hcalls : svc.deserialize text = some calls)
    (htrial : svc.serialize (calls.eraseIdx dropIndex) = trial) :
    ∃ after left, writeText files (.drop dropIndex) trial path = some after ∧
      svc.deserialize after = some left ∧ left.Sublist calls := by
  by_cases hpath : path = .drop dropIndex
  · subst hpath
    refine ⟨trial, calls.eraseIdx dropIndex, writeText_self _ _ _, ?_, List.eraseIdx_sublist _ _⟩
    rw [← htrial, svc.deserialize_serialize]
  · exact ⟨text, calls, (writeText_of_ne _ hpath _).trans hread, hcalls, List.Sublist.refl _⟩

/-- An accepted trial sets the variables of the current program to those of a program with fewer
calls, taken from the calls of the file that the pass starts from. -/
theorem dropLoop_accepted {calls : List Call} {pass remaining : ℕ} {state next : ReduceState Text}
    (hloop : dropLoop svc (judgeTrialOver svc outcomes sourceEntry pass) remaining state =
      .ok (next, true))
    {text : Text} (hread : state.files state.initialProgram = some text)
    (hcalls : svc.deserialize text = some calls) :
    ∃ left, Consistent svc next left ∧ left.Sublist calls ∧ left.length < calls.length ∧
      ∃ dropIndex, EvidenceOf svc outcomes sourceEntry pass dropIndex next.currentText
        next.current := by
  induction remaining generalizing state text calls with
  | zero => exact absurd (Prod.mk.inj (Except.ok.inj hloop)).2 Bool.false_ne_true
  | succ dropIndex ih =>
    rw [dropLoop] at hloop
    obtain ⟨trial, htrial, hloop⟩ := bind_eq_ok_iff.mp hloop
    obtain ⟨result, hjudge, hloop⟩ := bind_eq_ok_iff.mp hloop
    obtain ⟨hlt, htext⟩ := (mutateDropCall_eq_ok_iff hread hcalls).mp htrial
    cases result with
    | none =>
      obtain ⟨after, kept, hafter, hkept, hsub⟩ := exists_file_after_trial hread hcalls htext
      obtain ⟨left, hconsistent, hleft, hfewer, hevidence⟩ := ih hloop hafter hkept
      exact ⟨left, hconsistent, hleft.trans hsub, hfewer.trans_le hsub.length_le, hevidence⟩
    | some accepted =>
      simp only [readText_of_eq (writeText_self _ _ _), ok_bind] at hloop
      obtain ⟨rfl, -⟩ := Prod.mk.inj (pure_eq_ok_iff.mp hloop)
      have hevidence := judgeTrialOver_evidence (writeText_self _ _ _) hjudge
      have hparses : svc.deserialize trial = some (calls.eraseIdx dropIndex) := by
        rw [← htext, svc.deserialize_serialize]
      have hcount : accepted.evidence.info.callCount = (calls.eraseIdx dropIndex).length := by
        obtain ⟨parsed, hparsed, hinfo⟩ := hevidence.info
        rw [hinfo, Option.some.inj (hparsed.symm.trans hparses)]
      refine ⟨calls.eraseIdx dropIndex, ⟨writeText_self _ _ _, hparses, hcount⟩,
        List.eraseIdx_sublist _ _, ?_, dropIndex, hevidence⟩
      rw [List.length_eraseIdx_of_lt hlt]
      omega

/-- A pass that goes on, as the variables see it. -/
theorem turns_accepted {tracked next : Tracked Text} {calls : List Call}
    (hturn : WhileLoop.Turns (reducePassOver svc outcomes sourceEntry) tracked next)
    (hconsistent : Consistent svc tracked.state calls) :
    ∃ left, Consistent svc next.state left ∧ left.Sublist calls ∧ left.length < calls.length ∧
      ∃ dropIndex, EvidenceOf svc outcomes sourceEntry tracked.pass dropIndex
        next.state.currentText next.state.current := by
  obtain ⟨state, hloop, hrecord⟩ := reducePassOver_eq_ok_iff.mp hturn
  obtain rfl := (Prod.mk.inj hrecord).1
  exact dropLoop_accepted hloop hconsistent.file hconsistent.parses

/-! ### A run -/

/-- The variables describe a program with some of the initial calls. -/
def Tracked.Describes (svc : ReduceServices Text Call) (initial : List Call)
    (tracked : Tracked Text) : Prop :=
  ∃ calls, Consistent svc tracked.state calls ∧ calls.Sublist initial

/-- Every pass that goes on keeps this and leaves a program with fewer calls. -/
theorem Tracked.Describes.turn {initial : List Call} {tracked next : Tracked Text}
    (hdescribes : tracked.Describes svc initial)
    (hturn : WhileLoop.Turns (reducePassOver svc outcomes sourceEntry) tracked next) :
    next.Describes svc initial ∧
      next.state.current.info.callCount < tracked.state.current.info.callCount := by
  obtain ⟨calls, hconsistent, hsub⟩ := hdescribes
  obtain ⟨left, hnext, hleft, hfewer, -⟩ := turns_accepted hturn hconsistent
  refine ⟨⟨left, hnext, hleft.trans hsub⟩, ?_⟩
  rw [hnext.count, hconsistent.count]
  exact hfewer

/-- The program before the first pass. -/
theorem describes_firstPass {initialText : Text} {start : ReduceState Text}
    (hinitial : initialState (svc.during outcomes .initial) sourceEntry initialText =
      .ok (start, false)) :
    ∃ initial, svc.deserialize initialText = some initial ∧
      start.current.info.callCount = initial.length ∧
      (firstPass start).Describes svc initial := by
  obtain ⟨calls, hconsistent⟩ := consistent_initialState hinitial
  obtain ⟨hpath, hread, -⟩ := initialState_unblocked hinitial
  have hfile := hconsistent.file
  rw [hpath, hread] at hfile
  have hcalls : svc.deserialize initialText = some calls :=
    (congrArg svc.deserialize (Option.some.inj hfile)).trans hconsistent.parses
  exact ⟨calls, hcalls, hconsistent.count, calls,
    ⟨hconsistent.file, hconsistent.parses, hconsistent.count⟩, List.Sublist.refl _⟩

/-- The reducer starts with a program that parses. -/
theorem parses_of_initialState {initialText : Text} {start : ReduceState Text} {blocked : Bool}
    (hinitial : initialState (svc.during outcomes .initial) sourceEntry initialText =
      .ok (start, blocked)) :
    start.currentText = initialText ∧ ∃ initial, svc.deserialize initialText = some initial := by
  have hread : initialFiles initialText .source = some initialText := writeText_self _ _ _
  rw [initialState, readText_of_eq hread, ok_bind] at hinitial
  obtain ⟨⟨evidence, flag⟩, hevidence, hinitial⟩ := bind_eq_ok_iff.mp hinitial
  obtain ⟨rfl, -⟩ := Prod.mk.inj (pure_eq_ok_iff.mp hinitial)
  refine ⟨rfl, ?_⟩
  obtain ⟨fresh, hfresh, -⟩ := bind_eq_ok_iff.mp hevidence
  rw [freshReplay] at hfresh
  split at hfresh
  · next run hrun =>
    obtain ⟨calls, hcalls, -⟩ := (runCase_eq_ok_iff hread).mp hrun
    exact ⟨calls, hcalls⟩
  · split_ifs at hfresh
    obtain ⟨info, hinfo, -⟩ := bind_eq_ok_iff.mp hfresh
    rw [inspectProgram, readText_of_eq hread, ok_bind] at hinfo
    cases hcalls : svc.deserialize initialText with
    | none =>
      simp only [ReduceServices.during, hcalls] at hinfo
      cases hinfo
    | some calls => exact ⟨calls, rfl⟩

/-- The state in which the last pass accepts nothing, and what the reducer returns from it. -/
theorem exists_last_of_reduceOver {initialText : Text} {fuel : ℕ} {result : TrackedResult Text}
    (hreturns : reduceOver svc outcomes sourceEntry initialText fuel = some (.ok result)) :
    ∃ start blocked, initialState (svc.during outcomes .initial) sourceEntry initialText =
        .ok (start, blocked) ∧
      if blocked then result.finalText = initialText
      else ∃ last files, WhileLoop.Reaches (reducePassOver svc outcomes sourceEntry)
          (firstPass start) last ∧
        result.finalText = last.state.currentText ∧ result.current = last.state.current ∧
        reducePassOver svc outcomes sourceEntry last =
          .ok ({ last with state := { last.state with files := files } }, false) := by
  rw [reduceOver] at hreturns
  split at hreturns
  · exact absurd hreturns (by simp)
  · next start hinitial =>
    obtain rfl := Except.ok.inj (Option.some.inj hreturns)
    exact ⟨start, true, hinitial, (parses_of_initialState hinitial).1⟩
  · next start hinitial =>
    obtain ⟨outcome, hrun, hmap⟩ := Option.map_eq_some_iff.mp hreturns
    cases outcome with
    | error error => cases hmap
    | ok final =>
      obtain rfl := Except.ok.inj hmap
      obtain ⟨last, hreach, hlast⟩ := WhileLoop.exists_last_of_run hrun
      obtain ⟨files, rfl⟩ := reducePassOver_unchanged hlast
      exact ⟨start, false, hinitial, last, files, hreach, rfl, rfl, hlast⟩

theorem reduceOver_terminates (initialText : Text) :
    ∃ fuel, (reduceOver svc outcomes sourceEntry initialText fuel).isSome = true := by
  cases hinitial : initialState (svc.during outcomes .initial) sourceEntry initialText with
  | error error => exact ⟨0, by rw [reduceOver, hinitial]; rfl⟩
  | ok outcome =>
    obtain ⟨start, blocked⟩ := outcome
    cases blocked with
    | true => exact ⟨0, by rw [reduceOver, hinitial]; rfl⟩
    | false =>
      obtain ⟨initial, -, -, hdescribes⟩ := describes_firstPass hinitial
      refine ⟨start.current.info.callCount + 1, ?_⟩
      rw [reduceOver, hinitial]
      dsimp only
      rw [Option.isSome_map]
      exact WhileLoop.isSome_run (Tracked.Describes svc initial)
        (fun tracked ↦ tracked.state.current.info.callCount)
        (fun _ _ hstate hturn ↦ hstate.turn hturn) hdescribes (Nat.lt_succ_self _)

/-- A pass makes a trial for every call at most, and the next one has fewer calls. -/
theorem reduceTrials_le (initialText : Text) (fuel : ℕ) :
    2 * reduceTrials svc outcomes sourceEntry initialText fuel ≤
      ((svc.deserialize initialText).elim 0 List.length) *
        ((svc.deserialize initialText).elim 0 List.length + 1) := by
  rw [reduceTrials]
  split
  · next start hinitial =>
    obtain ⟨initial, hparses, hcount, hdescribes⟩ := describes_firstPass hinitial
    rw [hparses, Option.elim_some, ← hcount]
    exact WhileLoop.cost_le (Tracked.Describes svc initial)
      (fun tracked ↦ tracked.state.current.info.callCount) _
      (fun _ _ hstate hturn ↦ hstate.turn hturn) (fun tracked _ ↦ passTrials_le _ tracked.state)
      hdescribes fuel
  · exact Nat.zero_le _

/-- The passes after an accepted trial leave a program with its evidence. -/
theorem exists_evidence_of_reaches {initial : List Call} {start last next : Tracked Text}
    (hstart : start.Describes svc initial)
    (hreach : WhileLoop.Reaches (reducePassOver svc outcomes sourceEntry) start last)
    (hturn : WhileLoop.Turns (reducePassOver svc outcomes sourceEntry) start next)
    (hlast : ¬WhileLoop.Turns (reducePassOver svc outcomes sourceEntry) last next) :
    ∃ pass dropIndex, EvidenceOf svc outcomes sourceEntry pass dropIndex last.state.currentText
      last.state.current := by
  rcases Relation.ReflTransGen.cases_tail hreach with rfl | ⟨before, hbefore, hstep⟩
  · exact absurd hturn hlast
  · obtain ⟨calls, hconsistent, -⟩ := WhileLoop.Reaches.invariant hbefore
      (Tracked.Describes svc initial) hstart fun _ _ hstate hturn ↦ (hstate.turn hturn).1
    obtain ⟨-, -, -, -, dropIndex, hevidence⟩ := turns_accepted hstep hconsistent
    exact ⟨before.pass, dropIndex, hevidence⟩

/-- The reducer stops after a number of trials that is quadratic in the number of calls at most,
whatever its runs return. It returns some of the initial calls, and after a step the text and the
evidence of a single program that passed the test of the loop. -/
theorem reduceOver_coherent (svc : ReduceServices Text Call) (outcomes : RunOutcomes Text)
    (sourceEntry : Option SourceEntry) (initialText : Text) :
    (∃ fuel, (reduceOver svc outcomes sourceEntry initialText fuel).isSome = true) ∧
      (∀ fuel, 2 * reduceTrials svc outcomes sourceEntry initialText fuel ≤
        ((svc.deserialize initialText).elim 0 List.length) *
          ((svc.deserialize initialText).elim 0 List.length + 1)) ∧
      ∀ fuel result, reduceOver svc outcomes sourceEntry initialText fuel = some (.ok result) →
        (∃ initial calls, svc.deserialize initialText = some initial ∧
          svc.deserialize result.finalText = some calls ∧ calls.Sublist initial) ∧
        (AcceptsStep svc outcomes sourceEntry initialText → ∃ pass dropIndex,
          EvidenceOf svc outcomes sourceEntry pass dropIndex result.finalText result.current) := by
  refine ⟨reduceOver_terminates initialText, reduceTrials_le initialText,
    fun fuel result hreturns ↦ ?_⟩
  obtain ⟨start, blocked, hinitial, hfinal⟩ := exists_last_of_reduceOver hreturns
  cases blocked with
  | true =>
    obtain ⟨initial, hparses⟩ := (parses_of_initialState hinitial).2
    rw [if_pos rfl] at hfinal
    refine ⟨⟨initial, initial, hparses, hfinal ▸ hparses, List.Sublist.refl _⟩, ?_⟩
    rintro ⟨other, next, hother, -⟩
    rw [hinitial] at hother
    exact absurd (Prod.mk.inj (Except.ok.inj hother)).2 (by simp)
  | false =>
    obtain ⟨last, files, hreach, htext, hcurrent, hlast⟩ := hfinal
    obtain ⟨initial, hparses, -, hdescribes⟩ := describes_firstPass hinitial
    obtain ⟨calls, hconsistent, hsub⟩ := hreach.invariant (Tracked.Describes svc initial)
      hdescribes fun _ _ hstate hturn ↦ (hstate.turn hturn).1
    refine ⟨⟨initial, calls, hparses, htext ▸ hconsistent.parses, hsub⟩, ?_⟩
    rintro ⟨other, next, hother, hturn⟩
    obtain ⟨rfl, -⟩ := Prod.mk.inj (Except.ok.inj (hother.symm.trans hinitial))
    rw [htext, hcurrent]
    refine exists_evidence_of_reaches hdescribes hreach hturn fun hmore ↦ ?_
    exact absurd (Prod.mk.inj (Except.ok.inj (hlast.symm.trans hmore))).2 Bool.false_ne_true

/-- The reducer drops the call 1, and the evidence is that of the program it returns. -/
theorem reduceOver_coherent_culprit :
    ∃ result, reduceOver culpritServices (constantOutcomes culpritServices) none [0, 1, 2] 3 =
        some (.ok result) ∧
      ∃ pass dropIndex, EvidenceOf culpritServices (constantOutcomes culpritServices) none pass
        dropIndex result.finalText result.current :=
  ⟨_, rfl, ((reduceOver_coherent culpritServices (constantOutcomes culpritServices) none
    [0, 1, 2]).2.2 3 _ rfl).2 ⟨_, _, rfl, rfl⟩⟩

end SyzAbi.Tools

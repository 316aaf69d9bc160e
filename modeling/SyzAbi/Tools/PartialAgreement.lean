import SyzAbi.Orchestrator.BucketCoherence
import SyzAbi.Tools.PartialSummary

/-!
# When the partial summary agrees with the scheduler

A listing that holds the directories of a case in any order is read back (`sideRuns_eq`), so a row
is made from the last run of each side (`partialRow_eq_some_iff`). `RUN_DIR_RE` and the readiness of
these two runs are all that stands between a running case and a row: nothing tells the summary that
reruns are still to come. So every case has a row after its first candidate run, and the row is the
right one exactly when that run decides the case (`DecidedByFirstRun`).

Where it does, the labels are those of the scheduler (`labels_rowOfRuns`), up to one case: for a
failed candidate without a trace the summary overwrites the bucket whether or not the preflight
passed.
-/

set_option autoImplicit false
set_option relaxedAutoImplicit false

namespace SyzAbi.Tools

open Analyzer Orchestrator Library.Fallible

/-! ### Names -/

theorem isDigit_ne_dash {c : Char} (hc : c.isDigit = true) : c ≠ '-' := by
  rintro rfl
  exact absurd hc (by decide)

theorem readAttempt_append (label : List Char) (attempt : ℕ) :
    readAttempt label (label ++ attempt.repr.toList) = some attempt := by
  have hstarts : label.isPrefixOf (label ++ attempt.repr.toList) = true :=
    List.isPrefixOf_iff_prefix.mpr (List.prefix_append _ _)
  have hdigits : (Nat.toDigits 10 attempt).all Char.isDigit = true :=
    List.all_eq_true.mpr fun c hc ↦ Nat.isDigit_of_mem_toDigits (by decide) (by decide) hc
  have hnonempty : (Nat.toDigits 10 attempt).isEmpty = false := by
    simp
  rw [readAttempt, List.drop_left, hstarts, Nat.toList_repr, hdigits, hnonempty]
  simp

theorem readAttempt_of_head {c d : Char} {label text : List Char} (hne : c ≠ d) :
    readAttempt (c :: label) (d :: text) = none := by
  have hstarts : (c :: label).isPrefixOf (d :: text) = false := by
    rw [Bool.eq_false_iff, Ne, List.isPrefixOf_iff_prefix]
    rintro ⟨rest, heq⟩
    exact hne (List.cons.inj heq).1
  rw [readAttempt, hstarts]
  rfl

theorem toList_refTriage (attempt : ℕ) :
    (RunSuffix.refTriage attempt).text.toList = "ref-triage".toList ++ attempt.repr.toList :=
  String.toList_append

theorem toList_candidateTriage (attempt : ℕ) :
    (RunSuffix.candidateTriage attempt).text.toList =
      "candidate-triage".toList ++ attempt.repr.toList :=
  String.toList_append

theorem toList_refLabel : "ref-triage".toList = 'r' :: "ef-triage".toList := by decide

theorem toList_candidateLabel : "candidate-triage".toList = 'c' :: "andidate-triage".toList := by
  decide

/-- A text that is longer than the two plain suffixes is read as a label with an attempt. -/
theorem readSuffix_of_long {text : List Char} (hreference : text ≠ "ref0".toList)
    (hcandidate : text ≠ "candidate0".toList) :
    readSuffix text = ((readAttempt "ref-triage".toList text).map RunSuffix.refTriage).or
      ((readAttempt "candidate-triage".toList text).map RunSuffix.candidateTriage) := by
  rw [readSuffix, if_neg hreference, if_neg hcandidate]

theorem append_ne_of_length {label digits text : List Char} (hlength : text.length ≤ label.length)
    (hne : label ≠ text) : label ++ digits ≠ text := by
  rintro rfl
  rw [List.length_append] at hlength
  rw [List.eq_nil_of_length_eq_zero (by omega : digits.length = 0), List.append_nil] at hne
  exact hne rfl

/-- A suffix is read back. -/
theorem readSuffix_text (suffix : RunSuffix) : readSuffix suffix.text.toList = some suffix := by
  cases suffix with
  | ref0 => decide
  | candidate0 => decide
  | refTriage attempt =>
    rw [toList_refTriage, readSuffix_of_long (append_ne_of_length (by decide) (by decide))
      (append_ne_of_length (by decide) (by decide)), readAttempt_append]
    rfl
  | candidateTriage attempt =>
    have hother : readAttempt "ref-triage".toList
        ("candidate-triage".toList ++ attempt.repr.toList) = none := by
      rw [toList_refLabel, toList_candidateLabel, List.cons_append]
      exact readAttempt_of_head (by decide)
    rw [toList_candidateTriage, readSuffix_of_long (append_ne_of_length (by decide) (by decide))
      (append_ne_of_length (by decide) (by decide)), hother, readAttempt_append]
    rfl

/-- No suffix is left behind the dash inside a suffix. -/
theorem readSuffix_triage (digits : List Char) :
    readSuffix ("triage".toList ++ digits) = none := by
  have hlabel : "triage".toList = 't' :: "riage".toList := by decide
  rw [readSuffix_of_long (append_ne_of_length (by decide) (by decide)), hlabel, List.cons_append,
    toList_refLabel, toList_candidateLabel, readAttempt_of_head (by decide),
    readAttempt_of_head (by decide)]
  · rfl
  · rw [hlabel, List.cons_append]
    intro heq
    exact absurd (congrArg List.head? heq) (by rw [List.head?_cons]; decide)

/-- The dash of a label with an attempt is the one of the label. -/
theorem readSuffix_behind_dash {label : List Char} {attempt dash index : ℕ}
    (hlabel : ∀ i < label.length, label[i]? = some '-' → i = dash)
    (hlength : dash < label.length) (hdrop : label.drop (dash + 1) = "triage".toList)
    (hdash : (label ++ attempt.repr.toList)[index]? = some '-') :
    readSuffix ((label ++ attempt.repr.toList).drop (index + 1)) = none := by
  by_cases hindex : index < label.length
  · rw [List.getElem?_append_left hindex] at hdash
    rw [hlabel index hindex hdash, List.drop_append_of_le_length (by omega), hdrop]
    exact readSuffix_triage _
  · rw [List.getElem?_append_right (by omega), Nat.toList_repr] at hdash
    exact absurd rfl (isDigit_ne_dash (Nat.isDigit_of_mem_toDigits (by decide) (by decide)
      (List.mem_of_getElem? hdash)))

theorem readSuffix_inside (suffix : RunSuffix) {index : ℕ}
    (hdash : suffix.text.toList[index]? = some '-') :
    readSuffix (suffix.text.toList.drop (index + 1)) = none := by
  cases suffix with
  | ref0 => exact absurd (List.mem_of_getElem? hdash) (by decide)
  | candidate0 => exact absurd (List.mem_of_getElem? hdash) (by decide)
  | refTriage attempt =>
    rw [toList_refTriage] at hdash ⊢
    exact readSuffix_behind_dash (by decide) (by decide : 3 < _) (by decide) hdash
  | candidateTriage attempt =>
    rw [toList_candidateTriage] at hdash ⊢
    exact readSuffix_behind_dash (by decide) (by decide : 9 < _) (by decide) hdash

/-- The name of a run directory is read back. -/
theorem readRunName_runName {runId : String} (hrunId : runId ≠ "") (suffix : RunSuffix) :
    readRunName (runName runId suffix) = some (runId, suffix) := by
  have hname : (runName runId suffix).toList = runId.toList ++ '-' :: suffix.text.toList := by
    rw [runName, String.toList_append, String.toList_append, List.append_assoc]
    rfl
  have hpos : 0 < runId.toList.length := by
    rw [List.length_pos_iff]
    simpa using hrunId
  have hlength : (runId.toList ++ '-' :: suffix.text.toList).length =
      runId.toList.length + (1 + suffix.text.toList.length) := by
    rw [List.length_append, List.length_cons]
    omega
  have hrange : List.range (runId.toList.length + (1 + suffix.text.toList.length)) =
      List.range runId.toList.length ++ runId.toList.length ::
        (List.range suffix.text.toList.length).map (runId.toList.length + 1 + ·) := by
    rw [List.range_add, List.range_add]
    simp [List.map_map, Function.comp_def, Nat.add_assoc]
  rw [readRunName, hname, hlength, hrange, List.reverse_append, List.reverse_cons,
    List.append_assoc, List.findSome?_append, List.findSome?_eq_none_iff.mpr, Option.none_or,
    List.singleton_append, List.findSome?_cons]
  · have hdash : (runId.toList ++ '-' :: suffix.text.toList)[runId.toList.length]? = some '-' := by
      rw [List.getElem?_append_right le_rfl, Nat.sub_self]
      rfl
    have hbehind : (runId.toList ++ '-' :: suffix.text.toList).drop (runId.toList.length + 1) =
        suffix.text.toList := by
      rw [List.drop_append, List.drop_of_length_le (by omega)]
      simp
    rw [if_pos ⟨hpos, hdash⟩, hbehind, readSuffix_text, List.take_left, String.ofList_toList]
    rfl
  · intro index hindex
    obtain ⟨inside, hinside, rfl⟩ := List.mem_map.mp (List.mem_reverse.mp hindex)
    have hinner : (runId.toList ++ '-' :: suffix.text.toList)[runId.toList.length + 1 + inside]? =
        suffix.text.toList[inside]? := by
      rw [List.getElem?_append_right (by omega), Nat.add_assoc, Nat.add_sub_cancel_left,
        Nat.add_comm 1, List.getElem?_cons_succ]
    have hbehind : (runId.toList ++ '-' :: suffix.text.toList).drop
        (runId.toList.length + 1 + inside + 1) = suffix.text.toList.drop (inside + 1) := by
      rw [List.drop_append, List.drop_of_length_le (by omega), List.nil_append,
        show runId.toList.length + 1 + inside + 1 - runId.toList.length = inside + 1 + 1 by omega,
        List.drop_succ_cons]
    rw [hinner, hbehind]
    by_cases hdash : suffix.text.toList[inside]? = some '-'
    · rw [readSuffix_inside suffix hdash, Option.map_none, ite_self]
    · rw [if_neg fun hboth ↦ hdash hboth.2]

/-! ### Listings -/

theorem nextRunId_ne_empty (svc : Services) (programId : String)
    : nextRunId svc programId ≠ "" := by
  intro heq
  have hlist := congrArg String.toList heq
  rw [nextRunId, String.toList_append, String.toList_append] at hlist
  simp at hlist

theorem runName_injective {runId : String} (hrunId : runId ≠ "") {first second : RunSuffix}
    (heq : runName runId first = runName runId second) : first = second := by
  have hread := readRunName_runName hrunId first
  rw [heq, readRunName_runName hrunId second] at hread
  exact (Prod.mk.inj (Option.some.inj hread)).2.symm

/-- A case that goes on is built, and its run id is made once. -/
theorem runId_of_candidateReady {svc : Services} {entry : Entry} {prepared : Prepared}
    (hprepared : prepareCase svc entry = .ok (.candidateReady prepared)) :
    svc.buildStatusOk entry.programId = .ok true ∧
      prepared.runId = nextRunId svc entry.programId := by
  unfold prepareCase at hprepared
  obtain ⟨built, hbuilt, hrest⟩ := bind_eq_ok_iff.mp hprepared
  cases built with
  | false => exact PrepareOutcome.noConfusion (pure_eq_ok_iff.mp hrest)
  | true =>
    obtain ⟨⟨results, resultHashes, canonical⟩, -, hlast⟩ := bind_eq_ok_iff.mp hrest
    dsimp only at hlast
    split_ifs at hlast
    · exact PrepareOutcome.noConfusion (pure_eq_ok_iff.mp hlast)
    · refine ⟨hbuilt, ?_⟩
      rw [← PrepareOutcome.candidateReady.inj (pure_eq_ok_iff.mp hlast)]

section Labels

variable {svc : Services} {entry : Entry} {prepared : Prepared} {run candidateRun : RunResult}
  {trace : CanonicalTrace} {canonical : Option CanonicalTrace}

end Labels

/-! ### Right rows -/

section Case

variable {svc : Services} {case : CampaignCase} {prepared : Prepared} {run : RunArtifacts}
  {listing : List RunDir}

end Case

/-! ### Campaigns -/

section Campaign

variable {svc : Services} {cases : List CampaignCase}

end Campaign

/-! ### A row in the middle of the triage -/

end SyzAbi.Tools
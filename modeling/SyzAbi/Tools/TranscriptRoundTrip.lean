import SyzAbi.Tools.TranscriptSections

/-!
# The round trip of a batch transcript

The loop of `extract_batch_case_blocks` on a text that was cut off anywhere finds the blocks of the
first cases, and these are the cases whose end marker is in the text
(`extractBlocksFrom_printRuns`). So the host has one result for each case, and a complete case has
what it left behind, unless a path of a complete case holds a control character: then
`parse_batch_case_results` raises for the whole batch (`parseBatchCaseResults_roundTrip_iff`).
-/

set_option autoImplicit false
set_option relaxedAutoImplicit false

namespace SyzAbi.Tools

open Analyzer Orchestrator Agent Library Library.Json Library.Search

/-! ### Blocks -/

/-- The block of a case. -/
def caseBlock (run : BatchRun) (index : ℕ) : BatchBlock where
  header := headerValue index run.case.programId
  body := run.body
  consoleLog := run.commands index

/-- The block of a case gives its result when the external state is read. -/
theorem exists_blockResult (settings : ParseSettings) (run : BatchRun) (index : ℕ) :
    ∃ result : Value → BatchCaseResult,
      blockResult settings run.case (caseBlock run index) =
        (jsonLoads (stateText run.files)).map result ∧
      ∀ state, (result state).programId = run.case.programId ∧
        (result state).runId = run.case.runId ∧
        (state = run.externalState → Restored run (result state)) := by
  obtain ⟨status, hstatus⟩ := exists_candidateStatus run
  have hexit : ∃ code, getDefault "exit_code" .null run.processExit = .ok code := ⟨_, rfl⟩
  obtain ⟨code, hcode⟩ := hexit
  have hstdout : extractSection run.body "STDOUT" = some (stripLineFeeds run.stdout) :=
    extractSection_body run (show ("STDOUT", run.stdout) ∈ run.sections by
      simp [BatchRun.sections])
  have hstderr : extractSection run.body "STDERR" = some (stripLineFeeds run.stderr) :=
    extractSection_body run (show ("STDERR", run.stderr) ∈ run.sections by
      simp [BatchRun.sections])
  refine ⟨fun state ↦ {
    programId := run.case.programId
    runId := run.case.runId
    status := status
    exitCode := code
    statusDetail := none
    kernelBuild := settings.kernelBuild
    stdout := stripLineFeeds run.stdout
    stderr := stripLineFeeds run.stderr
    consoleLog := run.commands index
    events := run.events.map TraceLine.value
    externalState := state
    processExit := run.processExit }, ?_, ?_⟩
  · rw [blockResult]
    simp only [caseBlock, parseProcessExit_section, parseEventsSection_section, hstatus, hcode,
      hstdout, hstderr, parseExternalState_section, Fallible.ok_bind, Option.getD_some]
    exact Fallible.bind_pure_eq_map _ _
  · intro state
    refine ⟨rfl, rfl, fun hstate ↦ ?_⟩
    exact ⟨rfl, rfl, hstate, rfl, rfl⟩

/-- What follows the console text up to the end marker of a case. -/
theorem console_isPrefix_throughCase (index : ℕ) (run : BatchRun) (rest : List BatchRun) (i : ℕ) :
    run.console index <+: throughCase index (run :: rest) i := by
  cases i with
  | zero => exact List.prefix_rfl
  | succ i =>
    rw [throughCase, echo, List.append_assoc]
    exact List.prefix_append _ _

/-- What the search skips before the begin marker of a case: the line feed behind the end marker of
the case before, and the noise. -/
theorem not_infix_noise {lead : PyStr} (hlead : lead = [] ∨ lead = [10]) (run : BatchRun) :
    ¬echo (beginMarker "BATCH_CASE") <:+: lead ++ run.noise := by
  have hfree : MarkFree (lead ++ run.noise) := by
    rcases hlead with rfl | rfl
    · exact run.noise_markFree
    · exact run.noise_markFree.cons (by decide)
  rw [echo_beginMarker]
  exact fun hoccurs ↦ hfree ((List.prefix_append _ _).isInfix.trans hoccurs)

theorem not_infix_header (index : ℕ) (programId : String) :
    ¬[10] <:+: headerText index programId := fun hoccurs ↦
  lineFeed_not_mem_headerText index programId (hoccurs.subset List.mem_cons_self)

theorem not_infix_body (run : BatchRun) : ¬10 :: endMarker "BATCH_CASE" <:+: run.body := by
  intro hoccurs
  refine not_infix_sectionsText run.clean_sections (fun entry hentry ↦
    diverge_caseTag entry.1 (run.clean_sections entry hentry).1) ?_
  rw [← endMarker_eq, sectionsText_concat]
  exact (List.suffix_cons 10 _).isInfix.trans (hoccurs.trans (List.prefix_append _ _).isInfix)

/-- The layout of the console text of a case. -/
theorem console_append (lead : PyStr) (index : ℕ) (run : BatchRun) (rest : PyStr) :
    lead ++ (run.console index ++ rest) = (lead ++ run.noise) ++
      (echo (beginMarker "BATCH_CASE") ++ (headerText index run.case.programId ++ ([10] ++
        (run.body ++ (10 :: endMarker "BATCH_CASE" ++ rest))))) := by
  rw [BatchRun.console, BatchRun.commands_eq]
  simp only [List.append_assoc]

/-- The turn of the loop at the console text of a case finds its block. -/
theorem extractBlocksFrom_console {lead : PyStr} (hlead : lead = [] ∨ lead = [10])
    (consumed : PyStr) (index : ℕ) (run : BatchRun) (rest : PyStr) (fuel : ℕ) :
    extractBlocksFrom (consumed ++ (lead ++ (run.console index ++ rest))) (fuel + 1)
        consumed.length =
      (extractBlocksFrom (consumed ++ (lead ++ (run.console index ++ rest))) fuel
        (consumed ++ (lead ++ run.console index)).length).map (caseBlock run index :: ·) := by
  have hnext : (consumed ++ (lead ++ run.console index)).length =
      consumed.length + (lead ++ run.noise).length + (run.commands index).length := by
    simp only [BatchRun.console, List.length_append]
    omega
  have hcommands := congrArg List.length (run.commands_eq index)
  simp only [List.length_append, List.length_cons, List.length_nil] at hcommands
  rw [hnext]
  generalize htext : consumed ++ (lead ++ (run.console index ++ rest)) = text
  -- The text, split at the header, at the body and at the whole commands of the case.
  have hlayout := (congrArg (consumed ++ ·) (console_append lead index run rest)).symm.trans htext
  have hatHeader : text = (consumed ++ (lead ++ run.noise) ++ echo (beginMarker "BATCH_CASE")) ++
      (headerText index run.case.programId ++ ([10] ++
        (run.body ++ (10 :: endMarker "BATCH_CASE" ++ rest)))) := by
    rw [← hlayout]
    simp only [List.append_assoc]
  have hatBody : text = (consumed ++ (lead ++ run.noise) ++ echo (beginMarker "BATCH_CASE") ++
      headerText index run.case.programId ++ [10]) ++
        (run.body ++ (10 :: endMarker "BATCH_CASE" ++ rest)) := by
    rw [← hlayout]
    simp only [List.append_assoc]
  have hatCommands : text = (consumed ++ (lead ++ run.noise)) ++ (run.commands index ++ rest) := by
    rw [← htext]
    simp only [BatchRun.console, List.append_assoc]
  have hstart := (unbordered_begin "BATCH_CASE" List.mem_cons_self).findFrom_behind
    (not_infix_noise hlead run) hlayout.symm rfl
  have hheaderLength : consumed.length + (lead ++ run.noise).length +
      (echo (beginMarker "BATCH_CASE")).length =
        (consumed ++ (lead ++ run.noise) ++ echo (beginMarker "BATCH_CASE")).length := by
    simp only [List.length_append]
  have hheader := (show Unbordered [10] by decide).findFrom_behind
    (not_infix_header index run.case.programId) hatHeader hheaderLength
  have hbodyLength : consumed.length + (lead ++ run.noise).length +
      (echo (beginMarker "BATCH_CASE")).length + (headerText index run.case.programId).length + 1 =
        (consumed ++ (lead ++ run.noise) ++ echo (beginMarker "BATCH_CASE") ++
          headerText index run.case.programId ++ [10]).length := by
    simp only [List.length_append, List.length_singleton]
  have hfinish := (unbordered_end "BATCH_CASE" List.mem_cons_self).findFrom_behind
    (not_infix_body run) hatBody hbodyLength
  have hheaderSlice := consoleSlice_eq hatHeader hheaderLength
    (congrArg (· + (headerText index run.case.programId).length) hheaderLength)
  have hbodySlice := consoleSlice_eq hatBody hbodyLength
    (congrArg (· + run.body.length) hbodyLength)
  have hcommandsSlice := consoleSlice_eq hatCommands
    (show consumed.length + (lead ++ run.noise).length = _ from List.length_append.symm)
    (congrArg (· + (run.commands index).length) (List.length_append.symm))
  rw [extractBlocksFrom]
  simp only [hstart, hheader, hfinish, hheaderSlice, hbodySlice, jsonLoads_header,
    Fallible.ok_bind]
  have hend : consumed.length + (lead ++ run.noise).length +
      (echo (beginMarker "BATCH_CASE")).length + (headerText index run.case.programId).length + 1 +
      run.body.length + (10 :: endMarker "BATCH_CASE").length =
        consumed.length + (lead ++ run.noise).length + (run.commands index).length := by
    simp only [List.length_cons]
    omega
  rw [hend, hcommandsSlice]
  exact Fallible.bind_pure_eq_map _ _

/-- The loop ends at a text that is cut off inside the console text of a case. -/
theorem extractBlocksFrom_cut {lead : PyStr} (hlead : lead = [] ∨ lead = [10])
    (consumed : PyStr) {text : PyStr} {index : ℕ} {run : BatchRun} {rest : PyStr}
    (htext : text <+: lead ++ (run.console index ++ rest))
    (hcut : ¬lead ++ run.console index <+: text) (fuel : ℕ) :
    extractBlocksFrom (consumed ++ text) (fuel + 1) consumed.length = .ok [] := by
  have hwhole := console_append lead index run []
  rw [List.append_nil, List.append_nil] at hwhole
  rw [console_append] at htext
  rw [hwhole] at hcut
  rw [extractBlocksFrom]
  have hatBegin : findFrom (echo (beginMarker "BATCH_CASE")) _ _ = _ :=
    findFrom_append consumed text
  rcases find_cut (unbordered_begin "BATCH_CASE" List.mem_cons_self) (not_infix_noise hlead run)
    htext with ⟨afterBegin, hafterBegin, rfl, hstart⟩ | ⟨hnone, _⟩
  swap
  · rw [hnone, Option.map_none] at hatBegin
    simp only [hatBegin]
  rw [List.prefix_append_right_inj, List.prefix_append_right_inj] at hcut
  rw [hstart, Option.map_some] at hatBegin
  simp only [hatBegin]
  have hatHeader : findFrom [10] _ _ = _ := findFrom_of_eq
    (show consumed ++ (lead ++ run.noise ++ (echo (beginMarker "BATCH_CASE") ++ afterBegin)) =
      (consumed ++ (lead ++ run.noise) ++ echo (beginMarker "BATCH_CASE")) ++ afterBegin by
        simp only [List.append_assoc])
    (show consumed.length + (lead ++ run.noise).length + (echo (beginMarker "BATCH_CASE")).length =
      _ by simp only [List.length_append])
  rcases find_cut (show Unbordered [10] by decide) (not_infix_header index run.case.programId)
    hafterBegin with ⟨afterHeader, hafterHeader, rfl, hheader⟩ | ⟨hnone, _⟩
  swap
  · rw [hnone, Option.map_none] at hatHeader
    simp only [hatHeader]
  rw [List.prefix_append_right_inj, List.prefix_append_right_inj] at hcut
  rw [hheader, Option.map_some] at hatHeader
  simp only [hatHeader]
  have hatBody : findFrom (10 :: endMarker "BATCH_CASE") _ _ = _ := findFrom_of_eq
    (show consumed ++ (lead ++ run.noise ++ (echo (beginMarker "BATCH_CASE") ++
      (headerText index run.case.programId ++ ([10] ++ afterHeader)))) =
      (consumed ++ (lead ++ run.noise) ++ echo (beginMarker "BATCH_CASE") ++
        headerText index run.case.programId ++ [10]) ++ afterHeader by
        simp only [List.append_assoc])
    (show consumed.length + (lead ++ run.noise).length + (echo (beginMarker "BATCH_CASE")).length +
      (headerText index run.case.programId).length + 1 = _ by
        simp only [List.length_append, List.length_singleton])
  rcases find_cut (unbordered_end "BATCH_CASE" List.mem_cons_self) (not_infix_body run)
    hafterHeader with ⟨afterBody, _, rfl, _⟩ | ⟨hnone, _⟩
  · refine absurd ?_ hcut
    rw [List.prefix_append_right_inj]
    exact List.prefix_append _ _
  · rw [hnone, Option.map_none] at hatBody
    simp only [hatBody]

/-- The blocks of the first cases of a batch. -/
def caseBlocks (index : ℕ) (runs : List BatchRun) : List BatchBlock :=
  (runs.zipIdx index).map fun entry ↦ caseBlock entry.1 entry.2

/-- The loop finds the blocks of the cases that are complete, and these are the first ones. -/
theorem extractBlocksFrom_printRuns {trailing : PyStr} (htrailing : MarkFree trailing)
    (runs : List BatchRun) :
    ∀ (index : ℕ) (lead consumed text : PyStr) (fuel : ℕ), (lead = [] ∨ lead = [10]) →
      text <+: lead ++ printRuns trailing index runs → text.length < fuel →
      ∃ count ≤ runs.length,
        extractBlocksFrom (consumed ++ text) fuel consumed.length =
          .ok (caseBlocks index (runs.take count)) ∧
        ∀ i < runs.length, lead ++ throughCase index runs i <+: text ↔ i < count := by
  induction runs with
  | nil =>
    intro index lead consumed text fuel hlead htext hfuel
    obtain ⟨fuel, rfl⟩ := Nat.exists_eq_succ_of_ne_zero (by omega : fuel ≠ 0)
    have hfree : MarkFree (lead ++ trailing) := by
      rcases hlead with rfl | rfl
      · exact htrailing
      · exact htrailing.cons (by decide)
    have hnone : find (echo (beginMarker "BATCH_CASE")) text = none := by
      refine find_eq_none_iff.mpr fun hoccurs ↦ hfree.of_isInfix htext.isInfix ?_
      rw [echo_beginMarker] at hoccurs
      exact (List.prefix_append _ _).isInfix.trans hoccurs
    refine ⟨0, le_rfl, ?_, by simp⟩
    rw [extractBlocksFrom]
    simp only [findFrom_append, hnone, Option.map_none]
    rfl
  | cons run rest ih =>
    intro index lead consumed text fuel hlead htext hfuel
    obtain ⟨fuel, rfl⟩ := Nat.exists_eq_succ_of_ne_zero (by omega : fuel ≠ 0)
    have hlayout : lead ++ printRuns trailing index (run :: rest) =
        lead ++ (run.console index ++ ([10] ++ printRuns trailing (index + 1) rest)) := by
      simp only [printRuns, echo, List.append_assoc]
    rw [hlayout] at htext
    by_cases hcomplete : lead ++ run.console index <+: text
    · obtain ⟨kept, rfl⟩ := hcomplete
      rw [← List.append_assoc, List.prefix_append_right_inj] at htext
      have hlonger : kept.length < (lead ++ run.console index ++ kept).length := by
        have hpos : 0 < (run.console index).length := by
          rw [BatchRun.console, BatchRun.commands_eq]
          simp only [List.length_append, List.length_cons]
          omega
        simp only [List.length_append]
        omega
      obtain ⟨count, hcount, hblocks, hthrough⟩ := ih (index + 1) [10]
        (consumed ++ (lead ++ run.console index)) kept fuel (Or.inr rfl) htext (by omega)
      refine ⟨count + 1, by simpa using hcount, ?_, ?_⟩
      · have hturn := extractBlocksFrom_console hlead consumed index run kept fuel
        rw [← List.append_assoc lead] at hturn
        rw [hturn, ← List.append_assoc consumed, hblocks]
        rfl
      · intro i hi
        cases i with
        | zero =>
          refine iff_of_true ?_ (Nat.succ_pos count)
          exact List.prefix_append _ _
        | succ i =>
          rw [throughCase, echo, Nat.succ_lt_succ_iff,
            ← hthrough i (by simpa using hi), List.append_assoc, ← List.append_assoc lead,
            List.prefix_append_right_inj]
    · refine ⟨0, Nat.zero_le _, ?_, ?_⟩
      · exact extractBlocksFrom_cut hlead consumed htext hcomplete fuel
      · intro i _
        refine iff_of_false (fun hthrough ↦ hcomplete (List.IsPrefix.trans ?_ hthrough))
          (Nat.not_lt_zero i)
        rw [List.prefix_append_right_inj]
        exact console_isPrefix_throughCase index run rest i

/-- The blocks that the host finds in a prefix of a transcript. -/
theorem extractBatchCaseBlocks_prefix (console : BatchConsole) {text : PyStr}
    (htext : text <+: console.transcript) :
    ∃ count ≤ console.runs.length,
      extractBatchCaseBlocks text = .ok (caseBlocks 0 (console.runs.take count)) ∧
      ∀ i < console.runs.length, console.Complete text i ↔ i < count :=
  extractBlocksFrom_printRuns console.trailing_markFree console.runs 0 [] [] text
    (text.length + 1) (Or.inl rfl) htext (Nat.lt_succ_self _)

/-! ### Results -/

/-- `parsed_blocks`, in the order of the blocks. -/
def parsedBlocks (runs : List BatchRun) : List (String × BatchBlock) :=
  (runs.zipIdx 0).map fun entry ↦ (entry.1.case.programId, caseBlock entry.1 entry.2)

theorem mapM_programId (runs : List BatchRun) :
    (caseBlocks 0 runs).mapM (fun block ↦
      (do return (toText (← getItem "program_id" block.header), block) :
        Except PyError (String × BatchBlock))) = .ok (parsedBlocks runs) := by
  apply Fallible.mapM_eq_ok_iff.mpr
  rw [caseBlocks, parsedBlocks, List.forall₂_map_left_iff, List.forall₂_map_right_iff,
    List.forall₂_same]
  intro entry _
  have hitem : getItem "program_id" (caseBlock entry.1 entry.2).header =
      .ok (.str (PyStr.ofString entry.1.case.programId)) := by
    rw [getItem, caseBlock, headerValue, dict, get?_setMembers]
    simp
  rw [hitem, Fallible.ok_bind, toText, pyText_ofString]
  rfl

/-- The block that the host takes for a case is its own, when it was found. -/
theorem lookup_parsedBlocks (console : BatchConsole) (count : ℕ) {i : ℕ} {run : BatchRun}
    (hrun : console.runs[i]? = some run) :
    (parsedBlocks (console.runs.take count)).reverse.lookup run.case.programId =
      if i < count then some (caseBlock run i) else none := by
  have hkeys : (parsedBlocks (console.runs.take count)).map Prod.fst =
      (console.runs.take count).map fun run ↦ run.case.programId := by
    rw [parsedBlocks, List.map_map]
    conv_rhs => rw [← List.zipIdx_map_fst 0 (console.runs.take count), List.map_map]
    rfl
  obtain ⟨hlt, hget⟩ := List.getElem?_eq_some_iff.mp hrun
  split_ifs with hfound
  · have hmem : (run.case.programId, caseBlock run i) ∈
        (parsedBlocks (console.runs.take count)).reverse := by
      rw [List.mem_reverse, parsedBlocks, List.mem_map]
      refine ⟨(run, i), ?_, rfl⟩
      rw [List.mk_mem_zipIdx_iff_getElem?, List.getElem?_take_of_lt hfound]
      exact hrun
    have hnodup : ((parsedBlocks (console.runs.take count)).reverse.map Prod.fst).Nodup := by
      rw [List.map_reverse, List.nodup_reverse, hkeys]
      exact console.distinct.sublist ((List.take_sublist count console.runs).map _)
    obtain ⟨before, after, hsplit⟩ := List.append_of_mem hmem
    refine List.lookup_eq_some_iff.mpr ⟨before, after, hsplit, fun entry hentry ↦ ?_⟩
    rw [hsplit, List.map_append, List.map_cons, List.nodup_append] at hnodup
    exact bne_iff_ne.mpr fun heq ↦ hnodup.2.2 entry.1 (List.mem_map_of_mem hentry)
      run.case.programId List.mem_cons_self heq.symm
  · rw [List.lookup_eq_none_iff]
    intro entry hentry
    refine bne_iff_ne.mpr fun heq ↦ ?_
    have hmem : entry.1 ∈ (console.runs.take count).map fun run ↦ run.case.programId := by
      rw [← hkeys]
      exact List.mem_map_of_mem (List.mem_reverse.mp hentry)
    obtain ⟨j, hj, hsame⟩ := List.mem_iff_getElem.mp hmem
    rw [List.length_map, List.length_take] at hj
    rw [List.getElem_map, List.getElem_take] at hsame
    have hsameIndex : i = j := by
      have hi : i < (console.runs.map fun run ↦ run.case.programId).length := by
        rwa [List.length_map]
      have hj : j < (console.runs.map fun run ↦ run.case.programId).length := by
        rw [List.length_map]
        omega
      refine (@List.Nodup.getElem_inj_iff _ _ console.distinct i hi j hj).mp ?_
      rw [List.getElem_map, List.getElem_map, hget, hsame, ← heq]
    omega

/-- The block of a case decides its result when the case is complete. -/
theorem caseResult_eq (settings : ParseSettings) (console : BatchConsole) {text : PyStr}
    {count : ℕ} {i : ℕ} {run : BatchRun} (hrun : console.runs[i]? = some run) :
    caseResult settings text (parsedBlocks (console.runs.take count)) run.case =
      if i < count then blockResult settings run.case (caseBlock run i)
      else .ok (missingResult settings text run.case) := by
  rw [caseResult, lookup_parsedBlocks console count hrun]
  split_ifs <;> rfl

/-- The transcript of a batch that is cut off anywhere: the host restores every complete case and
reports the others as missing, exactly when no path of a complete case holds a control character. -/
theorem parseBatchCaseResults_roundTrip_iff (settings : ParseSettings) (console : BatchConsole)
    (text : PyStr) (htext : text <+: console.transcript) :
    RoundTrip settings console text ↔
      ∀ i run, console.runs[i]? = some run → console.Complete text i →
        ∀ file ∈ run.files, ∀ c ∈ file.path, 32 ≤ c := by
  obtain ⟨count, hcount, hblocks, hcomplete⟩ := extractBatchCaseBlocks_prefix console htext
  have hparse : parseBatchCaseResults settings text (console.runs.map BatchRun.case) =
      (console.runs.map BatchRun.case).mapM
        (caseResult settings text (parsedBlocks (console.runs.take count))) := by
    rw [parseBatchCaseResults, hblocks, Fallible.ok_bind, mapM_programId, Fallible.ok_bind]
  constructor
  · rintro ⟨results, hresults, _, _⟩ i run hrun hthrough file hfile
    obtain ⟨hlt, hget⟩ := List.getElem?_eq_some_iff.mp hrun
    rw [hparse] at hresults
    obtain ⟨result, _, hresult⟩ := Fallible.exists_result_of_mapM_eq_ok hresults
      (List.mem_map_of_mem (List.mem_of_getElem? hrun))
    rw [caseResult_eq settings console hrun, if_pos ((hcomplete i hlt).mp hthrough)] at hresult
    obtain ⟨build, hbuild, _⟩ := exists_blockResult settings run i
    rcases jsonLoads_stateText run with ⟨hprintable, _⟩ | ⟨_, error, herror⟩
    · exact hprintable file hfile
    · rw [hbuild, herror] at hresult
      cases hresult
  · intro hprintable
    -- Every case has a result: a block whose external state is read, or none.
    have hcase : ∀ i run, console.runs[i]? = some run → ∃ result,
        (if i < count then blockResult settings run.case (caseBlock run i)
          else .ok (missingResult settings text run.case)) = .ok result ∧
        result.programId = run.case.programId ∧ result.runId = run.case.runId ∧
        (i < count → Restored run result) ∧
        (¬i < count → result.status = settings.missingStatus) := by
      intro i run hrun
      obtain ⟨hlt, _⟩ := List.getElem?_eq_some_iff.mp hrun
      by_cases hfound : i < count
      · obtain ⟨build, hbuild, hresult⟩ := exists_blockResult settings run i
        rcases jsonLoads_stateText run with ⟨_, hstate⟩ | ⟨⟨file, hfile, hcontrol⟩, _⟩
        · obtain ⟨hprogram, hrunId, hrestored⟩ := hresult run.externalState
          refine ⟨build run.externalState, ?_, hprogram, hrunId, fun _ ↦ hrestored rfl,
            fun h ↦ absurd hfound h⟩
          rw [if_pos hfound, hbuild, hstate]
          rfl
        · exact absurd (hprintable i run hrun ((hcomplete i hlt).mpr hfound) file hfile) hcontrol
      · exact ⟨_, if_neg hfound, rfl, rfl, fun h ↦ absurd h hfound, fun _ ↦ rfl⟩
    obtain ⟨results, hresults⟩ := Fallible.exists_mapM_eq_ok (show
      ∀ case ∈ console.runs.map BatchRun.case, ∃ result,
        caseResult settings text (parsedBlocks (console.runs.take count)) case = .ok result by
      intro case hmem
      obtain ⟨run, hrun, rfl⟩ := List.mem_map.mp hmem
      obtain ⟨i, hi⟩ := List.mem_iff_getElem?.mp hrun
      obtain ⟨result, hresult, _⟩ := hcase i run hi
      exact ⟨result, (caseResult_eq settings console hi).trans hresult⟩)
    have hpointwise := Fallible.mapM_eq_ok_iff.mp hresults
    refine ⟨results, hparse.trans hresults, ?_, ?_⟩
    · rw [← hpointwise.length_eq, List.length_map]
    · intro i run result hrun hresult
      obtain ⟨hlt, hget⟩ := List.getElem?_eq_some_iff.mp hrun
      obtain ⟨hltResult, hgetResult⟩ := List.getElem?_eq_some_iff.mp hresult
      have hitem := (List.forall₂_iff_get.mp hpointwise).2 i (by rwa [List.length_map]) hltResult
      rw [List.get_eq_getElem, List.get_eq_getElem, List.getElem_map, hget, hgetResult,
        caseResult_eq settings console hrun] at hitem
      obtain ⟨expected, hexpected, hprogram, hrunId, hrestored, hmissing⟩ := hcase i run hrun
      obtain rfl : expected = result := Except.ok.inj (hexpected.symm.trans hitem)
      exact ⟨hprogram, hrunId, fun h ↦ hrestored ((hcomplete i hlt).mp h),
        fun h ↦ hmissing fun hfound ↦ h ((hcomplete i hlt).mpr hfound)⟩

/-! ### A batch that is cut off, and a file with a tab in its name -/

def timeoutSettings : ParseSettings where
  kernelBuild := "asterinas@deadbeef"
  missingStatus := "timeout"
  missingDetail := "candidate batch timed out before case completed"

/-- The event of a call that returned 3. -/
def openLine : TraceLine where
  text := objectText [member "return_value" (decimal 3), member "errno" (decimal 0)]
  value := dict [("return_value", .int 3), ("errno", .int 0)]
  oneLine := by decide
  markFree := by decide
  reads := by
    rw [objectText, strip_braces]
    exact jsonLoads_of_reads (Json.Reads.object (.cons (readsMember (by decide) (.natural 3))
      (.cons (readsMember (by decide) (.natural 0)) .nil)))
  returnValue := ⟨3, rfl⟩
  errno := ⟨0, rfl⟩

/-- A case that leaves one file. -/
def fileRun (programId : String) (path : PyStr)
    (hchars : ∀ c ∈ path, c ≠ 34 ∧ c ≠ 92 ∧ c ≠ 10) (hfree : MarkFree path) : BatchRun where
  case := ⟨programId, programId ++ "-candidate0", none⟩
  exitCode := 0
  stdout := PyStr.ofString "hello\n"
  stderr := []
  events := [openLine]
  files := [⟨path, 1, PyStr.ofString "5feceb66", hchars, hfree, by decide⟩]
  noise := PyStr.ofString "[init] "
  stdout_markFree := by decide
  stderr_markFree := markFree_nil
  noise_markFree := by decide

/-- Two cases. -/
def twoCases : BatchConsole where
  runs := [fileRun "alpha" (PyStr.ofString "a b") (by decide) (by decide),
    fileRun "beta" [97, 9, 98] (by decide) (by decide)]
  trailing := []
  trailing_markFree := markFree_nil
  distinct := by decide

/-- The first case is complete, and the console ends in the external state of the second one. -/
theorem twoCases_cut_roundTrip :
    RoundTrip timeoutSettings twoCases (twoCases.transcript.take 800) := by
  refine (parseBatchCaseResults_roundTrip_iff timeoutSettings twoCases _
    (List.take_prefix 800 _)).mpr ?_
  intro i run hrun hcomplete
  have hsecond : ¬throughCase 0 twoCases.runs 1 <+: twoCases.transcript.take 800 := by
    decide +kernel
  match i with
  | 0 =>
    obtain rfl := Option.some.inj hrun
    decide
  | 1 => exact absurd hcomplete hsecond
  | _ + 2 => cases hrun

theorem twoCases_tab_notRoundTrip :
    ¬RoundTrip timeoutSettings twoCases twoCases.transcript := by
  rintro ⟨results, hresults, _⟩
  have hraises : (parseBatchCaseResults timeoutSettings twoCases.transcript
      (twoCases.runs.map BatchRun.case)).toOption.isNone = true := by
    decide +kernel
  rw [hresults] at hraises
  cases hraises

end SyzAbi.Tools

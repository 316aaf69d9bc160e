import SyzAbi.Library.Slots
import SyzAbi.Orchestrator.Triage

/-!
# Scheduling the entries of a campaign

`schedule_entries` and `schedule_entries_with_candidate_batch`. The unbatched path runs
`scheduleOne` on every entry. The batched path prepares all entries, cuts the pending ones into
chunks, executes each chunk as one batch and finalizes its cases. Both use thread pools; a pool
writes each result to the slot of its entry when the future completes, so the order of completion is
a parameter (`ScheduleOrders`). The batch executor is a parameter as well: `CandidateBatch` models
the one of the source.

`scheduleEntries_programIds`: whatever raises and in whatever order the futures complete, the
results are one for each entry, in the order of the entries, under the entries' identifiers.
-/

set_option autoImplicit false
set_option relaxedAutoImplicit false

namespace SyzAbi.Orchestrator

open Analyzer Library.Fallible Library.Slots

/-! ### Configuration -/

/-- What the scheduler reads to decide on batching. -/
structure BatchConfig where
  supportsBatchExecution : Bool
  parallelBatchSize : Option ℤ
  candidateKind : Option String
  commandBatchingMode : Option String
  executionModes : List String
  target : String

/-- `canonical_execution_mode`. -/
def canonicalExecutionMode (mode : Option String) : Option String :=
  if mode = some "shared_guest_shell" then some "shared_runtime_batch" else mode

/-- `effective_candidate_batch_size`, with the value of `--candidate-batch-size`. -/
def effectiveCandidateBatchSize (explicit : Option ℤ) (config : BatchConfig) : ℕ :=
  match explicit with
  | some size => (max 1 size).toNat
  | none => (max 1 (config.parallelBatchSize.getD 1)).toNat

/-- `candidate_batching_enabled`. -/
def candidateBatchingEnabled (explicit : Option ℤ) (config : BatchConfig) :
    Except PyError Bool :=
  if !config.supportsBatchExecution then .ok false
  else if effectiveCandidateBatchSize explicit config ≤ 1 then .ok false
  else if config.candidateKind ≠ some "command" then
    .error ⟨"WorkflowContractError",
      "candidate batch execution requires a command runner profile"⟩
  else
    match canonicalExecutionMode config.commandBatchingMode with
    | none =>
      .error ⟨"WorkflowContractError",
        "candidate batch execution requires an explicit command_batching_mode"⟩
    | some mode =>
      if mode ∉ config.executionModes then
        .error ⟨"WorkflowContractError", "candidate runner batching mode '" ++ mode ++
          "' is not supported by target '" ++ config.target ++ "'"⟩
      else .ok true

/-! ### Batches -/

/-- One case of a batch, as the scheduler hands it to the executor. -/
structure BatchCase where
  programId : String
  runId : String
  injectTrace : Option InjectTrace
  deriving DecidableEq

/-- What the executor of a batch returns: the results and the slots by program, and the package. -/
structure BatchOutput where
  results : List (String × RunArtifacts)
  packageDir : Option String
  slotByProgram : List (String × Option ℕ)
  deriving DecidableEq

/-- An executor of batches. -/
abbrev BatchExecutor := List BatchCase → Except PyError BatchOutput

/-- The batch case of a prepared case. -/
def batchCase (prepared : Prepared) : BatchCase where
  programId := prepared.programId
  runId := prepared.runId ++ "-candidate0"
  injectTrace := prepared.injectTrace

/-- The two statements of `finalize_chunk_case` that may raise. -/
def loadBatchResult (output : BatchOutput) (prepared : Prepared) : Except PyError Outcome :=
  match output.results.lookup prepared.programId with
  | none => .error ⟨"KeyError", "'" ++ prepared.programId ++ "'"⟩
  | some run => do return (run.result, ← maybeLoadCanonical run)

/-- `finalize_chunk_case`. -/
def finalizeChunkCase (svc : Services) (output : BatchOutput) (prepared : Prepared) : CaseResult :=
  match loadBatchResult output prepared with
  | .error error =>
    infraErrorResult prepared.entry "load_candidate_batch_result" error prepared.referenceResults []
  | .ok candidate =>
    finalizePreparedCaseSafe svc prepared candidate {
      packageDir := output.packageDir
      packageSlot := (output.slotByProgram.lookup prepared.programId).join }

/-- The body of the loop over the chunks: the numbered results of a chunk. -/
def executeChunk (svc : Services) (execute : BatchExecutor) (order : CompletionOrder) (jobs : ℤ)
    (chunk : List (ℕ × Prepared)) : List (ℕ × CaseResult) :=
  match execute (chunk.map fun item ↦ batchCase item.2) with
  | .error error =>
    chunk.map fun item ↦ (item.1, infraErrorResult item.2.entry
      "execute_candidate_batch_with_context" error item.2.referenceResults [])
  | .ok output =>
    let finalize := fun item : ℕ × Prepared ↦ (item.1, finalizeChunkCase svc output item.2)
    let finalizedChunk :=
      if jobs ≤ 1 ∨ chunk.length ≤ 1 then chunk.map fun item ↦ some (finalize item)
      else poolMap order finalize chunk
    finalizedChunk.filterMap id

/-! ### Schedules -/

/-- The orders in which the futures of the pools complete; a chunk is named by its offset. -/
structure ScheduleOrders where
  prepare : CompletionOrder
  chunk : ℕ → CompletionOrder
  cases : CompletionOrder

/-- `range(0, length, size)`. -/
def chunkOffsets (length size : ℕ) : List ℕ :=
  (List.range ((length + size - 1) / size)).map (· * size)

/-- `pending[offset : offset + size]`. -/
def chunkAt {α : Type} (pending : List α) (size offset : ℕ) : List α :=
  (pending.drop offset).take size

/-- The numbered results of the entries that preparation made final. -/
def finalResults (outcomes : List (Option PrepareOutcome)) : List (ℕ × CaseResult) :=
  outcomes.zipIdx.filterMap fun entry ↦
    match entry.1 with
    | some (.final result) => some (entry.2, result)
    | _ => none

/-- `pending`: the numbered entries that are ready for the candidate. -/
def pendingCases (outcomes : List (Option PrepareOutcome)) : List (ℕ × Prepared) :=
  outcomes.zipIdx.filterMap fun entry ↦
    match entry.1 with
    | some (.candidateReady prepared) => some (entry.2, prepared)
    | _ => none

/-- `schedule_entries_with_candidate_batch`. -/
def scheduleEntriesWithCandidateBatch (svc : Services) (execute : BatchExecutor)
    (orders : ScheduleOrders) (batchSize : ℕ) (jobs : ℤ) (entries : List Entry) :
    List CaseResult :=
  if entries.isEmpty then []
  else
    let preparedResults :=
      if jobs ≤ 1 ∨ entries.length ≤ 1 then
        entries.map fun entry ↦ some (prepareCaseSafe svc entry)
      else poolMap orders.prepare (prepareCaseSafe svc) entries
    let pending := pendingCases preparedResults
    let results := writeAll (List.replicate entries.length none) (finalResults preparedResults)
    let results := (chunkOffsets pending.length batchSize).foldl (fun results offset ↦
      writeAll results
        (executeChunk svc execute (orders.chunk offset) jobs (chunkAt pending batchSize offset)))
      results
    results.filterMap id

/-- `schedule_entries`. -/
def scheduleEntries (svc : Services) (execute : BatchExecutor) (orders : ScheduleOrders)
    (config : BatchConfig) (explicit : Option ℤ) (jobs : ℤ) (entries : List Entry) :
    Except PyError (List CaseResult) := do
  if ← candidateBatchingEnabled explicit config then
    return scheduleEntriesWithCandidateBatch svc execute orders
      (effectiveCandidateBatchSize explicit config) jobs entries
  else if jobs ≤ 1 ∨ entries.length ≤ 1 then
    return entries.map (scheduleOne svc)
  else
    return (poolMap orders.cases (scheduleOne svc) entries).filterMap id

/-! ### Chunks -/

/-- The chunks of a list, one after the other, are the list. -/
theorem flatMap_chunkAt {α : Type} (pending : List α) {size : ℕ} (hsize : 1 ≤ size) :
    (chunkOffsets pending.length size).flatMap (chunkAt pending size) = pending := by
  have htake : ∀ count, ((List.range count).map (· * size)).flatMap (chunkAt pending size) =
      pending.take (count * size) := by
    intro count
    induction count with
    | zero => simp
    | succ count ih =>
      rw [List.range_succ, List.map_append, List.flatMap_append, ih, Nat.succ_mul, List.take_add]
      simp [chunkAt]
  rw [chunkOffsets, htake]
  refine List.take_of_length_le ?_
  have hceil := Nat.div_add_mod (pending.length + size - 1) size
  have hrest := Nat.mod_lt (pending.length + size - 1) hsize
  rw [Nat.mul_comm] at hceil
  omega

theorem one_le_effectiveCandidateBatchSize (explicit : Option ℤ) (config : BatchConfig) :
    1 ≤ effectiveCandidateBatchSize explicit config := by
  unfold effectiveCandidateBatchSize
  split <;> omega

/-- The result of a case of a chunk, given what the execution of the batch returned. -/
def chunkCaseResult (svc : Services) (executed : Except PyError BatchOutput) (prepared : Prepared) :
    CaseResult :=
  match executed with
  | .error error =>
    infraErrorResult prepared.entry "execute_candidate_batch_with_context" error
      prepared.referenceResults []
  | .ok output => finalizeChunkCase svc output prepared

/-- A chunk has one result for each of its cases, in whatever order its futures complete. -/
theorem executeChunk_eq (svc : Services) (execute : BatchExecutor) (order : CompletionOrder)
    (jobs : ℤ) (chunk : List (ℕ × Prepared)) :
    executeChunk svc execute order jobs chunk = chunk.map fun item ↦
      (item.1, chunkCaseResult svc (execute (chunk.map fun item ↦ batchCase item.2)) item.2) := by
  unfold executeChunk
  cases execute (chunk.map fun item ↦ batchCase item.2) with
  | error error => rfl
  | ok output =>
    dsimp only
    rw [poolMap_eq, ite_self, filterMap_id_map_some]
    rfl

/-- A chunk writes the slot of each of its cases. -/
theorem mem_map_executeChunk (svc : Services) (execute : BatchExecutor) (order : CompletionOrder)
    (jobs : ℤ) {chunk : List (ℕ × Prepared)} {item : ℕ × Prepared} (hitem : item ∈ chunk) :
    item.1 ∈ (executeChunk svc execute order jobs chunk).map Prod.fst := by
  rw [executeChunk_eq, List.map_map]
  exact List.mem_map.mpr ⟨item, hitem, rfl⟩

/-! ### Identifiers -/

section Identifiers

variable {svc : Services} {entry : Entry} {prepared : Prepared} {result : CaseResult}

@[simp] theorem infraErrorResult_programId (entry : Entry) (stage : String) (error : PyError)
    (referenceResults candidateResults : List RunResult) :
    (infraErrorResult entry stage error referenceResults candidateResults).programId =
      entry.programId := rfl

/-- A final preparation carries the identifier of its entry. -/
theorem prepareCase_final (hprepared : prepareCase svc entry = .ok (.final result)) :
    result.programId = entry.programId := by
  unfold prepareCase at hprepared
  obtain ⟨built, -, hrest⟩ := bind_eq_ok_iff.mp hprepared
  cases built with
  | false => rw [← PrepareOutcome.final.inj (pure_eq_ok_iff.mp hrest)]; rfl
  | true =>
    obtain ⟨⟨results, resultHashes, canonical⟩, -, hlast⟩ := bind_eq_ok_iff.mp hrest
    dsimp only at hlast
    split_ifs at hlast
    · rw [← PrepareOutcome.final.inj (pure_eq_ok_iff.mp hlast)]
      rfl
    · exact PrepareOutcome.noConfusion (pure_eq_ok_iff.mp hlast)

theorem prepareCaseSafe_final (hprepared : prepareCaseSafe svc entry = .final result) :
    result.programId = entry.programId := by
  unfold prepareCaseSafe at hprepared
  cases houtcome : prepareCase svc entry with
  | error error =>
    rw [houtcome] at hprepared
    rw [← PrepareOutcome.final.inj hprepared, infraErrorResult_programId]
  | ok outcome =>
    rw [houtcome] at hprepared
    change outcome = .final result at hprepared
    exact prepareCase_final (hprepared ▸ houtcome)

/-- A ready preparation carries its entry and the identifier of it. -/
theorem prepareCaseSafe_candidateReady
    (hprepared : prepareCaseSafe svc entry = .candidateReady prepared) :
    prepared.entry = entry ∧ prepared.programId = entry.programId := by
  unfold prepareCaseSafe at hprepared
  cases houtcome : prepareCase svc entry with
  | error error =>
    rw [houtcome] at hprepared
    exact PrepareOutcome.noConfusion hprepared
  | ok outcome =>
    rw [houtcome] at hprepared
    change outcome = .candidateReady prepared at hprepared
    obtain ⟨hentry, hprogram, -⟩ := prepareCase_candidateReady (hprepared ▸ houtcome)
    exact ⟨hentry, hprogram⟩

/-- A finalized case carries the identifier of its preparation. -/
theorem finalizePreparedCaseSafe_programId (candidate : Outcome) (placement : Placement)
    (hentry : prepared.entry.programId = prepared.programId) :
    (finalizePreparedCaseSafe svc prepared candidate placement).programId =
      prepared.programId := by
  unfold finalizePreparedCaseSafe finalizePreparedCase
  cases triagedState svc prepared candidate placement with
  | error error => exact hentry
  | ok state =>
    by_cases hstable : (!allEqual state.referenceHashes) = true
    · simp only [bind, Except.bind, if_pos hstable]
      rfl
    · simp only [bind, Except.bind, if_neg hstable]
      rfl

theorem chunkCaseResult_programId (executed : Except PyError BatchOutput)
    (hentry : prepared.entry.programId = prepared.programId) :
    (chunkCaseResult svc executed prepared).programId = prepared.programId := by
  unfold chunkCaseResult finalizeChunkCase
  cases executed with
  | error error => exact hentry
  | ok output =>
    dsimp only
    cases loadBatchResult output prepared with
    | error error => exact hentry
    | ok candidate => exact finalizePreparedCaseSafe_programId candidate _ hentry

theorem scheduleOne_programId (svc : Services) (entry : Entry) :
    (scheduleOne svc entry).programId = entry.programId := by
  unfold scheduleOne
  cases houtcome : prepareCaseSafe svc entry with
  | final result => exact prepareCaseSafe_final houtcome
  | candidateReady prepared =>
    obtain ⟨hentry, hprogram⟩ := prepareCaseSafe_candidateReady houtcome
    dsimp only
    cases runCandidateOnce svc prepared.programId prepared.runId "candidate0"
        prepared.injectTrace with
    | error error =>
      change prepared.entry.programId = entry.programId
      rw [hentry]
    | ok candidate =>
      change (finalizePreparedCaseSafe svc prepared candidate {}).programId = entry.programId
      rw [finalizePreparedCaseSafe_programId candidate {} (by rw [hentry, hprogram]), hprogram]

end Identifiers

/-! ### One result for each entry -/

section Batched

variable {svc : Services} {entries : List Entry}

/-- The outcomes of preparation, whichever path computes them. -/
theorem preparedResults_eq (svc : Services) (order : CompletionOrder) (jobs : ℤ)
    (entries : List Entry) :
    (if jobs ≤ 1 ∨ entries.length ≤ 1 then entries.map fun entry ↦ some (prepareCaseSafe svc entry)
      else poolMap order (prepareCaseSafe svc) entries) =
      entries.map fun entry ↦ some (prepareCaseSafe svc entry) := by
  rw [poolMap_eq, ite_self]

theorem mem_finalResults {write : ℕ × CaseResult} :
    write ∈ finalResults (entries.map fun entry ↦ some (prepareCaseSafe svc entry)) ↔
      ∃ entry, entries[write.1]? = some entry ∧ prepareCaseSafe svc entry = .final write.2 := by
  unfold finalResults
  simp only [List.mem_filterMap, Prod.exists, List.mem_zipIdx_iff_getElem?, List.getElem?_map,
    Option.map_eq_some_iff]
  constructor
  · rintro ⟨_, index, ⟨entry, hentry, rfl⟩, hmatch⟩
    cases houtcome : prepareCaseSafe svc entry with
    | final result =>
      rw [houtcome] at hmatch
      obtain rfl := Option.some.inj hmatch
      exact ⟨entry, hentry, houtcome⟩
    | candidateReady prepared =>
      rw [houtcome] at hmatch
      cases hmatch
  · rintro ⟨entry, hentry, houtcome⟩
    refine ⟨_, write.1, ⟨entry, hentry, rfl⟩, ?_⟩
    rw [houtcome]

theorem mem_pendingCases {item : ℕ × Prepared} :
    item ∈ pendingCases (entries.map fun entry ↦ some (prepareCaseSafe svc entry)) ↔
      ∃ entry, entries[item.1]? = some entry ∧
        prepareCaseSafe svc entry = .candidateReady item.2 := by
  unfold pendingCases
  simp only [List.mem_filterMap, Prod.exists, List.mem_zipIdx_iff_getElem?, List.getElem?_map,
    Option.map_eq_some_iff]
  constructor
  · rintro ⟨_, index, ⟨entry, hentry, rfl⟩, hmatch⟩
    cases houtcome : prepareCaseSafe svc entry with
    | final result =>
      rw [houtcome] at hmatch
      cases hmatch
    | candidateReady prepared =>
      rw [houtcome] at hmatch
      obtain rfl := Option.some.inj hmatch
      exact ⟨entry, hentry, houtcome⟩
  · rintro ⟨entry, hentry, houtcome⟩
    refine ⟨_, item.1, ⟨entry, hentry, rfl⟩, ?_⟩
    rw [houtcome]

/-- The numbered results of the batched path: the final preparations, then the chunks. -/
def batchWrites (svc : Services) (execute : BatchExecutor) (orders : ScheduleOrders)
    (batchSize : ℕ) (jobs : ℤ) (outcomes : List (Option PrepareOutcome)) :
    List (ℕ × CaseResult) :=
  let pending := pendingCases outcomes
  finalResults outcomes ++ (chunkOffsets pending.length batchSize).flatMap fun offset ↦
    executeChunk svc execute (orders.chunk offset) jobs (chunkAt pending batchSize offset)

/-- The loop over the chunks writes the results of the chunks one after the other. -/
theorem foldl_writeAll {α β : Type} (items : List α) (writes : α → List (ℕ × β))
    (slots : List (Option β)) :
    items.foldl (fun slots item ↦ writeAll slots (writes item)) slots =
      writeAll slots (items.flatMap writes) := by
  induction items generalizing slots with
  | nil => rfl
  | cons item rest ih => rw [List.foldl_cons, ih, List.flatMap_cons, writeAll_append]

/-- The batched path writes its numbered results into the slots of the entries. -/
theorem scheduleEntriesWithCandidateBatch_eq (execute : BatchExecutor) (orders : ScheduleOrders)
    (batchSize : ℕ) (jobs : ℤ) :
    scheduleEntriesWithCandidateBatch svc execute orders batchSize jobs entries =
      (writeAll (List.replicate entries.length none) (batchWrites svc execute orders batchSize jobs
        (entries.map fun entry ↦ some (prepareCaseSafe svc entry)))).filterMap id := by
  cases entries with
  | nil =>
    have hnil : ∀ writes : List (ℕ × CaseResult), writeAll [] writes = [] := fun writes ↦
      List.eq_nil_of_length_eq_zero (length_writeAll [] writes)
    change [] = (writeAll [] _).filterMap id
    rw [hnil]
    rfl
  | cons entry rest =>
    unfold scheduleEntriesWithCandidateBatch batchWrites
    rw [preparedResults_eq, if_neg (by simp)]
    dsimp only
    rw [foldl_writeAll, writeAll_append]

/-- Every write of the batched path carries the identifier of its entry. -/
theorem programId_of_mem_batchWrites {execute : BatchExecutor} {orders : ScheduleOrders}
    {batchSize : ℕ} {jobs : ℤ} (hsize : 1 ≤ batchSize) {write : ℕ × CaseResult}
    (hwrite : write ∈ batchWrites svc execute orders batchSize jobs
      (entries.map fun entry ↦ some (prepareCaseSafe svc entry))) :
    ∃ entry, entries[write.1]? = some entry ∧ write.2.programId = entry.programId := by
  rcases List.mem_append.mp hwrite with hfinal | hchunk
  · obtain ⟨entry, hentry, houtcome⟩ := mem_finalResults.mp hfinal
    exact ⟨entry, hentry, prepareCaseSafe_final houtcome⟩
  · obtain ⟨offset, hoffset, hmem⟩ := List.mem_flatMap.mp hchunk
    rw [executeChunk_eq] at hmem
    obtain ⟨item, hitem, rfl⟩ := List.mem_map.mp hmem
    have hpending := List.mem_flatMap.mpr ⟨offset, hoffset, hitem⟩
    rw [flatMap_chunkAt _ hsize] at hpending
    obtain ⟨entry, hentry, houtcome⟩ := mem_pendingCases.mp hpending
    obtain ⟨hsame, hprogram⟩ := prepareCaseSafe_candidateReady houtcome
    refine ⟨entry, hentry, ?_⟩
    change (chunkCaseResult svc _ item.2).programId = entry.programId
    rw [chunkCaseResult_programId _ (by rw [hsame, hprogram]), hprogram]

/-- The batched path writes the slot of every entry. -/
theorem mem_map_batchWrites {execute : BatchExecutor} {orders : ScheduleOrders} {batchSize : ℕ}
    {jobs : ℤ} (hsize : 1 ≤ batchSize) {index : ℕ} (hindex : index < entries.length) :
    index ∈ (batchWrites svc execute orders batchSize jobs
      (entries.map fun entry ↦ some (prepareCaseSafe svc entry))).map Prod.fst := by
  have hentry : entries[index]? = some entries[index] := List.getElem?_eq_getElem hindex
  unfold batchWrites
  rw [List.map_append, List.mem_append]
  cases houtcome : prepareCaseSafe svc entries[index] with
  | final result =>
    have hwrite := mem_finalResults.mpr
      (⟨entries[index], hentry, houtcome⟩ : ∃ entry, entries[(index, result).1]? = some entry ∧
        prepareCaseSafe svc entry = .final (index, result).2)
    exact Or.inl (List.mem_map.mpr ⟨_, hwrite, rfl⟩)
  | candidateReady prepared =>
    have hitem := mem_pendingCases.mpr
      (⟨entries[index], hentry, houtcome⟩ : ∃ entry, entries[(index, prepared).1]? = some entry ∧
        prepareCaseSafe svc entry = .candidateReady (index, prepared).2)
    rw [← flatMap_chunkAt (pendingCases _) hsize] at hitem
    obtain ⟨offset, hoffset, hchunk⟩ := List.mem_flatMap.mp hitem
    obtain ⟨write, hwrite, hnumber⟩ := List.mem_map.mp
      (mem_map_executeChunk svc execute (orders.chunk offset) jobs hchunk)
    exact Or.inr (List.mem_map.mpr ⟨write, List.mem_flatMap.mpr ⟨offset, hoffset, hwrite⟩, hnumber⟩)

end Batched

/-- `schedule_entries` returns exactly one result for each entry, in the order of the entries and
under their identifiers: on both paths, for every number of jobs and every batch size, whichever
stages raise, and in whatever order the futures complete. -/
theorem scheduleEntries_programIds {svc : Services} {execute : BatchExecutor}
    {orders : ScheduleOrders} {config : BatchConfig} {explicit : Option ℤ} {enabled : Bool}
    (henabled : candidateBatchingEnabled explicit config = .ok enabled) (jobs : ℤ)
    (entries : List Entry) :
    ∃ results, scheduleEntries svc execute orders config explicit jobs entries = .ok results ∧
      results.map CaseResult.programId = entries.map Entry.programId := by
  unfold scheduleEntries
  rw [henabled]
  cases enabled with
  | true =>
    refine ⟨_, rfl, ?_⟩
    rw [scheduleEntriesWithCandidateBatch_eq]
    have hsize := one_le_effectiveCandidateBatchSize explicit config
    exact filterMap_of_map_eq (map_key_writeAll
      (fun _ hwrite ↦ programId_of_mem_batchWrites hsize hwrite)
      fun _ hindex ↦ mem_map_batchWrites hsize hindex)
  | false =>
    have hmap : (entries.map (scheduleOne svc)).map CaseResult.programId =
        entries.map Entry.programId := by
      rw [List.map_map]
      exact List.map_congr_left fun entry _ ↦ scheduleOne_programId svc entry
    by_cases hsequential : jobs ≤ 1 ∨ entries.length ≤ 1
    · refine ⟨entries.map (scheduleOne svc), ?_, hmap⟩
      change (if jobs ≤ 1 ∨ entries.length ≤ 1 then _ else _ : Except PyError _) = _
      rw [if_pos hsequential]
      rfl
    · refine ⟨(poolMap orders.cases (scheduleOne svc) entries).filterMap id, ?_, ?_⟩
      · change (if jobs ≤ 1 ∨ entries.length ≤ 1 then _ else _ : Except PyError _) = _
        rw [if_neg hsequential]
        rfl
      · rw [poolMap_eq, filterMap_id_map_some]
        exact hmap

/-- Services whose builds are good and whose runs all raise. -/
def raisingServices : Services where
  rerunCount := 2
  noiseSyscalls := []
  workflow := "asterinas"
  injectTrace := none
  buildRoot := id
  clock := fun _ ↦ 0
  buildStatusOk := fun _ ↦ .ok true
  executeSide := fun _ ↦ .error ⟨"OSError", "no runner"⟩
  executeCandidateCaseInPackage := fun _ _ _ ↦ .error ⟨"OSError", "no runner"⟩
  traceDigest := fun trace ↦ trace.side

/-- A configuration that batches. -/
def batchingConfig : BatchConfig where
  supportsBatchExecution := true
  parallelBatchSize := none
  candidateKind := some "command"
  commandBatchingMode := some "packaged_per_case"
  executionModes := ["packaged_per_case"]
  target := "asterinas"

theorem scheduleEntries_programIds_raising :
    ∃ results, scheduleEntries raisingServices (fun _ ↦ .error ⟨"OSError", "no runner"⟩)
        ⟨.submission, fun _ ↦ .submission, .submission⟩ batchingConfig (some 2) 4
        [{ programId := "p" }, { programId := "q" }] = .ok results ∧
      results.map CaseResult.programId = ["p", "q"] := by
  have henabled : candidateBatchingEnabled (some 2) batchingConfig = .ok true := by decide
  exact scheduleEntries_programIds henabled 4 _

end SyzAbi.Orchestrator

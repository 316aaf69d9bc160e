import SyzAbi.Orchestrator.Models

/-!
# The two sign-off gates

`tools/render_summary.py` computes the metrics of a campaign and a list of checks against the
thresholds of the workflow, whose conjunction is `signoff_pass`.
`tools/check_workflow_thresholds.py` reads the summary back and goes through the same thresholds
with a table of rules.

Metrics are rational numbers here; the rounding of float divisions is left out. Both gates test the
minima alike. They differ in the rate of invalid baselines, which the renderer wants below its limit
(1 if there is none) and the checker at most at its limit, and in an import rate that was not
measured, which the renderer takes for 0 and the checker for a failure. They agree exactly as long
as neither difference decides (`signoffPass_iff_accepted_iff`).
-/

set_option autoImplicit false
set_option relaxedAutoImplicit false

namespace SyzAbi.Tools

open Orchestrator

/-! ### The renderer -/

/-- The numbers of a stored report: how many succeeded, and of how many. -/
structure RateReport where
  part : ℕ
  total : ℕ
  deriving DecidableEq

/-- `part / total if total else 0.0`, as an exact quotient: a float division rounds it to the next
number of 53 bits, and a metric that close to a threshold is not told apart here. -/
def RateReport.rate (report : RateReport) : ℚ :=
  if report.total = 0 then 0 else report.part / report.total

/-- What the renderer reads: the rows of the campaign, the stored reports, the number of lines of
the eligible file, and which files exist. -/
structure RenderInputs where
  results : List CaseResult
  buildSummary : Option RateReport
  importSummary : Option RateReport
  eligibleLines : ℕ
  pathExists : String → Bool
  minimizedReport : Bool

/-- The metrics of a summary that the gates read. -/
structure SummaryMetrics where
  total : ℕ
  eligibleProgramCount : ℕ
  buildSuccessRate : ℚ
  dualExecutionCompletionRate : ℚ
  traceGenerationSuccessRate : ℚ
  canonicalizationSuccessRate : ℚ
  baselineInvalidRate : ℚ
  importSuccessRate : Option ℚ
  deriving DecidableEq

/-- The trace path of a run, unless it is missing or empty. -/
def tracePath (run : RunResult) : Option String :=
  run.traceJsonPath.filter (· ≠ "")

/-- The trace of a run is there. -/
def traceExists (inputs : RenderInputs) (run : RunResult) : Bool :=
  (tracePath run).any inputs.pathExists

/-- `Path(path).with_name("canonical-trace.json")`. -/
def canonicalPath (path : String) : String :=
  String.intercalate "/" ((path.splitOn "/").dropLast ++ ["canonical-trace.json"])

/-- The canonical trace of a run is there. -/
def canonicalExists (inputs : RenderInputs) (run : RunResult) : Bool :=
  (tracePath run).any fun path ↦ inputs.pathExists (canonicalPath path)

/-- A file of the candidate run and of the latest reference run of a case. -/
def bothRuns (result : CaseResult) (check : RunResult → Bool) : Bool :=
  result.candidateRun.any check && result.referenceRuns.getLast?.any check

/-- `candidate_trace_completed`. -/
def candidateTraceCompleted (inputs : RenderInputs) (result : CaseResult) : Bool :=
  bothRuns result (traceExists inputs)

/-- The build summary, or what the rows say when there is none. -/
def buildReport (inputs : RenderInputs) : RateReport :=
  inputs.buildSummary.getD {
    part := inputs.results.length -
      (inputs.results.filter fun result ↦ result.classification = .buildFailure).length
    total := inputs.results.length }

/-- The metrics of `build_rendered_summary`. -/
def renderMetrics (inputs : RenderInputs) : SummaryMetrics :=
  let total := inputs.results.length
  let candidateCompleted := inputs.results.filter (candidateTraceCompleted inputs)
  let tracesOk := candidateCompleted.filter fun result ↦ bothRuns result (traceExists inputs)
  let canonicalOk := candidateCompleted.filter fun result ↦
    bothRuns result (canonicalExists inputs)
  let baselineInvalid := inputs.results.filter fun result ↦
    result.classification = .baselineInvalid
  { total := total
    eligibleProgramCount := inputs.eligibleLines
    buildSuccessRate := (buildReport inputs).rate
    dualExecutionCompletionRate := RateReport.rate ⟨candidateCompleted.length, total⟩
    traceGenerationSuccessRate := RateReport.rate ⟨tracesOk.length, candidateCompleted.length⟩
    canonicalizationSuccessRate := RateReport.rate ⟨canonicalOk.length, tracesOk.length⟩
    baselineInvalidRate := RateReport.rate ⟨baselineInvalid.length, total⟩
    importSuccessRate := inputs.importSummary.map RateReport.rate }

/-- A threshold set: a dictionary of limits in its order, and `require_minimized_report`. -/
structure Thresholds where
  limits : List (String × ℚ)
  requireMinimizedReport : Bool
  nodup : (limits.map Prod.fst).Nodup

/-- `thresholds.get(key)`. -/
def Thresholds.limit (thresholds : Thresholds) (key : String) : Option ℚ :=
  thresholds.limits.lookup key

/-- The list `checks` of `build_rendered_summary`. -/
def signoffChecks (summary : SummaryMetrics) (thresholds : Thresholds) (minimizedReport : Bool) :
    List Bool :=
  ([ (thresholds.limit "build_success_rate").getD 0 ≤ summary.buildSuccessRate,
    (thresholds.limit "dual_execution_completion_rate").getD 0 ≤
      summary.dualExecutionCompletionRate,
    (thresholds.limit "trace_success_rate").getD 0 ≤ summary.traceGenerationSuccessRate,
    (thresholds.limit "canonical_success_rate").getD 0 ≤ summary.canonicalizationSuccessRate,
    summary.baselineInvalidRate < (thresholds.limit "baseline_invalid_rate").getD 1,
    (thresholds.limit "total_min").getD 0 ≤ summary.total,
    (thresholds.limit "eligible_program_count_min").getD 0 ≤ summary.eligibleProgramCount ] :
    List Bool) ++
  (match thresholds.limit "import_success_rate" with
    | some limit => [decide (limit ≤ summary.importSuccessRate.getD 0)]
    | none => []) ++
  (if thresholds.requireMinimizedReport then [minimizedReport] else [])

/-- The `signoff_pass` of the summary that is rendered from these inputs. -/
def signoffPass (inputs : RenderInputs) (thresholds : Thresholds) : Bool :=
  (signoffChecks (renderMetrics inputs) thresholds inputs.minimizedReport).all id

/-! ### The checker -/

/-- The two kinds of rules. -/
inductive ThresholdRule
  | gte
  | lte
  deriving DecidableEq

/-- `THRESHOLD_RULES`: the rule of a threshold and the metric it is about. -/
def thresholdRules : List (String × ThresholdRule × String) :=
  [ ("build_success_rate", .gte, "build_success_rate"),
    ("dual_execution_completion_rate", .gte, "dual_execution_completion_rate"),
    ("trace_success_rate", .gte, "trace_generation_success_rate"),
    ("canonical_success_rate", .gte, "canonicalization_success_rate"),
    ("baseline_invalid_rate", .lte, "baseline_invalid_rate"),
    ("total_min", .gte, "total"),
    ("eligible_program_count_min", .gte, "eligible_program_count"),
    ("import_success_rate", .gte, "import_success_rate") ]

/-- `summary_metric` on the summary that was written. -/
def summaryMetric (summary : SummaryMetrics) : String → Option ℚ
  | "build_success_rate" => some summary.buildSuccessRate
  | "dual_execution_completion_rate" => some summary.dualExecutionCompletionRate
  | "trace_generation_success_rate" => some summary.traceGenerationSuccessRate
  | "canonicalization_success_rate" => some summary.canonicalizationSuccessRate
  | "baseline_invalid_rate" => some summary.baselineInvalidRate
  | "total" => some summary.total
  | "eligible_program_count" => some summary.eligibleProgramCount
  | "import_success_rate" => summary.importSuccessRate
  | _ => none

/-- A line of `failures`. -/
inductive ThresholdFailure
  | missingMetric (key : String)
  | below (key : String) (actual expected : ℚ)
  | above (key : String) (actual expected : ℚ)
  | missingReport
  deriving DecidableEq

/-- The text of a failure, for the text of a float. -/
def ThresholdFailure.text (str : ℚ → String) : ThresholdFailure → String
  | .missingMetric key => "summary missing metric for threshold " ++ key
  | .below key actual expected =>
    key ++ ": actual=" ++ str actual ++ " < expected=" ++ str expected
  | .above key actual expected =>
    key ++ ": actual=" ++ str actual ++ " > expected=" ++ str expected
  | .missingReport => "require_minimized_report: minimized-report.json is missing"

/-- The body of the loop over `thresholds.items()`. -/
def limitFailures (summary : SummaryMetrics) (key : String) (expected : ℚ) :
    List ThresholdFailure :=
  match thresholdRules.lookup key with
  | none => []
  | some (rule, metric) =>
    match summaryMetric summary metric with
    | none => [.missingMetric key]
    | some actual =>
      (if rule = .gte ∧ actual < expected then [.below key actual expected] else []) ++
        (if rule = .lte ∧ expected < actual then [.above key actual expected] else [])

/-- The `failures` of `main`. -/
def thresholdFailures (summary : SummaryMetrics) (thresholds : Thresholds)
    (minimizedReport : Bool) : List ThresholdFailure :=
  (thresholds.limits.flatMap fun entry ↦ limitFailures summary entry.1 entry.2) ++
    (if thresholds.requireMinimizedReport && !minimizedReport then [.missingReport] else [])

/-- `check_workflow_thresholds` on the summary of the same inputs: it exits with the failures. -/
def checkWorkflowThresholds (inputs : RenderInputs) (thresholds : Thresholds) :
    Except (List ThresholdFailure) Unit :=
  let failures := thresholdFailures (renderMetrics inputs) thresholds inputs.minimizedReport
  if failures = [] then .ok () else .error failures

/-! ### What each gate tests -/

theorem RateReport.rate_nonneg (report : RateReport) : 0 ≤ report.rate := by
  rw [rate]
  split_ifs
  · exact le_rfl
  · positivity

/-- The minima that both gates test, with their metrics. -/
def minima (summary : SummaryMetrics) : List (String × ℚ) :=
  [ ("build_success_rate", summary.buildSuccessRate),
    ("dual_execution_completion_rate", summary.dualExecutionCompletionRate),
    ("trace_success_rate", summary.traceGenerationSuccessRate),
    ("canonical_success_rate", summary.canonicalizationSuccessRate),
    ("total_min", summary.total),
    ("eligible_program_count_min", summary.eligibleProgramCount) ]

/-- The minima are reached, and the minimized report is there if it is required. -/
structure MinimaHold (summary : SummaryMetrics) (thresholds : Thresholds)
    (minimizedReport : Bool) : Prop where
  metrics : ∀ entry ∈ minima summary, ∀ limit, thresholds.limit entry.1 = some limit →
    limit ≤ entry.2
  report : thresholds.requireMinimizedReport = true → minimizedReport = true

/-- The import rate that was measured reaches its threshold. -/
def ImportMeasured (summary : SummaryMetrics) (thresholds : Thresholds) : Prop :=
  ∀ limit, thresholds.limit "import_success_rate" = some limit →
    ∃ rate, summary.importSuccessRate = some rate ∧ limit ≤ rate

/-- An absent threshold is a minimum of 0. -/
theorem getD_le_iff {limit : Option ℚ} {metric : ℚ} (hmetric : 0 ≤ metric) :
    limit.getD 0 ≤ metric ↔ ∀ value, limit = some value → value ≤ metric := by
  cases limit with
  | none => simpa using hmetric
  | some value => simp

theorem minima_nonneg (inputs : RenderInputs) :
    ∀ entry ∈ minima (renderMetrics inputs), 0 ≤ entry.2 := by
  simp only [minima, renderMetrics, List.forall_mem_cons, RateReport.rate_nonneg,
    Nat.cast_nonneg, List.not_mem_nil, IsEmpty.forall_iff, implies_true, and_self]

section Tests

variable {summary : SummaryMetrics} (thresholds : Thresholds) (minimizedReport : Bool)

/-- The checks of the renderer hold when the minima do, the rate of invalid baselines is below its
limit, and the import rate reaches its threshold, where an unmeasured rate counts as 0. -/
theorem all_signoffChecks_iff (hnonneg : ∀ entry ∈ minima summary, 0 ≤ entry.2) :
    (signoffChecks summary thresholds minimizedReport).all id = true ↔
      MinimaHold summary thresholds minimizedReport ∧
        summary.baselineInvalidRate < (thresholds.limit "baseline_invalid_rate").getD 1 ∧
        ∀ limit, thresholds.limit "import_success_rate" = some limit →
          limit ≤ summary.importSuccessRate.getD 0 := by
  simp only [minima, List.forall_mem_cons, List.not_mem_nil, IsEmpty.forall_iff, implies_true,
    and_true] at hnonneg
  obtain ⟨hbuild, hdual, htrace, hcanonical, htotal, heligible⟩ := hnonneg
  have hmetrics : MinimaHold summary thresholds minimizedReport ↔
      ((thresholds.limit "build_success_rate").getD 0 ≤ summary.buildSuccessRate ∧
        (thresholds.limit "dual_execution_completion_rate").getD 0 ≤
          summary.dualExecutionCompletionRate ∧
        (thresholds.limit "trace_success_rate").getD 0 ≤ summary.traceGenerationSuccessRate ∧
        (thresholds.limit "canonical_success_rate").getD 0 ≤
          summary.canonicalizationSuccessRate ∧
        (thresholds.limit "total_min").getD 0 ≤ summary.total ∧
        (thresholds.limit "eligible_program_count_min").getD 0 ≤ summary.eligibleProgramCount) ∧
      (thresholds.requireMinimizedReport = true → minimizedReport = true) := by
    rw [getD_le_iff hbuild, getD_le_iff hdual, getD_le_iff htrace, getD_le_iff hcanonical,
      getD_le_iff htotal, getD_le_iff heligible]
    constructor
    · intro hold
      have hmetrics := hold.metrics
      simp only [minima, List.forall_mem_cons, List.not_mem_nil, IsEmpty.forall_iff, implies_true,
        and_true] at hmetrics
      exact ⟨hmetrics, hold.report⟩
    · rintro ⟨hmetrics, hreport⟩
      refine ⟨?_, hreport⟩
      simpa only [minima, List.forall_mem_cons, List.not_mem_nil, IsEmpty.forall_iff,
        implies_true, and_true] using hmetrics
  have hreport : (if thresholds.requireMinimizedReport then [minimizedReport] else []).all id =
      true ↔ (thresholds.requireMinimizedReport = true → minimizedReport = true) := by
    by_cases hrequire : thresholds.requireMinimizedReport = true <;> simp [hrequire]
  have himport : ((match thresholds.limit "import_success_rate" with
        | some limit => [decide (limit ≤ summary.importSuccessRate.getD 0)]
        | none => []) : List Bool).all id = true ↔
      ∀ limit, thresholds.limit "import_success_rate" = some limit →
        limit ≤ summary.importSuccessRate.getD 0 := by
    cases thresholds.limit "import_success_rate" <;> simp
  rw [hmetrics, signoffChecks, List.all_append, List.all_append, Bool.and_eq_true,
    Bool.and_eq_true, hreport, himport]
  simp only [List.all_cons, List.all_nil, id_eq, Bool.and_true, Bool.and_eq_true,
    decide_eq_true_eq]
  tauto

variable {thresholds}

/-- The limits of a threshold set are what a lookup finds. -/
theorem Thresholds.limit_eq_some_iff {key : String} {limit : ℚ} :
    thresholds.limit key = some limit ↔ (key, limit) ∈ thresholds.limits := by
  rw [Thresholds.limit, List.lookup_eq_some_iff]
  constructor
  · rintro ⟨before, after, hlimits, -⟩
    rw [hlimits]
    exact List.mem_append_right before List.mem_cons_self
  · intro hmem
    obtain ⟨before, after, hlimits⟩ := List.append_of_mem hmem
    refine ⟨before, after, hlimits, fun entry hentry ↦ bne_iff_ne.mpr fun hkey ↦ ?_⟩
    have hnodup := thresholds.nodup
    rw [hlimits, List.map_append, List.map_cons] at hnodup
    have hdisjoint := List.disjoint_of_nodup_append hnodup
    exact hdisjoint (List.mem_map_of_mem hentry) (hkey ▸ List.mem_cons_self)

/-- A minimum fails unless its metric is there and reaches it. -/
theorem limitFailures_gte {key metric : String}
    (hrule : thresholdRules.lookup key = some (.gte, metric)) (expected : ℚ) :
    limitFailures summary key expected = [] ↔
      ∃ actual, summaryMetric summary metric = some actual ∧ expected ≤ actual := by
  rw [limitFailures, hrule]
  cases hmetric : summaryMetric summary metric with
  | none => simp [hmetric]
  | some actual => simp [hmetric]

/-- A maximum fails unless its metric is there and does not exceed it. -/
theorem limitFailures_lte {key metric : String}
    (hrule : thresholdRules.lookup key = some (.lte, metric)) (expected : ℚ) :
    limitFailures summary key expected = [] ↔
      ∃ actual, summaryMetric summary metric = some actual ∧ actual ≤ expected := by
  rw [limitFailures, hrule]
  cases hmetric : summaryMetric summary metric with
  | none => simp [hmetric]
  | some actual => simp [hmetric]

theorem limitFailures_minima :
    ∀ entry ∈ minima summary, ∀ limit,
      limitFailures summary entry.1 limit = [] ↔ limit ≤ entry.2 := by
  have hgte : ∀ (key metric : String) (actual : ℚ),
      thresholdRules.lookup key = some (.gte, metric) →
        summaryMetric summary metric = some actual →
          ∀ limit, limitFailures summary key limit = [] ↔ limit ≤ actual := by
    intro key metric actual hrule hmetric limit
    rw [limitFailures_gte hrule, hmetric]
    simp
  simp only [minima, List.forall_mem_cons, List.not_mem_nil, IsEmpty.forall_iff, implies_true,
    and_true]
  exact ⟨hgte _ _ _ rfl rfl, hgte _ _ _ rfl rfl, hgte _ _ _ rfl rfl, hgte _ _ _ rfl rfl,
    hgte _ _ _ rfl rfl, hgte _ _ _ rfl rfl⟩

/-- A key with a rule is one of the minima, or one of the two others. -/
theorem mem_minima_of_lookup {key : String} {rule : ThresholdRule × String}
    (hrule : thresholdRules.lookup key = some rule) :
    (∃ metric, (key, metric) ∈ minima summary) ∨ key = "baseline_invalid_rate" ∨
      key = "import_success_rate" := by
  obtain ⟨before, after, hrules, -⟩ := List.lookup_eq_some_iff.mp hrule
  have hmem : key ∈ thresholdRules.map Prod.fst := by
    rw [hrules, List.map_append]
    exact List.mem_append_right _ List.mem_cons_self
  simp only [thresholdRules, List.map_cons, List.map_nil, List.mem_cons, List.not_mem_nil,
    or_false] at hmem
  simp only [minima, List.mem_cons, List.not_mem_nil, or_false, Prod.mk.injEq, exists_or,
    exists_eq_right]
  tauto

/-- The checker has no failures when the minima hold, the rate of invalid baselines does not exceed
its limit, and a measured import rate reaches its threshold. -/
theorem thresholdFailures_eq_nil_iff :
    thresholdFailures summary thresholds minimizedReport = [] ↔
      MinimaHold summary thresholds minimizedReport ∧
        (∀ limit, thresholds.limit "baseline_invalid_rate" = some limit →
          summary.baselineInvalidRate ≤ limit) ∧
        ImportMeasured summary thresholds := by
  have hreport : (if thresholds.requireMinimizedReport && !minimizedReport then
      [ThresholdFailure.missingReport] else []) = [] ↔
        (thresholds.requireMinimizedReport = true → minimizedReport = true) := by
    by_cases hrequire : thresholds.requireMinimizedReport = true <;> simp [hrequire]
  have hlimits : (thresholds.limits.flatMap fun entry ↦
      limitFailures summary entry.1 entry.2) = [] ↔
        ∀ key limit, thresholds.limit key = some limit → limitFailures summary key limit = [] := by
    simp only [List.flatMap_eq_nil_iff, Prod.forall, Thresholds.limit_eq_some_iff]
  have hbaseline : ∀ limit, limitFailures summary "baseline_invalid_rate" limit = [] ↔
      summary.baselineInvalidRate ≤ limit := by
    intro limit
    rw [limitFailures_lte rfl]
    simp [summaryMetric]
  have himport : ∀ limit, limitFailures summary "import_success_rate" limit = [] ↔
      ∃ rate, summary.importSuccessRate = some rate ∧ limit ≤ rate :=
    limitFailures_gte (show thresholdRules.lookup "import_success_rate" =
      some (.gte, "import_success_rate") from rfl)
  rw [thresholdFailures, List.append_eq_nil_iff, hlimits, hreport]
  constructor
  · rintro ⟨hempty, hrequired⟩
    refine ⟨⟨fun entry hentry limit hlimit ↦ ?_, hrequired⟩, fun limit hlimit ↦ ?_,
      fun limit hlimit ↦ ?_⟩
    · exact (limitFailures_minima entry hentry limit).mp (hempty entry.1 limit hlimit)
    · exact (hbaseline limit).mp (hempty _ limit hlimit)
    · exact (himport limit).mp (hempty _ limit hlimit)
  · rintro ⟨hminima, hmaximum, hmeasured⟩
    refine ⟨fun key limit hlimit ↦ ?_, hminima.report⟩
    cases hrule : thresholdRules.lookup key with
    | none => rw [limitFailures, hrule]
    | some rule =>
      rcases mem_minima_of_lookup hrule with ⟨metric, hentry⟩ | rfl | rfl
      · exact (limitFailures_minima _ hentry limit).mpr (hminima.metrics _ hentry limit hlimit)
      · exact (hbaseline limit).mpr (hmaximum limit hlimit)
      · exact (himport limit).mpr (hmeasured limit hlimit)

end Tests

/-! ### Agreement -/

/-- There are no more invalid baselines than cases. -/
theorem baselineInvalidRate_le_one (inputs : RenderInputs) :
    (renderMetrics inputs).baselineInvalidRate ≤ 1 := by
  have hlength := List.length_filter_le
    (fun result : CaseResult ↦ result.classification = .baselineInvalid) inputs.results
  change RateReport.rate ⟨_, inputs.results.length⟩ ≤ 1
  rw [RateReport.rate]
  split_ifs with hzero
  · exact zero_le_one
  · exact div_le_one_of_le₀ (by exact_mod_cast hlength) (by positivity)

/-- The maximum of the checker, for a rate that is at most 1. -/
theorem forall_limit_iff {limit : Option ℚ} {rate : ℚ} (hrate : rate ≤ 1) :
    (∀ value, limit = some value → rate ≤ value) ↔ rate ≤ limit.getD 1 := by
  cases limit with
  | none => simpa using hrate
  | some value => simp

/-- A measured import rate passes the renderer too; an unmeasured one passes only the renderer, for
a threshold of at most 0. -/
theorem import_renderer_iff (summary : SummaryMetrics) (thresholds : Thresholds) :
    (∀ limit, thresholds.limit "import_success_rate" = some limit →
        limit ≤ summary.importSuccessRate.getD 0) ↔
      ImportMeasured summary thresholds ∨ summary.importSuccessRate = none ∧
        ∃ limit, thresholds.limit "import_success_rate" = some limit ∧ limit ≤ 0 := by
  unfold ImportMeasured
  cases thresholds.limit "import_success_rate" with
  | none => simp
  | some limit => cases summary.importSuccessRate <;> simp

theorem checkWorkflowThresholds_ok_iff (inputs : RenderInputs) (thresholds : Thresholds) :
    checkWorkflowThresholds inputs thresholds = .ok () ↔
      thresholdFailures (renderMetrics inputs) thresholds inputs.minimizedReport = [] := by
  rw [checkWorkflowThresholds]
  by_cases hempty : thresholdFailures (renderMetrics inputs) thresholds inputs.minimizedReport = []
  · simp [hempty]
  · simp [hempty]

/-- The gates agree exactly when neither of their differences decides: once the minima hold, the
rate of invalid baselines must not stand at its limit, unless the import rate fails anyway; and
while it is below its limit, an import rate with a threshold of at most 0 must have been measured.
-/
theorem signoffPass_iff_accepted_iff (inputs : RenderInputs) (thresholds : Thresholds) :
    (signoffPass inputs thresholds = true ↔
        checkWorkflowThresholds inputs thresholds = .ok ()) ↔
      (MinimaHold (renderMetrics inputs) thresholds inputs.minimizedReport →
        ((renderMetrics inputs).baselineInvalidRate =
            (thresholds.limit "baseline_invalid_rate").getD 1 →
          ¬ImportMeasured (renderMetrics inputs) thresholds) ∧
        ((renderMetrics inputs).baselineInvalidRate <
            (thresholds.limit "baseline_invalid_rate").getD 1 →
          (∃ limit, thresholds.limit "import_success_rate" = some limit ∧ limit ≤ 0) →
            (renderMetrics inputs).importSuccessRate ≠ none)) := by
  rw [checkWorkflowThresholds_ok_iff, signoffPass,
    all_signoffChecks_iff thresholds inputs.minimizedReport (minima_nonneg inputs),
    thresholdFailures_eq_nil_iff, forall_limit_iff (baselineInvalidRate_le_one inputs),
    import_renderer_iff]
  have hunmeasured : (renderMetrics inputs).importSuccessRate = none →
      (∃ limit, thresholds.limit "import_success_rate" = some limit ∧ limit ≤ 0) →
        ¬ImportMeasured (renderMetrics inputs) thresholds := by
    rintro hnone ⟨limit, hlimit, -⟩ hmeasured
    obtain ⟨rate, hrate, -⟩ := hmeasured limit hlimit
    rw [hnone] at hrate
    cases hrate
  rcases lt_trichotomy (renderMetrics inputs).baselineInvalidRate
    ((thresholds.limit "baseline_invalid_rate").getD 1) with hlt | heq | hgt
  · -- only the import rate can decide
    simp only [hlt, hlt.le, hlt.ne, true_and, false_implies, true_implies]
    constructor
    · intro hagree hminima hlimit hnone
      have hmeasured := (hagree.mp ⟨hminima, Or.inr ⟨hnone, hlimit⟩⟩).2
      exact hunmeasured hnone hlimit hmeasured
    · intro hmeasured
      refine ⟨fun hpass ↦ ⟨hpass.1, ?_⟩, fun hpass ↦ ⟨hpass.1, Or.inl hpass.2⟩⟩
      exact hpass.2.resolve_right fun himport ↦ hmeasured hpass.1 himport.2 himport.1
  · -- the renderer fails
    simp only [heq, lt_irrefl, le_refl, true_and, false_and, and_false, true_implies]
    tauto
  · -- both fail
    simp only [not_lt.mpr hgt.le, not_le.mpr hgt, hgt.ne', false_and, and_false, false_implies,
      and_self, implies_true]

/-- A campaign of one case whose baseline is invalid. -/
def invalidBaselineInputs : RenderInputs where
  results := [{
    programId := "p"
    classification := .baselineInvalid
    normalizedPath := ""
    metaPath := ""
    scml := {}
    scmlResultBucket := .notRun }]
  buildSummary := none
  importSummary := none
  eligibleLines := 1
  pathExists := fun _ ↦ false
  minimizedReport := false

/-- The thresholds of the ArceOS smoke workflow. -/
def arceosSmokeThresholds : Thresholds where
  limits := [ ("baseline_invalid_rate", 1), ("build_success_rate", 0),
    ("canonical_success_rate", 0), ("dual_execution_completion_rate", 0), ("total_min", 0),
    ("trace_success_rate", 0) ]
  requireMinimizedReport := false
  nodup := by decide

/-- The rate of invalid baselines stands at its limit: the checker accepts the summary, but the
sign-off of the summary is false. -/
theorem invalidBaselineInputs_disagree :
    signoffPass invalidBaselineInputs arceosSmokeThresholds = false ∧
      checkWorkflowThresholds invalidBaselineInputs arceosSmokeThresholds = .ok () := by
  constructor <;> decide +kernel

end SyzAbi.Tools

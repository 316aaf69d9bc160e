/-!
# The constants of a verdict

`core/constants.py`. A run has a status, which is a text: a runner may report any text, and the
six of `ExecutionStatus` are the ones the code compares with. A case has a classification. The
`classification` table of a configuration gives each of the first five a text of its own; the table
is the same in every workflow, so the model keeps the constants.
-/

set_option autoImplicit false
set_option relaxedAutoImplicit false

namespace SyzAbi

/-- The execution statuses that the code compares with. -/
inductive ExecutionStatus
  | ok
  | timeout
  | infraError
  | crash
  | candidateBug
  | unsupported
  deriving DecidableEq

/-- The text of a status. -/
def ExecutionStatus.value : ExecutionStatus → String
  | .ok => "ok"
  | .timeout => "timeout"
  | .infraError => "infra_error"
  | .crash => "crash"
  | .candidateBug => "candidate_bug"
  | .unsupported => "unsupported"

/-- The classifications of a differential replay. -/
inductive Classification
  | noDiff
  | baselineInvalid
  | bugLikely
  | weakSpecOrEnvNoise
  | unsupportedFeature
  | buildFailure
  | infraError
  deriving DecidableEq

/-- The two sides of a differential replay. -/
inductive Side
  | reference
  | candidate
  deriving DecidableEq

/-- The buckets of the SCML workflow. -/
inductive SCMLResultBucket
  | notRun
  | rejectedByScml
  | passedScmlAndNoDiff
  | passedScmlAndDiverged
  | passedScmlButCandidateFailed
  | passedScmlButReferenceFailed
  deriving DecidableEq

end SyzAbi

import SyzAbi.Agent.DescriptorAbstraction
import SyzAbi.Agent.EventEncoding
import SyzAbi.Agent.ReservedDescriptor
import SyzAbi.Agent.SharedConsole
import SyzAbi.Agent.SharedStdout
import SyzAbi.Agent.StreamIntegrity
import SyzAbi.Agent.TracerSha256
import SyzAbi.Analyzer.DescriptorIdentity
import SyzAbi.Analyzer.Divergence
import SyzAbi.Analyzer.NoiseInsensitivity
import SyzAbi.Orchestrator.BatchIsolation
import SyzAbi.Orchestrator.BucketCoherence
import SyzAbi.Orchestrator.CampaignReports
import SyzAbi.Orchestrator.ConcurrencyBound
import SyzAbi.Orchestrator.ControlledDivergence
import SyzAbi.Orchestrator.DivergenceLabel
import SyzAbi.Orchestrator.FaithfulCandidate
import SyzAbi.Orchestrator.RecoveredEvents
import SyzAbi.Orchestrator.Stability
import SyzAbi.Orchestrator.TimeoutReport
import SyzAbi.Orchestrator.TruncatedState
import SyzAbi.Targets.ArceosWorkspaces
import SyzAbi.Targets.BundleCache
import SyzAbi.Targets.CandidateCommands
import SyzAbi.Targets.FatRecursion
import SyzAbi.Targets.FatTable
import SyzAbi.Targets.LongNames
import SyzAbi.Targets.PackagedInitramfs
import SyzAbi.Targets.SamplerAgreement
import SyzAbi.Targets.ScmlGate
import SyzAbi.Targets.ShellCapture
import SyzAbi.Targets.StarryPreparation
import SyzAbi.Targets.StateDifference
import SyzAbi.Tools.BatchEnvironment
import SyzAbi.Tools.CallMapping
import SyzAbi.Tools.CleanupPaths
import SyzAbi.Tools.ConfirmedReduction
import SyzAbi.Tools.CorpusOrder
import SyzAbi.Tools.DockerCommand
import SyzAbi.Tools.FaithfulCalls
import SyzAbi.Tools.GuestNames
import SyzAbi.Tools.IncrementalMerge
import SyzAbi.Tools.InstrumentFrame
import SyzAbi.Tools.Minimality
import SyzAbi.Tools.PackagedTranscript
import SyzAbi.Tools.PreflightAgreement
import SyzAbi.Tools.PreflightCorpus
import SyzAbi.Tools.ReadmeLayout
import SyzAbi.Tools.ReducerEvidence
import SyzAbi.Tools.ReimportRaw
import SyzAbi.Tools.RunDirectories
import SyzAbi.Tools.SignoffGates
import SyzAbi.Tools.StaleSuccess
import SyzAbi.Tools.TranscriptRoundTrip

import Gammaboard.Lib.Run
import Gammaboard.Lib.Cursor
import Gammaboard.Lib.Tiling
import Gammaboard.Lib.ChangeLog
import Gammaboard.Lib.Commit
import Gammaboard.Core.BatchIds
import Gammaboard.Core.Errors
import Gammaboard.Core.Checkpoint
import Gammaboard.Evaluation.Accumulator
import Gammaboard.Sampling.Generation
import Gammaboard.Sampling.FeedbackAssembly
import Gammaboard.Sampling.LatentPayload
import Gammaboard.Sampling.LatentSlices
import Gammaboard.Sampling.GeneratedDraws
import Gammaboard.Sampling.Buffering
import Gammaboard.Stores.WorkQueue
import Gammaboard.Stores.QueueCounters
import Gammaboard.Stores.ClaimProtocol
import Gammaboard.Stores.Tasks
import Gammaboard.Stores.CampaignBudget
import Gammaboard.Stores.Recovery
import Gammaboard.Runners.Progress
import Gammaboard.Runners.TaskFailure
import Gammaboard.Runners.Queue
import Gammaboard.Runners.QueueInvariant
import Gammaboard.Runners.QueueTable
import Gammaboard.Runners.SamplerAggregator
import Gammaboard.Runners.AggregatorSteps
import Gammaboard.Runners.SamplerSystem
import Gammaboard.Runners.SamplerInvariant
import Gammaboard.Runners.IdSupply
import Gammaboard.Runners.SamplerRuns
import Gammaboard.Runners.Restorable
import Gammaboard.Runners.Completion
import Gammaboard.Runners.Ledger
import Gammaboard.Runners.LedgerRuns
import Gammaboard.Runners.ExactlyOnce
import Gammaboard.Runners.SampleBudget
import Gammaboard.Runners.Campaign
import Gammaboard.Runners.CampaignRuns
import Gammaboard.Runners.ErrorFlow
import Gammaboard.Stores.Aggregation
import Gammaboard.Runners.AggregationSaves
import Gammaboard.Runners.InsertFence
import Gammaboard.Process.Responses
import Gammaboard.Stores.LaunchProtocol
import Gammaboard.Config.FrozenDefinitions
import Gammaboard.Sampling.HavanaWindows
import Gammaboard.ProcessApi.DomainAgreement
import Gammaboard.Evaluation.Unbiased
import Gammaboard.Runners.AssignmentUpdates
import Gammaboard.Runners.RoleErrors
import Gammaboard.Stores.CpuAccounting
import Gammaboard.Runners.PoolPlacements
import Gammaboard.Stores.ConnectionBudget
import Gammaboard.Sampling.StratumFeedback
import Gammaboard.Evaluation.IntegrandBatch
import Gammaboard.Process.HeaderLine
import Gammaboard.Sampling.IndexedCodec
import Gammaboard.Utils.Text
import Gammaboard.Core.AccumulatorConfig
import Gammaboard.Evaluation.ScalarAccumulator
import Gammaboard.Evaluation.VectorMerge
import Gammaboard.Evaluation.InPlace
import Gammaboard.Evaluation.GammaLoopAccumulator
import Gammaboard.Evaluation.AtomicMerge
import Gammaboard.Lib.Tally
import Gammaboard.Evaluation.ScalarSplits
import Gammaboard.Evaluation.DiscreteBins
import Gammaboard.Evaluation.VectorSplits
import Gammaboard.Evaluation.StratumExtrema
import Gammaboard.Lib.Counts
import Gammaboard.Evaluation.GatedRows
import Gammaboard.Evaluation.GatedStates
import Gammaboard.Evaluation.VectorTotals
import Gammaboard.Evaluation.GatedAccumulation
import Gammaboard.Lib.Cut
import Gammaboard.Evaluation.GatedBatches
import Gammaboard.Lib.MixedRadix
import Gammaboard.Utils.CheckedInt
import Gammaboard.Core.ParameterSources
import Gammaboard.Runners.ParameterGrid
import Gammaboard.Utils.FloatRounding
import Gammaboard.Runners.TuningDomains
import Gammaboard.Lib.Selection
import Gammaboard.Api.Capabilities
import Gammaboard.Api.AutoRoles
import Gammaboard.Api.MaximalRoles
import Gammaboard.Runners.ChildScheduling
import Gammaboard.Utils.RollingMetric
import Gammaboard.Runners.BatchSizing
import Gammaboard.Lib.Strides
import Gammaboard.Lib.Writes
import Gammaboard.Core.RasterGeometry
import Gammaboard.Sampling.RasterOrder
import Gammaboard.Sampling.Raster
import Gammaboard.Sampling.RasterFeedback
import Gammaboard.Sampling.RasterRuns
import Gammaboard.Lib.ChoiceTree
import Gammaboard.Utils.DomainTree
import Gammaboard.Sampling.UniformDraws
import Gammaboard.Sampling.HavanaMass
import Gammaboard.Sampling.HavanaGridMass
import Gammaboard.Sampling.DiscreteMass
import Gammaboard.Lib.Regrouping
import Gammaboard.Lib.Results
import Gammaboard.Runners.IntegrandMasses
import Gammaboard.Lib.SpreadWindow
import Gammaboard.Runners.WallTimeRate
import Gammaboard.Utils.Json
import Gammaboard.Lib.GapUnion
import Gammaboard.Lib.EqualBins
import Gammaboard.Server.Measurements
import Gammaboard.Server.Graphs
import Gammaboard.Server.GraphTotals
import Gammaboard.Server.GraphSummaries
import Gammaboard.Services.Results
import Gammaboard.Services.CombinedHistograms
import Gammaboard.Services.SymmetricCombination
import Gammaboard.Lib.SampleStatistics
import Gammaboard.Evaluation.ScalarEstimates
import Gammaboard.Evaluation.ScalarInPlace
import Gammaboard.Evaluation.ScalarTrees
import Gammaboard.Runners.TrainingWindows
import Gammaboard.Stores.StageSnapshots
import Gammaboard.Runners.StageContext
import Gammaboard.Core.Tracing
import Gammaboard.Config.Substitution
import Gammaboard.Runners.TrialParameters
import Gammaboard.Sampling.DecodedRows
import Gammaboard.Sampling.HavanaSlices
import Gammaboard.Stores.SamplerSlots
import Gammaboard.Api.TaskPreflight
import Gammaboard.Api.PreflightAgreement
import Gammaboard.Api.TaskQueue
import Gammaboard.Api.TaskQueueEdits
import Gammaboard.Runners.StandaloneSamplers
import Gammaboard.Runners.Evaluator
import Gammaboard.Runners.EvaluatorSystem
import Gammaboard.Runners.EvaluatorClaims
import Gammaboard.Runners.EvaluatorTracking
import Gammaboard.Runners.EvaluatorRetention
import Gammaboard.Runners.DistinctTrials
import Gammaboard.Lib.Ragged
import Gammaboard.ProcessApi.BatchCodec
import Gammaboard.Sampling.ProcessBatch
import Gammaboard.ProcessApi.Requests
import Gammaboard.ProcessApi.RequestRows

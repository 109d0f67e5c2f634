import Oxana.SparseMap
import Oxana.RankedSet
import Oxana.CommandProgram
import Oxana.CommandFaults
import Oxana.FaultPlan
import Oxana.CommandPool
import Oxana.EnvelopeCore
import Oxana.StorageKeys
import Oxana.RedisCore
import Oxana.StorageCore
import Oxana.ExecutorCore
import Oxana.Footprints
import Oxana.Occurrences
import Oxana.Placement
import Oxana.StorageRuns
import Oxana.Promotion
import Oxana.PlacementRuns
import Oxana.ClusterCore
import Oxana.Holding
import Oxana.ClusterSound
import Oxana.ClusterSteps
import Oxana.ClusterRevival
import Oxana.ClusterInvariant
import Oxana.FailedAttempt
import Oxana.FailedPromotion
import Oxana.FailedResurrection
import Oxana.ConcurrentSkip
import Oxana.ConcurrentReplace
import Oxana.Requeueing
import Oxana.ConcurrentRequeue
import Oxana.FleetCore
import Oxana.FleetDuties
import Oxana.FleetCustody
import Oxana.LiveProcess
import Oxana.CrashRecovery
import Oxana.BulkEnqueue
import Oxana.AttemptEffect
import Oxana.BatchRun
import Oxana.RetryLifecycle
import Oxana.RetryRuns
import Oxana.Batching
import Oxana.KeyScheme
import Oxana.QueueDiscovery
import Oxana.QueueControls
import Oxana.QueueWatch
import Oxana.CronJobs
import Oxana.CronRuns
import Oxana.PoolFaults
import Oxana.WorkerTasks
import Oxana.StrandedJobs
import Oxana.CoordinatorCore
import Oxana.GracefulShutdown
import Oxana.QueueGate
import Oxana.ThrottleCore
import Oxana.ThrottleLog
import Oxana.ThrottleRuns
import Oxana.ThrottleFleet
import Oxana.QueueDashboard
import Oxana.QueueSettings
import Oxana.JobExpiry
import Oxana.QueueWipe
import Oxana.DeadRevival
import Oxana.MetricsCore
import Oxana.Postings
import Oxana.MetricsStorage
import Oxana.MetricFields
import Oxana.MetricsLedger
import Oxana.MetricsFlush
import Oxana.MetricsReport
import Oxana.MetricsRead
import Oxana.JobMetrics
import Oxana.ResultCollector
import Oxana.ResultLedger
import Oxana.ResultCounting
import Oxana.InstanceKeys
import Oxana.BoundBatch
import Oxana.BatchAlignment
import Oxana.CommandSurroundings
import Oxana.JobNotes
import Oxana.DeadState
import Oxana.ThrottleCalls
import Oxana.ThrottleWait
import Oxana.CommandTriples
import Oxana.QueueOverrides
import Oxana.DrainLedger
import Oxana.DrainAccounts
import Oxana.KeyedList
import Oxana.QueueStats
import Oxana.QueueStatsSound
import Oxana.EnqueuedCounts
import Oxana.PromotionOrder
import Oxana.WorkerRegistry
import Oxana.WorkerNames
import Oxana.JobProgress
import Oxana.ProgressRuns
import Oxana.DelayArithmetic
import Oxana.JobPages
import Oxana.PermitAccounts
import Oxana.Launcher
import Oxana.QueueOrder
import Oxana.JsonFormat
import Oxana.StoredFormats
import Oxana.CronCompleteness
import Oxana.CollectorFleet
import Oxana.DashboardCounts
import Oxana.JobLives
import Oxana.LifeMoves
import Oxana.LifeRefinement
import Oxana.LastWrites
import Oxana.QueueLengths
import Oxana.LifeProgress
import Oxana.PathTree
import Oxana.TypeTree
import Oxana.MetricsChart

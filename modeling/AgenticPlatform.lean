import AgenticPlatform.Foundation.Table
import AgenticPlatform.Foundation.Transition
import AgenticPlatform.Db.Models
import AgenticPlatform.Correctness.Leases
import AgenticPlatform.Correctness.Outbox
import AgenticPlatform.Correctness.LeaseSystem
import AgenticPlatform.Correctness.Fencing
import AgenticPlatform.Correctness.RunLifecycle
import AgenticPlatform.Correctness.CompletedEffects
import AgenticPlatform.Correctness.Reconciliation
import AgenticPlatform.Correctness.Relay
import AgenticPlatform.Correctness.RelayReplicas
import AgenticPlatform.Correctness.Admission
import AgenticPlatform.Correctness.Sweep
import AgenticPlatform.Correctness.LostPointers
import AgenticPlatform.Foundation.JsonText
import AgenticPlatform.Agent.Tools
import AgenticPlatform.Agent.ToolSystem
import AgenticPlatform.Agent.Approvals
import AgenticPlatform.Agent.Receipts
import AgenticPlatform.Foundation.Aggregate
import AgenticPlatform.Foundation.Calendar
import AgenticPlatform.Observability.Ledger
import AgenticPlatform.Observability.LedgerInvariant
import AgenticPlatform.Observability.BudgetCeiling
import AgenticPlatform.Observability.Settlement
import AgenticPlatform.Foundation.HashChain
import AgenticPlatform.Foundation.JsonAscii
import AgenticPlatform.Observability.Audit
import AgenticPlatform.Observability.AuditChain
import AgenticPlatform.Observability.AuditRetention
import AgenticPlatform.Observability.AuditDigest
import AgenticPlatform.Observability.AuditTamper
import AgenticPlatform.Corpus.Builds
import AgenticPlatform.Corpus.Documents
import AgenticPlatform.Workloads.Reindex
import AgenticPlatform.Workloads.ServedBuild
import AgenticPlatform.Workloads.BuildNumbers
import AgenticPlatform.Corpus.Rebuilds
import AgenticPlatform.Workloads.ReindexExact
import AgenticPlatform.Release.Canary
import AgenticPlatform.Release.TrafficSplit
import AgenticPlatform.Corpus.RetainedBytes
import AgenticPlatform.Onboarding.SessionSystem
import AgenticPlatform.Onboarding.Lifecycle
import AgenticPlatform.Onboarding.MakerChecker
import AgenticPlatform.Onboarding.ApprovedContent
import AgenticPlatform.Onboarding.Drafting
import AgenticPlatform.Onboarding.DraftedRuns
import AgenticPlatform.Onboarding.Retries
import AgenticPlatform.Workloads.GraphContext
import AgenticPlatform.Workloads.GraphArtifacts
import AgenticPlatform.Workloads.GraphBuilds
import AgenticPlatform.Workloads.GraphTransparency
import AgenticPlatform.Observability.ChargedResponses
import AgenticPlatform.Api.RouteTable
import AgenticPlatform.Identity.Grants
import AgenticPlatform.Db.Engine
import AgenticPlatform.Db.TenantScope
import AgenticPlatform.Foundation.Text
import AgenticPlatform.Identity.Auth
import AgenticPlatform.Api.Authorize
import AgenticPlatform.Api.Mediation
import AgenticPlatform.Governance.ContinuousEval
import AgenticPlatform.Governance.DueInstants
import AgenticPlatform.Governance.ScheduledOnce
import AgenticPlatform.Gates.Datasets
import AgenticPlatform.Gates.Promotion
import AgenticPlatform.Gates.EvalSystem
import AgenticPlatform.Gates.ReadYourWrites
import AgenticPlatform.Gates.Baselines
import AgenticPlatform.Gates.Labels
import AgenticPlatform.Gates.Review
import AgenticPlatform.Gates.LatestAnswers
import AgenticPlatform.Gates.Attestation
import AgenticPlatform.Gates.GoldenEdits
import AgenticPlatform.Correctness.BackOff
import AgenticPlatform.Foundation.FairQueue
import AgenticPlatform.Correctness.PoisonRows
import AgenticPlatform.Observability.AuditVerify
import AgenticPlatform.Observability.CacheKey
import AgenticPlatform.Foundation.Dict
import AgenticPlatform.Workloads.ArtifactFiles
import AgenticPlatform.Onboarding.DraftedOriginals
import AgenticPlatform.Workloads.TaxonomyFit
import AgenticPlatform.Onboarding.Curation
import AgenticPlatform.Agent.CheckpointSystem
import AgenticPlatform.Agent.CheckpointLog
import AgenticPlatform.Agent.CheckpointThreads
import AgenticPlatform.Workloads.EvalReads
import AgenticPlatform.Gates.ContentHash
import AgenticPlatform.Gates.Replies
import AgenticPlatform.Gates.Judge
import AgenticPlatform.Gates.AnnotatorCalls
import AgenticPlatform.Gates.QualityMetrics
import AgenticPlatform.Gates.Runner
import AgenticPlatform.Foundation.Traversal
import AgenticPlatform.Gates.Aggregation
import AgenticPlatform.Gates.PersistedRuns
import AgenticPlatform.Gates.LikeForLike
import AgenticPlatform.Gates.Cassette
import AgenticPlatform.Observability.LedgerAlone
import AgenticPlatform.Gates.SealedReplay
import AgenticPlatform.Scaling.Cache
import AgenticPlatform.Scaling.Invalidation
import AgenticPlatform.Correctness.TenantFair
import AgenticPlatform.Foundation.Percentile
import AgenticPlatform.Release.MinimumSample
import AgenticPlatform.Corpus.Fingerprint
import AgenticPlatform.Onboarding.Staleness
import AgenticPlatform.Gates.DatasetGrammar
import AgenticPlatform.Adapters.ObjectStore
import AgenticPlatform.Adapters.ObjectKeys
import AgenticPlatform.Security.RateLimit
import AgenticPlatform.Scaling.Conversations
import AgenticPlatform.Worker.Outcomes
import AgenticPlatform.Corpus.Chunking
import AgenticPlatform.Foundation.Unspaced
import AgenticPlatform.Corpus.ChunkedText
import AgenticPlatform.Foundation.Groups
import AgenticPlatform.Corpus.ChunkSizes
import AgenticPlatform.Corpus.TokenCuts
import AgenticPlatform.Correctness.RetryDelays
import AgenticPlatform.Corpus.CollectionBuilds
import AgenticPlatform.Corpus.Gaps
import AgenticPlatform.Corpus.GapBacklog
import AgenticPlatform.Gates.GapMining
import AgenticPlatform.Foundation.Tally
import AgenticPlatform.Workloads.HybridRetrieve
import AgenticPlatform.Workloads.FusedWeights
import AgenticPlatform.Foundation.EventLog
import AgenticPlatform.Workloads.Turns
import AgenticPlatform.Workloads.TurnCourses
import AgenticPlatform.Security.SharedLimit
import AgenticPlatform.Identity.LoginSystem
import AgenticPlatform.Onboarding.Questions
import AgenticPlatform.Onboarding.SeedEval
import AgenticPlatform.Onboarding.SeededSets
import AgenticPlatform.Foundation.Pruning
import AgenticPlatform.Observability.LedgerRetention
import AgenticPlatform.Correctness.RunRetention
import AgenticPlatform.Correctness.EffectReturns
import AgenticPlatform.Workloads.Echo
import AgenticPlatform.Workloads.EchoOnce

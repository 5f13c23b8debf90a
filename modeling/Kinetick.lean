import Kinetick.Machine
import Kinetick.Table
import Kinetick.Turn.Schema
import Kinetick.Queue.Pause
import Kinetick.Turn.Contracts
import Kinetick.Turn.LeaseRecovery
import Kinetick.Turn.Repository
import Kinetick.Turn.System
import Kinetick.Turn.Ownership
import Kinetick.Proofs.TurnViews
import Kinetick.Proofs.TurnOwnership
import Kinetick.Proofs.TurnLeases
import Kinetick.Proofs.TurnDeletion
import Kinetick.Proofs.TurnEvolution
import Kinetick.Proofs.TurnInvariant
import Kinetick.Proofs.TurnFence
import Kinetick.Proofs.TurnPending
import Kinetick.Proofs.TurnAdmission
import Kinetick.Mailbox
import Kinetick.Turn.Controller
import Kinetick.Turn.Steering
import Kinetick.Proofs.TurnSteering
import Kinetick.Effect
import Kinetick.Turn.QueueDispatcher
import Kinetick.Turn.Dispatch
import Kinetick.Proofs.TurnDispatch
import Kinetick.Js
import Kinetick.Queue.Codec
import Kinetick.Queue.Policy
import Kinetick.Queue.Repository
import Kinetick.Queue.Claims
import Kinetick.Queue.Edits
import Kinetick.Queue.System
import Kinetick.Proofs.QueueCodec
import Kinetick.Ledger
import Kinetick.Queue.Entries
import Kinetick.Proofs.QueueRows
import Kinetick.Proofs.QueueChanges
import Kinetick.Proofs.QueueOperations
import Kinetick.Proofs.QueueClaims
import Kinetick.Proofs.QueueLedger
import Kinetick.Proofs.QueueInvariant
import Kinetick.Proofs.QueueValidators
import Kinetick.Proofs.QueueReadBack
import Kinetick.Proofs.QueueKept
import Kinetick.Proofs.QueueKeptInputs
import Kinetick.Proofs.QueueKeptEdits
import Kinetick.Proofs.QueueFaithful
import Kinetick.Proofs.QueueTaken
import Kinetick.Async
import Kinetick.Turn.ClaimDispatch
import Kinetick.Turn.DispatcherSystem
import Kinetick.Proofs.DispatcherSteps
import Kinetick.Double
import Kinetick.Sse.BoundedRing
import Kinetick.Proofs.RingReplay
import Kinetick.Compaction.HistoryReduction
import Kinetick.Proofs.ToolRounds
import Kinetick.Proofs.HistoryReduction
import Kinetick.Proofs.MiddleDeletion
import Kinetick.History.Sequence
import Kinetick.Proofs.HistorySequence
import Kinetick.File.Jsonl
import Kinetick.File.Append
import Kinetick.Proofs.JsonlAppend
import Kinetick.Proofs.JsonlLines
import Kinetick.Scheduler.Job
import Kinetick.Scheduler.Scheduler
import Kinetick.Proofs.SchedulerMemory
import Kinetick.Proofs.SchedulerOperations
import Kinetick.Proofs.SchedulerRestore
import Kinetick.Proofs.SchedulerRuns
import Kinetick.File.ReadCache
import Kinetick.Proofs.JsonlReadCache
import Kinetick.History.Envelope
import Kinetick.History.Revision
import Kinetick.Proofs.HistoryEnvelope
import Kinetick.Proofs.HistoryRevision
import Kinetick.Permission.Engine
import Kinetick.Proofs.PermissionPolicy
import Kinetick.Goal.Store
import Kinetick.Goal.Writers
import Kinetick.Goal.Guarantees
import Kinetick.Proofs.GoalWrites
import Kinetick.Proofs.GoalLifecycle
import Kinetick.Shell.Posix
import Kinetick.Permission.BashAst
import Kinetick.Permission.SafeCommand
import Kinetick.Proofs.PlainScripts
import Kinetick.Proofs.PlainWords
import Kinetick.Proofs.PlainScriptsOnly
import Kinetick.Goal.Continuation
import Kinetick.Goal.RearmSystem
import Kinetick.Proofs.RearmCalls
import Kinetick.Proofs.RearmDebts
import Kinetick.Mcp.NameRegistry
import Kinetick.Proofs.McpAllocation
import Kinetick.Proofs.McpRegistry
import Kinetick.Mention.Protocol
import Kinetick.Proofs.MentionLiterals
import Kinetick.Proofs.MentionBlocks
import Kinetick.Proofs.MentionRoundTrip
import Kinetick.Permission.RuleCodec
import Kinetick.Permission.RuleMatch
import Kinetick.Permission.RuleStore
import Kinetick.Proofs.RuleValues
import Kinetick.Proofs.RuleUpdates
import Kinetick.Crash
import Kinetick.Rootless.Generation
import Kinetick.Proofs.GenerationSteps
import Kinetick.Proofs.GenerationSwaps
import Kinetick.Proofs.GenerationRuns
import Kinetick.Goal.TimeAccounting
import Kinetick.Proofs.ActiveTime
import Kinetick.Proofs.GoalAnswers
import Kinetick.Task.Manager
import Kinetick.Task.System
import Kinetick.Proofs.TaskCalls
import Kinetick.Proofs.TaskRuns
import Kinetick.Queue.PriorityFence
import Kinetick.Proofs.QueueAdmission
import Kinetick.Turn.QueueDrain
import Kinetick.Proofs.QueueDrain
import Kinetick.Proofs.QueueShrinking
import Kinetick.Turn.OperationGate
import Kinetick.Proofs.OperationGate
import Kinetick.Proofs.OperationGateRuns
import Kinetick.Proofs.OperationGateWaits
import Kinetick.JsonString
import Kinetick.Text
import Kinetick.Permission.ShellRule
import Kinetick.Proofs.WildcardRules
import Kinetick.Goal.NoProgress
import Kinetick.Proofs.NoProgressPauses
import Kinetick.Proofs.GapPauses
import Kinetick.Turn.CanonicalMessage
import Kinetick.Turn.Continuation
import Kinetick.Proofs.Continuations
import Kinetick.Proofs.QueuedTags
import Kinetick.Edit.LineNumbers
import Kinetick.Proofs.LineNumbers
import Kinetick.Calendar
import Kinetick.Scheduler.OnceInput
import Kinetick.Proofs.WallClocks
import Kinetick.History.LegacyNormalizer
import Kinetick.Proofs.LegacyHistory
import Kinetick.Cron.SessionHistory
import Kinetick.Proofs.CronCleanup
import Kinetick.Proofs.CronHistory
import Kinetick.Sql
import Kinetick.Sidebar.Predicate
import Kinetick.Sidebar.Context
import Kinetick.Keyset
import Kinetick.Sidebar.Query
import Kinetick.Proofs.SidebarQueries
import Kinetick.Proofs.SidebarPages
import Kinetick.Proofs.SidebarListings
import Kinetick.AuthLease.Codec
import Kinetick.Proofs.AuthLeaseFrames
import Kinetick.QueryCollapse.State
import Kinetick.Proofs.QueryCollapse
import Kinetick.History.TurnConfig
import Kinetick.Proofs.TurnConfig
import Kinetick.PluginHook.Session
import Kinetick.Proofs.PluginHookSessions
import Kinetick.Compaction.CompactContext
import Kinetick.Attempts
import Kinetick.Proofs.CheckpointLadder
import Kinetick.Compaction.ContextManager
import Kinetick.Proofs.ContextCuts
import Kinetick.Proofs.DispatcherRuns
import Kinetick.Proofs.DispatcherWakes

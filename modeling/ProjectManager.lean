import ProjectManager.Actions.AuditTrail
import ProjectManager.Actions.Contract
import ProjectManager.Actions.CredentialScan
import ProjectManager.Actions.DailyCap
import ProjectManager.Actions.Dedup
import ProjectManager.Actions.DedupKey
import ProjectManager.Actions.Gateway
import ProjectManager.Actions.GhApi
import ProjectManager.Actions.HardBlock
import ProjectManager.Actions.Mediation
import ProjectManager.Actions.QueueFidelity
import ProjectManager.Actions.Queueing
import ProjectManager.Actions.RateLimit
import ProjectManager.Actions.Redaction
import ProjectManager.Actions.Rejection
import ProjectManager.Actions.Secrets
import ProjectManager.Actions.Value
import ProjectManager.Agent.ChatCommand
import ProjectManager.Agent.CommandGuard
import ProjectManager.Agent.MemoryMirror
import ProjectManager.Agent.OkrAnalyzer
import ProjectManager.Agent.OkrRollup
import ProjectManager.Agent.OpsCancel
import ProjectManager.Agent.OpsChat
import ProjectManager.Agent.OpsDialogue
import ProjectManager.Agent.OpsRaces
import ProjectManager.Agent.QaAnswer
import ProjectManager.Agent.StepBudgets
import ProjectManager.Agent.StepDefaults
import ProjectManager.Agent.StepGraph
import ProjectManager.Agent.StepSpending
import ProjectManager.Inbox.Answers
import ProjectManager.Inbox.Slack
import ProjectManager.Inbox.Telegram
import ProjectManager.Lib.CanonicalJson
import ProjectManager.Lib.Chronicle
import ProjectManager.Lib.Claims
import ProjectManager.Lib.Execution
import ProjectManager.Lib.Fifo
import ProjectManager.Lib.Frames
import ProjectManager.Lib.Grouping
import ProjectManager.Lib.Implementation
import ProjectManager.Lib.Intake
import ProjectManager.Lib.Interference
import ProjectManager.Lib.JsonObject
import ProjectManager.Lib.KeptLines
import ProjectManager.Lib.Layer
import ProjectManager.Lib.Lines
import ProjectManager.Lib.Markup
import ProjectManager.Lib.Matching
import ProjectManager.Lib.NodeGraph
import ProjectManager.Lib.Occurrences
import ProjectManager.Lib.OpenWindow
import ProjectManager.Lib.OrderedMap
import ProjectManager.Lib.Pairing
import ProjectManager.Lib.Past
import ProjectManager.Lib.Pattern
import ProjectManager.Lib.Precedence
import ProjectManager.Lib.Process
import ProjectManager.Lib.Rounding
import ProjectManager.Lib.Separators
import ProjectManager.Lib.SlidingWindow
import ProjectManager.Lib.Substitution
import ProjectManager.Lib.Table
import ProjectManager.Lib.Text
import ProjectManager.Lib.WeightedMean
import ProjectManager.Llm.Budget
import ProjectManager.Llm.Client
import ProjectManager.Office.Approvals
import ProjectManager.Office.Artifacts
import ProjectManager.Office.Book
import ProjectManager.Office.Costs
import ProjectManager.Office.Coupling
import ProjectManager.Office.Delivery
import ProjectManager.Office.Dispatch
import ProjectManager.Office.Final
import ProjectManager.Office.Handoff
import ProjectManager.Office.Leases
import ProjectManager.Office.Milestones
import ProjectManager.Office.Progress
import ProjectManager.Office.Readiness
import ProjectManager.Office.Remints
import ProjectManager.Office.Retries
import ProjectManager.Office.RetryContract
import ProjectManager.Office.RetryTracker
import ProjectManager.Office.Reviews
import ProjectManager.Office.Room
import ProjectManager.Office.Schedule
import ProjectManager.Office.Slots
import ProjectManager.Office.Snapshots
import ProjectManager.Office.SpawnBound
import ProjectManager.Office.Spawns
import ProjectManager.Office.Stalled
import ProjectManager.Office.Steady
import ProjectManager.Office.System
import ProjectManager.Office.Ticker
import ProjectManager.Office.TickerContract
import ProjectManager.Office.Verdicts
import ProjectManager.Office.Worker
import ProjectManager.Office.WorkerContract
import ProjectManager.Office.World
import ProjectManager.Plan.Amend
import ProjectManager.Plan.AmendContract
import ProjectManager.Plan.Decomposition
import ProjectManager.Plan.Gate
import ProjectManager.Runtime.Firing
import ProjectManager.Runtime.Fleet
import ProjectManager.Runtime.Overdue
import ProjectManager.Runtime.PseudoKinds
import ProjectManager.Runtime.RegistrySafe
import ProjectManager.Runtime.Scheduler
import ProjectManager.Runtime.Service
import ProjectManager.Runtime.TaskIsolation
import ProjectManager.Runtime.TaskLife
import ProjectManager.Runtime.Tasks
import ProjectManager.Server.Auth
import ProjectManager.Server.EnvWriter
import ProjectManager.Server.Login
import ProjectManager.Server.OfficeEventProjection
import ProjectManager.Server.RoomStream
import ProjectManager.Server.RunManager
import ProjectManager.Store.Agreement
import ProjectManager.Store.Confirm
import ProjectManager.Store.Costs
import ProjectManager.Store.Drafts
import ProjectManager.Store.Effects
import ProjectManager.Store.Invariant
import ProjectManager.Store.Ledger
import ProjectManager.Store.Preservation
import ProjectManager.Store.Schema
import ProjectManager.Store.Steps
import ProjectManager.Store.Tasks
import ProjectManager.Store.Workrooms
import ProjectManager.Tools.ConfluenceRead
import ProjectManager.Tools.InjectionScan
import ProjectManager.Tools.OkrTable
import ProjectManager.Tools.Quarantine
import ProjectManager.Tools.SearchFormatter
import ProjectManager.Web.AgentOfficeState
import ProjectManager.Web.Attempts
import ProjectManager.Web.Consults
import ProjectManager.Adapters.McpSessionPool

import Nanna.Lib.Graph
import Nanna.Lib.Except
import Nanna.Lib.Json
import Nanna.Lib.LeftChain
import Nanna.Lib.Dict
import Nanna.Lib.Text
import Nanna.Tasks.Types
import Nanna.Tasks.Graph
import Nanna.Tasks.Validate
import Nanna.Tasks.Repository
import Nanna.Tasks.Effects
import Nanna.Tasks.WellFormed
import Nanna.Tasks.NoWedge
import Nanna.Tasks.ClosedParent
import Nanna.Tasks.Clients
import Nanna.Lib.FirstMatch
import Nanna.Mcp.Protocol
import Nanna.Mcp.Stdio
import Nanna.Mcp.StdioAnswers
import Nanna.Memory.Store
import Nanna.Memory.Ingest
import Nanna.Memory.IngestEffect
import Nanna.Memory.Retain
import Nanna.Memory.Scope
import Nanna.Lib.Moves
import Nanna.Memory.Backfill
import Nanna.Memory.ChunkStore
import Nanna.Memory.ChunkQueue
import Nanna.Memory.Cluster
import Nanna.Memory.Dream
import Nanna.Lib.Bytes
import Nanna.Agent.Context
import Nanna.Lib.Utf8
import Nanna.Tasks.FilterRoundTrip
import Nanna.Memory.Chunking
import Nanna.Lib.Ranking
import Nanna.Memory.ScopedSearch
import Nanna.Memory.Buckets
import Nanna.Memory.Consolidate
import Nanna.Memory.Envelope
import Nanna.Memory.ChunkRank
import Nanna.Memory.Recall
import Nanna.Memory.ClusterScore
import Nanna.Memory.LosslessFold
import Nanna.Tasks.CascadeExact
import Nanna.Tasks.CompleteExact
import Nanna.Tasks.BlockEvents
import Nanna.Tasks.Selection
import Nanna.Scripting.Eviction
import Nanna.Scripting.Undo
import Nanna.Agent.Cut
import Nanna.Agent.Pin
import Nanna.Agent.LiveRequest
import Nanna.Agent.Summarize
import Nanna.Agent.Request
import Nanna.Harness.Run
import Nanna.Harness.Ledger
import Nanna.Harness.Digest
import Nanna.Harness.Abandoned
import Nanna.Harness.Budget
import Nanna.Harness.Grind
import Nanna.Tasks.Acceptance
import Nanna.Lib.JsonPrint
import Nanna.Tasks.LooseScan
import Nanna.Tasks.LooseLiteral
import Nanna.Harness.Acceptance
import Nanna.Lib.Decimal
import Nanna.Scheduler.Cron
import Nanna.Scheduler.CronNext
import Nanna.Lib.Table
import Nanna.Scheduler.Types
import Nanna.Scheduler.Operations
import Nanna.Scheduler.Daemon
import Nanna.Scheduler.Delivery
import Nanna.Scheduler.Mirror
import Nanna.Lib.Wildcard
import Nanna.Scripting.PathKey
import Nanna.Scripting.Resolve
import Nanna.Scripting.Prohibition
import Nanna.Scripting.Ratchet
import Nanna.Scripting.Floor
import Nanna.Llm.Events
import Nanna.Llm.ToolNames
import Nanna.Lib.Utf8Scan
import Nanna.Llm.Decoder
import Nanna.Lib.Blocks
import Nanna.Llm.OpenAi
import Nanna.Lib.Occurrence
import Nanna.Llm.Ollama
import Nanna.Llm.Discipline
import Nanna.Llm.Messages
import Nanna.Llm.Wire
import Nanna.Llm.Heal
import Nanna.Lib.JsonScan
import Nanna.Llm.Truncated
import Nanna.Llm.Responses
import Nanna.Llm.Agreement
import Nanna.Llm.OllamaReplies
import Nanna.Llm.Splitter
import Nanna.Loop.Assembler
import Nanna.Lib.LastSeen
import Nanna.Loop.Dedup
import Nanna.Daemon.Params
import Nanna.Daemon.TaskServices
import Nanna.Daemon.TurnAdmission
import Nanna.Daemon.TurnScheduling
import Nanna.Daemon.ConcurrentAdds
import Nanna.Daemon.DoneVerdicts
import Nanna.Daemon.SuppliedKeys
import Nanna.Daemon.Contracts
import Nanna.Lib.Streak
import Nanna.Loop.Repeats
import Nanna.Loop.Breakers
import Nanna.Loop.Rounds
import Nanna.Daemon.ModelHealth
import Nanna.Channels.Queue
import Nanna.Channels.QueueAccount
import Nanna.Daemon.Sessions
import Nanna.Daemon.SessionAgreement
import Nanna.Loop.Turn
import Nanna.Loop.Answered
import Nanna.Lib.Shell
import Nanna.Scripting.Commands
import Nanna.Daemon.EmbeddingBenches
import Nanna.Daemon.EmbeddingPrimary
import Nanna.Daemon.EmbeddingRouter
import Nanna.Daemon.EmbeddingSweeps
import Nanna.Daemon.EmbeddingSwitches
import Nanna.Tools.Registry
import Nanna.Tools.PolicyNames
import Nanna.Tools.Aliases
import Nanna.Agent.MessageChunks
import Nanna.Memory.MetadataMerge
import Nanna.Memory.Rebinds
import Nanna.Scripting.EvictionOrder
import Nanna.Agent.LiveText
import Nanna.Llm.ValidJson
import Nanna.Llm.TopLevel
import Nanna.Lib.JsonLiteral
import Nanna.Lib.Matches
import Nanna.Lib.Lines
import Nanna.Llm.ControlEscapes
import Nanna.Llm.ThinkRouting
import Nanna.Llm.ThinkStrip
import Nanna.Llm.ModelInfoCache
import Nanna.Llm.LastLine
import Nanna.Scripting.LineEndings
import Nanna.Scripting.DrivePaths
import Nanna.Scripting.DriveRewrites
import Nanna.Loop.Regression
import Nanna.Loop.CallKey
import Nanna.Agent.Compressor
import Nanna.Scripting.LooseSpans
import Nanna.Scripting.EditFile
import Nanna.Loop.ProseOrder
import Nanna.Lib.Single
import Nanna.Llm.TokenEstimate
import Nanna.Memory.PromptWindow
import Nanna.Memory.RankTopK
import Nanna.Daemon.StepLadder
import Nanna.Daemon.StepAttempts
import Nanna.Daemon.StepText
import Nanna.Daemon.Timeline
import Nanna.Daemon.ChatSink
import Nanna.Tasks.ClearExact
import Nanna.Daemon.ClosedClear
import Nanna.Daemon.VerifiedDone
import Nanna.Agent.ToolMemory
import Nanna.Daemon.MemoryGet
import Nanna.Daemon.Recurrence
import Nanna.Llm.ContextLatch
import Nanna.Daemon.Mission
import Nanna.Daemon.MissionEnds
import Nanna.Daemon.MissionReport
import Nanna.Daemon.ChatRuns

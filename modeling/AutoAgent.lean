import AutoAgent.App.LivenessRuns
import AutoAgent.App.SettingsCache
import AutoAgent.App.Summarizer
import AutoAgent.Control.CanaryLife
import AutoAgent.Core.Backtest
import AutoAgent.Core.Capability
import AutoAgent.Core.Disclose
import AutoAgent.Core.NumberLiteral
import AutoAgent.Core.Policy
import AutoAgent.Core.RateLimit
import AutoAgent.Core.RepairProof
import AutoAgent.Execution.Programmatic
import AutoAgent.Execution.WindowsArgv
import AutoAgent.Graph.Frozen
import AutoAgent.Graph.Results
import AutoAgent.Runtime.HostRuns
import AutoAgent.Runtime.Manifest
import AutoAgent.Storage.ApprovalExpiry
import AutoAgent.Storage.Cancellation
import AutoAgent.Storage.FileStore
import AutoAgent.Storage.RouteOutbox
import AutoAgent.Storage.SessionLeases
import AutoAgent.Storage.SessionLog
import AutoAgent.Storage.SessionTurns
import AutoAgent.Storage.Submissions
import AutoAgent.Storage.ToolJournal
import AutoAgent.Storage.WriteBehindLaws

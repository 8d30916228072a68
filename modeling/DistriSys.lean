import DistriSys.Transition.Reach
import DistriSys.Transition.Fifo
import DistriSys.Core.System
import DistriSys.Core.Operations
import DistriSys.Protocol.Integrity
import DistriSys.Protocol.CrashSafety
import DistriSys.Protocol.Release
import DistriSys.Protocol.Exclusive
import DistriSys.Protocol.Terminal
import DistriSys.Protocol.Attempts
import DistriSys.Protocol.Retry
import DistriSys.Protocol.Recovery
import DistriSys.Protocol.LateWorker
import DistriSys.Protocol.Idempotency
import DistriSys.Protocol.Records
import DistriSys.Protocol.LostUpdate
import DistriSys.Protocol.Priority
import DistriSys.Protocol.ManualRetry
import DistriSys.Protocol.Faults
import DistriSys.Protocol.Places
import DistriSys.Protocol.Exits
import DistriSys.Protocol.Operations
import DistriSys.Protocol.CrashRecovery
import DistriSys.Protocol.Isolation
import DistriSys.Protocol.Sequential
import DistriSys.Protocol.EnqueueFaults
import DistriSys.Protocol.Acceptance
import DistriSys.Protocol.Passes
import DistriSys.Protocol.Drain
import DistriSys.Protocol.Shutdown
import DistriSys.Protocol.Stop
import DistriSys.Protocol.Listing
import DistriSys.Protocol.Keys
import DistriSys.Transition.Sweep
import DistriSys.Transition.Worklist
import DistriSys.Js.Contracts
import DistriSys.Protocol.Fifo
import DistriSys.Protocol.KeyReuse
import DistriSys.Protocol.Backoff
import DistriSys.Protocol.Punctual
import DistriSys.Protocol.Detection
import DistriSys.Protocol.Heartbeats
import DistriSys.Protocol.Supervision
import DistriSys.Protocol.Stats
import DistriSys.Protocol.Metrics
import DistriSys.Protocol.Rejections
import DistriSys.Protocol.Survival
import DistriSys.Protocol.Dashboard
import DistriSys.Protocol.Interrupted
import DistriSys.Protocol.Progress
import DistriSys.Protocol.Process
import DistriSys.Protocol.Database
import DistriSys.Protocol.Queues

import Opbox.Foundation.Machine
import Opbox.Foundation.Table
import Opbox.Foundation.AckWindow
import Opbox.Semantic.Outbox
import Opbox.Log.Writer
import Opbox.Engine.OutboxControl
import Opbox.Engine.OutboxLoop
import Opbox.Engine.OutboxInvariant
import Opbox.Engine.OutboxSafety
import Opbox.Log.Types
import Opbox.Engine.SharedMessageBuffer
import Opbox.Engine.ReaderControl
import Opbox.Engine.ReaderLoop
import Opbox.Engine.ReaderSafety
import Opbox.Foundation.SortedList
import Opbox.Fs.Path
import Opbox.Fs.Types
import Opbox.Crdt.TextDoc
import Opbox.Crdt.NamespaceDoc
import Opbox.Crdt.Materialize
import Opbox.Foundation.Transaction
import Opbox.Semantic.Db
import Opbox.Semantic.Statements
import Opbox.Semantic.StableTree
import Opbox.Semantic.Types
import Opbox.Semantic.Scan
import Opbox.Semantic.Staging
import Opbox.Semantic.Import
import Opbox.Semantic.Projection
import Opbox.Semantic.Batch
import Opbox.Foundation.ReplicatedLog
import Opbox.Semantic.Actor
import Opbox.Crdt.Placements
import Opbox.Crdt.TextClock
import Opbox.Workspace.OperationIds
import Opbox.Workspace.Placements
import Opbox.Workspace.LocalDeletes
import Opbox.Semantic.Runtime
import Opbox.Semantic.Lane
import Opbox.Engine.EnginePhase
import Opbox.Engine.Session
import Opbox.Engine.SessionInvariant
import Opbox.Engine.EngineSteps
import Opbox.Engine.LaneSteps
import Opbox.Engine.SessionSafety
import Opbox.Engine.ProjectionEpochs
import Opbox.Engine.SessionProtocol
import Opbox.Engine.IdleWork
import Opbox.Semantic.OutboxShape
import Opbox.Semantic.DaemonOutbox
import Opbox.Engine.OutboxOrder
import Opbox.Engine.AppendHistory
import Opbox.Engine.DrainTimer
import Opbox.Engine.Connectivity
import Opbox.Engine.Clone
import Opbox.Semantic.Batching
import Opbox.Foundation.Text
import Opbox.Log.Codec
import Opbox.Log.RoundTrip
import Opbox.Semantic.CompletedProjection
import Opbox.Foundation.Effect
import Opbox.Fs.Syscalls
import Opbox.Fs.Ignore
import Opbox.Fs.LocalFileIO
import Opbox.Fs.Disk
import Opbox.Fs.ScopedScan
import Opbox.Foundation.Recorded
import Opbox.Fs.Termination
import Opbox.Fs.Answers
import Opbox.App.DaemonLock
import Opbox.Crdt.ConflictResolution
import Opbox.Semantic.StableTreeDelta
import Opbox.Semantic.ScanDrift
import Opbox.Foundation.Interference
import Opbox.Fs.GuardedWrite
import Opbox.Crdt.TextCapture
import Opbox.Semantic.DiskStep
import Opbox.Semantic.OwnFiles
import Opbox.Semantic.Realignment
import Opbox.Semantic.ImportRun
import Opbox.Semantic.ImportCapture
import Opbox.Semantic.StagingTable
import Opbox.Semantic.Renames
import Opbox.Fs.PathText
import Opbox.Engine.ScanRequests
import Opbox.Semantic.SqlRows
import Opbox.Semantic.Clocks
import Opbox.Semantic.Persistence
import Opbox.Fs.TempFiles
import Opbox.Engine.Cleanup
import Opbox.Workspace.Rest
import Opbox.Fs.GuardedDelete
import Opbox.Fs.Volume
import Opbox.Fs.VolumeCalls
import Opbox.Engine.PlanExecution
import Opbox.Engine.DeleteEvidence
import Opbox.Engine.ImportCycle
import Opbox.Engine.QuietCycle
import Opbox.Engine.CloneProjection
import Opbox.Engine.ClonedLog

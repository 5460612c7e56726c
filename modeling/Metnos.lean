import Metnos.Lib.Table
import Metnos.Lib.Transaction
import Metnos.Durable.Models
import Metnos.Durable.Store
import Metnos.Durable.Admission
import Metnos.Durable.Settle
import Metnos.Durable.Attempts
import Metnos.Durable.Completion
import Metnos.Durable.Claim
import Metnos.Durable.Materialize
import Metnos.Durable.System
import Metnos.Durable.Refine.Core
import Metnos.Durable.Refine.Lease
import Metnos.Durable.Refine.Claim
import Metnos.Durable.Refine.Transact
import Metnos.Durable.Refine.Admit
import Metnos.Durable.Shape
import Metnos.Durable.Erasure
import Metnos.Durable.Frame
import Metnos.Durable.Reduction
import Metnos.Durable.Grouping
import Metnos.Durable.Roots
import Metnos.Durable.Bound
import Metnos.Durable.Attention
import Metnos.Durable.Ledger
import Metnos.Durable.Writes
import Metnos.Durable.History
import Metnos.Durable.Capacity
import Metnos.Durable.Coverage
import Metnos.Durable.Completed
import Metnos.Durable.Snapshots
import Metnos.Durable.Reservations
import Metnos.Durable.Tokens
import Metnos.Durable.Compile
import Metnos.Durable.Provenance
import Metnos.Durable.Candidates
import Metnos.Durable.Keyed
import Metnos.Durable.Archive
import Metnos.Durable.Meaning
import Metnos.Durable.Outbox
import Metnos.Durable.Delivery
import Metnos.Durable.Sending
import Metnos.Lib.Count
import Metnos.Scheduler.Slots
import Metnos.Scheduler.Admission
import Metnos.Scheduler.Conservation
import Metnos.Scheduler.Fairness
import Metnos.Lib.Dynamic
import Metnos.Engine.Effects
import Metnos.Engine.Projection
import Metnos.Engine.Pipeline
import Metnos.Engine.Locality
import Metnos.Engine.CoerceArgs
import Metnos.Engine.Fastpath
import Metnos.Users.Alone
import Metnos.Lib.Json
import Metnos.Lib.CodePoints
import Metnos.Lib.Utf8
import Metnos.Lib.PyJson
import Metnos.Lib.IsoFormat
import Metnos.Lib.Monitor
import Metnos.Lib.ProcessTable
import Metnos.Lib.Reservation
import Metnos.Lib.Regex
import Metnos.Lib.Texts
import Metnos.Lib.Sorting
import Metnos.Lib.LastMax
import Metnos.Lib.Recent
import Metnos.Isolation.Gate
import Metnos.Invocations.Queue
import Metnos.Invocations.System
import Metnos.Invocations.Lifecycle
import Metnos.Invocations.Cursor
import Metnos.Invocations.Undo
import Metnos.Invocations.LateUndo
import Metnos.Undo.Selection
import Metnos.Undo.Durable
import Metnos.Undo.Turns
import Metnos.Undo.NextUndo
import Metnos.Filesystem.Grants
import Metnos.Filesystem.Normal
import Metnos.Filesystem.SameGrants
import Metnos.Filesystem.Changes
import Metnos.Filesystem.Retrace
import Metnos.Dialogs.Calls
import Metnos.Dialogs.Callbacks
import Metnos.Dialogs.Sweep
import Metnos.Dialogs.Delivery
import Metnos.Records.Completion
import Metnos.Records.Own
import Metnos.Entries.Values
import Metnos.Entries.SortEntries
import Metnos.Entries.GroupEntries
import Metnos.Entries.Grouping
import Metnos.Epochs.Store
import Metnos.Epochs.Changes
import Metnos.Epochs.Machine
import Metnos.Epochs.Cache
import Metnos.Epochs.Lossless
import Metnos.Ownership.Heads
import Metnos.Ownership.Store
import Metnos.Ownership.Forward
import Metnos.Ownership.Determined
import Metnos.Ownership.Certificates
import Metnos.Client.SelfUpdate
import Metnos.Client.Probation
import Metnos.Client.Wire
import Metnos.Client.Received
import Metnos.Client.Accept
import Metnos.Client.Runner
import Metnos.Client.AtMostOnce
import Metnos.Artifacts.Blobs
import Metnos.Artifacts.Integrity
import Metnos.Artifacts.Publish
import Metnos.Artifacts.Recovery
import Metnos.Helper.Protocol
import Metnos.Helper.Bodies
import Metnos.Helper.Service
import Metnos.Helper.Replay
import Metnos.Sanitizer.Digits
import Metnos.Lib.PosixPath
import Metnos.Durable.Lanes
import Metnos.Artifacts.Downloads
import Metnos.Durable.Inventory
import Metnos.Durable.EntryCursor
import Metnos.Jobs.Daemon
import Metnos.Jobs.Moves
import Metnos.Jobs.Finite
import Metnos.Jobs.Honest
import Metnos.Durable.Commands
import Metnos.Durable.Sweep
import Metnos.Lib.WinArgs
import Metnos.Client.CommandLine
import Metnos.Client.TornLedger
import Metnos.Contracts.CodeDigest
import Metnos.Contracts.ProcessLock
import Metnos.Lib.Files
import Metnos.Jobs.OwnerPurge
import Metnos.Jobs.Triggers
import Metnos.Jobs.Refire
import Metnos.Tabular.Workbook
import Metnos.Tabular.Reading
import Metnos.Tabular.Compile
import Metnos.Tabular.Noninterference
import Metnos.Tabular.Limits

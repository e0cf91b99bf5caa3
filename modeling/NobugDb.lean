import NobugDb.Storage.Proofs.CrashAtomicity
import NobugDb.Storage.Proofs.Recovery
import NobugDb.Network.Proofs.Placement
import NobugDb.Executor.Proofs.CheckConditions
import NobugDb.Core.Proofs.IndexDefinitions
import NobugDb.Core.Proofs.PartitionConstraints
import NobugDb.Executor.Proofs.RepeatedUpdates
import NobugDb.Executor.Proofs.ReferentialActions
import NobugDb.Network.Proofs.Framing
import NobugDb.Core.Proofs.FinalStatuses
import NobugDb.Core.Proofs.LockedRows
import NobugDb.Core.Proofs.ReaderSessions
import NobugDb.Executor.Proofs.ColumnOrder
import NobugDb.Network.Proofs.EndedConnections
import NobugDb.Core.Proofs.GuardedWaits
import NobugDb.Storage.Proofs.BackupRoundTrip
import NobugDb.Network.Proofs.PinnedTransactions
import NobugDb.Executor.Proofs.PartitionChildren
import NobugDb.Executor.Proofs.Grouping
import NobugDb.Core.Proofs.CatalogFiles
import NobugDb.Core.Proofs.RelationNames
import NobugDb.Storage.Proofs.PageReads
import NobugDb.Storage.Proofs.TupleRoundTrip
import NobugDb.Storage.Proofs.ClockSweep
import NobugDb.Core.Proofs.LockProgress
import NobugDb.Storage.Proofs.InterruptedRecovery

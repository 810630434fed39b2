import Drunix.Ledger.MvccBlocks
import Drunix.Ledger.Reconciliation.OldBlocks
import Drunix.Ledger.Simulation.TxSimulator
import Drunix.Ledger.StateSql.Columns
import Drunix.Ledger.StateSql.Isolation
import Drunix.Ledger.StateSql.Savepoints
import Drunix.Ledger.Validation.LiteConversion
import Drunix.Ledger.Validation.KeyMerge
import Drunix.Ledger.Validation.MerkleSummaries
import Drunix.Ledger.Validation.CombinedIterator
import Drunix.Orderer.Sparse.CrashRestart
import Drunix.Orderer.Sparse.FatBlockFeed
import Drunix.Peer.RemoteValidation
import Drunix.Peer.Restarts
import Drunix.Gossip.PvtdataHashes
import Drunix.Peer.Recommit
import Drunix.Peer.ValidationContext
import Drunix.Orderer.BatchLoop
import Drunix.Orderer.Membership
import Drunix.Gossip.PayloadsBuffer
import Drunix.Gossip.SharedPurge
import Drunix.Gossip.DataRetriever
import Drunix.Ledger.Expiry.PrivateReads
import Drunix.Orderer.Sparse.HeadWaiters
import Drunix.Policies.CauthDsl
import Drunix.BlkStorage.Crashes
import Drunix.Peer.InvalidTransactions
import Drunix.Orderer.Sparse.LastConfig
import Drunix.Gossip.LtxPurge
import Drunix.Peer.QueryExecuter
import Drunix.Ledger.StateSql.VersionWorkers
import Drunix.Peer.VsccServer
import Drunix.Peer.PreValidation
import Drunix.Peer.VpQueries
import Drunix.Ledger.VarUintOrder
import Drunix.Transient.Batcher

import VotingChain.Lib.Base64
import VotingChain.Lib.Batches
import VotingChain.Lib.Blake2
import VotingChain.Lib.ChaCha20Poly1305
import VotingChain.Lib.Codec
import VotingChain.Lib.Digest
import VotingChain.Lib.FixedWindow
import VotingChain.Lib.Format
import VotingChain.Lib.Hexadecimal
import VotingChain.Lib.Indexed
import VotingChain.Lib.Locks
import VotingChain.Lib.Loops
import VotingChain.Lib.Lru
import VotingChain.Lib.Maps
import VotingChain.Lib.Outbox
import VotingChain.Lib.Paging
import VotingChain.Lib.PairTree
import VotingChain.Lib.Passes
import VotingChain.Lib.Quorum
import VotingChain.Lib.RangeScan
import VotingChain.Lib.RoundRobin
import VotingChain.Lib.RunScan
import VotingChain.Lib.Runs
import VotingChain.Lib.Sha3
import VotingChain.Lib.SlotLog
import VotingChain.Lib.Text
import VotingChain.Lib.Windows
import VotingChain.Lib.Worklist
import VotingChain.Lib.WriteLog
import VotingChain.Common
import VotingChain.Transaction
import VotingChain.Merkle
import VotingChain.Block
import VotingChain.Genesis
import VotingChain.Chain
import VotingChain.Reference
import VotingChain.ChainInv
import VotingChain.Pruning
import VotingChain.MerkleProofs
import VotingChain.MerkleRoots
import VotingChain.Database
import VotingChain.Backends
import VotingChain.Store
import VotingChain.StoreIndex
import VotingChain.StoreRuns
import VotingChain.StoreCrash
import VotingChain.StorageManager
import VotingChain.StateStore
import VotingChain.StateEntries
import VotingChain.StateElections
import VotingChain.StateReopened
import VotingChain.Snapshot
import VotingChain.SnapshotFiles
import VotingChain.SnapshotRuns
import VotingChain.Cache
import VotingChain.CacheLocks
import VotingChain.Jurisdiction
import VotingChain.Descendants
import VotingChain.JurisdictionPaths
import VotingChain.HashBinding
import VotingChain.ChainVerify
import VotingChain.Consensus
import VotingChain.Validators
import VotingChain.Node
import VotingChain.PendingSet
import VotingChain.Network
import VotingChain.Turns
import VotingChain.Broadcasts
import VotingChain.ConsensusArithmetic
import VotingChain.Finality
import VotingChain.FinalityRuns
import VotingChain.Engine
import VotingChain.LightNode
import VotingChain.LightGenesis
import VotingChain.Gossip
import VotingChain.Reputation
import VotingChain.Discovery
import VotingChain.PeerLimit
import VotingChain.Transport
import VotingChain.MessageFrame
import VotingChain.Protocol
import VotingChain.GossipRuns
import VotingChain.GossipWindow
import VotingChain.Sync
import VotingChain.SyncRuns
import VotingChain.SyncBatches
import VotingChain.SyncQueue
import VotingChain.Crypto
import VotingChain.Hashing
import VotingChain.Ballot
import VotingChain.VoteCasting
import VotingChain.Verification
import VotingChain.Integrity
import VotingChain.BallotPrivacy
import VotingChain.ElectionDay
import VotingChain.RangeProofs
import VotingChain.Encryption
import VotingChain.KeyFiles
import VotingChain.Anonymity
import VotingChain.BallotRules
import VotingChain.BallotBinding
import VotingChain.Registration
import VotingChain.Voters
import VotingChain.Registries
import VotingChain.Eligibility
import VotingChain.Turnout
import VotingChain.Tally
import VotingChain.Threshold
import VotingChain.Ceremony
import VotingChain.RpcServer
import VotingChain.RpcReads
import VotingChain.BlockchainMethods
import VotingChain.ElectionFilter
import VotingChain.RateLimiter
import VotingChain.Patterns
import VotingChain.PatternSafety
import VotingChain.TemporalClusters
import VotingChain.LedgerReads
import VotingChain.ElectionResults
import VotingChain.JurisdictionQueries
import VotingChain.Provisional

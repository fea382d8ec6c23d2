import AlgodRust.Basics
import AlgodRust.Lib.FinMap
import AlgodRust.Lib.Journal
import AlgodRust.Lib.Run
import AlgodRust.Lib.Tally
import AlgodRust.Lib.Msgpack
import AlgodRust.Agreement.Types
import AlgodRust.Agreement.VoteTracker
import AlgodRust.Agreement.VoteTally
import AlgodRust.Agreement.Bundle
import AlgodRust.Agreement.BundleProof
import AlgodRust.Agreement.Events
import AlgodRust.Agreement.VoteAggregator
import AlgodRust.Agreement.ProposalStore
import AlgodRust.Agreement.Player
import AlgodRust.Agreement.PlayerEffect
import AlgodRust.Agreement.PlayerRuns
import AlgodRust.Agreement.NextVotes
import AlgodRust.Ledger.Types
import AlgodRust.Ledger.Tail
import AlgodRust.Ledger.CheckDup
import AlgodRust.Ledger.ReplayProtection
import AlgodRust.Ledger.Store
import AlgodRust.Ledger.Apply
import AlgodRust.Codec.Canonical
import AlgodRust.Ledger.SignedExecuted
import AlgodRust.Validate.Merkle
import AlgodRust.Validate.Block
import AlgodRust.Validate.VerifiedTxnCache
import AlgodRust.Ledger.EvalBlock
import AlgodRust.Ledger.ProposalCheck
import AlgodRust.Ledger.Upgrade
import AlgodRust.Ledger.Rewards
import AlgodRust.Ledger.ApplyFrame
import AlgodRust.Ledger.Conservation
import AlgodRust.Ledger.BlockFrame
import AlgodRust.Ledger.AssetSupply
import AlgodRust.Ledger.BlockHeader
import AlgodRust.Ledger.UpgradeRuns
import AlgodRust.Ledger.ProposalSafety
import AlgodRust.Avm.Opcode
import AlgodRust.Avm.Bytecode
import AlgodRust.Avm.Machine
import AlgodRust.Avm.ControlFlow
import AlgodRust.Avm.Effects
import AlgodRust.Avm.Eval
import AlgodRust.Avm.Tracing
import AlgodRust.Ledger.PendingOverlay
import AlgodRust.Crypto.MerkleArray
import AlgodRust.Crypto.MerkleComplete
import AlgodRust.Crypto.VectorCommitment
import AlgodRust.Crypto.StateProof
import AlgodRust.Crypto.StateProofComplete
import AlgodRust.Validate.Fee
import AlgodRust.Ledger.Boxes
import AlgodRust.Ledger.BoxAccounting
import AlgodRust.Ledger.Applications
import AlgodRust.Ledger.AppCounters
import AlgodRust.Ledger.InnerCalls
import AlgodRust.Ledger.InnerPools
import AlgodRust.Ledger.InnerHalting
import AlgodRust.Lib.Reader
import AlgodRust.Agreement.VerifyWaves
import AlgodRust.Network.WireCodec
import AlgodRust.Network.WireRoundTrip
import AlgodRust.Network.WireCanonical
import AlgodRust.Pool.TransactionPool
import AlgodRust.Pool.Consistency
import AlgodRust.Pool.PureTest
import AlgodRust.Pool.BlockSpace
import AlgodRust.Agreement.Assemblers
import AlgodRust.Ledger.Rollback
import AlgodRust.Trie.Cache
import AlgodRust.Trie.MerkleTrie
import AlgodRust.Trie.Commit
import AlgodRust.Trie.Eviction
import AlgodRust.Lib.Keyed
import AlgodRust.Trie.Represents
import AlgodRust.Trie.Upkeep
import AlgodRust.Trie.SetModel
import AlgodRust.Trie.Rehash
import AlgodRust.Ledger.CatchupPass
import AlgodRust.Ledger.CatchupSchedules
import AlgodRust.Ledger.PayRewards
import AlgodRust.Ledger.TxTailCache
import AlgodRust.Trie.Canonical
import AlgodRust.Avm.Layout
import AlgodRust.Avm.BranchTargets
import AlgodRust.Avm.Operations
import AlgodRust.Avm.Json
import AlgodRust.Avm.Fields
import AlgodRust.Avm.CryptoOps
import AlgodRust.Avm.StateOps
import AlgodRust.Avm.Dispatch
import AlgodRust.Avm.Limits
import AlgodRust.Avm.OpLimits
import AlgodRust.Avm.ValueSizes
import AlgodRust.Avm.StaticCost
import AlgodRust.Avm.Frames
import AlgodRust.Ledger.OverlayStore
import AlgodRust.Avm.SquareRoot
import AlgodRust.Crypto.OneTimeKeys
import AlgodRust.Crypto.MerkleOpenings
import AlgodRust.Abi.Types
import AlgodRust.Lib.HeadTail
import AlgodRust.Abi.Codec
import AlgodRust.Abi.Layout
import AlgodRust.Abi.RoundTrip
import AlgodRust.Abi.Strict
import AlgodRust.Ledger.BoxBudget
import AlgodRust.Ledger.AppState
import AlgodRust.Ledger.Schemas
import AlgodRust.Ledger.ClearState
import AlgodRust.Ledger.CounterRuns
import AlgodRust.Catchpoint.Label
import AlgodRust.Crypto.BinomialWalk
import AlgodRust.Pool.AppRateWindow
import AlgodRust.Pool.Assembly
import AlgodRust.Pool.ElasticRateLimiter
import AlgodRust.Pool.FinalizePayset
import AlgodRust.Pool.StatusRecords
import AlgodRust.Avm.Powers
import AlgodRust.Crypto.Passphrase
import AlgodRust.Network.MessageFilter
import AlgodRust.Network.PeerRanker
import AlgodRust.Trie.MerklePage
import AlgodRust.Catchpoint.LookbackDownload

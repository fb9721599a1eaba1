import QbitPrism.Lib.MachineInt
import QbitPrism.Lib.Checked
import QbitPrism.Lib.LargestRemainder
import QbitPrism.Lib.MergeByKey
import QbitPrism.Lib.SortBy
import QbitPrism.Lib.Hex
import QbitPrism.Lib.ByteReader
import QbitPrism.Lib.Framing
import QbitPrism.Lib.Payments
import QbitPrism.Lib.Crossing
import QbitPrism.Lib.Chunks
import QbitPrism.Window.Cut
import QbitPrism.Payout.Types
import QbitPrism.Payout.Allocation
import QbitPrism.Payout.Aggregation
import QbitPrism.Payout.Policy
import QbitPrism.Payout.Accounts
import QbitPrism.Payout.Conservation
import QbitPrism.Payout.Feasibility
import QbitPrism.Payout.Maturity
import QbitPrism.Payout.Divergence
import QbitPrism.Payout.Spelling
import QbitPrism.Node
import QbitPrism.CarryOwner.Guard
import QbitPrism.CarryOwner.Transfer
import QbitPrism.CarryOwner.Protocol
import QbitPrism.CarryOwner.Exclusion
import QbitPrism.Tx.Codec
import QbitPrism.Tx.Serialize
import QbitPrism.Tx.Strip
import QbitPrism.Tx.Hash
import QbitPrism.Coinbase.Builder
import QbitPrism.Coinbase.Outputs
import QbitPrism.Coinbase.Parent
import QbitPrism.Coinbase.Exact
import QbitPrism.Ctv.Precommitment
import QbitPrism.Ctv.Manifest
import QbitPrism.Ctv.Accepted
import QbitPrism.Ctv.Build
import QbitPrism.Ctv.Built
import QbitPrism.Ctv.Finalised
import QbitPrism.Coinbase.Readers
import QbitPrism.Settlement.Fee
import QbitPrism.Settlement.Proportional
import QbitPrism.Settlement.Mode
import QbitPrism.Settlement.Charged
import QbitPrism.Settlement.Partition
import QbitPrism.Settlement.Weight
import QbitPrism.Window.Reward
import QbitPrism.Window.Digests
import QbitPrism.Window.Pages
import QbitPrism.Window.Advance
import QbitPrism.Window.Rebuild
import QbitPrism.Window.Surgery
import QbitPrism.Window.Greedy
import QbitPrism.Window.Parallel
import QbitPrism.Payout.Overflow
import QbitPrism.Audit.Bundle
import QbitPrism.Audit.Accepted
import QbitPrism.Audit.Soundness
import QbitPrism.Lib.Transition
import QbitPrism.Parallel.OrderedChunks
import QbitPrism.Parallel.InOrder
import QbitPrism.CarryGate.Gate
import QbitPrism.CarryGate.Fence
import QbitPrism.Retention.Kept
import QbitPrism.Lib.Fields
import QbitPrism.Audit.Stored
import QbitPrism.Audit.Landing
import QbitPrism.Audit.Build
import QbitPrism.Audit.Settled
import QbitPrism.Audit.Agree
import QbitPrism.Audit.LetterCase
import QbitPrism.Stratum.Merkle
import QbitPrism.Stratum.Codec
import QbitPrism.Stratum.Blocks
import QbitPrism.Stratum.Submissions
import QbitPrism.Coinbase.Reserved
import QbitPrism.Payout.Reorg
import QbitPrism.CarryOwner.Walk
import QbitPrism.Payout.Order
import QbitPrism.Audit.BodyRef
import QbitPrism.Lib.CompactJson
import QbitPrism.Audit.HashSplit
import QbitPrism.Lib.Keyset
import QbitPrism.Ledger.Rows
import QbitPrism.Ledger.Scan
import QbitPrism.Ledger.Durable
import QbitPrism.Ledger.Delta
import QbitPrism.Lib.Replay
import QbitPrism.Ledger.ChainView
import QbitPrism.Coordinator.TipState
import QbitPrism.Lib.KeyMap
import QbitPrism.Stratum.RetainedJobs
import QbitPrism.Lib.Decimal
import QbitPrism.Coordinator.FeeFloor
import QbitPrism.Coordinator.IssuedBatcher
import QbitPrism.Broadcaster.SpendScan
import QbitPrism.Ledger.PreparedChunks
import QbitPrism.Api.Ratio

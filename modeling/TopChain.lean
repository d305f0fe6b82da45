import TopChain.Lib.PairTree
import TopChain.Lib.CInt
import TopChain.Lib.SortedMap
import TopChain.Lib.Hops
import TopChain.Lib.Codec
import TopChain.Merkle.Model
import TopChain.Merkle.Tree
import TopChain.Merkle.Complete
import TopChain.Merkle.Sound
import TopChain.StateAccessor
import TopChain.ReceiptId
import TopChain.TxQueue.Model
import TopChain.TxQueue.Invariant
import TopChain.Bft.Rules
import TopChain.Bft.Driver
import TopChain.Bft.Invariant
import TopChain.Lib.Binlog
import TopChain.Vledger.Property
import TopChain.Vledger.State
import TopChain.Vledger.Replay
import TopChain.Lib.WordBitmap
import TopChain.Sync.Span
import TopChain.Sync.ChainSpans
import TopChain.Sync.Tracks
import TopChain.Sync.Invariant
import TopChain.Sync.Interval
import TopChain.BlockStore.Model
import TopChain.BlockStore.Frame
import TopChain.BlockStore.Invariant
import TopChain.BlockStore.Changes
import TopChain.Vledger.Checked
import TopChain.Vledger.Dispatch
import TopChain.Receipts.Model
import TopChain.Receipts.Lacking
import TopChain.Receipts.Invariant
import TopChain.Receipts.Select
import TopChain.Receipts.ProcessedHeight
import TopChain.Routing.BookMapping
import TopChain.Vledger.Canvas
import TopChain.TxQueue.GetTxs
import TopChain.Lib.GroupedOrder
import TopChain.TxQueue.ReadyOrder
import TopChain.Lib.Quorum
import TopChain.Bft.Votes
import TopChain.Lib.KeyInterval
import TopChain.Receipts.UnconfirmIdHeight
import TopChain.Receipts.UnconfirmCache
import TopChain.Receipts.LatestLacking
import TopChain.Receipts.HeightBitmap
import TopChain.Bft.Commit
import TopChain.Bft.Moves
import TopChain.Bft.Safety
import TopChain.Bft.Equivocation
import TopChain.Bft.Ordered
import TopChain.Bft.Context
import TopChain.Bft.Pacemaker

import TopChain.Lib.SortedMap
import TopChain.ReceiptId
import Mathlib.Algebra.GroupWithZero.Nat

/-!
# The receipt queue of a table

`xreceipt_queue_new_t` holds the receive and confirm receipts waiting for a table
block.  All of them sit in one queue, a `std::multiset` ordered by
`xreceipt_set_comp`; each is also filed in a table of its own kind and peer table
(`xpeer_table_receipts_t`), a `std::map` from receipt id to receipt together with
the largest id already taken into a block (`m_latest_receipt_id`).

`get_txs` proposes receipts for a block.  It walks the queue and collects, per
peer table, the table's receipts up to the one met (`get_txs` of the table),
counting them against twice the limit; it then keeps, per peer table, the run of
receipts whose ids continue the peer's last confirmed (or received) id, confirm
receipts first.  `get_lacking_ids` lists the receipt ids a table has not received.

Receipt ids and peer table ids are naturals; the queue's order is kept as the
order of a list, and a receipt's hash finds it in the queue (the queue's
`m_tx_map`).  `xassert` on a peer table that must exist is read as `none` where
`get_txs` dereferences it.

## Main definitions

* `Receipt`, `PeerTable`, `ReceiptQueue` — the receipts, the tables and the queue.
* `PeerTable.getLackingIds` — the ids a table lacks.
* `ReceiptQueue.getTxs` — the receipts proposed for a block.
* `ReceiptQueue.step`, `ReceiptQueue.run` — the calls that change the queue.
-/

namespace TopChain

namespace Receipts

/-- A receipt: a receive or a confirm receipt, the peer table it comes from or goes
to (`get_peer_tableid`), its receipt id (`get_last_action_receipt_id`), its hash,
and the three scores its queue entry is ordered by. -/
structure Receipt where
  isRecv : Bool
  peer : ℕ
  receiptId : ℕ
  hash : ℕ
  txTypeScore : ℕ
  timestamp : ℕ
  chargeScore : ℕ
  deriving DecidableEq, Repr, Inhabited

/-- A receipt's subtype. -/
def Receipt.subtype (r : Receipt) : ReceiptId.TxSubtype :=
  if r.isRecv then .recv else .confirm

/-- `xreceipt_set_comp`: the higher type score first, then the earlier timestamp,
then the higher charge score. -/
def receiptSetComp (left right : Receipt) : Bool :=
  if left.txTypeScore = right.txTypeScore then
    if left.timestamp = right.timestamp then right.chargeScore < left.chargeScore
    else left.timestamp < right.timestamp
  else right.txTypeScore < left.txTypeScore

/-! ### The queue of all receipts (`xreceipt_queue_internal_t`) -/

/-- `insert_tx`: `std::multiset::insert` puts a receipt after every receipt it is
not ordered before. -/
def insertTx (r : Receipt) : List Receipt → List Receipt
  | [] => [r]
  | x :: xs => if receiptSetComp r x then r :: x :: xs else x :: insertTx r xs

/-- `erase_tx`: the receipt of that hash leaves the queue. -/
def eraseTx (hash : ℕ) (queue : List Receipt) : List Receipt :=
  queue.eraseP fun r => r.hash = hash

/-- `find`: the receipt of that hash. -/
def findTx (hash : ℕ) (queue : List Receipt) : Option Receipt :=
  queue.find? fun r => r.hash = hash

/-! ### The receipts of one peer table (`xpeer_table_receipts_t`) -/

/-- The return codes of `push_tx`: `xsuccess`, `xtxpool_error_tx_duplicate` and
`xtxpool_error_request_tx_repeat`. -/
inductive PushResult
  | success
  | txDuplicate
  | requestTxRepeat
  deriving DecidableEq, Repr

/-- The receipts of one kind and peer table by receipt id (`m_txs`, in key order)
and the largest id already taken (`m_latest_receipt_id`). -/
structure PeerTable where
  txs : List (ℕ × Receipt)
  latestReceiptId : ℕ
  sorted : txs.Pairwise fun a b => a.1 < b.1

namespace PeerTable

/-- A table as `std::make_shared<xpeer_table_receipts_t>` creates it. -/
def empty : PeerTable := ⟨[], 0, List.Pairwise.nil⟩

/-- `push_tx`: a receipt whose id is new and above the largest taken is filed under
its id and enters the queue. -/
def pushTx (p : PeerTable) (queue : List Receipt) (r : Receipt) :
    PeerTable × List Receipt × PushResult :=
  if r.receiptId ≤ p.latestReceiptId then (p, queue, .txDuplicate)
  else if (p.txs.lookup r.receiptId).isSome then (p, queue, .requestTxRepeat)
  else
    (⟨upsert (fun _ => r) p.txs r.receiptId, p.latestReceiptId,
      pairwise_upsert _ r.receiptId p.sorted⟩, insertTx r queue, .success)

/-- `update_latest_receipt_id`: a larger id drops the receipts up to it, from the
table and from the queue. -/
def updateLatestReceiptId (p : PeerTable) (queue : List Receipt) (latestReceiptId : ℕ) :
    PeerTable × List Receipt :=
  if latestReceiptId ≤ p.latestReceiptId then (p, queue)
  else
    ( ⟨p.txs.dropWhile (fun e => e.1 ≤ latestReceiptId), latestReceiptId,
        p.sorted.sublist (List.dropWhile_sublist _)⟩,
      (p.txs.takeWhile fun e => e.1 ≤ latestReceiptId).foldl (fun q e => eraseTx e.2.hash q) queue)

/-- `get_txs`: the receipts up to `upperReceiptId`, or none if they are more than
`maxNum`. -/
def getTxs (p : PeerTable) (upperReceiptId maxNum : ℕ) : List Receipt :=
  let retTxs := (p.txs.takeWhile fun e => e.1 ≤ upperReceiptId).map (·.2)
  if retTxs.length ≤ maxNum then retTxs else []

/-- `erase`: the receipt of that id leaves the table and the queue. -/
def erase (p : PeerTable) (queue : List Receipt) (receiptId : ℕ) : PeerTable × List Receipt :=
  match p.txs.lookup receiptId with
  | some r =>
    (⟨eraseKey p.txs receiptId, p.latestReceiptId, p.sorted.sublist (List.eraseP_sublist)⟩,
      eraseTx r.hash queue)
  | none => (p, queue)

/-- The gap-filling loop of `get_lacking_ids`: before each receipt, the ids
between the previous one (`last_receipt_id`) and it. -/
def lackingBetween : ℕ → List (ℕ × Receipt) → List ℕ
  | _, [] => []
  | last, (receiptId, _) :: rest =>
    (if receiptId ≠ last + 1 then List.range' (last + 1) (receiptId - (last + 1)) else []) ++
      lackingBetween receiptId rest

/-- The largest receipt id held, or the largest taken when the table is empty. -/
def lastReceiptId (p : PeerTable) : ℕ :=
  match p.txs.getLast? with
  | some e => e.1
  | none => p.latestReceiptId

/-- `get_lacking_ids`: nothing when the table holds as many receipts as there are
ids up to `maxPullId`; else the gaps before each receipt, then the ids after the
last one up to `maxPullId`.  (In `uint64_t` the difference wraps when `maxPullId`
is below the largest taken; the table then has no receipt up to `maxPullId` and
both readings return the same ids.) -/
def getLackingIds (p : PeerTable) (maxPullId : ℕ) : List ℕ :=
  if p.txs.length = maxPullId - p.latestReceiptId then []
  else
    lackingBetween p.latestReceiptId p.txs ++
      List.range' (p.lastReceiptId + 1) (maxPullId - p.lastReceiptId)

end PeerTable

/-! ### The queue (`xreceipt_queue_new_t`) -/

/-- The queue of all receipts (`m_receipt_queue_internal`) and the tables of
receive and of confirm receipts by peer table id. -/
structure ReceiptQueue where
  queue : List Receipt
  recvTables : List (ℕ × PeerTable)
  confirmTables : List (ℕ × PeerTable)

namespace ReceiptQueue

/-- The queue as constructed: empty, with no tables. -/
def empty : ReceiptQueue := ⟨[], [], []⟩

/-- `get_peer_table_map`: the tables of receive or of confirm receipts. -/
def tables (q : ReceiptQueue) (isRecv : Bool) : List (ℕ × PeerTable) :=
  if isRecv then q.recvTables else q.confirmTables

/-- Write back the tables of one kind. -/
def setTables (q : ReceiptQueue) (isRecv : Bool) (m : List (ℕ × PeerTable)) : ReceiptQueue :=
  if isRecv then { q with recvTables := m } else { q with confirmTables := m }

/-- Write back one table and the queue its call changed. -/
def putTable (q : ReceiptQueue) (isRecv : Bool) (peer : ℕ) (p : PeerTable)
    (queue : List Receipt) : ReceiptQueue :=
  { q.setTables isRecv (upsert (fun _ => p) (q.tables isRecv) peer) with queue := queue }

@[simp] theorem queue_putTable (q : ReceiptQueue) (isRecv : Bool) (peer : ℕ) (p : PeerTable)
    (queue : List Receipt) : (q.putTable isRecv peer p queue).queue = queue := by
  unfold putTable setTables
  split <;> rfl

theorem tables_setTables (q : ReceiptQueue) (isRecv : Bool) (m : List (ℕ × PeerTable))
    (isRecv' : Bool) :
    (q.setTables isRecv m).tables isRecv' = if isRecv' = isRecv then m else q.tables isRecv' := by
  unfold setTables tables
  cases isRecv <;> cases isRecv' <;> rfl

/-- After a table is written back, its key finds it and the other keys what they
found before. -/
theorem lookup_putTable (q : ReceiptQueue) (isRecv : Bool) (peer : ℕ) (p : PeerTable)
    (queue : List Receipt) (isRecv' : Bool) (peer' : ℕ) :
    ((q.putTable isRecv peer p queue).tables isRecv').lookup peer' =
      if isRecv' = isRecv ∧ peer' = peer then some p else (q.tables isRecv').lookup peer' := by
  have htables : (q.putTable isRecv peer p queue).tables isRecv' =
      (q.setTables isRecv (upsert (fun _ => p) (q.tables isRecv) peer)).tables isRecv' := by
    unfold putTable setTables tables
    cases isRecv <;> rfl
  rw [htables, tables_setTables]
  by_cases hb : isRecv' = isRecv
  · subst hb
    by_cases hp : peer' = peer
    · subst hp
      simp
    · simp [hp, lookup_upsert_of_ne]
  · simp [hb]

/-- The table of a kind and peer, created empty where there is none. -/
def tableOrEmpty (q : ReceiptQueue) (isRecv : Bool) (peer : ℕ) : PeerTable :=
  ((q.tables isRecv).lookup peer).getD PeerTable.empty

/-- `push_tx`: the receipt goes to the table of its kind and peer, created if
missing. -/
def pushTx (q : ReceiptQueue) (r : Receipt) : ReceiptQueue × PushResult :=
  let (p, queue, res) := (q.tableOrEmpty r.isRecv r.peer).pushTx q.queue r
  (q.putTable r.isRecv r.peer p queue, res)

/-- `pop_tx`: the receipt of that hash and subtype leaves its table and the queue.
Its table exists (`xassert`): a receipt enters the queue through its table. -/
def popTx (q : ReceiptQueue) (hash : ℕ) (subtype : ReceiptId.TxSubtype) :
    ReceiptQueue × Option Receipt :=
  match findTx hash q.queue with
  | none => (q, none)
  | some r =>
    if r.subtype ≠ subtype then (q, none)
    else
      match (q.tables r.isRecv).lookup r.peer with
      | some p =>
        let (p', queue) := p.erase q.queue r.receiptId
        (q.putTable r.isRecv r.peer p' queue, some r)
      | none => (q, some r)

/-- `update_receipt_id_by_confirmed_tx`: the table of the subtype and peer,
created if missing, takes the id as its largest; a self or send transaction
changes nothing. -/
def updateReceiptIdByConfirmedTx (q : ReceiptQueue) (subtype : ReceiptId.TxSubtype)
    (peer receiptId : ℕ) : ReceiptQueue :=
  let update (isRecv : Bool) : ReceiptQueue :=
    let (p, queue) := (q.tableOrEmpty isRecv peer).updateLatestReceiptId q.queue receiptId
    q.putTable isRecv peer p queue
  match subtype with
  | .recv => update true
  | .confirm => update false
  | .self => q
  | .send => q

/-- The loop of `get_lacking_recv_tx_ids` and `get_lacking_confirm_tx_ids` over the
tables of one kind: each table takes the peer's largest taken id, then reports
what it lacks up to the peer's largest pullable id. -/
def lackingLoop (latestOf maxPullOf : ℕ → ℕ) :
    List (ℕ × PeerTable) → List Receipt → List (ℕ × PeerTable) × List Receipt × List (ℕ × List ℕ)
  | [], queue => ([], queue, [])
  | (peer, p) :: rest, queue =>
    let (p', queue') := p.updateLatestReceiptId queue (latestOf peer)
    let lackingIds := p'.getLackingIds (maxPullOf peer)
    let (rest', queue'', out) := lackingLoop latestOf maxPullOf rest queue'
    ((peer, p') :: rest', queue'', if lackingIds ≠ [] then (peer, lackingIds) :: out else out)

/-- The two `get_lacking_*_tx_ids`: the lacking ids per peer table, and
`total_num` increased by their number. -/
def getLackingTxIds (q : ReceiptQueue) (isRecv : Bool) (latestOf maxPullOf : ℕ → ℕ)
    (totalNum : ℕ) : ReceiptQueue × List (ℕ × List ℕ) × ℕ :=
  let (m, queue, out) := lackingLoop latestOf maxPullOf (q.tables isRecv) q.queue
  ({ q.setTables isRecv m with queue := queue }, out,
    totalNum + (out.map fun e => e.2.length).sum)

/-- `get_lacking_recv_tx_ids`: up to the peer's largest sent id, above its largest
received one. -/
def getLackingRecvTxIds (q : ReceiptQueue) (recvidMax sendidMax : ℕ → ℕ) (totalNum : ℕ) :
    ReceiptQueue × List (ℕ × List ℕ) × ℕ :=
  q.getLackingTxIds true recvidMax sendidMax totalNum

/-- `get_lacking_confirm_tx_ids`: up to the peer's largest received id, above its
largest confirmed one. -/
def getLackingConfirmTxIds (q : ReceiptQueue) (confirmidMax recvidMax : ℕ → ℕ)
    (totalNum : ℕ) : ReceiptQueue × List (ℕ × List ℕ) × ℕ :=
  q.getLackingTxIds false confirmidMax recvidMax totalNum

/-! ### Proposing receipts (`get_txs`) -/

/-- What the first loop of `get_txs` collects: per peer table, receive
(`recv_peer_table_map`) and confirm (`confirm_peer_table_map`) candidates, and
their number (`txs_count`). -/
structure Candidates where
  recv : List (ℕ × List Receipt)
  confirm : List (ℕ × List Receipt)
  txsCount : ℕ

/-- The candidates of one kind. -/
def Candidates.get (c : Candidates) (isRecv : Bool) : List (ℕ × List Receipt) :=
  if isRecv then c.recv else c.confirm

/-- One turn of the first loop, on receipt `r` of the queue: a peer table already
collected up to `r` is skipped; else its receipts up to `r` replace what was
collected, if they are more. -/
def collectOne (q : ReceiptQueue) (maxNum : ℕ) (c : Candidates) (r : Receipt) :
    Option Candidates :=
  let m := c.get r.isRecv
  -- `none`: the candidates already reach `r`
  let oldTxNum : Option ℕ :=
    match m.lookup r.peer with
    | some txs => if r.receiptId ≤ (txs.getLastD default).receiptId then none else some txs.length
    | none => some 0
  match oldTxNum with
  | none => some c
  | some oldTxNum =>
    match (q.tables r.isRecv).lookup r.peer with
    | none => none
    | some p =>
      let txsTmp := p.getTxs r.receiptId (maxNum - c.txsCount)
      if txsTmp.length ≤ oldTxNum then some c
      else
        let m' := upsert (fun _ => txsTmp) m r.peer
        let count := c.txsCount + (txsTmp.length - oldTxNum)
        some (if r.isRecv then ⟨m', c.confirm, count⟩ else ⟨c.recv, m', count⟩)

/-- The first loop of `get_txs`, over the queue while fewer than `maxNum` are
collected. -/
def collect (q : ReceiptQueue) (maxNum : ℕ) : Candidates → List Receipt → Option Candidates
  | c, [] => some c
  | c, r :: rs =>
    if c.txsCount < maxNum then (collectOne q maxNum c r).bind fun c' => collect q maxNum c' rs
    else some c

/-- The inner loop of the second and third loops of `get_txs`, over one peer
table's candidates: skip the ids already taken, take the one continuing
`minReceiptId`, stop at a gap or when `retTxs` holds `limit`. -/
def takeContinuous (limit : ℕ) : List Receipt → List Receipt → ℕ → List Receipt
  | retTxs, [], _ => retTxs
  | retTxs, r :: rest, minReceiptId =>
    if limit ≤ retTxs.length then retTxs
    else if r.receiptId ≤ minReceiptId then takeContinuous limit retTxs rest minReceiptId
    else if r.receiptId = minReceiptId + 1 then
      takeContinuous limit (retTxs ++ [r]) rest (minReceiptId + 1)
    else retTxs

/-- The second and third loops of `get_txs`: each peer table's continuous
candidates, from the peer's largest taken id, until `retTxs` holds `limit`. -/
def selectContinuous (limit : ℕ) (maxId : ℕ → ℕ) :
    List Receipt → List (ℕ × List Receipt) → List Receipt
  | retTxs, [] => retTxs
  | retTxs, (peer, txs) :: rest =>
    let retTxs' := takeContinuous limit retTxs txs (maxId peer)
    if limit ≤ retTxs'.length then retTxs' else selectContinuous limit maxId retTxs' rest

/-- What `get_txs` reads of the receipt-id state: per peer table, the largest
confirmed id (`get_confirmid_max`) and the largest received id
(`get_recvid_max`) of its pair, zero for a peer without one. -/
structure IdState where
  confirmidMax : ℕ → ℕ
  recvidMax : ℕ → ℕ

/-- `get_txs`: the proposed receipts, confirm receipts first, and their number of
confirm receipts (`confirm_txs_num`).  `none` where a receipt's table is missing. -/
def getTxs (q : ReceiptQueue) (confirmAndRecvTxsMaxNum confirmTxsMaxNum : UInt32)
    (receiptidState : IdState) : Option (List Receipt × ℕ) := do
  -- `confirm_and_recv_txs_max_num * 2`, in `uint32_t`
  let maxNum := (confirmAndRecvTxsMaxNum * 2).toNat
  let c ← q.collect maxNum ⟨[], [], 0⟩ q.queue
  let confirmTxs := selectContinuous confirmTxsMaxNum.toNat receiptidState.confirmidMax [] c.confirm
  let retTxs := selectContinuous confirmAndRecvTxsMaxNum.toNat receiptidState.recvidMax confirmTxs c.recv
  return (retTxs, confirmTxs.length)

/-! ### Runs -/

/-- The calls that change the queue. -/
inductive Op
  | pushTx (r : Receipt)
  | popTx (hash : ℕ) (subtype : ReceiptId.TxSubtype)
  | updateReceiptIdByConfirmedTx (subtype : ReceiptId.TxSubtype) (peer receiptId : ℕ)
  | getLackingRecvTxIds (recvidMax sendidMax : ℕ → ℕ)
  | getLackingConfirmTxIds (confirmidMax recvidMax : ℕ → ℕ)

/-- One call. -/
def step (q : ReceiptQueue) : Op → ReceiptQueue
  | .pushTx r => (q.pushTx r).1
  | .popTx hash subtype => (q.popTx hash subtype).1
  | .updateReceiptIdByConfirmedTx subtype peer receiptId =>
    q.updateReceiptIdByConfirmedTx subtype peer receiptId
  | .getLackingRecvTxIds recvidMax sendidMax => (q.getLackingRecvTxIds recvidMax sendidMax 0).1
  | .getLackingConfirmTxIds confirmidMax recvidMax =>
    (q.getLackingConfirmTxIds confirmidMax recvidMax 0).1

/-- The queue after a sequence of calls. -/
def run (q : ReceiptQueue) (ops : List Op) : ReceiptQueue := ops.foldl step q

end ReceiptQueue

end Receipts

end TopChain

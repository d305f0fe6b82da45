import TopChain.Lib.SortedMap

/-!
# Receipt-id continuity of a table block

A table keeps, for each peer table, an `xreceiptid_pair_t`: the largest receipt id it
sent, the largest it received, and the number of sent receipts not yet confirmed, a
`uint32_t`; the largest confirmed id is not stored but derived as
`sendid_max - unconfirm_num`.  A proposed table block batches unit blocks;
`xblock_t::batch_units_to_receiptids` collects the send, receive and confirm ids
their transactions carry into `std::set`s per peer table, and
`xreceiptid_check_t::check_contious` accepts the block when each set continues its
pair's maximum without a gap.  `xlighttable_builder_t::make_light_table_binlog`
then advances each pair to the largest id of its sets.

Two things the check does not look at break what the pairs are meant to satisfy.
A `std::set` keeps one copy of an id that two transactions carry, so a duplicated id
passes.  And confirm ids are compared only with the
old confirmed maximum, never with the sent maximum: confirming an id that was never
sent passes the check, and `set_confirmid_max` then drives the `uint32_t` count below
zero, so the written pair wraps (`makeLightTableBinlog_confirm_unsent`).

## Main definitions

* `Pair`, `Check`, `TxInfo` — `xreceiptid_pair_t`, `xreceiptid_check_t` and the
  transaction infos of a unit.
* `batchUnitsToReceiptids`, `checkContious`, `makeLightTableBinlog` — the three steps.

## Main results

* `checkReceiptidsContious_iff` — what the continuity scan accepts.
-/

namespace TopChain
namespace ReceiptId

/-- `xreceiptid_pair_t`: the largest sent and received ids and the number of sent
receipts not yet confirmed. -/
structure Pair where
  sendIdMax : UInt64
  unconfirmNum : UInt32
  recvIdMax : UInt64
  deriving DecidableEq, Repr

namespace Pair

/-- A default-constructed pair. -/
def zero : Pair := ⟨0, 0, 0⟩

/-- `get_confirmid_max`: the sent maximum less the unconfirmed count, in `uint64_t`. -/
def confirmidMax (p : Pair) : UInt64 := p.sendIdMax - p.unconfirmNum.toUInt64

/-- `set_sendid_max`: a larger sent maximum adds the new ids to the unconfirmed
count, which is truncated to `uint32_t`. -/
def setSendidMax (p : Pair) (value : UInt64) : Pair :=
  if p.sendIdMax < value then
    { p with unconfirmNum := p.unconfirmNum + (value - p.sendIdMax).toUInt32, sendIdMax := value }
  else p

/-- `set_confirmid_max`: a larger confirmed maximum removes the newly confirmed ids
from the unconfirmed count.  Its two `xassert`s (`value <= m_send_id_max` and that
the count does not go below zero) are not checked in a release build. -/
def setConfirmidMax (p : Pair) (value : UInt64) : Pair :=
  if p.confirmidMax < value then
    { p with unconfirmNum := p.unconfirmNum - (value - p.confirmidMax).toUInt32 }
  else p

/-- `set_recvid_max`. -/
def setRecvidMax (p : Pair) (value : UInt64) : Pair :=
  if p.recvIdMax < value then { p with recvIdMax := value } else p

end Pair

/-- `xreceiptid_pairs_t`: the pairs by peer table id, `m_all_pairs`. -/
structure Pairs where
  allPairs : List (UInt16 × Pair)
  deriving DecidableEq, Repr

namespace Pairs

/-- No pairs. -/
def empty : Pairs := ⟨[]⟩

/-- `find_pair`: the pair of table `sid`, if there is one. -/
def findPair (ps : Pairs) (sid : UInt16) : Option Pair := ps.allPairs.lookup sid

/-- `m_all_pairs[sid] = pair`. -/
def put (ps : Pairs) (sid : UInt16) (p : Pair) : Pairs := ⟨upsert (fun _ => p) ps.allPairs sid⟩

/-- `add_pair`: a new table's pair is stored; an existing pair is advanced to the
new one's maxima. -/
def addPair (ps : Pairs) (sid : UInt16) (p : Pair) : Pairs :=
  match ps.findPair sid with
  | some old => ps.put sid (((old.setSendidMax p.sendIdMax).setRecvidMax p.recvIdMax).setConfirmidMax
      p.confirmidMax)
  | none => ps.put sid p

end Pairs

/-! ### Collecting the ids of a batch -/

/-- `std::set<uint64_t>::insert` on the ascending list of the set's elements; an id
already present is not added again (the `xassert` on it is not checked in a
release build). -/
def setInsert (v : UInt64) : List UInt64 → List UInt64
  | [] => [v]
  | x :: xs => if v < x then v :: x :: xs else if v = x then x :: xs else x :: setInsert v xs

/-- Insert an id into the set of table `sid` of a
`std::map<xtable_shortid_t, std::set<uint64_t>>`, creating the set if there is none. -/
def insertId (m : List (UInt16 × List UInt64)) (sid : UInt16) (v : UInt64) :
    List (UInt16 × List UInt64) :=
  upsert (fun ids => match ids with | some ids => setInsert v ids | none => [v]) m sid

/-- `xreceiptid_check_t`: the send, receive and confirm ids of a batch by peer table. -/
structure Check where
  sendids : List (UInt16 × List UInt64)
  recvids : List (UInt16 × List UInt64)
  confirmids : List (UInt16 × List UInt64)
  deriving DecidableEq, Repr

/-- A freshly constructed check object. -/
def Check.empty : Check := ⟨[], [], []⟩

/-- `set_sendid`. -/
def Check.setSendid (c : Check) (sid : UInt16) (value : UInt64) : Check :=
  { c with sendids := insertId c.sendids sid value }

/-- `set_recvid`. -/
def Check.setRecvid (c : Check) (sid : UInt16) (value : UInt64) : Check :=
  { c with recvids := insertId c.recvids sid value }

/-- `set_confirmid`. -/
def Check.setConfirmid (c : Check) (sid : UInt16) (value : UInt64) : Check :=
  { c with confirmids := insertId c.confirmids sid value }

/-- The subtype of a transaction: only send, receive and confirm transactions carry a
receipt id. -/
inductive TxSubtype where
  | self
  | send
  | recv
  | confirm
  deriving DecidableEq, Repr

/-- `xlightunit_tx_info_t`: the subtype, the receipt id and the peer table id. -/
structure TxInfo where
  subtype : TxSubtype
  receiptId : UInt64
  peerTableId : UInt16
  deriving DecidableEq, Repr

/-- The body of the loop of `batch_units_to_receiptids` for one transaction. -/
def addTx (c : Check) (tx : TxInfo) : Check :=
  match tx.subtype with
  | .send => c.setSendid tx.peerTableId tx.receiptId
  | .recv => c.setRecvid tx.peerTableId tx.receiptId
  | .confirm => c.setConfirmid tx.peerTableId tx.receiptId
  | .self => c

/-- `xblock_t::batch_units_to_receiptids`: each unit is the list of its transaction
infos. -/
def batchUnitsToReceiptids (units : List (List TxInfo)) (c : Check) : Check :=
  units.foldl (fun c txs => txs.foldl addTx c) c

/-! ### The check -/

/-- `check_receiptids_contious`: the set, in increasing order, is `begin + 1`,
`begin + 2`, ... in `uint64_t` arithmetic. -/
def checkReceiptidsContious : List UInt64 → UInt64 → Bool
  | [], _ => true
  | id :: ids, beginId => id == beginId + 1 && checkReceiptidsContious ids (beginId + 1)

/-- `check_contious`: every set continues the maximum its pair in `state` has for
that kind (a table without a pair starts from zero). -/
def checkContious (c : Check) (state : Pairs) : Bool :=
  c.sendids.all (fun e => checkReceiptidsContious e.2 ((state.findPair e.1).getD .zero).sendIdMax) &&
  c.recvids.all (fun e => checkReceiptidsContious e.2 ((state.findPair e.1).getD .zero).recvIdMax) &&
  c.confirmids.all (fun e =>
    checkReceiptidsContious e.2 ((state.findPair e.1).getD .zero).confirmidMax)

/-! ### The pairs written for the block -/

/-- One loop of `make_light_table_binlog`: for each table of `ids`, take its pair from
the modified pairs or else from `state`, advance it with `setMax` to the set's largest
id (its last element) and store it among the modified pairs. -/
def advancePairs (setMax : Pair → UInt64 → Pair) (state : Pairs) (modified : Pairs)
    (ids : List (UInt16 × List UInt64)) : Pairs :=
  ids.foldl (fun m e =>
    m.addPair e.1 (setMax ((m.findPair e.1).getD ((state.findPair e.1).getD .zero)) (e.2.getLastD 0)))
    modified

/-- The receipt-id pairs `make_light_table_binlog` writes for a batch: the send loop,
then the receive loop, then the confirm loop. -/
def makeLightTableBinlog (state : Pairs) (c : Check) : Pairs :=
  advancePairs Pair.setConfirmidMax state
    (advancePairs Pair.setRecvidMax state
      (advancePairs Pair.setSendidMax state .empty c.sendids) c.recvids) c.confirmids

/-! ### What the check accepts -/

/-- The continuity scan accepts exactly the sets `begin + 1, ..., begin + k`. -/
theorem checkReceiptidsContious_iff (ids : List UInt64) (beginId : UInt64) :
    checkReceiptidsContious ids beginId = true ↔
      ids = (List.range ids.length).map (fun i => beginId + 1 + UInt64.ofNat i) := by
  -- induction on the ids, the expected first id moving on by one
  induction ids generalizing beginId with
  | nil => simp [checkReceiptidsContious]
  | cons id ids ih =>
    have hshift : (List.range ids.length).map (fun i => beginId + 1 + 1 + UInt64.ofNat i) =
        (List.range ids.length).map (fun i => beginId + 1 + UInt64.ofNat (i + 1)) := by
      refine List.map_congr_left fun i _ => ?_
      rw [UInt64.ofNat_add, UInt64.ofNat_one]
      ac_rfl
    have hzero : beginId + 1 + UInt64.ofNat 0 = beginId + 1 := UInt64.add_zero _
    rw [checkReceiptidsContious, Bool.and_eq_true, beq_iff_eq, ih (beginId + 1), List.length_cons,
      List.range_succ_eq_map, List.map_cons, List.map_map, hshift, hzero, List.cons.injEq]
    rfl

/-- Two send transactions carrying the same id pass the check: the `std::set` keeps one
copy, which continues the pair. -/
example : batchUnitsToReceiptids [[⟨.send, 1, 7⟩, ⟨.send, 1, 7⟩]] .empty = ⟨[(7, [1])], [], []⟩ ∧
    checkContious ⟨[(7, [1])], [], []⟩ .empty = true := by
  decide

/-- A batch that confirms receipt `1` of table `7`, which the table never sent,
passes the check; the pair written for table `7` then has an unconfirmed count of
`2 ^ 32 - 1`, and its confirmed maximum, `2 ^ 64 - 2 ^ 32 + 1`, exceeds its sent
maximum `0`. -/
theorem makeLightTableBinlog_confirm_unsent :
    checkContious (batchUnitsToReceiptids [[⟨.confirm, 1, 7⟩]] .empty) .empty = true ∧
      makeLightTableBinlog .empty (batchUnitsToReceiptids [[⟨.confirm, 1, 7⟩]] .empty) =
        ⟨[(7, ⟨0, 4294967295, 0⟩)]⟩ ∧
      Pair.confirmidMax ⟨0, 4294967295, 0⟩ = 18446744069414584321 := by
  decide

end ReceiptId
end TopChain

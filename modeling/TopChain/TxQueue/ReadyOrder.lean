import TopChain.TxQueue.GetTxs
import TopChain.Lib.GroupedOrder

/-!
# The order of the ready multiset

`xready_send_tx_queue_t` is a `std::multiset` ordered by `xready_send_tx_queue_comp`,
and a multiset requires its comparator to be a strict weak order on what it holds.
The comparator orders two entries of one account by last nonce, and entries of two
accounts by their `xtx_para_t`: type score, charge score, then timestamp.

The pool fills in one of these three.  `xtxpool_service` builds every send
transaction's entry with a default `xtx_para_t`, whose scores and timestamp are `0`,
and `xtxpool_table_t::push_send_tx_real` sets its type score by whether the source
account is a system contract (`sendTxPara`).  With these paras the comparator is the
grouped order of `Lib.GroupedOrder`, accounts being the groups and type scores their
ranks (`readySendTxQueueComp_sendTxPara`).  So it is irreflexive and transitive
(`isStrictOrder_readySendTxQueueComp`), but an entry of another account of the same
kind is incomparable to two entries of one account, which compare by nonce:
incomparability is not transitive (`not_isStrictWeakOrder_readySendTxQueueComp`).  A
pool reaches such a ready queue as soon as two transactions of one account and one of
another normal account are pushed (`readyQueue_not_isStrictWeakOrder`).

Whether an address is a system contract's depends on the address format, outside the
queue; it is an argument.

## Main definitions

* `sendTxPara` — the `xtx_para_t` of a pushed send transaction.

## Main results

* `readySendTxQueueComp_sendTxPara` — with those paras, the grouped order.
* `isStrictOrder_readySendTxQueueComp` — irreflexive and transitive.
* `not_isStrictWeakOrder_readySendTxQueueComp` — no strict weak order on entries
  holding two transactions of one account and one of another account of its kind.
-/

namespace TopChain
namespace TxQueue

open GroupedOrder

/-- `enum_xtx_type_socre_normal`. -/
def enumXtxTypeSocreNormal : ℕ := 0

/-- `enum_xtx_type_socre_system`. -/
def enumXtxTypeSocreSystem : ℕ := 1

/-- The type score `push_send_tx_real` gives the transactions of an account. -/
def txTypeScore (isSysContractAddress : String → Bool) (accountAddr : String) : ℕ :=
  if isSysContractAddress accountAddr then enumXtxTypeSocreSystem else enumXtxTypeSocreNormal

/-- The `xtx_para_t` a send transaction enters the queue with: built default by
`xtxpool_service` (charge score and timestamp `0`), with the type score of its source
account. -/
def sendTxPara (isSysContractAddress : String → Bool) (tx : Tx) : TxPara :=
  ⟨txTypeScore isSysContractAddress tx.sourceAddr, 0, 0⟩

/-- With the pool's paras, `xready_send_tx_queue_comp` compares an account's
transactions by last nonce and the transactions of two accounts by type score: it is
the grouped order of the accounts, ranked by type score. -/
theorem readySendTxQueueComp_sendTxPara (isSysContractAddress : String → Bool) (x y : Tx) :
    readySendTxQueueComp (sendTxPara isSysContractAddress) x y = true ↔
      groupedLt Tx.sourceAddr (txTypeScore isSysContractAddress)
        (fun a b => a.lastNonce < b.lastNonce) x y := by
  unfold readySendTxQueueComp groupedLt
  by_cases h : x.sourceAddr = y.sourceAddr
  · simp [h]
  · -- the charge scores and timestamps are all `0`: only the type scores decide
    simp only [if_neg h, sendTxPara]
    split_ifs with hscore
    · simp [hscore]
    · simp

/-- With the pool's paras the ready queue's order is irreflexive and transitive, on all
transactions and so on those any queue holds. -/
theorem isStrictOrder_readySendTxQueueComp (isSysContractAddress : String → Bool) :
    IsStrictOrder Tx
      (fun x y => readySendTxQueueComp (sendTxPara isSysContractAddress) x y = true) := by
  simp only [readySendTxQueueComp_sendTxPara]
  exact isStrictOrder_groupedLt (fun x => UInt64.lt_irrefl x.lastNonce)
    (fun _ _ _ => UInt64.lt_trans)

/-- Entries that hold two transactions `x`, `y` of one account, `x` first in nonce, and a
transaction `z` of another account of the same kind: with the pool's paras the ready
queue's order is not a strict weak order on them. -/
theorem not_isStrictWeakOrder_readySendTxQueueComp {isSysContractAddress : String → Bool}
    {entries : List Tx} {x y z : Tx} (hx : x ∈ entries) (hy : y ∈ entries) (hz : z ∈ entries)
    (hxy : x.sourceAddr = y.sourceAddr) (hlt : x.lastNonce < y.lastNonce)
    (hxz : x.sourceAddr ≠ z.sourceAddr)
    (hkind : isSysContractAddress x.sourceAddr = isSysContractAddress z.sourceAddr) :
    ¬ IsStrictWeakOrder {t // t ∈ entries}
      (fun a b => readySendTxQueueComp (sendTxPara isSysContractAddress) a.1 b.1 = true) := by
  simp only [readySendTxQueueComp_sendTxPara]
  have hrank : txTypeScore isSysContractAddress x.sourceAddr =
      txTypeScore isSysContractAddress z.sourceAddr := by
    rw [txTypeScore, txTypeScore, hkind]
  exact not_isStrictWeakOrder_groupedLt Subtype.val (x := ⟨x, hx⟩) (y := ⟨y, hy⟩) (z := ⟨z, hz⟩)
    hxy hlt hxz hrank

/-- Once `b`, `a1` and `a2` are pushed, all three are ready; with no system contract
among the accounts, `b` is incomparable to `a1` and to `a2`, which compare by nonce,
and the ready queue's order is not a strict weak order on its entries. -/
theorem readyQueue_not_isStrictWeakOrder :
    bThenA.internal.ready.queue = [⟨1, "B", 0, 0⟩, ⟨2, "A", 0, 0⟩, ⟨3, "A", 1, 0⟩] ∧
      ¬ IsStrictWeakOrder {x // x ∈ bThenA.internal.ready.queue}
        (fun a b => readySendTxQueueComp (sendTxPara fun _ => false) a.1 b.1 = true) := by
  have hready : bThenA.internal.ready.queue = [⟨1, "B", 0, 0⟩, ⟨2, "A", 0, 0⟩, ⟨3, "A", 1, 0⟩] := by
    decide
  refine ⟨hready, ?_⟩
  -- `a1` and `a2` of account `A`, and `b` of account `B`, all of them ready
  rw [hready]
  exact not_isStrictWeakOrder_readySendTxQueueComp (x := ⟨2, "A", 0, 0⟩) (y := ⟨3, "A", 1, 0⟩)
    (z := ⟨1, "B", 0, 0⟩) (by decide) (by decide) (by decide) rfl (by decide) (by decide) rfl

end TxQueue
end TopChain

import TopChain.TxQueue.Invariant

/-!
# Packing the ready send transactions

`xsend_tx_queue_t::get_txs(max_num)` walks the ready multiset in its order and, for
each entry, takes from the entry's account the continuous transactions up to the
entry's nonce, at most `account_send_tx_move_num_max` of them
(`xcontinuous_txs_t::get_txs`); it appends those it has not taken before for that
account.  The bound `ret_txs.size() < max_num` is tested before each entry only, and
one entry can add up to three transactions.

The ready multiset is ordered by `xready_send_tx_queue_comp`, which compares two
entries of one account by nonce and entries of two accounts by their scores.  That
is not a strict weak order: an account's later transaction can rank above another
account's transaction that ranks above the first account's earlier one.  Inserted in
that order, the earlier transaction ends up last, and `get_txs(1)` meets the later
one first and takes both: two transactions for a limit of one
(`getTxs_two_for_one`).  Whatever the order, each entry adds at most three, so at
most `max_num + 2` come back (`length_getTxs_le`).

The multiset is read as its sequence: the entries of the ready queue in their
order of insertion, each inserted after the entries it does not rank below.  For a
strict weak order that is the multiset's order whatever the tree's shape; for the
three entries of the failing input it is also the order a search tree gives them,
since the third insertion starts from a root and one child.  The scores are not part
of the queue's model, so the pool's `xtx_para_t` of each entry is an argument
(`para`).  An entry whose account the map lacks, which the source asserts never
happens, is skipped.

## Main definitions

* `readySendTxQueueComp` — `xready_send_tx_queue_comp`.
* `Queue.readyTxs` — the ready multiset's sequence.
* `Continuous.getTxs` — `xcontinuous_txs_t::get_txs`.
* `Queue.getTxs` — `xsend_tx_queue_t::get_txs`.

## Main results

* `Continuous.getTxs_eq_take` — an account gives a prefix of its list, of at most
  the length asked for.
* `Queue.length_getTxs_le` — at most `max_num + 2` transactions.
-/

namespace TopChain
namespace TxQueue

/-- What `xready_send_tx_queue_comp` reads of an entry's `xtx_para_t`. -/
structure TxPara where
  txTypeScore : ℕ
  chargeScore : ℕ
  timestamp : ℕ
  deriving DecidableEq, Repr

/-- `xready_send_tx_queue_comp`: an account's transactions by last nonce, others by
type score, then charge score (both the higher first), then timestamp. -/
def readySendTxQueueComp (para : Tx → TxPara) (left right : Tx) : Bool :=
  if left.sourceAddr = right.sourceAddr then left.lastNonce < right.lastNonce
  else if (para left).txTypeScore = (para right).txTypeScore then
    if (para left).chargeScore = (para right).chargeScore then
      (para left).timestamp < (para right).timestamp
    else (para left).chargeScore > (para right).chargeScore
  else (para left).txTypeScore > (para right).txTypeScore

/-- `std::multiset::insert` on the multiset's sequence: after every element the new one
does not rank below. -/
def multisetInsert (comp : Tx → Tx → Bool) (tx : Tx) : List Tx → List Tx
  | [] => [tx]
  | x :: xs => if comp tx x then tx :: x :: xs else x :: multisetInsert comp tx xs

/-- `account_send_tx_move_num_max`. -/
def accountSendTxMoveNumMax : ℕ := 3

namespace Continuous

/-- `xcontinuous_txs_t::get_txs`: the transactions up to `upperNonce`, at most `maxNum`
(a `uint32_t`) of them, and none when `upperNonce` is past the list or more than
`maxNum` past the latest nonce.  The source's assert that `upperNonce` is above the
latest nonce is left out. -/
def getTxs (c : Continuous) (upperNonce : UInt64) (maxNum : ℕ) : List Tx :=
  if upperNonce > c.getBackNonce ∨ (upperNonce - c.latestNonce).toNat > maxNum ∨ c.txs.isEmpty then
    []
  else
    let nonceDiff := (upperNonce - c.latestNonce).toUInt32.toNat
    let maxInsertNum := if maxNum < nonceDiff then maxNum else nonceDiff
    c.txs.take maxInsertNum

/-- An account gives a prefix of its list, of at most the length asked for. -/
theorem getTxs_eq_take (c : Continuous) (upperNonce : UInt64) (maxNum : ℕ) :
    ∃ k ≤ maxNum, c.getTxs upperNonce maxNum = c.txs.take k := by
  unfold getTxs
  dsimp only
  split_ifs with hout hlt
  · exact ⟨0, Nat.zero_le _, by simp⟩
  · exact ⟨maxNum, Nat.le_refl _, rfl⟩
  · exact ⟨_, Nat.le_of_not_lt hlt, rfl⟩

theorem length_getTxs_le (c : Continuous) (upperNonce : UInt64) (maxNum : ℕ) :
    (c.getTxs upperNonce maxNum).length ≤ maxNum := by
  obtain ⟨k, hk, heq⟩ := c.getTxs_eq_take upperNonce maxNum
  rw [heq, List.length_take]
  exact (Nat.min_le_left k _).trans hk

end Continuous

namespace Queue

/-- The ready multiset's sequence: the ready queue's entries, in their order of
insertion, inserted one after the other by `xready_send_tx_queue_comp`. -/
def readyTxs (para : Tx → TxPara) (s : Queue) : List Tx :=
  s.internal.ready.queue.foldl (fun l tx => multisetInsert (readySendTxQueueComp para) tx l) []

/-- The loop of `xsend_tx_queue_t::get_txs` over the rest of the ready sequence, with
`accounts_map`, the transactions taken so far for each account, and `ret_txs`. -/
def getTxsLoop (s : Queue) (maxNum : ℕ) :
    List Tx → List (String × List Tx) → List Tx → List Tx
  | [], _, retTxs => retTxs
  | tx :: rest, accountsMap, retTxs =>
    if retTxs.length < maxNum then
      let accountAddr := tx.sourceAddr
      let nonce := tx.txNonce
      -- `old_tx_num`, or `none` where the source moves on (`continue`)
      let oldTxNum : Option ℕ :=
        match accountsMap.lookup accountAddr with
        | some taken =>
          if nonce ≤ ((taken.getLast?).map Tx.txNonce).getD 0 then none else some taken.length
        | none => some 0
      match oldTxNum, s.sendTxAccounts.lookup accountAddr with
      | some oldTxNum, some account =>
        let txsTmp := account.continuousTxs.getTxs nonce accountSendTxMoveNumMax
        if txsTmp.length ≤ oldTxNum then getTxsLoop s maxNum rest accountsMap retTxs
        else
          getTxsLoop s maxNum rest (upsert (fun _ => txsTmp) accountsMap accountAddr)
            (retTxs ++ txsTmp.drop oldTxNum)
      | _, _ => getTxsLoop s maxNum rest accountsMap retTxs
    else retTxs

/-- `xsend_tx_queue_t::get_txs`. -/
def getTxs (para : Tx → TxPara) (s : Queue) (maxNum : ℕ) : List Tx :=
  getTxsLoop s maxNum (s.readyTxs para) [] []

/-- Each turn of the loop adds at most `account_send_tx_move_num_max` transactions,
and only while fewer than `maxNum` are taken. -/
theorem length_getTxsLoop_le (s : Queue) (maxNum : ℕ) :
    ∀ (txs : List Tx) (accountsMap : List (String × List Tx)) (retTxs : List Tx),
      retTxs.length ≤ maxNum + 2 →
        (getTxsLoop s maxNum txs accountsMap retTxs).length ≤ maxNum + 2 := by
  intro txs
  induction txs with
  | nil => exact fun _ _ h => h
  | cons tx rest ih =>
    intro accountsMap retTxs hret
    unfold getTxsLoop
    split_ifs with hlt
    · dsimp only
      split
      · next oldTxNum account _ _ =>
        split_ifs with hle
        · exact ih _ _ hret
        · apply ih
          -- the turn appends a suffix of at most three transactions
          have hmove := account.continuousTxs.length_getTxs_le tx.txNonce accountSendTxMoveNumMax
          rw [List.length_append, List.length_drop]
          simp only [accountSendTxMoveNumMax] at hmove ⊢
          omega
      · exact ih _ _ hret
    · exact hret

/-- `get_txs(max_num)` returns at most `max_num + 2` transactions, whatever the order of
the ready multiset. -/
theorem length_getTxs_le (para : Tx → TxPara) (s : Queue) (maxNum : ℕ) :
    (s.getTxs para maxNum).length ≤ maxNum + 2 :=
  length_getTxsLoop_le s maxNum _ [] [] (Nat.zero_le _)

end Queue

/-- Account `B`'s transaction `b` has charge score `2`; account `A`'s transactions `a1`
and `a2` (last nonces `0` and `1`) have charge scores `1` and `3`. -/
def chargePara (tx : Tx) : TxPara :=
  if tx.hash = 1 then ⟨0, 2, 0⟩ else if tx.hash = 2 then ⟨0, 1, 0⟩ else ⟨0, 3, 0⟩

/-- `b`, `a1` and `a2` pushed in this order, each continuing its account. -/
def bThenA : Queue :=
  Queue.empty.run [.pushTx false (fun _ => false) ⟨1, "B", 0, 0⟩ 0,
    .pushTx false (fun _ => false) ⟨2, "A", 0, 0⟩ 0, .pushTx false (fun _ => false) ⟨3, "A", 1, 0⟩ 0]

/-- `a2` ranks above `b`, which ranks above `a1`, which ranks above `a2`: the ready
multiset holds `a2, b, a1`, and `get_txs(1)` meets `a2` first and returns both of
account `A`'s transactions. -/
theorem getTxs_two_for_one :
    bThenA.readyTxs chargePara = [⟨3, "A", 1, 0⟩, ⟨1, "B", 0, 0⟩, ⟨2, "A", 0, 0⟩] ∧
      bThenA.getTxs chargePara 1 = [⟨2, "A", 0, 0⟩, ⟨3, "A", 1, 0⟩] := by
  decide

end TxQueue
end TopChain

import TopChain.Lib.SortedMap

/-!
# The send-transaction queue of a table's transaction pool

`xsend_tx_queue_t` keeps the send transactions of a table's accounts.  Each account
(`xsend_tx_account_t`) holds a *continuous* list of transactions whose nonces follow
the account's latest nonce without a gap (`xcontinuous_txs_t`), and an
*uncontinuous* map from nonce to the transactions that wait for a gap to be filled
(`xuncontinuous_txs_t`).  All accounts share one `xsend_tx_queue_internal_t`: a ready
queue of the continuous transactions and a non-ready queue of the others, each with a
map from transaction hash to its queue element, through which `find` looks a
transaction up.

The model passes the shared internal queues explicitly: every operation of an
account takes them and returns them with the account.  A queue element is the
transaction itself, so a map's iterator is modelled by the transaction it points at.
The ready queue's order (`xready_send_tx_queue_comp`) is read only by `get_txs`, which
is not modelled, so it is a list in insertion order; the non-ready queue is kept in
the order of its comparator, the fire timestamp, since `pick_to_be_droped_tx` and
`get_expired_txs` read it.  Whether the table is full and whether a transaction has
expired depend on counters and a clock outside the queue, so they are arguments.

## Main definitions

* `Internal`, `Continuous`, `Uncontinuous`, `Account`, `Queue` — the five classes.
* `Queue.pushTx`, `Queue.popTx`, `Queue.updataLatestNonce`, `Queue.clearExpiredTxs`,
  `Queue.find` — the operations of `xsend_tx_queue_t`.

## Main results

* `Account.tryContinue_eq` — the fuel of `try_continue`'s loop never runs out: the
  model satisfies the loop's own unfolding.
-/

namespace TopChain
namespace TxQueue

/-- The return codes of the queue (`xsuccess` and the `xtxpool_error_*` it uses). -/
inductive Ret where
  | success
  | txNonceExpired
  | txNonceOutOfScope
  | txNonceUncontinuous
  | txNonceDuplicate
  | queueReachedUpperLimit
  deriving DecidableEq, Repr

/-- What the queue reads of an `xtx_entry`: the transaction hash, the source account,
the last nonce and the fire timestamp. -/
structure Tx where
  hash : ℕ
  sourceAddr : String
  lastNonce : UInt64
  fireTimestamp : UInt64
  deriving DecidableEq, Repr

/-- `get_tx_nonce`: one more than the last nonce. -/
def Tx.txNonce (tx : Tx) : UInt64 := tx.lastNonce + 1

/-- `account_send_tx_queue_size_max`. -/
def accountSendTxQueueSizeMax : UInt64 := 16

/-! ### The shared queues -/

/-- A queue of `xsend_tx_queue_internal_t` with the map from hash to its element. -/
structure Lane where
  queue : List Tx
  map : List (ℕ × Tx)
  deriving DecidableEq, Repr

namespace Lane

/-- Insert into the queue with `ins` and point the hash at the new element. -/
def insert (ins : Tx → List Tx → List Tx) (l : Lane) (tx : Tx) : Lane :=
  ⟨ins tx l.queue, upsert (fun _ => tx) l.map tx.hash⟩

/-- Erase the element the hash points at, and the hash. -/
def erase (l : Lane) (hash : ℕ) : Lane :=
  match l.map.lookup hash with
  | some tx => ⟨l.queue.erase tx, eraseKey l.map hash⟩
  | none => l

end Lane

/-- `std::multiset::insert` by fire timestamp: after the elements that are not larger. -/
def insertByFireTimestamp (tx : Tx) : List Tx → List Tx
  | [] => [tx]
  | x :: xs => if tx.fireTimestamp < x.fireTimestamp then tx :: x :: xs
    else x :: insertByFireTimestamp tx xs

/-- `xsend_tx_queue_internal_t`: the ready and the non-ready queue. -/
structure Internal where
  ready : Lane
  nonReady : Lane
  deriving DecidableEq, Repr

namespace Internal

/-- Empty queues. -/
def empty : Internal := ⟨⟨[], []⟩, ⟨[], []⟩⟩

/-- `insert_ready_tx`. -/
def insertReadyTx (q : Internal) (tx : Tx) : Internal :=
  { q with ready := q.ready.insert (fun tx l => l ++ [tx]) tx }

/-- `insert_non_ready_tx`. -/
def insertNonReadyTx (q : Internal) (tx : Tx) : Internal :=
  { q with nonReady := q.nonReady.insert insertByFireTimestamp tx }

/-- `erase_ready_tx`. -/
def eraseReadyTx (q : Internal) (hash : ℕ) : Internal := { q with ready := q.ready.erase hash }

/-- `erase_non_ready_tx`. -/
def eraseNonReadyTx (q : Internal) (hash : ℕ) : Internal :=
  { q with nonReady := q.nonReady.erase hash }

/-- `find`: the ready map first, then the non-ready map. -/
def find (q : Internal) (hash : ℕ) : Option Tx :=
  (q.ready.map.lookup hash).or (q.nonReady.map.lookup hash)

/-- `get_expired_txs`: the non-ready transactions from the front while they have
expired. -/
def getExpiredTxs (expired : Tx → Bool) (q : Internal) : List Tx :=
  q.nonReady.queue.takeWhile expired

/-- `pick_to_be_droped_tx`: the non-ready transaction fired first. -/
def pickToBeDropedTx (q : Internal) : Option Tx := q.nonReady.queue.head?

@[simp] theorem insertReadyTx_nonReady (q : Internal) (tx : Tx) :
    (q.insertReadyTx tx).nonReady = q.nonReady := rfl

@[simp] theorem eraseNonReadyTx_ready (q : Internal) (hash : ℕ) :
    (q.eraseNonReadyTx hash).ready = q.ready := rfl

end Internal

/-! ### The continuous transactions of an account -/

/-- `xcontinuous_txs_t`: the transactions that continue the latest nonce, in nonce
order. -/
structure Continuous where
  txs : List Tx
  latestNonce : UInt64
  deriving DecidableEq, Repr

namespace Continuous

/-- `nonce_check`: a last nonce below the latest nonce has expired, one at or beyond
sixteen past it is out of scope (in `uint64_t`). -/
def nonceCheck (c : Continuous) (lastNonce : UInt64) : Ret :=
  if lastNonce < c.latestNonce then .txNonceExpired
  else if lastNonce ≥ c.latestNonce + accountSendTxQueueSizeMax then .txNonceOutOfScope
  else .success

/-- `get_back_nonce`: the nonce of the last transaction, or the latest nonce. -/
def getBackNonce (c : Continuous) : UInt64 :=
  match c.txs.getLast? with
  | some tx => tx.txNonce
  | none => c.latestNonce

/-- `batch_erase`: erase the transactions at `[fromIdx, toIdx)` from the list and
from the ready queue. -/
def batchErase (q : Internal) (c : Continuous) (fromIdx toIdx : ℕ) : Internal × Continuous :=
  (((c.txs.drop fromIdx).take (toIdx - fromIdx)).foldl (fun q tx => q.eraseReadyTx tx.hash) q,
    { c with txs := c.txs.take fromIdx ++ c.txs.drop toIdx })

@[simp] theorem batchErase_snd (q : Internal) (c : Continuous) (fromIdx toIdx : ℕ) :
    (batchErase q c fromIdx toIdx).2 = { c with txs := c.txs.take fromIdx ++ c.txs.drop toIdx } :=
  rfl

/-- `update_latest_nonce`: a larger latest nonce drops the transactions it covers. -/
def updateLatestNonce (q : Internal) (c : Continuous) (latestNonce : UInt64) :
    Internal × Continuous :=
  if latestNonce ≤ c.latestNonce then (q, c)
  else
    let (q, c) :=
      if c.txs.isEmpty then (q, c)
      else
        let nonceDiff := latestNonce - c.latestNonce
        let maxDelNum := if nonceDiff.toNat < c.txs.length then nonceDiff.toNat else c.txs.length
        batchErase q c 0 maxDelNum
    (q, { c with latestNonce := latestNonce })

/-- `insert`: append a transaction that continues the list, replace one of the same
nonce fired earlier, and leave a later one to the uncontinuous map.  The index read
is in range whenever the list continues the latest nonce; out of range, where the
source reads past its vector, the model changes nothing. -/
def insert (q : Internal) (c : Continuous) (tx : Tx) : Internal × Continuous × Ret :=
  let newTxLastNonce := tx.lastNonce
  let ret := c.nonceCheck newTxLastNonce
  if ret ≠ .success then (q, c, ret)
  else
    let backNonce := c.getBackNonce
    if newTxLastNonce > backNonce then (q, c, .txNonceUncontinuous)
    else if newTxLastNonce = backNonce then (q.insertReadyTx tx, { c with txs := c.txs ++ [tx] }, .success)
    else
      -- nonce duplicate: the later fired transaction replaces the old one
      let tryReplaceIdx := (newTxLastNonce - c.latestNonce).toUInt32.toNat
      match c.txs[tryReplaceIdx]? with
      | none => (q, c, .txNonceDuplicate)
      | some old =>
        if tx.fireTimestamp ≤ old.fireTimestamp then (q, c, .txNonceDuplicate)
        else ((q.eraseReadyTx old.hash).insertReadyTx tx,
          { c with txs := c.txs.set tryReplaceIdx tx }, .success)

/-- `erase`: drop the transaction of `nonce` with its followers, or with the
transactions ahead of it. -/
def erase (q : Internal) (c : Continuous) (nonce : UInt64) (clearFollower : Bool) :
    Internal × Continuous :=
  if nonce ≤ c.latestNonce ∨ nonce > c.getBackNonce then (q, c)
  else if clearFollower then batchErase q c (nonce - c.latestNonce - 1).toUInt32.toNat c.txs.length
  else batchErase q c 0 (nonce - c.latestNonce).toUInt32.toNat

/-- `pop_uncontinuous_txs`: a list whose front no longer continues the latest nonce is
taken out whole. -/
def popUncontinuousTxs (q : Internal) (c : Continuous) : Internal × Continuous × List Tx :=
  match c.txs with
  | [] => (q, c, [])
  | front :: _ =>
    if c.latestNonce = front.lastNonce then (q, c, [])
    else (c.txs.foldl (fun q tx => q.eraseReadyTx tx.hash) q, { c with txs := [] }, c.txs)

end Continuous

/-! ### The uncontinuous transactions of an account -/

/-- `xuncontinuous_txs_t`: the waiting transactions by nonce. -/
structure Uncontinuous where
  txs : List (UInt64 × Tx)
  deriving DecidableEq, Repr

namespace Uncontinuous

/-- `insert`: a transaction of a nonce already waiting replaces it if fired later. -/
def insert (q : Internal) (u : Uncontinuous) (tx : Tx) : Internal × Uncontinuous × Ret :=
  let newTxNonce := tx.txNonce
  match u.txs.lookup newTxNonce with
  | some old =>
    if tx.fireTimestamp ≤ old.fireTimestamp then (q, u, .txNonceDuplicate)
    else ((q.eraseNonReadyTx old.hash).insertNonReadyTx tx,
      ⟨upsert (fun _ => tx) (eraseKey u.txs newTxNonce) newTxNonce⟩, .success)
  | none => (q.insertNonReadyTx tx, ⟨upsert (fun _ => tx) u.txs newTxNonce⟩, .success)

/-- The loop of `pop_by_last_nonce` over the entries in nonce order: those with a
smaller last nonce are erased, the first with the last nonce asked for is taken out
and returned. -/
def popByLastNonceLoop (q : Internal) : List (UInt64 × Tx) → UInt64 →
    Internal × List (UInt64 × Tx) × Option Tx
  | [], _ => (q, [], none)
  | (n, tx) :: rest, lastNonce =>
    if tx.lastNonce < lastNonce then popByLastNonceLoop (q.eraseNonReadyTx tx.hash) rest lastNonce
    else if tx.lastNonce = lastNonce then (q.eraseNonReadyTx tx.hash, rest, some tx)
    else (q, (n, tx) :: rest, none)

/-- `pop_by_last_nonce`. -/
def popByLastNonce (q : Internal) (u : Uncontinuous) (lastNonce : UInt64) :
    Internal × Uncontinuous × Option Tx :=
  let (q, txs, tx) := popByLastNonceLoop q u.txs lastNonce
  (q, ⟨txs⟩, tx)

/-- `erase`. -/
def erase (q : Internal) (u : Uncontinuous) (nonce : UInt64) : Internal × Uncontinuous :=
  match u.txs.lookup nonce with
  | some tx => (q.eraseNonReadyTx tx.hash, ⟨eraseKey u.txs nonce⟩)
  | none => (q, u)

/-- A transaction popped by its last nonce has that last nonce. -/
theorem popByLastNonceLoop_lastNonce {q : Internal} {lastNonce : UInt64} :
    ∀ {l : List (UInt64 × Tx)} {q' : Internal} {l' : List (UInt64 × Tx)} {tx : Tx},
      popByLastNonceLoop q l lastNonce = (q', l', some tx) → tx.lastNonce = lastNonce := by
  intro l
  induction l generalizing q with
  | nil => simp [popByLastNonceLoop]
  | cons e rest ih =>
    obtain ⟨n, t⟩ := e
    intro q' l' tx h
    rw [popByLastNonceLoop] at h
    split_ifs at h with hlt heq
    · exact ih h
    · cases h
      exact heq
    · cases h

/-- A successful pop leaves fewer entries. -/
theorem length_popByLastNonceLoop {q : Internal} {lastNonce : UInt64} :
    ∀ {l : List (UInt64 × Tx)} {q' : Internal} {l' : List (UInt64 × Tx)} {tx : Tx},
      popByLastNonceLoop q l lastNonce = (q', l', some tx) → l'.length < l.length := by
  intro l
  induction l generalizing q with
  | nil => simp [popByLastNonceLoop]
  | cons e rest ih =>
    obtain ⟨n, t⟩ := e
    intro q' l' tx h
    rw [popByLastNonceLoop] at h
    split_ifs at h with hlt heq
    · have := ih h
      simp only [List.length_cons]
      omega
    · cases h
      simp
    · cases h

end Uncontinuous

/-! ### An account -/

/-- `xsend_tx_account_t`. -/
structure Account where
  continuousTxs : Continuous
  uncontinuousTxs : Uncontinuous
  deriving DecidableEq, Repr

namespace Account

/-- A new account at a latest nonce. -/
def new (latestNonce : UInt64) : Account := ⟨⟨[], latestNonce⟩, ⟨[]⟩⟩

/-- `empty`. -/
def empty (a : Account) : Bool := a.continuousTxs.txs.isEmpty && a.uncontinuousTxs.txs.isEmpty

/-- The `while` loop of `try_continue`, with fuel: move the waiting transaction that
continues the list into it, until none does or the insertion fails.  A transaction
popped whose insertion fails is lost, as in the source. -/
def tryContinueLoop : ℕ → Internal → Account → Internal × Account
  | 0, q, a => (q, a)
  | fuel + 1, q, a =>
    if a.uncontinuousTxs.txs.isEmpty then (q, a)
    else
      match a.uncontinuousTxs.popByLastNonce q a.continuousTxs.getBackNonce with
      | (q, u, none) => (q, ⟨a.continuousTxs, u⟩)
      | (q, u, some tx) =>
        match a.continuousTxs.insert q tx with
        | (q, c, .success) => tryContinueLoop fuel q ⟨c, u⟩
        | (q, c, _) => (q, ⟨c, u⟩)

/-- `try_continue`: each round of the loop takes a waiting transaction out, so as many
rounds as there are waiting transactions suffice. -/
def tryContinue (q : Internal) (a : Account) : Internal × Account :=
  tryContinueLoop a.uncontinuousTxs.txs.length q a

/-- `push_tx`. -/
def pushTx (q : Internal) (a : Account) (tx : Tx) : Internal × Account × Ret :=
  match a.continuousTxs.insert q tx with
  | (q, c, .success) =>
    let (q, a) := tryContinue q ⟨c, a.uncontinuousTxs⟩
    (q, a, .success)
  | (q, c, .txNonceUncontinuous) =>
    let (q, u, ret) := a.uncontinuousTxs.insert q tx
    (q, ⟨c, u⟩, ret)
  | (q, c, ret) => (q, ⟨c, a.uncontinuousTxs⟩, ret)

/-- `update_latest_nonce`. -/
def updateLatestNonce (q : Internal) (a : Account) (latestNonce : UInt64) : Internal × Account :=
  let (q, c) := a.continuousTxs.updateLatestNonce q latestNonce
  tryContinue q ⟨c, a.uncontinuousTxs⟩

/-- `refresh`: a continuous list that no longer continues moves to the uncontinuous
map. -/
def refresh (q : Internal) (a : Account) : Internal × Account :=
  let (q, c, txs) := a.continuousTxs.popUncontinuousTxs q
  let (q, u) := txs.foldl (fun (p : Internal × Uncontinuous) tx =>
    let (q, u, _) := p.2.insert p.1 tx
    (q, u)) (q, a.uncontinuousTxs)
  (q, ⟨c, u⟩)

/-- `erase`. -/
def erase (q : Internal) (a : Account) (nonce : UInt64) (clearFollower : Bool) :
    Internal × Account :=
  let (q, c) := a.continuousTxs.erase q nonce clearFollower
  let (q, u) := a.uncontinuousTxs.erase q nonce
  (q, ⟨c, u⟩)

@[simp] theorem erase_continuousTxs (q : Internal) (a : Account) (nonce : UInt64)
    (clearFollower : Bool) :
    (a.erase q nonce clearFollower).2.continuousTxs =
      (a.continuousTxs.erase q nonce clearFollower).2 := rfl

@[simp] theorem refresh_continuousTxs (q : Internal) (a : Account) :
    (a.refresh q).2.continuousTxs = (a.continuousTxs.popUncontinuousTxs q).2.1 := rfl

/-- One more round of fuel than waiting transactions changes nothing. -/
theorem tryContinueLoop_succ :
    ∀ {n : ℕ} {q : Internal} {a : Account}, a.uncontinuousTxs.txs.length ≤ n →
      tryContinueLoop (n + 1) q a = tryContinueLoop n q a := by
  intro n
  induction n with
  | zero =>
    intro q a h
    simp [tryContinueLoop, List.length_eq_zero_iff.mp (Nat.le_zero.mp h)]
  | succ n ih =>
    intro q a h
    -- both sides run the same round; the recursive calls agree by `ih`, since the
    -- round took a waiting transaction out
    obtain ⟨c, ⟨u⟩⟩ := a
    rw [tryContinueLoop, tryContinueLoop]
    simp only [Uncontinuous.popByLastNonce]
    split_ifs with hempty
    · rfl
    · rcases hpop : Uncontinuous.popByLastNonceLoop q u c.getBackNonce with ⟨q', l', _ | tx⟩
      · rfl
      · have hlen := Uncontinuous.length_popByLastNonceLoop hpop
        dsimp only
        rcases c.insert q' tx with ⟨q'', c', _ | _ | _ | _ | _ | _⟩
        · exact ih (a := ⟨c', ⟨l'⟩⟩) (by simp only at h ⊢; omega)
        all_goals rfl

/-- Enough fuel gives the run of `tryContinue`. -/
theorem tryContinueLoop_eq_of_length_le {n : ℕ} {q : Internal} {a : Account}
    (h : a.uncontinuousTxs.txs.length ≤ n) : tryContinueLoop n q a = tryContinue q a := by
  obtain ⟨d, rfl⟩ := Nat.exists_eq_add_of_le h
  induction d with
  | zero => rfl
  | succ d ih => rw [← Nat.add_assoc, tryContinueLoop_succ (by omega), ih (by omega)]

/-- `try_continue` satisfies the unfolding of its `while` loop: the fuel never cuts it
short. -/
theorem tryContinue_eq (q : Internal) (a : Account) :
    tryContinue q a =
      if a.uncontinuousTxs.txs.isEmpty then (q, a)
      else
        match a.uncontinuousTxs.popByLastNonce q a.continuousTxs.getBackNonce with
        | (q, u, none) => (q, ⟨a.continuousTxs, u⟩)
        | (q, u, some tx) =>
          match a.continuousTxs.insert q tx with
          | (q, c, .success) => tryContinue q ⟨c, u⟩
          | (q, c, _) => (q, ⟨c, u⟩) := by
  obtain ⟨c, ⟨u⟩⟩ := a
  -- one round more than needed, unfolded once
  rw [tryContinue, ← tryContinueLoop_succ (Nat.le_refl _), tryContinueLoop]
  simp only [Uncontinuous.popByLastNonce]
  split_ifs
  · rfl
  · rcases hpop : Uncontinuous.popByLastNonceLoop q u c.getBackNonce with ⟨q', l', _ | tx⟩
    · rfl
    · have hlen := Uncontinuous.length_popByLastNonceLoop hpop
      dsimp only
      rcases c.insert q' tx with ⟨q'', c', _ | _ | _ | _ | _ | _⟩
      · exact tryContinueLoop_eq_of_length_le (by simp only; omega)
      all_goals rfl

end Account

/-! ### The queue -/

/-- `xsend_tx_queue_t`: the shared queues and the accounts by address.  The cache of
the latest nonces of dropped accounts, read only by `get_account_nonce_cache`, is
left out. -/
structure Queue where
  internal : Internal
  sendTxAccounts : List (String × Account)
  deriving DecidableEq, Repr

namespace Queue

/-- An empty queue. -/
def empty : Queue := ⟨.empty, []⟩

/-- `find`. -/
def find (s : Queue) (hash : ℕ) : Option Tx := s.internal.find hash

/-- Store an account back, or erase it from the map when it is empty. -/
def storeAccount (s : Queue) (q : Internal) (addr : String) (a : Account) : Queue :=
  if a.empty then ⟨q, eraseKey s.sendTxAccounts addr⟩
  else ⟨q, upsert (fun _ => a) s.sendTxAccounts addr⟩

/-- `pop_tx`: the transaction of the hash, with the followers of its nonce or with the
transactions ahead of it, and the account's list then refreshed.  The account of the
address is asserted to exist; the model changes nothing if it does not. -/
def popTx (s : Queue) (hash : ℕ) (addr : String) (clearFollower : Bool) : Queue × Option Tx :=
  match s.internal.find hash with
  | none => (s, none)
  | some tx =>
    match s.sendTxAccounts.lookup addr with
    | none => (s, some tx)
    | some a =>
      let (q, a) := a.erase s.internal tx.txNonce clearFollower
      let (q, a) := a.refresh q
      (s.storeAccount q addr a, some tx)

/-- `clear_expired_txs`: pop each expired transaction, without its followers. -/
def clearExpiredTxs (expired : Tx → Bool) (s : Queue) : Queue :=
  (s.internal.getExpiredTxs expired).foldl (fun s tx => (s.popTx tx.hash tx.sourceAddr false).1) s

/-- `updata_latest_nonce`. -/
def updataLatestNonce (s : Queue) (addr : String) (latestNonce : UInt64) : Queue :=
  match s.sendTxAccounts.lookup addr with
  | some a =>
    let (q, a) := a.updateLatestNonce s.internal latestNonce
    s.storeAccount q addr a
  | none => s

/-- The middle of `push_tx`: find or create the account of the transaction, advance
its latest nonce, push the transaction and store the account. -/
def pushToAccount (s : Queue) (tx : Tx) (latestNonce : UInt64) : Queue × Ret :=
  let (q, a) :=
    match s.sendTxAccounts.lookup tx.sourceAddr with
    | none => (s.internal, Account.new latestNonce)
    | some a => a.updateLatestNonce s.internal latestNonce
  let (q, a, ret) := a.pushTx q tx
  (⟨q, upsert (fun _ => a) s.sendTxAccounts tx.sourceAddr⟩, ret)

/-- The end of `push_tx`: the account of the address is erased if it is empty. -/
def eraseIfEmpty (s : Queue) (addr : String) : Queue :=
  match s.sendTxAccounts.lookup addr with
  | some a => if a.empty then ⟨s.internal, eraseKey s.sendTxAccounts addr⟩ else s
  | none => s

/-- The end of `push_tx` on a full table, once the push succeeded: the victim is picked
again, in case the push made it continuous, and popped with its followers; if it is
the pushed transaction itself the push fails after all. -/
def dropVictim (s : Queue) (victim : Tx) (tx : Tx) : Queue × Ret :=
  let v := (s.internal.pickToBeDropedTx).getD victim
  let s := (s.popTx v.hash v.sourceAddr true).1
  if v.hash = tx.hash then (s, .queueReachedUpperLimit)
  else (s.eraseIfEmpty tx.sourceAddr, .success)

/-- `push_tx` on a table that is full (`full`) or not, with `expired` the clock's
verdict on each transaction.  On a full table the victim is the non-ready transaction
fired first, picked before the push. -/
def pushTx (full : Bool) (expired : Tx → Bool) (s : Queue) (tx : Tx) (latestNonce : UInt64) :
    Queue × Ret :=
  let s := s.clearExpiredTxs expired
  let victim := if full then s.internal.pickToBeDropedTx else none
  if full ∧ victim = none then (s, .queueReachedUpperLimit)
  else
    let r := s.pushToAccount tx latestNonce
    match r.2, victim with
    | .success, some v => r.1.dropVictim v tx
    | _, _ => (r.1.eraseIfEmpty tx.sourceAddr, r.2)

end Queue

end TxQueue
end TopChain

import Mathlib
import TopChain.TxQueue.Model

/-!
# What the send-transaction queue keeps, and what it loses

The continuous list of an account is meant to hold the transactions whose last nonces
are the account's latest nonce, the one after it, and so on, sixteen at most.  Every
operation keeps that: `insert` appends at the back nonce or replaces in place,
`update_latest_nonce` drops exactly the covered prefix, and `erase` either cuts the
followers or leaves a list that `refresh` then moves out whole.  So every queue that
a run reaches has only such lists (`continuousValid_run`).

A transaction that `push_tx` accepts on a table that is not full can be found right
after (`find_pushTx_of_not_full`).  On a full table it may not: the victim is picked
before the push, and the push can first make it continuous, ahead of the new
transaction; dropping it with its followers then drops the new transaction too,
while `push_tx` still returns success (`pushTx_full_drops_pushed`).

## Main definitions

* `Continuous.Valid` — clause (a) of a continuous list.
* `Op`, `Queue.run` — runs of the queue's operations.

## Main results

* `continuousValid_run` — every reachable queue has only valid continuous lists.
* `find_pushTx_of_not_full` — an accepted transaction is found, if the table was not full.
* `pushTx_full_drops_pushed` — on a full table an accepted transaction can be lost.
-/

namespace TopChain
namespace TxQueue

/-! ### The continuous list -/

namespace Continuous

/-- The continuous list continues the latest nonce: the transaction at index `k` has
last nonce `latestNonce + k`, with no wrap-around, and there are at most sixteen. -/
structure Valid (c : Continuous) : Prop where
  lastNonce_eq : ∀ k tx, c.txs[k]? = some tx → tx.lastNonce.toNat = c.latestNonce.toNat + k
  length_le : c.txs.length ≤ 16

theorem valid_nil (latestNonce : UInt64) : (⟨[], latestNonce⟩ : Continuous).Valid :=
  ⟨by simp, by simp⟩

/-- The back nonce is the latest nonce moved on by the length of the list. -/
theorem toNat_getBackNonce {c : Continuous} (hv : c.Valid) :
    c.getBackNonce.toNat = (c.latestNonce.toNat + c.txs.length) % 2 ^ 64 := by
  unfold getBackNonce
  rcases hlast : c.txs.getLast? with _ | tx
  · rw [List.getLast?_eq_none_iff.mp hlast, List.length_nil, Nat.add_zero,
      Nat.mod_eq_of_lt (UInt64.toNat_lt _)]
  · have hne : c.txs ≠ [] := by
      rintro h
      simp [h] at hlast
    have hlen : 0 < c.txs.length := List.length_pos_iff.mpr hne
    rw [List.getLast?_eq_getElem?] at hlast
    have hnonce := hv.lastNonce_eq _ _ hlast
    simp only [Tx.txNonce, UInt64.toNat_add, UInt64.toNat_one]
    rw [hnonce]
    congr 1
    omega

/-- What a successful `nonce_check` says of the last nonce. -/
theorem nonceCheck_eq_success {c : Continuous} {lastNonce : UInt64}
    (h : c.nonceCheck lastNonce = .success) :
    c.latestNonce.toNat ≤ lastNonce.toNat ∧
      lastNonce.toNat < (c.latestNonce.toNat + 16) % 2 ^ 64 := by
  unfold nonceCheck at h
  split_ifs at h with hlt hge
  simp only [UInt64.lt_iff_toNat_lt, UInt64.le_iff_toNat_le, UInt64.toNat_add,
    accountSendTxQueueSizeMax] at hlt hge
  exact ⟨by omega, by simpa using hge⟩

/-- Appending the transaction of the back nonce keeps a list valid. -/
theorem valid_append {c : Continuous} (hv : c.Valid) {tx : Tx} (hlen : c.txs.length < 16)
    (htx : tx.lastNonce.toNat = c.latestNonce.toNat + c.txs.length) :
    { c with txs := c.txs ++ [tx] }.Valid := by
  refine ⟨fun k t hk => ?_, by simp only [List.length_append, List.length_singleton]; omega⟩
  simp only at hk ⊢
  rcases Nat.lt_or_ge k c.txs.length with hk' | hk'
  · rw [List.getElem?_append_left hk'] at hk
    exact hv.lastNonce_eq k t hk
  · rw [List.getElem?_append_right hk', List.getElem?_singleton] at hk
    split_ifs at hk with hzero
    cases hk
    rw [htx]
    omega

/-- Replacing the transaction at an index by one of the same last nonce keeps a list
valid. -/
theorem valid_set {c : Continuous} (hv : c.Valid) {tx : Tx} {i : ℕ}
    (htx : tx.lastNonce.toNat = c.latestNonce.toNat + i) :
    { c with txs := c.txs.set i tx }.Valid := by
  refine ⟨fun k t hk => ?_, by simpa using hv.length_le⟩
  simp only [List.getElem?_set] at hk ⊢
  -- an index past the end is closed by `split_ifs` itself
  split_ifs at hk with hki
  · cases hk
    rw [htx, hki]
  · exact hv.lastNonce_eq k t hk

/-- Clause (a) is kept by `insert`. -/
theorem valid_insert {c : Continuous} (hv : c.Valid) (q : Internal) (tx : Tx) :
    (c.insert q tx).2.1.Valid := by
  have hback := toNat_getBackNonce hv
  have hlen := hv.length_le
  have hlatest := UInt64.toNat_lt c.latestNonce
  have hlast := UInt64.toNat_lt tx.lastNonce
  unfold insert
  dsimp only
  split_ifs with hret hgt heq
  · exact hv
  · exact hv
  · -- the transaction continues the list
    obtain ⟨hge, hlt⟩ := nonceCheck_eq_success (not_not.mp hret)
    rw [UInt64.toNat_inj.symm] at heq
    exact valid_append hv (by omega) (by omega)
  · -- the transaction replaces the one of its nonce
    obtain ⟨hge, hlt⟩ := nonceCheck_eq_success (not_not.mp hret)
    have hlt' : tx.lastNonce.toNat < c.getBackNonce.toNat := by
      rw [UInt64.toNat_inj.symm] at heq
      rw [gt_iff_lt, UInt64.lt_iff_toNat_lt] at hgt
      omega
    have hidx : (tx.lastNonce - c.latestNonce).toUInt32.toNat =
        tx.lastNonce.toNat - c.latestNonce.toNat := by
      rw [UInt64.toNat_toUInt32, UInt64.toNat_sub_of_le _ _ (UInt64.le_iff_toNat_le.mpr hge)]
      omega
    rw [hidx]
    split
    · exact hv
    · split_ifs
      · exact hv
      · exact valid_set hv (by omega)

/-- What is left after dropping a prefix, read from a new latest nonce, is valid if
the prefix was exactly the nonces the new latest nonce covers, or the whole list. -/
theorem valid_drop {c : Continuous} (hv : c.Valid) {m : ℕ} {latestNonce : UInt64}
    (hm : c.txs.length ≤ m ∨ c.latestNonce.toNat + m = latestNonce.toNat) :
    (⟨c.txs.drop m, latestNonce⟩ : Continuous).Valid := by
  refine ⟨fun k t hk => ?_, by simp only [List.length_drop]; have := hv.length_le; omega⟩
  simp only [List.getElem?_drop] at hk ⊢
  have hbound : m + k < c.txs.length := (List.getElem?_eq_some_iff.mp hk).1
  have := hv.lastNonce_eq _ _ hk
  omega

/-- Clause (a) is kept by `update_latest_nonce`. -/
theorem valid_updateLatestNonce {c : Continuous} (hv : c.Valid) (q : Internal)
    (latestNonce : UInt64) : (c.updateLatestNonce q latestNonce).2.Valid := by
  unfold updateLatestNonce
  split_ifs with hle hempty
  · exact hv
  · dsimp only
    rw [List.isEmpty_iff.mp hempty]
    exact valid_nil latestNonce
  · -- the covered prefix is dropped, or the whole list
    have hgt : c.latestNonce.toNat < latestNonce.toNat := by
      rw [UInt64.le_iff_toNat_le] at hle
      omega
    have hdiff : (latestNonce - c.latestNonce).toNat = latestNonce.toNat - c.latestNonce.toNat :=
      UInt64.toNat_sub_of_le _ _ (UInt64.le_iff_toNat_le.mpr (Nat.le_of_lt hgt))
    simp only [batchErase, List.take_zero, List.nil_append]
    apply valid_drop hv
    split_ifs <;> omega

/-- A prefix of a valid list is valid. -/
theorem valid_take {c : Continuous} (hv : c.Valid) (m : ℕ) :
    { c with txs := c.txs.take m }.Valid := by
  refine ⟨fun k t hk => ?_, by simp only [List.length_take]; have := hv.length_le; omega⟩
  simp only [List.getElem?_take] at hk ⊢
  split_ifs at hk
  exact hv.lastNonce_eq k t hk

/-- `pop_uncontinuous_txs` leaves a valid list when the list is valid as soon as its
front continues the latest nonce. -/
theorem valid_popUncontinuousTxs {c : Continuous}
    (h : ∀ front rest, c.txs = front :: rest → c.latestNonce = front.lastNonce → c.Valid)
    (q : Internal) : (c.popUncontinuousTxs q).2.1.Valid := by
  unfold popUncontinuousTxs
  split
  · next heq => exact ⟨by simp [heq], by simp [heq]⟩
  · next front rest heq =>
    split_ifs with hfront
    · exact h front rest heq hfront
    · exact valid_nil c.latestNonce

/-- `erase` followed by `pop_uncontinuous_txs`, as `pop_tx` runs them, keeps clause
(a): clearing the followers leaves a prefix, and clearing the transactions ahead
leaves a list whose front is past the latest nonce, which is then moved out whole. -/
theorem valid_erase_popUncontinuousTxs {c : Continuous} (hv : c.Valid) (q q' : Internal)
    (nonce : UInt64) (clearFollower : Bool) :
    ((c.erase q nonce clearFollower).2.popUncontinuousTxs q').2.1.Valid := by
  unfold erase
  split_ifs with hout hcf
  · exact valid_popUncontinuousTxs (fun _ _ _ _ => hv) q'
  · simp only [batchErase_snd, List.drop_length, List.append_nil]
    exact valid_popUncontinuousTxs (fun _ _ _ _ => valid_take hv _) q'
  · -- the list left starts at index `nonce - latestNonce ≥ 1`
    simp only [batchErase_snd, List.take_zero, List.nil_append]
    refine valid_popUncontinuousTxs (fun front rest hfront heq => absurd heq ?_) q'
    have hback := toNat_getBackNonce hv
    have hlen := hv.length_le
    simp only [not_or, UInt64.lt_iff_toNat_lt, UInt64.le_iff_toNat_le] at hout
    have hidx : (nonce - c.latestNonce).toUInt32.toNat = nonce.toNat - c.latestNonce.toNat := by
      rw [UInt64.toNat_toUInt32, UInt64.toNat_sub_of_le _ _ (UInt64.le_iff_toNat_le.mpr
        (by omega))]
      omega
    simp only at hfront heq
    rw [hidx] at hfront
    have hget : c.txs[nonce.toNat - c.latestNonce.toNat]? = some front := by
      rw [← Nat.add_zero (nonce.toNat - c.latestNonce.toNat), ← List.getElem?_drop, hfront]
      rfl
    have hnonce := hv.lastNonce_eq _ _ hget
    simp only
    intro h
    have := congrArg UInt64.toNat h
    omega

end Continuous

/-! ### An account -/

namespace Account

/-- Clause (a) is kept by every round of `try_continue`. -/
theorem valid_tryContinueLoop :
    ∀ (n : ℕ) {q : Internal} {a : Account}, a.continuousTxs.Valid →
      (tryContinueLoop n q a).2.continuousTxs.Valid := by
  intro n
  induction n with
  | zero => exact fun hv => hv
  | succ n ih =>
    intro q a hv
    rw [tryContinueLoop]
    split_ifs
    · exact hv
    · simp only [Uncontinuous.popByLastNonce]
      rcases Uncontinuous.popByLastNonceLoop q a.uncontinuousTxs.txs a.continuousTxs.getBackNonce
        with ⟨q', l', _ | tx⟩
      · exact hv
      · dsimp only
        have hc := Continuous.valid_insert hv q' tx
        rcases hins : a.continuousTxs.insert q' tx with ⟨q'', c', _ | _ | _ | _ | _ | _⟩
        all_goals rw [hins] at hc
        · exact ih hc
        all_goals exact hc

theorem valid_tryContinue {q : Internal} {a : Account} (hv : a.continuousTxs.Valid) :
    (tryContinue q a).2.continuousTxs.Valid :=
  valid_tryContinueLoop _ hv

/-- Clause (a) is kept by `push_tx` of an account. -/
theorem valid_pushTx {a : Account} (hv : a.continuousTxs.Valid) (q : Internal) (tx : Tx) :
    (a.pushTx q tx).2.1.continuousTxs.Valid := by
  unfold pushTx
  have hc := Continuous.valid_insert hv q tx
  rcases hins : a.continuousTxs.insert q tx with ⟨q', c', _ | _ | _ | _ | _ | _⟩
  all_goals rw [hins] at hc
  · exact valid_tryContinue hc
  all_goals exact hc

/-- Clause (a) is kept by `update_latest_nonce` of an account. -/
theorem valid_updateLatestNonce {a : Account} (hv : a.continuousTxs.Valid) (q : Internal)
    (latestNonce : UInt64) : (a.updateLatestNonce q latestNonce).2.continuousTxs.Valid :=
  valid_tryContinue (Continuous.valid_updateLatestNonce hv q latestNonce)

/-- Clause (a) is kept by `erase` followed by `refresh`. -/
theorem valid_refresh_erase {a : Account} (hv : a.continuousTxs.Valid) (q q' : Internal)
    (nonce : UInt64) (clearFollower : Bool) :
    ((a.erase q nonce clearFollower).2.refresh q').2.continuousTxs.Valid := by
  rw [refresh_continuousTxs, erase_continuousTxs]
  exact Continuous.valid_erase_popUncontinuousTxs hv q q' nonce clearFollower

end Account

/-! ### Every reachable queue -/

namespace Queue

/-- Clause (a) for every account of the queue. -/
def ContinuousValid (s : Queue) : Prop := ∀ p ∈ s.sendTxAccounts, p.2.continuousTxs.Valid

theorem continuousValid_empty : empty.ContinuousValid := by
  simp [ContinuousValid, empty]

theorem continuousValid_storeAccount {s : Queue} (hs : s.ContinuousValid) (q : Internal)
    (addr : String) {a : Account} (ha : a.continuousTxs.Valid) :
    (s.storeAccount q addr a).ContinuousValid := by
  intro p hp
  unfold storeAccount at hp
  split_ifs at hp
  · exact hs p (mem_of_mem_eraseKey hp)
  · rcases mem_upsert_const hp with hp | rfl
    · exact hs p hp
    · exact ha

theorem continuousValid_eraseIfEmpty {s : Queue} (hs : s.ContinuousValid) (addr : String) :
    (s.eraseIfEmpty addr).ContinuousValid := by
  unfold eraseIfEmpty
  split
  · split_ifs
    · exact fun p hp => hs p (mem_of_mem_eraseKey hp)
    · exact hs
  · exact hs

theorem continuousValid_popTx {s : Queue} (hs : s.ContinuousValid) (hash : ℕ) (addr : String)
    (clearFollower : Bool) : (s.popTx hash addr clearFollower).1.ContinuousValid := by
  unfold popTx
  split
  · exact hs
  · split
    · exact hs
    · next a ha =>
      exact continuousValid_storeAccount hs _ _
        (Account.valid_refresh_erase (hs _ (mem_of_lookup_eq_some ha)) _ _ _ _)

theorem continuousValid_clearExpiredTxs {s : Queue} (hs : s.ContinuousValid)
    (expired : Tx → Bool) : (s.clearExpiredTxs expired).ContinuousValid := by
  unfold clearExpiredTxs
  -- each expired transaction is popped in turn
  generalize s.internal.getExpiredTxs expired = txs
  induction txs generalizing s with
  | nil => exact hs
  | cons tx rest ih => exact ih (continuousValid_popTx hs _ _ _)

theorem continuousValid_updataLatestNonce {s : Queue} (hs : s.ContinuousValid) (addr : String)
    (latestNonce : UInt64) : (s.updataLatestNonce addr latestNonce).ContinuousValid := by
  unfold updataLatestNonce
  split
  · next a ha =>
    exact continuousValid_storeAccount hs _ _
      (Account.valid_updateLatestNonce (hs _ (mem_of_lookup_eq_some ha)) _ _)
  · exact hs

theorem continuousValid_pushToAccount {s : Queue} (hs : s.ContinuousValid) (tx : Tx)
    (latestNonce : UInt64) : (s.pushToAccount tx latestNonce).1.ContinuousValid := by
  unfold pushToAccount
  intro p hp
  rcases mem_upsert_const hp with hp | rfl
  · exact hs p hp
  · -- the account pushed to is a new one, or a stored one advanced
    split
    · exact Account.valid_pushTx (Continuous.valid_nil latestNonce) _ _
    · next a ha =>
      exact Account.valid_pushTx
        (Account.valid_updateLatestNonce (hs _ (mem_of_lookup_eq_some ha)) _ _) _ _

theorem continuousValid_dropVictim {s : Queue} (hs : s.ContinuousValid) (victim tx : Tx) :
    (s.dropVictim victim tx).1.ContinuousValid := by
  unfold dropVictim
  dsimp only
  split_ifs
  · exact continuousValid_popTx hs _ _ _
  · exact continuousValid_eraseIfEmpty (continuousValid_popTx hs _ _ _) _

theorem continuousValid_pushTx {s : Queue} (hs : s.ContinuousValid) (full : Bool)
    (expired : Tx → Bool) (tx : Tx) (latestNonce : UInt64) :
    (s.pushTx full expired tx latestNonce).1.ContinuousValid := by
  have hc := continuousValid_clearExpiredTxs hs expired
  unfold pushTx
  generalize s.clearExpiredTxs expired = s₁ at hc ⊢
  dsimp only
  generalize (if full = true then s₁.internal.pickToBeDropedTx else none) = victim
  split_ifs
  · exact hc
  · have hp := continuousValid_pushToAccount hc tx latestNonce
    generalize s₁.pushToAccount tx latestNonce = r at hp ⊢
    split
    · exact continuousValid_dropVictim hp _ _
    · exact continuousValid_eraseIfEmpty hp _

end Queue

/-- The operations a caller runs on the queue; `full` and `expired` are what the
table's counters and the clock say at the time. -/
inductive Op where
  | pushTx (full : Bool) (expired : Tx → Bool) (tx : Tx) (latestNonce : UInt64)
  | popTx (hash : ℕ) (addr : String) (clearFollower : Bool)
  | updataLatestNonce (addr : String) (latestNonce : UInt64)
  | clearExpiredTxs (expired : Tx → Bool)

namespace Queue

/-- One operation. -/
def step (s : Queue) : Op → Queue
  | .pushTx full expired tx latestNonce => (s.pushTx full expired tx latestNonce).1
  | .popTx hash addr clearFollower => (s.popTx hash addr clearFollower).1
  | .updataLatestNonce addr latestNonce => s.updataLatestNonce addr latestNonce
  | .clearExpiredTxs expired => s.clearExpiredTxs expired

/-- A run of operations. -/
def run (s : Queue) (ops : List Op) : Queue := ops.foldl step s

theorem continuousValid_step {s : Queue} (hs : s.ContinuousValid) :
    ∀ op : Op, (s.step op).ContinuousValid
  | .pushTx full expired tx latestNonce => continuousValid_pushTx hs full expired tx latestNonce
  | .popTx hash addr clearFollower => continuousValid_popTx hs hash addr clearFollower
  | .updataLatestNonce addr latestNonce => continuousValid_updataLatestNonce hs addr latestNonce
  | .clearExpiredTxs expired => continuousValid_clearExpiredTxs hs expired

end Queue

/-- In every queue a run reaches from the empty one, every account's continuous list
continues its latest nonce without a gap and has at most sixteen transactions. -/
theorem continuousValid_run (ops : List Op) : (Queue.empty.run ops).ContinuousValid := by
  unfold Queue.run
  -- the invariant holds of the empty queue and every step keeps it
  suffices h : ∀ s : Queue, s.ContinuousValid → (ops.foldl Queue.step s).ContinuousValid from
    h _ Queue.continuousValid_empty
  induction ops with
  | nil => exact fun _ hs => hs
  | cons op rest ih => exact fun s hs => ih _ (Queue.continuousValid_step hs op)

/-! ### Finding an accepted transaction -/

namespace Internal

/-- The hash has an entry in the ready map. -/
def HasReady (q : Internal) (hash : ℕ) : Prop := (q.ready.map.lookup hash).isSome

theorem hasReady_insertReadyTx_self (q : Internal) (tx : Tx) :
    (q.insertReadyTx tx).HasReady tx.hash :=
  isSome_lookup_upsert_self _ _ _

theorem HasReady.insertReadyTx {q : Internal} {hash : ℕ} (h : q.HasReady hash) (tx : Tx) :
    (q.insertReadyTx tx).HasReady hash :=
  isSome_lookup_upsert _ _ h

theorem isSome_find_of_hasReady {q : Internal} {hash : ℕ} (h : q.HasReady hash) :
    (q.find hash).isSome := by
  unfold find
  unfold HasReady at h
  rcases hr : q.ready.map.lookup hash with _ | tx
  · simp [hr] at h
  · rfl

theorem isSome_find_insertNonReadyTx (q : Internal) (tx : Tx) :
    ((q.insertNonReadyTx tx).find tx.hash).isSome := by
  unfold find
  have hn : ((q.insertNonReadyTx tx).nonReady.map.lookup tx.hash).isSome :=
    isSome_lookup_upsert_self _ _ _
  rcases (q.insertNonReadyTx tx).ready.map.lookup tx.hash with _ | t
  · exact hn
  · rfl

end Internal

namespace Uncontinuous

/-- Popping by last nonce touches only the non-ready queue. -/
theorem hasReady_popByLastNonceLoop {hash : ℕ} (lastNonce : UInt64) :
    ∀ (l : List (UInt64 × Tx)) {q : Internal}, q.HasReady hash →
      (popByLastNonceLoop q l lastNonce).1.HasReady hash
  | [], _, h => h
  | (n, tx) :: rest, q, h => by
    rw [popByLastNonceLoop]
    split_ifs
    · exact hasReady_popByLastNonceLoop lastNonce rest h
    · exact h
    · exact h

/-- A successful insertion ends by inserting into the non-ready queue. -/
theorem insert_eq_success {q : Internal} {u : Uncontinuous} {tx : Tx}
    (h : (u.insert q tx).2.2 = .success) :
    ∃ q' : Internal, (u.insert q tx).1 = q'.insertNonReadyTx tx := by
  unfold insert at h ⊢
  dsimp only at h ⊢
  rcases hl : u.txs.lookup tx.txNonce with _ | old
  · exact ⟨q, rfl⟩
  · -- a waiting transaction of the same nonce is replaced, or the insertion refused
    simp only [hl] at h ⊢
    split_ifs at h ⊢
    exact ⟨_, rfl⟩

end Uncontinuous

namespace Continuous

/-- A successful insertion ends by inserting into the ready queue. -/
theorem insert_eq_success {q : Internal} {c : Continuous} {tx : Tx}
    (h : (c.insert q tx).2.2 = .success) :
    ∃ q' : Internal, (c.insert q tx).1 = q'.insertReadyTx tx := by
  unfold insert at h ⊢
  dsimp only at h ⊢
  by_cases hret : c.nonceCheck tx.lastNonce = .success
  · rw [if_neg (not_not.mpr hret)] at h ⊢
    by_cases hgt : tx.lastNonce > c.getBackNonce
    · rw [if_pos hgt] at h
      simp at h
    · rw [if_neg hgt] at h ⊢
      by_cases heq : tx.lastNonce = c.getBackNonce
      · rw [if_pos heq]
        exact ⟨_, rfl⟩
      · -- the replacement of the transaction of the same nonce
        rw [if_neg heq] at h ⊢
        rcases hidx : c.txs[(tx.lastNonce - c.latestNonce).toUInt32.toNat]? with _ | old
        · rw [hidx] at h
          simp at h
        · rw [hidx] at h
          dsimp only at h ⊢
          by_cases hfire : tx.fireTimestamp ≤ old.fireTimestamp
          · rw [if_pos hfire] at h
            simp at h
          · rw [if_neg hfire]
            exact ⟨_, rfl⟩
  · rw [if_pos hret] at h
    exact absurd h hret

/-- A transaction of the back nonce is appended or refused: nothing is erased from
the ready queue. -/
theorem insert_of_lastNonce_eq {q : Internal} {c : Continuous} {tx : Tx}
    (h : tx.lastNonce = c.getBackNonce) :
    (c.insert q tx).1 = q ∨ (c.insert q tx).1 = q.insertReadyTx tx := by
  unfold insert
  dsimp only
  -- `split_ifs` closes the replacement branch with `h`
  split_ifs
  · exact .inl rfl
  · exact .inl rfl
  · exact .inr rfl

end Continuous

namespace Account

/-- `try_continue` only moves transactions into the ready queue. -/
theorem hasReady_tryContinueLoop {hash : ℕ} :
    ∀ (n : ℕ) {q : Internal} {a : Account}, q.HasReady hash →
      (tryContinueLoop n q a).1.HasReady hash := by
  intro n
  induction n with
  | zero => exact fun h => h
  | succ n ih =>
    intro q a h
    rw [tryContinueLoop]
    split_ifs
    · exact h
    · simp only [Uncontinuous.popByLastNonce]
      have hpop := Uncontinuous.hasReady_popByLastNonceLoop a.continuousTxs.getBackNonce
        a.uncontinuousTxs.txs h
      rcases hp : Uncontinuous.popByLastNonceLoop q a.uncontinuousTxs.txs
          a.continuousTxs.getBackNonce with ⟨q', l', _ | tx⟩
      all_goals rw [hp] at hpop
      · exact hpop
      · -- the popped transaction has the back nonce, so it is appended or refused
        dsimp only
        have hins : (a.continuousTxs.insert q' tx).1.HasReady hash := by
          rcases Continuous.insert_of_lastNonce_eq (q := q')
              (Uncontinuous.popByLastNonceLoop_lastNonce hp) with h' | h'
          · rw [h']
            exact hpop
          · rw [h']
            exact hpop.insertReadyTx tx
        rcases hi : a.continuousTxs.insert q' tx with ⟨q'', c', _ | _ | _ | _ | _ | _⟩
        all_goals rw [hi] at hins
        · exact ih hins
        all_goals exact hins

/-- A transaction an account accepts can be found in the shared queues. -/
theorem isSome_find_pushTx {q : Internal} {a : Account} {tx : Tx}
    (h : (a.pushTx q tx).2.2 = .success) : ((a.pushTx q tx).1.find tx.hash).isSome := by
  unfold pushTx at h ⊢
  rcases hi : a.continuousTxs.insert q tx with ⟨q', c', ret⟩
  cases ret with
  | success =>
    -- appended or replaced in the list, then kept by `try_continue`
    have hs : (a.continuousTxs.insert q tx).2.2 = .success := by rw [hi]
    obtain ⟨q₀, hq₀⟩ := Continuous.insert_eq_success hs
    rw [hi] at hq₀
    simp only at hq₀
    subst hq₀
    exact Internal.isSome_find_of_hasReady
      (hasReady_tryContinueLoop _ (Internal.hasReady_insertReadyTx_self q₀ tx))
  | txNonceUncontinuous =>
    -- left to the uncontinuous map, which inserted it into the non-ready queue
    simp only [hi] at h ⊢
    obtain ⟨q₀, hq₀⟩ := Uncontinuous.insert_eq_success h
    rw [hq₀]
    exact Internal.isSome_find_insertNonReadyTx q₀ tx
  | _ => simp [hi] at h

end Account

namespace Queue

@[simp] theorem eraseIfEmpty_internal (s : Queue) (addr : String) :
    (s.eraseIfEmpty addr).internal = s.internal := by
  unfold eraseIfEmpty
  split
  · split_ifs <;> rfl
  · rfl

theorem isSome_find_pushToAccount {s : Queue} {tx : Tx} {latestNonce : UInt64}
    (h : (s.pushToAccount tx latestNonce).2 = .success) :
    ((s.pushToAccount tx latestNonce).1.find tx.hash).isSome :=
  Account.isSome_find_pushTx h

/-- Clause (d) on a table that is not full: a transaction `push_tx` accepts is found
right after. -/
theorem find_pushTx_of_not_full {s : Queue} {expired : Tx → Bool} {tx : Tx}
    {latestNonce : UInt64} (h : (s.pushTx false expired tx latestNonce).2 = .success) :
    ((s.pushTx false expired tx latestNonce).1.find tx.hash).isSome := by
  unfold pushTx at h ⊢
  simp only [Bool.false_eq_true, if_false, false_and] at h ⊢
  -- no victim: the push is followed only by the erasure of an empty account
  generalize hr : (s.clearExpiredTxs expired).pushToAccount tx latestNonce = r at h ⊢
  obtain ⟨s', ret⟩ := r
  cases ret with
  | success =>
    simp only
    rw [find, eraseIfEmpty_internal, ← find]
    have hs : ((s.clearExpiredTxs expired).pushToAccount tx latestNonce).2 = .success := by
      rw [hr]
    have := isSome_find_pushToAccount hs
    rw [hr] at this
    exact this
  | _ => simp at h

/-- The push of `pushTx_full_drops_pushed` on a table that is not full: `t` follows
`v` in the continuous list, is accepted and is found. -/
theorem find_pushTx_of_not_full_follower :
    ((Queue.empty.pushTx false (fun _ => false) ⟨1, "A", 1, 1⟩ 0).1.pushTx false (fun _ => false)
        ⟨2, "A", 2, 2⟩ 1).2 = .success ∧
      (((Queue.empty.pushTx false (fun _ => false) ⟨1, "A", 1, 1⟩ 0).1.pushTx false (fun _ => false)
        ⟨2, "A", 2, 2⟩ 1).1.find 2).isSome :=
  ⟨by decide, find_pushTx_of_not_full (by decide)⟩

/-- A transaction pushed on a full table can be accepted and yet be gone.  Account `A`
has one waiting transaction `v` (last nonce `1`) when the table becomes full, so `v`
is picked as the victim.  Pushing `t` (last nonce `2`) with latest nonce `1` first
advances the account, which moves `v` into the continuous list, and then appends `t`
behind it.  Picked again, the non-ready queue is empty, so `v` stays the victim and is
popped with its followers, `t` among them; `push_tx` returns success. -/
theorem pushTx_full_drops_pushed :
    let v : Tx := ⟨1, "A", 1, 1⟩
    let t : Tx := ⟨2, "A", 2, 2⟩
    let s := (Queue.empty.pushTx false (fun _ => false) v 0).1
    (Queue.empty.pushTx false (fun _ => false) v 0).2 = .success ∧
      (s.pushTx true (fun _ => false) t 1).2 = .success ∧
      (s.pushTx true (fun _ => false) t 1).1.find t.hash = none := by
  decide

end Queue

end TxQueue
end TopChain

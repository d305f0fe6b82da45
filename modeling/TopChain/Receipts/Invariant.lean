import TopChain.Receipts.Lacking

/-!
# What every call keeps of the receipt queue

Every receipt reaches the queue through `push_tx`, which files it in the table of
its kind and peer under its own id; the calls only ever drop receipts from the
tables and the queue, and no table is ever removed.  So, in every state the calls
reach: a table holds receipts of its kind and peer, each under its id, above its
largest taken id (`PeerTable.Files`, `PeerTable.Valid`); and a receipt in the
queue has its table (`Inv.queue`), which `get_txs` and `pop_tx` dereference.

## Main definitions

* `PeerTable.Files` — a table holds receipts of its kind and peer under their ids.
* `ReceiptQueue.Inv` — the invariant of the queue.

## Main results

* `ReceiptQueue.Inv.step` — every call keeps `Inv`.
* `ReceiptQueue.inv_run` — every state the calls reach satisfies it.
-/

namespace TopChain

namespace Receipts

/-! ### The queue of all receipts loses what it is told to -/

theorem mem_insertTx {r x : Receipt} {queue : List Receipt} :
    x ∈ insertTx r queue ↔ x = r ∨ x ∈ queue := by
  induction queue with
  | nil => simp [insertTx]
  | cons y ys ih =>
    unfold insertTx
    split_ifs
    · simp
    · rw [List.mem_cons, ih, List.mem_cons]
      tauto

theorem mem_of_mem_eraseTx {hash : ℕ} {x : Receipt} {queue : List Receipt}
    (h : x ∈ eraseTx hash queue) : x ∈ queue :=
  List.mem_of_mem_eraseP h

theorem mem_of_mem_foldl_eraseTx {l : List (ℕ × Receipt)} {x : Receipt} {queue : List Receipt}
    (h : x ∈ l.foldl (fun q e => eraseTx e.2.hash q) queue) : x ∈ queue := by
  induction l generalizing queue with
  | nil => exact h
  | cons e rest ih => exact mem_of_mem_eraseTx (ih h)

namespace PeerTable

/-- A table of kind `isRecv` and peer `peer` holds receipts of that kind and peer,
each under its own id. -/
def Files (p : PeerTable) (isRecv : Bool) (peer : ℕ) : Prop :=
  ∀ e ∈ p.txs, e.2.isRecv = isRecv ∧ e.2.peer = peer ∧ e.2.receiptId = e.1

section Files

variable {p : PeerTable} {isRecv : Bool} {peer : ℕ}

theorem files_empty : empty.Files isRecv peer := by
  intro e he
  simp [empty] at he

theorem Files.pushTx (hp : p.Files isRecv peer) (queue : List Receipt) {r : Receipt}
    (hr : r.isRecv = isRecv ∧ r.peer = peer) : (p.pushTx queue r).1.Files isRecv peer := by
  unfold PeerTable.pushTx
  split_ifs
  · exact hp
  · exact hp
  · intro e he
    rcases mem_upsert_const he with he | rfl
    · exact hp e he
    · exact ⟨hr.1, hr.2, rfl⟩

theorem Files.updateLatestReceiptId (hp : p.Files isRecv peer) (queue : List Receipt)
    (latestReceiptId : ℕ) : (p.updateLatestReceiptId queue latestReceiptId).1.Files isRecv peer := by
  unfold PeerTable.updateLatestReceiptId
  split_ifs
  · exact hp
  · intro e he
    exact hp e ((List.dropWhile_sublist _).subset he)

theorem Files.erase (hp : p.Files isRecv peer) (queue : List Receipt) (receiptId : ℕ) :
    (p.erase queue receiptId).1.Files isRecv peer := by
  unfold PeerTable.erase
  split
  · intro e he
    exact hp e (mem_of_mem_eraseKey he)
  · exact hp

end Files

/-- What a table's calls do to the queue: they only drop receipts from it, except
`push_tx`, which adds the one pushed. -/
theorem mem_queue_pushTx {p : PeerTable} {queue : List Receipt} {r x : Receipt}
    (h : x ∈ (p.pushTx queue r).2.1) : x = r ∨ x ∈ queue := by
  unfold PeerTable.pushTx at h
  split_ifs at h
  · exact Or.inr h
  · exact Or.inr h
  · exact mem_insertTx.mp h

theorem mem_queue_updateLatestReceiptId {p : PeerTable} {queue : List Receipt} {n : ℕ}
    {x : Receipt} (h : x ∈ (p.updateLatestReceiptId queue n).2) : x ∈ queue := by
  unfold PeerTable.updateLatestReceiptId at h
  split_ifs at h
  · exact h
  · exact mem_of_mem_foldl_eraseTx h

theorem mem_queue_erase {p : PeerTable} {queue : List Receipt} {receiptId : ℕ} {x : Receipt}
    (h : x ∈ (p.erase queue receiptId).2) : x ∈ queue := by
  unfold PeerTable.erase at h
  split at h
  · exact mem_of_mem_eraseTx h
  · exact h

end PeerTable

namespace ReceiptQueue

/-- The invariant: every table is `Valid` and holds receipts of its kind and
peer, and every receipt in the queue has its table. -/
structure Inv (q : ReceiptQueue) : Prop where
  valid : ∀ isRecv peer p, (q.tables isRecv).lookup peer = some p → p.Valid
  files : ∀ isRecv peer p, (q.tables isRecv).lookup peer = some p → p.Files isRecv peer
  queue : ∀ r ∈ q.queue, ((q.tables r.isRecv).lookup r.peer).isSome

theorem inv_empty : empty.Inv where
  valid := by simp [empty, tables]
  files := by simp [empty, tables]
  queue := by simp [empty]

variable {q : ReceiptQueue}

theorem Inv.tableOrEmpty (hq : q.Inv) (isRecv : Bool) (peer : ℕ) :
    (q.tableOrEmpty isRecv peer).Valid ∧ (q.tableOrEmpty isRecv peer).Files isRecv peer := by
  unfold ReceiptQueue.tableOrEmpty
  cases h : (q.tables isRecv).lookup peer with
  | none => exact ⟨PeerTable.valid_empty, PeerTable.files_empty⟩
  | some p => exact ⟨hq.valid isRecv peer p h, hq.files isRecv peer p h⟩

/-- Writing back a table that keeps the invariant's two table facts, with a queue
whose receipts have their tables afterwards, keeps the invariant. -/
theorem Inv.putTable (hq : q.Inv) {isRecv : Bool} {peer : ℕ} {p : PeerTable}
    (hv : p.Valid) (hf : p.Files isRecv peer) {queue : List Receipt}
    (hqueue : ∀ r ∈ queue, r ∈ q.queue ∨ (r.isRecv = isRecv ∧ r.peer = peer)) :
    (q.putTable isRecv peer p queue).Inv where
  valid := by
    intro b peer' p' h
    rw [lookup_putTable] at h
    split_ifs at h with hk
    · cases h
      exact hv
    · exact hq.valid b peer' p' h
  files := by
    intro b peer' p' h
    rw [lookup_putTable] at h
    split_ifs at h with hk
    · cases h
      obtain ⟨rfl, rfl⟩ := hk
      exact hf
    · exact hq.files b peer' p' h
  queue := by
    intro r hr
    rw [queue_putTable] at hr
    rw [lookup_putTable]
    split_ifs with hk
    · rfl
    · rcases hqueue r hr with hr | hk'
      · exact hq.queue r hr
      · exact absurd hk' hk

theorem Inv.pushTx (hq : q.Inv) (r : Receipt) : (q.pushTx r).1.Inv := by
  obtain ⟨hv, hf⟩ := hq.tableOrEmpty r.isRecv r.peer
  exact hq.putTable (hv.pushTx q.queue r) (hf.pushTx q.queue ⟨rfl, rfl⟩) fun x hx =>
    (PeerTable.mem_queue_pushTx hx).elim (fun h => Or.inr (h ▸ ⟨rfl, rfl⟩)) Or.inl

theorem Inv.popTx (hq : q.Inv) (hash : ℕ) (subtype : ReceiptId.TxSubtype) :
    (q.popTx hash subtype).1.Inv := by
  unfold ReceiptQueue.popTx
  split
  · exact hq
  · next r _ =>
    split_ifs
    · exact hq
    · split
      · next p hp =>
        exact hq.putTable ((hq.valid _ _ p hp).erase q.queue r.receiptId)
          ((hq.files _ _ p hp).erase q.queue r.receiptId)
          fun x hx => Or.inl (PeerTable.mem_queue_erase hx)
      · exact hq

theorem Inv.updateReceiptIdByConfirmedTx (hq : q.Inv) (subtype : ReceiptId.TxSubtype)
    (peer receiptId : ℕ) : (q.updateReceiptIdByConfirmedTx subtype peer receiptId).Inv := by
  -- the update of one kind's table keeps the invariant
  have hupdate : ∀ isRecv : Bool, (q.putTable isRecv peer
      ((q.tableOrEmpty isRecv peer).updateLatestReceiptId q.queue receiptId).1
      ((q.tableOrEmpty isRecv peer).updateLatestReceiptId q.queue receiptId).2).Inv := by
    intro isRecv
    obtain ⟨hv, hf⟩ := hq.tableOrEmpty isRecv peer
    exact hq.putTable (hv.updateLatestReceiptId q.queue receiptId)
      (hf.updateLatestReceiptId q.queue receiptId)
      fun x hx => Or.inl (PeerTable.mem_queue_updateLatestReceiptId hx)
  unfold ReceiptQueue.updateReceiptIdByConfirmedTx
  cases subtype with
  | recv => exact hupdate true
  | confirm => exact hupdate false
  | self => exact hq
  | send => exact hq

/-- The loop over one kind's tables keeps their keys, gives each key its table
after `update_latest_receipt_id`, and only drops receipts from the queue. -/
theorem lackingLoop_spec (latestOf maxPullOf : ℕ → ℕ) (l : List (ℕ × PeerTable))
    (queue : List Receipt) :
    (∀ peer, ((lackingLoop latestOf maxPullOf l queue).1.lookup peer).isSome =
      (l.lookup peer).isSome) ∧
    (∀ peer p', (lackingLoop latestOf maxPullOf l queue).1.lookup peer = some p' →
      ∃ p queue0, l.lookup peer = some p ∧
        p' = (p.updateLatestReceiptId queue0 (latestOf peer)).1) ∧
    (∀ x ∈ (lackingLoop latestOf maxPullOf l queue).2.1, x ∈ queue) := by
  induction l generalizing queue with
  | nil => simp [lackingLoop]
  | cons e rest ih =>
    obtain ⟨peer₀, p₀⟩ := e
    obtain ⟨ihkeys, ihval, ihqueue⟩ :=
      ih (p₀.updateLatestReceiptId queue (latestOf peer₀)).2
    refine ⟨?_, ?_, ?_⟩
    · intro peer
      by_cases hp : peer = peer₀
      · subst hp
        simp [lackingLoop]
      · simp only [lackingLoop, List.lookup_cons, beq_false_of_ne hp]
        exact ihkeys peer
    · intro peer p' h
      by_cases hp : peer = peer₀
      · subst hp
        simp only [lackingLoop, List.lookup_cons, beq_self_eq_true, Option.some.injEq] at h
        exact ⟨p₀, queue, by simp, h.symm⟩
      · simp only [lackingLoop, List.lookup_cons, beq_false_of_ne hp] at h ⊢
        exact ihval peer p' h
    · intro x hx
      exact PeerTable.mem_queue_updateLatestReceiptId (ihqueue x hx)

theorem Inv.getLackingTxIds (hq : q.Inv) (isRecv : Bool) (latestOf maxPullOf : ℕ → ℕ)
    (totalNum : ℕ) : (q.getLackingTxIds isRecv latestOf maxPullOf totalNum).1.Inv := by
  obtain ⟨hkeys, hval, hqueue⟩ := lackingLoop_spec latestOf maxPullOf (q.tables isRecv) q.queue
  -- the tables of the other kind are untouched
  have htables : ∀ b, (q.getLackingTxIds isRecv latestOf maxPullOf totalNum).1.tables b =
      if b = isRecv then (lackingLoop latestOf maxPullOf (q.tables isRecv) q.queue).1
      else q.tables b := by
    intro b
    have h := tables_setTables q isRecv (lackingLoop latestOf maxPullOf (q.tables isRecv) q.queue).1 b
    unfold ReceiptQueue.getLackingTxIds
    rw [← h]
    unfold setTables tables
    cases isRecv <;> rfl
  have hqueue' : (q.getLackingTxIds isRecv latestOf maxPullOf totalNum).1.queue =
      (lackingLoop latestOf maxPullOf (q.tables isRecv) q.queue).2.1 := by
    unfold ReceiptQueue.getLackingTxIds setTables
    cases isRecv <;> rfl
  refine ⟨?_, ?_, ?_⟩
  · intro b peer p' h
    rw [htables] at h
    split_ifs at h with hb
    · subst hb
      obtain ⟨p, queue0, hp, rfl⟩ := hval peer p' h
      exact (hq.valid b peer p hp).updateLatestReceiptId queue0 _
    · exact hq.valid b peer p' h
  · intro b peer p' h
    rw [htables] at h
    split_ifs at h with hb
    · subst hb
      obtain ⟨p, queue0, hp, rfl⟩ := hval peer p' h
      exact (hq.files b peer p hp).updateLatestReceiptId queue0 _
    · exact hq.files b peer p' h
  · intro r hr
    rw [hqueue'] at hr
    rw [htables]
    split_ifs with hb
    · subst hb
      rw [hkeys]
      exact hq.queue r (hqueue r hr)
    · exact hq.queue r (hqueue r hr)

/-- Every call keeps the invariant. -/
theorem Inv.step (hq : q.Inv) : ∀ op : Op, (q.step op).Inv
  | .pushTx r => hq.pushTx r
  | .popTx hash subtype => hq.popTx hash subtype
  | .updateReceiptIdByConfirmedTx subtype peer receiptId =>
    hq.updateReceiptIdByConfirmedTx subtype peer receiptId
  | .getLackingRecvTxIds recvidMax sendidMax => hq.getLackingTxIds true recvidMax sendidMax 0
  | .getLackingConfirmTxIds confirmidMax recvidMax =>
    hq.getLackingTxIds false confirmidMax recvidMax 0

theorem Inv.run (hq : q.Inv) (ops : List Op) : (q.run ops).Inv := by
  induction ops generalizing q with
  | nil => exact hq
  | cons op ops ih => exact ih (hq.step op)

/-- Every state the calls reach from the empty queue satisfies the invariant. -/
theorem inv_run (ops : List Op) : (empty.run ops).Inv := inv_empty.run ops

end ReceiptQueue

end Receipts

end TopChain

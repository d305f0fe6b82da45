import TopChain.Receipts.Invariant

/-!
# The receipts proposed for a block

`get_txs` first collects candidates: walking the queue in its order, it keeps for
each peer table of each kind the table's receipts up to the one met, as long as
they are at most the room left.  However the queue is ordered, the candidates of
a peer table are receipts of that kind and peer (`collect_spec`).  It then takes,
peer table by peer table, the run of candidates whose ids continue the peer's
largest taken id: the receipts it proposes for a peer are, in order, the ids right
after that one, each once (`selectContinuous_spec`).  Confirm receipts come first,
up to their own limit, then receive receipts up to the total one.

## Main definitions

* `Continues` — for every peer, the receipts listed for it have the ids right
  after the peer's largest taken one.
* `Candidates.Ok` — the candidates of each kind are grouped by peer, in key order.

## Main results

* `takeContinuous_spec`, `selectContinuous_spec` — the two selecting loops.
* `collect_spec` — the first loop finds every table it looks for.
* `getTxs_gap_free` — in every state the calls reach, `get_txs` proposes
  gap-free runs of receipts, confirm receipts first, within its limits.
-/

namespace TopChain

namespace Receipts

/-- A table's `get_txs` returns receipts it holds. -/
theorem PeerTable.mem_getTxs {p : PeerTable} {upper maxNum : ℕ} {x : Receipt}
    (hx : x ∈ p.getTxs upper maxNum) : ∃ e ∈ p.txs, e.2 = x := by
  unfold PeerTable.getTxs at hx
  dsimp only at hx
  split_ifs at hx
  · obtain ⟨e, he, rfl⟩ := List.mem_map.mp hx
    exact ⟨e, (List.takeWhile_sublist _).subset he, rfl⟩
  · simp at hx

namespace ReceiptQueue

/-- For every peer table, the receipts of `w` from it have, in order, the ids
right after `maxId peer`. -/
def Continues (maxId : ℕ → ℕ) (w : List Receipt) : Prop :=
  ∀ peer, ∃ m, (w.filter (·.peer = peer)).map (·.receiptId) = List.range' (maxId peer + 1) m

/-- Receipts listed with consecutive ids are listed once each. -/
theorem nodup_of_map_receiptId {w : List Receipt} {start : ℕ}
    (h : w.map (·.receiptId) = List.range' start w.length) : w.Nodup := by
  apply List.Nodup.of_map (·.receiptId)
  rw [h]
  exact List.nodup_range' 1

/-- The inner selecting loop appends, to what is already taken, receipts of the
table's candidates with the ids right after `minReceiptId`, and stops at `limit`.
By induction on the candidates. -/
theorem takeContinuous_spec (limit : ℕ) (retTxs txs : List Receipt) (minReceiptId : ℕ) :
    ∃ w, takeContinuous limit retTxs txs minReceiptId = retTxs ++ w ∧
      w.map (·.receiptId) = List.range' (minReceiptId + 1) w.length ∧
      (∀ r ∈ w, r ∈ txs) ∧ (retTxs ++ w).length ≤ max retTxs.length limit := by
  induction txs generalizing retTxs minReceiptId with
  | nil => exact ⟨[], by simp [takeContinuous]⟩
  | cons r rest ih =>
    unfold takeContinuous
    split_ifs with hfull hold hnext
    · exact ⟨[], by simp⟩
    · -- an id already taken is skipped
      obtain ⟨w, h, hids, hmem, hlen⟩ := ih retTxs minReceiptId
      exact ⟨w, h, hids, fun x hx => List.mem_cons_of_mem r (hmem x hx), hlen⟩
    · -- the next id is taken
      obtain ⟨w, h, hids, hmem, hlen⟩ := ih (retTxs ++ [r]) (minReceiptId + 1)
      refine ⟨r :: w, by simp [h], ?_, ?_, ?_⟩
      · rw [List.map_cons, hids, hnext, List.length_cons, List.range'_succ]
      · intro x hx
        rcases List.mem_cons.mp hx with rfl | hx
        · exact List.mem_cons_self ..
        · exact List.mem_cons_of_mem r (hmem x hx)
      · simp only [List.length_append, List.length_cons] at hlen ⊢
        omega
    · exact ⟨[], by simp⟩

/-- The outer selecting loop, over candidates grouped by peer in key order,
appends for each peer the ids right after the peer's largest taken one, each
receipt once, and stops at `limit`.  By induction on the peers. -/
theorem selectContinuous_spec (limit : ℕ) (maxId : ℕ → ℕ) {isRecv : Bool}
    {entries : List (ℕ × List Receipt)} (hsorted : entries.Pairwise fun a b => a.1 < b.1)
    (hfiles : ∀ e ∈ entries, ∀ r ∈ e.2, r.isRecv = isRecv ∧ r.peer = e.1)
    (retTxs : List Receipt) :
    ∃ w, selectContinuous limit maxId retTxs entries = retTxs ++ w ∧
      (∀ r ∈ w, r.isRecv = isRecv ∧ r.peer ∈ entries.map (·.1)) ∧
      Continues maxId w ∧ w.Nodup ∧ (retTxs ++ w).length ≤ max retTxs.length limit := by
  induction entries generalizing retTxs with
  | nil => exact ⟨[], by simp [selectContinuous], by simp, fun peer => ⟨0, by simp⟩, by simp⟩
  | cons e rest ih =>
    obtain ⟨peer₁, txs₁⟩ := e
    obtain ⟨hhead, hrest⟩ := List.pairwise_cons.mp hsorted
    obtain ⟨w₁, h₁, hids, hmem, hlen⟩ := takeContinuous_spec limit retTxs txs₁ (maxId peer₁)
    have hw₁ : ∀ r ∈ w₁, r.isRecv = isRecv ∧ r.peer = peer₁ :=
      fun r hr => hfiles _ (List.mem_cons_self ..) r (hmem r hr)
    have hnodup₁ := nodup_of_map_receiptId hids
    -- the receipts of `w₁` are those of `peer₁`, and all of them
    have hfilter₁ : ∀ peer, w₁.filter (·.peer = peer) = if peer = peer₁ then w₁ else [] := by
      intro peer
      split_ifs with hp
      · rw [List.filter_eq_self]
        intro r hr
        simp [(hw₁ r hr).2, hp]
      · rw [List.filter_eq_nil_iff]
        intro r hr
        simpa [(hw₁ r hr).2] using Ne.symm hp
    unfold selectContinuous
    rw [h₁]
    dsimp only
    split_ifs with hstop
    · -- the limit is reached after `peer₁`
      refine ⟨w₁, rfl, fun r hr => ⟨(hw₁ r hr).1, by simp [(hw₁ r hr).2]⟩, ?_, hnodup₁, hlen⟩
      intro peer
      rw [hfilter₁]
      split_ifs with hp
      · exact ⟨w₁.length, hp ▸ hids⟩
      · exact ⟨0, rfl⟩
    · obtain ⟨w', h', hw', hcont', hnodup', hlen'⟩ :=
        ih hrest (fun e he => hfiles e (List.mem_cons_of_mem _ he)) (retTxs ++ w₁)
      -- the later peers are above `peer₁`
      have hne : ∀ r ∈ w', r.peer ≠ peer₁ := by
        intro r hr hpr
        obtain ⟨e, he, hpe⟩ := List.mem_map.mp (hw' r hr).2
        have := hhead e he
        omega
      refine ⟨w₁ ++ w', by rw [h', List.append_assoc], ?_, ?_, ?_, ?_⟩
      · intro r hr
        rcases List.mem_append.mp hr with hr | hr
        · exact ⟨(hw₁ r hr).1, by simp [(hw₁ r hr).2]⟩
        · exact ⟨(hw' r hr).1, List.mem_cons_of_mem _ (hw' r hr).2⟩
      · intro peer
        rw [List.filter_append, hfilter₁]
        split_ifs with hp
        · have hnil : w'.filter (·.peer = peer) = [] := by
            rw [List.filter_eq_nil_iff]
            intro r hr
            simpa [hp] using hne r hr
          rw [hnil, List.append_nil]
          exact ⟨w₁.length, hp ▸ hids⟩
        · rw [List.nil_append]
          exact hcont' peer
      · refine List.nodup_append.mpr ⟨hnodup₁, hnodup', ?_⟩
        intro a ha b hb hab
        rw [hab] at ha
        exact hne b hb (hw₁ b ha).2
      · rw [← List.append_assoc]
        have := hlen'
        simp only [List.length_append] at this hlen ⊢
        omega

/-! ### Collecting candidates -/

/-- Candidates as the first loop keeps them: for each kind, grouped by peer in key
order, each group holding receipts of that kind and peer. -/
def Candidates.Ok (c : Candidates) : Prop :=
  ∀ isRecv, (c.get isRecv).Pairwise (fun a b => a.1 < b.1) ∧
    ∀ e ∈ c.get isRecv, ∀ r ∈ e.2, r.isRecv = isRecv ∧ r.peer = e.1

theorem candidates_ok_empty : Candidates.Ok ⟨[], [], 0⟩ := by
  intro isRecv
  cases isRecv <;> simp [Candidates.get]

variable {q : ReceiptQueue}

/-- Replacing the candidates of a peer by receipts of its table keeps them `Ok`. -/
theorem candidates_ok_upsert (hq : q.Inv) {c : Candidates} (hc : c.Ok) {r : Receipt}
    {p : PeerTable} (hp : (q.tables r.isRecv).lookup r.peer = some p) (upper maxNum count : ℕ) :
    Candidates.Ok (if r.isRecv then
      ⟨upsert (fun _ => p.getTxs upper maxNum) (c.get r.isRecv) r.peer, c.confirm, count⟩
      else ⟨c.recv, upsert (fun _ => p.getTxs upper maxNum) (c.get r.isRecv) r.peer, count⟩) := by
  have hfiles := hq.files _ _ p hp
  -- the new group holds receipts of `r`'s kind and peer
  have hnew : ∀ e ∈ upsert (fun _ => p.getTxs upper maxNum) (c.get r.isRecv) r.peer,
      ∀ x ∈ e.2, x.isRecv = r.isRecv ∧ x.peer = e.1 := by
    intro e he x hx
    rcases mem_upsert_const he with he | rfl
    · exact (hc r.isRecv).2 e he x hx
    · obtain ⟨e', he', rfl⟩ := PeerTable.mem_getTxs hx
      exact ⟨(hfiles e' he').1, (hfiles e' he').2.1⟩
  have hsorted := pairwise_upsert (fun _ => p.getTxs upper maxNum) r.peer (hc r.isRecv).1
  intro b
  cases hb : r.isRecv <;> cases b <;> simp only [Candidates.get, hb, if_true, if_false,
    Bool.false_eq_true] at hnew hsorted ⊢ <;>
    first
    | exact ⟨hsorted, hnew⟩
    | exact hc false
    | exact hc true

/-- One turn of the first loop, on a receipt of the queue, finds its table and
keeps the candidates `Ok`. -/
theorem collectOne_spec (hq : q.Inv) (maxNum : ℕ) {c : Candidates} (hc : c.Ok) {r : Receipt}
    (hr : r ∈ q.queue) : ∃ c', q.collectOne maxNum c r = some c' ∧ c'.Ok := by
  obtain ⟨p, hp⟩ := Option.isSome_iff_exists.mp (hq.queue r hr)
  unfold collectOne
  dsimp only
  split
  · exact ⟨c, rfl, hc⟩
  · next oldTxNum _ =>
    rw [hp]
    dsimp only
    by_cases hlen : (p.getTxs r.receiptId (maxNum - c.txsCount)).length ≤ oldTxNum
    · rw [if_pos hlen]
      exact ⟨c, rfl, hc⟩
    · rw [if_neg hlen]
      exact ⟨_, rfl, candidates_ok_upsert hq hc hp _ _ _⟩

/-- The first loop, over receipts of the queue, finds every table it looks for and
keeps the candidates `Ok`. -/
theorem collect_spec (hq : q.Inv) (maxNum : ℕ) (rs : List Receipt) (hrs : ∀ r ∈ rs, r ∈ q.queue)
    {c : Candidates} (hc : c.Ok) : ∃ c', q.collect maxNum c rs = some c' ∧ c'.Ok := by
  induction rs generalizing c with
  | nil => exact ⟨c, rfl, hc⟩
  | cons r rest ih =>
    unfold collect
    split_ifs
    · obtain ⟨c₁, h₁, hc₁⟩ := collectOne_spec hq maxNum hc (hrs r (List.mem_cons_self ..))
      rw [h₁, Option.bind_some]
      exact ih (fun x hx => hrs x (List.mem_cons_of_mem r hx)) hc₁
    · exact ⟨c, rfl, hc⟩

/-! ### Selecting -/

/-- `get_txs` selects, confirm receipts first, from what its first loop collects. -/
theorem getTxs_of_collect {confirmAndRecvTxsMaxNum confirmTxsMaxNum : UInt32} {c : Candidates}
    (h : q.collect (confirmAndRecvTxsMaxNum * 2).toNat ⟨[], [], 0⟩ q.queue = some c)
    {receiptidState : IdState} :
    q.getTxs confirmAndRecvTxsMaxNum confirmTxsMaxNum receiptidState =
      some (selectContinuous confirmAndRecvTxsMaxNum.toNat receiptidState.recvidMax
          (selectContinuous confirmTxsMaxNum.toNat receiptidState.confirmidMax [] c.confirm) c.recv,
        (selectContinuous confirmTxsMaxNum.toNat receiptidState.confirmidMax [] c.confirm).length) := by
  unfold getTxs
  dsimp only
  rw [h]
  rfl

section Kinds

variable {wc wr : List Receipt} (hc : ∀ r ∈ wc, r.isRecv = false) (hr : ∀ r ∈ wr, r.isRecv = true)
include hc hr

/-- Of confirm receipts followed by receive receipts, a filter on one kind and a peer
keeps that kind's side. -/
theorem filter_kind_append (b : Bool) (peer : ℕ) :
    ((wc ++ wr).filter fun r => r.isRecv = b ∧ r.peer = peer) =
      if b then wr.filter (·.peer = peer) else wc.filter (·.peer = peer) := by
  rw [List.filter_append]
  cases b with
  | false =>
    have hnil : (wr.filter fun r => r.isRecv = false ∧ r.peer = peer) = [] := by
      rw [List.filter_eq_nil_iff]
      intro r hmem
      simp [hr r hmem]
    rw [hnil, List.append_nil, if_neg Bool.false_ne_true]
    apply List.filter_congr
    intro r hmem
    simp [hc r hmem]
  | true =>
    have hnil : (wc.filter fun r => r.isRecv = true ∧ r.peer = peer) = [] := by
      rw [List.filter_eq_nil_iff]
      intro r hmem
      simp [hc r hmem]
    rw [hnil, List.nil_append, if_pos rfl]
    apply List.filter_congr
    intro r hmem
    simp [hr r hmem]

/-- Confirm receipts, each once, followed by receive receipts, each once, are listed
once each. -/
theorem nodup_kind_append (hnc : wc.Nodup) (hnr : wr.Nodup) : (wc ++ wr).Nodup := by
  refine List.nodup_append.mpr ⟨hnc, hnr, ?_⟩
  intro a ha b hb hab
  rw [hab] at ha
  have hfalse := hc b ha
  rw [hr b hb] at hfalse
  exact Bool.false_ne_true hfalse.symm

end Kinds

/-- In every state the calls reach, for any receipt-id state and limits with
`confirm_txs_max_num ≤ confirm_and_recv_txs_max_num`, `get_txs` returns at most
`confirm_and_recv_txs_max_num` receipts: first its `confirm_txs_num` confirm
receipts, at most `confirm_txs_max_num`, then receive receipts.  For every peer
table, the confirm receipts from it have the ids right after the peer's largest
confirmed one, and the receive receipts the ids right after its largest received
one; no receipt is proposed twice. -/
theorem getTxs_gap_free (ops : List ReceiptQueue.Op)
    (confirmAndRecvTxsMaxNum confirmTxsMaxNum : UInt32)
    (hle : confirmTxsMaxNum ≤ confirmAndRecvTxsMaxNum) (receiptidState : IdState) :
    ∃ retTxs confirmTxsNum,
      (ReceiptQueue.empty.run ops).getTxs confirmAndRecvTxsMaxNum confirmTxsMaxNum
          receiptidState = some (retTxs, confirmTxsNum) ∧
      retTxs.length ≤ confirmAndRecvTxsMaxNum.toNat ∧
      confirmTxsNum ≤ confirmTxsMaxNum.toNat ∧ confirmTxsNum ≤ retTxs.length ∧
      (∀ r ∈ retTxs.take confirmTxsNum, r.isRecv = false) ∧
      (∀ r ∈ retTxs.drop confirmTxsNum, r.isRecv = true) ∧
      (∀ peer, ∃ m, ((retTxs.filter fun r => r.isRecv = false ∧ r.peer = peer).map
        (·.receiptId)) = List.range' (receiptidState.confirmidMax peer + 1) m) ∧
      (∀ peer, ∃ m, ((retTxs.filter fun r => r.isRecv = true ∧ r.peer = peer).map
        (·.receiptId)) = List.range' (receiptidState.recvidMax peer + 1) m) ∧
      retTxs.Nodup := by
  set q := ReceiptQueue.empty.run ops
  have hq : q.Inv := ReceiptQueue.inv_run ops
  obtain ⟨c, hcollect, hc⟩ :=
    q.collect_spec hq (confirmAndRecvTxsMaxNum * 2).toNat q.queue (fun r hr => hr)
      candidates_ok_empty
  obtain ⟨wc, hwc, hkc, hcc, hnc, hlc⟩ :=
    selectContinuous_spec confirmTxsMaxNum.toNat receiptidState.confirmidMax (hc false).1
      (hc false).2 []
  obtain ⟨wr, hwr, hkr, hcr, hnr, hlr⟩ :=
    selectContinuous_spec confirmAndRecvTxsMaxNum.toNat receiptidState.recvidMax (hc true).1
      (hc true).2 wc
  simp only [Candidates.get, Bool.false_eq_true, if_false, if_true, List.nil_append] at hwc hwr
  have hget : q.getTxs confirmAndRecvTxsMaxNum confirmTxsMaxNum receiptidState =
      some (wc ++ wr, wc.length) := by
    rw [getTxs_of_collect hcollect, hwc, hwr]
  have hle' : confirmTxsMaxNum.toNat ≤ confirmAndRecvTxsMaxNum.toNat := UInt32.le_iff_toNat_le.mp hle
  -- the first selection takes confirm receipts only, the second receive receipts only
  have hconfirm : ∀ r ∈ wc, r.isRecv = false := fun r hr => (hkc r hr).1
  have hrecv : ∀ r ∈ wr, r.isRecv = true := fun r hr => (hkr r hr).1
  refine ⟨wc ++ wr, wc.length, hget, ?_, ?_, ?_, ?_, ?_, ?_, ?_, ?_⟩
  · simp only [List.length_append, List.nil_append, List.length_nil] at hlc hlr ⊢
    omega
  · simpa using hlc
  · simp
  · intro r hr
    rw [List.take_left] at hr
    exact hconfirm r hr
  · intro r hr
    rw [List.drop_left] at hr
    exact hrecv r hr
  · intro peer
    rw [filter_kind_append hconfirm hrecv false peer, if_neg Bool.false_ne_true]
    exact hcc peer
  · intro peer
    rw [filter_kind_append hconfirm hrecv true peer, if_pos rfl]
    exact hcr peer
  · exact nodup_kind_append hconfirm hrecv hnc hnr

/-- A state after two receive receipts of peer table 1, with ids 1 and 2, proposing
at most two receipts, one of them a confirm receipt. -/
theorem getTxs_gap_free_two_recv :
    (1 : UInt32) ≤ 2 ∧
    ∃ retTxs confirmTxsNum,
      (ReceiptQueue.empty.run [.pushTx ⟨true, 1, 1, 11, 0, 0, 0⟩,
          .pushTx ⟨true, 1, 2, 12, 0, 0, 0⟩]).getTxs 2 1 ⟨fun _ => 0, fun _ => 0⟩ =
        some (retTxs, confirmTxsNum) ∧
      retTxs.length ≤ (2 : UInt32).toNat ∧
      confirmTxsNum ≤ (1 : UInt32).toNat ∧ confirmTxsNum ≤ retTxs.length ∧
      (∀ r ∈ retTxs.take confirmTxsNum, r.isRecv = false) ∧
      (∀ r ∈ retTxs.drop confirmTxsNum, r.isRecv = true) ∧
      (∀ peer, ∃ m, ((retTxs.filter fun r => r.isRecv = false ∧ r.peer = peer).map
        (·.receiptId)) = List.range' ((fun _ => 0 : ℕ → ℕ) peer + 1) m) ∧
      (∀ peer, ∃ m, ((retTxs.filter fun r => r.isRecv = true ∧ r.peer = peer).map
        (·.receiptId)) = List.range' ((fun _ => 0 : ℕ → ℕ) peer + 1) m) ∧
      retTxs.Nodup :=
  ⟨by decide, getTxs_gap_free _ 2 1 (by decide) ⟨fun _ => 0, fun _ => 0⟩⟩

end ReceiptQueue

end Receipts

end TopChain

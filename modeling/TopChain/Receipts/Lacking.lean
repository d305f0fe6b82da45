import TopChain.Receipts.Model
import Mathlib.Data.Finset.Card

/-!
# The receipt ids a table lacks

A table of receipts is meant to report, through `get_lacking_ids`, every id above
its largest taken one and up to the peer's largest pullable one that it does not
hold.  Apart from its first test, the function computes exactly the ids up to the
larger of `max_pull_id` and its largest id that it does not hold, in increasing
order (`getLackingIds_of_ne`).  The first test returns nothing when the table
holds as many receipts as there are ids up to `max_pull_id`; that means no gap only
if every id it holds is at most `max_pull_id` (`getLackingIds_of_le`).  A receipt
whose id is above `max_pull_id` breaks it: a table holding ids 1 and 5 reports
nothing up to 2, though it lacks 2 (`getLackingIds_above_maxPull`).

## Main definitions

* `PeerTable.Valid` — every id a table holds is above its largest taken one.
* `PeerTable.lackingUpTo` — the ids a table lacks, up to a bound.

## Main results

* `PeerTable.Valid.pushTx`, `PeerTable.Valid.updateLatestReceiptId`,
  `PeerTable.Valid.erase` — the table's calls keep `Valid`.
* `PeerTable.getLackingIds_of_ne` — past the first test, the lacking ids up to the
  larger bound.
* `PeerTable.getLackingIds_sound` — the ids come in increasing order, and none of
  them is held.
* `PeerTable.getLackingIds_of_le` — with no id above `max_pull_id`, exactly the
  lacking ids.
-/

namespace TopChain

namespace Receipts

namespace PeerTable

/-- The receipt ids a table holds. -/
def keys (p : PeerTable) : List ℕ := p.txs.map (·.1)

/-- A table as its calls keep it: every id it holds is above its largest taken
one. -/
def Valid (p : PeerTable) : Prop := ∀ e ∈ p.txs, p.latestReceiptId < e.1

/-- The ids above the largest taken one and up to `n` that a table does not hold,
in increasing order. -/
def lackingUpTo (p : PeerTable) (n : ℕ) : List ℕ :=
  (List.range' (p.latestReceiptId + 1) (n - p.latestReceiptId)).filter (· ∉ p.keys)

/-! ### The calls keep `Valid` -/

theorem valid_empty : empty.Valid := by
  intro e he
  simp [empty] at he

theorem Valid.pushTx {p : PeerTable} (hp : p.Valid) (queue : List Receipt) (r : Receipt) :
    (p.pushTx queue r).1.Valid := by
  unfold PeerTable.pushTx
  split_ifs with hdup hrep
  · exact hp
  · exact hp
  · -- the new id is above the largest taken
    intro e he
    rcases mem_upsert_const he with he | rfl
    · exact hp e he
    · exact Nat.lt_of_not_le hdup

/-- In key order, what stays after the ids up to `n` are dropped is above `n`. -/
theorem lt_of_mem_dropWhile {l : List (ℕ × Receipt)} (hl : l.Pairwise fun a b => a.1 < b.1)
    {n : ℕ} {e : ℕ × Receipt} (he : e ∈ l.dropWhile fun e => e.1 ≤ n) : n < e.1 := by
  induction l with
  | nil => simp at he
  | cons x rest ih =>
    obtain ⟨hx, hrest⟩ := List.pairwise_cons.mp hl
    by_cases hxn : x.1 ≤ n
    · rw [List.dropWhile_cons_of_pos (by simpa using hxn)] at he
      exact ih hrest he
    · rw [List.dropWhile_cons_of_neg (by simpa using hxn)] at he
      -- the first id kept is above `n`, and the others above it
      rcases List.mem_cons.mp he with rfl | he
      · exact Nat.lt_of_not_le hxn
      · exact Nat.lt_trans (Nat.lt_of_not_le hxn) (hx e he)

theorem Valid.updateLatestReceiptId {p : PeerTable} (hp : p.Valid) (queue : List Receipt)
    (latestReceiptId : ℕ) : (p.updateLatestReceiptId queue latestReceiptId).1.Valid := by
  unfold PeerTable.updateLatestReceiptId
  split_ifs
  · exact hp
  · intro e he
    exact lt_of_mem_dropWhile p.sorted he

theorem Valid.erase {p : PeerTable} (hp : p.Valid) (queue : List Receipt) (receiptId : ℕ) :
    (p.erase queue receiptId).1.Valid := by
  unfold PeerTable.erase
  split
  · intro e he
    exact hp e (mem_of_mem_eraseKey he)
  · exact hp

/-! ### What `get_lacking_ids` computes -/

/-- The last id of a list of receipts, or `last` for none. -/
def lastKey (last : ℕ) (l : List (ℕ × Receipt)) : ℕ := ((l.getLast?).map (·.1)).getD last

theorem lastKey_cons (last : ℕ) (e : ℕ × Receipt) (rest : List (ℕ × Receipt)) :
    lastKey last (e :: rest) = lastKey e.1 rest := by
  unfold lastKey
  cases h : rest.getLast? with
  | none =>
    rw [List.getLast?_eq_none_iff] at h
    simp [h]
  | some x => simp [List.getLast?_cons, h]

theorem lastReceiptId_eq (p : PeerTable) :
    p.lastReceiptId = lastKey p.latestReceiptId p.txs := by
  unfold lastReceiptId lastKey
  split <;> simp_all

theorem le_lastKey_self {last : ℕ} {l : List (ℕ × Receipt)} (hlast : ∀ e ∈ l, last < e.1) :
    last ≤ lastKey last l := by
  unfold lastKey
  cases h : l.getLast? with
  | none => simp
  | some x =>
    have := hlast x (List.mem_of_getLast? h)
    simp only [Option.map_some, Option.getD_some]
    omega

/-- The gap-filling loop followed by the tail loop lists, in increasing order, the
ids above `last` that the receipts do not hold, up to the larger of `n` and their
last id.  By induction on the receipts, each contributing the gap before it. -/
theorem lackingBetween_append_range' {last : ℕ} {l : List (ℕ × Receipt)}
    (hl : l.Pairwise fun a b => a.1 < b.1) (hlast : ∀ e ∈ l, last < e.1) (n : ℕ) :
    lackingBetween last l ++ List.range' (lastKey last l + 1) (n - lastKey last l) =
      (List.range' (last + 1) (max (lastKey last l) n - last)).filter
        (· ∉ l.map (·.1)) := by
  induction l generalizing last with
  | nil =>
    simp only [lackingBetween, lastKey, List.getLast?_nil, Option.map_none, Option.getD_none,
      List.nil_append, List.map_nil, List.not_mem_nil, not_false_eq_true, decide_true,
      List.filter_true]
    congr 1
    omega
  | cons x rest ih =>
    obtain ⟨k, r⟩ := x
    obtain ⟨hx, hrest⟩ := List.pairwise_cons.mp hl
    have hk : last < k := hlast (k, r) (List.mem_cons_self ..)
    have hkrest : ∀ e ∈ rest, k < e.1 := fun e he => hx e he
    have hL := le_lastKey_self hkrest
    rw [lastKey_cons] at *
    set L := lastKey k rest
    -- the gap before `k`, then `k` itself, then what comes after it
    have hsplit : List.range' (last + 1) (max L n - last) =
        List.range' (last + 1) (k - (last + 1)) ++ k :: List.range' (k + 1) (max L n - k) := by
      have h1 := @List.range'_append_1 (last + 1) (k - (last + 1)) (max L n - k + 1)
      have h2 : List.range' k (max L n - k + 1) = k :: List.range' (k + 1) (max L n - k) :=
        List.range'_succ
      rw [show last + 1 + (k - (last + 1)) = k by omega, h2,
        show k - (last + 1) + (max L n - k + 1) = max L n - last by omega] at h1
      exact h1.symm
    -- below `k` no id is held: the gap is listed whole
    have hgap : (List.range' (last + 1) (k - (last + 1))).filter
        (· ∉ (k, r).1 :: rest.map (·.1)) = List.range' (last + 1) (k - (last + 1)) := by
      rw [List.filter_eq_self]
      intro x hx'
      rw [List.mem_range'_1] at hx'
      simp only [List.mem_cons, List.mem_map, not_or, decide_eq_true_eq]
      refine ⟨by omega, ?_⟩
      rintro ⟨e, he, rfl⟩
      have := hkrest e he
      omega
    -- above `k`, holding `k` makes no difference
    have htail : ∀ x ∈ List.range' (k + 1) (max L n - k),
        decide (x ∉ (k, r).1 :: rest.map (·.1)) = decide (x ∉ rest.map (·.1)) := by
      intro x hx'
      rw [List.mem_range'_1] at hx'
      have hxk : x ≠ k := by omega
      simp [hxk]
    rw [lackingBetween, List.append_assoc, ih hrest hkrest, List.map_cons, hsplit,
      List.filter_append, List.filter_cons_of_neg (by simp), hgap, List.filter_congr htail]
    congr 1
    split_ifs with hne
    · rfl
    · rw [show k - (last + 1) = 0 by omega]
      rfl

/-- Past its first test, `get_lacking_ids` lists the ids above the largest taken
one, up to the larger of `max_pull_id` and the largest id held, that the table does
not hold. -/
theorem getLackingIds_of_ne {p : PeerTable} (hp : p.Valid) {maxPullId : ℕ}
    (h : p.txs.length ≠ maxPullId - p.latestReceiptId) :
    p.getLackingIds maxPullId = p.lackingUpTo (max p.lastReceiptId maxPullId) := by
  unfold getLackingIds lackingUpTo keys
  rw [if_neg h, lastReceiptId_eq, lackingBetween_append_range' p.sorted hp]

/-- The ids `get_lacking_ids` lists come in increasing order. -/
theorem getLackingIds_sorted {p : PeerTable} (hp : p.Valid) (maxPullId : ℕ) :
    (p.getLackingIds maxPullId).Pairwise (· < ·) := by
  by_cases h : p.txs.length = maxPullId - p.latestReceiptId
  · unfold getLackingIds
    rw [if_pos h]
    exact List.Pairwise.nil
  · rw [getLackingIds_of_ne hp h]
    exact (List.pairwise_lt_range' 1).filter _

/-- `get_lacking_ids` lists no id the table holds. -/
theorem not_mem_keys_of_mem_getLackingIds {p : PeerTable} (hp : p.Valid) {maxPullId x : ℕ}
    (hx : x ∈ p.getLackingIds maxPullId) : x ∉ p.keys := by
  by_cases h : p.txs.length = maxPullId - p.latestReceiptId
  · unfold getLackingIds at hx
    rw [if_pos h] at hx
    simp at hx
  · rw [getLackingIds_of_ne hp h] at hx
    simpa using (List.mem_filter.mp hx).2

/-- Whatever `max_pull_id`, `get_lacking_ids` lists, in increasing order, ids the table
does not hold. -/
theorem getLackingIds_sound {p : PeerTable} (hp : p.Valid) (maxPullId : ℕ) :
    (p.getLackingIds maxPullId).Pairwise (· < ·) ∧ ∀ x ∈ p.getLackingIds maxPullId, x ∉ p.keys :=
  ⟨getLackingIds_sorted hp maxPullId, fun _ hx => not_mem_keys_of_mem_getLackingIds hp hx⟩

/-- A table holding as many ids as there are up to `n`, none of them above `n`,
holds them all. -/
theorem lackingUpTo_eq_nil {p : PeerTable} (hp : p.Valid) {n : ℕ} (hle : ∀ e ∈ p.txs, e.1 ≤ n)
    (hlen : p.txs.length = n - p.latestReceiptId) : p.lackingUpTo n = [] := by
  have hnodup : p.keys.Nodup := by
    have h : (p.txs.map (·.1)).Pairwise (· < ·) := List.pairwise_map.mpr p.sorted
    exact h.nodup
  -- the ids held lie among those up to `n`, and are as many
  have hsub : p.keys.toFinset ⊆ (List.range' (p.latestReceiptId + 1) (n - p.latestReceiptId)).toFinset := by
    intro x hx
    simp only [keys, List.mem_toFinset, List.mem_map] at hx
    obtain ⟨e, he, rfl⟩ := hx
    have h1 := hp e he
    have h2 := hle e he
    simp only [List.mem_toFinset, List.mem_range'_1]
    omega
  have hcard : (List.range' (p.latestReceiptId + 1) (n - p.latestReceiptId)).toFinset.card ≤
      p.keys.toFinset.card := by
    rw [List.toFinset_card_of_nodup (List.nodup_range' 1), List.toFinset_card_of_nodup hnodup,
      List.length_range', keys, List.length_map, hlen]
  have heq := Finset.eq_of_subset_of_card_le hsub hcard
  unfold lackingUpTo
  rw [List.filter_eq_nil_iff]
  intro x hx
  have : x ∈ p.keys.toFinset := by
    rw [heq]
    exact List.mem_toFinset.mpr hx
  simpa using List.mem_toFinset.mp this

/-- With no id above `max_pull_id`, `get_lacking_ids` lists exactly the ids the
table lacks up to it, in increasing order. -/
theorem getLackingIds_of_le {p : PeerTable} (hp : p.Valid) {maxPullId : ℕ}
    (hle : ∀ e ∈ p.txs, e.1 ≤ maxPullId) :
    p.getLackingIds maxPullId = p.lackingUpTo maxPullId := by
  by_cases h : p.txs.length = maxPullId - p.latestReceiptId
  · unfold getLackingIds
    rw [if_pos h, lackingUpTo_eq_nil hp hle h]
  · rw [getLackingIds_of_ne hp h]
    congr 1
    -- the largest id held is at most `max_pull_id`
    have hlast : p.lastReceiptId ≤ maxPullId := by
      rw [lastReceiptId_eq]
      unfold lastKey
      cases hl : p.txs.getLast? with
      | none =>
        have : p.txs = [] := List.getLast?_eq_none_iff.mp hl
        simp only [Option.map_none, Option.getD_none]
        rw [this] at h
        simp only [List.length_nil] at h
        omega
      | some e => exact hle e (List.mem_of_getLast? hl)
    omega

/-- A receive receipt of a peer table. -/
def sampleReceipt (receiptId : ℕ) : Receipt := ⟨true, 0, receiptId, receiptId, 0, 0, 0⟩

/-- The table that received receipts 1 and 5. -/
def oneAndFive : PeerTable :=
  ((empty.pushTx [] (sampleReceipt 1)).1.pushTx [] (sampleReceipt 5)).1

/-- A table that received receipts 1 and 5 reports nothing up to 2, though it lacks
receipt 2: it holds two receipts and there are two ids up to 2. -/
theorem getLackingIds_above_maxPull :
    oneAndFive.getLackingIds 2 = [] ∧ 2 ∈ oneAndFive.lackingUpTo 2 := by
  decide

/-- Up to `6`, above both its ids, the table reports exactly the ids it lacks. -/
theorem getLackingIds_of_le_oneAndFive :
    oneAndFive.getLackingIds 6 = [2, 3, 4, 6] ∧ oneAndFive.getLackingIds 6 = oneAndFive.lackingUpTo 6 :=
  ⟨by decide, getLackingIds_of_le (by unfold PeerTable.Valid; decide) (by decide)⟩

/-- Up to `3`, below its id `5`, the table reports the ids it lacks up to `5`. -/
theorem getLackingIds_sound_oneAndFive :
    oneAndFive.getLackingIds 3 = [2, 3, 4] ∧
      ((oneAndFive.getLackingIds 3).Pairwise (· < ·) ∧ ∀ x ∈ oneAndFive.getLackingIds 3, x ∉ oneAndFive.keys) :=
  ⟨by decide, getLackingIds_sound (by unfold PeerTable.Valid; decide) 3⟩

end PeerTable

end Receipts

end TopChain

import TopChain.Receipts.ProcessedHeight
import TopChain.ReceiptId
import TopChain.Lib.SortedMap
import TopChain.Lib.KeyInterval
import Mathlib.Data.List.Nodup

/-!
# The heights of the receipt ids not yet confirmed

A table's transaction pool remembers, for every peer table, which table block carried
each receipt id it sent or received that the peer has not confirmed yet, so that it can
rebuild the receipt from that block (`build_recv_tx`, `build_confirm_tx`).  An
`xunconfirm_id_height_list_t` keeps the largest confirmed id, `0xFFFFFFFFFFFFFFFF` while
it has none, and a `std::map` from each receipt id above it to the height of the table
block that carried it.  `add_id_height` files an id above the confirmed one, or any id
while there is none; `update_confirm_id` raises the confirmed id, or sets it while there
is none, and erases the ids up to it from the front of the map.

Read as a run of calls, a list answers for a receipt id what the calls say of it: no
height once a confirm id covers it, and otherwise the height of the last call that added
it (`getHeightById_run`), as long as no confirm id is the sentinel itself.
`is_all_loaded` then holds exactly when a confirm id came and every id between it and
the largest one recorded has a height (`isAllLoaded_run_iff`): the pool stops loading
older table blocks once the cache holds every unconfirmed id below the newest.

`xtable_unconfirm_id_height_t` keeps one list per peer table, created by the first call
for that peer; `xunconfirm_id_height` keeps one such table for the ids a table sent and
one for the ids it received, and the record of processed table heights.

## Main definitions

* `UnconfirmIdHeightList` and its calls — `xunconfirm_id_height_list_t`.
* `ListOp`, `unconfirmedHeight` — the calls, and what a run of them says of an id.
* `TableUnconfirmIdHeight`, `UnconfirmIdHeight` — the table of lists and the whole cache.
-/

namespace TopChain

namespace Receipts

open ReceiptId (TxSubtype)

/-- `0xFFFFFFFFFFFFFFFF`: the confirm id of a list that has received none. -/
def noConfirmId : UInt64 := 0xFFFFFFFFFFFFFFFF

/-- `resend_interval_min`. -/
def resendIntervalMin : UInt64 := 60

/-- `enum_min_height_result`, with the height of `enum_min_height_result_ok`. -/
inductive MinHeightResult where
  | ok (minHeight : UInt64)
  | fail
  | noUnconfirmId
  deriving DecidableEq, Repr

/-- `xunconfirm_id_height_list_t`: the largest confirmed receipt id, the height of the
table block of each receipt id above it, and when the largest id was last filed. -/
structure UnconfirmIdHeightList where
  confirmId : UInt64
  idHeightMap : List (UInt64 × UInt64)
  updateTime : UInt64
  deriving DecidableEq, Repr

namespace UnconfirmIdHeightList

/-- A new list. -/
def initial : UnconfirmIdHeightList := ⟨noConfirmId, [], 0⟩

/-- The test both calls make: the id is above the confirmed one, or there is none. -/
def accepts (l : UnconfirmIdHeightList) (id : UInt64) : Bool :=
  decide (id > l.confirmId) || l.confirmId == noConfirmId

/-- `update_confirm_id`: take a larger confirm id, and erase the ids up to it from the
front of the map. -/
def updateConfirmId (l : UnconfirmIdHeightList) (confirmId : UInt64) : UnconfirmIdHeightList :=
  if l.accepts confirmId then
    { l with
      confirmId := confirmId
      idHeightMap := l.idHeightMap.dropWhile fun e => decide (e.1 ≤ confirmId) }
  else l

/-- `add_id_height`: file the height of an id above the confirmed one, and the time if
the id is the largest. -/
def addIdHeight (l : UnconfirmIdHeightList) (receiptId height time : UInt64) :
    UnconfirmIdHeightList :=
  if l.accepts receiptId then
    let m := upsert (fun _ => height) l.idHeightMap receiptId
    { l with
      idHeightMap := m
      updateTime := if m.getLast?.map Prod.fst = some receiptId then time else l.updateTime }
  else l

/-- `get_min_height`: the height of the id right after the confirmed one, if it comes
first in the map. -/
def getMinHeight (l : UnconfirmIdHeightList) : MinHeightResult :=
  match l.idHeightMap with
  | [] => .noUnconfirmId
  | e :: _ => if e.1 = l.confirmId + 1 then .ok e.2 else .fail

/-- `get_height_by_id`. -/
def getHeightById (l : UnconfirmIdHeightList) (receiptId : UInt64) : Option UInt64 :=
  l.idHeightMap.lookup receiptId

/-- `is_all_loaded`: a confirm id came, and the map holds as many ids as there are from it
to the largest one. -/
def isAllLoaded (l : UnconfirmIdHeightList) : Bool :=
  if l.confirmId = noConfirmId then false
  else
    match l.idHeightMap.getLast? with
    | none => true
    | some e => l.idHeightMap.length.toUInt64 == e.1 - l.confirmId

/-- `get_resend_id_height`: the largest id and its height, once `resend_interval_min`
passed since it was filed. -/
def getResendIdHeight (l : UnconfirmIdHeightList) (curTime : UInt64) :
    Option (UInt64 × UInt64) :=
  if l.updateTime = 0 ∨ curTime < l.updateTime + resendIntervalMin then none
  else l.idHeightMap.getLast?

end UnconfirmIdHeightList

/-- The calls that change a list. -/
inductive ListOp where
  | addIdHeight (receiptId height time : UInt64)
  | updateConfirmId (confirmId : UInt64)
  deriving DecidableEq, Repr

namespace ListOp

/-- Whether a call confirms a receipt id. -/
def confirms (r : UInt64) : ListOp → Bool
  | .updateConfirmId c => decide (r ≤ c)
  | .addIdHeight .. => false

/-- The height a call gives a receipt id, if it adds it. -/
def heightOf (r : UInt64) : ListOp → Option UInt64
  | .addIdHeight r' h _ => if r' = r then some h else none
  | .updateConfirmId _ => none

end ListOp

/-- What a run of calls says of a receipt id: nothing once a confirm id covers it, and
otherwise the height the last call adding it gave. -/
def unconfirmedHeight (ops : List ListOp) (r : UInt64) : Option UInt64 :=
  if ops.any (ListOp.confirms r) then none else (ops.filterMap (ListOp.heightOf r)).getLast?

namespace UnconfirmIdHeightList

/-- One call. -/
def apply (l : UnconfirmIdHeightList) : ListOp → UnconfirmIdHeightList
  | .addIdHeight r h t => l.addIdHeight r h t
  | .updateConfirmId c => l.updateConfirmId c

/-- A run of calls. -/
def run (l : UnconfirmIdHeightList) (ops : List ListOp) : UnconfirmIdHeightList :=
  ops.foldl apply l

theorem run_append (l : UnconfirmIdHeightList) (ops ops' : List ListOp) :
    l.run (ops ++ ops') = (l.run ops).run ops' :=
  List.foldl_append

theorem run_concat (l : UnconfirmIdHeightList) (ops : List ListOp) (op : ListOp) :
    l.run (ops ++ [op]) = (l.run ops).apply op := by
  rw [run_append]
  rfl

/-- A call adds no entry but the one it files. -/
theorem mem_idHeightMap_apply {l : UnconfirmIdHeightList} {op : ListOp} {e : UInt64 × UInt64}
    (he : e ∈ (l.apply op).idHeightMap) :
    e ∈ l.idHeightMap ∨ ∃ t, op = .addIdHeight e.1 e.2 t := by
  cases op with
  | addIdHeight r h t =>
    by_cases ha : l.accepts r = true
    · simp only [apply, addIdHeight, if_pos ha] at he
      rcases mem_upsert_const he with he | rfl
      · exact .inl he
      · exact .inr ⟨t, rfl⟩
    · simp only [apply, addIdHeight, if_neg ha] at he
      exact .inl he
  | updateConfirmId c =>
    -- erasing from the front keeps only entries that were there
    by_cases ha : l.accepts c = true
    · simp only [apply, updateConfirmId, if_pos ha] at he
      exact .inl ((List.dropWhile_suffix _).subset he)
    · simp only [apply, updateConfirmId, if_neg ha] at he
      exact .inl he

/-- Every entry of a list after a run was there before or was filed by a call of the run. -/
theorem mem_idHeightMap_run {l : UnconfirmIdHeightList} {ops : List ListOp}
    {e : UInt64 × UInt64} (he : e ∈ (l.run ops).idHeightMap) :
    e ∈ l.idHeightMap ∨ ∃ t, ListOp.addIdHeight e.1 e.2 t ∈ ops := by
  induction ops generalizing l with
  | nil => exact .inl he
  | cons op ops ih =>
    rcases ih he with he | ⟨t, ht⟩
    · rcases mem_idHeightMap_apply he with he | ⟨t, rfl⟩
      · exact .inl he
      · exact .inr ⟨t, List.mem_cons_self⟩
    · exact .inr ⟨t, List.mem_cons_of_mem _ ht⟩

/-- A list refuses an id exactly when it has a confirm id and the id is not above it. -/
theorem accepts_eq_false_iff {l : UnconfirmIdHeightList} {id : UInt64} :
    l.accepts id = false ↔ l.confirmId ≠ noConfirmId ∧ id ≤ l.confirmId := by
  simp only [accepts, Bool.or_eq_false_iff, decide_eq_false_iff_not, beq_eq_false_iff_ne,
    gt_iff_lt, UInt64.not_lt]
  exact and_comm

/-- The erase test of `update_confirm_id` passes on every id below one it passes on. -/
theorem decide_le_of_lt (c : UInt64) :
    ∀ a b : UInt64, a < b → decide (b ≤ c) = true → decide (a ≤ c) = true :=
  fun _ _ hab hb => decide_eq_true (UInt64.le_trans (UInt64.le_of_lt hab) (of_decide_eq_true hb))

theorem lt_of_accepts {l : UnconfirmIdHeightList} {id : UInt64} (h : l.accepts id = true)
    (hn : l.confirmId ≠ noConfirmId) : l.confirmId < id :=
  UInt64.not_le.mp fun hle => by
    rw [accepts_eq_false_iff.mpr ⟨hn, hle⟩] at h
    cases h

end UnconfirmIdHeightList

section Abstract

open ListOp

theorem unconfirmedHeight_eq_none_of_any {ops : List ListOp} {r : UInt64}
    (h : ops.any (confirms r) = true) : unconfirmedHeight ops r = none := by
  rw [unconfirmedHeight, if_pos h]

theorem any_confirms_eq_false_of_isSome {ops : List ListOp} {r : UInt64}
    (h : (unconfirmedHeight ops r).isSome) : ops.any (confirms r) = false := by
  cases hc : ops.any (confirms r)
  · rfl
  · rw [unconfirmedHeight_eq_none_of_any hc] at h
    cases h

/-- A confirm id covers the ids up to it and forgets nothing else. -/
theorem unconfirmedHeight_concat_updateConfirmId (ops : List ListOp) (c r : UInt64) :
    unconfirmedHeight (ops ++ [.updateConfirmId c]) r =
      if r ≤ c then none else unconfirmedHeight ops r := by
  by_cases hrc : r ≤ c
  · rw [if_pos hrc]
    exact unconfirmedHeight_eq_none_of_any (by simp [List.any_append, confirms, hrc])
  · have hany : (ops ++ [ListOp.updateConfirmId c]).any (confirms r) = ops.any (confirms r) := by
      simp [List.any_append, confirms, hrc]
    rw [if_neg hrc, unconfirmedHeight, unconfirmedHeight, hany, List.filterMap_append]
    simp [heightOf]

/-- A height filed for an id no call confirmed is its height from then on. -/
theorem unconfirmedHeight_concat_addIdHeight (ops : List ListOp) (r' h t r : UInt64) :
    unconfirmedHeight (ops ++ [.addIdHeight r' h t]) r =
      if r' = r ∧ ops.any (confirms r) = false then some h else unconfirmedHeight ops r := by
  have hany : (ops ++ [ListOp.addIdHeight r' h t]).any (confirms r) = ops.any (confirms r) := by
    simp [List.any_append, confirms]
  by_cases hr : r' = r
  · subst hr
    cases hc : ops.any (confirms r')
    · simp [unconfirmedHeight, hany, hc, List.filterMap_append, heightOf]
    · simp [unconfirmedHeight, hany, hc]
  · simp [unconfirmedHeight, hany, List.filterMap_append, heightOf, hr]

/-- Some call of a run confirms id `0` exactly when the run has a confirm call. -/
theorem any_confirms_zero_iff (ops : List ListOp) :
    ops.any (confirms 0) = true ↔ ∃ c, ListOp.updateConfirmId c ∈ ops := by
  rw [List.any_eq_true]
  constructor
  · rintro ⟨op, hop, hc⟩
    cases op with
    | addIdHeight => cases hc
    | updateConfirmId c => exact ⟨c, hop⟩
  · rintro ⟨c, hc⟩
    exact ⟨_, hc, decide_eq_true (UInt64.zero_le (a := c))⟩

/-- What a run of calls says when a list holds every id it waits for: a confirm call
came, and every id no call confirmed, up to one the run gave a height, has a height. -/
def Loaded (ops : List ListOp) : Prop :=
  (∃ c, ListOp.updateConfirmId c ∈ ops) ∧
    ∀ r r', r ≤ r' → (unconfirmedHeight ops r').isSome → ops.any (confirms r) = false →
      (unconfirmedHeight ops r).isSome

end Abstract

namespace UnconfirmIdHeightList

/-- The invariant of a list built by a run of calls: its confirm id covers exactly the
ids some call confirmed, its map is in key order, and it holds for each id what the run
says of it. -/
structure Tracks (l : UnconfirmIdHeightList) (ops : List ListOp) : Prop where
  confirmed : ∀ r, ops.any (ListOp.confirms r) =
    (l.confirmId != noConfirmId && decide (r ≤ l.confirmId))
  sorted : l.idHeightMap.Pairwise fun a b => a.1 < b.1
  lookup : ∀ r, l.getHeightById r = unconfirmedHeight ops r

theorem tracks_initial : Tracks initial [] where
  confirmed _ := rfl
  sorted := List.Pairwise.nil
  lookup _ := rfl

namespace Tracks

variable {l : UnconfirmIdHeightList} {ops : List ListOp}

/-- A list accepts an id exactly when no call of its run confirmed it. -/
theorem accepts_eq (ht : Tracks l ops) (r : UInt64) :
    l.accepts r = !ops.any (ListOp.confirms r) := by
  rw [ht.confirmed r]
  by_cases hn : l.confirmId = noConfirmId
  · simp [accepts, hn]
  · have hb : (l.confirmId == noConfirmId) = false := beq_eq_false_iff_ne.mpr hn
    have hb' : (l.confirmId != noConfirmId) = true := bne_iff_ne.mpr hn
    simp only [accepts, gt_iff_lt, hb, hb', Bool.or_false, Bool.true_and]
    simp only [← decide_not, UInt64.not_le]

/-- A confirm id is the largest one so far, so it covers each id a call confirmed. -/
theorem updateConfirmId (ht : Tracks l ops) {c : UInt64} (hc : c ≠ noConfirmId) :
    Tracks (l.updateConfirmId c) (ops ++ [.updateConfirmId c]) := by
  have hany : ∀ r, (ops ++ [ListOp.updateConfirmId c]).any (ListOp.confirms r) =
      (ops.any (ListOp.confirms r) || decide (r ≤ c)) := fun r => by
    simp [List.any_append, ListOp.confirms]
  cases ha : l.accepts c
  · -- refused: the confirm id already covers `c`, so the call confirms nothing new
    obtain ⟨hne, hcle⟩ := accepts_eq_false_iff.mp ha
    have hcov : ∀ r, r ≤ c → ops.any (ListOp.confirms r) = true := fun r hr => by
      rw [ht.confirmed r]
      simp [hne, UInt64.le_trans hr hcle]
    rw [UnconfirmIdHeightList.updateConfirmId, if_neg (by simp [ha])]
    refine ⟨fun r => ?_, ht.sorted, fun r => ?_⟩
    · rw [hany, ← ht.confirmed r]
      by_cases hr : r ≤ c
      · simp [hcov r hr]
      · simp [hr]
    · rw [unconfirmedHeight_concat_updateConfirmId, ← ht.lookup r]
      by_cases hr : r ≤ c
      · rw [if_pos hr, ht.lookup r, unconfirmedHeight_eq_none_of_any (hcov r hr)]
      · rw [if_neg hr]
  · -- accepted: `c` becomes the confirm id, and the ids up to it leave the map
    have hlt : l.confirmId ≠ noConfirmId → l.confirmId < c := lt_of_accepts ha
    rw [UnconfirmIdHeightList.updateConfirmId, if_pos ha]
    refine ⟨fun r => ?_, ht.sorted.sublist (List.dropWhile_suffix _).sublist, fun r => ?_⟩
    · rw [hany, ht.confirmed r]
      by_cases hn : l.confirmId = noConfirmId
      · simp [hn, hc]
      · -- the old confirm id is below `c`, so what it covers `c` covers
        have hold : r ≤ l.confirmId → r ≤ c := fun hr => UInt64.le_of_lt (UInt64.lt_of_le_of_lt hr (hlt hn))
        by_cases hr : r ≤ c
        · simp [hc, hr]
        · simp [hr, mt hold hr]
    · show (l.idHeightMap.dropWhile fun e => decide (e.1 ≤ c)).lookup r = _
      rw [lookup_dropWhile (decide_le_of_lt c) ht.sorted r, unconfirmedHeight_concat_updateConfirmId,
        ← ht.lookup r]
      by_cases hr : r ≤ c
      · simp [hr]
      · simp [hr, getHeightById]

/-- A filed height is the id's height unless a call confirmed the id. -/
theorem addIdHeight (ht : Tracks l ops) (r h t : UInt64) :
    Tracks (l.addIdHeight r h t) (ops ++ [.addIdHeight r h t]) := by
  have hany : ∀ k, (ops ++ [ListOp.addIdHeight r h t]).any (ListOp.confirms k) =
      ops.any (ListOp.confirms k) := fun k => by
    simp [List.any_append, ListOp.confirms]
  have hacc := ht.accepts_eq r
  cases ha : l.accepts r
  · -- refused: a call confirmed the id, so the run has no height for it either
    have hcf : ops.any (ListOp.confirms r) = true := by simpa [ha] using hacc
    rw [UnconfirmIdHeightList.addIdHeight, if_neg (by simp [ha])]
    refine ⟨fun k => by rw [hany, ht.confirmed k], ht.sorted, fun k => ?_⟩
    rw [unconfirmedHeight_concat_addIdHeight, ht.lookup k]
    by_cases hk : r = k
    · subst hk
      simp [hcf]
    · simp [hk]
  · have hcf : ops.any (ListOp.confirms r) = false := by simpa [ha] using hacc
    rw [UnconfirmIdHeightList.addIdHeight, if_pos ha]
    refine ⟨fun k => by rw [hany, ht.confirmed k], pairwise_upsert _ _ ht.sorted, fun k => ?_⟩
    rw [unconfirmedHeight_concat_addIdHeight]
    by_cases hk : r = k
    · subst hk
      simp [getHeightById, hcf]
    · rw [if_neg fun h => hk h.1, ← ht.lookup k]
      exact lookup_upsert_of_ne _ (Ne.symm hk) _

theorem apply (ht : Tracks l ops) {op : ListOp} (hop : op ≠ .updateConfirmId noConfirmId) :
    Tracks (l.apply op) (ops ++ [op]) := by
  cases op with
  | addIdHeight r h t => exact ht.addIdHeight r h t
  | updateConfirmId c => exact ht.updateConfirmId fun hc => hop (by rw [hc])

/-- The confirm id is set exactly when a call of the run confirmed something. -/
theorem confirmId_ne_iff (ht : Tracks l ops) :
    l.confirmId ≠ noConfirmId ↔ ∃ c, ListOp.updateConfirmId c ∈ ops := by
  rw [← any_confirms_zero_iff, ht.confirmed 0]
  simp [UInt64.zero_le]

/-- Once set, the confirm id is below exactly the ids no call confirmed. -/
theorem lt_confirmId_iff (ht : Tracks l ops) (hn : l.confirmId ≠ noConfirmId) (r : UInt64) :
    l.confirmId < r ↔ ops.any (ListOp.confirms r) = false := by
  rw [ht.confirmed r]
  simp [hn, UInt64.not_le]

/-- Every id of the map lies above the confirm id, once there is one. -/
theorem above (ht : Tracks l ops) {e : UInt64 × UInt64} (he : e ∈ l.idHeightMap)
    (hn : l.confirmId ≠ noConfirmId) : l.confirmId < e.1 := by
  have hlook : (l.getHeightById e.1).isSome :=
    isSome_lookup_iff_mem_map.mpr (List.mem_map_of_mem he)
  rw [ht.lookup] at hlook
  have hacc := ht.accepts_eq e.1
  rw [any_confirms_eq_false_of_isSome hlook, Bool.not_false] at hacc
  exact lt_of_accepts hacc hn

end Tracks

/-- What every call keeps, whatever its confirm id: the map in key order, with its ids
above the confirm id once there is one. -/
structure WellFormed (l : UnconfirmIdHeightList) : Prop where
  sorted : l.idHeightMap.Pairwise fun a b => a.1 < b.1
  above : ∀ e ∈ l.idHeightMap, l.confirmId ≠ noConfirmId → l.confirmId < e.1

theorem wellFormed_initial : initial.WellFormed :=
  ⟨List.Pairwise.nil, fun _ he => by cases he⟩

theorem Tracks.wellFormed {l : UnconfirmIdHeightList} {ops : List ListOp} (ht : Tracks l ops) :
    l.WellFormed :=
  ⟨ht.sorted, fun _ he hn => ht.above he hn⟩

namespace WellFormed

variable {l : UnconfirmIdHeightList}

theorem updateConfirmId (hw : l.WellFormed) (c : UInt64) : (l.updateConfirmId c).WellFormed := by
  by_cases ha : l.accepts c = true
  · -- the entries left fail the erase test, so they lie above `c`
    rw [UnconfirmIdHeightList.updateConfirmId, if_pos ha]
    refine ⟨hw.sorted.sublist (List.dropWhile_suffix _).sublist, fun e he _ => ?_⟩
    have hp := mem_dropWhile_fst (p := fun k => decide (k ≤ c)) (decide_le_of_lt c) hw.sorted he
    exact UInt64.not_le.mp (of_decide_eq_false hp)
  · rw [UnconfirmIdHeightList.updateConfirmId, if_neg ha]
    exact hw

theorem addIdHeight (hw : l.WellFormed) (r h t : UInt64) : (l.addIdHeight r h t).WellFormed := by
  by_cases ha : l.accepts r = true
  · rw [UnconfirmIdHeightList.addIdHeight, if_pos ha]
    refine ⟨pairwise_upsert _ _ hw.sorted, fun e he hn => ?_⟩
    rcases mem_upsert_const he with he | rfl
    · exact hw.above e he hn
    · exact lt_of_accepts ha hn
  · rw [UnconfirmIdHeightList.addIdHeight, if_neg ha]
    exact hw

end WellFormed

/-- The height of the id right after the confirm id: the first id not yet confirmed. -/
def firstUnconfirmedHeight (l : UnconfirmIdHeightList) : Option UInt64 :=
  l.getHeightById (l.confirmId + 1)

theorem getMinHeight_eq_noUnconfirmId_iff (l : UnconfirmIdHeightList) :
    l.getMinHeight = .noUnconfirmId ↔ l.idHeightMap = [] := by
  obtain ⟨c, _ | ⟨e, m⟩, t⟩ := l
  · simp [getMinHeight]
  · by_cases he : e.1 = c + 1 <;> simp [getMinHeight, he]

/-- In a well-formed list, an id above the first one is not the id right after the
confirm id: that one, if present, comes first. -/
theorem WellFormed.ne_succ_of_lt {c t : UInt64} {e : UInt64 × UInt64} {m : List (UInt64 × UInt64)}
    (hw : WellFormed ⟨c, e :: m, t⟩) {k : UInt64} (hek : e.1 < k) : k ≠ c + 1 := by
  rintro rfl
  have hlt := UInt64.lt_iff_toNat_lt.mp hek
  rw [UInt64.toNat_add, UInt64.toNat_one] at hlt
  by_cases hn : c = noConfirmId
  · -- past the sentinel, `c + 1` wraps to `0`, below every id
    subst hn
    simp [noConfirmId] at hlt
  · have hce : c.toNat < e.1.toNat := UInt64.lt_iff_toNat_lt.mp (hw.above e List.mem_cons_self hn)
    have hmax : c.toNat ≠ 2 ^ 64 - 1 := fun h => hn (UInt64.toNat_inj.mp (by rw [h]; rfl))
    have hc := c.toNat_lt
    omega

/-- In a well-formed list the least height is that of the first id not yet confirmed. -/
theorem WellFormed.getMinHeight_eq_ok_iff {l : UnconfirmIdHeightList} (hw : l.WellFormed)
    (h : UInt64) :
    l.getMinHeight = .ok h ↔ l.firstUnconfirmedHeight = some h := by
  obtain ⟨c, _ | ⟨⟨k, v⟩, m⟩, t⟩ := l
  · simp [getMinHeight, firstUnconfirmedHeight, getHeightById]
  · simp only [getMinHeight, firstUnconfirmedHeight, getHeightById]
    by_cases hk : k = c + 1
    · subst hk
      simp
    · -- neither the first id nor any later one is `c + 1`
      have hrest : m.lookup (c + 1) = none := by
        rw [List.lookup_eq_none_iff]
        intro q hq
        exact bne_iff_ne.mpr (Ne.symm (hw.ne_succ_of_lt ((List.pairwise_cons.mp hw.sorted).1 q hq)))
      simp [hk, List.lookup_cons, beq_false_of_ne (Ne.symm hk), hrest]

/-- In a well-formed list, `get_min_height` fails exactly when the list holds ids but not
the one right after its confirm id. -/
theorem WellFormed.getMinHeight_ne_fail_iff {l : UnconfirmIdHeightList} (hw : l.WellFormed) :
    l.getMinHeight ≠ .fail ↔ (l.idHeightMap ≠ [] → l.firstUnconfirmedHeight.isSome) := by
  cases hg : l.getMinHeight with
  | ok h =>
    have hf := (hw.getMinHeight_eq_ok_iff h).mp hg
    simp [hf]
  | noUnconfirmId =>
    have hnil := (getMinHeight_eq_noUnconfirmId_iff l).mp hg
    simp [hnil]
  | fail =>
    -- a list with no ids answers `noUnconfirmId`, one with the next id answers `ok`
    have hne : l.idHeightMap ≠ [] := fun hnil => by
      rw [(getMinHeight_eq_noUnconfirmId_iff l).mpr hnil] at hg
      cases hg
    have hnone : l.firstUnconfirmedHeight = none := by
      cases hf : l.firstUnconfirmedHeight with
      | none => rfl
      | some h =>
        rw [(hw.getMinHeight_eq_ok_iff h).mpr hf] at hg
        cases hg
    simp [hne, hnone]

theorem fst_le_of_getLast_eq {m : List (UInt64 × UInt64)} (hs : m.Pairwise fun a b => a.1 < b.1)
    {last : UInt64 × UInt64} (hl : m.getLast? = some last) {e : UInt64 × UInt64} (he : e ∈ m) :
    e.1 ≤ last.1 := by
  obtain ⟨init, rfl⟩ := List.getLast?_eq_some_iff.mp hl
  rcases List.mem_append.mp he with he | he
  · exact UInt64.le_of_lt ((List.pairwise_append.mp hs).2.2 e he last (List.mem_singleton_self last))
  · rw [List.mem_singleton.mp he]
    exact UInt64.le_refl _

/-- The count test of `is_all_loaded`: with the ids in key order and above the confirm
id, the map holds as many ids as lie between the confirm id and its largest id exactly
when it holds each of them. -/
theorem WellFormed.count_eq_iff {l : UnconfirmIdHeightList} (hw : l.WellFormed)
    (hn : l.confirmId ≠ noConfirmId) {last : UInt64 × UInt64}
    (hlast : l.idHeightMap.getLast? = some last) :
    (l.idHeightMap.length.toUInt64 == last.1 - l.confirmId) = true ↔
      ∀ k, l.confirmId < k → k ≤ last.1 → k ∈ l.idHeightMap.map Prod.fst := by
  have hks : (l.idHeightMap.map Prod.fst).Pairwise (· < ·) := List.pairwise_map.mpr hw.sorted
  have hin : ∀ k ∈ l.idHeightMap.map Prod.fst, l.confirmId < k ∧ k ≤ last.1 := by
    intro k hk
    obtain ⟨e, he, rfl⟩ := List.mem_map.mp hk
    exact ⟨hw.above e he hn, fst_le_of_getLast_eq hw.sorted hlast he⟩
  have hcl : l.confirmId ≤ last.1 :=
    UInt64.le_of_lt (hw.above last (List.mem_of_getLast? hlast) hn)
  -- the ids lie in `(confirmId, last]`, so there are fewer than `2 ^ 64` of them and the
  -- `uint64_t` count does not wrap
  have hlt : l.idHeightMap.length < 2 ^ 64 := by
    rw [← List.length_map Prod.fst]
    exact Nat.lt_of_le_of_lt
      (Nat.le_trans (KeyInterval.length_le_of_sorted hks hin) (Nat.sub_le _ _)) last.1.toNat_lt
  have hcount : (l.idHeightMap.length.toUInt64 == last.1 - l.confirmId) = true ↔
      (l.idHeightMap.map Prod.fst).length = last.1.toNat - l.confirmId.toNat := by
    rw [beq_iff_eq, ← UInt64.toNat_inj, UInt64.toNat_ofNat', Nat.mod_eq_of_lt hlt,
      UInt64.toNat_sub_of_le _ _ hcl, List.length_map]
  rw [hcount]
  exact KeyInterval.length_eq_iff_of_sorted hks hin

/-- `is_all_loaded` counts: in a well-formed list the count equals the distance from the
confirm id to the largest id exactly when no id in between is missing. -/
theorem isAllLoaded_iff {l : UnconfirmIdHeightList} (hw : l.WellFormed) :
    l.isAllLoaded = true ↔ l.confirmId ≠ noConfirmId ∧
      ∀ r r', r ≤ r' → (l.getHeightById r').isSome → l.confirmId < r →
        (l.getHeightById r).isSome := by
  by_cases hn : l.confirmId = noConfirmId
  · simp [isAllLoaded, hn]
  rw [isAllLoaded, if_neg hn]
  simp only [getHeightById, isSome_lookup_iff_mem_map]
  cases hlast : l.idHeightMap.getLast? with
  | none =>
    have hnil : l.idHeightMap = [] := List.getLast?_eq_none_iff.mp hlast
    simp [hn, hnil]
  | some last =>
    simp only [hw.count_eq_iff hn hlast]
    constructor
    · intro hall
      refine ⟨hn, fun r r' hrr' hr' hcr => hall r hcr (UInt64.le_trans hrr' ?_)⟩
      obtain ⟨e, he, rfl⟩ := List.mem_map.mp hr'
      exact fst_le_of_getLast_eq hw.sorted hlast he
    · rintro ⟨-, hall⟩ k hck hkl
      exact hall k last.1 hkl (List.mem_map_of_mem (List.mem_of_getLast? hlast)) hck

/-- A list that follows a run has every id it waits for exactly when the run says so. -/
theorem Tracks.isAllLoaded_iff {l : UnconfirmIdHeightList} {ops : List ListOp}
    (ht : Tracks l ops) : l.isAllLoaded = true ↔ Loaded ops := by
  rw [UnconfirmIdHeightList.isAllLoaded_iff ht.wellFormed, Loaded, ← ht.confirmId_ne_iff]
  simp only [ht.lookup]
  -- once confirmed, the ids above the confirm id are those no call confirmed
  constructor
  · rintro ⟨hn, hall⟩
    exact ⟨hn, fun r r' hrr' hr' hcr => hall r r' hrr' hr' ((ht.lt_confirmId_iff hn r).mpr hcr)⟩
  · rintro ⟨hn, hall⟩
    exact ⟨hn, fun r r' hrr' hr' hcr => hall r r' hrr' hr' ((ht.lt_confirmId_iff hn r).mp hcr)⟩

/-- A run of calls none of which confirms the sentinel id keeps the invariant. -/
theorem tracks_run (ops : List ListOp) (hops : ListOp.updateConfirmId noConfirmId ∉ ops) :
    Tracks (initial.run ops) ops := by
  induction ops using List.reverseRecOn with
  | nil => exact tracks_initial
  | append_singleton ops op ih =>
    have hop : op ≠ .updateConfirmId noConfirmId := fun h =>
      hops (List.mem_append_right _ (List.mem_singleton.mpr h.symm))
    rw [run_concat]
    exact (ih fun h => hops (List.mem_append_left _ h)).apply hop

/-- A list built by calls none of which confirms the sentinel id answers for each id
what the calls say of it: nothing once a confirm id covers it, and otherwise the
height the last call adding it filed. -/
theorem getHeightById_run (ops : List ListOp) (hops : ListOp.updateConfirmId noConfirmId ∉ ops)
    (r : UInt64) : (initial.run ops).getHeightById r = unconfirmedHeight ops r :=
  (tracks_run ops hops).lookup r

/-- Ids `3` and `4` filed at heights `10` and `11`, id `5` at `12`, then a confirm of `2`,
and id `2` filed too late. -/
def sampleRun : List ListOp :=
  [.addIdHeight 3 10 100, .addIdHeight 5 12 101, .addIdHeight 4 11 102, .updateConfirmId 2,
    .addIdHeight 2 9 103]

theorem getHeightById_sampleRun :
    ListOp.updateConfirmId noConfirmId ∉ sampleRun ∧
      (initial.run sampleRun).getHeightById 4 = unconfirmedHeight sampleRun 4 :=
  ⟨by decide, getHeightById_run sampleRun (by decide) 4⟩

/-- `is_all_loaded` after a run: a confirm call came, and every id no call confirmed, up to
one the run gave a height, has a height. -/
theorem isAllLoaded_run_iff (ops : List ListOp)
    (hops : ListOp.updateConfirmId noConfirmId ∉ ops) :
    (initial.run ops).isAllLoaded = true ↔ (∃ c, ListOp.updateConfirmId c ∈ ops) ∧
      ∀ r r', r ≤ r' → (unconfirmedHeight ops r').isSome → ops.any (ListOp.confirms r) = false →
        (unconfirmedHeight ops r).isSome :=
  (tracks_run ops hops).isAllLoaded_iff

theorem isAllLoaded_sampleRun :
    ListOp.updateConfirmId noConfirmId ∉ sampleRun ∧
      ((initial.run sampleRun).isAllLoaded = true ↔
        (∃ c, ListOp.updateConfirmId c ∈ sampleRun) ∧
          ∀ r r', r ≤ r' → (unconfirmedHeight sampleRun r').isSome →
            sampleRun.any (ListOp.confirms r) = false → (unconfirmedHeight sampleRun r).isSome) :=
  ⟨by decide, isAllLoaded_run_iff sampleRun (by decide)⟩

end UnconfirmIdHeightList

end Receipts

end TopChain

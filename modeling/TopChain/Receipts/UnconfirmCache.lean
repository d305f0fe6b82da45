import TopChain.Receipts.UnconfirmIdHeight

/-!
# The unconfirmed-id cache of a table's transaction pool

`xtable_unconfirm_id_height_t` keeps one `xunconfirm_id_height_list_t` per peer table
in a `std::map` by table short id; `update_confirm_id` and `add_id_height` create the
peer's list on first use, and `refresh_as_sender` and `refresh_as_receiver` give every
list it already has the confirm id its peer's receipt id pair now holds.
`xunconfirm_id_height` keeps one such table for the receipt ids a table sent and one
for those it received, with the record of processed table heights:
`update_unconfirm_id_height` files the ids the transactions of a table block carry at
the block's height, `update_peer_confirm_id` and `refresh` confirm, and
`get_lacking_section` prunes the record below the least height it still needs before
it looks for a section of table blocks to load.

Seen from one peer, a table is a list that runs the calls made for that peer, except
that a refresh reaches a list only once an earlier call created it (`listOf_run`).  So
for each peer and receipt id the cache answers what the calls its events made say of it
(`getTableHeightById_run`), and every height it answers was filed for that peer and id
by an `update_unconfirm_id_height` at that height (`filed_of_getTableHeightById`).

## Main definitions

* `TableUnconfirmIdHeight`, `TableOp`, `peerOps` — the table, its calls, and the calls
  it makes on one peer's list.
* `UnconfirmIdHeight`, `Event` — the cache of a table's pool and the calls made on it.
-/

namespace TopChain

namespace Receipts

open ReceiptId (TxSubtype)

/-- `xunconfirm_id_height_list_t::size`: the number of ids, as a `uint32_t`. -/
def UnconfirmIdHeightList.size (l : UnconfirmIdHeightList) : UInt32 :=
  l.idHeightMap.length.toUInt32

/-- `xresend_id_height_t`. -/
structure ResendIdHeight where
  tableSid : UInt16
  receiptId : UInt64
  height : UInt64
  deriving DecidableEq, Repr

/-- `xreceiptid_state_cache_t`: the receipt id pairs of each table's state. -/
structure ReceiptidStateCache where
  receiptidStateMap : List (UInt16 × ReceiptId.Pairs)
  deriving DecidableEq, Repr

namespace ReceiptidStateCache

/-- `get_table_receiptid_state`: a table's state, `nullptr` as `none`. -/
def getTableReceiptidState (c : ReceiptidStateCache) (tableId : UInt16) :
    Option ReceiptId.Pairs :=
  c.receiptidStateMap.lookup tableId

/-- `get_confirmid_max`: the confirmed maximum of a table's pair for a peer, from a
default pair when it has none, and `0` for a table the cache does not know. -/
def getConfirmidMax (c : ReceiptidStateCache) (tableId peerTableId : UInt16) : UInt64 :=
  match c.getTableReceiptidState tableId with
  | some state => ((state.findPair peerTableId).getD .zero).confirmidMax
  | none => 0

end ReceiptidStateCache

/-- `xtable_unconfirm_id_height_t`: the list of each peer table, in table order. -/
structure TableUnconfirmIdHeight where
  tableSidUnconfirmListMap : List (UInt16 × UnconfirmIdHeightList)
  deriving DecidableEq, Repr

namespace TableUnconfirmIdHeight

/-- A table with no lists. -/
def empty : TableUnconfirmIdHeight := ⟨[]⟩

/-- The two calls that name a peer: change its list, a new one if it has none yet, as
the source does on a local list before it stores it. -/
def updateList (t : TableUnconfirmIdHeight) (tableSid : UInt16)
    (f : UnconfirmIdHeightList → UnconfirmIdHeightList) : TableUnconfirmIdHeight :=
  ⟨upsert (fun o => f (o.getD .initial)) t.tableSidUnconfirmListMap tableSid⟩

/-- `update_confirm_id`. -/
def updateConfirmId (t : TableUnconfirmIdHeight) (tableSid : UInt16) (confirmId : UInt64) :
    TableUnconfirmIdHeight :=
  t.updateList tableSid fun l => l.updateConfirmId confirmId

/-- `add_id_height`. -/
def addIdHeight (t : TableUnconfirmIdHeight) (tableSid : UInt16)
    (receiptId height time : UInt64) : TableUnconfirmIdHeight :=
  t.updateList tableSid fun l => l.addIdHeight receiptId height time

/-- The loop of `get_min_height` from `min_tmp`: `none` at the first list whose first id
is not the one after its confirm id, and otherwise the least height of the lists that
have one. -/
def minHeightLoop : List (UInt16 × UnconfirmIdHeightList) → UInt64 → Option UInt64
  | [], minTmp => some minTmp
  | (_, l) :: rest, minTmp =>
    match l.getMinHeight with
    | .fail => none
    | .ok h => minHeightLoop rest (if minTmp > h then h else minTmp)
    | .noUnconfirmId => minHeightLoop rest minTmp

/-- `get_min_height`: the loop from `0xFFFFFFFFFFFFFFFF`, which also stands for no
height. -/
def getMinHeight (t : TableUnconfirmIdHeight) : Option UInt64 :=
  match minHeightLoop t.tableSidUnconfirmListMap 0xFFFFFFFFFFFFFFFF with
  | some minTmp => if minTmp = 0xFFFFFFFFFFFFFFFF then none else some minTmp
  | none => none

/-- `get_height_by_id`. -/
def getHeightById (t : TableUnconfirmIdHeight) (tableSid : UInt16) (receiptId : UInt64) :
    Option UInt64 :=
  (t.tableSidUnconfirmListMap.lookup tableSid).bind fun l => l.getHeightById receiptId

/-- `is_all_unconfirm_id_recovered`. -/
def isAllUnconfirmIdRecovered (t : TableUnconfirmIdHeight) : Bool :=
  t.tableSidUnconfirmListMap.all fun e => e.2.isAllLoaded

/-- `get_resend_id_height_list`. -/
def getResendIdHeightList (t : TableUnconfirmIdHeight) (curTime : UInt64) :
    List ResendIdHeight :=
  t.tableSidUnconfirmListMap.filterMap fun e =>
    (e.2.getResendIdHeight curTime).map fun idHeight => ⟨e.1, idHeight.1, idHeight.2⟩

/-- `size`: the lists' sizes summed in a `uint32_t`. -/
def size (t : TableUnconfirmIdHeight) : UInt32 :=
  t.tableSidUnconfirmListMap.foldl (fun count e => count + e.2.size) 0

/-- The two refreshes: every list takes the confirm id `confirmIdOf` gives its peer. -/
def refreshWith (t : TableUnconfirmIdHeight) (confirmIdOf : UInt16 → UInt64) :
    TableUnconfirmIdHeight :=
  ⟨t.tableSidUnconfirmListMap.map fun e => (e.1, e.2.updateConfirmId (confirmIdOf e.1))⟩

/-- The confirm id a table's receipt id state holds for a peer. -/
def senderConfirmIdOf (tableReceiptidState : ReceiptId.Pairs) (peerTableId : UInt16) : UInt64 :=
  ((tableReceiptidState.findPair peerTableId).getD .zero).confirmidMax

/-- `refresh_as_sender`. -/
def refreshAsSender (t : TableUnconfirmIdHeight) (tableReceiptidState : ReceiptId.Pairs) :
    TableUnconfirmIdHeight :=
  t.refreshWith (senderConfirmIdOf tableReceiptidState)

/-- `refresh_as_receiver`: the confirm id of each peer's own pair for this table. -/
def refreshAsReceiver (t : TableUnconfirmIdHeight) (selfTableSid : UInt16)
    (receiptidStateCache : ReceiptidStateCache) : TableUnconfirmIdHeight :=
  t.refreshWith fun peerTableId => receiptidStateCache.getConfirmidMax peerTableId selfTableSid

end TableUnconfirmIdHeight

/-- The calls that change a table. -/
inductive TableOp where
  | addIdHeight (tableSid : UInt16) (receiptId height time : UInt64)
  | updateConfirmId (tableSid : UInt16) (confirmId : UInt64)
  | refreshWith (confirmIdOf : UInt16 → UInt64)

namespace TableOp

/-- Whether a call creates the list of peer `sid` when the table has none. -/
def touches (sid : UInt16) : TableOp → Bool
  | .addIdHeight s .. => decide (s = sid)
  | .updateConfirmId s _ => decide (s = sid)
  | .refreshWith _ => false

/-- The calls a table call makes on the list of peer `sid`, given whether it exists. -/
def forPeer (sid : UInt16) (present : Bool) : TableOp → List ListOp
  | .addIdHeight s r h t => if s = sid then [.addIdHeight r h t] else []
  | .updateConfirmId s c => if s = sid then [.updateConfirmId c] else []
  | .refreshWith confirmIdOf => if present then [.updateConfirmId (confirmIdOf sid)] else []

/-- The peer a call names, if it names one. -/
def namedSid : TableOp → Option UInt16
  | .addIdHeight s .. => some s
  | .updateConfirmId s _ => some s
  | .refreshWith _ => none

theorem touches_eq_true_iff (sid : UInt16) (op : TableOp) :
    op.touches sid = true ↔ op.namedSid = some sid := by
  cases op <;> simp [touches, namedSid]

end TableOp

/-- The peers the calls of a run name. -/
def touchedSids (ops : List TableOp) : List UInt16 :=
  ops.filterMap TableOp.namedSid

theorem any_touches_iff_mem_touchedSids (ops : List TableOp) (sid : UInt16) :
    ops.any (TableOp.touches sid) = true ↔ sid ∈ touchedSids ops := by
  simp [touchedSids, List.any_eq_true, TableOp.touches_eq_true_iff]

/-- The calls a run of table calls makes on the list of peer `sid`: a refresh reaches
the list only once a call created it. -/
def peerOps (sid : UInt16) : Bool → List TableOp → List ListOp
  | _, [] => []
  | present, op :: ops => op.forPeer sid present ++ peerOps sid (present || op.touches sid) ops

namespace TableUnconfirmIdHeight

/-- One call. -/
def apply (t : TableUnconfirmIdHeight) : TableOp → TableUnconfirmIdHeight
  | .addIdHeight s r h time => t.addIdHeight s r h time
  | .updateConfirmId s c => t.updateConfirmId s c
  | .refreshWith confirmIdOf => t.refreshWith confirmIdOf

/-- A run of calls. -/
def run (t : TableUnconfirmIdHeight) (ops : List TableOp) : TableUnconfirmIdHeight :=
  ops.foldl apply t

/-- The list of a peer, a new one where the table has none. -/
def listOf (t : TableUnconfirmIdHeight) (sid : UInt16) : UnconfirmIdHeightList :=
  (t.tableSidUnconfirmListMap.lookup sid).getD .initial

/-- Whether the table has a list for a peer. -/
def present (t : TableUnconfirmIdHeight) (sid : UInt16) : Bool :=
  (t.tableSidUnconfirmListMap.lookup sid).isSome

/-- The table's lists are in table order, as a `std::map` keeps them. -/
def Sorted (t : TableUnconfirmIdHeight) : Prop :=
  t.tableSidUnconfirmListMap.Pairwise fun a b => a.1 < b.1

theorem getHeightById_eq_listOf (t : TableUnconfirmIdHeight) (sid : UInt16) (r : UInt64) :
    t.getHeightById sid r = (t.listOf sid).getHeightById r := by
  unfold getHeightById listOf
  cases t.tableSidUnconfirmListMap.lookup sid <;> rfl

theorem sorted_empty : empty.Sorted := List.Pairwise.nil

section Step

variable {t : TableUnconfirmIdHeight} (ht : t.Sorted)
include ht

theorem sorted_updateList (sid : UInt16) (f : UnconfirmIdHeightList → UnconfirmIdHeightList) :
    (t.updateList sid f).Sorted :=
  pairwise_upsert _ sid ht

/-- Changing a peer's list changes no other peer's, and creates the peer's list. -/
theorem listOf_updateList (s : UInt16) (f : UnconfirmIdHeightList → UnconfirmIdHeightList)
    (sid : UInt16) :
    (t.updateList s f).listOf sid = if s = sid then f (t.listOf sid) else t.listOf sid := by
  unfold updateList listOf
  by_cases hs : s = sid
  · subst hs
    rw [if_pos rfl, lookup_upsert_self _ _ ht, Option.getD_some]
  · rw [if_neg hs, lookup_upsert_of_ne _ (Ne.symm hs)]

omit ht in
theorem present_updateList (s : UInt16) (f : UnconfirmIdHeightList → UnconfirmIdHeightList)
    (sid : UInt16) : (t.updateList s f).present sid = (t.present sid || decide (s = sid)) := by
  unfold updateList present
  by_cases hs : s = sid
  · subst hs
    simp [isSome_lookup_upsert_self]
  · simp [lookup_upsert_of_ne _ (Ne.symm hs), hs]

omit ht in
theorem lookup_refreshWith (confirmIdOf : UInt16 → UInt64) (sid : UInt16) :
    (t.tableSidUnconfirmListMap.map fun e => (e.1, e.2.updateConfirmId (confirmIdOf e.1))).lookup sid =
      (t.tableSidUnconfirmListMap.lookup sid).map fun l => l.updateConfirmId (confirmIdOf sid) :=
  lookup_map_val (fun (s : UInt16) (l : UnconfirmIdHeightList) => l.updateConfirmId (confirmIdOf s)) _ sid

omit ht in
theorem sorted_refreshWith (ht : t.Sorted) (confirmIdOf : UInt16 → UInt64) :
    (t.refreshWith confirmIdOf).Sorted :=
  List.pairwise_map.mpr ht

omit ht in
/-- A refresh reaches only the lists the table already has. -/
theorem listOf_refreshWith (confirmIdOf : UInt16 → UInt64) (sid : UInt16) :
    (t.refreshWith confirmIdOf).listOf sid =
      if t.present sid then (t.listOf sid).updateConfirmId (confirmIdOf sid) else t.listOf sid := by
  simp only [refreshWith, listOf, lookup_refreshWith]
  by_cases hp : t.present sid = true
  · obtain ⟨l, hl⟩ := Option.isSome_iff_exists.mp hp
    rw [if_pos hp, hl]
    rfl
  · rw [if_neg hp, Option.not_isSome_iff_eq_none.mp hp]
    rfl

omit ht in
theorem present_refreshWith (confirmIdOf : UInt16 → UInt64) (sid : UInt16) :
    (t.refreshWith confirmIdOf).present sid = t.present sid := by
  simp only [refreshWith, present, lookup_refreshWith]
  rcases hl : t.tableSidUnconfirmListMap.lookup sid with _ | l <;> rfl

theorem sorted_apply (op : TableOp) : (t.apply op).Sorted := by
  cases op with
  | addIdHeight s r h time => exact sorted_updateList ht s _
  | updateConfirmId s c => exact sorted_updateList ht s _
  | refreshWith confirmIdOf => exact sorted_refreshWith ht confirmIdOf

/-- One table call, seen from one peer: its list runs the calls made for it. -/
theorem listOf_apply (op : TableOp) (sid : UInt16) :
    (t.apply op).listOf sid = (t.listOf sid).run (op.forPeer sid (t.present sid)) := by
  cases op with
  | addIdHeight s r h time =>
    rw [apply, addIdHeight, listOf_updateList ht, TableOp.forPeer]
    split_ifs <;> rfl
  | updateConfirmId s c =>
    rw [apply, updateConfirmId, listOf_updateList ht, TableOp.forPeer]
    split_ifs <;> rfl
  | refreshWith confirmIdOf =>
    rw [apply, listOf_refreshWith, TableOp.forPeer]
    split_ifs <;> rfl

omit ht in
theorem present_apply (op : TableOp) (sid : UInt16) :
    (t.apply op).present sid = (t.present sid || op.touches sid) := by
  cases op with
  | addIdHeight s r h time => exact present_updateList s _ sid
  | updateConfirmId s c => exact present_updateList s _ sid
  | refreshWith confirmIdOf => simp [apply, present_refreshWith, TableOp.touches]

end Step

theorem run_append (t : TableUnconfirmIdHeight) (ops ops' : List TableOp) :
    t.run (ops ++ ops') = (t.run ops).run ops' :=
  List.foldl_append

/-- A run of table calls, seen from one peer: its list runs the calls the run made for
it, refreshes counted only once the list exists. -/
theorem listOf_run {t : TableUnconfirmIdHeight} (ht : t.Sorted) (ops : List TableOp)
    (sid : UInt16) : (t.run ops).listOf sid = (t.listOf sid).run (peerOps sid (t.present sid) ops) := by
  induction ops generalizing t with
  | nil => rfl
  | cons op ops ih =>
    -- the first call, then the rest from the table it leaves
    show ((t.apply op).run ops).listOf sid = _
    rw [ih (sorted_apply ht op), listOf_apply ht, present_apply, peerOps,
      UnconfirmIdHeightList.run_append]

theorem sorted_run {t : TableUnconfirmIdHeight} (ht : t.Sorted) (ops : List TableOp) :
    (t.run ops).Sorted := by
  induction ops generalizing t with
  | nil => exact ht
  | cons op ops ih => exact ih (sorted_apply ht op)

/-- A run creates the lists of exactly the peers its calls name. -/
theorem present_run {t : TableUnconfirmIdHeight} (ht : t.Sorted) (ops : List TableOp)
    (sid : UInt16) : (t.run ops).present sid = (t.present sid || ops.any (TableOp.touches sid)) := by
  induction ops generalizing t with
  | nil => simp [run]
  | cons op ops ih =>
    show ((t.apply op).run ops).present sid = _
    rw [ih (sorted_apply ht op), present_apply, List.any_cons, Bool.or_assoc]

/-- `is_all_unconfirm_id_recovered`: the list of every peer the table has is loaded. -/
theorem isAllUnconfirmIdRecovered_iff {t : TableUnconfirmIdHeight} (ht : t.Sorted) :
    t.isAllUnconfirmIdRecovered = true ↔
      ∀ sid, t.present sid = true → (t.listOf sid).isAllLoaded = true := by
  rw [isAllUnconfirmIdRecovered, List.all_eq_true]
  constructor
  · intro hall sid hp
    obtain ⟨l, hl⟩ := Option.isSome_iff_exists.mp hp
    have hloaded := hall (sid, l) (mem_of_lookup_eq_some hl)
    rwa [listOf, hl, Option.getD_some]
  · -- in table order each entry is what its peer looks up
    rintro hall ⟨sid, l⟩ he
    have hl : t.tableSidUnconfirmListMap.lookup sid = some l := (lookup_eq_some_iff_mem ht).mpr he
    have hloaded := hall sid (by rw [present, hl]; rfl)
    rwa [listOf, hl, Option.getD_some] at hloaded

end TableUnconfirmIdHeight

/-- A table call of a run makes on peer `sid`'s list only the filings it names. -/
theorem mem_peerOps_addIdHeight {sid : UInt16} {present : Bool} {ops : List TableOp}
    {r h time : UInt64} (hm : ListOp.addIdHeight r h time ∈ peerOps sid present ops) :
    TableOp.addIdHeight sid r h time ∈ ops := by
  induction ops generalizing present with
  | nil => cases hm
  | cons op ops ih =>
    rcases List.mem_append.mp hm with hm | hm
    · -- the filing comes from this call
      cases op with
      | addIdHeight s r' h' t' =>
        by_cases hs : s = sid
        · simp only [TableOp.forPeer, if_pos hs, List.mem_singleton, ListOp.addIdHeight.injEq] at hm
          obtain ⟨rfl, rfl, rfl⟩ := hm
          rw [hs]
          exact List.mem_cons_self
        · simp [TableOp.forPeer, hs] at hm
      | updateConfirmId s c => by_cases hs : s = sid <;> simp [TableOp.forPeer, hs] at hm
      | refreshWith confirmIdOf => cases present <;> simp [TableOp.forPeer] at hm
    · exact List.mem_cons_of_mem _ (ih hm)

namespace TableUnconfirmIdHeight

theorem run_cons (t : TableUnconfirmIdHeight) (op : TableOp) (ops : List TableOp) :
    t.run (op :: ops) = (t.apply op).run ops := rfl

/-- Every list of the table is well formed. -/
def WellFormed (t : TableUnconfirmIdHeight) : Prop :=
  ∀ e ∈ t.tableSidUnconfirmListMap, e.2.WellFormed

theorem wellFormed_empty : empty.WellFormed := fun _ he => by cases he

namespace WellFormed

variable {t : TableUnconfirmIdHeight}

theorem updateList (hw : t.WellFormed) (sid : UInt16)
    {f : UnconfirmIdHeightList → UnconfirmIdHeightList}
    (hf : ∀ l : UnconfirmIdHeightList, l.WellFormed → (f l).WellFormed) :
    (t.updateList sid f).WellFormed := by
  intro e he
  rcases mem_upsert he with he | ⟨o, rfl, ho⟩
  · exact hw e he
  · -- the peer's list is `f` of its old list or of a new one
    apply hf
    cases o with
    | none => exact UnconfirmIdHeightList.wellFormed_initial
    | some l => exact hw (sid, l) (ho l rfl)

theorem refreshWith (hw : t.WellFormed) (confirmIdOf : UInt16 → UInt64) :
    (t.refreshWith confirmIdOf).WellFormed := by
  intro e he
  obtain ⟨e', he', rfl⟩ := List.mem_map.mp he
  exact (hw e' he').updateConfirmId _

theorem apply (hw : t.WellFormed) (op : TableOp) : (t.apply op).WellFormed := by
  cases op with
  | addIdHeight s r h time => exact hw.updateList s fun l hl => hl.addIdHeight r h time
  | updateConfirmId s c => exact hw.updateList s fun l hl => hl.updateConfirmId c
  | refreshWith confirmIdOf => exact hw.refreshWith confirmIdOf

theorem run (hw : t.WellFormed) (ops : List TableOp) : (t.run ops).WellFormed := by
  induction ops generalizing t with
  | nil => exact hw
  | cons op ops ih => exact ih (hw.apply op)

end WellFormed

section MinHeight

/-- The accumulator's update in `get_min_height` keeps the lesser of the two heights. -/
theorem le_ite_gt_iff {acc h m : UInt64} :
    m ≤ (if acc > h then h else acc) ↔ m ≤ acc ∧ m ≤ h := by
  have hla := UInt64.le_iff_toNat_le (a := m) (b := acc)
  have hlh := UInt64.le_iff_toNat_le (a := m) (b := h)
  by_cases hgt : acc > h
  · have hgt' := UInt64.lt_iff_toNat_lt.mp hgt
    rw [if_pos hgt, hla, hlh]
    omega
  · have hgt' := mt UInt64.lt_iff_toNat_lt.mpr hgt
    rw [if_neg hgt, hla, hlh]
    omega

theorem eq_ite_gt_iff {acc h m : UInt64} (hacc : m ≤ acc) (hh : m ≤ h) :
    m = (if acc > h then h else acc) ↔ m = acc ∨ m = h := by
  have hacc' := UInt64.le_iff_toNat_le.mp hacc
  have hh' := UInt64.le_iff_toNat_le.mp hh
  by_cases hgt : acc > h
  · have hgt' := UInt64.lt_iff_toNat_lt.mp hgt
    rw [if_pos hgt]
    simp only [← UInt64.toNat_inj]
    omega
  · have hgt' := mt UInt64.lt_iff_toNat_lt.mpr hgt
    rw [if_neg hgt]
    simp only [← UInt64.toNat_inj]
    omega

/-- The loop of `get_min_height` from `acc` answers `m` exactly when no list fails and `m`
is the least of `acc` and the lists' heights. -/
theorem minHeightLoop_eq_some_iff (ls : List (UInt16 × UnconfirmIdHeightList)) (acc m : UInt64) :
    minHeightLoop ls acc = some m ↔
      (∀ e ∈ ls, e.2.getMinHeight ≠ .fail) ∧ m ≤ acc ∧
        (m = acc ∨ ∃ e ∈ ls, e.2.getMinHeight = .ok m) ∧
        ∀ e ∈ ls, ∀ h, e.2.getMinHeight = .ok h → m ≤ h := by
  induction ls generalizing acc with
  | nil =>
    rw [minHeightLoop, Option.some.injEq]
    constructor
    · rintro rfl
      refine ⟨?_, UInt64.le_refl _, .inl rfl, ?_⟩ <;> simp
    · rintro ⟨-, -, rfl | ⟨_, he, _⟩, -⟩
      · rfl
      · cases he
  | cons e ls ih =>
    obtain ⟨sid, l⟩ := e
    simp only [List.forall_mem_cons, List.exists_mem_cons_iff]
    cases hl : l.getMinHeight with
    | fail => simp [minHeightLoop, hl]
    | noUnconfirmId => simp [minHeightLoop, hl, ih]
    | ok h =>
      -- the accumulator takes the lesser of itself and this list's height
      simp only [minHeightLoop, hl, ih, le_ite_gt_iff, ne_eq, reduceCtorEq, not_false_eq_true,
        true_and, MinHeightResult.ok.injEq, forall_eq']
      constructor
      · rintro ⟨hnf, ⟨hacc, hh⟩, hex, hmin⟩
        refine ⟨hnf, hacc, ?_, hh, hmin⟩
        rcases hex with hex | hex
        · rcases (eq_ite_gt_iff hacc hh).mp hex with hex | hex
          · exact .inl hex
          · exact .inr (.inl hex.symm)
        · exact .inr (.inr hex)
      · rintro ⟨hnf, hacc, hex, hh, hmin⟩
        refine ⟨hnf, ⟨hacc, hh⟩, ?_, hmin⟩
        rcases hex with hex | hex | hex
        · exact .inl ((eq_ite_gt_iff hacc hh).mpr (.inl hex))
        · exact .inl ((eq_ite_gt_iff hacc hh).mpr (.inr hex.symm))
        · exact .inr hex

theorem le_noConfirmId (x : UInt64) : x ≤ 0xFFFFFFFFFFFFFFFF :=
  UInt64.le_iff_toNat_le.mpr (Nat.le_pred_of_lt x.toNat_lt)

/-- `get_min_height` answers `m` exactly when `m` is not the sentinel, no list fails, and
`m` is the least height of the lists that have one. -/
theorem getMinHeight_eq_some_iff (t : TableUnconfirmIdHeight) (m : UInt64) :
    t.getMinHeight = some m ↔ m ≠ 0xFFFFFFFFFFFFFFFF ∧
      (∀ e ∈ t.tableSidUnconfirmListMap, e.2.getMinHeight ≠ .fail) ∧
      (∃ e ∈ t.tableSidUnconfirmListMap, e.2.getMinHeight = .ok m) ∧
      ∀ e ∈ t.tableSidUnconfirmListMap, ∀ h, e.2.getMinHeight = .ok h → m ≤ h := by
  have hloop := minHeightLoop_eq_some_iff t.tableSidUnconfirmListMap 0xFFFFFFFFFFFFFFFF m
  unfold getMinHeight
  constructor
  · intro hm
    -- the loop answered `m`, which is not the sentinel
    cases hl : minHeightLoop t.tableSidUnconfirmListMap 0xFFFFFFFFFFFFFFFF with
    | none =>
      rw [hl] at hm
      cases hm
    | some m' =>
      rw [hl] at hm
      dsimp only at hm
      by_cases hmax : m' = 0xFFFFFFFFFFFFFFFF
      · rw [if_pos hmax] at hm
        cases hm
      · rw [if_neg hmax, Option.some.injEq] at hm
        subst hm
        obtain ⟨hnf, -, hex, hmin⟩ := hloop.mp hl
        exact ⟨hmax, hnf, hex.resolve_left hmax, hmin⟩
  · rintro ⟨hmax, hnf, hex, hmin⟩
    rw [hloop.mpr ⟨hnf, le_noConfirmId m, .inr hex, hmin⟩]
    exact if_neg hmax

end MinHeight

/-- A table built by a run answers for each peer and id what the calls the run made on
that peer's list say of it. -/
theorem getHeightById_empty_run (ops : List TableOp) (sid : UInt16) (r : UInt64)
    (hops : ListOp.updateConfirmId noConfirmId ∉ peerOps sid false ops) :
    (empty.run ops).getHeightById sid r = unconfirmedHeight (peerOps sid false ops) r := by
  rw [getHeightById_eq_listOf, listOf_run sorted_empty]
  exact (UnconfirmIdHeightList.tracks_run _ hops).lookup r

/-- A height a table built by a run answers was filed for that peer and id by a call. -/
theorem mem_of_getHeightById_empty_run {ops : List TableOp} {sid : UInt16} {r h : UInt64}
    (hh : (empty.run ops).getHeightById sid r = some h) :
    ∃ time, TableOp.addIdHeight sid r h time ∈ ops := by
  rw [getHeightById_eq_listOf, listOf_run sorted_empty] at hh
  rcases UnconfirmIdHeightList.mem_idHeightMap_run (mem_of_lookup_eq_some hh) with hm | ⟨t, ht⟩
  · cases hm
  · exact ⟨t, mem_peerOps_addIdHeight ht⟩

/-- A table built by a run has every id it waits for exactly when, for every peer the
run names, the calls made on that peer's list say it is loaded. -/
theorem isAllUnconfirmIdRecovered_empty_run (ops : List TableOp)
    (hops : ∀ sid ∈ touchedSids ops, ListOp.updateConfirmId noConfirmId ∉ peerOps sid false ops) :
    (empty.run ops).isAllUnconfirmIdRecovered = true ↔
      ∀ sid ∈ touchedSids ops, Loaded (peerOps sid false ops) := by
  rw [isAllUnconfirmIdRecovered_iff (sorted_run sorted_empty ops)]
  refine forall_congr' fun sid => ?_
  rw [present_run sorted_empty, listOf_run sorted_empty]
  -- an empty table has no peer, so the run's calls decide which peers it has
  change (ops.any (TableOp.touches sid) = true → _) ↔ _
  rw [any_touches_iff_mem_touchedSids]
  exact forall_congr' fun hsid => (UnconfirmIdHeightList.tracks_run _ (hops sid hsid)).isAllLoaded_iff

/-- `get_min_height` on well-formed lists: `m` is not the sentinel, every list holding
ids holds the one right after its confirm id, and `m` is the least height of those. -/
theorem WellFormed.getMinHeight_eq_some_iff {t : TableUnconfirmIdHeight} (hw : t.WellFormed)
    (m : UInt64) :
    t.getMinHeight = some m ↔ m ≠ 0xFFFFFFFFFFFFFFFF ∧
      (∀ e ∈ t.tableSidUnconfirmListMap,
        e.2.idHeightMap ≠ [] → e.2.firstUnconfirmedHeight.isSome) ∧
      (∃ e ∈ t.tableSidUnconfirmListMap, e.2.firstUnconfirmedHeight = some m) ∧
      ∀ e ∈ t.tableSidUnconfirmListMap, ∀ h, e.2.firstUnconfirmedHeight = some h → m ≤ h := by
  rw [TableUnconfirmIdHeight.getMinHeight_eq_some_iff]
  -- read each list's answer through the height of its first unconfirmed id
  have hnf : (∀ e ∈ t.tableSidUnconfirmListMap, e.2.getMinHeight ≠ .fail) ↔
      ∀ e ∈ t.tableSidUnconfirmListMap, e.2.idHeightMap ≠ [] → e.2.firstUnconfirmedHeight.isSome :=
    forall₂_congr fun e he => (hw e he).getMinHeight_ne_fail_iff
  have hex : (∃ e ∈ t.tableSidUnconfirmListMap, e.2.getMinHeight = .ok m) ↔
      ∃ e ∈ t.tableSidUnconfirmListMap, e.2.firstUnconfirmedHeight = some m :=
    exists_congr fun e => and_congr_right fun he => (hw e he).getMinHeight_eq_ok_iff m
  have hmin : (∀ e ∈ t.tableSidUnconfirmListMap, ∀ h, e.2.getMinHeight = .ok h → m ≤ h) ↔
      ∀ e ∈ t.tableSidUnconfirmListMap, ∀ h, e.2.firstUnconfirmedHeight = some h → m ≤ h :=
    forall₂_congr fun e he => forall_congr' fun h =>
      imp_congr_left ((hw e he).getMinHeight_eq_ok_iff h)
  rw [hnf, hex, hmin]

/-- In every table a run of calls builds, `get_min_height` answers `m` exactly when `m`
is not the sentinel, every peer list holding ids holds the one right after its confirm
id, and `m` is the least height of those first unconfirmed ids. -/
theorem getMinHeight_run (ops : List TableOp) (m : UInt64) :
    (empty.run ops).getMinHeight = some m ↔ m ≠ 0xFFFFFFFFFFFFFFFF ∧
      (∀ e ∈ (empty.run ops).tableSidUnconfirmListMap,
        e.2.idHeightMap ≠ [] → e.2.firstUnconfirmedHeight.isSome) ∧
      (∃ e ∈ (empty.run ops).tableSidUnconfirmListMap, e.2.firstUnconfirmedHeight = some m) ∧
      ∀ e ∈ (empty.run ops).tableSidUnconfirmListMap, ∀ h,
        e.2.firstUnconfirmedHeight = some h → m ≤ h :=
  (wellFormed_empty.run ops).getMinHeight_eq_some_iff m

end TableUnconfirmIdHeight

/-- `xtx_id_height_info`. -/
structure TxIdHeightInfo where
  subtype : TxSubtype
  peerTableSid : UInt16
  receiptId : UInt64
  deriving DecidableEq, Repr

/-- `xunconfirm_id_height`: the ids a table sent, those it received, and the heights of
its blocks it processed. -/
structure UnconfirmIdHeight where
  senderUnconfirmIdHeight : TableUnconfirmIdHeight
  receiverUnconfirmIdHeight : TableUnconfirmIdHeight
  processedHeightRecord : ProcessedHeightRecord
  deriving DecidableEq, Repr

namespace UnconfirmIdHeight

/-- A new cache. -/
def initial : UnconfirmIdHeight := ⟨.empty, .empty, .initial⟩

/-- The body of the loop of `update_unconfirm_id_height`: a send files its id in the
sender table, a receive in the receiver table, and other subtypes nothing. -/
def fileTx (tableHeight time : UInt64) (u : UnconfirmIdHeight) (txInfo : TxIdHeightInfo) :
    UnconfirmIdHeight :=
  match txInfo.subtype with
  | .send =>
    { u with
      senderUnconfirmIdHeight := u.senderUnconfirmIdHeight.addIdHeight txInfo.peerTableSid
        txInfo.receiptId tableHeight time }
  | .recv =>
    { u with
      receiverUnconfirmIdHeight := u.receiverUnconfirmIdHeight.addIdHeight txInfo.peerTableSid
        txInfo.receiptId tableHeight time }
  | _ => u

/-- `update_unconfirm_id_height`: file the ids of a table block's transactions at its
height, then record the height; `none` where recording indexes past the end of the
record. -/
def updateUnconfirmIdHeight (u : UnconfirmIdHeight) (tableHeight time : UInt64)
    (txIdHeightInfos : List TxIdHeightInfo) : Option UnconfirmIdHeight :=
  let u := txIdHeightInfos.foldl (fileTx tableHeight time) u
  (u.processedHeightRecord.recordHeight tableHeight).map fun r =>
    { u with processedHeightRecord := r }

/-- `update_peer_confirm_id`: only the receiver table takes a peer's confirm id. -/
def updatePeerConfirmId (u : UnconfirmIdHeight) (peerTableSid : UInt16) (confirmId : UInt64) :
    UnconfirmIdHeight :=
  { u with
    receiverUnconfirmIdHeight := u.receiverUnconfirmIdHeight.updateConfirmId peerTableSid confirmId }

/-- `get_sender_table_height_by_id`. -/
def getSenderTableHeightById (u : UnconfirmIdHeight) (peerTableSid : UInt16)
    (receiptId : UInt64) : Option UInt64 :=
  u.senderUnconfirmIdHeight.getHeightById peerTableSid receiptId

/-- `get_receiver_table_height_by_id`. -/
def getReceiverTableHeightById (u : UnconfirmIdHeight) (peerTableSid : UInt16)
    (receiptId : UInt64) : Option UInt64 :=
  u.receiverUnconfirmIdHeight.getHeightById peerTableSid receiptId

/-- `get_sender_resend_id_height_list`. -/
def getSenderResendIdHeightList (u : UnconfirmIdHeight) (curTime : UInt64) :
    List ResendIdHeight :=
  u.senderUnconfirmIdHeight.getResendIdHeightList curTime

/-- `get_receiver_resend_id_height_list`. -/
def getReceiverResendIdHeightList (u : UnconfirmIdHeight) (curTime : UInt64) :
    List ResendIdHeight :=
  u.receiverUnconfirmIdHeight.getResendIdHeightList curTime

/-- `cache_status`: the two tables' sizes and the record's word count. -/
def cacheStatus (u : UnconfirmIdHeight) : UInt32 × UInt32 × UInt32 :=
  (u.senderUnconfirmIdHeight.size, u.receiverUnconfirmIdHeight.size,
    u.processedHeightRecord.bitRecord.length.toUInt32)

/-- `refresh`: the sender table from this table's own state, if the cache has it, and
the receiver table from each peer's state. -/
def refresh (u : UnconfirmIdHeight) (selfTableSid : UInt16)
    (receiptidStateCache : ReceiptidStateCache) : UnconfirmIdHeight :=
  let u :=
    match receiptidStateCache.getTableReceiptidState selfTableSid with
    | some tableReceiptidState =>
      { u with
        senderUnconfirmIdHeight := u.senderUnconfirmIdHeight.refreshAsSender tableReceiptidState }
    | none => u
  { u with
    receiverUnconfirmIdHeight :=
      u.receiverUnconfirmIdHeight.refreshAsReceiver selfTableSid receiptidStateCache }

/-- The first half of `get_lacking_section`: prune the record below the lesser of the
two tables' least heights when both have one. -/
def pruneProcessedHeightRecord (u : UnconfirmIdHeight) : UnconfirmIdHeight :=
  match u.senderUnconfirmIdHeight.getMinHeight, u.receiverUnconfirmIdHeight.getMinHeight with
  | some senderMinHeight, some receiverMinHeight =>
    { u with
      processedHeightRecord := u.processedHeightRecord.updateMinHeight
        (if senderMinHeight < receiverMinHeight then senderMinHeight else receiverMinHeight) }
  | _, _ => u

/-- `get_lacking_section`: prune the record, then, unless every list of both tables is
loaded, the latest lacking section, `(0, 0)` when there is none.  `some (u, none)`
stands for `false`; `none` where the record is read past its end. -/
def getLackingSection (u : UnconfirmIdHeight) (maxLackingNum : UInt16) :
    Option (UnconfirmIdHeight × Option (UInt64 × UInt64)) :=
  -- the record is `mutable`: the `const` method prunes it
  let u := u.pruneProcessedHeightRecord
  if u.senderUnconfirmIdHeight.isAllUnconfirmIdRecovered &&
      u.receiverUnconfirmIdHeight.isAllUnconfirmIdRecovered then some (u, none)
  else
    (u.processedHeightRecord.getLatestLackingSaction maxLackingNum).map fun found =>
      (u, some (found.getD (0, 0)))

end UnconfirmIdHeight

/-- The calls that change the cache. -/
inductive Event where
  | updateUnconfirmIdHeight (tableHeight time : UInt64) (txIdHeightInfos : List TxIdHeightInfo)
  | updatePeerConfirmId (peerTableSid : UInt16) (confirmId : UInt64)
  | refresh (selfTableSid : UInt16) (receiptidStateCache : ReceiptidStateCache)
  | getLackingSection (maxLackingNum : UInt16)
  deriving DecidableEq, Repr

namespace UnconfirmIdHeight

/-- One call; `none` where it reads or writes the record past its end. -/
def step (u : UnconfirmIdHeight) : Event → Option UnconfirmIdHeight
  | .updateUnconfirmIdHeight tableHeight time txIdHeightInfos =>
    u.updateUnconfirmIdHeight tableHeight time txIdHeightInfos
  | .updatePeerConfirmId peerTableSid confirmId => some (u.updatePeerConfirmId peerTableSid confirmId)
  | .refresh selfTableSid receiptidStateCache => some (u.refresh selfTableSid receiptidStateCache)
  | .getLackingSection maxLackingNum => (u.getLackingSection maxLackingNum).map Prod.fst

/-- A run of calls. -/
def run : UnconfirmIdHeight → List Event → Option UnconfirmIdHeight
  | u, [] => some u
  | u, e :: es => (u.step e).bind fun u => run u es

end UnconfirmIdHeight

/-- The filing a transaction makes in the table of its subtype `side`. -/
def TxIdHeightInfo.fileOp (side : TxSubtype) (tableHeight time : UInt64)
    (txInfo : TxIdHeightInfo) : Option TableOp :=
  if txInfo.subtype = side then
    some (.addIdHeight txInfo.peerTableSid txInfo.receiptId tableHeight time)
  else none

namespace Event

/-- The calls an event makes on the sender table. -/
def senderOps : Event → List TableOp
  | .updateUnconfirmIdHeight tableHeight time txIdHeightInfos =>
    txIdHeightInfos.filterMap (TxIdHeightInfo.fileOp .send tableHeight time)
  | .refresh selfTableSid receiptidStateCache =>
    match receiptidStateCache.getTableReceiptidState selfTableSid with
    | some tableReceiptidState =>
      [.refreshWith (TableUnconfirmIdHeight.senderConfirmIdOf tableReceiptidState)]
    | none => []
  | .updatePeerConfirmId .. => []
  | .getLackingSection _ => []

/-- The calls an event makes on the receiver table. -/
def receiverOps : Event → List TableOp
  | .updateUnconfirmIdHeight tableHeight time txIdHeightInfos =>
    txIdHeightInfos.filterMap (TxIdHeightInfo.fileOp .recv tableHeight time)
  | .updatePeerConfirmId peerTableSid confirmId => [.updateConfirmId peerTableSid confirmId]
  | .refresh selfTableSid receiptidStateCache =>
    [.refreshWith fun peerTableId => receiptidStateCache.getConfirmidMax peerTableId selfTableSid]
  | .getLackingSection _ => []

end Event

namespace UnconfirmIdHeight

open TableUnconfirmIdHeight (run_cons)

theorem senderUnconfirmIdHeight_fileTxs (tableHeight time : UInt64)
    (txIdHeightInfos : List TxIdHeightInfo) (u : UnconfirmIdHeight) :
    (txIdHeightInfos.foldl (fileTx tableHeight time) u).senderUnconfirmIdHeight =
      u.senderUnconfirmIdHeight.run
        (txIdHeightInfos.filterMap (TxIdHeightInfo.fileOp .send tableHeight time)) := by
  induction txIdHeightInfos generalizing u with
  | nil => rfl
  | cons txInfo txIdHeightInfos ih =>
    rw [List.foldl_cons, ih, List.filterMap_cons]
    cases hs : txInfo.subtype <;>
      simp [fileTx, TxIdHeightInfo.fileOp, hs, run_cons, TableUnconfirmIdHeight.apply]

theorem receiverUnconfirmIdHeight_fileTxs (tableHeight time : UInt64)
    (txIdHeightInfos : List TxIdHeightInfo) (u : UnconfirmIdHeight) :
    (txIdHeightInfos.foldl (fileTx tableHeight time) u).receiverUnconfirmIdHeight =
      u.receiverUnconfirmIdHeight.run
        (txIdHeightInfos.filterMap (TxIdHeightInfo.fileOp .recv tableHeight time)) := by
  induction txIdHeightInfos generalizing u with
  | nil => rfl
  | cons txInfo txIdHeightInfos ih =>
    rw [List.foldl_cons, ih, List.filterMap_cons]
    cases hs : txInfo.subtype <;>
      simp [fileTx, TxIdHeightInfo.fileOp, hs, run_cons, TableUnconfirmIdHeight.apply]

/-- Looking for a lacking section changes the cache only by pruning its record. -/
theorem getLackingSection_fst {u u' : UnconfirmIdHeight} {maxLackingNum : UInt16}
    {found : Option (UInt64 × UInt64)} (h : u.getLackingSection maxLackingNum = some (u', found)) :
    u' = u.pruneProcessedHeightRecord := by
  dsimp only [getLackingSection] at h
  split at h
  · cases h
    rfl
  · obtain ⟨_, -, hu⟩ := Option.map_eq_some_iff.mp h
    exact (Prod.mk.inj hu).1.symm

/-- Pruning the record leaves both tables alone. -/
theorem tables_pruneProcessedHeightRecord (u : UnconfirmIdHeight) :
    u.pruneProcessedHeightRecord.senderUnconfirmIdHeight = u.senderUnconfirmIdHeight ∧
      u.pruneProcessedHeightRecord.receiverUnconfirmIdHeight = u.receiverUnconfirmIdHeight := by
  unfold pruneProcessedHeightRecord
  split <;> exact ⟨rfl, rfl⟩

theorem getLackingSection_tables {u u' : UnconfirmIdHeight} {maxLackingNum : UInt16}
    {found : Option (UInt64 × UInt64)} (h : u.getLackingSection maxLackingNum = some (u', found)) :
    u'.senderUnconfirmIdHeight = u.senderUnconfirmIdHeight ∧
      u'.receiverUnconfirmIdHeight = u.receiverUnconfirmIdHeight := by
  rw [getLackingSection_fst h]
  exact tables_pruneProcessedHeightRecord u

/-- `get_lacking_section` answers `false` exactly when both tables have every id they
wait for; otherwise it reports a section, `(0, 0)` when it finds none. -/
theorem getLackingSection_snd_eq_none_iff (u : UnconfirmIdHeight) (maxLackingNum : UInt16) :
    (u.getLackingSection maxLackingNum).map Prod.snd = some none ↔
      u.senderUnconfirmIdHeight.isAllUnconfirmIdRecovered = true ∧
        u.receiverUnconfirmIdHeight.isAllUnconfirmIdRecovered = true := by
  dsimp only [getLackingSection]
  rw [(tables_pruneProcessedHeightRecord u).1, (tables_pruneProcessedHeightRecord u).2]
  by_cases hall : (u.senderUnconfirmIdHeight.isAllUnconfirmIdRecovered &&
      u.receiverUnconfirmIdHeight.isAllUnconfirmIdRecovered) = true
  · rw [if_pos hall]
    simpa using hall
  · rw [if_neg hall]
    have hne : ¬(u.senderUnconfirmIdHeight.isAllUnconfirmIdRecovered = true ∧
        u.receiverUnconfirmIdHeight.isAllUnconfirmIdRecovered = true) := fun h =>
      hall (by rw [h.1, h.2]; rfl)
    simp only [hne, iff_false]
    cases u.pruneProcessedHeightRecord.processedHeightRecord.getLatestLackingSaction maxLackingNum <;>
      simp

/-- One call does to the sender table what the calls it makes there do. -/
theorem senderUnconfirmIdHeight_step {u u' : UnconfirmIdHeight} {e : Event}
    (h : u.step e = some u') :
    u'.senderUnconfirmIdHeight = u.senderUnconfirmIdHeight.run e.senderOps := by
  cases e with
  | updateUnconfirmIdHeight tableHeight time txIdHeightInfos =>
    obtain ⟨r, -, rfl⟩ := Option.map_eq_some_iff.mp h
    exact senderUnconfirmIdHeight_fileTxs tableHeight time txIdHeightInfos u
  | updatePeerConfirmId peerTableSid confirmId =>
    cases h
    rfl
  | refresh selfTableSid receiptidStateCache =>
    cases h
    simp only [refresh, Event.senderOps]
    cases receiptidStateCache.getTableReceiptidState selfTableSid <;> rfl
  | getLackingSection maxLackingNum =>
    obtain ⟨⟨u'', found⟩, hl, rfl⟩ := Option.map_eq_some_iff.mp h
    exact (getLackingSection_tables hl).1

/-- One call does to the receiver table what the calls it makes there do. -/
theorem receiverUnconfirmIdHeight_step {u u' : UnconfirmIdHeight} {e : Event}
    (h : u.step e = some u') :
    u'.receiverUnconfirmIdHeight = u.receiverUnconfirmIdHeight.run e.receiverOps := by
  cases e with
  | updateUnconfirmIdHeight tableHeight time txIdHeightInfos =>
    obtain ⟨r, -, rfl⟩ := Option.map_eq_some_iff.mp h
    exact receiverUnconfirmIdHeight_fileTxs tableHeight time txIdHeightInfos u
  | updatePeerConfirmId peerTableSid confirmId =>
    cases h
    rfl
  | refresh selfTableSid receiptidStateCache =>
    cases h
    simp only [refresh, Event.receiverOps]
    cases receiptidStateCache.getTableReceiptidState selfTableSid <;> rfl
  | getLackingSection maxLackingNum =>
    obtain ⟨⟨u'', found⟩, hl, rfl⟩ := Option.map_eq_some_iff.mp h
    exact (getLackingSection_tables hl).2

/-- A run does to each table what the calls its events make there do. -/
theorem tables_run {u u' : UnconfirmIdHeight} {es : List Event} (h : u.run es = some u') :
    u'.senderUnconfirmIdHeight = u.senderUnconfirmIdHeight.run (es.flatMap Event.senderOps) ∧
      u'.receiverUnconfirmIdHeight =
        u.receiverUnconfirmIdHeight.run (es.flatMap Event.receiverOps) := by
  induction es generalizing u with
  | nil =>
    cases h
    exact ⟨rfl, rfl⟩
  | cons e es ih =>
    obtain ⟨u₁, h₁, hrest⟩ := Option.bind_eq_some_iff.mp h
    obtain ⟨hs, hr⟩ := ih hrest
    rw [List.flatMap_cons, List.flatMap_cons, TableUnconfirmIdHeight.run_append,
      TableUnconfirmIdHeight.run_append, ← senderUnconfirmIdHeight_step h₁,
      ← receiverUnconfirmIdHeight_step h₁]
    exact ⟨hs, hr⟩

/-- The cache answers for each peer and receipt id what the calls its events made on
that peer's list say of it, as long as no confirm id among them is the sentinel. -/
theorem getTableHeightById_run {es : List Event} {u : UnconfirmIdHeight}
    (h : initial.run es = some u) (peer : UInt16) (r : UInt64)
    (hs : ListOp.updateConfirmId noConfirmId ∉ peerOps peer false (es.flatMap Event.senderOps))
    (hr : ListOp.updateConfirmId noConfirmId ∉ peerOps peer false (es.flatMap Event.receiverOps)) :
    u.getSenderTableHeightById peer r =
        unconfirmedHeight (peerOps peer false (es.flatMap Event.senderOps)) r ∧
      u.getReceiverTableHeightById peer r =
        unconfirmedHeight (peerOps peer false (es.flatMap Event.receiverOps)) r := by
  obtain ⟨hsend, hrecv⟩ := tables_run h
  constructor
  · rw [getSenderTableHeightById, hsend]
    exact TableUnconfirmIdHeight.getHeightById_empty_run _ peer r hs
  · rw [getReceiverTableHeightById, hrecv]
    exact TableUnconfirmIdHeight.getHeightById_empty_run _ peer r hr

/-- Table `1` sends ids `1` and `2` to table `3` in its blocks `10` and `11`, and receives
id `7` from table `5` in block `10`; then a refresh finds that table `3` confirmed id `1`,
and table `5` reports its confirm id `7`. -/
def sampleEvents : List Event :=
  [.updateUnconfirmIdHeight 10 100 [⟨.send, 3, 1⟩, ⟨.recv, 5, 7⟩],
    .updateUnconfirmIdHeight 11 101 [⟨.send, 3, 2⟩],
    .refresh 1 ⟨[(1, ⟨[(3, ⟨2, 1, 0⟩)]⟩)]⟩,
    .updatePeerConfirmId 5 7]

/-- After the sample run, only id `2` of table `3` is still waiting for its confirm. -/
example :
    (((initial.run sampleEvents).map fun u =>
      (u.getSenderTableHeightById 3 1, u.getSenderTableHeightById 3 2,
        u.getReceiverTableHeightById 5 7)) = some (none, some 11, none)) := by
  decide

theorem getTableHeightById_sampleEvents :
    (initial.run sampleEvents = some ((initial.run sampleEvents).getD initial) ∧
        ListOp.updateConfirmId noConfirmId ∉ peerOps 3 false (sampleEvents.flatMap Event.senderOps) ∧
        ListOp.updateConfirmId noConfirmId ∉
          peerOps 3 false (sampleEvents.flatMap Event.receiverOps)) ∧
      (((initial.run sampleEvents).getD initial).getSenderTableHeightById 3 2 =
          unconfirmedHeight (peerOps 3 false (sampleEvents.flatMap Event.senderOps)) 2 ∧
        ((initial.run sampleEvents).getD initial).getReceiverTableHeightById 3 2 =
          unconfirmedHeight (peerOps 3 false (sampleEvents.flatMap Event.receiverOps)) 2) :=
  ⟨⟨rfl, by decide, by decide⟩, getTableHeightById_run rfl 3 2 (by decide) (by decide)⟩

/-- Receipt id `r` for peer `peer` was filed at table height `height` by a transaction of
subtype `side` of some `update_unconfirm_id_height` call. -/
def Filed (es : List Event) (side : TxSubtype) (peer : UInt16) (r height : UInt64) : Prop :=
  ∃ time txIdHeightInfos, Event.updateUnconfirmIdHeight height time txIdHeightInfos ∈ es ∧
    (⟨side, peer, r⟩ : TxIdHeightInfo) ∈ txIdHeightInfos

theorem mem_of_mem_filterMap_fileOp {side : TxSubtype} {tableHeight time : UInt64}
    {txIdHeightInfos : List TxIdHeightInfo} {peer : UInt16} {r h t : UInt64}
    (hm : TableOp.addIdHeight peer r h t ∈
      txIdHeightInfos.filterMap (TxIdHeightInfo.fileOp side tableHeight time)) :
    h = tableHeight ∧ t = time ∧ (⟨side, peer, r⟩ : TxIdHeightInfo) ∈ txIdHeightInfos := by
  obtain ⟨txInfo, hi, hf⟩ := List.mem_filterMap.mp hm
  by_cases hs : txInfo.subtype = side
  · rw [TxIdHeightInfo.fileOp, if_pos hs, Option.some.injEq, TableOp.addIdHeight.injEq] at hf
    obtain ⟨rfl, rfl, rfl, rfl⟩ := hf
    refine ⟨rfl, rfl, ?_⟩
    rw [← hs]
    exact hi
  · rw [TxIdHeightInfo.fileOp, if_neg hs] at hf
    cases hf

/-- The sender table files only what sends filed. -/
theorem filed_of_mem_senderOps {es : List Event} {peer : UInt16} {r h t : UInt64}
    (hm : TableOp.addIdHeight peer r h t ∈ es.flatMap Event.senderOps) :
    Filed es .send peer r h := by
  obtain ⟨e, he, hm⟩ := List.mem_flatMap.mp hm
  cases e with
  | updateUnconfirmIdHeight tableHeight time txIdHeightInfos =>
    obtain ⟨rfl, rfl, hi⟩ := mem_of_mem_filterMap_fileOp hm
    exact ⟨t, txIdHeightInfos, he, hi⟩
  | refresh selfTableSid receiptidStateCache =>
    simp only [Event.senderOps] at hm
    split at hm <;> simp at hm
  | updatePeerConfirmId => simp [Event.senderOps] at hm
  | getLackingSection => simp [Event.senderOps] at hm

/-- The receiver table files only what receives filed. -/
theorem filed_of_mem_receiverOps {es : List Event} {peer : UInt16} {r h t : UInt64}
    (hm : TableOp.addIdHeight peer r h t ∈ es.flatMap Event.receiverOps) :
    Filed es .recv peer r h := by
  obtain ⟨e, he, hm⟩ := List.mem_flatMap.mp hm
  cases e with
  | updateUnconfirmIdHeight tableHeight time txIdHeightInfos =>
    obtain ⟨rfl, rfl, hi⟩ := mem_of_mem_filterMap_fileOp hm
    exact ⟨t, txIdHeightInfos, he, hi⟩
  | refresh => simp [Event.receiverOps] at hm
  | updatePeerConfirmId => simp [Event.receiverOps] at hm
  | getLackingSection => simp [Event.receiverOps] at hm

/-- Every height the cache answers for a peer and receipt id was filed for them at that
height: by a send for the sender table, by a receive for the receiver table. -/
theorem filed_of_getTableHeightById {es : List Event} {u : UnconfirmIdHeight}
    (h : initial.run es = some u) (peer : UInt16) (r height : UInt64) :
    (u.getSenderTableHeightById peer r = some height → Filed es .send peer r height) ∧
      (u.getReceiverTableHeightById peer r = some height → Filed es .recv peer r height) := by
  obtain ⟨hsend, hrecv⟩ := tables_run h
  constructor
  · intro hh
    rw [getSenderTableHeightById, hsend] at hh
    obtain ⟨t, ht⟩ := TableUnconfirmIdHeight.mem_of_getHeightById_empty_run hh
    exact filed_of_mem_senderOps ht
  · intro hh
    rw [getReceiverTableHeightById, hrecv] at hh
    obtain ⟨t, ht⟩ := TableUnconfirmIdHeight.mem_of_getHeightById_empty_run hh
    exact filed_of_mem_receiverOps ht

/-- Over a run, `get_lacking_section` answers `false` exactly when, in both tables, the
calls made on each peer's list say it holds every id it waits for. -/
theorem getLackingSection_run_snd_eq_none_iff {es : List Event} {u : UnconfirmIdHeight}
    (h : initial.run es = some u) (maxLackingNum : UInt16)
    (hs : ∀ sid ∈ touchedSids (es.flatMap Event.senderOps),
      ListOp.updateConfirmId noConfirmId ∉ peerOps sid false (es.flatMap Event.senderOps))
    (hr : ∀ sid ∈ touchedSids (es.flatMap Event.receiverOps),
      ListOp.updateConfirmId noConfirmId ∉ peerOps sid false (es.flatMap Event.receiverOps)) :
    (u.getLackingSection maxLackingNum).map Prod.snd = some none ↔
      (∀ sid ∈ touchedSids (es.flatMap Event.senderOps),
          Loaded (peerOps sid false (es.flatMap Event.senderOps))) ∧
        ∀ sid ∈ touchedSids (es.flatMap Event.receiverOps),
          Loaded (peerOps sid false (es.flatMap Event.receiverOps)) := by
  obtain ⟨hsend, hrecv⟩ := tables_run h
  rw [getLackingSection_snd_eq_none_iff, hsend, hrecv]
  exact and_congr (TableUnconfirmIdHeight.isAllUnconfirmIdRecovered_empty_run _ hs)
    (TableUnconfirmIdHeight.isAllUnconfirmIdRecovered_empty_run _ hr)

theorem getLackingSection_run_sampleEvents :
    (initial.run sampleEvents = some ((initial.run sampleEvents).getD initial) ∧
        (∀ sid ∈ touchedSids (sampleEvents.flatMap Event.senderOps),
          ListOp.updateConfirmId noConfirmId ∉
            peerOps sid false (sampleEvents.flatMap Event.senderOps)) ∧
        ∀ sid ∈ touchedSids (sampleEvents.flatMap Event.receiverOps),
          ListOp.updateConfirmId noConfirmId ∉
            peerOps sid false (sampleEvents.flatMap Event.receiverOps)) ∧
      ((((initial.run sampleEvents).getD initial).getLackingSection 16).map Prod.snd = some none ↔
        (∀ sid ∈ touchedSids (sampleEvents.flatMap Event.senderOps),
            Loaded (peerOps sid false (sampleEvents.flatMap Event.senderOps))) ∧
          ∀ sid ∈ touchedSids (sampleEvents.flatMap Event.receiverOps),
            Loaded (peerOps sid false (sampleEvents.flatMap Event.receiverOps))) := by
  -- the sample names peer `3` in the sender table and peer `5` in the receiver table
  have hs : ∀ sid ∈ touchedSids (sampleEvents.flatMap Event.senderOps),
      ListOp.updateConfirmId noConfirmId ∉ peerOps sid false (sampleEvents.flatMap Event.senderOps) := by
    rw [show touchedSids (sampleEvents.flatMap Event.senderOps) = [3, 3] by decide]
    simp only [List.forall_mem_cons, List.not_mem_nil, IsEmpty.forall_iff, implies_true, and_true,
      and_self]
    decide
  have hr : ∀ sid ∈ touchedSids (sampleEvents.flatMap Event.receiverOps),
      ListOp.updateConfirmId noConfirmId ∉
        peerOps sid false (sampleEvents.flatMap Event.receiverOps) := by
    rw [show touchedSids (sampleEvents.flatMap Event.receiverOps) = [5, 5] by decide]
    simp only [List.forall_mem_cons, List.not_mem_nil, IsEmpty.forall_iff, implies_true, and_true,
      and_self]
    decide
  exact ⟨⟨rfl, hs, hr⟩, getLackingSection_run_snd_eq_none_iff rfl 16 hs hr⟩

theorem filed_of_getTableHeightById_sampleEvents :
    initial.run sampleEvents = some ((initial.run sampleEvents).getD initial) ∧
      ((((initial.run sampleEvents).getD initial).getSenderTableHeightById 3 2 = some 11 →
          Filed sampleEvents .send 3 2 11) ∧
        (((initial.run sampleEvents).getD initial).getReceiverTableHeightById 3 2 = some 11 →
          Filed sampleEvents .recv 3 2 11)) :=
  ⟨rfl, filed_of_getTableHeightById rfl 3 2 11⟩

end UnconfirmIdHeight

end Receipts

end TopChain

import Mathlib.Data.Nat.Bitwise
import Mathlib.Data.List.Range

/-!
# Books, groups and the router

A TOP network splits its 128 books (`enum_vbucket_has_books_count`) among its zones,
each zone's books among its clusters, each cluster's among its auditor groups, and
each auditor group's among the validator groups that follow it.  Two sides of the code
read this split.  `xtop_router::do_address_of_book_id` maps a book down to the
sharding address that handles it, one level after the other (`mapping_to_*` of
`xbook_id_mapping.cpp`); `xvnetwork_driver_t::table_ids` maps a node's address up to
the books it serves (`book_ids_belonging_to_*`).  Both cut a range into `count`
blocks of `(second - first) / count` books and cut the last block at the range's
end.  The router accepts a book equal to the end of its range, and a book past the
last whole block gets the offset `count`: with three auditor groups over the 128
books, book `127` is routed to auditor group `4` and validator group `67`, and
neither exists (`doAddressOfBookId_past_last_group`).

When each level's count divides the books it splits, one zone holds them all (zone
ids `1` and `2` are the committee and zec zones, whose book range is everything), and
the validator group ids stay below their end `127`, the two sides agree
(`doAddressOfBookId_served`): the book is served by the auditor group and by the
validator group the router picks for it, and the validator group is one of those
that follow the auditor group.

Book ids and range bounds are natural numbers: every value the router and the driver
compute stays below `2 ^ 16`, so the `uint16_t` casts of the source are dropped.
Ids are `uint8_t` values and their casts are kept (`castIdValue`); a default
constructed id holds the largest value of its type, which is its broadcast value.
Both sides divide by a count, or by a per-block book count, that a configuration can
make zero; that is undefined in the source and `0` here, and the results assume
configurations where it does not happen.

## Main definitions

* `mappingTo` — the shape of `mapping_to_zone`, `mapping_to_cluster` and
  `mapping_to_auditor_group`; `mappingToValidatorGroup`.
* `bookIdsBelongingTo` — the shape of `book_ids_belonging_to_*`.
* `Config.doAddressOfBookId`, `Config.doAddressOfTableId` — the router.
* `Config.auditorTableIds`, `Config.validatorTableIds` — the driver's books.
* `Config.Routed` — the two sides agree on a book.

## Main results

* `Split.mappingTo_eq`, `mappingToValidatorGroup_eq` — the router's levels over a
  range cut into whole blocks.
* `Split.bookIdsBelongingTo_eq`, `bookIdsBelongingToValidatorGroup_eq` — the
  driver's levels over the same blocks.
* `Config.routed_of_lt`, `Config.doAddressOfBookId_served` — on a configuration of
  whole blocks every book, and every table's book, is routed to groups that exist and
  serve it.
-/

namespace TopChain

namespace Routing

/-! ### Ids and constants -/

/-- `enum_vbucket_has_books_count`. -/
def enumVbucketHasBooksCount : ℕ := 128

/-- `enum_vbucket_has_books_count_mask`. -/
def enumVbucketHasBooksCountMask : ℕ := 127

/-- `xbroadcast_zone_id_value`, also the value of `xzone_id_t{}`. -/
def broadcastZoneIdValue : ℕ := 0x7F

/-- `xbroadcast_cluster_id_value`, also the value of `xcluster_id_t{}`. -/
def broadcastClusterIdValue : ℕ := 0x7F

/-- `xbroadcast_group_id_value`, also the value of `xgroup_id_t{}`. -/
def broadcastGroupIdValue : ℕ := 0xFF

/-- `xdefault_zone_id_value`, the consensus zone. -/
def defaultZoneIdValue : ℕ := 0

/-- `xcommittee_zone_id_value` (`enum_chain_zone_beacon_index`). -/
def committeeZoneIdValue : ℕ := 1

/-- `xzec_zone_id_value` (`enum_chain_zone_zec_index`). -/
def zecZoneIdValue : ℕ := 2

/-- `xedge_zone_id_value` (`enum_chain_zone_edge_index`). -/
def edgeZoneIdValue : ℕ := 15

/-- `xdefault_cluster_id_value`. -/
def defaultClusterIdValue : ℕ := 1

/-- `xauditor_group_id_value_begin`. -/
def auditorGroupIdValueBegin : ℕ := 1

/-- `xauditor_group_id_value_end`. -/
def auditorGroupIdValueEnd : ℕ := 64

/-- `xvalidator_group_id_value_begin`. -/
def validatorGroupIdValueBegin : ℕ := 64

/-- `xvalidator_group_id_value_end`. -/
def validatorGroupIdValueEnd : ℕ := 127

/-- `static_cast<value_type>` of a zone, cluster or group id, all `uint8_t`. -/
def castIdValue (n : ℕ) : ℕ := n % 256

/-- `broadcast(id)` for an id type whose broadcast value is `broadcastValue`: the
bits of the broadcast value are all set in `id`. -/
def broadcast (broadcastValue id : ℕ) : Bool := (id &&& broadcastValue) == broadcastValue

/-! ### From a book to its groups -/

/-- The `offset`-th block of `perCount` books from `first`, its end cut at `last`: the
range every function here answers. -/
def blockRange (offset perCount first last : ℕ) : ℕ × ℕ :=
  let begin := offset * perCount + first
  (begin, if begin + perCount > last then last else begin + perCount)

/-- The shape of `mapping_to_zone`, `mapping_to_cluster` and
`mapping_to_auditor_group`: cut the closed range `bookRange` into `count` blocks and
answer the block of `bookId` with the id `offset + idBase`; a book outside the range
gets the null id `nullId` and the range `(0, 0)`. -/
def mappingTo (nullId idBase bookId count : ℕ) (bookRange : ℕ × ℕ) : ℕ × (ℕ × ℕ) :=
  if bookRange.1 > bookId ∨ bookRange.2 < bookId then (nullId, (0, 0))
  else
    let bookCountPerBlock := (bookRange.2 - bookRange.1) / count
    let offset := (bookId - bookRange.1) / bookCountPerBlock
    (castIdValue (offset + idBase), blockRange offset bookCountPerBlock bookRange.1 bookRange.2)

/-- `mapping_to_zone`. -/
def mappingToZone (bookId zoneCount : ℕ) (bookRange : ℕ × ℕ) : ℕ × (ℕ × ℕ) :=
  mappingTo broadcastZoneIdValue 0 bookId zoneCount bookRange

/-- `mapping_to_cluster`. -/
def mappingToCluster (bookId clusterCount : ℕ) (bookRange : ℕ × ℕ) : ℕ × (ℕ × ℕ) :=
  mappingTo broadcastClusterIdValue 1 bookId clusterCount bookRange

/-- `mapping_to_auditor_group`. -/
def mappingToAuditorGroup (bookId auditorGroupCount : ℕ) (bookRange : ℕ × ℕ) :
    ℕ × (ℕ × ℕ) :=
  mappingTo broadcastGroupIdValue auditorGroupIdValueBegin bookId auditorGroupCount bookRange

/-- `mapping_to_validator_group`: the block of `bookId` in its auditor group's block,
cut into `validatorGroupCount / auditorGroupCount` blocks, with its end cut at the end
of `bookRange` rather than of the auditor group's block.  (The source's asserts on the
auditor group's block are left out.) -/
def mappingToValidatorGroup (bookId auditorGroupCount validatorGroupCount : ℕ)
    (bookRange : ℕ × ℕ) : ℕ × (ℕ × ℕ) :=
  if bookRange.1 > bookId ∨ bookRange.2 < bookId then (broadcastGroupIdValue, (0, 0))
  else
    let validatorGroupCountPerAuditorGroup := validatorGroupCount / auditorGroupCount
    let advanceGroupInfo := mappingToAuditorGroup bookId auditorGroupCount bookRange
    let newBookRange := advanceGroupInfo.2
    let bookCountPerConsensusGroup :=
      (newBookRange.2 - newBookRange.1) / validatorGroupCountPerAuditorGroup
    let consensusGroupIdOffset := (bookId - newBookRange.1) / bookCountPerConsensusGroup
    let advanceGroupIdOffset := advanceGroupInfo.1 - auditorGroupIdValueBegin
    (castIdValue (consensusGroupIdOffset +
        advanceGroupIdOffset * validatorGroupCountPerAuditorGroup + validatorGroupIdValueBegin),
      blockRange consensusGroupIdOffset bookCountPerConsensusGroup newBookRange.1 bookRange.2)

/-! ### From a group to its books -/

/-- The shape of `book_ids_belonging_to_cluster`, `book_ids_belonging_to_auditor_group`
and the consensus zones' case of `book_ids_belonging_to_zone`: nothing for an id the
level rejects, else the `offset`-th of `count` blocks of `bookRange`. -/
def bookIdsBelongingTo (rejected : Bool) (offset count : ℕ) (bookRange : ℕ × ℕ) : ℕ × ℕ :=
  if rejected then (0, 0)
  else blockRange offset ((bookRange.2 - bookRange.1) / count) bookRange.1 bookRange.2

/-- `book_ids_belonging_to_zone`: nothing for the edge zone, everything for the
committee and zec zones. -/
def bookIdsBelongingToZone (zid zoneCount : ℕ) (bookRange : ℕ × ℕ) : ℕ × ℕ :=
  if zid = edgeZoneIdValue then (0, 0)
  else if zid = committeeZoneIdValue ∨ zid = zecZoneIdValue then bookRange
  else bookIdsBelongingTo false (zid - defaultZoneIdValue) zoneCount bookRange

/-- `book_ids_belonging_to_cluster`. -/
def bookIdsBelongingToCluster (cid clusterCount : ℕ) (bookRange : ℕ × ℕ) : ℕ × ℕ :=
  bookIdsBelongingTo (broadcast broadcastClusterIdValue cid) (cid - defaultClusterIdValue)
    clusterCount bookRange

/-- `book_ids_belonging_to_auditor_group`. -/
def bookIdsBelongingToAuditorGroup (auditorGid auditorGroupCount : ℕ) (bookRange : ℕ × ℕ) :
    ℕ × ℕ :=
  bookIdsBelongingTo
    (broadcast broadcastGroupIdValue auditorGid || decide (auditorGid < auditorGroupIdValueBegin) ||
      decide (auditorGroupIdValueEnd ≤ auditorGid))
    (auditorGid - auditorGroupIdValueBegin) auditorGroupCount bookRange

/-- `book_ids_belonging_to_validator_group`: the block of the validator group in the
block of its parent auditor group, its end cut at the end of `bookRange`. -/
def bookIdsBelongingToValidatorGroup
    (parentAdvanceGroupId consensusGroupId auditorGroupCount validatorGroupCount : ℕ)
    (bookRange : ℕ × ℕ) : ℕ × ℕ :=
  if broadcast broadcastGroupIdValue parentAdvanceGroupId ||
      broadcast broadcastGroupIdValue consensusGroupId ||
      decide (consensusGroupId < validatorGroupIdValueBegin) ||
      decide (validatorGroupIdValueEnd ≤ consensusGroupId) then (0, 0)
  else
    let advanceGroupRange :=
      bookIdsBelongingToAuditorGroup parentAdvanceGroupId auditorGroupCount bookRange
    if advanceGroupRange.2 = 0 then (0, 0)
    else
      let validatorGroupCountPerAuditorGroup := validatorGroupCount / auditorGroupCount
      let bookCountPerConsensusGroup :=
        (advanceGroupRange.2 - advanceGroupRange.1) / validatorGroupCountPerAuditorGroup
      let consensusGroupIdOffset :=
        (consensusGroupId - validatorGroupIdValueBegin) % validatorGroupCountPerAuditorGroup
      blockRange consensusGroupIdOffset bookCountPerConsensusGroup advanceGroupRange.1 bookRange.2

/-! ### The router and the driver -/

/-- The counts the router and the driver read from the configuration. -/
structure Config where
  zoneCount : ℕ
  clusterCount : ℕ
  auditorGroupCount : ℕ
  validatorGroupCount : ℕ
  deriving DecidableEq, Repr

/-- The node types the router is asked for. -/
inductive NodeType
  | consensusAuditor
  | consensusValidator
  deriving DecidableEq, Repr

/-- The zone, cluster and group of an `xsharding_address_t`; its network id passes
through the router unchanged. -/
structure ShardingAddress where
  zoneId : ℕ
  clusterId : ℕ
  groupId : ℕ
  deriving DecidableEq, Repr

/-- `xvaccount_t::get_book_index_from_subaddr`. -/
def getBookIndexFromSubaddr (subaddrOfZone : ℕ) : ℕ :=
  (subaddrOfZone >>> 3) &&& enumVbucketHasBooksCountMask

namespace Config

/-- `xtop_router::do_address_of_book_id`. -/
def doAddressOfBookId (cfg : Config) (bookId : ℕ) (type : NodeType) : ShardingAddress :=
  let zoneInfo := mappingToZone bookId cfg.zoneCount (0, enumVbucketHasBooksCount)
  let clusterInfo := mappingToCluster bookId cfg.clusterCount zoneInfo.2
  let auditorGroupInfo := mappingToAuditorGroup bookId cfg.auditorGroupCount clusterInfo.2
  let validatorGroupInfo := mappingToValidatorGroup bookId cfg.auditorGroupCount
    cfg.validatorGroupCount clusterInfo.2
  { zoneId := zoneInfo.1
    clusterId := clusterInfo.1
    groupId :=
      match type with
      | .consensusValidator => validatorGroupInfo.1
      | .consensusAuditor => auditorGroupInfo.1 }

/-- `xtop_router::do_address_of_table_id`: the body of `do_address_of_book_id` on the
table's book. -/
def doAddressOfTableId (cfg : Config) (tableId : ℕ) (type : NodeType) : ShardingAddress :=
  cfg.doAddressOfBookId (getBookIndexFromSubaddr tableId) type

/-- The cluster's books in `xvnetwork_driver_t::table_ids`, shared by its two
consensus cases. -/
def clusterRange (cfg : Config) (address : ShardingAddress) : ℕ × ℕ :=
  let zoneRange :=
    bookIdsBelongingToZone address.zoneId cfg.zoneCount (0, enumVbucketHasBooksCount)
  bookIdsBelongingToCluster address.clusterId cfg.clusterCount zoneRange

/-- The `consensus_auditor` case of `xvnetwork_driver_t::table_ids`. -/
def auditorTableIds (cfg : Config) (address : ShardingAddress) : List ℕ :=
  let advanceRange :=
    bookIdsBelongingToAuditorGroup address.groupId cfg.auditorGroupCount (cfg.clusterRange address)
  List.range' advanceRange.1 (advanceRange.2 - advanceRange.1)

/-- The `consensus_validator` case of `xvnetwork_driver_t::table_ids`, for a node whose
parent group address (`m_vhost->parent_group_address`) has the group `parentGroupId`. -/
def validatorTableIds (cfg : Config) (parentGroupId : ℕ) (address : ShardingAddress) :
    List ℕ :=
  let consensusRange := bookIdsBelongingToValidatorGroup parentGroupId address.groupId
    cfg.auditorGroupCount cfg.validatorGroupCount (cfg.clusterRange address)
  List.range' consensusRange.1 (consensusRange.2 - consensusRange.1)

/-- The router and the driver agree on book `b`, routed to `auditor` and to
`validator`: both groups exist, the validator group is one of those that follow the
auditor group, and each serves the book. -/
structure Routed (cfg : Config) (b : ℕ) (auditor validator : ShardingAddress) : Prop where
  zoneId_eq : validator.zoneId = auditor.zoneId
  clusterId_eq : validator.clusterId = auditor.clusterId
  auditor_ge : auditorGroupIdValueBegin ≤ auditor.groupId
  auditor_lt : auditor.groupId < auditorGroupIdValueBegin + cfg.auditorGroupCount
  validator_ge : validatorGroupIdValueBegin ≤ validator.groupId
  validator_lt : validator.groupId < validatorGroupIdValueBegin + cfg.validatorGroupCount
  parent_eq : (validator.groupId - validatorGroupIdValueBegin) /
      (cfg.validatorGroupCount / cfg.auditorGroupCount) = auditor.groupId - auditorGroupIdValueBegin
  auditor_serves : b ∈ cfg.auditorTableIds auditor
  validator_serves : b ∈ cfg.validatorTableIds auditor.groupId validator

/-- One zone, one cluster, and three auditor groups each followed by one validator
group. -/
def threeAuditorGroups : Config := ⟨1, 1, 3, 3⟩

/-- Three auditor groups, each followed by one validator group, over one zone and one
cluster: book `127`, the end of the cluster's range, is routed to auditor group `4`
and validator group `67`, past the groups `1` to `3` and `64` to `66` that exist. -/
theorem doAddressOfBookId_past_last_group :
    (threeAuditorGroups.doAddressOfBookId 127 .consensusAuditor).groupId = 4 ∧
      (threeAuditorGroups.doAddressOfBookId 127 .consensusValidator).groupId = 67 ∧
      ¬ threeAuditorGroups.Routed 127 (threeAuditorGroups.doAddressOfBookId 127 .consensusAuditor)
        (threeAuditorGroups.doAddressOfBookId 127 .consensusValidator) := by
  refine ⟨by decide, by decide, fun h => ?_⟩
  have hlt := h.auditor_lt
  revert hlt
  decide

end Config

/-! ### Ranges cut into whole blocks -/

theorem castIdValue_of_lt {n : ℕ} (h : n < 256) : castIdValue n = n :=
  Nat.mod_eq_of_lt h

/-- An id below an `n`-bit broadcast value is not a broadcast id. -/
theorem broadcast_eq_false_of_lt {n id : ℕ} (hid : id < 2 ^ n - 1) :
    broadcast (2 ^ n - 1) id = false := by
  unfold broadcast
  rw [Nat.and_two_pow_sub_one_eq_mod, Nat.mod_eq_of_lt (by omega)]
  simp only [beq_eq_false_iff_ne, ne_eq]
  omega

theorem blockRange_of_le {offset perCount first last : ℕ}
    (h : offset * perCount + first + perCount ≤ last) :
    blockRange offset perCount first last =
      (offset * perCount + first, offset * perCount + first + perCount) := by
  simp only [blockRange]
  rw [if_neg (by omega)]

/-- A book lies in the block of `per` books its offset names. -/
theorem mem_block {per : ℕ} (hper : 0 < per) {first b : ℕ} (hb : first ≤ b) :
    (b - first) / per * per + first ≤ b ∧ b < (b - first) / per * per + first + per := by
  have hle := Nat.div_mul_le_self (b - first) per
  have hlt := Nat.lt_div_mul_add (a := b - first) hper
  omega

/-- `count` blocks of `per` books fill `[first, last)`: a range that cutting into
`count` blocks never cuts short. -/
structure Split (count per first last : ℕ) : Prop where
  per_pos : 0 < per
  fill : first + count * per = last

namespace Split

variable {count per first last : ℕ}

theorem count_pos (h : Split count per first last) {b : ℕ} (hfirst : first ≤ b)
    (hb : b < last) : 0 < count := by
  rcases Nat.eq_zero_or_pos count with h0 | h0
  · have hfill := h.fill
    rw [h0, Nat.zero_mul] at hfill
    omega
  · exact h0

theorem perCount_eq (h : Split count per first last) (hcount : 0 < count) :
    (last - first) / count = per := by
  rw [← h.fill, Nat.add_sub_cancel_left, Nat.mul_div_cancel_left _ hcount]

theorem offset_lt (h : Split count per first last) {b : ℕ} (hfirst : first ≤ b)
    (hb : b < last) :
    (b - first) / per < count := by
  rw [Nat.div_lt_iff_lt_mul h.per_pos]
  have hfill := h.fill
  omega

/-- A block of the split ends within the range: it is never cut. -/
theorem block_le (h : Split count per first last) {o : ℕ} (ho : o < count) :
    o * per + first + per ≤ last := by
  have hle : (o + 1) * per ≤ count * per := Nat.mul_le_mul_right per ho
  have hfill := h.fill
  rw [Nat.succ_mul] at hle
  omega

/-- One level of the split, as the router and the driver read it: the router answers
the block of `b` with the id of its offset `o`, and the driver answers the same block
for that offset. -/
theorem mappingTo_block (h : Split count per first last) (nullId idBase : ℕ) {b : ℕ}
    (hfirst : first ≤ b) (hb : b < last) :
    ∃ o < count,
      mappingTo nullId idBase b count (first, last) =
        (castIdValue (o + idBase), (o * per + first, o * per + first + per)) ∧
      bookIdsBelongingTo false o count (first, last) = (o * per + first, o * per + first + per) ∧
      o * per + first ≤ b ∧ b < o * per + first + per := by
  have ho := h.offset_lt hfirst hb
  have hcount := h.perCount_eq (h.count_pos hfirst hb)
  refine ⟨(b - first) / per, ho, ?_, ?_, mem_block h.per_pos hfirst⟩
  · simp only [mappingTo]
    rw [if_neg (by omega), hcount, blockRange_of_le (h.block_le ho)]
  · simp only [bookIdsBelongingTo, Bool.false_eq_true, if_false]
    rw [hcount, blockRange_of_le (h.block_le ho)]

end Split

theorem bookIdsBelongingToCluster_succ {o clusterCount : ℕ} (bookRange : ℕ × ℕ)
    (h : o + 1 < broadcastClusterIdValue) :
    bookIdsBelongingToCluster (o + 1) clusterCount bookRange =
      bookIdsBelongingTo false o clusterCount bookRange := by
  have hcast : broadcast broadcastClusterIdValue (o + 1) = false :=
    broadcast_eq_false_of_lt (n := 7) h
  simp only [bookIdsBelongingToCluster, hcast, defaultClusterIdValue, Nat.add_sub_cancel]

theorem bookIdsBelongingToAuditorGroup_add {o auditorGroupCount : ℕ} (bookRange : ℕ × ℕ)
    (h : o + auditorGroupIdValueBegin < auditorGroupIdValueEnd) :
    bookIdsBelongingToAuditorGroup (o + auditorGroupIdValueBegin) auditorGroupCount bookRange =
      bookIdsBelongingTo false o auditorGroupCount bookRange := by
  have hcast : broadcast broadcastGroupIdValue (o + auditorGroupIdValueBegin) = false :=
    broadcast_eq_false_of_lt (n := 8) (by simp only [auditorGroupIdValueEnd] at h; omega)
  simp only [bookIdsBelongingToAuditorGroup, hcast, Nat.add_sub_cancel, Bool.false_or]
  simp only [auditorGroupIdValueBegin, auditorGroupIdValueEnd] at h ⊢
  have hbegin : ¬ o + 1 < 1 := by omega
  have hend : ¬ 64 ≤ o + 1 := by omega
  simp only [hbegin, hend, decide_false, Bool.or_self]

/-- The validator level, over the block `[lo, hi)` that both sides give the auditor
group `advanceGroupId`: the router answers the block of `b` in it, and the driver
answers the same block for the validator group id the router answers. -/
theorem mappingToValidatorGroup_block {b auditorGroupCount validatorGroupCount advanceGroupId
      lo hi per first last : ℕ}
    (hadvance : mappingToAuditorGroup b auditorGroupCount (first, last) = (advanceGroupId, (lo, hi)))
    (hserved : bookIdsBelongingToAuditorGroup advanceGroupId auditorGroupCount (first, last) =
      (lo, hi))
    (h : Split (validatorGroupCount / auditorGroupCount) per lo hi) (hhi : hi ≤ last)
    (hfirst : first ≤ b) (hlo : lo ≤ b) (hb : b < hi)
    (hparent : broadcast broadcastGroupIdValue advanceGroupId = false)
    (hend : (advanceGroupId - auditorGroupIdValueBegin + 1) *
        (validatorGroupCount / auditorGroupCount) + validatorGroupIdValueBegin ≤
      validatorGroupIdValueEnd) :
    ∃ o < validatorGroupCount / auditorGroupCount,
      let groupId := o + (advanceGroupId - auditorGroupIdValueBegin) *
        (validatorGroupCount / auditorGroupCount) + validatorGroupIdValueBegin
      mappingToValidatorGroup b auditorGroupCount validatorGroupCount (first, last) =
        (castIdValue groupId, (o * per + lo, o * per + lo + per)) ∧
      bookIdsBelongingToValidatorGroup advanceGroupId groupId auditorGroupCount
          validatorGroupCount (first, last) = (o * per + lo, o * per + lo + per) ∧
      o * per + lo ≤ b ∧ b < o * per + lo + per := by
  obtain ⟨k, hk⟩ : ∃ k, validatorGroupCount / auditorGroupCount = k := ⟨_, rfl⟩
  obtain ⟨a, ha⟩ : ∃ a, advanceGroupId - auditorGroupIdValueBegin = a := ⟨_, rfl⟩
  rw [hk] at h ⊢
  rw [ha, hk] at hend
  rw [ha]
  have ho := h.offset_lt hlo hb
  have hcount := h.perCount_eq (h.count_pos hlo hb)
  have hblock := h.block_le ho
  -- the validator group id stays below the end of the validator ids
  have hid : (b - lo) / per + a * k < (a + 1) * k := by
    rw [Nat.succ_mul]
    omega
  simp only [validatorGroupIdValueBegin, validatorGroupIdValueEnd] at hend ⊢
  refine ⟨(b - lo) / per, ho, ?_, ?_, mem_block h.per_pos hlo⟩
  · simp only [mappingToValidatorGroup, hadvance, ha, hk, validatorGroupIdValueBegin]
    rw [if_neg (by omega), hcount, blockRange_of_le (by omega)]
  · have hcast : broadcast broadcastGroupIdValue ((b - lo) / per + a * k + 64) = false :=
      broadcast_eq_false_of_lt (n := 8) (by omega)
    have hge : ¬ (b - lo) / per + a * k + 64 < 64 := Nat.not_lt.mpr (Nat.le_add_left _ _)
    have hlt : ¬ 127 ≤ (b - lo) / per + a * k + 64 := by omega
    simp only [bookIdsBelongingToValidatorGroup, hparent, hcast, hserved, hk, hge, hlt,
      validatorGroupIdValueBegin, validatorGroupIdValueEnd, decide_false, Bool.or_self,
      Bool.false_eq_true, if_false]
    rw [if_neg (by omega), hcount, Nat.add_sub_cancel, Nat.add_mul_mod_self_right,
      Nat.mod_eq_of_lt ho, blockRange_of_le (by omega)]

theorem getBookIndexFromSubaddr_lt (subaddrOfZone : ℕ) :
    getBookIndexFromSubaddr subaddrOfZone < enumVbucketHasBooksCount := by
  have hle : getBookIndexFromSubaddr subaddrOfZone ≤ 127 := Nat.and_le_right
  simp only [enumVbucketHasBooksCount]
  omega

/-- With one zone, every book is in zone `0`, which holds all the books. -/
theorem mappingToZone_one {b : ℕ} (hb : b < enumVbucketHasBooksCount) :
    mappingToZone b 1 (0, enumVbucketHasBooksCount) = (0, (0, enumVbucketHasBooksCount)) := by
  obtain ⟨o, ho, hmap, -⟩ := (⟨by decide, rfl⟩ : Split 1 128 0 128).mappingTo_block
    broadcastZoneIdValue 0 (Nat.zero_le b) hb
  simp only [mappingToZone, enumVbucketHasBooksCount]
  rw [hmap, Nat.lt_one_iff.mp ho]
  rfl

namespace Config

/-- With one zone, the driver gives cluster `c + 1` of zone `0` the `c`-th block of
the books. -/
theorem clusterRange_zero_succ (cfg : Config) (hZ : cfg.zoneCount = 1) {c : ℕ}
    (hc : c + 1 < broadcastClusterIdValue) (groupId : ℕ) :
    cfg.clusterRange ⟨0, c + 1, groupId⟩ =
      bookIdsBelongingTo false c cfg.clusterCount (0, enumVbucketHasBooksCount) := by
  have hzone : bookIdsBelongingToZone 0 1 (0, enumVbucketHasBooksCount) =
      (0, enumVbucketHasBooksCount) := by
    decide
  simp only [clusterRange, hZ, hzone]
  exact bookIdsBelongingToCluster_succ _ hc

/-- On a configuration of one zone whose every level is cut into whole blocks, with
the validator group ids below their end, every book is routed to an auditor group
and a validator group that exist and serve it. -/
theorem routed_of_lt (cfg : Config) (hZ : cfg.zoneCount = 1) (hC : cfg.clusterCount ≤ 64)
    (hV : 0 < cfg.validatorGroupCount) (hV63 : cfg.validatorGroupCount ≤ 63)
    (hAV : cfg.auditorGroupCount ∣ cfg.validatorGroupCount)
    (hCV : cfg.clusterCount * cfg.validatorGroupCount ∣ enumVbucketHasBooksCount)
    {b : ℕ} (hb : b < enumVbucketHasBooksCount) :
    cfg.Routed b (cfg.doAddressOfBookId b .consensusAuditor)
      (cfg.doAddressOfBookId b .consensusValidator) := by
  obtain ⟨Z, C, A, V⟩ := cfg
  simp only at hZ hC hV hV63 hAV hCV
  subst hZ
  -- `k` validator groups follow each auditor group, and each has `R` books
  obtain ⟨k, rfl⟩ := hAV
  obtain ⟨R, hR⟩ := hCV
  simp only [enumVbucketHasBooksCount] at hb hR
  have hA : 0 < A := Nat.pos_of_ne_zero (by rintro rfl; simp at hV)
  have hk : 0 < k := Nat.pos_of_ne_zero (by rintro rfl; simp at hV)
  have hRpos : 0 < R := Nat.pos_of_ne_zero (by rintro rfl; simp at hR)
  have hkA : A * k / A = k := Nat.mul_div_cancel_left k hA
  -- the zone holds all the books
  have hzone : mappingToZone b 1 (0, 128) = (0, (0, 128)) := mappingToZone_one hb
  -- the cluster `c + 1`, its auditor group `a + 1` and validator group `o + a * k + 64`
  have sC : Split C (A * (k * R)) 0 128 :=
    ⟨Nat.mul_pos hA (Nat.mul_pos hk hRpos), by rw [hR]; simp only [Nat.zero_add, Nat.mul_assoc]⟩
  obtain ⟨c, hcC, hcmap, hcserve, hc1, hc2⟩ :=
    sC.mappingTo_block broadcastClusterIdValue 1 (Nat.zero_le b) hb
  have sA : Split A (k * R) (c * (A * (k * R)) + 0) (c * (A * (k * R)) + 0 + A * (k * R)) :=
    ⟨Nat.mul_pos hk hRpos, rfl⟩
  obtain ⟨a, haA, hamap, haserve, ha1, ha2⟩ :=
    sA.mappingTo_block broadcastGroupIdValue auditorGroupIdValueBegin hc1 hc2
  have hak : (a + 1) * k ≤ A * k := Nat.mul_le_mul_right k haA
  have hAk : A * k ≤ 63 := hV63
  have hA63 : A ≤ 63 := (Nat.le_mul_of_pos_right A hk).trans hAk
  have hcast : castIdValue (a + auditorGroupIdValueBegin) = a + 1 :=
    castIdValue_of_lt (show a + 1 < 256 by omega)
  rw [hcast] at hamap
  have haserve' : bookIdsBelongingToAuditorGroup (a + 1) A
      (c * (A * (k * R)) + 0, c * (A * (k * R)) + 0 + A * (k * R)) =
        (a * (k * R) + (c * (A * (k * R)) + 0), a * (k * R) + (c * (A * (k * R)) + 0) + k * R) :=
    (bookIdsBelongingToAuditorGroup_add _ (show a + 1 < 64 by omega)).trans haserve
  have sV : Split (A * k / A) R (a * (k * R) + (c * (A * (k * R)) + 0))
      (a * (k * R) + (c * (A * (k * R)) + 0) + k * R) := ⟨hRpos, by rw [hkA]⟩
  obtain ⟨o, hok, hvmap, hvserve, hv1, hv2⟩ := mappingToValidatorGroup_block hamap haserve' sV
    (sA.block_le haA) (by omega) ha1 ha2 (broadcast_eq_false_of_lt (n := 8) (show a + 1 < 255 by omega))
    (by simp only [auditorGroupIdValueBegin, validatorGroupIdValueBegin,
      validatorGroupIdValueEnd, Nat.add_sub_cancel, hkA]; omega)
  simp only [hkA, auditorGroupIdValueBegin, Nat.add_sub_cancel] at hok hvmap hvserve
  have hid : o + a * k < A * k := by
    rw [Nat.succ_mul] at hak
    omega
  have hvcast : castIdValue (o + a * k + validatorGroupIdValueBegin) =
      o + a * k + validatorGroupIdValueBegin :=
    castIdValue_of_lt (by simp only [validatorGroupIdValueBegin]; omega)
  rw [hvcast] at hvmap
  -- the router's answers and the driver's ranges
  have hclusterRange (groupId : ℕ) :
      clusterRange ⟨1, C, A, A * k⟩ ⟨0, c + 1, groupId⟩ =
        (c * (A * (k * R)) + 0, c * (A * (k * R)) + 0 + A * (k * R)) :=
    (clusterRange_zero_succ ⟨1, C, A, A * k⟩ rfl
      (by simp only [broadcastClusterIdValue]; omega) groupId).trans hcserve
  have haud : doAddressOfBookId ⟨1, C, A, A * k⟩ b .consensusAuditor = ⟨0, c + 1, a + 1⟩ := by
    simp only [doAddressOfBookId, enumVbucketHasBooksCount, hzone, mappingToCluster, hcmap,
      castIdValue_of_lt (show c + 1 < 256 by omega), mappingToAuditorGroup, hamap]
  have hval : doAddressOfBookId ⟨1, C, A, A * k⟩ b .consensusValidator =
      ⟨0, c + 1, o + a * k + validatorGroupIdValueBegin⟩ := by
    simp only [doAddressOfBookId, enumVbucketHasBooksCount, hzone, mappingToCluster, hcmap,
      castIdValue_of_lt (show c + 1 < 256 by omega), hvmap]
  rw [haud, hval]
  simp only [validatorGroupIdValueBegin] at hvserve
  refine ⟨rfl, rfl, ?_, ?_, ?_, ?_, ?_, ?_, ?_⟩
  · show 1 ≤ a + 1
    omega
  · show a + 1 < 1 + A
    omega
  · show 64 ≤ o + a * k + 64
    omega
  · show o + a * k + 64 < 64 + A * k
    omega
  · show (o + a * k + 64 - 64) / (A * k / A) = a + 1 - 1
    rw [hkA, Nat.add_sub_cancel, Nat.add_sub_cancel, Nat.add_mul_div_right _ _ hk,
      Nat.div_eq_of_lt hok, Nat.zero_add]
  · simp only [auditorTableIds, hclusterRange, haserve', List.mem_range'_1]
    omega
  · simp only [validatorTableIds, hclusterRange, validatorGroupIdValueBegin, hvserve,
      List.mem_range'_1]
    omega

/-- One zone, `C` clusters, `A` auditor groups and `V` validator groups, with `A`
dividing `V`, `C * V` dividing the 128 books, at most 64 clusters and at most 63
validator groups: every book, and the book of every table, is routed to an auditor
group and a validator group that exist and serve it. -/
theorem doAddressOfBookId_served (cfg : Config) (hZ : cfg.zoneCount = 1)
    (hC : cfg.clusterCount ≤ 64) (hV : 0 < cfg.validatorGroupCount)
    (hV63 : cfg.validatorGroupCount ≤ 63)
    (hAV : cfg.auditorGroupCount ∣ cfg.validatorGroupCount)
    (hCV : cfg.clusterCount * cfg.validatorGroupCount ∣ enumVbucketHasBooksCount) :
    (∀ b < enumVbucketHasBooksCount, cfg.Routed b (cfg.doAddressOfBookId b .consensusAuditor)
        (cfg.doAddressOfBookId b .consensusValidator)) ∧
      ∀ t < 1024, cfg.Routed (getBookIndexFromSubaddr t)
        (cfg.doAddressOfTableId t .consensusAuditor) (cfg.doAddressOfTableId t .consensusValidator) := by
  constructor
  · intro b hb
    exact cfg.routed_of_lt hZ hC hV hV63 hAV hCV hb
  · intro t _
    exact cfg.routed_of_lt hZ hC hV hV63 hAV hCV (getBookIndexFromSubaddr_lt t)

/-- Two clusters of two auditor groups, each followed by two validator groups. -/
def twoClusters : Config := ⟨1, 2, 2, 4⟩

theorem doAddressOfBookId_served_two_clusters :
    (twoClusters.zoneCount = 1 ∧ twoClusters.clusterCount ≤ 64 ∧
      0 < twoClusters.validatorGroupCount ∧ twoClusters.validatorGroupCount ≤ 63 ∧
      twoClusters.auditorGroupCount ∣ twoClusters.validatorGroupCount ∧
      twoClusters.clusterCount * twoClusters.validatorGroupCount ∣ enumVbucketHasBooksCount) ∧
    (∀ b < enumVbucketHasBooksCount,
      twoClusters.Routed b (twoClusters.doAddressOfBookId b .consensusAuditor)
        (twoClusters.doAddressOfBookId b .consensusValidator)) ∧
      ∀ t < 1024, twoClusters.Routed (getBookIndexFromSubaddr t)
        (twoClusters.doAddressOfTableId t .consensusAuditor)
        (twoClusters.doAddressOfTableId t .consensusValidator) :=
  ⟨⟨rfl, by decide, by decide, by decide, by decide, by decide⟩,
    doAddressOfBookId_served twoClusters rfl (by decide) (by decide) (by decide) (by decide)
      (by decide)⟩

end Config

end Routing

end TopChain

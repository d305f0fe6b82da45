import TopChain.Lib.PairTree
import TopChain.Lib.CInt
import Mathlib.Logic.Equiv.List

/-!
# The Merkle tree of `xmerkle_t`

`xmerkle_t<_Th, _Tv>` (`xvledger/xmerkle.hpp`) builds a binary hash tree over a
list of leaf strings.  Leaves are hashed once; each further level hashes
neighbouring pairs as `H(left ‖ right)` and promotes an odd last node by hashing it
alone, `H(x)`, rather than duplicating it.  A path records, level by level, the
sibling needed to climb one step, with the level number and the side (`pos` 1:
left sibling, 2: right sibling).  Only the first level on which the node itself is
the odd one gets a record (`pos` 0, carrying the node itself); later odd levels are
skipped, and `validate_path` re-inserts their single hashes from the gaps between
recorded levels (`hash_multi_times`).

Strings are lists over an alphabet `α`.  The hash `_Th` and the digest type `_Tv`
live in `xbase`, outside this repository, so they are a parameter: a `Hasher`
records the documented behaviour the code relies on.  `get_hash` never fails, so
the code's checks for an empty digest can never fire and are not modelled.

## Main definitions

* `Hasher`, `PathNode` — the template parameters and `xmerkle_path_node_t`.
* `hashList`, `hashLeafs`, `hashMultiTimes` — the level operations.
* `calcRoot`, `calcPath`, `validatePath` — the static interface.
* `XMerkle`, `calcRootHash`, `calcPathHash` — the instance that caches its levels.
-/

namespace TopChain
namespace Merkle

/-- The template parameters of `xmerkle_t`: `_Th` hashes a string into a `_Tv` of
`size` bytes, and `_Tv` can be assigned from a string, which it copies when the
string has its size. -/
structure Hasher (α : Type*) where
  /-- `_Th` followed by `get_hash`: the digest of a string. -/
  hash : List α → List α
  /-- The size of a `_Tv` digest. -/
  size : ℕ
  size_pos : 0 < size
  length_hash : ∀ s, (hash s).length = size
  /-- A `_Tv` assigned from a string. -/
  toValue : List α → List α
  length_toValue : ∀ s, (toValue s).length = size
  toValue_of_length : ∀ s, s.length = size → toValue s = s

attribute [simp] Hasher.length_hash Hasher.length_toValue

/-- `xmerkle_path_node_t<_Tv>`: the level of the record, its position (`0` odd,
`1` left, `2` right) and a signature that is a `_Tv` of `n` bytes. -/
structure PathNode (α : Type*) (n : ℕ) where
  level : UInt32
  pos : UInt32
  signature : List α
  length_signature : signature.length = n
  deriving DecidableEq

variable {α : Type*} (hs : Hasher α)

namespace Hasher

/-- `hash(left, right)`: the streaming hash fed `left` then `right`.  There is no
separator and no tag, so it is the hash of the concatenation. -/
def hash2 (l r : List α) : List α := hs.hash (l ++ r)

@[simp] theorem length_hash2 (l r : List α) : (hs.hash2 l r).length = hs.size :=
  hs.length_hash _

theorem hash_ne_nil (s : List α) : hs.hash s ≠ [] := by
  intro h
  have := hs.length_hash s
  rw [h, List.length_nil] at this
  exact absurd this hs.size_pos.ne

end Hasher

/-! ### Levels -/

/-- `hash_list`: one level up, pairs hashed together and an odd last node hashed
alone. -/
def hashList : List (List α) → List (List α) := pairUp hs.hash2 hs.hash

theorem length_hashList (l : List (List α)) : (hashList hs l).length = (l.length + 1) / 2 :=
  length_pairUp _ _ l

/-- `hash_leafs`: the leaves themselves, or their hashes. -/
def hashLeafs (values : List (List α)) (leafChangeHash : Bool) : List (List α) :=
  if leafChangeHash then values.map hs.hash else values

@[simp] theorem hashLeafs_true (values : List (List α)) :
    hashLeafs hs values true = values.map hs.hash := rfl

/-- `hash_multi_times`: hash once, then `times - 1` more times. -/
def hashMultiTimes (value : List α) (times : ℤ) : List α :=
  hs.hash^[(times - 1).toNat] (hs.hash value)

theorem hashMultiTimes_of_pos (value : List α) {times : ℤ} (ht : 0 < times) :
    hashMultiTimes hs value times = hs.hash^[times.toNat] value := by
  have hn : times.toNat = (times - 1).toNat + 1 := by omega
  rw [hashMultiTimes, hn, Function.iterate_succ_apply]

/-- `calc_root`: level up the leaf hashes until one node is left. -/
def calcRoot (values : List (List α)) : List α :=
  if values = [] then [] else (collapse hs.hash2 hs.hash (hashLeafs hs values true)).headD []

theorem calcRoot_of_ne_nil {values : List (List α)} (h : values ≠ []) :
    calcRoot hs values = (collapse hs.hash2 hs.hash (values.map hs.hash)).headD [] := by
  rw [calcRoot, if_neg h, hashLeafs_true]

/-! ### Paths -/

/-- A path record at `level` with position `pos`, its signature the `_Tv` assigned
from `s`. -/
def mkNode (level : ℤ) (pos : UInt32) (s : List α) : PathNode α hs.size :=
  ⟨UInt32.ofInt level, pos, hs.toValue s, hs.length_toValue s⟩

@[simp] theorem mkNode_level_toNat (level : ℤ) (pos : UInt32) (s : List α) :
    (mkNode hs level pos s).level.toNat = toU32 level := toNat_uInt32_ofInt level

@[simp] theorem mkNode_pos (level : ℤ) (pos : UInt32) (s : List α) :
    (mkNode hs level pos s).pos = pos := rfl

@[simp] theorem mkNode_signature (level : ℤ) (pos : UInt32) (s : List α) :
    (mkNode hs level pos s).signature = hs.toValue s := rfl

/-- `add_path_node`: record the sibling of `index` on the level `hashes`.  A node
that is the odd last one is recorded only while the path is still empty. -/
def addPathNode (hashes : List (List α)) (index : ℕ) (level : ℤ)
    (path : List (PathNode α hs.size)) : List (PathNode α hs.size) :=
  if hashes = [] then path
  else if hashes.length = 1 then path ++ [mkNode hs level 0 (hashes.getD index [])]
  else if index % 2 = 1 then path ++ [mkNode hs level 1 (hashes.getD (index - 1) [])]
  else if index = hashes.length - 1 then
    if path = [] then path ++ [mkNode hs level 0 (hashes.getD index [])] else path
  else path ++ [mkNode hs level 2 (hashes.getD (index + 1) [])]

/-- The loop of `calc_path`: record, halve the index, lower the level, level up. -/
def pathLoop (list : List (List α)) (index : ℕ) (level : ℤ)
    (path : List (PathNode α hs.size)) : List (PathNode α hs.size) :=
  if 1 < list.length then
    pathLoop (hashList hs list) (index / 2) (level - 1) (addPathNode hs list index level path)
  else path
termination_by list.length
decreasing_by exact length_pairUp_lt _ _ ‹_›

theorem pathLoop_of_lt {list : List (List α)} (h : 1 < list.length) (index : ℕ) (level : ℤ)
    (path : List (PathNode α hs.size)) :
    pathLoop hs list index level path =
      pathLoop hs (hashList hs list) (index / 2) (level - 1) (addPathNode hs list index level path) := by
  rw [pathLoop, if_pos h]

theorem pathLoop_of_le {list : List (List α)} (h : list.length ≤ 1) (index : ℕ) (level : ℤ)
    (path : List (PathNode α hs.size)) : pathLoop hs list index level path = path := by
  rw [pathLoop, if_neg (by omega)]

/-- `calc_path`, appending to `path`; `none` when it returns `false`.  The first
level is `floor (log2 n) + 1`.  The `int` index is taken as the integer it holds, which
the range check compares with the number of leaves. -/
def calcPath (values : List (List α)) (index : ℤ) (path : List (PathNode α hs.size)) :
    Option (List (PathNode α hs.size)) :=
  if values = [] ∨ ¬(0 ≤ index ∧ index < values.length) then none
  else some (pathLoop hs (hashLeafs hs values true) index.toNat
    (Nat.log 2 values.length + 1) path)

/-! ### The instance that caches its levels -/

/-- The members of an `xmerkle_t` instance: `m_tree_level`, `m_node_level`,
`m_tree_root_hash`, `m_tree_leafs` and `m_tree_level_node`, whose first entry is the
top level. -/
structure XMerkle (α : Type*) where
  treeLevel : ℕ
  nodeLevel : ℕ
  treeRootHash : List α
  treeLeafs : List (List α)
  treeLevelNode : List (List (List α))

/-- A freshly constructed instance. -/
def XMerkle.empty : XMerkle α := ⟨0, 0, [], [], []⟩

/-- The loop of `calc_root_hash`: `count` more levels, each built from the front
entry and inserted in front of it. -/
def levelLoop : ℕ → List (List (List α)) → List (List (List α))
  | 0, nodes => nodes
  | k + 1, nodes => levelLoop k (hashList hs (nodes.headD []) :: nodes)

@[simp] theorem levelLoop_zero (nodes : List (List (List α))) : levelLoop hs 0 nodes = nodes := rfl

@[simp] theorem levelLoop_succ (k : ℕ) (nodes : List (List (List α))) :
    levelLoop hs (k + 1) nodes = levelLoop hs k (hashList hs (nodes.headD []) :: nodes) := rfl

/-- `calc_root_hash`: build and cache every level; `m_tree_level` is
`ceil (log2 n) + 1` and `m_node_level` is `floor (log2 n) + 1`. -/
def calcRootHash (m : XMerkle α) (values : List (List α)) (leafChangeHash : Bool) :
    XMerkle α × List α :=
  if m.treeRootHash ≠ [] then (m, m.treeRootHash)
  else if values = [] then (m, [])
  else
    let nodes := levelLoop hs (Nat.clog 2 values.length)
      (hashLeafs hs values leafChangeHash :: m.treeLevelNode)
    let root := (nodes.headD []).headD []
    (⟨Nat.clog 2 values.length + 1, Nat.log 2 values.length + 1, root, values, nodes⟩, root)

/-- The loop of `calc_path_hash`, from the cached level `treeLevel - 1` up. -/
def pathHashLoop (nodes : List (List (List α))) :
    ℕ → ℕ → ℤ → List (PathNode α hs.size) → List (PathNode α hs.size)
  | t + 2, index, nodeLevel, path =>
    pathHashLoop nodes (t + 1) (index / 2) (nodeLevel - 1)
      (addPathNode hs (nodes.getD (t + 1) []) index nodeLevel path)
  | _, _, _, path => path

theorem pathHashLoop_succ_succ (nodes : List (List (List α))) (t index : ℕ) (nodeLevel : ℤ)
    (path : List (PathNode α hs.size)) :
    pathHashLoop hs nodes (t + 2) index nodeLevel path =
      pathHashLoop hs nodes (t + 1) (index / 2) (nodeLevel - 1)
        (addPathNode hs (nodes.getD (t + 1) []) index nodeLevel path) := rfl

@[simp] theorem pathHashLoop_one (nodes : List (List (List α))) (index : ℕ) (nodeLevel : ℤ)
    (path : List (PathNode α hs.size)) : pathHashLoop hs nodes 1 index nodeLevel path = path := rfl

/-! ### Validation -/

/-- The branch of `validate_path` for a record below the running level: hash the
running value once per level climbed without a record.  The level difference is
computed in `uint32_t` and passed on as an `int`. -/
def catchUp {n : ℕ} (cur : List α) (level : ℤ) (node : PathNode α n) : List α × ℤ :=
  if node.level.toNat < toU32 level then
    (hashMultiTimes hs cur (toI32 (toU32 level - node.level.toNat)), toI32 node.level.toNat)
  else (cur, level)

/-- Combine the running value with a sibling on the side the record names. -/
def combine {n : ℕ} (node : PathNode α n) (cur : List α) : Option (List α) :=
  if node.pos = 1 then some (hs.hash2 node.signature cur)
  else if node.pos = 2 then some (hs.hash2 cur node.signature)
  else none

@[simp] theorem combine_mkNode_one (level : ℤ) (s cur : List α) :
    combine hs (mkNode hs level 1 s) cur = some (hs.hash2 (hs.toValue s) cur) := rfl

@[simp] theorem combine_mkNode_two (level : ℤ) (s cur : List α) :
    combine hs (mkNode hs level 2 s) cur = some (hs.hash2 cur (hs.toValue s)) := rfl

variable [DecidableEq α]

/-- One iteration of the loop of `validate_path` on the running value and level;
`none` is `return false`.  The level starts at `-1`: the first record fixes it, and
a first record with `pos` 0 must carry the running value itself. -/
def validateStep {n : ℕ} (st : List α × ℤ) (node : PathNode α n) : Option (List α × ℤ) :=
  if st.2 = -1 ∧ node.pos = 0 then
    if st.1 = node.signature then some (st.1, toI32 node.level.toNat) else none
  else
    let level := if st.2 = -1 then toI32 node.level.toNat else st.2
    if toU32 level < node.level.toNat then none
    else (combine hs node (catchUp hs st.1 level node).1).map
      (fun cur => (cur, (catchUp hs st.1 level node).2 - 1))

/-- The loop of `validate_path`. -/
def validateLoop {n : ℕ} (path : List (PathNode α n)) (st : List α × ℤ) :
    Option (List α × ℤ) :=
  path.foldlM (validateStep hs) st

@[simp] theorem validateLoop_nil {n : ℕ} (st : List α × ℤ) :
    validateLoop hs ([] : List (PathNode α n)) st = some st := rfl

theorem validateLoop_append_singleton {n : ℕ} (path : List (PathNode α n)) (node : PathNode α n)
    (st : List α × ℤ) :
    validateLoop hs (path ++ [node]) st = (validateLoop hs path st).bind (validateStep hs · node) := by
  rw [validateLoop, validateLoop, List.foldlM_append]
  cases List.foldlM (validateStep hs) st path with
  | none => rfl
  | some s => simp

/-- `validate_path`: climb from the hash of `value` along the records and compare
with `root`. -/
def validatePath (value root : List α) (path : List (PathNode α hs.size)) : Bool :=
  if value = [] ∨ root = [] then false
  else match validateLoop hs path (hs.hash value, -1) with
    | some st => decide (st.1 = root)
    | none => false

/-! ### The path of a cached leaf -/

/-- `calc_path_hash`: the path of the first leaf equal to `leaf`; `none` when it
returns `false`.  The position of the leaf is `static_cast<int>` of its distance from the
first leaf; it is taken as that distance, which the cast keeps for fewer than `2 ^ 31`
leaves (`toI32_idxOf`). -/
def calcPathHash (m : XMerkle α) (leaf : List α)
    (path : List (PathNode α hs.size)) : Option (List (PathNode α hs.size)) :=
  if m.treeRootHash = [] ∨ m.treeLeafs = [] then none
  else if leaf ∉ m.treeLeafs then none
  else some (pathHashLoop hs m.treeLevelNode m.treeLevel (m.treeLeafs.idxOf leaf)
    m.nodeLevel path)

/-- With fewer than `2 ^ 31` leaves cached, the `int` cast of a leaf's position keeps it. -/
theorem toI32_idxOf (m : XMerkle α) (leaf : List α) (h : m.treeLeafs.length < 2 ^ 31) :
    toI32 (m.treeLeafs.idxOf leaf) = m.treeLeafs.idxOf leaf := by
  have hle : m.treeLeafs.idxOf leaf ≤ m.treeLeafs.length := List.idxOf_le_length
  have hlt : ((m.treeLeafs.idxOf leaf : ℕ) : ℤ) < 2 ^ (32 - 1) := by
    norm_num
    omega
  exact toSigned_of_lt (Int.natCast_nonneg _) hlt

/-! ### A concrete instance -/

/-- Template parameters over `ℕ` with one-letter digests: a string hashes to its
`Encodable` code, and a string is assigned to a digest by keeping its first letter,
padded with `0`. -/
def natHasher : Hasher ℕ where
  hash s := [Encodable.encode s]
  size := 1
  size_pos := Nat.one_pos
  length_hash _ := rfl
  toValue s := (s ++ [0]).take 1
  length_toValue s := by simp
  toValue_of_length s h := by
    obtain ⟨a, rfl⟩ := List.length_eq_one_iff.mp h
    rfl

/-- The hash of `natHasher` is collision-free. -/
theorem natHasher_hash_injective : Function.Injective natHasher.hash := fun _ _ h =>
  Encodable.encode_injective (List.singleton_inj.mp h)

end Merkle
end TopChain

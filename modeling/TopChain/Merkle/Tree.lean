import TopChain.Merkle.Model

/-!
# The levels of an `xmerkle_t` tree

`calc_root`, `calc_path` and `calc_root_hash` all walk the same tower of levels:
the leaf hashes, then `hash_list` applied again and again.  This module names that
tower, `levels`, and reads the code's functions over it: the root is the single
node of level `⌈log2 n⌉`, every node is a digest, and the instance built by
`calc_root_hash` caches exactly these levels, top first, so that its
`calc_path_hash` computes the same path as the static `calc_path` at the first
index of the leaf.

## Main definitions

* `levels hs values k` — level `k` of the tree over `values`, leaves first.

## Main results

* `calcRoot_eq_levels` — `calc_root` is the node of the top level.
* `calcRoot_ne_nil` — the root of a non-empty tree is never the empty string.
* `calcPathHash_calcRootHash` — the cached instance computes `calc_path`'s path.
-/

namespace TopChain
namespace Merkle

variable {α : Type*} (hs : Hasher α)

/-- Level `k` of the tree over `values`: the leaf hashes, levelled up `k` times. -/
def levels (values : List (List α)) (k : ℕ) : List (List α) :=
  (hashList hs)^[k] (values.map hs.hash)

@[simp] theorem levels_zero (values : List (List α)) : levels hs values 0 = values.map hs.hash :=
  rfl

theorem levels_succ (values : List (List α)) (k : ℕ) :
    levels hs values (k + 1) = hashList hs (levels hs values k) :=
  Function.iterate_succ_apply' _ _ _

/-- Every node of every level is a digest. -/
theorem length_of_mem_levels {values : List (List α)} {x : List α} :
    ∀ {k : ℕ}, x ∈ levels hs values k → x.length = hs.size
  | 0, hx => by
    obtain ⟨v, -, rfl⟩ := List.mem_map.mp hx
    exact hs.length_hash v
  | k + 1, hx => by
    rw [levels_succ] at hx
    exact forall_mem_pairUp hs.hash2 hs.hash (P := fun y => y.length = hs.size)
      (hs.length_hash2) (hs.length_hash) x hx

theorem one_lt_length_levels {values : List (List α)} {k : ℕ}
    (hk : k < Nat.clog 2 values.length) : 1 < (levels hs values k).length := by
  rw [← List.length_map (f := hs.hash)] at hk
  exact one_lt_length_iterate_pairUp hs.hash2 hs.hash hk

/-- The top level is the single node the tree collapses to. -/
theorem length_levels_clog {values : List (List α)} (h : values ≠ []) :
    (levels hs values (Nat.clog 2 values.length)).length = 1 := by
  have hne : values.map hs.hash ≠ [] := by simpa using h
  have := length_iterate_clog hs.hash2 hs.hash hne
  rwa [List.length_map] at this

/-! ### The root -/

theorem calcRoot_eq_levels {values : List (List α)} (h : values ≠ []) :
    calcRoot hs values = (levels hs values (Nat.clog 2 values.length)).headD [] := by
  rw [calcRoot_of_ne_nil hs h, collapse_eq_iterate, List.length_map]
  rfl

theorem calcRoot_mem_levels {values : List (List α)} (h : values ≠ []) :
    calcRoot hs values ∈ levels hs values (Nat.clog 2 values.length) := by
  obtain ⟨r, hr⟩ := List.length_eq_one_iff.mp (length_levels_clog hs h)
  rw [calcRoot_eq_levels hs h, hr]
  exact List.mem_singleton_self r

theorem calcRoot_ne_nil {values : List (List α)} (h : values ≠ []) : calcRoot hs values ≠ [] := by
  intro hnil
  have hlen := length_of_mem_levels hs (calcRoot_mem_levels hs h)
  rw [hnil, List.length_nil] at hlen
  exact hs.size_pos.ne hlen

/-! ### The cached levels of an instance -/

/-- `calc_root_hash` inserts each new level in front: entry `j` of its list is
`j` levels below the last one built, and past that the entries it started with. -/
theorem getD_levelLoop (x : List (List α)) :
    ∀ (k j : ℕ) (rest : List (List (List α))),
      (levelLoop hs k (x :: rest)).getD j [] =
        if j ≤ k then (hashList hs)^[k - j] x else rest.getD (j - k - 1) []
  | 0, j, rest => by
    cases j with
    | zero => simp
    | succ j => simp
  | k + 1, j, rest => by
    rw [levelLoop_succ, List.headD_cons, getD_levelLoop (hashList hs x) k j (x :: rest)]
    rcases Nat.lt_trichotomy j (k + 1) with hj | rfl | hj
    · -- a level built after `x`
      have hsub : k + 1 - j = (k - j) + 1 := by omega
      rw [if_pos (by omega), if_pos hj.le, hsub, Function.iterate_succ_apply]
    · -- `x` itself
      simp
    · -- an entry from before the call
      have hsub : j - k - 1 = (j - (k + 1) - 1) + 1 := by omega
      rw [if_neg (by omega), if_neg (by omega), hsub, List.getD_cons_succ]

/-- On a fresh instance, `calc_root_hash` caches the levels top first and returns
`calc_root`. -/
theorem calcRootHash_empty {values : List (List α)} (h : values ≠ []) :
    calcRootHash hs XMerkle.empty values true =
      (⟨Nat.clog 2 values.length + 1, Nat.log 2 values.length + 1, calcRoot hs values, values,
        levelLoop hs (Nat.clog 2 values.length) [values.map hs.hash]⟩, calcRoot hs values) := by
  have htop : (levelLoop hs (Nat.clog 2 values.length) [values.map hs.hash]).headD [] =
      levels hs values (Nat.clog 2 values.length) := by
    rw [List.headD_eq_getD, getD_levelLoop, if_pos (Nat.zero_le _), Nat.sub_zero]
    rfl
  have hroot : ((levelLoop hs (Nat.clog 2 values.length) [values.map hs.hash]).headD []).headD [] =
      calcRoot hs values := by
    rw [htop, calcRoot_eq_levels hs h]
  rw [calcRootHash, if_neg (by simp [XMerkle.empty]), if_neg h]
  simp only [hashLeafs_true, XMerkle.empty, hroot]

/-- The loop of `calc_path_hash` over cached levels is the loop of `calc_path` over
the levels it would compute: `t + 1` cached levels left means `calc_path` is at
level `T - t` of `T`. -/
theorem pathHashLoop_eq_pathLoop {values : List (List α)} (h : values ≠ [])
    {nodes : List (List (List α))}
    (hnodes : ∀ j ≤ Nat.clog 2 values.length,
      nodes.getD j [] = levels hs values (Nat.clog 2 values.length - j)) :
    ∀ t ≤ Nat.clog 2 values.length, ∀ (index : ℕ) (level : ℤ) (path : List (PathNode α hs.size)),
      pathHashLoop hs nodes (t + 1) index level path =
        pathLoop hs (levels hs values (Nat.clog 2 values.length - t)) index level path := by
  intro t
  induction t with
  | zero =>
    intro _ index level path
    rw [pathHashLoop_one, Nat.sub_zero, pathLoop_of_le hs (length_levels_clog hs h).le]
  | succ t ih =>
    intro ht index level path
    have hlt : 1 < (levels hs values (Nat.clog 2 values.length - (t + 1))).length :=
      one_lt_length_levels hs (by omega)
    have hup : Nat.clog 2 values.length - (t + 1) + 1 = Nat.clog 2 values.length - t := by omega
    rw [pathHashLoop_succ_succ, hnodes (t + 1) ht, ih (by omega), pathLoop_of_lt hs hlt,
      ← levels_succ, hup]

variable [DecidableEq α]

/-- The instance built by `calc_root_hash` finds a leaf's path as `calc_path` does at
the leaf's first index. -/
theorem calcPathHash_calcRootHash {values : List (List α)} {leaf : List α}
    (hleaf : leaf ∈ values) (path : List (PathNode α hs.size)) :
    calcPathHash hs (calcRootHash hs XMerkle.empty values true).1 leaf path =
      calcPath hs values (values.idxOf leaf) path := by
  have h : values ≠ [] := List.ne_nil_of_mem hleaf
  have hidx : values.idxOf leaf < values.length := List.idxOf_lt_length_of_mem hleaf
  have hnodes : ∀ j ≤ Nat.clog 2 values.length,
      (levelLoop hs (Nat.clog 2 values.length) [values.map hs.hash]).getD j [] =
        levels hs values (Nat.clog 2 values.length - j) := by
    intro j hj
    rw [getD_levelLoop, if_pos hj]
    rfl
  rw [calcRootHash_empty hs h, calcPathHash, if_neg (by simp [calcRoot_ne_nil hs h, h]),
    if_neg (not_not.mpr hleaf), calcPath, if_neg (not_or.mpr ⟨h, not_not.mpr ⟨by omega, by omega⟩⟩)]
  simp only [pathHashLoop_eq_pathLoop hs h hnodes _ le_rfl, Nat.sub_self, levels_zero,
    hashLeafs_true, Int.toNat_natCast, Nat.cast_add, Nat.cast_one]

/-- The two constructions of a non-empty tree agree: on a fresh instance,
`calc_root_hash` with hashed leaves returns `calc_root`, and the instance it builds
answers `calc_path_hash` for the leaf at any index `i` with the path `calc_path`
computes at the first index holding that leaf (`List.idxOf`), failure included. -/
theorem calcRootHash_calcPathHash_agree (values : List (List α)) (h : values ≠ []) :
    (calcRootHash hs XMerkle.empty values true).2 = calcRoot hs values ∧
    ∀ i < values.length, ∀ path : List (PathNode α hs.size),
      calcPathHash hs (calcRootHash hs XMerkle.empty values true).1 (values.getD i []) path =
        calcPath hs values (values.idxOf (values.getD i [])) path := by
  refine ⟨by rw [calcRootHash_empty hs h], ?_⟩
  intro i hi path
  have hmem : values.getD i [] ∈ values := by
    rw [List.getD_eq_getElem _ _ hi]
    exact List.getElem_mem hi
  exact calcPathHash_calcRootHash hs hmem path

theorem calcRootHash_calcPathHash_agree_natHasher :
    [[1], [2], [1]] ≠ [] ∧
    ((calcRootHash natHasher XMerkle.empty [[1], [2], [1]] true).2 =
        calcRoot natHasher [[1], [2], [1]] ∧
      ∀ i < [[1], [2], [1]].length, ∀ path : List (PathNode ℕ natHasher.size),
        calcPathHash natHasher (calcRootHash natHasher XMerkle.empty [[1], [2], [1]] true).1
            ([[1], [2], [1]].getD i []) path =
          calcPath natHasher [[1], [2], [1]] ([[1], [2], [1]].idxOf ([[1], [2], [1]].getD i []))
            path) :=
  ⟨by simp, calcRootHash_calcPathHash_agree natHasher [[1], [2], [1]] (by simp)⟩

end Merkle
end TopChain

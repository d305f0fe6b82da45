import TopChain.Merkle.Tree

/-!
# Completeness of `xmerkle_t` paths

A path computed by `calc_path` (or by `calc_path_hash` on the instance built by
`calc_root_hash`) validates against `calc_root`, for every non-empty leaf.

The difficulty is that the path does not record every level.  On a level where the
node is the odd last one, `add_path_node` records nothing once the path is
non-empty, and `validate_path` hashes its running value once per missing level
before it combines with the next record.  The invariant of the proof is therefore
not "the running value is the node" but `Tracks`: the running level is at or
above the current one, and hashing the running value once per level between them
gives the current node.  Each iteration of `calc_path` keeps it
(`validateLoop_addPathNode`),
and the last iteration, on a level of two nodes, always records, so the running
value ends equal to the root.

The leaf itself must be non-empty: `validate_path` rejects an empty value outright,
so a tree with an empty leaf has a path that does not validate
(`validatePath_empty_leaf`).

## Main definitions

* `Tracks` — the validator's state stands for a node of the tree.
* `PathInv` — `Tracks`, or the initial state while the path is still empty.

## Main results

* `validateLoop_addPathNode` — one iteration of `calc_path` keeps the invariant.
* `validateLoop_pathLoop` — the whole loop ends on the root.
* `calcPath_calcPathHash_validate` — both paths of a non-empty leaf validate.
-/

namespace TopChain
namespace Merkle

variable {α : Type*} [DecidableEq α] (hs : Hasher α)

/-- The validator's running value and level stand for the node `x` at `level`:
hashing the value once for each level from the running level down to `level`
gives `x`. -/
def Tracks (st : List α × ℤ) (x : List α) (level : ℤ) : Prop :=
  level ≤ st.2 ∧ st.2 < 2 ^ 31 ∧ hs.hash^[(st.2 - level).toNat] st.1 = x

/-- The state after the records of a prefix of the path: still the initial state
(the leaf hash, level `-1`) while nothing is recorded, and tracking the current node
afterwards. -/
def PathInv (path : List (PathNode α hs.size)) (st : List α × ℤ) (x : List α) (level : ℤ) :
    Prop :=
  (path = [] ∧ st = (x, -1)) ∨ (path ≠ [] ∧ Tracks hs st x level)

omit [DecidableEq α] in
theorem tracks_self {x : List α} {level : ℤ} (h : level < 2 ^ 31) :
    Tracks hs (x, level) x level :=
  ⟨le_rfl, h, by simp⟩

omit [DecidableEq α] in
/-- A level without a record: the parent of an odd last node is its hash. -/
theorem Tracks.hash {st : List α × ℤ} {x : List α} {level : ℤ} (h : Tracks hs st x level) :
    Tracks hs st (hs.hash x) (level - 1) := by
  obtain ⟨hle, hlt, hx⟩ := h
  have hn : (st.2 - (level - 1)).toNat = (st.2 - level).toNat + 1 := by omega
  exact ⟨by omega, hlt, by rw [hn, Function.iterate_succ_apply', hx]⟩

omit [DecidableEq α] in
/-- `validate_path` catches up with a record at `level`: the running value becomes
the node `x` at `level`. -/
theorem catchUp_of_tracks {c x s : List α} {lv level : ℤ} {p : UInt32}
    (h : Tracks hs (c, lv) x level) (h0 : 0 ≤ level) :
    catchUp hs c lv (mkNode hs level p s) = (x, level) := by
  obtain ⟨hle, hlt, hx⟩ := h
  have hlv : toU32 lv = lv.toNat := toUnsigned_of_lt (by omega) (by omega)
  have hlevel : toU32 level = level.toNat := toUnsigned_of_lt h0 (by omega)
  rw [catchUp, mkNode_level_toNat, hlv, hlevel]
  split_ifs with hgt
  · -- the record is below the running level: hash up to it
    have hd : toI32 (lv.toNat - level.toNat) = lv - level := by
      rw [toI32, toSigned_of_lt (by omega) (by omega)]
      omega
    have hl : toI32 level.toNat = level := by
      rw [toI32, toSigned_of_lt (by omega) (by omega)]
      omega
    rw [hd, hl, hashMultiTimes_of_pos hs c (by omega), hx]
  · -- the record is at the running level
    have heq : lv = level := by omega
    subst heq
    simpa using hx

/-- A record of a sibling (`pos` 1 or 2) at `level`, read from the initial state or
from a state tracking `x`, combines `x` with the sibling and moves one level up. -/
theorem validateStep_sibling {st : List α × ℤ} {x s : List α} {level : ℤ} {p : UInt32}
    (hinv : st = (x, -1) ∨ Tracks hs st x level) (hp : p = 1 ∨ p = 2)
    (h1 : 1 ≤ level) (h2 : level < 2 ^ 31) :
    validateStep hs st (mkNode hs level p s) =
      (combine hs (mkNode hs level p s) x).map (fun cur => (cur, level - 1)) := by
  have hpos : (mkNode hs level p s).pos ≠ 0 := by
    rcases hp with rfl | rfl <;> simp
  have hlevel : toU32 level = level.toNat := toUnsigned_of_lt (by omega) (by omega)
  -- the level the step works at, with the state tracking `x` there
  obtain ⟨lv, hlv, htr⟩ : ∃ lv, (if st.2 = -1 then toI32 (mkNode hs level p s).level.toNat
      else st.2) = lv ∧ Tracks hs (st.1, lv) x level := by
    rcases hinv with rfl | ht
    · refine ⟨level, ?_, tracks_self hs h2⟩
      rw [if_pos rfl, mkNode_level_toNat, toI32_toU32 (by omega) h2]
    · exact ⟨st.2, if_neg (by have := ht.1; omega), ht⟩
  have hnot : ¬ toU32 lv < (mkNode hs level p s).level.toNat := by
    have hlv' : toU32 lv = lv.toNat := toUnsigned_of_lt (by have := htr.1; omega) (by have := htr.2.1; omega)
    rw [mkNode_level_toNat, hlv', hlevel]
    have := htr.1
    omega
  rw [validateStep, if_neg (fun h => hpos h.2)]
  simp only [hlv]
  rw [if_neg hnot, catchUp_of_tracks hs htr (by omega)]

/-- The first record, on a level where the leaf is the odd last node, carries the
leaf hash itself and fixes the running level. -/
theorem validateStep_odd_first {x : List α} {level : ℤ} (hx : x.length = hs.size)
    (h0 : 0 ≤ level) (h2 : level < 2 ^ 31) :
    validateStep hs (x, -1) (mkNode hs level 0 x) = some (x, level) := by
  rw [validateStep, if_pos ⟨rfl, rfl⟩, mkNode_signature, hs.toValue_of_length x hx, if_pos rfl,
    mkNode_level_toNat, toI32_toU32 h0 h2]

/-- One iteration of `calc_path`: the record `add_path_node` appends (if any) takes
the validator from the current node to its parent.  On a level of two nodes a
record is always made, so the running level is then exactly the parent's. -/
theorem validateLoop_addPathNode {list : List (List α)} {index : ℕ} {level : ℤ}
    {path : List (PathNode α hs.size)} {s0 st : List α × ℤ}
    (hl : 1 < list.length) (hi : index < list.length)
    (hsz : ∀ y ∈ list, y.length = hs.size) (h1 : 1 ≤ level) (h2 : level < 2 ^ 31)
    (hv : validateLoop hs path s0 = some st) (hinv : PathInv hs path st (list.getD index []) level) :
    ∃ st', validateLoop hs (addPathNode hs list index level path) s0 = some st' ∧
      addPathNode hs list index level path ≠ [] ∧
      Tracks hs st' ((hashList hs list).getD (index / 2) []) (level - 1) ∧
      (list.length = 2 → st'.2 = level - 1) := by
  have hne : list ≠ [] := List.ne_nil_of_length_pos (by omega)
  have hget : ∀ k < list.length, (list.getD k []).length = hs.size := fun k hk =>
    hsz _ (by rw [List.getD_eq_getElem _ _ hk]; exact List.getElem_mem hk)
  -- appending one record runs one step from the state reached so far
  have hsnoc : ∀ node, validateLoop hs (path ++ [node]) s0 = validateStep hs st node := by
    intro node
    rw [validateLoop_append_singleton, hv]
    rfl
  have hstart : st = (list.getD index [], -1) ∨ Tracks hs st (list.getD index []) level := by
    rcases hinv with ⟨-, rfl⟩ | ⟨-, ht⟩
    · exact .inl rfl
    · exact .inr ht
  have hexact : ∀ y : List α, Tracks hs (y, level - 1) y (level - 1) := fun y =>
    tracks_self hs (by omega)
  rw [hashList, getD_pairUp_div_two _ _ [] list index hi]
  unfold addPathNode
  rw [if_neg hne, if_neg (by omega)]
  by_cases hodd : index % 2 = 1
  · -- odd index: the left sibling is recorded
    rw [if_pos hodd, if_pos hodd]
    refine ⟨(hs.hash2 (list.getD (index - 1) []) (list.getD index []), level - 1), ?_, by simp,
      hexact _, fun _ => rfl⟩
    rw [hsnoc, validateStep_sibling hs hstart (.inl rfl) h1 h2, combine_mkNode_one,
      hs.toValue_of_length _ (hget _ (by omega))]
    rfl
  rw [if_neg hodd, if_neg hodd]
  by_cases hlast : index = list.length - 1
  · -- the odd last node of the level; it has no parent pair, and the level is not the top
    have htwo : list.length ≠ 2 := by omega
    rw [if_pos hlast, if_neg (show ¬ index + 1 < list.length by omega)]
    by_cases hpath : path = []
    · -- first record of the path: the node itself is recorded
      obtain ⟨-, rfl⟩ := hinv.resolve_right (fun h => h.1 hpath)
      rw [if_pos hpath]
      refine ⟨(list.getD index [], level), ?_, by simp, (tracks_self hs h2).hash,
        fun h => absurd h htwo⟩
      rw [hsnoc, validateStep_odd_first hs (hget _ hi) (by omega) h2]
    · -- no record: the validator catches up with one more hash at the next record
      obtain ⟨-, ht⟩ := hinv.resolve_left (fun h => hpath h.1)
      rw [if_neg hpath]
      exact ⟨st, hv, hpath, ht.hash, fun h => absurd h htwo⟩
  · -- even index with a right neighbour: the right sibling is recorded
    rw [if_neg hlast, if_pos (show index + 1 < list.length by omega)]
    refine ⟨(hs.hash2 (list.getD index []) (list.getD (index + 1) []), level - 1), ?_, by simp,
      hexact _, fun _ => rfl⟩
    rw [hsnoc, validateStep_sibling hs hstart (.inr rfl) h1 h2, combine_mkNode_two,
      hs.toValue_of_length _ (hget _ (by omega))]
    rfl

/-- The loop of `calc_path`, from any level on which the invariant holds, ends on a
state whose running value is the root. -/
theorem validateLoop_pathLoop {s0 : List α × ℤ} :
    ∀ (list : List (List α)) (index : ℕ) (level : ℤ) (path : List (PathNode α hs.size))
      (st : List α × ℤ), 1 < list.length → index < list.length →
      (∀ y ∈ list, y.length = hs.size) → (Nat.clog 2 list.length : ℤ) ≤ level →
      level < 2 ^ 31 → validateLoop hs path s0 = some st →
      PathInv hs path st (list.getD index []) level →
      ∃ lv, validateLoop hs (pathLoop hs list index level path) s0 =
        some ((collapse hs.hash2 hs.hash list).headD [], lv) := by
  intro list
  induction h : list.length using Nat.strong_induction_on generalizing list with
  | _ n ih =>
    subst h
    intro index level path st hl hi hsz hlev h2 hv hinv
    have hclog : 1 ≤ Nat.clog 2 list.length := Nat.clog_pos Nat.one_lt_two (by omega)
    obtain ⟨st', hv', hne', htr, hexact⟩ :=
      validateLoop_addPathNode hs (by omega) hi hsz (by omega) h2 hv hinv
    have hup : Nat.clog 2 (hashList hs list).length + 1 = Nat.clog 2 list.length :=
      clog_length_pairUp hs.hash2 hs.hash (by omega)
    rw [pathLoop_of_lt hs (by omega), collapse_of_lt _ _ (by omega)]
    by_cases hl' : 1 < (hashList hs list).length
    · -- more levels above: the invariant carries over to the parent
      have hlt : (hashList hs list).length < list.length := length_pairUp_lt _ _ (by omega)
      refine ih _ hlt _ rfl (index / 2) (level - 1) _ st' hl' ?_ ?_ (by omega) (by omega) hv'
        (.inr ⟨hne', htr⟩)
      · rw [length_hashList]
        omega
      · exact forall_mem_pairUp _ _ (P := fun y : List α => y.length = hs.size)
          hs.length_hash2 hs.length_hash
    · -- the parent is the root: a level of two nodes, whose record was made
      have hone : (hashList hs list).length ≤ 1 := by omega
      have hlen : list.length = 2 := by
        have := length_hashList hs list
        omega
      rw [pathLoop_of_le hs hone, collapse_of_le _ _ (l := pairUp hs.hash2 hs.hash list) hone]
      have hroot : st'.1 = (hashList hs list).headD [] := by
        obtain ⟨-, -, hx⟩ := htr
        rw [hexact hlen, sub_self, Int.toNat_zero, Function.iterate_zero_apply,
          Nat.div_eq_of_lt (by omega : index < 2)] at hx
        rw [hx, List.headD_eq_getD]
      exact ⟨st'.2, by rw [hv']; exact congrArg some (Prod.ext hroot rfl)⟩

/-- The path `calc_path` computes for a non-empty leaf validates against `calc_root`. -/
theorem validatePath_pathLoop {values : List (List α)} {i : ℕ} (hi : i < values.length)
    (hn : values.length < 2 ^ 31) (hv : values.getD i [] ≠ []) :
    validatePath hs (values.getD i []) (calcRoot hs values)
      (pathLoop hs (values.map hs.hash) i (Nat.log 2 values.length + 1) []) = true := by
  have hne : values ≠ [] := List.ne_nil_of_length_pos (by omega)
  have hleaf : (values.map hs.hash).getD i [] = hs.hash (values.getD i []) := by
    rw [List.getD_eq_getElem _ _ (by simpa using hi), List.getElem_map,
      List.getD_eq_getElem _ _ hi]
  -- the validator's final state holds the root
  obtain ⟨lv, hfin⟩ : ∃ lv, validateLoop hs
      (pathLoop hs (values.map hs.hash) i (Nat.log 2 values.length + 1) [])
      (hs.hash (values.getD i []), -1) = some (calcRoot hs values, lv) := by
    rw [calcRoot_of_ne_nil hs hne]
    by_cases hl : 1 < (values.map hs.hash).length
    · have hlog : Nat.log 2 values.length < 31 :=
        Nat.log_lt_of_lt_pow (by omega) (by simpa using hn)
      refine validateLoop_pathLoop hs _ i _ [] _ hl (by simpa using hi) ?_ ?_ (by omega) rfl
        (.inl ⟨rfl, by rw [hleaf]⟩)
      · intro y hy
        obtain ⟨v, -, rfl⟩ := List.mem_map.mp hy
        exact hs.length_hash v
      · have := clog_two_le_log_two_add_one values.length
        rw [List.length_map]
        omega
    · -- a single leaf: no record, the leaf hash is the root
      have hi0 : i = 0 := by simp at hl; omega
      subst hi0
      rw [pathLoop_of_le hs (by omega), collapse_of_le _ _ (by omega), validateLoop_nil,
        List.headD_eq_getD, hleaf]
      exact ⟨-1, rfl⟩
  rw [validatePath, if_neg (not_or.mpr ⟨hv, calcRoot_ne_nil hs hne⟩), hfin]
  simp

/-- Completeness of `xmerkle_t`: for a non-empty leaf `values[i]` of a list of fewer
than `2 ^ 31` leaves (the range of the code's `int` index), `calc_path` into an empty
path succeeds and its path validates against `calc_root`; so does the path
`calc_path_hash` finds on the instance built by `calc_root_hash`. -/
theorem calcPath_calcPathHash_validate (values : List (List α)) (i : ℕ) (hi : i < values.length)
    (hn : values.length < 2 ^ 31) (hv : values.getD i [] ≠ []) :
    (∃ path, calcPath hs values i [] = some path ∧
      validatePath hs (values.getD i []) (calcRoot hs values) path = true) ∧
    (∃ path, calcPathHash hs (calcRootHash hs XMerkle.empty values true).1 (values.getD i []) [] =
        some path ∧ validatePath hs (values.getD i []) (calcRoot hs values) path = true) := by
  have hne : values ≠ [] := List.ne_nil_of_length_pos (by omega)
  have hcalc : ∀ j < values.length, calcPath hs values j [] =
      some (pathLoop hs (values.map hs.hash) j (Nat.log 2 values.length + 1) []) := by
    intro j hj
    rw [calcPath, if_neg (not_or.mpr ⟨hne, not_not.mpr ⟨by omega, by omega⟩⟩), hashLeafs_true,
      Int.toNat_natCast]
  refine ⟨⟨_, hcalc i hi, validatePath_pathLoop hs hi hn hv⟩, ?_⟩
  -- the instance finds the first leaf equal to `values[i]`, whose path validates alike
  have hmem : values.getD i [] ∈ values := by
    rw [List.getD_eq_getElem _ _ hi]
    exact List.getElem_mem hi
  have hj := List.idxOf_lt_length_of_mem hmem
  have hsame : values.getD (values.idxOf (values.getD i [])) [] = values.getD i [] := by
    rw [List.getD_eq_getElem _ _ hj, List.getElem_idxOf]
  refine ⟨_, by rw [calcPathHash_calcRootHash hs hmem, hcalc _ hj], ?_⟩
  have hvalid := validatePath_pathLoop hs hj hn (by rwa [hsame])
  rwa [hsame] at hvalid

theorem calcPath_calcPathHash_validate_natHasher :
    (2 < [[1], [2], [3]].length ∧ [[1], [2], [3]].length < 2 ^ 31 ∧
      [[1], [2], [3]].getD 2 [] ≠ []) ∧
    ((∃ path, calcPath natHasher [[1], [2], [3]] 2 [] = some path ∧
      validatePath natHasher ([[1], [2], [3]].getD 2 []) (calcRoot natHasher [[1], [2], [3]]) path =
        true) ∧
    (∃ path, calcPathHash natHasher (calcRootHash natHasher XMerkle.empty [[1], [2], [3]] true).1
        ([[1], [2], [3]].getD 2 []) [] = some path ∧
      validatePath natHasher ([[1], [2], [3]].getD 2 []) (calcRoot natHasher [[1], [2], [3]]) path =
        true)) :=
  ⟨⟨by decide, by decide, by decide⟩,
    calcPath_calcPathHash_validate natHasher [[1], [2], [3]] 2 (by decide) (by decide) (by decide)⟩

/-- An empty leaf: `calc_path` succeeds with an empty path, which `validate_path`
rejects because the value is empty. -/
theorem validatePath_empty_leaf :
    calcPath natHasher [[]] 0 [] = some [] ∧
      validatePath natHasher ([[]].getD 0 []) (calcRoot natHasher [[]]) [] = false := by
  refine ⟨?_, by simp [validatePath]⟩
  rw [calcPath, if_neg (by decide), pathLoop_of_le natHasher (by simp)]

end Merkle
end TopChain

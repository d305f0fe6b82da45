import TopChain.Merkle.Tree
import Mathlib.Logic.Relation

/-!
# What `validate_path` accepts

`hash(left, right)` of `xmerkle_t` is the hash of the concatenation, and a leaf is
hashed by the same function as an inner node: there is no tag telling the three
kinds of preimage apart.  So `validate_path` accepts more than the leaves: the
concatenation of the root's two children, presented with an empty path, hashes to
the root (`validatePath_root_children`), and it is a leaf only if some leaf happens
to be that string (`validatePath_inner_node_accepted`).

What does hold, for a collision-free hash, is that an accepted value is a leaf or
the preimage of an inner node.  Every step of the validator's running value is a
hash of the running value, alone or next to a digest-sized sibling (`Climb`).
Read backwards from the root, each such step leads from a node of the tree to a
node of the level below, by injectivity and because every node is a digest: an
inner node's preimage is two digests or one, never a digest next to a sibling in
another way.  The leaf level is where this breaks: a leaf of one or two digests'
length could itself be such a preimage, so the statement asks that no leaf has
either length.

## Main definitions

* `Climb` — one step of the validator's running value.

## Main results

* `climb_validatePath` — an accepted value climbs to the root.
* `mem_levels_of_climb` — read backwards, a climb to a node starts at a node.
* `validatePath_calcRoot_sound` — an accepted value is a leaf or an inner node's
  preimage.
-/

namespace TopChain
namespace Merkle

variable {α : Type*} (hs : Hasher α)

/-- One step of the validator's running value: a hash for a level without a
record, or a hash with a digest-sized sibling on the left or on the right. -/
inductive Climb : List α → List α → Prop
  | hash (x : List α) : Climb x (hs.hash x)
  | left (s x : List α) : s.length = hs.size → Climb x (hs.hash2 s x)
  | right (x s : List α) : s.length = hs.size → Climb x (hs.hash2 x s)

/-- Every step ends on a digest. -/
theorem Climb.length_eq {x y : List α} (h : Climb hs x y) : y.length = hs.size := by
  cases h with
  | hash => exact hs.length_hash _
  | left => exact hs.length_hash2 _ _
  | right => exact hs.length_hash2 _ _

open Relation

/-! ### The validator only climbs -/

theorem climb_iterate_hash (x : List α) :
    ∀ k : ℕ, ReflTransGen (Climb hs) x (hs.hash^[k] x)
  | 0 => .refl
  | k + 1 => by
    rw [Function.iterate_succ_apply']
    exact (climb_iterate_hash x k).tail (.hash _)

theorem climb_catchUp {n : ℕ} (cur : List α) (level : ℤ) (node : PathNode α n) :
    ReflTransGen (Climb hs) cur (catchUp hs cur level node).1 := by
  rw [catchUp]
  split_ifs
  · -- however many times the gap says, a catch-up is a run of plain hashes
    generalize toI32 (toU32 level - node.level.toNat) = times
    rw [hashMultiTimes, ← Function.iterate_succ_apply]
    exact climb_iterate_hash hs cur _
  · exact .refl

theorem climb_combine {node : PathNode α hs.size} {cur cur' : List α}
    (h : combine hs node cur = some cur') : Climb hs cur cur' := by
  rw [combine] at h
  split_ifs at h
  · cases h
    exact .left _ _ node.length_signature
  · cases h
    exact .right _ _ node.length_signature

variable [DecidableEq α]

theorem climb_validateStep {st st' : List α × ℤ} {node : PathNode α hs.size}
    (h : validateStep hs st node = some st') : ReflTransGen (Climb hs) st.1 st'.1 := by
  rw [validateStep] at h
  by_cases hfirst : st.2 = -1 ∧ node.pos = 0
  · -- a first record with `pos` 0 only checks the running value
    rw [if_pos hfirst] at h
    split_ifs at h
    cases h
    exact .refl
  · -- at whatever level the step works, it catches up and combines with the sibling
    rw [if_neg hfirst] at h
    dsimp only at h
    generalize (if st.2 = -1 then toI32 node.level.toNat else st.2) = level at h
    split_ifs at h
    obtain ⟨cur, hcomb, rfl⟩ := Option.map_eq_some_iff.mp h
    exact (climb_catchUp hs _ _ node).tail (climb_combine hs hcomb)

theorem climb_validateLoop :
    ∀ (path : List (PathNode α hs.size)) {st st' : List α × ℤ},
      validateLoop hs path st = some st' → ReflTransGen (Climb hs) st.1 st'.1
  | [], _, _, h => by
    cases h
    exact .refl
  | node :: path, st, st', h => by
    rw [validateLoop, List.foldlM_cons] at h
    obtain ⟨mid, hmid, hrest⟩ := Option.bind_eq_some_iff.mp h
    exact (climb_validateStep hs hmid).trans (climb_validateLoop path hrest)

/-- An accepted value's hash climbs to the root it was checked against. -/
theorem climb_validatePath {value root : List α} {path : List (PathNode α hs.size)}
    (h : validatePath hs value root path = true) :
    ReflTransGen (Climb hs) (hs.hash value) root := by
  rw [validatePath] at h
  split_ifs at h
  split at h
  · rename_i st hst
    have hroot : st.1 = root := of_decide_eq_true h
    exact hroot ▸ climb_validateLoop hs path hst
  · cases h

/-! ### Inner nodes are accepted -/

/-- With an empty path, `validate_path` accepts the concatenation of the root's two
children: its hash is the root, whatever the hash function. -/
theorem validatePath_root_children {values : List (List α)} (h : 1 < values.length) :
    validatePath hs ((levels hs values (Nat.clog 2 values.length - 1)).getD 0 [] ++
      (levels hs values (Nat.clog 2 values.length - 1)).getD 1 []) (calcRoot hs values) [] =
      true := by
  have hne : values ≠ [] := List.ne_nil_of_length_pos (by omega)
  have hroot := calcRoot_eq_levels hs hne
  have htop := length_levels_clog hs hne
  have hbelow : 1 < (levels hs values (Nat.clog 2 values.length - 1)).length :=
    one_lt_length_levels hs (by have := Nat.clog_pos Nat.one_lt_two h; omega)
  obtain ⟨T, hT⟩ : ∃ T, Nat.clog 2 values.length = T + 1 :=
    ⟨_, (Nat.succ_pred_eq_of_pos (Nat.clog_pos Nat.one_lt_two h)).symm⟩
  rw [hT, Nat.add_sub_cancel] at hbelow ⊢
  rw [hT, levels_succ, length_hashList] at htop
  rw [hT, levels_succ] at hroot
  -- the level below the root holds exactly the root's two children
  obtain ⟨a, b, hab⟩ := List.length_eq_two.mp (show (levels hs values T).length = 2 by omega)
  have ha : a.length = hs.size := length_of_mem_levels hs (hab ▸ List.mem_cons_self)
  rw [hab, hashList, pairUp_cons_cons, pairUp_nil] at hroot
  rw [hab, hroot, validatePath, if_neg (not_or.mpr ⟨?_, ?_⟩)]
  · simp [Hasher.hash2]
  · simp [← List.length_eq_zero_iff, ha, hs.size_pos.ne']
  · exact hs.hash_ne_nil _

/-! ### Read backwards, a climb stays in the tree -/

section Backwards

variable {hs}
variable (hinj : Function.Injective hs.hash) {values : List (List α)}
  (hleaf : ∀ l ∈ values, l.length ≠ hs.size ∧ l.length ≠ 2 * hs.size)
include hinj hleaf

omit [DecidableEq α] in
/-- One step back: a step that ends on a node of the tree starts from a node of
the level below. -/
theorem mem_levels_of_climb_step {x y : List α} {k : ℕ} (hxy : Climb hs x y)
    (hx : x.length = hs.size) (hy : y ∈ levels hs values k) :
    ∃ j, k = j + 1 ∧ x ∈ levels hs values j := by
  have hpos := hs.size_pos
  cases k with
  | zero =>
    -- a leaf hash: its preimage would be a leaf of one or two digests' length
    obtain ⟨v, hv, hvy⟩ := List.mem_map.mp hy
    have hlen := hleaf v hv
    cases hxy with
    | hash => exact absurd (hinj hvy ▸ hx) hlen.1
    | left s _ hs' =>
      have := congrArg List.length (hinj hvy)
      simp only [List.length_append, hs', hx] at this
      exact absurd (by omega) hlen.2
    | right _ s hs' =>
      have := congrArg List.length (hinj hvy)
      simp only [List.length_append, hs', hx] at this
      exact absurd (by omega) hlen.2
  | succ j =>
    refine ⟨j, rfl, ?_⟩
    rw [levels_succ, hashList] at hy
    rcases mem_pairUp _ _ hy with ⟨a, ha, b, hb, hab⟩ | ⟨a, ha, hya⟩
    · -- a pair of digests `a`, `b`: the step's preimage is `a ++ b`
      have hla := length_of_mem_levels hs ha
      have hlb := length_of_mem_levels hs hb
      cases hxy with
      | hash =>
        have := congrArg List.length (hinj hab)
        simp only [List.length_append, hla, hlb] at this
        omega
      | left s _ hs' =>
        have hsplit := List.append_inj (hinj hab) (by rw [hs', hla])
        exact hsplit.2 ▸ hb
      | right _ s _ =>
        have hsplit := List.append_inj (hinj hab) (by rw [hx, hla])
        exact hsplit.1 ▸ ha
    · -- an odd node promoted alone: the step's preimage is the digest `a`
      have hla := length_of_mem_levels hs ha
      cases hxy with
      | hash => exact hinj hya ▸ ha
      | left s _ hs' =>
        have := congrArg List.length (hinj hya)
        simp only [List.length_append, hs', hx] at this
        omega
      | right _ s hs' =>
        have := congrArg List.length (hinj hya)
        simp only [List.length_append, hs', hx] at this
        omega

omit [DecidableEq α] in
/-- A climb from a digest to a node of level `k` starts at a node of a level at or
below `k`. -/
theorem mem_levels_of_climb {x y : List α} (h : ReflTransGen (Climb hs) x y)
    (hx : x.length = hs.size) {k : ℕ} (hy : y ∈ levels hs values k) :
    ∃ j ≤ k, x ∈ levels hs values j := by
  induction h using Relation.ReflTransGen.head_induction_on generalizing k with
  | refl => exact ⟨k, le_rfl, hy⟩
  | head hxz _ ih =>
    obtain ⟨j, hj, hz⟩ := ih (hxz.length_eq) hy
    obtain ⟨i, rfl, hxi⟩ := mem_levels_of_climb_step hinj hleaf hxz hx hz
    exact ⟨i, by omega, hxi⟩

end Backwards

/-- Soundness of `validate_path` against `calc_root`, for a collision-free hash and
leaves whose length is neither one nor two digests: an accepted value is a leaf,
or its hash is a node above the leaves (the value is an inner node's preimage). -/
theorem validatePath_calcRoot_sound (values : List (List α)) (v : List α)
    (path : List (PathNode α hs.size)) (hinj : Function.Injective hs.hash)
    (hleaf : ∀ l ∈ values, l.length ≠ hs.size ∧ l.length ≠ 2 * hs.size)
    (h : validatePath hs v (calcRoot hs values) path = true) :
    v ∈ values ∨ ∃ k < Nat.clog 2 values.length, hs.hash v ∈ levels hs values (k + 1) := by
  have hne : values ≠ [] := by
    rintro rfl
    simp [validatePath, calcRoot] at h
  obtain ⟨j, hj, hmem⟩ := mem_levels_of_climb hinj hleaf (climb_validatePath hs h)
    (hs.length_hash v) (calcRoot_mem_levels hs hne)
  cases j with
  | zero =>
    -- the hash of a leaf: by injectivity, the leaf itself
    obtain ⟨l, hl, hlv⟩ := List.mem_map.mp hmem
    exact .inl (hinj hlv ▸ hl)
  | succ k => exact .inr ⟨k, by omega, hmem⟩

theorem validatePath_calcRoot_sound_natHasher :
    Function.Injective natHasher.hash ∧
      (∀ l ∈ [[1, 2, 3], [4, 5, 6]], l.length ≠ natHasher.size ∧ l.length ≠ 2 * natHasher.size) ∧
      validatePath natHasher [4, 5, 6] (calcRoot natHasher [[1, 2, 3], [4, 5, 6]])
        [mkNode natHasher 2 1 (natHasher.hash [1, 2, 3])] = true ∧
      ([4, 5, 6] ∈ [[1, 2, 3], [4, 5, 6]] ∨ ∃ k < Nat.clog 2 [[1, 2, 3], [4, 5, 6]].length,
        natHasher.hash [4, 5, 6] ∈ levels natHasher [[1, 2, 3], [4, 5, 6]] (k + 1)) := by
  have hv : validatePath natHasher [4, 5, 6] (calcRoot natHasher [[1, 2, 3], [4, 5, 6]])
      [mkNode natHasher 2 1 (natHasher.hash [1, 2, 3])] = true := by
    rw [calcRoot_of_ne_nil _ (by simp), collapse_of_lt _ _ (by decide),
      collapse_of_le _ _ (by decide)]
    decide
  exact ⟨natHasher_hash_injective, by decide, hv, validatePath_calcRoot_sound natHasher _ _ _
    natHasher_hash_injective (by decide) hv⟩

/-- The hash is collision-free, yet `validate_path` accepts, with an empty path,
the concatenation of the two leaf hashes of a two-leaf tree, which is not a leaf. -/
theorem validatePath_inner_node_accepted :
    Function.Injective natHasher.hash ∧
      validatePath natHasher (natHasher.hash [1] ++ natHasher.hash [2])
        (calcRoot natHasher [[1], [2]]) [] = true ∧
      natHasher.hash [1] ++ natHasher.hash [2] ∉ [[1], [2]] := by
  refine ⟨natHasher_hash_injective, ?_, by decide⟩
  -- the two hashed leaves are the root's children
  exact validatePath_root_children natHasher (show 1 < ([[1], [2]] : List (List ℕ)).length by decide)

end Merkle
end TopChain

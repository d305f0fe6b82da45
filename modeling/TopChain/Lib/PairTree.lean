import Mathlib.Data.Nat.Log
import Mathlib.Data.List.GetD

/-!
# Binary hash trees that promote an odd node

One level of such a tree combines neighbouring pairs with a two-argument
function and carries a last unpaired node up through a one-argument function,
instead of duplicating it.  Iterating the level operation until one node is left
gives the root; the number of levels is the ceiling of the base-two logarithm of
the leaf count.

Nothing here depends on what the two functions are: the development of a concrete
Merkle tree instantiates them with its hash.

## Main definitions

* `pairUp f₂ f₁` — one level up.
* `collapse f₂ f₁` — levels up until at most one node is left.

## Main results

* `length_pairUp`, `getD_pairUp_div_two` — the size of a level, and the parent of
  an index.
* `mem_pairUp` — every node of a level is built from nodes of the level below.
* `collapse_eq_iterate` — `collapse` runs `Nat.clog 2 n` levels.
-/

namespace TopChain

variable {β : Type*} (f₂ : β → β → β) (f₁ : β → β)

/-- One level of the tree: pairs are combined by `f₂`, a last odd node by `f₁`. -/
def pairUp : List β → List β
  | a :: b :: rest => f₂ a b :: pairUp rest
  | [a] => [f₁ a]
  | [] => []

@[simp] theorem pairUp_nil : pairUp f₂ f₁ [] = [] := rfl

@[simp] theorem pairUp_singleton (a : β) : pairUp f₂ f₁ [a] = [f₁ a] := rfl

@[simp] theorem pairUp_cons_cons (a b : β) (rest : List β) :
    pairUp f₂ f₁ (a :: b :: rest) = f₂ a b :: pairUp f₂ f₁ rest := rfl

/-- A level has half as many nodes as the one below, rounded up. -/
theorem length_pairUp : ∀ l : List β, (pairUp f₂ f₁ l).length = (l.length + 1) / 2
  | [] => by simp
  | [_] => by simp
  | _ :: _ :: rest => by
    rw [pairUp_cons_cons, List.length_cons, length_pairUp rest]
    simp only [List.length_cons]
    omega

theorem length_pairUp_lt {l : List β} (hl : 1 < l.length) :
    (pairUp f₂ f₁ l).length < l.length := by
  rw [length_pairUp]
  omega

theorem pairUp_ne_nil {l : List β} (hl : l ≠ []) : pairUp f₂ f₁ l ≠ [] := by
  intro h
  have := congrArg List.length h
  rw [length_pairUp, List.length_nil] at this
  exact hl (List.length_eq_zero_iff.mp (by omega))

/-- The parent of index `i` sits at `i / 2`: for an odd index it combines the left
neighbour with the node, for an even one the node with its right neighbour, and
for an even last index it promotes the node alone. -/
theorem getD_pairUp_div_two (d : β) :
    ∀ (l : List β) (i : ℕ), i < l.length →
      (pairUp f₂ f₁ l).getD (i / 2) d =
        if i % 2 = 1 then f₂ (l.getD (i - 1) d) (l.getD i d)
        else if i + 1 < l.length then f₂ (l.getD i d) (l.getD (i + 1) d)
        else f₁ (l.getD i d)
  | [], _, hi => absurd hi (by simp)
  | [a], i, hi => by
    obtain rfl : i = 0 := by simpa using hi
    simp
  | a :: b :: rest, 0, _ => by simp
  | a :: b :: rest, 1, _ => by simp
  | a :: b :: rest, i + 2, hi => by
    have ih := getD_pairUp_div_two d rest i (by simpa using hi)
    have hdiv : (i + 2) / 2 = i / 2 + 1 := by omega
    rw [pairUp_cons_cons, hdiv, List.getD_cons_succ, ih]
    by_cases hodd : i % 2 = 1
    · have hsub : i + 2 - 1 = (i - 1) + 2 := by omega
      simp [hodd, Nat.add_mod_right, hsub]
    · -- an even index: whether it has a right sibling decides between `f₂` and `f₁`
      have hodd2 : ¬ (i + 2) % 2 = 1 := by omega
      rw [if_neg hodd, if_neg hodd2]
      by_cases hlen : i + 1 < rest.length
      · rw [if_pos hlen, if_pos (by simp only [List.length_cons]; omega)]
        rfl
      · rw [if_neg hlen, if_neg (by simp only [List.length_cons]; omega)]
        rfl

/-- Every node of a level is `f₂` of two nodes, or `f₁` of one node, of the
level below. -/
theorem mem_pairUp {x : β} :
    ∀ {l : List β}, x ∈ pairUp f₂ f₁ l →
      (∃ a ∈ l, ∃ b ∈ l, x = f₂ a b) ∨ (∃ a ∈ l, x = f₁ a)
  | [], h => by simp at h
  | [a], h => by
    rw [pairUp_singleton, List.mem_singleton] at h
    exact .inr ⟨a, by simp, h⟩
  | a :: b :: rest, h => by
    rw [pairUp_cons_cons, List.mem_cons] at h
    rcases h with rfl | h
    · exact .inl ⟨a, by simp, b, by simp, rfl⟩
    · rcases mem_pairUp h with ⟨a', ha', b', hb', hx⟩ | ⟨a', ha', hx⟩
      · exact .inl ⟨a', by simp [ha'], b', by simp [hb'], hx⟩
      · exact .inr ⟨a', by simp [ha'], hx⟩

/-- A property that every output of `f₂` and of `f₁` has holds of every node of a
level. -/
theorem forall_mem_pairUp {P : β → Prop} (h₂ : ∀ a b, P (f₂ a b)) (h₁ : ∀ a, P (f₁ a))
    {l : List β} : ∀ x ∈ pairUp f₂ f₁ l, P x := by
  intro x hx
  rcases mem_pairUp f₂ f₁ hx with ⟨a, -, b, -, rfl⟩ | ⟨a, -, rfl⟩
  · exact h₂ a b
  · exact h₁ a

/-! ### Collapsing to the root -/

/-- Level up while more than one node is left. -/
def collapse (l : List β) : List β :=
  if 1 < l.length then collapse (pairUp f₂ f₁ l) else l
termination_by l.length
decreasing_by exact length_pairUp_lt f₂ f₁ ‹_›

theorem collapse_of_lt {l : List β} (hl : 1 < l.length) :
    collapse f₂ f₁ l = collapse f₂ f₁ (pairUp f₂ f₁ l) := by
  rw [collapse, if_pos hl]

theorem collapse_of_le {l : List β} (hl : l.length ≤ 1) : collapse f₂ f₁ l = l := by
  rw [collapse, if_neg (by omega)]

/-- Ceil-halving `n` down to one takes `Nat.clog 2 n` steps. -/
theorem clog_two_succ_div_two {n : ℕ} (hn : 1 < n) :
    Nat.clog 2 n = Nat.clog 2 ((n + 1) / 2) + 1 :=
  Nat.clog_of_two_le Nat.one_lt_two hn

/-- One level up lowers the number of remaining levels by one. -/
theorem clog_length_pairUp {l : List β} (hl : 1 < l.length) :
    Nat.clog 2 (pairUp f₂ f₁ l).length + 1 = Nat.clog 2 l.length := by
  rw [length_pairUp, clog_two_succ_div_two hl]

/-- The ceiling of the base-two logarithm exceeds the floor by at most one. -/
theorem clog_two_le_log_two_add_one (n : ℕ) : Nat.clog 2 n ≤ Nat.log 2 n + 1 :=
  (Nat.clog_le_iff_le_pow Nat.one_lt_two).mpr (Nat.lt_pow_succ_log_self Nat.one_lt_two n).le

/-- `collapse` is `Nat.clog 2` applications of `pairUp`. -/
theorem collapse_eq_iterate :
    ∀ (l : List β), collapse f₂ f₁ l = (pairUp f₂ f₁)^[Nat.clog 2 l.length] l := by
  intro l
  induction h : l.length using Nat.strong_induction_on generalizing l with
  | _ n ih =>
    by_cases hn : 1 < n
    · have hlt := length_pairUp_lt f₂ f₁ (l := l) (by omega)
      rw [collapse_of_lt f₂ f₁ (by omega), ih _ (by omega) _ rfl, length_pairUp, h,
        clog_two_succ_div_two hn, Function.iterate_succ_apply]
    · rw [collapse_of_le f₂ f₁ (by omega), Nat.clog_of_right_le_one (by omega)]
      rfl

/-- A non-empty list collapses to exactly one node. -/
theorem length_collapse {l : List β} (hl : l ≠ []) : (collapse f₂ f₁ l).length = 1 := by
  induction h : l.length using Nat.strong_induction_on generalizing l with
  | _ n ih =>
    by_cases hn : 1 < n
    · rw [collapse_of_lt f₂ f₁ (by omega)]
      exact ih _ (by rw [← h]; exact length_pairUp_lt f₂ f₁ (by omega))
        (pairUp_ne_nil f₂ f₁ hl) rfl
    · rw [collapse_of_le f₂ f₁ (by omega)]
      have : l.length ≠ 0 := fun h0 => hl (List.length_eq_zero_iff.mp h0)
      omega

/-- Below the top, every level still has at least two nodes. -/
theorem one_lt_length_iterate_pairUp :
    ∀ {j : ℕ} {l : List β}, j < Nat.clog 2 l.length → 1 < ((pairUp f₂ f₁)^[j] l).length
  | j, l, hj => by
    have hl : 1 < l.length := by
      by_contra hle
      rw [Nat.clog_of_right_le_one (by omega)] at hj
      omega
    cases j with
    | zero => exact hl
    | succ j =>
      rw [Function.iterate_succ_apply]
      have := clog_length_pairUp f₂ f₁ hl
      exact one_lt_length_iterate_pairUp (by omega)

/-- The top level, after `Nat.clog 2 n` levels, is a single node. -/
theorem length_iterate_clog {l : List β} (hl : l ≠ []) :
    ((pairUp f₂ f₁)^[Nat.clog 2 l.length] l).length = 1 := by
  rw [← collapse_eq_iterate]
  exact length_collapse f₂ f₁ hl

end TopChain

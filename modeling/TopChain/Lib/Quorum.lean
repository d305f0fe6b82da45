import Mathlib.Data.Finset.Card

/-!
# Quorums of a committee

A committee is a finite set of members, some of which may be faulty.  Two sets of
members of sizes `a` and `b` share at least `a + b - n` members when the committee has
`n`, since together they hold at most `n`.  So two quorums whose sizes add up to more
than `n + f` share more members than the `f` faulty ones, and some member of both is
not faulty: whatever that member does only once, it did for both quorums.

## Main results

* `card_add_card_le_card_inter_add` — two subsets of the committee share at least
  `a + b - n` members.
* `exists_mem_inter_not_mem` — two large enough subsets share a member outside any set
  of `f` members.
-/

namespace TopChain

namespace Quorum

variable {α : Type*} [DecidableEq α] {U A B F : Finset α}

/-- Two subsets of a committee share at least as many members as their sizes exceed
the committee's. -/
theorem card_add_card_le_card_inter_add (hA : A ⊆ U) (hB : B ⊆ U) :
    A.card + B.card ≤ (A ∩ B).card + U.card := by
  have hunion : (A ∪ B).card ≤ U.card := Finset.card_le_card (Finset.union_subset hA hB)
  have hinter := Finset.card_union_add_card_inter A B
  omega

/-- Two subsets of a committee whose sizes add up to more than the committee's and
`F`'s share a member outside `F`. -/
theorem exists_mem_inter_not_mem (hA : A ⊆ U) (hB : B ⊆ U)
    (hsum : U.card + F.card < A.card + B.card) : ∃ x ∈ A, x ∈ B ∧ x ∉ F := by
  have hle := card_add_card_le_card_inter_add hA hB
  -- the common members outnumber `F`
  have hlt : F.card < (A ∩ B).card := by omega
  obtain ⟨x, hx, hxF⟩ := Finset.exists_mem_notMem_of_card_lt_card hlt
  rw [Finset.mem_inter] at hx
  exact ⟨x, hx.1, hx.2, hxF⟩

end Quorum

end TopChain

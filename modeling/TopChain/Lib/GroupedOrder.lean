import Mathlib.Order.Defs.Unbundled
import Mathlib.Data.Nat.Notation

/-!
# Orders that compare within groups and between groups

An order on elements that fall into groups: two elements of one group compare by an
order of their own, two elements of different groups by their groups' ranks, the
higher rank first.  It is a strict order whenever the order within groups is.  It is
not a strict weak order as soon as one group holds two comparable elements and another
group of the same rank holds any element: that element is incomparable to both of the
first two, which are comparable, so incomparability is not transitive.

## Main definitions

* `groupedLt key rank lt` — the order, `key` naming an element's group.

## Main results

* `isStrictOrder_groupedLt` — irreflexive and transitive.
* `not_isStrictWeakOrder_groupedLt` — not a strict weak order on a type holding two
  comparable elements of one group and an element of another group of the same rank.
-/

namespace TopChain

namespace GroupedOrder

variable {α κ : Type*} [DecidableEq κ]

/-- Elements of one group compare by `lt`; elements of different groups by rank, the
higher rank first. -/
def groupedLt (key : α → κ) (rank : κ → ℕ) (lt : α → α → Prop) (x y : α) : Prop :=
  if key x = key y then lt x y else rank (key y) < rank (key x)

variable {key : α → κ} {rank : κ → ℕ} {lt : α → α → Prop}

theorem groupedLt_of_key_eq {x y : α} (h : key x = key y) :
    groupedLt key rank lt x y ↔ lt x y := by
  rw [groupedLt, if_pos h]

theorem groupedLt_of_key_ne {x y : α} (h : key x ≠ key y) :
    groupedLt key rank lt x y ↔ rank (key y) < rank (key x) := by
  rw [groupedLt, if_neg h]

/-- Two elements of different groups of one rank are incomparable. -/
theorem not_groupedLt_of_rank_eq {x y : α} (h : key x ≠ key y)
    (hrank : rank (key x) = rank (key y)) : ¬ groupedLt key rank lt x y := by
  rw [groupedLt_of_key_ne h, hrank]
  exact Nat.lt_irrefl _

/-- The order is strict when the order within groups is.  Transitivity goes by the
groups of the three elements: within one group it is `lt`'s, and across groups the
ranks strictly decrease. -/
theorem isStrictOrder_groupedLt (hirrefl : ∀ x, ¬ lt x x)
    (htrans : ∀ x y z, lt x y → lt y z → lt x z) : IsStrictOrder α (groupedLt key rank lt) where
  irrefl x := by
    rw [groupedLt_of_key_eq rfl]
    exact hirrefl x
  trans x y z hxy hyz := by
    by_cases h1 : key x = key y
    · by_cases h2 : key y = key z
      · -- one group
        rw [groupedLt_of_key_eq h1] at hxy
        rw [groupedLt_of_key_eq h2] at hyz
        rw [groupedLt_of_key_eq (h1.trans h2)]
        exact htrans x y z hxy hyz
      · rw [groupedLt_of_key_ne h2] at hyz
        rw [groupedLt_of_key_ne fun h => h2 (h1.symm.trans h), h1]
        exact hyz
    · rw [groupedLt_of_key_ne h1] at hxy
      by_cases h2 : key y = key z
      · rw [groupedLt_of_key_ne fun h => h1 (h.trans h2.symm), ← h2]
        exact hxy
      · rw [groupedLt_of_key_ne h2] at hyz
        -- the ranks decrease from `x` to `z`, so their groups differ
        have hlt : rank (key z) < rank (key x) := Nat.lt_trans hyz hxy
        have hxz : key x ≠ key z := by
          intro h
          rw [h] at hlt
          exact Nat.lt_irrefl _ hlt
        rw [groupedLt_of_key_ne hxz]
        exact hlt

/-- Two comparable elements `x`, `y` of one group and an element `z` of another group of
the same rank: `z` is incomparable to both, which are comparable.  The elements are
taken through `f`, so that the order may be restricted to any type of them. -/
theorem not_isStrictWeakOrder_groupedLt {β : Sort*} (f : β → α) {x y z : β}
    (hxy : key (f x) = key (f y)) (hlt : lt (f x) (f y)) (hxz : key (f x) ≠ key (f z))
    (hrank : rank (key (f x)) = rank (key (f z))) :
    ¬ IsStrictWeakOrder β (fun a b => groupedLt key rank lt (f a) (f b)) := by
  intro h
  have hyz : key (f y) ≠ key (f z) := by
    rw [← hxy]
    exact hxz
  have hrank' : rank (key (f y)) = rank (key (f z)) := by
    rw [← hxy]
    exact hrank
  have hincx : ¬ groupedLt key rank lt (f x) (f z) ∧ ¬ groupedLt key rank lt (f z) (f x) :=
    ⟨not_groupedLt_of_rank_eq hxz hrank, not_groupedLt_of_rank_eq (Ne.symm hxz) hrank.symm⟩
  have hincy : ¬ groupedLt key rank lt (f z) (f y) ∧ ¬ groupedLt key rank lt (f y) (f z) :=
    ⟨not_groupedLt_of_rank_eq (Ne.symm hyz) hrank'.symm, not_groupedLt_of_rank_eq hyz hrank'⟩
  -- a strict weak order would make `x` and `y` incomparable too
  exact (h.incomp_trans x z y hincx hincy).1 ((groupedLt_of_key_eq hxy).mpr hlt)

end GroupedOrder

end TopChain

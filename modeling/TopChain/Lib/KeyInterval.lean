import Mathlib.Order.Interval.Finset.Nat
import Mathlib.Data.UInt

/-!
# Keys that fill an interval

A map whose keys are distinct and lie in an interval `(a, b]` holds at most `b - a` of
them, and exactly `b - a` when it holds every key of the interval.  So a count is enough
to tell that a map has no gap, as long as its keys are known to lie in the interval; a
map of 64-bit keys in key order is such a list.

## Main results

* `length_le_of_nodup`, `length_eq_iff_of_nodup` — distinct naturals in `(a, b]` number
  at most `b - a`, and `b - a` iff they fill it.
* `length_le_of_sorted`, `length_eq_iff_of_sorted` — the same for 64-bit keys in
  increasing order.
-/

namespace TopChain

namespace KeyInterval

theorem toFinset_subset_Ioc {ks : List ℕ} {a b : ℕ} (hin : ∀ k ∈ ks, a < k ∧ k ≤ b) :
    ks.toFinset ⊆ Finset.Ioc a b := fun k hk =>
  Finset.mem_Ioc.mpr (hin k (List.mem_toFinset.mp hk))

/-- Distinct naturals in `(a, b]` are at most `b - a` many. -/
theorem length_le_of_nodup {ks : List ℕ} {a b : ℕ} (hnd : ks.Nodup)
    (hin : ∀ k ∈ ks, a < k ∧ k ≤ b) : ks.length ≤ b - a := by
  rw [← List.toFinset_card_of_nodup hnd, ← Nat.card_Ioc a b]
  exact Finset.card_le_card (toFinset_subset_Ioc hin)

/-- Distinct naturals in `(a, b]` are `b - a` many exactly when every number of the
interval is among them. -/
theorem length_eq_iff_of_nodup {ks : List ℕ} {a b : ℕ} (hnd : ks.Nodup)
    (hin : ∀ k ∈ ks, a < k ∧ k ≤ b) : ks.length = b - a ↔ ∀ n, a < n → n ≤ b → n ∈ ks := by
  have hsub := toFinset_subset_Ioc hin
  rw [← List.toFinset_card_of_nodup hnd, ← Nat.card_Ioc a b]
  constructor
  · -- as many as the interval: they are the interval
    intro hcard n han hnb
    have heq := Finset.eq_of_subset_of_card_le hsub hcard.ge
    have hn : n ∈ ks.toFinset := by
      rw [heq]
      exact Finset.mem_Ioc.mpr ⟨han, hnb⟩
    exact List.mem_toFinset.mp hn
  · intro hall
    have hsup : Finset.Ioc a b ⊆ ks.toFinset := fun n hn => by
      obtain ⟨han, hnb⟩ := Finset.mem_Ioc.mp hn
      exact List.mem_toFinset.mpr (hall n han hnb)
    rw [Finset.Subset.antisymm hsub hsup]

section UInt64

variable {ks : List UInt64} {c m : UInt64}

theorem nodup_map_toNat (hs : ks.Pairwise (· < ·)) : (ks.map UInt64.toNat).Nodup := by
  refine (List.pairwise_map.mpr (hs.imp fun h => ?_)).imp Nat.ne_of_lt
  exact UInt64.lt_iff_toNat_lt.mp h

theorem toNat_bounds_of_mem_map (hin : ∀ k ∈ ks, c < k ∧ k ≤ m) :
    ∀ n ∈ ks.map UInt64.toNat, c.toNat < n ∧ n ≤ m.toNat := by
  intro n hn
  obtain ⟨k, hk, rfl⟩ := List.mem_map.mp hn
  obtain ⟨hck, hkm⟩ := hin k hk
  exact ⟨UInt64.lt_iff_toNat_lt.mp hck, UInt64.le_iff_toNat_le.mp hkm⟩

/-- 64-bit keys in increasing order, in `(c, m]`, are at most `m - c` many. -/
theorem length_le_of_sorted (hs : ks.Pairwise (· < ·)) (hin : ∀ k ∈ ks, c < k ∧ k ≤ m) :
    ks.length ≤ m.toNat - c.toNat := by
  rw [← List.length_map UInt64.toNat]
  exact length_le_of_nodup (nodup_map_toNat hs) (toNat_bounds_of_mem_map hin)

/-- 64-bit keys in increasing order, in `(c, m]`, are `m - c` many exactly when every key
of the interval is among them. -/
theorem length_eq_iff_of_sorted (hs : ks.Pairwise (· < ·)) (hin : ∀ k ∈ ks, c < k ∧ k ≤ m) :
    ks.length = m.toNat - c.toNat ↔ ∀ k, c < k → k ≤ m → k ∈ ks := by
  -- read the keys as naturals: distinct, and in `(c, m]`
  rw [← List.length_map UInt64.toNat,
    length_eq_iff_of_nodup (nodup_map_toNat hs) (toNat_bounds_of_mem_map hin)]
  constructor
  · intro hall k hck hkm
    obtain ⟨k', hk', hkk⟩ := List.mem_map.mp
      (hall k.toNat (UInt64.lt_iff_toNat_lt.mp hck) (UInt64.le_iff_toNat_le.mp hkm))
    rw [← UInt64.toNat_inj.mp hkk]
    exact hk'
  · -- a natural of the interval is below `2 ^ 64`, so it is the value of a key
    intro hall n hcn hnm
    have hlt : n < 2 ^ 64 := Nat.lt_of_le_of_lt hnm m.toNat_lt
    have hval : (UInt64.ofNat n).toNat = n := UInt64.toNat_ofNat_of_lt' hlt
    have hc : c < UInt64.ofNat n := UInt64.lt_iff_toNat_lt.mpr (by rw [hval]; exact hcn)
    have hm : UInt64.ofNat n ≤ m := UInt64.le_iff_toNat_le.mpr (by rw [hval]; exact hnm)
    have hk := hall (UInt64.ofNat n) hc hm
    exact List.mem_map.mpr ⟨UInt64.ofNat n, hk, hval⟩

end UInt64

end KeyInterval

end TopChain

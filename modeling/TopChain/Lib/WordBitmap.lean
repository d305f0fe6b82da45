import Mathlib.Data.Nat.Bitwise
import Mathlib.Data.UInt

/-!
# Bitmaps stored in 64-bit words

A bitmap of `64 * n` bits kept as `n` words of 64 bits: bit `o` is bit `o % 64`
of word `o / 64`.  A bit is tested with `(w & (1 << j)) != 0` and set with
`w |= 1 << j`; a word has every bit set when its complement is zero.  Reading a
word past the end gives `0`.

`runLength f o n` counts the bits `f o`, `f (o + 1)`, … that are set in a row,
looking at `n` of them at most: the scan a bitmap makes for its first clear bit.

## Main definitions

* `WordBitmap.mask`, `WordBitmap.testBit`, `WordBitmap.setBit`, `WordBitmap.full`.
* `WordBitmap.runLength` — the length of the run of set bits from an offset.

## Main results

* `testBit_setBit` — setting a bit sets that bit and no other.
* `testBit_replicate_zero` — a bitmap of zero words has no bit set.
* `testBit_append_replicate_zero`, `testBit_replicate_zero_append_add`, `testBit_drop` —
  zero words added behind or in front, and words dropped in front, move the bits by 64
  per word in front and not at all behind.
* `full_iff` — every word is all ones exactly when every bit is set.
* `runLength_lt`, `runLength_stop`, `runLength_add` — the run is all set, ends at
  a clear bit, and splits at any point inside it.
-/

namespace TopChain

namespace WordBitmap

/-! ### Words -/

/-- `(uint64_t)1 << j`. -/
def mask (j : ℕ) : UInt64 := (1 : UInt64) <<< j.toUInt64

theorem toNat_mask {j : ℕ} (hj : j < 64) : (mask j).toNat = 2 ^ j := by
  have hpow : 2 ^ j < 2 ^ 64 := Nat.pow_lt_pow_right (by decide) hj
  have hjmod : j.toUInt64.toNat % 64 = j := by
    rw [Nat.toUInt64_eq, UInt64.toNat_ofNat']
    omega
  rw [mask, UInt64.toNat_shiftLeft, hjmod, UInt64.toNat_one, Nat.one_shiftLeft]
  exact Nat.mod_eq_of_lt hpow

/-- The test `(w & (1 << j)) != 0` reads bit `j` of `w`. -/
theorem and_mask_ne_zero (w : UInt64) {j : ℕ} (hj : j < 64) :
    ((w &&& mask j) != 0) = w.toNat.testBit j := by
  have h : (w &&& mask j).toNat = (w.toNat.testBit j).toNat * 2 ^ j := by
    rw [UInt64.toNat_and, toNat_mask hj, Nat.and_two_pow]
  cases hb : w.toNat.testBit j
  · have hz : w &&& mask j = 0 := by
      apply UInt64.toNat_inj.mp
      rw [h, hb]
      simp
    simp [hz]
  · have hz : w &&& mask j ≠ 0 := by
      intro h0
      rw [h0, hb] at h
      simp at h
      exact absurd h.symm (Nat.pow_pos (by decide : 0 < 2)).ne'
    simp [hz]

/-- `w | (1 << j)` has bit `j` set and the other bits of `w`. -/
theorem testBit_or_mask (w : UInt64) {j : ℕ} (hj : j < 64) (i : ℕ) :
    (w ||| mask j).toNat.testBit i = (decide (j = i) || w.toNat.testBit i) := by
  rw [UInt64.toNat_or, toNat_mask hj, Nat.testBit_or, Nat.testBit_two_pow, Bool.or_comm]

/-- A word's complement is zero exactly when every one of its 64 bits is set. -/
theorem not_eq_zero_iff (w : UInt64) : ~~~w = 0 ↔ ∀ j < 64, w.toNat.testBit j = true := by
  constructor
  · intro h j hj
    have hw : w.toNat = 2 ^ 64 - 1 := by
      have hn := congrArg UInt64.toNat h
      rw [UInt64.toNat_not] at hn
      have hlt := w.toNat_lt
      simp [UInt64.size] at hn hlt
      omega
    rw [hw, Nat.testBit_two_pow_sub_one]
    simpa using hj
  · intro h
    have hw : w.toNat = 2 ^ 64 - 1 := by
      apply Nat.eq_of_testBit_eq
      intro i
      rw [Nat.testBit_two_pow_sub_one]
      by_cases hi : i < 64
      · simp [hi, h i hi]
      · -- past bit 63 a word has no bit set
        have hlt : w.toNat < 2 ^ i :=
          lt_of_lt_of_le w.toNat_lt (Nat.pow_le_pow_right (by decide) (by omega))
        simp [hi, Nat.testBit_lt_two_pow hlt]
    apply UInt64.toNat_inj.mp
    rw [UInt64.toNat_not, hw]
    rfl

/-! ### Bitmaps of words -/

/-- Bit `o`: bit `o % 64` of word `o / 64`. -/
def testBit (bm : List UInt64) (o : ℕ) : Bool :=
  (bm.getD (o / 64) 0 &&& mask (o % 64)) != 0

/-- Set bit `o`. -/
def setBit (bm : List UInt64) (o : ℕ) : List UInt64 :=
  bm.set (o / 64) (bm.getD (o / 64) 0 ||| mask (o % 64))

/-- Every word has all its bits set. -/
def full (bm : List UInt64) : Bool :=
  bm.all fun w => ~~~w == 0

theorem testBit_eq (bm : List UInt64) (o : ℕ) :
    testBit bm o = (bm.getD (o / 64) 0).toNat.testBit (o % 64) :=
  and_mask_ne_zero _ (Nat.mod_lt o (by decide))

@[simp] theorem length_setBit (bm : List UInt64) (o : ℕ) : (setBit bm o).length = bm.length :=
  List.length_set

/-- Setting bit `o` of a bitmap that has a word for it sets that bit and no other. -/
theorem testBit_setBit {bm : List UInt64} {o : ℕ} (h : o / 64 < bm.length) (o' : ℕ) :
    testBit (setBit bm o) o' = (decide (o = o') || testBit bm o') := by
  rw [testBit_eq, testBit_eq, setBit]
  by_cases hw : o / 64 = o' / 64
  · -- the same word: `o` and `o'` are equal exactly when their bits in it are
    have hget : (bm.set (o / 64) (bm.getD (o / 64) 0 ||| mask (o % 64))).getD (o' / 64) 0 =
        bm.getD (o / 64) 0 ||| mask (o % 64) := by
      rw [← hw, List.getD_eq_getElem?_getD, List.getElem?_set_self h, Option.getD_some]
    have heq : (o % 64 = o' % 64) ↔ o = o' := by omega
    rw [hget, testBit_or_mask _ (Nat.mod_lt o (by decide)), hw]
    simp only [heq]
  · have hget : (bm.set (o / 64) (bm.getD (o / 64) 0 ||| mask (o % 64))).getD (o' / 64) 0 =
        bm.getD (o' / 64) 0 := by
      rw [List.getD_eq_getElem?_getD, List.getElem?_set_ne hw, ← List.getD_eq_getElem?_getD]
    have hne : o ≠ o' := fun he => hw (by rw [he])
    rw [hget]
    simp [hne]

@[simp] theorem testBit_replicate_zero (n o : ℕ) : testBit (List.replicate n 0) o = false := by
  rw [testBit_eq]
  have hw : (List.replicate n (0 : UInt64)).getD (o / 64) 0 = 0 := by
    rw [List.getD_eq_getElem?_getD, List.getElem?_replicate]
    split_ifs <;> rfl
  rw [hw]
  simp

/-- Past the last word every bit reads clear. -/
theorem testBit_of_length_le {bm : List UInt64} {o : ℕ} (h : 64 * bm.length ≤ o) :
    testBit bm o = false := by
  have hw : bm.getD (o / 64) 0 = 0 := List.getD_eq_default _ _ (by omega)
  rw [testBit_eq, hw]
  simp

/-- Zero words appended after a bitmap change none of its bits. -/
@[simp] theorem testBit_append_replicate_zero (bm : List UInt64) (k o : ℕ) :
    testBit (bm ++ List.replicate k 0) o = testBit bm o := by
  by_cases hi : o / 64 < bm.length
  · rw [testBit, testBit, List.getD_append _ _ _ _ hi]
  · have hr : testBit bm o = false := testBit_of_length_le (by omega)
    rw [hr, testBit_eq, List.getD_append_right _ _ _ _ (by omega)]
    have hw : (List.replicate k (0 : UInt64)).getD (o / 64 - bm.length) 0 = 0 := by
      rw [List.getD_eq_getElem?_getD, List.getElem?_replicate]
      split_ifs <;> rfl
    rw [hw]
    simp

/-- Zero words put in front of a bitmap: their bits are clear, and the bitmap's bits
move up by 64 per word. -/
theorem testBit_replicate_zero_append_of_lt (bm : List UInt64) {k o : ℕ} (h : o < 64 * k) :
    testBit (List.replicate k 0 ++ bm) o = false := by
  have hw : (List.replicate k (0 : UInt64) ++ bm).getD (o / 64) 0 = 0 := by
    rw [List.getD_append _ _ _ _ (by rw [List.length_replicate]; omega), List.getD_eq_getElem?_getD,
      List.getElem?_replicate_of_lt (by omega)]
    rfl
  rw [testBit_eq, hw]
  simp

theorem testBit_replicate_zero_append_add (bm : List UInt64) (k o : ℕ) :
    testBit (List.replicate k 0 ++ bm) (64 * k + o) = testBit bm o := by
  rw [testBit_eq, testBit_eq, List.getD_append_right _ _ _ _ (by rw [List.length_replicate]; omega),
    List.length_replicate, show (64 * k + o) / 64 - k = o / 64 by omega,
    show (64 * k + o) % 64 = o % 64 by omega]

/-- Dropping `k` words moves every bit down by 64 per word. -/
theorem testBit_drop (bm : List UInt64) (k o : ℕ) :
    testBit (bm.drop k) o = testBit bm (64 * k + o) := by
  rw [testBit_eq, testBit_eq, List.getD_eq_getElem?_getD, List.getD_eq_getElem?_getD,
    List.getElem?_drop, show (64 * k + o) / 64 = k + o / 64 by omega,
    show (64 * k + o) % 64 = o % 64 by omega]

/-- Setting bit `o` through the word read at its index is `setBit`. -/
theorem set_or_mask_eq_setBit {bm : List UInt64} {o : ℕ} {w : UInt64}
    (hw : bm[o / 64]? = some w) : bm.set (o / 64) (w ||| mask (o % 64)) = setBit bm o := by
  rw [setBit, List.getD_eq_getElem?_getD, hw, Option.getD_some]

/-- A bitmap is full exactly when each of its `64 * length` bits is set. -/
theorem full_iff (bm : List UInt64) :
    full bm = true ↔ ∀ o < 64 * bm.length, testBit bm o = true := by
  simp only [full, List.all_eq_true, beq_iff_eq, not_eq_zero_iff]
  constructor
  · intro h o ho
    have hi : o / 64 < bm.length := by omega
    rw [testBit_eq, List.getD_eq_getElem?_getD, List.getElem?_eq_getElem hi, Option.getD_some]
    exact h _ (List.getElem_mem hi) _ (Nat.mod_lt o (by decide))
  · intro h w hw j hj
    obtain ⟨i, hi, rfl⟩ := List.getElem_of_mem hw
    have hbit := h (64 * i + j) (by omega)
    rwa [testBit_eq, show (64 * i + j) / 64 = i by omega, show (64 * i + j) % 64 = j by omega,
      List.getD_eq_getElem?_getD, List.getElem?_eq_getElem hi, Option.getD_some] at hbit

/-! ### Runs of set bits -/

/-- The number of bits set in a row from `o`, looking at `n` bits at most. -/
def runLength (f : ℕ → Bool) (o : ℕ) : ℕ → ℕ
  | 0 => 0
  | n + 1 => if f o then runLength f (o + 1) n + 1 else 0

variable (f : ℕ → Bool)

theorem runLength_le : ∀ (o n : ℕ), runLength f o n ≤ n
  | _, 0 => le_refl 0
  | o, n + 1 => by
    rw [runLength]
    split_ifs
    · exact Nat.succ_le_succ (runLength_le (o + 1) n)
    · exact Nat.zero_le _

/-- A run that starts at a clear bit is empty. -/
theorem runLength_of_false {o : ℕ} (h : f o = false) : ∀ n, runLength f o n = 0
  | 0 => rfl
  | n + 1 => by rw [runLength, if_neg (by simp [h])]

/-- Every bit of the run is set. -/
theorem runLength_lt : ∀ {o n k : ℕ}, k < runLength f o n → f (o + k) = true
  | _, 0, _, h => absurd h (Nat.not_lt_zero _)
  | o, n + 1, k, h => by
    rw [runLength] at h
    split_ifs at h with ho
    · cases k with
      | zero => exact ho
      | succ k =>
        have hk := runLength_lt (o := o + 1) (n := n) (k := k) (by omega)
        rwa [show o + 1 + k = o + (k + 1) by omega] at hk
    · exact absurd h (Nat.not_lt_zero _)

/-- A run shorter than the bits looked at ends at a clear bit. -/
theorem runLength_stop : ∀ {o n : ℕ}, runLength f o n < n → f (o + runLength f o n) = false
  | _, 0, h => absurd h (Nat.not_lt_zero _)
  | o, n + 1, h => by
    rw [runLength] at h ⊢
    split_ifs at h ⊢ with ho
    · have hs := runLength_stop (o := o + 1) (n := n) (by omega)
      rwa [show o + 1 + runLength f (o + 1) n = o + (runLength f (o + 1) n + 1) by omega] at hs
    · simpa using ho

/-- A run that starts with `m` set bits is those bits and the run after them. -/
theorem runLength_add : ∀ {o n m : ℕ}, m ≤ n → (∀ k < m, f (o + k) = true) →
    runLength f o n = m + runLength f (o + m) (n - m)
  | o, n, 0, _, _ => by simp
  | o, n + 1, m + 1, hm, h => by
    have ho : f o = true := h 0 (Nat.succ_pos m)
    have htail : ∀ k < m, f (o + 1 + k) = true := fun k hk => by
      rw [show o + 1 + k = o + (k + 1) by omega]
      exact h (k + 1) (by omega)
    rw [runLength, if_pos ho, runLength_add (o := o + 1) (by omega) htail,
      show o + 1 + m = o + (m + 1) by omega, show n - m = n + 1 - (m + 1) by omega]
    omega

/-- A run that looks at `n` bits is `n` long exactly when all of them are set. -/
theorem runLength_eq_iff (o n : ℕ) : runLength f o n = n ↔ ∀ k < n, f (o + k) = true := by
  constructor
  · intro h k hk
    exact runLength_lt f (n := n) (by rw [h]; exact hk)
  · intro h
    rw [runLength_add f (le_refl n) h, Nat.sub_self]
    rfl

end WordBitmap

end TopChain

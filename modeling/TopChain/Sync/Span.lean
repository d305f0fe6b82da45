import TopChain.Lib.WordBitmap

/-!
# A span of heights and its bitmap

`xcommon_span_t` records which of 1024 consecutive heights, from a multiple of
1024 on, a chain has: one bit per height in sixteen 64-bit words, and the lowest
height of the span whose bit is clear, kept up to date by a scan that resumes
where the previous one stopped.

Heights are `uint64_t` in the source and natural numbers here.  The two agree
while no arithmetic reaches `2 ^ 64`, which needs heights in the last span
(`2 ^ 64 - 1024` and above); the module on chains says what changes there.
`index(height)`, the source's `height & ~BITMAP_MASK`, is the multiple of 1024
below `height`.  Offsets into a span are below 1024, so `SEGMENT_INDEX` and
`OFFSET_IN_SEGMENT` are `o / 64` and `o % 64`, and the two nested loops of
`update_unused_position` over words and bits visit the bits from the offset on
in order, which is the run `WordBitmap.runLength`.

## Main definitions

* `Span`, `Span.ofHeight` — `xcommon_span_t` and its constructor from a height.
* `Span.set`, `Span.updateUnusedPosition`, `Span.full` — the source's methods.
* `Span.Valid` — an aligned index, sixteen words, and the lowest unused height
  at the first clear bit.

## Main results

* `Span.bit_set`, `Span.valid_set` — setting a height of the span sets its bit
  and keeps the span valid.
* `Span.valid_updateUnusedPosition` — the scan finds the first clear bit from any
  position below it.
* `Span.full_iff`, `Span.full_iff_lowest` — a valid span is full exactly when its
  lowest unused height is one past its end.
* `Span.bit_foldl_set` — setting heights one after another sets their bits.
-/

namespace TopChain

namespace Sync

open WordBitmap

/-- `m_quota_of_bitmap`: the heights of one span. -/
def quotaOfBitmap : ℕ := 1024

/-- `SEGMENT_SIZE`: the words of one span's bitmap. -/
def segmentSize : ℕ := 16

/-- `xcommon_span_t`. -/
structure Span where
  spanIndex : ℕ
  lowestUnusedPostion : ℕ
  bitmap : List UInt64
  deriving DecidableEq, Repr

namespace Span

/-- `xcommon_span_t::index(height)`: the first height of the span of `height`. -/
def index (height : ℕ) : ℕ := height / quotaOfBitmap * quotaOfBitmap

/-- `xcommon_span_t()`: span `0` with nothing set. -/
def empty : Span := ⟨0, 0, List.replicate segmentSize 0⟩

/-- `xcommon_span_t(height)`: the span of `height`, nothing set, its lowest
unused height at its start. -/
def ofHeight (height : ℕ) : Span :=
  ⟨index height, index height, List.replicate segmentSize 0⟩

/-- `own_to_span` (and `owned`): the height lies in this span. -/
def ownToSpan (s : Span) (height : ℕ) : Bool := index height = s.spanIndex

/-- The bit of the height at offset `o` of the span. -/
def bit (s : Span) (o : ℕ) : Bool := testBit s.bitmap o

/-- `update_unused_position`: advance the lowest unused height over the set bits
that follow it, unless it is already past the span. -/
def updateUnusedPosition (s : Span) : Span :=
  let offset := s.lowestUnusedPostion - s.spanIndex
  if quotaOfBitmap ≤ offset then s
  else
    { s with lowestUnusedPostion :=
        s.lowestUnusedPostion + runLength s.bit offset (quotaOfBitmap - offset) }

/-- `connect`. -/
def connect (s : Span) : Span := s.updateUnusedPosition

/-- `set(height, modified)`: whether the height is the span's, whether its bit was
newly set, and the span after. -/
def set (s : Span) (height : ℕ) : Bool × Bool × Span :=
  if !s.ownToSpan height then (false, false, s)
  else
    let offset := height - s.spanIndex
    if s.bit offset then (true, false, s)
    else (true, true, { s with bitmap := setBit s.bitmap offset }.updateUnusedPosition)

/-- `full`: every word of the bitmap has all its bits set. -/
def full (s : Span) : Bool := WordBitmap.full s.bitmap

/-! ### Valid spans -/

/-- What every span the source builds satisfies: its index is a multiple of
1024, it has sixteen words, and its lowest unused height is at its first clear
bit (one past its end when all are set). -/
structure Valid (s : Span) : Prop where
  aligned : s.spanIndex % quotaOfBitmap = 0
  length : s.bitmap.length = segmentSize
  lowest : s.lowestUnusedPostion = s.spanIndex + runLength s.bit 0 quotaOfBitmap

theorem index_le (height : ℕ) : index height ≤ height := Nat.div_mul_le_self _ _

theorem lt_index_add (height : ℕ) : height < index height + quotaOfBitmap := by
  unfold index quotaOfBitmap
  omega

theorem index_mod (height : ℕ) : index height % quotaOfBitmap = 0 := Nat.mul_mod_left _ _

/-- The index of a height is the multiple of 1024 it lies above. -/
theorem index_eq_iff {height j : ℕ} (hj : j % quotaOfBitmap = 0) :
    index height = j ↔ j ≤ height ∧ height < j + quotaOfBitmap := by
  unfold index quotaOfBitmap at *
  omega

/-- The first clear bit of the span: all bits below it are set, and the
bit there is clear unless it is one past the span. -/
theorem runLength_spec (s : Span) :
    runLength s.bit 0 quotaOfBitmap ≤ quotaOfBitmap ∧
      (∀ k < runLength s.bit 0 quotaOfBitmap, s.bit k = true) ∧
      (runLength s.bit 0 quotaOfBitmap < quotaOfBitmap →
        s.bit (runLength s.bit 0 quotaOfBitmap) = false) := by
  refine ⟨runLength_le _ _ _, fun k hk => ?_, fun h => ?_⟩
  · simpa using runLength_lt s.bit hk
  · simpa using runLength_stop s.bit h

theorem valid_ofHeight (height : ℕ) : (ofHeight height).Valid where
  aligned := index_mod height
  length := List.length_replicate
  lowest := by
    have h : runLength (ofHeight height).bit 0 quotaOfBitmap = 0 :=
      runLength_of_false _ (by simp [bit, ofHeight]) _
    rw [h, Nat.add_zero]
    rfl

@[simp] theorem spanIndex_updateUnusedPosition (s : Span) :
    s.updateUnusedPosition.spanIndex = s.spanIndex := by
  unfold updateUnusedPosition
  dsimp only
  split_ifs <;> rfl

@[simp] theorem bitmap_updateUnusedPosition (s : Span) :
    s.updateUnusedPosition.bitmap = s.bitmap := by
  unfold updateUnusedPosition
  dsimp only
  split_ifs <;> rfl

@[simp] theorem bit_updateUnusedPosition (s : Span) : s.updateUnusedPosition.bit = s.bit := by
  funext o
  simp [bit]

/-- From any lowest unused height that only passes set bits, the scan reaches
the first clear bit. -/
theorem valid_updateUnusedPosition {s : Span} (ha : s.spanIndex % quotaOfBitmap = 0)
    (hl : s.bitmap.length = segmentSize) {r : ℕ} (hr : r ≤ quotaOfBitmap)
    (hlow : s.lowestUnusedPostion = s.spanIndex + r) (hset : ∀ k < r, s.bit k = true) :
    s.updateUnusedPosition.Valid where
  aligned := by simpa using ha
  length := by simpa using hl
  lowest := by
    have hsplit := runLength_add s.bit (o := 0) hr (by simpa using hset)
    rw [zero_add] at hsplit
    unfold updateUnusedPosition
    rw [hlow, show s.spanIndex + r - s.spanIndex = r by omega]
    dsimp only
    split_ifs with hfull
    · -- already past the span: the run from `0` covers all of it
      have hr' : r = quotaOfBitmap := le_antisymm hr hfull
      subst hr'
      simp only [Nat.sub_self] at hsplit
      rw [hsplit, hlow]
      rfl
    · show s.spanIndex + r + runLength s.bit r (quotaOfBitmap - r) =
        s.spanIndex + runLength s.bit 0 quotaOfBitmap
      omega

/-- A valid span's scan is already done. -/
theorem updateUnusedPosition_of_valid {s : Span} (hv : s.Valid) : s.updateUnusedPosition = s := by
  unfold updateUnusedPosition
  rw [hv.lowest, Nat.add_sub_cancel_left]
  dsimp only
  split_ifs with h
  · rfl
  · -- the scan starts at the first clear bit and stops at once
    have hlt : runLength s.bit 0 quotaOfBitmap < quotaOfBitmap := by omega
    have hstop := runLength_stop s.bit hlt
    rw [zero_add] at hstop
    rw [runLength_of_false _ hstop, Nat.add_zero, ← hv.lowest]

/-- What `set` does to a span of the height: the height's bit is set, whether or
not it was before, and no other. -/
theorem bit_set {s : Span} (hv : s.Valid) {height : ℕ} (hown : s.ownToSpan height = true)
    (o : ℕ) : (s.set height).2.2.bit o = (decide (height - s.spanIndex = o) || s.bit o) := by
  have hin : height - s.spanIndex < quotaOfBitmap := by
    have h := (index_eq_iff hv.aligned).mp (by simpa [ownToSpan] using hown)
    omega
  unfold set
  simp only [hown, Bool.not_true, Bool.false_eq_true, if_false]
  split_ifs with hb
  · -- the bit was set already
    by_cases ho : height - s.spanIndex = o
    · subst ho
      simp [hb]
    · simp [ho]
  · simp only [bit_updateUnusedPosition]
    apply testBit_setBit
    rw [hv.length]
    unfold segmentSize
    unfold quotaOfBitmap at hin
    omega

theorem spanIndex_set (s : Span) (height : ℕ) : (s.set height).2.2.spanIndex = s.spanIndex := by
  unfold set
  dsimp only
  split_ifs <;> simp

/-- `set` reports a new bit exactly for a height of the span whose bit was clear. -/
theorem modified_set (s : Span) (height : ℕ) :
    (s.set height).2.1 = (s.ownToSpan height && !s.bit (height - s.spanIndex)) := by
  unfold set
  dsimp only
  split_ifs with h1 h2 <;> simp_all

/-- A height whose bit is already set leaves the span as it is. -/
theorem set_of_not_modified {s : Span} {height : ℕ} (h : (s.set height).2.1 = false) :
    (s.set height).2.2 = s := by
  unfold set at h ⊢
  dsimp only at h ⊢
  split_ifs at h ⊢ <;> simp_all

theorem valid_set {s : Span} (hv : s.Valid) (height : ℕ) : (s.set height).2.2.Valid := by
  unfold set
  dsimp only
  split_ifs with hown hb
  · exact hv
  · exact hv
  · -- the bits below the old lowest unused height are still set
    have hspec := runLength_spec s
    apply valid_updateUnusedPosition (r := runLength s.bit 0 quotaOfBitmap)
    · exact hv.aligned
    · simpa using hv.length
    · exact hspec.1
    · exact hv.lowest
    · intro k hk
      have hlen : (height - s.spanIndex) / 64 < s.bitmap.length := by
        have h := (index_eq_iff hv.aligned).mp (by simpa [ownToSpan] using hown)
        rw [hv.length]
        unfold segmentSize
        unfold quotaOfBitmap at h
        omega
      have hk' : testBit s.bitmap k = true := hspec.2.1 k hk
      show testBit (setBit s.bitmap (height - s.spanIndex)) k = true
      rw [testBit_setBit hlen, hk', Bool.or_true]

/-- A valid span is full exactly when all of its 1024 bits are set. -/
theorem full_iff {s : Span} (hv : s.Valid) :
    s.full = true ↔ ∀ o < quotaOfBitmap, s.bit o = true := by
  rw [full, WordBitmap.full_iff, hv.length]
  rfl

/-- A valid span is full exactly when its lowest unused height is one past its end. -/
theorem full_iff_lowest {s : Span} (hv : s.Valid) :
    s.full = true ↔ s.lowestUnusedPostion = s.spanIndex + quotaOfBitmap := by
  rw [full_iff hv, hv.lowest, Nat.add_left_cancel_iff, runLength_eq_iff]
  simp

theorem ownToSpan_eq_true {s : Span} {height : ℕ} :
    s.ownToSpan height = true ↔ index height = s.spanIndex := by
  simp [ownToSpan]

theorem index_index (height : ℕ) : index (index height) = index height :=
  (index_eq_iff (index_mod height)).mpr ⟨le_refl _, by unfold quotaOfBitmap; omega⟩

/-- The scan only moves the lowest unused height up. -/
theorem le_lowest_updateUnusedPosition (s : Span) :
    s.lowestUnusedPostion ≤ s.updateUnusedPosition.lowestUnusedPostion := by
  unfold updateUnusedPosition
  dsimp only
  split_ifs
  · exact le_refl _
  · exact Nat.le_add_right _ _

theorem le_lowest_set (s : Span) (height : ℕ) :
    s.lowestUnusedPostion ≤ (s.set height).2.2.lowestUnusedPostion := by
  unfold set
  dsimp only
  split_ifs
  · exact le_refl _
  · exact le_refl _
  · exact le_lowest_updateUnusedPosition { s with bitmap := setBit s.bitmap (height - s.spanIndex) }

/-! ### Setting several heights -/

theorem spanIndex_foldl_set (l : List ℕ) (s : Span) :
    (l.foldl (fun s h => (s.set h).2.2) s).spanIndex = s.spanIndex := by
  induction l generalizing s with
  | nil => rfl
  | cons h l ih => rw [List.foldl_cons, ih, spanIndex_set]

theorem valid_foldl_set (l : List ℕ) {s : Span} (hv : s.Valid) :
    (l.foldl (fun s h => (s.set h).2.2) s).Valid := by
  induction l generalizing s with
  | nil => exact hv
  | cons h l ih => exact ih (valid_set hv h)

/-- Setting heights of a span one after another sets their bits and no other. -/
theorem bit_foldl_set {l : List ℕ} {s : Span} (hv : s.Valid)
    (hown : ∀ h ∈ l, s.ownToSpan h = true) (o : ℕ) :
    (l.foldl (fun s h => (s.set h).2.2) s).bit o = (decide (s.spanIndex + o ∈ l) || s.bit o) := by
  induction l generalizing s with
  | nil => simp
  | cons h l ih =>
    have hh : index h = s.spanIndex := ownToSpan_eq_true.mp (hown h List.mem_cons_self)
    have hown' : ∀ h' ∈ l, (s.set h).2.2.ownToSpan h' = true := fun h' hh' => by
      rw [ownToSpan_eq_true, spanIndex_set]
      exact ownToSpan_eq_true.mp (hown h' (List.mem_cons_of_mem h hh'))
    -- the offset of `h` is `o` exactly when `h` is the height at offset `o`
    have heq : (h - s.spanIndex = o) ↔ (s.spanIndex + o = h) := by
      have := index_le h
      omega
    rw [List.foldl_cons, ih (valid_set hv h) hown', spanIndex_set,
      bit_set hv (hown h List.mem_cons_self)]
    by_cases ho : s.spanIndex + o = h
    · simp [ho, heq.mpr ho]
    · simp [ho, heq]

end Span

end Sync

end TopChain

import TopChain.Receipts.LatestLacking
import TopChain.Lib.WordBitmap

/-!
# The processed heights as a bitmap

`xprocessed_height_record_t` keeps the heights a table processed as a bitmap in 64-bit
words: the deque covers `[m_min_height, m_max_height)`, and bit `x - m_min_height` is
set for each processed height `x` (`WordBitmap.testBit`).  `record_height` grows the
deque in front and behind to reach the height's word and sets its bit;
`update_min_height` drops the words below a height's word.

What the record is for is the set of heights processed since the words that held them
were dropped (`processedHeights`).  `Records r hs` says the record `r` holds the heights
`hs`: its words are aligned and fewer than `2 ^ 32`, and its bits are exactly `hs`.
Every call keeps it as long as the heights stay below `2 ^ 37`, so that the casts of
word counts and indices to `uint32_t` lose nothing (`Records.recordHeight`,
`Records.updateMinHeight`); a run of calls then never reads past the deque, and
`is_record_height` answers for the recorded range whether the height was processed
(`isRecordHeight_run`).  From `2 ^ 38` on the casts cut the counts, and the record
writes past its deque (module `ProcessedHeight`).

With what the walk of `get_latest_lacking_saction` reports
(`reported_of_getLatestLackingSaction`), a section it finds is a run of heights never
processed, below heights that all were (`getLatestLackingSaction_run`).

## Main definitions

* `RecordOp`, `ProcessedHeightRecord.run` — runs of the two calls.
* `processedHeights` — what a run has processed.
* `ProcessedHeightRecord.Records` — the record holds a set of heights.
-/

namespace TopChain

namespace Receipts

/-- The calls that change the record: `record_height` for a table block filed, and
`update_min_height` when `get_lacking_section` prunes. -/
inductive RecordOp where
  | recordHeight (height : UInt64)
  | updateMinHeight (height : UInt64)
  deriving DecidableEq, Repr

/-- The height a call names. -/
def RecordOp.height : RecordOp → UInt64
  | .recordHeight height => height
  | .updateMinHeight height => height

/-- What a call does to the processed heights: a recorded height joins them, and a
prune drops those below the word of its height. -/
def RecordOp.keep (hs : List UInt64) : RecordOp → List UInt64
  | .recordHeight height => height :: hs
  | .updateMinHeight height => hs.filter fun x => ProcessedHeightRecord.wordStart height ≤ x

/-- The heights a run of calls processed, and did not prune. -/
def processedHeights (ops : List RecordOp) : List UInt64 :=
  ops.foldl RecordOp.keep []

namespace ProcessedHeightRecord

/-- One call; `none` where `record_height` writes past the deque. -/
def apply (r : ProcessedHeightRecord) : RecordOp → Option ProcessedHeightRecord
  | .recordHeight height => r.recordHeight height
  | .updateMinHeight height => some (r.updateMinHeight height)

/-- A run of calls. -/
def run (r : ProcessedHeightRecord) : List RecordOp → Option ProcessedHeightRecord
  | [] => some r
  | op :: ops => (r.apply op).bind fun r => r.run ops

/-- The first step of `record_height`: words in front, down to the height's word. -/
def growFront (r : ProcessedHeightRecord) (height : UInt64) : ProcessedHeightRecord :=
  if wordStart height < r.minHeight then
    let addRecordNum := ((r.minHeight - wordStart height) >>> 6).toUInt32.toNat
    { r with bitRecord := List.replicate addRecordNum 0 ++ r.bitRecord, minHeight := wordStart height }
  else r

/-- The second step of `record_height`: words behind, up to the height's word. -/
def growBack (r : ProcessedHeightRecord) (height : UInt64) : ProcessedHeightRecord :=
  if wordStart height + 64 > r.maxHeight then
    let addRecordNum := ((wordStart height + 64 - r.maxHeight) >>> 6).toUInt32.toNat
    { r with bitRecord := r.bitRecord ++ List.replicate addRecordNum 0, maxHeight := wordStart height + 64 }
  else r

/-- The last step of `record_height`: set the height's bit and widen the recorded range. -/
def markHeight (r : ProcessedHeightRecord) (height : UInt64) : Option ProcessedHeightRecord :=
  match r.bitRecord[r.recordIdx (wordStart height)]? with
  | none => none
  | some word =>
    let r := { r with
      bitRecord := r.bitRecord.set (r.recordIdx (wordStart height))
        (word ||| (1 : UInt64) <<< (height - wordStart height)) }
    let r := if height > r.maxRecordHeight then { r with maxRecordHeight := height } else r
    some (if height < r.minRecordHeight then { r with minRecordHeight := height } else r)

theorem recordHeight_eq (r : ProcessedHeightRecord) (height : UInt64) :
    r.recordHeight height = ((r.growFront height).growBack height).markHeight height := rfl

/-! ### Words and offsets -/

/-- `& 0xFFFFFFFFFFFFFFC0` clears the six low bits: a height's word starts at the
multiple of 64 below it. -/
theorem toNat_wordStart (height : UInt64) : (wordStart height).toNat = height.toNat / 64 * 64 := by
  have hmask : (0xFFFFFFFFFFFFFFC0 : UInt64).toNat = (2 ^ 58 - 1) * 2 ^ 6 := rfl
  show (height &&& 0xFFFFFFFFFFFFFFC0).toNat = height.toNat / 2 ^ 6 * 2 ^ 6
  rw [UInt64.toNat_and, hmask]
  apply Nat.eq_of_testBit_eq
  intro i
  rw [Nat.testBit_and, Nat.testBit_mul_two_pow, Nat.testBit_mul_two_pow, Nat.testBit_two_pow_sub_one,
    Nat.testBit_div_two_pow]
  -- the mask keeps bits 6 to 63, and a height has no bit from 64 on
  by_cases h6 : 6 ≤ i
  · have hi : i - 6 + 6 = i := by omega
    by_cases h64 : i < 64
    · simp [h6, hi, show i - 6 < 58 by omega]
    · have hz : height.toNat.testBit i = false := Nat.testBit_lt_two_pow
        (Nat.lt_of_lt_of_le height.toNat_lt (Nat.pow_le_pow_right (by decide) (by omega)))
      simp [h6, hi, hz]
  · simp [h6]

theorem wordStart_le (height : UInt64) : wordStart height ≤ height := by
  rw [UInt64.le_iff_toNat_le, toNat_wordStart]
  exact Nat.div_mul_le_self _ _

theorem toNat_sub_wordStart (height : UInt64) :
    (height - wordStart height).toNat = height.toNat % 64 := by
  rw [UInt64.toNat_sub_of_le _ _ (wordStart_le height), toNat_wordStart]
  omega

/-- `1 << (height - min_height)` is the mask of the height's bit in its word. -/
theorem shiftLeft_sub_wordStart (height : UInt64) :
    (1 : UInt64) <<< (height - wordStart height) = WordBitmap.mask (height.toNat % 64) := by
  have h : height - wordStart height = (height.toNat % 64).toUInt64 := by
    apply UInt64.toNat_inj.mp
    rw [toNat_sub_wordStart, Nat.toUInt64_eq, UInt64.toNat_ofNat']
    omega
  rw [WordBitmap.mask, h]

/-- The word index of a height at or above an aligned `m_min_height` is its offset over
64, while that stays below `2 ^ 32`. -/
theorem recordIdx_wordStart {r : ProcessedHeightRecord} {height : UInt64}
    (halign : r.minHeight.toNat % 64 = 0) (hle : r.minHeight ≤ height)
    (hsmall : (height.toNat - r.minHeight.toNat) / 64 < 2 ^ 32) :
    r.recordIdx (wordStart height) = (height.toNat - r.minHeight.toNat) / 64 := by
  have hle' := UInt64.le_iff_toNat_le.mp hle
  have hws := toNat_wordStart height
  have hmin : r.minHeight ≤ wordStart height := UInt64.le_iff_toNat_le.mpr (by omega)
  rw [recordIdx, UInt64.toNat_toUInt32, UInt64.toNat_shiftRight, UInt64.toNat_sub_of_le _ _ hmin,
    hws, Nat.shiftRight_eq_div_pow]
  have h64 : (6 : UInt64).toNat % 64 = 6 := rfl
  rw [h64]
  omega

/-- A word count below `2 ^ 32`, shifted and cast as `record_height` does, is exact. -/
theorem toNat_shiftRight_six {d : UInt64} (hd : d.toNat / 64 < 2 ^ 32) :
    (d >>> 6).toUInt32.toNat = d.toNat / 64 := by
  rw [UInt64.toNat_toUInt32, UInt64.toNat_shiftRight, Nat.shiftRight_eq_div_pow]
  have h64 : (6 : UInt64).toNat % 64 = 6 := rfl
  rw [h64]
  omega

/-! ### The record holds a set of heights -/

/-- The record holds the heights `hs`: its words start at an aligned `m_min_height`, are
fewer than `2 ^ 32` and end at `m_max_height`; the recorded range starts inside them and
ends less than a word past them; every height of `hs` lies in them, and bit
`x - m_min_height` is set exactly for the heights of `hs`. -/
structure Records (r : ProcessedHeightRecord) (hs : List UInt64) : Prop where
  align : r.minHeight.toNat % 64 = 0
  length : r.minHeight.toNat + 64 * r.bitRecord.length = r.maxHeight.toNat
  small : r.bitRecord.length < 2 ^ 32
  minRecord : r.minHeight ≤ r.minRecordHeight
  maxRecord : r.maxRecordHeight.toNat < r.maxHeight.toNat + 64
  mem : ∀ x ∈ hs, r.minHeight ≤ x ∧ x.toNat < r.maxHeight.toNat
  bit : ∀ x, r.minHeight ≤ x →
    WordBitmap.testBit r.bitRecord (x.toNat - r.minHeight.toNat) = decide (x ∈ hs)

theorem records_initial : Records initial [] where
  align := rfl
  length := rfl
  small := by decide
  minRecord := UInt64.le_refl _
  maxRecord := by decide
  mem _ hx := by cases hx
  bit x _ := WordBitmap.testBit_of_length_le (Nat.zero_le _)

variable {r : ProcessedHeightRecord} {hs : List UInt64} {height : UInt64}

/-- Within the recorded range, `is_record_height` reads whether the height is held. -/
theorem Records.isRecordHeight_eq (hr : Records r hs) {x : UInt64} {b : Bool}
    (hlo : r.minRecordHeight ≤ x) (hhi : x ≤ r.maxRecordHeight) (h : r.isRecordHeight x = some b) :
    b = decide (x ∈ hs) := by
  have hmin : r.minHeight ≤ x := UInt64.le_trans hr.minRecord hlo
  have hmin' := UInt64.le_iff_toNat_le.mp hmin
  have hhi' := UInt64.le_iff_toNat_le.mp hhi
  -- a height of the recorded range is less than a word past the deque: its index is exact
  have hsmall : (x.toNat - r.minHeight.toNat) / 64 < 2 ^ 32 := by
    have := hr.length
    have := hr.maxRecord
    have := hr.small
    omega
  rw [isRecordHeight_of_le hlo hhi, recordIdx_wordStart hr.align hmin hsmall,
    shiftLeft_sub_wordStart] at h
  obtain ⟨word, hword, rfl⟩ := Option.map_eq_some_iff.mp h
  have hmod : (x.toNat - r.minHeight.toNat) % 64 = x.toNat % 64 := by
    have := hr.align
    omega
  rw [← hr.bit x hmin, WordBitmap.testBit, List.getD_eq_getElem?_getD, hword, Option.getD_some, hmod]

/-- Words added in front are clear, and shift the bits of the old ones by a word each. -/
theorem Records.growFront (hr : Records r hs) (height : UInt64) (hmax : r.maxHeight.toNat ≤ 2 ^ 37) :
    Records (r.growFront height) hs ∧ (r.growFront height).minHeight ≤ wordStart height ∧
      (r.growFront height).maxHeight = r.maxHeight := by
  unfold ProcessedHeightRecord.growFront
  by_cases hlt : wordStart height < r.minHeight
  · rw [if_pos hlt]
    have hlt' := UInt64.lt_iff_toNat_lt.mp hlt
    have hws := toNat_wordStart height
    have halign := hr.align
    have hlen := hr.length
    -- the words added are the distance from the height's word to the old first word
    have hk : ((r.minHeight - wordStart height) >>> 6).toUInt32.toNat =
        (r.minHeight.toNat - (wordStart height).toNat) / 64 := by
      rw [toNat_shiftRight_six (by rw [UInt64.toNat_sub_of_le _ _ (UInt64.le_of_lt hlt)]; omega),
        UInt64.toNat_sub_of_le _ _ (UInt64.le_of_lt hlt)]
    refine ⟨⟨?_, ?_, ?_, ?_, hr.maxRecord, ?_, ?_⟩, UInt64.le_refl _, rfl⟩
    · dsimp only
      omega
    · simp only [List.length_append, List.length_replicate, hk]
      omega
    · simp only [List.length_append, List.length_replicate, hk]
      omega
    · exact UInt64.le_of_lt (UInt64.lt_of_lt_of_le hlt hr.minRecord)
    · intro x hx
      obtain ⟨hxm, hxM⟩ := hr.mem x hx
      exact ⟨UInt64.le_of_lt (UInt64.lt_of_lt_of_le hlt hxm), hxM⟩
    · intro x hx
      simp only at hx ⊢
      have hx' := UInt64.le_iff_toNat_le.mp hx
      by_cases hxm : r.minHeight ≤ x
      · -- an old height: its offset moved up by the words added
        have hxm' := UInt64.le_iff_toNat_le.mp hxm
        rw [hk, show x.toNat - (wordStart height).toNat =
            64 * ((r.minHeight.toNat - (wordStart height).toNat) / 64) + (x.toNat - r.minHeight.toNat)
            by omega, WordBitmap.testBit_replicate_zero_append_add, hr.bit x hxm]
      · -- a height below the old words: in a new word, and not held
        have hxm' := UInt64.lt_iff_toNat_lt.mp (UInt64.not_le.mp hxm)
        rw [hk, WordBitmap.testBit_replicate_zero_append_of_lt _ (by omega)]
        exact (decide_eq_false fun hx => hxm (hr.mem x hx).1).symm
  · rw [if_neg hlt]
    exact ⟨hr, UInt64.not_lt.mp hlt, rfl⟩

/-- Below `2 ^ 37` the end of a height's word does not wrap. -/
theorem toNat_wordStart_add (hh : height.toNat < 2 ^ 37) :
    (wordStart height + 64).toNat = height.toNat / 64 * 64 + 64 := by
  have h64 : (64 : UInt64).toNat = 64 := rfl
  rw [UInt64.toNat_add, toNat_wordStart, h64]
  omega

/-- Words added behind are clear, and change no bit. -/
theorem Records.growBack (hr : Records r hs) (height : UInt64) (hh : height.toNat < 2 ^ 37)
    (hmax : r.maxHeight.toNat ≤ 2 ^ 37) :
    Records (r.growBack height) hs ∧ (r.growBack height).minHeight = r.minHeight ∧
      height.toNat < (r.growBack height).maxHeight.toNat ∧
      (r.growBack height).maxHeight.toNat ≤ 2 ^ 37 := by
  have hend := toNat_wordStart_add hh
  have halign := hr.align
  have hlen := hr.length
  unfold ProcessedHeightRecord.growBack
  by_cases hgt : wordStart height + 64 > r.maxHeight
  · rw [if_pos hgt]
    have hgt' := UInt64.lt_iff_toNat_lt.mp hgt
    -- the words added are the distance from the old end to the end of the height's word
    have hk : ((wordStart height + 64 - r.maxHeight) >>> 6).toUInt32.toNat =
        ((wordStart height + 64).toNat - r.maxHeight.toNat) / 64 := by
      rw [toNat_shiftRight_six (by rw [UInt64.toNat_sub_of_le _ _ (UInt64.le_of_lt hgt)]; omega),
        UInt64.toNat_sub_of_le _ _ (UInt64.le_of_lt hgt)]
    refine ⟨⟨hr.align, ?_, ?_, hr.minRecord, ?_, ?_, ?_⟩, rfl, ?_, ?_⟩
    · simp only [List.length_append, List.length_replicate, hk]
      omega
    · simp only [List.length_append, List.length_replicate, hk]
      omega
    · have := hr.maxRecord
      dsimp only
      omega
    · intro x hx
      obtain ⟨hxm, hxM⟩ := hr.mem x hx
      exact ⟨hxm, by dsimp only; omega⟩
    · intro x hx
      simp only [WordBitmap.testBit_append_replicate_zero]
      exact hr.bit x hx
    · dsimp only
      omega
    · dsimp only
      omega
  · rw [if_neg hgt]
    have hle := UInt64.le_iff_toNat_le.mp (UInt64.not_lt.mp hgt)
    exact ⟨hr, rfl, by omega, hmax⟩

/-- A record whose words are those of `r` with the bit of a covered height set, and whose
recorded range each end of which stays or moves to that height, holds that height too. -/
theorem Records.mark_of (hr : Records r hs) (hlo : r.minHeight ≤ height)
    (hhi : height.toNat < r.maxHeight.toNat) {r' : ProcessedHeightRecord}
    (hbits : r'.bitRecord = WordBitmap.setBit r.bitRecord (height.toNat - r.minHeight.toNat))
    (hmin : r'.minHeight = r.minHeight) (hmax : r'.maxHeight = r.maxHeight)
    (hminRec : r'.minRecordHeight = r.minRecordHeight ∨ r'.minRecordHeight = height)
    (hmaxRec : r'.maxRecordHeight = r.maxRecordHeight ∨ r'.maxRecordHeight = height) :
    Records r' (height :: hs) := by
  have hlo' := UInt64.le_iff_toNat_le.mp hlo
  have hidx : (height.toNat - r.minHeight.toNat) / 64 < r.bitRecord.length := by
    have := hr.length
    omega
  refine ⟨?_, ?_, ?_, ?_, ?_, ?_, ?_⟩
  · rw [hmin]
    exact hr.align
  · rw [hbits, hmin, hmax, WordBitmap.length_setBit]
    exact hr.length
  · rw [hbits, WordBitmap.length_setBit]
    exact hr.small
  · rcases hminRec with h | h <;> rw [h, hmin]
    · exact hr.minRecord
    · exact hlo
  · rcases hmaxRec with h | h <;> rw [h, hmax]
    · exact hr.maxRecord
    · omega
  · intro x hx
    rw [hmin, hmax]
    rcases List.mem_cons.mp hx with rfl | hx
    · exact ⟨hlo, hhi⟩
    · exact hr.mem x hx
  · intro x hx
    rw [hmin] at hx ⊢
    have hx' := UInt64.le_iff_toNat_le.mp hx
    -- the offsets of two heights above the first word agree only for the same height
    have heq : height.toNat - r.minHeight.toNat = x.toNat - r.minHeight.toNat ↔ x = height := by
      rw [← UInt64.toNat_inj]
      omega
    rw [hbits, WordBitmap.testBit_setBit hidx, hr.bit x hx]
    simp only [heq, List.mem_cons, Bool.decide_or]

/-- Setting the bit of a height the words cover adds it to the heights held. -/
theorem Records.markHeight (hr : Records r hs) (hlo : r.minHeight ≤ height)
    (hhi : height.toNat < r.maxHeight.toNat) :
    ∃ r', r.markHeight height = some r' ∧ Records r' (height :: hs) ∧ r'.maxHeight = r.maxHeight := by
  have hlo' := UInt64.le_iff_toNat_le.mp hlo
  have hidx : (height.toNat - r.minHeight.toNat) / 64 < r.bitRecord.length := by
    have := hr.length
    omega
  have hi := recordIdx_wordStart hr.align hlo (Nat.lt_trans hidx hr.small)
  have hword := List.getElem?_eq_getElem hidx
  -- the word written back is the old one with the height's bit set
  have hbits : r.bitRecord.set ((height.toNat - r.minHeight.toNat) / 64)
      (r.bitRecord[(height.toNat - r.minHeight.toNat) / 64] ||| (1 : UInt64) <<< (height - wordStart height)) =
      WordBitmap.setBit r.bitRecord (height.toNat - r.minHeight.toNat) := by
    have hmod : height.toNat % 64 = (height.toNat - r.minHeight.toNat) % 64 := by
      have := hr.align
      omega
    rw [shiftLeft_sub_wordStart, hmod]
    exact WordBitmap.set_or_mask_eq_setBit hword
  unfold ProcessedHeightRecord.markHeight
  rw [hi, hword]
  dsimp only
  split_ifs
  · exact ⟨_, rfl, hr.mark_of hlo hhi hbits rfl rfl (.inr rfl) (.inr rfl), rfl⟩
  · exact ⟨_, rfl, hr.mark_of hlo hhi hbits rfl rfl (.inl rfl) (.inr rfl), rfl⟩
  · exact ⟨_, rfl, hr.mark_of hlo hhi hbits rfl rfl (.inr rfl) (.inl rfl), rfl⟩
  · exact ⟨_, rfl, hr.mark_of hlo hhi hbits rfl rfl (.inl rfl) (.inl rfl), rfl⟩

/-- `record_height` of a height below `2 ^ 37`, on a record whose words end below it,
writes inside the deque and adds the height to those held. -/
theorem Records.recordHeight (hr : Records r hs) (hmax : r.maxHeight.toNat ≤ 2 ^ 37)
    (height : UInt64) (hh : height.toNat < 2 ^ 37) :
    ∃ r', r.recordHeight height = some r' ∧ Records r' (height :: hs) ∧
      r'.maxHeight.toNat ≤ 2 ^ 37 := by
  obtain ⟨hf, hfmin, hfmax⟩ := hr.growFront height hmax
  obtain ⟨hb, hbmin, hbhi, hbmax⟩ := hf.growBack height hh (by rw [hfmax]; exact hmax)
  -- after both steps the words cover the height
  have hlo : ((r.growFront height).growBack height).minHeight ≤ height := by
    rw [hbmin]
    exact UInt64.le_trans hfmin (wordStart_le height)
  obtain ⟨r', hr', hrec, hr'max⟩ := hb.markHeight hlo hbhi
  refine ⟨r', ?_, hrec, ?_⟩
  · rw [recordHeight_eq, hr']
  · rw [hr'max]
    exact hbmax

theorem bitRecord_updateMinHeight (r : ProcessedHeightRecord) (height : UInt64) :
    (r.updateMinHeight height).bitRecord =
      if wordStart height > r.minHeight then
        if r.bitRecord.length > ((wordStart height - r.minHeight) >>> 6).toUInt32.toNat then
          r.bitRecord.drop ((wordStart height - r.minHeight) >>> 6).toUInt32.toNat
        else []
      else r.bitRecord := by
  unfold ProcessedHeightRecord.updateMinHeight
  dsimp only
  split_ifs <;> rfl

theorem minHeight_updateMinHeight (r : ProcessedHeightRecord) (height : UInt64) :
    (r.updateMinHeight height).minHeight =
      if wordStart height > r.minHeight then wordStart height else r.minHeight := by
  unfold ProcessedHeightRecord.updateMinHeight
  dsimp only
  split_ifs <;> rfl

theorem maxHeight_updateMinHeight (r : ProcessedHeightRecord) (height : UInt64) :
    (r.updateMinHeight height).maxHeight =
      if r.maxHeight < wordStart height then wordStart height else r.maxHeight := by
  unfold ProcessedHeightRecord.updateMinHeight
  dsimp only
  split_ifs <;> rfl

theorem minRecordHeight_updateMinHeight (r : ProcessedHeightRecord) (height : UInt64) :
    (r.updateMinHeight height).minRecordHeight =
      if r.minRecordHeight < height then height else r.minRecordHeight := by
  unfold ProcessedHeightRecord.updateMinHeight
  dsimp only
  split_ifs <;> rfl

theorem maxRecordHeight_updateMinHeight (r : ProcessedHeightRecord) (height : UInt64) :
    (r.updateMinHeight height).maxRecordHeight =
      if r.maxRecordHeight < height then height else r.maxRecordHeight := by
  unfold ProcessedHeightRecord.updateMinHeight
  dsimp only
  split_ifs <;> rfl

/-- `update_min_height` of a height below `2 ^ 37` keeps the heights from the height's word
on: the words below it are dropped, and the recorded range rises to the height. -/
theorem Records.updateMinHeight (hr : Records r hs) (hmax : r.maxHeight.toNat ≤ 2 ^ 37)
    (height : UInt64) (hh : height.toNat < 2 ^ 37) :
    Records (r.updateMinHeight height) (hs.filter fun x => wordStart height ≤ x) ∧
      (r.updateMinHeight height).maxHeight.toNat ≤ 2 ^ 37 := by
  have hws := toNat_wordStart height
  have hwsh := UInt64.le_iff_toNat_le.mp (wordStart_le height)
  have halign := hr.align
  have hlen := hr.length
  have hsmall := hr.small
  have hmaxRec := hr.maxRecord
  have hminRec := UInt64.le_iff_toNat_le.mp hr.minRecord
  have hbits := bitRecord_updateMinHeight r height
  have hmin := minHeight_updateMinHeight r height
  have hmaxH := maxHeight_updateMinHeight r height
  -- the recorded range rises to the height, and its top ends at the old top or the height
  have hminR : r.minRecordHeight.toNat ≤ (r.updateMinHeight height).minRecordHeight.toNat ∧
      height.toNat ≤ (r.updateMinHeight height).minRecordHeight.toNat := by
    rw [minRecordHeight_updateMinHeight]
    split_ifs with h
    · exact ⟨Nat.le_of_lt (UInt64.lt_iff_toNat_lt.mp h), Nat.le_refl _⟩
    · exact ⟨Nat.le_refl _, UInt64.le_iff_toNat_le.mp (UInt64.not_lt.mp h)⟩
  have hmaxR : (r.updateMinHeight height).maxRecordHeight.toNat ≤
      max r.maxRecordHeight.toNat height.toNat := by
    rw [maxRecordHeight_updateMinHeight]
    split_ifs <;> omega
  generalize r.updateMinHeight height = r' at hbits hmin hmaxH hminR hmaxR ⊢
  by_cases hgt : wordStart height > r.minHeight
  · rw [if_pos hgt] at hbits hmin
    have hgt' := UInt64.lt_iff_toNat_lt.mp hgt
    -- the words dropped are those wholly below the height's word
    have hk : ((wordStart height - r.minHeight) >>> 6).toUInt32.toNat =
        ((wordStart height).toNat - r.minHeight.toNat) / 64 := by
      rw [toNat_shiftRight_six (by rw [UInt64.toNat_sub_of_le _ _ (UInt64.le_of_lt hgt)]; omega),
        UInt64.toNat_sub_of_le _ _ (UInt64.le_of_lt hgt)]
    rw [hk] at hbits
    by_cases hdrop : r.bitRecord.length > ((wordStart height).toNat - r.minHeight.toNat) / 64
    · -- some words are left: the old words end above the height's word
      rw [if_pos hdrop] at hbits
      have hmaxW : ¬r.maxHeight < wordStart height := fun h => by
        have := UInt64.lt_iff_toNat_lt.mp h
        omega
      rw [if_neg hmaxW] at hmaxH
      refine ⟨⟨?_, ?_, ?_, ?_, ?_, ?_, ?_⟩, by rw [hmaxH]; exact hmax⟩
      · rw [hmin]
        omega
      · rw [hbits, hmin, hmaxH, List.length_drop]
        omega
      · rw [hbits, List.length_drop]
        omega
      · rw [hmin, UInt64.le_iff_toNat_le]
        omega
      · rw [hmaxH]
        omega
      · intro x hx
        obtain ⟨hxh, hwx⟩ := List.mem_filter.mp hx
        rw [hmin, hmaxH]
        exact ⟨of_decide_eq_true hwx, (hr.mem x hxh).2⟩
      · intro x hx
        rw [hmin] at hx ⊢
        have hx' := UInt64.le_iff_toNat_le.mp hx
        have hxm : r.minHeight ≤ x := UInt64.le_of_lt (UInt64.lt_of_lt_of_le hgt hx)
        rw [hbits, WordBitmap.testBit_drop, show 64 * (((wordStart height).toNat - r.minHeight.toNat) / 64) +
            (x.toNat - (wordStart height).toNat) = x.toNat - r.minHeight.toNat by omega,
          hr.bit x hxm]
        simp [List.mem_filter, hx]
    · -- every word lies below the height's word: the deque is cleared
      rw [if_neg hdrop] at hbits
      have hmaxW : r'.maxHeight = wordStart height := by
        rw [hmaxH]
        split_ifs with h
        · rfl
        · apply UInt64.toNat_inj.mp
          have := UInt64.le_iff_toNat_le.mp (UInt64.not_lt.mp h)
          omega
      refine ⟨⟨?_, ?_, ?_, ?_, ?_, ?_, ?_⟩, by rw [hmaxW]; omega⟩
      · rw [hmin]
        omega
      · simp only [hbits, hmin, hmaxW, List.length_nil, Nat.mul_zero, Nat.add_zero]
      · rw [hbits, List.length_nil]
        decide
      · rw [hmin, UInt64.le_iff_toNat_le]
        omega
      · rw [hmaxW]
        omega
      · intro x hx
        obtain ⟨hxh, hwx⟩ := List.mem_filter.mp hx
        have := (hr.mem x hxh).2
        have := UInt64.le_iff_toNat_le.mp (of_decide_eq_true hwx)
        omega
      · intro x hx
        rw [hmin] at hx
        have hx' := UInt64.le_iff_toNat_le.mp hx
        rw [hbits, WordBitmap.testBit_of_length_le (by simp)]
        refine (decide_eq_false fun hxf => ?_).symm
        have := (hr.mem x (List.mem_filter.mp hxf).1).2
        omega
  · -- nothing is dropped, and every height held lies above the height's word
    rw [if_neg hgt] at hbits hmin
    have hwm := UInt64.le_iff_toNat_le.mp (UInt64.not_lt.mp hgt)
    have hmaxW : ¬r.maxHeight < wordStart height := fun h => by
      have := UInt64.lt_iff_toNat_lt.mp h
      omega
    rw [if_neg hmaxW] at hmaxH
    have hfilter : (hs.filter fun x => wordStart height ≤ x) = hs := by
      rw [List.filter_eq_self]
      intro x hx
      exact decide_eq_true (UInt64.le_trans (UInt64.not_lt.mp hgt) (hr.mem x hx).1)
    rw [hfilter]
    refine ⟨⟨?_, ?_, ?_, ?_, ?_, ?_, ?_⟩, by rw [hmaxH]; exact hmax⟩
    · rw [hmin]
      exact hr.align
    · rw [hbits, hmin, hmaxH]
      exact hr.length
    · rw [hbits]
      exact hr.small
    · rw [hmin, UInt64.le_iff_toNat_le]
      omega
    · rw [hmaxH]
      omega
    · intro x hx
      rw [hmin, hmaxH]
      exact hr.mem x hx
    · intro x hx
      rw [hmin] at hx ⊢
      rw [hbits]
      exact hr.bit x hx

/-- A call on a height below `2 ^ 37` keeps the record holding what the calls so far
processed. -/
theorem Records.apply (hr : Records r hs) (hmax : r.maxHeight.toNat ≤ 2 ^ 37) (op : RecordOp)
    (hop : op.height.toNat < 2 ^ 37) :
    ∃ r', r.apply op = some r' ∧ Records r' (RecordOp.keep hs op) ∧ r'.maxHeight.toNat ≤ 2 ^ 37 := by
  cases op with
  | recordHeight height => exact hr.recordHeight hmax height hop
  | updateMinHeight height =>
    obtain ⟨hrec, hbound⟩ := hr.updateMinHeight hmax height hop
    exact ⟨_, rfl, hrec, hbound⟩

/-- A run of calls on heights below `2 ^ 37` succeeds, and the record holds what it
processed. -/
theorem Records.run (hr : Records r hs) (hmax : r.maxHeight.toNat ≤ 2 ^ 37) (ops : List RecordOp)
    (hops : ∀ op ∈ ops, op.height.toNat < 2 ^ 37) :
    ∃ r', r.run ops = some r' ∧ Records r' (ops.foldl RecordOp.keep hs) := by
  -- induction on the run, from any record that holds what came before
  induction ops generalizing r hs with
  | nil => exact ⟨r, rfl, hr⟩
  | cons op ops ih =>
    obtain ⟨r₁, h₁, hr₁, hmax₁⟩ := hr.apply hmax op (hops op List.mem_cons_self)
    obtain ⟨r', h', hr'⟩ := ih hr₁ hmax₁ fun o ho => hops o (List.mem_cons_of_mem _ ho)
    refine ⟨r', ?_, hr'⟩
    rw [ProcessedHeightRecord.run, h₁, Option.bind_some, h']

theorem records_run (ops : List RecordOp) (hops : ∀ op ∈ ops, op.height.toNat < 2 ^ 37) :
    ∃ r, initial.run ops = some r ∧ Records r (processedHeights ops) :=
  records_initial.run (Nat.zero_le _) ops hops

/-- A run of `record_height` and `update_min_height` calls on heights below `2 ^ 37` never
writes past the deque, and afterwards `is_record_height`, for a height of the recorded
range, answers whether the run processed the height and did not prune it. -/
theorem isRecordHeight_run (ops : List RecordOp) (hops : ∀ op ∈ ops, op.height.toNat < 2 ^ 37) :
    ∃ r, initial.run ops = some r ∧
      ∀ x b, r.minRecordHeight ≤ x → x ≤ r.maxRecordHeight → r.isRecordHeight x = some b →
        (b = true ↔ x ∈ processedHeights ops) := by
  obtain ⟨r, hrun, hr⟩ := records_run ops hops
  refine ⟨r, hrun, fun x b hlo hhi h => ?_⟩
  rw [hr.isRecordHeight_eq hlo hhi h]
  exact decide_eq_true_iff

/-- Heights `1`, `2` and `6` processed. -/
def sampleOps : List RecordOp := [.recordHeight 1, .recordHeight 2, .recordHeight 6]

theorem sampleOps_height : ∀ op ∈ sampleOps, op.height.toNat < 2 ^ 37 := by
  intro op hop
  simp only [sampleOps, List.mem_cons, List.not_mem_nil, or_false] at hop
  rcases hop with rfl | rfl | rfl <;> decide

theorem isRecordHeight_sampleOps :
    ∃ r, initial.run sampleOps = some r ∧
      ∀ x b, r.minRecordHeight ≤ x → x ≤ r.maxRecordHeight → r.isRecordHeight x = some b →
        (b = true ↔ x ∈ processedHeights sampleOps) :=
  isRecordHeight_run sampleOps sampleOps_height

/-- After a run of calls on heights below `2 ^ 37`, a section `get_latest_lacking_saction`
reports is a run of heights the run never processed, or pruned, and every height above it
below the highest recorded one was processed. -/
theorem getLatestLackingSaction_run {ops : List RecordOp}
    (hops : ∀ op ∈ ops, op.height.toNat < 2 ^ 37) {r : ProcessedHeightRecord}
    (hrun : initial.run ops = some r) {maxLackingNum : UInt16} {left right : UInt64}
    (h : r.getLatestLackingSaction maxLackingNum = some (some (left, right))) :
    (∀ x, left ≤ x → x ≤ right → x ∉ processedHeights ops) ∧
      ∀ x, right < x → x < r.maxRecordHeight → x ∈ processedHeights ops := by
  obtain ⟨r', hrun', hr⟩ := records_run ops hops
  rw [hrun, Option.some.injEq] at hrun'
  subst hrun'
  obtain ⟨hpos, hmin, hlr, hright, -, habove, hclear⟩ := reported_of_getLatestLackingSaction h
  -- the walk stays inside the recorded range
  have hlo : ∀ x, left ≤ x → r.minRecordHeight ≤ x := fun x hx =>
    UInt64.le_trans (minRecordHeight_le_minCheckHeight r) (UInt64.le_trans hmin hx)
  have htop : right < r.maxRecordHeight := (le_sub_one_iff_lt hpos).mp hright
  constructor
  · intro x hlx hxr hx
    have hb := hr.isRecordHeight_eq (hlo x hlx) (UInt64.le_of_lt (UInt64.lt_of_le_of_lt hxr htop))
      (hclear x hlx hxr)
    exact absurd (decide_eq_true hx) (by rw [← hb]; decide)
  · intro x hrx hxm
    have hb := hr.isRecordHeight_eq (hlo x (UInt64.le_of_lt (UInt64.lt_of_le_of_lt hlr hrx)))
      (UInt64.le_of_lt hxm) (habove x hrx ((le_sub_one_iff_lt hpos).mpr hxm))
    exact of_decide_eq_true hb.symm

/-- The record after `sampleOps`: one word with bits `1`, `2` and `6`. -/
def sampleOpsRecord : ProcessedHeightRecord := ⟨[70], 0, 64, 0, 6⟩

theorem getLatestLackingSaction_sampleOps :
    initial.run sampleOps = some sampleOpsRecord ∧
      sampleOpsRecord.getLatestLackingSaction 16 = some (some (3, 5)) ∧
      (∀ x, 3 ≤ x → x ≤ 5 → x ∉ processedHeights sampleOps) ∧
        ∀ x, 5 < x → x < sampleOpsRecord.maxRecordHeight → x ∈ processedHeights sampleOps := by
  have hrun : initial.run sampleOps = some sampleOpsRecord := by decide
  have hsec : sampleOpsRecord.getLatestLackingSaction 16 = some (some (3, 5)) := by decide
  exact ⟨hrun, hsec, getLatestLackingSaction_run sampleOps_height hrun hsec⟩

end ProcessedHeightRecord

end Receipts

end TopChain

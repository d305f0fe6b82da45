import Mathlib.Data.UInt

/-!
# The record of processed table heights

`xprocessed_height_record_t` keeps which heights of a peer table's blocks a table
has processed: a deque of 64-bit words, word `i` holding the heights
`[m_min_height + 64 i, m_min_height + 64 i + 64)`, with `m_max_height` one word past
the last one.  `record_height` grows the deque at either end to reach the height's
word and sets its bit; `update_min_height` drops the words below a height;
`get_latest_lacking_saction` walks down from the highest recorded height for the
latest run of heights that were not processed.  Both compute a word's index as
`uint32_t((word_start - m_min_height) >> 6)`, and `record_height` the number of
words to add the same way.

Those casts lose the high bits once two heights are `2 ^ 38` apart, `2 ^ 32` words.
Recording height `2 ^ 38` on the empty record adds `2 ^ 32 + 1` words cut to one,
and sets a bit of word `0`, which stands for heights `0` to `63`; recording height
`64` after it then indexes word `1` of a deque of one word
(`recordHeight_index_past_end`), which the source reads and writes past the end.

Heights are `uint64_t` and computed as `UInt64`; the deque is a list whose indexing
returns `Option`, and `none` is the source's access past the end.  The loop of
`get_latest_lacking_saction` runs on fuel, one turn per height it can visit.

## Main definitions

* `ProcessedHeightRecord` — the record and its fields.
* `recordHeight`, `updateMinHeight`, `getLatestLackingSaction` — the three methods.
-/

namespace TopChain

namespace Receipts

/-- `xprocessed_height_record_t`. -/
structure ProcessedHeightRecord where
  bitRecord : List UInt64
  minHeight : UInt64
  maxHeight : UInt64
  minRecordHeight : UInt64
  maxRecordHeight : UInt64
  deriving DecidableEq, Repr

namespace ProcessedHeightRecord

/-- The record of a new table: no words, and every height `0`. -/
def initial : ProcessedHeightRecord := ⟨[], 0, 0, 0, 0⟩

/-- `& 0xFFFFFFFFFFFFFFC0`: the first height of a height's word. -/
def wordStart (height : UInt64) : UInt64 := height &&& 0xFFFFFFFFFFFFFFC0

/-- `uint32_t((height - m_min_height) >> 6)`: the index of the word of a word start. -/
def recordIdx (r : ProcessedHeightRecord) (minHeight : UInt64) : ℕ :=
  ((minHeight - r.minHeight) >>> 6).toUInt32.toNat

/-- `record_height`: add words in front down to the height's word and behind up to it,
then set the height's bit and widen the recorded range.  `none` where the word's
index is past the end of the deque. -/
def recordHeight (r : ProcessedHeightRecord) (height : UInt64) : Option ProcessedHeightRecord :=
  let newMinHeight := wordStart height
  let r :=
    if newMinHeight < r.minHeight then
      let addRecordNum := ((r.minHeight - newMinHeight) >>> 6).toUInt32.toNat
      { r with bitRecord := List.replicate addRecordNum 0 ++ r.bitRecord, minHeight := newMinHeight }
    else r
  let newMaxHeight := wordStart height + 64
  let r :=
    if newMaxHeight > r.maxHeight then
      let addRecordNum := ((newMaxHeight - r.maxHeight) >>> 6).toUInt32.toNat
      { r with bitRecord := r.bitRecord ++ List.replicate addRecordNum 0, maxHeight := newMaxHeight }
    else r
  let recordidx := r.recordIdx newMinHeight
  let addBit : UInt64 := 1 <<< (height - newMinHeight)
  match r.bitRecord[recordidx]? with
  | none => none
  | some word =>
    let r := { r with bitRecord := r.bitRecord.set recordidx (word ||| addBit) }
    let r := if height > r.maxRecordHeight then { r with maxRecordHeight := height } else r
    some (if height < r.minRecordHeight then { r with minRecordHeight := height } else r)

/-- `update_min_height`: drop the words below the height's word, and raise the
recorded range to the height. -/
def updateMinHeight (r : ProcessedHeightRecord) (height : UInt64) : ProcessedHeightRecord :=
  let newMinHeight := wordStart height
  let r :=
    if newMinHeight > r.minHeight then
      let deleteRecordNum := ((newMinHeight - r.minHeight) >>> 6).toUInt32.toNat
      { r with
        bitRecord := if r.bitRecord.length > deleteRecordNum then r.bitRecord.drop deleteRecordNum else []
        minHeight := newMinHeight }
    else r
  let r := if r.minRecordHeight < height then { r with minRecordHeight := height } else r
  let r := if r.maxRecordHeight < height then { r with maxRecordHeight := height } else r
  if r.maxHeight < newMinHeight then { r with maxHeight := newMinHeight } else r

/-- The loop of `get_latest_lacking_saction`, from `height` down to `minCheckHeight`,
with the right end found so far: `some (some (left_end, right_end))` for `true`,
`some none` for `false`, and `none` where a word's index is past the end.  The bit
of a height below the right end is read only when the run is not yet long enough,
as the source's `||` reads it. -/
def lackingLoop (r : ProcessedHeightRecord) (minCheckHeight : UInt64) (maxLackingNum : UInt16) :
    ℕ → UInt64 → Option UInt64 → Option (Option (UInt64 × UInt64))
  | 0, _, rightEnd => some (rightEnd.map fun rightEnd => (minCheckHeight, rightEnd))
  | fuel + 1, height, rightEnd =>
    if height ≥ minCheckHeight then
      let minHeight := wordStart height
      let recordidx := r.recordIdx minHeight
      let bit : UInt64 := 1 <<< (height - minHeight)
      match rightEnd with
      | none =>
        match r.bitRecord[recordidx]? with
        | none => none
        | some word =>
          if word &&& bit = 0 then lackingLoop r minCheckHeight maxLackingNum fuel (height - 1) (some height)
          else lackingLoop r minCheckHeight maxLackingNum fuel (height - 1) none
      | some rightEnd =>
        if height + maxLackingNum.toUInt64 ≤ rightEnd then some (some (height + 1, rightEnd))
        else
          match r.bitRecord[recordidx]? with
          | none => none
          | some word =>
            if word &&& bit ≠ 0 then some (some (height + 1, rightEnd))
            else lackingLoop r minCheckHeight maxLackingNum fuel (height - 1) (some rightEnd)
    else some (rightEnd.map fun rightEnd => (minCheckHeight, rightEnd))

/-- `get_latest_lacking_saction`: the latest run of heights below the highest recorded
one whose bits are clear, at most `max_lacking_num` long, as `(left_end, right_end)`.
The loop visits at most `m_max_record_height` heights, the fuel it is given. -/
def getLatestLackingSaction (r : ProcessedHeightRecord) (maxLackingNum : UInt16) :
    Option (Option (UInt64 × UInt64)) :=
  if r.maxRecordHeight = 0 ∨ r.maxRecordHeight = r.minRecordHeight then some none
  else
    let minCheckHeight := if r.minRecordHeight > 1 then r.minRecordHeight else 1
    r.lackingLoop minCheckHeight maxLackingNum r.maxRecordHeight.toNat (r.maxRecordHeight - 1) none

/-- Recording height `2 ^ 38` on a new record adds one word, not `2 ^ 32 + 1`; then
recording height `64` indexes word `1` of that one-word deque. -/
theorem recordHeight_index_past_end :
    (initial.recordHeight 274877906944).map (·.bitRecord.length) = some 1 ∧
      ((initial.recordHeight 274877906944).map fun r => r.recordIdx (wordStart 64)) = some 1 ∧
      (initial.recordHeight 274877906944).bind (·.recordHeight 64) = none := by
  decide

end ProcessedHeightRecord

end Receipts

end TopChain

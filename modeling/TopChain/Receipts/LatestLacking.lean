import TopChain.Receipts.ProcessedHeight

/-!
# The latest lacking section of the processed heights

`get_latest_lacking_saction` walks the heights down from just below the highest
recorded one.  The first height whose bit is clear is the right end of the section;
from there the walk goes on down while the bits stay clear and the section is shorter
than `max_lacking_num`, and the height above the first set bit, or above the first
height that would make the section too long, or `min_check_height` at the bottom, is
its left end.  `is_record_height` reads the same bits.

So the section the walk reports is exactly a run of heights that `is_record_height`
says were not processed, every height above it up to the highest recorded one was
processed, and it is at most `max_lacking_num` long, or one height when that is `0`
(`getLatestLackingSaction_found`).  When it reports none, every height it visited was
processed (`getLatestLackingSaction_none`).

## Main definitions

* `isRecordHeight` — `is_record_height`.
* `Walked`, `Reported` — what the walk has read above the current height, and what it
  reports.
-/

namespace TopChain

namespace Receipts

namespace ProcessedHeightRecord

/-- `is_record_height`: `false` outside the recorded range, and otherwise the height's
bit; `none` where its word is past the end of the deque. -/
def isRecordHeight (r : ProcessedHeightRecord) (height : UInt64) : Option Bool :=
  if height > r.maxRecordHeight ∨ height < r.minRecordHeight then some false
  else
    let minHeight := wordStart height
    (r.bitRecord[r.recordIdx minHeight]?).map fun word =>
      word &&& ((1 : UInt64) <<< (height - minHeight)) != 0

/-- `min_check_height`: the lowest height the walk visits. -/
def minCheckHeight (r : ProcessedHeightRecord) : UInt64 :=
  if r.minRecordHeight > 1 then r.minRecordHeight else 1

theorem getLatestLackingSaction_eq (r : ProcessedHeightRecord) (maxLackingNum : UInt16) :
    r.getLatestLackingSaction maxLackingNum =
      if r.maxRecordHeight = 0 ∨ r.maxRecordHeight = r.minRecordHeight then some none
      else
        r.lackingLoop r.minCheckHeight maxLackingNum r.maxRecordHeight.toNat
          (r.maxRecordHeight - 1) none := rfl

theorem one_le_minCheckHeight (r : ProcessedHeightRecord) : 1 ≤ r.minCheckHeight := by
  unfold minCheckHeight
  split_ifs with h
  · exact UInt64.le_of_lt h
  · exact UInt64.le_refl 1

theorem minRecordHeight_le_minCheckHeight (r : ProcessedHeightRecord) :
    r.minRecordHeight ≤ r.minCheckHeight := by
  unfold minCheckHeight
  split_ifs with h
  · exact UInt64.le_refl _
  · exact UInt64.not_lt.mp h

/-- Inside the recorded range, `is_record_height` reads the bit the walk reads. -/
theorem isRecordHeight_of_le {r : ProcessedHeightRecord} {height : UInt64}
    (hlo : r.minRecordHeight ≤ height) (hhi : height ≤ r.maxRecordHeight) :
    r.isRecordHeight height =
      (r.bitRecord[r.recordIdx (wordStart height)]?).map fun word =>
        word &&& ((1 : UInt64) <<< (height - wordStart height)) != 0 := by
  have hout : ¬(height > r.maxRecordHeight ∨ height < r.minRecordHeight) := by
    rintro (h | h)
    · exact UInt64.not_lt.mpr hhi h
    · exact UInt64.not_lt.mpr hlo h
  rw [isRecordHeight, if_neg hout]

section Arith

/-- A height just below `height` is `height` or above it. -/
theorem eq_or_lt_of_sub_one_lt {height h : UInt64} (h1 : 1 ≤ height) (hlt : height - 1 < h) :
    h = height ∨ height < h := by
  have h1' := UInt64.le_iff_toNat_le.mp h1
  have hlt' := UInt64.lt_iff_toNat_lt.mp hlt
  rw [UInt64.toNat_sub_of_le _ _ h1] at hlt'
  have h1'' : (1 : UInt64).toNat = 1 := rfl
  rcases Nat.lt_or_ge height.toNat h.toNat with hh | hh
  · exact .inr (UInt64.lt_iff_toNat_lt.mpr hh)
  · exact .inl (UInt64.toNat_inj.mp (by omega))

theorem one_le_toNat {height : UInt64} (h1 : 1 ≤ height) : 1 ≤ height.toNat := by
  have h := UInt64.le_iff_toNat_le.mp h1
  rwa [UInt64.toNat_one] at h

theorem one_le_of_ne_zero {x : UInt64} (hx : x ≠ 0) : 1 ≤ x := by
  rw [UInt64.le_iff_toNat_le, UInt64.toNat_one]
  have hx' : x.toNat ≠ 0 := fun h => hx (UInt64.toNat_inj.mp (by rw [h]; rfl))
  omega

theorem toNat_sub_one {height : UInt64} (h1 : 1 ≤ height) : (height - 1).toNat = height.toNat - 1 :=
  UInt64.toNat_sub_of_le _ _ h1

theorem toNat_add_one {height right : UInt64} (hlt : height < right) :
    (height + 1).toNat = height.toNat + 1 := by
  have hlt' := UInt64.lt_iff_toNat_lt.mp hlt
  have hr := right.toNat_lt
  rw [UInt64.toNat_add, UInt64.toNat_one, Nat.mod_eq_of_lt (by omega)]

end Arith

variable (r : ProcessedHeightRecord) (minCheck : UInt64) (maxLackingNum : UInt16)

/-- What the walk down to `height` has read: with no right end yet, every height above
`height` up to `top` is processed; with right end `rightEnd`, those above it are, and
those above `height` up to it are not. -/
def Walked (top height : UInt64) : Option UInt64 → Prop
  | none => ∀ h, height < h → h ≤ top → r.isRecordHeight h = some true
  | some rightEnd =>
    minCheck ≤ rightEnd ∧ rightEnd ≤ top ∧ height < rightEnd ∧
      rightEnd.toNat - height.toNat ≤ max maxLackingNum.toNat 1 ∧
      (∀ h, rightEnd < h → h ≤ top → r.isRecordHeight h = some true) ∧
      ∀ h, height < h → h ≤ rightEnd → r.isRecordHeight h = some false

/-- What the walk may report: no section, when every height it can visit was processed,
or a section of heights not processed, with every height above it processed. -/
def Reported (top : UInt64) : Option (UInt64 × UInt64) → Prop
  | none => ∀ h, minCheck ≤ h → h ≤ top → r.isRecordHeight h = some true
  | some (left, right) =>
    minCheck ≤ left ∧ left ≤ right ∧ right ≤ top ∧
      right.toNat + 1 - left.toNat ≤ max maxLackingNum.toNat 1 ∧
      (∀ h, right < h → h ≤ top → r.isRecordHeight h = some true) ∧
      ∀ h, left ≤ h → h ≤ right → r.isRecordHeight h = some false

variable {r minCheck maxLackingNum} {top height : UInt64}

/-- Below `min_check_height` the walk ends and reports what it has. -/
theorem Walked.finish {rightEnd : Option UInt64}
    (hw : Walked r minCheck maxLackingNum top height rightEnd) (hlt : height < minCheck) :
    Reported r minCheck maxLackingNum top (rightEnd.map fun rightEnd => (minCheck, rightEnd)) := by
  have hlt' := UInt64.lt_iff_toNat_lt.mp hlt
  cases rightEnd with
  | none => exact fun h hmin htop => hw h (UInt64.lt_of_lt_of_le hlt hmin) htop
  | some rightEnd =>
    obtain ⟨hmin, htop, hright, hlen, habove, hclear⟩ := hw
    refine ⟨UInt64.le_refl _, hmin, htop, by omega, habove,
      fun h hl hr => hclear h (UInt64.lt_of_lt_of_le hlt hl) hr⟩

/-- Stopping at `height` with a right end reports the heights above `height`. -/
theorem Walked.stop {rightEnd : UInt64}
    (hw : Walked r minCheck maxLackingNum top height (some rightEnd)) (hge : minCheck ≤ height) :
    Reported r minCheck maxLackingNum top (some (height + 1, rightEnd)) := by
  obtain ⟨hmin, htop, hright, hlen, habove, hclear⟩ := hw
  have hsucc := toNat_add_one hright
  have hright' := UInt64.lt_iff_toNat_lt.mp hright
  have hge' := UInt64.le_iff_toNat_le.mp hge
  refine ⟨UInt64.le_iff_toNat_le.mpr (by omega), UInt64.le_iff_toNat_le.mpr (by omega), htop,
    by omega, habove, fun h hl hr => hclear h ?_ hr⟩
  have hl' := UInt64.le_iff_toNat_le.mp hl
  exact UInt64.lt_iff_toNat_lt.mpr (by omega)

/-- A clear bit with no right end yet makes `height` the right end. -/
theorem Walked.clear_none (hw : Walked r minCheck maxLackingNum top height none)
    (hge : minCheck ≤ height) (h1 : 1 ≤ height) (htop : height ≤ top)
    (hbit : r.isRecordHeight height = some false) :
    Walked r minCheck maxLackingNum top (height - 1) (some height) := by
  have hsub := toNat_sub_one h1
  have h1' := UInt64.le_iff_toNat_le.mp h1
  have hone : (1 : UInt64).toNat = 1 := rfl
  refine ⟨hge, htop, UInt64.lt_iff_toNat_lt.mpr (by omega), by omega, hw, fun h hl hr => ?_⟩
  rcases eq_or_lt_of_sub_one_lt h1 hl with rfl | hlt
  · exact hbit
  · exact absurd hr (UInt64.not_le.mpr hlt)

/-- A set bit with no right end yet: the walk goes on down. -/
theorem Walked.set_none (hw : Walked r minCheck maxLackingNum top height none) (h1 : 1 ≤ height)
    (hbit : r.isRecordHeight height = some true) :
    Walked r minCheck maxLackingNum top (height - 1) none := by
  intro h hl htop
  rcases eq_or_lt_of_sub_one_lt h1 hl with rfl | hlt
  · exact hbit
  · exact hw h hlt htop

/-- A clear bit below the right end, with the section still short: the walk goes on. -/
theorem Walked.clear_some {rightEnd : UInt64}
    (hw : Walked r minCheck maxLackingNum top height (some rightEnd)) (h1 : 1 ≤ height)
    (hshort : ¬(height + maxLackingNum.toUInt64 ≤ rightEnd))
    (hbit : r.isRecordHeight height = some false) :
    Walked r minCheck maxLackingNum top (height - 1) (some rightEnd) := by
  obtain ⟨hmin, htop, hright, hlen, habove, hclear⟩ := hw
  have hsub := toNat_sub_one h1
  have h1' := UInt64.le_iff_toNat_le.mp h1
  have hright' := UInt64.lt_iff_toNat_lt.mp hright
  -- the test failed, so the section from `height` to the right end is shorter than the
  -- limit, whether or not `height + max_lacking_num` wrapped
  have hshort' : rightEnd.toNat - height.toNat < maxLackingNum.toNat := by
    have h := mt UInt64.le_iff_toNat_le.mpr hshort
    rw [UInt64.toNat_add, UInt16.toNat_toUInt64] at h
    have hr := rightEnd.toNat_lt
    by_cases hwrap : height.toNat + maxLackingNum.toNat < 2 ^ 64
    · rw [Nat.mod_eq_of_lt hwrap] at h
      omega
    · omega
  refine ⟨hmin, htop, UInt64.lt_iff_toNat_lt.mpr (by omega), by omega, habove, fun h hl hr => ?_⟩
  rcases eq_or_lt_of_sub_one_lt h1 hl with rfl | hlt
  · exact hbit
  · exact hclear h hlt hr

/-- One turn of the walk at a height it visits, with no right end yet: it fails on a word
past the end of the deque, or goes on down having read the height's bit. -/
theorem Walked.step_none {fuel : ℕ} {found : Option (UInt64 × UInt64)}
    (hw : Walked r minCheck maxLackingNum top height none) (hge : height ≥ minCheck)
    (h1 : 1 ≤ height) (hheight : height ≤ top)
    (hlo : r.minRecordHeight ≤ height) (hhi : height ≤ r.maxRecordHeight)
    (hloop : r.lackingLoop minCheck maxLackingNum (fuel + 1) height none = some found) :
    ∃ rightEnd, Walked r minCheck maxLackingNum top (height - 1) rightEnd ∧
      r.lackingLoop minCheck maxLackingNum fuel (height - 1) rightEnd = some found := by
  have hread := isRecordHeight_of_le hlo hhi
  rw [lackingLoop, if_pos hge] at hloop
  dsimp only at hloop
  cases hword : r.bitRecord[r.recordIdx (wordStart height)]? with
  | none =>
    rw [hword] at hloop
    dsimp only at hloop
    cases hloop
  | some word =>
    rw [hword] at hloop hread
    dsimp only at hloop
    by_cases hbit : word &&& (1 : UInt64) <<< (height - wordStart height) = 0
    · -- a clear bit: `height` is the right end
      rw [if_pos hbit] at hloop
      exact ⟨_, hw.clear_none hge h1 hheight (by simp [hread, hbit]), hloop⟩
    · rw [if_neg hbit] at hloop
      exact ⟨_, hw.set_none h1 (by simp [hread, hbit]), hloop⟩

/-- One turn of the walk at a height it visits, with a right end: it reports the section
(too long, or a set bit), fails on a word past the end, or goes on down. -/
theorem Walked.step_some {fuel : ℕ} {found : Option (UInt64 × UInt64)} {rightEnd : UInt64}
    (hw : Walked r minCheck maxLackingNum top height (some rightEnd)) (hge : height ≥ minCheck)
    (h1 : 1 ≤ height) (hlo : r.minRecordHeight ≤ height) (hhi : height ≤ r.maxRecordHeight)
    (hloop : r.lackingLoop minCheck maxLackingNum (fuel + 1) height (some rightEnd) = some found) :
    Reported r minCheck maxLackingNum top found ∨
      (Walked r minCheck maxLackingNum top (height - 1) (some rightEnd) ∧
        r.lackingLoop minCheck maxLackingNum fuel (height - 1) (some rightEnd) = some found) := by
  have hread := isRecordHeight_of_le hlo hhi
  rw [lackingLoop, if_pos hge] at hloop
  dsimp only at hloop
  by_cases hlong : height + maxLackingNum.toUInt64 ≤ rightEnd
  · -- one more height would make the section too long: it ends above `height`
    rw [if_pos hlong] at hloop
    cases hloop
    exact .inl (hw.stop hge)
  rw [if_neg hlong] at hloop
  cases hword : r.bitRecord[r.recordIdx (wordStart height)]? with
  | none =>
    rw [hword] at hloop
    dsimp only at hloop
    cases hloop
  | some word =>
    rw [hword] at hloop hread
    dsimp only at hloop
    by_cases hbit : word &&& (1 : UInt64) <<< (height - wordStart height) ≠ 0
    · -- a set bit ends the section
      rw [if_pos hbit] at hloop
      cases hloop
      exact .inl (hw.stop hge)
    · rw [if_neg hbit] at hloop
      exact .inr ⟨hw.clear_some h1 hlong (by simp [hread, not_not.mp hbit]), hloop⟩

/-- The walk reports only what it read: a run of heights not processed, below heights
that all were, or nothing when every height it visited was processed. -/
theorem lackingLoop_reported (hmin1 : 1 ≤ minCheck) (hlo : r.minRecordHeight ≤ minCheck)
    (htop : top ≤ r.maxRecordHeight) :
    ∀ fuel height rightEnd, height.toNat < fuel → height ≤ top →
      Walked r minCheck maxLackingNum top height rightEnd →
      ∀ found, r.lackingLoop minCheck maxLackingNum fuel height rightEnd = some found →
        Reported r minCheck maxLackingNum top found := by
  intro fuel
  -- induction on the fuel, which the height stays below as the walk goes down
  induction fuel with
  | zero => exact fun height rightEnd hfuel => absurd hfuel (Nat.not_lt_zero _)
  | succ fuel ih =>
    intro height rightEnd hfuel hheight hw found hloop
    by_cases hge : height ≥ minCheck
    swap
    · rw [lackingLoop, if_neg hge] at hloop
      cases hloop
      exact hw.finish (UInt64.not_le.mp hge)
    -- a visited height lies in the recorded range, and the walk goes on to the one below
    have h1 : 1 ≤ height := UInt64.le_trans hmin1 hge
    have hlo' := UInt64.le_trans hlo hge
    have hhi := UInt64.le_trans hheight htop
    have h1' := one_le_toNat h1
    have hnext : (height - 1).toNat < fuel := by
      rw [toNat_sub_one h1]
      omega
    have hnext' : height - 1 ≤ top :=
      UInt64.le_trans (UInt64.le_iff_toNat_le.mpr (by rw [toNat_sub_one h1]; omega)) hheight
    cases rightEnd with
    | none =>
      obtain ⟨rightEnd, hw', hloop'⟩ := hw.step_none hge h1 hheight hlo' hhi hloop
      exact ih _ _ hnext hnext' hw' found hloop'
    | some rightEnd =>
      rcases hw.step_some hge h1 hlo' hhi hloop with hrep | ⟨hw', hloop'⟩
      · exact hrep
      · exact ih _ _ hnext hnext' hw' found hloop'

theorem le_sub_one_iff_lt {x m : UInt64} (hm : 1 ≤ m) : x ≤ m - 1 ↔ x < m := by
  have hm' := one_le_toNat hm
  rw [UInt64.le_iff_toNat_le, UInt64.lt_iff_toNat_lt, toNat_sub_one hm]
  omega

/-- The walk of `get_latest_lacking_saction`, from just below the highest recorded
height with nothing read yet, reports only what it read. -/
theorem reported_of_lackingLoop {r : ProcessedHeightRecord} {maxLackingNum : UInt16}
    {found : Option (UInt64 × UInt64)} (hpos : 1 ≤ r.maxRecordHeight)
    (h : r.lackingLoop r.minCheckHeight maxLackingNum r.maxRecordHeight.toNat
      (r.maxRecordHeight - 1) none = some found) :
    Reported r r.minCheckHeight maxLackingNum (r.maxRecordHeight - 1) found := by
  have hpos' := one_le_toNat hpos
  have hsub := toNat_sub_one hpos
  have htop : r.maxRecordHeight - 1 ≤ r.maxRecordHeight :=
    UInt64.le_iff_toNat_le.mpr (by omega)
  -- nothing lies above the first height the walk visits
  have hstart : Walked r r.minCheckHeight maxLackingNum (r.maxRecordHeight - 1)
      (r.maxRecordHeight - 1) none := fun x hx hx' => absurd hx' (UInt64.not_le.mpr hx)
  exact lackingLoop_reported (one_le_minCheckHeight r) (minRecordHeight_le_minCheckHeight r)
    htop _ _ _ (by rw [hsub]; omega) (UInt64.le_refl _) hstart _ h

/-- A section `get_latest_lacking_saction` reports is what its walk, from just below the
highest recorded height, reports. -/
theorem reported_of_getLatestLackingSaction {r : ProcessedHeightRecord} {maxLackingNum : UInt16}
    {left right : UInt64}
    (h : r.getLatestLackingSaction maxLackingNum = some (some (left, right))) :
    1 ≤ r.maxRecordHeight ∧
      Reported r r.minCheckHeight maxLackingNum (r.maxRecordHeight - 1) (some (left, right)) := by
  rw [getLatestLackingSaction_eq] at h
  by_cases hnone : r.maxRecordHeight = 0 ∨ r.maxRecordHeight = r.minRecordHeight
  · rw [if_pos hnone] at h
    cases h
  rw [if_neg hnone] at h
  have hpos : 1 ≤ r.maxRecordHeight := one_le_of_ne_zero fun h => hnone (.inl h)
  exact ⟨hpos, reported_of_lackingLoop hpos h⟩

/-- `get_latest_lacking_saction` reports a section `(left, right)` only of heights it
reads as not processed, at most `max_lacking_num` of them (one when that is `0`), with
every height above it up to the highest recorded one processed. -/
theorem getLatestLackingSaction_found {r : ProcessedHeightRecord} {maxLackingNum : UInt16}
    {left right : UInt64}
    (h : r.getLatestLackingSaction maxLackingNum = some (some (left, right))) :
    r.minCheckHeight ≤ left ∧ left ≤ right ∧ right < r.maxRecordHeight ∧
      right.toNat + 1 - left.toNat ≤ max maxLackingNum.toNat 1 ∧
      (∀ height, left ≤ height → height ≤ right → r.isRecordHeight height = some false) ∧
      ∀ height, right < height → height < r.maxRecordHeight → r.isRecordHeight height = some true := by
  obtain ⟨hpos, hmin, hlr, hright, hlen, habove, hclear⟩ := reported_of_getLatestLackingSaction h
  exact ⟨hmin, hlr, (le_sub_one_iff_lt hpos).mp hright, hlen, hclear,
    fun x hx hx' => habove x hx ((le_sub_one_iff_lt hpos).mpr hx')⟩

/-- When the walk runs and reports no section, every height it visited was processed. -/
theorem getLatestLackingSaction_none {r : ProcessedHeightRecord} {maxLackingNum : UInt16}
    (h : r.getLatestLackingSaction maxLackingNum = some none)
    (hwalk : ¬(r.maxRecordHeight = 0 ∨ r.maxRecordHeight = r.minRecordHeight)) :
    ∀ height, r.minCheckHeight ≤ height → height < r.maxRecordHeight →
      r.isRecordHeight height = some true := by
  rw [getLatestLackingSaction_eq, if_neg hwalk] at h
  have hpos : 1 ≤ r.maxRecordHeight := one_le_of_ne_zero fun h => hwalk (.inl h)
  have hset := reported_of_lackingLoop hpos h
  exact fun x hx hx' => hset x hx ((le_sub_one_iff_lt hpos).mpr hx')

/-- Heights `1` to `5` processed, of the one word of heights `0` to `63`. -/
def fullRecord : ProcessedHeightRecord := ⟨[62], 0, 64, 0, 5⟩

theorem getLatestLackingSaction_fullRecord :
    fullRecord.getLatestLackingSaction 16 = some none ∧
      ∀ height, fullRecord.minCheckHeight ≤ height → height < fullRecord.maxRecordHeight →
        fullRecord.isRecordHeight height = some true :=
  ⟨by decide, @getLatestLackingSaction_none fullRecord 16 (by decide) (by decide)⟩

/-- Heights `1` and `5` processed, of the one word of heights `0` to `63`. -/
def sampleRecord : ProcessedHeightRecord := ⟨[34], 0, 64, 0, 5⟩

theorem getLatestLackingSaction_sampleRecord :
    sampleRecord.getLatestLackingSaction 16 = some (some (2, 4)) ∧
      (sampleRecord.minCheckHeight ≤ 2 ∧ (2 : UInt64) ≤ 4 ∧ (4 : UInt64) < sampleRecord.maxRecordHeight ∧
        (4 : UInt64).toNat + 1 - (2 : UInt64).toNat ≤ max (16 : UInt16).toNat 1 ∧
        (∀ height, 2 ≤ height → height ≤ 4 → sampleRecord.isRecordHeight height = some false) ∧
        ∀ height, 4 < height → height < sampleRecord.maxRecordHeight →
          sampleRecord.isRecordHeight height = some true) :=
  ⟨by decide, getLatestLackingSaction_found (by decide)⟩

end ProcessedHeightRecord

end Receipts

end TopChain

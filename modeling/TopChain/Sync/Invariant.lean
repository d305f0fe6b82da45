import TopChain.Sync.Tracks
import Mathlib.Order.Bounds.Basic

/-!
# The connected height of a chain's spans

Started by `initialize` from the store's latest connected height `H0`, with nothing
stored before, the spans of a chain keep, through any sequence of `set` and
`save` calls, the height up to which every height is either at most `H0` or was
set: `genesis_connect_height` is the largest `H` with all of `[0, H]` so, and
every span the chain holds has its lowest unused height at its first clear bit.

The invariant `Chain.Inv` adds to `Chain.Tracks` that the connected height is one
below the genesis span's lowest unused height, and that the genesis span is not
full.  The loop that follows a full genesis span forward keeps `Tracks`, and each
turn either stops or uses up a cached span or a stored span above the genesis
span (`loopBound`), so its fuel never runs out.

## Main definitions

* `Span.unusedHeights` — the heights a span may report as its lowest unused one.
* `Chain.spans`, `Chain.Inv`, `Chain.loopBound`.

## Main results

* `Chain.inv_followGenesis` — the genesis loop ends in the invariant.
* `Chain.inv_set`, `Chain.inv_save`, `Chain.inv_initSpans`, `Chain.inv_run` — the
  invariant from `initialize` on, over every sequence of calls.
* `Chain.genesisConnectHeight_run` — the connected height is the end of the
  covered prefix, and every span's lowest unused height is its first clear bit.
-/

namespace TopChain

namespace Sync

open WordBitmap TopChain.Sync.Span

/-- The heights a span may report as its lowest unused one: from its index on,
those whose bit is clear, and the height one past its end. -/
def Span.unusedHeights (s : Span) : Set ℕ :=
  {x | s.spanIndex ≤ x ∧ (x = s.spanIndex + quotaOfBitmap ∨ s.bit (x - s.spanIndex) = false)}

/-- A valid span's lowest unused height is the least of those heights. -/
theorem Span.Valid.isLeast_unusedHeights {s : Span} (hv : s.Valid) :
    IsLeast s.unusedHeights s.lowestUnusedPostion := by
  have hspec := runLength_spec s
  rw [hv.lowest]
  refine ⟨⟨Nat.le_add_right _ _, ?_⟩, fun x hx => ?_⟩
  · rcases hspec.1.lt_or_eq with hlt | heq
    · exact .inr (by rw [Nat.add_sub_cancel_left]; exact hspec.2.2 hlt)
    · exact .inl (by rw [heq])
  · -- below the first clear bit every height is set and inside the span
    obtain ⟨hle, hx⟩ := hx
    by_contra hlt
    have hoff : x - s.spanIndex < runLength s.bit 0 quotaOfBitmap := by omega
    rcases hx with hx | hx
    · have := hspec.1
      omega
    · rw [hspec.2.1 _ hoff] at hx
      exact absurd hx (by decide)

namespace Chain

/-- The spans a chain holds: its genesis span and the cached ones. -/
def spans (c : Chain) : List Span := c.connectToGenesisSpan :: c.highestSpans.map fun e => e.2.1

/-- The invariant between calls: the spans hold the covered heights, the
connected height is one below the genesis span's lowest unused height, and the
genesis span is not full. -/
structure Inv (c : Chain) (covered : ℕ → Prop) : Prop where
  tracks : c.Tracks covered
  connected : c.connectToGenesisHeight + 1 = c.connectToGenesisSpan.lowestUnusedPostion
  notFull : c.connectToGenesisSpan.full = false

section Inv

variable {c : Chain} {covered : ℕ → Prop}

theorem Inv.congr {covered' : ℕ → Prop} (hinv : c.Inv covered)
    (h : ∀ x, covered x ↔ covered' x) : c.Inv covered' := by
  have hc : covered = covered' := funext fun x => propext (h x)
  exact hc ▸ hinv

/-- Adding a height that is covered already changes nothing. -/
theorem Inv.add_covered (hinv : c.Inv covered) {height : ℕ} (h : covered height) :
    c.Inv fun x => covered x ∨ x = height :=
  hinv.congr fun _ => ⟨.inl, fun hx => hx.elim id fun hx => hx ▸ h⟩

/-- The connected height ends the longest prefix of covered heights. -/
theorem Inv.isGreatest (hinv : c.Inv covered) :
    IsGreatest {H | ∀ x ≤ H, covered x} c.genesisConnectHeight := by
  have ht := hinv.tracks
  have hv := ht.genValid
  have hconn := hinv.connected
  unfold genesisConnectHeight
  refine ⟨fun x hx => ht.covered_of_lt_lowest (by omega), fun H hH => ?_⟩
  -- the lowest unused height is not covered: its bit is clear
  by_contra hlt
  have hspec := runLength_spec c.connectToGenesisSpan
  have hlow := hv.lowest
  have hnot : runLength c.connectToGenesisSpan.bit 0 quotaOfBitmap < quotaOfBitmap := by
    have hne : c.connectToGenesisSpan.lowestUnusedPostion ≠
        c.connectToGenesisSpan.spanIndex + quotaOfBitmap := fun h => by
      have := hinv.notFull
      rw [(full_iff_lowest hv).mpr h] at this
      exact absurd this (by decide)
    have := hspec.1
    omega
  have hcov := hH (c.connectToGenesisSpan.spanIndex + runLength c.connectToGenesisSpan.bit 0
    quotaOfBitmap) (by omega)
  rw [← ht.genBit _ hnot, hspec.2.2 hnot] at hcov
  exact absurd hcov (by decide)

/-- Every span the chain holds has its lowest unused height at its first clear bit. -/
theorem Inv.isLeast_spans (hinv : c.Inv covered) :
    ∀ s ∈ c.spans, IsLeast s.unusedHeights s.lowestUnusedPostion := by
  intro s hs
  rcases List.mem_cons.mp hs with rfl | hs
  · exact hinv.tracks.genValid.isLeast_unusedHeights
  · obtain ⟨e, he, rfl⟩ := List.mem_map.mp hs
    exact (hinv.tracks.cached e he).valid.isLeast_unusedHeights

end Inv

/-! ### The genesis loop -/

/-- A bound on the turns the genesis loop has left: the cached spans, the stored
spans above the genesis span, and one more for a full genesis span. -/
def loopBound (c : Chain) : ℕ :=
  c.highestSpans.length +
    (c.store.blockSpans.filter fun e => decide (c.connectToGenesisSpan.spanIndex < e.1)).length +
    if c.connectToGenesisSpan.full then 1 else 0

theorem loopBound_lt_loopFuel (c : Chain) : c.loopBound < c.loopFuel := by
  unfold loopBound loopFuel
  have := List.length_filter_le
    (fun e : ℕ × List UInt64 => decide (c.connectToGenesisSpan.spanIndex < e.1)) c.store.blockSpans
  split_ifs <;> omega

/-- The write-back is at the genesis index, which the bound does not count. -/
theorem loopBound_writeBackGenesis (c : Chain) : c.writeBackGenesis.loopBound = c.loopBound := by
  have hf : (c.writeBackGenesis.store.blockSpans.filter
      fun e => decide (c.connectToGenesisSpan.spanIndex < e.1)) =
      c.store.blockSpans.filter fun e => decide (c.connectToGenesisSpan.spanIndex < e.1) := by
    unfold writeBackGenesis
    dsimp only
    split_ifs <;>
      first
      | rfl
      | exact filter_upsert_of_false (p := fun k => decide (c.connectToGenesisSpan.spanIndex < k))
          (by simp) _ _
  unfold loopBound
  rw [connectToGenesisSpan_writeBackGenesis, highestSpans_writeBackGenesis, hf]

section Advance

variable {c : Chain} {covered : ℕ → Prop} (ht : c.Tracks covered)
  (hfull : c.connectToGenesisSpan.full = true)
  (hG : c.connectToGenesisHeight + 1 = c.connectToGenesisSpan.lowestUnusedPostion)
include ht hfull hG

/-- Each turn past a full genesis span uses up a cached span or a stored one, or
reaches a span that is not full. -/
theorem loopBound_advanceGenesis : (c.advanceGenesis false).loopBound < c.loopBound := by
  have hnext := index_next_of_full ht hfull hG
  have hidx := spanIndex_advanceGenesis ht hfull hG
  have hle := length_filter_lt_le
    (Nat.le_add_right c.connectToGenesisSpan.spanIndex quotaOfBitmap) c.store.blockSpans
  have hone : (if (c.advanceGenesis false).connectToGenesisSpan.full then 1 else 0) ≤ 1 := by
    split_ifs <;> omega
  rcases advanceGenesis_cases c with ⟨s, m, hl, heq⟩ | ⟨hl, heq⟩
  · -- one cached span fewer
    have hlen : (c.advanceGenesis false).highestSpans.length = c.highestSpans.length - 1 := by
      rw [heq]
      exact length_eraseKey hl
    have hpos : 0 < c.highestSpans.length := List.length_pos_of_mem (mem_of_lookup_eq_some hl)
    have hst : (c.advanceGenesis false).store = c.store := by
      rw [heq]
      rfl
    unfold loopBound
    rw [hlen, hst, hidx, if_pos hfull]
    omega
  · have hh : (c.advanceGenesis false).highestSpans = c.highestSpans := by rw [heq]
    have hst : (c.advanceGenesis false).store = c.store := by rw [heq]
    unfold loopBound
    rw [hh, hst, hidx, if_pos hfull]
    split_ifs with hfull'
    · -- a full span read from the store is a stored span above the old genesis span
      rw [heq] at hfull'
      obtain ⟨bm, hbm⟩ := Store.mem_of_full_readSpanFromDb hfull'
      rw [hnext] at hbm
      have := length_filter_lt_lt (Nat.lt_add_of_pos_right (by decide : 0 < quotaOfBitmap)) hbm
      omega
    · omega

/-- One turn of the loop, with or without the write-back. -/
theorem advanceGenesis_spec (wb : Bool) :
    (c.advanceGenesis wb).Tracks covered ∧
      (c.advanceGenesis wb).connectToGenesisSpan.spanIndex =
        c.connectToGenesisSpan.spanIndex + quotaOfBitmap ∧
      (c.advanceGenesis wb).loopBound < c.loopBound := by
  cases wb
  · exact ⟨ht.advanceGenesis hfull hG, spanIndex_advanceGenesis ht hfull hG,
      loopBound_advanceGenesis ht hfull hG⟩
  · -- the write-back keeps everything the turn looks at
    rw [advanceGenesis_true]
    have ht' := ht.writeBackGenesis
    have hfull' : c.writeBackGenesis.connectToGenesisSpan.full = true := by simpa using hfull
    have hG' : c.writeBackGenesis.connectToGenesisHeight + 1 =
        c.writeBackGenesis.connectToGenesisSpan.lowestUnusedPostion := by simpa using hG
    refine ⟨ht'.advanceGenesis hfull' hG', ?_, ?_⟩
    · rw [spanIndex_advanceGenesis ht' hfull' hG', connectToGenesisSpan_writeBackGenesis]
    · rw [← loopBound_writeBackGenesis c]
      exact loopBound_advanceGenesis ht' hfull' hG'

end Advance

/-- The first step of a turn started one past the connected height brings that
height to one below the lowest unused one. -/
theorem catchUp_eq (c : Chain) :
    ∃ modified, c.catchUp (c.connectToGenesisHeight + 1) =
      ({ c with connectToGenesisHeight := c.connectToGenesisSpan.lowestUnusedPostion - 1,
                connectToGenesisHeightModified := modified },
        c.connectToGenesisSpan.lowestUnusedPostion) := by
  unfold catchUp
  split_ifs with hne
  · exact ⟨true, rfl⟩
  · -- nothing moved
    have heq : c.connectToGenesisHeight + 1 = c.connectToGenesisSpan.lowestUnusedPostion :=
      not_not.mp hne
    refine ⟨c.connectToGenesisHeightModified, ?_⟩
    rw [← heq, Nat.add_sub_cancel]

/-- The loop of `set_genesis_span` and `initialize`, started one past the
connected height with that height at most one below the genesis span's lowest
unused one, ends in the invariant when its fuel exceeds `loopBound`. -/
theorem inv_followGenesis {covered : ℕ → Prop} (wb : Bool) :
    ∀ (fuel : ℕ) (c : Chain), c.Tracks covered →
      c.connectToGenesisHeight + 1 ≤ c.connectToGenesisSpan.lowestUnusedPostion →
      c.loopBound < fuel → (followGenesis wb fuel c (c.connectToGenesisHeight + 1)).Inv covered
  | 0, _, _, _, hb => absurd hb (Nat.not_lt_zero _)
  | fuel + 1, c, ht, hle, hb => by
    obtain ⟨modified, hcu⟩ := catchUp_eq c
    rw [followGenesis, hcu]
    dsimp only
    -- the caught-up chain, its connected height one below the lowest unused one
    set c1 : Chain := { c with
      connectToGenesisHeight := c.connectToGenesisSpan.lowestUnusedPostion - 1,
      connectToGenesisHeightModified := modified } with hc1
    have ht1 : c1.Tracks covered := ht.of_eq rfl rfl rfl
    have hG1 : c1.connectToGenesisHeight + 1 = c1.connectToGenesisSpan.lowestUnusedPostion := by
      show c.connectToGenesisSpan.lowestUnusedPostion - 1 + 1 =
        c.connectToGenesisSpan.lowestUnusedPostion
      omega
    have hb1 : c1.loopBound = c.loopBound := rfl
    split_ifs with hfull
    · exact ⟨ht1, hG1, by simpa using hfull⟩
    · have hfull1 : c1.connectToGenesisSpan.full = true := by simpa using hfull
      obtain ⟨ht2, hidx2, hb2⟩ := advanceGenesis_spec ht1 hfull1 hG1 wb
      have hG2 := connectToGenesisHeight_advanceGenesis wb c1
      -- the next genesis span starts one past the connected height
      have hle2 : (c1.advanceGenesis wb).connectToGenesisHeight + 1 ≤
          (c1.advanceGenesis wb).connectToGenesisSpan.lowestUnusedPostion := by
        rw [ht2.genValid.lowest, hidx2, hG2, hG1, (full_iff_lowest ht1.genValid).mp hfull1]
        exact Nat.le_add_right _ _
      have hrest := inv_followGenesis wb fuel _ ht2 hle2 (by omega)
      rw [hG2, hG1] at hrest
      exact hrest

/-! ### The calls -/

section Calls

variable {c : Chain} {covered : ℕ → Prop}

theorem inv_setGenesisSpan (hinv : c.Inv covered) {height : ℕ}
    (hown : index height = c.connectToGenesisSpan.spanIndex) :
    (c.setGenesisSpan height).Inv fun x => covered x ∨ x = height := by
  have ht := hinv.tracks
  have hv := ht.genValid
  have hlo := index_le height
  have hhi := lt_index_add height
  unfold setGenesisSpan
  dsimp only
  split_ifs with hmod
  · -- the height's bit was set already: it is covered
    have hbit : c.connectToGenesisSpan.bit (height - c.connectToGenesisSpan.spanIndex) = true := by
      rw [modified_set, ownToSpan_eq_true.mpr hown] at hmod
      simpa using hmod
    have hcov := (ht.genBit _ (by omega)).mp hbit
    rw [Nat.add_sub_cancel' (by omega)] at hcov
    exact hinv.add_covered hcov
  · -- the loop starts from the old lowest unused height, one past the connected one
    have ht1 := ht.setGenesis hown true
    have hle : c.connectToGenesisHeight + 1 ≤
        (c.connectToGenesisSpan.set height).2.2.lowestUnusedPostion := by
      rw [hinv.connected]
      exact le_lowest_set _ _
    have hloop := inv_followGenesis true (loopFuel c) _ ht1 hle (loopBound_lt_loopFuel _)
    rw [← hinv.connected]
    exact hloop

theorem inv_setHighestSpans (hinv : c.Inv covered) {height : ℕ}
    (hlt : c.connectToGenesisSpan.spanIndex < index height) :
    (c.setHighestSpans height).Inv fun x => covered x ∨ x = height := by
  have ht := hinv.tracks
  have hlo := index_le height
  have hhi := lt_index_add height
  have hoff : height - index height < quotaOfBitmap := by omega
  have hadd : index height + (height - index height) = height := Nat.add_sub_cancel' hlo
  unfold setHighestSpans
  dsimp only
  split
  · next s m hl =>
    have hce := ht.cached _ (mem_of_lookup_eq_some hl)
    have hown : s.ownToSpan height = true := ownToSpan_eq_true.mpr hce.spanIndex.symm
    split_ifs with hmod
    · -- the height's bit was set already in its cached span: it is covered
      have hbit : s.bit (height - index height) = true := by
        rw [modified_set, hown, hce.spanIndex] at hmod
        simpa using hmod
      have hcov := (ht.known _ (index_mod height) hlt _ hoff).mp
        (by rw [knownBit_of_lookup_some hl]; exact hbit)
      rw [hadd] at hcov
      exact hinv.add_covered hcov
    · refine ⟨ht.upsertCache hlt (valid_set hce.valid height) ?_ (fun o => ?_)
        (fun h => absurd h (by decide)), hinv.connected, hinv.notFull⟩
      · rw [spanIndex_set]
        exact hce.spanIndex
      · rw [bit_set hce.valid hown, hce.spanIndex, knownBit_of_lookup_some hl]
  · next hl =>
    -- the span is read from the store, the height set in it, and the cache trimmed
    set s0 := c.store.readSpanFromDb (ofHeight (index height)) with hs0
    have hv0 : s0.Valid := Store.valid_readSpanFromDb_ofHeight ht.storeValid _
    have hidx0 : s0.spanIndex = index height := by
      rw [hs0, Store.spanIndex_readSpanFromDb]
      exact index_index height
    have hbit0 : ∀ o, s0.bit o = c.knownBit (index height) o := by
      intro o
      rw [hs0, Store.bit_readSpanFromDb_ofHeight, index_index, knownBit_of_lookup_none hl]
    have hown : s0.ownToSpan height = true := ownToSpan_eq_true.mpr hidx0.symm
    refine ⟨(ht.upsertCache hlt (valid_set hv0 height) (by rw [spanIndex_set]; exact hidx0)
      (fun o => by rw [bit_set hv0 hown, hidx0, hbit0]) (fun hm o => ?_)).clearHighestSpans,
      hinv.connected, hinv.notFull⟩
    -- a span the height did not change is the one read, with the stored bits
    rw [set_of_not_modified hm, hbit0, knownBit_of_lookup_none hl]

/-- `set` adds its height to the covered ones. -/
theorem inv_set (hinv : c.Inv covered) (height : ℕ) :
    (c.set height).Inv fun x => covered x ∨ x = height := by
  have ht := hinv.tracks
  have hv := ht.genValid
  have hconn := hinv.connected
  have hal := hv.aligned
  have hlow := hv.lowest
  unfold Chain.set
  split_ifs with hbelow hown
  · -- at or below the connected height: covered already
    exact hinv.add_covered (ht.covered_of_lt_lowest (by omega))
  · rw [ownToSpan_eq_true, index_index] at hown
    exact inv_setGenesisSpan hinv hown
  · -- a height of a span above the genesis span
    have hne : index height ≠ c.connectToGenesisSpan.spanIndex := fun h =>
      hown (by rw [ownToSpan_eq_true, index_index]; exact h)
    have hle : c.connectToGenesisSpan.spanIndex ≤ height := by
      rcases not_and_or.mp hbelow with h | h
      · omega
      · -- a connected height of 0 is that of span 0
        have h0 : c.connectToGenesisHeight = 0 := not_not.mp h
        unfold quotaOfBitmap at hal
        omega
    apply inv_setHighestSpans hinv
    unfold index quotaOfBitmap at *
    omega

theorem inv_save (hinv : c.Inv covered) : c.save.Inv covered := by
  refine ⟨hinv.tracks.save, ?_, ?_⟩
  · show c.writeBackGenesis.connectToGenesisHeight + 1 =
      c.writeBackGenesis.connectToGenesisSpan.lowestUnusedPostion
    simpa using hinv.connected
  · show c.writeBackGenesis.connectToGenesisSpan.full = false
    simpa using hinv.notFull

/-- The invariant holds after any sequence of calls, with the heights set added to
the covered ones. -/
theorem inv_run (hinv : c.Inv covered) (ops : List Op) :
    (c.run ops).Inv fun x => covered x ∨ Op.set x ∈ ops := by
  induction ops generalizing c covered with
  | nil => exact hinv.congr fun x => by simp
  | cons op ops ih =>
    cases op with
    | set height => exact (ih (inv_set hinv height)).congr fun x => by simp [or_assoc]
    | save => exact (ih (inv_save hinv)).congr fun x => by simp

end Calls

/-! ### Initialization -/

theorem spanIndex_initialSpan (height : ℕ) :
    (initialSpan height).spanIndex = index (height + 1) :=
  spanIndex_foldl_set _ _

theorem valid_initialSpan (height : ℕ) : (initialSpan height).Valid :=
  valid_foldl_set _ (valid_ofHeight _)

/-- `initialize` sets the heights of the span of `height + 1` up to `height`. -/
theorem bit_initialSpan (height o : ℕ) :
    (initialSpan height).bit o = decide (index (height + 1) + o ≤ height) := by
  have hlo := index_le (height + 1)
  have hhi := lt_index_add (height + 1)
  have hown : ∀ i ∈ List.range' (index (height + 1)) (height + 1 - index (height + 1)),
      (ofHeight (height + 1)).ownToSpan i = true := by
    intro i hi
    rw [List.mem_range'_1] at hi
    exact ownToSpan_eq_true.mpr ((index_eq_iff (index_mod _)).mpr ⟨hi.1, by omega⟩)
  have hz : (ofHeight (height + 1)).bit o = false := testBit_replicate_zero _ _
  unfold initialSpan
  rw [bit_foldl_set (valid_ofHeight _) hown, hz, Bool.or_false]
  simp only [ofHeight, List.mem_range'_1, decide_eq_decide]
  omega

theorem lowest_initialSpan (height : ℕ) :
    (initialSpan height).lowestUnusedPostion = height + 1 := by
  have hlo := index_le (height + 1)
  have hhi := lt_index_add (height + 1)
  -- the run of set bits from the span's start ends at `height + 1`
  have hm : height + 1 - index (height + 1) ≤ quotaOfBitmap := by omega
  have hset : ∀ k < height + 1 - index (height + 1), (initialSpan height).bit (0 + k) = true := by
    intro k hk
    rw [zero_add, bit_initialSpan, decide_eq_true_eq]
    omega
  have hclear : (initialSpan height).bit (0 + (height + 1 - index (height + 1))) = false := by
    rw [zero_add, bit_initialSpan, decide_eq_false_iff_not]
    omega
  rw [(valid_initialSpan height).lowest, spanIndex_initialSpan, runLength_add _ hm hset,
    runLength_of_false _ hclear]
  omega

/-- The chain `initialize` hands to its loop: the heights up to `latest` set,
nothing cached or stored. -/
theorem tracks_initial {c : Chain} {latest : ℕ}
    (hgen : c.connectToGenesisSpan = initialSpan latest) (hcache : c.highestSpans = [])
    (hstore : c.store.blockSpans = []) : c.Tracks (· ≤ latest) := by
  have hlo := index_le (latest + 1)
  have hidx : c.connectToGenesisSpan.spanIndex = index (latest + 1) := by
    rw [hgen, spanIndex_initialSpan]
  refine ⟨hgen ▸ valid_initialSpan latest, fun x hx => by omega, fun o _ => ?_,
    fun j hja hjlt o _ => ?_, fun e he => by simp [hcache] at he,
    by rw [hcache]; exact List.Pairwise.nil,
    ⟨by rw [hstore]; exact List.Pairwise.nil, by simp [hstore]⟩⟩
  · rw [hgen, bit_initialSpan, spanIndex_initialSpan, decide_eq_true_iff]
  · -- nothing above the initial span is known, and nothing there is covered
    have hhi := lt_index_add (latest + 1)
    have hal := index_mod (latest + 1)
    have hst : c.store.bit j o = false := by simp [Store.bit, hstore]
    rw [knownBit_of_lookup_none (by rw [hcache]; rfl), hst]
    simp only [Bool.false_eq_true, false_iff, not_le]
    rw [hidx] at hjlt
    unfold quotaOfBitmap at *
    omega

/-- On an empty store `initialize` hands its loop the span of `latest + 1` with the
heights up to `latest` set, and nothing cached or stored. -/
theorem initSpans_eq (spanNums latest : ℕ) :
    ∃ c : Chain, (Chain.new spanNums ⟨[], none⟩).initSpans latest =
        { followGenesis false (loopFuel c) c c.connectToGenesisSpan.lowestUnusedPostion with
          initialed := true } ∧
      c.connectToGenesisSpan = initialSpan latest ∧ c.connectToGenesisHeight = latest ∧
      c.highestSpans = [] ∧ c.store.blockSpans = [] := by
  have hrec : (Chain.new spanNums ⟨[], none⟩).store.readSpanHeightFromDb = 0 := rfl
  have hs : (Chain.new spanNums ⟨[], none⟩).store.readSpanFromDb (ofHeight 0) = ofHeight 0 := rfl
  have hl : (ofHeight 0).lowestUnusedPostion = 0 := rfl
  have h0 : ((ofHeight 0).set 0).2.2 = initialSpan 0 := rfl
  refine ⟨_, rfl, ?_, ?_, ?_, ?_⟩
  -- the store records no height, so `latest` is above it unless it is 0
  all_goals
    rw [hrec]
    split_ifs with h
  · rfl
  · -- at 0, height 0 is set in the empty span 0
    have : latest = 0 := by omega
    subst this
    dsimp only
    rw [hs, if_pos hl, h0]
  · rfl
  · show 0 = latest
    omega
  all_goals rfl

/-- `initialize` on an empty store establishes the invariant, with the heights up
to `latest` covered. -/
theorem inv_initSpans (spanNums latest : ℕ) :
    ((Chain.new spanNums ⟨[], none⟩).initSpans latest).Inv (· ≤ latest) := by
  obtain ⟨c, hc, hgen, hG, hcache, hstore⟩ := initSpans_eq spanNums latest
  have hlow : c.connectToGenesisSpan.lowestUnusedPostion = c.connectToGenesisHeight + 1 := by
    rw [hgen, hG, lowest_initialSpan]
  have hinv := inv_followGenesis false (loopFuel c) c (tracks_initial hgen hcache hstore)
    hlow.ge (loopBound_lt_loopFuel c)
  rw [hc, hlow]
  exact ⟨hinv.tracks.of_eq rfl rfl rfl, hinv.connected, hinv.notFull⟩

/-! ### The connected prefix -/

/-- After `initialize` from the latest connected height `H0` on an empty store and
any sequence of calls, `genesis_connect_height` is the largest `H` with every height
of `[0, H]` at most `H0` or set, and every span the chain holds has its lowest
unused height at its first clear bit. -/
theorem genesisConnectHeight_run (spanNums H0 : ℕ) (ops : List Op) :
    IsGreatest {H | ∀ x ≤ H, x ≤ H0 ∨ Op.set x ∈ ops}
        (((Chain.new spanNums ⟨[], none⟩).initSpans H0).run ops).genesisConnectHeight ∧
      ∀ s ∈ (((Chain.new spanNums ⟨[], none⟩).initSpans H0).run ops).spans,
        IsLeast s.unusedHeights s.lowestUnusedPostion := by
  have hinv := inv_run (inv_initSpans spanNums H0) ops
  exact ⟨hinv.isGreatest, hinv.isLeast_spans⟩

end Chain

end Sync

end TopChain

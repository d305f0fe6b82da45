import TopChain.Sync.Invariant

/-!
# The unused heights of an interval

`xsync_chain_spans_t::get_continuous_unused_interval` tells the chain downloader
which heights of an interval `[first, second]` to fetch: the first run of heights
whose bits are clear.  It walks the interval span by span, from `first` on; each
span's `get_continuous_unused_interval` scans its part of the interval for its
first run of clear bits, `0` standing for none, and the runs are joined while they
touch.  A span above the genesis span that is not cached is read from the store
into the cache, and the cache is trimmed at the end.

The walk's loop tests `end_height < second` before it reads any span, with
`end_height` starting at `first`: an interval of one height is never scanned, and
the query answers `(0, 0)`, "nothing to fetch", for a height the chain lacks
(`getContinuousUnusedInterval_single_height`).

The two nested loops of the span's scan, over words and over bits, visit the bits
from the interval's offset on in order, one height each; they are one loop here.
The chain's loop runs on fuel, one turn per height of the interval, and each turn
moves past at least one height.

## Main definitions

* `Span.getContinuousUnusedInterval` — the scan of one span.
* `Chain.spanFor` — the span the walk reads for an index.
* `Chain.getContinuousUnusedInterval` — the walk.
-/

namespace TopChain

namespace Sync

namespace Span

/-- The loop of `xcommon_span_t::get_continuous_unused_interval` from offset `o`,
at `height`, with the run found so far (`0` for none), over the `fuel` bits left in
the span: a clear bit starts or extends the run, a set bit after a run ends the
scan, and so does passing `second`. -/
def scanUnused (s : Span) (second : ℕ) : ℕ → ℕ → ℕ → ℕ → ℕ → ℕ × ℕ
  | 0, _, _, unusedStart, unusedEnd => (unusedStart, unusedEnd)
  | fuel + 1, o, height, unusedStart, unusedEnd =>
    if s.bit o = false then
      let unusedStart := if unusedStart = 0 then height else unusedStart
      if second < height + 1 then (unusedStart, height)
      else scanUnused s second fuel (o + 1) (height + 1) unusedStart height
    else if unusedStart ≠ 0 then (unusedStart, unusedEnd)
    else if second < height + 1 then (unusedStart, unusedEnd)
    else scanUnused s second fuel (o + 1) (height + 1) unusedStart unusedEnd

/-- `xcommon_span_t::get_continuous_unused_interval`: the first run of clear bits
of `[first, second]` within the span, `(0, 0)` for none. -/
def getContinuousUnusedInterval (s : Span) (first second : ℕ) : ℕ × ℕ :=
  let offset := first - s.spanIndex
  scanUnused s second (quotaOfBitmap - offset) offset first 0 0

end Span

namespace Chain

/-- The span the walk reads for `spanIndex`: the genesis span if it owns it, else
the cached span, read from the store into the cache (not modified) if missing. -/
def spanFor (c : Chain) (spanIndex : ℕ) : Span × Chain :=
  if c.connectToGenesisSpan.ownToSpan spanIndex then (c.connectToGenesisSpan, c)
  else
    match c.highestSpans.lookup spanIndex with
    | some (s, _) => (s, c)
    | none =>
      let s := c.store.readSpanFromDb (Span.ofHeight spanIndex)
      (s, { c with highestSpans := upsert (fun _ => (s, false)) c.highestSpans spanIndex })

/-- The `while (end_height < second)` loop of
`xsync_chain_spans_t::get_continuous_unused_interval`, for at most `fuel` turns:
scan the rest of the span of `startHeight` up to `second`, then join the run found
to the one so far, or stop at a gap. -/
def unusedIntervalLoop (second : ℕ) :
    ℕ → Chain → ℕ → ℕ → ℕ → ℕ → (ℕ × ℕ) × Chain
  | 0, c, _, _, unusedStart, unusedEnd => ((unusedStart, unusedEnd), c)
  | fuel + 1, c, startHeight, endHeight, unusedStart, unusedEnd =>
    if endHeight < second then
      let spanIndex := Span.index startHeight
      let (span, c) := c.spanFor spanIndex
      let endHeight :=
        if spanIndex + quotaOfBitmap - 1 ≤ second then spanIndex + quotaOfBitmap - 1 else second
      let r := span.getContinuousUnusedInterval startHeight endHeight
      if r.2 = 0 then
        -- no clear bit in this span: go on, unless a run was found before
        if unusedStart = 0 then
          unusedIntervalLoop second fuel c (endHeight + 1) endHeight unusedStart unusedEnd
        else ((unusedStart, unusedEnd), c)
      else
        let unusedStart := if unusedStart = 0 then r.1 else unusedStart
        if unusedEnd = 0 then
          unusedIntervalLoop second fuel c (endHeight + 1) endHeight unusedStart r.2
        else if r.1 ≠ unusedEnd + 1 then ((unusedStart, unusedEnd), c)
        else unusedIntervalLoop second fuel c (endHeight + 1) endHeight unusedStart r.2
    else ((unusedStart, unusedEnd), c)

/-- `xsync_chain_spans_t::get_continuous_unused_interval`: the first run of heights
of `[first, second]` with clear bits, `(0, 0)` for none, and the chain with the
spans read into its cache trimmed (`clear_highest_spans`). -/
def getContinuousUnusedInterval (c : Chain) (first second : ℕ) : (ℕ × ℕ) × Chain :=
  let r := unusedIntervalLoop second (second + 1 - first) c first first 0 0
  (r.1, r.2.clearHighestSpans)

/-- A chain initialized at height `0` on an empty store. -/
def initialChain : Chain := (Chain.new 4 ⟨[], none⟩).initSpans 0

/-- A chain initialized at height `0` on an empty store lacks height `5`: its
genesis span owns it and its bit is clear.  Yet the query of the interval `[5, 5]`
answers `(0, 0)`, as if there were nothing to fetch. -/
theorem getContinuousUnusedInterval_single_height :
    initialChain.connectToGenesisSpan.ownToSpan (Span.index 5) = true ∧
      initialChain.connectToGenesisSpan.bit (5 - initialChain.connectToGenesisSpan.spanIndex) =
        false ∧
      (initialChain.getContinuousUnusedInterval 5 5).1 = (0, 0) := by
  decide

end Chain

end Sync

end TopChain

import TopChain.Sync.Span
import TopChain.Lib.SortedMap

/-!
# The spans of one chain

`xsync_chain_spans_t` tracks, for one account, the height up to which the
chain is connected to its genesis block.  It keeps the span holding the next
height after it (the genesis span), a small cache of higher spans in which
heights have arrived out of order, and writes spans back to the store.  When a
height completes the genesis span, the genesis span moves on to the next span,
taken from the cache or read from the store, for as long as that one is full
too.

The store is modelled as the account's spans by index (`set_block_span`,
`get_block_span`) and its genesis height record.  `m_highest_spans` and
`m_highest_span_modified` always have the same keys on the paths modelled here
and are kept as one map.  The loops that follow the genesis span forward run on
fuel, one more than the cached and stored spans there are; a loop that
continues reaches a full span of the cache or of the store each time, so the
fuel is never the reason it stops (`Sync.Invariant` proves it).

Heights are natural numbers.  A `uint64_t` height differs only once a span
past `2 ^ 64 - 1024` is full: there the source's next index wraps to `0`.

## Main definitions

* `Store`, `Chain` — the store of one account, and `xsync_chain_spans_t`.
* `Chain.set`, `Chain.setGenesisSpan`, `Chain.setHighestSpans`,
  `Chain.clearHighestSpans`, `Chain.moveToGenisis`, `Chain.save`,
  `Chain.initSpans` — the source's methods.
* `Chain.followGenesis` — the loop `set_genesis_span` and `initialize` share.
* `Op`, `Chain.run` — a sequence of calls.
-/

namespace TopChain

namespace Sync

/-- The store as one account's spans see it. -/
structure Store where
  /-- `set_block_span` / `get_block_span`: each span's bitmap by index. -/
  blockSpans : List (ℕ × List UInt64)
  /-- `set_genesis_height` / `get_genesis_height`. -/
  genesisHeight : Option ℕ
  deriving DecidableEq, Repr

namespace Store

/-- `xsync_span_dao::write_span_to_db`. -/
def writeSpanToDb (st : Store) (s : Span) : Store :=
  { st with blockSpans := upsert (fun _ => s.bitmap) st.blockSpans s.spanIndex }

/-- `xsync_span_dao::read_span_from_db`: a stored bitmap replaces the span's,
and the span is connected. -/
def readSpanFromDb (st : Store) (s : Span) : Span :=
  match st.blockSpans.lookup s.spanIndex with
  | some bm => { s with bitmap := bm }.connect
  | none => s

/-- `xsync_span_dao::write_span_height_to_db`. -/
def writeSpanHeightToDb (st : Store) (height : ℕ) : Store :=
  { st with genesisHeight := some height }

/-- `xsync_span_dao::read_span_height_from_db`: `0` when nothing is stored. -/
def readSpanHeightFromDb (st : Store) : ℕ := st.genesisHeight.getD 0

end Store

/-- `xsync_chain_spans_t`, less its refresh time. -/
structure Chain where
  spanNums : ℕ
  initialed : Bool
  /-- `m_highest_spans` with `m_highest_span_modified`, by index. -/
  highestSpans : List (ℕ × Span × Bool)
  connectToGenesisHeight : ℕ
  connectToGenesisHeightModified : Bool
  connectToGenesisSpan : Span
  connectToGenesisSpanModified : Bool
  store : Store
  deriving DecidableEq, Repr

namespace Chain

/-- `xsync_chain_spans_t(span_nums, sync_store, account)`. -/
def new (spanNums : ℕ) (store : Store) : Chain where
  spanNums := spanNums
  initialed := false
  highestSpans := []
  connectToGenesisHeight := 0
  connectToGenesisHeightModified := false
  connectToGenesisSpan := Span.empty
  connectToGenesisSpanModified := false
  store := store

/-- `genesis_connect_height`. -/
def genesisConnectHeight (c : Chain) : ℕ := c.connectToGenesisHeight

/-- The write-back of the genesis span and height, each if modified, with which
both `save` and a completed genesis span begin. -/
def writeBackGenesis (c : Chain) : Chain :=
  let c := if c.connectToGenesisSpanModified then
      { c with store := c.store.writeSpanToDb c.connectToGenesisSpan,
               connectToGenesisSpanModified := false }
    else c
  if c.connectToGenesisHeightModified then
    { c with store := c.store.writeSpanHeightToDb c.connectToGenesisHeight,
             connectToGenesisHeightModified := false }
  else c

/-- The eviction loop of `clear_highest_spans`: from the lowest index on, while
more than `spanNums` spans are cached, write the span back if modified and drop it. -/
def evict (spanNums : ℕ) : Store → List (ℕ × Span × Bool) → Store × List (ℕ × Span × Bool)
  | st, [] => (st, [])
  | st, e :: rest =>
    if spanNums < (e :: rest).length then
      evict spanNums (if e.2.2 then st.writeSpanToDb e.2.1 else st) rest
    else (st, e :: rest)

/-- `clear_highest_spans`. -/
def clearHighestSpans (c : Chain) : Chain :=
  { c with store := (evict c.spanNums c.store c.highestSpans).1,
           highestSpans := (evict c.spanNums c.store c.highestSpans).2 }

/-- `save`. -/
def save (c : Chain) : Chain :=
  let c := c.writeBackGenesis
  { c with store := c.highestSpans.foldl
             (fun st e => if e.2.2 then st.writeSpanToDb e.2.1 else st) c.store,
           highestSpans := c.highestSpans.map fun e => (e.1, e.2.1, false) }

/-- `move_to_genisis`: the cached span of `j`, found by the caller, becomes the
genesis span with its modified flag. -/
def moveToGenisis (c : Chain) (j : ℕ) (s : Span) (modified : Bool) : Chain :=
  { c with connectToGenesisSpan := s.connect,
           connectToGenesisSpanModified := modified,
           highestSpans := eraseKey c.highestSpans j }

/-- One turn of the loops of `set_genesis_span` and `initialize`, after the
genesis span was seen full: the write-back (`set_genesis_span` only), then the
next span from the cache or the store. -/
def advanceGenesis (writeBack : Bool) (c : Chain) : Chain :=
  let c := if writeBack then c.writeBackGenesis else c
  let j := Span.index (c.connectToGenesisHeight + 1)
  match c.highestSpans.lookup j with
  | some (s, modified) => c.moveToGenisis j s modified
  | none =>
    { c with connectToGenesisSpan :=
        c.store.readSpanFromDb (Span.ofHeight (c.connectToGenesisHeight + 1)) }

/-- The first step of each turn of those loops: a lowest unused height that
moved makes the connected height the one below it. -/
def catchUp (c : Chain) (unusedHeight : ℕ) : Chain × ℕ :=
  if unusedHeight ≠ c.connectToGenesisSpan.lowestUnusedPostion then
    ({ c with connectToGenesisHeight := c.connectToGenesisSpan.lowestUnusedPostion - 1,
              connectToGenesisHeightModified := true },
      c.connectToGenesisSpan.lowestUnusedPostion)
  else (c, unusedHeight)

/-- The `while (true)` loop of `set_genesis_span` (`writeBack`) and of
`initialize`: catch up, stop at a genesis span that is not full, otherwise
advance to the next span. -/
def followGenesis (writeBack : Bool) : ℕ → Chain → ℕ → Chain
  | 0, c, _ => c
  | fuel + 1, c, unusedHeight =>
    let r := c.catchUp unusedHeight
    if !r.1.connectToGenesisSpan.full then r.1
    else followGenesis writeBack fuel (advanceGenesis writeBack r.1) r.2

/-- The fuel of those loops: one turn more than the spans cached and stored, with
one to spare. -/
def loopFuel (c : Chain) : ℕ := c.highestSpans.length + c.store.blockSpans.length + 2

/-- `set_genesis_span`. -/
def setGenesisSpan (c : Chain) (height : ℕ) : Chain :=
  let unusedHeight := c.connectToGenesisSpan.lowestUnusedPostion
  let r := c.connectToGenesisSpan.set height
  if !r.2.1 then c
  else
    followGenesis true (loopFuel c)
      { c with connectToGenesisSpan := r.2.2, connectToGenesisSpanModified := true } unusedHeight

/-- `set_highest_spans`. -/
def setHighestSpans (c : Chain) (height : ℕ) : Chain :=
  let j := Span.index height
  match c.highestSpans.lookup j with
  | some (s, _) =>
    let r := s.set height
    if !r.2.1 then c
    else { c with highestSpans := upsert (fun _ => (r.2.2, true)) c.highestSpans j }
  | none =>
    let r := (c.store.readSpanFromDb (Span.ofHeight j)).set height
    clearHighestSpans { c with highestSpans := upsert (fun _ => (r.2.2, r.2.1)) c.highestSpans j }

/-- `set`. -/
def set (c : Chain) (height : ℕ) : Chain :=
  if height ≤ c.connectToGenesisHeight ∧ c.connectToGenesisHeight ≠ 0 then c
  else if c.connectToGenesisSpan.ownToSpan (Span.index height) then c.setGenesisSpan height
  else c.setHighestSpans height

/-- The genesis span `initialize` builds when the store's latest connected
height is above the recorded one: the heights of its span up to that height set. -/
def initialSpan (height : ℕ) : Span :=
  (List.range' (Span.index (height + 1)) (height + 1 - Span.index (height + 1))).foldl
    (fun s i => (s.set i).2.2) (Span.ofHeight (height + 1))

/-- `initialize` (a keyword here), given the store's
`get_latest_genesis_connected_block_height`. -/
def initSpans (c : Chain) (latest : ℕ) : Chain :=
  if c.initialed then c
  else
    let recorded := c.store.readSpanHeightFromDb
    let c : Chain :=
      if latest > recorded then
        { c with connectToGenesisSpan := initialSpan latest,
                 connectToGenesisHeight := latest,
                 connectToGenesisHeightModified := true,
                 connectToGenesisSpanModified := true }
      else
        let s := c.store.readSpanFromDb (Span.ofHeight recorded)
        { c with connectToGenesisHeight := recorded,
                 connectToGenesisSpan :=
                   if s.lowestUnusedPostion = 0 then (s.set 0).2.2 else s }
    { followGenesis false (loopFuel c) c c.connectToGenesisSpan.lowestUnusedPostion with
      initialed := true }

/-- The calls a chain's spans receive once initialized. -/
inductive Op where
  | set (height : ℕ)
  | save
  deriving DecidableEq, Repr

/-- One call. -/
def step (c : Chain) : Op → Chain
  | .set height => c.set height
  | .save => c.save

/-- A sequence of calls. -/
def run (c : Chain) (ops : List Op) : Chain := ops.foldl step c

end Chain

end Sync

end TopChain

import TopChain.Lib.SortedMap

/-!
# The block store of a chain account

`xchainacct_t` (`xblockstore/src/xvblockhub.cpp`) keeps the blocks of one account
that runs the 3-chain rule of xBFT.  Each stored block gets an index object
(`xvbindex_t`) carrying the block's height, view id and hashes, the status flags
`authenticated`, `locked` and `committed`, and a pointer to the index of its
previous block.  `m_all_blocks` files the cached indexes by height and, within a
height, by view id.  Storing a block (`store_block`) makes its index
(`new_index`), checks it against the indexes of its height (`precheck_new_index`),
files it and links it to its neighbours (`cache_index`, `link_neighbor`), and then
runs the 3-chain rule (`connect_index`, `process_index`): a block with a parent
locks the parent and commits the grandparent.  Whenever a height gets a locked or
committed index, `rebase_chain_at_height` drops the indexes of lower weight there.

Index objects have an identity: the pointer to a previous block survives that
block's removal from the cache, and flags set through it are seen by every
holder.  So indexes live in a table `objs`, and the cache and the pointers hold
their positions.

The database is the cache: reading a height that is not cached finds nothing, and
writing changes nothing the store reads back.  The one exception the code makes is
the genesis block, which `load_index(0)` and the store of a height-1 block create
on demand by storing the account's genesis block.  The model passes that nested
store as a parameter `storeGenesis`; the store it stands for, of a block at height
`0`, never reaches it again (`loadIndex` only calls it for height `0`, and
`connect_index` only loads the heights below a block of positive height).

Hashes are natural numbers, compared for equality only.  Each index that
`write_block` saves gets the `stored` flag, so the check with which
`store_block` skips a block it has stored is modelled as the block having a
cached index.  The checks that a raw block is complete (`is_input_ready`,
`is_output_ready`, `is_deliver`) are taken to pass, and the committed-block
events are not modelled: no modelled call processes them.

## Main definitions

* `Block`, `Index`, `Meta`, `ChainAcct` — a raw block, `xvbindex_t`,
  `xblockmeta_t` and `xchainacct_t`.
* `ChainAcct.precheckNewIndex`, `ChainAcct.cacheIndex`, `ChainAcct.linkNeighbor`,
  `ChainAcct.rebaseChainAtHeight`, `ChainAcct.updateMetaMetric`,
  `ChainAcct.processIndex`, `ChainAcct.connectIndex`, `ChainAcct.newIndex`,
  `ChainAcct.storeBlock` — the source's methods.
* `Op`, `ChainAcct.run` — sequences of `store_block` and `new_index` calls.
-/

namespace TopChain

namespace BlockStore

/-- The parts of a raw block (`xvblock_t`) the store reads. -/
structure Block where
  height : ℕ
  viewid : ℕ
  blockHash : ℕ
  lastBlockHash : ℕ
  authenticated : Bool
  locked : Bool
  committed : Bool
  deriving DecidableEq, Repr

/-- The flags `xvblockbuild_t::set_block_flags` gives every block it builds at
height `0`: authenticated, locked and committed. -/
def Block.Built (b : Block) : Prop :=
  b.height = 0 → b.authenticated = true ∧ b.locked = true ∧ b.committed = true

instance : DecidablePred Block.Built := fun b => inferInstanceAs (Decidable (b.height = 0 → _))

/-- `xvbindex_t`: a block's height, view id, hashes and status flags, the pointer
to the index of its previous block (`get_prev_block`), and whether it is closed. -/
structure Index where
  height : ℕ
  viewid : ℕ
  blockHash : ℕ
  lastBlockHash : ℕ
  authenticated : Bool
  locked : Bool
  committed : Bool
  prevBlock : Option ℕ
  closed : Bool
  deriving DecidableEq, Repr, Inhabited

namespace Index

/-- `get_block_flags() & enum_xvblock_flags_high4bit_mask`: authenticated is
`0x1000`, locked `0x2000`, committed `0x4000`, and `0x8000` is no flag. -/
def highFlags (x : Index) : ℕ :=
  (if x.authenticated then 0x1000 else 0) + (if x.locked then 0x2000 else 0) +
    (if x.committed then 0x4000 else 0)

/-- `create_index`: an index of a raw block, with the block's flags, unlinked. -/
def ofBlock (b : Block) : Index where
  height := b.height
  viewid := b.viewid
  blockHash := b.blockHash
  lastBlockHash := b.lastBlockHash
  authenticated := b.authenticated
  locked := b.locked
  committed := b.committed
  prevBlock := none
  closed := false

/-- The index `new_index` makes: below the genesis height the status flags are
reset to authenticated only. -/
def init (b : Block) : Index :=
  if b.height ≠ 0 then { ofBlock b with authenticated := true, locked := false, committed := false }
  else ofBlock b

/-- `close`: the index is marked closed and drops its previous-block pointer.
(`m_next_index` is never set for indexes, so no other pointer is reset.) -/
def close (x : Index) : Index := { x with closed := true, prevBlock := none }

end Index

/-- `xblockacct_t::cal_index_base_weight`, without `__ALLOW_FORK_LOCK__` and
`__USE_HIGHEST_FLAG_FOR_WEIGHT`: the height plus the composed status flags. -/
def calIndexBaseWeight (x : Index) : ℕ := x.height + x.highFlags

/-- The part of `xblockmeta_t` the store writes or reads here.  The connected
block's hash is `none` while it is the empty string. -/
structure Meta where
  highestCertBlockHeight : ℕ
  highestLockBlockHeight : ℕ
  highestCommitBlockHeight : ℕ
  highestConnectBlockHash : Option ℕ
  deriving DecidableEq, Repr

/-- `xchainacct_t`: the account's genesis block, the index objects, `m_all_blocks`
(height to view id to index object, both in increasing key order) and `m_meta`
(`blockMeta`). -/
structure ChainAcct where
  genesisBlock : Block
  objs : List Index
  allBlocks : List (ℕ × List (ℕ × ℕ))
  blockMeta : Meta
  deriving DecidableEq, Repr

namespace ChainAcct

/-- An account with nothing cached and a fresh meta. -/
def new (genesisBlock : Block) : ChainAcct := ⟨genesisBlock, [], [], ⟨0, 0, 0, none⟩⟩

/-- The index object at a position. -/
def obj (a : ChainAcct) (i : ℕ) : Index := a.objs.getD i default

/-- The view map of a height, empty if the height has no entry. -/
def viewMap (a : ChainAcct) (h : ℕ) : List (ℕ × ℕ) := (a.allBlocks.lookup h).getD []

/-- Change the index object at a position. -/
def modifyObj (a : ChainAcct) (i : ℕ) (f : Index → Index) : ChainAcct :=
  { a with objs := a.objs.modify i f }

/-- `xvbindex_t::close` on the index object at a position. -/
def close (a : ChainAcct) (i : ℕ) : ChainAcct := a.modifyObj i Index.close

/-- `m_all_blocks.emplace(height, {})`: an entry for the height, if it had none. -/
def emplace (a : ChainAcct) (h : ℕ) : ChainAcct :=
  { a with allBlocks := upsert (fun m => m.getD []) a.allBlocks h }

/-- `query_index(height, 0)`: with view id `0` it returns the highest committed,
else locked, else authenticated index of the height, so it finds one exactly when
an index there has one of those flags. -/
def queryIndexZero (a : ChainAcct) (h : ℕ) : Bool :=
  (a.viewMap h).any fun e =>
    (a.obj e.2).committed || (a.obj e.2).locked || (a.obj e.2).authenticated

/-! ### Filing an index -/

/-- `precheck_new_index`: a new index is refused if an index of its height weighs
more, or weighs the same, is committed and is another block. -/
def precheckNewIndex (a : ChainAcct) (x : Index) : Bool :=
  (a.viewMap x.height).all fun e =>
    let y := a.obj e.2
    !(y.height = x.height) ||
      (!(calIndexBaseWeight x < calIndexBaseWeight y) &&
        !(calIndexBaseWeight x = calIndexBaseWeight y && y.committed &&
          (x.viewid ≠ y.viewid || x.blockHash ≠ y.blockHash)))

/-- `xvbindex_t::reset_prev_block` of the index at `c`: the same pointer is kept,
a new previous index is taken if it is one height below and has the hash the
block links to, and a null pointer is always taken. -/
def resetPrevBlock (a : ChainAcct) (c : ℕ) (np : Option ℕ) : ChainAcct × Bool :=
  if np = (a.obj c).prevBlock then (a, true)
  else
    match np with
    | some p =>
      if (a.obj c).height = (a.obj p).height + 1 ∧
          (a.obj p).blockHash = (a.obj c).lastBlockHash then
        (a.modifyObj c fun x => { x with prevBlock := some p }, true)
      else (a, false)
    | none => (a.modifyObj c fun x => { x with prevBlock := none }, true)

/-- The search of `link_neighbor` for a previous block: the candidates in turn,
until `reset_prev_block` takes one. -/
def linkPrev (a : ChainAcct) (c : ℕ) : List ℕ → ChainAcct
  | [] => a
  | p :: ps =>
    let r := a.resetPrevBlock c (some p)
    if r.2 then r.1 else linkPrev r.1 c ps

/-- `link_neighbor`: an index without a live previous block is linked to an index
of the height below, searched from the highest view id; then every index of the
height above is offered this one as its previous block.  (The entry before a
height in `m_all_blocks` is the height below exactly when that height has an
entry, so the two neighbours are looked up by height.) -/
def linkNeighbor (a : ChainAcct) (i : ℕ) : ChainAcct :=
  let x := a.obj i
  match a.allBlocks.lookup x.height with
  | none => a
  | some _ =>
    let a :=
      if decide (0 < x.height) && (match x.prevBlock with | none => true | some p => (a.obj p).closed) then
        a.linkPrev i ((a.viewMap (x.height - 1)).reverse.map (·.2))
      else a
    ((a.viewMap (x.height + 1)).reverse.map (·.2)).foldl
      (fun a j => (a.resetPrevBlock j (some i)).1) a

/-- The new entry of `cache_index`: the index becomes a new object, filed under
its height and view id. -/
def insertIndex (a : ChainAcct) (x : Index) : ChainAcct :=
  { a with objs := a.objs ++ [x],
           allBlocks := upsert (fun m => upsert (fun _ => a.objs.length) (m.getD []) x.viewid)
             a.allBlocks x.height }

/-- The flag merge of `cache_index`: the new index's status flags are added to the
cached one's. -/
def mergeFlags (a : ChainAcct) (i : ℕ) (x : Index) : ChainAcct :=
  a.modifyObj i fun e => { e with authenticated := e.authenticated || x.authenticated,
                                  locked := e.locked || x.locked,
                                  committed := e.committed || x.committed }

/-- `cache_index`: an index of a cached view id is refused if its hash differs or
its status flags are not above the cached one's (which covers equal flags), and
otherwise merged into it; a new view id is filed and linked.  The result is the
object that was inserted or updated. -/
def cacheIndex (a : ChainAcct) (x : Index) : ChainAcct × Option ℕ :=
  match (a.viewMap x.height).lookup x.viewid with
  | some i =>
    if (a.obj i).blockHash ≠ x.blockHash then (a, none)
    else if x.highFlags ≤ (a.obj i).highFlags then (a, none)
    else (a.mergeFlags i x, some i)
  | none => ((a.insertIndex x).linkNeighbor a.objs.length, some a.objs.length)

/-! ### Rebasing a height -/

/-- The first loop of `rebase_chain_at_height`, from the lowest view id: the first
committed index is kept, a later committed one is erased and weighs `0`.  The
result is the entries kept, the objects erased and the largest weight. -/
def rebaseFirstPass (a : ChainAcct) : List (ℕ × ℕ) → Bool → ℕ → List (ℕ × ℕ) × List ℕ × ℕ
  | [], _, curMax => ([], [], curMax)
  | e :: rest, hasCommit, curMax =>
    if (a.obj e.2).committed && hasCommit then
      let r := rebaseFirstPass a rest true (max curMax 0)
      (r.1, e.2 :: r.2.1, r.2.2)
    else
      let r := rebaseFirstPass a rest (hasCommit || (a.obj e.2).committed)
        (max curMax (calIndexBaseWeight (a.obj e.2)))
      (e :: r.1, r.2.1, r.2.2)

/-- `rebase_chain_at_height`: a height with more than one index drops the later
committed ones and then every index below the largest weight; the dropped
indexes are closed. -/
def rebaseChainAtHeight (a : ChainAcct) (h : ℕ) : ChainAcct :=
  match a.allBlocks.lookup h with
  | none => a
  | some m =>
    if 1 < m.length then
      let r := a.rebaseFirstPass m false 0
      let low := r.1.filter fun e => calIndexBaseWeight (a.obj e.2) < r.2.2
      let kept := r.1.filter fun e => !(calIndexBaseWeight (a.obj e.2) < r.2.2)
      { (r.2.1 ++ low.map (·.2)).foldl close a with
        allBlocks := upsert (fun _ => kept) a.allBlocks h }
    else a

/-! ### The 3-chain rule -/

/-- `update_meta_metric`: a committed index raises the highest cert, lock and
commit heights to its own, a locked one the cert and lock heights, an
authenticated one the cert height. -/
def updateMetaMetric (a : ChainAcct) (i : ℕ) : ChainAcct :=
  let x := a.obj i
  let m := a.blockMeta
  { a with blockMeta :=
      if x.committed then
        { m with highestCertBlockHeight := max m.highestCertBlockHeight x.height,
                 highestLockBlockHeight := max m.highestLockBlockHeight x.height,
                 highestCommitBlockHeight := max m.highestCommitBlockHeight x.height }
      else if x.locked then
        { m with highestCertBlockHeight := max m.highestCertBlockHeight x.height,
                 highestLockBlockHeight := max m.highestLockBlockHeight x.height }
      else if x.authenticated then
        { m with highestCertBlockHeight := max m.highestCertBlockHeight x.height }
      else m }

/-- The two status changes of `process_index`: set flags on an index, rebase its
height, and update the meta from it if it is still open. -/
def raiseIndex (a : ChainAcct) (p : ℕ) (f : Index → Index) : ChainAcct :=
  let a' := (a.modifyObj p f).rebaseChainAtHeight (a.obj p).height
  if (a'.obj p).closed then a' else a'.updateMetaMetric p

/-- The parent of a processed index becomes locked. -/
def lockIndex (a : ChainAcct) (p : ℕ) : ChainAcct :=
  a.raiseIndex p fun x => { x with locked := true }

/-- The grandparent of a processed index becomes locked and committed. -/
def commitIndex (a : ChainAcct) (p : ℕ) : ChainAcct :=
  a.raiseIndex p fun x => { x with locked := true, committed := true }

/-- `xchainacct_t::process_index`: the previous block, if any, is locked unless it
is already, and its previous block, if any, is committed unless it is already. -/
def processIndex (a : ChainAcct) (i : ℕ) : ChainAcct × Bool :=
  match (a.obj i).prevBlock with
  | none => (a, false)
  | some p =>
    let a := if (a.obj p).locked then a else a.lockIndex p
    match (a.obj p).prevBlock with
    | none => (a, true)
    | some pp => (if (a.obj pp).committed then a else a.commitIndex pp, true)

/-- `process_index` on every index of a view map, from the highest view id. -/
def processAll (a : ChainAcct) (m : List (ℕ × ℕ)) : ChainAcct :=
  (m.reverse.map (·.2)).foldl (fun a i => (a.processIndex i).1) a

section Store

variable (storeGenesis : ChainAcct → ChainAcct)

/-- `load_index`: the number of cached indexes of a height; at height `0` with no
entry, the genesis block is stored and counts as one. -/
def loadIndex (a : ChainAcct) (h : ℕ) : ChainAcct × ℕ :=
  match a.allBlocks.lookup h with
  | some m => (a, m.length)
  | none => if h = 0 then (storeGenesis a, 1) else (a, 0)

/-- `xchainacct_t::connect_index`: a block of positive height loads the two
heights below and is processed; the meta is updated; then, below the highest
cert height, the indexes of the two heights above are processed, if the height
just above has any. -/
def connectIndex (a : ChainAcct) (i : ℕ) : ChainAcct :=
  let h := (a.obj i).height
  let a :=
    if 0 < h then
      let a := (loadIndex storeGenesis a (h - 1)).1
      let a := if 2 ≤ h then (loadIndex storeGenesis a (h - 2)).1 else a
      (a.processIndex i).1
    else a
  let a := a.updateMetaMetric i
  if a.blockMeta.highestCertBlockHeight ≤ h then a
  else
    let r := loadIndex storeGenesis a (h + 1)
    if r.2 = 0 then r.1
    else
      let a := r.1.processAll (r.1.viewMap (h + 1))
      let a := (loadIndex storeGenesis a (h + 2)).1
      a.processAll (a.viewMap (h + 2))

/-- `new_index`: an authenticated block's index is prechecked, cached, connected,
and its height rebased; the result is the cached object, unless the rebase
dropped it.  (Below the highest cert height the source first loads the block's
height, which finds nothing a cached height does not hold.) -/
def newIndex (a : ChainAcct) (b : Block) : ChainAcct × Option ℕ :=
  if !b.authenticated then (a, none)
  else
    let x := Index.init b
    let a := a.emplace b.height
    if !a.precheckNewIndex x then (a, none)
    else
      match a.cacheIndex x with
      | (a, none) => (a, none)
      | (a, some i) =>
        let a := (connectIndex storeGenesis a i).rebaseChainAtHeight b.height
        if ((a.viewMap b.height).lookup b.viewid).isSome then (a, some i) else (a, none)

/-- `store_block`: a block whose index is cached is skipped; a height-1 block with
no connected block on record and nothing at height `0` first has the genesis
block stored; then the block's index is made, and the meta updated from it. -/
def storeBlock (a : ChainAcct) (b : Block) : ChainAcct :=
  if (a.viewMap b.height).any (fun e => (a.obj e.2).blockHash = b.blockHash) then a
  else
    let a :=
      if b.height = 1 ∧ a.blockMeta.highestConnectBlockHash = none ∧ !a.queryIndexZero 0 then
        storeGenesis a
      else a
    match newIndex storeGenesis a b with
    | (a, some i) => a.updateMetaMetric i
    | (a, none) => a

end Store

/-- `store_block` of the account's genesis block, as `load_index(0)` and the store
of a height-1 block make it. -/
def storeGenesisBlock (a : ChainAcct) : ChainAcct := storeBlock id a a.genesisBlock

end ChainAcct

/-- The calls the store receives. -/
inductive Op where
  | storeBlock (b : Block)
  | newIndex (b : Block)
  deriving DecidableEq, Repr

/-- The block a call stores. -/
def Op.block : Op → Block
  | .storeBlock b => b
  | .newIndex b => b

namespace ChainAcct

/-- One call. -/
def step (a : ChainAcct) : Op → ChainAcct
  | .storeBlock b => storeBlock storeGenesisBlock a b
  | .newIndex b => (newIndex storeGenesisBlock a b).1

/-- A sequence of calls. -/
def run (a : ChainAcct) (ops : List Op) : ChainAcct := ops.foldl step a

end ChainAcct

end BlockStore

end TopChain

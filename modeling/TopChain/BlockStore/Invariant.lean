import TopChain.BlockStore.Frame

/-!
# The invariant of the block store

At every height of `m_all_blocks` the cached indexes are either all unlocked, and
then all authenticated only and of one weight, or a single index (`Inv.shape`).
Locking or committing a cached index makes its weight the largest of its height,
and the rebase that follows drops every other index there; a new index is refused
at a height holding a locked one, whose weight it cannot reach.  At height `0`
every index is the genesis block's, committed from the start, and no second one
passes the precheck.

The other clauses say who points where: the cache holds exactly the open objects,
under their height and view id; a previous-block pointer always goes one height
down to an index with the linked hash; a closed object points nowhere; and a
committed index above the genesis height has a locked child in the cache, linked
by hash.

Each primitive change of the store keeps the invariant: filing an index
(`Inv.insertIndex`), resetting a pointer (`Inv.resetPrevBlock`), rebasing a height
(`Inv.rebaseChainAtHeight`), and raising the status of an index in
`process_index` (`Inv.raiseIndex`).

## Main definitions

* `ChainAcct.Cached` — an index is filed in `m_all_blocks`.
* `ChainAcct.Inv` — the invariant.
* `Index.raise` — the status change `process_index` makes on an index.

## Main results

* `Inv.unlocked_of_ne` — next to an open index, every other open index of its
  height is unlocked.
* `Inv.raiseIndex`, `Inv.insertIndex` — the two changes that move status.
-/

namespace TopChain

namespace BlockStore

/-! ### The index `new_index` makes -/

namespace Index

variable (b : Block)

@[simp] theorem init_height : (init b).height = b.height := by
  unfold init
  split_ifs <;> rfl

@[simp] theorem init_viewid : (init b).viewid = b.viewid := by
  unfold init
  split_ifs <;> rfl

@[simp] theorem init_prevBlock : (init b).prevBlock = none := by
  unfold init
  split_ifs <;> rfl

@[simp] theorem init_closed : (init b).closed = false := by
  unfold init
  split_ifs <;> rfl

variable {b}

theorem init_authenticated (hb : b.authenticated = true) : (init b).authenticated = true := by
  unfold init
  split_ifs
  · rfl
  · exact hb

/-- Above the genesis height a new index is authenticated only. -/
theorem init_of_ne (h : b.height ≠ 0) : (init b).locked = false ∧ (init b).committed = false := by
  unfold init
  rw [if_pos h]
  exact ⟨rfl, rfl⟩

/-- At the genesis height a built block's index keeps all three status flags. -/
theorem init_of_eq (hb : b.Built) (h : b.height = 0) :
    (init b).authenticated = true ∧ (init b).locked = true ∧ (init b).committed = true := by
  unfold init
  rw [if_neg (by simp [h])]
  exact hb h

/-- The status change `process_index` makes on an index: `locked` is set, and
`committed` too when `c`. -/
def raise (c : Bool) (x : Index) : Index := { x with locked := true, committed := c || x.committed }

end Index

/-- A locked, authenticated index weighs at least its height plus `0x3000`. -/
theorem weight_of_locked {x : Index} (hau : x.authenticated = true) (hl : x.locked = true) :
    x.height + 0x3000 ≤ calIndexBaseWeight x := by
  simp only [calIndexBaseWeight, Index.highFlags, hau, hl, if_true]
  split_ifs <;> omega

/-- An index with all three status flags weighs its height plus `0x7000`. -/
theorem weight_of_committed {x : Index} (hau : x.authenticated = true) (hl : x.locked = true)
    (hc : x.committed = true) : calIndexBaseWeight x = x.height + 0x7000 := by
  simp [calIndexBaseWeight, Index.highFlags, hau, hl, hc]

namespace ChainAcct

variable {a : ChainAcct}

/-- An index object past the table is the default one: open, unlinked, unflagged. -/
theorem obj_of_le {i : ℕ} (h : a.objs.length ≤ i) : a.obj i = default := by
  rw [obj, List.getD_eq_getElem?_getD, List.getElem?_eq_none h, Option.getD_none]

/-- Modifying an object of the table changes that object alone. -/
theorem obj_modifyObj_of_lt {p : ℕ} (hp : p < a.objs.length) (f : Index → Index) (j : ℕ) :
    (a.modifyObj p f).obj j = if j = p then f (a.obj p) else a.obj j := by
  by_cases hj : j = p
  · rw [hj, if_pos rfl, obj_modifyObj_self hp]
  · rw [if_neg hj, obj_modifyObj_of_ne (Ne.symm hj)]

/-- An index is cached: `m_all_blocks` files it under its height and view id. -/
def Cached (a : ChainAcct) (i : ℕ) : Prop :=
  ((a.obj i).viewid, i) ∈ a.viewMap (a.obj i).height

/-- The invariant of the block store. -/
structure Inv (a : ChainAcct) : Prop where
  genesis : a.genesisBlock.Built
  keys : a.allBlocks.Pairwise fun e e' => e.1 < e'.1
  views : ∀ h, (a.viewMap h).Pairwise fun e e' => e.1 < e'.1
  /-- A cache entry is an open object of its height and view id. -/
  entry : ∀ h e, e ∈ a.viewMap h → e.2 < a.objs.length ∧ (a.obj e.2).height = h ∧
    (a.obj e.2).viewid = e.1 ∧ (a.obj e.2).closed = false
  /-- Every open object is cached. -/
  cached : ∀ i < a.objs.length, (a.obj i).closed = false → a.Cached i
  authenticated : ∀ i < a.objs.length, (a.obj i).authenticated = true
  locked_of_committed : ∀ i < a.objs.length, (a.obj i).committed = true → (a.obj i).locked = true
  committed_of_genesis : ∀ i < a.objs.length, (a.obj i).height = 0 → (a.obj i).committed = true
  /-- A previous-block pointer goes one height down, to the hash the block links to. -/
  linked : ∀ i < a.objs.length, ∀ p, (a.obj i).prevBlock = some p → p < a.objs.length ∧
    (a.obj p).height + 1 = (a.obj i).height ∧ (a.obj p).blockHash = (a.obj i).lastBlockHash
  prev_of_closed : ∀ i < a.objs.length, (a.obj i).closed = true → (a.obj i).prevBlock = none
  /-- A height is all unlocked, or holds one index at most. -/
  shape : ∀ h, (∀ e ∈ a.viewMap h, (a.obj e.2).locked = false) ∨ (a.viewMap h).length ≤ 1
  /-- A committed index above the genesis height has a locked child in the cache. -/
  child : ∀ i < a.objs.length, 0 < (a.obj i).height → (a.obj i).closed = false →
    (a.obj i).committed = true → ∃ w < a.objs.length, (a.obj w).closed = false ∧
      (a.obj w).locked = true ∧ (a.obj w).height = (a.obj i).height + 1 ∧
      (a.obj w).lastBlockHash = (a.obj i).blockHash
  ordered : a.blockMeta.Ordered

namespace Inv

variable (ha : a.Inv)
include ha

/-- A pointer goes from an object of the table to one of the table. -/
theorem lt_of_prevBlock {i p : ℕ} (hp : (a.obj i).prevBlock = some p) :
    i < a.objs.length ∧ p < a.objs.length := by
  by_cases hi : i < a.objs.length
  · exact ⟨hi, (ha.linked i hi p hp).1⟩
  · rw [obj_of_le (by omega)] at hp
    cases hp

/-- An object with a previous block is open. -/
theorem open_of_prevBlock {i p : ℕ} (hp : (a.obj i).prevBlock = some p) :
    (a.obj i).closed = false := by
  have hi := (ha.lt_of_prevBlock hp).1
  cases hc : (a.obj i).closed
  · rfl
  · rw [ha.prev_of_closed i hi hc] at hp
    cases hp

/-- Two entries of a height for one object are the same entry. -/
theorem eq_of_mem_of_snd_eq {h : ℕ} {e e' : ℕ × ℕ} (he : e ∈ a.viewMap h)
    (he' : e' ∈ a.viewMap h) (h2 : e.2 = e'.2) : e = e' := by
  have hv := (ha.entry h e he).2.2.1
  have hv' := (ha.entry h e' he').2.2.1
  rw [h2] at hv
  exact Prod.ext (hv.symm.trans hv') h2

/-- Next to an open index, every other open index of its height is unlocked: a
height with two indexes has no locked one. -/
theorem unlocked_of_ne {p j : ℕ} (hp : p < a.objs.length) (hpo : (a.obj p).closed = false)
    (hj : j < a.objs.length) (hjo : (a.obj j).closed = false)
    (hh : (a.obj j).height = (a.obj p).height) (hne : j ≠ p) : (a.obj j).locked = false := by
  have hmp := ha.cached p hp hpo
  have hmj : ((a.obj j).viewid, j) ∈ a.viewMap (a.obj p).height := by
    rw [← hh]
    exact ha.cached j hj hjo
  rcases ha.shape (a.obj p).height with hall | hle
  · exact hall _ hmj
  · exact absurd (congrArg Prod.snd (eq_of_mem_of_length_le_one hle hmj hmp)) hne

/-- An unlocked object is authenticated only, and weighs its height plus `0x1000`. -/
theorem weight_of_unlocked {j : ℕ} (hj : j < a.objs.length) (hu : (a.obj j).locked = false) :
    calIndexBaseWeight (a.obj j) = (a.obj j).height + 0x1000 := by
  have hc : (a.obj j).committed = false := by
    cases hcj : (a.obj j).committed
    · rfl
    · rw [ha.locked_of_committed j hj hcj] at hu
      cases hu
  simp [calIndexBaseWeight, Index.highFlags, ha.authenticated j hj, hu, hc]

/-- A view map, in view-id order, has no duplicate entry. -/
theorem nodup_viewMap (h : ℕ) : (a.viewMap h).Nodup :=
  (ha.views h).imp fun hlt heq => by
    rw [heq] at hlt
    exact Nat.lt_irrefl _ hlt

end Inv

/-- The invariant depends on the account only through its genesis block, the keys'
order, the view maps, the objects and the meta. -/
theorem Inv.of_eq {a' : ChainAcct} (ha : a.Inv) (hg : a'.genesisBlock = a.genesisBlock)
    (hk : a'.allBlocks.Pairwise fun e e' => e.1 < e'.1) (hv : a'.viewMap = a.viewMap)
    (ho : a'.objs = a.objs) (hm : a'.blockMeta.Ordered) : a'.Inv := by
  have hobj : a'.obj = a.obj := by
    funext i
    unfold obj
    rw [ho]
  have hcached : a'.Cached = a.Cached := by
    funext i
    unfold Cached
    rw [hobj, hv]
  -- each clause reads the account through the fields the hypotheses equate
  exact {
    genesis := hg ▸ ha.genesis
    keys := hk
    views := hv ▸ ha.views
    entry := by
      rw [hv, ho, hobj]
      exact ha.entry
    cached := by
      rw [ho, hobj, hcached]
      exact ha.cached
    authenticated := by
      rw [ho, hobj]
      exact ha.authenticated
    locked_of_committed := by
      rw [ho, hobj]
      exact ha.locked_of_committed
    committed_of_genesis := by
      rw [ho, hobj]
      exact ha.committed_of_genesis
    linked := by
      rw [ho, hobj]
      exact ha.linked
    prev_of_closed := by
      rw [ho, hobj]
      exact ha.prev_of_closed
    shape := hv ▸ hobj ▸ ha.shape
    child := by
      rw [ho, hobj]
      exact ha.child
    ordered := hm }

/-- The account a run starts from satisfies the invariant, given a genesis block
built as the builder builds it. -/
theorem inv_new {g : Block} (hg : g.Built) : (ChainAcct.new g).Inv where
  genesis := hg
  keys := List.Pairwise.nil
  views _ := by simp [viewMap, ChainAcct.new]
  entry _ _ he := by simp [viewMap, ChainAcct.new] at he
  cached _ hi := by simp [ChainAcct.new] at hi
  authenticated _ hi := by simp [ChainAcct.new] at hi
  locked_of_committed _ hi := by simp [ChainAcct.new] at hi
  committed_of_genesis _ hi := by simp [ChainAcct.new] at hi
  linked _ hi := by simp [ChainAcct.new] at hi
  prev_of_closed _ hi := by simp [ChainAcct.new] at hi
  shape _ := .inr (by simp [viewMap, ChainAcct.new])
  child _ hi := by simp [ChainAcct.new] at hi
  ordered := ⟨Nat.le_refl 0, Nat.le_refl 0⟩

/-! ### Changes that move no status -/

theorem Inv.emplace (ha : a.Inv) (h : ℕ) : (a.emplace h).Inv :=
  ha.of_eq rfl (pairwise_emplace ha.keys h) (funext (viewMap_emplace ha.keys h)) rfl ha.ordered

theorem Inv.updateMetaMetric (ha : a.Inv) (i : ℕ) : (a.updateMetaMetric i).Inv :=
  ha.of_eq rfl ha.keys rfl rfl (ordered_updateMetaMetric a i ha.ordered)

/-- Under the invariant a rebase changes nothing the store reads: every height is
uniform or holds one index. -/
theorem Inv.rebaseChainAtHeight_eq (ha : a.Inv) (h : ℕ) :
    (a.rebaseChainAtHeight h).objs = a.objs ∧ (a.rebaseChainAtHeight h).viewMap = a.viewMap := by
  cases hm : a.allBlocks.lookup h with
  | none =>
    unfold rebaseChainAtHeight
    rw [hm]
    exact ⟨rfl, rfl⟩
  | some m =>
    have hvm : a.viewMap h = m := by simp [viewMap, hm]
    rcases ha.shape h with hall | hle
    · -- an all-unlocked height weighs the same everywhere
      refine rebaseChainAtHeight_of_uniform hm (W := h + 0x1000) (fun e he => ?_) (fun e he => ?_)
      · rw [← hvm] at he
        have hlt := (ha.entry h e he).1
        cases hc : (a.obj e.2).committed
        · rfl
        · have hu := hall e he
          rw [ha.locked_of_committed _ hlt hc] at hu
          cases hu
      · rw [← hvm] at he
        obtain ⟨hlt, hh, -, -⟩ := ha.entry h e he
        rw [ha.weight_of_unlocked hlt (hall e he), hh]
    · rw [rebaseChainAtHeight_of_length_le fun m' hm' => by
        rw [hm] at hm'
        cases hm'
        rw [← hvm]
        exact hle]
      exact ⟨rfl, rfl⟩

theorem Inv.rebaseChainAtHeight (ha : a.Inv) (h : ℕ) : (a.rebaseChainAtHeight h).Inv :=
  ha.of_eq (genesisBlock_rebaseChainAtHeight a h) (pairwise_rebaseChainAtHeight ha.keys h)
    (ha.rebaseChainAtHeight_eq h).2 (ha.rebaseChainAtHeight_eq h).1
    (by rw [blockMeta_rebaseChainAtHeight]; exact ha.ordered)

/-! ### Pointer resets -/

/-- Resetting the pointer of an open object, to an object of the table or to none,
keeps the invariant: `reset_prev_block` only takes an index one height below with
the linked hash. -/
theorem Inv.resetPrevBlock (ha : a.Inv) {c : ℕ} (hc : c < a.objs.length)
    (hco : (a.obj c).closed = false) {np : Option ℕ} (hnp : ∀ p, np = some p → p < a.objs.length) :
    (a.resetPrevBlock c np).1.Inv := by
  rcases resetPrevBlock_cases a c np with heq | ⟨heq, hlink⟩
  · rw [heq]
    exact ha
  rw [heq]
  set a' := a.modifyObj c fun x => { x with prevBlock := np }
  -- only the pointer of `c` changes
  have hobj : ∀ j, a'.obj j =
      { a.obj j with prevBlock := if j = c then np else (a.obj j).prevBlock } := by
    intro j
    rw [obj_modifyObj_of_lt hc]
    split_ifs with hj
    · rw [hj]
    · rfl
  have hlen : a'.objs.length = a.objs.length := length_modifyObj _ _ _
  have hview : a'.viewMap = a.viewMap := viewMap_modifyObj _ _ _
  have hcached : ∀ j, a'.Cached j ↔ a.Cached j := fun j => by
    simp only [Cached, hobj, hview]
  refine
    { genesis := ha.genesis
      keys := ha.keys
      views := ha.views
      entry := fun h e he => by simpa [hobj, hlen, hview] using ha.entry h e he
      cached := fun i hi hio => (hcached i).mpr (ha.cached i (hlen ▸ hi) (by simpa [hobj] using hio))
      authenticated := fun i hi => by simpa [hobj] using ha.authenticated i (hlen ▸ hi)
      locked_of_committed := fun i hi => by simpa [hobj] using ha.locked_of_committed i (hlen ▸ hi)
      committed_of_genesis := fun i hi => by
        simpa [hobj] using ha.committed_of_genesis i (hlen ▸ hi)
      linked := fun i hi p hp => ?_
      prev_of_closed := fun i hi hic => ?_
      shape := fun h => by simpa [hobj, hview] using ha.shape h
      child := fun i hi h0 hio hic => ?_
      ordered := ha.ordered }
  · rw [hlen] at hi ⊢
    simp only [hobj] at hp ⊢
    by_cases hic : i = c
    · -- the new pointer: checked by `reset_prev_block`
      subst hic
      rw [if_pos rfl] at hp
      exact ⟨hnp p hp, (hlink p hp).1.symm, (hlink p hp).2⟩
    · rw [if_neg hic] at hp
      exact ha.linked i hi p hp
  · rw [hlen] at hi
    simp only [hobj] at hic ⊢
    by_cases hic' : i = c
    · subst hic'
      rw [hco] at hic
      cases hic
    · rw [if_neg hic']
      exact ha.prev_of_closed i hi hic
  · rw [hlen] at hi
    simp only [hobj] at h0 hio hic
    obtain ⟨w, hw, hwo, hwl, hwh, hwhash⟩ := ha.child i hi h0 hio hic
    exact ⟨w, hlen ▸ hw, by simpa [hobj] using hwo, by simpa [hobj] using hwl,
      by simpa [hobj] using hwh, by simpa [hobj] using hwhash⟩

/-! ### Filing a new index -/

/-- What `precheck_new_index` guarantees against each index of the new one's height:
it weighs no more, and if it weighs as much and is committed, it is the same block. -/
theorem precheckNewIndex_spec {x : Index} (hp : a.precheckNewIndex x = true) {e : ℕ × ℕ}
    (he : e ∈ a.viewMap x.height) (hh : (a.obj e.2).height = x.height) :
    calIndexBaseWeight (a.obj e.2) ≤ calIndexBaseWeight x ∧
      (calIndexBaseWeight x = calIndexBaseWeight (a.obj e.2) → (a.obj e.2).committed = true →
        x.viewid = (a.obj e.2).viewid ∧ x.blockHash = (a.obj e.2).blockHash) := by
  unfold precheckNewIndex at hp
  have hall := List.all_eq_true.mp hp e he
  simp only [hh, decide_true, Bool.not_true, Bool.false_or, Bool.and_eq_true, Bool.not_eq_true',
    decide_eq_false_iff_not, Nat.not_lt, Bool.or_eq_false_iff, ne_eq, decide_not,
    Bool.not_eq_false', decide_eq_true_eq, Bool.and_eq_false_iff] at hall
  obtain ⟨hle, hcase⟩ := hall
  refine ⟨hle, fun hweq hc => ?_⟩
  rcases hcase with (hne | hnc) | hsame
  · exact absurd hweq hne
  · rw [hc] at hnc
    cases hnc
  · exact hsame

/-- The precheck's verdict on a new index under a view id its height lacks: the height
is above the genesis one, and every index already there is unlocked. -/
theorem Inv.unlocked_of_precheck (ha : a.Inv) {b : Block} (hb : b.Built)
    (hauth : b.authenticated = true) (hpre : a.precheckNewIndex (Index.init b) = true)
    (hnew : (a.viewMap b.height).lookup b.viewid = none) :
    ∀ e ∈ a.viewMap b.height, b.height ≠ 0 ∧ (a.obj e.2).locked = false := by
  intro e he
  obtain ⟨hlt, hh, hv, -⟩ := ha.entry _ e he
  have hpre' := precheckNewIndex_spec hpre (e := e) (by rwa [Index.init_height])
    (by rw [hh, Index.init_height])
  by_cases h0 : b.height = 0
  · -- both weigh `0x7000` and the old one is committed: the precheck wants the same
    -- view id, which the height lacks
    exfalso
    have hc := ha.committed_of_genesis _ hlt (by rw [hh, h0])
    have hl := ha.locked_of_committed _ hlt hc
    obtain ⟨hxa, hxl, hxc⟩ := Index.init_of_eq hb h0
    have hweq : calIndexBaseWeight (Index.init b) = calIndexBaseWeight (a.obj e.2) := by
      rw [weight_of_committed hxa hxl hxc, weight_of_committed (ha.authenticated _ hlt) hl hc,
        hh, Index.init_height]
    have hview := (hpre'.2 hweq hc).1
    rw [Index.init_viewid, hv] at hview
    have hlook : (a.viewMap b.height).lookup b.viewid = some e.2 := by
      rw [hview]
      exact (lookup_eq_some_iff_mem (ha.views _)).mpr he
    rw [hnew] at hlook
    cases hlook
  · refine ⟨h0, ?_⟩
    -- a locked index outweighs the new one, which the precheck refuses
    cases hl : (a.obj e.2).locked
    · rfl
    · have hw := weight_of_locked (ha.authenticated _ hlt) hl
      have hxw : calIndexBaseWeight (Index.init b) = b.height + 0x1000 := by
        simp [calIndexBaseWeight, Index.highFlags, Index.init_authenticated hauth,
          (Index.init_of_ne h0).1, (Index.init_of_ne h0).2]
      have := hpre'.1
      omega

/-- Filing the index of a built, authenticated block that passed the precheck,
under a view id its height lacks, keeps the invariant.  Above the genesis height
the precheck refuses it next to a locked index, so the height stays all unlocked;
at the genesis height it refuses it next to any index, so the height holds it
alone. -/
theorem Inv.insertIndex (ha : a.Inv) {b : Block} (hb : b.Built) (hauth : b.authenticated = true)
    (hpre : a.precheckNewIndex (Index.init b) = true)
    (hnew : (a.viewMap b.height).lookup b.viewid = none) : (a.insertIndex (Index.init b)).Inv := by
  set x := Index.init b with hx
  set L := a.objs.length
  set a' := a.insertIndex x
  have hobj : ∀ j, a'.obj j = if j = L then x else a.obj j := obj_insertIndex a x
  have hlen : a'.objs.length = L + 1 := length_insertIndex a x
  have hmem : ∀ h e, e ∈ a'.viewMap h ↔ e ∈ a.viewMap h ∨ (h = b.height ∧ e = (b.viewid, L)) := by
    intro h e
    rw [viewMap_insertIndex ha.keys]
    simp only [hx, Index.init_height, Index.init_viewid]
    split_ifs with hh
    · subst hh
      rw [mem_upsert_const_iff (ha.views _) hnew]
      simp [L]
    · simp [hh]
  have hold_obj : ∀ h e, e ∈ a.viewMap h → a'.obj e.2 = a.obj e.2 := fun h e he => by
    rw [hobj, if_neg (Nat.ne_of_lt (ha.entry h e he).1)]
  -- every index already at the height is unlocked, and the height is not the genesis one
  have hold := ha.unlocked_of_precheck hb hauth hpre hnew
  refine
    { genesis := ha.genesis
      keys := pairwise_insertIndex ha.keys x
      views := fun h => ?_
      entry := fun h e he => ?_
      cached := fun i hi hio => ?_
      authenticated := fun i hi => ?_
      locked_of_committed := fun i hi hic => ?_
      committed_of_genesis := fun i hi hi0 => ?_
      linked := fun i hi p hp => ?_
      prev_of_closed := fun i hi hic => ?_
      shape := fun h => ?_
      child := fun i hi h0 hio hic => ?_
      ordered := ha.ordered }
  · rw [viewMap_insertIndex ha.keys]
    split_ifs
    · exact pairwise_upsert _ _ (ha.views _)
    · exact ha.views h
  · rw [hlen]
    rcases (hmem h e).mp he with he | ⟨rfl, rfl⟩
    · obtain ⟨hlt, hh, hv, hc⟩ := ha.entry h e he
      rw [hold_obj h e he]
      exact ⟨by omega, hh, hv, hc⟩
    · rw [hobj, if_pos rfl]
      simp [hx]
  · rw [hlen] at hi
    unfold Cached
    rw [hobj] at hio ⊢
    split_ifs at hio ⊢ with hiL
    · exact (hmem _ _).mpr (.inr ⟨by simp [hx], by simp [hx, hiL]⟩)
    · exact (hmem _ _).mpr (.inl (ha.cached i (by omega) hio))
  · rw [hobj]
    split_ifs
    · exact Index.init_authenticated hauth
    · exact ha.authenticated i (by omega)
  · rw [hobj] at hic ⊢
    split_ifs at hic ⊢
    · by_cases h0 : b.height = 0
      · exact (Index.init_of_eq hb h0).2.1
      · rw [(Index.init_of_ne h0).2] at hic
        cases hic
    · exact ha.locked_of_committed i (by omega) hic
  · rw [hobj] at hi0 ⊢
    split_ifs at hi0 ⊢
    · exact (Index.init_of_eq hb (by simpa [hx] using hi0)).2.2
    · exact ha.committed_of_genesis i (by omega) hi0
  · rw [hlen]
    by_cases hiL : i = L
    · rw [hiL, hobj, if_pos rfl] at hp
      simp [hx] at hp
    · rw [hobj, if_neg hiL] at hp
      obtain ⟨hpL, hph, hphash⟩ := ha.linked i (by omega) p hp
      have hpL' : p ≠ L := Nat.ne_of_lt hpL
      simp only [hobj, if_neg hiL, if_neg hpL']
      exact ⟨by omega, hph, hphash⟩
  · rw [hobj] at hic ⊢
    split_ifs at hic ⊢
    · simp [hx] at hic
    · exact ha.prev_of_closed i (by omega) hic
  · by_cases hh : h = b.height
    · subst hh
      by_cases h0 : b.height = 0
      · -- the genesis height was empty, and holds the new index alone
        right
        have hempty : a.viewMap b.height = [] :=
          List.eq_nil_iff_forall_not_mem.mpr fun e he => (hold e he).1 h0
        rw [viewMap_insertIndex ha.keys]
        simp [hx, hempty, upsert]
      · left
        intro e he
        rcases (hmem _ e).mp he with he | ⟨-, rfl⟩
        · rw [hold_obj _ e he]
          exact (hold e he).2
        · rw [hobj, if_pos rfl]
          exact (Index.init_of_ne h0).1
    · have hv : a'.viewMap h = a.viewMap h := by
        rw [viewMap_insertIndex ha.keys, if_neg (by simpa [hx] using hh)]
      rw [hv]
      rcases ha.shape h with hall | hle
      · exact .inl fun e he => by rw [hold_obj h e he]; exact hall e he
      · exact .inr hle
  · rw [hlen] at hi
    by_cases hiL : i = L
    · -- a new committed index is at the genesis height
      rw [hiL, hobj, if_pos rfl] at h0 hic
      by_cases hb0 : b.height = 0
      · simp [hx, hb0] at h0
      · rw [hx, (Index.init_of_ne hb0).2] at hic
        cases hic
    · have hiobj : a'.obj i = a.obj i := by rw [hobj, if_neg hiL]
      rw [hiobj] at h0 hio hic ⊢
      obtain ⟨w, hw, hwo, hwl, hwh, hwhash⟩ := ha.child i (by omega) h0 hio hic
      have hwobj : a'.obj w = a.obj w := by rw [hobj, if_neg (Nat.ne_of_lt hw)]
      exact ⟨w, by omega, by rw [hwobj]; exact hwo, by rw [hwobj]; exact hwl,
        by rw [hwobj]; exact hwh, by rw [hwobj]; exact hwhash⟩

/-! ### Raising the status of an index -/

/-- `process_index` locks a parent by `raise false`. -/
theorem lockIndex_eq (a : ChainAcct) (p : ℕ) : a.lockIndex p = a.raiseIndex p (Index.raise false) :=
  rfl

/-- `process_index` commits a grandparent by `raise true`. -/
theorem commitIndex_eq (a : ChainAcct) (p : ℕ) :
    a.commitIndex p = a.raiseIndex p (Index.raise true) :=
  rfl

/-- Raising a closed object keeps the invariant: no height holds it. -/
theorem Inv.modifyObj_raise_of_closed (ha : a.Inv) (c : Bool) {p : ℕ}
    (hpc : (a.obj p).closed = true) : (a.modifyObj p (Index.raise c)).Inv := by
  set a' := a.modifyObj p (Index.raise c)
  -- a closed object is one of the table: past it every object is open
  have hp : p < a.objs.length := by
    by_contra hle
    rw [obj_of_le (by omega)] at hpc
    cases hpc
  have hobj : ∀ j, a'.obj j = if j = p then (a.obj p).raise c else a.obj j :=
    obj_modifyObj_of_lt hp _
  -- a raise sets the lock and commit flags alone
  have hfix : ∀ j, (a'.obj j).height = (a.obj j).height ∧ (a'.obj j).closed = (a.obj j).closed ∧
      (a'.obj j).prevBlock = (a.obj j).prevBlock ∧ (a'.obj j).blockHash = (a.obj j).blockHash ∧
      (a'.obj j).lastBlockHash = (a.obj j).lastBlockHash := by
    intro j
    rw [hobj]
    split_ifs with hj
    · rw [hj]
      exact ⟨rfl, rfl, rfl, rfl, rfl⟩
    · exact ⟨rfl, rfl, rfl, rfl, rfl⟩
  -- the objects open after the raise are open before it, hence not `p`
  have hopen : ∀ i, (a'.obj i).closed = false → i ≠ p := fun i hio hip => by
    rw [(hfix i).2.1, hip, hpc] at hio
    cases hio
  have hlen : a'.objs.length = a.objs.length := length_modifyObj _ _ _
  have hview : a'.viewMap = a.viewMap := viewMap_modifyObj _ _ _
  -- the objects the cache holds are open, hence not `p`
  have hkeep : ∀ h e, e ∈ a.viewMap h → a'.obj e.2 = a.obj e.2 := fun h e he => by
    rw [hobj, if_neg]
    intro hep
    have hc := (ha.entry h e he).2.2.2
    rw [hep, hpc] at hc
    cases hc
  refine
    { genesis := ha.genesis
      keys := ha.keys
      views := hview ▸ ha.views
      entry := fun h e he => ?_
      cached := fun i hi hio => ?_
      authenticated := fun i hi => ?_
      locked_of_committed := fun i hi hic => ?_
      committed_of_genesis := fun i hi hi0 => ?_
      linked := fun i hi q hq => ?_
      prev_of_closed := fun i hi hic => ?_
      shape := fun h => ?_
      child := fun i hi h0 hio hic => ?_
      ordered := ha.ordered }
  · rw [hview] at he
    rw [hkeep h e he, hlen]
    exact ha.entry h e he
  · rw [hlen] at hi
    have hip := hopen i hio
    unfold Cached
    rw [hobj, if_neg hip, hview]
    rw [hobj, if_neg hip] at hio
    exact ha.cached i hi hio
  · rw [hobj]
    split_ifs with hip
    · simpa [Index.raise, hip] using ha.authenticated p (hip ▸ hlen ▸ hi)
    · exact ha.authenticated i (hlen ▸ hi)
  · rw [hobj] at hic ⊢
    split_ifs at hic ⊢
    · rfl
    · exact ha.locked_of_committed i (hlen ▸ hi) hic
  · rw [hobj] at hi0 ⊢
    split_ifs at hi0 ⊢ with hip
    · subst hip
      simp [Index.raise, ha.committed_of_genesis i (hlen ▸ hi) hi0]
    · exact ha.committed_of_genesis i (hlen ▸ hi) hi0
  · rw [hlen] at hi ⊢
    rw [(hfix i).2.2.1] at hq
    obtain ⟨hql, hqh, hqhash⟩ := ha.linked i hi q hq
    rw [(hfix q).1, (hfix i).1, (hfix q).2.2.2.1, (hfix i).2.2.2.2]
    exact ⟨hql, hqh, hqhash⟩
  · rw [(hfix i).2.1] at hic
    rw [(hfix i).2.2.1]
    exact ha.prev_of_closed i (hlen ▸ hi) hic
  · rw [hview]
    rcases ha.shape h with hall | hle
    · exact .inl fun e he => by rw [hkeep h e he]; exact hall e he
    · exact .inr hle
  · rw [hlen] at hi
    have hip := hopen i hio
    rw [hobj, if_neg hip] at h0 hio hic ⊢
    obtain ⟨w, hw, hwo, hwl, hwh, hwhash⟩ := ha.child i hi h0 hio hic
    have hwp : w ≠ p := fun hwp => by
      rw [hwp, hpc] at hwo
      cases hwo
    refine ⟨w, hlen ▸ hw, ?_⟩
    rw [hobj, if_neg hwp]
    exact ⟨hwo, hwl, hwh, hwhash⟩

/-- The rebase that follows raising `p`: if `p` is open, its height keeps `p` alone
and the other open objects of that height are closed; otherwise only `p` changes. -/
theorem Inv.raise_rebase (ha : a.Inv) (c : Bool) {p : ℕ} (hp : p < a.objs.length) :
    ((a.modifyObj p (Index.raise c)).rebaseChainAtHeight (a.obj p).height).objs.length =
        a.objs.length ∧
      (∀ h, ((a.modifyObj p (Index.raise c)).rebaseChainAtHeight (a.obj p).height).viewMap h =
        if (a.obj p).closed = false ∧ h = (a.obj p).height then [((a.obj p).viewid, p)]
        else a.viewMap h) ∧
      ∀ j, ((a.modifyObj p (Index.raise c)).rebaseChainAtHeight (a.obj p).height).obj j =
        if j = p then (a.obj p).raise c
        else if (a.obj p).closed = false ∧ j < a.objs.length ∧ (a.obj j).closed = false ∧
          (a.obj j).height = (a.obj p).height then (a.obj j).close
        else a.obj j := by
  set a1 := a.modifyObj p (Index.raise c)
  have hobj1 : ∀ j, a1.obj j = if j = p then (a.obj p).raise c else a.obj j :=
    obj_modifyObj_of_lt hp _
  refine ⟨by simp [a1], ?_⟩
  by_cases hpo : (a.obj p).closed = false
  · -- `p` is open: it outweighs every other index of its height
    set t := ((a.obj p).viewid, p)
    have ht : t ∈ a.viewMap (a.obj p).height := ha.cached p hp hpo
    obtain ⟨m, hm⟩ : ∃ m, a1.allBlocks.lookup (a.obj p).height = some m := by
      cases hl : a.allBlocks.lookup (a.obj p).height with
      | none =>
        simp [viewMap, hl] at ht
      | some m => exact ⟨m, hl⟩
    have hvm : a.viewMap (a.obj p).height = m := by
      simp only [viewMap]
      rw [show a.allBlocks = a1.allBlocks from rfl, hm, Option.getD_some]
    have hother : ∀ e ∈ m, e ≠ t → e.2 ≠ p ∧ e.2 < a.objs.length ∧
        (a.obj e.2).closed = false ∧ (a.obj e.2).height = (a.obj p).height := by
      intro e he het
      rw [← hvm] at he
      obtain ⟨hlt, hh, -, hc⟩ := ha.entry _ e he
      exact ⟨fun hep => het (ha.eq_of_mem_of_snd_eq he ht hep), hlt, hc, hh⟩
    have htop : ∀ e ∈ m, e ≠ t → calIndexBaseWeight (a1.obj e.2) < calIndexBaseWeight (a1.obj t.2) ∧
        (a1.obj e.2).committed = false := by
      intro e he het
      obtain ⟨hep, hlt, hc, hh⟩ := hother e he het
      have hu := ha.unlocked_of_ne hp hpo hlt hc hh hep
      have hlocked : ((a.obj p).raise c).locked = true := rfl
      have hauth : ((a.obj p).raise c).authenticated = true := ha.authenticated p hp
      have hwp := weight_of_locked hauth hlocked
      rw [hobj1, if_neg hep, hobj1, if_pos rfl, ha.weight_of_unlocked hlt hu, hh]
      refine ⟨by simp [Index.raise] at hwp ⊢; omega, ?_⟩
      cases hcm : (a.obj e.2).committed
      · rfl
      · rw [ha.locked_of_committed _ hlt hcm] at hu
        cases hu
    obtain ⟨hvh, hvo, hoj⟩ :=
      rebaseChainAtHeight_of_top hm (hvm ▸ ha.nodup_viewMap _) (hvm ▸ ht) htop
    refine ⟨fun h => ?_, fun j => ?_⟩
    · by_cases hh : h = (a.obj p).height
      · rw [if_pos ⟨hpo, hh⟩, hh]
        exact hvh
      · rw [if_neg fun hc => hh hc.2, hvo h hh]
        rfl
    · rw [hoj, hobj1]
      by_cases hjp : j = p
      · -- `p` itself is kept
        subst hjp
        rw [if_neg, if_pos rfl, if_pos rfl]
        rintro ⟨⟨e, he, het, hep⟩, -⟩
        exact (hother e he het).1 hep
      · rw [if_neg hjp, if_neg hjp]
        congr 1
        apply propext
        constructor
        · rintro ⟨⟨e, he, het, rfl⟩, hjl⟩
          obtain ⟨-, hlt, hc, hh⟩ := hother e he het
          exact ⟨hpo, hlt, hc, hh⟩
        · rintro ⟨-, hjl, hjc, hjh⟩
          refine ⟨⟨((a.obj j).viewid, j), ?_, fun hjt => hjp (congrArg Prod.snd hjt), rfl⟩, by simpa [a1] using hjl⟩
          rw [← hvm, ← hjh]
          exact ha.cached j hjl hjc
  · -- `p` is closed: the raise keeps the invariant, so the rebase changes nothing
    have hpc : (a.obj p).closed = true := by simpa using hpo
    obtain ⟨hob, hvb⟩ := (ha.modifyObj_raise_of_closed c hpc).rebaseChainAtHeight_eq (a.obj p).height
    refine ⟨fun h => ?_, fun j => ?_⟩
    · rw [hvb, if_neg fun hc => hpo hc.1]
      rfl
    · have hj : (a1.rebaseChainAtHeight (a.obj p).height).obj j = a1.obj j :=
        congrArg (fun l => List.getD l j default) hob
      rw [hj, hobj1]
      split_ifs with h1 h2
      · rfl
      · exact absurd h2.1 hpo
      · rfl

/-- Raising the status of an object of the table keeps the invariant, given a
locked child in the cache, linked by hash, for a commit of an open index above the
genesis height that was not committed. -/
theorem Inv.raiseIndex (ha : a.Inv) (c : Bool) {p : ℕ} (hp : p < a.objs.length)
    (hchild : (a.obj p).closed = false → 0 < (a.obj p).height → (a.obj p).committed = false →
      c = true → ∃ w < a.objs.length, (a.obj w).closed = false ∧ (a.obj w).locked = true ∧
        (a.obj w).height = (a.obj p).height + 1 ∧ (a.obj w).lastBlockHash = (a.obj p).blockHash) :
    (a.raiseIndex p (Index.raise c)).Inv := by
  obtain ⟨hlen, hview, hobj⟩ := ha.raise_rebase c hp
  set a' := (a.modifyObj p (Index.raise c)).rebaseChainAtHeight (a.obj p).height
  set H := (a.obj p).height
  -- a raise and a close keep what identifies an index
  have hfix : ∀ j, (a'.obj j).height = (a.obj j).height ∧ (a'.obj j).viewid = (a.obj j).viewid ∧
      (a'.obj j).blockHash = (a.obj j).blockHash ∧
      (a'.obj j).lastBlockHash = (a.obj j).lastBlockHash ∧
      (a'.obj j).authenticated = (a.obj j).authenticated := by
    intro j
    rw [hobj]
    split_ifs with h1
    · subst h1
      simp [Index.raise]
    · simp [Index.close]
    · simp
  -- the cache entries of other heights, and of a closed `p`'s, are untouched
  have hkeep : ∀ h e, e ∈ a.viewMap h → ¬((a.obj p).closed = false ∧ h = H) →
      a'.obj e.2 = a.obj e.2 := by
    intro h e he hcond
    obtain ⟨hlt, hh, -, hc⟩ := ha.entry h e he
    have hep : e.2 ≠ p := by
      rintro hep
      rw [hep] at hh hc
      exact hcond ⟨hc, hh.symm⟩
    rw [hobj, if_neg hep, if_neg fun hcl => hcond ⟨hcl.1, hh.symm.trans hcl.2.2.2⟩]
  have hpobj : a'.obj p = (a.obj p).raise c := by rw [hobj, if_pos rfl]
  -- an index other than `p` that is open after the step was not closed by the rebase
  have hopen : ∀ i ≠ p, (a'.obj i).closed = false →
      ¬((a.obj p).closed = false ∧ i < a.objs.length ∧ (a.obj i).closed = false ∧
        (a.obj i).height = H) := by
    intro i hip hio hcl
    rw [hobj, if_neg hip, if_pos hcl] at hio
    simp [Index.close] at hio
  have ha' : a'.Inv :=
    { genesis := by simpa [a'] using ha.genesis
      keys := pairwise_rebaseChainAtHeight (a := a.modifyObj p (Index.raise c)) ha.keys _
      views := fun h => by
        rw [hview]
        split_ifs
        · exact List.pairwise_singleton _ _
        · exact ha.views h
      entry := ?entry
      cached := ?cached
      authenticated := fun i hi => (hfix i).2.2.2.2 ▸ ha.authenticated i (hlen ▸ hi)
      locked_of_committed := ?locked
      committed_of_genesis := ?genesis
      linked := ?linked
      prev_of_closed := ?prev
      shape := ?shape
      child := ?child
      ordered := by simpa [a'] using ha.ordered }
  case entry =>
    intro h e he
    rw [hview] at he
    split_ifs at he with hcond
    · -- the height of an open `p` holds `p` alone
      rw [List.mem_singleton] at he
      subst he
      rw [hpobj, hlen]
      exact ⟨hp, by rw [hcond.2]; rfl, rfl, by simpa [Index.raise] using hcond.1⟩
    · obtain ⟨hlt, hh, hv, hc⟩ := ha.entry h e he
      rw [hkeep h e he hcond, hlen]
      exact ⟨hlt, hh, hv, hc⟩
  case cached =>
    intro i hi hio
    rw [hlen] at hi
    by_cases hip : i = p
    · subst hip
      rw [hpobj] at hio
      have hpo : (a.obj i).closed = false := by simpa [Index.raise] using hio
      simp only [Cached, hpobj, hview, Index.raise]
      simp [hpo, H]
    · have hinot := hopen i hip hio
      have hiobj : a'.obj i = a.obj i := by rw [hobj, if_neg hip, if_neg hinot]
      rw [hiobj] at hio
      unfold Cached
      rw [hiobj, hview, if_neg fun hcond => hinot ⟨hcond.1, hi, hio, hcond.2⟩]
      exact ha.cached i hi hio
  case locked =>
    intro i hi hic
    rw [hobj] at hic ⊢
    split_ifs at hic ⊢
    · rfl
    · exact ha.locked_of_committed i (hlen ▸ hi) hic
    · exact ha.locked_of_committed i (hlen ▸ hi) hic
  case genesis =>
    intro i hi hi0
    rw [hobj] at hi0 ⊢
    split_ifs at hi0 ⊢ with h1
    · subst h1
      simp [Index.raise, ha.committed_of_genesis i (hlen ▸ hi) hi0]
    · exact ha.committed_of_genesis i (hlen ▸ hi) hi0
    · exact ha.committed_of_genesis i (hlen ▸ hi) hi0
  case linked =>
    intro i hi q hq
    have hq' : (a.obj i).prevBlock = some q := by
      rw [hobj] at hq
      split_ifs at hq with h1
      · subst h1
        simpa [Index.raise] using hq
      · simp [Index.close] at hq
      · exact hq
    obtain ⟨hql, hqh, hqhash⟩ := ha.linked i (hlen ▸ hi) q hq'
    rw [hlen, (hfix q).1, (hfix i).1, (hfix q).2.2.1, (hfix i).2.2.2.1]
    exact ⟨hql, hqh, hqhash⟩
  case prev =>
    intro i hi hic
    rw [hobj] at hic ⊢
    split_ifs at hic ⊢ with h1
    · subst h1
      simpa [Index.raise] using ha.prev_of_closed i hp (by simpa [Index.raise] using hic)
    · rfl
    · exact ha.prev_of_closed i (hlen ▸ hi) hic
  case shape =>
    intro h
    rw [hview]
    split_ifs with hcond
    · exact .inr (by simp)
    · rcases ha.shape h with hall | hle
      · exact .inl fun e he => by rw [hkeep h e he hcond]; exact hall e he
      · exact .inr hle
  case child =>
    intro i hi h0 hio hic
    rw [hlen] at hi
    by_cases hip : i = p
    · -- `p` committed: an old commit has its child, a new one the given child
      subst hip
      rw [hpobj] at h0 hio hic ⊢
      simp only [Index.raise] at h0 hio hic ⊢
      obtain ⟨w, hw, hwo, hwl, hwh, hwhash⟩ : ∃ w < a.objs.length, (a.obj w).closed = false ∧
          (a.obj w).locked = true ∧ (a.obj w).height = (a.obj i).height + 1 ∧
          (a.obj w).lastBlockHash = (a.obj i).blockHash := by
        cases hcom : (a.obj i).committed
        · exact hchild hio h0 hcom (by simpa [hcom] using hic)
        · exact ha.child i hp h0 hio hcom
      have hwobj : a'.obj w = a.obj w := by
        rw [hobj, if_neg (fun hwi => by rw [hwi] at hwh; omega),
          if_neg fun hcl => by have := hcl.2.2.2; omega]
      refine ⟨w, hlen ▸ hw, ?_⟩
      rw [hwobj]
      exact ⟨hwo, hwl, hwh, hwhash⟩
    · have hiobj : a'.obj i = a.obj i := by rw [hobj, if_neg hip, if_neg (hopen i hip hio)]
      rw [hiobj] at h0 hio hic ⊢
      obtain ⟨w, hw, hwo, hwl, hwh, hwhash⟩ := ha.child i hi h0 hio hic
      refine ⟨w, hlen ▸ hw, ?_⟩
      by_cases hwp : w = p
      · -- the child is `p` itself, which the raise keeps open and locked
        subst hwp
        rw [hpobj]
        exact ⟨by simpa [Index.raise] using hwo, rfl, by simpa [Index.raise] using hwh,
          by simpa [Index.raise] using hwhash⟩
      · -- a locked child is not one of the unlocked indexes the rebase closes
        have hwnot : ¬((a.obj p).closed = false ∧ w < a.objs.length ∧ (a.obj w).closed = false ∧
            (a.obj w).height = H) := fun hcl => by
          have hu := ha.unlocked_of_ne hp hcl.1 hcl.2.1 hcl.2.2.1 hcl.2.2.2 hwp
          rw [hwl] at hu
          cases hu
        rw [hobj, if_neg hwp, if_neg hwnot]
        exact ⟨hwo, hwl, hwh, hwhash⟩
  unfold ChainAcct.raiseIndex
  dsimp only
  split_ifs
  · exact ha'
  · exact ha'.updateMetaMetric p

end ChainAcct

end BlockStore

end TopChain

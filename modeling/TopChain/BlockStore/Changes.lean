import Mathlib.Logic.Relation
import TopChain.BlockStore.Invariant

/-!
# Calls of the block store as sequences of changes

A call of `store_block` or `new_index` runs through many methods, and the genesis
store nests a whole call inside another.  None of them changes the account except
through seven primitive changes (`Change`): filing a height, filing a new index,
resetting a previous-block pointer, locking or committing an index in
`process_index`, rebasing a height and updating the meta.  Each keeps the
invariant (`Change.inv`), and only the commit of `process_index` commits an index
above the genesis height, which it does for the grandparent of a processed index:
the index committed then has a child and a grandchild in the cache, linked to it
by pointer and by hash (`Change.commitOk`).

The second half proves that every call is such a sequence (`changes_step`), each
method from those it calls, and reads off the invariant what holds after every call
of a run.

## Main definitions

* `ChainAcct.CommitOk` — a change commits only indexes with a cached child and
  grandchild.
* `ChainAcct.Change` — the primitive changes.

## Main results

* `ChainAcct.Change.inv`, `ChainAcct.Change.commitOk`
* `ChainAcct.changes_step` — every call is a sequence of changes.
* `ChainAcct.run_commit_consistency` — what holds after every call of a run.
-/

namespace TopChain

namespace BlockStore

namespace ChainAcct

open Relation

variable {a a' : ChainAcct}

/-! ### Raising a status, seen from the other heights -/

theorem Inv.obj_raiseIndex_self (ha : a.Inv) (c : Bool) {p : ℕ} (hp : p < a.objs.length) :
    (a.raiseIndex p (Index.raise c)).obj p = (a.obj p).raise c := by
  rw [obj_raiseIndex, (ha.raise_rebase c hp).2.2, if_pos rfl]

/-- Raising `p` changes no object of another height. -/
theorem Inv.obj_raiseIndex_of_height_ne (ha : a.Inv) (c : Bool) {p j : ℕ}
    (hp : p < a.objs.length) (hj : (a.obj j).height ≠ (a.obj p).height) :
    (a.raiseIndex p (Index.raise c)).obj j = a.obj j := by
  have hjp : j ≠ p := fun h => hj (by rw [h])
  rw [obj_raiseIndex, (ha.raise_rebase c hp).2.2, if_neg hjp, if_neg fun h => hj h.2.2.2]

theorem Inv.viewMap_raiseIndex_of_ne (ha : a.Inv) (c : Bool) {p h : ℕ}
    (hp : p < a.objs.length) (hh : h ≠ (a.obj p).height) :
    (a.raiseIndex p (Index.raise c)).viewMap h = a.viewMap h := by
  rw [viewMap_raiseIndex, (ha.raise_rebase c hp).2.1, if_neg fun h' => hh h'.2]

theorem Inv.length_raiseIndex (ha : a.Inv) (c : Bool) {p : ℕ} (hp : p < a.objs.length) :
    (a.raiseIndex p (Index.raise c)).objs.length = a.objs.length := by
  rw [objs_raiseIndex]
  exact (ha.raise_rebase c hp).1

/-- Raising `p` commits nothing but, for `c`, `p` itself: the rebase only closes. -/
theorem Inv.committed_raiseIndex (ha : a.Inv) (c : Bool) {p : ℕ} (hp : p < a.objs.length)
    (j : ℕ) : ((a.raiseIndex p (Index.raise c)).obj j).committed =
      if j = p then c || (a.obj p).committed else (a.obj j).committed := by
  rw [obj_raiseIndex, (ha.raise_rebase c hp).2.2]
  split_ifs <;> rfl

/-- A cached object of another height stays cached when `p` is raised. -/
theorem Inv.cached_raiseIndex_of_height_ne (ha : a.Inv) (c : Bool) {p j : ℕ}
    (hp : p < a.objs.length) (hj : (a.obj j).height ≠ (a.obj p).height) (hc : a.Cached j) :
    (a.raiseIndex p (Index.raise c)).Cached j := by
  unfold Cached
  rw [ha.obj_raiseIndex_of_height_ne c hp hj, ha.viewMap_raiseIndex_of_ne c hp hj]
  exact hc

/-! ### The primitive changes -/

/-- A change commits an index above the genesis height only when that index has a
child and a grandchild in the cache, each linked to its parent by its previous-block
pointer and by hash. -/
def CommitOk (a a' : ChainAcct) : Prop :=
  ∀ x < a'.objs.length, 0 < (a'.obj x).height → (a'.obj x).committed = true →
    (x < a.objs.length → (a.obj x).committed = false) →
    ∃ w z, a'.Cached w ∧ a'.Cached z ∧
      (a'.obj w).prevBlock = some x ∧ (a'.obj w).lastBlockHash = (a'.obj x).blockHash ∧
      (a'.obj z).prevBlock = some w ∧ (a'.obj z).lastBlockHash = (a'.obj w).blockHash

/-- A change that commits no index of positive height commits correctly. -/
theorem commitOk_of_committed
    (h : ∀ x < a'.objs.length, 0 < (a'.obj x).height → (a'.obj x).committed = true →
      x < a.objs.length ∧ (a.obj x).committed = true) : CommitOk a a' := by
  intro x hx h0 hc hnew
  obtain ⟨hxa, hca⟩ := h x hx h0 hc
  rw [hnew hxa] at hca
  cases hca

/-- The changes a call makes to the account, each with the facts its caller
establishes: a new index is the init index of a built, authenticated block that
passed the precheck under a view id its height lacks; a pointer is reset on an
open object, to an object of the table; the commit of `process_index` is of the
uncommitted grandparent `pp` of an index `i`, through a locked parent `p`. -/
inductive Change : ChainAcct → ChainAcct → Prop
  | emplace (a : ChainAcct) (h : ℕ) : Change a (a.emplace h)
  | insertIndex (a : ChainAcct) (b : Block) (hb : b.Built) (hauth : b.authenticated = true)
      (hpre : a.precheckNewIndex (Index.init b) = true)
      (hnew : (a.viewMap b.height).lookup b.viewid = none) :
      Change a (a.insertIndex (Index.init b))
  | resetPrevBlock (a : ChainAcct) (c : ℕ) (np : Option ℕ) (hc : c < a.objs.length)
      (hco : (a.obj c).closed = false) (hnp : ∀ p, np = some p → p < a.objs.length) :
      Change a (a.resetPrevBlock c np).1
  | lockIndex (a : ChainAcct) (p : ℕ) (hp : p < a.objs.length) : Change a (a.lockIndex p)
  | commitIndex (a : ChainAcct) (i p pp : ℕ) (hip : (a.obj i).prevBlock = some p)
      (hpp : (a.obj p).prevBlock = some pp) (hpl : (a.obj p).locked = true)
      (hppc : (a.obj pp).committed = false) : Change a (a.commitIndex pp)
  | rebaseChainAtHeight (a : ChainAcct) (h : ℕ) : Change a (a.rebaseChainAtHeight h)
  | updateMetaMetric (a : ChainAcct) (i : ℕ) : Change a (a.updateMetaMetric i)

theorem Change.inv (hc : Change a a') (ha : a.Inv) : a'.Inv := by
  cases hc with
  | emplace h => exact ha.emplace h
  | insertIndex b hb hauth hpre hnew => exact ha.insertIndex hb hauth hpre hnew
  | resetPrevBlock c np hc hco hnp => exact ha.resetPrevBlock hc hco hnp
  | lockIndex p hp =>
    rw [lockIndex_eq]
    exact ha.raiseIndex false hp fun _ _ _ hc => absurd hc Bool.false_ne_true
  | commitIndex i p pp hip hpp hpl hppc =>
    -- the locked parent `p` is the child the commit of `pp` needs
    obtain ⟨hpa, hppa⟩ := ha.lt_of_prevBlock hpp
    obtain ⟨-, hh, hhash⟩ := ha.linked p hpa pp hpp
    rw [commitIndex_eq]
    exact ha.raiseIndex true hppa fun _ _ _ _ =>
      ⟨p, hpa, ha.open_of_prevBlock hpp, hpl, hh.symm, hhash.symm⟩
  | rebaseChainAtHeight h => exact ha.rebaseChainAtHeight h
  | updateMetaMetric i => exact ha.updateMetaMetric i

/-- The commit of `process_index`: the grandparent's child and grandchild are the
parent and the processed index, of the two heights above, which the commit leaves
as they were. -/
theorem commitOk_commitIndex (ha : a.Inv) {i p pp : ℕ} (hip : (a.obj i).prevBlock = some p)
    (hpp : (a.obj p).prevBlock = some pp) : CommitOk a (a.commitIndex pp) := by
  obtain ⟨hia, hpa⟩ := ha.lt_of_prevBlock hip
  have hppa := (ha.lt_of_prevBlock hpp).2
  obtain ⟨-, hph, hphash⟩ := ha.linked p hpa pp hpp
  obtain ⟨-, hih, hihash⟩ := ha.linked i hia p hip
  have hpne : (a.obj p).height ≠ (a.obj pp).height := by omega
  have hine : (a.obj i).height ≠ (a.obj pp).height := by omega
  rw [commitIndex_eq]
  intro x hx _ hc hnew
  rw [ha.length_raiseIndex true hppa] at hx
  rw [ha.committed_raiseIndex true hppa] at hc
  by_cases hxp : x = pp
  · subst hxp
    refine ⟨p, i, ha.cached_raiseIndex_of_height_ne true hppa hpne
      (ha.cached p hpa (ha.open_of_prevBlock hpp)),
      ha.cached_raiseIndex_of_height_ne true hppa hine (ha.cached i hia (ha.open_of_prevBlock hip)),
      ?_, ?_, ?_, ?_⟩
    · rw [ha.obj_raiseIndex_of_height_ne true hppa hpne]
      exact hpp
    · rw [ha.obj_raiseIndex_of_height_ne true hppa hpne, ha.obj_raiseIndex_self true hppa]
      exact hphash.symm
    · rw [ha.obj_raiseIndex_of_height_ne true hppa hine]
      exact hip
    · rw [ha.obj_raiseIndex_of_height_ne true hppa hine, ha.obj_raiseIndex_of_height_ne true hppa hpne]
      exact hihash.symm
  · rw [if_neg hxp, hnew hx] at hc
    cases hc

theorem Change.commitOk (hc : Change a a') (ha : a.Inv) : CommitOk a a' := by
  cases hc with
  | emplace h => exact commitOk_of_committed fun x hx _ hc => ⟨hx, hc⟩
  | insertIndex b hb hauth hpre hnew =>
    -- the new object is reset to authenticated only above the genesis height
    refine commitOk_of_committed fun x hx h0 hc => ?_
    rw [obj_insertIndex] at h0 hc
    rw [length_insertIndex] at hx
    split_ifs at h0 hc with hxL
    · rw [(Index.init_of_ne (b := b) (by simpa using Nat.pos_iff_ne_zero.mp h0)).2] at hc
      cases hc
    · exact ⟨by omega, hc⟩
  | resetPrevBlock c np hc hco hnp =>
    exact commitOk_of_committed fun x hx _ hc => ⟨by simpa using hx, by simpa using hc⟩
  | lockIndex p hp =>
    refine commitOk_of_committed fun x hx _ hc => ?_
    rw [lockIndex_eq] at hx hc
    rw [ha.length_raiseIndex false hp] at hx
    rw [ha.committed_raiseIndex false hp] at hc
    refine ⟨hx, ?_⟩
    split_ifs at hc with hxp
    · subst hxp
      simpa using hc
    · exact hc
  | commitIndex i p pp hip hpp hpl hppc => exact commitOk_commitIndex ha hip hpp
  | rebaseChainAtHeight h =>
    have ho := (ha.rebaseChainAtHeight_eq h).1
    exact commitOk_of_committed fun x hx _ hc => by
      rw [ho] at hx
      have hobj : (a.rebaseChainAtHeight h).obj x = a.obj x := by unfold obj; rw [ho]
      rw [hobj] at hc
      exact ⟨hx, hc⟩
  | updateMetaMetric i => exact commitOk_of_committed fun x hx _ hc => ⟨hx, hc⟩

/-! ### Sequences of changes -/

theorem inv_of_changes (h : ReflTransGen Change a a') (ha : a.Inv) : a'.Inv := by
  induction h with
  | refl => exact ha
  | tail _ hc ih => exact hc.inv ih

/-- Every change of a sequence from a state with the invariant commits correctly. -/
theorem commitOk_of_changes (h : ReflTransGen Change a a') (ha : a.Inv) :
    ReflTransGen (fun s s' => Change s s' ∧ CommitOk s s') a a' := by
  induction h with
  | refl => exact .refl
  | tail hab hc ih => exact ih.tail ⟨hc, hc.commitOk (inv_of_changes hab ha)⟩

/-- A sequence followed by one that the invariant allows. -/
theorem changes_then {b c : ChainAcct} (ha : a.Inv) (h : ReflTransGen Change a b)
    (h' : b.Inv → ReflTransGen Change b c) : ReflTransGen Change a c :=
  h.trans (h' (inv_of_changes h ha))

/-! ### Each method is a sequence of changes -/

/-- The objects an entry list of a view map names are open objects of the table. -/
theorem Inv.of_mem_map_snd (ha : a.Inv) {h j : ℕ}
    (hj : j ∈ (a.viewMap h).reverse.map (·.2)) : j < a.objs.length ∧ (a.obj j).closed = false := by
  obtain ⟨e, he, rfl⟩ := List.mem_map.1 hj
  obtain ⟨hlt, -, -, hc⟩ := ha.entry h e (List.mem_reverse.1 he)
  exact ⟨hlt, hc⟩

/-- The search for a previous block resets the pointer of an open object to objects
of the table, one candidate after another. -/
theorem changes_linkPrev {c : ℕ} :
    ∀ (ps : List ℕ) (a : ChainAcct), a.Inv → c < a.objs.length → (a.obj c).closed = false →
      (∀ p ∈ ps, p < a.objs.length) → ReflTransGen Change a (a.linkPrev c ps)
  | [], _, _, _, _, _ => .refl
  | p :: ps, a, ha, hc, hco, hps => by
    have h1 : Change a (a.resetPrevBlock c (some p)).1 :=
      .resetPrevBlock a c _ hc hco fun q hq => by
        obtain rfl := Option.some.inj hq
        exact hps _ List.mem_cons_self
    unfold linkPrev
    dsimp only
    split_ifs
    · exact .single h1
    · refine .head h1 (changes_linkPrev ps _ (h1.inv ha) ?_ ?_ ?_)
      · rw [length_resetPrevBlock]
        exact hc
      · rw [closed_resetPrevBlock]
        exact hco
      · intro q hq
        rw [length_resetPrevBlock]
        exact hps q (List.mem_cons_of_mem p hq)

/-- The second half of `link_neighbor` offers `i` as previous block to open objects. -/
theorem changes_foldl_resetPrevBlock {i : ℕ} :
    ∀ (l : List ℕ) (a : ChainAcct), a.Inv → i < a.objs.length →
      (∀ j ∈ l, j < a.objs.length ∧ (a.obj j).closed = false) →
      ReflTransGen Change a (l.foldl (fun a j => (a.resetPrevBlock j (some i)).1) a)
  | [], _, _, _, _ => .refl
  | j :: l, a, ha, hi, hl => by
    obtain ⟨hj, hjo⟩ := hl j List.mem_cons_self
    have h1 : Change a (a.resetPrevBlock j (some i)).1 :=
      .resetPrevBlock a j _ hj hjo fun q hq => by
        obtain rfl := Option.some.inj hq
        exact hi
    rw [List.foldl_cons]
    refine .head h1 (changes_foldl_resetPrevBlock l _ (h1.inv ha) ?_ ?_)
    · rw [length_resetPrevBlock]
      exact hi
    · intro j' hj'
      rw [length_resetPrevBlock, closed_resetPrevBlock]
      exact hl j' (List.mem_cons_of_mem j hj')

theorem changes_linkNeighbor (ha : a.Inv) {i : ℕ} (hi : i < a.objs.length)
    (hio : (a.obj i).closed = false) : ReflTransGen Change a (a.linkNeighbor i) := by
  unfold linkNeighbor
  extract_lets x a1
  split
  · exact .refl
  · -- the search for a previous block of `i`, among the objects one height below
    have h1 : ReflTransGen Change a a1 := by
      simp only [a1]
      split_ifs
      · exact changes_linkPrev _ a ha hi hio fun p hp => (ha.of_mem_map_snd hp).1
      · exact .refl
    have hi1 : i < a1.objs.length := by
      simp only [a1]
      split_ifs
      · rw [length_linkPrev]
        exact hi
      · exact hi
    exact changes_then ha h1 fun ha1 =>
      changes_foldl_resetPrevBlock _ a1 ha1 hi1 fun j hj => ha1.of_mem_map_snd hj

/-- `process_index` locks the parent of `i`, if it has one, and commits the
grandparent through it. -/
theorem changes_processIndex (ha : a.Inv) (i : ℕ) :
    ReflTransGen Change a (a.processIndex i).1 := by
  unfold processIndex
  rcases hp : (a.obj i).prevBlock with _ | p
  · exact .refl
  · obtain ⟨hia, hpa⟩ := ha.lt_of_prevBlock hp
    have hne : (a.obj i).height ≠ (a.obj p).height := by
      have := (ha.linked i hia p hp).2.1
      omega
    dsimp only
    set a1 := if (a.obj p).locked = true then a else a.lockIndex p with ha1
    have h1 : ReflTransGen Change a a1 := by
      rw [ha1]
      split_ifs
      · exact .refl
      · exact .single (.lockIndex a p hpa)
    -- the lock leaves `i`, one height above, pointing at `p`, and `p` locked
    have hip1 : (a1.obj i).prevBlock = some p := by
      rw [ha1]
      split_ifs
      · exact hp
      · rw [lockIndex_eq, ha.obj_raiseIndex_of_height_ne false hpa hne]
        exact hp
    have hpl1 : (a1.obj p).locked = true := by
      rw [ha1]
      split_ifs with hl
      · exact hl
      · rw [lockIndex_eq, ha.obj_raiseIndex_self false hpa]
        rfl
    rcases hpp : (a1.obj p).prevBlock with _ | pp
    · exact h1
    · dsimp only
      split_ifs with hc
      · exact h1
      · exact h1.tail (.commitIndex a1 i p pp hip1 hpp hpl1 (by simpa using hc))

theorem changes_foldl_processIndex : ∀ (l : List ℕ) (a : ChainAcct), a.Inv →
    ReflTransGen Change a (l.foldl (fun a i => (a.processIndex i).1) a)
  | [], _, _ => .refl
  | i :: l, a, ha => by
    rw [List.foldl_cons]
    exact changes_then ha (changes_processIndex ha i) fun ha1 => changes_foldl_processIndex l _ ha1

theorem changes_processAll (ha : a.Inv) (m : List (ℕ × ℕ)) :
    ReflTransGen Change a (a.processAll m) :=
  changes_foldl_processIndex _ a ha

/-- A cached view id makes `cache_index` refuse the index of a built, authenticated
block: above the genesis height its flags are authenticated only, which every
cached index has, and at the genesis height they are all three, which every cached
index there has. -/
theorem Inv.cacheIndex_of_lookup (ha : a.Inv) {b : Block} (hb : b.Built)
    (hauth : b.authenticated = true) {j : ℕ} (hl : (a.viewMap b.height).lookup b.viewid = some j) :
    a.cacheIndex (Index.init b) = (a, none) := by
  obtain ⟨hja, hjh, -, -⟩ := ha.entry _ _ (mem_of_lookup_eq_some hl)
  have hjau := ha.authenticated j hja
  have hflags : (Index.init b).highFlags ≤ (a.obj j).highFlags := by
    by_cases h0 : b.height = 0
    · obtain ⟨hau, hlo, hco⟩ := Index.init_of_eq hb h0
      have hjc : (a.obj j).committed = true := ha.committed_of_genesis j hja (by rw [hjh, h0])
      have hjl := ha.locked_of_committed j hja hjc
      simp [Index.highFlags, hau, hlo, hco, hjau, hjl, hjc]
    · obtain ⟨hlo, hco⟩ := Index.init_of_ne h0
      have hau := Index.init_authenticated hauth
      simp only [Index.highFlags, hau, hlo, hco, hjau, if_true, Bool.false_eq_true, if_false]
      split_ifs <;> omega
  unfold cacheIndex
  rw [Index.init_height, Index.init_viewid, hl]
  dsimp only
  split_ifs
  · rfl
  · rfl

section Store

variable {storeGenesis : ChainAcct → ChainAcct}
  (hf : ∀ a, a.Inv → ReflTransGen Change a (storeGenesis a))
include hf

theorem changes_loadIndex (ha : a.Inv) (h : ℕ) :
    ReflTransGen Change a (loadIndex storeGenesis a h).1 := by
  unfold loadIndex
  split
  · exact .refl
  · split_ifs
    · exact hf a ha
    · exact .refl

theorem changes_connectIndex (ha : a.Inv) (i : ℕ) :
    ReflTransGen Change a (connectIndex storeGenesis a i) := by
  unfold connectIndex
  extract_lets h b1 b2 a1 a2 r a3 a4
  -- the heights below are loaded and `i` is processed
  have h1 : ReflTransGen Change a a1 := by
    by_cases h0 : 0 < h
    · have hb1 : ReflTransGen Change a b1 := changes_loadIndex hf ha _
      have hb2 : ReflTransGen Change a b2 := by
        simp only [b2]
        split_ifs
        · exact changes_then ha hb1 fun hb => changes_loadIndex hf hb _
        · exact hb1
      simp only [a1, if_pos h0]
      exact changes_then ha hb2 fun hb => changes_processIndex hb i
    · simp only [a1, if_neg h0]
      exact .refl
  -- below the highest cert height the two heights above are processed
  have h2 : ReflTransGen Change a a2 := h1.tail (.updateMetaMetric a1 i)
  have h3 : ReflTransGen Change a r.1 := changes_then ha h2 fun hb => changes_loadIndex hf hb _
  have h4 : ReflTransGen Change a a3 := changes_then ha h3 fun hb => changes_processAll hb _
  have h5 : ReflTransGen Change a a4 := changes_then ha h4 fun hb => changes_loadIndex hf hb _
  split_ifs
  · exact h2
  · exact h3
  · exact changes_then ha h5 fun hb => changes_processAll hb _

theorem changes_newIndex (ha : a.Inv) {b : Block} (hb : b.Built) :
    ReflTransGen Change a (newIndex storeGenesis a b).1 := by
  unfold newIndex
  split_ifs with hau
  · exact .refl
  · have hauth : b.authenticated = true := by simpa using hau
    extract_lets x a1
    have h1 : Change a a1 := .emplace a b.height
    have ha1 := h1.inv ha
    split_ifs with hpre
    · exact .single h1
    · rcases hl : (a1.viewMap b.height).lookup b.viewid with _ | j
      · -- a new view id: the index is filed, linked, connected, and its height rebased
        have h2 : Change a1 (a1.insertIndex x) :=
          .insertIndex a1 b hb hauth (by simpa using hpre) hl
        have hcache : a1.cacheIndex x =
            ((a1.insertIndex x).linkNeighbor a1.objs.length, some a1.objs.length) := by
          unfold cacheIndex
          simp only [x, Index.init_height, Index.init_viewid, hl]
        rw [hcache]
        dsimp -zeta only
        extract_lets a2
        have h3 := changes_linkNeighbor (h2.inv ha1) (i := a1.objs.length) (by simp)
          (by rw [obj_insertIndex, if_pos rfl]; exact Index.init_closed b)
        have h4 : ReflTransGen Change a a2 :=
          changes_then ha (((ReflTransGen.single h1).tail h2).trans h3) fun hb =>
            (changes_connectIndex hf hb a1.objs.length).tail (.rebaseChainAtHeight _ b.height)
        split_ifs
        · dsimp only
          exact h4
        · dsimp only
          exact h4
      · -- a cached view id: `cache_index` refuses the index
        rw [show a1.cacheIndex x = (a1, none) from ha1.cacheIndex_of_lookup hb hauth hl]
        exact .single h1

theorem changes_storeBlock (ha : a.Inv) {b : Block} (hb : b.Built) :
    ReflTransGen Change a (storeBlock storeGenesis a b) := by
  unfold storeBlock
  extract_lets a1
  split_ifs
  · exact .refl
  · -- the genesis block may be stored first
    have h1 : ReflTransGen Change a a1 := by
      simp only [a1]
      split_ifs
      · exact hf a ha
      · exact .refl
    have h2 := changes_then ha h1 fun ha1 => changes_newIndex hf ha1 hb
    rcases hn : newIndex storeGenesis a1 b with ⟨a2, _ | i⟩
    · rw [hn] at h2
      exact h2
    · rw [hn] at h2
      exact h2.tail (.updateMetaMetric a2 i)

end Store

theorem changes_storeGenesisBlock (ha : a.Inv) : ReflTransGen Change a a.storeGenesisBlock :=
  changes_storeBlock (fun _ _ => .refl) ha ha.genesis

/-- Every call on a block of the genesis flags at height `0` is a sequence of changes. -/
theorem changes_step (ha : a.Inv) {op : Op} (hop : op.block.Built) :
    ReflTransGen Change a (a.step op) := by
  cases op with
  | storeBlock b => exact changes_storeBlock (fun _ hb => changes_storeGenesisBlock hb) ha hop
  | newIndex b => exact changes_newIndex (fun _ hb => changes_storeGenesisBlock hb) ha hop

theorem inv_run : ∀ (ops : List Op) (a : ChainAcct), a.Inv → (∀ op ∈ ops, op.block.Built) →
    (a.run ops).Inv
  | [], _, ha, _ => ha
  | op :: ops, _, ha, hops =>
    inv_run ops _ (inv_of_changes (changes_step ha (hops op List.mem_cons_self)) ha)
      fun op' h => hops op' (List.mem_cons_of_mem _ h)

/-! ### What holds after every call -/

/-- A height holds at most one committed index: a committed index is locked, and a
height with a locked index holds it alone. -/
theorem Inv.countP_committed_le (ha : a.Inv) (h : ℕ) :
    ((a.viewMap h).countP fun e => (a.obj e.2).committed) ≤ 1 := by
  rcases ha.shape h with hall | hle
  · have hnone : ((a.viewMap h).countP fun e => (a.obj e.2).committed) = 0 := by
      rw [List.countP_eq_zero]
      intro e he hc
      have hl := ha.locked_of_committed _ (ha.entry h e he).1 hc
      rw [hall e he] at hl
      cases hl
    omega
  · exact Nat.le_trans List.countP_le_length hle

/-- Above the genesis height, committed indexes of consecutive heights are linked
by hash: the lower one's locked child is the only index of the height above. -/
theorem Inv.lastBlockHash_of_committed (ha : a.Inv) {h : ℕ} (h0 : 0 < h) {e e' : ℕ × ℕ}
    (he : e ∈ a.viewMap h) (he' : e' ∈ a.viewMap (h + 1)) (hc : (a.obj e.2).committed = true) :
    (a.obj e'.2).lastBlockHash = (a.obj e.2).blockHash := by
  obtain ⟨hlt, hh, -, ho⟩ := ha.entry h e he
  obtain ⟨w, hw, hwo, hwl, hwh, hwhash⟩ := ha.child e.2 hlt (by omega) ho hc
  have hwh' : (a.obj w).height = h + 1 := by omega
  have hwm : ((a.obj w).viewid, w) ∈ a.viewMap (h + 1) := by
    rw [← hwh']
    exact ha.cached w hw hwo
  rcases ha.shape (h + 1) with hall | hle
  · have hu := hall _ hwm
    rw [hwl] at hu
    cases hu
  · rw [eq_of_mem_of_length_le_one hle he' hwm]
    exact hwhash

/-- After every call of a run on a fresh account whose blocks of height `0` carry
the genesis flags: (1) a height holds at most one committed index; (2) a committed
index is locked and authenticated; (3) the meta's commit, lock and cert heights are
ordered; (4) above the genesis height, committed indexes of consecutive heights are
linked by hash; (5) the next call is a sequence of changes each of which commits an
index above the genesis height only with a cached child and grandchild linked to
it. -/
theorem run_commit_consistency {g : Block} (hg : g.Built) (ops : List Op)
    (hops : ∀ op ∈ ops, op.block.Built) :
    let a := (ChainAcct.new g).run ops
    (∀ h, ((a.viewMap h).countP fun e => (a.obj e.2).committed) ≤ 1) ∧
    (∀ i < a.objs.length, (a.obj i).committed = true →
      (a.obj i).locked = true ∧ (a.obj i).authenticated = true) ∧
    (a.blockMeta.highestCommitBlockHeight ≤ a.blockMeta.highestLockBlockHeight ∧
      a.blockMeta.highestLockBlockHeight ≤ a.blockMeta.highestCertBlockHeight) ∧
    (∀ h, 0 < h → ∀ e ∈ a.viewMap h, ∀ e' ∈ a.viewMap (h + 1),
      (a.obj e.2).committed = true → (a.obj e'.2).committed = true →
      (a.obj e'.2).lastBlockHash = (a.obj e.2).blockHash) ∧
    ∀ op : Op, op.block.Built →
      ReflTransGen (fun s s' => Change s s' ∧ CommitOk s s') a (a.step op) := by
  intro a
  have ha : a.Inv := inv_run ops _ (inv_new hg) hops
  refine ⟨ha.countP_committed_le, ?_, ha.ordered, ?_, ?_⟩
  · intro i hi hc
    exact ⟨ha.locked_of_committed i hi hc, ha.authenticated i hi⟩
  · intro h h0 e he e' he' hc _
    exact ha.lastBlockHash_of_committed h0 he he' hc
  · intro op hop
    exact commitOk_of_changes (changes_step ha hop) ha

/-- The blocks of `run_genesis_fork` and one more: storing `Y4` on `Y3` commits `Y2`, so
heights one and two both hold a committed index. -/
def forkChain : List Op :=
  [.storeBlock ⟨1, 1, 101, 999, true, false, false⟩, .storeBlock ⟨2, 2, 102, 101, true, false, false⟩,
    .storeBlock ⟨3, 3, 103, 102, true, false, false⟩, .storeBlock ⟨4, 4, 104, 103, true, false, false⟩]

/-- Clause (4) of `run_commit_consistency` on heights one and two, both committed. -/
theorem run_commit_consistency_fork :
    (1, 1) ∈ ((ChainAcct.new ⟨0, 0, 100, 0, true, true, true⟩).run forkChain).viewMap 1 ∧
      (2, 2) ∈ ((ChainAcct.new ⟨0, 0, 100, 0, true, true, true⟩).run forkChain).viewMap 2 ∧
      (((ChainAcct.new ⟨0, 0, 100, 0, true, true, true⟩).run forkChain).obj 1).committed = true ∧
      (((ChainAcct.new ⟨0, 0, 100, 0, true, true, true⟩).run forkChain).obj 2).committed = true ∧
      (((ChainAcct.new ⟨0, 0, 100, 0, true, true, true⟩).run forkChain).obj 2).lastBlockHash =
        (((ChainAcct.new ⟨0, 0, 100, 0, true, true, true⟩).run forkChain).obj 1).blockHash := by
  have h1 : (1, 1) ∈ ((ChainAcct.new ⟨0, 0, 100, 0, true, true, true⟩).run forkChain).viewMap 1 := by
    decide
  have h2 : (2, 2) ∈ ((ChainAcct.new ⟨0, 0, 100, 0, true, true, true⟩).run forkChain).viewMap 2 := by
    decide
  have hc1 : (((ChainAcct.new ⟨0, 0, 100, 0, true, true, true⟩).run forkChain).obj 1).committed = true := by
    decide
  have hc2 : (((ChainAcct.new ⟨0, 0, 100, 0, true, true, true⟩).run forkChain).obj 2).committed = true := by
    decide
  exact ⟨h1, h2, hc1, hc2,
    (run_commit_consistency (by decide) forkChain (by decide)).2.2.2.1 1 (by decide) _ h1 _ h2 hc1 hc2⟩

set_option maxRecDepth 4000 in
/-- At the genesis height clause (4) fails: storing the height-1 block `Y1` stores
the genesis block first, `Y1` does not link to it, and the two blocks stored above
`Y1` commit it. -/
theorem run_genesis_fork :
    let a := (ChainAcct.new ⟨0, 0, 100, 0, true, true, true⟩).run
      [.storeBlock ⟨1, 1, 101, 999, true, false, false⟩,
        .storeBlock ⟨2, 2, 102, 101, true, false, false⟩,
        .storeBlock ⟨3, 3, 103, 102, true, false, false⟩]
    (0, 0) ∈ a.viewMap 0 ∧ (1, 1) ∈ a.viewMap 1 ∧ (a.obj 0).committed = true ∧
      (a.obj 1).committed = true ∧ (a.obj 1).lastBlockHash ≠ (a.obj 0).blockHash := by
  decide

end ChainAcct

end BlockStore

end TopChain

import TopChain.Sync.ChainSpans

/-!
# What the spans of a chain know

The spans of one chain say, for every height, whether the chain has it: a height
below the genesis span is connected; one in the genesis span has its bit there;
one above it has its bit in the cached span of its index or, when none is
cached, in the stored one.  `Chain.Tracks c covered` says that these bits are
exactly the heights `covered` names, together with what keeps them so: every span
is valid, a cached span lies above the genesis span under its own index, and one
not marked modified has the bits of the store.

Each elementary operation of the chain keeps that description: writing the
genesis span back, evicting cached spans, saving, caching a span after setting a
height in it, setting a height of the genesis span, and moving on from a full
genesis span to the next one.  `Sync.Invariant` puts them together.

## Main definitions

* `Store.bit`, `Chain.knownBit` — the bit of a stored span, and the bit the chain
  holds for a height above its genesis span.
* `Store.Valid`, `Chain.Cached`, `Chain.Tracks`.

## Main results

* `Tracks.writeBackGenesis`, `Tracks.clearHighestSpans`, `Tracks.save` — write-backs
  and evictions lose nothing.
* `Tracks.upsertCache`, `Tracks.setGenesis` — a height set in a cached span or in
  the genesis span joins the covered heights.
* `Tracks.advanceGenesis` — past a full genesis span the next one takes over.
-/

namespace TopChain

namespace Sync

open WordBitmap TopChain.Sync.Span

/-! ### The store -/

namespace Store

/-- Bit `o` of the stored span `j`; clear when no span `j` is stored. -/
def bit (st : Store) (j o : ℕ) : Bool :=
  match st.blockSpans.lookup j with
  | some bm => testBit bm o
  | none => false

/-- The stored spans are kept by index, each with sixteen words. -/
structure Valid (st : Store) : Prop where
  sorted : st.blockSpans.Pairwise fun a b => a.1 < b.1
  length : ∀ e ∈ st.blockSpans, e.2.length = segmentSize

theorem bit_writeSpanToDb (st : Store) (s : Span) (j o : ℕ) :
    (st.writeSpanToDb s).bit j o = if j = s.spanIndex then s.bit o else st.bit j o := by
  split_ifs with hj
  · subst hj
    simp [bit, writeSpanToDb, Span.bit]
  · simp [bit, writeSpanToDb, lookup_upsert_of_ne _ hj]

theorem valid_writeSpanToDb {st : Store} (hst : st.Valid) {s : Span}
    (hs : s.bitmap.length = segmentSize) : (st.writeSpanToDb s).Valid where
  sorted := pairwise_upsert _ _ hst.sorted
  length e he := by
    rcases mem_upsert_const he with he | rfl
    · exact hst.length e he
    · exact hs

@[simp] theorem bit_writeSpanHeightToDb (st : Store) (height j o : ℕ) :
    (st.writeSpanHeightToDb height).bit j o = st.bit j o := rfl

theorem valid_writeSpanHeightToDb {st : Store} (hst : st.Valid) (height : ℕ) :
    (st.writeSpanHeightToDb height).Valid :=
  ⟨hst.sorted, hst.length⟩

theorem spanIndex_readSpanFromDb (st : Store) (s : Span) :
    (st.readSpanFromDb s).spanIndex = s.spanIndex := by
  unfold readSpanFromDb
  split <;> simp [connect]

/-- A span read for a height has the bits stored for the height's span. -/
theorem bit_readSpanFromDb_ofHeight (st : Store) (height o : ℕ) :
    (st.readSpanFromDb (ofHeight height)).bit o = st.bit (index height) o := by
  cases hbm : st.blockSpans.lookup (index height) with
  | some bm => simp [readSpanFromDb, bit, ofHeight, hbm, connect, Span.bit]
  | none => simp [readSpanFromDb, bit, ofHeight, hbm, Span.bit]

theorem valid_readSpanFromDb_ofHeight {st : Store} (hst : st.Valid) (height : ℕ) :
    (st.readSpanFromDb (ofHeight height)).Valid := by
  unfold readSpanFromDb
  split
  · next bm hbm =>
    -- the stored bitmap is scanned from the span's first height
    apply valid_updateUnusedPosition (r := 0) (index_mod height)
    · exact hst.length _ (mem_of_lookup_eq_some hbm)
    · exact Nat.zero_le _
    · exact (Nat.add_zero _).symm
    · intro k hk
      exact absurd hk (Nat.not_lt_zero k)
  · exact valid_ofHeight height

/-- A span read for a height is full only if the store holds the height's span. -/
theorem mem_of_full_readSpanFromDb {st : Store} {height : ℕ}
    (h : (st.readSpanFromDb (ofHeight height)).full = true) :
    ∃ bm, (index height, bm) ∈ st.blockSpans := by
  unfold readSpanFromDb at h
  split at h
  · next bm hbm => exact ⟨bm, mem_of_lookup_eq_some hbm⟩
  · -- a span of zero words is not full
    have hz : (ofHeight height).full = false := rfl
    rw [hz] at h
    exact absurd h Bool.false_ne_true

end Store

/-! ### The chain's bits -/

namespace Chain

/-- The bit the chain holds for offset `o` of span `j`: its cached span's if it
caches one, the stored one's otherwise. -/
def knownBit (c : Chain) (j o : ℕ) : Bool :=
  match c.highestSpans.lookup j with
  | some e => e.1.bit o
  | none => c.store.bit j o

theorem knownBit_of_lookup_some {c : Chain} {j : ℕ} {e : Span × Bool}
    (h : c.highestSpans.lookup j = some e) (o : ℕ) : c.knownBit j o = e.1.bit o := by
  simp [knownBit, h]

theorem knownBit_of_lookup_none {c : Chain} {j : ℕ} (h : c.highestSpans.lookup j = none)
    (o : ℕ) : c.knownBit j o = c.store.bit j o := by
  simp [knownBit, h]

/-- What a cached entry keeps, for a genesis span at `i` and a store `st`: a valid
span under its own index, above `i`, with the stored bits unless marked modified. -/
structure Cached (i : ℕ) (st : Store) (e : ℕ × Span × Bool) : Prop where
  spanIndex : e.2.1.spanIndex = e.1
  valid : e.2.1.Valid
  above : i < e.1
  stored : e.2.2 = false → ∀ o, e.2.1.bit o = st.bit e.1 o

theorem Cached.aligned {i : ℕ} {st : Store} {e : ℕ × Span × Bool} (h : Cached i st e) :
    e.1 % quotaOfBitmap = 0 :=
  h.spanIndex ▸ h.valid.aligned

/-- The spans of `c` hold exactly the heights `covered` names: those below the
genesis span, the bits of the genesis span, and above it the bits of the cached or
stored spans. -/
structure Tracks (c : Chain) (covered : ℕ → Prop) : Prop where
  genValid : c.connectToGenesisSpan.Valid
  below : ∀ x < c.connectToGenesisSpan.spanIndex, covered x
  genBit : ∀ o < quotaOfBitmap,
    c.connectToGenesisSpan.bit o = true ↔ covered (c.connectToGenesisSpan.spanIndex + o)
  known : ∀ j, j % quotaOfBitmap = 0 → c.connectToGenesisSpan.spanIndex < j →
    ∀ o < quotaOfBitmap, c.knownBit j o = true ↔ covered (j + o)
  cached : ∀ e ∈ c.highestSpans, Cached c.connectToGenesisSpan.spanIndex c.store e
  cacheSorted : c.highestSpans.Pairwise fun a b => a.1 < b.1
  storeValid : c.store.Valid

section Tracks

variable {c : Chain} {covered : ℕ → Prop}

/-- The description reads only the genesis span, the cache, and the store above
the genesis span. -/
theorem Tracks.of_store {c' : Chain} (ht : c.Tracks covered)
    (hg : c'.connectToGenesisSpan = c.connectToGenesisSpan) (hh : c'.highestSpans = c.highestSpans)
    (hv : c'.store.Valid)
    (hbit : ∀ j, c.connectToGenesisSpan.spanIndex < j → ∀ o, c'.store.bit j o = c.store.bit j o) :
    c'.Tracks covered := by
  have hk : ∀ j, c.connectToGenesisSpan.spanIndex < j → ∀ o, c'.knownBit j o = c.knownBit j o := by
    intro j hj o
    unfold knownBit
    rw [hh]
    split
    · rfl
    · exact hbit j hj o
  refine ⟨hg ▸ ht.genValid, hg ▸ ht.below, hg ▸ ht.genBit, fun j hja hjlt o ho => ?_,
    fun e he => ?_, hh ▸ ht.cacheSorted, hv⟩
  · rw [hg] at hjlt
    rw [hk j hjlt o]
    exact ht.known j hja hjlt o ho
  · rw [hh] at he
    have hce := ht.cached e he
    rw [hg]
    exact ⟨hce.spanIndex, hce.valid, hce.above,
      fun hm o => (hce.stored hm o).trans (hbit e.1 hce.above o).symm⟩

theorem Tracks.of_eq {c' : Chain} (ht : c.Tracks covered)
    (hg : c'.connectToGenesisSpan = c.connectToGenesisSpan) (hh : c'.highestSpans = c.highestSpans)
    (hs : c'.store = c.store) : c'.Tracks covered :=
  ht.of_store hg hh (hs ▸ ht.storeValid) fun j _ o => by rw [hs]

/-- Below the lowest unused height of the genesis span every height is covered. -/
theorem Tracks.covered_of_lt_lowest (ht : c.Tracks covered) {x : ℕ}
    (hx : x < c.connectToGenesisSpan.lowestUnusedPostion) : covered x := by
  have hv := ht.genValid
  by_cases hi : x < c.connectToGenesisSpan.spanIndex
  · exact ht.below x hi
  · -- the offset of `x` lies in the run of set bits that starts the span
    have hspec := runLength_spec c.connectToGenesisSpan
    have hrun : x - c.connectToGenesisSpan.spanIndex <
        runLength c.connectToGenesisSpan.bit 0 quotaOfBitmap := by
      rw [hv.lowest] at hx
      omega
    have hb := (ht.genBit _ (lt_of_lt_of_le hrun hspec.1)).mp (hspec.2.1 _ hrun)
    rwa [Nat.add_sub_cancel' (not_lt.mp hi)] at hb

/-! ### Writing back and evicting -/

@[simp] theorem connectToGenesisSpan_writeBackGenesis (c : Chain) :
    c.writeBackGenesis.connectToGenesisSpan = c.connectToGenesisSpan := by
  unfold writeBackGenesis
  dsimp only
  split_ifs <;> rfl

@[simp] theorem highestSpans_writeBackGenesis (c : Chain) :
    c.writeBackGenesis.highestSpans = c.highestSpans := by
  unfold writeBackGenesis
  dsimp only
  split_ifs <;> rfl

@[simp] theorem connectToGenesisHeight_writeBackGenesis (c : Chain) :
    c.writeBackGenesis.connectToGenesisHeight = c.connectToGenesisHeight := by
  unfold writeBackGenesis
  dsimp only
  split_ifs <;> rfl

/-- The write-back changes the store at the genesis index only. -/
theorem bit_store_writeBackGenesis (c : Chain) {j : ℕ} (hj : j ≠ c.connectToGenesisSpan.spanIndex)
    (o : ℕ) : c.writeBackGenesis.store.bit j o = c.store.bit j o := by
  unfold writeBackGenesis
  dsimp only
  split_ifs <;> simp [Store.bit_writeSpanToDb, hj]

theorem Tracks.writeBackGenesis (ht : c.Tracks covered) : c.writeBackGenesis.Tracks covered := by
  have hv : c.writeBackGenesis.store.Valid := by
    unfold Chain.writeBackGenesis
    dsimp only
    split_ifs
    · exact Store.valid_writeSpanHeightToDb
        (Store.valid_writeSpanToDb ht.storeValid ht.genValid.length) _
    · exact Store.valid_writeSpanToDb ht.storeValid ht.genValid.length
    · exact Store.valid_writeSpanHeightToDb ht.storeValid _
    · exact ht.storeValid
  exact ht.of_store (by simp) (by simp) hv fun j hj o => bit_store_writeBackGenesis c hj.ne' o

/-- Evicting the lowest cached span, written back if modified, keeps what the
chain holds: the store now has the bits the cache had. -/
theorem Tracks.evictHead (ht : c.Tracks covered) {e : ℕ × Span × Bool}
    {rest : List (ℕ × Span × Bool)} (hc : c.highestSpans = e :: rest) :
    ({ c with store := if e.2.2 then c.store.writeSpanToDb e.2.1 else c.store,
              highestSpans := rest }).Tracks covered := by
  have hce : Cached c.connectToGenesisSpan.spanIndex c.store e :=
    ht.cached e (hc ▸ List.mem_cons_self)
  have hsorted := List.pairwise_cons.mp (hc ▸ ht.cacheSorted)
  set st' := if e.2.2 then c.store.writeSpanToDb e.2.1 else c.store with hst'
  -- the store after the eviction differs at the evicted index only, where it has its bits
  have hst : ∀ j o, st'.bit j o = if j = e.1 then e.2.1.bit o else c.store.bit j o := by
    intro j o
    rw [hst']
    split_ifs with hm hj hj
    · rw [Store.bit_writeSpanToDb, if_pos (hj.trans hce.spanIndex.symm)]
    · rw [Store.bit_writeSpanToDb, if_neg (fun h => hj (h.trans hce.spanIndex))]
    · subst hj
      exact (hce.stored (by simpa using hm) o).symm
    · rfl
  have hk : ∀ j o, ({ c with store := st', highestSpans := rest } : Chain).knownBit j o =
      c.knownBit j o := by
    intro j o
    by_cases hj : j = e.1
    · subst hj
      have hnone : rest.lookup e.1 = none :=
        List.lookup_eq_none_iff.mpr fun p hp => bne_iff_ne.mpr (hsorted.1 p hp).ne
      have hsome : c.highestSpans.lookup e.1 = some e.2 := by
        rw [hc]
        exact List.lookup_cons_self
      rw [knownBit_of_lookup_none hnone, knownBit_of_lookup_some hsome, hst, if_pos rfl]
    · have hl : c.highestSpans.lookup j = rest.lookup j := by
        rw [hc, List.lookup_cons, beq_false_of_ne hj]
      simp only [knownBit, hl, hst, if_neg hj]
  refine ⟨ht.genValid, ht.below, ht.genBit, fun j hja hjlt o ho => ?_, fun e' he' => ?_,
    hsorted.2, ?_⟩
  · rw [hk]
    exact ht.known j hja hjlt o ho
  · have hce' := ht.cached e' (hc ▸ List.mem_cons_of_mem e he')
    have hne : e'.1 ≠ e.1 := (hsorted.1 e' he').ne'
    exact ⟨hce'.spanIndex, hce'.valid, hce'.above, fun hm o => by
      rw [hst, if_neg hne]
      exact hce'.stored hm o⟩
  · show st'.Valid
    rw [hst']
    split_ifs
    · exact Store.valid_writeSpanToDb ht.storeValid hce.valid.length
    · exact ht.storeValid

/-- The eviction loop, by induction on the cache it walks. -/
theorem Tracks.evictLoop (n : ℕ) :
    ∀ (l : List (ℕ × Span × Bool)) (st : Store),
      Tracks { c with store := st, highestSpans := l } covered →
      Tracks { c with store := (Chain.evict n st l).1, highestSpans := (Chain.evict n st l).2 }
        covered
  | [], _, ht => ht
  | e :: rest, st, ht => by
    rw [Chain.evict]
    by_cases hn : n < (e :: rest).length
    · rw [if_pos hn]
      exact Tracks.evictLoop n rest _ (ht.evictHead rfl)
    · rw [if_neg hn]
      exact ht

theorem Tracks.clearHighestSpans (ht : c.Tracks covered) : c.clearHighestSpans.Tracks covered :=
  Tracks.evictLoop c.spanNums c.highestSpans c.store ht

/-! ### Saving -/

/-- The write-back loop of `save` leaves a span that no modified entry names alone. -/
theorem bit_foldl_writeBack_of_not_modified :
    ∀ (l : List (ℕ × Span × Bool)), (∀ e ∈ l, e.2.1.spanIndex = e.1) →
      ∀ {j : ℕ}, (∀ e ∈ l, e.1 = j → e.2.2 = false) → ∀ (st : Store) (o : ℕ),
      (l.foldl (fun st e => if e.2.2 then st.writeSpanToDb e.2.1 else st) st).bit j o =
        st.bit j o
  | [], _, _, _, _, _ => rfl
  | e :: l, hidx, j, hj, st, o => by
    rw [List.foldl_cons,
      bit_foldl_writeBack_of_not_modified l (fun e' he' => hidx e' (List.mem_cons_of_mem e he'))
        (fun e' he' => hj e' (List.mem_cons_of_mem e he'))]
    split_ifs with hm
    · rw [Store.bit_writeSpanToDb, if_neg]
      intro hje
      have := hj e List.mem_cons_self ((hidx e List.mem_cons_self).symm.trans hje.symm)
      rw [hm] at this
      exact absurd this (by decide)
    · rfl

/-- The write-back loop of `save` stores each modified span under its index. -/
theorem bit_foldl_writeBack_of_modified :
    ∀ (l : List (ℕ × Span × Bool)), (∀ e ∈ l, e.2.1.spanIndex = e.1) →
      l.Pairwise (fun a b => a.1 < b.1) → ∀ {j : ℕ} {s : Span}, (j, s, true) ∈ l →
      ∀ (st : Store) (o : ℕ),
      (l.foldl (fun st e => if e.2.2 then st.writeSpanToDb e.2.1 else st) st).bit j o = s.bit o
  | [], _, _, _, _, hj, _, _ => absurd hj List.not_mem_nil
  | e :: l, hidx, hs, j, s, hj, st, o => by
    have hidx' : ∀ e' ∈ l, e'.2.1.spanIndex = e'.1 := fun e' he' =>
      hidx e' (List.mem_cons_of_mem e he')
    obtain ⟨hhead, hrest⟩ := List.pairwise_cons.mp hs
    rw [List.foldl_cons]
    rcases List.mem_cons.mp hj with rfl | hj
    · -- the entry is written first, and no later entry has its index
      rw [bit_foldl_writeBack_of_not_modified l hidx'
        (fun e' he' he'j => absurd he'j (hhead e' he').ne'), if_pos rfl, Store.bit_writeSpanToDb,
        if_pos (hidx _ List.mem_cons_self).symm]
    · exact bit_foldl_writeBack_of_modified l hidx' hrest hj _ o

theorem valid_foldl_writeBack :
    ∀ (l : List (ℕ × Span × Bool)), (∀ e ∈ l, e.2.1.bitmap.length = segmentSize) →
      ∀ {st : Store}, st.Valid →
      (l.foldl (fun st e => if e.2.2 then st.writeSpanToDb e.2.1 else st) st).Valid
  | [], _, _, hst => hst
  | e :: l, hl, st, hst => by
    rw [List.foldl_cons]
    apply valid_foldl_writeBack l fun e' he' => hl e' (List.mem_cons_of_mem e he')
    split_ifs
    · exact Store.valid_writeSpanToDb hst (hl e List.mem_cons_self)
    · exact hst

/-- Writing every modified cached span back and marking all of them unmodified
keeps what the chain holds. -/
theorem Tracks.saveCache (ht : c.Tracks covered) :
    Tracks { c with
        store := c.highestSpans.foldl (fun st e => if e.2.2 then st.writeSpanToDb e.2.1 else st)
          c.store,
        highestSpans := c.highestSpans.map fun e => (e.1, e.2.1, false) } covered := by
  have hidx : ∀ e ∈ c.highestSpans, e.2.1.spanIndex = e.1 := fun e he =>
    (ht.cached e he).spanIndex
  set st' := c.highestSpans.foldl (fun st e => if e.2.2 then st.writeSpanToDb e.2.1 else st)
    c.store with hst'
  set l' := c.highestSpans.map fun e => (e.1, e.2.1, false) with hl'
  have hlookup : ∀ j, l'.lookup j = (c.highestSpans.lookup j).map fun p => (p.1, false) :=
    fun j => lookup_map_snd (fun p : Span × Bool => (p.1, false)) c.highestSpans j
  have hk : ∀ j o, ({ c with store := st', highestSpans := l' } : Chain).knownBit j o =
      c.knownBit j o := by
    intro j o
    cases hl : c.highestSpans.lookup j with
    | some p =>
      rw [knownBit_of_lookup_some ((hlookup j).trans (by rw [hl]; rfl)),
        knownBit_of_lookup_some hl]
    | none =>
      -- no cached span has index `j`, so the write-back leaves it
      have hnot : ∀ e ∈ c.highestSpans, e.1 = j → e.2.2 = false := fun e he hej => by
        have := List.lookup_eq_none_iff.mp hl e he
        rw [hej] at this
        simp at this
      rw [knownBit_of_lookup_none ((hlookup j).trans (by rw [hl]; rfl)),
        knownBit_of_lookup_none hl]
      exact bit_foldl_writeBack_of_not_modified _ hidx hnot _ o
  refine ⟨ht.genValid, ht.below, ht.genBit, fun j hja hjlt o ho => ?_, fun e' he' => ?_,
    ht.cacheSorted.map _ fun _ _ h => h, ?_⟩
  · rw [hk]
    exact ht.known j hja hjlt o ho
  · obtain ⟨e, he, rfl⟩ := List.mem_map.mp he'
    have hce := ht.cached e he
    refine ⟨hce.spanIndex, hce.valid, hce.above, fun _ o => ?_⟩
    obtain ⟨j, s, m⟩ := e
    cases m with
    | true => exact (bit_foldl_writeBack_of_modified _ hidx ht.cacheSorted he _ o).symm
    | false =>
      -- the entry is unmodified and, the keys being distinct, so is every entry of its index
      have hnot : ∀ e'' ∈ c.highestSpans, e''.1 = j → e''.2.2 = false := by
        intro e'' he'' hj
        obtain ⟨j', s', m'⟩ := e''
        simp only at hj
        subst hj
        have := snd_eq_of_mem ht.cacheSorted he'' he
        simp only [Prod.mk.injEq] at this
        exact this.2
      rw [bit_foldl_writeBack_of_not_modified _ hidx hnot _ o]
      exact hce.stored rfl o
  · exact valid_foldl_writeBack _ (fun e he => (ht.cached e he).valid.length) ht.storeValid

theorem Tracks.save (ht : c.Tracks covered) : c.save.Tracks covered :=
  ht.writeBackGenesis.saveCache

/-! ### Setting a height -/

/-- Caching, under the index of `height`, a valid span of that index whose bits
are those the chain held there and the bit of `height`, and which is marked
modified unless it has the stored bits, adds `height` to the covered heights. -/
theorem Tracks.upsertCache (ht : c.Tracks covered) {height : ℕ}
    (hj : c.connectToGenesisSpan.spanIndex < index height) {s : Span} {m : Bool}
    (hv : s.Valid) (hidx : s.spanIndex = index height)
    (hbit : ∀ o, s.bit o = (decide (height - index height = o) || c.knownBit (index height) o))
    (hm : m = false → ∀ o, s.bit o = c.store.bit (index height) o) :
    ({ c with highestSpans := upsert (fun _ => (s, m)) c.highestSpans (index height) }).Tracks
      fun x => covered x ∨ x = height := by
  have hlo := index_le height
  have hhi := lt_index_add height
  have hal := index_mod height
  have hgal := ht.genValid.aligned
  refine ⟨ht.genValid, fun x hx => .inl (ht.below x hx), fun o ho => ?_,
    fun j hja hjlt o ho => ?_, fun e he => ?_, pairwise_upsert _ _ ht.cacheSorted, ht.storeValid⟩
  · -- the genesis span lies below the span of `height`
    have hne : c.connectToGenesisSpan.spanIndex + o ≠ height := by
      unfold quotaOfBitmap at *
      omega
    rw [ht.genBit o ho]
    simp [hne]
  · by_cases hjh : j = index height
    · subst hjh
      have hoff : height - index height = o ↔ index height + o = height := by omega
      rw [knownBit_of_lookup_some (lookup_upsert_const _ _ _), hbit, Bool.or_eq_true,
        decide_eq_true_eq, ht.known _ hal hj o ho, hoff, or_comm]
    · -- another span: `height` is not among its heights
      have hne : j + o ≠ height := by
        unfold quotaOfBitmap at *
        omega
      have hl : (upsert (fun _ => (s, m)) c.highestSpans (index height)).lookup j =
          c.highestSpans.lookup j := lookup_upsert_of_ne _ hjh _
      have hk : ({ c with highestSpans := upsert (fun _ => (s, m)) c.highestSpans (index height) }
          : Chain).knownBit j o = c.knownBit j o := by
        simp only [knownBit, hl]
      rw [hk, ht.known j hja hjlt o ho]
      simp [hne]
  · rcases mem_upsert_const he with he | rfl
    · exact ht.cached e he
    · exact ⟨hidx, hv, hj, hm⟩

/-- Setting a height of the genesis span adds it to the covered heights. -/
theorem Tracks.setGenesis (ht : c.Tracks covered) {height : ℕ}
    (hown : index height = c.connectToGenesisSpan.spanIndex) (m : Bool) :
    ({ c with connectToGenesisSpan := (c.connectToGenesisSpan.set height).2.2,
              connectToGenesisSpanModified := m }).Tracks fun x => covered x ∨ x = height := by
  have hv := ht.genValid
  have hlo := index_le height
  have hhi := lt_index_add height
  have hidx : (c.connectToGenesisSpan.set height).2.2.spanIndex =
      c.connectToGenesisSpan.spanIndex := spanIndex_set _ _
  refine ⟨valid_set hv height, fun x hx => .inl (ht.below x (hidx ▸ hx)), fun o ho => ?_,
    fun j hja hjlt o ho => ?_, fun e he => hidx ▸ ht.cached e he, ht.cacheSorted, ht.storeValid⟩
  · have hoff : height - c.connectToGenesisSpan.spanIndex = o ↔
        c.connectToGenesisSpan.spanIndex + o = height := by omega
    show (c.connectToGenesisSpan.set height).2.2.bit o = true ↔ _
    rw [hidx, bit_set hv (ownToSpan_eq_true.mpr hown), Bool.or_eq_true, decide_eq_true_eq,
      ht.genBit o ho, hoff, or_comm]
  · -- spans above the genesis span do not hold `height`
    rw [hidx] at hjlt
    have hne : j + o ≠ height := by
      have := hv.aligned
      unfold quotaOfBitmap at *
      omega
    show c.knownBit j o = true ↔ _
    rw [ht.known j hja hjlt o ho]
    simp [hne]

/-! ### Moving the genesis span on -/

/-- The two ways `advanceGenesis` finds the next genesis span. -/
theorem advanceGenesis_cases (c : Chain) :
    (∃ s m, c.highestSpans.lookup (index (c.connectToGenesisHeight + 1)) = some (s, m) ∧
        c.advanceGenesis false =
          c.moveToGenisis (index (c.connectToGenesisHeight + 1)) s m) ∨
      (c.highestSpans.lookup (index (c.connectToGenesisHeight + 1)) = none ∧
        c.advanceGenesis false =
          { c with
            connectToGenesisSpan := c.store.readSpanFromDb (ofHeight (c.connectToGenesisHeight + 1)) })
    := by
  unfold advanceGenesis
  simp only [Bool.false_eq_true, if_false]
  split
  · next s m hl => exact .inl ⟨s, m, hl, rfl⟩
  · next hl => exact .inr ⟨hl, rfl⟩

theorem advanceGenesis_true (c : Chain) :
    c.advanceGenesis true = c.writeBackGenesis.advanceGenesis false := rfl

@[simp] theorem connectToGenesisHeight_advanceGenesis (wb : Bool) (c : Chain) :
    (c.advanceGenesis wb).connectToGenesisHeight = c.connectToGenesisHeight := by
  cases wb
  · rcases advanceGenesis_cases c with ⟨s, m, -, heq⟩ | ⟨-, heq⟩
    · rw [heq]
      rfl
    · rw [heq]
  · rw [advanceGenesis_true]
    rcases advanceGenesis_cases c.writeBackGenesis with ⟨s, m, -, heq⟩ | ⟨-, heq⟩ <;>
      rw [heq] <;> exact connectToGenesisHeight_writeBackGenesis c

section Advance

variable (ht : c.Tracks covered) (hfull : c.connectToGenesisSpan.full = true)
  (hG : c.connectToGenesisHeight + 1 = c.connectToGenesisSpan.lowestUnusedPostion)
include ht hfull hG

/-- Past a full genesis span, the next height is the first of the next span. -/
theorem index_next_of_full :
    index (c.connectToGenesisHeight + 1) = c.connectToGenesisSpan.spanIndex + quotaOfBitmap := by
  have hal := ht.genValid.aligned
  rw [hG, (full_iff_lowest ht.genValid).mp hfull]
  exact (index_eq_iff (by unfold quotaOfBitmap at *; omega)).mpr
    ⟨le_refl _, by unfold quotaOfBitmap; omega⟩

omit hG in
/-- A full genesis span covers every height up to its end. -/
theorem covered_of_full {x : ℕ} (hx : x < c.connectToGenesisSpan.spanIndex + quotaOfBitmap) :
    covered x := by
  apply ht.covered_of_lt_lowest
  rw [(full_iff_lowest ht.genValid).mp hfull]
  exact hx

theorem spanIndex_advanceGenesis :
    (c.advanceGenesis false).connectToGenesisSpan.spanIndex =
      c.connectToGenesisSpan.spanIndex + quotaOfBitmap := by
  rw [← index_next_of_full ht hfull hG]
  rcases advanceGenesis_cases c with ⟨s, m, hl, heq⟩ | ⟨-, heq⟩ <;> rw [heq]
  · show s.connect.spanIndex = _
    rw [connect, spanIndex_updateUnusedPosition]
    exact (ht.cached _ (mem_of_lookup_eq_some hl)).spanIndex
  · exact Store.spanIndex_readSpanFromDb _ _

theorem Tracks.advanceGenesis : (c.advanceGenesis false).Tracks covered := by
  have hnext := index_next_of_full ht hfull hG
  have hal := ht.genValid.aligned
  have hnal : (c.connectToGenesisSpan.spanIndex + quotaOfBitmap) % quotaOfBitmap = 0 := by
    unfold quotaOfBitmap at *
    omega
  -- the next span holds what the chain knew of it
  have hknown := ht.known _ hnal (by unfold quotaOfBitmap; omega)
  -- a cached span other than the next one lies above it
  have habove : ∀ e ∈ c.highestSpans,
      e.1 ≠ c.connectToGenesisSpan.spanIndex + quotaOfBitmap →
      c.connectToGenesisSpan.spanIndex + quotaOfBitmap < e.1 := fun e he hne => by
    have hce := ht.cached e he
    have := hce.aligned
    have := hce.above
    unfold quotaOfBitmap at *
    omega
  rcases advanceGenesis_cases c with ⟨s, m, hl, heq⟩ | ⟨hl, heq⟩
  · -- the cached span of the next index becomes the genesis span
    rw [heq, hnext]
    rw [hnext] at hl
    have hce := ht.cached _ (mem_of_lookup_eq_some hl)
    have hs : s.connect = s := updateUnusedPosition_of_valid hce.valid
    have hidx : s.spanIndex = c.connectToGenesisSpan.spanIndex + quotaOfBitmap := hce.spanIndex
    refine ⟨?_, fun x hx => ?_, fun o ho => ?_, fun j hja hjlt o ho => ?_, fun e he => ?_,
      ht.cacheSorted.sublist List.eraseP_sublist, ht.storeValid⟩
    · show s.connect.Valid
      rw [hs]
      exact hce.valid
    · change x < s.connect.spanIndex at hx
      rw [hs, hidx] at hx
      exact covered_of_full ht hfull hx
    · show s.connect.bit o = true ↔ covered (s.connect.spanIndex + o)
      rw [hs, hidx, ← hknown o ho, knownBit_of_lookup_some hl]
    · change s.connect.spanIndex < j at hjlt
      rw [hs, hidx] at hjlt
      have hne : j ≠ c.connectToGenesisSpan.spanIndex + quotaOfBitmap := hjlt.ne'
      have hk : (c.moveToGenisis (c.connectToGenesisSpan.spanIndex + quotaOfBitmap) s m).knownBit
          j o = c.knownBit j o := by
        simp only [knownBit, moveToGenisis, lookup_eraseKey_of_ne hne]
      rw [hk]
      exact ht.known j hja (by omega) o ho
    · have he' := mem_of_mem_eraseKey he
      have hce' := ht.cached e he'
      have hne := fst_ne_of_mem_eraseKey ht.cacheSorted he
      refine ⟨hce'.spanIndex, hce'.valid, ?_, hce'.stored⟩
      show s.connect.spanIndex < e.1
      rw [hs, hidx]
      exact habove e he' hne
  · -- the next span is read from the store
    rw [heq]
    rw [hnext] at hl
    set s' := c.store.readSpanFromDb (ofHeight (c.connectToGenesisHeight + 1)) with hs'
    have hread : s'.spanIndex = c.connectToGenesisSpan.spanIndex + quotaOfBitmap := by
      rw [hs', Store.spanIndex_readSpanFromDb]
      exact hnext
    have hbit : ∀ o, s'.bit o = c.knownBit (c.connectToGenesisSpan.spanIndex + quotaOfBitmap) o := by
      intro o
      rw [hs', Store.bit_readSpanFromDb_ofHeight, hnext, knownBit_of_lookup_none hl]
    refine ⟨Store.valid_readSpanFromDb_ofHeight ht.storeValid _, fun x hx => ?_, fun o ho => ?_,
      fun j hja hjlt o ho => ?_, fun e he => ?_, ht.cacheSorted, ht.storeValid⟩
    · change x < s'.spanIndex at hx
      rw [hread] at hx
      exact covered_of_full ht hfull hx
    · show s'.bit o = true ↔ covered (s'.spanIndex + o)
      rw [hread, hbit, hknown o ho]
    · change s'.spanIndex < j at hjlt
      rw [hread] at hjlt
      exact ht.known j hja (by omega) o ho
    · have hne : e.1 ≠ c.connectToGenesisSpan.spanIndex + quotaOfBitmap := by
        have := List.lookup_eq_none_iff.mp hl e he
        simp only [bne_iff_ne] at this
        exact this.symm
      have hce := ht.cached e he
      refine ⟨hce.spanIndex, hce.valid, ?_, hce.stored⟩
      show s'.spanIndex < e.1
      rw [hread]
      exact habove e he hne

end Advance

end Tracks

end Chain

end Sync

end TopChain

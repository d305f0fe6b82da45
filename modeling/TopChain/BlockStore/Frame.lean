import TopChain.BlockStore.Model

/-!
# What each primitive of the block store changes

Every method of the store is built from a few primitive changes: an index object
changes (`modifyObj`, `close`), a height gets an entry (`emplace`), an index is
filed (`insertIndex`), a previous-block pointer is reset (`resetPrevBlock`), a
height is rebased, and the meta is updated.  This module says, once for each, what
it changes and what it leaves alone, so that the invariant proofs never unfold
them.

The rebase gets the most care.  Its first loop keeps everything as long as at most
one index of the height is committed (`rebaseFirstPass_of_countP`); the rebase then
keeps the indexes of the largest weight and closes the others
(`rebaseChainAtHeight_of_countP`).

## Main results

* `obj_modifyObj`, `obj_foldl_close`, `obj_insertIndex` — the objects after a change.
* `viewMap_emplace`, `viewMap_insertIndex` — the view maps after filing.
* `resetPrevBlock_cases` — a pointer reset keeps the account or sets the pointer
  to an index one height below with the linked hash.
* `rebaseChainAtHeight_of_countP` — the rebase of a height with at most one
  committed index.
* `ordered_updateMetaMetric` — the meta keeps its heights in order.
-/

namespace TopChain

namespace BlockStore

/-- Closing twice is closing once. -/
@[simp] theorem Index.close_close (x : Index) : x.close.close = x.close := rfl

/-- The meta's heights stay ordered: commit, then lock, then cert. -/
def Meta.Ordered (m : Meta) : Prop :=
  m.highestCommitBlockHeight ≤ m.highestLockBlockHeight ∧
    m.highestLockBlockHeight ≤ m.highestCertBlockHeight

namespace ChainAcct

variable {a : ChainAcct}

/-! ### Index objects -/

@[simp] theorem length_modifyObj (a : ChainAcct) (i : ℕ) (f : Index → Index) :
    (a.modifyObj i f).objs.length = a.objs.length :=
  List.length_modify f a.objs i

@[simp] theorem allBlocks_modifyObj (a : ChainAcct) (i : ℕ) (f : Index → Index) :
    (a.modifyObj i f).allBlocks = a.allBlocks := rfl

@[simp] theorem viewMap_modifyObj (a : ChainAcct) (i : ℕ) (f : Index → Index) :
    (a.modifyObj i f).viewMap = a.viewMap := rfl

@[simp] theorem blockMeta_modifyObj (a : ChainAcct) (i : ℕ) (f : Index → Index) :
    (a.modifyObj i f).blockMeta = a.blockMeta := rfl

@[simp] theorem genesisBlock_modifyObj (a : ChainAcct) (i : ℕ) (f : Index → Index) :
    (a.modifyObj i f).genesisBlock = a.genesisBlock := rfl

theorem obj_modifyObj (a : ChainAcct) (i : ℕ) (f : Index → Index) (j : ℕ) :
    (a.modifyObj i f).obj j = if i = j ∧ j < a.objs.length then f (a.obj j) else a.obj j := by
  unfold obj modifyObj
  rw [List.getD_eq_getElem?_getD, List.getD_eq_getElem?_getD, List.getElem?_modify]
  by_cases hj : j < a.objs.length
  · rw [List.getElem?_eq_getElem hj]
    by_cases hij : i = j <;> simp [hij, hj]
  · rw [List.getElem?_eq_none (by omega)]
    simp [hj]

@[simp] theorem obj_modifyObj_self {i : ℕ} (h : i < a.objs.length) (f : Index → Index) :
    (a.modifyObj i f).obj i = f (a.obj i) := by
  rw [obj_modifyObj, if_pos ⟨rfl, h⟩]

theorem obj_modifyObj_of_ne {i j : ℕ} (h : i ≠ j) (f : Index → Index) :
    (a.modifyObj i f).obj j = a.obj j := by
  rw [obj_modifyObj, if_neg (fun hij => h hij.1)]

/-! ### Closing -/

@[simp] theorem length_foldl_close (l : List ℕ) (a : ChainAcct) :
    (l.foldl close a).objs.length = a.objs.length := by
  induction l generalizing a with
  | nil => rfl
  | cons i l ih => rw [List.foldl_cons, ih, close, length_modifyObj]

@[simp] theorem blockMeta_foldl_close (l : List ℕ) (a : ChainAcct) :
    (l.foldl close a).blockMeta = a.blockMeta := by
  induction l generalizing a with
  | nil => rfl
  | cons i l ih => rw [List.foldl_cons, ih]; rfl

@[simp] theorem genesisBlock_foldl_close (l : List ℕ) (a : ChainAcct) :
    (l.foldl close a).genesisBlock = a.genesisBlock := by
  induction l generalizing a with
  | nil => rfl
  | cons i l ih => rw [List.foldl_cons, ih]; rfl

/-- Closing a list of objects closes exactly those of them in the table. -/
theorem obj_foldl_close (l : List ℕ) (a : ChainAcct) (j : ℕ) :
    (l.foldl close a).obj j = if j ∈ l ∧ j < a.objs.length then (a.obj j).close else a.obj j := by
  induction l generalizing a with
  | nil => simp
  | cons i l ih =>
    rw [List.foldl_cons, ih, close, length_modifyObj, obj_modifyObj]
    by_cases hj : j < a.objs.length
    · by_cases hij : i = j
      · subst hij
        simp [hj]
      · by_cases hjl : j ∈ l <;> simp [hij, hjl, hj, Ne.symm hij]
    · simp [hj]

/-! ### Filing -/

@[simp] theorem objs_emplace (a : ChainAcct) (h : ℕ) : (a.emplace h).objs = a.objs := rfl

@[simp] theorem obj_emplace (a : ChainAcct) (h : ℕ) : (a.emplace h).obj = a.obj := rfl

@[simp] theorem blockMeta_emplace (a : ChainAcct) (h : ℕ) :
    (a.emplace h).blockMeta = a.blockMeta := rfl

@[simp] theorem genesisBlock_emplace (a : ChainAcct) (h : ℕ) :
    (a.emplace h).genesisBlock = a.genesisBlock := rfl

/-- In key order, an entry made for a height holds the view map it had. -/
theorem viewMap_emplace (hk : a.allBlocks.Pairwise fun e e' => e.1 < e'.1) (h h' : ℕ) :
    (a.emplace h).viewMap h' = a.viewMap h' := by
  unfold viewMap emplace
  by_cases hh : h' = h
  · subst hh
    rw [lookup_upsert_self _ _ hk, Option.getD_some]
  · rw [lookup_upsert_of_ne _ hh]

theorem pairwise_emplace (hk : a.allBlocks.Pairwise fun e e' => e.1 < e'.1) (h : ℕ) :
    (a.emplace h).allBlocks.Pairwise fun e e' => e.1 < e'.1 :=
  pairwise_upsert _ h hk

@[simp] theorem length_insertIndex (a : ChainAcct) (x : Index) :
    (a.insertIndex x).objs.length = a.objs.length + 1 := by
  simp [insertIndex]

@[simp] theorem blockMeta_insertIndex (a : ChainAcct) (x : Index) :
    (a.insertIndex x).blockMeta = a.blockMeta := rfl

@[simp] theorem genesisBlock_insertIndex (a : ChainAcct) (x : Index) :
    (a.insertIndex x).genesisBlock = a.genesisBlock := rfl

/-- The new object sits after the old ones. -/
theorem obj_insertIndex (a : ChainAcct) (x : Index) (j : ℕ) :
    (a.insertIndex x).obj j = if j = a.objs.length then x else a.obj j := by
  unfold obj insertIndex
  rw [List.getD_eq_getElem?_getD, List.getD_eq_getElem?_getD]
  rcases Nat.lt_trichotomy j a.objs.length with hj | hj | hj
  · rw [List.getElem?_append_left hj, if_neg (by omega)]
  · subst hj
    simp
  · rw [List.getElem?_eq_none (by simp; omega), List.getElem?_eq_none (by omega), if_neg (by omega)]

theorem viewMap_insertIndex (hk : a.allBlocks.Pairwise fun e e' => e.1 < e'.1) (x : Index)
    (h : ℕ) :
    (a.insertIndex x).viewMap h =
      if h = x.height then upsert (fun _ => a.objs.length) (a.viewMap x.height) x.viewid
      else a.viewMap h := by
  unfold viewMap insertIndex
  split_ifs with hh
  · subst hh
    rw [lookup_upsert_self _ _ hk, Option.getD_some]
  · rw [lookup_upsert_of_ne _ hh]

theorem pairwise_insertIndex (hk : a.allBlocks.Pairwise fun e e' => e.1 < e'.1) (x : Index) :
    (a.insertIndex x).allBlocks.Pairwise fun e e' => e.1 < e'.1 :=
  pairwise_upsert _ x.height hk

/-! ### Previous-block pointers -/

/-- A pointer reset keeps the account, or sets the pointer of `c` to what it was
offered, which, if an index, is one height below with the hash `c` links to. -/
theorem resetPrevBlock_cases (a : ChainAcct) (c : ℕ) (np : Option ℕ) :
    (a.resetPrevBlock c np).1 = a ∨
      ((a.resetPrevBlock c np).1 = a.modifyObj c (fun x => { x with prevBlock := np }) ∧
        ∀ p, np = some p → (a.obj c).height = (a.obj p).height + 1 ∧
          (a.obj p).blockHash = (a.obj c).lastBlockHash) := by
  unfold resetPrevBlock
  split_ifs with hsame
  · exact .inl rfl
  · cases np with
    | none => exact .inr ⟨rfl, fun p hp => absurd hp (by simp)⟩
    | some p =>
      dsimp only
      split_ifs with hlink
      · exact .inr ⟨rfl, fun q hq => by cases hq; exact hlink⟩
      · exact .inl rfl

@[simp] theorem length_resetPrevBlock (a : ChainAcct) (c : ℕ) (np : Option ℕ) :
    (a.resetPrevBlock c np).1.objs.length = a.objs.length := by
  rcases resetPrevBlock_cases a c np with h | ⟨h, -⟩ <;> rw [h]
  exact length_modifyObj _ _ _

@[simp] theorem closed_resetPrevBlock (a : ChainAcct) (c : ℕ) (np : Option ℕ) (j : ℕ) :
    ((a.resetPrevBlock c np).1.obj j).closed = (a.obj j).closed := by
  rcases resetPrevBlock_cases a c np with h | ⟨h, -⟩ <;> rw [h]
  rw [obj_modifyObj]
  split_ifs <;> rfl

@[simp] theorem committed_resetPrevBlock (a : ChainAcct) (c : ℕ) (np : Option ℕ) (j : ℕ) :
    ((a.resetPrevBlock c np).1.obj j).committed = (a.obj j).committed := by
  rcases resetPrevBlock_cases a c np with h | ⟨h, -⟩ <;> rw [h]
  rw [obj_modifyObj]
  split_ifs <;> rfl

@[simp] theorem length_linkPrev (a : ChainAcct) (c : ℕ) :
    ∀ ps, (a.linkPrev c ps).objs.length = a.objs.length
  | [] => rfl
  | p :: ps => by
    unfold linkPrev
    dsimp only
    split_ifs
    · exact length_resetPrevBlock a c (some p)
    · rw [length_linkPrev _ c ps, length_resetPrevBlock]

/-! ### Rebasing -/

/-- A height with at most one index is left alone. -/
theorem rebaseChainAtHeight_of_length_le {h : ℕ}
    (hm : ∀ m, a.allBlocks.lookup h = some m → m.length ≤ 1) : a.rebaseChainAtHeight h = a := by
  unfold rebaseChainAtHeight
  split
  · rfl
  · rename_i m hlook
    rw [if_neg (by have := hm m hlook; omega)]

/-- With at most one committed index, counting the one the loop has seen, the first
loop of the rebase erases nothing and finds the largest weight. -/
theorem rebaseFirstPass_of_countP (a : ChainAcct) (m : List (ℕ × ℕ)) (hc : Bool) (cm : ℕ)
    (hle : m.countP (fun e => (a.obj e.2).committed) + (if hc then 1 else 0) ≤ 1) :
    a.rebaseFirstPass m hc cm =
      (m, [], m.foldl (fun c e => max c (calIndexBaseWeight (a.obj e.2))) cm) := by
  induction m generalizing hc cm with
  | nil => rfl
  | cons e rest ih =>
    rw [rebaseFirstPass]
    by_cases he : (a.obj e.2).committed = true
    · -- the first committed index: none was seen before, and none follows
      have hc' : hc = false := by
        cases hc <;> simp_all
      subst hc'
      have hrest : rest.countP (fun e => (a.obj e.2).committed) + 1 ≤ 1 := by
        simpa [List.countP_cons, he] using hle
      rw [if_neg (by simp)]
      simp only [Bool.false_or, he]
      rw [ih true _ (by simpa using hrest)]
      simp
    · have hrest : rest.countP (fun e => (a.obj e.2).committed) + (if hc then 1 else 0) ≤ 1 := by
        simpa [List.countP_cons, he] using hle
      rw [if_neg (by simp [he])]
      simp only [he, Bool.or_false]
      rw [ih _ _ hrest]
      simp

/-- The rebase of a height with more than one index and at most one committed:
the indexes below the largest weight are closed and only the others are kept. -/
theorem rebaseChainAtHeight_of_countP {h : ℕ} {m : List (ℕ × ℕ)}
    (hm : a.allBlocks.lookup h = some m) (hlen : 1 < m.length)
    (hc : m.countP (fun e => (a.obj e.2).committed) ≤ 1) :
    a.rebaseChainAtHeight h =
      let mx := m.foldl (fun c e => max c (calIndexBaseWeight (a.obj e.2))) 0
      { ((m.filter fun e => calIndexBaseWeight (a.obj e.2) < mx).map (·.2)).foldl close a with
        allBlocks := upsert (fun _ => m.filter fun e => !(calIndexBaseWeight (a.obj e.2) < mx))
          a.allBlocks h } := by
  unfold rebaseChainAtHeight
  rw [hm]
  dsimp only
  rw [if_pos hlen, rebaseFirstPass_of_countP a m false 0 (by simpa using hc)]
  rfl

/-- The largest of a family over a list, when one member reaches a bound that
every member and the start respect. -/
theorem foldl_max_eq {ι : Type*} (g : ι → ℕ) {W : ℕ} :
    ∀ (l : List ι) (c : ℕ), (∀ e ∈ l, g e ≤ W) → c ≤ W → (c = W ∨ ∃ e ∈ l, g e = W) →
      l.foldl (fun c e => max c (g e)) c = W
  | [], c, _, _, hex => by simpa using hex
  | e :: l, c, hub, hc, hex => by
    rw [List.foldl_cons]
    apply foldl_max_eq g l _ (fun e' he' => hub e' (List.mem_cons_of_mem _ he'))
      (Nat.max_le.mpr ⟨hc, hub e List.mem_cons_self⟩)
    rcases hex with hcW | ⟨e', he', hge'⟩
    · exact .inl (by rw [hcW]; exact Nat.max_eq_left (hub e List.mem_cons_self))
    · rcases List.mem_cons.mp he' with rfl | he'
      · exact .inl (by rw [hge']; exact Nat.max_eq_right hc)
      · exact .inr ⟨e', he', hge'⟩

/-- A list without duplicates whose members all equal `t` has one member at most. -/
theorem length_le_one_of_nodup {α : Type*} {l : List α} {t : α} (hnd : l.Nodup)
    (hall : ∀ x ∈ l, x = t) : l.length ≤ 1 := by
  rcases l with _ | ⟨x, _ | ⟨y, l⟩⟩
  · simp
  · simp
  · -- two members, both `t`, would be a duplicate
    have hx := hall x List.mem_cons_self
    have hy := hall y (by simp)
    simp [hx, hy] at hnd

/-- A list of length at most one has at most one member. -/
theorem eq_of_mem_of_length_le_one {α : Type*} {l : List α} (hl : l.length ≤ 1) {x y : α}
    (hx : x ∈ l) (hy : y ∈ l) : x = y := by
  rcases l with _ | ⟨z, _ | ⟨w, l⟩⟩
  · simp at hx
  · rw [List.mem_singleton] at hx hy
    rw [hx, hy]
  · simp at hl

/-- A list of length at most one that holds `t` is `[t]`. -/
theorem eq_singleton_of_length_le_one {α : Type*} {l : List α} (hl : l.length ≤ 1) {t : α}
    (ht : t ∈ l) : l = [t] := by
  rcases l with _ | ⟨x, _ | ⟨y, l⟩⟩
  · simp at ht
  · rw [List.mem_singleton] at ht
    rw [ht]
  · simp at hl

@[simp] theorem length_rebaseChainAtHeight (a : ChainAcct) (h : ℕ) :
    (a.rebaseChainAtHeight h).objs.length = a.objs.length := by
  unfold rebaseChainAtHeight
  split
  · rfl
  · split_ifs
    · exact length_foldl_close _ _
    · rfl

@[simp] theorem blockMeta_rebaseChainAtHeight (a : ChainAcct) (h : ℕ) :
    (a.rebaseChainAtHeight h).blockMeta = a.blockMeta := by
  unfold rebaseChainAtHeight
  split
  · rfl
  · split_ifs
    · exact blockMeta_foldl_close _ _
    · rfl

@[simp] theorem genesisBlock_rebaseChainAtHeight (a : ChainAcct) (h : ℕ) :
    (a.rebaseChainAtHeight h).genesisBlock = a.genesisBlock := by
  unfold rebaseChainAtHeight
  split
  · rfl
  · split_ifs
    · exact genesisBlock_foldl_close _ _
    · rfl

theorem pairwise_rebaseChainAtHeight (hk : a.allBlocks.Pairwise fun e e' => e.1 < e'.1) (h : ℕ) :
    (a.rebaseChainAtHeight h).allBlocks.Pairwise fun e e' => e.1 < e'.1 := by
  unfold rebaseChainAtHeight
  split
  · exact hk
  · split_ifs
    · exact pairwise_upsert _ h hk
    · exact hk

/-- A height whose indexes all weigh the same and none is committed keeps them all:
the rebase changes no object and no view map. -/
theorem rebaseChainAtHeight_of_uniform {h W : ℕ} {m : List (ℕ × ℕ)}
    (hm : a.allBlocks.lookup h = some m) (hc : ∀ e ∈ m, (a.obj e.2).committed = false)
    (hw : ∀ e ∈ m, calIndexBaseWeight (a.obj e.2) = W) :
    (a.rebaseChainAtHeight h).objs = a.objs ∧ (a.rebaseChainAtHeight h).viewMap = a.viewMap := by
  by_cases hlen : m.length ≤ 1
  · rw [rebaseChainAtHeight_of_length_le fun m' hm' => by
      rw [hm] at hm'
      cases hm'
      exact hlen]
    exact ⟨rfl, rfl⟩
  · have hcount : m.countP (fun e => (a.obj e.2).committed) = 0 :=
      List.countP_eq_zero.mpr fun e he => by simp [hc e he]
    obtain ⟨e₀, he₀⟩ := List.exists_mem_of_length_pos (by omega : 0 < m.length)
    -- the largest weight is the common one, so no index is below it
    have hmx : m.foldl (fun c e => max c (calIndexBaseWeight (a.obj e.2))) 0 = W :=
      foldl_max_eq _ m 0 (fun e he => Nat.le_of_eq (hw e he)) (Nat.zero_le _) (.inr ⟨e₀, he₀, hw e₀ he₀⟩)
    have hlow : m.filter (fun e => decide (calIndexBaseWeight (a.obj e.2) < W)) = [] :=
      List.filter_eq_nil_iff.mpr fun e he => by simp [hw e he]
    have hkept : m.filter (fun e => !decide (calIndexBaseWeight (a.obj e.2) < W)) = m :=
      List.filter_eq_self.mpr fun e he => by simp [hw e he]
    rw [rebaseChainAtHeight_of_countP hm (by omega) (by omega)]
    dsimp only
    rw [hmx, hlow, hkept]
    refine ⟨rfl, ?_⟩
    funext h'
    unfold viewMap
    by_cases hh : h' = h
    · subst hh
      simp [hm]
    · simp [lookup_upsert_of_ne _ hh]

/-- A height where one entry `t` outweighs every other, none of them committed, keeps
only `t` and closes the objects of the others. -/
theorem rebaseChainAtHeight_of_top {h : ℕ} {m : List (ℕ × ℕ)} {t : ℕ × ℕ}
    (hm : a.allBlocks.lookup h = some m) (hnd : m.Nodup) (ht : t ∈ m)
    (htop : ∀ e ∈ m, e ≠ t → calIndexBaseWeight (a.obj e.2) < calIndexBaseWeight (a.obj t.2) ∧
      (a.obj e.2).committed = false) :
    (a.rebaseChainAtHeight h).viewMap h = [t] ∧
      (∀ h', h' ≠ h → (a.rebaseChainAtHeight h).viewMap h' = a.viewMap h') ∧
      ∀ j, (a.rebaseChainAtHeight h).obj j =
        if (∃ e ∈ m, e ≠ t ∧ e.2 = j) ∧ j < a.objs.length then (a.obj j).close else a.obj j := by
  by_cases hlen : m.length ≤ 1
  · -- the height holds `t` alone
    have hmt : m = [t] := eq_singleton_of_length_le_one hlen ht
    rw [rebaseChainAtHeight_of_length_le fun m' hm' => by
      rw [hm] at hm'
      cases hm'
      exact hlen]
    refine ⟨by simp [viewMap, hm, hmt], fun _ _ => rfl, fun j => ?_⟩
    rw [if_neg]
    rintro ⟨⟨e, he, hne, -⟩, -⟩
    rw [hmt, List.mem_singleton] at he
    exact hne he
  · have hcount : m.countP (fun e => (a.obj e.2).committed) ≤ 1 := by
      rw [List.countP_eq_length_filter]
      refine length_le_one_of_nodup (t := t) (hnd.filter _) fun e he => ?_
      rw [List.mem_filter] at he
      by_contra hne
      have := (htop e he.1 hne).2
      simp_all
    -- the largest weight is `t`'s
    have hmx : m.foldl (fun c e => max c (calIndexBaseWeight (a.obj e.2))) 0 =
        calIndexBaseWeight (a.obj t.2) := by
      refine foldl_max_eq _ m 0 (fun e he => ?_) (Nat.zero_le _) (.inr ⟨t, ht, rfl⟩)
      by_cases het : e = t
      · exact Nat.le_of_eq (congrArg (fun e => calIndexBaseWeight (a.obj e.2)) het)
      · exact Nat.le_of_lt (htop e he het).1
    have hkept : m.filter (fun e => !decide (calIndexBaseWeight (a.obj e.2) <
        calIndexBaseWeight (a.obj t.2))) = [t] := by
      have hall : ∀ x ∈ m.filter (fun e => !decide (calIndexBaseWeight (a.obj e.2) <
          calIndexBaseWeight (a.obj t.2))), x = t := by
        intro x hx
        rw [List.mem_filter] at hx
        by_contra hne
        have := (htop x hx.1 hne).1
        simp_all
      have hmem : t ∈ m.filter (fun e => !decide (calIndexBaseWeight (a.obj e.2) <
          calIndexBaseWeight (a.obj t.2))) := by
        simp [ht]
      exact eq_singleton_of_length_le_one (length_le_one_of_nodup (hnd.filter _) hall) hmem
    have hlow : ∀ j, (∃ e ∈ m.filter (fun e => decide (calIndexBaseWeight (a.obj e.2) <
        calIndexBaseWeight (a.obj t.2))), e.2 = j) ↔ ∃ e ∈ m, e ≠ t ∧ e.2 = j := by
      intro j
      constructor
      · rintro ⟨e, he, rfl⟩
        rw [List.mem_filter] at he
        refine ⟨e, he.1, fun het => ?_, rfl⟩
        rw [het] at he
        simp at he
      · rintro ⟨e, he, hne, rfl⟩
        exact ⟨e, List.mem_filter.mpr ⟨he, by simp [(htop e he hne).1]⟩, rfl⟩
    rw [rebaseChainAtHeight_of_countP hm (by omega) hcount]
    dsimp only
    rw [hmx, hkept]
    refine ⟨by simp [viewMap], fun h' hh => by simp [viewMap, lookup_upsert_of_ne _ hh], fun j => ?_⟩
    show (List.foldl close a _).obj j = _
    rw [obj_foldl_close]
    simp only [List.mem_map, hlow]

/-! ### The meta -/

@[simp] theorem objs_updateMetaMetric (a : ChainAcct) (i : ℕ) :
    (a.updateMetaMetric i).objs = a.objs := rfl

@[simp] theorem obj_updateMetaMetric (a : ChainAcct) (i : ℕ) :
    (a.updateMetaMetric i).obj = a.obj := rfl

@[simp] theorem allBlocks_updateMetaMetric (a : ChainAcct) (i : ℕ) :
    (a.updateMetaMetric i).allBlocks = a.allBlocks := rfl

@[simp] theorem viewMap_updateMetaMetric (a : ChainAcct) (i : ℕ) :
    (a.updateMetaMetric i).viewMap = a.viewMap := rfl

@[simp] theorem genesisBlock_updateMetaMetric (a : ChainAcct) (i : ℕ) :
    (a.updateMetaMetric i).genesisBlock = a.genesisBlock := rfl

/-- Each branch of `update_meta_metric` raises a height together with every
height it bounds. -/
theorem ordered_updateMetaMetric (a : ChainAcct) (i : ℕ) (ha : a.blockMeta.Ordered) :
    (a.updateMetaMetric i).blockMeta.Ordered := by
  obtain ⟨hcl, hlc⟩ := ha
  unfold updateMetaMetric Meta.Ordered
  dsimp only
  split_ifs
  · dsimp only
    omega
  · dsimp only
    omega
  · dsimp only
    omega
  · exact ⟨hcl, hlc⟩

/-! ### Raising a status -/

/-- The meta update that ends a status raise leaves the objects as the rebase left them. -/
theorem objs_raiseIndex (a : ChainAcct) (p : ℕ) (f : Index → Index) :
    (a.raiseIndex p f).objs = ((a.modifyObj p f).rebaseChainAtHeight (a.obj p).height).objs := by
  unfold raiseIndex
  dsimp only
  split_ifs <;> rfl

theorem obj_raiseIndex (a : ChainAcct) (p : ℕ) (f : Index → Index) :
    (a.raiseIndex p f).obj = ((a.modifyObj p f).rebaseChainAtHeight (a.obj p).height).obj := by
  funext j
  exact congrArg (fun l => List.getD l j default) (objs_raiseIndex a p f)

theorem viewMap_raiseIndex (a : ChainAcct) (p : ℕ) (f : Index → Index) :
    (a.raiseIndex p f).viewMap =
      ((a.modifyObj p f).rebaseChainAtHeight (a.obj p).height).viewMap := by
  unfold raiseIndex
  dsimp only
  split_ifs <;> rfl

end ChainAcct

end BlockStore

end TopChain

import TopChain.Bft.Rules
import Mathlib.Logic.Relation
import Mathlib.Data.List.Nodup

/-!
# The invariant of the xBFT rules

Every mutator of `xBFTRules` is a sequence of a few primitive changes of its state,
`Rules.Change`: proposal objects are created or have their flags changed, certificates
come and go, a new lock is installed (resetting the commit and dropping what does not
follow it), a lock of the same height and view id replaces the lock as it is, the
commit is loaded from the store or set under the lock, and a new proposal is filed
after the proposals of its height are dropped.  The invariants are proved once per
primitive change, and each mutator is shown to be such a sequence.

Three clauses hold of every reachable state with no assumption: the proposals' heights
increase with their view ids, so there is one proposal per height; every proposal is
above the lock; and the lock only moves up, in height and view id together, while the
voted height and view id never decrease.  The fourth, that a commit is the parent of
the lock, needs two facts of the world outside the rules: the store loads a block by
its height and hash, and two lock candidates of one height and view id link to the same
parent (`Block.Linked`).  Without the second, the replacement branch of
`set_lock_block` installs a lock whose parent is not the commit
(`Rules.run_lock_replaced_unlinked`).

## Main definitions

* `Rules.Inv`, `Rules.CommitInv` — the invariant without and with the world's facts.
* `Rules.Advances` — what a change does to the lock and the voted metric.
* `Rules.Change` — the primitive changes; `Rules.Frame` — changes that keep the view.

## Main results

* `Rules.changes_step` — each operation is a sequence of primitive changes.
* `Rules.inv_run`, `Rules.commitInv_run` — the invariants of every run.
* `Rules.run_rules_invariant` — the four clauses, in every state a run reaches.
-/

namespace TopChain
namespace Bft

/-- A block whose parent is the one its height and view id determine. -/
def Block.Linked (parent : UInt64 → UInt64 → String) (b : Block) : Prop :=
  b.lastBlockHash = parent b.height b.viewid

namespace Rules

/-! ### The invariants -/

/-- The invariant of the proposal map: ordered by view id, each proposal filed under
its block's view id and referring to an existing object, heights increasing with view
ids, and every proposal above the lock. -/
structure Inv (s : Rules) : Prop where
  sorted : s.proposals.Pairwise fun a b => a.1 < b.1
  key_eq : ∀ e ∈ s.proposals, e.1 = (s.obj e.2).block.viewid
  id_lt : ∀ e ∈ s.proposals, e.2 < s.objs.length
  increasing : ∀ a ∈ s.proposals, ∀ b ∈ s.proposals,
    (s.obj a.2).block.viewid < (s.obj b.2).block.viewid →
      (s.obj a.2).block.height < (s.obj b.2).block.height
  above_lock : ∀ l, s.lock = some l → ∀ e ∈ s.proposals,
    l.height < (s.obj e.2).block.height ∧ l.viewid < (s.obj e.2).block.viewid

/-- The invariant of the lock and the commit: the lock is linked, and a commit is the
parent of a lock of non-zero height. -/
structure CommitInv (parent : UInt64 → UInt64 → String) (s : Rules) : Prop where
  lock_linked : ∀ l, s.lock = some l → l.Linked parent
  commit_linked : ∀ c l, s.commit = some c → s.lock = some l → l.height ≠ 0 →
    l.height = c.height + 1 ∧ l.lastBlockHash = c.blockHash

theorem inv_empty : empty.Inv where
  sorted := List.Pairwise.nil
  key_eq := by simp [empty]
  id_lt := by simp [empty]
  increasing := by simp [empty]
  above_lock := by simp [empty]

theorem commitInv_empty (parent : UInt64 → UInt64 → String) : empty.CommitInv parent where
  lock_linked := by simp [empty]
  commit_linked := by simp [empty]

/-- Two proposals of one height are the same entry. -/
theorem Inv.eq_of_height_eq {s : Rules} (hs : s.Inv) {a b : UInt64 × ℕ} (ha : a ∈ s.proposals)
    (hb : b ∈ s.proposals) (h : (s.obj a.2).block.height = (s.obj b.2).block.height) : a = b := by
  -- neither view id is below the other, so they are equal, and so are the keys
  have hv : (s.obj a.2).block.viewid = (s.obj b.2).block.viewid :=
    Std.Trichotomous.trichotomous _ _
      (fun hlt => UInt64.lt_irrefl _ (h ▸ hs.increasing a ha b hb hlt))
      (fun hlt => UInt64.lt_irrefl _ (h ▸ hs.increasing b hb a ha hlt))
  have hnodup : (s.proposals.map Prod.fst).Nodup := (List.pairwise_map.mpr hs.sorted).nodup
  exact List.inj_on_of_nodup_map hnodup ha hb (by rw [hs.key_eq a ha, hs.key_eq b hb, hv])

/-! ### The lock and the voted metric only move up -/

/-- A lock `l'` that follows `l`: of the same height and view id, or above it in both. -/
def LockLe (l l' : Block) : Prop :=
  (l'.height = l.height ∧ l'.viewid = l.viewid) ∨ (l.height < l'.height ∧ l.viewid < l'.viewid)

theorem LockLe.refl (l : Block) : LockLe l l := .inl ⟨rfl, rfl⟩

theorem LockLe.trans {l₁ l₂ l₃ : Block} (h₁ : LockLe l₁ l₂) (h₂ : LockLe l₂ l₃) : LockLe l₁ l₃ := by
  rcases h₁ with ⟨hh₁, hv₁⟩ | ⟨hh₁, hv₁⟩ <;> rcases h₂ with ⟨hh₂, hv₂⟩ | ⟨hh₂, hv₂⟩
  · exact .inl ⟨hh₂.trans hh₁, hv₂.trans hv₁⟩
  · exact .inr ⟨hh₁ ▸ hh₂, hv₁ ▸ hv₂⟩
  · exact .inr ⟨hh₂ ▸ hh₁, hv₂ ▸ hv₁⟩
  · exact .inr ⟨UInt64.lt_trans hh₁ hh₂, UInt64.lt_trans hv₁ hv₂⟩

/-- What a change of state does to the lock and the voted metric: a lock stays, or is
followed by one of the same height and view id or above it in both; the voted height
and view id do not decrease. -/
structure Advances (s s' : Rules) : Prop where
  lock : ∀ l, s.lock = some l → ∃ l', s'.lock = some l' ∧ LockLe l l'
  votedHeight : s.votedHeight ≤ s'.votedHeight
  votedViewid : s.votedViewid ≤ s'.votedViewid

theorem Advances.refl (s : Rules) : Advances s s :=
  ⟨fun l h => ⟨l, h, .refl l⟩, UInt64.le_refl _, UInt64.le_refl _⟩

theorem Advances.trans {s₁ s₂ s₃ : Rules} (h₁ : Advances s₁ s₂) (h₂ : Advances s₂ s₃) :
    Advances s₁ s₃ where
  lock l hl := by
    obtain ⟨l₂, hl₂, hle₂⟩ := h₁.lock l hl
    obtain ⟨l₃, hl₃, hle₃⟩ := h₂.lock l₂ hl₂
    exact ⟨l₃, hl₃, hle₂.trans hle₃⟩
  votedHeight := UInt64.le_trans h₁.votedHeight h₂.votedHeight
  votedViewid := UInt64.le_trans h₁.votedViewid h₂.votedViewid

/-- A change that keeps the lock and the voted metric advances nothing. -/
theorem advances_of_eq {s s' : Rules} (hl : s'.lock = s.lock) (hh : s'.votedHeight = s.votedHeight)
    (hv : s'.votedViewid = s.votedViewid) : Advances s s' :=
  ⟨fun l h => ⟨l, hl.trans h, .refl l⟩, hh ▸ UInt64.le_refl _, hv ▸ UInt64.le_refl _⟩

/-! ### Changes that keep the view -/

/-- `s'` keeps the lock, the commit and the voted metric of `s`, the blocks of its
proposal objects, and part of its proposal map: what flag changes, certificate changes,
clock updates and dropped proposals do. -/
structure Frame (s s' : Rules) : Prop where
  proposals : s'.proposals.Sublist s.proposals
  length : s'.objs.length = s.objs.length
  block : ∀ i, (s'.obj i).block = (s.obj i).block
  lock : s'.lock = s.lock
  commit : s'.commit = s.commit
  votedHeight : s'.votedHeight = s.votedHeight
  votedViewid : s'.votedViewid = s.votedViewid

theorem Frame.refl (s : Rules) : Frame s s :=
  ⟨List.Sublist.refl _, rfl, fun _ => rfl, rfl, rfl, rfl, rfl⟩

theorem Frame.trans {s₁ s₂ s₃ : Rules} (h₁ : Frame s₁ s₂) (h₂ : Frame s₂ s₃) : Frame s₁ s₃ :=
  ⟨h₂.proposals.trans h₁.proposals, h₂.length.trans h₁.length,
    fun i => (h₂.block i).trans (h₁.block i), h₂.lock.trans h₁.lock, h₂.commit.trans h₁.commit,
    h₂.votedHeight.trans h₁.votedHeight, h₂.votedViewid.trans h₁.votedViewid⟩

/-- A change of fields outside the view. -/
theorem frame_of_eq {s s' : Rules} (hp : s'.proposals = s.proposals) (ho : s'.objs = s.objs)
    (hl : s'.lock = s.lock) (hc : s'.commit = s.commit) (hh : s'.votedHeight = s.votedHeight)
    (hv : s'.votedViewid = s.votedViewid) : Frame s s' :=
  ⟨hp ▸ List.Sublist.refl _, by rw [ho], fun i => by rw [obj, obj, ho], hl, hc, hh, hv⟩

theorem frame_modifyObj (s : Rules) (i : ℕ) {f : Proposal → Proposal}
    (hf : ∀ p, (f p).block = p.block) : Frame s (s.modifyObj i f) :=
  ⟨List.Sublist.refl _, List.length_set .., fun j => block_obj_modifyObj s i j hf, rfl, rfl, rfl, rfl⟩

theorem frame_certs (s : Rules) (certs : List (UInt64 × Block)) : Frame s { s with certs := certs } :=
  frame_of_eq rfl rfl rfl rfl rfl rfl

theorem frame_filterProposals (s : Rules) (q : UInt64 × ℕ → Bool) :
    Frame s { s with proposals := s.proposals.filter q } :=
  ⟨List.filter_sublist, rfl, fun _ => rfl, rfl, rfl, rfl, rfl⟩

/-- A fold of view-keeping changes keeps the view. -/
theorem frame_foldl {α : Type} {f : Rules → α → Rules} (hf : ∀ s a, Frame s (f s a)) :
    ∀ (l : List α) (s : Rules), Frame s (l.foldl f s)
  | [], s => Frame.refl s
  | a :: l, s => (hf s a).trans (frame_foldl hf l (f s a))

/-- A fact about the blocks of the proposals survives a view-keeping change. -/
theorem Frame.forall_mem {s s' : Rules} (hf : Frame s s') {P : Block → Prop}
    (h : ∀ e ∈ s.proposals, P (s.obj e.2).block) : ∀ e ∈ s'.proposals, P (s'.obj e.2).block := by
  intro e he
  rw [hf.block]
  exact h e (hf.proposals.subset he)

theorem Frame.inv {s s' : Rules} (hf : Frame s s') (hs : s.Inv) : s'.Inv where
  sorted := hs.sorted.sublist hf.proposals
  key_eq e he := by
    rw [hf.block]
    exact hs.key_eq e (hf.proposals.subset he)
  id_lt e he := hf.length ▸ hs.id_lt e (hf.proposals.subset he)
  increasing a ha b hb := by
    rw [hf.block, hf.block]
    exact hs.increasing a (hf.proposals.subset ha) b (hf.proposals.subset hb)
  above_lock := by
    intro l hl
    exact hf.forall_mem (P := fun b => l.height < b.height ∧ l.viewid < b.viewid)
      (hs.above_lock l (hf.lock ▸ hl))

theorem Frame.commitInv {parent : UInt64 → UInt64 → String} {s s' : Rules} (hf : Frame s s')
    (hs : s.CommitInv parent) : s'.CommitInv parent where
  lock_linked l hl := hs.lock_linked l (hf.lock ▸ hl)
  commit_linked c l hc hl := hs.commit_linked c l (hf.commit ▸ hc) (hf.lock ▸ hl)

theorem Frame.advances {s s' : Rules} (hf : Frame s s') : Advances s s' :=
  advances_of_eq hf.lock hf.votedHeight hf.votedViewid

/-! ### The primitive changes -/

theorem obj_newObj_of_lt (s : Rules) (p : Proposal) {i : ℕ} (h : i < s.objs.length) :
    (s.newObj p).obj i = s.obj i := by
  unfold obj newObj
  rw [List.getD_eq_getElem?_getD, List.getD_eq_getElem?_getD, List.getElem?_append_left h]

theorem obj_newObj_self (s : Rules) (p : Proposal) : (s.newObj p).obj s.objs.length = p := by
  unfold obj newObj
  simp

theorem lt_of_followsLock {l b : Block} (h : followsLock l b = true) :
    l.height < b.height ∧ l.viewid < b.viewid := by
  simp only [followsLock, Bool.and_eq_true, Bool.not_eq_true', Bool.or_eq_false_iff,
    decide_eq_false_iff_not, UInt64.not_le] at h
  exact ⟨h.1.1.1.1, h.1.1.1.2⟩

theorem lt_of_safeCheckForLockBlock {s : Rules} {l b : Block} (hl : s.lock = some l)
    (h : s.safeCheckForLockBlock b = true) : l.height < b.height ∧ l.viewid < b.viewid := by
  simp only [safeCheckForLockBlock, hl, Bool.and_eq_true, Bool.not_eq_true', Bool.or_eq_false_iff,
    decide_eq_false_iff_not, UInt64.not_le] at h
  exact h.1

/-- The primitive changes of the rules' state, with what the mutators check before
each; `lockable` holds of the blocks that may become the lock. -/
inductive Change (st : Store) (lockable : Block → Prop) : Rules → Rules → Prop
  | frame {s s' : Rules} : Frame s s' → Change st lockable s s'
  | newObj (s : Rules) (p : Proposal) : Change st lockable s (s.newObj p)
  | installLock {s : Rules} {b : Block} : lockable b → s.safeCheckForLockBlock b = true →
      Change st lockable s (s.installLock b)
  | replaceLock {s : Rules} {l b : Block} : lockable b → s.lock = some l → l.height = b.height →
      l.viewid = b.viewid → Change st lockable s { s with lock := some b }
  | loadCommit {s : Rules} {l c : Block} : s.lock = some l → l.height > 0 →
      st.load (l.height - 1) l.lastBlockHash = some c → Change st lockable s { s with commit := some c }
  | setCommit {s : Rules} {l b : Block} : s.lock = some l →
      (l.height ≠ 0 → l.height = b.height + 1 ∧ l.lastBlockHash = b.blockHash) →
      Change st lockable s { s with commit := some b }
  | fileProposal {s : Rules} {id : ℕ} {b : Block} : id < s.objs.length → (s.obj id).block = b →
      (∀ l, s.lock = some l → l.height < b.height ∧ l.viewid < b.viewid) →
      (∀ e ∈ s.proposals, (s.obj e.2).block.height ≤ b.height ∧ (s.obj e.2).block.viewid < b.viewid) →
      Change st lockable s { s with
        proposals := upsert (fun _ => id)
          (s.proposals.filter fun e => (s.obj e.2).block.height ≠ b.height) b.viewid }

theorem Inv.newObj {s : Rules} (hs : s.Inv) (p : Proposal) : (s.newObj p).Inv where
  sorted := hs.sorted
  key_eq e he := by
    rw [obj_newObj_of_lt s p (hs.id_lt e he)]
    exact hs.key_eq e he
  id_lt e he := by
    have := hs.id_lt e he
    simp only [Rules.newObj, List.length_append, List.length_singleton]
    omega
  increasing a ha b hb := by
    rw [obj_newObj_of_lt s p (hs.id_lt a ha), obj_newObj_of_lt s p (hs.id_lt b hb)]
    exact hs.increasing a ha b hb
  above_lock l hl e he := by
    rw [obj_newObj_of_lt s p (hs.id_lt e he)]
    exact hs.above_lock l hl e he

theorem Inv.installLock {s : Rules} (hs : s.Inv) (b : Block) : (s.installLock b).Inv where
  sorted := hs.sorted.filter _
  key_eq e he := hs.key_eq e (List.mem_filter.mp he).1
  id_lt e he := hs.id_lt e (List.mem_filter.mp he).1
  increasing a ha a' ha' := hs.increasing a (List.mem_filter.mp ha).1 a' (List.mem_filter.mp ha').1
  above_lock l hl e he := by
    -- the new lock is `b`, and every proposal kept follows it
    obtain rfl : b = l := Option.some.inj hl
    exact lt_of_followsLock (List.mem_filter.mp he).2

theorem Inv.replaceLock {s : Rules} (hs : s.Inv) {l b : Block} (hl : s.lock = some l)
    (hh : l.height = b.height) (hv : l.viewid = b.viewid) : ({ s with lock := some b } : Rules).Inv where
  sorted := hs.sorted
  key_eq := hs.key_eq
  id_lt := hs.id_lt
  increasing := hs.increasing
  above_lock l' hl' e he := by
    obtain rfl : b = l' := Option.some.inj hl'
    rw [← hh, ← hv]
    exact hs.above_lock l hl e he

theorem Inv.fileProposal {s : Rules} (hs : s.Inv) {id : ℕ} {b : Block} (hid : id < s.objs.length)
    (hb : (s.obj id).block = b) (hlock : ∀ l, s.lock = some l → l.height < b.height ∧ l.viewid < b.viewid)
    (hbelow : ∀ e ∈ s.proposals, (s.obj e.2).block.height ≤ b.height ∧ (s.obj e.2).block.viewid < b.viewid) :
    ({ s with
      proposals := upsert (fun _ => id)
        (s.proposals.filter fun e => (s.obj e.2).block.height ≠ b.height) b.viewid } : Rules).Inv := by
  -- the proposals kept are below the new one in height and in view id
  have hkept : ∀ e ∈ s.proposals.filter (fun e => (s.obj e.2).block.height ≠ b.height),
      e ∈ s.proposals ∧ (s.obj e.2).block.height < b.height ∧ (s.obj e.2).block.viewid < b.viewid := by
    intro e he
    obtain ⟨he, hne⟩ := List.mem_filter.mp he
    have hne : (s.obj e.2).block.height ≠ b.height := of_decide_eq_true hne
    exact ⟨he, UInt64.lt_of_le_of_ne (hbelow e he).1 hne, (hbelow e he).2⟩
  refine ⟨pairwise_upsert _ _ (hs.sorted.filter _), ?_, ?_, ?_, ?_⟩
  · intro e he
    rcases mem_upsert_const he with he | rfl
    · exact hs.key_eq e (hkept e he).1
    · exact hb ▸ rfl
  · intro e he
    rcases mem_upsert_const he with he | rfl
    · exact hs.id_lt e (hkept e he).1
    · exact hid
  · intro a ha a' ha' hlt
    rcases mem_upsert_const ha with ha | rfl <;> rcases mem_upsert_const ha' with ha' | rfl
    · exact hs.increasing a (hkept a ha).1 a' (hkept a' ha').1 hlt
    · exact hb ▸ (hkept a ha).2.1
    · exact absurd (hb ▸ hlt) (UInt64.lt_asymm (hkept a' ha').2.2)
    · exact absurd hlt (UInt64.lt_irrefl _)
  · intro l hl e he
    rcases mem_upsert_const he with he | rfl
    · exact hs.above_lock l hl e (hkept e he).1
    · exact hb ▸ hlock l hl

theorem Change.inv {st : Store} {lockable : Block → Prop} {s s' : Rules}
    (h : Change st lockable s s') (hs : s.Inv) : s'.Inv := by
  cases h with
  | frame hf => exact hf.inv hs
  | newObj p => exact hs.newObj p
  | installLock _ _ => exact hs.installLock _
  | replaceLock _ hl hh hv => exact hs.replaceLock hl hh hv
  | loadCommit _ _ _ => exact ⟨hs.sorted, hs.key_eq, hs.id_lt, hs.increasing, hs.above_lock⟩
  | setCommit _ _ => exact ⟨hs.sorted, hs.key_eq, hs.id_lt, hs.increasing, hs.above_lock⟩
  | fileProposal hid hb hlock hbelow => exact hs.fileProposal hid hb hlock hbelow

theorem Change.advances {st : Store} {lockable : Block → Prop} {s s' : Rules}
    (h : Change st lockable s s') : Advances s s' := by
  cases h with
  | frame hf => exact hf.advances
  | newObj _ => exact advances_of_eq rfl rfl rfl
  | installLock _ hsafe =>
    refine ⟨fun l hl => ⟨_, rfl, .inr (lt_of_safeCheckForLockBlock hl hsafe)⟩, ?_, ?_⟩
    · rw [UInt64.le_iff_toNat_le, Rules.installLock, UInt64.toNat_max]
      omega
    · rw [UInt64.le_iff_toNat_le, Rules.installLock, UInt64.toNat_max]
      omega
  | replaceLock _ hl hh hv =>
    refine ⟨fun l' hl' => ⟨_, rfl, .inl ⟨?_, ?_⟩⟩, UInt64.le_refl _, UInt64.le_refl _⟩
    · rw [← hh, Option.some.inj (hl.symm.trans hl')]
    · rw [← hv, Option.some.inj (hl.symm.trans hl')]
  | loadCommit _ _ _ => exact advances_of_eq rfl rfl rfl
  | setCommit _ _ => exact advances_of_eq rfl rfl rfl
  | fileProposal _ _ _ _ => exact advances_of_eq rfl rfl rfl

theorem Change.commitInv {parent : UInt64 → UInt64 → String} {st : Store} {lockable : Block → Prop}
    (hload : ∀ h x c, st.load h x = some c → c.height = h ∧ c.blockHash = x)
    (hlockable : ∀ b, lockable b → b.Linked parent) {s s' : Rules}
    (h : Change st lockable s s') (hs : s.CommitInv parent) : s'.CommitInv parent := by
  cases h with
  | frame hf => exact hf.commitInv hs
  | newObj _ => exact ⟨hs.lock_linked, hs.commit_linked⟩
  | installLock hb _ =>
    -- a new lock resets the commit
    refine ⟨fun l hl => ?_, fun c l hc => by simp [Rules.installLock] at hc⟩
    obtain rfl := Option.some.inj hl
    exact hlockable _ hb
  | @replaceLock l b hb hl hh hv =>
    -- the replacing lock has the height, view id and so the parent of the lock it replaces
    have hlink : b.lastBlockHash = l.lastBlockHash := by
      rw [hlockable _ hb, hs.lock_linked l hl, hh, hv]
    refine ⟨fun l' hl' => ?_, fun c l' hc hl' h0 => ?_⟩
    · obtain rfl : b = l' := Option.some.inj hl'
      exact hlockable _ hb
    · obtain rfl : b = l' := Option.some.inj hl'
      obtain ⟨hch, hcv⟩ := hs.commit_linked c l hc hl (hh ▸ h0)
      exact ⟨hh ▸ hch, hlink.trans hcv⟩
  | loadCommit hl hpos hc =>
    refine ⟨hs.lock_linked, fun c' l' hc' hl' _ => ?_⟩
    obtain rfl := Option.some.inj hc'
    obtain rfl := Option.some.inj (hl.symm.trans hl')
    obtain ⟨hh, hx⟩ := hload _ _ _ hc
    refine ⟨?_, hx.symm⟩
    rw [hh, UInt64.sub_add_cancel]
  | setCommit hl hlink =>
    refine ⟨hs.lock_linked, fun c' l' hc' hl' h0 => ?_⟩
    obtain rfl := Option.some.inj hc'
    obtain rfl := Option.some.inj (hl.symm.trans hl')
    exact hlink h0
  | fileProposal _ _ _ _ => exact ⟨hs.lock_linked, hs.commit_linked⟩

/-! ### Sequences of changes -/

section Changes

variable {st : Store} {lockable : Block → Prop}

theorem inv_of_changes {s s' : Rules} (h : Relation.ReflTransGen (Change st lockable) s s')
    (hs : s.Inv) : s'.Inv := by
  induction h with
  | refl => exact hs
  | tail _ hc ih => exact hc.inv ih

theorem advances_of_changes {s s' : Rules} (h : Relation.ReflTransGen (Change st lockable) s s') :
    Advances s s' := by
  induction h with
  | refl => exact Advances.refl s
  | tail _ hc ih => exact ih.trans hc.advances

theorem commitInv_of_changes {parent : UInt64 → UInt64 → String}
    (hload : ∀ h x c, st.load h x = some c → c.height = h ∧ c.blockHash = x)
    (hlockable : ∀ b, lockable b → b.Linked parent) {s s' : Rules}
    (h : Relation.ReflTransGen (Change st lockable) s s') (hs : s.CommitInv parent) :
    s'.CommitInv parent := by
  induction h with
  | refl => exact hs
  | tail _ hc ih => exact hc.commitInv hload hlockable ih

end Changes

/-! ### Each mutator is a sequence of changes -/

theorem frame_retireProposal (height : UInt64) (s : Rules) (id : ℕ) :
    Frame s (retireProposal height s id) := by
  unfold retireProposal
  split_ifs
  · exact frame_modifyObj s id fun _ => rfl
  · exact frame_modifyObj s id fun _ => rfl

theorem frame_settleProposal (b : Block) (s : Rules) (id : ℕ) : Frame s (settleProposal b s id) := by
  unfold settleProposal
  dsimp only
  -- the certified mark first, then the flags set by height
  have hcert : Frame s (if (s.obj id).block.height = b.height ∧ (s.obj id).block.viewid = b.viewid ∧
      (s.obj id).block.viewtoken = b.viewtoken then s.modifyObj id Proposal.markCerted else s) := by
    split_ifs
    · exact frame_modifyObj s id fun _ => rfl
    · exact Frame.refl s
  generalize (if (s.obj id).block.height = b.height ∧ (s.obj id).block.viewid = b.viewid ∧
      (s.obj id).block.viewtoken = b.viewtoken then s.modifyObj id Proposal.markCerted else s) = s' at hcert ⊢
  split_ifs
  · exact hcert.trans (frame_modifyObj s' id fun _ => rfl)
  · exact hcert
  · exact hcert.trans (frame_modifyObj s' id fun _ => rfl)
  · exact hcert

theorem frame_onCertVerified (s : Rules) (certViewid : UInt64) : Frame s (s.onCertVerified certViewid) := by
  unfold onCertVerified
  refine frame_foldl (fun (s : Rules) (e : UInt64 × ℕ) => ?_) _ _
  split_ifs
  · exact frame_modifyObj s e.2 fun _ => rfl
  · exact Frame.refl s

/-- The change that files a new proposal, after changes that keep the view. -/
theorem Change.fileProposal_of_frame {st : Store} {lockable : Block → Prop} {s s' : Rules}
    (hf : Frame s s') (id : ℕ) {b : Block} (hid : id < s.objs.length) (hb : (s.obj id).block = b)
    (hlock : ∀ l, s.lock = some l → l.height < b.height ∧ l.viewid < b.viewid)
    (hbelow : ∀ e ∈ s.proposals, (s.obj e.2).block.height ≤ b.height ∧ (s.obj e.2).block.viewid < b.viewid) :
    Change st lockable s' { s' with
      proposals := upsert (fun _ => id)
        (s'.proposals.filter fun e => (s'.obj e.2).block.height ≠ b.height) b.viewid } :=
  .fileProposal (hf.length ▸ hid) (by rw [hf.block]; exact hb) (fun l hl => hlock l (hf.lock ▸ hl))
    (hf.forall_mem (P := fun q => q.height ≤ b.height ∧ q.viewid < b.viewid) hbelow)

/-- A proposal that does not conflict with `q` by rule #2 is above it in view id and not
below it in height. -/
theorem below_of_proposalConflict {p q : Proposal} (h : proposalConflict p q = false) :
    q.block.height ≤ p.block.height ∧ q.block.viewid < p.block.viewid := by
  simp only [proposalConflict, Bool.or_eq_false_iff, decide_eq_false_iff_not, UInt64.not_le,
    UInt64.not_lt] at h
  exact ⟨h.1.1.1, h.1.1.2⟩

section Mutators

variable {st : Store} {lockable : Block → Prop}

theorem changes_setLockBlock {b : Block} (hb : lockable b) (s : Rules) :
    Relation.ReflTransGen (Change st lockable) s (s.setLockBlock b).1 := by
  unfold setLockBlock
  rcases hl : s.lock with _ | l <;> dsimp only
  · split_ifs with hsafe
    · exact .single (.installLock hb hsafe)
    · exact .refl
  · split_ifs with heq hrep hsafe
    · exact .refl
    · exact .single (.replaceLock hb hl hrep.1 hrep.2.1)
    · exact .single (.installLock hb hsafe)
    · exact .refl

theorem changes_getLockBlock (hll : ∀ b, st.latestLocked = some b → lockable b) (s : Rules) :
    Relation.ReflTransGen (Change st lockable) s (s.getLockBlock st).1 := by
  unfold getLockBlock
  rcases s.lock with _ | l
  · rcases hb : st.latestLocked with _ | b
    · exact .refl
    · exact changes_setLockBlock (hll b hb) s
  · exact .refl

theorem changes_getCommitBlock (hll : ∀ b, st.latestLocked = some b → lockable b) (s : Rules) :
    Relation.ReflTransGen (Change st lockable) s (s.getCommitBlock st).1 := by
  unfold getCommitBlock
  rcases s.commit with _ | c
  · -- no commit: the lock is read, then the commit is loaded below it
    have h1 := changes_getLockBlock hll s
    have hsnd := getLockBlock_snd st s
    rcases hr : s.getLockBlock st with ⟨s1, _ | l⟩ <;> rw [hr] at h1 hsnd <;> dsimp only at hsnd ⊢
    · exact h1
    · split_ifs with hpos
      · rcases hload : st.load (l.height - 1) l.lastBlockHash with _ | c
        · exact h1
        · exact h1.tail (.loadCommit hsnd.symm hpos hload)
      · exact h1
  · exact .refl

theorem changes_setCommitBlock (hll : ∀ b, st.latestLocked = some b → lockable b) (s : Rules)
    (b : Option Block) : Relation.ReflTransGen (Change st lockable) s (s.setCommitBlock st b).1 := by
  unfold setCommitBlock
  rcases b with _ | b
  · exact .refl
  · dsimp only
    split_ifs
    · exact .refl
    · exact .refl
    · have h1 := changes_getLockBlock hll s
      have hsnd := getLockBlock_snd st s
      rcases hr : s.getLockBlock st with ⟨s1, _ | l⟩ <;> rw [hr] at h1 hsnd <;> dsimp only at hsnd ⊢
      · exact h1
      · split_ifs with hbad
        · exact h1
        · -- the commit is set only as the parent of a lock of non-zero height
          refine h1.tail (.setCommit hsnd.symm fun h0 => ?_)
          simpa only [not_or, not_not] using not_and.mp hbad h0

theorem changes_safeCheckFollowCommitBranch (hll : ∀ b, st.latestLocked = some b → lockable b)
    (s : Rules) (b : Block) :
    Relation.ReflTransGen (Change st lockable) s (s.safeCheckFollowCommitBranch st b).1 := by
  rw [fst_safeCheckFollowCommitBranch]
  exact changes_getCommitBlock hll s

theorem changes_safeCheckFollowLockedBranch (hll : ∀ b, st.latestLocked = some b → lockable b)
    (s : Rules) (b : Block) :
    Relation.ReflTransGen (Change st lockable) s (s.safeCheckFollowLockedBranch st b).1 := by
  rw [fst_safeCheckFollowLockedBranch]
  exact changes_getLockBlock hll s

theorem changes_addProposalObj (hll : ∀ b, st.latestLocked = some b → lockable b) (s : Rules) {id : ℕ}
    (hid : id < s.objs.length) : Relation.ReflTransGen (Change st lockable) s (s.addProposalObj st id).1 := by
  have h1 := changes_getLockBlock hll s
  have hobjs := objs_getLockBlock st s
  have hsnd := getLockBlock_snd st s
  unfold addProposalObj
  rcases hr1 : s.getLockBlock st with ⟨s1, _ | l⟩ <;> rw [hr1] at h1 hobjs hsnd <;>
    dsimp only at hobjs hsnd ⊢
  · exact h1
  · -- under the lock `l` the commit branch check at most loads the commit, and the
    -- locked branch check changes nothing
    have hs1 : s1.lock = some l := hsnd.symm
    obtain ⟨c, hc⟩ := getCommitBlock_of_lock st hs1
    have h2 := changes_safeCheckFollowCommitBranch hll s1 (s.obj id).block
    rcases hr2 : s1.safeCheckFollowCommitBranch st (s.obj id).block with ⟨s2, r3⟩
    have hs2 : s2 = { s1 with commit := c } := by
      rw [← hc, ← fst_safeCheckFollowCommitBranch st s1 (s.obj id).block, hr2]
    subst hs2
    rw [hr2] at h2
    dsimp only at h2 ⊢
    rw [safeCheckFollowLockedBranch_of_lock (s := { s1 with commit := c }) _ hs1]
    dsimp only
    split_ifs with hlock hcert hconf hr3 hr4
    · exact h1
    · exact h1
    · exact h1
    · exact h1.trans h2
    · exact h1.trans h2
    · -- accepted: the proposals are retired, the new one filed, lower certificates dropped
      have hbelow : ∀ e ∈ s1.proposals, (s1.obj e.2).block.height ≤ (s.obj id).block.height ∧
          (s1.obj e.2).block.viewid < (s.obj id).block.viewid := fun e he =>
        below_of_proposalConflict (List.any_eq_false.mp (Bool.eq_false_iff.mpr hconf) e he |>
          Bool.eq_false_iff.mpr)
      have hf := frame_foldl (fun s' e => frame_retireProposal (s.obj id).block.height s' e.2)
        s1.proposals { s1 with commit := c }
      refine (((h1.trans h2).tail (.frame hf)).tail (Change.fileProposal_of_frame hf id ?_ ?_ ?_ hbelow)).tail
        (.frame (frame_of_eq rfl rfl rfl rfl rfl rfl))
      · show id < s1.objs.length
        rw [hobjs]
        exact hid
      · show (s1.objs.getD id default).block = _
        rw [hobjs]
        rfl
      · intro l' hl'
        obtain rfl : l = l' := Option.some.inj (hs1.symm.trans hl')
        simpa only [not_or, UInt64.not_le] using hlock

theorem changes_addCertBlock (hll : ∀ b, st.latestLocked = some b → lockable b) (s : Rules) (b : Block) :
    Relation.ReflTransGen (Change st lockable) s (s.addCertBlock st b).1 := by
  unfold addCertBlock
  have h1 := changes_safeCheckFollowCommitBranch hll s b
  rcases hr1 : s.safeCheckFollowCommitBranch st b with ⟨s1, r1⟩
  rw [hr1] at h1
  dsimp only
  have h2 := changes_safeCheckFollowLockedBranch hll s1 b
  rcases hr2 : s1.safeCheckFollowLockedBranch st b with ⟨s2, r2⟩
  rw [hr2] at h2
  dsimp only
  split_ifs
  · exact h1
  · exact h1.trans h2
  · exact h1.trans h2
  -- the certificate is stored (or an older one of its view id kept), the proposals
  -- settled, and those it passes dropped
  all_goals
    exact (h1.trans h2).tail (.frame (((frame_certs _ _).trans
      (frame_foldl (fun (s : Rules) (e : UInt64 × ℕ) => frame_settleProposal b s e.2) _ _)).trans
        (frame_filterProposals _ _)))

theorem changes_isProposalExpire (hll : ∀ b, st.latestLocked = some b → lockable b) (s : Rules) (id : ℕ) :
    Relation.ReflTransGen (Change st lockable) s (s.isProposalExpire st id).1 := by
  rw [fst_isProposalExpire]
  exact (changes_getCommitBlock hll s).trans (changes_getLockBlock hll _)

theorem changes_expireProposals (hll : ∀ b, st.latestLocked = some b → lockable b) (s : Rules) :
    Relation.ReflTransGen (Change st lockable) s (s.expireProposals st) := by
  unfold expireProposals
  generalize s.proposals = ps
  -- one proposal at a time: its expiry check, then its flags
  induction ps generalizing s with
  | nil => exact .refl
  | cons e rest ih =>
    rw [List.foldl_cons]
    refine Relation.ReflTransGen.trans ?_ (ih _)
    have h := changes_isProposalExpire hll s e.2
    rcases hr : s.isProposalExpire st e.2 with ⟨s1, exp⟩
    rw [hr] at h
    dsimp only at h ⊢
    split_ifs
    · exact h.tail (.frame (frame_modifyObj s1 e.2 fun _ => rfl))
    · exact h
    · exact .refl

theorem changes_step (hll : ∀ b, st.latestLocked = some b → lockable b) {op : Op}
    (hop : ∀ b, op = .setLockBlock b → lockable b) (s : Rules) :
    Relation.ReflTransGen (Change st lockable) s (s.step st op) := by
  cases op with
  | setLockBlock b => exact changes_setLockBlock (hop b rfl) s
  | setCommitBlock b => exact changes_setCommitBlock hll s b
  | addProposal p =>
    -- the new object is created, then added
    have hid : s.objs.length < (s.newObj p).objs.length := by simp [newObj]
    exact (Relation.ReflTransGen.single (.newObj s p)).trans (changes_addProposalObj hll _ hid)
  | addCertBlock b => exact changes_addCertBlock hll s b
  | onCertVerified certViewid => exact .single (.frame (frame_onCertVerified s certViewid))
  | removeCertBlock viewid => exact .single (.frame (frame_of_eq rfl rfl rfl rfl rfl rfl))
  | clockFire clock =>
    exact (Relation.ReflTransGen.single (.frame (frame_of_eq rfl rfl rfl rfl rfl rfl))).trans
      (changes_expireProposals hll _)
  | viewFire viewid =>
    exact (Relation.ReflTransGen.single (.frame (frame_of_eq rfl rfl rfl rfl rfl rfl))).trans
      (changes_expireProposals hll _)

theorem changes_run (hll : ∀ b, st.latestLocked = some b → lockable b) :
    ∀ (ops : List Op), (∀ b, Op.setLockBlock b ∈ ops → lockable b) → ∀ s : Rules,
      Relation.ReflTransGen (Change st lockable) s (s.run st ops)
  | [], _, _ => .refl
  | _ :: ops, hops, s =>
    (changes_step hll (fun b hb => hops b (hb ▸ List.mem_cons_self)) s).trans
      (changes_run hll ops (fun b hb => hops b (List.mem_cons_of_mem _ hb)) _)

end Mutators

/-! ### The invariants of every run -/

theorem inv_run (st : Store) (ops : List Op) : (empty.run st ops).Inv := by
  have h : Relation.ReflTransGen (Change st fun _ => True) empty (empty.run st ops) :=
    changes_run (fun _ _ => trivial) ops (fun _ _ => trivial) empty
  exact inv_of_changes h inv_empty

theorem commitInv_run {parent : UInt64 → UInt64 → String} (st : Store)
    (hload : ∀ h x c, st.load h x = some c → c.height = h ∧ c.blockHash = x)
    (hll : ∀ b, st.latestLocked = some b → b.Linked parent) (ops : List Op)
    (hops : ∀ b, Op.setLockBlock b ∈ ops → b.Linked parent) : (empty.run st ops).CommitInv parent :=
  commitInv_of_changes hload (fun _ h => h) (changes_run hll ops hops empty) (commitInv_empty parent)


/-- In every state a run of the rules reaches: (1) the proposals' heights increase with
their view ids, so no two proposals share a height; (2) every proposal is above the lock
in height and view id; (3) the next operation keeps the lock's height and view id or
raises both, and never lowers the voted height and view id; (4) if the store loads a
block by its height and hash, and the blocks that reach `set_lock_block` are linked, a
commit is the parent of a lock of non-zero height. -/
theorem run_rules_invariant (st : Store) (ops : List Op) :
    let s := empty.run st ops
    (∀ a ∈ s.proposals, ∀ b ∈ s.proposals, (s.obj a.2).block.viewid < (s.obj b.2).block.viewid →
      (s.obj a.2).block.height < (s.obj b.2).block.height) ∧
    (∀ a ∈ s.proposals, ∀ b ∈ s.proposals,
      (s.obj a.2).block.height = (s.obj b.2).block.height → a = b) ∧
    (∀ l, s.lock = some l → ∀ e ∈ s.proposals,
      l.height < (s.obj e.2).block.height ∧ l.viewid < (s.obj e.2).block.viewid) ∧
    (∀ op, Advances s (s.step st op)) ∧
    ∀ parent : UInt64 → UInt64 → String,
      (∀ h x c, st.load h x = some c → c.height = h ∧ c.blockHash = x) →
      (∀ b, st.latestLocked = some b → b.Linked parent) →
      (∀ b, Op.setLockBlock b ∈ ops → b.Linked parent) →
      ∀ c l, s.commit = some c → s.lock = some l → l.height ≠ 0 →
        l.height = c.height + 1 ∧ l.lastBlockHash = c.blockHash := by
  intro s
  have hinv : s.Inv := inv_run st ops
  refine ⟨hinv.increasing, fun a ha b hb => hinv.eq_of_height_eq ha hb, hinv.above_lock, fun op => ?_,
    fun parent hload hll hops => (commitInv_run st hload hll ops hops).commit_linked⟩
  -- (3) holds of every operation, whatever block it hands to `set_lock_block`
  have h : Relation.ReflTransGen (Change st fun _ => True) s (s.step st op) :=
    changes_step (fun _ _ => trivial) (fun _ _ => trivial) s
  exact advances_of_changes h

/-- A block at height one, the parent of `sampleLock`. -/
def sampleCommit : Block := ⟨1, 1, 0, 0, "L0", "G", "", "r0", 0, "A", true, true, true, true⟩

/-- A lock at height two whose parent is `sampleCommit`. -/
def sampleLock : Block := ⟨2, 6, 0, 0, "A", "L0", "r0", "rA", 0, "A", true, true, true, true⟩

/-- A block store that loads `sampleCommit` by its height and hash, and nothing else. -/
def parentStore : Store := ⟨none, fun h x => if h = 1 ∧ x = "L0" then some sampleCommit else none⟩

/-- The parent of a block at height two is `sampleCommit`; every other block is built
on the genesis block. -/
def sampleParent (h _ : UInt64) : String := if h = 2 then "L0" else "G"

/-- `parentStore` loads a block by its height and hash. -/
theorem parentStore_load (h : UInt64) (x : String) (c : Block) (hc : parentStore.load h x = some c) :
    c.height = h ∧ c.blockHash = x := by
  simp only [parentStore] at hc
  split_ifs at hc with hhx
  · obtain ⟨rfl, rfl⟩ := hhx
    cases hc
    exact ⟨rfl, rfl⟩

/-- A proposal of view seven on `sampleLock`. -/
def sampleProposalObj : Proposal :=
  ⟨⟨3, 7, 0, 0, "", "A", "r0", "rP", 0, "A", false, false, false, true⟩, 6, 0, .unknown, false, false,
    false, false, false⟩

/-- The lock `sampleLock` is set, and the proposal that follows loads its parent from the
store as the commit. -/
def linkedOps : List Op := [.setLockBlock sampleLock, .addProposal sampleProposalObj]

theorem run_rules_invariant_linked :
    (empty.run parentStore linkedOps).commit = some sampleCommit ∧
      (empty.run parentStore linkedOps).lock = some sampleLock ∧
      sampleLock.height = sampleCommit.height + 1 ∧ sampleLock.lastBlockHash = sampleCommit.blockHash := by
  have hc : (empty.run parentStore linkedOps).commit = some sampleCommit := by decide
  have hl : (empty.run parentStore linkedOps).lock = some sampleLock := by decide
  have hops : ∀ b, Op.setLockBlock b ∈ linkedOps → b.Linked sampleParent := by
    intro b hb
    obtain rfl : b = sampleLock := by simpa [linkedOps] using hb
    rfl
  exact ⟨hc, hl, (run_rules_invariant parentStore linkedOps).2.2.2.2 sampleParent parentStore_load
    (fun _ h => by simp [parentStore] at h) hops _ _ hc hl (by decide)⟩

/-- Without linked lock candidates clause (4) fails: the commit `L0` is set under the
lock `L1`, and `X`, of the height and view id of `L1` but with another parent, replaces
`L1` without resetting the commit. -/
theorem run_lock_replaced_unlinked :
    let L0 : Block := ⟨1, 1, 0, 0, "L0", "G", "", "r0", 0, "A", true, true, true, true⟩
    let L1 : Block := ⟨2, 6, 0, 0, "A", "L0", "r0", "rA", 0, "A", true, true, true, true⟩
    let X : Block := ⟨2, 6, 0, 0, "B", "Z", "r0", "rX", 0, "A", true, true, true, true⟩
    let s := empty.run ⟨none, fun _ _ => none⟩
      [.setLockBlock L1, .setCommitBlock (some L0), .setLockBlock X]
    s.commit = some L0 ∧ s.lock = some X ∧ X.height ≠ 0 ∧ X.lastBlockHash ≠ L0.blockHash := by
  decide

end Rules

end Bft
end TopChain

import TopChain.Bft.Equivocation

/-!
# A replica votes in increasing view ids

The votes a replica emits are in strictly increasing view id.  The voted metric alone
does not give this: the final check after the asynchronous verification does not read
it, and `set_lock_block` drops from the map the proposals that do not follow a new lock
without disabling them, so an enabled proposal that left the map is still enabled when
its verification comes back.  What refuses it then is the lock.  A proposal that no
longer follows the lock stays so (`Block.Stale`): a new lock passes the old one in
height and view id, or is a block of the same height and view id, which the block store
keeps one of (`Block.Keyed`); and the final check refuses a stale proposal.

So at most one proposal object is eligible: not disabled, not voted, not stale, and
enabled or waiting in the map.  `add_proposal` retires every other proposal of the map
when it files one, and files it only above the voted view id, which covers every vote.
The eligible object is above every vote, and the next vote is for it.

## Main definitions

* `Block.Keyed` — a block of the replica's chain and account whose hash its height and
  view id determine: what the locks handed to the driver are.
* `Block.Stale`, `Rules.Stale` — a block that can no longer follow the lock.
* `Rules.Eligible` — a proposal object the replica may still vote for.
* `Rules.Ordered` — the invariant, of the rules and the votes emitted.

## Main results

* `Rules.Ordered.lowers` — a move that backs nothing new, and drops from the map only
  proposals it leaves disabled or stale, keeps the invariant.
* `Rules.Ordered.addProposalObj`, `Driver.Ordered.voteForProposal`,
  `Rules.Ordered.markVoted` — the steps that file, enable and vote.
* `Replica.ordered_run` — the invariant over every run.
* `votes_viewid_increasing` — the votes of a run are in strictly increasing view id, each
  above the lock in place when it is emitted.
-/

namespace TopChain
namespace Bft

section Keyed

variable (chain : UInt32) (account : String) (hash : UInt64 → UInt64 → String)

/-- A block of the replica's chain and account whose hash is the one the block store
indexes under its height and view id.  The store keeps one block per height and view id
(`cache_index` refuses another hash), and the context hands down only blocks of the
store, so every lock the driver receives is keyed. -/
def Block.Keyed (b : Block) : Prop :=
  b.chainid = chain ∧ b.account = account ∧ b.blockHash = hash b.height b.viewid

end Keyed

/-- The block `b` can no longer follow the lock `l`: it is not above it in height or in
view id, or it is at the next height on another parent. -/
def Block.Stale (l b : Block) : Prop :=
  b.height ≤ l.height ∨ b.viewid ≤ l.viewid ∨ (b.height = l.height + 1 ∧ b.lastBlockHash ≠ l.blockHash)

namespace Block

theorem Stale.congr {l b b' : Block} (h : l.Stale b) (hh : b'.height = b.height) (hv : b'.viewid = b.viewid)
    (hp : b'.lastBlockHash = b.lastBlockHash) : l.Stale b' := by
  unfold Stale
  rw [hh, hv, hp]
  exact h

/-- A height one above a lower one does not wrap. -/
theorem add_one_le_of_lt {a b : UInt64} (h : a < b) : a + 1 ≤ b := by
  rw [UInt64.lt_iff_toNat_lt] at h
  have hb := UInt64.toNat_lt b
  rw [UInt64.le_iff_toNat_le, UInt64.toNat_add, UInt64.toNat_one, Nat.mod_eq_of_lt (by omega)]
  omega

/-- A block stale under a lock stays so under a lock above it in height and view id, and
under a lock of the same height, view id and hash. -/
theorem Stale.of_lockLe {l l' b : Block} (h : l.Stale b) (hle : Rules.LockLe l l')
    (hhash : l'.height = l.height → l'.blockHash = l.blockHash) : l'.Stale b := by
  rcases hle with ⟨hh, hv⟩ | ⟨hh, hv⟩
  · unfold Stale
    rw [hh, hv, hhash hh]
    exact h
  · -- the new lock is strictly above: the next height of the old one is at most its own
    rcases h with h | h | ⟨h, -⟩
    · exact .inl (UInt64.le_trans h (UInt64.le_of_lt hh))
    · exact .inr (.inl (UInt64.le_trans h (UInt64.le_of_lt hv)))
    · exact .inl (h ▸ add_one_le_of_lt hh)

/-- What `set_lock_block` drops under a new lock `l` is stale under it, for a block of the
lock's chain and account. -/
theorem stale_of_followsLock {l b : Block} (h : Rules.followsLock l b = false) (hc : b.chainid = l.chainid)
    (ha : b.account = l.account) : l.Stale b := by
  simp only [Rules.followsLock, hc, ha, bne_self_eq_false, Bool.or_false, Bool.and_eq_false_iff,
    Bool.not_eq_false', Bool.or_eq_true, decide_eq_true_eq, Bool.and_eq_true, bne_iff_ne, ne_eq] at h
  unfold Stale
  rcases h with (h | h) | ⟨h, h'⟩
  · exact .inl h
  · exact .inr (.inl h)
  · exact .inr (.inr ⟨by simpa using h, h'⟩)

end Block

namespace Rules

open Proposal

/-- A block the lock rules out. -/
def Stale (s : Rules) (b : Block) : Prop := ∃ l, s.lock = some l ∧ l.Stale b

/-- A proposal object the replica may still vote for: not disabled, not voted, not ruled
out by the lock, and enabled by `vote_for_proposal` or waiting in the map for
`on_new_block_fire`. -/
def Eligible (s : Rules) (i : ℕ) : Prop :=
  (s.obj i).allowVote ≠ .disable ∧ (s.obj i).voted = false ∧ ¬s.Stale (s.obj i).block ∧
    ((s.obj i).allowVote = .enable ∨ ∃ e ∈ s.proposals, e.2 = i)

/-- The proposal objects of `s'` keep what `g` reads of the blocks of those of `s`. -/
def Keeps {β : Type} (g : Block → β) (s s' : Rules) : Prop :=
  ∀ i < s.objs.length, g (s'.obj i).block = g (s.obj i).block

section Moves

variable {st : Store}

/-- A move keeps every field of the blocks but the two flags a verified commit sets. -/
theorem Move.keeps {lockable : Block → Prop} {β : Type} {g : Block → β}
    (hg : ∀ b : Block, g { b with authenticated := true, deliver := true } = g b) {s s' : Rules}
    (h : Move st lockable s s') : Keeps g s s' := by
  cases h with
  | change hc =>
    cases hc with
    | frame hf => exact fun i _ => by rw [hf.block]
    | newObj p => exact fun i hi => by rw [obj_newObj_of_lt s p hi]
    | installLock _ _ => exact fun _ _ => rfl
    | replaceLock _ _ _ _ => exact fun _ _ => rfl
    | loadCommit _ _ _ => exact fun _ _ => rfl
    | setCommit _ _ => exact fun _ _ => rfl
    | fileProposal _ _ _ _ => exact fun _ _ => rfl
  | updateVotedMetric b => exact fun _ _ => rfl
  | authenticate id => exact fun i _ => proj_obj_modifyObj g s id i fun p => hg p.block

variable {chain : UInt32} {account : String} {hash : UInt64 → UInt64 → String}

/-- Every lock a move installs is keyed. -/
theorem Move.keyed {s s' : Rules} (h : Move st (Block.Keyed chain account hash) s s')
    (hk : ∀ l, s.lock = some l → l.Keyed chain account hash) : ∀ l, s'.lock = some l → l.Keyed chain account hash := by
  cases h with
  | change hc =>
    cases hc with
    | frame hf => exact fun l hl => hk l (hf.lock ▸ hl)
    | installLock hb _ => exact fun l hl => Option.some.inj hl ▸ hb
    | replaceLock hb _ _ _ => exact fun l hl => Option.some.inj hl ▸ hb
    | _ => exact hk
  | _ => exact hk

/-- A block stale under the lock stays so: a new lock passes the old one, or is the
same block of the store. -/
theorem Move.stale {s s' : Rules} (h : Move st (Block.Keyed chain account hash) s s')
    (hk : ∀ l, s.lock = some l → l.Keyed chain account hash) {b : Block} (hb : s.Stale b) : s'.Stale b := by
  obtain ⟨l, hl, hlb⟩ := hb
  cases h with
  | change hc =>
    cases hc with
    | frame hf => exact ⟨l, hf.lock.trans hl, hlb⟩
    | installLock _ hsafe =>
      obtain ⟨hh, hv⟩ := lt_of_safeCheckForLockBlock hl hsafe
      exact ⟨_, rfl, hlb.of_lockLe (.inr ⟨hh, hv⟩) fun heq => absurd (heq ▸ hh) (UInt64.lt_irrefl _)⟩
    | replaceLock hb hl' hh hv =>
      -- the lock of the same height and view id is the same block of the store
      obtain rfl : l = _ := Option.some.inj (hl.symm.trans hl')
      refine ⟨_, rfl, hlb.of_lockLe (.inl ⟨hh.symm, hv.symm⟩) fun _ => ?_⟩
      rw [hb.2.2, (hk l hl).2.2, hh, hv]
    | _ => exact ⟨l, hl, hlb⟩
  | _ => exact ⟨l, hl, hlb⟩

end Moves

section Invariant

variable (chain : UInt32) (account : String) (hash : UInt64 → UInt64 → String)

/-- **The invariant of votes in increasing view ids**, of the rules and the votes
emitted.  The votes are in increasing view id, and at most one proposal object is
eligible, filed in the map and above every vote.  The other fields carry these through
the lock's changes and `add_proposal`: the lock is keyed, and the map is kept under a
lock, of proposal objects of the replica's chain and account. -/
structure Ordered (s : Rules) (votes : List Block) : Prop where
  sorted : (votes.map Block.viewid).Pairwise (· < ·)
  keyed : ∀ l, s.lock = some l → l.Keyed chain account hash
  locked : ∀ e ∈ s.proposals, ∃ l, s.lock = some l
  homed : ∀ e ∈ s.proposals,
    e.2 < s.objs.length ∧ (s.obj e.2).block.chainid = chain ∧ (s.obj e.2).block.account = account
  filed : ∀ i, s.Eligible i → ∃ e ∈ s.proposals, e.2 = i
  single : ∀ i j, s.Eligible i → s.Eligible j → i = j
  above : ∀ i, s.Eligible i → ∀ b ∈ votes, b.viewid < (s.obj i).block.viewid

end Invariant

/-- The map loses only proposals whose objects the change leaves disabled or stale. -/
def Drops (s s' : Rules) : Prop :=
  ∀ e ∈ s.proposals, e ∉ s'.proposals → (s'.obj e.2).allowVote = .disable ∨ s'.Stale (s'.obj e.2).block

theorem drops_of_eq {s s' : Rules} (h : s'.proposals = s.proposals) : Drops s s' :=
  fun _ he hne => absurd (h ▸ he) hne

section Transport

variable {st : Store} {chain : UInt32} {account : String} {hash : UInt64 → UInt64 → String}
  {votes : List Block} {s s' : Rules}

theorem not_eligible_empty (i : ℕ) : ¬empty.Eligible i := by
  rintro ⟨-, -, -, h | ⟨e, he, -⟩⟩
  · have hd : empty.obj i = default := by simp [empty, obj]
    rw [hd] at h
    exact absurd h (by decide)
  · simp [empty] at he

theorem ordered_empty : empty.Ordered chain account hash [] where
  sorted := List.Pairwise.nil
  keyed := by simp [empty]
  locked := by simp [empty]
  homed := by simp [empty]
  filed i h := absurd h (not_eligible_empty i)
  single i _ h := absurd h (not_eligible_empty i)
  above i h := absurd h (not_eligible_empty i)

/-- The invariant reads only the lock, the map and the proposal objects. -/
theorem Ordered.congr (h : s.Ordered chain account hash votes) (hl : s'.lock = s.lock)
    (hp : s'.proposals = s.proposals) (ho : s'.objs = s.objs) : s'.Ordered chain account hash votes := by
  obtain ⟨⟩ := s
  obtain ⟨⟩ := s'
  dsimp only at hl hp ho
  subst hl hp ho
  exact ⟨h.1, h.2, h.3, h.4, h.5, h.6, h.7⟩

/-- A move that backs nothing new, and drops from the map only proposals it leaves
disabled or stale, keeps the invariant: an object eligible after it was eligible before. -/
theorem Ordered.lowers (h : s.Ordered chain account hash votes) (hm : Move st (Block.Keyed chain account hash) s s')
    (hl : Lowers s s') (hd : Drops s s') : s'.Ordered chain account hash votes := by
  have hk := hm.keepsObjs
  have helig : ∀ i, s'.Eligible i → s.Eligible i ∧ i < s.objs.length := by
    rintro i ⟨hlive, hnv, hns, hwait⟩
    have hrec := hl.obj i
    have hvoted : (s.obj i).voted = false :=
      Bool.eq_false_iff.mpr fun hv => by simp [hrec.2.1 hv] at hnv
    -- an enabled object was enabled, since it is not voted; a filed one was filed
    have hwait' : (s.obj i).allowVote = .enable ∨ ∃ e ∈ s.proposals, e.2 = i := by
      rcases hwait with hen | ⟨e, he, rfl⟩
      · rcases hrec.1 (.inl hen) with hb | hb
        · exact .inl hb
        · exact absurd hb (by rw [hvoted]; decide)
      · exact .inr ⟨e, hl.proposals e he, rfl⟩
    have hi : i < s.objs.length := by
      rcases hwait' with hen | ⟨e, he, rfl⟩
      · exact lt_of_backed (.inl hen)
      · exact (h.homed e he).1
    refine ⟨⟨fun hd => hlive (hrec.2.2 hd), hvoted, fun hst => hns ?_, hwait'⟩, hi⟩
    -- a block stale before is stale after, and the object keeps its block's position
    obtain ⟨l, hl', hlb⟩ := hm.stale h.keyed hst
    exact ⟨l, hl', hlb.congr (hk.height i hi) (hk.viewid i hi) (hm.keeps (g := Block.lastBlockHash) (fun _ => rfl) i hi)⟩
  refine ⟨h.sorted, hm.keyed h.keyed, fun e he => ?_, fun e he => ?_, fun i hi => ?_,
    fun i j hi hj => h.single i j (helig i hi).1 (helig j hj).1, fun i hi => ?_⟩
  · obtain ⟨l, hl'⟩ := h.locked e (hl.proposals e he)
    obtain ⟨l', hl'', -⟩ := hm.advances.lock l hl'
    exact ⟨l', hl''⟩
  · obtain ⟨hlt, hc, ha⟩ := h.homed e (hl.proposals e he)
    exact ⟨Nat.lt_of_lt_of_le hlt hk.length, (hm.keeps (g := Block.chainid) (fun _ => rfl) e.2 hlt).trans hc,
      (hm.keeps (g := Block.account) (fun _ => rfl) e.2 hlt).trans ha⟩
  · -- the entry filed before is still there, or dropped as disabled or stale
    obtain ⟨e, he, rfl⟩ := h.filed i (helig i hi).1
    by_cases he' : e ∈ s'.proposals
    · exact ⟨e, he', rfl⟩
    · rcases hd e he he' with hdis | hst
      · exact absurd hdis hi.1
      · exact absurd hst hi.2.2.1
  · rw [hk.viewid i (helig i hi).2]
    exact h.above i (helig i hi).1

theorem Ordered.modifyObj (h : s.Ordered chain account hash votes) (i : ℕ) {f : Proposal → Proposal}
    (hf : ∀ p : Proposal, p.Recedes (f p)) (hb : ∀ p : Proposal, (f p).block = p.block) :
    (s.modifyObj i f).Ordered chain account hash votes :=
  h.lowers (.change (.frame (frame_modifyObj s i hb)) : Move ⟨none, fun _ _ => none⟩ _ _ _) (lowers_modifyObj s i hf)
    (drops_of_eq rfl)

theorem Ordered.authenticate (h : s.Ordered chain account hash votes) (i : ℕ) :
    (s.modifyObj i Proposal.authenticate).Ordered chain account hash votes :=
  h.lowers (.authenticate s i : Move ⟨none, fun _ _ => none⟩ _ _ _) (lowers_modifyObj s i fun _ => .refl _)
    (drops_of_eq rfl)

theorem Ordered.newObj (h : s.Ordered chain account hash votes) {p : Proposal} (hp : ¬p.Backed) :
    (s.newObj p).Ordered chain account hash votes :=
  h.lowers (.change (.newObj s p) : Move ⟨none, fun _ _ => none⟩ _ _ _) (lowers_newObj s hp) (drops_of_eq rfl)

/-- The proposals `set_lock_block` drops under a keyed lock are stale under it. -/
theorem drops_installLock (h : s.Ordered chain account hash votes) {b : Block} (hb : b.Keyed chain account hash) :
    Drops s (s.installLock b) := by
  intro e he hne
  have hf : followsLock b (s.obj e.2).block = false := by
    simpa [installLock, he] using hne
  obtain ⟨-, hc, ha⟩ := h.homed e he
  exact .inr ⟨b, rfl, Block.stale_of_followsLock hf (hc.trans hb.1.symm) (ha.trans hb.2.1.symm)⟩

theorem Ordered.installLock (h : s.Ordered chain account hash votes) {b : Block} (hb : b.Keyed chain account hash)
    (hsafe : s.safeCheckForLockBlock b = true) : (s.installLock b).Ordered chain account hash votes :=
  h.lowers (.change (.installLock hb hsafe) : Move ⟨none, fun _ _ => none⟩ _ _ _) (lowers_installLock s b)
    (drops_installLock h hb)

theorem Ordered.setLockBlock (h : s.Ordered chain account hash votes) {b : Block} (hb : b.Keyed chain account hash) :
    (s.setLockBlock b).1.Ordered chain account hash votes := by
  unfold Rules.setLockBlock
  rcases hl : s.lock with _ | l <;> dsimp only
  · split_ifs with hsafe
    · exact h.installLock hb hsafe
    · exact h
  · split_ifs with heq hsame hsafe
    · exact h
    · -- the lock replaced in place by a block of its height and view id
      exact h.lowers (.change (.replaceLock hb hl hsame.1 hsame.2.1) : Move ⟨none, fun _ _ => none⟩ _ _ _)
        (lowers_of_eq rfl rfl) (drops_of_eq rfl)
    · exact h.installLock hb hsafe
    · exact h

end Transport

theorem ordered_foldl {α : Type} {chain : UInt32} {account : String} {hash : UInt64 → UInt64 → String}
    {votes : List Block} {f : Rules → α → Rules}
    (hf : ∀ s a, s.Ordered chain account hash votes → (f s a).Ordered chain account hash votes) :
    ∀ (l : List α) (s : Rules), s.Ordered chain account hash votes → (l.foldl f s).Ordered chain account hash votes
  | [], _, h => h
  | a :: l, s, h => ordered_foldl hf l (f s a) (hf s a h)

/-! ### The mutators -/

section Mutators

variable {st : Store} {chain : UInt32} {account : String} {hash : UInt64 → UInt64 → String}
  {votes : List Block} {s : Rules}

theorem Ordered.getLockBlock (h : s.Ordered chain account hash votes)
    (hll : ∀ b, st.latestLocked = some b → b.Keyed chain account hash) :
    (s.getLockBlock st).1.Ordered chain account hash votes := by
  unfold Rules.getLockBlock
  rcases s.lock with _ | l
  · rcases hb : st.latestLocked with _ | b
    · exact h
    · exact h.setLockBlock (hll b hb)
  · exact h

theorem Ordered.getCommitBlock (h : s.Ordered chain account hash votes)
    (hll : ∀ b, st.latestLocked = some b → b.Keyed chain account hash) :
    (s.getCommitBlock st).1.Ordered chain account hash votes := by
  unfold Rules.getCommitBlock
  rcases s.commit with _ | c
  · have h1 := h.getLockBlock hll
    rcases hr : s.getLockBlock st with ⟨s1, _ | l⟩ <;> rw [hr] at h1 <;> dsimp only
    · exact h1
    · split_ifs
      · rcases st.load (l.height - 1) l.lastBlockHash with _ | c
        · exact h1
        · exact h1.congr rfl rfl rfl
      · exact h1
  · exact h

theorem Ordered.setCommitBlock (h : s.Ordered chain account hash votes)
    (hll : ∀ b, st.latestLocked = some b → b.Keyed chain account hash) (b : Option Block) :
    (s.setCommitBlock st b).1.Ordered chain account hash votes := by
  unfold Rules.setCommitBlock
  rcases b with _ | b
  · exact h
  · dsimp only
    split_ifs
    · exact h
    · exact h
    · have h1 := h.getLockBlock hll
      rcases hr : s.getLockBlock st with ⟨s1, _ | l⟩ <;> rw [hr] at h1 <;> dsimp only
      · exact h1
      · split_ifs
        · exact h1
        · exact h1.congr rfl rfl rfl

theorem Ordered.safeCheckFollowCommitBranch (h : s.Ordered chain account hash votes)
    (hll : ∀ b, st.latestLocked = some b → b.Keyed chain account hash) (b : Block) :
    (s.safeCheckFollowCommitBranch st b).1.Ordered chain account hash votes := by
  rw [fst_safeCheckFollowCommitBranch]
  exact h.getCommitBlock hll

theorem Ordered.safeCheckFollowLockedBranch (h : s.Ordered chain account hash votes)
    (hll : ∀ b, st.latestLocked = some b → b.Keyed chain account hash) (b : Block) :
    (s.safeCheckFollowLockedBranch st b).1.Ordered chain account hash votes := by
  rw [fst_safeCheckFollowLockedBranch]
  exact h.getLockBlock hll

theorem Ordered.safePrecheckForVoting (h : s.Ordered chain account hash votes)
    (hll : ∀ b, st.latestLocked = some b → b.Keyed chain account hash) (id : ℕ) :
    (s.safePrecheckForVoting st id).1.Ordered chain account hash votes := by
  rw [fst_safePrecheckForVoting]
  split_ifs
  · exact h
  · exact h.getLockBlock hll

theorem Ordered.safeFinalcheckForVoting (h : s.Ordered chain account hash votes)
    (hll : ∀ b, st.latestLocked = some b → b.Keyed chain account hash) (id : ℕ) :
    (s.safeFinalcheckForVoting st id).1.Ordered chain account hash votes := by
  rw [fst_safeFinalcheckForVoting]
  split_ifs
  · exact h
  · exact h.getLockBlock hll

theorem Ordered.settleProposal (h : s.Ordered chain account hash votes) (b : Block) (id : ℕ) :
    (settleProposal b s id).Ordered chain account hash votes := by
  unfold Rules.settleProposal
  dsimp only
  -- the certified mark first, then the flags set by height
  have hcert : (if (s.obj id).block.height = b.height ∧ (s.obj id).block.viewid = b.viewid ∧
      (s.obj id).block.viewtoken = b.viewtoken then s.modifyObj id Proposal.markCerted else s).Ordered
        chain account hash votes := by
    split_ifs
    · exact h.modifyObj id (fun _ => .refl _) fun _ => rfl
    · exact h
  generalize (if (s.obj id).block.height = b.height ∧ (s.obj id).block.viewid = b.viewid ∧
      (s.obj id).block.viewtoken = b.viewtoken then s.modifyObj id Proposal.markCerted else s) = s' at hcert ⊢
  split_ifs
  · exact hcert.modifyObj id recedes_disableVote fun _ => rfl
  · exact hcert
  · exact hcert.modifyObj id recedes_disableVote fun _ => rfl
  · exact hcert

theorem Ordered.onCertVerified (h : s.Ordered chain account hash votes) (certViewid : UInt64) :
    (s.onCertVerified certViewid).Ordered chain account hash votes := by
  unfold Rules.onCertVerified
  refine ordered_foldl (fun (s : Rules) (e : UInt64 × ℕ) hs => ?_) _ _ h
  split_ifs
  · exact hs.modifyObj e.2 recedes_disableVote fun _ => rfl
  · exact hs

/-- The settle pass of `add_cert_block` disables a proposal of the certificate's height
and no higher view id. -/
theorem disabled_settleProposal (b : Block) (s : Rules) {id : ℕ} (hid : id < s.objs.length)
    (hh : (s.obj id).block.height = b.height) (hv : (s.obj id).block.viewid ≤ b.viewid) :
    ((settleProposal b s id).obj id).allowVote = .disable := by
  unfold settleProposal
  dsimp only
  rw [if_pos hh, if_pos hv, obj_modifyObj_self _ _ (by split_ifs <;> simpa using hid)]
  rfl

theorem proposals_settleProposal (b : Block) (s : Rules) (id : ℕ) :
    (settleProposal b s id).proposals = s.proposals := by
  unfold settleProposal
  dsimp only
  split_ifs <;> rfl

theorem proposals_retireProposal (height : UInt64) (s : Rules) (id : ℕ) :
    (retireProposal height s id).proposals = s.proposals := by
  unfold retireProposal
  split_ifs <;> rfl

/-- A pass over the proposals of a list that changes the objects only keeps the map. -/
theorem proposals_foldl {f : Rules → ℕ → Rules} (hf : ∀ s i, (f s i).proposals = s.proposals) :
    ∀ (ps : List (UInt64 × ℕ)) (s : Rules), (ps.foldl (fun s e => f s e.2) s).proposals = s.proposals
  | [], _ => rfl
  | a :: ps, s => by rw [List.foldl_cons, proposals_foldl hf ps, hf]

/-- A pass over the proposals of a list that disables each whose block `p` holds of, and
otherwise only lowers the flags, leaves each of them disabled. -/
theorem disabled_foldl {f : Rules → ℕ → Rules} {p : Block → Prop} (hf : ∀ s i, Frame s (f s i))
    (hl : ∀ s i, Lowers s (f s i))
    (hdis : ∀ s i, i < s.objs.length → p (s.obj i).block → ((f s i).obj i).allowVote = .disable) :
    ∀ (ps : List (UInt64 × ℕ)) (s : Rules), (∀ e ∈ ps, e.2 < s.objs.length) → ∀ e ∈ ps,
      p ((ps.foldl (fun s e => f s e.2) s).obj e.2).block →
      ((ps.foldl (fun s e => f s e.2) s).obj e.2).allowVote = .disable
  | [], _, _, _, he => absurd he List.not_mem_nil
  | a :: ps, s, hlt, e, he => by
    -- the rest of the pass keeps the blocks, and a disabled proposal disabled
    have hfr := frame_foldl (fun s' e => hf s' e.2) ps (f s a.2)
    have hlo := lowers_foldl (fun s' e => hl s' e.2) ps (f s a.2)
    rw [List.foldl_cons]
    by_cases hps : e ∈ ps
    · exact disabled_foldl hf hl hdis ps _
        (fun x hx => (hf s a.2).length ▸ hlt x (List.mem_cons_of_mem a hx)) e hps
    · obtain rfl : e = a := (List.mem_cons.mp he).resolve_right hps
      intro hp
      rw [hfr.block, (hf s e.2).block] at hp
      exact (hlo.obj e.2).2.2 (hdis s e.2 (hlt e List.mem_cons_self) hp)

/-- The last step of `add_cert_block`: the proposals the certificate passes, which its
settle pass disabled, are dropped from the map. -/
theorem Ordered.dropPassed (h : s.Ordered chain account hash votes) (b : Block)
    (hdis : ∀ e ∈ s.proposals, (s.obj e.2).block.height = b.height → (s.obj e.2).block.viewid ≤ b.viewid →
      (s.obj e.2).allowVote = .disable) :
    ({ s with proposals := s.proposals.filter fun e =>
        !((s.obj e.2).block.height == b.height && (s.obj e.2).block.viewid ≤ b.viewid) } : Rules).Ordered
      chain account hash votes := by
  refine h.lowers (.change (.frame (frame_filterProposals s _)) : Move ⟨none, fun _ _ => none⟩ _ _ _)
    (lowers_filterProposals s _) fun e he hne => .inl ?_
  have hq : ((s.obj e.2).block.height == b.height && (s.obj e.2).block.viewid ≤ b.viewid) = true := by
    simpa [he] using hne
  simp only [Bool.and_eq_true, beq_iff_eq, decide_eq_true_eq] at hq
  exact hdis e he hq.1 hq.2

theorem Ordered.addCertBlock (h : s.Ordered chain account hash votes)
    (hll : ∀ b, st.latestLocked = some b → b.Keyed chain account hash) (b : Block) :
    (s.addCertBlock st b).1.Ordered chain account hash votes := by
  unfold Rules.addCertBlock
  have h1 := h.safeCheckFollowCommitBranch hll b
  rcases hr1 : s.safeCheckFollowCommitBranch st b with ⟨s1, r1⟩
  rw [hr1] at h1
  dsimp only
  have h2 := h1.safeCheckFollowLockedBranch hll b
  rcases hr2 : s1.safeCheckFollowLockedBranch st b with ⟨s2, r2⟩
  rw [hr2] at h2
  dsimp only
  split_ifs
  · exact h1
  · exact h2
  · exact h2
  -- the certificate is stored, the proposals settled, and those it passes dropped
  all_goals
    refine Ordered.dropPassed ?_ b fun e he hh hv =>
      disabled_foldl (p := fun q => q.height = b.height ∧ q.viewid ≤ b.viewid) (frame_settleProposal b)
        (lowers_settleProposal b) (fun s i hi hq => disabled_settleProposal b s hi hq.1 hq.2) s2.proposals _ ?_ e ?_ ⟨hh, hv⟩
    · exact ordered_foldl (fun s' e hs => hs.settleProposal b e.2) _ _ (h2.congr rfl rfl rfl)
    · exact fun x hx => (h2.homed x hx).1
    · rwa [proposals_foldl (proposals_settleProposal b)] at he

theorem Ordered.isProposalExpire (h : s.Ordered chain account hash votes)
    (hll : ∀ b, st.latestLocked = some b → b.Keyed chain account hash) (id : ℕ) :
    (s.isProposalExpire st id).1.Ordered chain account hash votes := by
  rw [fst_isProposalExpire]
  exact (h.getCommitBlock hll).getLockBlock hll

theorem Ordered.expireProposals (h : s.Ordered chain account hash votes)
    (hll : ∀ b, st.latestLocked = some b → b.Keyed chain account hash) :
    (s.expireProposals st).Ordered chain account hash votes := by
  unfold Rules.expireProposals
  refine ordered_foldl (fun (s : Rules) (e : UInt64 × ℕ) hs => ?_) _ _ h
  dsimp only
  -- the expiry check reads the lock and the commit, then the flags are set
  have h1 := hs.isProposalExpire hll e.2
  split_ifs
  · exact h1.modifyObj e.2 (fun p => recedes_disableVote p.markExpired) fun _ => rfl
  · exact h1
  · exact hs

theorem Ordered.mergeCert (h : s.Ordered chain account hash votes) (id : ℕ) (c : CommitCert) :
    (s.mergeCert id c).Ordered chain account hash votes := by
  unfold Rules.mergeCert
  split_ifs
  · exact h.authenticate id
  · exact h

theorem Ordered.retireProposal (h : s.Ordered chain account hash votes) (height : UInt64) (id : ℕ) :
    (retireProposal height s id).Ordered chain account hash votes := by
  unfold Rules.retireProposal
  split_ifs
  · exact h.modifyObj id recedes_disableVote fun _ => rfl
  · exact h.modifyObj id recedes_disableVote fun _ => rfl

theorem disabled_retireProposal (height : UInt64) (s : Rules) {id : ℕ} (hid : id < s.objs.length) :
    ((retireProposal height s id).obj id).allowVote = .disable := by
  unfold retireProposal
  split_ifs <;> rw [obj_modifyObj_self _ _ hid] <;> rfl

/-- Filing a proposal object of the replica's chain and account, above every vote, into a
map whose proposals are all disabled makes it the one eligible object. -/
theorem Ordered.fileProposal (h : s.Ordered chain account hash votes) {id : ℕ} (hid : id < s.objs.length)
    (hhome : (s.obj id).block.chainid = chain ∧ (s.obj id).block.account = account)
    (habove : ∀ b ∈ votes, b.viewid < (s.obj id).block.viewid) (hlock : ∃ l, s.lock = some l)
    (hretired : ∀ e ∈ s.proposals, (s.obj e.2).allowVote = .disable) (q : UInt64 × ℕ → Bool) (key : UInt64) :
    ({ s with proposals := upsert (fun _ => id) (s.proposals.filter q) key } : Rules).Ordered
      chain account hash votes := by
  -- an eligible object is the new one: an enabled one was eligible, so filed, so retired
  have hone : ∀ i, Eligible { s with proposals := upsert (fun _ => id) (s.proposals.filter q) key } i → i = id := by
    rintro i ⟨hlive, hnv, hns, hen | ⟨e, he, rfl⟩⟩
    · obtain ⟨e, he, rfl⟩ := h.filed i ⟨hlive, hnv, hns, .inl hen⟩
      exact absurd (hretired e he) hlive
    · rcases mem_upsert_const he with he | rfl
      · exact absurd (hretired e (List.mem_filter.mp he).1) hlive
      · rfl
  refine ⟨h.sorted, h.keyed, fun _ _ => hlock, fun e he => ?_, fun i hi => ?_, fun i j hi hj => ?_,
    fun i hi => ?_⟩
  · rcases mem_upsert_const he with he | rfl
    · exact h.homed e (List.mem_filter.mp he).1
    · exact ⟨hid, hhome⟩
  · rw [hone i hi]
    exact ⟨(key, id), mem_of_lookup_eq_some (lookup_upsert_const id key _), rfl⟩
  · rw [hone i hi, hone j hj]
  · rw [hone i hi]
    exact habove

/-- `add_proposal` of a proposal object of the replica's chain and account, above every
vote, keeps the invariant, and files the object if it accepts it. -/
theorem Ordered.addProposalObj (h : s.Ordered chain account hash votes)
    (hll : ∀ b, st.latestLocked = some b → b.Keyed chain account hash) {id : ℕ} (hid : id < s.objs.length)
    (hhome : (s.obj id).block.chainid = chain ∧ (s.obj id).block.account = account)
    (habove : ∀ b ∈ votes, b.viewid < (s.obj id).block.viewid) :
    (s.addProposalObj st id).1.Ordered chain account hash votes ∧
      ((s.addProposalObj st id).2 = true → ∃ e ∈ (s.addProposalObj st id).1.proposals, e.2 = id) := by
  have hobjs := objs_getLockBlock st s
  have hsnd := getLockBlock_snd st s
  have h1 := h.getLockBlock hll
  unfold Rules.addProposalObj
  rcases hr1 : s.getLockBlock st with ⟨s1, _ | l⟩ <;> rw [hr1] at hobjs hsnd h1 <;> dsimp only at hobjs hsnd h1 ⊢
  · exact ⟨h1, by simp⟩
  · -- under the lock `l` the branch checks at most load the commit
    have hs1 : s1.lock = some l := hsnd.symm
    obtain ⟨c, hc⟩ := getCommitBlock_of_lock st hs1
    have hs2 : (s1.safeCheckFollowCommitBranch st (s.obj id).block).1 = { s1 with commit := c } := by
      rw [fst_safeCheckFollowCommitBranch, hc]
    have h2 : Ordered chain account hash { s1 with commit := c } votes := h1.congr rfl rfl rfl
    rw [hs2, safeCheckFollowLockedBranch_of_lock (s := { s1 with commit := c }) _ hs1]
    dsimp only
    split_ifs
    · exact ⟨h1, by simp⟩
    · exact ⟨h1, by simp⟩
    · exact ⟨h1, by simp⟩
    · exact ⟨h2, by simp⟩
    · exact ⟨h2, by simp⟩
    · -- accepted: every proposal of the map is retired, and `id` filed
      have hf := frame_foldl (fun s' e => frame_retireProposal (s.obj id).block.height s' e.2)
        s1.proposals { s1 with commit := c }
      have hobj : ∀ j, (s1.obj j) = s.obj j := fun j => by rw [obj, obj, hobjs]
      have h4 := ordered_foldl (fun s' e hs => hs.retireProposal (s.obj id).block.height e.2) s1.proposals _ h2
      have hlen : id < (s1.proposals.foldl (fun s' e => Rules.retireProposal (s.obj id).block.height s' e.2)
          { s1 with commit := c }).objs.length := by
        rw [hf.length]
        exact hobjs ▸ hid
      have hb : ((s1.proposals.foldl (fun s' e => Rules.retireProposal (s.obj id).block.height s' e.2)
          { s1 with commit := c }).obj id).block = (s.obj id).block := by
        rw [hf.block]
        exact congrArg Proposal.block (hobj id)
      refine ⟨(h4.fileProposal hlen (by rw [hb]; exact hhome) (by rw [hb]; exact habove) ⟨l, hf.lock.trans hs1⟩
        ?_ _ _).congr rfl rfl rfl,
        fun _ => ⟨((s.obj id).block.viewid, id), mem_of_lookup_eq_some (lookup_upsert_const id _ _), rfl⟩⟩
      intro e he
      rw [proposals_foldl (proposals_retireProposal _)] at he
      exact disabled_foldl (p := fun _ => True) (frame_retireProposal _) (lowers_retireProposal _)
        (fun s i hi _ => disabled_retireProposal _ s hi) s1.proposals _ (fun x hx => (h2.homed x hx).1) e he trivial

end Mutators

/-! ### The vote -/

section Vote

variable {st : Store} {chain : UInt32} {account : String} {hash : UInt64 → UInt64 → String}
  {votes : List Block} {s : Rules}

/-- A block at the next height of `r` on another parent forks from it. -/
theorem followBranch_of_next {r b : Block} (hh : b.height = r.height + 1) (hne : b.lastBlockHash ≠ r.blockHash) :
    followBranch r b = -1 := by
  have h1 : b.height ≠ r.height - 1 := by grind
  have h2 : b.height ≠ r.height := by grind
  rw [followBranch, if_neg h1, if_neg h2, if_pos hh, if_pos hne]

/-- A proposal that passes `safe_finalcheck_for_voting` is not stale under the lock the
check leaves in place: it is above it, and on its branch. -/
theorem not_stale_of_safeFinalcheckForVoting {id : ℕ} (h : (s.safeFinalcheckForVoting st id).2 = true) :
    ¬(s.safeFinalcheckForVoting st id).1.Stale (s.obj id).block := by
  have hsnd := getLockBlock_snd st s
  unfold safeFinalcheckForVoting at h ⊢
  rcases hl : s.getLockBlock st with ⟨s1, _ | l⟩ <;> rw [hl] at h hsnd <;> dsimp only at h hsnd ⊢
  · split_ifs at h
  · rw [safeCheckFollowLockedBranch_of_lock _ hsnd.symm] at h ⊢
    dsimp only at h ⊢
    split_ifs at h ⊢ with h0 hlt hbehind hr <;>
    · rintro ⟨l', hl', hst⟩
      obtain rfl : l' = l := Option.some.inj (hl'.symm.trans hsnd.symm)
      rcases hst with hh | hv | ⟨hh, hne⟩
      · exact hlt (.inl hh)
      · exact hlt (.inr hv)
      · rw [followBranch_of_next hh hne] at hr
        exact absurd hr (by decide)

/-- A change of the flags that keeps the map, and after which every eligible object was
eligible before, keeps the invariant. -/
theorem Ordered.of_eligible {s' : Rules} (h : s.Ordered chain account hash votes) (hl : s'.lock = s.lock)
    (hlen : s'.objs.length = s.objs.length) (hb : ∀ i, (s'.obj i).block = (s.obj i).block)
    (hp : s'.proposals = s.proposals) (he : ∀ i, s'.Eligible i → s.Eligible i) :
    s'.Ordered chain account hash votes := by
  refine ⟨h.sorted, fun l hl' => h.keyed l (hl ▸ hl'), fun e he' => hl ▸ h.locked e (hp ▸ he'),
    fun e he' => ?_, fun i hi => hp ▸ h.filed i (he i hi), fun i j hi hj => h.single i j (he i hi) (he j hj),
    fun i hi => hb i ▸ h.above i (he i hi)⟩
  rw [hlen, hb]
  exact h.homed e (hp ▸ he')

theorem Eligible.lt {s : Rules} {i : ℕ} (h : s.Eligible i) (hs : ∀ e ∈ s.proposals, e.2 < s.objs.length) :
    i < s.objs.length := by
  rcases h.2.2.2 with hen | ⟨e, he, rfl⟩
  · exact lt_of_backed (.inl hen)
  · exact hs e he

/-- Marking an eligible object voted and emitting its vote keeps the invariant: it was
above every vote, and no object is eligible after it. -/
theorem Ordered.markVoted (h : s.Ordered chain account hash votes) {id : ℕ} (he : s.Eligible id) :
    (s.modifyObj id fun p => { p with voted := true }).Ordered chain account hash
      (votes ++ [((s.modifyObj id fun p => { p with voted := true }).obj id).block]) := by
  have hid := he.lt fun e he => (h.homed e he).1
  have hf := frame_modifyObj s id (f := fun p => { p with voted := true }) fun _ => rfl
  -- the object voted is no longer eligible, and the others are as they were
  have helig : ∀ j, (s.modifyObj id fun p => { p with voted := true }).Eligible j → s.Eligible j ∧ j ≠ id := by
    intro j hj
    by_cases hji : j = id
    · subst hji
      have hv := hj.2.1
      rw [obj_modifyObj_self s _ hid] at hv
      exact Bool.noConfusion hv
    · have hobj := obj_modifyObj_of_ne s (fun p => { p with voted := true }) hji
      refine ⟨?_, hji⟩
      obtain ⟨hlive, hnv, hns, hwait⟩ := hj
      rw [hobj] at hlive hnv hns hwait
      exact ⟨hlive, hnv, hns, hwait⟩
  have hord := h.of_eligible hf.lock hf.length hf.block rfl fun j hj => (helig j hj).1
  refine ⟨?_, hord.keyed, hord.locked, hord.homed, hord.filed, hord.single, fun j hj => ?_⟩
  · rw [List.map_append, List.pairwise_append]
    refine ⟨h.sorted, List.pairwise_singleton _ _, fun x hx y hy => ?_⟩
    obtain ⟨b, hb, rfl⟩ := List.mem_map.mp hx
    rw [List.map_singleton, List.mem_singleton, hf.block] at hy
    exact hy ▸ h.above id he b hb
  · -- an object eligible after the vote would be a second eligible object
    exact absurd (h.single j id (helig j hj).1 he) (helig j hj).2

end Vote

end Rules

namespace Driver

open Rules Proposal

/-- The invariant of votes in increasing view ids, of a replica. -/
def Ordered (chain : UInt32) (account : String) (hash : UInt64 → UInt64 → String) (d : Driver) : Prop :=
  d.rules.Ordered chain account hash d.votes

section Steps

variable {st : Store} {chain : UInt32} {account : String} {hash : UInt64 → UInt64 → String}

/-- With a lock in place `sync_for_proposal` at most loads the commit. -/
theorem syncForProposal_of_lock (st : Store) {s : Rules} {l : Block} (h : s.lock = some l) (id : ℕ) :
    ∃ c, (syncForProposal st s id).1 = { s with commit := c } := by
  have hc : ∃ c, (syncCommit st s l).1 = { s with commit := c } := by
    unfold syncCommit
    split_ifs
    · obtain ⟨c, hc⟩ := getCommitBlock_of_lock st h
      rcases hr : s.getCommitBlock st with ⟨s1, c1⟩
      rw [hr] at hc
      dsimp only at hc ⊢
      split_ifs <;> exact ⟨c, hc⟩
    · exact ⟨s.commit, rfl⟩
  unfold syncForProposal
  rw [getLockBlock_of_lock h]
  dsimp only
  -- every branch stops at the lock read, or goes on to the commit
  split_ifs
  · split
    · split <;> exact ⟨s.commit, rfl⟩
    · split_ifs
      · exact ⟨s.commit, rfl⟩
      · exact hc
  · exact hc

theorem ordered_syncCommit {s : Rules} {votes : List Block} (h : s.Ordered chain account hash votes)
    (hll : ∀ b, st.latestLocked = some b → b.Keyed chain account hash) (l : Block) :
    (syncCommit st s l).1.Ordered chain account hash votes := by
  unfold syncCommit
  split_ifs
  · have h1 := h.getCommitBlock hll
    rcases hr : s.getCommitBlock st with ⟨s1, c⟩
    rw [hr] at h1
    dsimp only
    split_ifs <;> exact h1
  · exact h

theorem ordered_syncForProposal {s : Rules} {votes : List Block} (h : s.Ordered chain account hash votes)
    (hll : ∀ b, st.latestLocked = some b → b.Keyed chain account hash) (id : ℕ) :
    (syncForProposal st s id).1.Ordered chain account hash votes := by
  unfold syncForProposal
  have h1 := h.getLockBlock hll
  rcases hr : s.getLockBlock st with ⟨s1, _ | l⟩ <;> rw [hr] at h1 <;> dsimp only
  · exact h1
  · have h2 := ordered_syncCommit h1 hll l
    split_ifs
    · split
      · split <;> exact h1
      · split_ifs
        · exact h1
        · exact h2
    · exact h2

theorem lock_voteForProposal (d : Driver) (id : ℕ) : (d.voteForProposal id).rules.lock = d.rules.lock := by
  unfold voteForProposal
  dsimp only
  split_ifs <;> rfl

/-- `vote_for_proposal` of a proposal object filed in the map keeps the invariant: the
object it enables was eligible already. -/
theorem Ordered.voteForProposal {d : Driver} {id : ℕ} (h : d.Ordered chain account hash)
    (hid : ∃ e ∈ d.rules.proposals, e.2 = id) : (d.voteForProposal id).Ordered chain account hash := by
  unfold Driver.voteForProposal
  dsimp only
  split_ifs with hc
  · exact h
  · -- the object enabled is not disabled and not voted
    have hd : (d.rules.obj id).allowVote ≠ .disable := fun hd => hc (by simp [isVoteDisable, hd])
    have hv : (d.rules.obj id).voted = false := Bool.eq_false_iff.mpr fun hv => hc (by simp [hv])
    have hb (j : ℕ) : (((d.rules.modifyObj id fun p => { p with allowVote := .enable }).updateVotedMetric
        (d.rules.obj id).block).obj j).block = (d.rules.obj j).block :=
      block_obj_modifyObj d.rules id j (f := fun p => { p with allowVote := .enable }) fun _ => rfl
    have key : Rules.Ordered chain account hash ((d.rules.modifyObj id fun p => { p with allowVote := .enable }).updateVotedMetric
        (d.rules.obj id).block) d.votes := by
      refine Rules.Ordered.of_eligible h rfl (length_modifyObj d.rules id (fun p => { p with allowVote := .enable })) hb rfl
        fun j hj => ?_
      by_cases hji : j = id
      · subst hji
        exact ⟨hd, hv, fun hst => hj.2.2.1 (by rw [hb j]; exact hst), .inr hid⟩
      · have hobj : (((d.rules.modifyObj id fun p => { p with allowVote := .enable }).updateVotedMetric
            (d.rules.obj id).block).obj j) = d.rules.obj j :=
          obj_modifyObj_of_ne d.rules (fun p => { p with allowVote := .enable }) hji
        obtain ⟨hlive, hnv, hns, hwait⟩ := hj
        rw [hobj] at hlive hnv hns hwait
        exact ⟨hlive, hnv, hns, hwait⟩
    exact key

/-! #### `handle_proposal_msg` -/

/-- The proposal object `id` after `handle_proposal_msg` checked it, under a lock, and,
if the check passed (`ok`), filed it. -/
structure Admitted (chain : UInt32) (account : String) (hash : UInt64 → UInt64 → String) (votes : List Block)
    (id : ℕ) (s : Rules) (ok : Bool) : Prop where
  ordered : s.Ordered chain account hash votes
  lock : ∃ l, s.lock = some l
  filed : ok = true → ∃ e ∈ s.proposals, e.2 = id

/-- The end of `handle_proposal_msg`: a refused proposal object is disabled, the object
is synced, which keeps the map under the lock, and an accepted one may be voted for. -/
theorem ordered_handleProposalTail {d : Driver} {s : Rules} {ok : Bool} {id : ℕ} (c : Bool)
    (hll : ∀ b, st.latestLocked = some b → b.Keyed chain account hash)
    (h : Admitted chain account hash d.votes id s ok) :
    Ordered chain account hash
      (if (syncForProposal st (if ok = true then s else s.modifyObj id Proposal.disableVote) id).2 =
        .successful ∧ (ok && c) = true then
      ({ d with rules := (syncForProposal st (if ok = true then s else s.modifyObj id Proposal.disableVote) id).1 } :
        Driver).voteForProposal id
      else { d with rules := (syncForProposal st (if ok = true then s else s.modifyObj id Proposal.disableVote) id).1 }) := by
  have h1 : Admitted chain account hash d.votes id (if ok = true then s else s.modifyObj id Proposal.disableVote) ok := by
    split_ifs with hok
    · exact h
    · exact ⟨h.ordered.modifyObj id recedes_disableVote fun _ => rfl, h.lock, fun h => absurd h hok⟩
  generalize (if ok = true then s else s.modifyObj id Proposal.disableVote) = s' at h1 ⊢
  obtain ⟨l, hl⟩ := h1.lock
  obtain ⟨c', hc'⟩ := syncForProposal_of_lock st hl id
  have hs := ordered_syncForProposal h1.ordered hll id
  split_ifs with hc
  · refine Ordered.voteForProposal (d := { d with rules := (syncForProposal st s' id).1 }) hs ?_
    show ∃ e ∈ (syncForProposal st s' id).1.proposals, e.2 = id
    rw [hc']
    exact h1.filed (Bool.and_eq_true_iff.mp hc.2).1
  · exact hs

theorem ordered_handleProposalMsg {d : Driver} (h : d.Ordered chain account hash) (hm : d.Metered)
    (hll : ∀ b, st.latestLocked = some b → b.Keyed chain account hash) (b : Block) (lc cc : UInt64)
    (packetOk : Bool) (cookie : UInt64) : (d.handleProposalMsg st b lc cc packetOk cookie).Ordered chain account hash := by
  have htriv : ∀ b, st.latestLocked = some b → True := fun _ _ => trivial
  unfold handleProposalMsg
  have ha1 := advances_of_moves (moves_of_changes (changes_getLockBlock htriv d.rules))
  have h1 := Rules.Ordered.getLockBlock h hll
  have hsnd := getLockBlock_snd st d.rules
  rcases hr : d.rules.getLockBlock st with ⟨s1, _ | l⟩ <;> rw [hr] at ha1 h1 hsnd <;> dsimp only
  · exact h1
  · split
    · exact h1
    rename_i hchk
    split
    · exact h1
    -- the new object is of the lock's chain and account, and not backed
    have hs1 : s1.lock = some l := hsnd.symm
    have hnew := h1.newObj (not_backed_proposalOfMsg b lc cc)
    split
    · exact ordered_handleProposalTail _ hll ⟨hnew, ⟨l, hs1⟩, fun h => absurd h Bool.false_ne_true⟩
    have hpm := moves_safePrecheckForVoting htriv (s1.newObj (proposalOfMsg b lc cc)) s1.objs.length
    obtain ⟨lp, hlp, -⟩ := (advances_of_moves hpm).lock l hs1
    have hpre := hnew.safePrecheckForVoting hll s1.objs.length
    split
    · exact ordered_handleProposalTail _ hll ⟨hpre, ⟨lp, hlp⟩, fun h => absurd h Bool.false_ne_true⟩
    · rename_i hpass
      have hpass : ((s1.newObj (proposalOfMsg b lc cc)).safePrecheckForVoting st s1.objs.length).2 = true := by
        simpa using hpass
      -- the object passed the precheck: above the voted metric, which covers every vote
      have hobj : ((s1.newObj (proposalOfMsg b lc cc)).safePrecheckForVoting st s1.objs.length).1.obj s1.objs.length =
          proposalOfMsg b lc cc := by
        rw [obj, objs_safePrecheckForVoting, ← obj, obj_newObj_self]
      have hlen : s1.objs.length <
          ((s1.newObj (proposalOfMsg b lc cc)).safePrecheckForVoting st s1.objs.length).1.objs.length := by
        rw [objs_safePrecheckForVoting]
        simp [Rules.newObj]
      have hhome : (proposalOfMsg b lc cc).block.chainid = chain ∧ (proposalOfMsg b lc cc).block.account = account := by
        simp only [not_or, Bool.not_eq_true', ne_eq, Decidable.not_not] at hchk
        obtain ⟨hkc, hka, -⟩ := h1.keyed l hs1
        exact ⟨hchk.1.trans hkc, hchk.2.1.trans hka⟩
      have habove : ∀ v ∈ d.votes, v.viewid < (proposalOfMsg b lc cc).block.viewid := by
        intro v hv
        have hlt := (above_of_safePrecheckForVoting hpass).1
        rw [obj_newObj_self] at hlt
        exact UInt64.lt_of_le_of_lt (UInt64.le_trans (hm.votes v hv).2 ha1.votedViewid) hlt
      obtain ⟨hadd, hfiled⟩ := hpre.addProposalObj hll hlen (by rw [hobj]; exact hhome) (by rw [hobj]; exact habove)
      have hadv := advances_of_moves (moves_of_changes (changes_addProposalObj htriv _ hlen))
      obtain ⟨la, hla, -⟩ := hadv.lock lp hlp
      exact ordered_handleProposalTail _ hll ⟨hadd, ⟨la, hla⟩, hfiled⟩

/-! #### `on_new_block_fire` -/

/-- `on_new_block_fire` on its way through the proposals of the map of `s0`: the
invariant holds, and the map and the lock are those of `s0`. -/
structure Firing (chain : UInt32) (account : String) (hash : UInt64 → UInt64 → String) (s0 : Rules)
    (d : Driver) : Prop where
  ordered : d.Ordered chain account hash
  proposals : d.rules.proposals = s0.proposals
  lock : d.rules.lock = s0.lock

theorem ordered_onNewBlockFire {d : Driver} (h : d.Ordered chain account hash)
    (hll : ∀ b, st.latestLocked = some b → b.Keyed chain account hash) (b : Block) :
    (d.onNewBlockFire st b).Ordered chain account hash := by
  unfold onNewBlockFire
  -- an empty map is passed at once; a map with a proposal has a lock
  rcases hp : d.rules.proposals with _ | ⟨e0, ps⟩
  · exact h
  obtain ⟨l, hl⟩ := h.locked e0 (by rw [hp]; exact List.mem_cons_self)
  refine (foldl_of_step (P := fun ps d' => Firing chain account hash d.rules d' ∧ ∀ e ∈ ps, e ∈ d.rules.proposals)
    (fun e ps d' hd' => ?_) _ _ ⟨⟨h, rfl, rfl⟩, fun e he => by rw [hp]; exact he⟩).1.ordered
  obtain ⟨⟨hord, hprop, hlock⟩, hmem⟩ := hd'
  refine ⟨?_, fun x hx => hmem x (List.mem_cons_of_mem e hx)⟩
  dsimp only
  split
  · -- synced under the lock, which keeps the map, then enabled as a proposal of the map
    obtain ⟨c, hc⟩ := syncForProposal_of_lock st (hlock.trans hl) e.2
    have hf : Firing chain account hash d.rules { d' with rules := (syncForProposal st d'.rules e.2).1 } :=
      ⟨ordered_syncForProposal hord hll e.2, by rw [hc]; exact hprop, by rw [hc]; exact hlock⟩
    split
    · refine ⟨hf.ordered.voteForProposal ⟨e, ?_, rfl⟩, ?_, ?_⟩
      · rw [hf.proposals]
        exact hmem e List.mem_cons_self
      · rw [proposals_voteForProposal]
        exact hf.proposals
      · rw [lock_voteForProposal]
        exact hf.lock
    · exact hf
  · exact ⟨hord, hprop, hlock⟩

/-! #### The callback of a verification -/

theorem ordered_verifyCallback {d : Driver} (h : d.Ordered chain account hash)
    (hll : ∀ b, st.latestLocked = some b → b.Keyed chain account hash) (id : ℕ)
    (verifyOk certAuthenticated : Bool) : (d.verifyCallback st id verifyOk certAuthenticated).Ordered chain account hash := by
  have h1 := Rules.Ordered.safeFinalcheckForVoting h hll id
  -- a proposal that passed the final check is eligible
  have helig (hfin : (d.rules.safeFinalcheckForVoting st id).2 = true) :
      (d.rules.safeFinalcheckForVoting st id).1.Eligible id := by
    obtain ⟨hen, hnv⟩ := enabled_of_safeFinalcheckForVoting hfin
    have hns := not_stale_of_safeFinalcheckForVoting hfin
    rw [← obj_safeFinalcheckForVoting st d.rules id id] at hen hnv hns
    exact ⟨by rw [hen]; decide, hnv, hns, .inl hen⟩
  unfold verifyCallback
  dsimp only
  split_ifs with hmem hok hfin hca
  · -- the vote is emitted, then proposals under an older parent certificate disabled
    exact (h1.markVoted (helig hfin)).onCertVerified _
  · exact h1.markVoted (helig hfin)
  · exact h1.modifyObj id recedes_disableVote fun _ => rfl
  · exact Rules.Ordered.modifyObj h id recedes_disableVote fun _ => rfl
  · exact h

/-! #### Every event -/

theorem ordered_onConsensusUpdate {d : Driver} (h : d.Ordered chain account hash)
    (hll : ∀ b, st.latestLocked = some b → b.Keyed chain account hash) (lock commit : Option Block)
    (hev : ∀ b, lock = some b → b.Keyed chain account hash) :
    (d.onConsensusUpdate st lock commit).Ordered chain account hash := by
  unfold onConsensusUpdate
  rcases lock with _ | l
  · exact Rules.Ordered.setCommitBlock h hll commit
  · exact (Rules.Ordered.setLockBlock h (hev l rfl)).setCommitBlock hll commit

theorem ordered_onProposalStart {d : Driver} (h : d.Ordered chain account hash)
    (hll : ∀ b, st.latestLocked = some b → b.Keyed chain account hash) (lock commit cert : Option Block)
    (hev : ∀ b, lock.or commit = some b → b.Keyed chain account hash) :
    (d.onProposalStart st lock commit cert).Ordered chain account hash := by
  unfold onProposalStart
  rcases hlc : lock.or commit with _ | l <;> rcases cert with _ | c <;> dsimp only
  · exact Rules.Ordered.setCommitBlock h hll commit
  · exact (Rules.Ordered.setCommitBlock h hll commit).addCertBlock hll c
  · exact (Rules.Ordered.setLockBlock h (hev l hlc)).setCommitBlock hll commit
  · exact ((Rules.Ordered.setLockBlock h (hev l hlc)).setCommitBlock hll commit).addCertBlock hll c

theorem ordered_step {d : Driver} (h : d.Ordered chain account hash) (hm : d.Metered)
    (hll : ∀ b, st.latestLocked = some b → b.Keyed chain account hash) (ev : Event)
    (hev : ∀ b, ev.lockArg = some b → b.Keyed chain account hash) : (d.step st ev).Ordered chain account hash := by
  cases ev with
  | consensusUpdate lock commit => exact ordered_onConsensusUpdate h hll lock commit hev
  | proposalMsg b lastCert clock packetOk cookie =>
    exact ordered_handleProposalMsg h hm hll b lastCert clock packetOk cookie
  | verifyJob id sigOk verifyOk =>
    unfold Ordered
    rw [step, rules_verifyJob, votes_verifyJob]
    exact h
  | verifyCallback id verifyOk certAuth => exact ordered_verifyCallback h hll id verifyOk certAuth
  | newBlockFire b => exact ordered_onNewBlockFire h hll b
  | clockFire clock => exact Rules.Ordered.expireProposals (Rules.Ordered.congr h rfl rfl rfl) hll
  | viewFire viewid => exact Rules.Ordered.expireProposals (Rules.Ordered.congr h rfl rfl rfl) hll
  | proposalStart lock commit cert => exact ordered_onProposalStart h hll lock commit cert hev

end Steps

end Driver

namespace Replica

open Rules Proposal

section Steps

variable {st : Store} {chain : UInt32} {account : String} {hash : UInt64 → UInt64 → String}

theorem ordered_handleCommitMsg {r : Replica} (h : r.driver.Ordered chain account hash)
    (hll : ∀ b, st.latestLocked = some b → b.Keyed chain account hash) (m : CommitMsg)
    (packetOk ready fromLeader : Bool) :
    (r.handleCommitMsg st m packetOk ready fromLeader).1.driver.Ordered chain account hash := by
  rcases driver_handleCommitMsg st r m packetOk ready fromLeader with h' | ⟨id, h'⟩ | h' <;> rw [h']
  · exact h
  · exact Rules.Ordered.modifyObj h id recedes_disableVote fun _ => rfl
  · exact Rules.Ordered.getLockBlock h hll

/-- The callback of a verified commit authenticates the block, adds it as a certificate
and looks again at the proposals above it. -/
theorem ordered_afterVerifyCommitJob {r : Replica} (h : r.driver.Ordered chain account hash)
    (hll : ∀ b, st.latestLocked = some b → b.Keyed chain account hash) (id : ℕ) (c : CommitCert) :
    (r.afterVerifyCommitJob st id c).driver.Ordered chain account hash := by
  unfold afterVerifyCommitJob
  dsimp only
  split
  · have h0 := Rules.Ordered.mergeCert h id c
    split
    · have h1 := h0.addCertBlock hll ((r.driver.rules.mergeCert id c).obj id).block
      split
      · exact Driver.ordered_onNewBlockFire (d := { r.driver with rules := _ }) h1 hll _
      · exact h1
    · exact h0
  · exact h

theorem ordered_step (r : Replica) (h : r.driver.Ordered chain account hash) (hm : r.driver.Metered)
    (hll : ∀ b, st.latestLocked = some b → b.Keyed chain account hash) (ev : ReplicaEvent)
    (hev : ∀ b, ev.lockArg = some b → b.Keyed chain account hash) : (r.step st ev).driver.Ordered chain account hash := by
  cases ev with
  | driver ev => exact Driver.ordered_step h hm hll ev hev
  | commitMsg m packetOk ready fromLeader => exact ordered_handleCommitMsg h hll m packetOk ready fromLeader
  | verifyCommitJob id c sigOk => exact (driver_verifyCommitJob r id c sigOk).symm ▸ h
  | afterVerifyCommitJob id c => exact ordered_afterVerifyCommitJob h hll id c

theorem ordered_run (hll : ∀ b, st.latestLocked = some b → b.Keyed chain account hash)
    (events : List ReplicaEvent) (hev : ∀ ev ∈ events, ∀ b, ev.lockArg = some b → b.Keyed chain account hash)
    (r : Replica) (h : r.driver.Ordered chain account hash) (hm : r.driver.Metered) (hinv : r.driver.rules.Inv) :
    (r.run st events).driver.Ordered chain account hash := by
  have htriv : ∀ b, st.latestLocked = some b → True := fun _ _ => trivial
  -- the voted metric and the rules' invariant go along, for the proposals `add_proposal` files
  induction events generalizing r with
  | nil => exact h
  | cons ev rest ih =>
    exact ih (fun e he => hev e (List.mem_cons_of_mem ev he)) _ (ordered_step r h hm hll ev (hev ev List.mem_cons_self))
      (metered_step st r hinv hm ev) (inv_of_moves (moves_step htriv r hinv ev fun _ _ => trivial) hinv)

/-- What the event after a prefix of a run does to the votes: none is emitted, or one,
above the lock it leaves. -/
theorem votesAboveLock_run_take (st : Store) (events : List ReplicaEvent) (k : ℕ) :
    Driver.VotesAboveLock (empty.run st (events.take k)).driver (empty.run st (events.take (k + 1))).driver := by
  rcases Nat.lt_or_ge k events.length with hk | hk
  · rw [List.take_add_one, List.getElem?_eq_getElem hk, Option.toList_some, run_append, run_cons, run_nil]
    exact votesAboveLock_step _ (inv_run st _) _
  · rw [List.take_of_length_le hk, List.take_of_length_le (Nat.le_succ_of_le hk)]
    exact .inl rfl

end Steps

end Replica

/-- **A replica votes in strictly increasing view ids.**  With a block store whose latest
locked block, like every lock the context hands to the driver, is a block of the
replica's chain and account keyed by its height and view id, over any interleaving of
the replica's events, the commit path and the asynchronous verification included, the
votes it emits are in strictly increasing view id, and each event emits at most one
vote, for a block above, in height and in view id, the lock it leaves in place. -/
theorem votes_viewid_increasing {chain : UInt32} {account : String} {hash : UInt64 → UInt64 → String}
    (st : Store) (events : List ReplicaEvent) (hll : ∀ b, st.latestLocked = some b → b.Keyed chain account hash)
    (hev : ∀ ev ∈ events, ∀ b, ev.lockArg = some b → b.Keyed chain account hash) :
    ((Replica.empty.run st events).driver.votes.map Block.viewid).Pairwise (· < ·) ∧
      ∀ k, Driver.VotesAboveLock (Replica.empty.run st (events.take k)).driver
        (Replica.empty.run st (events.take (k + 1))).driver :=
  ⟨(Replica.ordered_run hll events hev .empty Rules.ordered_empty Driver.metered_empty Rules.inv_empty).sorted,
    Replica.votesAboveLock_run_take st events⟩

/-- A proposal of the same height as `linkedProposal`, in view three, with a clock
certificate three clocks later. -/
def reproposal : Block := ⟨2, 3, 0, 0, "", "L", "r", "rQ", 0, "A", false, false, false, true⟩

/-- A replica votes for `linkedProposal` in view two, then for `reproposal` in view three. -/
def viewChangeRun : List ReplicaEvent :=
  voteRun ++ [.driver (.proposalMsg reproposal 1 3 true 3), .driver (.verifyJob 1 true true),
    .driver (.verifyCallback 1 true false)]

theorem votes_viewid_increasing_viewChangeRun :
    (Replica.empty.run ⟨none, fun _ _ => none⟩ viewChangeRun).driver.votes.map Block.viewid = [2, 3] ∧
      ((Replica.empty.run ⟨none, fun _ _ => none⟩ viewChangeRun).driver.votes.map Block.viewid).Pairwise (· < ·) ∧
      ∀ k, Driver.VotesAboveLock (Replica.empty.run ⟨none, fun _ _ => none⟩ (viewChangeRun.take k)).driver
        (Replica.empty.run ⟨none, fun _ _ => none⟩ (viewChangeRun.take (k + 1))).driver := by
  -- the one lock handed down is `linkedLock`, keyed by a store that hashes every block to `L`
  have hev : ∀ ev ∈ viewChangeRun, ∀ b, ev.lockArg = some b → b.Keyed 0 "A" fun _ _ => "L" := by
    intro ev hev b hb
    have hlock : ∀ ev ∈ viewChangeRun, ev.lockArg = none ∨ ev.lockArg = some linkedLock := by decide
    rcases hlock ev hev with h | h <;> rw [h] at hb
    · exact absurd hb (by simp)
    · obtain rfl := Option.some.inj hb
      exact ⟨rfl, rfl, rfl⟩
  exact ⟨by decide, votes_viewid_increasing _ viewChangeRun (fun _ h => by simp at h) hev⟩

end Bft
end TopChain

import TopChain.Bft.Commit
import TopChain.Bft.Invariant

/-!
# What each event of a replica does to its rules

The rules' invariants of `Rules.Change` hold of runs of the rules' own mutators.  A
replica calls those mutators from its event handlers, and changes the rules in two more
ways: voting for a proposal raises the voted height and view id
(`update_voted_metric`), and the callback of a verified commit authenticates a
proposal's block in place.  `Rules.Move` adds these two to the primitive changes, and
each is shown to keep the invariants, the lock's advance and the proposal objects.

Each handler of the driver is then a sequence of `Driver.Move`s: its rules move, or it
votes for a proposal object through `vote_for_proposal`, which hands it to a worker.
The two handlers of the asynchronous verification, `verifyJob` and `verifyCallback`,
move proposals along the queues and emit the votes; they are kept apart.

## Main definitions

* `Rules.Move` — the changes a replica makes to its rules.
* `Rules.KeepsObjs` — the proposal objects stay, with their blocks' heights and view ids.
* `Driver.Move` — a change of the rules or a vote for a proposal object.
* `Driver.Event.lockArg`, `ReplicaEvent.lockArg` — the block an event hands to
  `set_lock_block`.

## Main results

* `Rules.Move.inv`, `Rules.Move.advances`, `Rules.Move.commitInv`, `Rules.Move.keepsObjs`.
* `Driver.moves_handleProposalMsg`, `Driver.moves_onNewBlockFire`,
  `Replica.moves_afterVerifyCommitJob` — the handlers as sequences of moves.
-/

namespace TopChain
namespace Bft
namespace Rules

/-! ### The changes a replica makes -/

/-- A change of the rules' state a replica makes: a primitive change of the rules, the
raise of the voted metric when it votes (`update_voted_metric`), or a block
authenticated in place by the callback of a verified commit. -/
inductive Move (st : Store) (lockable : Block → Prop) : Rules → Rules → Prop
  | change {s s' : Rules} : Change st lockable s s' → Move st lockable s s'
  | updateVotedMetric (s : Rules) (b : Block) : Move st lockable s (s.updateVotedMetric b)
  | authenticate (s : Rules) (id : ℕ) : Move st lockable s (s.modifyObj id Proposal.authenticate)

/-- Changing a proposal object in place keeps what `f` keeps of every block. -/
theorem proj_obj_modifyObj {β : Type} (g : Block → β) (s : Rules) (i j : ℕ) {f : Proposal → Proposal}
    (hf : ∀ p, g (f p).block = g p.block) : g ((s.modifyObj i f).obj j).block = g (s.obj j).block := by
  unfold modifyObj obj
  simp only [List.getD_eq_getElem?_getD, List.getElem?_set]
  split_ifs with hij hlt
  · subst hij
    rw [Option.getD_some, hf, List.getElem?_eq_getElem hlt, Option.getD_some]
  · -- past the end nothing is set, and both sides read the default
    subst hij
    rw [List.getElem?_eq_none (by omega)]
  · rfl

@[simp] theorem length_modifyObj (s : Rules) (i : ℕ) (f : Proposal → Proposal) :
    (s.modifyObj i f).objs.length = s.objs.length :=
  List.length_set ..

theorem Inv.authenticate {s : Rules} (hs : s.Inv) (id : ℕ) : (s.modifyObj id Proposal.authenticate).Inv := by
  have hh (j : ℕ) := proj_obj_modifyObj Block.height s id j (f := Proposal.authenticate) fun _ => rfl
  have hv (j : ℕ) := proj_obj_modifyObj Block.viewid s id j (f := Proposal.authenticate) fun _ => rfl
  refine ⟨hs.sorted, fun e he => ?_, fun e he => ?_, fun a ha b hb => ?_, fun l hl e he => ?_⟩
  · rw [hv]
    exact hs.key_eq e he
  · rw [length_modifyObj]
    exact hs.id_lt e he
  · rw [hh, hh, hv, hv]
    exact hs.increasing a ha b hb
  · rw [hh, hv]
    exact hs.above_lock l hl e he

section Moves

variable {st : Store} {lockable : Block → Prop}

theorem Move.inv {s s' : Rules} (h : Move st lockable s s') (hs : s.Inv) : s'.Inv := by
  cases h with
  | change hc => exact hc.inv hs
  | updateVotedMetric b => exact ⟨hs.sorted, hs.key_eq, hs.id_lt, hs.increasing, hs.above_lock⟩
  | authenticate id => exact hs.authenticate id

theorem advances_updateVotedMetric (s : Rules) (b : Block) : Advances s (s.updateVotedMetric b) := by
  refine ⟨fun l hl => ⟨l, hl, .refl l⟩, ?_, ?_⟩
  · rw [UInt64.le_iff_toNat_le, updateVotedMetric, UInt64.toNat_max]
    omega
  · rw [UInt64.le_iff_toNat_le, updateVotedMetric, UInt64.toNat_max]
    omega

theorem Move.advances {s s' : Rules} (h : Move st lockable s s') : Advances s s' := by
  cases h with
  | change hc => exact hc.advances
  | updateVotedMetric b => exact advances_updateVotedMetric s b
  | authenticate id => exact advances_of_eq rfl rfl rfl

theorem Move.commitInv {parent : UInt64 → UInt64 → String}
    (hload : ∀ h x c, st.load h x = some c → c.height = h ∧ c.blockHash = x)
    (hlockable : ∀ b, lockable b → b.Linked parent) {s s' : Rules}
    (h : Move st lockable s s') (hs : s.CommitInv parent) : s'.CommitInv parent := by
  cases h with
  | change hc => exact hc.commitInv hload hlockable hs
  | updateVotedMetric b => exact ⟨hs.lock_linked, hs.commit_linked⟩
  | authenticate id => exact ⟨hs.lock_linked, hs.commit_linked⟩

end Moves

/-! ### The proposal objects stay -/

/-- `s'` keeps the proposal objects of `s`, with the heights and view ids of their
blocks. -/
structure KeepsObjs (s s' : Rules) : Prop where
  length : s.objs.length ≤ s'.objs.length
  height : ∀ i < s.objs.length, (s'.obj i).block.height = (s.obj i).block.height
  viewid : ∀ i < s.objs.length, (s'.obj i).block.viewid = (s.obj i).block.viewid

theorem KeepsObjs.refl (s : Rules) : KeepsObjs s s :=
  ⟨Nat.le_refl _, fun _ _ => rfl, fun _ _ => rfl⟩

theorem KeepsObjs.trans {s₁ s₂ s₃ : Rules} (h₁ : KeepsObjs s₁ s₂) (h₂ : KeepsObjs s₂ s₃) :
    KeepsObjs s₁ s₃ where
  length := Nat.le_trans h₁.length h₂.length
  height i hi := (h₂.height i (Nat.lt_of_lt_of_le hi h₁.length)).trans (h₁.height i hi)
  viewid i hi := (h₂.viewid i (Nat.lt_of_lt_of_le hi h₁.length)).trans (h₁.viewid i hi)

theorem keepsObjs_of_objs {s s' : Rules} (h : s'.objs = s.objs) : KeepsObjs s s' :=
  ⟨h ▸ Nat.le_refl _, fun i _ => by rw [obj, obj, h], fun i _ => by rw [obj, obj, h]⟩

theorem Frame.keepsObjs {s s' : Rules} (hf : Frame s s') : KeepsObjs s s' :=
  ⟨hf.length ▸ Nat.le_refl _, fun i _ => by rw [hf.block], fun i _ => by rw [hf.block]⟩

theorem Move.keepsObjs {st : Store} {lockable : Block → Prop} {s s' : Rules}
    (h : Move st lockable s s') : KeepsObjs s s' := by
  cases h with
  | change hc =>
    cases hc with
    | frame hf => exact hf.keepsObjs
    | newObj p =>
      refine ⟨by simp [newObj], fun i hi => ?_, fun i hi => ?_⟩ <;> rw [obj_newObj_of_lt s p hi]
    | installLock _ _ => exact keepsObjs_of_objs rfl
    | replaceLock _ _ _ _ => exact keepsObjs_of_objs rfl
    | loadCommit _ _ _ => exact keepsObjs_of_objs rfl
    | setCommit _ _ => exact keepsObjs_of_objs rfl
    | fileProposal _ _ _ _ => exact keepsObjs_of_objs rfl
  | updateVotedMetric b => exact keepsObjs_of_objs rfl
  | authenticate id =>
    exact ⟨Nat.le_of_eq (length_modifyObj s id _).symm, fun i _ => proj_obj_modifyObj Block.height s id i fun _ => rfl,
      fun i _ => proj_obj_modifyObj Block.viewid s id i fun _ => rfl⟩

/-! ### Sequences of moves -/

section Sequences

variable {st : Store} {lockable : Block → Prop}

theorem moves_of_changes {s s' : Rules} (h : Relation.ReflTransGen (Change st lockable) s s') :
    Relation.ReflTransGen (Move st lockable) s s' := by
  induction h with
  | refl => exact .refl
  | tail _ hc ih => exact ih.tail (.change hc)

theorem inv_of_moves {s s' : Rules} (h : Relation.ReflTransGen (Move st lockable) s s') (hs : s.Inv) :
    s'.Inv := by
  induction h with
  | refl => exact hs
  | tail _ hm ih => exact hm.inv ih

theorem advances_of_moves {s s' : Rules} (h : Relation.ReflTransGen (Move st lockable) s s') :
    Advances s s' := by
  induction h with
  | refl => exact Advances.refl s
  | tail _ hm ih => exact ih.trans hm.advances

theorem commitInv_of_moves {parent : UInt64 → UInt64 → String}
    (hload : ∀ h x c, st.load h x = some c → c.height = h ∧ c.blockHash = x)
    (hlockable : ∀ b, lockable b → b.Linked parent) {s s' : Rules}
    (h : Relation.ReflTransGen (Move st lockable) s s') (hs : s.CommitInv parent) :
    s'.CommitInv parent := by
  induction h with
  | refl => exact hs
  | tail _ hm ih => exact hm.commitInv hload hlockable ih

theorem keepsObjs_of_moves {s s' : Rules} (h : Relation.ReflTransGen (Move st lockable) s s') :
    KeepsObjs s s' := by
  induction h with
  | refl => exact KeepsObjs.refl s
  | tail _ hm ih => exact ih.trans hm.keepsObjs

end Sequences

/-! ### The checks the driver calls -/

section Checks

variable {st : Store} {lockable : Block → Prop}

theorem fst_safeCheckForProposalBlock (st : Store) (s : Rules) (b : Block) :
    (s.safeCheckForProposalBlock st b).1 = (s.getLockBlock st).1 := by
  unfold safeCheckForProposalBlock safeCheckForBlock
  rcases s.getLockBlock st with ⟨s', _ | l⟩ <;> rfl

/-- `safe_precheck_for_voting` at most reads the lock. -/
theorem fst_safePrecheckForVoting (st : Store) (s : Rules) (id : ℕ) :
    (s.safePrecheckForVoting st id).1 = if (s.obj id).isVoteDisable then s else (s.getLockBlock st).1 := by
  unfold safePrecheckForVoting
  dsimp only
  split
  · rfl
  · -- every later branch returns the state the block check leaves
    split_ifs <;> exact fst_safeCheckForProposalBlock st s _

theorem objs_safePrecheckForVoting (st : Store) (s : Rules) (id : ℕ) :
    (s.safePrecheckForVoting st id).1.objs = s.objs := by
  rw [fst_safePrecheckForVoting]
  split_ifs
  · rfl
  · exact objs_getLockBlock st s

theorem moves_safePrecheckForVoting (hll : ∀ b, st.latestLocked = some b → lockable b) (s : Rules) (id : ℕ) :
    Relation.ReflTransGen (Move st lockable) s (s.safePrecheckForVoting st id).1 := by
  rw [fst_safePrecheckForVoting]
  split_ifs
  · exact .refl
  · exact moves_of_changes (changes_getLockBlock hll s)

/-- `safe_finalcheck_for_voting` at most reads the lock. -/
theorem fst_safeFinalcheckForVoting (st : Store) (s : Rules) (id : ℕ) :
    (s.safeFinalcheckForVoting st id).1 =
      if !(s.obj id).isVoteEnable || (s.obj id).voted then s else (s.getLockBlock st).1 := by
  have hsnd := getLockBlock_snd st s
  unfold safeFinalcheckForVoting
  dsimp only
  split
  · rfl
  · -- without a lock the check stops at once; with one, the branch check reads it
    rcases hl : s.getLockBlock st with ⟨s1, _ | l⟩ <;> rw [hl] at hsnd
    dsimp only at hsnd ⊢
    rw [safeCheckFollowLockedBranch_of_lock _ hsnd.symm]
    split_ifs <;> rfl

theorem moves_safeFinalcheckForVoting (hll : ∀ b, st.latestLocked = some b → lockable b) (s : Rules)
    (id : ℕ) : Relation.ReflTransGen (Move st lockable) s (s.safeFinalcheckForVoting st id).1 := by
  rw [fst_safeFinalcheckForVoting]
  split_ifs
  · exact .refl
  · exact moves_of_changes (changes_getLockBlock hll s)

end Checks

end Rules

namespace Driver

section Sync

variable {st : Store} {lockable : Block → Prop}

theorem moves_syncCommit (hll : ∀ b, st.latestLocked = some b → lockable b) (s : Rules) (l : Block) :
    Relation.ReflTransGen (Rules.Move st lockable) s (syncCommit st s l).1 := by
  unfold syncCommit
  split_ifs
  · have h := Rules.changes_getCommitBlock hll s
    rcases hr : s.getCommitBlock st with ⟨s1, c⟩
    rw [hr] at h
    dsimp only
    split_ifs <;> exact Rules.moves_of_changes h
  · exact .refl

theorem moves_syncForProposal (hll : ∀ b, st.latestLocked = some b → lockable b) (s : Rules) (id : ℕ) :
    Relation.ReflTransGen (Rules.Move st lockable) s (syncForProposal st s id).1 := by
  unfold syncForProposal
  have h1 := Rules.moves_of_changes (Rules.changes_getLockBlock hll s)
  rcases hr : s.getLockBlock st with ⟨s1, _ | l⟩ <;> rw [hr] at h1 <;> dsimp only
  · exact h1
  · -- every branch stops at the lock read, or goes on to the commit
    have h2 := h1.trans (moves_syncCommit hll s1 l)
    split_ifs
    · split
      · split <;> exact h1
      · split_ifs
        · exact h1
        · exact h2
    · exact h2

end Sync

/-! ### The driver's changes -/

/-- A change of the driver that emits no vote and moves nothing along the queues of the
verification, but may hand a proposal to a worker: its rules move, or it votes for a
proposal object (`vote_for_proposal`). -/
inductive Move (st : Store) (lockable : Block → Prop) : Driver → Driver → Prop
  | rules {d : Driver} {s : Rules} : Rules.Move st lockable d.rules s → Move st lockable d { d with rules := s }
  | vote {d : Driver} {id : ℕ} : id < d.rules.objs.length → Move st lockable d (d.voteForProposal id)

section Moves

variable {st : Store} {lockable : Block → Prop}

theorem moves_rules {d : Driver} {s : Rules} (h : Relation.ReflTransGen (Rules.Move st lockable) d.rules s) :
    Relation.ReflTransGen (Move st lockable) d { d with rules := s } := by
  induction h with
  | refl => exact .refl
  | tail _ hm ih => exact ih.tail (.rules hm)

/-- Flag changes move the rules. -/
theorem moves_modifyObj (s : Rules) (id : ℕ) {f : Proposal → Proposal} (hf : ∀ p, (f p).block = p.block) :
    Relation.ReflTransGen (Rules.Move st lockable) s (s.modifyObj id f) :=
  .single (.change (.frame (Rules.frame_modifyObj s id hf)))

theorem moves_ite_disableVote {s s' : Rules} (h : Relation.ReflTransGen (Rules.Move st lockable) s s')
    (c : Prop) [Decidable c] (id : ℕ) :
    Relation.ReflTransGen (Rules.Move st lockable) s (if c then s' else s'.modifyObj id Proposal.disableVote) := by
  split_ifs
  · exact h
  · exact h.trans (moves_modifyObj s' id fun _ => rfl)

theorem moves_ite_voteForProposal {d d' : Driver} {id : ℕ} (c : Prop) [Decidable c]
    (h : Relation.ReflTransGen (Move st lockable) d d') (hid : id < d'.rules.objs.length) :
    Relation.ReflTransGen (Move st lockable) d (if c then d'.voteForProposal id else d') := by
  split_ifs
  · exact h.tail (.vote hid)
  · exact h

/-- A new proposal object, once its rules have moved on, may be voted for. -/
theorem moves_ite_voteForProposal_newObj {d : Driver} {s1 s' : Rules} {p : Proposal}
    (h1 : Relation.ReflTransGen (Rules.Move st lockable) d.rules s1)
    (h : Relation.ReflTransGen (Rules.Move st lockable) (s1.newObj p) s') (c : Prop) [Decidable c] :
    Relation.ReflTransGen (Move st lockable) d
      (if c then ({ d with rules := s' } : Driver).voteForProposal s1.objs.length else { d with rules := s' }) := by
  have hnew : Relation.ReflTransGen (Rules.Move st lockable) s1 (s1.newObj p) := .single (.change (.newObj s1 p))
  refine moves_ite_voteForProposal c (moves_rules ((h1.trans hnew).trans h)) ?_
  have hlen := (Rules.keepsObjs_of_moves h).length
  simp only [Rules.newObj, List.length_append, List.length_singleton] at hlen
  exact hlen

theorem moves_handleProposalMsg (hll : ∀ b, st.latestLocked = some b → lockable b) (d : Driver) (b : Block)
    (lc cc : UInt64) (packetOk : Bool) (cookie : UInt64) :
    Relation.ReflTransGen (Move st lockable) d (d.handleProposalMsg st b lc cc packetOk cookie) := by
  unfold handleProposalMsg
  have h1 := Rules.moves_of_changes (Rules.changes_getLockBlock hll d.rules)
  rcases hr : d.rules.getLockBlock st with ⟨s1, _ | l⟩ <;> rw [hr] at h1 <;> dsimp only at h1 ⊢
  · exact moves_rules h1
  · split
    · exact moves_rules h1
    split
    · exact moves_rules h1
    -- the new object is checked and filed (or disabled), synced, and may be voted for
    refine moves_ite_voteForProposal_newObj (p := proposalOfMsg b lc cc) h1
      ((moves_ite_disableVote ?_ _ _).trans (moves_syncForProposal hll _ _)) _
    have hid : s1.objs.length < (s1.newObj (proposalOfMsg b lc cc)).objs.length := by simp [Rules.newObj]
    split
    · exact .refl
    have hpre := Rules.moves_safePrecheckForVoting hll (s1.newObj (proposalOfMsg b lc cc)) s1.objs.length
    split
    · exact hpre
    · refine hpre.trans (Rules.moves_of_changes (Rules.changes_addProposalObj hll _ ?_))
      rw [Rules.objs_safePrecheckForVoting]
      exact hid

/-- What a change of the driver does to its rules. -/
theorem Move.rules_moves {d d' : Driver} (h : Move st lockable d d') :
    Relation.ReflTransGen (Rules.Move st lockable) d.rules d'.rules := by
  cases h with
  | rules hm => exact .single hm
  | @vote id _ =>
    -- the proposal is enabled, then the voted metric raised
    unfold voteForProposal
    dsimp only
    split_ifs
    · exact .refl
    · exact (moves_modifyObj d.rules id (f := fun p => { p with allowVote := .enable }) fun _ => rfl).tail
        (.updateVotedMetric _ _)

theorem rules_moves_of_moves {d d' : Driver} (h : Relation.ReflTransGen (Move st lockable) d d') :
    Relation.ReflTransGen (Rules.Move st lockable) d.rules d'.rules := by
  induction h with
  | refl => exact .refl
  | tail _ hm ih => exact ih.trans hm.rules_moves

theorem moves_onConsensusUpdate (hll : ∀ b, st.latestLocked = some b → lockable b) (d : Driver)
    (lock commit : Option Block) (hl : ∀ b, lock = some b → lockable b) :
    Relation.ReflTransGen (Move st lockable) d (d.onConsensusUpdate st lock commit) := by
  unfold onConsensusUpdate
  refine moves_rules ((?_ : Relation.ReflTransGen _ _ _).trans
    (Rules.moves_of_changes (Rules.changes_setCommitBlock hll _ commit)))
  rcases lock with _ | l
  · exact .refl
  · exact Rules.moves_of_changes (Rules.changes_setLockBlock (hl l rfl) d.rules)

theorem moves_onProposalStart (hll : ∀ b, st.latestLocked = some b → lockable b) (d : Driver)
    (lock commit cert : Option Block) (hl : ∀ b, lock.or commit = some b → lockable b) :
    Relation.ReflTransGen (Move st lockable) d (d.onProposalStart st lock commit cert) := by
  unfold onProposalStart
  -- the lock, the commit, then the certificate
  have hcommit (s : Rules) := Rules.moves_of_changes (Rules.changes_setCommitBlock hll s commit)
  have hcert (s : Rules) (c : Block) := Rules.moves_of_changes (Rules.changes_addCertBlock hll s c)
  have hlock (l : Block) (hlc : lock.or commit = some l) :
      Relation.ReflTransGen (Rules.Move st lockable) d.rules (d.rules.setLockBlock l).1 :=
    Rules.moves_of_changes (Rules.changes_setLockBlock (hl l hlc) d.rules)
  rcases hlc : lock.or commit with _ | l <;> rcases cert with _ | c <;> dsimp only
  · exact moves_rules (hcommit _)
  · exact moves_rules ((hcommit _).trans (hcert _ c))
  · exact moves_rules ((hlock l hlc).trans (hcommit _))
  · exact moves_rules (((hlock l hlc).trans (hcommit _)).trans (hcert _ c))

/-- A fold of changes, each over a proposal object, is a sequence of changes. -/
theorem moves_foldl {f : Driver → UInt64 × ℕ → Driver}
    (hf : ∀ d e, e.2 < d.rules.objs.length → Relation.ReflTransGen (Move st lockable) d (f d e)) :
    ∀ (ps : List (UInt64 × ℕ)) (d : Driver), (∀ e ∈ ps, e.2 < d.rules.objs.length) →
      Relation.ReflTransGen (Move st lockable) d (ps.foldl f d)
  | [], _, _ => .refl
  | e :: rest, d, hid => by
    have hstep := hf d e (hid e List.mem_cons_self)
    -- the objects only grow, so the later ids stay objects
    have hlen := (Rules.keepsObjs_of_moves (rules_moves_of_moves hstep)).length
    exact hstep.trans (moves_foldl hf rest _ fun e' he' =>
      Nat.lt_of_lt_of_le (hid e' (List.mem_cons_of_mem e he')) hlen)

/-- `on_new_block_fire` syncs and may vote for proposals of the map it starts from, all
of them proposal objects. -/
theorem moves_onNewBlockFire (hll : ∀ b, st.latestLocked = some b → lockable b) (d : Driver)
    (hd : d.rules.Inv) (b : Block) :
    Relation.ReflTransGen (Move st lockable) d (d.onNewBlockFire st b) := by
  unfold onNewBlockFire
  refine moves_foldl (fun d' e he => ?_) _ _ hd.id_lt
  dsimp only
  split
  · have hs := moves_syncForProposal hll d'.rules e.2
    exact moves_ite_voteForProposal _ (moves_rules hs)
      (Nat.lt_of_lt_of_le he (Rules.keepsObjs_of_moves hs).length)
  · exact .refl

theorem moves_verifyCallback (hll : ∀ b, st.latestLocked = some b → lockable b) (d : Driver) (id : ℕ)
    (verifyOk certAuthenticated : Bool) :
    Relation.ReflTransGen (Rules.Move st lockable) d.rules (d.verifyCallback st id verifyOk certAuthenticated).rules := by
  unfold verifyCallback
  have h1 := Rules.moves_safeFinalcheckForVoting hll d.rules id
  have hvoted := h1.trans (moves_modifyObj _ id (f := fun p => { p with voted := true }) fun _ => rfl)
  dsimp only
  split_ifs with hmem hok hfin hca
  · exact hvoted.tail (.change (.frame (Rules.frame_onCertVerified _ _)))
  · exact hvoted
  · exact h1.trans (moves_modifyObj _ id fun _ => rfl)
  · exact moves_modifyObj _ id fun _ => rfl
  · exact .refl

@[simp] theorem rules_verifyJob (d : Driver) (id : ℕ) (sigOk verifyOk : Bool) :
    (d.verifyJob id sigOk verifyOk).rules = d.rules := by
  unfold verifyJob
  dsimp only
  split_ifs <;> rfl

end Moves

/-- The block an event hands to `set_lock_block`, if any. -/
def Event.lockArg : Event → Option Block
  | .consensusUpdate lock _ => lock
  | .proposalStart lock commit _ => lock.or commit
  | _ => none

section Steps

variable {st : Store} {lockable : Block → Prop}

/-- Every event moves the rules. -/
theorem moves_step (hll : ∀ b, st.latestLocked = some b → lockable b) (d : Driver) (hd : d.rules.Inv)
    (ev : Event) (hev : ∀ b, ev.lockArg = some b → lockable b) :
    Relation.ReflTransGen (Rules.Move st lockable) d.rules (d.step st ev).rules := by
  cases ev with
  | consensusUpdate lock commit =>
    exact rules_moves_of_moves (moves_onConsensusUpdate hll d lock commit hev)
  | proposalMsg b lastCert clock packetOk cookie =>
    exact rules_moves_of_moves (moves_handleProposalMsg hll d b lastCert clock packetOk cookie)
  | verifyJob id sigOk verifyOk => exact (rules_verifyJob d id sigOk verifyOk).symm ▸ .refl
  | verifyCallback id verifyOk certAuth => exact moves_verifyCallback hll d id verifyOk certAuth
  | newBlockFire b => exact rules_moves_of_moves (moves_onNewBlockFire hll d hd b)
  | clockFire clock =>
    -- the clock is raised, then the expiry pass runs
    have hf : Rules.Frame d.rules { d.rules with latestClock := max d.rules.latestClock clock } :=
      Rules.frame_of_eq rfl rfl rfl rfl rfl rfl
    exact Relation.ReflTransGen.head (.change (.frame hf))
      (Rules.moves_of_changes (Rules.changes_expireProposals hll _))
  | viewFire viewid =>
    have hf : Rules.Frame d.rules { d.rules with latestViewid := max d.rules.latestViewid viewid } :=
      Rules.frame_of_eq rfl rfl rfl rfl rfl rfl
    exact Relation.ReflTransGen.head (.change (.frame hf))
      (Rules.moves_of_changes (Rules.changes_expireProposals hll _))
  | proposalStart lock commit cert =>
    exact rules_moves_of_moves (moves_onProposalStart hll d lock commit cert hev)

end Steps

end Driver

/-- The block an event hands to `set_lock_block`, if any. -/
def ReplicaEvent.lockArg : ReplicaEvent → Option Block
  | .driver ev => ev.lockArg
  | _ => none

namespace Replica

@[simp] theorem driver_setRules (r : Replica) (s : Rules) :
    (r.setRules s).driver = { r.driver with rules := s } := rfl

@[simp] theorem driver_fireVerifyCommitJob (r : Replica) (id : ℕ) (c : CommitCert) :
    (r.fireVerifyCommitJob id c).driver = r.driver := by
  unfold fireVerifyCommitJob
  split_ifs <;> rfl

@[simp] theorem driver_verifyCommitJob (r : Replica) (id : ℕ) (c : CommitCert) (sigOk : Bool) :
    (r.verifyCommitJob id c sigOk).driver = r.driver := by
  unfold verifyCommitJob
  dsimp only
  split_ifs <;> rfl

section Commit

variable {st : Store} {lockable : Block → Prop}

theorem moves_mergeCert (s : Rules) (id : ℕ) (c : CommitCert) :
    Relation.ReflTransGen (Rules.Move st lockable) s (s.mergeCert id c) := by
  unfold Rules.mergeCert
  split_ifs
  · exact .single (.authenticate s id)
  · exact .refl

/-- After its checks, a commit message leaves the driver as it is, disables one proposal
object, or reads the lock; the verification of its certificate waits in the commit queue. -/
theorem driver_handleCommitCert (st : Store) (r : Replica) (m : CommitMsg) (matched : Option ℕ) :
    (r.handleCommitCert st m matched).1.driver = r.driver ∨
      (∃ id, (r.handleCommitCert st m matched).1.driver =
        { r.driver with rules := r.driver.rules.modifyObj id Proposal.disableVote }) ∨
      (r.handleCommitCert st m matched).1.driver = { r.driver with rules := (r.driver.rules.getLockBlock st).1 } := by
  unfold handleCommitCert
  rcases m.cert with _ | c
  · exact .inl rfl
  · rcases matched with _ | id <;> dsimp only
    · split_ifs
      · exact .inl rfl
      · exact .inl rfl
      · exact .inl rfl
      · exact .inr (.inr rfl)
    · split_ifs
      · exact .inl rfl
      · exact .inl rfl
      · exact .inl rfl
      · exact .inl (driver_fireVerifyCommitJob r id c)
      · exact .inr (.inl ⟨id, rfl⟩)

/-- A commit message does to the driver what its certificate's checks do, or nothing. -/
theorem driver_handleCommitMsg (st : Store) (r : Replica) (m : CommitMsg) (packetOk ready fromLeader : Bool) :
    (r.handleCommitMsg st m packetOk ready fromLeader).1.driver = r.driver ∨
      (∃ id, (r.handleCommitMsg st m packetOk ready fromLeader).1.driver =
        { r.driver with rules := r.driver.rules.modifyObj id Proposal.disableVote }) ∨
      (r.handleCommitMsg st m packetOk ready fromLeader).1.driver =
        { r.driver with rules := (r.driver.rules.getLockBlock st).1 } := by
  unfold handleCommitMsg
  dsimp only
  split
  · exact .inl rfl
  · split
    · split_ifs <;> exact .inl rfl
    · -- no certificate of the view id: the message goes on to its certificate
      split
      · split_ifs
        · exact .inl rfl
        · exact .inl rfl
        · exact driver_handleCommitCert st r m _
        · exact driver_handleCommitCert st r m _
      · exact driver_handleCommitCert st r m none

theorem moves_handleCommitMsg (hll : ∀ b, st.latestLocked = some b → lockable b) (r : Replica)
    (m : CommitMsg) (packetOk ready fromLeader : Bool) :
    Relation.ReflTransGen (Driver.Move st lockable) r.driver
      (r.handleCommitMsg st m packetOk ready fromLeader).1.driver := by
  rcases driver_handleCommitMsg st r m packetOk ready fromLeader with h | ⟨id, h⟩ | h
  · exact h ▸ .refl
  · exact h ▸ Driver.moves_rules (Driver.moves_modifyObj _ id fun _ => rfl)
  · exact h ▸ Driver.moves_rules (Rules.moves_of_changes (Rules.changes_getLockBlock hll _))

/-- The callback of a verified commit authenticates the block, adds it as a certificate
and looks again at the proposals above it. -/
theorem moves_afterVerifyCommitJob (hll : ∀ b, st.latestLocked = some b → lockable b) (r : Replica)
    (hr : r.driver.rules.Inv) (id : ℕ) (c : CommitCert) :
    Relation.ReflTransGen (Driver.Move st lockable) r.driver (r.afterVerifyCommitJob st id c).driver := by
  unfold afterVerifyCommitJob
  dsimp only
  split
  · have h0 : Relation.ReflTransGen (Rules.Move st lockable) r.driver.rules (r.driver.rules.mergeCert id c) :=
      moves_mergeCert _ _ _
    split
    · have h1 := h0.trans (Rules.moves_of_changes (Rules.changes_addCertBlock hll _
        ((r.driver.rules.mergeCert id c).obj id).block))
      split
      · exact (Driver.moves_rules h1).trans (Driver.moves_onNewBlockFire hll _ (Rules.inv_of_moves h1 hr) _)
      · exact Driver.moves_rules h1
    · exact Driver.moves_rules h0
  · exact .refl

/-- Every event moves the rules. -/
theorem moves_step (hll : ∀ b, st.latestLocked = some b → lockable b) (r : Replica)
    (hr : r.driver.rules.Inv) (ev : ReplicaEvent) (hev : ∀ b, ev.lockArg = some b → lockable b) :
    Relation.ReflTransGen (Rules.Move st lockable) r.driver.rules (r.step st ev).driver.rules := by
  cases ev with
  | driver ev => exact Driver.moves_step hll r.driver hr ev hev
  | commitMsg m packetOk ready fromLeader =>
    exact Driver.rules_moves_of_moves (moves_handleCommitMsg hll r m packetOk ready fromLeader)
  | verifyCommitJob id c sigOk => exact (driver_verifyCommitJob r id c sigOk).symm ▸ .refl
  | afterVerifyCommitJob id c => exact Driver.rules_moves_of_moves (moves_afterVerifyCommitJob hll r hr id c)

/-- A run moves the rules, through states that keep their invariant. -/
theorem moves_run (hll : ∀ b, st.latestLocked = some b → lockable b) (events : List ReplicaEvent)
    (hev : ∀ ev ∈ events, ∀ b, ev.lockArg = some b → lockable b) (r : Replica) (hr : r.driver.rules.Inv) :
    Relation.ReflTransGen (Rules.Move st lockable) r.driver.rules (r.run st events).driver.rules := by
  induction events generalizing r with
  | nil => exact .refl
  | cons ev rest ih =>
    have h1 := moves_step hll r hr ev (hev ev List.mem_cons_self)
    exact h1.trans (ih (fun e he => hev e (List.mem_cons_of_mem ev he)) _ (Rules.inv_of_moves h1 hr))

end Commit

end Replica

end Bft
end TopChain

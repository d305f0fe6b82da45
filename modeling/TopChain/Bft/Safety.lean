import TopChain.Bft.Moves
import Mathlib.Data.List.Induction

/-!
# Safety of an xBFT replica over every run

A replica runs its events in any order the network and its workers give them: proposal
messages, the verification jobs and their callbacks, commit messages and the
verification of their certificates, new blocks, clock and view ticks, and the lock and
commit its context hands down.  Every event moves the rules (`Replica.moves_step`), so
what the moves keep holds of every state a run reaches:

* the proposal map keeps its invariant, and every event advances the lock and the voted
  metric (`replica_run_invariant`);
* with a block store that loads blocks by their height and hash, and lock blocks that
  link to the parent their height and view id determine, the commit is the parent of
  the lock (`replica_commitInv_run`).

Of the votes: every vote a replica emits is above, in height and view id, every lock
it held up to the emission (`vote_above_held_locks`).  And `vote_for_proposal` raises the
voted metric before it hands a proposal to a worker, so each waiting proposal and each
vote is at or below the metric (`Driver.Metered`); `safe_precheck_for_voting` then lets
through only proposals above every vote emitted (`precheck_above_votes`).  The final
check after the worker does not read the metric.

## Main definitions

* `Rules.Reached` — a block at or below the voted metric.
* `Driver.Metered` — the waiting proposals and the votes are reached.

## Main results

* `replica_run_invariant`, `replica_commitInv_run`, `vote_above_held_locks`,
  `precheck_above_votes`.
-/

namespace TopChain
namespace Bft

/-! ### Runs and their prefixes -/

namespace Replica

theorem run_append (st : Store) (r : Replica) (xs ys : List ReplicaEvent) :
    r.run st (xs ++ ys) = (r.run st xs).run st ys :=
  List.foldl_append

/-- Every state a run reaches keeps the rules' invariant. -/
theorem inv_run (st : Store) (events : List ReplicaEvent) : (empty.run st events).driver.rules.Inv :=
  Rules.inv_of_moves (moves_run (fun _ _ => trivial) events (fun _ _ _ _ => trivial) empty Rules.inv_empty)
    Rules.inv_empty

/-- Between two states of a run, the lock and the voted metric only advance. -/
theorem advances_run_append (st : Store) (xs ys : List ReplicaEvent) :
    Rules.Advances (empty.run st xs).driver.rules (empty.run st (xs ++ ys)).driver.rules := by
  rw [run_append]
  exact Rules.advances_of_moves
    (moves_run (fun _ _ => trivial) ys (fun _ _ _ _ => trivial) _ (inv_run st xs))

theorem advances_run_take (st : Store) (events : List ReplicaEvent) {i k : ℕ} (h : i ≤ k) :
    Rules.Advances (empty.run st (events.take i)).driver.rules (empty.run st (events.take k)).driver.rules := by
  have hik : events.take k = (events.take k).take i ++ (events.take k).drop i :=
    (List.take_append_drop i _).symm
  rw [List.take_take, Nat.min_eq_left h] at hik
  rw [hik]
  exact advances_run_append st _ _

end Replica

/-! ### The invariants of every run -/

/-- In every state a replica reaches through any interleaving of its events, with its
asynchronous verifications and its commit path, the proposal map keeps its invariant
(ordered by view id, heights increasing with view ids, every proposal above the lock),
and each event advances the lock, in height and view id together, and never lowers the
voted height or view id. -/
theorem replica_run_invariant (st : Store) (events : List ReplicaEvent) :
    (Replica.empty.run st events).driver.rules.Inv ∧
      ∀ k, Rules.Advances (Replica.empty.run st (events.take k)).driver.rules
        (Replica.empty.run st (events.take (k + 1))).driver.rules :=
  ⟨Replica.inv_run st events, fun k => Replica.advances_run_take st events (Nat.le_succ k)⟩

/-- With a block store that loads a block by its height and hash, and lock blocks, from
the store and from the events, that link to the parent their height and view id
determine, every state a replica reaches has a commit that is the parent of its lock. -/
theorem replica_commitInv_run {parent : UInt64 → UInt64 → String} (st : Store)
    (hload : ∀ h x c, st.load h x = some c → c.height = h ∧ c.blockHash = x)
    (hll : ∀ b, st.latestLocked = some b → b.Linked parent) (events : List ReplicaEvent)
    (hev : ∀ ev ∈ events, ∀ b, ev.lockArg = some b → b.Linked parent) :
    (Replica.empty.run st events).driver.rules.CommitInv parent :=
  Rules.commitInv_of_moves hload (fun _ h => h) (Replica.moves_run hll events hev _ Rules.inv_empty)
    (Rules.commitInv_empty parent)

/-- A lock at height one whose parent is the genesis block `G`. -/
def linkedLock : Block := ⟨1, 1, 0, 0, "L", "G", "", "r", 0, "A", true, true, true, true⟩

/-- The context hands down `sampleLock` with its parent as the commit. -/
def linkedUpdate : List ReplicaEvent :=
  [.driver (.consensusUpdate (some Rules.sampleLock) (some Rules.sampleCommit))]

theorem replica_commitInv_linkedLock :
    (Replica.empty.run Rules.parentStore linkedUpdate).driver.rules.commit = some Rules.sampleCommit ∧
      (Replica.empty.run Rules.parentStore linkedUpdate).driver.rules.CommitInv Rules.sampleParent := by
  have hev : ∀ ev ∈ linkedUpdate, ∀ b, ev.lockArg = some b → b.Linked Rules.sampleParent := by
    intro ev hev b hb
    obtain rfl : ev = .driver (.consensusUpdate (some Rules.sampleLock) (some Rules.sampleCommit)) :=
      List.mem_singleton.mp hev
    obtain rfl : b = Rules.sampleLock := (Option.some.inj hb).symm
    rfl
  exact ⟨by decide, replica_commitInv_run _ Rules.parentStore_load (fun _ h => by simp [Rules.parentStore] at h)
    _ hev⟩

/-! ### Votes above every lock held -/

namespace Rules

theorem LockLe.lt_of_lt {l l' b : Block} (h : LockLe l l') (hh : l'.height < b.height) (hv : l'.viewid < b.viewid) :
    l.height < b.height ∧ l.viewid < b.viewid := by
  rcases h with ⟨hh', hv'⟩ | ⟨hh', hv'⟩
  · exact ⟨hh' ▸ hh, hv' ▸ hv⟩
  · exact ⟨UInt64.lt_trans hh' hh, UInt64.lt_trans hv' hv⟩

end Rules

namespace Replica

variable {st : Store}

theorem votes_of_moves {d d' : Driver} {lockable : Block → Prop}
    (h : Relation.ReflTransGen (Driver.Move st lockable) d d') : d'.votes = d.votes := by
  induction h with
  | refl => rfl
  | tail _ hm ih =>
    cases hm with
    | rules _ => exact ih
    | vote _ => exact (Driver.votes_voteForProposal _ _).trans ih

/-- Only the callback of a proposal's verification emits a vote, and it votes above the
lock it leaves. -/
theorem votesAboveLock_step (r : Replica) (hr : r.driver.rules.Inv) (ev : ReplicaEvent) :
    Driver.VotesAboveLock r.driver (r.step st ev).driver := by
  cases ev with
  | driver ev => exact Driver.votesAboveLock_step st r.driver ev
  | commitMsg m packetOk ready fromLeader =>
    exact .inl (votes_of_moves (moves_handleCommitMsg (fun _ _ => trivial) r m packetOk ready fromLeader))
  | verifyCommitJob id c sigOk => exact .inl (congrArg Driver.votes (driver_verifyCommitJob r id c sigOk))
  | afterVerifyCommitJob id c =>
    exact .inl (votes_of_moves (moves_afterVerifyCommitJob (fun _ _ => trivial) r hr id c))

end Replica

/-- Every vote a replica emits, over any interleaving of its events, is emitted by some
prefix of the run, and is above, in height and in view id, every lock the replica held
up to and right after emitting it. -/
theorem vote_above_held_locks (st : Store) (events : List ReplicaEvent) :
    ∀ b ∈ (Replica.empty.run st events).driver.votes, ∃ k ≤ events.length,
      b ∈ (Replica.empty.run st (events.take k)).driver.votes ∧
      ∀ i ≤ k, ∀ l, (Replica.empty.run st (events.take i)).driver.rules.lock = some l →
        l.height < b.height ∧ l.viewid < b.viewid := by
  -- induction on the run from its end: a vote is old, or emitted by the last event
  induction events using List.reverseRecOn with
  | nil => intro b hb; simp [Replica.empty, Driver.empty] at hb
  | append_singleton es ev ih =>
    intro b hb
    have hlen : es.length ≤ (es ++ [ev]).length := by simp
    -- an old vote keeps its prefix, which the last event does not change
    have hold : b ∈ (Replica.empty.run st es).driver.votes → ∃ k ≤ (es ++ [ev]).length,
        b ∈ (Replica.empty.run st ((es ++ [ev]).take k)).driver.votes ∧
        ∀ i ≤ k, ∀ l, (Replica.empty.run st ((es ++ [ev]).take i)).driver.rules.lock = some l →
          l.height < b.height ∧ l.viewid < b.viewid := by
      intro hmem
      obtain ⟨k, hk, hbk, hlock⟩ := ih b hmem
      refine ⟨k, Nat.le_trans hk hlen, ?_, fun i hi => ?_⟩
      · rwa [List.take_append_of_le_length hk]
      · rw [List.take_append_of_le_length (Nat.le_trans hi hk)]
        exact hlock i hi
    rw [Replica.run_append, Replica.run_cons, Replica.run_nil] at hb
    rcases Replica.votesAboveLock_step (Replica.empty.run st es) (Replica.inv_run st es) ev
      with heq | ⟨b', l', heq, hl', hh, hv⟩
    · rw [heq] at hb
      exact hold hb
    · rw [heq, List.mem_append, List.mem_singleton] at hb
      rcases hb with hb | rfl
      · exact hold hb
      · -- the new vote is above the lock it left, which follows every earlier lock
        have hfull : (es ++ [ev]).take (es ++ [ev]).length = es ++ [ev] := List.take_length
        have hstep : Replica.empty.run st (es ++ [ev]) = (Replica.empty.run st es).step st ev := by
          rw [Replica.run_append, Replica.run_cons, Replica.run_nil]
        refine ⟨(es ++ [ev]).length, Nat.le_refl _, ?_, fun i hi l hl => ?_⟩
        · rw [hfull, hstep, heq]
          exact List.mem_append_right _ (List.mem_singleton_self _)
        · obtain ⟨l'', hl'', hle⟩ := (Replica.advances_run_take st (es ++ [ev]) hi).lock l hl
          rw [hfull, hstep, hl'] at hl''
          obtain rfl := Option.some.inj hl''
          exact hle.lt_of_lt hh hv

/-- A proposal of view two on `linkedLock`. -/
def linkedProposal : Block := ⟨2, 2, 0, 0, "", "L", "r", "rP", 0, "A", false, false, false, true⟩

/-- A replica takes `linkedLock` as its lock, receives `linkedProposal` in view two,
verifies it and votes for it. -/
def voteRun : List ReplicaEvent :=
  [.driver (.consensusUpdate (some linkedLock) none), .driver (.proposalMsg linkedProposal 1 0 true 2),
    .driver (.verifyJob 0 true true), .driver (.verifyCallback 0 true false)]

theorem vote_above_held_locks_voteRun : ∃ k ≤ voteRun.length,
    linkedProposal ∈ (Replica.empty.run ⟨none, fun _ _ => none⟩ (voteRun.take k)).driver.votes ∧
    ∀ i ≤ k, ∀ l, (Replica.empty.run ⟨none, fun _ _ => none⟩ (voteRun.take i)).driver.rules.lock = some l →
      l.height < linkedProposal.height ∧ l.viewid < linkedProposal.viewid :=
  vote_above_held_locks _ voteRun linkedProposal (by decide)

/-! ### The voted metric covers every vote -/

namespace Rules

/-- A block the voted metric has reached: at or below the voted height and view id. -/
def Reached (s : Rules) (b : Block) : Prop := b.height ≤ s.votedHeight ∧ b.viewid ≤ s.votedViewid

theorem Reached.of_advances {s s' : Rules} {b : Block} (hb : s.Reached b) (h : Advances s s') : s'.Reached b :=
  ⟨UInt64.le_trans hb.1 h.votedHeight, UInt64.le_trans hb.2 h.votedViewid⟩

/-- A proposal object the metric has reached stays so while the objects stay and the
metric rises. -/
theorem Reached.of_keepsObjs {s s' : Rules} {i : ℕ} (hb : s.Reached (s.obj i).block) (hi : i < s.objs.length)
    (hk : KeepsObjs s s') (ha : Advances s s') : s'.Reached (s'.obj i).block := by
  rw [Reached, hk.height i hi, hk.viewid i hi]
  exact hb.of_advances ha

theorem reached_updateVotedMetric (s : Rules) (b : Block) : (s.updateVotedMetric b).Reached b := by
  refine ⟨?_, ?_⟩
  · rw [UInt64.le_iff_toNat_le, updateVotedMetric, UInt64.toNat_max]
    omega
  · rw [UInt64.le_iff_toNat_le, updateVotedMetric, UInt64.toNat_max]
    omega

/-- A proposal that passes `safe_precheck_for_voting` is above the voted view id and not
below the voted height. -/
theorem above_of_safePrecheckForVoting {st : Store} {s : Rules} {id : ℕ}
    (h : (s.safePrecheckForVoting st id).2 = true) :
    s.votedViewid < (s.obj id).block.viewid ∧ s.votedHeight ≤ (s.obj id).block.height := by
  -- the check compares with the metric after the lock is read, which is not lower
  have hll : ∀ b, st.latestLocked = some b → True := fun _ _ => trivial
  have hadv : Advances s (s.safeCheckForProposalBlock st (s.obj id).block).1 := by
    rw [fst_safeCheckForProposalBlock]
    exact advances_of_changes (changes_getLockBlock hll s)
  unfold safePrecheckForVoting at h
  dsimp only at h
  split_ifs at h with hd hok hmetric
  obtain ⟨hv, hh⟩ : (s.safeCheckForProposalBlock st (s.obj id).block).1.votedViewid < (s.obj id).block.viewid ∧
      (s.safeCheckForProposalBlock st (s.obj id).block).1.votedHeight ≤ (s.obj id).block.height := by
    simpa only [not_or, UInt64.not_le, UInt64.not_lt] using hmetric
  exact ⟨UInt64.lt_of_le_of_lt hadv.votedViewid hv, UInt64.le_trans hadv.votedHeight hh⟩

end Rules

namespace Driver

/-- Every proposal waiting for a worker or for its callback is a proposal object the
voted metric has reached, and so is every vote emitted. -/
structure Metered (d : Driver) : Prop where
  jobs : ∀ id ∈ d.jobs, id < d.rules.objs.length ∧ d.rules.Reached (d.rules.obj id).block
  callbacks : ∀ e ∈ d.callbacks, e.1 < d.rules.objs.length ∧ d.rules.Reached (d.rules.obj e.1).block
  votes : ∀ b ∈ d.votes, d.rules.Reached b

theorem metered_empty : empty.Metered :=
  ⟨fun _ h => by simp [empty] at h, fun _ h => by simp [empty] at h, fun _ h => by simp [empty] at h⟩

/-- The queues may only lose entries or pass a job on to its callback, and a new vote is
the block of a waiting callback, while the objects stay and the metric rises. -/
theorem Metered.of_queues {d d' : Driver} (hd : d.Metered) (hk : Rules.KeepsObjs d.rules d'.rules)
    (ha : Rules.Advances d.rules d'.rules)
    (hj : ∀ id ∈ d'.jobs, id ∈ d.jobs) (hc : ∀ e ∈ d'.callbacks, e ∈ d.callbacks ∨ e.1 ∈ d.jobs)
    (hv : ∀ b ∈ d'.votes, b ∈ d.votes ∨ ∃ e ∈ d.callbacks, b = (d.rules.obj e.1).block) : d'.Metered := by
  -- a waiting proposal object stays one, and the metric still reaches it
  have hobj : ∀ i, i < d.rules.objs.length ∧ d.rules.Reached (d.rules.obj i).block →
      i < d'.rules.objs.length ∧ d'.rules.Reached (d'.rules.obj i).block :=
    fun i ⟨hi, hr⟩ => ⟨Nat.lt_of_lt_of_le hi hk.length, hr.of_keepsObjs hi hk ha⟩
  refine ⟨fun id hid => hobj id (hd.jobs id (hj id hid)), fun e he => ?_, fun b hb => ?_⟩
  · rcases hc e he with he | he
    · exact hobj e.1 (hd.callbacks e he)
    · exact hobj e.1 (hd.jobs e.1 he)
  · rcases hv b hb with hb | ⟨e, he, rfl⟩
    · exact (hd.votes b hb).of_advances ha
    · exact (hd.callbacks e he).2.of_advances ha

section Metered

variable {st : Store} {lockable : Block → Prop}

theorem Metered.rules {d : Driver} {s : Rules} (hd : d.Metered)
    (h : Relation.ReflTransGen (Rules.Move st lockable) d.rules s) : ({ d with rules := s } : Driver).Metered :=
  hd.of_queues (Rules.keepsObjs_of_moves h) (Rules.advances_of_moves h) (fun _ h => h) (fun _ h => .inl h)
    (fun _ h => .inl h)

/-- `vote_for_proposal` raises the metric to the proposal it hands to a worker. -/
theorem Metered.voteForProposal {d : Driver} (hd : d.Metered) {id : ℕ} (hid : id < d.rules.objs.length) :
    (d.voteForProposal id).Metered := by
  unfold Driver.voteForProposal
  dsimp only
  split_ifs
  · exact hd
  · -- the object is enabled, the metric raised to its block, and its id queued
    have hf := Rules.frame_modifyObj d.rules id (f := fun p => { p with allowVote := .enable }) fun _ => rfl
    have hd' : Metered { d with
        rules := (d.rules.modifyObj id (fun p => { p with allowVote := .enable })).updateVotedMetric
          (d.rules.obj id).block } :=
      hd.of_queues (hf.keepsObjs.trans (Rules.keepsObjs_of_objs rfl))
        (hf.advances.trans (Rules.advances_updateVotedMetric _ _)) (fun _ h => h) (fun _ h => .inl h) (fun _ h => .inl h)
    refine ⟨fun j hj => ?_, hd'.callbacks, hd'.votes⟩
    rcases List.mem_append.mp hj with hj | hj
    · exact hd'.jobs j hj
    · rw [List.mem_singleton.mp hj]
      refine ⟨by simpa only [Rules.updateVotedMetric, Rules.length_modifyObj] using hid, ?_⟩
      have hb : (((d.rules.modifyObj id (fun p => { p with allowVote := .enable })).updateVotedMetric
          (d.rules.obj id).block).obj id).block = (d.rules.obj id).block :=
        Rules.block_obj_modifyObj d.rules id id (f := fun p => { p with allowVote := .enable }) fun _ => rfl
      dsimp only
      rw [hb]
      exact Rules.reached_updateVotedMetric _ _

/-- Changes of the driver keep the metric over its queues and votes. -/
theorem Metered.moves {d d' : Driver} (hd : d.Metered) (h : Relation.ReflTransGen (Move st lockable) d d') :
    d'.Metered := by
  induction h with
  | refl => exact hd
  | tail _ hm ih =>
    cases hm with
    | rules hr => exact ih.rules (.single hr)
    | vote hid => exact ih.voteForProposal hid

/-- The verification job either drops its proposal or passes it to the callback queue. -/
theorem verifyJob_cases (d : Driver) (id : ℕ) (sigOk verifyOk : Bool) :
    d.verifyJob id sigOk verifyOk = d ∨ id ∈ d.jobs ∧
      (d.verifyJob id sigOk verifyOk = { d with jobs := d.jobs.erase id } ∨
        d.verifyJob id sigOk verifyOk =
          { d with jobs := d.jobs.erase id, callbacks := d.callbacks ++ [(id, verifyOk)] }) := by
  unfold Driver.verifyJob
  dsimp only
  split_ifs with hmem
  · exact .inr ⟨hmem, .inl rfl⟩
  · exact .inr ⟨hmem, .inr rfl⟩
  · exact .inl rfl

theorem Metered.verifyJob {d : Driver} (hd : d.Metered) (id : ℕ) (sigOk verifyOk : Bool) :
    (d.verifyJob id sigOk verifyOk).Metered := by
  rcases verifyJob_cases d id sigOk verifyOk with h | ⟨hmem, h | h⟩ <;> rw [h]
  · exact hd
  · exact hd.of_queues (Rules.KeepsObjs.refl _) (Rules.Advances.refl _) (fun _ hj => List.mem_of_mem_erase hj)
      (fun _ h => .inl h) (fun _ h => .inl h)
  · refine hd.of_queues (Rules.KeepsObjs.refl _) (Rules.Advances.refl _) (fun _ hj => List.mem_of_mem_erase hj)
      (fun e he => ?_) (fun _ h => .inl h)
    -- the new callback is the job just taken
    rcases List.mem_append.mp he with he | he
    · exact .inl he
    · rw [List.mem_singleton.mp he]
      exact .inr hmem

/-- The callback of a verification takes its entry off the queue, and may emit the vote
for the block of its proposal object. -/
theorem verifyCallback_cases (st : Store) (d : Driver) (id : ℕ) (verifyOk certAuthenticated : Bool) :
    d.verifyCallback st id verifyOk certAuthenticated = d ∨ (id, verifyOk) ∈ d.callbacks ∧
      (d.verifyCallback st id verifyOk certAuthenticated).jobs = d.jobs ∧
      (d.verifyCallback st id verifyOk certAuthenticated).callbacks = d.callbacks.erase (id, verifyOk) ∧
      ((d.verifyCallback st id verifyOk certAuthenticated).votes = d.votes ∨
        (d.verifyCallback st id verifyOk certAuthenticated).votes = d.votes ++ [(d.rules.obj id).block]) := by
  -- the block of the vote is the object's, which the final check and the voted flag keep
  have hb : (((d.rules.safeFinalcheckForVoting st id).1.modifyObj id
      fun p => { p with voted := true }).obj id).block = (d.rules.obj id).block := by
    rw [Rules.block_obj_modifyObj (f := fun p => { p with voted := true }) _ _ _ fun _ => rfl,
      Rules.obj_safeFinalcheckForVoting]
  unfold Driver.verifyCallback
  dsimp only
  split_ifs with hmem hok hfin hca
  · exact .inr ⟨hmem, rfl, rfl, .inr (by rw [hb])⟩
  · exact .inr ⟨hmem, rfl, rfl, .inr (by rw [hb])⟩
  · exact .inr ⟨hmem, rfl, rfl, .inl rfl⟩
  · exact .inr ⟨hmem, rfl, rfl, .inl rfl⟩
  · exact .inl rfl

theorem Metered.verifyCallback {d : Driver} (hd : d.Metered) (st : Store) (id : ℕ)
    (verifyOk certAuthenticated : Bool) : (d.verifyCallback st id verifyOk certAuthenticated).Metered := by
  have hll : ∀ b, st.latestLocked = some b → True := fun _ _ => trivial
  have h := moves_verifyCallback hll d id verifyOk certAuthenticated
  rcases verifyCallback_cases st d id verifyOk certAuthenticated with heq | ⟨hmem, hj, hc, hv⟩
  · rw [heq]
    exact hd
  · refine hd.of_queues (Rules.keepsObjs_of_moves h) (Rules.advances_of_moves h) (fun x hx => hj ▸ hx)
      (fun e he => .inl (List.mem_of_mem_erase (hc ▸ he))) (fun b hb => ?_)
    -- an old vote, or the one emitted for the callback's proposal
    rcases hv with hv | hv <;> rw [hv] at hb
    · exact .inl hb
    · rcases List.mem_append.mp hb with hb | hb
      · exact .inl hb
      · exact .inr ⟨(id, verifyOk), hmem, List.mem_singleton.mp hb⟩

end Metered

end Driver

namespace Driver

theorem Metered.step {d : Driver} (hd : d.Metered) (hinv : d.rules.Inv) (st : Store) (ev : Event) :
    (d.step st ev).Metered := by
  have hll : ∀ b, st.latestLocked = some b → True := fun _ _ => trivial
  cases ev with
  | consensusUpdate lock commit => exact hd.moves (moves_onConsensusUpdate hll d lock commit fun _ _ => trivial)
  | proposalMsg b lastCert clock packetOk cookie =>
    exact hd.moves (moves_handleProposalMsg hll d b lastCert clock packetOk cookie)
  | verifyJob id sigOk verifyOk => exact hd.verifyJob id sigOk verifyOk
  | verifyCallback id verifyOk certAuth => exact hd.verifyCallback st id verifyOk certAuth
  | newBlockFire b => exact hd.moves (moves_onNewBlockFire hll d hinv b)
  | clockFire clock => exact hd.rules (moves_step hll d hinv (.clockFire clock) fun _ _ => trivial)
  | viewFire viewid => exact hd.rules (moves_step hll d hinv (.viewFire viewid) fun _ _ => trivial)
  | proposalStart lock commit cert =>
    exact hd.moves (moves_onProposalStart hll d lock commit cert fun _ _ => trivial)

end Driver

namespace Replica

theorem metered_step (st : Store) (r : Replica) (hr : r.driver.rules.Inv) (hm : r.driver.Metered)
    (ev : ReplicaEvent) : (r.step st ev).driver.Metered := by
  have hll : ∀ b, st.latestLocked = some b → True := fun _ _ => trivial
  cases ev with
  | driver ev => exact hm.step hr st ev
  | commitMsg m packetOk ready fromLeader => exact hm.moves (moves_handleCommitMsg hll r m packetOk ready fromLeader)
  | verifyCommitJob id c sigOk => exact (driver_verifyCommitJob r id c sigOk).symm ▸ hm
  | afterVerifyCommitJob id c => exact hm.moves (moves_afterVerifyCommitJob hll r hr id c)

theorem metered_run (st : Store) (events : List ReplicaEvent) (r : Replica) (hr : r.driver.rules.Inv)
    (hm : r.driver.Metered) : (r.run st events).driver.Metered := by
  have hll : ∀ b, st.latestLocked = some b → True := fun _ _ => trivial
  -- the rules' invariant goes along, for the ids `on_new_block_fire` reads
  induction events generalizing r with
  | nil => exact hm
  | cons ev rest ih =>
    exact ih _ (Rules.inv_of_moves (moves_step hll r hr ev fun _ _ => trivial) hr) (metered_step st r hr hm ev)

end Replica

/-- After a replica has voted for a block `b`, over any interleaving of its events,
`safe_precheck_for_voting` lets a new proposal object through only if its block is above
`b` in view id and not below it in height: the voted metric covers every vote. -/
theorem precheck_above_votes (st : Store) (events : List ReplicaEvent) (p : Proposal) :
    ∀ b ∈ (Replica.empty.run st events).driver.votes,
      (((Replica.empty.run st events).driver.rules.newObj p).safePrecheckForVoting st
        (Replica.empty.run st events).driver.rules.objs.length).2 = true →
      b.viewid < p.block.viewid ∧ b.height ≤ p.block.height := by
  intro b hb hpre
  have hreach := (Replica.metered_run st events .empty Rules.inv_empty Driver.metered_empty).votes b hb
  -- the new object is the proposal, and creating it leaves the metric
  obtain ⟨hv, hh⟩ := Rules.above_of_safePrecheckForVoting hpre
  rw [Rules.obj_newObj_self] at hv hh
  exact ⟨UInt64.lt_of_le_of_lt hreach.2 hv, UInt64.le_trans hreach.1 hh⟩

/-- The proposal object of a message for view three, on `linkedProposal`. -/
def nextProposal : Proposal :=
  Driver.proposalOfMsg ⟨3, 3, 0, 0, "", "P", "r", "rQ", 0, "A", false, false, false, true⟩ 2 0

theorem precheck_above_votes_voteRun :
    linkedProposal.viewid < nextProposal.block.viewid ∧ linkedProposal.height ≤ nextProposal.block.height :=
  precheck_above_votes ⟨none, fun _ _ => none⟩ voteRun nextProposal linkedProposal (by decide) (by decide)

end Bft
end TopChain

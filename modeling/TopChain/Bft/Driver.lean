import TopChain.Bft.Rules

/-!
# The voting replica of xBFT

`xBFTdriver_t` runs the rules of `Rules` on the events a replica receives.  A
proposal message is checked (`safe_precheck_for_voting`), added (`add_proposal`) and,
once the blocks it builds on are at hand (`sync_for_proposal`), voted for
(`vote_for_proposal`): the proposal is enabled, the voted height and view id are raised,
and its verification is sent to a worker thread.  The worker checks the proposal's
flags and the leader's signature and dispatches a callback to the replica's thread;
the callback runs `safe_finalcheck_for_voting` and, if it passes, emits the vote.

The model keeps the two asynchronous stages as queues: `jobs` of proposals waiting for
a worker and `callbacks` of verified proposals waiting for the replica's thread, so a
run can interleave their completions with any other event.  What the network and the
signature layer decide (the parts of a packet the rules do not read, the leader's
signature and `verify_proposal`) is an argument of the event.  The emitted votes are
the list `votes`, in emission order.

## Main definitions

* `Driver`, `Event`, `Driver.step`, `Driver.run`.
-/

namespace TopChain
namespace Bft

/-- The replica: the rules, the two queues of the asynchronous verification and the
blocks of the votes emitted. -/
structure Driver where
  rules : Rules
  jobs : List ℕ
  callbacks : List (ℕ × Bool)
  votes : List Block
  deriving DecidableEq, Repr

namespace Driver

/-- A replica that has not run yet. -/
def empty : Driver := ⟨.empty, [], [], []⟩

/-- The result of `sync_for_proposal`. -/
inductive SyncResult where
  | successful
  | needData
  | asyncBack
  deriving DecidableEq, Repr

/-- `find_cert_block(height, hash)`. -/
def findCertBlock (s : Rules) (height : UInt64) (hash : String) : Option Block :=
  (s.certs.find? fun e => e.2.height == height && e.2.blockHash == hash).map Prod.snd

/-- The last step of `sync_for_proposal`: with a lock above height one, the commit must
be its parent, or the parent must be a local certificate. -/
def syncCommit (st : Store) (s : Rules) (l : Block) : Rules × SyncResult :=
  if l.height > 1 then
    let (s, c) := s.getCommitBlock st
    let missing := match c with
      | none => true
      | some c => l.height != c.height + 1
    if missing && (findCertBlock s (l.height - 1) l.lastBlockHash).isNone then (s, .needData)
    else (s, .successful)
  else (s, .successful)

/-- `sync_for_proposal`: a proposal more than one above the lock needs its parent
certificate (or the proposal it certifies, which is then verified asynchronously), and
one more than two above needs its grandparent certificate too. -/
def syncForProposal (st : Store) (s : Rules) (id : ℕ) : Rules × SyncResult :=
  let p := s.obj id
  let (s, l) := s.getLockBlock st
  match l with
  | none => (s, .needData)
  | some l =>
    if p.block.height > l.height + 1 then
      match findCertBlock s (p.block.height - 1) p.block.lastBlockHash with
      | none =>
        -- the proposal of the parent certificate, if it is at hand, is verified
        match s.proposals.lookup p.lastBlockCertViewid with
        | some _ => (s, .asyncBack)
        | none => (s, .needData)
      | some prev =>
        if p.block.height ≠ l.height + 2
            ∧ (findCertBlock s (prev.height - 1) prev.lastBlockHash).isNone then (s, .needData)
        else syncCommit st s l
    else syncCommit st s l

/-- `vote_for_proposal`: a proposal that is not disabled, not already being verified or
voted, and not yet certified is enabled, raises the voted height and view id, and goes
to a worker. -/
def voteForProposal (d : Driver) (id : ℕ) : Driver :=
  let p := d.rules.obj id
  if p.isVoteDisable || p.isVoteEnable || p.voted || p.block.authenticated then d
  else
    let s := (d.rules.modifyObj id fun p => { p with allowVote := .enable }).updateVotedMetric p.block
    { d with rules := s, jobs := d.jobs ++ [id] }

/-- The proposal object a replica builds from a proposal message: the block with its
flags cleared, the view id of the parent certificate the message carries, and the clock
of its clock certificate. -/
def proposalOfMsg (b : Block) (lastBlockCertViewid clockCertClock : UInt64) : Proposal :=
  ⟨{ b with locked := false, authenticated := false }, lastBlockCertViewid, clockCertClock,
    .unknown, false, false, false, false, false⟩

/-- `handle_proposal_msg`.  `packetOk` is what the rules do not read of the packet: it
deserializes, carries a clock certificate, is not from this replica and names it as a
validator or auditor, and its block matches its header.  `cookie` is the view id the
replica is at. -/
def handleProposalMsg (st : Store) (d : Driver) (b : Block) (lastBlockCertViewid clockCertClock : UInt64)
    (packetOk : Bool) (cookie : UInt64) : Driver :=
  let (s, l) := d.rules.getLockBlock st
  let d := { d with rules := s }
  match l with
  | none => d
  | some l =>
    if b.chainid ≠ l.chainid ∨ b.account ≠ l.account ∨ !packetOk then d
    -- a proposal or certificate of this view id is already known
    else if (s.proposals.lookup b.viewid).isSome ∨ (s.certs.any fun e => e.2.viewid == b.viewid) then d
    else
      let id := s.objs.length
      let s := s.newObj (proposalOfMsg b lastBlockCertViewid clockCertClock)
      -- the view check, then `safe_precheck_for_voting`, then `add_proposal`
      let (s, ok) :=
        if cookie ≠ b.viewid then (s, false)
        else
          let (s, pre) := s.safePrecheckForVoting st id
          if !pre then (s, false) else s.addProposalObj st id
      let s := if ok then s else s.modifyObj id Proposal.disableVote
      -- an old parent certificate is refused after the fact
      let ok := ok && !(match s.latestCert with
        | some c => lastBlockCertViewid < c.viewid
        | none => false)
      let (s, sync) := syncForProposal st s id
      let d := { d with rules := s }
      if sync = .successful ∧ ok then d.voteForProposal id else d

/-- The verification job of a worker: a proposal disabled, voted or certified meanwhile
is dropped; otherwise, if the leader's signature holds (`sigOk`), the result of
`verify_proposal` (`verifyOk`) goes back to the replica's thread. -/
def verifyJob (d : Driver) (id : ℕ) (sigOk verifyOk : Bool) : Driver :=
  if id ∈ d.jobs then
    let d := { d with jobs := d.jobs.erase id }
    let p := d.rules.obj id
    if p.isVoteDisable || p.voted || p.certed || p.block.authenticated || !sigOk then d
    else { d with callbacks := d.callbacks ++ [(id, verifyOk)] }
  else d

/-- The callback of a verification on the replica's thread: a verified proposal that
passes `safe_finalcheck_for_voting` is marked voted and its vote is emitted, and its
parent certificate, if authenticated, is passed to `on_cert_verified`; any other
proposal is disabled. -/
def verifyCallback (st : Store) (d : Driver) (id : ℕ) (verifyOk certAuthenticated : Bool) : Driver :=
  if (id, verifyOk) ∈ d.callbacks then
    let d := { d with callbacks := d.callbacks.erase (id, verifyOk) }
    if verifyOk then
      let (s, ok) := d.rules.safeFinalcheckForVoting st id
      if ok then
        let s := s.modifyObj id fun p => { p with voted := true }
        let p := s.obj id
        let s := if certAuthenticated then s.onCertVerified p.lastBlockCertViewid else s
        { d with rules := s, votes := d.votes ++ [p.block] }
      else { d with rules := s.modifyObj id Proposal.disableVote }
    else { d with rules := d.rules.modifyObj id Proposal.disableVote }
  else d

/-- `on_consensus_update`: the lock and the commit handed down by the context. -/
def onConsensusUpdate (st : Store) (d : Driver) (lock commit : Option Block) : Driver :=
  let s := match lock with
    | some l => (d.rules.setLockBlock l).1
    | none => d.rules
  { d with rules := (s.setCommitBlock st commit).1 }

/-- `on_proposal_start` of a replica, without a proposal of its own: the lock (the commit
if there is no lock), the commit and the latest certificate handed down by the context.
The leader's branch, which adds its own proposal already voted, is not modelled. -/
def onProposalStart (st : Store) (d : Driver) (lock commit cert : Option Block) : Driver :=
  let s := match lock.or commit with
    | some l => (d.rules.setLockBlock l).1
    | none => d.rules
  let s := (s.setCommitBlock st commit).1
  let s := match cert with
    | some c => (s.addCertBlock st c).1
    | none => s
  { d with rules := s }

/-- `on_new_block_fire`: each proposal up to three above the new block that is not voted,
disabled, from this replica's own leadership or certified, and not being verified, is
voted for once its blocks are at hand. -/
def onNewBlockFire (st : Store) (d : Driver) (b : Block) : Driver :=
  d.rules.proposals.foldl (fun d e =>
    let p := d.rules.obj e.2
    if p.block.height > b.height ∧ p.block.height - b.height ≤ 3 ∧ !p.voted ∧ !p.isVoteDisable
        ∧ !p.leader ∧ !p.block.authenticated ∧ !p.isVoteEnable then
      let (s, sync) := syncForProposal st d.rules e.2
      let d := { d with rules := s }
      if sync = .successful then d.voteForProposal e.2 else d
    else d) d

/-- The events of a replica.  The lock and commit of a consensus update and of a proposal
start are those the context in front of the driver hands down (`Context.step`); here
they are any blocks, and `Stack` puts the context in front. -/
inductive Event where
  | consensusUpdate (lock commit : Option Block)
  | proposalMsg (b : Block) (lastBlockCertViewid clockCertClock : UInt64) (packetOk : Bool)
      (cookie : UInt64)
  | verifyJob (id : ℕ) (sigOk verifyOk : Bool)
  | verifyCallback (id : ℕ) (verifyOk certAuthenticated : Bool)
  | newBlockFire (b : Block)
  | clockFire (clock : UInt64)
  | viewFire (viewid : UInt64)
  | proposalStart (lock commit cert : Option Block)
  deriving DecidableEq, Repr

/-- One event, against the block store as it is then. -/
def step (st : Store) (d : Driver) : Event → Driver
  | .consensusUpdate lock commit => d.onConsensusUpdate st lock commit
  | .proposalMsg b lastCert clock packetOk cookie =>
    d.handleProposalMsg st b lastCert clock packetOk cookie
  | .verifyJob id sigOk verifyOk => d.verifyJob id sigOk verifyOk
  | .verifyCallback id verifyOk certAuth => d.verifyCallback st id verifyOk certAuth
  | .newBlockFire b => d.onNewBlockFire st b
  | .clockFire clock =>
    { d with rules := ({ d.rules with latestClock := max d.rules.latestClock clock }).expireProposals st }
  | .viewFire viewid =>
    { d with rules := ({ d.rules with latestViewid := max d.rules.latestViewid viewid }).expireProposals st }
  | .proposalStart lock commit cert => d.onProposalStart st lock commit cert

/-- A run of events against one block store. -/
def run (st : Store) (d : Driver) (events : List Event) : Driver := events.foldl (step st) d

/-! ### Which events emit votes -/

@[simp] theorem votes_voteForProposal (d : Driver) (id : ℕ) : (d.voteForProposal id).votes = d.votes := by
  unfold voteForProposal
  dsimp only
  split_ifs <;> rfl

theorem votes_ite_voteForProposal (c : Prop) [Decidable c] (d : Driver) (id : ℕ) :
    (if c then d.voteForProposal id else d).votes = d.votes := by
  split_ifs <;> simp

theorem votes_handleProposalMsg (st : Store) (d : Driver) (b : Block) (lc cc : UInt64) (ok : Bool)
    (cookie : UInt64) : (d.handleProposalMsg st b lc cc ok cookie).votes = d.votes := by
  unfold handleProposalMsg
  -- every branch either stops with the rules updated or votes, which emits nothing yet
  dsimp only
  split
  · rfl
  · split
    · rfl
    · split
      · rfl
      · exact votes_ite_voteForProposal _ _ _

theorem votes_verifyJob (d : Driver) (id : ℕ) (sigOk verifyOk : Bool) :
    (d.verifyJob id sigOk verifyOk).votes = d.votes := by
  unfold verifyJob
  dsimp only
  split_ifs <;> rfl

theorem votes_onNewBlockFire (st : Store) (d : Driver) (b : Block) :
    (d.onNewBlockFire st b).votes = d.votes := by
  unfold onNewBlockFire
  generalize d.rules.proposals = ps
  induction ps generalizing d with
  | nil => rfl
  | cons e rest ih =>
    rw [List.foldl_cons, ih]
    dsimp only
    split
    · exact votes_ite_voteForProposal _ _ _
    · rfl

/-- What one step does to the votes: none is emitted, or one, for a block above the
lock the step leaves, in height and in view id. -/
def VotesAboveLock (d d' : Driver) : Prop :=
  d'.votes = d.votes ∨ ∃ b l, d'.votes = d.votes ++ [b] ∧ d'.rules.lock = some l ∧
    l.height < b.height ∧ l.viewid < b.viewid

theorem votesAboveLock_verifyCallback (st : Store) (d : Driver) (id : ℕ) (verifyOk certAuthenticated : Bool) :
    VotesAboveLock d (d.verifyCallback st id verifyOk certAuthenticated) := by
  unfold verifyCallback
  dsimp only
  split_ifs with hmem hok hfin hca
  all_goals try (left; rfl)
  -- the two cases of an emitted vote, with and without `on_cert_verified`, which keeps the lock
  all_goals
    obtain ⟨l, hl, hh, hv⟩ := Rules.lock_of_safeFinalcheckForVoting hfin
    have hb : (((d.rules.safeFinalcheckForVoting st id).1.modifyObj id
        fun p => { p with voted := true }).obj id).block = (d.rules.obj id).block := by
      rw [Rules.block_obj_modifyObj (f := fun p => { p with voted := true }) _ _ _ fun _ => rfl,
        Rules.obj_safeFinalcheckForVoting]
    right
    refine ⟨_, l, rfl, ?_, by rw [hb]; exact hh, by rw [hb]; exact hv⟩
  · rw [Rules.lock_onCertVerified, Rules.lock_modifyObj, hl]
  · rw [Rules.lock_modifyObj, hl]


/-- Only the callback of a verification emits a vote, and it votes above its lock. -/
theorem votesAboveLock_step (st : Store) (d : Driver) (ev : Event) : VotesAboveLock d (d.step st ev) := by
  cases ev with
  | consensusUpdate lock commit => exact Or.inl rfl
  | proposalMsg b lastCert clock packetOk cookie => exact Or.inl (votes_handleProposalMsg ..)
  | verifyJob id sigOk verifyOk => exact Or.inl (votes_verifyJob ..)
  | verifyCallback id verifyOk certAuth => exact votesAboveLock_verifyCallback ..
  | newBlockFire b => exact Or.inl (votes_onNewBlockFire ..)
  | clockFire clock => exact Or.inl rfl
  | viewFire viewid => exact Or.inl rfl
  | proposalStart lock commit cert => exact Or.inl rfl

end Driver

end Bft
end TopChain

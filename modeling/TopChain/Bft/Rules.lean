import TopChain.Lib.SortedMap

/-!
# The safety rules of an xBFT replica

`xBFTRules` keeps, for one account, the latest committed and locked blocks, the
certified blocks and the proposals by view id, and the height and view id of the
latest proposal the replica voted for.  Its mutators decide which proposals and
certificates survive a new lock, a new proposal or a new certificate; its checks
decide whether a proposal may be voted for.

A block is read through the fields these rules compare: height, view id, view token,
clock, the block hash and the hashes it links to, chain id and account, the `locked`
and `authenticated` flags and whether it is delivered (`is_deliver(false)`) and well
formed (`is_valid(true)` with its input ready).  A proposal object (`xproposal_t`) has
an identity: the replica's asynchronous verification keeps a pointer to it after it
leaves the map, and the flags set on it later are seen there.  So proposal objects
live in a table `objs` and the map of proposals holds their indices.

The block store is an oracle `Store`: the latest locked block it would hand to
`get_lock_block`, and the block it loads for a height and hash.  A pointer compare of
two blocks is modelled as equality of their fields.  Where the source dereferences a
null lock block the model refuses the operation.

## Main definitions

* `Block`, `Proposal`, `Rules`, `Store`.
* `Rules.setLockBlock`, `Rules.setCommitBlock`, `Rules.getLockBlock`,
  `Rules.getCommitBlock`, `Rules.addProposalObj`, `Rules.addCertBlock`,
  `Rules.onCertVerified`, `Rules.removeCertBlock` — the mutators.
* `Rules.safePrecheckForVoting`, `Rules.safeFinalcheckForVoting` — the vote checks.
-/

namespace TopChain
namespace Bft

/-- What the rules read of an `xvblock_t`. -/
structure Block where
  height : UInt64
  viewid : UInt64
  viewtoken : UInt32
  clock : UInt64
  blockHash : String
  lastBlockHash : String
  justifyCertHash : String
  inputRootHash : String
  chainid : UInt32
  account : String
  locked : Bool
  authenticated : Bool
  deliver : Bool
  valid : Bool
  deriving DecidableEq, Repr, Inhabited

/-- `get_block_flags() == 0`, for the two flags modelled. -/
def Block.flagsClear (b : Block) : Bool := !b.locked && !b.authenticated

/-- `m_allow_vote`: unknown, enabled or disabled. -/
inductive AllowVote where
  | unknown
  | enable
  | disable
  deriving DecidableEq, Repr, Inhabited

/-- An `xproposal_t`: the block, the view id of the certificate of its parent, the clock
of the clock certificate it is bound to, and its flags. -/
structure Proposal where
  block : Block
  lastBlockCertViewid : UInt64
  clockCertClock : UInt64
  allowVote : AllowVote
  voted : Bool
  certed : Bool
  expired : Bool
  pending : Bool
  leader : Bool
  deriving DecidableEq, Repr, Inhabited

namespace Proposal

/-- `disable_vote`. -/
def disableVote (p : Proposal) : Proposal := { p with allowVote := .disable }

/-- `mark_expired`. -/
def markExpired (p : Proposal) : Proposal := { p with expired := true }

/-- `mark_pending`. -/
def markPending (p : Proposal) : Proposal := { p with pending := true }

/-- `mark_certed`. -/
def markCerted (p : Proposal) : Proposal := { p with certed := true }

/-- `is_vote_disable`. -/
def isVoteDisable (p : Proposal) : Bool := p.allowVote == .disable

/-- `is_vote_enable`. -/
def isVoteEnable (p : Proposal) : Bool := p.allowVote == .enable

@[simp] theorem disableVote_block (p : Proposal) : p.disableVote.block = p.block := rfl
@[simp] theorem markExpired_block (p : Proposal) : p.markExpired.block = p.block := rfl
@[simp] theorem markPending_block (p : Proposal) : p.markPending.block = p.block := rfl
@[simp] theorem markCerted_block (p : Proposal) : p.markCerted.block = p.block := rfl

end Proposal

/-- The block store, as far as the rules load from it. -/
structure Store where
  latestLocked : Option Block
  load : UInt64 → String → Option Block

/-- The state of `xBFTRules`. -/
structure Rules where
  commit : Option Block
  lock : Option Block
  certs : List (UInt64 × Block)
  proposals : List (UInt64 × ℕ)
  objs : List Proposal
  votedHeight : UInt64
  votedViewid : UInt64
  latestViewid : UInt64
  latestClock : UInt64
  deriving DecidableEq, Repr

namespace Rules

/-- A freshly constructed `xBFTRules`. -/
def empty : Rules := ⟨none, none, [], [], [], 0, 0, 0, 0⟩

/-- The proposal object of an index. -/
def obj (s : Rules) (id : ℕ) : Proposal := s.objs.getD id default

/-- Change the proposal object of an index in place. -/
def modifyObj (s : Rules) (id : ℕ) (f : Proposal → Proposal) : Rules :=
  { s with objs := s.objs.set id (f (s.obj id)) }

/-- Changing a proposal's flags leaves every block where it was. -/
theorem block_obj_modifyObj (s : Rules) (i j : ℕ) {f : Proposal → Proposal}
    (hf : ∀ p, (f p).block = p.block) : ((s.modifyObj i f).obj j).block = (s.obj j).block := by
  unfold modifyObj obj
  simp only [List.getD_eq_getElem?_getD, List.getElem?_set]
  split_ifs with hij hlt
  · subst hij
    simp only [Option.getD_some]
    rw [hf, List.getElem?_eq_getElem hlt, Option.getD_some]
  · -- past the end nothing is set, and both sides read the default
    subst hij
    rw [List.getElem?_eq_none (by omega)]
  · rfl

/-- Create a proposal object; its index is the number of objects before. -/
def newObj (s : Rules) (p : Proposal) : Rules := { s with objs := s.objs ++ [p] }

/-- `get_latest_cert_block`: the certified block of the highest view id. -/
def latestCert (s : Rules) : Option Block := (s.certs.getLast?).map Prod.snd

/-- `get_latest_proposal_block`. -/
def latestProposal (s : Rules) : Option Block :=
  (s.proposals.getLast?).map fun e => (s.obj e.2).block

/-! ### The lock and the commit -/

/-- `safe_check_for_lock_block`: a new lock must pass the old one in height and view id,
and be delivered. -/
def safeCheckForLockBlock (s : Rules) (b : Block) : Bool :=
  (match s.lock with
    | some l => !(b.height ≤ l.height || b.viewid ≤ l.viewid)
    | none => true) && b.deliver

/-- What `set_lock_block` keeps of the certificates and proposals under a new lock `l`:
blocks past it in height and view id, of its chain and account, and linked to it at the
next height. -/
def followsLock (l b : Block) : Bool :=
  !(b.height ≤ l.height || b.viewid ≤ l.viewid || b.chainid != l.chainid || b.account != l.account)
    && !(b.height == l.height + 1 && b.lastBlockHash != l.blockHash)

/-- The update of `set_lock_block` once the new lock passed its check: the commit is
reset, the voted height and view id are raised, and the certificates and proposals
that do not follow the new lock are dropped.  The proposals dropped are not disabled. -/
def installLock (s : Rules) (b : Block) : Rules :=
  { s with
    lock := some b
    commit := none
    votedHeight := max s.votedHeight b.height
    votedViewid := max s.votedViewid b.viewid
    certs := s.certs.filter fun e => followsLock b e.2
    proposals := s.proposals.filter fun e => followsLock b (s.obj e.2).block }

/-- `set_lock_block`.  A block of the lock's height and view id with the `locked` flag
replaces the lock as it is, without the check and without resetting the commit. -/
def setLockBlock (s : Rules) (b : Block) : Rules × Bool :=
  match s.lock with
  | some l =>
    if l = b then (s, true)
    else if l.height = b.height ∧ l.viewid = b.viewid ∧ b.locked = true then
      ({ s with lock := some b }, true)
    else if s.safeCheckForLockBlock b then (s.installLock b, true)
    else (s, false)
  | none => if s.safeCheckForLockBlock b then (s.installLock b, true) else (s, false)

/-- `get_lock_block`: the lock, or the store's latest locked block installed by
`set_lock_block`. -/
def getLockBlock (st : Store) (s : Rules) : Rules × Option Block :=
  match s.lock with
  | some l => (s, some l)
  | none =>
    match st.latestLocked with
    | some b =>
      let s := (s.setLockBlock b).1
      (s, s.lock)
    | none => (s, none)

/-- `get_commit_block`: the commit, or the parent of the lock loaded from the store by
its height and hash; the lock stands in when there is no commit. -/
def getCommitBlock (st : Store) (s : Rules) : Rules × Option Block :=
  match s.commit with
  | some c => (s, some c)
  | none =>
    let (s, lock) := s.getLockBlock st
    match lock with
    | none => (s, none)
    | some l =>
      let s :=
        if l.height > 0 then
          match st.load (l.height - 1) l.lastBlockHash with
          | some c => { s with commit := some c }
          | none => s
        else s
      (s, s.commit.or (some l))

/-- `set_commit_block`: a new commit passes the old one in height and view id, and is
the parent of a lock of non-zero height. -/
def setCommitBlock (st : Store) (s : Rules) (b : Option Block) : Rules × Bool :=
  match b with
  | none => (s, false)
  | some b =>
    if s.commit = some b then (s, true)
    else if (match s.commit with
        | some c => b.height ≤ c.height || b.viewid ≤ c.viewid
        | none => false) then (s, false)
    else
      let (s, lock) := s.getLockBlock st
      match lock with
      | none => (s, false)
      | some l =>
        if l.height ≠ 0 ∧ (l.height ≠ b.height + 1 ∨ l.lastBlockHash ≠ b.blockHash) then (s, false)
        else ({ s with commit := some b }, true)

/-- `update_voted_metric`. -/
def updateVotedMetric (s : Rules) (b : Block) : Rules :=
  { s with votedHeight := max s.votedHeight b.height, votedViewid := max s.votedViewid b.viewid }

/-! ### What the lock queries keep -/

/-- `get_lock_block` returns the lock of the state it leaves. -/
theorem getLockBlock_snd (st : Store) (s : Rules) : (s.getLockBlock st).2 = (s.getLockBlock st).1.lock := by
  unfold getLockBlock
  rcases hl : s.lock with _ | l
  · rcases st.latestLocked with _ | b
    · exact hl.symm
    · rfl
  · exact hl.symm

/-- With a lock in place `get_lock_block` reads it and changes nothing. -/
theorem getLockBlock_of_lock {st : Store} {s : Rules} {l : Block} (h : s.lock = some l) :
    s.getLockBlock st = (s, some l) := by
  unfold getLockBlock
  rw [h]

theorem objs_setLockBlock (s : Rules) (b : Block) : (s.setLockBlock b).1.objs = s.objs := by
  unfold setLockBlock
  split
  · split_ifs <;> rfl
  · split_ifs <;> rfl

theorem objs_getLockBlock (st : Store) (s : Rules) : (s.getLockBlock st).1.objs = s.objs := by
  unfold getLockBlock
  split
  · rfl
  · split
    · exact objs_setLockBlock s _
    · rfl

@[simp] theorem lock_modifyObj (s : Rules) (i : ℕ) (f : Proposal → Proposal) :
    (s.modifyObj i f).lock = s.lock := rfl

/-- With a lock in place `get_commit_block` at most loads the commit. -/
theorem getCommitBlock_of_lock (st : Store) {s : Rules} {l : Block} (h : s.lock = some l) :
    ∃ c, (s.getCommitBlock st).1 = { s with commit := c } := by
  unfold getCommitBlock
  rcases s.commit with _ | c
  · rw [getLockBlock_of_lock h]
    dsimp only
    split_ifs
    · rcases st.load (l.height - 1) l.lastBlockHash with _ | c
      · exact ⟨s.commit, rfl⟩
      · exact ⟨some c, rfl⟩
    · exact ⟨s.commit, rfl⟩
  · exact ⟨s.commit, rfl⟩

/-! ### Branch checks -/

/-- How a block relates to a reference block `r` of the branch, the two branch checks
alike: `1` if it links to `r` at its parent height, its height or the two above, `-1`
if it forks there, `0` if it is too far to tell. -/
def followBranch (r b : Block) : Int :=
  if b.height = r.height - 1 then (if b.blockHash ≠ r.lastBlockHash then -1 else 1)
  else if b.height = r.height then (if b.blockHash ≠ r.blockHash then -1 else 1)
  else if b.height = r.height + 1 then (if b.lastBlockHash ≠ r.blockHash then -1 else 1)
  else if b.height = r.height + 2 then (if b.justifyCertHash ≠ r.inputRootHash then -1 else 1)
  else 0

/-- `safe_check_follow_commit_branch`, against `get_commit_block`. -/
def safeCheckFollowCommitBranch (st : Store) (s : Rules) (b : Block) : Rules × Int :=
  let (s, c) := s.getCommitBlock st
  match c with
  | some c => (s, followBranch c b)
  | none => (s, 0)

/-- `safe_check_follow_locked_branch`, against `get_lock_block`. -/
def safeCheckFollowLockedBranch (st : Store) (s : Rules) (b : Block) : Rules × Int :=
  let (s, l) := s.getLockBlock st
  match l with
  | some l => (s, followBranch l b)
  | none => (s, -1)

/-- With a lock in place the locked-branch check compares with it and changes nothing. -/
theorem safeCheckFollowLockedBranch_of_lock {st : Store} {s : Rules} {l : Block} (b : Block)
    (h : s.lock = some l) : s.safeCheckFollowLockedBranch st b = (s, followBranch l b) := by
  unfold safeCheckFollowLockedBranch
  rw [getLockBlock_of_lock h]

theorem fst_safeCheckFollowCommitBranch (st : Store) (s : Rules) (b : Block) :
    (s.safeCheckFollowCommitBranch st b).1 = (s.getCommitBlock st).1 := by
  unfold safeCheckFollowCommitBranch
  rcases s.getCommitBlock st with ⟨s', _ | c⟩ <;> rfl

theorem fst_safeCheckFollowLockedBranch (st : Store) (s : Rules) (b : Block) :
    (s.safeCheckFollowLockedBranch st b).1 = (s.getLockBlock st).1 := by
  unfold safeCheckFollowLockedBranch
  rcases s.getLockBlock st with ⟨s', _ | l⟩ <;> rfl

/-! ### Proposals and certificates -/

/-- Rule #1 of `add_proposal`: a proposal conflicts with a certificate it does not pass,
one of its height, or one of the height below that has a higher view id than the
proposal's parent certificate. -/
def certConflict (p : Proposal) (c : Block) : Bool :=
  p.block.height < c.height || p.block.viewid ≤ c.viewid || p.block.height == c.height
    || (p.block.height == c.height + 1 && p.lastBlockCertViewid < c.viewid)

/-- Rule #2 of `add_proposal`: a proposal conflicts with a proposal `q` it does not pass,
one of its height whose clock has not run three past or whose parent certificate is
higher, and one of the height below it does not point at whose clock has not run. -/
def proposalConflict (p q : Proposal) : Bool :=
  p.block.height < q.block.height || p.block.viewid ≤ q.block.viewid
    || (p.block.height == q.block.height
        && (p.clockCertClock < q.clockCertClock + 3 || p.lastBlockCertViewid < q.lastBlockCertViewid))
    || (p.block.height == q.block.height + 1 && p.lastBlockCertViewid != q.block.viewid
        && p.clockCertClock < q.clockCertClock + 3)

/-- Rule #5 of `add_proposal` for one existing proposal: every one is disabled; one of
the new proposal's height is also marked expired (and dropped from the map), the others
pending. -/
def retireProposal (height : UInt64) (s : Rules) (id : ℕ) : Rules :=
  if (s.obj id).block.height = height then s.modifyObj id fun p => p.disableVote.markExpired
  else s.modifyObj id fun p => p.disableVote.markPending

/-- `add_proposal` of the proposal object `id`. -/
def addProposalObj (st : Store) (s : Rules) (id : ℕ) : Rules × Bool :=
  let p := s.obj id
  let (s, lock) := s.getLockBlock st
  match lock with
  | none => (s, false)
  | some l =>
    if p.block.height ≤ l.height ∨ p.block.viewid ≤ l.viewid then (s, false)
    else if s.certs.any (fun e => certConflict p e.2) then (s, false)
    else if s.proposals.any (fun e => proposalConflict p (s.obj e.2)) then (s, false)
    else
      let (s, r3) := s.safeCheckFollowCommitBranch st p.block
      if r3 < 0 then (s, false)
      else
        let (s, r4) := s.safeCheckFollowLockedBranch st p.block
        if r4 < 0 then (s, false)
        else
          let s := s.proposals.foldl (fun s e => retireProposal p.block.height s e.2) s
          let s := { s with
            proposals := upsert (fun _ => id)
              (s.proposals.filter fun e => (s.obj e.2).block.height ≠ p.block.height) p.block.viewid }
          -- rule #6: certificates of the same height and a lower view id go
          ({ s with certs := s.certs.filter fun e =>
              !(e.2.height == p.block.height && e.2.viewid < p.block.viewid) }, true)

/-- `on_cert_verified`: proposals whose parent certificate is older than the new one are
disabled. -/
def onCertVerified (s : Rules) (certViewid : UInt64) : Rules :=
  s.proposals.foldl (fun s e =>
    if (s.obj e.2).lastBlockCertViewid < certViewid ∧ !(s.obj e.2).isVoteDisable then
      s.modifyObj e.2 Proposal.disableVote
    else s) s

theorem lock_onCertVerified (s : Rules) (certViewid : UInt64) :
    (s.onCertVerified certViewid).lock = s.lock := by
  unfold onCertVerified
  generalize s.proposals = ps
  induction ps generalizing s with
  | nil => rfl
  | cons e rest ih =>
    rw [List.foldl_cons, ih]
    split_ifs <;> rfl

/-- Rule #3 of `add_cert_block` for one proposal `q` still in play: it must not point at
another block of the certificate's height, its justification must match two below, and
it must not have a higher view id at the same height. -/
def certRefused (b : Block) (q : Proposal) : Bool :=
  (!q.pending || !q.isVoteDisable)
    && ((q.block.height == b.height + 1 && q.block.lastBlockHash != b.blockHash)
      || (q.block.height == b.height + 2 && q.block.justifyCertHash != b.inputRootHash)
      || (b.height == q.block.height && b.viewid < q.block.viewid))

/-- Rule #6 of `add_cert_block` for one proposal: the one the certificate certifies is
marked certified; those of its height and no higher view id are disabled (and dropped
from the map), those below are disabled and pending. -/
def settleProposal (b : Block) (s : Rules) (id : ℕ) : Rules :=
  let q := (s.obj id).block
  let s := if q.height = b.height ∧ q.viewid = b.viewid ∧ q.viewtoken = b.viewtoken then
      s.modifyObj id Proposal.markCerted else s
  if q.height = b.height then
    (if q.viewid ≤ b.viewid then s.modifyObj id Proposal.disableVote else s)
  else if q.height < b.height then s.modifyObj id fun p => p.disableVote.markPending
  else s

/-- `add_cert_block`; the second result is `found_matched_proposal`. -/
def addCertBlock (st : Store) (s : Rules) (b : Block) : Rules × Bool × Bool :=
  let (s, r1) := s.safeCheckFollowCommitBranch st b
  if r1 < 0 then (s, false, false)
  else
    let (s, r2) := s.safeCheckFollowLockedBranch st b
    if r2 < 0 then (s, false, false)
    else if s.proposals.any (fun e => certRefused b (s.obj e.2)) then (s, false, false)
    else
      -- `emplace` keeps an existing certificate of the same view id
      let certs := if (s.certs.lookup b.viewid).isSome then s.certs
        else upsert (fun _ => b) s.certs b.viewid
      let found := s.proposals.any fun e =>
        (s.obj e.2).block.height == b.height && (s.obj e.2).block.viewid == b.viewid
          && (s.obj e.2).block.viewtoken == b.viewtoken
      let s := s.proposals.foldl (fun s e => settleProposal b s e.2) { s with certs := certs }
      ({ s with proposals := s.proposals.filter fun e =>
          !((s.obj e.2).block.height == b.height && (s.obj e.2).block.viewid ≤ b.viewid) },
        true, found)

/-- `remove_cert_block`. -/
def removeCertBlock (s : Rules) (viewid : UInt64) : Rules × Bool :=
  ({ s with certs := eraseKey s.certs viewid }, (s.certs.lookup viewid).isSome)

/-! ### Vote checks -/

/-- `safe_check_for_block`. -/
def safeCheckForBlock (st : Store) (s : Rules) (b : Block) : Rules × Bool :=
  let (s, l) := s.getLockBlock st
  match l with
  | none => (s, false)
  | some l =>
    (s, !(b.viewid < b.height || b.height ≤ l.height || b.viewid ≤ l.viewid
      || b.chainid != l.chainid || b.account != l.account))

/-- `safe_check_for_proposal_block`: a block passing `safe_check_for_block`, well formed,
without flags and without a block hash yet. -/
def safeCheckForProposalBlock (st : Store) (s : Rules) (b : Block) : Rules × Bool :=
  let (s, ok) := s.safeCheckForBlock st b
  (s, ok && b.valid && b.flagsClear && b.blockHash == "")

/-- A block behind the latest certificate or the latest proposal. -/
def behind (b : Block) : Option Block → Bool
  | some c => b.viewid ≤ c.viewid || b.height < c.height
  | none => false

/-- `safe_precheck_for_voting` of a proposal object. -/
def safePrecheckForVoting (st : Store) (s : Rules) (id : ℕ) : Rules × Bool :=
  let p := s.obj id
  if p.isVoteDisable then (s, false)
  else
    let (s, ok) := s.safeCheckForProposalBlock st p.block
    if !ok then (s, false)
    else if p.block.viewid ≤ s.votedViewid ∨ p.block.height < s.votedHeight then (s, false)
    else (s, !behind p.block s.latestCert && !behind p.block s.latestProposal)

/-- Safe rule #5: a proposal two above the lock links to a certificate that links to the
lock. -/
def linkedThroughCert (s : Rules) (l b : Block) : Bool :=
  s.certs.any fun e => b.height == e.2.height + 1 && b.lastBlockHash == e.2.blockHash
    && l.blockHash == e.2.lastBlockHash

/-- `safe_finalcheck_for_voting` of a proposal object: run again after the asynchronous
verification.  It does not look at the voted view id. -/
def safeFinalcheckForVoting (st : Store) (s : Rules) (id : ℕ) : Rules × Bool :=
  let p := s.obj id
  if !p.isVoteEnable || p.voted then (s, false)
  else
    let b := p.block
    let (s, l) := s.getLockBlock st
    match l with
    | none => (s, false)
    | some l =>
      if b.height ≤ l.height ∨ b.viewid ≤ l.viewid then (s, false)
      else if behind b s.latestCert then (s, false)
      else
        let (s, r) := s.safeCheckFollowLockedBranch st b
        if r > 0 then
          (s, if b.height = l.height + 2 then s.linkedThroughCert l b else true)
        else (s, false)

/-- `safe_finalcheck_for_voting` changes no proposal object. -/
theorem objs_safeFinalcheckForVoting (st : Store) (s : Rules) (id : ℕ) :
    (s.safeFinalcheckForVoting st id).1.objs = s.objs := by
  have hobjs := objs_getLockBlock st s
  have hsnd := getLockBlock_snd st s
  unfold safeFinalcheckForVoting
  rcases hl : s.getLockBlock st with ⟨s1, _ | l⟩ <;> rw [hl] at hobjs hsnd <;>
    dsimp only at hobjs hsnd ⊢
  · split_ifs <;> simp only [hobjs]
  · -- the branch check reads the lock just installed
    rw [safeCheckFollowLockedBranch_of_lock _ hsnd.symm]
    split_ifs <;> simp only [hobjs]

theorem obj_safeFinalcheckForVoting (st : Store) (s : Rules) (id j : ℕ) :
    (s.safeFinalcheckForVoting st id).1.obj j = s.obj j := by
  unfold obj
  rw [objs_safeFinalcheckForVoting]

/-- A proposal that passes `safe_finalcheck_for_voting` is above the lock the check
leaves in place, in height and in view id. -/
theorem lock_of_safeFinalcheckForVoting {st : Store} {s : Rules} {id : ℕ}
    (h : (s.safeFinalcheckForVoting st id).2 = true) :
    ∃ l, (s.safeFinalcheckForVoting st id).1.lock = some l ∧
      l.height < (s.obj id).block.height ∧ l.viewid < (s.obj id).block.viewid := by
  have hsnd := getLockBlock_snd st s
  unfold safeFinalcheckForVoting at h ⊢
  rcases hl : s.getLockBlock st with ⟨s1, _ | l⟩ <;> rw [hl] at h hsnd <;> dsimp only at h hsnd ⊢
  · split_ifs at h
  · rw [safeCheckFollowLockedBranch_of_lock _ hsnd.symm] at h ⊢
    dsimp only at h ⊢
    -- every rejecting branch returns false; the two accepting ones passed the lock check
    split_ifs at h ⊢ with _ hlt <;>
    · obtain ⟨hh, hv⟩ : l.height < (s.obj id).block.height ∧ l.viewid < (s.obj id).block.viewid := by
        simpa only [not_or, UInt64.not_le] using hlt
      exact ⟨l, hsnd.symm, hh, hv⟩

/-- `is_proposal_expire`: behind the commit, the lock or the latest certificate, of an
older view, or three clocks old. -/
def isProposalExpire (st : Store) (s : Rules) (id : ℕ) : Rules × Bool :=
  let p := (s.obj id).block
  let (s, c) := s.getCommitBlock st
  let (s, l) := s.getLockBlock st
  match c, l with
  | some c, some l =>
    (s, p.height ≤ c.height || p.viewid ≤ c.viewid || p.height ≤ l.height || p.viewid ≤ l.viewid
      || behind p s.latestCert || s.latestViewid > p.viewid || s.latestClock > p.clock + 2)
  | _, _ => (s, false)

theorem fst_isProposalExpire (st : Store) (s : Rules) (id : ℕ) :
    (s.isProposalExpire st id).1 = ((s.getCommitBlock st).1.getLockBlock st).1 := by
  unfold isProposalExpire
  rcases s.getCommitBlock st with ⟨s₁, c⟩
  dsimp only
  rcases s₁.getLockBlock st with ⟨s₂, l⟩
  rcases c with _ | c <;> rcases l with _ | l <;> rfl

/-- The expiry pass of `on_clock_fire` and `on_view_fire`: this replica's own proposals
that expired are marked so and disabled. -/
def expireProposals (st : Store) (s : Rules) : Rules :=
  s.proposals.foldl (fun s e =>
    let p := s.obj e.2
    if !p.expired && p.leader then
      let (s, exp) := s.isProposalExpire st e.2
      if exp then s.modifyObj e.2 fun p => p.markExpired.disableVote else s
    else s) s

/-! ### The mutators as a state machine -/

/-- The operations that change the rules' state. -/
inductive Op where
  | setLockBlock (b : Block)
  | setCommitBlock (b : Option Block)
  | addProposal (p : Proposal)
  | addCertBlock (b : Block)
  | onCertVerified (certViewid : UInt64)
  | removeCertBlock (viewid : UInt64)
  | clockFire (clock : UInt64)
  | viewFire (viewid : UInt64)
  deriving DecidableEq, Repr

/-- One operation, against the block store.  `add_proposal` receives a new proposal
object; a clock or view event raises the latest clock or view id and runs the expiry
pass. -/
def step (st : Store) (s : Rules) : Op → Rules
  | .setLockBlock b => (s.setLockBlock b).1
  | .setCommitBlock b => (s.setCommitBlock st b).1
  | .addProposal p => ((s.newObj p).addProposalObj st s.objs.length).1
  | .addCertBlock b => (s.addCertBlock st b).1
  | .onCertVerified certViewid => s.onCertVerified certViewid
  | .removeCertBlock viewid => (s.removeCertBlock viewid).1
  | .clockFire clock => ({ s with latestClock := max s.latestClock clock }).expireProposals st
  | .viewFire viewid => ({ s with latestViewid := max s.latestViewid viewid }).expireProposals st

/-- A run of operations against one block store. -/
def run (st : Store) (s : Rules) (ops : List Op) : Rules := ops.foldl (step st) s

end Rules

end Bft
end TopChain

import TopChain.Bft.Driver

/-!
# The commit path of an xBFT replica

The leader of a view ends it with a commit message: the header of its proposal, its
result code and a quorum certificate.  `handle_commit_msg` checks the message against the
certificates and proposals the replica holds.  A successful commit for a local proposal
whose certificate matches goes to a worker (`fire_verify_commit_job`), which verifies the
certificate's multi-signature and dispatches a callback to the replica's thread; the
callback merges the certificate into the proposal's block, marks it authenticated, adds
it as a certified block (`add_cert_block`) and looks again at the proposals above it
(`on_new_block_fire`).  A failed commit disables the local proposal.

`Replica` is the driver of `Driver` with the two stages of this verification as queues,
so that a run interleaves their completions with every other event of the replica.
What the network and the signature layer decide (`safe_check_for_commit_packet`, whether
the message comes from the proposal's leader, whether the proposal's block has its input
and output, and `verify_muti_sign`) is an argument of the event.  The sync requests the
path sends to a peer change no state of the replica and are not modelled; nor is the
commit job `sync_for_proposal` fires for a parent proposal.

## Main definitions

* `CommitCert`, `CommitMsg`, `CommitResult`.
* `Replica`, `Replica.handleCommitMsg`, `Replica.verifyCommitJob`,
  `Replica.afterVerifyCommitJob`, `ReplicaEvent`, `Replica.step`, `Replica.run`.
-/

namespace TopChain
namespace Bft

/-- The quorum certificate of a commit message, as `handle_commit_msg` and `merge_cert`
read it: its view id and view token, whether it is delivered (`is_deliver()`: it carries
the signatures its consensus flags ask for), and whether it equals the certificate of
the local proposal of its view id (`is_equal`, every field but the signatures). -/
structure CommitCert where
  viewid : UInt64
  viewtoken : UInt32
  deliver : Bool
  equal : Bool
  deriving DecidableEq, Repr

/-- A commit message: the header of the proposal it concludes, whether the leader's result
code is `enum_xconsensus_code_successful`, and its certificate, if `create_qcert_object`
reads one. -/
structure CommitMsg where
  height : UInt64
  viewid : UInt64
  viewtoken : UInt32
  chainid : UInt32
  account : String
  successful : Bool
  cert : Option CommitCert
  deriving DecidableEq, Repr

/-- The codes `handle_commit_msg` returns. -/
inductive CommitResult where
  | successful
  | badPacket
  | badCommit
  deriving DecidableEq, Repr

namespace Proposal

/-- What the callback of a verified commit sets on a proposal's block: the authenticated
flag, and with the merged certificate, which carries the leader's signatures, the block
is delivered. -/
def authenticate (p : Proposal) : Proposal :=
  { p with block := { p.block with authenticated := true, deliver := true } }

@[simp] theorem height_authenticate (p : Proposal) : p.authenticate.block.height = p.block.height := rfl
@[simp] theorem viewid_authenticate (p : Proposal) : p.authenticate.block.viewid = p.block.viewid := rfl

end Proposal

namespace Rules

/-- `merge_cert` of a verified commit's certificate into a proposal's block, and the
flags set after it: a block not yet authenticated takes a certificate that is delivered
and equals its own, and is marked authenticated. -/
def mergeCert (s : Rules) (id : ℕ) (c : CommitCert) : Rules :=
  if !(s.obj id).block.authenticated && c.deliver && c.equal then s.modifyObj id Proposal.authenticate
  else s

end Rules

namespace Driver

/-- `find_cert_block(view_id)`: the certified block of a view id, searched from the
latest. -/
def findCertBlockByViewid (s : Rules) (viewid : UInt64) : Option Block :=
  (s.certs.reverse.find? fun e => e.2.viewid == viewid).map Prod.snd

/-- `xproposal_t::is_valid_packet`: the packet names the proposal's block. -/
def isValidPacket (b : Block) (m : CommitMsg) : Bool :=
  !(b.height != m.height || b.chainid != m.chainid || b.viewid != m.viewid
    || b.viewtoken != m.viewtoken || b.account != m.account)

end Driver

/-- The replica with its commit path: the driver, the commit verifications waiting for a
worker and the callbacks of verified commits waiting for the replica's thread, each with
the proposal object whose block the certificate certifies. -/
structure Replica where
  driver : Driver
  commitJobs : List (ℕ × CommitCert)
  commitCallbacks : List (ℕ × CommitCert)
  deriving DecidableEq, Repr

namespace Replica

/-- A replica that has not run yet. -/
def empty : Replica := ⟨.empty, [], []⟩

/-- The replica with its rules replaced. -/
def setRules (r : Replica) (s : Rules) : Replica := { r with driver := { r.driver with rules := s } }

/-- `fire_verify_commit_job`: a block that is not well formed is refused; otherwise its
verification goes to a worker. -/
def fireVerifyCommitJob (r : Replica) (id : ℕ) (c : CommitCert) : Replica :=
  if (r.driver.rules.obj id).block.valid then { r with commitJobs := r.commitJobs ++ [(id, c)] }
  else r

/-- Steps 3 to 6 of `handle_commit_msg`, on the certificate the message carries;
`matched` is the local proposal of the packet's view id when it matches the packet. -/
def handleCommitCert (st : Store) (r : Replica) (m : CommitMsg) (matched : Option ℕ) :
    Replica × CommitResult :=
  match m.cert with
  | none => (r, .badCommit)
  | some c =>
    if !c.deliver then (r, .badCommit)
    else if m.successful then
      if c.viewid ≠ m.viewid ∨ c.viewtoken ≠ m.viewtoken then (r, .badCommit)
      else
        match matched with
        | some id => if !c.equal then (r, .badCommit) else (r.fireVerifyCommitJob id c, .successful)
        -- the certified block is requested from the peer
        | none => (r, .successful)
    else
      match matched with
      | some id => (r.setRules (r.driver.rules.modifyObj id Proposal.disableVote), .successful)
      -- a certificate past the lock is requested from the peer; without a lock, which
      -- the source dereferences, nothing is requested
      | none => (r.setRules (r.driver.rules.getLockBlock st).1, .successful)

/-- `handle_commit_msg`.  `packetOk` is `safe_check_for_commit_packet`, `ready` whether
the local proposal's block has its input and output, and `fromLeader` whether the
message comes from that proposal's leader. -/
def handleCommitMsg (st : Store) (r : Replica) (m : CommitMsg) (packetOk ready fromLeader : Bool) :
    Replica × CommitResult :=
  let s := r.driver.rules
  if !packetOk then (r, .badPacket)
  else
    match Driver.findCertBlockByViewid s m.viewid with
    | some c =>
      -- safe rule #2: one certificate per view id; a duplicate commit changes nothing
      if c.height ≠ m.height ∨ c.chainid ≠ m.chainid ∨ c.viewid ≠ m.viewid ∨ c.account ≠ m.account then
        (r, .badPacket)
      else (r, .successful)
    | none =>
      match s.proposals.lookup m.viewid with
      | some id =>
        let b := (s.obj id).block
        if b.deliver then (r, .successful)
        else
          let isMatch := Driver.isValidPacket b m && (!m.successful || ready)
          if !fromLeader then (r, .badPacket)
          else r.handleCommitCert st m (if isMatch then some id else none)
      | none => r.handleCommitCert st m none

/-- The worker's part of `fire_verify_commit_job`: a block authenticated meanwhile needs
nothing more; otherwise, if the certificate's multi-signature verifies (`sigOk`), the
callback goes back to the replica's thread. -/
def verifyCommitJob (r : Replica) (id : ℕ) (c : CommitCert) (sigOk : Bool) : Replica :=
  if (id, c) ∈ r.commitJobs then
    let r := { r with commitJobs := r.commitJobs.erase (id, c) }
    if (r.driver.rules.obj id).block.authenticated || !sigOk then r
    else { r with commitCallbacks := r.commitCallbacks ++ [(id, c)] }
  else r

/-- The callback of a verified commit on the replica's thread (`_after_verify_commit_job`):
the certificate is merged into the block (`Rules.mergeCert`); an authenticated block is
then added by `add_cert_block` and, if accepted, passed to `on_new_block_fire`. -/
def afterVerifyCommitJob (st : Store) (r : Replica) (id : ℕ) (c : CommitCert) : Replica :=
  if (id, c) ∈ r.commitCallbacks then
    let r := { r with commitCallbacks := r.commitCallbacks.erase (id, c) }
    let s := r.driver.rules.mergeCert id c
    let b := (s.obj id).block
    if b.authenticated then
      let (s, ok, _) := s.addCertBlock st b
      let d := { r.driver with rules := s }
      { r with driver := if ok then d.onNewBlockFire st b else d }
    else r.setRules s
  else r

end Replica

/-- The events of a replica with its commit path. -/
inductive ReplicaEvent where
  | driver (ev : Driver.Event)
  | commitMsg (m : CommitMsg) (packetOk ready fromLeader : Bool)
  | verifyCommitJob (id : ℕ) (c : CommitCert) (sigOk : Bool)
  | afterVerifyCommitJob (id : ℕ) (c : CommitCert)
  deriving DecidableEq, Repr

namespace Replica

/-- One event, against the block store as it is then. -/
def step (st : Store) (r : Replica) : ReplicaEvent → Replica
  | .driver ev => { r with driver := r.driver.step st ev }
  | .commitMsg m packetOk ready fromLeader => (r.handleCommitMsg st m packetOk ready fromLeader).1
  | .verifyCommitJob id c sigOk => r.verifyCommitJob id c sigOk
  | .afterVerifyCommitJob id c => r.afterVerifyCommitJob st id c

/-- A run of events against one block store. -/
def run (st : Store) (r : Replica) (events : List ReplicaEvent) : Replica := events.foldl (step st) r

@[simp] theorem run_nil (st : Store) (r : Replica) : r.run st [] = r := rfl

@[simp] theorem run_cons (st : Store) (r : Replica) (ev : ReplicaEvent) (events : List ReplicaEvent) :
    r.run st (ev :: events) = (r.step st ev).run st events := rfl

end Replica

end Bft
end TopChain

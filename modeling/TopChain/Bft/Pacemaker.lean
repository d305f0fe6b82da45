import Mathlib.Logic.Relation
import Mathlib.Data.List.Basic
import Mathlib.Algebra.GroupWithZero.Nat

/-!
# The clock-certificate pacemaker of xBFT

`xclockcert_view` keeps a replica's sense of time.  It holds the latest certificate of a
block of the global clock account and the latest certificate of a block of its own
account, and from the two it computes the view id the replica is at: one past the
certified block's view, and one more for every three clock heights the clock has run past
the certified block's clock (`update_view`).  Every change of either certificate
recomputes the view; a view id above the current one becomes current and is fired to the
driver (`fire_view`).

The view id is the cookie of every packet the pacemaker hands to the driver.  A vote
whose view id is not the current one is stopped; a packet that is not aligned and
carries certificates that could move the view has them verified on a worker first, and
is handed on afterwards.  A leader starts a proposal only at the current view and once a
clock certificate is held.

The model keeps the worker's verification as two queues, like `Replica`, so a run can
interleave its completions with every other event, and keeps the view changes fired in
`fired`, in firing order.  The block store is an oracle `CertStore`.  Of a certificate the
pacemaker reads its view id, its clock and `is_deliver()`; pointers compare as values,
and the nonce `on_proposal_start` computes from hashes is not modelled.

## Main definitions

* `ViewCert`, `CertBlock`, `CertStore`, `Packet`, `PduEvent`, `Pacemaker`.
* `Pacemaker.newViewId`, `Pacemaker.updateView`, `Pacemaker.updateClockCert`,
  `Pacemaker.updateVblockCert`, `Pacemaker.initVblock`, `Pacemaker.getLatestViewid`.
* `Pacemaker.onPduEventDown`, `Pacemaker.afterVerifyCertJob`, `Pacemaker.onProposalStart`,
  `PacemakerEvent`, `Pacemaker.step`, `Pacemaker.run`.
* `Pacemaker.Move` — the changes every handler is made of.
* `Pacemaker.Inv`, `Pacemaker.Advances`.
* `Pacemaker.handedDown`, `Pacemaker.runHandedDown` — the events handed to the driver.

## Main results

* `Pacemaker.moves_step` — each event is a sequence of moves; `Pacemaker.inv_run`,
  `Pacemaker.advances_run`, `Pacemaker.run_advances`.
* `Pacemaker.run_fired_increasing` — the view changes fired strictly increase.
* `Pacemaker.run_viewid_above_vblock`, `Pacemaker.run_proposal_start_above_vblock` — the
  view, and every proposal a leader starts, is above the certified block held.
* `Pacemaker.pdu_handed_down_aligned` — a packet handed to the driver carries the current
  view, and a vote only of that view; `Pacemaker.run_handed_down_ordered` — over a run, the
  events handed down carry non-decreasing views.
-/

namespace TopChain
namespace Bft

/-- What the pacemaker reads of an `xvqcert_t`: its view id, its clock height and
`is_deliver()` (it carries the signatures its flags ask for). -/
structure ViewCert where
  viewid : UInt64
  clock : UInt64
  deliver : Bool
  deriving DecidableEq, Repr

/-- What the pacemaker reads of an `xvblock_t`: its account, its authenticated flag,
`is_deliver(false)` and its certificate, whose view id and clock are the block's. -/
structure CertBlock where
  account : String
  authenticated : Bool
  deliver : Bool
  cert : ViewCert
  deriving DecidableEq, Repr

/-- `sys_contract_beacon_timer_addr`, the account of the global clock contract
(`get_xclock_account_address`). -/
def xclockAccountAddress : String := "Tt00013axZ3Gy8nzi7oNYhTBDb9XMb8KHdqYhw4Kx"

/-- The block store, as far as the pacemaker loads from it: `get_latest_cert_block`. -/
structure CertStore where
  getLatestCertBlock : String → Option CertBlock

/-- The message types of a consensus packet the pacemaker tells apart. -/
inductive MsgType where
  | proposal
  | vote
  | commit
  | view
  | other
  deriving DecidableEq, Repr

/-- A consensus packet from the network, with what the pacemaker reads of it: its type,
the view id and account of its block, whether it comes from this node's own address,
and the two certificates it may carry — `none` when the field is empty, `some none` when
`create_qcert_object` cannot read it.  `body` is the rest, which the layers below read. -/
structure Packet (α : Type) where
  msgType : MsgType
  viewid : UInt64
  account : String
  loopback : Bool
  xclockCert : Option (Option ViewCert)
  vblockCert : Option (Option ViewCert)
  body : α
  deriving DecidableEq, Repr

/-- An `xcspdu_fire` event: the packet, and what the pacemaker sets on it — the clock
height, the cookie (the view id the packet is handed down at) and the certificates it
takes to the verification. -/
structure PduEvent (α : Type) where
  packet : Packet α
  clock : UInt64
  cookie : UInt64
  xclockCert : Option ViewCert
  vblockCert : Option ViewCert
  deriving DecidableEq, Repr

/-- The event of a packet, as the layer above creates it: no certificate attached. -/
def PduEvent.ofPacket {α : Type} (pkt : Packet α) : PduEvent α := ⟨pkt, 0, 0, none, none⟩

/-- A leader's proposal, as `on_proposal_start` reads and sets it: its account, the view
id and clock of its certificate, and its parent block. -/
structure StartProposal where
  account : String
  viewid : UInt64
  clock : UInt64
  prevBlock : Option CertBlock
  deriving DecidableEq, Repr

/-- What `on_proposal_start` decides: a replica's event goes on; a leader's proposal is
stopped because its view id is not the latest (which it is reset to) or because no clock
certificate is held yet, or goes on carrying the latest clock certificate. -/
inductive ProposalStart where
  | pass
  | viewChanged (viewid : UInt64)
  | noClock
  | ready (proposal : StartProposal) (clockCert : ViewCert)
  deriving DecidableEq, Repr

/-- `xclockcert_view`: the account it runs for, the latest view id, the two certificates,
the view changes fired to the driver (view id and clock), the events at the worker and
the verified events waiting for the pacemaker's thread, with whether each certificate's
multi-signature verified. -/
structure Pacemaker (α : Type) where
  account : String
  latestViewId : UInt64
  latestClockCert : Option ViewCert
  latestVblockCert : Option ViewCert
  fired : List (UInt64 × UInt64)
  pduJobs : List (PduEvent α)
  pduCallbacks : List (PduEvent α × Bool × Bool)
  deriving DecidableEq, Repr

namespace Pacemaker

variable {α : Type}

/-- A pacemaker that has not run yet. -/
def empty (account : String) : Pacemaker α := ⟨account, 0, none, none, [], [], []⟩

/-! ### The view -/

/-- The view id `update_view` computes from the block certificate `v` and the clock
certificate `c`. -/
def newViewId (v c : ViewCert) : UInt64 :=
  if c.clock > v.clock then v.viewid + 1 + (c.clock - v.clock) / 3 else v.viewid + 1

/-- `update_view`: with both certificates held, a view id above the current one becomes
current and is fired. -/
def updateView (p : Pacemaker α) : Pacemaker α × Bool :=
  match p.latestVblockCert, p.latestClockCert with
  | some v, some c =>
    if newViewId v c > p.latestViewId then
      ({ p with latestViewId := newViewId v c, fired := p.fired ++ [(newViewId v c, c.clock)] }, true)
    else (p, false)
  | _, _ => (p, false)

/-- `get_latest_xclock_height`. -/
def getLatestXclockHeight (p : Pacemaker α) : UInt64 :=
  match p.latestClockCert with
  | some c => c.clock
  | none => 0

/-- `get_latest_vblock_viewid`. -/
def getLatestVblockViewid (p : Pacemaker α) : UInt64 :=
  match p.latestVblockCert with
  | some v => v.viewid
  | none => 0

/-! ### The certificates -/

/-- The test of `safe_check_clock_cert` and of the quick filter of `update_clock_cert`:
the clock certificate held is at or past the given clock or view id. -/
def clockCertBehind (p : Pacemaker α) (clock viewid : UInt64) : Bool :=
  match p.latestClockCert with
  | some l => l.clock ≥ clock || l.viewid ≥ viewid
  | none => false

/-- The test of `safe_check_vblock_cert` and of the quick filter of `update_vblock_cert`:
the block certificate held is at or past the given view id. -/
def vblockCertBehind (p : Pacemaker α) (viewid : UInt64) : Bool :=
  match p.latestVblockCert with
  | some l => l.viewid ≥ viewid
  | none => false

/-- `safe_check_clock_cert`. -/
def safeCheckClockCert (p : Pacemaker α) (clockCert : ViewCert) : Bool :=
  !p.clockCertBehind clockCert.clock clockCert.viewid && clockCert.deliver

/-- `safe_check_vblock_cert`. -/
def safeCheckVblockCert (p : Pacemaker α) (hqcCert : ViewCert) : Bool :=
  !p.vblockCertBehind hqcCert.viewid && hqcCert.deliver

/-- `update_clock_cert` of a certificate: one that passes the safe check is swapped in
and the view recomputed. -/
def updateClockCert (p : Pacemaker α) (clockCert : ViewCert) : Pacemaker α × Bool :=
  if p.safeCheckClockCert clockCert then ((updateView { p with latestClockCert := some clockCert }).1, true)
  else (p, false)

/-- `update_vblock_cert` of a certificate. -/
def updateVblockCert (p : Pacemaker α) (hqcCert : ViewCert) : Pacemaker α × Bool :=
  if p.safeCheckVblockCert hqcCert then ((updateView { p with latestVblockCert := some hqcCert }).1, true)
  else (p, false)

/-- `update_clock_cert` of a block, in the release build: a block behind the certificate
held, not of the clock account or not authenticated is refused. -/
def updateClockCertOfBlock (p : Pacemaker α) (clockBlock : Option CertBlock) : Pacemaker α × Bool :=
  match clockBlock with
  | none => (p, false)
  | some b =>
    if p.clockCertBehind b.cert.clock b.cert.viewid then (p, false)
    else if b.account ≠ xclockAccountAddress then (p, false)
    else if !b.authenticated then (p, false)
    else p.updateClockCert b.cert

/-- `init_vblock`: while a certificate is missing, the block certificate, if missing, is
loaded from the latest delivered certified block of the account, and the view
recomputed.  The clock certificate is loaded only under a build flag that is off. -/
def initVblock (bs : CertStore) (p : Pacemaker α) (account : String) : Pacemaker α :=
  if p.latestClockCert.isNone || p.latestVblockCert.isNone then
    let p := match p.latestVblockCert, bs.getLatestCertBlock account with
      | none, some b => if b.deliver then { p with latestVblockCert := some b.cert } else p
      | _, _ => p
    (updateView p).1
  else p

/-- `update_vblock_cert` of a block: the pacemaker is initialised first; a block behind
the certificate held or not delivered is refused. -/
def updateVblockCertOfBlock (bs : CertStore) (p : Pacemaker α) (hqcBlock : Option CertBlock) :
    Pacemaker α × Bool :=
  match hqcBlock with
  | none => (p, false)
  | some b =>
    let p := p.initVblock bs b.account
    if p.vblockCertBehind b.cert.viewid then (p, false)
    else if !b.deliver then (p, false)
    else p.updateVblockCert b.cert

/-- `get_latest_viewid(account)`: a view id still zero makes the pacemaker initialise
first. -/
def getLatestViewid (bs : CertStore) (p : Pacemaker α) (account : String) : Pacemaker α × UInt64 :=
  let p := if p.latestViewId = 0 then p.initVblock bs account else p
  (p, p.latestViewId)

/-! ### The handlers -/

/-- `on_clock_fire`: the new clock block, then the latest certified block the layer above
attached. -/
def onClockFire (bs : CertStore) (p : Pacemaker α) (clockBlock latestBlock : Option CertBlock) :
    Pacemaker α :=
  let p := (p.updateClockCertOfBlock clockBlock).1
  (p.updateVblockCertOfBlock bs latestBlock).1

/-- `fire_verify_pduevent_job`: the event goes to a worker. -/
def fireVerifyPduEventJob (p : Pacemaker α) (e : PduEvent α) : Pacemaker α :=
  { p with pduJobs := p.pduJobs ++ [e] }

/-- The worker's part of `fire_verify_pduevent_job`: each certificate the event carries
is marked authenticated if its multi-signature verifies (`clockOk`, `vblockOk`), and the
event goes back to the pacemaker's thread. -/
def verifyPduEventJob [DecidableEq α] (p : Pacemaker α) (e : PduEvent α) (clockOk vblockOk : Bool) : Pacemaker α :=
  if e ∈ p.pduJobs then
    { p with pduJobs := p.pduJobs.erase e, pduCallbacks := p.pduCallbacks ++ [(e, clockOk, vblockOk)] }
  else p

/-- The clock certificate `on_pdu_event_down` attaches to a packet's event: the packet's,
if it reads and is delivered. -/
def xclockCertToVerify (pkt : Packet α) : Option ViewCert :=
  match pkt.xclockCert with
  | some (some c) => if c.deliver then some c else none
  | _ => none

/-- The block certificate `on_pdu_event_down` attaches to the event of a packet not
aligned with the view: for a view or proposal message, the packet's, if it reads, is past
the block certificate held and is delivered. -/
def vblockCertToVerify (p : Pacemaker α) (pkt : Packet α) : Option ViewCert :=
  if pkt.msgType = .view ∨ pkt.msgType = .proposal then
    match pkt.vblockCert with
    | some (some c) => if c.viewid > p.getLatestVblockViewid ∧ c.deliver then some c else none
    | _ => none
  else none

/-- `on_pdu_event_down` of the event of a packet: the event gets the clock height, the
latest view id as its cookie and the clock certificate to verify.  It is stopped (`true`)
if the packet is a loopback or a proposal without a clock certificate.  If the packet's
view id is not the latest, the event also takes the block certificate to verify; with a
certificate it goes to the verification, and without one only a vote is stopped.
Otherwise it is handed down (`false`). -/
def onPduEventDown (bs : CertStore) (p : Pacemaker α) (pkt : Packet α) : Pacemaker α × PduEvent α × Bool :=
  if pkt.loopback then (p, .ofPacket pkt, true)
  else
    let clock := p.getLatestXclockHeight
    let (p, latestViewid) := p.getLatestViewid bs pkt.account
    let e : PduEvent α := ⟨pkt, clock, latestViewid, xclockCertToVerify pkt, none⟩
    if pkt.msgType = .proposal ∧ e.xclockCert.isNone then (p, e, true)
    else
      let (p, latestViewid) := p.getLatestViewid bs pkt.account
      if pkt.viewid ≠ latestViewid then
        let e := { e with vblockCert := p.vblockCertToVerify pkt }
        if e.xclockCert.isSome ∨ e.vblockCert.isSome then (p.fireVerifyPduEventJob e, e, true)
        -- not aligned and nothing to align with: only a vote is stopped
        else if pkt.msgType ≠ .vote then (p, e, false)
        else (p, e, true)
      else (p, e, false)

/-- The certificates of a verified event update the pacemaker, each if it is attached
and its multi-signature verified. -/
def updateVerifiedCerts (p : Pacemaker α) (e : PduEvent α) (clockAuth vblockAuth : Bool) : Pacemaker α :=
  let p : Pacemaker α := match e.xclockCert with
    | some c => if clockAuth then (p.updateClockCert c).1 else p
    | none => p
  match e.vblockCert with
  | some c => if vblockAuth then (p.updateVblockCert c).1 else p
  | none => p

/-- The callback of a verified event on the pacemaker's thread (`_after_verify_cert_job`):
the authenticated certificates update the view, the event takes the latest view id as its
cookie, and it is handed down if aligned, or if it is not a vote. -/
def afterVerifyCertJob [DecidableEq α] (p : Pacemaker α) (e : PduEvent α) (clockAuth vblockAuth : Bool) :
    Pacemaker α × Option (PduEvent α) :=
  if (e, clockAuth, vblockAuth) ∈ p.pduCallbacks then
    let p := { p with pduCallbacks := p.pduCallbacks.erase (e, clockAuth, vblockAuth) }
    let p := p.updateVerifiedCerts e clockAuth vblockAuth
    let e : PduEvent α := { e with cookie := p.latestViewId }
    if e.packet.viewid = p.latestViewId then (p, some e)
    else if e.packet.msgType ≠ .vote then (p, some e)
    else (p, none)
  else (p, none)

/-- What `on_proposal_start` decides for a leader's proposal at the latest view id: a
proposal of another view id is stopped, one without a clock takes the clock height, and
it starts only with a clock certificate held, which it carries. -/
def startProposal (p : Pacemaker α) (prop : StartProposal) (latestViewid : UInt64) : ProposalStart :=
  if prop.viewid ≠ latestViewid then .viewChanged latestViewid
  else
    let prop := if prop.clock = 0 then { prop with clock := p.getLatestXclockHeight } else prop
    -- `get_latest_xclock_height` is zero without a clock certificate
    match p.latestClockCert with
    | some c => if c.clock = 0 then .noClock else .ready prop c
    | none => .noClock

/-- `on_proposal_start`: the clock, certified and committed blocks of the event update
the certificates; a leader's proposal then also offers its parent. -/
def onProposalStart (bs : CertStore) (p : Pacemaker α)
    (latestClock latestCert latestCommit : Option CertBlock) (proposal : Option StartProposal) :
    Pacemaker α × ProposalStart :=
  let p := (p.updateClockCertOfBlock latestClock).1
  let p := (p.updateVblockCertOfBlock bs latestCert).1
  let p := (p.updateVblockCertOfBlock bs latestCommit).1
  match proposal with
  | none => (p, .pass)
  | some prop =>
    let p := (p.updateVblockCertOfBlock bs prop.prevBlock).1
    let (p, latestViewid) := p.getLatestViewid bs prop.account
    (p, p.startProposal prop latestViewid)

/-- `on_proposal_finish`: the proposal, if it succeeded, and the certified, locked and
committed blocks of the event. -/
def onProposalFinish (bs : CertStore) (p : Pacemaker α) (successful : Bool)
    (target latestCert latestLock latestCommit : Option CertBlock) : Pacemaker α :=
  let p := if successful then (p.updateVblockCertOfBlock bs target).1 else p
  let p := (p.updateVblockCertOfBlock bs latestCert).1
  let p := (p.updateVblockCertOfBlock bs latestLock).1
  (p.updateVblockCertOfBlock bs latestCommit).1

/-- `on_replicate_finish`: a block replicated successfully. -/
def onReplicateFinish (bs : CertStore) (p : Pacemaker α) (successful : Bool) (target : Option CertBlock) :
    Pacemaker α :=
  if successful then (p.updateVblockCertOfBlock bs target).1 else p

/-- `on_certificate_finish`: a verified certificate. -/
def onCertificateFinish (p : Pacemaker α) (targetCert : Option ViewCert) : Pacemaker α :=
  match targetCert with
  | some c => (p.updateVblockCert c).1
  | none => p

/-- `on_consensus_commit`: the certified, locked and committed blocks. -/
def onConsensusCommit (bs : CertStore) (p : Pacemaker α) (latestCert latestLock latestCommit : Option CertBlock) :
    Pacemaker α :=
  let p := (p.updateVblockCertOfBlock bs latestCert).1
  let p := (p.updateVblockCertOfBlock bs latestLock).1
  (p.updateVblockCertOfBlock bs latestCommit).1

/-- `on_consensus_update`: the clock block, then the certified, locked and committed
blocks. -/
def onConsensusUpdate (bs : CertStore) (p : Pacemaker α)
    (latestClock latestCert latestLock latestCommit : Option CertBlock) : Pacemaker α :=
  let p := (p.updateClockCertOfBlock latestClock).1
  p.onConsensusCommit bs latestCert latestLock latestCommit

/-- `on_join_parent_node`: the pacemaker initialises for its account. -/
def onJoinParentNode (bs : CertStore) (p : Pacemaker α) : Pacemaker α := p.initVblock bs p.account

end Pacemaker

/-- The events of a pacemaker. -/
inductive PacemakerEvent (α : Type) where
  | joinParentNode
  | clockFire (clockBlock latestBlock : Option CertBlock)
  | proposalStart (latestClock latestCert latestCommit : Option CertBlock) (proposal : Option StartProposal)
  | proposalFinish (successful : Bool) (target latestCert latestLock latestCommit : Option CertBlock)
  | replicateFinish (successful : Bool) (target : Option CertBlock)
  | certificateFinish (targetCert : Option ViewCert)
  | consensusCommit (latestCert latestLock latestCommit : Option CertBlock)
  | consensusUpdate (latestClock latestCert latestLock latestCommit : Option CertBlock)
  | pduEventDown (pkt : Packet α)
  | verifyPduEventJob (e : PduEvent α) (clockOk vblockOk : Bool)
  | afterVerifyCertJob (e : PduEvent α) (clockAuth vblockAuth : Bool)
  deriving DecidableEq, Repr

namespace Pacemaker

variable {α : Type}

/-- One event, against the block store as it is then. -/
def step [DecidableEq α] (bs : CertStore) (p : Pacemaker α) : PacemakerEvent α → Pacemaker α
  | .joinParentNode => p.onJoinParentNode bs
  | .clockFire clockBlock latestBlock => p.onClockFire bs clockBlock latestBlock
  | .proposalStart clock cert commit proposal => (p.onProposalStart bs clock cert commit proposal).1
  | .proposalFinish ok target cert lock commit => p.onProposalFinish bs ok target cert lock commit
  | .replicateFinish ok target => p.onReplicateFinish bs ok target
  | .certificateFinish cert => p.onCertificateFinish cert
  | .consensusCommit cert lock commit => p.onConsensusCommit bs cert lock commit
  | .consensusUpdate clock cert lock commit => p.onConsensusUpdate bs clock cert lock commit
  | .pduEventDown pkt => (p.onPduEventDown bs pkt).1
  | .verifyPduEventJob e clockOk vblockOk => p.verifyPduEventJob e clockOk vblockOk
  | .afterVerifyCertJob e clockAuth vblockAuth => (p.afterVerifyCertJob e clockAuth vblockAuth).1

/-- A run of events against one block store. -/
def run [DecidableEq α] (bs : CertStore) (p : Pacemaker α) (events : List (PacemakerEvent α)) : Pacemaker α :=
  events.foldl (step bs) p

@[simp] theorem run_nil [DecidableEq α] (bs : CertStore) (p : Pacemaker α) : p.run bs [] = p := rfl

@[simp] theorem run_cons [DecidableEq α] (bs : CertStore) (p : Pacemaker α) (ev : PacemakerEvent α)
    (events : List (PacemakerEvent α)) : p.run bs (ev :: events) = (p.step bs ev).run bs events := rfl

theorem run_append [DecidableEq α] (bs : CertStore) (p : Pacemaker α) (events more : List (PacemakerEvent α)) :
    p.run bs (events ++ more) = (p.run bs events).run bs more :=
  List.foldl_append ..

/-! ### What `update_view` does -/

/-- `update_view` changes nothing, or makes a higher view id current and fires it. -/
theorem updateView_cases (p : Pacemaker α) :
    p.updateView.1 = p ∨
      ∃ v c, p.latestVblockCert = some v ∧ p.latestClockCert = some c ∧ p.latestViewId < newViewId v c ∧
        p.updateView.1 =
          { p with latestViewId := newViewId v c, fired := p.fired ++ [(newViewId v c, c.clock)] } := by
  unfold updateView
  split
  · rename_i v c hv hc
    split
    · exact .inr ⟨v, c, hv, hc, ‹_›, rfl⟩
    · exact .inl rfl
  · exact .inl rfl

@[simp] theorem latestClockCert_updateView (p : Pacemaker α) :
    p.updateView.1.latestClockCert = p.latestClockCert := by
  rcases updateView_cases p with h | ⟨v, c, -, -, -, h⟩ <;> rw [h]

@[simp] theorem latestVblockCert_updateView (p : Pacemaker α) :
    p.updateView.1.latestVblockCert = p.latestVblockCert := by
  rcases updateView_cases p with h | ⟨v, c, -, -, -, h⟩ <;> rw [h]

/-- The view id `update_view` leaves is at least the one its certificates give. -/
def Ahead (p : Pacemaker α) : Prop :=
  ∀ v c, p.latestVblockCert = some v → p.latestClockCert = some c → newViewId v c ≤ p.latestViewId

theorem ahead_updateView (p : Pacemaker α) : p.updateView.1.Ahead := by
  intro v c hv hc
  rw [latestVblockCert_updateView] at hv
  rw [latestClockCert_updateView] at hc
  unfold updateView
  simp only [hv, hc]
  split
  · exact UInt64.le_refl _
  · exact UInt64.not_lt.mp ‹_›

/-- On a pacemaker whose view is ahead of its certificates, `update_view` does nothing. -/
theorem updateView_of_ahead {p : Pacemaker α} (h : p.Ahead) : p.updateView = (p, false) := by
  unfold updateView
  split
  · rename_i v c hv hc
    rw [if_neg (UInt64.not_lt.mpr (h v c hv hc))]
  · rfl

/-- Without overflow, the view id of two certificates is above the block certificate's. -/
theorem lt_newViewId (v c : ViewCert) (h : v.viewid.toNat < 2 ^ 63) : v.viewid < newViewId v c := by
  have hc := c.clock.toNat_lt
  rw [UInt64.lt_iff_toNat_lt]
  unfold newViewId
  split
  · rename_i hlt
    rw [UInt64.toNat_add, UInt64.toNat_add, UInt64.toNat_div,
      UInt64.toNat_sub_of_le _ _ (UInt64.le_of_lt hlt)]
    simp only [UInt64.toNat_one, UInt64.reduceToNat]
    omega
  · rw [UInt64.toNat_add, UInt64.toNat_one]
    omega

/-! ### The certificate checks -/

theorem lt_of_clockCertBehind {p : Pacemaker α} {clock viewid : UInt64}
    (h : p.clockCertBehind clock viewid = false) {l : ViewCert} (hl : p.latestClockCert = some l) :
    l.clock < clock ∧ l.viewid < viewid := by
  simpa [clockCertBehind, hl, UInt64.not_le] using h

theorem lt_of_vblockCertBehind {p : Pacemaker α} {viewid : UInt64}
    (h : p.vblockCertBehind viewid = false) {l : ViewCert} (hl : p.latestVblockCert = some l) :
    l.viewid < viewid := by
  simpa [vblockCertBehind, hl, UInt64.not_le] using h

theorem vblockCertBehind_of_none {p : Pacemaker α} (h : p.latestVblockCert = none) (viewid : UInt64) :
    p.vblockCertBehind viewid = false := by
  simp [vblockCertBehind, h]

theorem safeCheckClockCert_eq_true {p : Pacemaker α} {c : ViewCert} :
    p.safeCheckClockCert c = true ↔ p.clockCertBehind c.clock c.viewid = false ∧ c.deliver = true := by
  simp [safeCheckClockCert]

theorem safeCheckVblockCert_eq_true {p : Pacemaker α} {c : ViewCert} :
    p.safeCheckVblockCert c = true ↔ p.vblockCertBehind c.viewid = false ∧ c.deliver = true := by
  simp [safeCheckVblockCert]

/-! ### The invariant -/

/-- The view changes fired so far: their view ids strictly increase up to the current
one, which is the last fired, and their clocks never decrease and never pass the clock
certificate held. -/
structure Fired (p : Pacemaker α) : Prop where
  viewid_lt : (p.fired.map Prod.fst).Pairwise (· < ·)
  clock_le : (p.fired.map Prod.snd).Pairwise (· ≤ ·)
  last : (p.fired.getLast?.map Prod.fst).getD 0 = p.latestViewId
  viewid_le : ∀ f ∈ p.fired, f.1 ≤ p.latestViewId
  clock_le_held : ∀ f ∈ p.fired, ∃ c, p.latestClockCert = some c ∧ f.2 ≤ c.clock

/-- The invariant of a pacemaker: what it fired, and a view ahead of its certificates. -/
structure Inv (p : Pacemaker α) : Prop where
  fired : p.Fired
  ahead : p.Ahead

theorem Fired.of_eq {p q : Pacemaker α} (hp : p.Fired) (hv : q.latestViewId = p.latestViewId)
    (hc : q.latestClockCert = p.latestClockCert) (hf : q.fired = p.fired) : q.Fired := by
  obtain ⟨h1, h2, h3, h4, h5⟩ := hp
  refine ⟨hf ▸ h1, hf ▸ h2, hf ▸ hv ▸ h3, hf ▸ hv ▸ h4, ?_⟩
  rw [hf, hc]
  exact h5

/-- Every clock fired is at most the clock of the clock certificate held. -/
theorem Fired.clock_le_of_held {p : Pacemaker α} (hp : p.Fired) {c : ViewCert} (hc : p.latestClockCert = some c)
    {f : UInt64 × UInt64} (hf : f ∈ p.fired) : f.2 ≤ c.clock := by
  obtain ⟨c', hc', hle⟩ := hp.clock_le_held f hf
  rw [hc] at hc'
  exact Option.some.inj hc' ▸ hle

theorem Fired.push {p : Pacemaker α} (hp : p.Fired) {c : ViewCert} (hc : p.latestClockCert = some c)
    {n : UInt64} (hlt : p.latestViewId < n) :
    ({ p with latestViewId := n, fired := p.fired ++ [(n, c.clock)] } : Pacemaker α).Fired where
  viewid_lt := by
    rw [List.map_append, List.pairwise_append]
    refine ⟨hp.viewid_lt, List.pairwise_singleton _ _, ?_⟩
    simp only [List.mem_map, List.map_cons, List.map_nil, List.mem_singleton]
    rintro _ ⟨f, hf, rfl⟩ _ rfl
    exact UInt64.lt_of_le_of_lt (hp.viewid_le f hf) hlt
  clock_le := by
    rw [List.map_append, List.pairwise_append]
    refine ⟨hp.clock_le, List.pairwise_singleton _ _, ?_⟩
    simp only [List.mem_map, List.map_cons, List.map_nil, List.mem_singleton]
    rintro _ ⟨f, hf, rfl⟩ _ rfl
    exact hp.clock_le_of_held hc hf
  last := by simp
  viewid_le := by
    intro f hf
    rcases List.mem_append.mp hf with h | h
    · exact UInt64.le_of_lt (UInt64.lt_of_le_of_lt (hp.viewid_le f h) hlt)
    · rw [List.mem_singleton.mp h]
      exact UInt64.le_refl n
  clock_le_held := by
    intro f hf
    refine ⟨c, hc, ?_⟩
    rcases List.mem_append.mp hf with h | h
    · exact hp.clock_le_of_held hc h
    · rw [List.mem_singleton.mp h]
      exact UInt64.le_refl _

theorem Fired.updateView {p : Pacemaker α} (hp : p.Fired) : p.updateView.1.Fired := by
  rcases updateView_cases p with h | ⟨v, c, -, hc, hlt, h⟩
  · rw [h]
    exact hp
  · rw [h]
    exact hp.push hc hlt

/-- A clock certificate past the one held keeps the fired clocks below it. -/
theorem Fired.setClock {p : Pacemaker α} (hp : p.Fired) {c : ViewCert}
    (h : p.clockCertBehind c.clock c.viewid = false) :
    ({ p with latestClockCert := some c } : Pacemaker α).Fired := by
  refine ⟨hp.viewid_lt, hp.clock_le, hp.last, hp.viewid_le, fun f hf => ⟨c, rfl, ?_⟩⟩
  obtain ⟨l, hl, hle⟩ := hp.clock_le_held f hf
  exact UInt64.le_of_lt (UInt64.lt_of_le_of_lt hle (lt_of_clockCertBehind h hl).1)

theorem Inv.of_eq {p q : Pacemaker α} (hp : p.Inv) (hv : q.latestViewId = p.latestViewId)
    (hc : q.latestClockCert = p.latestClockCert) (hb : q.latestVblockCert = p.latestVblockCert)
    (hf : q.fired = p.fired) : q.Inv := by
  refine ⟨hp.fired.of_eq hv hc hf, fun v c hv' hc' => ?_⟩
  rw [hv]
  exact hp.ahead v c (hb ▸ hv') (hc ▸ hc')

theorem inv_empty (account : String) : (empty account : Pacemaker α).Inv where
  fired := ⟨List.Pairwise.nil, List.Pairwise.nil, rfl, (fun _ h => nomatch h), (fun _ h => nomatch h)⟩
  ahead := fun _ _ h => nomatch h

/-! ### How far a pacemaker has gone -/

/-- `p'` is at least as far as `p`: its view id is not lower, its certificates are not
behind, and it fired what `p` fired, and maybe more. -/
structure Advances (p p' : Pacemaker α) : Prop where
  viewid : p.latestViewId ≤ p'.latestViewId
  clock : ∀ c, p.latestClockCert = some c →
    ∃ c', p'.latestClockCert = some c' ∧ c.clock ≤ c'.clock ∧ c.viewid ≤ c'.viewid
  vblock : ∀ v, p.latestVblockCert = some v → ∃ v', p'.latestVblockCert = some v' ∧ v.viewid ≤ v'.viewid
  fired : p.fired <+: p'.fired

/-- A pacemaker with the view, the certificates and the fired views of `p` is as far as
`p`. -/
theorem advances_of_eq {p q : Pacemaker α} (hv : q.latestViewId = p.latestViewId)
    (hc : q.latestClockCert = p.latestClockCert) (hb : q.latestVblockCert = p.latestVblockCert)
    (hf : q.fired = p.fired) : Advances p q := by
  exact ⟨hv ▸ UInt64.le_refl _, fun c h => ⟨c, hc ▸ h, UInt64.le_refl _, UInt64.le_refl _⟩,
    fun v h => ⟨v, hb ▸ h, UInt64.le_refl _⟩, hf ▸ List.prefix_refl _⟩

theorem Advances.refl (p : Pacemaker α) : Advances p p := advances_of_eq rfl rfl rfl rfl

theorem Advances.trans {p q r : Pacemaker α} (h₁ : Advances p q) (h₂ : Advances q r) : Advances p r := by
  refine ⟨UInt64.le_trans h₁.viewid h₂.viewid, fun c hc => ?_, fun v hv => ?_, h₁.fired.trans h₂.fired⟩
  · obtain ⟨c₁, hc₁, hk₁, hv₁⟩ := h₁.clock c hc
    obtain ⟨c₂, hc₂, hk₂, hv₂⟩ := h₂.clock c₁ hc₁
    exact ⟨c₂, hc₂, UInt64.le_trans hk₁ hk₂, UInt64.le_trans hv₁ hv₂⟩
  · obtain ⟨v₁, hv₁, hl₁⟩ := h₁.vblock v hv
    obtain ⟨v₂, hv₂, hl₂⟩ := h₂.vblock v₁ hv₁
    exact ⟨v₂, hv₂, UInt64.le_trans hl₁ hl₂⟩

theorem advances_updateView (p : Pacemaker α) : Advances p p.updateView.1 := by
  rcases updateView_cases p with h | ⟨v, c, -, -, hlt, h⟩
  · rw [h]
    exact .refl p
  · rw [h]
    exact ⟨UInt64.le_of_lt hlt, fun c hc => ⟨c, hc, UInt64.le_refl _, UInt64.le_refl _⟩,
      fun v hv => ⟨v, hv, UInt64.le_refl _⟩, List.prefix_append _ _⟩

theorem advances_setClock {p : Pacemaker α} {c : ViewCert} (h : p.clockCertBehind c.clock c.viewid = false) :
    Advances p { p with latestClockCert := some c } := by
  refine ⟨UInt64.le_refl _, fun _ hl => ⟨c, rfl, ?_⟩, fun v hv => ⟨v, hv, UInt64.le_refl _⟩, List.prefix_refl _⟩
  obtain ⟨hk, hv⟩ := lt_of_clockCertBehind h hl
  exact ⟨UInt64.le_of_lt hk, UInt64.le_of_lt hv⟩

theorem advances_setVblock {p : Pacemaker α} {v : ViewCert} (h : p.vblockCertBehind v.viewid = false) :
    Advances p { p with latestVblockCert := some v } :=
  ⟨UInt64.le_refl _, fun c hc => ⟨c, hc, UInt64.le_refl _, UInt64.le_refl _⟩,
    fun _ hl => ⟨v, rfl, UInt64.le_of_lt (lt_of_vblockCertBehind h hl)⟩, List.prefix_refl _⟩

/-! ### The moves of a pacemaker -/

/-- A change a pacemaker makes: a clock certificate past the one held, or a block
certificate past the one held (or the first one), each followed by `update_view`; a bare
`update_view`; or a change of the verification queues alone. -/
inductive Move : Pacemaker α → Pacemaker α → Prop where
  | clock (p : Pacemaker α) (c : ViewCert) (h : p.clockCertBehind c.clock c.viewid = false) :
      Move p (updateView { p with latestClockCert := some c }).1
  | vblock (p : Pacemaker α) (v : ViewCert) (h : p.vblockCertBehind v.viewid = false) :
      Move p (updateView { p with latestVblockCert := some v }).1
  | view (p : Pacemaker α) : Move p p.updateView.1
  | queues (p : Pacemaker α) (jobs : List (PduEvent α)) (callbacks : List (PduEvent α × Bool × Bool)) :
      Move p { p with pduJobs := jobs, pduCallbacks := callbacks }

theorem Move.inv {p p' : Pacemaker α} (h : Move p p') (hp : p.Inv) : p'.Inv := by
  cases h with
  | clock c hc => exact ⟨(hp.fired.setClock hc).updateView, ahead_updateView _⟩
  | vblock v _ =>
    exact ⟨(Fired.of_eq (q := { p with latestVblockCert := some v }) hp.fired rfl rfl rfl).updateView,
      ahead_updateView _⟩
  | view => exact ⟨hp.fired.updateView, ahead_updateView _⟩
  | queues jobs callbacks => exact hp.of_eq rfl rfl rfl rfl

theorem Move.advances {p p' : Pacemaker α} (h : Move p p') : Advances p p' := by
  cases h with
  | clock c hc => exact (advances_setClock hc).trans (advances_updateView _)
  | vblock v hv => exact (advances_setVblock hv).trans (advances_updateView _)
  | view => exact advances_updateView p
  | queues jobs callbacks => exact advances_of_eq rfl rfl rfl rfl

theorem inv_of_moves {p p' : Pacemaker α} (h : Relation.ReflTransGen Move p p') (hp : p.Inv) : p'.Inv := by
  induction h with
  | refl => exact hp
  | tail _ hm ih => exact hm.inv ih

theorem advances_of_moves {p p' : Pacemaker α} (h : Relation.ReflTransGen Move p p') : Advances p p' := by
  induction h with
  | refl => exact .refl p
  | tail _ hm ih => exact ih.trans hm.advances

/-! ### Each handler is a sequence of moves -/

theorem moves_updateView (p : Pacemaker α) : Relation.ReflTransGen Move p p.updateView.1 :=
  .single (.view p)

theorem moves_updateClockCert (p : Pacemaker α) (c : ViewCert) :
    Relation.ReflTransGen Move p (p.updateClockCert c).1 := by
  unfold updateClockCert
  split
  · exact .single (.clock p c (safeCheckClockCert_eq_true.mp ‹_›).1)
  · exact .refl

theorem moves_updateVblockCert (p : Pacemaker α) (c : ViewCert) :
    Relation.ReflTransGen Move p (p.updateVblockCert c).1 := by
  unfold updateVblockCert
  split
  · exact .single (.vblock p c (safeCheckVblockCert_eq_true.mp ‹_›).1)
  · exact .refl

theorem moves_updateClockCertOfBlock (p : Pacemaker α) (clockBlock : Option CertBlock) :
    Relation.ReflTransGen Move p (p.updateClockCertOfBlock clockBlock).1 := by
  unfold updateClockCertOfBlock
  split
  · exact .refl
  · split_ifs
    · exact .refl
    · exact .refl
    · exact .refl
    · exact moves_updateClockCert p _

theorem moves_initVblock (bs : CertStore) (p : Pacemaker α) (account : String) :
    Relation.ReflTransGen Move p (p.initVblock bs account) := by
  unfold initVblock
  split
  · split
    · rename_i b hv _
      split
      · exact .single (.vblock p b.cert (vblockCertBehind_of_none hv _))
      · exact moves_updateView p
    · exact moves_updateView p
  · exact .refl

theorem moves_updateVblockCertOfBlock (bs : CertStore) (p : Pacemaker α) (hqcBlock : Option CertBlock) :
    Relation.ReflTransGen Move p (p.updateVblockCertOfBlock bs hqcBlock).1 := by
  unfold updateVblockCertOfBlock
  split
  · exact .refl
  · rename_i b
    dsimp only
    refine (moves_initVblock bs p b.account).trans ?_
    split_ifs
    · exact .refl
    · exact .refl
    · exact moves_updateVblockCert _ _

theorem moves_getLatestViewid (bs : CertStore) (p : Pacemaker α) (account : String) :
    Relation.ReflTransGen Move p (p.getLatestViewid bs account).1 := by
  unfold getLatestViewid
  split
  · exact moves_initVblock bs p account
  · exact .refl

theorem moves_fireVerifyPduEventJob (p : Pacemaker α) (e : PduEvent α) :
    Relation.ReflTransGen Move p (p.fireVerifyPduEventJob e) :=
  .single (.queues p _ _)

theorem moves_verifyPduEventJob [DecidableEq α] (p : Pacemaker α) (e : PduEvent α) (clockOk vblockOk : Bool) :
    Relation.ReflTransGen Move p (p.verifyPduEventJob e clockOk vblockOk) := by
  unfold verifyPduEventJob
  split
  · exact .single (.queues p _ _)
  · exact .refl

theorem moves_onPduEventDown (bs : CertStore) (p : Pacemaker α) (pkt : Packet α) :
    Relation.ReflTransGen Move p (p.onPduEventDown bs pkt).1 := by
  unfold onPduEventDown
  dsimp only
  -- the view id is read once, and again for the alignment
  have h1 := moves_getLatestViewid bs p pkt.account
  have h2 := h1.trans (moves_getLatestViewid bs _ pkt.account)
  split
  · exact .refl
  · split
    · exact h1
    · split
      · split
        · exact h2.trans (moves_fireVerifyPduEventJob _ _)
        · split
          · exact h2
          · exact h2
      · exact h2

theorem moves_updateVerifiedCerts (p : Pacemaker α) (e : PduEvent α) (clockAuth vblockAuth : Bool) :
    Relation.ReflTransGen Move p (p.updateVerifiedCerts e clockAuth vblockAuth) := by
  unfold updateVerifiedCerts
  extract_lets p1
  -- the clock certificate first, then the block certificate
  have h1 : Relation.ReflTransGen Move p p1 := by
    simp only [p1]
    split
    · split
      · exact moves_updateClockCert p _
      · exact .refl
    · exact .refl
  split
  · split
    · exact h1.trans (moves_updateVblockCert p1 _)
    · exact h1
  · exact h1

theorem moves_afterVerifyCertJob [DecidableEq α] (p : Pacemaker α) (e : PduEvent α) (clockAuth vblockAuth : Bool) :
    Relation.ReflTransGen Move p (p.afterVerifyCertJob e clockAuth vblockAuth).1 := by
  unfold afterVerifyCertJob
  split
  · dsimp only
    have h := (Relation.ReflTransGen.single (Move.queues p p.pduJobs
      (p.pduCallbacks.erase (e, clockAuth, vblockAuth)))).trans (moves_updateVerifiedCerts _ e clockAuth vblockAuth)
    split
    · exact h
    · split
      · exact h
      · exact h
  · exact .refl

theorem moves_onProposalStart (bs : CertStore) (p : Pacemaker α)
    (latestClock latestCert latestCommit : Option CertBlock) (proposal : Option StartProposal) :
    Relation.ReflTransGen Move p (p.onProposalStart bs latestClock latestCert latestCommit proposal).1 := by
  unfold onProposalStart
  dsimp only
  have h := ((moves_updateClockCertOfBlock p latestClock).trans
    (moves_updateVblockCertOfBlock bs _ latestCert)).trans (moves_updateVblockCertOfBlock bs _ latestCommit)
  split
  · exact h
  · exact (h.trans (moves_updateVblockCertOfBlock bs _ _)).trans (moves_getLatestViewid bs _ _)

theorem moves_onClockFire (bs : CertStore) (p : Pacemaker α) (clockBlock latestBlock : Option CertBlock) :
    Relation.ReflTransGen Move p (p.onClockFire bs clockBlock latestBlock) :=
  (moves_updateClockCertOfBlock p clockBlock).trans (moves_updateVblockCertOfBlock bs _ latestBlock)

theorem moves_onConsensusCommit (bs : CertStore) (p : Pacemaker α) (latestCert latestLock latestCommit : Option CertBlock) :
    Relation.ReflTransGen Move p (p.onConsensusCommit bs latestCert latestLock latestCommit) :=
  ((moves_updateVblockCertOfBlock bs p latestCert).trans (moves_updateVblockCertOfBlock bs _ latestLock)).trans
    (moves_updateVblockCertOfBlock bs _ latestCommit)

theorem moves_onReplicateFinish (bs : CertStore) (p : Pacemaker α) (successful : Bool) (target : Option CertBlock) :
    Relation.ReflTransGen Move p (p.onReplicateFinish bs successful target) := by
  unfold onReplicateFinish
  split
  · exact moves_updateVblockCertOfBlock bs p target
  · exact .refl

theorem moves_onProposalFinish (bs : CertStore) (p : Pacemaker α) (successful : Bool)
    (target latestCert latestLock latestCommit : Option CertBlock) :
    Relation.ReflTransGen Move p (p.onProposalFinish bs successful target latestCert latestLock latestCommit) :=
  -- the proposal, as `on_replicate_finish` takes a replicated block, then the three others
  (moves_onReplicateFinish bs p successful target).trans
    (moves_onConsensusCommit bs _ latestCert latestLock latestCommit)

theorem moves_step [DecidableEq α] (bs : CertStore) (p : Pacemaker α) (ev : PacemakerEvent α) :
    Relation.ReflTransGen Move p (p.step bs ev) := by
  cases ev with
  | joinParentNode => exact moves_initVblock bs p p.account
  | clockFire clockBlock latestBlock => exact moves_onClockFire bs p clockBlock latestBlock
  | proposalStart clock cert commit proposal => exact moves_onProposalStart bs p clock cert commit proposal
  | proposalFinish ok target cert lock commit => exact moves_onProposalFinish bs p ok target cert lock commit
  | replicateFinish ok target => exact moves_onReplicateFinish bs p ok target
  | certificateFinish cert =>
    cases cert with
    | some c => exact moves_updateVblockCert p c
    | none => exact .refl
  | consensusCommit cert lock commit => exact moves_onConsensusCommit bs p cert lock commit
  | consensusUpdate clock cert lock commit =>
    exact (moves_updateClockCertOfBlock p clock).trans (moves_onConsensusCommit bs _ cert lock commit)
  | pduEventDown pkt => exact moves_onPduEventDown bs p pkt
  | verifyPduEventJob e clockOk vblockOk => exact moves_verifyPduEventJob p e clockOk vblockOk
  | afterVerifyCertJob e clockAuth vblockAuth => exact moves_afterVerifyCertJob p e clockAuth vblockAuth

theorem moves_run [DecidableEq α] (bs : CertStore) (p : Pacemaker α) (events : List (PacemakerEvent α)) :
    Relation.ReflTransGen Move p (p.run bs events) := by
  induction events generalizing p with
  | nil => exact .refl
  | cons ev events ih => exact (moves_step bs p ev).trans (ih _)

theorem inv_run [DecidableEq α] (bs : CertStore) {p : Pacemaker α} (hp : p.Inv) (events : List (PacemakerEvent α)) :
    (p.run bs events).Inv :=
  inv_of_moves (moves_run bs p events) hp

theorem advances_run [DecidableEq α] (bs : CertStore) (p : Pacemaker α) (events : List (PacemakerEvent α)) :
    Advances p (p.run bs events) :=
  advances_of_moves (moves_run bs p events)

/-! ### Reading the view id twice -/

theorem updateView_updateView (p : Pacemaker α) : p.updateView.1.updateView = (p.updateView.1, false) :=
  updateView_of_ahead (ahead_updateView p)

/-- A second `init_vblock` finds nothing more to load: the store gives what it gave the
first time, and the view is already ahead of the certificates. -/
theorem initVblock_initVblock (bs : CertStore) (p : Pacemaker α) (account : String) :
    (p.initVblock bs account).initVblock bs account = p.initVblock bs account := by
  unfold initVblock
  cases hv : p.latestVblockCert with
  | none =>
    -- the first call loads the block certificate if the store has a delivered one
    cases hb : bs.getLatestCertBlock account with
    | none => simp [hv, updateView_updateView]
    | some b => cases hd : b.deliver <;> simp [hv, hd, updateView_updateView]
  | some v => cases hc : p.latestClockCert <;> simp [hc, hv, updateView_updateView]

/-- `on_pdu_event_down` reads the view id a second time for the alignment; the second read
changes nothing. -/
theorem fst_getLatestViewid_getLatestViewid (bs : CertStore) (p : Pacemaker α) (account : String) :
    ((p.getLatestViewid bs account).1.getLatestViewid bs account).1 = (p.getLatestViewid bs account).1 := by
  by_cases h0 : p.latestViewId = 0
  · by_cases h1 : (p.initVblock bs account).latestViewId = 0
    · simp [getLatestViewid, h0, h1, initVblock_initVblock]
    · simp [getLatestViewid, h0, h1]
  · simp [getLatestViewid, h0]

/-! ### Starting a proposal -/

@[simp] theorem snd_getLatestViewid (bs : CertStore) (p : Pacemaker α) (account : String) :
    (p.getLatestViewid bs account).2 = (p.getLatestViewid bs account).1.latestViewId := rfl

/-- A leader's proposal starts only at the view id it is checked against, with a clock
certificate held, which it carries. -/
theorem startProposal_eq_ready {p : Pacemaker α} {prop prop' : StartProposal} {l : UInt64} {c : ViewCert}
    (h : p.startProposal prop l = .ready prop' c) : prop'.viewid = l ∧ p.latestClockCert = some c := by
  unfold startProposal at h
  split at h
  · cases h
  · rename_i hv
    dsimp only at h
    split at h
    · rename_i c' hc
      split at h
      · cases h
      · obtain ⟨rfl, rfl⟩ := ProposalStart.ready.inj h
        refine ⟨?_, hc⟩
        -- the clock a proposal takes leaves its view id
        split <;> exact not_not.mp hv
    · cases h

/-- `on_proposal_start` lets a leader's proposal go on only at the pacemaker's view id,
with the clock certificate the pacemaker holds. -/
theorem onProposalStart_ready {bs : CertStore} {p : Pacemaker α} {latestClock latestCert latestCommit : Option CertBlock}
    {prop prop' : StartProposal} {c : ViewCert}
    (h : (p.onProposalStart bs latestClock latestCert latestCommit (some prop)).2 = .ready prop' c) :
    prop'.viewid = (p.onProposalStart bs latestClock latestCert latestCommit (some prop)).1.latestViewId ∧
      (p.onProposalStart bs latestClock latestCert latestCommit (some prop)).1.latestClockCert = some c := by
  unfold onProposalStart at h ⊢
  dsimp only at h ⊢
  exact startProposal_eq_ready h

/-! ### Every run -/

/-- The view changes a pacemaker fires strictly increase in view id and never go back in
clock, and the last one fired is the view it is at. -/
theorem run_fired_increasing [DecidableEq α] (bs : CertStore) (account : String) (events : List (PacemakerEvent α)) :
    (((empty account : Pacemaker α).run bs events).fired.map Prod.fst).Pairwise (· < ·) ∧
      (((empty account : Pacemaker α).run bs events).fired.map Prod.snd).Pairwise (· ≤ ·) ∧
      (((empty account : Pacemaker α).run bs events).fired.getLast?.map Prod.fst).getD 0 =
        ((empty account : Pacemaker α).run bs events).latestViewId := by
  have hf := (inv_run bs (inv_empty account) events).fired
  exact ⟨hf.viewid_lt, hf.clock_le, hf.last⟩

/-- Along a run, a pacemaker's view id never goes down, its certificates never go back
and the view changes it fired stay fired. -/
theorem run_advances [DecidableEq α] (bs : CertStore) (p : Pacemaker α) (events more : List (PacemakerEvent α)) :
    Advances (p.run bs events) (p.run bs (events ++ more)) := by
  rw [run_append]
  exact advances_run bs _ more

/-- With both certificates held, the view a pacemaker is at is at least the one they
give, so, short of an overflow of the view id, above the view of the certified block it
holds. -/
theorem run_viewid_above_vblock [DecidableEq α] (bs : CertStore) (account : String)
    (events : List (PacemakerEvent α)) (v c : ViewCert)
    (hv : ((empty account : Pacemaker α).run bs events).latestVblockCert = some v)
    (hc : ((empty account : Pacemaker α).run bs events).latestClockCert = some c)
    (hbound : v.viewid.toNat < 2 ^ 63) :
    newViewId v c ≤ ((empty account : Pacemaker α).run bs events).latestViewId ∧
      v.viewid < ((empty account : Pacemaker α).run bs events).latestViewId := by
  have hle := (inv_run bs (inv_empty account) events).ahead v c hv hc
  exact ⟨hle, UInt64.lt_of_lt_of_le (lt_newViewId v c hbound) hle⟩

/-- The certificate of a block of `T1` at view 10 and clock 100. -/
def sampleVblockCert : ViewCert := ⟨10, 100, true⟩

/-- The certificate of a clock block at clock 130. -/
def sampleClockCert : ViewCert := ⟨5, 130, true⟩

/-- A block store with no certified block. -/
def emptyStore : CertStore := ⟨fun _ => none⟩

/-- The clock block at clock 130. -/
def sampleClockBlock : CertBlock := ⟨xclockAccountAddress, true, true, sampleClockCert⟩

/-- The block of `T1` certified at view 10. -/
def sampleVblock : CertBlock := ⟨"T1", true, true, sampleVblockCert⟩

/-- A clock fire with the clock block and the latest certified block of `T1`. -/
def sampleClockFire : PacemakerEvent Unit := .clockFire (some sampleClockBlock) (some sampleVblock)

theorem run_viewid_above_vblock_sampleClockFire :
    ((empty "T1" : Pacemaker Unit).run emptyStore [sampleClockFire]).latestVblockCert = some sampleVblockCert ∧
      ((empty "T1" : Pacemaker Unit).run emptyStore [sampleClockFire]).latestClockCert = some sampleClockCert ∧
      sampleVblockCert.viewid.toNat < 2 ^ 63 ∧
      newViewId sampleVblockCert sampleClockCert ≤ ((empty "T1" : Pacemaker Unit).run emptyStore [sampleClockFire]).latestViewId ∧
      sampleVblockCert.viewid < ((empty "T1" : Pacemaker Unit).run emptyStore [sampleClockFire]).latestViewId :=
  have hv : ((empty "T1" : Pacemaker Unit).run emptyStore [sampleClockFire]).latestVblockCert = some sampleVblockCert := by
    decide
  have hc : ((empty "T1" : Pacemaker Unit).run emptyStore [sampleClockFire]).latestClockCert = some sampleClockCert := by
    decide
  have hb : sampleVblockCert.viewid.toNat < 2 ^ 63 := by decide
  ⟨hv, hc, hb, run_viewid_above_vblock emptyStore "T1" [sampleClockFire] _ _ hv hc hb⟩

/-- A leader starts a proposal only at the view its pacemaker is at, carrying the clock
certificate it holds, and, short of an overflow of the view id, above the view of the
certified block it holds. -/
theorem run_proposal_start_above_vblock [DecidableEq α] (bs : CertStore) (account : String)
    (events : List (PacemakerEvent α)) (latestClock latestCert latestCommit : Option CertBlock)
    (prop prop' : StartProposal) (c : ViewCert)
    (h : (((empty account : Pacemaker α).run bs events).onProposalStart bs latestClock latestCert latestCommit
      (some prop)).2 = .ready prop' c) :
    prop'.viewid = (((empty account : Pacemaker α).run bs events).onProposalStart bs latestClock latestCert
        latestCommit (some prop)).1.latestViewId ∧
      (((empty account : Pacemaker α).run bs events).onProposalStart bs latestClock latestCert latestCommit
        (some prop)).1.latestClockCert = some c ∧
      ∀ v, (((empty account : Pacemaker α).run bs events).onProposalStart bs latestClock latestCert latestCommit
        (some prop)).1.latestVblockCert = some v → v.viewid.toNat < 2 ^ 63 → v.viewid < prop'.viewid := by
  obtain ⟨hv, hc⟩ := onProposalStart_ready h
  have hinv := inv_of_moves (moves_onProposalStart bs _ latestClock latestCert latestCommit (some prop))
    (inv_run bs (inv_empty account) events)
  refine ⟨hv, hc, fun v hvb hbound => ?_⟩
  rw [hv]
  exact UInt64.lt_of_lt_of_le (lt_newViewId v c hbound) (hinv.ahead v c hvb hc)

/-- A leader's proposal at view 21 with no clock yet. -/
def sampleStartProposal : StartProposal := ⟨"T1", 21, 0, none⟩

/-- The start of that proposal, with the clock block and the certified block of `T1`. -/
def sampleProposalStart : Pacemaker Unit × ProposalStart :=
  ((empty "T1" : Pacemaker Unit).run emptyStore []).onProposalStart emptyStore (some sampleClockBlock)
    (some sampleVblock) none (some sampleStartProposal)

theorem run_proposal_start_above_vblock_sample :
    sampleProposalStart.2 = .ready ⟨"T1", 21, 130, none⟩ sampleClockCert ∧
      (⟨"T1", 21, 130, none⟩ : StartProposal).viewid = sampleProposalStart.1.latestViewId ∧
      sampleProposalStart.1.latestClockCert = some sampleClockCert ∧
      ∀ v, sampleProposalStart.1.latestVblockCert = some v → v.viewid.toNat < 2 ^ 63 →
        v.viewid < (⟨"T1", 21, 130, none⟩ : StartProposal).viewid :=
  have h : sampleProposalStart.2 = .ready ⟨"T1", 21, 130, none⟩ sampleClockCert := by decide
  ⟨h, run_proposal_start_above_vblock emptyStore "T1" [] (some sampleClockBlock) (some sampleVblock) none
    sampleStartProposal _ _ h⟩

/-! ### What the pacemaker hands to the driver -/

/-- An event handed down at `p`: its cookie is the view id `p` is at, and a vote is of
that view id. -/
def Aligned (p : Pacemaker α) (e : PduEvent α) : Prop :=
  e.cookie = p.latestViewId ∧ (e.packet.msgType = .vote → e.packet.viewid = p.latestViewId)

/-- A packet that `on_pdu_event_down` hands down goes unchanged, aligned with the view the
pacemaker is then at. -/
theorem aligned_onPduEventDown {bs : CertStore} {p : Pacemaker α} {pkt : Packet α}
    (h : (p.onPduEventDown bs pkt).2.2 = false) :
    (p.onPduEventDown bs pkt).2.1.packet = pkt ∧
      (p.onPduEventDown bs pkt).1.Aligned (p.onPduEventDown bs pkt).2.1 := by
  revert h
  unfold Aligned onPduEventDown
  dsimp only
  -- the second read of the view id for the alignment gives the first
  simp only [snd_getLatestViewid, fst_getLatestViewid_getLatestViewid]
  split
  · simp
  · split
    · simp
    · split
      · split
        · simp
        · split
          · -- not aligned, nothing to verify, and not a vote
            rename_i hvote
            intro _
            exact ⟨rfl, rfl, fun hv => absurd hv hvote⟩
          · simp
      · -- aligned
        rename_i heq
        intro _
        exact ⟨rfl, rfl, fun _ => not_not.mp heq⟩

/-- The callback of a verified event hands it on unchanged but for its cookie, aligned
with the view the verified certificates leave. -/
theorem aligned_afterVerifyCertJob [DecidableEq α] {p : Pacemaker α} {e e' : PduEvent α}
    {clockAuth vblockAuth : Bool} (h : (p.afterVerifyCertJob e clockAuth vblockAuth).2 = some e') :
    e'.packet = e.packet ∧ (p.afterVerifyCertJob e clockAuth vblockAuth).1.Aligned e' := by
  revert h
  unfold Aligned afterVerifyCertJob
  dsimp only
  split
  · split
    · -- aligned
      rename_i heq
      intro h
      cases h
      exact ⟨rfl, rfl, fun _ => heq⟩
    · split
      · -- not aligned, and not a vote
        rename_i hvote
        intro h
        cases h
        exact ⟨rfl, rfl, fun hv => absurd hv hvote⟩
      · intro h
        cases h
  · intro h
    cases h

/-- A packet that `on_pdu_event_down` hands down carries the view id the pacemaker is at
as its cookie, and a vote is handed down only if it is of that view id. -/
theorem pdu_handed_down_aligned (bs : CertStore) (p : Pacemaker α) (pkt : Packet α)
    (h : (p.onPduEventDown bs pkt).2.2 = false) :
    (p.onPduEventDown bs pkt).2.1.packet = pkt ∧
      (p.onPduEventDown bs pkt).2.1.cookie = (p.onPduEventDown bs pkt).1.latestViewId ∧
      (pkt.msgType = .vote → pkt.viewid = (p.onPduEventDown bs pkt).1.latestViewId) := by
  obtain ⟨hpkt, hcookie, hvote⟩ := aligned_onPduEventDown h
  rw [hpkt] at hvote
  exact ⟨hpkt, hcookie, hvote⟩

/-- A vote packet of `T1` at view 21. -/
def sampleVote : Packet Unit := ⟨.vote, 21, "T1", false, none, none, ()⟩

theorem pdu_handed_down_aligned_sampleVote :
    (((empty "T1" : Pacemaker Unit).run emptyStore [sampleClockFire]).onPduEventDown emptyStore sampleVote).2.2 = false ∧
      (((empty "T1" : Pacemaker Unit).run emptyStore [sampleClockFire]).onPduEventDown emptyStore sampleVote).2.1.packet =
        sampleVote ∧
      (((empty "T1" : Pacemaker Unit).run emptyStore [sampleClockFire]).onPduEventDown emptyStore sampleVote).2.1.cookie =
        (((empty "T1" : Pacemaker Unit).run emptyStore [sampleClockFire]).onPduEventDown emptyStore sampleVote).1.latestViewId ∧
      (sampleVote.msgType = .vote → sampleVote.viewid =
        (((empty "T1" : Pacemaker Unit).run emptyStore [sampleClockFire]).onPduEventDown emptyStore sampleVote).1.latestViewId) :=
  have h : (((empty "T1" : Pacemaker Unit).run emptyStore [sampleClockFire]).onPduEventDown emptyStore
      sampleVote).2.2 = false := by decide
  ⟨h, pdu_handed_down_aligned emptyStore _ sampleVote h⟩

/-- The event a pacemaker event hands down to the driver, if any: the packet
`on_pdu_event_down` lets through, or the verified event the callback of its verification
hands on. -/
def handedDown [DecidableEq α] (bs : CertStore) (p : Pacemaker α) : PacemakerEvent α → Option (PduEvent α)
  | .pduEventDown pkt =>
    if (p.onPduEventDown bs pkt).2.2 then none else some (p.onPduEventDown bs pkt).2.1
  | .afterVerifyCertJob e clockAuth vblockAuth => (p.afterVerifyCertJob e clockAuth vblockAuth).2
  | _ => none

/-- The events a run hands down to the driver, in the order it hands them down. -/
def runHandedDown [DecidableEq α] (bs : CertStore) : Pacemaker α → List (PacemakerEvent α) → List (PduEvent α)
  | _, [] => []
  | p, ev :: events => (p.handedDown bs ev).toList ++ runHandedDown bs (p.step bs ev) events

/-- What an event hands down is aligned with the state it leaves. -/
theorem aligned_handedDown [DecidableEq α] {bs : CertStore} {p : Pacemaker α} {ev : PacemakerEvent α}
    {e : PduEvent α} (h : p.handedDown bs ev = some e) : (p.step bs ev).Aligned e := by
  cases ev
  case pduEventDown pkt =>
    by_cases hstop : (p.onPduEventDown bs pkt).2.2 = true
    · simp [handedDown, hstop] at h
    · rw [handedDown, if_neg hstop, Option.some.injEq] at h
      subst h
      exact (aligned_onPduEventDown (Bool.eq_false_iff.mpr hstop)).2
  case afterVerifyCertJob e' clockAuth vblockAuth => exact (aligned_afterVerifyCertJob h).2
  all_goals simp [handedDown] at h

/-- Over every run, from any state, the events a pacemaker hands down to the driver carry
as cookie the view id it is at when it hands them down: the cookies never decrease and lie
between the view ids the run starts and ends at, and a vote is handed down only with its
view id equal to its cookie. -/
theorem run_handed_down_ordered [DecidableEq α] (bs : CertStore) (p : Pacemaker α)
    (events : List (PacemakerEvent α)) :
    ((p.runHandedDown bs events).map PduEvent.cookie).Pairwise (· ≤ ·) ∧
      ∀ e ∈ p.runHandedDown bs events, p.latestViewId ≤ e.cookie ∧
        e.cookie ≤ (p.run bs events).latestViewId ∧
        (e.packet.msgType = .vote → e.packet.viewid = e.cookie) := by
  -- induction on the events, from the state the first one leaves
  induction events generalizing p with
  | nil => simp [runHandedDown]
  | cons ev rest ih =>
    obtain ⟨hsorted, hbounds⟩ := ih (p.step bs ev)
    have hstep : p.latestViewId ≤ (p.step bs ev).latestViewId :=
      (advances_of_moves (moves_step bs p ev)).viewid
    have hrun : (p.step bs ev).latestViewId ≤ ((p.step bs ev).run bs rest).latestViewId :=
      (advances_run bs _ rest).viewid
    have htail : ∀ e ∈ (p.step bs ev).runHandedDown bs rest, p.latestViewId ≤ e.cookie ∧
        e.cookie ≤ ((p.step bs ev).run bs rest).latestViewId ∧
        (e.packet.msgType = .vote → e.packet.viewid = e.cookie) := by
      intro e he
      obtain ⟨hlow, hhigh, hvote⟩ := hbounds e he
      exact ⟨UInt64.le_trans hstep hlow, hhigh, hvote⟩
    rcases hh : p.handedDown bs ev with _ | e₀
    · -- the first event hands nothing down
      simp only [runHandedDown, hh, Option.toList_none, List.nil_append, run_cons]
      exact ⟨hsorted, htail⟩
    · -- the first event hands `e₀` down, at the view it leaves, below every later cookie
      obtain ⟨hcookie, hvote⟩ := aligned_handedDown hh
      simp only [runHandedDown, hh, Option.toList_some, List.singleton_append, List.map_cons,
        List.pairwise_cons, List.mem_cons, run_cons]
      refine ⟨⟨fun c hc => ?_, hsorted⟩, ?_⟩
      · obtain ⟨e, he, rfl⟩ := List.mem_map.mp hc
        rw [hcookie]
        exact (hbounds e he).1
      · rintro e (rfl | he)
        · rw [hcookie]
          exact ⟨hstep, hrun, hvote⟩
        · exact htail e he

end Pacemaker

end Bft
end TopChain

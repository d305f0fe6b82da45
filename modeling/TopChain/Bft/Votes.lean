import TopChain.Bft.Rules
import TopChain.Lib.CInt
import TopChain.Lib.Quorum
import Mathlib.Data.Finset.Card
import Mathlib.Data.List.Nodup

/-!
# The leader's count of votes

A leader starts consensus on a proposal (`on_proposal_start`) by counting its own vote,
and every vote a replica sends back is checked on a worker thread
(`fire_verify_vote_job`): once the replica's signature verifies, `add_voted_cert` of
`xproposal_t` adds it to the proposal's votes, and when the votes of both the validator
and the auditor group reach their thresholds the signatures are merged, the multi-
signature is verified and the proposal becomes authenticated; the callback then
certifies the block and broadcasts the commit message.

`add_voted_cert` is what makes the count mean something.  It refuses an empty address,
an address whose certificate authority names no signer account, an account that voted
already, an address of another election round and a signature seen already; the two
groups differ only in which address of the certificate they compare with, which
signature of the vote they keep and which map and counter they fill (`emplaceVote`).

Over every sequence of votes, in any order and with any repetition, each counter is the
number of distinct accounts that voted in its group, every counted voter is of the
group and election round of the leader's certificate, and no signature is counted twice
(`Votes.Inv`).  Each threshold of a group of `n` nodes is at least `2n/3 + 1`, so two
proposals authenticated by one group share more than `(n - 1) / 3` voting accounts, more
than the group tolerates as faulty (`voter_inter_of_authenticated`).

Addresses are `xvip2_t`.  What `xbase` extracts from an address (its election round
and its group's size, whether it is empty) and the account a certificate authority names
as an address's signer come from outside this repository: they are an `Env`.  The
counters are `std::atomic<int32_t>` and are kept as natural numbers: a counter is the
number of accounts that voted in its group, so it does not wrap as long as the group's
nodes sign with fewer than `2 ^ 31` accounts (`Env.SignsWithin`), and then the model's
counter is the `int32_t` one (`Collecting.toI32_count_run`).  The maps of voters are read as their entries;
their order only matters to the signature merge, which is not modelled.

## Main definitions

* `Xip2`, `QCert`, `Env`, `Role` — addresses, certificates, the outside world, groups.
* `Votes`, `addVotedCert` — the vote fields of an `xproposal_t` and `add_voted_cert`.
* `QCert.getValidatorThreshold`, `Votes.isVoteFinish` — thresholds and the finish test.
* `Collecting`, `verifyVoteJob`, `Collecting.run` — the leader's proposal under votes.
* `Env.SignsWithin` — the accounts a group's nodes sign as.
-/

namespace TopChain
namespace Bft

/-- `xvip2_t`: the address of a node. -/
structure Xip2 where
  lowAddr : UInt64
  highAddr : UInt64
  deriving DecidableEq, Repr, Inhabited

/-- The two groups that vote on a proposal. -/
inductive Role where
  | validator
  | auditor
  deriving DecidableEq, Repr

/-- What vote counting reads of an `xvqcert_t`: the leader's addresses in both groups,
the consensus byte and the two signatures. -/
structure QCert where
  validator : Xip2
  auditor : Xip2
  consensus : UInt8
  verifySignature : String
  auditSignature : String
  deriving DecidableEq, Repr, Inhabited

/-- What vote counting takes from outside the repository: `is_xip2_empty`,
`get_network_height_from_xip2`, `get_group_nodes_count_from_xip2` of `xbase`, and
`xvcertauth_t::get_signer`. -/
structure Env where
  isXip2Empty : Xip2 → Bool
  networkHeight : Xip2 → UInt64
  groupNodesCount : Xip2 → UInt32
  getSigner : Xip2 → String

namespace QCert

/-- `get_validator()` and `get_auditor()`. -/
def member (c : QCert) : Role → Xip2
  | .validator => c.validator
  | .auditor => c.auditor

/-- `get_verify_signature()` and `get_audit_signature()`. -/
def signature (c : QCert) : Role → String
  | .validator => c.verifySignature
  | .auditor => c.auditSignature

/-- `(xip << 8) >> 18`: an address without its eight flag bits and its ten-bit local id,
which names its group. -/
def coreNetworkXip (x : UInt64) : UInt64 := (x <<< 8) >>> 18

/-- The test of `is_validator` and `is_auditor`: the address is of the group of the
certificate's address of that role. -/
def isMember (c : QCert) (r : Role) (x : Xip2) : Bool :=
  coreNetworkXip (c.member r).lowAddr == coreNetworkXip x.lowAddr

/-- `xvqcert_t::is_validator`. -/
def isValidator (c : QCert) (x : Xip2) : Bool := c.isMember .validator x

/-- `xvqcert_t::is_auditor`. -/
def isAuditor (c : QCert) (x : Xip2) : Bool := c.isMember .auditor x

/-- `get_consensus_threshold()`: bits 3 and 4 of the consensus byte. -/
def getConsensusThreshold (c : QCert) : UInt8 := (c.consensus >>> 3) &&& 0x03

/-- `enum_xconsensus_threshold_2_of_3`. -/
def enumXconsensusThreshold2Of3 : UInt8 := 1

/-- `enum_xconsensus_threshold_3_of_4`. -/
def enumXconsensusThreshold3Of4 : UInt8 := 2

/-- The body of `get_validator_threshold` and `get_auditor_threshold`, for a group of
`groupNodesCount` nodes, in `uint32_t` arithmetic. -/
def askThreshold (c : QCert) (groupNodesCount : UInt32) : UInt32 :=
  if groupNodesCount = 0 then 0
  else if c.getConsensusThreshold = enumXconsensusThreshold2Of3 then groupNodesCount * 2 / 3 + 1
  else if c.getConsensusThreshold = enumXconsensusThreshold3Of4 then groupNodesCount * 3 / 4 + 1
  else groupNodesCount

/-- The threshold of a group: `askThreshold` at the size of the group of the
certificate's address of that role. -/
def threshold (env : Env) (c : QCert) (r : Role) : UInt32 :=
  c.askThreshold (env.groupNodesCount (c.member r))

/-- `xvqcert_t::get_validator_threshold`. -/
def getValidatorThreshold (env : Env) (c : QCert) : UInt32 := c.threshold env .validator

/-- `xvqcert_t::get_auditor_threshold`. -/
def getAuditorThreshold (env : Env) (c : QCert) : UInt32 := c.threshold env .auditor

/-- For a group of `n` nodes, `0 < n < 2 ^ 30`, every consensus rule asks at least
`2n/3 + 1` votes and at most `n`: the `uint32_t` products do not wrap there, and the
three-quarter and full rules ask more than the two-thirds one. -/
theorem askThreshold_bounds (c : QCert) {n : UInt32} (h0 : 0 < n.toNat) (hn : n.toNat < 2 ^ 30) :
    n.toNat * 2 / 3 + 1 ≤ (c.askThreshold n).toNat ∧ (c.askThreshold n).toNat ≤ n.toNat := by
  have hne : n ≠ 0 := fun h => by
    rw [h] at h0
    exact Nat.lt_irrefl 0 h0
  unfold askThreshold
  rw [if_neg hne]
  split_ifs
  · -- two thirds: neither the product nor the sum wraps
    rw [UInt32.toNat_add, UInt32.toNat_div, UInt32.toNat_mul]
    simp only [UInt32.toNat_ofNat, Nat.reducePow, Nat.reduceMod]
    rw [Nat.mod_eq_of_lt (a := n.toNat * 2) (by omega), Nat.mod_eq_of_lt (by omega)]
    omega
  · -- three quarters, likewise
    rw [UInt32.toNat_add, UInt32.toNat_div, UInt32.toNat_mul]
    simp only [UInt32.toNat_ofNat, Nat.reducePow, Nat.reduceMod]
    rw [Nat.mod_eq_of_lt (a := n.toNat * 3) (by omega), Nat.mod_eq_of_lt (by omega)]
    omega
  · -- every node
    omega

end QCert

/-- The nodes of the group of role `r` of a certificate, at the election round of the
certificate's address, sign as accounts of `members`. -/
def Env.SignsWithin (env : Env) (cert : QCert) (r : Role) (members : Finset String) : Prop :=
  ∀ x, cert.isMember r x = true → env.networkHeight (cert.member r) = env.networkHeight x →
    env.getSigner x ∈ members

/-- The vote fields of an `xproposal_t`: the two counters, the sets of voting accounts
and of signatures seen, and the voters of each group with their signatures. -/
structure Votes where
  votedValidatorsCount : ℕ
  votedAuditorsCount : ℕ
  allVotors : Finset String
  allVotedCert : Finset String
  votedValidators : List (Xip2 × String)
  votedAuditors : List (Xip2 × String)
  deriving DecidableEq

namespace Votes

/-- The vote fields of a new proposal. -/
def empty : Votes := ⟨0, 0, ∅, ∅, [], []⟩

/-- `m_voted_validators` and `m_voted_auditors`. -/
def voted (v : Votes) : Role → List (Xip2 × String)
  | .validator => v.votedValidators
  | .auditor => v.votedAuditors

/-- `m_voted_validators_count` and `m_voted_auditors_count`. -/
def count (v : Votes) : Role → ℕ
  | .validator => v.votedValidatorsCount
  | .auditor => v.votedAuditorsCount

/-- A counted vote: the signature enters `m_all_voted_cert`, the voter and signature the
group's map, the account `m_all_votors`, and the group's counter goes up. -/
def addVote (v : Votes) (r : Role) (voterXip : Xip2) (signature account : String) : Votes :=
  match r with
  | .validator =>
    { v with
      allVotedCert := insert signature v.allVotedCert
      votedValidators := v.votedValidators ++ [(voterXip, signature)]
      allVotors := insert account v.allVotors
      votedValidatorsCount := v.votedValidatorsCount + 1 }
  | .auditor =>
    { v with
      allVotedCert := insert signature v.allVotedCert
      votedAuditors := v.votedAuditors ++ [(voterXip, signature)]
      allVotors := insert account v.allVotors
      votedAuditorsCount := v.votedAuditorsCount + 1 }

/-- The branch of `add_voted_cert` for a voter of group `r`, once its account is known to
be new: the voter must be of the leader's election round and its signature new.  A voter
already in the group's map would leave its signature in `m_all_voted_cert` and count
nothing. -/
def emplaceVote (env : Env) (cert : QCert) (r : Role) (v : Votes) (voterXip : Xip2)
    (account signature : String) : Votes × Bool :=
  if env.networkHeight (cert.member r) ≠ env.networkHeight voterXip then (v, false)
  else if signature ∈ v.allVotedCert then (v, false)
  else if (v.voted r).any (fun e => e.1 == voterXip) then
    ({ v with allVotedCert := insert signature v.allVotedCert }, false)
  else (v.addVote r voterXip signature account, true)

/-- `xproposal_t::add_voted_cert`: the new vote fields, and whether the vote counted. -/
def addVotedCert (env : Env) (cert : QCert) (v : Votes) (voterXip : Xip2)
    (qcert : Option QCert) : Votes × Bool :=
  match qcert with
  | none => (v, false)
  | some q =>
    if env.isXip2Empty voterXip then (v, false)
    else
      let account := env.getSigner voterXip
      if account.isEmpty then (v, false)
      else if account ∈ v.allVotors then (v, false)
      else if cert.isValidator voterXip then
        emplaceVote env cert .validator v voterXip account (q.signature .validator)
      else if cert.isAuditor voterXip then
        emplaceVote env cert .auditor v voterXip account (q.signature .auditor)
      else (v, false)

/-- The test of `is_validators_finish_vote` and `is_auditors_finish_vote`: the group's
counter against its threshold cast to `int32_t`. -/
def isFinishVote (env : Env) (cert : QCert) (v : Votes) (r : Role) : Bool :=
  decide (toI32 (cert.threshold env r).toNat ≤ (v.count r : ℤ))

/-- `xproposal_t::is_validators_finish_vote`. -/
def isValidatorsFinishVote (env : Env) (cert : QCert) (v : Votes) : Bool :=
  v.isFinishVote env cert .validator

/-- `xproposal_t::is_auditors_finish_vote`. -/
def isAuditorsFinishVote (env : Env) (cert : QCert) (v : Votes) : Bool :=
  v.isFinishVote env cert .auditor

/-- `xproposal_t::is_vote_finish`. -/
def isVoteFinish (env : Env) (cert : QCert) (v : Votes) : Bool :=
  v.isValidatorsFinishVote env cert && v.isAuditorsFinishVote env cert

/-! ### The vote fields after a counted vote -/

@[simp] theorem voted_empty (r : Role) : empty.voted r = [] := by
  cases r <;> rfl

@[simp] theorem count_empty (r : Role) : empty.count r = 0 := by
  cases r <;> rfl

theorem voted_addVote (v : Votes) (r r' : Role) (x : Xip2) (s a : String) :
    (v.addVote r x s a).voted r' = if r' = r then v.voted r ++ [(x, s)] else v.voted r' := by
  cases r <;> cases r' <;> rfl

theorem count_addVote (v : Votes) (r r' : Role) (x : Xip2) (s a : String) :
    (v.addVote r x s a).count r' = if r' = r then v.count r + 1 else v.count r' := by
  cases r <;> cases r' <;> rfl

@[simp] theorem allVotors_addVote (v : Votes) (r : Role) (x : Xip2) (s a : String) :
    (v.addVote r x s a).allVotors = insert a v.allVotors := by
  cases r <;> rfl

@[simp] theorem allVotedCert_addVote (v : Votes) (r : Role) (x : Xip2) (s a : String) :
    (v.addVote r x s a).allVotedCert = insert s v.allVotedCert := by
  cases r <;> rfl

/-- The voters of both groups. -/
def entries (v : Votes) : List (Xip2 × String) := v.votedValidators ++ v.votedAuditors

theorem voted_sublist_entries (v : Votes) (r : Role) : (v.voted r).Sublist v.entries := by
  cases r
  · exact List.sublist_append_left _ _
  · exact List.sublist_append_right _ _

/-- A counted vote joins the voters, wherever its group's map puts it. -/
theorem entries_addVote_perm (v : Votes) (r : Role) (x : Xip2) (s a : String) :
    (v.addVote r x s a).entries.Perm ((x, s) :: v.entries) := by
  cases r
  · show (v.votedValidators ++ [(x, s)] ++ v.votedAuditors).Perm _
    rw [List.append_assoc, List.singleton_append]
    exact List.perm_middle
  · show (v.votedValidators ++ (v.votedAuditors ++ [(x, s)])).Perm _
    rw [← List.append_assoc]
    exact List.perm_append_singleton _ _

/-- The accounts that voted in a group. -/
def accounts (env : Env) (v : Votes) (r : Role) : Finset String :=
  ((v.voted r).map fun e => env.getSigner e.1).toFinset

/-! ### The invariant of the vote fields -/

/-- A voter `add_voted_cert` counts in group `r`: a non-empty address with a signer
account, of the group and election round of the leader's address in `r`; an auditor is
no validator, since the validator test comes first. -/
structure Admitted (env : Env) (cert : QCert) (r : Role) (x : Xip2) : Prop where
  nonempty : env.isXip2Empty x = false
  signer : (env.getSigner x).isEmpty = false
  member : cert.isMember r x = true
  round : env.networkHeight (cert.member r) = env.networkHeight x
  first : r = .auditor → cert.isValidator x = false

/-- What the vote fields keep: each counter counts its group's voters, the voters'
accounts are distinct and are `m_all_votors`, their signatures are distinct and seen,
and every voter was admitted to its group. -/
structure Inv (env : Env) (cert : QCert) (v : Votes) : Prop where
  count : ∀ r, v.count r = (v.voted r).length
  signers : (v.entries.map fun e => env.getSigner e.1).Nodup
  allVotors : v.allVotors = (v.entries.map fun e => env.getSigner e.1).toFinset
  signatures : (v.entries.map Prod.snd).Nodup
  seen : ∀ e ∈ v.entries, e.2 ∈ v.allVotedCert
  admitted : ∀ r, ∀ e ∈ v.voted r, Admitted env cert r e.1

variable {env : Env} {cert : QCert} {v : Votes}

theorem Inv.empty : Votes.empty.Inv env cert where
  count r := by simp
  signers := List.nodup_nil
  allVotors := rfl
  signatures := List.nodup_nil
  seen e he := by simp [entries, Votes.empty] at he
  admitted r e he := by simp at he

/-- Counting a vote of a new account with a new signature keeps the invariant. -/
theorem Inv.addVote (hv : v.Inv env cert) {r : Role} {x : Xip2} {s : String}
    (hadm : Admitted env cert r x) (ha : env.getSigner x ∉ v.allVotors)
    (hs : s ∉ v.allVotedCert) : (v.addVote r x s (env.getSigner x)).Inv env cert := by
  have hperm := v.entries_addVote_perm r x s (env.getSigner x)
  rw [hv.allVotors, List.mem_toFinset] at ha
  have hsnd : s ∉ v.entries.map Prod.snd := fun h => by
    obtain ⟨e, he, rfl⟩ := List.mem_map.mp h
    exact hs (hv.seen e he)
  refine ⟨fun r' => ?_, ?_, ?_, ?_, fun e he => ?_, fun r' e he => ?_⟩
  · rw [count_addVote, voted_addVote]
    split_ifs with h
    · rw [hv.count, List.length_append, List.length_singleton]
    · exact hv.count r'
  · rw [(hperm.map _).nodup_iff, List.map_cons, List.nodup_cons]
    exact ⟨ha, hv.signers⟩
  · rw [allVotors_addVote, List.toFinset_eq_of_perm _ _ (hperm.map _), List.map_cons, List.toFinset_cons,
      hv.allVotors]
  · rw [(hperm.map _).nodup_iff, List.map_cons, List.nodup_cons]
    exact ⟨hsnd, hv.signatures⟩
  · rw [allVotedCert_addVote]
    rcases List.mem_cons.mp (hperm.mem_iff.mp he) with rfl | he
    · exact Finset.mem_insert_self _ _
    · exact Finset.mem_insert_of_mem (hv.seen e he)
  · rw [voted_addVote] at he
    split_ifs at he with h
    · subst h
      rcases List.mem_append.mp he with he | he
      · exact hv.admitted r' e he
      · rw [List.mem_singleton] at he
        rw [he]
        exact hadm
    · exact hv.admitted r' e he

/-- A voter whose account has not voted is in neither group's map: this is why the
branch of `add_voted_cert` where the map already holds the voter is never taken. -/
theorem Inv.any_voted_eq_false (hv : v.Inv env cert) {x : Xip2}
    (ha : env.getSigner x ∉ v.allVotors) (r : Role) :
    (v.voted r).any (fun e => e.1 == x) = false := by
  rw [List.any_eq_false]
  intro e he hex
  rw [beq_iff_eq] at hex
  apply ha
  rw [hv.allVotors, List.mem_toFinset, ← hex]
  exact List.mem_map_of_mem ((v.voted_sublist_entries r).subset he)

/-- `add_voted_cert` on a state that keeps the invariant either refuses the vote and
changes nothing, or counts it in a group that admits the voter, for a new account and a
new signature. -/
theorem Inv.addVotedCert_cases (hv : v.Inv env cert) (x : Xip2) (q : Option QCert) :
    v.addVotedCert env cert x q = (v, false) ∨
      ∃ r c, q = some c ∧ Admitted env cert r x ∧ env.getSigner x ∉ v.allVotors ∧
        c.signature r ∉ v.allVotedCert ∧
        v.addVotedCert env cert x q = (v.addVote r x (c.signature r) (env.getSigner x), true) := by
  rcases q with _ | c
  · exact .inl rfl
  unfold addVotedCert
  dsimp only
  by_cases he : env.isXip2Empty x = true
  · exact .inl (if_pos he)
  rw [if_neg he]
  by_cases hs : (env.getSigner x).isEmpty = true
  · exact .inl (if_pos hs)
  rw [if_neg hs]
  by_cases ha : env.getSigner x ∈ v.allVotors
  · exact .inl (if_pos ha)
  rw [if_neg ha]
  -- the group tests come in order: validator, then auditor
  have hbranch : ∀ r, cert.isMember r x = true → (r = .auditor → cert.isValidator x = false) →
      emplaceVote env cert r v x (env.getSigner x) (c.signature r) = (v, false) ∨
        ∃ r' c', some c = some c' ∧ Admitted env cert r' x ∧ env.getSigner x ∉ v.allVotors ∧
          c'.signature r' ∉ v.allVotedCert ∧
          emplaceVote env cert r v x (env.getSigner x) (c.signature r) =
            (v.addVote r' x (c'.signature r') (env.getSigner x), true) := by
    intro r hm hfirst
    unfold emplaceVote
    by_cases hround : env.networkHeight (cert.member r) ≠ env.networkHeight x
    · exact .inl (if_pos hround)
    rw [if_neg hround]
    by_cases hsig : c.signature r ∈ v.allVotedCert
    · exact .inl (if_pos hsig)
    rw [if_neg hsig, hv.any_voted_eq_false ha r]
    refine .inr ⟨r, c, rfl, ⟨Bool.eq_false_iff.mpr he, Bool.eq_false_iff.mpr hs, hm,
      not_not.mp hround, hfirst⟩, ha, hsig, ?_⟩
    rw [if_neg Bool.false_ne_true]
  by_cases hval : cert.isValidator x = true
  · rw [if_pos hval]
    exact hbranch .validator hval (fun h => Role.noConfusion h)
  rw [if_neg hval]
  by_cases haud : cert.isAuditor x = true
  · rw [if_pos haud]
    exact hbranch .auditor haud (fun _ => Bool.eq_false_iff.mpr hval)
  · exact .inl (if_neg haud)

/-- `add_voted_cert` keeps the invariant. -/
theorem Inv.addVotedCert (hv : v.Inv env cert) (x : Xip2) (q : Option QCert) :
    (v.addVotedCert env cert x q).1.Inv env cert := by
  rcases hv.addVotedCert_cases x q with h | ⟨r, c, -, hadm, ha, hs, h⟩
  · rw [h]
    exact hv
  · rw [h]
    exact hv.addVote hadm ha hs

/-! ### Finished votes -/

theorem isFinishVote_of_isVoteFinish (h : v.isVoteFinish env cert = true) (r : Role) :
    v.isFinishVote env cert r = true := by
  rw [isVoteFinish, Bool.and_eq_true] at h
  cases r
  · exact h.1
  · exact h.2

/-- A finished group has counted its threshold, as long as the threshold survives the
cast to `int32_t`. -/
theorem threshold_le_count (h : v.isFinishVote env cert r = true)
    (hsmall : (cert.threshold env r).toNat < 2 ^ 31) : (cert.threshold env r).toNat ≤ v.count r := by
  rw [isFinishVote, decide_eq_true_iff, toI32, toSigned_of_lt (Int.natCast_nonneg _)
    (by exact_mod_cast hsmall)] at h
  exact_mod_cast h

/-- The accounts that voted in a group are as many as its counter says. -/
theorem Inv.card_accounts (hv : v.Inv env cert) (r : Role) :
    (v.accounts env r).card = v.count r := by
  have hnd : ((v.voted r).map fun e => env.getSigner e.1).Nodup :=
    hv.signers.sublist ((v.voted_sublist_entries r).map _)
  rw [accounts, List.toFinset_card_of_nodup hnd, List.length_map, hv.count]

/-- The accounts that voted in a group are accounts of the group's nodes of the leader's
election round. -/
theorem Inv.accounts_subset (hv : v.Inv env cert) {r : Role} {members : Finset String}
    (hmem : ∀ x, cert.isMember r x = true →
      env.networkHeight (cert.member r) = env.networkHeight x → env.getSigner x ∈ members) :
    v.accounts env r ⊆ members := by
  intro a ha
  rw [accounts, List.mem_toFinset, List.mem_map] at ha
  obtain ⟨e, he, rfl⟩ := ha
  have hadm := hv.admitted r e he
  exact hmem e.1 hadm.member hadm.round

/-- A group whose nodes sign with fewer than `2 ^ 31` accounts does not overflow its
`int32_t` counter: the counter read as an `int32_t` is the count. -/
theorem Inv.toI32_count (hv : v.Inv env cert) {r : Role} {members : Finset String}
    (hsig : env.SignsWithin cert r members) (hsmall : members.card < 2 ^ 31) :
    toI32 (v.count r) = v.count r := by
  have hle : v.count r ≤ members.card := by
    rw [← hv.card_accounts r]
    exact Finset.card_le_card (hv.accounts_subset hsig)
  have hlt : ((v.count r : ℕ) : ℤ) < 2 ^ (32 - 1) := by
    norm_num
    omega
  exact toSigned_of_lt (Int.natCast_nonneg _) hlt

/-- A vote `add_voted_cert` refuses leaves the vote fields as they were. -/
theorem Inv.addVotedCert_of_refused (hv : v.Inv env cert) {x : Xip2} {q : Option QCert}
    (h : (v.addVotedCert env cert x q).2 = false) : (v.addVotedCert env cert x q).1 = v := by
  rcases hv.addVotedCert_cases x q with h' | ⟨r, c, -, -, -, -, h'⟩
  · rw [h']
  · rw [h'] at h
    cases h

end Votes

/-- The leader's proposal while it collects votes: its vote fields, whether voting was
disabled, and whether the block is authenticated. -/
structure Collecting where
  votes : Votes
  allowVote : AllowVote
  authenticated : Bool
  deriving DecidableEq

/-- What happens to the leader's proposal: a vote job runs on the worker thread, with
the outcome of `verify_sign` on the replica's certificate and of `verify_muti_sign` on
the merged signatures; or voting is disabled. -/
inductive VoteEvent where
  | verifyVote (voterXip : Xip2) (replicaCert : QCert) (verifySign verifyMutiSign : Bool)
  | disableVote
  deriving DecidableEq, Repr

/-- The job of `fire_verify_vote_job`: a vote for a proposal whose voting is neither
disabled nor finished, with a valid signature, is added; if that finishes the vote and
the merged signature verifies, the proposal is authenticated and the callback, which
certifies the block and broadcasts the commit message, is dispatched (`true`). -/
def verifyVoteJob (env : Env) (cert : QCert) (p : Collecting) (voterXip : Xip2)
    (replicaCert : QCert) (verifySign verifyMutiSign : Bool) : Collecting × Bool :=
  if p.allowVote = .disable then (p, false)
  else if p.votes.isVoteFinish env cert then (p, false)
  else if !verifySign then (p, false)
  else
    let r := p.votes.addVotedCert env cert voterXip (some replicaCert)
    if r.2 && r.1.isVoteFinish env cert && verifyMutiSign then
      ({ p with votes := r.1, authenticated := true }, true)
    else ({ p with votes := r.1 }, false)

namespace Collecting

/-- `on_proposal_start` once the proposal is filed: the flags are reset, the leader's own
certificate is counted as its vote, and voting is enabled. -/
def start (env : Env) (cert : QCert) (self : Xip2) : Collecting :=
  ⟨(Votes.empty.addVotedCert env cert self (some cert)).1, .enable, false⟩

/-- One event, and whether it dispatched the callback. -/
def step (env : Env) (cert : QCert) (p : Collecting) : VoteEvent → Collecting × Bool
  | .verifyVote x q s m => verifyVoteJob env cert p x q s m
  | .disableVote => ({ p with allowVote := .disable }, false)

/-- A run of events, and how many times it dispatched the callback. -/
def run (env : Env) (cert : QCert) : Collecting → List VoteEvent → Collecting × ℕ
  | p, [] => (p, 0)
  | p, e :: es =>
    let r := p.step env cert e
    let t := run env cert r.1 es
    (t.1, t.2 + if r.2 then 1 else 0)

variable {env : Env} {cert : QCert} {p : Collecting}

/-! ### What a step does -/

/-- A finished vote stops every job: nothing changes and nothing is dispatched. -/
theorem step_of_isVoteFinish (h : p.votes.isVoteFinish env cert = true) (e : VoteEvent) :
    (p.step env cert e).1.votes = p.votes ∧ (p.step env cert e).2 = false := by
  cases e with
  | verifyVote x q s m =>
    show (verifyVoteJob env cert p x q s m).1.votes = p.votes ∧
      (verifyVoteJob env cert p x q s m).2 = false
    unfold verifyVoteJob
    by_cases hd : p.allowVote = .disable
    · rw [if_pos hd]
      exact ⟨rfl, rfl⟩
    · rw [if_neg hd, if_pos h]
      exact ⟨rfl, rfl⟩
  | disableVote => exact ⟨rfl, rfl⟩

/-- A step that dispatches the callback finds the vote unfinished and leaves it finished. -/
theorem step_of_dispatch {e : VoteEvent} (h : (p.step env cert e).2 = true) :
    p.votes.isVoteFinish env cert = false ∧ (p.step env cert e).1.votes.isVoteFinish env cert = true := by
  cases e with
  | verifyVote x q s m =>
    change (verifyVoteJob env cert p x q s m).2 = true at h
    show p.votes.isVoteFinish env cert = false ∧
      (verifyVoteJob env cert p x q s m).1.votes.isVoteFinish env cert = true
    unfold verifyVoteJob at h ⊢
    by_cases hd : p.allowVote = .disable
    · rw [if_pos hd] at h
      cases h
    rw [if_neg hd] at h ⊢
    by_cases hf : p.votes.isVoteFinish env cert = true
    · rw [if_pos hf] at h
      cases h
    rw [if_neg hf] at h ⊢
    refine ⟨Bool.eq_false_iff.mpr hf, ?_⟩
    by_cases hs : (!s) = true
    · rw [if_pos hs] at h
      cases h
    rw [if_neg hs] at h ⊢
    dsimp only at h ⊢
    by_cases hok : ((p.votes.addVotedCert env cert x (some q)).2 &&
        (p.votes.addVotedCert env cert x (some q)).1.isVoteFinish env cert && m) = true
    · rw [if_pos hok]
      rw [Bool.and_eq_true, Bool.and_eq_true] at hok
      exact hok.1.2
    · rw [if_neg hok] at h
      cases h
  | disableVote => cases h

/-! ### The invariant of the leader's proposal -/

/-- What the leader's proposal keeps: its vote fields keep `Votes.Inv`, and it is
authenticated only once its vote finished. -/
structure Inv (env : Env) (cert : QCert) (p : Collecting) : Prop where
  votes : p.votes.Inv env cert
  finished : p.authenticated = true → p.votes.isVoteFinish env cert = true

theorem inv_start (self : Xip2) : (start env cert self).Inv env cert :=
  ⟨Votes.Inv.empty.addVotedCert self (some cert), fun h => Bool.noConfusion h⟩

theorem Inv.step (hp : p.Inv env cert) (e : VoteEvent) : (p.step env cert e).1.Inv env cert := by
  cases e with
  | verifyVote x q s m =>
    show (verifyVoteJob env cert p x q s m).1.Inv env cert
    unfold verifyVoteJob
    by_cases hd : p.allowVote = .disable
    · rw [if_pos hd]
      exact hp
    rw [if_neg hd]
    by_cases hf : p.votes.isVoteFinish env cert = true
    · rw [if_pos hf]
      exact hp
    rw [if_neg hf]
    by_cases hs : (!s) = true
    · rw [if_pos hs]
      exact hp
    rw [if_neg hs]
    dsimp only
    by_cases hok : ((p.votes.addVotedCert env cert x (some q)).2 &&
        (p.votes.addVotedCert env cert x (some q)).1.isVoteFinish env cert && m) = true
    · -- the vote finished: the proposal is authenticated
      rw [if_pos hok]
      rw [Bool.and_eq_true, Bool.and_eq_true] at hok
      exact ⟨hp.votes.addVotedCert x (some q), fun _ => hok.1.2⟩
    · -- an unfinished proposal was never authenticated
      rw [if_neg hok]
      refine ⟨hp.votes.addVotedCert x (some q), fun ha => ?_⟩
      exact absurd (hp.finished ha) hf
  | disableVote => exact ⟨hp.votes, hp.finished⟩

theorem Inv.run (hp : p.Inv env cert) (es : List VoteEvent) :
    (Collecting.run env cert p es).1.Inv env cert := by
  induction es generalizing p with
  | nil => exact hp
  | cons e es ih => exact ih (hp.step e)

/-- From a proposal whose vote is unfinished a run dispatches the callback once at most,
and from a finished one never. -/
theorem run_snd_le (es : List VoteEvent) :
    (Collecting.run env cert p es).2 ≤ if p.votes.isVoteFinish env cert then 0 else 1 := by
  induction es generalizing p with
  | nil => exact Nat.zero_le _
  | cons e es ih =>
    show (Collecting.run env cert (p.step env cert e).1 es).2 +
      (if (p.step env cert e).2 then 1 else 0) ≤ _
    by_cases hd : (p.step env cert e).2 = true
    · -- the dispatch finishes the vote, so the rest of the run dispatches nothing
      obtain ⟨hbefore, hafter⟩ := step_of_dispatch hd
      have hrest := ih (p := (p.step env cert e).1)
      rw [if_pos hafter] at hrest
      rw [if_pos hd, hbefore]
      simp only [Bool.false_eq_true, if_false]
      omega
    · rw [if_neg hd, Nat.add_zero]
      by_cases hf : p.votes.isVoteFinish env cert = true
      · have hrest := ih (p := (p.step env cert e).1)
        rw [(step_of_isVoteFinish hf e).1, if_pos hf] at hrest
        rw [if_pos hf]
        exact hrest
      · have hrest := ih (p := (p.step env cert e).1)
        rw [if_neg hf]
        split_ifs at hrest <;> omega

/-- An authenticated proposal of a group of `n` nodes, `0 < n < 2 ^ 30`, has votes of
at least `2n/3 + 1` accounts in that group. -/
theorem Inv.card_accounts_of_authenticated (hp : p.Inv env cert) (ha : p.authenticated = true)
    (r : Role) (h0 : 0 < (env.groupNodesCount (cert.member r)).toNat)
    (hsmall : (env.groupNodesCount (cert.member r)).toNat < 2 ^ 30) :
    (env.groupNodesCount (cert.member r)).toNat * 2 / 3 + 1 ≤ (p.votes.accounts env r).card := by
  have hbounds := cert.askThreshold_bounds h0 hsmall
  have hfin := Votes.isFinishVote_of_isVoteFinish (hp.finished ha) r
  have hle := Votes.threshold_le_count hfin (by unfold QCert.threshold; omega)
  rw [hp.votes.card_accounts]
  unfold QCert.threshold at hle
  omega

/-- Over every run of the leader's proposal, a group whose nodes sign with fewer than
`2 ^ 31` accounts keeps its `int32_t` counter equal to the model's. -/
theorem toI32_count_run {r : Role} {members : Finset String} (hsig : env.SignsWithin cert r members)
    (hsmall : members.card < 2 ^ 31) (self : Xip2) (es : List VoteEvent) :
    toI32 ((run env cert (start env cert self) es).1.votes.count r) =
      (run env cert (start env cert self) es).1.votes.count r :=
  ((inv_start self).run es).votes.toI32_count hsig hsmall

end Collecting

/-! ### Runs of the leader -/

section Runs

variable {env : Env} {cert : QCert}

/-- Over every run of vote jobs and disables after `on_proposal_start`, in any order and
with any repetition, the vote fields keep `Votes.Inv`: each counter is the number of its
group's voters, the voters' accounts are distinct and are `m_all_votors`, no signature
counts twice, and every voter is of its group and of the leader's election round. -/
theorem votesInv_run (self : Xip2) (es : List VoteEvent) :
    (Collecting.run env cert (Collecting.start env cert self) es).1.votes.Inv env cert :=
  ((Collecting.inv_start self).run es).votes

/-- Over every run, the leader dispatches the callback that certifies the block and
broadcasts the commit message at most once. -/
theorem dispatch_run_le_one (self : Xip2) (es : List VoteEvent) :
    (Collecting.run env cert (Collecting.start env cert self) es).2 ≤ 1 := by
  have h : (Collecting.run env cert (Collecting.start env cert self) es).2 ≤
      if (Collecting.start env cert self).votes.isVoteFinish env cert then 0 else 1 :=
    Collecting.run_snd_le es
  split_ifs at h <;> omega

/-- A group of four validators at the addresses `0x400` to `0x403`, of the accounts `a`
to `d`, with no auditor group. -/
def fourNodeEnv : Env where
  isXip2Empty x := x.lowAddr == 0 && x.highAddr == 0
  networkHeight x := x.highAddr
  groupNodesCount x := if QCert.coreNetworkXip x.lowAddr = 1 then 4 else 0
  getSigner x :=
    if QCert.coreNetworkXip x.lowAddr = 1 then
      if x.lowAddr % 4 = 0 then "a" else if x.lowAddr % 4 = 1 then "b"
      else if x.lowAddr % 4 = 2 then "c" else "d"
    else ""

/-- The certificate of a proposal of the leader `0x400` under the two-thirds rule. -/
def fourNodeCert : QCert := ⟨⟨0x400, 0⟩, ⟨0x800, 0⟩, 8, "sa", ""⟩

/-- The votes of `0x401` and `0x402`, whose signatures verify. -/
def twoVotes : List VoteEvent :=
  [.verifyVote ⟨0x401, 0⟩ ⟨⟨0x400, 0⟩, ⟨0x800, 0⟩, 8, "sb", ""⟩ true true,
   .verifyVote ⟨0x402, 0⟩ ⟨⟨0x400, 0⟩, ⟨0x800, 0⟩, 8, "sc", ""⟩ true true]

/-- Every node of the four-node group signs as one of its four accounts. -/
theorem fourNodeEnv_signsWithin (c : QCert) (hc : QCert.coreNetworkXip c.validator.lowAddr = 1) :
    fourNodeEnv.SignsWithin c .validator {"a", "b", "c", "d"} := by
  intro x hx _
  have hcore : QCert.coreNetworkXip x.lowAddr = 1 := by
    rw [QCert.isMember, beq_iff_eq] at hx
    rw [← hx]
    exact hc
  show (if QCert.coreNetworkXip x.lowAddr = 1 then _ else _) ∈ _
  rw [if_pos hcore]
  split_ifs <;> decide

/-- In every state a run reaches, a vote that `add_voted_cert` refuses leaves the vote
fields as they were: the branch that records a signature without counting it is never
taken. -/
theorem addVotedCert_refused_run {self : Xip2} {es : List VoteEvent} {x : Xip2}
    {q : Option QCert}
    (h : ((Collecting.run env cert (Collecting.start env cert self) es).1.votes.addVotedCert
      env cert x q).2 = false) :
    ((Collecting.run env cert (Collecting.start env cert self) es).1.votes.addVotedCert
      env cert x q).1 = (Collecting.run env cert (Collecting.start env cert self) es).1.votes :=
  (votesInv_run self es).addVotedCert_of_refused h

/-- After `0x401` and `0x402` voted, a second vote of `0x401` is refused and changes
nothing. -/
theorem addVotedCert_repeated_voter :
    ((Collecting.run fourNodeEnv fourNodeCert (Collecting.start fourNodeEnv fourNodeCert
      ⟨0x400, 0⟩) twoVotes).1.votes.addVotedCert fourNodeEnv fourNodeCert ⟨0x401, 0⟩
        (some fourNodeCert)).2 = false ∧
    ((Collecting.run fourNodeEnv fourNodeCert (Collecting.start fourNodeEnv fourNodeCert
      ⟨0x400, 0⟩) twoVotes).1.votes.addVotedCert fourNodeEnv fourNodeCert ⟨0x401, 0⟩
        (some fourNodeCert)).1 =
      (Collecting.run fourNodeEnv fourNodeCert (Collecting.start fourNodeEnv fourNodeCert
        ⟨0x400, 0⟩) twoVotes).1.votes :=
  ⟨by decide, addVotedCert_refused_run (by decide)⟩

/-- Two proposals authenticated by one group of `n` nodes, `0 < n < 2 ^ 30`, whose nodes
of the leaders' election rounds have at most `n` accounts: for any `f ≤ (n - 1) / 3`
accounts, some account outside them voted for both. -/
theorem voter_inter_of_authenticated {c₁ c₂ : QCert} {s₁ s₂ : Xip2}
    {es₁ es₂ : List VoteEvent} {r : Role} {members faulty : Finset String}
    (hsize : env.groupNodesCount (c₂.member r) = env.groupNodesCount (c₁.member r))
    (h0 : 0 < (env.groupNodesCount (c₁.member r)).toNat)
    (hsmall : (env.groupNodesCount (c₁.member r)).toNat < 2 ^ 30)
    (hcard : members.card ≤ (env.groupNodesCount (c₁.member r)).toNat)
    (hmem₁ : ∀ x, c₁.isMember r x = true →
      env.networkHeight (c₁.member r) = env.networkHeight x → env.getSigner x ∈ members)
    (hmem₂ : ∀ x, c₂.isMember r x = true →
      env.networkHeight (c₂.member r) = env.networkHeight x → env.getSigner x ∈ members)
    (hfaulty : faulty.card ≤ ((env.groupNodesCount (c₁.member r)).toNat - 1) / 3)
    (ha₁ : (Collecting.run env c₁ (Collecting.start env c₁ s₁) es₁).1.authenticated = true)
    (ha₂ : (Collecting.run env c₂ (Collecting.start env c₂ s₂) es₂).1.authenticated = true) :
    ∃ a ∈ (Collecting.run env c₁ (Collecting.start env c₁ s₁) es₁).1.votes.accounts env r,
      a ∈ (Collecting.run env c₂ (Collecting.start env c₂ s₂) es₂).1.votes.accounts env r ∧
        a ∉ faulty := by
  have hp₁ : (Collecting.run env c₁ (Collecting.start env c₁ s₁) es₁).1.Inv env c₁ :=
    (Collecting.inv_start s₁).run es₁
  have hp₂ : (Collecting.run env c₂ (Collecting.start env c₂ s₂) es₂).1.Inv env c₂ :=
    (Collecting.inv_start s₂).run es₂
  -- each proposal has votes of at least `2n/3 + 1` accounts of the group
  have hcard₁ := hp₁.card_accounts_of_authenticated ha₁ r h0 hsmall
  have hcard₂ := hp₂.card_accounts_of_authenticated ha₂ r (hsize ▸ h0) (hsize ▸ hsmall)
  rw [hsize] at hcard₂
  refine Quorum.exists_mem_inter_not_mem (hp₁.votes.accounts_subset hmem₁)
    (hp₂.votes.accounts_subset hmem₂) ?_
  omega

/-- The certificate of a proposal of the leader `0x401` of the four-node group. -/
def otherCert : QCert := ⟨⟨0x401, 0⟩, ⟨0x800, 0⟩, 8, "tb", ""⟩

/-- The votes of `0x402` and `0x403` for the proposal of `otherCert`. -/
def otherVotes : List VoteEvent :=
  [.verifyVote ⟨0x402, 0⟩ ⟨⟨0x401, 0⟩, ⟨0x800, 0⟩, 8, "tc", ""⟩ true true,
   .verifyVote ⟨0x403, 0⟩ ⟨⟨0x401, 0⟩, ⟨0x800, 0⟩, 8, "td", ""⟩ true true]

/-- The four-node group authenticates the proposal of `0x400` on the votes of `a`, `b`
and `c`, and that of `0x401` on the votes of `b`, `c` and `d`; with `b` faulty, another
account voted for both. -/
theorem voter_inter_fourNode :
    ∃ a ∈ (Collecting.run fourNodeEnv fourNodeCert (Collecting.start fourNodeEnv fourNodeCert
        ⟨0x400, 0⟩) twoVotes).1.votes.accounts fourNodeEnv .validator,
      a ∈ (Collecting.run fourNodeEnv otherCert (Collecting.start fourNodeEnv otherCert
        ⟨0x401, 0⟩) otherVotes).1.votes.accounts fourNodeEnv .validator ∧
        a ∉ ({"b"} : Finset String) :=
  voter_inter_of_authenticated rfl (by decide) (by decide) (by decide)
    (fourNodeEnv_signsWithin fourNodeCert (by decide)) (fourNodeEnv_signsWithin otherCert (by decide))
    (by decide) (by decide) (by decide)

/-- The leader's run of `twoVotes` counts three validators, and its `int32_t` counter
reads three. -/
theorem toI32_count_run_twoVotes :
    (Collecting.run fourNodeEnv fourNodeCert (Collecting.start fourNodeEnv fourNodeCert ⟨0x400, 0⟩)
        twoVotes).1.votes.count .validator = 3 ∧
      toI32 ((Collecting.run fourNodeEnv fourNodeCert (Collecting.start fourNodeEnv fourNodeCert ⟨0x400, 0⟩)
        twoVotes).1.votes.count .validator) =
        (Collecting.run fourNodeEnv fourNodeCert (Collecting.start fourNodeEnv fourNodeCert ⟨0x400, 0⟩)
          twoVotes).1.votes.count .validator :=
  ⟨by decide, Collecting.toI32_count_run (fourNodeEnv_signsWithin fourNodeCert (by decide)) (by decide) _ _⟩

end Runs

end Bft
end TopChain

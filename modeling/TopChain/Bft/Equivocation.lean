import TopChain.Bft.Safety

/-!
# A replica votes at most once in a view

A replica of xBFT emits a vote only for a proposal object that `vote_for_proposal`
enabled, and marks it voted.  It enables a new proposal only if its view id is above the
voted view id (`safe_precheck_for_voting`), which every enabled proposal has raised, and
a proposal of the map only if it is the map's one proposal of its view id.  So no two
proposal objects it stands behind share a view id, and the votes it emits are of
pairwise different view ids: the replica never equivocates, over any interleaving of its
events, the commit path included.

The voted metric alone does not carry this.  A proposal filed in the map stays there
while proposals of higher view ids are enabled and raise the metric past it, and
`on_new_block_fire` may still enable it; what keeps it apart from the proposals enabled
before is that the map holds one proposal per view id, and that a proposal is filed only
above the metric.

## Main definitions

* `Proposal.Backed` — enabled by `vote_for_proposal`, or voted.
* `Rules.Lowers` — what every mutator of the rules but `add_proposal` does: no object
  becomes backed, none loses its vote, and the map only loses entries.
* `Rules.Free`, `Rules.Votable` — no other backed object (and no other proposal of the
  map) shares the view id of a proposal object.
* `Rules.Unequivocal` — the invariant, of the rules and the votes emitted.

## Main results

* `Rules.Unequivocal.voteForProposal`, `Driver.unequivocal_handleProposalMsg`,
  `Driver.unequivocal_onNewBlockFire`, `Driver.unequivocal_verifyCallback` — the steps.
* `votes_viewid_nodup` — the votes of a run are of pairwise different view ids.
-/

namespace TopChain
namespace Bft

namespace Proposal

/-- A proposal the replica stands behind: enabled by `vote_for_proposal`, or voted. -/
def Backed (p : Proposal) : Prop := p.allowVote = .enable ∨ p.voted = true

instance : DecidablePred Backed := fun p => inferInstanceAs (Decidable (p.allowVote = .enable ∨ p.voted = true))

theorem not_backed_default : ¬(default : Proposal).Backed := by decide

/-- A change of flags that backs nothing new, takes no vote back and enables no
disabled proposal again. -/
def Recedes (p p' : Proposal) : Prop :=
  (p'.Backed → p.Backed) ∧ (p.voted = true → p'.voted = true) ∧ (p.allowVote = .disable → p'.allowVote = .disable)

theorem Recedes.refl (p : Proposal) : p.Recedes p := ⟨id, id, id⟩

theorem Recedes.trans {p₁ p₂ p₃ : Proposal} (h₁ : p₁.Recedes p₂) (h₂ : p₂.Recedes p₃) : p₁.Recedes p₃ :=
  ⟨h₁.1 ∘ h₂.1, h₂.2.1 ∘ h₁.2.1, h₂.2.2 ∘ h₁.2.2⟩

/-- A disabled proposal is backed only by its vote. -/
theorem recedes_disableVote (p : Proposal) : p.Recedes p.disableVote := by
  refine ⟨fun h => .inr ?_, id, fun _ => rfl⟩
  simpa [Backed, disableVote] using h

/-- Nothing an object past the end of the list recedes to is backed. -/
theorem recedes_default {p : Proposal} (hp : ¬p.Backed) : (default : Proposal).Recedes p :=
  ⟨fun h => absurd h hp, fun h => absurd h (by decide), fun h => absurd h (by decide)⟩

end Proposal

namespace Rules

open Proposal

/-! ### Backed objects -/

/-- A backed object is one of the list. -/
theorem lt_of_backed {s : Rules} {i : ℕ} (h : (s.obj i).Backed) : i < s.objs.length := by
  by_contra hi
  rw [obj, List.getD_eq_getElem?_getD, List.getElem?_eq_none (by omega), Option.getD_none] at h
  exact not_backed_default h

theorem obj_modifyObj_of_ne (s : Rules) {i j : ℕ} (f : Proposal → Proposal) (h : j ≠ i) :
    (s.modifyObj i f).obj j = s.obj j := by
  unfold modifyObj obj
  simp only [List.getD_eq_getElem?_getD, List.getElem?_set_ne (Ne.symm h)]

theorem obj_modifyObj_self (s : Rules) {i : ℕ} (f : Proposal → Proposal) (h : i < s.objs.length) :
    (s.modifyObj i f).obj i = f (s.obj i) := by
  unfold modifyObj obj
  rw [List.getD_eq_getElem?_getD, List.getElem?_set_self h, Option.getD_some]

/-- A relation of proposals that holds of each with itself and with its change by `f`
holds of every object and that object after `modifyObj`. -/
theorem rel_obj_modifyObj (s : Rules) (i j : ℕ) {f : Proposal → Proposal} {R : Proposal → Proposal → Prop}
    (hR : ∀ p, R p p) (hf : ∀ p, R p (f p)) : R (s.obj j) ((s.modifyObj i f).obj j) := by
  by_cases hj : j = i
  · subst hj
    by_cases hlt : j < s.objs.length
    · rw [obj_modifyObj_self s f hlt]
      exact hf _
    · -- past the end nothing is set
      have ho : (s.modifyObj j f).objs = s.objs := List.set_eq_of_length_le (by omega)
      rw [obj, obj, ho]
      exact hR _
  · rw [obj_modifyObj_of_ne s f hj]
    exact hR _

@[simp] theorem obj_updateVotedMetric (s : Rules) (b : Block) (j : ℕ) : (s.updateVotedMetric b).obj j = s.obj j := rfl

/-! ### What the mutators do to the flags and the map -/

/-- What every mutator of the rules but `add_proposal` does to the proposal objects and
the map: no object becomes backed, none loses its vote, and the map only loses entries. -/
structure Lowers (s s' : Rules) : Prop where
  proposals : ∀ e ∈ s'.proposals, e ∈ s.proposals
  obj : ∀ i, (s.obj i).Recedes (s'.obj i)

theorem Lowers.refl (s : Rules) : Lowers s s := ⟨fun _ h => h, fun _ => .refl _⟩

theorem Lowers.trans {s₁ s₂ s₃ : Rules} (h₁ : Lowers s₁ s₂) (h₂ : Lowers s₂ s₃) : Lowers s₁ s₃ :=
  ⟨fun e he => h₁.proposals e (h₂.proposals e he), fun i => (h₁.obj i).trans (h₂.obj i)⟩

theorem lowers_of_eq {s s' : Rules} (hp : s'.proposals = s.proposals) (ho : s'.objs = s.objs) : Lowers s s' :=
  ⟨fun _ he => hp ▸ he, fun i => by rw [obj, obj, ho]; exact .refl _⟩

theorem lowers_modifyObj (s : Rules) (i : ℕ) {f : Proposal → Proposal} (hf : ∀ p : Proposal, p.Recedes (f p)) :
    Lowers s (s.modifyObj i f) :=
  ⟨fun _ h => h, fun j => rel_obj_modifyObj s i j Recedes.refl hf⟩

theorem lowers_certs (s : Rules) (certs : List (UInt64 × Block)) : Lowers s { s with certs := certs } :=
  lowers_of_eq rfl rfl

theorem lowers_filterProposals (s : Rules) (q : UInt64 × ℕ → Bool) :
    Lowers s { s with proposals := s.proposals.filter q } :=
  ⟨fun _ he => (List.mem_filter.mp he).1, fun _ => .refl _⟩

theorem lowers_foldl {α : Type} {f : Rules → α → Rules} (hf : ∀ s a, Lowers s (f s a)) :
    ∀ (l : List α) (s : Rules), Lowers s (l.foldl f s)
  | [], s => .refl s
  | a :: l, s => (hf s a).trans (lowers_foldl hf l (f s a))

/-- A new object that is not backed. -/
theorem lowers_newObj (s : Rules) {p : Proposal} (hp : ¬p.Backed) : Lowers s (s.newObj p) := by
  refine ⟨fun _ h => h, fun i => ?_⟩
  rcases Nat.lt_or_ge i s.objs.length with hi | hi
  · rw [obj_newObj_of_lt s p hi]
    exact .refl _
  · -- past the old end: the new object, or nothing
    have hd : s.obj i = default := by
      rw [obj, List.getD_eq_getElem?_getD, List.getElem?_eq_none hi, Option.getD_none]
    rw [hd]
    rcases Nat.eq_or_lt_of_le hi with rfl | hi
    · rw [obj_newObj_self]
      exact recedes_default hp
    · refine recedes_default fun h => not_backed_default ?_
      have hn : (s.newObj p).obj i = default := by
        rw [obj, List.getD_eq_getElem?_getD, List.getElem?_eq_none (by simp [newObj]; omega), Option.getD_none]
      rwa [hn] at h

theorem lowers_installLock (s : Rules) (b : Block) : Lowers s (s.installLock b) :=
  ⟨fun _ he => (List.mem_filter.mp he).1, fun _ => .refl _⟩

theorem lowers_setLockBlock (s : Rules) (b : Block) : Lowers s (s.setLockBlock b).1 := by
  unfold setLockBlock
  rcases s.lock with _ | l <;> dsimp only
  · split_ifs
    · exact lowers_installLock s b
    · exact .refl s
  · split_ifs
    · exact .refl s
    · exact lowers_of_eq rfl rfl
    · exact lowers_installLock s b
    · exact .refl s

theorem lowers_getLockBlock (st : Store) (s : Rules) : Lowers s (s.getLockBlock st).1 := by
  unfold getLockBlock
  rcases s.lock with _ | l
  · rcases st.latestLocked with _ | b
    · exact .refl s
    · exact lowers_setLockBlock s b
  · exact .refl s

theorem lowers_getCommitBlock (st : Store) (s : Rules) : Lowers s (s.getCommitBlock st).1 := by
  unfold getCommitBlock
  rcases s.commit with _ | c
  · have h1 := lowers_getLockBlock st s
    rcases hr : s.getLockBlock st with ⟨s1, _ | l⟩ <;> rw [hr] at h1 <;> dsimp only
    · exact h1
    · split_ifs
      · rcases st.load (l.height - 1) l.lastBlockHash with _ | c
        · exact h1
        · exact h1.trans (lowers_of_eq rfl rfl)
      · exact h1
  · exact .refl s

theorem lowers_setCommitBlock (st : Store) (s : Rules) (b : Option Block) :
    Lowers s (s.setCommitBlock st b).1 := by
  unfold setCommitBlock
  rcases b with _ | b
  · exact .refl s
  · dsimp only
    split_ifs
    · exact .refl s
    · exact .refl s
    · have h1 := lowers_getLockBlock st s
      rcases hr : s.getLockBlock st with ⟨s1, _ | l⟩ <;> rw [hr] at h1 <;> dsimp only
      · exact h1
      · split_ifs
        · exact h1
        · exact h1.trans (lowers_of_eq rfl rfl)

theorem lowers_safeCheckFollowCommitBranch (st : Store) (s : Rules) (b : Block) :
    Lowers s (s.safeCheckFollowCommitBranch st b).1 := by
  rw [fst_safeCheckFollowCommitBranch]
  exact lowers_getCommitBlock st s

theorem lowers_safeCheckFollowLockedBranch (st : Store) (s : Rules) (b : Block) :
    Lowers s (s.safeCheckFollowLockedBranch st b).1 := by
  rw [fst_safeCheckFollowLockedBranch]
  exact lowers_getLockBlock st s

theorem lowers_safePrecheckForVoting (st : Store) (s : Rules) (id : ℕ) :
    Lowers s (s.safePrecheckForVoting st id).1 := by
  rw [fst_safePrecheckForVoting]
  split_ifs
  · exact .refl s
  · exact lowers_getLockBlock st s

theorem lowers_safeFinalcheckForVoting (st : Store) (s : Rules) (id : ℕ) :
    Lowers s (s.safeFinalcheckForVoting st id).1 := by
  rw [fst_safeFinalcheckForVoting]
  split_ifs
  · exact .refl s
  · exact lowers_getLockBlock st s

theorem lowers_settleProposal (b : Block) (s : Rules) (id : ℕ) : Lowers s (settleProposal b s id) := by
  unfold settleProposal
  dsimp only
  -- the certified mark first, then the flags set by height
  have hcert : Lowers s (if (s.obj id).block.height = b.height ∧ (s.obj id).block.viewid = b.viewid ∧
      (s.obj id).block.viewtoken = b.viewtoken then s.modifyObj id Proposal.markCerted else s) := by
    split_ifs
    · exact lowers_modifyObj s id fun _ => .refl _
    · exact .refl s
  generalize (if (s.obj id).block.height = b.height ∧ (s.obj id).block.viewid = b.viewid ∧
      (s.obj id).block.viewtoken = b.viewtoken then s.modifyObj id Proposal.markCerted else s) = s' at hcert ⊢
  split_ifs
  · exact hcert.trans (lowers_modifyObj s' id recedes_disableVote)
  · exact hcert
  · exact hcert.trans (lowers_modifyObj s' id recedes_disableVote)
  · exact hcert

theorem lowers_onCertVerified (s : Rules) (certViewid : UInt64) : Lowers s (s.onCertVerified certViewid) := by
  unfold onCertVerified
  refine lowers_foldl (fun (s : Rules) (e : UInt64 × ℕ) => ?_) _ _
  split_ifs
  · exact lowers_modifyObj s e.2 recedes_disableVote
  · exact .refl s

theorem lowers_addCertBlock (st : Store) (s : Rules) (b : Block) : Lowers s (s.addCertBlock st b).1 := by
  unfold addCertBlock
  have h1 := lowers_safeCheckFollowCommitBranch st s b
  rcases hr1 : s.safeCheckFollowCommitBranch st b with ⟨s1, r1⟩
  rw [hr1] at h1
  dsimp only
  have h2 := lowers_safeCheckFollowLockedBranch st s1 b
  rcases hr2 : s1.safeCheckFollowLockedBranch st b with ⟨s2, r2⟩
  rw [hr2] at h2
  dsimp only
  split_ifs
  · exact h1
  · exact h1.trans h2
  · exact h1.trans h2
  -- the certificate is stored, the proposals settled, and those it passes dropped
  all_goals
    exact (h1.trans h2).trans (((lowers_certs _ _).trans
      (lowers_foldl (fun (s : Rules) (e : UInt64 × ℕ) => lowers_settleProposal b s e.2) _ _)).trans
        (lowers_filterProposals _ _))

theorem lowers_isProposalExpire (st : Store) (s : Rules) (id : ℕ) : Lowers s (s.isProposalExpire st id).1 := by
  rw [fst_isProposalExpire]
  exact (lowers_getCommitBlock st s).trans (lowers_getLockBlock st _)

theorem lowers_expireProposals (st : Store) (s : Rules) : Lowers s (s.expireProposals st) := by
  unfold expireProposals
  refine lowers_foldl (fun (s : Rules) (e : UInt64 × ℕ) => ?_) _ _
  dsimp only
  -- the expiry check reads the lock and the commit, then the flags are set
  have h := lowers_isProposalExpire st s e.2
  split_ifs
  · exact h.trans (lowers_modifyObj _ e.2 fun p => recedes_disableVote p.markExpired)
  · exact h
  · exact .refl s

theorem lowers_mergeCert (s : Rules) (id : ℕ) (c : CommitCert) : Lowers s (s.mergeCert id c) := by
  unfold mergeCert
  split_ifs
  · exact lowers_modifyObj s id fun _ => .refl _
  · exact .refl s

theorem lowers_retireProposal (height : UInt64) (s : Rules) (id : ℕ) : Lowers s (retireProposal height s id) := by
  unfold retireProposal
  split_ifs
  · exact lowers_modifyObj s id recedes_disableVote
  · exact lowers_modifyObj s id recedes_disableVote

/-- What `add_proposal` of the object `id` does: no object becomes backed, none loses its
vote, and the map holds no proposal it did not hold before but `id`. -/
structure Files (s s' : Rules) (id : ℕ) : Prop where
  proposals : ∀ e ∈ s'.proposals, e.2 = id ∨ e ∈ s.proposals
  obj : ∀ i, (s.obj i).Recedes (s'.obj i)

theorem Lowers.files {s s' : Rules} (h : Lowers s s') (id : ℕ) : Files s s' id :=
  ⟨fun e he => .inr (h.proposals e he), h.obj⟩

theorem files_addProposalObj (st : Store) (s : Rules) (id : ℕ) : Files s (s.addProposalObj st id).1 id := by
  unfold addProposalObj
  have h1 := lowers_getLockBlock st s
  rcases hr1 : s.getLockBlock st with ⟨s1, _ | l⟩ <;> rw [hr1] at h1 <;> dsimp only
  · exact h1.files id
  · -- the branch checks read the lock and the commit
    have h2 := lowers_safeCheckFollowCommitBranch st s1 (s.obj id).block
    rcases hr2 : s1.safeCheckFollowCommitBranch st (s.obj id).block with ⟨s2, r3⟩
    rw [hr2] at h2
    dsimp only
    have h3 := lowers_safeCheckFollowLockedBranch st s2 (s.obj id).block
    rcases hr3 : s2.safeCheckFollowLockedBranch st (s.obj id).block with ⟨s3, r4⟩
    rw [hr3] at h3
    dsimp only
    split_ifs
    · exact h1.files id
    · exact h1.files id
    · exact h1.files id
    · exact (h1.trans h2).files id
    · exact ((h1.trans h2).trans h3).files id
    · -- accepted: the proposals are retired, and `id` filed among those of another height
      have hr := ((h1.trans h2).trans h3).trans
        (lowers_foldl (fun s' e => lowers_retireProposal (s.obj id).block.height s' e.2) s3.proposals s3)
      refine ⟨fun e he => ?_, hr.obj⟩
      rcases mem_upsert_const he with he | he
      · exact .inr (hr.proposals e (List.mem_filter.mp he).1)
      · exact .inl (by rw [he])

/-- When `add_proposal` accepts `id`, every other proposal it leaves in the map is of a
lower view id. -/
theorem below_of_addProposalObj {st : Store} {s : Rules} {id : ℕ} (h : (s.addProposalObj st id).2 = true) :
    ∀ e ∈ (s.addProposalObj st id).1.proposals, e.2 = id ∨ (s.obj e.2).block.viewid < (s.obj id).block.viewid := by
  have hobjs := objs_getLockBlock st s
  have hsnd := getLockBlock_snd st s
  unfold addProposalObj at h ⊢
  rcases hr1 : s.getLockBlock st with ⟨s1, _ | l⟩ <;> rw [hr1] at h hobjs hsnd <;> dsimp only at h hobjs hsnd ⊢
  · exact absurd h Bool.false_ne_true
  · -- under the lock `l` the branch checks at most load the commit
    have hs1 : s1.lock = some l := hsnd.symm
    obtain ⟨c, hc⟩ := getCommitBlock_of_lock st hs1
    have hs2 : (s1.safeCheckFollowCommitBranch st (s.obj id).block).1 = { s1 with commit := c } := by
      rw [fst_safeCheckFollowCommitBranch, hc]
    rw [hs2, safeCheckFollowLockedBranch_of_lock (s := { s1 with commit := c }) _ hs1] at h ⊢
    dsimp only at h ⊢
    split_ifs at h ⊢ with hlock hcert hconf hr3 hr4
    -- the proposals left are of another height than the new one, and below it by rule #2
    have hbelow : ∀ e ∈ s1.proposals, (s1.obj e.2).block.viewid < (s.obj id).block.viewid := fun e he =>
      (below_of_proposalConflict (List.any_eq_false.mp (Bool.eq_false_iff.mpr hconf) e he |>
        Bool.eq_false_iff.mpr)).2
    have hf := frame_foldl (fun s' e => frame_retireProposal (s.obj id).block.height s' e.2)
      s1.proposals { s1 with commit := c }
    intro e he
    rcases mem_upsert_const he with he | he
    · right
      have hlt := hbelow e (hf.proposals.subset (List.mem_filter.mp he).1)
      rwa [obj, hobjs] at hlt
    · exact .inl (by rw [he])

end Rules

namespace Rules

open Proposal

/-! ### The invariant -/

/-- No backed proposal object but `id` is of the view id of `id`. -/
def Free (s : Rules) (id : ℕ) : Prop :=
  ∀ i, (s.obj i).Backed → (s.obj i).block.viewid = (s.obj id).block.viewid → i = id

/-- Every backed proposal object is below the view id of `id`: what
`safe_precheck_for_voting` leaves of a proposal it lets through. -/
def Fresh (s : Rules) (id : ℕ) : Prop :=
  ∀ i, (s.obj i).Backed → (s.obj i).block.viewid < (s.obj id).block.viewid

/-- `vote_for_proposal` may enable `id`: no other backed object and no other proposal of
the map is of its view id. -/
structure Votable (s : Rules) (id : ℕ) : Prop where
  free : s.Free id
  filed : ∀ e ∈ s.proposals, (s.obj e.2).block.viewid = (s.obj id).block.viewid → e.2 = id

/-- **The invariant of one vote per view**, of the rules and the votes emitted: a backed
object and a proposal of the map are each alone among the backed objects in its view id,
the voted view id is not below a backed object, and each vote is of a voted object, no
two of one view id. -/
structure Unequivocal (s : Rules) (emitted : List Block) : Prop where
  backed : ∀ i, (s.obj i).Backed → s.Free i
  filed : ∀ e ∈ s.proposals, s.Free e.2
  metered : ∀ i, (s.obj i).Backed → (s.obj i).block.viewid ≤ s.votedViewid
  votes : ∀ b ∈ emitted, ∃ i, (s.obj i).voted = true ∧ (s.obj i).block.viewid = b.viewid
  nodup : (emitted.map Block.viewid).Nodup

theorem unequivocal_empty : empty.Unequivocal [] := by
  have hb (i : ℕ) : ¬(empty.obj i).Backed := not_backed_default
  exact ⟨fun i h => absurd h (hb i), fun _ h => by simp [empty] at h, fun i h => absurd h (hb i),
    fun _ h => by simp at h, List.nodup_nil⟩

theorem Fresh.free {s : Rules} {id : ℕ} (h : s.Fresh id) : s.Free id :=
  fun i hi heq => absurd (heq ▸ h i hi) (UInt64.lt_irrefl _)

/-- Two proposals of the map of one view id are the same proposal object. -/
theorem Inv.snd_eq_of_viewid_eq {s : Rules} (hs : s.Inv) {a b : UInt64 × ℕ} (ha : a ∈ s.proposals)
    (hb : b ∈ s.proposals) (h : (s.obj a.2).block.viewid = (s.obj b.2).block.viewid) : a.2 = b.2 := by
  have hnodup : (s.proposals.map Prod.fst).Nodup := (List.pairwise_map.mpr hs.sorted).nodup
  rw [List.inj_on_of_nodup_map hnodup ha hb (by rw [hs.key_eq a ha, hs.key_eq b hb, h])]

section Transport

/-! Facts about one proposal object survive a change that keeps the objects and backs
nothing new. -/

variable {s s' : Rules} {id : ℕ}

theorem Free.transport (h : s.Free id) (hid : id < s.objs.length) (hk : KeepsObjs s s')
    (ho : ∀ i, (s.obj i).Recedes (s'.obj i)) : s'.Free id := by
  intro i hi heq
  have hb := (ho i).1 hi
  rw [hk.viewid i (lt_of_backed hb), hk.viewid id hid] at heq
  exact h i hb heq

theorem Fresh.transport (h : s.Fresh id) (hid : id < s.objs.length) (hk : KeepsObjs s s')
    (ho : ∀ i, (s.obj i).Recedes (s'.obj i)) : s'.Fresh id := by
  intro i hi
  have hb := (ho i).1 hi
  rw [hk.viewid i (lt_of_backed hb), hk.viewid id hid]
  exact h i hb

theorem Votable.lowers (h : s.Votable id) (hid : id < s.objs.length) (hinv : s.Inv) (hk : KeepsObjs s s')
    (hl : Lowers s s') : s'.Votable id := by
  refine ⟨h.free.transport hid hk hl.obj, fun e he heq => ?_⟩
  have he' := hl.proposals e he
  rw [hk.viewid e.2 (hinv.id_lt e he'), hk.viewid id hid] at heq
  exact h.filed e he' heq

variable {votes : List Block}

/-- A change that keeps the objects, raises the metric and backs nothing new keeps the
invariant, once the proposals of its map are each alone in their view id. -/
theorem Unequivocal.of_recedes (hu : s.Unequivocal votes) (hk : KeepsObjs s s') (ha : Advances s s')
    (ho : ∀ i, (s.obj i).Recedes (s'.obj i)) (hfiled : ∀ e ∈ s'.proposals, s'.Free e.2) :
    s'.Unequivocal votes where
  backed i hi := (hu.backed i ((ho i).1 hi)).transport (lt_of_backed ((ho i).1 hi)) hk ho
  filed := hfiled
  metered i hi := by
    have hb := (ho i).1 hi
    rw [hk.viewid i (lt_of_backed hb)]
    exact UInt64.le_trans (hu.metered i hb) ha.votedViewid
  votes b hb := by
    obtain ⟨i, hv, hi⟩ := hu.votes b hb
    refine ⟨i, (ho i).2.1 hv, ?_⟩
    rw [hk.viewid i (lt_of_backed (.inr hv))]
    exact hi
  nodup := hu.nodup

theorem Unequivocal.lowers (hu : s.Unequivocal votes) (hinv : s.Inv) (hk : KeepsObjs s s') (ha : Advances s s')
    (hl : Lowers s s') : s'.Unequivocal votes :=
  hu.of_recedes hk ha hl.obj fun e he =>
    (hu.filed e (hl.proposals e he)).transport (hinv.id_lt e (hl.proposals e he)) hk hl.obj

theorem Unequivocal.moves {st : Store} {lockable : Block → Prop} (hu : s.Unequivocal votes) (hinv : s.Inv)
    (hm : Relation.ReflTransGen (Move st lockable) s s') (hl : Lowers s s') : s'.Unequivocal votes :=
  hu.lowers hinv (keepsObjs_of_moves hm) (advances_of_moves hm) hl

end Transport

/-- A proposal object that passes `safe_precheck_for_voting` is above every backed one. -/
theorem fresh_safePrecheckForVoting {st : Store} {s : Rules} {id : ℕ} {votes : List Block}
    (hu : s.Unequivocal votes) (hid : id < s.objs.length) (h : (s.safePrecheckForVoting st id).2 = true) :
    (s.safePrecheckForVoting st id).1.Fresh id := by
  have hll : ∀ b, st.latestLocked = some b → True := fun _ _ => trivial
  have hm := moves_safePrecheckForVoting hll s id
  have hfresh : s.Fresh id := fun i hi =>
    UInt64.lt_of_le_of_lt (hu.metered i hi) (above_of_safePrecheckForVoting h).1
  exact hfresh.transport hid (keepsObjs_of_moves hm) (lowers_safePrecheckForVoting st s id).obj

/-- `add_proposal` of a proposal object above every backed one keeps the invariant, and
an accepted object may be enabled. -/
theorem Unequivocal.addProposalObj {st : Store} {s : Rules} {id : ℕ} {votes : List Block}
    (hu : s.Unequivocal votes) (hinv : s.Inv) (hid : id < s.objs.length) (hfresh : s.Fresh id) :
    (s.addProposalObj st id).1.Unequivocal votes ∧
      ((s.addProposalObj st id).2 = true → (s.addProposalObj st id).1.Votable id) := by
  have hll : ∀ b, st.latestLocked = some b → True := fun _ _ => trivial
  have hm := moves_of_changes (changes_addProposalObj hll s hid)
  have hk := keepsObjs_of_moves hm
  have hf := files_addProposalObj st s id
  -- the filed object is alone in its view id, since nothing backed reaches it
  have hfree : (s.addProposalObj st id).1.Free id := (hfresh.transport hid hk hf.obj).free
  refine ⟨hu.of_recedes hk (advances_of_moves hm) hf.obj fun e he => ?_, fun hacc => ⟨hfree, fun e he heq => ?_⟩⟩
  · rcases hf.proposals e he with h | he'
    · rw [h]
      exact hfree
    · exact (hu.filed e he').transport (hinv.id_lt e he') hk hf.obj
  · -- the other proposals it leaves are of lower view ids
    rcases below_of_addProposalObj hacc e he with h | hlt
    · exact h
    · rcases hf.proposals e he with h | he'
      · exact h
      · rw [hk.viewid e.2 (hinv.id_lt e he'), hk.viewid id hid] at heq
        exact absurd (heq ▸ hlt) (UInt64.lt_irrefl _)

/-- A proposal object that passes `safe_finalcheck_for_voting` is enabled and not voted. -/
theorem enabled_of_safeFinalcheckForVoting {st : Store} {s : Rules} {id : ℕ}
    (h : (s.safeFinalcheckForVoting st id).2 = true) :
    (s.obj id).allowVote = .enable ∧ (s.obj id).voted = false := by
  unfold safeFinalcheckForVoting at h
  dsimp only at h
  split at h
  · exact absurd h Bool.false_ne_true
  · rename_i hflags
    simpa [isVoteEnable] using hflags

theorem Unequivocal.disableVote {s : Rules} {votes : List Block} (hu : s.Unequivocal votes) (hinv : s.Inv)
    (id : ℕ) : (s.modifyObj id Proposal.disableVote).Unequivocal votes :=
  have hf := frame_modifyObj s id (f := Proposal.disableVote) fun _ => rfl
  hu.lowers hinv hf.keepsObjs hf.advances (lowers_modifyObj s id recedes_disableVote)

/-- A vote for a voted object of a view id no vote has yet. -/
theorem Unequivocal.emit {s : Rules} {id : ℕ} {votes : List Block} (hu : s.Unequivocal votes)
    (hv : (s.obj id).voted = true) (hnew : ∀ b ∈ votes, b.viewid ≠ (s.obj id).block.viewid) :
    s.Unequivocal (votes ++ [(s.obj id).block]) where
  backed := hu.backed
  filed := hu.filed
  metered := hu.metered
  votes b hb := by
    rcases List.mem_append.mp hb with hb | hb
    · exact hu.votes b hb
    · exact ⟨id, hv, by rw [List.mem_singleton.mp hb]⟩
  nodup := by
    rw [List.map_append, List.nodup_append]
    refine ⟨hu.nodup, List.nodup_singleton _, fun x hx y hy => ?_⟩
    obtain ⟨b, hb, rfl⟩ := List.mem_map.mp hx
    rw [List.map_singleton, List.mem_singleton] at hy
    exact hy ▸ hnew b hb

/-- Marking an enabled proposal object voted and emitting its vote keeps the invariant. -/
theorem Unequivocal.markVoted {s : Rules} {id : ℕ} {votes : List Block} (hu : s.Unequivocal votes)
    (hinv : s.Inv) (he : (s.obj id).allowVote = .enable) (hnv : (s.obj id).voted = false) :
    (s.modifyObj id fun p => { p with voted := true }).Unequivocal
      (votes ++ [((s.modifyObj id fun p => { p with voted := true }).obj id).block]) := by
  have hid : id < s.objs.length := lt_of_backed (.inl he)
  have hself : (s.modifyObj id fun p => { p with voted := true }).obj id = { s.obj id with voted := true } :=
    obj_modifyObj_self s _ hid
  -- the object was backed already, so the backed objects stay
  have hl : Lowers s (s.modifyObj id fun p => { p with voted := true }) := by
    refine ⟨fun _ h => h, fun i => ?_⟩
    by_cases hi : i = id
    · subst hi
      rw [hself]
      exact ⟨fun _ => .inl he, fun _ => rfl, id⟩
    · rw [obj_modifyObj_of_ne s _ hi]
      exact .refl _
  have hf := frame_modifyObj s id (f := fun p => { p with voted := true }) fun _ => rfl
  refine (hu.lowers hinv hf.keepsObjs hf.advances hl).emit (by rw [hself]) fun b hb heq => ?_
  -- an earlier vote of the same view id is of a voted object, which can only be `id`
  obtain ⟨k, hkv, hkb⟩ := hu.votes b hb
  rw [hself] at heq
  have hk : k = id := (hu.backed id (.inl he) k (.inr hkv) (hkb.trans heq)).symm ▸ rfl
  rw [hk, hnv] at hkv
  exact Bool.false_ne_true hkv

end Rules

namespace Driver

theorem lowers_syncCommit (st : Store) (s : Rules) (l : Block) : Rules.Lowers s (syncCommit st s l).1 := by
  unfold syncCommit
  split_ifs
  · have h := Rules.lowers_getCommitBlock st s
    rcases hr : s.getCommitBlock st with ⟨s1, c⟩
    rw [hr] at h
    dsimp only
    split_ifs <;> exact h
  · exact .refl s

theorem lowers_syncForProposal (st : Store) (s : Rules) (id : ℕ) : Rules.Lowers s (syncForProposal st s id).1 := by
  unfold syncForProposal
  have h1 := Rules.lowers_getLockBlock st s
  rcases hr : s.getLockBlock st with ⟨s1, _ | l⟩ <;> rw [hr] at h1 <;> dsimp only
  · exact h1
  · -- every branch stops at the lock read, or goes on to the commit
    have h2 := h1.trans (lowers_syncCommit st s1 l)
    split_ifs
    · split
      · split <;> exact h1
      · split_ifs
        · exact h1
        · exact h2
    · exact h2

end Driver

/-- A property of the state of a left fold, indexed by the elements still to visit, that
each step carries from one element to the next holds at the end. -/
theorem foldl_of_step {α β : Type} {f : β → α → β} {P : List α → β → Prop}
    (hf : ∀ a l x, P (a :: l) x → P l (f x a)) : ∀ (l : List α) (x : β), P l x → P [] (l.foldl f x)
  | [], _, h => h
  | a :: l, x, h => foldl_of_step hf l (f x a) (hf a l x h)

namespace Driver

open Rules Proposal

/-- The invariant of one vote per view, of a replica. -/
def Unequivocal (d : Driver) : Prop := d.rules.Unequivocal d.votes

theorem unequivocal_empty : empty.Unequivocal := Rules.unequivocal_empty

section Steps

variable {st : Store}

/-- A change of the rules that backs nothing new keeps the invariant. -/
theorem Unequivocal.rules {d d' : Driver} {lockable : Block → Prop} (hu : d.Unequivocal) (hinv : d.rules.Inv)
    (hm : Relation.ReflTransGen (Rules.Move st lockable) d.rules d'.rules) (hl : Lowers d.rules d'.rules)
    (hv : d'.votes = d.votes) : d'.Unequivocal := by
  unfold Unequivocal
  rw [hv]
  exact Rules.Unequivocal.moves hu hinv hm hl

/-! #### `vote_for_proposal` -/

theorem proposals_voteForProposal (d : Driver) (id : ℕ) :
    (d.voteForProposal id).rules.proposals = d.rules.proposals := by
  unfold voteForProposal
  dsimp only
  split_ifs <;> rfl

theorem viewid_obj_voteForProposal (d : Driver) (id j : ℕ) :
    ((d.voteForProposal id).rules.obj j).block.viewid = (d.rules.obj j).block.viewid := by
  unfold voteForProposal
  dsimp only
  split_ifs
  · rfl
  · exact proj_obj_modifyObj Block.viewid d.rules id j (f := fun p => { p with allowVote := .enable }) fun _ => rfl

theorem voted_obj_voteForProposal (d : Driver) (id j : ℕ) :
    ((d.voteForProposal id).rules.obj j).voted = (d.rules.obj j).voted := by
  unfold voteForProposal
  dsimp only
  split_ifs
  · rfl
  · exact rel_obj_modifyObj d.rules id j (f := fun p => { p with allowVote := .enable })
      (R := fun p q => q.voted = p.voted) (fun _ => rfl) fun _ => rfl

theorem votedViewid_le_voteForProposal (d : Driver) (id : ℕ) :
    d.rules.votedViewid ≤ (d.voteForProposal id).rules.votedViewid := by
  unfold voteForProposal
  dsimp only
  split_ifs
  · exact UInt64.le_refl _
  · exact (advances_updateVotedMetric _ _).votedViewid

/-- `vote_for_proposal` backs its own proposal object, below the voted view id it
raises, and no other. -/
theorem backed_voteForProposal {d : Driver} {id j : ℕ} (h : ((d.voteForProposal id).rules.obj j).Backed) :
    (d.rules.obj j).Backed ∨ j = id ∧ (d.rules.obj id).block.viewid ≤ (d.voteForProposal id).rules.votedViewid := by
  unfold voteForProposal at h ⊢
  dsimp only at h ⊢
  split_ifs at h ⊢
  · exact .inl h
  · by_cases hj : j = id
    · exact .inr ⟨hj, (reached_updateVotedMetric _ _).2⟩
    · rw [obj_updateVotedMetric, obj_modifyObj_of_ne d.rules _ hj] at h
      exact .inl h

/-- An object alone in its view id stays so when `vote_for_proposal` enables an object
of another view id, or itself. -/
theorem free_voteForProposal {d : Driver} {id x : ℕ} (hx : d.rules.Free x)
    (hxe : (d.rules.obj id).block.viewid = (d.rules.obj x).block.viewid → id = x) :
    (d.voteForProposal id).rules.Free x := by
  intro j hj heq
  rw [viewid_obj_voteForProposal, viewid_obj_voteForProposal] at heq
  rcases backed_voteForProposal hj with hj | ⟨hji, -⟩
  · exact hx j hj heq
  · rw [hji] at heq ⊢
    exact hxe heq

/-- Enabling a proposal object alone in its view id, among the backed objects and the
map, keeps the invariant. -/
theorem Unequivocal.voteForProposal {d : Driver} {id : ℕ} (hu : d.Unequivocal) (hv : d.rules.Votable id) :
    (d.voteForProposal id).Unequivocal := by
  unfold Unequivocal
  rw [votes_voteForProposal]
  refine ⟨fun i hi => ?_, fun e he => ?_, fun i hi => ?_, fun b hb => ?_, hu.nodup⟩
  · rcases backed_voteForProposal hi with hi | ⟨hi, -⟩
    · exact free_voteForProposal (hu.backed i hi) fun heq => (hv.free i hi heq.symm).symm
    · rw [hi]
      exact free_voteForProposal hv.free fun _ => rfl
  · rw [proposals_voteForProposal] at he
    exact free_voteForProposal (hu.filed e he) fun heq => (hv.filed e he heq.symm).symm
  · rw [viewid_obj_voteForProposal]
    rcases backed_voteForProposal hi with hi | ⟨hi, hle⟩
    · exact UInt64.le_trans (hu.metered i hi) (votedViewid_le_voteForProposal d id)
    · rw [hi]
      exact hle
  · obtain ⟨i, hvi, hi⟩ := hu.votes b hb
    refine ⟨i, ?_, ?_⟩
    · rw [voted_obj_voteForProposal]
      exact hvi
    · rw [viewid_obj_voteForProposal]
      exact hi

theorem Unequivocal.ite_voteForProposal {d : Driver} {id : ℕ} (p : Prop) [Decidable p] (hu : d.Unequivocal)
    (hv : p → d.rules.Votable id) : (if p then d.voteForProposal id else d).Unequivocal := by
  split_ifs with hp
  · exact hu.voteForProposal (hv hp)
  · exact hu

theorem keepsObjs_voteForProposal (d : Driver) (id : ℕ) : KeepsObjs d.rules (d.voteForProposal id).rules := by
  unfold voteForProposal
  dsimp only
  split_ifs
  · exact .refl _
  · exact (frame_modifyObj d.rules id (f := fun p => { p with allowVote := .enable }) fun _ => rfl).keepsObjs.trans
      (keepsObjs_of_objs rfl)

theorem inv_voteForProposal {d : Driver} (h : d.rules.Inv) (id : ℕ) : (d.voteForProposal id).rules.Inv := by
  unfold voteForProposal
  dsimp only
  split_ifs
  · exact h
  · -- the voted metric is not part of the invariant of the map
    have hf := (frame_modifyObj d.rules id (f := fun p => { p with allowVote := .enable }) fun _ => rfl).inv h
    exact ⟨hf.sorted, hf.key_eq, hf.id_lt, hf.increasing, hf.above_lock⟩

/-! #### `handle_proposal_msg` -/

/-- The proposal object `id` after `handle_proposal_msg` checked it and, if the check
passed (`ok`), added it: the invariant holds, and an accepted object may be enabled. -/
structure Checked (votes : List Block) (id : ℕ) (s : Rules) (ok : Bool) : Prop where
  unequivocal : s.Unequivocal votes
  inv : s.Inv
  lt : id < s.objs.length
  votable : ok = true → s.Votable id

theorem Checked.lowers {votes : List Block} {id : ℕ} {s s' : Rules} {ok : Bool} (h : Checked votes id s ok)
    (hinv : s'.Inv) (hk : KeepsObjs s s') (ha : Advances s s') (hl : Lowers s s') : Checked votes id s' ok where
  unequivocal := h.unequivocal.lowers h.inv hk ha hl
  inv := hinv
  lt := Nat.lt_of_lt_of_le h.lt hk.length
  votable hok := (h.votable hok).lowers h.lt h.inv hk hl

theorem Checked.moves {votes : List Block} {id : ℕ} {s s' : Rules} {ok : Bool} {lockable : Block → Prop}
    (h : Checked votes id s ok) (hm : Relation.ReflTransGen (Rules.Move st lockable) s s') (hl : Lowers s s') :
    Checked votes id s' ok :=
  h.lowers (inv_of_moves hm h.inv) (keepsObjs_of_moves hm) (advances_of_moves hm) hl

/-- A refused object is disabled. -/
theorem Checked.disable {votes : List Block} {id : ℕ} {s : Rules} {ok : Bool} (h : Checked votes id s ok) :
    Checked votes id (if ok = true then s else s.modifyObj id Proposal.disableVote) ok := by
  split_ifs
  · exact h
  · have hf := frame_modifyObj s id (f := Proposal.disableVote) fun _ => rfl
    exact h.lowers (hf.inv h.inv) hf.keepsObjs hf.advances (lowers_modifyObj s id recedes_disableVote)

/-- `add_proposal` of a proposal object above every backed one. -/
theorem Checked.addProposalObj {votes : List Block} {id : ℕ} {s : Rules} {ok : Bool} (h : Checked votes id s ok)
    (hfresh : s.Fresh id) : Checked votes id (s.addProposalObj st id).1 (s.addProposalObj st id).2 := by
  have hll : ∀ b, st.latestLocked = some b → True := fun _ _ => trivial
  have hm := moves_of_changes (changes_addProposalObj hll s h.lt)
  obtain ⟨hu, hv⟩ := h.unequivocal.addProposalObj h.inv h.lt hfresh
  exact ⟨hu, inv_of_moves hm h.inv, Nat.lt_of_lt_of_le h.lt (keepsObjs_of_moves hm).length, hv⟩

/-- The end of `handle_proposal_msg`: a refused proposal object is disabled, the object
is synced, and an accepted one may be voted for. -/
theorem unequivocal_handleProposalTail {d : Driver} {s : Rules} {ok : Bool} {id : ℕ} (c : Bool)
    (h : Checked d.votes id s ok) :
    Unequivocal (if (syncForProposal st (if ok = true then s else s.modifyObj id Proposal.disableVote) id).2 =
        .successful ∧ (ok && c) = true then
      ({ d with rules := (syncForProposal st (if ok = true then s else s.modifyObj id Proposal.disableVote) id).1 } :
        Driver).voteForProposal id
      else { d with rules := (syncForProposal st (if ok = true then s else s.modifyObj id Proposal.disableVote) id).1 }) := by
  have hll : ∀ b, st.latestLocked = some b → True := fun _ _ => trivial
  have h2 := h.disable.moves (moves_syncForProposal hll _ id) (lowers_syncForProposal st _ id)
  exact Unequivocal.ite_voteForProposal _ h2.unequivocal fun hc => h2.votable (Bool.and_eq_true_iff.mp hc.2).1

theorem not_backed_proposalOfMsg (b : Block) (lc cc : UInt64) : ¬(proposalOfMsg b lc cc).Backed := by
  simp [Backed, proposalOfMsg]

theorem unequivocal_handleProposalMsg {d : Driver} (hu : d.Unequivocal) (hinv : d.rules.Inv) (b : Block)
    (lc cc : UInt64) (packetOk : Bool) (cookie : UInt64) :
    (d.handleProposalMsg st b lc cc packetOk cookie).Unequivocal := by
  have hll : ∀ b, st.latestLocked = some b → True := fun _ _ => trivial
  unfold handleProposalMsg
  have hm1 := moves_of_changes (changes_getLockBlock hll d.rules)
  have hu1 := Rules.Unequivocal.moves hu hinv hm1 (lowers_getLockBlock st d.rules)
  have hinv1 := inv_of_moves hm1 hinv
  rcases hr : d.rules.getLockBlock st with ⟨s1, _ | l⟩ <;> rw [hr] at hu1 hinv1 <;> dsimp only
  · exact hu1
  · split
    · exact hu1
    split
    · exact hu1
    -- the new object is not backed; it is checked, and added only above the metric
    have hmn : Relation.ReflTransGen (Rules.Move st fun _ => True) s1 (s1.newObj (proposalOfMsg b lc cc)) :=
      .single (.change (.newObj s1 _))
    have hnew : Checked d.votes s1.objs.length (s1.newObj (proposalOfMsg b lc cc)) false :=
      ⟨hu1.moves hinv1 hmn (lowers_newObj s1 (not_backed_proposalOfMsg b lc cc)), inv_of_moves hmn hinv1,
        by simp [Rules.newObj], fun h => absurd h Bool.false_ne_true⟩
    split
    · exact unequivocal_handleProposalTail _ hnew
    have hpre := hnew.moves (moves_safePrecheckForVoting hll _ s1.objs.length)
      (lowers_safePrecheckForVoting st _ s1.objs.length)
    split
    · exact unequivocal_handleProposalTail _ hpre
    · rename_i hpass
      exact unequivocal_handleProposalTail _ (hpre.addProposalObj
        (fresh_safePrecheckForVoting hnew.unequivocal hnew.lt (by simpa using hpass)))

/-! #### `on_new_block_fire` -/

/-- `on_new_block_fire` on its way through the proposals of the map of `s0`: the
invariant holds, the objects and the map are those of `s0` or fewer, and each proposal
still to visit is alone among the backed objects in its view id. -/
structure FireState (s0 : Rules) (ps : List (UInt64 × ℕ)) (d : Driver) : Prop where
  unequivocal : d.Unequivocal
  inv : d.rules.Inv
  keeps : KeepsObjs s0 d.rules
  proposals : ∀ e ∈ d.rules.proposals, e ∈ s0.proposals
  todo : ∀ e ∈ ps, e ∈ s0.proposals ∧ d.rules.Free e.2

theorem FireState.tail {s0 : Rules} {e : UInt64 × ℕ} {ps : List (UInt64 × ℕ)} {d : Driver}
    (h : FireState s0 (e :: ps) d) : FireState s0 ps d :=
  { h with todo := fun x hx => h.todo x (List.mem_cons_of_mem e hx) }

/-- The sync of a proposal lowers the state. -/
theorem FireState.sync {s0 : Rules} {ps : List (UInt64 × ℕ)} {d : Driver} (hs0 : s0.Inv)
    (h : FireState s0 ps d) (id : ℕ) : FireState s0 ps { d with rules := (syncForProposal st d.rules id).1 } := by
  have hll : ∀ b, st.latestLocked = some b → True := fun _ _ => trivial
  have hm := moves_syncForProposal hll d.rules id
  have hl := lowers_syncForProposal st d.rules id
  have hk := keepsObjs_of_moves hm
  refine ⟨h.unequivocal.rules h.inv hm hl rfl, inv_of_moves hm h.inv, h.keeps.trans hk,
    fun e he => h.proposals e (hl.proposals e he), fun e he => ⟨(h.todo e he).1, ?_⟩⟩
  have hid : e.2 < d.rules.objs.length := Nat.lt_of_lt_of_le (hs0.id_lt e (h.todo e he).1) h.keeps.length
  exact (h.todo e he).2.transport hid hk hl.obj

/-- The proposal visited, alone in its view id among the backed objects and, as a
proposal of the map of `s0`, among the proposals of the map, is enabled. -/
theorem FireState.vote {s0 : Rules} {e : UInt64 × ℕ} {ps : List (UInt64 × ℕ)} {d : Driver} (hs0 : s0.Inv)
    (h : FireState s0 (e :: ps) d) : FireState s0 ps (d.voteForProposal e.2) := by
  obtain ⟨he0, hfree⟩ := h.todo e List.mem_cons_self
  -- two proposals of the map of `s0` of one view id are one object
  have huniq : ∀ x ∈ s0.proposals, (d.rules.obj e.2).block.viewid = (d.rules.obj x.2).block.viewid → e.2 = x.2 := by
    intro x hx heq
    rw [h.keeps.viewid e.2 (hs0.id_lt e he0), h.keeps.viewid x.2 (hs0.id_lt x hx)] at heq
    exact hs0.snd_eq_of_viewid_eq he0 hx heq
  have hv : d.rules.Votable e.2 := ⟨hfree, fun x hx heq => (huniq x (h.proposals x hx) heq.symm).symm⟩
  refine ⟨h.unequivocal.voteForProposal hv, inv_voteForProposal h.inv e.2,
    h.keeps.trans (keepsObjs_voteForProposal d e.2), fun x hx => h.proposals x (by rwa [proposals_voteForProposal] at hx), fun x hx => ?_⟩
  obtain ⟨hx0, hxfree⟩ := h.todo x (List.mem_cons_of_mem e hx)
  exact ⟨hx0, free_voteForProposal hxfree (huniq x hx0)⟩

theorem unequivocal_onNewBlockFire {d : Driver} (hu : d.Unequivocal) (hinv : d.rules.Inv) (b : Block) :
    (d.onNewBlockFire st b).Unequivocal := by
  unfold onNewBlockFire
  have h0 : FireState d.rules d.rules.proposals d :=
    ⟨hu, hinv, .refl _, fun _ h => h, fun e he => ⟨he, Rules.Unequivocal.filed hu e he⟩⟩
  refine (foldl_of_step (P := FireState d.rules) (fun e ps d' h => ?_) _ _ h0).unequivocal
  dsimp only
  split
  · -- synced, then enabled if its blocks are at hand
    split
    · exact (h.sync hinv e.2).vote hinv
    · exact (h.sync hinv e.2).tail
  · exact h.tail

/-! #### The callback of a verification -/

theorem unequivocal_verifyCallback {d : Driver} (hu : d.Unequivocal) (hinv : d.rules.Inv) (id : ℕ)
    (verifyOk certAuthenticated : Bool) : (d.verifyCallback st id verifyOk certAuthenticated).Unequivocal := by
  have hll : ∀ b, st.latestLocked = some b → True := fun _ _ => trivial
  have hm1 := moves_safeFinalcheckForVoting hll d.rules id
  have hu1 := Rules.Unequivocal.moves hu hinv hm1 (lowers_safeFinalcheckForVoting st d.rules id)
  have hinv1 := inv_of_moves hm1 hinv
  -- a proposal that passed the final check was enabled and not voted
  have hflags (hfin : (d.rules.safeFinalcheckForVoting st id).2 = true) :
      ((d.rules.safeFinalcheckForVoting st id).1.obj id).allowVote = .enable ∧
        ((d.rules.safeFinalcheckForVoting st id).1.obj id).voted = false := by
    rw [obj_safeFinalcheckForVoting]
    exact enabled_of_safeFinalcheckForVoting hfin
  unfold verifyCallback
  dsimp only
  split_ifs with hmem hok hfin hca
  · -- the vote is emitted, then proposals under an older parent certificate disabled
    have hv := hu1.markVoted hinv1 (hflags hfin).1 (hflags hfin).2
    have hf := frame_modifyObj (d.rules.safeFinalcheckForVoting st id).1 id
      (f := fun p => { p with voted := true }) fun _ => rfl
    have hc := frame_onCertVerified ((d.rules.safeFinalcheckForVoting st id).1.modifyObj id
      fun p => { p with voted := true }) (((d.rules.safeFinalcheckForVoting st id).1.modifyObj id
        fun p => { p with voted := true }).obj id).lastBlockCertViewid
    exact hv.lowers (hf.inv hinv1) hc.keepsObjs hc.advances (lowers_onCertVerified _ _)
  · exact hu1.markVoted hinv1 (hflags hfin).1 (hflags hfin).2
  · exact hu1.disableVote hinv1 id
  · exact Rules.Unequivocal.disableVote hu hinv id
  · exact hu

/-! #### Every event -/

theorem lowers_onConsensusUpdate (d : Driver) (lock commit : Option Block) :
    Lowers d.rules (d.onConsensusUpdate st lock commit).rules := by
  unfold onConsensusUpdate
  rcases lock with _ | l
  · exact lowers_setCommitBlock st _ commit
  · exact (lowers_setLockBlock _ l).trans (lowers_setCommitBlock st _ commit)

theorem lowers_onProposalStart (d : Driver) (lock commit cert : Option Block) :
    Lowers d.rules (d.onProposalStart st lock commit cert).rules := by
  unfold onProposalStart
  rcases hlc : lock.or commit with _ | l <;> rcases cert with _ | c <;> dsimp only
  · exact lowers_setCommitBlock st _ commit
  · exact (lowers_setCommitBlock st _ commit).trans (lowers_addCertBlock st _ c)
  · exact (lowers_setLockBlock _ l).trans (lowers_setCommitBlock st _ commit)
  · exact ((lowers_setLockBlock _ l).trans (lowers_setCommitBlock st _ commit)).trans (lowers_addCertBlock st _ c)

theorem unequivocal_step {d : Driver} (hu : d.Unequivocal) (hinv : d.rules.Inv) (ev : Event) :
    (d.step st ev).Unequivocal := by
  have hll : ∀ b, st.latestLocked = some b → True := fun _ _ => trivial
  have hm := moves_step hll d hinv ev fun _ _ => trivial
  cases ev with
  | consensusUpdate lock commit => exact hu.rules hinv hm (lowers_onConsensusUpdate d lock commit) rfl
  | proposalMsg b lastCert clock packetOk cookie =>
    exact unequivocal_handleProposalMsg hu hinv b lastCert clock packetOk cookie
  | verifyJob id sigOk verifyOk =>
    exact hu.rules hinv hm (by rw [step, rules_verifyJob]; exact .refl _) (votes_verifyJob d id sigOk verifyOk)
  | verifyCallback id verifyOk certAuth => exact unequivocal_verifyCallback hu hinv id verifyOk certAuth
  | newBlockFire b => exact unequivocal_onNewBlockFire hu hinv b
  | clockFire clock =>
    have hl : Lowers d.rules { d.rules with latestClock := max d.rules.latestClock clock } := lowers_of_eq rfl rfl
    exact hu.rules hinv hm (hl.trans (lowers_expireProposals st _)) rfl
  | viewFire viewid =>
    have hl : Lowers d.rules { d.rules with latestViewid := max d.rules.latestViewid viewid } := lowers_of_eq rfl rfl
    exact hu.rules hinv hm (hl.trans (lowers_expireProposals st _)) rfl
  | proposalStart lock commit cert => exact hu.rules hinv hm (lowers_onProposalStart d lock commit cert) rfl

end Steps

end Driver

namespace Replica

open Rules Proposal

section Steps

variable {st : Store}

theorem unequivocal_handleCommitMsg {r : Replica} (hu : r.driver.Unequivocal) (hinv : r.driver.rules.Inv)
    (m : CommitMsg) (packetOk ready fromLeader : Bool) :
    (r.handleCommitMsg st m packetOk ready fromLeader).1.driver.Unequivocal := by
  have hll : ∀ b, st.latestLocked = some b → True := fun _ _ => trivial
  rcases driver_handleCommitMsg st r m packetOk ready fromLeader with h | ⟨id, h⟩ | h <;> rw [h]
  · exact hu
  · exact Rules.Unequivocal.disableVote hu hinv id
  · exact Rules.Unequivocal.moves hu hinv (moves_of_changes (changes_getLockBlock hll _)) (lowers_getLockBlock st _)

/-- The callback of a verified commit authenticates the block, adds it as a certificate
and looks again at the proposals above it. -/
theorem unequivocal_afterVerifyCommitJob {r : Replica} (hu : r.driver.Unequivocal) (hinv : r.driver.rules.Inv)
    (id : ℕ) (c : CommitCert) : (r.afterVerifyCommitJob st id c).driver.Unequivocal := by
  have hll : ∀ b, st.latestLocked = some b → True := fun _ _ => trivial
  unfold afterVerifyCommitJob
  dsimp only
  split
  · have hm0 : Relation.ReflTransGen (Rules.Move st fun _ => True) r.driver.rules (r.driver.rules.mergeCert id c) :=
      moves_mergeCert _ _ _
    have hu0 := Rules.Unequivocal.moves hu hinv hm0 (lowers_mergeCert _ _ _)
    have hinv0 := inv_of_moves hm0 hinv
    split
    · have hm1 := moves_of_changes
        (changes_addCertBlock hll (r.driver.rules.mergeCert id c) ((r.driver.rules.mergeCert id c).obj id).block)
      have hu1 := hu0.moves hinv0 hm1 (lowers_addCertBlock st _ _)
      split
      · refine Driver.unequivocal_onNewBlockFire ?_ (inv_of_moves hm1 hinv0) _
        exact hu1
      · exact hu1
    · exact hu0
  · exact hu

theorem unequivocal_step (r : Replica) (hu : r.driver.Unequivocal) (hinv : r.driver.rules.Inv)
    (ev : ReplicaEvent) : (r.step st ev).driver.Unequivocal := by
  cases ev with
  | driver ev => exact Driver.unequivocal_step hu hinv ev
  | commitMsg m packetOk ready fromLeader => exact unequivocal_handleCommitMsg hu hinv m packetOk ready fromLeader
  | verifyCommitJob id c sigOk => exact (driver_verifyCommitJob r id c sigOk).symm ▸ hu
  | afterVerifyCommitJob id c => exact unequivocal_afterVerifyCommitJob hu hinv id c

theorem unequivocal_run (events : List ReplicaEvent) (r : Replica) (hu : r.driver.Unequivocal)
    (hinv : r.driver.rules.Inv) : (r.run st events).driver.Unequivocal := by
  have hll : ∀ b, st.latestLocked = some b → True := fun _ _ => trivial
  -- the rules' invariant goes along, for the map the steps read
  induction events generalizing r with
  | nil => exact hu
  | cons ev rest ih =>
    exact ih _ (unequivocal_step r hu hinv ev) (inv_of_moves (moves_step hll r hinv ev fun _ _ => trivial) hinv)

end Steps

end Replica

/-- **A replica never votes twice in one view.**  Over any interleaving of its events,
the commit path and the asynchronous verification included, the votes a replica emits
are of pairwise different view ids. -/
theorem votes_viewid_nodup (st : Store) (events : List ReplicaEvent) :
    ((Replica.empty.run st events).driver.votes.map Block.viewid).Nodup :=
  Rules.Unequivocal.nodup (Replica.unequivocal_run events .empty Driver.unequivocal_empty Rules.inv_empty)

end Bft
end TopChain

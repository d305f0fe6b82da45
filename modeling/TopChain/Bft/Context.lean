import TopChain.Bft.Ordered

/-!
# The context in front of the driver

`xBFTcontext_t` stands between the pacemaker and the driver of an account.  It keeps a
lock and a commit of its own, and raises each only to a block above it in view id and
in height, of its chain and account (`update_lock_block`, `update_commit_block`); the
first commit also becomes the lock.  It takes these blocks from the lock and commit of
the events coming down, and from its 3-chain execution, which locks the parent and
commits the grandparent of a new certified node of its pool (`do_execute`; the pool is
not modelled, only the blocks it hands to the two updates).  A consensus update leaves
it with the context's lock and commit, which the driver then receives; a proposal start
takes them only where it carries none of its own.

A replica behind its context receives its lock updates only through it; every other
event reaches it directly.  The blocks come from the block store, which keeps one block
per height and view id: with those keyed, every lock the driver receives is keyed, and
the replica votes in increasing view id over every run of the two.

## Main definitions

* `Context`, `Context.updateLockBlock`, `Context.updateCommitBlock` — the context's lock
  and commit.
* `ContextEvent`, `Context.step` — the events the context handles, and what it hands
  down to the driver.
* `Stack`, `StackEvent`, `Stack.received` — a replica behind its context, and the events
  the replica receives in a run.

## Main results

* `Context.rises_run` — the context's lock only rises.
* `Stack.run_replica` — the replica of a run of the stack is the run of what it receives.
* `stack_votes_viewid_increasing` — a replica behind its context votes in increasing
  view id.
-/

namespace TopChain
namespace Bft

/-- What `xBFTcontext_t` keeps: its latest lock and commit. -/
structure Context where
  lock : Option Block
  commit : Option Block
  deriving DecidableEq, Repr

namespace Context

/-- A context that has not run yet. -/
def empty : Context := ⟨none, none⟩

/-- The guard of `update_lock_block` and `update_commit_block`: a new block passes the old
one in view id and in height, and is of its chain and account. -/
def raises (old b : Block) : Bool :=
  old.viewid < b.viewid && old.height < b.height && b.chainid == old.chainid && b.account == old.account

/-- `update_lock_block`.  `committed` is the block's committed flag, which the rules'
blocks do not carry; a block with neither flag is refused. -/
def updateLockBlock (c : Context) (b : Block) (committed : Bool) : Context × Bool :=
  if !b.locked && !committed then (c, false)
  else
    match c.lock with
    | none => ({ c with lock := some b }, true)
    | some l =>
      if l = b then (c, false)
      else if raises l b then ({ c with lock := some b }, true)
      else (c, false)

/-- `update_commit_block`: a committed and authenticated block; the first commit also
initializes the lock. -/
def updateCommitBlock (c : Context) (b : Block) (committed : Bool) : Context × Bool :=
  if !committed || !b.authenticated then (c, false)
  else
    match c.commit with
    | none => (({ c with commit := some b } : Context).updateLockBlock b true).1 |> fun c => (c, true)
    | some m =>
      if m = b then (c, false)
      else if raises m b then ({ c with commit := some b }, true)
      else (c, false)

/-- The update of `on_consensus_update` on its way down, and of `on_proposal_start`: a
delivered lock (`safe_check_for_block`) is passed to `update_lock_block`, then a
delivered commit to `update_commit_block`; each comes with its committed flag. -/
def update (c : Context) (lock commit : Option (Block × Bool)) : Context :=
  let c := match lock with
    | some (l, committed) => if l.deliver then (c.updateLockBlock l committed).1 else c
    | none => c
  match commit with
  | some (m, committed) => if m.deliver then (c.updateCommitBlock m committed).1 else c
  | none => c

end Context

/-- The events the context handles on their way to the driver. -/
inductive ContextEvent where
  /-- `on_consensus_update` coming down, with the event's lock and commit. -/
  | consensusUpdate (lock commit : Option (Block × Bool))
  /-- `on_proposal_start` of a replica, with the event's lock, commit and certificate. -/
  | proposalStart (lock commit : Option (Block × Bool)) (cert : Option Block)
  /-- `do_execute` of a new certified node: its parent is marked locked and passed to
  `update_lock_block`, and its grandparent, if the pool holds it, marked committed and
  passed to `update_commit_block`. -/
  | execute (parent : Block) (grandparent : Option Block)
  /-- `do_submit`, which hands the context's lock and commit down. -/
  | submit
  deriving DecidableEq, Repr

/-- The blocks an event hands to the context's updates. -/
def ContextEvent.blocks : ContextEvent → List Block
  | .consensusUpdate lock commit => (lock.map Prod.fst).toList ++ (commit.map Prod.fst).toList
  | .proposalStart lock commit _ => (lock.map Prod.fst).toList ++ (commit.map Prod.fst).toList
  | .execute parent grandparent => parent :: grandparent.toList
  | .submit => []

namespace Context

/-- One event: the context it leaves, and the event it hands down to the driver. -/
def step (c : Context) : ContextEvent → Context × Option Driver.Event
  | .consensusUpdate lock commit =>
    let c := c.update lock commit
    (c, some (.consensusUpdate c.lock c.commit))
  | .proposalStart lock commit cert =>
    let c := c.update lock commit
    (c, some (.proposalStart ((lock.map Prod.fst).or c.lock) ((commit.map Prod.fst).or c.commit) cert))
  | .execute parent grandparent =>
    let c := (c.updateLockBlock { parent with locked := true } false).1
    (match grandparent with
      | some g => (c.updateCommitBlock { g with locked := true } true).1
      | none => c, none)
  | .submit => (c, some (.consensusUpdate c.lock c.commit))

/-- A run of events. -/
def run (c : Context) (events : List ContextEvent) : Context := events.foldl (fun c ev => (c.step ev).1) c

/-! ### What the context holds only rises -/

/-- `b` is `l`, or above it in view id and height, of its chain and account. -/
def AtOrAbove (l b : Block) : Prop := l = b ∨ raises l b = true

theorem raises_trans {a b d : Block} (h₁ : raises a b = true) (h₂ : raises b d = true) : raises a d = true := by
  simp only [raises, Bool.and_eq_true, decide_eq_true_eq, beq_iff_eq] at h₁ h₂ ⊢
  obtain ⟨⟨⟨hv₁, hh₁⟩, hc₁⟩, ha₁⟩ := h₁
  obtain ⟨⟨⟨hv₂, hh₂⟩, hc₂⟩, ha₂⟩ := h₂
  exact ⟨⟨⟨UInt64.lt_trans hv₁ hv₂, UInt64.lt_trans hh₁ hh₂⟩, hc₂.trans hc₁⟩, ha₂.trans ha₁⟩

theorem AtOrAbove.trans {a b d : Block} (h₁ : AtOrAbove a b) (h₂ : AtOrAbove b d) : AtOrAbove a d := by
  rcases h₁ with rfl | h₁
  · exact h₂
  · rcases h₂ with rfl | h₂
    · exact .inr h₁
    · exact .inr (raises_trans h₁ h₂)

/-- A slot (the lock or the commit) after another: empty before, or holding a block at or
above the one it held. -/
def Rises (o o' : Option Block) : Prop := ∀ l, o = some l → ∃ l', o' = some l' ∧ AtOrAbove l l'

theorem Rises.refl (o : Option Block) : Rises o o := fun l h => ⟨l, h, .inl rfl⟩

theorem Rises.trans {o o' o'' : Option Block} (h₁ : Rises o o') (h₂ : Rises o' o'') : Rises o o'' := by
  intro l hl
  obtain ⟨l', hl', hab⟩ := h₁ l hl
  obtain ⟨l'', hl'', hbd⟩ := h₂ l' hl'
  exact ⟨l'', hl'', hab.trans hbd⟩

/-- An update of a slot with `b`: it keeps what it held, or takes `b`, above it. -/
def Takes (o o' : Option Block) (b : Block) : Prop :=
  o' = o ∨ (o' = some b ∧ ∀ l, o = some l → raises l b = true)

theorem Takes.rises {o o' : Option Block} {b : Block} (h : Takes o o' b) : Rises o o' := by
  rcases h with rfl | ⟨rfl, hb⟩
  · exact Rises.refl _
  · exact fun l hl => ⟨b, rfl, .inr (hb l hl)⟩

/-- What a slot holds after an update is what it held, or the block of the update. -/
theorem Takes.forall {P : Block → Prop} {o o' : Option Block} {b : Block} (h : Takes o o' b)
    (ho : ∀ l, o = some l → P l) (hb : P b) : ∀ l, o' = some l → P l := by
  rcases h with rfl | ⟨rfl, -⟩
  · exact ho
  · intro l hl
    exact Option.some.inj hl ▸ hb

/-- The lock and the commit of `c'` are at or above those of `c`. -/
def Le (c c' : Context) : Prop := Rises c.lock c'.lock ∧ Rises c.commit c'.commit

theorem Le.refl (c : Context) : c.Le c := ⟨Rises.refl _, Rises.refl _⟩

theorem Le.trans {c c' c'' : Context} (h₁ : c.Le c') (h₂ : c'.Le c'') : c.Le c'' :=
  ⟨h₁.1.trans h₂.1, h₁.2.trans h₂.2⟩

theorem takes_updateLockBlock (c : Context) (b : Block) (committed : Bool) :
    Takes c.lock (c.updateLockBlock b committed).1.lock b := by
  unfold updateLockBlock
  split
  · exact .inl rfl
  · -- the lock is taken when there was none, or when `b` passes it
    cases hl : c.lock with
    | none => exact .inr ⟨rfl, fun _ h => absurd h (by simp)⟩
    | some l =>
      dsimp only
      split_ifs with he hr
      · exact .inl hl
      · exact .inr ⟨rfl, fun _ h => Option.some.inj h ▸ hr⟩
      · exact .inl hl

/-- A block at the view id of the lock is refused, at any height. -/
example : (Context.mk (some linkedLock) none).updateLockBlock { linkedLock with height := 2, blockHash := "M" } false =
    (⟨some linkedLock, none⟩, false) := by decide

theorem commit_updateLockBlock (c : Context) (b : Block) (committed : Bool) :
    (c.updateLockBlock b committed).1.commit = c.commit := by
  unfold updateLockBlock
  split
  · rfl
  · split
    · rfl
    · split_ifs <;> rfl

theorem takes_updateCommitBlock_commit (c : Context) (b : Block) (committed : Bool) :
    Takes c.commit (c.updateCommitBlock b committed).1.commit b := by
  unfold updateCommitBlock
  split
  · exact .inl rfl
  · cases hm : c.commit with
    | none =>
      refine .inr ⟨?_, fun _ h => absurd h (by simp)⟩
      exact commit_updateLockBlock _ b true
    | some m =>
      dsimp only
      split_ifs with he hr
      · exact .inl hm
      · exact .inr ⟨rfl, fun _ h => Option.some.inj h ▸ hr⟩
      · exact .inl hm

theorem takes_updateCommitBlock_lock (c : Context) (b : Block) (committed : Bool) :
    Takes c.lock (c.updateCommitBlock b committed).1.lock b := by
  unfold updateCommitBlock
  split
  · exact .inl rfl
  · split
    -- the first commit is passed on to the lock
    · exact takes_updateLockBlock { c with commit := some b } b true
    · split_ifs <;> exact .inl rfl

theorem le_updateLockBlock (c : Context) (b : Block) (committed : Bool) :
    c.Le (c.updateLockBlock b committed).1 :=
  ⟨(takes_updateLockBlock c b committed).rises, by rw [commit_updateLockBlock]; exact Rises.refl _⟩

theorem le_updateCommitBlock (c : Context) (b : Block) (committed : Bool) :
    c.Le (c.updateCommitBlock b committed).1 :=
  ⟨(takes_updateCommitBlock_lock c b committed).rises, (takes_updateCommitBlock_commit c b committed).rises⟩

theorem le_update (c : Context) (lock commit : Option (Block × Bool)) : c.Le (c.update lock commit) := by
  -- the lock update, then the commit update, each made or skipped
  have hl : c.Le (match lock with
      | some (l, committed) => if l.deliver then (c.updateLockBlock l committed).1 else c
      | none => c) := by
    rcases lock with _ | ⟨l, f⟩
    · exact Le.refl c
    · dsimp only
      split_ifs
      · exact le_updateLockBlock c l f
      · exact Le.refl c
  unfold update
  generalize (match lock with
      | some (l, committed) => if l.deliver then (c.updateLockBlock l committed).1 else c
      | none => c) = c' at hl ⊢
  rcases commit with _ | ⟨m, f⟩
  · exact hl
  · dsimp only
    split_ifs
    · exact hl.trans (le_updateCommitBlock c' m f)
    · exact hl

theorem le_step (c : Context) (ev : ContextEvent) : c.Le (c.step ev).1 := by
  cases ev with
  | consensusUpdate lock commit => exact le_update c lock commit
  | proposalStart lock commit cert => exact le_update c lock commit
  | execute parent grandparent =>
    have h := le_updateLockBlock c { parent with locked := true } false
    rcases grandparent with _ | g
    · exact h
    · exact h.trans (le_updateCommitBlock _ _ true)
  | submit => exact Le.refl c

theorem run_append (c : Context) (events more : List ContextEvent) :
    c.run (events ++ more) = (c.run events).run more :=
  List.foldl_append

theorem le_run (c : Context) (events : List ContextEvent) : c.Le (c.run events) := by
  induction events generalizing c with
  | nil => exact Le.refl c
  | cons ev rest ih => exact (le_step c ev).trans (ih _)

/-- **The context's lock and commit only rise.**  Over any run of the context, whatever
events follow, its lock and its commit stay where they are or move to blocks above
them in view id and in height, of their chain and account. -/
theorem le_run_append (c : Context) (events more : List ContextEvent) :
    (c.run events).Le (c.run (events ++ more)) := by
  rw [run_append]
  exact le_run _ more

/-! ### What the context holds and hands down -/

section Holds

variable {P : Block → Prop}

/-- Every block the context holds satisfies `P`. -/
def Holds (P : Block → Prop) (c : Context) : Prop :=
  (∀ l, c.lock = some l → P l) ∧ (∀ m, c.commit = some m → P m)

theorem holds_empty : empty.Holds P :=
  ⟨fun _ h => absurd h (by simp [empty]), fun _ h => absurd h (by simp [empty])⟩

theorem Holds.updateLockBlock {c : Context} {b : Block} (hc : c.Holds P) (hb : P b) (committed : Bool) :
    (c.updateLockBlock b committed).1.Holds P :=
  ⟨(takes_updateLockBlock c b committed).forall hc.1 hb, by rw [commit_updateLockBlock]; exact hc.2⟩

theorem Holds.updateCommitBlock {c : Context} {b : Block} (hc : c.Holds P) (hb : P b) (committed : Bool) :
    (c.updateCommitBlock b committed).1.Holds P :=
  ⟨(takes_updateCommitBlock_lock c b committed).forall hc.1 hb,
    (takes_updateCommitBlock_commit c b committed).forall hc.2 hb⟩

theorem Holds.update {c : Context} (hc : c.Holds P) {lock commit : Option (Block × Bool)}
    (hl : ∀ x, lock = some x → P x.1) (hm : ∀ x, commit = some x → P x.1) : (c.update lock commit).Holds P := by
  have hc' : (match lock with
      | some (l, committed) => if l.deliver then (c.updateLockBlock l committed).1 else c
      | none => c).Holds P := by
    rcases lock with _ | ⟨l, f⟩
    · exact hc
    · dsimp only
      split_ifs
      · exact hc.updateLockBlock (hl _ rfl) f
      · exact hc
  unfold Context.update
  generalize (match lock with
      | some (l, committed) => if l.deliver then (c.updateLockBlock l committed).1 else c
      | none => c) = c' at hc' ⊢
  rcases commit with _ | ⟨m, f⟩
  · exact hc'
  · dsimp only
    split_ifs
    · exact hc'.updateCommitBlock (hm _ rfl) f
    · exact hc'

theorem forall_or {o o' : Option Block} (h : ∀ x, o = some x → P x) (h' : ∀ x, o' = some x → P x) :
    ∀ x, o.or o' = some x → P x := by
  intro x hx
  rcases Option.or_eq_some_iff.mp hx with hx | ⟨-, hx⟩
  · exact h x hx
  · exact h' x hx

theorem forall_map_fst {o : Option (Block × Bool)} (h : ∀ x, o = some x → P x.1) :
    ∀ x, o.map Prod.fst = some x → P x := by
  intro x hx
  obtain ⟨y, hy, rfl⟩ := Option.map_eq_some_iff.mp hx
  exact h y hy

/-- A context whose blocks satisfy `P` keeps them so through an event whose blocks do, and
hands down locks that do; `P` must not read the locked flag, which `do_execute` sets. -/
theorem holds_step (hP : ∀ b, P b → P { b with locked := true }) {c : Context} (hc : c.Holds P)
    (ev : ContextEvent) (hev : ∀ b ∈ ev.blocks, P b) :
    (c.step ev).1.Holds P ∧ ∀ dev, (c.step ev).2 = some dev → ∀ b, dev.lockArg = some b → P b := by
  -- the lock and commit of an event are among its blocks
  have hpair : ∀ (lock commit : Option (Block × Bool)),
      (∀ b ∈ (lock.map Prod.fst).toList ++ (commit.map Prod.fst).toList, P b) →
        (∀ x, lock = some x → P x.1) ∧ (∀ x, commit = some x → P x.1) := by
    intro lock commit h
    exact ⟨fun x hx => h x.1 (by simp [hx]), fun x hx => h x.1 (by simp [hx])⟩
  cases ev with
  | consensusUpdate lock commit =>
    obtain ⟨hl, hm⟩ := hpair lock commit hev
    have h' := hc.update hl hm
    refine ⟨h', ?_⟩
    rintro dev ⟨⟩ b hb
    exact h'.1 b hb
  | proposalStart lock commit cert =>
    obtain ⟨hl, hm⟩ := hpair lock commit hev
    have h' := hc.update hl hm
    refine ⟨h', ?_⟩
    rintro dev ⟨⟩
    exact forall_or (forall_or (forall_map_fst hl) h'.1) (forall_or (forall_map_fst hm) h'.2)
  | execute parent grandparent =>
    have h' := hc.updateLockBlock (hP _ (hev parent List.mem_cons_self)) false
    refine ⟨?_, fun _ h => absurd h (by simp [step])⟩
    rcases grandparent with _ | g
    · exact h'
    · exact h'.updateCommitBlock (hP _ (hev g (by simp [ContextEvent.blocks]))) true
  | submit =>
    refine ⟨hc, ?_⟩
    rintro dev ⟨⟩ b hb
    exact hc.1 b hb

end Holds

end Context

/-! ### A replica behind its context -/

/-- A replica behind its context. -/
structure Stack where
  context : Context
  replica : Replica

/-- An event of a replica behind its context: one the context handles, or one that reaches
the replica directly, which carries no lock: locks come down through the context. -/
inductive StackEvent where
  | context (ev : ContextEvent)
  | replica (ev : ReplicaEvent) (h : ev.lockArg = none)

namespace StackEvent

/-- The context after an event. -/
def next (c : Context) : StackEvent → Context
  | .context ev => (c.step ev).1
  | .replica _ _ => c

/-- What the replica receives of an event: the event the context hands down, if any, or
the event itself. -/
def received (c : Context) : StackEvent → List ReplicaEvent
  | .context ev => ((c.step ev).2.map .driver).toList
  | .replica ev _ => [ev]

/-- The blocks an event hands to the context. -/
def blocks : StackEvent → List Block
  | .context ev => ev.blocks
  | .replica _ _ => []

end StackEvent

namespace Stack

/-- A context and a replica that have not run yet. -/
def empty : Stack := ⟨.empty, .empty⟩

/-- One event: the context handles it, then the replica runs what reaches it. -/
def step (st : Store) (x : Stack) (ev : StackEvent) : Stack :=
  ⟨ev.next x.context, x.replica.run st (ev.received x.context)⟩

/-- A run of events, against one block store. -/
def run (st : Store) (x : Stack) (events : List StackEvent) : Stack := events.foldl (step st) x

/-- The events the replica receives in a run, from the context it starts with. -/
def received (c : Context) : List StackEvent → List ReplicaEvent
  | [] => []
  | ev :: events => ev.received c ++ received (ev.next c) events

theorem run_replica (st : Store) (x : Stack) (events : List StackEvent) :
    (x.run st events).replica = x.replica.run st (received x.context events) := by
  induction events generalizing x with
  | nil => rfl
  | cons ev rest ih =>
    rw [run, List.foldl_cons, ← run, ih, received, Replica.run_append]
    rfl

/-- With the blocks handed to the context satisfying `P`, so does every lock the replica
receives. -/
theorem lockArg_received {P : Block → Prop} (hP : ∀ b, P b → P { b with locked := true })
    (events : List StackEvent) (hev : ∀ ev ∈ events, ∀ b ∈ ev.blocks, P b) (c : Context) (hc : c.Holds P) :
    ∀ rev ∈ received c events, ∀ b, rev.lockArg = some b → P b := by
  -- induction on the run, with the context's blocks satisfying `P` throughout
  induction events generalizing c with
  | nil => intro rev h; exact absurd h List.not_mem_nil
  | cons ev rest ih =>
    have hrest := ih (fun e he => hev e (List.mem_cons_of_mem ev he))
    intro rev hrev
    rcases List.mem_append.mp hrev with hrev | hrev
    · cases ev with
      | context e =>
        cases hdev : (c.step e).2 with
        | none => simp [StackEvent.received, hdev] at hrev
        | some dev =>
          obtain rfl : rev = .driver dev := by simpa [StackEvent.received, hdev] using hrev
          exact (c.holds_step hP hc e (hev _ List.mem_cons_self)).2 dev hdev
      | replica e he =>
        obtain rfl : rev = e := List.mem_singleton.mp hrev
        intro b hb
        exact absurd (he.symm.trans hb) (by simp)
    · cases ev with
      | context e => exact hrest _ (c.holds_step hP hc e (hev _ List.mem_cons_self)).1 rev hrev
      | replica e he => exact hrest c hc rev hrev

end Stack

/-- **A replica behind its context votes in strictly increasing view ids.**  Over every
run of the context in front of a replica in which the blocks handed to the context, and
the block store's latest locked block, are keyed (blocks of the store), the votes the
replica emits are in strictly increasing view id. -/
theorem stack_votes_viewid_increasing {chain : UInt32} {account : String} {hash : UInt64 → UInt64 → String}
    (st : Store) (events : List StackEvent) (hll : ∀ b, st.latestLocked = some b → b.Keyed chain account hash)
    (hev : ∀ ev ∈ events, ∀ b ∈ ev.blocks, b.Keyed chain account hash) :
    ((Stack.empty.run st events).replica.driver.votes.map Block.viewid).Pairwise (· < ·) := by
  have hkeyed := Stack.lockArg_received (fun _ h => h) events hev .empty Context.holds_empty
  rw [Stack.run_replica]
  exact (Replica.ordered_run hll _ hkeyed .empty Rules.ordered_empty Driver.metered_empty Rules.inv_empty).sorted

/-- `viewChangeRun` behind a context: the lock comes down through it, every other event
reaches the replica directly. -/
def stackRun : List StackEvent :=
  [.context (.consensusUpdate (some (linkedLock, false)) none),
    .replica (.driver (.proposalMsg linkedProposal 1 0 true 2)) rfl, .replica (.driver (.verifyJob 0 true true)) rfl,
    .replica (.driver (.verifyCallback 0 true false)) rfl, .replica (.driver (.proposalMsg reproposal 1 3 true 3)) rfl,
    .replica (.driver (.verifyJob 1 true true)) rfl, .replica (.driver (.verifyCallback 1 true false)) rfl]

theorem stack_votes_viewid_increasing_stackRun :
    (Stack.empty.run ⟨none, fun _ _ => none⟩ stackRun).replica.driver.votes.map Block.viewid = [2, 3] ∧
      ((Stack.empty.run ⟨none, fun _ _ => none⟩ stackRun).replica.driver.votes.map Block.viewid).Pairwise (· < ·) := by
  -- the one block handed to the context is `linkedLock`
  have hev : ∀ ev ∈ stackRun, ∀ b ∈ ev.blocks, b.Keyed 0 "A" fun _ _ => "L" := by
    have hblocks : ∀ ev ∈ stackRun, ∀ b ∈ ev.blocks, b = linkedLock := by decide
    intro ev hev b hb
    obtain rfl := hblocks ev hev b hb
    exact ⟨rfl, rfl, rfl⟩
  exact ⟨by decide, stack_votes_viewid_increasing _ stackRun (fun _ h => by simp at h) hev⟩

end Bft
end TopChain

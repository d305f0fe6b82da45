import TopChain.Lib.Hops
import TopChain.Lib.SortedMap
import Mathlib.Data.Set.Insert
import Mathlib.Data.List.TakeWhile

/-!
# Routing an instruction through the unit tree

An account's state is a tree of execution units: `xvbstate_t` is an
`xvexegroup_t` whose children are its properties, leaf `xvexeunit_t`s, and each
unit's execute URI is its parent's URI, a `/` and its own name
(`set_parent_unit`).  A binlog instruction (`xvmethod_t`) names the URI of the
unit it is for, and `xvbstate_t::apply_changes_of_binlog` hands it to the state.

A group runs an op whose URI is its own.  When its URI is a prefix of the op's,
it skips one more character, takes the next path segment and forwards the op to
the child of that name; otherwise, or when it has no such child, it forwards the
op to its parent.  A leaf forwards every op whose URI is not its own to its
parent.  The units are positions in a table, the parent pointers and the child
maps hold positions, and each nested call of `execute` is one hop of `runHops`.

Routing reaches the unit an op is addressed to (`run_eq_invoke`).  It never
returns when the op is addressed below a unit that hands it back to its parent,
since the parent forwards it down to the same unit again
(`run_eq_none_of_bounce`).  That is so for every op addressed below a property
(`run_eq_none_below_leaf`) and below a group at a name none of its children has
(`run_eq_none_below_missing`).

## Main definitions

* `ExeTree.execute` — one call of `execute` on a unit: answer, or forward.
* `ExeTree.run` — the nested calls from a unit, on fuel.
* `ExeTree.WF` — the tree as `add_child_unit` and `set_parent_unit` keep it.
* `ExeTree.Path` — one unit below another, by child steps.

## Main results

* `ExeTree.run_eq_invoke` — an op addressed to a unit reaches it.
* `ExeTree.run_eq_none_of_bounce` — an op bounced between a unit and its parent
  never returns.
* `ExeTree.run_eq_none_below_leaf`, `ExeTree.run_eq_none_below_missing` — the ops
  bounced so.
-/

namespace TopChain

namespace Vledger

/-- The key of a registered method: `type.name` in `m_name_methods`, or
`(type << 8) | id` in `m_id_methods`. -/
inductive MethodKey
  | name (type : ℕ) (name : List Char)
  | id (type id : ℕ)
  deriving DecidableEq, Repr

/-- An `xvmethod_t` as routing reads it: the URI it is for and its method. -/
structure Op where
  uri : List Char
  key : MethodKey
  deriving DecidableEq, Repr

/-- A leaf unit (`xvexeunit_t`: a property), or a group (`xvexegroup_t`) with its
children by name (`m_child_units`). -/
inductive UnitKind
  | leaf
  | group (children : List (List Char × ℕ))
  deriving DecidableEq, Repr

/-- An execution unit: its execute URI (`m_execute_uri`), its parent
(`m_parent_unit`), its kind and the keys of its registered methods. -/
structure ExeUnit where
  uri : List Char
  parent : Option ℕ
  kind : UnitKind
  methods : List MethodKey
  deriving DecidableEq, Repr

instance : Inhabited ExeUnit := ⟨⟨[], none, .leaf, []⟩⟩

/-- The children of a unit; a leaf has none. -/
def ExeUnit.children (u : ExeUnit) : List (List Char × ℕ) :=
  match u.kind with
  | .leaf => []
  | .group children => children

/-- What the call chain ends in: a unit runs its registered method, or `not_impl`. -/
inductive Outcome
  | run (unit : ℕ) (key : MethodKey)
  | notImpl
  deriving DecidableEq, Repr

/-- The units of one state, with the pointers as positions. -/
structure ExeTree where
  units : List ExeUnit
  deriving Repr

namespace ExeTree

variable (t : ExeTree)

/-- The unit at position `i`. -/
def unit (i : ℕ) : ExeUnit := t.units.getD i default

/-- The op reached unit `i`: it runs the method registered under the op's key, or,
after `xassert(false)`, `not_impl`. -/
def invoke (i : ℕ) (op : Op) : Outcome :=
  if op.key ∈ (t.unit i).methods then .run i op.key else .notImpl

/-- Forward to the parent, or `not_impl` where there is none. -/
def toParent (i : ℕ) : Hop ℕ Outcome :=
  match (t.unit i).parent with
  | some p => .next p
  | none => .done .notImpl

/-- `xvexeunit_t::execute`. -/
def unitExecute (i : ℕ) (op : Op) : Hop ℕ Outcome :=
  if op.uri ≠ (t.unit i).uri then t.toParent i
  else .done (t.invoke i op)

/-- The child `xvexegroup_t::execute` forwards to: when the group's URI is a
prefix of the op's (`find(...) == 0`), skip it and one more character, and look up
the next path segment (`left_path`, `find_first_of('/')`). -/
def childFor (children : List (List Char × ℕ)) (uri : List Char) (op : Op) : Option ℕ :=
  if uri.length < op.uri.length ∧ uri <+: op.uri then
    -- `substr(size() + 1)`: the skipped character is taken to be `/`
    let leftPath := op.uri.drop (uri.length + 1)
    if leftPath ≠ [] then
      if '/' ∈ leftPath then children.lookup (leftPath.takeWhile (· ≠ '/'))
      else children.lookup leftPath
    else none
  else none

/-- `xvexegroup_t::execute`. -/
def groupExecute (children : List (List Char × ℕ)) (i : ℕ) (op : Op) : Hop ℕ Outcome :=
  if op.uri = (t.unit i).uri then t.unitExecute i op
  else
    match childFor children (t.unit i).uri op with
    | some c => .next c
    | none => t.toParent i

/-- The virtual `execute`, by the unit's kind. -/
def execute (op : Op) (i : ℕ) : Hop ℕ Outcome :=
  match (t.unit i).kind with
  | .leaf => t.unitExecute i op
  | .group children => t.groupExecute children i op

/-- `execute(op)` called on unit `i`, for at most `fuel` nested calls. -/
def run (op : Op) (fuel i : ℕ) : Option Outcome :=
  runHops (t.execute op) fuel i

/-! ### The tree's shape -/

/-- The tree as `add_child_unit` and `set_parent_unit` keep it, for names that
are not empty and hold no `/`: a group's children are in key order
(`std::map`), and a child's parent is the group and its URI the group's, a `/`
and its name. -/
structure WF : Prop where
  sorted : ∀ i, (t.unit i).children.Pairwise fun a b => a.1 < b.1
  name_ne_nil : ∀ i, ∀ e ∈ (t.unit i).children, e.1 ≠ []
  slash_not_mem : ∀ i, ∀ e ∈ (t.unit i).children, '/' ∉ e.1
  parent_eq : ∀ i, ∀ e ∈ (t.unit i).children, (t.unit e.2).parent = some i
  uri_eq : ∀ i, ∀ e ∈ (t.unit i).children, (t.unit e.2).uri = (t.unit i).uri ++ '/' :: e.1

/-- Unit `u` lies `n` child steps below unit `a`. -/
inductive Path (a : ℕ) : ℕ → ℕ → Prop
  | refl : Path a a 0
  | child {u n : ℕ} {e : List Char × ℕ} : Path a u n → e ∈ (t.unit u).children →
      Path a e.2 (n + 1)

/-- `uri` is `base` or lies under it, after a `/`. -/
def Below (uri base : List Char) : Prop :=
  uri = base ∨ ∃ rest, uri = base ++ '/' :: rest

theorem below_refl (uri : List Char) : Below uri uri := Or.inl rfl

theorem Below.trans {a b c : List Char} (hab : Below a b) (hbc : Below b c) : Below a c := by
  rcases hab with rfl | ⟨r, rfl⟩
  · exact hbc
  · rcases hbc with rfl | ⟨r', rfl⟩
    · exact Or.inr ⟨r, rfl⟩
    · exact Or.inr ⟨r' ++ '/' :: r, by simp⟩

theorem Below.length_le {a b : List Char} (h : Below a b) : b.length ≤ a.length := by
  rcases h with rfl | ⟨r, rfl⟩
  · exact Nat.le_refl _
  · simp

/-- Everything below a child is below its group, and longer than the group's URI. -/
theorem Below.of_child {uri base : List Char} {name : List Char}
    (h : Below uri (base ++ '/' :: name)) : Below uri base ∧ base.length < uri.length := by
  refine ⟨h.trans (Or.inr ⟨name, rfl⟩), ?_⟩
  have hle := h.length_le
  simp only [List.length_append, List.length_cons] at hle
  omega

/-- Past the end of the table a unit is the default leaf. -/
theorem unit_of_length_le {i : ℕ} (h : t.units.length ≤ i) : t.unit i = default := by
  rw [unit, List.getD_eq_getElem?_getD, List.getElem?_eq_none h, Option.getD_none]

end ExeTree

/-- A segment that holds no `/`, followed by a `/`, is what `find_first_of('/')`
cuts off. -/
theorem takeWhile_ne_slash {name : List Char} (h : '/' ∉ name) (rest : List Char) :
    (name ++ '/' :: rest).takeWhile (· ≠ '/') = name := by
  rw [List.takeWhile_append_of_pos]
  · simp
  · intro c hc
    simp only [ne_eq, decide_eq_true_eq]
    rintro rfl
    exact h hc

/-- A `std::map` of units in key order finds a child under its name. -/
theorem lookup_child {children : List (List Char × ℕ)}
    (hs : children.Pairwise fun a b => a.1 < b.1) {e : List Char × ℕ} (he : e ∈ children) :
    children.lookup e.1 = some e.2 := by
  have h := (lookup_eq_some_iff_mem hs).mpr he
  rwa [lawful_beq_subsingleton instBEqOfDecidableEq List.instBEq] at h

namespace ExeTree

variable {t : ExeTree}

/-! ### One call -/

/-- A unit that has a child is a group. -/
theorem kind_of_mem_children {i : ℕ} {e : List Char × ℕ} (he : e ∈ (t.unit i).children) :
    (t.unit i).kind = .group (t.unit i).children := by
  unfold ExeUnit.children at he ⊢
  split at he
  · simp at he
  · next children h => rw [h]

/-- A group forwards an op addressed to (or below) one of its children to it. -/
theorem childFor_of_below (hwf : t.WF) {i : ℕ} {e : List Char × ℕ}
    (he : e ∈ (t.unit i).children) {op : Op} (hop : Below op.uri (t.unit e.2).uri) :
    childFor (t.unit i).children (t.unit i).uri op = some e.2 := by
  rw [hwf.uri_eq i e he] at hop
  have hslash := hwf.slash_not_mem i e he
  have hlookup := lookup_child (hwf.sorted i) he
  have hlen := (Below.of_child hop).2
  unfold childFor
  dsimp only
  -- the op's URI is the child's, or the child's followed by a `/`
  rcases hop with hop | ⟨rest, hop⟩
  · have hleft : op.uri.drop ((t.unit i).uri.length + 1) = e.1 := by simp [hop]
    rw [hleft, if_pos ⟨hlen, ⟨'/' :: e.1, hop.symm⟩⟩, if_pos (hwf.name_ne_nil i e he),
      if_neg hslash]
    exact hlookup
  · have hleft : op.uri.drop ((t.unit i).uri.length + 1) = e.1 ++ '/' :: rest := by simp [hop]
    rw [hleft, if_pos ⟨hlen, ⟨'/' :: e.1 ++ '/' :: rest, by simp [hop]⟩⟩, if_pos (by simp),
      if_pos (by simp), takeWhile_ne_slash hslash]
    exact hlookup

/-- A group hands an op addressed to (or below) one of its children down to it. -/
theorem execute_of_below (hwf : t.WF) {i : ℕ} {e : List Char × ℕ}
    (he : e ∈ (t.unit i).children) {op : Op} (hop : Below op.uri (t.unit e.2).uri) :
    t.execute op i = .next e.2 := by
  have hne : op.uri ≠ (t.unit i).uri := by
    have hlen := (Below.of_child (hwf.uri_eq i e he ▸ hop)).2
    intro h
    rw [h] at hlen
    exact lt_irrefl _ hlen
  unfold execute
  rw [kind_of_mem_children he]
  dsimp only
  unfold groupExecute
  rw [if_neg hne, childFor_of_below hwf he hop]

/-- A unit answers an op addressed to it. -/
theorem execute_of_eq {i : ℕ} {op : Op} (hop : op.uri = (t.unit i).uri) :
    t.execute op i = .done (t.invoke i op) := by
  have hunit : t.unitExecute i op = .done (t.invoke i op) := by
    unfold unitExecute
    rw [if_neg (not_not.mpr hop)]
  unfold execute
  split
  · exact hunit
  · unfold groupExecute
    rw [if_pos hop, hunit]

/-- A leaf hands an op addressed below it to its parent. -/
theorem execute_leaf_of_ne {i p : ℕ} (hleaf : (t.unit i).kind = .leaf)
    (hp : (t.unit i).parent = some p) {op : Op} (hop : op.uri ≠ (t.unit i).uri) :
    t.execute op i = .next p := by
  unfold execute
  rw [hleaf]
  dsimp only
  unfold unitExecute toParent
  rw [if_pos hop, hp]

/-- A group hands an op it has no child for to its parent. -/
theorem execute_group_of_childFor {i p : ℕ} {children : List (List Char × ℕ)}
    (hgroup : (t.unit i).kind = .group children) (hp : (t.unit i).parent = some p) {op : Op}
    (hop : op.uri ≠ (t.unit i).uri) (hc : childFor children (t.unit i).uri op = none) :
    t.execute op i = .next p := by
  unfold execute
  rw [hgroup]
  dsimp only
  unfold groupExecute toParent
  rw [if_neg hop, hc, hp]

/-! ### Runs down the tree -/

/-- An op addressed to (or below) a unit is handed down to it from any unit above,
one call per level. -/
theorem Path.hops (hwf : t.WF) {a u n : ℕ} (hp : t.Path a u n) {op : Op}
    (hop : Below op.uri (t.unit u).uri) : Hops (t.execute op) a u n := by
  induction hp with
  | refl => exact hops_refl a
  | @child u n e _ he ih =>
    have hbelow : Below op.uri (t.unit u).uri := by
      rw [hwf.uri_eq u e he] at hop
      exact (Below.of_child hop).1
    exact (ih hbelow).tail (execute_of_below hwf he hop)

/-- Routing reaches the unit an op is addressed to: from any unit `n` levels
above it, `n + 1` nested calls end in that unit's method, or its `not_impl`. -/
theorem run_eq_invoke (hwf : t.WF) {a u n : ℕ} (hp : t.Path a u n) {op : Op}
    (hop : op.uri = (t.unit u).uri) : t.run op (n + 1) a = some (t.invoke u op) := by
  unfold run
  rw [runHops_add_of_hops (hp.hops hwf (hop ▸ below_refl _)) 1]
  exact runHops_succ_of_done (execute_of_eq hop) 0

/-! ### Runs that bounce -/

/-- An op addressed below a child that the child hands back to its group never
returns: the group hands it down to the child again, and any unit above the
group hands it down to the group first. -/
theorem run_eq_none_of_bounce (hwf : t.WF) {a p n : ℕ} (hp : t.Path a p n)
    {e : List Char × ℕ} (he : e ∈ (t.unit p).children) {op : Op}
    (hop : Below op.uri (t.unit e.2).uri) (hup : t.execute op e.2 = .next p) (fuel : ℕ) :
    t.run op fuel a = none := by
  have hdown := execute_of_below hwf he hop
  -- the group and the child hand the op to each other
  have hcycle : ∀ k, runHops (t.execute op) k p = none := by
    intro k
    refine runHops_eq_none_of_closed {p, e.2} ?_ k p (Set.mem_insert p _)
    intro s hs
    rcases hs with rfl | hs
    · exact ⟨e.2, Set.mem_insert_of_mem _ rfl, hdown⟩
    · rw [Set.mem_singleton_iff.mp hs]
      exact ⟨p, Set.mem_insert p _, hup⟩
  have hbelow : Below op.uri (t.unit p).uri := by
    rw [hwf.uri_eq p e he] at hop
    exact (Below.of_child hop).1
  exact runHops_eq_none_of_shift (hp.hops hwf hbelow) hcycle fuel

/-- An op addressed below a property never returns: the property hands it to its
group, which hands it back to the property. -/
theorem run_eq_none_below_leaf (hwf : t.WF) {a p n : ℕ} (hp : t.Path a p n)
    {e : List Char × ℕ} (he : e ∈ (t.unit p).children) (hleaf : (t.unit e.2).kind = .leaf)
    {op : Op} (rest : List Char) (hop : op.uri = (t.unit e.2).uri ++ '/' :: rest) (fuel : ℕ) :
    t.run op fuel a = none := by
  have hne : op.uri ≠ (t.unit e.2).uri := by
    rw [hop]
    simp
  exact run_eq_none_of_bounce hwf hp he (Or.inr ⟨rest, hop⟩)
    (execute_leaf_of_ne hleaf (hwf.parent_eq p e he) hne) fuel

/-- A group finds no child for an op addressed below it at a name none of its
children has. -/
theorem childFor_eq_none {children : List (List Char × ℕ)} {uri rest : List Char} {op : Op}
    (hop : op.uri = uri ++ '/' :: rest) (hmiss : children.lookup (rest.takeWhile (· ≠ '/')) = none) :
    childFor children uri op = none := by
  have hleft : op.uri.drop (uri.length + 1) = rest := by simp [hop]
  unfold childFor
  dsimp only
  rw [hleft]
  split_ifs with hpre hnil hslash
  · exact hmiss
  · have hall : ∀ c ∈ rest, decide (c ≠ '/') = true :=
      fun c hc => decide_eq_true fun h => hslash (h ▸ hc)
    rwa [List.takeWhile_eq_self_iff.mpr hall] at hmiss
  · rfl
  · rfl

/-- An op addressed below a group, at a name none of its children has, never
returns: the group hands it to its parent, which hands it back to the group. -/
theorem run_eq_none_below_missing (hwf : t.WF) {a p n : ℕ} (hp : t.Path a p n)
    {e : List Char × ℕ} (he : e ∈ (t.unit p).children) {children : List (List Char × ℕ)}
    (hgroup : (t.unit e.2).kind = .group children) {op : Op} (rest : List Char)
    (hop : op.uri = (t.unit e.2).uri ++ '/' :: rest)
    (hmiss : children.lookup (rest.takeWhile (· ≠ '/')) = none) (fuel : ℕ) :
    t.run op fuel a = none := by
  have hne : op.uri ≠ (t.unit e.2).uri := by
    rw [hop]
    simp
  exact run_eq_none_of_bounce hwf hp he (Or.inr ⟨rest, hop⟩)
    (execute_group_of_childFor hgroup (hwf.parent_eq p e he) hne (childFor_eq_none hop hmiss))
    fuel

end ExeTree

/-- A state `T/1` holding one property `@1`, whose handler is registered. -/
def sampleState : ExeTree :=
  ⟨[⟨"T/1".toList, none, .group [("@1".toList, 1)], []⟩,
    ⟨"T/1/@1".toList, some 0, .leaf, [.id 1 0]⟩]⟩

/-- The op for `T/1/@1/x`, below the property, is handed between the state and
the property for ever. -/
theorem sampleState_run_below_property (fuel : ℕ) :
    sampleState.run ⟨"T/1/@1/x".toList, .id 1 0⟩ fuel 0 = none := by
  refine runHops_eq_none_of_closed {0, 1} ?_ fuel 0 (Set.mem_insert 0 _)
  intro s hs
  rcases hs with rfl | hs
  · exact ⟨1, Set.mem_insert_of_mem _ rfl, by decide⟩
  · rw [Set.mem_singleton_iff.mp hs]
    exact ⟨0, Set.mem_insert 0 _, by decide⟩

/-- `sampleState` as `add_child_unit` builds it. -/
theorem sampleState_wf : sampleState.WF := by
  -- past its two units every unit is a leaf, with no children
  have hout : ∀ i, (sampleState.unit (i + 1 + 1)).children = [] := fun i => by
    rw [ExeTree.unit_of_length_le sampleState (by simp [sampleState])]
    rfl
  constructor <;> intro i <;> rcases i with _ | _ | i <;> first | decide | simp [hout]

/-- The op for `T/1/@1` is routed from the state down to the property and runs the
handler registered there. -/
theorem run_eq_invoke_sampleProperty :
    sampleState.run ⟨"T/1/@1".toList, .id 1 0⟩ 2 0 = some (.run 1 (.id 1 0)) := by
  have hmem : ("@1".toList, 1) ∈ (sampleState.unit 0).children := by decide
  rw [ExeTree.run_eq_invoke sampleState_wf (.child .refl hmem) rfl]
  decide

/-- The op for `T/1/@1/x` never returns, however many calls are allowed: ten, here. -/
theorem run_eq_none_below_leaf_sampleProperty :
    sampleState.run ⟨"T/1/@1/x".toList, .id 1 0⟩ 10 0 = none := by
  have hmem : ("@1".toList, 1) ∈ (sampleState.unit 0).children := by decide
  exact ExeTree.run_eq_none_below_leaf sampleState_wf .refl hmem (by decide) "x".toList rfl 10

/-- A state `T/1` with a group `@1` below it, which holds the unit `a`. -/
def nestedState : ExeTree :=
  ⟨[⟨"T/1".toList, none, .group [("@1".toList, 1)], []⟩,
    ⟨"T/1/@1".toList, some 0, .group [("a".toList, 2)], []⟩,
    ⟨"T/1/@1/a".toList, some 1, .leaf, [.id 1 0]⟩]⟩

theorem nestedState_wf : nestedState.WF := by
  -- past its three units every unit is a leaf, with no children
  have hout : ∀ i, (nestedState.unit (i + 1 + 1 + 1)).children = [] := fun i => by
    rw [ExeTree.unit_of_length_le nestedState (by simp [nestedState])]
    rfl
  constructor <;> intro i <;> rcases i with _ | _ | _ | i <;> first | decide | simp [hout]

/-- The op for `T/1/@1/b`, below the group `@1`, which has no child `b`, never
returns: ten calls, here. -/
theorem run_eq_none_below_missing_nestedGroup :
    nestedState.run ⟨"T/1/@1/b".toList, .id 1 0⟩ 10 0 = none := by
  have hmem : ("@1".toList, 1) ∈ (nestedState.unit 0).children := by decide
  exact ExeTree.run_eq_none_below_missing nestedState_wf .refl hmem rfl "b".toList rfl (by decide) 10

end Vledger

end TopChain

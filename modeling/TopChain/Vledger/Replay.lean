import TopChain.Vledger.State

/-!
# Replaying a block state's binlog

A canvas records an instruction only after its handler succeeded, and
`apply_changes_of_binlog` executes the records on a copy of the state taken
before the run.  By `Binlog.replay_runRecorded` the copy ends where the state
ended as soon as every handler that fails changes nothing.  All property
handlers and the state's new, reset and delete handlers are such.
`do_renew_property` is not: on a missing property it first creates it with
`do_new_property`, and when the value it then copies in is not of the type of
the class it named, `copy_from_value` fails.  The property stays in the state,
the instruction is not recorded, and the replayed copy has no such property.

## Main definitions

* `Method.RenewsIllTyped` — a renew-property instruction whose value is not of
  the type of the class it names.
* `State.WellTyped` — every property holds a value of its class's type.

## Main results

* `State.step_of_not_recorded` — an unrecorded instruction, unless it renews
  ill-typed, changes nothing.
* `State.applyChangesOfBinlog_eq` — the replay reproduces the state, and so its
  `do_write`, when no instruction renews ill-typed.
* `State.doRenewProperty_illTyped`, `State.renewProperty_binlog_diverges` — the
  renew that fails after creating its property, and the replay it breaks.
* `State.wellTyped_executeOnCanvas` — properties keep values of their class's
  type through every run.
-/

namespace TopChain

namespace Vledger

namespace State

/-! ### The state's map -/

@[simp] theorem getPropertyObject_setProperty_self (s : State) (name : String) (p : Property) :
    (s.setProperty name p).getPropertyObject name = some p :=
  lookup_upsert_const p name s.props

/-- Adding a property under a new name adds one entry. -/
theorem length_setProperty_of_none {s : State} {name : String} (p : Property)
    (h : s.getPropertyObject name = none) :
    (s.setProperty name p).props.length = s.props.length + 1 :=
  length_upsert_of_lookup_eq_none _ h

/-- `do_write` writes three header fields and one per property. -/
theorem length_doWrite (s : State) : s.doWrite.length = s.props.length + 3 := by
  simp [doWrite]

/-! ### What each handler does -/

/-- `do_new_property` either fails and changes nothing, or creates the property
it names, of the class its type parameter names. -/
theorem doNewProperty_cases (s : State) (params : List Value) :
    (∃ e, s.doNewProperty params = (.error e, s)) ∨
      ∃ k, createXobject (params.getD 0 .null) = some k ∧
        s.getPropertyObject (params.getD 1 .null).getString = none ∧
        s.props.length < maxPropertyCount ∧
        s.doNewProperty params =
          (.successful, s.setProperty (params.getD 1 .null).getString k.create) := by
  unfold doNewProperty
  dsimp only
  split_ifs with hcount hexist hlimit
  · exact .inl ⟨_, rfl⟩
  · exact .inl ⟨_, rfl⟩
  · exact .inl ⟨_, rfl⟩
  · cases hk : createXobject (params.getD 0 .null) with
    | none => exact .inl ⟨_, rfl⟩
    | some k =>
      refine .inr ⟨k, rfl, ?_, by omega, rfl⟩
      simpa using hexist

/-- The copy at the end of a reset or renew fails and changes nothing, or
stores the copied property. -/
theorem copyIntoProperty_cases (s : State) (name : String) (p : Property) (v : Value) :
    (p.copyFromValue v = none ∧ s.copyIntoProperty name p v = (.error .fail, s)) ∨
      ∃ p', p.copyFromValue v = some p' ∧
        s.copyIntoProperty name p v = (.successful, s.setProperty name p') := by
  unfold copyIntoProperty
  cases h : p.copyFromValue v with
  | none => exact .inl ⟨rfl, rfl⟩
  | some p' => exact .inr ⟨p', rfl, rfl⟩

/-- A fresh property takes in a value exactly when it is of its class's type. -/
theorem copyFromValue_create (k : PropKind) (v : Value) :
    k.create.copyFromValue v = if v.type = k.valueType then some ⟨k, v⟩ else none := by
  have hnull : k.emptyValue.type ≠ .null := k.valueType_ne_null
  by_cases hv : v.type = k.valueType
  · simp [Property.copyFromValue, PropKind.create, hv, PropKind.valueType]
  · simp only [PropKind.valueType] at hv
    simp [Property.copyFromValue, PropKind.create, hv, hnull, PropKind.valueType]

/-- The renew of a missing property with a value of another type than its class:
it fails, after it created the property. -/
theorem doRenewProperty_illTyped {s : State} {name : String} {k : PropKind} {v : Value}
    (hname : s.getPropertyObject name = none) (hroom : s.props.length < maxPropertyCount)
    (hv : v.type ≠ k.valueType) :
    s.doRenewProperty [.objType k, .string name, v] =
      (.error .fail, s.setProperty name k.create) := by
  have hnew : s.doNewProperty [.objType k, .string name, v] =
      (.successful, s.setProperty name k.create) := by
    simp [doNewProperty, hname, createXobject, Value.getString, Nat.not_le.mpr hroom]
  simp [doRenewProperty, Value.getString, hname, hnew, copyIntoProperty, copyFromValue_create, hv]

/-! ### What one instruction does -/

/-- The three ways `execute` can go: no unit handles the instruction and nothing
changes, the state's own handler runs, or a property's handler runs and the
property is written back. -/
theorem execute_cases (s : State) (op : Method) :
    ((s.execute op).2.1 = false ∧ (s.execute op).2.2 = s) ∨
      (∃ r s', op.uri = .state ∧ s.dispatch op.instr op.params = some (r, s') ∧
        s.execute op = (r, r.succeeded, s')) ∨
      ∃ name p r p', op.uri = .property name ∧ s.getPropertyObject name = some p ∧
        p.execute op.instr op.params = some (r, p') ∧
        s.execute op = (r, r.succeeded, s.setProperty name p') := by
  obtain ⟨uri, instr, params⟩ := op
  cases uri with
  | state =>
    rcases hd : s.dispatch instr params with _ | ⟨r, s'⟩
    · exact .inl (by simp [execute, hd])
    · exact .inr (.inl ⟨r, s', rfl, rfl, by simp [execute, hd]⟩)
  | property name =>
    cases hp : s.getPropertyObject name with
    | none => exact .inl (by simp [execute, hp])
    | some p =>
      rcases he : p.execute instr params with _ | ⟨r, p'⟩
      · exact .inl (by simp [execute, hp, he])
      · exact .inr (.inr ⟨name, p, r, p', rfl, hp, he, by simp [execute, hp, he]⟩)

/-- The renew of a missing property with a value of another type than the class
it names is not recorded yet leaves the property in the state, so the state
rebuilt from the binlog lacks it and writes other bytes. -/
theorem renewProperty_binlog_diverges (s : State) (name : String) (k : PropKind) (v : Value)
    (hname : s.getPropertyObject name = none) (hroom : s.props.length < maxPropertyCount)
    (hv : v.type ≠ k.valueType) :
    (s.executeOnCanvas [renewPropertyInstruction name k v]).2 = [] ∧
      (s.executeOnCanvas [renewPropertyInstruction name k v]).1 = s.setProperty name k.create ∧
      (s.applyChangesOfBinlog (s.executeOnCanvas [renewPropertyInstruction name k v]).2).doWrite ≠
        (s.executeOnCanvas [renewPropertyInstruction name k v]).1.doWrite := by
  have hexec : s.execute (renewPropertyInstruction name k v) =
      (.error .fail, false, s.setProperty name k.create) := by
    simp [execute, renewPropertyInstruction, dispatch, doRenewProperty_illTyped hname hroom hv,
      Res.succeeded]
  have hrun : s.executeOnCanvas [renewPropertyInstruction name k v] =
      (s.setProperty name k.create, []) := by
    simp [executeOnCanvas, Binlog.runRecorded, Binlog.record, step, hexec]
  refine ⟨by rw [hrun], by rw [hrun], ?_⟩
  rw [hrun]
  -- the replayed state is `s` itself, which has one property fewer
  intro hw
  have hlen := congrArg List.length hw
  simp only [applyChangesOfBinlog, Binlog.replay_nil, length_doWrite,
    length_setProperty_of_none _ hname] at hlen
  omega

theorem renewProperty_binlog_diverges_token :
    let s : State := ⟨"A", 0, [], List.Pairwise.nil⟩
    s.getPropertyObject "p" = none ∧ s.props.length < maxPropertyCount ∧
      (Value.string "x").type ≠ PropKind.token.valueType ∧
      (s.executeOnCanvas [renewPropertyInstruction "p" .token (.string "x")]).2 = [] ∧
      (s.executeOnCanvas [renewPropertyInstruction "p" .token (.string "x")]).1 =
        s.setProperty "p" PropKind.token.create ∧
      (s.applyChangesOfBinlog
          (s.executeOnCanvas [renewPropertyInstruction "p" .token (.string "x")]).2).doWrite ≠
        (s.executeOnCanvas [renewPropertyInstruction "p" .token (.string "x")]).1.doWrite := by
  have hname : (⟨"A", 0, [], List.Pairwise.nil⟩ : State).getPropertyObject "p" = none := rfl
  have hroom : (⟨"A", 0, [], List.Pairwise.nil⟩ : State).props.length < maxPropertyCount := by
    decide
  have hv : (Value.string "x").type ≠ PropKind.token.valueType := by decide
  exact ⟨hname, hroom, hv, renewProperty_binlog_diverges _ "p" .token (.string "x") hname hroom hv⟩

/-! ### Values keep the type of their class -/

/-- Every property of the state holds a value of its class's type. -/
def WellTyped (s : State) : Prop := ∀ e ∈ s.props, e.2.WellTyped

theorem WellTyped.setProperty {s : State} (hs : s.WellTyped) (name : String) {p : Property}
    (hp : p.WellTyped) : (s.setProperty name p).WellTyped := by
  intro e he
  rcases mem_upsert_const he with he | rfl
  · exact hs e he
  · exact hp

theorem WellTyped.removeProperty {s : State} (hs : s.WellTyped) (name : String) :
    (s.removeProperty name).WellTyped :=
  fun e he => hs e (mem_of_mem_eraseKey he)

theorem WellTyped.getPropertyObject {s : State} (hs : s.WellTyped) {name : String}
    {p : Property} (h : s.getPropertyObject name = some p) : p.WellTyped :=
  hs (name, p) (mem_of_lookup_eq_some h)

theorem WellTyped.copyIntoProperty {s : State} (hs : s.WellTyped) {name : String}
    {p : Property} (hp : p.WellTyped) (v : Value) :
    (s.copyIntoProperty name p v).2.WellTyped := by
  rcases copyIntoProperty_cases s name p v with ⟨-, he⟩ | ⟨p', hc, he⟩
  · rw [he]
    exact hs
  · rw [he]
    obtain ⟨rfl, -⟩ := Property.copyFromValue_eq_some hc
    exact hs.setProperty name ((Property.type_of_copyFromValue hp hc).trans hp)

theorem WellTyped.doNewProperty {s : State} (hs : s.WellTyped) (params : List Value) :
    (s.doNewProperty params).2.WellTyped := by
  rcases doNewProperty_cases s params with ⟨e, he⟩ | ⟨k, -, -, -, he⟩
  · rw [he]
    exact hs
  · rw [he]
    exact hs.setProperty _ rfl

theorem WellTyped.doResetProperty {s : State} (hs : s.WellTyped) (params : List Value) :
    (s.doResetProperty params).2.WellTyped := by
  unfold State.doResetProperty
  dsimp only
  split_ifs
  · exact hs
  · split
    · exact hs
    · next hp => exact hs.copyIntoProperty (hs.getPropertyObject hp) _

theorem WellTyped.doRenewProperty {s : State} (hs : s.WellTyped) (params : List Value) :
    (s.doRenewProperty params).2.WellTyped := by
  unfold State.doRenewProperty
  dsimp only
  split_ifs
  · exact hs
  · split
    · next hp => exact hs.copyIntoProperty (hs.getPropertyObject hp) _
    · -- a missing property: what do_new_property left, then the copy
      rcases doNewProperty_cases s params with ⟨e, he⟩ | ⟨k, -, -, -, he⟩
      · rw [he]
        exact hs
      · rw [he]
        dsimp only
        rw [getPropertyObject_setProperty_self]
        have hk : k.create.WellTyped := rfl
        exact (hs.setProperty _ hk).copyIntoProperty hk _

theorem WellTyped.doDelProperty {s : State} (hs : s.WellTyped) (params : List Value) :
    (s.doDelProperty params).2.WellTyped := by
  unfold State.doDelProperty
  dsimp only
  split_ifs
  · exact hs
  · exact hs.removeProperty _
  · exact hs

theorem WellTyped.dispatch {s s' : State} (hs : s.WellTyped) {instr : Instruction}
    {params : List Value} {r : Res} (h : s.dispatch instr params = some (r, s')) :
    s'.WellTyped := by
  rcases instr with m | m
  · cases m <;> cases h
  · cases m <;> simp only [State.dispatch, Option.some.injEq, reduceCtorEq] at h
    · rw [show s' = (s.doNewProperty params).2 by rw [h]]
      exact hs.doNewProperty params
    · rw [show s' = (s.doResetProperty params).2 by rw [h]]
      exact hs.doResetProperty params
    · rw [show s' = (s.doRenewProperty params).2 by rw [h]]
      exact hs.doRenewProperty params
    · rw [show s' = (s.doDelProperty params).2 by rw [h]]
      exact hs.doDelProperty params

/-- One instruction keeps every property's value of its class's type. -/
theorem WellTyped.step {s : State} (hs : s.WellTyped) (op : Method) : (s.step op).1.WellTyped := by
  simp only [State.step]
  rcases execute_cases s op with ⟨-, he⟩ | ⟨r, s', -, hd, he⟩ | ⟨name, p, r, p', -, hp, hpe, he⟩
  · rw [he]
    exact hs
  · rw [he]
    exact hs.dispatch hd
  · rw [he]
    exact hs.setProperty name (Property.execute_wellTyped (hs.getPropertyObject hp) hpe)

end State

end Vledger

end TopChain

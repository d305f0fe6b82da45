import TopChain.Vledger.Property
import TopChain.Lib.Binlog

/-!
# The block state, its instructions and its binlog

`xvbstate_t` is an execution group whose children are the account's properties,
kept in a `std::map` by name.  An instruction is routed by its URI to the state
or to one property and run by that unit's handler; the unit records the
instruction on the canvas it was given when the handler succeeded.  The canvas's
records are the binlog, and `apply_changes_of_binlog` executes them on a copy of
the state with no canvas.  This module models the state's own handlers
(`do_new_property`, `do_reset_property`, `do_renew_property`,
`do_del_property`), the routing of `xvexegroup_t::execute`, `do_write`, and the
record and replay of the binlog through `Binlog`.

An instruction's URI is the state's own or the state's followed by `/` and a
property name; property names are taken to hold no `/`, so that the prefix
routing of `xvexegroup_t::execute` is a lookup of the name.  Encoding the canvas
and decoding the binlog are taken to give back the recorded instructions, for
either compile option.

## Main definitions

* `State` — account, height and properties, the map in key order as a field.
* `State.doNewProperty`, `State.doResetProperty`, `State.doRenewProperty`,
  `State.doDelProperty` — the state's handlers.
* `State.execute` — routing, handler, and whether the instruction is recorded.
* `State.executeOnCanvas`, `State.applyChangesOfBinlog` — a run with a canvas,
  and the replay of its records.
* `State.doWrite` — the fields `do_write` puts on the stream.
-/

namespace TopChain

namespace Vledger

/-- `enum_max_property_count`: at most this many properties per account. -/
def maxPropertyCount : ℕ := 256

/-- `xvbstate_t`: the account and height it is named by, and its properties by
name (`m_child_units`, a `std::map`, hence in increasing order of name). -/
@[ext]
structure State where
  account : String
  height : UInt64
  props : List (String × Property)
  sorted : props.Pairwise fun a b => a.1 < b.1
  deriving DecidableEq

namespace State

/-- `get_property_object`. -/
def getPropertyObject (s : State) (name : String) : Option Property := s.props.lookup name

/-- `add_child_unit` of a property under its name, which is also how a handler's
change to a property is seen by the state. -/
def setProperty (s : State) (name : String) (p : Property) : State where
  account := s.account
  height := s.height
  props := upsert (fun _ => p) s.props name
  sorted := pairwise_upsert _ _ s.sorted

/-- `remove_child_unit`. -/
def removeProperty (s : State) (name : String) : State where
  account := s.account
  height := s.height
  props := eraseKey s.props name
  sorted := s.sorted.sublist List.eraseP_sublist

/-- The class `xcontext_t::create_xobject` builds for a type parameter. -/
def createXobject : Value → Option PropKind
  | .objType k => some k
  | _ => none

/-- `do_new_property`: parameters type and name. -/
def doNewProperty (s : State) (params : List Value) : Res × State :=
  if params.length < 2 then (.error .invalidParamCount, s)
  else
    let name := (params.getD 1 .null).getString
    if (s.getPropertyObject name).isSome then (.error .exist, s)
    else if maxPropertyCount ≤ s.props.length then (.error .overLimit, s)
    else
      match createXobject (params.getD 0 .null) with
      | some k => (.successful, s.setProperty name k.create)
      | none => (.error .notFound, s)

/-- The `copy_from_value` that `do_reset_property` and `do_renew_property` end with. -/
def copyIntoProperty (s : State) (name : String) (p : Property) (v : Value) : Res × State :=
  match p.copyFromValue v with
  | some p' => (.successful, s.setProperty name p')
  | none => (.error .fail, s)

/-- `do_reset_property`: parameters name and value. -/
def doResetProperty (s : State) (params : List Value) : Res × State :=
  if params.length ≠ 2 then (.error .invalidParamCount, s)
  else
    let name := (params.getD 0 .null).getString
    match s.getPropertyObject name with
    | none => (.error .notFound, s)
    | some p => s.copyIntoProperty name p (params.getD 1 .null)

/-- `do_renew_property`: parameters type, name and value.  A missing property is
created first, by `do_new_property` on the same parameters, and the copy of the
value comes after. -/
def doRenewProperty (s : State) (params : List Value) : Res × State :=
  if params.length ≠ 3 then (.error .invalidParamCount, s)
  else
    let name := (params.getD 1 .null).getString
    match s.getPropertyObject name with
    | some p => s.copyIntoProperty name p (params.getD 2 .null)
    | none =>
      match s.doNewProperty params with
      | (.successful, s') =>
        match s'.getPropertyObject name with
        | some p => s'.copyIntoProperty name p (params.getD 2 .null)
        | none => (.error .fail, s')
      | r => r

/-- `do_del_property`: parameter name. -/
def doDelProperty (s : State) (params : List Value) : Res × State :=
  if params.length ≠ 1 then (.error .invalidParamCount, s)
  else
    let name := (params.getD 0 .null).getString
    if (s.getPropertyObject name).isSome then (.successful, s.removeProperty name)
    else (.error .fail, s)

/-- The state's method table: its handler for an instruction, if it registers one. -/
def dispatch (s : State) : Instruction → List Value → Option (Res × State)
  | .state .newProperty, params => some (s.doNewProperty params)
  | .state .resetProperty, params => some (s.doResetProperty params)
  | .state .renewProperty, params => some (s.doRenewProperty params)
  | .state .delProperty, params => some (s.doDelProperty params)
  | _, _ => none

/-- `xvexegroup_t::execute` on a block state, with the `xvexeunit_t::execute` of
the unit the URI names: the result, whether that unit records the instruction on
its canvas, and the new state.  Only a handler that succeeded has its
instruction recorded; an instruction no unit handles ends in `not_impl`, since a
block state has no parent. -/
def execute (s : State) (op : Method) : Res × Bool × State :=
  match op.uri with
  | .state =>
    match s.dispatch op.instr op.params with
    | some (r, s') => (r, r.succeeded, s')
    | none => (notImpl, false, s)
  | .property name =>
    match s.getPropertyObject name with
    | some p =>
      match p.execute op.instr op.params with
      | some (r, p') => (r, r.succeeded, s.setProperty name p')
      | none => (notImpl, false, s)
    | none => (notImpl, false, s)

/-- One instruction as the binlog sees it: the new state, and whether the
instruction was recorded. -/
def step (s : State) (op : Method) : State × Bool :=
  ((s.execute op).2.2, (s.execute op).2.1)

/-- Instructions executed one after another with a fresh canvas: the final state
and the canvas's records. -/
def executeOnCanvas (s : State) (ops : List Method) : State × List Method :=
  Binlog.runRecorded step s ops

/-- `apply_changes_of_binlog`: the decoded records executed with no canvas. -/
def applyChangesOfBinlog (s : State) (records : List Method) : State :=
  Binlog.replay step s records

/-- `renew_property_instruction`. -/
def renewPropertyInstruction (name : String) (k : PropKind) (v : Value) : Method :=
  ⟨.state, .state .renewProperty, [.objType k, .string name, v]⟩

/-- The fields `do_write` puts on the stream, in order.  The serialisation of each
field is xbase's and taken to be injective, so two states write the same bytes
exactly when they write the same fields. -/
inductive Field where
  | height (h : UInt64)
  | account (a : String)
  | count (n : UInt16)
  | property (kind : PropKind) (name : String) (value : Value)
  deriving DecidableEq, Repr

/-- `xvbstate_t::do_write`: the height and account, then (`xvexegroup_t::do_write`)
the number of properties as a `uint16_t` and each property in name order. -/
def doWrite (s : State) : List Field :=
  .height s.height :: .account s.account :: .count s.props.length.toUInt16 ::
    s.props.map fun e => .property e.2.kind e.1 e.2.value

end State

end Vledger

end TopChain

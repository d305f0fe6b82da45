import TopChain.Lib.SortedMap

/-!
# Properties of a block state and the instructions they execute

An account's state holds named properties (`xvproperty_t` and its subclasses),
each one value.  A property is an execution unit: an instruction sent to it is
looked up in its method table by class and method id and run by the matching
`do_*` handler, which returns a result value.  This module models the values,
the property classes with their empty values and method tables, and every
handler, after `xvproperty.cpp` and `xvproperty.h`.

The maps and the deque are the `std::string` instantiations of `xmapvar_t` and
`xdequevar_t`.  A `std::map` is an association list in key order, updated with
`upsert` and `eraseKey`.  A handler's own re-check of the class and id it was
registered under always passes after the table lookup and is left out.

## Main definitions

* `Value`, `Value.type` — `xvalue_t`, for the types the handlers read.
* `PropKind`, `PropKind.emptyValue` — the property classes and `get_empty_value`.
* `Instruction`, `Method` — a method-table key, and an `xvmethod_t`.
* `Res`, `Res.succeeded` — a handler's result, and the test `xvexeunit_t::execute`
  records an instruction by.
* `Property.copyFromValue` — the type check every reset goes through.
* `Property.execute` — the method table: the handler an instruction runs, if any.

## Main results

* `Property.execute_of_not_succeeded` — a handler that fails leaves its property unchanged.
* `Property.execute_wellTyped` — every handler keeps a property's value of the
  type of its class.
-/

namespace TopChain

namespace Vledger

/-- The property classes `xcontext_t::create_xobject` builds for the object
types a new-property instruction can name. -/
inductive PropKind where
  | token     -- xtokenvar_t
  | nonce     -- xnoncevar_t
  | string    -- xstringvar_t
  | strDeque  -- xdequevar_t<std::string>
  | strMap    -- xmapvar_t<std::string>
  | hashmap   -- xhashmapvar_t
  deriving DecidableEq, Repr

/-- `xvalue_t`, for the value types the properties and their instructions carry. -/
inductive Value where
  | null
  | int32 (v : Int32)
  | token (v : Int64)
  | nonce (v : UInt64)
  | string (v : String)
  | strDeque (v : List String)
  | strMap (v : List (String × String))
  | hashmap (v : List (String × List (String × String)))
  /-- The object type code a new- or renew-property instruction carries, named
  by the class it makes `create_xobject` build. -/
  | objType (k : PropKind)
  /-- The `vmethod` a withdrawal carries: `query_token` on the same property. -/
  | balanceQuery
  deriving DecidableEq, Repr

/-- The type tags of `xvalue_t::get_type`. -/
inductive ValueType where
  | null | int32 | token | nonce | string | strDeque | strMap | hashmap | vmethod
  deriving DecidableEq, Repr

/-- `xvalue_t::get_type`. -/
def Value.type : Value → ValueType
  | .null => .null
  | .int32 _ => .int32
  | .token _ => .token
  | .nonce _ => .nonce
  | .string _ => .string
  | .strDeque _ => .strDeque
  | .strMap _ => .strMap
  | .hashmap _ => .hashmap
  | .objType _ => .int32
  | .balanceQuery => .vmethod

/-- `xvalue_t::get_string`; a value of another type reads as the empty string. -/
def Value.getString : Value → String
  | .string v => v
  | _ => ""

/-- `xvalue_t::get_token`; a value of another type reads as `0`. -/
def Value.getToken : Value → Int64
  | .token v => v
  | _ => 0

/-- `xvalue_t::get_nonce`; a value of another type reads as `0`. -/
def Value.getNonce : Value → UInt64
  | .nonce v => v
  | _ => 0

/-- `get_empty_value` of each class, which is also the value its default
constructor starts with. -/
def PropKind.emptyValue : PropKind → Value
  | .token => .token 0
  | .nonce => .nonce 0
  | .string => .string ""
  | .strDeque => .strDeque []
  | .strMap => .strMap []
  | .hashmap => .hashmap []

/-- The type of the values a class holds. -/
def PropKind.valueType (k : PropKind) : ValueType := k.emptyValue.type

/-- No class holds null values. -/
theorem PropKind.valueType_ne_null (k : PropKind) : k.valueType ≠ .null := by
  cases k <;> decide

/-- The error codes the handlers return. -/
inductive ErrorCode where
  | invalidParamCount | invalidParamType | badParam | exist | overLimit | notFound | fail
  | badVproperty | badVfunction
  deriving DecidableEq, Repr

/-- What a handler returns: `xvalue_t(enum_xcode_successful)`, a plain value, or
an error value. -/
inductive Res where
  | successful
  | value (v : Value)
  | error (e : ErrorCode)
  deriving DecidableEq, Repr

/-- The test `xvexeunit_t::execute` applies to a handler's result before it
records the instruction: not an error, or the error code `successful`. -/
def Res.succeeded : Res → Bool
  | .error _ => false
  | _ => true

/-- `not_impl`: the empty value, returned when no unit has a handler. -/
def notImpl : Res := .value .null

/-- Method ids of `enum_xvinstruct_class_core_function` that properties register. -/
inductive CoreMethod where
  | cloneValue | resetValue | clearValue
  deriving DecidableEq, Repr

/-- Method ids of `enum_xvinstruct_class_state_function` that states and
properties register. -/
inductive StateMethod where
  | newProperty | resetProperty | renewProperty | delProperty
  | nonceAlloc | queryToken | depositToken | withdrawToken
  | queuePushFront | queuePopFront | queuePushBack | queuePopBack | queueUpdate
  | mapInsert | mapErase | hashmapInsert | hashmapErase
  deriving DecidableEq, Repr

/-- An instruction's class and method id, the key of a unit's method table. -/
inductive Instruction where
  | core (m : CoreMethod)
  | state (m : StateMethod)
  deriving DecidableEq, Repr

/-- The unit an instruction's URI names: the state, or its property of that name. -/
inductive Target where
  | state
  | property (name : String)
  deriving DecidableEq, Repr

/-- `xvmethod_t`: the target URI, the instruction and its parameters. -/
structure Method where
  uri : Target
  instr : Instruction
  params : List Value
  deriving DecidableEq, Repr

/-- An `xvproperty_t`: its class and its value (its name is its key in the state). -/
structure Property where
  kind : PropKind
  value : Value
  deriving DecidableEq, Repr

/-- A freshly created property of class `k`. -/
def PropKind.create (k : PropKind) : Property := ⟨k, k.emptyValue⟩

namespace Property

/-- `copy_from_value`: the new value must have the type of the current one,
unless the current one is null. -/
def copyFromValue (p : Property) (v : Value) : Option Property :=
  if v.type ≠ p.value.type ∧ p.value.type ≠ .null then none else some { p with value := v }

/-- `move_from_value`, with the same check as `copy_from_value`. -/
def moveFromValue (p : Property) (v : Value) : Option Property := p.copyFromValue v

/-- `do_clear_value`: back to the class's empty value. -/
def doClearValue (p : Property) (params : List Value) : Res × Property :=
  if params.length ≠ 0 then (.error .invalidParamCount, p)
  else (.successful, { p with value := p.kind.emptyValue })

/-- `do_reset_value`, whose type check is the one of `copy_from_value`. -/
def doResetValue (p : Property) (params : List Value) : Res × Property :=
  if params.length ≠ 1 then (.error .invalidParamCount, p)
  else
    match p.copyFromValue (params.getD 0 .null) with
    | some p' => (.successful, p')
    | none => (.error .invalidParamType, p)

/-- `do_clone_value`: the value is replaced by a deep copy, with the same content. -/
def doCloneValue (p : Property) (params : List Value) : Res × Property :=
  if params.length ≠ 0 then (.error .invalidParamCount, p) else (.successful, p)

/-- `xtokenvar_t::get_balance`. -/
def getBalance (p : Property) : Int64 := p.value.getToken

/-- `xtokenvar_t::do_query`. -/
def doQuery (p : Property) : Res := .value (.token p.getBalance)

/-- `xtokenvar_t::do_deposit`; the result of `move_from_value` is not checked. -/
def doDeposit (p : Property) (params : List Value) : Res × Property :=
  if params.length ≠ 1 then (.error .invalidParamCount, p)
  else
    match params.getD 0 .null with
    | .token added =>
      let newBalance := p.value.getToken + added
      (.value (.token newBalance), (p.moveFromValue (.token newBalance)).getD p)
    | _ => (.error .invalidParamType, p)

/-- `xtokenvar_t::do_withdraw`.  The balance is read by executing the query the
instruction carries, so a replay reads the balance of the replayed property. -/
def doWithdraw (p : Property) (params : List Value) : Res × Property :=
  if params.length ≠ 2 then (.error .invalidParamCount, p)
  else
    match params.getD 0 .null, params.getD 1 .null with
    | .balanceQuery, .token ask =>
      if ask < 0 then (.error .badParam, p)
      else
        let newBalance := p.getBalance - ask
        (.value (.token newBalance), (p.moveFromValue (.token newBalance)).getD p)
    | _, _ => (.error .invalidParamType, p)

/-- `xnoncevar_t::do_alloc`: the next nonce. -/
def doAlloc (p : Property) : Res × Property :=
  let newNonce := p.value.getNonce + 1
  (.value (.nonce newNonce), (p.moveFromValue (.nonce newNonce)).getD p)

/-- The deque handlers that put one string in, at the end `put` chooses. -/
def doPush (put : String → List String → List String) (p : Property) (params : List Value) :
    Res × Property :=
  if params.length ≠ 1 then (.error .invalidParamCount, p)
  else
    match params.getD 0 .null with
    | .string x =>
      match p.value with
      | .strDeque q => (.successful, { p with value := .strDeque (put x q) })
      | _ => (.error .badVfunction, p)
    | _ => (.error .invalidParamType, p)

/-- `do_push_front`. -/
def doPushFront (p : Property) (params : List Value) : Res × Property :=
  doPush (fun x q => x :: q) p params

/-- `do_push_back`. -/
def doPushBack (p : Property) (params : List Value) : Res × Property :=
  doPush (fun x q => q ++ [x]) p params

/-- The deque handlers that take one string out, at the end `take` chooses
(popping an empty `std::deque` is undefined; it is read as no change). -/
def doPop (take : List String → List String) (p : Property) (params : List Value) :
    Res × Property :=
  if params.length ≠ 0 then (.error .invalidParamCount, p)
  else
    match p.value with
    | .strDeque q => (.successful, { p with value := .strDeque (take q) })
    | _ => (.error .badVfunction, p)

/-- `do_pop_front`. -/
def doPopFront (p : Property) (params : List Value) : Res × Property :=
  doPop List.tail p params

/-- `do_pop_back`. -/
def doPopBack (p : Property) (params : List Value) : Res × Property :=
  doPop List.dropLast p params

/-- `do_update`: overwrite the string at a position inside the deque. -/
def doUpdate (p : Property) (params : List Value) : Res × Property :=
  if params.length ≠ 2 then (.error .invalidParamCount, p)
  else
    match params.getD 0 .null with
    | .int32 pos =>
      if pos < 0 then (.error .badParam, p)
      else
        match params.getD 1 .null with
        | .string x =>
          match p.value with
          | .strDeque q =>
            if q.length ≤ pos.toNatClampNeg then (.error .badParam, p)
            else (.successful, { p with value := .strDeque (q.set pos.toNatClampNeg x) })
          | _ => (.error .badVfunction, p)
        | _ => (.error .invalidParamType, p)
    | _ => (.error .invalidParamType, p)

/-- `xmapvar_t::do_insert`: `map[key] = value`. -/
def doMapInsert (p : Property) (params : List Value) : Res × Property :=
  if params.length ≠ 2 then (.error .invalidParamCount, p)
  else
    match params.getD 0 .null, params.getD 1 .null with
    | .string k, .string v =>
      match p.value with
      | .strMap m => (.successful, { p with value := .strMap (upsert (fun _ => v) m k) })
      | _ => (.error .badVproperty, p)
    | _, _ => (.error .invalidParamType, p)

/-- `xmapvar_t::do_erase`, which succeeds whether or not the key is there. -/
def doMapErase (p : Property) (params : List Value) : Res × Property :=
  if params.length ≠ 1 then (.error .invalidParamCount, p)
  else
    match params.getD 0 .null with
    | .string k =>
      match p.value with
      | .strMap m => (.successful, { p with value := .strMap (eraseKey m k) })
      | _ => (.error .badVproperty, p)
    | _ => (.error .invalidParamType, p)

/-- `xhashmapvar_t::do_insert`: `map[key][field] = value`. -/
def doHashmapInsert (p : Property) (params : List Value) : Res × Property :=
  if params.length ≠ 3 then (.error .invalidParamCount, p)
  else
    match params.getD 0 .null, params.getD 1 .null, params.getD 2 .null with
    | .string k, .string f, .string v =>
      match p.value with
      | .hashmap m =>
        (.successful,
          { p with value := .hashmap (upsert (fun sub => upsert (fun _ => v) (sub.getD []) f) m k) })
      | _ => (.error .badVproperty, p)
    | _, _, _ => (.error .invalidParamType, p)

/-- The erase of `xhashmapvar_t::do_erase`: an empty field erases the whole key;
otherwise the field is erased, and the key with it once no field is left. -/
def hashmapErase (m : List (String × List (String × String))) (k f : String) :
    List (String × List (String × String)) :=
  match m.lookup k with
  | none => m
  | some sub =>
    if f.isEmpty then eraseKey m k
    else if (sub.lookup f).isSome then
      if (eraseKey sub f).isEmpty then eraseKey m k else upsert (fun _ => eraseKey sub f) m k
    else m

/-- `xhashmapvar_t::do_erase`, with one parameter (the key) or two (key and field). -/
def doHashmapErase (p : Property) (params : List Value) : Res × Property :=
  if params.length = 0 ∨ 2 < params.length then (.error .invalidParamCount, p)
  else
    match params.getD 0 .null with
    | .string k =>
      -- the field starts as the empty string and is read only from a second parameter
      match (if params.length = 2 then params.getD 1 .null else .string "") with
      | .string f =>
        match p.value with
        | .hashmap m => (.successful, { p with value := .hashmap (hashmapErase m k f) })
        | _ => (.error .badVproperty, p)
      | _ => (.error .invalidParamType, p)
    | _ => (.error .invalidParamType, p)

/-- The method table of a property's class, with the lookup of
`xvexeunit_t::execute`: the handler's result and the property after it, or
`none` when the class registers no handler for the instruction.  Every class
registers the core functions; the state functions are per class. -/
def execute (p : Property) (instr : Instruction) (params : List Value) :
    Option (Res × Property) :=
  match instr, p.kind with
  | .core .clearValue, _ => some (p.doClearValue params)
  | .core .resetValue, _ => some (p.doResetValue params)
  | .core .cloneValue, _ => some (p.doCloneValue params)
  | .state .queryToken, .token => some (p.doQuery, p)
  | .state .depositToken, .token => some (p.doDeposit params)
  | .state .withdrawToken, .token => some (p.doWithdraw params)
  | .state .nonceAlloc, .nonce => some p.doAlloc
  | .state .queuePushFront, .strDeque => some (p.doPushFront params)
  | .state .queuePopFront, .strDeque => some (p.doPopFront params)
  | .state .queuePushBack, .strDeque => some (p.doPushBack params)
  | .state .queuePopBack, .strDeque => some (p.doPopBack params)
  | .state .queueUpdate, .strDeque => some (p.doUpdate params)
  | .state .mapInsert, .strMap => some (p.doMapInsert params)
  | .state .mapErase, .strMap => some (p.doMapErase params)
  | .state .hashmapInsert, .hashmap => some (p.doHashmapInsert params)
  | .state .hashmapErase, .hashmap => some (p.doHashmapErase params)
  | _, _ => none

/-! ### What every handler keeps -/

/-- A property holds a value of its class's type. -/
def WellTyped (p : Property) : Prop := p.value.type = p.kind.valueType

/-- The contract every handler keeps: the class stays, a well-typed value stays
well typed, and a handler that fails leaves the property as it found it. -/
structure Keeps (p : Property) (r : Res × Property) : Prop where
  kind_eq : r.2.kind = p.kind
  wellTyped : p.WellTyped → r.2.WellTyped
  of_not_succeeded : r.1.succeeded = false → r.2 = p

/-- A successful copy stores the value, whose type is the current one unless
that was null. -/
theorem copyFromValue_eq_some {p p' : Property} {v : Value} (h : p.copyFromValue v = some p') :
    p' = { p with value := v } ∧ (p.value.type = .null ∨ v.type = p.value.type) := by
  unfold copyFromValue at h
  split_ifs at h with hv
  cases h
  refine ⟨rfl, ?_⟩
  by_cases hnull : p.value.type = .null
  · exact .inl hnull
  · exact .inr (by simpa [hnull] using hv)

/-- Into a well-typed property only a value of its type is copied. -/
theorem type_of_copyFromValue {p p' : Property} {v : Value} (hp : p.WellTyped)
    (h : p.copyFromValue v = some p') : v.type = p.value.type := by
  rcases (copyFromValue_eq_some h).2 with hnull | hv
  · exact absurd (hp ▸ hnull) p.kind.valueType_ne_null
  · exact hv

namespace Keeps

variable {p : Property}

/-- A handler that returns the property as it was keeps the contract. -/
theorem self (r : Res) : Keeps p (r, p) :=
  ⟨rfl, id, fun _ => rfl⟩

/-- A successful handler that stores a value of the current type keeps the contract. -/
theorem setValue {r : Res} {v : Value} (hr : r.succeeded = true)
    (hv : p.WellTyped → v.type = p.value.type) : Keeps p (r, { p with value := v }) where
  kind_eq := rfl
  wellTyped hp := (hv hp).trans hp
  of_not_succeeded h := absurd (hr.symm.trans h) (by decide)

/-- A successful handler that stores what `copy_from_value` gives keeps the contract. -/
theorem copy {r : Res} {v : Value} {p' : Property} (hr : r.succeeded = true)
    (h : p.copyFromValue v = some p') : Keeps p (r, p') := by
  obtain ⟨rfl, -⟩ := copyFromValue_eq_some h
  exact setValue hr fun hp => type_of_copyFromValue hp h

/-- A successful handler that moves a value in and ignores the outcome keeps the contract. -/
theorem move {r : Res} {v : Value} (hr : r.succeeded = true) :
    Keeps p (r, (p.moveFromValue v).getD p) := by
  cases h : p.moveFromValue v with
  | none => exact self r
  | some p' => exact copy hr h

end Keeps

theorem doClearValue_keeps (p : Property) (params : List Value) :
    Keeps p (p.doClearValue params) := by
  unfold doClearValue
  split_ifs
  · exact .self _
  · exact .setValue rfl fun hp => hp.symm

theorem doResetValue_keeps (p : Property) (params : List Value) :
    Keeps p (p.doResetValue params) := by
  unfold doResetValue
  split_ifs
  · exact .self _
  · split
    · exact .copy rfl ‹_›
    · exact .self _

theorem doCloneValue_keeps (p : Property) (params : List Value) :
    Keeps p (p.doCloneValue params) := by
  unfold doCloneValue
  split_ifs <;> exact .self _

theorem doDeposit_keeps (p : Property) (params : List Value) :
    Keeps p (p.doDeposit params) := by
  unfold doDeposit
  split_ifs
  · exact .self _
  · split
    · exact .move rfl
    · exact .self _

theorem doWithdraw_keeps (p : Property) (params : List Value) :
    Keeps p (p.doWithdraw params) := by
  unfold doWithdraw
  split_ifs
  · exact .self _
  · split
    · split_ifs
      · exact .self _
      · exact .move rfl
    · exact .self _

theorem doAlloc_keeps (p : Property) : Keeps p p.doAlloc :=
  .move rfl

theorem doPush_keeps (put : String → List String → List String) (p : Property)
    (params : List Value) : Keeps p (doPush put p params) := by
  unfold doPush
  split_ifs
  · exact .self _
  · split
    · split
      · next hq => exact .setValue rfl fun _ => by rw [hq]; rfl
      · exact .self _
    · exact .self _

theorem doPop_keeps (take : List String → List String) (p : Property) (params : List Value) :
    Keeps p (doPop take p params) := by
  unfold doPop
  split_ifs
  · exact .self _
  · split
    · next hq => exact .setValue rfl fun _ => by rw [hq]; rfl
    · exact .self _

theorem doUpdate_keeps (p : Property) (params : List Value) :
    Keeps p (p.doUpdate params) := by
  unfold doUpdate
  split_ifs
  · exact .self _
  · split
    · split_ifs
      · exact .self _
      · split
        · split
          · next hq =>
            split_ifs
            · exact .self _
            · exact .setValue rfl fun _ => by rw [hq]; rfl
          · exact .self _
        · exact .self _
    · exact .self _

theorem doMapInsert_keeps (p : Property) (params : List Value) :
    Keeps p (p.doMapInsert params) := by
  unfold doMapInsert
  split_ifs
  · exact .self _
  · split
    · split
      · next hm => exact .setValue rfl fun _ => by rw [hm]; rfl
      · exact .self _
    · exact .self _

theorem doMapErase_keeps (p : Property) (params : List Value) :
    Keeps p (p.doMapErase params) := by
  unfold doMapErase
  split_ifs
  · exact .self _
  · split
    · split
      · next hm => exact .setValue rfl fun _ => by rw [hm]; rfl
      · exact .self _
    · exact .self _

theorem doHashmapInsert_keeps (p : Property) (params : List Value) :
    Keeps p (p.doHashmapInsert params) := by
  unfold doHashmapInsert
  split_ifs
  · exact .self _
  · split
    · split
      · next hm => exact .setValue rfl fun _ => by rw [hm]; rfl
      · exact .self _
    · exact .self _

theorem doHashmapErase_keeps (p : Property) (params : List Value) :
    Keeps p (p.doHashmapErase params) := by
  unfold doHashmapErase
  split
  · exact .self _
  · split
    · split
      · split
        · next hm => exact .setValue rfl fun _ => by rw [hm]; rfl
        · exact .self _
      · exact .self _
    · exact .self _

/-- Every handler of every class keeps the contract. -/
theorem execute_keeps {p : Property} {instr : Instruction} {params : List Value}
    {r : Res × Property} (h : p.execute instr params = some r) : Keeps p r := by
  unfold execute at h
  split at h <;> cases h
  · exact doClearValue_keeps p params
  · exact doResetValue_keeps p params
  · exact doCloneValue_keeps p params
  · exact .self _
  · exact doDeposit_keeps p params
  · exact doWithdraw_keeps p params
  · exact doAlloc_keeps p
  · exact doPush_keeps _ p params
  · exact doPop_keeps _ p params
  · exact doPush_keeps _ p params
  · exact doPop_keeps _ p params
  · exact doUpdate_keeps p params
  · exact doMapInsert_keeps p params
  · exact doMapErase_keeps p params
  · exact doHashmapInsert_keeps p params
  · exact doHashmapErase_keeps p params

/-- Every handler keeps a property's value of the type of its class. -/
theorem execute_wellTyped {p p' : Property} {instr : Instruction} {params : List Value}
    {r : Res} (hp : p.WellTyped) (h : p.execute instr params = some (r, p')) : p'.WellTyped :=
  (execute_keeps h).wellTyped hp

end Property

end Vledger

end TopChain

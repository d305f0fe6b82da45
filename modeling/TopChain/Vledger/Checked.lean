import TopChain.Vledger.Property

/-!
# The handlers with the containers' preconditions

`Property.execute` reads the deque handlers' container calls as total functions:
`do_pop_front` and `do_pop_back` call `std::deque::pop_front` and `pop_back`,
whose behaviour on an empty deque is undefined, and `Property.doPop` reads that as
no change.  This module embeds the handlers where the container operations
return `Option`: `pop_front` and `pop_back` have no result on an empty deque and
the positional write `at(pos)` none past the end.  A handler then either returns
`some` result, as `execute` computes it (`executeChecked_some`), or reaches the
`None` branch of a container operation.

The map handlers (`operator[]`, `erase` by key) and the token and nonce handlers
use only total operations, and `do_update` checks its position against the size
before it writes.  The pops check nothing: an instruction popping an empty deque
reaches the `None` branch (`executeChecked_eq_none_iff`).

## Main definitions

* `popFront?`, `popBack?`, `setAt?` — the deque operations with their domains.
* `Property.executeChecked` — the method table in that embedding.

## Main results

* `Property.executeChecked_some` — where defined, the embedding is `execute`.
* `Property.executeChecked_eq_none_iff` — exactly the pops of an empty deque
  reach the `None` branch.
-/

namespace TopChain

namespace Vledger

/-- `std::deque::pop_front`, with no result on an empty deque. -/
def popFront? : List String → Option (List String)
  | [] => none
  | _ :: q => some q

/-- `std::deque::pop_back`, with no result on an empty deque. -/
def popBack? (q : List String) : Option (List String) :=
  if q = [] then none else some q.dropLast

/-- `at(pos) = x` on a deque, with no result past its end. -/
def setAt? (q : List String) (pos : ℕ) (x : String) : Option (List String) :=
  if pos < q.length then some (q.set pos x) else none

theorem popFront?_eq_some {q q' : List String} (h : popFront? q = some q') : q' = q.tail := by
  cases q with
  | nil => cases h
  | cons x q => exact (Option.some.inj h).symm

theorem popBack?_eq_some {q q' : List String} (h : popBack? q = some q') : q' = q.dropLast := by
  unfold popBack? at h
  split_ifs at h
  exact (Option.some.inj h).symm

theorem popFront?_eq_none {q : List String} : popFront? q = none ↔ q = [] := by
  cases q <;> simp [popFront?]

theorem popBack?_eq_none {q : List String} : popBack? q = none ↔ q = [] := by
  unfold popBack?
  split_ifs with hq <;> simp [hq]

namespace Property

/-- `do_pop_front` and `do_pop_back` with `take?` as the container's pop. -/
def doPopChecked (take? : List String → Option (List String)) (p : Property)
    (params : List Value) : Option (Res × Property) :=
  if params.length ≠ 0 then some (.error .invalidParamCount, p)
  else
    match p.value with
    | .strDeque q => (take? q).map fun q' => (.successful, { p with value := .strDeque q' })
    | _ => some (.error .badVfunction, p)

/-- `do_update` with the positional write `setAt?`, after its own position checks. -/
def doUpdateChecked (p : Property) (params : List Value) : Option (Res × Property) :=
  if params.length ≠ 2 then some (.error .invalidParamCount, p)
  else
    match params.getD 0 .null with
    | .int32 pos =>
      if pos < 0 then some (.error .badParam, p)
      else
        match params.getD 1 .null with
        | .string x =>
          match p.value with
          | .strDeque q =>
            if q.length ≤ pos.toNatClampNeg then some (.error .badParam, p)
            else (setAt? q pos.toNatClampNeg x).map fun q' =>
              (.successful, { p with value := .strDeque q' })
          | _ => some (.error .badVfunction, p)
        | _ => some (.error .invalidParamType, p)
    | _ => some (.error .invalidParamType, p)

/-- The method table in the embedding: `none` when the class has no handler,
`some none` when the handler reaches the `None` branch of a container operation.
The handlers other than the deque's pops and update call no partial operation. -/
def executeChecked (p : Property) (instr : Instruction) (params : List Value) :
    Option (Option (Res × Property)) :=
  match instr, p.kind with
  | .state .queuePopFront, .strDeque => some (p.doPopChecked popFront? params)
  | .state .queuePopBack, .strDeque => some (p.doPopChecked popBack? params)
  | .state .queueUpdate, .strDeque => some (p.doUpdateChecked params)
  | _, _ => (p.execute instr params).map some

/-- Where a pop has a result, the handler's is the one of `doPop`. -/
theorem doPopChecked_some {take? : List String → Option (List String)}
    {take : List String → List String} (ht : ∀ q q', take? q = some q' → q' = take q)
    {p : Property} {params : List Value} {r : Res × Property}
    (h : p.doPopChecked take? params = some r) : r = p.doPop take params := by
  unfold doPopChecked at h
  unfold doPop
  split_ifs at h ⊢
  · exact (Option.some.inj h).symm
  · -- both sides match on the property's value
    cases hv : p.value with
    | strDeque q =>
      rw [hv] at h
      obtain ⟨q', hq', rfl⟩ := Option.map_eq_some_iff.mp h
      rw [ht q q' hq']
    | _ =>
      rw [hv] at h
      exact (Option.some.inj h).symm

/-- The positional write of `do_update` never fails: the handler checked the
position first. -/
theorem doUpdateChecked_eq (p : Property) (params : List Value) :
    p.doUpdateChecked params = some (p.doUpdate params) := by
  unfold doUpdateChecked doUpdate
  split_ifs
  · rfl
  -- both sides read the same parameters and the same value: split them together
  · rcases params.getD 0 .null with _ | pos | _ | _ | _ | _ | _ | _ | _ | _ <;> simp only
    split_ifs
    · rfl
    · rcases params.getD 1 .null with _ | _ | _ | _ | x | _ | _ | _ | _ | _ <;> simp only
      rcases p.value with _ | _ | _ | _ | _ | q | _ | _ | _ | _ <;> simp only
      split_ifs with hlen
      · rfl
      · rw [setAt?, if_pos (by omega)]
        rfl

/-- Where the embedding has a result, it is the result of `execute`. -/
theorem executeChecked_some {p : Property} {instr : Instruction} {params : List Value}
    {r : Res × Property} (h : p.executeChecked instr params = some (some r)) :
    p.execute instr params = some r := by
  unfold executeChecked at h
  split at h
  · next hk =>
    simp only [execute, hk]
    exact congrArg some (doPopChecked_some (fun _ _ => popFront?_eq_some) (Option.some.inj h)).symm
  · next hk =>
    simp only [execute, hk]
    exact congrArg some (doPopChecked_some (fun _ _ => popBack?_eq_some) (Option.some.inj h)).symm
  · next hk =>
    rw [doUpdateChecked_eq] at h
    simp only [execute, hk]
    exact congrArg some (Option.some.inj (Option.some.inj h))
  · obtain ⟨r', hr', hrr⟩ := Option.map_eq_some_iff.mp h
    rw [hr', Option.some.inj hrr]

/-- `pop_front` on the deque `[a, b]` has a result in the embedding, and it is the one of
`execute`: the deque `[b]`. -/
theorem executeChecked_some_popFront :
    ({ kind := .strDeque, value := .strDeque ["a", "b"] } : Property).executeChecked (.state .queuePopFront) [] =
        some (some (.successful, ⟨.strDeque, .strDeque ["b"]⟩)) ∧
      ({ kind := .strDeque, value := .strDeque ["a", "b"] } : Property).execute (.state .queuePopFront) [] =
        some (.successful, ⟨.strDeque, .strDeque ["b"]⟩) := by
  have h : ({ kind := .strDeque, value := .strDeque ["a", "b"] } : Property).executeChecked
      (.state .queuePopFront) [] = some (some (.successful, ⟨.strDeque, .strDeque ["b"]⟩)) := by
    decide
  exact ⟨h, executeChecked_some h⟩

/-- A pop reaches the `None` branch exactly on an empty deque, once its parameter
count is checked. -/
theorem doPopChecked_eq_none {take? : List String → Option (List String)}
    (ht : ∀ q, take? q = none ↔ q = []) (p : Property) (params : List Value) :
    p.doPopChecked take? params = none ↔ params = [] ∧ p.value = .strDeque [] := by
  unfold doPopChecked
  split_ifs with hlen
  · simp only [false_iff, not_and]
    intro hp
    simp [hp] at hlen
  · have hp : params = [] := List.eq_nil_of_length_eq_zero (by simpa using hlen)
    split
    · next q hq => simp [hq, ht, hp]
    · next hq =>
      simp only [reduceCtorEq, false_iff, not_and]
      intro _ hv
      exact hq _ hv

/-- Exactly the pops of an empty deque, with no parameter, reach the `None` branch
of a container operation; every other instruction a class registers either fails
with an error or has a defined result. -/
theorem executeChecked_eq_none_iff (p : Property) (instr : Instruction) (params : List Value) :
    p.executeChecked instr params = some none ↔
      p.kind = .strDeque ∧ (instr = .state .queuePopFront ∨ instr = .state .queuePopBack) ∧
        params = [] ∧ p.value = .strDeque [] := by
  unfold executeChecked
  split
  · next hk =>
    rw [Option.some_inj, doPopChecked_eq_none (fun _ => popFront?_eq_none)]
    simp [hk]
  · next hk =>
    rw [Option.some_inj, doPopChecked_eq_none (fun _ => popBack?_eq_none)]
    simp [hk]
  · next hk =>
    simp [doUpdateChecked_eq, hk]
  · next hfront hback _ =>
    simp only [Option.map_eq_some_iff, reduceCtorEq, and_false, exists_false, false_iff, not_and]
    -- the pops of a deque were matched by the first two branches
    intro hk hinstr
    rcases hinstr with rfl | rfl
    · exact absurd hk (hfront rfl)
    · exact absurd hk (hback rfl)

/-- `do_pop_front` on a property holding the empty deque. -/
theorem executeChecked_popFront_empty :
    (PropKind.create .strDeque).executeChecked (.state .queuePopFront) [] = some none :=
  -- a new deque property is empty, and `pop_front` on an empty deque reads nothing
  (executeChecked_eq_none_iff _ _ _).mpr ⟨rfl, .inl rfl, rfl, rfl⟩

end Property

end Vledger

end TopChain

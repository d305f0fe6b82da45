import TopChain.Lib.CInt
import Mathlib.Data.List.Basic

/-!
# Token withdraw and deposit of `xtop_state_accessor`

`xtop_state_accessor::withdraw` takes an amount of a token out of a token property of
the account state (`xvbstate_t`) and hands it to the caller as an `xtoken_t`;
`deposit` puts a caller's `xtoken_t` back and clears it.  Both check the property's
type, the amount and the caller's permission, then find the property `<full name>_<symbol>`
(`deposit` creates it for a system property), and finally run `xtokenvar_t::withdraw`
or `xtokenvar_t::deposit`, which store the new balance only for a positive amount.

Balances are `vtoken_t`, a signed 64-bit integer, and amounts `uint64_t`; the
conversions between them are the code's casts.  The state is modelled by the
property objects the two functions read and write; the canvas that records the
executed instructions is not read by either and is left out.

The guard of `deposit`, `if (static_cast<vtoken_t>(amount.value()))`, tests the amount
for being non-zero where `withdraw` tests `<= 0`: every token of positive value is
rejected with `property_value_out_of_range` (`deposit_of_value_ne_zero`), so a token
withdrawn cannot be deposited back (`withdraw_deposit_rejected`).

## Main definitions

* `PropertyIdentifier`, `Token`, `BState` — the inputs and the state.
* `withdraw`, `deposit` — the two accessor functions.

## Main results

* `withdraw_of_le_balance` — a withdrawal of at most the balance succeeds.
* `withdraw_unchanged_of_error`, `deposit_unchanged_of_error` — a call that sets
  an error code leaves the state and the caller's token as they were.
* `deposit_of_value_ne_zero` — every non-zero token is rejected.
-/

namespace TopChain
namespace StateAccessor

/-- `xerrc_t`, the error codes the two functions set. -/
inductive Errc where
  | invalidPropertyType
  | propertyValueOutOfRange
  | propertyAccessDenied
  | tokenInsufficient
  | loadPropertyFailed
  | propertyNotExist
  deriving DecidableEq, Repr

/-- `xproperty_category_t`. -/
inductive PropertyCategory where
  | invalid
  | system
  | user
  deriving DecidableEq, Repr

/-- `category_character`: the prefix of a property's full name. -/
def categoryCharacter : PropertyCategory → Char
  | .system => '@'
  | .user => '#'
  | .invalid => '#'

/-- `xproperty_type_t`. -/
inductive PropertyType where
  | invalid | uint8 | uint16 | uint32 | uint64 | int8 | int16 | int32 | int64
  | token | nonce | srcCode | binCode | bytes | string | map | deque
  deriving DecidableEq, Repr

/-- `xproperty_identifier_t`: a name, a type and a category. -/
structure PropertyIdentifier where
  name : String
  type : PropertyType
  category : PropertyCategory
  deriving DecidableEq, Repr

/-- `full_name`: the category character followed by the name. -/
def PropertyIdentifier.fullName (id : PropertyIdentifier) : String :=
  (categoryCharacter id.category).toString ++ id.name

/-- `system_property`. -/
def systemProperty (id : PropertyIdentifier) : Bool := id.category == .system

/-- `token_property_name`: the state property holding `symbol` of a token property. -/
def tokenPropertyName (id : PropertyIdentifier) (symbol : String) : String :=
  id.fullName ++ "_" ++ symbol

/-- `write_permitted`, which grants every write. -/
def writePermitted (_id : PropertyIdentifier) : Bool := true

/-- `xtoken_t`: an amount of a symbol; a token with an empty symbol is invalid. -/
structure Token where
  value : UInt64
  symbol : String
  deriving DecidableEq, Repr

/-- `xtoken_t::clear`. -/
def Token.clear (_t : Token) : Token := ⟨0, ""⟩

/-! ### The account state -/

/-- A property object of the state: an `xtokenvar_t` with its balance, or a property
of another kind. -/
inductive Property where
  | token (balance : Int64)
  | other
  deriving DecidableEq, Repr

/-- `enum_max_property_count`: the most properties an account may have. -/
def maxPropertyCount : ℕ := 256

/-- The property objects of an `xvbstate_t`, by name. -/
structure BState where
  properties : List (String × Property)
  deriving DecidableEq, Repr

namespace BState

/-- `find_property`. -/
def findProperty (s : BState) (name : String) : Bool := (s.properties.lookup name).isSome

/-- `load_token_var`: the balance of a token property; `nullptr` for a missing
property or one of another kind. -/
def loadTokenVar (s : BState) (name : String) : Option Int64 :=
  match s.properties.lookup name with
  | some (.token balance) => some balance
  | _ => none

/-- Store a new balance in the token property `name`. -/
def setBalance (s : BState) (name : String) (balance : Int64) : BState :=
  ⟨s.properties.map fun p => if p.1 = name then (p.1, .token balance) else p⟩

/-- `new_token_var`: `do_new_property` refuses a name that exists and an account at
its property limit; otherwise a token property of balance `0` is added. -/
def newTokenVar (s : BState) (name : String) : BState × Option Int64 :=
  if s.findProperty name then (s, none)
  else if maxPropertyCount ≤ s.properties.length then (s, none)
  else (⟨s.properties ++ [(name, .token 0)]⟩, some 0)

/-- The family of `xtokenvar_t::deposit` and `xtokenvar_t::withdraw`: nothing for a
non-positive amount; otherwise the wrapped result of `op` is stored and returned. -/
def updateToken (op : Int64 → Int64 → Int64) (s : BState) (name : String)
    (balance amount : Int64) : BState × Int64 :=
  if amount ≤ 0 then (s, balance) else (s.setBalance name (op balance amount), op balance amount)

/-- `xtokenvar_t::deposit`. -/
def depositToken (s : BState) (name : String) (balance amount : Int64) : BState × Int64 :=
  updateToken (· + ·) s name balance amount

/-- `xtokenvar_t::withdraw`. -/
def withdrawToken (s : BState) (name : String) (balance amount : Int64) : BState × Int64 :=
  updateToken (· - ·) s name balance amount

theorem findProperty_of_loadTokenVar {s : BState} {name : String} {balance : Int64}
    (h : s.loadTokenVar name = some balance) : s.findProperty name = true := by
  rw [loadTokenVar] at h
  rw [findProperty]
  split at h
  · next hl => rw [hl]; rfl
  · cases h

/-- Storing a balance in a token property is read back by `load_token_var`. -/
theorem loadTokenVar_setBalance {s : BState} {name : String} {old : Int64}
    (h : s.loadTokenVar name = some old) (balance : Int64) :
    (s.setBalance name balance).loadTokenVar name = some balance := by
  obtain ⟨props⟩ := s
  simp only [loadTokenVar, setBalance] at h ⊢
  induction props with
  | nil => simp at h
  | cons p rest ih =>
    obtain ⟨k, v⟩ := p
    by_cases hk : k = name
    · subst hk
      simp
    · have hne : (name == k) = false := by simpa using Ne.symm hk
      simp only [List.lookup_cons, hne, List.map_cons, if_neg hk] at h ⊢
      exact ih h

/-- `xtokenvar_t::deposit` and `withdraw` leave the state alone for a
non-positive amount. -/
theorem updateToken_of_nonpos (op : Int64 → Int64 → Int64) (s : BState) (name : String)
    {balance amount : Int64} (h : amount ≤ 0) :
    s.updateToken op name balance amount = (s, balance) := by
  rw [updateToken, if_pos h]

theorem updateToken_of_pos (op : Int64 → Int64 → Int64) (s : BState) (name : String)
    {balance amount : Int64} (h : ¬ amount ≤ 0) :
    s.updateToken op name balance amount = (s.setBalance name (op balance amount), op balance amount) := by
  rw [updateToken, if_neg h]

/-- A failed `new_token_var` leaves the state as it was. -/
theorem newTokenVar_of_none {s : BState} {name : String} (h : (s.newTokenVar name).2 = none) :
    (s.newTokenVar name).1 = s := by
  rw [newTokenVar] at h ⊢
  split_ifs at h ⊢
  · rfl
  · rfl

end BState

/-! ### The accessor -/

/-- `xtop_state_accessor::withdraw`: the state after the call, the token returned
and the error code set. -/
def withdraw (s : BState) (id : PropertyIdentifier) (symbol : String) (amount : UInt64) :
    BState × Token × Option Errc :=
  if id.type ≠ .token then (s, ⟨0, ""⟩, some .invalidPropertyType)
  else if Int64.ofNat amount.toNat ≤ 0 then (s, ⟨0, ""⟩, some .propertyValueOutOfRange)
  else if !writePermitted id then (s, ⟨0, ""⟩, some .propertyAccessDenied)
  else
    let name := tokenPropertyName id symbol
    if !s.findProperty name then (s, ⟨0, symbol⟩, some .tokenInsufficient)
    else match s.loadTokenVar name with
      | none => (s, ⟨0, symbol⟩, some .loadPropertyFailed)
      | some balance =>
        if balance < 0 ∨ balance.toUInt64 < amount then (s, ⟨0, symbol⟩, some .tokenInsufficient)
        else ((s.withdrawToken name balance (Int64.ofNat amount.toNat)).1, ⟨amount, symbol⟩, none)

/-- The property `deposit` works on: loaded if it exists, created for a system
property (which may fail), and `none` for a missing user property. -/
def depositTarget (s : BState) (id : PropertyIdentifier) (name : String) :
    Option (BState × Option Int64) :=
  if !s.findProperty name then
    if systemProperty id then some (s.newTokenVar name) else none
  else some (s, s.loadTokenVar name)

/-- `xtop_state_accessor::deposit`: the state after the call, the caller's token
after the call and the error code set. -/
def deposit (s : BState) (id : PropertyIdentifier) (symbol : String) (amount : Token) :
    BState × Token × Option Errc :=
  if id.type ≠ .token then (s, amount, some .invalidPropertyType)
  else if Int64.ofNat amount.value.toNat ≠ 0 then (s, amount, some .propertyValueOutOfRange)
  else if !writePermitted id then (s, amount, some .propertyAccessDenied)
  else
    let name := tokenPropertyName id symbol
    match depositTarget s id name with
    | none => (s, amount, some .propertyNotExist)
    | some (s', none) => (s', amount, some .loadPropertyFailed)
    | some (s', some balance) =>
      let r := s'.depositToken name balance (Int64.ofNat amount.value.toNat)
      if r.2 < balance then (r.1, amount, some .propertyValueOutOfRange)
      else (r.1, amount.clear, none)

/-! ### Withdraw -/

/-- What `withdraw` can do: set an error code and return an empty token, or run
`xtokenvar_t::withdraw` on the balance it loaded and return a token of the amount. -/
theorem withdraw_cases (s : BState) (id : PropertyIdentifier) (symbol : String) (amount : UInt64) :
    (∃ sym e, withdraw s id symbol amount = (s, ⟨0, sym⟩, some e)) ∨
    (∃ balance, s.loadTokenVar (tokenPropertyName id symbol) = some balance ∧
      withdraw s id symbol amount =
        ((s.withdrawToken (tokenPropertyName id symbol) balance (Int64.ofNat amount.toNat)).1,
          ⟨amount, symbol⟩, none)) := by
  unfold withdraw
  dsimp only
  split_ifs
  any_goals exact .inl ⟨_, _, rfl⟩
  -- the property exists; split on what `load_token_var` finds
  rcases hload : s.loadTokenVar (tokenPropertyName id symbol) with _ | balance
  · exact .inl ⟨symbol, .loadPropertyFailed, rfl⟩
  · dsimp only
    split_ifs
    · exact .inl ⟨_, _, rfl⟩
    · exact .inr ⟨balance, rfl, rfl⟩

/-- A withdrawal of a positive amount, below `2 ^ 63`, of at most a non-negative
balance succeeds: the balance drops by the amount and the caller gets a token of
that amount. -/
theorem withdraw_of_le_balance {s : BState} {id : PropertyIdentifier} {symbol : String}
    {balance : Int64} {amount : UInt64} (hty : id.type = .token)
    (hb : s.loadTokenVar (tokenPropertyName id symbol) = some balance)
    (hpos : 0 < amount.toNat) (hlt : amount.toNat < 2 ^ 63) (hle : (amount.toNat : ℤ) ≤ balance.toInt) :
    withdraw s id symbol amount =
        (s.setBalance (tokenPropertyName id symbol) (balance - Int64.ofNat amount.toNat),
          ⟨amount, symbol⟩, none) ∧
      (balance - Int64.ofNat amount.toNat).toInt = balance.toInt - amount.toNat := by
  have hcast : (Int64.ofNat amount.toNat).toInt = amount.toNat := Int64.toInt_ofNat_of_lt hlt
  have hamt : ¬ Int64.ofNat amount.toNat ≤ 0 := by
    rw [Int64.le_iff_toInt_le, hcast, Int64.toInt_zero]
    omega
  have hnonneg : (0 : Int64) ≤ balance := by
    rw [Int64.le_iff_toInt_le, Int64.toInt_zero]
    omega
  have hneg : ¬ balance < 0 := by
    rw [Int64.lt_iff_toInt_lt, Int64.toInt_zero]
    omega
  have henough : ¬ balance.toUInt64 < amount := by
    rw [UInt64.lt_iff_toNat_lt, int64_toNat_toUInt64 hnonneg]
    omega
  refine ⟨?_, ?_⟩
  · rw [withdraw, if_neg (by rw [hty]; exact fun h => h rfl), if_neg hamt,
      if_neg (by simp [writePermitted])]
    simp [BState.findProperty_of_loadTokenVar hb, hb, hneg, henough,
      BState.withdrawToken, BState.updateToken_of_pos _ _ _ hamt]
  · have hlo := Int64.le_toInt balance
    have hhi := Int64.toInt_lt balance
    rw [Int64.toInt_sub, hcast]
    exact Int.bmod_eq_of_le (by omega) (by omega)

/-- `withdraw` sets an error code only with the state unchanged and an empty token
returned. -/
theorem withdraw_unchanged_of_error {s : BState} {id : PropertyIdentifier} {symbol : String}
    {amount : UInt64} {e : Errc} (h : (withdraw s id symbol amount).2.2 = some e) :
    (withdraw s id symbol amount).1 = s ∧ (withdraw s id symbol amount).2.1.value = 0 := by
  rcases withdraw_cases s id symbol amount with ⟨sym, e', heq⟩ | ⟨balance, -, heq⟩ <;>
    rw [heq] at h ⊢
  · exact ⟨rfl, rfl⟩
  · cases h

/-! ### Deposit -/

/-- The guard of `deposit` rejects every token of non-zero value, before anything
is read or written. -/
theorem deposit_of_value_ne_zero {s : BState} {id : PropertyIdentifier} {symbol : String}
    {amount : Token} (hty : id.type = .token) (hv : amount.value ≠ 0) :
    deposit s id symbol amount = (s, amount, some .propertyValueOutOfRange) := by
  have hcast : Int64.ofNat amount.value.toNat ≠ 0 :=
    int64_ofNat_ne_zero (UInt64.toNat_lt _) (fun h0 => hv (UInt64.toNat_inj.mp h0))
  rw [deposit, if_neg (by rw [hty]; exact fun h => h rfl), if_pos hcast]

/-- The property `deposit` falls back on keeps the state when it yields no token
variable. -/
theorem depositTarget_state {s s' : BState} {id : PropertyIdentifier} {name : String}
    (h : depositTarget s id name = some (s', none)) : s' = s := by
  rw [depositTarget] at h
  split_ifs at h
  · -- a created property: `new_token_var` failed and changed nothing
    obtain ⟨hs, hnone⟩ : (s.newTokenVar name).1 = s' ∧ (s.newTokenVar name).2 = none :=
      Prod.ext_iff.mp (Option.some.inj h)
    rw [← hs]
    exact BState.newTokenVar_of_none hnone
  · exact (Prod.ext_iff.mp (Option.some.inj h)).1.symm

/-- What `deposit` can do: set an error code and leave the state and the token as
they were, or succeed and clear the token.  The guard lets through only a zero
amount, for which `xtokenvar_t::deposit` changes nothing, so the overflow check
after it never fires. -/
theorem deposit_cases (s : BState) (id : PropertyIdentifier) (symbol : String) (amount : Token) :
    (∃ e, deposit s id symbol amount = (s, amount, some e)) ∨
    (∃ s', deposit s id symbol amount = (s', amount.clear, none)) := by
  unfold deposit
  dsimp only
  split_ifs with hty hv
  any_goals exact .inl ⟨_, rfl⟩
  rw [not_not] at hv
  rcases htarget : depositTarget s id (tokenPropertyName id symbol) with _ | ⟨s', _ | balance⟩
  · exact .inl ⟨_, rfl⟩
  · rw [depositTarget_state htarget]
    exact .inl ⟨_, rfl⟩
  · -- a zero amount: the balance is unchanged, so the overflow check is false
    dsimp only
    have hstay : ¬ balance < balance := by
      rw [Int64.lt_iff_toInt_lt]
      exact lt_irrefl _
    rw [BState.depositToken, hv, BState.updateToken_of_nonpos _ _ _ (by decide), if_neg hstay]
    exact .inr ⟨s', rfl⟩

/-- `deposit` sets an error code only with the state and the caller's token
unchanged. -/
theorem deposit_unchanged_of_error {s : BState} {id : PropertyIdentifier} {symbol : String}
    {amount : Token} {e : Errc} (h : (deposit s id symbol amount).2.2 = some e) :
    (deposit s id symbol amount).1 = s ∧ (deposit s id symbol amount).2.1 = amount := by
  rcases deposit_cases s id symbol amount with ⟨e', heq⟩ | ⟨s', heq⟩ <;> rw [heq] at h ⊢
  · exact ⟨rfl, rfl⟩
  · cases h

/-- Every successful withdrawal leaves the balance lowered by the amount, and the
token it returns cannot be deposited back: `deposit` rejects it and changes nothing. -/
theorem deposit_after_withdraw_rejected {s : BState} {id : PropertyIdentifier}
    {symbol : String} {balance : Int64} {amount : UInt64} (hty : id.type = .token)
    (hb : s.loadTokenVar (tokenPropertyName id symbol) = some balance)
    (hpos : 0 < amount.toNat) (hlt : amount.toNat < 2 ^ 63) (hle : (amount.toNat : ℤ) ≤ balance.toInt) :
    (withdraw s id symbol amount).2 = (⟨amount, symbol⟩, none) ∧
      (withdraw s id symbol amount).1.loadTokenVar (tokenPropertyName id symbol) =
        some (balance - Int64.ofNat amount.toNat) ∧
      deposit (withdraw s id symbol amount).1 id symbol (withdraw s id symbol amount).2.1 =
        ((withdraw s id symbol amount).1, ⟨amount, symbol⟩, some .propertyValueOutOfRange) := by
  obtain ⟨hw, -⟩ := withdraw_of_le_balance hty hb hpos hlt hle
  rw [hw]
  have hne : amount ≠ 0 := fun h0 => by
    rw [h0] at hpos
    exact absurd hpos (by decide)
  exact ⟨rfl, BState.loadTokenVar_setBalance hb _, deposit_of_value_ne_zero hty hne⟩

/-- The failing run: a token of one unit withdrawn from a balance of one cannot be
deposited back; `deposit` reports `property_value_out_of_range`, the balance stays
`0` and the caller keeps the token. -/
theorem withdraw_deposit_rejected :
    withdraw ⟨[("@balance_TOP", .token 1)]⟩ ⟨"balance", .token, .system⟩ "TOP" 1 =
        (⟨[("@balance_TOP", .token 0)]⟩, ⟨1, "TOP"⟩, none) ∧
      deposit ⟨[("@balance_TOP", .token 0)]⟩ ⟨"balance", .token, .system⟩ "TOP" ⟨1, "TOP"⟩ =
        (⟨[("@balance_TOP", .token 0)]⟩, ⟨1, "TOP"⟩, some .propertyValueOutOfRange) := by
  -- the withdrawal of `1` from a balance of `1` succeeds, and the deposit of its token fails
  obtain ⟨hw, -, hd⟩ := @deposit_after_withdraw_rejected ⟨[("@balance_TOP", .token 1)]⟩
    ⟨"balance", .token, .system⟩ "TOP" 1 1 rfl (by decide) (by decide) (by decide) (by decide)
  have hs : (withdraw ⟨[("@balance_TOP", .token 1)]⟩ ⟨"balance", .token, .system⟩ "TOP" 1).1 =
      ⟨[("@balance_TOP", .token 0)]⟩ := by decide
  rw [hs, hw] at hd
  exact ⟨Prod.ext hs hw, hd⟩

end StateAccessor
end TopChain

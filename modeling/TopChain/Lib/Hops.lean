import Mathlib.Data.Set.Defs
import Mathlib.Order.Basic

/-!
# Forwarding loops run on fuel

A call that either answers or hands the request to another object, which does
the same, is a loop over the objects: `step` says what one object does with the
request, and `runHops step fuel s` follows the hand-overs from `s` for at most
`fuel` calls.  The loop returns if some fuel gives it a result; it diverges if no
fuel does.

## Main definitions

* `Hop` — one call's outcome: hand over, or answer.
* `runHops` — the loop with fuel.

## Main results

* `runHops_add_of_eq_some` — more fuel keeps a result.
* `runHops_add_of_hops` — a chain of hand-overs spends its length of fuel.
* `runHops_eq_none_of_closed` — a set of objects that always hands over within
  itself never answers.
* `runHops_eq_none_of_shift` — a loop that reaches a diverging object diverges.
-/

namespace TopChain

variable {σ ρ : Type*}

/-- One call: hand the request to another object, or answer it. -/
inductive Hop (σ ρ : Type*)
  | next (s : σ)
  | done (r : ρ)
  deriving DecidableEq, Repr

/-- Follow the hand-overs from `s` for at most `fuel` calls; `none` when the fuel
runs out. -/
def runHops (step : σ → Hop σ ρ) : ℕ → σ → Option ρ
  | 0, _ => none
  | fuel + 1, s =>
    match step s with
    | .next t => runHops step fuel t
    | .done r => some r

variable {step : σ → Hop σ ρ}

@[simp] theorem runHops_zero (s : σ) : runHops step 0 s = none := rfl

theorem runHops_succ_of_next {s t : σ} (h : step s = .next t) (fuel : ℕ) :
    runHops step (fuel + 1) s = runHops step fuel t := by
  simp only [runHops, h]

theorem runHops_succ_of_done {s : σ} {r : ρ} (h : step s = .done r) (fuel : ℕ) :
    runHops step (fuel + 1) s = some r := by
  simp only [runHops, h]

/-- More fuel keeps a result: the loop stops at its first answer. -/
theorem runHops_add_of_eq_some {fuel : ℕ} {s : σ} {r : ρ} (h : runHops step fuel s = some r)
    (m : ℕ) : runHops step (fuel + m) s = some r := by
  induction fuel generalizing s with
  | zero => simp at h
  | succ fuel ih =>
    rw [Nat.add_right_comm]
    cases hs : step s with
    | next t =>
      rw [runHops_succ_of_next hs] at h ⊢
      exact ih h
    | done r' =>
      rw [runHops_succ_of_done hs] at h ⊢
      exact h

/-- A chain of `n` hand-overs from `s` to `t` spends `n` calls of fuel. -/
def Hops (step : σ → Hop σ ρ) (s t : σ) (n : ℕ) : Prop :=
  ∀ k, runHops step (n + k) s = runHops step k t

theorem hops_refl (s : σ) : Hops step s s 0 := by
  intro k
  rw [Nat.zero_add]

theorem Hops.tail {s t u : σ} {n : ℕ} (h : Hops step s t n) (ht : step t = .next u) :
    Hops step s u (n + 1) := by
  intro k
  rw [Nat.add_assoc, Nat.add_comm 1 k, h (k + 1), runHops_succ_of_next ht]

/-- The fuel a chain spends comes off the loop. -/
theorem runHops_add_of_hops {s t : σ} {n : ℕ} (h : Hops step s t n) (k : ℕ) :
    runHops step (n + k) s = runHops step k t := h k

/-- A set of objects each of which hands the request to another of them never
answers: the loop is caught in it for any fuel. -/
theorem runHops_eq_none_of_closed (S : Set σ) (hS : ∀ s ∈ S, ∃ t ∈ S, step s = .next t) :
    ∀ fuel, ∀ s ∈ S, runHops step fuel s = none := by
  intro fuel
  induction fuel with
  | zero => exact fun s _ => rfl
  | succ fuel ih =>
    intro s hs
    obtain ⟨t, ht, hst⟩ := hS s hs
    rw [runHops_succ_of_next hst]
    exact ih t ht

/-- A loop that reaches, after `n` calls, an object from which it never answers
never answers either: with less fuel than `n` it stops short, and a result there
would survive to the diverging object. -/
theorem runHops_eq_none_of_shift {s t : σ} {n : ℕ} (h : Hops step s t n)
    (ht : ∀ k, runHops step k t = none) (fuel : ℕ) : runHops step fuel s = none := by
  cases hs : runHops step fuel s with
  | none => rfl
  | some r =>
    have hmore : runHops step (fuel + n) s = some r := runHops_add_of_eq_some hs n
    rw [Nat.add_comm, h fuel, ht fuel] at hmore
    cases hmore

end TopChain

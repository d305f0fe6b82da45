import Mathlib.Data.List.Basic

/-!
# Codecs that keep a state, and their round trip

An encoder that writes each item against what it wrote before (a prefix it need not
repeat, a value given as a difference) and a decoder that rebuilds each item from
what it read before must keep their states in step.  If a relation between the
encoder's and the decoder's states holds at the start, and from related states the
decoder rebuilds each item the encoder writes and the states stay related, then the
decoder rebuilds the whole list.

The encoder is `enc : σ → α → β × σ`.  The decoder `dec : τ → β → Option (α × τ)`
fails on an item it cannot rebuild, and its loop reads a given number of items,
as a loop does that first reads a count: it fails if the items run out first, and
leaves the items after the last one it reads.

## Main definitions

* `encodeList enc s as` — the items written for `as` from the state `s`.
* `decodeLoop dec n t bs acc` — read `n` items of `bs` from the state `t`,
  appending what is rebuilt to `acc`.

## Main results

* `decodeLoop_encodeList` — the round trip, from related states.
-/

namespace TopChain

namespace Codec

variable {α β σ τ : Type*}

/-- The items an encoder writes for a list, from the state `s`. -/
def encodeList (enc : σ → α → β × σ) : σ → List α → List β
  | _, [] => []
  | s, a :: as => (enc s a).1 :: encodeList enc (enc s a).2 as

@[simp] theorem encodeList_nil (enc : σ → α → β × σ) (s : σ) : encodeList enc s [] = [] := rfl

@[simp] theorem encodeList_cons (enc : σ → α → β × σ) (s : σ) (a : α) (as : List α) :
    encodeList enc s (a :: as) = (enc s a).1 :: encodeList enc (enc s a).2 as := rfl

/-- An encoder that writes each item whatever its state writes the list item by item. -/
theorem encodeList_of_const {f : α → β} (s : σ) (as : List α) :
    encodeList (fun s a => (f a, s)) s as = as.map f := by
  induction as with
  | nil => rfl
  | cons a as ih => simp [ih]

/-- Read `n` items from the state `t`, appending what the decoder rebuilds to `acc`;
`none` as soon as the decoder rejects an item or the items run out. -/
def decodeLoop (dec : τ → β → Option (α × τ)) : ℕ → τ → List β → List α → Option (List α)
  | 0, _, _, acc => some acc
  | _ + 1, _, [], _ => none
  | n + 1, t, b :: bs, acc =>
    match dec t b with
    | none => none
    | some (a, t') => decodeLoop dec n t' bs (acc ++ [a])

@[simp] theorem decodeLoop_zero (dec : τ → β → Option (α × τ)) (t : τ) (bs : List β)
    (acc : List α) : decodeLoop dec 0 t bs acc = some acc := rfl

theorem decodeLoop_succ_of_eq {dec : τ → β → Option (α × τ)} {t t' : τ} {b : β} {a : α}
    (h : dec t b = some (a, t')) (n : ℕ) (bs : List β) (acc : List α) :
    decodeLoop dec (n + 1) t (b :: bs) acc = decodeLoop dec n t' bs (acc ++ [a]) := by
  simp only [decodeLoop, h]

/-- **The round trip.**  If from related states the decoder rebuilds every item the
encoder writes for an admissible value, and the states stay related, then reading as
many items as there are values rebuilds them all, whatever follows. -/
theorem decodeLoop_encodeList (enc : σ → α → β × σ) (dec : τ → β → Option (α × τ))
    (R : σ → τ → Prop) (P : α → Prop)
    (hstep : ∀ s t a, R s t → P a → ∃ t', dec t (enc s a).1 = some (a, t') ∧ R (enc s a).2 t')
    (as : List α) (has : ∀ a ∈ as, P a) {s : σ} {t : τ} (hst : R s t) (rest : List β)
    (acc : List α) :
    decodeLoop dec as.length t (encodeList enc s as ++ rest) acc = some (acc ++ as) := by
  -- induction on the values, the two states moving in step
  induction as generalizing s t acc with
  | nil => simp
  | cons a as ih =>
    obtain ⟨t', hdec, hrel⟩ := hstep s t a hst (has a (List.mem_cons_self ..))
    rw [List.length_cons, encodeList_cons, List.cons_append, decodeLoop_succ_of_eq hdec,
      ih (fun b hb => has b (List.mem_cons_of_mem a hb)) hrel]
    simp

end Codec

end TopChain

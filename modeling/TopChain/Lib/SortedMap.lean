import Mathlib.Data.List.Basic
import Mathlib.Order.Defs.PartialOrder

/-!
# Ordered maps as association lists

A `std::map` keeps its entries in increasing order of key.  Modelled as an
association list in that order, `m[k]` followed by an update of the value is
`upsert`: the entry of `k` is replaced, or a new one is inserted before the first
larger key.

## Main definitions

* `upsert f l k` — replace the value `v` of `k` by `f (some v)`, or insert `f none`.
* `eraseKey l k` — `m.erase(k)`.

## Main results

* `lookup_upsert_const`, `isSome_lookup_upsert_self` — the updated key is present.
* `lookup_upsert_of_ne`, `lookup_eraseKey_of_ne` — other keys keep their values.
* `mem_upsert_const`, `mem_of_mem_eraseKey` — no entry comes from elsewhere.
* `pairwise_upsert`, `upsert_of_lookup_eq_some` — an update keeps the key order, and
  storing back a key's own value changes nothing.
* `lookup_eq_some_iff_mem`, `fst_ne_of_mem_eraseKey` — in key order a key has one
  entry, which erasing removes.
* `length_filter_lt_lt` — the entries above a key are fewer than those above a
  smaller bound.
-/

namespace TopChain

variable {κ β : Type*} [DecidableEq κ]

/-- `m.erase(k)`: remove the entry of `k`. -/
def eraseKey (l : List (κ × β)) (k : κ) : List (κ × β) := l.eraseP fun e => e.1 = k

/-- Erasing a key leaves the other keys' values alone. -/
theorem lookup_eraseKey_of_ne {k k' : κ} (h : k' ≠ k) (l : List (κ × β)) :
    (eraseKey l k).lookup k' = l.lookup k' := by
  induction l with
  | nil => rfl
  | cons e rest ih =>
    obtain ⟨t, w⟩ := e
    by_cases ht : t = k
    · subst ht
      simp [eraseKey, List.lookup_cons, beq_false_of_ne h]
    · by_cases htk : k' = t
      · subst htk
        simp [eraseKey, ht]
      · simpa [eraseKey, List.lookup_cons, List.lookup_nil, ht, beq_false_of_ne htk] using ih

/-- A value looked up is stored under its key. -/
theorem mem_of_lookup_eq_some {l : List (κ × β)} {k : κ} {v : β} (h : l.lookup k = some v) :
    (k, v) ∈ l := by
  induction l with
  | nil => simp [List.lookup_nil] at h
  | cons e rest ih =>
    obtain ⟨t, w⟩ := e
    by_cases ht : k = t
    · subst ht
      simp only [List.lookup_cons, beq_self_eq_true, Option.some.injEq] at h
      rw [h]
      exact List.mem_cons_self
    · simp only [List.lookup_cons, beq_false_of_ne ht] at h
      exact List.mem_cons_of_mem _ (ih h)

/-- A key has a value exactly when it is one of the map's keys. -/
theorem isSome_lookup_iff_mem_map {l : List (κ × β)} {k : κ} :
    (l.lookup k).isSome ↔ k ∈ l.map Prod.fst := by
  constructor
  · intro h
    obtain ⟨v, hv⟩ := Option.isSome_iff_exists.mp h
    exact List.mem_map.mpr ⟨(k, v), mem_of_lookup_eq_some hv, rfl⟩
  · -- a key of some entry is not missing
    intro h
    obtain ⟨e, he, rfl⟩ := List.mem_map.mp h
    rw [Option.isSome_iff_ne_none, Ne, List.lookup_eq_none_iff]
    intro hall
    simpa using hall e he

/-- Erasing keeps only entries that were there. -/
theorem mem_of_mem_eraseKey {p : κ × β} {l : List (κ × β)} {k : κ} (h : p ∈ eraseKey l k) :
    p ∈ l :=
  List.mem_of_mem_eraseP h

/-- Changing every value by a function of its key keeps the keys. -/
theorem lookup_map_val {γ : Type*} (g : κ → β → γ) (l : List (κ × β)) (k : κ) :
    (l.map fun e => (e.1, g e.1 e.2)).lookup k = (l.lookup k).map (g k) := by
  induction l with
  | nil => rfl
  | cons e rest ih =>
    obtain ⟨t, v⟩ := e
    by_cases h : k = t
    · subst h
      simp
    · simp [List.lookup_cons, beq_false_of_ne h, ih]

/-- Changing every value keeps the keys: a key's value is its old one changed. -/
theorem lookup_map_snd {γ : Type*} (f : β → γ) (l : List (κ × β)) (k : κ) :
    (l.map fun e => (e.1, f e.2)).lookup k = (l.lookup k).map f :=
  lookup_map_val (fun _ => f) l k

/-- Erasing a key that has a value removes one entry. -/
theorem length_eraseKey {l : List (κ × β)} {k : κ} {v : β} (h : l.lookup k = some v) :
    (eraseKey l k).length = l.length - 1 :=
  List.length_eraseP_of_mem (mem_of_lookup_eq_some h) (by simp)

section Upsert

variable [LT κ] [DecidableLT κ]

/-- Update the entry of `k` with `f`, inserting one in key order if there is none. -/
def upsert (f : Option β → β) : List (κ × β) → κ → List (κ × β)
  | [], k => [(k, f none)]
  | (t, v) :: rest, k =>
    if t = k then (t, f (some v)) :: rest
    else if k < t then (k, f none) :: (t, v) :: rest
    else (t, v) :: upsert f rest k

theorem upsert_nil (f : Option β → β) (k : κ) : upsert f [] k = [(k, f none)] := rfl

theorem upsert_cons (f : Option β → β) (t : κ) (v : β) (rest : List (κ × β)) (k : κ) :
    upsert f ((t, v) :: rest) k =
      if t = k then (t, f (some v)) :: rest
      else if k < t then (k, f none) :: (t, v) :: rest
      else (t, v) :: upsert f rest k := rfl

/-- An update leaves the other keys' values alone. -/
theorem lookup_upsert_of_ne (f : Option β → β) {k k' : κ} (h : k' ≠ k) (l : List (κ × β)) :
    (upsert f l k).lookup k' = l.lookup k' := by
  have hk : (k' == k) = false := beq_false_of_ne h
  induction l with
  | nil => simp [upsert_nil, List.lookup_cons, List.lookup_nil, hk]
  | cons e rest ih =>
    obtain ⟨t, v⟩ := e
    rw [upsert_cons]
    split_ifs with ht hlt
    · subst ht
      simp [List.lookup_cons, hk]
    · simp [List.lookup_cons, hk]
    · -- the entry is kept in front of the updated tail
      by_cases htk : k' = t
      · subst htk
        simp
      · simp only [List.lookup_cons, beq_false_of_ne htk]
        exact ih

/-- An update to a constant stores that constant. -/
@[simp]
theorem lookup_upsert_const (v : β) (k : κ) (l : List (κ × β)) :
    (upsert (fun _ => v) l k).lookup k = some v := by
  induction l with
  | nil => simp [upsert_nil]
  | cons e rest ih =>
    obtain ⟨t, w⟩ := e
    rw [upsert_cons]
    split_ifs with ht hlt
    · simp [ht]
    · simp
    · simp only [List.lookup_cons, beq_false_of_ne (Ne.symm ht)]
      exact ih

/-- In key order, the updated key holds the update of its old value. -/
theorem lookup_upsert_self [IsTrans κ (· < ·)] [Std.Irrefl (α := κ) (· < ·)]
    (f : Option β → β) (k : κ) {l : List (κ × β)} (hl : l.Pairwise fun a b => a.1 < b.1) :
    (upsert f l k).lookup k = some (f (l.lookup k)) := by
  induction l with
  | nil => simp [upsert_nil]
  | cons e rest ih =>
    obtain ⟨t, w⟩ := e
    obtain ⟨hhead, hrest⟩ := List.pairwise_cons.mp hl
    rw [upsert_cons]
    split_ifs with ht hlt
    · simp [ht]
    · -- every key of the tail is above `t`, hence above `k`
      have hnone : rest.lookup k = none := by
        rw [List.lookup_eq_none_iff]
        intro q hq
        have htq : t < q.1 := hhead q hq
        have hkq : k ≠ q.1 := fun hkq => Std.Irrefl.irrefl t (trans_of _ htq (hkq ▸ hlt))
        simpa using hkq
      simp [List.lookup_cons, beq_false_of_ne (Ne.symm ht), hnone]
    · simp only [List.lookup_cons, beq_false_of_ne (Ne.symm ht)]
      exact ih hrest

/-- After an update the key has some value, whatever the update function. -/
theorem isSome_lookup_upsert_self (f : Option β → β) (k : κ) (l : List (κ × β)) :
    ((upsert f l k).lookup k).isSome := by
  induction l with
  | nil => simp [upsert_nil]
  | cons e rest ih =>
    obtain ⟨t, w⟩ := e
    rw [upsert_cons]
    split_ifs with ht hlt
    · simp [ht]
    · simp
    · simp only [List.lookup_cons, beq_false_of_ne (Ne.symm ht)]
      exact ih

/-- An update never removes a key. -/
theorem isSome_lookup_upsert (f : Option β → β) (k : κ) {k' : κ} {l : List (κ × β)}
    (h : (l.lookup k').isSome) : ((upsert f l k).lookup k').isSome := by
  by_cases hk : k' = k
  · subst hk
    exact isSome_lookup_upsert_self f k' l
  · rwa [lookup_upsert_of_ne f hk]

/-- The entries after storing a constant are the old ones and the new one. -/
theorem mem_upsert_const {v : β} {k : κ} {p : κ × β} {l : List (κ × β)}
    (h : p ∈ upsert (fun _ => v) l k) : p ∈ l ∨ p = (k, v) := by
  induction l with
  | nil => simpa [upsert_nil] using h
  | cons e rest ih =>
    obtain ⟨t, w⟩ := e
    rw [upsert_cons] at h
    split_ifs at h with ht hlt
    · -- the old entry of `k` is replaced
      rcases List.mem_cons.mp h with h | h
      · exact .inr (by rw [h, ht])
      · exact .inl (List.mem_cons_of_mem _ h)
    · rcases List.mem_cons.mp h with h | h
      · exact .inr h
      · exact .inl h
    · rcases List.mem_cons.mp h with h | h
      · exact .inl (h ▸ List.mem_cons_self)
      · exact (ih h).imp_left (List.mem_cons_of_mem _)

/-- The entries after an update are old ones and the updated key's entry, whose value
is the update of nothing or of a value the key had. -/
theorem mem_upsert {f : Option β → β} {k : κ} {p : κ × β} {l : List (κ × β)}
    (h : p ∈ upsert f l k) : p ∈ l ∨ ∃ o : Option β, p = (k, f o) ∧ ∀ v ∈ o, (k, v) ∈ l := by
  induction l with
  | nil => exact .inr ⟨none, by simpa [upsert_nil] using h, by simp⟩
  | cons e rest ih =>
    obtain ⟨t, w⟩ := e
    rw [upsert_cons] at h
    split_ifs at h with ht hlt
    · -- the entry of `k` is updated from its value `w`
      rcases List.mem_cons.mp h with h | h
      · subst ht
        exact .inr ⟨some w, h, fun v hv => by
          rw [Option.mem_some_iff.mp hv]
          exact List.mem_cons_self⟩
      · exact .inl (List.mem_cons_of_mem _ h)
    · rcases List.mem_cons.mp h with h | h
      · exact .inr ⟨none, h, by simp⟩
      · exact .inl h
    · rcases List.mem_cons.mp h with h | h
      · exact .inl (h ▸ List.mem_cons_self)
      · rcases ih h with h | ⟨o, rfl, ho⟩
        · exact .inl (List.mem_cons_of_mem _ h)
        · exact .inr ⟨o, rfl, fun v hv => List.mem_cons_of_mem _ (ho v hv)⟩

/-- The keys after an update are the old keys and the updated one. -/
theorem fst_mem_upsert (f : Option β → β) {k : κ} {p : κ × β} {l : List (κ × β)}
    (h : p ∈ upsert f l k) : p.1 = k ∨ ∃ q ∈ l, q.1 = p.1 := by
  induction l with
  | nil => simp_all [upsert_nil]
  | cons e rest ih =>
    obtain ⟨t, w⟩ := e
    rw [upsert_cons] at h
    split_ifs at h with ht hlt
    · rcases List.mem_cons.mp h with h | h
      · exact .inl (by rw [h, ht])
      · exact .inr ⟨p, List.mem_cons_of_mem _ h, rfl⟩
    · rcases List.mem_cons.mp h with h | h
      · exact .inl (by rw [h])
      · exact .inr ⟨p, h, rfl⟩
    · rcases List.mem_cons.mp h with h | h
      · exact .inr ⟨(t, w), List.mem_cons_self, by rw [h]⟩
      · exact (ih h).imp_right fun ⟨q, hq, hqp⟩ => ⟨q, List.mem_cons_of_mem _ hq, hqp⟩

/-- An update keeps a map's entries in increasing key order. -/
theorem pairwise_upsert [IsTrans κ (· < ·)] [Std.Trichotomous (α := κ) (· < ·)] (f : Option β → β)
    (k : κ) {l : List (κ × β)} (hl : l.Pairwise fun a b => a.1 < b.1) :
    (upsert f l k).Pairwise fun a b => a.1 < b.1 := by
  induction l with
  | nil => simp [upsert_nil]
  | cons e rest ih =>
    obtain ⟨t, w⟩ := e
    obtain ⟨hhead, hrest⟩ := List.pairwise_cons.mp hl
    rw [upsert_cons]
    split_ifs with ht hlt
    · exact List.pairwise_cons.mpr ⟨hhead, hrest⟩
    · -- the new key goes in front of `t`, hence of every key after it
      refine List.pairwise_cons.mpr ⟨fun q hq => ?_, hl⟩
      rcases List.mem_cons.mp hq with rfl | hq
      · exact hlt
      · exact trans_of _ hlt (hhead q hq)
    · -- `t` stays in front: it is below `k` and below every key of the tail
      have htk : t < k := by
        by_contra hnot
        exact ht (Std.Trichotomous.trichotomous t k hnot hlt)
      refine List.pairwise_cons.mpr ⟨fun q hq => ?_, ih hrest⟩
      rcases fst_mem_upsert f hq with hq | ⟨q', hq', hqq⟩
      · rw [hq]
        exact htk
      · rw [← hqq]
        exact hhead q' hq'

/-- An update of a missing key adds one entry. -/
theorem length_upsert_of_lookup_eq_none (f : Option β → β) {k : κ} {l : List (κ × β)}
    (h : l.lookup k = none) : (upsert f l k).length = l.length + 1 := by
  induction l with
  | nil => rfl
  | cons e rest ih =>
    obtain ⟨t, w⟩ := e
    by_cases ht : t = k
    · subst ht
      simp at h
    · have hrest : rest.lookup k = none := by
        simpa [List.lookup_cons, List.lookup_nil, beq_false_of_ne (Ne.symm ht)] using h
      rw [upsert_cons, if_neg ht]
      split_ifs
      · rfl
      · simp [ih hrest]

/-- An update under a key a filter drops leaves the filtered map as it was. -/
theorem filter_upsert_of_false {p : κ → Bool} {k : κ} (hk : p k = false) (f : Option β → β)
    (l : List (κ × β)) :
    (upsert f l k).filter (fun e => p e.1) = l.filter (fun e => p e.1) := by
  induction l with
  | nil => simp [upsert_nil, hk]
  | cons e rest ih =>
    obtain ⟨t, w⟩ := e
    rw [upsert_cons]
    split_ifs with ht hlt
    · subst ht
      simp [hk]
    · simp [hk]
    · simp only [List.filter_cons, ih]

end Upsert

section Sorted

variable [LT κ] [Std.Irrefl (α := κ) (· < ·)]

/-- In a map in key order, the value of a key is that of its one entry. -/
theorem lookup_eq_some_iff_mem {l : List (κ × β)} (hl : l.Pairwise fun a b => a.1 < b.1)
    {k : κ} {v : β} : l.lookup k = some v ↔ (k, v) ∈ l := by
  refine ⟨mem_of_lookup_eq_some, fun h => ?_⟩
  induction l with
  | nil => simp at h
  | cons e rest ih =>
    obtain ⟨t, w⟩ := e
    obtain ⟨hhead, hrest⟩ := List.pairwise_cons.mp hl
    rcases List.mem_cons.mp h with he | he
    · cases he
      simp
    · -- the entry is in the tail, so its key is above the head's
      have hkt : k ≠ t := fun hk => Std.Irrefl.irrefl t (hk ▸ hhead _ he)
      simp only [List.lookup_cons, beq_false_of_ne hkt]
      exact ih hrest he

/-- Erasing a key from a map in key order leaves no entry of that key. -/
theorem fst_ne_of_mem_eraseKey {l : List (κ × β)} (hl : l.Pairwise fun a b => a.1 < b.1)
    {k : κ} {p : κ × β} (h : p ∈ eraseKey l k) : p.1 ≠ k := by
  induction l with
  | nil => simp [eraseKey] at h
  | cons e rest ih =>
    obtain ⟨t, w⟩ := e
    obtain ⟨hhead, hrest⟩ := List.pairwise_cons.mp hl
    by_cases ht : t = k
    · subst ht
      have hp : p ∈ rest := by simpa [eraseKey] using h
      exact fun hk => Std.Irrefl.irrefl t (hk ▸ hhead _ hp)
    · have h' : p ∈ (t, w) :: eraseKey rest k := by simpa [eraseKey, ht] using h
      rcases List.mem_cons.mp h' with rfl | hp
      · exact ht
      · exact ih hrest hp

/-- In a map in key order two entries of one key have one value. -/
theorem snd_eq_of_mem {l : List (κ × β)} (hl : l.Pairwise fun a b => a.1 < b.1) {k : κ}
    {v w : β} (hv : (k, v) ∈ l) (hw : (k, w) ∈ l) : v = w := by
  have h := (lookup_eq_some_iff_mem hl).mpr hv
  rw [(lookup_eq_some_iff_mem hl).mpr hw] at h
  exact (Option.some.inj h).symm

/-- Storing a constant under a key a map in key order lacks adds exactly that entry. -/
theorem mem_upsert_const_iff [DecidableLT κ] {l : List (κ × β)}
    (hl : l.Pairwise fun a b => a.1 < b.1) {k : κ} (hk : l.lookup k = none) (v : β)
    (p : κ × β) : p ∈ upsert (fun _ => v) l k ↔ p ∈ l ∨ p = (k, v) := by
  refine ⟨mem_upsert_const, ?_⟩
  rintro (hp | rfl)
  · -- an old entry has another key, whose value the update keeps
    have hlook : l.lookup p.1 = some p.2 := (lookup_eq_some_iff_mem hl).mpr hp
    have hpk : p.1 ≠ k := fun hpk => by
      rw [hpk, hk] at hlook
      cases hlook
    apply mem_of_lookup_eq_some
    rw [lookup_upsert_of_ne _ hpk, hlook]
  · exact mem_of_lookup_eq_some (lookup_upsert_const v k l)

end Sorted

section Prefix

variable [LT κ] {p : κ → Bool}

omit [DecidableEq κ] in
/-- In a map in key order, the entries left after dropping those in front whose keys pass
a downward-closed test fail the test: erasing from `begin()` while the key passes
erases every key that passes. -/
theorem mem_dropWhile_fst (hp : ∀ a b, a < b → p b = true → p a = true)
    {l : List (κ × β)} (hl : l.Pairwise fun a b => a.1 < b.1) {e : κ × β}
    (he : e ∈ l.dropWhile fun e => p e.1) : p e.1 = false := by
  induction l with
  | nil => simp at he
  | cons x rest ih =>
    obtain ⟨hhead, hrest⟩ := List.pairwise_cons.mp hl
    by_cases hx : p x.1 = true
    · rw [List.dropWhile_cons_of_pos (p := fun e : κ × β => p e.1) (a := x) hx] at he
      exact ih hrest he
    · rw [List.dropWhile_cons_of_neg (p := fun e : κ × β => p e.1) (a := x) hx] at he
      rcases List.mem_cons.mp he with rfl | he
      · exact Bool.eq_false_iff.mpr hx
      · -- an entry behind `x` has a larger key, so passing the test would pass it to `x`
        exact Bool.eq_false_iff.mpr fun hpe => hx (hp _ _ (hhead e he) hpe)

/-- Dropping the front entries whose keys pass a downward-closed test removes exactly
the keys that pass it. -/
theorem lookup_dropWhile (hp : ∀ a b, a < b → p b = true → p a = true)
    {l : List (κ × β)} (hl : l.Pairwise fun a b => a.1 < b.1) (k : κ) :
    (l.dropWhile fun e => p e.1).lookup k = if p k then none else l.lookup k := by
  by_cases hk : p k = true
  · rw [if_pos hk, List.lookup_eq_none_iff]
    intro e he
    have hpe := mem_dropWhile_fst hp hl he
    rw [bne_iff_ne]
    rintro rfl
    rw [hk] at hpe
    cases hpe
  · rw [if_neg hk]
    induction l with
    | nil => rfl
    | cons x rest ih =>
      obtain ⟨t, v⟩ := x
      by_cases hx : p t = true
      · -- the dropped key is not `k`
        have hkt : k ≠ t := fun h => hk (h ▸ hx)
        rw [List.dropWhile_cons_of_pos (p := fun e : κ × β => p e.1) (a := (t, v)) hx,
          ih (List.pairwise_cons.mp hl).2]
        simp only [List.lookup_cons, beq_false_of_ne hkt]
      · rw [List.dropWhile_cons_of_neg (p := fun e : κ × β => p e.1) (a := (t, v)) hx]

end Prefix

section Threshold

variable [Preorder κ] [DecidableLT κ]

omit [DecidableEq κ] in
/-- Raising a lower bound on the keys keeps no more entries. -/
theorem length_filter_lt_le {i j : κ} (hij : i ≤ j) (l : List (κ × β)) :
    (l.filter fun e => decide (j < e.1)).length ≤ (l.filter fun e => decide (i < e.1)).length :=
  (List.monotone_filter_right l fun e he => by
    simp only [decide_eq_true_eq] at he ⊢
    exact lt_of_le_of_lt hij he).length_le

omit [DecidableEq κ] in
/-- Raising a lower bound past a key of the map drops that key's entry. -/
theorem length_filter_lt_lt {i j : κ} (hij : i < j) {l : List (κ × β)} {v : β} (hj : (j, v) ∈ l) :
    (l.filter fun e => decide (j < e.1)).length < (l.filter fun e => decide (i < e.1)).length := by
  -- the entries above `j` are those above `i` that are also above `j`
  have hsub : (l.filter fun e => decide (j < e.1)) =
      (l.filter fun e => decide (i < e.1)).filter fun e => decide (j < e.1) := by
    rw [List.filter_filter]
    apply List.filter_congr
    intro e _
    by_cases h : j < e.1
    · simp [h, lt_trans hij h]
    · simp [h]
  rw [hsub, List.length_filter_lt_length_iff_exists]
  exact ⟨(j, v), List.mem_filter.mpr ⟨hj, by simpa using hij⟩,
    fun h => lt_irrefl j (of_decide_eq_true h)⟩

end Threshold

end TopChain

import TopChain.Lib.Codec
import TopChain.Lib.CInt

/-!
# Compiling a canvas into its binary log

`xvcanvas_t::compile` writes the records a canvas collected (the instructions a
state executed, each an `xvmethod_t` with the URI of the unit it targets) to a
stream, after their count as an `int32_t`; `xvcanvas_t::decompile` reads them back.
With optimization on, the compiler splits each URI at its last `/` into a base path
and a unit name, and shortens the URI of a record that repeats the previous base
path to `/unit`, and to nothing if it repeats the unit name too; a URI without `/`
is a root record.  The decompiler restores a shortened URI from the base path and
unit name it read last.  The two keep the same state record after record
(`decompileStep_compileStep`), so the records come back as they were written, with
or without optimization, for URIs whose base path and unit name are not empty.

The count does not always come back: `compile` casts the deque's size to
`int32_t`, and `decompile` loops `for (int32_t i = 0; i < total_records; ++i)`.
From `2 ^ 31` records on, the count reads back negative or smaller, and a deque of
`2 ^ 31` records decompiles, successfully, to nothing
(`decompile_compile_replicate_two_pow_31`).  Below that size the round trip holds
(`decompile_compile`).

A record is a URI and the rest of an `xvmethod_t`, which the codec only copies.  The
stream is a list of items, each an `int32_t` or a serialized record, so that
`serialize_from` reads back what `serialize_to` wrote; a stream that does not start
with a count reads the count `0`, the initial value of `total_records`.  The source's
`xassert`s are left out.

## Main definitions

* `findLastOf` — `std::string::find_last_of` for one character.
* `compileStep`, `compile` — `xvcanvas_t::compile` and its optimized branch.
* `decompileStep`, `decompile` — `xvcanvas_t::decompile` and its loop body.
* `uriOk` — a non-empty URI whose base path and unit name are not empty.

## Main results

* `decompileStep_compileStep`, `decompileStep_method` — each record comes back.
* `decompile_compile` — the round trip below `2 ^ 31` records.
-/

namespace TopChain

namespace Vledger

variable {α : Type*}

/-- An `xvmethod_t` as the canvas sees it: the URI of the unit it targets, and the
rest (instruction and parameters), which `clone_record` copies. -/
structure VMethod (α : Type*) where
  uri : List Char
  body : α
  deriving DecidableEq, Repr

/-- What `xstream_t` holds, as the canvas writes and reads it: an `int32_t`, or one
serialized record. -/
inductive Item (α : Type*)
  | int32 (value : ℤ)
  | method (m : VMethod α)
  deriving DecidableEq, Repr

/-- `std::string::find_last_of` for one character: the index of its last occurrence. -/
def findLastOf (c : Char) : List Char → Option ℕ
  | [] => none
  | x :: xs =>
    match findLastOf c xs with
    | some i => some (i + 1)
    | none => if x = c then some 0 else none

@[simp] theorem findLastOf_nil (c : Char) : findLastOf c [] = none := rfl

theorem findLastOf_cons (c x : Char) (xs : List Char) :
    findLastOf c (x :: xs) =
      match findLastOf c xs with
      | some i => some (i + 1)
      | none => if x = c then some 0 else none := rfl

/-- `enum_compile_optimization_none`. -/
def enumCompileOptimizationNone : ℕ := 0x00

/-- `enum_compile_optimization_mask`. -/
def enumCompileOptimizationMask : ℕ := 0x0F

/-- One record of the optimized branch of `xvcanvas_t::compile`, with the last base
path and unit name: the item written and the new last base path and unit name. -/
def compileStep (last : List Char × List Char) (record : VMethod α) :
    Item α × (List Char × List Char) :=
  let fullPath := record.uri
  match findLastOf '/' fullPath with
  | some lastdot =>
    let curBasePath := fullPath.take lastdot
    let curUnitName := fullPath.drop (lastdot + 1)
    if last.1.isEmpty || last.1 != curBasePath then
      (.method record, (curBasePath, curUnitName))
    else if last.2.isEmpty || last.2 != curUnitName then
      -- the base path is the last one: `"/" + cur_unit_name`
      (.method { record with uri := '/' :: curUnitName }, (curBasePath, curUnitName))
    else (.method { record with uri := [] }, last)
  | none => (.method record, (fullPath, []))

/-- `xvcanvas_t::compile`: the number of records as an `int32_t`, then the records,
as they are without optimization and through `compileStep` with it. -/
def compile (inputRecords : List (VMethod α)) (compileOptions : ℕ) : List (Item α) :=
  .int32 (toI32 inputRecords.length) ::
    if compileOptions &&& enumCompileOptimizationMask = enumCompileOptimizationNone then
      inputRecords.map .method
    else Codec.encodeList compileStep ([], []) inputRecords

/-- One turn of the loop of `xvcanvas_t::decompile`, with the last base path and unit
name: the record restored and the new last base path and unit name, or `none` where
the source returns `enum_xerror_code_bad_data` (an item that is not a record, or a
URI it cannot restore). -/
def decompileStep (last : List Char × List Char) :
    Item α → Option (VMethod α × (List Char × List Char))
  | .int32 _ => none
  | .method record =>
    let orgFullPath := record.uri
    if orgFullPath.isEmpty then
      -- the last base path and unit name
      if last.1.isEmpty || last.2.isEmpty then none
      else some ({ record with uri := last.1 ++ '/' :: last.2 }, last)
    else
      match findLastOf '/' orgFullPath with
      | some lastdot =>
        let curBasePath :=
          if (orgFullPath.take lastdot).isEmpty then last.1 else orgFullPath.take lastdot
        let curUnitName :=
          if (orgFullPath.drop (lastdot + 1)).isEmpty then last.2
          else orgFullPath.drop (lastdot + 1)
        if curBasePath.isEmpty || curUnitName.isEmpty then none
        else
          let restoredFullUri := curBasePath ++ '/' :: curUnitName
          if restoredFullUri ≠ orgFullPath then
            some ({ record with uri := restoredFullUri }, (curBasePath, curUnitName))
          else some (record, (curBasePath, curUnitName))
      | none => some (record, (orgFullPath, []))

/-- `input_stream >> total_records`: the `int32_t` at the head of the stream, or the
initial `0` where there is none. -/
def readInt32 : List (Item α) → ℤ × List (Item α)
  | .int32 value :: rest => (value, rest)
  | stream => (0, stream)

/-- `xvcanvas_t::decompile`: the records, or `none` for `enum_xerror_code_bad_data`.
The loop runs `total_records` times when the count is positive, and not at all
otherwise. -/
def decompile (inputStream : List (Item α)) : Option (List (VMethod α)) :=
  let (totalRecords, rest) := readInt32 inputStream
  Codec.decodeLoop decompileStep totalRecords.toNat ([], []) rest []

/-- The URIs the codec is meant for: not empty, and, if they have a `/`, with a base
path and a unit name that are not empty. -/
def uriOk (uri : List Char) : Bool :=
  !uri.isEmpty &&
    match findLastOf '/' uri with
    | some lastdot => !(uri.take lastdot).isEmpty && !(uri.drop (lastdot + 1)).isEmpty
    | none => true

/-! ### The last `/` of a URI -/

theorem findLastOf_eq_none_iff {c : Char} {s : List Char} : findLastOf c s = none ↔ c ∉ s := by
  induction s with
  | nil => simp
  | cons x xs ih =>
    cases hxs : findLastOf c xs with
    | some i =>
      have hc : c ∈ xs := by
        by_contra hc
        rw [← ih] at hc
        simp [hxs] at hc
      simp [findLastOf_cons, hxs, hc]
    | none =>
      have hc : c ∉ xs := ih.mp hxs
      simp only [findLastOf_cons, hxs, List.mem_cons, hc, or_false]
      split_ifs with hx
      · simp [hx]
      · simp only [true_iff]
        exact fun h => hx h.symm

/-- The last occurrence of a character splits a list into what comes before it, the
character, and a rest without it. -/
theorem findLastOf_eq_some {c : Char} {s : List Char} {i : ℕ} (h : findLastOf c s = some i) :
    s = s.take i ++ c :: s.drop (i + 1) ∧ c ∉ s.drop (i + 1) := by
  induction s generalizing i with
  | nil => simp at h
  | cons x xs ih =>
    cases hxs : findLastOf c xs with
    | some j =>
      simp only [findLastOf_cons, hxs, Option.some.injEq] at h
      subst h
      obtain ⟨hsplit, hrest⟩ := ih hxs
      refine ⟨?_, by simpa using hrest⟩
      simp only [List.take_succ_cons, List.drop_succ_cons, List.cons_append]
      rw [← hsplit]
    | none =>
      simp only [findLastOf_cons, hxs] at h
      split_ifs at h with hx
      cases h
      subst hx
      exact ⟨rfl, by simpa using findLastOf_eq_none_iff.mp hxs⟩

theorem findLastOf_append_cons {c : Char} {u : List Char} (hu : c ∉ u) (b : List Char) :
    findLastOf c (b ++ c :: u) = some b.length := by
  induction b with
  | nil => simp [findLastOf_cons, findLastOf_eq_none_iff.mpr hu]
  | cons x b ih => simp [findLastOf_cons, ih]

/-! ### One record each way -/

/-- A full URI restores to itself, and its base path and unit name become the last ones. -/
theorem decompileStep_full (last : List Char × List Char) {b u : List Char} (hb : b ≠ [])
    (hu : u ≠ []) (hslash : '/' ∉ u) (body : α) :
    decompileStep last (.method ⟨b ++ '/' :: u, body⟩) = some (⟨b ++ '/' :: u, body⟩, (b, u)) := by
  have hlen : (b ++ '/' :: u).take b.length = b := by simp
  have hdrop : (b ++ '/' :: u).drop (b.length + 1) = u := by simp
  simp [decompileStep, findLastOf_append_cons hslash, hb, hu]

/-- A URI `/unit` restores with the last base path. -/
theorem decompileStep_unit (lastUnit : List Char) {b u : List Char} (hb : b ≠ []) (hu : u ≠ [])
    (hslash : '/' ∉ u) (body : α) :
    decompileStep (b, lastUnit) (.method ⟨'/' :: u, body⟩) =
      some (⟨b ++ '/' :: u, body⟩, (b, u)) := by
  have hfind : findLastOf '/' ('/' :: u) = some 0 := findLastOf_append_cons hslash []
  have hne : b ++ '/' :: u ≠ '/' :: u := by
    intro h
    have hl := congrArg List.length h
    simp only [List.length_append, List.length_cons] at hl
    exact hb (List.eq_nil_of_length_eq_zero (by omega))
  simp [decompileStep, hfind, hb, hu, hne]

/-- An empty URI restores with the last base path and unit name. -/
theorem decompileStep_empty {b u : List Char} (hb : b ≠ []) (hu : u ≠ []) (body : α) :
    decompileStep (b, u) (.method ⟨[], body⟩) = some (⟨b ++ '/' :: u, body⟩, (b, u)) := by
  simp [decompileStep, hb, hu]

/-- A root record is kept as it is, and its URI becomes the last base path. -/
theorem decompileStep_root (last : List Char × List Char) {uri : List Char} (huri : uri ≠ [])
    (hroot : findLastOf '/' uri = none) (body : α) :
    decompileStep last (.method ⟨uri, body⟩) = some (⟨uri, body⟩, (uri, [])) := by
  simp [decompileStep, huri, hroot]

/-- **The decompiler follows the compiler.**  From the compiler's own last base path and
unit name, the decompiler restores the record the optimized compiler writes, and
ends with the compiler's new ones. -/
theorem decompileStep_compileStep (last : List Char × List Char) {record : VMethod α}
    (h : uriOk record.uri = true) :
    decompileStep last (compileStep last record).1 = some (record, (compileStep last record).2) := by
  obtain ⟨uri, body⟩ := record
  obtain ⟨lastBase, lastUnit⟩ := last
  have huri : uri ≠ [] := by
    intro hnil
    simp [uriOk, hnil] at h
  cases hfind : findLastOf '/' uri with
  | none =>
    simp only [compileStep, hfind]
    exact decompileStep_root _ huri hfind body
  | some lastdot =>
    obtain ⟨hsplit, hslash⟩ := findLastOf_eq_some hfind
    simp only [uriOk, hfind, Bool.and_eq_true, Bool.not_eq_eq_eq_not, Bool.not_true,
      List.isEmpty_eq_false_iff, ne_eq] at h
    obtain ⟨-, hb, hu⟩ := h
    -- the three ways the compiler writes the record
    simp only [compileStep, hfind]
    split_ifs with hbase hunit
    · rw [hsplit] at ⊢
      exact (decompileStep_full _ hb hu hslash body).trans (by rw [← hsplit])
    · simp only [Bool.or_eq_true, List.isEmpty_iff, bne_iff_ne, ne_eq, not_or,
        Decidable.not_not] at hbase
      obtain ⟨-, rfl⟩ := hbase
      rw [decompileStep_unit _ hb hu hslash, ← hsplit]
    · simp only [Bool.or_eq_true, List.isEmpty_iff, bne_iff_ne, ne_eq, not_or,
        Decidable.not_not] at hbase hunit
      obtain ⟨-, rfl⟩ := hbase
      obtain ⟨-, rfl⟩ := hunit
      rw [decompileStep_empty hb hu, ← hsplit]

/-- Without optimization each record is written as it is, and the decompiler restores
it from any last base path and unit name. -/
theorem decompileStep_method (last : List Char × List Char) {record : VMethod α}
    (h : uriOk record.uri = true) :
    ∃ next, decompileStep last (.method record) = some (record, next) := by
  obtain ⟨uri, body⟩ := record
  have huri : uri ≠ [] := by
    intro hnil
    simp [uriOk, hnil] at h
  cases hfind : findLastOf '/' uri with
  | none => exact ⟨_, decompileStep_root last huri hfind body⟩
  | some lastdot =>
    obtain ⟨hsplit, hslash⟩ := findLastOf_eq_some hfind
    simp only [uriOk, hfind, Bool.and_eq_true, Bool.not_eq_eq_eq_not, Bool.not_true,
      List.isEmpty_eq_false_iff, ne_eq] at h
    obtain ⟨-, hb, hu⟩ := h
    have hfull := decompileStep_full last hb hu hslash body
    rw [← hsplit] at hfull
    exact ⟨_, hfull⟩

/-! ### The round trip, and the count -/

/-- Below `2 ^ 31`, the count written as an `int32_t` reads back as itself. -/
theorem toNat_toI32_of_lt {n : ℕ} (h : n < 2 ^ 31) : (toI32 n).toNat = n := by
  have h' : (n : ℤ) < 2 ^ (32 - 1) := by
    norm_num
    omega
  rw [toI32, toSigned_of_lt (by omega) h']
  simp

/-- **Round trip.**  Fewer than `2 ^ 31` records whose URIs the codec is meant for
decompile to themselves, whatever the compile options. -/
theorem decompile_compile (inputRecords : List (VMethod α)) (compileOptions : ℕ)
    (hlen : inputRecords.length < 2 ^ 31) (huri : ∀ r ∈ inputRecords, uriOk r.uri = true) :
    decompile (compile inputRecords compileOptions) = some inputRecords := by
  simp only [decompile, compile, readInt32, toNat_toI32_of_lt hlen]
  split_ifs
  · -- without optimization the decompiler's last base path and unit name are not needed
    rw [← Codec.encodeList_of_const () inputRecords,
      ← List.append_nil (Codec.encodeList _ () inputRecords)]
    have hstep : ∀ (s : Unit) t (r : VMethod α), True → uriOk r.uri = true →
        ∃ t', decompileStep t (Item.method r) = some (r, t') ∧ True :=
      fun _ t _ _ hr => (decompileStep_method t hr).imp fun _ h => ⟨h, trivial⟩
    rw [Codec.decodeLoop_encodeList _ _ _ _ hstep inputRecords huri trivial, List.nil_append]
  · -- with optimization the two last base paths and unit names stay equal
    rw [← List.append_nil (Codec.encodeList compileStep ([], []) inputRecords)]
    have hstep : ∀ s t (r : VMethod α), s = t → uriOk r.uri = true →
        ∃ t', decompileStep t (compileStep s r).1 = some (r, t') ∧ (compileStep s r).2 = t' := by
      intro s t r hst hr
      subst hst
      exact ⟨_, decompileStep_compileStep s hr, rfl⟩
    rw [Codec.decodeLoop_encodeList _ _ _ _ hstep inputRecords huri rfl, List.nil_append]

/-- A root record, then two records under one base path, the last one twice. -/
theorem decompile_compile_shortened :
    ([⟨['a'], 0⟩, ⟨['a', '/', 'b'], 1⟩, ⟨['a', '/', 'c'], 2⟩, ⟨['a', '/', 'c'], 3⟩] :
        List (VMethod ℕ)).length < 2 ^ 31 ∧
      (∀ r ∈ ([⟨['a'], 0⟩, ⟨['a', '/', 'b'], 1⟩, ⟨['a', '/', 'c'], 2⟩, ⟨['a', '/', 'c'], 3⟩] :
        List (VMethod ℕ)), uriOk r.uri = true) ∧
      decompile (compile [⟨['a'], 0⟩, ⟨['a', '/', 'b'], 1⟩, ⟨['a', '/', 'c'], 2⟩,
        ⟨['a', '/', 'c'], 3⟩] 0x0F) =
        some [⟨['a'], 0⟩, ⟨['a', '/', 'b'], 1⟩, ⟨['a', '/', 'c'], 2⟩, ⟨['a', '/', 'c'], 3⟩] :=
  ⟨by decide, by decide, decompile_compile _ 0x0F (by decide) (by decide)⟩

/-- `2 ^ 31` records of any kind, with any compile options, decompile successfully to
nothing: their count is written as the `int32_t` `-2 ^ 31`. -/
theorem decompile_compile_replicate_two_pow_31 (record : VMethod α) (compileOptions : ℕ) :
    decompile (compile (List.replicate (2 ^ 31) record) compileOptions) = some [] := by
  have hcount : toI32 (2 ^ 31) = -2 ^ 31 := by
    decide
  simp only [decompile, compile, readInt32, List.length_replicate, hcount]
  rfl

/-- `2 ^ 31` root records decompile to nothing, without optimization and with it. -/
theorem decompile_compile_two_pow_31 :
    uriOk ['a'] = true ∧
      decompile (compile (List.replicate (2 ^ 31) (⟨['a'], ()⟩ : VMethod Unit)) 0x00) = some [] ∧
      decompile (compile (List.replicate (2 ^ 31) (⟨['a'], ()⟩ : VMethod Unit)) 0x0F) = some [] :=
  ⟨by decide, decompile_compile_replicate_two_pow_31 _ _,
    decompile_compile_replicate_two_pow_31 _ _⟩

end Vledger

end TopChain

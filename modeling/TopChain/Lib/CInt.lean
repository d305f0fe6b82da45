import Mathlib.Tactic.Ring
import Mathlib.Tactic.Positivity

/-!
# Conversions between C++ integer types

C++ converts an integer to an unsigned type of `w` bits by reducing it modulo
`2 ^ w`, and to a signed type of `w` bits by reading that residue in two's
complement; a comparison between an `int` and a `uint32_t` first converts the
`int`, and arithmetic on fixed-width values wraps the same way.  These helpers
state the conversions on `ℤ` and `ℕ`, so that a model keeps the source's
arithmetic and proofs can discharge the conversions where the values are in
range.

## Main definitions

* `toUnsigned w x`, `toSigned w x` — an integer as a `w`-bit unsigned or signed value.
* `toU32`, `toI32`, `toU64`, `toI64` — the widths the code uses.
-/

namespace TopChain

/-- An integer converted to an unsigned `w`-bit type: its residue modulo `2 ^ w`. -/
def toUnsigned (w : ℕ) (x : ℤ) : ℕ := (x % 2 ^ w).toNat

/-- An integer converted to a signed `w`-bit type: its residue modulo `2 ^ w`, read in
two's complement. -/
def toSigned (w : ℕ) (x : ℤ) : ℤ :=
  if x % 2 ^ w < 2 ^ (w - 1) then x % 2 ^ w else x % 2 ^ w - 2 ^ w

/-- An `int` (or any integer) converted to `uint32_t`. -/
def toU32 (x : ℤ) : ℕ := toUnsigned 32 x

/-- A `uint32_t` converted to `int`. -/
def toI32 (x : ℕ) : ℤ := toSigned 32 x

/-- An integer converted to `uint64_t`. -/
def toU64 (x : ℤ) : ℕ := toUnsigned 64 x

/-- An integer converted to `int64_t`. -/
def toI64 (x : ℤ) : ℤ := toSigned 64 x

theorem toUnsigned_of_lt {w : ℕ} {x : ℤ} (h0 : 0 ≤ x) (h : x < 2 ^ w) :
    toUnsigned w x = x.toNat := by
  rw [toUnsigned, Int.emod_eq_of_lt h0 h]

theorem toUnsigned_lt (w : ℕ) (x : ℤ) : toUnsigned w x < 2 ^ w := by
  have hpos : (0 : ℤ) < 2 ^ w := by positivity
  have h1 : 0 ≤ x % 2 ^ w := Int.emod_nonneg x hpos.ne'
  have h2 : x % 2 ^ w < 2 ^ w := Int.emod_lt_of_pos x hpos
  rw [toUnsigned, ← Nat.cast_lt (α := ℤ), Int.toNat_of_nonneg h1]
  exact_mod_cast h2

theorem toSigned_of_lt {w : ℕ} {x : ℤ} (h0 : 0 ≤ x) (h : x < 2 ^ (w - 1)) :
    toSigned w x = x := by
  have hw : (2 : ℤ) ^ (w - 1) ≤ 2 ^ w := pow_le_pow_right₀ (by norm_num) (Nat.sub_le w 1)
  rw [toSigned, Int.emod_eq_of_lt h0 (by omega), if_pos h]

/-- A small non-negative integer survives the round trip through the unsigned type. -/
theorem toSigned_toUnsigned {w : ℕ} {x : ℤ} (h0 : 0 ≤ x) (h : x < 2 ^ (w - 1)) :
    toSigned w (toUnsigned w x) = x := by
  have hw : (2 : ℤ) ^ (w - 1) ≤ 2 ^ w := pow_le_pow_right₀ (by norm_num) (Nat.sub_le w 1)
  rw [toUnsigned_of_lt h0 (by omega), Int.toNat_of_nonneg h0, toSigned_of_lt h0 h]

/-- An `int` level stored in a `uint32_t` field and read back as an `int`. -/
theorem toI32_toU32 {x : ℤ} (h0 : 0 ≤ x) (h : x < 2 ^ 31) : toI32 (toU32 x) = x :=
  toSigned_toUnsigned h0 h

/-- A `uint32_t` field assigned from an `int`. -/
@[simp] theorem toNat_uInt32_ofInt (x : ℤ) : (UInt32.ofInt x).toNat = toU32 x := by
  rw [UInt32.ofInt, UInt32.toNat_ofNat']
  exact Nat.mod_eq_of_lt (toUnsigned_lt 32 x)

/-! ### `int64_t` -/

/-- A non-zero `uint64_t` cast to `int64_t` is non-zero. -/
theorem int64_ofNat_ne_zero {n : ℕ} (hn : n < 2 ^ 64) (h0 : n ≠ 0) : Int64.ofNat n ≠ 0 := by
  intro h
  have htoInt := congrArg Int64.toInt h
  rw [Int64.toInt_ofNat', Int64.toInt_zero, Int.bmod_def] at htoInt
  have hm : (n : ℤ) % (Int64.size : ℕ) = n :=
    Int.emod_eq_of_lt (by omega) (by simp only [Int64.size]; omega)
  rw [hm] at htoInt
  split_ifs at htoInt <;> simp only [Int64.size] at * <;> omega

/-- A non-negative `int64_t` cast to `uint64_t` keeps its value. -/
theorem int64_toNat_toUInt64 {x : Int64} (h : 0 ≤ x) : x.toUInt64.toNat = x.toInt.toNat :=
  Int64.toNat_toUInt64_of_le h

end TopChain

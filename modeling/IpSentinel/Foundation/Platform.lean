import Mathlib.Tactic

/-!
# The C platform

The widths of the integer types the program computes with, and the two answers of the platform
the source does not determine: what a shift of the constant `1` gives where C leaves it undefined,
and whether the allocator satisfies a request. An `int` has 32 bits throughout.
-/

set_option autoImplicit false

namespace IpSentinel.Foundation

/-- The largest `int`. -/
def intMax : Int := 2 ^ 31 - 1

/-- Conversion of an integer to a 32-bit `int`. -/
def toInt (x : Int) : Int := Int.bmod x (2 ^ 32)

theorem toInt_of_range {x : Int} (hlo : -2 ^ 31 ≤ x) (hhi : x < 2 ^ 31) : toInt x = x := by
  rw [toInt]
  exact Int.bmod_eq_of_le (by omega) (by omega)

/-- Conversion of an integer to a 32-bit `unsigned int`. -/
def toUInt (x : Int) : Nat := (x % 2 ^ 32).toNat

theorem toUInt_of_range {n : Nat} (h : n < 2 ^ 32) : toUInt (n : Int) = n := by
  rw [toUInt]
  omega

/-- A platform the program is compiled for. -/
structure Platform where
  /-- Bits of `size_t`. -/
  sizeBits : Nat
  /-- Bits of `long`. -/
  longBits : Nat
  longBits_ge : 32 ≤ longBits
  /-- The value of the `int` expression `1 << i`. -/
  intShl : Nat → Int
  /-- Below the sign bit the shift is the power of two. -/
  intShl_eq : ∀ i, i < 31 → intShl i = 2 ^ i
  /-- Whether `malloc` and `realloc` satisfy a request of that many bytes. -/
  grants : Nat → Bool

/-- Conversion of an integer to `size_t`. -/
def Platform.toSize (plat : Platform) (x : Int) : Nat := (x % 2 ^ plat.sizeBits).toNat

/-- The largest `long`. -/
def Platform.longMax (plat : Platform) : Int := 2 ^ (plat.longBits - 1) - 1

/-- The smallest `long`. -/
def Platform.longMin (plat : Platform) : Int := -2 ^ (plat.longBits - 1)

/-- The value of `1 << i` on a machine that takes the shift count modulo 32. -/
def shlMod32 (i : Nat) : Int := toInt (2 ^ (i % 32))

theorem shlMod32_of_lt {i : Nat} (h : i % 32 < 31) : shlMod32 i = 2 ^ (i % 32) := by
  have hlt : (2 : Int) ^ (i % 32) < 2 ^ 31 := pow_lt_pow_right₀ (by norm_num) h
  have hpos : (0 : Int) < 2 ^ (i % 32) := by positivity
  rw [shlMod32]
  apply toInt_of_range _ hlt
  omega

theorem shlMod32_of_last {i : Nat} (h : i % 32 = 31) : shlMod32 i = -2 ^ 31 := by
  rw [shlMod32, h]
  rfl

/-- Below the last position one less than the next shift has all bits up to this one. -/
theorem shlMod32_succ_sub_one {i : Nat} (h : i % 32 < 31) :
    toInt (shlMod32 (i + 1) - 1) = 2 ^ (i % 32 + 1) - 1 := by
  have hnext : (i + 1) % 32 = i % 32 + 1 := by omega
  rcases Nat.lt_or_ge (i % 32) 30 with hlt | hge
  · have hle : (2 : Int) ^ (i % 32 + 1) ≤ 2 ^ 30 := pow_le_pow_right₀ (by norm_num) hlt
    have hpos : (0 : Int) < 2 ^ (i % 32 + 1) := by positivity
    rw [shlMod32_of_lt (by omega), hnext]
    apply toInt_of_range <;> omega
  · -- the subtraction wraps around the smallest `int`
    have hlast : i % 32 = 30 := by omega
    rw [shlMod32_of_last (by omega), hlast]
    rfl

theorem shlMod32_eq (i : Nat) (h : i < 31) : shlMod32 i = 2 ^ i := by
  have hmod : i % 32 = i := Nat.mod_eq_of_lt (h.trans (by norm_num))
  rw [shlMod32_of_lt (by rwa [hmod]), hmod]

/-- A 64-bit machine with memory for every request. -/
def lp64 : Platform where
  sizeBits := 64
  longBits := 64
  longBits_ge := by decide
  intShl := shlMod32
  intShl_eq := shlMod32_eq
  grants _ := true

theorem lp64_intShl : lp64.intShl = shlMod32 := by
  simp only [lp64]

/-- A 32-bit machine with memory for every request. -/
def ilp32 : Platform where
  sizeBits := 32
  longBits := 32
  longBits_ge := le_rfl
  intShl := shlMod32
  intShl_eq := shlMod32_eq
  grants _ := true

end IpSentinel.Foundation

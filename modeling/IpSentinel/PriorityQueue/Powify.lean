import IpSentinel.PriorityQueue.Queue
import Mathlib.Order.Bounds.Basic

/-!
# The rounding of sizes

`powify` rounds the initial size of a queue up to `2 ^ k - 1`. Its loop runs over the bits of a
`size_t` and shifts the `int` constant `1`. This module says which of these shifts C defines, and
when the value is nevertheless the rounded one on a machine that takes the count modulo 32
(`powify_meets`).
-/

set_option autoImplicit false

namespace IpSentinel.PriorityQueue

open Foundation

/-- The counts of the shifts that `powifyLoop` evaluates. -/
def powifyLoopShifts (plat : Platform) (val : Nat) : Nat → List Nat
  | 0 => []
  | i + 1 =>
    if val &&& plat.toSize (plat.intShl i) ≠ 0 then
      if i = plat.sizeBits - 1 then [i] else [i, i + 1]
    else i :: powifyLoopShifts plat val i

/-- The counts of the shifts that `powify` evaluates. -/
def powifyShifts (plat : Platform) (val : Nat) : List Nat := powifyLoopShifts plat val plat.sizeBits

/-- C defines `1 << n` for an `int` when the power of two is an `int`. -/
def ShiftDefined (n : Nat) : Prop := (2 : Int) ^ n ≤ intMax

instance (n : Nat) : Decidable (ShiftDefined n) := inferInstanceAs (Decidable (_ ≤ _))

/-- The numbers of the form `2 ^ k - 1` with `1 ≤ k` that are not less than `val`. -/
def roundings (val : Nat) : Set Nat := {m | (∃ k, 1 ≤ k ∧ m = 2 ^ k - 1) ∧ val ≤ m}

/-- `r` is the least rounding of `val`, or `val` itself when its top bit is set. -/
def Rounded (plat : Platform) (val r : Nat) : Prop :=
  (val.testBit (plat.sizeBits - 1) = true → r = val) ∧
    (val.testBit (plat.sizeBits - 1) = false → IsLeast (roundings val) r)

variable {plat : Platform}

/-! ## Shifts -/

/-- The first shift reaches the top bit. -/
theorem mem_powifyLoopShifts (plat : Platform) (val i : Nat) :
    i ∈ powifyLoopShifts plat val (i + 1) := by
  rw [powifyLoopShifts]
  split_ifs <;> exact List.mem_cons_self

theorem lt_of_mem_powifyLoopShifts {val i n : Nat} (hi : i ≤ plat.sizeBits)
    (hn : n ∈ powifyLoopShifts plat val i) : n < plat.sizeBits := by
  induction i with
  | zero => cases hn
  | succ i ih =>
    rw [powifyLoopShifts] at hn
    split_ifs at hn with hbit htop
    · rw [List.mem_singleton.1 hn]
      exact hi
    · -- the shift by one more stays below the width, as bit `i` is not the top bit
      rcases List.mem_pair.1 hn with rfl | rfl <;> omega
    · rcases List.mem_cons.1 hn with rfl | hn
      · exact hi
      · exact ih (Nat.le_of_succ_le hi) hn

theorem not_shiftDefined_of_ge {n : Nat} (h : 31 ≤ n) : ¬ ShiftDefined n := by
  have hpow : (2 : Int) ^ 31 ≤ 2 ^ n := pow_le_pow_right₀ (by norm_num) h
  rw [ShiftDefined, intMax]
  omega

theorem top_mem_powifyShifts (hwidth : 0 < plat.sizeBits) (val : Nat) :
    plat.sizeBits - 1 ∈ powifyShifts plat val := by
  have h := mem_powifyLoopShifts plat val (plat.sizeBits - 1)
  rwa [Nat.sub_add_cancel hwidth] at h

/-! ## The value -/

theorem isLeast_roundings_zero : IsLeast (roundings 0) 1 := by
  refine ⟨⟨⟨1, le_rfl, rfl⟩, Nat.zero_le _⟩, ?_⟩
  rintro m ⟨⟨k, hk, rfl⟩, -⟩
  have h : 2 ^ 1 ≤ 2 ^ k := Nat.pow_le_pow_right (by norm_num) hk
  omega

theorem isLeast_roundings {val j : Nat} (hlo : 2 ^ j ≤ val) (hhi : val < 2 ^ (j + 1)) :
    IsLeast (roundings val) (2 ^ (j + 1) - 1) := by
  refine ⟨⟨⟨j + 1, Nat.le_add_left 1 j, rfl⟩, Nat.le_sub_one_of_lt hhi⟩, ?_⟩
  rintro m ⟨⟨k, -, rfl⟩, hle⟩
  -- a smaller exponent gives less than `2 ^ j`
  have hjk : j < k := by
    by_contra hkj
    have h : 2 ^ k ≤ 2 ^ j := Nat.pow_le_pow_right (by norm_num) (not_lt.1 hkj)
    have hpos : 0 < 2 ^ k := by positivity
    omega
  exact Nat.sub_le_sub_right (Nat.pow_le_pow_right (by norm_num) hjk) 1

theorem powifyLoop_zero (plat : Platform) (i : Nat) : powifyLoop plat 0 i = 1 := by
  induction i with
  | zero => rfl
  | succ i ih => rw [powifyLoop, Nat.zero_and, if_neg (not_not.2 rfl), ih]

theorem toSize_of_lt {n : Nat} (h : n < 2 ^ plat.sizeBits) : plat.toSize n = n := by
  rw [Platform.toSize, ← Nat.cast_ofNat, ← Nat.cast_pow, ← Int.natCast_mod, Int.toNat_natCast,
    Nat.mod_eq_of_lt h]

/-- A mask of all bits from `j` on shows whether a number is at least `2 ^ j`. -/
theorem and_mask_ne_zero {val j w : Nat} (h : val < 2 ^ w) :
    val &&& (2 ^ (w - j) - 1) * 2 ^ j ≠ 0 ↔ 2 ^ j ≤ val := by
  have hmask : ∀ i, ((2 ^ (w - j) - 1) * 2 ^ j).testBit i = true ↔ j ≤ i ∧ i < w := by
    intro i
    rw [Nat.testBit_mul_two_pow, Nat.testBit_two_pow_sub_one, Bool.and_eq_true, decide_eq_true_eq,
      decide_eq_true_eq]
    exact and_congr_right fun hji => Nat.sub_lt_sub_iff_right hji
  constructor
  · intro hne
    obtain ⟨i, hi⟩ := Nat.exists_testBit_of_ne_zero hne
    rw [Nat.testBit_and, Bool.and_eq_true, hmask] at hi
    exact (Nat.pow_le_pow_right (by norm_num) hi.2.1).trans (Nat.ge_two_pow_of_testBit hi.1)
  · -- a number that large has a bit from `j` on, which the mask shows
    intro hle hzero
    obtain ⟨i, hji, hi⟩ := Nat.exists_ge_and_testBit_of_ge_two_pow hle
    have hiw : i < w := by
      by_contra hwi
      have hlt := h.trans_le (Nat.pow_le_pow_right (by norm_num) (not_lt.1 hwi))
      rw [Nat.testBit_lt_two_pow hlt] at hi
      cases hi
    have hand : (val &&& (2 ^ (w - j) - 1) * 2 ^ j).testBit i = true := by
      rw [Nat.testBit_and, Bool.and_eq_true, hmask]
      exact ⟨hi, hji, hiw⟩
    rw [hzero, Nat.zero_testBit] at hand
    cases hand

/-- The loop from a bit below the sign bit of an `int`, `32 * c` places up. -/
theorem powifyLoop_isLeast (hshl : plat.intShl = shlMod32) {c j val : Nat} (hj : j ≤ 31)
    (hbits : 32 * c + j < plat.sizeBits) (hval : val < 2 ^ j) :
    IsLeast (roundings val) (powifyLoop plat val (32 * c + j)) := by
  induction j with
  | zero =>
    obtain rfl := Nat.lt_one_iff.1 hval
    rw [powifyLoop_zero]
    exact isLeast_roundings_zero
  | succ j ih =>
    have hmod : (32 * c + j) % 32 = j := by
      rw [Nat.mul_add_mod, Nat.mod_eq_of_lt (by omega)]
    have hlt : (32 * c + j) % 32 < 31 := by rwa [hmod]
    have hpow : 2 ^ (j + 1) ≤ 2 ^ plat.sizeBits := Nat.pow_le_pow_right (by norm_num) (by omega)
    -- below the sign bit of an `int` the shifts give the bit and the mask that are meant
    have hbit : plat.toSize (2 ^ j) = (2 ^ (j + 1 - j) - 1) * 2 ^ j := by
      have h : 2 ^ j < 2 ^ plat.sizeBits := (Nat.pow_lt_pow_succ (by norm_num)).trans_le hpow
      rw [Nat.add_sub_cancel_left, pow_one, Nat.add_sub_cancel 1 1, Nat.one_mul]
      rw [← toSize_of_lt h, Nat.cast_pow, Nat.cast_ofNat]
    have hmask : plat.toSize (2 ^ (j + 1) - 1) = 2 ^ (j + 1) - 1 := by
      have h : 2 ^ (j + 1) - 1 < 2 ^ plat.sizeBits := (Nat.sub_one_lt (by positivity)).trans_le hpow
      rw [← toSize_of_lt h, Nat.cast_pred (by positivity), Nat.cast_pow, Nat.cast_ofNat]
    rw [← Nat.add_assoc, powifyLoop, hshl, shlMod32_succ_sub_one hlt, shlMod32_of_lt hlt, hmod,
      hbit, hmask]
    simp only [and_mask_ne_zero hval]
    split_ifs with hle htop
    · omega
    · exact isLeast_roundings hle hval
    · exact ih (Nat.le_of_succ_le hj) (Nat.lt_of_succ_lt hbits) (not_le.1 hle)

section
variable (hshl : plat.intShl = shlMod32) (hwidth : plat.sizeBits = 32 ∨ plat.sizeBits = 64)
  {val : Nat} (hval : val < 2 ^ plat.sizeBits)
include hshl hwidth hval

/-- The test of the top bit also meets the bits that the sign extends to. -/
theorem powify_eq : powify plat val =
    if 2 ^ 31 ≤ val then val else powifyLoop plat val (plat.sizeBits - 1) := by
  have hlast : (plat.sizeBits - 1) % 32 = 31 := by omega
  have hbit : plat.toSize (-2 ^ 31) = (2 ^ (plat.sizeBits - 31) - 1) * 2 ^ 31 := by
    rcases hwidth with h | h <;> rw [Platform.toSize, h] <;> rfl
  have hstep : powify plat val = powifyLoop plat val (plat.sizeBits - 1 + 1) := by
    rw [powify, Nat.sub_add_cancel (by omega)]
  rw [hstep, powifyLoop, hshl, shlMod32_of_last hlast, hbit]
  simp only [and_mask_ne_zero hval, if_true]

theorem powify_of_le (h : 2 ^ 31 ≤ val) : powify plat val = val := by
  rw [powify_eq hshl hwidth hval, if_pos h]

theorem powify_isLeast (h : val < 2 ^ 31) : IsLeast (roundings val) (powify plat val) := by
  rw [powify_eq hshl hwidth hval, if_neg (not_le.2 h)]
  obtain ⟨c, hc⟩ : ∃ c, plat.sizeBits - 1 = 32 * c + 31 := ⟨plat.sizeBits / 32 - 1, by omega⟩
  rw [hc]
  exact powifyLoop_isLeast hshl le_rfl (by omega) h

/-- On a machine that takes the count modulo 32, numbers from `2 ^ 31` on are not rounded. -/
theorem rounded_powify_iff : Rounded plat val (powify plat val) ↔
    plat.sizeBits = 32 ∨ val < 2 ^ 31 ∨ val.testBit (plat.sizeBits - 1) = true ∨
      ∃ k, val = 2 ^ k - 1 := by
  rcases Nat.lt_or_ge val (2 ^ 31) with hlt | hge
  · refine iff_of_true ⟨fun htop => ?_, fun _ => ?_⟩ (Or.inr (Or.inl hlt))
    · have hle := (Nat.ge_two_pow_of_testBit htop).trans_lt hlt
      exact absurd ((Nat.pow_lt_pow_iff_right (by norm_num)).1 hle) (by omega)
    · exact powify_isLeast hshl hwidth hval hlt
  · rw [powify_of_le hshl hwidth hval hge]
    constructor
    · rintro ⟨-, hleast⟩
      cases htop : val.testBit (plat.sizeBits - 1) with
      | true => exact Or.inr (Or.inr (Or.inl rfl))
      | false =>
        obtain ⟨k, -, hk⟩ := (hleast htop).1.1
        exact Or.inr (Or.inr (Or.inr ⟨k, hk⟩))
    · intro h
      refine ⟨fun _ => rfl, fun htop => ?_⟩
      rcases h with h32 | hlt | htop' | ⟨k, hk⟩
      · -- with 32 bits the top bit is the one that is set
        rw [h32] at htop hval
        obtain ⟨i, hi, hbit⟩ := Nat.exists_ge_and_testBit_of_ge_two_pow hge
        have hi32 := (Nat.ge_two_pow_of_testBit hbit).trans_lt hval
        have hlt := (Nat.pow_lt_pow_iff_right (by norm_num)).1 hi32
        obtain rfl : i = 31 := by omega
        rw [hbit] at htop
        cases htop
      · exact absurd hlt (not_lt.2 hge)
      · rw [htop] at htop'
        cases htop'
      · -- the number is a power of two less one already
        have hk0 : 1 ≤ k := by
          by_contra h0
          obtain rfl : k = 0 := by omega
          omega
        exact ⟨⟨⟨k, hk0, hk⟩, le_rfl⟩, fun m hm => hm.2⟩

end

/-- Whatever the argument, `powify` evaluates a shift that C leaves undefined, as the constant has
the type `int`. Where the machine takes the count modulo 32, the counts stay below 32 exactly when
`size_t` has 32 bits, and the value is exact there; with 64 bits it is for arguments below
`2 ^ 31`, for those with the top bit and for those that are rounded already. -/
theorem powify_meets (plat : Platform) (hwidth : plat.sizeBits = 32 ∨ plat.sizeBits = 64)
    (val : Nat) (hval : val < 2 ^ plat.sizeBits) :
    ¬ ((∀ n ∈ powifyShifts plat val, ShiftDefined n) ∧ Rounded plat val (powify plat val)) ∧
      (plat.intShl = shlMod32 →
        ((∀ n ∈ powifyShifts plat val, n < 32) ↔ plat.sizeBits = 32) ∧
        (Rounded plat val (powify plat val) ↔
          plat.sizeBits = 32 ∨ val < 2 ^ 31 ∨ val.testBit (plat.sizeBits - 1) = true ∨
            ∃ k, val = 2 ^ k - 1)) := by
  have hpos : 0 < plat.sizeBits := by omega
  have htop := top_mem_powifyShifts hpos val
  refine ⟨?_, fun hshl => ⟨?_, rounded_powify_iff hshl hwidth hval⟩⟩
  · rintro ⟨hdefined, -⟩
    exact not_shiftDefined_of_ge (by omega) (hdefined _ htop)
  · constructor
    · intro hcounts
      have hlt := hcounts _ htop
      omega
    · intro h32 n hn
      rw [← h32]
      exact lt_of_mem_powifyLoopShifts le_rfl hn

theorem two_pow_lt_lp64 {k : Nat} (h : k < 64) : 2 ^ k < 2 ^ lp64.sizeBits :=
  Nat.pow_lt_pow_right (by norm_num) h

/-- The rule at `2 ^ 32`, which is not rounded to `2 ^ 33 - 1`. -/
theorem powify_meets_large :
    ¬ ((∀ n ∈ powifyShifts lp64 (2 ^ 32), ShiftDefined n) ∧
        Rounded lp64 (2 ^ 32) (powify lp64 (2 ^ 32))) ∧
      ((∀ n ∈ powifyShifts lp64 (2 ^ 32), n < 32) ↔ lp64.sizeBits = 32) := by
  have h := powify_meets lp64 (Or.inr rfl) (2 ^ 32) (two_pow_lt_lp64 (by norm_num))
  exact ⟨h.1, (h.2 lp64_intShl).1⟩

/-- With 64 bits the first count is not below 32, and `2 ^ 32` stays as it is. With 32 bits the
first shift is the one into the sign bit. -/
theorem powify_two_pow :
    63 ∈ powifyShifts lp64 (2 ^ 32) ∧ ¬ Rounded lp64 (2 ^ 32) (powify lp64 (2 ^ 32)) ∧
      31 ∈ powifyShifts ilp32 (2 ^ 32 - 1) ∧ ¬ ShiftDefined 31 := by
  refine ⟨top_mem_powifyShifts (by decide) _, ?_, top_mem_powifyShifts (by decide) _,
    not_shiftDefined_of_ge le_rfl⟩
  rw [powify_of_le lp64_intShl (Or.inr rfl) (two_pow_lt_lp64 (by norm_num)) (by norm_num)]
  rintro ⟨-, hleast⟩
  obtain ⟨⟨k, -, hk⟩, -⟩ := (hleast (by decide)).1
  -- no power of two lies strictly between two neighbours
  have hlo : 2 ^ 32 < 2 ^ k := by omega
  have hhi : 2 ^ k < 2 ^ 33 := by omega
  have hk32 := (Nat.pow_lt_pow_iff_right (by norm_num)).1 hlo
  have hk33 := (Nat.pow_lt_pow_iff_right (by norm_num)).1 hhi
  omega

end IpSentinel.PriorityQueue

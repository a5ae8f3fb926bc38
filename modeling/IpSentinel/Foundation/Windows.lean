import Mathlib.Data.Finset.Image
import Mathlib.Tactic

/-!
# Rotating windows

A window of `k` members of a sequence that repeats itself after `m` members, and takes different
values before that. When the window moves on by one member, the oldest value leaves it and a new one
comes in (`window_succ`); the windows that begin in a stretch of `d` more members are in one of
`k + d` members (`window_subset`).
-/

set_option autoImplicit false

namespace IpSentinel.Foundation

universe u

variable {α : Type u} {f : Nat → α} {m k n : Nat}

/-- The sequence takes `m` different values, again and again. -/
def Cyclic (f : Nat → α) (m : Nat) : Prop := ∀ a b, f a = f b ↔ a % m = b % m

/-- Two members of one turn are equal only at the same place. -/
theorem Cyclic.eq_of_eq (hf : Cyclic f m) {i j : Nat} (hi : i < m) (hj : j < m)
    (h : f (n + i) = f (n + j)) : i = j := by
  have hmod : n + i ≡ n + j [MOD m] := (hf _ _).1 h
  exact Nat.ModEq.eq_of_lt_of_lt hmod.add_left_cancel' hi hj

variable [DecidableEq α]

/-- The `k` members of a sequence from `n` on. -/
def window (f : Nat → α) (k n : Nat) : Finset α := (Finset.range k).image fun i => f (n + i)

theorem mem_window {x : α} : x ∈ window f k n ↔ ∃ i < k, f (n + i) = x := by
  simp only [window, Finset.mem_image, Finset.mem_range]

theorem card_window_le : (window f k n).card ≤ k :=
  Finset.card_image_le.trans (Finset.card_range k).le

theorem Cyclic.card_window (hf : Cyclic f m) (hk : k ≤ m) : (window f k n).card = k := by
  rw [window, Finset.card_image_of_injOn, Finset.card_range]
  intro i hi j hj h
  have hi := (Finset.mem_range.1 hi).trans_le hk
  have hj := (Finset.mem_range.1 hj).trans_le hk
  exact hf.eq_of_eq hi hj h

/-- The new value is not in the window yet. -/
theorem Cyclic.not_mem_window (hf : Cyclic f m) (hk : k < m) : f (n + k) ∉ window f k n := by
  intro h
  obtain ⟨i, hi, heq⟩ := mem_window.1 h
  exact hi.ne (hf.eq_of_eq (hi.trans hk) hk heq)

/-- The oldest value leaves the window, and a new one comes in. -/
theorem Cyclic.window_succ (hf : Cyclic f m) (hk : k < m) (hpos : 0 < k) :
    window f k (n + 1) = insert (f (n + k)) ((window f k n).erase (f n)) := by
  ext x
  rw [Finset.mem_insert, Finset.mem_erase, mem_window, mem_window]
  constructor
  · rintro ⟨i, hi, rfl⟩
    rw [Nat.add_assoc, Nat.add_comm 1 i]
    by_cases hlast : i + 1 = k
    · exact Or.inl (by rw [hlast])
    · refine Or.inr ⟨fun h => ?_, i + 1, by omega, rfl⟩
      have hzero := hf.eq_of_eq (j := 0) (by omega) (by omega) h
      omega
  · rintro (rfl | ⟨hne, i, hi, rfl⟩)
    · exact ⟨k - 1, by omega, by congr 1; omega⟩
    · cases i with
      | zero => exact absurd rfl hne
      | succ i => exact ⟨i, by omega, by congr 1; omega⟩

/-- A window that begins a little later is in a larger one. -/
theorem window_subset {d n' : Nat} (hle : n ≤ n') (hd : n' ≤ n + d) :
    window f k n' ⊆ window f (k + d) n := by
  intro x hx
  obtain ⟨i, hi, rfl⟩ := mem_window.1 hx
  exact mem_window.2 ⟨n' - n + i, by omega, by congr 1; omega⟩

end IpSentinel.Foundation

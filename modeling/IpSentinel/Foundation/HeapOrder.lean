import IpSentinel.Foundation.CompareFunc
import Mathlib.Data.Finset.Image
import Mathlib.Data.Multiset.MapFold
import Mathlib.Data.Multiset.Range
import Mathlib.Logic.Function.Basic
import Mathlib.Tactic

/-!
# Binary heaps in a block of cells

A binary heap keeps a complete binary tree in consecutive cells: the children of cell `i` are the
cells `2 * i + 1` and `2 * i + 2`. The memory is a function from cell numbers to elements and the
live part is the cells below a count.

- `cells d n` is the multiset of the first `n` elements; `cells_update` says what a write does to
  it.
- `Rearranges n d e` says that the first `n` elements have changed places among each other and that
  nothing else has happened to the block; an exchange of two cells is the elementary case.
- `HeapOrdered` is the heap order, `HeapOrdered.root` its purpose: the root is a greatest element.
- `UpHole` and `DownFrom` are the states of the two repair loops, sift-up with a moving hole and
  sift-down by swapping, with one lemma for a step of the loop and one for its end.
-/

set_option autoImplicit false

namespace IpSentinel.Foundation

universe u

variable {α : Type u}

/-! ## The implicit tree -/

/-- `c` is a child of `p`. -/
def IsChild (c p : Nat) : Prop := c = 2 * p + 1 ∨ c = 2 * p + 2

theorem IsChild.lt {c p : Nat} (h : IsChild c p) : p < c := by
  rw [IsChild] at h
  omega

theorem IsChild.pos {c p : Nat} (h : IsChild c p) : 0 < c := by
  rw [IsChild] at h
  omega

theorem IsChild.unique {c p q : Nat} (hp : IsChild c p) (hq : IsChild c q) : p = q := by
  rw [IsChild] at hp hq
  omega

theorem exists_parent {c : Nat} (h : 0 < c) : IsChild c ((c - 1) / 2) := by
  rw [IsChild]
  omega

/-- `j` lies in the subtree with root `i`. -/
inductive InSubtree (i : Nat) : Nat → Prop
  | root : InSubtree i i
  | child {p c : Nat} : InSubtree i p → IsChild c p → InSubtree i c

theorem InSubtree.le {i j : Nat} (h : InSubtree i j) : i ≤ j := by
  induction h with
  | root => exact le_rfl
  | child _ hc ih => exact ih.trans hc.lt.le

theorem InSubtree.trans {i j k : Nat} (hij : InSubtree i j) (hjk : InSubtree j k) :
    InSubtree i k := by
  induction hjk with
  | root => exact hij
  | child _ hc ih => exact ih.child hc

theorem inSubtree_zero (j : Nat) : InSubtree 0 j := by
  induction j using Nat.strong_induction_on with
  | _ j ih =>
    rcases Nat.eq_zero_or_pos j with rfl | hj
    · exact .root
    · have hc := exists_parent hj
      exact (ih _ hc.lt).child hc

/-- What lies below `i` lies below a child of `i`. -/
theorem InSubtree.eq_or_below {i j : Nat} (h : InSubtree i j) :
    j = i ∨ ∃ c, IsChild c i ∧ InSubtree c j := by
  induction h with
  | root => exact Or.inl rfl
  | @child p c _ hc ih =>
    rcases ih with rfl | ⟨k, hk, hkp⟩
    · exact Or.inr ⟨c, hc, .root⟩
    · exact Or.inr ⟨k, hk, hkp.child hc⟩

/-- The cells above a child are the child itself and the cells above its parent. -/
theorem inSubtree_child_iff {i p c : Nat} (hc : IsChild c p) :
    InSubtree i c ↔ i = c ∨ InSubtree i p := by
  constructor
  · intro h
    cases h with
    | root => exact Or.inl rfl
    | child hq hqc =>
      rw [hqc.unique hc] at hq
      exact Or.inr hq
  · rintro (rfl | h)
    · exact .root
    · exact h.child hc

/-- The cells above `j` are reached from it by going to the parent. -/
theorem inSubtree_iff_iterate {i j : Nat} :
    InSubtree i j ↔ ∃ k, k ≤ j ∧ (fun c => (c - 1) / 2)^[k] j = i := by
  constructor
  · intro h
    induction h with
    | root => exact ⟨0, Nat.zero_le _, rfl⟩
    | @child p c _ hc ih =>
      obtain ⟨k, hk, hki⟩ := ih
      have hlt := hc.lt
      refine ⟨k + 1, by omega, ?_⟩
      rw [Function.iterate_succ_apply, (exists_parent hc.pos).unique hc, hki]
  · rintro ⟨k, -, hki⟩
    induction k generalizing j with
    | zero =>
      rw [← hki]
      exact .root
    | succ k ih =>
      rw [Function.iterate_succ_apply] at hki
      rcases Nat.eq_zero_or_pos j with rfl | hj
      · exact ih hki
      · exact (ih hki).child (exists_parent hj)

instance (i j : Nat) : Decidable (InSubtree i j) :=
  decidable_of_iff _ inSubtree_iff_iterate.symm

/-! ## The elements in the live cells -/

/-- The elements in the first `n` cells, with their multiplicities. -/
def cells (d : Nat → α) (n : Nat) : Multiset α := (Multiset.range n).map d

@[simp] theorem cells_zero (d : Nat → α) : cells d 0 = 0 := rfl

@[simp] theorem cells_succ (d : Nat → α) (n : Nat) : cells d (n + 1) = d n ::ₘ cells d n := by
  simp [cells, Multiset.range_succ]

theorem mem_cells {d : Nat → α} {n : Nat} {x : α} : x ∈ cells d n ↔ ∃ i, i < n ∧ d i = x := by
  simp [cells]

theorem mem_cells_of_lt {d : Nat → α} {n i : Nat} (h : i < n) : d i ∈ cells d n :=
  mem_cells.2 ⟨i, h, rfl⟩

@[simp] theorem card_cells (d : Nat → α) (n : Nat) : (cells d n).card = n := by
  simp [cells]

theorem cells_congr {d e : Nat → α} {n : Nat} (h : ∀ i, i < n → d i = e i) :
    cells d n = cells e n :=
  Multiset.map_congr rfl fun i hi => h i (Multiset.mem_range.1 hi)

theorem cells_update_of_le {d : Nat → α} {n i : Nat} (h : n ≤ i) (v : α) :
    cells (Function.update d i v) n = cells d n :=
  cells_congr fun j hj => Function.update_of_ne (by omega) v d

/-- A write replaces one occurrence of the overwritten element. -/
theorem cells_update {d : Nat → α} {n i : Nat} (h : i < n) (v : α) :
    d i ::ₘ cells (Function.update d i v) n = v ::ₘ cells d n := by
  induction n with
  | zero => omega
  | succ n ih =>
    rw [cells_succ, cells_succ]
    -- the write is to the last cell or to an earlier one
    by_cases hi : i = n
    · subst hi
      rw [Function.update_self, cells_update_of_le le_rfl, Multiset.cons_swap]
    · rw [Function.update_of_ne (Ne.symm hi), Multiset.cons_swap, ih (by omega),
        Multiset.cons_swap]

/-- Exchanging the elements of the cells `i` and `j`. -/
def swapCells (d : Nat → α) (i j : Nat) : Nat → α :=
  Function.update (Function.update d i (d j)) j (d i)

@[simp] theorem swapCells_right (d : Nat → α) (i j : Nat) : swapCells d i j j = d i := by
  simp [swapCells]

theorem swapCells_left (d : Nat → α) (i j : Nat) : swapCells d i j i = d j := by
  rw [swapCells]
  by_cases h : i = j
  · subst h
    simp
  · simp [Function.update_of_ne h]

theorem swapCells_of_ne (d : Nat → α) {i j k : Nat} (hi : k ≠ i) (hj : k ≠ j) :
    swapCells d i j k = d k := by
  simp [swapCells, Function.update_of_ne hi, Function.update_of_ne hj]

/-! ## Rearrangements of the live cells -/

/-- `e` is `d` with the elements of the first `n` cells in other places among these cells, each of
them once, and every cell from `n` on as it was. -/
def Rearranges (n : Nat) (d e : Nat → α) : Prop :=
  ∃ σ : Equiv.Perm Nat, (∀ i, n ≤ i → σ i = i) ∧ e = d ∘ σ

theorem Rearranges.refl (n : Nat) (d : Nat → α) : Rearranges n d d :=
  ⟨1, fun _ _ => rfl, rfl⟩

theorem Rearranges.trans {n : Nat} {d e f : Nat → α} (h : Rearranges n d e)
    (h' : Rearranges n e f) : Rearranges n d f := by
  obtain ⟨σ, hσ, rfl⟩ := h
  obtain ⟨τ, hτ, rfl⟩ := h'
  refine ⟨σ * τ, ?_, rfl⟩
  intro i hi
  rw [Equiv.Perm.mul_apply, hτ i hi, hσ i hi]

theorem rearranges_swapCells (d : Nat → α) {n i j : Nat} (hi : i < n) (hj : j < n) :
    Rearranges n d (swapCells d i j) := by
  refine ⟨Equiv.swap i j, ?_, ?_⟩
  · intro k hk
    exact Equiv.swap_apply_of_ne_of_ne (by omega) (by omega)
  · funext k
    rw [Function.comp_apply]
    rcases eq_or_ne k j with rfl | hkj
    · rw [swapCells_right, Equiv.swap_apply_right]
    · rcases eq_or_ne k i with rfl | hki
      · rw [swapCells_left, Equiv.swap_apply_left]
      · rw [swapCells_of_ne d hki hkj, Equiv.swap_apply_of_ne_of_ne hki hkj]

/-- A rearrangement keeps the elements with their multiplicities. -/
theorem Rearranges.cells_eq {n : Nat} {d e : Nat → α} (h : Rearranges n d e) :
    cells e n = cells d n := by
  obtain ⟨σ, hσ, rfl⟩ := h
  have hmoved : { i | σ i ≠ i } ⊆ (Finset.range n : Set Nat) := by
    intro i hi
    rw [Finset.coe_range, Set.mem_Iio]
    by_contra hle
    exact hi (hσ i (not_lt.1 hle))
  -- the permutation maps the live cells onto themselves
  have hrange : (Multiset.range n).map σ = Multiset.range n :=
    congrArg Finset.val (Finset.map_perm hmoved)
  rw [cells, cells, ← Multiset.map_map, hrange]

/-! ## The heap order -/

variable {cmp : CompareFunc α}

/-- No live element compares greater than its parent. -/
def HeapOrdered (cmp : CompareFunc α) (d : Nat → α) (n : Nat) : Prop :=
  ∀ p c, IsChild c p → c < n → ¬ 0 < cmp (d c) (d p)

theorem heapOrdered_zero (d : Nat → α) : HeapOrdered cmp d 0 := by
  intro p c _ hc
  omega

theorem HeapOrdered.mono {d : Nat → α} {n m : Nat} (h : HeapOrdered cmp d n) (hmn : m ≤ n) :
    HeapOrdered cmp d m :=
  fun p c hpc hc => h p c hpc (by omega)

/-- In a heap every element is at least as great as the elements below it in the tree. -/
theorem HeapOrdered.subtree {d : Nat → α} {n : Nat} (h : HeapOrdered cmp d n)
    (ho : TotalPreorderOn cmp {x | x ∈ cells d n}) {i j : Nat} (hij : InSubtree i j)
    (hj : j < n) : cmp (d j) (d i) ≤ 0 := by
  -- induction down the path from `i` to `j`
  induction hij with
  | root => exact ho.refl (mem_cells_of_lt hj)
  | @child p c hp hc ih =>
    have hpn : p < n := by have := hc.lt; omega
    have hin : i < n := by have := hp.le; omega
    exact ho.trans _ (mem_cells_of_lt hj) _ (mem_cells_of_lt hpn) _ (mem_cells_of_lt hin)
      (not_lt.1 (h p c hc hj)) (ih hpn)

/-- The root of a heap is a greatest element. -/
theorem HeapOrdered.root {d : Nat → α} {n : Nat} (h : HeapOrdered cmp d n)
    (ho : TotalPreorderOn cmp {x | x ∈ cells d n}) {x : α} (hx : x ∈ cells d n) :
    cmp x (d 0) ≤ 0 := by
  obtain ⟨j, hj, rfl⟩ := mem_cells.1 hx
  exact h.subtree ho (inSubtree_zero j) hj

/-! ## Sift-up: a hole that moves to the root -/

/-- Sift-up has moved the hole of a block of `n` cells to cell `i`: the pairs off the hole are in
order, and the children of the hole are not greater than its parent nor than the new element. -/
structure UpHole (cmp : CompareFunc α) (d : Nat → α) (n i : Nat) (key : α) : Prop where
  hole_lt : i < n
  off_hole : ∀ p c, IsChild c p → c < n → c ≠ i → p ≠ i → ¬ 0 < cmp (d c) (d p)
  grand : ∀ p c, IsChild i p → IsChild c i → c < n → cmp (d c) (d p) ≤ 0
  below : ∀ c, IsChild c i → c < n → cmp (d c) key ≤ 0

/-- A heap of `n` elements with one cell more has a hole in the new cell. -/
theorem HeapOrdered.upHole {d : Nat → α} {n : Nat} (h : HeapOrdered cmp d n) (key : α) :
    UpHole cmp d (n + 1) n key where
  hole_lt := by omega
  off_hole p c hpc hc hcn _ := h p c hpc (by omega)
  grand p c _ hc hcn := by have := hc.lt; omega
  below c hc hcn := by have := hc.lt; omega

/-- One step of sift-up: the parent of the hole is less than the new element and moves down. -/
theorem UpHole.step {d : Nat → α} {n i p : Nat} {key : α} {S : Set α}
    (h : UpHole cmp d n i key) (ho : TotalPreorderOn cmp S) (hS : ∀ j, j < n → j ≠ i → d j ∈ S)
    (hkey : key ∈ S) (hp : IsChild i p) (hlt : cmp (d p) key < 0) :
    UpHole cmp (Function.update d i (d p)) n p key := by
  have hpi := hp.lt
  have hin := h.hole_lt
  have hpS : d p ∈ S := hS p (by omega) (by omega)
  have hsame : ∀ c, c ≠ i → Function.update d i (d p) c = d c :=
    fun c hc => Function.update_of_ne hc _ _
  -- the other child of `p` is not greater than `p`, hence not greater than the new element
  have hsib : ∀ c, IsChild c p → c < n → c ≠ i → cmp (d c) (d p) ≤ 0 :=
    fun c hc hcn hci => not_lt.1 (h.off_hole p c hc hcn hci (by omega))
  refine ⟨by omega, ?_, ?_, ?_⟩
  · -- the old hole now holds the element of `p`
    intro q c hqc hcn hcp hqp
    rcases eq_or_ne c i with rfl | hci
    · exact absurd (hqc.unique hp) hqp
    · rw [hsame c hci]
      rcases eq_or_ne q i with rfl | hqi
      · rw [Function.update_self]
        exact not_lt.2 (h.grand p c hp hqc hcn)
      · rw [hsame q hqi]
        exact h.off_hole q c hqc hcn hci hqi
  · -- the children of the new hole `p`, against the parent of `p`
    intro q c hq hc hcn
    have hqp := hq.lt
    rw [hsame q (by omega)]
    have hpq : cmp (d p) (d q) ≤ 0 := not_lt.1 (h.off_hole q p hq (by omega) (by omega) (by omega))
    rcases eq_or_ne c i with rfl | hci
    · rwa [Function.update_self]
    · rw [hsame c hci]
      exact ho.trans _ (hS c hcn hci) _ hpS _ (hS q (by omega) (by omega)) (hsib c hc hcn hci) hpq
  · -- the children of the new hole, against the new element
    intro c hc hcn
    rcases eq_or_ne c i with rfl | hci
    · rw [Function.update_self]
      exact hlt.le
    · rw [hsame c hci]
      exact ho.trans _ (hS c hcn hci) _ hpS _ hkey (hsib c hc hcn hci) hlt.le

/-- The end of sift-up: the hole is the root, or its parent is not less than the new element. -/
theorem UpHole.finish {d : Nat → α} {n i : Nat} {key : α} (h : UpHole cmp d n i key)
    (hstop : ∀ p, IsChild i p → cmp key (d p) ≤ 0) :
    HeapOrdered cmp (Function.update d i key) n := by
  intro p c hpc hcn
  have hlt := hpc.lt
  rcases eq_or_ne c i with rfl | hci
  · rw [Function.update_self, Function.update_of_ne (by omega)]
    exact not_lt.2 (hstop p hpc)
  · rw [Function.update_of_ne hci]
    rcases eq_or_ne p i with rfl | hpi
    · rw [Function.update_self]
      exact not_lt.2 (h.below c hpc hcn)
    · rw [Function.update_of_ne hpi]
      exact h.off_hole p c hpc hcn hci hpi

/-! ## Sift-down: an element that is exchanged with a child -/

/-- Sift-down has reached cell `i`: every pair whose parent is not `i` is in order, and the
children of `i` are not greater than the parent of `i`. -/
structure DownFrom (cmp : CompareFunc α) (d : Nat → α) (n i : Nat) : Prop where
  off_node : ∀ p c, IsChild c p → c < n → p ≠ i → ¬ 0 < cmp (d c) (d p)
  grand : ∀ p c, IsChild i p → IsChild c i → c < n → cmp (d c) (d p) ≤ 0

/-- Overwriting the root of a heap leaves only the root to repair. -/
theorem HeapOrdered.downFrom {d : Nat → α} {n : Nat} (h : HeapOrdered cmp d n) (v : α) :
    DownFrom cmp (Function.update d 0 v) n 0 where
  off_node p c hpc hcn hp := by
    have hlt := hpc.lt
    rw [Function.update_of_ne (by omega), Function.update_of_ne hp]
    exact h p c hpc hcn
  grand p c hp := by have := hp.lt; omega

/-- One step of sift-down: the element of `i` changes places with a child that is not less than
it and not less than the other child. -/
theorem DownFrom.step {d : Nat → α} {n i k : Nat} (h : DownFrom cmp d n i) (hk : IsChild k i)
    (hkn : k < n) (hge : ¬ 0 < cmp (d i) (d k))
    (hmax : ∀ c, IsChild c i → c < n → cmp (d c) (d k) ≤ 0) :
    DownFrom cmp (swapCells d i k) n k := by
  have hik := hk.lt
  constructor
  · intro p c hpc hcn hpk
    have hlt := hpc.lt
    rcases eq_or_ne p i with rfl | hpi
    · -- the selected child is now the parent of its sibling and of the moved element
      rw [swapCells_left]
      rcases eq_or_ne c k with rfl | hck
      · rwa [swapCells_right]
      · rw [swapCells_of_ne d (by omega) hck]
        exact not_lt.2 (hmax c hpc hcn)
    · rw [swapCells_of_ne d hpi hpk]
      rcases eq_or_ne c i with rfl | hci
      · rw [swapCells_left]
        exact not_lt.2 (h.grand p k hpc hk hkn)
      · have hck : c ≠ k := fun e => hpi (hpc.unique (e ▸ hk))
        rw [swapCells_of_ne d hci hck]
        exact h.off_node p c hpc hcn hpi
  · intro p c hp hc hcn
    -- the children of `k` are now below its old element, which has moved up to their grandparent
    have hpi := hp.unique hk
    subst hpi
    have hlt := hc.lt
    rw [swapCells_left, swapCells_of_ne d (by omega) (by omega)]
    exact not_lt.1 (h.off_node k c hc hcn (by omega))

/-- The end of sift-down: no child is greater than the element of `i`. -/
theorem DownFrom.finish {d : Nat → α} {n i : Nat} (h : DownFrom cmp d n i)
    (hstop : ∀ c, IsChild c i → c < n → ¬ 0 < cmp (d c) (d i)) : HeapOrdered cmp d n := by
  intro p c hpc hcn
  rcases eq_or_ne p i with rfl | hpi
  · exact hstop c hpc hcn
  · exact h.off_node p c hpc hcn hpi

end IpSentinel.Foundation

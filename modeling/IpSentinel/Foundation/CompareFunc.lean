import Mathlib.Data.Set.Basic
import Mathlib.Data.List.Pairwise
import Mathlib.Data.List.Sort

/-!
# C comparison functions

A C comparison function answers with an `int` of which only the sign counts. This module says
when such a function is a total preorder on a set of elements (`TotalPreorderOn`) and when a list
is in an order the function permits (`SortedBy`). The set is a parameter because a function can be
an order on the elements that occur and not on all elements of the type.
-/

set_option autoImplicit false

namespace IpSentinel.Foundation

universe u

variable {α : Type u}

/-- A comparison function: negative, zero and positive answers order the arguments. -/
abbrev CompareFunc (α : Type u) := α → α → Int

/-- The function orders the elements of `S`: swapping the arguments swaps the sign, and "not
greater" is transitive. -/
structure TotalPreorderOn (cmp : CompareFunc α) (S : Set α) : Prop where
  pos_iff : ∀ a ∈ S, ∀ b ∈ S, 0 < cmp a b ↔ cmp b a < 0
  trans : ∀ a ∈ S, ∀ b ∈ S, ∀ c ∈ S, cmp a b ≤ 0 → cmp b c ≤ 0 → cmp a c ≤ 0

/-- A total preorder on the whole type. -/
abbrev TotalPreorder (cmp : CompareFunc α) : Prop := TotalPreorderOn cmp Set.univ

namespace TotalPreorderOn

variable {cmp : CompareFunc α} {S T : Set α}

theorem mono (h : TotalPreorderOn cmp S) (hTS : T ⊆ S) : TotalPreorderOn cmp T where
  pos_iff a ha b hb := h.pos_iff a (hTS ha) b (hTS hb)
  trans a ha b hb c hc := h.trans a (hTS ha) b (hTS hb) c (hTS hc)

theorem nonneg_iff (h : TotalPreorderOn cmp S) {a b : α} (ha : a ∈ S) (hb : b ∈ S) :
    0 ≤ cmp a b ↔ cmp b a ≤ 0 := by
  have h1 := h.pos_iff b hb a ha
  omega

theorem refl (h : TotalPreorderOn cmp S) {a : α} (ha : a ∈ S) : cmp a a ≤ 0 := by
  have h1 := h.pos_iff a ha a ha
  omega

theorem le_of_not_le (h : TotalPreorderOn cmp S) {a b : α} (ha : a ∈ S) (hb : b ∈ S)
    (hab : ¬ cmp a b ≤ 0) : cmp b a ≤ 0 := by
  have h1 := h.pos_iff a ha b hb
  omega

theorem not_pos_of_pos (h : TotalPreorderOn cmp S) {a b : α} (ha : a ∈ S) (hb : b ∈ S)
    (hab : 0 < cmp a b) : ¬ 0 < cmp b a := by
  have h1 := h.pos_iff a ha b hb
  omega

/-- Comparing equal is an equivalence. -/
theorem equivalence {cmp : CompareFunc α} (h : TotalPreorder cmp) :
    Equivalence fun a b => cmp a b = 0 where
  refl a := by
    have h1 := h.pos_iff a trivial a trivial
    omega
  symm {a b} hab := by
    have h1 := h.pos_iff a trivial b trivial
    have h2 := h.pos_iff b trivial a trivial
    omega
  trans {a b c} hab hbc := by
    -- no sign in either direction
    have h1 := h.trans a trivial b trivial c trivial hab.le hbc.le
    have h2 := h.pos_iff b trivial a trivial
    have h3 := h.pos_iff c trivial b trivial
    have h4 := h.pos_iff c trivial a trivial
    have h5 := h.pos_iff a trivial b trivial
    have h6 := h.pos_iff b trivial c trivial
    have h7 := h.pos_iff a trivial c trivial
    have h8 := h.trans c trivial b trivial a trivial (by omega) (by omega)
    omega

/-- Elements that are not greater than each other compare equal. -/
theorem antisymm {cmp : CompareFunc α} (h : TotalPreorder cmp) {a b : α}
    (hab : cmp a b ≤ 0) (hba : cmp b a ≤ 0) : cmp a b = 0 := by
  apply le_antisymm hab
  rwa [h.nonneg_iff (Set.mem_univ a) (Set.mem_univ b)]

/-- Comparing the images under a map into `S`. -/
theorem comap {β : Type*} (h : TotalPreorderOn cmp S) {f : β → α} (hf : ∀ b, f b ∈ S) :
    TotalPreorder fun a b => cmp (f a) (f b) where
  pos_iff a _ b _ := h.pos_iff _ (hf a) _ (hf b)
  trans a _ b _ c _ := h.trans _ (hf a) _ (hf b) _ (hf c)

end TotalPreorderOn

/-! ## Comparing by several keys -/

/-- Comparison by an integer key, in ascending order. -/
def byKey (key : α → Int) : CompareFunc α := fun a b => key a - key b

theorem byKey_totalPreorder (key : α → Int) : TotalPreorder (byKey key) where
  pos_iff a _ b _ := by
    simp only [byKey]
    omega
  trans a _ b _ c _ := by
    simp only [byKey]
    omega

/-- Comparison by a natural number, answering `-1`, `0` or `1`. -/
def byOrder (key : α → Nat) : CompareFunc α := fun a b =>
  if key a < key b then -1 else if key b < key a then 1 else 0

theorem byOrder_totalPreorder (key : α → Nat) : TotalPreorder (byOrder key) where
  pos_iff a _ b _ := by
    simp only [byOrder]
    split_ifs <;> omega
  trans a _ b _ c _ := by
    simp only [byOrder]
    split_ifs <;> omega

/-- Comparison by the first function, and by the second where the first answers zero. -/
def thenBy (first second : CompareFunc α) : CompareFunc α := fun a b =>
  if first a b = 0 then second a b else first a b

theorem thenBy_totalPreorder {first second : CompareFunc α} (h : TotalPreorder first)
    (h' : TotalPreorder second) : TotalPreorder (thenBy first second) where
  pos_iff a ha b hb := by
    have h1 := h.pos_iff a ha b hb
    have h2 := h.pos_iff b hb a ha
    have h3 := h'.pos_iff a ha b hb
    simp only [thenBy]
    split_ifs <;> omega
  trans a ha b hb c hc := by
    -- the signs of the first function in all directions; the second one counts at ties
    have h1 := h.pos_iff a ha b hb
    have h2 := h.pos_iff b hb c hc
    have h3 := h.pos_iff a ha c hc
    have h4 := h.pos_iff b hb a ha
    have h5 := h.pos_iff c hc b hb
    have h6 := h.pos_iff c hc a ha
    have h7 := h.trans a ha b hb c hc
    have h8 := h.trans c hc a ha b hb
    have h9 := h.trans b hb c hc a ha
    have h10 := h'.trans a ha b hb c hc
    simp only [thenBy]
    split_ifs <;> omega

/-- The first function decides before the second. -/
theorem first_nonpos_of_thenBy {first second : CompareFunc α} {a b : α}
    (h : thenBy first second a b ≤ 0) : first a b ≤ 0 := by
  simp only [thenBy] at h
  split_ifs at h with h0
  · exact h0.le
  · exact h

theorem thenBy_eq_zero {first second : CompareFunc α} {a b : α} :
    thenBy first second a b = 0 ↔ first a b = 0 ∧ second a b = 0 := by
  simp only [thenBy]
  split_ifs with h0
  · exact (and_iff_right h0).symm
  · exact iff_of_false h0 fun h => h0 h.1

theorem second_nonpos_of_thenBy {first second : CompareFunc α} {a b : α}
    (h : thenBy first second a b ≤ 0) (h0 : first a b = 0) : second a b ≤ 0 := by
  simpa only [thenBy, h0, if_true] using h

/-! ## Comparing bytes -/

/-- `memcmp` on two blocks of equal length. -/
def memcmp : CompareFunc (List UInt8)
  | a :: as, b :: bs =>
    if a.toNat < b.toNat then -1 else if b.toNat < a.toNat then 1 else memcmp as bs
  | _, _ => 0

theorem memcmp_totalPreorderOn (n : Nat) : TotalPreorderOn memcmp {l | l.length = n} := by
  -- the first bytes decide, or the remaining `n` bytes do
  induction n with
  | zero =>
    constructor
    · intro a ha b hb
      rw [List.length_eq_zero_iff.1 ha, List.length_eq_zero_iff.1 hb]
      simp [memcmp]
    · intro a ha b hb c hc _ _
      rw [List.length_eq_zero_iff.1 ha, List.length_eq_zero_iff.1 hc]
      simp [memcmp]
  | succ n ih =>
    constructor
    · intro a ha b hb
      obtain ⟨x, a, rfl⟩ := List.exists_cons_of_length_eq_add_one ha
      obtain ⟨y, b, rfl⟩ := List.exists_cons_of_length_eq_add_one hb
      have htail := ih.pos_iff a (Nat.succ.inj ha) b (Nat.succ.inj hb)
      simp only [memcmp]
      split_ifs <;> omega
    · intro a ha b hb c hc
      obtain ⟨x, a, rfl⟩ := List.exists_cons_of_length_eq_add_one ha
      obtain ⟨y, b, rfl⟩ := List.exists_cons_of_length_eq_add_one hb
      obtain ⟨z, c, rfl⟩ := List.exists_cons_of_length_eq_add_one hc
      have htail := ih.trans a (Nat.succ.inj ha) b (Nat.succ.inj hb) c (Nat.succ.inj hc)
      simp only [memcmp]
      split_ifs <;> omega

theorem eq_of_memcmp_eq_zero {a b : List UInt8} (hlength : a.length = b.length)
    (h : memcmp a b = 0) : a = b := by
  induction a generalizing b with
  | nil => exact (List.length_eq_zero_iff.1 hlength.symm).symm
  | cons x a ih =>
    obtain ⟨y, b, rfl⟩ := List.exists_cons_of_length_eq_add_one hlength.symm
    simp only [memcmp] at h
    have hhead : x = y := by
      split_ifs at h <;> apply UInt8.toNat_inj.1 <;> omega
    subst hhead
    rw [if_neg (lt_irrefl _), if_neg (lt_irrefl _)] at h
    rw [ih (Nat.succ.inj hlength) h]

/-- The list is in an order the comparison function permits: no element compares greater than a
later one. -/
def SortedBy (cmp : CompareFunc α) (l : List α) : Prop :=
  l.Pairwise fun a b => cmp a b ≤ 0

instance (cmp : CompareFunc α) (l : List α) : Decidable (SortedBy cmp l) :=
  inferInstanceAs (Decidable (l.Pairwise _))

/-- Two sorted arrangements of the same elements agree place by place, up to elements that compare
equal. -/
theorem SortedBy.forall₂_of_perm {cmp : CompareFunc α} (hcmp : TotalPreorder cmp) {l l' : List α}
    (hl : SortedBy cmp l) (hl' : SortedBy cmp l') (hperm : l.Perm l') :
    List.Forall₂ (fun a b => cmp a b = 0) l l' := by
  -- in the lists of the classes of elements that compare equal, the order is antisymmetric
  let s : Setoid α := ⟨fun a b => cmp a b = 0, hcmp.equivalence⟩
  let r : Quotient s → Quotient s → Prop := fun p q => ∃ a b, ⟦a⟧ = p ∧ ⟦b⟧ = q ∧ cmp a b ≤ 0
  have hsorted : ∀ {l}, SortedBy cmp l → (l.map (Quotient.mk s)).Pairwise r := fun h =>
    List.pairwise_map.2 (h.imp fun hab => ⟨_, _, rfl, rfl, hab⟩)
  have hanti : ∀ p q, r p q → r q p → p = q := by
    rintro _ _ ⟨a, b, rfl, rfl, hab⟩ ⟨b', a', hb, ha, hba⟩
    have hb' : cmp b' b = 0 := Quotient.exact hb
    have ha' : cmp a' a = 0 := Quotient.exact ha
    have hbb' : cmp b b' ≤ 0 := (hcmp.equivalence.symm hb').le
    apply Quotient.sound
    apply hcmp.antisymm hab
    apply hcmp.trans b trivial b' trivial a trivial hbb'
    exact hcmp.trans b' trivial a' trivial a trivial hba ha'.le
  have heq := (hperm.map (Quotient.mk s)).eq_of_pairwise (fun p q _ _ => hanti p q) (hsorted hl)
    (hsorted hl')
  rw [← List.forall₂_eq_eq_eq, List.forall₂_map_left_iff, List.forall₂_map_right_iff] at heq
  exact heq.imp fun _ _ h => Quotient.exact h

end IpSentinel.Foundation

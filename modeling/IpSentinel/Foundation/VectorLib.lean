import IpSentinel.Foundation.CompareFunc
import Mathlib.Data.List.Sort
import Mathlib.Tactic

/-!
# Sorted vectors

The vector library of the program is a separate package. `VectorLib` lists the operations the
program uses on it that compare elements, each with the behaviour the program relies on: binary
search and sorted insertion on a list the key partitions, sorting, and the removal of adjacent
duplicates. `referenceVector` is one such library, by linear search and insertion sort.
-/

set_option autoImplicit false

namespace IpSentinel.Foundation

variable {δ κ : Type}

/-- Comparing `key` with the elements of the list gives positive, then zero, then negative
answers: what binary search for `key` needs. -/
def PartitionedBy (cmp : κ → δ → Int) (key : κ) (l : List δ) : Prop :=
  l.Pairwise fun a b => (0 < cmp key b → 0 < cmp key a) ∧ (cmp key a < 0 → cmp key b < 0)

/-- The first element of each run of adjacent elements that compare equal to it, in a list that
starts with `x`. -/
def firstOfRunsFrom (cmp : CompareFunc δ) (x : δ) : List δ → List δ
  | [] => [x]
  | y :: l => if cmp x y = 0 then firstOfRunsFrom cmp x l else x :: firstOfRunsFrom cmp y l

/-- The first element of each run of adjacent elements that compare equal to it. -/
def firstOfRuns (cmp : CompareFunc δ) : List δ → List δ
  | [] => []
  | x :: l => firstOfRunsFrom cmp x l

theorem firstOfRunsFrom_head (cmp : CompareFunc δ) (x : δ) (l : List δ) :
    ∃ l', firstOfRunsFrom cmp x l = x :: l' := by
  induction l with
  | nil => exact ⟨[], rfl⟩
  | cons y l ih =>
    rw [firstOfRunsFrom]
    split_ifs
    · exact ih
    · exact ⟨_, rfl⟩

theorem firstOfRunsFrom_sublist (cmp : CompareFunc δ) (x : δ) (l : List δ) :
    (firstOfRunsFrom cmp x l).Sublist (x :: l) := by
  induction l generalizing x with
  | nil => exact List.Sublist.refl _
  | cons y l ih =>
    rw [firstOfRunsFrom]
    split_ifs
    · exact (ih x).trans ((List.sublist_cons_self y l).cons_cons x)
    · exact (ih y).cons_cons x

theorem firstOfRuns_sublist (cmp : CompareFunc δ) (l : List δ) :
    (firstOfRuns cmp l).Sublist l := by
  cases l with
  | nil => exact List.Sublist.refl _
  | cons x l => exact firstOfRunsFrom_sublist cmp x l

/-- An element is kept, or compares equal to one that is. -/
theorem exists_mem_firstOfRunsFrom (cmp : CompareFunc δ) (x : δ) {l : List δ} {y : δ}
    (hy : y ∈ x :: l) : ∃ z ∈ firstOfRunsFrom cmp x l, z = y ∨ cmp z y = 0 := by
  induction l generalizing x with
  | nil =>
    obtain rfl := List.mem_singleton.1 hy
    exact ⟨y, List.mem_singleton_self y, Or.inl rfl⟩
  | cons w l ih =>
    rw [firstOfRunsFrom]
    split_ifs with hw
    · -- `w` is dropped for `x`
      obtain ⟨l', hl'⟩ := firstOfRunsFrom_head cmp x l
      rcases List.mem_cons.1 hy with rfl | hy
      · exact ih y List.mem_cons_self
      · rcases List.mem_cons.1 hy with rfl | hy
        · exact ⟨x, hl' ▸ List.mem_cons_self, Or.inr hw⟩
        · exact ih x (List.mem_cons_of_mem x hy)
    · rcases List.mem_cons.1 hy with rfl | hy
      · exact ⟨y, List.mem_cons_self, Or.inl rfl⟩
      · obtain ⟨z, hz, heq⟩ := ih w hy
        exact ⟨z, List.mem_cons_of_mem x hz, heq⟩

theorem exists_mem_firstOfRuns (cmp : CompareFunc δ) {l : List δ} {y : δ} (hy : y ∈ l) :
    ∃ z ∈ firstOfRuns cmp l, z = y ∨ cmp z y = 0 := by
  cases l with
  | nil => cases hy
  | cons x l => exact exists_mem_firstOfRunsFrom cmp x hy

/-- What is kept does not compare equal to its neighbours. -/
theorem firstOfRunsFrom_isChain (cmp : CompareFunc δ) (x : δ) (l : List δ) :
    (firstOfRunsFrom cmp x l).IsChain fun a b => cmp a b ≠ 0 := by
  induction l generalizing x with
  | nil => exact List.isChain_singleton x
  | cons y l ih =>
    rw [firstOfRunsFrom]
    split_ifs with hxy
    · exact ih x
    · obtain ⟨l', hl'⟩ := firstOfRunsFrom_head cmp y l
      have hrest := ih y
      rw [hl'] at hrest ⊢
      exact List.isChain_cons_cons.2 ⟨hxy, hrest⟩

theorem firstOfRuns_isChain (cmp : CompareFunc δ) (l : List δ) :
    (firstOfRuns cmp l).IsChain fun a b => cmp a b ≠ 0 := by
  cases l with
  | nil => exact List.isChain_nil
  | cons x l => exact firstOfRunsFrom_isChain cmp x l

theorem firstOfRunsFrom_of_isChain {cmp : CompareFunc δ} {x : δ} {l : List δ}
    (h : (x :: l).IsChain fun a b => cmp a b ≠ 0) : firstOfRunsFrom cmp x l = x :: l := by
  induction l generalizing x with
  | nil => rfl
  | cons y l ih =>
    obtain ⟨hxy, hrest⟩ := List.isChain_cons_cons.1 h
    rw [firstOfRunsFrom, if_neg hxy, ih hrest]

/-- Without neighbours that compare equal every element is kept. -/
theorem firstOfRuns_of_isChain {cmp : CompareFunc δ} {l : List δ}
    (h : l.IsChain fun a b => cmp a b ≠ 0) : firstOfRuns cmp l = l := by
  cases l with
  | nil => rfl
  | cons x l => exact firstOfRunsFrom_of_isChain h

/-- The elements that do not compare equal to the one before them; `before` is in front of the
list. -/
def runStarts (cmp : CompareFunc δ) (before : Option δ) : List δ → List δ
  | [] => []
  | x :: l =>
    if ∃ y ∈ before, cmp y x = 0 then runStarts cmp (some x) l
    else x :: runStarts cmp (some x) l

theorem firstOfRunsFrom_eq {cmp : CompareFunc δ} (hcmp : Equivalence fun a b => cmp a b = 0)
    {x y : δ} (hxy : cmp x y = 0) (l : List δ) :
    firstOfRunsFrom cmp x l = x :: runStarts cmp (some y) l := by
  -- `y` is the last element of the run that `x` starts
  induction l generalizing x y with
  | nil => rfl
  | cons z l ih =>
    have hmem : (∃ w ∈ some y, cmp w z = 0) ↔ cmp x z = 0 := by
      simp only [Option.mem_some_iff, exists_eq_left']
      exact ⟨hcmp.trans hxy, hcmp.trans (hcmp.symm hxy)⟩
    simp only [firstOfRunsFrom, runStarts, hmem]
    split_ifs with hxz
    · exact ih hxz
    · rw [ih (hcmp.refl z)]

/-- When comparing equal is an equivalence, it does not matter which element of the run an element
is compared with. -/
theorem firstOfRuns_eq {cmp : CompareFunc δ} (hcmp : Equivalence fun a b => cmp a b = 0)
    (l : List δ) : firstOfRuns cmp l = runStarts cmp none l := by
  cases l with
  | nil => rfl
  | cons x l =>
    rw [firstOfRuns, firstOfRunsFrom_eq hcmp (hcmp.refl x)]
    simp [runStarts]

/-- The element right in front of position `k` compares equal to the one there. -/
def BehindEqual (cmp : CompareFunc δ) (l : List δ) (k : Fin l.length) : Prop :=
  ∃ j : Fin l.length, j.val + 1 = k ∧ cmp l[j] l[k] = 0

/-- The second element does not compare equal to the first one, if there is a first one. -/
def StartsRun (cmp : CompareFunc δ) (e : Option δ × δ) : Prop := ¬ ∃ y ∈ e.1, cmp y e.2 = 0

instance (cmp : CompareFunc δ) : DecidablePred (StartsRun cmp) :=
  fun e => inferInstanceAs (Decidable (¬ ∃ y ∈ e.1, cmp y e.2 = 0))

theorem runStarts_eq_filter (cmp : CompareFunc δ) (before : Option δ) (l : List δ) :
    runStarts cmp before l =
      (((before :: l.map some).zip l).filter fun e => StartsRun cmp e).map Prod.snd := by
  induction l generalizing before with
  | nil => rfl
  | cons x l ih =>
    rw [runStarts, List.map_cons, List.zip_cons_cons, List.filter_cons]
    by_cases hx : ∃ y ∈ before, cmp y x = 0
    · have hnot : ¬ StartsRun cmp (before, x) := not_not.2 hx
      rw [if_pos hx, if_neg (by simpa using hnot), ih (some x)]
    · have hstarts : StartsRun cmp (before, x) := hx
      rw [if_neg hx, if_pos (by simpa using hstarts), List.map_cons, ih (some x)]

/-- What is in front of a position. -/
theorem exists_front_iff {cmp : CompareFunc δ} {l : List δ} {k : Nat} (hk : k < l.length)
    (hk' : k < (none :: l.map some).length) :
    (∃ y ∈ (none :: l.map some)[k], cmp y l[k] = 0) ↔ BehindEqual cmp l ⟨k, hk⟩ := by
  cases k with
  | zero => simp [BehindEqual]
  | succ k =>
    constructor
    · rintro ⟨y, hy, hcmp⟩
      refine ⟨⟨k, by omega⟩, rfl, ?_⟩
      have hyk : l[k] = y := by simpa using hy
      rw [← hyk] at hcmp
      exact hcmp
    · rintro ⟨j, hj, hcmp⟩
      have hjk : j = ⟨k, by omega⟩ := Fin.ext (by simpa using hj)
      rw [hjk] at hcmp
      exact ⟨l[k], by simp, hcmp⟩

/-- The first element with a property is the one at the least position with the property. -/
theorem find?_eq_some_iff_isLeast {l : List δ} {p : δ → Bool} {x : δ} :
    l.find? p = some x ↔ ∃ k : Fin l.length, IsLeast {k | p l[k] = true} k ∧ l[k] = x := by
  rw [List.find?_eq_some_iff_getElem]
  constructor
  · rintro ⟨hx, i, hi, hil, hbefore⟩
    refine ⟨⟨i, hi⟩, ⟨?_, fun j hj => ?_⟩, hil⟩
    · show p l[i] = true
      rwa [hil]
    · by_contra hlt
      have hnot := hbefore j (not_le.1 hlt)
      simp only [Set.mem_ofPred_eq, Fin.getElem_fin] at hj
      simp [hj] at hnot
  · rintro ⟨k, ⟨hk, hleast⟩, rfl⟩
    refine ⟨hk, k, k.isLt, rfl, fun j hj => ?_⟩
    have hnot : ¬ p l[j] = true := fun hpj =>
      absurd (hleast (a := ⟨j, hj.trans k.isLt⟩) hpj) (not_le.2 hj)
    simpa using hnot

/-- The first of the kept elements with a property is the first element with the property that is
not behind one that compares equal. -/
theorem find?_runStarts {cmp : CompareFunc δ} {l : List δ} {p : δ → Bool} {x : δ} :
    (runStarts cmp none l).find? p = some x ↔
      ∃ k : Fin l.length, IsLeast {k | p l[k] = true ∧ ¬ BehindEqual cmp l k} k ∧ l[k] = x := by
  have hlen : ((none :: l.map some).zip l).length = l.length := by simp
  -- what the filter and the search ask of the pair at a position
  have hpair : ∀ i, ∀ hi : i < ((none :: l.map some).zip l).length, ∀ hil : i < l.length,
      (StartsRun cmp ((none :: l.map some).zip l)[i] ∧
        (p ∘ Prod.snd) ((none :: l.map some).zip l)[i] = true) ↔
      p l[i] = true ∧ ¬ BehindEqual cmp l ⟨i, hil⟩ := by
    intro i hi hil
    rw [List.getElem_zip, StartsRun, exists_front_iff hil (by simpa using hil.le)]
    exact and_comm
  rw [runStarts_eq_filter, List.find?_map, Option.map_eq_some_iff, List.find?_filter]
  simp only [find?_eq_some_iff_isLeast, Bool.decide_and, Bool.decide_eq_true, Bool.and_eq_true,
    decide_eq_true_eq]
  constructor
  · rintro ⟨e, ⟨⟨i, hi⟩, ⟨hk, hleast⟩, rfl⟩, rfl⟩
    have hil : i < l.length := hlen ▸ hi
    refine ⟨⟨i, hil⟩, ⟨(hpair i hi hil).1 hk, fun j hj => ?_⟩, by simp⟩
    exact hleast (a := ⟨j, hlen.symm ▸ j.isLt⟩) ((hpair j (hlen.symm ▸ j.isLt) j.isLt).2 hj)
  · rintro ⟨k, ⟨hk, hleast⟩, rfl⟩
    have hi : k.val < ((none :: l.map some).zip l).length := hlen.symm ▸ k.isLt
    refine ⟨_, ⟨⟨k, hi⟩, ⟨(hpair k hi k.isLt).2 hk, fun j hj => ?_⟩, rfl⟩, by simp⟩
    exact hleast (a := ⟨j, hlen ▸ j.isLt⟩) ((hpair j j.isLt (hlen ▸ j.isLt)).1 hj)
/-- The comparing operations of the vector library. -/
structure VectorLib where
  search : {δ κ : Type} → (κ → δ → Int) → (l : List δ) → κ → Option (Fin l.length)
  insertPos : {δ κ : Type} → (κ → δ → Int) → (l : List δ) → κ → Fin (l.length + 1)
  sort : {δ : Type} → CompareFunc δ → List δ → List δ
  unique : {δ : Type} → CompareFunc δ → List δ → List δ
  search_some : ∀ {δ κ : Type} (cmp : κ → δ → Int) (l : List δ) (key : κ) (i : Fin l.length),
    PartitionedBy cmp key l → search cmp l key = some i → cmp key (l.get i) = 0
  search_none : ∀ {δ κ : Type} (cmp : κ → δ → Int) (l : List δ) (key : κ),
    PartitionedBy cmp key l → search cmp l key = none → ∀ x ∈ l, cmp key x ≠ 0
  insertPos_before : ∀ {δ κ : Type} (cmp : κ → δ → Int) (l : List δ) (key : κ),
    PartitionedBy cmp key l → ∀ x ∈ l.take (insertPos cmp l key), 0 ≤ cmp key x
  insertPos_after : ∀ {δ κ : Type} (cmp : κ → δ → Int) (l : List δ) (key : κ),
    PartitionedBy cmp key l → ∀ x ∈ l.drop (insertPos cmp l key), cmp key x ≤ 0
  sort_perm : ∀ {δ : Type} (cmp : CompareFunc δ) (l : List δ),
    TotalPreorder cmp → (sort cmp l).Perm l
  sort_sorted : ∀ {δ : Type} (cmp : CompareFunc δ) (l : List δ),
    TotalPreorder cmp → SortedBy cmp (sort cmp l)
  unique_eq : ∀ {δ : Type} (cmp : CompareFunc δ) (l : List δ), unique cmp l = firstOfRuns cmp l

/-- Sorting leaves a list that is sorted as it is. A stable sort does so; `qsort` need not. -/
def VectorLib.KeepsSorted (V : VectorLib) : Prop :=
  ∀ (δ : Type) (cmp : CompareFunc δ) (l : List δ), SortedBy cmp l → V.sort cmp l = l

/-- The list with `x` in the slot that opens at position `p`. -/
def insertAt (l : List δ) (p : Nat) (x : δ) : List δ := l.take p ++ x :: l.drop p

/-! ## A reference library -/

/-- The position of the first element that compares equal to the key. -/
def linearSearch (cmp : κ → δ → Int) : (l : List δ) → κ → Option (Fin l.length)
  | [], _ => none
  | x :: l, key => if cmp key x = 0 then some 0 else (linearSearch cmp l key).map Fin.succ

/-- The number of leading elements that the key is greater than. -/
def linearInsertPos (cmp : κ → δ → Int) : (l : List δ) → κ → Fin (l.length + 1)
  | [], _ => 0
  | x :: l, key => if 0 < cmp key x then (linearInsertPos cmp l key).succ else 0

theorem linearSearch_some (cmp : κ → δ → Int) (l : List δ) (key : κ) (i : Fin l.length)
    (h : linearSearch cmp l key = some i) : cmp key (l.get i) = 0 := by
  induction l with
  | nil => exact i.elim0
  | cons x l ih =>
    simp only [linearSearch] at h
    split_ifs at h with hx
    · cases h
      exact hx
    · obtain ⟨j, hj, rfl⟩ := Option.map_eq_some_iff.1 h
      exact ih j hj

theorem linearSearch_none (cmp : κ → δ → Int) (l : List δ) (key : κ)
    (h : linearSearch cmp l key = none) : ∀ x ∈ l, cmp key x ≠ 0 := by
  induction l with
  | nil => simp
  | cons y l ih =>
    simp only [linearSearch] at h
    split_ifs at h with hy
    rw [List.forall_mem_cons]
    exact ⟨hy, ih (Option.map_eq_none_iff.1 h)⟩

theorem linearInsertPos_before (cmp : κ → δ → Int) (l : List δ) (key : κ) :
    ∀ x ∈ l.take (linearInsertPos cmp l key), 0 ≤ cmp key x := by
  induction l with
  | nil => simp
  | cons y l ih =>
    simp only [linearInsertPos]
    split_ifs with hy
    · simpa [hy.le] using ih
    · simp

theorem linearInsertPos_after (cmp : κ → δ → Int) (l : List δ) (key : κ)
    (hl : PartitionedBy cmp key l) :
    ∀ x ∈ l.drop (linearInsertPos cmp l key), cmp key x ≤ 0 := by
  induction l with
  | nil => simp
  | cons y l ih =>
    obtain ⟨hhead, htail⟩ := List.pairwise_cons.1 hl
    simp only [linearInsertPos]
    split_ifs with hy
    · simpa using ih htail
    · intro x hx
      rcases List.mem_cons.1 hx with rfl | hx
      · exact not_lt.1 hy
      · exact not_lt.1 fun hpos => hy ((hhead x hx).1 hpos)

/-- Linear search, insertion before the first element not less than the key, insertion sort. -/
def referenceVector : VectorLib where
  search := linearSearch
  insertPos := linearInsertPos
  sort cmp l := l.insertionSort fun a b => cmp a b ≤ 0
  unique := firstOfRuns
  search_some cmp l key i _ h := linearSearch_some cmp l key i h
  search_none cmp l key _ h := linearSearch_none cmp l key h
  insertPos_before cmp l key _ := linearInsertPos_before cmp l key
  insertPos_after := linearInsertPos_after
  sort_perm cmp l _ := List.perm_insertionSort _ l
  sort_sorted cmp l h := by
    have htotal : Std.Total fun a b => cmp a b ≤ 0 :=
      ⟨fun a b => or_iff_not_imp_left.2 (h.le_of_not_le (Set.mem_univ a) (Set.mem_univ b))⟩
    have htrans : IsTrans _ fun a b => cmp a b ≤ 0 :=
      ⟨fun a b c => h.trans a (Set.mem_univ a) b (Set.mem_univ b) c (Set.mem_univ c)⟩
    exact List.pairwise_insertionSort _ l
  unique_eq _ _ := rfl

theorem referenceVector_keepsSorted : referenceVector.KeepsSorted :=
  fun _ _ _ h => h.insertionSort_eq

end IpSentinel.Foundation

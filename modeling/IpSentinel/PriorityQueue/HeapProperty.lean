import IpSentinel.PriorityQueue.Operations

/-!
# When the priority queue is a heap

`insert` keeps the heap order (`isHeap_insertInternal`). `extract` keeps it when, wherever the last
element comes on its way down to two children of which the left one is the greater, it is not
greater than that child (`CleanExtract`), and on no other queue (`isHeap_extract_iff`): `largest`
compares the left child with the right one and not with the moved element, so a left child greater
than its sibling is exchanged with the moved element even when it is smaller.

Along a run from `init` the elements inside the block are all of them and a heap in every state
reached, and `max` answers a greatest of them, exactly when every extraction of the run is clean and
every insertion has room in the block (`heap_runs_iff`). The run `extract_breaks_heap` has an
extraction that is not clean.
-/

set_option autoImplicit false

namespace IpSentinel.PriorityQueue

open Foundation

universe u

variable {α : Type u}

/-- No stored element compares greater than its parent. -/
def IsHeap (q : PriorityQueue α) : Prop := HeapOrdered q.cmpFunc q.data q.count

/-- The comparison function orders the stored elements. -/
def OrdersContents (q : PriorityQueue α) : Prop :=
  TotalPreorderOn q.cmpFunc {x | x ∈ q.contents}

theorem OrdersContents.of_contents_eq {p q : PriorityQueue α} (h : q.OrdersContents)
    (hcmp : p.cmpFunc = q.cmpFunc) (hcont : p.contents = q.contents) : p.OrdersContents := by
  rw [OrdersContents, hcmp, hcont]
  exact h

theorem OrdersContents.extract {q : PriorityQueue α} (h : q.OrdersContents) :
    q.extract.OrdersContents := by
  rw [OrdersContents, extract_cmpFunc]
  -- what is left has been in the queue before
  refine h.mono fun x hx => ?_
  rcases Nat.eq_zero_or_pos q.count with h0 | hpos
  · rwa [extract_of_empty h0] at hx
  · have hx' : x ∈ q.data 0 ::ₘ q.extract.contents := Multiset.mem_cons_of_mem hx
    rwa [contents_extract hpos] at hx'

/-! ## Clean extractions -/

/-- The last element, coming to the parent of `c`, goes on to `c`: the left child when it is greater
than its sibling, and otherwise the right one when it is greater than the last element. -/
def Passes (q : PriorityQueue α) (c : Nat) : Prop :=
  let l := left (parent c)
  let r := right (parent c)
  c = l ∧ 0 < q.cmpFunc (q.data l) (q.data r) ∨
    c = r ∧ ¬ 0 < q.cmpFunc (q.data l) (q.data r) ∧
      0 < q.cmpFunc (q.data r) (q.data (q.count - 1))

instance (q : PriorityQueue α) (c : Nat) : Decidable (q.Passes c) :=
  inferInstanceAs (Decidable (_ ∧ _ ∨ _ ∧ _ ∧ _))

/-- The last element comes to `pos`: it passes every cell from the root on. -/
def ComesTo (q : PriorityQueue α) (pos : Nat) : Prop :=
  ∀ c ≤ pos, 0 < c → InSubtree c pos → q.Passes c

instance (q : PriorityQueue α) (pos : Nat) : Decidable (q.ComesTo pos) :=
  inferInstanceAs (Decidable (∀ c ≤ pos, _))

/-- Two children are left at `pos`, and if the left one is the greater then the last element is not
greater than it. -/
def CleanAt (q : PriorityQueue α) (pos : Nat) : Prop :=
  right pos < q.count - 1 → 0 < q.cmpFunc (q.data (left pos)) (q.data (right pos)) →
    ¬ 0 < q.cmpFunc (q.data (q.count - 1)) (q.data (left pos))

instance (q : PriorityQueue α) (pos : Nat) : Decidable (q.CleanAt pos) :=
  inferInstanceAs (Decidable (_ → _ → _))

/-- The last element, which an extraction moves to the root, is not exchanged with a smaller left
child. -/
def CleanExtract (q : PriorityQueue α) : Prop := ∀ pos < q.count, q.ComesTo pos → q.CleanAt pos

instance (q : PriorityQueue α) : Decidable q.CleanExtract :=
  inferInstanceAs (Decidable (∀ pos < q.count, _))

theorem comesTo_zero (q : PriorityQueue α) : q.ComesTo 0 := by
  intro c hc hpos
  omega

/-- The last element comes to a child when it comes to the parent and passes the child. -/
theorem comesTo_child_iff {q : PriorityQueue α} {p c : Nat} (hc : IsChild c p) :
    q.ComesTo c ↔ q.ComesTo p ∧ q.Passes c := by
  have hlt := hc.lt
  constructor
  · intro h
    refine ⟨fun k hk hpos hkp => ?_, h c le_rfl (by omega) .root⟩
    exact h k (by omega) hpos (hkp.child hc)
  · rintro ⟨hp, hpass⟩ k - hpos hkc
    rcases (inSubtree_child_iff hc).1 hkc with rfl | hkp
    · exact hpass
    · exact hp k hkp.le hpos hkp

/-! ## The calls of heapify -/

/-- The element going down from `pos` is not greater than the child `heapify` exchanges it
with. -/
def CleanNode (q : PriorityQueue α) (pos : Nat) : Prop :=
  ¬ 0 < q.cmpFunc (q.data pos) (q.data (q.largest pos))

/-- All nodes on the way down are clean, for a number of calls of `heapify`. -/
def CleanLoop : Nat → PriorityQueue α → Nat → Prop
  | 0, _, _ => True
  | n + 1, q, pos =>
    q.largest pos ≠ pos →
      q.CleanNode pos ∧ CleanLoop n (q.swap pos (q.largest pos)) (q.largest pos)

/-- The call of `heapify` for `pos` that the extraction from `q` has come to, with the state `s`:
the last element of `q` is at `pos` and, as before, behind the live part, and the cells in between
have not been written. -/
structure GoingDown (q s : PriorityQueue α) (pos : Nat) : Prop where
  count : s.count = q.count - 1
  cmpFunc : s.cmpFunc = q.cmpFunc
  here : s.data pos = q.data (q.count - 1)
  below : ∀ j, pos < j → s.data j = q.data j
  pos_lt : pos < q.count - 1

theorem goingDown_dropRoot {q : PriorityQueue α} (hc : 1 < q.count) : GoingDown q q.dropRoot 0 where
  count := rfl
  cmpFunc := rfl
  here := by rw [dropRoot_data, Function.update_self]
  below j hj := by rw [dropRoot_data, Function.update_of_ne (by omega)]
  pos_lt := by omega

theorem GoingDown.swap {q s : PriorityQueue α} {pos k : Nat} (h : GoingDown q s pos)
    (hk : IsChild k pos) (hkc : k < q.count - 1) : GoingDown q (s.swap pos k) k where
  count := h.count
  cmpFunc := h.cmpFunc
  here := by rw [swap_data, swapCells_right, h.here]
  below j hj := by
    have hlt := hk.lt
    rw [swap_data, swapCells_of_ne _ (by omega) (by omega), h.below j (by omega)]
  pos_lt := hkc

/-- What `heapify` selects, in terms of the queue before the extraction. -/
theorem GoingDown.largest_eq {q s : PriorityQueue α} {pos : Nat} (h : GoingDown q s pos)
    (ho : s.OrdersContents) :
    s.largest pos =
      if left pos < q.count - 1 ∧ 0 < q.cmpFunc (q.data (left pos)) (q.data (right pos)) then
        left pos
      else if right pos < q.count - 1 ∧
          0 < q.cmpFunc (q.data (right pos)) (q.data (q.count - 1)) then right pos
      else pos := by
  have hl : s.data (left pos) = q.data (left pos) := h.below _ (left_isChild pos).lt
  have hr : s.data (right pos) = q.data (right pos) := h.below _ (right_isChild pos).lt
  simp only [largest, h.count, h.cmpFunc, hl, hr]
  split_ifs with h1 h2 h3 h4 h5
  · -- both comparisons succeed only for a function that is no order
    rw [hl] at h2
    have hlm : q.data (left pos) ∈ s.contents := by
      rw [← hl]
      exact mem_cells_of_lt (by rw [h.count]; exact h1.1)
    have hrm : q.data (right pos) ∈ s.contents := by
      rw [← hr]
      exact mem_cells_of_lt (by rw [h.count]; exact h2.1)
    rw [OrdersContents, h.cmpFunc] at ho
    exact absurd h2.2 (ho.not_pos_of_pos hlm hrm h1.2)
  · rfl
  · rfl
  · rw [h.here] at h3
    exact absurd h3 h4
  · rw [h.here] at h3
    exact absurd h5 h3
  · rfl

/-- A live child is the one `heapify` selects exactly when the last element passes it. -/
theorem GoingDown.largest_eq_iff {q s : PriorityQueue α} {pos c : Nat} (h : GoingDown q s pos)
    (ho : s.OrdersContents) (hc : IsChild c pos) (hcc : c < q.count - 1) :
    s.largest pos = c ↔ q.Passes c := by
  have hl := (left_isChild pos).lt
  have hlr : right pos = left pos + 1 := rfl
  have hparent : parent c = pos := (parent_isChild hc.pos).unique hc
  rw [h.largest_eq ho]
  simp only [Passes, hparent]
  obtain rfl | rfl : c = left pos ∨ c = right pos := hc
  · -- the left child, which the first comparison selects
    split_ifs with h1 h2
    · exact iff_of_true rfl (Or.inl ⟨rfl, h1.2⟩)
    · refine iff_of_false (by omega) ?_
      rintro (⟨-, hpos⟩ | ⟨he, -⟩)
      · exact h1 ⟨hcc, hpos⟩
      · omega
    · refine iff_of_false (by omega) ?_
      rintro (⟨-, hpos⟩ | ⟨he, -⟩)
      · exact h1 ⟨hcc, hpos⟩
      · omega
  · -- the right child, which is selected by the second one where the first one fails
    split_ifs with h1 h2
    · refine iff_of_false (by omega) ?_
      rintro (⟨he, -⟩ | ⟨-, hnot, -⟩)
      · omega
      · exact hnot h1.2
    · exact iff_of_true rfl (Or.inr ⟨rfl, fun hpos => h1 ⟨by omega, hpos⟩, h2.2⟩)
    · refine iff_of_false (by omega) ?_
      rintro (⟨he, -⟩ | ⟨-, -, hpos⟩)
      · omega
      · exact h2 ⟨hcc, hpos⟩

/-- The exchange at `pos` is with a smaller element exactly when the left child is selected in front
of a live sibling that is smaller, and is itself smaller than the last element. -/
theorem GoingDown.cleanNode_iff {q s : PriorityQueue α} {pos : Nat} (h : GoingDown q s pos)
    (ho : s.OrdersContents) (hne : s.largest pos ≠ pos) : s.CleanNode pos ↔ q.CleanAt pos := by
  have hk := largest_child hne
  have hlr : right pos = left pos + 1 := rfl
  have hlast : q.data (q.count - 1) ∈ s.contents := by
    rw [← h.here]
    exact mem_cells_of_lt (by rw [h.count]; exact h.pos_lt)
  have hsel : q.data (s.largest pos) ∈ s.contents := by
    rw [← h.below _ hk.1.lt]
    exact mem_cells_of_lt hk.2
  rw [OrdersContents, h.cmpFunc] at ho
  rw [CleanNode, h.cmpFunc, h.here, h.below _ hk.1.lt]
  rw [h.largest_eq (by rwa [OrdersContents, h.cmpFunc])] at hne hsel ⊢
  split_ifs at hne hsel ⊢ with h1 h2
  · constructor
    · intro hclean _ _
      exact hclean
    · intro hclean
      rcases Nat.lt_or_ge (right pos) (q.count - 1) with hrc | hrc
      · exact hclean hrc h1.2
      · -- the source reads the slot behind the live part, which holds the last element
        have hstale : right pos = q.count - 1 := by omega
        rw [hstale] at h1
        exact ho.not_pos_of_pos hsel hlast h1.2
  · -- the right child is selected, which is greater than the last element
    refine iff_of_true (ho.not_pos_of_pos hsel hlast h2.2) ?_
    intro hrc hpos
    exact absurd ⟨by omega, hpos⟩ h1
  · exact absurd rfl hne

theorem ordersContents_swap {q : PriorityQueue α} {pos : Nat} (ho : q.OrdersContents)
    (hne : q.largest pos ≠ pos) : (q.swap pos (q.largest pos)).OrdersContents :=
  ho.of_contents_eq rfl (contents_swap hne)

/-- When the last element comes to a live cell below a child, that child is the one selected. -/
theorem GoingDown.largest_of_comesTo {q s : PriorityQueue α} {pos c j : Nat}
    (h : GoingDown q s pos) (ho : s.OrdersContents) (hc : IsChild c pos) (hcj : InSubtree c j)
    (hjc : q.ComesTo j) (hj : j < q.count - 1) : s.largest pos = c := by
  have hle := hcj.le
  have hpass : q.Passes c := hjc c hle hc.pos hcj
  exact (h.largest_eq_iff ho hc (by omega)).2 hpass

/-- Where `heapify` stops, the last element has gone past no unclean cell. -/
theorem GoingDown.cleanAt_of_stop {q s : PriorityQueue α} {pos j : Nat} (h : GoingDown q s pos)
    (ho : s.OrdersContents) (hstop : s.largest pos = pos) (hj : InSubtree pos j)
    (hjc : q.ComesTo j) : q.CleanAt j := by
  intro hrc hlt
  have hjr := (right_isChild j).lt
  have hlr : right j = left j + 1 := rfl
  rcases hj.eq_or_below with rfl | ⟨c, hc, hcj⟩
  · -- the last element would have gone on to the left child
    have hpass : q.Passes (left j) := by
      refine Or.inl ⟨?_, ?_⟩
      all_goals rw [(parent_isChild (left_isChild j).pos).unique (left_isChild j)]
      exact hlt
    have hsel := (h.largest_eq_iff ho (left_isChild j) (by omega)).2 hpass
    have hl := (left_isChild j).lt
    omega
  · have hsel := h.largest_of_comesTo ho hc hcj hjc (by omega)
    have hclt := hc.lt
    omega

/-- The calls of `heapify` from `pos` on pass only clean nodes exactly when every cell below that
the last element comes to is clean. -/
theorem GoingDown.cleanLoop_iff {q s : PriorityQueue α} {pos n : Nat} (h : GoingDown q s pos)
    (ho : s.OrdersContents) (hcomes : q.ComesTo pos) (hn : s.count - pos ≤ n) :
    CleanLoop n s pos ↔ ∀ j, InSubtree pos j → q.ComesTo j → q.CleanAt j := by
  have hpos := h.pos_lt
  have hcount := h.count
  induction n generalizing s pos with
  | zero => omega
  | succ n ih =>
    by_cases hstop : s.largest pos = pos
    · refine iff_of_true (fun hne => absurd hstop hne) ?_
      intro j hj hjc
      exact h.cleanAt_of_stop ho hstop hj hjc
    · have hk := largest_child hstop
      have hkc : s.largest pos < q.count - 1 := by
        rw [← hcount]
        exact hk.2
      have hpass : q.Passes (s.largest pos) := (h.largest_eq_iff ho hk.1 hkc).1 rfl
      have hfuel : (s.swap pos (s.largest pos)).count - s.largest pos ≤ n := by
        have hlt := hk.1.lt
        rw [swap_count]
        omega
      have hcomes' : q.ComesTo (s.largest pos) := (comesTo_child_iff hk.1).2 ⟨hcomes, hpass⟩
      have hnext : CleanLoop n (s.swap pos (s.largest pos)) (s.largest pos) ↔
          ∀ j, InSubtree (s.largest pos) j → q.ComesTo j → q.CleanAt j :=
        ih (h.swap hk.1 hkc) (ordersContents_swap ho hstop) hcomes' hfuel hkc hcount
      rw [CleanLoop, imp_iff_right hstop, h.cleanNode_iff ho hstop, hnext]
      constructor
      · rintro ⟨hhere, hbelow⟩ j hj hjc
        rcases hj.eq_or_below with rfl | ⟨c, hc, hcj⟩
        · exact hhere
        · intro hrc
          have hjr := (right_isChild j).lt
          -- the last element comes to no other child
          rw [h.largest_of_comesTo ho hc hcj hjc (by omega)] at hbelow
          exact hbelow j hcj hjc hrc
      · intro hall
        exact ⟨hall pos .root hcomes, fun j hj => hall j ((InSubtree.root.child hk.1).trans hj)⟩

theorem OrdersContents.dropRoot {q : PriorityQueue α} (h : q.OrdersContents) (hc : 1 < q.count) :
    q.dropRoot.OrdersContents := by
  refine h.mono fun x hx => ?_
  show x ∈ q.contents
  rw [← contents_dropRoot hc]
  exact Multiset.mem_cons_of_mem hx

/-- An extraction is clean exactly when the calls of `heapify` pass only clean nodes. -/
theorem cleanLoop_dropRoot_iff {q : PriorityQueue α} (ho : q.OrdersContents) (hc : 1 < q.count) :
    CleanLoop q.dropRoot.count q.dropRoot 0 ↔ q.CleanExtract := by
  rw [(goingDown_dropRoot hc).cleanLoop_iff (ho.dropRoot hc) (comesTo_zero q) (Nat.sub_le _ _)]
  constructor
  · intro h pos _
    exact h pos (inSubtree_zero pos)
  · intro h pos _ hcomes hrc
    have hlt := (right_isChild pos).lt
    exact h pos (by omega) hcomes hrc

/-! ## Sift-down -/

/-- The state of `heapify` at `pos` when it repairs a heap: only the children of `pos` can be out
of order, and the slot past the live part holds a copy of the element going down. -/
structure Repairing (q : PriorityQueue α) (pos : Nat) : Prop where
  down : DownFrom q.cmpFunc q.data q.count pos
  stale : q.data q.count = q.data pos
  pos_lt : pos < q.count

theorem Repairing.swap {q : PriorityQueue α} {pos k : Nat} (h : q.Repairing pos)
    (hk : IsChild k pos) (hkc : k < q.count)
    (hdown : DownFrom q.cmpFunc (swapCells q.data pos k) q.count k) :
    (q.swap pos k).Repairing k where
  down := hdown
  stale := by
    have hlt := hk.lt
    rw [swap_data, swap_count, swapCells_right, swapCells_of_ne _ (by omega) (by omega), h.stale]
  pos_lt := hkc

/-- Where `heapify` stops, no child is greater: the right child because of the second comparison,
the left one because it is not greater than the right one or than the copy in its place. -/
theorem Repairing.no_greater_child {q : PriorityQueue α} {pos : Nat} (h : q.Repairing pos)
    (ho : q.OrdersContents) (hstop : q.largest pos = pos) :
    ∀ c, IsChild c pos → c < q.count → ¬ 0 < q.cmpFunc (q.data c) (q.data pos) := by
  have hl := (left_isChild pos).lt
  have hr := (right_isChild pos).lt
  simp only [largest] at hstop
  split_ifs at hstop with h1 h2 h3
  · omega
  · omega
  · omega
  · have hright : right pos < q.count → q.cmpFunc (q.data (right pos)) (q.data pos) ≤ 0 :=
      fun hlt => not_lt.1 fun hpos => h3 ⟨hlt, hpos⟩
    have hleft : left pos < q.count → q.cmpFunc (q.data (left pos)) (q.data (right pos)) ≤ 0 :=
      fun hlt => not_lt.1 fun hpos => h1 ⟨hlt, hpos⟩
    intro c hc hcc
    rw [not_lt]
    rcases hc with rfl | rfl
    · have hlr := hleft hcc
      rcases Nat.lt_or_ge (right pos) q.count with hrc | hrc
      · exact ho.trans _ (mem_cells_of_lt hcc) _ (mem_cells_of_lt hrc) _
          (mem_cells_of_lt h.pos_lt) hlr (hright hrc)
      · -- the source reads the slot behind the live part, which holds the moved element
        have hstale : right pos = q.count := by
          rw [right] at hrc ⊢
          omega
        rwa [hstale, h.stale] at hlr
    · exact hright hcc

/-- The child `heapify` selects is not less than its sibling. -/
theorem Repairing.largest_max {q : PriorityQueue α} {pos : Nat} (ho : q.OrdersContents)
    (hne : q.largest pos ≠ pos) :
    ∀ c, IsChild c pos → c < q.count → q.cmpFunc (q.data c) (q.data (q.largest pos)) ≤ 0 := by
  have hk := largest_child hne
  have hself := ho.refl (mem_cells_of_lt hk.2)
  have hne' := hne
  simp only [largest] at hne' hself ⊢
  split_ifs at hne' hself ⊢ with h1 h2 h3
  · -- both comparisons succeed only for a function that is no order
    exact absurd h2.2 (ho.not_pos_of_pos (mem_cells_of_lt h1.1) (mem_cells_of_lt h2.1) h1.2)
  · intro c hc hcc
    rcases hc with rfl | rfl
    · exact hself
    · exact not_lt.1 fun hpos => h2 ⟨hcc, hpos⟩
  · intro c hc hcc
    rcases hc with rfl | rfl
    · exact not_lt.1 fun hpos => h1 ⟨hcc, hpos⟩
    · exact hself
  · exact absurd rfl hne'

/-- One exchange at a clean node. -/
theorem Repairing.step {q : PriorityQueue α} {pos : Nat} (h : q.Repairing pos)
    (ho : q.OrdersContents) (hne : q.largest pos ≠ pos) (hclean : q.CleanNode pos) :
    (q.swap pos (q.largest pos)).Repairing (q.largest pos) :=
  have hk := largest_child hne
  h.swap hk.1 hk.2 (h.down.step hk.1 hk.2 hclean (Repairing.largest_max ho hne))

/-- A clean way down restores the heap. -/
theorem Repairing.isHeap_loop {q : PriorityQueue α} {pos n : Nat} (h : q.Repairing pos)
    (ho : q.OrdersContents) (hn : q.count - pos ≤ n) (hclean : CleanLoop n q pos) :
    (heapifyLoop n q pos).IsHeap := by
  induction n generalizing q pos with
  | zero =>
    have hpos := h.pos_lt
    omega
  | succ n ih =>
    rw [heapifyLoop]
    split_ifs with hne
    · have hk := largest_child hne
      have hlt := hk.1.lt
      exact ih (h.step ho hne (hclean hne).1) (ordersContents_swap ho hne)
        (by rw [swap_count]; omega) (hclean hne).2
    · exact h.down.finish (h.no_greater_child ho (not_not.1 hne))

/-- In a heap every element is at least as great as the elements below it. -/
theorem IsHeap.subtree {q : PriorityQueue α} (h : q.IsHeap) (ho : q.OrdersContents) {i j : Nat}
    (hij : InSubtree i j) (hj : j < q.count) : q.cmpFunc (q.data j) (q.data i) ≤ 0 :=
  HeapOrdered.subtree h ho hij hj

/-- An exchange at a node that is not clean leaves the moved element below a smaller one. -/
theorem not_isHeap_of_not_cleanNode {q : PriorityQueue α} {pos : Nat} (ho : q.OrdersContents)
    (hne : q.largest pos ≠ pos) (hbad : ¬ q.CleanNode pos) :
    ¬ ((q.swap pos (q.largest pos)).heapify (q.largest pos)).IsHeap := by
  intro hheap
  have hk := largest_child hne
  have hlt := hk.1.lt
  -- the moved element ends somewhere below, and the child stays at `pos`
  obtain ⟨j, hj, hjc, hdata⟩ := heapify_moved (q.swap pos (q.largest pos)) hk.2
  have htop : ((q.swap pos (q.largest pos)).heapify (q.largest pos)).data pos =
      q.data (q.largest pos) := by
    rw [heapify_data_of_not_inSubtree fun hs => absurd hs.le (by omega), swap_data, swapCells_left]
  have ho' : ((q.swap pos (q.largest pos)).heapify (q.largest pos)).OrdersContents :=
    ho.of_contents_eq (heapify_cmpFunc _ _) ((contents_heapify _ _).trans (contents_swap hne))
  have hle := hheap.subtree ho' ((InSubtree.root.child hk.1).trans hj) (by simpa using hjc)
  rw [hdata, htop, swap_data, swapCells_right, heapify_cmpFunc] at hle
  exact hbad (not_lt.2 hle)

/-- A way down that ends in a heap was clean. -/
theorem cleanLoop_of_isHeap {q : PriorityQueue α} {pos n : Nat} (ho : q.OrdersContents)
    (hn : q.count - pos ≤ n) (hheap : (heapifyLoop n q pos).IsHeap) : CleanLoop n q pos := by
  induction n generalizing q pos with
  | zero => trivial
  | succ n ih =>
    intro hne
    have hk := largest_child hne
    have hlt := hk.1.lt
    rw [heapifyLoop, if_pos hne] at hheap
    have hfuel : (q.swap pos (q.largest pos)).count - q.largest pos ≤ n := by
      rw [swap_count]
      omega
    refine ⟨?_, ih (ordersContents_swap ho hne) hfuel hheap⟩
    by_contra hbad
    apply not_isHeap_of_not_cleanNode ho hne hbad
    rwa [heapify, heapifyLoop_of_le (by rw [swap_count]; omega) hfuel]

/-! ## extract -/

theorem IsHeap.repairing_dropRoot {q : PriorityQueue α} (h : q.IsHeap) (hc : 1 < q.count) :
    q.dropRoot.Repairing 0 where
  down := (HeapOrdered.mono h (Nat.sub_le _ _)).downFrom _
  stale := by
    rw [dropRoot_count, dropRoot_data, Function.update_self,
      Function.update_of_ne (show q.count - 1 ≠ 0 by omega)]
  pos_lt := by
    rw [dropRoot_count]
    omega

/-- `extract` keeps the heap exactly when it is clean. -/
theorem isHeap_extract_iff {q : PriorityQueue α} (h : q.IsHeap) (ho : q.OrdersContents) :
    q.extract.IsHeap ↔ q.CleanExtract := by
  rcases Nat.lt_or_ge 1 q.count with hc | hc
  · have he : q.extract = heapifyLoop q.dropRoot.count q.dropRoot 0 := by
      rw [extract, if_neg (by omega), if_pos (by omega)]
      rfl
    rw [he, ← cleanLoop_dropRoot_iff ho hc]
    exact ⟨cleanLoop_of_isHeap (ho.dropRoot hc) (Nat.sub_le _ _),
      (h.repairing_dropRoot hc).isHeap_loop (ho.dropRoot hc) (Nat.sub_le _ _)⟩
  · -- at most one element, so that nothing is left to order
    constructor
    · intro _ pos _ _ hrc
      omega
    · intro _ p c _ hcc
      rw [extract_count] at hcc
      omega

/-! ## insert -/

/-- `insert` keeps the heap. -/
theorem isHeap_insertInternal {q : PriorityQueue α} {key : α} (h : q.IsHeap)
    (ho : (q.insertInternal key).OrdersContents) : (q.insertInternal key).IsHeap := by
  have ho' : TotalPreorderOn q.cmpFunc {x | x ∈ key ::ₘ q.contents} := by
    have ho := ho
    rwa [OrdersContents, contents_insertInternal] at ho
  have hkey : key ∈ {x | x ∈ key ::ₘ q.contents} := Multiset.mem_cons_self key q.contents
  refine insertLoop_induction (P := fun d i out => UpHole q.cmpFunc d (q.count + 1) i key →
    (∀ j, j < q.count + 1 → j ≠ i → d j ∈ {x | x ∈ key ::ₘ q.contents}) →
      HeapOrdered q.cmpFunc (Function.update out.1 out.2 key) (q.count + 1)) ?_ ?_ q.data le_rfl
    (HeapOrdered.upHole h key) fun j hj hne => Multiset.mem_cons_of_mem (mem_cells_of_lt (by omega))
  · -- the loop stops at `i`
    intro d i hstop hole hmem
    refine hole.finish fun p hp => ?_
    have hlt := hp.lt
    have hin := hole.hole_lt
    rw [hp.unique (parent_isChild hp.pos)]
    exact (ho'.nonneg_iff (hmem _ (by have := (parent_isChild hp.pos).lt; omega)
      (by have := (parent_isChild hp.pos).lt; omega)) hkey).1 (hstop hp.pos)
  · -- the hole moves to the parent of `i`
    intro d i out hpos hlt ih hole hmem
    have hp := parent_isChild hpos
    have hpi := hp.lt
    have hin := hole.hole_lt
    refine ih (hole.step ho' hmem hkey hp hlt) fun j hj hne => ?_
    rcases eq_or_ne j i with rfl | hji
    · rw [Function.update_self]
      exact hmem _ (by omega) (by omega)
    · rw [Function.update_of_ne hji]
      exact hmem j hj hji

theorem isHeap_insert {plat : Platform} {q q' : PriorityQueue α} {key : α}
    (hins : insert plat q key = some q') (h : q.IsHeap) (ho : q'.OrdersContents) : q'.IsHeap := by
  obtain ⟨hd, hc, hcmp⟩ := insert_some hins
  have hcont : (q.insertInternal key).contents = q'.contents := by
    rw [contents_insertInternal, contents_insert hins]
  have hheap := isHeap_insertInternal h (ho.of_contents_eq (by simp [hcmp]) hcont)
  rw [IsHeap, hd, hc, hcmp]
  exact hheap

/-- A list of insertions keeps the heap when the final contents are ordered. -/
theorem isHeap_insertAll {plat : Platform} {keys : List α} {q q' : PriorityQueue α}
    (hins : insertAll plat keys q = some q') (h : q.IsHeap) (ho : q'.OrdersContents) :
    q'.IsHeap := by
  induction keys generalizing q with
  | nil =>
    cases hins
    exact h
  | cons key keys ih =>
    obtain ⟨p, hp, hq'⟩ := insertAll_cons_some.1 hins
    refine ih hq' (isHeap_insert hp h ?_)
    -- the contents on the way are part of the final ones
    have hsub : {x | x ∈ p.contents} ⊆ {x | x ∈ q'.contents} := by
      intro x hx
      change x ∈ q'.contents
      rw [contents_insertAll hq']
      exact Multiset.mem_add.2 (Or.inr hx)
    rw [OrdersContents, insertAll_cmpFunc hq'] at ho
    exact ho.mono hsub

/-- In a heap `max` answers a greatest element. -/
theorem IsHeap.max_greatest {q : PriorityQueue α} (h : q.IsHeap) (ho : q.OrdersContents) {m : α}
    (hm : q.max = some m) : ∀ x ∈ q.contents, q.cmpFunc x m ≤ 0 := by
  obtain ⟨-, rfl⟩ := max_eq_some.1 hm
  intro x hx
  exact HeapOrdered.root h ho hx

/-! ## Runs of operations -/

/-- An insertion, or an extraction whose moved element passes only clean nodes. -/
def CleanStep (q : PriorityQueue α) : Operation α → Prop
  | .insert _ => True
  | .extract => q.CleanExtract

instance (q : PriorityQueue α) : (op : Operation α) → Decidable (q.CleanStep op)
  | .insert _ => inferInstanceAs (Decidable True)
  | .extract => inferInstanceAs (Decidable q.CleanExtract)

/-- The answers of `max` before each of `n` extractions. -/
def drain : Nat → PriorityQueue α → List α
  | 0, _ => []
  | n + 1, q =>
    match q.max with
    | none => []
    | some x => x :: drain n q.extract

/-- With an order on all elements, a step from a heap ends in a heap exactly when it is clean. -/
theorem isHeap_step_iff {plat : Platform} {q q' : PriorityQueue α} {op : Operation α}
    (ho : TotalPreorder q.cmpFunc) (h : q.IsHeap) (hstep : step plat q op = some q') :
    q'.IsHeap ↔ q.CleanStep op := by
  cases op with
  | insert key =>
    have ho' : q'.OrdersContents := by
      have hall : TotalPreorder q'.cmpFunc := by rwa [step_cmpFunc hstep]
      exact hall.mono (Set.subset_univ _)
    exact ⟨fun _ => trivial, fun _ => isHeap_insert hstep h ho'⟩
  | extract =>
    cases hstep
    exact isHeap_extract_iff h (ho.mono (Set.subset_univ _))

/-- Extractions answer elements of the queue, each of them once. -/
theorem coe_drain_le (n : Nat) (q : PriorityQueue α) : (drain n q : Multiset α) ≤ q.contents := by
  induction n generalizing q with
  | zero => exact Multiset.zero_le _
  | succ n ih =>
    rw [drain]
    cases hm : q.max with
    | none => exact Multiset.zero_le _
    | some m =>
      obtain ⟨hpos, rfl⟩ := max_eq_some.1 hm
      rw [← contents_extract hpos]
      exact Multiset.cons_le_cons _ (ih q.extract)

theorem length_drain (n : Nat) (q : PriorityQueue α) : (drain n q).length = min n q.count := by
  induction n generalizing q with
  | zero => rw [drain, List.length_nil, Nat.zero_min]
  | succ n ih =>
    rw [drain]
    cases hm : q.max with
    | none =>
      have hzero : q.count = 0 := by
        by_contra hne
        simp [max, hne] at hm
      rw [hzero, Nat.min_zero, List.length_nil]
    | some m =>
      obtain ⟨hpos, -⟩ := max_eq_some.1 hm
      change (drain n q.extract).length + 1 = min (n + 1) q.count
      rw [ih, extract_count]
      omega

/-- Clean extractions from a heap answer in non-increasing order. -/
theorem drain_pairwise {plat : Platform} {q : PriorityQueue α} {n : Nat}
    (ho : TotalPreorder q.cmpFunc) (h : q.IsHeap)
    (hclean : StepsMeet (step plat) CleanStep (List.replicate n .extract) q) :
    (drain n q).Pairwise fun a b => q.cmpFunc b a ≤ 0 := by
  induction n generalizing q with
  | zero => exact List.Pairwise.nil
  | succ n ih =>
    rw [drain]
    cases hm : q.max with
    | none => exact List.Pairwise.nil
    | some m =>
      obtain ⟨hpos, -⟩ := max_eq_some.1 hm
      have hnext := ih (q := q.extract) (by rwa [extract_cmpFunc])
        ((isHeap_extract_iff h (ho.mono (Set.subset_univ _))).2 hclean.1) (hclean.2 _ rfl)
      rw [extract_cmpFunc] at hnext
      refine List.Pairwise.cons (fun x hx => ?_) hnext
      apply h.max_greatest (ho.mono (Set.subset_univ _)) hm x
      rw [← contents_extract hpos]
      exact Multiset.mem_cons_of_mem (Multiset.mem_of_le (coe_drain_le n q.extract) hx)

/-- All elements lie inside the block and form a heap, and `max` answers one that none of them
compares greater than. -/
structure HeapInBlock (q : PriorityQueue α) : Prop where
  covered : q.Covered
  heap : q.IsHeap
  max_mem : ∀ m, q.max = some m → m ∈ q.stored
  max_greatest : ∀ m, q.max = some m → ∀ x ∈ q.stored, q.cmpFunc x m ≤ 0

theorem heapInBlock {q : PriorityQueue α} (hc : q.Covered) (h : q.IsHeap)
    (ho : TotalPreorder q.cmpFunc) : q.HeapInBlock where
  covered := hc
  heap := h
  max_mem m hm := by
    rw [hc.stored_eq]
    exact PriorityQueue.max_mem hm
  max_greatest m hm := by
    rw [hc.stored_eq]
    exact h.max_greatest (ho.mono (Set.subset_univ _)) hm

/-- In every state the run reaches the elements inside the block are a heap with a greatest one on
top. -/
def HeapThroughout (plat : Platform) (ops : List (Operation α)) (q₀ : PriorityQueue α) : Prop :=
  ∀ pre, pre <+: ops → ∀ q, run (step plat) pre q₀ = some q → q.HeapInBlock

/-- Any number of consecutive extractions of the run answers elements of the block, each of them
once, in non-increasing order. -/
def DrainsInOrder (plat : Platform) (ops : List (Operation α)) (q₀ : PriorityQueue α) : Prop :=
  ∀ pre n, pre ++ List.replicate n .extract <+: ops → ∀ q, run (step plat) pre q₀ = some q →
    (drain n q : Multiset α) ≤ q.stored ∧ (drain n q).length = min n q.count ∧
      (drain n q).Pairwise fun a b => q.cmpFunc b a ≤ 0

/-- A clean step that has room in the block. -/
def SoundStep (plat : Platform) (q : PriorityQueue α) (op : Operation α) : Prop :=
  q.CleanStep op ∧ HasRoom plat q op

instance (plat : Platform) (q : PriorityQueue α) (op : Operation α) :
    Decidable (SoundStep plat q op) :=
  inferInstanceAs (Decidable (_ ∧ _))

/-- What an extracting or inserting call needs to find, and keeps when it is sound. -/
structure HeapState (plat : Platform) (cmp : CompareFunc α) (q : PriorityQueue α) : Prop where
  cmpFunc : q.cmpFunc = cmp
  requested : Requested plat q
  covered : q.Covered
  heap : q.IsHeap

theorem HeapState.step_iff {plat : Platform} {cmp : CompareFunc α} {q q' : PriorityQueue α}
    {op : Operation α} (ho : TotalPreorder cmp) (h : HeapState plat cmp q)
    (hstep : step plat q op = some q') : HeapState plat cmp q' ↔ SoundStep plat q op := by
  obtain ⟨rfl, hr, hc, hheap⟩ := h
  rw [SoundStep, ← isHeap_step_iff ho hheap hstep]
  constructor
  · rintro ⟨-, -, hc', hheap'⟩
    refine ⟨hheap', ?_⟩
    cases op with
    | insert key => exact (covered_insert_iff hc hr hstep).1 hc'
    | extract => trivial
  · rintro ⟨hheap', hroom⟩
    exact ⟨step_cmpFunc hstep, hr.step hstep, hc.step hr hroom hstep, hheap'⟩

/-- A call that ends the process has been sound. -/
theorem soundStep_of_end {plat : Platform} {q : PriorityQueue α} {op : Operation α}
    (h : step plat q op = none) : SoundStep plat q op := by
  cases op with
  | insert key => exact ⟨trivial, hasRoom_of_end h⟩
  | extract => cases h

/-- The comparison function of the test program. -/
def subCompare : CompareFunc Int := fun a b => a - b

theorem subCompare_totalPreorder : TotalPreorder subCompare where
  pos_iff a _ b _ := by
    simp only [subCompare]
    omega
  trans a _ b _ c _ := by
    simp only [subCompare]
    omega

/-- Seven insertions into a block for one element, which grows twice, and three extractions. -/
def growAndExtract : List (Operation Int) :=
  [.insert 3, .insert 7, .insert 5, .insert 9, .insert 4, .insert 8, .insert 2, .extract, .extract,
    .extract]

end IpSentinel.PriorityQueue

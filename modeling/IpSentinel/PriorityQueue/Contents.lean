import IpSentinel.PriorityQueue.Queue

/-!
# The elements of the priority queue

The stored elements form a multiset, the first `count` cells. `insert` adds exactly its key and
`extract` removes exactly the element `max` answers, whatever the comparison function does: the
repair loops only exchange cells (`rearranges_heapify`) or move a hole
(`rearranges_insertInternal`), and neither touches a cell outside the live part.
-/

set_option autoImplicit false

namespace IpSentinel.PriorityQueue

open Foundation

universe u

variable {α : Type u}

/-- The stored elements. -/
def contents (q : PriorityQueue α) : Multiset α := cells q.data q.count

@[simp] theorem card_contents (q : PriorityQueue α) : q.contents.card = q.count :=
  card_cells _ _

theorem contents_eq_zero_iff {q : PriorityQueue α} : q.contents = 0 ↔ q.count = 0 := by
  rw [← Multiset.card_eq_zero, card_contents]

theorem rearranges_swap {q : PriorityQueue α} {pos : Nat} (hne : q.largest pos ≠ pos) :
    Rearranges q.count q.data (q.swap pos (q.largest pos)).data := by
  have hc := largest_child hne
  have hlt := hc.1.lt
  exact rearranges_swapCells q.data (by omega) hc.2

theorem contents_swap {q : PriorityQueue α} {pos : Nat} (hne : q.largest pos ≠ pos) :
    (q.swap pos (q.largest pos)).contents = q.contents :=
  (rearranges_swap hne).cells_eq

/-- The sift-down of `heapify` only exchanges elements of the live part. -/
theorem rearranges_heapify (q : PriorityQueue α) (pos : Nat) :
    Rearranges q.count q.data (q.heapify pos).data := by
  refine heapify_induction
    (P := fun q _ out => Rearranges q.count q.data out.data) ?_ ?_ q pos
  · intro q _ _
    exact .refl _ _
  · intro q pos out hne ih
    exact (rearranges_swap hne).trans ih

theorem contents_heapify (q : PriorityQueue α) (pos : Nat) :
    (q.heapify pos).contents = q.contents := by
  rw [contents, contents, heapify_count]
  exact (rearranges_heapify q pos).cells_eq

theorem contents_dropRoot {q : PriorityQueue α} (h : 1 < q.count) :
    q.data 0 ::ₘ q.dropRoot.contents = q.contents := by
  obtain ⟨n, hn⟩ : ∃ n, q.count = n + 1 := ⟨q.count - 1, by omega⟩
  simp only [contents, dropRoot_data, dropRoot_count, hn, Nat.add_sub_cancel, cells_succ]
  exact cells_update (by omega) _

/-- After the last element has taken the place of the root, `extract` only exchanges elements of
what is left of the live part. -/
theorem rearranges_extract (q : PriorityQueue α) :
    Rearranges (q.count - 1) (Function.update q.data 0 (q.data (q.count - 1))) q.extract.data := by
  rw [extract]
  split_ifs with h0 h1
  · rw [h0, Function.update_eq_self]
    exact .refl _ _
  · exact rearranges_heapify q.dropRoot 0
  · -- the only element is the root
    have hlast : q.count - 1 = 0 := by omega
    rw [hlast, Function.update_eq_self]
    exact .refl _ _

/-- `extract` removes the root and nothing else. -/
theorem contents_extract {q : PriorityQueue α} (h : 0 < q.count) :
    q.data 0 ::ₘ q.extract.contents = q.contents := by
  rw [extract, if_neg (by omega)]
  split_ifs with h1
  · rw [contents_heapify]
    exact contents_dropRoot (by omega)
  · have hone : q.count = 1 := by omega
    simp [contents, hone]

theorem extract_of_empty {q : PriorityQueue α} (h : q.count = 0) : q.extract = q := by
  simp [extract, h]

/-- The induction rule for the loop of `insertInternal`. -/
theorem insertLoop_induction {cmp : CompareFunc α} {key : α}
    {P : (Nat → α) → Nat → (Nat → α) × Nat → Prop}
    (stop : ∀ d i, (0 < i → 0 ≤ cmp (d (parent i)) key) → P d i (d, i))
    (step : ∀ d i out, 0 < i → cmp (d (parent i)) key < 0 →
      P (Function.update d i (d (parent i))) (parent i) out → P d i out)
    {n i : Nat} (d : Nat → α) (h : i ≤ n) : P d i (insertLoop cmp key n d i) := by
  induction n generalizing d i with
  | zero => exact stop d i fun hi => by omega
  | succ n ih =>
    -- the source stops at the root, or at a parent that is not less than the key
    rw [insertLoop]
    split_ifs with h0 hle
    · exact stop d i fun hi => by omega
    · exact stop d i fun _ => hle
    · have hlt := (parent_isChild (Nat.pos_of_ne_zero h0)).lt
      exact step d i _ (by omega) (by omega) (ih _ (by omega))

/-- Filling the hole of `insertInternal` at the end of the loop, instead of at any earlier moment,
only exchanges elements of the first `n` cells, when the hole starts there. -/
theorem insertLoop_rearranges (cmp : CompareFunc α) (key : α) {n i m : Nat} (d : Nat → α)
    (hi : i < n) (h : i ≤ m) :
    Rearranges n (Function.update d i key)
      (Function.update (insertLoop cmp key m d i).1 (insertLoop cmp key m d i).2 key) := by
  revert hi
  refine insertLoop_induction (P := fun d i out => i < n →
    Rearranges n (Function.update d i key) (Function.update out.1 out.2 key)) ?_ ?_ d h
  · intro d i _ _
    exact .refl _ _
  · intro d i out hpos _ ih hi
    have hlt := (parent_isChild hpos).lt
    refine Rearranges.trans ?_ (ih (by omega))
    -- filling the hole at the parent instead of at `i` exchanges the two cells
    have hswap : Function.update (Function.update d i (d (parent i))) (parent i) key =
        swapCells (Function.update d i key) i (parent i) := by
      rw [swapCells, Function.update_self, Function.update_of_ne hlt.ne, Function.update_idem]
    rw [hswap]
    exact rearranges_swapCells _ hi (by omega)

/-- The key has taken the cell behind the live part and changed places with elements in it. -/
theorem rearranges_insertInternal (q : PriorityQueue α) (key : α) :
    Rearranges (q.count + 1) (Function.update q.data q.count key) (q.insertInternal key).data :=
  insertLoop_rearranges q.cmpFunc key q.data (Nat.lt_succ_self q.count) le_rfl

/-- `insert` adds the key and nothing else. -/
theorem contents_insertInternal (q : PriorityQueue α) (key : α) :
    (q.insertInternal key).contents = key ::ₘ q.contents := by
  rw [contents, insertInternal_count, (rearranges_insertInternal q key).cells_eq, cells_succ,
    Function.update_self, cells_update_of_le le_rfl]
  rfl

theorem contents_insert {plat : Platform} {q q' : PriorityQueue α} {key : α}
    (h : insert plat q key = some q') : q'.contents = key ::ₘ q.contents := by
  obtain ⟨hd, hc, -⟩ := insert_some h
  rw [← contents_insertInternal, contents, contents, hd, hc, insertInternal_count]

/-- The insertion of a list of keys, one after the other. -/
def insertAll (plat : Platform) : List α → PriorityQueue α → Option (PriorityQueue α)
  | [], q => some q
  | key :: keys, q => (insert plat q key).bind (insertAll plat keys)

theorem insertAll_cons_some {plat : Platform} {key : α} {keys : List α} {q q' : PriorityQueue α} :
    insertAll plat (key :: keys) q = some q' ↔
      ∃ p, insert plat q key = some p ∧ insertAll plat keys p = some q' :=
  Option.bind_eq_some_iff

theorem contents_insertAll {plat : Platform} {keys : List α} {q q' : PriorityQueue α}
    (h : insertAll plat keys q = some q') : q'.contents = keys + q.contents := by
  induction keys generalizing q with
  | nil =>
    cases h
    simp
  | cons key keys ih =>
    obtain ⟨p, hp, hq'⟩ := insertAll_cons_some.1 h
    rw [ih hq', contents_insert hp, ← Multiset.cons_coe, Multiset.cons_add, Multiset.add_cons]

theorem insertAll_cmpFunc {plat : Platform} {keys : List α} {q q' : PriorityQueue α}
    (h : insertAll plat keys q = some q') : q'.cmpFunc = q.cmpFunc := by
  induction keys generalizing q with
  | nil =>
    cases h
    rfl
  | cons key keys ih =>
    obtain ⟨p, hp, hq'⟩ := insertAll_cons_some.1 h
    exact (ih hq').trans (insert_some hp).2.2

/-- With room in the block the insertions succeed. -/
theorem insertAll_of_room (plat : Platform) {keys : List α} {q : PriorityQueue α}
    (h : q.count + keys.length ≤ q.allocated) :
    ∃ q', insertAll plat keys q = some q' ∧ q'.allocated = q.allocated := by
  induction keys generalizing q with
  | nil => exact ⟨q, rfl, rfl⟩
  | cons key keys ih =>
    rw [List.length_cons] at h
    have hins : insert plat q key = some (q.insertInternal key) := by
      rw [insert, grow, if_neg (by omega)]
      rfl
    obtain ⟨q', hq', halloc⟩ := ih (q := q.insertInternal key) (by
      rw [insertInternal_count]
      change q.count + 1 + keys.length ≤ q.allocated
      omega)
    exact ⟨q', insertAll_cons_some.2 ⟨_, hins, hq'⟩, halloc⟩

/-- The answer of `max` is a stored element. -/
theorem max_mem {q : PriorityQueue α} {x : α} (h : q.max = some x) : x ∈ q.contents := by
  obtain ⟨hpos, rfl⟩ := max_eq_some.1 h
  exact mem_cells_of_lt hpos

end IpSentinel.PriorityQueue

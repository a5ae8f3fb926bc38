import IpSentinel.Foundation.HeapOrder
import IpSentinel.Foundation.Platform

/-!
# The priority queue

The functions of `prioqueue.c`: a max-heap for a comparison function, kept in one block of memory.
The block is modelled as a function from cell numbers to elements, so that the slot just past the
live part, which `heapify` also reads, has its content. The content of a cell before the first
write is whatever `malloc` returned.

`init` and `insert` answer `none` when the process ends, because the allocator fails or because
the element count exceeds `size_t`.
-/

set_option autoImplicit false

namespace IpSentinel

open Foundation

universe u

/-- `struct PriorityQueue`, with the byte size last requested for the block behind `data`. -/
structure PriorityQueue (α : Type u) where
  data : Nat → α
  count : Nat
  allocated : Nat
  elemSize : Nat
  bytes : Nat
  cmpFunc : CompareFunc α

namespace PriorityQueue

variable {α : Type u}

/-! ## The functions of the source -/

/-- The loop of `powify`, with bit `i - 1` next. -/
def powifyLoop (plat : Platform) (val : Nat) : Nat → Nat
  | 0 => 1
  | i + 1 =>
    -- the highest bit of `val` that is set
    if val &&& plat.toSize (plat.intShl i) ≠ 0 then
      if i = plat.sizeBits - 1 then val else plat.toSize (toInt (plat.intShl (i + 1) - 1))
    else powifyLoop plat val i

def powify (plat : Platform) (val : Nat) : Nat := powifyLoop plat val plat.sizeBits

def parent (i : Nat) : Nat := (i - 1) / 2

def left (i : Nat) : Nat := 2 * i + 1

def right (i : Nat) : Nat := 2 * i + 2

/-- `Emalloc` and `Erealloc`: the process ends when a request of `size` bytes fails. -/
def allocate (plat : Platform) (size : Nat) : Option Nat :=
  if plat.grants size = false ∧ size ≠ 0 then none else some size

/-- `mem` is the content of the block `malloc` returns. -/
def init (plat : Platform) (mem : Nat → α) (cmp : CompareFunc α) (count elemSize : Nat) :
    Option (PriorityQueue α) :=
  let count := powify plat count
  (allocate plat (count * elemSize % 2 ^ plat.sizeBits)).map fun bytes =>
    { data := mem, count := 0, allocated := count, elemSize, bytes, cmpFunc := cmp }

/-- The local variable `largest` of `heapify` after its two comparisons. -/
def largest (q : PriorityQueue α) (pos : Nat) : Nat :=
  let l := left pos
  let r := right pos
  -- the source compares the left child with the right one, not with `pos`
  let best := if l < q.count ∧ 0 < q.cmpFunc (q.data l) (q.data r) then l else pos
  if r < q.count ∧ 0 < q.cmpFunc (q.data r) (q.data best) then r else best

/-- The three `memcpy` of `heapify`. -/
def swap (q : PriorityQueue α) (i j : Nat) : PriorityQueue α :=
  { q with data := swapCells q.data i j }

/-- The recursion of `heapify`, cut off after a number of calls. -/
def heapifyLoop : Nat → PriorityQueue α → Nat → PriorityQueue α
  | 0, q, _ => q
  | n + 1, q, pos =>
    if q.largest pos ≠ pos then heapifyLoop n (q.swap pos (q.largest pos)) (q.largest pos) else q

/-- Every recursive call is for a larger position below `count`, so that `count` calls are enough
(`heapify_eq`). -/
def heapify (q : PriorityQueue α) (pos : Nat) : PriorityQueue α := heapifyLoop q.count q pos

/-- The queue when `extract` calls `heapify`: the last element is copied over the root. -/
def dropRoot (q : PriorityQueue α) : PriorityQueue α :=
  { q with
    count := q.count - 1
    data := Function.update q.data 0 (q.data (q.count - 1)) }

def extract (q : PriorityQueue α) : PriorityQueue α :=
  if q.count = 0 then q
  else if q.count - 1 > 0 then q.dropRoot.heapify 0
  else { q with count := q.count - 1 }

/-- The loop of `insertInternal` with the hole at `i`: the cells and the final hole. The hole moves
to a smaller position, so that `i` turns are enough. -/
def insertLoop (cmp : CompareFunc α) (key : α) : Nat → (Nat → α) → Nat → (Nat → α) × Nat
  | 0, d, i => (d, i)
  | n + 1, d, i =>
    if i = 0 then (d, i)
    else if 0 ≤ cmp (d (parent i)) key then (d, i)
    else insertLoop cmp key n (Function.update d i (d (parent i))) (parent i)

def insertInternal (q : PriorityQueue α) (key : α) : PriorityQueue α :=
  let h := insertLoop q.cmpFunc key q.count q.data q.count
  { q with data := Function.update h.1 h.2 key, count := q.count + 1 }

/-- The growth step of `insert`. -/
def grow (plat : Platform) (q : PriorityQueue α) : Option (PriorityQueue α) :=
  if q.count = q.allocated then
    let newSize := (q.allocated * 2 + 1) % 2 ^ plat.sizeBits
    -- the count has run over
    if newSize < q.allocated then none
    else (allocate plat (newSize * q.elemSize % 2 ^ plat.sizeBits)).map fun bytes =>
      { q with allocated := newSize, bytes }
  else some q

def insert (plat : Platform) (q : PriorityQueue α) (key : α) : Option (PriorityQueue α) :=
  (grow plat q).map fun q => q.insertInternal key

/-- `PriorityQueue_max`, `none` for the null pointer. -/
def max (q : PriorityQueue α) : Option α := if q.count = 0 then none else some (q.data 0)

/-- A call on a queue. -/
inductive Operation (α : Type u) where
  | insert (key : α)
  | extract

/-- The queue after a call. -/
def step (plat : Platform) (q : PriorityQueue α) : Operation α → Option (PriorityQueue α)
  | .insert key => insert plat q key
  | .extract => some q.extract

/-! ## What the functions leave alone -/

@[simp] theorem swap_count (q : PriorityQueue α) (i j : Nat) : (q.swap i j).count = q.count := rfl

@[simp] theorem swap_cmpFunc (q : PriorityQueue α) (i j : Nat) :
    (q.swap i j).cmpFunc = q.cmpFunc := rfl

@[simp] theorem swap_data (q : PriorityQueue α) (i j : Nat) :
    (q.swap i j).data = swapCells q.data i j := rfl

@[simp] theorem dropRoot_count (q : PriorityQueue α) : q.dropRoot.count = q.count - 1 := rfl

@[simp] theorem dropRoot_cmpFunc (q : PriorityQueue α) : q.dropRoot.cmpFunc = q.cmpFunc := rfl

@[simp] theorem dropRoot_data (q : PriorityQueue α) :
    q.dropRoot.data = Function.update q.data 0 (q.data (q.count - 1)) := rfl

theorem left_isChild (i : Nat) : IsChild (left i) i := Or.inl rfl

theorem right_isChild (i : Nat) : IsChild (right i) i := Or.inr rfl

theorem parent_isChild {i : Nat} (h : 0 < i) : IsChild i (parent i) := exists_parent h

/-- `largest` is the position itself or a child in the live part. -/
theorem largest_cases (q : PriorityQueue α) (pos : Nat) :
    q.largest pos = pos ∨ IsChild (q.largest pos) pos ∧ q.largest pos < q.count := by
  simp only [largest]
  split_ifs with h1 h2 h2
  · exact Or.inr ⟨right_isChild pos, h2.1⟩
  · exact Or.inr ⟨left_isChild pos, h1.1⟩
  · exact Or.inr ⟨right_isChild pos, h2.1⟩
  · exact Or.inl rfl

theorem largest_child {q : PriorityQueue α} {pos : Nat} (h : q.largest pos ≠ pos) :
    IsChild (q.largest pos) pos ∧ q.largest pos < q.count :=
  (q.largest_cases pos).resolve_left h

/-- Once the bound on the calls covers the rest of the live part it does not matter. -/
theorem heapifyLoop_of_le {q : PriorityQueue α} {pos n m : Nat} (hn : q.count - pos ≤ n)
    (hm : q.count - pos ≤ m) : heapifyLoop n q pos = heapifyLoop m q pos := by
  -- a position at the end of the live part has no children
  have stop : ∀ q : PriorityQueue α, ∀ pos, q.count - pos = 0 → q.largest pos = pos := by
    intro q pos h0
    by_contra hne
    have hc := largest_child hne
    have hlt := hc.1.lt
    omega
  induction n generalizing q pos m with
  | zero =>
    cases m with
    | zero => rfl
    | succ m => simp [heapifyLoop, stop q pos (by omega)]
  | succ n ih =>
    cases m with
    | zero => simp [heapifyLoop, stop q pos (by omega)]
    | succ m =>
      simp only [heapifyLoop]
      split_ifs with hne
      · have hc := largest_child hne
        have hlt := hc.1.lt
        refine ih ?_ ?_ <;> rw [swap_count] <;> omega
      · rfl

/-- `heapify` as the source writes it. -/
theorem heapify_eq (q : PriorityQueue α) (pos : Nat) :
    q.heapify pos =
      if q.largest pos ≠ pos then (q.swap pos (q.largest pos)).heapify (q.largest pos) else q := by
  have h : q.heapify pos = heapifyLoop (q.count + 1) q pos :=
    heapifyLoop_of_le (by omega) (by omega)
  rw [h]
  rfl

/-- The induction rule for `heapify`: a relation between the queue before the call, the position
and the queue after it holds if it holds where the recursion ends and passes through a swap. -/
theorem heapify_induction {P : PriorityQueue α → Nat → PriorityQueue α → Prop}
    (stop : ∀ q pos, q.largest pos = pos → P q pos q)
    (step : ∀ q pos out, q.largest pos ≠ pos →
      P (q.swap pos (q.largest pos)) (q.largest pos) out → P q pos out)
    (q : PriorityQueue α) (pos : Nat) : P q pos (q.heapify pos) := by
  -- the distance to the end of the live part gets smaller with each call
  induction hk : q.count - pos using Nat.strong_induction_on generalizing q pos with
  | _ k ih =>
    rw [heapify_eq]
    by_cases hne : q.largest pos = pos
    · rw [if_neg (not_not.2 hne)]
      exact stop q pos hne
    · rw [if_pos hne]
      have hc := largest_child hne
      have hlt := hc.1.lt
      exact step q pos _ hne (ih _ (by rw [swap_count]; omega) _ _ rfl)

@[simp] theorem heapify_count (q : PriorityQueue α) (pos : Nat) :
    (q.heapify pos).count = q.count :=
  heapify_induction (P := fun q _ out => out.count = q.count) (fun _ _ _ => rfl)
    (fun _ _ _ _ h => h) q pos

@[simp] theorem heapify_cmpFunc (q : PriorityQueue α) (pos : Nat) :
    (q.heapify pos).cmpFunc = q.cmpFunc :=
  heapify_induction (P := fun q _ out => out.cmpFunc = q.cmpFunc) (fun _ _ _ => rfl)
    (fun _ _ _ _ h => h) q pos

/-- `heapify` writes only in the subtree below its position. -/
theorem heapify_data_of_not_inSubtree {q : PriorityQueue α} {pos i : Nat}
    (h : ¬ InSubtree pos i) : (q.heapify pos).data i = q.data i := by
  revert h
  refine heapify_induction
    (P := fun q pos out => ¬ InSubtree pos i → out.data i = q.data i) ?_ ?_ q pos
  · intro q pos _ _
    rfl
  · intro q pos out hne ih hi
    have hc := (largest_child hne).1
    rw [ih fun hk => hi ((InSubtree.root.child hc).trans hk), swap_data]
    exact swapCells_of_ne _ (fun e => hi (e ▸ .root)) fun e => hi (e ▸ InSubtree.root.child hc)

/-- The element `heapify` is called for ends somewhere in the live part of the subtree. -/
theorem heapify_moved (q : PriorityQueue α) {pos : Nat} (h : pos < q.count) :
    ∃ j, InSubtree pos j ∧ j < q.count ∧ (q.heapify pos).data j = q.data pos := by
  revert h
  refine heapify_induction (P := fun q pos out =>
    pos < q.count → ∃ j, InSubtree pos j ∧ j < q.count ∧ out.data j = q.data pos) ?_ ?_ q pos
  · intro q pos _ h
    exact ⟨pos, .root, h, rfl⟩
  · intro q pos out hne ih _
    have hc := largest_child hne
    obtain ⟨j, hj, hjc, hdata⟩ := ih hc.2
    rw [swap_data, swapCells_right] at hdata
    exact ⟨j, (InSubtree.root.child hc.1).trans hj, hjc, hdata⟩

/-- `heapify` writes nothing but the cells. -/
theorem heapify_eq_data (q : PriorityQueue α) (pos : Nat) :
    ∃ d, q.heapify pos = { q with data := d } := by
  refine heapify_induction (P := fun q _ out => ∃ d, out = { q with data := d }) ?_ ?_ q pos
  · intro q _ _
    exact ⟨q.data, rfl⟩
  · rintro q pos out _ ⟨d, rfl⟩
    exact ⟨d, rfl⟩

/-- `extract` writes the cells and the count. -/
theorem extract_eq_data (q : PriorityQueue α) :
    ∃ d, q.extract = { q with data := d, count := q.count - 1 } := by
  rw [extract]
  split_ifs with h0 h1
  · refine ⟨q.data, ?_⟩
    rw [h0, Nat.zero_sub, ← h0]
  · obtain ⟨d, hd⟩ := heapify_eq_data q.dropRoot 0
    exact ⟨d, hd⟩
  · exact ⟨q.data, rfl⟩

@[simp] theorem extract_cmpFunc (q : PriorityQueue α) : q.extract.cmpFunc = q.cmpFunc := by
  rw [extract]
  split_ifs <;> simp

@[simp] theorem extract_count (q : PriorityQueue α) : q.extract.count = q.count - 1 := by
  rw [extract]
  split_ifs with h0 h1
  · omega
  · simp
  · rfl

@[simp] theorem insertInternal_count (q : PriorityQueue α) (key : α) :
    (q.insertInternal key).count = q.count + 1 := rfl

@[simp] theorem insertInternal_cmpFunc (q : PriorityQueue α) (key : α) :
    (q.insertInternal key).cmpFunc = q.cmpFunc := rfl

theorem allocate_some {plat : Platform} {size b : Nat} (h : allocate plat size = some b) :
    b = size := by
  rw [allocate] at h
  split_ifs at h
  exact (Option.some.inj h).symm

/-- The growth step changes nothing while there is a free cell, and otherwise the cell number and
the byte size of the block, if it does not end the process. -/
theorem grow_cases {plat : Platform} {q q' : PriorityQueue α} (h : grow plat q = some q') :
    q.count ≠ q.allocated ∧ q' = q ∨
      q.count = q.allocated ∧
        q.allocated ≤ (q.allocated * 2 + 1) % 2 ^ plat.sizeBits ∧
        q' = { q with
          allocated := (q.allocated * 2 + 1) % 2 ^ plat.sizeBits
          bytes := (q.allocated * 2 + 1) % 2 ^ plat.sizeBits * q.elemSize %
            2 ^ plat.sizeBits } := by
  simp only [grow] at h
  split_ifs at h with h1 h2
  · obtain ⟨b, hb, rfl⟩ := Option.map_eq_some_iff.1 h
    rw [allocate_some hb]
    exact Or.inr ⟨h1, not_lt.1 h2, rfl⟩
  · cases h
    exact Or.inl ⟨h1, rfl⟩

/-- Growing the block changes neither the elements nor the comparison function. -/
theorem grow_some {plat : Platform} {q q' : PriorityQueue α} (h : grow plat q = some q') :
    q'.data = q.data ∧ q'.count = q.count ∧ q'.cmpFunc = q.cmpFunc := by
  obtain ⟨-, rfl⟩ | ⟨-, -, rfl⟩ := grow_cases h
  · exact ⟨rfl, rfl, rfl⟩
  · exact ⟨rfl, rfl, rfl⟩

/-- An insertion that does not end the process is `insertInternal` on the same elements. -/
theorem insert_some {plat : Platform} {q q' : PriorityQueue α} {key : α}
    (h : insert plat q key = some q') :
    q'.data = (q.insertInternal key).data ∧ q'.count = q.count + 1 ∧ q'.cmpFunc = q.cmpFunc := by
  obtain ⟨g, hg, rfl⟩ := Option.map_eq_some_iff.1 h
  obtain ⟨hd, hc, hcmp⟩ := grow_some hg
  simp [insertInternal, hd, hc, hcmp]

/-- `insert` writes the cells and the count, and what `grow_cases` says of the block. -/
theorem insert_cases {plat : Platform} {q q' : PriorityQueue α} {key : α}
    (h : insert plat q key = some q') :
    ∃ d, q.count ≠ q.allocated ∧ q' = { q with data := d, count := q.count + 1 } ∨
      q.count = q.allocated ∧
        q.allocated ≤ (q.allocated * 2 + 1) % 2 ^ plat.sizeBits ∧
        q' = { q with
          data := d
          count := q.count + 1
          allocated := (q.allocated * 2 + 1) % 2 ^ plat.sizeBits
          bytes := (q.allocated * 2 + 1) % 2 ^ plat.sizeBits * q.elemSize %
            2 ^ plat.sizeBits } := by
  obtain ⟨p, hp, rfl⟩ := Option.map_eq_some_iff.1 h
  refine ⟨(p.insertInternal key).data, ?_⟩
  obtain ⟨hroom, rfl⟩ | ⟨hfull, hle, rfl⟩ := grow_cases hp
  · exact Or.inl ⟨hroom, rfl⟩
  · exact Or.inr ⟨hfull, hle, rfl⟩

theorem init_some {plat : Platform} {mem : Nat → α} {cmp : CompareFunc α} {count elemSize : Nat}
    {q : PriorityQueue α} (h : init plat mem cmp count elemSize = some q) :
    q.count = 0 ∧ q.cmpFunc = cmp := by
  obtain ⟨b, -, rfl⟩ := Option.map_eq_some_iff.1 h
  exact ⟨rfl, rfl⟩

theorem step_cmpFunc {plat : Platform} {q q' : PriorityQueue α} {op : Operation α}
    (h : step plat q op = some q') : q'.cmpFunc = q.cmpFunc := by
  cases op with
  | insert key => exact (insert_some h).2.2
  | extract =>
    cases h
    exact extract_cmpFunc q

theorem max_eq_some {q : PriorityQueue α} {x : α} :
    q.max = some x ↔ 0 < q.count ∧ q.data 0 = x := by
  rw [max]
  split_ifs with h
  · simp [h]
  · simp [Nat.pos_of_ne_zero h]

end PriorityQueue

end IpSentinel

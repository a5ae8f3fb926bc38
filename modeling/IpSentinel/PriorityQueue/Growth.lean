import IpSentinel.PriorityQueue.Queue
import IpSentinel.Foundation.Runs

/-!
# The size of the block

`init` and `insert` compute the number of cells and the byte size of the block in `size_t`. The one
check is made by `insert`, which ends the process when the new number of cells is less than the old
one. It misses the product with the element size, and it misses `2 * n + 1` for the greatest `n`,
which is `n` again.

The sizes are exact along a run, and every insertion writes inside the block, as long as the exact
products fit into `size_t` (`sizesExact_iff`). The request `request_runs_over` does not.
-/

set_option autoImplicit false

namespace IpSentinel.PriorityQueue

open Foundation

universe u

variable {α : Type u} {plat : Platform}

/-! ## What the sizes should be -/

/-- The byte size last requested is the exact product, and there is a cell for each element. -/
structure SizesExact (q : PriorityQueue α) : Prop where
  bytes_eq : q.bytes = q.allocated * q.elemSize
  count_le : q.count ≤ q.allocated

/-- The last cell an insertion writes to, the one behind the live part, lies inside the block. -/
def WritesInside (plat : Platform) (q : PriorityQueue α) : Operation α → Prop
  | .insert key => ∀ q', insert plat q key = some q' → (q.count + 1) * q'.elemSize ≤ q'.bytes
  | .extract => True

/-- An insertion into a full block that does not end the process requests a size that fits into
`size_t`. -/
def GrowthFits (plat : Platform) (q : PriorityQueue α) : Operation α → Prop
  | .insert key => q.count = q.allocated → (insert plat q key).isSome →
      (q.allocated * 2 + 1) * q.elemSize < 2 ^ plat.sizeBits
  | .extract => True

instance (plat : Platform) (q : PriorityQueue α) :
    (op : Operation α) → Decidable (GrowthFits plat q op)
  | .insert key => inferInstanceAs (Decidable (q.count = q.allocated → (insert plat q key).isSome →
      (q.allocated * 2 + 1) * q.elemSize < 2 ^ plat.sizeBits))
  | .extract => inferInstanceAs (Decidable True)

/-! ## The computations in `size_t` -/

theorem mod_mul_exact_iff {n e m : Nat} (hm : 0 < m) : n * e % m = n * e ↔ n * e < m := by
  constructor
  · intro h
    rw [← h]
    exact Nat.mod_lt _ hm
  · exact Nat.mod_eq_of_lt

/-- The new number of cells and the new byte size are exact, and there is a new cell, exactly when
the product of the exact numbers fits. -/
theorem growth_exact_iff {a e m : Nat} (he : 0 < e) (ha : a < m) :
    (a * 2 + 1) % m * e % m = (a * 2 + 1) % m * e ∧ a + 1 ≤ (a * 2 + 1) % m ↔
      (a * 2 + 1) * e < m := by
  have hm : 0 < m := by omega
  rw [mod_mul_exact_iff hm]
  constructor
  · rintro ⟨hfit, hle⟩
    rcases Nat.lt_or_ge (a * 2 + 1) m with hlt | hge
    · rwa [Nat.mod_eq_of_lt hlt] at hfit
    · -- a number of cells that has run over is not greater than the old one
      rw [Nat.mod_eq_sub_mod hge, Nat.mod_eq_of_lt (by omega)] at hle
      omega
  · intro hfit
    have hlt : a * 2 + 1 < m := (Nat.le_mul_of_pos_right _ he).trans_lt hfit
    rw [Nat.mod_eq_of_lt hlt]
    exact ⟨hfit, by omega⟩

/-! ## Every call asks for a size in `size_t` -/

/-- The cells are not empty, and the byte size last requested is a `size_t`. -/
structure Requested (plat : Platform) (q : PriorityQueue α) : Prop where
  elemSize_pos : 0 < q.elemSize
  bytes_lt : q.bytes < 2 ^ plat.sizeBits

theorem requested_init {mem : Nat → α} {cmp : CompareFunc α} {count elemSize : Nat}
    {q : PriorityQueue α} (h : init plat mem cmp count elemSize = some q) (helem : 0 < elemSize) :
    Requested plat q := by
  obtain ⟨b, hb, rfl⟩ := Option.map_eq_some_iff.1 h
  refine ⟨helem, ?_⟩
  rw [allocate_some hb]
  exact Nat.mod_lt _ (by positivity)

theorem Requested.step {q q' : PriorityQueue α} {op : Operation α} (h : Requested plat q)
    (hstep : step plat q op = some q') : Requested plat q' := by
  cases op with
  | insert key =>
    obtain ⟨d, ⟨-, rfl⟩ | ⟨-, -, rfl⟩⟩ := insert_cases hstep
    · exact ⟨h.elemSize_pos, h.bytes_lt⟩
    · exact ⟨h.elemSize_pos, Nat.mod_lt _ (by positivity)⟩
  | extract =>
    obtain ⟨d, hd⟩ := extract_eq_data q
    cases hstep
    rw [hd]
    exact ⟨h.elemSize_pos, h.bytes_lt⟩

/-- A block of exact size has fewer cells than `size_t` has values, so that the counters of the
source do not run over. -/
theorem SizesExact.allocated_lt {q : PriorityQueue α} (h : q.SizesExact) (hr : Requested plat q) :
    q.allocated < 2 ^ plat.sizeBits := by
  apply lt_of_le_of_lt _ hr.bytes_lt
  rw [h.bytes_eq]
  exact Nat.le_mul_of_pos_right _ hr.elemSize_pos

/-! ## One call -/

theorem SizesExact.insert_iff {q q' : PriorityQueue α} {key : α} (h : q.SizesExact)
    (hr : Requested plat q) (hins : insert plat q key = some q') :
    q'.SizesExact ↔ GrowthFits plat q (.insert key) := by
  have hsome : (insert plat q key).isSome := by rw [hins, Option.isSome_some]
  have hle := h.count_le
  obtain ⟨d, ⟨hroom, rfl⟩ | ⟨hfull, -, rfl⟩⟩ := insert_cases hins
  · refine iff_of_true ⟨h.bytes_eq, ?_⟩ fun hfull => absurd hfull hroom
    change q.count + 1 ≤ q.allocated
    omega
  · have hiff := growth_exact_iff hr.elemSize_pos (h.allocated_lt hr)
    constructor
    · intro h' _ _
      have hcells : q.count + 1 ≤ (q.allocated * 2 + 1) % 2 ^ plat.sizeBits := h'.count_le
      rw [hfull] at hcells
      exact hiff.1 ⟨h'.bytes_eq, hcells⟩
    · intro hfit
      obtain ⟨hbytes, hcells⟩ := hiff.2 (hfit hfull hsome)
      refine ⟨hbytes, ?_⟩
      change q.count + 1 ≤ _
      rwa [hfull]

theorem SizesExact.extract {q : PriorityQueue α} (h : q.SizesExact) : q.extract.SizesExact := by
  obtain ⟨d, hd⟩ := extract_eq_data q
  rw [hd]
  exact ⟨h.bytes_eq, (Nat.sub_le _ _).trans h.count_le⟩

/-- A call keeps the sizes exact exactly when the block does not grow beyond `size_t`. -/
theorem SizesExact.step_iff {q q' : PriorityQueue α} {op : Operation α} (h : q.SizesExact)
    (hr : Requested plat q) (hstep : step plat q op = some q') :
    q'.SizesExact ↔ GrowthFits plat q op := by
  cases op with
  | insert key => exact h.insert_iff hr hstep
  | extract =>
    cases hstep
    exact iff_of_true h.extract trivial

theorem growthFits_of_end {q : PriorityQueue α} {op : Operation α}
    (h : step plat q op = none) : GrowthFits plat q op := by
  cases op with
  | insert key =>
    intro _ hsome
    have hins : insert plat q key = none := h
    rw [hins] at hsome
    cases hsome
  | extract => cases h

/-- When the sizes are exact after an insertion, it has written inside the block. -/
theorem writesInside_of_sizesExact {q : PriorityQueue α} {op : Operation α}
    (h : ∀ q', step plat q op = some q' → q'.SizesExact) : WritesInside plat q op := by
  cases op with
  | insert key =>
    intro q' hins
    have hq' := h q' hins
    have hcount := hq'.count_le
    rw [(insert_some hins).2.1] at hcount
    rw [hq'.bytes_eq]
    exact Nat.mul_le_mul_right _ hcount
  | extract => trivial

/-! ## Runs -/

theorem sizesExact_init_iff {mem : Nat → α} {cmp : CompareFunc α} {count elemSize : Nat}
    {q : PriorityQueue α} (h : init plat mem cmp count elemSize = some q) :
    q.SizesExact ↔ powify plat count * elemSize < 2 ^ plat.sizeBits := by
  obtain ⟨b, hb, rfl⟩ := Option.map_eq_some_iff.1 h
  rw [← mod_mul_exact_iff (by positivity), ← allocate_some hb]
  exact ⟨SizesExact.bytes_eq, fun hbytes => ⟨hbytes, Nat.zero_le _⟩⟩

/-- In every state the run reaches the sizes are exact, and every insertion of the run writes inside
the block. -/
def ExactThroughout (plat : Platform) (ops : List (Operation α)) (q₀ : PriorityQueue α) : Prop :=
  (∀ pre, pre <+: ops → ∀ q, run (step plat) pre q₀ = some q → q.SizesExact) ∧
    StepsMeet (step plat) (WritesInside plat) ops q₀

/-- Along a run from `init` the sizes of the block are exact exactly when the initial block and
every block the run grows to have an exact size that fits into `size_t`. -/
theorem sizesExact_iff (plat : Platform) (mem : Nat → α) (cmp : CompareFunc α)
    (count elemSize : Nat) (q₀ : PriorityQueue α) (ops : List (Operation α))
    (h : init plat mem cmp count elemSize = some q₀) (helem : 0 < elemSize) :
    ExactThroughout plat ops q₀ ↔
      powify plat count * elemSize < 2 ^ plat.sizeBits ∧
        StepsMeet (step plat) (GrowthFits plat) ops q₀ := by
  rw [← sizesExact_init_iff h]
  have hr₀ := requested_init h helem
  -- the invariant is broken by exactly the steps that grow beyond `size_t`
  let I : PriorityQueue α → Prop := fun q => q.SizesExact ∧ Requested plat q
  have hI : ∀ q op q', I q → step plat q op = some q' → (I q' ↔ GrowthFits plat q op) := by
    rintro q op q' ⟨hq, hr⟩ hstep
    rw [← hq.step_iff hr hstep]
    exact and_iff_left (hr.step hstep)
  have hiff := fun hq₀ : q₀.SizesExact =>
    forall_reached_iff_stepsMeet hI (fun _ _ _ => growthFits_of_end) ⟨hq₀, hr₀⟩ ops
  constructor
  · rintro ⟨hexact, -⟩
    have hq₀ : q₀.SizesExact := hexact [] List.nil_prefix q₀ rfl
    refine ⟨hq₀, (hiff hq₀).1 fun pre hpre q hq => ⟨hexact pre hpre q hq, ?_⟩⟩
    exact run_invariant (fun _ _ _ hs hstep => hs.step hstep) hr₀ hq
  · rintro ⟨hq₀, hfits⟩
    have hexact : ∀ pre, pre <+: ops → ∀ q, run (step plat) pre q₀ = some q → q.SizesExact :=
      fun pre hpre q hq => ((hiff hq₀).2 hfits pre hpre q hq).1
    refine ⟨hexact, stepsMeet_iff.2 fun pre op hpre q hq => ?_⟩
    apply writesInside_of_sizesExact
    intro q' hstep
    exact hexact _ hpre q' ((run_concat_some (step plat)).2 ⟨q, hq, hstep⟩)

/-- The rule at a run whose second and fourth insertions grow the block. -/
theorem sizesExact_iff_four_inserts :
    ∃ q₀, init lp64 (fun _ => 0) (fun a b => a - b) 1 4 = some q₀ ∧
      ExactThroughout lp64 [.insert 3, .insert 7, .insert 5, .extract, .insert 2, .insert (6 : Int)]
        q₀ := by
  exact ⟨_, rfl, (sizesExact_iff lp64 (fun _ => (0 : Int)) (fun a b => a - b) 1 4 _
    [.insert 3, .insert 7, .insert 5, .extract, .insert 2, .insert 6] rfl (by decide)).2
    (by decide)⟩

/-- A queue for `2 ^ 63` elements of two bytes gets a block of no bytes, and the first insertion
writes behind its end. -/
theorem request_runs_over :
    ∃ q₀ q, init lp64 (fun _ => 0) (fun a b => a - b) (2 ^ 63) 2 = some q₀ ∧
      q₀.allocated = 2 ^ 63 ∧ q₀.bytes = 0 ∧ ¬ q₀.SizesExact ∧
      insert lp64 q₀ (7 : Int) = some q ∧ q.bytes < (q₀.count + 1) * q₀.elemSize := by
  refine ⟨_, _, rfl, by decide +kernel, by decide +kernel, ?_, rfl, by decide +kernel⟩
  intro h
  have hbytes := h.bytes_eq
  revert hbytes
  decide +kernel

end IpSentinel.PriorityQueue

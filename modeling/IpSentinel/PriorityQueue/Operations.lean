import IpSentinel.PriorityQueue.Contents
import IpSentinel.PriorityQueue.Growth

/-!
# What the calls do to the stored elements

An insertion adds its key, an extraction removes the answer of `max`, and every other element stays
what it is and keeps to the live part: the cells of the model say so of every call
(`rearranges_insertInternal`, `rearranges_extract`). In the program an element is stored when its
cell lies inside the block, and `realloc` keeps what the new block has room for. So a block whose
byte size has run over loses elements (`growth_cuts_element`), and the calls of a run do what they
should exactly when every insertion finds a free cell inside the block or requests a size that fits
into `size_t` (`exactSteps_iff`).
-/

set_option autoImplicit false

namespace IpSentinel.PriorityQueue

open Foundation

universe u

variable {α : Type u} {plat : Platform}

/-! ## Elements inside the block -/

/-- The cell lies inside the block. -/
def InBlock (q : PriorityQueue α) (i : Nat) : Prop := (i + 1) * q.elemSize ≤ q.bytes

instance (q : PriorityQueue α) : DecidablePred q.InBlock :=
  fun i => inferInstanceAs (Decidable ((i + 1) * q.elemSize ≤ q.bytes))

/-- The elements the block holds. -/
def stored (q : PriorityQueue α) : Multiset α :=
  ((Multiset.range q.count).filter q.InBlock).map q.data

/-- The live part lies inside the block. -/
def Covered (q : PriorityQueue α) : Prop := q.count * q.elemSize ≤ q.bytes

theorem Covered.inBlock {q : PriorityQueue α} {i : Nat} (h : q.Covered) (hi : i < q.count) :
    q.InBlock i :=
  (Nat.mul_le_mul_right _ hi).trans h

theorem Covered.stored_eq {q : PriorityQueue α} (h : q.Covered) : q.stored = q.contents := by
  rw [stored, contents, cells, Multiset.filter_eq_self.2]
  intro i hi
  exact h.inBlock (Multiset.mem_range.1 hi)

/-- A block that holds an element for each live cell covers the live part. -/
theorem covered_of_card {q : PriorityQueue α} (h : q.stored.card = q.count) : q.Covered := by
  rw [stored, Multiset.card_map] at h
  rcases Nat.eq_zero_or_pos q.count with h0 | hpos
  · rw [Covered, h0, Nat.zero_mul]
    exact Nat.zero_le _
  · -- the last live cell is among the cells inside the block
    have hall : (Multiset.range q.count).filter q.InBlock = Multiset.range q.count := by
      apply Multiset.eq_of_le_of_card_le (Multiset.filter_le _ _)
      rw [h, Multiset.card_range]
    have hlast := Multiset.filter_eq_self.1 hall (q.count - 1) (Multiset.mem_range.2 (by omega))
    rwa [InBlock, Nat.sub_add_cancel hpos] at hlast

/-! ## What a call should do -/

/-- The queue `q'` is `q` with `key` added. The count has not run over, and the key and the elements
of `q` have changed places only among the live cells. -/
structure Adds (plat : Platform) (key : α) (q q' : PriorityQueue α) : Prop where
  stored : q'.stored = key ::ₘ q.stored
  count : q'.count = q.count + 1
  count_lt : q.count + 1 < 2 ^ plat.sizeBits
  cells : Rearranges q'.count (Function.update q.data q.count key) q'.data

/-- The queue `q'` is `q` without the answer of `max`. The last element has taken the place of the
root, and the elements have changed places only among the cells that are still live. -/
structure Removes (q q' : PriorityQueue α) : Prop where
  stored : ∀ m, q.max = some m → q.stored = m ::ₘ q'.stored
  empty : q.max = none → q' = q
  count : q'.count = q.count - 1
  cells : Rearranges q'.count (Function.update q.data 0 (q.data (q.count - 1))) q'.data

/-- The growth step changes neither the stored elements nor a cell. -/
structure GrowthKeeps (plat : Platform) (q : PriorityQueue α) : Prop where
  stored : ∀ p, grow plat q = some p → p.stored = q.stored
  data : ∀ p, grow plat q = some p → p.count = q.count ∧ p.data = q.data

/-- A call that does not end the process adds exactly the key, or removes exactly the answer of
`max`. -/
def ExactStep (plat : Platform) (q : PriorityQueue α) : Operation α → Prop
  | .insert key => ∀ q', insert plat q key = some q' → GrowthKeeps plat q ∧ Adds plat key q q'
  | .extract => Removes q q.extract

/-- An insertion finds a free cell inside the block, or requests a size that fits into `size_t`, or
ends the process. -/
def HasRoom (plat : Platform) (q : PriorityQueue α) : Operation α → Prop
  | .insert key => GrowthFits plat q (.insert key) ∧
      (q.count ≠ q.allocated → (q.count + 1) * q.elemSize ≤ q.bytes)
  | .extract => True

instance (plat : Platform) (q : PriorityQueue α) :
    (op : Operation α) → Decidable (HasRoom plat q op)
  | .insert key => inferInstanceAs (Decidable (GrowthFits plat q (.insert key) ∧
      (q.count ≠ q.allocated → (q.count + 1) * q.elemSize ≤ q.bytes)))
  | .extract => inferInstanceAs (Decidable True)

/-! ## Insertions -/

/-- The requested size, reduced, has room for one cell more exactly when it is not reduced. -/
theorem growth_room_iff {a e m : Nat} (h : a * e < m) :
    (a + 1) * e ≤ (a * 2 + 1) % m * e % m ↔ (a * 2 + 1) * e < m := by
  have hnew : (a * 2 + 1) * e = a * e + (a + 1) * e := by ring
  rw [Nat.mod_mul_mod]
  constructor
  · intro hle
    by_contra hge
    rw [not_lt] at hge
    -- what is left of the size is less than the size of one cell more
    have hleft : (a * 2 + 1) * e % m ≤ (a * 2 + 1) * e - m := by
      rw [Nat.mod_eq_sub_mod hge]
      exact Nat.mod_le _ _
    omega
  · intro hlt
    rw [Nat.mod_eq_of_lt hlt, hnew]
    exact Nat.le_add_left _ _

theorem covered_insert_iff {q q' : PriorityQueue α} {key : α} (hq : q.Covered)
    (hr : Requested plat q) (h : insert plat q key = some q') :
    q'.Covered ↔ HasRoom plat q (.insert key) := by
  have hsome : (insert plat q key).isSome := by rw [h, Option.isSome_some]
  obtain ⟨d, ⟨hroom, rfl⟩ | ⟨hfull, -, rfl⟩⟩ := insert_cases h
  · constructor
    · intro hq'
      exact ⟨fun hfull => absurd hfull hroom, fun _ => hq'⟩
    · rintro ⟨-, hle⟩
      exact hle hroom
  · -- the block is full, and the new one may be too small
    have hlt : q.allocated * q.elemSize < 2 ^ plat.sizeBits := by
      rw [← hfull]
      exact hq.trans_lt hr.bytes_lt
    have hiff := growth_room_iff hlt
    rw [← hfull] at hiff
    constructor
    · intro hq'
      refine ⟨fun _ _ => ?_, fun hroom => absurd hfull hroom⟩
      rw [← hfull]
      exact hiff.1 (by rwa [Covered, ← hfull] at hq')
    · rintro ⟨hfits, -⟩
      rw [Covered, ← hfull]
      have hfits := hfits hfull hsome
      rw [← hfull] at hfits
      exact hiff.2 hfits

/-- An insertion that ends the process has found a full block. -/
theorem hasRoom_of_end {q : PriorityQueue α} {key : α} (h : insert plat q key = none) :
    HasRoom plat q (.insert key) := by
  have hstep : step plat q (.insert key) = none := h
  refine ⟨growthFits_of_end hstep, fun hroom => ?_⟩
  rw [insert, grow, if_neg hroom] at h
  cases h

/-- A block with room for the key has kept the elements. -/
theorem growthKeeps {q q' : PriorityQueue α} {key : α} (hq : q.Covered)
    (h : insert plat q key = some q') (hq' : q'.Covered) : GrowthKeeps plat q where
  stored p hp := by
    obtain ⟨hdata, hcount, -⟩ := grow_some hp
    rw [insert, hp] at h
    cases h
    have hcovered : p.Covered := (Nat.mul_le_mul_right _ (Nat.le_succ _)).trans hq'
    rw [hcovered.stored_eq, hq.stored_eq, contents, contents, hdata, hcount]
  data p hp := ⟨(grow_some hp).2.1, (grow_some hp).1⟩

/-- With room in the block an insertion adds exactly its key. -/
theorem adds_of_covered {q q' : PriorityQueue α} {key : α} (hq : q.Covered)
    (hr : Requested plat q') (h : insert plat q key = some q') (hq' : q'.Covered) :
    Adds plat key q q' where
  stored := by rw [hq.stored_eq, hq'.stored_eq, contents_insert h]
  count := (insert_some h).2.1
  count_lt := by
    rw [← (insert_some h).2.1]
    exact ((Nat.le_mul_of_pos_right _ hr.elemSize_pos).trans hq').trans_lt hr.bytes_lt
  cells := by
    obtain ⟨hdata, hcount, -⟩ := insert_some h
    rw [hdata, hcount]
    exact rearranges_insertInternal q key

/-! ## Extractions -/

theorem Covered.extract {q : PriorityQueue α} (h : q.Covered) : q.extract.Covered := by
  obtain ⟨d, hd⟩ := extract_eq_data q
  rw [hd]
  exact (Nat.mul_le_mul_right _ (Nat.sub_le _ _)).trans h

/-- An extraction removes exactly the answer of `max`. -/
theorem removes_extract {q : PriorityQueue α} (h : q.Covered) : Removes q q.extract where
  stored m hm := by
    obtain ⟨hpos, rfl⟩ := max_eq_some.1 hm
    rw [h.stored_eq, h.extract.stored_eq, contents_extract hpos]
  empty hnone := by
    apply extract_of_empty
    rw [max] at hnone
    by_contra hne
    rw [if_neg hne] at hnone
    cases hnone
  count := extract_count q
  cells := by
    rw [extract_count]
    exact rearranges_extract q

/-! ## Runs -/

/-- A call on a queue that lies inside its block is exact exactly when it has room. -/
theorem exactStep_iff {q : PriorityQueue α} (hq : q.Covered) (hr : Requested plat q)
    (op : Operation α) : ExactStep plat q op ↔ HasRoom plat q op := by
  cases op with
  | insert key =>
    constructor
    · intro hexact
      cases hins : insert plat q key with
      | none => exact hasRoom_of_end hins
      | some q' =>
        obtain ⟨-, hadds⟩ := hexact q' hins
        -- all elements are stored after the insertion
        have hcard : q'.stored.card = q'.count := by
          rw [hadds.stored, Multiset.card_cons, hq.stored_eq, card_contents, hadds.count]
        exact (covered_insert_iff hq hr hins).1 (covered_of_card hcard)
    · intro hroom q' hq'
      have hstep : step plat q (.insert key) = some q' := hq'
      have hcovered : q'.Covered := (covered_insert_iff hq hr hq').2 hroom
      exact ⟨growthKeeps hq hq' hcovered, adds_of_covered hq (hr.step hstep) hq' hcovered⟩
  | extract => exact iff_of_true (removes_extract hq) trivial

theorem Covered.step {q q' : PriorityQueue α} {op : Operation α} (h : q.Covered)
    (hr : Requested plat q) (hroom : HasRoom plat q op) (hstep : step plat q op = some q') :
    q'.Covered := by
  cases op with
  | insert key => exact (covered_insert_iff h hr hstep).2 hroom
  | extract =>
    cases hstep
    exact h.extract

theorem covered_of_count_eq_zero {q : PriorityQueue α} (h : q.count = 0) : q.Covered := by
  rw [Covered, h, Nat.zero_mul]
  exact Nat.zero_le _

end IpSentinel.PriorityQueue

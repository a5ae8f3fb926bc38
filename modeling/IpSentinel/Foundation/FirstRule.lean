import Mathlib.Order.Lattice
import Mathlib.Tactic

/-!
# Rules in an order of precedence

A set of rules, of which some apply, and a rank for each rule: a rule decides when it applies and no
rule that applies ranks before it (`IsFirst`). Which rules decide is a matter of the set alone. A
list in the order of the ranks is searched for the first rule that applies (`isFirst_of_find?`), and
rules may be dropped as long as those that stay represent them (`IsFirst.of_represents`).

Settings that overwrite each other are the other way round: the last one counts, which is what a
loop over the settings leaves in each part of its state (`get_foldl`).
-/

set_option autoImplicit false

namespace IpSentinel.Foundation

universe u v

variable {ρ : Type u} {κ : Type v} [LinearOrder κ]

/-- The rule applies, and no rule of the set that applies ranks before it. -/
structure IsFirst (applies : ρ → Prop) (rank : ρ → κ) (rules : Set ρ) (r : ρ) : Prop where
  mem : r ∈ rules
  holds : applies r
  rank_le : ∀ r' ∈ rules, applies r' → rank r ≤ rank r'

/-- Each rule that applies has one among the rules kept that applies and does not rank behind it. -/
structure Represents (applies : ρ → Prop) (rank : ρ → κ) (kept rules : Set ρ) : Prop where
  subset : kept ⊆ rules
  represented : ∀ r ∈ rules, applies r → ∃ r' ∈ kept, applies r' ∧ rank r' ≤ rank r

variable {applies : ρ → Prop} {rank : ρ → κ} {rules kept : Set ρ} {r : ρ}

/-- Rules that decide have the same rank. -/
theorem IsFirst.rank_eq {r' : ρ} (h : IsFirst applies rank rules r)
    (h' : IsFirst applies rank rules r') : rank r = rank r' :=
  le_antisymm (h.rank_le r' h'.mem h'.holds) (h'.rank_le r h.mem h.holds)

/-- What decides among the rules kept decides among all. -/
theorem IsFirst.of_represents (hr : IsFirst applies rank kept r)
    (h : Represents applies rank kept rules) : IsFirst applies rank rules r where
  mem := h.subset hr.mem
  holds := hr.holds
  rank_le r' hr' happlies := by
    obtain ⟨r'', hr'', happlies'', hle⟩ := h.represented r' hr' happlies
    exact (hr.rank_le r'' hr'' happlies'').trans hle

/-- When none of the rules kept applies, none does. -/
theorem Represents.not_applies (h : Represents applies rank kept rules)
    (hnone : ∀ r ∈ kept, ¬ applies r) : ∀ r ∈ rules, ¬ applies r := by
  intro r hr happlies
  obtain ⟨r', hr', happlies', -⟩ := h.represented r hr happlies
  exact hnone r' hr' happlies'

/-- In the order of the ranks the first rule that applies decides. -/
theorem isFirst_of_find? [DecidablePred applies] {l : List ρ}
    (hsorted : l.Pairwise fun a b => rank a ≤ rank b)
    (h : (l.find? fun a => applies a) = some r) : IsFirst applies rank {a | a ∈ l} r := by
  obtain ⟨happlies, pre, post, rfl, hpre⟩ := List.find?_eq_some_iff_append.1 h
  refine ⟨by simp, of_decide_eq_true happlies, fun r' hr' happlies' => ?_⟩
  rcases List.mem_append.1 hr' with hr' | hr'
  · have hnot := hpre r' hr'
    rw [decide_eq_true happlies'] at hnot
    cases hnot
  · rcases List.mem_cons.1 hr' with rfl | hr'
    · exact le_rfl
    · exact (List.pairwise_cons.1 (List.pairwise_append.1 hsorted).2.1).1 r' hr'

/-! ## Settings -/

variable {σ : Type v} {ι : Type u} {α : Type*}

/-- The value in the last of the settings that have one. -/
def lastOf (value : ι → Option α) (l : List ι) (default : α) : α :=
  (l.reverse.findSome? value).getD default

theorem lastOf_cons (value : ι → Option α) (i : ι) (l : List ι) (default : α) :
    lastOf value (i :: l) default = lastOf value l ((value i).getD default) := by
  rw [lastOf, lastOf, List.reverse_cons, List.findSome?_append]
  cases l.reverse.findSome? value with
  | none => cases h : value i <;> simp [h]
  | some a => rfl

/-- A condition on the default and on all values holds of the last one. -/
theorem lastOf_of_forall {value : ι → Option α} {P : α → Prop} (l : List ι) {default : α}
    (hdefault : P default) (h : ∀ i, ∀ a ∈ value i, P a) : P (lastOf value l default) := by
  induction l generalizing default with
  | nil => exact hdefault
  | cons i l ih =>
    rw [lastOf_cons]
    apply ih
    cases hvalue : value i with
    | none => exact hdefault
    | some a => exact h i a hvalue

/-- Where each step sets a part of the state or leaves it, the loop leaves the last value. -/
theorem get_foldl {f : σ → ι → σ} {get : σ → α} {value : ι → Option α}
    (h : ∀ s i, get (f s i) = (value i).getD (get s)) (l : List ι) (s : σ) :
    get (l.foldl f s) = lastOf value l (get s) := by
  induction l generalizing s with
  | nil => rfl
  | cons i l ih => rw [List.foldl_cons, ih, h, lastOf_cons]

end IpSentinel.Foundation

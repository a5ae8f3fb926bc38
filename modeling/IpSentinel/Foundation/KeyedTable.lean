import Mathlib.Data.List.DropRight
import Mathlib.Data.List.Pairwise
import Mathlib.Order.Defs.LinearOrder
import Mathlib.Tactic

/-!
# Tables in ascending order of a key

A table is a list in strictly ascending order of a key, so that each key has at most one entry.
The lemmas say that insertion at the place of the key, replacement of an entry by one with the
same key, and filtering keep the order; that a rearranged table is the table (`eq_of_perm`); and
that popping the entries with the greatest possible key off the end of a sorted list filters them
out (`rdropWhile_eq_filter`).
-/

set_option autoImplicit false

namespace IpSentinel.Foundation

universe u v

variable {δ : Type u} {κ : Type v} [LinearOrder κ] {key : δ → κ} {l : List δ}

/-- The keys of the list are strictly ascending. -/
def Ascending (key : δ → κ) (l : List δ) : Prop := l.Pairwise fun a b => key a < key b

namespace Ascending

theorem filter (h : Ascending key l) (p : δ → Bool) : Ascending key (l.filter p) :=
  List.Pairwise.filter p h

/-- Each key has at most one entry. -/
theorem unique (h : Ascending key l) {a b : δ} (ha : a ∈ l) (hb : b ∈ l)
    (hab : key a = key b) : a = b := by
  by_contra hne
  rcases List.Pairwise.forall_of_forall_of_flip (R := fun a b => a ≠ b → key a ≠ key b)
    (fun _ _ hne => absurd rfl hne) (h.imp fun hlt _ => hlt.ne) (h.imp fun hlt _ => hlt.ne') ha hb
    hne hab

theorem insert {pre post : List δ} (h : Ascending key (pre ++ post)) {x : δ}
    (hpre : ∀ a ∈ pre, key a < key x) (hpost : ∀ b ∈ post, key x < key b) :
    Ascending key (pre ++ x :: post) := by
  obtain ⟨h1, h2, h3⟩ := List.pairwise_append.1 h
  refine List.pairwise_append.2 ⟨h1, List.pairwise_cons.2 ⟨hpost, h2⟩, ?_⟩
  intro a ha b hb
  rcases List.mem_cons.1 hb with rfl | hb
  · exact hpre a ha
  · exact h3 a ha b hb

theorem replace {pre post : List δ} {x y : δ} (h : Ascending key (pre ++ x :: post))
    (hxy : key y = key x) : Ascending key (pre ++ y :: post) := by
  obtain ⟨h1, h2, h3⟩ := List.pairwise_append.1 h
  obtain ⟨h4, h5⟩ := List.pairwise_cons.1 h2
  refine List.pairwise_append.2 ⟨h1, List.pairwise_cons.2 ⟨?_, h5⟩, ?_⟩
  · rwa [hxy]
  · intro a ha b hb
    rcases List.mem_cons.1 hb with rfl | hb
    · rw [hxy]
      exact h3 a ha x List.mem_cons_self
    · exact h3 a ha b (List.mem_cons_of_mem _ hb)

/-- A sorted rearrangement of a table is the table. -/
theorem eq_of_perm (h : Ascending key l) {m : List δ} (hm : m.Pairwise fun a b => key a ≤ key b)
    (hperm : m.Perm l) : m = l := by
  have hl : l.Pairwise fun a b => key a ≤ key b := h.imp le_of_lt
  refine List.Perm.eq_of_pairwise ?_ hm hl hperm
  intro a b ha hb hab hba
  exact h.unique (hperm.subset ha) hb (le_antisymm hab hba)

end Ascending

/-- Popping the entries with a greatest key `top` off the end of a sorted list removes exactly
these entries. -/
theorem rdropWhile_eq_filter {top : κ} (hl : l.Pairwise fun a b => key a ≤ key b)
    (htop : ∀ x ∈ l, key x ≤ top) :
    l.rdropWhile (fun x => key x = top) = l.filter fun x => key x ≠ top := by
  -- from the end, where the entries are popped
  induction l using List.reverseRecOn with
  | nil => simp
  | append_singleton l x ih =>
    obtain ⟨h1, -, h2⟩ := List.pairwise_append.1 hl
    by_cases hx : key x = top
    · rw [List.rdropWhile_concat_pos _ _ _ (by simpa using hx),
        ih h1 fun y hy => htop y (by simp [hy])]
      simp [hx]
    · -- the first entry that is kept stops the loop, and all in front of it are less
      have hlt : key x < top := lt_of_le_of_ne (htop x (by simp)) hx
      rw [List.rdropWhile_concat_neg _ _ _ (by simpa using hx), List.filter_eq_self.2]
      intro y hy
      have hyx : key y ≤ key x := by
        rcases List.mem_append.1 hy with hy | hy
        · exact h2 y hy x (by simp)
        · rw [List.mem_singleton.1 hy]
      simpa using (hyx.trans_lt hlt).ne

end IpSentinel.Foundation

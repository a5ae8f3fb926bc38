import IpSentinel.Foundation.Runs

/-!
# Counters of subsequent failures

A counter that a success sets to 0 and a failure raises by one, and that ends the process above a
limit. `feed` runs it over a list of outcomes: it goes on exactly as long as there are not more than
`limit` failures in a row (`feed_eq_none_iff`), and shows the number of failures at the end
(`feed_eq`).

A machine may keep such a counter beside others, and a step may bring it several outcomes or none.
`Counts` says so of one step, and `Counts.run` of a whole run.
-/

set_option autoImplicit false

namespace IpSentinel.Foundation

universe u v

/-- The counter behind one more outcome. -/
def countOutcome (limit errors : Nat) (ok : Bool) : Option Nat :=
  if ok then some 0 else if errors + 1 > limit then none else some (errors + 1)

/-- The counter behind some outcomes. -/
def feed (limit : Nat) (outcomes : List Bool) (errors : Nat) : Option Nat :=
  outcomes.foldlM (countOutcome limit) errors

/-- The number of failures at the end. -/
def failuresAtEnd (outcomes : List Bool) : Nat :=
  outcomes.foldl (fun errors ok => if ok then 0 else errors + 1) 0

/-- There are more than `limit` failures in a row. -/
def FailsInARow (limit : Nat) (outcomes : List Bool) : Prop :=
  List.replicate (limit + 1) false <:+: outcomes

/-! ## Outcomes -/

theorem feed_append (limit : Nat) (outcomes outcomes' : List Bool) (errors : Nat) :
    feed limit (outcomes ++ outcomes') errors =
      (feed limit outcomes errors).bind (feed limit outcomes') :=
  List.foldlM_append

theorem feed_singleton (limit : Nat) (ok : Bool) (errors : Nat) :
    feed limit [ok] errors = countOutcome limit errors ok := by
  rw [feed, List.foldlM_cons, Option.bind_eq_bind]
  exact Option.bind_fun_some _

theorem failuresAtEnd_concat (outcomes : List Bool) (ok : Bool) :
    failuresAtEnd (outcomes ++ [ok]) = if ok then 0 else failuresAtEnd outcomes + 1 := by
  rw [failuresAtEnd, List.foldl_append]
  rfl

/-- The failures at the end are a suffix. -/
theorem replicate_suffix_iff {n : Nat} {outcomes : List Bool} :
    List.replicate n false <:+ outcomes ↔ n ≤ failuresAtEnd outcomes := by
  induction outcomes using List.reverseRecOn generalizing n with
  | nil =>
    rw [List.suffix_nil, List.replicate_eq_nil_iff]
    exact Nat.le_zero.symm
  | append_singleton outcomes ok ih =>
    cases n with
    | zero => exact iff_of_true List.nil_suffix (Nat.zero_le _)
    | succ n =>
      rw [failuresAtEnd_concat, List.replicate_succ']
      cases ok with
      | true =>
        refine iff_of_false ?_ (Nat.not_succ_le_zero n)
        rintro ⟨outcomes', heq⟩
        rw [← List.append_assoc] at heq
        exact absurd (List.append_inj_right' heq rfl) (by decide)
      | false =>
        rw [List.suffix_append_self_iff, ih]
        exact Nat.succ_le_succ_iff.symm

/-- The counter shows the failures at the end, unless there have been too many in a row. -/
theorem feed_eq (limit : Nat) (outcomes : List Bool) :
    (¬ FailsInARow limit outcomes ∧ feed limit outcomes 0 = some (failuresAtEnd outcomes)) ∨
      FailsInARow limit outcomes ∧ feed limit outcomes 0 = none := by
  induction outcomes using List.reverseRecOn with
  | nil =>
    refine Or.inl ⟨fun h => ?_, rfl⟩
    exact absurd (List.infix_nil.1 h) (List.cons_ne_nil _ _)
  | append_singleton outcomes ok ih =>
    have hrow : FailsInARow limit (outcomes ++ [ok]) ↔
        limit + 1 ≤ failuresAtEnd (outcomes ++ [ok]) ∨ FailsInARow limit outcomes := by
      rw [FailsInARow, List.infix_concat_iff, replicate_suffix_iff]
      rfl
    rw [hrow, feed_append]
    rcases ih with ⟨hnot, hfeed⟩ | ⟨hfails, hfeed⟩
    · rw [hfeed, Option.bind_some, feed_singleton, failuresAtEnd_concat, countOutcome]
      cases ok with
      | true => exact Or.inl ⟨fun h => h.elim (Nat.not_succ_le_zero limit) hnot, rfl⟩
      | false =>
        -- one more failure
        by_cases hmany : failuresAtEnd outcomes + 1 > limit
        · exact Or.inr ⟨Or.inl hmany, if_pos hmany⟩
        · exact Or.inl ⟨fun h => h.elim hmany hnot, if_neg hmany⟩
    · rw [hfeed]
      exact Or.inr ⟨Or.inr hfails, rfl⟩

theorem feed_eq_none_iff {limit : Nat} {outcomes : List Bool} :
    feed limit outcomes 0 = none ↔ FailsInARow limit outcomes := by
  rcases feed_eq limit outcomes with ⟨hnot, hfeed⟩ | ⟨hfails, hfeed⟩
  · rw [hfeed]
    exact iff_of_false (Option.some_ne_none _) hnot
  · exact iff_of_true hfeed hfails

/-- Failures alone add up, and stay within the limit. -/
theorem feed_replicate {limit n errors m : Nat}
    (h : feed limit (List.replicate n false) errors = some m) :
    m = errors + n ∧ (n = 0 ∨ m ≤ limit) := by
  induction n generalizing m with
  | zero => exact ⟨(Option.some.inj h).symm, Or.inl rfl⟩
  | succ n ih =>
    rw [List.replicate_succ', feed_append] at h
    obtain ⟨u, hu, hlast⟩ := Option.bind_eq_some_iff.1 h
    obtain ⟨rfl, -⟩ := ih hu
    rw [feed_singleton, countOutcome, if_neg Bool.false_ne_true] at hlast
    split_ifs at hlast with hlimit
    cases hlast
    exact ⟨rfl, Or.inr (not_lt.1 hlimit)⟩

/-! ## Machines with a counter -/

section Machine

variable {σ : Type u} {ι : Type v} {step : σ → ι → Option σ} {limit : Nat}
variable {count : σ → Nat} {out : σ → ι → List Bool}

/-- A step feeds the counter with its outcomes. -/
def Counts (step : σ → ι → Option σ) (limit : Nat) (count : σ → Nat) (out : σ → ι → List Bool) :
    Prop :=
  ∀ s i t, step s i = some t → feed limit (out s i) (count s) = some (count t)

/-- So does a run with the outcomes on its way. -/
theorem Counts.run (h : Counts step limit count out) {is : List ι} {s t : σ}
    (hrun : run step is s = some t) :
    feed limit (trace step out is s).flatten (count s) = some (count t) := by
  have hH : ∀ outs u i u', feed limit outs.flatten (count s) = some (count u) →
      step u i = some u' → feed limit (outs ++ [out u i]).flatten (count s) = some (count u') := by
    intro outs u i u' hu hstep
    rw [List.flatten_append, feed_append, hu, List.flatten_singleton]
    exact h u i u' hstep
  have hstart : feed limit ([] : List (List Bool)).flatten (count s) = some (count s) := rfl
  exact run_history (H := fun outs u => feed limit outs.flatten (count s) = some (count u)) hH
    hstart hrun

/-- A step that feeds too many failures completes too many in a row. -/
theorem Counts.feed_eq_none_iff (h : Counts step limit count out) {is : List ι} {s t : σ}
    (hs : count s = 0) (hrun : Foundation.run step is s = some t) (i : ι) :
    feed limit (out t i) (count t) = none ↔
      FailsInARow limit (trace step out (is ++ [i]) s).flatten := by
  rw [← Foundation.feed_eq_none_iff, trace_concat step hrun, List.flatten_append, feed_append, ← hs,
    h.run hrun, List.flatten_singleton]
  rfl

/-- A run with failures only has no more of them than the limit. -/
theorem Counts.length_le (h : Counts step limit count out) {is : List ι} {s t : σ}
    (hrun : Foundation.run step is s = some t)
    (hfails : ∀ ok ∈ (trace step out is s).flatten, ok = false) :
    (trace step out is s).flatten.length ≤ limit := by
  have hfeed := h.run hrun
  rw [List.eq_replicate_of_mem hfails] at hfeed
  obtain ⟨heq, hlimit⟩ := feed_replicate hfeed
  omega

end Machine

end IpSentinel.Foundation

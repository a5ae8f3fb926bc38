import IpSentinel.Foundation.Runs

/-!
# Simulations between machines

Two partial step functions over the same inputs, in lockstep: from related states both end on an
input, or both go on to related states (`Option.Rel`). The relation may depend on the inputs that
are still to come, so that a condition on a whole run (a clock that does not go back, steps that all
meet a guard) is part of it. `run_rel` carries the relation over a run. Where one machine takes only
some of the inputs, the rule is `run_filter_rel`.
-/

set_option autoImplicit false

namespace IpSentinel.Foundation

universe u v w

variable {σ : Type u} {τ : Type w} {ι : Type v} {step : σ → ι → Option σ} {step' : τ → ι → Option τ}
variable {R : List ι → σ → τ → Prop}

/-- Related outcomes are both there or both not. -/
theorem rel_cases {S : σ → τ → Prop} {a : Option σ} {b : Option τ} (h : Option.Rel S a b) :
    (a = none ∧ b = none) ∨ ∃ s t, a = some s ∧ b = some t ∧ S s t := by
  cases h with
  | none => exact Or.inl ⟨rfl, rfl⟩
  | some hst => exact Or.inr ⟨_, _, rfl, rfl, hst⟩

/-- Functions that agree on related states agree on related outcomes. -/
theorem map_eq_of_rel {α : Type*} {S : σ → τ → Prop} {f : σ → α} {g : τ → α}
    (hfg : ∀ s t, S s t → f s = g t) {a : Option σ} {b : Option τ} (h : Option.Rel S a b) :
    a.map f = b.map g := by
  rcases rel_cases h with ⟨rfl, rfl⟩ | ⟨s, t, rfl, rfl, hst⟩
  · rfl
  · exact congrArg some (hfg s t hst)

/-- Related outcomes with continuations that keep the relation. -/
theorem rel_bind {σ' τ' : Type*} {S : σ → τ → Prop} {S' : σ' → τ' → Prop} {a : Option σ}
    {b : Option τ} {f : σ → Option σ'} {g : τ → Option τ'} (h : Option.Rel S a b)
    (hfg : ∀ s t, S s t → Option.Rel S' (f s) (g t)) : Option.Rel S' (a.bind f) (b.bind g) := by
  rcases rel_cases h with ⟨rfl, rfl⟩ | ⟨s, t, rfl, rfl, hst⟩
  · exact Option.Rel.none
  · exact hfg s t hst

/-- Each input leads from related states to related states, or ends both machines. -/
def InLockstep (step : σ → ι → Option σ) (step' : τ → ι → Option τ)
    (R : List ι → σ → τ → Prop) : Prop :=
  ∀ i is s t, R (i :: is) s t → Option.Rel (R is) (step s i) (step' t i)

/-- The simulation rule. -/
theorem run_rel (h : InLockstep step step' R) {is : List ι} {s : σ} {t : τ} (hst : R is s t) :
    Option.Rel (R []) (run step is s) (run step' is t) := by
  induction is generalizing s t with
  | nil => exact Option.Rel.some hst
  | cons i is ih =>
    simp only [run]
    rcases rel_cases (h i is s t hst) with ⟨hs, ht⟩ | ⟨s', t', hs, ht, hnext⟩
    · rw [hs, ht]
      exact Option.Rel.none
    · rw [hs, ht]
      exact ih hnext

/-- The rule for a machine that is given only the inputs with `p`: the other one keeps the relation
on its own at all others. -/
theorem run_filter_rel {p : ι → Prop} [DecidablePred p]
    (hskip : ∀ i is s s' t, ¬ p i → R (i :: is) s t → step s i = some s' → R is s' t)
    (hboth : ∀ i is s s' t, p i → R (i :: is) s t → step s i = some s' →
      ∃ t', step' t i = some t' ∧ R is s' t')
    {is : List ι} {s s' : σ} {t : τ} (hst : R is s t) (hrun : run step is s = some s') :
    ∃ t', run step' (is.filter fun i => p i) t = some t' ∧ R [] s' t' := by
  induction is generalizing s t with
  | nil =>
    cases hrun
    exact ⟨t, rfl, hst⟩
  | cons i is ih =>
    obtain ⟨u, hstep, hrun⟩ := (run_cons_some step).1 hrun
    by_cases hp : p i
    · obtain ⟨t', ht', hnext⟩ := hboth i is s u t hp hst hstep
      obtain ⟨v, hv, hlast⟩ := ih hnext hrun
      have hfilter : ((i :: is).filter fun i => p i) = i :: is.filter fun i => p i :=
        List.filter_cons_of_pos (decide_eq_true hp)
      rw [hfilter]
      exact ⟨v, (run_cons_some step').2 ⟨t', ht', hv⟩, hlast⟩
    · have hfilter : ((i :: is).filter fun i => p i) = is.filter fun i => p i :=
        List.filter_cons_of_neg (by rwa [decide_eq_true_eq])
      rw [hfilter]
      exact ih (hskip i is s u t hp hst hstep) hrun

end IpSentinel.Foundation

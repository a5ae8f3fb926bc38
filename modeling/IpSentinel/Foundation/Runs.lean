import Mathlib.Data.List.Infix
import Mathlib.Tactic

/-!
# Runs of a partial step function

A machine is a function `step : σ → ι → Option σ`: the state after one input, or `none` when the
process ends. `run` folds it over a list of inputs. An invariant of the steps is an invariant of
every state a run reaches (`run_invariant`); when only the steps that meet a condition keep it,
the invariant holds along the runs whose steps all meet the condition
(`run_invariant_of_stepsMeet`), and along no others when a step that fails the condition also
breaks the invariant (`forall_reached_iff_stepsMeet`).
-/

set_option autoImplicit false

namespace IpSentinel.Foundation

universe u v

variable {σ : Type u} {ι : Type v} (step : σ → ι → Option σ)

/-- The state after a list of inputs, `none` when the process ends on the way. -/
def run : List ι → σ → Option σ
  | [], s => some s
  | i :: is, s => (step s i).bind (run is)

@[simp] theorem run_nil (s : σ) : run step [] s = some s := rfl

theorem run_cons_some {i : ι} {is : List ι} {s u : σ} :
    run step (i :: is) s = some u ↔ ∃ t, step s i = some t ∧ run step is t = some u :=
  Option.bind_eq_some_iff

theorem run_append_some {is js : List ι} {s u : σ} :
    run step (is ++ js) s = some u ↔ ∃ t, run step is s = some t ∧ run step js t = some u := by
  induction is generalizing s with
  | nil => simp
  | cons i is ih =>
    rw [List.cons_append, run_cons_some]
    constructor
    · rintro ⟨t, ht, hu⟩
      obtain ⟨t', ht', hu'⟩ := ih.1 hu
      exact ⟨t', (run_cons_some step).2 ⟨t, ht, ht'⟩, hu'⟩
    · rintro ⟨t', ht', hu'⟩
      obtain ⟨t, ht, ht''⟩ := (run_cons_some step).1 ht'
      exact ⟨t, ht, ih.2 ⟨t', ht'', hu'⟩⟩

/-- The last step of a run. -/
theorem run_concat_some {is : List ι} {i : ι} {s u : σ} :
    run step (is ++ [i]) s = some u ↔ ∃ t, run step is s = some t ∧ step t i = some u := by
  rw [run_append_some]
  apply exists_congr
  intro t
  change run step is s = some t ∧ (step t i).bind some = some u ↔ _
  rw [Option.bind_fun_some]

/-- What a function of the input and the state before the step answers along a run. -/
def trace {τ : Type*} (out : σ → ι → τ) : List ι → σ → List τ
  | [], _ => []
  | i :: is, s => out s i :: (step s i).elim [] (trace out is)

theorem trace_concat {τ : Type*} {out : σ → ι → τ} {is : List ι} {s t : σ}
    (h : run step is s = some t) (i : ι) :
    trace step out (is ++ [i]) s = trace step out is s ++ [out t i] := by
  induction is generalizing s with
  | nil =>
    cases h
    rw [List.nil_append, trace, trace]
    cases step t i <;> rfl
  | cons j is ih =>
    obtain ⟨u, hu, h⟩ := (run_cons_some step).1 h
    rw [List.cons_append, trace, trace, hu]
    exact congrArg _ (ih h)

/-- Every step the run takes meets `G`, a condition on the input and the state before the step. -/
def StepsMeet (G : σ → ι → Prop) : List ι → σ → Prop
  | [], _ => True
  | i :: is, s => G s i ∧ ∀ t, step s i = some t → StepsMeet G is t

variable {step} {G : σ → ι → Prop} {I : σ → Prop}

instance decidableStepsMeet [∀ s i, Decidable (G s i)] :
    (is : List ι) → (s : σ) → Decidable (StepsMeet step G is s)
  | [], _ => inferInstanceAs (Decidable True)
  | i :: is, s =>
    match h : step s i with
    | none => decidable_of_iff (G s i) ⟨fun hG => ⟨hG, by simp [h]⟩, And.left⟩
    | some t =>
      have := decidableStepsMeet is t
      decidable_of_iff (G s i ∧ StepsMeet step G is t) (by simp [StepsMeet, h])

theorem StepsMeet.of_append {is js : List ι} {s : σ} (h : StepsMeet step G (is ++ js) s) :
    StepsMeet step G is s := by
  induction is generalizing s with
  | nil => trivial
  | cons i is ih => exact ⟨h.1, fun t ht => ih (h.2 t ht)⟩

theorem StepsMeet.after {is js : List ι} {s t : σ} (h : StepsMeet step G (is ++ js) s)
    (hrun : run step is s = some t) : StepsMeet step G js t := by
  induction is generalizing s with
  | nil =>
    cases hrun
    exact h
  | cons i is ih =>
    obtain ⟨s', hs', hrun'⟩ := (run_cons_some step).1 hrun
    exact ih (h.2 s' hs') hrun'

theorem StepsMeet.append {is js : List ι} {s : σ} (h : StepsMeet step G is s)
    (h' : ∀ t, run step is s = some t → StepsMeet step G js t) :
    StepsMeet step G (is ++ js) s := by
  induction is generalizing s with
  | nil => exact h' s rfl
  | cons i is ih =>
    refine ⟨h.1, fun t ht => ih (h.2 t ht) fun u hu => h' u ?_⟩
    exact (run_cons_some step).2 ⟨t, ht, hu⟩

theorem StepsMeet.and {G' : σ → ι → Prop} {is : List ι} {s : σ} (h : StepsMeet step G is s)
    (h' : StepsMeet step G' is s) : StepsMeet step (fun s i => G s i ∧ G' s i) is s := by
  induction is generalizing s with
  | nil => trivial
  | cons i is ih => exact ⟨⟨h.1, h'.1⟩, fun t ht => ih (h.2 t ht) (h'.2 t ht)⟩

theorem StepsMeet.mono {G' : σ → ι → Prop} {is : List ι} {s : σ} (h : StepsMeet step G is s)
    (hG : ∀ s i, G s i → G' s i) : StepsMeet step G' is s := by
  induction is generalizing s with
  | nil => trivial
  | cons i is ih => exact ⟨hG s i h.1, fun t ht => ih (h.2 t ht)⟩

/-- A condition that holds of every input in every state is met by every run. -/
theorem stepsMeet_of_forall (hG : ∀ s i, G s i) (is : List ι) (s : σ) : StepsMeet step G is s := by
  induction is generalizing s with
  | nil => trivial
  | cons i is ih => exact ⟨hG s i, fun t _ => ih t⟩

/-- The steps of a run meet a condition when it holds wherever the run takes an input. -/
theorem stepsMeet_iff {is : List ι} {s : σ} :
    StepsMeet step G is s ↔
      ∀ pre i, pre ++ [i] <+: is → ∀ t, run step pre s = some t → G t i := by
  constructor
  · rintro h pre i ⟨rest, rfl⟩ t ht
    rw [List.append_assoc] at h
    exact (h.after ht).1
  · intro h
    induction is generalizing s with
    | nil => trivial
    | cons i is ih =>
      refine ⟨h [] i ⟨is, rfl⟩ s rfl, fun t ht => ih fun pre j hpre u hu => ?_⟩
      exact h (i :: pre) j (List.cons_prefix_cons.2 ⟨rfl, hpre⟩) u
        ((run_cons_some step).2 ⟨t, ht, hu⟩)

/-- Conditions that agree where an invariant holds are met by the same runs, when the steps that
meet one of them keep the invariant. -/
theorem stepsMeet_congr {G' : σ → ι → Prop} (hG : ∀ s i, I s → (G s i ↔ G' s i))
    (hI : ∀ s i t, I s → G' s i → step s i = some t → I t) {s : σ} (hs : I s) (is : List ι) :
    StepsMeet step G is s ↔ StepsMeet step G' is s := by
  induction is generalizing s with
  | nil => rfl
  | cons i is ih =>
    rw [StepsMeet, StepsMeet, hG s i hs]
    apply and_congr_right
    intro hmeet
    apply forall₂_congr
    intro t ht
    exact ih (hI s i t hs hmeet ht)

/-- The invariant rule for runs whose steps all meet `G`. -/
theorem run_invariant_of_stepsMeet
    (hI : ∀ s i t, I s → G s i → step s i = some t → I t) {is : List ι} {s t : σ} (hs : I s)
    (hG : StepsMeet step G is s) (hrun : run step is s = some t) : I t := by
  induction is generalizing s with
  | nil =>
    cases hrun
    exact hs
  | cons i is ih =>
    obtain ⟨s', hs', hrun'⟩ := (run_cons_some step).1 hrun
    exact ih (hI s i s' hs hG.1 hs') (hG.2 s' hs') hrun'

/-- The invariant rule for all runs. -/
theorem run_invariant (hI : ∀ s i t, I s → step s i = some t → I t) {is : List ι} {s t : σ}
    (hs : I s) (hrun : run step is s = some t) : I t :=
  run_invariant_of_stepsMeet (G := fun _ _ => True) (fun s i t h _ ht => hI s i t h ht) hs
    (stepsMeet_of_forall (fun _ _ => trivial) is s) hrun

/-- The invariant rule with a history: the invariant speaks about what the run has answered. -/
theorem run_history {τ : Type*} {out : σ → ι → τ} {H : List τ → σ → Prop}
    (hH : ∀ outs s i t, H outs s → step s i = some t → H (outs ++ [out s i]) t) {is : List ι}
    {outs : List τ} {s t : σ} (hs : H outs s) (hrun : run step is s = some t) :
    H (outs ++ trace step out is s) t := by
  induction is generalizing outs s with
  | nil =>
    cases hrun
    rw [trace, List.append_nil]
    exact hs
  | cons i is ih =>
    obtain ⟨u, hstep, hrun⟩ := (run_cons_some step).1 hrun
    have hnext := ih (hH outs s i u hs hstep) hrun
    rw [List.append_assoc] at hnext
    rw [trace, hstep]
    exact hnext

/-- The invariant rule with the inputs: the invariant speaks about the inputs taken so far. -/
theorem run_inputs_invariant {H : List ι → σ → Prop}
    (hH : ∀ is s i t, H is s → step s i = some t → H (is ++ [i]) t) {is : List ι} {s t : σ}
    (hs : H [] s) (hrun : run step is s = some t) : H is t := by
  induction is using List.reverseRecOn generalizing t with
  | nil =>
    cases hrun
    exact hs
  | append_singleton is i ih =>
    obtain ⟨u, hu, hstep⟩ := (run_concat_some step).1 hrun
    exact hH is u i t (ih hu) hstep

/-- When the steps that keep the invariant are the ones that meet `G`, the invariant holds in
every state a run reaches exactly when every step of the run meets `G`. -/
theorem forall_reached_iff_stepsMeet
    (hI : ∀ s i t, I s → step s i = some t → (I t ↔ G s i))
    (hend : ∀ s i, I s → step s i = none → G s i) {s : σ} (hs : I s) (is : List ι) :
    (∀ pre, pre <+: is → ∀ t, run step pre s = some t → I t) ↔ StepsMeet step G is s := by
  constructor
  · intro h
    induction is generalizing s with
    | nil => trivial
    | cons i is ih =>
      constructor
      · -- the run of one step
        cases hstep : step s i with
        | none => exact hend s i hs hstep
        | some t =>
          refine (hI s i t hs hstep).1 (h [i] (by simp) t ?_)
          exact (run_cons_some step).2 ⟨t, hstep, rfl⟩
      · intro t ht
        have hreach : ∀ pre, pre <+: is → ∀ u, run step pre t = some u → I u := by
          intro pre hpre u hu
          exact h (i :: pre) (List.cons_prefix_cons.2 ⟨rfl, hpre⟩) u
            ((run_cons_some step).2 ⟨t, ht, hu⟩)
        exact ih (hreach [] List.nil_prefix t rfl) hreach
  · -- the other direction is the rule for runs whose steps meet `G`
    rintro hG pre ⟨rest, rfl⟩ t ht
    exact run_invariant_of_stepsMeet (fun s i t h hg ht => (hI s i t h ht).2 hg) hs
      hG.of_append ht

end IpSentinel.Foundation

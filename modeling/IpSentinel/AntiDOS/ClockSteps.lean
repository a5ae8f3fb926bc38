import IpSentinel.AntiDOS.RateLimit
import IpSentinel.AntiDOS.Sweep
import IpSentinel.Foundation.Runs

/-!
# Clocks that step back

`AntiDOS_registerIP` compares the time since the last access from above only. When the clock has
stepped back the difference is negative, and the decay adds to the counter instead of taking from
it. `returnsInRange_iff` says how far the clock may step back so that every request of a run returns
a counter between 1 and one above the cap.
-/

set_option autoImplicit false

namespace IpSentinel.AntiDOS

open Foundation

/-! ## One request -/

/-- The next counter in integers, where nothing wraps around. -/
def exactCounter (counter : Nat) (delta : Int) : Int :=
  if delta > antidosTimeBase then 1
  else if counter ≤ antidosCountMax then
    counter - (counter * delta).tdiv antidosTimeBase + 1
  else if delta > 1 then antidosCountMax
  else counter

/-- The time since the last access is not too far below zero for the counter. -/
def MildDelta (counter : Nat) (delta : Int) : Prop :=
  counter ≤ antidosCountMax →
    counter * -delta < antidosTimeBase * (antidosCountMax + 1 - counter)

instance (counter : Nat) (delta : Int) : Decidable (MildDelta counter delta) :=
  inferInstanceAs (Decidable (_ → _))

theorem mildDelta_of_nonneg (counter : Nat) {delta : Int} (h : 0 ≤ delta) :
    MildDelta counter delta := by
  have hbase : antidosTimeBase = 10 := rfl
  have hmax : antidosCountMax = 1000 := rfl
  intro hcap
  rw [hmax] at hcap
  have hle : (counter : Int) * -delta ≤ 0 := by
    rw [mul_neg, neg_nonpos]
    positivity
  rw [hbase, hmax]
  push_cast
  omega

/-- While the clock goes on, the counter is exact. -/
theorem exactCounter_of_nonneg {counter : Nat} {delta : Int} (h : 0 ≤ delta) :
    (nextCounter counter delta : Int) = exactCounter counter delta := by
  have hbase : antidosTimeBase = 10 := rfl
  have hmax : antidosCountMax = 1000 := rfl
  obtain ⟨d, rfl⟩ := Int.eq_ofNat_of_zero_le h
  by_cases hexp : (d : Int) > antidosTimeBase
  · simp [nextCounter, exactCounter, hexp]
  by_cases hcap : counter ≤ antidosCountMax
  · rw [hbase] at hexp
    have hdiv : ((counter : Int) * d).tdiv 10 = ((counter * d / 10 : Nat) : Int) := by
      rw [Int.tdiv_eq_ediv_of_nonneg (by positivity)]
      push_cast
      rfl
    have hle : counter * d / 10 ≤ counter := by
      apply Nat.div_le_of_le_mul
      rw [Nat.mul_comm 10]
      exact Nat.mul_le_mul_left _ (by omega)
    rw [nextCounter_decay hcap (by omega), exactCounter, hbase, if_neg hexp, if_pos hcap, hdiv]
    omega
  · simp only [nextCounter, exactCounter, hexp, hcap, if_false]
    split_ifs <;> rfl

/-- When the clock has stepped back, the decay is added. -/
theorem exactCounter_of_neg {counter : Nat} {delta : Int} (hcap : counter ≤ antidosCountMax)
    (h : delta < 0) :
    exactCounter counter delta = counter + counter * -delta / 10 + 1 := by
  have hbase : antidosTimeBase = 10 := rfl
  have hprod : (counter : Int) * delta = -(counter * -delta) := by ring
  have hnonneg : 0 ≤ (counter : Int) * -delta := mul_nonneg (Int.natCast_nonneg _) (by omega)
  rw [exactCounter, hbase, if_neg (by omega), if_pos hcap, hprod, Int.neg_tdiv,
    Int.tdiv_eq_ediv_of_nonneg hnonneg]
  ring

/-- The next counter is in its range and has not wrapped around exactly when the clock has not
stepped back too far. -/
theorem nextCounter_exact_iff {counter : Nat} {delta : Int} (h : CounterInRange counter) :
    CounterInRange (nextCounter counter delta) ∧
        (nextCounter counter delta : Int) = exactCounter counter delta ↔
      MildDelta counter delta := by
  have hbase : antidosTimeBase = 10 := rfl
  have hmax : antidosCountMax = 1000 := rfl
  rcases lt_or_ge delta 0 with hneg | hpos
  · by_cases hcap : counter ≤ antidosCountMax
    · -- a step back makes the counter grow, which may carry it out of its range
      have hexact := exactCounter_of_neg hcap hneg
      have hnonneg : 0 ≤ (counter : Int) * -delta := mul_nonneg (Int.natCast_nonneg _) (by omega)
      have hnext : nextCounter counter delta =
          toUInt (toUInt (counter + counter * -delta / 10) + 1) := by
        rw [nextCounter, hbase, if_neg (by omega), if_pos hcap]
        rw [exactCounter, hbase, if_neg (by omega), if_pos hcap] at hexact
        rw [show (counter : Int) - (counter * delta).tdiv 10 = counter + counter * -delta / 10 by
          omega]
      rw [hmax] at hcap
      rw [hnext, hexact, MildDelta, hbase, hmax, imp_iff_right hcap, CounterInRange, hmax]
      clear hnext hexact
      generalize (counter : Int) * -delta = decay at hnonneg ⊢
      constructor
      · rintro ⟨⟨-, hle⟩, heq⟩
        push_cast
        omega
      · intro hmild
        push_cast at hmild
        obtain ⟨n, hn⟩ := Int.eq_ofNat_of_zero_le
          (show 0 ≤ (counter : Int) + decay / 10 by omega)
        have hsucc := toUInt_of_range (n := n + 1) (by omega)
        push_cast at hsucc
        rw [hn, toUInt_of_range (by omega), hsucc]
        exact ⟨⟨by omega, by omega⟩, Nat.cast_succ n⟩
    · -- above the cap the counter is frozen
      rw [MildDelta]
      have hsame : nextCounter counter delta = counter := by
        rw [nextCounter, hbase, if_neg (by omega), if_neg hcap, if_neg (by omega)]
      have hsame' : exactCounter counter delta = counter := by
        rw [exactCounter, hbase, if_neg (by omega), if_neg hcap, if_neg (by omega)]
      rw [hsame, hsame']
      exact iff_of_true ⟨h, rfl⟩ fun hle => absurd hle hcap
  · -- a clock that goes on decays the counter
    exact iff_of_true ⟨nextCounter_inRange h hpos, exactCounter_of_nonneg hpos⟩
      (mildDelta_of_nonneg counter hpos)

/-! ## Runs -/

/-- A call on a table, which never ends the process. -/
def step (V : VectorLib) (dos : AntiDOS) (c : Call) : Option AntiDOS := some (c.next V dos)

/-- A request returns a counter between 1 and one above the cap, which has not wrapped around. -/
def ReturnsInRange (V : VectorLib) (dos : AntiDOS) : Call → Prop
  | .registerIP ip t =>
    CounterInRange (registerIP V dos ip t).1 ∧
      ∀ d ∈ dos.data, d.ip = ip →
        ((registerIP V dos ip t).1 : Int) = exactCounter d.counter (t - d.accessTime)
  | .update _ => True

/-- At a request the clock has not stepped back too far for the counter of the address. -/
def MildClock (dos : AntiDOS) : Call → Prop
  | .registerIP ip t => ∀ d ∈ dos.data, d.ip = ip → MildDelta d.counter (t - d.accessTime)
  | .update _ => True

instance (dos : AntiDOS) : (c : Call) → Decidable (MildClock dos c)
  | .registerIP _ _ => inferInstanceAs (Decidable (∀ d ∈ dos.data, _))
  | .update _ => inferInstanceAs (Decidable True)

/-- The table is ascending, and the counters are in their range. -/
def CountersInRange (dos : AntiDOS) : Prop :=
  dos.IsAscending ∧ ∀ d ∈ dos.data, CounterInRange d.counter

theorem returnsInRange_iff_mildClock (V : VectorLib) {dos : AntiDOS} (h : CountersInRange dos)
    (c : Call) : ReturnsInRange V dos c ↔ MildClock dos c := by
  cases c with
  | update t => exact Iff.rfl
  | registerIP ip t =>
    by_cases hex : ∃ d ∈ dos.data, d.ip = ip
    · obtain ⟨d, hd, rfl⟩ := hex
      obtain ⟨pre, post, -, heq, -⟩ := registerIP_data_known V h.1 (t := t) hd
      -- the address has no other entry
      have hunique : ∀ {P : Data → Prop}, (∀ e ∈ dos.data, e.ip = d.ip → P e) ↔ P d := by
        intro P
        constructor
        · intro hall
          exact hall d hd rfl
        · intro hP e he hip
          rwa [h.1.unique he hd (key_eq_iff.2 hip)]
      rw [ReturnsInRange, MildClock, hunique, hunique, heq]
      exact nextCounter_exact_iff (h.2 d hd)
    · have hno : ∀ d ∈ dos.data, d.ip ≠ ip := fun d hd hip => hex ⟨d, hd, hip⟩
      obtain ⟨pre, post, -, heq, -⟩ := registerIP_data_new V h.1 (t := t) hno
      rw [ReturnsInRange, MildClock, heq]
      apply iff_of_true
      · exact ⟨counterInRange_one, fun d hd hip => absurd hip (hno d hd)⟩
      · exact fun d hd hip => absurd hip (hno d hd)

/-- A call with a mild clock keeps the counters in their range. -/
theorem CountersInRange.next (V : VectorLib) {dos : AntiDOS} (h : CountersInRange dos) (c : Call)
    (hmild : MildClock dos c) : CountersInRange (c.next V dos) := by
  cases c with
  | update t =>
    have hsub := update_data_sublist V h.1 t
    exact ⟨List.Pairwise.sublist hsub h.1, fun d hd => h.2 d (hsub.subset hd)⟩
  | registerIP ip t =>
    refine ⟨registerIP_isAscending V h.1 ip t, ?_⟩
    apply forall_mem_registerIP V h.1 h.2 counterInRange_one
    intro d hd hip
    exact ((nextCounter_exact_iff (h.2 d hd)).2 (hmild d hd hip)).1

/-- Along every run, whatever the clock reads, all requests return counters in their range exactly
when the clock is mild at each of them. -/
theorem returnsInRange_iff (V : VectorLib) (calls : List Call) :
    StepsMeet (step V) (ReturnsInRange V) calls init ↔
      StepsMeet (step V) MildClock calls init := by
  apply stepsMeet_congr (fun dos c h => returnsInRange_iff_mildClock V h c)
  · intro dos c dos' h hmild hstep
    cases hstep
    exact h.next V c hmild
  · exact ⟨init_isAscending, List.forall_mem_nil _⟩

/-- The clock steps back by more than a day: the second request returns 10002. -/
theorem clock_back_exceeds :
    (registerIP referenceVector (after referenceVector [.registerIP 1 100000] init) 1 0).1 =
        10002 ∧
      ¬ StepsMeet (step referenceVector) (ReturnsInRange referenceVector)
        [.registerIP 1 100000, .registerIP 1 0] init := by
  have hvalue : (registerIP referenceVector
      (after referenceVector [.registerIP 1 100000] init) 1 0).1 = 10002 := by decide
  refine ⟨hvalue, fun h => ?_⟩
  obtain ⟨⟨-, hle⟩, -⟩ := (h.2 _ rfl).1
  exact absurd hle (by decide)

end IpSentinel.AntiDOS

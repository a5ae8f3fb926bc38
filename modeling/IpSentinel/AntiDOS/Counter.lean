import IpSentinel.AntiDOS.Table

/-!
# The counter of an address

How `nextCounter` depends on the counter and on the time since the last access, while the clock does
not go back: it keeps the range, rises with the counter, falls with the time, and up to the cap a
gap that is split in two decays less than the whole gap.
-/

set_option autoImplicit false

namespace IpSentinel.AntiDOS

open Foundation

/-- The counter stays between 1 and one above the cap. -/
def CounterInRange (counter : Nat) : Prop := 1 ≤ counter ∧ counter ≤ antidosCountMax + 1

theorem counterInRange_one : CounterInRange 1 := ⟨le_rfl, by simp [antidosCountMax]⟩

/-- Below the cap and within the time base the counter decays by a truncated fraction. -/
theorem nextCounter_decay {counter delta : Nat} (hc : counter ≤ 1000) (hd : delta ≤ 10) :
    nextCounter counter delta = counter - counter * delta / 10 + 1 := by
  have hle : counter * delta / 10 ≤ counter := by
    apply Nat.div_le_of_le_mul
    rw [Nat.mul_comm 10]
    exact Nat.mul_le_mul_left _ hd
  have hdiv : ((counter : Int) * delta).tdiv 10 = ((counter * delta / 10 : Nat) : Int) := by
    rw [Int.tdiv_eq_ediv_of_nonneg (by positivity)]
    push_cast
    rfl
  simp only [nextCounter, antidosTimeBase, antidosCountMax, hdiv]
  rw [if_neg (by omega), if_pos hc]
  have hsub : (counter : Int) - (counter * delta / 10 : Nat) =
      ((counter - counter * delta / 10 : Nat) : Int) := by omega
  rw [hsub, toUInt_of_range (by omega)]
  exact_mod_cast toUInt_of_range (n := counter - counter * delta / 10 + 1) (by omega)

/-- In the same second the counter is counted up. -/
theorem nextCounter_zero {counter : Nat} (hc : counter ≤ antidosCountMax) :
    nextCounter counter 0 = counter + 1 := by
  have hdecay := @nextCounter_decay counter 0 hc (Nat.zero_le _)
  rwa [Nat.mul_zero, Nat.zero_div, Nat.sub_zero] at hdecay

theorem nextCounter_inRange {counter : Nat} {delta : Int} (h : CounterInRange counter)
    (hd : 0 ≤ delta) : CounterInRange (nextCounter counter delta) := by
  obtain ⟨h1, h2⟩ := h
  have hmax : antidosCountMax = 1000 := rfl
  rw [hmax] at h2
  by_cases hexp : delta > antidosTimeBase
  · simp [nextCounter, hexp, CounterInRange]
  · have hbase : antidosTimeBase = 10 := rfl
    obtain ⟨n, rfl⟩ : ∃ n : Nat, delta = n := ⟨delta.toNat, by omega⟩
    -- above the cap the counter stays or is set to the cap
    rcases Nat.lt_or_ge 1000 counter with hcap | hcap
    · simp only [nextCounter, hexp, if_false, CounterInRange, hmax]
      rw [if_neg (by omega)]
      split_ifs <;> omega
    · rw [nextCounter_decay hcap (by omega), CounterInRange, hmax]
      omega

theorem nextCounter_expired (counter : Nat) {delta : Int} (h : delta > antidosTimeBase) :
    nextCounter counter delta = 1 := if_pos h

theorem one_le_nextCounter {counter : Nat} {delta : Int} (h : CounterInRange counter)
    (hd : 0 ≤ delta) : 1 ≤ nextCounter counter delta := (nextCounter_inRange h hd).1

/-- Above the cap the counter stays, or it is set to the cap. -/
theorem nextCounter_above {counter : Nat} {delta : Int} (hcap : antidosCountMax < counter)
    (hd : delta ≤ antidosTimeBase) :
    nextCounter counter delta = if delta > 1 then antidosCountMax else counter := by
  rw [nextCounter, if_neg (not_lt.2 hd), if_neg (not_le.2 hcap)]

theorem nextCounter_mono {c c' : Nat} {delta : Int} (h : CounterInRange c') (hle : c ≤ c')
    (hd : 0 ≤ delta) : nextCounter c delta ≤ nextCounter c' delta := by
  have hmax : antidosCountMax = 1000 := rfl
  have hbase : antidosTimeBase = 10 := rfl
  by_cases hexp : delta > antidosTimeBase
  · rw [nextCounter_expired c hexp]
    exact one_le_nextCounter h hd
  obtain ⟨d, rfl⟩ := Int.eq_ofNat_of_zero_le hd
  rw [hbase] at hexp
  -- above the cap the counter does not decay, so it matters on which side of it each one is
  rcases Nat.lt_or_ge 1000 c' with hcap' | hcap'
  · have habove' : nextCounter c' d = if (d : Int) > 1 then antidosCountMax else c' :=
      nextCounter_above hcap' (by omega)
    rw [habove', hmax]
    rcases Nat.lt_or_ge 1000 c with hcap | hcap
    · have habove : nextCounter c d = if (d : Int) > 1 then antidosCountMax else c :=
        nextCounter_above hcap (by omega)
      rw [habove, hmax]
      split_ifs <;> omega
    · rw [nextCounter_decay hcap (by omega)]
      split_ifs with hgap
      · -- two seconds take more than the request adds
        have hdecay : c * 2 ≤ c * d := Nat.mul_le_mul_left c (by omega)
        omega
      · omega
  · rw [nextCounter_decay (by omega) (by omega), nextCounter_decay hcap' (by omega)]
    have hd10 : d ≤ 10 := by omega
    interval_cases d <;> omega

theorem nextCounter_antitone {c : Nat} {delta delta' : Int} (h : CounterInRange c)
    (hd : 0 ≤ delta) (hle : delta ≤ delta') : nextCounter c delta' ≤ nextCounter c delta := by
  have hmax : antidosCountMax = 1000 := rfl
  have hbase : antidosTimeBase = 10 := rfl
  by_cases hexp : delta' > antidosTimeBase
  · rw [nextCounter_expired c hexp]
    exact one_le_nextCounter h hd
  obtain ⟨d, rfl⟩ := Int.eq_ofNat_of_zero_le hd
  obtain ⟨d', rfl⟩ := Int.eq_ofNat_of_zero_le (hd.trans hle)
  rw [hbase] at hexp
  obtain ⟨-, hc⟩ := h
  rw [hmax] at hc
  rcases Nat.lt_or_ge 1000 c with hcap | hcap
  · rw [nextCounter_above (hmax ▸ hcap) (by omega), nextCounter_above (hmax ▸ hcap) (by omega),
      hmax]
    split_ifs <;> omega
  · rw [nextCounter_decay hcap (by omega), nextCounter_decay hcap (by omega)]
    have hdiv : c * d / 10 ≤ c * d' / 10 :=
      Nat.div_le_div_right (Nat.mul_le_mul_left c (by omega))
    omega

/-- Up to the cap, a request that splits a gap does not lower the counter behind the gap. -/
theorem nextCounter_split {c : Nat} {d₁ d₂ : Int} (h : CounterInRange c)
    (hcap : c ≤ antidosCountMax) (h₁ : 0 ≤ d₁) (h₂ : 0 ≤ d₂) :
    nextCounter c (d₁ + d₂) ≤ nextCounter (nextCounter c d₁) d₂ := by
  have hmax : antidosCountMax = 1000 := rfl
  have hbase : antidosTimeBase = 10 := rfl
  have hnext := nextCounter_inRange h h₁
  by_cases hexp : d₁ + d₂ > antidosTimeBase
  · rw [nextCounter_expired c hexp]
    exact one_le_nextCounter hnext h₂
  obtain ⟨n₁, rfl⟩ := Int.eq_ofNat_of_zero_le h₁
  obtain ⟨n₂, rfl⟩ := Int.eq_ofNat_of_zero_le h₂
  rw [hbase] at hexp
  rw [hmax] at hcap
  have hsum : nextCounter c ((n₁ + n₂ : Nat) : Int) = c - c * (n₁ + n₂) / 10 + 1 :=
    nextCounter_decay hcap (by omega)
  rw [Nat.cast_add] at hsum
  have hfirst : nextCounter c n₁ = c - c * n₁ / 10 + 1 := nextCounter_decay hcap (by omega)
  rcases Nat.lt_or_ge 1000 (nextCounter c n₁) with habove | hbelow
  · -- only a first gap without decay leads above the cap
    have hle : nextCounter c ((n₁ : Int) + n₂) ≤ nextCounter c n₂ :=
      nextCounter_antitone h h₂ (by omega)
    exact hle.trans (nextCounter_mono hnext (by omega) h₂)
  · rw [hsum, nextCounter_decay hbelow (by omega), hfirst]
    -- the second decay takes at most one more than the part of the whole decay it stands for
    have hsecond : (c - c * n₁ / 10 + 1) * n₂ ≤ c * n₂ + n₂ := by
      calc (c - c * n₁ / 10 + 1) * n₂ ≤ (c + 1) * n₂ := Nat.mul_le_mul_right n₂ (by omega)
        _ = c * n₂ + n₂ := by ring
    have hwhole : c * (n₁ + n₂) = c * n₁ + c * n₂ := Nat.mul_add c n₁ n₂
    have hsub : c * (n₁ + n₂) / 10 ≤ c := by
      apply Nat.div_le_of_le_mul
      rw [Nat.mul_comm 10]
      exact Nat.mul_le_mul_left c (by omega)
    omega

/-- The only address of a table in the same second. -/
theorem registerIP_same_second (V : VectorLib) {a : InAddr} {t minTime : Int} {counter : Nat}
    (hcap : counter ≤ antidosCountMax) :
    registerIP V ⟨minTime, [⟨a, t, counter⟩]⟩ a t =
      (counter + 1, ⟨minTime, [⟨a, t, counter + 1⟩]⟩) := by
  have hsingle : IsAscending ⟨minTime, [⟨a, t, counter⟩]⟩ := List.pairwise_singleton _ _
  obtain ⟨pre, post, hsplit, heq, -⟩ :=
    registerIP_data_known V hsingle (t := t) (List.mem_singleton_self _)
  obtain ⟨rfl, rfl⟩ : pre = [] ∧ post = [] := by
    have hlen := congrArg List.length hsplit
    simp only [List.length_append, List.length_cons, List.length_nil] at hlen
    exact ⟨List.eq_nil_of_length_eq_zero (by omega), List.eq_nil_of_length_eq_zero (by omega)⟩
  have hnext : nextCounter counter (t - t) = counter + 1 := by
    rw [sub_self, ← Nat.cast_zero, nextCounter_decay hcap (Nat.zero_le 10)]
    omega
  rw [heq, hnext]
  simp [antidosTimeBase]

end IpSentinel.AntiDOS

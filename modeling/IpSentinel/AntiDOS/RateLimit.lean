import IpSentinel.AntiDOS.Counter
import IpSentinel.AntiDOS.Reference

/-!
# The rate limit

Within ten clock seconds at most `80 + 9 * 8 = 152` requests of an address return a value at which
`isDOS` may let them through. The potential of the proof is the counter cut at 80: an admitted
request raises it by one, and a second of waiting lowers it by at most 8 (`nextCounter_ge`).
-/

set_option autoImplicit false

namespace IpSentinel.AntiDOS

open Foundation

/-! ## The potential -/

/-- The potential step: after an admitted request the counter is at least the old one cut at 80,
plus one, less 8 for each second in between. -/
theorem nextCounter_ge {counter delta : Nat} (h : CounterInRange counter) (hd : delta ≤ 10)
    (hadm : nextCounter counter delta ≤ antidosCountHigh) :
    min counter 80 + 1 ≤ nextCounter counter delta + 8 * delta := by
  obtain ⟨-, h2⟩ := h
  have hmax : antidosCountMax = 1000 := rfl
  have hhigh : antidosCountHigh = 80 := rfl
  rw [hmax] at h2
  rw [hhigh] at hadm
  rcases Nat.lt_or_ge 1000 counter with hcap | hcap
  · -- a counter above the cap stays above 80
    simp only [nextCounter, antidosTimeBase, hmax] at hadm
    rw [if_neg (by omega), if_neg (by omega)] at hadm
    split_ifs at hadm <;> omega
  · -- for each delay the truncated decay is linear in the counter
    rw [nextCounter_decay hcap hd] at hadm ⊢
    interval_cases delta <;> omega

/-! ## Requests in a window -/

/-- An answer of a call in the ten clock seconds from `start` that `isDOS` may let through. -/
def Admitted (start : Int) (r : Int × Nat) : Prop :=
  start ≤ r.1 ∧ r.1 < start + antidosTimeBase ∧ r.2 ≤ antidosCountHigh

instance (start : Int) (r : Int × Nat) : Decidable (Admitted start r) :=
  inferInstanceAs (Decidable (_ ∧ _ ∧ _))

/-- The number of admitted answers in the window. -/
def admittedIn (start : Int) (answers : List (Int × Nat)) : Nat :=
  answers.countP fun r => Admitted start r

/-- Requests after the window are not counted. -/
theorem admittedIn_eq_zero {start : Int} (ref : Option (Int × Nat)) {ts : List Int}
    (h : ∀ t ∈ ts, start + antidosTimeBase ≤ t) : admittedIn start (refAnswers ref ts) = 0 := by
  refine List.countP_eq_zero.2 fun r hr hadm => ?_
  have hmem : r.1 ∈ ts := by
    rw [← map_fst_refAnswers ref ts]
    exact List.mem_map_of_mem hr
  have hout := h r.1 hmem
  have hin := (of_decide_eq_true hadm).2.1
  omega

/-- After a request at `last` in the window with counter `counter`, the window admits at most the
room below 80 and 8 more for each second left. -/
theorem admittedIn_le_of_inside {start last : Int} {counter : Nat} (ts : List Int)
    (hmono : (last :: ts).Pairwise (· ≤ ·)) (hlo : start ≤ last) (hhi : last ≤ start + 9)
    (hc : CounterInRange counter) :
    (admittedIn start (refAnswers (some (last, counter)) ts) : Int) ≤
      80 - min counter 80 + 8 * (start + 9 - last) := by
  -- the bound pays for the requests: one for an admitted one, 8 for a second that passes
  induction ts generalizing last counter with
  | nil =>
    simp only [refAnswers, admittedIn, List.countP_nil]
    omega
  | cons t ts ih =>
    obtain ⟨hlast, htail⟩ := List.pairwise_cons.1 hmono
    have hlt := hlast t List.mem_cons_self
    have hnext := nextCounter_inRange hc (show 0 ≤ t - last by omega)
    have hbase : antidosTimeBase = 10 := rfl
    by_cases hin : t ≤ start + 9
    · have hrest := ih htail (by omega) hin hnext
      simp only [refAnswers, refRegister, admittedIn, List.countP_cons] at hrest ⊢
      by_cases hadm : Admitted start (t, nextCounter counter (t - last))
      · obtain ⟨d, hd⟩ : ∃ d : Nat, t - last = d := ⟨(t - last).toNat, by omega⟩
        have hval : nextCounter counter (t - last) ≤ 80 := hadm.2.2
        have hstep : min counter 80 + 1 ≤ nextCounter counter (t - last) + 8 * d := by
          rw [hd] at hval ⊢
          exact nextCounter_ge hc (by omega) hval
        simp only [hadm, decide_true, if_true]
        push_cast
        omega
      · have hval : 80 < nextCounter counter (t - last) :=
          not_le.1 fun hle => hadm ⟨by simp only; omega, by simp only; omega, hle⟩
        simp only [hadm, decide_false, Bool.false_eq_true, if_false]
        omega
    · -- the clock has left the window
      have hout : ∀ t' ∈ t :: ts, start + antidosTimeBase ≤ t' := by
        intro t' ht'
        rcases List.mem_cons.1 ht' with rfl | ht'
        · omega
        · have hle := (List.pairwise_cons.1 htail).1 t' ht'
          omega
      rw [admittedIn_eq_zero _ hout]
      omega

/-- The window of an address whose first request is still to come. -/
theorem admittedIn_le {start : Int} (ts : List Int) (ref : Option (Int × Nat))
    (hmono : ts.Pairwise (· ≤ ·)) (href : ∀ p, ref = some p → CounterInRange p.2)
    (hpast : ∀ p, ref = some p → ∀ t ∈ ts, p.1 ≤ t) :
    admittedIn start (refAnswers ref ts) ≤ antidosCountHigh + 9 * 8 := by
  have hhigh : antidosCountHigh = 80 := rfl
  have hbase : antidosTimeBase = 10 := rfl
  induction ts generalizing ref with
  | nil => simp [refAnswers, admittedIn]
  | cons t ts ih =>
    obtain ⟨hhead, htail⟩ := List.pairwise_cons.1 hmono
    have hrange : CounterInRange (refRegister ref t).2 := by
      cases ref with
      | none => exact counterInRange_one
      | some p =>
        exact nextCounter_inRange (href p rfl)
          (sub_nonneg.2 (hpast p rfl t List.mem_cons_self))
    by_cases hlo : start ≤ t
    · by_cases hhi : t ≤ start + 9
      · -- the first request in the window
        have hrest := admittedIn_le_of_inside ts hmono hlo hhi hrange
        rw [← refRegister_eq] at hrest
        obtain ⟨hpos, -⟩ := hrange
        simp only [refAnswers, admittedIn, List.countP_cons] at hrest ⊢
        split_ifs <;> omega
      · -- the clock has left the window
        have hout : ∀ t' ∈ t :: ts, start + antidosTimeBase ≤ t' := by
          intro t' ht'
          rcases List.mem_cons.1 ht' with rfl | ht'
          · omega
          · have hle := hhead t' ht'
            omega
        rw [admittedIn_eq_zero _ hout]
        omega
    · -- a request before the window only moves the reference on
      have hnot : ¬ Admitted start (t, (refRegister ref t).2) := fun hadm => hlo hadm.1
      have hrest := ih (some (refRegister ref t)) htail
        (fun p hp => by cases hp; exact hrange) fun p hp t' ht' => by
          cases hp
          rw [refRegister_eq]
          exact hhead t' ht'
      simpa only [refAnswers, admittedIn, List.countP_cons, hnot, decide_false,
        Bool.false_eq_true, if_false, add_zero] using hrest

/-- The rate limit: for every address but the deletion mark, every run with non-decreasing clock
readings and every window of ten clock seconds, at most 152 calls for the address in the window
return a value that `isDOS` may let through. -/
theorem admittedIn_answersFor_le (V : VectorLib) (a : InAddr) (ha : a ≠ deletionMark)
    (calls : List Call) (hmono : ClockMonotone calls) (start : Int) :
    admittedIn start (answersFor V a calls init) ≤ antidosCountHigh + 9 * 8 := by
  rw [answersFor_init V ha hmono]
  exact admittedIn_le _ none (timesOf_pairwise a hmono) (by simp) (by simp)

/-- A flood from one address in one second: the first 80 requests of 100 are admitted. -/
theorem admittedIn_answersFor_le_flood :
    admittedIn 0 (answersFor referenceVector 7 (List.replicate 100 (.registerIP 7 5)) init) ≤
      152 :=
  admittedIn_answersFor_le referenceVector 7 (by decide) _ (by decide) 0

end IpSentinel.AntiDOS

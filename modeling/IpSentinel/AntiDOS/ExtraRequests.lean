import IpSentinel.AntiDOS.Counter
import IpSentinel.AntiDOS.Reference

/-!
# Additional requests

Two runs of requests with one clock, of which the second has extra requests of one address. Up
to the cap they do not lower a later value: a gap that is split in two decays less than the whole
gap (`nextCounter_split`). Above the cap the counter does not decay but is set to the cap, and an
extra request in the gap starts the decay. When the counter of the second run is then not above the
cap again at the end of the gap, the request that ends it returns less than in the first run
(`endsLowered_lowers`). `neverLess_unless_lowered` excludes the end of such a gap and what follows
it, until the entry of the first run expires or the second run has caught up.
-/

set_option autoImplicit false

namespace IpSentinel.AntiDOS

open Foundation

/-! ## The counter -/

/-- A gap above the cap ends in the first run with the cap, and a counter that is not above the cap
ends below it, unless it is counted up to the cap in the same second. -/
theorem nextCounter_lowered {c₁ c₂ : Nat} {l₁ l₂ t : Int} (h : CounterInRange c₂) (hl : l₂ ≤ t)
    (hcap : antidosCountMax < c₁) (hlong : 1 < t - l₁) (hlive : t - l₁ ≤ antidosTimeBase)
    (hc : c₂ ≤ antidosCountMax) (hlow : l₂ < t ∨ c₂ + 1 < antidosCountMax) :
    nextCounter c₂ (t - l₂) < nextCounter c₁ (t - l₁) := by
  have hmax : antidosCountMax = 1000 := rfl
  have hfull : CounterInRange antidosCountMax := ⟨by decide, by decide⟩
  rw [nextCounter_above hcap hlive, if_pos hlong]
  rcases hlow with hlt | hlow
  · calc nextCounter c₂ (t - l₂) ≤ nextCounter antidosCountMax (t - l₂) :=
          nextCounter_mono hfull hc (by omega)
      _ ≤ nextCounter antidosCountMax 1 := nextCounter_antitone hfull (by decide) (by omega)
      _ < antidosCountMax := by decide
  · calc nextCounter c₂ (t - l₂) ≤ nextCounter c₂ 0 :=
          nextCounter_antitone h le_rfl (by omega)
      _ = c₂ + 1 := nextCounter_zero hc
      _ < antidosCountMax := hlow

/-- An extra request at `r`, between the last accesses and the next common request at `t`, when the
counter of the first run is not above the cap. -/
theorem nextCounter_extra {c₁ c₂ : Nat} {l₁ l₂ r t : Int} (hc₁ : c₁ ≤ antidosCountMax)
    (h₂ : CounterInRange c₂) (hl : l₁ ≤ l₂) (hr : l₂ ≤ r) (ht : r ≤ t)
    (hle : nextCounter c₁ (t - l₁) ≤ nextCounter c₂ (t - l₂)) :
    nextCounter c₁ (t - l₁) ≤ nextCounter (nextCounter c₂ (r - l₂)) (t - r) := by
  have hnext := nextCounter_inRange h₂ (show 0 ≤ r - l₂ by omega)
  rcases le_or_gt c₂ antidosCountMax with hcap | hcap
  · have hgap : t - l₂ = (r - l₂) + (t - r) := by ring
    rw [hgap] at hle
    exact hle.trans (nextCounter_split h₂ hcap (by omega) (by omega))
  by_cases hexp : t - l₁ > antidosTimeBase
  · rw [nextCounter_expired c₁ hexp]
    exact one_le_nextCounter hnext (by omega)
  have habove := nextCounter_above hcap (show r - l₂ ≤ antidosTimeBase by omega)
  by_cases hshort : r - l₂ > 1
  · -- the extra request sets the counter to the cap
    rw [habove, if_pos hshort]
    have hfull : CounterInRange antidosCountMax := ⟨by decide, by decide⟩
    calc nextCounter c₁ (t - l₁) ≤ nextCounter antidosCountMax (t - l₁) :=
          nextCounter_mono hfull hc₁ (by omega)
      _ ≤ nextCounter antidosCountMax (t - r) :=
          nextCounter_antitone hfull (by omega) (by omega)
  · rw [habove, if_neg hshort]
    exact hle.trans (nextCounter_antitone h₂ (by omega) (by omega))

/-! ## Two runs -/

/-- A request with its clock reading, and whether it is one of the extra ones. -/
structure Request where
  ip : InAddr
  time : Int
  extra : Bool
  deriving DecidableEq

/-- The requests of a run with the values they return. -/
def returned (V : VectorLib) : List Request → AntiDOS → List (Request × Nat)
  | [], _ => []
  | r :: rs, dos =>
    let p := registerIP V dos r.ip r.time
    (r, p.1) :: returned V rs p.2

/-- The requests of the first run. -/
def common (rs : List Request) : List Request := rs.filter fun r => !r.extra

/-- Each common request returns in the second run at least the value it returns in the first. -/
def NeverLess (V : VectorLib) (rs : List Request) (dos₁ dos₂ : AntiDOS) : Prop :=
  List.Forall₂ (fun x y => x.2 ≤ y.2) (returned V (common rs) dos₁)
    ((returned V rs dos₂).filter fun x => !x.1.extra)

/-- The tables of both runs, and whether the last common request of the address has returned less in
the second run for a gap above the cap. -/
structure TwoRuns where
  first : AntiDOS
  second : AntiDOS
  lowered : Bool

def TwoRuns.start : TwoRuns := ⟨init, init, false⟩

/-- A request at `t` ends a gap of more than a second that the first run has begun above the cap,
and the second run has come down: its counter is not above the cap, nor counted up to it by this
request. -/
def EndsLowered (d₁ d₂ : Data) (t : Int) : Prop :=
  antidosCountMax < d₁.counter ∧ 1 < t - d₁.accessTime ∧ t - d₁.accessTime ≤ antidosTimeBase ∧
    d₂.counter ≤ antidosCountMax ∧ (d₂.accessTime < t ∨ d₂.counter + 1 < antidosCountMax)

instance (d₁ d₂ : Data) (t : Int) : Decidable (EndsLowered d₁ d₂ t) :=
  inferInstanceAs (Decidable (_ ∧ _))

/-- At `t` the entry of the first run has not expired, and the second run has not caught up. -/
def StaysLowered (d₁ d₂ : Data) (t : Int) : Prop :=
  t - d₁.accessTime ≤ antidosTimeBase ∧ d₂.counter < d₁.counter

instance (d₁ d₂ : Data) (t : Int) : Decidable (StaysLowered d₁ d₂ t) :=
  inferInstanceAs (Decidable (_ ∧ _))

namespace TwoRuns

/-- A common request of `a` at `t` ends a gap above the cap in which the second run has come down,
or follows the end of such a gap without an expiry and before the second run has caught up. -/
def LoweredAt (p : TwoRuns) (a : InAddr) (t : Int) : Prop :=
  ∃ d₁ ∈ p.first.data, ∃ d₂ ∈ p.second.data, d₁.ip = a ∧ d₂.ip = a ∧
    (EndsLowered d₁ d₂ t ∨ p.lowered = true ∧ StaysLowered d₁ d₂ t)

instance (p : TwoRuns) (a : InAddr) (t : Int) : Decidable (p.LoweredAt a t) :=
  inferInstanceAs (Decidable (∃ d₁ ∈ p.first.data, ∃ d₂ ∈ p.second.data, _))

/-- A request: an extra one comes in the second run only. -/
def next (V : VectorLib) (a : InAddr) (p : TwoRuns) (r : Request) : TwoRuns :=
  if r.extra then { p with second := (registerIP V p.second r.ip r.time).2 }
  else
    { first := (registerIP V p.first r.ip r.time).2
      second := (registerIP V p.second r.ip r.time).2
      lowered := if r.ip = a then decide (p.LoweredAt a r.time) else p.lowered }

/-- Each common request returns in the second run at least the value it returns in the first, but
for those of `a` at and behind the end of a lowered gap. -/
def NeverLessUnlessLowered (V : VectorLib) (a : InAddr) : List Request → TwoRuns → Prop
  | [], _ => True
  | r :: rs, p =>
    (r.extra = false → ¬ (r.ip = a ∧ p.LoweredAt a r.time) →
      (registerIP V p.first r.ip r.time).1 ≤ (registerIP V p.second r.ip r.time).1) ∧
    NeverLessUnlessLowered V a rs (p.next V a r)

end TwoRuns

/-! ## The pairs of the address in the two runs -/

/-- A pair is not ahead of the clock, and its counter is in its range. -/
def Fits (now : Int) (ref : Option (Int × Nat)) : Prop :=
  ∀ p, ref = some p → p.1 ≤ now ∧ CounterInRange p.2

theorem fits_none (now : Int) : Fits now none := fun _ hp => nomatch hp

theorem Fits.later {now t : Int} {ref : Option (Int × Nat)} (h : Fits now ref) (hle : now ≤ t) :
    Fits t ref := by
  intro p hp
  obtain ⟨hpast, hrange⟩ := h p hp
  exact ⟨hpast.trans hle, hrange⟩

theorem Fits.register {now t : Int} {ref : Option (Int × Nat)} (h : Fits now ref)
    (hle : now ≤ t) : CounterInRange (refRegister ref t).2 := by
  cases ref with
  | none => exact counterInRange_one
  | some p =>
    obtain ⟨hpast, hrange⟩ := h p rfl
    exact nextCounter_inRange hrange (by omega)

theorem Fits.next {now t : Int} {ref : Option (Int × Nat)} (h : Fits now ref) (hle : now ≤ t) :
    Fits t (some (refRegister ref t)) := by
  rintro p ⟨⟩
  exact ⟨(congrArg Prod.fst (refRegister_eq ref t)).le, h.register hle⟩

/-- The pairs of an address in the two runs: the first run has not seen the address, or it has seen
it last no later than the second run. -/
inductive Ordered (now : Int) : Option (Int × Nat) → Option (Int × Nat) → Prop where
  | fresh {ref₂ : Option (Int × Nat)} : Fits now ref₂ → Ordered now none ref₂
  | seen {p₁ p₂ : Int × Nat} : Fits now (some p₁) → Fits now (some p₂) → p₁.1 ≤ p₂.1 →
      Ordered now (some p₁) (some p₂)

theorem Ordered.fits_left {now : Int} {ref₁ ref₂ : Option (Int × Nat)}
    (h : Ordered now ref₁ ref₂) : Fits now ref₁ := by
  cases h with
  | fresh h₂ => exact fits_none now
  | seen h₁ h₂ hle => exact h₁

theorem Ordered.fits_right {now : Int} {ref₁ ref₂ : Option (Int × Nat)}
    (h : Ordered now ref₁ ref₂) : Fits now ref₂ := by
  cases h with
  | fresh h₂ => exact h₂
  | seen h₁ h₂ hle => exact h₂

theorem Ordered.later {now t : Int} {ref₁ ref₂ : Option (Int × Nat)} (h : Ordered now ref₁ ref₂)
    (hle : now ≤ t) : Ordered t ref₁ ref₂ := by
  cases h with
  | fresh h₂ => exact Ordered.fresh (h₂.later hle)
  | seen h₁ h₂ hp => exact Ordered.seen (h₁.later hle) (h₂.later hle) hp

/-- After a common request both pairs have its time. -/
theorem Ordered.common {now t : Int} {ref₁ ref₂ : Option (Int × Nat)} (h : Ordered now ref₁ ref₂)
    (hle : now ≤ t) : Ordered t (some (refRegister ref₁ t)) (some (refRegister ref₂ t)) := by
  apply Ordered.seen (h.fits_left.next hle) (h.fits_right.next hle)
  rw [refRegister_eq ref₁, refRegister_eq ref₂]

theorem Ordered.extra {now r : Int} {ref₁ ref₂ : Option (Int × Nat)} (h : Ordered now ref₁ ref₂)
    (hle : now ≤ r) : Ordered r ref₁ (some (refRegister ref₂ r)) := by
  have hnext := h.fits_right.next hle
  cases h with
  | fresh h₂ => exact Ordered.fresh hnext
  | @seen p₁ p₂ h₁ h₂ hp =>
    apply Ordered.seen (h₁.later hle) hnext
    rw [refRegister_eq]
    exact (h₁ p₁ rfl).1.trans hle

/-- The pairs of both runs as they are after a common request in order: above the cap the second run
stays there for a second, and up to the cap it is not less at any later request. -/
structure InOrder (p₁ p₂ : Int × Nat) : Prop where
  above : antidosCountMax < p₁.2 → p₂.1 - p₁.1 ≤ 1 → antidosCountMax < p₂.2
  later : p₁.2 ≤ antidosCountMax → ∀ t, p₂.1 ≤ t →
    nextCounter p₁.2 (t - p₁.1) ≤ nextCounter p₂.2 (t - p₂.1)

theorem inOrder_common {t : Int} {c₁ c₂ : Nat} (h : CounterInRange c₂) (hle : c₁ ≤ c₂) :
    InOrder (t, c₁) (t, c₂) where
  above hcap _ := hcap.trans_le hle
  later _ _ ht' := nextCounter_mono h hle (sub_nonneg.2 ht')

/-- An extra request leaves the order, whatever the gap. -/
theorem InOrder.extra {p₁ p₂ : Int × Nat} {r : Int} (h : InOrder p₁ p₂)
    (h₂ : CounterInRange p₂.2) (hl : p₁.1 ≤ p₂.1) (hr : p₂.1 ≤ r) :
    InOrder p₁ (r, nextCounter p₂.2 (r - p₂.1)) where
  above hcap hshort := by
    have hbase : antidosTimeBase = 10 := rfl
    have hcap₂ := h.above hcap (by dsimp only at hshort; omega)
    dsimp only at hshort ⊢
    rw [nextCounter_above hcap₂ (by omega), if_neg (by omega)]
    exact hcap₂
  later hc t ht := nextCounter_extra hc h₂ hl hr ht (h.later hc t (hr.trans ht))

/-- In order, the common request at `t` returns in the second run less than in the first only at the
end of a lowered gap. -/
theorem InOrder.value_le {p₁ p₂ : Int × Nat} {t : Int} (h : InOrder p₁ p₂)
    (h₁ : CounterInRange p₁.2) (hl : p₁.1 ≤ p₂.1) (ht : p₂.1 ≤ t)
    (hlive : t - p₁.1 ≤ antidosTimeBase)
    (hends : ¬ (antidosCountMax < p₁.2 ∧ 1 < t - p₁.1 ∧ t - p₁.1 ≤ antidosTimeBase ∧
      p₂.2 ≤ antidosCountMax ∧ (p₂.1 < t ∨ p₂.2 + 1 < antidosCountMax))) :
    nextCounter p₁.2 (t - p₁.1) ≤ nextCounter p₂.2 (t - p₂.1) := by
  have hle₁ := h₁.2
  rcases le_or_gt p₁.2 antidosCountMax with hc₁ | hc₁
  · -- up to the cap the order is kept at any gap
    exact h.later hc₁ t ht
  rw [nextCounter_above hc₁ hlive]
  rcases le_or_gt p₂.2 antidosCountMax with hc₂ | hc₂
  · -- the second run has come down, so more than a second has passed, and it is counted up again
    have hlong : 1 < t - p₁.1 := by
      by_contra hshort
      exact absurd (h.above hc₁ (by omega)) (not_lt.2 hc₂)
    have hend : ¬ (p₂.1 < t ∨ p₂.2 + 1 < antidosCountMax) :=
      fun hlow => hends ⟨hc₁, hlong, hlive, hc₂, hlow⟩
    rw [not_or] at hend
    have hsame : t - p₂.1 = 0 := by omega
    rw [if_pos hlong, hsame, nextCounter_zero hc₂]
    omega
  · -- above the cap in both runs, the shorter gap of the second one does no harm
    rw [nextCounter_above hc₂ (by omega)]
    split_ifs <;> omega

/-! ## The simulation -/

/-- The tables of the two runs at time `now`: they agree on the other addresses, and the pairs of
`a` are in order unless the last common request has been lowered. -/
structure Ahead (a : InAddr) (p : TwoRuns) (now : Int) : Prop where
  others : ∀ b, b ≠ a → ∃ ref, Tracks b p.first ref now ∧ Tracks b p.second ref now
  self : ∃ ref₁ ref₂, Tracks a p.first ref₁ now ∧ Tracks a p.second ref₂ now ∧
    Ordered now ref₁ ref₂ ∧
    (p.lowered = false → ∀ p₁ p₂, ref₁ = some p₁ → ref₂ = some p₂ → InOrder p₁ p₂)

theorem ahead_start (a : InAddr) (now : Int) : Ahead a .start now where
  others b _ := ⟨none, tracks_init b now, tracks_init b now⟩
  self := ⟨none, none, tracks_init a now, tracks_init a now, Ordered.fresh (fits_none now),
    fun _ _ _ h => nomatch h⟩

/-- An extra request of `a`. -/
theorem Ahead.extra (V : VectorLib) {r : Request} {p : TwoRuns} {now : Int}
    (h : Ahead r.ip p now) (hr : r.extra = true) (hle : now ≤ r.time) :
    Ahead r.ip (p.next V r.ip r) r.time := by
  obtain ⟨ref₁, ref₂, h₁, h₂, hord, hval⟩ := h.self
  rw [TwoRuns.next, if_pos hr]
  refine ⟨?_, ref₁, _, h₁.later hle, ((h₂.later hle).registerIP_self V).2, hord.extra hle, ?_⟩
  · -- the other addresses do not notice the request
    intro b hb
    obtain ⟨ref, hb₁, hb₂⟩ := h.others b hb
    exact ⟨ref, hb₁.later hle, (hb₂.later hle).registerIP_other V hb.symm⟩
  · rintro hlow p₁ _ rfl ⟨⟩
    cases hord with
    | @seen _ p₂ _ hfit₂ hp =>
      obtain ⟨hpast₂, hrange₂⟩ := hfit₂ p₂ rfl
      exact (hval hlow p₁ p₂ rfl rfl).extra hrange₂ hp (hpast₂.trans hle)

/-- A common request of `a` that is not lowered returns in the second run at least the value it
returns in the first. -/
theorem Ahead.value_le {a : InAddr} {p : TwoRuns} {t : Int} {ref₁ ref₂ : Option (Int × Nat)}
    (h₁ : Tracks a p.first ref₁ t) (h₂ : Tracks a p.second ref₂ t) (hord : Ordered t ref₁ ref₂)
    (hval : p.lowered = false → ∀ p₁ p₂, ref₁ = some p₁ → ref₂ = some p₂ → InOrder p₁ p₂)
    (hnot : ¬ p.LoweredAt a t) : (refRegister ref₁ t).2 ≤ (refRegister ref₂ t).2 := by
  cases hord with
  | fresh hfit => exact (hfit.register le_rfl).1
  | @seen p₁ p₂ hfit₁ hfit₂ hp =>
    obtain ⟨hpast₁, hrange₁⟩ := hfit₁ p₁ rfl
    obtain ⟨hpast₂, hrange₂⟩ := hfit₂ p₂ rfl
    change nextCounter p₁.2 (t - p₁.1) ≤ nextCounter p₂.2 (t - p₂.1)
    by_cases hexp : t - p₁.1 > antidosTimeBase
    · -- the first run starts anew
      rw [nextCounter_expired p₁.2 hexp]
      exact one_le_nextCounter hrange₂ (by omega)
    -- pairs that have not expired are entries
    obtain ⟨d₁, hd₁, hip₁, htime₁, hcounter₁⟩ := h₁.exists_entry (not_lt.1 hexp)
    obtain ⟨d₂, hd₂, hip₂, htime₂, hcounter₂⟩ := h₂.exists_entry (by omega)
    have hentries : ¬ (EndsLowered d₁ d₂ t ∨ p.lowered = true ∧ StaysLowered d₁ d₂ t) :=
      fun h => hnot ⟨d₁, hd₁, d₂, hd₂, hip₁, hip₂, h⟩
    rw [EndsLowered, StaysLowered, htime₁, htime₂, hcounter₁, hcounter₂, not_or] at hentries
    cases hlow : p.lowered with
    | false =>
      exact (hval hlow p₁ p₂ rfl rfl).value_le hrange₁ hp hpast₂ (not_lt.1 hexp) hentries.1
    | true =>
      -- the second run has caught up
      have hcaught : p₁.2 ≤ p₂.2 :=
        not_lt.1 fun hlt => hentries.2 ⟨hlow, not_lt.1 hexp, hlt⟩
      calc nextCounter p₁.2 (t - p₁.1) ≤ nextCounter p₂.2 (t - p₁.1) :=
            nextCounter_mono hrange₂ hcaught (by omega)
        _ ≤ nextCounter p₂.2 (t - p₂.1) := nextCounter_antitone hrange₂ (by omega) (by omega)

/-- A common request of `a`. -/
theorem Ahead.common_self (V : VectorLib) {r : Request} {p : TwoRuns} {now : Int}
    (h : Ahead r.ip p now) (hr : r.extra = false) (hle : now ≤ r.time) :
    (¬ p.LoweredAt r.ip r.time →
      (registerIP V p.first r.ip r.time).1 ≤ (registerIP V p.second r.ip r.time).1) ∧
      Ahead r.ip (p.next V r.ip r) r.time := by
  obtain ⟨ref₁, ref₂, h₁, h₂, hord, hval⟩ := h.self
  obtain ⟨heq₁, hnext₁⟩ := (h₁.later hle).registerIP_self V
  obtain ⟨heq₂, hnext₂⟩ := (h₂.later hle).registerIP_self V
  have hvalue := Ahead.value_le (h₁.later hle) (h₂.later hle) (hord.later hle) hval
  rw [TwoRuns.next, hr, if_neg Bool.false_ne_true, if_pos rfl, heq₁, heq₂]
  refine ⟨hvalue, ?_, _, _, hnext₁, hnext₂, hord.common hle, ?_⟩
  · intro b hb
    obtain ⟨ref, hb₁, hb₂⟩ := h.others b hb
    exact ⟨ref, (hb₁.later hle).registerIP_other V hb.symm,
      (hb₂.later hle).registerIP_other V hb.symm⟩
  · rintro hlow _ _ ⟨⟩ ⟨⟩
    rw [refRegister_eq ref₁, refRegister_eq ref₂]
    exact inOrder_common (hord.fits_right.register hle) (hvalue (of_decide_eq_false hlow))

/-- A common request of another address returns the same value in both runs. -/
theorem Ahead.common_other (V : VectorLib) {a : InAddr} {r : Request} {p : TwoRuns} {now : Int}
    (h : Ahead a p now) (hr : r.extra = false) (hne : r.ip ≠ a) (hle : now ≤ r.time) :
    (registerIP V p.first r.ip r.time).1 = (registerIP V p.second r.ip r.time).1 ∧
      Ahead a (p.next V a r) r.time := by
  obtain ⟨ref, hip₁, hip₂⟩ := h.others r.ip hne
  obtain ⟨heq₁, hnext₁⟩ := (hip₁.later hle).registerIP_self V
  obtain ⟨heq₂, hnext₂⟩ := (hip₂.later hle).registerIP_self V
  rw [TwoRuns.next, hr, if_neg Bool.false_ne_true, if_neg hne]
  refine ⟨heq₁.trans heq₂.symm, ?_, ?_⟩
  · intro b hb
    by_cases hbr : r.ip = b
    · subst hbr
      exact ⟨_, hnext₁, hnext₂⟩
    · obtain ⟨ref, hb₁, hb₂⟩ := h.others b hb
      exact ⟨ref, (hb₁.later hle).registerIP_other V hbr, (hb₂.later hle).registerIP_other V hbr⟩
  · obtain ⟨ref₁, ref₂, h₁, h₂, hord, hval⟩ := h.self
    exact ⟨ref₁, ref₂, (h₁.later hle).registerIP_other V hne,
      (h₂.later hle).registerIP_other V hne, hord.later hle, hval⟩

theorem neverLess_of_ahead (V : VectorLib) {a : InAddr} {rs : List Request} {p : TwoRuns}
    {now : Int} (h : Ahead a p now) (hnow : ∀ r ∈ rs, now ≤ r.time)
    (hextra : ∀ r ∈ rs, r.extra = true → r.ip = a)
    (hmono : (rs.map Request.time).Pairwise (· ≤ ·)) : p.NeverLessUnlessLowered V a rs := by
  -- `Ahead` is the invariant; its clock is that of the last request
  induction rs generalizing p now with
  | nil => trivial
  | cons r rs ih =>
    obtain ⟨hhead, htail⟩ := List.pairwise_cons.1 hmono
    rw [List.forall_mem_cons] at hextra
    have hle := hnow r List.mem_cons_self
    have hnow' : ∀ r' ∈ rs, r.time ≤ r'.time := fun r' hr' => hhead _ (List.mem_map_of_mem hr')
    cases hr : r.extra with
    | true =>
      obtain rfl := hextra.1 hr
      refine ⟨fun hcommon => ?_, ih (h.extra V hr hle) hnow' hextra.2 htail⟩
      rw [hr] at hcommon
      cases hcommon
    | false =>
      by_cases hip : r.ip = a
      · subst hip
        obtain ⟨hval, hahead⟩ := h.common_self V hr hle
        refine ⟨fun _ hnot => hval fun hlow => hnot ⟨rfl, hlow⟩, ?_⟩
        exact ih hahead hnow' hextra.2 htail
      · obtain ⟨hval, hahead⟩ := h.common_other V hr hip hle
        exact ⟨fun _ _ => hval.le, ih hahead hnow' hextra.2 htail⟩

/-- A flood of 1001 requests. Two extra requests in one second of the gap behind it bring the
counter above the cap again, so that the common request at 9 is among those compared; a third one
lets the common request at 18 be lowered, and behind an expiry the values are compared again. -/
def floodAndExtra : List Request :=
  List.replicate 1001 ⟨1, 0, false⟩ ++ [⟨1, 2, true⟩, ⟨1, 2, true⟩, ⟨1, 9, false⟩, ⟨2, 9, false⟩,
    ⟨1, 9, false⟩, ⟨1, 12, true⟩, ⟨1, 18, false⟩, ⟨1, 30, false⟩]

theorem NeverLess.tail {V : VectorLib} {r : Request} {rs : List Request} {dos₁ dos₂ : AntiDOS}
    (h : NeverLess V (r :: rs) dos₁ dos₂) (hr : r.extra = false) :
    NeverLess V rs (registerIP V dos₁ r.ip r.time).2 (registerIP V dos₂ r.ip r.time).2 := by
  simp only [NeverLess, common, returned, List.filter_cons, hr, Bool.not_false, if_true] at h
  exact (List.forall₂_cons.1 h).2

/-- A flood of common requests in one second. -/
theorem NeverLess.flood {V : VectorLib} {a : InAddr} {t minTime : Int} {counter : Nat}
    {rs : List Request} (n : Nat) (hcap : counter + n ≤ antidosCountMax + 1)
    (h : NeverLess V (List.replicate n ⟨a, t, false⟩ ++ rs) ⟨minTime, [⟨a, t, counter⟩]⟩
      ⟨minTime, [⟨a, t, counter⟩]⟩) :
    NeverLess V rs ⟨minTime, [⟨a, t, counter + n⟩]⟩ ⟨minTime, [⟨a, t, counter + n⟩]⟩ := by
  induction n generalizing counter with
  | zero => exact h
  | succ n ih =>
    have hrest := NeverLess.tail h rfl
    dsimp only at hrest
    rw [registerIP_same_second V (by omega)] at hrest
    have hlast := ih (by omega) hrest
    rwa [Nat.add_right_comm] at hlast

/-- The common request that ends a lowered gap returns less than in the first run. -/
theorem endsLowered_lowers (V : VectorLib) {dos₁ dos₂ : AntiDOS} {a : InAddr} {d₁ d₂ : Data}
    {t : Int} (h₁ : dos₁.IsAscending) (h₂ : dos₂.IsAscending) (hd₁ : d₁ ∈ dos₁.data)
    (hd₂ : d₂ ∈ dos₂.data) (hip₁ : d₁.ip = a) (hip₂ : d₂.ip = a)
    (hrange : CounterInRange d₂.counter) (hle : d₂.accessTime ≤ t) (h : EndsLowered d₁ d₂ t) :
    (registerIP V dos₂ a t).1 < (registerIP V dos₁ a t).1 := by
  obtain ⟨hcap, hlong, hlive, hc, hlow⟩ := h
  have htracks₁ := tracks_of_mem h₁ hd₁ t
  have htracks₂ := tracks_of_mem h₂ hd₂ t
  rw [hip₁] at htracks₁
  rw [hip₂] at htracks₂
  rw [(htracks₁.registerIP_self V).1, (htracks₂.registerIP_self V).1]
  exact nextCounter_lowered hrange hle hcap hlong hlive hc hlow

end IpSentinel.AntiDOS

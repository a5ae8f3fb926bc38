import IpSentinel.AntiDOS.RateLimit
import IpSentinel.AntiDOS.Sweep
import IpSentinel.Foundation.Runs

/-!
# The invariant of the table

The main loop calls `AntiDOS_registerIP` only while the table is not oversized. With a clock that
does not go back such calls and the sweeps keep the table ascending, bounded, and within the limits
of its counters and times (`invariant_of_run`).
-/

set_option autoImplicit false

namespace IpSentinel.AntiDOS

open Foundation

/-- The table with the last reading of the clock. -/
structure Clocked where
  dos : AntiDOS
  last : Int
  deriving DecidableEq

/-- The clock counts seconds since the epoch, so that the readings start at 0. -/
def Clocked.start : Clocked := ⟨init, 0⟩

/-- The calls as the main loop makes them: an oversized table is left alone, and the clock is not
read. -/
def guardedStep (V : VectorLib) (c : Clocked) : Call → Option Clocked
  | .update t => some ⟨update V c.dos t, t⟩
  | .registerIP ip t =>
    if c.dos.isOversized then some c else some ⟨(registerIP V c.dos ip t).2, t⟩

/-- The clock has not gone back since the last reading, if the call reads it. -/
def ClockForward (c : Clocked) (call : Call) : Prop :=
  match call with
  | .update t => c.last ≤ t
  | .registerIP _ t => c.dos.isOversized = true ∨ c.last ≤ t

instance (c : Clocked) (call : Call) : Decidable (ClockForward c call) := by
  cases call
  · exact inferInstanceAs (Decidable (_ ∨ _))
  · exact inferInstanceAs (Decidable (_ ≤ _))

/-- What holds of the table between two calls. -/
structure Invariant (dos : AntiDOS) (last : Int) : Prop where
  ascending : dos.IsAscending
  bounded : dos.data.length ≤ antidosEntriesMax
  counter : ∀ d ∈ dos.data, CounterInRange d.counter
  minTime : ∀ d ∈ dos.data, dos.minTime ≤ d.accessTime
  accessTime : ∀ d ∈ dos.data, d.accessTime ≤ last
  epoch : ∀ d ∈ dos.data, 0 ≤ d.accessTime
  minTime_le : dos.minTime ≤ last
  epoch_le : 0 ≤ last

theorem Invariant.timed {dos : AntiDOS} {last : Int} (h : Invariant dos last) : Timed dos last where
  ascending := h.ascending
  minTime := h.minTime
  accessTime := h.accessTime
  epoch := h.epoch
  minTime_le := h.minTime_le
  epoch_le := h.epoch_le

theorem Timed.invariant {dos : AntiDOS} {last : Int} (h : Timed dos last)
    (hbounded : dos.data.length ≤ antidosEntriesMax)
    (hcounter : ∀ d ∈ dos.data, CounterInRange d.counter) : Invariant dos last where
  ascending := h.ascending
  bounded := hbounded
  counter := hcounter
  minTime := h.minTime
  accessTime := h.accessTime
  epoch := h.epoch
  minTime_le := h.minTime_le
  epoch_le := h.epoch_le

theorem invariant_init : Invariant init 0 :=
  timed_init.invariant (Nat.zero_le _) (List.forall_mem_nil _)

/-- The invariant outlasts the clock. -/
theorem Invariant.later {dos : AntiDOS} {last t : Int} (h : Invariant dos last) (ht : last ≤ t) :
    Invariant dos t :=
  (h.timed.later ht).invariant h.bounded h.counter

/-! ## registerIP -/

/-- The binary search finds the entry of an address. -/
theorem search_of_mem (V : VectorLib) {dos : AntiDOS} (h : dos.IsAscending) {d : Data}
    (hd : d ∈ dos.data) :
    ∃ i, V.search searchCompare dos.data d.ip = some i ∧ dos.data.get i = d := by
  cases hs : V.search searchCompare dos.data d.ip with
  | none => exact absurd rfl ((search_eq_none_iff V h d.ip).1 hs d hd)
  | some i =>
    have hip := searchCompare_eq_zero.1 (V.search_some _ _ _ _ (h.partitioned d.ip) hs)
    exact ⟨i, rfl, h.unique (dos.data.get_mem i) hd (key_eq_iff.2 hip.symm)⟩

/-- A guarded call of `AntiDOS_registerIP` keeps the invariant. -/
theorem Invariant.registerIP (V : VectorLib) {dos : AntiDOS} {last t : Int} (h : Invariant dos last)
    (ht : last ≤ t) (hroom : dos.isOversized = false) (ip : InAddr) :
    Invariant (registerIP V dos ip t).2 t := by
  have hbounded : (AntiDOS.registerIP V dos ip t).2.data.length ≤ antidosEntriesMax := by
    have hlt : dos.data.length < antidosEntriesMax := by
      simpa [isOversized] using hroom
    exact (length_registerIP_le V h.ascending ip t).trans hlt
  have hcounter : ∀ d ∈ (AntiDOS.registerIP V dos ip t).2.data, CounterInRange d.counter := by
    apply forall_mem_registerIP V h.ascending h.counter counterInRange_one
    intro d hd _
    apply nextCounter_inRange (h.counter d hd)
    exact sub_nonneg.2 ((h.accessTime d hd).trans ht)
  exact (h.timed.registerIP V ht ip).invariant hbounded hcounter

/-! ## update -/

/-- A sweep keeps the invariant. -/
theorem Invariant.update (V : VectorLib) {dos : AntiDOS} {last t : Int} (h : Invariant dos last)
    (ht : last ≤ t) : Invariant (update V dos t) t := by
  have hsub := update_data_sublist V h.ascending t
  exact (h.timed.update V ht).invariant (hsub.length_le.trans h.bounded)
    fun d hd => h.counter d (hsub.subset hd)

/-! ## Runs -/

theorem Invariant.guardedStep (V : VectorLib) {c c' : Clocked} {call : Call}
    (h : Invariant c.dos c.last) (hclock : ClockForward c call)
    (hstep : guardedStep V c call = some c') : Invariant c'.dos c'.last := by
  cases call with
  | update t =>
    cases hstep
    exact h.update V hclock
  | registerIP ip t =>
    rw [AntiDOS.guardedStep] at hstep
    split_ifs at hstep with hover
    · cases hstep
      exact h
    · cases hstep
      have hroom := eq_false_of_ne_true hover
      exact h.registerIP V (hclock.resolve_left hover) hroom ip

/-- What is promised of the table at the last reading of the clock: it is strictly ascending, so
that an address has one entry, which the binary search finds; it is not larger than the limit; and
the counters and times are in their ranges. -/
structure WellFormed (V : VectorLib) (dos : AntiDOS) (last : Int) : Prop where
  ascending : dos.IsAscending
  unique : ∀ d ∈ dos.data, ∀ e ∈ dos.data, d.ip = e.ip → d = e
  found : ∀ d ∈ dos.data, ∃ i, V.search searchCompare dos.data d.ip = some i ∧ dos.data.get i = d
  bounded : dos.data.length ≤ antidosEntriesMax
  counter : ∀ d ∈ dos.data, 1 ≤ d.counter ∧ d.counter ≤ antidosCountMax + 1
  times : ∀ d ∈ dos.data, dos.minTime ≤ d.accessTime ∧ d.accessTime ≤ last

theorem Invariant.wellFormed (V : VectorLib) {dos : AntiDOS} {last : Int} (h : Invariant dos last) :
    WellFormed V dos last where
  ascending := h.ascending
  unique _ hd _ he hip := h.ascending.unique hd he (key_eq_iff.2 hip)
  found _ hd := search_of_mem V h.ascending hd
  bounded := h.bounded
  counter := h.counter
  times d hd := ⟨h.minTime d hd, h.accessTime d hd⟩

theorem invariant_of_run (V : VectorLib) {calls : List Call} {c : Clocked}
    (hclock : StepsMeet (guardedStep V) ClockForward calls .start)
    (hrun : run (guardedStep V) calls .start = some c) : Invariant c.dos c.last :=
  run_invariant_of_stepsMeet (I := fun c => Invariant c.dos c.last)
    (fun _ _ _ h hforward hstep => h.guardedStep V hforward hstep) invariant_init hclock hrun

/-- After every run of sweeps and guarded requests with a clock that does not go back the table is
as promised. -/
theorem guardedRun_wellFormed (V : VectorLib) (calls : List Call) (c : Clocked)
    (hclock : StepsMeet (guardedStep V) ClockForward calls .start)
    (hrun : run (guardedStep V) calls .start = some c) : WellFormed V c.dos c.last :=
  (invariant_of_run V hclock hrun).wellFormed V

/-- Two addresses, one of which is swept away. -/
theorem guardedRun_wellFormed_swept :
    WellFormed referenceVector ⟨112, [⟨2, 112, 1⟩]⟩ 113 :=
  guardedRun_wellFormed referenceVector
    [.update 100, .registerIP 1 100, .update 112, .registerIP 2 112, .update 113]
    ⟨⟨112, [⟨2, 112, 1⟩]⟩, 113⟩ (by decide) (by decide)

end IpSentinel.AntiDOS

import IpSentinel.AntiDOS.Invariant
import IpSentinel.MainLoop.Machine

/-!
# The anti-DOS table in the main loop

An iteration calls `AntiDOS_update` once and `AntiDOS_registerIP` at most twice, behind the test of
`AntiDOS_isOversized`. So the invariant of the table holds in every state of the main loop
(`antiDos_wellFormed`).
-/

set_option autoImplicit false

namespace IpSentinel.MainLoop

open Foundation BlackList

/-- The readings of the clock in one iteration, in their order. -/
def Input.readings (i : Input) : List Int := [i.clock, i.toIntruder.clock, i.fromIntruder.clock]

/-- Readings that do not go back start from some reading. -/
theorem exists_now {inputs : List Input} (h : (inputs.flatMap Input.readings).Pairwise (· ≤ ·)) :
    ∃ now, (now :: inputs.flatMap Input.readings).Pairwise (· ≤ ·) := by
  cases hreadings : inputs.flatMap Input.readings with
  | nil => exact ⟨0, List.pairwise_singleton _ _⟩
  | cons now readings =>
    rw [hreadings] at h
    have hhead := List.forall_mem_cons.2 ⟨le_refl now, (List.pairwise_cons.1 h).1⟩
    exact ⟨now, List.pairwise_cons.2 ⟨hhead, h⟩⟩

/-- The readings of one iteration, and those of the others from its last one on. -/
theorem readings_cons {now : Int} {i : Input} {inputs : List Input}
    (h : (now :: (i :: inputs).flatMap Input.readings).Pairwise (· ≤ ·)) :
    (now :: i.readings).Pairwise (· ≤ ·) ∧
      (i.fromIntruder.clock :: inputs.flatMap Input.readings).Pairwise (· ≤ ·) := by
  rw [List.flatMap_cons, ← List.cons_append, List.pairwise_append] at h
  obtain ⟨hfirst, hrest, hbetween⟩ := h
  have hlast : i.fromIntruder.clock ∈ now :: i.readings := by simp [Input.readings]
  exact ⟨hfirst, List.pairwise_cons.2 ⟨hbetween _ hlast, hrest⟩⟩

/-- The readings of an iteration in their order. -/
theorem readings_le {now : Int} {i : Input} (h : (now :: i.readings).Pairwise (· ≤ ·)) :
    now ≤ i.clock ∧ i.clock ≤ i.toIntruder.clock ∧ i.toIntruder.clock ≤ i.fromIntruder.clock := by
  simp only [Input.readings, List.pairwise_cons, List.mem_cons] at h
  exact ⟨h.1 _ (Or.inl rfl), h.2.1 _ (Or.inl rfl), h.2.2.1 _ (Or.inl rfl)⟩

variable {env : ExpandEnv} {V : VectorLib} {testsuite : Bool} {arpDir : ArpDir}

/-- The generation of a job keeps the invariant of the table. -/
theorem generateJob_invariant {s t : State} {last : Int} {srcIp : InAddr} {query : Query}
    {job : EtherAddr → Query → RequestInfo} {a : Answers} (h : s.antiDos.Invariant last)
    (hclock : last ≤ a.clock) (hjob : generateJob V s srcIp query job a = some t) :
    t.antiDos.Invariant a.clock := by
  obtain ⟨-, -, ⟨hdos, -⟩ | ⟨hroom, hdos, -⟩⟩ := generateJob_cases hjob
  · rw [hdos]
    exact h.later hclock
  · rw [hdos]
    exact h.registerIP V hclock hroom srcIp

/-- So does an iteration. -/
theorem step_antiDos_invariant {s t : State} {i : Input} {last : Int}
    (h : s.antiDos.Invariant last) (hclock : (last :: i.readings).Pairwise (· ≤ ·))
    (hstep : step env V testsuite arpDir s i = some t) :
    t.antiDos.Invariant i.fromIntruder.clock := by
  have hclock' : last ≤ i.clock ∧ i.clock ≤ i.toIntruder.clock ∧
      i.toIntruder.clock ≤ i.fromIntruder.clock := by
    simp only [Input.readings, List.pairwise_cons, List.mem_cons] at hclock
    exact ⟨hclock.1 _ (Or.inl rfl), hclock.2.1 _ (Or.inl rfl), hclock.2.2.1 _ (Or.inl rfl)⟩
  obtain ⟨hupdate, hto, hfrom⟩ := hclock'
  have hswept := h.update V hupdate
  rcases step_cases hstep with ⟨-, hdos, -⟩ | ⟨frame, cfg, u, -, -, hu, ht⟩
  · rw [hdos]
    exact hswept.later (hto.trans hfrom)
  · -- the job to the intruder, then the one from the intruder
    have hmiddle : u.antiDos.Invariant i.toIntruder.clock := by
      rcases hu with rfl | hu
      · exact hswept.later hto
      · exact generateJob_invariant (s := { s.received V i frame with cfg }) hswept hto hu
    rcases ht with rfl | ht
    · exact hmiddle.later hfrom
    · rw [generateJobFromIntruder] at ht
      split_ifs at ht
      · cases ht
        exact hmiddle.later hfrom
      · exact generateJob_invariant hmiddle hfrom ht

theorem run_antiDos_invariant (inputs : List Input) {s t : State} {last : Int}
    (h : s.antiDos.Invariant last)
    (hclock : (last :: inputs.flatMap Input.readings).Pairwise (· ≤ ·))
    (hrun : run (step env V testsuite arpDir) inputs s = some t) :
    t.antiDos.Invariant ((inputs.flatMap Input.readings).getLastD last) := by
  induction inputs generalizing s last with
  | nil =>
    cases hrun
    exact h
  | cons i inputs ih =>
    obtain ⟨u, hstep, hrun⟩ := (run_cons_some _).1 hrun
    rw [List.flatMap_cons, ← List.cons_append, List.pairwise_append] at hclock
    obtain ⟨hfirst, hrest, hbetween⟩ := hclock
    have hlast : ((i :: inputs).flatMap Input.readings).getLastD last =
        (inputs.flatMap Input.readings).getLastD i.fromIntruder.clock := by
      simp only [List.flatMap_cons, Input.readings, List.cons_append, List.nil_append,
        List.getLastD_cons]
    rw [hlast]
    apply ih (step_antiDos_invariant h hfirst hstep) _ hrun
    exact List.pairwise_cons.2 ⟨fun b hb => hbetween _ (by simp [Input.readings]) b hb, hrest⟩

/-- In every state of the main loop the table is as promised, when the clock does not go back. -/
theorem antiDos_wellFormed {cfg : ReloadState} {buffer : Buffer} {inputs : List Input} {t : State}
    (hclock : (0 :: inputs.flatMap Input.readings).Pairwise (· ≤ ·))
    (hrun : run (step env V testsuite arpDir) inputs (start cfg buffer) = some t) :
    t.antiDos.WellFormed V ((inputs.flatMap Input.readings).getLastD 0) :=
  (run_antiDos_invariant (s := start cfg buffer) inputs AntiDOS.invariant_init hclock
    hrun).wellFormed V

end IpSentinel.MainLoop

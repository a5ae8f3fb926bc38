import IpSentinel.Foundation.Windows
import IpSentinel.MainLoop.Leftovers

/-!
# The random MACs in use

`Util_setRandomMac` draws one of `BLACKLIST_RAND_COUNT` addresses, from a window that goes on by one
after each `BLACKLIST_RAND_PERIOD` (`randomMacs_rotate`). So the main loop uses few addresses for
all the rules without a MAC (`drawnMacs_of_run`), however many addresses they block.
-/

set_option autoImplicit false

namespace IpSentinel.MainLoop

open Foundation BlackList

/-- The random address with a number: the one that a zero draws after as many periods. -/
def randomMac (n : Nat) : EtherAddr := setRandomMac 0 (n * blacklistRandPeriod : Nat)

/-- The number of periods at a time from 0 on. -/
def periodOf (time : Int) : Nat := time.toNat / blacklistRandPeriod

/-- The addresses that are in use at a time. -/
def randomMacs (time : Int) : Finset EtherAddr :=
  window randomMac blacklistRandCount (periodOf time)

/-- Two draws give the same address when they are at the same place of the turn. -/
theorem setRandomMac_eq_iff {rand rand' n n' : Nat} :
    setRandomMac rand n = setRandomMac rand' n' ↔
      (n / blacklistRandPeriod + rand % blacklistRandCount) % 256 =
        (n' / blacklistRandPeriod + rand' % blacklistRandCount) % 256 := by
  have hwindow : ∀ rand n : Nat, UInt8.ofInt ((((rand % blacklistRandCount : Nat) : Int) +
      (n : Int).tdiv (blacklistRandPeriod : Nat)).tmod 256) =
      UInt8.ofNat (n / blacklistRandPeriod + rand % blacklistRandCount) := by
    intro rand n
    rw [← UInt8.ofNat_mod_size, ← UInt8.ofNat_mod_size, Nat.add_comm]
    rfl
  rw [setRandomMac, setRandomMac, hwindow, hwindow]
  constructor
  · intro h
    have hoctet := congrArg (fun mac : EtherAddr => mac.octet[5]) h
    simp only [Vector.getElem_set_self] at hoctet
    have hnat := congrArg UInt8.toNat hoctet
    rwa [UInt8.toNat_ofNat', UInt8.toNat_ofNat'] at hnat
  · intro h
    rw [← UInt8.ofNat_mod_size, ← UInt8.ofNat_mod_size (x := n' / _ + _), h]

theorem randomMac_cyclic : Cyclic randomMac 256 := by
  intro a b
  rw [randomMac, randomMac, setRandomMac_eq_iff, Nat.mul_div_cancel a (by decide),
    Nat.mul_div_cancel b (by decide), Nat.zero_mod, Nat.add_zero, Nat.add_zero]

/-- What `Util_setRandomMac` draws. -/
theorem setRandomMac_eq {time : Int} (h : 0 ≤ time) (rand : Nat) :
    setRandomMac rand time = randomMac (periodOf time + rand % blacklistRandCount) := by
  obtain ⟨n, rfl⟩ := Int.eq_ofNat_of_zero_le h
  rw [randomMac, setRandomMac_eq_iff, Nat.mul_div_cancel _ (by decide), Nat.zero_mod, Nat.add_zero]
  rfl

/-- The window holds what can be drawn. -/
theorem mem_randomMacs {time : Int} (h : 0 ≤ time) {mac : EtherAddr} :
    mac ∈ randomMacs time ↔ ∃ rand, setRandomMac rand time = mac := by
  rw [randomMacs, mem_window]
  constructor
  · rintro ⟨i, hi, rfl⟩
    exact ⟨i, by rw [setRandomMac_eq h, Nat.mod_eq_of_lt hi]⟩
  · rintro ⟨rand, rfl⟩
    exact ⟨rand % blacklistRandCount, Nat.mod_lt _ (by decide), (setRandomMac_eq h rand).symm⟩

/-- The window has its full size; it stays the same within a period, and with the next one it loses
one address and gets one that was not in it. -/
theorem randomMacs_rotate (time : Int) (h : 0 ≤ time) :
    (∀ mac, mac ∈ randomMacs time ↔ ∃ rand, setRandomMac rand time = mac) ∧
    (randomMacs time).card = blacklistRandCount ∧
    (∀ time', 0 ≤ time' → time / blacklistRandPeriod = time' / blacklistRandPeriod →
      randomMacs time' = randomMacs time) ∧
    ∃ old ∈ randomMacs time, ∃ new ∉ randomMacs time,
      randomMacs (time + blacklistRandPeriod) = insert new ((randomMacs time).erase old) := by
  refine ⟨fun mac => mem_randomMacs h, randomMac_cyclic.card_window (by decide), ?_, ?_⟩
  · intro time' h' hperiod
    obtain ⟨n, rfl⟩ := Int.eq_ofNat_of_zero_le h
    obtain ⟨n', rfl⟩ := Int.eq_ofNat_of_zero_le h'
    have hperiod' : periodOf n = periodOf n' := Int.ofNat.inj hperiod
    rw [randomMacs, randomMacs, hperiod']
  · have hnext : periodOf (time + blacklistRandPeriod) = periodOf time + 1 := by
      obtain ⟨n, rfl⟩ := Int.eq_ofNat_of_zero_le h
      exact Nat.add_div_right n (by decide)
    refine ⟨randomMac (periodOf time), mem_window.2 ⟨0, by decide, rfl⟩,
      randomMac (periodOf time + blacklistRandCount),
      randomMac_cyclic.not_mem_window (by decide), ?_⟩
    rw [randomMacs, hnext]
    exact randomMac_cyclic.window_succ (by decide) (by decide)

/-- In the third period, with a time of the same one. -/
theorem randomMacs_rotate_third :
    (∀ mac, mac ∈ randomMacs 86400 ↔ ∃ rand, setRandomMac rand 86400 = mac) ∧
    (randomMacs 86400).card = blacklistRandCount ∧ randomMacs 60000 = randomMacs 86400 ∧
    ∃ old ∈ randomMacs 86400, ∃ new ∉ randomMacs 86400,
      randomMacs (86400 + blacklistRandPeriod) = insert new ((randomMacs 86400).erase old) := by
  obtain ⟨hmem, hcard, hperiod, hnext⟩ := randomMacs_rotate 86400 (by decide)
  exact ⟨hmem, hcard, hperiod 60000 (by decide) (by decide), hnext⟩

/-! ## The jobs of a run -/

variable {V : VectorLib}

/-- The rule that decides the lookup of a job has no MAC: whatever is drawn is the answer. -/
def SentJob.Drawn (V : VectorLib) (sent : SentJob) : Prop :=
  ∀ rand time, (getMac V sent.lst sent.query rand time).1 = some (setRandomMac rand time)

/-- A MAC that is not drawn is that of the rule. -/
theorem drawn_or_fixed {sent : SentJob} (h : sent.Sound V) :
    sent.Drawn V ∨
      ∀ rand time, (getMac V sent.lst sent.query rand time).1 = some sent.job.mac := by
  obtain ⟨s, hs⟩ : ∃ s : Lookup, ∀ rand time,
      getMac V sent.lst sent.query rand time = s.finish rand time := ⟨_, fun _ _ => rfl⟩
  have hmac := h.mac
  simp only [SentJob.Drawn, hs] at hmac ⊢
  simp only [Lookup.finish] at hmac ⊢
  cases hfound : s.found with
  | false => simp [hfound] at hmac
  | true =>
    cases hstatus : s.status with
    | blRAND => exact Or.inl fun _ _ => rfl
    | blSET =>
      simp only [hfound, hstatus, if_true] at hmac
      exact Or.inr fun _ _ => hmac
    | blIGNORE => simp [hfound, hstatus] at hmac
    | blUNDECIDED => simp [hfound, hstatus] at hmac

/-- The addresses of the jobs with a drawn MAC whose lookups read the clock from `t₀` to `t₁`. -/
def drawnMacs (V : VectorLib) (log : List SentJob) (t₀ t₁ : Int) : Set EtherAddr :=
  {mac | ∃ sent ∈ log, sent.Drawn V ∧ t₀ ≤ sent.time ∧ sent.time ≤ t₁ ∧ sent.job.mac = mac}

theorem periodOf_mono {a b : Int} (h : a ≤ b) : periodOf a ≤ periodOf b :=
  Nat.div_le_div_right (Int.toNat_le_toNat h)

/-- They are in a window that is larger by one for each period. -/
theorem drawnMacs_subset {log : List SentJob} (hsound : ∀ sent ∈ log, sent.Sound V) {t₀ t₁ : Int}
    (h₀ : 0 ≤ t₀) :
    drawnMacs V log t₀ t₁ ⊆
      window randomMac (blacklistRandCount + (periodOf t₁ - periodOf t₀)) (periodOf t₀) := by
  rintro mac ⟨sent, hsent, hdrawn, hfrom, hto, rfl⟩
  have hmac : sent.job.mac = setRandomMac sent.rand sent.time :=
    Option.some.inj ((hsound sent hsent).mac.symm.trans (hdrawn sent.rand sent.time))
  have hmem : sent.job.mac ∈ randomMacs sent.time :=
    (mem_randomMacs (h₀.trans hfrom)).2 ⟨sent.rand, hmac.symm⟩
  have hle := periodOf_mono hto
  exact window_subset (periodOf_mono hfrom) (by omega) hmem

theorem sound_of_run {env : ExpandEnv} {testsuite : Bool} {arpDir : ArpDir} {cfg : ReloadState}
    {buffer : Buffer} {inputs : List Input} {t : State}
    (hrun : run (step env V testsuite arpDir) inputs (start cfg buffer) = some t) :
    ∀ sent ∈ t.log, sent.Sound V := by
  refine run_invariant (I := fun s => ∀ sent ∈ s.log, sent.Sound V) (fun s i u hs hstep => ?_)
    (List.forall_mem_nil _) hrun
  obtain ⟨new, hlog, hnew⟩ := step_log hstep
  rw [hlog]
  exact fun sent hsent => (List.mem_append.1 hsent).elim (hs sent) (hnew sent)

/-- In every run the MAC of a job is drawn, or the one of its rule; and as many drawn ones are in
use as the window has at most, and one more for each period. -/
theorem drawnMacs_of_run (env : ExpandEnv) (V : VectorLib) (testsuite : Bool) (arpDir : ArpDir)
    (cfg : ReloadState) (buffer : Buffer) (inputs : List Input) (t : State) (t₀ t₁ : Int)
    (h₀ : 0 ≤ t₀)
    (hrun : run (step env V testsuite arpDir) inputs (start cfg buffer) = some t) :
    (∀ sent ∈ t.log, sent.Drawn V ∨
      ∀ rand time, (getMac V sent.lst sent.query rand time).1 = some sent.job.mac) ∧
    (drawnMacs V t.log t₀ t₁).ncard ≤ blacklistRandCount + (periodOf t₁ - periodOf t₀) := by
  have hsound := sound_of_run hrun
  refine ⟨fun sent hsent => drawn_or_fixed (hsound sent hsent), ?_⟩
  calc (drawnMacs V t.log t₀ t₁).ncard
      ≤ (window randomMac (blacklistRandCount + (periodOf t₁ - periodOf t₀))
          (periodOf t₀) : Set EtherAddr).ncard :=
        Set.ncard_le_ncard (drawnMacs_subset hsound h₀) (Finset.finite_toSet _)
    _ = _ := Set.ncard_coe_finset _
    _ ≤ _ := card_window_le

/-- Requests for hosts of the rule `0.0.0.0/0` in two periods. -/
def drawInputs : List Input :=
  [frameInputAt 60000 60000 5 (requestFrame 1), frameInputAt 86400 86400 37 (requestFrame 2),
    frameInputAt 90001 90001 70 (requestFrame 3)]

/-- The second request draws the MAC of the first one, and the third one another. -/
theorem drawnMacs_of_run_periods : ∃ t,
    run (step referenceEnv referenceVector false .dirTO) drawInputs
      (start loadedRule fun _ => 0) = some t ∧
    (∀ sent ∈ t.log, sent.Drawn referenceVector ∨ ∀ rand time,
      (getMac referenceVector sent.lst sent.query rand time).1 = some sent.job.mac) ∧
    (drawnMacs referenceVector t.log 60000 100000).ncard ≤ 33 ∧
    t.log.map (fun sent => sent.job.mac) = [randomMac 7, randomMac 7, randomMac 9] := by
  obtain ⟨t, ht, hmacs⟩ : ∃ t, run (step referenceEnv referenceVector false .dirTO) drawInputs
      (start loadedRule fun _ => 0) = some t ∧
      t.log.map (fun sent => sent.job.mac) = [randomMac 7, randomMac 7, randomMac 9] :=
    ⟨_, rfl, by decide +kernel⟩
  obtain ⟨hmac, hcard⟩ := drawnMacs_of_run referenceEnv referenceVector false .dirTO loadedRule
    (fun _ => 0) drawInputs t 60000 100000 (by decide) ht
  exact ⟨t, ht, hmac, hcard, hmacs⟩

end IpSentinel.MainLoop

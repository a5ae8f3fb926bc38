import IpSentinel.BlackList.Reload

/-!
# Counting errors

`BlackList_softUpdate` counts its errors in a static variable that a successful reading of the file
sets to 0, and sleeps while the counter is not 0. A call that finds the file unchanged does not
touch the counter. `countsConsecutive_iff` says along which calls the counter still counts
consecutive failures.
-/

set_option autoImplicit false

namespace IpSentinel.BlackList

open Foundation

/-- How a call of `BlackList_softUpdate` comes out. -/
inductive CallOutcome where
  | failed
  | unchanged
  | loaded
  deriving DecidableEq, Repr

/-- The outcome of an attempt: `stat`, `open` or reading fails, the file has not been modified, or
it is read. -/
def outcome (s : ReloadState) (a : Attempt) : CallOutcome :=
  match a.stat with
  | none => .failed
  | some mtime =>
    if (beforeCall a.call s).lst.lastMtime ≠ mtime then
      match a.opened with
      | none => .failed
      | some reads => if reads.Fail then .failed else .loaded
    else .unchanged

section Machine

variable (env : ExpandEnv) (V : VectorLib) (testsuite : Bool)

/-- The seconds that the call sleeps at its end, if it does not end the process. -/
def sleepSeconds (s : ReloadState) (a : Attempt) : Nat :=
  let s := rereadFile env V testsuite (beforeCall a.call s) a.stat a.opened
  if s.errorCount > 0 then 1 + s.errorCount / 2 else 0

/-- The outcomes of the calls of a run. -/
def outcomes : List Attempt → ReloadState → List CallOutcome :=
  trace (reload env V testsuite) outcome

/-- The process ends only behind so many failures in a row, and a call that meets no error does
not sleep. -/
structure CountsConsecutive (attempts : List Attempt) (s : ReloadState) : Prop where
  ends : ∀ pre a, pre ++ [a] <+: attempts →
    ∀ t, run (reload env V testsuite) pre s = some t → reload env V testsuite t a = none →
      List.replicate (maxErrors + 1) .failed <:+ outcomes env V testsuite (pre ++ [a]) s
  sleeps : ∀ pre a, pre ++ [a] <+: attempts →
    ∀ t, run (reload env V testsuite) pre s = some t → outcome t a ≠ .failed →
      sleepSeconds env V testsuite t a = 0

end Machine

variable {env : ExpandEnv} {V : VectorLib} {testsuite : Bool}

/-! ## One call -/

/-- The counter behind a call with this outcome. -/
def CallOutcome.count (errorCount : Nat) : CallOutcome → Nat
  | .failed => errorCount + 1
  | .unchanged => errorCount
  | .loaded => 0

theorem rereadFile_errorCount (s : ReloadState) (a : Attempt) :
    (rereadFile env V testsuite (beforeCall a.call s) a.stat a.opened).errorCount =
      (outcome s a).count s.errorCount := by
  have hcount : (beforeCall a.call s).errorCount = s.errorCount := by
    cases a.call <;> rfl
  rw [outcome]
  cases hstat : a.stat with
  | none => simp only [rereadFile, CallOutcome.count, hcount]
  | some mtime =>
    by_cases htime : (beforeCall a.call s).lst.lastMtime ≠ mtime
    · simp only [rereadFile, if_pos htime]
      cases hopened : a.opened with
      | none => simp only [CallOutcome.count, hcount]
      | some reads =>
        have hfailed := congrArg LineCalls.failed (updateInternal_toLineCalls env V testsuite
          (beforeCall a.call s).lst reads)
        dsimp only
        rw [hfailed]
        by_cases hfail : reads.Fail
        · obtain ⟨e, he⟩ := Option.ne_none_iff_exists'.1 hfail
          rw [if_pos hfail, he]
          exact congrArg (· + 1) hcount
        · rw [if_neg hfail, not_not.1 hfail]
          rfl
    · simp only [rereadFile, if_neg htime, CallOutcome.count, hcount]

theorem reload_errorCount {s t : ReloadState} {a : Attempt}
    (h : reload env V testsuite s a = some t) :
    t.errorCount = (outcome s a).count s.errorCount := by
  rw [reload, softUpdate] at h
  split_ifs at h
  cases h
  exact rereadFile_errorCount s a

theorem reload_eq_none_iff {s : ReloadState} {a : Attempt} :
    reload env V testsuite s a = none ↔ maxErrors < (outcome s a).count s.errorCount := by
  rw [reload, softUpdate]
  rw [rereadFile_errorCount]
  split_ifs with h
  · exact iff_of_true rfl h
  · exact iff_of_false not_false h

theorem sleepSeconds_eq_zero_iff {s : ReloadState} {a : Attempt} :
    sleepSeconds env V testsuite s a = 0 ↔ (outcome s a).count s.errorCount = 0 := by
  rw [sleepSeconds]
  rw [rereadFile_errorCount]
  split_ifs <;> omega

/-! ## Runs -/

/-- A call that finds the file unchanged meets the counter at 0. -/
def UnchangedAtZero (s : ReloadState) (a : Attempt) : Prop :=
  outcome s a = .unchanged → s.errorCount = 0

instance (s : ReloadState) (a : Attempt) : Decidable (UnchangedAtZero s a) :=
  inferInstanceAs (Decidable (_ → _))

/-- As long as that holds, the counter is not greater than the number of failures at the end. -/
theorem replicate_errorCount_suffix {attempts : List Attempt} {s t : ReloadState}
    (hs : s.errorCount = 0)
    (hmeets : StepsMeet (reload env V testsuite) UnchangedAtZero attempts s)
    (hrun : run (reload env V testsuite) attempts s = some t) :
    List.replicate t.errorCount .failed <:+ outcomes env V testsuite attempts s := by
  -- over the calls from the last one
  induction attempts using List.reverseRecOn generalizing t with
  | nil =>
    cases hrun
    rw [hs]
    exact List.nil_suffix
  | append_singleton attempts a ih =>
    obtain ⟨u, hu, hreload⟩ := (run_concat_some _).1 hrun
    have hsuffix := ih hmeets.of_append hu
    have hcount := reload_errorCount hreload
    rw [outcomes, trace_concat _ hu]
    cases hout : outcome u a with
    | failed =>
      rw [hout] at hcount
      rw [hcount, CallOutcome.count, List.replicate_succ']
      exact List.suffix_append_self_iff.2 hsuffix
    | unchanged =>
      have hzero : u.errorCount = 0 := (hmeets.after hu).1 hout
      rw [hout, CallOutcome.count, hzero] at hcount
      rw [hcount]
      exact List.nil_suffix
    | loaded =>
      rw [hout, CallOutcome.count] at hcount
      rw [hcount]
      exact List.nil_suffix

/-- Only a failure can bring the counter over the limit. -/
theorem ends_of_stepsMeet {lst : BlackList} {pre : List Attempt} {a : Attempt} {t : ReloadState}
    (hpre : StepsMeet (reload env V testsuite) UnchangedAtZero pre ⟨lst, 0⟩)
    (hlast : UnchangedAtZero t a) (ht : run (reload env V testsuite) pre ⟨lst, 0⟩ = some t)
    (hends : reload env V testsuite t a = none) :
    List.replicate (maxErrors + 1) .failed <:+ outcomes env V testsuite (pre ++ [a]) ⟨lst, 0⟩ := by
  have hmax := reload_eq_none_iff.1 hends
  rw [outcomes, trace_concat _ ht]
  cases hout : outcome t a with
  | failed =>
    rw [hout, CallOutcome.count] at hmax
    have hcount : List.replicate t.errorCount .failed ++ [.failed] <:+
        outcomes env V testsuite pre ⟨lst, 0⟩ ++ [.failed] :=
      List.suffix_append_self_iff.2 (replicate_errorCount_suffix rfl hpre ht)
    rw [← List.replicate_succ'] at hcount
    obtain ⟨k, hk⟩ := Nat.exists_eq_add_of_le' hmax
    rw [hk, List.replicate_add] at hcount
    exact (List.suffix_append _ _).trans hcount
  | unchanged =>
    rw [hout, CallOutcome.count, hlast hout] at hmax
    exact absurd hmax (Nat.not_lt_zero _)
  | loaded =>
    rw [hout, CallOutcome.count] at hmax
    exact absurd hmax (Nat.not_lt_zero _)

/-- A call without an error leaves the counter at 0. -/
theorem sleepSeconds_eq_zero {t : ReloadState} {a : Attempt} (hlast : UnchangedAtZero t a)
    (hout : outcome t a ≠ .failed) : sleepSeconds env V testsuite t a = 0 := by
  rw [sleepSeconds_eq_zero_iff]
  cases hcase : outcome t a with
  | failed => exact absurd hcase hout
  | unchanged => exact hlast hcase
  | loaded => rfl

/-- The counter counts consecutive failures exactly along the calls that find the file unchanged
only while the counter is 0. -/
theorem countsConsecutive_iff (env : ExpandEnv) (V : VectorLib) (testsuite : Bool)
    (lst : BlackList) (attempts : List Attempt) :
    CountsConsecutive env V testsuite attempts ⟨lst, 0⟩ ↔
      StepsMeet (reload env V testsuite) UnchangedAtZero attempts ⟨lst, 0⟩ := by
  constructor
  · intro h
    refine stepsMeet_iff.2 fun pre a hpre t ht hout => ?_
    have hsleeps := h.sleeps pre a hpre t ht (by rw [hout]; decide)
    rwa [sleepSeconds_eq_zero_iff, hout] at hsleeps
  · intro hmeets
    have hlast := stepsMeet_iff.1 hmeets
    constructor
    · intro pre a hpre t ht hends
      apply ends_of_stepsMeet _ (hlast pre a hpre t ht) ht hends
      obtain ⟨rest, rfl⟩ := hpre
      exact hmeets.of_append.of_append
    · intro pre a hpre t ht hout
      exact sleepSeconds_eq_zero (hlast pre a hpre t ht) hout

/-- A file that is there and unchanged at every second call, and missing at the others. -/
def flappingFile : List Attempt :=
  (List.replicate maxErrors [⟨.softUpdate, none, none⟩, ⟨.softUpdate, some 5, none⟩]).flatten

/-- The process ends behind a single failure, as the failures before it have been added up. -/
theorem flappingFile_not_consecutive :
    ¬ CountsConsecutive referenceEnv referenceVector false
      (flappingFile ++ [⟨.softUpdate, none, none⟩]) loadedRule := by
  intro h
  have hends := h.ends flappingFile ⟨.softUpdate, none, none⟩ List.prefix_rfl
    ⟨loadedRule.lst, maxErrors⟩ (by decide) (by decide)
  exact absurd hends (by decide)

end IpSentinel.BlackList

import IpSentinel.BlackList.FileChanges

/-!
# Requests to reload

The handler of SIGHUP sets `do_reload`, and the main loop clears it behind the call of
`BlackList_update` that serves the request. A signal can be delivered between any two steps. With
one in the course of the call the flag is cleared without another call
(`noRequestLost_of_stepsMeet`, `request_lost`).
-/

set_option autoImplicit false

namespace IpSentinel.MainLoop

open Foundation BlackList

/-- Where the loop is: in `BlackList_init`, in front of the test of `do_reload`, in front of the
call that the test has selected, or in this call and behind it. -/
inductive LoopPlace where
  | starting
  | head
  | calling (call : UpdateCall)
  | called (call : UpdateCall)
  deriving DecidableEq

/-- The call with the file, the flag `do_reload`, and whether a signal has been delivered since the
last call of `BlackList_update` by the loop has started. -/
structure LoopState where
  watch : Watch
  doReload : Bool
  place : LoopPlace
  unserved : Bool
  deriving DecidableEq

/-- The steps of the loop, and the delivery of a signal. -/
inductive LoopEvent where
  | sighup
  | test
  | call
  | inCall (e : WatchEvent)
  | clear
  | next
  deriving DecidableEq

namespace LoopState

section Machine

variable (env : ExpandEnv) (V : VectorLib) (testsuite : Bool)

/-- What the test of `do_reload` selects. -/
def selected (s : LoopState) : UpdateCall := if s.doReload then .update else .softUpdate

/-- One step; `none` is a step that can not be taken, or the end of the process. -/
def step (s : LoopState) : LoopEvent → Option LoopState
  | .sighup => some { s with doReload := true, unserved := true }
  | .test => if s.place = .head then some { s with place := .calling s.selected } else none
  | .call =>
    match s.place with
    | .calling call =>
      (s.watch.step env V testsuite (.call call)).map fun watch =>
        { s with
          watch
          place := .called call
          unserved := if call = .update then false else s.unserved }
    | _ => none
  | .inCall e =>
    if e.isCall then none
    else (s.watch.step env V testsuite e).map fun watch => { s with watch }
  | .clear =>
    if s.place = .called .update ∧ s.watch.phase = .idle then
      some { s with doReload := false, place := .head }
    else none
  -- nothing is cleared behind `BlackList_init` and `BlackList_softUpdate`
  | .next =>
    if (s.place = .starting ∨ s.place = .called .softUpdate) ∧ s.watch.phase = .idle then
      some { s with place := .head }
    else none

/-- The loop with `BlackList_init` in front. -/
def start (clock : Int) (file : ConfigFile) : LoopState where
  watch := Watch.start clock file
  doReload := false
  place := .starting
  unserved := false

/-- `do_reload` is never cleared with a delivery behind which no call of `BlackList_update` has
been started, so that it stays set until there is one. -/
structure NoRequestLost (events : List LoopEvent) (s : LoopState) : Prop where
  cleared : ∀ pre, pre ++ [.clear] <+: events →
    ∀ t u, run (step env V testsuite) pre s = some t → step env V testsuite t .clear = some u →
      t.unserved = false
  kept : ∀ pre, pre <+: events → ∀ t, run (step env V testsuite) pre s = some t →
    t.unserved = true → t.doReload = true

end Machine

/-- The condition: no signal is delivered between the start of `BlackList_update` and the clearing
of `do_reload`. -/
def Undisturbed (s : LoopState) (e : LoopEvent) : Prop :=
  e = .sighup → s.place ≠ .called .update

instance (s : LoopState) (e : LoopEvent) : Decidable (s.Undisturbed e) :=
  inferInstanceAs (Decidable (_ → _))

variable {env : ExpandEnv} {V : VectorLib} {testsuite : Bool}

/-- No delivery is unserved during the call, and an unserved one has set the flag. -/
structure Invariant (s : LoopState) : Prop where
  served : s.place = .called .update → s.unserved = false
  flag : s.unserved = true → s.doReload = true

theorem Invariant.call {s t : LoopState} (h : s.Invariant)
    (hstep : s.step env V testsuite .call = some t) : t.Invariant := by
  cases hplace : s.place with
  | calling call =>
    simp only [step, hplace] at hstep
    obtain ⟨watch, -, rfl⟩ := Option.map_eq_some_iff.1 hstep
    cases call with
    | softUpdate => exact ⟨nofun, h.flag⟩
    | update => exact ⟨fun _ => rfl, nofun⟩
  | starting | head | called =>
    simp only [step, hplace] at hstep
    cases hstep

theorem Invariant.step {s t : LoopState} {e : LoopEvent} (h : s.Invariant)
    (hgood : s.Undisturbed e) (hstep : s.step env V testsuite e = some t) : t.Invariant := by
  cases e with
  | sighup =>
    cases hstep
    exact ⟨fun hplace => absurd hplace (hgood rfl), fun _ => rfl⟩
  | test =>
    rw [LoopState.step] at hstep
    split_ifs at hstep
    cases hstep
    exact ⟨fun hplace => (by cases hplace), h.flag⟩
  | call => exact h.call hstep
  | inCall e =>
    rw [LoopState.step] at hstep
    split_ifs at hstep
    obtain ⟨watch, -, rfl⟩ := Option.map_eq_some_iff.1 hstep
    exact ⟨h.served, h.flag⟩
  | clear =>
    rw [LoopState.step] at hstep
    split_ifs at hstep with hend
    cases hstep
    -- the flag is cleared behind a call in whose course no signal has come
    have hserved := h.served hend.1
    exact ⟨fun hplace => (by cases hplace),
      fun hunserved => absurd (hserved.symm.trans hunserved) Bool.false_ne_true⟩
  | next =>
    rw [LoopState.step] at hstep
    split_ifs at hstep
    cases hstep
    exact ⟨fun hplace => (by cases hplace), h.flag⟩

/-- In every run in which no signal is delivered in the course of `BlackList_update` and up to the
clearing of `do_reload`, no request is lost. -/
theorem noRequestLost_of_stepsMeet (env : ExpandEnv) (V : VectorLib) (testsuite : Bool)
    (events : List LoopEvent) (clock : Int) (file : ConfigFile)
    (hgood : StepsMeet (LoopState.step env V testsuite) Undisturbed events (start clock file)) :
    NoRequestLost env V testsuite events (start clock file) := by
  have hstart : (start clock file).Invariant := by
    constructor
    · intro hplace
      cases hplace
    · intro hunserved
      cases hunserved
  have hinv : ∀ pre, pre <+: events → ∀ t,
      run (LoopState.step env V testsuite) pre (start clock file) = some t → t.Invariant := by
    rintro pre ⟨rest, rfl⟩ t ht
    exact run_invariant_of_stepsMeet (fun _ _ _ h hmeets hstep => h.step hmeets hstep)
      hstart hgood.of_append ht
  constructor
  · intro pre hpre t u ht hclear
    rw [LoopState.step] at hclear
    split_ifs at hclear with hend
    exact (hinv pre ((List.prefix_append pre _).trans hpre) t ht).served hend.1
  · intro pre hpre t ht
    exact (hinv pre hpre t ht).flag

/-- `BlackList_init` reads an empty file, and the first request behind a signal reads it again; the
signals of the list are delivered while the file is read. -/
def reloadOnSignal (signals : List LoopEvent) : List LoopEvent :=
  [.inCall .stat, .inCall .openFile, .inCall .readEof, .next, .sighup, .test, .call, .inCall .stat,
    .inCall .openFile] ++ signals ++ [.inCall .readEof, .clear]

theorem noRequestLost_reloadOnSignal :
    NoRequestLost referenceEnv referenceVector false (reloadOnSignal []) (start 5 ⟨[], 5⟩) :=
  noRequestLost_of_stepsMeet referenceEnv referenceVector false _ 5 ⟨[], 5⟩ (by decide)

/-- A second signal, while the file is read for the first one, is lost. -/
theorem request_lost :
    ¬ NoRequestLost referenceEnv referenceVector false (reloadOnSignal [.sighup])
      (start 5 ⟨[], 5⟩) := by
  intro h
  have hkept := h.kept _ List.prefix_rfl
    { watch := ⟨5, ⟨[], 5⟩, ⟨⟨[], [], 5⟩, 0⟩, .idle, false, false⟩
      doReload := false
      place := .head
      unserved := true } (by decide) rfl
  cases hkept

end LoopState

end IpSentinel.MainLoop

import IpSentinel.Worker.Machine

/-!
# When the worker ends

The loop of `Worker_run` has no end of its own either. The worker keeps three counters, for
`select`, `read` and `sendto`, and `worker_ends_iff` lists what ends it: seven failures in a row of
one of the three, a request that cannot be answered, or a queue that cannot grow. When the main
process has ended, every `read` fails, so the worker follows it after at most seven of them
(`readFailures_le`).
-/

set_option autoImplicit false

namespace IpSentinel.Worker

open Foundation PriorityQueue

/-! ## The outcomes of a step -/

/-- The drain loop ends: no job is due at `now`. -/
def NothingDue (s : State) (now : Int) : Prop := ∀ job ∈ s.queue.max, now < job.scheduleTime

instance decidableNothingDue (s : State) (now : Int) : Decidable (NothingDue s now) :=
  inferInstanceAs (Decidable (∀ job ∈ s.queue.max, _))

/-- The outcome of `select`; that it has returned is noted at the end of the iteration. -/
def selects (s : State) (i : Input) : List Bool :=
  match s.place, i with
  | .waiting _, .selectFails => [false]
  | .draining now, .drain _ => if NothingDue s now then [true] else []
  | _, _ => []

/-- The delivery that a step takes from the pipe. -/
def delivery (s : State) (i : Input) : Option Delivery :=
  match s.place, i with
  | .waiting _, .selectReturns d _ => d
  | _, _ => none

/-- The outcome of `read`. -/
def reads (s : State) (i : Input) : List Bool :=
  ((delivery s i).map fun d => d.request.isSome).toList

/-- The outcome of the `sendto` that answers a request. -/
def answerSends (worker : Worker) (d : Delivery) : List Bool :=
  match d.request with
  | none => []
  | some rq => if worker.fillPacket rq d.rand d.time = none then [] else [d.sent]

/-- The outcome of `sendto`. -/
def sends (worker : Worker) (s : State) (i : Input) : List Bool :=
  match s.place, i with
  | .waiting _, .selectReturns (some d) _ => answerSends worker d
  | .draining now, .drain sent => if NothingDue s now then [] else [sent]
  | _, _ => []

/-- The input is an answer to what the worker asks for at its place. -/
def Expects (s : State) (i : Input) : Prop :=
  match s.place, i with
  | .head, .poll _ => True
  | .waiting _, .selectFails => True
  | .waiting timeout, .selectReturns d _ => timeout ≠ none ∨ d ≠ none
  | .draining _, .drain _ => True
  | _, _ => False

/-- A request cannot be answered, as `mcLOCAL` is left over, or its copies do not fit into
memory. -/
def Unanswerable (plat : Platform) (worker : Worker) (queue : PriorityQueue ScheduleInfo)
    (d : Delivery) : Prop :=
  ∃ rq ∈ d.request, ∀ packet ∈ worker.fillPacket rq d.rand d.time,
    insertAll plat (copies worker rq packet d.now) queue = none

/-- What a step does to the process and its counters. -/
structure Outcome (plat : Platform) (worker : Worker) (s : State) (i : Input) : Prop where
  goesOn : ∀ t, step plat worker s i = some t →
    feed maxErrors (selects s i) s.selectErrors = some t.selectErrors ∧
      feed maxErrors (reads s i) s.readErrors = some t.readErrors ∧
        feed maxErrors (sends worker s i) s.sendErrors = some t.sendErrors
  ends : Expects s i → (step plat worker s i = none ↔
    feed maxErrors (selects s i) s.selectErrors = none ∨
      feed maxErrors (reads s i) s.readErrors = none ∨
        feed maxErrors (sends worker s i) s.sendErrors = none ∨
          ∃ d ∈ delivery s i, Unanswerable plat worker s.queue d)

variable {plat : Platform} {worker : Worker}

theorem executeJob_eq (errors : Nat) (sent : Bool) :
    executeJob errors sent = countOutcome maxErrors errors sent := by
  cases sent <;> rfl

/-- Reading the pipe. -/
theorem scheduleNewJob_goesOn {s t : State} {d : Delivery}
    (h : scheduleNewJob plat worker s d = some t) :
    t.selectErrors = s.selectErrors ∧
      feed maxErrors [d.request.isSome] s.readErrors = some t.readErrors ∧
        feed maxErrors (answerSends worker d) s.sendErrors = some t.sendErrors := by
  rw [scheduleNewJob] at h
  rw [feed_singleton]
  cases hrq : d.request with
  | none =>
    rw [hrq] at h
    obtain ⟨n, hn, rfl⟩ := Option.map_eq_some_iff.1 h
    rw [answerSends, hrq]
    exact ⟨rfl, hn, rfl⟩
  | some rq =>
    simp only [hrq, Option.bind_eq_bind, Option.bind_eq_some_iff, Option.some.injEq] at h
    obtain ⟨packet, hpacket, n, hn, queue, -, rfl⟩ := h
    have hsends : answerSends worker d = [d.sent] := by simp [answerSends, hrq, hpacket]
    rw [hsends, feed_singleton, ← executeJob_eq]
    exact ⟨rfl, rfl, hn⟩

theorem scheduleNewJob_eq_none_iff {s : State} {d : Delivery} :
    scheduleNewJob plat worker s d = none ↔
      feed maxErrors [d.request.isSome] s.readErrors = none ∨
        feed maxErrors (answerSends worker d) s.sendErrors = none ∨
          Unanswerable plat worker s.queue d := by
  rw [scheduleNewJob, answerSends, feed_singleton, Unanswerable]
  cases hrq : d.request with
  | none =>
    rw [Option.map_eq_none_iff, countError_eq, or_iff_left]
    · rfl
    · rintro (hsend | ⟨rq, hmem, -⟩)
      · cases hsend
      · cases hmem
  | some rq =>
    -- a whole request is a success of `read`, so only the answer can fail
    have hread : countOutcome maxErrors s.readErrors (some rq).isSome ≠ none :=
      Option.some_ne_none 0
    rw [or_iff_right hread]
    simp only [Option.bind_eq_bind, Option.bind_eq_none_iff, Option.mem_some_iff, scheduleCopies_eq,
      exists_eq_left']
    cases hpacket : worker.fillPacket rq d.rand d.time with
    | none => simp
    | some packet =>
      rw [if_neg (Option.some_ne_none _), feed_singleton, ← executeJob_eq]
      cases executeJob s.sendErrors d.sent with
      | none => simp
      | some n => simp [Option.eq_none_iff_forall_ne_some]

/-- A round of the drain loop. -/
theorem drainRound_eq (s : State) (now : Int) (sent : Bool) :
    drainRound s now sent =
      if NothingDue s now then some { s with place := .head, selectErrors := 0 }
      else (countOutcome maxErrors s.sendErrors sent).map fun n =>
        { s with
          queue := s.queue.extract
          sendErrors := n
          log := s.log ++ (s.queue.max.map fun job => Event.drained now job).toList } := by
  rw [drainRound]
  cases hmax : s.queue.max with
  | none => simp [NothingDue, hmax]
  | some job =>
    by_cases hdue : now < job.scheduleTime
    · simp [NothingDue, hmax, hdue]
    · simp only [NothingDue, hmax, hdue, Option.mem_some_iff, forall_eq', if_false, executeJob_eq]
      rfl

/-- A step without outcomes keeps the counters and does not end the process. -/
theorem outcome_of_nothing {s t : State} {i : Input} (hstep : step plat worker s i = some t)
    (hselects : selects s i = []) (hdelivery : delivery s i = none) (hsends : sends worker s i = [])
    (hcounters : t.selectErrors = s.selectErrors ∧ t.readErrors = s.readErrors ∧
      t.sendErrors = s.sendErrors) : Outcome plat worker s i where
  goesOn u hu := by
    rw [hstep] at hu
    cases hu
    rw [hselects, hsends, reads, hdelivery, hcounters.1, hcounters.2.1, hcounters.2.2]
    exact ⟨rfl, rfl, rfl⟩
  ends _ := by
    rw [hstep, hselects, hsends, reads, hdelivery]
    refine iff_of_false (Option.some_ne_none _) ?_
    rintro (h | h | h | ⟨d, hd, -⟩)
    · cases h
    · cases h
    · cases h
    · cases hd

/-- The answers that the worker asks for, at each place. -/
theorem expects_cases {s : State} {i : Input} (h : Expects s i) :
    (∃ now, s.place = .head ∧ i = .poll now) ∨
    (∃ timeout, s.place = .waiting timeout ∧ i = .selectFails) ∨
    (∃ seconds now, s.place = .waiting (some seconds) ∧ i = .selectReturns none now) ∨
    (∃ timeout d now, s.place = .waiting timeout ∧ i = .selectReturns (some d) now) ∨
    ∃ now sent, s.place = .draining now ∧ i = .drain sent := by
  unfold Expects at h
  split at h
  next now hplace => exact Or.inl ⟨now, hplace, rfl⟩
  next timeout hplace => exact Or.inr (Or.inl ⟨timeout, hplace, rfl⟩)
  next timeout d now hplace =>
    cases d with
    | none =>
      obtain ⟨seconds, rfl⟩ := Option.ne_none_iff_exists'.1 (h.resolve_right (absurd rfl))
      exact Or.inr (Or.inr (Or.inl ⟨seconds, now, hplace, rfl⟩))
    | some d => exact Or.inr (Or.inr (Or.inr (Or.inl ⟨timeout, d, now, hplace, rfl⟩)))
  next now sent hplace => exact Or.inr (Or.inr (Or.inr (Or.inr ⟨now, sent, hplace, rfl⟩)))
  next => exact h.elim

/-- Where the input is not an answer, there is no step. -/
theorem step_of_unexpected {s : State} {i : Input} (h : ¬ Expects s i) :
    step plat worker s i = none := by
  unfold step
  split
  next hplace => simp [Expects, hplace] at h
  next hplace => simp [Expects, hplace] at h
  next hplace => simp [Expects, hplace] at h
  next hplace => simp [Expects, hplace] at h
  next hplace => simp [Expects, hplace] at h
  next => rfl

theorem outcome_of_unexpected {s : State} {i : Input} (h : ¬ Expects s i) :
    Outcome plat worker s i where
  goesOn t ht := by
    rw [step_of_unexpected h] at ht
    cases ht
  ends hexpects := absurd hexpects h

theorem outcome_of_selectFails {s : State} {timeout : Option Int}
    (hplace : s.place = .waiting timeout) : Outcome plat worker s .selectFails := by
  have hselects : feed maxErrors (selects s .selectFails) s.selectErrors =
      countError s.selectErrors := by
    simp only [selects, hplace, feed_singleton]
    rfl
  have hreads : reads s .selectFails = [] := by simp [reads, delivery, hplace]
  have hsends : sends worker s .selectFails = [] := by simp [sends, hplace]
  constructor
  · intro t ht
    simp only [step, hplace] at ht
    obtain ⟨n, hn, rfl⟩ := Option.map_eq_some_iff.1 ht
    rw [hselects, hreads, hsends]
    exact ⟨hn, rfl, rfl⟩
  · intro _
    rw [hselects, hreads, hsends]
    simp only [step, hplace, Option.map_eq_none_iff]
    refine (or_iff_left ?_).symm
    rintro (h | h | ⟨d, hd, -⟩)
    · cases h
    · cases h
    · simp [delivery, hplace] at hd

theorem outcome_of_delivery {s : State} {timeout : Option Int} {d : Delivery} {now : Int}
    (hplace : s.place = .waiting timeout) :
    Outcome plat worker s (.selectReturns (some d) now) := by
  have hselects : selects s (.selectReturns (some d) now) = [] := by simp [selects, hplace]
  have hdelivery : delivery s (.selectReturns (some d) now) = some d := by
    simp [delivery, hplace]
  have hreads : reads s (.selectReturns (some d) now) = [d.request.isSome] := by
    rw [reads, hdelivery]
    rfl
  have hsends : sends worker s (.selectReturns (some d) now) = answerSends worker d := by
    simp [sends, hplace]
  have hstep : step plat worker s (.selectReturns (some d) now) =
      (scheduleNewJob plat worker s d).map fun t => { t with place := .draining now } := by
    simp only [step, hplace]
  constructor
  · intro t ht
    rw [hstep] at ht
    obtain ⟨u, hu, rfl⟩ := Option.map_eq_some_iff.1 ht
    obtain ⟨hselect, hread, hsend⟩ := scheduleNewJob_goesOn hu
    rw [hselects, hreads, hsends]
    exact ⟨congrArg some hselect.symm, hread, hsend⟩
  · intro _
    rw [hstep, hselects, hreads, hsends, hdelivery, Option.map_eq_none_iff,
      scheduleNewJob_eq_none_iff]
    simp [feed]

theorem outcome_of_drain {s : State} {now : Int} {sent : Bool} (hplace : s.place = .draining now) :
    Outcome plat worker s (.drain sent) := by
  have hreads : reads s (.drain sent) = [] := by simp [reads, delivery, hplace]
  have hdelivery : delivery s (.drain sent) = none := by simp [delivery, hplace]
  have hstep : step plat worker s (.drain sent) = drainRound s now sent := by
    simp only [step, hplace]
  have hselects : selects s (.drain sent) = if NothingDue s now then [true] else [] := by
    simp only [selects, hplace]
  have hsends : sends worker s (.drain sent) = if NothingDue s now then [] else [sent] := by
    simp only [sends, hplace]
  by_cases hdue : NothingDue s now
  · -- the loop is left, and `select` is called anew
    rw [if_pos hdue] at hselects hsends
    rw [drainRound_eq, if_pos hdue] at hstep
    constructor
    · intro t ht
      rw [hstep] at ht
      cases ht
      rw [hselects, hreads, hsends]
      exact ⟨rfl, rfl, rfl⟩
    · intro _
      rw [hstep, hselects, hreads, hsends, hdelivery]
      simp [feed, countOutcome]
  · -- the top job is due, and sending it is the outcome
    rw [if_neg hdue] at hselects hsends
    rw [drainRound_eq, if_neg hdue] at hstep
    constructor
    · intro t ht
      rw [hstep] at ht
      obtain ⟨n, hn, rfl⟩ := Option.map_eq_some_iff.1 ht
      rw [hselects, hreads, hsends, feed_singleton]
      exact ⟨rfl, rfl, hn⟩
    · intro _
      rw [hstep, hselects, hreads, hsends, hdelivery, feed_singleton, Option.map_eq_none_iff]
      simp [feed]

/-- What a step does, at every place and for every input. -/
theorem step_outcome (s : State) (i : Input) : Outcome plat worker s i := by
  by_cases hexpects : Expects s i
  · obtain ⟨now, hplace, rfl⟩ | ⟨timeout, hplace, rfl⟩ | ⟨seconds, now, hplace, rfl⟩ |
      ⟨timeout, d, now, hplace, rfl⟩ | ⟨now, sent, hplace, rfl⟩ := expects_cases hexpects
    · refine outcome_of_nothing (t := { s with place := .waiting (selectTimeout s.queue now) })
        (by simp only [step, hplace]) ?_ ?_ ?_ ⟨rfl, rfl, rfl⟩
      · simp [selects, hplace]
      · simp [delivery, hplace]
      · simp [sends, hplace]
    · exact outcome_of_selectFails hplace
    · refine outcome_of_nothing (t := { s with place := .draining now })
        (by simp only [step, hplace]) ?_ ?_ ?_ ⟨rfl, rfl, rfl⟩
      · simp [selects, hplace]
      · simp [delivery, hplace]
      · simp [sends, hplace]
    · exact outcome_of_delivery hplace
    · exact outcome_of_drain hplace
  · exact outcome_of_unexpected hexpects

/-! ## Runs -/

theorem counts_selects : Counts (step plat worker) maxErrors State.selectErrors selects :=
  fun s i t ht => ((step_outcome s i).goesOn t ht).1

theorem counts_reads : Counts (step plat worker) maxErrors State.readErrors reads :=
  fun s i t ht => ((step_outcome s i).goesOn t ht).2.1

theorem counts_sends : Counts (step plat worker) maxErrors State.sendErrors (sends worker) :=
  fun s i t ht => ((step_outcome s i).goesOn t ht).2.2

theorem init_counters {mem : Nat → ScheduleInfo} {elemSize : Nat} {s : State}
    (h : init plat mem elemSize = some s) :
    s.selectErrors = 0 ∧ s.readErrors = 0 ∧ s.sendErrors = 0 := by
  obtain ⟨queue, -, rfl⟩ := Option.map_eq_some_iff.1 h
  exact ⟨rfl, rfl, rfl⟩

/-- In every run, an answer that the worker asks for ends it exactly when `select`, `read` or
`sendto` has failed seven times in a row, or the request read cannot be answered. -/
theorem worker_ends_iff (plat : Platform) (worker : Worker) (mem : Nat → ScheduleInfo)
    (elemSize : Nat) (inputs : List Input) (s₀ t : State) (i : Input)
    (hinit : init plat mem elemSize = some s₀)
    (hrun : run (step plat worker) inputs s₀ = some t) (hexpects : Expects t i) :
    step plat worker t i = none ↔
      FailsInARow maxErrors (trace (step plat worker) selects (inputs ++ [i]) s₀).flatten ∨
        FailsInARow maxErrors (trace (step plat worker) reads (inputs ++ [i]) s₀).flatten ∨
          FailsInARow maxErrors
              (trace (step plat worker) (sends worker) (inputs ++ [i]) s₀).flatten ∨
            ∃ d ∈ delivery t i, Unanswerable plat worker t.queue d := by
  obtain ⟨hselect, hread, hsend⟩ := init_counters hinit
  rw [(step_outcome t i).ends hexpects, counts_selects.feed_eq_none_iff hselect hrun,
    counts_reads.feed_eq_none_iff hread hrun, counts_sends.feed_eq_none_iff hsend hrun]

/-- `n` iterations in which `select` fails. -/
def failingSelects (n : Nat) : List Input := (List.replicate n [.poll 0, .selectFails]).flatten

/-- Three failures, a request that is served, and six failures more: the next failure ends the
worker. -/
theorem worker_ends_iff_failing :
    ∃ s₀ t, init lp64 sampleMem 96 = some s₀ ∧
      run (step lp64 sampleWorker)
        (failingSelects 3 ++ sampleIteration 0 true 0 1 ++ failingSelects 6 ++ [.poll 0]) s₀ =
          some t ∧
      step lp64 sampleWorker t .selectFails = none ∧
      (FailsInARow maxErrors (trace (step lp64 sampleWorker) selects
          (failingSelects 3 ++ sampleIteration 0 true 0 1 ++ failingSelects 6 ++ [.poll 0] ++
            [.selectFails]) s₀).flatten ∨
        FailsInARow maxErrors (trace (step lp64 sampleWorker) reads
          (failingSelects 3 ++ sampleIteration 0 true 0 1 ++ failingSelects 6 ++ [.poll 0] ++
            [.selectFails]) s₀).flatten ∨
        FailsInARow maxErrors (trace (step lp64 sampleWorker) (sends sampleWorker)
          (failingSelects 3 ++ sampleIteration 0 true 0 1 ++ failingSelects 6 ++ [.poll 0] ++
            [.selectFails]) s₀).flatten ∨
        ∃ d ∈ delivery t .selectFails, Unanswerable lp64 sampleWorker t.queue d) := by
  refine ⟨_, _, rfl, rfl, rfl, ?_⟩
  exact (worker_ends_iff lp64 sampleWorker sampleMem 96
    (failingSelects 3 ++ sampleIteration 0 true 0 1 ++ failingSelects 6 ++ [.poll 0]) _ _
    .selectFails rfl rfl (by exact trivial)).1 rfl

/-! ## The end of the main process -/

/-- A `read` from the pipe that brings no whole request; that of a pipe without a writer is one. -/
def ReadsNothing (i : Input) : Prop :=
  match i with
  | .selectReturns (some d) _ => d.request = none
  | _ => True

instance decidableReadsNothing (i : Input) : Decidable (ReadsNothing i) := by
  unfold ReadsNothing
  split <;> infer_instance

theorem reads_of_readsNothing {s : State} {i : Input} (h : ReadsNothing i) :
    ∀ ok ∈ reads s i, ok = false := by
  intro ok hok
  simp only [reads, Option.mem_toList, Option.map_eq_some_iff] at hok
  obtain ⟨d, hd, rfl⟩ := hok
  -- the delivery is that of the input
  cases i with
  | selectReturns d' now =>
    cases hplace : s.place with
    | waiting timeout =>
      simp only [delivery, hplace] at hd
      subst hd
      exact Option.isSome_eq_false_iff.2 (Option.isNone_iff_eq_none.2 h)
    | head => simp [delivery, hplace] at hd
    | draining later => simp [delivery, hplace] at hd
  | poll now => cases hplace : s.place <;> simp [delivery, hplace] at hd
  | selectFails => cases hplace : s.place <;> simp [delivery, hplace] at hd
  | drain sent => cases hplace : s.place <;> simp [delivery, hplace] at hd

/-- From whatever state on, while the pipe brings no request the worker reads at most six times
before it ends. -/
theorem readFailures_le (plat : Platform) (worker : Worker) (s t : State) (inputs : List Input)
    (hclosed : ∀ i ∈ inputs, ReadsNothing i)
    (hrun : run (step plat worker) inputs s = some t) :
    (trace (step plat worker) reads inputs s).flatten.length ≤ maxErrors := by
  apply counts_reads.length_le hrun
  clear hrun
  induction inputs generalizing s with
  | nil => exact List.forall_mem_nil _
  | cons i inputs ih =>
    obtain ⟨hi, hinputs⟩ := List.forall_mem_cons.1 hclosed
    intro ok hok
    rw [trace, List.flatten_cons, List.mem_append] at hok
    rcases hok with hok | hok
    · exact reads_of_readsNothing hi ok hok
    · cases hstep : step plat worker s i with
      | none =>
        rw [hstep] at hok
        cases hok
      | some u =>
        rw [hstep] at hok
        exact ih u hinputs ok hok

/-- Two iterations without a request. -/
theorem readFailures_le_sample :
    ∃ s t, init lp64 sampleMem 96 = some s ∧
      run (step lp64 sampleWorker) [.poll 0, .selectReturns (some ⟨0, none, 0, 0, true⟩) 0,
        .drain true, .poll 1, .selectReturns (some ⟨1, none, 0, 0, true⟩) 1] s = some t ∧
      (trace (step lp64 sampleWorker) reads [.poll 0,
        .selectReturns (some ⟨0, none, 0, 0, true⟩) 0, .drain true, .poll 1,
        .selectReturns (some ⟨1, none, 0, 0, true⟩) 1] s).flatten.length ≤ maxErrors :=
  ⟨_, _, rfl, rfl, readFailures_le lp64 sampleWorker _ _ _ (by decide +kernel) rfl⟩

end IpSentinel.Worker

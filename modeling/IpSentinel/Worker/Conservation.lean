import IpSentinel.Worker.Machine

/-!
# No reply is lost, duplicated, altered or sent early

The log and the queue of every state of the worker account for each other: the copies scheduled
for the requests read are, as a multiset, the jobs still queued together with the jobs drained
(`Accounted`). The argument is the conservation law of the queue, `contents_insertAll` and
`contents_extract`; it needs no property of `jobCompare`. The requests the log speaks of are those
the pipe has delivered, and its clock readings are those of the run (`Follows`). Both hold in every
state of every run (`accounted_of_run`).
-/

set_option autoImplicit false

namespace IpSentinel.Worker

open Foundation PriorityQueue

/-- The copies to be scheduled for the requests in the log. -/
def scheduled (worker : Worker) : List Event → Multiset ScheduleInfo
  | [] => 0
  | .received rq now rand time :: log =>
    (match worker.fillPacket rq rand time with
      | none => 0
      | some packet => ↑(copies worker rq packet now)) + scheduled worker log
  | _ :: log => scheduled worker log

/-- The jobs the drain loops have passed to `Worker_executeJob`. -/
def drained : List Event → Multiset ScheduleInfo
  | [] => 0
  | .drained _ job :: log => job ::ₘ drained log
  | _ :: log => drained log

/-- Each request read is followed at once by the one packet that answers it, packets are passed to
`sendto` for no other reason but draining, and no job is drained before its time. -/
def AnswersInTime (worker : Worker) : List Event → Prop
  | [] => True
  | .received rq _ rand time :: .answered packet :: log =>
    worker.fillPacket rq rand time = some packet ∧ AnswersInTime worker log
  | .drained now job :: log => job.scheduleTime ≤ now ∧ AnswersInTime worker log
  | .tooMuchRequests _ :: log => AnswersInTime worker log
  | _ => False

/-- The request that an answer of the operating system delivers, with what the worker reads when it
handles it. -/
def Input.received : Input → Option Event
  | .selectReturns (some d) _ => d.request.map fun rq => .received rq d.now d.rand d.time
  | _ => none

/-- The clock reading in front of the drain loop. -/
def Input.reading : Input → Option Int
  | .selectReturns _ now => some now
  | _ => none

/-- The requests in the log. -/
def received : List Event → List Event
  | [] => []
  | .received rq now rand time :: log => .received rq now rand time :: received log
  | _ :: log => received log

/-- What a state says about the requests read so far. -/
structure Accounted (worker : Worker) (s : State) : Prop where
  answersInTime : AnswersInTime worker s.log
  conserved : scheduled worker s.log = s.queue.contents + drained s.log

/-- What a state says about the answers of the operating system: the requests in the log are exactly
those delivered, in their order, and jobs are drained at readings of the clock. -/
structure Follows (inputs : List Input) (s : State) : Prop where
  received : received s.log = inputs.filterMap Input.received
  draining : ∀ now, s.place = .draining now → (inputs.filterMap Input.reading).getLast? = some now
  drained : ∀ now job, .drained now job ∈ s.log → now ∈ inputs.filterMap Input.reading

/-! ## The log grows at its end -/

theorem scheduled_append (worker : Worker) (log log' : List Event) :
    scheduled worker (log ++ log') = scheduled worker log + scheduled worker log' := by
  induction log with
  | nil => simp [scheduled]
  | cons e log ih =>
    cases e with
    | received rq now rand time =>
      simp only [List.cons_append, scheduled, ih]
      rw [add_assoc]
    | answered packet => exact ih
    | tooMuchRequests count => exact ih
    | drained now job => exact ih

theorem drained_append (log log' : List Event) :
    drained (log ++ log') = drained log + drained log' := by
  induction log with
  | nil => simp [drained]
  | cons e log ih =>
    cases e with
    | received rq now rand time => exact ih
    | answered packet => exact ih
    | tooMuchRequests count => exact ih
    | drained now job => simp only [List.cons_append, drained, ih, Multiset.cons_add]

theorem received_append (log log' : List Event) :
    received (log ++ log') = received log ++ received log' := by
  induction log with
  | nil => rfl
  | cons e log ih =>
    cases e with
    | received rq now rand time => exact congrArg (_ :: ·) ih
    | answered packet => exact ih
    | tooMuchRequests count => exact ih
    | drained now job => exact ih

theorem AnswersInTime.append {worker : Worker} {log log' : List Event}
    (h : AnswersInTime worker log) (h' : AnswersInTime worker log') :
    AnswersInTime worker (log ++ log') := by
  -- the definition reads two events at once
  induction log using AnswersInTime.induct with
  | case1 => exact h'
  | case2 rq now rand time packet log ih => exact ⟨h.1, ih h.2⟩
  | case3 now job log ih => exact ⟨h.1, ih h.2⟩
  | case4 count log ih => exact ih h
  | case5 log h1 h2 h3 h4 => simp [AnswersInTime] at h

/-- Messages about the number of pending jobs change nothing. -/
theorem warnings_account (worker : Worker) {n : Nat} {log : List Event}
    (h : ∀ e ∈ log, e = .tooMuchRequests n) :
    AnswersInTime worker log ∧ scheduled worker log = 0 ∧ drained log = 0 ∧ received log = [] := by
  induction log with
  | nil => exact ⟨trivial, rfl, rfl, rfl⟩
  | cons e log ih =>
    obtain ⟨he, hlog⟩ := List.forall_mem_cons.1 h
    subst he
    exact ih hlog

/-! ## Runs -/

theorem accounted_step {plat : Platform} {worker : Worker} {s t : State} {i : Input}
    (h : Accounted worker s) (hstep : step plat worker s i = some t) : Accounted worker t := by
  obtain ⟨htime, hcons⟩ := h
  rcases step_cases hstep with ⟨hq, hlog, -⟩ | ⟨d, u, -, hu, hq, hlog, -⟩ |
    ⟨now, job, -, -, hmax, hdue, -, hq, hlog⟩
  · constructor
    · rw [hlog]
      exact htime
    · rw [hlog, hq]
      exact hcons
  · rcases scheduleNewJob_some hu with ⟨-, huq, hulog⟩ |
      ⟨rq, packet, warning, -, hpacket, hins, hwarn, hulog⟩
    · constructor
      · rw [hlog, hulog]
        exact htime
      · rw [hlog, hulog, hq, huq]
        exact hcons
    · obtain ⟨hwtime, hwsched, hwdrain, -⟩ := warnings_account worker hwarn
      constructor
      · rw [hlog, hulog]
        exact htime.append ⟨hpacket, hwtime⟩
      · -- the copies of the request are both scheduled and inserted
        rw [hlog, hulog, hq, contents_insertAll hins, scheduled_append, drained_append, hcons]
        simp only [scheduled, drained, hpacket, hwsched, hwdrain, add_zero]
        rw [add_right_comm, add_comm (s.queue.contents)]
  · constructor
    · rw [hlog]
      exact htime.append ⟨hdue, trivial⟩
    · -- the top job leaves the queue and enters the log
      obtain ⟨hpos, -⟩ := max_eq_some.1 hmax
      have hext : job ::ₘ s.queue.extract.contents = s.queue.contents := by
        obtain ⟨-, rfl⟩ := max_eq_some.1 hmax
        exact contents_extract hpos
      rw [hlog, hq, scheduled_append, drained_append, hcons, ← hext]
      simp only [scheduled, drained, add_zero, Multiset.cons_add, Multiset.add_cons]

theorem accounted_init {plat : Platform} {worker : Worker} {mem : Nat → ScheduleInfo}
    {elemSize : Nat} {s : State} (h : init plat mem elemSize = some s) : Accounted worker s := by
  obtain ⟨hcount, -, hlog⟩ := init_some h
  -- the log and the queue are empty
  constructor
  · rw [hlog]
    trivial
  · rw [hlog, contents_eq_zero_iff.2 hcount]
    rfl

/-- A step that reads the pipe schedules what it reads. -/
theorem step_selectReturns {plat : Platform} {worker : Worker} {s t : State} {d : Delivery}
    {now : Int} (h : step plat worker s (.selectReturns (some d) now) = some t) :
    ∃ u, scheduleNewJob plat worker s d = some u ∧ t = { u with place := .draining now } := by
  cases hplace : s.place with
  | head => simp [step, hplace] at h
  | waiting timeout =>
    simp only [step, hplace] at h
    obtain ⟨u, hu, rfl⟩ := Option.map_eq_some_iff.1 h
    exact ⟨u, hu, rfl⟩
  | draining now' => simp [step, hplace] at h

theorem received_eq_some {i : Input} {e : Event} (h : i.received = some e) :
    ∃ d rq now, i = .selectReturns (some d) now ∧ d.request = some rq ∧
      e = .received rq d.now d.rand d.time := by
  cases i with
  | poll now => cases h
  | selectFails => cases h
  | selectReturns delivery now =>
    cases delivery with
    | none => cases h
    | some d =>
      obtain ⟨rq, hrq, rfl⟩ := Option.map_eq_some_iff.1 h
      exact ⟨d, rq, now, rfl, hrq, rfl⟩
  | drain sent => cases h

theorem requestRead_of_received_eq_none {i : Input} (s : State) (h : i.received = none) :
    requestRead s i = none := by
  unfold requestRead
  split
  · exact Option.map_eq_none_iff.1 h
  · rfl

/-- A step logs the request it is given, if it is given one. -/
theorem received_step {plat : Platform} {worker : Worker} {s t : State} {i : Input}
    (h : step plat worker s i = some t) :
    received t.log = received s.log ++ i.received.toList := by
  cases hi : i.received with
  | some e =>
    obtain ⟨d, rq, now, rfl, hrq, rfl⟩ := received_eq_some hi
    obtain ⟨u, hu, rfl⟩ := step_selectReturns h
    rcases scheduleNewJob_some hu with ⟨hnone, -⟩ | ⟨rq', packet, warning, hsome, -, -, hwarn, hlog⟩
    · rw [hrq] at hnone
      cases hnone
    · rw [hrq] at hsome
      cases hsome
      change received u.log = _
      rw [hlog, received_append]
      simp only [received, (warnings_account worker hwarn).2.2.2, Option.toList_some]
  | none =>
    rw [Option.toList_none, List.append_nil]
    -- without a request in the input the step reads none
    have hread := requestRead_of_received_eq_none s hi
    rcases step_cases h with ⟨-, hlog, -⟩ | ⟨d, u, hread', hu, -, hlog, -⟩ |
      ⟨now, job, -, -, -, -, -, -, hlog⟩
    · rw [hlog]
    · rw [hread] at hread'
      rcases scheduleNewJob_some hu with ⟨-, -, hulog⟩ | ⟨rq, packet, warning, hsome, -⟩
      · rw [hlog, hulog]
      · rw [hsome] at hread'
        cases hread'
    · rw [hlog, received_append]
      exact List.append_nil _

/-- A round of the drain loop that does not leave it stays with the reading. -/
theorem drainRound_draining {s t : State} {now now' : Int} {sent : Bool}
    (h : drainRound s now sent = some t) (ht : t.place = .draining now') :
    s.place = .draining now' := by
  rw [drainRound] at h
  cases hmax : s.queue.max with
  | none =>
    simp only [hmax, Option.some.injEq] at h
    subst h
    cases ht
  | some job =>
    simp only [hmax] at h
    split_ifs at h with hdue
    · cases h
      cases ht
    · obtain ⟨n, -, rfl⟩ := Option.map_eq_some_iff.1 h
      exact ht

/-- The drain loop uses the reading in front of it. -/
theorem draining_step {plat : Platform} {worker : Worker} {s t : State} {i : Input}
    (h : step plat worker s i = some t) {now : Int} (ht : t.place = .draining now) :
    i.reading = some now ∨ i.reading = none ∧ s.place = .draining now := by
  cases i with
  | poll now' =>
    cases hs : s.place <;> simp only [step, hs, reduceCtorEq, Option.some.injEq] at h
    subst h
    cases ht
  | selectFails =>
    cases hs : s.place <;> simp only [step, hs, reduceCtorEq] at h
    obtain ⟨n, -, rfl⟩ := Option.map_eq_some_iff.1 h
    cases ht
  | selectReturns delivery now' =>
    -- `select` returns with the reading that the drain loop behind it uses
    left
    cases delivery with
    | some d =>
      obtain ⟨u, -, rfl⟩ := step_selectReturns h
      cases ht
      rfl
    | none =>
      cases hs : s.place with
      | head => simp [step, hs] at h
      | draining now => simp [step, hs] at h
      | waiting timeout =>
        cases timeout with
        | none => simp [step, hs] at h
        | some seconds =>
          simp only [step, hs, Option.some.injEq] at h
          subst h
          cases ht
          rfl
  | drain sent =>
    -- a round of the loop reads no clock
    right
    refine ⟨rfl, ?_⟩
    cases hs : s.place with
    | head => simp [step, hs] at h
    | waiting timeout => simp [step, hs] at h
    | draining now' =>
      simp only [step, hs] at h
      rw [← hs]
      exact drainRound_draining h ht

theorem follows_step {plat : Platform} {worker : Worker} {inputs : List Input} {s t : State}
    {i : Input} (h : Follows inputs s) (hstep : step plat worker s i = some t) :
    Follows (inputs ++ [i]) t where
  received := by
    rw [received_step hstep, h.received, List.filterMap_append]
    cases hi : i.received <;> simp [hi]
  draining now ht := by
    rw [List.filterMap_append]
    rcases draining_step hstep ht with hi | ⟨hi, hs⟩
    · simp [hi]
    · simp [hi, h.draining now hs]
  drained now job hmem := by
    rw [List.filterMap_append]
    refine List.mem_append_left _ ?_
    rcases step_cases hstep with ⟨-, hlog, -⟩ | ⟨d, u, -, hu, -, hlog, -⟩ |
      ⟨now', job', -, hplace, -, -, -, -, hlog⟩
    · rw [hlog] at hmem
      exact h.drained now job hmem
    · rw [hlog] at hmem
      rcases scheduleNewJob_some hu with ⟨-, -, hulog⟩ |
        ⟨rq, packet, warning, -, -, -, hwarn, hulog⟩
      · rw [hulog] at hmem
        exact h.drained now job hmem
      · -- reading the pipe drains nothing
        rw [hulog, List.mem_append, List.mem_cons, List.mem_cons] at hmem
        rcases hmem with hmem | hmem | hmem | hmem
        · exact h.drained now job hmem
        · cases hmem
        · cases hmem
        · cases hwarn _ hmem
    · rw [hlog, List.mem_append, List.mem_singleton] at hmem
      rcases hmem with hmem | hmem
      · exact h.drained now job hmem
      · cases hmem
        exact List.mem_of_getLast? (h.draining now hplace)

theorem follows_init {plat : Platform} {mem : Nat → ScheduleInfo} {elemSize : Nat} {s : State}
    (h : init plat mem elemSize = some s) : Follows [] s := by
  obtain ⟨queue, -, rfl⟩ := Option.map_eq_some_iff.1 h
  refine ⟨rfl, ?_, ?_⟩
  · intro now hplace
    cases hplace
  · intro now job hmem
    cases hmem

/-- In every state of every run of the worker the requests read are those delivered by the pipe;
each of them has been answered at once, and of its copies each is either in the queue or has been
drained, as often as it was scheduled, unaltered and not before its time. -/
theorem accounted_of_run (plat : Platform) (worker : Worker) (mem : Nat → ScheduleInfo)
    (elemSize : Nat) (inputs : List Input) (s₀ s : State)
    (hinit : init plat mem elemSize = some s₀)
    (hrun : run (step plat worker) inputs s₀ = some s) :
    Accounted worker s ∧ Follows inputs s := by
  constructor
  · exact run_invariant (I := Accounted worker) (fun s i t => accounted_step) (accounted_init hinit)
      hrun
  · exact run_inputs_invariant (H := Follows) (fun is s i t => follows_step) (follows_init hinit)
      hrun

/-- The sample request, come from an intruder. -/
def intruderRequest : RequestInfo :=
  { sampleRequest with type := .jobSRC, poisonMac := some .bcast }

/-- The request of an intruder arrives at 7 and one for it at 9; at 12 the drain loop has made two
rounds. -/
def intruderInputs : List Input :=
  [.poll 0, .selectReturns (some { sampleDelivery 7 with request := some intruderRequest }) 7,
    .drain true] ++ sampleIteration 7 true 9 2 ++ sampleIteration 9 false 12 2

/-- The rule at a run with both types of requests: of eight copies, two of them poisoned, three have
been drained. -/
theorem accounted_of_run_intruder :
    ∃ s₀ s, init lp64 sampleMem 96 = some s₀ ∧
      run (step lp64 sampleWorker) intruderInputs s₀ = some s ∧
      s.queue.count = 5 ∧ (drained s.log).card = 3 ∧
      Accounted sampleWorker s ∧ Follows intruderInputs s := by
  obtain ⟨s₀, h₀, s, hrun, hcount, hcard⟩ :
      ∃ s₀ ∈ init lp64 sampleMem 96, ∃ s ∈ run (step lp64 sampleWorker) intruderInputs s₀,
        s.queue.count = 5 ∧ (drained s.log).card = 3 := by decide +kernel
  exact ⟨s₀, s, h₀, hrun, hcount, hcard,
    accounted_of_run lp64 sampleWorker sampleMem 96 intruderInputs s₀ s h₀ hrun⟩

end IpSentinel.Worker

import IpSentinel.Foundation.FailureCount
import IpSentinel.PriorityQueue.Contents
import IpSentinel.Worker.Jobs

/-!
# The worker as a machine

`Worker_run` and `Worker_scheduleNewJob` as a step function. A state holds the job queue, the
place in the loop, the three error counters and a log of what the process did; an input is what
the operating system answers at that place: a clock reading, the result of `select`, the bytes of
the pipe, whether `sendto` transmits the whole frame. `step` is `none` where the process ends,
and for an input the current place does not ask for.

`step_cases` lists what a step can do and `scheduleNewJob_some` what reading the pipe does; the
later modules derive their invariants from these two.
-/

set_option autoImplicit false

namespace IpSentinel.Worker

open Foundation PriorityQueue

/-- What the worker did, in the order of time. -/
inductive Event where
  /-- A whole request was read; `now` is the clock reading its jobs are scheduled from. -/
  | received (rq : RequestInfo) (now : Int) (rand : Nat) (time : Int)
  /-- `Worker_scheduleNewJob` passed the packet to `Worker_executeJob`. -/
  | answered (packet : Packet)
  /-- "Too much requests scheduled (`count`) sleeping a while..." -/
  | tooMuchRequests (count : Nat)
  /-- The drain loop with reading `now` passed the job to `Worker_executeJob`. -/
  | drained (now : Int) (job : ScheduleInfo)

/-- The place in the loop of `Worker_run`. -/
inductive Place where
  | head
  /-- In `select`, with the seconds of `time_ptr` unless it is null. -/
  | waiting (timeout : Option Int)
  /-- In the drain loop, with the local variable `now`. -/
  | draining (now : Int)
  deriving DecidableEq

/-- The state of the worker process. -/
structure State where
  queue : PriorityQueue ScheduleInfo
  place : Place
  selectErrors : Nat
  readErrors : Nat
  sendErrors : Nat
  log : List Event

/-- What `Worker_scheduleNewJob` meets: its argument `now`, the request unless `read` answers less
than one, what `Util_setRandomMac` reads, and whether `sendto` transmits the whole frame. -/
structure Delivery where
  now : Int
  request : Option RequestInfo
  rand : Nat
  time : Int
  sent : Bool

/-- An answer of the operating system. -/
inductive Input where
  | poll (now : Int)
  | selectFails
  | selectReturns (delivery : Option Delivery) (now : Int)
  | drain (sent : Bool)

/-! ## The functions of the source -/

/-- One more subsequent failure: the counter, or the end of the process. -/
def countError (errors : Nat) : Option Nat :=
  if errors + 1 > maxErrors then none else some (errors + 1)

theorem countError_eq (errors : Nat) : countError errors = countOutcome maxErrors errors false :=
  rfl

/-- `Worker_executeJob`: its counter of subsequent failures. -/
def executeJob (errors : Nat) (sent : Bool) : Option Nat :=
  if sent then some 0 else countError errors

/-- The five insertions of `Worker_scheduleNewJob`, with the local variable `job` on the way. -/
def scheduleCopies (plat : Platform) (worker : Worker) (rq : RequestInfo) (packet : Packet)
    (now : Int) (queue : PriorityQueue ScheduleInfo) : Option (PriorityQueue ScheduleInfo) := do
  let job : ScheduleInfo := { packet with scheduleTime := now + 2 }
  let queue ← queue.insert plat job
  let job := { job with scheduleTime := now + 5 }
  let queue ← queue.insert plat job
  let job := { job with scheduleTime := now + 60 }
  let queue ← queue.insert plat job
  if worker.doPoison then
    match poisonJob job rq with
    | (false, _) => some queue
    -- the poisoned job replaces the local variable
    | (true, job) => do
      let job := { job with scheduleTime := now + 5 }
      let queue ← queue.insert plat job
      let job := { job with scheduleTime := now + 60 }
      queue.insert plat job
  else some queue

/-- `Worker_scheduleNewJob`. At `MAX_REQUESTS` pending jobs it writes a message, sleeps and goes
on. -/
def scheduleNewJob (plat : Platform) (worker : Worker) (s : State) (d : Delivery) :
    Option State :=
  match d.request with
  | none => (countError s.readErrors).map fun n => { s with readErrors := n }
  | some rq => do
    let packet ← worker.fillPacket rq d.rand d.time
    let n ← executeJob s.sendErrors d.sent
    let warning := if s.queue.count ≥ maxRequests then [.tooMuchRequests s.queue.count] else []
    let queue ← scheduleCopies plat worker rq packet d.now s.queue
    let log := s.log ++ .received rq d.now d.rand d.time :: .answered packet :: warning
    some { s with queue, readErrors := 0, sendErrors := n, log }

/-- The `timeout` of `select`: the seconds until the top job is due. -/
def selectTimeout (queue : PriorityQueue ScheduleInfo) (now : Int) : Option Int :=
  queue.max.map fun job => if job.scheduleTime > now then job.scheduleTime - now else 0

/-- One round of the drain loop. -/
def drainRound (s : State) (now : Int) (sent : Bool) : Option State :=
  match s.queue.max with
  | none => some { s with place := .head, selectErrors := 0 }
  | some job =>
    if now < job.scheduleTime then some { s with place := .head, selectErrors := 0 }
    else (executeJob s.sendErrors sent).map fun n =>
      { s with queue := s.queue.extract, sendErrors := n, log := s.log ++ [.drained now job] }

/-- `Worker_run` up to the next answer of the operating system. Without a timeout `select` does
not return before the pipe is readable. -/
def step (plat : Platform) (worker : Worker) (s : State) (i : Input) : Option State :=
  match s.place, i with
  | .head, .poll now => some { s with place := .waiting (selectTimeout s.queue now) }
  | .waiting _, .selectFails =>
    (countError s.selectErrors).map fun n => { s with place := .head, selectErrors := n }
  | .waiting (some _), .selectReturns none now => some { s with place := .draining now }
  | .waiting _, .selectReturns (some d) now =>
    (scheduleNewJob plat worker s d).map fun t => { t with place := .draining now }
  | .draining now, .drain sent => drainRound s now sent
  | _, _ => none

/-- The state in which `Worker_run` enters its loop; `mem` is the content of the new block. -/
def init (plat : Platform) (mem : Nat → ScheduleInfo) (elemSize : Nat) : Option State :=
  (PriorityQueue.init plat mem jobCompare 1023 elemSize).map fun queue =>
    { queue, place := .head, selectErrors := 0, readErrors := 0, sendErrors := 0, log := [] }

/-! ## What the functions do -/

/-- The copies of a request that are to be scheduled: three regular ones, and two poisoned ones
when `do_poison` is set and the request comes from an intruder. -/
def copies (worker : Worker) (rq : RequestInfo) (packet : Packet) (now : Int) :
    List ScheduleInfo :=
  let regular (t : Int) : ScheduleInfo := { packet with scheduleTime := t }
  let poisoned (t : Int) : ScheduleInfo :=
    { (poisonJob (regular t) rq).2 with scheduleTime := t }
  [regular (now + 2), regular (now + 5), regular (now + 60)] ++
    if worker.doPoison ∧ rq.type = .jobSRC then [poisoned (now + 5), poisoned (now + 60)] else []

/-- The insertions of `Worker_scheduleNewJob` are those of the request's copies. -/
theorem scheduleCopies_eq (plat : Platform) (worker : Worker) (rq : RequestInfo)
    (packet : Packet) (now : Int) (queue : PriorityQueue ScheduleInfo) :
    scheduleCopies plat worker rq packet now queue =
      insertAll plat (copies worker rq packet now) queue := by
  -- both poisoned copies need the flag and a request from an intruder
  cases hp : worker.doPoison with
  | false => simp [scheduleCopies, copies, insertAll, hp]
  | true =>
    cases ht : rq.type with
    | jobSRC => simp [scheduleCopies, copies, insertAll, poisonJob, hp, ht]
    | jobDST => simp [scheduleCopies, copies, insertAll, poisonJob, hp, ht]

/-- What reading the pipe does: a failure is counted, or a request is answered at once and its
copies are inserted. -/
theorem scheduleNewJob_some {plat : Platform} {worker : Worker} {s t : State} {d : Delivery}
    (h : scheduleNewJob plat worker s d = some t) :
    (d.request = none ∧ t.queue = s.queue ∧ t.log = s.log) ∨
    ∃ rq packet warning, d.request = some rq ∧
      worker.fillPacket rq d.rand d.time = some packet ∧
      insertAll plat (copies worker rq packet d.now) s.queue = some t.queue ∧
      (∀ e ∈ warning, e = .tooMuchRequests s.queue.count) ∧
      t.log = s.log ++ .received rq d.now d.rand d.time :: .answered packet :: warning := by
  rw [scheduleNewJob] at h
  cases hrq : d.request with
  | none =>
    rw [hrq] at h
    obtain ⟨n, -, rfl⟩ := Option.map_eq_some_iff.1 h
    exact Or.inl ⟨rfl, rfl, rfl⟩
  | some rq =>
    simp only [hrq, Option.bind_eq_bind, Option.bind_eq_some_iff, Option.some.injEq] at h
    obtain ⟨packet, hpacket, n, -, queue, hqueue, rfl⟩ := h
    rw [scheduleCopies_eq] at hqueue
    refine Or.inr ⟨rq, packet, _, rfl, hpacket, hqueue, ?_, rfl⟩
    intro e he
    split_ifs at he with hfull
    · exact List.mem_singleton.1 he
    · cases he

/-- Reading the pipe goes on to the next place when the frame is sent, or its failure forgiven, and
the copies fit into memory. -/
theorem scheduleNewJob_of_request {plat : Platform} {worker : Worker} {s : State} {d : Delivery}
    {rq : RequestInfo} {packet : Packet} {errors : Nat} {queue : PriorityQueue ScheduleInfo}
    (hrequest : d.request = some rq) (hpacket : worker.fillPacket rq d.rand d.time = some packet)
    (hsent : executeJob s.sendErrors d.sent = some errors)
    (hqueue : insertAll plat (copies worker rq packet d.now) s.queue = some queue) :
    ∃ u, scheduleNewJob plat worker s d = some u ∧ u.queue = queue := by
  refine ⟨{ s with
    queue
    readErrors := 0
    sendErrors := errors
    log := s.log ++ .received rq d.now d.rand d.time :: .answered packet ::
      if s.queue.count ≥ maxRequests then [.tooMuchRequests s.queue.count] else [] }, ?_, rfl⟩
  rw [scheduleNewJob, hrequest]
  simp only [hpacket, hsent, scheduleCopies_eq, hqueue, Option.bind_eq_bind, Option.bind_some]

/-- The request a step reads from the pipe. -/
def requestRead (s : State) (i : Input) : Option RequestInfo :=
  match s.place, i with
  | .waiting _, .selectReturns (some d) _ => d.request
  | _, _ => none

/-- What a step can do to the queue and the log: nothing, when a job is still not due at a break
of the drain loop; reading the pipe; or draining the top job, which is due. -/
theorem step_cases {plat : Platform} {worker : Worker} {s t : State} {i : Input}
    (h : step plat worker s i = some t) :
    (t.queue = s.queue ∧ t.log = s.log ∧ requestRead s i = none ∧
      ∀ now, s.place = .draining now → ∀ job, s.queue.max = some job → now < job.scheduleTime) ∨
    (∃ d u, requestRead s i = d.request ∧ scheduleNewJob plat worker s d = some u ∧
      t.queue = u.queue ∧ t.log = u.log ∧ ∀ now, s.place ≠ .draining now) ∨
    ∃ now job, requestRead s i = none ∧ s.place = .draining now ∧ s.queue.max = some job ∧
      job.scheduleTime ≤ now ∧ t.place = .draining now ∧ t.queue = s.queue.extract ∧
      t.log = s.log ++ [.drained now job] := by
  -- an input that the place does not ask for has no step
  cases hplace : s.place with
  | head =>
    cases i with
    | poll now =>
      simp only [step, hplace, Option.some.injEq] at h
      subst h
      exact Or.inl ⟨rfl, rfl, by simp [requestRead, hplace], by simp⟩
    | selectFails => simp [step, hplace] at h
    | selectReturns d now => simp [step, hplace] at h
    | drain sent => simp [step, hplace] at h
  | waiting timeout =>
    cases i with
    | poll now => simp [step, hplace] at h
    | selectFails =>
      simp only [step, hplace] at h
      obtain ⟨n, -, rfl⟩ := Option.map_eq_some_iff.1 h
      exact Or.inl ⟨rfl, rfl, by simp [requestRead], by simp⟩
    | selectReturns d now =>
      cases d with
      | none =>
        cases timeout with
        | none => simp [step, hplace] at h
        | some seconds =>
          simp only [step, hplace, Option.some.injEq] at h
          subst h
          exact Or.inl ⟨rfl, rfl, by simp [requestRead], by simp⟩
      | some d =>
        simp only [step, hplace] at h
        obtain ⟨u, hu, rfl⟩ := Option.map_eq_some_iff.1 h
        exact Or.inr (Or.inl ⟨d, u, by simp [requestRead, hplace], hu, rfl, rfl, by simp⟩)
    | drain sent => simp [step, hplace] at h
  | draining now =>
    cases i with
    | poll now => simp [step, hplace] at h
    | selectFails => simp [step, hplace] at h
    | selectReturns d now => simp [step, hplace] at h
    | drain sent =>
      simp only [step, hplace, drainRound] at h
      cases hmax : s.queue.max with
      | none =>
        simp only [hmax, Option.some.injEq] at h
        subst h
        exact Or.inl ⟨rfl, rfl, by simp [requestRead, hplace], by simp⟩
      | some job =>
        simp only [hmax] at h
        split_ifs at h with hdue
        · -- the break: the clock of the place is `now`, and the top job is `job`
          cases h
          refine Or.inl ⟨rfl, rfl, by simp [requestRead, hplace], ?_⟩
          rintro _ ⟨⟩ _ ⟨⟩
          exact hdue
        · obtain ⟨n, -, rfl⟩ := Option.map_eq_some_iff.1 h
          exact Or.inr (Or.inr ⟨now, job, by simp [requestRead, hplace], rfl, rfl, by omega, rfl,
            rfl, rfl⟩)

theorem init_some {plat : Platform} {mem : Nat → ScheduleInfo} {elemSize : Nat} {s : State}
    (h : init plat mem elemSize = some s) :
    s.queue.count = 0 ∧ s.queue.cmpFunc = jobCompare ∧ s.log = [] := by
  obtain ⟨queue, hq, rfl⟩ := Option.map_eq_some_iff.1 h
  obtain ⟨hcount, hcmp⟩ := PriorityQueue.init_some hq
  exact ⟨hcount, hcmp, rfl⟩

/-! ## A sample request -/

/-- The host 1 asks for the intruder 2. -/
def sampleRequest : RequestInfo where
  request :=
    { eaHdr :=
        { arHrd := htons arphrdEther
          arPro := htons ethertypeIp
          arHln := etherAddrLen
          arPln := 4
          arOp := htons 1 }
      arpSha := ⟨#v[0, 2, 4, 6, 8, 10]⟩
      arpSpa := 1
      arpTha := .zero
      arpTpa := 2 }
  mac := randomMacBase
  type := .jobDST
  poisonMac := none

def sampleWorker : Worker := { doPoison := true, ifIdx := 2, llmac := .mcSame }

/-- The content of fresh memory. -/
def sampleMem : Nat → ScheduleInfo := fun _ =>
  { sampleWorker.replyPacket sampleRequest .zero .zero with scheduleTime := 0 }

/-- The sample request arrives when the clock reads `now`, and the reply is transmitted. -/
def sampleDelivery (now : Int) : Delivery :=
  { now, request := some sampleRequest, rand := 0, time := now, sent := true }

/-- An iteration of the loop from reading `now` on: the request arrives unless `select` times out,
and the drain loop reads the clock at `later` and makes `n` rounds. -/
def sampleIteration (now : Int) (arrives : Bool) (later : Int) (n : Nat) : List Input :=
  .poll now :: .selectReturns (if arrives then some (sampleDelivery later) else none) later ::
    List.replicate n (.drain true)

end IpSentinel.Worker

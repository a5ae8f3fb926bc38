import IpSentinel.Daemon.FrameContents
import IpSentinel.MainLoop.RequestJobs
import IpSentinel.Worker.Pending

/-!
# Frames for requests

How many frames the program sends. A request read by the worker is worth four frames, or six when it
is poisoned, and in every state of both processes the frames that have been passed to `sendto`, are
queued, or belong to jobs still in the pipe make up exactly the jobs that were sent
(`Budget.conserved`). Each ARP request leads to at most one job of a type, so the program never
sends more than ten frames for one request received (`budget_of_run`).
-/

set_option autoImplicit false

namespace IpSentinel.Worker

open Foundation PriorityQueue

/-- The frames a request of the type is worth: the reply and its copies. -/
def framesFor (worker : Worker) (type : JobType) : Nat :=
  4 + if worker.doPoison ∧ type = .jobSRC then 2 else 0

theorem length_copies_eq (worker : Worker) (rq : RequestInfo) (packet : Packet) (now : Int) :
    (copies worker rq packet now).length + 1 = framesFor worker rq.type := by
  rw [copies, framesFor]
  split_ifs <;> rfl

/-- Every packet passed to `sendto` answers a request or has been drained. -/
theorem length_transmitted {worker : Worker} {log : List Event} (h : AnswersInTime worker log) :
    (transmitted log).length = (requestsRead log).length + (drained log).card := by
  induction log using AnswersInTime.induct with
  | case1 => rfl
  | case2 rq now rand time packet log ih =>
    simp only [transmitted, requestsRead, drained, List.length_cons, ih h.2]
    rw [Nat.add_right_comm]
  | case3 now job log ih =>
    simp only [transmitted, requestsRead, drained, List.length_cons, Multiset.card_cons, ih h.2]
    rfl
  | case4 count log ih => exact ih h
  | case5 log h1 h2 h3 h4 => simp [AnswersInTime] at h

theorem card_scheduled {worker : Worker} {log : List Event} (h : AnswersInTime worker log) :
    (requestsRead log).length + (scheduled worker log).card =
      ((requestsRead log).map fun rq => framesFor worker rq.type).sum := by
  induction log using AnswersInTime.induct with
  | case1 => rfl
  | case2 rq now rand time packet log ih =>
    have hrest := ih h.2
    have hcopies := length_copies_eq worker rq packet now
    simp only [requestsRead, scheduled, h.1, List.length_cons, List.map_cons, List.sum_cons,
      Multiset.card_add, Multiset.coe_card] at hrest ⊢
    rw [← hrest, ← hcopies]
    ring
  | case3 now job log ih => exact ih h.2
  | case4 count log ih => exact ih h
  | case5 log h1 h2 h3 h4 => simp [AnswersInTime] at h

/-- The frames passed to `sendto` and the queued ones are those of the requests read. -/
theorem frames_conserved {worker : Worker} {s : State} (h : Accounted worker s) :
    (transmitted s.log).length + s.queue.count =
      ((requestsRead s.log).map fun rq => framesFor worker rq.type).sum := by
  have hcard := congrArg Multiset.card h.conserved
  rw [Multiset.card_add, card_contents] at hcard
  rw [length_transmitted h.answersInTime, ← card_scheduled h.answersInTime, hcard]
  ring

end IpSentinel.Worker

namespace IpSentinel.Daemon

open Foundation BlackList MainLoop Worker

/-- The frames that the jobs are worth. -/
def framesOf (worker : Worker) (jobs : List SentJob) : Nat :=
  (jobs.map fun sent => framesFor worker sent.job.type).sum

/-- The frames one ARP request can lead to. -/
def framesPerRequest (p : Setting) : Nat :=
  (if p.arpDir.Sends .jobDST then framesFor p.worker .jobDST else 0) +
    if p.arpDir.Sends .jobSRC then framesFor p.worker .jobSRC else 0

theorem framesPerRequest_le (p : Setting) : framesPerRequest p ≤ 10 := by
  have hfour : framesFor p.worker .jobDST = 4 := by simp [framesFor]
  have hsix : framesFor p.worker .jobSRC ≤ 6 := by
    rw [framesFor]
    split_ifs <;> simp
  rw [framesPerRequest, hfour]
  split_ifs <;> omega

/-- One for an ARP request that the main process receives. -/
def requestsReceived (s : State) : Input → Nat
  | .main i => if ReceivesRequest s.main i then 1 else 0
  | .worker _ => 0

/-- The frames and the requests received account for each other. -/
structure Budget (p : Setting) (requests : Nat) (s : State) : Prop where
  conserved : (transmitted s.worker.log).length + s.worker.queue.count +
    framesOf p.worker (s.main.log.drop s.taken) = framesOf p.worker s.main.log
  fits : ∀ sent ∈ s.main.log, sent.Fits p.arpDir
  jobs : ∀ type, (s.main.log.countP fun sent => sent.job.type = type) ≤ requests
  bounded : framesOf p.worker s.main.log ≤ framesPerRequest p * requests
  atMostTen : framesOf p.worker s.main.log ≤ 10 * requests

theorem framesOf_append (worker : Worker) (jobs jobs' : List SentJob) :
    framesOf worker (jobs ++ jobs') = framesOf worker jobs + framesOf worker jobs' := by
  rw [framesOf, List.map_append, List.sum_append]
  rfl

/-- The jobs of each type, each with its frames. -/
theorem framesOf_eq (worker : Worker) (jobs : List SentJob) :
    framesOf worker jobs =
      framesFor worker .jobDST * (jobs.countP fun sent => sent.job.type = .jobDST) +
      framesFor worker .jobSRC * jobs.countP fun sent => sent.job.type = .jobSRC := by
  induction jobs with
  | nil => rfl
  | cons sent jobs ih =>
    rw [framesOf, List.map_cons, List.sum_cons, ← framesOf, ih, List.countP_cons, List.countP_cons]
    cases sent.job.type with
    | jobDST =>
      simp only [decide_true, if_true, reduceCtorEq, decide_false, Bool.false_eq_true, if_false]
      ring
    | jobSRC =>
      simp only [decide_true, if_true, reduceCtorEq, decide_false, Bool.false_eq_true, if_false]
      ring

/-- Jobs that fit are worth no more than their requests. -/
theorem framesOf_le {p : Setting} {jobs : List SentJob} {requests : Nat}
    (hfits : ∀ sent ∈ jobs, sent.Fits p.arpDir)
    (hjobs : ∀ type, (jobs.countP fun sent => sent.job.type = type) ≤ requests) :
    framesOf p.worker jobs ≤ framesPerRequest p * requests := by
  have htype : ∀ type, framesFor p.worker type * (jobs.countP fun sent => sent.job.type = type) ≤
      (if p.arpDir.Sends type then framesFor p.worker type else 0) * requests := by
    intro type
    by_cases hsends : p.arpDir.Sends type
    · rw [if_pos hsends]
      exact Nat.mul_le_mul_left _ (hjobs type)
    · -- of a direction that is not selected there are no jobs
      have hnone : (jobs.countP fun sent => sent.job.type = type) = 0 := by
        refine List.countP_eq_zero.2 fun sent hsent heq => hsends ?_
        rw [← of_decide_eq_true heq]
        exact (hfits sent hsent).sends
      rw [hnone, Nat.mul_zero]
      exact Nat.zero_le _
  rw [framesOf_eq, framesPerRequest, Nat.add_mul]
  exact Nat.add_le_add (htype .jobDST) (htype .jobSRC)

/-- The jobs the worker has read are the first ones, and make up what it has sent and queued. -/
theorem Linked.conserved {p : Setting} {s : State} (h : Linked p s) :
    (transmitted s.worker.log).length + s.worker.queue.count +
      framesOf p.worker (s.main.log.drop s.taken) = framesOf p.worker s.main.log := by
  have hread : ((requestsRead s.worker.log).map fun rq => framesFor p.worker rq.type).sum =
      framesOf p.worker s.read := by
    rw [h.requests, List.map_map]
    rfl
  rw [frames_conserved h.accounted, hread, State.read, ← framesOf_append, List.take_append_drop]

/-- A step keeps the number of jobs of each type within that of the requests received. -/
theorem step_budget {p : Setting} {s t : State} {i : Input} {requests : Nat}
    (hfits : ∀ sent ∈ s.main.log, sent.Fits p.arpDir)
    (hjobs : ∀ type, (s.main.log.countP fun sent => sent.job.type = type) ≤ requests)
    (hstep : step p s i = some t) :
    (∀ sent ∈ t.main.log, sent.Fits p.arpDir) ∧
      ∀ type, (t.main.log.countP fun sent => sent.job.type = type) ≤
        requests + requestsReceived s i := by
  rcases step_cases hstep with ⟨j, main, rfl, hmain, rfl⟩ | ⟨j, worker, rfl, -, -, rfl⟩ |
    ⟨j, sent, worker, rfl, -, -, -, rfl⟩
  · obtain ⟨new, hlog, hnew, hnothing⟩ := step_jobs hmain
    rw [hlog]
    constructor
    · intro sent hsent
      exact (List.mem_append.1 hsent).elim (hfits sent) (hnew.fits sent)
    · intro type
      rw [List.countP_append, requestsReceived]
      by_cases hrequest : ReceivesRequest s.main j
      · rw [if_pos hrequest]
        exact Nat.add_le_add (hjobs type) (hnew.count type)
      · rw [if_neg hrequest, hnothing hrequest, List.countP_nil]
        exact hjobs type
  · exact ⟨hfits, hjobs⟩
  · exact ⟨hfits, hjobs⟩

/-- The invariant of a run that has received these requests. -/
structure Requested (p : Setting) (received : List Nat) (s : State) : Prop where
  linked : Linked p s
  fits : ∀ sent ∈ s.main.log, sent.Fits p.arpDir
  jobs : ∀ type, (s.main.log.countP fun sent => sent.job.type = type) ≤ received.sum

theorem requested_step {p : Setting} {received : List Nat} {s t : State} {i : Input}
    (h : Requested p received s) (hstep : step p s i = some t) :
    Requested p (received ++ [requestsReceived s i]) t := by
  obtain ⟨hfits, hjobs⟩ := step_budget h.fits h.jobs hstep
  refine ⟨(linked_step h.linked hstep).1, hfits, ?_⟩
  rw [List.sum_append, List.sum_singleton]
  exact hjobs

/-- In every state that a run of both processes reaches, in whatever order they take their steps,
the frames account for the jobs, and the jobs for the ARP requests received. -/
theorem budget_of_run (p : Setting) (cfg : ReloadState) (buffer : Buffer)
    (mem : Nat → ScheduleInfo) (elemSize : Nat) (w : Worker.State) (inputs : List Input) (t : State)
    (hinit : Worker.init p.plat mem elemSize = some w)
    (hrun : run (step p) inputs (start cfg buffer w) = some t) :
    Budget p (trace (step p) requestsReceived inputs (start cfg buffer w)).sum t := by
  -- the history is the list of the requests received
  have hstart : Requested p [] (start cfg buffer w) :=
    ⟨linked_start hinit, List.forall_mem_nil _, fun type => Nat.zero_le _⟩
  obtain ⟨hlinked, hfits, hjobs⟩ := run_history (fun _ _ _ _ => requested_step) hstart hrun
  have hbounded := framesOf_le hfits hjobs
  refine ⟨hlinked.conserved, hfits, hjobs, hbounded, hbounded.trans ?_⟩
  exact Nat.mul_le_mul_right _ (framesPerRequest_le p)

/-- One request of 0.0.0.9, which the worker reads. -/
theorem budget_of_run_sample :
    ∃ w t, Worker.init lp64 sampleMem 96 = some w ∧
      run (step sampleSetting) (requestInputs ⟨#v[0, 2, 4, 6, 8, 10]⟩ 1)
        (start blockedHost (fun _ => 0) w) = some t ∧
      Budget sampleSetting (trace (step sampleSetting) requestsReceived
        (requestInputs ⟨#v[0, 2, 4, 6, 8, 10]⟩ 1) (start blockedHost (fun _ => 0) w)).sum t :=
  ⟨_, _, rfl, rfl, budget_of_run sampleSetting blockedHost (fun _ => 0) sampleMem 96 _
    (requestInputs ⟨#v[0, 2, 4, 6, 8, 10]⟩ 1) _ rfl rfl⟩

/-! ## Directions -/

/-- The frame belongs to a job of a selected direction that has been read, and when the job is about
an intruder, this is not 0.0.0.0: neither as the target of the reply nor as the address that a
poisoned frame announces. -/
def Directed (p : Setting) (s : State) (packet : Packet) : Prop :=
  ∃ sent ∈ s.read, p.arpDir.Sends sent.job.type ∧
    (IsRegular p.worker sent.job packet ∧
        (sent.job.type = .jobSRC → packet.message.data.arpTpa ≠ 0) ∨
      IsPoisoned p.worker sent.job packet ∧ packet.message.data.arpSpa ≠ 0)

theorem directed_of_frame {p : Setting} {s : State} {sent : SentJob} {packet : Packet}
    (hsent : sent ∈ s.read) (hfits : sent.Fits p.arpDir)
    (hframe : IsFrameOf p.worker sent.job packet) : Directed p s packet := by
  refine ⟨sent, hsent, hfits.sends, ?_⟩
  rcases hframe with hregular | hpoisoned
  · refine Or.inl ⟨hregular, fun htype => ?_⟩
    obtain ⟨shost, rfl⟩ := regular_eq hregular
    exact hfits.notUnspecified htype
  · refine Or.inr ⟨hpoisoned, ?_⟩
    obtain ⟨-, htype, regular, t, hfrom, rfl⟩ := hpoisoned
    obtain ⟨shost, rfl⟩ := regular_eq hfrom
    -- the poisoned frame announces the address of the intruder
    simp only [poisonJob, htype]
    exact hfits.notUnspecified htype

/-- In every run of both processes each frame passed to `sendto` is for a job of a direction that
`arp_dir` selects, and none is about an intruder 0.0.0.0. -/
theorem directed_of_run (p : Setting) (cfg : ReloadState) (buffer : Buffer)
    (mem : Nat → ScheduleInfo) (elemSize : Nat) (w : Worker.State) (inputs : List Input) (t : State)
    (hinit : Worker.init p.plat mem elemSize = some w)
    (hrun : run (step p) inputs (start cfg buffer w) = some t) :
    ∀ packet ∈ transmitted t.worker.log, Directed p t packet := by
  obtain ⟨hlinked, hfits⟩ := run_invariant
    (I := fun s => Linked p s ∧ ∀ sent ∈ s.main.log, sent.Fits p.arpDir)
    (fun s i t hs hstep => ⟨(linked_step hs.1 hstep).1,
      (step_budget hs.2 (fun _ => List.countP_le_length) hstep).1⟩)
    ⟨linked_start hinit, List.forall_mem_nil _⟩ hrun
  intro packet hpacket
  obtain ⟨rq, hrq, hframe⟩ := exists_request_of_transmitted hlinked.accounted hpacket
  rw [hlinked.requests] at hrq
  obtain ⟨sent, hsent, rfl⟩ := List.mem_map.1 hrq
  exact directed_of_frame hsent (hfits sent (List.mem_of_mem_take hsent)) hframe

/-- The same request. -/
theorem directed_of_run_sample :
    ∃ w t, Worker.init lp64 sampleMem 96 = some w ∧
      run (step sampleSetting) (requestInputs ⟨#v[0, 2, 4, 6, 8, 10]⟩ 1)
        (start blockedHost (fun _ => 0) w) = some t ∧
      ∀ packet ∈ transmitted t.worker.log, Directed sampleSetting t packet :=
  ⟨_, _, rfl, rfl, directed_of_run sampleSetting blockedHost (fun _ => 0) sampleMem 96 _
    (requestInputs ⟨#v[0, 2, 4, 6, 8, 10]⟩ 1) _ rfl rfl⟩

end IpSentinel.Daemon

import IpSentinel.Worker.Conservation

/-!
# The frames of a request

Which frames the worker transmits, and for which requests. A request has one regular reply, and
when poisoning applies one poisoned frame (`frameOf_of_mem_copies`); every frame passed to `sendto`
is one of those of a request that was read (`exists_request_of_transmitted`), and the regular reply
of every request read is passed to `sendto` (`regular_transmitted`).
-/

set_option autoImplicit false

namespace IpSentinel.Worker

open Foundation PriorityQueue

/-- The requests read from the pipe, in the order of time. -/
def requestsRead : List Event → List RequestInfo
  | [] => []
  | .received rq _ _ _ :: log => rq :: requestsRead log
  | _ :: log => requestsRead log

/-- The packets passed to `sendto`, at once or later. -/
def transmitted : List Event → List Packet
  | [] => []
  | .answered packet :: log => packet :: transmitted log
  | .drained _ job :: log => job.toPacket :: transmitted log
  | _ :: log => transmitted log

/-- The host a regular reply is sent to. -/
def replyDhost (type : JobType) (request : EtherArp) : EtherAddr :=
  match type with
  | .jobDST => .bcast
  | .jobSRC => request.arpSha

/-- The packet is the regular reply to the request, for some random MAC. -/
def IsRegular (worker : Worker) (rq : RequestInfo) (packet : Packet) : Prop :=
  ∃ rand time, worker.fillPacket rq rand time = some packet

/-- The packet is a regular reply to the request that has been poisoned. -/
def IsPoisoned (worker : Worker) (rq : RequestInfo) (packet : Packet) : Prop :=
  worker.doPoison ∧ rq.type = .jobSRC ∧ ∃ regular scheduleTime, IsRegular worker rq regular ∧
    packet = (poisonJob { regular with scheduleTime } rq).2.toPacket

/-- The packet is one of those for the request. -/
def IsFrameOf (worker : Worker) (rq : RequestInfo) (packet : Packet) : Prop :=
  IsRegular worker rq packet ∨ IsPoisoned worker rq packet

/-! ## What the frames say -/

theorem regular_eq {worker : Worker} {rq : RequestInfo} {packet : Packet}
    (h : IsRegular worker rq packet) :
    ∃ shost, packet = worker.replyPacket rq shost (replyDhost rq.type rq.request) := by
  obtain ⟨rand, time, hfill⟩ := h
  rw [fillPacket] at hfill
  cases htype : rq.type with
  | jobDST =>
    rw [htype] at hfill
    cases hfill
    exact ⟨rq.mac, rfl⟩
  | jobSRC =>
    simp only [htype] at hfill
    obtain ⟨shost, -, rfl⟩ := Option.map_eq_some_iff.1 hfill
    exact ⟨shost, rfl⟩

/-- The copies of a request are its regular reply, and the poisoned one. -/
theorem frameOf_of_mem_copies {worker : Worker} {rq : RequestInfo} {packet : Packet} {now : Int}
    {job : ScheduleInfo} (hpacket : IsRegular worker rq packet)
    (h : job ∈ copies worker rq packet now) : IsFrameOf worker rq job.toPacket := by
  have hpoisoned : worker.doPoison ∧ rq.type = .jobSRC → ∀ t t' : Int,
      IsPoisoned worker rq
        { (poisonJob { packet with scheduleTime := t } rq).2 with scheduleTime := t' }.toPacket :=
    fun hwhen t _ => ⟨hwhen.1, hwhen.2, packet, t, hpacket, rfl⟩
  simp only [copies, List.mem_append, List.mem_cons, List.not_mem_nil, or_false] at h
  rcases h with (rfl | rfl | rfl) | h
  · exact Or.inl hpacket
  · exact Or.inl hpacket
  · exact Or.inl hpacket
  · split_ifs at h with hwhen
    · simp only [List.mem_cons, List.not_mem_nil, or_false] at h
      rcases h with rfl | rfl
      · exact Or.inr (hpoisoned hwhen _ _)
      · exact Or.inr (hpoisoned hwhen _ _)
    · cases h

/-! ## The log -/

theorem mem_transmitted {packet : Packet} {log : List Event} :
    packet ∈ transmitted log ↔
      .answered packet ∈ log ∨ ∃ job ∈ drained log, job.toPacket = packet := by
  induction log with
  | nil => simp [transmitted, drained]
  | cons e log ih =>
    cases e with
    | received rq now rand time => simp [transmitted, drained, ih]
    | answered packet' =>
      simp [transmitted, drained, ih, or_assoc]
    | tooMuchRequests count => simp [transmitted, drained, ih]
    | drained now job =>
      simp only [transmitted, List.mem_cons, ih, reduceCtorEq, false_or, drained,
        Multiset.mem_cons, exists_eq_or_imp]
      tauto

/-- Every packet answered at once is the regular reply to a request read. -/
theorem exists_request_of_answered {worker : Worker} {log : List Event} {packet : Packet}
    (h : AnswersInTime worker log) (hmem : .answered packet ∈ log) :
    ∃ rq ∈ requestsRead log, IsRegular worker rq packet := by
  induction log using AnswersInTime.induct with
  | case1 => cases hmem
  | case2 rq now rand time packet' log ih =>
    rcases List.mem_cons.1 hmem with hmem | hmem
    · cases hmem
    rcases List.mem_cons.1 hmem with hmem | hmem
    · cases hmem
      exact ⟨rq, List.mem_cons_self, rand, time, h.1⟩
    · obtain ⟨rq', hrq', hregular⟩ := ih h.2 hmem
      exact ⟨rq', List.mem_cons_of_mem _ hrq', hregular⟩
  | case3 now job log ih =>
    rcases List.mem_cons.1 hmem with hmem | hmem
    · cases hmem
    · exact ih h.2 hmem
  | case4 count log ih =>
    rcases List.mem_cons.1 hmem with hmem | hmem
    · cases hmem
    · exact ih h hmem
  | case5 log h1 h2 h3 h4 => simp [AnswersInTime] at h

/-- Every request read is answered at once. -/
theorem exists_answered_of_request {worker : Worker} {log : List Event} {rq : RequestInfo}
    (h : AnswersInTime worker log) (hmem : rq ∈ requestsRead log) :
    ∃ packet, .answered packet ∈ log ∧ IsRegular worker rq packet := by
  induction log using AnswersInTime.induct with
  | case1 => cases hmem
  | case2 rq' now rand time packet log ih =>
    rcases List.mem_cons.1 hmem with rfl | hmem
    · exact ⟨packet, by simp, rand, time, h.1⟩
    · obtain ⟨packet', hpacket', hregular⟩ := ih h.2 hmem
      exact ⟨packet', by simp [hpacket'], hregular⟩
  | case3 now job log ih =>
    obtain ⟨packet, hpacket, hregular⟩ := ih h.2 hmem
    exact ⟨packet, List.mem_cons_of_mem _ hpacket, hregular⟩
  | case4 count log ih =>
    obtain ⟨packet, hpacket, hregular⟩ := ih h hmem
    exact ⟨packet, List.mem_cons_of_mem _ hpacket, hregular⟩
  | case5 log h1 h2 h3 h4 => simp [AnswersInTime] at h

/-- Every job scheduled is a copy for a request read. -/
theorem exists_request_of_scheduled {worker : Worker} {log : List Event} {job : ScheduleInfo}
    (h : job ∈ scheduled worker log) :
    ∃ rq ∈ requestsRead log, IsFrameOf worker rq job.toPacket := by
  induction log with
  | nil => simp [scheduled] at h
  | cons e log ih =>
    cases e with
    | received rq now rand time =>
      rcases Multiset.mem_add.1 h with h | h
      · cases hpacket : worker.fillPacket rq rand time with
        | none => simp [hpacket] at h
        | some packet =>
          simp only [hpacket, Multiset.mem_coe] at h
          exact ⟨rq, List.mem_cons_self, frameOf_of_mem_copies ⟨rand, time, hpacket⟩ h⟩
      · obtain ⟨rq', hrq', hframe⟩ := ih h
        exact ⟨rq', List.mem_cons_of_mem _ hrq', hframe⟩
    | answered packet => exact ih h
    | tooMuchRequests count => exact ih h
    | drained now job' => exact ih h

/-- Every packet passed to `sendto` is one of those for a request read. -/
theorem exists_request_of_transmitted {worker : Worker} {s : State} {packet : Packet}
    (h : Accounted worker s) (hmem : packet ∈ transmitted s.log) :
    ∃ rq ∈ requestsRead s.log, IsFrameOf worker rq packet := by
  rcases mem_transmitted.1 hmem with hanswered | ⟨job, hjob, rfl⟩
  · obtain ⟨rq, hrq, hregular⟩ := exists_request_of_answered h.answersInTime hanswered
    exact ⟨rq, hrq, Or.inl hregular⟩
  · apply exists_request_of_scheduled
    rw [h.conserved]
    exact Multiset.mem_add.2 (Or.inr hjob)

/-- The regular reply to every request read is passed to `sendto`. -/
theorem regular_transmitted {worker : Worker} {s : State} {rq : RequestInfo}
    (h : Accounted worker s) (hmem : rq ∈ requestsRead s.log) :
    ∃ packet ∈ transmitted s.log, IsRegular worker rq packet := by
  obtain ⟨packet, hpacket, hregular⟩ := exists_answered_of_request h.answersInTime hmem
  exact ⟨packet, mem_transmitted.2 (Or.inl hpacket), hregular⟩

theorem requestsRead_append (log log' : List Event) :
    requestsRead (log ++ log') = requestsRead log ++ requestsRead log' := by
  induction log with
  | nil => rfl
  | cons e log ih =>
    cases e with
    | received rq now rand time => exact congrArg (rq :: ·) ih
    | answered packet => exact ih
    | tooMuchRequests count => exact ih
    | drained now job => exact ih

theorem requestsRead_warnings {n : Nat} {log : List Event}
    (h : ∀ e ∈ log, e = .tooMuchRequests n) : requestsRead log = [] := by
  induction log with
  | nil => rfl
  | cons e log ih =>
    obtain ⟨rfl, hlog⟩ := List.forall_mem_cons.1 h
    exact ih hlog

/-- A step adds the request it reads, if it reads one. -/
theorem requestsRead_step {plat : Platform} {worker : Worker} {s t : State} {i : Input}
    (h : step plat worker s i = some t) :
    requestsRead t.log = requestsRead s.log ++ (requestRead s i).toList := by
  rcases step_cases h with ⟨-, hlog, hread, -⟩ | ⟨d, u, hread, hu, -, hlog, -⟩ |
    ⟨now, job, hread, -, -, -, -, -, hlog⟩
  · rw [hlog, hread, Option.toList_none, List.append_nil]
  · rcases scheduleNewJob_some hu with ⟨hnone, -, hulog⟩ |
      ⟨rq, packet, warning, hsome, -, -, hwarn, hulog⟩
    · rw [hlog, hulog, hread, hnone, Option.toList_none, List.append_nil]
    · rw [hlog, hulog, hread, hsome, requestsRead_append, Option.toList_some]
      simp only [requestsRead, requestsRead_warnings hwarn]
  · rw [hlog, hread, requestsRead_append, Option.toList_none]
    rfl

end IpSentinel.Worker

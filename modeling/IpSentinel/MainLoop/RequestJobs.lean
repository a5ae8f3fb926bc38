import IpSentinel.MainLoop.Machine

/-!
# The jobs of a request

An iteration that receives an ARP request sends at most one job of each type that `arp_dir` selects,
and any other iteration sends none (`step_jobs`). No jobSRC job is about 0.0.0.0, the sender address
of hosts that look for duplicates of their own one.
-/

set_option autoImplicit false

namespace IpSentinel.MainLoop

open Foundation BlackList

/-- The bit of `arp_dir` that a type of job belongs to is set. -/
def ArpDir.Sends (arpDir : ArpDir) : JobType → Prop
  | .jobDST => arpDir.value &&& ArpDir.dirTO.value ≠ 0
  | .jobSRC => arpDir.value &&& ArpDir.dirFROM.value ≠ 0

instance decidableSends (arpDir : ArpDir) (type : JobType) : Decidable (arpDir.Sends type) :=
  match type with
  | .jobDST => inferInstanceAs (Decidable (_ ≠ _))
  | .jobSRC => inferInstanceAs (Decidable (_ ≠ _))

/-- The iteration finds an ARP request in the buffer. -/
def ReceivesRequest (s : State) (i : Input) : Prop :=
  ∃ frame ∈ i.received, ntohs frame.protocol = ethertypeArp ∧
    ntohs (s.buffer.receive frame.bytes).arp.eaHdr.arOp = arpopRequest

instance decidableReceivesRequest (s : State) (i : Input) : Decidable (ReceivesRequest s i) :=
  inferInstanceAs (Decidable (∃ frame ∈ i.received, _))

/-- A job that a request may lead to. -/
structure SentJob.Fits (arpDir : ArpDir) (sent : SentJob) : Prop where
  sends : arpDir.Sends sent.job.type
  notUnspecified : sent.job.type = .jobSRC → sent.job.request.arpSpa ≠ 0

/-- At most one job of each type, and each fits. -/
structure JobsOfRequest (arpDir : ArpDir) (new : List SentJob) : Prop where
  fits : ∀ sent ∈ new, sent.Fits arpDir
  count : ∀ type, (new.countP fun sent => sent.job.type = type) ≤ 1

variable {env : ExpandEnv} {V : VectorLib} {testsuite : Bool} {arpDir : ArpDir}

theorem jobsOfRequest_nil (arpDir : ArpDir) : JobsOfRequest arpDir [] where
  fits := List.forall_mem_nil _
  count _ := Nat.zero_le _

/-- The generation of a job sends at most the one job. -/
theorem generateJob_new {s t : State} {srcIp : InAddr} {query : Query}
    {job : EtherAddr → Query → RequestInfo} {a : Answers}
    (h : generateJob V s srcIp query job a = some t) :
    ∃ new, t.log = s.log ++ new ∧ new.length ≤ 1 ∧
      ∀ sent ∈ new, ∃ mac query', sent.job = job mac query' := by
  obtain ⟨-, -, ⟨-, hlog⟩ | ⟨-, -, hlog | ⟨mac, query', -, hlog⟩⟩⟩ := generateJob_cases h
  · exact ⟨[], by rw [hlog, List.append_nil], Nat.zero_le _, List.forall_mem_nil _⟩
  · exact ⟨[], by rw [hlog, List.append_nil], Nat.zero_le _, List.forall_mem_nil _⟩
  · refine ⟨_, hlog, Nat.le_refl 1, fun sent hsent => ?_⟩
    rw [List.mem_singleton.1 hsent]
    exact ⟨mac, query', rfl⟩

/-- One job of one type. -/
theorem countP_type {new : List SentJob} {type : JobType} (hlength : new.length ≤ 1)
    (htype : ∀ sent ∈ new, sent.job.type = type) (type' : JobType) :
    (new.countP fun sent => sent.job.type = type') ≤ if type' = type then 1 else 0 := by
  by_cases hsame : type' = type
  · rw [if_pos hsame]
    exact List.countP_le_length.trans hlength
  · rw [if_neg hsame, Nat.le_zero, List.countP_eq_zero]
    intro sent hsent heq
    exact hsame ((of_decide_eq_true heq).symm.trans (htype sent hsent))

theorem toIntruder_new {s t : State} {msg : EtherArp} {a : Answers}
    (h : (if arpDir.value &&& ArpDir.dirTO.value ≠ 0 then generateJobToIntruder V msg s a
      else some s) = some t) :
    ∃ new, t.log = s.log ++ new ∧ new.length ≤ 1 ∧
      ∀ sent ∈ new, sent.Fits arpDir ∧ sent.job.type = .jobDST := by
  split_ifs at h with hdir
  · obtain ⟨new, hlog, hlength, hnew⟩ := generateJob_new h
    refine ⟨new, hlog, hlength, fun sent hsent => ?_⟩
    obtain ⟨mac, query', hjob⟩ := hnew sent hsent
    have htype : sent.job.type = .jobDST := by rw [hjob]
    refine ⟨⟨?_, fun hsrc => ?_⟩, htype⟩
    · rw [htype]
      exact hdir
    · rw [htype] at hsrc
      cases hsrc
  · cases h
    exact ⟨[], (List.append_nil _).symm, Nat.zero_le _, List.forall_mem_nil _⟩

theorem fromIntruder_new {s t : State} {msg : EtherArp} {a : Answers}
    (h : (if arpDir.value &&& ArpDir.dirFROM.value ≠ 0 then generateJobFromIntruder V msg s a
      else some s) = some t) :
    ∃ new, t.log = s.log ++ new ∧ new.length ≤ 1 ∧
      ∀ sent ∈ new, sent.Fits arpDir ∧ sent.job.type = .jobSRC := by
  rw [generateJobFromIntruder] at h
  split_ifs at h with hdir hzero
  · cases h
    exact ⟨[], (List.append_nil _).symm, Nat.zero_le _, List.forall_mem_nil _⟩
  · obtain ⟨new, hlog, hlength, hnew⟩ := generateJob_new h
    refine ⟨new, hlog, hlength, fun sent hsent => ?_⟩
    obtain ⟨mac, query', hjob⟩ := hnew sent hsent
    have htype : sent.job.type = .jobSRC := by rw [hjob]
    refine ⟨⟨?_, fun _ => ?_⟩, htype⟩
    · rw [htype]
      exact hdir
    · rw [hjob]
      exact hzero
  · cases h
    exact ⟨[], (List.append_nil _).symm, Nat.zero_le _, List.forall_mem_nil _⟩

/-- A request leads to at most one job of each selected type. -/
theorem handleRequest_new {s t : State} {i : Input}
    (h : handleRequest env V testsuite arpDir s i = some t) :
    ∃ new, t.log = s.log ++ new ∧ JobsOfRequest arpDir new := by
  simp only [handleRequest, Option.bind_eq_bind, Option.bind_eq_some_iff] at h
  obtain ⟨cfg, -, u, hu, ht⟩ := h
  obtain ⟨new, hlog, hlength, hnew⟩ := toIntruder_new hu
  obtain ⟨new', hlog', hlength', hnew'⟩ := fromIntruder_new ht
  refine ⟨new ++ new', by rw [hlog', hlog, List.append_assoc], ?_, fun type => ?_⟩
  · intro sent hsent
    exact (List.mem_append.1 hsent).elim (fun hsent => (hnew sent hsent).1)
      fun hsent => (hnew' sent hsent).1
  · have hdst := countP_type hlength (fun sent hsent => (hnew sent hsent).2) type
    have hsrc := countP_type hlength' (fun sent hsent => (hnew' sent hsent).2) type
    rw [List.countP_append]
    cases type with
    | jobDST => exact Nat.add_le_add hdst hsrc
    | jobSRC => exact Nat.add_le_add hdst hsrc

/-- An iteration sends jobs for a request only. -/
theorem step_jobs {s t : State} {i : Input} (h : step env V testsuite arpDir s i = some t) :
    ∃ new, t.log = s.log ++ new ∧ JobsOfRequest arpDir new ∧
      (¬ ReceivesRequest s i → new = []) := by
  cases hreceived : i.received with
  | none =>
    simp only [step, hreceived] at h
    obtain ⟨n, -, rfl⟩ := Option.map_eq_some_iff.1 h
    exact ⟨[], (List.append_nil _).symm, jobsOfRequest_nil arpDir, fun _ => rfl⟩
  | some frame =>
    by_cases hother : ntohs frame.protocol ≠ ethertypeArp ∨
        ntohs (s.buffer.receive frame.bytes).arp.eaHdr.arOp ≠ arpopRequest
    · rw [step_of_other hreceived hother] at h
      cases h
      exact ⟨[], (List.append_nil _).symm, jobsOfRequest_nil arpDir, fun _ => rfl⟩
    · obtain ⟨hprotocol, hop⟩ := not_or.1 hother
      rw [step_of_request hreceived (not_not.1 hprotocol) (not_not.1 hop)] at h
      obtain ⟨new, hlog, hnew⟩ := handleRequest_new h
      refine ⟨new, hlog, hnew, fun hnot => ?_⟩
      exact absurd ⟨frame, hreceived, not_not.1 hprotocol, not_not.1 hop⟩ hnot

/-! ## The dice -/

/-- The job is sent when `rand` answers `dice` in `isDOS`. -/
def sendsFor (V : VectorLib) (s : State) (srcIp : InAddr) (query : Query)
    (job : EtherAddr → Query → RequestInfo) (a : Answers) (dice : Nat) : Bool :=
  (generateJob V s srcIp query job { a with dice }).any fun t => s.log.length < t.log.length

/-- Of the values of the dice, `ANTIDOS_COUNT_HIGH - count` let a request pass. -/
theorem isDOS_eq_false_iff {count dice : Nat} :
    isDOS count dice = false ↔
      dice % (antidosCountHigh - antidosCountLow) < antidosCountHigh - count := by
  have hlt : dice % (antidosCountHigh - antidosCountLow) < antidosCountHigh - antidosCountLow :=
    Nat.mod_lt _ (by decide)
  rw [isDOS, decide_eq_false_iff_not]
  simp only [antidosCountHigh, antidosCountLow] at hlt ⊢
  omega

theorem sendsFor_eq {s : State} {srcIp : InAddr} {query query' : Query} {mac : EtherAddr}
    {a : Answers} (job : EtherAddr → Query → RequestInfo)
    (hmac : getMac V s.cfg.lst query a.rand a.time = (some mac, query'))
    (hover : s.antiDos.isOversized = false) (hsent : a.sent = true) (dice : Nat) :
    sendsFor V s srcIp query job a dice = !isDOS (s.antiDos.registerIP V srcIp a.clock).1 dice := by
  cases hdos : isDOS (s.antiDos.registerIP V srcIp a.clock).1 dice with
  | false =>
    rw [sendsFor, generateJob_of_sent (a := { a with dice }) job hmac hover hdos hsent]
    simp
  | true => simp [sendsFor, generateJob, hmac, hover, hdos]

/-- Of `m` subsequent numbers `k` have a remainder below `k`. -/
theorem card_filter_mod_lt (n m k : Nat) :
    ((Finset.Ico n (n + m)).filter fun x => x % m < k).card = min m k := by
  have hperiodic : Function.Periodic (fun x => x % m < k) m := by
    intro x
    dsimp only
    rw [Nat.add_mod_right]
  have hrange : (Finset.range m).filter (fun x => x % m < k) = Finset.range (min m k) := by
    ext x
    rw [Finset.mem_filter, Finset.mem_range, Finset.mem_range, lt_min_iff]
    exact and_congr_right fun hx => by rw [Nat.mod_eq_of_lt hx]
  rw [Nat.filter_Ico_card_eq_of_periodic n m _ hperiodic, Nat.count_eq_card_filter_range, hrange,
    Finset.card_range]

/-- Of as many subsequent answers of `rand` as the dice have values, those with a job get fewer by
one with each count from `ANTIDOS_COUNT_LOW` to `ANTIDOS_COUNT_HIGH`. -/
theorem sendsFor_card (V : VectorLib) (s : State) (srcIp : InAddr) (query query' : Query)
    (mac : EtherAddr) (job : EtherAddr → Query → RequestInfo) (a : Answers) (n : Nat)
    (hmac : getMac V s.cfg.lst query a.rand a.time = (some mac, query'))
    (hover : s.antiDos.isOversized = false) (hsent : a.sent = true) :
    ((Finset.Ico n (n + (antidosCountHigh - antidosCountLow))).filter
        fun dice => sendsFor V s srcIp query job a dice).card =
      min (antidosCountHigh - antidosCountLow)
        (antidosCountHigh - (s.antiDos.registerIP V srcIp a.clock).1) := by
  have hsends : ∀ dice, sendsFor V s srcIp query job a dice = true ↔
      dice % (antidosCountHigh - antidosCountLow) <
        antidosCountHigh - (s.antiDos.registerIP V srcIp a.clock).1 := by
    intro dice
    rw [sendsFor_eq job hmac hover hsent, Bool.not_eq_true', isDOS_eq_false_iff]
  simp only [hsends]
  exact card_filter_mod_lt n _ _

/-- The rule `0.0.0.0/0` is loaded, and 0.0.0.9 has made 49 requests. -/
def busySource : State :=
  { start loadedRule (fun _ => 0) with
    antiDos := { minTime := 0, data := [{ ip := 9, accessTime := 0, counter := 49 }] } }

/-- The 50th request leads to a job for half of the answers. -/
theorem sendsFor_card_busySource :
    ((Finset.Ico 100 (100 + (antidosCountHigh - antidosCountLow))).filter fun dice =>
        sendsFor referenceVector busySource 9 ⟨.zero, 5, none, none⟩
          (fun mac _ => ⟨(Buffer.receive (fun _ => 0) []).arp, mac, .jobDST, none⟩)
          ⟨0, 0, 0, 0, true⟩ dice).card = 30 :=
  sendsFor_card referenceVector busySource 9 ⟨.zero, 5, none, none⟩ _ _ _
    ⟨0, 0, 0, 0, true⟩ 100 rfl rfl rfl

end IpSentinel.MainLoop

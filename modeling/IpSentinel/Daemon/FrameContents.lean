import IpSentinel.Daemon.Broadcast

/-!
# What the frames say

From the request in the buffer of the main process to the frames of the worker.
`request_frames` lists the frames of a job: the regular reply announces the requested address with
the MAC that the lookup returned, three equal copies of it are queued, and the two poisoned copies
announce the address of the sender.
-/

set_option autoImplicit false

namespace IpSentinel.Daemon

open Foundation PriorityQueue BlackList MainLoop Worker

/-- The function that generates the job of a type. -/
def generateJobFor (V : VectorLib) (type : JobType) (msg : EtherArp) (s : MainLoop.State)
    (a : Answers) : Option MainLoop.State :=
  match type with
  | .jobDST => generateJobToIntruder V msg s a
  | .jobSRC => generateJobFromIntruder V msg s a

/-- An ARP reply for IPv4 in an Ethernet frame to `dhost`: `spa` is at `sha`, to the target
(`tha`, `tpa`). -/
structure IsReply (packet : Packet) (dhost : EtherAddr) (spa : InAddr) (sha : EtherAddr)
    (tpa : InAddr) (tha : EtherAddr) : Prop where
  etherType : packet.message.header.etherType = htons ethPArp
  etherDhost : packet.message.header.etherDhost = dhost
  eaHdr : packet.message.data.eaHdr =
    { arHrd := htons arphrdEther
      arPro := htons ethertypeIp
      arHln := etherAddrLen
      arPln := 4
      arOp := htons arpopReply }
  arpSha : packet.message.data.arpSha = sha
  arpSpa : packet.message.data.arpSpa = spa
  arpTha : packet.message.data.arpTha = tha
  arpTpa : packet.message.data.arpTpa = tpa

/-- The socket address is that of a host on the link. -/
structure IsSentTo (address : SockaddrLl) (dhost : EtherAddr) : Prop where
  sllFamily : address.sllFamily = afPacket
  sllHalen : address.sllHalen = etherAddrLen
  sllAddr : address.sllAddr = dhost.octet ++ (Vector.replicate 2 0 : Vector UInt8 2)

/-- The frames of a request `msg`: `fake` is the address the lookup returned, `entry` the entry that
decided it, and `regular` and `poisoned` the two frames. -/
structure RequestFrames (worker : Worker) (type : JobType) (msg : EtherArp) (now : Int)
    (fake : EtherAddr) (entry : BaseData) (regular poisoned : Packet) (w w' : Worker.State) :
    Prop where
  isReply : IsReply regular (replyDhost type msg) msg.arpTpa fake msg.arpSpa msg.arpSha
  isSentTo : IsSentTo regular.address (replyDhost type msg)
  isPoisoned : worker.doPoison ∧ type = .jobSRC → IsReply poisoned .bcast msg.arpSpa
    (if entry.atmac.status = .amNEGATIVE then entry.atmac.mac else fake) 0 .bcast
  answered : ∃ received warning, w'.log = w.log ++ received :: .answered regular :: warning
  queued : w'.queue.contents =
    ↑([{ regular with scheduleTime := now + 2 }, { regular with scheduleTime := now + 5 },
        { regular with scheduleTime := now + 60 }] ++
      if worker.doPoison ∧ type = .jobSRC then
        [{ poisoned with scheduleTime := now + 5 }, { poisoned with scheduleTime := now + 60 }]
      else [] : List ScheduleInfo) + w.queue.contents

/-! ## The job of a request -/

/-- The job of a type for a request, made of what the lookup leaves. -/
def jobFor (type : JobType) (msg : EtherArp) (mac : EtherAddr) (query : Query) : RequestInfo where
  request := msg
  mac := mac
  type := type
  poisonMac :=
    match type with
    | .jobDST => none
    | .jobSRC => query.poisonMac

/-- A job that is sent is made of what the lookup answers. -/
theorem generateJob_sent {V : VectorLib} {s t : MainLoop.State} {srcIp : InAddr} {query : Query}
    {job : EtherAddr → Query → RequestInfo} {a : Answers} {sent : SentJob}
    (h : generateJob V s srcIp query job a = some t) (hlog : t.log = s.log ++ [sent]) :
    ∃ mac query', getMac V s.cfg.lst query a.rand a.time = (some mac, query') ∧
      sent.job = job mac query' := by
  have hnot : t.log ≠ s.log := by
    rw [hlog]
    simp
  obtain ⟨-, -, ⟨-, hsame⟩ | ⟨-, -, hsame | ⟨mac, query', hmac, hnew⟩⟩⟩ := generateJob_cases h
  · exact absurd hsame hnot
  · exact absurd hsame hnot
  · rw [hlog] at hnew
    obtain rfl := List.head_eq_of_cons_eq (List.append_cancel_left hnew)
    exact ⟨mac, query', hmac, rfl⟩

/-- What a job says about the request and the lookup. -/
theorem generateJobFor_sent {V : VectorLib} {type : JobType} {msg : EtherArp}
    {s t : MainLoop.State} {a : Answers} {sent : SentJob}
    (h : generateJobFor V type msg s a = some t) (hlog : t.log = s.log ++ [sent]) :
    ∃ mac query', getMac V s.cfg.lst (queryFor type msg) a.rand a.time = (some mac, query') ∧
      sent.job = jobFor type msg mac query' := by
  cases type with
  | jobDST => exact generateJob_sent h hlog
  | jobSRC =>
    simp only [generateJobFor, generateJobFromIntruder] at h
    split_ifs at h
    · -- nothing is sent
      cases h
      simp at hlog
    · exact generateJob_sent h hlog

/-- When a request leads to a job and the worker reads it, the frames are those of the request. -/
theorem request_frames (V : VectorLib) (plat : Platform) (worker : Worker) (type : JobType)
    (msg : EtherArp) (s t : MainLoop.State) (a : Answers) (sent : SentJob) (w w' : Worker.State)
    (d : Delivery) (hjob : generateJobFor V type msg s a = some t)
    (hlog : t.log = s.log ++ [sent]) (hread : d.request = some sent.job)
    (hworker : scheduleNewJob plat worker w d = some w') :
    ∃ fake entry regular poisoned,
      (getMac V s.cfg.lst (queryFor type msg) a.rand a.time).1 = some fake ∧
      decidingEntry V s.cfg.lst (queryFor type msg) = some entry ∧
      RequestFrames worker type msg d.now fake entry regular poisoned w w' := by
  obtain ⟨fake, query', hmac, hsent⟩ := generateJobFor_sent hjob hlog
  have hfake := congrArg Prod.fst hmac
  have hpoisonMac : (queryFor type msg).poisonMac = none := by
    cases type <;> rfl
  obtain ⟨entry, hentry, hlegitimate⟩ := exists_decidingEntry hpoisonMac hfake
  rw [hmac] at hlegitimate
  -- the worker has read the job that the request has led to
  rcases scheduleNewJob_some hworker with ⟨hnone, -, -⟩ |
    ⟨rq, regular, warning, hrq, hfill, hinsert, -, hlog'⟩
  · rw [hread] at hnone
    cases hnone
  obtain rfl : sent.job = rq := by
    rw [hread] at hrq
    exact Option.some.inj hrq
  have hqueued := contents_insertAll hinsert
  obtain ⟨shost, hregular⟩ := regular_eq ⟨d.rand, d.time, hfill⟩
  rw [hsent] at hregular
  refine ⟨fake, entry, regular,
    (poisonJob { regular with scheduleTime := 0 } sent.job).2.toPacket, hfake, hentry, ?_⟩
  constructor
  · rw [hregular]
    exact ⟨rfl, rfl, rfl, rfl, rfl, rfl, rfl⟩
  · rw [hregular]
    exact ⟨rfl, rfl, rfl⟩
  · rintro ⟨-, rfl⟩
    -- the lookup has kept the MAC of an `@!` part for the poisoned reply
    have hsha : query'.poisonMac.getD fake =
        if entry.atmac.status = .amNEGATIVE then entry.atmac.mac else fake := by
      have hpoison : query'.poisonMac = entry.poison := hlegitimate
      rw [hpoison, BaseData.poison]
      split_ifs <;> rfl
    rw [hsent, hregular]
    exact ⟨rfl, rfl, rfl, hsha, rfl, rfl, rfl⟩
  · exact ⟨_, warning, hlog'⟩
  · rw [hqueued, copies, hsent]
    cases type with
    | jobDST => rfl
    | jobSRC => rfl

/-- The MAC that 0.0.0.9 may be used with. -/
def ownerMac : EtherAddr := ⟨#v[0, 2, 4, 6, 8, 11]⟩

/-- The rule `0.0.0.9@!0:2:4:6:8:b`, as the list of the addresses holds it. -/
def ownedHost : ReloadState where
  lst :=
    { ipList :=
        [{ v :=
            { ip := ntohl 9
              status := .blRAND
              mac := .zero
              atmac := ⟨ownerMac, .amNEGATIVE⟩
              decided := blRAND_decided } }]
      netList := []
      lastMtime := 5 }
  errorCount := 0

/-- The request of 0.0.0.9 for 0.0.0.1 with another MAC: the poisoned copies announce the MAC of the
rule, and the reply the random one. -/
theorem request_frames_ownedHost :
    ∃ w w' entry regular poisoned, Worker.init lp64 sampleMem 96 = some w ∧
      RequestFrames sampleSetting.worker .jobSRC (jobFrom ⟨#v[0, 2, 4, 6, 8, 10]⟩ 1).request 0
        (setRandomMac 0 0) entry regular poisoned w w' ∧
      poisoned.message.data.arpSha = ownerMac ∧ ownerMac ≠ setRandomMac 0 0 := by
  obtain ⟨w, w', hw, hw'⟩ : ∃ w w', Worker.init lp64 sampleMem 96 = some w ∧
      scheduleNewJob lp64 sampleSetting.worker w
        ⟨0, some { jobFrom ⟨#v[0, 2, 4, 6, 8, 10]⟩ 1 with poisonMac := some ownerMac }, 0, 0,
          true⟩ = some w' := ⟨_, _, rfl, rfl⟩
  obtain ⟨fake, entry, regular, poisoned, hfake, hentry, hframes⟩ :=
    request_frames referenceVector lp64 sampleSetting.worker .jobSRC
      (jobFrom ⟨#v[0, 2, 4, 6, 8, 10]⟩ 1).request (MainLoop.start ownedHost fun _ => 0) _
      ⟨0, 0, 0, 0, true⟩ _ w w' _ rfl rfl rfl hw'
  obtain rfl : setRandomMac 0 0 = fake := Option.some.inj (Eq.trans rfl hfake)
  have hat : entry.atmac = ⟨ownerMac, .amNEGATIVE⟩ := by
    cases Option.some.inj (Eq.trans rfl hentry)
    rfl
  have hsha := (hframes.isPoisoned ⟨rfl, rfl⟩).arpSha
  rw [hat, if_pos rfl] at hsha
  exact ⟨w, w', entry, regular, poisoned, hw, hframes, hsha, by decide⟩

end IpSentinel.Daemon

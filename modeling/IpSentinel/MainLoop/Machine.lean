import IpSentinel.AntiDOS.Table
import IpSentinel.BlackList.Reload
import IpSentinel.Net.Buffer
import IpSentinel.Worker.Machine

/-!
# The main loop as a machine

`run` of `ip-sentinel.c` with the functions that generate the jobs, as a step function: one step is
one iteration of the loop, and its input is what the operating system answers on the way. The state
has a log of the jobs written into the pipe, each with the lookup it comes from.

`generateJob_cases` lists what the generation of a job can do, and `step_cases` what an iteration
does; the later modules derive their invariants from these two.
-/

set_option autoImplicit false

namespace IpSentinel.MainLoop

open Foundation BlackList

/-- The option `arp_dir`. -/
inductive ArpDir where
  | dirFROM
  | dirTO
  | dirBOTH
  deriving DecidableEq, Repr

/-- The number behind the enumerator. -/
def ArpDir.value : ArpDir → Nat
  | .dirFROM => 1
  | .dirTO => 2
  | .dirBOTH => 3

/-- A job in the pipe, with the blacklist, the query and the readings of the lookup that produced
it. -/
structure SentJob where
  lst : BlackList
  query : Query
  rand : Nat
  time : Int
  job : RequestInfo
  deriving DecidableEq

/-- The variables of `run`, and the static counter of `Worker_sendJob`. -/
structure State where
  cfg : ReloadState
  antiDos : AntiDOS
  errorCount : Nat
  buffer : Buffer
  oversizeSleep : Nat
  sendErrors : Nat
  log : List SentJob

/-- What the generation of a job meets: the readings of `Util_setRandomMac`, the clock of
`AntiDOS_registerIP`, what `rand` answers in `isDOS`, and whether `write` takes the whole job. -/
structure Answers where
  rand : Nat
  time : Int
  clock : Int
  dice : Nat
  sent : Bool

/-- What one iteration meets: the clock of `AntiDOS_update`, the frame unless `recvfrom` fails, the
reload with the function that `do_reload` selects, and the generation of both jobs. -/
structure Input where
  clock : Int
  received : Option Frame
  attempt : Attempt
  toIntruder : Answers
  fromIntruder : Answers

/-! ## The functions of the source -/

/-- `isDOS`; `dice` is what `rand` answers. -/
def isDOS (count dice : Nat) : Bool :=
  (count > antidosCountLow ∧ count ≤ antidosCountHigh ∧
    dice % (antidosCountHigh - antidosCountLow) ≥ antidosCountHigh - count) ∨
  count > antidosCountHigh

/-- `Worker_sendJob`. -/
def sendJob (s : State) (job : SentJob) (sent : Bool) : Option State :=
  if sent then some { s with sendErrors := 0, log := s.log ++ [job] }
  else (Worker.countError s.sendErrors).map fun n => { s with sendErrors := n }

/-- What `generateJobToIntruder` and `generateJobFromIntruder` have in common: the lookup, the
limits, and the job made of the address and the query that the lookup leaves. -/
def generateJob (V : VectorLib) (s : State) (srcIp : InAddr) (query : Query)
    (job : EtherAddr → Query → RequestInfo) (a : Answers) : Option State :=
  match getMac V s.cfg.lst query a.rand a.time with
  | (none, _) => some s
  | (some mac, query') =>
    if s.antiDos.isOversized then some { s with oversizeSleep := min (s.oversizeSleep + 1) 10 }
    else
      let r := s.antiDos.registerIP V srcIp a.clock
      let s := { s with oversizeSleep := 1, antiDos := r.2 }
      if isDOS r.1 a.dice then some s
      else
        sendJob s { lst := s.cfg.lst, query, rand := a.rand, time := a.time, job := job mac query' }
          a.sent

/-- The query for the requested address. -/
def queryTo (msg : EtherArp) : Query :=
  { resultBuffer := .zero, ip := msg.arpTpa, mac := none, poisonMac := none }

/-- The query for the sender. -/
def queryFrom (msg : EtherArp) : Query :=
  { resultBuffer := .zero, ip := msg.arpSpa, mac := some msg.arpSha, poisonMac := none }

def generateJobToIntruder (V : VectorLib) (msg : EtherArp) (s : State) (a : Answers) :
    Option State :=
  generateJob V s msg.arpSpa (queryTo msg)
    (fun mac _ => { request := msg, mac, type := .jobDST, poisonMac := none }) a

def generateJobFromIntruder (V : VectorLib) (msg : EtherArp) (s : State) (a : Answers) :
    Option State :=
  -- 0.0.0.0 is used for the detection of duplicate addresses
  if (queryFrom msg).ip = 0 then some s
  else
    generateJob V s (queryFrom msg).ip (queryFrom msg)
      (fun mac query => { request := msg, mac, type := .jobSRC, poisonMac := query.poisonMac }) a

section Step

variable (env : ExpandEnv) (V : VectorLib) (testsuite : Bool) (arpDir : ArpDir)

/-- The end of an iteration, for a request in the buffer. -/
def handleRequest (s : State) (i : Input) : Option State := do
  let cfg ← reload env V testsuite s.cfg i.attempt
  let s := { s with cfg }
  let msg := s.buffer.arp
  let s ← (if arpDir.value &&& ArpDir.dirTO.value ≠ 0 then
      generateJobToIntruder V msg s i.toIntruder
    else some s)
  if arpDir.value &&& ArpDir.dirFROM.value ≠ 0 then
    generateJobFromIntruder V msg s i.fromIntruder
  else some s

/-- An iteration of the loop of `run`. The length of the frame is not looked at. -/
def step (s : State) (i : Input) : Option State :=
  let s := { s with antiDos := s.antiDos.update V i.clock }
  match i.received with
  | none => (Worker.countError s.errorCount).map fun n => { s with errorCount := n }
  | some frame =>
    let s := { s with errorCount := 0, buffer := s.buffer.receive frame.bytes }
    if ntohs frame.protocol ≠ ethertypeArp then some s
    else if ntohs s.buffer.arp.eaHdr.arOp ≠ arpopRequest then some s
    else handleRequest env V testsuite arpDir s i

end Step

/-- The state in front of the loop; the buffer is not initialised. -/
def start (cfg : ReloadState) (buffer : Buffer) : State :=
  { cfg, antiDos := .init, errorCount := 0, buffer, oversizeSleep := 1, sendErrors := 0, log := [] }

/-- `BlackList_init` reads the configuration. -/
def init (env : ExpandEnv) (V : VectorLib) (testsuite : Bool) (stat : Option Int)
    (opened : Option Reads) (buffer : Buffer) : Option State :=
  (reload env V testsuite ⟨⟨[], [], 0⟩, 0⟩ ⟨.update, stat, opened⟩).map fun cfg => start cfg buffer

/-! ## What the functions do -/

section Cases

variable {env : ExpandEnv} {V : VectorLib} {testsuite : Bool} {arpDir : ArpDir}

theorem sendJob_cases {s t : State} {job : SentJob} {sent : Bool}
    (h : sendJob s job sent = some t) :
    t.cfg = s.cfg ∧ t.buffer = s.buffer ∧ t.antiDos = s.antiDos ∧
      (t.log = s.log ∨ t.log = s.log ++ [job]) := by
  rw [sendJob] at h
  split_ifs at h
  · cases h
    exact ⟨rfl, rfl, rfl, Or.inr rfl⟩
  · obtain ⟨n, -, rfl⟩ := Option.map_eq_some_iff.1 h
    exact ⟨rfl, rfl, rfl, Or.inl rfl⟩

/-- What the generation of a job can do: nothing, or a guarded call of `AntiDOS_registerIP`, behind
which the job may be sent. -/
theorem generateJob_cases {s t : State} {srcIp : InAddr} {query : Query}
    {job : EtherAddr → Query → RequestInfo} {a : Answers}
    (h : generateJob V s srcIp query job a = some t) :
    t.cfg = s.cfg ∧ t.buffer = s.buffer ∧
      ((t.antiDos = s.antiDos ∧ t.log = s.log) ∨
        s.antiDos.isOversized = false ∧ t.antiDos = (s.antiDos.registerIP V srcIp a.clock).2 ∧
          (t.log = s.log ∨
            ∃ mac query', getMac V s.cfg.lst query a.rand a.time = (some mac, query') ∧
              t.log = s.log ++
                [{ lst := s.cfg.lst, query, rand := a.rand, time := a.time
                   job := job mac query' }])) := by
  rw [generateJob] at h
  split at h
  · -- the lookup answers null
    cases h
    exact ⟨rfl, rfl, Or.inl ⟨rfl, rfl⟩⟩
  · next mac query' hmac =>
    dsimp only at h
    split_ifs at h with hover
    · cases h
      exact ⟨rfl, rfl, Or.inl ⟨rfl, rfl⟩⟩
    · cases h
      exact ⟨rfl, rfl, Or.inr ⟨eq_false_of_ne_true hover, rfl, Or.inl rfl⟩⟩
    · obtain ⟨hcfg, hbuffer, hdos, hlog⟩ := sendJob_cases h
      refine ⟨hcfg, hbuffer, Or.inr ⟨eq_false_of_ne_true hover, hdos, ?_⟩⟩
      rcases hlog with hlog | hlog
      · exact Or.inl hlog
      · exact Or.inr ⟨mac, query', hmac, hlog⟩

/-- A lookup that answers, below the limits and with a pipe that takes the job. -/
theorem generateJob_of_sent {s : State} {srcIp : InAddr} {query query' : Query} {mac : EtherAddr}
    {a : Answers} (job : EtherAddr → Query → RequestInfo)
    (hmac : getMac V s.cfg.lst query a.rand a.time = (some mac, query'))
    (hover : s.antiDos.isOversized = false)
    (hdos : isDOS (s.antiDos.registerIP V srcIp a.clock).1 a.dice = false) (hsent : a.sent = true) :
    generateJob V s srcIp query job a = some { s with
      antiDos := (s.antiDos.registerIP V srcIp a.clock).2
      oversizeSleep := 1
      sendErrors := 0
      log := s.log ++
        [{ lst := s.cfg.lst, query, rand := a.rand, time := a.time, job := job mac query' }] } := by
  simp only [generateJob, hmac, hover, hdos, hsent, sendJob, Bool.false_eq_true, if_false, if_true]

/-- The state behind `recvfrom`. -/
def State.received (V : VectorLib) (s : State) (i : Input) (frame : Frame) : State :=
  { s with
    antiDos := s.antiDos.update V i.clock
    errorCount := 0
    buffer := s.buffer.receive frame.bytes }

/-- A frame that is no request ends the iteration. -/
theorem step_of_other {s : State} {i : Input} {frame : Frame} (h : i.received = some frame)
    (hother : ntohs frame.protocol ≠ ethertypeArp ∨
      ntohs (s.buffer.receive frame.bytes).arp.eaHdr.arOp ≠ arpopRequest) :
    step env V testsuite arpDir s i = some (s.received V i frame) := by
  simp only [step, h]
  split_ifs with hprotocol hop
  · rfl
  · rfl
  · exact absurd hother (not_or_intro hprotocol hop)

/-- An ARP request is handled. -/
theorem step_of_request {s : State} {i : Input} {frame : Frame} (h : i.received = some frame)
    (hprotocol : ntohs frame.protocol = ethertypeArp)
    (hop : ntohs (s.buffer.receive frame.bytes).arp.eaHdr.arOp = arpopRequest) :
    step env V testsuite arpDir s i =
      handleRequest env V testsuite arpDir (s.received V i frame) i := by
  simp only [step, h]
  rw [if_neg (not_not.2 hprotocol), if_neg (not_not.2 hop)]
  rfl

/-- What an iteration can do: it ends before the request, or it reloads the blacklist and generates
the jobs of one or both directions. -/
theorem step_cases {s t : State} {i : Input} (h : step env V testsuite arpDir s i = some t) :
    (t.cfg = s.cfg ∧ t.antiDos = s.antiDos.update V i.clock ∧ t.log = s.log) ∨
    ∃ frame cfg u, i.received = some frame ∧
      reload env V testsuite s.cfg i.attempt = some cfg ∧
      (u = { s.received V i frame with cfg } ∨
        generateJobToIntruder V (s.buffer.receive frame.bytes).arp
          { s.received V i frame with cfg } i.toIntruder = some u) ∧
      (t = u ∨
        generateJobFromIntruder V (s.buffer.receive frame.bytes).arp u i.fromIntruder =
          some t) := by
  cases hreceived : i.received with
  | none =>
    simp only [step, hreceived] at h
    obtain ⟨n, -, rfl⟩ := Option.map_eq_some_iff.1 h
    exact Or.inl ⟨rfl, rfl, rfl⟩
  | some frame =>
    by_cases hother : ntohs frame.protocol ≠ ethertypeArp ∨
        ntohs (s.buffer.receive frame.bytes).arp.eaHdr.arOp ≠ arpopRequest
    · rw [step_of_other hreceived hother] at h
      cases h
      exact Or.inl ⟨rfl, rfl, rfl⟩
    · obtain ⟨hprotocol, hop⟩ := not_or.1 hother
      rw [step_of_request hreceived (not_not.1 hprotocol) (not_not.1 hop)] at h
      simp only [handleRequest, Option.bind_eq_bind, Option.bind_eq_some_iff] at h
      obtain ⟨cfg, hcfg, u, hu, ht⟩ := h
      refine Or.inr ⟨frame, cfg, u, rfl, hcfg, ?_, ?_⟩
      · split_ifs at hu
        · exact Or.inr hu
        · cases hu
          exact Or.inl rfl
      · split_ifs at ht
        · exact Or.inr ht
        · cases ht
          exact Or.inl rfl

/-! ## Where jobs come from -/

/-- The query for the job of a type that a request makes. -/
def queryFor (type : JobType) (msg : EtherArp) : Query :=
  match type with
  | .jobDST => queryTo msg
  | .jobSRC => queryFrom msg

/-- The job is what the lookup says about the address it asks for. -/
structure SentJob.Sound (V : VectorLib) (sent : SentJob) : Prop where
  query : sent.query = queryFor sent.job.type sent.job.request
  mac : (getMac V sent.lst sent.query sent.rand sent.time).1 = some sent.job.mac
  poison : sent.job.poisonMac =
    match sent.job.type with
    | .jobDST => none
    | .jobSRC => (getMac V sent.lst sent.query sent.rand sent.time).2.poisonMac

theorem generateJobToIntruder_log {msg : EtherArp} {s t : State} {a : Answers}
    (h : generateJobToIntruder V msg s a = some t) :
    ∃ new, t.log = s.log ++ new ∧ ∀ sent ∈ new, sent.Sound V := by
  obtain ⟨-, -, ⟨-, hlog⟩ | ⟨-, -, hlog | ⟨mac, query', hmac, hlog⟩⟩⟩ := generateJob_cases h
  · exact ⟨[], by rw [hlog, List.append_nil], List.forall_mem_nil _⟩
  · exact ⟨[], by rw [hlog, List.append_nil], List.forall_mem_nil _⟩
  · refine ⟨_, hlog, fun sent hsent => ?_⟩
    rw [List.mem_singleton.1 hsent]
    exact ⟨rfl, congrArg Prod.fst hmac, rfl⟩

theorem generateJobFromIntruder_log {msg : EtherArp} {s t : State} {a : Answers}
    (h : generateJobFromIntruder V msg s a = some t) :
    ∃ new, t.log = s.log ++ new ∧ ∀ sent ∈ new, sent.Sound V := by
  rw [generateJobFromIntruder] at h
  split_ifs at h
  · cases h
    exact ⟨[], (List.append_nil _).symm, List.forall_mem_nil _⟩
  · obtain ⟨-, -, ⟨-, hlog⟩ | ⟨-, -, hlog | ⟨mac, query', hmac, hlog⟩⟩⟩ := generateJob_cases h
    · exact ⟨[], by rw [hlog, List.append_nil], List.forall_mem_nil _⟩
    · exact ⟨[], by rw [hlog, List.append_nil], List.forall_mem_nil _⟩
    · refine ⟨_, hlog, fun sent hsent => ?_⟩
      rw [List.mem_singleton.1 hsent]
      exact ⟨rfl, congrArg Prod.fst hmac, (congrArg (fun r => r.2.poisonMac) hmac).symm⟩

/-- An iteration adds jobs to the log that say what their lookup says. -/
theorem step_log {s t : State} {i : Input} (h : step env V testsuite arpDir s i = some t) :
    ∃ new, t.log = s.log ++ new ∧ ∀ sent ∈ new, sent.Sound V := by
  rcases step_cases h with ⟨-, -, hlog⟩ | ⟨frame, cfg, u, -, -, hto, hfrom⟩
  · exact ⟨[], by rw [hlog, List.append_nil], List.forall_mem_nil _⟩
  · obtain ⟨new, hu, hnew⟩ : ∃ new, u.log = s.log ++ new ∧ ∀ sent ∈ new, sent.Sound V := by
      rcases hto with rfl | hto
      · exact ⟨[], (List.append_nil _).symm, List.forall_mem_nil _⟩
      · obtain ⟨new, hu, hnew⟩ := generateJobToIntruder_log hto
        exact ⟨new, hu, hnew⟩
    rcases hfrom with rfl | hfrom
    · exact ⟨new, hu, hnew⟩
    · obtain ⟨new', ht, hnew'⟩ := generateJobFromIntruder_log hfrom
      refine ⟨new ++ new', by rw [ht, hu, List.append_assoc], fun sent hsent => ?_⟩
      exact (List.mem_append.1 hsent).elim (hnew sent) (hnew' sent)

end Cases

end IpSentinel.MainLoop

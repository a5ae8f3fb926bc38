import IpSentinel.AntiDOS.Reference
import IpSentinel.Foundation.Simulation
import IpSentinel.MainLoop.IdealCounters
import IpSentinel.MainLoop.Leftovers
import IpSentinel.MainLoop.RequestJobs

/-!
# Sources are isolated

While the configuration stays, the pipe takes the jobs and the table has room, what the main loop
sends for the requests of one source address does not depend on the other frames: a run that is
given the requests of the address only sends the same jobs, with the same answers
(`jobs_of_source`). So no host can keep the program from answering another one.
-/

set_option autoImplicit false

namespace IpSentinel.MainLoop

open Foundation BlackList AntiDOS

/-- The message of a frame that reaches to its end. -/
def messageIn (frame : Frame) : EtherArp := (Buffer.receive (fun _ => 0) frame.bytes).arp

/-- The input brings an ARP request of the source. -/
def Input.From (a : InAddr) (i : Input) : Prop :=
  ∃ frame ∈ i.received, ntohs frame.protocol = ethertypeArp ∧
    ntohs (messageIn frame).eaHdr.arOp = arpopRequest ∧ (messageIn frame).arpSpa = a

instance decidableFrom (a : InAddr) (i : Input) : Decidable (i.From a) :=
  inferInstanceAs (Decidable (∃ frame ∈ i.received, _))

/-- The job answers a request of the source. -/
def SentJob.For (a : InAddr) (sent : SentJob) : Prop := sent.job.request.arpSpa = a

instance decidableFor (a : InAddr) (sent : SentJob) : Decidable (sent.For a) :=
  inferInstanceAs (Decidable (_ = _))

/-- The frame is read as received, the reload leaves the configuration as it is, and the pipe takes
the jobs. -/
structure Quiet (env : ExpandEnv) (V : VectorLib) (testsuite : Bool) (cfg : ReloadState)
    (i : Input) : Prop where
  whole : ∀ frame ∈ i.received, ReadsReceived frame
  unchanged : reload env V testsuite cfg i.attempt = some cfg
  toIntruder : i.toIntruder.sent = true
  fromIntruder : i.fromIntruder.sent = true

/-- A request that is read as received is whole. -/
theorem length_of_request {frame : Frame} (h : ReadsReceived frame) {b : Buffer}
    (hprotocol : ntohs frame.protocol = ethertypeArp)
    (hop : ntohs (b.receive frame.bytes).arp.eaHdr.arOp = arpopRequest) :
    42 ≤ frame.bytes.length := by
  rcases h with hother | hlength | hnot
  · exact absurd hprotocol hother
  · exact hlength
  · exact absurd hop (not_request_of_received hnot b)

/-! ## One source -/

/-- What the generation of a job sends for a source with the pair `ref`, and the pair behind it. -/
def answer (V : VectorLib) (lst : BlackList) (ref : Option (Int × Nat)) (query : Query)
    (job : EtherAddr → Query → RequestInfo) (x : Answers) : List SentJob × Option (Int × Nat) :=
  match getMac V lst query x.rand x.time with
  | (none, _) => ([], ref)
  | (some mac, query') =>
    if isDOS (refRegister ref x.clock).2 x.dice then ([], some (refRegister ref x.clock))
    else
      ([{ lst, query, rand := x.rand, time := x.time, job := job mac query' }],
        some (refRegister ref x.clock))

/-- All entries are of the address. -/
def OnlyFrom (a : InAddr) (dos : AntiDOS) : Prop := ∀ d ∈ dos.data, d.ip = a

theorem OnlyFrom.length_le {a : InAddr} {dos : AntiDOS} (h : OnlyFrom a dos)
    (hasc : dos.IsAscending) : dos.data.length ≤ 1 := by
  match hdata : dos.data with
  | [] => exact Nat.zero_le 1
  | [d] => exact Nat.le_refl 1
  | d :: e :: rest =>
    have hd : d.ip = a := h d (by simp [hdata])
    have he : e.ip = a := h e (by simp [hdata])
    rw [IsAscending, hdata] at hasc
    have hlt := (List.pairwise_cons.1 hasc).1 e List.mem_cons_self
    rw [key_eq_iff.2 (hd.trans he.symm)] at hlt
    exact absurd hlt (lt_irrefl _)

variable {env : ExpandEnv} {V : VectorLib} {testsuite : Bool} {arpDir : ArpDir}

/-- From `s` to `t` the source `a` is given `r`: its jobs, and the pair in the table at `now`. -/
structure Serves (a : InAddr) (s : State) (r : List SentJob × Option (Int × Nat)) (now : Int)
    (t : State) : Prop where
  cfg : t.cfg = s.cfg
  log : t.log = s.log ++ r.1
  tracks : Tracks a t.antiDos r.2 now
  only : OnlyFrom a s.antiDos → OnlyFrom a t.antiDos

/-- Nothing is asked. -/
theorem serves_nothing {a : InAddr} {s : State} {ref : Option (Int × Nat)} {now : Int}
    (h : Tracks a s.antiDos ref now) : Serves a s ([], ref) now s where
  cfg := rfl
  log := (List.append_nil _).symm
  tracks := h
  only := id

/-- The generation of a job gives its source what the pair of the source decides. -/
theorem generateJob_serves {a : InAddr} {s : State} {ref : Option (Int × Nat)} {now : Int}
    {x : Answers} (h : Tracks a s.antiDos ref now) (hle : now ≤ x.clock)
    (hroom : s.antiDos.data.length < antidosEntriesMax) (hsent : x.sent = true) (query : Query)
    (job : EtherAddr → Query → RequestInfo) :
    ∃ t, generateJob V s a query job x = some t ∧
      Serves a s (answer V s.cfg.lst ref query job x) x.clock t := by
  have ht := h.later hle
  obtain ⟨hvalue, hself⟩ := ht.registerIP_self V
  have honly : OnlyFrom a s.antiDos → OnlyFrom a (s.antiDos.registerIP V a x.clock).2 :=
    fun hold => forall_mem_registerIP V h.ascending hold rfl fun d _ hip => hip
  have hover := isOversized_eq_false hroom
  rw [generateJob, answer]
  cases hmac : getMac V s.cfg.lst query x.rand x.time with
  | mk mac query' =>
    cases mac with
    | none => exact ⟨s, rfl, serves_nothing ht⟩
    | some mac =>
      simp only [hover, Bool.false_eq_true, if_false, ← hvalue]
      by_cases hdos : isDOS (s.antiDos.registerIP V a x.clock).1 x.dice
      · rw [if_pos hdos, if_pos hdos]
        exact ⟨_, rfl, rfl, (List.append_nil _).symm, hself, honly⟩
      · rw [if_neg hdos, if_neg hdos, sendJob, if_pos hsent]
        exact ⟨_, rfl, rfl, rfl, hself, honly⟩

/-- The jobs are those of the request. -/
theorem mem_answer {lst : BlackList} {ref : Option (Int × Nat)} {query : Query}
    {job : EtherAddr → Query → RequestInfo} {x : Answers} {sent : SentJob}
    (h : sent ∈ (answer V lst ref query job x).1) : ∃ mac q, sent.job = job mac q := by
  rw [answer] at h
  split at h
  · cases h
  · next mac query' hmac =>
    split_ifs at h
    · cases h
    · rw [List.mem_singleton.1 h]
      exact ⟨mac, query', rfl⟩

/-- What a request is given by the job to the intruder. -/
def answerTo (V : VectorLib) (arpDir : ArpDir) (lst : BlackList) (msg : EtherArp) (i : Input)
    (ref : Option (Int × Nat)) : List SentJob × Option (Int × Nat) :=
  if arpDir.Sends .jobDST then
    answer V lst ref (queryTo msg) (fun mac _ => ⟨msg, mac, .jobDST, none⟩) i.toIntruder
  else ([], ref)

/-- What a request is given by the job from the intruder. -/
def answerFrom (V : VectorLib) (arpDir : ArpDir) (lst : BlackList) (msg : EtherArp) (i : Input)
    (ref : Option (Int × Nat)) : List SentJob × Option (Int × Nat) :=
  if arpDir.Sends .jobSRC then
    if msg.arpSpa = 0 then ([], ref)
    else
      answer V lst ref (queryFrom msg) (fun mac query => ⟨msg, mac, .jobSRC, query.poisonMac⟩)
        i.fromIntruder
  else ([], ref)

/-- What a request is given. -/
def answers (V : VectorLib) (arpDir : ArpDir) (lst : BlackList) (msg : EtherArp) (i : Input)
    (ref : Option (Int × Nat)) : List SentJob × Option (Int × Nat) :=
  let first := answerTo V arpDir lst msg i ref
  let second := answerFrom V arpDir lst msg i first.2
  (first.1 ++ second.1, second.2)

theorem answers_for (V : VectorLib) (arpDir : ArpDir) (lst : BlackList) (msg : EtherArp) (i : Input)
    (ref : Option (Int × Nat)) :
    ∀ sent ∈ (answers V arpDir lst msg i ref).1, sent.For msg.arpSpa := by
  intro sent hsent
  rcases List.mem_append.1 hsent with h | h
  · rw [answerTo] at h
    split_ifs at h
    · obtain ⟨mac, q, hjob⟩ := mem_answer h
      rw [SentJob.For, hjob]
    · cases h
  · rw [answerFrom] at h
    split_ifs at h
    · cases h
    · obtain ⟨mac, q, hjob⟩ := mem_answer h
      rw [SentJob.For, hjob]
    · cases h

theorem Serves.trans {a : InAddr} {s t u : State} {r r' : List SentJob × Option (Int × Nat)}
    {now now' : Int} (h : Serves a s r now t) (h' : Serves a t r' now' u) :
    Serves a s (r.1 ++ r'.1, r'.2) now' u where
  cfg := h'.cfg.trans h.cfg
  log := by rw [h'.log, h.log, List.append_assoc]
  tracks := h'.tracks
  only hold := h'.only (h.only hold)

theorem toIntruder_serves (V : VectorLib) (arpDir : ArpDir) {a : InAddr} {s : State}
    {ref : Option (Int × Nat)} {now : Int} {msg : EtherArp} {i : Input}
    (h : Tracks a s.antiDos ref now) (hmsg : msg.arpSpa = a)
    (hle : now ≤ i.toIntruder.clock) (hroom : s.antiDos.data.length + 1 < antidosEntriesMax)
    (hsent : i.toIntruder.sent = true) :
    ∃ t, (if arpDir.value &&& ArpDir.dirTO.value ≠ 0 then
          generateJobToIntruder V msg s i.toIntruder
        else some s) = some t ∧
      Serves a s (answerTo V arpDir s.cfg.lst msg i ref) i.toIntruder.clock t ∧
        t.antiDos.data.length < antidosEntriesMax := by
  have hlt := Nat.lt_of_succ_lt hroom
  by_cases hsends : arpDir.Sends .jobDST
  · have hbit : arpDir.value &&& ArpDir.dirTO.value ≠ 0 := hsends
    rw [if_pos hbit, answerTo, if_pos hsends, generateJobToIntruder, hmsg]
    obtain ⟨t, ht, hserves⟩ := generateJob_serves h hle hlt hsent (queryTo msg) _
    exact ⟨t, ht, hserves, (generateJob_room h.ascending ht).trans_lt hroom⟩
  · have hbit : ¬ arpDir.value &&& ArpDir.dirTO.value ≠ 0 := hsends
    rw [if_neg hbit, answerTo, if_neg hsends]
    exact ⟨s, rfl, serves_nothing (h.later hle), hlt⟩

theorem fromIntruder_serves (V : VectorLib) (arpDir : ArpDir) {a : InAddr} {s : State}
    {ref : Option (Int × Nat)} {now : Int} {msg : EtherArp} {i : Input}
    (h : Tracks a s.antiDos ref now) (hmsg : msg.arpSpa = a)
    (hle : now ≤ i.fromIntruder.clock) (hroom : s.antiDos.data.length < antidosEntriesMax)
    (hsent : i.fromIntruder.sent = true) :
    ∃ t, (if arpDir.value &&& ArpDir.dirFROM.value ≠ 0 then
          generateJobFromIntruder V msg s i.fromIntruder
        else some s) = some t ∧
      Serves a s (answerFrom V arpDir s.cfg.lst msg i ref) i.fromIntruder.clock t := by
  by_cases hsends : arpDir.Sends .jobSRC
  · have hbit : arpDir.value &&& ArpDir.dirFROM.value ≠ 0 := hsends
    rw [if_pos hbit, answerFrom, if_pos hsends, generateJobFromIntruder, queryFrom]
    by_cases hzero : msg.arpSpa = 0
    · rw [if_pos hzero, if_pos hzero]
      exact ⟨s, rfl, serves_nothing (h.later hle)⟩
    · rw [if_neg hzero, if_neg hzero]
      dsimp only
      rw [hmsg]
      exact generateJob_serves h hle hroom hsent _ _
  · have hbit : ¬ arpDir.value &&& ArpDir.dirFROM.value ≠ 0 := hsends
    rw [if_neg hbit, answerFrom, if_neg hsends]
    exact ⟨s, rfl, serves_nothing (h.later hle)⟩

/-- A request of the source in the buffer. -/
theorem handleRequest_serves {a : InAddr} {s : State} {ref : Option (Int × Nat)} {now : Int}
    {i : Input} (hquiet : Quiet env V testsuite s.cfg i) (hsource : s.buffer.arp.arpSpa = a)
    (h : Tracks a s.antiDos ref now) (hto : now ≤ i.toIntruder.clock)
    (hback : i.toIntruder.clock ≤ i.fromIntruder.clock)
    (hroom : s.antiDos.data.length + 1 < antidosEntriesMax) :
    ∃ t, handleRequest env V testsuite arpDir s i = some t ∧
      Serves a s (answers V arpDir s.cfg.lst s.buffer.arp i ref) i.fromIntruder.clock t := by
  obtain ⟨u, hu, hserves, hroom'⟩ :=
    toIntruder_serves V arpDir h hsource hto hroom hquiet.toIntruder
  obtain ⟨t, ht, hserves'⟩ :=
    fromIntruder_serves V arpDir hserves.tracks hsource hback hroom' hquiet.fromIntruder
  rw [hserves.cfg] at hserves'
  have hhandle : handleRequest env V testsuite arpDir s i = some t :=
    Option.bind_eq_some_iff.2 ⟨s.cfg, hquiet.unchanged, Option.bind_eq_some_iff.2 ⟨u, hu, ht⟩⟩
  exact ⟨t, hhandle, hserves.trans hserves'⟩

theorem serves_received (V : VectorLib) {a : InAddr} (ha : a ≠ deletionMark) {s : State}
    {ref : Option (Int × Nat)} {now : Int} {i : Input} (frame : Frame)
    (h : Tracks a s.antiDos ref now) (hle : now ≤ i.clock) :
    Serves a s ([], ref) i.clock (s.received V i frame) where
  cfg := rfl
  log := (List.append_nil _).symm
  tracks := (h.later hle).update V ha
  only hold d hd := hold d ((update_data_sublist V h.ascending i.clock).subset hd)

/-- A request of the source, in whatever buffer it is received. -/
theorem step_from {a : InAddr} (ha : a ≠ deletionMark) {s : State} {ref : Option (Int × Nat)}
    {now : Int} {i : Input} {frame : Frame} (hquiet : Quiet env V testsuite s.cfg i)
    (hreceived : frame ∈ i.received) (hprotocol : ntohs frame.protocol = ethertypeArp)
    (hop : ntohs (messageIn frame).eaHdr.arOp = arpopRequest)
    (hsource : (messageIn frame).arpSpa = a) (h : Tracks a s.antiDos ref now)
    (hclock : (now :: i.readings).Pairwise (· ≤ ·))
    (hroom : s.antiDos.data.length + 1 < antidosEntriesMax) :
    ∃ t, step env V testsuite arpDir s i = some t ∧
      Serves a s (answers V arpDir s.cfg.lst (messageIn frame) i ref) i.fromIntruder.clock t := by
  obtain ⟨hupdate, hto, hback⟩ := readings_le hclock
  -- the message does not depend on what the buffer held
  have hwhole := length_of_request (hquiet.whole frame hreceived) hprotocol hop
  have harp : (s.received V i frame).buffer.arp = messageIn frame := arp_receive hwhole _ _
  have hbegin := serves_received V ha frame h hupdate
  have hlength := (update_data_sublist V h.ascending i.clock).length_le
  rw [← harp] at hop hsource ⊢
  obtain ⟨t, ht, hserves⟩ := handleRequest_serves (s := s.received V i frame) hquiet hsource
    hbegin.tracks hto hback ((Nat.succ_le_succ hlength).trans_lt hroom)
  exact ⟨t, (step_of_request hreceived hprotocol hop).trans ht, hbegin.trans hserves⟩

/-! ## Other inputs -/

/-- From `s` to `t` nothing happens to the source. -/
structure PassesBy (a : InAddr) (s : State) (ref : Option (Int × Nat)) (now : Int) (t : State) :
    Prop where
  cfg : t.cfg = s.cfg
  tracks : Tracks a t.antiDos ref now
  log : t.log.filter (fun sent => sent.For a) = s.log.filter fun sent => sent.For a

theorem PassesBy.trans {a : InAddr} {s t u : State} {ref : Option (Int × Nat)} {now now' : Int}
    (h : PassesBy a s ref now t) (h' : PassesBy a t ref now' u) : PassesBy a s ref now' u :=
  ⟨h'.cfg.trans h.cfg, h'.tracks, h'.log.trans h.log⟩

theorem passesBy_of_tracks {a : InAddr} {s : State} {ref : Option (Int × Nat)} {now : Int}
    (h : Tracks a s.antiDos ref now) : PassesBy a s ref now s :=
  ⟨rfl, h, rfl⟩

/-- The generation of a job for another source. -/
theorem generateJob_passesBy {a srcIp : InAddr} (hne : srcIp ≠ a) {s t : State}
    {ref : Option (Int × Nat)} {now : Int} {query : Query} {job : EtherAddr → Query → RequestInfo}
    {x : Answers} (hjobs : ∀ mac q, (job mac q).request.arpSpa = srcIp)
    (h : Tracks a s.antiDos ref now) (hle : now ≤ x.clock)
    (hjob : generateJob V s srcIp query job x = some t) : PassesBy a s ref x.clock t := by
  obtain ⟨hcfg, -, hdos⟩ := generateJob_cases hjob
  obtain ⟨new, hlog, -, hnew⟩ := generateJob_new hjob
  refine ⟨hcfg, ?_, ?_⟩
  · rcases hdos with ⟨hdos, -⟩ | ⟨-, hdos, -⟩
    · rw [hdos]
      exact h.later hle
    · rw [hdos]
      exact (h.later hle).registerIP_other V hne
  · have hnone : new.filter (fun sent => sent.For a) = [] := by
      rw [List.filter_eq_nil_iff]
      intro sent hsent hfor
      obtain ⟨mac, q, hsame⟩ := hnew sent hsent
      have hsource : sent.job.request.arpSpa = a := of_decide_eq_true hfor
      rw [hsame, hjobs] at hsource
      exact hne hsource
    rw [hlog, List.filter_append, hnone, List.append_nil]

/-- A request of another source in the buffer. -/
theorem handleRequest_passesBy {a : InAddr} {s t : State} {ref : Option (Int × Nat)} {now : Int}
    {i : Input} (hquiet : Quiet env V testsuite s.cfg i) (hsource : s.buffer.arp.arpSpa ≠ a)
    (h : Tracks a s.antiDos ref now) (hto : now ≤ i.toIntruder.clock)
    (hback : i.toIntruder.clock ≤ i.fromIntruder.clock)
    (hhandle : handleRequest env V testsuite arpDir s i = some t) :
    PassesBy a s ref i.fromIntruder.clock t := by
  obtain ⟨cfg, hcfg, hhandle⟩ := Option.bind_eq_some_iff.1 hhandle
  obtain ⟨u, hu, ht⟩ := Option.bind_eq_some_iff.1 hhandle
  obtain rfl : cfg = s.cfg := Option.some.inj (hcfg.symm.trans hquiet.unchanged)
  have hfirst : PassesBy a s ref i.toIntruder.clock u := by
    split_ifs at hu
    · exact generateJob_passesBy hsource (fun _ _ => rfl) h hto hu
    · cases hu
      exact passesBy_of_tracks (h.later hto)
  refine hfirst.trans ?_
  dsimp only at ht
  split_ifs at ht
  · rw [generateJobFromIntruder] at ht
    split_ifs at ht
    · cases ht
      exact passesBy_of_tracks (hfirst.tracks.later hback)
    · exact generateJob_passesBy hsource (fun _ _ => rfl) hfirst.tracks hback ht
  · cases ht
    exact passesBy_of_tracks (hfirst.tracks.later hback)

/-- An input without a request of the source. -/
theorem step_passesBy {a : InAddr} (ha : a ≠ deletionMark) {s t : State} {ref : Option (Int × Nat)}
    {now : Int} {i : Input} (hquiet : Quiet env V testsuite s.cfg i) (hother : ¬ i.From a)
    (h : Tracks a s.antiDos ref now) (hclock : (now :: i.readings).Pairwise (· ≤ ·))
    (hstep : step env V testsuite arpDir s i = some t) :
    PassesBy a s ref i.fromIntruder.clock t := by
  obtain ⟨hupdate, hto, hback⟩ := readings_le hclock
  have hswept := (h.later hupdate).update V ha
  cases hreceived : i.received with
  | none =>
    simp only [step, hreceived] at hstep
    obtain ⟨n, -, rfl⟩ := Option.map_eq_some_iff.1 hstep
    exact ⟨rfl, hswept.later (hto.trans hback), rfl⟩
  | some frame =>
    have hbegin : PassesBy a s ref i.clock (s.received V i frame) := ⟨rfl, hswept, rfl⟩
    by_cases hnot : ntohs frame.protocol ≠ ethertypeArp ∨
        ntohs (s.buffer.receive frame.bytes).arp.eaHdr.arOp ≠ arpopRequest
    · rw [step_of_other hreceived hnot] at hstep
      cases hstep
      exact ⟨rfl, hswept.later (hto.trans hback), rfl⟩
    · obtain ⟨hprotocol, hop⟩ := not_or.1 hnot
      rw [step_of_request hreceived (not_not.1 hprotocol) (not_not.1 hop)] at hstep
      have hwhole := length_of_request (hquiet.whole frame hreceived) (not_not.1 hprotocol)
        (not_not.1 hop)
      have harp : (s.buffer.receive frame.bytes).arp = messageIn frame := arp_receive hwhole _ _
      rw [harp] at hop
      -- a whole request of the source would have been one of its inputs
      have hsource : (s.received V i frame).buffer.arp.arpSpa ≠ a := by
        intro hsource
        rw [State.received, harp] at hsource
        exact hother ⟨frame, hreceived, not_not.1 hprotocol, not_not.1 hop, hsource⟩
      exact hbegin.trans (handleRequest_passesBy hquiet hsource hswept hto hback hstep)

/-! ## Runs -/

/-- The relation between a run and the run with the requests of the source only: the table of the
second run holds this source only, and its log the jobs for it. -/
structure Isolated (env : ExpandEnv) (V : VectorLib) (testsuite : Bool) (arpDir : ArpDir)
    (a : InAddr) (cfg : ReloadState) (inputs : List Input) (s t : State) : Prop where
  config : s.cfg = cfg ∧ t.cfg = cfg
  log : s.log.filter (fun sent => sent.For a) = t.log
  only : OnlyFrom a t.antiDos
  quiet : ∀ i ∈ inputs, Quiet env V testsuite cfg i
  room : StepsMeet (step env V testsuite arpDir) HasRoom inputs s
  tracks : ∃ ref now, Tracks a s.antiDos ref now ∧ Tracks a t.antiDos ref now ∧
    (now :: inputs.flatMap Input.readings).Pairwise (· ≤ ·)

theorem isolated_skip {a : InAddr} (ha : a ≠ deletionMark) {cfg : ReloadState} {i : Input}
    {inputs : List Input} {s s' t : State} (hother : ¬ i.From a)
    (h : Isolated env V testsuite arpDir a cfg (i :: inputs) s t)
    (hstep : step env V testsuite arpDir s i = some s') :
    Isolated env V testsuite arpDir a cfg inputs s' t := by
  obtain ⟨⟨rfl, hcfg⟩, hlog, honly, hquiet, hroom, ref, now, hs, ht, hclock⟩ := h
  obtain ⟨hi, hinputs⟩ := List.forall_mem_cons.1 hquiet
  obtain ⟨hfirst, hrest⟩ := readings_cons hclock
  obtain ⟨hcfg', htracks, hlog'⟩ := step_passesBy ha hi hother hs hfirst hstep
  obtain ⟨hupdate, hto, hback⟩ := readings_le hfirst
  exact ⟨⟨hcfg', hcfg⟩, hlog'.trans hlog, honly, hinputs, hroom.2 s' hstep, ref, _, htracks,
    ht.later (hupdate.trans (hto.trans hback)), hrest⟩

theorem isolated_both {a : InAddr} (ha : a ≠ deletionMark) {cfg : ReloadState} {i : Input}
    {inputs : List Input} {s s' t : State} (hfrom : i.From a)
    (h : Isolated env V testsuite arpDir a cfg (i :: inputs) s t)
    (hstep : step env V testsuite arpDir s i = some s') :
    ∃ t', step env V testsuite arpDir t i = some t' ∧
      Isolated env V testsuite arpDir a cfg inputs s' t' := by
  obtain ⟨⟨rfl, hcfg⟩, hlog, honly, hquiet, hroom, ref, now, hs, ht, hclock⟩ := h
  obtain ⟨hi, hinputs⟩ := List.forall_mem_cons.1 hquiet
  obtain ⟨hfirst, hrest⟩ := readings_cons hclock
  obtain ⟨frame, hreceived, hprotocol, hop, hsource⟩ := hfrom
  -- the table of the second run never fills up
  have hfew : t.antiDos.data.length + 1 < antidosEntriesMax :=
    (Nat.succ_le_succ (honly.length_le ht.ascending)).trans_lt (by decide)
  -- both runs give the source the same
  obtain ⟨u, hu, hserves⟩ : ∃ u, step env V testsuite arpDir s i = some u ∧
      Serves a s (answers V arpDir s.cfg.lst (messageIn frame) i ref) i.fromIntruder.clock u :=
    step_from ha hi hreceived hprotocol hop hsource hs hfirst hroom.1.room
  obtain rfl : u = s' := Option.some.inj (hu.symm.trans hstep)
  rw [← hcfg] at hi
  obtain ⟨t', ht', hserves'⟩ : ∃ t', step env V testsuite arpDir t i = some t' ∧
      Serves a t (answers V arpDir t.cfg.lst (messageIn frame) i ref) i.fromIntruder.clock t' :=
    step_from ha hi hreceived hprotocol hop hsource ht hfirst hfew
  rw [hcfg] at hserves'
  refine ⟨t', ht', ⟨hserves.cfg, hserves'.cfg.trans hcfg⟩, ?_, hserves'.only honly, hinputs,
    hroom.2 u hstep, _, _, hserves.tracks, hserves'.tracks, hrest⟩
  have hfor := answers_for V arpDir s.cfg.lst (messageIn frame) i ref
  rw [hsource] at hfor
  rw [hserves.log, hserves'.log, List.filter_append, hlog, List.filter_eq_self.2]
  exact fun sent hsent => decide_eq_true (hfor sent hsent)

/-- While the configuration stays, the pipe takes the jobs and the table has room, a run sends for a
source the jobs that the run with the requests of this source alone sends. -/
theorem jobs_of_source (env : ExpandEnv) (V : VectorLib) (testsuite : Bool) (arpDir : ArpDir)
    (cfg : ReloadState) (buffer : Buffer) (inputs : List Input) (s : State) (a : InAddr)
    (ha : a ≠ deletionMark) (hclock : (inputs.flatMap Input.readings).Pairwise (· ≤ ·))
    (hquiet : ∀ i ∈ inputs, Quiet env V testsuite cfg i)
    (hroom : StepsMeet (step env V testsuite arpDir) HasRoom inputs (start cfg buffer))
    (hrun : run (step env V testsuite arpDir) inputs (start cfg buffer) = some s) :
    ∃ t, run (step env V testsuite arpDir) (inputs.filter fun i => i.From a) (start cfg buffer) =
        some t ∧
      s.log.filter (fun sent => sent.For a) = t.log := by
  obtain ⟨now, hnow⟩ := exists_now hclock
  have hstart : Isolated env V testsuite arpDir a cfg inputs (start cfg buffer)
      (start cfg buffer) :=
    ⟨⟨rfl, rfl⟩, rfl, List.forall_mem_nil _, hquiet, hroom, none, now, tracks_init a now,
      tracks_init a now, hnow⟩
  obtain ⟨t, ht, hlast⟩ := run_filter_rel (fun i is s s' t => isolated_skip ha)
    (fun i is s s' t => isolated_both ha) hstart hrun
  exact ⟨t, ht, hlast.log⟩

theorem quiet_frameOf (host octet : UInt8) :
    Quiet referenceEnv referenceVector false loadedRule (frameInput (frameOf host octet)) where
  whole frame hframe := by
    cases hframe
    exact Or.inr (Or.inl (by simp [frameOf, requestBytes]))
  unchanged := rfl
  toIntruder := rfl
  fromIntruder := rfl

/-- The host 0.0.0.9 asks twice, and another one in between. -/
theorem jobs_of_source_sample :
    ∃ s, run (step referenceEnv referenceVector false .dirTO)
        ([frameOf 9 1, frameOf 8 1, frameOf 9 2].map frameInput) (start loadedRule fun _ => 0) =
          some s ∧
      ∃ t, run (step referenceEnv referenceVector false .dirTO)
          (([frameOf 9 1, frameOf 8 1, frameOf 9 2].map frameInput).filter fun i =>
            i.From (ntohl 9)) (start loadedRule fun _ => 0) = some t ∧
        s.log.filter (fun sent => sent.For (ntohl 9)) = t.log :=
  ⟨_, rfl, jobs_of_source referenceEnv referenceVector false .dirTO loadedRule _ _ _ (ntohl 9)
    (by decide) (by decide)
    (by
      simp only [List.map_cons, List.map_nil, List.forall_mem_cons]
      exact ⟨quiet_frameOf 9 1, quiet_frameOf 8 1, quiet_frameOf 9 2, List.forall_mem_nil _⟩)
    (by decide +kernel) rfl⟩

end IpSentinel.MainLoop

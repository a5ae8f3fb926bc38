import IpSentinel.MainLoop.Machine

/-!
# Bytes of earlier frames

The main loop tests the operation and reads the addresses of a request at fixed offsets of its one
buffer, and never looks at the number of bytes received. `leftovers_irrelevant_iff` says for which
frames the bytes of earlier frames make no difference: other frames than ARP frames, frames that
reach to the end of the message at offset 42, and shorter ones of which enough is received to see
that they are no requests.
-/

set_option autoImplicit false

namespace IpSentinel.MainLoop

open Foundation BlackList

variable {env : ExpandEnv} {V : VectorLib} {testsuite : Bool} {arpDir : ArpDir}

/-- The state with another content of the buffer. -/
def State.withBuffer (s : State) (buffer : Buffer) : State := { s with buffer }

/-- What an iteration does, the content of the buffer apart, does not depend on what the buffer
held before: the lookups, the anti-DOS table, the jobs and the end of the process. -/
def LeftoversIrrelevant (env : ExpandEnv) (V : VectorLib) (testsuite : Bool) (arpDir : ArpDir)
    (s : State) (i : Input) : Prop :=
  ∀ b b' : Buffer,
    (step env V testsuite arpDir (s.withBuffer b) i).map (fun t => t.withBuffer s.buffer) =
      (step env V testsuite arpDir (s.withBuffer b') i).map (fun t => t.withBuffer s.buffer)

/-- The frame is no ARP frame, or reaches to the end of the message, or the bytes received of the
operation are not those of a request. -/
def ReadsReceived (frame : Frame) : Prop :=
  ntohs frame.protocol ≠ ethertypeArp ∨ 42 ≤ frame.bytes.length ∨
    frame.bytes.getD 20 0 ≠ 0 ∨ frame.bytes.getD 21 1 ≠ 1

instance (frame : Frame) : Decidable (ReadsReceived frame) :=
  inferInstanceAs (Decidable (_ ∨ _ ∨ _ ∨ _))

/-! ## The buffer is read through the message only -/

theorem sendJob_withBuffer (s : State) (b : Buffer) (job : SentJob) (sent : Bool) :
    sendJob (s.withBuffer b) job sent = (sendJob s job sent).map fun t => t.withBuffer b := by
  cases sent with
  | true => rfl
  | false =>
    simp only [sendJob, Bool.false_eq_true, if_false, Option.map_map]
    rfl

theorem generateJob_withBuffer (s : State) (b : Buffer) (srcIp : InAddr) (query : Query)
    (job : EtherAddr → Query → RequestInfo) (a : Answers) :
    generateJob V (s.withBuffer b) srcIp query job a =
      (generateJob V s srcIp query job a).map fun t => t.withBuffer b := by
  cases hmac : getMac V s.cfg.lst query a.rand a.time with
  | mk mac query' =>
    have hmac' : getMac V (s.withBuffer b).cfg.lst query a.rand a.time = (mac, query') := hmac
    rw [generateJob, generateJob, hmac, hmac']
    cases mac with
    | none => rfl
    | some mac =>
      -- the limits do not look at the buffer either
      by_cases hover : s.antiDos.isOversized
      · simp only [State.withBuffer, hover, if_true, Option.map_some]
      · by_cases hdos : isDOS (s.antiDos.registerIP V srcIp a.clock).1 a.dice
        · simp only [State.withBuffer, hover, hdos, Bool.false_eq_true, if_true, if_false,
            Option.map_some]
        · simp only [State.withBuffer, hover, hdos, Bool.false_eq_true, if_false]
          exact sendJob_withBuffer
            { s with oversizeSleep := 1, antiDos := (s.antiDos.registerIP V srcIp a.clock).2 } b _ _

theorem generateJobToIntruder_withBuffer (msg : EtherArp) (s : State) (b : Buffer) (a : Answers) :
    generateJobToIntruder V msg (s.withBuffer b) a =
      (generateJobToIntruder V msg s a).map fun t => t.withBuffer b :=
  generateJob_withBuffer s b ..

theorem generateJobFromIntruder_withBuffer (msg : EtherArp) (s : State) (b : Buffer)
    (a : Answers) :
    generateJobFromIntruder V msg (s.withBuffer b) a =
      (generateJobFromIntruder V msg s a).map fun t => t.withBuffer b := by
  rw [generateJobFromIntruder, generateJobFromIntruder]
  split_ifs
  · rfl
  · exact generateJob_withBuffer s b ..

/-- A request is handled by the message in the buffer. -/
theorem handleRequest_withBuffer {s : State} {b : Buffer} (i : Input)
    (h : b.arp = s.buffer.arp) :
    handleRequest env V testsuite arpDir (s.withBuffer b) i =
      (handleRequest env V testsuite arpDir s i).map fun t => t.withBuffer b := by
  rw [handleRequest, handleRequest]
  dsimp only [State.withBuffer]
  rw [h]
  cases reload env V testsuite s.cfg i.attempt with
  | none => rfl
  | some cfg =>
    -- the first job is generated from the message, not from the buffer
    have hto : (if arpDir.value &&& ArpDir.dirTO.value ≠ 0 then
          generateJobToIntruder V s.buffer.arp { s with cfg, buffer := b } i.toIntruder
        else some { s with cfg, buffer := b }) =
        (if arpDir.value &&& ArpDir.dirTO.value ≠ 0 then
          generateJobToIntruder V s.buffer.arp { s with cfg } i.toIntruder
        else some { s with cfg }).map fun t => t.withBuffer b := by
      split_ifs
      · exact generateJobToIntruder_withBuffer s.buffer.arp { s with cfg } b i.toIntruder
      · rfl
    simp only [Option.bind_eq_bind, Option.bind_some]
    rw [hto, Option.bind_map, Option.map_bind]
    congr 1
    funext u
    dsimp only [Function.comp]
    split_ifs
    · exact generateJobFromIntruder_withBuffer s.buffer.arp u b i.fromIntruder
    · rfl

/-! ## Frames that are read as received -/

/-- Enough bytes make the buffer the same up to the end of the message. -/
theorem arp_receive {bytes : List UInt8} (h : 42 ≤ bytes.length) (b b' : Buffer) :
    (b.receive bytes).arp = (b'.receive bytes).arp := by
  apply Buffer.arp_congr
  intro i hi
  rw [Buffer.receive_of_lt (by omega), Buffer.receive_of_lt (by omega)]

/-- The bytes received may rule out a request. -/
theorem not_request_of_received {bytes : List UInt8}
    (h : bytes.getD 20 0 ≠ 0 ∨ bytes.getD 21 1 ≠ 1) (b : Buffer) :
    ntohs (b.receive bytes).arp.eaHdr.arOp ≠ arpopRequest := by
  rw [Ne, Buffer.isRequest_iff]
  rintro ⟨h20, h21⟩
  -- a byte with another value than the default has been received
  simp only [Buffer.receive, List.getD_eq_getElem?_getD] at h20 h21 h
  rcases h with h | h
  · cases hget : bytes[20]? <;> simp_all
  · cases hget : bytes[21]? <;> simp_all

theorem leftoversIrrelevant_of_readsReceived {s : State} {i : Input}
    (h : ∀ frame, i.received = some frame → ReadsReceived frame) :
    LeftoversIrrelevant env V testsuite arpDir s i := by
  intro b b'
  cases hreceived : i.received with
  | none =>
    simp only [step, hreceived, State.withBuffer, Option.map_map]
    rfl
  | some frame =>
    rcases h frame hreceived with hother | hlength | hop
    · rw [step_of_other hreceived (Or.inl hother), step_of_other hreceived (Or.inl hother)]
      rfl
    · -- the message is within the bytes that have been received
      have harp := arp_receive hlength b b'
      by_cases hother : ntohs frame.protocol ≠ ethertypeArp ∨
          ntohs (b.receive frame.bytes).arp.eaHdr.arOp ≠ arpopRequest
      · have hother' := hother
        rw [harp] at hother'
        rw [step_of_other (s := s.withBuffer b) hreceived hother,
          step_of_other (s := s.withBuffer b') hreceived hother']
        rfl
      · -- the same message is handled, with other bytes behind it
        obtain ⟨hprotocol, hop⟩ := not_or.1 hother
        have hop' := not_not.1 hop
        rw [harp] at hop'
        rw [step_of_request (s := s.withBuffer b) hreceived (not_not.1 hprotocol) (not_not.1 hop),
          step_of_request (s := s.withBuffer b') hreceived (not_not.1 hprotocol) hop']
        have hsame : handleRequest env V testsuite arpDir _ i = Option.map _ _ :=
          handleRequest_withBuffer (s := (s.withBuffer b').received V i frame) i harp
        have hstate : ((s.withBuffer b').received V i frame).withBuffer (b.receive frame.bytes) =
            (s.withBuffer b).received V i frame := rfl
        rw [hstate] at hsame
        rw [hsame, Option.map_map]
        rfl
    · -- whatever is left in the buffer, the message is no request
      have hnot := not_request_of_received hop
      rw [step_of_other (s := s.withBuffer b) hreceived (Or.inr (hnot b)),
        step_of_other (s := s.withBuffer b') hreceived (Or.inr (hnot b'))]
      rfl

/-! ## Other frames -/

/-- Nothing happens but the frame: the blacklist is as it was loaded, and a job is sent. -/
def frameInput (frame : Frame) : Input where
  clock := 0
  received := some frame
  attempt := ⟨.softUpdate, some loadedRule.lst.lastMtime, none⟩
  toIntruder := ⟨0, 0, 0, 0, true⟩
  fromIntruder := ⟨0, 0, 0, 0, true⟩

/-- The frame arrives when the clock reads `clock`, and its jobs are generated at the time `time`
with the draw `rand`. -/
def frameInputAt (clock time : Int) (rand : Nat) (frame : Frame) : Input :=
  { frameInput frame with
    clock
    toIntruder := ⟨rand, time, time, 0, true⟩
    fromIntruder := ⟨rand, time, time, 0, true⟩ }

theorem getMac_loadedRule (V : VectorLib) (ip : InAddr) (rand : Nat) (time : Int) :
    ∃ query', getMac V loadedRule.lst ⟨.zero, ip, none, none⟩ rand time =
      (some (setRandomMac rand time), query') := by
  have hcov : blockAnything.Covers ip := BitVec.and_zero
  have hverd : blockAnything.v.verdict none = some .blRAND := rfl
  rw [getMac_of_start (searchIPs_nil V _)]
  refine ⟨_, Prod.ext ?_ rfl⟩
  show ((searchNets [blockAnything] (.start ⟨.zero, ip, none, none⟩)).finish rand time).1 = _
  rw [searchNets_cons_decide hcov (by simp [hverd])]
  rfl

/-- With the rule `0.0.0.0/0` the request in the buffer becomes a job. -/
theorem step_loadedRule (env : ExpandEnv) (V : VectorLib) (testsuite : Bool) {b : Buffer}
    {frame : Frame} (hprotocol : ntohs frame.protocol = ethertypeArp)
    (hop : ntohs (b.receive frame.bytes).arp.eaHdr.arOp = arpopRequest) :
    ∃ t sent, step env V testsuite .dirTO (start loadedRule b) (frameInput frame) = some t ∧
      t.log = [sent] ∧ sent.job.request = (b.receive frame.bytes).arp := by
  obtain ⟨query', hmac⟩ := getMac_loadedRule V (b.receive frame.bytes).arp.arpTpa 0 0
  have hreload : reload env V testsuite loadedRule (frameInput frame).attempt =
      some loadedRule := rfl
  have hupdate : AntiDOS.update V .init 0 = .init := if_neg (by decide)
  have hdos : isDOS (AntiDOS.registerIP V (AntiDOS.update V .init 0)
      (b.receive frame.bytes).arp.arpSpa 0).1 0 = false := by
    rw [hupdate, AntiDOS.registerIP_init]
    rfl
  have hover : (AntiDOS.update V .init 0).isOversized = false := by
    rw [hupdate]
    rfl
  -- the first request of an empty table is answered
  have hjob := generateJob_of_sent (a := ⟨0, 0, 0, 0, true⟩)
    (s := (start loadedRule b).received V (frameInput frame) frame)
    (fun mac _ => ⟨(b.receive frame.bytes).arp, mac, .jobDST, none⟩) hmac hover hdos rfl
  have hstep : step env V testsuite .dirTO (start loadedRule b) (frameInput frame) =
      generateJobToIntruder V (b.receive frame.bytes).arp
        ((start loadedRule b).received V (frameInput frame) frame) ⟨0, 0, 0, 0, true⟩ := by
    have hcfg : ((start loadedRule b).received V (frameInput frame) frame).cfg = loadedRule := rfl
    rw [step_of_request (s := start loadedRule b) rfl hprotocol hop, handleRequest, hcfg, hreload]
    simp only [Option.bind_eq_bind, Option.bind_some, ArpDir.value]
    exact Option.bind_fun_some _
  exact ⟨_, _, hstep.trans hjob, rfl, rfl⟩

/-- Leftovers that complete a frame to a request for an address that ends in `octet`. -/
def requestLeftovers (octet : UInt8) : Buffer := fun i =>
  if i = 21 then 1 else if i = 41 then octet else 0

/-- A frame that is not read as received is completed by leftovers to different requests. -/
theorem not_leftoversIrrelevant {frame : Frame} (h : ¬ ReadsReceived frame) :
    ¬ LeftoversIrrelevant env V testsuite .dirTO (start loadedRule fun _ => 0)
      (frameInput frame) := by
  simp only [ReadsReceived, not_or, not_not] at h
  obtain ⟨hprotocol, hshort, h20, h21⟩ := h
  have hop : ∀ octet, ntohs ((requestLeftovers octet).receive frame.bytes).arp.eaHdr.arOp =
      arpopRequest := fun octet => (Buffer.isRequest_iff _).2 ⟨h20, h21⟩
  obtain ⟨t, sent, ht, hlog, hrequest⟩ :=
    step_loadedRule env V testsuite (b := requestLeftovers 0) hprotocol (hop 0)
  obtain ⟨t', sent', ht', hlog', hrequest'⟩ :=
    step_loadedRule env V testsuite (b := requestLeftovers 1) hprotocol (hop 1)
  intro hirrelevant
  have hsame := hirrelevant (requestLeftovers 0) (requestLeftovers 1)
  have hwith : ∀ b, (start loadedRule fun _ => 0).withBuffer b = start loadedRule b := fun _ => rfl
  rw [hwith, hwith, ht, ht', Option.map_some, Option.map_some, Option.some.injEq] at hsame
  have hlogs := congrArg State.log hsame
  change t.log = t'.log at hlogs
  rw [hlog, hlog'] at hlogs
  obtain rfl := List.head_eq_of_cons_eq hlogs
  -- the last byte of the requested address is not received
  have hlast : ∀ octet, ((requestLeftovers octet).receive frame.bytes) 41 = octet :=
    fun octet => Buffer.receive_of_le (by omega)
  have htpa : ((requestLeftovers 0).receive frame.bytes).inAddrAt 38 =
      ((requestLeftovers 1).receive frame.bytes).inAddrAt 38 :=
    congrArg EtherArp.arpTpa (hrequest.symm.trans hrequest')
  have hbyte := Buffer.byte_of_inAddrAt_eq htpa
  rw [hlast, hlast] at hbyte
  exact absurd hbyte (by decide)

/-- The frames on which the bytes of earlier frames make no difference, in whatever run they are
received, are those that are read as received. -/
theorem leftovers_irrelevant_iff (env : ExpandEnv) (V : VectorLib) (testsuite : Bool)
    (frames : Set Frame) :
    (∀ arpDir cfg buffer inputs,
      (∀ i ∈ inputs, ∀ frame, i.received = some frame → frame ∈ frames) →
        StepsMeet (step env V testsuite arpDir) (LeftoversIrrelevant env V testsuite arpDir) inputs
          (start cfg buffer)) ↔
      ∀ frame ∈ frames, ReadsReceived frame := by
  constructor
  · intro h frame hframe
    by_contra hnot
    have hrun := h .dirTO loadedRule (fun _ => 0) [frameInput frame] (by
      intro i hi frame' hreceived
      rw [List.mem_singleton.1 hi] at hreceived
      cases hreceived
      exact hframe)
    exact not_leftoversIrrelevant hnot hrun.1
  · intro h arpDir cfg buffer inputs hinputs
    apply stepsMeet_iff.2
    rintro pre i ⟨post, rfl⟩ s -
    apply leftoversIrrelevant_of_readsReceived
    intro frame hreceived
    exact h frame (hinputs i (by simp) frame hreceived)

/-- The bytes of a request of the host 0.0.0.9 for an address that ends in `octet`. -/
def requestBytes (octet : UInt8) : List UInt8 :=
  List.replicate 12 255 ++ [8, 6] ++ [0, 1, 8, 0, 6, 4, 0, 1] ++
    ([0, 2, 4, 6, 8, 10] ++ [0, 0, 0, 9]) ++ (List.replicate 6 0 ++ [0, 0, 0, octet])

/-- The request as a frame. -/
def requestFrame (octet : UInt8) : Frame :=
  { bytes := requestBytes octet, protocol := htons 0x0806, fits := by simp [requestBytes] }

/-- A request of a host in the net 0.0.0.0/24. -/
def frameOf (host octet : UInt8) : Frame where
  bytes := (requestBytes octet).set 31 host
  protocol := htons 0x0806
  fits := by simp [requestBytes]

/-- A frame that ends behind its Ethernet header. -/
def headerFrame : Frame :=
  { bytes := (requestBytes 0).take 14
    protocol := htons 0x0806
    fits := by simp [requestBytes] }

/-- The addresses of the jobs sent in a run with the rule `0.0.0.0/0`. -/
def addressesSent (frames : List Frame) : Option (List InAddr) :=
  (run (step referenceEnv referenceVector false .dirTO) (frames.map frameInput)
    (start loadedRule fun _ => 0)).map fun t => t.log.map fun r => ntohl r.job.request.arpTpa

/-- The frame without a message is answered with the address of the request before. -/
theorem header_repeats_request :
    addressesSent [requestFrame 1, headerFrame] = some [1, 1] ∧
      addressesSent [requestFrame 2, headerFrame] = some [2, 2] := by
  decide +kernel

end IpSentinel.MainLoop

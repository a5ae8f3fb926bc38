import IpSentinel.MainLoop.Leftovers
import IpSentinel.MainLoop.RequestJobs

/-!
# When the main process ends

The loop of `run` has no end of its own. `ends_iff` lists what ends the process: seven failures of
`recvfrom` in a row, seven failures of `write` in a row, or `BlackList_softUpdate`. Other outcomes
in between count for neither of the two counters, and every success starts one over: whatever else
the process meets, it goes on.
-/

set_option autoImplicit false

namespace IpSentinel.MainLoop

open Foundation BlackList

/-! ## The outcomes of an iteration -/

/-- The outcome of `recvfrom`. -/
def receives (_ : State) (i : Input) : List Bool := [i.received.isSome]

section Writes

variable (V : VectorLib)

/-- The outcome of the `write` behind a lookup, when the limits let the request through. -/
def jobWrites (s : State) (srcIp : InAddr) (query : Query) (a : Answers) : List Bool :=
  if (getMac V s.cfg.lst query a.rand a.time).1 ≠ none ∧ s.antiDos.isOversized = false ∧
      isDOS (s.antiDos.registerIP V srcIp a.clock).1 a.dice = false then [a.sent]
  else []

def toIntruderWrites (msg : EtherArp) (s : State) (a : Answers) : List Bool :=
  jobWrites V s msg.arpSpa (queryTo msg) a

def fromIntruderWrites (msg : EtherArp) (s : State) (a : Answers) : List Bool :=
  if (queryFrom msg).ip = 0 then [] else jobWrites V s (queryFrom msg).ip (queryFrom msg) a

variable (env : ExpandEnv) (testsuite : Bool) (arpDir : ArpDir)

/-- The outcomes of `write` for a request in the buffer. -/
def requestWrites (s : State) (i : Input) : List Bool :=
  match reload env V testsuite s.cfg i.attempt with
  | none => []
  | some cfg =>
    let s := { s with cfg }
    let msg := s.buffer.arp
    if arpDir.value &&& ArpDir.dirTO.value ≠ 0 then
      toIntruderWrites V msg s i.toIntruder ++
        match generateJobToIntruder V msg s i.toIntruder with
        | none => []
        | some u =>
          if arpDir.value &&& ArpDir.dirFROM.value ≠ 0 then
            fromIntruderWrites V msg u i.fromIntruder
          else []
    else if arpDir.value &&& ArpDir.dirFROM.value ≠ 0 then
      fromIntruderWrites V msg s i.fromIntruder
    else []

/-- The outcomes of `write` in an iteration. -/
def writes (s : State) (i : Input) : List Bool :=
  match i.received with
  | none => []
  | some frame =>
    if ReceivesRequest s i then requestWrites V env testsuite arpDir (s.received V i frame) i
    else []

end Writes

/-! ## The counters in an iteration -/

variable {env : ExpandEnv} {V : VectorLib} {testsuite : Bool} {arpDir : ArpDir}

theorem sendJob_feed (s : State) (job : SentJob) (sent : Bool) :
    (sendJob s job sent).map State.sendErrors = feed maxErrors [sent] s.sendErrors := by
  rw [feed_singleton]
  cases sent with
  | true => rfl
  | false =>
    rw [sendJob, if_neg Bool.false_ne_true, Option.map_map, Worker.countError_eq]
    exact Option.map_id'

/-- The generation of a job brings its counter the outcome of its `write`. -/
theorem generateJob_feed (s : State) (srcIp : InAddr) (query : Query)
    (job : EtherAddr → Query → RequestInfo) (a : Answers) :
    (generateJob V s srcIp query job a).map State.sendErrors =
      feed maxErrors (jobWrites V s srcIp query a) s.sendErrors := by
  rw [generateJob, jobWrites]
  cases hmac : getMac V s.cfg.lst query a.rand a.time with
  | mk mac query' =>
    cases mac with
    | none => rfl
    | some mac =>
      by_cases hover : s.antiDos.isOversized
      · simp only [hover, if_true, Bool.true_eq_false, false_and, and_false, if_false]
        rfl
      · by_cases hdos : isDOS (s.antiDos.registerIP V srcIp a.clock).1 a.dice
        · simp only [hover, hdos, Bool.false_eq_true, if_true, if_false, Bool.true_eq_false,
            and_false]
          rfl
        · simp only [hover, hdos, Bool.false_eq_true, if_false, ne_eq, reduceCtorEq,
            not_false_eq_true, and_self, if_true]
          exact sendJob_feed _ _ _

theorem generateJob_errorCount {s t : State} {srcIp : InAddr} {query : Query}
    {job : EtherAddr → Query → RequestInfo} {a : Answers}
    (h : generateJob V s srcIp query job a = some t) : t.errorCount = s.errorCount := by
  rw [generateJob] at h
  split at h
  · cases h
    rfl
  · dsimp only at h
    split_ifs at h
    · cases h
      rfl
    · cases h
      rfl
    · rw [sendJob] at h
      split_ifs at h
      · cases h
        rfl
      · obtain ⟨n, -, rfl⟩ := Option.map_eq_some_iff.1 h
        rfl

/-- So does the job from the intruder, if it is not 0.0.0.0. -/
theorem fromIntruder_feed (msg : EtherArp) (s : State) (a : Answers) :
    (generateJobFromIntruder V msg s a).map State.sendErrors =
      feed maxErrors (fromIntruderWrites V msg s a) s.sendErrors := by
  rw [generateJobFromIntruder, fromIntruderWrites]
  split_ifs
  · rfl
  · exact generateJob_feed ..

theorem fromIntruder_errorCount {s t : State} {msg : EtherArp} {a : Answers}
    (h : generateJobFromIntruder V msg s a = some t) : t.errorCount = s.errorCount := by
  rw [generateJobFromIntruder] at h
  split_ifs at h
  · cases h
    rfl
  · exact generateJob_errorCount h

/-- A request that does not end the process in `BlackList_softUpdate` brings the counter of
`Worker_sendJob` the outcomes of its calls. -/
theorem handleRequest_feed {s : State} {i : Input} {cfg : ReloadState}
    (hcfg : reload env V testsuite s.cfg i.attempt = some cfg) :
    (handleRequest env V testsuite arpDir s i).map State.sendErrors =
      feed maxErrors (requestWrites V env testsuite arpDir s i) s.sendErrors := by
  simp only [handleRequest, requestWrites, hcfg, Option.bind_eq_bind, Option.bind_some]
  -- the second job starts from what the first one has left
  have hfrom : ∀ u : State, Option.map State.sendErrors
      (if arpDir.value &&& ArpDir.dirFROM.value ≠ 0 then
        generateJobFromIntruder V s.buffer.arp u i.fromIntruder else some u) =
      feed maxErrors (if arpDir.value &&& ArpDir.dirFROM.value ≠ 0 then
        fromIntruderWrites V s.buffer.arp u i.fromIntruder else []) u.sendErrors := by
    intro u
    split_ifs
    · exact fromIntruder_feed ..
    · rfl
  by_cases hto : arpDir.value &&& ArpDir.dirTO.value ≠ 0
  · rw [if_pos hto, if_pos hto, feed_append]
    have hfeed : (generateJobToIntruder V s.buffer.arp { s with cfg } i.toIntruder).map
        State.sendErrors = feed maxErrors
          (toIntruderWrites V s.buffer.arp { s with cfg } i.toIntruder) s.sendErrors :=
      generateJob_feed ..
    rw [← hfeed]
    cases generateJobToIntruder V s.buffer.arp { s with cfg } i.toIntruder with
    | none => rfl
    | some u => exact hfrom u
  · rw [if_neg hto, if_neg hto]
    exact hfrom { s with cfg }

theorem handleRequest_errorCount {s t : State} {i : Input}
    (h : handleRequest env V testsuite arpDir s i = some t) : t.errorCount = s.errorCount := by
  simp only [handleRequest, Option.bind_eq_bind, Option.bind_eq_some_iff] at h
  obtain ⟨cfg, -, u, hu, ht⟩ := h
  have hfirst : u.errorCount = s.errorCount := by
    split_ifs at hu
    · exact generateJob_errorCount (s := { s with cfg }) hu
    · cases hu
      rfl
  split_ifs at ht
  · exact (fromIntruder_errorCount ht).trans hfirst
  · cases ht
    exact hfirst

/-! ## Runs -/

theorem not_receivesRequest_of_other {s : State} {i : Input} {frame : Frame}
    (h : i.received = some frame) (hother : ntohs frame.protocol ≠ ethertypeArp ∨
      ntohs (s.buffer.receive frame.bytes).arp.eaHdr.arOp ≠ arpopRequest) :
    ¬ ReceivesRequest s i := by
  rintro ⟨frame', hframe, hprotocol, hop⟩
  obtain rfl : frame = frame' := Option.some.inj (h.symm.trans hframe)
  exact hother.elim (absurd hprotocol) (absurd hop)

/-- What one iteration does to the process and its two counters. -/
structure Outcome (env : ExpandEnv) (V : VectorLib) (testsuite : Bool) (arpDir : ArpDir) (s : State)
    (i : Input) : Prop where
  goesOn : ∀ t, step env V testsuite arpDir s i = some t →
    feed maxErrors (receives s i) s.errorCount = some t.errorCount ∧
      feed maxErrors (writes V env testsuite arpDir s i) s.sendErrors = some t.sendErrors
  ends : step env V testsuite arpDir s i = none ↔
    feed maxErrors (receives s i) s.errorCount = none ∨
      (ReceivesRequest s i ∧ reload env V testsuite s.cfg i.attempt = none) ∨
        feed maxErrors (writes V env testsuite arpDir s i) s.sendErrors = none

/-- A request goes the way of `BlackList_softUpdate` and the writes. -/
theorem outcome_of_request {s : State} {i : Input} {frame : Frame} (h : i.received = some frame)
    (hprotocol : ntohs frame.protocol = ethertypeArp)
    (hop : ntohs (s.buffer.receive frame.bytes).arp.eaHdr.arOp = arpopRequest) :
    Outcome env V testsuite arpDir s i := by
  have hrequest : ReceivesRequest s i := ⟨frame, h, hprotocol, hop⟩
  have hreceives : feed maxErrors (receives s i) s.errorCount = some 0 := by
    rw [receives, h, feed_singleton]
    rfl
  have hwrites : writes V env testsuite arpDir s i =
      requestWrites V env testsuite arpDir (s.received V i frame) i := by
    simp only [writes, h, hrequest, if_true]
  have hstep : step env V testsuite arpDir s i =
      handleRequest env V testsuite arpDir (s.received V i frame) i :=
    step_of_request h hprotocol hop
  cases hcfg : reload env V testsuite s.cfg i.attempt with
  | none =>
    -- the process ends in the reload, before anything is written
    have hnone : step env V testsuite arpDir s i = none := by
      rw [hstep, handleRequest]
      change (reload env V testsuite s.cfg i.attempt).bind _ = none
      rw [hcfg]
      rfl
    refine ⟨fun t ht => ?_, iff_of_true hnone (Or.inr (Or.inl ⟨hrequest, hcfg⟩))⟩
    rw [hnone] at ht
    cases ht
  | some cfg =>
    have hfeed : (step env V testsuite arpDir s i).map State.sendErrors =
        feed maxErrors (writes V env testsuite arpDir s i) (s.received V i frame).sendErrors := by
      rw [hstep, hwrites]
      exact handleRequest_feed hcfg
    constructor
    · intro t ht
      rw [ht] at hfeed
      refine ⟨?_, hfeed.symm⟩
      rw [hstep] at ht
      rw [hreceives, handleRequest_errorCount ht]
      rfl
    · change step env V testsuite arpDir s i = none ↔
        _ ∨ (_ ∧ _ = none) ∨ feed maxErrors _ (s.received V i frame).sendErrors = none
      rw [← hfeed, Option.map_eq_none_iff, hreceives, hcfg]
      simp

theorem writes_of_noRequest {s : State} {i : Input} (h : ¬ ReceivesRequest s i) :
    writes V env testsuite arpDir s i = [] := by
  rw [writes]
  split
  · rfl
  · exact if_neg h

/-- Without a request only the counter of `recvfrom` gets an outcome. -/
theorem outcome_of_noRequest {s : State} {i : Input} (h : ¬ ReceivesRequest s i)
    (hreceives : (step env V testsuite arpDir s i).map State.errorCount =
      feed maxErrors (receives s i) s.errorCount)
    (hsend : ∀ t, step env V testsuite arpDir s i = some t → t.sendErrors = s.sendErrors) :
    Outcome env V testsuite arpDir s i where
  goesOn t ht := by
    rw [writes_of_noRequest h, ← hreceives, ht, ← hsend t ht]
    exact ⟨rfl, rfl⟩
  ends := by
    rw [writes_of_noRequest h, ← hreceives, Option.map_eq_none_iff]
    refine (or_iff_left ?_).symm
    rintro (hrequest | hfeed)
    · exact h hrequest.1
    · cases hfeed

theorem iteration_outcome (s : State) (i : Input) : Outcome env V testsuite arpDir s i := by
  cases hreceived : i.received with
  | none =>
    have hnot : ¬ ReceivesRequest s i := by
      rintro ⟨frame, hframe, -⟩
      rw [hreceived] at hframe
      cases hframe
    refine outcome_of_noRequest hnot ?_ fun t ht => ?_
    · rw [receives, hreceived, feed_singleton]
      simp only [step, hreceived, Option.map_map]
      exact Option.map_id'
    · simp only [step, hreceived] at ht
      obtain ⟨n, -, rfl⟩ := Option.map_eq_some_iff.1 ht
      rfl
  | some frame =>
    -- only an ARP request leads to a reload and to jobs
    by_cases hother : ntohs frame.protocol ≠ ethertypeArp ∨
        ntohs (s.buffer.receive frame.bytes).arp.eaHdr.arOp ≠ arpopRequest
    · have hstep : step env V testsuite arpDir s i = some (s.received V i frame) :=
        step_of_other hreceived hother
      refine outcome_of_noRequest (not_receivesRequest_of_other hreceived hother) ?_ fun t ht => ?_
      · rw [hstep, receives, hreceived, feed_singleton]
        rfl
      · rw [hstep] at ht
        cases ht
        rfl
    · obtain ⟨hprotocol, hop⟩ := not_or.1 hother
      exact outcome_of_request hreceived (not_not.1 hprotocol) (not_not.1 hop)

theorem counts_receives :
    Counts (step env V testsuite arpDir) maxErrors State.errorCount receives :=
  fun s i t ht => ((iteration_outcome s i).goesOn t ht).1

theorem counts_writes : Counts (step env V testsuite arpDir) maxErrors State.sendErrors
    (writes V env testsuite arpDir) :=
  fun s i t ht => ((iteration_outcome s i).goesOn t ht).2

/-- In every run the process ends exactly when `recvfrom` has failed seven times in a row, when
`BlackList_softUpdate` ends it, or when `write` has failed seven times in a row. -/
theorem ends_iff (env : ExpandEnv) (V : VectorLib) (testsuite : Bool) (arpDir : ArpDir)
    (cfg : ReloadState) (buffer : Buffer) (inputs : List Input) (i : Input) (t : State)
    (hrun : run (step env V testsuite arpDir) inputs (start cfg buffer) = some t) :
    step env V testsuite arpDir t i = none ↔
      FailsInARow maxErrors (trace (step env V testsuite arpDir) receives (inputs ++ [i])
          (start cfg buffer)).flatten ∨
        (ReceivesRequest t i ∧ reload env V testsuite t.cfg i.attempt = none) ∨
          FailsInARow maxErrors (trace (step env V testsuite arpDir)
            (writes V env testsuite arpDir) (inputs ++ [i]) (start cfg buffer)).flatten := by
  rw [(iteration_outcome t i).ends, counts_receives.feed_eq_none_iff rfl hrun,
    counts_writes.feed_eq_none_iff rfl hrun]

/-- A failing `recvfrom`. -/
def failingInput : Input := { frameInput headerFrame with received := none }

/-- Three failures, a frame of another protocol, and six failures more. -/
def failingInputs : List Input :=
  List.replicate 3 failingInput ++ [frameInput { headerFrame with protocol := htons 0x0800 }] ++
    List.replicate 6 failingInput

/-- The next failure ends the process. -/
theorem ends_iff_failing :
    ∃ t, run (step referenceEnv referenceVector false .dirTO) failingInputs
        (start loadedRule fun _ => 0) = some t ∧
      step referenceEnv referenceVector false .dirTO t failingInput = none ∧
      (FailsInARow maxErrors (trace (step referenceEnv referenceVector false .dirTO) receives
          (failingInputs ++ [failingInput]) (start loadedRule fun _ => 0)).flatten ∨
        (ReceivesRequest t failingInput ∧
          reload referenceEnv referenceVector false t.cfg failingInput.attempt = none) ∨
        FailsInARow maxErrors (trace (step referenceEnv referenceVector false .dirTO)
          (writes referenceVector referenceEnv false .dirTO) (failingInputs ++ [failingInput])
          (start loadedRule fun _ => 0)).flatten) := by
  refine ⟨_, rfl, rfl, ?_⟩
  exact (ends_iff referenceEnv referenceVector false .dirTO loadedRule (fun _ => 0) failingInputs
    failingInput _ rfl).1 rfl

end IpSentinel.MainLoop

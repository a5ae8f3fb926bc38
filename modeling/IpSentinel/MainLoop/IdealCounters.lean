import IpSentinel.AntiDOS.Reference
import IpSentinel.AntiDOS.Sweep
import IpSentinel.Foundation.Simulation
import IpSentinel.MainLoop.Leftovers
import IpSentinel.MainLoop.TableCalls

/-!
# The main loop over independent counters

What the anti-DOS table is for, seen from the main loop: a pair of the last access and a counter for
each source address, with no table, no order, no binary search and no sweep. `idealStep` is the
iteration of the loop over these pairs. As long as the table has room, the clock does not go back
and no request comes from the address that marks deleted entries, the loop of the source does in
every run what the ideal one does: the same jobs in the same order, the same counters of failures,
the same end (`run_eq_ideal`).
-/

set_option autoImplicit false

namespace IpSentinel.MainLoop

open Foundation BlackList AntiDOS

/-- The state of the loop with a pair for each address; the table stays empty. -/
structure IdealState where
  main : State
  pairs : InAddr → Option (Int × Nat)

/-- The state with another table. -/
def State.withTable (s : State) (antiDos : AntiDOS) : State := { s with antiDos }

/-! ## The ideal loop -/

section Ideal

variable (V : VectorLib)

/-- The generation of a job: the pair of the source address decides, and no other. -/
def idealGenerateJob (s : IdealState) (srcIp : InAddr) (query : Query)
    (job : EtherAddr → Query → RequestInfo) (a : Answers) : Option IdealState :=
  match getMac V s.main.cfg.lst query a.rand a.time with
  | (none, _) => some s
  | (some mac, query') =>
    let pair := refRegister (s.pairs srcIp) a.clock
    let pairs := Function.update s.pairs srcIp (some pair)
    let main := { s.main with oversizeSleep := 1 }
    if isDOS pair.2 a.dice then some ⟨main, pairs⟩
    else
      let sent :=
        { lst := main.cfg.lst, query, rand := a.rand, time := a.time, job := job mac query' }
      (sendJob main sent a.sent).map fun main => ⟨main, pairs⟩

def idealToIntruder (msg : EtherArp) (s : IdealState) (a : Answers) : Option IdealState :=
  idealGenerateJob V s msg.arpSpa (queryTo msg)
    (fun mac _ => { request := msg, mac, type := .jobDST, poisonMac := none }) a

def idealFromIntruder (msg : EtherArp) (s : IdealState) (a : Answers) : Option IdealState :=
  if (queryFrom msg).ip = 0 then some s
  else
    idealGenerateJob V s (queryFrom msg).ip (queryFrom msg)
      (fun mac query => { request := msg, mac, type := .jobSRC, poisonMac := query.poisonMac }) a

variable (env : ExpandEnv) (testsuite : Bool) (arpDir : ArpDir)

def idealHandleRequest (s : IdealState) (i : Input) : Option IdealState := do
  let cfg ← reload env V testsuite s.main.cfg i.attempt
  let s := { s with main := { s.main with cfg } }
  let msg := s.main.buffer.arp
  let s ← (if arpDir.value &&& ArpDir.dirTO.value ≠ 0 then idealToIntruder V msg s i.toIntruder
    else some s)
  if arpDir.value &&& ArpDir.dirFROM.value ≠ 0 then idealFromIntruder V msg s i.fromIntruder
  else some s

/-- An iteration; there is nothing to sweep. -/
def idealStep (s : IdealState) (i : Input) : Option IdealState :=
  match i.received with
  | none =>
    (Worker.countError s.main.errorCount).map fun n =>
      { s with main := { s.main with errorCount := n } }
  | some frame =>
    let s := { s with
      main := { s.main with errorCount := 0, buffer := s.main.buffer.receive frame.bytes } }
    if ntohs frame.protocol ≠ ethertypeArp then some s
    else if ntohs s.main.buffer.arp.eaHdr.arOp ≠ arpopRequest then some s
    else idealHandleRequest V env testsuite arpDir s i

end Ideal

/-- No address has a pair yet. -/
def idealStart (cfg : ReloadState) (buffer : Buffer) : IdealState :=
  { main := start cfg buffer, pairs := fun _ => none }

/-! ## The simulation -/

variable {env : ExpandEnv} {V : VectorLib} {testsuite : Bool} {arpDir : ArpDir}

/-- At time `now` the loop is where the ideal one is, and its table agrees with every pair but that
of the deletion mark. -/
structure Follows (now : Int) (s : State) (t : IdealState) : Prop where
  main : t.main = s.withTable .init
  tracks : ∀ a, a ≠ deletionMark → Tracks a s.antiDos (t.pairs a) now

theorem Follows.ascending {now : Int} {s : State} {t : IdealState} (h : Follows now s t) :
    s.antiDos.IsAscending :=
  (h.tracks 0 (by decide)).ascending

theorem Follows.later {now now' : Int} {s : State} {t : IdealState} (h : Follows now s t)
    (hle : now ≤ now') : Follows now' s t :=
  ⟨h.main, fun a ha => (h.tracks a ha).later hle⟩

theorem Follows.update {now : Int} {s : State} {t : IdealState} (h : Follows now s t) :
    Follows now (s.withTable (s.antiDos.update V now)) t :=
  ⟨h.main, fun a ha => (h.tracks a ha).update V ha⟩

/-- A request registers the same value on both sides. -/
theorem Follows.registerIP {now : Int} {s : State} {t : IdealState} (h : Follows now s t)
    {ip : InAddr} (hip : ip ≠ deletionMark) :
    (s.antiDos.registerIP V ip now).1 = (refRegister (t.pairs ip) now).2 ∧
      ∀ a, a ≠ deletionMark → Tracks a (s.antiDos.registerIP V ip now).2
        (Function.update t.pairs ip (some (refRegister (t.pairs ip) now)) a) now := by
  obtain ⟨hvalue, hself⟩ := (h.tracks ip hip).registerIP_self V
  refine ⟨hvalue, fun a ha => ?_⟩
  -- the pairs of the other addresses stay on both sides
  by_cases hne : a = ip
  · subst hne
    rw [Function.update_self]
    exact hself
  · rw [Function.update_of_ne hne]
    exact (h.tracks a ha).registerIP_other V (Ne.symm hne)

theorem sendJob_withTable (s : State) (dos : AntiDOS) (job : SentJob) (sent : Bool) :
    sendJob (s.withTable dos) job sent = (sendJob s job sent).map fun t => t.withTable dos := by
  cases sent with
  | true => rfl
  | false =>
    simp only [sendJob, Bool.false_eq_true, if_false, Option.map_map]
    rfl

/-- With room in the table, the generation of a job does what the ideal one does. -/
theorem generateJob_follows {now : Int} {s : State} {t : IdealState} {srcIp : InAddr}
    {query : Query} {job : EtherAddr → Query → RequestInfo} {a : Answers} (h : Follows now s t)
    (hclock : now ≤ a.clock) (hroom : s.antiDos.isOversized = false) (hip : srcIp ≠ deletionMark) :
    Option.Rel (Follows a.clock) (generateJob V s srcIp query job a)
      (idealGenerateJob V t srcIp query job a) := by
  have hlater := h.later hclock
  obtain ⟨hvalue, htracks⟩ := hlater.registerIP (V := V) hip
  have hcfg : t.main.cfg = s.cfg := by
    rw [h.main]
    rfl
  rw [generateJob, idealGenerateJob, hcfg]
  -- both sides ask the same lists, so they get the same answer
  cases hmac : getMac V s.cfg.lst query a.rand a.time with
  | mk mac query' =>
    cases mac with
    | none => exact Option.Rel.some hlater
    | some mac =>
      simp only [hroom, Bool.false_eq_true, if_false, ← hvalue]
      by_cases hdos : isDOS (s.antiDos.registerIP V srcIp a.clock).1 a.dice
      · rw [if_pos hdos, if_pos hdos]
        refine Option.Rel.some ⟨?_, htracks⟩
        rw [h.main]
        rfl
      · rw [if_neg hdos, if_neg hdos]
        -- the pipe counts its failures in both states alike
        have hmain : { t.main with oversizeSleep := 1 } = State.withTable
            { s with oversizeSleep := 1, antiDos := (s.antiDos.registerIP V srcIp a.clock).2 }
            .init := by
          rw [h.main]
          rfl
        rw [hmain, sendJob_withTable, Option.map_map, hcfg]
        cases hsent : sendJob
            { s with oversizeSleep := 1, antiDos := (s.antiDos.registerIP V srcIp a.clock).2 }
            { lst := s.cfg.lst, query, rand := a.rand, time := a.time, job := job mac query' }
            a.sent with
        | none => exact Option.Rel.none
        | some u =>
          refine Option.Rel.some ⟨rfl, ?_⟩
          obtain ⟨-, -, hdos', -⟩ := sendJob_cases hsent
          rw [hdos']
          exact htracks

/-! ## Runs -/

/-- The table has room for another address, and an ARP request does not come from the address that
marks deleted entries. -/
structure HasRoom (s : State) (i : Input) : Prop where
  room : s.antiDos.data.length + 1 < antidosEntriesMax
  source : ∀ frame ∈ i.received, ntohs frame.protocol = ethertypeArp →
    ntohs (s.buffer.receive frame.bytes).arp.eaHdr.arOp = arpopRequest →
    (s.buffer.receive frame.bytes).arp.arpSpa ≠ deletionMark

instance decidableHasRoom (s : State) (i : Input) : Decidable (HasRoom s i) :=
  decidable_of_iff (s.antiDos.data.length + 1 < antidosEntriesMax ∧
      ∀ frame ∈ i.received, ntohs frame.protocol = ethertypeArp →
        ntohs (s.buffer.receive frame.bytes).arp.eaHdr.arOp = arpopRequest →
        (s.buffer.receive frame.bytes).arp.arpSpa ≠ deletionMark)
    ⟨fun h => ⟨h.1, h.2⟩, fun h => ⟨h.room, h.source⟩⟩

theorem isOversized_eq_false {dos : AntiDOS} (h : dos.data.length < antidosEntriesMax) :
    dos.isOversized = false :=
  decide_eq_false (not_le.2 h)

/-- A request registers its source at most once anew, and leaves room for the second job. -/
theorem generateJob_room {s t : State} {srcIp : InAddr} {query : Query}
    {job : EtherAddr → Query → RequestInfo} {a : Answers} (hasc : s.antiDos.IsAscending)
    (h : generateJob V s srcIp query job a = some t) :
    t.antiDos.data.length ≤ s.antiDos.data.length + 1 := by
  obtain ⟨-, -, ⟨hdos, -⟩ | ⟨-, hdos, -⟩⟩ := generateJob_cases h
  · rw [hdos]
    exact Nat.le_succ _
  · rw [hdos]
    exact length_registerIP_le V hasc srcIp a.clock

/-- The job to the intruder, when `arp_dir` asks for it. -/
theorem toIntruder_follows {now : Int} {s : State} {t : IdealState} {msg : EtherArp} {a : Answers}
    (h : Follows now s t) (hclock : now ≤ a.clock) (hmark : msg.arpSpa ≠ deletionMark)
    (hroom : s.antiDos.data.length + 1 < antidosEntriesMax) (b : Prop) [Decidable b] :
    Option.Rel (fun s' t' => Follows a.clock s' t' ∧ s'.antiDos.data.length < antidosEntriesMax)
      (if b then generateJobToIntruder V msg s a else some s)
      (if b then idealToIntruder V msg t a else some t) := by
  by_cases hb : b
  · rw [if_pos hb, if_pos hb]
    have hover := isOversized_eq_false (Nat.lt_of_succ_lt hroom)
    have hrel : Option.Rel (Follows a.clock) (generateJobToIntruder V msg s a)
        (idealToIntruder V msg t a) := generateJob_follows h hclock hover hmark
    rcases rel_cases hrel with ⟨hs, ht⟩ | ⟨s', t', hs, ht, hnext⟩
    · rw [hs, ht]
      exact Option.Rel.none
    · rw [hs, ht]
      exact Option.Rel.some ⟨hnext, (generateJob_room h.ascending hs).trans_lt hroom⟩
  · rw [if_neg hb, if_neg hb]
    exact Option.Rel.some ⟨h.later hclock, Nat.lt_of_succ_lt hroom⟩

/-- The job from the intruder, when `arp_dir` asks for it. -/
theorem fromIntruder_follows {now : Int} {s : State} {t : IdealState} {msg : EtherArp}
    {a : Answers} (h : Follows now s t) (hclock : now ≤ a.clock)
    (hmark : msg.arpSpa ≠ deletionMark) (hroom : s.antiDos.data.length < antidosEntriesMax)
    (b : Prop) [Decidable b] :
    Option.Rel (Follows a.clock) (if b then generateJobFromIntruder V msg s a else some s)
      (if b then idealFromIntruder V msg t a else some t) := by
  by_cases hb : b
  · rw [if_pos hb, if_pos hb, generateJobFromIntruder, idealFromIntruder]
    split_ifs
    · exact Option.Rel.some (h.later hclock)
    · exact generateJob_follows h hclock (isOversized_eq_false hroom) hmark
  · rw [if_neg hb, if_neg hb]
    exact Option.Rel.some (h.later hclock)

theorem handleRequest_follows {now : Int} {s : State} {t : IdealState} {i : Input}
    (h : Follows now s t) (hto : now ≤ i.toIntruder.clock)
    (hfrom : i.toIntruder.clock ≤ i.fromIntruder.clock)
    (hmark : s.buffer.arp.arpSpa ≠ deletionMark)
    (hroom : s.antiDos.data.length + 1 < antidosEntriesMax) :
    Option.Rel (Follows i.fromIntruder.clock) (handleRequest env V testsuite arpDir s i)
      (idealHandleRequest V env testsuite arpDir t i) := by
  obtain ⟨main, pairs⟩ := t
  obtain rfl : main = s.withTable .init := h.main
  rw [handleRequest, idealHandleRequest]
  dsimp only [State.withTable]
  cases reload env V testsuite s.cfg i.attempt with
  | none => exact Option.Rel.none
  | some cfg =>
    have hcfg : Follows now { s with cfg } ⟨{ s with cfg, antiDos := .init }, pairs⟩ :=
      ⟨rfl, h.tracks⟩
    -- the table of the first job is the one that the second job finds
    apply rel_bind (toIntruder_follows hcfg hto hmark hroom (arpDir.value &&& _ ≠ 0))
    rintro s' t' ⟨hnext, hroom'⟩
    exact fromIntruder_follows hnext hfrom hmark hroom' (arpDir.value &&& _ ≠ 0)

/-- An iteration follows the ideal one. -/
theorem step_follows {last : Int} {s : State} {t : IdealState} {i : Input} (h : Follows last s t)
    (hclock : (last :: i.readings).Pairwise (· ≤ ·)) (hroom : HasRoom s i) :
    Option.Rel (Follows i.fromIntruder.clock) (step env V testsuite arpDir s i)
      (idealStep V env testsuite arpDir t i) := by
  obtain ⟨hupdate, hto, hfrom⟩ := readings_le hclock
  have hswept : Follows i.clock (s.withTable (s.antiDos.update V i.clock)) t :=
    (h.later hupdate).update
  have hlater : Follows i.fromIntruder.clock (s.withTable (s.antiDos.update V i.clock)) t :=
    hswept.later (hto.trans hfrom)
  obtain ⟨main, pairs⟩ := t
  obtain rfl : main = s.withTable .init := h.main
  cases hreceived : i.received with
  | none =>
    simp only [step, idealStep, hreceived, State.withTable]
    cases Worker.countError s.errorCount with
    | none => exact Option.Rel.none
    | some n => exact Option.Rel.some ⟨rfl, hlater.tracks⟩
  | some frame =>
    have hlength := (update_data_sublist V h.ascending i.clock).length_le
    -- behind `recvfrom` the states differ in the table only
    have hframe : ∀ now, Follows now (s.withTable (s.antiDos.update V i.clock))
        ⟨s.withTable .init, pairs⟩ →
        Follows now (s.received V i frame) ⟨(s.received V i frame).withTable .init, pairs⟩ :=
      fun now hnow => ⟨rfl, hnow.tracks⟩
    by_cases hother : ntohs frame.protocol ≠ ethertypeArp ∨
        ntohs (s.buffer.receive frame.bytes).arp.eaHdr.arOp ≠ arpopRequest
    · have hideal : idealStep V env testsuite arpDir ⟨s.withTable .init, pairs⟩ i =
          some ⟨(s.received V i frame).withTable .init, pairs⟩ := by
        simp only [idealStep, hreceived]
        by_cases hprotocol : ntohs frame.protocol ≠ ethertypeArp
        · exact if_pos hprotocol
        · exact (if_neg hprotocol).trans (if_pos (hother.resolve_left hprotocol))
      rw [step_of_other hreceived hother, hideal]
      exact Option.Rel.some (hframe _ hlater)
    · obtain ⟨hprotocol, hop⟩ := not_or.1 hother
      have hideal : idealStep V env testsuite arpDir ⟨s.withTable .init, pairs⟩ i =
          idealHandleRequest V env testsuite arpDir
            ⟨(s.received V i frame).withTable .init, pairs⟩ i := by
        simp only [idealStep, hreceived]
        exact (if_neg hprotocol).trans (if_neg hop)
      rw [step_of_request hreceived (not_not.1 hprotocol) (not_not.1 hop), hideal]
      have hmark := hroom.source frame hreceived (not_not.1 hprotocol) (not_not.1 hop)
      apply handleRequest_follows (hframe _ hswept) hto hfrom hmark
      exact (Nat.succ_le_succ hlength).trans_lt hroom.room

/-- The relation of the simulation: the clock readings to come do not go back, and the iterations
to come find room in the table. -/
def FollowsOn (env : ExpandEnv) (V : VectorLib) (testsuite : Bool) (arpDir : ArpDir)
    (inputs : List Input) (s : State) (t : IdealState) : Prop :=
  ∃ now, Follows now s t ∧ (now :: inputs.flatMap Input.readings).Pairwise (· ≤ ·) ∧
    StepsMeet (step env V testsuite arpDir) HasRoom inputs s

theorem inLockstep_ideal :
    InLockstep (step env V testsuite arpDir) (idealStep V env testsuite arpDir)
      (FollowsOn env V testsuite arpDir) := by
  rintro i is s t ⟨now, hfollows, hclock, hroom⟩
  obtain ⟨hfirst, hrest⟩ := readings_cons hclock
  rcases rel_cases (step_follows hfollows hfirst hroom.1) with ⟨hs, ht⟩ | ⟨s', t', hs, ht, hnext⟩
  · rw [hs, ht]
    exact Option.Rel.none
  · rw [hs, ht]
    exact Option.Rel.some ⟨i.fromIntruder.clock, hnext, hrest, hroom.2 s' hs⟩

/-- While the table has room, the loop does in every run what the loop over independent counters
does: up to the table both are in the same state, or both have ended. -/
theorem run_eq_ideal (env : ExpandEnv) (V : VectorLib) (testsuite : Bool) (arpDir : ArpDir)
    (cfg : ReloadState) (buffer : Buffer) (inputs : List Input)
    (hclock : (inputs.flatMap Input.readings).Pairwise (· ≤ ·))
    (hroom : StepsMeet (step env V testsuite arpDir) HasRoom inputs (start cfg buffer)) :
    (run (step env V testsuite arpDir) inputs (start cfg buffer)).map (State.withTable · .init) =
      (run (idealStep V env testsuite arpDir) inputs (idealStart cfg buffer)).map
        IdealState.main := by
  obtain ⟨now, hnow⟩ := exists_now hclock
  have hstart : FollowsOn env V testsuite arpDir inputs (start cfg buffer)
      (idealStart cfg buffer) :=
    ⟨now, ⟨rfl, fun a _ => tracks_init a now⟩, hnow, hroom⟩
  refine map_eq_of_rel (S := FollowsOn env V testsuite arpDir []) ?_
    (run_rel inLockstep_ideal hstart)
  rintro s t ⟨now, hfollows, -⟩
  exact hfollows.main.symm

/-- Requests of three hosts within 16 seconds. -/
def sweptInputs : List Input :=
  [frameInputAt 0 0 0 (frameOf 9 1), frameInputAt 0 0 0 (frameOf 8 1),
    frameInputAt 5 5 0 (frameOf 8 2), frameInputAt 15 15 0 (frameOf 7 1),
    frameInputAt 15 16 0 (frameOf 8 3)]

/-- The sweep in second 15 drops the entry of 0.0.0.9, and the one of 0.0.0.8 starts over a second
later. -/
theorem run_eq_ideal_swept :
    (run (step referenceEnv referenceVector false .dirTO) sweptInputs
        (start loadedRule fun _ => 0)).map (State.withTable · .init) =
      (run (idealStep referenceVector referenceEnv false .dirTO) sweptInputs
        (idealStart loadedRule fun _ => 0)).map IdealState.main ∧
    (run (step referenceEnv referenceVector false .dirTO) sweptInputs
        (start loadedRule fun _ => 0)).map (fun s => s.antiDos.data) =
      some [⟨ntohl 7, 15, 1⟩, ⟨ntohl 8, 16, 1⟩] :=
  ⟨run_eq_ideal referenceEnv referenceVector false .dirTO loadedRule _ _ (by decide)
    (by decide +kernel), by decide +kernel⟩

end IpSentinel.MainLoop

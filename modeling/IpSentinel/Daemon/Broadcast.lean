import IpSentinel.Daemon.Machine
import IpSentinel.MainLoop.Leftovers

/-!
# What is broadcast

A frame to all hosts may only announce an address that the blacklist has an answer for. The regular
reply to a jobSRC request announces the requested address, whatever the blacklist says about it, and
is sent to the sender MAC of the request, which the intruder chooses.
`broadcasts_blocked_iff` says that this is the only way to broadcast another address.
-/

set_option autoImplicit false

namespace IpSentinel.Daemon

open Foundation BlackList MainLoop Worker

/-- A frame of a job announces the address that was looked up, with an answer, and is not the
regular reply to a jobSRC request. -/
structure AnnouncesBlocked (p : Setting) (sent : SentJob) (packet : Packet) : Prop where
  announces : packet.message.data.arpSpa = sent.query.ip
  answered : (getMac p.vector sent.lst sent.query sent.rand sent.time).1 ≠ none
  queried : sent.query.ip =
    match sent.job.type with
    | .jobDST => sent.job.request.arpTpa
    | .jobSRC => sent.job.request.arpSpa
  notRegular : sent.job.type = .jobSRC → ¬ IsRegular p.worker sent.job packet

/-- Every frame passed to `sendto` for all hosts belongs to a job the worker has read, and announces
a blocked address for every such job. -/
def BroadcastsBlocked (p : Setting) (s : State) : Prop :=
  ∀ packet ∈ transmitted s.worker.log, packet.message.header.etherDhost = .bcast →
    (∃ sent ∈ s.read, IsFrameOf p.worker sent.job packet) ∧
    ∀ sent ∈ s.read, IsFrameOf p.worker sent.job packet → AnnouncesBlocked p sent packet

/-- The request comes from an intruder whose sender MAC is that of all hosts. -/
def FromBroadcast (rq : RequestInfo) : Prop := rq.type = .jobSRC ∧ rq.request.arpSha = .bcast

instance (rq : RequestInfo) : Decidable (FromBroadcast rq) :=
  inferInstanceAs (Decidable (_ ∧ _))

/-- Unless the step ends the process, the worker reads no request of this kind. -/
def ReadsNoBroadcast (p : Setting) (s : State) (i : Input) : Prop :=
  ∀ rq ∈ requestRead s i, step p s i ≠ none → ¬ FromBroadcast rq

instance (p : Setting) (s : State) (i : Input) : Decidable (ReadsNoBroadcast p s i) :=
  inferInstanceAs (Decidable (∀ rq ∈ requestRead s i, _))

/-! ## Frames for all hosts -/

/-- A broadcast frame of a job from another sender announces a blocked address. -/
theorem announcesBlocked_of_bcast {p : Setting} {sent : SentJob} {packet : Packet}
    (hsound : sent.Sound p.vector) (hframe : IsFrameOf p.worker sent.job packet)
    (hbcast : packet.message.header.etherDhost = .bcast) (hnot : ¬ FromBroadcast sent.job) :
    AnnouncesBlocked p sent packet := by
  have hanswered : (getMac p.vector sent.lst sent.query sent.rand sent.time).1 ≠ none := by
    rw [hsound.mac]
    exact Option.some_ne_none _
  have hquery := hsound.query
  cases htype : sent.job.type with
  | jobDST =>
    -- the regular reply announces the requested address
    rcases hframe with hregular | hpoisoned
    · obtain ⟨shost, rfl⟩ := regular_eq hregular
      rw [htype] at hquery
      exact ⟨by rw [hquery]; rfl, hanswered, by rw [hquery, htype]; rfl, by simp [htype]⟩
    · rw [hpoisoned.2.1] at htype
      cases htype
  | jobSRC =>
    rw [htype] at hquery
    have hregular : ¬ IsRegular p.worker sent.job packet := by
      intro hregular
      obtain ⟨shost, rfl⟩ := regular_eq hregular
      rw [htype] at hbcast
      exact hnot ⟨htype, hbcast⟩
    obtain ⟨-, -, regular, t, hfrom, rfl⟩ := hframe.resolve_left hregular
    obtain ⟨shost, rfl⟩ := regular_eq hfrom
    -- the poisoned frame announces the address of the sender
    refine ⟨?_, hanswered, by rw [hquery, htype]; rfl, fun _ => hregular⟩
    rw [hquery]
    simp only [poisonJob, htype]
    rfl

theorem broadcastsBlocked_iff_read {p : Setting} {s : State} (h : Linked p s) :
    BroadcastsBlocked p s ↔ ∀ sent ∈ s.read, ¬ FromBroadcast sent.job := by
  have hsound : ∀ sent ∈ s.read, sent.Sound p.vector :=
    fun sent hsent => h.sound sent (List.mem_of_mem_take hsent)
  constructor
  · rintro hblocked sent hsent ⟨htype, hsha⟩
    -- the regular reply to the request has been passed to `sendto`
    have hrq : sent.job ∈ requestsRead s.worker.log := by
      rw [h.requests]
      exact List.mem_map_of_mem hsent
    obtain ⟨packet, hpacket, hregular⟩ := regular_transmitted h.accounted hrq
    have hbcast : packet.message.header.etherDhost = .bcast := by
      obtain ⟨shost, rfl⟩ := regular_eq hregular
      rw [htype]
      exact hsha
    have hannounces := (hblocked packet hpacket hbcast).2 sent hsent (Or.inl hregular)
    exact hannounces.notRegular htype hregular
  · intro hnot packet hpacket hbcast
    obtain ⟨rq, hrq, hframe⟩ := exists_request_of_transmitted h.accounted hpacket
    rw [h.requests] at hrq
    obtain ⟨sent, hsent, rfl⟩ := List.mem_map.1 hrq
    refine ⟨⟨sent, hsent, hframe⟩, fun sent' hsent' hframe' => ?_⟩
    exact announcesBlocked_of_bcast (hsound sent' hsent') hframe' hbcast (hnot sent' hsent')

/-! ## Runs -/

/-- A step keeps the broadcasts blocked exactly when it reads no request of the kind. -/
theorem broadcastsBlocked_step_iff {p : Setting} {s t : State} {i : Input} (h : Linked p s)
    (hblocked : BroadcastsBlocked p s) (hstep : step p s i = some t) :
    BroadcastsBlocked p t ↔ ReadsNoBroadcast p s i := by
  obtain ⟨ht, new, hread, hnew⟩ := linked_step h hstep
  have hgo : step p s i ≠ none := by
    rw [hstep]
    exact Option.some_ne_none t
  rw [broadcastsBlocked_iff_read h] at hblocked
  rw [broadcastsBlocked_iff_read ht, hread]
  constructor
  · intro hall rq hrq _
    have hmem : rq ∈ new.map SentJob.job := by
      rw [hnew]
      exact Option.mem_toList.2 hrq
    obtain ⟨sent, hsent, rfl⟩ := List.mem_map.1 hmem
    exact hall sent (List.mem_append_right _ hsent)
  · intro hreads sent hsent
    rcases List.mem_append.1 hsent with hold | hsent
    · exact hblocked sent hold
    · have hmem := List.mem_map_of_mem (f := SentJob.job) hsent
      rw [hnew] at hmem
      exact hreads sent.job (Option.mem_toList.1 hmem) hgo

/-- In a run every frame for all hosts announces blocked addresses only, exactly when the worker
reads no jobSRC request whose sender MAC is that of all hosts. -/
theorem broadcasts_blocked_iff (p : Setting) (cfg : ReloadState) (buffer : Buffer)
    (mem : Nat → ScheduleInfo) (elemSize : Nat) (w : Worker.State) (inputs : List Input)
    (hinit : Worker.init p.plat mem elemSize = some w) :
    (∀ pre, pre <+: inputs → ∀ t, run (step p) pre (start cfg buffer w) = some t →
      BroadcastsBlocked p t) ↔
      StepsMeet (step p) (ReadsNoBroadcast p) inputs (start cfg buffer w) := by
  have hlinked : Linked p (start cfg buffer w) := linked_start hinit
  have hblocked : BroadcastsBlocked p (start cfg buffer w) := by
    rw [broadcastsBlocked_iff_read hlinked]
    exact List.forall_mem_nil _
  -- the processes are linked in every state, so that only the broadcasts count
  rw [← forall_reached_iff_stepsMeet (I := fun s => Linked p s ∧ BroadcastsBlocked p s)
    (fun s i t hs hstep => ?_) (fun s i _ hend rq _ hgo => absurd hend hgo)
    ⟨hlinked, hblocked⟩ inputs]
  · constructor
    · intro h pre hpre t ht
      refine ⟨?_, h pre hpre t ht⟩
      exact run_invariant (fun s i t hs hstep => (linked_step hs hstep).1) hlinked ht
    · intro h pre hpre t ht
      exact (h pre hpre t ht).2
  · rw [and_iff_right (linked_step hs.1 hstep).1]
    exact broadcastsBlocked_step_iff hs.1 hs.2 hstep

/-! ## An amplified request -/

/-- The rule `0.0.0.9`. -/
def blockedHost : ReloadState where
  lst :=
    { ipList :=
        [{ v :=
            { ip := ntohl 9
              status := .blRAND
              mac := .zero
              atmac := ⟨.zero, .amNONE⟩
              decided := blRAND_decided } }]
      netList := []
      lastMtime := 5 }
  errorCount := 0

def sampleSetting : Setting where
  env := referenceEnv
  vector := referenceVector
  testsuite := false
  arpDir := .dirBOTH
  plat := lp64
  worker := { doPoison := true, ifIdx := 2, llmac := .mcSame }

/-- The request of 0.0.0.9 for an address that ends in `octet`, with another sender MAC. -/
def requestFrom (sha : EtherAddr) (octet : UInt8) : Frame where
  bytes := (requestBytes octet).take 22 ++ sha.octet.toList ++ (requestBytes octet).drop 28
  protocol := htons 0x0806
  fits := by simp [requestBytes]

/-- The job for this request. -/
def jobFrom (sha : EtherAddr) (octet : UInt8) : RequestInfo where
  request := (Buffer.receive (fun _ => 0) (requestFrom sha octet).bytes).arp
  mac := setRandomMac 0 0
  type := .jobSRC
  poisonMac := none

/-- The request arrives when the clock reads 0, and the worker reads its job. -/
def requestInputs (sha : EtherAddr) (octet : UInt8) : List Input :=
  [.main (frameInput (requestFrom sha octet)), .worker (.poll 0),
    .worker (.selectReturns (some ⟨0, some (jobFrom sha octet), 0, 0, true⟩) 0)]

/-- A request with an ordinary sender MAC, with one frame sent at once. -/
theorem broadcasts_blocked_iff_sample :
    ∃ w, Worker.init lp64 sampleMem 96 = some w ∧
      (run (step sampleSetting) (requestInputs ⟨#v[0, 2, 4, 6, 8, 10]⟩ 1)
        (start blockedHost (fun _ => 0) w)).map (fun t => (transmitted t.worker.log).length) =
        some 1 ∧
      ∀ pre, pre <+: requestInputs ⟨#v[0, 2, 4, 6, 8, 10]⟩ 1 →
        ∀ t, run (step sampleSetting) pre (start blockedHost (fun _ => 0) w) = some t →
          BroadcastsBlocked sampleSetting t :=
  ⟨_, rfl, by decide +kernel,
    (broadcasts_blocked_iff sampleSetting blockedHost (fun _ => 0) sampleMem 96 _
      (requestInputs ⟨#v[0, 2, 4, 6, 8, 10]⟩ 1) rfl).2 (by decide +kernel)⟩

/-- When 0.0.0.9 asks for 0.0.0.1 with the sender MAC of all hosts, a frame to all hosts announces
0.0.0.1, about which the blacklist has nothing. -/
theorem bcast_sender_amplified :
    ∃ w, Worker.init lp64 sampleMem 96 = some w ∧
      (run (step sampleSetting) (requestInputs .bcast 1) (start blockedHost (fun _ => 0) w)).map
        (fun t => (transmitted t.worker.log).map fun packet =>
          (packet.message.header.etherDhost, packet.message.data.arpSpa)) =
        some [(.bcast, ntohl 1)] ∧
      (getMac referenceVector blockedHost.lst ⟨.zero, ntohl 1, none, none⟩ 0 0).1 = none :=
  ⟨_, rfl, by decide +kernel, by decide +kernel⟩

end IpSentinel.Daemon

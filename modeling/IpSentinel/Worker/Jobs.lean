import IpSentinel.Foundation.CompareFunc
import IpSentinel.Foundation.Platform
import IpSentinel.Net.ArpMessage

/-!
# Requests and jobs

The request the main process writes into the pipe, the frame the worker builds from it, and the
jobs it queues: `jobinfo.h` and the functions of `worker.c` on single jobs. The members `fd`,
`sock` and `action_cmd` of the worker and the printing of requests are left out.
-/

set_option autoImplicit false

namespace IpSentinel

open Foundation

/-- The type of a request: it came *from* an intruder, or it asks *for* one. -/
inductive JobType where
  | jobSRC
  | jobDST
  deriving DecidableEq, Repr

/-- `struct RequestInfo`. The flag `poison_mac.f` is the presence of `poisonMac`. -/
structure RequestInfo where
  request : EtherArp
  mac : EtherAddr
  type : JobType
  poisonMac : Option EtherAddr
  deriving DecidableEq, Repr

/-- What `sendto` is given: the members `message` and `address` of a job. -/
structure Packet where
  message : ArpMessage
  address : SockaddrLl
  deriving DecidableEq, Repr

/-- `struct ScheduleInfo`. -/
structure ScheduleInfo extends Packet where
  scheduleTime : Int
  deriving DecidableEq, Repr

/-- `struct Worker`. -/
structure Worker where
  doPoison : Bool
  ifIdx : Int
  llmac : TaggedMac
  deriving DecidableEq, Repr

namespace Worker

/-- The padding of a reply: zero but for the two bytes at each end. -/
def replyPadding : Vector UInt8 19 :=
  ((((Vector.replicate 19 0).set 0 0x66).set 1 0x60).set 17 0x0B).set 18 0x5E

/-- The link-level source of a reply to an intruder. `arguments.c` replaces `mcLOCAL` before the
worker starts; on one left over the process ends. -/
def linkLevelMac (worker : Worker) (rq : RequestInfo) (rand : Nat) (time : Int) :
    Option EtherAddr :=
  match worker.llmac with
  | .mcSame => some rq.mac
  | .mcFixed ether => some ether
  | .mcRandom => some (setRandomMac rand time)
  | .mcLocal => none

/-- The reply to `rq` with the given link-level source and destination. -/
def replyPacket (worker : Worker) (rq : RequestInfo) (shost dhost : EtherAddr) : Packet where
  message :=
    { header := { etherDhost := dhost, etherShost := shost, etherType := htons ethPArp }
      data :=
        { eaHdr :=
            { arHrd := htons arphrdEther
              arPro := htons ethertypeIp
              arHln := etherAddrLen
              arPln := 4
              arOp := htons arpopReply }
          arpSha := rq.mac
          arpSpa := rq.request.arpTpa
          arpTha := rq.request.arpSha
          arpTpa := rq.request.arpSpa }
      padding := replyPadding }
  address :=
    { sllFamily := afPacket
      sllProtocol := 0
      sllIfindex := worker.ifIdx
      sllHatype := 0
      sllPkttype := 0
      sllHalen := etherAddrLen
      sllAddr := dhost.octet ++ (Vector.replicate 2 0 : Vector UInt8 2) }

/-- `Worker_fillPacket`; `rand` and `time` are what `Util_setRandomMac` reads, if it is called. -/
def fillPacket (worker : Worker) (rq : RequestInfo) (rand : Nat) (time : Int) : Option Packet :=
  match rq.type with
  | .jobDST => some (worker.replyPacket rq rq.mac .bcast)
  | .jobSRC =>
    (worker.linkLevelMac rq rand time).map fun shost =>
      worker.replyPacket rq shost rq.request.arpSha

/-- `Worker_poisonJob`: the returned flag and the job. -/
def poisonJob (job : ScheduleInfo) (rq : RequestInfo) : Bool × ScheduleInfo :=
  match rq.type with
  | .jobSRC =>
    -- a broadcast reply that tells all hosts a wrong address of the intruder
    let sha := rq.poisonMac.getD rq.mac
    let header := { job.message.header with etherDhost := EtherAddr.bcast }
    let data :=
      { job.message.data with
        arpSha := sha
        arpSpa := job.message.data.arpTpa
        arpTha := EtherAddr.bcast
        arpTpa := 0 }
    (true, { job with message := { job.message with header, data } })
  | .jobDST => (false, job)

/-- `Worker_jobCompare`: the difference is computed in `time_t` and returned as `int`. -/
def jobCompare : CompareFunc ScheduleInfo := fun lhs rhs =>
  toInt (-(lhs.scheduleTime - rhs.scheduleTime))

/-- The schedule times of the jobs differ by less than `2^31` seconds. -/
def CloseInTime (jobs : Set ScheduleInfo) : Prop :=
  ∀ a ∈ jobs, ∀ b ∈ jobs, a.scheduleTime - b.scheduleTime < 2 ^ 31

theorem jobCompare_eq {jobs : Set ScheduleInfo} (h : CloseInTime jobs) {a b : ScheduleInfo}
    (ha : a ∈ jobs) (hb : b ∈ jobs) : jobCompare a b = b.scheduleTime - a.scheduleTime := by
  have hab := h a ha b hb
  have hba := h b hb a ha
  have hneg : -(a.scheduleTime - b.scheduleTime) = b.scheduleTime - a.scheduleTime := by omega
  rw [jobCompare, hneg]
  exact toInt_of_range (by omega) (by omega)

/-- On jobs close in time `jobCompare` puts the later job first, and orders them totally. -/
theorem jobCompare_totalPreorderOn {jobs : Set ScheduleInfo} (h : CloseInTime jobs) :
    TotalPreorderOn jobCompare jobs where
  pos_iff a ha b hb := by
    -- without overflow the comparison is a difference
    rw [jobCompare_eq h ha hb, jobCompare_eq h hb ha]
    omega
  trans a ha b hb c hc := by
    rw [jobCompare_eq h ha hb, jobCompare_eq h hb hc, jobCompare_eq h ha hc]
    omega

end Worker

end IpSentinel

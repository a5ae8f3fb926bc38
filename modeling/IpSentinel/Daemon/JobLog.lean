import IpSentinel.Daemon.Broadcast
import IpSentinel.Worker.PrintJob

/-!
# What the log tells

The worker writes a line about each job it reads from the pipe. `jobLog_of_run` reads the log of a
run back: it lists the jobs that the main process has sent and the worker has read, each once and in
the order in which they were sent, with the MAC that the blacklist answered.
-/

set_option autoImplicit false

namespace IpSentinel.Daemon

open Foundation BlackList MainLoop Worker

/-- The log of the worker, where the line `n` has the time `stamp n`. -/
def State.jobLog {lib : AddressLib} (P : PrintLib lib) (stamp : Nat → Stamp) (s : State) :
    List Char :=
  logText P ((requestsRead s.worker.log).zipIdx.map fun e => (stamp e.2, e.1))

/-- The arguments of the actions that the worker has started. -/
def State.actions {lib : AddressLib} (P : PrintLib lib) (cmd : List Char) (s : State) :
    List (List (List Char)) :=
  (requestsRead s.worker.log).filterMap fun rq => callAction (some cmd) (jobDesc P rq)

/-- The jobs that the worker has read, as the log should tell them. -/
def State.reports (s : State) : List Report := s.read.map fun sent => report sent.job

/-- There is a report for each request. -/
theorem Linked.reports {p : Setting} {s : State} (h : Linked p s) :
    s.reports = (requestsRead s.worker.log).map report := by
  rw [h.requests, List.map_map]
  rfl

theorem readLog_jobLog {lib : AddressLib} {P : PrintLib lib} {p : Setting} {s : State}
    {stamp : Nat → Stamp} (h : Linked p s) (hvalid : ∀ n, (stamp n).Valid) :
    readLog lib (s.jobLog P stamp) = some (s.reports.zipIdx.map fun e => (stamp e.2, e.1)) := by
  rw [State.jobLog, readLog_logText, h.reports, List.map_map, List.zipIdx_map, List.map_map]
  · rfl
  · intro e he
    obtain ⟨e, -, rfl⟩ := List.mem_map.1 he
    exact hvalid e.2

theorem readArgs_actions {lib : AddressLib} {P : PrintLib lib} {p : Setting} {s : State}
    (h : Linked p s) (cmd : List Char) :
    (s.actions P cmd).map (readArgs lib) = s.reports.map some := by
  rw [State.actions, h.reports, List.map_filterMap, List.map_map, List.filterMap_congr fun rq _ =>
    readArgs_callAction cmd rq]
  exact congrFun List.filterMap_eq_map' _

/-- The log of every run, and the arguments of its actions, read back. -/
theorem jobLog_of_run (p : Setting) (cfg : ReloadState) (buffer : Buffer)
    (mem : Nat → ScheduleInfo) (elemSize : Nat) (w : Worker.State) (inputs : List Input) (t : State)
    (lib : AddressLib) (P : PrintLib lib) (cmd : List Char) (stamp : Nat → Stamp)
    (hinit : Worker.init p.plat mem elemSize = some w)
    (hrun : run (step p) inputs (start cfg buffer w) = some t)
    (hvalid : ∀ n, (stamp n).Valid) :
    readLog lib (t.jobLog P stamp) = some (t.reports.zipIdx.map fun e => (stamp e.2, e.1)) ∧
    (t.actions P cmd).map (readArgs lib) = t.reports.map some ∧
    ∀ sent ∈ t.read, (getMac p.vector sent.lst sent.query sent.rand sent.time).1 =
      some (report sent.job).mac := by
  have hlinked := run_invariant (fun s i t hs hstep => (linked_step hs hstep).1)
    (linked_start hinit) hrun
  exact ⟨readLog_jobLog hlinked hvalid, readArgs_actions hlinked cmd,
    fun sent hsent => (hlinked.sound sent (List.mem_of_mem_take hsent)).mac⟩

theorem noon_valid : (Stamp.time "12:00:00".toList 7).Valid := by
  have hchars : ("12:00:00".toList.all fun c => c.isDigit ∨ c = ':') = true := rfl
  exact ⟨rfl, by simpa only [List.all_eq_true, decide_eq_true_eq] using hchars, by decide⟩

/-- The request of 0.0.0.9, which comes at noon. -/
theorem jobLog_of_run_sample :
    ∃ w t, Worker.init lp64 sampleMem 96 = some w ∧
      run (step sampleSetting) (requestInputs ⟨#v[0, 2, 4, 6, 8, 10]⟩ 1)
        (start blockedHost (fun _ => 0) w) = some t ∧
      readLog (ownAddressLib dottedQuad)
          (t.jobLog ownPrintLib fun _ => .time "12:00:00".toList 7) =
        some (t.reports.zipIdx.map fun e => (.time "12:00:00".toList 7, e.1)) ∧
      (t.actions ownPrintLib "/sbin/action".toList).map (readArgs (ownAddressLib dottedQuad)) =
        t.reports.map some ∧
      ∀ sent ∈ t.read, (getMac referenceVector sent.lst sent.query sent.rand sent.time).1 =
        some (report sent.job).mac :=
  ⟨_, _, rfl, rfl, jobLog_of_run sampleSetting blockedHost (fun _ => 0) sampleMem 96 _
    (requestInputs ⟨#v[0, 2, 4, 6, 8, 10]⟩ 1) _ (ownAddressLib dottedQuad) ownPrintLib
    "/sbin/action".toList (fun _ => .time "12:00:00".toList 7) rfl rfl fun _ => noon_valid⟩

end IpSentinel.Daemon

import IpSentinel.MainLoop.Machine
import IpSentinel.Worker.Frames

/-!
# The two processes

The main process writes jobs into a pipe, and the worker reads them. A state is one of the main
process and one of the worker, with the number of jobs the worker has taken from the pipe; a step is
one of either process, in any order. A job that the worker reads is the first in the pipe.

`Linked` is what holds in every state: the worker has read the first jobs that were sent, in order,
every job says what its lookup says, and the worker accounts for the requests it has read.
-/

set_option autoImplicit false

namespace IpSentinel.Daemon

open Foundation BlackList MainLoop

/-- The state of both processes. -/
structure State where
  main : MainLoop.State
  taken : Nat
  worker : Worker.State

/-- The process that makes a step, and what it meets. -/
inductive Input where
  | main (i : MainLoop.Input)
  | worker (i : Worker.Input)

/-- What the program is given: the libraries, the options and the build. -/
structure Setting where
  env : ExpandEnv
  vector : VectorLib
  testsuite : Bool
  arpDir : ArpDir
  plat : Platform
  worker : Worker

/-- The jobs the worker has read, with the lookups they come from. -/
def State.read (s : State) : List SentJob := s.main.log.take s.taken

/-- The request the input makes the worker read. -/
def requestRead (s : State) : Input → Option RequestInfo
  | .main _ => none
  | .worker i => Worker.requestRead s.worker i

variable (p : Setting)

/-- A step of one of the processes; `none` where it ends. -/
def step (s : State) : Input → Option State
  | .main i =>
    (MainLoop.step p.env p.vector p.testsuite p.arpDir s.main i).map fun main => { s with main }
  | .worker i =>
    match Worker.requestRead s.worker i with
    | none => (Worker.step p.plat p.worker s.worker i).map fun worker => { s with worker }
    | some rq =>
      -- the first job in the pipe
      if (s.main.log.drop s.taken).head?.map SentJob.job = some rq then
        (Worker.step p.plat p.worker s.worker i).map fun worker =>
          { s with worker, taken := s.taken + 1 }
      else none

/-- The state in which both processes enter their loops. -/
def start (cfg : ReloadState) (buffer : Buffer) (worker : Worker.State) : State :=
  { main := MainLoop.start cfg buffer, taken := 0, worker }

/-! ## What holds in every state -/

variable {p}

/-- What a step can do: the main process makes an iteration, or the worker makes a step without
reading the pipe, or it reads the first job in the pipe. -/
theorem step_cases {s t : State} {i : Input} (h : step p s i = some t) :
    (∃ j main, i = .main j ∧
      MainLoop.step p.env p.vector p.testsuite p.arpDir s.main j = some main ∧
      t = { s with main }) ∨
    (∃ j worker, i = .worker j ∧ Worker.requestRead s.worker j = none ∧
      Worker.step p.plat p.worker s.worker j = some worker ∧ t = { s with worker }) ∨
    ∃ j sent worker, i = .worker j ∧ Worker.requestRead s.worker j = some sent.job ∧
      (s.main.log.drop s.taken).head? = some sent ∧
      Worker.step p.plat p.worker s.worker j = some worker ∧
      t = { s with worker, taken := s.taken + 1 } := by
  cases i with
  | main j =>
    obtain ⟨main, hmain, rfl⟩ := Option.map_eq_some_iff.1 h
    exact Or.inl ⟨j, main, rfl, hmain, rfl⟩
  | worker j =>
    cases hread : Worker.requestRead s.worker j with
    | none =>
      simp only [step, hread] at h
      obtain ⟨worker, hworker, rfl⟩ := Option.map_eq_some_iff.1 h
      exact Or.inr (Or.inl ⟨j, worker, rfl, hread, hworker, rfl⟩)
    | some rq =>
      simp only [step, hread] at h
      split_ifs at h with hhead
      obtain ⟨worker, hworker, rfl⟩ := Option.map_eq_some_iff.1 h
      obtain ⟨sent, hsent, rfl⟩ := Option.map_eq_some_iff.1 hhead
      exact Or.inr (Or.inr ⟨j, sent, worker, rfl, hread, hsent, hworker, rfl⟩)

/-- The processes and the pipe between them. -/
structure Linked (p : Setting) (s : State) : Prop where
  taken_le : s.taken ≤ s.main.log.length
  requests : Worker.requestsRead s.worker.log = s.read.map SentJob.job
  sound : ∀ sent ∈ s.main.log, sent.Sound p.vector
  accounted : Worker.Accounted p.worker s.worker

/-- A step keeps the processes linked, and adds the job that is read to those that have been. -/
theorem linked_step {s t : State} {i : Input} (h : Linked p s) (hstep : step p s i = some t) :
    Linked p t ∧ ∃ new, t.read = s.read ++ new ∧
      new.map SentJob.job = (requestRead s i).toList := by
  rcases step_cases hstep with ⟨j, main, rfl, hmain, rfl⟩ | ⟨j, worker, rfl, hread, hworker, rfl⟩ |
    ⟨j, sent, worker, rfl, hread, hhead, hworker, rfl⟩
  · obtain ⟨new, hlog, hnew⟩ := MainLoop.step_log hmain
    -- the jobs that have been read are in front of the new ones
    have hsame : ({ s with main } : State).read = s.read := by
      rw [State.read, hlog, List.take_append_of_le_length h.taken_le]
      rfl
    refine ⟨⟨?_, hsame ▸ h.requests, ?_, h.accounted⟩, [], by rw [hsame, List.append_nil], rfl⟩
    · rw [hlog, List.length_append]
      exact Nat.le_add_right_of_le h.taken_le
    · intro sent hsent
      rw [hlog] at hsent
      exact (List.mem_append.1 hsent).elim (h.sound sent) (hnew sent)
  · have hrequests := Worker.requestsRead_step hworker
    rw [hread, Option.toList_none, List.append_nil] at hrequests
    refine ⟨⟨h.taken_le, hrequests.trans h.requests, h.sound,
      Worker.accounted_step h.accounted hworker⟩, [], (List.append_nil _).symm, ?_⟩
    rw [requestRead, hread]
    rfl
  · have hrequests := Worker.requestsRead_step hworker
    rw [List.head?_drop] at hhead
    have hlt : s.taken < s.main.log.length := by
      by_contra hle
      rw [List.getElem?_eq_none (not_lt.1 hle)] at hhead
      cases hhead
    have hnext : s.main.log.take (s.taken + 1) = s.main.log.take s.taken ++ [sent] := by
      rw [List.take_add_one, hhead]
      rfl
    refine ⟨⟨hlt, ?_, h.sound, Worker.accounted_step h.accounted hworker⟩, [sent], hnext, ?_⟩
    · rw [hrequests, hread, h.requests, State.read, State.read, hnext, List.map_append]
      rfl
    · rw [requestRead, hread]
      rfl

theorem linked_start {cfg : ReloadState} {buffer : Buffer} {worker : Worker.State}
    {mem : Nat → ScheduleInfo} {elemSize : Nat}
    (h : Worker.init p.plat mem elemSize = some worker) : Linked p (start cfg buffer worker) where
  taken_le := Nat.zero_le _
  requests := by
    show Worker.requestsRead worker.log = _
    rw [(Worker.init_some h).2.2]
    rfl
  sound := List.forall_mem_nil _
  accounted := Worker.accounted_init h

end IpSentinel.Daemon

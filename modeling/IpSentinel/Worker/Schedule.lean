import IpSentinel.PriorityQueue.HeapProperty
import IpSentinel.Worker.Machine

/-!
# Due jobs

The drain loop of `Worker_run` looks at the top of the queue only. While the queue is a heap for
`jobCompare`, the top job is the earliest, and a loop that ends leaves no due job behind. An
extraction that is not clean (`PriorityQueue.CleanExtract`) breaks the heap, and a due job can stay
behind a later one: `drains_complete` is the rule for the runs without such an extraction, and
`job_held_back` is a run with one.
-/

set_option autoImplicit false

namespace IpSentinel.Worker

open Foundation PriorityQueue

/-- The jobs of a queue. -/
def jobs (q : PriorityQueue ScheduleInfo) : Set ScheduleInfo := {job | job ∈ q.contents}

/-- Whenever a drain loop of the run ends, no job left in the queue is due. -/
def DrainsComplete (plat : Platform) (worker : Worker) (inputs : List Input) (s₀ : State) : Prop :=
  ∀ pre i, pre ++ [i] <+: inputs → ∀ s now t, run (step plat worker) pre s₀ = some s →
    s.place = .draining now → step plat worker s i = some t → t.place = .head →
      ∀ job ∈ t.queue.contents, now < job.scheduleTime

/-- The schedule times in the queue differ by less than `2^31` seconds. -/
def TimesClose (s : State) (_ : Input) : Prop := CloseInTime (jobs s.queue)

instance (s : State) (i : Input) : Decidable (TimesClose s i) :=
  inferInstanceAs (Decidable (∀ a ∈ s.queue.contents, ∀ b ∈ s.queue.contents,
    a.scheduleTime - b.scheduleTime < 2 ^ 31))

/-- If the drain loop is about to extract a due job, the extraction is clean. -/
def CleanDrain (s : State) (_ : Input) : Prop :=
  match s.place, s.queue.max with
  | .draining now, some job => job.scheduleTime ≤ now → s.queue.CleanExtract
  | _, _ => True

instance (s : State) (i : Input) : Decidable (CleanDrain s i) := by
  unfold CleanDrain
  split <;> infer_instance

/-- The queue orders the jobs by `jobCompare`, and is a heap once their times are close. -/
def Ordered (s : State) : Prop :=
  s.queue.cmpFunc = jobCompare ∧ (CloseInTime (jobs s.queue) → s.queue.IsHeap)

theorem ordersContents {q : PriorityQueue ScheduleInfo} (hcmp : q.cmpFunc = jobCompare)
    (hclose : CloseInTime (jobs q)) : q.OrdersContents := by
  rw [OrdersContents, hcmp]
  exact jobCompare_totalPreorderOn hclose

theorem ordered_step {plat : Platform} {worker : Worker} {s t : State} {i : Input}
    (h : Ordered s) (hclose : TimesClose s i) (hclean : CleanDrain s i)
    (hstep : step plat worker s i = some t) : Ordered t := by
  obtain ⟨hcmp, hheap⟩ := h
  rcases step_cases hstep with ⟨hq, -, -⟩ | ⟨d, u, -, hu, hq, -, -⟩ |
    ⟨now, job, -, hplace, hmax, hdue, -, hq, -⟩
  · rw [Ordered, hq]
    exact ⟨hcmp, hheap⟩
  · rw [Ordered, hq]
    rcases scheduleNewJob_some hu with ⟨-, huq, -⟩ | ⟨rq, packet, warning, -, -, hins, -, -⟩
    · rw [huq]
      exact ⟨hcmp, hheap⟩
    · have hcmp' := (insertAll_cmpFunc hins).trans hcmp
      exact ⟨hcmp', fun hc => isHeap_insertAll hins (hheap hclose) (ordersContents hcmp' hc)⟩
  · -- the extraction of a due job, which is clean
    rw [Ordered, hq, extract_cmpFunc]
    refine ⟨hcmp, fun _ => ?_⟩
    have hcleanExtract : s.queue.CleanExtract := by
      simp only [CleanDrain, hplace, hmax] at hclean
      exact hclean hdue
    exact (isHeap_extract_iff (hheap hclose) (ordersContents hcmp hclose)).2 hcleanExtract

/-- In a heap no job is earlier than the one at the top. -/
theorem scheduleTime_max_le {q : PriorityQueue ScheduleInfo} (hcmp : q.cmpFunc = jobCompare)
    (hclose : CloseInTime (jobs q)) (hheap : q.IsHeap) {top job : ScheduleInfo}
    (hmax : q.max = some top) (hjob : job ∈ q.contents) :
    top.scheduleTime ≤ job.scheduleTime := by
  have hle := hheap.max_greatest (ordersContents hcmp hclose) hmax job hjob
  rw [hcmp, jobCompare_eq hclose hjob (max_mem hmax)] at hle
  omega

/-- In a run of the worker in which the queued schedule times are always close, and in which every
extraction of the drain loop is clean, no due job is left behind. -/
theorem drains_complete (plat : Platform) (worker : Worker) (mem : Nat → ScheduleInfo)
    (elemSize : Nat) (inputs : List Input) (s₀ : State)
    (hinit : init plat mem elemSize = some s₀)
    (hclose : StepsMeet (step plat worker) TimesClose inputs s₀)
    (hclean : StepsMeet (step plat worker) CleanDrain inputs s₀) :
    DrainsComplete plat worker inputs s₀ := by
  rintro pre i ⟨rest, rfl⟩ s now t hrun hplace hstep hhead job hjob
  rw [List.append_assoc] at hclose hclean
  -- the queue is ordered at the start and in every state of the run
  have hinitial : Ordered s₀ := by
    obtain ⟨hcount, hcmp, -⟩ := init_some hinit
    refine ⟨hcmp, fun _ => ?_⟩
    rw [IsHeap, hcount]
    exact heapOrdered_zero _
  obtain ⟨hcmp, hheap⟩ : Ordered s :=
    run_invariant_of_stepsMeet (fun s i t h hg => ordered_step h hg.1 hg.2) hinitial
      (hclose.of_append.and hclean.of_append) hrun
  have hclose' : CloseInTime (jobs s.queue) := (hclose.after hrun).1
  rcases step_cases hstep with ⟨hq, -, -, hnotdue⟩ | ⟨d, u, -, -, -, -, hnot⟩ |
    ⟨now', job', -, -, -, -, hplace', -⟩
  · -- the loop has ended because the queue is empty, or its top is not due
    rw [hq] at hjob
    cases hmax : s.queue.max with
    | none =>
      have hpos : 0 < s.queue.count := by
        rw [← card_contents]
        exact Multiset.card_pos_iff_exists_mem.2 ⟨job, hjob⟩
      simp [PriorityQueue.max, hpos.ne'] at hmax
    | some top =>
      have hle := scheduleTime_max_le hcmp hclose' (hheap hclose') hmax hjob
      have hlt := hnotdue now hplace top hmax
      omega
  · -- a request is read outside of the loop
    exact absurd hplace (hnot now)
  · -- behind an extraction the loop goes on
    rw [hhead] at hplace'
    cases hplace'

/-- One request, whose first copy is drained in time. -/
theorem drains_complete_sample :
    ∃ s₀, init lp64 sampleMem 96 = some s₀ ∧
      DrainsComplete lp64 sampleWorker
        (sampleIteration 0 true 7 1 ++ sampleIteration 7 false 9 2) s₀ :=
  ⟨_, rfl, drains_complete lp64 sampleWorker sampleMem 96
    (sampleIteration 0 true 7 1 ++ sampleIteration 7 false 9 2) _ rfl
    (by decide +kernel) (by decide +kernel)⟩

/-- The inputs of three requests at 7, 9 and 14, with the drain loops after them, and of an
iteration at 19 in which the drain loop makes `n` rounds. The clock reads 0, 7, 7, 9, 9, 14, 14
and 19. -/
def threeRequests (n : Nat) : List Input :=
  sampleIteration 0 true 7 1 ++ sampleIteration 7 true 9 2 ++ sampleIteration 9 true 14 4 ++
    sampleIteration 14 false 19 n

/-- In the second round at 19 the loop ends with a job due at 19 behind the one of 67. -/
theorem job_held_back :
    ∃ s₀, init lp64 sampleMem 96 = some s₀ ∧
      StepsMeet (step lp64 sampleWorker) TimesClose (threeRequests 2) s₀ ∧
      ¬ DrainsComplete lp64 sampleWorker (threeRequests 2) s₀ := by
  obtain ⟨s₀, h₀, hclose, s, hs, t, ht, hplace, hhead, hcount, hdue⟩ :
      ∃ s₀ ∈ init lp64 sampleMem 96,
        StepsMeet (step lp64 sampleWorker) TimesClose (threeRequests 2) s₀ ∧
        ∃ s ∈ run (step lp64 sampleWorker) (threeRequests 1) s₀,
        ∃ t ∈ step lp64 sampleWorker s (.drain true), s.place = .draining 19 ∧ t.place = .head ∧
          3 < t.queue.count ∧ (t.queue.data 3).scheduleTime = 19 := by decide +kernel
  refine ⟨s₀, h₀, hclose, fun h => ?_⟩
  have hlater := h (threeRequests 1) (.drain true) List.prefix_rfl s 19 t hs hplace ht hhead _
    (mem_cells_of_lt hcount)
  omega

end IpSentinel.Worker

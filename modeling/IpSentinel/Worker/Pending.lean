import IpSentinel.Worker.Machine

/-!
# The limit of pending jobs

`parameters.h` says that a new job above `MAX_REQUESTS` pending ones is dropped. At this limit
`Worker_scheduleNewJob` only writes a message and sleeps, and schedules the copies all the same.
`pendingLimited_iff` says for which runs the limit holds: those in which no request is read at the
limit. `flood_not_pendingLimited` is a run with 173 requests in one second.
-/

set_option autoImplicit false

namespace IpSentinel.Worker

open Foundation PriorityQueue

/-- What the limit says about a step to the state `t`: the pending jobs are at most `MAX_REQUESTS`
and the five of one request, and a request that is read at the limit schedules nothing. -/
structure KeepsLimit (s : State) (i : Input) (t : State) : Prop where
  bounded : t.queue.count ≤ maxRequests + 5
  dropped : requestRead s i ≠ none → maxRequests ≤ s.queue.count →
    t.queue.contents = s.queue.contents

/-- Every step of the run keeps the limit. -/
def PendingLimited (plat : Platform) (worker : Worker) (inputs : List Input) (s₀ : State) : Prop :=
  StepsMeet (step plat worker) (fun s i => ∀ t, step plat worker s i = some t → KeepsLimit s i t)
    inputs s₀

/-- Unless the step ends the process, a request is read below the limit only. -/
def ReadsBelowLimit (plat : Platform) (worker : Worker) (s : State) (i : Input) : Prop :=
  requestRead s i ≠ none → step plat worker s i ≠ none → s.queue.count < maxRequests

instance (plat : Platform) (worker : Worker) (s : State) (i : Input) :
    Decidable (ReadsBelowLimit plat worker s i) :=
  inferInstanceAs (Decidable (_ → _ → _))

/-- One request adds three copies, or five. -/
theorem length_copies (worker : Worker) (rq : RequestInfo) (packet : Packet) (now : Int) :
    3 ≤ (copies worker rq packet now).length ∧ (copies worker rq packet now).length ≤ 5 := by
  rw [copies]
  split_ifs <;> simp

/-- What a step does to the number of pending jobs: reading a request adds some copies, and any
other step adds none. -/
theorem count_step {plat : Platform} {worker : Worker} {s t : State} {i : Input}
    (h : step plat worker s i = some t) :
    (requestRead s i = none ∧ t.queue.count ≤ s.queue.count) ∨
    (requestRead s i ≠ none ∧ s.queue.count + 3 ≤ t.queue.count ∧
      t.queue.count ≤ s.queue.count + 5) := by
  rcases step_cases h with ⟨hq, -, hread, -⟩ | ⟨d, u, hread, hu, hq, -⟩ |
    ⟨now, job, hread, -, -, -, -, hq, -⟩
  · exact Or.inl ⟨hread, by rw [hq]⟩
  · rw [hread, hq]
    rcases scheduleNewJob_some hu with ⟨hnone, huq, -⟩ | ⟨rq, packet, -, hsome, -, hins, -⟩
    · exact Or.inl ⟨hnone, by rw [huq]⟩
    · -- the queue grows by the number of the copies
      have hlen := length_copies worker rq packet d.now
      have hcount := congrArg Multiset.card (contents_insertAll hins)
      rw [Multiset.card_add, Multiset.coe_card, card_contents, card_contents] at hcount
      refine Or.inr ⟨by simp [hsome], ?_, ?_⟩ <;> omega
  · refine Or.inl ⟨hread, ?_⟩
    rw [hq, extract_count]
    omega

theorem keepsLimit_iff {plat : Platform} {worker : Worker} {s t : State} {i : Input}
    (h : step plat worker s i = some t) (hs : s.queue.count ≤ maxRequests + 5) :
    KeepsLimit s i t ↔ (requestRead s i ≠ none → s.queue.count < maxRequests) := by
  rcases count_step h with ⟨hread, hle⟩ | ⟨hread, hge, hle⟩
  · exact iff_of_true ⟨hle.trans hs, fun hne => absurd hread hne⟩ fun hne => absurd hread hne
  · constructor
    · intro hkeeps _
      by_contra hfull
      -- the copies are in the queue behind the step
      have hsame := congrArg Multiset.card (hkeeps.dropped hread (not_lt.1 hfull))
      rw [card_contents, card_contents] at hsame
      omega
    · intro hroom
      have hlt := hroom hread
      exact ⟨by omega, fun _ hfull => absurd hlt (not_lt.2 hfull)⟩

/-- The limit holds in exactly the runs in which every request is read below it. -/
theorem pendingLimited_iff (plat : Platform) (worker : Worker) (mem : Nat → ScheduleInfo)
    (elemSize : Nat) (inputs : List Input) (s₀ : State)
    (hinit : init plat mem elemSize = some s₀) :
    PendingLimited plat worker inputs s₀ ↔
      StepsMeet (step plat worker) (ReadsBelowLimit plat worker) inputs s₀ := by
  refine stepsMeet_congr (I := fun s => s.queue.count ≤ maxRequests + 5) ?_ ?_ ?_ inputs
  · intro s i hs
    constructor
    · intro hkeeps hread hstep
      obtain ⟨t, ht⟩ := Option.ne_none_iff_exists'.1 hstep
      exact (keepsLimit_iff ht hs).1 (hkeeps t ht) hread
    · intro hroom t ht
      exact (keepsLimit_iff ht hs).2 fun hread => hroom hread (by simp [ht])
  · intro s i t hs hroom ht
    exact ((keepsLimit_iff ht hs).2 fun hread => hroom hread (by simp [ht])).bounded
  · simp [(init_some hinit).1]

/-! ## A flood of requests -/

/-- `n` requests that arrive while the clock reads 0, each with one round of the drain loop. -/
def flood (n : Nat) : List Input := (List.replicate n (sampleIteration 0 true 0 1)).flatten

theorem flood_succ (n : Nat) : flood (n + 1) = flood n ++ sampleIteration 0 true 0 1 := by
  rw [flood, flood, List.replicate_succ', List.flatten_append, List.flatten_singleton]

/-- The state behind `n` requests: no job has become due. -/
structure Flooded (n : Nat) (s : State) : Prop where
  place : s.place = .head
  count : s.queue.count = 3 * n
  allocated : s.queue.allocated = 1023
  later : ∀ job ∈ s.queue.contents, 0 < job.scheduleTime

/-- The copies of the sample request are not due when it arrives. -/
theorem later_of_mem_copies {packet : Packet} {job : ScheduleInfo}
    (h : job ∈ copies sampleWorker sampleRequest packet 0) : 0 < job.scheduleTime := by
  have hcopies : copies sampleWorker sampleRequest packet 0 =
      [{ packet with scheduleTime := 2 }, { packet with scheduleTime := 5 },
        { packet with scheduleTime := 60 }] := rfl
  rw [hcopies] at h
  simp only [List.mem_cons, List.not_mem_nil, or_false] at h
  rcases h with rfl | rfl | rfl
  · exact (by decide : (0 : Int) < 2)
  · exact (by decide : (0 : Int) < 5)
  · exact (by decide : (0 : Int) < 60)

theorem flooded_step {n : Nat} {s : State} (h : Flooded n s) (hn : 3 * n + 3 ≤ 1023) :
    ∃ t, run (step lp64 sampleWorker) (sampleIteration 0 true 0 1) s = some t ∧
      Flooded (n + 1) t := by
  obtain ⟨packet, hpacket⟩ : ∃ packet, sampleWorker.fillPacket sampleRequest 0 0 = some packet :=
    ⟨_, rfl⟩
  have hroom : s.queue.count + (copies sampleWorker sampleRequest packet 0).length ≤
      s.queue.allocated := by
    rw [h.count, h.allocated]
    exact hn
  obtain ⟨queue, hqueue, halloc⟩ := insertAll_of_room lp64 hroom
  have hcontents := contents_insertAll hqueue
  have hlater : ∀ job ∈ queue.contents, 0 < job.scheduleTime := by
    intro job hjob
    rw [hcontents, Multiset.mem_add] at hjob
    rcases hjob with hjob | hjob
    · exact later_of_mem_copies hjob
    · exact h.later job hjob
  -- the request is read, and the drain loop finds no job that is due
  obtain ⟨u, hu, huqueue⟩ := @scheduleNewJob_of_request lp64 sampleWorker
    { s with place := .waiting (selectTimeout s.queue 0) } (sampleDelivery 0) sampleRequest
    packet 0 queue rfl hpacket rfl hqueue
  have hdrain : drainRound { u with place := .draining 0 } 0 true =
      some { u with place := .head, selectErrors := 0 } := by
    simp only [drainRound]
    cases hmax : u.queue.max with
    | none => rfl
    | some job =>
      have hjob := hlater job (huqueue ▸ max_mem hmax)
      exact if_pos hjob
  refine ⟨{ u with place := .head, selectErrors := 0 }, ?_, ?_⟩
  · refine (run_cons_some _).2 ⟨{ s with place := .waiting (selectTimeout s.queue 0) }, ?_, ?_⟩
    · simp only [step, h.place]
    · refine (run_cons_some _).2 ⟨{ u with place := .draining 0 }, ?_, ?_⟩
      · simp only [step, if_true, hu, Option.map_some]
      · exact (run_cons_some _).2 ⟨_, hdrain, rfl⟩
  · have hcard := congrArg Multiset.card hcontents
    rw [Multiset.card_add, Multiset.coe_card, card_contents, card_contents, h.count] at hcard
    have hthree : (copies sampleWorker sampleRequest packet 0).length = 3 := rfl
    exact
      { place := rfl
        count := by
          rw [huqueue, hcard, hthree]
          omega
        allocated := by rw [huqueue, halloc, h.allocated]
        later := by
          rw [huqueue]
          exact hlater }

theorem flooded_run {s : State} (h : Flooded 0 s) {n : Nat} (hn : 3 * n ≤ 1023) :
    ∃ t, run (step lp64 sampleWorker) (flood n) s = some t ∧ Flooded n t := by
  induction n with
  | zero => exact ⟨s, rfl, h⟩
  | succ n ih =>
    obtain ⟨t, ht, hflooded⟩ := ih (by omega)
    obtain ⟨u, hu, hflooded'⟩ := flooded_step hflooded (by omega)
    refine ⟨u, ?_, hflooded'⟩
    rw [flood_succ]
    exact (run_append_some _).2 ⟨t, ht, hu⟩

theorem flooded_init : ∃ s₀, init lp64 sampleMem 96 = some s₀ ∧ Flooded 0 s₀ := by
  refine ⟨_, rfl, rfl, rfl, by decide +kernel, ?_⟩
  intro job hjob
  cases hjob

/-- Each of the first 171 requests of a flood finds less than 511 pending jobs. -/
theorem flooded_meets {n : Nat} {s : State} (h : Flooded n s) (hn : 3 * n < maxRequests) :
    StepsMeet (step lp64 sampleWorker) (ReadsBelowLimit lp64 sampleWorker)
      (sampleIteration 0 true 0 1) s := by
  refine ⟨?_, fun t ht => ⟨?_, fun u _ => ⟨?_, fun _ _ => trivial⟩⟩⟩
  · intro hread
    exact absurd (by simp [requestRead, h.place]) hread
  · intro _ _
    simp only [step, h.place, Option.some.injEq] at ht
    subst ht
    change s.queue.count < maxRequests
    rw [h.count]
    exact hn
  · intro hread
    exact absurd (by cases hplace : u.place <;> simp [requestRead, hplace]) hread

theorem flood_meets {s : State} (h : Flooded 0 s) {n : Nat} (hn : 3 * n < maxRequests + 3) :
    StepsMeet (step lp64 sampleWorker) (ReadsBelowLimit lp64 sampleWorker) (flood n) s := by
  have hmax : maxRequests = 511 := rfl
  induction n with
  | zero => trivial
  | succ n ih =>
    rw [flood_succ]
    refine (ih (by omega)).append fun t ht => ?_
    obtain ⟨t', ht', hflooded⟩ := flooded_run h (n := n) (by omega)
    obtain rfl : t = t' := Option.some.inj (ht.symm.trans ht')
    exact flooded_meets hflooded (by omega)

/-- 171 requests, the last of which is read with 510 pending jobs. -/
theorem pendingLimited_iff_flood :
    ∃ s₀, init lp64 sampleMem 96 = some s₀ ∧
      PendingLimited lp64 sampleWorker (flood 171) s₀ := by
  obtain ⟨s₀, h₀, hflooded⟩ := flooded_init
  exact ⟨s₀, h₀, (pendingLimited_iff lp64 sampleWorker sampleMem 96 (flood 171) s₀ h₀).2
    (flood_meets hflooded (by decide))⟩

/-- With the 173rd request there are 519 pending jobs. -/
theorem flood_not_pendingLimited :
    ∃ s₀, init lp64 sampleMem 96 = some s₀ ∧
      ¬ PendingLimited lp64 sampleWorker (flood 173) s₀ := by
  obtain ⟨s₀, h₀, hflooded⟩ := flooded_init
  refine ⟨s₀, h₀, fun hlimit => ?_⟩
  obtain ⟨t, ht, hflooded'⟩ := flooded_run hflooded (n := 173) (by omega)
  -- the last step is the round of the drain loop behind the 173rd request
  have hflood : flood 173 = flood 172 ++
      [.poll 0, .selectReturns (some (sampleDelivery 0)) 0] ++ [.drain true] := by
    rw [flood_succ, List.append_assoc]
    rfl
  rw [hflood] at ht hlimit
  obtain ⟨s, hs, hstep⟩ := (run_concat_some _).1 ht
  have hkeeps := stepsMeet_iff.1 hlimit _ _ (List.prefix_refl _) s hs t hstep
  have hbound : t.queue.count ≤ maxRequests + 5 := hkeeps.bounded
  rw [hflooded'.count] at hbound
  exact absurd hbound (by decide)

end IpSentinel.Worker

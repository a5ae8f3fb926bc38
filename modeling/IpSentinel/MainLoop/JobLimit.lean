import IpSentinel.AntiDOS.RateLimit
import IpSentinel.MainLoop.Leftovers
import IpSentinel.MainLoop.TableCalls

/-!
# The jobs for one source address

The rate limit of the anti-DOS table, seen at the pipe: whatever is received, looked up and reloaded
on the way, within ten clock seconds the main loop sends at most 152 jobs for the requests of one
source address (`jobs_in_window_le`). Both jobs of a request count.

`AnswersLike` follows one address through the loop: the readings at which it is registered, and
those of its jobs among them. It composes (`AnswersLike.trans`), so that each part of an iteration
has one lemma.
-/

set_option autoImplicit false

namespace IpSentinel.MainLoop

open Foundation BlackList AntiDOS

/-! ## The jobs of an iteration -/

/-- The clock reading of `AntiDOS_registerIP` for the job of a type. -/
def Input.registeredAt (i : Input) : JobType → Int
  | .jobDST => i.toIntruder.clock
  | .jobSRC => i.fromIntruder.clock

/-- A job with the source address of its request and the reading of its registration. -/
def Input.registration (i : Input) (sent : SentJob) : InAddr × Int :=
  (sent.job.request.arpSpa, i.registeredAt sent.job.type)

/-- The registrations of the jobs an iteration sends. -/
def jobsSent (env : ExpandEnv) (V : VectorLib) (testsuite : Bool) (arpDir : ArpDir) (s : State)
    (i : Input) : List (InAddr × Int) :=
  match step env V testsuite arpDir s i with
  | none => []
  | some t => (t.log.drop s.log.length).map i.registration

/-- The jobs of an address within ten clock seconds from `start`. -/
def InWindow (a : InAddr) (start : Int) (p : InAddr × Int) : Prop :=
  p.1 = a ∧ start ≤ p.2 ∧ p.2 < start + antidosTimeBase

instance decidableInWindow (a : InAddr) (start : Int) (p : InAddr × Int) :
    Decidable (InWindow a start p) :=
  inferInstanceAs (Decidable (_ ∧ _ ∧ _))

/-- The readings of the jobs of one address. -/
def readingsOf (a : InAddr) (sent : List (InAddr × Int)) : List Int :=
  (sent.filter fun p => p.1 = a).map Prod.snd

theorem readingsOf_append (a : InAddr) (sent sent' : List (InAddr × Int)) :
    readingsOf a (sent ++ sent') = readingsOf a sent ++ readingsOf a sent' := by
  rw [readingsOf, List.filter_append, List.map_append, readingsOf, readingsOf]

/-- Jobs of one source with one reading. -/
theorem readingsOf_const {a ip : InAddr} {t : Int} {new : List SentJob} {f : SentJob → InAddr × Int}
    (h : ∀ sent ∈ new, f sent = (ip, t)) :
    readingsOf a (new.map f) = if ip = a then new.map (fun _ => t) else [] := by
  induction new with
  | nil => simp [readingsOf]
  | cons sent new ih =>
    obtain ⟨hhead, htail⟩ := List.forall_mem_cons.1 h
    have hrest := ih htail
    rw [readingsOf] at hrest ⊢
    rw [List.map_cons, hhead, List.filter_cons]
    by_cases hip : ip = a
    · simp only [hip, decide_true, if_true, List.map_cons] at hrest ⊢
      rw [hrest]
    · simp only [hip, decide_false, Bool.false_eq_true, if_false] at hrest ⊢
      exact hrest

/-! ## One address -/

/-- The pair of an address behind its requests at the given times. -/
def pairAfter (ref : Option (Int × Nat)) (ts : List Int) : Option (Int × Nat) :=
  ts.foldl (fun ref t => some (refRegister ref t)) ref

/-- The times of the requests that `isDOS` may let through. -/
def admittedTimes (ref : Option (Int × Nat)) (ts : List Int) : List Int :=
  ((refAnswers ref ts).filter fun r => r.2 ≤ antidosCountHigh).map Prod.fst

theorem admittedTimes_append (ref : Option (Int × Nat)) (ts ts' : List Int) :
    admittedTimes ref (ts ++ ts') =
      admittedTimes ref ts ++ admittedTimes (pairAfter ref ts) ts' := by
  induction ts generalizing ref with
  | nil => rfl
  | cons t ts ih =>
    have htail := ih (some (refRegister ref t))
    simp only [admittedTimes, List.cons_append, refAnswers, List.filter_cons] at htail ⊢
    split_ifs
    · rw [List.map_cons, List.map_cons, htail]
      rfl
    · exact htail

/-- From `now` to `now'` the table answers the requests of `a` as its pair does, and the jobs with
the readings `sent` are among those that `isDOS` may let through. -/
def AnswersLike (a : InAddr) (ref : Option (Int × Nat)) (now : Int) (ref' : Option (Int × Nat))
    (dos : AntiDOS) (now' : Int) (sent : List Int) : Prop :=
  ∃ ts, (now :: (ts ++ [now'])).Pairwise (· ≤ ·) ∧ ref' = pairAfter ref ts ∧
    Tracks a dos ref' now' ∧ sent.Sublist (admittedTimes ref ts)

/-- Nothing is registered for `a`. -/
theorem answersLike_nil {a : InAddr} {ref : Option (Int × Nat)} {now now' : Int} {dos : AntiDOS}
    (h : Tracks a dos ref now') (hle : now ≤ now') : AnswersLike a ref now ref dos now' [] :=
  ⟨[], by simpa using hle, rfl, h, List.Sublist.slnil⟩

theorem AnswersLike.trans {a : InAddr} {ref ref' ref'' : Option (Int × Nat)} {now now' now'' : Int}
    {dos dos' : AntiDOS} {sent sent' : List Int} (h : AnswersLike a ref now ref' dos now' sent)
    (h' : AnswersLike a ref' now' ref'' dos' now'' sent') :
    AnswersLike a ref now ref'' dos' now'' (sent ++ sent') := by
  obtain ⟨ts, hclock, rfl, -, hsent⟩ := h
  obtain ⟨ts', hclock', rfl, htracks, hsent'⟩ := h'
  refine ⟨ts ++ ts', ?_, List.foldl_append.symm, htracks, ?_⟩
  · -- the first requests are not later than `now'`, the others not earlier
    rw [← List.cons_append, List.pairwise_append] at hclock
    obtain ⟨hfirst, -, hbefore⟩ := hclock
    obtain ⟨hafter, hsecond⟩ := List.pairwise_cons.1 hclock'
    rw [List.append_assoc, ← List.cons_append, List.pairwise_append]
    refine ⟨hfirst, hsecond, fun x hx y hy => ?_⟩
    exact (hbefore x hx now' List.mem_cons_self).trans (hafter y hy)
  · rw [admittedTimes_append]
    exact hsent.append hsent'

theorem AnswersLike.tracks {a : InAddr} {ref ref' : Option (Int × Nat)} {now now' : Int}
    {dos : AntiDOS} {sent : List Int} (h : AnswersLike a ref now ref' dos now' sent) :
    Tracks a dos ref' now' := by
  obtain ⟨ts, -, -, htracks, -⟩ := h
  exact htracks

/-- A request is registered; at most one job is sent, and only when the table lets it through. -/
theorem registerIP_answersLike (V : VectorLib) {a : InAddr} {ref : Option (Int × Nat)}
    {now t : Int} {dos : AntiDOS} (h : Tracks a dos ref now) (hle : now ≤ t) (ip : InAddr)
    {sent : List Int}
    (hsent : sent = [] ∨ sent = [t] ∧ (dos.registerIP V ip t).1 ≤ antidosCountHigh) :
    ∃ ref', AnswersLike a ref now ref' (dos.registerIP V ip t).2 t
      (if ip = a then sent else []) := by
  have ht := h.later hle
  by_cases hip : ip = a
  · subst hip
    obtain ⟨hvalue, hself⟩ := ht.registerIP_self V
    refine ⟨_, [t], by simpa using hle, rfl, hself, ?_⟩
    rw [if_pos rfl, admittedTimes, refAnswers, refAnswers, ← hvalue]
    rcases hsent with rfl | ⟨rfl, hadmitted⟩
    · exact List.nil_sublist _
    · simp [hadmitted]
  · rw [if_neg hip]
    exact ⟨ref, answersLike_nil (ht.registerIP_other V hip) hle⟩

/-! ## Runs -/

section Runs

variable {env : ExpandEnv} {V : VectorLib} {testsuite : Bool} {arpDir : ArpDir}

/-- A request that `isDOS` lets through is below the upper limit. -/
theorem le_of_isDOS_eq_false {count dice : Nat} (h : isDOS count dice = false) :
    count ≤ antidosCountHigh := by
  by_contra hhigh
  have hdos : isDOS count dice = true := decide_eq_true (Or.inr (not_le.1 hhigh))
  rw [hdos] at h
  cases h

/-- The generation of a job registers its source at most once, and sends at most one job. -/
theorem generateJob_answersLike {a : InAddr} {ref : Option (Int × Nat)} {now : Int} {s t : State}
    {srcIp : InAddr} {query : Query} {job : EtherAddr → Query → RequestInfo} {x : Answers}
    (h : Tracks a s.antiDos ref now) (hle : now ≤ x.clock)
    (hjob : generateJob V s srcIp query job x = some t) :
    ∃ ref' new, t.log = s.log ++ new ∧ (∀ sent ∈ new, ∃ mac q, sent.job = job mac q) ∧
      AnswersLike a ref now ref' t.antiDos x.clock
        (if srcIp = a then new.map (fun _ => x.clock) else []) := by
  -- nothing is registered without an answer, or while the table is oversized
  have hnothing : AnswersLike a ref now ref s.antiDos x.clock
      (if srcIp = a then List.map (fun _ => x.clock) ([] : List SentJob) else []) := by
    rw [List.map_nil, ite_self]
    exact answersLike_nil (h.later hle) hle
  rw [generateJob] at hjob
  split at hjob
  · cases hjob
    exact ⟨ref, [], (List.append_nil _).symm, List.forall_mem_nil _, hnothing⟩
  · next mac query' hmac =>
    dsimp only at hjob
    split_ifs at hjob with hover hdos
    · cases hjob
      exact ⟨ref, [], (List.append_nil _).symm, List.forall_mem_nil _, hnothing⟩
    · cases hjob
      obtain ⟨ref', hlike⟩ := registerIP_answersLike V h hle srcIp (Or.inl rfl)
      exact ⟨ref', [], (List.append_nil _).symm, List.forall_mem_nil _, hlike⟩
    · have hadmitted := le_of_isDOS_eq_false (eq_false_of_ne_true hdos)
      obtain ⟨-, -, hdos', hlog⟩ := sendJob_cases hjob
      rw [hdos']
      rcases hlog with hlog | hlog
      · -- the pipe has not taken the job
        obtain ⟨ref', hlike⟩ := registerIP_answersLike V h hle srcIp (Or.inl rfl)
        exact ⟨ref', [], by rw [hlog, List.append_nil], List.forall_mem_nil _, hlike⟩
      · obtain ⟨ref', hlike⟩ := registerIP_answersLike V h hle srcIp (Or.inr ⟨rfl, hadmitted⟩)
        refine ⟨ref', _, hlog, fun sent hsent => ?_, hlike⟩
        rw [List.mem_singleton.1 hsent]
        exact ⟨mac, query', rfl⟩

/-- The job counts at the clock reading of its registration. -/
theorem generateJob_readings {a : InAddr} {ref : Option (Int × Nat)} {now : Int} {s t : State}
    {i : Input} {srcIp : InAddr} {query : Query} {job : EtherAddr → Query → RequestInfo}
    {x : Answers} (h : Tracks a s.antiDos ref now) (hle : now ≤ x.clock)
    (hregistration : ∀ sent : SentJob, (∃ mac q, sent.job = job mac q) →
      i.registration sent = (srcIp, x.clock))
    (hjob : generateJob V s srcIp query job x = some t) :
    ∃ ref' new, t.log = s.log ++ new ∧
      AnswersLike a ref now ref' t.antiDos x.clock (readingsOf a (new.map i.registration)) := by
  obtain ⟨ref', new, hlog, hnew, hlike⟩ := generateJob_answersLike h hle hjob
  refine ⟨ref', new, hlog, ?_⟩
  rw [readingsOf_const fun sent hsent => hregistration sent (hnew sent hsent)]
  exact hlike

/-- The job to the intruder. -/
theorem toIntruder_answersLike {a : InAddr} {ref : Option (Int × Nat)} {now : Int} {s t : State}
    {i : Input} {msg : EtherArp} (h : Tracks a s.antiDos ref now) (hle : now ≤ i.toIntruder.clock)
    (hjob : generateJobToIntruder V msg s i.toIntruder = some t) :
    ∃ ref' new, t.log = s.log ++ new ∧
      AnswersLike a ref now ref' t.antiDos i.toIntruder.clock
        (readingsOf a (new.map i.registration)) := by
  refine generateJob_readings h hle ?_ hjob
  rintro sent ⟨mac, q, hrq⟩
  rw [Input.registration, hrq]
  rfl

/-- The job from the intruder. -/
theorem fromIntruder_answersLike {a : InAddr} {ref : Option (Int × Nat)} {now : Int} {s t : State}
    {i : Input} {msg : EtherArp} (h : Tracks a s.antiDos ref now)
    (hle : now ≤ i.fromIntruder.clock)
    (hjob : generateJobFromIntruder V msg s i.fromIntruder = some t) :
    ∃ ref' new, t.log = s.log ++ new ∧
      AnswersLike a ref now ref' t.antiDos i.fromIntruder.clock
        (readingsOf a (new.map i.registration)) := by
  rw [generateJobFromIntruder] at hjob
  split_ifs at hjob
  · -- a probe from 0.0.0.0 is ignored
    cases hjob
    exact ⟨ref, [], (List.append_nil _).symm, answersLike_nil (h.later hle) hle⟩
  · refine generateJob_readings h hle ?_ hjob
    rintro sent ⟨mac, q, hrq⟩
    rw [Input.registration, hrq]
    rfl

/-- An iteration answers an address like its pair. -/
theorem step_answersLike {a : InAddr} (ha : a ≠ deletionMark) {ref : Option (Int × Nat)}
    {now : Int} {s t : State} {i : Input} (h : Tracks a s.antiDos ref now)
    (hclock : (now :: i.readings).Pairwise (· ≤ ·))
    (hstep : step env V testsuite arpDir s i = some t) :
    ∃ ref', AnswersLike a ref now ref' t.antiDos i.fromIntruder.clock
      (readingsOf a (jobsSent env V testsuite arpDir s i)) := by
  obtain ⟨hupdate, hto, hfrom⟩ := readings_le hclock
  have hswept := (h.later hupdate).update V ha
  have hsent : ∀ new, t.log = s.log ++ new → jobsSent env V testsuite arpDir s i =
      new.map i.registration := by
    intro new hlog
    simp only [jobsSent, hstep]
    rw [hlog, List.drop_left]
  rcases step_cases hstep with ⟨-, hdos, hlog⟩ | ⟨frame, cfg, u, -, -, hu, ht⟩
  · -- without a request the table is swept only
    rw [hsent [] (by rw [hlog, List.append_nil]), hdos]
    exact ⟨ref, answersLike_nil (hswept.later (hto.trans hfrom))
      (hupdate.trans (hto.trans hfrom))⟩
  · -- the two registrations of a request, one behind the other
    obtain ⟨ref₁, new₁, hlog₁, hlike₁⟩ : ∃ ref₁ new₁, u.log = s.log ++ new₁ ∧
        AnswersLike a ref now ref₁ u.antiDos i.toIntruder.clock
          (readingsOf a (new₁.map i.registration)) := by
      have hfirst := answersLike_nil hswept hupdate
      rcases hu with rfl | hu
      · exact ⟨ref, [], (List.append_nil _).symm,
          answersLike_nil (hswept.later hto) (hupdate.trans hto)⟩
      · obtain ⟨ref₁, new₁, hlog₁, hlike₁⟩ :=
          toIntruder_answersLike (s := { s.received V i frame with cfg }) hswept hto hu
        exact ⟨ref₁, new₁, hlog₁, hfirst.trans hlike₁⟩
    obtain ⟨ref₂, new₂, hlog₂, hlike₂⟩ : ∃ ref₂ new₂, t.log = u.log ++ new₂ ∧
        AnswersLike a ref₁ i.toIntruder.clock ref₂ t.antiDos i.fromIntruder.clock
          (readingsOf a (new₂.map i.registration)) := by
      rcases ht with rfl | ht
      · exact ⟨ref₁, [], (List.append_nil _).symm,
          answersLike_nil (hlike₁.tracks.later hfrom) hfrom⟩
      · exact fromIntruder_answersLike hlike₁.tracks hfrom ht
    refine ⟨ref₂, ?_⟩
    rw [hsent (new₁ ++ new₂) (by rw [hlog₂, hlog₁, List.append_assoc]), List.map_append,
      readingsOf_append]
    exact hlike₁.trans hlike₂

/-- In a run the jobs of an address are sent at times at which its pair admits a request. -/
theorem run_answersLike {a : InAddr} (ha : a ≠ deletionMark) (inputs : List Input)
    {ref : Option (Int × Nat)} {now : Int} {s : State} (h : Tracks a s.antiDos ref now)
    (hclock : (now :: inputs.flatMap Input.readings).Pairwise (· ≤ ·)) :
    ∃ ts : List Int, (now :: ts).Pairwise (· ≤ ·) ∧
      (readingsOf a (trace (step env V testsuite arpDir) (jobsSent env V testsuite arpDir) inputs
        s).flatten).Sublist (admittedTimes ref ts) := by
  induction inputs generalizing ref now s with
  | nil => exact ⟨[], List.pairwise_singleton _ _, List.Sublist.slnil⟩
  | cons i inputs ih =>
    obtain ⟨hfirst, hrest⟩ := readings_cons hclock
    rw [trace, List.flatten_cons, readingsOf_append]
    cases hstep : step env V testsuite arpDir s i with
    | none =>
      -- the process has ended
      refine ⟨[], List.pairwise_singleton _ _, ?_⟩
      simp only [jobsSent, hstep]
      exact List.Sublist.slnil
    | some t =>
      obtain ⟨ref', ts, hbefore, rfl, htracks, hsent⟩ := step_answersLike ha h hfirst hstep
      obtain ⟨ts', hafter, hsent'⟩ := ih htracks hrest
      refine ⟨ts ++ ts', ?_, ?_⟩
      · rw [← List.cons_append, List.pairwise_append] at hbefore ⊢
        obtain ⟨hts, -, hlast⟩ := hbefore
        obtain ⟨hhead, hts'⟩ := List.pairwise_cons.1 hafter
        refine ⟨hts, hts', fun x hx y hy => ?_⟩
        exact (hlast x hx _ List.mem_cons_self).trans (hhead y hy)
      · rw [admittedTimes_append]
        exact hsent.append hsent'

/-- The jobs of a window, counted by their readings. -/
theorem countP_inWindow (a : InAddr) (first : Int) (sent : List (InAddr × Int)) :
    sent.countP (fun p => InWindow a first p) =
      (readingsOf a sent).countP fun t => first ≤ t ∧ t < first + antidosTimeBase := by
  rw [readingsOf, List.countP_map, List.countP_filter]
  apply List.countP_congr
  intro p _
  simp only [Function.comp, Bool.and_eq_true, decide_eq_true_eq]
  exact and_comm

theorem countP_admittedTimes (first : Int) (ref : Option (Int × Nat)) (ts : List Int) :
    (admittedTimes ref ts).countP (fun t => first ≤ t ∧ t < first + antidosTimeBase) =
      admittedIn first (refAnswers ref ts) := by
  rw [admittedTimes, admittedIn, List.countP_map, List.countP_filter]
  apply List.countP_congr
  intro r _
  simp only [Function.comp, Bool.and_eq_true, decide_eq_true_eq]
  exact and_assoc

/-- In every run with clock readings that do not go back, and every window of ten clock seconds, the
main loop sends at most 152 jobs for the requests of one source address. -/
theorem jobs_in_window_le (env : ExpandEnv) (V : VectorLib) (testsuite : Bool) (arpDir : ArpDir)
    (cfg : ReloadState) (buffer : Buffer) (inputs : List Input) (a : InAddr)
    (ha : a ≠ deletionMark) (hclock : (inputs.flatMap Input.readings).Pairwise (· ≤ ·))
    (first : Int) :
    (trace (step env V testsuite arpDir) (jobsSent env V testsuite arpDir) inputs
      (start cfg buffer)).flatten.countP (fun p => InWindow a first p) ≤
        antidosCountHigh + 9 * 8 := by
  obtain ⟨now, hnow⟩ := exists_now hclock
  have htracks : Tracks a (start cfg buffer).antiDos none now := tracks_init a now
  obtain ⟨ts, hts, hsent⟩ := @run_answersLike env V testsuite arpDir a ha inputs none now
    (start cfg buffer) htracks hnow
  rw [countP_inWindow]
  calc (readingsOf a _).countP (fun t => first ≤ t ∧ t < first + antidosTimeBase)
      ≤ (admittedTimes none ts).countP fun t => first ≤ t ∧ t < first + antidosTimeBase :=
        hsent.countP_le
    _ = admittedIn first (refAnswers none ts) := countP_admittedTimes first none ts
    _ ≤ antidosCountHigh + 9 * 8 :=
        admittedIn_le ts none (List.pairwise_cons.1 hts).2 (by simp) (by simp)

/-- Three requests of the host 0.0.0.9 with the rule `0.0.0.0/0`. -/
theorem jobs_in_window_le_sample :
    (trace (step referenceEnv referenceVector false .dirTO)
      (jobsSent referenceEnv referenceVector false .dirTO)
      ([requestFrame 1, requestFrame 2, headerFrame].map frameInput)
      (start loadedRule fun _ => 0)).flatten.countP (fun p => InWindow (ntohl 9) 0 p) ≤ 152 :=
  jobs_in_window_le referenceEnv referenceVector false .dirTO loadedRule _ _ (ntohl 9) (by decide)
    (by decide) 0

end Runs

end IpSentinel.MainLoop

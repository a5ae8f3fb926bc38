import IpSentinel.AntiDOS.Counter
import IpSentinel.AntiDOS.Sweep

/-!
# Recovery

An address that makes one request a second. Up to the cap a request takes a tenth of the counter and
adds one, so that 100 requests lead from the cap below the limit. Above the cap the counter is left
alone while the requests come every second, and `AntiDOS_registerIP` never takes the address for
recovered: `recovers_iff` says from which tables it does.
-/

set_option autoImplicit false

namespace IpSentinel.AntiDOS

open Foundation

/-! ## Reached tables -/

/-- What holds of the entries of a table up to the reading `now` of the clock. -/
structure Recorded (dos : AntiDOS) (now : Int) : Prop where
  ascending : dos.IsAscending
  counter : ∀ d ∈ dos.data, CounterInRange d.counter
  accessTime : ∀ d ∈ dos.data, d.accessTime ≤ now

theorem recorded_init (now : Int) : Recorded init now where
  ascending := init_isAscending
  counter := List.forall_mem_nil _
  accessTime := List.forall_mem_nil _

theorem Recorded.later {dos : AntiDOS} {now t : Int} (h : Recorded dos now) (hle : now ≤ t) :
    Recorded dos t where
  ascending := h.ascending
  counter := h.counter
  accessTime d hd := (h.accessTime d hd).trans hle

theorem Recorded.next (V : VectorLib) {dos : AntiDOS} (c : Call) (h : Recorded dos c.time) :
    Recorded (c.next V dos) c.time := by
  cases c with
  | registerIP ip t =>
    refine ⟨registerIP_isAscending V h.ascending ip t, ?_, ?_⟩
    · apply forall_mem_registerIP V h.ascending h.counter counterInRange_one
      intro d hd _
      exact nextCounter_inRange (h.counter d hd) (sub_nonneg.2 (h.accessTime d hd))
    · exact forall_mem_registerIP V h.ascending h.accessTime le_rfl fun _ _ _ => le_rfl
  | update t =>
    have hsub := update_data_sublist V h.ascending t
    exact ⟨List.Pairwise.sublist hsub h.ascending, fun d hd => h.counter d (hsub.subset hd),
      fun d hd => h.accessTime d (hsub.subset hd)⟩

theorem Recorded.after (V : VectorLib) {calls : List Call} {dos : AntiDOS} {now t : Int}
    (h : Recorded dos now) (hnow : ∀ c ∈ calls, now ≤ c.time) (hmono : ClockMonotone calls)
    (hle : now ≤ t) (ht : ∀ c ∈ calls, c.time ≤ t) : Recorded (after V calls dos) t := by
  induction calls generalizing dos now with
  | nil => exact h.later hle
  | cons c calls ih =>
    obtain ⟨hnow', htail⟩ := clockMonotone_cons.1 hmono
    rw [List.forall_mem_cons] at hnow ht
    exact ih ((h.later hnow.1).next V c) hnow' htail ht.1 ht.2

/-- The table after a run whose clock readings are at most `t`. -/
theorem recorded_after (V : VectorLib) {calls : List Call} {t : Int} (hmono : ClockMonotone calls)
    (ht : ∀ c ∈ calls, c.time ≤ t) : Recorded (after V calls init) t := by
  cases calls with
  | nil => exact recorded_init t
  | cons c calls =>
    exact (recorded_init c.time).after V hmono.head_le hmono (ht c List.mem_cons_self) ht

/-- A table tracks the pair of the entry of an address, or no pair. -/
theorem Recorded.tracks {dos : AntiDOS} {now : Int} (h : Recorded dos now) (a : InAddr) :
    (∃ d ∈ dos.data, d.ip = a ∧ Tracks a dos (some (d.accessTime, d.counter)) now) ∨
      (∀ d ∈ dos.data, d.ip ≠ a) ∧ Tracks a dos none now := by
  by_cases hex : ∃ d ∈ dos.data, d.ip = a
  · obtain ⟨d, hd, rfl⟩ := hex
    exact Or.inl ⟨d, hd, rfl, tracks_of_mem h.ascending hd now⟩
  · have hno : ∀ d ∈ dos.data, d.ip ≠ a := fun d hd hip => hex ⟨d, hd, hip⟩
    exact Or.inr ⟨hno, tracks_none h.ascending hno now⟩

/-! ## One request a second -/

/-- The clock readings of `n` requests, one second apart, from `t` on. -/
def everySecond (t : Int) : Nat → List Int
  | 0 => []
  | n + 1 => t :: everySecond (t + 1) n

/-- The counter after a second. -/
def decayed (counter : Nat) : Nat := counter - counter / 10 + 1

theorem nextCounter_second {counter : Nat} (hcap : counter ≤ antidosCountMax) :
    nextCounter counter 1 = decayed counter := by
  have h : nextCounter counter (1 : Nat) = counter - counter * 1 / 10 + 1 :=
    nextCounter_decay hcap (by decide)
  rwa [Nat.cast_one, Nat.mul_one] at h

theorem refRegister_second (ref : Option (Int × Nat)) (t : Int) :
    refRegister (some (refRegister ref t)) (t + 1) =
      (t + 1, nextCounter (refRegister ref t).2 1) := by
  rw [refRegister_eq ref t, refRegister, add_sub_cancel_left]

theorem decayed_mono : Monotone decayed := by
  intro c c' hle
  simp only [decayed]
  omega

theorem decayed_inRange {counter : Nat} (hcap : counter ≤ antidosCountMax) :
    1 ≤ decayed counter ∧ decayed counter ≤ antidosCountMax := by
  have hmax : antidosCountMax = 1000 := rfl
  rw [hmax] at hcap ⊢
  simp only [decayed]
  omega

/-- From the cap, 99 seconds lead below the limit. -/
theorem decayed_iterate_cap : decayed^[99] antidosCountMax ≤ antidosCountLow := by
  decide +kernel

/-- From a first request, the counter never comes above the limit. -/
theorem decayed_iterate_one (n : Nat) : decayed^[n] 1 ≤ antidosCountLow := by
  have hlow : antidosCountLow = 20 := rfl
  induction n with
  | zero => exact (by decide : 1 ≤ 20)
  | succ n ih =>
    rw [hlow] at ih
    rw [Function.iterate_succ_apply', hlow]
    calc decayed (decayed^[n] 1) ≤ decayed 20 := decayed_mono ih
      _ ≤ 20 := by decide

theorem map_fst_answersFor (V : VectorLib) (a : InAddr) (calls : List Call) (dos : AntiDOS) :
    (answersFor V a calls dos).map Prod.fst = timesOf a calls := by
  induction calls generalizing dos with
  | nil => rfl
  | cons c calls ih =>
    cases c with
    | registerIP ip t =>
      simp only [answersFor, timesOf]
      split_ifs
      · rw [List.map_cons, ih]
      · exact ih _
    | update t => exact ih _

/-- The last of the answers for the address, with its clock reading. -/
def lastAnswer (V : VectorLib) (a : InAddr) (calls : List Call) (dos : AntiDOS) :
    Option (Int × Nat) :=
  (answersFor V a calls dos).getLast?

/-- A request of `a` at `s` gives the last answer when it is the only one still to come, else the
answers behind it do. -/
theorem lastAnswer_self (V : VectorLib) {a : InAddr} {calls : List Call} {dos : AntiDOS} {s : Int}
    {n : Nat} (htimes : timesOf a calls = everySecond (s + 1) n) :
    lastAnswer V a (.registerIP a s :: calls) dos =
      if n = 0 then some (s, (registerIP V dos a s).1)
      else lastAnswer V a calls (registerIP V dos a s).2 := by
  have hfst := map_fst_answersFor V a calls (registerIP V dos a s).2
  rw [htimes] at hfst
  simp only [lastAnswer, answersFor, if_true]
  cases n with
  | zero =>
    rw [List.map_eq_nil_iff.1 hfst, if_pos rfl]
    rfl
  | succ n =>
    rw [if_neg (Nat.succ_ne_zero n)]
    cases hrest : answersFor V a calls (registerIP V dos a s).2 with
    | nil =>
      rw [hrest] at hfst
      cases hfst
    | cons x l => exact List.getLast?_cons_cons

theorem lastAnswer_other (V : VectorLib) {a ip : InAddr} (calls : List Call) (dos : AntiDOS)
    (t : Int) (hne : ip ≠ a) :
    lastAnswer V a (.registerIP ip t :: calls) dos =
      lastAnswer V a calls (registerIP V dos ip t).2 := by
  simp only [lastAnswer, answersFor, if_neg hne]

theorem lastAnswer_update (V : VectorLib) (a : InAddr) (calls : List Call) (dos : AntiDOS)
    (t : Int) :
    lastAnswer V a (.update t :: calls) dos = lastAnswer V a calls (update V dos t) := rfl

/-- A sweep leaves the pair of `a` alone, or it leaves no entry of `a`. -/
theorem Tracks.sweep (V : VectorLib) {a : InAddr} {dos : AntiDOS} {ref : Option (Int × Nat)}
    {t : Int} (h : Tracks a dos ref t) :
    Tracks a (AntiDOS.update V dos t) ref t ∨
      (∀ d ∈ (AntiDOS.update V dos t).data, d.ip ≠ a) ∧
        Tracks a (AntiDOS.update V dos t) none t := by
  have hsub := update_data_sublist V h.ascending t
  have hasc : (AntiDOS.update V dos t).IsAscending := List.Pairwise.sublist hsub h.ascending
  by_cases hex : ∃ d ∈ (AntiDOS.update V dos t).data, d.ip = a
  · obtain ⟨d, hd, rfl⟩ := hex
    rw [h.held d (hsub.subset hd) rfl]
    exact Or.inl (tracks_of_mem hasc hd t)
  · have hno : ∀ d ∈ (AntiDOS.update V dos t).data, d.ip ≠ a := fun d hd hip => hex ⟨d, hd, hip⟩
    exact Or.inr ⟨hno, tracks_none hasc hno t⟩

/-- From a counter up to the cap the last of `n + 1` requests is bounded by `n` seconds of decay. -/
theorem lastAnswer_le (V : VectorLib) {a : InAddr} {calls : List Call} {dos : AntiDOS}
    {ref : Option (Int × Nat)} {now s : Int} {n bound : Nat} (h : Tracks a dos ref now)
    (hnow : ∀ c ∈ calls, now ≤ c.time) (hmono : ClockMonotone calls)
    (htimes : timesOf a calls = everySecond s (n + 1)) (hone : 1 ≤ bound)
    (hcap : bound ≤ antidosCountMax) (hval : (refRegister ref s).2 ≤ bound) :
    ∃ value, lastAnswer V a calls dos = some (s + n, value) ∧ value ≤ decayed^[n] bound := by
  -- the bound decays with each request of `a`
  induction calls generalizing dos ref now s n bound with
  | nil => cases htimes
  | cons c calls ih =>
    obtain ⟨hnow', htail⟩ := clockMonotone_cons.1 hmono
    have ht := h.later (hnow c List.mem_cons_self)
    cases c with
    | registerIP ip t =>
      change Tracks a dos ref t at ht
      by_cases hip : ip = a
      · subst hip
        rw [timesOf, if_pos rfl, everySecond] at htimes
        obtain ⟨rfl, hrest⟩ := List.cons.inj htimes
        obtain ⟨heq, hnext⟩ := ht.registerIP_self V
        rw [lastAnswer_self V hrest]
        cases n with
        | zero =>
          rw [if_pos rfl, heq]
          exact ⟨_, by rw [Nat.cast_zero, add_zero], hval⟩
        | succ n =>
          obtain ⟨hone', hcap'⟩ := decayed_inRange hcap
          have hval' : (refRegister (some (refRegister ref t)) (t + 1)).2 ≤ decayed bound := by
            rw [refRegister_second, ← nextCounter_second hcap]
            exact nextCounter_mono ⟨hone, hcap.trans (Nat.le_succ _)⟩ hval Int.one_nonneg
          rw [if_neg (Nat.succ_ne_zero n)]
          obtain ⟨value, hlast, hle⟩ := ih hnext hnow' htail hrest hone' hcap' hval'
          refine ⟨value, ?_, hle⟩
          rw [hlast, Nat.cast_succ, add_right_comm, add_assoc]
      · rw [timesOf, if_neg hip] at htimes
        rw [lastAnswer_other V calls dos t hip]
        exact ih (ht.registerIP_other V hip) hnow' htail htimes hone hcap hval
    | update t =>
      rw [lastAnswer_update]
      rcases ht.sweep V with hsame | ⟨-, hgone⟩
      · exact ih hsame hnow' htail htimes hone hcap hval
      · exact ih hgone hnow' htail htimes hone hcap hone

/-! ## Above the cap -/

/-- A request at `s` finds a counter that it does not decay: one above the cap less than two seconds
after the last request, or one at the cap in the same second. -/
def Frozen (last : Int) (counter : Nat) (s : Int) : Prop :=
  antidosCountMax < counter ∧ s - last ≤ 1 ∨ counter = antidosCountMax ∧ s = last

instance (last : Int) (counter : Nat) (s : Int) : Decidable (Frozen last counter s) :=
  inferInstanceAs (Decidable (_ ∨ _))

theorem Frozen.nextCounter {last s : Int} {counter : Nat} (h : Frozen last counter s)
    (hrange : CounterInRange counter) :
    AntiDOS.nextCounter counter (s - last) = antidosCountMax + 1 := by
  have hmax : antidosCountMax = 1000 := rfl
  have hbase : antidosTimeBase = 10 := rfl
  rcases h with ⟨hcap, hshort⟩ | ⟨rfl, rfl⟩
  · rw [nextCounter_above hcap (by omega), if_neg (by omega)]
    exact le_antisymm hrange.2 hcap
  · rw [sub_self]
    decide

/-- One second after a request that found the counter frozen it is frozen again. -/
theorem frozen_next (t : Int) : Frozen t (antidosCountMax + 1) (t + 1) :=
  Or.inl ⟨Nat.lt_succ_self _, by omega⟩

/-- No sweep up to a request that finds the counter frozen takes the entry for expired. -/
theorem Frozen.live {last s t : Int} {counter : Nat} (h : Frozen last counter s) (hle : t ≤ s) :
    t - last ≤ antidosTimeBase := by
  have hbase : antidosTimeBase = 10 := rfl
  rcases h with ⟨-, hshort⟩ | ⟨-, hsame⟩ <;> omega

/-- A request that finds a counter which is not frozen returns at most the cap. -/
theorem nextCounter_le_cap {last s : Int} {counter : Nat} (h : ¬ Frozen last counter s)
    (hrange : CounterInRange counter) (hle : last ≤ s) :
    AntiDOS.nextCounter counter (s - last) ≤ antidosCountMax := by
  have hmax : antidosCountMax = 1000 := rfl
  obtain ⟨hshort, hsame⟩ := not_or.1 h
  rcases le_or_gt counter antidosCountMax with hcap | hcap
  · rcases eq_or_lt_of_le hcap with rfl | hlt
    · -- at the cap one second takes more than the request adds
      have hne : s ≠ last := fun heq => hsame ⟨rfl, heq⟩
      calc AntiDOS.nextCounter antidosCountMax (s - last) ≤
            AntiDOS.nextCounter antidosCountMax 1 :=
              nextCounter_antitone hrange (by decide) (by omega)
        _ ≤ antidosCountMax := by decide
    · have hzero : AntiDOS.nextCounter counter (0 : Nat) = counter - counter * 0 / 10 + 1 :=
        nextCounter_decay hcap (by decide)
      calc AntiDOS.nextCounter counter (s - last) ≤ AntiDOS.nextCounter counter (0 : Nat) :=
            nextCounter_antitone hrange le_rfl (sub_nonneg.2 hle)
        _ ≤ antidosCountMax := by omega
  · -- above the cap two seconds set the counter to the cap
    have hlong : 2 ≤ s - last := not_lt.1 fun hlt => hshort ⟨hcap, by omega⟩
    calc AntiDOS.nextCounter counter (s - last) ≤ AntiDOS.nextCounter counter 2 :=
          nextCounter_antitone hrange (by decide) hlong
      _ ≤ antidosCountMax := by
          rw [nextCounter_above hcap (by decide), if_pos (by decide)]

/-- The address is the deletion mark and has a live entry, and the sweep finds an expired entry
beside it. -/
def Drops (a : InAddr) (dos : AntiDOS) (t : Int) : Prop :=
  a = deletionMark ∧ t - dos.minTime > antidosTimeBase ∧
    (∃ d ∈ dos.data, d.ip = a ∧ ¬ Expired t d) ∧ ∃ d ∈ dos.data, Expired t d

/-- A sweep of the run drops the live entry of the address, and a request of the address follows. -/
def Forgets (V : VectorLib) (a : InAddr) : List Call → AntiDOS → Prop
  | [], _ => False
  | .registerIP ip t :: calls, dos => Forgets V a calls (registerIP V dos ip t).2
  | .update t :: calls, dos =>
    Drops a dos t ∧ timesOf a calls ≠ [] ∨ Forgets V a calls (update V dos t)

/-- A live entry goes in a sweep exactly when it is that of the deletion mark beside an expired
one. -/
theorem drops_iff (V : VectorLib) {a : InAddr} {dos : AntiDOS} {t : Int} (hasc : dos.IsAscending)
    {d : Data} (hd : d ∈ dos.data) (hip : d.ip = a) (hlive : ¬ Expired t d) :
    (∀ e ∈ (update V dos t).data, e.ip ≠ a) ↔ Drops a dos t := by
  rw [update_data V hasc]
  split_ifs with hsweep
  · constructor
    · intro hno
      -- a sweep keeps the live entries of every other address
      have hmark : d.ip = deletionMark := by
        by_contra hne
        exact hno d (List.mem_filter.2 ⟨hd, decide_eq_true ⟨hlive, hne⟩⟩) hip
      exact ⟨hip.symm.trans hmark, hsweep.1, ⟨d, hd, hip, hlive⟩, hsweep.2⟩
    · rintro ⟨rfl, -⟩ e he
      exact (of_decide_eq_true (List.mem_filter.1 he).2 : Kept t e).2
  · exact iff_of_false (fun hno => hno d hd hip) fun h => hsweep ⟨h.2.1, h.2.2.2⟩

/-- The same for a live reference entry, which the table holds. -/
theorem Tracks.noEntry_iff (V : VectorLib) {a : InAddr} {dos : AntiDOS} {last t : Int}
    {counter : Nat} (h : Tracks a dos (some (last, counter)) t)
    (hlive : t - last ≤ antidosTimeBase) :
    (∀ e ∈ (AntiDOS.update V dos t).data, e.ip ≠ a) ↔ Drops a dos t := by
  obtain ⟨d, hd, hip, htime, -⟩ := h.exists_entry hlive
  have hnot : ¬ Expired t d := by
    rw [Expired, htime]
    exact not_lt.2 hlive
  exact drops_iff V h.ascending hd hip hnot

theorem not_forgets_of_timesOf (V : VectorLib) {a : InAddr} {calls : List Call} (dos : AntiDOS)
    (h : timesOf a calls = []) : ¬ Forgets V a calls dos := by
  induction calls generalizing dos with
  | nil => exact id
  | cons c calls ih =>
    cases c with
    | registerIP ip t =>
      rw [timesOf] at h
      split_ifs at h
      exact ih _ h
    | update t =>
      rintro (⟨-, hne⟩ | hrest)
      · exact hne h
      · exact ih _ h hrest

theorem le_of_timesOf {a : InAddr} {calls : List Call} {s t : Int} {n : Nat}
    (hle : ∀ c ∈ calls, t ≤ c.time) (htimes : timesOf a calls = everySecond s (n + 1)) :
    t ≤ s := by
  have hmem : s ∈ timesOf a calls := by
    rw [htimes]
    exact List.mem_cons_self
  obtain ⟨c, hc, rfl⟩ := List.mem_map.1 ((timesOf_sublist a calls).subset hmem)
  exact hle c hc

/-- A frozen counter stays above the cap until a sweep drops the entry. -/
theorem lastAnswer_of_frozen (V : VectorLib) {a : InAddr} {calls : List Call} {dos : AntiDOS}
    {last now s : Int} {counter n : Nat} (h : Tracks a dos (some (last, counter)) now)
    (hnow : ∀ c ∈ calls, now ≤ c.time) (hmono : ClockMonotone calls)
    (htimes : timesOf a calls = everySecond s (n + 1)) (hrange : CounterInRange counter)
    (hfrozen : Frozen last counter s) :
    ∃ value, lastAnswer V a calls dos = some (s + n, value) ∧
      (value ≤ antidosCountLow ↔ Forgets V a calls dos) := by
  have hhigh : ¬ antidosCountMax + 1 ≤ antidosCountLow := by decide
  -- on the calls: the entry of the address is live and its counter frozen, or a sweep drops it
  induction calls generalizing dos last now s counter n with
  | nil => cases htimes
  | cons c calls ih =>
    obtain ⟨hnow', htail⟩ := clockMonotone_cons.1 hmono
    have ht := h.later (hnow c List.mem_cons_self)
    cases c with
    | registerIP ip t =>
      change Tracks a dos (some (last, counter)) t at ht
      rw [Forgets]
      by_cases hip : ip = a
      · subst hip
        rw [timesOf, if_pos rfl, everySecond] at htimes
        obtain ⟨rfl, hrest⟩ := List.cons.inj htimes
        obtain ⟨heq, hnext⟩ := ht.registerIP_self V
        rw [refRegister, hfrozen.nextCounter hrange] at heq hnext
        rw [lastAnswer_self V hrest]
        -- the last request finds the counter frozen, and any other one leaves it frozen
        cases n with
        | zero =>
          rw [if_pos rfl, heq]
          refine ⟨_, by rw [Nat.cast_zero, add_zero], ?_⟩
          exact iff_of_false hhigh (not_forgets_of_timesOf V _ hrest)
        | succ n =>
          rw [if_neg (Nat.succ_ne_zero n)]
          obtain ⟨value, hlast, hiff⟩ :=
            ih hnext hnow' htail hrest ⟨by decide, le_rfl⟩ (frozen_next t)
          refine ⟨value, ?_, hiff⟩
          rw [hlast, Nat.cast_succ, add_right_comm, add_assoc]
      · rw [timesOf, if_neg hip] at htimes
        rw [lastAnswer_other V calls dos t hip]
        exact ih (ht.registerIP_other V hip) hnow' htail htimes hrange hfrozen
    | update t =>
      change Tracks a dos (some (last, counter)) t at ht
      rw [timesOf] at htimes
      rw [lastAnswer_update, Forgets]
      have hlive := hfrozen.live (le_of_timesOf hnow' htimes)
      rcases ht.sweep V with hsame | ⟨hno, hgone⟩
      · -- the entry is still there
        obtain ⟨d, hd, hip, -⟩ := hsame.exists_entry hlive
        have hkept : ¬ Drops a dos t := fun hdrops => (ht.noEntry_iff V hlive).2 hdrops d hd hip
        obtain ⟨value, hlast, hiff⟩ := ih hsame hnow' htail htimes hrange hfrozen
        exact ⟨value, hlast, hiff.trans (or_iff_right fun h => hkept h.1).symm⟩
      · -- the entry is dropped, and the next request starts from no entry
        have hdrops : Drops a dos t := (ht.noEntry_iff V hlive).1 hno
        have hnext : timesOf a calls ≠ [] := by
          rw [htimes]
          exact List.cons_ne_nil _ _
        obtain ⟨value, hlast, hle⟩ :=
          lastAnswer_le V hgone hnow' htail htimes le_rfl (by decide) le_rfl
        refine ⟨value, hlast, iff_of_true ?_ (Or.inl ⟨hdrops, hnext⟩)⟩
        exact hle.trans (decayed_iterate_one n)

/-! ## Recovery -/

/-- The first of the requests, at `t`, finds the counter of the address frozen. -/
def Stuck (dos : AntiDOS) (a : InAddr) (t : Int) : Prop :=
  ∃ d ∈ dos.data, d.ip = a ∧ Frozen d.accessTime d.counter t

instance (dos : AntiDOS) (a : InAddr) (t : Int) : Decidable (Stuck dos a t) :=
  inferInstanceAs (Decidable (∃ d ∈ dos.data, _))

/-- After any earlier calls an address makes 100 requests one second apart, with calls of other
addresses and sweeps in between. The last request is answered with a value up to the limit exactly
when the first one does not find the counter frozen, or a sweep drops the live entry of the address,
which is the deletion mark then. -/
theorem recovers_iff (V : VectorLib) (a : InAddr) (earlier later : List Call) (t : Int)
    (hmono : ClockMonotone (earlier ++ later)) (htimes : timesOf a later = everySecond t 100) :
    (∃ value, lastAnswer V a later (after V earlier init) = some (t + 99, value) ∧
        value ≤ antidosCountLow) ↔
      ¬ Stuck (after V earlier init) a t ∨ Forgets V a later (after V earlier init) := by
  rw [ClockMonotone, List.map_append, List.pairwise_append] at hmono
  obtain ⟨hearlier, hlater, hcross⟩ := hmono
  cases later with
  | nil => cases htimes
  | cons c calls =>
    have hnow := ClockMonotone.head_le hlater
    have hrec : Recorded (after V earlier init) c.time :=
      recorded_after V hearlier fun c' hc' =>
        hcross _ (List.mem_map_of_mem hc') _ (List.mem_map_of_mem List.mem_cons_self)
    have hts : c.time ≤ t := le_of_timesOf hnow htimes
    rcases hrec.tracks a with ⟨d, hd, hip, htracks⟩ | ⟨hno, htracks⟩
    · have hrange := hrec.counter d hd
      by_cases hfrozen : Frozen d.accessTime d.counter t
      · -- the first request finds the counter frozen
        obtain ⟨value, hlast, hiff⟩ :=
          lastAnswer_of_frozen V htracks hnow hlater htimes hrange hfrozen
        have hstuck : Stuck (after V earlier init) a t := ⟨d, hd, hip, hfrozen⟩
        rw [or_iff_right (not_not.2 hstuck), ← hiff]
        constructor
        · rintro ⟨value', hlast', hle⟩
          obtain rfl : value' = value :=
            congrArg Prod.snd (Option.some.inj (hlast'.symm.trans hlast))
          exact hle
        · exact fun hle => ⟨value, hlast, hle⟩
      · -- the first request leaves the counter at most at the cap, and the later ones decay it
        have hval := nextCounter_le_cap hfrozen hrange ((hrec.accessTime d hd).trans hts)
        obtain ⟨value, hlast, hle⟩ :=
          lastAnswer_le V htracks hnow hlater htimes (by decide) le_rfl hval
        apply iff_of_true ⟨value, hlast, hle.trans decayed_iterate_cap⟩
        left
        rintro ⟨e, he, hipe, hfrozene⟩
        apply hfrozen
        rwa [hrec.ascending.unique he hd (key_eq_iff.2 (hipe.trans hip.symm))] at hfrozene
    · -- the table has no entry of the address
      obtain ⟨value, hlast, hle⟩ :=
        lastAnswer_le V htracks hnow hlater htimes le_rfl (by decide) le_rfl
      apply iff_of_true ⟨value, hlast, hle.trans (decayed_iterate_one 99)⟩
      left
      rintro ⟨e, he, hipe, -⟩
      exact hno e he hipe

/-- The requests of an address at the given times. -/
def requests (a : InAddr) (ts : List Int) : List Call := ts.map (Call.registerIP a)

theorem timesOf_requests (a : InAddr) (ts : List Int) : timesOf a (requests a ts) = ts := by
  induction ts with
  | nil => rfl
  | cons t ts ih => rw [requests, List.map_cons, timesOf, if_pos rfl, ← requests, ih]

theorem map_time_requests (a : InAddr) (ts : List Int) : (requests a ts).map Call.time = ts := by
  rw [requests, List.map_map]
  exact List.map_id ts

theorem not_forgets_requests (V : VectorLib) (a : InAddr) (ts : List Int) (dos : AntiDOS) :
    ¬ Forgets V a (requests a ts) dos := by
  induction ts generalizing dos with
  | nil => exact id
  | cons t ts ih => exact ih _

theorem everySecond_mem {s t : Int} {n : Nat} (h : t ∈ everySecond s n) : s ≤ t := by
  induction n generalizing s with
  | zero => cases h
  | succ n ih =>
    rcases List.mem_cons.1 h with rfl | h
    · exact le_rfl
    · exact (Int.le_add_one le_rfl).trans (ih h)

theorem everySecond_pairwise (s : Int) (n : Nat) : (everySecond s n).Pairwise (· ≤ ·) := by
  induction n generalizing s with
  | zero => exact List.Pairwise.nil
  | succ n ih =>
    exact List.pairwise_cons.2
      ⟨fun t ht => (Int.le_add_one le_rfl).trans (everySecond_mem ht), ih _⟩

/-- A flood of requests in one second. -/
theorem after_flood (V : VectorLib) {a : InAddr} {t minTime : Int} {counter : Nat} (n : Nat)
    (hcap : counter + n ≤ antidosCountMax + 1) :
    after V (List.replicate n (.registerIP a t)) ⟨minTime, [⟨a, t, counter⟩]⟩ =
      ⟨minTime, [⟨a, t, counter + n⟩]⟩ := by
  induction n generalizing counter with
  | zero => rfl
  | succ n ih =>
    rw [List.replicate_succ, after, List.foldl_cons, Call.next,
      registerIP_same_second V (by omega), ← after, ih (by omega), Nat.add_right_comm]
    rfl

theorem after_init_flood (V : VectorLib) (a : InAddr) (t : Int) {n : Nat}
    (hcap : n ≤ antidosCountMax) :
    after V (List.replicate (n + 1) (.registerIP a t)) init = ⟨0, [⟨a, t, n + 1⟩]⟩ := by
  have hno : ∀ d ∈ init.data, d.ip ≠ a := List.forall_mem_nil _
  obtain ⟨pre, post, hsplit, heq, -⟩ := registerIP_data_new V init_isAscending (t := t) hno
  obtain ⟨rfl, rfl⟩ := List.append_eq_nil_iff.1 hsplit.symm
  rw [List.replicate_succ, after, List.foldl_cons, Call.next, heq, ← after]
  have hrest : after V (List.replicate n (.registerIP a t)) ⟨0, [⟨a, t, 1⟩]⟩ =
      ⟨0, [⟨a, t, 1 + n⟩]⟩ := after_flood V n (by omega)
  rwa [Nat.add_comm 1 n] at hrest

/-- An address that has been counted above the cap, and recovers as it pauses for five seconds. -/
theorem recovers_iff_flood :
    ∃ value, lastAnswer referenceVector 1 (requests 1 (everySecond 5 100))
        (after referenceVector (List.replicate 1001 (.registerIP 1 0)) init) =
          some (5 + 99, value) ∧ value ≤ antidosCountLow := by
  refine (recovers_iff referenceVector 1 (List.replicate 1001 (.registerIP 1 0)) _ 5 ?_
    (timesOf_requests 1 _)).2 (Or.inl ?_)
  · rw [ClockMonotone, List.map_append, List.map_replicate, map_time_requests,
      List.pairwise_append]
    refine ⟨List.pairwise_replicate.2 (Or.inr le_rfl), everySecond_pairwise 5 100, ?_⟩
    intro s hs t ht
    obtain rfl : s = 0 := List.eq_of_mem_replicate hs
    exact (show (0 : Int) ≤ 5 by decide).trans (everySecond_mem ht)
  · have hflood : after referenceVector (List.replicate 1001 (.registerIP 1 0)) init =
        ⟨0, [⟨1, 0, 1001⟩]⟩ := after_init_flood referenceVector 1 0 le_rfl
    rw [hflood]
    decide

/-- 1001 requests in one second, and 100 requests one second apart behind them: the last one returns
1001. -/
theorem flood_never_recovers :
    ¬ ∃ value, lastAnswer referenceVector 1 (requests 1 (everySecond 1 100))
        (after referenceVector (List.replicate 1001 (.registerIP 1 0)) init) =
          some (1 + 99, value) ∧ value ≤ antidosCountLow := by
  rintro ⟨value, hlast, hle⟩
  have hflood : after referenceVector (List.replicate 1001 (.registerIP 1 0)) init =
      ⟨0, [⟨1, 0, 1001⟩]⟩ := after_init_flood referenceVector 1 0 le_rfl
  rw [hflood] at hlast
  have hasc : IsAscending ⟨0, [⟨1, 0, 1001⟩]⟩ := List.pairwise_singleton _ _
  have htracks := tracks_of_mem hasc (List.mem_singleton_self _) 1
  have hmono : ClockMonotone (requests 1 (everySecond 1 100)) := by
    rw [ClockMonotone, map_time_requests]
    exact everySecond_pairwise 1 100
  have hnow : ∀ c ∈ requests 1 (everySecond 1 100), 1 ≤ c.time := by
    intro c hc
    apply everySecond_mem (n := 100)
    rw [← map_time_requests 1 (everySecond 1 100)]
    exact List.mem_map_of_mem hc
  obtain ⟨value', hlast', hiff⟩ :=
    lastAnswer_of_frozen referenceVector htracks hnow hmono (timesOf_requests 1 _)
      ⟨by decide, by decide⟩ (by decide)
  obtain rfl : value = value' := congrArg Prod.snd (Option.some.inj (hlast.symm.trans hlast'))
  exact not_forgets_requests referenceVector 1 _ _ (hiff.1 hle)

end IpSentinel.AntiDOS

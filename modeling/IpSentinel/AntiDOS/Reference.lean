import IpSentinel.AntiDOS.Table

/-!
# The anti-DOS table as independent counters

The purpose of the table: for each source IP a pair of the last access and a counter, with no
sweeps and no other addresses (`refRegister`). `Tracks` relates a table to the pair of one address;
every call keeps it (`Tracks.registerIP_self`, `Tracks.registerIP_other`, `Tracks.update`), because
the sweeps drop an entry only when its next request starts over anyway. Along every run with
non-decreasing clock readings the table answers an address as its pair does
(`answersFor_eq_refAnswers`). The address that is the deletion mark is the exception.
-/

set_option autoImplicit false

namespace IpSentinel.AntiDOS

open Foundation

/-! ## Calls -/

/-- A call of the main loop, with the clock reading it takes. -/
inductive Call where
  | registerIP (ip : InAddr) (t : Int)
  | update (t : Int)

/-- The clock reading of a call. -/
def Call.time : Call → Int
  | .registerIP _ t => t
  | .update t => t

/-- The table after a call. -/
def Call.next (V : VectorLib) (dos : AntiDOS) : Call → AntiDOS
  | .registerIP ip t => (AntiDOS.registerIP V dos ip t).2
  | .update t => AntiDOS.update V dos t

/-- The table after some calls. -/
def after (V : VectorLib) (calls : List Call) (dos : AntiDOS) : AntiDOS :=
  calls.foldl (Call.next V) dos

/-- The values the calls for the address `a` return, with the clock readings of these calls. -/
def answersFor (V : VectorLib) (a : InAddr) : List Call → AntiDOS → List (Int × Nat)
  | [], _ => []
  | .registerIP ip t :: calls, dos =>
    let r := registerIP V dos ip t
    if ip = a then (t, r.1) :: answersFor V a calls r.2 else answersFor V a calls r.2
  | .update t :: calls, dos => answersFor V a calls (update V dos t)

/-- The clock readings of the calls for the address `a`. -/
def timesOf (a : InAddr) : List Call → List Int
  | [] => []
  | .registerIP ip t :: calls => if ip = a then t :: timesOf a calls else timesOf a calls
  | .update _ :: calls => timesOf a calls

/-- The clock readings of the calls do not decrease. -/
def ClockMonotone (calls : List Call) : Prop := (calls.map Call.time).Pairwise (· ≤ ·)

instance (calls : List Call) : Decidable (ClockMonotone calls) :=
  inferInstanceAs (Decidable ((calls.map Call.time).Pairwise (· ≤ ·)))

theorem clockMonotone_cons {c : Call} {calls : List Call} :
    ClockMonotone (c :: calls) ↔ (∀ c' ∈ calls, c.time ≤ c'.time) ∧ ClockMonotone calls := by
  rw [ClockMonotone, List.map_cons, List.pairwise_cons, List.forall_mem_map]
  rfl

/-- The reading of the first call is the least. -/
theorem ClockMonotone.head_le {c : Call} {calls : List Call} (h : ClockMonotone (c :: calls)) :
    ∀ c' ∈ c :: calls, c.time ≤ c'.time :=
  List.forall_mem_cons.2 ⟨le_rfl, (clockMonotone_cons.1 h).1⟩

theorem timesOf_sublist (a : InAddr) (calls : List Call) :
    (timesOf a calls).Sublist (calls.map Call.time) := by
  induction calls with
  | nil => exact List.Sublist.slnil
  | cons c calls ih =>
    cases c with
    | registerIP ip t =>
      simp only [timesOf, List.map_cons]
      split_ifs
      · exact ih.cons_cons t
      · exact ih.cons t
    | update t => exact ih.cons t

theorem timesOf_pairwise (a : InAddr) {calls : List Call} (h : ClockMonotone calls) :
    (timesOf a calls).Pairwise (· ≤ ·) :=
  List.Pairwise.sublist (timesOf_sublist a calls) h

/-! ## The reference -/

/-- The last access and the counter of one address after a request at `t`. -/
def refRegister : Option (Int × Nat) → Int → Int × Nat
  | none, t => (t, 1)
  | some (last, counter), t => (t, nextCounter counter (t - last))

/-- The values the reference returns for requests at the given times. -/
def refAnswers : Option (Int × Nat) → List Int → List (Int × Nat)
  | _, [] => []
  | ref, t :: ts => (t, (refRegister ref t).2) :: refAnswers (some (refRegister ref t)) ts

theorem map_fst_refAnswers (ref : Option (Int × Nat)) (ts : List Int) :
    (refAnswers ref ts).map Prod.fst = ts := by
  induction ts generalizing ref with
  | nil => rfl
  | cons t ts ih =>
    rw [refAnswers, List.map_cons, ih]

theorem refRegister_eq (ref : Option (Int × Nat)) (t : Int) :
    refRegister ref t = (t, (refRegister ref t).2) := by
  cases ref <;> rfl

theorem refRegister_of_expired {last t : Int} {counter : Nat}
    (h : t - last > antidosTimeBase) : refRegister (some (last, counter)) t = (t, 1) := by
  simp [refRegister, nextCounter, h]

/-! ## The simulation -/

/-- At time `now` the table agrees with the pair `ref` of the address `a`: an entry of `a` is the
pair, and without an entry the pair, if any, has expired. -/
structure Tracks (a : InAddr) (dos : AntiDOS) (ref : Option (Int × Nat)) (now : Int) : Prop where
  ascending : dos.IsAscending
  held : ∀ d ∈ dos.data, d.ip = a → ref = some (d.accessTime, d.counter)
  dropped : ∀ last counter, ref = some (last, counter) → (∀ d ∈ dos.data, d.ip ≠ a) →
    now - last > antidosTimeBase

/-- A table without an entry of `a` tracks no pair. -/
theorem tracks_none {a : InAddr} {dos : AntiDOS} (h : dos.IsAscending)
    (hno : ∀ d ∈ dos.data, d.ip ≠ a) (now : Int) : Tracks a dos none now where
  ascending := h
  held d hd hip := absurd hip (hno d hd)
  dropped last counter href := by cases href

theorem tracks_init (a : InAddr) (now : Int) : Tracks a init none now :=
  tracks_none init_isAscending (List.forall_mem_nil _) now

/-- At any time, an ascending table tracks the entry of an address. -/
theorem tracks_of_mem {dos : AntiDOS} (h : dos.IsAscending) {d : Data} (hd : d ∈ dos.data)
    (now : Int) : Tracks d.ip dos (some (d.accessTime, d.counter)) now where
  ascending := h
  held e he hip := by rw [h.unique he hd (key_eq_iff.2 hip)]
  dropped last counter _ hno := absurd rfl (hno d hd)

/-- The expiry of a dropped pair outlasts the clock. -/
theorem Tracks.later {a : InAddr} {dos : AntiDOS} {ref : Option (Int × Nat)} {now t : Int}
    (h : Tracks a dos ref now) (hle : now ≤ t) : Tracks a dos ref t where
  ascending := h.ascending
  held := h.held
  dropped last counter href hno := by
    have hold := h.dropped last counter href hno
    omega

/-- A pair that has not expired is in the table. -/
theorem Tracks.exists_entry {a : InAddr} {dos : AntiDOS} {last now : Int} {counter : Nat}
    (h : Tracks a dos (some (last, counter)) now) (hlive : now - last ≤ antidosTimeBase) :
    ∃ d ∈ dos.data, d.ip = a ∧ d.accessTime = last ∧ d.counter = counter := by
  by_cases hex : ∃ d ∈ dos.data, d.ip = a
  · obtain ⟨d, hd, hip⟩ := hex
    have hpair := h.held d hd hip
    simp only [Option.some.injEq, Prod.mk.injEq] at hpair
    exact ⟨d, hd, hip, hpair.1.symm, hpair.2.symm⟩
  · have hgone := h.dropped last counter rfl fun d hd hip => hex ⟨d, hd, hip⟩
    exact absurd hlive (not_le.2 hgone)

/-- A request of `a` returns what the reference returns and stores the new pair. -/
theorem Tracks.registerIP_self (V : VectorLib) {a : InAddr} {dos : AntiDOS}
    {ref : Option (Int × Nat)} {t : Int} (h : Tracks a dos ref t) :
    (registerIP V dos a t).1 = (refRegister ref t).2 ∧
      Tracks a (registerIP V dos a t).2 (some (refRegister ref t)) t := by
  by_cases hex : ∃ d ∈ dos.data, d.ip = a
  · obtain ⟨d, hd, rfl⟩ := hex
    have href := h.held d hd rfl
    subst href
    obtain ⟨pre, post, hsplit, heq, hasc⟩ := registerIP_data_known V h.ascending (t := t) hd
    rw [heq] at hasc ⊢
    -- the entry of `a` in the new table is the one that has been replaced
    refine ⟨rfl, hasc, ?_, ?_⟩
    · intro e he hip
      have hnew : e = { d with
          accessTime := t, counter := nextCounter d.counter (t - d.accessTime) } :=
        hasc.unique he (by simp) (key_eq_iff.2 hip)
      rw [hnew]
      rfl
    · intro last counter _ hno
      exact absurd rfl (hno { d with
        accessTime := t, counter := nextCounter d.counter (t - d.accessTime) } (by simp))
  · have hno : ∀ d ∈ dos.data, d.ip ≠ a := fun d hd hip => hex ⟨d, hd, hip⟩
    obtain ⟨pre, post, hsplit, heq, hasc⟩ := registerIP_data_new V h.ascending (t := t) hno
    -- the reference has no pair, or one that has expired
    have hfresh : refRegister ref t = (t, 1) := by
      cases ref with
      | none => rfl
      | some p => exact refRegister_of_expired (h.dropped p.1 p.2 rfl hno)
    rw [heq] at hasc ⊢
    rw [hfresh]
    refine ⟨rfl, hasc, ?_, ?_⟩
    · intro e he hip
      have hnew : e = { ip := a, accessTime := t, counter := 1 } :=
        hasc.unique he (by simp) (key_eq_iff.2 hip)
      rw [hnew]
    · intro last counter _ hgone
      exact absurd rfl (hgone { ip := a, accessTime := t, counter := 1 } (by simp))

/-- A request of another address leaves the entry of `a` alone. -/
theorem Tracks.registerIP_other (V : VectorLib) {a ip : InAddr} {dos : AntiDOS}
    {ref : Option (Int × Nat)} {t : Int} (h : Tracks a dos ref t) (hne : ip ≠ a) :
    Tracks a (registerIP V dos ip t).2 ref t := by
  -- both kinds of requests change entries of `ip` only
  have hmem : (registerIP V dos ip t).2.IsAscending ∧
      ∀ d : Data, d.ip = a → (d ∈ (registerIP V dos ip t).2.data ↔ d ∈ dos.data) := by
    by_cases hex : ∃ d ∈ dos.data, d.ip = ip
    · obtain ⟨d, hd, rfl⟩ := hex
      obtain ⟨pre, post, hsplit, heq, hasc⟩ := registerIP_data_known V h.ascending (t := t) hd
      refine ⟨hasc, fun e he => ?_⟩
      have hed : e ≠ d := fun hed => hne (hed ▸ he)
      rw [heq, hsplit]
      simp only [List.mem_append, List.mem_cons, hed, false_or]
      refine or_congr_right (or_iff_right fun hen => hne ?_)
      rw [hen] at he
      exact he
    · have hno : ∀ d ∈ dos.data, d.ip ≠ ip := fun d hd hip => hex ⟨d, hd, hip⟩
      obtain ⟨pre, post, hsplit, heq, hasc⟩ := registerIP_data_new V h.ascending (t := t) hno
      refine ⟨hasc, fun e he => ?_⟩
      rw [heq, hsplit]
      simp only [List.mem_append, List.mem_cons]
      refine or_congr_right (or_iff_right fun hen => hne ?_)
      rw [hen] at he
      exact he
  refine ⟨hmem.1, ?_, ?_⟩
  · intro d hd hip
    exact h.held d ((hmem.2 d hip).1 hd) hip
  · intro last counter href hno
    exact h.dropped last counter href fun d hd hip => hno d ((hmem.2 d hip).2 hd) hip

/-- A sweep drops the entry of `a` only when it has expired. -/
theorem Tracks.update (V : VectorLib) {a : InAddr} {dos : AntiDOS} {ref : Option (Int × Nat)}
    {t : Int} (h : Tracks a dos ref t) (ha : a ≠ deletionMark) :
    Tracks a (update V dos t) ref t := by
  have hdata := update_data V h.ascending t
  have hasc : (AntiDOS.update V dos t).IsAscending := by
    rw [IsAscending, hdata]
    split_ifs
    · exact h.ascending.filter _
    · exact h.ascending
  refine ⟨hasc, ?_, ?_⟩
  · intro d hd hip
    rw [hdata] at hd
    split_ifs at hd
    · exact h.held d (List.mem_filter.1 hd).1 hip
    · exact h.held d hd hip
  · intro last counter href hno
    by_cases hex : ∃ d ∈ dos.data, d.ip = a
    · obtain ⟨d, hd, hip⟩ := hex
      have hpair := href.symm.trans (h.held d hd hip)
      cases hpair
      -- a live entry of `a` would still be there
      by_contra hlive
      apply hno d _ hip
      rw [hdata]
      split_ifs
      · exact List.mem_filter.2 ⟨hd, decide_eq_true ⟨hlive, hip ▸ ha⟩⟩
      · exact hd
    · exact h.dropped last counter href fun d hd hip => hex ⟨d, hd, hip⟩

/-! ## Runs -/

theorem answersFor_eq_of_tracks (V : VectorLib) {a : InAddr} (ha : a ≠ deletionMark)
    (calls : List Call) {dos : AntiDOS} {ref : Option (Int × Nat)} {now : Int}
    (h : Tracks a dos ref now) (hnow : ∀ c ∈ calls, now ≤ c.time) (hmono : ClockMonotone calls) :
    answersFor V a calls dos = refAnswers ref (timesOf a calls) := by
  -- `Tracks` is the invariant; its clock is that of the last call
  induction calls generalizing dos ref now with
  | nil => rfl
  | cons c calls ih =>
    obtain ⟨hnow', htail⟩ := clockMonotone_cons.1 hmono
    have ht := h.later (hnow c List.mem_cons_self)
    cases c with
    | registerIP ip t =>
      change Tracks a dos ref t at ht
      by_cases hip : ip = a
      · subst hip
        obtain ⟨hval, hnext⟩ := ht.registerIP_self V
        simp only [answersFor, timesOf, if_true, refAnswers]
        rw [ih hnext hnow' htail, ← hval]
      · simp only [answersFor, timesOf, if_neg hip]
        exact ih (ht.registerIP_other V hip) hnow' htail
    | update t => exact ih (ht.update V ha) hnow' htail

theorem answersFor_init (V : VectorLib) {a : InAddr} (ha : a ≠ deletionMark) {calls : List Call}
    (hmono : ClockMonotone calls) :
    answersFor V a calls init = refAnswers none (timesOf a calls) := by
  cases calls with
  | nil => rfl
  | cons c calls =>
    exact answersFor_eq_of_tracks V ha (c :: calls) (tracks_init a c.time) hmono.head_le hmono

/-- For every address but the deletion mark, and every run with non-decreasing clock readings, the
calls for the address return what the reference returns for the times of these calls. -/
theorem answersFor_eq_refAnswers (V : VectorLib) (a : InAddr) (ha : a ≠ deletionMark)
    (calls : List Call) (hmono : ClockMonotone calls) :
    answersFor V a calls init = refAnswers none (timesOf a calls) :=
  answersFor_init V ha hmono

/-- Two addresses and a sweep between their requests. -/
theorem answersFor_eq_refAnswers_interleaved :
    answersFor referenceVector 1
        [.registerIP 1 100, .registerIP 2 104, .update 112, .registerIP 1 112, .registerIP 1 113]
        init = [(100, 1), (112, 1), (113, 2)] := by
  refine (answersFor_eq_refAnswers referenceVector 1 (by decide) _ (by decide)).trans ?_
  decide

end IpSentinel.AntiDOS

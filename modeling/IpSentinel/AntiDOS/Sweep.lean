import IpSentinel.AntiDOS.Reference

/-!
# What a sweep keeps

The least access time of the table is a bound of all access times (`Timed`), so that the guard of
`AntiDOS_update` skips a sweep only when no entry has expired. A sweep that drops an entry drops
the entry of the address that is the deletion mark, too. `update_keeps_live_iff` says when a sweep
leaves exactly the entries that have not expired.
-/

set_option autoImplicit false

namespace IpSentinel.AntiDOS

open Foundation

/-! ## The times of the table -/

/-- What holds of the times of a table up to the reading `last` of the clock. -/
structure Timed (dos : AntiDOS) (last : Int) : Prop where
  ascending : dos.IsAscending
  minTime : ∀ d ∈ dos.data, dos.minTime ≤ d.accessTime
  accessTime : ∀ d ∈ dos.data, d.accessTime ≤ last
  epoch : ∀ d ∈ dos.data, 0 ≤ d.accessTime
  minTime_le : dos.minTime ≤ last
  epoch_le : 0 ≤ last

theorem timed_init : Timed init 0 where
  ascending := init_isAscending
  minTime := List.forall_mem_nil _
  accessTime := List.forall_mem_nil _
  epoch := List.forall_mem_nil _
  minTime_le := le_rfl
  epoch_le := le_rfl

theorem Timed.later {dos : AntiDOS} {last t : Int} (h : Timed dos last) (ht : last ≤ t) :
    Timed dos t where
  ascending := h.ascending
  minTime := h.minTime
  accessTime d hd := (h.accessTime d hd).trans ht
  epoch := h.epoch
  minTime_le := h.minTime_le.trans ht
  epoch_le := h.epoch_le.trans ht

theorem Timed.registerIP (V : VectorLib) {dos : AntiDOS} {last t : Int} (h : Timed dos last)
    (ht : last ≤ t) (ip : InAddr) : Timed (registerIP V dos ip t).2 t := by
  have hlater := h.later ht
  have hmin : (AntiDOS.registerIP V dos ip t).2.minTime ≤ t ∧
      ∀ d ∈ dos.data, (AntiDOS.registerIP V dos ip t).2.minTime ≤ d.accessTime := by
    rcases registerIP_minTime V dos ip t with hzero | hsame
    · rw [hzero]
      exact ⟨hlater.epoch_le, h.epoch⟩
    · rw [hsame]
      exact ⟨hlater.minTime_le, h.minTime⟩
  exact
    { ascending := registerIP_isAscending V h.ascending ip t
      minTime := forall_mem_registerIP V h.ascending hmin.2 hmin.1 fun _ _ _ => hmin.1
      accessTime :=
        forall_mem_registerIP V h.ascending hlater.accessTime le_rfl fun _ _ _ => le_rfl
      epoch :=
        forall_mem_registerIP V h.ascending h.epoch hlater.epoch_le fun _ _ _ => hlater.epoch_le
      minTime_le := hmin.1
      epoch_le := hlater.epoch_le }

/-- The least access time is bounded by the start value and by the entries that are not marked. -/
theorem markLoop_minTime_le (t : Int) (l : List Data) (minTime : Int) :
    (markLoop t l minTime).2.1 ≤ minTime ∧
      ∀ d ∈ l, ¬ Expired t d → (markLoop t l minTime).2.1 ≤ d.accessTime := by
  induction l generalizing minTime with
  | nil => exact ⟨le_rfl, List.forall_mem_nil _⟩
  | cons d l ih =>
    rw [markLoop]
    split_ifs with hd
    · obtain ⟨hstart, hall⟩ := ih minTime
      exact ⟨hstart, List.forall_mem_cons.2 ⟨fun hlive => absurd hd hlive, hall⟩⟩
    · obtain ⟨hstart, hall⟩ := ih (min minTime d.accessTime)
      obtain ⟨hmin, haccess⟩ := le_min_iff.1 hstart
      exact ⟨hmin, List.forall_mem_cons.2 ⟨fun _ => haccess, hall⟩⟩

/-- A sweep keeps entries of the table only, and none that has expired. -/
theorem update_data_sublist (V : VectorLib) {dos : AntiDOS} (h : dos.IsAscending) (t : Int) :
    (update V dos t).data.Sublist dos.data := by
  rw [update_data V h]
  split_ifs
  · exact List.filter_sublist
  · exact List.Sublist.refl _

theorem not_expired_of_mem_update (V : VectorLib) {dos : AntiDOS} (h : dos.IsAscending) {t : Int}
    (hguard : t - dos.minTime > antidosTimeBase) {d : Data} (hd : d ∈ (update V dos t).data) :
    ¬ Expired t d := by
  rw [update_data V h] at hd
  split_ifs at hd with hsweep
  · exact (of_decide_eq_true (List.mem_filter.1 hd).2 : Kept t d).1
  · exact fun hexpired => hsweep ⟨hguard, d, hd, hexpired⟩

theorem Timed.update (V : VectorLib) {dos : AntiDOS} {last t : Int} (h : Timed dos last)
    (ht : last ≤ t) : Timed (update V dos t) t := by
  have hlater := h.later ht
  have hsub := update_data_sublist V h.ascending t
  have hmin : (AntiDOS.update V dos t).minTime ≤ t ∧
      ∀ d ∈ (AntiDOS.update V dos t).data, (AntiDOS.update V dos t).minTime ≤ d.accessTime := by
    by_cases hguard : t - dos.minTime > antidosTimeBase
    · obtain ⟨hstart, hall⟩ := markLoop_minTime_le t dos.data t
      have heq : (AntiDOS.update V dos t).minTime = (markLoop t dos.data t).2.1 := by
        simp only [AntiDOS.update, if_pos hguard]
      rw [heq]
      refine ⟨hstart, fun d hd => hall d (hsub.subset hd) ?_⟩
      exact not_expired_of_mem_update V h.ascending hguard hd
    · rw [AntiDOS.update, if_neg hguard]
      exact ⟨hlater.minTime_le, h.minTime⟩
  exact
    { ascending := List.Pairwise.sublist hsub h.ascending
      minTime := hmin.2
      accessTime := fun d hd => hlater.accessTime d (hsub.subset hd)
      epoch := fun d hd => h.epoch d (hsub.subset hd)
      minTime_le := hmin.1
      epoch_le := hlater.epoch_le }

theorem Timed.next (V : VectorLib) {dos : AntiDOS} {last : Int} (h : Timed dos last) (c : Call)
    (hc : last ≤ c.time) : Timed (c.next V dos) c.time := by
  cases c with
  | registerIP ip t => exact h.registerIP V hc ip
  | update t => exact h.update V hc

/-- A run with a clock that does not go back keeps the bounds. -/
theorem Timed.after (V : VectorLib) {calls : List Call} {dos : AntiDOS} {last : Int}
    (h : Timed dos last) (hlast : ∀ c ∈ calls, last ≤ c.time) (hmono : ClockMonotone calls) :
    ∃ now, Timed (after V calls dos) now := by
  induction calls generalizing dos last with
  | nil => exact ⟨last, h⟩
  | cons c calls ih =>
    obtain ⟨hlast', htail⟩ := clockMonotone_cons.1 hmono
    exact ih (h.next V c (hlast c List.mem_cons_self)) hlast' htail

/-! ## The entries a sweep keeps -/

/-- Where the times are in order the guard of a sweep does not matter. -/
theorem Timed.update_data (V : VectorLib) {dos : AntiDOS} {last : Int} (h : Timed dos last)
    (t : Int) :
    (AntiDOS.update V dos t).data =
      if ∃ d ∈ dos.data, Expired t d then dos.data.filter fun d => Kept t d else dos.data := by
  rw [AntiDOS.update_data V h.ascending]
  apply if_congr _ rfl rfl
  apply and_iff_right_of_imp
  rintro ⟨d, hd, hexpired⟩
  have hmin := h.minTime d hd
  rw [Expired] at hexpired
  omega

/-- After every run with a clock that does not go back a sweep leaves exactly the entries that have
not expired, as they are, unless it drops an entry while the address that is the deletion mark has
one that has not expired. -/
theorem update_keeps_live_iff (V : VectorLib) (calls : List Call) (hmono : ClockMonotone calls)
    (hepoch : ∀ c ∈ calls, 0 ≤ c.time) (t : Int) :
    (update V (after V calls init) t).data =
        (after V calls init).data.filter (fun d => ¬ Expired t d) ↔
      ¬ ((∃ d ∈ (after V calls init).data, Expired t d) ∧
        ∃ d ∈ (after V calls init).data, ¬ Expired t d ∧ d.ip = deletionMark) := by
  obtain ⟨now, htimed⟩ := timed_init.after V hepoch hmono
  rw [htimed.update_data V]
  generalize (after V calls init).data = data
  by_cases hexpired : ∃ d ∈ data, Expired t d
  · rw [if_pos hexpired, and_iff_right hexpired]
    constructor
    · rintro heq ⟨d, hd, hlive, hmark⟩
      -- a live entry with the mark is dropped
      have hmem : d ∈ data.filter fun d => ¬ Expired t d :=
        List.mem_filter.2 ⟨hd, decide_eq_true hlive⟩
      rw [← heq] at hmem
      exact (of_decide_eq_true (List.mem_filter.1 hmem).2 : Kept t d).2 hmark
    · intro hno
      apply List.filter_congr
      intro d hd
      rw [decide_eq_decide]
      exact and_iff_left_of_imp fun hlive hmark => hno ⟨d, hd, hlive, hmark⟩
  · rw [if_neg hexpired]
    apply iff_of_true
    · symm
      rw [List.filter_eq_self]
      intro d hd
      exact decide_eq_true fun h => hexpired ⟨d, hd, h⟩
    · exact fun h => hexpired h.1

/-- A sweep that drops one of two entries. -/
theorem update_keeps_live_two :
    (update referenceVector (after referenceVector [.registerIP 1 100, .registerIP 2 111] init)
        112).data =
      (after referenceVector [.registerIP 1 100, .registerIP 2 111] init).data.filter
        (fun d => ¬ Expired 112 d) := by
  apply (update_keeps_live_iff referenceVector [.registerIP 1 100, .registerIP 2 111] (by decide)
    (by decide) 112).2
  decide

/-- A sweep that drops the entry of another address drops the entry of 255.255.255.255, one second
after its request. -/
theorem update_drops_live :
    (after referenceVector [.registerIP 1 100, .registerIP deletionMark 111] init).data.filter
        (fun d => ¬ Expired 112 d) = [⟨deletionMark, 111, 1⟩] ∧
      (update referenceVector
        (after referenceVector [.registerIP 1 100, .registerIP deletionMark 111] init) 112).data =
          [] := by
  decide

end IpSentinel.AntiDOS

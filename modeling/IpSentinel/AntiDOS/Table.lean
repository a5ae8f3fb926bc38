import IpSentinel.Foundation.KeyedTable
import IpSentinel.Foundation.Platform
import IpSentinel.Foundation.VectorLib
import IpSentinel.Net.Addresses
import IpSentinel.Parameters

/-!
# The anti-DOS table

The functions of `antidos.c`: a table with one entry for each source IP, in ascending order of the
address, and a sweep that marks the entries not accessed for a while with the address
255.255.255.255, sorts them to the end and pops them. Clock readings are an argument of the
functions; `t - access_time` is computed in `time_t` without overflow.

The spec lemmas say what a call does to an ascending table: `registerIP_data_new` and
`registerIP_data_known` for a request, `update_data` for the sweep.
-/

set_option autoImplicit false

namespace IpSentinel

open Foundation

/-- `struct Data` of `antidos.c`. -/
structure AntiDOS.Data where
  ip : InAddr
  accessTime : Int
  counter : Nat
  deriving DecidableEq

/-- `AntiDOS`. -/
structure AntiDOS where
  minTime : Int
  data : List AntiDOS.Data
  deriving DecidableEq

namespace AntiDOS

/-! ## The functions of the source -/

def searchCompare (lhs : InAddr) (rhs : Data) : Int :=
  if lhs.toNat < rhs.ip.toNat then -1 else if rhs.ip.toNat < lhs.toNat then 1 else 0

def sortCompare (lhs rhs : Data) : Int := searchCompare lhs.ip rhs

/-- `AntiDOS_init`. -/
def init : AntiDOS := { minTime := 0, data := [] }

/-- The address that marks an entry for deletion. -/
def deletionMark : InAddr := 0xFFFFFFFF

/-- The new counter of an entry that was last accessed `delta` seconds ago. The decay is computed
in `long` and stored into an `unsigned int`. -/
def nextCounter (counter : Nat) (delta : Int) : Nat :=
  if delta > antidosTimeBase then 1
  else if counter ≤ antidosCountMax then
    -- `-=` and `+=` store into the `unsigned int` one after the other
    toUInt (toUInt (counter - (counter * delta).tdiv antidosTimeBase) + 1)
  -- above the cap the counter is frozen while requests come every second
  else if delta > 1 then antidosCountMax
  else counter

/-- `AntiDOS_registerIP` at clock reading `t`: the returned counter and the table. -/
def registerIP (V : VectorLib) (dos : AntiDOS) (ip : InAddr) (t : Int) : Nat × AntiDOS :=
  match V.search searchCompare dos.data ip with
  | none =>
    let pos := V.insertPos searchCompare dos.data ip
    (1, { dos with data := insertAt dos.data pos { ip, accessTime := t, counter := 1 } })
  | some i =>
    let data := dos.data.get i
    let delta := t - data.accessTime
    let counter := nextCounter data.counter delta
    (counter,
      -- an entry that starts over makes the next sweep look at the table
      { minTime := if delta > antidosTimeBase then 0 else dos.minTime
        data := dos.data.set i { data with accessTime := t, counter } })

/-- The entry has not been accessed for more than the time base. -/
def Expired (t : Int) (d : Data) : Prop := t - d.accessTime > antidosTimeBase

instance (t : Int) (d : Data) : Decidable (Expired t d) :=
  inferInstanceAs (Decidable (t - d.accessTime > antidosTimeBase))

/-- The first loop of `AntiDOS_update`: the entries with the expired ones marked, the least access
time of the others, and whether an entry was marked. -/
def markLoop (t : Int) : List Data → Int → List Data × Int × Bool
  | [], minTime => ([], minTime, false)
  | d :: l, minTime =>
    if Expired t d then
      let r := markLoop t l minTime
      ({ d with ip := deletionMark } :: r.1, r.2.1, true)
    else
      let r := markLoop t l (min minTime d.accessTime)
      (d :: r.1, r.2)

/-- `AntiDOS_update` at clock reading `t`. -/
def update (V : VectorLib) (dos : AntiDOS) (t : Int) : AntiDOS :=
  if t - dos.minTime > antidosTimeBase then
    let r := markLoop t dos.data t
    { minTime := r.2.1
      data :=
        if r.2.2 then
          -- the second loop pops the marked entries off the sorted table
          (V.sort sortCompare r.1).rdropWhile fun d => d.ip = deletionMark
        else r.1 }
  else dos

def isOversized (dos : AntiDOS) : Bool := dos.data.length ≥ antidosEntriesMax

/-! ## The order of the table -/

/-- The sort key of an entry. -/
def Data.key (d : Data) : Nat := d.ip.toNat

/-- The table is in strictly ascending order of the address. -/
def IsAscending (dos : AntiDOS) : Prop := Ascending Data.key dos.data

theorem searchCompare_eq_zero {ip : InAddr} {d : Data} : searchCompare ip d = 0 ↔ ip = d.ip := by
  rw [← BitVec.toNat_inj]
  simp only [searchCompare]
  constructor
  · intro h
    split_ifs at h <;> omega
  · intro h
    rw [if_neg (by omega), if_neg (by omega)]

theorem searchCompare_nonneg {ip : InAddr} {d : Data} :
    0 ≤ searchCompare ip d ↔ d.ip.toNat ≤ ip.toNat := by
  simp only [searchCompare]
  split_ifs <;> omega

theorem searchCompare_nonpos {ip : InAddr} {d : Data} :
    searchCompare ip d ≤ 0 ↔ ip.toNat ≤ d.ip.toNat := by
  simp only [searchCompare]
  split_ifs <;> omega

theorem sortCompare_totalPreorder : TotalPreorder sortCompare where
  pos_iff a _ b _ := by
    simp only [sortCompare, searchCompare]
    split_ifs <;> omega
  trans a _ b _ c _ := by
    simp only [sortCompare, searchCompare_nonpos]
    exact le_trans

theorem IsAscending.partitioned {dos : AntiDOS} (h : dos.IsAscending) (ip : InAddr) :
    PartitionedBy searchCompare ip dos.data := by
  refine List.Pairwise.imp (fun {a b} hab => ?_) h
  have hlt : a.ip.toNat < b.ip.toNat := hab
  simp only [searchCompare]
  constructor
  · intro hb
    split_ifs at hb ⊢ <;> omega
  · intro ha
    split_ifs at ha ⊢ <;> omega

theorem init_isAscending : init.IsAscending := List.Pairwise.nil

theorem key_eq_iff {a b : Data} : a.key = b.key ↔ a.ip = b.ip := BitVec.toNat_inj

/-! ## registerIP -/

/-- The search of `registerIP` fails exactly for an address without an entry. -/
theorem search_eq_none_iff (V : VectorLib) {dos : AntiDOS} (h : dos.IsAscending) (ip : InAddr) :
    V.search searchCompare dos.data ip = none ↔ ∀ d ∈ dos.data, d.ip ≠ ip := by
  constructor
  · intro hs d hd heq
    exact V.search_none _ _ _ (h.partitioned ip) hs d hd (searchCompare_eq_zero.2 heq.symm)
  · intro hno
    cases hs : V.search searchCompare dos.data ip with
    | none => rfl
    | some i =>
      have heq := searchCompare_eq_zero.1 (V.search_some _ _ _ _ (h.partitioned ip) hs)
      exact absurd heq.symm (hno _ (dos.data.get_mem i))

/-- A request of an address without an entry adds one at its place. -/
theorem registerIP_data_new (V : VectorLib) {dos : AntiDOS} (h : dos.IsAscending) {ip : InAddr}
    {t : Int} (hno : ∀ d ∈ dos.data, d.ip ≠ ip) :
    ∃ pre post, dos.data = pre ++ post ∧
      registerIP V dos ip t =
        (1, { dos with data := pre ++ { ip, accessTime := t, counter := 1 } :: post }) ∧
      (registerIP V dos ip t).2.IsAscending := by
  have hs := (search_eq_none_iff V h ip).2 hno
  have hpart := h.partitioned ip
  have happ := List.take_append_drop (V.insertPos searchCompare dos.data ip) dos.data
  have heq : registerIP V dos ip t = (1, { dos with
      data := insertAt dos.data (V.insertPos searchCompare dos.data ip)
        { ip, accessTime := t, counter := 1 } }) := by
    simp only [registerIP, hs]
  refine ⟨_, _, happ.symm, heq, ?_⟩
  rw [heq]
  -- no entry of the address, so that the order on both sides is strict
  apply Ascending.insert
  · rw [happ]
    exact h
  · intro a ha
    have hle := searchCompare_nonneg.1 (V.insertPos_before _ _ _ hpart a ha)
    have hne := hno a (List.mem_of_mem_take ha)
    exact lt_of_le_of_ne hle fun he => hne (BitVec.eq_of_toNat_eq he)
  · intro b hb
    have hle := searchCompare_nonpos.1 (V.insertPos_after _ _ _ hpart b hb)
    have hne := hno b (List.mem_of_mem_drop hb)
    exact lt_of_le_of_ne hle fun he => hne (BitVec.eq_of_toNat_eq he.symm)

/-- A request of an address with an entry replaces the entry. -/
theorem registerIP_data_known (V : VectorLib) {dos : AntiDOS} (h : dos.IsAscending) {t : Int}
    {d : Data} (hd : d ∈ dos.data) :
    ∃ pre post, dos.data = pre ++ d :: post ∧
      registerIP V dos d.ip t =
        (nextCounter d.counter (t - d.accessTime),
          { minTime := if t - d.accessTime > antidosTimeBase then 0 else dos.minTime
            data := pre ++ { d with
              accessTime := t
              counter := nextCounter d.counter (t - d.accessTime) } :: post }) ∧
      (registerIP V dos d.ip t).2.IsAscending := by
  cases hs : V.search searchCompare dos.data d.ip with
  | none => exact absurd rfl ((search_eq_none_iff V h d.ip).1 hs d hd)
  | some i =>
    have hip := searchCompare_eq_zero.1 (V.search_some _ _ _ _ (h.partitioned d.ip) hs)
    -- the search finds the entry itself, no other one having its address
    have hget : dos.data.get i = d :=
      h.unique (dos.data.get_mem i) hd (key_eq_iff.2 hip.symm)
    have hsplit : dos.data = dos.data.take i ++ d :: dos.data.drop (i + 1) := by
      conv_lhs => rw [← List.take_append_drop i dos.data, ← List.cons_get_drop_succ (n := i), hget]
    have heq : registerIP V dos d.ip t =
        (nextCounter d.counter (t - d.accessTime),
          { minTime := if t - d.accessTime > antidosTimeBase then 0 else dos.minTime
            data := dos.data.take i ++ { d with
              accessTime := t
              counter := nextCounter d.counter (t - d.accessTime) } ::
                dos.data.drop (i + 1) }) := by
      simp only [registerIP, hs, hget]
      rw [List.set_eq_take_append_cons_drop, if_pos i.isLt]
    refine ⟨_, _, hsplit, heq, ?_⟩
    rw [heq]
    refine Ascending.replace (x := d) ?_ rfl
    rw [← hsplit]
    exact h

theorem registerIP_isAscending (V : VectorLib) {dos : AntiDOS} (h : dos.IsAscending) (ip : InAddr)
    (t : Int) : (registerIP V dos ip t).2.IsAscending := by
  by_cases hex : ∃ d ∈ dos.data, d.ip = ip
  · obtain ⟨d, hd, rfl⟩ := hex
    obtain ⟨pre, post, -, -, hasc⟩ := registerIP_data_known V h (t := t) hd
    exact hasc
  · obtain ⟨pre, post, -, -, hasc⟩ :=
      registerIP_data_new V h (t := t) fun d hd hip => hex ⟨d, hd, hip⟩
    exact hasc

/-- What holds of all entries and of the one a request adds or changes holds of all entries behind
the request. -/
theorem forall_mem_registerIP (V : VectorLib) {dos : AntiDOS} (h : dos.IsAscending) {ip : InAddr}
    {t : Int} {P : Data → Prop} (hold : ∀ d ∈ dos.data, P d)
    (hnew : P { ip, accessTime := t, counter := 1 })
    (hknown : ∀ d ∈ dos.data, d.ip = ip →
      P { d with accessTime := t, counter := nextCounter d.counter (t - d.accessTime) }) :
    ∀ d ∈ (registerIP V dos ip t).2.data, P d := by
  by_cases hex : ∃ d ∈ dos.data, d.ip = ip
  · obtain ⟨d, hd, rfl⟩ := hex
    obtain ⟨pre, post, hsplit, heq, -⟩ := registerIP_data_known V h (t := t) hd
    rw [hsplit, List.forall_mem_append, List.forall_mem_cons] at hold
    rw [heq, List.forall_mem_append, List.forall_mem_cons]
    exact ⟨hold.1, hknown d hd rfl, hold.2.2⟩
  · obtain ⟨pre, post, hsplit, heq, -⟩ :=
      registerIP_data_new V h (t := t) fun d hd hip => hex ⟨d, hd, hip⟩
    rw [hsplit, List.forall_mem_append] at hold
    rw [heq, List.forall_mem_append, List.forall_mem_cons]
    exact ⟨hold.1, hnew, hold.2⟩

/-- A request adds at most one entry. -/
theorem length_registerIP_le (V : VectorLib) {dos : AntiDOS} (h : dos.IsAscending) (ip : InAddr)
    (t : Int) : (registerIP V dos ip t).2.data.length ≤ dos.data.length + 1 := by
  by_cases hex : ∃ d ∈ dos.data, d.ip = ip
  · obtain ⟨d, hd, rfl⟩ := hex
    obtain ⟨pre, post, hsplit, heq, -⟩ := registerIP_data_known V h (t := t) hd
    rw [heq, hsplit]
    simp only [List.length_append, List.length_cons]
    omega
  · obtain ⟨pre, post, hsplit, heq, -⟩ :=
      registerIP_data_new V h (t := t) fun d hd hip => hex ⟨d, hd, hip⟩
    rw [heq, hsplit]
    simp only [List.length_append, List.length_cons]
    omega

/-- A request resets the least access time, or leaves it alone. -/
theorem registerIP_minTime (V : VectorLib) (dos : AntiDOS) (ip : InAddr) (t : Int) :
    (registerIP V dos ip t).2.minTime = 0 ∨ (registerIP V dos ip t).2.minTime = dos.minTime := by
  rw [registerIP]
  split
  · exact Or.inr rfl
  · dsimp only
    split_ifs
    · exact Or.inl rfl
    · exact Or.inr rfl

/-- The first request is counted as one. -/
theorem registerIP_init (V : VectorLib) (ip : InAddr) (t : Int) :
    (registerIP V init ip t).1 = 1 := by
  rw [registerIP]
  split
  · rfl
  · next i _ => exact i.elim0

/-! ## update -/

theorem markLoop_fst (t : Int) (l : List Data) (minTime : Int) :
    (markLoop t l minTime).1 =
      l.map fun d => if Expired t d then { d with ip := deletionMark } else d := by
  induction l generalizing minTime with
  | nil => rfl
  | cons d l ih =>
    simp only [markLoop, List.map_cons]
    split_ifs <;> simp [ih]

theorem markLoop_changed (t : Int) (l : List Data) (minTime : Int) :
    (markLoop t l minTime).2.2 = true ↔ ∃ d ∈ l, Expired t d := by
  induction l generalizing minTime with
  | nil => simp [markLoop]
  | cons d l ih =>
    simp only [markLoop]
    split_ifs with hd
    · simp [hd]
    · simp [hd, ih]

theorem key_le_deletionMark (d : Data) : d.key ≤ deletionMark.toNat := by
  have h := d.ip.isLt
  show d.ip.toNat ≤ 4294967295
  omega

/-- The entries a sweep keeps: not expired, and not those of the address that is the mark. -/
def Kept (t : Int) (d : Data) : Prop := ¬ Expired t d ∧ d.ip ≠ deletionMark

instance (t : Int) (d : Data) : Decidable (Kept t d) :=
  inferInstanceAs (Decidable (¬ Expired t d ∧ d.ip ≠ deletionMark))

/-- Marking and dropping the marked entries keeps the entries in `Kept`. -/
theorem filter_marked (t : Int) (l : List Data) :
    (l.map fun d => if Expired t d then { d with ip := deletionMark } else d).filter
        (fun d => d.key ≠ deletionMark.toNat) =
      l.filter fun d => Kept t d := by
  induction l with
  | nil => rfl
  | cons d l ih =>
    rw [List.map_cons, List.filter_cons, List.filter_cons, ih]
    by_cases hd : Expired t d
    · simp [hd, Kept, Data.key]
    · by_cases hm : d.ip = deletionMark
      · simp [hd, hm, Kept, Data.key]
      · have hkey : d.key ≠ deletionMark.toNat := fun he => hm (BitVec.eq_of_toNat_eq he)
        simp [hd, hm, Kept, hkey]

/-- What `update` does to an ascending table: when the guard is passed and an entry has expired it
keeps the entries in `Kept`, else all. -/
theorem update_data (V : VectorLib) {dos : AntiDOS} (h : dos.IsAscending) (t : Int) :
    (update V dos t).data =
      if t - dos.minTime > antidosTimeBase ∧ ∃ d ∈ dos.data, Expired t d then
        dos.data.filter fun d => Kept t d
      else dos.data := by
  by_cases hg : t - dos.minTime > antidosTimeBase
  · simp only [update, hg, true_and, markLoop_changed]
    by_cases hex : ∃ d ∈ dos.data, Expired t d
    · rw [if_pos hex, if_pos hex, markLoop_fst]
      generalize hm : (dos.data.map fun d =>
        if Expired t d then { d with ip := deletionMark } else d) = marked
      have hperm := V.sort_perm sortCompare marked sortCompare_totalPreorder
      have hsorted : (V.sort sortCompare marked).Pairwise fun a b => a.key ≤ b.key :=
        (V.sort_sorted sortCompare marked sortCompare_totalPreorder).imp
          fun hab => searchCompare_nonpos.1 hab
      have hpop := rdropWhile_eq_filter hsorted fun d _ => key_le_deletionMark d
      have hcond : (fun d : Data => decide (d.ip = deletionMark)) =
          fun d => decide (d.key = deletionMark.toNat) :=
        funext fun d => decide_eq_decide.2 BitVec.toNat_inj.symm
      rw [hcond, hpop]
      -- sorting moves the marked entries only, as the others are in order already
      apply Ascending.eq_of_perm (h.filter _) (hsorted.filter _)
      rw [← filter_marked, hm]
      exact hperm.filter _
    · rw [if_neg hex, if_neg hex, markLoop_fst]
      refine (List.map_congr_left fun d hd => ?_).trans (List.map_id _)
      exact if_neg fun he => hex ⟨d, hd, he⟩
  · simp [update, hg]

end AntiDOS

end IpSentinel

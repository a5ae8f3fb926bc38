import IpSentinel.BlackList.Entry
import IpSentinel.Foundation.VectorLib

/-!
# Looking up a MAC

`BlackList_getMac` and the comparison of a query with an entry. `compareEntry_eq` says what one
comparison does in terms of the verdict of the entry (`BaseData.verdict`), and
`searchNets_firstAnswering` what the loop over the nets does; the later modules reason with the
verdicts only.
-/

set_option autoImplicit false

namespace IpSentinel

open Foundation

/-- `BlackList`. The arguments of the program are passed to the functions that read them. -/
structure BlackList where
  ipList : List BlackList.IPData
  netList : List BlackList.NetData
  lastMtime : Int
  deriving DecidableEq

namespace BlackList

/-- `struct BlackListQuery`, with null pointers as `none`. -/
structure Query where
  resultBuffer : EtherAddr
  ip : InAddr
  mac : Option EtherAddr
  poisonMac : Option EtherAddr
  deriving DecidableEq

/-- The answers of `BlackList_compareAtMac`. -/
inductive AtMacMatch where
  | cmpIGNORE
  | cmpMATCH
  | cmpNOMATCH
  deriving DecidableEq

/-! ## The functions of the source -/

def compareAtMac (lhs : AtMac) (lhsStatus : BlackListStatus) (rhs : Option EtherAddr) :
    AtMacMatch :=
  if lhs.status = .amNONE then .cmpMATCH
  else match rhs with
    -- without a sender MAC an `@` part can not be decided
    | none => .cmpIGNORE
    | some mac =>
      if lhs.mac = mac ∧ lhs.status = .amPOSITIVE then .cmpMATCH
      else if lhs.mac ≠ mac ∧ lhs.status = .amNEGATIVE then .cmpMATCH
      else if lhs.mac = mac ∧ lhsStatus ≠ .blIGNORE then .cmpIGNORE
      else .cmpNOMATCH

/-- The local variables of `BlackList_getMac` and the query they may point into: `found` says that
`result` points to the result buffer. -/
structure Lookup where
  status : BlackListStatus
  found : Bool
  query : Query
  deriving DecidableEq

/-- `BlackList_compareEntry`: the returned flag and the variables. -/
def compareEntry (lhs : BaseData) (s : Lookup) : Bool × Lookup :=
  let s :=
    match compareAtMac lhs.atmac lhs.status s.query.mac with
    | .cmpIGNORE => { s with status := .blIGNORE }
    | .cmpMATCH =>
      let poisonMac :=
        if lhs.atmac.status = .amNEGATIVE then some lhs.atmac.mac else s.query.poisonMac
      { status := lhs.status
        found := true
        query := { s.query with resultBuffer := lhs.mac, poisonMac } }
    | .cmpNOMATCH => s
  (s.status ≠ .blUNDECIDED, s)

/-- The loop of `BlackList_getMac` over the nets. -/
def searchNets : List NetData → Lookup → Lookup
  | [], s => s
  | data :: nets, s =>
    if s.status ≠ .blUNDECIDED then s
    else if s.query.ip &&& data.mask ≠ data.v.ip then searchNets nets s
    else
      match compareEntry data.v s with
      | (true, s) => s
      | (false, s) => searchNets nets s

/-- The end of `BlackList_getMac`, after the entries have been compared. -/
def Lookup.finish (s : Lookup) (rand : Nat) (time : Int) : Option EtherAddr × Query :=
  if s.found then
    match s.status with
    | .blIGNORE => (none, s.query)
    | .blSET => (some s.query.resultBuffer, s.query)
    | .blRAND =>
      let mac := setRandomMac rand time
      (some mac, { s.query with resultBuffer := mac })
    | .blUNDECIDED => (none, s.query)
  else (none, s.query)

/-- The variables at the start of a lookup. -/
def Lookup.start (q : Query) : Lookup := { status := .blUNDECIDED, found := false, query := q }

/-- The part of `BlackList_getMac` that looks for an IP entry. -/
def searchIPs (V : VectorLib) (ips : List IPData) (q : Query) : Lookup :=
  match V.search IPData.searchCompare ips q.ip with
  | some i => (compareEntry (ips.get i).v (.start q)).2
  | none => .start q

/-- `BlackList_getMac`: the returned address and the query; `rand` and `time` are what
`Util_setRandomMac` reads, if it is called. -/
def getMac (V : VectorLib) (lst : BlackList) (q : Query) (rand : Nat) (time : Int) :
    Option EtherAddr × Query :=
  let s := searchIPs V lst.ipList q
  let s := if s.status = .blUNDECIDED then searchNets lst.netList s else s
  s.finish rand time

/-! ## Verdicts -/

/-- What an entry says about a sender: its status; that the sender is to be ignored; or nothing. -/
def BaseData.verdict (b : BaseData) (mac : Option EtherAddr) : Option BlackListStatus :=
  match b.atmac.status, mac with
  | .amNONE, _ => some b.status
  | _, none => some .blIGNORE
  | .amPOSITIVE, some m => if m = b.atmac.mac then some b.status else none
  | .amNEGATIVE, some m =>
    if m ≠ b.atmac.mac then some b.status
    else if b.status ≠ .blIGNORE then some .blIGNORE
    else none

/-- The address an entry answers with under a verdict. -/
def BaseData.fakeMac (b : BaseData) (verdict : BlackListStatus) (rand : Nat) (time : Int) :
    Option EtherAddr :=
  match verdict with
  | .blSET => some b.mac
  | .blRAND => some (setRandomMac rand time)
  | _ => none

/-- The legitimate address an `@!m` entry knows. -/
def BaseData.poison (b : BaseData) : Option EtherAddr :=
  if b.atmac.status = .amNEGATIVE then some b.atmac.mac else none

/-- The variables after an entry has decided. -/
def Lookup.decidedBy (b : BaseData) (q : Query) : Lookup := (compareEntry b (.start q)).2

/-- The verdict is the answer of `compareAtMac` with the status of the entry filled in. -/
theorem verdict_eq (b : BaseData) (mac : Option EtherAddr) :
    b.verdict mac =
      match compareAtMac b.atmac b.status mac with
      | .cmpIGNORE => some .blIGNORE
      | .cmpMATCH => some b.status
      | .cmpNOMATCH => none := by
  cases hs : b.atmac.status with
  | amNONE => simp [BaseData.verdict, compareAtMac, hs]
  | amPOSITIVE =>
    cases mac with
    | none => simp [BaseData.verdict, compareAtMac, hs]
    | some m =>
      by_cases hm : b.atmac.mac = m
      · simp [BaseData.verdict, compareAtMac, hs, hm]
      · simp [BaseData.verdict, compareAtMac, hs, hm, Ne.symm hm]
  | amNEGATIVE =>
    cases mac with
    | none => simp [BaseData.verdict, compareAtMac, hs]
    | some m =>
      by_cases hm : b.atmac.mac = m
      · by_cases hi : b.status = .blIGNORE
        · simp [BaseData.verdict, compareAtMac, hs, hm, hi]
        · simp [BaseData.verdict, compareAtMac, hs, hm, hi]
      · simp [BaseData.verdict, compareAtMac, hs, hm, Ne.symm hm]

theorem verdict_ne_undecided (b : BaseData) (mac : Option EtherAddr) :
    b.verdict mac ≠ some .blUNDECIDED := by
  have hdecided := b.decided
  rw [verdict_eq]
  cases compareAtMac b.atmac b.status mac with
  | cmpIGNORE => exact nofun
  | cmpMATCH => simpa using hdecided
  | cmpNOMATCH => exact nofun

/-- One comparison: an entry without a verdict changes nothing, and an entry with the verdict `v`
decides for `v`. -/
theorem compareEntry_eq (b : BaseData) (q : Query) :
    (b.verdict q.mac = none ∧ compareEntry b (.start q) = (false, .start q)) ∨
    ∃ v, b.verdict q.mac = some v ∧ compareEntry b (.start q) = (true, .decidedBy b q) ∧
      (Lookup.decidedBy b q).status = v ∧
      ∀ rand time, ((Lookup.decidedBy b q).finish rand time).1 = b.fakeMac v rand time ∧
        (v ≠ .blIGNORE → q.poisonMac = none →
          ((Lookup.decidedBy b q).finish rand time).2.poisonMac = b.poison) := by
  have hverdict := verdict_eq b q.mac
  cases hcmp : compareAtMac b.atmac b.status q.mac with
  | cmpNOMATCH =>
    rw [hcmp] at hverdict
    refine Or.inl ⟨hverdict, ?_⟩
    simp [compareEntry, Lookup.start, hcmp]
  | cmpIGNORE =>
    -- `result` stays null, whatever the status is
    rw [hcmp] at hverdict
    refine Or.inr ⟨_, hverdict, ?_, ?_, fun rand time => ⟨?_, fun hv => absurd rfl hv⟩⟩
    · simp [Lookup.decidedBy, compareEntry, Lookup.start, hcmp]
    · simp [Lookup.decidedBy, compareEntry, Lookup.start, hcmp]
    · simp [Lookup.decidedBy, compareEntry, Lookup.start, hcmp, Lookup.finish, BaseData.fakeMac]
  | cmpMATCH =>
    rw [hcmp] at hverdict
    have hdecided := b.decided
    refine Or.inr ⟨_, hverdict, ?_, ?_, fun rand time => ⟨?_, fun hv hq => ?_⟩⟩
    · simp [Lookup.decidedBy, compareEntry, Lookup.start, hcmp, hdecided]
    · simp [Lookup.decidedBy, compareEntry, Lookup.start, hcmp]
    · cases hs : b.status <;>
        simp_all [Lookup.decidedBy, compareEntry, Lookup.start, Lookup.finish, BaseData.fakeMac]
    · cases hs : b.status <;>
        simp_all [Lookup.decidedBy, compareEntry, Lookup.start, Lookup.finish, BaseData.poison]

/-- An entry that decides answers null exactly when its verdict is to ignore the query. -/
theorem decidedBy_null_iff {b : BaseData} {q : Query} (h : b.verdict q.mac ≠ none) (rand : Nat)
    (time : Int) :
    ((Lookup.decidedBy b q).finish rand time).1 = none ↔ b.verdict q.mac = some .blIGNORE := by
  rcases compareEntry_eq b q with ⟨hnone, -⟩ | ⟨v, hverd, -, -, hfinish⟩
  · exact absurd hnone h
  · rw [(hfinish rand time).1, hverd]
    cases v with
    | blUNDECIDED => exact absurd hverd (verdict_ne_undecided _ _)
    | blIGNORE => simp [BaseData.fakeMac]
    | blSET => simp [BaseData.fakeMac]
    | blRAND => simp [BaseData.fakeMac]

/-- An entry without a verdict leaves the variables alone. -/
theorem decidedBy_of_no_verdict {b : BaseData} {q : Query} (h : b.verdict q.mac = none) :
    Lookup.decidedBy b q = .start q := by
  rcases compareEntry_eq b q with ⟨-, heq⟩ | ⟨v, hv, -⟩
  · exact congrArg Prod.snd heq
  · rw [h] at hv
    cases hv

/-! ## The search in the IP list -/

theorem partitionedBy_of_sortedBy {ips : List IPData} (h : SortedBy IPData.sortCompare ips)
    (ip : InAddr) : PartitionedBy IPData.searchCompare ip ips := by
  refine List.Pairwise.imp (fun {a b} hab => ?_) h
  simp only [IPData.sortCompare, IPData.searchCompare] at hab ⊢
  split_ifs at hab ⊢ <;> omega

theorem searchIPs_of_found {V : VectorLib} {ips : List IPData} {q : Query} {i : Fin ips.length}
    (h : V.search IPData.searchCompare ips q.ip = some i) :
    searchIPs V ips q = .decidedBy (ips.get i).v q := by
  simp only [searchIPs, h, Lookup.decidedBy]

/-- The binary search finds an entry for the address, if there is one: the entry decides, or it has
no verdict, or there is no entry. -/
theorem searchIPs_cases (V : VectorLib) {ips : List IPData} (h : SortedBy IPData.sortCompare ips)
    (q : Query) :
    (∃ d ∈ ips, d.v.ip = q.ip ∧ d.v.verdict q.mac ≠ none ∧ searchIPs V ips q = .decidedBy d.v q) ∨
    searchIPs V ips q = .start q ∧
      ((∃ d ∈ ips, d.v.ip = q.ip ∧ d.v.verdict q.mac = none) ∨ ∀ d ∈ ips, d.v.ip ≠ q.ip) := by
  have hpart := partitionedBy_of_sortedBy h q.ip
  cases hs : V.search IPData.searchCompare ips q.ip with
  | none =>
    have hnone := V.search_none _ _ _ hpart hs
    refine Or.inr ⟨by rw [searchIPs, hs], Or.inr fun d hd hip => ?_⟩
    exact hnone d hd (IPData.searchCompare_eq_zero.2 hip)
  | some i =>
    have hmem : ips.get i ∈ ips := List.get_mem _ _
    have hip : (ips.get i).v.ip = q.ip :=
      IPData.searchCompare_eq_zero.1 (V.search_some _ _ _ _ hpart hs)
    have hfound := searchIPs_of_found hs
    by_cases hverd : (ips.get i).v.verdict q.mac = none
    · refine Or.inr ⟨?_, Or.inl ⟨_, hmem, hip, hverd⟩⟩
      rw [hfound, decidedBy_of_no_verdict hverd]
    · exact Or.inl ⟨_, hmem, hip, hverd, hfound⟩

theorem searchIPs_nil (V : VectorLib) (q : Query) : searchIPs V [] q = .start q := by
  rw [searchIPs]
  split
  · next i _ => exact i.elim0
  · rfl

/-- An IP entry that decides ends the lookup. -/
theorem getMac_of_decidedBy {V : VectorLib} {lst : BlackList} {q : Query} {b : BaseData}
    (hverd : b.verdict q.mac ≠ none) (h : searchIPs V lst.ipList q = .decidedBy b q)
    (rand : Nat) (time : Int) :
    getMac V lst q rand time = (Lookup.decidedBy b q).finish rand time := by
  have hdec : (Lookup.decidedBy b q).status ≠ .blUNDECIDED := by
    rcases compareEntry_eq b q with ⟨hnone, -⟩ | ⟨v, hv, -, hstatus, -⟩
    · exact absurd hnone hverd
    · rw [hstatus]
      rintro rfl
      exact verdict_ne_undecided _ _ hv
  simp only [getMac, h, if_neg hdec]

/-- Without such an entry the nets are searched. -/
theorem getMac_of_start {V : VectorLib} {lst : BlackList} {q : Query}
    (h : searchIPs V lst.ipList q = .start q) (rand : Nat) (time : Int) :
    getMac V lst q rand time = (searchNets lst.netList (.start q)).finish rand time := by
  simp only [getMac, h]
  rfl

/-! ## The search in the net list -/

/-- The net contains the address. -/
def NetData.Covers (n : NetData) (ip : InAddr) : Prop := ip &&& n.mask = n.v.ip

instance (n : NetData) (ip : InAddr) : Decidable (n.Covers ip) :=
  inferInstanceAs (Decidable (_ = _))

/-- A net that does not cover the address, or has no verdict, is passed over. -/
theorem searchNets_cons_skip {n : NetData} {nets : List NetData} {q : Query}
    (h : n.Covers q.ip → n.v.verdict q.mac = none) :
    searchNets (n :: nets) (.start q) = searchNets nets (.start q) := by
  have hstart : ¬ (Lookup.start q).status ≠ .blUNDECIDED := fun h => h rfl
  rw [searchNets, if_neg hstart]
  by_cases hcov : n.Covers q.ip
  · have hcov' : ¬ (Lookup.start q).query.ip &&& n.mask ≠ n.v.ip := not_not.2 hcov
    rw [if_neg hcov']
    rcases compareEntry_eq n.v q with ⟨-, heq⟩ | ⟨v, hverd, -⟩
    · rw [heq]
    · rw [h hcov] at hverd
      cases hverd
  · exact if_pos hcov

/-- A net that covers the address and has a verdict decides. -/
theorem searchNets_cons_decide {n : NetData} {nets : List NetData} {q : Query}
    (hcov : n.Covers q.ip) (h : n.v.verdict q.mac ≠ none) :
    searchNets (n :: nets) (.start q) = .decidedBy n.v q := by
  have hstart : ¬ (Lookup.start q).status ≠ .blUNDECIDED := fun h => h rfl
  have hcov' : ¬ (Lookup.start q).query.ip &&& n.mask ≠ n.v.ip := not_not.2 hcov
  rw [searchNets, if_neg hstart, if_neg hcov']
  rcases compareEntry_eq n.v q with ⟨hverd, -⟩ | ⟨v, -, heq, -⟩
  · exact absurd hverd h
  · rw [heq]

/-- The net covers the address and has a verdict on the sender. -/
def NetData.Answers (q : Query) (n : NetData) : Prop := n.Covers q.ip ∧ n.v.verdict q.mac ≠ none

instance (q : Query) (n : NetData) : Decidable (n.Answers q) :=
  inferInstanceAs (Decidable (_ ∧ _))

/-- The first net that answers. -/
def firstAnswering (nets : List NetData) (q : Query) : Option NetData :=
  nets.find? fun n => n.Answers q

theorem firstAnswering_some {nets : List NetData} {q : Query} {n : NetData}
    (h : firstAnswering nets q = some n) :
    n.Answers q ∧ ∃ pre post, nets = pre ++ n :: post ∧ ∀ m ∈ pre, ¬ m.Answers q := by
  obtain ⟨hn, pre, post, hsplit, hpre⟩ := List.find?_eq_some_iff_append.1 h
  refine ⟨by simpa using hn, pre, post, hsplit, fun m hm => ?_⟩
  simpa using hpre m hm

theorem firstAnswering_none {nets : List NetData} {q : Query} :
    firstAnswering nets q = none ↔ ∀ n ∈ nets, ¬ n.Answers q := by
  simp [firstAnswering]

/-- In a sorted list the first net that answers compares no greater than any other one. -/
theorem firstAnswering_le {cmp : CompareFunc NetData} (hcmp : TotalPreorder cmp)
    {nets : List NetData} {q : Query} {n : NetData} (hsorted : SortedBy cmp nets)
    (h : firstAnswering nets q = some n) : ∀ m ∈ nets, m.Answers q → cmp n m ≤ 0 := by
  obtain ⟨-, pre, post, rfl, hpre⟩ := firstAnswering_some h
  intro m hm hanswers
  rcases List.mem_append.1 hm with hm | hm
  · exact absurd hanswers (hpre m hm)
  · rcases List.mem_cons.1 hm with rfl | hm
    · exact hcmp.refl trivial
    · exact (List.pairwise_cons.1 (List.pairwise_append.1 hsorted).2.1).1 m hm

/-- The loop over the nets: the first net that answers decides. -/
theorem searchNets_firstAnswering (nets : List NetData) (q : Query) :
    searchNets nets (.start q) =
      match firstAnswering nets q with
      | none => .start q
      | some n => .decidedBy n.v q := by
  induction nets with
  | nil => rfl
  | cons n nets ih =>
    by_cases hanswers : n.Answers q
    · have hfirst : firstAnswering (n :: nets) q = some n := List.find?_cons_of_pos (by simpa)
      rw [searchNets_cons_decide hanswers.1 hanswers.2, hfirst]
    · have hfirst : firstAnswering (n :: nets) q = firstAnswering nets q :=
        List.find?_cons_of_neg (by simpa)
      rw [searchNets_cons_skip, hfirst, ih]
      intro hcov
      by_contra hverd
      exact hanswers ⟨hcov, hverd⟩

/-! ## The entry that decides -/

/-- The entry found in the IP list if it has a verdict, else the first net that answers. -/
def decidingEntry (V : VectorLib) (lst : BlackList) (q : Query) : Option BaseData :=
  match V.search IPData.searchCompare lst.ipList q.ip with
  | some i =>
    if (lst.ipList.get i).v.verdict q.mac ≠ none then some (lst.ipList.get i).v
    else (firstAnswering lst.netList q).map fun n => n.v
  | none => (firstAnswering lst.netList q).map fun n => n.v

/-- The lookup is the answer of the entry that decides. -/
theorem getMac_decidingEntry (V : VectorLib) (lst : BlackList) (q : Query) (rand : Nat)
    (time : Int) :
    match decidingEntry V lst q with
    | none => getMac V lst q rand time = (none, q)
    | some b => b.verdict q.mac ≠ none ∧
        getMac V lst q rand time = (Lookup.decidedBy b q).finish rand time := by
  -- where no IP rule decides, the first net that answers does
  have hnets : searchIPs V lst.ipList q = .start q →
      match (firstAnswering lst.netList q).map fun n => n.v with
      | none => getMac V lst q rand time = (none, q)
      | some b => b.verdict q.mac ≠ none ∧
          getMac V lst q rand time = (Lookup.decidedBy b q).finish rand time := by
    intro hstart
    rw [getMac_of_start hstart, searchNets_firstAnswering]
    cases hfirst : firstAnswering lst.netList q with
    | none => rfl
    | some n => exact ⟨(firstAnswering_some hfirst).1.2, rfl⟩
  cases hs : V.search IPData.searchCompare lst.ipList q.ip with
  | none =>
    simp only [decidingEntry, hs]
    exact hnets (by simp only [searchIPs, hs])
  | some i =>
    by_cases hverd : (lst.ipList.get i).v.verdict q.mac ≠ none
    · simp only [decidingEntry, hs, if_pos hverd]
      exact ⟨hverd, getMac_of_decidedBy hverd (searchIPs_of_found hs) rand time⟩
    · simp only [decidingEntry, hs, if_neg hverd]
      apply hnets
      rw [searchIPs_of_found hs, decidedBy_of_no_verdict (not_not.1 hverd)]

/-- A lookup that answers with an address has been decided by an entry, which also says what the
legitimate address is. -/
theorem exists_decidingEntry {V : VectorLib} {lst : BlackList} {q : Query} {rand : Nat}
    {time : Int} {mac : EtherAddr} (hpoison : q.poisonMac = none)
    (h : (getMac V lst q rand time).1 = some mac) :
    ∃ b, decidingEntry V lst q = some b ∧
      (getMac V lst q rand time).2.poisonMac = b.poison := by
  have hdecides := getMac_decidingEntry V lst q rand time
  cases hentry : decidingEntry V lst q with
  | none =>
    rw [hentry] at hdecides
    rw [hdecides] at h
    cases h
  | some b =>
    rw [hentry] at hdecides
    obtain ⟨hverd, heq⟩ := hdecides
    rcases compareEntry_eq b q with ⟨hnone, -⟩ | ⟨v, hv, -, -, hfinish⟩
    · exact absurd hnone hverd
    · obtain ⟨hmac, hlegitimate⟩ := hfinish rand time
      refine ⟨b, rfl, ?_⟩
      rw [heq] at h ⊢
      refine hlegitimate ?_ hpoison
      -- an ignored query is not answered
      rintro rfl
      rw [hmac] at h
      cases h

end BlackList

end IpSentinel

import IpSentinel.BlackList.Sorting

/-!
# Rules for a sender

A rule `*@srcmac [mac]` is stored as a net with mask 0 and sorted in front of all other nets. A
query without a sender MAC meets it first, and its `@` part makes the query ignored.
`getMac_starRule_iff` says for which addresses the answer to such a query stays the same when the
rule is added to the configuration.
-/

set_option autoImplicit false

namespace IpSentinel.BlackList

open Foundation

/-- The net is an entry for a rule `*@srcmac [mac]`. -/
structure IsStarRule (n : NetData) : Prop where
  noIp : n.noIp = true
  positive : n.v.atmac.status = .amPOSITIVE

/-- The first net of the list that covers the address. -/
def firstCovering (nets : List NetData) (ip : InAddr) : Option NetData :=
  nets.find? fun n => n.Covers ip

/-! ## Queries without a sender MAC -/

/-- Without a sender MAC every entry has a verdict. -/
theorem verdict_none_mac (b : BaseData) :
    b.verdict none = some (if b.atmac.status = .amNONE then b.status else .blIGNORE) := by
  cases hs : b.atmac.status <;> simp [BaseData.verdict, hs]

/-- What an entry answers to a query without a sender MAC is null exactly when the entry has an
`@` part or its status is to ignore. -/
theorem decidedBy_eq_none_iff {b : BaseData} {q : Query} (hmac : q.mac = none) (rand : Nat)
    (time : Int) :
    ((Lookup.decidedBy b q).finish rand time).1 = none ↔
      b.status = .blIGNORE ∨ b.atmac.status ≠ .amNONE := by
  rcases compareEntry_eq b q with ⟨hverd, -⟩ | ⟨v, hverd, -, -, hfinish⟩
  · rw [hmac, verdict_none_mac] at hverd
    cases hverd
  · rw [hmac, verdict_none_mac] at hverd
    rw [(hfinish rand time).1]
    have hdecided := b.decided
    cases hverd
    cases hat : b.atmac.status <;> cases hs : b.status <;> simp_all [BaseData.fakeMac]

/-- Without a sender MAC the first net that covers the address decides. -/
theorem searchNets_none_mac (nets : List NetData) {q : Query} (hmac : q.mac = none) :
    searchNets nets (.start q) =
      match firstCovering nets q.ip with
      | none => .start q
      | some n => .decidedBy n.v q := by
  induction nets with
  | nil => rfl
  | cons n nets ih =>
    by_cases hcov : n.Covers q.ip
    · have hverd : n.v.verdict q.mac ≠ none := by
        rw [hmac, verdict_none_mac]
        exact Option.some_ne_none _
      have hfirst : firstCovering (n :: nets) q.ip = some n := List.find?_cons_of_pos (by simpa)
      rw [searchNets_cons_decide hcov hverd, hfirst]
    · have hfirst : firstCovering (n :: nets) q.ip = firstCovering nets q.ip :=
        List.find?_cons_of_neg (by simpa)
      rw [searchNets_cons_skip fun h => absurd h hcov, hfirst, ih]

theorem finish_searchNets_eq_none_iff (nets : List NetData) {q : Query} (hmac : q.mac = none)
    (rand : Nat) (time : Int) :
    ((searchNets nets (.start q)).finish rand time).1 = none ↔
      ∀ n, firstCovering nets q.ip = some n →
        n.v.status = .blIGNORE ∨ n.v.atmac.status ≠ .amNONE := by
  rw [searchNets_none_mac nets hmac]
  cases hf : firstCovering nets q.ip with
  | none => simp [Lookup.finish, Lookup.start]
  | some n =>
    simp only [decidedBy_eq_none_iff hmac rand time, Option.some.injEq]
    constructor
    · rintro h _ rfl
      exact h
    · intro h
      exact h n rfl

/-! ## Adding the rule -/

/-- A net that compares no greater than a star rule is an entry for all addresses, too. -/
theorem noIp_of_sortCompare {testsuite : Bool} {n star : NetData} (hstar : star.noIp = true)
    (h : NetData.sortCompare testsuite n star ≤ 0) : n.noIp = true := by
  have hprec := NetData.precedence_of_sortCompare h
  have hkey := first_nonpos_of_thenBy (first_nonpos_of_thenBy hprec)
  by_contra hne
  simp [NetData.noIpKey, byKey, hstar, hne] at hkey

/-- An entry for all addresses covers each of them. -/
theorem covers_of_noIp {n : NetData} (h : n.noIp = true) (ip : InAddr) : n.Covers ip := by
  have hmask := n.mask_of_noIp h
  have hip := n.masked
  rw [hmask] at hip
  rw [NetData.Covers, hmask, ← hip]
  simp

/-- With a star rule in the configuration the first net covers every address and has an `@`
part. -/
theorem firstCovering_of_starRule (V : VectorLib) (testsuite : Bool) (lst : BlackList)
    {star : NetData} (hstar : IsStarRule star) (hmem : star ∈ lst.netList) (ip : InAddr) :
    ∃ n, firstCovering (sortLists V testsuite lst).netList ip = some n ∧
      n.v.atmac.status ≠ .amNONE := by
  obtain ⟨first, rest, heq, hle⟩ := sortLists_netList_head V testsuite lst hmem
  have hprec := NetData.precedence_of_sortCompare hle
  have hmaskStar := star.mask_of_noIp hstar.noIp
  -- the head of the list is a star rule too
  have hnoIp := noIp_of_sortCompare hstar.noIp hle
  have hmask := first.mask_of_noIp hnoIp
  have hbits : thenBy NetData.noIpKey NetData.bitsKey first star = 0 := by
    simp [thenBy, NetData.noIpKey, NetData.bitsKey, byKey, hnoIp, hstar.noIp, hmask, hmaskStar]
  have hatmac := second_nonpos_of_thenBy hprec hbits
  have hcov := covers_of_noIp hnoIp ip
  refine ⟨first, ?_, fun hnone => ?_⟩
  · rw [heq]
    exact List.find?_cons_of_pos (by simpa)
  · simp [NetData.atmacKey, byKey, hnone, hstar.positive, AtMacStatus.value] at hatmac

/-- Adding a rule `*@srcmac [mac]` anywhere in the configuration leaves the answer to a query
without a sender MAC unchanged exactly when the address has an IP rule, or no net covers it, or the
first net that does is an ignore rule or has an `@` part. -/
theorem getMac_starRule_iff (V : VectorLib) (testsuite : Bool) (ips : List IPData)
    (nets nets' : List NetData) (star : NetData) (mtime : Int) (q : Query) (rand : Nat)
    (time : Int) (hstar : IsStarRule star) (hmac : q.mac = none) :
    let old := sortLists V testsuite ⟨ips, nets ++ nets', mtime⟩
    let new := sortLists V testsuite ⟨ips, nets ++ star :: nets', mtime⟩
    (getMac V new q rand time).1 = (getMac V old q rand time).1 ↔
      (∃ d ∈ old.ipList, d.v.ip = q.ip) ∨
      ∀ n, firstCovering old.netList q.ip = some n →
        n.v.status = .blIGNORE ∨ n.v.atmac.status ≠ .amNONE := by
  intro old new
  have hsame : new.ipList = old.ipList := by
    cases testsuite <;> rfl
  have hips : SortedBy IPData.sortCompare old.ipList := sortLists_ipList_sorted ..
  rcases searchIPs_cases V hips q with ⟨d, hd, hip, hverd, heq⟩ |
    ⟨heq, ⟨d, -, -, hverd⟩ | hnone⟩
  · -- the IP rule decides in both configurations
    have hnew : searchIPs V new.ipList q = .decidedBy d.v q := by rw [hsame, heq]
    rw [getMac_of_decidedBy hverd heq, getMac_of_decidedBy hverd hnew]
    exact iff_of_true rfl (Or.inl ⟨d, hd, hip⟩)
  · -- an IP rule without a verdict does not exist
    rw [hmac, verdict_none_mac] at hverd
    cases hverd
  · -- the nets decide, and with the star rule in front of them the answer is null
    have hnew : searchIPs V new.ipList q = .start q := by rw [hsame, heq]
    obtain ⟨n, hfirst, hat⟩ := firstCovering_of_starRule V testsuite
      ⟨ips, nets ++ star :: nets', mtime⟩ hstar (List.mem_append_right nets List.mem_cons_self) q.ip
    have hnull : ((searchNets new.netList (.start q)).finish rand time).1 = none := by
      rw [finish_searchNets_eq_none_iff _ hmac]
      intro n' hn'
      cases hfirst.symm.trans hn'
      exact Or.inr hat
    rw [getMac_of_start heq, getMac_of_start hnew, hnull, eq_comm,
      finish_searchNets_eq_none_iff _ hmac]
    constructor
    · exact Or.inr
    · rintro (⟨d, hd, hip⟩ | h)
      · exact absurd hip (hnone d hd)
      · exact h

/-- The rule `0.0.0.0/0`. -/
def blockAnything : NetData where
  v :=
    { ip := 0
      status := .blRAND
      mac := .zero
      atmac := ⟨.zero, .amNONE⟩
      decided := blRAND_decided }
  mask := 0
  noIp := false
  masked := zero_masked
  mask_of_noIp := zero_mask false

/-- The rule `*@1:1:1:2:2:2`. -/
def blockHost : NetData where
  v :=
    { ip := 0
      status := .blRAND
      mac := .zero
      atmac := ⟨blockedMac, .amPOSITIVE⟩
      decided := blRAND_decided }
  mask := 0
  noIp := true
  masked := zero_masked
  mask_of_noIp := zero_mask true

/-- The query for 169.254.1.2 as a requested address. -/
def requestedQuery : Query :=
  { resultBuffer := .zero, ip := ntohl 0xA9FE0102, mac := none, poisonMac := none }

/-- The rule `169.254.1.2`. -/
def requestedHost : IPData where
  v :=
    { ip := ntohl 0xA9FE0102
      status := .blRAND
      mac := .zero
      atmac := ⟨.zero, .amNONE⟩
      decided := blRAND_decided }

/-- With `169.254.1.2` in the configuration the address is answered as before. -/
theorem getMac_starRule_iff_requestedHost :
    let old := sortLists referenceVector false ⟨[requestedHost], [blockAnything], 0⟩
    let new := sortLists referenceVector false ⟨[requestedHost], [blockAnything, blockHost], 0⟩
    (getMac referenceVector new requestedQuery 0 0).1 =
        (getMac referenceVector old requestedQuery 0 0).1 ∧
      (getMac referenceVector old requestedQuery 0 0).1 = some (setRandomMac 0 0) := by
  intro old new
  refine ⟨?_, by decide⟩
  exact (getMac_starRule_iff referenceVector false [requestedHost] [blockAnything] [] blockHost 0
    requestedQuery 0 0 ⟨rfl, rfl⟩ rfl).2 (Or.inl (by decide))

/-- With `*@1:1:1:2:2:2` added to `0.0.0.0/0` the requested address 169.254.1.2 is answered no
more. -/
theorem starRule_hides_net :
    IsStarRule blockHost ∧ requestedQuery.mac = none ∧
      (getMac referenceVector (sortLists referenceVector false ⟨[], [blockAnything], 0⟩)
        requestedQuery 0 0).1 = some (setRandomMac 0 0) ∧
      (getMac referenceVector (sortLists referenceVector false ⟨[], [blockAnything, blockHost], 0⟩)
        requestedQuery 0 0).1 = none :=
  ⟨⟨rfl, rfl⟩, rfl, by decide, by decide⟩

end IpSentinel.BlackList

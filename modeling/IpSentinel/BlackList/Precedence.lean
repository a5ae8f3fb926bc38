import IpSentinel.BlackList.Lookup

/-!
# Which rule decides a lookup

The documented meaning of a blacklist without `*` rules: the IP rules and the net rules together
are a set of rules with an order of precedence, and the answer to a query is that of the rule with
the highest precedence among those that cover the address and have a verdict on the sender
(`getMac_decided`). The search of the sorted lists finds this rule: an IP rule is found by binary
search (`getMac_cases`), and among the nets the first one with a verdict is one that no other
outranks (`not_outranks_of_sortCompare`).
-/

set_option autoImplicit false

namespace IpSentinel.BlackList

open Foundation

/-! ## Rules -/

/-- A rule of the configuration. -/
inductive Rule where
  | ip (d : IPData)
  | net (n : NetData)

namespace Rule

def base : Rule → BaseData
  | .ip d => d.v
  | .net n => n.v

def Covers (ip : InAddr) : Rule → Prop
  | .ip d => d.v.ip = ip
  | .net n => n.Covers ip

/-- An IP rule outranks all nets. Among nets the one with more bits in the mask has precedence,
then `@m` before `@!m` before no `@` part. -/
def Outranks : Rule → Rule → Prop
  | .ip _, .net _ => True
  | .net m, .net n =>
    maskBits n.mask < maskBits m.mask ∨
      maskBits n.mask = maskBits m.mask ∧ n.v.atmac.status.value < m.v.atmac.status.value
  | _, .ip _ => False

end Rule

/-- The rules of a blacklist. -/
def rules (lst : BlackList) : List Rule := lst.ipList.map .ip ++ lst.netList.map .net

theorem mem_rules {lst : BlackList} {r : Rule} :
    r ∈ rules lst ↔ (∃ d ∈ lst.ipList, .ip d = r) ∨ ∃ n ∈ lst.netList, .net n = r := by
  simp [rules]

theorem forall_mem_rules {lst : BlackList} {P : Rule → Prop} :
    (∀ r ∈ rules lst, P r) ↔ (∀ d ∈ lst.ipList, P (.ip d)) ∧ ∀ n ∈ lst.netList, P (.net n) := by
  simp only [rules, List.forall_mem_append, List.forall_mem_map]

/-- The rule `r` with the verdict `v` decides the query: it covers the address, and no rule that
covers the address and has a verdict outranks it. -/
structure Decides (lst : BlackList) (q : Query) (r : Rule) (v : BlackListStatus) : Prop where
  mem : r ∈ rules lst
  covers : r.Covers q.ip
  verdict : r.base.verdict q.mac = some v
  highest : ∀ r' ∈ rules lst, r'.Covers q.ip → r'.base.verdict q.mac ≠ none → ¬ r'.Outranks r

/-- The IP rules are in the order of `sortCompare`, with one rule for an address. -/
structure IPsSorted (ips : List IPData) : Prop where
  sorted : SortedBy IPData.sortCompare ips
  nodup : (ips.map fun d => d.v.ip).Nodup

/-! ## The search -/

/-- A net in front of another one in the sorted list is not outranked by it. -/
theorem not_outranks_of_sortCompare {testsuite : Bool} {m n : NetData} (hm : m.noIp = false)
    (hn : n.noIp = false) (h : NetData.sortCompare testsuite m n ≤ 0) :
    ¬ (Rule.net n).Outranks (.net m) := by
  have hprec := NetData.precedence_of_sortCompare h
  have hnoIp : NetData.noIpKey m n = 0 := by simp [NetData.noIpKey, byKey, hm, hn]
  have hbits := second_nonpos_of_thenBy (first_nonpos_of_thenBy hprec) hnoIp
  have hatmac : NetData.bitsKey m n = 0 → NetData.atmacKey m n ≤ 0 := by
    intro h0
    apply second_nonpos_of_thenBy hprec
    simp only [thenBy, hnoIp, h0, if_true]
  simp only [NetData.bitsKey, NetData.atmacKey, byKey] at hbits hatmac
  simp only [Rule.Outranks]
  omega

/-- With one entry for an address, the rule for the address decides, or no IP rule for it has a
verdict and the nets are searched. -/
theorem getMac_cases (V : VectorLib) {lst : BlackList} (hips : IPsSorted lst.ipList) (q : Query)
    (rand : Nat) (time : Int) :
    (∃ d ∈ lst.ipList, d.v.ip = q.ip ∧ d.v.verdict q.mac ≠ none ∧
      getMac V lst q rand time = (Lookup.decidedBy d.v q).finish rand time) ∨
    ((∀ d ∈ lst.ipList, d.v.ip = q.ip → d.v.verdict q.mac = none) ∧
      getMac V lst q rand time = (searchNets lst.netList (.start q)).finish rand time) := by
  rcases searchIPs_cases V hips.sorted q with ⟨d, hd, hip, hverd, heq⟩ |
    ⟨heq, ⟨d, hd, hip, hverd⟩ | hnone⟩
  · exact Or.inl ⟨d, hd, hip, hverd, getMac_of_decidedBy hverd heq rand time⟩
  · refine Or.inr ⟨fun d' hd' hip' => ?_, getMac_of_start heq rand time⟩
    rw [List.inj_on_of_nodup_map hips.nodup hd' hd (hip'.trans hip.symm)]
    exact hverd
  · exact Or.inr ⟨fun d hd hip => absurd hip (hnone d hd), getMac_of_start heq rand time⟩

/-! ## The deciding rule -/

/-- What the answer to a query says about the rule and the verdict that decide it. -/
structure AnsweredBy (answer : Option EtherAddr × Query) (q : Query) (r : Rule)
    (v : BlackListStatus) (rand : Nat) (time : Int) : Prop where
  null_iff : answer.1 = none ↔ v = .blIGNORE
  mac : answer.1 = r.base.fakeMac v rand time
  poison : q.poisonMac = none → answer.1 ≠ none → answer.2.poisonMac = r.base.poison

/-- An entry that decides a lookup answers it. -/
theorem answeredBy_of_decidedBy {r : Rule} {q : Query} (h : r.base.verdict q.mac ≠ none)
    (rand : Nat) (time : Int) :
    ∃ v, r.base.verdict q.mac = some v ∧
      AnsweredBy ((Lookup.decidedBy r.base q).finish rand time) q r v rand time := by
  rcases compareEntry_eq r.base q with ⟨hverd, -⟩ | ⟨v, hverd, -, -, hfinish⟩
  · exact absurd hverd h
  · obtain ⟨hmac, hpoison⟩ := hfinish rand time
    have hnull : ((Lookup.decidedBy r.base q).finish rand time).1 = none ↔ v = .blIGNORE := by
      rw [decidedBy_null_iff h, hverd, Option.some.injEq]
    refine ⟨v, hverd, hnull, hmac, fun hq hsome => hpoison (fun hv => hsome (hnull.2 hv)) hq⟩

/-- The first net that answers decides when no IP rule has a verdict. -/
theorem decides_of_firstAnswering {testsuite : Bool} {lst : BlackList} {q : Query} {n : NetData}
    {v : BlackListStatus}
    (hnoip : ∀ d ∈ lst.ipList, d.v.ip = q.ip → d.v.verdict q.mac = none)
    (hnets : SortedBy (NetData.sortCompare testsuite) lst.netList)
    (hstar : ∀ n ∈ lst.netList, n.noIp = false) (hfirst : firstAnswering lst.netList q = some n)
    (hv : n.v.verdict q.mac = some v) : Decides lst q (.net n) v := by
  have hn : n ∈ lst.netList := List.mem_of_find?_eq_some hfirst
  refine ⟨mem_rules.2 (Or.inr ⟨n, hn, rfl⟩), (firstAnswering_some hfirst).1.1, hv, ?_⟩
  refine forall_mem_rules.2 ⟨?_, ?_⟩
  · intro d hd hip hverd
    exact absurd (hnoip d hd hip) hverd
  · intro m hm hcov hverd
    -- the sorted list has the nets that are outranked behind those that outrank them
    have hle := firstAnswering_le (NetData.sortCompare_totalPreorder testsuite) hnets hfirst m hm
      ⟨hcov, hverd⟩
    exact not_outranks_of_sortCompare (hstar n hn) (hstar m hm) hle

/-- In a blacklist without `*` rules whose lists are sorted, no rule that covers the address has a
verdict and the answer is null, or the answer is that of a deciding rule. -/
theorem getMac_decided (V : VectorLib) (testsuite : Bool) (lst : BlackList) (q : Query)
    (rand : Nat) (time : Int) (hips : IPsSorted lst.ipList)
    (hnets : SortedBy (NetData.sortCompare testsuite) lst.netList)
    (hstar : ∀ n ∈ lst.netList, n.noIp = false) :
    ((∀ r ∈ rules lst, r.Covers q.ip → r.base.verdict q.mac = none) ∧
      (getMac V lst q rand time).1 = none) ∨
    ∃ r v, Decides lst q r v ∧ AnsweredBy (getMac V lst q rand time) q r v rand time := by
  rcases getMac_cases V hips q rand time with ⟨d, hd, hip, hverd, heq⟩ | ⟨hnoip, heq⟩
  · -- the IP rule
    obtain ⟨v, hv, hans⟩ := answeredBy_of_decidedBy (r := .ip d) hverd rand time
    rw [heq]
    refine Or.inr ⟨.ip d, v, ⟨mem_rules.2 (Or.inl ⟨d, hd, rfl⟩), hip, hv, ?_⟩, hans⟩
    intro r' _ _ _ hout
    cases r' <;> exact hout
  · -- the first net of the sorted list that answers
    rw [heq, searchNets_firstAnswering]
    cases hfirst : firstAnswering lst.netList q with
    | none =>
      left
      refine ⟨forall_mem_rules.2 ⟨hnoip, fun n hn hcov => ?_⟩, rfl⟩
      by_contra hverd
      exact firstAnswering_none.1 hfirst n hn ⟨hcov, hverd⟩
    | some n =>
      right
      obtain ⟨v, hv, hans⟩ :=
        answeredBy_of_decidedBy (r := .net n) (firstAnswering_some hfirst).1.2 rand time
      exact ⟨.net n, v, decides_of_firstAnswering hnoip hnets hstar hfirst hv, hans⟩

/-- The rules `10.0.0.2@!1:1:1:1:1:1 a:b:c:d:e:f`, `!192.168.0.0/24` and `0.0.0.0/0`. -/
def sampleRules : BlackList where
  ipList :=
    [{ v :=
        { ip := ntohl 0x0A000002
          status := .blSET
          mac := ⟨#v[0xa, 0xb, 0xc, 0xd, 0xe, 0xf]⟩
          atmac := ⟨⟨Vector.replicate 6 1⟩, .amNEGATIVE⟩
          decided := blSET_decided } }]
  netList :=
    [{ v :=
        { ip := ntohl 0xC0A80000
          status := .blIGNORE
          mac := .zero
          atmac := ⟨.zero, .amNONE⟩
          decided := blIGNORE_decided }
       mask := ntohl 0xFFFFFF00
       noIp := false
       masked := by decide
       mask_of_noIp := by decide },
     { v :=
        { ip := 0
          status := .blRAND
          mac := .zero
          atmac := ⟨.zero, .amNONE⟩
          decided := blRAND_decided }
       mask := 0
       noIp := false
       masked := zero_masked
       mask_of_noIp := zero_mask false }]
  lastMtime := 0

/-- A sender with the address 10.0.0.2 and another MAC than 1:1:1:1:1:1. -/
def senderQuery : Query where
  resultBuffer := .zero
  ip := ntohl 0x0A000002
  mac := some ⟨Vector.replicate 6 2⟩
  poisonMac := none

/-- The IP rule decides for the sender. -/
theorem getMac_decided_sample :
    ∃ r v, Decides sampleRules senderQuery r v ∧
      AnsweredBy (getMac referenceVector sampleRules senderQuery 0 0) senderQuery r v 0 0 := by
  rcases getMac_decided referenceVector false sampleRules senderQuery 0 0
    ⟨by decide, by decide⟩ (by decide) (by decide) with ⟨-, hnull⟩ | h
  · exact absurd hnull (by decide)
  · exact h

end IpSentinel.BlackList

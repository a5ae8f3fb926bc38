import IpSentinel.BlackList.Lookup

/-!
# Removing duplicates

`Vector_unique` with `NetData_uniqueCompare` removes a net behind one with the same address, status,
`@` part and number of bits in the mask (`SameNet`). The masks themselves are not compared, so the
two nets may cover different addresses. `getMac_unique_iff` says which queries are blocked as
before: all but those whose deciding net stands behind one with another mask and is followed by a
net that says otherwise. The build for the testsuite, which leaves the duplicates in, compares the
masks.
-/

set_option autoImplicit false

namespace IpSentinel.BlackList

open Foundation

/-! ## What compares equal -/

theorem NetData.uniqueCompare_equivalence (testsuite : Bool) :
    Equivalence fun m n => NetData.uniqueCompare testsuite m n = 0 := by
  have hsort := (NetData.sortCompare_totalPreorder testsuite).equivalence
  simp only [NetData.uniqueCompare_eq_zero]
  constructor
  · intro n
    exact ⟨rfl, rfl, hsort.refl n⟩
  · rintro m n ⟨hstatus, hip, hcmp⟩
    exact ⟨hstatus.symm, hip.symm, hsort.symm hcmp⟩
  · rintro l m n ⟨hstatus, hip, hcmp⟩ ⟨hstatus', hip', hcmp'⟩
    exact ⟨hstatus.trans hstatus', hip.trans hip', hsort.trans hcmp hcmp'⟩

/-- What nets have in common that compare equal. -/
structure SameNet (m n : NetData) : Prop where
  status : m.v.status = n.v.status
  ip : m.v.ip = n.v.ip
  noIp : m.noIp = n.noIp
  bits : maskBits m.mask = maskBits n.mask
  atmac : m.v.atmac = n.v.atmac

theorem NetData.uniqueCompare_eq_zero_iff {m n : NetData} :
    NetData.uniqueCompare false m n = 0 ↔ SameNet m n := by
  rw [NetData.uniqueCompare_eq_zero, NetData.sortCompare_eq, thenBy_eq_zero, thenBy_eq_zero,
    NetData.precedence, thenBy_eq_zero, thenBy_eq_zero]
  simp only [NetData.noIpKey, NetData.bitsKey, NetData.atmacKey, byKey]
  constructor
  · rintro ⟨hstatus, hip, ⟨⟨⟨hnoIp, hbits⟩, hvalue⟩, -⟩, hbytes⟩
    have hmac := NetData.atmac_mac_eq_of_bytesKey hbytes
    have hatmac : m.v.atmac.status = n.v.atmac.status := by
      cases hm : m.v.atmac.status <;> cases hn : n.v.atmac.status <;>
        simp_all [AtMacStatus.value]
    refine ⟨hstatus, hip, ?_, by omega, ?_⟩
    · cases hm : m.noIp <;> cases hn : n.noIp <;> simp_all
    · calc m.v.atmac = ⟨m.v.atmac.mac, m.v.atmac.status⟩ := rfl
        _ = ⟨n.v.atmac.mac, n.v.atmac.status⟩ := by rw [hmac, hatmac]
  · intro h
    refine ⟨h.status, h.ip, ⟨⟨⟨?_, ?_⟩, ?_⟩, sub_self 0⟩, ?_⟩
    · rw [h.noIp, sub_self]
    · rw [h.bits, sub_self]
    · rw [h.atmac, sub_self]
    · rw [NetData.bytesKey, h.atmac]
      exact le_antisymm ((memcmp_totalPreorderOn 12).refl (by simp [AtMac.bytes]))
        (((memcmp_totalPreorderOn 12).nonneg_iff (by simp [AtMac.bytes])
          (by simp [AtMac.bytes])).2 ((memcmp_totalPreorderOn 12).refl (by simp [AtMac.bytes])))

/-- With the same mask such nets answer the same queries. -/
theorem SameNet.answers {m n : NetData} {q : Query} (h : SameNet m n) (hmask : m.mask = n.mask)
    (hn : n.Answers q) : m.Answers q := by
  have hverdict : m.v.verdict q.mac = n.v.verdict q.mac := by
    simp only [BaseData.verdict, h.status, h.atmac]
  refine ⟨?_, hverdict ▸ hn.2⟩
  rw [NetData.Covers, hmask, h.ip]
  exact hn.1

/-! ## The net that decides -/

/-- The verdict on the sender is to ignore the query. -/
def NetData.Ignores (q : Query) (n : NetData) : Prop := n.v.verdict q.mac = some .blIGNORE

instance (q : Query) (n : NetData) : Decidable (n.Ignores q) :=
  inferInstanceAs (Decidable (_ = _))

/-- The net answers, and no net that answers is in front of it in the order of `sortCompare`. -/
structure Deciding (nets : List NetData) (q : Query) (n : NetData) : Prop where
  mem : n ∈ nets
  answers : n.Answers q
  highest : ∀ m ∈ nets, m.Answers q → NetData.sortCompare false n m ≤ 0

/-- All nets that are tied at the deciding precedence agree on ignoring the query. -/
def TiesAgree (nets : List NetData) (q : Query) : Prop :=
  ∀ m n, Deciding nets q m → Deciding nets q n → (m.Ignores q ↔ n.Ignores q)

/-- An entry in the IP list has a verdict on the sender. -/
def IPDecides (V : VectorLib) (ips : List IPData) (q : Query) : Prop :=
  ∃ i, V.search IPData.searchCompare ips q.ip = some i ∧ (ips.get i).v.verdict q.mac ≠ none

/-- The nets answer null unless the first one that answers does not ignore the query. -/
theorem searchNets_eq_none_iff (nets : List NetData) (q : Query) (rand : Nat) (time : Int) :
    ((searchNets nets (.start q)).finish rand time).1 = none ↔
      ∀ n, firstAnswering nets q = some n → n.Ignores q := by
  rw [searchNets_firstAnswering]
  cases hfirst : firstAnswering nets q with
  | none => simp [Lookup.finish, Lookup.start]
  | some n =>
    simp only [Option.some.injEq, forall_eq']
    exact decidedBy_null_iff (firstAnswering_some hfirst).1.2 rand time

/-! ## The nets that stay -/

/-- The nets that stay: those without a duplicate right in front of them. -/
def withoutDuplicates (nets : List NetData) : List NetData :=
  runStarts (NetData.uniqueCompare false) none nets

theorem unique_eq_withoutDuplicates (V : VectorLib) (nets : List NetData) :
    V.unique (NetData.uniqueCompare false) nets = withoutDuplicates nets := by
  rw [V.unique_eq, firstOfRuns_eq (NetData.uniqueCompare_equivalence false)]
  rfl

/-- Right in front of the net stands one with the same status, address, `@` part and number of bits
in the mask. -/
def BehindSame (nets : List NetData) (k : Fin nets.length) : Prop :=
  ∃ j : Fin nets.length, j.val + 1 = k ∧ SameNet nets[j] nets[k]

/-- Right in front of the net stands such a one with another mask. -/
def BehindOtherMask (nets : List NetData) (k : Fin nets.length) : Prop :=
  ∃ j : Fin nets.length, j.val + 1 = k ∧ SameNet nets[j] nets[k] ∧ nets[j].mask ≠ nets[k].mask

/-- The net answers the query and stands in front of all others that do. -/
def FirstToAnswer (nets : List NetData) (q : Query) (k : Fin nets.length) : Prop :=
  IsLeast {k | nets[k].Answers q} k

/-- The net answers the query and stands in front of all others that do, of those that have no
duplicate right in front of them. -/
def FirstToAnswerAlone (nets : List NetData) (q : Query) (k : Fin nets.length) : Prop :=
  IsLeast {k | nets[k].Answers q ∧ ¬ BehindSame nets k} k

theorem firstAnswering_eq_some_iff {nets : List NetData} {q : Query} {n : NetData} :
    firstAnswering nets q = some n ↔ ∃ k, FirstToAnswer nets q k ∧ nets[k] = n := by
  simp only [firstAnswering, find?_eq_some_iff_isLeast, decide_eq_true_eq]
  rfl

theorem firstAnswering_withoutDuplicates {nets : List NetData} {q : Query} {n : NetData} :
    firstAnswering (withoutDuplicates nets) q = some n ↔
      ∃ k, FirstToAnswerAlone nets q k ∧ nets[k] = n := by
  simp only [firstAnswering, withoutDuplicates, find?_runStarts, decide_eq_true_eq, BehindEqual,
    NetData.uniqueCompare_eq_zero_iff]
  rfl

/-- The net that decides stands alone, unless the masks differ. -/
theorem FirstToAnswer.alone {nets : List NetData} {q : Query} {k : Fin nets.length}
    (h : FirstToAnswer nets q k) (hmask : ¬ BehindOtherMask nets k) :
    FirstToAnswerAlone nets q k := by
  refine ⟨⟨h.1, ?_⟩, fun j hj => h.2 hj.1⟩
  rintro ⟨j, hjk, hsame⟩
  by_cases heq : nets[j].mask = nets[k].mask
  · -- the net in front answers as well
    have hle : k ≤ j := h.2 (hsame.answers heq h.1)
    have hle' : k.val ≤ j.val := hle
    omega
  · exact hmask ⟨j, hjk, hsame, heq⟩

/-! ## The lookup -/

/-- An IP entry with a verdict decides, whatever the nets are. -/
theorem getMac_of_ipDecides {V : VectorLib} {ips : List IPData} {q : Query}
    (h : IPDecides V ips q) :
    ∃ b : BaseData, ∀ nets mtime rand time,
      (getMac V ⟨ips, nets, mtime⟩ q rand time).1 = none ↔
        b.verdict q.mac = some .blIGNORE := by
  obtain ⟨i, hi, hverd⟩ := h
  refine ⟨(ips.get i).v, fun nets mtime rand time => ?_⟩
  rw [getMac_of_decidedBy hverd (searchIPs_of_found hi)]
  exact decidedBy_null_iff hverd rand time

theorem searchIPs_of_not_ipDecides {V : VectorLib} {ips : List IPData} {q : Query}
    (h : ¬ IPDecides V ips q) : searchIPs V ips q = .start q := by
  cases hs : V.search IPData.searchCompare ips q.ip with
  | none => simp only [searchIPs, hs]
  | some i =>
    have hverd : (ips.get i).v.verdict q.mac = none := by
      by_contra hverd
      exact h ⟨i, hs, hverd⟩
    rw [searchIPs_of_found hs, decidedBy_of_no_verdict hverd]

/-- An IP rule decides; or the first net that answers is not behind a net that is the same but for
the mask; or the first one that has no duplicate right in front of it says the same, where no such
net means that the query is ignored. -/
def KeepsVerdict (V : VectorLib) (ips : List IPData) (nets : List NetData) (q : Query) : Prop :=
  IPDecides V ips q ∨
    ∀ k, FirstToAnswer nets q k → BehindOtherMask nets k →
      (nets[k].Ignores q ↔ ∀ j, FirstToAnswerAlone nets q j → nets[j].Ignores q)

/-- The rule `0.0.0.0/mask`. -/
def zeroNet (mask : InAddr) : NetData where
  v :=
    { ip := 0
      status := .blRAND
      mac := .zero
      atmac := ⟨.zero, .amNONE⟩
      decided := blRAND_decided }
  mask := mask
  noIp := false
  masked := BitVec.zero_and
  mask_of_noIp := mask_of_not_noIp mask

/-- The query for a requested address. -/
def queryFor (ip : InAddr) : Query :=
  { resultBuffer := .zero, ip, mac := none, poisonMac := none }

/-- No net with the address zero ignores a query. -/
theorem tiesAgree_of_zeroNets (masks : List InAddr) {q : Query} (hmac : q.mac = none) :
    TiesAgree (masks.map zeroNet) q := by
  have hnever : ∀ n, Deciding (masks.map zeroNet) q n → ¬ n.Ignores q := by
    intro n hn
    obtain ⟨mask, -, rfl⟩ := List.mem_map.1 hn.mem
    rw [NetData.Ignores, hmac]
    exact nofun
  intro m n hm hn
  exact iff_of_false (hnever m hm) (hnever n hn)

end IpSentinel.BlackList

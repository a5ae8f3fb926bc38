import IpSentinel.BlackList.Duplicates
import IpSentinel.BlackList.StarRule
import IpSentinel.BlackList.Update

/-!
# Blocking a sender

A rule `*@srcmac [mac]` is there to block the sender whatever address it uses. The nets are sorted
so that no other net comes first (`searchNets_of_starRule`), but an IP rule is looked up before
the nets, and a plain `!ip` rule decides. `getMac_blocks_iff` says when the sender is blocked.
-/

set_option autoImplicit false

namespace IpSentinel.BlackList

open Foundation

/-! ## Entries for all addresses -/

section Parsing

variable {env : ParseEnv}

/-- What the parser makes of the host `*`: an entry with `@srcmac` that is not an ignore rule. -/
structure StarEntry (st : Parsed) (n : NetData) : Prop where
  host : st.host = none
  not_ignore : st.ignore = false → n.v.status ≠ .blIGNORE

theorem entry_star {st : Parsed} {status : BlackListStatus} {mac : EtherAddr}
    {h : status ≠ .blUNDECIDED} {n : NetData} (he : st.entry status mac h = .net n)
    (hn : n.noIp = true) (hstatus : st.ignore = false → status ≠ .blIGNORE) : StarEntry st n := by
  cases hhost : st.host with
  | none =>
    simp only [Parsed.entry, hhost, Outcome.net.injEq] at he
    subst he
    exact ⟨hhost, hstatus⟩
  | some ip =>
    cases hmask : st.mask with
    | none =>
      simp only [Parsed.entry, hhost, hmask] at he
      cases he
    | some mask =>
      simp only [Parsed.entry, hhost, hmask, Outcome.net.injEq] at he
      subst he
      cases hn

theorem macPart_star {st : Parsed} {text : List Char} {n : NetData}
    (he : (macPart env st text).1 = .net n) (hn : n.noIp = true) :
    StarEntry st n ∧ n.v.atmac = st.atmac := by
  have hatmac : n.v.atmac = st.atmac := (macPart_entry (e := .net n) (by rw [he]; rfl)).2
  refine ⟨?_, hatmac⟩
  rcases macPart_cases env st text with ⟨err, heq⟩ | ⟨status, mac, h, heq, hignore⟩
  · rw [heq] at he
    cases he
  · exact entry_star (heq.symm.trans he) hn hignore

theorem atMac_star {st : Parsed} {status : AtMacStatus} {text : List Char} {n : NetData}
    (he : (atMac env st status text).1 = .net n) (hn : n.noIp = true) :
    StarEntry st n ∧ n.v.atmac.status = status ∧ status ≠ .amNEGATIVE := by
  change (afterAtMac env st status (cutWord isBlank text).word _).1 = .net n at he
  rcases afterAtMac_cases env st status _ _ with ⟨err, heq⟩ | ⟨mac, -, hnegative, heq⟩
  · rw [heq] at he
    cases he
  · obtain ⟨⟨hhost, hignore⟩, hatmac⟩ := macPart_star (heq.symm.trans he) hn
    rw [hatmac]
    exact ⟨⟨hhost, hignore⟩, rfl, fun h => hnegative ⟨hhost, h⟩⟩

theorem atMacPart_star {st : Parsed} {text : List Char} {n : NetData}
    (he : (atMacPart env st text).1 = .net n) (hn : n.noIp = true) :
    StarEntry st n ∧ IsStarRule n := by
  obtain ⟨status, text', hstatus, heq⟩ := atMacPart_cases env st text
  obtain ⟨hstar, hat, hnegative⟩ := atMac_star (heq.symm.trans he) hn
  refine ⟨hstar, hn, hat.trans ?_⟩
  -- `*@!srcmac` is an error
  cases status with
  | amNONE => exact absurd rfl hstatus
  | amNEGATIVE => exact absurd rfl hnegative
  | amPOSITIVE => rfl

theorem atPart_star {st : Parsed} {hasAtmac : Bool} {text : List Char} {n : NetData}
    (he : (atPart env st hasAtmac text).1 = .net n) (hn : n.noIp = true) :
    StarEntry st n ∧ IsStarRule n := by
  rcases atPart_cases env st hasAtmac text with ⟨text', heq⟩ | heq
  · exact atMacPart_star (heq.symm.trans he) hn
  · -- so is `*` without an `@` part
    rw [heq, withoutAtMac] at he
    split_ifs at he with hhost
    · cases he
    · exact absurd (macPart_star he hn).1.host hhost

theorem maskPart_star {st : Parsed} {text : List Char} {n : NetData}
    (he : (maskPart env st text).1 = .net n) (hn : n.noIp = true) : st.host = none := by
  rcases maskPart_cases env st text with ⟨err, heq⟩ | ⟨mask, text', heq⟩
  · rw [heq] at he
    cases he
  · exact (atPart_star (heq.symm.trans he) hn).1.host

/-- The entry is that of a rule `*@srcmac [mac]`, which does not ignore the sender. -/
structure BlocksSender (n : NetData) : Prop extends IsStarRule n where
  not_ignore : n.v.status ≠ .blIGNORE

theorem hostPart_star {ignore : Bool} {text : List Char} {n : NetData}
    (he : (hostPart env ignore text).1 = .net n) (hn : n.noIp = true) : BlocksSender n := by
  change (afterHost env ignore (cutWord endsHost text).word _ _).1 = .net n at he
  have hentry : (afterHost env ignore (cutWord endsHost text).word _ _).1.entry = some (.net n) :=
    congrArg Outcome.entry he
  obtain ⟨addr, -, hslash, hignore, heq⟩ := afterHost_entry hentry
  rw [heq] at he
  split_ifs at he with hsep
  · -- a host with an address is no entry for all addresses
    exact absurd (maskPart_star he hn) (hslash hsep)
  · obtain ⟨hst, hstar⟩ := atPart_star he hn
    exact ⟨hstar, hst.not_ignore (hignore hst.host)⟩

/-- The entries for all addresses are those of the rules `*@srcmac [mac]`. -/
theorem parseLine_star {text : List Char} {n : NetData} (he : (parseLine env text).1 = .net n)
    (hn : n.noIp = true) : BlocksSender n := by
  rcases parseLine_cases env text with heq | ⟨ignore, text', heq⟩
  · rw [heq] at he
    cases he
  · exact hostPart_star (heq.symm.trans he) hn

end Parsing

/-! ## The nets -/

section Nets

/-- The lines hold a rule `*@srcmac [mac]` for this sender. -/
def HasStarRule (env : ExpandEnv) (lines : List (List Char)) (srcmac : EtherAddr) : Prop :=
  ∃ line ∈ lines, ∃ n, .net n ∈ (expandLine env line).outcomes ∧ IsStarRule n ∧
    n.v.atmac.mac = srcmac

variable {env : ExpandEnv} (V : VectorLib) (testsuite : Bool) (lst : BlackList)
  {lines : List (List Char)}

theorem verdict_of_blocksSender {n : NetData} (h : BlocksSender n) (mac : EtherAddr) :
    n.v.verdict (some mac) = if mac = n.v.atmac.mac then some n.v.status else none := by
  simp only [BaseData.verdict, h.positive]

theorem blocksSender_of_loaded {n : NetData}
    (h : n ∈ (loadLines env V testsuite lst lines).netList) (hn : n.noIp = true) :
    BlocksSender n := by
  rcases mem_netList_foldl.1 (mem_of_mem_sortLists_netList _ _ _ h) with h | ⟨line, -, hout⟩
  · cases h
  · have hall : ∀ o ∈ (expandLine env line).outcomes, ∀ n, o = .net n → n.noIp = true →
        BlocksSender n := forall_mem_expandLine (fun _ _ => parseLine_star) line
    exact hall _ hout n rfl hn

/-- Removing duplicates leaves a rule for the same sender. -/
theorem exists_loaded_of_hasStarRule {srcmac : EtherAddr} (h : HasStarRule env lines srcmac) :
    ∃ n ∈ (loadLines env V testsuite lst lines).netList,
      BlocksSender n ∧ n.v.atmac.mac = srcmac := by
  obtain ⟨line, hline, star, hout, hstar, hmac⟩ := h
  have hread : star ∈
      (lines.foldl (appendLine env) { lst with ipList := [], netList := [] }).netList :=
    mem_netList_foldl.2 (Or.inr ⟨line, hline, hout⟩)
  have hloaded : ∀ n ∈ (loadLines env V testsuite lst lines).netList, n.noIp = true →
      BlocksSender n := fun _ => blocksSender_of_loaded V testsuite lst
  obtain ⟨n, hn, rfl | hcmp⟩ := exists_mem_sortLists_netList V testsuite _ hread
  · exact ⟨n, hn, hloaded n hn hstar.noIp, hmac⟩
  · refine ⟨n, hn, hloaded n hn (noIp_of_sortCompare hstar.noIp hcmp.le), ?_⟩
    rw [NetData.sortCompare_eq] at hcmp
    exact (NetData.atmac_mac_eq_of_bytesKey (thenBy_eq_zero.1 hcmp).2).trans hmac

/-- With a rule for the sender in the file the nets answer with an address, whatever the other
rules are. -/
theorem searchNets_of_starRule {q : Query} {srcmac : EtherAddr} (hmac : q.mac = some srcmac)
    (h : HasStarRule env lines srcmac) (rand : Nat) (time : Int) :
    ((searchNets (loadLines env V testsuite lst lines).netList (.start q)).finish rand time).1 ≠
      none := by
  obtain ⟨star, hmem, hstar, hstarMac⟩ := exists_loaded_of_hasStarRule V testsuite lst h
  have hanswers : star.Answers q := by
    refine ⟨covers_of_noIp hstar.noIp q.ip, ?_⟩
    rw [hmac, verdict_of_blocksSender hstar, if_pos hstarMac.symm]
    exact Option.some_ne_none _
  rw [Ne, searchNets_eq_none_iff]
  intro hnull
  cases hfirst : firstAnswering (loadLines env V testsuite lst lines).netList q with
  | none => exact firstAnswering_none.1 hfirst star hmem hanswers
  | some n =>
    -- only another rule of the same kind can be in front
    have hle := firstAnswering_le (NetData.sortCompare_totalPreorder testsuite)
      (sortLists_netList_sorted ..) hfirst star hmem hanswers
    have hn := blocksSender_of_loaded V testsuite lst (List.mem_of_find?_eq_some hfirst)
      (noIp_of_sortCompare hstar.noIp hle)
    have hignores := hnull n hfirst
    rw [NetData.Ignores, hmac, verdict_of_blocksSender hn] at hignores
    split_ifs at hignores
    exact hn.not_ignore (Option.some.inj hignores)

end Nets

/-! ## The lookup -/

/-- There is an IP rule with an `@` part that has something to say about the sender. -/
def HasAtMacEntry (lst : BlackList) (q : Query) : Prop :=
  ∃ d ∈ lst.ipList, d.v.ip = q.ip ∧ d.v.atmac.status ≠ .amNONE ∧
    compareAtMac d.v.atmac d.v.status q.mac ≠ .cmpNOMATCH

instance (lst : BlackList) (q : Query) : Decidable (HasAtMacEntry lst q) :=
  inferInstanceAs (Decidable (∃ d ∈ lst.ipList, _))

/-- The sender is blocked, or there is an IP rule for the sender. -/
def BlocksQuery (V : VectorLib) (lst : BlackList) (q : Query) (rand : Nat) (time : Int) : Prop :=
  (getMac V lst q rand time).1 ≠ none ∨ HasAtMacEntry lst q

instance (V : VectorLib) (lst : BlackList) (q : Query) (rand : Nat) (time : Int) :
    Decidable (BlocksQuery V lst q rand time) :=
  inferInstanceAs (Decidable (_ ∨ _))

/-- The entry found for the address is that of a plain `!ip` rule. -/
def FindsPlainIgnore (V : VectorLib) (lst : BlackList) (q : Query) : Prop :=
  ∃ i, V.search IPData.searchCompare lst.ipList q.ip = some i ∧
    (lst.ipList.get i).v.atmac.status = .amNONE ∧ (lst.ipList.get i).v.status = .blIGNORE

theorem findsPlainIgnore_of_found {V : VectorLib} {lst : BlackList} {q : Query}
    {i : Fin lst.ipList.length} (h : V.search IPData.searchCompare lst.ipList q.ip = some i) :
    FindsPlainIgnore V lst q ↔
      (lst.ipList.get i).v.atmac.status = .amNONE ∧ (lst.ipList.get i).v.status = .blIGNORE := by
  constructor
  · rintro ⟨j, hj, hplain⟩
    rw [h] at hj
    cases hj
    exact hplain
  · exact fun hplain => ⟨i, h, hplain⟩

/-- An entry without an `@` part decides by its status. -/
theorem getMac_null_of_plain {V : VectorLib} {lst : BlackList} {q : Query} {rand : Nat} {time : Int}
    {i : Fin lst.ipList.length} (h : V.search IPData.searchCompare lst.ipList q.ip = some i)
    (hplain : (lst.ipList.get i).v.atmac.status = .amNONE) :
    (getMac V lst q rand time).1 = none ↔ (lst.ipList.get i).v.status = .blIGNORE := by
  have hverd : (lst.ipList.get i).v.verdict q.mac = some (lst.ipList.get i).v.status := by
    simp only [BaseData.verdict, hplain]
  have hsome : (lst.ipList.get i).v.verdict q.mac ≠ none := by
    rw [hverd]
    exact Option.some_ne_none _
  rw [getMac_of_decidedBy hsome (searchIPs_of_found h), decidedBy_null_iff hsome, hverd,
    Option.some.injEq]

/-- A sender that a rule `*@srcmac [mac]` names is blocked exactly when the entry that is found for
its address is not that of a plain `!ip` rule. -/
theorem getMac_blocks_iff (env : ExpandEnv) (V : VectorLib) (testsuite : Bool) (old : BlackList)
    (lines : List (List Char)) (q : Query) (srcmac : EtherAddr) (rand : Nat) (time : Int)
    (hmac : q.mac = some srcmac) (hrule : HasStarRule env lines srcmac) :
    let lst := loadLines env V testsuite old lines
    BlocksQuery V lst q rand time ↔ ¬ FindsPlainIgnore V lst q ∨ HasAtMacEntry lst q := by
  intro lst
  have hnets := searchNets_of_starRule V testsuite old hmac hrule rand time
  have hpart := partitionedBy_of_sortedBy
    (sortLists_ipList_sorted V testsuite _ : SortedBy IPData.sortCompare lst.ipList) q.ip
  cases hs : V.search IPData.searchCompare lst.ipList q.ip with
  | none =>
    -- without an entry the star rule is asked
    have hstart : searchIPs V lst.ipList q = .start q := by simp only [searchIPs, hs]
    apply iff_of_true
    · exact Or.inl (by rw [getMac_of_start hstart]; exact hnets)
    · left
      rintro ⟨i, hi, -⟩
      rw [hs] at hi
      cases hi
  | some i =>
    have hip : (lst.ipList.get i).v.ip = q.ip :=
      IPData.searchCompare_eq_zero.1 (V.search_some _ _ _ _ hpart hs)
    rw [BlocksQuery, findsPlainIgnore_of_found hs]
    apply or_congr_left'
    intro hentry
    by_cases hplain : (lst.ipList.get i).v.atmac.status = .amNONE
    · -- a plain entry decides, and says null for an ignore rule only
      rw [Ne, getMac_null_of_plain hs hplain, and_iff_right hplain]
    · -- an entry with one says nothing about the sender
      have hnomatch : compareAtMac (lst.ipList.get i).v.atmac (lst.ipList.get i).v.status q.mac =
          .cmpNOMATCH := by
        by_contra hmatch
        exact hentry ⟨_, List.get_mem _ i, hip, hplain, hmatch⟩
      have hverd : (lst.ipList.get i).v.verdict q.mac = none := by
        rw [verdict_eq, hnomatch]
      rw [getMac_of_start ((searchIPs_of_found hs).trans (decidedBy_of_no_verdict hverd))]
      exact iff_of_true hnets fun h => hplain h.1

/-- The query for the sender 1:1:1:2:2:2 at 10.0.0.1. -/
def blockedQuery : Query :=
  { resultBuffer := .zero, ip := ntohl 0x0A000001, mac := some blockedMac, poisonMac := none }

theorem hasStarRule_sample (lines : List (List Char)) :
    HasStarRule referenceEnv ("*@1:1:1:2:2:2".toList :: lines) blockedMac :=
  ⟨_, List.mem_cons_self, blockHost, by decide, ⟨rfl, rfl⟩, rfl⟩

/-- The rule `!10.0.0.0/8` does not exempt the sender. -/
theorem getMac_blocks_sample :
    BlocksQuery referenceVector
      (loadLines referenceEnv referenceVector false ⟨[], [], 0⟩
        ["*@1:1:1:2:2:2".toList, "!10.0.0.0/8".toList]) blockedQuery 0 0 := by
  apply (getMac_blocks_iff referenceEnv referenceVector false ⟨[], [], 0⟩ _ blockedQuery blockedMac
    0 0 rfl (hasStarRule_sample _)).2
  left
  have hempty : (loadLines referenceEnv referenceVector false ⟨[], [], 0⟩
      ["*@1:1:1:2:2:2".toList, "!10.0.0.0/8".toList]).ipList.length = 0 := by decide
  rintro ⟨i, -⟩
  exact absurd (hempty ▸ i.isLt) i.val.not_lt_zero

/-- The rule `!10.0.0.1` does. -/
theorem plainIgnore_exempts :
    HasStarRule referenceEnv ["*@1:1:1:2:2:2".toList, "!10.0.0.1".toList] blockedMac ∧
      ¬ BlocksQuery referenceVector
        (loadLines referenceEnv referenceVector false ⟨[], [], 0⟩
          ["*@1:1:1:2:2:2".toList, "!10.0.0.1".toList]) blockedQuery 0 0 :=
  ⟨hasStarRule_sample _, by decide +kernel⟩

end IpSentinel.BlackList

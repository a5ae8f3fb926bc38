import IpSentinel.BlackList.Duplicates
import IpSentinel.BlackList.Precedence
import IpSentinel.BlackList.RoundTrip
import IpSentinel.Foundation.FirstRule

/-!
# What a configuration means

A configuration is a set of rules: `Rule.place` gives each its place in the order of precedence, `*`
rules included, and the answer to a query is that of a rule that applies to it and has no other such
rule in front of it. `getMac_of_config` says that the lookup in the loaded lists answers so,
whatever the order of the lines, the chunks in which the file is read, the sort, and the duplicates
removed on the way. So the order of the lines of a file makes no difference (`getMac_sameLines`).

The rules have to be unambiguous for the query: one IP rule for its address, one mask for each net
address and number of bits, and the same answer from all rules at the place that decides.
-/

set_option autoImplicit false

namespace IpSentinel.BlackList

open Foundation

/-! ## Places -/

/-- The place of a net in the order of precedence, from 1 on: `*` rules, then nets with more bits in
the mask, and among these `@m`, then `@!m`, then no `@` part. -/
def NetData.place (n : NetData) : Nat :=
  if n.noIp then 3 - n.v.atmac.status.value
  else 3 + 3 * (32 - maskBits n.mask) + (3 - n.v.atmac.status.value)

/-- IP rules come first. -/
def Rule.place : Rule → Nat
  | .ip _ => 0
  | .net n => n.place

/-- The rule covers the address and has a verdict on the sender. -/
def Rule.Answers (q : Query) (r : Rule) : Prop := r.Covers q.ip ∧ r.base.verdict q.mac ≠ none

/-- The answer of a rule that decides. -/
def Rule.answer (r : Rule) (q : Query) (rand : Nat) (time : Int) : Option EtherAddr × Query :=
  (Lookup.decidedBy r.base q).finish rand time

/-- The rule decides the query. -/
def Rule.IsFirstOf (lst : BlackList) (q : Query) (r : Rule) : Prop :=
  IsFirst (Rule.Answers q) Rule.place {r | r ∈ rules lst} r

theorem atmac_value_le (status : AtMacStatus) : status.value ≤ 2 := by
  cases status with
  | amNONE => exact Nat.zero_le 2
  | amNEGATIVE => exact Nat.le_succ 1
  | amPOSITIVE => exact Nat.le_refl 2

/-- The sorted list is in the order of the places. -/
theorem place_le_of_sortCompare {testsuite : Bool} {m n : NetData}
    (h : NetData.sortCompare testsuite m n ≤ 0) : m.place ≤ n.place := by
  have hprec := NetData.precedence_of_sortCompare h
  have hbm := maskBits_le m.mask
  have hbn := maskBits_le n.mask
  have hvm := atmac_value_le m.v.atmac.status
  have hvn := atmac_value_le n.v.atmac.status
  simp only [NetData.precedence, thenBy, NetData.noIpKey, NetData.bitsKey, NetData.atmacKey,
    byKey] at hprec
  rw [NetData.place, NetData.place]
  cases hm : m.noIp with
  | true =>
    cases hn : n.noIp with
    | true =>
      -- both masks are zero
      have hzero : maskBits m.mask = maskBits n.mask := by
        rw [m.mask_of_noIp hm, n.mask_of_noIp hn]
      simp only [hm, hn, hzero, if_true, sub_self] at hprec ⊢
      omega
    | false =>
      simp only [if_true, Bool.false_eq_true, if_false]
      omega
  | false =>
    cases hn : n.noIp with
    | true => simp [hm, hn] at hprec
    | false =>
      simp only [hm, hn, Bool.false_eq_true, if_false] at hprec ⊢
      split_ifs at hprec <;> omega

/-! ## Unambiguous rules -/

/-- What the rules have to be like, so that the query has one answer. -/
structure Unambiguous (testsuite : Bool) (lst : BlackList) (q : Query) : Prop where
  ips : ∀ d ∈ lst.ipList, ∀ e ∈ lst.ipList, d.v.ip = q.ip → e.v.ip = q.ip → d = e
  masks : testsuite = false → ∀ m ∈ lst.netList, ∀ n ∈ lst.netList, m.v.ip = n.v.ip →
    maskBits m.mask = maskBits n.mask → m.mask = n.mask
  ties : ∀ r r' : Rule, r.IsFirstOf lst q → r'.IsFirstOf lst q → ∀ rand time,
    r.answer q rand time = r'.answer q rand time

section Loading

variable (V : VectorLib) (testsuite : Bool) (lst : BlackList)

/-- An IP rule that is read stays, or one that compares equal does. -/
theorem exists_mem_sortLists_ipList {d : IPData} (hd : d ∈ lst.ipList) :
    ∃ e ∈ (sortLists V testsuite lst).ipList, e.v.ip = d.v.ip := by
  have hmem := (V.sort_perm _ lst.ipList IPData.sortCompare_totalPreorder).mem_iff.2 hd
  cases testsuite with
  | true => exact ⟨d, hmem, rfl⟩
  | false =>
    obtain ⟨e, he, heq⟩ := exists_mem_firstOfRuns IPData.uniqueCompare hmem
    refine ⟨e, ?_, ?_⟩
    · simp only [sortLists, V.unique_eq]
      exact he
    · rcases heq with rfl | heq
      · rfl
      · simp only [IPData.uniqueCompare] at heq
        split_ifs at heq
        · exact absurd heq Int.one_ne_zero
        · exact (IPData.searchCompare_eq_zero.1 heq).symm

/-- A net that is read stays, or one that compares equal to it does. -/
theorem exists_mem_sortLists_net {n : NetData} (hn : n ∈ lst.netList) :
    ∃ m ∈ (sortLists V testsuite lst).netList,
      m = n ∨ testsuite = false ∧ NetData.uniqueCompare false m n = 0 := by
  have hmem :=
    (V.sort_perm _ lst.netList (NetData.sortCompare_totalPreorder testsuite)).mem_iff.2 hn
  cases testsuite with
  | true => exact ⟨n, hmem, Or.inl rfl⟩
  | false =>
    obtain ⟨m, hm, heq⟩ := exists_mem_firstOfRuns (NetData.uniqueCompare false) hmem
    refine ⟨m, ?_, heq.imp_right fun heq => ⟨rfl, heq⟩⟩
    simp only [sortLists, V.unique_eq]
    exact hm

end Loading

/-- The nets of the loaded list represent those that were read. -/
theorem represents_nets (V : VectorLib) {testsuite : Bool} {lst : BlackList} {q : Query}
    (h : Unambiguous testsuite lst q) :
    Represents (NetData.Answers q) NetData.place
      {n | n ∈ (sortLists V testsuite lst).netList} {n | n ∈ lst.netList} where
  subset _ hn := mem_of_mem_sortLists_netList V testsuite lst hn
  represented n hn hanswers := by
    obtain ⟨m, hm, rfl | ⟨htest, heq⟩⟩ := exists_mem_sortLists_net V testsuite lst hn
    · exact ⟨m, hm, hanswers, le_rfl⟩
    · have hsame := NetData.uniqueCompare_eq_zero_iff.1 heq
      have hmask := h.masks htest m (mem_of_mem_sortLists_netList V testsuite lst hm) n hn
        hsame.ip hsame.bits
      exact ⟨m, hm, hsame.answers hmask hanswers,
        place_le_of_sortCompare (NetData.sortCompare_of_uniqueCompare heq).le⟩

/-! ## The lookup -/

/-- The first net that answers in the loaded list decides, when no IP rule that was read answers. -/
theorem isFirst_of_net (V : VectorLib) {testsuite : Bool} {lst : BlackList} {q : Query}
    {n : NetData} (h : Unambiguous testsuite lst q)
    (hips : ∀ d ∈ lst.ipList, ¬ (Rule.ip d).Answers q)
    (hfirst : firstAnswering (sortLists V testsuite lst).netList q = some n) :
    (Rule.net n).IsFirstOf lst q := by
  have hsorted : ((sortLists V testsuite lst).netList).Pairwise fun a b => a.place ≤ b.place :=
    (sortLists_netList_sorted V testsuite lst).imp place_le_of_sortCompare
  have hloaded : IsFirst (NetData.Answers q) NetData.place
      {n | n ∈ (sortLists V testsuite lst).netList} n := isFirst_of_find? hsorted hfirst
  have hnet := hloaded.of_represents (represents_nets V h)
  refine ⟨mem_rules.2 (Or.inr ⟨n, hnet.mem, rfl⟩), hnet.holds, forall_mem_rules.2 ⟨?_, ?_⟩⟩
  · intro d hd hanswers
    exact absurd hanswers (hips d hd)
  · intro m hm hanswers
    exact hnet.rank_le m hm hanswers

/-- The lookup in the loaded lists is the answer of a rule that decides, or no rule answers. -/
theorem getMac_sortLists (V : VectorLib) {testsuite : Bool} {lst : BlackList} {q : Query}
    (h : Unambiguous testsuite lst q) (rand : Nat) (time : Int) :
    (∃ r : Rule, r.IsFirstOf lst q ∧
      getMac V (sortLists V testsuite lst) q rand time = r.answer q rand time) ∨
    ((∀ r ∈ rules lst, ¬ r.Answers q) ∧
      getMac V (sortLists V testsuite lst) q rand time = (none, q)) := by
  have hips : ∀ d ∈ lst.ipList, d.v.ip = q.ip → ∀ e ∈ (sortLists V testsuite lst).ipList,
      e.v.ip = q.ip → e = d := fun d hd hip e he hip' =>
    h.ips e (mem_of_mem_sortLists_ipList V testsuite lst he) d hd hip' hip
  rcases searchIPs_cases V (sortLists_ipList_sorted V testsuite lst) q with
    ⟨d, hd, hip, hverd, heq⟩ | ⟨heq, hno⟩
  · -- the IP rule is at the first place of all
    have hmem := mem_of_mem_sortLists_ipList V testsuite lst hd
    exact Or.inl ⟨.ip d, ⟨mem_rules.2 (Or.inl ⟨d, hmem, rfl⟩), ⟨hip, hverd⟩,
      fun _ _ _ => Nat.zero_le _⟩, getMac_of_decidedBy hverd heq rand time⟩
  · -- an IP rule that was read and answers would still be in the loaded list
    have hnone : ∀ d ∈ lst.ipList, ¬ (Rule.ip d).Answers q := by
      rintro d hd ⟨hip, hverd⟩
      obtain ⟨e, he, heip⟩ := exists_mem_sortLists_ipList V testsuite lst hd
      obtain rfl := hips d hd hip e he (heip.trans hip)
      rcases hno with ⟨e', he', hip', hverd'⟩ | hno
      · obtain rfl := hips e hd hip e' he' hip'
        exact hverd hverd'
      · exact hno e he hip
    rw [getMac_of_start heq, searchNets_firstAnswering]
    cases hfirst : firstAnswering (sortLists V testsuite lst).netList q with
    | none =>
      have hnets := (represents_nets V h).not_applies (firstAnswering_none.1 hfirst)
      exact Or.inr ⟨forall_mem_rules.2 ⟨hnone, hnets⟩, rfl⟩
    | some n => exact Or.inl ⟨.net n, isFirst_of_net V h hnone hfirst, rfl⟩

/-! ## Files -/

/-- The entries of some lines. -/
def configuration (env : ExpandEnv) (lines : List (List Char)) : BlackList where
  ipList := addedIps (linesOutcomes env lines)
  netList := addedNets (linesOutcomes env lines)
  lastMtime := 0

/-- A file that is read completely leaves its entries, sorted. -/
theorem lists_of_complete {env : ExpandEnv} {V : VectorLib} {testsuite : Bool} {lst : BlackList}
    {content : List Char} {d : Delivery content} (h : d.Complete env V testsuite lst) :
    (updateInternal env V testsuite lst ⟨d.chunks, .eof⟩).lists =
      sortLists V testsuite
        { configuration env (linesOf '\n' content) with lastMtime := lst.lastMtime } := by
  rw [Delivery.Complete, updateInternal_toLineCalls] at h
  rw [updateInternal_lists_of_succeeds (by rw [h]), h, List.zipIdx_map_fst, loadLines,
    foldl_appendLine]
  rfl

/-- The time of the file is no part of its meaning. -/
theorem Unambiguous.withTime {testsuite : Bool} {lst : BlackList} {q : Query}
    (h : Unambiguous testsuite lst q) (lastMtime : Int) :
    Unambiguous testsuite { lst with lastMtime } q :=
  ⟨h.ips, h.masks, h.ties⟩

/-- The lookup after a file has been read completely: the answer of a rule of the file that applies
to the query and has no other such rule in front of it, or null when no rule applies. -/
theorem getMac_of_config (env : ExpandEnv) (V : VectorLib) (testsuite : Bool) (lst : BlackList)
    {content : List Char} (d : Delivery content) (q : Query) (rand : Nat) (time : Int)
    (hcomplete : d.Complete env V testsuite lst)
    (hrules : Unambiguous testsuite (configuration env (linesOf '\n' content)) q) :
    (∃ r : Rule, r.IsFirstOf (configuration env (linesOf '\n' content)) q ∧
      getMac V (updateInternal env V testsuite lst ⟨d.chunks, .eof⟩).lists q rand time =
        r.answer q rand time) ∨
    ((∀ r ∈ rules (configuration env (linesOf '\n' content)), ¬ r.Answers q) ∧
      getMac V (updateInternal env V testsuite lst ⟨d.chunks, .eof⟩).lists q rand time =
        (none, q)) := by
  rw [lists_of_complete hcomplete]
  exact getMac_sortLists V (hrules.withTime lst.lastMtime) rand time

/-! ## The order of the lines -/

/-- What the parser makes of the line of a rule. -/
def Rule.outcome : Rule → Outcome
  | .ip d => .ip d
  | .net n => .net n

theorem mem_configuration {env : ExpandEnv} {lines : List (List Char)} {r : Rule} :
    r ∈ rules (configuration env lines) ↔
      ∃ line ∈ lines, r.outcome ∈ (expandLine env line).outcomes := by
  rw [mem_rules]
  cases r with
  | ip d => simp [configuration, mem_addedIps, linesOutcomes, Rule.outcome]
  | net n => simp [configuration, mem_addedNets, linesOutcomes, Rule.outcome]

/-- The same lines are the same rules. -/
theorem mem_rules_congr {env : ExpandEnv} {lines lines' : List (List Char)}
    (h : ∀ line, line ∈ lines ↔ line ∈ lines') (r : Rule) :
    r ∈ rules (configuration env lines) ↔ r ∈ rules (configuration env lines') := by
  simp only [mem_configuration, h]

theorem isFirstOf_congr {lst lst' : BlackList} (h : ∀ r, r ∈ rules lst ↔ r ∈ rules lst') {q : Query}
    {r : Rule} : r.IsFirstOf lst q ↔ r.IsFirstOf lst' q := by
  have hset : {r | r ∈ rules lst} = {r | r ∈ rules lst'} := Set.ext h
  rw [Rule.IsFirstOf, Rule.IsFirstOf, hset]

theorem Unambiguous.congr {testsuite : Bool} {lst lst' : BlackList} {q : Query}
    (hrules : Unambiguous testsuite lst q) (h : ∀ r, r ∈ rules lst ↔ r ∈ rules lst') :
    Unambiguous testsuite lst' q := by
  have hips : ∀ d ∈ lst'.ipList, d ∈ lst.ipList := by
    intro d hd
    have hmem := (h (.ip d)).2 (mem_rules.2 (Or.inl ⟨d, hd, rfl⟩))
    simpa [mem_rules] using hmem
  have hnets : ∀ n ∈ lst'.netList, n ∈ lst.netList := by
    intro n hn
    have hmem := (h (.net n)).2 (mem_rules.2 (Or.inr ⟨n, hn, rfl⟩))
    simpa [mem_rules] using hmem
  refine ⟨fun d hd e he => hrules.ips d (hips d hd) e (hips e he),
    fun htest m hm n hn => hrules.masks htest m (hnets m hm) n (hnets n hn), fun r r' hr hr' => ?_⟩
  exact hrules.ties r r' ((isFirstOf_congr h).2 hr) ((isFirstOf_congr h).2 hr')

/-- Two files with the same lines, in whatever order, however often and in whatever chunks, answer
every query alike for which their rules are unambiguous, with any implementations of the vector. -/
theorem getMac_sameLines (env : ExpandEnv) (V V' : VectorLib) (testsuite : Bool)
    (lst lst' : BlackList) {content content' : List Char} (d : Delivery content)
    (d' : Delivery content') (q : Query) (rand : Nat) (time : Int)
    (hcomplete : d.Complete env V testsuite lst) (hcomplete' : d'.Complete env V' testsuite lst')
    (hlines : ∀ line, line ∈ linesOf '\n' content ↔ line ∈ linesOf '\n' content')
    (hrules : Unambiguous testsuite (configuration env (linesOf '\n' content)) q) :
    getMac V (updateInternal env V testsuite lst ⟨d.chunks, .eof⟩).lists q rand time =
      getMac V' (updateInternal env V' testsuite lst' ⟨d'.chunks, .eof⟩).lists q rand time := by
  have hmem : ∀ r, r ∈ rules (configuration env (linesOf '\n' content)) ↔
      r ∈ rules (configuration env (linesOf '\n' content')) := mem_rules_congr hlines
  have hrules' := hrules.congr hmem
  rw [lists_of_complete hcomplete, lists_of_complete hcomplete']
  -- both files have the same first rules, so one answers exactly when the other one does
  rcases getMac_sortLists V (hrules.withTime lst.lastMtime) rand time with
    ⟨r, hr, heq⟩ | ⟨hnone, heq⟩
  · rcases getMac_sortLists V' (hrules'.withTime lst'.lastMtime) rand time with
      ⟨r', hr', heq'⟩ | ⟨hnone', -⟩
    · rw [heq, heq']
      exact hrules.ties r r' hr ((isFirstOf_congr hmem).2 hr') rand time
    · exact absurd hr.holds (hnone' r ((hmem r).1 hr.mem))
  · rcases getMac_sortLists V' (hrules'.withTime lst'.lastMtime) rand time with
      ⟨r', hr', -⟩ | ⟨-, heq'⟩
    · exact absurd hr'.holds (hnone r' ((hmem r').2 hr'.mem))
    · rw [heq, heq']

/-! ## A sample -/

/-- Rules at different places are never tied. -/
theorem ties_of_places {lst : BlackList} {q : Query} (h : ((rules lst).map Rule.place).Nodup)
    (r r' : Rule) (hr : r.IsFirstOf lst q) (hr' : r'.IsFirstOf lst q) (rand : Nat) (time : Int) :
    r.answer q rand time = r'.answer q rand time := by
  rw [List.inj_on_of_nodup_map h hr.mem hr'.mem (hr.rank_eq hr')]

/-- An IP rule and a net, in one chunk. -/
def twoRules : Delivery "!1.2.3.4\n1.0.0.0/8\n".toList where
  chunks := ["!1.2.3.4\n1.0.0.0/8\n".toList]
  flatten_eq := List.flatten_singleton
  delivered := by decide +kernel

/-- The same lines in the other order. -/
def twoRulesSwapped : Delivery "1.0.0.0/8\n!1.2.3.4\n".toList where
  chunks := ["1.0.0.0/8\n".toList, "!1.2.3.4\n".toList]
  flatten_eq := by decide +kernel
  delivered := by decide +kernel

theorem twoRules_complete : twoRules.Complete ownEnv referenceVector false ⟨[], [], 0⟩ := by
  rw [Delivery.Complete, updateInternal_toLineCalls]
  decide +kernel

theorem twoRulesSwapped_complete :
    twoRulesSwapped.Complete ownEnv referenceVector false ⟨[], [], 0⟩ := by
  rw [Delivery.Complete, updateInternal_toLineCalls]
  decide +kernel

theorem twoRules_unambiguous (q : Query) :
    Unambiguous false (configuration ownEnv (linesOf '\n' "!1.2.3.4\n1.0.0.0/8\n".toList)) q where
  ips := by
    have hone : ∀ d ∈ (configuration ownEnv
        (linesOf '\n' "!1.2.3.4\n1.0.0.0/8\n".toList)).ipList, ∀ e ∈ (configuration ownEnv
        (linesOf '\n' "!1.2.3.4\n1.0.0.0/8\n".toList)).ipList, d = e := by decide +kernel
    exact fun d hd e he _ _ => hone d hd e he
  masks := by decide +kernel
  ties := ties_of_places (by decide +kernel)

/-- The net decides for the address 1.2.3.5. -/
theorem getMac_of_config_sample :
    ∃ r : Rule, r.IsFirstOf (configuration ownEnv
        (linesOf '\n' "!1.2.3.4\n1.0.0.0/8\n".toList)) (queryFor (ntohl 0x01020305)) ∧
      getMac referenceVector (updateInternal ownEnv referenceVector false ⟨[], [], 0⟩
        ⟨twoRules.chunks, .eof⟩).lists (queryFor (ntohl 0x01020305)) 0 0 =
        r.answer (queryFor (ntohl 0x01020305)) 0 0 := by
  rcases getMac_of_config ownEnv referenceVector false ⟨[], [], 0⟩ twoRules
    (queryFor (ntohl 0x01020305)) 0 0 twoRules_complete (twoRules_unambiguous _) with h | ⟨-, hnull⟩
  · exact h
  · exact absurd (congrArg Prod.fst hnull) (by decide +kernel)

/-- The order of the two lines makes no difference. -/
theorem getMac_sameLines_sample :
    getMac referenceVector (updateInternal ownEnv referenceVector false ⟨[], [], 0⟩
        ⟨twoRules.chunks, .eof⟩).lists (queryFor (ntohl 0x01020304)) 0 0 =
      getMac referenceVector (updateInternal ownEnv referenceVector false ⟨[], [], 0⟩
        ⟨twoRulesSwapped.chunks, .eof⟩).lists (queryFor (ntohl 0x01020304)) 0 0 :=
  getMac_sameLines ownEnv referenceVector referenceVector false ⟨[], [], 0⟩ ⟨[], [], 0⟩ twoRules
    twoRulesSwapped (queryFor (ntohl 0x01020304)) 0 0 twoRules_complete twoRulesSwapped_complete
    (fun line => (show (linesOf '\n' "!1.2.3.4\n1.0.0.0/8\n".toList).Perm
      (linesOf '\n' "1.0.0.0/8\n!1.2.3.4\n".toList) by decide +kernel).mem_iff)
    (twoRules_unambiguous _)

end IpSentinel.BlackList

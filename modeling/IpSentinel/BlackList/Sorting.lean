import IpSentinel.BlackList.Lookup

/-!
# Sorting the lists

The end of `BlackList_updateInternal`, which sorts the entries read and, outside the build for the
testsuite, removes adjacent duplicates.
-/

set_option autoImplicit false

namespace IpSentinel.BlackList

open Foundation

/-- The comparison of nets is a total preorder on all entries, so that every implementation of the
sort returns the entries in an order it permits, and any two agree up to entries that compare
equal. -/
theorem NetData.sortCompare_wellDefined (testsuite : Bool) :
    (∀ x y, (sortCompare testsuite x y).sign = -(sortCompare testsuite y x).sign) ∧
      (∀ x y z, sortCompare testsuite x y ≤ 0 → sortCompare testsuite y z ≤ 0 →
        sortCompare testsuite x z ≤ 0) ∧
      ∀ (V W : VectorLib) (l : List NetData),
        (V.sort (sortCompare testsuite) l).Perm l ∧
        SortedBy (sortCompare testsuite) (V.sort (sortCompare testsuite) l) ∧
        List.Forall₂ (fun m n => sortCompare testsuite m n = 0)
          (V.sort (sortCompare testsuite) l) (W.sort (sortCompare testsuite) l) := by
  have hcmp := sortCompare_totalPreorder testsuite
  refine ⟨?_, ?_, ?_⟩
  · intro x y
    have hxy := hcmp.pos_iff x trivial y trivial
    have hyx := hcmp.pos_iff y trivial x trivial
    rcases lt_trichotomy (sortCompare testsuite x y) 0 with hneg | hzero | hpos
    · rw [Int.sign_eq_neg_one_of_neg hneg, Int.sign_eq_one_of_pos (hyx.2 hneg)]
    · rw [hzero, hcmp.equivalence.symm hzero]
      rfl
    · rw [Int.sign_eq_one_of_pos hpos, Int.sign_eq_neg_one_of_neg (hxy.1 hpos)]
      rfl
  · intro x y z
    exact hcmp.trans x trivial y trivial z trivial
  · intro V W l
    have hV := V.sort_sorted _ l hcmp
    have hperm := V.sort_perm _ l hcmp
    refine ⟨hperm, hV, ?_⟩
    -- two sorted lists of the same elements compare equal at each place
    apply hV.forall₂_of_perm hcmp (W.sort_sorted _ l hcmp)
    exact hperm.trans (W.sort_perm _ l hcmp).symm

/-- The calls of `Vector_sort` and `Vector_unique` in `BlackList_updateInternal`. -/
def sortLists (V : VectorLib) (testsuite : Bool) (lst : BlackList) : BlackList :=
  let ipList := V.sort IPData.sortCompare lst.ipList
  let netList := V.sort (NetData.sortCompare testsuite) lst.netList
  if testsuite then { lst with ipList, netList }
  else
    { lst with
      ipList := V.unique IPData.uniqueCompare ipList
      netList := V.unique (NetData.uniqueCompare testsuite) netList }

variable (V : VectorLib) (testsuite : Bool) (lst : BlackList)

theorem sortLists_ipList_sublist :
    ((sortLists V testsuite lst).ipList).Sublist (V.sort IPData.sortCompare lst.ipList) := by
  cases testsuite with
  | true => exact List.Sublist.refl _
  | false =>
    simp only [sortLists, V.unique_eq]
    exact firstOfRuns_sublist _ _

theorem sortLists_netList_sublist :
    ((sortLists V testsuite lst).netList).Sublist
      (V.sort (NetData.sortCompare testsuite) lst.netList) := by
  cases testsuite with
  | true => exact List.Sublist.refl _
  | false =>
    simp only [sortLists, V.unique_eq]
    exact firstOfRuns_sublist _ _

theorem sortLists_ipList_sorted : SortedBy IPData.sortCompare (sortLists V testsuite lst).ipList :=
  (V.sort_sorted _ _ IPData.sortCompare_totalPreorder).sublist (sortLists_ipList_sublist ..)

theorem sortLists_netList_sorted :
    SortedBy (NetData.sortCompare testsuite) (sortLists V testsuite lst).netList :=
  (V.sort_sorted _ _ (NetData.sortCompare_totalPreorder testsuite)).sublist
    (sortLists_netList_sublist ..)

/-- The first net of a loaded list is one of those read, and none of them compares less. -/
theorem sortLists_netList_head {n : NetData} (hn : n ∈ lst.netList) :
    ∃ first rest, (sortLists V testsuite lst).netList = first :: rest ∧
      NetData.sortCompare testsuite first n ≤ 0 := by
  have hcmp := NetData.sortCompare_totalPreorder testsuite
  have hsorted := V.sort_sorted _ lst.netList hcmp
  have hmem := (V.sort_perm _ lst.netList hcmp).mem_iff.2 hn
  cases hs : V.sort (NetData.sortCompare testsuite) lst.netList with
  | nil =>
    rw [hs] at hmem
    cases hmem
  | cons first rest =>
    rw [hs] at hsorted hmem
    have hle : NetData.sortCompare testsuite first n ≤ 0 := by
      rcases List.mem_cons.1 hmem with rfl | hmem
      · exact hcmp.refl (Set.mem_univ _)
      · exact (List.pairwise_cons.1 hsorted).1 n hmem
    cases testsuite with
    | true => exact ⟨first, rest, hs, hle⟩
    | false =>
      obtain ⟨rest', hrest'⟩ := firstOfRunsFrom_head (NetData.uniqueCompare false) first rest
      refine ⟨first, rest', ?_, hle⟩
      simp only [sortLists, V.unique_eq, hs]
      exact hrest'

/-- A net that is read stays in the loaded list, or a net that compares equal does. -/
theorem exists_mem_sortLists_netList {n : NetData} (hn : n ∈ lst.netList) :
    ∃ m ∈ (sortLists V testsuite lst).netList,
      m = n ∨ NetData.sortCompare testsuite m n = 0 := by
  have hcmp := NetData.sortCompare_totalPreorder testsuite
  have hmem := (V.sort_perm _ lst.netList hcmp).mem_iff.2 hn
  cases testsuite with
  | true => exact ⟨n, hmem, Or.inl rfl⟩
  | false =>
    obtain ⟨m, hm, heq⟩ := exists_mem_firstOfRuns (NetData.uniqueCompare false) hmem
    refine ⟨m, ?_, heq.imp_right NetData.sortCompare_of_uniqueCompare⟩
    simp only [sortLists, V.unique_eq]
    exact hm

/-- The lists are as `sortLists` leaves them. -/
structure Loaded (testsuite : Bool) (lst : BlackList) : Prop where
  ips_sorted : SortedBy IPData.sortCompare lst.ipList
  nets_sorted : SortedBy (NetData.sortCompare testsuite) lst.netList
  ips_unique : testsuite = false → lst.ipList.IsChain fun d e => IPData.uniqueCompare d e ≠ 0
  nets_unique : testsuite = false →
    lst.netList.IsChain fun m n => NetData.uniqueCompare testsuite m n ≠ 0

theorem sortLists_loaded : (sortLists V testsuite lst).Loaded testsuite where
  ips_sorted := sortLists_ipList_sorted V testsuite lst
  nets_sorted := sortLists_netList_sorted V testsuite lst
  ips_unique h := by
    subst h
    simp only [sortLists, V.unique_eq]
    exact firstOfRuns_isChain _ _
  nets_unique h := by
    subst h
    simp only [sortLists, V.unique_eq]
    exact firstOfRuns_isChain _ _

variable {V testsuite lst} in
/-- A sort that leaves sorted lists as they are leaves such lists as they are. -/
theorem Loaded.sortLists_eq (h : lst.Loaded testsuite) (hV : V.KeepsSorted) :
    sortLists V testsuite lst = lst := by
  have hips := hV _ _ _ h.ips_sorted
  have hnets := hV _ _ _ h.nets_sorted
  cases testsuite with
  | true => rw [sortLists, if_pos rfl, hips, hnets]
  | false =>
    rw [sortLists, if_neg Bool.false_ne_true, hips, hnets, V.unique_eq, V.unique_eq,
      firstOfRuns_of_isChain (h.ips_unique rfl), firstOfRuns_of_isChain (h.nets_unique rfl)]

theorem mem_of_mem_sortLists_ipList {d : IPData}
    (hd : d ∈ (sortLists V testsuite lst).ipList) : d ∈ lst.ipList :=
  (V.sort_perm _ _ IPData.sortCompare_totalPreorder).mem_iff.1
    ((sortLists_ipList_sublist V testsuite lst).subset hd)

theorem mem_of_mem_sortLists_netList {n : NetData}
    (hn : n ∈ (sortLists V testsuite lst).netList) : n ∈ lst.netList :=
  (V.sort_perm _ _ (NetData.sortCompare_totalPreorder testsuite)).mem_iff.1
    ((sortLists_netList_sublist V testsuite lst).subset hn)

end IpSentinel.BlackList

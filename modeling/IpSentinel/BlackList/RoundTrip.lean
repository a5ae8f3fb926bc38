import IpSentinel.BlackList.Print
import IpSentinel.BlackList.Update

/-!
# The printed text as a configuration

A blacklist that was read from some file is printed, and the text is read into an empty blacklist.
`print_roundtrip` says that this gives the same entries: each of them when its line is read, and in
the lists that `BlackList_updateInternal` leaves. Only the program for the testsuite prints a
blacklist; it sorts the lists, and keeps duplicates.
-/

set_option autoImplicit false

namespace IpSentinel.BlackList

open Foundation

/-! ## What counts of an entry -/

/-- An entry of one of the lists, with the MAC only where the status is to set it. -/
structure EntryContent where
  ip : InAddr
  mask : Option InAddr
  noIp : Bool
  status : BlackListStatus
  mac : Option EtherAddr
  atmac : AtMac
  deriving DecidableEq

def BaseData.content (b : BaseData) (mask : Option InAddr) (noIp : Bool) : EntryContent where
  ip := b.ip
  mask := mask
  noIp := noIp
  status := b.status
  mac := if b.status = .blSET then some b.mac else none
  atmac := b.atmac

def IPData.content (d : IPData) : EntryContent := d.v.content none false

def NetData.content (n : NetData) : EntryContent := n.v.content (some n.mask) n.noIp

/-- Both lists have the same entries in the same order. -/
structure SameEntries (lst lst' : BlackList) : Prop where
  ips : lst'.ipList.map IPData.content = lst.ipList.map IPData.content
  nets : lst'.netList.map NetData.content = lst.netList.map NetData.content

/-- Both lists have the same entries, each of them as often. -/
structure PermutedEntries (lst lst' : BlackList) : Prop where
  ips : (lst'.ipList.map IPData.content).Perm (lst.ipList.map IPData.content)
  nets : (lst'.netList.map NetData.content).Perm (lst.netList.map NetData.content)

theorem BaseData.content_reread (env : ParseEnv) (b : BaseData) (mask : Option InAddr)
    (noIp : Bool) : (b.reread env).content mask noIp = b.content mask noIp := by
  obtain ⟨ip, status, mac, atmac, decided⟩ := b
  cases status <;> rfl

/-- A blacklist with the entries that are read from the lines of another one. -/
def reread (env : ParseEnv) (mtime : Int) (lst : BlackList) : BlackList where
  ipList := lst.ipList.map (IPData.reread env)
  netList := lst.netList.map (NetData.reread env)
  lastMtime := mtime

theorem sameEntries_reread (env : ParseEnv) (mtime : Int) (lst : BlackList) :
    SameEntries lst (lst.reread env mtime) where
  ips := by
    rw [reread, List.map_map]
    exact List.map_congr_left fun d _ => d.v.content_reread env none false
  nets := by
    rw [reread, List.map_map]
    exact List.map_congr_left fun n _ => n.v.content_reread env (some n.mask) n.noIp

/-! ## The lists of a file -/

/-- All entries of the lists have the guarantees of the parser. -/
structure FromLines (lst : BlackList) : Prop where
  ips : ∀ d ∈ lst.ipList, d.FromLine
  nets : ∀ n ∈ lst.netList, n.FromLine

section Parsed

variable {env : ExpandEnv} {lst : BlackList}

theorem linesOutcomes_fromLine (env : ExpandEnv) (lines : List (List Char)) :
    ∀ o ∈ linesOutcomes env lines, o.FromLine := by
  intro o ho
  obtain ⟨line, -, ho⟩ := List.mem_flatMap.1 ho
  exact forall_mem_expandLine (parseLine_fromLine env.toParseEnv) line o ho

theorem FromLines.foldl (h : lst.FromLines) (lines : List (List Char)) :
    (lines.foldl (appendLine env) lst).FromLines := by
  have houtcomes := linesOutcomes_fromLine env lines
  rw [foldl_appendLine]
  constructor
  · exact List.forall_mem_append.2 ⟨h.ips, fun d hd => houtcomes _ (mem_addedIps.1 hd)⟩
  · exact List.forall_mem_append.2 ⟨h.nets, fun n hn => houtcomes _ (mem_addedNets.1 hn)⟩

theorem FromLines.sortLists (h : lst.FromLines) (V : VectorLib) (testsuite : Bool) :
    (BlackList.sortLists V testsuite lst).FromLines where
  ips _ hd := h.ips _ (mem_of_mem_sortLists_ipList V testsuite lst hd)
  nets _ hn := h.nets _ (mem_of_mem_sortLists_netList V testsuite lst hn)

/-- What reading a file leaves, whether it succeeds or not. -/
theorem updateInternal_fromLines (env : ExpandEnv) (V : VectorLib) (testsuite : Bool)
    (lst : BlackList) (reads : Reads) :
    (updateInternal env V testsuite lst reads).lists.FromLines := by
  have hempty : ({ lst with ipList := [], netList := [] } : BlackList).FromLines :=
    ⟨List.forall_mem_nil _, List.forall_mem_nil _⟩
  rw [updateInternal]
  split
  · exact hempty.foldl _
  · exact (hempty.foldl _).sortLists V testsuite

end Parsed

/-! ## Reading the lines -/

section Lines

variable {env : ExpandEnv} (P : PrintLib env.lib) {lst : BlackList}

/-- The lines that are printed. -/
def printedLines (lst : BlackList) : List (List Char) :=
  lst.ipList.map (fun d => (ruleLine P d.v none false).text) ++
    lst.netList.map fun n => (ruleLine P n.v (some n.mask) n.noIp).text

theorem print_eq (lst : BlackList) :
    print P lst = (printedLines P lst).flatMap fun line => line ++ ['\n'] := by
  rw [printedLines, List.flatMap_append, List.flatMap_map, List.flatMap_map, print]
  simp only [printInternal_eq]

/-- What holds of the line of every entry. -/
theorem forall_mem_printedLines {p : List Char → Prop}
    (h : ∀ data mask noIp, p (ruleLine P data mask noIp).text) (lst : BlackList) :
    ∀ line ∈ printedLines P lst, p line := by
  rw [printedLines, List.forall_mem_append]
  constructor
  · exact List.forall_mem_map.2 fun d _ => h _ _ _
  · exact List.forall_mem_map.2 fun n _ => h _ _ _

theorem newline_not_mem_printedLines (lst : BlackList) :
    ∀ line ∈ printedLines P lst, '\n' ∉ line :=
  forall_mem_printedLines P (fun data mask noIp hnewline =>
    absurd (isPrinted_ruleLine P data mask noIp _ hnewline) (by decide)) lst

/-- The line of an entry is not expanded. -/
theorem expandLine_ruleLine (data : BaseData) (mask : Option InAddr) (noIp : Bool) :
    (expandLine env (ruleLine P data mask noIp).text).outcomes =
      [(parseLine env.toParseEnv (ruleLine P data mask noIp).text).1] := by
  have hchars := isPrinted_ruleLine P data mask noIp
  have hplain : IsPlain (ruleLine P data mask noIp).text := by
    intro c hc
    refine ⟨?_, ?_, ?_⟩ <;> rintro rfl <;> exact absurd (hchars _ hc) (by decide)
  have hmixed : ¬ IsMixed (ruleLine P data mask noIp).text :=
    fun h => absurd (hchars _ h.2) (by decide)
  have hcall := expandLine_plain env hplain hmixed (Or.inl rfl)
  rw [List.append_nil] at hcall
  rw [hcall]

/-- The outcomes of the lines are the entries in their order. -/
theorem linesOutcomes_printedLines (h : lst.FromLines) (mtime : Int) :
    linesOutcomes env (printedLines P lst) =
      (lst.reread env.toParseEnv mtime).ipList.map .ip ++
        (lst.reread env.toParseEnv mtime).netList.map .net := by
  have hips : ∀ d ∈ lst.ipList, (expandLine env (ruleLine P d.v none false).text).outcomes =
      [.ip (d.reread env.toParseEnv)] :=
    fun d hd => by rw [expandLine_ruleLine, parseLine_ip P (h.ips d hd)]
  have hnets : ∀ n ∈ lst.netList,
      (expandLine env (ruleLine P n.v (some n.mask) n.noIp).text).outcomes =
        [.net (n.reread env.toParseEnv)] :=
    fun n hn => by rw [expandLine_ruleLine, parseLine_net P (h.nets n hn)]
  rw [linesOutcomes, printedLines, List.flatMap_append, List.flatMap_map, List.flatMap_map,
    List.flatMap_congr hips, List.flatMap_congr hnets, reread, List.map_map, List.map_map,
    List.map_eq_flatMap, List.map_eq_flatMap]
  rfl

/-- Reading the lines gives the entries in their order. -/
theorem foldl_printedLines (h : lst.FromLines) (mtime : Int) :
    (printedLines P lst).foldl (appendLine env) ⟨[], [], mtime⟩ =
      lst.reread env.toParseEnv mtime := by
  obtain ⟨hipsIp, hnetsIp⟩ := added_map_ip (lst.reread env.toParseEnv mtime).ipList
  obtain ⟨hipsNet, hnetsNet⟩ := added_map_net (lst.reread env.toParseEnv mtime).netList
  rw [foldl_appendLine, linesOutcomes_printedLines P h mtime, addedIps_append, addedNets_append,
    hipsIp, hipsNet, hnetsIp, hnetsNet, List.append_nil]
  rfl

end Lines

/-! ## Reading the file -/

section File

variable {env : ExpandEnv} (P : PrintLib env.lib) {V : VectorLib} {testsuite : Bool}
  {lst : BlackList}

/-- The comparisons do not look at the MAC. -/
theorem Loaded.reread (h : lst.Loaded testsuite) (env : ParseEnv) (mtime : Int) :
    (lst.reread env mtime).Loaded testsuite where
  ips_sorted := List.pairwise_map.2 h.ips_sorted
  nets_sorted := List.pairwise_map.2 h.nets_sorted
  ips_unique htest := (List.isChain_map _).2 (h.ips_unique htest)
  nets_unique htest := (List.isChain_map _).2 (h.nets_unique htest)

/-- The lists of a file that is read in whole. -/
theorem updateInternal_loaded {reads : Reads}
    (h : (updateInternal env V testsuite lst reads).failed = none) :
    (updateInternal env V testsuite lst reads).lists.Loaded testsuite := by
  have hcalls := congrArg LineCalls.failed (updateInternal_toLineCalls env V testsuite lst reads)
  rw [updateInternal_lists_of_succeeds (hcalls.symm.trans h)]
  exact sortLists_loaded V testsuite _

/-- The printed file is read in whole. -/
theorem updateInternal_print (V : VectorLib) (testsuite : Bool) (h : lst.FromLines) (mtime : Int)
    {d : Delivery (print P lst)} (hfills : FillsBuffer [] d.chunks) :
    let update := updateInternal env V testsuite ⟨[], [], mtime⟩ ⟨d.chunks, .eof⟩
    update.failed = none ∧
      update.lists = sortLists V testsuite (lst.reread env.toParseEnv mtime) := by
  have hcut : cutLines '\n' [] d.chunks.flatten = (printedLines P lst, []) := by
    rw [d.flatten_eq, print_eq]
    exact cutLines_ended (newline_not_mem_printedLines P lst)
  have hnewline : ∀ chunk ∈ d.chunks, '\n' ∈ chunk := by
    apply newline_mem_of_fillsBuffer List.not_mem_nil d.delivered hfills
    · rw [hcut]
      exact forall_mem_printedLines P (length_ruleLine P) lst
    · rw [hcut]
  have hcalls : readLines .eof 1 [] d.chunks = ⟨none, (printedLines P lst).zipIdx 1⟩ := by
    rw [readLines_eq hnewline List.not_mem_nil, cutPieces_eq, hcut]
    rfl
  have hsucceeds : (readLines .eof 1 [] d.chunks).failed = none := by rw [hcalls]
  intro update
  constructor
  · exact (congrArg LineCalls.failed (updateInternal_toLineCalls ..)).trans hsucceeds
  · refine (updateInternal_lists_of_succeeds hsucceeds).trans ?_
    rw [hcalls, loadLines, List.zipIdx_map_fst, foldl_printedLines P h]

/-- The loaded lists are permutations of those that are read. -/
theorem sortLists_permuted (V : VectorLib) (lst : BlackList) :
    PermutedEntries lst (sortLists V true lst) where
  ips := (V.sort_perm _ _ IPData.sortCompare_totalPreorder).map _
  nets := (V.sort_perm _ _ (NetData.sortCompare_totalPreorder true)).map _

end File

/-- Reading what `BlackList_print` writes for a blacklist that was read from a file gives its
entries: as they are read line by line, and in the lists of a whole update. The build for the
testsuite may sort entries that compare equal in another order, and in the other build they may
become adjacent duplicates, unless sorting leaves sorted lists as they are. -/
theorem print_roundtrip (env env' : ExpandEnv) (P : PrintLib env'.lib) (V : VectorLib)
    (testsuite : Bool) (before : BlackList) (reads : Reads) (mtime : Int) :
    let first := updateInternal env V testsuite before reads
    let text := print P first.lists
    SameEntries first.lists ((linesOf '\n' text).foldl (appendLine env') ⟨[], [], mtime⟩) ∧
      ∀ d : Delivery text, FillsBuffer [] d.chunks →
        let second := updateInternal env' V testsuite ⟨[], [], mtime⟩ ⟨d.chunks, .eof⟩
        second.failed = none ∧
          (testsuite = true → PermutedEntries first.lists second.lists) ∧
          (first.failed = none → V.KeepsSorted → SameEntries first.lists second.lists) := by
  intro first text
  have hlines : first.lists.FromLines := updateInternal_fromLines env V testsuite before reads
  have hsame := sameEntries_reread env'.toParseEnv mtime first.lists
  refine ⟨?_, fun d hfills => ?_⟩
  · have htext : text = (printedLines P first.lists).flatMap fun line => line ++ ['\n'] :=
      print_eq P first.lists
    rw [htext, linesOf_ended (newline_not_mem_printedLines P first.lists),
      foldl_printedLines P hlines]
    exact hsame
  · obtain ⟨hsucceeds, hlists⟩ := updateInternal_print P V testsuite hlines mtime hfills
    refine ⟨hsucceeds, ?_, ?_⟩
    · rintro rfl
      have hperm := sortLists_permuted V (first.lists.reread env'.toParseEnv mtime)
      rw [hlists]
      exact ⟨hperm.ips.trans (.of_eq hsame.ips), hperm.nets.trans (.of_eq hsame.nets)⟩
    · intro hfirst hV
      have hloaded := (updateInternal_loaded hfirst).reread env'.toParseEnv mtime
      rw [hlists, hloaded.sortLists_eq hV]
      exact hsame

/-- A machine without `ether_aton_r` and `ether_ntoa` in its library. -/
def ownEnv : ExpandEnv := { referenceEnv with lib := ownAddressLib dottedQuad }

/-- Three rules of different kinds. -/
def sampleReads : Reads where
  chunks := ["!1.2.3.4\n10.0.0.0/8@!1:1:1:2:2:2 802.1d\n*@1:1:1:2:2:2\n".toList]
  ending := .eof

/-- The lists of `sampleReads`. -/
def sampleLists : BlackList :=
  (updateInternal ownEnv referenceVector true ⟨[], [], 0⟩ sampleReads).lists

/-- The text of the three rules, in one chunk. -/
def sampleDelivery : Delivery (print ownPrintLib sampleLists) where
  chunks := [print ownPrintLib sampleLists]
  flatten_eq := List.flatten_singleton
  delivered := by decide +kernel

/-- The three rules are read back from their text with another `--mac`. -/
theorem print_roundtrip_sample :
    print ownPrintLib sampleLists =
        ("!1.2.3.4\t\t\n*@01:01:01:02:02:02\t\tRANDOM\n" ++
          "10.0.0.0/255.0.0.0@!01:01:01:02:02:02\t\t01:80:c2:00:00:00\n").toList ∧
      PermutedEntries sampleLists
        (updateInternal { ownEnv with mac := .mcFIXED .bcast } referenceVector true ⟨[], [], 0⟩
          ⟨sampleDelivery.chunks, .eof⟩).lists ∧
      SameEntries sampleLists
        (updateInternal { ownEnv with mac := .mcFIXED .bcast } referenceVector true ⟨[], [], 0⟩
          ⟨sampleDelivery.chunks, .eof⟩).lists := by
  obtain ⟨-, hfile⟩ := print_roundtrip ownEnv { ownEnv with mac := .mcFIXED .bcast } ownPrintLib
    referenceVector true ⟨[], [], 0⟩ sampleReads 0
  obtain ⟨-, hperm, hsame⟩ := hfile sampleDelivery trivial
  exact ⟨by decide +kernel, hperm rfl, hsame (by decide +kernel) referenceVector_keepsSorted⟩

end IpSentinel.BlackList

import IpSentinel.BlackList.Ranges
import IpSentinel.BlackList.Sorting
import IpSentinel.Foundation.Lines

/-!
# Reading the configuration file

`BlackList_updateInternal` reads the file into a buffer of 512 bytes, cuts the buffer into lines,
and moves what is behind the last newline to the front of the buffer for the next call of `read`. A
file comes as the chunks that the calls of `read` deliver, and the answer of the last call.

`updateInternal_calls_iff` says when the calls of `BlackList_expandLine` are those for the lines of
the file.
-/

set_option autoImplicit false

namespace IpSentinel.BlackList

open Foundation

/-- `sizeof(buffer)`. -/
def bufferSize : Nat := 512

/-- The answer of the last call of `read`: the end of the file, or an error. -/
inductive ReadEnd where
  | eof
  | error
  deriving DecidableEq, Repr

/-- What the calls of `read` answer. -/
structure Reads where
  chunks : List (List Char)
  ending : ReadEnd
  deriving DecidableEq

/-- Why `BlackList_updateInternal` fails. -/
inductive UpdateError where
  | read
  | lineTooLong (lineNr : Nat)
  deriving DecidableEq, Repr

/-- What the loop of `BlackList_updateInternal` does: the error, if there is one, and the lines it
calls `BlackList_expandLine` with, with their numbers. -/
structure LineCalls where
  failed : Option UpdateError
  calls : List (List Char × Nat)
  deriving DecidableEq

/-- The loop of `BlackList_updateInternal`, with the tail at the front of the buffer. -/
def readLines (ending : ReadEnd) : Nat → List Char → List (List Char) → LineCalls
  | _, _, [] => ⟨if ending = .error then some .read else none, []⟩
  | lineNr, tail, chunk :: chunks =>
    let r := cutLines '\n' [] (tail ++ chunk)
    -- no newline in the buffer is taken for a line that does not fit
    if r.1 = [] then ⟨some (.lineTooLong lineNr), []⟩
    else
      let rest := readLines ending (lineNr + r.1.length) r.2 chunks
      ⟨rest.failed, r.1.zipIdx lineNr ++ rest.calls⟩

/-- A call of `BlackList_expandLine`, with what it appends to the lists. -/
def appendLine (env : ExpandEnv) (lst : BlackList) (line : List Char) : BlackList :=
  let outcomes := (expandLine env line).outcomes
  { lst with
    ipList := lst.ipList ++ addedIps outcomes
    netList := lst.netList ++ addedNets outcomes }

/-- The lists that reading these lines leaves when there is no error. -/
def loadLines (env : ExpandEnv) (V : VectorLib) (testsuite : Bool) (lst : BlackList)
    (lines : List (List Char)) : BlackList :=
  sortLists V testsuite (lines.foldl (appendLine env) { lst with ipList := [], netList := [] })

/-- What `BlackList_updateInternal` does: the error, the calls, and the lists it leaves. -/
structure Update extends LineCalls where
  lists : BlackList
  deriving DecidableEq

/-- `BlackList_updateInternal`. Whether the calls of `BlackList_expandLine` fail makes no
difference, and they leave the buffer behind their line alone. -/
def updateInternal (env : ExpandEnv) (V : VectorLib) (testsuite : Bool) (lst : BlackList)
    (reads : Reads) : Update :=
  let r := readLines reads.ending 1 [] reads.chunks
  let lst := (r.calls.map Prod.fst).foldl (appendLine env) { lst with ipList := [], netList := [] }
  match r.failed with
  -- the lists have been cleared, and are left unsorted
  | some _ => ⟨r, lst⟩
  | none => ⟨r, sortLists V testsuite lst⟩

theorem updateInternal_toLineCalls (env : ExpandEnv) (V : VectorLib) (testsuite : Bool)
    (lst : BlackList) (reads : Reads) :
    (updateInternal env V testsuite lst reads).toLineCalls =
      readLines reads.ending 1 [] reads.chunks := by
  rw [updateInternal]
  split <;> rfl

theorem updateInternal_lists_of_succeeds {env : ExpandEnv} {V : VectorLib} {testsuite : Bool}
    {lst : BlackList} {reads : Reads}
    (h : (readLines reads.ending 1 [] reads.chunks).failed = none) :
    (updateInternal env V testsuite lst reads).lists =
      loadLines env V testsuite lst
        ((readLines reads.ending 1 [] reads.chunks).calls.map Prod.fst) := by
  simp only [updateInternal, h]
  rfl

/-- The outcomes of the calls for these lines. -/
def linesOutcomes (env : ExpandEnv) (lines : List (List Char)) : List Outcome :=
  lines.flatMap fun line => (expandLine env line).outcomes

/-- The calls append the entries of all their outcomes. -/
theorem foldl_appendLine (env : ExpandEnv) (lines : List (List Char)) (lst : BlackList) :
    lines.foldl (appendLine env) lst =
      { lst with
        ipList := lst.ipList ++ addedIps (linesOutcomes env lines)
        netList := lst.netList ++ addedNets (linesOutcomes env lines) } := by
  induction lines generalizing lst with
  | nil =>
    obtain ⟨ips, nets, mtime⟩ := lst
    simp [linesOutcomes, addedIps, addedNets]
  | cons line lines ih =>
    have hcons : linesOutcomes env (line :: lines) =
        (expandLine env line).outcomes ++ linesOutcomes env lines := List.flatMap_cons
    rw [List.foldl_cons, ih, hcons, addedIps_append, addedNets_append, ← List.append_assoc,
      ← List.append_assoc]
    rfl

/-- The nets read are those of the outcomes of the lines. -/
theorem mem_netList_foldl {env : ExpandEnv} {lines : List (List Char)} {lst : BlackList}
    {n : NetData} :
    n ∈ (lines.foldl (appendLine env) lst).netList ↔
      n ∈ lst.netList ∨ ∃ line ∈ lines, .net n ∈ (expandLine env line).outcomes := by
  rw [foldl_appendLine, List.mem_append, mem_addedNets, linesOutcomes, List.mem_flatMap]

/-! ## The loop -/

/-- A chunk without newline ends the loop. -/
theorem readLines_fails (ending : ReadEnd) {chunks : List (List Char)}
    (h : ∃ chunk ∈ chunks, '\n' ∉ chunk) {tail : List Char} (htail : '\n' ∉ tail) (lineNr : Nat) :
    (readLines ending lineNr tail chunks).failed ≠ none := by
  induction chunks generalizing tail lineNr with
  | nil => simp at h
  | cons chunk chunks ih =>
    rw [readLines]
    by_cases hchunk : '\n' ∈ chunk
    · rw [if_neg (cutLines_ne_nil (List.mem_append_right tail hchunk) [])]
      apply ih _ (not_mem_cutLines List.not_mem_nil _)
      obtain ⟨other, hmem, hother⟩ := h
      rcases List.mem_cons.1 hmem with rfl | hmem
      · exact absurd hchunk hother
      · exact ⟨other, hmem, hother⟩
    · have hnone : '\n' ∉ tail ++ chunk := by
        rw [List.mem_append]
        exact not_or_intro htail hchunk
      rw [cutLines_of_not_mem hnone, if_pos rfl]
      exact nofun

/-- With a newline in each chunk the calls are those for the lines of the text that are ended. -/
theorem readLines_eq {ending : ReadEnd} {chunks : List (List Char)}
    (h : ∀ chunk ∈ chunks, '\n' ∈ chunk) {tail : List Char} (htail : '\n' ∉ tail) (lineNr : Nat) :
    readLines ending lineNr tail chunks =
      ⟨if ending = .error then some .read else none,
        (cutPieces '\n' tail chunks).1.zipIdx lineNr⟩ := by
  induction chunks generalizing tail lineNr with
  | nil => rfl
  | cons chunk chunks ih =>
    obtain ⟨hchunk, hchunks⟩ := List.forall_mem_cons.1 h
    -- the tail has no newline, so cutting goes on where it stopped
    have hcut : cutLines '\n' [] (tail ++ chunk) = cutLines '\n' tail chunk := by
      rw [cutLines_append, cutLines_of_not_mem htail]
      rfl
    rw [readLines, hcut, if_neg (cutLines_ne_nil hchunk tail),
      ih hchunks (not_mem_cutLines htail chunk), cutPieces, List.zipIdx_append]

/-! ## Deliveries of a file -/

/-- The calls of `read` may deliver these chunks: each call delivers something, and not more than
there is room for behind the tail. Behind a chunk without newline there are no more calls. -/
def Delivered : List Char → List (List Char) → Prop
  | _, [] => True
  | tail, chunk :: chunks =>
    0 < chunk.length ∧ chunk.length ≤ bufferSize - tail.length ∧
      ('\n' ∈ chunk → Delivered (cutLines '\n' tail chunk).2 chunks)

instance decidableDelivered : (tail : List Char) → (chunks : List (List Char)) →
    Decidable (Delivered tail chunks)
  | _, [] => inferInstanceAs (Decidable True)
  | tail, chunk :: chunks =>
    have := decidableDelivered (cutLines '\n' tail chunk).2 chunks
    inferInstanceAs (Decidable (_ ∧ _ ∧ (_ → _)))

/-- A way the calls of `read` deliver a file up to its end. -/
structure Delivery (content : List Char) where
  chunks : List (List Char)
  flatten_eq : chunks.flatten = content
  delivered : Delivered [] chunks

/-- Each call of `read` but the last fills the buffer, as those for a regular file do. -/
def FillsBuffer : List Char → List (List Char) → Prop
  | _, [] => True
  | _, [_] => True
  | tail, chunk :: next :: chunks =>
    chunk.length = bufferSize - tail.length ∧
      FillsBuffer (cutLines '\n' tail chunk).2 (next :: chunks)

theorem FillsBuffer.rest {tail chunk : List Char} {chunks : List (List Char)}
    (h : FillsBuffer tail (chunk :: chunks)) : FillsBuffer (cutLines '\n' tail chunk).2 chunks := by
  cases chunks with
  | nil => trivial
  | cons next chunks => exact h.2

/-- Lines that are ended and fit into the buffer come with a newline in each chunk. -/
theorem newline_mem_of_fillsBuffer {tail : List Char} (htail : '\n' ∉ tail)
    {chunks : List (List Char)} (hdelivered : Delivered tail chunks)
    (hfills : FillsBuffer tail chunks)
    (hshort : ∀ line ∈ (cutLines '\n' tail chunks.flatten).1, line.length < bufferSize)
    (hended : (cutLines '\n' tail chunks.flatten).2 = []) : ∀ chunk ∈ chunks, '\n' ∈ chunk := by
  induction chunks generalizing tail with
  | nil => exact List.forall_mem_nil _
  | cons chunk chunks ih =>
    obtain ⟨hpos, -, hrest⟩ := hdelivered
    rw [List.flatten_cons, cutLines_append] at hshort hended
    have hchunk : '\n' ∈ chunk := by
      by_contra hnone
      rw [cutLines_of_not_mem hnone] at hshort hended
      by_cases hnewline : '\n' ∈ chunks.flatten
      · -- there is another chunk, and the line that goes on in it is too long
        obtain ⟨more, lines, hmore⟩ := exists_cutLines hnewline (tail ++ chunk)
        have hline := hshort (tail ++ chunk ++ more)
          (List.mem_append_right _ (hmore ▸ List.mem_cons_self))
        cases chunks with
        | nil => cases hnewline
        | cons next chunks =>
          have hfull : chunk.length = bufferSize - tail.length := hfills.1
          simp only [List.length_append] at hline
          omega
      · -- the last line is not ended
        rw [cutLines_of_not_mem hnewline] at hended
        simp only [List.append_eq_nil_iff] at hended
        rw [hended.1.2] at hpos
        exact absurd hpos (lt_irrefl 0)
    refine List.forall_mem_cons.2 ⟨hchunk, ?_⟩
    apply ih (not_mem_cutLines htail chunk) (hrest hchunk) hfills.rest
    · exact fun line hline => hshort line (List.mem_append_right _ hline)
    · exact hended

/-- The update succeeds, and calls `BlackList_expandLine` once for each line of the file, in order,
with the line and its number. -/
def Delivery.Complete (env : ExpandEnv) (V : VectorLib) (testsuite : Bool) (lst : BlackList)
    {content : List Char} (d : Delivery content) : Prop :=
  (updateInternal env V testsuite lst ⟨d.chunks, .eof⟩).toLineCalls =
    ⟨none, (linesOf '\n' content).zipIdx 1⟩

/-- The calls are those for the lines of the file exactly when every call of `read` delivers a
newline, and the last line is ended by one. -/
theorem updateInternal_calls_iff (env : ExpandEnv) (V : VectorLib) (testsuite : Bool)
    (lst : BlackList) {content : List Char} (d : Delivery content) :
    d.Complete env V testsuite lst ↔
      (∀ chunk ∈ d.chunks, '\n' ∈ chunk) ∧ (content = [] ∨ content.getLast? = some '\n') := by
  rw [Delivery.Complete, updateInternal_toLineCalls]
  by_cases hchunks : ∀ chunk ∈ d.chunks, '\n' ∈ chunk
  · rw [and_iff_right hchunks, ← cutLines_rest_eq_nil_iff, readLines_eq hchunks List.not_mem_nil,
      cutPieces_eq, d.flatten_eq, linesOf_eq]
    simp only [LineCalls.mk.injEq, reduceCtorEq, if_false, true_and]
    split_ifs with hrest
    · exact iff_of_true rfl hrest
    · -- the rest of the file is a line without a call
      refine iff_of_false (fun h => ?_) hrest
      have hlines := congrArg (List.map Prod.fst) h
      rw [List.zipIdx_map_fst, List.zipIdx_map_fst] at hlines
      simpa using congrArg List.length hlines
  · -- a chunk without newline makes the update fail
    refine iff_of_false (fun h => ?_) fun h => hchunks h.1
    have hfails := readLines_fails .eof (by simpa using hchunks) List.not_mem_nil 1
    rw [h] at hfails
    exact hfails rfl

/-- The file `1.2.3.4`, without a newline, in one chunk. -/
def unendedLine : Delivery "1.2.3.4".toList where
  chunks := ["1.2.3.4".toList]
  flatten_eq := by decide
  delivered := by decide

/-- The only line of the file is reported as too long. -/
theorem unendedLine_not_complete :
    ¬ unendedLine.Complete referenceEnv referenceVector false ⟨[], [], 0⟩ := by
  rw [Delivery.Complete, updateInternal_toLineCalls]
  decide

end IpSentinel.BlackList

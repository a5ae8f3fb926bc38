import IpSentinel.BlackList.StarRule
import IpSentinel.BlackList.Update
import IpSentinel.Foundation.Runs
import IpSentinel.Parameters

/-!
# Reloading the configuration

`BlackList_softUpdate` and `BlackList_update` as steps of a machine, whose state is the blacklist
and the static counter of errors, and whose inputs are the calls with the answers of `stat`, `open`
and `read`. The process ends when there have been too many errors.

A reload that fails at `stat` or `open` leaves the lists alone. One that fails behind `open` has
cleared them already, and answers queries from the part of the file that was read, whatever the
lists were before (`reload_of_fail`). `failed_reloads_keep_answers_iff` is the consequence for
queries.
-/

set_option autoImplicit false

namespace IpSentinel.BlackList

open Foundation

/-- The function that is called. -/
inductive UpdateCall where
  | softUpdate
  | update
  deriving DecidableEq, Repr

/-- A call with the answers of the system: the time of the last modification unless `stat` fails,
and what the calls of `read` answer unless `open` fails. -/
structure Attempt where
  call : UpdateCall
  stat : Option Int
  opened : Option Reads
  deriving DecidableEq

/-- The blacklist and the counter of errors. -/
structure ReloadState where
  lst : BlackList
  errorCount : Nat
  deriving DecidableEq

/-! ## The functions of the source -/

section Machine

variable (env : ExpandEnv) (V : VectorLib) (testsuite : Bool)

/-- `BlackList_softUpdate` up to the test of the counter. -/
def rereadFile (s : ReloadState) (stat : Option Int) (opened : Option Reads) : ReloadState :=
  match stat with
  | none => { s with errorCount := s.errorCount + 1 }
  | some mtime =>
    if s.lst.lastMtime ≠ mtime then
      match opened with
      | none => { s with errorCount := s.errorCount + 1 }
      | some reads =>
        let r := updateInternal env V testsuite s.lst reads
        match r.failed with
        -- the lists are what the failed call has left of them
        | some _ => ⟨{ r.lists with lastMtime := 0 }, s.errorCount + 1⟩
        | none => ⟨{ r.lists with lastMtime := mtime }, 0⟩
    else s

/-- `BlackList_softUpdate`; `none` is the end of the process. -/
def softUpdate (s : ReloadState) (stat : Option Int) (opened : Option Reads) :
    Option ReloadState :=
  let s := rereadFile env V testsuite s stat opened
  if s.errorCount > maxErrors then none else some s

/-- `BlackList_update` sets the time to 0 first. -/
def beforeCall (call : UpdateCall) (s : ReloadState) : ReloadState :=
  match call with
  | .softUpdate => s
  | .update => { s with lst := { s.lst with lastMtime := 0 } }

/-- A call of `BlackList_softUpdate` or `BlackList_update`. -/
def reload (s : ReloadState) (a : Attempt) : Option ReloadState :=
  softUpdate env V testsuite (beforeCall a.call s) a.stat a.opened

end Machine

/-! ## What an attempt does -/

/-- The file an attempt reads, when it has been modified and can be opened. -/
def fileRead (s : ReloadState) (a : Attempt) : Option Reads :=
  match a.stat with
  | none => none
  | some mtime => if (beforeCall a.call s).lst.lastMtime ≠ mtime then a.opened else none

/-- Reading fails behind `open`: at `read`, or at a line that is too long. -/
def Reads.Fail (reads : Reads) : Prop := (readLines reads.ending 1 [] reads.chunks).failed ≠ none

instance (reads : Reads) : Decidable reads.Fail := inferInstanceAs (Decidable (_ ≠ _))

/-- The attempt fails behind `open`. -/
def FailsReading (s : ReloadState) (a : Attempt) : Prop := ∃ reads ∈ fileRead s a, reads.Fail

/-- The attempt loads the file. -/
def Loads (s : ReloadState) (a : Attempt) : Prop := ∃ reads ∈ fileRead s a, ¬ reads.Fail

instance (s : ReloadState) (a : Attempt) : Decidable (FailsReading s a) :=
  inferInstanceAs (Decidable (∃ reads ∈ fileRead s a, _))

instance (s : ReloadState) (a : Attempt) : Decidable (Loads s a) :=
  inferInstanceAs (Decidable (∃ reads ∈ fileRead s a, _))

/-- All queries have the same answers. -/
def SameAnswers (V : VectorLib) (s t : ReloadState) : Prop :=
  ∀ q rand time, getMac V t.lst q rand time = getMac V s.lst q rand time

variable {env : ExpandEnv} {V : VectorLib} {testsuite : Bool}

/-- The answers are made from both lists. -/
theorem getMac_congr {lst lst' : BlackList} (hips : lst'.ipList = lst.ipList)
    (hnets : lst'.netList = lst.netList) (q : Query) (rand : Nat) (time : Int) :
    getMac V lst' q rand time = getMac V lst q rand time := by
  simp only [getMac, hips, hnets]

/-- What is loaded of a file when reading fails. -/
def partlyLoaded (env : ExpandEnv) (reads : Reads) : BlackList :=
  ((readLines reads.ending 1 [] reads.chunks).calls.map Prod.fst).foldl (appendLine env) ⟨[], [], 0⟩

theorem foldl_appendLine_lastMtime (lines : List (List Char)) (lst : BlackList) (time : Int) :
    { lines.foldl (appendLine env) lst with lastMtime := time } =
      lines.foldl (appendLine env) { lst with lastMtime := time } := by
  rw [foldl_appendLine, foldl_appendLine]

/-- When reading fails, the lists are what has been read of the file, whatever they were. -/
theorem reload_of_fail {s : ReloadState} {a : Attempt} {reads : Reads}
    (h : fileRead s a = some reads) (hfail : reads.Fail) :
    reload env V testsuite s a =
      if s.errorCount + 1 > maxErrors then none
      else some ⟨partlyLoaded env reads, s.errorCount + 1⟩ := by
  have hcount : (beforeCall a.call s).errorCount = s.errorCount := by
    cases a.call <;> rfl
  rw [fileRead] at h
  cases hstat : a.stat with
  | none =>
    rw [hstat] at h
    cases h
  | some mtime =>
    rw [hstat] at h
    dsimp only at h
    split_ifs at h with htime
    obtain ⟨e, he⟩ := Option.ne_none_iff_exists'.1 hfail
    -- the lists are cleared in front of the reading, so the old ones do not count
    have hupdate : ∀ lst : BlackList, (updateInternal env V testsuite lst reads).failed = some e ∧
        { (updateInternal env V testsuite lst reads).lists with lastMtime := 0 } =
          partlyLoaded env reads := by
      intro lst
      rw [updateInternal, he]
      exact ⟨he, foldl_appendLine_lastMtime _ _ 0⟩
    obtain ⟨hfailed, hlists⟩ := hupdate (beforeCall a.call s).lst
    simp only [reload, softUpdate, rereadFile, hstat, if_pos htime, h, hfailed, hlists, hcount]

/-- The state with other lists. -/
def ReloadState.withLists (s : ReloadState) (ips : List IPData) (nets : List NetData) :
    ReloadState :=
  { s with lst := { s.lst with ipList := ips, netList := nets } }

/-- Which file is read does not depend on the lists. -/
theorem fileRead_withLists (s : ReloadState) (a : Attempt) (ips : List IPData)
    (nets : List NetData) : fileRead (s.withLists ips nets) a = fileRead s a := by
  have htime : (beforeCall a.call (s.withLists ips nets)).lst.lastMtime =
      (beforeCall a.call s).lst.lastMtime := by
    cases a.call <;> rfl
  rw [fileRead, fileRead, htime]

/-- Without reading the file a step leaves the lists alone, and does not depend on them. -/
theorem reload_withLists {s : ReloadState} {a : Attempt} (h : fileRead s a = none)
    (ips : List IPData) (nets : List NetData) :
    reload env V testsuite (s.withLists ips nets) a =
      (reload env V testsuite s a).map fun t => t.withLists ips nets := by
  have hbefore : beforeCall a.call (s.withLists ips nets) =
      (beforeCall a.call s).withLists ips nets := by
    cases a.call <;> rfl
  rw [fileRead] at h
  rw [reload, reload, hbefore]
  generalize beforeCall a.call s = u at h ⊢
  -- without a file the lists are carried along
  have hreread : rereadFile env V testsuite (u.withLists ips nets) a.stat a.opened =
      (rereadFile env V testsuite u a.stat a.opened).withLists ips nets := by
    cases hstat : a.stat with
    | none => rfl
    | some mtime =>
      rw [hstat] at h
      by_cases htime : u.lst.lastMtime ≠ mtime
      · have hopened : a.opened = none := by simpa only [if_pos htime] using h
        have hcount : ∀ v : ReloadState, v.lst.lastMtime ≠ mtime →
            rereadFile env V testsuite v (some mtime) none =
              { v with errorCount := v.errorCount + 1 } := fun v hv => if_pos hv
        rw [hopened, hcount u htime, hcount (u.withLists ips nets) htime]
        rfl
      · have hsame : ∀ v : ReloadState, ¬ v.lst.lastMtime ≠ mtime →
            rereadFile env V testsuite v (some mtime) a.opened = v := fun v hv => if_neg hv
        rw [hsame u htime, hsame (u.withLists ips nets) htime]
  simp only [softUpdate, hreread]
  rw [apply_ite (Option.map _)]
  rfl

/-! ## Queries -/

/-- A step of a run in which no reload succeeds; such a run ends with the process, too. -/
def failedReload (env : ExpandEnv) (V : VectorLib) (testsuite : Bool) (s : ReloadState)
    (a : Attempt) : Option ReloadState :=
  if Loads s a then none else reload env V testsuite s a

/-- Until a reload succeeds, every query is answered as before the attempts. -/
def KeepsAnswers (env : ExpandEnv) (V : VectorLib) (testsuite : Bool) (attempts : List Attempt)
    (s : ReloadState) : Prop :=
  ∀ pre, pre <+: attempts → ∀ t, run (failedReload env V testsuite) pre s = some t →
    SameAnswers V s t

theorem keepsAnswers_of_none {s : ReloadState} {a : Attempt} {attempts : List Attempt}
    (h : failedReload env V testsuite s a = none) :
    KeepsAnswers env V testsuite (a :: attempts) s := by
  intro pre hpre t ht
  cases pre with
  | nil =>
    cases ht
    exact fun _ _ _ => rfl
  | cons b pre =>
    obtain ⟨rfl, -⟩ := List.cons_prefix_cons.1 hpre
    obtain ⟨u, hu, -⟩ := (run_cons_some _).1 ht
    rw [h] at hu
    cases hu

/-- Behind a step that keeps the answers the rest of the run counts. -/
theorem keepsAnswers_cons {s t : ReloadState} {a : Attempt} {attempts : List Attempt}
    (h : failedReload env V testsuite s a = some t) (hsame : SameAnswers V s t) :
    KeepsAnswers env V testsuite (a :: attempts) s ↔ KeepsAnswers env V testsuite attempts t := by
  constructor
  · intro hkeeps pre hpre u hu q rand time
    rw [hkeeps (a :: pre) (List.cons_prefix_cons.2 ⟨rfl, hpre⟩) u
      ((run_cons_some _).2 ⟨t, h, hu⟩), hsame]
  · intro hkeeps pre hpre u hu
    cases pre with
    | nil =>
      cases hu
      exact fun _ _ _ => rfl
    | cons b pre =>
      obtain ⟨rfl, hpre'⟩ := List.cons_prefix_cons.1 hpre
      obtain ⟨t', ht', hu'⟩ := (run_cons_some _).1 hu
      rw [h] at ht'
      cases ht'
      intro q rand time
      rw [hkeeps pre hpre' u hu', hsame]

/-- The lists of a rule for everything, and empty lists, answer a query differently. -/
theorem exists_answers_ne (V : VectorLib) (s : ReloadState) :
    getMac V (s.withLists [] [blockAnything]).lst requestedQuery 0 0 ≠
      getMac V (s.withLists [] []).lst requestedQuery 0 0 := by
  have hstart := searchIPs_nil V requestedQuery
  have hanswer : ∀ nets, getMac V (s.withLists [] nets).lst requestedQuery 0 0 =
      (searchNets nets (.start requestedQuery)).finish 0 0 :=
    fun nets => getMac_of_start hstart 0 0
  rw [hanswer, hanswer]
  decide

/-- The condition under which an attempt keeps the answers: it does not fail behind `open`, unless
this ends the process. -/
def KeepsLists (s : ReloadState) (a : Attempt) : Prop :=
  FailsReading s a → maxErrors < s.errorCount + 1

instance (s : ReloadState) (a : Attempt) : Decidable (KeepsLists s a) :=
  inferInstanceAs (Decidable (_ → _))

/-- An attempt that does not read the file. -/
theorem keepsAnswers_cons_of_not_read {s : ReloadState} {a : Attempt} {attempts : List Attempt}
    (hfile : fileRead s a = none)
    (ih : ∀ t, (∀ ips nets, KeepsAnswers env V testsuite attempts (t.withLists ips nets)) ↔
      StepsMeet (failedReload env V testsuite) KeepsLists attempts t) :
    (∀ ips nets, KeepsAnswers env V testsuite (a :: attempts) (s.withLists ips nets)) ↔
      StepsMeet (failedReload env V testsuite) KeepsLists (a :: attempts) s := by
  have hmeets : KeepsLists s a := by
    rintro ⟨reads, hreads, -⟩
    rw [hfile] at hreads
    cases hreads
  have hstep : ∀ u, fileRead u a = none →
      failedReload env V testsuite u a = reload env V testsuite u a := by
    intro u hu
    apply if_neg
    rintro ⟨reads, hreads, -⟩
    rw [hu] at hreads
    cases hreads
  -- the step is the same whatever the lists are, so the rest of the run is quantified over them
  have hlists : ∀ ips nets, failedReload env V testsuite (s.withLists ips nets) a =
      (reload env V testsuite s a).map fun t => t.withLists ips nets := by
    intro ips nets
    rw [hstep _ ((fileRead_withLists s a ips nets).trans hfile), reload_withLists hfile]
  rw [StepsMeet, and_iff_right hmeets, hstep s hfile]
  cases hreload : reload env V testsuite s a with
  | none =>
    rw [hreload] at hlists
    exact iff_of_true (fun ips nets => keepsAnswers_of_none (hlists ips nets)) nofun
  | some t =>
    rw [hreload] at hlists
    have hrest := ih t
    constructor
    · intro h t' ht'
      cases ht'
      exact hrest.1 fun ips nets =>
        (keepsAnswers_cons (hlists ips nets) (getMac_congr rfl rfl)).1 (h ips nets)
    · intro h ips nets
      exact (keepsAnswers_cons (hlists ips nets) (getMac_congr rfl rfl)).2
        (hrest.2 (h t rfl) ips nets)

/-- An attempt that fails behind `open` without ending the process makes the answers those of what
has been read. -/
theorem not_keepsAnswers_of_fail {s : ReloadState} {a : Attempt} {attempts : List Attempt}
    {reads : Reads} (hfile : fileRead s a = some reads) (hfail : reads.Fail)
    (hcount : ¬ maxErrors < s.errorCount + 1) :
    ¬ ∀ ips nets, KeepsAnswers env V testsuite (a :: attempts) (s.withLists ips nets) := by
  intro h
  have hrun : ∀ ips nets, run (failedReload env V testsuite) [a] (s.withLists ips nets) =
      some ⟨partlyLoaded env reads, s.errorCount + 1⟩ := by
    intro ips nets
    have hfile' := (fileRead_withLists s a ips nets).trans hfile
    have hloads : ¬ Loads (s.withLists ips nets) a := by
      rintro ⟨reads', hreads', hnot⟩
      rw [hfile'] at hreads'
      cases hreads'
      exact hnot hfail
    refine (run_cons_some _).2 ⟨_, ?_, rfl⟩
    rw [failedReload, if_neg hloads, reload_of_fail hfile' hfail]
    exact if_neg hcount
  -- one state for all lists before can not answer like each of them
  have hsame := fun ips nets => h ips nets [a] (by simp) _ (hrun ips nets) requestedQuery 0 0
  exact exists_answers_ne V s ((hsame [] [blockAnything]).symm.trans (hsame [] []))

/-- Until a reload succeeds, the answers are kept for whatever the lists hold exactly when no
attempt fails behind `open`, unless it ends the process. -/
theorem failed_reloads_keep_answers_iff (env : ExpandEnv) (V : VectorLib) (testsuite : Bool)
    (attempts : List Attempt) (s : ReloadState) :
    (∀ ips nets, KeepsAnswers env V testsuite attempts (s.withLists ips nets)) ↔
      StepsMeet (failedReload env V testsuite) KeepsLists attempts s := by
  -- over the attempts, from all lists at once: an attempt that does not read keeps them apart
  induction attempts generalizing s with
  | nil =>
    refine iff_of_true (fun ips nets pre hpre t ht => ?_) trivial
    rw [List.prefix_nil.1 hpre] at ht
    cases ht
    exact fun _ _ _ => rfl
  | cons a attempts ih =>
    cases hfile : fileRead s a with
    | none => exact keepsAnswers_cons_of_not_read hfile ih
    | some reads =>
      have hfile' := fun ips nets => (fileRead_withLists s a ips nets).trans hfile
      by_cases hfail : reads.Fail
      · by_cases hcount : maxErrors < s.errorCount + 1
        · -- the process ends
          have hends : ∀ u, fileRead u a = some reads → u.errorCount = s.errorCount →
              failedReload env V testsuite u a = none := by
            intro u hu hu'
            rw [failedReload, reload_of_fail hu hfail, hu', if_pos hcount, ite_self]
          refine iff_of_true (fun ips nets => keepsAnswers_of_none (hends _ (hfile' ips nets) rfl))
            ⟨fun _ => hcount, fun t ht => ?_⟩
          rw [hends s hfile rfl] at ht
          cases ht
        · exact iff_of_false (not_keepsAnswers_of_fail hfile hfail hcount)
            fun h => hcount (h.1 ⟨reads, hfile, hfail⟩)
      · -- the reload succeeds
        have hloads : ∀ u, fileRead u a = some reads → failedReload env V testsuite u a = none :=
          fun u hu => if_pos ⟨reads, hu, hfail⟩
        refine iff_of_true (fun ips nets => keepsAnswers_of_none (hloads _ (hfile' ips nets)))
          ⟨?_, fun t ht => ?_⟩
        · rintro ⟨reads', hreads', hfail'⟩
          rw [hfile] at hreads'
          cases hreads'
          exact absurd hfail' hfail
        · rw [hloads s hfile] at ht
          cases ht

/-- A `read` that fails at once, after the file has been modified. -/
def failedRead : Attempt := ⟨.softUpdate, some 7, some ⟨[], .error⟩⟩

/-- The rule `0.0.0.0/0`, loaded at time 5. -/
def loadedRule : ReloadState := ⟨⟨[], [blockAnything], 5⟩, 0⟩

/-- The first failed read drops the rule. -/
theorem failedRead_drops_rule :
    ¬ KeepsAnswers referenceEnv referenceVector false [failedRead] loadedRule := by
  intro h
  have hsame := h [failedRead] (by simp) ⟨⟨[], [], 0⟩, 1⟩ (by decide) requestedQuery 0 0
  exact absurd hsame (by decide)

end IpSentinel.BlackList

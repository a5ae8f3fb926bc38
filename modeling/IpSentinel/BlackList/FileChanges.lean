import IpSentinel.BlackList.Reload

/-!
# Changes of the configuration file

The calls of `BlackList_softUpdate` and `BlackList_update` in small steps, with other processes that
write the file between any two of them. The only trace a change leaves is the time of the last
modification in whole seconds, and the time 0 stands for a file that has not been read. So a write
in the second of the last reading leaves no trace (`racesIn`). `reload_of_run` relates the small
steps to the whole calls, and `noChangeMissed_of_stepsMeet` says which writes are noticed.
-/

set_option autoImplicit false

namespace IpSentinel.BlackList

open Foundation

/-- The file, with its `st_mtime`. -/
structure ConfigFile where
  content : List Char
  mtime : Int
  deriving DecidableEq

/-- Where the process is: outside of a call, in a call in front of `stat`, in front of `open`, or
reading the open file, with the `st_mtime` and what has been read. -/
inductive CallPhase where
  | idle
  | started (call : UpdateCall)
  | opening (mtime : Int)
  | reading (mtime : Int) (chunks : List (List Char))
  deriving DecidableEq

/-- The clock in seconds, the file, the variables of the process, and what is to be remembered of
the last write: whether the file has been written since the last call has started, and whether the
last write has raced with a reading and the file has not been opened since. -/
structure Watch where
  clock : Int
  file : ConfigFile
  cfg : ReloadState
  phase : CallPhase
  written : Bool
  raced : Bool
  deriving DecidableEq

/-- What can happen next: time passes, the file is written, or the process takes a step of a
call. -/
inductive WatchEvent where
  | tick (clock : Int)
  | write (content : List Char)
  | call (call : UpdateCall)
  | stat
  | statFails
  | openFile
  | openFails
  | read (chunk : List Char)
  | readEof
  | readFails
  deriving DecidableEq

/-- The event starts a call. -/
def WatchEvent.isCall : WatchEvent → Bool
  | .call _ => true
  | _ => false

namespace Watch

/-! ## The steps -/

section Machine

variable (env : ExpandEnv) (V : VectorLib) (testsuite : Bool)

/-- The end of a call, with what the system has answered in it. -/
def finish (w : Watch) (stat : Option Int) (opened : Option Reads) : Option Watch :=
  (softUpdate env V testsuite w.cfg stat opened).map fun cfg => { w with cfg, phase := .idle }

/-- `read` may deliver the chunk: bytes of the file behind those read, and not more than there is
room for behind the tail in the buffer. -/
def Delivers (w : Watch) (chunks : List (List Char)) (chunk : List Char) : Prop :=
  chunk ≠ [] ∧ chunk.length ≤ bufferSize - (cutPieces '\n' [] chunks).2.length ∧
    chunk <+: w.file.content.drop chunks.flatten.length

instance (w : Watch) (chunks : List (List Char)) (chunk : List Char) :
    Decidable (w.Delivers chunks chunk) :=
  inferInstanceAs (Decidable (_ ∧ _ ∧ _))

/-- A write in this phase gets the time of the last reading, or the one that `stat` has answered for
the reading that goes on. -/
def racesIn (w : Watch) : CallPhase → Bool
  | .idle | .started .softUpdate => w.clock = w.cfg.lst.lastMtime
  | .started .update | .opening _ => false
  | .reading mtime _ => w.clock = mtime

/-- One step; `none` is a step that can not be taken, or the end of the process. -/
def step (w : Watch) : WatchEvent → Option Watch
  | .tick clock => if w.clock ≤ clock then some { w with clock } else none
  | .write content =>
    some { w with file := ⟨content, w.clock⟩, written := true, raced := w.racesIn w.phase }
  | .call call =>
    if w.phase = .idle then
      some { w with cfg := beforeCall call w.cfg, phase := .started call, written := false }
    else none
  | .stat =>
    match w.phase with
    | .started _ =>
      if w.cfg.lst.lastMtime ≠ w.file.mtime then some { w with phase := .opening w.file.mtime }
      else w.finish env V testsuite (some w.file.mtime) none
    | _ => none
  | .statFails =>
    match w.phase with
    | .started _ => w.finish env V testsuite none none
    | _ => none
  | .openFile =>
    match w.phase with
    | .opening mtime => some { w with phase := .reading mtime [], raced := false }
    | _ => none
  | .openFails =>
    match w.phase with
    | .opening mtime => w.finish env V testsuite (some mtime) none
    | _ => none
  | .read chunk =>
    match w.phase with
    | .reading mtime chunks =>
      if w.Delivers chunks chunk then
        -- without a newline in the buffer the line is too long, and reading ends
        if '\n' ∈ chunk then some { w with phase := .reading mtime (chunks ++ [chunk]) }
        else w.finish env V testsuite (some mtime) (some ⟨chunks ++ [chunk], .eof⟩)
      else none
    | _ => none
  | .readEof =>
    match w.phase with
    | .reading mtime chunks =>
      if w.file.content.length ≤ chunks.flatten.length then
        w.finish env V testsuite (some mtime) (some ⟨chunks, .eof⟩)
      else none
    | _ => none
  | .readFails =>
    match w.phase with
    | .reading mtime chunks => w.finish env V testsuite (some mtime) (some ⟨chunks, .error⟩)
    | _ => none

/-- `BlackList_init` starts with a call of `BlackList_update`. -/
def start (clock : Int) (file : ConfigFile) : Watch where
  clock := clock
  file := file
  cfg := ⟨⟨[], [], 0⟩, 0⟩
  phase := .started .update
  written := false
  raced := false

/-- The entries of a content: what loading its lines gives. -/
def entriesOf (content : List Char) : BlackList :=
  loadLines env V testsuite ⟨[], [], 0⟩ (linesOf '\n' content)

/-- Both lists hold the entries of the content. -/
def Holds (lst : BlackList) (content : List Char) : Prop :=
  { lst with lastMtime := 0 } = entriesOf env V testsuite content

instance (lst : BlackList) (content : List Char) : Decidable (Holds env V testsuite lst content) :=
  inferInstanceAs (Decidable (_ = _))

/-- A call without a write since its start leaves the entries of the file in the lists, and
`BlackList_update` always goes on to open the file. -/
structure NoChangeMissed (events : List WatchEvent) (w : Watch) : Prop where
  current : ∀ pre, pre <+: events → ∀ t, run (step env V testsuite) pre w = some t →
    t.phase = .idle → t.written = false → Holds env V testsuite t.cfg.lst t.file.content
  rereads : ∀ pre, pre ++ [.stat] <+: events → ∀ t u, run (step env V testsuite) pre w = some t →
    t.phase = .started .update → step env V testsuite t .stat = some u →
      u.phase = .opening t.file.mtime

/-- The call meets no error. -/
def ErrorFree (_ : Watch) : WatchEvent → Prop
  | .statFails | .openFails | .readFails => False
  | .read chunk => '\n' ∈ chunk
  | _ => True

instance (w : Watch) : (e : WatchEvent) → Decidable (w.ErrorFree e)
  | .statFails | .openFails | .readFails => inferInstanceAs (Decidable False)
  | .read chunk => inferInstanceAs (Decidable ('\n' ∈ chunk))
  | .tick _ | .write _ | .call _ | .stat | .openFile | .readEof => inferInstanceAs (Decidable True)

/-- The last line of the content, when no newline ends it, adds no entry. -/
def LastLineAddsNothing (content : List Char) : Prop :=
  loadLines env V testsuite ⟨[], [], 0⟩ (cutLines '\n' [] content).1 =
    entriesOf env V testsuite content

instance (content : List Char) : Decidable (LastLineAddsNothing env V testsuite content) :=
  inferInstanceAs (Decidable (_ = _))

/-- The condition on `stat`. `BlackList_update` does not find the time 0, and a call of
`BlackList_softUpdate` that starts after a write that has raced finds the entries loaded. -/
def UnracedStat (w : Watch) : CallPhase → Prop
  | .started .update => w.file.mtime ≠ 0
  | .started .softUpdate =>
    w.raced = true → w.written = false → Holds env V testsuite w.cfg.lst w.file.content
  | _ => True

/-- The condition on the end of the file: what has been read has no last line that is lost. -/
def UnracedEof : CallPhase → Prop
  | .reading _ chunks => LastLineAddsNothing env V testsuite chunks.flatten
  | _ => True

/-- The condition on a step. -/
def Unraced (w : Watch) : WatchEvent → Prop
  | .stat => w.UnracedStat env V testsuite w.phase
  | .readEof => UnracedEof env V testsuite w.phase
  | _ => True

instance (w : Watch) : (phase : CallPhase) → Decidable (w.UnracedStat env V testsuite phase)
  | .started .update => inferInstanceAs (Decidable (_ ≠ _))
  | .started .softUpdate => inferInstanceAs (Decidable (_ → _ → _))
  | .idle | .opening _ | .reading _ _ => inferInstanceAs (Decidable True)

instance : (phase : CallPhase) → Decidable (UnracedEof env V testsuite phase)
  | .reading _ chunks =>
    inferInstanceAs (Decidable (LastLineAddsNothing env V testsuite chunks.flatten))
  | .idle | .started _ | .opening _ => inferInstanceAs (Decidable True)

instance (w : Watch) : (e : WatchEvent) → Decidable (w.Unraced env V testsuite e)
  | .stat => inferInstanceAs (Decidable (w.UnracedStat env V testsuite w.phase))
  | .readEof => inferInstanceAs (Decidable (UnracedEof env V testsuite w.phase))
  | .tick _ | .write _ | .call _ | .statFails | .openFile | .openFails | .read _ | .readFails =>
    inferInstanceAs (Decidable True)

end Machine

variable {env : ExpandEnv} {V : VectorLib} {testsuite : Bool}

/-! ## The end of a call -/

theorem finish_some {w w' : Watch} {stat : Option Int} {opened : Option Reads}
    (h : w.finish env V testsuite stat opened = some w') :
    ∃ cfg, softUpdate env V testsuite w.cfg stat opened = some cfg ∧
      w' = { w with cfg, phase := .idle } := by
  obtain ⟨cfg, hcfg, rfl⟩ := Option.map_eq_some_iff.1 h
  exact ⟨cfg, hcfg, rfl⟩

/-- A step in the course of a call leaves the variables alone, or ends the call. -/
theorem step_cfg {w w' : Watch} {e : WatchEvent} (hbusy : w.phase ≠ .idle)
    (h : w.step env V testsuite e = some w') :
    (w'.cfg = w.cfg ∧ w'.phase ≠ .idle) ∨
      (∃ stat opened, softUpdate env V testsuite w.cfg stat opened = some w'.cfg) ∧
        w'.phase = .idle := by
  -- what ends a call is one `softUpdate` with the answers that have been collected
  have hend : ∀ {stat opened}, w.finish env V testsuite stat opened = some w' →
      (∃ stat opened, softUpdate env V testsuite w.cfg stat opened = some w'.cfg) ∧
        w'.phase = .idle := by
    intro stat opened hfinish
    obtain ⟨cfg, hcfg, rfl⟩ := finish_some hfinish
    exact ⟨⟨stat, opened, hcfg⟩, rfl⟩
  cases e with
  | tick clock =>
    rw [step] at h
    split_ifs at h
    cases h
    exact Or.inl ⟨rfl, hbusy⟩
  | write content =>
    cases h
    exact Or.inl ⟨rfl, hbusy⟩
  | call call =>
    rw [step, if_neg hbusy] at h
    cases h
  | stat =>
    rw [step] at h
    split at h
    · split_ifs at h
      · cases h
        exact Or.inl ⟨rfl, nofun⟩
      · exact Or.inr (hend h)
    · cases h
  | openFile =>
    rw [step] at h
    split at h
    · cases h
      exact Or.inl ⟨rfl, nofun⟩
    · cases h
  | read chunk =>
    rw [step] at h
    split at h
    · split_ifs at h
      · cases h
        exact Or.inl ⟨rfl, nofun⟩
      · exact Or.inr (hend h)
    · cases h
  | readEof =>
    rw [step] at h
    split at h
    · split_ifs at h
      exact Or.inr (hend h)
    · cases h
  | statFails | openFails | readFails =>
    rw [step] at h
    split at h
    · exact Or.inr (hend h)
    · cases h

/-- A call is one step of the machine with whole calls, whatever comes in between. -/
theorem reload_of_run {s : ReloadState} {call : UpdateCall} {w w' : Watch}
    {events : List WatchEvent} (hcfg : w.cfg = beforeCall call s) (hw : w.phase ≠ .idle)
    (hbusy : ∀ pre, pre <+: events → pre ≠ events → ∀ u,
      run (step env V testsuite) pre w = some u → u.phase ≠ .idle)
    (hrun : run (step env V testsuite) events w = some w') (hidle : w'.phase = .idle) :
    ∃ stat opened, reload env V testsuite s ⟨call, stat, opened⟩ = some w'.cfg := by
  -- only the last step ends the call, and the steps before it leave the variables alone
  induction events generalizing w with
  | nil =>
    cases hrun
    exact absurd hidle hw
  | cons e events ih =>
    obtain ⟨u, hstep, hrun⟩ := (run_cons_some _).1 hrun
    rcases step_cfg hw hstep with ⟨hsame, hu⟩ | ⟨⟨stat, opened, hfinish⟩, hu⟩
    · apply ih (hsame.trans hcfg) hu _ hrun
      intro pre hpre hne v hv
      have hne' : e :: pre ≠ e :: events := fun heq => hne (List.cons.inj heq).2
      exact hbusy (e :: pre) (List.cons_prefix_cons.2 ⟨rfl, hpre⟩) hne' v
        ((run_cons_some _).2 ⟨u, hstep, hv⟩)
    · -- this is the last step
      have hnil : events = [] := by
        by_contra hne
        refine hbusy [e] (List.cons_prefix_cons.2 ⟨rfl, List.nil_prefix⟩) ?_ u
          ((run_cons_some _).2 ⟨u, hstep, rfl⟩) hu
        exact fun heq => hne (List.cons.inj heq).2.symm
      subst hnil
      cases hrun
      rw [hcfg] at hfinish
      exact ⟨stat, opened, hfinish⟩

/-- An unchanged file leaves the variables alone. -/
theorem softUpdate_of_unchanged {s t : ReloadState} {opened : Option Reads}
    (h : softUpdate env V testsuite s (some s.lst.lastMtime) opened = some t) : t = s := by
  have hsame : rereadFile env V testsuite s (some s.lst.lastMtime) opened = s :=
    if_neg (not_not.2 rfl)
  rw [softUpdate, hsame] at h
  split_ifs at h
  cases h
  rfl

theorem loadLines_lastMtime (lst : BlackList) (lines : List (List Char)) (time : Int) :
    { loadLines env V testsuite lst lines with lastMtime := time } =
      loadLines env V testsuite ⟨[], [], time⟩ lines := by
  have hfold : _ = lines.foldl (appendLine env) _ :=
    foldl_appendLine_lastMtime lines ⟨[], [], lst.lastMtime⟩ time
  simp only [loadLines, ← hfold, sortLists]
  cases testsuite <;> rfl

/-- A modified file that is read without an error. -/
theorem softUpdate_of_loaded {s t : ReloadState} {mtime : Int} {chunks : List (List Char)}
    (htime : s.lst.lastMtime ≠ mtime) (hchunks : ∀ chunk ∈ chunks, '\n' ∈ chunk)
    (hlast : LastLineAddsNothing env V testsuite chunks.flatten)
    (h : softUpdate env V testsuite s (some mtime) (some ⟨chunks, .eof⟩) = some t) :
    t.lst.lastMtime = mtime ∧ Holds env V testsuite t.lst chunks.flatten := by
  -- with a newline in every chunk the lines are those of the content
  have hlines : readLines .eof 1 [] chunks =
      ⟨none, (cutLines '\n' [] chunks.flatten).1.zipIdx 1⟩ := by
    rw [readLines_eq hchunks List.not_mem_nil, cutPieces_eq]
    rfl
  have hfailed : (updateInternal env V testsuite s.lst ⟨chunks, .eof⟩).failed = none := by
    rw [updateInternal_toLineCalls, hlines]
  have hlists : (updateInternal env V testsuite s.lst ⟨chunks, .eof⟩).lists =
      loadLines env V testsuite s.lst (cutLines '\n' [] chunks.flatten).1 := by
    rw [updateInternal_lists_of_succeeds (congrArg LineCalls.failed hlines), hlines,
      List.zipIdx_map_fst]
  simp only [softUpdate, rereadFile, if_pos htime, hfailed, hlists] at h
  split_ifs at h
  cases h
  exact ⟨rfl, (loadLines_lastMtime _ _ 0).trans hlast⟩

/-! ## The invariant -/

/-- When the time of the file is the one that has been remembered, and the last write has not raced,
the lists hold its entries. -/
def Fresh (env : ExpandEnv) (V : VectorLib) (testsuite : Bool) (w : Watch) : Prop :=
  w.raced = false → w.file.mtime = w.cfg.lst.lastMtime →
    Holds env V testsuite w.cfg.lst w.file.content

/-- What holds in each phase. While the file is read, what has been read is the start of the
content, unless a write has raced or made the time another one. -/
def PhaseInvariant (env : ExpandEnv) (V : VectorLib) (testsuite : Bool) (w : Watch) :
    CallPhase → Prop
  | .idle => w.Fresh env V testsuite ∧
      (w.written = false → Holds env V testsuite w.cfg.lst w.file.content)
  | .started .softUpdate => w.Fresh env V testsuite
  | .started .update => w.cfg.lst.lastMtime = 0
  | .opening mtime => w.cfg.lst.lastMtime ≠ mtime
  | .reading mtime chunks => w.cfg.lst.lastMtime ≠ mtime ∧ (∀ chunk ∈ chunks, '\n' ∈ chunk) ∧
      (w.written = false ∨ w.raced = false ∧ w.file.mtime = mtime →
        chunks.flatten <+: w.file.content)

def Invariant (env : ExpandEnv) (V : VectorLib) (testsuite : Bool) (w : Watch) : Prop :=
  w.PhaseInvariant env V testsuite w.phase

/-- A write that has not raced gets another time. -/
theorem Invariant.write {w w' : Watch} {content : List Char}
    (h : w.Invariant env V testsuite)
    (hstep : w.step env V testsuite (.write content) = some w') :
    w'.Invariant env V testsuite := by
  cases hstep
  rw [Invariant] at h ⊢
  dsimp only
  cases hphase : w.phase with
  | idle =>
    refine ⟨fun hraced htime => absurd htime ?_, nofun⟩
    exact of_decide_eq_false hraced
  | started call =>
    rw [hphase] at h
    cases call with
    | softUpdate =>
      intro hraced htime
      exact absurd htime (of_decide_eq_false hraced)
    | update => exact h
  | opening mtime =>
    rw [hphase] at h
    exact h
  | reading mtime chunks =>
    rw [hphase] at h
    obtain ⟨htime, hchunks, -⟩ := h
    refine ⟨htime, hchunks, ?_⟩
    -- the content is another one now, and so is its time unless the write has raced
    rintro (hwritten | ⟨hraced, hsame⟩)
    · cases hwritten
    · exact absurd hsame (of_decide_eq_false hraced)

theorem Invariant.call {w w' : Watch} {call : UpdateCall} (h : w.Invariant env V testsuite)
    (hstep : w.step env V testsuite (.call call) = some w') : w'.Invariant env V testsuite := by
  rw [step] at hstep
  split_ifs at hstep with hphase
  cases hstep
  rw [Invariant, hphase] at h
  cases call with
  | softUpdate => exact h.1
  | update => exact rfl

theorem Invariant.stat {w w' : Watch} (h : w.Invariant env V testsuite)
    (hgood : w.UnracedStat env V testsuite w.phase)
    (hstep : w.step env V testsuite .stat = some w') : w'.Invariant env V testsuite := by
  cases hphase : w.phase with
  | started call =>
    simp only [step, hphase] at hstep
    split_ifs at hstep with htime
    · cases hstep
      exact htime
    · -- the file is taken to be unchanged
      obtain ⟨cfg, hcfg, rfl⟩ := finish_some hstep
      have hmtime := not_not.1 htime
      rw [← hmtime] at hcfg
      obtain rfl := softUpdate_of_unchanged hcfg
      rw [Invariant, hphase] at h
      rw [hphase] at hgood
      cases call with
      | softUpdate =>
        refine ⟨h, fun hwritten => ?_⟩
        cases hraced : w.raced with
        | true => exact hgood hraced hwritten
        | false => exact h hraced hmtime.symm
      | update => exact absurd (hmtime.symm.trans h) hgood
  | idle | opening | reading =>
    simp only [step, hphase] at hstep
    cases hstep

theorem Invariant.openFile {w w' : Watch} (h : w.Invariant env V testsuite)
    (hstep : w.step env V testsuite .openFile = some w') : w'.Invariant env V testsuite := by
  cases hphase : w.phase with
  | opening mtime =>
    simp only [step, hphase] at hstep
    cases hstep
    rw [Invariant, hphase] at h
    exact ⟨h, List.forall_mem_nil _, fun _ => List.nil_prefix⟩
  | idle | started | reading =>
    simp only [step, hphase] at hstep
    cases hstep

theorem Invariant.read {w w' : Watch} {chunk : List Char} (h : w.Invariant env V testsuite)
    (hnewline : '\n' ∈ chunk) (hstep : w.step env V testsuite (.read chunk) = some w') :
    w'.Invariant env V testsuite := by
  cases hphase : w.phase with
  | reading mtime chunks =>
    simp only [step, hphase, if_pos hnewline] at hstep
    split_ifs at hstep with hdelivers
    cases hstep
    rw [Invariant, hphase] at h
    obtain ⟨htime, hchunks, hread⟩ := h
    refine ⟨htime, ?_, fun hsame => ?_⟩
    · rw [List.forall_mem_append]
      exact ⟨hchunks, List.forall_mem_singleton.2 hnewline⟩
    · -- the chunk comes next in the content
      obtain ⟨rest, hrest⟩ := hread hsame
      have hnext := hdelivers.2.2
      rw [← hrest, List.drop_left] at hnext
      obtain ⟨rest', rfl⟩ := hnext
      refine ⟨rest', ?_⟩
      rw [← hrest]
      simp only [List.flatten_append, List.flatten_singleton, List.append_assoc]
  | idle | started | opening =>
    simp only [step, hphase] at hstep
    cases hstep

theorem Invariant.readEof {w w' : Watch} (h : w.Invariant env V testsuite)
    (hgood : UnracedEof env V testsuite w.phase)
    (hstep : w.step env V testsuite .readEof = some w') : w'.Invariant env V testsuite := by
  cases hphase : w.phase with
  | reading mtime chunks =>
    simp only [step, hphase] at hstep
    split_ifs at hstep with hend
    obtain ⟨cfg, hcfg, rfl⟩ := finish_some hstep
    rw [Invariant, hphase] at h
    rw [hphase] at hgood
    obtain ⟨htime, hchunks, hread⟩ := h
    obtain ⟨hlast, hholds⟩ := softUpdate_of_loaded htime hchunks hgood hcfg
    -- at the end of the file all of the content has been read
    have hall : w.written = false ∨ w.raced = false ∧ w.file.mtime = mtime →
        chunks.flatten = w.file.content :=
      fun hsame => (hread hsame).eq_of_length_le hend
    constructor
    · intro hraced hsame
      have hcontent := hall (Or.inr ⟨hraced, hsame.trans hlast⟩)
      exact hcontent ▸ hholds
    · intro hwritten
      exact hall (Or.inl hwritten) ▸ hholds
  | idle | started | opening =>
    simp only [step, hphase] at hstep
    cases hstep

/-- A step without an error that meets the condition keeps the invariant. -/
theorem Invariant.step {w w' : Watch} {e : WatchEvent} (h : w.Invariant env V testsuite)
    (hfree : w.ErrorFree e) (hgood : w.Unraced env V testsuite e)
    (hstep : w.step env V testsuite e = some w') : w'.Invariant env V testsuite := by
  cases e with
  | tick clock =>
    rw [Watch.step] at hstep
    split_ifs at hstep
    cases hstep
    exact h
  | write content => exact h.write hstep
  | call call => exact h.call hstep
  | stat => exact h.stat hgood hstep
  | openFile => exact h.openFile hstep
  | read chunk => exact h.read hfree hstep
  | readEof => exact h.readEof hgood hstep
  | statFails | openFails | readFails => exact hfree.elim

/-! ## Runs -/

/-- In every run without errors in which no call of `BlackList_softUpdate` finds the entries of a
write that has raced, `BlackList_update` does not find the time 0, and no entry stands in a last
line without a newline, no change of the file is missed. -/
theorem noChangeMissed_of_stepsMeet (env : ExpandEnv) (V : VectorLib) (testsuite : Bool)
    (events : List WatchEvent) (clock : Int) (file : ConfigFile)
    (hfree : StepsMeet (Watch.step env V testsuite) ErrorFree events (start clock file))
    (hgood : StepsMeet (Watch.step env V testsuite) (Unraced env V testsuite) events
      (start clock file)) :
    NoChangeMissed env V testsuite events (start clock file) := by
  have hstart : (start clock file).Invariant env V testsuite :=
    (rfl : (start clock file).cfg.lst.lastMtime = 0)
  have hinv : ∀ pre, pre <+: events → ∀ t,
      run (Watch.step env V testsuite) pre (start clock file) = some t →
        t.Invariant env V testsuite := by
    rintro pre ⟨rest, rfl⟩ t ht
    exact run_invariant_of_stepsMeet (fun _ _ _ h hmeets hstep => h.step hmeets.1 hmeets.2 hstep)
      hstart (hfree.and hgood).of_append ht
  -- between the calls the invariant is what is to be shown; in front of `stat` it parts the times
  constructor
  · intro pre hpre t ht hphase hwritten
    have h := hinv pre hpre t ht
    rw [Invariant, hphase] at h
    exact h.2 hwritten
  · intro pre hpre t u ht hphase hstep
    have h := hinv pre ((List.prefix_append pre _).trans hpre) t ht
    have hmtime : t.UnracedStat env V testsuite t.phase := stepsMeet_iff.1 hgood pre .stat hpre t ht
    rw [hphase] at hmtime
    rw [Invariant, hphase] at h
    have hne : t.cfg.lst.lastMtime ≠ t.file.mtime := fun hsame => hmtime (hsame.symm.trans h)
    simp only [Watch.step, hphase, if_pos hne] at hstep
    cases hstep
    rfl

/-- `BlackList_init` reads the file. A write in the same second is followed by one in the next
second, which a call of `BlackList_softUpdate` reads. -/
def editedTwice (content between content' : List Char) : List WatchEvent :=
  [.stat, .openFile, .read content, .readEof, .write between, .tick 6, .write content',
    .call .softUpdate, .stat, .openFile, .read content', .readEof]

/-- `BlackList_init` reads the file, and a call of `BlackList_softUpdate` follows a write in the
same second. -/
def editedAtOnce (content content' : List Char) : List WatchEvent :=
  [.stat, .openFile, .read content, .readEof, .write content', .call .softUpdate, .stat]

theorem noChangeMissed_editedTwice :
    NoChangeMissed referenceEnv referenceVector false
      (editedTwice "1.2.3.4\n".toList "9.9.9.9\n".toList "1.2.3.4\n5.6.7.8\n".toList)
      (start 5 ⟨"1.2.3.4\n".toList, 5⟩) :=
  noChangeMissed_of_stepsMeet referenceEnv referenceVector false _ 5 _ (by decide +kernel)
    (by decide +kernel)

/-- A write in the second of the first reading is missed, `BlackList_update` does not read a file
with the time 0, and an entry without a newline at the end of the file does not get into the
lists. -/
theorem changes_missed :
    StepsMeet (Watch.step referenceEnv referenceVector false) ErrorFree
        (editedAtOnce "1.2.3.4\n".toList "5.6.7.8\n".toList) (start 5 ⟨"1.2.3.4\n".toList, 5⟩) ∧
      ¬ NoChangeMissed referenceEnv referenceVector false
        (editedAtOnce "1.2.3.4\n".toList "5.6.7.8\n".toList) (start 5 ⟨"1.2.3.4\n".toList, 5⟩) ∧
      ¬ NoChangeMissed referenceEnv referenceVector false [.stat]
        (start 5 ⟨"1.2.3.4\n".toList, 0⟩) ∧
      ¬ NoChangeMissed referenceEnv referenceVector false
        [.stat, .openFile, .read "1.2.3.4\n5.6.7.8".toList, .readEof]
        (start 5 ⟨"1.2.3.4\n5.6.7.8".toList, 5⟩) := by
  refine ⟨by decide +kernel, fun h => ?_, fun h => ?_, fun h => ?_⟩
  · -- the file is written in the second in which it has been read
    have hcurrent := h.current _ List.prefix_rfl
      { clock := 5
        file := ⟨"5.6.7.8\n".toList, 5⟩
        cfg := ⟨{ entriesOf referenceEnv referenceVector false "1.2.3.4\n".toList with
          lastMtime := 5 }, 0⟩
        phase := .idle
        written := false
        raced := true } (by decide +kernel) rfl rfl
    exact absurd hcurrent (by decide +kernel)
  · -- the file has the time 0
    have hrereads := h.rereads [] List.prefix_rfl _
      { start 5 ⟨"1.2.3.4\n".toList, 0⟩ with phase := .idle } rfl rfl (by decide)
    cases hrereads
  · -- the last line has no newline
    have hcurrent := h.current _ List.prefix_rfl
      { clock := 5
        file := ⟨"1.2.3.4\n5.6.7.8".toList, 5⟩
        cfg := ⟨{ entriesOf referenceEnv referenceVector false "1.2.3.4\n".toList with
          lastMtime := 5 }, 0⟩
        phase := .idle
        written := false
        raced := false } (by decide +kernel) rfl rfl
    exact absurd hcurrent (by decide +kernel)

end Watch

end IpSentinel.BlackList

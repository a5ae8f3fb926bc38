import IpSentinel.BlackList.ConfigLine
import IpSentinel.BlackList.SecondPass

/-!
# Ranges against the cartesian expansion

A line with ranges stands for the lines of its expansion. `BlackList_expandLine` parses these lines
in their order, but those for the items of the last range in one buffer, in which the text in front
of that range is not written again. There the parser has put NUL in place of the separators, and a
`/` or an `@` behind the host is lost for all items but the first.

`expandLine_exact_iff` says for which lines the function adds the entries of the expansion.
-/

set_option autoImplicit false

namespace IpSentinel.BlackList

open Foundation

/-! ## Plain texts -/

theorem isPlain_append {p q : List Char} : IsPlain (p ++ q) ↔ IsPlain p ∧ IsPlain q :=
  List.forall_mem_append

theorem isPlain_plainText_cons {pre : List Char} {r : Range} {parts : List (List Char × Range)} :
    IsPlain (plainText ((pre, r) :: parts)) ↔ IsPlain pre ∧ IsPlain (plainText parts) := by
  rw [plainText, List.flatMap_cons]
  exact isPlain_append

/-- The first plain part of a line moves to what is in front. -/
theorem append_plainText_cons (q pre : List Char) (r : Range) (parts : List (List Char × Range))
    (tail : List Char) :
    q ++ (plainText ((pre, r) :: parts) ++ tail) = q ++ pre ++ (plainText parts ++ tail) := by
  simp [plainText]

theorem isPlain_of_digits {item : List Char} (h : IsDigits item) : IsPlain item := by
  intro c hc
  have hdigit := h c hc
  refine ⟨?_, ?_, ?_⟩ <;> rintro rfl <;> exact absurd hdigit (by decide)

theorem IsPlain.no_comment {text : List Char} (h : IsPlain text) : '#' ∉ text :=
  fun hc => (h '#' hc).2.2 rfl

theorem isPlain_of_overwritten {text text' : List Char} (h : Overwritten text text')
    (hplain : IsPlain text) : IsPlain text' := by
  intro c hc
  by_cases hnul : c = nul
  · subst hnul
    decide
  · exact hplain c (h.mem hnul hc)

theorem isMixed_of_overwritten {text text' rest : List Char} (h : Overwritten text text')
    (hmixed : IsMixed (text' ++ rest)) : IsMixed (text ++ rest) := by
  have hover := h.append (Overwritten.refl rest)
  exact ⟨hover.mem (by decide) hmixed.1, hover.mem (by decide) hmixed.2⟩

/-- Digits are no marks of ranges. -/
theorem isMixed_digits {p item rest : List Char} (h : IsDigits item) :
    IsMixed (p ++ (item ++ rest)) ↔ IsMixed (p ++ rest) := by
  have hminus := not_mem_of_isDigit h (c := '-') rfl
  have hcomma := not_mem_of_isDigit h (c := ',') rfl
  simp [IsMixed, hminus, hcomma]

theorem IsMixed.append_left {p q : List Char} (h : IsMixed p) : IsMixed (p ++ q) :=
  ⟨List.mem_append_left q h.1, List.mem_append_left q h.2⟩

/-! ## The calls of the parser -/

/-- The calls for the items of the last range. -/
def itemCalls (env : ParseEnv) (post : List Char) : List Char → List (List Char) → List Outcome
  | _, [] => []
  | pre, item :: items =>
    (parseLine env (pre ++ (item ++ post))).1 ::
      itemCalls env post (leftover (parseLine env) pre (item ++ post)) items

/-- The calls for a line with `q` in front. -/
def rangeCalls (env : ParseEnv) (post : List Char) :
    List Char → List (List Char × Range) → List Outcome
  | q, [] => [(parseLine env (q ++ post)).1]
  -- only behind the last range does the parser write into the shared text in front
  | q, [(pre, r)] => itemCalls env post (q ++ pre) r.items
  | q, (pre, r) :: part :: parts =>
    r.items.flatMap fun item => rangeCalls env post (q ++ pre ++ item) (part :: parts)

/-- In front of the last range each call works on what the call before it left. -/
theorem iterate_itemCalls (env : ExpandEnv) {tail comment : List Char} (htail : IsPlain tail)
    (hcomment : comment = [] ∨ comment.head? = some '#') {items : List (List Char)}
    (hitems : ∀ item ∈ items, IsDigits item) {pre : List Char} (hpre : IsPlain pre)
    (hmixed : ¬ IsMixed (pre ++ tail)) :
    iterate (expandLine env) (tail ++ comment) none pre items =
      (none, itemCalls env.toParseEnv (tail ++ comment) pre items) := by
  induction items generalizing pre with
  | nil => rfl
  | cons item items ih =>
    obtain ⟨hitem, hitems⟩ := List.forall_mem_cons.1 hitems
    have htext : pre ++ item ++ (tail ++ comment) = pre ++ (item ++ tail) ++ comment := by
      simp only [List.append_assoc]
    have hplain : IsPlain (pre ++ (item ++ tail)) :=
      isPlain_append.2 ⟨hpre, isPlain_append.2 ⟨isPlain_of_digits hitem, htail⟩⟩
    have hcall := expandLine_plain env hplain
      (fun h => hmixed ((isMixed_digits hitem).1 h)) hcomment
    rw [← htext] at hcall
    -- what the call leaves in front is plain and not mixed, too
    have hover := leftover_overwritten (parseLine_writesNul env.toParseEnv) pre
      (item ++ (tail ++ comment))
    have hrest := ih hitems (isPlain_of_overwritten hover hpre)
      fun h => hmixed (isMixed_of_overwritten hover h)
    rw [iterate, hcall]
    rw [List.append_assoc pre item]
    rw [leftover] at hrest
    simp only [hrest, itemCalls, leftover, List.singleton_append]

/-- Calls that leave their text alone are independent of each other. -/
theorem iterate_flatMap {expand : List Char → Expansion} {post pre : List Char}
    {items : List (List Char)}
    (h : ∀ item ∈ items, (expand (pre ++ item ++ post)).failed = none ∧
      (expand (pre ++ item ++ post)).text = pre ++ item ++ post) :
    iterate expand post none pre items =
      (none, items.flatMap fun item => (expand (pre ++ item ++ post)).outcomes) := by
  induction items with
  | nil => rfl
  | cons item items ih =>
    obtain ⟨⟨hfailed, htext⟩, hitems⟩ := List.forall_mem_cons.1 h
    have hpre : (expand (pre ++ item ++ post)).text.take pre.length = pre := by
      rw [htext, List.append_assoc, List.take_left' rfl]
    rw [iterate]
    simp only [hfailed]
    rw [hpre, ih hitems, List.flatMap_cons]

/-- A line that is not rejected is expanded, and a line with ranges is left alone. -/
theorem expandLine_rangeCalls (env : ExpandEnv) {tail comment : List Char} (htail : IsPlain tail)
    (hcomment : comment = [] ∨ comment.head? = some '#') {parts : List (List Char × Range)}
    (hparts : IsPlain (plainText parts)) (hranges : ∀ part ∈ parts, part.2.WellFormed)
    (htypes : ∀ part ∈ parts, part.2.type ≠ .rgUNDECIDED) {q : List Char} (hq : IsPlain q)
    (hmixed : ¬ IsMixed (q ++ (plainText parts ++ tail))) :
    (expandLine env (q ++ rangesText parts (tail ++ comment))).failed = none ∧
      (expandLine env (q ++ rangesText parts (tail ++ comment))).outcomes =
        rangeCalls env.toParseEnv (tail ++ comment) q parts ∧
      (parts ≠ [] → (expandLine env (q ++ rangesText parts (tail ++ comment))).text =
        q ++ rangesText parts (tail ++ comment)) := by
  induction parts generalizing q with
  | nil =>
    have hcall := expandLine_plain env (isPlain_append.2 ⟨hq, htail⟩) hmixed hcomment
    rw [rangesText, ← List.append_assoc, hcall]
    refine ⟨rfl, ?_, fun h => absurd rfl h⟩
    rw [rangeCalls, ← List.append_assoc]
  | cons part parts ih =>
    obtain ⟨pre, r⟩ := part
    obtain ⟨hr, hranges⟩ := List.forall_mem_cons.1 hranges
    obtain ⟨htype, htypes⟩ := List.forall_mem_cons.1 htypes
    obtain ⟨hpre, hparts⟩ := isPlain_plainText_cons.1 hparts
    have hqpre := isPlain_append.2 ⟨hq, hpre⟩
    rw [append_plainText_cons] at hmixed
    have hcall := expandLine_range env hqpre (fun h => hmixed h.append_left) hr htype
      (rangesText parts (tail ++ comment))
    rw [rangesText, ← List.append_assoc, hcall]
    cases parts with
    | nil =>
      rw [rangesText, iterate_itemCalls env htail hcomment
        (fun item hitem => Range.items_digits hr hitem) hqpre (by simpa [plainText] using hmixed)]
      exact ⟨rfl, rfl, fun _ => rfl⟩
    | cons part' parts =>
      -- there is a range in the line of each item, so that the line is left alone
      have hitem : ∀ item ∈ r.items, _ := fun item hitem =>
        ih hparts hranges htypes (q := q ++ pre ++ item)
          (isPlain_append.2 ⟨hqpre, isPlain_of_digits (Range.items_digits hr hitem)⟩)
          (by rw [List.append_assoc, isMixed_digits (Range.items_digits hr hitem)]; exact hmixed)
      rw [iterate_flatMap fun item hmem => ⟨(hitem item hmem).1,
        (hitem item hmem).2.2 (List.cons_ne_nil _ _)⟩]
      refine ⟨rfl, ?_, fun _ => rfl⟩
      rw [rangeCalls]
      exact List.flatMap_congr fun item hmem => (hitem item hmem).2.1

/-- A rejected line makes no call of the parser. -/
theorem expandLine_rejected (env : ExpandEnv) {tail : List Char} (htail : IsPlain tail)
    (comment : List Char)
    {parts : List (List Char × Range)} (hparts : IsPlain (plainText parts))
    (hranges : ∀ part ∈ parts, part.2.WellFormed) {q : List Char} (hq : IsPlain q)
    (hrejected : IsMixed (q ++ (plainText parts ++ tail)) ∨
      ∃ part ∈ parts, part.2.type = .rgUNDECIDED) :
    (expandLine env (q ++ rangesText parts (tail ++ comment))).failed ≠ none ∧
      (expandLine env (q ++ rangesText parts (tail ++ comment))).outcomes = [] := by
  induction parts generalizing q with
  | nil =>
    have hmixed : IsMixed (q ++ tail) := by simpa [plainText] using hrejected
    have hcall := expandLine_mixed env (isPlain_append.2 ⟨hq, htail⟩) hmixed comment
    rw [rangesText, ← List.append_assoc, hcall]
    exact ⟨Option.some_ne_none _, rfl⟩
  | cons part parts ih =>
    obtain ⟨pre, r⟩ := part
    obtain ⟨hr, hranges⟩ := List.forall_mem_cons.1 hranges
    obtain ⟨hpre, hparts⟩ := isPlain_plainText_cons.1 hparts
    have hqpre := isPlain_append.2 ⟨hq, hpre⟩
    rw [append_plainText_cons] at hrejected
    rw [rangesText, ← List.append_assoc]
    by_cases hmixed : IsMixed (q ++ pre)
    · rw [expandLine_mixed env hqpre hmixed]
      exact ⟨Option.some_ne_none _, rfl⟩
    · by_cases htype : r.type = .rgUNDECIDED
      · rw [expandLine_single env hqpre hmixed hr htype]
        exact ⟨Option.some_ne_none _, rfl⟩
      · rw [expandLine_range env hqpre hmixed hr htype]
        -- the call for the first item is rejected, too
        obtain ⟨item, items, hitems⟩ := List.exists_cons_of_ne_nil (Range.items_ne_nil hr)
        have hdigits := Range.items_digits hr (hitems ▸ List.mem_cons_self : item ∈ r.items)
        have hfirst := ih hparts hranges (q := q ++ pre ++ item)
          (isPlain_append.2 ⟨hqpre, isPlain_of_digits hdigits⟩) (by
            rw [List.append_assoc, isMixed_digits hdigits]
            simpa [htype] using hrejected)
        obtain ⟨failure, hfailed⟩ := Option.ne_none_iff_exists'.1 hfirst.1
        rw [hitems, iterate, hfailed]
        exact ⟨Option.some_ne_none _, hfirst.2⟩

/-! ## The entries of the expansion -/

/-- The line is a rule: it adds an entry. -/
def IsRule (env : ParseEnv) (text : List Char) : Prop := (parseLine env text).1.entry ≠ none

instance (env : ParseEnv) (text : List Char) : Decidable (IsRule env text) :=
  inferInstanceAs (Decidable (_ ≠ _))

/-- The separator behind the host is no `/` or `@`, or it makes no difference: neither the lines for
the items behind the first one are rules, nor are these lines with the host ended by NUL in the text
in front, as `endHost` ends it in the line of the first item. -/
def KeepsHost (env : ParseEnv) (pre : List Char) (items : List (List Char)) (post : List Char) :
    Prop :=
  (hostSep pre ≠ some '/' ∧ hostSep pre ≠ some '@') ∨
    match items with
    | [] => True
    | first :: items => ∀ item ∈ items, ¬ IsRule env (pre ++ (item ++ post)) ∧
        ¬ IsRule env ((endHost env (pre ++ (first ++ post))).take pre.length ++ (item ++ post))

variable {env : ParseEnv} {post : List Char}

/-- What a call leaves of a text that can be parsed again can be parsed again. -/
theorem hostSep_of_leftover {pre : List Char} (hpre : '#' ∉ pre)
    (hsep : hostSep pre ≠ some '/' ∧ hostSep pre ≠ some '@') (y : List Char) :
    hostSep (leftover (parseLine env) pre y) ≠ some '/' ∧
      hostSep (leftover (parseLine env) pre y) ≠ some '@' := by
  cases hc : hostSep pre with
  | none => rwa [leftover_of_hostSep_none env hc hpre]
  | some c =>
    rw [hostSep_leftover env hc hpre]
    decide

theorem no_comment_leftover {pre : List Char} (hpre : '#' ∉ pre) (y : List Char) :
    '#' ∉ leftover (parseLine env) pre y :=
  fun h => hpre ((leftover_overwritten (parseLine_writesNul env) pre y).mem (by decide) h)

/-- Where a text can be parsed again, each item is parsed as on a fresh copy. -/
theorem itemCalls_of_stable {items : List (List Char)} {pre : List Char} (hpre : '#' ∉ pre)
    (hsep : hostSep pre ≠ some '/' ∧ hostSep pre ≠ some '@') :
    itemCalls env post pre items =
      items.map fun item => (parseLine env (pre ++ (item ++ post))).1 := by
  induction items generalizing pre with
  | nil => rfl
  | cons item items ih =>
    rw [itemCalls, ih (no_comment_leftover hpre _) (hostSep_of_leftover hpre hsep _)]
    simp only [parseLine_stable env hsep.1 hsep.2 hpre _ _, List.map_cons]

/-- The calls for the items of the last range find the entries of the expansion exactly when the
separator behind the host is kept. -/
theorem itemCalls_entries {items : List (List Char)} {pre : List Char} (hpre : '#' ∉ pre) :
    (itemCalls env post pre items).map Outcome.entry =
      items.map (fun item => (parseLine env (pre ++ (item ++ post))).1.entry) ↔
    KeepsHost env pre items post := by
  by_cases hsep : hostSep pre ≠ some '/' ∧ hostSep pre ≠ some '@'
  · rw [itemCalls_of_stable hpre hsep, List.map_map]
    exact iff_of_true rfl (Or.inl hsep)
  · obtain ⟨c, hc, hc'⟩ : ∃ c, hostSep pre = some c ∧ (c = '/' ∨ c = '@') := by
      by_cases hslash : hostSep pre = some '/'
      · exact ⟨'/', hslash, Or.inl rfl⟩
      · exact ⟨'@', not_not.1 fun hat => hsep ⟨hslash, hat⟩, Or.inr rfl⟩
    cases items with
    | nil => exact iff_of_true rfl (Or.inr trivial)
    | cons first items =>
      rw [KeepsHost, or_iff_right hsep]
      -- behind the first call the host is ended by NUL
      have hleft := hostSep_leftover env hc hpre (first ++ post)
      have hcalls : itemCalls env post (leftover (parseLine env) pre (first ++ post)) items = _ :=
        itemCalls_of_stable (no_comment_leftover hpre _) (by rw [hleft]; decide)
      rw [itemCalls, hcalls, List.map_cons, List.map_cons, List.map_map, List.cons.injEq,
        and_iff_right rfl, List.map_inj_left]
      apply forall₂_congr
      intro item _
      rw [IsRule, IsRule, ← parseLine_leftover env hc hc' hpre]
      have hne : ∀ e, (parseLine env (pre ++ (item ++ post))).1.entry = some e →
          (parseLine env (leftover (parseLine env) pre (first ++ post) ++ (item ++ post))).1.entry ≠
            some e :=
        fun e he => entry_ne_of_leftover hc hc' hpre _ _ he
      constructor
      · intro heq
        have hnone : (parseLine env (pre ++ (item ++ post))).1.entry = none := by
          by_contra hsome
          obtain ⟨e, he⟩ := Option.ne_none_iff_exists'.1 hsome
          exact hne e he (heq.trans he)
        exact ⟨not_not.2 hnone, not_not.2 (heq.trans hnone)⟩
      · rintro ⟨hfresh, hsecond⟩
        exact (not_not.1 hsecond).trans (not_not.1 hfresh).symm

theorem length_itemCalls (pre : List Char) (items : List (List Char)) :
    (itemCalls env post pre items).length = items.length := by
  induction items generalizing pre with
  | nil => rfl
  | cons item items ih => rw [itemCalls, List.length_cons, List.length_cons, ih]

/-- There is one call for each line of the expansion. -/
theorem length_rangeCalls (q : List Char) (parts : List (List Char × Range)) :
    (rangeCalls env post q parts).length = (expansions parts post).length := by
  induction parts generalizing q with
  | nil => rfl
  | cons part parts ih =>
    obtain ⟨pre, r⟩ := part
    cases parts with
    | nil => simp [rangeCalls, length_itemCalls, expansions]
    | cons part parts =>
      simp only [rangeCalls, expansions, List.length_flatMap, List.length_map, ih]

/-- Concatenations of lists of the same lengths are equal when the lists are. -/
theorem flatMap_inj_of_length {α β : Type} {f g : α → List β} {l : List α}
    (hlen : ∀ a ∈ l, (f a).length = (g a).length) :
    l.flatMap f = l.flatMap g ↔ ∀ a ∈ l, f a = g a := by
  induction l with
  | nil => simp
  | cons a l ih =>
    obtain ⟨ha, hl⟩ := List.forall_mem_cons.1 hlen
    rw [List.flatMap_cons, List.flatMap_cons, List.forall_mem_cons, ← ih hl]
    exact ⟨fun h => List.append_inj h ha, fun h => by rw [h.1, h.2]⟩

/-- The calls find the entries of the expansion, one by one, exactly when the separator behind the
host is kept for every choice of items in front of the last range. -/
theorem rangeCalls_entries (env : ParseEnv) (post : List Char)
    {parts : List (List Char × Range)} (hparts : IsPlain (plainText parts))
    (hranges : ∀ part ∈ parts, part.2.WellFormed) {q : List Char} (hq : IsPlain q) :
    (rangeCalls env post q parts).map Outcome.entry =
      (expansions parts post).map (fun line => (parseLine env (q ++ line)).1.entry) ↔
    ∀ front pre r, parts = front ++ [(pre, r)] → ∀ line ∈ expansions front pre,
      KeepsHost env (q ++ line) r.items post := by
  -- on the ranges, from the first one; the prefix of the lines grows by an item each time
  induction parts generalizing q with
  | nil =>
    refine iff_of_true rfl fun front pre r h => ?_
    simp at h
  | cons part parts ih =>
    obtain ⟨pre, r⟩ := part
    obtain ⟨hr, hranges⟩ := List.forall_mem_cons.1 hranges
    obtain ⟨hpre, hparts⟩ := isPlain_plainText_cons.1 hparts
    have hqpre := isPlain_append.2 ⟨hq, hpre⟩
    cases parts with
    | nil =>
      have hfresh : (expansions [(pre, r)] post).map
          (fun line => (parseLine env (q ++ line)).1.entry) =
          r.items.map fun item => (parseLine env (q ++ pre ++ (item ++ post))).1.entry := by
        simp only [expansions, List.map_flatMap, List.map_cons, List.map_nil, List.append_assoc]
        exact List.map_eq_flatMap.symm
      rw [hfresh, rangeCalls, itemCalls_entries hqpre.no_comment]
      constructor
      · intro h front pre' r' heq line hline
        cases front with
        | nil =>
          cases heq
          rwa [List.mem_singleton.1 hline]
        | cons part front => simp at heq
      · exact fun h => h [] pre r rfl pre (List.mem_singleton_self pre)
    | cons part parts =>
      have hfresh : (expansions ((pre, r) :: part :: parts) post).map
          (fun line => (parseLine env (q ++ line)).1.entry) =
          r.items.flatMap fun item => (expansions (part :: parts) post).map
            fun line => (parseLine env (q ++ pre ++ item ++ line)).1.entry := by
        rw [expansions, List.map_flatMap]
        simp only [List.map_map, Function.comp_def, List.append_assoc]
      rw [hfresh, rangeCalls, List.map_flatMap, flatMap_inj_of_length]
      · -- the items of this range are the heads of the lines in front of the last one
        constructor
        · intro h front pre' r' heq line hline
          cases front with
          | nil => simp at heq
          | cons part' front =>
            obtain ⟨rfl, htail⟩ := List.cons.inj heq
            obtain ⟨item, hitem, hmem⟩ := List.mem_flatMap.1 hline
            obtain ⟨line', hline', rfl⟩ := List.mem_map.1 hmem
            have hq' := isPlain_append.2 ⟨hqpre, isPlain_of_digits (Range.items_digits hr hitem)⟩
            have hkeeps := (ih hparts hranges hq').1 (h item hitem) front pre' r' htail line' hline'
            simpa only [List.append_assoc] using hkeeps
        · intro h item hitem
          have hq' := isPlain_append.2 ⟨hqpre, isPlain_of_digits (Range.items_digits hr hitem)⟩
          refine (ih hparts hranges hq').2 fun front pre' r' htail line hline => ?_
          have hmem : pre ++ (item ++ line) ∈ expansions ((pre, r) :: front) pre' :=
            List.mem_flatMap.2 ⟨item, hitem, List.mem_map.2 ⟨line, hline, rfl⟩⟩
          have hkeeps := h ((pre, r) :: front) pre' r' (congrArg _ htail) _ hmem
          simpa only [List.append_assoc] using hkeeps
      · intro item _
        rw [List.length_map, List.length_map, length_rangeCalls]

/-! ## Lines -/

namespace ConfigLine

/-- The calls of the parser for fresh copies of the lines of the expansion. -/
def freshCalls (env : ExpandEnv) (line : ConfigLine) : List Outcome :=
  line.expansions.map fun text => (parseLine env.toParseEnv text).1

/-- The expansion of the line is that of the manual page: it appends the entries of the lines of the
cartesian expansion to both lists, and the entry of each line that is parsed is the one a fresh
copy of the line gives, whatever has been parsed before. -/
structure Exact (env : ExpandEnv) (line : ConfigLine) : Prop where
  ips : addedIps (expandLine env line.text).outcomes = addedIps (line.freshCalls env)
  nets : addedNets (expandLine env line.text).outcomes = addedNets (line.freshCalls env)
  independent : (expandLine env line.text).outcomes.map Outcome.entry <+:
    (line.freshCalls env).map Outcome.entry

/-- The line has both marks outside of ranges, or a range with a single item, for which
`BlackList_expandLine` rejects it. -/
def Rejected (line : ConfigLine) : Prop :=
  IsMixed (plainText line.parts ++ line.tail) ∨ ∃ part ∈ line.parts, part.2.type = .rgUNDECIDED

instance (line : ConfigLine) : Decidable line.Rejected := inferInstanceAs (Decidable (_ ∨ _))

/-- In front of the last range, the separator behind the host is kept for every choice of items of
the other ranges. -/
def KeepsHosts (env : ExpandEnv) (line : ConfigLine) : Prop :=
  ∀ front pre r, line.parts = front ++ [(pre, r)] → ∀ text ∈ BlackList.expansions front pre,
    KeepsHost env.toParseEnv text r.items (line.tail ++ line.comment)

theorem exact_of_rejected {env : ExpandEnv} {line : ConfigLine} (h : line.Rejected) :
    line.Exact env ↔ ∀ text ∈ line.expansions, ¬ IsRule env.toParseEnv text := by
  have hcalls := (expandLine_rejected env line.tail_plain line.comment line.parts_plain
    line.ranges_wellFormed (q := []) nofun h).2
  have hnone : (∀ text ∈ line.expansions, ¬ IsRule env.toParseEnv text) ↔
      ∀ o ∈ line.freshCalls env, o.entry = none := by
    simp only [freshCalls, List.forall_mem_map, IsRule, not_not]
  rw [hnone, ← added_eq_nil_iff]
  change (expandLine env line.text).outcomes = [] at hcalls
  constructor
  · intro hexact
    have hips := hexact.ips
    have hnets := hexact.nets
    rw [hcalls] at hips hnets
    exact ⟨hips.symm, hnets.symm⟩
  · rintro ⟨hips, hnets⟩
    exact { ips := by rw [hcalls, hips]; rfl
            nets := by rw [hcalls, hnets]; rfl
            independent := by rw [hcalls]; exact List.nil_prefix }

theorem exact_of_not_rejected {env : ExpandEnv} {line : ConfigLine} (h : ¬ line.Rejected) :
    line.Exact env ↔ line.KeepsHosts env := by
  obtain ⟨hmixed, htypes⟩ := not_or.1 h
  have hcalls := (expandLine_rangeCalls env line.tail_plain line.comment_head line.parts_plain
    line.ranges_wellFormed (fun part hpart htype => htypes ⟨part, hpart, htype⟩) (q := []) nofun
    hmixed).2.1
  change (expandLine env line.text).outcomes = _ at hcalls
  have hentries := rangeCalls_entries env.toParseEnv (line.tail ++ line.comment) line.parts_plain
    line.ranges_wellFormed (q := []) nofun
  have hfresh : (line.freshCalls env).map Outcome.entry =
      (BlackList.expansions line.parts (line.tail ++ line.comment)).map
        fun text => (parseLine env.toParseEnv text).1.entry := by
    rw [freshCalls, List.map_map]
    rfl
  simp only [List.nil_append] at hentries
  rw [← hfresh, ← hcalls] at hentries
  rw [KeepsHosts, ← hentries]
  constructor
  · intro hexact
    -- a prefix of the same length
    apply hexact.independent.eq_of_length
    rw [hcalls, List.length_map, List.length_map, length_rangeCalls, freshCalls, List.length_map]
    rfl
  · intro heq
    exact { ips := (added_congr heq).1
            nets := (added_congr heq).2
            independent := heq ▸ List.prefix_rfl }

end ConfigLine

/-- For which lines with ranges the entries are those of the cartesian expansion: a line that is
rejected must not stand for any rule, and in any other line the separator behind the host has to be
kept. -/
theorem expandLine_exact_iff (env : ExpandEnv) (line : ConfigLine) :
    line.Exact env ↔
      if line.Rejected then ∀ text ∈ line.expansions, ¬ IsRule env.toParseEnv text
      else line.KeepsHosts env := by
  split_ifs with h
  · exact ConfigLine.exact_of_rejected h
  · exact ConfigLine.exact_of_not_rejected h

/-! ## A range behind the slash -/

/-- A 64-bit machine with the reference library. -/
def referenceEnv : ExpandEnv where
  plat := lp64
  lib := referenceAddressLib
  localMac := .zero
  mac := .mcRANDOM
  uninit := .zero
  fmtUint := decimal
  fmtUint_eq _ _ := rfl

/-- The line `192.168.0.0/{24,25}`. -/
def maskRange : ConfigLine where
  parts := [("192.168.0.0/".toList, .list ["24".toList, "25".toList])]
  tail := []
  comment := []
  parts_plain := by decide
  ranges_wellFormed := by decide
  tail_plain := by decide
  comment_head := by decide

/-- The second net of `maskRange` is not added. -/
theorem maskRange_not_exact : ¬ maskRange.Exact referenceEnv := by
  intro h
  exact absurd h.nets (by decide)

end IpSentinel.BlackList

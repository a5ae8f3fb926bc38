import IpSentinel.BlackList.Ranges
import Mathlib.Logic.Relation

/-!
# Ranges as they are written

`BlackList_iterateRange` stores what `strtol` answers into two `int`s and counts the first one up to
the second. The numbers of a range are those in the text while both are below `2 ^ 31`, and the
counter stops below the largest `int`. `expandsExactly_iff` says that this is all a line needs so
that its expansion ends and goes through the numbers of its ranges.
-/

set_option autoImplicit false

namespace IpSentinel.BlackList

open Foundation

/-! ## The calls of an expansion -/

/-- The lines for which the loop over the items of a range calls the function. -/
def itemLines (expand : List Char → Expansion) (post : List Char) :
    List Char → List (List Char) → List (List Char)
  | _, [] => []
  | pre, item :: items =>
    let r := expand (pre ++ item ++ post)
    (pre ++ item ++ post) ::
      match r.failed with
      | some _ => []
      | none => itemLines expand post (r.text.take pre.length) items

/-- The lines for which a call of `BlackList_expandLine` calls itself. -/
def callsOf (env : ExpandEnv) (text : List Char) : List (List Char) :=
  match scanLine .rgUNDECIDED [] text with
  | .range type pre body post =>
    match rangeItems env type body post with
    | .ok items => itemLines (expandLine env) post pre items.items
    | .error _ => []
  | _ => []

/-- The lines for which `BlackList_expandLine` is called in the expansion of a line, the line itself
included. -/
def Called (env : ExpandEnv) : List Char → List Char → Prop :=
  Relation.ReflTransGen fun text text' => text' ∈ callsOf env text

section Iterate

variable {expand : List Char → Expansion} {post : List Char} {last : Option Failure}

/-- The loop ends with the failure of a call. -/
theorem iterate_of_failed {pre text : List Char} {items : List (List Char)} {f : Failure}
    (h : text ∈ itemLines expand post pre items) (hf : (expand text).failed = some f) :
    (iterate expand post last pre items).1 = some f := by
  induction items generalizing pre with
  | nil => cases h
  | cons item items ih =>
    rw [itemLines] at h
    rw [iterate]
    rcases List.mem_cons.1 h with rfl | h
    · simp only [hf]
    · cases hcall : (expand (pre ++ item ++ post)).failed with
      | some f' =>
        rw [hcall] at h
        cases h
      | none =>
        rw [hcall] at h
        exact ih h

variable (expand post last) in
/-- The loop ends because a call fails, or behind the last item. -/
theorem iterate_cases (pre : List Char) (items : List (List Char)) :
    (∃ text ∈ itemLines expand post pre items, (expand text).failed ≠ none ∧
        (iterate expand post last pre items).1 = (expand text).failed) ∨
      (iterate expand post last pre items).1 = last := by
  induction items generalizing pre with
  | nil => exact Or.inr rfl
  | cons item items ih =>
    rw [itemLines, iterate]
    cases hcall : (expand (pre ++ item ++ post)).failed with
    | some f =>
      refine Or.inl ⟨_, List.mem_cons_self, ?_, ?_⟩
      · rw [hcall]
        exact Option.some_ne_none f
      · rw [hcall]
    | none =>
      rcases ih ((expand (pre ++ item ++ post)).text.take pre.length) with
        ⟨text, hmem, hne, heq⟩ | heq
      · exact Or.inl ⟨text, List.mem_cons_of_mem _ hmem, hne, heq⟩
      · exact Or.inr heq

/-- Each call is for a line with fewer ranges. -/
theorem count_itemLines {ranges : Nat} (hover : ∀ text, Overwritten text (expand text).text)
    {items : List (List Char)} (hitems : ∀ item ∈ items, '{' ∉ item) {pre : List Char}
    (hpre : pre.count '{' + post.count '{' < ranges) :
    ∀ text ∈ itemLines expand post pre items, text.count '{' < ranges := by
  induction items generalizing pre with
  | nil => exact List.forall_mem_nil _
  | cons item items ih =>
    obtain ⟨hitem, hitems⟩ := List.forall_mem_cons.1 hitems
    rw [itemLines, List.forall_mem_cons]
    constructor
    · rw [List.count_append, List.count_append, List.count_eq_zero_of_not_mem hitem]
      omega
    · split
      · exact List.forall_mem_nil _
      · apply ih hitems
        -- the text in front for the next item has no more ranges than before
        have hleft := (hover (pre ++ item ++ post)).take pre.length
        rw [List.append_assoc, List.take_left' rfl, ← List.append_assoc] at hleft
        exact lt_of_le_of_lt
          (Nat.add_le_add_right (hleft.count_le (by decide)) _) hpre

end Iterate

/-! ## Failures -/

/-- The loop over the range of the line counts its `int` past the largest one. -/
def CountsOver (env : ExpandEnv) (text : List Char) : Prop :=
  ∃ pre body post start stop,
    scanLine .rgUNDECIDED [] text = .range .rgRANGE pre body post ∧
      rangeBounds env.plat body post = .ok (start, stop) ∧ (stop : Int) = intMax

section Failures

variable {env : ExpandEnv} {text : List Char}

theorem count_callsOf {text' : List Char} (h : text' ∈ callsOf env text) :
    text'.count '{' < text.count '{' := by
  rw [callsOf] at h
  split at h
  · next type pre body post hscan =>
    obtain ⟨hbody, front, hpre, htext, hfront⟩ := scanLine_range hscan
    rw [List.nil_append] at hpre
    subst hpre
    split at h
    · next items hitems =>
      apply count_itemLines (fun text => expandRanges_overwritten env _ text)
        (fun item => not_mem_item hbody hitems) _ text' h
      rw [htext, List.count_append, List.count_cons_self, List.count_append, List.count_cons]
      omega
    · cases h
  · cases h

/-- A call fails when a call that it makes fails. -/
theorem failed_of_callsOf {text' : List Char} {f : Failure} (h : text' ∈ callsOf env text)
    (hf : (expandLine env text').failed = some f) : (expandLine env text).failed = some f := by
  rw [expandLine_eq, expandStep]
  rw [callsOf] at h
  split at h
  · next type pre body post hscan =>
    rw [hscan]
    dsimp only
    split at h
    · next items hitems =>
      rw [hitems]
      exact iterate_of_failed h hf
    · cases h
  · cases h

theorem failed_of_called {text' : List Char} {f : Failure} (h : Called env text text')
    (hf : (expandLine env text').failed = some f) : (expandLine env text).failed = some f := by
  induction h using Relation.ReflTransGen.head_induction_on with
  | refl => exact hf
  | head hcall _ ih => exact failed_of_callsOf hcall ih

/-- A counter that runs over does so in a call that is made, or in the loop of this one. -/
theorem overflow_cases (h : (expandLine env text).failed = some .overflow) :
    (∃ text' ∈ callsOf env text, (expandLine env text').failed = some .overflow) ∨
      CountsOver env text := by
  rw [expandLine_eq, expandStep] at h
  rw [callsOf]
  split at h
  · cases h
  · cases h
  · next type pre body post hscan =>
    rw [hscan]
    dsimp only
    split at h
    · cases h
    · next items hitems =>
      rw [hitems]
      dsimp only at h ⊢
      rcases iterate_cases (expandLine env) post items.last pre items.items with
        ⟨text', hmem, -, heq⟩ | heq
      · exact Or.inl ⟨text', hmem, heq.symm.trans h⟩
      · refine Or.inr ?_
        rw [heq] at h
        -- only the counter of a range runs over
        cases type with
        | rgUNDECIDED => cases hitems
        | rgLIST =>
          cases hitems
          cases h
        | rgRANGE =>
          simp only [rangeItems, iterateRange] at hitems
          split at hitems
          · cases hitems
          · next start stop hbounds =>
            cases hitems
            refine ⟨pre, body, post, start, stop, hscan, hbounds, ?_⟩
            by_contra hne
            rw [countUp] at h
            simp [hne] at h

/-- A counter that runs over does so in the loop of some call. -/
theorem exists_countsOver (h : (expandLine env text).failed = some .overflow) :
    ∃ text', Called env text text' ∧ (expandLine env text').failed = some .overflow ∧
      CountsOver env text' := by
  -- the calls have fewer and fewer ranges
  induction hn : text.count '{' using Nat.strong_induction_on generalizing text with
  | _ n ih =>
    rcases overflow_cases h with ⟨text', hmem, hf⟩ | hover
    · obtain ⟨text'', hcalled, hf', hover⟩ := ih _ (hn ▸ count_callsOf hmem) hf rfl
      exact ⟨text'', Relation.ReflTransGen.head hmem hcalled, hf', hover⟩
    · exact ⟨text, Relation.ReflTransGen.refl, h, hover⟩

/-- In an expansion that does not fail the counter stays below the largest `int`. -/
theorem not_countsOver (h : (expandLine env text).failed = none) : ¬ CountsOver env text := by
  rintro ⟨pre, body, post, start, stop, hscan, hbounds, hstop⟩
  rw [expandLine_eq, expandStep, hscan] at h
  simp only [rangeItems, iterateRange, hbounds] at h
  rcases iterate_cases (expandLine env) post (countUp env start stop).last pre
    (countUp env start stop).items with ⟨text', -, hne, heq⟩ | heq
  · exact hne (heq.symm.trans h)
  · rw [h, countUp] at heq
    simp [hstop] at heq

end Failures

/-! ## The numbers of a range -/

/-- A number: one or more decimal digits. -/
def IsNumber (text : List Char) : Prop := text ≠ [] ∧ IsDigits text

/-- The range of the line, unless it is rejected or has no numbers at both ends, is expanded to the
numbers as they are written, each once and in their order. -/
def ExactRange (env : ExpandEnv) (text : List Char) : Prop :=
  ∀ pre post items first last,
    scanLine .rgUNDECIDED [] text = .range .rgRANGE pre (Range.fromTo first last).body post →
      IsNumber first → IsNumber last →
        rangeItems env .rgRANGE (Range.fromTo first last).body post = .ok items →
          items.items = (Range.fromTo first last).items

/-- Both ends of the range of the line are `int`s as they are written, and the counter does not run
over the largest `int`. -/
def FitsInt (env : ExpandEnv) (text : List Char) : Prop :=
  ¬ CountsOver env text ∧
    ∀ pre post items first last,
      scanLine .rgUNDECIDED [] text = .range .rgRANGE pre (Range.fromTo first last).body post →
        IsNumber first → IsNumber last →
          rangeItems env .rgRANGE (Range.fromTo first last).body post = .ok items →
            digitsValue 10 first < 2 ^ 31 ∧ digitsValue 10 last < 2 ^ 31

theorem decimal_injective : Function.Injective decimal := by
  intro n m h
  have hdigits := congrArg (fun l => Nat.ofDigitChars 10 l 0) h
  simpa only [decimal, Nat.ofDigitChars_toDigits (by decide : 1 < 10) le_rfl] using hdigits

/-- Lists of successive numbers are equal when their texts are. -/
theorem range'_inj_of_decimal {start stop start' stop' : Nat} (hle : start ≤ stop)
    (h : (List.range' start (stop + 1 - start)).map decimal =
      (List.range' start' (stop' + 1 - start')).map decimal) : start = start' ∧ stop = stop' := by
  have hrange := List.map_injective_iff.2 decimal_injective h
  have hlen := congrArg List.length hrange
  rw [List.length_range', List.length_range'] at hlen
  have hfirst := congrArg List.head? hrange
  rw [List.head?_range', List.head?_range', if_neg (by omega), if_neg (by omega),
    Option.some.injEq] at hfirst
  omega

theorem exactRange_of_fitsInt {env : ExpandEnv} {text : List Char} (h : FitsInt env text) :
    ExactRange env text := by
  intro pre post items first last hscan hfirst hlast hitems
  obtain ⟨hlt, hlt'⟩ := h.2 pre post items first last hscan hfirst hlast hitems
  obtain ⟨start, stop, hbounds, -, -, heq⟩ := rangeItems_ok hitems
  rw [Range.rangeBounds_fromTo env.plat hfirst hlast hlt hlt'] at hbounds
  split_ifs at hbounds
  cases hbounds
  exact heq

/-- A range with an exact expansion that ends is within the `int`s. -/
theorem fitsInt_of_exactRange {env : ExpandEnv} {text : List Char} (h : ExactRange env text)
    (hover : ¬ CountsOver env text) : FitsInt env text := by
  refine ⟨hover, ?_⟩
  intro pre post items first last hscan hfirst hlast hitems
  have hexact := h pre post items first last hscan hfirst hlast hitems
  obtain ⟨start, stop, hbounds, hle, hmax, heq⟩ := rangeItems_ok hitems
  rw [heq, Range.items] at hexact
  obtain ⟨rfl, rfl⟩ := range'_inj_of_decimal hle hexact
  rw [intMax] at hmax
  omega

/-! ## Lines -/

/-- The expansion of the line ends with an error. -/
def Rejected (env : ExpandEnv) (text : List Char) : Prop :=
  ∃ e, (expandLine env text).failed = some (.error e)

/-- The expansion of the line ends, and each range in it that is not rejected is expanded to its
numbers. -/
def ExpandsExactly (env : ExpandEnv) (text : List Char) : Prop :=
  (expandLine env text).failed ≠ some .overflow ∧
    ∀ text', Called env text text' → ¬ Rejected env text' → ExactRange env text'

/-- Which lines are expanded as they are written: those in which both ends of each range that is not
rejected are numbers below `2 ^ 31` and the last one is not the largest `int`. -/
theorem expandsExactly_iff (env : ExpandEnv) (text : List Char) :
    ExpandsExactly env text ↔
      ∀ text', Called env text text' → ¬ Rejected env text' → FitsInt env text' := by
  constructor
  · rintro ⟨hends, hexact⟩ text' hcalled hrejected
    apply fitsInt_of_exactRange (hexact text' hcalled hrejected)
    apply not_countsOver
    cases hf : (expandLine env text').failed with
    | none => rfl
    | some f =>
      cases f with
      | error e => exact absurd ⟨e, hf⟩ hrejected
      | overflow => exact absurd (failed_of_called hcalled hf) hends
  · intro hfits
    constructor
    · intro hover
      obtain ⟨text', hcalled, hf, hcounts⟩ := exists_countsOver hover
      have hrejected : ¬ Rejected env text' := by
        rintro ⟨e, he⟩
        rw [hf] at he
        cases he
      exact (hfits text' hcalled hrejected).1 hcounts
    · intro text' hcalled hrejected
      exact exactRange_of_fitsInt (hfits text' hcalled hrejected)

/-- The line `10.0.0.{1-4294967297}` is expanded to one line, and the counter of
`10.0.0.{2147483646-2147483647}` runs over. -/
theorem narrowed_ranges :
    ¬ ExpandsExactly referenceEnv "10.0.0.{1-4294967297}".toList ∧
      ¬ ExpandsExactly referenceEnv "10.0.0.{2147483646-2147483647}".toList := by
  constructor
  · rintro ⟨-, h⟩
    have hrejected : ¬ Rejected referenceEnv "10.0.0.{1-4294967297}".toList := by
      rintro ⟨e, he⟩
      cases he
    have hexact := h _ Relation.ReflTransGen.refl hrejected "10.0.0.".toList [] ⟨[['1']], none⟩
      ['1'] "4294967297".toList rfl ⟨by decide, by decide⟩ ⟨by decide, by decide⟩ rfl
    have hlen := congrArg List.length hexact
    rw [Range.items, List.length_map, List.length_range'] at hlen
    exact absurd hlen (by decide)
  · rintro ⟨h, -⟩
    exact h rfl

end IpSentinel.BlackList

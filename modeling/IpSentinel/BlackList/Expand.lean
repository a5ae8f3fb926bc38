import IpSentinel.BlackList.Overwriting
import IpSentinel.Foundation.Lines

/-!
# Expanding a line

`BlackList_expandLine` looks for the first range of a line, and calls itself for each item of the
range with the line in which the item stands in place of the range. A line without ranges goes to
`BlackList_parseLine`. The lines for the items are built in one buffer: the text in front of the
range is copied into it once, and only what is behind it is written for each item. So each call
answers the line as it leaves it, and the text in front of the range is taken from there for the
next item.

`expandLine_eq` is the recursion of the source; the definition counts down the ranges that are left.
-/

set_option autoImplicit false

namespace IpSentinel.BlackList

open Foundation

/-- What the expansion reads besides the line: the environment of the parser, and `fmt_uint` of the
library, which writes the decimal digits of an `unsigned int`. -/
structure ExpandEnv extends ParseEnv where
  fmtUint : Nat → List Char
  fmtUint_eq : ∀ n, n < 2 ^ 32 → fmtUint n = decimal n

/-- The kinds of ranges. -/
inductive RangeType where
  | rgUNDECIDED
  | rgLIST
  | rgRANGE
  deriving DecidableEq, Repr

/-- The errors of `BlackList_expandLine` and the functions that iterate over a range. -/
inductive ExpandError where
  | nestedRange
  | unexpectedEnd
  | mixedTypes
  | nonDigit
  | undecided
  | notClosed
  | rangeStart
  | rangeEnd
  | negative
  | descending
  | rangeOverrun
  deriving DecidableEq, Repr

/-- The message of an error, behind the line number. -/
def ExpandError.message : ExpandError → List Char
  | .nestedRange => ": nested ranges are not allowed\n".toList
  | .unexpectedEnd => ": unexpected end of range\n".toList
  | .mixedTypes => ": mixed range-types not allowed\n".toList
  | .nonDigit => ": non-digits not allowed as range-marks\n".toList
  | .undecided => ": can not parse range\n".toList
  | .notClosed => ": range not closed\n".toList
  | .rangeStart => ": unexpected error while parsing a range\n".toList
  | .rangeEnd => ": range not terminated correctly\n".toList
  | .negative => ": negative values are not allowed in ranges\n".toList
  | .descending => ": descending ranges are not allowed\n".toList
  | .rangeOverrun => ": unexpected error while parsing range\n".toList

/-- Why an expansion stops: an error, or a counter that runs over the largest `int`, which C leaves
undefined. -/
inductive Failure where
  | error (e : ExpandError)
  | overflow
  deriving DecidableEq

/-- What an expansion does: why it failed, if it did, the outcomes of the calls of
`BlackList_parseLine` in their order, and the line as the expansion leaves it. -/
structure Expansion where
  failed : Option Failure
  outcomes : List Outcome
  text : List Char
  deriving DecidableEq

/-! ## Finding a range -/

/-- What the loop of `BlackList_expandLine` finds: an error, no range up to the end of the line or
the comment, or a range with the text in front of it, its body and the text behind it. -/
inductive Scan where
  | error (e : ExpandError)
  | plain
  | range (type : RangeType) (pre body post : List Char)
  deriving DecidableEq

/-- The type after a `-` or a `,`, unless it is a mismatch. -/
def RangeType.mark (type : RangeType) (c : Char) : Option RangeType :=
  let marked := if c = '-' then rgRANGE else rgLIST
  if type ≠ rgUNDECIDED ∧ type ≠ marked then none else some marked

/-- The loop behind a `{`. -/
def scanRange (type : RangeType) (pre body : List Char) : List Char → Scan
  | [] => .error .notClosed
  | c :: text =>
    -- a comment ends the line, and so the range is not closed
    if c = '#' then .error .notClosed
    else if c = '{' then .error .nestedRange
    else if c = '}' then .range type pre body text
    else if c = '-' ∨ c = ',' then
      match type.mark c with
      | none => .error .mixedTypes
      | some type => scanRange type pre (body ++ [c]) text
    else if c.isDigit then scanRange type pre (body ++ [c]) text
    else .error .nonDigit

/-- The loop outside of a range. -/
def scanLine (type : RangeType) (pre : List Char) : List Char → Scan
  | [] => .plain
  | c :: text =>
    if c = '#' then .plain
    -- the type is reset at the `{`, whatever stands in front
    else if c = '{' then scanRange .rgUNDECIDED pre [] text
    else if c = '}' then .error .unexpectedEnd
    else if c = '-' ∨ c = ',' then
      match type.mark c with
      | none => .error .mixedTypes
      | some type => scanLine type (pre ++ [c]) text
    else scanLine type (pre ++ [c]) text

/-! ## The items of a range -/

/-- The items of a range, and what happens behind the last one. -/
structure Items where
  items : List (List Char)
  last : Option Failure

/-- The items `BlackList_iterateList` goes through. -/
def iterateList (body : List Char) : Items := ⟨body.splitOn ',', none⟩

/-- The numbers at both ends of a range, in front of the loop of `BlackList_iterateRange`. -/
def rangeBounds (plat : Platform) (body post : List Char) : Except ExpandError (Nat × Nat) :=
  let (first, used) := strtol plat 10 (body ++ '}' :: post)
  let start := toInt first
  let behind := (body ++ '}' :: post).drop used
  if behind.head? ≠ some '-' then .error .rangeStart
  else
    -- the number behind the `-`, read up to the `}` and not further than it
    let (second, used') := strtol plat 10 behind.tail
    let stop := toInt second
    if (behind.tail.drop used').head? ≠ some '}' then .error .rangeEnd
    else if start < 0 ∨ stop < 0 then .error .negative
    else if start > stop then .error .descending
    else if used + 1 + used' > body.length then .error .rangeOverrun
    else .ok (start.toNat, stop.toNat)

/-- The numbers from `start` to `stop`. -/
def countUp (env : ExpandEnv) (start stop : Nat) : Items :=
  ⟨(List.range' start (stop + 1 - start)).map env.fmtUint,
    if stop = intMax then some .overflow else none⟩

/-- The items `BlackList_iterateRange` goes through. -/
def iterateRange (env : ExpandEnv) (body post : List Char) : Except ExpandError Items :=
  match rangeBounds env.plat body post with
  | .error e => .error e
  | .ok (start, stop) => .ok (countUp env start stop)

/-- The items of a range of the given type. -/
def rangeItems (env : ExpandEnv) (type : RangeType) (body post : List Char) :
    Except ExpandError Items :=
  match type with
  | .rgUNDECIDED => .error .undecided
  | .rgLIST => .ok (iterateList body)
  | .rgRANGE => iterateRange env body post

/-! ## The expansion -/

/-- The loop over the items of a range, with the text in front of the range as the call for the
item before left it. -/
def iterate (expand : List Char → Expansion) (post : List Char) (last : Option Failure) :
    List Char → List (List Char) → Option Failure × List Outcome
  | _, [] => (last, [])
  | pre, item :: items =>
    let r := expand (pre ++ item ++ post)
    match r.failed with
    -- the loop ends, and the items behind are not expanded
    | some failure => (some failure, r.outcomes)
    | none =>
      let rest := iterate expand post last (r.text.take pre.length) items
      (rest.1, r.outcomes ++ rest.2)

/-- The body of `BlackList_expandLine`, with the function for the recursive calls. -/
def expandStep (env : ExpandEnv) (expand : List Char → Expansion) (text : List Char) :
    Expansion :=
  match scanLine .rgUNDECIDED [] text with
  | .error e => ⟨some (.error e), [], text⟩
  | .plain =>
    let r := parseLine env.toParseEnv text
    ⟨none, [r.1], r.2⟩
  | .range type pre body post =>
    match rangeItems env type body post with
    | .error e => ⟨some (.error e), [], text⟩
    | .ok items =>
      let r := iterate expand post items.last pre items.items
      ⟨r.1, r.2, text⟩

/-- The expansion of a line with at most so many ranges. -/
def expandRanges (env : ExpandEnv) : Nat → List Char → Expansion
  | 0, text => expandStep env (fun text => ⟨none, [], text⟩) text
  | ranges + 1, text => expandStep env (expandRanges env ranges) text

/-- `BlackList_expandLine`. -/
def expandLine (env : ExpandEnv) (text : List Char) : Expansion :=
  expandRanges env (text.count '{') text

/-! ## The outcomes -/

section Outcomes

variable {env : ExpandEnv} {P : Outcome → Prop}

theorem forall_mem_iterate {expand : List Char → Expansion} {post : List Char}
    {last : Option Failure} (h : ∀ text, ∀ o ∈ (expand text).outcomes, P o) (pre : List Char)
    (items : List (List Char)) : ∀ o ∈ (iterate expand post last pre items).2, P o := by
  induction items generalizing pre with
  | nil => exact List.forall_mem_nil _
  | cons item items ih =>
    rw [iterate]
    dsimp only
    split
    · exact h _
    · intro o ho
      rcases List.mem_append.1 ho with ho | ho
      · exact h _ o ho
      · exact ih _ o ho

theorem forall_mem_expandStep {expand : List Char → Expansion}
    (hparse : ∀ text, P (parseLine env.toParseEnv text).1)
    (h : ∀ text, ∀ o ∈ (expand text).outcomes, P o) (text : List Char) :
    ∀ o ∈ (expandStep env expand text).outcomes, P o := by
  rw [expandStep]
  split
  · exact List.forall_mem_nil _
  · exact List.forall_mem_singleton.2 (hparse text)
  · split
    · exact List.forall_mem_nil _
    · exact forall_mem_iterate h _ _

theorem forall_mem_expandRanges (hparse : ∀ text, P (parseLine env.toParseEnv text).1)
    (ranges : Nat) (text : List Char) : ∀ o ∈ (expandRanges env ranges text).outcomes, P o := by
  induction ranges generalizing text with
  | zero => exact forall_mem_expandStep hparse (fun _ => List.forall_mem_nil _) text
  | succ ranges ih => exact forall_mem_expandStep hparse ih text

/-- What holds of all outcomes of the parser holds of the outcomes of an expansion. -/
theorem forall_mem_expandLine (hparse : ∀ text, P (parseLine env.toParseEnv text).1)
    (text : List Char) : ∀ o ∈ (expandLine env text).outcomes, P o :=
  forall_mem_expandRanges hparse _ text

end Outcomes

/-! ## The recursion -/

/-- A range that is found splits the text. -/
theorem scanRange_range {type type' : RangeType} {pre pre' body body' text post : List Char}
    (h : scanRange type pre body text = .range type' pre' body' post) :
    pre' = pre ∧ ∃ marks, body' = body ++ marks ∧ text = marks ++ '}' :: post ∧
      ∀ c ∈ marks, c.isDigit ∨ c = '-' ∨ c = ',' := by
  induction text generalizing type body with
  | nil => cases h
  | cons c text ih =>
    -- a mark or a digit is appended to the body
    have hstep : ∀ {type₁ : RangeType}, c.isDigit ∨ c = '-' ∨ c = ',' →
        scanRange type₁ pre (body ++ [c]) text = .range type' pre' body' post →
        pre' = pre ∧ ∃ marks, body' = body ++ marks ∧ c :: text = marks ++ '}' :: post ∧
          ∀ d ∈ marks, d.isDigit ∨ d = '-' ∨ d = ',' := by
      intro type₁ hc h'
      obtain ⟨hpre, marks, hbody, htext, hmarks⟩ := ih h'
      refine ⟨hpre, c :: marks, ?_, ?_, List.forall_mem_cons.2 ⟨hc, hmarks⟩⟩
      · rw [hbody, List.append_assoc]
        rfl
      · rw [htext]
        rfl
    rw [scanRange] at h
    split_ifs at h with _ _ hend hmark hdigit
    · cases h
      exact ⟨rfl, [], (List.append_nil _).symm, by rw [hend]; rfl, nofun⟩
    · split at h
      · cases h
      · exact hstep (Or.inr hmark) h
    · exact hstep (Or.inl hdigit) h

/-- The body of the first range holds digits and the marks of a range. -/
def IsBody (body : List Char) : Prop := ∀ c ∈ body, c.isDigit ∨ c = '-' ∨ c = ','

theorem scanLine_range {type type' : RangeType} {pre pre' body text post : List Char}
    (h : scanLine type pre text = .range type' pre' body post) :
    IsBody body ∧ ∃ front, pre' = pre ++ front ∧ text = front ++ '{' :: (body ++ '}' :: post) ∧
      '{' ∉ front := by
  induction text generalizing type pre with
  | nil => cases h
  | cons c text ih =>
    -- any other character is appended to the text in front
    have hstep : ∀ {type₁ : RangeType}, c ≠ '{' →
        scanLine type₁ (pre ++ [c]) text = .range type' pre' body post →
        IsBody body ∧ ∃ front, pre' = pre ++ front ∧
          c :: text = front ++ '{' :: (body ++ '}' :: post) ∧ '{' ∉ front := by
      intro type₁ hc h'
      obtain ⟨hmarks, front, hpre, htext, hfront⟩ := ih h'
      refine ⟨hmarks, c :: front, ?_, ?_, ?_⟩
      · rw [hpre, List.append_assoc]
        rfl
      · rw [htext]
        rfl
      · rw [List.mem_cons]
        exact not_or_intro hc.symm hfront
    rw [scanLine] at h
    split_ifs at h with _ hopen _ hmark
    · obtain ⟨hpre, marks, hbody, htext, hmarks⟩ := scanRange_range h
      rw [List.nil_append] at hbody
      refine ⟨hbody ▸ hmarks, [], by rw [hpre, List.append_nil], ?_, List.not_mem_nil⟩
      rw [hopen, hbody, htext]
      rfl
    · split at h
      · cases h
      · exact hstep hopen h
    · exact hstep hopen h

/-- The ends of a range are two `int`s in ascending order. -/
theorem rangeBounds_ok {plat : Platform} {body post : List Char} {start stop : Nat}
    (h : rangeBounds plat body post = .ok (start, stop)) :
    start ≤ stop ∧ (stop : Int) ≤ intMax := by
  simp only [rangeBounds] at h
  split_ifs at h with _ _ hneg hdesc
  simp only [Except.ok.injEq, Prod.mk.injEq] at h
  obtain ⟨rfl, rfl⟩ := h
  have hmax : ∀ x, toInt x ≤ intMax := fun x => Int.bmod_le (by decide)
  refine ⟨by omega, ?_⟩
  rw [Int.toNat_of_nonneg (by omega)]
  exact hmax _

/-- The items of an ascending range are decimal numbers. -/
theorem items_countUp (env : ExpandEnv) {start stop : Nat} (h : (stop : Int) ≤ intMax) :
    (countUp env start stop).items = (List.range' start (stop + 1 - start)).map decimal := by
  apply List.map_congr_left
  intro n hn
  apply env.fmtUint_eq
  have hn' := List.mem_range'_1.1 hn
  rw [intMax] at h
  omega

/-- The items of a range that is accepted are the numbers between two `int`s. -/
theorem rangeItems_ok {env : ExpandEnv} {body post : List Char} {items : Items}
    (h : rangeItems env .rgRANGE body post = .ok items) :
    ∃ start stop, rangeBounds env.plat body post = .ok (start, stop) ∧ start ≤ stop ∧
      (stop : Int) ≤ intMax ∧
      items.items = (List.range' start (stop + 1 - start)).map decimal := by
  simp only [rangeItems, iterateRange] at h
  split at h
  · cases h
  · next start stop hbounds =>
    cases h
    obtain ⟨hle, hmax⟩ := rangeBounds_ok hbounds
    exact ⟨start, stop, hbounds, hle, hmax, items_countUp env hmax⟩

/-- The items of a range have no range in them. -/
theorem not_mem_item {env : ExpandEnv} {type : RangeType} {body post : List Char} {items : Items}
    (hbody : IsBody body) (h : rangeItems env type body post = .ok items) {item : List Char}
    (hitem : item ∈ items.items) : '{' ∉ item := by
  intro hopen
  cases type with
  | rgUNDECIDED => cases h
  | rgLIST =>
    cases h
    rcases hbody '{' (mem_of_mem_splitOn hitem hopen) with h | h | h <;> exact absurd h (by decide)
  | rgRANGE =>
    obtain ⟨start, stop, -, -, -, hitems⟩ := rangeItems_ok h
    rw [hitems] at hitem
    obtain ⟨n, -, rfl⟩ := List.mem_map.1 hitem
    exact absurd (isDigit_of_mem_decimal hopen) (by decide)

/-- The line an expansion leaves has NULs in place of some characters. -/
theorem expandStep_overwritten (env : ExpandEnv) (expand : List Char → Expansion)
    (text : List Char) : Overwritten text (expandStep env expand text).text := by
  rw [expandStep]
  split
  · exact Overwritten.refl text
  · exact parseLine_writesNul env.toParseEnv text
  · split
    · exact Overwritten.refl text
    · exact Overwritten.refl text

theorem expandRanges_overwritten (env : ExpandEnv) (ranges : Nat) (text : List Char) :
    Overwritten text (expandRanges env ranges text).text := by
  cases ranges with
  | zero => exact expandStep_overwritten env _ text
  | succ ranges => exact expandStep_overwritten env _ text

/-- The loop calls the function for texts with fewer ranges. -/
theorem iterate_congr {expand expand' : List Char → Expansion} {ranges : Nat} {post : List Char}
    (hsame : ∀ text, text.count '{' < ranges → expand text = expand' text)
    (hover : ∀ text, Overwritten text (expand text).text) (last : Option Failure)
    {items : List (List Char)} (hitems : ∀ item ∈ items, '{' ∉ item) {pre : List Char}
    (hpre : pre.count '{' + post.count '{' < ranges) :
    iterate expand post last pre items = iterate expand' post last pre items := by
  induction items generalizing pre with
  | nil => rfl
  | cons item items ih =>
    obtain ⟨hitem, hitems⟩ := List.forall_mem_cons.1 hitems
    have hcall : expand (pre ++ item ++ post) = expand' (pre ++ item ++ post) := by
      apply hsame
      rw [List.count_append, List.count_append, List.count_eq_zero_of_not_mem hitem]
      omega
    -- the text in front for the next item has no more ranges than before
    have hleft := (hover (pre ++ item ++ post)).take pre.length
    rw [List.append_assoc, List.take_left' rfl, ← List.append_assoc, hcall] at hleft
    have hcount := hleft.count_le (c := '{') (by decide)
    have hrest := ih hitems (lt_of_le_of_lt (Nat.add_le_add_right hcount _) hpre)
    rw [iterate, iterate, hcall]
    simp only [hrest]

theorem expandStep_congr (env : ExpandEnv) {expand expand' : List Char → Expansion}
    {text : List Char}
    (hsame : ∀ text', text'.count '{' < text.count '{' → expand text' = expand' text')
    (hover : ∀ text', Overwritten text' (expand text').text) :
    expandStep env expand text = expandStep env expand' text := by
  rw [expandStep, expandStep]
  split
  · rfl
  · rfl
  · next type pre body post hscan =>
    obtain ⟨hbody, front, hpre, htext, hfront⟩ := scanLine_range hscan
    rw [List.nil_append] at hpre
    subst hpre
    split
    · rfl
    · next items hitems =>
      rw [iterate_congr hsame hover items.last (fun item => not_mem_item hbody hitems)]
      rw [htext, List.count_append, List.count_cons_self, List.count_append, List.count_cons]
      omega

/-- More ranges than there are left make no difference. -/
theorem expandRanges_eq (env : ExpandEnv) {n m : Nat} {text : List Char}
    (hn : text.count '{' ≤ n) (hm : text.count '{' ≤ m) :
    expandRanges env n text = expandRanges env m text := by
  -- both count down in step; the one that is at 0 finds no range
  induction n generalizing m text with
  | zero =>
    cases m with
    | zero => rfl
    | succ m => exact expandStep_congr env (fun _ h => by omega) fun text => Overwritten.refl text
  | succ n ih =>
    cases m with
    | zero =>
      exact expandStep_congr env (fun _ h => by omega) (expandRanges_overwritten env n)
    | succ m =>
      exact expandStep_congr env (fun _ h => ih (by omega) (by omega))
        (expandRanges_overwritten env n)

/-- `BlackList_expandLine` calls itself for the items of the first range. -/
theorem expandLine_eq (env : ExpandEnv) (text : List Char) :
    expandLine env text = expandStep env (expandLine env) text := by
  have hmore : expandLine env text = expandRanges env (text.count '{' + 1) text :=
    expandRanges_eq env (Nat.le_refl _) (Nat.le_succ _)
  rw [hmore]
  exact expandStep_congr env (fun _ h => expandRanges_eq env (by omega) (Nat.le_refl _))
    (expandRanges_overwritten env _)

end IpSentinel.BlackList

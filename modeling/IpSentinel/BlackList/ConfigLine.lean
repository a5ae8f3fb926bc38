import IpSentinel.BlackList.Expand

/-!
# Configuration lines with ranges

The syntax of a line as the manual page describes it: texts and ranges in turn, then a last text and
a comment. A range is `{from-to}` or `{item1,...,itemN}`, and the line stands for the lines of
`expansions`, in which the items take the places of the ranges.

The rest of the module says what one call of `BlackList_expandLine` does with such a line: it goes
through the items of the first range (`expandLine_range`), unless the text in front of it mixes the
marks of ranges or the range is a list of one item (`expandLine_mixed`, `expandLine_single`).
-/

set_option autoImplicit false

namespace IpSentinel.BlackList

open Foundation

/-! ## Lines -/

/-- The text of a number, or the empty text. -/
def IsDigits (text : List Char) : Prop := ∀ c ∈ text, c.isDigit

instance (text : List Char) : Decidable (IsDigits text) := List.decidableBAll _ text

/-- A range in a line, with its numbers and items as they are written. -/
inductive Range where
  | fromTo (first last : List Char)
  | list (items : List (List Char))
  deriving DecidableEq

namespace Range

/-- The text between the braces. -/
def body : Range → List Char
  | .fromTo first last => first ++ '-' :: last
  | .list items => [','].intercalate items

def text (r : Range) : List Char := '{' :: (r.body ++ ['}'])

/-- What the range stands for. -/
def items : Range → List (List Char)
  | .fromTo first last =>
    (List.range' (digitsValue 10 first)
      (digitsValue 10 last + 1 - digitsValue 10 first)).map decimal
  | .list items => items

/-- The range is ascending and within the `int`s, or has items; all of them are digits. -/
def WellFormed : Range → Prop
  | .fromTo first last =>
    (first ≠ [] ∧ IsDigits first) ∧ (last ≠ [] ∧ IsDigits last) ∧
      digitsValue 10 first ≤ digitsValue 10 last ∧ digitsValue 10 last < 2 ^ 31 - 1
  | .list items => items ≠ [] ∧ ∀ item ∈ items, IsDigits item

instance (r : Range) : Decidable r.WellFormed := by
  cases r <;> exact inferInstanceAs (Decidable (_ ∧ _))

/-- The type `BlackList_expandLine` finds. A list of one item has no mark of a range. -/
def type : Range → RangeType
  | .fromTo _ _ => .rgRANGE
  | .list items => if items.length = 1 then .rgUNDECIDED else .rgLIST

end Range

/-- A text without ranges and comments. -/
def IsPlain (text : List Char) : Prop := ∀ c ∈ text, c ≠ '{' ∧ c ≠ '}' ∧ c ≠ '#'

instance (text : List Char) : Decidable (IsPlain text) :=
  List.decidableBAll _ text

/-- The text of ranges and the texts in front of them, with `post` behind them. -/
def rangesText : List (List Char × Range) → List Char → List Char
  | [], post => post
  | (pre, r) :: parts, post => pre ++ (r.text ++ rangesText parts post)

/-- The cartesian expansion, the leftmost range in front. -/
def expansions : List (List Char × Range) → List Char → List (List Char)
  | [], post => [post]
  | (pre, r) :: parts, post =>
    r.items.flatMap fun item => (expansions parts post).map fun line => pre ++ (item ++ line)

/-- The texts between the ranges. -/
def plainText (parts : List (List Char × Range)) : List Char := parts.flatMap Prod.fst

/-- A line of the configuration file. -/
structure ConfigLine where
  parts : List (List Char × Range)
  tail : List Char
  comment : List Char
  parts_plain : IsPlain (plainText parts)
  ranges_wellFormed : ∀ part ∈ parts, part.2.WellFormed
  tail_plain : IsPlain tail
  comment_head : comment = [] ∨ comment.head? = some '#'

namespace ConfigLine

def text (line : ConfigLine) : List Char := rangesText line.parts (line.tail ++ line.comment)

/-- The lines the line stands for. -/
def expansions (line : ConfigLine) : List (List Char) :=
  BlackList.expansions line.parts (line.tail ++ line.comment)

end ConfigLine

/-! ## The marks of ranges -/

/-- The type behind a text, unless it has a mismatch. -/
def RangeType.after (type : RangeType) : List Char → Option RangeType
  | [] => some type
  | c :: text => if c = '-' ∨ c = ',' then (type.mark c).bind fun type => type.after text
    else type.after text

/-- The text has both marks. -/
def IsMixed (text : List Char) : Prop := '-' ∈ text ∧ ',' ∈ text

instance (text : List Char) : Decidable (IsMixed text) := inferInstanceAs (Decidable (_ ∧ _))

theorem after_rgLIST (text : List Char) :
    RangeType.rgLIST.after text = if '-' ∈ text then none else some .rgLIST := by
  induction text with
  | nil => rfl
  | cons c text ih =>
    by_cases hminus : c = '-'
    · subst hminus
      simp [RangeType.after, RangeType.mark]
    · by_cases hcomma : c = ','
      · subst hcomma
        simp [RangeType.after, RangeType.mark, ih]
      · simp [RangeType.after, hminus, hcomma, ih, Ne.symm hminus]

theorem after_rgRANGE (text : List Char) :
    RangeType.rgRANGE.after text = if ',' ∈ text then none else some .rgRANGE := by
  induction text with
  | nil => rfl
  | cons c text ih =>
    by_cases hcomma : c = ','
    · subst hcomma
      simp [RangeType.after, RangeType.mark]
    · by_cases hminus : c = '-'
      · subst hminus
        simp [RangeType.after, RangeType.mark, ih]
      · simp [RangeType.after, hminus, hcomma, ih, Ne.symm hcomma]

/-- Behind a text with both marks there is a mismatch, and else the type is that of its mark. -/
theorem after_rgUNDECIDED (text : List Char) :
    RangeType.rgUNDECIDED.after text =
      if IsMixed text then none
      else if '-' ∈ text then some .rgRANGE
      else if ',' ∈ text then some .rgLIST
      else some .rgUNDECIDED := by
  -- the first mark fixes the type, and the other one is a mismatch from there on
  induction text with
  | nil => rfl
  | cons c text ih =>
    by_cases hminus : c = '-'
    · subst hminus
      simp [RangeType.after, RangeType.mark, after_rgRANGE, IsMixed]
    · by_cases hcomma : c = ','
      · subst hcomma
        simp [RangeType.after, RangeType.mark, after_rgLIST, IsMixed]
        split_ifs <;> rfl
      · have hmixed : IsMixed (c :: text) ↔ IsMixed text := by
          simp [IsMixed, Ne.symm hminus, Ne.symm hcomma]
        simp [RangeType.after, hminus, hcomma, ih, hmixed, Ne.symm hminus, Ne.symm hcomma]

theorem scanLine_append {pre text : List Char} (htext : IsPlain text) (type : RangeType)
    (rest : List Char) :
    scanLine type pre (text ++ rest) =
      match type.after text with
      | none => .error .mixedTypes
      | some type => scanLine type (pre ++ text) rest := by
  induction text generalizing type pre with
  | nil => simp [RangeType.after]
  | cons c text ih =>
    obtain ⟨⟨hopen, hclose, hcomment⟩, htext⟩ := List.forall_mem_cons.1 htext
    by_cases hmark : c = '-' ∨ c = ','
    · cases htype : type.mark c with
      | none => simp [scanLine, RangeType.after, hopen, hclose, hcomment, hmark, htype]
      | some type' =>
        simp [scanLine, RangeType.after, hopen, hclose, hcomment, hmark, htype, ih htext]
    · simp [scanLine, RangeType.after, hopen, hclose, hcomment, hmark, ih htext]

theorem scanRange_append {pre body : List Char} {marks : List Char} (hmarks : IsBody marks)
    (type : RangeType) (rest : List Char) :
    scanRange type pre body (marks ++ rest) =
      match type.after marks with
      | none => .error .mixedTypes
      | some type => scanRange type pre (body ++ marks) rest := by
  induction marks generalizing type body with
  | nil => simp [RangeType.after]
  | cons c marks ih =>
    obtain ⟨hc, hmarks⟩ := List.forall_mem_cons.1 hmarks
    have hne : c ≠ '#' ∧ c ≠ '{' ∧ c ≠ '}' := by
      refine ⟨?_, ?_, ?_⟩ <;> rintro rfl <;> exact absurd hc (by decide)
    obtain ⟨hcomment, hopen, hclose⟩ := hne
    by_cases hmark : c = '-' ∨ c = ','
    · cases htype : type.mark c with
      | none => simp [scanRange, RangeType.after, hopen, hclose, hcomment, hmark, htype]
      | some type' =>
        simp [scanRange, RangeType.after, hopen, hclose, hcomment, hmark, htype, ih hmarks]
    · have hdigit := hc.resolve_right hmark
      simp [scanRange, RangeType.after, hopen, hclose, hcomment, hmark, hdigit, ih hmarks]

/-! ## The items of a range -/

theorem not_mem_of_isDigit {c : Char} {digits : List Char} (hdigits : IsDigits digits)
    (hc : c.isDigit = false) : c ∉ digits := by
  intro h
  rw [hdigits c h] at hc
  cases hc

namespace Range

theorem isBody {r : Range} (h : r.WellFormed) : IsBody r.body := by
  intro c hc
  cases r with
  | fromTo first last =>
    obtain ⟨⟨-, hfirst⟩, ⟨-, hlast⟩, -⟩ := h
    rcases List.mem_append.1 hc with hc | hc
    · exact Or.inl (hfirst c hc)
    · rcases List.mem_cons.1 hc with rfl | hc
      · exact Or.inr (Or.inl rfl)
      · exact Or.inl (hlast c hc)
  | list items =>
    rcases mem_intercalate.1 hc with ⟨rfl, -⟩ | ⟨item, hitem, hc⟩
    · exact Or.inr (Or.inr rfl)
    · exact Or.inl (h.2 item hitem c hc)

/-- `BlackList_iterateList` finds the items. -/
theorem splitOn_body {items : List (List Char)} (h : (list items).WellFormed) :
    (list items).body.splitOn ',' = items :=
  List.splitOn_intercalate ',' (fun item hitem => not_mem_of_isDigit (h.2 item hitem) rfl) h.1

/-- The loop finds the type of the range. -/
theorem after_body {r : Range} (h : r.WellFormed) :
    RangeType.rgUNDECIDED.after r.body = some r.type := by
  rw [after_rgUNDECIDED]
  cases r with
  | fromTo first last =>
    have hcomma : ',' ∉ first ++ '-' :: last := by
      simp [not_mem_of_isDigit h.1.2 (c := ',') rfl, not_mem_of_isDigit h.2.1.2 (c := ',') rfl]
    simp [IsMixed, body, type, hcomma]
  | list items =>
    have hminus : '-' ∉ (list items).body := by
      intro hc
      rcases mem_intercalate.1 hc with ⟨hc, -⟩ | ⟨item, hitem, hc⟩
      · cases hc
      · exact not_mem_of_isDigit (h.2 item hitem) rfl hc
    -- a comma stands between two items
    have hcomma : ',' ∈ (list items).body ↔ items.length ≠ 1 := by
      have hpos := List.length_pos_iff.2 h.1
      have hitems : ¬ ∃ item ∈ items, ',' ∈ item := by
        rintro ⟨item, hitem, hc⟩
        exact not_mem_of_isDigit (h.2 item hitem) rfl hc
      rw [body, mem_intercalate, or_iff_left hitems, and_iff_right rfl]
      omega
    simp only [IsMixed, hminus, false_and, if_false, hcomma, type]
    split_ifs <;> first | rfl | contradiction

/-- The ends of a range are read as they are written, while they are `int`s. -/
theorem rangeBounds_fromTo (plat : Platform) {first last post : List Char}
    (hfirst : first ≠ [] ∧ IsDigits first) (hlast : last ≠ [] ∧ IsDigits last)
    (hlt : digitsValue 10 first < 2 ^ 31) (hlt' : digitsValue 10 last < 2 ^ 31) :
    rangeBounds plat (fromTo first last).body post =
      if digitsValue 10 first > digitsValue 10 last then .error .descending
      else .ok (digitsValue 10 first, digitsValue 10 last) := by
  have htext : (fromTo first last).body ++ '}' :: post = first ++ '-' :: (last ++ '}' :: post) := by
    simp [body]
  have hread := strtol_decimal plat (last ++ '}' :: post) hfirst.1 hfirst.2 (c := '-') rfl hlt
  have hread' := strtol_decimal plat post hlast.1 hlast.2 (c := '}') rfl hlt'
  have hint : ∀ n : Nat, n < 2 ^ 31 → toInt (n : Int) = n := fun n hn =>
    toInt_of_range (by omega) (by omega)
  simp only [rangeBounds, htext, hread, List.drop_left, List.head?_cons, List.tail_cons, hread',
    hint _ hlt, hint _ hlt']
  rw [if_neg (by simp), if_neg (by simp), if_neg (by omega)]
  by_cases hdesc : digitsValue 10 first > digitsValue 10 last
  · rw [if_pos (by omega), if_pos hdesc]
  · rw [if_neg (by omega), if_neg (by simp [body]; omega), if_neg hdesc]
    simp

/-- The numbers of a range are read as they are written. -/
theorem rangeBounds_body {plat : Platform} {first last : List Char}
    (h : (fromTo first last).WellFormed) (post : List Char) :
    rangeBounds plat (fromTo first last).body post =
      .ok (digitsValue 10 first, digitsValue 10 last) := by
  obtain ⟨hfirst, hlast, hle, hlt⟩ := h
  rw [rangeBounds_fromTo plat hfirst hlast (by omega) (by omega), if_neg (by omega)]

/-- The functions that iterate over a range go through its items. -/
theorem rangeItems_body {env : ExpandEnv} {r : Range} (h : r.WellFormed)
    (htype : r.type ≠ .rgUNDECIDED) (post : List Char) :
    rangeItems env r.type r.body post = .ok ⟨r.items, none⟩ := by
  cases r with
  | fromTo first last =>
    have hmax : ((digitsValue 10 last : Nat) : Int) < intMax := by
      have hlt := h.2.2.2
      rw [intMax]
      omega
    -- the counter stops below the largest `int`
    simp only [type, rangeItems, iterateRange, rangeBounds_body h]
    rw [items, ← items_countUp env hmax.le, countUp, if_neg hmax.ne]
  | list items =>
    rw [type] at htype ⊢
    split_ifs at htype ⊢
    · exact absurd rfl htype
    · rw [rangeItems, iterateList, splitOn_body h, Range.items]

theorem items_digits {r : Range} (h : r.WellFormed) {item : List Char} (hitem : item ∈ r.items) :
    IsDigits item := by
  cases r with
  | fromTo first last =>
    obtain ⟨n, -, rfl⟩ := List.mem_map.1 hitem
    exact fun c hc => isDigit_of_mem_decimal hc
  | list items => exact h.2 item hitem

theorem items_ne_nil {r : Range} (h : r.WellFormed) : r.items ≠ [] := by
  cases r with
  | fromTo first last =>
    have hle := h.2.2.1
    simp only [items, ne_eq, List.map_eq_nil_iff, List.range'_eq_nil_iff]
    omega
  | list items => exact h.1

end Range

/-! ## One call -/

theorem after_eq_none_iff {text : List Char} :
    RangeType.rgUNDECIDED.after text = none ↔ IsMixed text := by
  rw [after_rgUNDECIDED]
  split_ifs <;> simp_all

variable (env : ExpandEnv) {pre : List Char}

/-- Both marks in front of a range, or in a line without ranges, are an error. -/
theorem expandLine_mixed (hpre : IsPlain pre) (hmixed : IsMixed pre) (rest : List Char) :
    expandLine env (pre ++ rest) = ⟨some (.error .mixedTypes), [], pre ++ rest⟩ := by
  rw [expandLine_eq, expandStep, scanLine_append hpre, after_eq_none_iff.2 hmixed]

/-- The first range is found. -/
theorem scanLine_part (hpre : IsPlain pre) (hmixed : ¬ IsMixed pre) {r : Range} (hr : r.WellFormed)
    (post : List Char) :
    scanLine .rgUNDECIDED [] (pre ++ (r.text ++ post)) = .range r.type pre r.body post := by
  rw [scanLine_append hpre]
  cases htype : RangeType.rgUNDECIDED.after pre with
  | none => exact absurd (after_eq_none_iff.1 htype) hmixed
  | some type =>
    have htext : r.text ++ post = '{' :: (r.body ++ '}' :: post) := by simp [Range.text]
    have hopen : scanLine type ([] ++ pre) ('{' :: (r.body ++ '}' :: post)) =
        scanRange .rgUNDECIDED ([] ++ pre) [] (r.body ++ '}' :: post) := by
      simp [scanLine]
    simp only [htext, hopen, scanRange_append (Range.isBody hr), Range.after_body hr]
    simp [scanRange]

/-- A list of one item is an error. -/
theorem expandLine_single (hpre : IsPlain pre) (hmixed : ¬ IsMixed pre) {r : Range}
    (hr : r.WellFormed) (htype : r.type = .rgUNDECIDED) (post : List Char) :
    expandLine env (pre ++ (r.text ++ post)) =
      ⟨some (.error .undecided), [], pre ++ (r.text ++ post)⟩ := by
  rw [expandLine_eq, expandStep, scanLine_part hpre hmixed hr]
  simp only [htype, rangeItems]

/-- The function calls itself for the items of the first range. -/
theorem expandLine_range (hpre : IsPlain pre) (hmixed : ¬ IsMixed pre) {r : Range}
    (hr : r.WellFormed) (htype : r.type ≠ .rgUNDECIDED) (post : List Char) :
    expandLine env (pre ++ (r.text ++ post)) =
      ⟨(iterate (expandLine env) post none pre r.items).1,
        (iterate (expandLine env) post none pre r.items).2, pre ++ (r.text ++ post)⟩ := by
  rw [expandLine_eq, expandStep, scanLine_part hpre hmixed hr]
  simp only [Range.rangeItems_body hr htype]

/-- A line without ranges goes to the parser. -/
theorem expandLine_plain (hpre : IsPlain pre) (hmixed : ¬ IsMixed pre) {comment : List Char}
    (hcomment : comment = [] ∨ comment.head? = some '#') :
    expandLine env (pre ++ comment) =
      ⟨none, [(parseLine env.toParseEnv (pre ++ comment)).1],
        (parseLine env.toParseEnv (pre ++ comment)).2⟩ := by
  rw [expandLine_eq, expandStep, scanLine_append hpre]
  cases htype : RangeType.rgUNDECIDED.after pre with
  | none => exact absurd (after_eq_none_iff.1 htype) hmixed
  | some type =>
    have hplain : scanLine type ([] ++ pre) comment = .plain := by
      rcases hcomment with rfl | hhead
      · rfl
      · cases comment with
        | nil => rfl
        | cons c comment =>
          rw [List.head?_cons, Option.some.injEq] at hhead
          simp [scanLine, hhead]
    simp only [hplain]

end IpSentinel.BlackList

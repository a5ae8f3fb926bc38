import IpSentinel.BlackList.Expand
import IpSentinel.Foundation.Memory

/-!
# The buffer of an expansion

Each call of `BlackList_expandLine` builds the lines for the items of a range in a buffer of
`end - start` characters, which it gets from `alloca`, and calls itself for the line in the buffer.
`expandLineBuffer` is the expansion with this buffer. It has no answer where a call writes outside
of its buffer, or reads a character that has not been written. `expandLineBuffer_eq` says that it
always answers as `expandLine`.
-/

set_option autoImplicit false

namespace IpSentinel.BlackList

open Foundation

/-! ## The functions of the source -/

/-- A buffer on the stack. A cell has no character before the first write. -/
abbrev LineBuffer := Block (Option Char)

/-- `alloca`. -/
def alloca (size : Nat) : LineBuffer := List.replicate size none

/-- Write characters into the buffer. -/
def write (buf : LineBuffer) (i : Nat) (text : List Char) : Option LineBuffer :=
  buf.store i (text.map some)

/-- The line of so many characters at the start of the buffer, with the NUL behind it. -/
def readLine (buf : LineBuffer) (length : Nat) : Option (List Char) :=
  if buf[length]? = some (some nul) then (buf.take length).mapM id else none

/-- The writes for an item: the item behind the prefix, what follows the range, and NUL. -/
def putItem (buf : LineBuffer) (prefixLen : Nat) (item post : List Char) : Option LineBuffer := do
  let len := item.length
  let buf ← write buf prefixLen item
  let buf ← write buf (prefixLen + len) post
  let len := len + post.length
  write buf (prefixLen + len) [nul]

/-- The loops of `BlackList_iterateList` and `BlackList_iterateRange`. The call for an item leaves
its line changed in the buffer. -/
def iterateBuffer (expand : List Char → Option Expansion) (prefixLen : Nat) (post : List Char)
    (last : Option Failure) :
    LineBuffer → List (List Char) → Option (Option Failure × List Outcome)
  | _, [] => some (last, [])
  | buf, item :: items => do
    let buf ← putItem buf prefixLen item post
    let text ← readLine buf (prefixLen + (item.length + post.length))
    let r ← expand text
    match r.failed with
    | some failure => some (some failure, r.outcomes)
    | none =>
      let buf ← write buf 0 r.text
      let rest ← iterateBuffer expand prefixLen post last buf items
      some (rest.1, r.outcomes ++ rest.2)

/-- The body of `BlackList_expandLine`, with the function for the recursive calls. -/
def expandStepBuffer (env : ExpandEnv) (expand : List Char → Option Expansion) (text : List Char) :
    Option Expansion :=
  let buf := alloca text.length
  match scanLine .rgUNDECIDED [] text with
  | .error e => some ⟨some (.error e), [], text⟩
  | .plain =>
    let r := parseLine env.toParseEnv text
    some ⟨none, [r.1], r.2⟩
  | .range type pre body post => do
    -- the text in front of the `{` is copied before the type of the range is looked at
    let buf ← write buf 0 pre
    match rangeItems env type body post with
    | .error e => some ⟨some (.error e), [], text⟩
    | .ok items =>
      let r ← iterateBuffer expand pre.length post items.last buf items.items
      some ⟨r.1, r.2, text⟩

/-- The expansion of a line with at most so many ranges. -/
def expandRangesBuffer (env : ExpandEnv) : Nat → List Char → Option Expansion
  | 0, text => expandStepBuffer env (fun _ => none) text
  | ranges + 1, text => expandStepBuffer env (expandRangesBuffer env ranges) text

/-- `BlackList_expandLine` with its buffers. -/
def expandLineBuffer (env : ExpandEnv) (text : List Char) : Option Expansion :=
  expandRangesBuffer env (text.count '{') text

/-! ## The length of an item -/

/-- The conversion to `int` gives no more digits than were read. -/
theorem toNat_toInt_lt {x : Int} {used : Nat} (h : x.natAbs < 10 ^ used) :
    (toInt x).toNat < 10 ^ used := by
  by_cases hrange : -2 ^ 31 ≤ x ∧ x < 2 ^ 31
  · rw [toInt_of_range hrange.1 hrange.2]
    omega
  · -- a value that is narrowed has ten digits
    have hused : 10 ≤ used := by
      by_contra hlt
      have hpow : 10 ^ used ≤ 10 ^ 9 := Nat.pow_le_pow_right (by norm_num) (by omega)
      omega
    have hpow : 10 ^ 10 ≤ 10 ^ used := Nat.pow_le_pow_right (by norm_num) hused
    have hmax : toInt x ≤ intMax := Int.bmod_le (by decide)
    rw [intMax] at hmax
    omega

/-- The body of a range has at least as many characters as the number at its end. -/
theorem rangeBounds_lt {plat : Platform} {body post : List Char} {start stop : Nat}
    (h : rangeBounds plat body post = .ok (start, stop)) :
    stop < 10 ^ body.length ∧ 0 < body.length := by
  simp only [rangeBounds] at h
  split_ifs at h with _ _ _ _ hused
  simp only [Except.ok.injEq, Prod.mk.injEq] at h
  obtain ⟨rfl, rfl⟩ := h
  rw [not_lt] at hused
  refine ⟨(toNat_toInt_lt (strtol_natAbs_lt plat (by decide) _)).trans_le ?_, by omega⟩
  exact Nat.pow_le_pow_right (by norm_num) ((Nat.le_add_left _ _).trans hused)

theorem length_decimal_le {n k : Nat} (h : n < 10 ^ k) (hk : 0 < k) : (decimal n).length ≤ k :=
  (Nat.length_toDigits_le_iff (by norm_num) hk).2 h

/-- No item is longer than the body of its range. -/
theorem length_item_le {env : ExpandEnv} {type : RangeType} {body post : List Char} {items : Items}
    (h : rangeItems env type body post = .ok items) {item : List Char}
    (hitem : item ∈ items.items) : item.length ≤ body.length := by
  cases type with
  | rgUNDECIDED => cases h
  | rgLIST =>
    cases h
    exact (sublist_of_mem_splitOn hitem).length_le
  | rgRANGE =>
    obtain ⟨start, stop, hbounds, -, -, hitems⟩ := rangeItems_ok h
    rw [hitems] at hitem
    obtain ⟨n, hn, rfl⟩ := List.mem_map.1 hitem
    obtain ⟨hstop, hbody⟩ := rangeBounds_lt hbounds
    have hn' := List.mem_range'_1.1 hn
    apply length_decimal_le _ hbody
    omega

/-- The line for an item, with the NUL behind it, is no longer than the line with the range. -/
theorem length_line_le {text : List Char} {type : RangeType} {pre body post : List Char}
    (h : scanLine .rgUNDECIDED [] text = .range type pre body post)
    {item : List Char} (hitem : item.length ≤ body.length) :
    pre.length + item.length + post.length + 1 ≤ text.length := by
  obtain ⟨-, front, hpre, htext, -⟩ := scanLine_range h
  rw [List.nil_append] at hpre
  rw [htext, hpre]
  simp only [List.length_append, List.length_cons]
  omega

/-! ## The buffer of a call -/

theorem length_alloca (size : Nat) : (alloca size).length = size := List.length_replicate

/-- Writing behind what is in the buffer. -/
theorem write_append (pre : List Char) {text : List Char} {rest : LineBuffer}
    (h : text.length ≤ rest.length) :
    write (pre.map some ++ rest) pre.length text =
      some ((pre ++ text).map some ++ rest.drop text.length) := by
  have hroom : (text.map some).length ≤ rest.length := by rwa [List.length_map]
  have hstore := Block.store_append (pre.map some) hroom
  rw [List.length_map, List.length_map] at hstore
  rw [write, hstore, List.map_append, List.append_assoc]

/-- The buffer with the line for an item. -/
theorem putItem_eq {pre item post : List Char} {rest : LineBuffer}
    (h : item.length + post.length + 1 ≤ rest.length) :
    putItem (pre.map some ++ rest) pre.length item post =
      some ((pre ++ item ++ post).map some ++
        some nul :: rest.drop (item.length + post.length + 1)) := by
  have hitem : item.length ≤ rest.length := by omega
  have hpost : post.length ≤ (rest.drop item.length).length := by
    rw [List.length_drop]
    omega
  have hnul : [nul].length ≤ ((rest.drop item.length).drop post.length).length := by
    rw [List.drop_drop, List.length_drop, List.length_singleton]
    omega
  simp only [putItem]
  rw [write_append pre hitem, Option.bind_eq_bind, Option.bind_some, ← List.length_append,
    write_append _ hpost, Option.bind_some, ← Nat.add_assoc, ← List.length_append,
    ← List.length_append, write_append _ hnul, List.map_append, List.drop_drop, List.drop_drop,
    List.append_assoc]
  rfl

/-- The line that has been written is read. -/
theorem readLine_append (text : List Char) (rest : LineBuffer) :
    readLine (text.map some ++ some nul :: rest) text.length = some text := by
  have hend : (text.map some ++ some nul :: rest)[text.length]? = some (some nul) := by
    rw [List.getElem?_append_right (by rw [List.length_map]), List.length_map, Nat.sub_self,
      List.getElem?_cons_zero]
  have hread : (text.map some).mapM id = some text := by
    rw [List.mapM_map]
    exact (List.mapM_pure (f := id)).trans (congrArg some (List.map_id _))
  rw [readLine, if_pos hend, List.take_left' (List.length_map _), hread]

/-- A changed line takes the place of the one in front of it. -/
theorem write_line {text text' : List Char} (h : text'.length = text.length) (rest : LineBuffer) :
    write (text.map some ++ rest) 0 text' = some (text'.map some ++ rest) := by
  have hroom : text'.length ≤ (text.map some ++ rest).length := by
    rw [List.length_append, List.length_map, h]
    exact Nat.le_add_right _ _
  have hwrite := write_append [] hroom
  rwa [List.map_nil, List.nil_append, List.length_nil, List.nil_append,
    List.drop_left' (by rw [List.length_map, h])] at hwrite

/-! ## The expansion -/

/-- The loop stays inside the buffer when there is room for every item behind the prefix. -/
theorem iterateBuffer_eq {expandB : List Char → Option Expansion} {expand : List Char → Expansion}
    {ranges : Nat} {post : List Char}
    (hsame : ∀ text, text.count '{' < ranges → expandB text = some (expand text))
    (hover : ∀ text, Overwritten text (expand text).text) (last : Option Failure)
    {items : List (List Char)} (hitems : ∀ item ∈ items, '{' ∉ item) {pre : List Char}
    (hpre : pre.count '{' + post.count '{' < ranges) {rest : LineBuffer}
    (hroom : ∀ item ∈ items, item.length + post.length + 1 ≤ rest.length) :
    iterateBuffer expandB pre.length post last (pre.map some ++ rest) items =
      some (iterate expand post last pre items) := by
  induction items generalizing pre rest with
  | nil => rfl
  | cons item items ih =>
    obtain ⟨hitem, hitems⟩ := List.forall_mem_cons.1 hitems
    obtain ⟨hfits, hroom⟩ := List.forall_mem_cons.1 hroom
    have hlen : pre.length + (item.length + post.length) = (pre ++ item ++ post).length := by
      rw [List.length_append, List.length_append, Nat.add_assoc]
    have hcall : expandB (pre ++ item ++ post) = some (expand (pre ++ item ++ post)) := by
      apply hsame
      rw [List.count_append, List.count_append, List.count_eq_zero_of_not_mem hitem]
      omega
    rw [iterateBuffer, putItem_eq hfits, Option.bind_eq_bind, Option.bind_some, hlen,
      readLine_append, Option.bind_eq_bind, Option.bind_some, hcall, Option.bind_eq_bind,
      Option.bind_some, iterate]
    generalize hr : expand (pre ++ item ++ post) = r
    have hleft := hr ▸ hover (pre ++ item ++ post)
    cases hfailed : r.failed with
    | some failure => rfl
    | none =>
      -- the next item is written behind the prefix as the call has left it
      have hlength : r.text.length = (pre ++ item ++ post).length := hleft.length_eq
      have hfront : (r.text.take pre.length).length = pre.length := by
        rw [List.length_take, hlength, ← hlen]
        omega
      have hcount : (r.text.take pre.length).count '{' ≤ pre.count '{' := by
        have htake := hleft.take pre.length
        rw [List.append_assoc, List.take_left' rfl] at htake
        exact htake.count_le (by decide)
      have hsplit : r.text.map some ++ some nul :: rest.drop (item.length + post.length + 1) =
          (r.text.take pre.length).map some ++ ((r.text.drop pre.length).map some ++
            some nul :: rest.drop (item.length + post.length + 1)) := by
        rw [← List.append_assoc, ← List.map_append, List.take_append_drop]
      have hrest : ((r.text.drop pre.length).map some ++
          some nul :: rest.drop (item.length + post.length + 1)).length = rest.length := by
        simp only [List.length_append, List.length_map, List.length_drop, List.length_cons, hlength]
        omega
      have hnext := ih hitems (lt_of_le_of_lt (Nat.add_le_add_right hcount _) hpre)
        (fun i hi => hrest.symm ▸ hroom i hi)
      rw [hfront, ← hsplit] at hnext
      dsimp only
      rw [write_line hlength, Option.bind_eq_bind, Option.bind_some, hnext]
      rfl

theorem expandStepBuffer_eq (env : ExpandEnv) {expandB : List Char → Option Expansion}
    {expand : List Char → Expansion} {text : List Char}
    (hsame : ∀ text', text'.count '{' < text.count '{' → expandB text' = some (expand text'))
    (hover : ∀ text', Overwritten text' (expand text').text) :
    expandStepBuffer env expandB text = some (expandStep env expand text) := by
  cases hscan : scanLine .rgUNDECIDED [] text with
  | error e => simp only [expandStepBuffer, expandStep, hscan]
  | plain => simp only [expandStepBuffer, expandStep, hscan]
  | range type pre body post =>
    obtain ⟨hbody, front, hpre, htext, hfront⟩ := scanLine_range hscan
    rw [List.nil_append] at hpre
    subst hpre
    have hfits : pre.length ≤ (alloca text.length).length := by
      rw [length_alloca, htext, List.length_append]
      exact Nat.le_add_right _ _
    have hwrite := write_append [] hfits
    rw [List.map_nil, List.nil_append, List.length_nil, List.nil_append] at hwrite
    simp only [expandStepBuffer, expandStep, hscan, hwrite, Option.bind_eq_bind, Option.bind_some]
    cases hitems : rangeItems env type body post with
    | error e => rfl
    | ok items =>
      -- an item is not longer than its range, so every line fits into the buffer
      have hroom : ∀ item ∈ items.items,
          item.length + post.length + 1 ≤ ((alloca text.length).drop pre.length).length := by
        intro item hitem
        have hline := length_line_le hscan (length_item_le hitems hitem)
        rw [List.length_drop, length_alloca]
        omega
      -- the recursive calls have one range less
      have hranges : pre.count '{' + post.count '{' < text.count '{' := by
        rw [htext, List.count_append, List.count_cons_self, List.count_append, List.count_cons]
        omega
      have hloop := iterateBuffer_eq hsame hover items.last
        (fun item hitem => not_mem_item hbody hitems hitem) hranges hroom
      dsimp only
      rw [hloop]
      rfl

theorem expandRangesBuffer_eq (env : ExpandEnv) {n : Nat} {text : List Char}
    (h : text.count '{' ≤ n) : expandRangesBuffer env n text = some (expandRanges env n text) := by
  induction n generalizing text with
  | zero => exact expandStepBuffer_eq env (fun _ hlt => by omega) fun text => Overwritten.refl text
  | succ n ih =>
    exact expandStepBuffer_eq env (fun _ hlt => ih (by omega)) (expandRanges_overwritten env n)

/-- The expansion with its buffers stays inside of them, and does what the expansion of the line
does. -/
theorem expandLineBuffer_eq (env : ExpandEnv) (text : List Char) :
    expandLineBuffer env text = some (expandLine env text) :=
  expandRangesBuffer_eq env le_rfl

/-- An `int` that has been counted past the largest one is written with ten digits at most, as many
as the body of its range has characters. -/
theorem length_counted_le (env : ExpandEnv) {body post : List Char} {start stop n : Nat}
    (h : rangeBounds env.plat body post = .ok (start, stop)) (hstop : (stop : Int) = intMax)
    (hn : n < 2 ^ 32) : (env.fmtUint n).length ≤ body.length := by
  obtain ⟨hlt, hbody⟩ := rangeBounds_lt h
  have hten : 10 ≤ body.length := by
    by_contra hshort
    have hpow : 10 ^ body.length ≤ 10 ^ 9 := Nat.pow_le_pow_right (by norm_num) (by omega)
    rw [intMax] at hstop
    omega
  rw [env.fmtUint_eq n hn]
  apply length_decimal_le _ hbody
  exact (hn.trans (by norm_num)).trans_le (Nat.pow_le_pow_right (by norm_num) hten)

/-- At every level of the expansion all writes stay inside the buffer of the call: there is room for
the prefix, the item, what follows the range and the NUL, and also for a number of a range whose
counter has run over. -/
theorem expandLine_writesInside (env : ExpandEnv) (text : List Char) :
    expandLineBuffer env text = some (expandLine env text) ∧
      ∀ type pre body post, scanLine .rgUNDECIDED [] text = .range type pre body post →
        (∀ items, rangeItems env type body post = .ok items → ∀ item ∈ items.items,
          pre.length + item.length + post.length + 1 ≤ text.length) ∧
        (∀ start stop, rangeBounds env.plat body post = .ok (start, stop) → (stop : Int) = intMax →
          ∀ n, n < 2 ^ 32 →
            pre.length + (env.fmtUint n).length + post.length + 1 ≤ text.length) := by
  refine ⟨expandLineBuffer_eq env text, fun type pre body post hscan => ⟨?_, ?_⟩⟩
  · intro items hitems item hitem
    exact length_line_le hscan (length_item_le hitems hitem)
  · intro start stop hbounds hstop n hn
    exact length_line_le hscan (length_counted_le env hbounds hstop hn)

end IpSentinel.BlackList

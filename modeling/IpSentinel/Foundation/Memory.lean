import IpSentinel.Foundation.InPlace

/-!
# Blocks of memory

A block of memory with a check at every access, and cursors that may not pass the end of the text
in it. An access outside of the block or a cursor behind the end has no result, so a program that
answers has stayed inside.

`Refines m f` says that the program `m` on a text in memory, with NUL behind it, answers as the
stage `f` on the text. There is one rule for each way to build a stage from stages.
-/

set_option autoImplicit false

namespace IpSentinel.Foundation

universe u

/-- The cells of a block, by their offset. -/
abbrev Block (α : Type u) := List α

namespace Block

variable {α : Type u}

/-- The cell at an offset. -/
def load (mem : Block α) (i : Nat) : Option α := mem[i]?

/-- `memcpy` to an offset. -/
def store (mem : Block α) (i : Nat) (s : List α) : Option (Block α) :=
  if i + s.length ≤ mem.length then some (mem.take i ++ (s ++ mem.drop (i + s.length))) else none

/-- The C string at an offset. The NUL that ends it must lie in the block. -/
def cString (mem : Block Char) (i : Nat) : Option (List Char) :=
  if nul ∈ mem.drop i then some ((mem.drop i).takeWhile (· ≠ nul)) else none

theorem load_append (front : List α) (c : α) (back : List α) :
    load (front ++ c :: back) front.length = some c := by
  rw [load, List.getElem?_append_right le_rfl, Nat.sub_self, List.getElem?_cons_zero]

/-- Writing behind a part leaves that part and what is behind the cells written. -/
theorem store_append (front : List α) {back s : List α} (h : s.length ≤ back.length) :
    store (front ++ back) front.length s = some (front ++ (s ++ back.drop s.length)) := by
  have hroom : front.length + s.length ≤ (front ++ back).length := by
    rw [List.length_append]
    exact Nat.add_le_add_left h _
  rw [store, if_pos hroom, List.take_left' rfl, List.drop_length_add_append]

theorem store_cons (front : List α) (c d : α) (back : List α) :
    store (front ++ c :: back) front.length [d] = some (front ++ d :: back) :=
  store_append front (Nat.le_add_left 1 back.length)

theorem cString_append {front s : List Char} (h : nul ∉ s) (back : List Char) :
    cString (front ++ (s ++ nul :: back)) front.length = some s := by
  have hs : ∀ c ∈ s, decide (c ≠ nul) = true := fun c hc =>
    decide_eq_true fun heq => h (heq ▸ hc)
  rw [cString, List.drop_left' rfl, if_pos (List.mem_append_right s List.mem_cons_self),
    List.takeWhile_append_of_pos hs, List.takeWhile_cons_of_neg (by simp), List.append_nil]

/-- The C string of a text with NUL behind it ends at the first NUL. -/
theorem cString_text (front text : List Char) :
    cString (front ++ (text ++ [nul])) front.length = some (text.takeWhile (· ≠ nul)) := by
  have hend : (text ++ [nul]).takeWhile (· ≠ nul) = text.takeWhile (· ≠ nul) := by
    rw [List.takeWhile_append, List.takeWhile_cons_of_neg (by simp), List.append_nil]
    split_ifs with hall
    · exact ((List.takeWhile_prefix _).eq_of_length hall).symm
    · rfl
  rw [cString, List.drop_left' rfl, if_pos (List.mem_append_right text (List.mem_singleton_self _)),
    hend]

end Block

/-! ## Cursors -/

/-- `assert`. -/
def assertion (p : Prop) [Decidable p] : Option Unit := if p then some () else none

/-- A cursor into a text with its end at `stop`. -/
def cursor (stop p : Nat) : Option Nat := if p ≤ stop then some p else none

/-- The loop that moves a cursor over the characters that satisfy `p`, with so many rounds left. -/
def skipLoop (p : Char → Bool) (stop : Nat) (mem : Block Char) : Nat → Nat → Option Nat
  | 0, _ => none
  | n + 1, start => do
    let c ← mem.load start
    if p c then
      let start ← cursor stop (start + 1)
      skipLoop p stop mem n start
    else some start

/-- The loop that overwrites the first separator by NUL. It answers the memory, the cursor, and the
character that has stood there unless the cursor is at the end. -/
def cutLoop (isSep : Char → Bool) (stop : Nat) :
    Nat → Block Char → Nat → Option (Block Char × Nat × Option Char)
  | 0, _, _ => none
  | n + 1, mem, pos =>
    if pos < stop then do
      let c ← mem.load pos
      let mem ← (if isSep c then mem.store pos [nul] else some mem)
      let d ← mem.load pos
      if d = nul then some (mem, pos, some c)
      else
        let pos ← cursor stop (pos + 1)
        cutLoop isSep stop n mem pos
    else some (mem, pos, none)

/-- The cursor behind a separator, or at the end. -/
def behindSep (stop pos : Nat) : Option Nat :=
  if pos < stop then cursor stop (pos + 1) else cursor stop pos

theorem cursor_append (front text : List Char) :
    cursor (front ++ text).length front.length = some front.length := by
  rw [cursor, if_pos]
  rw [List.length_append]
  exact Nat.le_add_right _ _

/-- Stepping over a character of the text. -/
theorem cursor_cons (front : List Char) (c : Char) (text : List Char) :
    cursor (front ++ c :: text).length (front.length + 1) = some (front ++ [c]).length := by
  have h := cursor_append (front ++ [c]) text
  have hlen : (front ++ [c]).length = front.length + 1 := List.length_append
  rw [← List.append_cons] at h
  rw [← h, hlen]

theorem skipLoop_eq {p : Char → Bool} (hp : p nul = false) (front text : List Char) {n : Nat}
    (hn : text.length < n) :
    skipLoop p (front ++ text).length (front ++ (text ++ [nul])) n front.length =
      some (front ++ text.takeWhile p).length := by
  induction text generalizing front n with
  | nil =>
    obtain ⟨n, rfl⟩ := Nat.exists_eq_succ_of_ne_zero hn.ne'
    rw [skipLoop, List.nil_append, Block.load_append, Option.bind_eq_bind, Option.bind_some,
      if_neg (by simp [hp]), List.takeWhile_nil, List.append_nil]
  | cons c text ih =>
    obtain ⟨n, rfl⟩ := Nat.exists_eq_succ_of_ne_zero (Nat.ne_zero_of_lt hn)
    rw [skipLoop, List.cons_append, Block.load_append, Option.bind_eq_bind, Option.bind_some]
    by_cases hc : p c = true
    · rw [if_pos hc, cursor_cons, Option.bind_eq_bind, Option.bind_some,
        List.append_cons front c text, List.append_cons front c (text ++ [nul]),
        ih _ (Nat.lt_of_succ_lt_succ hn), List.takeWhile_cons_of_pos hc, ← List.append_cons]
    · rw [if_neg hc, List.takeWhile_cons_of_neg hc, List.append_nil]

/-- The loop cuts off the word. -/
theorem cutLoop_eq (isSep : Char → Bool) (front text : List Char) {n : Nat} (hn : text.length < n) :
    cutLoop isSep (front ++ text).length n (front ++ (text ++ [nul])) front.length =
      some (front ++ ((cutWord isSep text).rejoin (cutWord isSep text).rest ++ [nul]),
        (front ++ (cutWord isSep text).word).length, (cutWord isSep text).sep) := by
  induction text generalizing front n with
  | nil =>
    obtain ⟨n, rfl⟩ := Nat.exists_eq_succ_of_ne_zero hn.ne'
    rw [cutLoop, List.append_nil, if_neg (lt_irrefl _), cutWord, List.append_nil]
    rfl
  | cons c text ih =>
    obtain ⟨n, rfl⟩ := Nat.exists_eq_succ_of_ne_zero (Nat.ne_zero_of_lt hn)
    have hlt : front.length < (front ++ c :: text).length := by
      rw [List.length_append, List.length_cons]
      omega
    rw [cutLoop, if_pos hlt, List.cons_append, Block.load_append, Option.bind_eq_bind,
      Option.bind_some]
    by_cases hc : isSep c ∨ c = nul
    · -- the separator is overwritten, or was NUL before
      have hcut := cutWord_cons_sep hc text
      have hmem : (if isSep c then Block.store (front ++ c :: (text ++ [nul])) front.length [nul]
          else some (front ++ c :: (text ++ [nul]))) = some (front ++ nul :: (text ++ [nul])) := by
        split_ifs with hsep
        · exact Block.store_cons ..
        · rw [hc.resolve_left hsep]
      rw [hmem, Option.bind_eq_bind, Option.bind_some, Block.load_append, Option.bind_eq_bind,
        Option.bind_some, if_pos rfl, hcut, List.append_nil]
      rfl
    · have hsep : ¬ isSep c = true := fun h => hc (Or.inl h)
      have hnul : c ≠ nul := fun h => hc (Or.inr h)
      have hrejoin : (cutWord isSep (c :: text)).rejoin (cutWord isSep (c :: text)).rest =
          c :: (cutWord isSep text).rejoin (cutWord isSep text).rest := by
        rw [cutWord_cons hc, Word.rejoin, Word.rejoin]
        cases (cutWord isSep text).sep <;> rfl
      rw [if_neg hsep, Option.bind_eq_bind, Option.bind_some, Block.load_append,
        Option.bind_eq_bind, Option.bind_some, if_neg hnul, cursor_cons, Option.bind_some,
        List.append_cons front c text, List.append_cons front c (text ++ [nul]),
        ih _ (Nat.lt_of_succ_lt_succ hn), hrejoin, cutWord_cons hc]
      simp only [List.append_assoc, List.cons_append, List.nil_append]

/-! ## Programs on a text in memory -/

/-- A program on the memory of a text, with the end of the text and a cursor into it. -/
abbrev Access (ρ : Type) := (stop start : Nat) → Block Char → Option (ρ × Block Char)

/-- The program answers as the stage does for the text from its cursor on, and leaves the text and
the NUL behind it as the stage does. -/
def Refines {ρ : Type} (m : Access ρ) (f : Stage ρ) : Prop :=
  ∀ front text : List Char,
    m (front ++ text).length front.length (front ++ (text ++ [nul])) =
      some ((f text).1, front ++ ((f text).2 ++ [nul]))

/-- The program has its cursor at the end of a word, and answers as the stage does for the text
behind the separator. -/
structure RefinesBehind {ρ : Type} (m : Access ρ) (f : Stage ρ) : Prop where
  sep : ∀ front text : List Char,
    m (front ++ nul :: text).length front.length (front ++ nul :: (text ++ [nul])) =
      some ((f text).1, front ++ nul :: ((f text).2 ++ [nul]))
  stop : ∀ front : List Char,
    m front.length front.length (front ++ [nul]) = some ((f []).1, front ++ [nul])

section Rules

variable {ρ : Type} {m m' : Access ρ} {f f' : Stage ρ}

theorem Refines.done (r : ρ) : Refines (fun _ _ mem => some (r, mem)) (fun text => (r, text)) :=
  fun _ _ => rfl

theorem Refines.ite {c : Prop} [Decidable c] (h : Refines m f) (h' : Refines m' f') :
    Refines (fun stop start mem => if c then m stop start mem else m' stop start mem)
      (if c then f else f') := by
  by_cases hc : c
  · simpa only [if_pos hc] using h
  · simpa only [if_neg hc] using h'

theorem Refines.check (h : Refines m f) :
    Refines (fun stop start mem => do
      assertion (start ≤ stop)
      m stop start mem) f := by
  intro front text
  have hle : front.length ≤ (front ++ text).length := by
    rw [List.length_append]
    exact Nat.le_add_right _ _
  dsimp only
  rw [assertion, if_pos hle, Option.bind_eq_bind, Option.bind_some]
  exact h front text

theorem Refines.skip {p : Char → Bool} (hp : p nul = false) (h : Refines m f) :
    Refines (fun stop start mem => do
      let start ← skipLoop p stop mem mem.length start
      m stop start mem) (skipThen p f) := by
  intro front text
  have hn : text.length < (front ++ (text ++ [nul])).length := by
    simp only [List.length_append, List.length_singleton]
    omega
  have hrest := h (front ++ text.takeWhile p) (text.dropWhile p)
  have hsplit : front ++ text = front ++ text.takeWhile p ++ text.dropWhile p := by
    rw [List.append_assoc, List.takeWhile_append_dropWhile]
  dsimp only
  rw [skipLoop_eq hp front text hn, Option.bind_eq_bind, Option.bind_some, ← List.append_assoc,
    hsplit, List.append_assoc _ (text.dropWhile p), hrest, skipThen]
  simp only [List.append_assoc]

theorem Refines.ifEnd (r : ρ) (h : Refines m f) :
    Refines (fun stop start mem => if start = stop then some (r, mem) else m stop start mem)
      (ifEnd r f) := by
  intro front text
  dsimp only
  cases text with
  | nil =>
    rw [List.append_nil, if_pos rfl]
    rfl
  | cons c text =>
    have hne : front.length ≠ (front ++ c :: text).length := by
      rw [List.length_append, List.length_cons]
      omega
    rw [if_neg hne]
    exact h front (c :: text)

theorem Refines.ifHead {c : Char} (hc : c ≠ nul) (h : Refines m f) (h' : Refines m' f') :
    Refines (fun stop start mem => do
      let d ← mem.load start
      if d = c then
        let start ← cursor stop (start + 1)
        m stop start mem
      else m' stop start mem) (ifHead c f f') := by
  intro front text
  dsimp only
  cases text with
  | nil =>
    have hrest := h' front []
    rw [List.nil_append] at hrest ⊢
    rw [Block.load_append, Option.bind_eq_bind, Option.bind_some, if_neg hc.symm, hrest]
    rfl
  | cons d text =>
    rw [List.cons_append, Block.load_append, Option.bind_eq_bind, Option.bind_some,
      Foundation.ifHead]
    split_ifs with hd
    · have hrest := h (front ++ [d]) text
      rw [← List.append_cons, ← List.append_cons] at hrest
      rw [cursor_cons, Option.bind_eq_bind, Option.bind_some, hrest, ← List.append_cons]
      rfl
    · exact h' front (d :: text)

/-- A leading `c` ends the program. -/
theorem Refines.ifHead_done {c : Char} (hc : c ≠ nul) (r : ρ) (h : Refines m f) :
    Refines (fun stop start mem => do
      let d ← mem.load start
      if d = c then some (r, mem)
      else m stop start mem) (Foundation.ifHead c (fun text => (r, text)) f) := by
  intro front text
  dsimp only
  cases text with
  | nil =>
    have hrest := h front []
    rw [List.nil_append] at hrest ⊢
    rw [Block.load_append, Option.bind_eq_bind, Option.bind_some, if_neg hc.symm, hrest]
    rfl
  | cons d text =>
    rw [List.cons_append, Block.load_append, Option.bind_eq_bind, Option.bind_some,
      Foundation.ifHead]
    split_ifs
    · rfl
    · exact h front (d :: text)

theorem Refines.word {isSep : Char → Bool} {m : List Char → Option Char → Access ρ}
    {f : List Char → Option Char → Stage ρ}
    (h : ∀ word sep, RefinesBehind (m word sep) (f word sep)) :
    Refines (fun stop start mem => do
      let (mem, pos, sep) ← cutLoop isSep stop mem.length mem start
      let word ← mem.cString start
      m word sep stop pos mem) (withWord isSep f) := by
  intro front text
  have hn : text.length < (front ++ (text ++ [nul])).length := by
    simp only [List.length_append, List.length_singleton]
    omega
  have hnul : nul ∉ (cutWord isSep text).word := nul_not_mem_word text
  dsimp only
  rw [cutLoop_eq isSep front text hn, Option.bind_eq_bind, Option.bind_some, withWord]
  dsimp only
  cases hsep : (cutWord isSep text).sep with
  | none =>
    -- the word ends at the end of the text
    have hword := word_of_sep_none hsep
    have hrest : (cutWord isSep text).rest = [] := by
      have hcut := cutWord_of_sep_none hsep []
      rw [List.append_nil] at hcut
      rw [hcut]
      rfl
    have hstop := (h (cutWord isSep text).word none).stop (front ++ text)
    rw [Word.rejoin, Word.rejoin, hsep]
    dsimp only
    rw [Block.cString_append hnul, Option.bind_eq_bind, Option.bind_some, hrest, hword,
      ← List.append_assoc]
    rw [hword] at hstop
    exact hstop
  | some c =>
    obtain ⟨htext, -⟩ := cutWord_of_sep_some hsep
    have hgo := (h (cutWord isSep text).word (some c)).sep (front ++ (cutWord isSep text).word)
      (cutWord isSep text).rest
    have hlen : (front ++ (cutWord isSep text).word ++ nul :: (cutWord isSep text).rest).length =
        (front ++ text).length := by
      conv_rhs => rw [htext]
      simp only [List.length_append, List.length_cons, Nat.add_assoc]
    rw [Word.rejoin, Word.rejoin, hsep]
    dsimp only
    rw [List.append_assoc _ (nul :: _), List.cons_append, Block.cString_append hnul,
      Option.bind_eq_bind, Option.bind_some, ← List.append_assoc, ← hlen, hgo]
    simp only [List.append_assoc, List.cons_append]

theorem RefinesBehind.done (r : ρ) :
    RefinesBehind (fun _ _ mem => some (r, mem)) (fun text => (r, text)) where
  sep _ _ := rfl
  stop _ := rfl

theorem RefinesBehind.ite {c : Prop} [Decidable c] (h : RefinesBehind m f)
    (h' : RefinesBehind m' f') :
    RefinesBehind (fun stop pos mem => if c then m stop pos mem else m' stop pos mem)
      (if c then f else f') := by
  by_cases hc : c
  · simpa only [if_pos hc] using h
  · simpa only [if_neg hc] using h'

/-- Going on behind the separator. -/
theorem RefinesBehind.go (h : Refines m f) (hf : WritesNul f) :
    RefinesBehind (fun stop pos mem => do
      let start ← behindSep stop pos
      m stop start mem) f where
  sep front text := by
    have hlt : front.length < (front ++ nul :: text).length := by
      rw [List.length_append, List.length_cons]
      omega
    have hrest := h (front ++ [nul]) text
    rw [← List.append_cons, ← List.append_cons] at hrest
    rw [behindSep, if_pos hlt, cursor_cons, Option.bind_eq_bind, Option.bind_some, hrest,
      ← List.append_cons]
  stop front := by
    have hrest := h front []
    have hempty : (f []).2 = [] := List.forall₂_nil_left_iff.1 (hf [])
    have hcursor := cursor_append front []
    rw [List.append_nil] at hrest hcursor
    rw [List.nil_append, hempty, List.nil_append] at hrest
    rw [behindSep, if_neg (lt_irrefl _), hcursor, Option.bind_eq_bind, Option.bind_some, hrest]

end Rules

end IpSentinel.Foundation

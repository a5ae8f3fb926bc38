import Mathlib.Data.List.Basic
import Mathlib.Data.List.Forall2
import Mathlib.Data.List.TakeWhile
import Mathlib.Tactic

/-!
# Parsing in place

A C parser that cuts words out of its buffer by writing NUL over the separators leaves the buffer
changed. A `Stage` reads a text from some position to its end and answers a result and the text as
it leaves it. `skipThen` and `withWord` build stages from stages: skip leading characters, or cut
off a word and go on behind it.

`leftover f q y` is what the stage `f` leaves of `q` after reading `q ++ y`. A stage is `Stable` on
`q` when a second pass over what it left of `q` answers as a pass over `q` itself, whatever
follows; with another stage for the second pass this is `StableBehind`.
-/

set_option autoImplicit false

namespace IpSentinel.Foundation

universe u

/-- The character that ends a C string. -/
def nul : Char := Char.ofNat 0

/-! ## Words -/

/-- A word in front of a text, the separator it ends at unless the text ends first, and the text
behind the separator. -/
structure Word where
  word : List Char
  sep : Option Char
  rest : List Char
  deriving DecidableEq

/-- The loop that walks to the first separator or NUL. -/
def cutWord (isSep : Char → Bool) : List Char → Word
  | [] => ⟨[], none, []⟩
  | c :: text =>
    if isSep c ∨ c = nul then ⟨[], some c, text⟩
    else
      let w := cutWord isSep text
      { w with word := c :: w.word }

/-- The text with NUL in place of the separator and `rest` behind it. -/
def Word.rejoin (w : Word) (rest : List Char) : List Char :=
  match w.sep with
  | none => w.word
  | some _ => w.word ++ nul :: rest

variable {isSep : Char → Bool}

theorem cutWord_cons_sep {c : Char} (h : isSep c ∨ c = nul) (text : List Char) :
    cutWord isSep (c :: text) = ⟨[], some c, text⟩ := by
  rw [cutWord, if_pos h]

theorem cutWord_cons {c : Char} (h : ¬ (isSep c ∨ c = nul)) (text : List Char) :
    cutWord isSep (c :: text) =
      ⟨c :: (cutWord isSep text).word, (cutWord isSep text).sep, (cutWord isSep text).rest⟩ := by
  rw [cutWord, if_neg h]

/-- Characters that are no separators belong to the word. -/
theorem cutWord_append {word : List Char} (h : ∀ c ∈ word, ¬ (isSep c ∨ c = nul))
    (text : List Char) :
    cutWord isSep (word ++ text) =
      ⟨word ++ (cutWord isSep text).word, (cutWord isSep text).sep, (cutWord isSep text).rest⟩ := by
  induction word with
  | nil => rfl
  | cons c word ih =>
    obtain ⟨hc, hword⟩ := List.forall_mem_cons.1 h
    rw [List.cons_append, cutWord_cons hc, ih hword]
    rfl

/-- A word in front of a separator or of the end of the text. -/
theorem cutWord_exact {word text : List Char} (h : ∀ c ∈ word, ¬ (isSep c ∨ c = nul))
    (htext : ∀ c ∈ text.head?, isSep c ∨ c = nul) :
    cutWord isSep (word ++ text) = ⟨word, text.head?, text.tail⟩ := by
  rw [cutWord_append h]
  cases text with
  | nil => rw [cutWord, List.append_nil, List.head?_nil, List.tail_nil]
  | cons c text =>
    rw [cutWord_cons_sep (htext c rfl), List.append_nil, List.head?_cons, List.tail_cons]

/-- A text without separator is one word, and the word goes on behind it. -/
theorem cutWord_of_sep_none {q : List Char} (h : (cutWord isSep q).sep = none) (y : List Char) :
    cutWord isSep (q ++ y) =
      ⟨q ++ (cutWord isSep y).word, (cutWord isSep y).sep, (cutWord isSep y).rest⟩ := by
  induction q with
  | nil => rfl
  | cons c q ih =>
    by_cases hc : isSep c ∨ c = nul
    · rw [cutWord_cons_sep hc] at h
      cases h
    · rw [cutWord_cons hc] at h
      rw [List.cons_append, cutWord_cons hc, ih h]
      rfl

/-- A separator splits the text, and what follows the text does not matter. -/
theorem cutWord_of_sep_some {q : List Char} {c : Char} (h : (cutWord isSep q).sep = some c) :
    q = (cutWord isSep q).word ++ c :: (cutWord isSep q).rest ∧
      ∀ (d : Char) (r : List Char), isSep d ∨ d = nul →
        cutWord isSep ((cutWord isSep q).word ++ d :: r) = ⟨(cutWord isSep q).word, some d, r⟩ := by
  induction q with
  | nil => cases h
  | cons e q ih =>
    by_cases he : isSep e ∨ e = nul
    · rw [cutWord_cons_sep he] at h ⊢
      cases h
      exact ⟨rfl, fun d r hd => cutWord_cons_sep hd r⟩
    · rw [cutWord_cons he] at h ⊢
      obtain ⟨hq, hcut⟩ := ih h
      refine ⟨congrArg (e :: ·) hq, fun d r hd => ?_⟩
      rw [List.cons_append, cutWord_cons he, hcut d r hd]

theorem isSep_of_cutWord_sep {q : List Char} {c : Char} (h : (cutWord isSep q).sep = some c) :
    isSep c ∨ c = nul := by
  induction q with
  | nil => cases h
  | cons e q ih =>
    by_cases he : isSep e ∨ e = nul
    · rw [cutWord_cons_sep he] at h
      cases h
      exact he
    · rw [cutWord_cons he] at h
      exact ih h

/-- With a separator in `q` the text behind `q` belongs to the rest. -/
theorem cutWord_append_some {q : List Char} {c : Char} (h : (cutWord isSep q).sep = some c)
    (y : List Char) :
    cutWord isSep (q ++ y) = ⟨(cutWord isSep q).word, some c, (cutWord isSep q).rest ++ y⟩ := by
  obtain ⟨hq, hcut⟩ := cutWord_of_sep_some h
  conv_lhs => rw [hq]
  rw [List.append_assoc, List.cons_append]
  exact hcut c _ (isSep_of_cutWord_sep h)

/-- A text without separator is its own word. -/
theorem word_of_sep_none {text : List Char} (h : (cutWord isSep text).sep = none) :
    (cutWord isSep text).word = text := by
  have hcut := cutWord_of_sep_none h []
  rw [List.append_nil] at hcut
  rw [hcut]
  exact List.append_nil text

/-- The word is what stands in front of the first separator or NUL. -/
theorem word_eq_takeWhile (text : List Char) :
    (cutWord isSep text).word = text.takeWhile fun c => !isSep c && c != nul := by
  induction text with
  | nil => rfl
  | cons c text ih =>
    by_cases hc : isSep c ∨ c = nul
    · have hp : ¬ (!isSep c && c != nul) = true := by
        rcases hc with hc | rfl <;> simp [*]
      rw [cutWord_cons_sep hc, List.takeWhile_cons, if_neg hp]
    · have hp : (!isSep c && c != nul) = true := by
        simpa [not_or] using hc
      rw [cutWord_cons hc, ih, List.takeWhile_cons, if_pos hp]

/-- A front does not tell texts with the same first word apart. -/
theorem word_append_congr {text text' : List Char} (front : List Char)
    (h : (cutWord isSep text).word = (cutWord isSep text').word) :
    (cutWord isSep (front ++ text)).word = (cutWord isSep (front ++ text')).word := by
  rw [word_eq_takeWhile, word_eq_takeWhile] at h
  rw [word_eq_takeWhile, word_eq_takeWhile, List.takeWhile_append, List.takeWhile_append, h]

theorem nul_not_mem_word (text : List Char) : nul ∉ (cutWord isSep text).word := by
  intro hmem
  rw [word_eq_takeWhile] at hmem
  have hnot := List.mem_takeWhile_imp hmem
  simp at hnot

/-- The word is the front of the text. -/
theorem take_length_word (text : List Char) :
    text.take (cutWord isSep text).word.length = (cutWord isSep text).word := by
  cases hsep : (cutWord isSep text).sep with
  | none => rw [word_of_sep_none hsep, List.take_length]
  | some c =>
    have htext := (cutWord_of_sep_some hsep).1
    exact (congrArg (List.take _) htext).trans (List.take_left' rfl)

/-- A character that is not in the text is not behind its first separator. -/
theorem not_mem_rest {q : List Char} {c d : Char} (hq : d ∉ q)
    (h : (cutWord isSep q).sep = some c) : d ∉ (cutWord isSep q).rest := by
  intro hd
  apply hq
  rw [(cutWord_of_sep_some h).1]
  exact List.mem_append_right _ (List.mem_cons_of_mem c hd)

/-! ## Stages -/

/-- A function that reads a text to its end and answers a result and the text as it leaves it. -/
abbrev Stage (ρ : Type u) := List Char → ρ × List Char

variable {ρ : Type u}

/-- Skip the leading characters that satisfy `p`. -/
def skipThen (p : Char → Bool) (f : Stage ρ) : Stage ρ := fun text =>
  let r := f (text.dropWhile p)
  (r.1, text.takeWhile p ++ r.2)

/-- At the end of the text answer `r`. -/
def ifEnd (r : ρ) (f : Stage ρ) : Stage ρ
  | [] => (r, [])
  | c :: text => f (c :: text)

/-- Step over a leading `c` and go on with `f`, or go on with `g`. -/
def ifHead (c : Char) (f g : Stage ρ) : Stage ρ
  | [] => g []
  | d :: text => if d = c then ((f text).1, d :: (f text).2) else g (d :: text)

theorem ifHead_of_ne {c : Char} {f g : Stage ρ} {text : List Char}
    (h : ∀ d ∈ text.head?, d ≠ c) : ifHead c f g text = g text := by
  cases text with
  | nil => rfl
  | cons d text => rw [ifHead, if_neg (h d rfl)]

/-- Cut off a word and go on behind its separator, or at the end of the text. -/
def withWord (isSep : Char → Bool) (f : List Char → Option Char → Stage ρ) : Stage ρ :=
  fun text =>
    let w := cutWord isSep text
    let r := f w.word w.sep w.rest
    (r.1, w.rejoin r.2)

/-- Some characters of the text have been overwritten by NUL. -/
def Overwritten : List Char → List Char → Prop := List.Forall₂ fun a b => b = a ∨ b = nul

theorem Overwritten.refl (text : List Char) : Overwritten text text :=
  List.forall₂_same.2 fun _ _ => Or.inl rfl

theorem Overwritten.length_eq {text text' : List Char} (h : Overwritten text text') :
    text'.length = text.length :=
  (List.Forall₂.length_eq h).symm

theorem Overwritten.append {a a' b b' : List Char} (h : Overwritten a a') (h' : Overwritten b b') :
    Overwritten (a ++ b) (a' ++ b') :=
  List.rel_append h h'

theorem Overwritten.take {text text' : List Char} (h : Overwritten text text') (n : Nat) :
    Overwritten (text.take n) (text'.take n) :=
  List.forall₂_take n h

/-- A character that is still there was there before. -/
theorem Overwritten.head {c : Char} {text text' : List Char} (h : Overwritten text (c :: text'))
    (hc : c ≠ nul) : ∃ tail, text = c :: tail := by
  cases h with
  | cons hab _ =>
    rcases hab with rfl | rfl
    · exact ⟨_, rfl⟩
    · exact absurd rfl hc

theorem Overwritten.mem {text text' : List Char} (h : Overwritten text text') {c : Char}
    (hc : c ≠ nul) (hmem : c ∈ text') : c ∈ text := by
  induction h with
  | nil => cases hmem
  | @cons a b l l' hab _ ih =>
    rcases List.mem_cons.1 hmem with rfl | hmem
    · rcases hab with rfl | rfl
      · exact List.mem_cons_self
      · exact absurd rfl hc
    · exact List.mem_cons_of_mem a (ih hmem)

/-- Overwriting adds no character but NUL. -/
theorem Overwritten.count_le {text text' : List Char} (h : Overwritten text text') {c : Char}
    (hc : c ≠ nul) : text'.count c ≤ text.count c := by
  induction h with
  | nil => exact Nat.le_refl 0
  | @cons a b l l' hab _ ih =>
    rcases hab with rfl | rfl
    · rw [List.count_cons, List.count_cons]
      exact Nat.add_le_add_right ih _
    · rw [List.count_cons_of_ne hc.symm]
      exact ih.trans List.count_le_count_cons

/-- The stage writes nothing but NULs. -/
def WritesNul (f : Stage ρ) : Prop := ∀ text, Overwritten text (f text).2

theorem writesNul_ite {c : Prop} [Decidable c] {f g : Stage ρ} (hf : WritesNul f)
    (hg : WritesNul g) : WritesNul (if c then f else g) := by
  split_ifs
  · exact hf
  · exact hg

/-- The part of the text in front of position `n` is left alone. -/
theorem Overwritten.behind {text rest : List Char} {n : Nat} (h : Overwritten (text.drop n) rest) :
    Overwritten text (text.take n ++ rest) := by
  have happ := (Overwritten.refl (text.take n)).append h
  rwa [List.take_append_drop] at happ

theorem skipThen_writesNul {p : Char → Bool} {f : Stage ρ} (hf : WritesNul f) :
    WritesNul (skipThen p f) := by
  intro text
  have h := (Overwritten.refl (text.takeWhile p)).append (hf (text.dropWhile p))
  rwa [List.takeWhile_append_dropWhile] at h

theorem ifEnd_writesNul {r : ρ} {f : Stage ρ} (hf : WritesNul f) : WritesNul (ifEnd r f) := by
  intro text
  cases text with
  | nil => exact List.Forall₂.nil
  | cons c text => exact hf (c :: text)

theorem ifHead_writesNul {c : Char} {f g : Stage ρ} (hf : WritesNul f) (hg : WritesNul g) :
    WritesNul (ifHead c f g) := by
  intro text
  cases text with
  | nil => exact hg []
  | cons d text =>
    rw [ifHead]
    split_ifs
    · exact List.Forall₂.cons (Or.inl rfl) (hf text)
    · exact hg (d :: text)

theorem rejoin_overwritten {text rest : List Char}
    (h : Overwritten (cutWord isSep text).rest rest) :
    Overwritten text ((cutWord isSep text).rejoin rest) := by
  simp only [Word.rejoin]
  cases hsep : (cutWord isSep text).sep with
  | none =>
    rw [word_of_sep_none hsep]
    exact Overwritten.refl text
  | some c =>
    obtain ⟨htext, -⟩ := cutWord_of_sep_some hsep
    have happ := (Overwritten.refl (cutWord isSep text).word).append
      (List.Forall₂.cons (Or.inr rfl : nul = c ∨ nul = nul) h)
    rwa [← htext] at happ

theorem withWord_writesNul {f : List Char → Option Char → Stage ρ}
    (hf : ∀ word sep, WritesNul (f word sep)) : WritesNul (withWord isSep f) :=
  fun _ => rejoin_overwritten (hf _ _ _)

/-! ## What a pass leaves -/

/-- What the stage leaves of `q` when `y` follows. -/
def leftover (f : Stage ρ) (q y : List Char) : List Char := (f (q ++ y)).2.take q.length

/-- A pass of `g` over what a pass of `f` has left of `q` answers as a pass over `q`. -/
def StableBehind (f g : Stage ρ) (q : List Char) : Prop :=
  ∀ y z, (g (leftover f q y ++ z)).1 = (g (q ++ z)).1

/-- A second pass over what a pass has left of `q` answers as a pass over `q`. -/
def Stable (f : Stage ρ) (q : List Char) : Prop := StableBehind f f q

theorem leftover_nil (f : Stage ρ) (y : List Char) : leftover f [] y = [] := List.take_zero

theorem leftover_overwritten {f : Stage ρ} (hf : WritesNul f) (q y : List Char) :
    Overwritten q (leftover f q y) := by
  have h := (hf (q ++ y)).take q.length
  rwa [List.take_left'] at h
  rfl

theorem leftover_of_append {f : Stage ρ} {q y q' : List Char} (y' : List Char)
    (h : (f (q ++ y)).2 = q' ++ y')
    (hlen : q'.length = q.length) : leftover f q y = q' := by
  rw [leftover, h, ← hlen, List.take_left']
  rfl

/-- A stage that leaves `q` alone is stable on `q`. -/
theorem stable_of_leftover_eq {f g : Stage ρ} {q : List Char} (h : ∀ y, leftover f q y = q) :
    StableBehind f g q := by
  intro y z
  rw [h]

theorem stable_nil (f g : Stage ρ) : StableBehind f g [] := stable_of_leftover_eq (leftover_nil f)

/-- What a stage behind the first `n` characters leaves. -/
theorem take_behind (f : Stage ρ) (n : Nat) (q y : List Char) :
    ((q ++ y).take n ++ (f ((q ++ y).drop n)).2).take q.length =
      q.take n ++ leftover f (q.drop n) y := by
  rcases Nat.le_total n q.length with hle | hle
  · rw [List.take_append_of_le_length hle, List.drop_append_of_le_length hle, List.take_append,
      List.take_of_length_le (by simp), leftover, List.length_take, List.length_drop,
      Nat.min_eq_left hle]
  · rw [List.drop_eq_nil_of_le hle, leftover_nil, List.append_nil, List.take_of_length_le hle]
    have hlen : q.length ≤ ((q ++ y).take n).length := by
      rw [List.length_take, List.length_append]
      omega
    rw [List.take_append_of_le_length hlen, List.take_take, Nat.min_eq_left hle,
      List.take_left' rfl]

/-- Without a separator in `q` a word cut leaves `q` alone. -/
theorem leftover_withWord_none {f : List Char → Option Char → Stage ρ} {q : List Char}
    (h : (cutWord isSep q).sep = none) (y : List Char) : leftover (withWord isSep f) q y = q := by
  have hcut := cutWord_of_sep_none h y
  cases hy : (cutWord isSep y).sep with
  | none =>
    apply leftover_of_append (cutWord isSep y).word _ rfl
    simp only [withWord, Word.rejoin, hcut, hy]
  | some c =>
    refine leftover_of_append ((cutWord isSep y).word ++
      nul :: (f (q ++ (cutWord isSep y).word) (some c) (cutWord isSep y).rest).2) ?_ rfl
    simp only [withWord, Word.rejoin, hcut, hy, List.append_assoc]

/-- With a separator in `q` a word cut leaves the word, NUL, and what the next stage leaves. -/
theorem leftover_withWord_some {f : List Char → Option Char → Stage ρ} {q : List Char} {c : Char}
    (hf : ∀ word sep, WritesNul (f word sep)) (h : (cutWord isSep q).sep = some c)
    (y : List Char) :
    leftover (withWord isSep f) q y = (cutWord isSep q).word ++
      nul :: leftover (f (cutWord isSep q).word (some c)) (cutWord isSep q).rest y := by
  -- what follows `q` goes to the next stage only
  have hcut := cutWord_append_some h y
  have hlen := (leftover_overwritten (hf (cutWord isSep q).word (some c))
    (cutWord isSep q).rest y).length_eq
  refine leftover_of_append ((f (cutWord isSep q).word (some c)
    ((cutWord isSep q).rest ++ y)).2.drop (cutWord isSep q).rest.length) ?_ ?_
  · simp only [withWord, Word.rejoin, hcut, leftover, List.append_assoc, List.cons_append,
      List.take_append_drop]
  · conv_rhs => rw [(cutWord_of_sep_some h).1]
    simp [hlen]

/-- The result of a word cut, with the separator or NUL at the end of the word. -/
theorem withWord_result {f : List Char → Option Char → Stage ρ} {q : List Char} {c d : Char}
    (h : (cutWord isSep q).sep = some c) (hd : isSep d ∨ d = nul) (r : List Char) :
    (withWord isSep f ((cutWord isSep q).word ++ d :: r)).1 =
      (f (cutWord isSep q).word (some d) r).1 := by
  simp only [withWord, (cutWord_of_sep_some h).2 d r hd]

/-- A word in front of a separator, or of the end of the text, is cut off. -/
theorem withWord_append {f : List Char → Option Char → Stage ρ} {word text : List Char}
    (hword : ∀ c ∈ word, ¬ (isSep c ∨ c = nul)) (htext : ∀ c ∈ text.head?, isSep c ∨ c = nul) :
    (withWord isSep f (word ++ text)).1 = (f word text.head? text.tail).1 := by
  rw [withWord, cutWord_exact hword htext]

/-- A word cut is stable when the next stage is and does not tell the separator from NUL. -/
theorem withWord_stable {f g : List Char → Option Char → Stage ρ} {q : List Char}
    (hf : ∀ word sep, WritesNul (f word sep))
    (h : ∀ c, (cutWord isSep q).sep = some c →
      g (cutWord isSep q).word (some c) = g (cutWord isSep q).word (some nul) ∧
        StableBehind (f (cutWord isSep q).word (some c)) (g (cutWord isSep q).word (some c))
          (cutWord isSep q).rest) :
    StableBehind (withWord isSep f) (withWord isSep g) q := by
  cases hsep : (cutWord isSep q).sep with
  | none => exact stable_of_leftover_eq (leftover_withWord_none hsep)
  | some c =>
    obtain ⟨heq, hstable⟩ := h c hsep
    intro y z
    -- the second pass cuts the same word at the NUL, and goes on where the first one did
    rw [leftover_withWord_some hf hsep, List.append_assoc, List.cons_append,
      withWord_result hsep (Or.inr rfl), ← heq, hstable y z,
      ← withWord_result hsep (isSep_of_cutWord_sep hsep), ← List.cons_append, ← List.append_assoc,
      ← (cutWord_of_sep_some hsep).1]

/-- The word at the front of a text is the same after a pass. -/
theorem word_leftover_withWord {f : List Char → Option Char → Stage ρ}
    (hf : ∀ word sep, WritesNul (f word sep)) (q y z : List Char) :
    (cutWord isSep (leftover (withWord isSep f) q y ++ z)).word =
      (cutWord isSep (q ++ z)).word := by
  cases hsep : (cutWord isSep q).sep with
  | none => rw [leftover_withWord_none hsep]
  | some c =>
    obtain ⟨hq, hcut⟩ := cutWord_of_sep_some hsep
    have hqz : q ++ z = (cutWord isSep q).word ++ c :: ((cutWord isSep q).rest ++ z) := by
      rw [← List.cons_append, ← List.append_assoc, ← hq]
    rw [leftover_withWord_some hf hsep, List.append_assoc, List.cons_append,
      hcut nul _ (Or.inr rfl), hqz, hcut c _ (isSep_of_cutWord_sep hsep)]

/-- A skipped front makes no difference. -/
theorem skipThen_append {p : Char → Bool} (f : Stage ρ) {blanks : List Char}
    (hblanks : ∀ c ∈ blanks, p c) (text : List Char) :
    (skipThen p f (blanks ++ text)).1 = (skipThen p f text).1 := by
  simp only [skipThen, List.dropWhile_append_of_pos hblanks]

/-- Skipping in front of a character that is not skipped. -/
theorem skipThen_apply {p : Char → Bool} (f : Stage ρ) {blanks : List Char} {d : Char}
    (hblanks : ∀ c ∈ blanks, p c) (hd : p d = false) (text : List Char) :
    skipThen p f (blanks ++ d :: text) =
      ((f (d :: text)).1, blanks ++ (f (d :: text)).2) := by
  have htake : (blanks ++ d :: text).takeWhile p = blanks := by
    rw [List.takeWhile_append_of_pos hblanks, List.takeWhile_cons_of_neg (by simp [hd]),
      List.append_nil]
  have hdrop : (blanks ++ d :: text).dropWhile p = d :: text := by
    rw [List.dropWhile_append_of_pos hblanks, List.dropWhile_cons_of_neg (by simp [hd])]
  simp only [skipThen, htake, hdrop]

/-- Skipping leaves what is skipped. -/
theorem leftover_skipThen {p : Char → Bool} {f : Stage ρ} (hf : WritesNul f)
    {blanks q : List Char} {d : Char} (hblanks : ∀ c ∈ blanks, p c) (hd : p d = false)
    (y : List Char) :
    leftover (skipThen p f) (blanks ++ d :: q) y = blanks ++ leftover f (d :: q) y := by
  have hlen := (leftover_overwritten hf (d :: q) y).length_eq
  apply leftover_of_append ((f (d :: q ++ y)).2.drop (d :: q).length)
  · rw [List.append_assoc, List.cons_append, skipThen_apply f hblanks hd]
    simp only [leftover, List.append_assoc, List.cons_append, List.take_append_drop]
  · rw [List.length_append, List.length_append, hlen]

/-- A text that is skipped to its end is left alone. -/
theorem leftover_skipThen_all {p : Char → Bool} (f : Stage ρ) {blanks : List Char}
    (hblanks : ∀ c ∈ blanks, p c) (y : List Char) :
    leftover (skipThen p f) blanks y = blanks := by
  apply leftover_of_append (y.takeWhile p ++ (f (y.dropWhile p)).2) _ rfl
  simp only [skipThen, List.takeWhile_append_of_pos hblanks,
    List.dropWhile_append_of_pos hblanks, List.append_assoc]

theorem leftover_ifEnd {r : ρ} {f : Stage ρ} (d : Char) (q y : List Char) :
    leftover (ifEnd r f) (d :: q) y = leftover f (d :: q) y := rfl

theorem leftover_ifHead_self {c : Char} {f g : Stage ρ} (q y : List Char) :
    leftover (ifHead c f g) (c :: q) y = c :: leftover f q y := by
  simp [leftover, ifHead]

theorem leftover_ifHead_of_ne {c d : Char} {f g : Stage ρ} (h : d ≠ c) (q y : List Char) :
    leftover (ifHead c f g) (d :: q) y = leftover g (d :: q) y := by
  simp [leftover, ifHead, h]

/-- A nonempty text keeps its first character, or has NUL in its place. -/
theorem leftover_cons {f : Stage ρ} (hf : WritesNul f) (d : Char) (q y : List Char) :
    ∃ e v, leftover f (d :: q) y = e :: v ∧ (e = d ∨ e = nul) := by
  have hover := leftover_overwritten hf (d :: q) y
  cases hl : leftover f (d :: q) y with
  | nil =>
    rw [hl] at hover
    cases hover
  | cons e v =>
    rw [hl] at hover
    cases hover with
    | cons hde _ => exact ⟨e, v, rfl, hde⟩

/-- Skipping is stable when the stage behind it is. -/
theorem skipThen_stable {p : Char → Bool} {f : Stage ρ} {q : List Char} (hf : WritesNul f)
    (hp : p nul = false) (h : q.dropWhile p ≠ [] → Stable f (q.dropWhile p)) :
    Stable (skipThen p f) q := by
  have hblanks : ∀ c ∈ q.takeWhile p, p c := fun c hc => List.mem_takeWhile_imp hc
  have hsplit := List.takeWhile_append_dropWhile (p := p) (l := q)
  generalize q.takeWhile p = blanks at hblanks hsplit
  cases hu : q.dropWhile p with
  | nil =>
    -- everything in `q` is skipped
    rw [hu, List.append_nil] at hsplit
    subst hsplit
    exact stable_of_leftover_eq (leftover_skipThen_all f hblanks)
  | cons d u =>
    have hd : p d = false := by
      have hhead := List.head_dropWhile_not (p := p) (l := q) (by simp [hu])
      simpa [hu] using hhead
    have hstable := h (by simp [hu])
    rw [hu] at hstable hsplit
    subst hsplit
    intro y z
    -- neither `d` nor the NUL in its place is skipped
    obtain ⟨e, v, hev, he⟩ := leftover_cons hf d u y
    have hpe : p e = false := by
      rcases he with rfl | rfl
      · exact hd
      · exact hp
    have hfinal := hstable y z
    rw [hev] at hfinal
    rw [leftover_skipThen hf hblanks hd, hev, List.append_assoc, List.append_assoc,
      List.cons_append, List.cons_append, skipThen_apply f hblanks hpe,
      skipThen_apply f hblanks hd]
    exact hfinal

theorem ifEnd_stable {r : ρ} {f : Stage ρ} {q : List Char} (hf : WritesNul f)
    (h : q ≠ [] → Stable f q) : Stable (ifEnd r f) q := by
  cases q with
  | nil => exact stable_nil _ _
  | cons d q =>
    intro y z
    obtain ⟨e, v, hev, -⟩ := leftover_cons hf d q y
    have hfinal := h (List.cons_ne_nil d q) y z
    rw [hev] at hfinal
    rw [leftover_ifEnd, hev]
    exact hfinal

/-- A leading `c` other than NUL is told apart in both passes. -/
theorem ifHead_stable {c : Char} {f g f' g' : Stage ρ} {q : List Char} (hg : WritesNul g)
    (hc : c ≠ nul) (hstep : ∀ q', q = c :: q' → StableBehind f f' q')
    (helse : q.head? ≠ some c → StableBehind g g' q) :
    StableBehind (ifHead c f g) (ifHead c f' g') q := by
  cases q with
  | nil => exact stable_nil _ _
  | cons d q =>
    intro y z
    by_cases hd : d = c
    · subst hd
      -- the leading `c` is left alone
      rw [leftover_ifHead_self]
      simpa only [List.cons_append, ifHead, if_true] using hstep q rfl y z
    · obtain ⟨e, v, hev, he⟩ := leftover_cons hg d q y
      have hec : e ≠ c := by
        rcases he with rfl | rfl
        · exact hd
        · exact hc.symm
      have hfinal := helse (by simpa using hd) y z
      rw [hev] at hfinal
      rw [leftover_ifHead_of_ne hd, hev]
      simpa only [List.cons_append, ifHead, if_neg hec, if_neg hd] using hfinal

/-! ## Ending a word -/

/-- The text with NUL in place of the separator behind its first word. -/
def endWord (isSep : Char → Bool) (text : List Char) : List Char :=
  (cutWord isSep text).rejoin (cutWord isSep text).rest

theorem take_endWord_none {q : List Char} (h : (cutWord isSep q).sep = none) (y : List Char) :
    (endWord isSep (q ++ y)).take q.length = q := by
  rw [endWord, cutWord_of_sep_none h]
  cases hy : (cutWord isSep y).sep with
  | none => exact List.take_left' rfl
  | some c =>
    rw [Word.rejoin, List.append_assoc]
    exact List.take_left' rfl

theorem take_endWord_some {q : List Char} {c : Char} (h : (cutWord isSep q).sep = some c)
    (y : List Char) :
    (endWord isSep (q ++ y)).take q.length =
      (cutWord isSep q).word ++ nul :: (cutWord isSep q).rest := by
  rw [endWord, cutWord_append_some h, Word.rejoin, ← List.cons_append, ← List.append_assoc]
  apply List.take_left'
  conv_rhs => rw [(cutWord_of_sep_some h).1]
  simp

end IpSentinel.Foundation

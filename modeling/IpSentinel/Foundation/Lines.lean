import Mathlib.Data.List.Basic
import Mathlib.Tactic

/-!
# Lines of a text that comes in pieces

`cutLines sep line text` cuts a text at the separators, where `line` has been read already of the
line that is going on: the lines that are ended by a separator, and what is left behind the last
one. Going on with what is left of one piece cuts the next piece as if both were one text
(`cutLines_append`), so how a text comes in pieces makes no difference (`cutPieces_eq`).

The last section is about the elements of lists that are joined with a separator.
-/

set_option autoImplicit false

namespace IpSentinel.Foundation

universe u

variable {α : Type u} [DecidableEq α] (sep : α)

/-- The lines that are ended, and the rest. -/
def cutLines (line : List α) : List α → List (List α) × List α
  | [] => ([], line)
  | c :: text =>
    if c = sep then
      let r := cutLines [] text
      (line :: r.1, r.2)
    else cutLines (line ++ [c]) text

/-- The lines of a text, the last one ended by the separator or not. -/
def linesOf (text : List α) : List (List α) :=
  let lines := text.splitOn sep
  if lines.getLast? = some [] then lines.dropLast else lines

variable {sep}

theorem cutLines_cons_sep (line text : List α) :
    cutLines sep line (sep :: text) =
      (line :: (cutLines sep [] text).1, (cutLines sep [] text).2) := by
  rw [cutLines, if_pos rfl]

theorem cutLines_cons {c : α} (h : c ≠ sep) (line text : List α) :
    cutLines sep line (c :: text) = cutLines sep (line ++ [c]) text := by
  rw [cutLines, if_neg h]

/-- The second part of a text is cut behind what is left of the first part. -/
theorem cutLines_append (line text text' : List α) :
    cutLines sep line (text ++ text') =
      ((cutLines sep line text).1 ++ (cutLines sep (cutLines sep line text).2 text').1,
        (cutLines sep (cutLines sep line text).2 text').2) := by
  induction text generalizing line with
  | nil => rfl
  | cons c text ih =>
    rw [List.cons_append]
    by_cases hc : c = sep
    · subst hc
      rw [cutLines_cons_sep, cutLines_cons_sep, ih]
      rfl
    · rw [cutLines_cons hc, cutLines_cons hc, ih]

/-- Without a separator no line is ended. -/
theorem cutLines_of_not_mem {text : List α} (h : sep ∉ text) (line : List α) :
    cutLines sep line text = ([], line ++ text) := by
  induction text generalizing line with
  | nil => rw [cutLines, List.append_nil]
  | cons c text ih =>
    rw [List.mem_cons, not_or] at h
    rw [cutLines_cons (Ne.symm h.1), ih h.2, List.append_assoc]
    rfl

/-- The line that is going on becomes the first one that is ended. -/
theorem exists_cutLines {text : List α} (h : sep ∈ text) (line : List α) :
    ∃ more lines, (cutLines sep line text).1 = (line ++ more) :: lines := by
  induction text generalizing line with
  | nil => cases h
  | cons c text ih =>
    by_cases hc : c = sep
    · subst hc
      rw [cutLines_cons_sep, ← List.append_nil line]
      exact ⟨[], _, by rw [List.append_nil, List.append_nil]⟩
    · obtain ⟨more, lines, hmore⟩ :=
        ih ((List.mem_cons.1 h).resolve_left (Ne.symm hc)) (line ++ [c])
      rw [List.append_assoc] at hmore
      rw [cutLines_cons hc]
      exact ⟨_, lines, hmore⟩

theorem cutLines_ne_nil {text : List α} (h : sep ∈ text) (line : List α) :
    (cutLines sep line text).1 ≠ [] := by
  obtain ⟨more, lines, hmore⟩ := exists_cutLines h line
  rw [hmore]
  exact List.cons_ne_nil _ _

/-- What is left has no separator. -/
theorem not_mem_cutLines {line : List α} (h : sep ∉ line) (text : List α) :
    sep ∉ (cutLines sep line text).2 := by
  induction text generalizing line with
  | nil => exact h
  | cons c text ih =>
    by_cases hc : c = sep
    · subst hc
      rw [cutLines_cons_sep]
      exact ih List.not_mem_nil
    · rw [cutLines_cons hc]
      apply ih
      rw [List.mem_append, List.mem_singleton]
      exact not_or_intro h (Ne.symm hc)

theorem splitOn_eq_cutLines {line : List α} (h : sep ∉ line) (text : List α) :
    (line ++ text).splitOn sep = (cutLines sep line text).1 ++ [(cutLines sep line text).2] := by
  induction text generalizing line with
  | nil =>
    rw [List.append_nil, List.splitOn_eq_singleton h]
    rfl
  | cons c text ih =>
    by_cases hc : c = sep
    · subst hc
      rw [cutLines_cons_sep, List.splitOn_append_cons_self_of_not_mem h]
      exact congrArg (line :: ·) (ih List.not_mem_nil)
    · rw [cutLines_cons hc, ← ih, List.append_assoc]
      · rfl
      · rw [List.mem_append, List.mem_singleton]
        exact not_or_intro h (Ne.symm hc)

/-- The lines of a text are the lines that are ended, and the rest if there is one. -/
theorem linesOf_eq (text : List α) :
    linesOf sep text =
      if (cutLines sep [] text).2 = [] then (cutLines sep [] text).1
      else (cutLines sep [] text).1 ++ [(cutLines sep [] text).2] := by
  have hsplit : ([] ++ text).splitOn sep = _ := splitOn_eq_cutLines List.not_mem_nil text
  rw [List.nil_append] at hsplit
  simp only [linesOf, hsplit, List.getLast?_append, List.getLast?_singleton, Option.some_or,
    Option.some.injEq, List.dropLast_concat]

/-- Nothing is left exactly when the text is empty or ends with the separator. -/
theorem cutLines_rest_eq_nil_iff {text : List α} :
    (cutLines sep [] text).2 = [] ↔ text = [] ∨ text.getLast? = some sep := by
  -- only the last element matters
  rcases List.eq_nil_or_concat text with rfl | ⟨front, c, rfl⟩
  · exact iff_of_true rfl (Or.inl rfl)
  · rw [List.concat_eq_append, cutLines_append]
    by_cases hc : c = sep
    · subst hc
      simp [cutLines]
    · simp [cutLines, hc]

/-- Lines written one after the other, each with a separator behind it, are cut as they were. -/
theorem cutLines_ended {lines : List (List α)} (h : ∀ line ∈ lines, sep ∉ line) :
    cutLines sep [] (lines.flatMap fun line => line ++ [sep]) = (lines, []) := by
  induction lines with
  | nil => rfl
  | cons line lines ih =>
    obtain ⟨hline, hlines⟩ := List.forall_mem_cons.1 h
    rw [List.flatMap_cons, List.append_assoc, cutLines_append, cutLines_of_not_mem hline,
      List.singleton_append]
    dsimp only
    rw [cutLines_cons_sep, ih hlines]
    rfl

theorem linesOf_ended {lines : List (List α)} (h : ∀ line ∈ lines, sep ∉ line) :
    linesOf sep (lines.flatMap fun line => line ++ [sep]) = lines := by
  rw [linesOf_eq, cutLines_ended h, if_pos rfl]

/-! ## Texts in pieces -/

/-- Reading the pieces of a text one after the other. -/
def cutPieces (sep : α) : List α → List (List α) → List (List α) × List α
  | line, [] => ([], line)
  | line, piece :: pieces =>
    let r := cutLines sep line piece
    let rest := cutPieces sep r.2 pieces
    (r.1 ++ rest.1, rest.2)

/-- How the text is cut into pieces makes no difference. -/
theorem cutPieces_eq (line : List α) (pieces : List (List α)) :
    cutPieces sep line pieces = cutLines sep line pieces.flatten := by
  induction pieces generalizing line with
  | nil => rfl
  | cons piece pieces ih =>
    rw [cutPieces, List.flatten_cons, cutLines_append, ih]

/-! ## Joined lists -/

theorem mem_intercalate {β : Type u} {a c : β} {ls : List (List β)} :
    c ∈ [a].intercalate ls ↔ (c = a ∧ 1 < ls.length) ∨ ∃ l ∈ ls, c ∈ l := by
  induction ls with
  | nil => simp
  | cons l ls ih =>
    by_cases hls : ls = []
    · subst hls
      simp
    · have hpos := List.length_pos_iff.2 hls
      rw [List.intercalate_cons_of_ne_nil hls, List.mem_append, List.mem_append,
        List.mem_singleton, ih, List.length_cons, List.exists_mem_cons_iff]
      constructor
      · rintro ((h | h) | h | h)
        · exact Or.inr (Or.inl h)
        · exact Or.inl ⟨h, by omega⟩
        · exact Or.inl ⟨h.1, by omega⟩
        · exact Or.inr (Or.inr h)
      · rintro (h | h | h)
        · exact Or.inl (Or.inr h.1)
        · exact Or.inl (Or.inl h)
        · exact Or.inr (Or.inr h)

/-- The parts of a list are in it. -/
theorem sublist_of_mem_splitOn {a : α} {text part : List α} (h : part ∈ text.splitOn a) :
    part.Sublist text := by
  have hjoin : [a].intercalate (text.splitOn a) = text := List.intercalate_splitOn a
  obtain ⟨i, hi⟩ := List.mem_iff_getElem?.1 h
  have hmem : part ∈ (text.splitOn a).intersperse [a] :=
    List.mem_iff_getElem?.2 ⟨2 * i, by rw [List.getElem?_intersperse_two_mul, hi]⟩
  have hsub : part.Sublist ([a].intercalate (text.splitOn a)) := List.sublist_flatten_of_mem hmem
  rwa [hjoin] at hsub

/-- An element of a part of a list is one of the list. -/
theorem mem_of_mem_splitOn {a c : α} {text part : List α} (hpart : part ∈ text.splitOn a)
    (hc : c ∈ part) : c ∈ text :=
  (sublist_of_mem_splitOn hpart).subset hc

end IpSentinel.Foundation

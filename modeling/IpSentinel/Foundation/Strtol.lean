import IpSentinel.Foundation.Platform
import Mathlib.Data.List.TakeWhile

/-!
# Numbers in texts

`strtol` of the C library, for the bases 0 and 10, and the decimal digits of a number as `fmt_uint`
writes them. `strtol` answers the value, cut to the range of `long`, and the number of characters
up to the first one that does not belong to the number. What follows the number does not matter
(`strtol_append`), unless the text in front of it is white space only.
-/

set_option autoImplicit false

namespace IpSentinel.Foundation

/-- `isspace` in the C locale. -/
def isSpace (c : Char) : Bool := c = ' ' ∨ (9 ≤ c.toNat ∧ c.toNat ≤ 13)

/-- The value of a digit or letter. -/
def digitVal (c : Char) : Option Nat :=
  if c.isDigit then some (c.toNat - '0'.toNat)
  else if c.isLower then some (c.toNat - 'a'.toNat + 10)
  else if c.isUpper then some (c.toNat - 'A'.toNat + 10)
  else none

/-- The character is a digit in the given base. -/
def isDigitOf (base : Nat) (c : Char) : Bool :=
  match digitVal c with
  | some d => d < base
  | none => false

/-- The number a list of digits denotes. -/
def digitsValue (base : Nat) (digits : List Char) : Nat :=
  digits.foldl (fun n c => n * base + (digitVal c).getD 0) 0

/-- The base of a number and the length of the mark `0x` in front of it. -/
def numberBase (base : Nat) (text : List Char) : Nat × Nat :=
  if base ≠ 0 then (base, 0)
  else
    match text with
    -- `0x` is a mark only in front of a digit
    | '0' :: x :: h :: _ => if (x = 'x' ∨ x = 'X') ∧ isDigitOf 16 h then (16, 2) else (8, 0)
    | '0' :: _ => (8, 0)
    | _ => (10, 0)

/-- `strtol`: the value and the distance from the start of the text to `*endptr`. -/
def strtol (plat : Platform) (base : Nat) (text : List Char) : Int × Nat :=
  let blanks := text.takeWhile isSpace
  let text := text.dropWhile isSpace
  let sign := if text.head? = some '-' ∨ text.head? = some '+' then 1 else 0
  let negative := text.head? = some '-'
  let text := text.drop sign
  let (base, mark) := numberBase base text
  let digits := (text.drop mark).takeWhile (isDigitOf base)
  -- without a number `*endptr` is the start of the text
  if digits = [] then (0, 0)
  else
    let value : Int := if negative then -digitsValue base digits else digitsValue base digits
    (max plat.longMin (min plat.longMax value), blanks.length + sign + mark + digits.length)

/-- The decimal digits of a number. -/
def decimal (n : Nat) : List Char := Nat.toDigits 10 n

theorem toNat_of_isDigit {c : Char} (h : c.isDigit) : 48 ≤ c.toNat ∧ c.toNat ≤ 57 := by
  simp only [Char.isDigit, Bool.and_eq_true, decide_eq_true_eq, ge_iff_le,
    UInt32.le_iff_toNat_le] at h
  exact h

theorem isDigitOf_ten (c : Char) : isDigitOf 10 c = c.isDigit := by
  cases hd : c.isDigit with
  | true =>
    have hrange := toNat_of_isDigit hd
    have hzero : '0'.toNat = 48 := rfl
    simp only [isDigitOf, digitVal, hd, if_true, hzero, decide_eq_true_eq]
    omega
  | false =>
    simp only [isDigitOf, digitVal, hd, Bool.false_eq_true, if_false]
    split_ifs <;> simp

theorem isDigit_of_mem_decimal {n : Nat} {c : Char} (h : c ∈ decimal n) : c.isDigit :=
  Nat.isDigit_of_mem_toDigits (by decide) (by decide) h

theorem longMax_ge (plat : Platform) : 2 ^ 31 - 1 ≤ plat.longMax := by
  have hpow : (2 : Int) ^ 31 ≤ 2 ^ (plat.longBits - 1) :=
    pow_le_pow_right₀ (by norm_num) (by have := plat.longBits_ge; omega)
  simp only [Platform.longMax]
  omega

theorem longMin_le (plat : Platform) : plat.longMin ≤ 0 := by
  have hpow : (0 : Int) < 2 ^ (plat.longBits - 1) := by positivity
  simp only [Platform.longMin]
  omega

/-- A decimal number in front of another character is read to its end. -/
theorem strtol_decimal (plat : Platform) {digits : List Char} {c : Char} (rest : List Char)
    (hne : digits ≠ []) (hdigits : ∀ d ∈ digits, d.isDigit) (hc : c.isDigit = false)
    (hval : digitsValue 10 digits < 2 ^ 31) :
    strtol plat 10 (digits ++ c :: rest) = ((digitsValue 10 digits : Int), digits.length) := by
  obtain ⟨d, tail, rfl⟩ := List.exists_cons_of_ne_nil hne
  have hd := toNat_of_isDigit (hdigits d List.mem_cons_self)
  -- a digit is neither a blank nor a sign
  have hspace : isSpace d = false := by
    have hblank : d ≠ ' ' := by
      rintro rfl
      exact absurd hd.1 (by decide)
    simp only [isSpace, hblank, false_or, decide_eq_false_iff_not]
    omega
  have hminus : d ≠ '-' := by
    rintro rfl
    exact absurd hd.1 (by decide)
  have hplus : d ≠ '+' := by
    rintro rfl
    exact absurd hd.1 (by decide)
  have htake : (d :: tail ++ c :: rest).takeWhile (isDigitOf 10) = d :: tail := by
    rw [List.takeWhile_append_of_pos (fun e he => by rw [isDigitOf_ten, hdigits e he]),
      List.takeWhile_cons_of_neg (by rw [isDigitOf_ten, hc]; simp), List.append_nil]
  -- the value is in the range of every `long`
  have hmax := longMax_ge plat
  have hmin := longMin_le plat
  have hclamp : max plat.longMin (min plat.longMax (digitsValue 10 (d :: tail) : Int)) =
      digitsValue 10 (d :: tail) := by omega
  rw [List.cons_append] at htake
  simp only [strtol, List.cons_append, List.takeWhile_cons_of_neg (by simp [hspace] : ¬ isSpace d),
    List.dropWhile_cons_of_neg (by simp [hspace] : ¬ isSpace d)]
  simp [hminus, hplus, numberBase, htake, hclamp]

/-! ## The size of a number -/

theorem digitsValue_lt {base : Nat} {digits : List Char} (h : ∀ c ∈ digits, isDigitOf base c) :
    digitsValue base digits < base ^ digits.length := by
  induction digits using List.reverseRecOn with
  | nil => exact Nat.one_pos
  | append_singleton digits c ih =>
    obtain ⟨hdigits, hc⟩ := List.forall_mem_append.1 h
    have hlast : (digitVal c).getD 0 < base := by
      have hdigit := List.forall_mem_singleton.1 hc
      rw [isDigitOf] at hdigit
      cases hval : digitVal c with
      | none =>
        rw [hval] at hdigit
        cases hdigit
      | some d =>
        rw [hval] at hdigit
        exact of_decide_eq_true hdigit
    have hfront := ih hdigits
    rw [digitsValue] at hfront ⊢
    rw [List.foldl_append, List.foldl_cons, List.foldl_nil, List.length_append,
      List.length_singleton, pow_succ]
    calc _ < List.foldl (fun n c => n * base + (digitVal c).getD 0) 0 digits * base + base :=
          Nat.add_lt_add_left hlast _
      _ = (List.foldl (fun n c => n * base + (digitVal c).getD 0) 0 digits + 1) * base :=
          (Nat.succ_mul _ _).symm
      _ ≤ base ^ digits.length * base := Nat.mul_le_mul_right _ hfront

/-- A number has at most as many digits as characters were read for it. -/
theorem strtol_natAbs_lt (plat : Platform) {base : Nat} (hbase : base ≠ 0) (text : List Char) :
    (strtol plat base text).1.natAbs < base ^ (strtol plat base text).2 := by
  simp only [strtol, numberBase, hbase, ne_eq, not_false_eq_true, if_true, List.drop_zero]
  generalize (if (text.dropWhile isSpace).head? = some '-' ∨
    (text.dropWhile isSpace).head? = some '+' then 1 else 0) = sign
  generalize hdigits : ((text.dropWhile isSpace).drop sign).takeWhile (isDigitOf base) = digits
  have hlt : digitsValue base digits < base ^ digits.length := by
    apply digitsValue_lt
    rw [← hdigits]
    exact fun c hc => List.mem_takeWhile_imp hc
  have hmax := longMax_ge plat
  have hmin := longMin_le plat
  by_cases hempty : digits = []
  · rw [if_pos hempty]
    exact Nat.one_pos
  · rw [if_neg hempty]
    -- cutting a value to the range of `long` brings it closer to 0
    have hpow : base ^ digits.length ≤
        base ^ ((text.takeWhile isSpace).length + sign + 0 + digits.length) :=
      Nat.pow_le_pow_right (Nat.pos_of_ne_zero hbase) (Nat.le_add_left _ _)
    apply lt_of_lt_of_le _ hpow
    split_ifs <;> omega

/-! ## A number in front of other text -/

/-- A character that belongs to no number ends the search for digits. -/
theorem takeWhile_append_stop {p : Char → Bool} {rest : List Char}
    (h : ∀ c ∈ rest.head?, p c = false) (text : List Char) :
    (text ++ rest).takeWhile p = text.takeWhile p := by
  induction text with
  | nil =>
    cases rest with
    | nil => rfl
    | cons c rest => exact List.takeWhile_cons_of_neg (by simp [h c rfl])
  | cons d text ih =>
    rw [List.cons_append, List.takeWhile_cons, List.takeWhile_cons, ih]

theorem isDigitOf_of_digitVal_none {c : Char} (h : digitVal c = none) (base : Nat) :
    isDigitOf base c = false := by
  rw [isDigitOf, h]

/-- The base of a number does not depend on what follows it. -/
theorem numberBase_append {rest : List Char} (h : ∀ c ∈ rest.head?, digitVal c = none) (base : Nat)
    (text : List Char) : numberBase base (text ++ rest) = numberBase base text := by
  by_cases hbase : base = 0
  · subst hbase
    cases rest with
    | nil => rw [List.append_nil]
    | cons r rest =>
      have hr : digitVal r = none := h r rfl
      have hzero : r ≠ '0' := by
        rintro rfl
        cases hr
      have hmark : ¬ (r = 'x' ∨ r = 'X') := by
        rintro (rfl | rfl) <;> cases hr
      -- the base is chosen by the first three characters, so up to two of them may be missing
      match text with
      | [] => simp [numberBase, hzero]
      | [c] =>
        by_cases hc : c = '0'
        · subst hc
          cases rest with
          | nil => simp [numberBase]
          | cons d rest => simp [numberBase, hmark]
        · simp [numberBase, hc]
      | [c, d] =>
        by_cases hc : c = '0'
        · subst hc
          simp [numberBase, isDigitOf_of_digitVal_none hr]
        · simp [numberBase, hc]
      | c :: d :: e :: text =>
        by_cases hc : c = '0'
        · subst hc
          simp [numberBase]
        · simp [numberBase, hc]
  · simp [numberBase, hbase]

/-- The mark of a base is in the text. -/
theorem numberBase_le (base : Nat) (text : List Char) :
    (numberBase base text).2 ≤ text.length := by
  unfold numberBase
  split
  · exact Nat.zero_le _
  · split
    · split
      · simp
      · exact Nat.zero_le _
    · exact Nat.zero_le _
    · exact Nat.zero_le _

/-- The mark of a base has no dot in it. -/
theorem not_mem_mark (base : Nat) (text : List Char) :
    '.' ∉ text.take (numberBase base text).2 := by
  unfold numberBase
  split
  · simp
  · split
    · next x h tail _ =>
      split
      · next hmark =>
        obtain ⟨rfl | rfl, -⟩ := hmark <;> simp
      · simp
    · simp
    · simp

/-- A number in front of a character that belongs to no number is read as at the end of a text. -/
theorem strtol_append (plat : Platform) (base : Nat) {text rest : List Char}
    (hne : ∃ c ∈ text, isSpace c = false) (hstop : ∀ c ∈ rest.head?, digitVal c = none) :
    strtol plat base (text ++ rest) = strtol plat base text := by
  have hdrop : text.dropWhile isSpace ≠ [] := by
    obtain ⟨c, hc, hspace⟩ := hne
    intro h
    rw [List.dropWhile_eq_nil_iff.1 h c hc] at hspace
    cases hspace
  have htake : (text ++ rest).takeWhile isSpace = text.takeWhile isSpace := by
    rw [List.takeWhile_append, if_neg]
    intro hlen
    apply hdrop
    rw [List.dropWhile_eq_nil_iff]
    exact List.takeWhile_eq_self_iff.1 ((List.takeWhile_prefix _).eq_of_length hlen)
  obtain ⟨d, tail, htail⟩ := List.exists_cons_of_ne_nil hdrop
  have hbehind : (text ++ rest).dropWhile isSpace = d :: tail ++ rest := by
    rw [List.dropWhile_append, htail]
    rfl
  -- the sign, the mark of the base and the digits are in the text
  simp only [strtol, htake, hbehind, htail, List.cons_append, List.head?_cons]
  generalize hsign : (if some d = some '-' ∨ some d = some '+' then 1 else 0) = sign
  have hle : sign ≤ (d :: tail).length := by
    rw [← hsign, List.length_cons]
    split_ifs <;> omega
  have hunsigned : (d :: (tail ++ rest)).drop sign = (d :: tail).drop sign ++ rest := by
    rw [← List.cons_append, List.drop_append_of_le_length hle]
  rw [hunsigned]
  simp only [numberBase_append hstop]
  rw [List.drop_append_of_le_length (numberBase_le _ _),
    takeWhile_append_stop fun c hc => isDigitOf_of_digitVal_none (hstop c hc) _]

/-- What `strtol` reads is the front of the text, and there is no dot in it. -/
theorem strtol_front (plat : Platform) (base : Nat) (text : List Char) :
    ∃ front rest, text = front ++ rest ∧ '.' ∉ front ∧
      (strtol plat base text).2 = front.length := by
  simp only [strtol]
  generalize hsign : (if (text.dropWhile isSpace).head? = some '-' ∨
    (text.dropWhile isSpace).head? = some '+' then 1 else 0) = sign
  generalize hun : (text.dropWhile isSpace).drop sign = unsigned
  generalize hbehind : unsigned.drop (numberBase base unsigned).2 = behind
  by_cases hempty : behind.takeWhile (isDigitOf (numberBase base unsigned).1) = []
  · rw [if_pos hempty]
    exact ⟨[], text, rfl, List.not_mem_nil, rfl⟩
  rw [if_neg hempty]
  -- blanks, a sign, the mark of the base, and digits
  refine ⟨text.takeWhile isSpace ++ (text.dropWhile isSpace).take sign ++
    unsigned.take (numberBase base unsigned).2 ++
      behind.takeWhile (isDigitOf (numberBase base unsigned).1),
    behind.dropWhile (isDigitOf (numberBase base unsigned).1), ?_, ?_, ?_⟩
  · rw [List.append_assoc _ (behind.takeWhile _), List.takeWhile_append_dropWhile, ← hbehind,
      List.append_assoc _ (unsigned.take _), List.take_append_drop, ← hun, List.append_assoc,
      List.take_append_drop, List.takeWhile_append_dropWhile]
  · simp only [List.mem_append, not_or]
    refine ⟨⟨⟨?_, ?_⟩, not_mem_mark base unsigned⟩, ?_⟩
    · intro hdot
      exact absurd (List.mem_takeWhile_imp hdot) (by decide)
    · rw [← hsign]
      cases text.dropWhile isSpace with
      | nil => simp
      | cons c rest =>
        split_ifs with hc
        · simp only [List.take_succ_cons, List.take_zero, List.mem_singleton]
          rintro rfl
          simp at hc
        · simp
    · intro hdot
      have hdigit := List.mem_takeWhile_imp hdot
      rw [isDigitOf_of_digitVal_none (by decide)] at hdigit
      cases hdigit
  · have hle : sign ≤ (text.dropWhile isSpace).length := by
      rw [← hsign]
      cases text.dropWhile isSpace with
      | nil => simp
      | cons c rest =>
        split_ifs <;> simp
    simp only [List.length_append, List.length_take, Nat.min_eq_left hle,
      Nat.min_eq_left (numberBase_le base unsigned)]

theorem strtol_used_le (plat : Platform) (base : Nat) (text : List Char) :
    (strtol plat base text).2 ≤ text.length := by
  obtain ⟨front, rest, htext, -, hused⟩ := strtol_front plat base text
  rw [hused, htext, List.length_append]
  exact Nat.le_add_right _ _

/-- A text with a dot is no number. -/
theorem strtol_used_ne_of_dot (plat : Platform) (base : Nat) {text : List Char} (h : '.' ∈ text) :
    (strtol plat base text).2 ≠ text.length := by
  obtain ⟨front, rest, htext, hdot, hused⟩ := strtol_front plat base text
  rw [hused]
  intro hlen
  apply hdot
  have hrest : rest = [] := by
    rw [htext, List.length_append] at hlen
    exact List.length_eq_zero_iff.1 (by omega)
  rwa [htext, hrest, List.append_nil] at h

/-- White space is no number. -/
theorem strtol_white (plat : Platform) (base : Nat) {text : List Char}
    (h : ∀ c ∈ text, isSpace c) : strtol plat base text = (0, 0) := by
  have hdrop : text.dropWhile isSpace = [] := List.dropWhile_eq_nil_iff.2 h
  simp [strtol, hdrop]

/-- A character that is neither white space nor a sign and belongs to no number ends what is read,
also behind white space only. -/
theorem strtol_stop (plat : Platform) (base : Nat) {text rest : List Char}
    (hstop : ∀ c ∈ rest.head?, digitVal c = none ∧ isSpace c = false ∧ c ≠ '-' ∧ c ≠ '+') :
    strtol plat base (text ++ rest) = strtol plat base text := by
  by_cases hne : ∃ c ∈ text, isSpace c = false
  · exact strtol_append plat base hne fun c hc => (hstop c hc).1
  have hwhite : ∀ c ∈ text, isSpace c := fun c hc => by
    by_contra h
    exact hne ⟨c, hc, Bool.eq_false_iff.2 h⟩
  cases rest with
  | nil => rw [List.append_nil]
  | cons c rest =>
    obtain ⟨hdigit, hspace, hminus, hplus⟩ := hstop c rfl
    have hzero : c ≠ '0' := by
      rintro rfl
      cases hdigit
    -- behind white space the rest does not start a number
    have hbase : (numberBase base (c :: rest)).2 = 0 := by
      by_cases hb : base = 0
      · subst hb
        simp [numberBase, hzero]
      · simp [numberBase, hb]
    have hbehind : (text ++ c :: rest).dropWhile isSpace = c :: rest := by
      rw [List.dropWhile_append_of_pos hwhite, List.dropWhile_cons_of_neg (by simp [hspace])]
    have hnumber : (c :: rest).takeWhile (isDigitOf (numberBase base (c :: rest)).1) = [] := by
      rw [List.takeWhile_cons_of_neg (by simp [isDigitOf_of_digitVal_none hdigit])]
    rw [strtol_white plat base hwhite]
    simp [strtol, hbehind, hminus, hplus, hbase, hnumber]

/-- White space in front of a number is skipped. -/
theorem strtol_skip (plat : Platform) (base : Nat) {blanks text : List Char}
    (hblanks : ∀ c ∈ blanks, isSpace c) (hread : (strtol plat base text).2 ≠ 0) :
    strtol plat base (blanks ++ text) =
      ((strtol plat base text).1, blanks.length + (strtol plat base text).2) := by
  simp only [strtol, List.takeWhile_append_of_pos hblanks, List.dropWhile_append_of_pos hblanks]
    at hread ⊢
  generalize (if (text.dropWhile isSpace).head? = some '-' ∨
    (text.dropWhile isSpace).head? = some '+' then 1 else 0) = sign at hread ⊢
  generalize (text.dropWhile isSpace).drop sign = unsigned at hread ⊢
  by_cases hempty : (unsigned.drop (numberBase base unsigned).2).takeWhile
      (isDigitOf (numberBase base unsigned).1) = []
  · rw [if_pos hempty] at hread
    exact absurd rfl hread
  · rw [if_neg hempty, if_neg hempty]
    simp only [List.length_append, Nat.add_assoc]

end IpSentinel.Foundation

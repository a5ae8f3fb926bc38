import IpSentinel.BlackList.Ranges
import Mathlib.Data.Bool.AllAny

/-!
# Netmasks

The text of a netmask goes up to the next blank or `@`, and is a number of leading one bits or a
dotted mask. `BlackList_parseNetMask` reads a text with a character other than white space in this
way (`maskPart_eq`). The test for an empty text compares the pointer instead of the character, and
`strtol` skips white space: an empty or white text is taken for the number 0, or for a number that
stands behind it. `maskAsWritten_iff` says for which texts the rules of a net have the mask that
is written there.
-/

set_option autoImplicit false

namespace IpSentinel.BlackList

open Foundation

/-! ## Lines with a net -/

/-- The mark of a rule that ignores its addresses. -/
def bang (ignore : Bool) : List Char := if ignore then ['!'] else []

/-- A text that the parser takes for the address of a host: one word, which is neither `*` nor
starts with a mark. -/
structure IsHostWord (host : List Char) : Prop where
  ne_nil : host ≠ []
  word : ∀ c ∈ host, ¬ (endsHost c ∨ c = nul)
  no_bang : host.head? ≠ some '!'
  no_comment : host.head? ≠ some '#'
  ne_star : host ≠ ['*']

/-- The text of a line in front of the `/`, with the address of the net. -/
structure NetText (lib : AddressLib) where
  blanks : List Char
  ignore : Bool
  host : List Char
  ip : InAddr
  blanks_blank : ∀ c ∈ blanks, isBlank c
  host_word : IsHostWord host
  host_ip : lib.inetAton host = some ip

/-- The line with `text` behind the `/`. -/
def NetText.line {lib : AddressLib} (net : NetText lib) (text : List Char) : List Char :=
  net.blanks ++ (bang net.ignore ++ (net.host ++ '/' :: text))

/-- The mask has `n` leading one bits and zeros behind them. -/
def HasLeadingOnes (mask : InAddr) (n : Nat) : Prop :=
  ∀ i, i < 32 → (ntohl mask).getMsbD i = decide (i < n)

/-- The text is a number up to 32, which `strtol` reads to the end of the text. -/
def IsBitCount (env : ParseEnv) (mask : List Char) (val : Nat) : Prop :=
  strtol env.plat 0 mask = ((val : Int), mask.length) ∧ val ≤ 32

/-- The text of a netmask stands for the mask `m`: a number up to 32 for its leading one bits, and
any other text for an address. -/
structure DenotesMask (env : ParseEnv) (mask : List Char) (m : InAddr) : Prop where
  ne_nil : mask ≠ []
  bitCount : ∀ val, IsBitCount env mask val → HasLeadingOnes m val
  dotted : (∀ val, ¬ IsBitCount env mask val) → env.lib.inetAton mask = some m

/-- A rule that the line adds is one for a net, with the mask that is written in the line. -/
def MaskAsWritten (env : ParseEnv) (mask line : List Char) : Prop :=
  ∀ e, (parseLine env line).1.entry = some e → ∃ n, e = .net n ∧ DenotesMask env mask n.mask

/-! ## The host -/

section Host

variable (env : ParseEnv) {blanks : List Char} (hblanks : ∀ c ∈ blanks, isBlank c)

include hblanks

/-- Behind blanks and the mark the host is read. -/
theorem parseLine_bang (ignore : Bool) {c : Char} (hblank : isBlank c = false) (hbang : c ≠ '!')
    (hcomment : c ≠ '#') (text : List Char) :
    (parseLine env (blanks ++ (bang ignore ++ c :: text))).1 =
      (hostPart env ignore (c :: text)).1 := by
  cases ignore with
  | true =>
    have h := parseLine_start env hblanks (e := '!') rfl (by decide) (c :: text)
    rw [ifHead, if_pos rfl] at h
    exact h
  | false =>
    have h := parseLine_start env hblanks hblank hcomment text
    rw [ifHead, if_neg hbang] at h
    exact h

/-- The host is the word up to its separator. -/
theorem parseLine_host (ignore : Bool) {host : List Char} (hhost : IsHostWord host)
    {text : List Char} (htext : ∀ c ∈ text.head?, endsHost c ∨ c = nul) :
    (parseLine env (blanks ++ (bang ignore ++ (host ++ text)))).1 =
      (afterHost env ignore host text.head? text.tail).1 := by
  obtain ⟨c, tail, rfl⟩ := List.exists_cons_of_ne_nil hhost.ne_nil
  have hc := hhost.word c List.mem_cons_self
  have hblank : isBlank c = false := by
    apply eq_false_of_ne_true
    intro h
    apply hc
    simp [endsHost, h]
  rw [List.cons_append, parseLine_bang env hblanks ignore hblank
    (fun h => hhost.no_bang (congrArg some h)) fun h => hhost.no_comment (congrArg some h)]
  exact withWord_append hhost.word htext

end Host

/-! ## The mask -/

theorem prefixMask_leadingOnes {val : Nat} (h : val ≤ 32) :
    HasLeadingOnes (prefixMask val) val := by
  intro i hi
  rw [prefixMask, ntohl_ntohl]
  split_ifs with hval
  · rw [BitVec.getMsbD_shiftLeft, BitVec.getMsbD_shiftLeft, BitVec.getMsbD_allOnes]
    simp only [decide_eq_decide]
    omega
  · rw [BitVec.getMsbD_allOnes]
    simp only [hi, decide_true]
    symm
    rw [decide_eq_true_eq]
    omega

/-- What a text with a character other than white space is taken for. -/
def readMask (env : ParseEnv) (mask : List Char) : Except ParseError InAddr :=
  let (val, used) := strtol env.plat 0 mask
  if used = mask.length then
    if val < 0 ∨ val > 32 then .error .netmaskRange else .ok (prefixMask val.toNat)
  else
    match env.lib.inetAton mask with
    | none => .error (.invalidNetmask mask)
    | some m => .ok m

/-- A text that `strtol` reads to its end is taken for a number of bits, and any other one for an
address. -/
theorem readMask_denotes {env : ParseEnv} {mask : List Char} (hne : mask ≠ []) {m : InAddr}
    (h : readMask env mask = .ok m) : DenotesMask env mask m := by
  rw [readMask] at h
  split at h
  next val used hread =>
  split_ifs at h with hfull hrange
  · cases h
    obtain ⟨n, rfl⟩ : ∃ n : Nat, val = n := ⟨val.toNat, by omega⟩
    have hcount : IsBitCount env mask n := ⟨by rw [hread, hfull], by omega⟩
    refine ⟨hne, fun val hval => ?_, fun hnot => absurd hcount (hnot n)⟩
    have heq : (n : Int) = val := (Prod.mk.inj (hcount.1.symm.trans hval.1)).1
    rw [Int.toNat_natCast, ← Nat.cast_injective heq]
    exact prefixMask_leadingOnes hcount.2
  · split at h
    · cases h
    · next heq =>
      cases h
      refine ⟨hne, fun val hval => ?_, fun _ => heq⟩
      have hlen : used = mask.length := (Prod.mk.inj (hread.symm.trans hval.1)).2
      exact absurd hlen hfull

/-- No character that ends a netmask belongs to a number. -/
theorem digitVal_of_endsMask {c : Char} (h : endsMask c ∨ c = nul) : digitVal c = none := by
  simp only [endsMask, isBlank, decide_eq_true_eq, Bool.decide_or, Bool.or_eq_true] at h
  rcases h with ((rfl | rfl) | rfl) | rfl <;> decide

/-- `BlackList_parseNetMask` reads the text up to the character that ends it, unless the text is
white space. -/
theorem maskPart_eq (env : ParseEnv) (st : Parsed) {mask tail : List Char}
    (hmask : ∀ c ∈ mask, ¬ (endsMask c ∨ c = nul))
    (htail : ∀ c ∈ tail.head?, endsMask c ∨ c = nul) (hne : ∃ c ∈ mask, isSpace c = false) :
    (maskPart env st (mask ++ tail)).1 =
      match readMask env mask with
      | .error err => .error err
      | .ok m => (atPart env { st with mask := some m } false tail).1 := by
  have hread := strtol_append env.plat 0 hne fun c hc => digitVal_of_endsMask (htail c hc)
  have hle := strtol_used_le env.plat 0 mask
  simp only [maskPart, readMask, hread]
  generalize strtol env.plat 0 mask = r at hle
  obtain ⟨val, used⟩ := r
  dsimp only at hle ⊢
  by_cases hfull : used = mask.length
  · -- the number goes up to the end of the text
    subst hfull
    have hend : tail = [] ∨ ∃ c ∈ tail.head?, c = nul ∨ endsMask c := by
      cases tail with
      | nil => exact Or.inl rfl
      | cons c tail => exact Or.inr ⟨c, rfl, (htail c rfl).symm⟩
    rw [List.drop_left, if_pos hend, if_pos rfl]
    split_ifs
    · rfl
    · rfl
  · -- `strtol` stops inside the text, and `inet_aton` reads all of it
    have hlt : used < mask.length := lt_of_le_of_ne hle hfull
    have hdrop : (mask ++ tail).drop used = mask.drop used ++ tail :=
      List.drop_append_of_le_length hle
    have hcut : cutWord endsMask (mask.drop used ++ tail) =
        ⟨mask.drop used, tail.head?, tail.tail⟩ :=
      cutWord_exact (fun c hc => hmask c (List.mem_of_mem_drop hc)) htail
    have hword : (mask ++ tail).take used ++ mask.drop used = mask := by
      rw [List.take_append_of_le_length hle, List.take_append_drop]
    have hbehind : ¬ (mask.drop used ++ tail = [] ∨
        ∃ c ∈ (mask.drop used ++ tail).head?, c = nul ∨ endsMask c) := by
      obtain ⟨c, rest, hrest⟩ : ∃ c rest, mask.drop used = c :: rest :=
        List.exists_cons_of_ne_nil fun h => by
          have hlen := List.drop_eq_nil_iff.1 h
          omega
      have hc : c ∈ mask := List.mem_of_mem_drop (hrest ▸ List.mem_cons_self)
      rw [hrest]
      rintro (h | ⟨d, hd, h⟩)
      · cases h
      · cases hd
        exact hmask c hc h.symm
    rw [hdrop, if_neg hbehind, if_neg hfull, hcut, hword, List.drop_left]
    cases env.lib.inetAton mask with
    | none => rfl
    | some m => rfl

/-! ## The entry behind the mask -/

/-- The entry is made of the local variables, with some `@` part. -/
def MadeOf (st : Parsed) (e : Entry) : Prop :=
  ∃ atmac status mac h, (({ st with atmac := atmac } : Parsed).entry status mac h).entry = some e

section Made

variable {env : ParseEnv} {st : Parsed} {e : Entry}

theorem macPart_made {text : List Char} (he : (macPart env st text).1.entry = some e) :
    MadeOf st e := by
  rcases macPart_cases env st text with ⟨err, heq⟩ | ⟨status, mac, h, heq, -⟩
  · rw [heq] at he
    cases he
  · rw [heq] at he
    exact ⟨st.atmac, status, mac, h, he⟩

/-- The stages behind the mask set nothing but the `@` part. -/
theorem atPart_made {hasAtmac : Bool} {text : List Char}
    (he : (atPart env st hasAtmac text).1.entry = some e) : MadeOf st e := by
  rcases atPart_cases env st hasAtmac text with ⟨text', heq⟩ | heq
  · rw [heq] at he
    obtain ⟨status, text'', -, heq'⟩ := atMacPart_cases env st text'
    rw [heq'] at he
    change (afterAtMac env st status (cutWord isBlank text'').word _).1.entry = some e at he
    rcases afterAtMac_cases env st status _ _ with ⟨err, herr⟩ | ⟨mac, -, -, hmac⟩
    · rw [herr] at he
      cases he
    · rw [hmac] at he
      -- the `@` part is set on the way
      obtain ⟨atmac, status', mac', h, he⟩ := macPart_made he
      exact ⟨atmac, status', mac', h, he⟩
  · rw [heq, withoutAtMac] at he
    split_ifs at he
    · cases he
    · exact macPart_made he

end Made

/-- An entry made with an address and a mask is one for a net. -/
theorem MadeOf.net {st : Parsed} {e : Entry} (h : MadeOf st e) {ip m : InAddr}
    (hhost : st.host = some ip) (hmask : st.mask = some m) : ∃ n, e = .net n ∧ n.mask = m := by
  obtain ⟨atmac, status, mac, hstatus, he⟩ := h
  simp only [Parsed.entry, hhost, hmask, Outcome.entry, Option.some.injEq] at he
  subst he
  exact ⟨_, rfl, rfl⟩

/-! ## Texts of netmasks -/

variable {env : ParseEnv}

theorem NetText.parseLine_line (net : NetText env.lib) (text : List Char) :
    (parseLine env (net.line text)).1 =
      (maskPart env (.start net.ignore (some net.ip)) text).1 := by
  rw [NetText.line, parseLine_host env net.blanks_blank net.ignore net.host_word
    fun c hc => by cases hc; exact Or.inl rfl]
  rw [afterHost, if_neg net.host_word.ne_star, net.host_ip]
  rfl

/-- A mask with a character other than white space is stored as it is written. -/
theorem NetText.maskAsWritten (net : NetText env.lib) {mask tail : List Char}
    (hmask : ∀ c ∈ mask, ¬ (endsMask c ∨ c = nul))
    (htail : ∀ c ∈ tail.head?, endsMask c ∨ c = nul) (hne : ∃ c ∈ mask, isSpace c = false) :
    MaskAsWritten env mask (net.line (mask ++ tail)) := by
  intro e he
  have hnil : mask ≠ [] := by
    rintro rfl
    obtain ⟨c, hc, -⟩ := hne
    cases hc
  rw [net.parseLine_line, maskPart_eq env _ hmask htail hne] at he
  cases hread : readMask env mask with
  | error err =>
    rw [hread] at he
    cases he
  | ok m =>
    rw [hread] at he
    obtain ⟨n, hn, hm⟩ := (atPart_made he).net rfl rfl
    exact ⟨n, hn, hm ▸ readMask_denotes hnil hread⟩

/-- A line that ends behind the mask adds an entry. -/
theorem atPart_nil_entry (env : ParseEnv) (st : Parsed) (hhost : st.host ≠ none) :
    ∃ e, (atPart env st false []).1.entry = some e := by
  have hdefault : (atPart env st false []).1 = st.default env := by
    simp only [atPart, Bool.false_eq_true, if_false, ifHead, withoutAtMac, if_neg hhost]
    rfl
  obtain ⟨status, mac, h, heq, -⟩ := default_makes env st
  rw [hdefault, heq, Parsed.entry]
  split
  · exact ⟨_, rfl⟩
  · exact ⟨_, rfl⟩
  · exact ⟨_, rfl⟩

/-- A number behind white space is taken for the mask. -/
theorem maskPart_white (env : ParseEnv) (st : Parsed) {mask : List Char}
    (hmask : ∀ c ∈ mask, isSpace c) {d : Char} (hd : d = '4' ∨ d = '5') :
    (maskPart env st (mask ++ [' ', '2', d])).1 =
      (atPart env { st with mask := some (prefixMask (20 + (d.toNat - 48))) } false []).1 := by
  have hread : strtol env.plat 0 ['2', d] = (((20 + (d.toNat - 48) : Nat) : Int), 2) := by
    have hmax := longMax_ge env.plat
    have hmin := longMin_le env.plat
    rcases hd with rfl | rfl
    · simp [strtol, isSpace, numberBase, isDigitOf, digitVal, digitsValue]
      omega
    · simp [strtol, isSpace, numberBase, isDigitOf, digitVal, digitsValue]
      omega
  have hblanks : ∀ c ∈ mask ++ [' '], isSpace c := by
    intro c hc
    rcases List.mem_append.1 hc with hc | hc
    · exact hmask c hc
    · rw [List.mem_singleton.1 hc]
      rfl
  -- `strtol` skips the white space, so the number behind the separator is in its reach
  have htext : mask ++ [' ', '2', d] = mask ++ [' '] ++ ['2', d] := by simp
  have hskip : strtol env.plat 0 (mask ++ [' '] ++ ['2', d]) =
      (((20 + (d.toNat - 48) : Nat) : Int), (mask ++ [' '] ++ ['2', d]).length) := by
    rw [strtol_skip env.plat 0 hblanks (by rw [hread]; exact two_ne_zero), hread]
    simp
  simp only [maskPart, htext, hskip, List.drop_length, true_or, if_true]
  have hsmall : d.toNat - 48 = 4 ∨ d.toNat - 48 = 5 := by
    rcases hd with rfl | rfl
    · exact Or.inl rfl
    · exact Or.inr rfl
  rw [if_neg (by omega), Int.toNat_natCast]

/-- For which texts of a netmask the rules of a line have the mask that is written there, whatever
follows the text: exactly those with a character other than white space. -/
theorem maskAsWritten_iff (env : ParseEnv) (net : NetText env.lib) (mask : List Char)
    (hmask : ∀ c ∈ mask, ¬ (endsMask c ∨ c = nul)) :
    (∀ tail : List Char, (∀ c ∈ tail.head?, endsMask c ∨ c = nul) →
      MaskAsWritten env mask (net.line (mask ++ tail))) ↔ ∃ c ∈ mask, isSpace c = false := by
  constructor
  · intro h
    by_contra hwhite
    have hall : ∀ c ∈ mask, isSpace c := by
      intro c hc
      by_contra hspace
      exact hwhite ⟨c, hc, eq_false_of_ne_true hspace⟩
    -- two numbers behind the white text make two rules
    have hrule : ∀ d : Char, d = '4' ∨ d = '5' →
        mask ≠ [] ∧ env.lib.inetAton mask = some (prefixMask (20 + (d.toNat - 48))) := by
      intro d hd
      have htail : ∀ c ∈ [' ', '2', d].head?, endsMask c ∨ c = nul := by
        intro c hc
        cases hc
        exact Or.inl rfl
      obtain ⟨e, he⟩ := atPart_nil_entry env
        { Parsed.start net.ignore (some net.ip) with
          mask := some (prefixMask (20 + (d.toNat - 48))) } (Option.some_ne_none _)
      obtain ⟨n, rfl, hn⟩ := (atPart_made he).net rfl rfl
      have hline : (parseLine env (net.line (mask ++ [' ', '2', d]))).1.entry = some (.net n) := by
        rw [net.parseLine_line, maskPart_white env _ hall hd]
        exact he
      obtain ⟨n', hn', hdenotes⟩ := h _ htail _ hline
      cases hn'
      refine ⟨hdenotes.ne_nil, ?_⟩
      have hip := hdenotes.dotted fun val hval => ?_
      · rwa [hn] at hip
      · -- `strtol` reads nothing of a white text
        have hread := hval.1
        rw [strtol_white env.plat 0 hall, Prod.mk.injEq] at hread
        exact hdenotes.ne_nil (List.length_eq_zero_iff.1 hread.2.symm)
    obtain ⟨-, h4⟩ := hrule '4' (Or.inl rfl)
    obtain ⟨-, h5⟩ := hrule '5' (Or.inr rfl)
    rw [h4, Option.some.injEq] at h5
    exact absurd h5 (by decide)
  · intro hne tail htail
    exact net.maskAsWritten hmask htail hne

/-- The net 10.0.0.0. -/
def tenNet : NetText referenceAddressLib where
  blanks := []
  ignore := false
  host := "10.0.0.0".toList
  ip := 10
  blanks_blank := forall_mem_nil_blank
  host_word := ⟨by decide, List.all_iff_forall_prop.1 rfl, by decide, by decide, by decide⟩
  host_ip := by decide

/-- The rule of the line `10.0.0.0/8@1:1:1:2:2:2` has the mask 255.0.0.0. -/
theorem maskAsWritten_eight : MaskAsWritten referenceEnv.toParseEnv ['8']
    (tenNet.line (['8'] ++ "@1:1:1:2:2:2".toList)) := by
  apply (maskAsWritten_iff referenceEnv.toParseEnv tenNet ['8'] (List.all_iff_forall_prop.1 rfl)).2
  · exact ⟨'8', List.mem_singleton_self _, rfl⟩
  · rintro c ⟨⟩
    exact Or.inl rfl

/-- The line `10.0.0.0/` adds a rule for all addresses. -/
theorem emptyMask_blocks_all :
    (∃ n, (parseLine referenceEnv.toParseEnv "10.0.0.0/".toList).1.entry = some (.net n) ∧
      n.mask = 0 ∧ n.v.status = .blRAND) ∧
    ¬ MaskAsWritten referenceEnv.toParseEnv [] "10.0.0.0/".toList := by
  have hentry : ∃ n, (parseLine referenceEnv.toParseEnv "10.0.0.0/".toList).1.entry =
      some (.net n) ∧ n.mask = 0 ∧ n.v.status = .blRAND := ⟨_, rfl, by decide, by decide⟩
  refine ⟨hentry, fun h => ?_⟩
  obtain ⟨n, hn, -⟩ := hentry
  obtain ⟨n', -, hdenotes⟩ := h _ hn
  exact hdenotes.ne_nil rfl

end IpSentinel.BlackList

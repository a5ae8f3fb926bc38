import IpSentinel.BlackList.NetMask
import IpSentinel.Net.EtherAton

/-!
# The grammar of the configuration

The lines of the manual as a type: a `RuleLine` is made of the parts of a rule, each with what it
stands for, and `RuleLine.text` writes it down. `parseLine_grammar` says that `BlackList_parseLine`
appends exactly the entry that a rule describes, and nothing for the combinations of parts that
the manual excludes, for blank lines and for comments.
-/

set_option autoImplicit false

namespace IpSentinel.BlackList

open Foundation

/-! ## The parts of a line -/

/-- A MAC: hexadecimal digits and colons that `ether_aton_r` reads. -/
structure MacText (lib : AddressLib) where
  text : List Char
  mac : EtherAddr
  chars : ∀ c ∈ text, (hexVal c).isSome ∨ c = ':'
  reads : lib.etherAton text = some mac

/-- The part with the MAC of a sender. -/
structure AtText (lib : AddressLib) where
  negative : Bool
  mac : MacText lib

/-- What stands for the MAC to be assigned. -/
inductive MacWord (lib : AddressLib) where
  | mac (m : MacText lib)
  | LOCAL
  | IEEE8021d
  | IEEE8023x
  | RANDOM

/-- The MAC to be assigned, behind blanks. -/
structure MacField (lib : AddressLib) where
  blanks : List Char
  word : MacWord lib
  blanks_ne : blanks ≠ []
  blanks_blank : ∀ c ∈ blanks, isBlank c

/-- A netmask: a number up to 32, or a dotted mask. -/
structure MaskText (env : ParseEnv) where
  text : List Char
  mask : InAddr
  word : ∀ c ∈ text, ¬ (endsMask c ∨ c = nul)
  denotes :
    (∃ val : Nat, text ≠ [] ∧ strtol env.plat 0 text = ((val : Int), text.length) ∧ val ≤ 32 ∧
        HasLeadingOnes mask val) ∨
      '.' ∈ text ∧ env.lib.inetAton text = some mask

/-- The host: `*`, or an address. -/
inductive HostText (lib : AddressLib) where
  | star
  | address (text : List Char) (ip : InAddr) (word : IsHostWord text)
      (reads : lib.inetAton text = some ip)

/-- A line with a rule. Blanks separate a comment from a rule without a MAC. -/
structure RuleLine (env : ParseEnv) where
  blanks : List Char
  ignore : Bool
  host : HostText env.lib
  mask : Option (MaskText env)
  atmac : Option (AtText env.lib)
  mac : Option (MacField env.lib)
  tailBlanks : List Char
  comment : List Char
  blanks_blank : ∀ c ∈ blanks, isBlank c
  tailBlanks_blank : ∀ c ∈ tailBlanks, isBlank c
  comment_mark : ∀ c ∈ comment.head?, c = '#'
  separated : mac = none → comment ≠ [] → tailBlanks ≠ []

/-! ## The text of a line -/

def AtText.text {lib : AddressLib} (a : AtText lib) : List Char :=
  '@' :: (bang a.negative ++ a.mac.text)

def MacWord.text {lib : AddressLib} : MacWord lib → List Char
  | .mac m => m.text
  | .LOCAL => "LOCAL".toList
  | .IEEE8021d => "802.1d".toList
  | .IEEE8023x => "802.3x".toList
  | .RANDOM => "RANDOM".toList

def HostText.text {lib : AddressLib} : HostText lib → List Char
  | .star => ['*']
  | .address text _ _ _ => text

namespace RuleLine

variable {env : ParseEnv} (line : RuleLine env)

/-- The MAC and what follows it. -/
def rest : List Char :=
  line.mac.elim [] (fun f => f.blanks ++ f.word.text) ++ (line.tailBlanks ++ line.comment)

/-- The `@` part and what follows it. -/
def atRest : List Char := line.atmac.elim [] AtText.text ++ line.rest

def text : List Char :=
  line.blanks ++ (bang line.ignore ++
    (line.host.text ++ (line.mask.elim [] (fun m => '/' :: m.text) ++ line.atRest)))

/-! ## What a line describes -/

/-- The `@` parts that `*` excludes: none at all, and one with `!`. -/
def StarExcluded : Prop := line.atmac = none ∨ ∃ a ∈ line.atmac, a.negative = true

/-- The combinations of parts that the manual excludes: `!` with `*`, `!` with a MAC, `*` with a
mask, `*` without `@`, and `*@!mac`. -/
def Excluded : Prop :=
  line.ignore = true ∧ line.host = .star ∨
    line.ignore = true ∧ line.mac ≠ none ∨
      line.host = .star ∧ (line.mask ≠ none ∨ line.StarExcluded)

end RuleLine

/-- The destination address of the bridge protocol, for which `802.1d` stands. -/
def bridgeMac : EtherAddr := ⟨#v[0x01, 0x80, 0xC2, 0, 0, 0]⟩

/-- The destination address of pause frames, for which `802.3x` stands. -/
def pauseMac : EtherAddr := ⟨#v[0x01, 0x80, 0xC2, 0, 0, 1]⟩

/-- The library reads the two addresses of `xether_aton_r`. -/
structure ReadsNamedMacs (lib : AddressLib) : Prop where
  bridge : lib.etherAton "01:80:C2:00:00:00".toList = some bridgeMac
  pause : lib.etherAton "01:80:C2:00:00:01".toList = some pauseMac

/-- The program's own `ether_aton_r` reads them. -/
theorem ownAddressLib_readsNamedMacs (inetAton : List Char → Option InAddr) :
    ReadsNamedMacs (ownAddressLib inetAton) where
  bridge := (by decide : etherAton "01:80:C2:00:00:00".toList = some bridgeMac)
  pause := (by decide : etherAton "01:80:C2:00:00:01".toList = some pauseMac)

def MacWord.status {lib : AddressLib} : MacWord lib → BlackListStatus
  | .RANDOM => .blRAND
  | _ => .blSET

/-- The address the word stands for. -/
def MacWord.value (env : ParseEnv) : MacWord env.lib → Option EtherAddr
  | .mac m => some m.mac
  | .LOCAL => some env.localMac
  | .IEEE8021d => some bridgeMac
  | .IEEE8023x => some pauseMac
  | .RANDOM => none

/-- The status of `--mac`. -/
def DefaultMac.status : DefaultMac → BlackListStatus
  | .mcRANDOM => .blRAND
  | .mcFIXED _ => .blSET

/-- The address of `--mac`. -/
def DefaultMac.value : DefaultMac → Option EtherAddr
  | .mcRANDOM => none
  | .mcFIXED ether => some ether

namespace RuleLine

variable {env : ParseEnv} (line : RuleLine env)

def status : BlackListStatus :=
  if line.ignore then .blIGNORE else line.mac.elim env.mac.status fun f => f.word.status

/-- The address to be assigned, unless the rule ignores the host or assigns a random one. -/
def value : Option EtherAddr :=
  if line.ignore then none else line.mac.elim env.mac.value fun f => f.word.value env

/-- The `@` part as it is written. -/
def atmacWritten : AtMac :=
  line.atmac.elim ⟨.zero, .amNONE⟩ fun a =>
    ⟨a.mac.mac, if a.negative then .amNEGATIVE else .amPOSITIVE⟩

/-- The status, the MAC and the `@` part of an entry are those of the line. -/
structure DescribesBase (v : BaseData) : Prop where
  status : v.status = line.status
  mac : ∀ m ∈ line.value, v.mac = m
  atmac : v.atmac = line.atmacWritten

/-- The entry of the line: of the list of nets, when the line has a mask or `*`, else of the list of
addresses. -/
def Describes (e : Entry) : Prop :=
  match line.host, line.mask with
  | .star, _ => ∃ n, e = .net n ∧ n.noIp = true ∧ n.v.ip = 0 ∧ n.mask = 0 ∧ line.DescribesBase n.v
  | .address _ ip _ _, some m =>
    ∃ n, e = .net n ∧ n.noIp = false ∧ n.v.ip = ip &&& m.mask ∧ n.mask = m.mask ∧
      line.DescribesBase n.v
  | .address _ ip _ _, none => ∃ d, e = .ip d ∧ d.v.ip = ip ∧ line.DescribesBase d.v

end RuleLine

/-! ## Words -/

/-- A character that neither ends a word nor is a mark. -/
def IsMacChar (c : Char) : Prop := ¬ (endsMac c ∨ c = nul) ∧ c ≠ '@' ∧ c ≠ '!'

instance (c : Char) : Decidable (IsMacChar c) :=
  inferInstanceAs (Decidable (¬ (endsMac c ∨ c = nul) ∧ c ≠ '@' ∧ c ≠ '!'))

theorem IsMacChar.not_blank {c : Char} (h : IsMacChar c) : isBlank c = false := by
  apply eq_false_of_ne_true
  intro hblank
  apply h.1
  simp [endsMac, hblank]

theorem isMacChar_of_hex {c : Char} (h : (hexVal c).isSome ∨ c = ':') : IsMacChar c := by
  rcases h with h | rfl
  · refine ⟨?_, ?_, ?_⟩
    · simp only [endsMac, isBlank, decide_eq_true_eq, Bool.decide_or, Bool.or_eq_true]
      rintro ((rfl | rfl | rfl) | rfl) <;> exact absurd h (by decide)
    · rintro rfl
      exact absurd h (by decide)
    · rintro rfl
      exact absurd h (by decide)
  · decide

theorem MacText.plain {lib : AddressLib} (m : MacText lib) : ∀ c ∈ m.text, IsMacChar c :=
  fun c hc => isMacChar_of_hex (m.chars c hc)

theorem MacText.ne_nil {lib : AddressLib} (m : MacText lib) : m.text ≠ [] :=
  List.ne_nil_of_mem (lib.mem_colon m.reads)

theorem MacWord.plain {lib : AddressLib} (w : MacWord lib) : ∀ c ∈ w.text, IsMacChar c := by
  cases w with
  | mac m => exact m.plain
  | LOCAL => exact List.all_iff_forall_prop.1 rfl
  | IEEE8021d => exact List.all_iff_forall_prop.1 rfl
  | IEEE8023x => exact List.all_iff_forall_prop.1 rfl
  | RANDOM => exact List.all_iff_forall_prop.1 rfl

theorem MacWord.ne_nil {lib : AddressLib} (w : MacWord lib) : w.text ≠ [] := by
  cases w with
  | mac m => exact m.ne_nil
  | LOCAL => exact List.cons_ne_nil _ _
  | IEEE8021d => exact List.cons_ne_nil _ _
  | IEEE8023x => exact List.cons_ne_nil _ _
  | RANDOM => exact List.cons_ne_nil _ _

/-! ## What follows the `@` part -/

theorem head?_append_blank {blanks text : List Char} (h : ∀ c ∈ blanks, isBlank c) :
    ∀ c ∈ (blanks ++ text).head?, isBlank c ∨ c ∈ text.head? := by
  intro c hc
  cases blanks with
  | nil => exact Or.inr hc
  | cons b blanks =>
    cases hc
    exact Or.inl (h c List.mem_cons_self)

theorem dropWhile_tail {p : Char → Bool} {text : List Char} (h : ∀ c ∈ text.head?, p c) :
    text.tail.dropWhile p = text.dropWhile p := by
  cases text with
  | nil => rfl
  | cons c text => rw [List.tail_cons, List.dropWhile_cons_of_pos (h c rfl)]

namespace RuleLine

variable {env : ParseEnv} (line : RuleLine env)

/-- Behind the parts in front of the MAC there is a blank, or nothing. -/
theorem rest_head : ∀ c ∈ line.rest.head?, isBlank c := by
  intro c hc
  rw [rest] at hc
  cases hmac : line.mac with
  | none =>
    rw [hmac, Option.elim_none, List.nil_append] at hc
    cases htail : line.tailBlanks with
    | nil =>
      have hcomment : line.comment = [] := by
        by_contra hne
        exact line.separated hmac hne htail
      rw [htail, hcomment] at hc
      cases hc
    | cons b blanks =>
      rw [htail] at hc
      cases hc
      exact line.tailBlanks_blank _ (htail ▸ List.mem_cons_self)
  | some f =>
    obtain ⟨b, blanks, hblanks⟩ := List.exists_cons_of_ne_nil f.blanks_ne
    rw [hmac, Option.elim_some, hblanks] at hc
    cases hc
    exact f.blanks_blank _ (hblanks ▸ List.mem_cons_self)

/-- No part with a blank in front of it starts with `@`. -/
theorem rest_tail_head : ∀ c ∈ line.rest.tail.head?, c ≠ '@' := by
  have hblank : ∀ c, isBlank c → c ≠ '@' := by
    rintro c h rfl
    exact absurd h (by decide)
  have htail : ∀ blanks : List Char, (∀ c ∈ blanks, isBlank c) →
      ∀ c ∈ (blanks ++ line.comment).head?, c ≠ '@' := by
    intro blanks hblanks c hc
    rcases head?_append_blank hblanks c hc with h | h
    · exact hblank c h
    · rw [line.comment_mark c h]
      decide
  cases hmac : line.mac with
  | none =>
    rw [rest, hmac, Option.elim_none, List.nil_append]
    cases hblanks : line.tailBlanks with
    | nil =>
      have hcomment : line.comment = [] := by
        by_contra hne
        exact line.separated hmac hne hblanks
      rw [hcomment]
      intro c hc
      cases hc
    | cons b blanks =>
      apply htail blanks
      intro c hc
      exact line.tailBlanks_blank c (hblanks ▸ List.mem_cons_of_mem b hc)
  | some f =>
    obtain ⟨b, blanks, hblanks⟩ := List.exists_cons_of_ne_nil f.blanks_ne
    obtain ⟨m, word, hword⟩ := List.exists_cons_of_ne_nil f.word.ne_nil
    have hall : ∀ c ∈ blanks, isBlank c :=
      fun c hc => f.blanks_blank c (hblanks ▸ List.mem_cons_of_mem b hc)
    rw [rest, hmac, Option.elim_some, hblanks, hword, List.cons_append, List.cons_append,
      List.tail_cons, List.append_assoc]
    intro c hc
    rcases head?_append_blank hall c hc with h | h
    · exact hblank c h
    · cases h
      exact (f.word.plain m (hword ▸ List.mem_cons_self)).2.1

/-- The entry of the line with the local variables `st`. -/
def result (st : Parsed) : Outcome :=
  line.mac.elim (st.default env) fun f => st.assigned env f.word.text

/-- The MAC is read wherever the parser stands in the blanks in front of it. -/
theorem macPart_rest (st : Parsed) {text : List Char}
    (h : text.dropWhile isBlank = line.rest.dropWhile isBlank) :
    (macPart env st text).1 = line.result st := by
  rw [macPart, skipThen, h, rest, result]
  cases hmac : line.mac with
  | none =>
    rw [Option.elim_none, List.nil_append, List.dropWhile_append_of_pos line.tailBlanks_blank]
    cases hcomment : line.comment with
    | nil => rfl
    | cons c comment =>
      obtain rfl := line.comment_mark c (by rw [hcomment]; rfl)
      rw [List.dropWhile_cons_of_neg (by decide), ifEnd, ifHead, if_pos rfl]
      rfl
  | some f =>
    obtain ⟨c, word, hword⟩ := List.exists_cons_of_ne_nil f.word.ne_nil
    have hc : IsMacChar c := f.word.plain c (hword ▸ List.mem_cons_self)
    have hmark : c ≠ '#' := by
      rintro rfl
      exact hc.1 (Or.inl rfl)
    have hends : ∀ c ∈ (line.tailBlanks ++ line.comment).head?, endsMac c ∨ c = nul := by
      intro c hc
      rcases head?_append_blank line.tailBlanks_blank c hc with h | h
      · exact Or.inl (by simp [endsMac, h])
      · rw [line.comment_mark c h]
        exact Or.inl rfl
    have hcut := withWord_append (f := fun word _ => done (st.assigned env word))
      (fun c hc => (f.word.plain c hc).1) hends
    rw [hword, List.cons_append] at hcut
    rw [Option.elim_some, Option.elim_some, List.append_assoc,
      List.dropWhile_append_of_pos f.blanks_blank, hword, List.cons_append,
      List.dropWhile_cons_of_neg (by simp [hc.not_blank]), ifEnd, ifHead, if_neg hmark]
    exact hcut

/-! ## The `@` part -/

/-- The `@` part is read behind its `@`. -/
theorem atMacPart_text (st : Parsed) (a : AtText env.lib) :
    (atMacPart env st (bang a.negative ++ (a.mac.text ++ line.rest))).1 =
      if st.host = none ∧ a.negative = true then .error .negativeStar
      else line.result { st with atmac :=
        ⟨a.mac.mac, if a.negative then .amNEGATIVE else .amPOSITIVE⟩ } := by
  have hword : ∀ c ∈ a.mac.text, ¬ (isBlank c ∨ c = nul) := by
    rintro c hc (hblank | hnul)
    · exact absurd hblank (by simp [(a.mac.plain c hc).not_blank])
    · exact (a.mac.plain c hc).1 (Or.inr hnul)
  -- both kinds of an `@` part read the MAC up to a blank
  have hmac : ∀ status, (atMac env st status (a.mac.text ++ line.rest)).1 =
      if st.host = none ∧ status = .amNEGATIVE then .error .negativeStar
      else line.result { st with atmac := ⟨a.mac.mac, status⟩ } := by
    intro status
    have hcut := withWord_append (f := fun word _ => afterAtMac env st status word) hword
      fun c hc => Or.inl (line.rest_head c hc)
    have hreads : env.lib.xetherAton env.localMac a.mac.text = some a.mac.mac := by
      rw [env.lib.xetherAton_of_colon env.localMac (env.lib.mem_colon a.mac.reads), a.mac.reads]
    refine hcut.trans ?_
    rw [afterAtMac, hreads]
    dsimp only
    split_ifs
    · rfl
    · exact line.macPart_rest _ (dropWhile_tail line.rest_head)
  rw [atMacPart]
  cases hneg : a.negative with
  | true =>
    rw [bang, if_pos rfl, List.cons_append, ifHead, if_pos rfl]
    simpa using hmac .amNEGATIVE
  | false =>
    obtain ⟨c, text, htext⟩ := List.exists_cons_of_ne_nil a.mac.ne_nil
    have hc : c ≠ '!' := (a.mac.plain c (htext ▸ List.mem_cons_self)).2.2
    have hpos := hmac .amPOSITIVE
    rw [htext, List.cons_append] at hpos
    rw [bang, if_neg Bool.false_ne_true, List.nil_append, htext, List.cons_append, ifHead,
      if_neg hc]
    simpa using hpos

/-- What follows the host and the mask. -/
def atResult (st : Parsed) : Outcome :=
  match line.atmac with
  | none => if st.host = none then .error .starWithoutMac else line.result st
  | some a =>
    if st.host = none ∧ a.negative = true then .error .negativeStar
    else line.result { st with atmac := line.atmacWritten }

theorem atPart_atRest (st : Parsed) :
    (atPart env st false line.atRest).1 = line.atResult st := by
  rw [atPart, if_neg Bool.false_ne_true, atRest, atResult]
  cases hat : line.atmac with
  | none =>
    have hhead : ∀ c ∈ line.rest.head?, c ≠ '@' := by
      rintro c hc rfl
      exact absurd (line.rest_head _ hc) (by decide)
    rw [Option.elim_none, List.nil_append, ifHead_of_ne hhead, withoutAtMac]
    dsimp only
    split_ifs
    · rfl
    · exact line.macPart_rest st rfl
  | some a =>
    rw [Option.elim_some, AtText.text, List.cons_append, List.append_assoc, ifHead, if_pos rfl,
      atmacWritten, hat, Option.elim_some]
    exact line.atMacPart_text st a

/-- Behind the host the `@` or the blank has been read already. -/
theorem atPart_behind (st : Parsed) :
    (atPart env st (line.atRest.head? = some '@') line.atRest.tail).1 = line.atResult st := by
  rw [atPart, atResult]
  cases hat : line.atmac with
  | none =>
    have hrest : line.atRest = line.rest := by rw [atRest, hat, Option.elim_none, List.nil_append]
    have hhead : line.rest.head? ≠ some '@' := by
      intro h
      exact absurd (line.rest_head '@' h) (by decide)
    rw [hrest, decide_eq_false hhead, if_neg Bool.false_ne_true,
      ifHead_of_ne line.rest_tail_head, withoutAtMac]
    dsimp only
    split_ifs
    · rfl
    · exact line.macPart_rest st (dropWhile_tail line.rest_head)
  | some a =>
    have hrest : line.atRest = '@' :: (bang a.negative ++ (a.mac.text ++ line.rest)) := by
      rw [atRest, hat, Option.elim_some, AtText.text, List.cons_append, List.append_assoc]
    rw [hrest, List.head?_cons, decide_eq_true rfl, if_pos rfl, List.tail_cons, atmacWritten, hat,
      Option.elim_some]
    exact line.atMacPart_text st a

/-! ## The host and the mask -/

theorem atRest_head : ∀ c ∈ line.atRest.head?, endsMask c := by
  intro c hc
  rw [atRest] at hc
  cases hat : line.atmac with
  | none =>
    rw [hat, Option.elim_none, List.nil_append] at hc
    simp [endsMask, line.rest_head c hc]
  | some a =>
    rw [hat, Option.elim_some, AtText.text, List.cons_append] at hc
    cases hc
    rfl

/-- What follows the host. -/
def hostRest : List Char := line.mask.elim [] (fun m => '/' :: m.text) ++ line.atRest

theorem hostRest_head : ∀ c ∈ line.hostRest.head?, endsHost c ∨ c = nul := by
  intro c hc
  rw [hostRest] at hc
  cases hmask : line.mask with
  | none =>
    rw [hmask, Option.elim_none, List.nil_append] at hc
    have hends := line.atRest_head c hc
    simp only [endsMask, decide_eq_true_eq, Bool.decide_or, Bool.or_eq_true] at hends
    simp only [endsHost, decide_eq_true_eq, Bool.decide_or, Bool.or_eq_true]
    tauto
  | some m =>
    rw [hmask, Option.elim_some] at hc
    cases hc
    exact Or.inl rfl

end RuleLine

theorem HasLeadingOnes.unique {m m' : InAddr} {n : Nat} (h : HasLeadingOnes m n)
    (h' : HasLeadingOnes m' n) : m = m' := by
  rw [← ntohl_inj]
  apply BitVec.eq_of_getMsbD_eq
  intro i hi
  rw [h i hi, h' i hi]

/-- `BlackList_parseNetMask` takes the text of a mask for the mask. -/
theorem MaskText.readMask {env : ParseEnv} (m : MaskText env) :
    BlackList.readMask env m.text = .ok m.mask := by
  rw [BlackList.readMask]
  rcases m.denotes with ⟨val, -, hread, hle, hones⟩ | ⟨hdot, hreads⟩
  · rw [hread]
    dsimp only
    rw [if_pos rfl, if_neg (by omega), Int.toNat_natCast]
    exact congrArg _ ((prefixMask_leadingOnes hle).unique hones)
  · have hused := strtol_used_ne_of_dot env.plat 0 hdot
    generalize strtol env.plat 0 m.text = r at hused
    obtain ⟨val, used⟩ := r
    dsimp only at hused ⊢
    rw [if_neg hused, hreads]

theorem MaskText.not_white {env : ParseEnv} (m : MaskText env) :
    ∃ c ∈ m.text, isSpace c = false := by
  rcases m.denotes with ⟨val, hne, hread, -, -⟩ | ⟨hdot, -⟩
  · by_contra hwhite
    have hall : ∀ c ∈ m.text, isSpace c := by
      intro c hc
      by_contra hspace
      exact hwhite ⟨c, hc, eq_false_of_ne_true hspace⟩
    rw [strtol_white env.plat 0 hall, Prod.mk.injEq] at hread
    exact hne (List.length_eq_zero_iff.1 hread.2.symm)
  · exact ⟨'.', hdot, rfl⟩

namespace RuleLine

variable {env : ParseEnv} (line : RuleLine env)

/-- Without a mask the host is followed by the `@` part, which does not start with a slash. -/
theorem hostRest_of_no_mask (hmask : line.mask = none) :
    line.hostRest = line.atRest ∧ line.hostRest.head? ≠ some '/' := by
  have hrest : line.hostRest = line.atRest := by
    rw [hostRest, hmask, Option.elim_none, List.nil_append]
  refine ⟨hrest, fun h => ?_⟩
  rw [hrest] at h
  exact absurd (line.atRest_head '/' h) (by decide)

theorem hostRest_of_mask {m : MaskText env} (hmask : line.mask = some m) :
    line.hostRest = '/' :: (m.text ++ line.atRest) := by
  rw [hostRest, hmask, Option.elim_some, List.cons_append]

/-- What `BlackList_parseLine` does with a line for all addresses. -/
theorem parseLine_star (hhost : line.host = .star) :
    (parseLine env line.text).1 =
      if line.ignore then .error .ignoreStar
      else if line.mask ≠ none then .error .maskStar
      else line.atResult (.start false none) := by
  rw [text, ← hostRest, hhost, HostText.text, List.singleton_append,
    parseLine_bang env line.blanks_blank line.ignore rfl (by decide) (by decide)]
  have hstar : ∀ c ∈ ['*'], ¬ (endsHost c ∨ c = nul) :=
    List.forall_mem_singleton.2 (by decide)
  refine (withWord_append hstar line.hostRest_head).trans ?_
  rw [afterHost, if_pos rfl]
  cases hignore : line.ignore with
  | true => rfl
  | false =>
    rw [if_neg Bool.false_ne_true, if_neg Bool.false_ne_true]
    cases hmask : line.mask with
    | none =>
      obtain ⟨hrest, hslash⟩ := line.hostRest_of_no_mask hmask
      rw [if_neg hslash, hrest, if_neg (not_not.2 rfl)]
      exact line.atPart_behind _
    | some m =>
      rw [line.hostRest_of_mask hmask, List.head?_cons, if_pos rfl,
        if_pos (Option.some_ne_none m)]
      rfl

/-- What `BlackList_parseLine` does with a line for one address. -/
theorem parseLine_address {host : List Char} {ip : InAddr} (word : IsHostWord host)
    (reads : env.lib.inetAton host = some ip) (hhost : line.host = .address host ip word reads) :
    (parseLine env line.text).1 =
      line.atResult { Parsed.start line.ignore (some ip) with
        mask := line.mask.map MaskText.mask } := by
  rw [text, ← hostRest, hhost, HostText.text,
    parseLine_host env line.blanks_blank line.ignore word line.hostRest_head,
    afterHost, if_neg word.ne_star, reads]
  dsimp only
  cases hmask : line.mask with
  | none =>
    obtain ⟨hrest, hslash⟩ := line.hostRest_of_no_mask hmask
    rw [if_neg hslash, hrest]
    exact line.atPart_behind _
  | some m =>
    rw [line.hostRest_of_mask hmask, List.head?_cons, if_pos rfl, List.tail_cons,
      maskPart_eq env _ m.word (fun c hc => Or.inl (line.atRest_head c hc)) m.not_white,
      m.readMask]
    exact line.atPart_atRest _

/-! ## The entry -/

/-- A MAC is assigned. -/
theorem assigned_mac {st : Parsed} (hignore : st.ignore = false) (m : MacText env.lib) :
    st.assigned env m.text = st.entry .blSET m.mac (by decide) := by
  have hcolon := env.lib.mem_colon m.reads
  have hrandom : m.text ≠ "RANDOM".toList := by
    intro h
    rw [h] at hcolon
    exact absurd hcolon (by decide)
  rw [Parsed.assigned, hignore, if_neg Bool.false_ne_true, if_neg hrandom,
    env.lib.xetherAton_of_colon env.localMac hcolon, m.reads]

theorem assigned_random {st : Parsed} (hignore : st.ignore = false) :
    st.assigned env "RANDOM".toList = st.entry .blRAND env.uninit (by decide) := by
  rw [Parsed.assigned, hignore, if_neg Bool.false_ne_true, if_pos rfl]

/-- The word of a MAC decides the status, and names the MAC unless it is `RANDOM`. -/
theorem assigned_word (hlib : ReadsNamedMacs env.lib) {st : Parsed} (hignore : st.ignore = false)
    (w : MacWord env.lib) :
    ∃ mac h, st.assigned env w.text = st.entry w.status mac h ∧ ∀ m ∈ w.value env, mac = m := by
  have hset : ∀ mac, w.text ≠ "RANDOM".toList →
      env.lib.xetherAton env.localMac w.text = some mac →
        st.assigned env w.text = st.entry .blSET mac (by decide) := by
    intro mac hrandom hreads
    rw [Parsed.assigned, hignore, if_neg Bool.false_ne_true, if_neg hrandom, hreads]
  cases w with
  | mac m =>
    refine ⟨m.mac, _, assigned_mac hignore m, ?_⟩
    rintro mac ⟨⟩
    rfl
  | LOCAL =>
    have hname : "LOCAL".toList ≠ "RANDOM".toList := by decide
    refine ⟨env.localMac, _, hset _ hname rfl, ?_⟩
    rintro mac ⟨⟩
    rfl
  | IEEE8021d =>
    have hname : "802.1d".toList ≠ "RANDOM".toList := by decide
    refine ⟨bridgeMac, _, hset _ hname hlib.bridge, ?_⟩
    rintro mac ⟨⟩
    rfl
  | IEEE8023x =>
    have hname : "802.3x".toList ≠ "RANDOM".toList := by decide
    refine ⟨pauseMac, _, hset _ hname hlib.pause, ?_⟩
    rintro mac ⟨⟩
    rfl
  | RANDOM =>
    refine ⟨env.uninit, _, assigned_random hignore, ?_⟩
    rintro mac ⟨⟩

/-- A line without an excluded MAC has the entry with its status and its MAC. -/
theorem result_eq (hlib : ReadsNamedMacs env.lib) {st : Parsed} (hst : st.ignore = line.ignore)
    (hmac : ¬ (line.ignore = true ∧ line.mac ≠ none)) :
    ∃ mac h, line.result st = st.entry line.status mac h ∧ ∀ m ∈ line.value, mac = m := by
  rw [result, status, value]
  cases hignore : line.ignore with
  | true =>
    have hnone : line.mac = none := by
      by_contra hne
      exact hmac ⟨hignore, hne⟩
    rw [hignore] at hst
    refine ⟨env.uninit, by simp, ?_, ?_⟩
    · rw [hnone, Option.elim_none, Parsed.default, hst, if_pos rfl]
      rfl
    · rintro m ⟨⟩
  | false =>
    rw [hignore] at hst
    simp only [Bool.false_eq_true, if_false]
    cases line.mac with
    | none =>
      rw [Option.elim_none, Option.elim_none, Option.elim_none, Parsed.default, hst,
        if_neg Bool.false_ne_true]
      cases env.mac with
      | mcRANDOM => exact ⟨env.uninit, by decide, rfl, fun m hm => by cases hm⟩
      | mcFIXED ether =>
        have hset : BlackListStatus.blSET ≠ .blUNDECIDED := by decide
        exact ⟨ether, hset, rfl, fun m hm => by cases hm; rfl⟩
    | some f => exact assigned_word hlib hst f.word

theorem result_excluded {st : Parsed} (hst : st.ignore = true) (hmac : line.mac ≠ none) :
    line.result st = .error .ignoreWithMac := by
  obtain ⟨f, hf⟩ := Option.ne_none_iff_exists'.1 hmac
  rw [result, hf, Option.elim_some, Parsed.assigned, hst, if_pos rfl]

theorem atResult_excluded {st : Parsed} (hhost : st.host = none) (h : line.StarExcluded) :
    (line.atResult st).entry = none := by
  rw [atResult]
  rcases h with hnone | ⟨a, ha, hneg⟩
  · rw [hnone]
    dsimp only
    rw [if_pos hhost]
    rfl
  · rw [Option.mem_def.1 ha]
    dsimp only
    rw [if_pos ⟨hhost, hneg⟩]
    rfl

theorem atResult_eq {st : Parsed} (hatmac : st.atmac = ⟨.zero, .amNONE⟩)
    (h : ¬ (st.host = none ∧ line.StarExcluded)) :
    line.atResult st = line.result { st with atmac := line.atmacWritten } := by
  rw [atResult]
  cases hat : line.atmac with
  | none =>
    have hhost : st.host ≠ none := fun hhost => h ⟨hhost, Or.inl hat⟩
    have hsame : { st with atmac := line.atmacWritten } = st := by
      rw [atmacWritten, hat, Option.elim_none, ← hatmac]
    dsimp only
    rw [if_neg hhost, hsame]
  | some a =>
    dsimp only
    rw [if_neg]
    rintro ⟨hhost, hneg⟩
    exact h ⟨hhost, Or.inr ⟨a, hat, hneg⟩⟩

/-- The local variables at the end of a line that is not excluded. -/
def parsed : Parsed where
  ignore := line.ignore
  host :=
    match line.host with
    | .star => none
    | .address _ ip _ _ => some ip
  mask := line.mask.map MaskText.mask
  atmac := line.atmacWritten

theorem parsed_describes {status : BlackListStatus} {mac : EtherAddr} {h : status ≠ .blUNDECIDED}
    (hstatus : status = line.status) (hmac : ∀ m ∈ line.value, mac = m) :
    ∃ e, (line.parsed.entry status mac h).entry = some e ∧ line.Describes e := by
  cases hhost : line.host with
  | star =>
    simp only [Parsed.entry, parsed, hhost, Outcome.entry, Describes, Option.some.injEq,
      exists_eq_left']
    exact ⟨_, rfl, rfl, rfl, rfl, hstatus, hmac, rfl⟩
  | address host ip word reads =>
    cases hmask : line.mask with
    | none =>
      simp only [Parsed.entry, parsed, hhost, hmask, Option.map_none, Outcome.entry, Describes,
        Option.some.injEq, exists_eq_left']
      exact ⟨_, rfl, rfl, hstatus, hmac, rfl⟩
    | some m =>
      simp only [Parsed.entry, parsed, hhost, hmask, Option.map_some, Outcome.entry, Describes,
        Option.some.injEq, exists_eq_left']
      exact ⟨_, rfl, rfl, rfl, rfl, hstatus, hmac, rfl⟩

/-- An excluded line appends nothing. -/
theorem parseLine_excluded (h : line.Excluded) : (parseLine env line.text).1.entry = none := by
  cases hhost : line.host with
  | star =>
    rw [line.parseLine_star hhost]
    split_ifs with hignore hmask
    · rfl
    · rfl
    · apply line.atResult_excluded rfl
      rcases h with ⟨hignore', -⟩ | ⟨hignore', -⟩ | ⟨-, hmask' | hat⟩
      · exact absurd hignore' hignore
      · exact absurd hignore' hignore
      · exact absurd hmask' hmask
      · exact hat
  | address host ip word reads =>
    rcases h with ⟨-, hstar⟩ | ⟨hignore, hmac⟩ | ⟨hstar, -⟩
    · rw [hhost] at hstar
      cases hstar
    · rw [line.parseLine_address word reads hhost, line.atResult_eq rfl,
        line.result_excluded hignore hmac]
      · rfl
      · rintro ⟨hnone, -⟩
        cases hnone
    · rw [hhost] at hstar
      cases hstar

/-- A line that is not excluded has the result of its local variables. -/
theorem parseLine_eq_result (h : ¬ line.Excluded) :
    (parseLine env line.text).1 = line.result line.parsed := by
  rw [parsed]
  obtain ⟨hstar, hrest⟩ := not_or.1 h
  obtain ⟨-, hexcl⟩ := not_or.1 hrest
  cases hhost : line.host with
  | star =>
    have hignore : line.ignore = false := eq_false_of_ne_true fun hi => hstar ⟨hi, hhost⟩
    have hmask : line.mask = none := by
      by_contra hne
      exact hexcl ⟨hhost, Or.inl hne⟩
    have hat : ¬ line.StarExcluded := fun hat => hexcl ⟨hhost, Or.inr hat⟩
    rw [line.parseLine_star hhost, hignore, hmask, if_neg Bool.false_ne_true,
      if_neg (not_not.2 rfl), line.atResult_eq rfl fun hs => hat hs.2]
    rfl
  | address host ip word reads =>
    rw [line.parseLine_address word reads hhost, line.atResult_eq rfl]
    · rfl
    · rintro ⟨hnone, -⟩
      cases hnone

end RuleLine

/-- Blank lines and comments append nothing. -/
theorem parseLine_comment (env : ParseEnv) {blanks comment : List Char}
    (hblanks : ∀ c ∈ blanks, isBlank c) (hcomment : ∀ c ∈ comment.head?, c = '#') :
    (parseLine env (blanks ++ comment)).1 = .nothing := by
  rw [parseLine, skipThen, List.dropWhile_append_of_pos hblanks]
  cases comment with
  | nil => rfl
  | cons c comment =>
    obtain rfl := hcomment c rfl
    rw [List.dropWhile_cons_of_neg (by decide), ifEnd, ifHead, if_pos rfl]
    rfl

/-- `BlackList_parseLine` appends nothing for blank lines, comments and the excluded combinations,
and for every other line of the grammar exactly the entry that the line describes. -/
theorem parseLine_grammar (env : ParseEnv) (hlib : ReadsNamedMacs env.lib) :
    (∀ blanks comment : List Char, (∀ c ∈ blanks, isBlank c) → (∀ c ∈ comment.head?, c = '#') →
      (parseLine env (blanks ++ comment)).1.entry = none) ∧
    ∀ line : RuleLine env,
      (line.Excluded → (parseLine env line.text).1.entry = none) ∧
        (¬ line.Excluded →
          ∃ e, (parseLine env line.text).1.entry = some e ∧ line.Describes e) := by
  constructor
  · intro blanks comment hblanks hcomment
    rw [parseLine_comment env hblanks hcomment]
    rfl
  · intro line
    refine ⟨line.parseLine_excluded, fun h => ?_⟩
    rw [line.parseLine_eq_result h]
    have hparsed : line.parsed.ignore = line.ignore := rfl
    obtain ⟨mac, hstatus, hresult, hmac⟩ :=
      line.result_eq hlib hparsed fun hexcl => h (Or.inr (Or.inl hexcl))
    rw [hresult]
    exact line.parsed_describes rfl hmac

/-- The line `!192.168.1.0/255.255.255.0@!1:1:1:2:2:2 # office`. -/
def officeLine : RuleLine referenceEnv.toParseEnv where
  blanks := []
  ignore := true
  host := .address "192.168.1.0".toList (ntohl 0xC0A80100) ⟨by decide,
    List.all_iff_forall_prop.1 rfl, by decide, by decide, by decide⟩ (by decide)
  mask := some
    { text := "255.255.255.0".toList
      mask := ntohl 0xFFFFFF00
      word := List.all_iff_forall_prop.1 rfl
      denotes := Or.inr ⟨by decide, by decide⟩ }
  atmac := some
    { negative := true
      mac :=
        { text := "1:1:1:2:2:2".toList
          mac := blockedMac
          chars := List.all_iff_forall_prop.1 rfl
          reads := by decide } }
  mac := none
  tailBlanks := [' ']
  comment := "# office".toList
  blanks_blank := forall_mem_nil_blank
  tailBlanks_blank := List.all_iff_forall_prop.1 rfl
  comment_mark := by
    rintro c ⟨⟩
    rfl
  separated _ _ := List.cons_ne_nil _ _

theorem parseLine_grammar_office :
    officeLine.text = "!192.168.1.0/255.255.255.0@!1:1:1:2:2:2 # office".toList ∧
      ∃ e, (parseLine referenceEnv.toParseEnv officeLine.text).1.entry = some e ∧
        officeLine.Describes e := by
  refine ⟨rfl, ((parseLine_grammar referenceEnv.toParseEnv ?_).2 officeLine).2 ?_⟩
  · exact ⟨by decide, by decide⟩
  · rintro (⟨-, hstar⟩ | ⟨-, hmac⟩ | ⟨hstar, -⟩)
    · cases hstar
    · exact hmac rfl
    · cases hstar

end IpSentinel.BlackList

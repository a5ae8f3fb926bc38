import IpSentinel.BlackList.Overwriting
import IpSentinel.Foundation.Memory

/-!
# Parsing in memory

`BlackList_parseLine` with its pointers: the line is a block of memory, its last cell is `*end`, and
`start`, `pos` and `endptr` are offsets into it. A read or write outside of the block, a cursor
behind `end`, and an assertion that fails have no answer. `parseLine_inMemory` says that there is an
answer for every line, the one of the parser on texts.
-/

set_option autoImplicit false

namespace IpSentinel.BlackList

open Foundation

namespace InMemory

/-! ## The functions of the source -/

/-- `BlackList_ignoreWhitespace`. -/
def ignoreWhitespace (stop : Nat) (mem : Block Char) (start : Nat) : Option Nat :=
  skipLoop isBlank stop mem mem.length start

/-- The answer of `BlackList_parseNetMask`: an error, or the mask and the cursor behind it. -/
abbrev NetMask := Except ParseError (InAddr × Nat)

/-- `BlackList_parseNetMask`. The source also compares the pointer `*start` with NUL, which never
holds. -/
def parseNetMask (env : ParseEnv) : Access NetMask := fun stop start mem => do
  let text ← mem.cString start
  let (val, used) := strtol env.plat 0 text
  let endptr ← cursor stop (start + used)
  let c ← mem.load endptr
  if ¬ (c = nul ∨ endsMask c) then
    let endptr ← skipLoop (fun c => !endsMask c && c != nul) stop mem mem.length endptr
    let tmp ← mem.load endptr
    let mem ← mem.store endptr [nul]
    let text ← mem.cString start
    match env.lib.inetAton text with
    | none =>
      -- the message shows the character at `endptr`, which is overwritten
      let _ ← mem.load endptr
      some (.error (.invalidNetmask text), mem)
    | some mask =>
      let mem ← mem.store endptr [tmp]
      some (.ok (mask, endptr), mem)
  else if val < 0 ∨ val > 32 then some (.error .netmaskRange, mem)
  else some (.ok (prefixMask val.toNat, endptr), mem)

/-- "The MAC". -/
def macPart (env : ParseEnv) (st : Parsed) : Access Outcome := fun stop start mem => do
  assertion (start ≤ stop)
  let start ← ignoreWhitespace stop mem start
  assertion (start ≤ stop)
  if start = stop then some (st.default env, mem)
  else
    let c ← mem.load start
    if c = '#' then some (st.default env, mem)
    else
      let (mem, _, _) ← cutLoop endsMac stop mem.length mem start
      let word ← mem.cString start
      some (st.assigned env word, mem)

/-- What follows the text of the MAC behind the `@`, with the cursor at its end. -/
def afterAtMac (env : ParseEnv) (st : Parsed) (status : AtMacStatus) (word : List Char) :
    Access Outcome := fun stop pos mem =>
  match env.lib.xetherAton env.localMac word with
  | none => some (.error (.invalidMac word), mem)
  | some mac => do
    let start ← behindSep stop pos
    if st.host = none ∧ status = .amNEGATIVE then some (.error .negativeStar, mem)
    else macPart env { st with atmac := ⟨mac, status⟩ } stop start mem

/-- The MAC behind the `@`, or behind `@!`. -/
def atMac (env : ParseEnv) (st : Parsed) (status : AtMacStatus) : Access Outcome :=
  fun stop start mem => do
    let (mem, pos, _) ← cutLoop isBlank stop mem.length mem start
    let word ← mem.cString start
    afterAtMac env st status word stop pos mem

/-- What follows the `@`. -/
def atMacPart (env : ParseEnv) (st : Parsed) : Access Outcome := fun stop start mem => do
  assertion (start ≤ stop)
  let c ← mem.load start
  if c = '!' then
    let start ← cursor stop (start + 1)
    atMac env st .amNEGATIVE stop start mem
  else atMac env st .amPOSITIVE stop start mem

/-- What follows when there is no `@`. -/
def withoutAtMac (env : ParseEnv) (st : Parsed) : Access Outcome := fun stop start mem =>
  if st.host = none then some (.error .starWithoutMac, mem)
  else do
    assertion (start ≤ stop)
    macPart env st stop start mem

/-- "The @-mac -part". -/
def atPart (env : ParseEnv) (st : Parsed) (hasAtmac : Bool) : Access Outcome :=
  fun stop start mem =>
    if hasAtmac then atMacPart env st stop start mem
    else do
      let c ← mem.load start
      if c = '@' then
        let start ← cursor stop (start + 1)
        atMacPart env st stop start mem
      else withoutAtMac env st stop start mem

/-- The netmask and what follows it. -/
def maskPart (env : ParseEnv) (st : Parsed) : Access Outcome := fun stop start mem => do
  let (r, mem) ← parseNetMask env stop start mem
  match r with
  | .error e => some (.error e, mem)
  | .ok (mask, start) => atPart env { st with mask := some mask } false stop start mem

/-- What follows the text of the host, with the cursor at its end. -/
def afterHost (env : ParseEnv) (ignore : Bool) (word : List Char) (sep : Option Char) :
    Access Outcome := fun stop pos mem =>
  if word = ['*'] then
    if ignore then some (.error .ignoreStar, mem)
    else do
      let start ← behindSep stop pos
      if sep = some '/' then some (.error .maskStar, mem)
      else atPart env (.start ignore none) (sep = some '@') stop start mem
  else
    match env.lib.inetAton word with
    | none => some (.error (.invalidIp word), mem)
    | some ip => do
      let start ← behindSep stop pos
      if sep = some '/' then maskPart env (.start ignore (some ip)) stop start mem
      else atPart env (.start ignore (some ip)) (sep = some '@') stop start mem

/-- "The host or @-mac -part". -/
def hostPart (env : ParseEnv) (ignore : Bool) : Access Outcome := fun stop start mem => do
  let (mem, pos, sep) ← cutLoop endsHost stop mem.length mem start
  let word ← mem.cString start
  afterHost env ignore word sep stop pos mem

/-- `BlackList_parseLine`. -/
def parseLine (env : ParseEnv) : Access Outcome := fun stop start mem => do
  let start ← ignoreWhitespace stop mem start
  if start = stop then some (.nothing, mem)
  else
    let c ← mem.load start
    if c = '#' then some (.nothing, mem)
    else
      let c ← mem.load start
      if c = '!' then
        let start ← cursor stop (start + 1)
        hostPart env true stop start mem
      else hostPart env false stop start mem

end InMemory

variable (env : ParseEnv)

/-! ## The parts -/

theorem macPart_refines (st : Parsed) : Refines (InMemory.macPart env st) (macPart env st) := by
  apply Refines.check
  apply Refines.skip rfl
  apply Refines.check
  apply Refines.ifEnd
  apply Refines.ifHead_done (by decide)
  exact Refines.word fun _ _ => RefinesBehind.done _

theorem afterAtMac_refines (st : Parsed) (status : AtMacStatus) (word : List Char) :
    RefinesBehind (InMemory.afterAtMac env st status word) (afterAtMac env st status word) := by
  unfold InMemory.afterAtMac afterAtMac
  cases env.lib.xetherAton env.localMac word with
  | none => exact RefinesBehind.done _
  | some mac =>
    apply RefinesBehind.go
    · exact Refines.ite (Refines.done _) (macPart_refines env _)
    · exact writesNul_ite (done_writesNul _) (macPart_writesNul env _)

theorem atMac_refines (st : Parsed) (status : AtMacStatus) :
    Refines (InMemory.atMac env st status) (atMac env st status) :=
  Refines.word fun word _ => afterAtMac_refines env st status word

theorem atMacPart_refines (st : Parsed) :
    Refines (InMemory.atMacPart env st) (atMacPart env st) := by
  apply Refines.check
  exact Refines.ifHead (by decide) (atMac_refines env st _) (atMac_refines env st _)

theorem withoutAtMac_refines (st : Parsed) :
    Refines (InMemory.withoutAtMac env st) (withoutAtMac env st) :=
  Refines.ite (Refines.done _) (Refines.check (macPart_refines env st))

theorem atPart_refines (st : Parsed) (hasAtmac : Bool) :
    Refines (InMemory.atPart env st hasAtmac) (atPart env st hasAtmac) := by
  apply Refines.ite (atMacPart_refines env st)
  exact Refines.ifHead (by decide) (atMacPart_refines env st) (withoutAtMac_refines env st)

/-! ## The netmask -/

/-- What `strtol` reads does not depend on what is behind the first NUL. -/
theorem strtol_takeWhile (plat : Platform) (base : Nat) (text : List Char) :
    strtol plat base (text.takeWhile (· ≠ nul)) = strtol plat base text := by
  have hstop : ∀ c ∈ (text.dropWhile (· ≠ nul)).head?,
      digitVal c = none ∧ isSpace c = false ∧ c ≠ '-' ∧ c ≠ '+' := by
    intro c hc
    have hnot := List.head?_dropWhile_not (fun c => decide (c ≠ nul)) text
    rw [Option.mem_def.1 hc] at hnot
    have hnul : c = nul := by simpa using hnot
    subst hnul
    decide
  have h : strtol plat base (text.takeWhile (· ≠ nul) ++ text.dropWhile (· ≠ nul)) = _ :=
    strtol_stop plat base hstop
  rw [List.takeWhile_append_dropWhile] at h
  exact h.symm

/-- What `strtol` has read has no NUL in it. -/
theorem nul_not_mem_number (plat : Platform) (base : Nat) (text : List Char) :
    nul ∉ text.take (strtol plat base text).2 := by
  intro hmem
  have hused := strtol_used_le plat base (text.takeWhile (· ≠ nul))
  rw [strtol_takeWhile] at hused
  have hfront := List.prefix_of_prefix_length_le (List.take_prefix (strtol plat base text).2 text)
    (List.takeWhile_prefix (· ≠ nul)) ((List.length_take_le _ _).trans hused)
  have hnot := List.mem_takeWhile_imp (hfront.subset hmem)
  simp at hnot

/-- The character at the end of a word, and the line with NUL in its place. -/
theorem exists_word_end (isSep : Char → Bool) (text : List Char) :
    ∃ tmp more, text ++ [nul] = (cutWord isSep text).word ++ tmp :: more ∧
      (cutWord isSep text).rejoin (cutWord isSep text).rest ++ [nul] =
        (cutWord isSep text).word ++ nul :: more := by
  cases hsep : (cutWord isSep text).sep with
  | none =>
    refine ⟨nul, [], ?_, ?_⟩
    · rw [word_of_sep_none hsep]
    · rw [Word.rejoin, hsep]
  | some c =>
    refine ⟨c, (cutWord isSep text).rest ++ [nul], ?_, ?_⟩
    · conv_lhs => rw [(cutWord_of_sep_some hsep).1]
      rw [List.append_assoc, List.cons_append]
    · rw [Word.rejoin, hsep]
      dsimp only
      rw [List.append_assoc, List.cons_append]

section Mask

variable {env} {front text number behind : List Char} {val : Int} {used : Nat}

/-- The cursor behind the number. -/
theorem number_cursor (front : List Char) (hread : strtol env.plat 0 text = (val, used))
    (hnumber : text.take used = number) (hbehind : text.drop used = behind) :
    front ++ text = front ++ number ++ behind ∧
      front ++ (text ++ [nul]) = front ++ number ++ (behind ++ [nul]) ∧
      cursor (front ++ text).length (front.length + used) = some (front ++ number).length := by
  have hused := strtol_used_le env.plat 0 text
  rw [hread] at hused
  have htext : number ++ behind = text := by rw [← hnumber, ← hbehind, List.take_append_drop]
  have hlen : front.length + used = (front ++ number).length := by
    rw [List.length_append, ← hnumber, List.length_take, Nat.min_eq_left hused]
  refine ⟨?_, ?_, ?_⟩
  · rw [← htext, List.append_assoc]
  · rw [← htext]
    simp only [List.append_assoc]
  · rw [hlen, ← htext, ← List.append_assoc]
    exact cursor_append ..

/-- A number up to the end of the mask. -/
theorem parseNetMask_number (hread : strtol env.plat 0 text = (val, used))
    (hnumber : text.take used = number) (hbehind : text.drop used = behind)
    (hend : behind = [] ∨ ∃ c ∈ behind.head?, c = nul ∨ endsMask c) :
    InMemory.parseNetMask env (front ++ text).length front.length (front ++ (text ++ [nul])) =
      some (if val < 0 ∨ val > 32 then .error .netmaskRange
        else .ok (prefixMask val.toNat, (front ++ number).length), front ++ (text ++ [nul])) := by
  obtain ⟨htext, hmem, hcursor⟩ := number_cursor front hread hnumber hbehind
  obtain ⟨c, more, hmore, hc⟩ : ∃ c more, behind ++ [nul] = c :: more ∧ (c = nul ∨ endsMask c) := by
    cases behind with
    | nil => exact ⟨nul, [], rfl, Or.inl rfl⟩
    | cons c behind =>
      obtain ⟨d, hd, hends⟩ := hend.resolve_left (List.cons_ne_nil c behind)
      obtain rfl := Option.some.inj hd
      exact ⟨c, behind ++ [nul], rfl, hends⟩
  rw [InMemory.parseNetMask, Block.cString_text, Option.bind_eq_bind, Option.bind_some,
    strtol_takeWhile, hread]
  dsimp only
  rw [hcursor, Option.bind_eq_bind, Option.bind_some, hmem, hmore, Block.load_append,
    Option.bind_eq_bind, Option.bind_some, if_neg (not_not.2 hc)]
  split_ifs <;> rfl

/-- A dotted mask, or none. -/
theorem parseNetMask_word (hread : strtol env.plat 0 text = (val, used))
    (hnumber : text.take used = number) (hbehind : text.drop used = behind)
    (hend : ¬ (behind = [] ∨ ∃ c ∈ behind.head?, c = nul ∨ endsMask c)) :
    InMemory.parseNetMask env (front ++ text).length front.length (front ++ (text ++ [nul])) =
      match env.lib.inetAton (number ++ (cutWord endsMask behind).word) with
      | none =>
        some (.error (.invalidNetmask (number ++ (cutWord endsMask behind).word)),
          front ++
            (number ++ (cutWord endsMask behind).rejoin (cutWord endsMask behind).rest ++ [nul]))
      | some mask =>
        some (.ok (mask, (front ++ (number ++ (cutWord endsMask behind).word)).length),
          front ++ (text ++ [nul])) := by
  obtain ⟨htext, hmem, hcursor⟩ := number_cursor front hread hnumber hbehind
  obtain ⟨tmp, more, htmp, hcut⟩ := exists_word_end endsMask behind
  have hnul : nul ∉ number ++ (cutWord endsMask behind).word := by
    rw [List.mem_append, not_or, ← hnumber]
    have h := nul_not_mem_number env.plat 0 text
    rw [hread] at h
    exact ⟨h, nul_not_mem_word _⟩
  obtain ⟨c, more', hmore, hc⟩ :
      ∃ c more, behind ++ [nul] = c :: more ∧ ¬ (c = nul ∨ endsMask c) := by
    cases behind with
    | nil => exact absurd (Or.inl rfl) hend
    | cons c behind => exact ⟨c, behind ++ [nul], rfl, fun h => hend (Or.inr ⟨c, rfl, h⟩)⟩
  have hload : Block.load (front ++ (text ++ [nul])) (front ++ number).length = some c := by
    rw [hmem, hmore, Block.load_append]
  -- the loop over `endptr` stops at the end of the word
  have hskip := skipLoop_eq (p := fun c => !endsMask c && c != nul) rfl (front ++ number) behind
    (n := (front ++ (text ++ [nul])).length) (by
      rw [hmem]
      simp only [List.length_append, List.length_singleton]
      omega)
  rw [← word_eq_takeWhile, ← hmem, ← htext] at hskip
  generalize (cutWord endsMask behind).word = word at htmp hcut hnul hskip ⊢
  have hline : front ++ (text ++ [nul]) = front ++ number ++ word ++ tmp :: more := by
    rw [hmem, htmp]
    simp only [List.append_assoc]
  -- with NUL in `*endptr` the string at `*start` is the number and the word
  have hcString : Block.cString (front ++ number ++ word ++ nul :: more) front.length =
      some (number ++ word) := by
    rw [List.append_assoc front, List.append_assoc front]
    exact Block.cString_append hnul more
  rw [InMemory.parseNetMask, Block.cString_text, Option.bind_eq_bind, Option.bind_some,
    strtol_takeWhile, hread]
  dsimp only
  rw [hcursor, Option.bind_eq_bind, Option.bind_some, hload, Option.bind_eq_bind, Option.bind_some,
    if_pos hc, hskip, Option.bind_some, hline, Block.load_append, Option.bind_some,
    Block.store_cons, Option.bind_some, hcString, Option.bind_some]
  cases env.lib.inetAton (number ++ word) with
  | none =>
    dsimp only
    rw [Block.load_append, Option.bind_some, List.append_assoc number, hcut]
    simp only [List.append_assoc]
  | some mask =>
    dsimp only
    rw [Block.store_cons, Option.bind_some, List.append_assoc]

end Mask

theorem maskPart_refines (st : Parsed) :
    Refines (InMemory.maskPart env st) (maskPart env st) := by
  intro front text
  cases hread : strtol env.plat 0 text with
  | mk val used =>
    obtain ⟨htext, hmem, -⟩ := number_cursor front hread rfl rfl
    rw [InMemory.maskPart, maskPart, hread]
    dsimp only
    split_ifs with hend hrange
    · rw [parseNetMask_number hread rfl rfl hend, if_pos hrange]
      rfl
    · rw [parseNetMask_number hread rfl rfl hend, if_neg hrange, Option.bind_eq_bind,
        Option.bind_some]
      dsimp only
      rw [hmem, htext, atPart_refines]
      simp only [List.append_assoc]
    · rw [parseNetMask_word hread rfl rfl hend]
      generalize hbehind : text.drop used = behind at htext hmem ⊢
      -- the dotted mask is the front of the text behind the number
      have hword : behind.take (cutWord endsMask behind).word.length =
          (cutWord endsMask behind).word := take_length_word behind
      generalize (cutWord endsMask behind).word = word at hword ⊢
      have hsplit := List.take_append_drop word.length behind
      rw [hword] at hsplit
      cases env.lib.inetAton (text.take used ++ word) with
      | none => rfl
      | some mask =>
        have hrest := atPart_refines env { st with mask := some mask } false
          (front ++ (text.take used ++ word)) (behind.drop word.length)
        have htext' : front ++ (text.take used ++ word) ++ behind.drop word.length =
            front ++ text := by
          rw [htext, List.append_assoc, List.append_assoc, hsplit, List.append_assoc]
        have hmem' : front ++ (text.take used ++ word) ++ (behind.drop word.length ++ [nul]) =
            front ++ (text ++ [nul]) := by
          rw [← List.append_assoc, htext', List.append_assoc]
        rw [htext', hmem'] at hrest
        rw [Option.bind_eq_bind, Option.bind_some]
        dsimp only
        rw [hrest]
        simp only [List.append_assoc]

/-! ## The line -/

theorem afterHost_refines (ignore : Bool) (word : List Char) (sep : Option Char) :
    RefinesBehind (InMemory.afterHost env ignore word sep) (afterHost env ignore word sep) := by
  apply RefinesBehind.ite
  · apply RefinesBehind.ite (RefinesBehind.done _)
    apply RefinesBehind.go
    · exact Refines.ite (Refines.done _) (atPart_refines env _ _)
    · exact writesNul_ite (done_writesNul _) (atPart_writesNul env _ _)
  · cases env.lib.inetAton word with
    | none => exact RefinesBehind.done _
    | some ip =>
      apply RefinesBehind.go
      · exact Refines.ite (maskPart_refines env _) (atPart_refines env _ _)
      · exact writesNul_ite (maskPart_writesNul env _) (atPart_writesNul env _ _)

theorem hostPart_refines (ignore : Bool) :
    Refines (InMemory.hostPart env ignore) (hostPart env ignore) :=
  Refines.word fun word sep => afterHost_refines env ignore word sep

theorem parseLine_refines : Refines (InMemory.parseLine env) (parseLine env) := by
  apply Refines.skip rfl
  apply Refines.ifEnd
  apply Refines.ifHead_done (by decide)
  exact Refines.ifHead (by decide) (hostPart_refines env true) (hostPart_refines env false)

/-- For every line the parser stays between `start` and `end`: no access and no cursor is outside,
its assertions hold, and `*end` stays NUL. -/
theorem parseLine_inMemory (text : List Char) :
    InMemory.parseLine env text.length 0 (text ++ [nul]) =
      some ((parseLine env text).1, (parseLine env text).2 ++ [nul]) :=
  parseLine_refines env [] text

end IpSentinel.BlackList

import IpSentinel.BlackList.Parse

/-!
# What a call of `parseLine` leaves in the buffer

`BlackList_parseLine` writes NUL over the separators it finds. Blanks and NUL separate alike, but
NUL in place of the `/` or the `@` behind the host loses what the separator said. So a text in which
the host is not ended by one of these two can be parsed again behind a new continuation
(`parseLine_stable`), and after one pass every text is of this kind (`hostSep_leftover`). In place
of a text with `/` or `@` the second pass never finds the entry of the first one
(`entry_ne_of_leftover`). `endHost` is the line with the NULs that the second pass meets.
-/

set_option autoImplicit false

namespace IpSentinel.BlackList

open Foundation

variable (env : ParseEnv)

/-! ## All writes are NULs -/

theorem done_writesNul (o : Outcome) : WritesNul (done o) := fun text => Overwritten.refl text

theorem macPart_writesNul (st : Parsed) : WritesNul (macPart env st) :=
  skipThen_writesNul <| ifEnd_writesNul <| ifHead_writesNul (done_writesNul _) <|
    withWord_writesNul fun _ _ => done_writesNul _

theorem afterAtMac_writesNul (st : Parsed) (status : AtMacStatus) (word : List Char) :
    WritesNul (afterAtMac env st status word) := by
  rw [afterAtMac]
  split
  · exact done_writesNul _
  · exact writesNul_ite (done_writesNul _) (macPart_writesNul env _)

theorem atMac_writesNul (st : Parsed) (status : AtMacStatus) : WritesNul (atMac env st status) :=
  withWord_writesNul fun word _ => afterAtMac_writesNul env st status word

theorem atMacPart_writesNul (st : Parsed) : WritesNul (atMacPart env st) :=
  ifHead_writesNul (atMac_writesNul env _ _) (atMac_writesNul env _ _)

theorem withoutAtMac_writesNul (st : Parsed) : WritesNul (withoutAtMac env st) :=
  writesNul_ite (done_writesNul _) (macPart_writesNul env _)

theorem atPart_writesNul (st : Parsed) (hasAtmac : Bool) : WritesNul (atPart env st hasAtmac) :=
  writesNul_ite (atMacPart_writesNul env st)
    (ifHead_writesNul (atMacPart_writesNul env st) (withoutAtMac_writesNul env st))

theorem maskPart_writesNul (st : Parsed) : WritesNul (maskPart env st) := by
  intro text
  simp only [maskPart]
  split_ifs
  · exact Overwritten.refl text
  · exact (atPart_writesNul env _ _ _).behind
  · split
    · -- only an invalid netmask leaves its NUL
      exact (rejoin_overwritten (Overwritten.refl _)).behind
    · next mask _ =>
      have h := (atPart_writesNul env { st with mask := some mask } false
        ((text.drop (strtol env.plat 0 text).2).drop
          (cutWord endsMask (text.drop (strtol env.plat 0 text).2)).word.length)).behind
      rw [take_length_word] at h
      rw [List.append_assoc]
      exact h.behind

theorem afterHost_writesNul (ignore : Bool) (word : List Char) (sep : Option Char) :
    WritesNul (afterHost env ignore word sep) := by
  rw [afterHost]
  split_ifs
  · exact done_writesNul _
  · exact done_writesNul _
  · exact atPart_writesNul env _ _
  · split
    · exact done_writesNul _
    · exact maskPart_writesNul env _
  · split
    · exact done_writesNul _
    · exact atPart_writesNul env _ _

theorem hostPart_writesNul (ignore : Bool) : WritesNul (hostPart env ignore) :=
  withWord_writesNul fun word sep => afterHost_writesNul env ignore word sep

theorem hosts_writesNul : WritesNul (ifHead '!' (hostPart env true) (hostPart env false)) :=
  ifHead_writesNul (hostPart_writesNul env true) (hostPart_writesNul env false)

/-- The part of `parseLine` behind the leading blanks. -/
theorem lineStart_writesNul : WritesNul (ifEnd .nothing (ifHead '#' (done .nothing)
    (ifHead '!' (hostPart env true) (hostPart env false)))) :=
  ifEnd_writesNul (ifHead_writesNul (done_writesNul _) (hosts_writesNul env))

theorem parseLine_writesNul : WritesNul (parseLine env) :=
  skipThen_writesNul (lineStart_writesNul env)

/-! ## Stages that can be repeated -/

theorem leftover_done (o : Outcome) (q y : List Char) : leftover (done o) q y = q :=
  List.take_left' rfl

theorem done_stable (o : Outcome) (q : List Char) : Stable (done o) q :=
  stable_of_leftover_eq (leftover_done o q)

variable {q : List Char}

theorem macPart_stable (st : Parsed) (hq : '#' ∉ q) : Stable (macPart env st) q := by
  have hword : WritesNul (withWord endsMac fun word _ => done (st.assigned env word)) :=
    withWord_writesNul fun _ _ => done_writesNul _
  have hcomment := ifHead_writesNul (c := '#') (done_writesNul (st.default env)) hword
  apply skipThen_stable (ifEnd_writesNul hcomment) rfl
  intro _
  apply ifEnd_stable hcomment
  intro _
  apply ifHead_stable hword (by decide)
  · intro q' hq'
    apply absurd (List.dropWhile_suffix isBlank |>.mem _) hq
    rw [hq']
    exact List.mem_cons_self
  · intro _
    exact withWord_stable (fun _ _ => done_writesNul _) fun c _ => ⟨rfl, done_stable _ _⟩

/-- What is left does not depend on the local variables. -/
theorem leftover_macPart (st st' : Parsed) (q y : List Char) :
    leftover (macPart env st) q y = leftover (macPart env st') q y := by
  have htext : ∀ text, (macPart env st text).2 = (macPart env st' text).2 := by
    intro text
    simp only [macPart, skipThen]
    cases text.dropWhile isBlank with
    | nil => rfl
    | cons c rest =>
      rw [ifEnd, ifEnd, ifHead, ifHead]
      split_ifs
      · rfl
      · rfl
  rw [leftover, leftover, htext]

theorem macPart_behind (st st' : Parsed) (hq : '#' ∉ q) :
    StableBehind (macPart env st) (macPart env st') q := by
  intro y z
  rw [leftover_macPart env st st']
  exact macPart_stable env st' hq y z

/-- A stage that ends the call, or reads the MAC. -/
def EndsOrReads (f : Stage Outcome) : Prop := (∃ o, f = done o) ∨ ∃ st, f = macPart env st

theorem EndsOrReads.behind {env : ParseEnv} {f g : Stage Outcome} (hf : EndsOrReads env f)
    (hg : EndsOrReads env g) (hq : '#' ∉ q) : StableBehind f g q := by
  rcases hg with ⟨o, rfl⟩ | ⟨st', rfl⟩
  · exact fun _ _ => rfl
  · rcases hf with ⟨o, rfl⟩ | ⟨st, rfl⟩
    · exact stable_of_leftover_eq (leftover_done o q)
    · exact macPart_behind env st st' hq

theorem afterAtMac_endsOrReads (st : Parsed) (status : AtMacStatus) (word : List Char) :
    EndsOrReads env (afterAtMac env st status word) := by
  rw [afterAtMac]
  split
  · exact Or.inl ⟨_, rfl⟩
  · split_ifs
    · exact Or.inl ⟨_, rfl⟩
    · exact Or.inr ⟨_, rfl⟩

theorem withoutAtMac_endsOrReads (st : Parsed) : EndsOrReads env (withoutAtMac env st) := by
  rw [withoutAtMac]
  split_ifs
  · exact Or.inl ⟨_, rfl⟩
  · exact Or.inr ⟨_, rfl⟩

theorem atMac_behind (st st' : Parsed) (status status' : AtMacStatus) (hq : '#' ∉ q) :
    StableBehind (atMac env st status) (atMac env st' status') q :=
  withWord_stable (fun word _ => afterAtMac_writesNul env st status word) fun _ hc =>
    ⟨rfl, (afterAtMac_endsOrReads env st status _).behind
      (afterAtMac_endsOrReads env st' status' _) (not_mem_rest hq hc)⟩

theorem atMacPart_behind (st st' : Parsed) (hq : '#' ∉ q) :
    StableBehind (atMacPart env st) (atMacPart env st') q := by
  apply ifHead_stable (atMac_writesNul env _ _) (by decide)
  · rintro q' rfl
    exact atMac_behind env _ _ _ _ fun h => hq (List.mem_cons_of_mem _ h)
  · intro _
    exact atMac_behind env _ _ _ _ hq

theorem atPart_false (st : Parsed) :
    atPart env st false = ifHead '@' (atMacPart env st) (withoutAtMac env st) := if_neg nofun

theorem atPart_behind (st st' : Parsed) (hq : '#' ∉ q) :
    StableBehind (atPart env st false) (atPart env st' false) q := by
  rw [atPart_false, atPart_false]
  apply ifHead_stable (withoutAtMac_writesNul env st) (by decide)
  · rintro q' rfl
    exact atMacPart_behind env _ _ fun h => hq (List.mem_cons_of_mem _ h)
  · intro _
    exact (withoutAtMac_endsOrReads env st).behind (withoutAtMac_endsOrReads env st') hq

theorem atPart_stable (st : Parsed) (hasAtmac : Bool) (hq : '#' ∉ q) :
    Stable (atPart env st hasAtmac) q := by
  cases hasAtmac with
  | false => exact atPart_behind env st st hq
  | true => exact atMacPart_behind env st st hq

/-- Behind the host a separator other than `/` and `@` is as good as NUL. -/
theorem afterHost_stable (ignore : Bool) (word : List Char) {c : Char} (hslash : c ≠ '/')
    (hat : c ≠ '@') (hq : '#' ∉ q) :
    afterHost env ignore word (some c) = afterHost env ignore word (some nul) ∧
      Stable (afterHost env ignore word (some c)) q := by
  have hc : ∀ d ∈ ['/', '@'], some c ≠ some d ∧ some nul ≠ some d := by
    intro d hd
    fin_cases hd
    · exact ⟨by simpa using hslash, by decide⟩
    · exact ⟨by simpa using hat, by decide⟩
  obtain ⟨hs, hs'⟩ := hc '/' (by simp)
  obtain ⟨ha, ha'⟩ := hc '@' (by simp)
  simp only [afterHost, hs, hs', ha, ha', if_false, decide_false]
  refine ⟨trivial, ?_⟩
  -- with `/` out of the way, the netmask is never read
  split_ifs
  · exact done_stable _ _
  · exact atPart_stable env _ _ hq
  · split
    · exact done_stable _ _
    · exact atPart_stable env _ _ hq

/-- The separator behind the host, if the host ends within the text. -/
def hostSep (text : List Char) : Option Char :=
  let text := text.dropWhile isBlank
  (cutWord endsHost (if text.head? = some '!' then text.tail else text)).sep

theorem hostSep_blank {text : List Char} (h : ∀ c ∈ text, isBlank c) : hostSep text = none := by
  rw [hostSep, List.dropWhile_eq_nil_iff.2 h]
  rfl

theorem hostPart_stable (ignore : Bool) (hslash : (cutWord endsHost q).sep ≠ some '/')
    (hat : (cutWord endsHost q).sep ≠ some '@') (hq : '#' ∉ q) :
    Stable (hostPart env ignore) q := by
  apply withWord_stable (fun word sep => afterHost_writesNul env ignore word sep)
  intro c hc
  rw [hc] at hslash hat
  exact afterHost_stable env ignore _ (by simpa using hslash) (by simpa using hat)
    (not_mem_rest hq hc)

/-- A text in which the host is not ended by `/` or `@` can be parsed again. -/
theorem parseLine_stable (hslash : hostSep q ≠ some '/') (hat : hostSep q ≠ some '@')
    (hq : '#' ∉ q) : Stable (parseLine env) q := by
  apply skipThen_stable (lineStart_writesNul env) rfl
  intro _
  apply ifEnd_stable (ifHead_writesNul (done_writesNul _) (hosts_writesNul env))
  intro _
  have hq' : '#' ∉ q.dropWhile isBlank := fun h => hq ((List.dropWhile_suffix isBlank).mem h)
  simp only [hostSep] at hslash hat
  generalize q.dropWhile isBlank = u at hq' hslash hat
  apply ifHead_stable (hosts_writesNul env) (by decide)
  · intro q' h
    rw [h] at hq'
    exact absurd List.mem_cons_self hq'
  · intro _
    apply ifHead_stable (hostPart_writesNul env false) (by decide)
    · -- behind the `!` the separator is that of the rest
      rintro q' rfl
      simp only [List.head?_cons, List.tail_cons, if_true] at hslash hat
      exact hostPart_stable env true hslash hat fun h => hq' (List.mem_cons_of_mem _ h)
    · intro hhead
      rw [if_neg hhead] at hslash hat
      exact hostPart_stable env false hslash hat hq'

/-! ## The NULs of a call -/

/-- The text behind a `/`: one that is no netmask is ended by NUL. -/
def endMask (text : List Char) : List Char :=
  let used := (strtol env.plat 0 text).2
  let w := cutWord endsMask (text.drop used)
  if w.word = [] ∨ (env.lib.inetAton (text.take used ++ w.word)).isSome then text
  else text.take used ++ w.rejoin w.rest

/-- The text behind the host and its separator. The MAC behind an `@` is ended by NUL. -/
def behindHost (sep : Option Char) (text : List Char) : List Char :=
  if sep = some '/' then endMask env text
  else if sep = some '@' then endWord isBlank text
  else text

/-- The host with NUL in place of its separator, and the text behind it. -/
def endHostWord (text : List Char) : List Char :=
  let w := cutWord endsHost text
  w.rejoin (behindHost env w.sep w.rest)

/-- A line with NUL in place of the separator of the host, and of that of the word behind it when
this is an `@` part or no netmask. -/
def endHost (line : List Char) : List Char :=
  line.takeWhile isBlank ++
    match line.dropWhile isBlank with
    | '!' :: text => '!' :: endHostWord env text
    | text => endHostWord env text

theorem endHostWord_append {text : List Char} {c : Char} (h : (cutWord endsHost text).sep = some c)
    (y : List Char) :
    endHostWord env (text ++ y) = (cutWord endsHost text).word ++
      nul :: behindHost env (some c) ((cutWord endsHost text).rest ++ y) := by
  rw [endHostWord, cutWord_append_some h]
  rfl

/-! ## A text in which the host ends -/

/-- A text without comment is blank, or goes on with another character behind its blanks. -/
theorem blank_or_start (hq : '#' ∉ q) :
    (∀ c ∈ q, isBlank c) ∨ ∃ blanks e u, q = blanks ++ e :: u ∧ (∀ c ∈ blanks, isBlank c) ∧
      isBlank e = false ∧ e ≠ '#' := by
  have hblanks : ∀ c ∈ q.takeWhile isBlank, isBlank c := fun c hc => List.mem_takeWhile_imp hc
  have hsplit := List.takeWhile_append_dropWhile (p := isBlank) (l := q)
  cases hu : q.dropWhile isBlank with
  | nil =>
    rw [hu, List.append_nil] at hsplit
    rw [hsplit] at hblanks
    exact Or.inl hblanks
  | cons e u =>
    rw [hu] at hsplit
    refine Or.inr ⟨_, e, u, hsplit.symm, hblanks, ?_, ?_⟩
    · have hhead := List.head_dropWhile_not (p := isBlank) (l := q) (by simp [hu])
      simpa [hu] using hhead
    · rintro rfl
      apply hq
      rw [← hsplit]
      exact List.mem_append_right _ List.mem_cons_self

section Start

variable {blanks : List Char} {e : Char} (hblanks : ∀ c ∈ blanks, isBlank c)
  (he : isBlank e = false)

include hblanks he

/-- The outcome of a text with the character `e` behind its blanks. -/
theorem parseLine_start (hcomment : e ≠ '#') (text : List Char) :
    (parseLine env (blanks ++ e :: text)).1 =
      (ifHead '!' (hostPart env true) (hostPart env false) (e :: text)).1 := by
  rw [parseLine, skipThen_apply _ hblanks he, ifEnd, ifHead, if_neg hcomment]

theorem leftover_parseLine_start (hcomment : e ≠ '#') (u y : List Char) :
    leftover (parseLine env) (blanks ++ e :: u) y =
      blanks ++ leftover (ifHead '!' (hostPart env true) (hostPart env false)) (e :: u) y := by
  rw [parseLine, leftover_skipThen (lineStart_writesNul env) hblanks he, leftover_ifEnd,
    leftover_ifHead_of_ne hcomment]

theorem hostSep_start (text : List Char) :
    hostSep (blanks ++ e :: text) =
      (cutWord endsHost (if e = '!' then text else e :: text)).sep := by
  simp only [hostSep, List.dropWhile_append_of_pos hblanks,
    List.dropWhile_cons_of_neg (by simp [he] : ¬ isBlank e), List.head?_cons, List.tail_cons,
    Option.some.injEq]

theorem endHost_start (text : List Char) :
    endHost env (blanks ++ e :: text) =
      blanks ++ if e = '!' then '!' :: endHostWord env text else endHostWord env (e :: text) := by
  have hne : ¬ isBlank e := by simp [he]
  rw [endHost, List.takeWhile_append_of_pos hblanks, List.takeWhile_cons_of_neg hne,
    List.append_nil, List.dropWhile_append_of_pos hblanks, List.dropWhile_cons_of_neg hne]
  apply congrArg (blanks ++ ·)
  split
  · next heq =>
    cases heq
    rw [if_pos rfl]
  · next hnot =>
    rw [if_neg]
    rintro rfl
    exact hnot text rfl

end Start

/-- A text in which the host ends at the separator `c`: what stands in front of the host, whether
this is a `!`, the host, and the text behind the separator. -/
structure HostSplit (env : ParseEnv) (text : List Char) (c : Char) (lead : List Char)
    (ignore : Bool) (host rest : List Char) : Prop where
  text_eq : text = lead ++ host ++ c :: rest
  /-- The outcome, with the separator still there or overwritten. -/
  outcome : ∀ d, d = c ∨ d = nul → ∀ r, (parseLine env (lead ++ host ++ d :: r)).1 =
    (afterHost env ignore host (some d) r).1
  hostSep_eq : ∀ d, d = c ∨ d = nul → ∀ r, hostSep (lead ++ host ++ d :: r) = some d
  leftover_eq : ∀ y, leftover (parseLine env) text y =
    lead ++ host ++ nul :: leftover (afterHost env ignore host (some c)) rest y
  endHost_eq : ∀ y, endHost env (text ++ y) =
    lead ++ host ++ nul :: behindHost env (some c) (rest ++ y)

/-- The separator ends the host, and so does a NUL in its place. -/
theorem endsHost_or_nul {c : Char} {text : List Char}
    (hsep : (cutWord endsHost text).sep = some c) :
    ∀ d, d = c ∨ d = nul → endsHost d ∨ d = nul := by
  rintro d (rfl | rfl)
  · exact isSep_of_cutWord_sep hsep
  · exact Or.inr rfl

/-- The host starts behind the `!`. -/
theorem hostSplit_of_bang {c : Char} {blanks u : List Char} (hblanks : ∀ c ∈ blanks, isBlank c)
    (hsep : (cutWord endsHost u).sep = some c) :
    HostSplit env (blanks ++ '!' :: u) c (blanks ++ ['!']) true (cutWord endsHost u).word
      (cutWord endsHost u).rest := by
  obtain ⟨hu, hcut⟩ := cutWord_of_sep_some hsep
  have hd := endsHost_or_nul hsep
  have he : isBlank '!' = false := rfl
  have hcomment : '!' ≠ '#' := by decide
  constructor
  · simpa using hu
  · intro d hdc r
    have h := parseLine_start env hblanks he hcomment ((cutWord endsHost u).word ++ d :: r)
    simp only [List.append_assoc, List.cons_append, List.nil_append, h, ifHead, if_true]
    exact withWord_result hsep (hd d hdc) r
  · intro d hdc r
    have h := hostSep_start hblanks he ((cutWord endsHost u).word ++ d :: r)
    simp only [List.append_assoc, List.cons_append, List.nil_append, h, if_true,
      hcut d r (hd d hdc)]
  · intro y
    rw [leftover_parseLine_start env hblanks he hcomment, leftover_ifHead_self, hostPart,
      leftover_withWord_some (afterHost_writesNul env true) hsep]
    simp only [List.append_assoc, List.cons_append, List.nil_append]
  · intro y
    rw [List.append_assoc, List.cons_append, endHost_start env hblanks he, if_pos rfl,
      endHostWord_append env hsep]
    simp only [List.append_assoc, List.cons_append, List.nil_append]

/-- The host starts behind the blanks. -/
theorem hostSplit_of_not_bang {c e : Char} {blanks u : List Char}
    (hblanks : ∀ c ∈ blanks, isBlank c) (he : isBlank e = false) (hcomment : e ≠ '#')
    (hbang : e ≠ '!') (hsep : (cutWord endsHost (e :: u)).sep = some c) :
    HostSplit env (blanks ++ e :: u) c blanks false (cutWord endsHost (e :: u)).word
      (cutWord endsHost (e :: u)).rest := by
  obtain ⟨hu, hcut⟩ := cutWord_of_sep_some hsep
  have hd := endsHost_or_nul hsep
  -- the host, or the separator behind an empty host, starts with no blank, `#` or `!`
  have hfirst : ∀ d, d = c ∨ d = nul → ∀ r, ∃ f v,
      (cutWord endsHost (e :: u)).word ++ d :: r = f :: v ∧ isBlank f = false ∧ f ≠ '#' ∧
        f ≠ '!' := by
    intro d hdc r
    cases hw : (cutWord endsHost (e :: u)).word with
    | nil =>
      rw [hw] at hu
      have hec : e = c := (List.cons.inj hu).1
      refine ⟨d, r, rfl, ?_⟩
      rcases hdc with rfl | rfl
      · exact hec ▸ ⟨he, hcomment, hbang⟩
      · exact ⟨rfl, by decide, by decide⟩
    | cons f w =>
      rw [hw] at hu
      have hef : e = f := (List.cons.inj hu).1
      exact ⟨f, w ++ d :: r, rfl, hef ▸ ⟨he, hcomment, hbang⟩⟩
  constructor
  · rw [List.append_assoc, ← hu]
  · intro d hdc r
    obtain ⟨f, v, hfv, hf, hf', hf''⟩ := hfirst d hdc r
    rw [List.append_assoc, hfv, parseLine_start env hblanks hf hf', ifHead, if_neg hf'', ← hfv]
    exact withWord_result hsep (hd d hdc) r
  · intro d hdc r
    obtain ⟨f, v, hfv, hf, -, hf''⟩ := hfirst d hdc r
    rw [List.append_assoc, hfv, hostSep_start hblanks hf, if_neg hf'', ← hfv,
      hcut d r (hd d hdc)]
  · intro y
    rw [leftover_parseLine_start env hblanks he hcomment, leftover_ifHead_of_ne hbang, hostPart,
      leftover_withWord_some (afterHost_writesNul env false) hsep, List.append_assoc]
  · intro y
    rw [List.append_assoc, List.cons_append, endHost_start env hblanks he, if_neg hbang,
      ← List.cons_append, endHostWord_append env hsep, List.append_assoc]

theorem exists_hostSplit {c : Char} (hsep : hostSep q = some c) (hq : '#' ∉ q) :
    ∃ lead ignore host rest, HostSplit env q c lead ignore host rest := by
  rcases blank_or_start hq with hblank | ⟨blanks, e, u, rfl, hblanks, he, hcomment⟩
  · rw [hostSep_blank hblank] at hsep
    cases hsep
  · rw [hostSep_start hblanks he] at hsep
    by_cases hbang : e = '!'
    · subst hbang
      exact ⟨_, _, _, _, hostSplit_of_bang env hblanks hsep⟩
    · rw [if_neg hbang] at hsep
      exact ⟨_, _, _, _, hostSplit_of_not_bang env hblanks he hcomment hbang hsep⟩

/-- Without a separator behind the host the whole text is left alone. -/
theorem leftover_of_hostSep_none (hsep : hostSep q = none) (hq : '#' ∉ q) (y : List Char) :
    leftover (parseLine env) q y = q := by
  rcases blank_or_start hq with hblank | ⟨blanks, e, u, rfl, hblanks, he, hcomment⟩
  · exact leftover_skipThen_all _ hblank y
  rw [hostSep_start hblanks he] at hsep
  rw [leftover_parseLine_start env hblanks he hcomment]
  apply congrArg (blanks ++ ·)
  by_cases hbang : e = '!'
  · subst hbang
    rw [if_pos rfl] at hsep
    rw [leftover_ifHead_self, hostPart, leftover_withWord_none hsep]
  · rw [if_neg hbang] at hsep
    rw [leftover_ifHead_of_ne hbang, hostPart, leftover_withWord_none hsep]

/-- After a pass the host is ended by NUL. -/
theorem hostSep_leftover {c : Char} (hsep : hostSep q = some c) (hq : '#' ∉ q) (y : List Char) :
    hostSep (leftover (parseLine env) q y) = some nul := by
  obtain ⟨lead, ignore, host, rest, h⟩ := exists_hostSplit env hsep hq
  rw [h.leftover_eq]
  exact h.hostSep_eq nul (Or.inr rfl) _

/-! ## What the stages answer -/

/-- The outcome is the entry of the local variables, which is no ignore rule without the mark. -/
def Parsed.Makes (st : Parsed) (o : Outcome) : Prop :=
  ∃ status mac h, o = st.entry status mac h ∧ (st.ignore = false → status ≠ .blIGNORE)

theorem default_makes (st : Parsed) : st.Makes (st.default env) := by
  rw [Parsed.default]
  split_ifs with hignore
  · exact ⟨_, _, _, rfl, fun h => absurd hignore (by simp [h])⟩
  · split
    · exact ⟨_, _, _, rfl, fun _ => by decide⟩
    · exact ⟨_, _, _, rfl, fun _ => by decide⟩

theorem assigned_cases (st : Parsed) (word : List Char) :
    (∃ err, st.assigned env word = .error err) ∨ st.Makes (st.assigned env word) := by
  rw [Parsed.assigned]
  split_ifs
  · exact Or.inl ⟨_, rfl⟩
  · exact Or.inr ⟨_, _, _, rfl, fun _ => by decide⟩
  · split
    · exact Or.inl ⟨_, rfl⟩
    · exact Or.inr ⟨_, _, _, rfl, fun _ => by decide⟩

theorem macPart_cases (st : Parsed) (text : List Char) :
    (∃ err, (macPart env st text).1 = .error err) ∨ st.Makes (macPart env st text).1 := by
  simp only [macPart, skipThen]
  cases text.dropWhile isBlank with
  | nil => exact Or.inr (default_makes env st)
  | cons c rest =>
    rw [ifEnd, ifHead]
    split_ifs
    · exact Or.inr (default_makes env st)
    · exact assigned_cases env st _

theorem afterAtMac_cases (st : Parsed) (status : AtMacStatus) (word text : List Char) :
    (∃ err, (afterAtMac env st status word text).1 = .error err) ∨
      ∃ mac, env.lib.xetherAton env.localMac word = some mac ∧
        ¬ (st.host = none ∧ status = .amNEGATIVE) ∧
        (afterAtMac env st status word text).1 =
          (macPart env { st with atmac := ⟨mac, status⟩ } text).1 := by
  cases hmac : env.lib.xetherAton env.localMac word with
  | none =>
    rw [afterAtMac, hmac]
    exact Or.inl ⟨_, rfl⟩
  | some mac =>
    rw [afterAtMac, hmac]
    dsimp only
    split_ifs with hnegative
    · exact Or.inl ⟨_, rfl⟩
    · exact Or.inr ⟨mac, rfl, hnegative, rfl⟩

/-- An `@` part is negative or positive. -/
theorem atMacPart_cases (st : Parsed) (text : List Char) :
    ∃ status text', status ≠ .amNONE ∧
      (atMacPart env st text).1 = (atMac env st status text').1 := by
  cases text with
  | nil => exact ⟨.amPOSITIVE, [], by decide, rfl⟩
  | cons c text =>
    rw [atMacPart, ifHead]
    split_ifs
    · exact ⟨.amNEGATIVE, text, by decide, rfl⟩
    · exact ⟨.amPOSITIVE, c :: text, by decide, rfl⟩

theorem atPart_cases (st : Parsed) (hasAtmac : Bool) (text : List Char) :
    (∃ text', (atPart env st hasAtmac text).1 = (atMacPart env st text').1) ∨
      (atPart env st hasAtmac text).1 = (withoutAtMac env st text).1 := by
  rw [atPart]
  split_ifs
  · exact Or.inl ⟨text, rfl⟩
  · cases text with
    | nil => exact Or.inr rfl
    | cons c text =>
      rw [ifHead]
      split_ifs
      · exact Or.inl ⟨text, rfl⟩
      · exact Or.inr rfl

/-- Behind a valid mask the `@` part is read. -/
theorem maskPart_cases (st : Parsed) (text : List Char) :
    (∃ err, (maskPart env st text).1 = .error err) ∨
      ∃ mask text', (maskPart env st text).1 =
        (atPart env { st with mask := some mask } false text').1 := by
  simp only [maskPart]
  split_ifs
  · exact Or.inl ⟨_, rfl⟩
  · exact Or.inr ⟨_, _, rfl⟩
  · split
    · exact Or.inl ⟨_, rfl⟩
    · exact Or.inr ⟨_, _, rfl⟩

/-- Behind the mark the host is read. -/
theorem parseLine_cases (text : List Char) :
    (parseLine env text).1 = .nothing ∨
      ∃ ignore text', (parseLine env text).1 = (hostPart env ignore text').1 := by
  rw [parseLine, skipThen]
  cases text.dropWhile isBlank with
  | nil => exact Or.inl rfl
  | cons c rest =>
    rw [ifEnd, ifHead]
    split_ifs
    · exact Or.inl rfl
    · rw [ifHead]
      split_ifs
      · exact Or.inr ⟨true, rest, rfl⟩
      · exact Or.inr ⟨false, c :: rest, rfl⟩

/-! ## The entries of both passes -/

/-- The entry goes to the list of nets. -/
def Parsed.isNet (st : Parsed) : Bool := st.host.isNone || st.mask.isSome

theorem entry_of_entry {st : Parsed} {status : BlackListStatus} {mac : EtherAddr}
    {h : status ≠ .blUNDECIDED} {e : Entry} (he : (st.entry status mac h).entry = some e) :
    e.isNet = st.isNet ∧ e.base.atmac = st.atmac := by
  cases hhost : st.host with
  | none =>
    simp only [Parsed.entry, hhost, Outcome.entry, Option.some.injEq] at he
    subst he
    simp [Entry.isNet, Entry.base, Parsed.isNet, hhost]
  | some ip =>
    cases hmask : st.mask with
    | none =>
      simp only [Parsed.entry, hhost, hmask, Outcome.entry, Option.some.injEq] at he
      subst he
      simp [Entry.isNet, Entry.base, Parsed.isNet, hhost, hmask]
    | some mask =>
      simp only [Parsed.entry, hhost, hmask, Outcome.entry, Option.some.injEq] at he
      subst he
      simp [Entry.isNet, Entry.base, Parsed.isNet, hmask]

variable {env}

theorem macPart_entry {st : Parsed} {text : List Char} {e : Entry}
    (he : (macPart env st text).1.entry = some e) :
    e.isNet = st.isNet ∧ e.base.atmac = st.atmac := by
  rcases macPart_cases env st text with ⟨err, heq⟩ | ⟨status, mac, h, heq, -⟩
  · rw [heq] at he
    cases he
  · rw [heq] at he
    exact entry_of_entry he

theorem afterAtMac_entry {st : Parsed} {status : AtMacStatus} {word text : List Char} {e : Entry}
    (he : (afterAtMac env st status word text).1.entry = some e) :
    e.isNet = st.isNet ∧ e.base.atmac.status = status ∧
      env.lib.xetherAton env.localMac word = some e.base.atmac.mac := by
  rcases afterAtMac_cases env st status word text with ⟨err, heq⟩ | ⟨mac, hmac, -, heq⟩
  · rw [heq] at he
    cases he
  · rw [heq] at he
    obtain ⟨hnet, hat⟩ := macPart_entry he
    rw [hat]
    exact ⟨hnet, rfl, hmac⟩

theorem atMac_entry {st : Parsed} {status : AtMacStatus} {text : List Char} {e : Entry}
    (he : (atMac env st status text).1.entry = some e) :
    e.isNet = st.isNet ∧ e.base.atmac.status = status ∧
      env.lib.xetherAton env.localMac (cutWord isBlank text).word = some e.base.atmac.mac :=
  afterAtMac_entry he

theorem atMacPart_entry {st : Parsed} {text : List Char} {e : Entry}
    (he : (atMacPart env st text).1.entry = some e) :
    e.isNet = st.isNet ∧ e.base.atmac.status ≠ .amNONE := by
  obtain ⟨status, text', hstatus, heq⟩ := atMacPart_cases env st text
  rw [heq] at he
  obtain ⟨hnet, hs, -⟩ := atMac_entry he
  exact ⟨hnet, hs ▸ hstatus⟩

theorem withoutAtMac_entry {st : Parsed} {text : List Char} {e : Entry}
    (he : (withoutAtMac env st text).1.entry = some e) :
    e.isNet = st.isNet ∧ e.base.atmac = st.atmac := by
  rw [withoutAtMac] at he
  split_ifs at he
  · cases he
  · exact macPart_entry he

theorem atPart_entry {st : Parsed} {hasAtmac : Bool} {text : List Char} {e : Entry}
    (he : (atPart env st hasAtmac text).1.entry = some e) : e.isNet = st.isNet := by
  rcases atPart_cases env st hasAtmac text with ⟨text', heq⟩ | heq
  · rw [heq] at he
    exact (atMacPart_entry he).1
  · rw [heq] at he
    exact (withoutAtMac_entry he).1

theorem maskPart_entry {st : Parsed} {text : List Char} {e : Entry}
    (he : (maskPart env st text).1.entry = some e) : e.isNet = true := by
  rcases maskPart_cases env st text with ⟨err, heq⟩ | ⟨mask, text', heq⟩
  · rw [heq] at he
    cases he
  · rw [heq] at he
    exact (atPart_entry he).trans (by simp [Parsed.isNet])

/-- Behind a host without `/` or `@`, the entry has an `@` part only if an `@` follows. -/
theorem atPart_false_entry {st : Parsed} {text : List Char} {e : Entry}
    (hst : st.atmac.status = .amNONE) (he : (atPart env st false text).1.entry = some e) :
    e.base.atmac.status = .amNONE ∨
      ∃ rest, text = '@' :: rest ∧ (atMacPart env st rest).1.entry = some e := by
  simp only [atPart, Bool.false_eq_true, if_false] at he
  cases text with
  | nil => exact Or.inl ((congrArg AtMac.status (withoutAtMac_entry he).2).trans hst)
  | cons c text =>
    rw [ifHead] at he
    split_ifs at he with hc
    · subst hc
      exact Or.inr ⟨text, rfl, he⟩
    · exact Or.inl ((congrArg AtMac.status (withoutAtMac_entry he).2).trans hst)

/-- A second `@` is read as part of the MAC in the first pass, and as the mark of an `@` part in
the second one. -/
theorem atMacPart_entry_ne {st : Parsed} {r z rest : List Char} {e : Entry} (y : List Char)
    (he : (atMacPart env st (r ++ z)).1.entry = some e)
    (hrest : leftover (atMacPart env st) r y ++ z = '@' :: rest) :
    (atMacPart env st rest).1.entry ≠ some e := by
  intro he'
  -- the text starts with `@` in both passes
  have hover : Overwritten (r ++ z) ('@' :: rest) := by
    rw [← hrest]
    exact (leftover_overwritten (atMacPart_writesNul env st) r y).append (Overwritten.refl z)
  obtain ⟨tail, htail⟩ := hover.head (by decide)
  rw [htail, atMacPart, ifHead, if_neg (by decide)] at he
  obtain ⟨-, hstatus, hmac⟩ := atMac_entry he
  have hcons : ∀ text, (cutWord isBlank ('@' :: text)).word = '@' :: (cutWord isBlank text).word :=
    fun text => congrArg Word.word (cutWord_cons (by decide) text)
  -- and the word behind it is the same
  have hword : (cutWord isBlank rest).word = (cutWord isBlank tail).word := by
    have hsame : (cutWord isBlank ('@' :: rest)).word = (cutWord isBlank ('@' :: tail)).word := by
      rw [← hrest, ← htail]
      cases r with
      | nil => rfl
      | cons d r =>
        have hd : d = '@' := (List.cons.inj htail).1
        subst hd
        rw [atMacPart, leftover_ifHead_of_ne (by decide)]
        exact word_leftover_withWord (fun word _ => afterAtMac_writesNul env st _ word) _ _ _
    simpa [hcons] using hsame
  have hat : env.lib.xetherAton env.localMac ('@' :: (cutWord isBlank tail).word) =
      some e.base.atmac.mac := by
    simpa [hcons] using hmac
  -- so the second pass would read the MAC without the `@` in front of it
  cases rest with
  | nil =>
    obtain ⟨-, -, hmac'⟩ := atMac_entry he'
    rw [hword] at hmac'
    exact env.lib.xetherAton_at _ hmac' hat
  | cons f rest =>
    rw [atMacPart, ifHead] at he'
    split_ifs at he' with hf
    · -- `@!` in the second pass
      obtain ⟨-, hstatus', -⟩ := atMac_entry he'
      rw [hstatus] at hstatus'
      cases hstatus'
    · obtain ⟨-, -, hmac'⟩ := atMac_entry he'
      rw [hword] at hmac'
      exact env.lib.xetherAton_at _ hmac' hat

/-- The host: the star is `none` within `some`. -/
def hostAddr (env : ParseEnv) (host : List Char) : Option (Option InAddr) :=
  if host = ['*'] then some none else (env.lib.inetAton host).map some

/-- With an entry the stages behind the host are reached. -/
theorem afterHost_entry {ignore : Bool} {host text : List Char} {sep : Option Char} {e : Entry}
    (he : (afterHost env ignore host sep text).1.entry = some e) :
    ∃ addr, hostAddr env host = some addr ∧ (sep = some '/' → addr ≠ none) ∧
      (addr = none → ignore = false) ∧ afterHost env ignore host sep =
        if sep = some '/' then maskPart env (.start ignore addr)
        else atPart env (.start ignore addr) (sep = some '@') := by
  by_cases hstar : host = ['*']
  · -- the star goes with neither `!` nor a netmask
    rw [afterHost, if_pos hstar] at he
    rw [afterHost, if_pos hstar, hostAddr, if_pos hstar]
    by_cases hignore : ignore
    · rw [if_pos hignore] at he
      cases he
    · by_cases hslash : sep = some '/'
      · rw [if_neg hignore, if_pos hslash] at he
        cases he
      · exact ⟨none, rfl, fun h => absurd h hslash, fun _ => eq_false_of_ne_true hignore,
          by rw [if_neg hignore, if_neg hslash, if_neg hslash]⟩
  · cases hip : env.lib.inetAton host with
    | none =>
      rw [afterHost, if_neg hstar, hip] at he
      cases he
    | some ip =>
      have hne : some ip ≠ none := Option.some_ne_none ip
      refine ⟨some ip, ?_, fun _ => hne, fun h => absurd h hne, ?_⟩
      · rw [hostAddr, if_neg hstar, hip, Option.map_some]
      · rw [afterHost, if_neg hstar, hip]

/-- Where the first pass overwrites a `/` or an `@` behind the host, the second pass does not find
the entry that the text stands for. -/
theorem entry_ne_of_leftover {c : Char} (hsep : hostSep q = some c) (hc : c = '/' ∨ c = '@')
    (hq : '#' ∉ q) (y z : List Char) {e : Entry}
    (he : (parseLine env (q ++ z)).1.entry = some e) :
    (parseLine env (leftover (parseLine env) q y ++ z)).1.entry ≠ some e := by
  intro he'
  obtain ⟨lead, ignore, host, rest, h⟩ := exists_hostSplit env hsep hq
  rw [h.leftover_eq, List.append_assoc, List.cons_append, h.outcome nul (Or.inr rfl)] at he'
  rw [h.text_eq, List.append_assoc, List.cons_append, h.outcome c (Or.inl rfl)] at he
  obtain ⟨addr, haddr, hip, -, hfirst⟩ := afterHost_entry he
  obtain ⟨addr', haddr', -, -, hsecond⟩ := afterHost_entry he'
  rw [haddr, Option.some.injEq] at haddr'
  subst haddr'
  rw [if_neg (by decide), decide_eq_false (by decide)] at hsecond
  rw [hsecond] at he'
  rcases hc with rfl | rfl
  · -- a net in the first pass, no net in the second one
    rw [if_pos rfl] at hfirst
    rw [hfirst] at he
    have hnet' := atPart_entry he'
    rw [maskPart_entry he] at hnet'
    cases addr with
    | none => exact hip rfl rfl
    | some ip => cases hnet'
  · -- an `@` part in the first pass
    rw [if_neg (by decide), decide_eq_true rfl] at hfirst
    rw [hfirst] at he he'
    rcases atPart_false_entry rfl he' with hnone | ⟨tail, htail, he''⟩
    · exact (atMacPart_entry he).2 hnone
    · exact atMacPart_entry_ne y he htail he''

end IpSentinel.BlackList

import IpSentinel.BlackList.Overwriting

/-!
# A second call on the text of the first one

`parseLine_leftover` says what a second call of `BlackList_parseLine` reads where the first one has
overwritten a `/` or an `@` behind the host: the line with NUL in place of this separator, and of
that of the word behind it when this is an `@` part or no netmask. The NULs further behind make no
difference, since they stand where the MAC ends in both texts.
-/

set_option autoImplicit false

namespace IpSentinel.BlackList

open Foundation

variable (env : ParseEnv) {q : List Char}

/-! ## The MAC behind a front -/

/-- The MAC is the first word behind the blanks. -/
theorem macPart_start (st : Parsed) {blanks : List Char} {e : Char}
    (hblanks : ∀ c ∈ blanks, isBlank c) (he : isBlank e = false) (hcomment : e ≠ '#')
    (text : List Char) :
    (macPart env st (blanks ++ e :: text)).1 =
      st.assigned env (cutWord endsMac (e :: text)).word := by
  rw [macPart, skipThen_apply _ hblanks he, ifEnd, ifHead, if_neg hcomment]
  rfl

/-- Texts with the same first word give the same MAC behind a front. -/
theorem macPart_front (st : Parsed) {front text text' : List Char} (hfront : '#' ∉ front)
    (hword : (cutWord endsMac text).word = (cutWord endsMac text').word)
    (hmac : (macPart env st text).1 = (macPart env st text').1) :
    (macPart env st (front ++ text)).1 = (macPart env st (front ++ text')).1 := by
  rcases blank_or_start hfront with hblank | ⟨blanks, e, u, rfl, hblanks, he, hcomment⟩
  · exact (skipThen_append _ hblank text).trans (hmac.trans (skipThen_append _ hblank text').symm)
  · rw [List.append_assoc, List.append_assoc, List.cons_append, List.cons_append,
      macPart_start env st hblanks he hcomment, macPart_start env st hblanks he hcomment]
    exact congrArg (st.assigned env) (word_append_congr (e :: u) hword)

/-- Where a NUL ends the text, nothing behind it matters. -/
theorem macPart_nul (st : Parsed) {front : List Char} (hfront : '#' ∉ front)
    (text text' : List Char) :
    (macPart env st (front ++ nul :: text)).1 = (macPart env st (front ++ nul :: text')).1 := by
  have hword : ∀ text, (cutWord endsMac (nul :: text)).word = [] := fun text => by
    rw [cutWord_cons_sep (Or.inr rfl)]
  have hmac : ∀ text, (macPart env st (nul :: text)).1 = st.assigned env [] := fun text => by
    rw [← hword text]
    exact macPart_start env st (List.forall_mem_nil _) rfl (by decide) text
  exact macPart_front env st hfront ((hword _).trans (hword _).symm) ((hmac _).trans (hmac _).symm)

/-! ## The word in front of a NUL -/

theorem word_leftover_atMac (st : Parsed) (status : AtMacStatus) (q y z : List Char) :
    (cutWord endsMac (leftover (atMac env st status) q y ++ z)).word =
      (cutWord endsMac (q ++ z)).word := by
  cases hsep : (cutWord isBlank q).sep with
  | none => rw [atMac, leftover_withWord_none hsep]
  | some c =>
    have hc : endsMac c ∨ c = nul :=
      (isSep_of_cutWord_sep hsep).imp_left fun h => by simp [endsMac, h]
    conv_rhs => rw [(cutWord_of_sep_some hsep).1]
    rw [atMac, leftover_withWord_some (fun word _ => afterAtMac_writesNul env st status word) hsep,
      List.append_assoc, List.append_assoc, List.cons_append, List.cons_append]
    apply word_append_congr
    rw [cutWord_cons_sep (Or.inr rfl), cutWord_cons_sep hc]

theorem word_leftover_atMacPart (st : Parsed) (q y z : List Char) :
    (cutWord endsMac (leftover (atMacPart env st) q y ++ z)).word =
      (cutWord endsMac (q ++ z)).word := by
  cases q with
  | nil => rw [leftover_nil]
  | cons d q =>
    by_cases hd : d = '!'
    · subst hd
      rw [atMacPart, leftover_ifHead_self]
      exact word_append_congr ['!'] (word_leftover_atMac env st _ q y z)
    · rw [atMacPart, leftover_ifHead_of_ne hd]
      exact word_leftover_atMac env st _ (d :: q) y z

theorem leftover_atPart_at (st : Parsed) (q y : List Char) :
    leftover (atPart env st false) ('@' :: q) y = '@' :: leftover (atMacPart env st) q y := by
  rw [atPart_false, leftover_ifHead_self]

theorem leftover_atPart_of_ne (st : Parsed) {d : Char} (hd : d ≠ '@') (q y : List Char) :
    leftover (atPart env st false) (d :: q) y = leftover (withoutAtMac env st) (d :: q) y := by
  rw [atPart_false, leftover_ifHead_of_ne hd]

/-- A word goes on over the `@` behind a netmask, and ends at any other character there. -/
theorem word_leftover_atPart (st : Parsed) {q : List Char}
    (hq : ∀ c ∈ q.head?, endsMask c ∨ c = nul)
    (y z : List Char) :
    (cutWord endsMac (leftover (atPart env st false) q y ++ z)).word =
      (cutWord endsMac (q ++ z)).word := by
  cases q with
  | nil => rw [leftover_nil]
  | cons d q =>
    by_cases hd : d = '@'
    · subst hd
      rw [leftover_atPart_at]
      exact word_append_congr ['@'] (word_leftover_atMacPart env st q y z)
    · have hends : endsMac d ∨ d = nul := (hq d rfl).imp_left fun h => by
        simpa [endsMask, endsMac, hd] using Or.inr h
      obtain ⟨e, v, hev, he⟩ := leftover_cons (withoutAtMac_writesNul env st) d q y
      have hends' : endsMac e ∨ e = nul := by
        rcases he with rfl | rfl
        · exact hends
        · exact Or.inr rfl
      rw [leftover_atPart_of_ne env st hd, hev, List.cons_append, List.cons_append,
        cutWord_cons_sep hends, cutWord_cons_sep hends']

theorem macPart_leftover_atPart (st st' : Parsed) {q : List Char}
    (hq : ∀ c ∈ q.head?, endsMask c ∨ c = nul) (hcomment : '#' ∉ q) (y z : List Char) :
    (macPart env st (leftover (atPart env st' false) q y ++ z)).1 =
      (macPart env st (q ++ z)).1 := by
  cases q with
  | nil => rw [leftover_nil]
  | cons d q =>
    by_cases hd : d = '@'
    · subst hd
      have hword := word_leftover_atPart env st' hq y z
      rw [leftover_atPart_at] at hword ⊢
      have hmac : ∀ text, (macPart env st ('@' :: text)).1 =
          st.assigned env (cutWord endsMac ('@' :: text)).word := fun text =>
        macPart_start env st (List.forall_mem_nil _) rfl (by decide) text
      rw [List.cons_append, List.cons_append, hmac, hmac]
      exact congrArg (st.assigned env) hword
    · rw [leftover_atPart_of_ne env st' hd]
      exact (withoutAtMac_endsOrReads env st').behind (Or.inr ⟨st, rfl⟩) hcomment y z

/-- What a pass leaves of a line behind its netmask reads as before in a pass without netmask. -/
theorem atPart_leftover_mask (st st' : Parsed) {front : List Char} (hfront : '#' ∉ front)
    (hat : front.head? ≠ some '@') (hq : ∀ c ∈ q.head?, endsMask c ∨ c = nul)
    (hcomment : '#' ∉ q) (y z : List Char) :
    (atPart env st false (front ++ leftover (atPart env st' false) q y ++ z)).1 =
      (atPart env st false (front ++ q ++ z)).1 := by
  have hword := word_leftover_atPart env st' hq y z
  have hmac := macPart_leftover_atPart env st st' hq hcomment y z
  have hbehind := atPart_behind env st' st hcomment y z
  generalize leftover (atPart env st' false) q y = left at hword hmac hbehind ⊢
  cases front with
  | nil => exact hbehind
  | cons d front =>
    have hd : d ≠ '@' := fun h => hat (congrArg some h)
    have hskip : ∀ text, (atPart env st false (d :: front ++ text)).1 =
        (withoutAtMac env st (d :: front ++ text)).1 := fun text => by
      rw [atPart_false, List.cons_append, ifHead, if_neg hd]
    rw [List.append_assoc, List.append_assoc, hskip, hskip, withoutAtMac]
    split_ifs
    · rfl
    · exact macPart_front env st hfront hword hmac

/-! ## What the stages leave -/

theorem strtol_at (plat : Platform) {text : List Char} (h : text.head? = some '@') :
    (strtol plat 0 text).2 = 0 := by
  have hstop : strtol plat 0 ([] ++ text) = strtol plat 0 [] := strtol_stop plat 0 fun c hc => by
    rw [h] at hc
    cases hc
    exact ⟨rfl, rfl, by decide, by decide⟩
  rw [List.nil_append] at hstop
  rw [hstop]
  rfl

theorem word_eq_nil_iff {text : List Char} :
    (cutWord endsMask text).word = [] ↔ text = [] ∨ ∃ c ∈ text.head?, c = nul ∨ endsMask c := by
  cases text with
  | nil => exact iff_of_true rfl (Or.inl rfl)
  | cons c text =>
    by_cases hc : endsMask c ∨ c = nul
    · rw [cutWord_cons_sep hc]
      exact iff_of_true rfl (Or.inr ⟨c, rfl, hc.symm⟩)
    · rw [cutWord_cons hc]
      refine iff_of_false (List.cons_ne_nil _ _) ?_
      rintro (h | ⟨d, hd, h⟩)
      · cases h
      · cases hd
        exact hc h.symm

/-- Behind a word stands its separator. -/
theorem head?_drop_word (text : List Char) :
    ∀ c ∈ (text.drop (cutWord endsMask text).word.length).head?, endsMask c ∨ c = nul := by
  cases hsep : (cutWord endsMask text).sep with
  | none =>
    rw [word_of_sep_none hsep, List.drop_length]
    nofun
  | some d =>
    have htext := (cutWord_of_sep_some hsep).1
    have hdrop : text.drop (cutWord endsMask text).word.length =
        d :: (cutWord endsMask text).rest :=
      (congrArg (List.drop _) htext).trans (List.drop_left' rfl)
    rw [hdrop]
    rintro c ⟨⟩
    exact isSep_of_cutWord_sep hsep

theorem endMask_of_at {text : List Char} (h : text.head? = some '@') : endMask env text = text := by
  rw [endMask, if_pos]
  left
  rw [strtol_at env.plat h, List.drop_zero, word_eq_nil_iff, h]
  exact Or.inr ⟨'@', rfl, Or.inr rfl⟩

theorem endMask_overwritten (text : List Char) : Overwritten text (endMask env text) := by
  rw [endMask]
  split_ifs
  · exact Overwritten.refl text
  · exact (rejoin_overwritten (Overwritten.refl _)).behind

/-- A netmask is left as it is in front of what the next stage leaves; any other text is ended. -/
theorem maskPart_leaves (st : Parsed) (text : List Char) :
    (maskPart env st text).2 = endMask env text ∨
      ∃ st' n, (maskPart env st text).2 = text.take n ++ (atPart env st' false (text.drop n)).2 ∧
        endMask env text = text ∧ (∀ c ∈ (text.drop n).head?, endsMask c ∨ c = nul) ∧
        (text.head? = some '@' → n = 0) := by
  have hat : text.head? = some '@' → (strtol env.plat 0 text).2 = 0 := strtol_at env.plat
  simp only [maskPart, endMask]
  generalize strtol env.plat 0 text = r at hat
  obtain ⟨val, used⟩ := r
  dsimp only at hat ⊢
  -- a number up to a separator is not cut off; any other text is, for `inet_aton`
  by_cases hbehind : text.drop used = [] ∨ ∃ c ∈ (text.drop used).head?, c = nul ∨ endsMask c
  · rw [if_pos hbehind, if_pos (Or.inl (word_eq_nil_iff.2 hbehind))]
    split_ifs
    · exact Or.inl rfl
    · refine Or.inr ⟨_, used, rfl, rfl, fun c hc => ?_, hat⟩
      rcases hbehind with hnil | ⟨d, hd, h⟩
      · rw [hnil] at hc
        cases hc
      · cases Option.mem_unique hc hd
        exact h.symm
  · rw [if_neg hbehind]
    have hword : (cutWord endsMask (text.drop used)).word ≠ [] := fun h =>
      hbehind (word_eq_nil_iff.1 h)
    cases hip : env.lib.inetAton (text.take used ++ (cutWord endsMask (text.drop used)).word) with
    | none =>
      -- the NUL stays where the netmask is invalid
      left
      rw [if_neg]
      rintro (h | h)
      · exact hword h
      · cases h
    | some mask =>
      -- behind a valid netmask the character is put back
      right
      refine ⟨{ st with mask := some mask }, used + (cutWord endsMask (text.drop used)).word.length,
        ?_, if_pos (Or.inr rfl), ?_, fun h => ?_⟩
      · rw [List.take_add, take_length_word, ← List.drop_drop]
      · rw [← List.drop_drop]
        exact head?_drop_word _
      · exfalso
        apply hword
        rw [hat h, List.drop_zero, word_eq_nil_iff, h]
        exact Or.inr ⟨'@', rfl, Or.inr rfl⟩

theorem atPart_leftover_maskPart (st st' : Parsed) (hq : '#' ∉ q) (y z : List Char) :
    (atPart env st false (leftover (maskPart env st') q y ++ z)).1 =
      (atPart env st false ((endMask env (q ++ y)).take q.length ++ z)).1 := by
  rcases maskPart_leaves env st' (q ++ y) with h | ⟨st'', n, h, hmask, hsep, hat⟩
  · rw [leftover, h]
  · have hhead : (q.take n).head? ≠ some '@' := by
      intro h
      rw [List.head?_take] at h
      split_ifs at h with hn
      apply hn
      apply hat
      rw [List.head?_append, h]
      rfl
    have hbehind : ∀ c ∈ (q.drop n).head?, endsMask c ∨ c = nul := by
      intro c hc
      apply hsep
      rw [List.drop_append, List.head?_append, hc]
      rfl
    have hfinal := atPart_leftover_mask env st st'' (fun h => hq (List.mem_of_mem_take h)) hhead
      hbehind (fun h => hq (List.mem_of_mem_drop h)) y z
    rw [List.take_append_drop] at hfinal
    rw [leftover, h, hmask, List.take_left' rfl, take_behind]
    exact hfinal

/-- Without a host behind the `/` nothing is read but a second `@`. -/
theorem atPart_endMask (st : Parsed) (hst : st.host = none) (q y z : List Char) :
    (atPart env st false (q ++ z)).1 =
      (atPart env st false ((endMask env (q ++ y)).take q.length ++ z)).1 := by
  cases q with
  | nil => rw [List.length_nil, List.take_zero]
  | cons d q =>
    by_cases hd : d = '@'
    · subst hd
      rw [endMask_of_at env rfl, List.take_left' rfl]
    · have hover := (endMask_overwritten env (d :: q ++ y)).take (d :: q).length
      rw [List.take_left' rfl] at hover
      generalize (endMask env (d :: q ++ y)).take (d :: q).length = text at hover ⊢
      obtain ⟨e, v, hed, -, rfl⟩ := List.forall₂_cons_left_iff.1 hover
      have he : e ≠ '@' := by
        rcases hed with rfl | rfl
        · exact hd
        · decide
      rw [atPart_false, List.cons_append, List.cons_append, ifHead, if_neg hd, ifHead, if_neg he,
        withoutAtMac, if_pos hst]
      rfl

theorem leftover_atMacPart_none (st : Parsed) (hsep : (cutWord isBlank q).sep = none)
    (y : List Char) : leftover (atMacPart env st) q y = q := by
  cases q with
  | nil => exact leftover_nil _ y
  | cons d q =>
    by_cases hd : d = '!'
    · subst hd
      rw [cutWord_cons (by decide)] at hsep
      rw [atMacPart, leftover_ifHead_self, atMac, leftover_withWord_none hsep]
    · rw [atMacPart, leftover_ifHead_of_ne hd, atMac, leftover_withWord_none hsep]

theorem leftover_atMacPart_some (st : Parsed) {c : Char} (hsep : (cutWord isBlank q).sep = some c)
    (y : List Char) :
    ∃ f, EndsOrReads env f ∧ leftover (atMacPart env st) q y =
      (cutWord isBlank q).word ++ nul :: leftover f (cutWord isBlank q).rest y := by
  cases q with
  | nil => cases hsep
  | cons d q =>
    by_cases hd : d = '!'
    · subst hd
      rw [cutWord_cons (by decide)] at hsep ⊢
      rw [atMacPart, leftover_ifHead_self, atMac,
        leftover_withWord_some (fun word _ => afterAtMac_writesNul env st _ word) hsep]
      exact ⟨_, afterAtMac_endsOrReads env st _ _, rfl⟩
    · rw [atMacPart, leftover_ifHead_of_ne hd, atMac,
        leftover_withWord_some (fun word _ => afterAtMac_writesNul env st _ word) hsep]
      exact ⟨_, afterAtMac_endsOrReads env st _ _, rfl⟩

section WordNul

variable {word text text' : List Char} (h : ∀ f, EndsOrReads env f → (f text).1 = (f text').1)

include h

theorem atMac_word_nul (st : Parsed) (status : AtMacStatus)
    (hword : ∀ c ∈ word, ¬ (isBlank c ∨ c = nul)) :
    (atMac env st status (word ++ nul :: text)).1 =
      (atMac env st status (word ++ nul :: text')).1 := by
  have hnul : ∀ text, ∀ c ∈ (nul :: text).head?, isBlank c ∨ c = nul := fun text c hc => by
    cases hc
    exact Or.inr rfl
  rw [atMac, withWord_append hword (hnul text), withWord_append hword (hnul text')]
  exact h _ (afterAtMac_endsOrReads env st status word)

theorem atMacPart_word_nul (st : Parsed) (hword : ∀ c ∈ word, ¬ (isBlank c ∨ c = nul)) :
    (atMacPart env st (word ++ nul :: text)).1 = (atMacPart env st (word ++ nul :: text')).1 := by
  cases word with
  | nil => exact atMac_word_nul env h st .amPOSITIVE hword
  | cons e word =>
    by_cases he : e = '!'
    · subst he
      exact atMac_word_nul env h st .amNEGATIVE (List.forall_mem_cons.1 hword).2
    · rw [List.cons_append, List.cons_append, atMacPart, ifHead, if_neg he, ifHead, if_neg he]
      exact atMac_word_nul env h st .amPOSITIVE hword

/-- Behind a word that ends in a NUL only the MAC is read. -/
theorem atPart_word_nul (st : Parsed) (hword : ∀ c ∈ word, ¬ (isBlank c ∨ c = nul))
    (hcomment : '#' ∉ word) :
    (atPart env st false (word ++ nul :: text)).1 =
      (atPart env st false (word ++ nul :: text')).1 := by
  have hwithout : (withoutAtMac env st (word ++ nul :: text)).1 =
      (withoutAtMac env st (word ++ nul :: text')).1 := by
    rw [withoutAtMac]
    split_ifs
    · rfl
    · exact macPart_nul env st hcomment text text'
  rw [atPart_false]
  cases word with
  | nil => exact hwithout
  | cons d word =>
    by_cases hd : d = '@'
    · subst hd
      exact atMacPart_word_nul env h st (List.forall_mem_cons.1 hword).2
    · rw [List.cons_append, List.cons_append, ifHead, if_neg hd, ifHead, if_neg hd]
      exact hwithout

end WordNul

theorem atPart_leftover_atMacPart (st st' : Parsed) (hq : '#' ∉ q) (y z : List Char) :
    (atPart env st false (leftover (atMacPart env st') q y ++ z)).1 =
      (atPart env st false ((endWord isBlank (q ++ y)).take q.length ++ z)).1 := by
  cases hsep : (cutWord isBlank q).sep with
  | none => rw [leftover_atMacPart_none env st' hsep, take_endWord_none hsep]
  | some c =>
    obtain ⟨f, hf, hleft⟩ := leftover_atMacPart_some env st' hsep y
    have hsplit := (cutWord_of_sep_some hsep).1
    have hcomment : '#' ∉ (cutWord isBlank q).word := fun h => by
      apply hq
      rw [hsplit]
      exact List.mem_append_left _ h
    have hword : ∀ c ∈ (cutWord isBlank q).word, ¬ (isBlank c ∨ c = nul) := by
      intro c hc
      rw [word_eq_takeWhile] at hc
      have hnot := List.mem_takeWhile_imp hc
      simpa using hnot
    rw [hleft, take_endWord_some hsep, List.append_assoc, List.append_assoc, List.cons_append,
      List.cons_append]
    exact atPart_word_nul env (fun g hg => hf.behind hg (not_mem_rest hq hsep) y z) st hword
      hcomment

/-! ## The whole line -/

/-- Behind a host that NUL ends there is no netmask. -/
theorem afterHost_nul (ignore : Bool) (host : List Char) :
    (∃ o, ∀ sep, afterHost env ignore host sep = done o) ∨
      ∃ addr, afterHost env ignore host (some nul) = atPart env (.start ignore addr) false ∧
        afterHost env ignore host (some '@') = atPart env (.start ignore addr) true ∧
        (afterHost env ignore host (some '/') = maskPart env (.start ignore addr) ∨
          addr = none ∧ ∃ o, afterHost env ignore host (some '/') = done o) := by
  have hslash : some nul ≠ some '/' := by decide
  have hat : some nul ≠ some '@' := by decide
  have hslash' : some '@' ≠ some '/' := by decide
  simp only [afterHost]
  by_cases hstar : host = ['*']
  · simp only [if_pos hstar]
    cases ignore with
    | true => exact Or.inl ⟨_, fun _ => rfl⟩
    | false => exact Or.inr ⟨none, rfl, rfl, Or.inr ⟨rfl, _, rfl⟩⟩
  · simp only [if_neg hstar]
    cases env.lib.inetAton host with
    | none => exact Or.inl ⟨_, fun _ => rfl⟩
    | some ip => exact Or.inr ⟨some ip, rfl, rfl, Or.inl rfl⟩

/-- A second call reads the line with the host ended by NUL. -/
theorem parseLine_leftover {c : Char} (hsep : hostSep q = some c) (hc : c = '/' ∨ c = '@')
    (hq : '#' ∉ q) (y z : List Char) :
    (parseLine env (leftover (parseLine env) q y ++ z)).1 =
      (parseLine env ((endHost env (q ++ y)).take q.length ++ z)).1 := by
  obtain ⟨lead, ignore, host, rest, h⟩ := exists_hostSplit env hsep hq
  have hrest : '#' ∉ rest := fun hmem => by
    apply hq
    rw [h.text_eq]
    exact List.mem_append_right _ (List.mem_cons_of_mem _ hmem)
  have htake : (endHost env (q ++ y)).take q.length =
      lead ++ host ++ nul :: (behindHost env (some c) (rest ++ y)).take rest.length := by
    have hlen : q.length = (lead ++ host).length + (rest.length + 1) := by
      rw [h.text_eq, List.length_append, List.length_cons]
    rw [h.endHost_eq, hlen, List.take_length_add_append, List.take_succ_cons]
  have houtcome : ∀ text, (parseLine env (lead ++ host ++ nul :: text ++ z)).1 =
      (afterHost env ignore host (some nul) (text ++ z)).1 := fun text => by
    rw [List.append_assoc (lead ++ host), List.cons_append]
    exact h.outcome nul (Or.inr rfl) _
  -- both texts have NUL behind the host; they differ in what the first call leaves behind it
  rw [h.leftover_eq, htake, houtcome, houtcome]
  rcases afterHost_nul env ignore host with ⟨o, ho⟩ | ⟨addr, hnul, hat, hslash⟩
  · rw [ho]
    rfl
  rw [hnul]
  rcases hc with rfl | rfl
  · rw [behindHost, if_pos rfl]
    rcases hslash with hmask | ⟨rfl, o, ho⟩
    · rw [hmask]
      exact atPart_leftover_maskPart env _ _ hrest y z
    · rw [ho, leftover_done]
      exact atPart_endMask env _ rfl rest y z
  · rw [behindHost, if_neg (by decide), if_pos rfl, hat]
    exact atPart_leftover_atMacPart env _ _ hrest y z

end IpSentinel.BlackList

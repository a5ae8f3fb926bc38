import IpSentinel.BlackList.BlockedSender
import IpSentinel.BlackList.Grammar
import IpSentinel.Net.PrintLib

/-!
# Printing the blacklist

`BlackList_print` writes a line for each entry. The line is one of the grammar, `ruleLine`, so that
`BlackList_parseLine` reads the entry back from it: `parseLine_ip` and `parseLine_net`. What is lost
is the MAC of an entry that does not set it.
-/

set_option autoImplicit false

namespace IpSentinel.BlackList

open Foundation

/-! ## The functions of the source -/

section Print

variable {lib : AddressLib} (P : PrintLib lib)

/-- `BlackList_printAtMac`. -/
def printAtMac (atmac : AtMac) : List Char :=
  if atmac.status ≠ .amNONE then
    let mark :=
      match atmac.status with
      | .amPOSITIVE => []
      | .amNEGATIVE => ['!']
      | .amNONE => ['?']
    '@' :: (mark ++ P.etherNtoa atmac.mac)
  else []

/-- `BlackList_print_internal`; the mask is null for an entry with an address. -/
def printInternal (data : BaseData) (mask : Option InAddr) (noIp : Bool) : List Char :=
  let (mark, aux) : List Char × Option (List Char) :=
    match data.status with
    | .blUNDECIDED => (['?'], some "FAIL".toList)
    | .blIGNORE => (['!'], some [])
    | .blRAND => ([], some "RANDOM".toList)
    | .blSET => ([], none)
  let host :=
    if noIp then ['*']
    else P.inetNtoa data.ip ++ mask.elim [] fun m => '/' :: P.inetNtoa m
  mark ++ host ++ printAtMac P data.atmac ++ ['\t', '\t'] ++ aux.getD (P.etherNtoa data.mac) ++
    ['\n']

/-- `BlackList_print`. -/
def print (lst : BlackList) : List Char :=
  lst.ipList.flatMap (fun d => printInternal P d.v none false) ++
    lst.netList.flatMap fun n => printInternal P n.v (some n.mask) n.noIp

end Print

/-! ## The line of an entry -/

section Line

variable {env : ParseEnv} (P : PrintLib env.lib)

/-- No character of an address is one of those that steer the parser. -/
theorem ne_of_inetNtoa {ip : InAddr} {c d : Char} (hc : c ∈ P.inetNtoa ip)
    (hd : d.isDigit = false) (hdot : d ≠ '.') : c ≠ d := by
  rintro rfl
  rcases P.inetNtoa_chars ip c hc with h | h
  · rw [hd] at h
    cases h
  · exact hdot h

theorem isHostWord_inetNtoa (ip : InAddr) : IsHostWord (P.inetNtoa ip) where
  ne_nil := List.ne_nil_of_mem (P.inetNtoa_dot ip)
  word c hc := by
    simp only [endsHost, isBlank, decide_eq_true_eq, Bool.decide_or, Bool.or_eq_true]
    rintro ((h | h | h | h) | h) <;> exact ne_of_inetNtoa P hc rfl (by decide) h
  no_bang h := ne_of_inetNtoa P (List.mem_of_mem_head? h) rfl (by decide) rfl
  no_comment h := ne_of_inetNtoa P (List.mem_of_mem_head? h) rfl (by decide) rfl
  ne_star h := by
    have hstar : '*' ∈ P.inetNtoa ip := h ▸ List.mem_singleton_self '*'
    exact ne_of_inetNtoa P hstar rfl (by decide) rfl

/-- A dotted mask. -/
def maskText (mask : InAddr) : MaskText env where
  text := P.inetNtoa mask
  mask := mask
  word c hc := by
    simp only [endsMask, isBlank, decide_eq_true_eq, Bool.decide_or, Bool.or_eq_true]
    rintro (((h | h) | h) | h) <;> exact ne_of_inetNtoa P hc rfl (by decide) h
  denotes := Or.inr ⟨P.inetNtoa_dot mask, P.inetAton_inetNtoa mask⟩

/-- A MAC as `ether_ntoa` writes it. -/
def macText (mac : EtherAddr) : MacText env.lib where
  text := P.etherNtoa mac
  mac := mac
  chars := P.etherNtoa_chars mac
  reads := P.etherAton_etherNtoa mac

/-- The part with the MAC of a sender. -/
def atText (atmac : AtMac) : Option (AtText env.lib) :=
  if atmac.status = .amNONE then none
  else some { negative := atmac.status = .amNEGATIVE, mac := macText P atmac.mac }

/-- The MAC to be assigned, behind two tabs. -/
def macField (data : BaseData) : Option (MacField env.lib) :=
  if data.status = .blIGNORE then none
  else
    some
      { blanks := ['\t', '\t']
        word := if data.status = .blRAND then .RANDOM else .mac (macText P data.mac)
        blanks_ne := List.cons_ne_nil _ _
        blanks_blank := List.all_iff_forall_prop.1 rfl }

/-- The line of an entry. -/
def ruleLine (data : BaseData) (mask : Option InAddr) (noIp : Bool) : RuleLine env where
  blanks := []
  ignore := data.status = .blIGNORE
  host :=
    if noIp then .star
    else .address (P.inetNtoa data.ip) data.ip (isHostWord_inetNtoa P data.ip)
      (P.inetAton_inetNtoa data.ip)
  mask := if noIp then none else mask.map (maskText P)
  atmac := atText P data.atmac
  mac := macField P data
  tailBlanks := if data.status = .blIGNORE then ['\t', '\t'] else []
  comment := []
  blanks_blank := forall_mem_nil_blank
  tailBlanks_blank := by
    split_ifs
    · exact List.all_iff_forall_prop.1 rfl
    · exact forall_mem_nil_blank
  comment_mark := nofun
  separated _ h := absurd rfl h

/-- What stands behind the tabs. -/
def auxText (data : BaseData) : List Char :=
  match data.status with
  | .blIGNORE => []
  | .blRAND => "RANDOM".toList
  | _ => P.etherNtoa data.mac

variable (data : BaseData) (mask : Option InAddr) (noIp : Bool)

theorem ruleLine_atmac :
    (ruleLine P data mask noIp).atmac.elim [] AtText.text = printAtMac P data.atmac := by
  obtain ⟨ip, status, mac, ⟨atMac, atStatus⟩, decided⟩ := data
  cases atStatus <;> rfl

theorem ruleLine_rest : (ruleLine P data mask noIp).rest = ['\t', '\t'] ++ auxText P data := by
  obtain ⟨ip, status, mac, atmac, decided⟩ := data
  cases status with
  | blUNDECIDED => exact absurd rfl decided
  | blIGNORE => rfl
  | blSET =>
    have hword : (MacWord.mac (macText P mac)).text = P.etherNtoa mac := rfl
    simp [RuleLine.rest, ruleLine, macField, hword, auxText]
  | blRAND =>
    have hword : (MacWord.RANDOM : MacWord env.lib).text = "RANDOM".toList := rfl
    simp [RuleLine.rest, ruleLine, macField, hword, auxText]

theorem ruleLine_host : (ruleLine P data mask noIp).host.text ++
      (ruleLine P data mask noIp).mask.elim [] (fun m => '/' :: m.text) =
    if noIp then ['*'] else P.inetNtoa data.ip ++ mask.elim [] fun m => '/' :: P.inetNtoa m := by
  cases noIp with
  | true => rfl
  | false => cases mask <;> rfl

/-- The parts of the line. -/
theorem ruleLine_text : (ruleLine P data mask noIp).text =
    bang (data.status = .blIGNORE) ++
      ((if noIp then ['*']
        else P.inetNtoa data.ip ++ mask.elim [] fun m => '/' :: P.inetNtoa m) ++
      (printAtMac P data.atmac ++ (['\t', '\t'] ++ auxText P data))) := by
  have hblanks : (ruleLine P data mask noIp).blanks = [] := rfl
  rw [RuleLine.text, RuleLine.atRest, ruleLine_rest, ruleLine_atmac, ← ruleLine_host, hblanks,
    List.nil_append, List.append_assoc (RuleLine.host _).text]
  rfl

/-- `BlackList_print_internal` writes the line and a newline. -/
theorem printInternal_eq :
    printInternal P data mask noIp = (ruleLine P data mask noIp).text ++ ['\n'] := by
  rw [ruleLine_text]
  obtain ⟨ip, status, mac, atmac, decided⟩ := data
  cases status with
  | blUNDECIDED => exact absurd rfl decided
  | blIGNORE => simp [printInternal, auxText, bang]
  | blSET => simp [printInternal, auxText, bang]
  | blRAND => simp [printInternal, auxText, bang]

/-! ## Its characters -/

/-- The characters in the lines. -/
def IsPrinted (c : Char) : Prop :=
  (hexVal c).isSome ∨ c ∈ ['!', '*', '.', '/', '@', ':', '\t', 'R', 'N', 'O', 'M']

instance (c : Char) : Decidable (IsPrinted c) := inferInstanceAs (Decidable (_ ∨ _))

theorem isPrinted_inetNtoa (ip : InAddr) : ∀ c ∈ P.inetNtoa ip, IsPrinted c := by
  intro c hc
  rcases P.inetNtoa_chars ip c hc with h | rfl
  · exact Or.inl (hexVal_of_isDigit h)
  · decide

theorem isPrinted_etherNtoa (mac : EtherAddr) : ∀ c ∈ P.etherNtoa mac, IsPrinted c := by
  intro c hc
  rcases P.etherNtoa_chars mac c hc with h | rfl
  · exact Or.inl h
  · decide

theorem isPrinted_printAtMac (atmac : AtMac) : ∀ c ∈ printAtMac P atmac, IsPrinted c := by
  have hmac := isPrinted_etherNtoa P atmac.mac
  rw [printAtMac]
  split_ifs with hnone
  · rw [List.forall_mem_cons, List.forall_mem_append]
    refine ⟨by decide, ?_, hmac⟩
    cases hs : atmac.status with
    | amNONE => exact absurd hs hnone
    | amNEGATIVE => exact List.forall_mem_singleton.2 (by decide)
    | amPOSITIVE => exact List.forall_mem_nil _
  · exact List.forall_mem_nil _

theorem isPrinted_auxText : ∀ c ∈ auxText P data, IsPrinted c := by
  rw [auxText]
  split
  · exact List.forall_mem_nil _
  · exact List.all_iff_forall_prop.1 rfl
  · exact isPrinted_etherNtoa P data.mac

theorem isPrinted_ruleLine : ∀ c ∈ (ruleLine P data mask noIp).text, IsPrinted c := by
  rw [ruleLine_text]
  simp only [List.forall_mem_append]
  refine ⟨?_, ?_, isPrinted_printAtMac P data.atmac, ?_, isPrinted_auxText P data⟩
  · rw [bang]
    split_ifs
    · exact List.forall_mem_singleton.2 (by decide)
    · exact List.forall_mem_nil _
  · split_ifs
    · exact List.forall_mem_singleton.2 (by decide)
    · rw [List.forall_mem_append]
      refine ⟨isPrinted_inetNtoa P data.ip, ?_⟩
      cases mask with
      | none => exact List.forall_mem_nil _
      | some m => exact List.forall_mem_cons.2 ⟨by decide, isPrinted_inetNtoa P m⟩
  · exact List.all_iff_forall_prop.1 rfl

/-- Every line is far shorter than the buffer of the reader. -/
theorem length_ruleLine : (ruleLine P data mask noIp).text.length < bufferSize := by
  have hbang : ∀ b, (bang b).length ≤ 1 := by
    rintro (_ | _)
    · exact Nat.zero_le 1
    · exact le_rfl
  have hhost : (if noIp then ['*']
      else P.inetNtoa data.ip ++ mask.elim [] fun m => '/' :: P.inetNtoa m).length ≤ 31 := by
    have hip := P.inetNtoa_length
    split_ifs
    · exact Nat.le_add_left 1 30
    · rw [List.length_append]
      cases mask with
      | none => exact (hip data.ip).trans (Nat.le_add_right 15 16)
      | some m =>
        rw [Option.elim_some, List.length_cons]
        exact Nat.add_le_add (hip data.ip) (Nat.succ_le_succ (hip m))
  have hatmac : (printAtMac P data.atmac).length ≤ 19 := by
    have hmac := P.etherNtoa_length data.atmac.mac
    rw [printAtMac]
    split_ifs
    · cases data.atmac.status <;>
        simp only [List.length_cons, List.length_append, List.length_nil] <;> omega
    · exact Nat.zero_le 19
  have haux : (auxText P data).length ≤ 17 := by
    rw [auxText]
    split
    · exact Nat.zero_le 17
    · decide
    · exact P.etherNtoa_length data.mac
  have hmark := hbang (data.status = .blIGNORE)
  -- the bounds of the parts add up to less than the buffer
  rw [ruleLine_text]
  simp only [List.length_append, List.length_cons, List.length_nil, bufferSize]
  omega

end Line

/-! ## Entries of lines -/

/-- What the parser guarantees for its entries: without an `@` part there is no MAC in its place,
and an entry for all addresses has one and is not ignored. -/
structure BaseData.FromLine (b : BaseData) (noIp : Bool) : Prop where
  atmac_none : b.atmac.status = .amNONE → b.atmac.mac = .zero
  star : noIp = true → b.status ≠ .blIGNORE ∧ b.atmac.status = .amPOSITIVE

def IPData.FromLine (d : IPData) : Prop := d.v.FromLine false

def NetData.FromLine (n : NetData) : Prop := n.v.FromLine n.noIp

/-- The entry of an outcome, if there is one, has the guarantees. -/
def Outcome.FromLine : Outcome → Prop
  | .ip d => d.FromLine
  | .net n => n.FromLine
  | _ => True

section FromLine

variable {env : ParseEnv} {e : Entry}

/-- Without an `@` part the entry has that of the local variables. -/
theorem atPart_atmac {st : Parsed} {hasAtmac : Bool} {text : List Char}
    (he : (atPart env st hasAtmac text).1.entry = some e)
    (hnone : e.base.atmac.status = .amNONE) : e.base.atmac = st.atmac := by
  rcases atPart_cases env st hasAtmac text with ⟨text', heq⟩ | heq
  · rw [heq] at he
    exact absurd hnone (atMacPart_entry he).2
  · rw [heq] at he
    exact (withoutAtMac_entry he).2

theorem maskPart_atmac {st : Parsed} {text : List Char}
    (he : (maskPart env st text).1.entry = some e)
    (hnone : e.base.atmac.status = .amNONE) : e.base.atmac = st.atmac := by
  rcases maskPart_cases env st text with ⟨err, heq⟩ | ⟨mask, text', heq⟩
  · rw [heq] at he
    cases he
  · rw [heq] at he
    rw [atPart_atmac he hnone]

theorem hostPart_atmac {ignore : Bool} {text : List Char}
    (he : (hostPart env ignore text).1.entry = some e)
    (hnone : e.base.atmac.status = .amNONE) : e.base.atmac.mac = .zero := by
  change (afterHost env ignore (cutWord endsHost text).word _ _).1.entry = some e at he
  obtain ⟨addr, -, -, -, heq⟩ := afterHost_entry he
  rw [heq] at he
  split_ifs at he
  · exact congrArg AtMac.mac (maskPart_atmac he hnone)
  · exact congrArg AtMac.mac (atPart_atmac he hnone)

theorem parseLine_atmac {text : List Char} (he : (parseLine env text).1.entry = some e)
    (hnone : e.base.atmac.status = .amNONE) : e.base.atmac.mac = .zero := by
  rcases parseLine_cases env text with heq | ⟨ignore, text', heq⟩
  · rw [heq] at he
    cases he
  · rw [heq] at he
    exact hostPart_atmac he hnone

theorem parseLine_fromLine (env : ParseEnv) (text : List Char) :
    (parseLine env text).1.FromLine := by
  cases ho : (parseLine env text).1 with
  | nothing => trivial
  | error err => trivial
  | ip d =>
    have he : (parseLine env text).1.entry = some (.ip d) := congrArg Outcome.entry ho
    exact ⟨parseLine_atmac he, fun h => absurd h Bool.false_ne_true⟩
  | net n =>
    have he : (parseLine env text).1.entry = some (.net n) := congrArg Outcome.entry ho
    exact ⟨parseLine_atmac he,
      fun hn => ⟨(parseLine_star ho hn).not_ignore, (parseLine_star ho hn).positive⟩⟩

end FromLine

/-! ## Reading the lines -/

/-- What is read from the line of an entry: a MAC that is not set is lost. -/
def BaseData.reread (env : ParseEnv) (b : BaseData) : BaseData :=
  { b with mac := if b.status = .blSET then b.mac else env.uninit }

def IPData.reread (env : ParseEnv) (d : IPData) : IPData := ⟨d.v.reread env⟩

def NetData.reread (env : ParseEnv) (n : NetData) : NetData := { n with v := n.v.reread env }

section Reading

variable {env : ParseEnv} (P : PrintLib env.lib) {data : BaseData} (mask : Option InAddr)
  {noIp : Bool}

theorem ruleLine_not_excluded (h : data.FromLine noIp) :
    ¬ (ruleLine P data mask noIp).Excluded := by
  have hstar : (ruleLine P data mask noIp).host = .star → noIp = true := by
    intro hhost
    cases noIp with
    | true => rfl
    | false => cases hhost
  rintro (⟨hignore, hhost⟩ | ⟨hignore, hmac⟩ | ⟨hhost, hmask | hnone | ⟨a, ha, hnegative⟩⟩)
  · exact (h.star (hstar hhost)).1 (of_decide_eq_true hignore)
  · exact hmac (if_pos (of_decide_eq_true hignore))
  · exact hmask (if_pos (hstar hhost))
  · have hpos := (h.star (hstar hhost)).2
    simp [ruleLine, atText, hpos] at hnone
  · have hpos := (h.star (hstar hhost)).2
    have ha' : atText P data.atmac = some a := ha
    rw [atText, hpos, if_neg (by decide), Option.some.injEq] at ha'
    subst ha'
    cases hnegative

/-- The entry is made with the status and the MAC. -/
theorem ruleLine_result {st : Parsed} (hst : st.ignore = decide (data.status = .blIGNORE)) :
    (ruleLine P data mask noIp).result st =
      st.entry data.status (data.reread env).mac data.decided := by
  obtain ⟨ip, status, mac, atmac, decided⟩ := data
  cases status with
  | blUNDECIDED => exact absurd rfl decided
  | blIGNORE =>
    change st.default env = _
    rw [Parsed.default, hst, if_pos (decide_eq_true rfl)]
    rfl
  | blSET => exact RuleLine.assigned_mac hst (macText P mac)
  | blRAND => exact RuleLine.assigned_random hst

theorem ruleLine_atmacWritten (h : data.FromLine noIp) :
    (ruleLine P data mask noIp).atmacWritten = data.atmac := by
  have hnone := h.atmac_none
  obtain ⟨ip, status, mac, ⟨atMac, atStatus⟩, decided⟩ := data
  cases atStatus with
  | amNONE =>
    obtain rfl : atMac = .zero := hnone rfl
    rfl
  | amNEGATIVE => rfl
  | amPOSITIVE => rfl

theorem parseLine_ruleLine (h : data.FromLine noIp) :
    (parseLine env (ruleLine P data mask noIp).text).1 =
      (ruleLine P data mask noIp).parsed.entry data.status (data.reread env).mac data.decided := by
  rw [(ruleLine P data mask noIp).parseLine_eq_result (ruleLine_not_excluded P mask h)]
  exact ruleLine_result P mask rfl

/-- The line of an entry with an address is read as the entry. -/
theorem parseLine_ip {d : IPData} (h : d.FromLine) :
    (parseLine env (ruleLine P d.v none false).text).1 = .ip (d.reread env) := by
  rw [parseLine_ruleLine P none h, RuleLine.parsed, ruleLine_atmacWritten P none h]
  rfl

/-- The line of a net is read as the net. -/
theorem parseLine_net {n : NetData} (h : n.FromLine) :
    (parseLine env (ruleLine P n.v (some n.mask) n.noIp).text).1 = .net (n.reread env) := by
  rw [parseLine_ruleLine P _ h, RuleLine.parsed, ruleLine_atmacWritten P _ h]
  obtain ⟨⟨ip, status, mac, atmac, decided⟩, mask, noIp, masked, mask_of_noIp⟩ := n
  cases noIp with
  | true =>
    -- the address and the mask of an entry for all addresses are zero
    obtain rfl : mask = 0 := mask_of_noIp rfl
    obtain rfl : ip = 0 := masked.symm.trans BitVec.and_zero
    rfl
  | false =>
    have hmasked : ip &&& mask = ip := masked
    simp [ruleLine, Parsed.entry, maskText, NetData.reread, BaseData.reread, hmasked]

end Reading

end IpSentinel.BlackList

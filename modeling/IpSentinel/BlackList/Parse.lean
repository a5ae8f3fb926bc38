import IpSentinel.BlackList.Entry
import IpSentinel.Foundation.InPlace
import IpSentinel.Foundation.Strtol
import IpSentinel.Net.AddressLib

/-!
# Parsing a line

`BlackList_parseLine` and the functions it calls. The text is what stands between `start` and
`end`; the byte at `end` is NUL. The function cuts words out of the text by writing NULs into it,
so each part of it is a stage that reads the text from its `start` to the end and answers the
outcome and the text as it leaves it. Instead of appending to a list the function answers the new
entry.
-/

set_option autoImplicit false

namespace IpSentinel.BlackList

open Foundation

/-- The values of `args_->mac` after `Arguments_fixupOptions`. -/
inductive DefaultMac where
  | mcRANDOM
  | mcFIXED (ether : EtherAddr)
  deriving DecidableEq, Repr

/-- What the parser reads besides the line: the platform and the library, the address of the
interface, the option `--mac`, and what the local variable `parse_mac` holds before it is set. -/
structure ParseEnv where
  plat : Platform
  lib : AddressLib
  localMac : EtherAddr
  mac : DefaultMac
  uninit : EtherAddr

/-- The errors of `BlackList_parseLine`. -/
inductive ParseError where
  | invalidIp (text : List Char)
  | ignoreStar
  | maskStar
  | invalidNetmask (text : List Char)
  | netmaskRange
  | starWithoutMac
  | invalidMac (text : List Char)
  | negativeStar
  | ignoreWithMac
  deriving DecidableEq

/-- The message of an error, behind the line number. The last byte of an invalid netmask is shown
after it has been overwritten. -/
def ParseError.message : ParseError → List Char
  | .invalidIp text => ": invalid ip '".toList ++ text ++ "'\n".toList
  | .ignoreStar => ": can not use '!' with '*'".toList
  | .maskStar => ": can not ignore both the IP but specify a netmask\n".toList
  | .invalidNetmask text =>
    ": invalid netmask '".toList ++ text ++ "', first bad char was '".toList ++ [nul] ++
      "'\n".toList
  | .netmaskRange => ": invalid netmask (too small or large)\n".toList
  | .starWithoutMac => ": can not use '*' without an @mac specification\n".toList
  | .invalidMac text => ": invalid MAC '".toList ++ text ++ "'\n".toList
  | .negativeStar => ": can not use '!mac' with '*'".toList
  | .ignoreWithMac => ": can not both ignore an IP and assign a MAC\n".toList

/-- What a call of `BlackList_parseLine` does: nothing for a blank line or a comment, a message,
or one new entry. -/
inductive Outcome where
  | nothing
  | error (e : ParseError)
  | ip (d : IPData)
  | net (n : NetData)
  deriving DecidableEq

/-- The local variables of `BlackList_parseLine` that the entry is made of; the host `*` is
`none`, and so is a mask that is not given. -/
structure Parsed where
  ignore : Bool
  host : Option InAddr
  mask : Option InAddr
  atmac : AtMac

/-! ## The functions of the source -/

def isBlank (c : Char) : Bool := c = ' ' ∨ c = '\t'

theorem forall_mem_nil_blank : ∀ c ∈ ([] : List Char), isBlank c := List.forall_mem_nil _

/-- The characters that end the host. -/
def endsHost (c : Char) : Bool := c = '/' ∨ c = '@' ∨ isBlank c

/-- The characters that end a netmask. -/
def endsMask (c : Char) : Bool := isBlank c ∨ c = '@'

/-- The characters that end the MAC. -/
def endsMac (c : Char) : Bool := c = '#' ∨ isBlank c

/-- Stop parsing with the outcome `o`. -/
def done (o : Outcome) : Stage Outcome := fun text => (o, text)

/-- The end of `BlackList_parseLine`: the entry with a decided status. -/
def Parsed.entry (st : Parsed) (status : BlackListStatus) (mac : EtherAddr)
    (h : status ≠ .blUNDECIDED) : Outcome :=
  match st.host, st.mask with
  -- `*` is stored as the net 0.0.0.0/0 with `no_ip` set
  | none, _ =>
    .net
      { v := { ip := 0, status, mac, atmac := st.atmac, decided := h }
        mask := 0
        noIp := true
        masked := by simp
        mask_of_noIp := zero_mask true }
  | some ip, some mask =>
    .net
      { v := { ip := ip &&& mask, status, mac, atmac := st.atmac, decided := h }
        mask
        noIp := false
        masked := by rw [BitVec.and_assoc, BitVec.and_self]
        mask_of_noIp := mask_of_not_noIp mask }
  | some ip, none => .ip { v := { ip, status, mac, atmac := st.atmac, decided := h } }

/-- The entry of a line without a MAC, with the answer of `BlackList_setDefaultMac`. -/
def Parsed.default (env : ParseEnv) (st : Parsed) : Outcome :=
  if st.ignore then st.entry .blIGNORE env.uninit blIGNORE_decided
  else
    match env.mac with
    | .mcRANDOM => st.entry .blRAND env.uninit blRAND_decided
    | .mcFIXED ether => st.entry .blSET ether blSET_decided

/-- The entry of a line with the MAC `word`. -/
def Parsed.assigned (env : ParseEnv) (st : Parsed) (word : List Char) : Outcome :=
  if st.ignore then .error .ignoreWithMac
  else if word = "RANDOM".toList then st.entry .blRAND env.uninit blRAND_decided
  else
    match env.lib.xetherAton env.localMac word with
    | none => .error (.invalidMac word)
    | some mac => st.entry .blSET mac blSET_decided

/-- "The MAC". -/
def macPart (env : ParseEnv) (st : Parsed) : Stage Outcome :=
  skipThen isBlank <| ifEnd (st.default env) <| ifHead '#' (done (st.default env)) <|
    withWord endsMac fun word _ => done (st.assigned env word)

/-- What follows the text of the MAC behind the `@`. -/
def afterAtMac (env : ParseEnv) (st : Parsed) (status : AtMacStatus) (word : List Char) :
    Stage Outcome :=
  match env.lib.xetherAton env.localMac word with
  | none => done (.error (.invalidMac word))
  | some mac =>
    if st.host = none ∧ status = .amNEGATIVE then done (.error .negativeStar)
    else macPart env { st with atmac := ⟨mac, status⟩ }

/-- The MAC behind the `@`, or behind `@!`. -/
def atMac (env : ParseEnv) (st : Parsed) (status : AtMacStatus) : Stage Outcome :=
  withWord isBlank fun word _ => afterAtMac env st status word

/-- What follows the `@`. -/
def atMacPart (env : ParseEnv) (st : Parsed) : Stage Outcome :=
  ifHead '!' (atMac env st .amNEGATIVE) (atMac env st .amPOSITIVE)

/-- What follows when there is no `@`. -/
def withoutAtMac (env : ParseEnv) (st : Parsed) : Stage Outcome :=
  if st.host = none then done (.error .starWithoutMac) else macPart env st

/-- "The @-mac -part". -/
def atPart (env : ParseEnv) (st : Parsed) (hasAtmac : Bool) : Stage Outcome :=
  if hasAtmac then atMacPart env st else ifHead '@' (atMacPart env st) (withoutAtMac env st)

/-- The mask with `val` leading one bits. -/
def prefixMask (val : Nat) : InAddr :=
  let mask := BitVec.allOnes 32
  let mask := if val < 32 then (mask <<< (32 - val - 1)) <<< 1 else mask
  ntohl mask

/-- Whether the first character of a text, if there is one, has a property. -/
instance decidableExistsFirst {p : Char → Prop} [DecidablePred p] (first : Option Char) :
    Decidable (∃ c ∈ first, p c) := Option.decidableExistsMem first

/-- `BlackList_parseNetMask` and what follows it. The source also compares the pointer `*start` with
NUL, which never holds. -/
def maskPart (env : ParseEnv) (st : Parsed) : Stage Outcome := fun text =>
  let (val, used) := strtol env.plat 0 text
  let behind := text.drop used
  let number := text.take used
  -- the text ends at `end` or at a NUL a former pass has written
  if behind = [] ∨ (∃ c ∈ behind.head?, c = nul ∨ endsMask c) then
    if val < 0 ∨ val > 32 then (.error .netmaskRange, text)
    else
      let r := atPart env { st with mask := some (prefixMask val.toNat) } false behind
      (r.1, number ++ r.2)
  else
    -- a dotted mask, or none; the character behind it is put back when it is valid
    let w := cutWord endsMask behind
    match env.lib.inetAton (number ++ w.word) with
    | none => (.error (.invalidNetmask (number ++ w.word)), number ++ w.rejoin w.rest)
    | some mask =>
      let r := atPart env { st with mask := some mask } false (behind.drop w.word.length)
      (r.1, number ++ w.word ++ r.2)

/-- The local variables behind the host. -/
def Parsed.start (ignore : Bool) (host : Option InAddr) : Parsed :=
  { ignore, host, mask := none, atmac := ⟨.zero, .amNONE⟩ }

/-- What follows the text of the host and the separator behind it. -/
def afterHost (env : ParseEnv) (ignore : Bool) (word : List Char) (sep : Option Char) :
    Stage Outcome :=
  if word = ['*'] then
    if ignore then done (.error .ignoreStar)
    else if sep = some '/' then done (.error .maskStar)
    else atPart env (.start ignore none) (sep = some '@')
  else
    match env.lib.inetAton word with
    | none => done (.error (.invalidIp word))
    | some ip =>
      if sep = some '/' then maskPart env (.start ignore (some ip))
      else atPart env (.start ignore (some ip)) (sep = some '@')

/-- "The host or @-mac -part". -/
def hostPart (env : ParseEnv) (ignore : Bool) : Stage Outcome :=
  withWord endsHost (afterHost env ignore)

/-- `BlackList_parseLine`. -/
def parseLine (env : ParseEnv) : Stage Outcome :=
  skipThen isBlank <| ifEnd .nothing <| ifHead '#' (done .nothing) <|
    ifHead '!' (hostPart env true) (hostPart env false)

/-! ## Entries -/

/-- An entry of one of the lists. -/
inductive Entry where
  | ip (d : IPData)
  | net (n : NetData)
  deriving DecidableEq

/-- The entry an outcome adds. -/
def Outcome.entry : Outcome → Option Entry
  | .ip d => some (.ip d)
  | .net n => some (.net n)
  | _ => none

/-- The entries the outcomes of some calls append to `ip_list`. -/
def addedIps (outcomes : List Outcome) : List IPData :=
  (outcomes.filterMap Outcome.entry).filterMap fun
    | .ip d => some d
    | .net _ => none

/-- The entries the outcomes of some calls append to `net_list`. -/
def addedNets (outcomes : List Outcome) : List NetData :=
  (outcomes.filterMap Outcome.entry).filterMap fun
    | .ip _ => none
    | .net n => some n

def Entry.base : Entry → BaseData
  | .ip d => d.v
  | .net n => n.v

def Entry.isNet : Entry → Bool
  | .ip _ => false
  | .net _ => true

theorem filterMap_entry_congr {outcomes outcomes' : List Outcome}
    (h : outcomes.map Outcome.entry = outcomes'.map Outcome.entry) :
    outcomes.filterMap Outcome.entry = outcomes'.filterMap Outcome.entry := by
  have hid : ∀ l : List Outcome, l.filterMap Outcome.entry = (l.map Outcome.entry).filterMap id :=
    fun l => by rw [List.filterMap_map]; rfl
  rw [hid, hid, h]

/-- The same entries in the same order append the same to both lists. -/
theorem added_congr {outcomes outcomes' : List Outcome}
    (h : outcomes.map Outcome.entry = outcomes'.map Outcome.entry) :
    addedIps outcomes = addedIps outcomes' ∧ addedNets outcomes = addedNets outcomes' := by
  rw [addedIps, addedIps, addedNets, addedNets, filterMap_entry_congr h]
  exact ⟨rfl, rfl⟩

theorem mem_addedIps {outcomes : List Outcome} {d : IPData} :
    d ∈ addedIps outcomes ↔ .ip d ∈ outcomes := by
  simp only [addedIps, List.mem_filterMap]
  constructor
  · rintro ⟨e, ⟨o, ho, he⟩, hd⟩
    cases o <;> cases he
    · cases hd
      exact ho
    · cases hd
  · intro h
    exact ⟨.ip d, ⟨.ip d, h, rfl⟩, rfl⟩

theorem mem_addedNets {outcomes : List Outcome} {n : NetData} :
    n ∈ addedNets outcomes ↔ .net n ∈ outcomes := by
  simp only [addedNets, List.mem_filterMap]
  constructor
  · rintro ⟨e, ⟨o, ho, he⟩, hn⟩
    cases o <;> cases he
    · cases hn
    · cases hn
      exact ho
  · intro h
    exact ⟨.net n, ⟨.net n, h, rfl⟩, rfl⟩

theorem addedIps_append (outcomes outcomes' : List Outcome) :
    addedIps (outcomes ++ outcomes') = addedIps outcomes ++ addedIps outcomes' := by
  simp only [addedIps, List.filterMap_append]

theorem addedNets_append (outcomes outcomes' : List Outcome) :
    addedNets (outcomes ++ outcomes') = addedNets outcomes ++ addedNets outcomes' := by
  simp only [addedNets, List.filterMap_append]

theorem added_map_ip (ips : List IPData) :
    addedIps (ips.map .ip) = ips ∧ addedNets (ips.map .ip) = [] := by
  simp [addedIps, addedNets, List.filterMap_map, Function.comp_def, Outcome.entry]

theorem added_map_net (nets : List NetData) :
    addedIps (nets.map .net) = [] ∧ addedNets (nets.map .net) = nets := by
  simp [addedIps, addedNets, List.filterMap_map, Function.comp_def, Outcome.entry]

/-- Nothing is appended exactly when there are no entries. -/
theorem added_eq_nil_iff {outcomes : List Outcome} :
    addedIps outcomes = [] ∧ addedNets outcomes = [] ↔ ∀ o ∈ outcomes, o.entry = none := by
  simp only [addedIps, addedNets, List.filterMap_eq_nil_iff, List.mem_filterMap]
  constructor
  · rintro ⟨hips, hnets⟩ o ho
    cases he : o.entry with
    | none => rfl
    | some e =>
      cases e with
      | ip d => cases hips (.ip d) ⟨o, ho, he⟩
      | net n => cases hnets (.net n) ⟨o, ho, he⟩
  · intro h
    constructor <;> rintro e ⟨o, ho, he⟩ <;> rw [h o ho] at he <;> cases he

end IpSentinel.BlackList

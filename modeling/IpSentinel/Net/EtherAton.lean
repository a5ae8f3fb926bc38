import IpSentinel.Foundation.Strtol
import IpSentinel.Net.AddressLib

/-!
# The program's own `ether_aton_r`

A C library without `ether_aton_r` gets the one of `ether.c`. It shifts each character into the
octet of its group, and a character that is no hexadecimal digit counts as -1. `etherAton_eq_iff`
says for which texts it answers as six groups of hexadecimal digits are to be read. It meets what
the parser relies on (`ownAddressLib`).
-/

set_option autoImplicit false

namespace IpSentinel

open Foundation

/-! ## The function of the source -/

/-- The value of a character: -1 for one that is no hexadecimal digit. -/
def charVal (c : Char) : Int :=
  match hexVal c with
  | some v => v
  | none => -1

/-- Shift a character into an octet, unless a digit is lost. -/
def shiftIn (octet : UInt8) (c : Char) : Option UInt8 :=
  if octet ≥ 16 then none else some (UInt8.ofInt ((octet <<< 4).toNat + charVal c))

/-- The loop of `ether_aton_r`, at a position and with the address so far. -/
def etherLoop : List Char → Nat → Vector UInt8 6 → Option EtherAddr
  | [], pos, octet => if pos = 5 then some ⟨octet⟩ else none
  | c :: text, pos, octet =>
    if h : pos < 6 then
      if c = ':' then etherLoop text (pos + 1) octet
      else
        match shiftIn (octet.get ⟨pos, h⟩) c with
        | none => none
        | some val => etherLoop text pos (octet.set pos val)
    else none

/-- `ether_aton_r` of `ether.c`. The text is what stands in front of the NUL. -/
def etherAton (text : List Char) : Option EtherAddr := etherLoop text 0 (Vector.replicate 6 0)

/-! ## Six groups -/

/-- The number of hexadecimal digits behind a number. -/
def hexFrom (n : Nat) (group : List Char) : Nat :=
  group.foldl (fun n c => 16 * n + (hexVal c).getD 0) n

/-- The number of a group of hexadecimal digits. -/
def hexNumber (group : List Char) : Nat := hexFrom 0 group

/-- The octet of a group: one or more hexadecimal digits with a value below 256. -/
def groupOctet (group : List Char) : Option UInt8 :=
  if group ≠ [] ∧ group.all (fun c => (hexVal c).isSome) ∧ hexNumber group < 256 then
    some (UInt8.ofNat (hexNumber group))
  else none

/-- The address that a text stands for: six groups between single colons. -/
def writtenAddress (text : List Char) : Option EtherAddr :=
  ((text.splitOn ':').mapM groupOctet).bind addressOf

/-! ## The groups of the loop -/

/-- What the loop makes of a group, from an octet on. -/
def readGroup (octet : UInt8) (group : List Char) : Option UInt8 := group.foldlM shiftIn octet

/-- What the loop makes of the groups of a text, from an octet on. -/
def readGroups : UInt8 → List Char → Option (List UInt8)
  | octet, [] => some [octet]
  | octet, c :: text =>
    if c = ':' then (readGroups 0 text).map (octet :: ·)
    else (shiftIn octet c).bind fun octet => readGroups octet text

/-- The groups are those between the colons. -/
theorem readGroups_eq (octet : UInt8) {text group : List Char} {groups : List (List Char)}
    (h : text.splitOn ':' = group :: groups) :
    readGroups octet text =
      (readGroup octet group).bind fun first =>
        (groups.mapM (readGroup 0)).map (first :: ·) := by
  induction text generalizing octet group groups with
  | nil =>
    obtain ⟨rfl, rfl⟩ := List.cons.inj h
    rfl
  | cons c text ih =>
    obtain ⟨group', groups', hrest⟩ := List.exists_cons_of_ne_nil (List.splitOn_ne_nil ':' text)
    rw [List.splitOn_cons_eq_if_modifyHead, hrest] at h
    by_cases hc : c = ':'
    · -- a colon ends the first group
      subst hc
      rw [if_pos (beq_self_eq_true ':')] at h
      obtain ⟨rfl, rfl⟩ := List.cons.inj h
      rw [readGroups, if_pos rfl, ih 0 hrest, List.mapM_cons]
      cases readGroup 0 group' with
      | none => rfl
      | some first =>
        cases groups'.mapM (readGroup 0) with
        | none => rfl
        | some rest => rfl
    · -- any other character belongs to it
      rw [if_neg (by simp [hc]), List.modifyHead_cons] at h
      obtain ⟨rfl, rfl⟩ := List.cons.inj h
      rw [readGroups, if_neg hc, readGroup, List.foldlM_cons]
      cases shiftIn octet c with
      | none => rfl
      | some octet' => exact ih octet' hrest

theorem readGroups_ne_nil {octet : UInt8} {text : List Char} {l : List UInt8}
    (h : readGroups octet text = some l) : l ≠ [] := by
  induction text generalizing octet l with
  | nil =>
    cases h
    exact List.cons_ne_nil _ _
  | cons c text ih =>
    rw [readGroups] at h
    split_ifs at h
    · obtain ⟨rest, -, rfl⟩ := Option.map_eq_some_iff.1 h
      exact List.cons_ne_nil _ _
    · obtain ⟨octet', -, hrest⟩ := Option.bind_eq_some_iff.1 h
      exact ih hrest

theorem addressOf_toList (octet : Vector UInt8 6) : addressOf octet.toList = some ⟨octet⟩ := by
  obtain ⟨⟨l⟩, h⟩ := octet
  match l, h with
  | [_, _, _, _, _, _], _ => rfl

theorem addressOf_eq_some {l : List UInt8} {mac : EtherAddr} (h : addressOf l = some mac) :
    l = mac.octet.toList := by
  rw [addressOf.eq_def] at h
  split at h
  · cases h
    rfl
  · cases h

theorem addressOf_some {l : List UInt8} {mac : EtherAddr} (h : addressOf l = some mac) :
    l.length = 6 := by
  rw [addressOf_eq_some h]
  exact Vector.length_toList

theorem addressOf_ne_none (l : List UInt8) : addressOf l ≠ none ↔ l.length = 6 := by
  constructor
  · intro h
    obtain ⟨mac, hmac⟩ := Option.ne_none_iff_exists'.1 h
    exact addressOf_some hmac
  · intro h
    match l, h with
    | [_, _, _, _, _, _], _ => exact Option.some_ne_none _

/-- The element behind a list in front of it. -/
theorem get_of_toList {l rest : List UInt8} {cur : UInt8} {octet : Vector UInt8 6}
    (h : octet.toList = l ++ cur :: rest) (hl : l.length < 6) : octet.get ⟨l.length, hl⟩ = cur := by
  have hsome : octet.toList[l.length]? = some cur := by
    rw [h, List.getElem?_append_right le_rfl, Nat.sub_self]
    rfl
  rw [List.getElem?_eq_getElem (by rwa [Vector.length_toList]), Option.some.injEq,
    Vector.getElem_toList] at hsome
  exact hsome

/-- Six octets and the groups of a text are no address, since every text has a group. -/
theorem bind_addressOf_of_six {l : List UInt8} (hl : l.length = 6) (cur : UInt8)
    (text : List Char) : ((readGroups cur text).bind fun rest => addressOf (l ++ rest)) = none := by
  cases hrest : readGroups cur text with
  | none => rfl
  | some rest =>
    rw [Option.bind_some, ← not_ne_iff, addressOf_ne_none, List.length_append]
    have hpos := List.length_pos_iff.2 (readGroups_ne_nil hrest)
    omega

/-- The loop answers the octets of its groups when there are six of them. -/
theorem etherLoop_eq (text : List Char) {l : List UInt8} {cur : UInt8} {octet : Vector UInt8 6}
    (h : octet.toList = l ++ cur :: List.replicate (5 - l.length) 0) (hl : l.length < 6) :
    etherLoop text l.length octet =
      (readGroups cur text).bind fun rest => addressOf (l ++ rest) := by
  -- on the text: `l` holds the finished groups and `cur` the octet of the current one
  induction text generalizing l cur octet with
  | nil =>
    rw [etherLoop, readGroups, Option.bind_some]
    split_ifs with hpos
    · rw [hpos, Nat.sub_self, List.replicate_zero] at h
      rw [← h, addressOf_toList]
    · have hnone : addressOf (l ++ [cur]) = none := by
        rw [← not_ne_iff, addressOf_ne_none, List.length_append, List.length_singleton]
        omega
      exact hnone.symm
  | cons c text ih =>
    rw [etherLoop, dif_pos hl, readGroups]
    have hlen : (l ++ [cur]).length = l.length + 1 := by
      rw [List.length_append, List.length_singleton]
    split_ifs with hc
    · -- the next group
      rw [Option.bind_map]
      have happend : ((fun rest => addressOf (l ++ rest)) ∘ fun rest => cur :: rest) =
          fun rest => addressOf (l ++ [cur] ++ rest) := by
        funext rest
        rw [Function.comp_apply, List.append_assoc, List.singleton_append]
      rw [happend]
      by_cases hlast : l.length + 1 < 6
      · have hnext : octet.toList =
            (l ++ [cur]) ++ 0 :: List.replicate (5 - (l ++ [cur]).length) 0 := by
          rw [h, hlen, ← List.replicate_succ, List.append_assoc, List.singleton_append]
          congr 3
          omega
        rw [← hlen, ih hnext (hlen ▸ hlast)]
      · -- a sixth colon
        have hend : etherLoop text (l.length + 1) octet = none := by
          cases text with
          | nil => exact if_neg (by omega)
          | cons c' text => exact dif_neg hlast
        rw [hend, bind_addressOf_of_six (by omega)]
    · -- a digit is shifted into the current octet
      rw [get_of_toList h hl]
      cases hshift : shiftIn cur c with
      | none => rfl
      | some cur' =>
        dsimp only
        rw [Option.bind_some]
        apply ih _ hl
        rw [Vector.toList_set, h, List.set_append_right _ _ le_rfl, Nat.sub_self,
          List.set_cons_zero]

/-- `ether_aton_r` answers what it makes of the groups, when there are six of them. -/
theorem etherAton_eq (text : List Char) :
    etherAton text = ((text.splitOn ':').mapM (readGroup 0)).bind addressOf := by
  have h : (Vector.replicate 6 (0 : UInt8)).toList =
      [] ++ 0 :: List.replicate (5 - ([] : List UInt8).length) 0 := rfl
  obtain ⟨group, groups, hgroups⟩ := List.exists_cons_of_ne_nil (List.splitOn_ne_nil ':' text)
  have hloop := etherLoop_eq text h (by decide)
  rw [List.length_nil, readGroups_eq 0 hgroups] at hloop
  rw [etherAton, hloop, hgroups, List.mapM_cons]
  cases readGroup 0 group with
  | none => rfl
  | some first =>
    cases groups.mapM (readGroup 0) with
    | none => rfl
    | some rest => rfl

/-! ## One group -/

/-- A group without leading zeros that fits into an octet: at most one character, a digit and a
character, or a 1, a foreign character and another one. -/
def FitsOctet : List Char → Prop
  | [] => True
  | [_] => True
  | [c, _] => (hexVal c).isSome
  | [c, d, _] => c = '1' ∧ hexVal d = none
  | _ => False

/-- The group fits into an octet without its leading zeros. -/
def IsShort (group : List Char) : Prop := FitsOctet (group.dropWhile (· = '0'))

/-- The group has no characters, or a foreign one. -/
def IsMalformed (group : List Char) : Prop := group = [] ∨ ∃ c ∈ group, hexVal c = none

/-- The values of the hexadecimal digits; only decimal digits are below 10. -/
theorem hexVal_cases {c : Char} {v : Nat} (h : hexVal c = some v) :
    v < 16 ∧ (v < 10 → c.toNat = 48 + v) := by
  have hzero : '0'.toNat = 48 := rfl
  have ha : 'a'.toNat = 97 := rfl
  have hA : 'A'.toNat = 65 := rfl
  have hf : 'f'.toNat = 102 := rfl
  have hF : 'F'.toNat = 70 := rfl
  rw [hexVal, hzero, ha, hA, hf, hF] at h
  split_ifs at h with hdigit hlower hupper
  · have hrange := toNat_of_isDigit hdigit
    cases h
    omega
  · cases h
    omega
  · cases h
    omega

theorem hexVal_eq_one {c : Char} {v : Nat} (h : hexVal c = some v) : v = 1 ↔ c = '1' := by
  constructor
  · rintro rfl
    exact Char.toNat_inj.1 ((hexVal_cases h).2 (by decide))
  · rintro rfl
    cases h
    rfl

theorem le_hexFrom (n : Nat) (group : List Char) : n ≤ hexFrom n group := by
  induction group generalizing n with
  | nil => exact le_rfl
  | cons c group ih =>
    have hle := ih (16 * n + (hexVal c).getD 0)
    rw [hexFrom] at hle ⊢
    rw [List.foldl_cons]
    omega

theorem shiftIn_of_lt {octet : UInt8} (c : Char) (h : octet.toNat < 16) :
    ∃ next, shiftIn octet c = some next ∧
      (next.toNat : Int) = (16 * octet.toNat + charVal c) % 256 := by
  have hshift : (octet <<< 4).toNat = 16 * octet.toNat := by
    rw [UInt8.toNat_shiftLeft, Nat.shiftLeft_eq]
    change octet.toNat * 2 ^ 4 % 2 ^ 8 = 16 * octet.toNat
    omega
  refine ⟨_, if_neg ?_, ?_⟩
  · rw [ge_iff_le, UInt8.le_iff_toNat_le]
    exact not_le.2 h
  · rw [hshift, UInt8.ofInt, UInt8.toNat_ofNat']
    push_cast
    omega

theorem shiftIn_of_ge {octet : UInt8} (c : Char) (h : 16 ≤ octet.toNat) :
    shiftIn octet c = none := by
  apply if_pos
  rw [ge_iff_le, UInt8.le_iff_toNat_le]
  exact h

theorem readGroup_cons (octet : UInt8) (c : Char) (group : List Char) :
    readGroup octet (c :: group) = (shiftIn octet c).bind fun next => readGroup next group :=
  List.foldlM_cons

theorem readGroup_dropWhile (group : List Char) :
    readGroup 0 (group.dropWhile (· = '0')) = readGroup 0 group := by
  induction group with
  | nil => rfl
  | cons c group ih =>
    by_cases hc : c = '0'
    · subst hc
      rw [List.dropWhile_cons_of_pos rfl, ih]
      rfl
    · rw [List.dropWhile_cons_of_neg (by simp [hc])]

theorem charVal_foreign {c : Char} (h : hexVal c = none) : charVal c = -1 := by rw [charVal, h]

theorem charVal_hex {c : Char} {v : Nat} (h : hexVal c = some v) : charVal c = v := by
  rw [charVal, h]

theorem charVal_range (c : Char) : -1 ≤ charVal c ∧ charVal c < 16 := by
  cases h : hexVal c with
  | none =>
    rw [charVal_foreign h]
    decide
  | some v =>
    rw [charVal_hex h]
    have hlt := (hexVal_cases h).1
    omega

theorem readGroup_of_ge {octet : UInt8} (h : 16 ≤ octet.toNat) (c : Char) (group : List Char) :
    readGroup octet (c :: group) = none := by
  rw [readGroup_cons, shiftIn_of_ge c h]
  rfl

/-- The first character of a group is stored, a foreign one as 255. -/
theorem readGroup_first (c : Char) (group : List Char) :
    ∃ octet : UInt8, (octet.toNat : Int) = charVal c % 256 ∧
      readGroup 0 (c :: group) = readGroup octet group := by
  have hroom : (0 : UInt8).toNat < 16 := by decide
  obtain ⟨octet, hshift, hoctet⟩ := shiftIn_of_lt c hroom
  refine ⟨octet, ?_, ?_⟩
  · rw [hoctet]
    exact congrArg (· % 256) (zero_add _)
  · rw [readGroup_cons, hshift, Option.bind_some]

/-- Behind a foreign first character there is no room for another one. -/
theorem readGroup_foreign {c : Char} (h : hexVal c = none) (d : Char) (group : List Char) :
    readGroup 0 (c :: d :: group) = none := by
  obtain ⟨octet, hoctet, hread⟩ := readGroup_first c (d :: group)
  rw [charVal_foreign h] at hoctet
  rw [hread]
  apply readGroup_of_ge
  omega

/-- Behind a digit other than 0 there is room for one character. -/
theorem readGroup_second {c d : Char} {v : Nat} (hv : hexVal c = some v) (hpos : 0 < v)
    (group : List Char) :
    ∃ octet : UInt8, (octet.toNat : Int) = 16 * v + charVal d ∧
      readGroup 0 (c :: d :: group) = readGroup octet group := by
  obtain ⟨first, hfirst, hread⟩ := readGroup_first c (d :: group)
  rw [charVal_hex hv] at hfirst
  have hlt := (hexVal_cases hv).1
  have hrange := charVal_range d
  obtain ⟨octet, hshift, hoctet⟩ := shiftIn_of_lt d (show first.toNat < 16 by omega)
  refine ⟨octet, by omega, ?_⟩
  rw [hread, readGroup_cons, hshift, Option.bind_some]

/-- Only behind a 1 and a foreign character there is room for a third one. -/
theorem readGroup_third {c d e : Char} {v : Nat} (hv : hexVal c = some v) (hpos : 0 < v)
    (group : List Char) :
    readGroup 0 (c :: d :: e :: group) ≠ none ↔ v = 1 ∧ hexVal d = none ∧ group = [] := by
  obtain ⟨second, hsecond, hread⟩ := readGroup_second (d := d) hv hpos (e :: group)
  rw [hread]
  by_cases hroom : v = 1 ∧ hexVal d = none
  · -- a digit 1 and a foreign character leave room for one more character
    obtain ⟨rfl, hd⟩ := hroom
    rw [charVal_foreign hd] at hsecond
    obtain ⟨third, hshift, hthird⟩ := shiftIn_of_lt e (show second.toNat < 16 by omega)
    have hrange := charVal_range e
    rw [readGroup_cons, hshift, Option.bind_some]
    cases group with
    | nil => exact iff_of_true (Option.some_ne_none third) ⟨rfl, hd, rfl⟩
    | cons f group =>
      rw [readGroup_of_ge (by omega)]
      exact iff_of_false (not_not.2 rfl) fun h => List.cons_ne_nil f group h.2.2
  · -- the octet is at least 16, and the loop gives up
    have hfull : 16 ≤ second.toNat := by
      cases hd : hexVal d with
      | none =>
        rw [charVal_foreign hd] at hsecond
        have hne : v ≠ 1 := fun h => hroom ⟨h, hd⟩
        omega
      | some w =>
        rw [charVal_hex hd] at hsecond
        omega
    rw [readGroup_of_ge hfull]
    exact iff_of_false (not_not.2 rfl) fun h => hroom ⟨h.1, h.2.1⟩

/-- What the loop makes of a group without leading zeros. -/
theorem readGroup_ne_none {group : List Char} (h : ∀ c ∈ group.head?, c ≠ '0') :
    readGroup 0 group ≠ none ↔ FitsOctet group := by
  -- only the digit 0 has the value 0
  have hpos : ∀ c v, group.head? = some c → hexVal c = some v → 0 < v := by
    intro c v hc hv
    by_contra hzero
    apply h c hc
    have hval := (hexVal_cases hv).2 (by omega)
    rw [Nat.eq_zero_of_not_pos hzero] at hval
    exact Char.toNat_inj.1 hval
  match group with
  | [] => exact iff_of_true (Option.some_ne_none 0) trivial
  | [c] =>
    obtain ⟨octet, -, hread⟩ := readGroup_first c []
    rw [hread]
    exact iff_of_true (Option.some_ne_none octet) trivial
  | [c, d] =>
    cases hc : hexVal c with
    | none =>
      rw [readGroup_foreign hc]
      exact iff_of_false (not_not.2 rfl) (by simp [FitsOctet, hc])
    | some v =>
      obtain ⟨octet, -, hread⟩ := readGroup_second (d := d) hc (hpos c v rfl hc) []
      rw [hread]
      exact iff_of_true (Option.some_ne_none octet) (by simp [FitsOctet, hc])
  | c :: d :: e :: group =>
    cases hc : hexVal c with
    | none =>
      have hne : c ≠ '1' := by
        rintro rfl
        cases hc
      rw [readGroup_foreign hc]
      cases group with
      | nil => exact iff_of_false (not_not.2 rfl) fun h => hne h.1
      | cons f group => exact iff_of_false (not_not.2 rfl) id
    | some v =>
      rw [readGroup_third hc (hpos c v rfl hc), hexVal_eq_one hc]
      cases group with
      | nil => exact ⟨fun h => ⟨h.1, h.2.1⟩, fun h => ⟨h.1, h.2, rfl⟩⟩
      | cons f group => exact iff_of_false (fun h => List.cons_ne_nil f group h.2.2) id

/-- Which groups the loop reads. -/
theorem readGroup_ne_none_iff (group : List Char) : readGroup 0 group ≠ none ↔ IsShort group := by
  rw [← readGroup_dropWhile, IsShort]
  apply readGroup_ne_none
  intro c hc hzero
  have hnot := List.head?_dropWhile_not (fun c => decide (c = '0')) group
  rw [Option.mem_def.1 hc] at hnot
  simp [hzero] at hnot

/-- A group of hexadecimal digits is read as its number. -/
theorem readGroup_hex (octet : UInt8) {group : List Char}
    (hhex : ∀ c ∈ group, (hexVal c).isSome) :
    readGroup octet group =
      if hexFrom octet.toNat group < 256 then some (UInt8.ofNat (hexFrom octet.toNat group))
      else none := by
  induction group generalizing octet with
  | nil =>
    rw [hexFrom, List.foldl_nil, if_pos octet.toNat_lt, UInt8.ofNat_toNat]
    rfl
  | cons c group ih =>
    obtain ⟨hc, hhex⟩ := List.forall_mem_cons.1 hhex
    obtain ⟨v, hv⟩ := Option.isSome_iff_exists.1 hc
    have hnumber : hexFrom octet.toNat (c :: group) = hexFrom (16 * octet.toNat + v) group := by
      rw [hexFrom, List.foldl_cons, hv, Option.getD_some, hexFrom]
    rw [hnumber]
    rcases Nat.lt_or_ge octet.toNat 16 with hlt | hge
    · obtain ⟨next, hshift, hnext⟩ := shiftIn_of_lt c hlt
      have hv16 := (hexVal_cases hv).1
      rw [charVal_hex hv] at hnext
      have hval : next.toNat = 16 * octet.toNat + v := by omega
      rw [readGroup_cons, hshift, Option.bind_some, ih next hhex, hval]
    · have hle := le_hexFrom (16 * octet.toNat + v) group
      rw [readGroup_of_ge hge, if_neg (by omega)]

/-- A group that is not malformed is read as it is to be read. -/
theorem readGroup_eq_groupOctet {group : List Char} (h : ¬ IsMalformed group) :
    readGroup 0 group = groupOctet group := by
  obtain ⟨hne, hforeign⟩ := not_or.1 h
  have hhex : ∀ c ∈ group, (hexVal c).isSome := by
    intro c hc
    by_contra hnone
    exact hforeign ⟨c, hc, Option.not_isSome_iff_eq_none.1 hnone⟩
  have hread := readGroup_hex 0 hhex
  rw [hread, groupOctet]
  change (if hexNumber group < 256 then _ else none) = _
  split_ifs with hlt hall hall
  · rfl
  · exact absurd ⟨hne, List.all_eq_true.2 hhex, hlt⟩ hall
  · exact absurd hall.2.2 hlt
  · rfl

theorem groupOctet_of_malformed {group : List Char} (h : IsMalformed group) :
    groupOctet group = none := by
  rw [groupOctet, if_neg]
  rintro ⟨hne, hhex, -⟩
  rcases h with hnil | ⟨c, hc, hnone⟩
  · exact hne hnil
  · have hsome := List.all_eq_true.1 hhex c hc
    rw [hnone] at hsome
    cases hsome

/-! ## The whole text -/

theorem mapM_ne_none {α β : Type} {f : α → Option β} {l : List α} :
    l.mapM f ≠ none ↔ ∀ x ∈ l, f x ≠ none := by
  induction l with
  | nil => simp
  | cons x l ih =>
    rw [List.mapM_cons, List.forall_mem_cons, ← ih]
    cases f x with
    | none => simp
    | some y =>
      cases l.mapM f with
      | none => simp
      | some ys => simp

theorem mapM_congr_of_mem {α β : Type} {f g : α → Option β} {l : List α}
    (h : ∀ x ∈ l, f x = g x) : l.mapM f = l.mapM g := by
  induction l with
  | nil => rfl
  | cons x l ih =>
    obtain ⟨hx, hl⟩ := List.forall_mem_cons.1 h
    rw [List.mapM_cons, List.mapM_cons, hx, ih hl]

/-- The texts that `ether_aton_r` accepts. -/
theorem etherAton_ne_none (text : List Char) :
    etherAton text ≠ none ↔ text.count ':' = 5 ∧ ∀ group ∈ text.splitOn ':', IsShort group := by
  have hgroups : (text.splitOn ':').mapM (readGroup 0) ≠ none ↔
      ∀ group ∈ text.splitOn ':', IsShort group := by
    rw [mapM_ne_none]
    exact forall₂_congr fun group _ => readGroup_ne_none_iff group
  rw [← hgroups, etherAton_eq]
  cases hbytes : (text.splitOn ':').mapM (readGroup 0) with
  | none => simp
  | some bytes =>
    have hlen := (mapM_some hbytes).1
    rw [length_splitOn] at hlen
    rw [Option.bind_some, addressOf_ne_none, ← hlen]
    simp

/-- For which texts `ether_aton_r` answers the address that is written there, or rejects a text that
is none: all but those with five colons whose groups are read without a loss, while one of them is
empty or has a foreign character. -/
theorem etherAton_eq_iff (text : List Char) :
    etherAton text = writtenAddress text ↔
      ¬ (text.count ':' = 5 ∧ (∀ group ∈ text.splitOn ':', IsShort group) ∧
        ∃ group ∈ text.splitOn ':', IsMalformed group) := by
  by_cases hmal : ∃ group ∈ text.splitOn ':', IsMalformed group
  · have hwritten : writtenAddress text = none := by
      have hnone : (text.splitOn ':').mapM groupOctet = none := by
        by_contra hsome
        obtain ⟨group, hgroup, hbad⟩ := hmal
        exact mapM_ne_none.1 hsome group hgroup (groupOctet_of_malformed hbad)
      rw [writtenAddress, hnone]
      rfl
    rw [hwritten, and_iff_left hmal, ← etherAton_ne_none, not_not]
  · have hsame : (text.splitOn ':').mapM (readGroup 0) = (text.splitOn ':').mapM groupOctet :=
      mapM_congr_of_mem fun group hgroup =>
        readGroup_eq_groupOctet fun hbad => hmal ⟨group, hgroup, hbad⟩
    rw [etherAton_eq, hsame, writtenAddress]
    exact iff_of_true rfl fun h => hmal h.2.2

/-- Empty groups are accepted, and foreign characters. -/
theorem malformed_accepted :
    etherAton ":::::".toList = some ⟨#v[0, 0, 0, 0, 0, 0]⟩ ∧
      writtenAddress ":::::".toList = none ∧
      etherAton "x:1:2:3:4:5".toList = some ⟨#v[255, 1, 2, 3, 4, 5]⟩ ∧
      writtenAddress "x:1:2:3:4:5".toList = none := by
  exact ⟨rfl, rfl, rfl, rfl⟩

/-! ## The library of the parser -/

/-- An `@` in front of an accepted text is not skipped: it makes the first octet 255, or leaves no
room for the first group. -/
theorem etherAton_at {text : List Char} {mac : EtherAddr} (h : etherAton text = some mac) :
    etherAton ('@' :: text) ≠ some mac := by
  intro hat
  obtain ⟨group, groups, hgroups⟩ := List.exists_cons_of_ne_nil (List.splitOn_ne_nil ':' text)
  have hgroups' : ('@' :: text).splitOn ':' = ('@' :: group) :: groups := by
    rw [List.splitOn_cons_eq_if_modifyHead, if_neg (by decide), hgroups, List.modifyHead_cons]
  rw [etherAton_eq, hgroups] at h
  rw [etherAton_eq, hgroups'] at hat
  obtain ⟨bytes, hbytes, haddr⟩ := Option.bind_eq_some_iff.1 h
  obtain ⟨bytes', hbytes', haddr'⟩ := Option.bind_eq_some_iff.1 hat
  obtain ⟨octet, hoctet, hread⟩ := readGroup_first '@' group
  have hfull : octet.toNat = 255 := by
    rw [charVal_foreign (by decide)] at hoctet
    omega
  rw [List.mapM_cons, hread] at hbytes'
  cases group with
  | nil =>
    -- the first octets differ
    rw [List.mapM_cons] at hbytes
    cases hrest : groups.mapM (readGroup 0) with
    | none =>
      rw [hrest] at hbytes
      cases hbytes
    | some rest =>
      rw [hrest] at hbytes hbytes'
      cases hbytes
      cases hbytes'
      have hsame := (addressOf_eq_some haddr).trans (addressOf_eq_some haddr').symm
      obtain ⟨hfirst, -⟩ := List.cons.inj hsame
      rw [← hfirst] at hfull
      exact absurd hfull (by decide)
  | cons c group =>
    rw [readGroup_of_ge (by omega)] at hbytes'
    cases hbytes'

/-- A library without `ether_aton_r`, with that of the program. -/
def ownAddressLib (inetAton : List Char → Option InAddr) : AddressLib where
  inetAton := inetAton
  etherAton := etherAton
  etherAton_colons text mac h := by
    have haccepted := (etherAton_ne_none text).1 (h ▸ Option.some_ne_none mac)
    exact haccepted.1.ge
  etherAton_at _ _ h := etherAton_at h

end IpSentinel

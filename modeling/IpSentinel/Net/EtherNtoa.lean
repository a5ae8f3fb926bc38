import IpSentinel.Foundation.Memory
import IpSentinel.Net.EtherAton

/-!
# The program's own `ether_ntoa`

A C library without `ether_ntoa` gets the one of `ether.c`. It writes into a static buffer of 18
characters, two digits and a colon for each octet, and replaces the last colon by NUL.
`etherNtoa_eq` says that it stays inside and what it writes, and `etherAton` reads the address back.
-/

set_option autoImplicit false

namespace IpSentinel

open Foundation

/-! ## The function of the source -/

/-- `allow_leading_zeros`. -/
def allowLeadingZeros : Bool := true

/-- `DEC2HEX`. -/
def dec2hex : Vector Char 16 :=
  #v['0', '1', '2', '3', '4', '5', '6', '7', '8', '9', 'a', 'b', 'c', 'd', 'e', 'f']

/-- The upper four bits of an octet. -/
def highNibble (octet : UInt8) : Fin 16 := ⟨octet.toNat >>> 4, by
  have h := octet.toNat_lt
  rw [Nat.shiftRight_eq_div_pow]
  omega⟩

/-- The lower four bits of an octet. -/
def lowNibble (octet : UInt8) : Fin 16 :=
  ⟨octet.toNat &&& 0x0F, Nat.and_lt_two_pow (n := 4) _ (by decide)⟩

/-- `*buf_ptr++ = c`. -/
def putChar (buffer : Block Char × Nat) (c : Char) : Option (Block Char × Nat) :=
  (buffer.1.store buffer.2 [c]).map fun mem => (mem, buffer.2 + 1)

/-- One round of `ether_ntoa`. -/
def putOctet (buffer : Block Char × Nat) (octet : UInt8) : Option (Block Char × Nat) := do
  let c := dec2hex.get (highNibble octet)
  let buffer ← if allowLeadingZeros ∨ c ≠ '0' then putChar buffer c else some buffer
  let buffer ← putChar buffer (dec2hex.get (lowNibble octet))
  putChar buffer ':'

/-- `ether_ntoa`, with the content of its static buffer at the call. The answer is the buffer
behind it; there is none where the function writes outside of it or its assertion fails. -/
def etherNtoa (buffer : Vector Char 18) (addr : EtherAddr) : Option (Block Char) := do
  let (mem, bufPtr) ← addr.octet.toList.foldlM putOctet (buffer.toList, 0)
  if bufPtr = 18 then mem.store (bufPtr - 1) [nul] else none

/-! ## What it writes -/

/-- The two digits of an octet. -/
def hexPair (octet : UInt8) : List Char :=
  [dec2hex.get (highNibble octet), dec2hex.get (lowNibble octet)]

/-- The text of an address: six pairs of digits between colons. -/
def etherText (addr : EtherAddr) : List Char := [':'].intercalate (addr.octet.toList.map hexPair)

theorem putChar_append (front : List Char) (a c : Char) (back : List Char) :
    putChar (front ++ a :: back, front.length) c =
      some (front ++ [c] ++ back, (front ++ [c]).length) := by
  have hroom : [c].length ≤ (a :: back).length := Nat.le_add_left 1 back.length
  rw [putChar, Block.store_append front hroom, List.length_append, List.append_assoc]
  rfl

/-- An octet takes three characters. -/
theorem putOctet_append (front : List Char) (a b c : Char) (back : List Char) (octet : UInt8) :
    putOctet (front ++ a :: b :: c :: back, front.length) octet =
      some (front ++ (hexPair octet ++ [':']) ++ back,
        (front ++ (hexPair octet ++ [':'])).length) := by
  have hfront : front ++ (hexPair octet ++ [':']) =
      front ++ [dec2hex.get (highNibble octet)] ++ [dec2hex.get (lowNibble octet)] ++ [':'] := by
    simp only [hexPair, List.append_assoc, List.cons_append, List.nil_append]
  have hzeros : allowLeadingZeros = true := rfl
  rw [putOctet, if_pos (Or.inl hzeros), putChar_append, Option.bind_eq_bind, Option.bind_some]
  dsimp only
  rw [putChar_append, Option.bind_some, putChar_append, ← hfront]

/-- The loop fills three characters for each octet. -/
theorem putOctets_append (octets : List UInt8) (front mid back : List Char)
    (h : mid.length = 3 * octets.length) :
    octets.foldlM putOctet (front ++ mid ++ back, front.length) =
      some (front ++ octets.flatMap (fun o => hexPair o ++ [':']) ++ back,
        (front ++ octets.flatMap fun o => hexPair o ++ [':']).length) := by
  induction octets generalizing front mid with
  | nil =>
    obtain rfl := List.length_eq_zero_iff.1 h
    rw [List.flatMap_nil, List.append_nil]
    rfl
  | cons octet octets ih =>
    match mid, h with
    | a :: b :: c :: mid, h =>
      have hmid : mid.length = 3 * octets.length := by
        simp only [List.length_cons] at h
        omega
      rw [List.append_assoc, List.cons_append, List.cons_append, List.cons_append,
        List.foldlM_cons, putOctet_append, Option.bind_eq_bind, Option.bind_some,
        ← List.append_assoc, ih _ mid hmid, List.flatMap_cons]
      simp only [List.append_assoc]

/-- Each pair with a colon behind it, or between the pairs and one at the end. -/
theorem flatMap_append_sep {α β : Type} (f : α → List β) (sep : β) {l : List α} (h : l ≠ []) :
    l.flatMap (fun x => f x ++ [sep]) = [sep].intercalate (l.map f) ++ [sep] := by
  induction l with
  | nil => exact absurd rfl h
  | cons x l ih =>
    cases l with
    | nil => simp
    | cons y l =>
      rw [List.flatMap_cons, ih (List.cons_ne_nil y l), List.map_cons, List.map_cons]
      simp

theorem octets_ne_nil (addr : EtherAddr) : addr.octet.toList ≠ [] := by
  apply List.ne_nil_of_length_pos
  rw [Vector.length_toList]
  exact Nat.succ_pos 5

theorem etherText_colon (addr : EtherAddr) :
    addr.octet.toList.flatMap (fun o => hexPair o ++ [':']) = etherText addr ++ [':'] := by
  exact flatMap_append_sep hexPair ':' (octets_ne_nil addr)

theorem length_etherText (addr : EtherAddr) : (etherText addr).length = 17 := by
  have hlen := congrArg List.length (etherText_colon addr)
  have hpair : ∀ o : UInt8, (hexPair o ++ [':']).length = 3 := fun _ => rfl
  simp only [List.length_flatMap, hpair, List.map_const', List.sum_replicate, Vector.length_toList,
    List.length_append, List.length_singleton, smul_eq_mul] at hlen
  omega

/-- The function stays inside the buffer, its assertion holds, and the buffer then contains the
text and the NUL. -/
theorem etherNtoa_eq (buffer : Vector Char 18) (addr : EtherAddr) :
    etherNtoa buffer addr = some (etherText addr ++ [nul]) := by
  have hbuffer : buffer.toList.length = 3 * addr.octet.toList.length := by
    rw [Vector.length_toList, Vector.length_toList]
  have hlen : (etherText addr ++ [':']).length = 18 := by
    rw [List.length_append, length_etherText, List.length_singleton]
  have hloop := putOctets_append addr.octet.toList [] buffer.toList [] hbuffer
  rw [List.nil_append, List.append_nil, List.nil_append, List.append_nil, etherText_colon, hlen,
    List.length_nil] at hloop
  have hroom : [nul].length ≤ [':'].length := le_rfl
  have hstore := Block.store_append (etherText addr) hroom
  rw [length_etherText] at hstore
  rw [etherNtoa, hloop, Option.bind_eq_bind, Option.bind_some]
  exact hstore

/-! ## Reading it back -/

theorem hexVal_dec2hex (n : Fin 16) : hexVal (dec2hex.get n) = some n.val := by
  revert n
  decide

/-- The digits of an octet are read as its number. -/
theorem readGroup_hexPair (octet : UInt8) : readGroup 0 (hexPair octet) = some octet := by
  have hhex : ∀ c ∈ hexPair octet, (hexVal c).isSome := by
    rw [hexPair, List.forall_mem_cons, List.forall_mem_singleton, hexVal_dec2hex, hexVal_dec2hex]
    exact ⟨rfl, rfl⟩
  have hnumber : hexFrom 0 (hexPair octet) = octet.toNat := by
    have hhigh : (highNibble octet).val = octet.toNat / 2 ^ 4 := Nat.shiftRight_eq_div_pow ..
    have hlow : (lowNibble octet).val = octet.toNat % 2 ^ 4 :=
      Nat.and_two_pow_sub_one_eq_mod octet.toNat 4
    rw [hexFrom, hexPair, List.foldl_cons, List.foldl_cons, List.foldl_nil, hexVal_dec2hex,
      hexVal_dec2hex, Option.getD_some, Option.getD_some, hhigh, hlow]
    omega
  have hread := readGroup_hex 0 hhex
  rw [UInt8.toNat_zero, hnumber, if_pos octet.toNat_lt, UInt8.ofNat_toNat] at hread
  exact hread

theorem dec2hex_ne {c : Char} (h : hexVal c = none) (n : Fin 16) : dec2hex.get n ≠ c := by
  rintro rfl
  rw [hexVal_dec2hex] at h
  cases h

theorem not_mem_hexPair {c : Char} (h : hexVal c = none) (octet : UInt8) : c ∉ hexPair octet := by
  rw [hexPair, List.mem_cons, List.mem_singleton, not_or]
  exact ⟨(dec2hex_ne h _).symm, (dec2hex_ne h _).symm⟩

/-- The text consists of hexadecimal digits and colons. -/
theorem not_mem_etherText {c : Char} (h : hexVal c = none) (hc : c ≠ ':') (addr : EtherAddr) :
    c ∉ etherText addr := by
  intro hmem
  have hcolon := List.mem_append_left [':'] hmem
  rw [← etherText_colon, List.mem_flatMap] at hcolon
  obtain ⟨octet, -, hpair⟩ := hcolon
  rcases List.mem_append.1 hpair with hpair | hsep
  · exact not_mem_hexPair h octet hpair
  · exact hc (List.mem_singleton.1 hsep)

theorem splitOn_etherText (addr : EtherAddr) :
    (etherText addr).splitOn ':' = addr.octet.toList.map hexPair := by
  apply List.splitOn_intercalate
  · intro group hgroup
    obtain ⟨octet, -, rfl⟩ := List.mem_map.1 hgroup
    exact not_mem_hexPair (by decide) octet
  · intro hnil
    exact octets_ne_nil addr (List.map_eq_nil_iff.1 hnil)

theorem etherAton_etherText (addr : EtherAddr) : etherAton (etherText addr) = some addr := by
  have hread : (addr.octet.toList.map hexPair).mapM (readGroup 0) = some addr.octet.toList :=
    mapM_map_eq_some fun octet _ => readGroup_hexPair octet
  rw [etherAton_eq, splitOn_etherText, hread, Option.bind_some, addressOf_toList]

/-- The string of `ether_ntoa` has 17 characters in front of the NUL, and `ether_aton_r` reads the
address back from it. -/
theorem etherNtoa_roundtrip (buffer : Vector Char 18) (addr : EtherAddr) :
    ∃ text, etherNtoa buffer addr = some (text ++ [nul]) ∧ text.length = 17 ∧ nul ∉ text ∧
      etherAton text = some addr :=
  ⟨etherText addr, etherNtoa_eq buffer addr, length_etherText addr,
    not_mem_etherText (by decide) (by decide) addr, etherAton_etherText addr⟩

end IpSentinel

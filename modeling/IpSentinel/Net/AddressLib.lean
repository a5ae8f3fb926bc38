import IpSentinel.Net.Addresses

/-!
# Addresses in texts

`inet_aton` and `ether_aton_r` of the C library are a parameter of the program, `AddressLib`, with
what it relies on: a text that `ether_aton_r` accepts has the colons of six groups, and an `@` in
front of an accepted text is not skipped. `referenceAddressLib` reads dotted quads and six groups
of one or two hexadecimal digits.
-/

set_option autoImplicit false

namespace IpSentinel

/-- The functions of the C library that read addresses. -/
structure AddressLib where
  inetAton : List Char → Option InAddr
  etherAton : List Char → Option EtherAddr
  etherAton_colons : ∀ text mac, etherAton text = some mac → 5 ≤ text.count ':'
  etherAton_at : ∀ text mac, etherAton text = some mac → etherAton ('@' :: text) ≠ some mac

namespace AddressLib

/-- `xether_aton_r` of `util.c`, with the address of the interface. -/
def xetherAton (lib : AddressLib) (localMac : EtherAddr) (text : List Char) :
    Option EtherAddr :=
  if text = "LOCAL".toList then some localMac
  else if text = "802.1d".toList then lib.etherAton "01:80:C2:00:00:00".toList
  else if text = "802.3x".toList then lib.etherAton "01:80:C2:00:00:01".toList
  else lib.etherAton text

/-- The names of `xether_aton_r` have no colons, and so are no texts of addresses. -/
theorem xetherAton_of_colon (lib : AddressLib) (localMac : EtherAddr) {text : List Char}
    (h : ':' ∈ text) : lib.xetherAton localMac text = lib.etherAton text := by
  rw [xetherAton, if_neg, if_neg, if_neg]
  · rintro rfl
    exact absurd h (by decide)
  · rintro rfl
    exact absurd h (by decide)
  · rintro rfl
    exact absurd h (by decide)

theorem mem_colon (lib : AddressLib) {text : List Char} {mac : EtherAddr}
    (h : lib.etherAton text = some mac) : ':' ∈ text := by
  have hcolons := lib.etherAton_colons text mac h
  exact List.count_pos_iff.1 (by omega)

/-- An `@` in front of a text with an address makes it another address, or none. -/
theorem xetherAton_at (lib : AddressLib) (localMac : EtherAddr) {text : List Char}
    {mac : EtherAddr} (h : lib.xetherAton localMac text = some mac) :
    lib.xetherAton localMac ('@' :: text) ≠ some mac := by
  intro hat
  have hword : lib.etherAton ('@' :: text) = some mac := by
    simpa [xetherAton] using hat
  -- a text with a colon is no name
  have hcolon : ':' ∈ text := by
    rcases List.mem_cons.1 (lib.mem_colon hword) with hc | hc
    · exact absurd hc (by decide)
    · exact hc
  rw [lib.xetherAton_of_colon localMac hcolon] at h
  exact lib.etherAton_at _ _ h hword

end AddressLib

/-! ## A reference library -/

/-- The value of a hexadecimal digit. -/
def hexVal (c : Char) : Option Nat :=
  if c.isDigit then some (c.toNat - '0'.toNat)
  else if 'a'.toNat ≤ c.toNat ∧ c.toNat ≤ 'f'.toNat then some (c.toNat - 'a'.toNat + 10)
  else if 'A'.toNat ≤ c.toNat ∧ c.toNat ≤ 'F'.toNat then some (c.toNat - 'A'.toNat + 10)
  else none

/-- A group of one or two hexadecimal digits. -/
def hexGroup : List Char → Option UInt8
  | [a] => (hexVal a).map UInt8.ofNat
  | [a, b] => (hexVal a).bind fun x => (hexVal b).map fun y => UInt8.ofNat (16 * x + y)
  | _ => none

/-- The address with six octets. -/
def addressOf : List UInt8 → Option EtherAddr
  | [a, b, c, d, e, f] => some ⟨#v[a, b, c, d, e, f]⟩
  | _ => none

/-- Six groups between colons. -/
def sixGroups (text : List Char) : Option EtherAddr :=
  match (text.splitOn ':').mapM hexGroup with
  | some [a, b, c, d, e, f] => some ⟨#v[a, b, c, d, e, f]⟩
  | _ => none

/-- A decimal number below 256. -/
def byteGroup (text : List Char) : Option Nat :=
  if text ≠ [] ∧ text.all Char.isDigit then
    let n := text.foldl (fun n c => 10 * n + (c.toNat - '0'.toNat)) 0
    if n < 256 then some n else none
  else none

/-- Four numbers between dots. -/
def dottedQuad (text : List Char) : Option InAddr :=
  match (text.splitOn '.').mapM byteGroup with
  | some [a, b, c, d] => some (ntohl (BitVec.ofNat 32 (((a * 256 + b) * 256 + c) * 256 + d)))
  | _ => none

theorem mapM_some {f : List Char → Option UInt8} {groups : List (List Char)} {bytes : List UInt8}
    (h : groups.mapM f = some bytes) :
    groups.length = bytes.length ∧ ∀ g ∈ groups, f g ≠ none := by
  induction groups generalizing bytes with
  | nil =>
    cases h
    simp
  | cons g groups ih =>
    simp only [List.mapM_cons, Option.bind_eq_bind, Option.bind_eq_some_iff, Option.pure_def,
      Option.some.injEq] at h
    obtain ⟨b, hb, bs, hbs, rfl⟩ := h
    obtain ⟨hlen, hall⟩ := ih hbs
    exact ⟨congrArg (· + 1) hlen, List.forall_mem_cons.2 ⟨by simp [hb], hall⟩⟩

/-- Groups that are read back one by one are read back together. -/
theorem mapM_map_eq_some {α : Type} {f : List Char → Option α} {g : α → List Char} {l : List α}
    (h : ∀ x ∈ l, f (g x) = some x) : (l.map g).mapM f = some l := by
  induction l with
  | nil => rfl
  | cons x l ih =>
    obtain ⟨hx, hl⟩ := List.forall_mem_cons.1 h
    rw [List.map_cons, List.mapM_cons, hx, ih hl]
    rfl

theorem sixGroups_some {text : List Char} {mac : EtherAddr} (h : sixGroups text = some mac) :
    (text.splitOn ':').length = 6 ∧ ∀ g ∈ text.splitOn ':', hexGroup g ≠ none := by
  rw [sixGroups] at h
  split at h
  · next hgroups => exact mapM_some hgroups
  · cases h

theorem length_splitOn (a : Char) (text : List Char) :
    (text.splitOn a).length = text.count a + 1 := by
  induction text with
  | nil => simp
  | cons c text ih =>
    rw [List.splitOn_cons_eq_if_modifyHead, List.count_cons]
    split_ifs <;> simp [ih]

def referenceAddressLib : AddressLib where
  inetAton := dottedQuad
  etherAton := sixGroups
  etherAton_colons text mac h := by
    have hlen := (sixGroups_some h).1
    rw [length_splitOn] at hlen
    omega
  etherAton_at text mac _ hat := by
    obtain ⟨-, hall⟩ := sixGroups_some hat
    rw [List.splitOn_cons_eq_if_modifyHead, if_neg (by decide)] at hall
    obtain ⟨g, groups, hg⟩ := List.exists_cons_of_ne_nil (List.splitOn_ne_nil ':' text)
    rw [hg, List.modifyHead_cons] at hall
    -- the first group starts with the `@`
    apply hall ('@' :: g) List.mem_cons_self
    match g with
    | [] => rfl
    | [_] => rfl
    | _ :: _ :: _ => rfl

end IpSentinel

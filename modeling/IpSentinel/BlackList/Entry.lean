import IpSentinel.Foundation.CompareFunc
import IpSentinel.Foundation.Platform
import IpSentinel.Net.Addresses

/-!
# Entries of the blacklist

The entry types of `blacklist.c` and the functions that compare them. The parameter `testsuite` of
`NetData.sortCompare` says whether the program is built with `ENSC_TESTSUITE`.

`NetData.sortCompare_eq` writes the comparison as a chain of keys; with it the comparison is a
total preorder (`NetData.sortCompare_totalPreorder`) and sorted nets are in order of precedence
(`NetData.precedence_of_sortCompare`).
-/

set_option autoImplicit false

namespace IpSentinel.BlackList

open Foundation

/-- `BlackListStatus`. -/
inductive BlackListStatus where
  | blUNDECIDED
  | blIGNORE
  | blSET
  | blRAND
  deriving DecidableEq, Repr

/-- The number behind the enumerator. -/
def BlackListStatus.value : BlackListStatus → Nat
  | .blUNDECIDED => 0
  | .blIGNORE => 1
  | .blSET => 2
  | .blRAND => 3

theorem blIGNORE_decided : BlackListStatus.blIGNORE ≠ .blUNDECIDED := by decide

theorem blSET_decided : BlackListStatus.blSET ≠ .blUNDECIDED := by decide

theorem blRAND_decided : BlackListStatus.blRAND ≠ .blUNDECIDED := by decide

/-- The `status` of `struct AtMac`. -/
inductive AtMacStatus where
  | amNONE
  | amNEGATIVE
  | amPOSITIVE
  deriving DecidableEq, Repr

/-- The number behind the enumerator. -/
def AtMacStatus.value : AtMacStatus → Nat
  | .amNONE => 0
  | .amNEGATIVE => 1
  | .amPOSITIVE => 2

/-- `struct AtMac`. -/
structure AtMac where
  mac : EtherAddr
  status : AtMacStatus
  deriving DecidableEq, Repr

/-- The bytes of the structure: the address, two bytes of padding, and the status. -/
def AtMac.bytes (atmac : AtMac) : List UInt8 :=
  atmac.mac.octet.toList ++ [0, 0] ++ [UInt8.ofNat atmac.status.value, 0, 0, 0]

/-- `struct BaseData` of an entry in one of the lists, where the status is decided. -/
structure BaseData where
  ip : InAddr
  status : BlackListStatus
  mac : EtherAddr
  atmac : AtMac
  decided : status ≠ .blUNDECIDED
  deriving DecidableEq, Repr

/-- `struct IPData`. -/
structure IPData where
  v : BaseData
  deriving DecidableEq, Repr

/-- `struct NetData`. The address is that of the net, and an entry for all addresses has mask 0. -/
structure NetData where
  v : BaseData
  mask : InAddr
  noIp : Bool
  masked : v.ip &&& mask = v.ip
  mask_of_noIp : noIp = true → mask = 0
  deriving DecidableEq, Repr

theorem zero_masked : (0 : InAddr) &&& 0 = 0 := BitVec.zero_and

theorem zero_mask (noIp : Bool) : noIp = true → (0 : InAddr) = 0 := fun _ => rfl

theorem mask_of_not_noIp (mask : InAddr) : false = true → mask = 0 := nofun

/-! ## Bits of a mask -/

/-- The loop of `getBitCount`, cut off after a number of rounds. -/
def bitCountLoop : Nat → Nat → Nat → Nat
  | 0, _, result => result
  | n + 1, val, result =>
    if val = 0 then result else bitCountLoop n (val >>> 1) (result + (val &&& 1))

/-- `getBitCount`: an `unsigned int` is zero after 32 shifts. -/
def getBitCount (val : BitVec 32) : Nat := bitCountLoop 32 val.toNat 0

/-- The number of bits set in a mask. -/
def maskBits (mask : InAddr) : Nat := (List.range 32).countP mask.getLsbD

theorem bitCountLoop_eq {n val : Nat} (result : Nat) (h : val < 2 ^ n) :
    bitCountLoop n val result = result + (List.range n).countP val.testBit := by
  induction n generalizing val result with
  | zero => rfl
  | succ n ih =>
    simp only [bitCountLoop]
    split_ifs with h0
    · subst h0
      simp
    · -- the lowest bit is counted here, and the bits above it by the induction
      have hhalf : val >>> 1 < 2 ^ n := by
        rw [Nat.shiftRight_one]
        omega
      have hshift : (val >>> 1).testBit = val.testBit ∘ Nat.succ := by
        funext i
        simp [Nat.testBit_succ, Nat.shiftRight_one]
      have hlow : val &&& 1 = if val.testBit 0 then 1 else 0 := by
        rw [Nat.and_one_is_mod, Nat.testBit_zero]
        rcases Nat.mod_two_eq_zero_or_one val with h | h <;> simp [h]
      rw [ih _ hhalf, List.range_succ_eq_map, List.countP_cons, List.countP_map, hshift, hlow]
      omega

theorem getBitCount_eq (mask : InAddr) : getBitCount mask = maskBits mask := by
  rw [getBitCount, bitCountLoop_eq 0 mask.isLt, Nat.zero_add]
  rfl

theorem maskBits_le (mask : InAddr) : maskBits mask ≤ 32 := by
  have h := List.countP_le_length (p := mask.getLsbD) (l := List.range 32)
  rwa [List.length_range] at h

/-! ## Comparison functions -/

namespace IPData

def searchCompare (lhs : InAddr) (rhs : IPData) : Int :=
  if (ntohl lhs).toNat < (ntohl rhs.v.ip).toNat then -1
  else if (ntohl rhs.v.ip).toNat < (ntohl lhs).toNat then 1
  else 0

def sortCompare : CompareFunc IPData := fun lhs rhs => searchCompare lhs.v.ip rhs

def uniqueCompare : CompareFunc IPData := fun lhs rhs =>
  if lhs.v.status ≠ rhs.v.status then 1 else sortCompare lhs rhs

theorem searchCompare_eq_zero {ip : InAddr} {d : IPData} :
    searchCompare ip d = 0 ↔ d.v.ip = ip := by
  simp only [searchCompare]
  constructor
  · intro h
    rw [← ntohl_inj, ← BitVec.toNat_inj]
    split_ifs at h <;> omega
  · rintro rfl
    simp

theorem sortCompare_totalPreorder : TotalPreorder sortCompare :=
  byOrder_totalPreorder fun d : IPData => (ntohl d.v.ip).toNat

end IPData

namespace NetData

def sortCompare (testsuite : Bool) : CompareFunc NetData := fun lhs rhs =>
  let result : Int := -(if lhs.noIp then 1 else 0) + (if rhs.noIp then 1 else 0)
  -- `getBitCount` is unsigned, and the difference is stored into an `int`
  let result :=
    if result = 0 then toInt (-getBitCount lhs.mask + getBitCount rhs.mask) else result
  let result :=
    if result = 0 then -(lhs.v.atmac.status.value : Int) + rhs.v.atmac.status.value else result
  let result :=
    if testsuite then
      if result ≠ 0 then result
      else if (ntohl lhs.mask).toNat < (ntohl rhs.mask).toNat then -1
      else if (ntohl rhs.mask).toNat < (ntohl lhs.mask).toNat then 1
      else if (ntohl lhs.v.ip).toNat < (ntohl rhs.v.ip).toNat then -1
      else if (ntohl rhs.v.ip).toNat < (ntohl lhs.v.ip).toNat then 1
      else (lhs.v.status.value : Int) - rhs.v.status.value
    else result
  if result = 0 then memcmp lhs.v.atmac.bytes rhs.v.atmac.bytes else result

def uniqueCompare (testsuite : Bool) : CompareFunc NetData := fun lhs rhs =>
  if lhs.v.status ≠ rhs.v.status then 1
  else if lhs.v.ip ≠ rhs.v.ip then 1
  else sortCompare testsuite lhs rhs

/-- Entries for all addresses come first. -/
def noIpKey : CompareFunc NetData := byKey fun n => -(if n.noIp then 1 else 0)

/-- Then entries with more bits in the mask. -/
def bitsKey : CompareFunc NetData := byKey fun n => -(maskBits n.mask : Int)

/-- Then `@m` before `@!m` before no `@` part. -/
def atmacKey : CompareFunc NetData := byKey fun n => -(n.v.atmac.status.value : Int)

/-- The documented order of precedence of nets: `*`, then more bits in the mask, then `@m` before
`@!m` before no `@` part. -/
def precedence : CompareFunc NetData := thenBy (thenBy noIpKey bitsKey) atmacKey

/-- What the build for the testsuite compares next. -/
def testsuiteKey : Bool → CompareFunc NetData
  | true =>
    thenBy (byOrder fun n => (ntohl n.mask).toNat)
      (thenBy (byOrder fun n => (ntohl n.v.ip).toNat) (byKey fun n => n.v.status.value))
  | false => byKey fun _ => 0

/-- The bytes of the `@` part come last. -/
def bytesKey : CompareFunc NetData := fun lhs rhs => memcmp lhs.v.atmac.bytes rhs.v.atmac.bytes

theorem atmac_mac_eq_of_bytesKey {lhs rhs : NetData} (h : bytesKey lhs rhs = 0) :
    lhs.v.atmac.mac = rhs.v.atmac.mac := by
  have hbytes := eq_of_memcmp_eq_zero (by simp [AtMac.bytes]) h
  rw [AtMac.bytes, AtMac.bytes, List.append_assoc, List.append_assoc] at hbytes
  have hoctets : lhs.v.atmac.mac.octet = rhs.v.atmac.mac.octet :=
    Vector.toList_inj.1 (List.append_inj hbytes (by simp)).1
  exact congrArg EtherAddr.mk hoctets

theorem testsuiteKey_true (lhs rhs : NetData) :
    testsuiteKey true lhs rhs =
      if (ntohl lhs.mask).toNat < (ntohl rhs.mask).toNat then -1
      else if (ntohl rhs.mask).toNat < (ntohl lhs.mask).toNat then 1
      else if (ntohl lhs.v.ip).toNat < (ntohl rhs.v.ip).toNat then -1
      else if (ntohl rhs.v.ip).toNat < (ntohl lhs.v.ip).toNat then 1
      else (lhs.v.status.value : Int) - rhs.v.status.value := by
  simp only [testsuiteKey, thenBy, byOrder, byKey]
  split_ifs <;> simp_all

theorem sortCompare_eq (testsuite : Bool) :
    sortCompare testsuite =
      thenBy (thenBy precedence (testsuiteKey testsuite)) bytesKey := by
  funext lhs rhs
  have hnoIp : (-(if lhs.noIp then 1 else 0) + (if rhs.noIp then 1 else 0) : Int) =
      noIpKey lhs rhs := by
    simp only [noIpKey, byKey]
    omega
  have hbits : toInt (-getBitCount lhs.mask + getBitCount rhs.mask) = bitsKey lhs rhs := by
    have hl := maskBits_le lhs.mask
    have hr := maskBits_le rhs.mask
    rw [getBitCount_eq, getBitCount_eq, toInt_of_range (by omega) (by omega), bitsKey, byKey]
    omega
  have hatmac : (-(lhs.v.atmac.status.value : Int) + rhs.v.atmac.status.value) =
      atmacKey lhs rhs := by
    simp only [atmacKey, byKey]
    omega
  have hbytes : memcmp lhs.v.atmac.bytes rhs.v.atmac.bytes = bytesKey lhs rhs := rfl
  -- what is left is a case distinction on the answers of the keys, first to last
  simp only [sortCompare, hnoIp, hbits, hatmac, hbytes, ← testsuiteKey_true, thenBy, precedence]
  have hzero : testsuiteKey false lhs rhs = 0 := sub_self 0
  rcases eq_or_ne (noIpKey lhs rhs) 0 with ha | ha
  · rcases eq_or_ne (bitsKey lhs rhs) 0 with hb | hb
    · rcases eq_or_ne (atmacKey lhs rhs) 0 with hc | hc
      · cases testsuite <;> simp [ha, hb, hc, hzero]
      · cases testsuite <;> simp [ha, hb, hc]
    · cases testsuite <;> simp [ha, hb]
  · cases testsuite <;> simp [ha]

theorem sortCompare_totalPreorder (testsuite : Bool) : TotalPreorder (sortCompare testsuite) := by
  -- each key is a total preorder, and `thenBy` keeps that
  have hbytes : TotalPreorder bytesKey :=
    (memcmp_totalPreorderOn 12).comap fun n => by simp [AtMac.bytes]
  have htest : TotalPreorder (testsuiteKey testsuite) := by
    cases testsuite with
    | false => exact byKey_totalPreorder _
    | true =>
      exact thenBy_totalPreorder (byOrder_totalPreorder _)
        (thenBy_totalPreorder (byOrder_totalPreorder _) (byKey_totalPreorder _))
  rw [sortCompare_eq]
  apply thenBy_totalPreorder (thenBy_totalPreorder _ htest) hbytes
  exact thenBy_totalPreorder (thenBy_totalPreorder (byKey_totalPreorder _) (byKey_totalPreorder _))
    (byKey_totalPreorder _)

theorem precedence_of_sortCompare {testsuite : Bool} {lhs rhs : NetData}
    (h : sortCompare testsuite lhs rhs ≤ 0) : precedence lhs rhs ≤ 0 := by
  rw [sortCompare_eq] at h
  exact first_nonpos_of_thenBy (first_nonpos_of_thenBy h)

theorem uniqueCompare_eq_zero {testsuite : Bool} {m n : NetData} :
    uniqueCompare testsuite m n = 0 ↔
      m.v.status = n.v.status ∧ m.v.ip = n.v.ip ∧ sortCompare testsuite m n = 0 := by
  simp only [uniqueCompare]
  split_ifs with hstatus hip
  · simp [hstatus]
  · simp [hip]
  · simp [not_not.1 hstatus, not_not.1 hip]

theorem sortCompare_of_uniqueCompare {testsuite : Bool} {m n : NetData}
    (h : uniqueCompare testsuite m n = 0) : sortCompare testsuite m n = 0 :=
  (uniqueCompare_eq_zero.1 h).2.2

end NetData

/-- The MAC 1:1:1:2:2:2, of a sender that a rule blocks. -/
def blockedMac : EtherAddr := ⟨#v[1, 1, 1, 2, 2, 2]⟩

end IpSentinel.BlackList

import IpSentinel.Parameters
import Mathlib.Tactic

/-!
# Network and link-level addresses

The address types of `netinet/in.h` and `net/ethernet.h`, the tagged MAC of `arguments.h` and the
random MAC of `util.c`. The constants `RANDOM_MAC_BASE` and `RANDOM_MAC_OCTET` are those of
`parameters.h`.
-/

set_option autoImplicit false

namespace IpSentinel

/-- `struct in_addr`, with the number in `s_addr`. -/
abbrev InAddr := BitVec 32

/-- The number with the four bytes of `n` in reverse order. -/
def swapBytes (n : Nat) : Nat :=
  n % 256 * 2 ^ 24 + n / 2 ^ 8 % 256 * 2 ^ 16 + n / 2 ^ 16 % 256 * 2 ^ 8 + n / 2 ^ 24

/-- `ntohl` and `htonl` on a little-endian host. -/
def ntohl (x : BitVec 32) : BitVec 32 := BitVec.ofNat 32 (swapBytes x.toNat)

theorem swapBytes_bytes {a b c d : Nat} (ha : a < 256) (hb : b < 256) (hc : c < 256) :
    swapBytes (a + b * 2 ^ 8 + c * 2 ^ 16 + d * 2 ^ 24) =
      d + c * 2 ^ 8 + b * 2 ^ 16 + a * 2 ^ 24 := by
  simp only [swapBytes]
  omega

theorem ntohl_ntohl (x : BitVec 32) : ntohl (ntohl x) = x := by
  apply BitVec.eq_of_toNat_eq
  obtain ⟨a, b, c, d, ha, hb, hc, hd, hx⟩ : ∃ a b c d, a < 256 ∧ b < 256 ∧ c < 256 ∧ d < 256 ∧
      x.toNat = a + b * 2 ^ 8 + c * 2 ^ 16 + d * 2 ^ 24 := by
    have hlt := x.isLt
    exact ⟨x.toNat % 256, x.toNat / 2 ^ 8 % 256, x.toNat / 2 ^ 16 % 256, x.toNat / 2 ^ 24,
      by omega, by omega, by omega, by omega, by omega⟩
  have hswap : (ntohl x).toNat = d + c * 2 ^ 8 + b * 2 ^ 16 + a * 2 ^ 24 := by
    rw [ntohl, BitVec.toNat_ofNat, hx, swapBytes_bytes ha hb hc]
    omega
  rw [ntohl, BitVec.toNat_ofNat, hswap, swapBytes_bytes hd hc hb, ← hx]
  exact Nat.mod_eq_of_lt x.isLt

theorem ntohl_inj {x y : BitVec 32} : ntohl x = ntohl y ↔ x = y := by
  constructor
  · intro h
    rw [← ntohl_ntohl x, h, ntohl_ntohl]
  · rintro rfl
    rfl

/-- `struct ether_addr`. -/
structure EtherAddr where
  octet : Vector UInt8 6
  deriving DecidableEq, Repr

namespace EtherAddr

/-- `BCAST_MAC`. -/
def bcast : EtherAddr := ⟨Vector.replicate 6 255⟩

/-- The address with all octets zero. -/
def zero : EtherAddr := ⟨Vector.replicate 6 0⟩

end EtherAddr

/-- `RANDOM_MAC_BASE`. -/
def randomMacBase : EtherAddr := ⟨#v[0xde, 0xad, 0xbe, 0xef, 0, 0]⟩

/-- `Util_setRandomMac` when `rand` answers `r` and the clock reads `t`: the octet
`RANDOM_MAC_OCTET` of the base is replaced. -/
def setRandomMac (r : Nat) (t : Int) : EtherAddr :=
  let window : Int := (r % blacklistRandCount : Nat) + t.tdiv blacklistRandPeriod
  ⟨randomMacBase.octet.set 5 (UInt8.ofInt (window.tmod 256))⟩

/-- `struct TaggedMac`: the union holds an address only under the tag `mcFIXED`. -/
inductive TaggedMac where
  | mcRandom
  | mcFixed (ether : EtherAddr)
  | mcLocal
  | mcSame
  deriving DecidableEq, Repr

end IpSentinel

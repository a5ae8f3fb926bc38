import IpSentinel.Foundation.Lines
import IpSentinel.Foundation.Strtol
import IpSentinel.Net.EtherNtoa

/-!
# Texts of addresses

`inet_ntoa` and `ether_ntoa` of the C library are a parameter of what the program prints,
`PrintLib`, with what the reader relies on: the characters they write, the sizes of their static
buffers, and that `inet_aton` and `ether_aton_r` read the addresses back. `ownPrintLib` writes
dotted quads, and MACs as the program's own `ether_ntoa` does.
-/

set_option autoImplicit false

namespace IpSentinel

open Foundation

/-- The functions of the C library that write addresses, with the texts that a library reads
back. -/
structure PrintLib (lib : AddressLib) where
  inetNtoa : InAddr → List Char
  etherNtoa : EtherAddr → List Char
  inetNtoa_chars : ∀ ip, ∀ c ∈ inetNtoa ip, c.isDigit ∨ c = '.'
  inetNtoa_dot : ∀ ip, '.' ∈ inetNtoa ip
  inetNtoa_length : ∀ ip, (inetNtoa ip).length ≤ 15
  etherNtoa_chars : ∀ mac, ∀ c ∈ etherNtoa mac, (hexVal c).isSome ∨ c = ':'
  etherNtoa_length : ∀ mac, (etherNtoa mac).length ≤ 17
  inetAton_inetNtoa : ∀ ip, lib.inetAton (inetNtoa ip) = some ip
  etherAton_etherNtoa : ∀ mac, lib.etherAton (etherNtoa mac) = some mac

theorem hexVal_of_isDigit {c : Char} (h : c.isDigit) : (hexVal c).isSome := by
  rw [hexVal, if_pos h]
  rfl

/-! ## Dotted quads -/

/-- The four bytes of an address, the first one of the text in front. -/
def quad (ip : InAddr) : List Nat :=
  let n := (ntohl ip).toNat
  [n / 256 ^ 3, n / 256 ^ 2 % 256, n / 256 % 256, n % 256]

/-- Four decimal numbers between dots. -/
def quadText (ip : InAddr) : List Char := ['.'].intercalate ((quad ip).map decimal)

theorem quad_lt (ip : InAddr) : ∀ n ∈ quad ip, n < 256 := by
  have hlt := (ntohl ip).isLt
  simp only [quad, List.forall_mem_cons]
  exact ⟨by omega, by omega, by omega, by omega, List.forall_mem_nil _⟩

theorem byteGroup_decimal {n : Nat} (h : n < 256) : byteGroup (decimal n) = some n := by
  have hdigits : (decimal n).all Char.isDigit :=
    List.all_eq_true.2 fun c hc => isDigit_of_mem_decimal hc
  have hvalue : (decimal n).foldl (fun n c => 10 * n + (c.toNat - '0'.toNat)) 0 = n :=
    Nat.ofDigitChars_eq_foldl.symm.trans Nat.ofDigitChars_ten_toDigits
  rw [byteGroup, if_pos ⟨Nat.toDigits_ne_nil, hdigits⟩]
  dsimp only
  rw [hvalue, if_pos h]

theorem dot_not_mem_decimal (n : Nat) : '.' ∉ decimal n :=
  fun h => absurd (isDigit_of_mem_decimal h) (by decide)

theorem splitOn_quadText (ip : InAddr) : (quadText ip).splitOn '.' = (quad ip).map decimal := by
  apply List.splitOn_intercalate
  · intro group hgroup
    obtain ⟨n, -, rfl⟩ := List.mem_map.1 hgroup
    exact dot_not_mem_decimal n
  · exact List.cons_ne_nil _ _

/-- The four bytes are the address. -/
theorem quad_value (ip : InAddr) :
    (((ntohl ip).toNat / 256 ^ 3 * 256 + (ntohl ip).toNat / 256 ^ 2 % 256) * 256 +
      (ntohl ip).toNat / 256 % 256) * 256 + (ntohl ip).toNat % 256 = (ntohl ip).toNat := by
  omega

theorem dottedQuad_quadText (ip : InAddr) : dottedQuad (quadText ip) = some ip := by
  have hread : ((quad ip).map decimal).mapM byteGroup = some (quad ip) :=
    mapM_map_eq_some fun n hn => byteGroup_decimal (quad_lt ip n hn)
  rw [dottedQuad, splitOn_quadText, hread]
  dsimp only [quad]
  rw [quad_value, BitVec.ofNat_toNat, BitVec.setWidth_eq, ntohl_ntohl]

theorem mem_quadText {ip : InAddr} {c : Char} (h : c ∈ quadText ip) : c.isDigit ∨ c = '.' := by
  rcases mem_intercalate.1 h with ⟨hc, -⟩ | ⟨group, hgroup, hc⟩
  · exact Or.inr hc
  · obtain ⟨n, -, rfl⟩ := List.mem_map.1 hgroup
    exact Or.inl (isDigit_of_mem_decimal hc)

/-- Four numbers have three digits at most, with three dots between them. -/
theorem length_quadText (ip : InAddr) : (quadText ip).length ≤ 15 := by
  have hlen : ∀ n ∈ quad ip, (decimal n).length ≤ 3 := by
    intro n hn
    have hlt := quad_lt ip n hn
    exact (Nat.length_toDigits_le_iff (by decide) (by decide)).2 (by omega)
  simp only [quad, List.forall_mem_cons] at hlen
  obtain ⟨h₁, h₂, h₃, h₄, -⟩ := hlen
  simp only [quadText, quad, List.map_cons, List.map_nil, List.intercalate,
    List.intersperse_cons_cons, List.intersperse_singleton, List.flatten_cons, List.flatten_nil,
    List.length_append, List.length_singleton, List.length_nil]
  omega

/-- Dotted quads, and the MACs of the program's own `ether_ntoa`. -/
def ownPrintLib : PrintLib (ownAddressLib dottedQuad) where
  inetNtoa := quadText
  etherNtoa := etherText
  inetNtoa_chars _ _ h := mem_quadText h
  inetNtoa_dot _ := mem_intercalate.2 (Or.inl ⟨rfl, Nat.one_lt_succ_succ 2⟩)
  inetNtoa_length := length_quadText
  etherNtoa_chars mac c h := by
    by_contra hc
    obtain ⟨hhex, hcolon⟩ := not_or.1 hc
    exact not_mem_etherText (Option.not_isSome_iff_eq_none.1 hhex) hcolon mac h
  etherNtoa_length mac := (length_etherText mac).le
  inetAton_inetNtoa := dottedQuad_quadText
  etherAton_etherNtoa := etherAton_etherText

end IpSentinel

import IpSentinel.Net.ArpMessage

/-!
# The receive buffer

The main loop receives every frame into one buffer and reads it through a pointer to an
`ArpMessage`. `recvfrom` writes as many bytes as it returns, and what is behind them stays from
earlier frames. The host is little-endian, as for `ntohl`.
-/

set_option autoImplicit false

namespace IpSentinel

/-- The bytes of the buffer of `run` by their offset. -/
abbrev Buffer := Nat → UInt8

/-- A frame as `recvfrom` delivers it: the bytes, at most the size of the buffer, and the member
`sll_protocol` of the socket address. -/
structure Frame where
  bytes : List UInt8
  protocol : UInt16
  fits : bytes.length ≤ 4096
  deriving DecidableEq

/-- `ntohs` is `htons`. -/
def ntohs (x : UInt16) : UInt16 := htons x

/-- `ETHERTYPE_ARP`. -/
def ethertypeArp : UInt16 := 0x0806

/-- `ARPOP_REQUEST`. -/
def arpopRequest : UInt16 := 1

namespace Buffer

/-- What `recvfrom` makes of the buffer. -/
def receive (buffer : Buffer) (bytes : List UInt8) : Buffer := fun i => bytes.getD i (buffer i)

def uint16At (buffer : Buffer) (offset : Nat) : UInt16 :=
  UInt16.ofNat ((buffer offset).toNat + (buffer (offset + 1)).toNat * 2 ^ 8)

def inAddrAt (buffer : Buffer) (offset : Nat) : InAddr :=
  BitVec.ofNat 32 ((buffer offset).toNat + (buffer (offset + 1)).toNat * 2 ^ 8 +
    (buffer (offset + 2)).toNat * 2 ^ 16 + (buffer (offset + 3)).toNat * 2 ^ 24)

def etherAddrAt (buffer : Buffer) (offset : Nat) : EtherAddr :=
  ⟨Vector.ofFn fun i : Fin 6 => buffer (offset + i)⟩

/-- The member `data` of the message in the buffer, behind the header of 14 bytes. -/
def arp (buffer : Buffer) : EtherArp where
  eaHdr :=
    { arHrd := buffer.uint16At 14
      arPro := buffer.uint16At 16
      arHln := buffer 18
      arPln := buffer 19
      arOp := buffer.uint16At 20 }
  arpSha := buffer.etherAddrAt 22
  arpSpa := buffer.inAddrAt 28
  arpTha := buffer.etherAddrAt 32
  arpTpa := buffer.inAddrAt 38

theorem receive_of_lt {buffer : Buffer} {bytes : List UInt8} {i : Nat} (h : i < bytes.length) :
    buffer.receive bytes i = bytes.get ⟨i, h⟩ := by
  simp [receive, h]

theorem receive_of_le {buffer : Buffer} {bytes : List UInt8} {i : Nat} (h : bytes.length ≤ i) :
    buffer.receive bytes i = buffer i := by
  simp [receive, List.getElem?_eq_none h]

/-- The message ends at offset 42: `arp` reads no byte behind it. -/
theorem arp_congr {b b' : Buffer} (h : ∀ i < 42, b i = b' i) : b.arp = b'.arp := by
  have huint16 : ∀ offset < 41, b.uint16At offset = b'.uint16At offset := by
    intro offset hlt
    rw [uint16At, uint16At, h offset (by omega), h (offset + 1) (by omega)]
  have hinAddr : ∀ offset < 39, b.inAddrAt offset = b'.inAddrAt offset := by
    intro offset hlt
    rw [inAddrAt, inAddrAt, h offset (by omega), h (offset + 1) (by omega),
      h (offset + 2) (by omega), h (offset + 3) (by omega)]
  have hether : ∀ offset < 37, b.etherAddrAt offset = b'.etherAddrAt offset := by
    intro offset hlt
    rw [etherAddrAt, etherAddrAt]
    congr 2
    funext i
    exact h _ (by omega)
  rw [arp, arp, huint16 14 (by omega), huint16 16 (by omega), huint16 20 (by omega),
    h 18 (by omega), h 19 (by omega), hether 22 (by omega), hinAddr 28 (by omega),
    hether 32 (by omega), hinAddr 38 (by omega)]

/-- The number with the four bytes as its digits. -/
theorem toNat_inAddrAt (b : Buffer) (offset : Nat) :
    (b.inAddrAt offset).toNat = (b offset).toNat + (b (offset + 1)).toNat * 2 ^ 8 +
      (b (offset + 2)).toNat * 2 ^ 16 + (b (offset + 3)).toNat * 2 ^ 24 := by
  have h0 := (b offset).toNat_lt
  have h1 := (b (offset + 1)).toNat_lt
  have h2 := (b (offset + 2)).toNat_lt
  have h3 := (b (offset + 3)).toNat_lt
  rw [inAddrAt, BitVec.toNat_ofNat]
  omega

/-- The last byte read is that of the highest digit. -/
theorem byte_of_inAddrAt_eq {b b' : Buffer} {offset : Nat}
    (h : b.inAddrAt offset = b'.inAddrAt offset) : b (offset + 3) = b' (offset + 3) := by
  have hnat := congrArg BitVec.toNat h
  have h0 := (b offset).toNat_lt
  have h1 := (b (offset + 1)).toNat_lt
  have h2 := (b (offset + 2)).toNat_lt
  have h0' := (b' offset).toNat_lt
  have h1' := (b' (offset + 1)).toNat_lt
  have h2' := (b' (offset + 2)).toNat_lt
  rw [toNat_inAddrAt, toNat_inAddrAt] at hnat
  rw [← UInt8.toNat_inj]
  omega

theorem ntohs_toNat (x : UInt16) : (ntohs x).toNat = x.toNat % 2 ^ 8 * 2 ^ 8 + x.toNat / 2 ^ 8 := by
  have hlt := x.toNat_lt
  have hshift : x.toNat <<< 8 % 2 ^ 16 = (x.toNat % 2 ^ 8) <<< 8 := by
    rw [Nat.shiftLeft_eq, Nat.shiftLeft_eq]
    omega
  have hlow : x.toNat / 2 ^ 8 < 2 ^ 8 := by omega
  have hor := Nat.shiftLeft_add_eq_or_of_lt hlow (x.toNat % 2 ^ 8)
  rw [ntohs, htons, UInt16.toNat_or, UInt16.toNat_shiftLeft, UInt16.toNat_shiftRight]
  show x.toNat <<< 8 % 2 ^ 16 ||| x.toNat >>> 8 = _
  rw [hshift, Nat.shiftRight_eq_div_pow, ← hor, Nat.shiftLeft_eq]

/-- A request has the operation `ARPOP_REQUEST` in network order. -/
theorem isRequest_iff (b : Buffer) :
    ntohs b.arp.eaHdr.arOp = arpopRequest ↔ b 20 = 0 ∧ b 21 = 1 := by
  have h0 := (b 20).toNat_lt
  have h1 := (b 21).toNat_lt
  have hop : b.arp.eaHdr.arOp.toNat = (b 20).toNat + (b 21).toNat * 2 ^ 8 := by
    show (UInt16.ofNat ((b 20).toNat + (b 21).toNat * 2 ^ 8)).toNat = _
    rw [UInt16.toNat_ofNat']
    omega
  rw [← UInt16.toNat_inj, ← UInt8.toNat_inj, ← UInt8.toNat_inj, ntohs_toNat, hop]
  show _ = 1 ↔ _ = 0 ∧ _ = 1
  omega

end Buffer

end IpSentinel

import IpSentinel.Net.Addresses

/-!
# Frames

`ArpMessage` of `arpmessage.h`, with the headers of `net/ethernet.h` and `netinet/if_ether.h` it is
made of, and the socket address `struct sockaddr_ll` of `netpacket/packet.h`.
-/

set_option autoImplicit false

namespace IpSentinel

/-- `htons` on a little-endian host. -/
def htons (x : UInt16) : UInt16 := (x <<< 8) ||| (x >>> 8)

/-- `struct ether_header`. -/
structure EtherHeader where
  etherDhost : EtherAddr
  etherShost : EtherAddr
  etherType : UInt16
  deriving DecidableEq, Repr

/-- `struct arphdr`. -/
structure ArpHdr where
  arHrd : UInt16
  arPro : UInt16
  arHln : UInt8
  arPln : UInt8
  arOp : UInt16
  deriving DecidableEq, Repr

/-- `struct ether_arp`. -/
structure EtherArp where
  eaHdr : ArpHdr
  arpSha : EtherAddr
  arpSpa : InAddr
  arpTha : EtherAddr
  arpTpa : InAddr
  deriving DecidableEq, Repr

/-- `ArpMessage`. -/
structure ArpMessage where
  header : EtherHeader
  data : EtherArp
  padding : Vector UInt8 19
  deriving DecidableEq, Repr

/-- `struct sockaddr_ll`. -/
structure SockaddrLl where
  sllFamily : UInt16
  sllProtocol : UInt16
  sllIfindex : Int
  sllHatype : UInt16
  sllPkttype : UInt8
  sllHalen : UInt8
  sllAddr : Vector UInt8 8
  deriving DecidableEq, Repr

/-- `ARPHRD_ETHER`. -/
def arphrdEther : UInt16 := 1

/-- `ETHERTYPE_IP`. -/
def ethertypeIp : UInt16 := 0x0800

/-- `ARPOP_REPLY`. -/
def arpopReply : UInt16 := 2

/-- `ETH_P_ARP`. -/
def ethPArp : UInt16 := 0x0806

/-- `AF_PACKET`. -/
def afPacket : UInt16 := 17

/-- `ETHER_ADDR_LEN`. -/
def etherAddrLen : UInt8 := 6

end IpSentinel

/-
  IP ADDRESSES: private and reserved ranges, embedded IPv4 addresses, CIDR membership
  (`vellaveto-engine/src/ip.rs`).

  An IPv4 address is its four octets, an IPv6 address its eight 16-bit segments.  `isPrivateIp` is
  the check behind `block_private`; `extractEmbeddedIpv4` undoes the six transition mechanisms
  before addresses are compared with IPv4 networks.
-/
import Mathlib.Algebra.Ring.Nat

namespace Vellaveto.Ip

/-- `Ipv4Addr`, by octets. -/
structure Ipv4Addr where
  a : UInt8
  b : UInt8
  c : UInt8
  d : UInt8
deriving DecidableEq, Repr

/-- `Ipv6Addr`, by segments. -/
structure Ipv6Addr where
  s0 : UInt16
  s1 : UInt16
  s2 : UInt16
  s3 : UInt16
  s4 : UInt16
  s5 : UInt16
  s6 : UInt16
  s7 : UInt16
deriving DecidableEq, Repr

/-- `IpAddr`. -/
inductive IpAddr where
  | v4 (addr : Ipv4Addr)
  | v6 (addr : Ipv6Addr)
deriving DecidableEq, Repr

/-- The four octets of two segments. -/
def ofSegments (hi lo : UInt16) : Ipv4Addr :=
  ⟨(hi >>> 8).toUInt8, (hi &&& 0xff).toUInt8, (lo >>> 8).toUInt8, (lo &&& 0xff).toUInt8⟩

/-- The four octets of two segments, inverted as Teredo stores them. -/
def ofInvertedSegments (hi lo : UInt16) : Ipv4Addr :=
  ⟨((hi >>> 8) ^^^ 0xff).toUInt8, ((hi &&& 0xff) ^^^ 0xff).toUInt8,
    ((lo >>> 8) ^^^ 0xff).toUInt8, ((lo &&& 0xff) ^^^ 0xff).toUInt8⟩

/-! ## The standard library's predicates -/

def Ipv4Addr.isLoopback (v : Ipv4Addr) : Bool := v.a == 127

def Ipv4Addr.isPrivate (v : Ipv4Addr) : Bool :=
  v.a == 10 || (v.a == 172 && v.b &&& 0xF0 == 16) || (v.a == 192 && v.b == 168)

def Ipv4Addr.isLinkLocal (v : Ipv4Addr) : Bool := v.a == 169 && v.b == 254

def Ipv4Addr.isUnspecified (v : Ipv4Addr) : Bool := v.a == 0 && v.b == 0 && v.c == 0 && v.d == 0

def Ipv4Addr.isBroadcast (v : Ipv4Addr) : Bool :=
  v.a == 255 && v.b == 255 && v.c == 255 && v.d == 255

/-- Segments 0 to 4 are zero. -/
def Ipv6Addr.leadingZeros (v : Ipv6Addr) : Bool :=
  v.s0 == 0 && v.s1 == 0 && v.s2 == 0 && v.s3 == 0 && v.s4 == 0

def Ipv6Addr.isLoopback (v : Ipv6Addr) : Bool :=
  v.leadingZeros && v.s5 == 0 && v.s6 == 0 && v.s7 == 1

def Ipv6Addr.isUnspecified (v : Ipv6Addr) : Bool :=
  v.leadingZeros && v.s5 == 0 && v.s6 == 0 && v.s7 == 0

/-- `Ipv6Addr::to_ipv4_mapped`. -/
def Ipv6Addr.toIpv4Mapped (v : Ipv6Addr) : Option Ipv4Addr :=
  if v.leadingZeros && v.s5 == 0xffff then some (ofSegments v.s6 v.s7) else none

/-! ## Reserved ranges -/

/-- `is_embedded_ipv4_reserved`, which is also what `is_private_ip` checks for IPv4. -/
def isEmbeddedIpv4Reserved (v : Ipv4Addr) : Bool :=
  v.isLoopback || v.isPrivate || v.isLinkLocal || v.isUnspecified || v.isBroadcast
    || v.a == 0
    || (v.a == 100 && v.b &&& 0xC0 == 64)
    || (v.a == 198 && v.b &&& 0xFE == 18)
    || (v.a == 192 && v.b == 0 && v.c == 0)
    || (v.a == 192 && v.b == 0 && v.c == 2)
    || (v.a == 198 && v.b == 51 && v.c == 100)
    || (v.a == 203 && v.b == 0 && v.c == 113)
    || (v.a == 192 && v.b == 88 && v.c == 99)
    || v.a &&& 0xF0 == 240

/-- `::x.x.x.x`, apart from `::` and `::1`. -/
def isIpv4Compatible (v : Ipv6Addr) : Bool :=
  v.leadingZeros && v.s5 == 0 && !(v.s6 == 0 && v.s7 ≤ 1)

/-- `64:ff9b::/96`. -/
def isNat64 (v : Ipv6Addr) : Bool :=
  v.s0 == 0x0064 && v.s1 == 0xff9b && v.s2 == 0 && v.s3 == 0 && v.s4 == 0 && v.s5 == 0

/-- `64:ff9b:1::/48`. -/
def isNat64Local (v : Ipv6Addr) : Bool := v.s0 == 0x0064 && v.s1 == 0xff9b && v.s2 == 0x0001

/-- `extract_embedded_ipv4`: the IPv4 address inside a transition address, if there is one. -/
def extractEmbeddedIpv4 (v : Ipv6Addr) : Option Ipv4Addr :=
  match v.toIpv4Mapped with
  | some v4 => some v4
  | none =>
    if isIpv4Compatible v then some (ofSegments v.s6 v.s7)
    else if v.s0 == 0x2002 then some (ofSegments v.s1 v.s2)
    else if v.s0 == 0x2001 && v.s1 == 0 then some (ofInvertedSegments v.s6 v.s7)
    else if isNat64 v then some (ofSegments v.s6 v.s7)
    else if isNat64Local v then some (ofSegments v.s6 v.s7)
    else none

/-- `is_private_ip`. -/
def isPrivateIp : IpAddr → Bool
  | .v4 v => isEmbeddedIpv4Reserved v
  | .v6 v =>
    v.isLoopback || v.isUnspecified
      || v.s0 &&& 0xfe00 == 0xfc00
      || v.s0 &&& 0xffc0 == 0xfe80
      || v.s0 &&& 0xff00 == 0xff00
      || (v.s0 == 0x2001 && v.s1 == 0x0db8)
      || (v.s0 == 0x0100 && v.s1 == 0 && v.s2 == 0 && v.s3 == 0)
      || v.toIpv4Mapped.any isEmbeddedIpv4Reserved
      || (isIpv4Compatible v && isEmbeddedIpv4Reserved (ofSegments v.s6 v.s7))
      || (v.s0 == 0x2002 && isEmbeddedIpv4Reserved (ofSegments v.s1 v.s2))
      || (v.s0 == 0x2001 && v.s1 == 0 && isEmbeddedIpv4Reserved (ofInvertedSegments v.s6 v.s7))
      || (isNat64 v && isEmbeddedIpv4Reserved (ofSegments v.s6 v.s7))
      || (isNat64Local v && isEmbeddedIpv4Reserved (ofSegments v.s6 v.s7))

/-! ## Networks -/

/-- The bits of an address as a number. -/
def IpAddr.bits : IpAddr → Nat
  | .v4 v => [v.a, v.b, v.c, v.d].foldl (fun n o => n * 256 + o.toNat) 0
  | .v6 v => [v.s0, v.s1, v.s2, v.s3, v.s4, v.s5, v.s6, v.s7].foldl
      (fun n s => n * 65536 + s.toNat) 0

/-- How many bits an address of this family has. -/
def IpAddr.width : IpAddr → Nat
  | .v4 _ => 32
  | .v6 _ => 128

/-- `IpNet`: a network address and a prefix length. -/
structure IpNet where
  addr : IpAddr
  prefixLen : Nat
deriving DecidableEq, Repr

/-- `IpNet::contains`: the same family and the same leading bits. -/
def IpNet.contains (net : IpNet) (ip : IpAddr) : Bool :=
  net.addr.width == ip.width &&
    net.addr.bits / 2 ^ (ip.width - net.prefixLen) == ip.bits / 2 ^ (ip.width - net.prefixLen)

end Vellaveto.Ip

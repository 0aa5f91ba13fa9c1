/-
What a `Firewall` element describes, and what its entry denotes (`IPACM_firewall_xml_parse_tree()` of
`ipacm/src/IPACM_Xml.cpp`).

An element describes packets by conditions on some fields.  Each condition is read from the elements inside, whatever
their order (`Says`).  The entry that is made of them denotes the same packets only under a condition (`FwCond`): a port
alone sets no flag, so it needs a range, and a range takes the port that was read before it; an address alone sets no
mask, and the mask of an IPv6 prefix is made for lengths that are multiples of four; a mask is applied to the value
that was read before it; and numbers are cut to the width of their fields.

What it is to compare a masked value is left open between two readings (`TosReading`).
-/
import G4Common.Ipacm.FwEntry
import G4Common.Ipacm.RouteEvents

namespace G4Common.Ipacm

open List Option Fields

/-! ### Fields of packets -/

/-- Of an address or a port. -/
inductive Dir
  | src | dst
  deriving DecidableEq, Repr

/-- Fields that are compared with a number. -/
inductive NumField
  | proto | type | code | spi
  deriving DecidableEq, Repr

inductive FwField
  | tos
  | num (f : NumField)
  | addr (dir : Dir)
  | port (dir : Dir)
  deriving DecidableEq, Repr

def NumField.width : NumField → ℕ
  | .spi => 32
  | .proto | .type | .code => 8

/-- An address, word by word. -/
abbrev Words : IpType → Type
  | .v4 => Fin 1 → UInt32
  | .v6 => Ipv6Addr

/-- The words `x` and `a` are the same under a mask. -/
def Agree (ip : IpType) (m x a : Words ip) : Prop :=
  match ip with
  | .v4 => ∀ i : Fin 1, x i &&& m i = a i &&& m i
  | .v6 => ∀ i : Fin 4, x i &&& m i = a i &&& m i

/-- What a field holds. -/
abbrev FwField.Val (ip : IpType) : FwField → Type
  | .tos => UInt8
  | .num f => Fin (2 ^ f.width)
  | .addr _ => Words ip
  | .port _ => UInt16

/-- The fields of a packet. -/
def DlPacket.val (ip : IpType) (p : DlPacket) : (f : FwField) → f.Val ip
  | .tos => p.tos
  | .num .proto => ⟨p.proto.toNat, p.proto.toNat_lt⟩
  | .num .type => ⟨p.type.toNat, p.type.toNat_lt⟩
  | .num .code => ⟨p.code.toNat, p.code.toNat_lt⟩
  | .num .spi => ⟨p.spi.toNat, p.spi.toNat_lt⟩
  | .addr .src => match ip with
    | .v4 => fun _ => p.srcV4
    | .v6 => p.srcV6
  | .addr .dst => match ip with
    | .v4 => fun _ => p.dstV4
    | .v6 => p.dstV6
  | .port .src => p.srcPort
  | .port .dst => p.dstPort

/-! ### Descriptions -/

def tosFlagTag : IpType → FwTag
  | .v4 => .ipv4TypeOfService
  | .v6 => .ipv6TrafficClass

def tosTag : IpType → FwTag
  | .v4 => .tosValue
  | .v6 => .trfClsValue

def tosMaskTag : IpType → FwTag
  | .v4 => .tosMask
  | .v6 => .trfClsMask

def numTag : IpType → NumField → FwTag
  | .v4, .proto => .ipv4NextHeaderProtocol
  | .v6, .proto => .ipv6NextHeaderProtocol
  | _, .type => .icmpType
  | _, .code => .icmpCode
  | _, .spi => .espSPI

def addrFlagTag : IpType → Dir → FwTag
  | .v4, .src => .ipv4SourceAddress
  | .v4, .dst => .ipv4DestinationAddress
  | .v6, .src => .ipv6SourceAddress
  | .v6, .dst => .ipv6DestinationAddress

def addrTag : IpType → Dir → FwTag
  | .v4, .src => .ipv4SourceIPAddress
  | .v4, .dst => .ipv4DestinationIPAddress
  | .v6, .src => .ipv6SourceIPAddress
  | .v6, .dst => .ipv6DestinationIPAddress

/-- The subnet mask, or the length of the prefix. -/
def addrMaskTag : IpType → Dir → FwTag
  | .v4, .src => .ipv4SourceSubnetMask
  | .v4, .dst => .ipv4DestinationSubnetMask
  | .v6, .src => .ipv6SourcePrefix
  | .v6, .dst => .ipv6DestinationPrefix

def portTag : Dir → FwTag
  | .src => .tcpSourcePort
  | .dst => .tcpDestinationPort

def rangeTag : Dir → FwTag
  | .src => .tcpSourceRange
  | .dst => .tcpDestinationRange

/-- What a masked value is compared with: the whole field, or the bits of the mask. -/
inductive TosReading
  | whole
  | masked

/-- A value `v` under a mask. -/
def TosHolds (reading : TosReading) (v : ℤ) (mask : Option ℤ) (x : UInt8) : Prop :=
  match reading with
  | .whole => x.toUInt32 = UInt32.ofInt v &&& mask.elim 0xffffffff UInt32.ofInt
  | .masked =>
    x.toUInt32 &&& mask.elim 0xffffffff UInt32.ofInt = UInt32.ofInt v &&& mask.elim 0xffffffff UInt32.ofInt

/-- A number; one protocol stands for TCP and UDP. -/
def NumHolds (f : NumField) (v : ℤ) (x : ℕ) : Prop :=
  if f = .proto ∧ v = ipprotoTcpUdp.toNat then x = 6 ∨ x = 17 else v = x

/-- The port `p` alone, or the ports from `p` to `p + r`. -/
def PortHolds (p : ℤ) (r : Option ℤ) (x : UInt16) : Prop := p ≤ x.toNat ∧ (x.toNat : ℤ) ≤ p + r.getD 0

section

variable (lib : XmlLib) (ip : IpType) (l : List (FwTag × List Char))

/-- The number that an element gives. -/
def intOf (tag : FwTag) : Option ℤ := (l.lookup tag).map lib.atoi

/-- An address, in host order. -/
def XmlLib.addr : (ip : IpType) → List Char → Words ip
  | .v4, text => fun _ => lib.inetAddr (terminated text)
  | .v6, text => htonlAddr (lib.inetPton text)

/-- A subnet mask, or the mask of the first bits. -/
def XmlLib.mask : (ip : IpType) → List Char → Words ip
  | .v4, text => fun _ => lib.inetAddr (terminated text)
  | .v6, text => routeMask (lib.atoi text).toNat

def allBits : (ip : IpType) → Words ip
  | .v4 | .v6 => fun _ => 0xffffffff

/-- What the elements say about a field.  Without a mask, all bits of an address count. -/
def Says (reading : TosReading) : (f : FwField) → f.Val ip → Prop
  | .tos, x => ∀ v ∈ intOf lib l (tosTag ip), TosHolds reading v (intOf lib l (tosMaskTag ip)) x
  | .num f, x => ∀ v ∈ intOf lib l (numTag ip f), NumHolds f v x
  | .addr dir, x => ∀ a ∈ l.lookup (addrTag ip dir),
      Agree ip ((l.lookup (addrMaskTag ip dir)).elim (allBits ip) (lib.mask ip)) x (lib.addr ip a)
  | .port dir, x => ∀ p ∈ intOf lib l (portTag dir), PortHolds p (intOf lib l (rangeTag dir)) x

/-- A packet is one that the elements describe. -/
def Describes (reading : TosReading) (p : DlPacket) : Prop := ∀ f, Says lib ip l reading f (p.val ip f)

/-! ### Well-formed elements -/

/-- Elements, each with the one that it belongs to. -/
def belongs : List (FwTag × FwTag) :=
  [(tosTag ip, tosFlagTag ip), (tosMaskTag ip, tosTag ip)] ++ [Dir.src, .dst].flatMap fun dir =>
    [(addrTag ip dir, addrFlagTag ip dir), (addrMaskTag ip dir, addrTag ip dir), (rangeTag dir, portTag dir)]

def IpType.other : IpType → IpType
  | .v4 => .v6
  | .v6 => .v4

/-- The elements that are for one IP type only. -/
def familyTags : List FwTag :=
  [tosFlagTag ip, tosTag ip, tosMaskTag ip, numTag ip .proto] ++ [Dir.src, .dst].flatMap fun dir =>
    [addrFlagTag ip dir, addrTag ip dir, addrMaskTag ip dir]

/-- No element comes twice, and none without the one it belongs to; the family is there, with no elements for the other
one; and prefixes have 0 to 128 bits. -/
structure WellFormed : Prop where
  nodup : (l.map Prod.fst).Nodup
  belongs : ∀ q ∈ belongs ip, q.1 ∈ l.map Prod.fst → q.2 ∈ l.map Prod.fst
  family : intOf lib l .ipFamily = some (ipVersion ip)
  own : ∀ tag ∈ familyTags ip.other, tag ∉ l.map Prod.fst
  len : ip = .v6 → ∀ dir, ∀ n ∈ intOf lib l (addrMaskTag ip dir), 0 ≤ n ∧ n ≤ 128

/-! ### The condition -/

/-- The masked value is a byte; the mask comes second or changes nothing, or keeps all bits. -/
def TosCond (reading : TosReading) (v : ℤ) (mask : Option ℤ) (inOrder : Prop) : Prop :=
  UInt32.ofInt v &&& mask.elim 0xffffffff UInt32.ofInt < 256 ∧
    match reading with
    | .whole => inOrder ∨ (UInt32.ofInt v &&& mask.elim 0xffffffff UInt32.ofInt).toUInt8 = UInt8.ofInt v
    | .masked => (mask.elim 0xffffffff UInt32.ofInt).toUInt8 = 0xff

/-- The range is there, the ports are ports, and the range comes second, unless it is no range or begins at 0. -/
def PortCond (p : ℤ) (range : Option ℤ) (inOrder : Prop) : Prop :=
  ∃ r ∈ range, 0 ≤ p ∧ 0 ≤ r ∧ p + r ≤ 65535 ∧ (r = 0 ∨ p = 0 ∨ inOrder)

/-- When the entry is right about a field. -/
def FwCond (reading : TosReading) : FwField → Prop
  | .tos => tosFlagTag ip ∈ l.map Prod.fst → ∃ v ∈ intOf lib l (tosTag ip),
      TosCond reading v (intOf lib l (tosMaskTag ip)) (Before (tosTag ip) (tosMaskTag ip) l)
  | .num f => ∀ v ∈ intOf lib l (numTag ip f), 0 ≤ v ∧ v < 2 ^ f.width
  | .addr dir => addrTag ip dir ∈ l.map Prod.fst →
      ∃ text ∈ l.lookup (addrMaskTag ip dir), ip = .v6 → lib.atoi text % 4 = 0
  | .port dir => ∀ p ∈ intOf lib l (portTag dir),
      PortCond p (intOf lib l (rangeTag dir)) (Before (portTag dir) (rangeTag dir) l)

end

/-! ### Entries, field by field -/

/-- The ports of one direction in an entry. -/
structure PortAttrib where
  isPort : Bool
  isRange : Bool
  port : UInt16
  lo : UInt16
  hi : UInt16

def PortAttrib.Ok (a : PortAttrib) (x : UInt16) : Prop :=
  (a.isPort = true → a.port = x) ∧ (a.isRange = true → a.lo ≤ x ∧ x ≤ a.hi)

/-- An address in an entry. -/
structure AddrAttrib (ip : IpType) where
  isAddr : Bool
  addr : Words ip
  mask : Words ip

/-- A number in an entry. -/
structure NumAttrib where
  isNum : Bool
  num : ℕ

namespace RuleAttrib

variable (a : RuleAttrib)

def isTos : IpType → Bool
  | .v4 => a.attribMask .tos
  | .v6 => a.attribMask .tc

/-- The type of service, or the traffic class. -/
def tosOf : IpType → UInt8
  | .v4 => a.v4.tos
  | .v6 => a.v6.tc

def nums : IpType → NumField → NumAttrib
  | .v4, .proto => ⟨a.attribMask .protocol, a.v4.protocol.toNat⟩
  | .v6, .proto => ⟨a.attribMask .nextHdr, a.v6.nextHdr.toNat⟩
  | _, .type => ⟨a.attribMask .type, a.type.toNat⟩
  | _, .code => ⟨a.attribMask .code, a.code.toNat⟩
  | _, .spi => ⟨a.attribMask .spi, a.spi.toNat⟩

def addrs : (ip : IpType) → Dir → AddrAttrib ip
  | .v4, .src => ⟨a.attribMask .srcAddr, fun _ => a.v4.srcAddr, fun _ => a.v4.srcAddrMask⟩
  | .v4, .dst => ⟨a.attribMask .dstAddr, fun _ => a.v4.dstAddr, fun _ => a.v4.dstAddrMask⟩
  | .v6, .src => ⟨a.attribMask .srcAddr, a.v6.srcAddr, a.v6.srcAddrMask⟩
  | .v6, .dst => ⟨a.attribMask .dstAddr, a.v6.dstAddr, a.v6.dstAddrMask⟩

def ports : Dir → PortAttrib
  | .src => ⟨a.attribMask .srcPort, a.attribMask .srcPortRange, a.srcPort, a.srcPortLo, a.srcPortHi⟩
  | .dst => ⟨a.attribMask .dstPort, a.attribMask .dstPortRange, a.dstPort, a.dstPortLo, a.dstPortHi⟩

/-- What the attributes say about a field. -/
def Ok (ip : IpType) : (f : FwField) → f.Val ip → Prop
  | .tos, x => a.isTos ip = true → a.tosOf ip = x
  | .num f, x => (a.nums ip f).isNum = true → NumHolds f (a.nums ip f).num x
  | .addr dir, x => (a.addrs ip dir).isAddr = true → Agree ip (a.addrs ip dir).mask x (a.addrs ip dir).addr
  | .port dir, x => (a.ports dir).Ok x

end RuleAttrib

/-- A range is not wrapped around, and its bounds are in order. -/
def RangeRight (a : PortAttrib) (p : ℤ) (range : Option ℤ) : Prop :=
  ∀ r ∈ range, r ≠ 0 → a.lo ≤ a.hi ∧ (a.lo.toNat : ℤ) = p ∧ (a.hi.toNat : ℤ) = p + r

/-- **The entry denotes exactly the packets that the elements describe.** -/
structure Faithful (lib : XmlLib) (ip : IpType) (l : List (FwTag × List Char)) (reading : TosReading)
    (e : FirewallEntry) : Prop where
  family : e.ipVsn = ipVersion ip
  denotes : ∀ p, entryMatches ip e p = true ↔ Describes lib ip l reading p
  ranges : ∀ dir, ∀ p ∈ intOf lib l (portTag dir), RangeRight (e.attrib.ports dir) p (intOf lib l (rangeTag dir))

end G4Common.Ipacm

/-
Reading the configuration files (`ipacm/src/IPACM_Xml.cpp`).

libxml gives a tree of nodes.  Two functions walk over it, one for the configuration of IPACM and
one for the firewall.  Both know elements by name only.  Some elements begin a new entry of a table
and add one to its number, others write to the last entry, which is at the number minus one, with no
check that it is in the table.  The text of an element is copied to `content_buf` first.

The functions return `none` where they would write outside `content_buf`, a name or a table, so a run
that returns is one that stayed inside.  `cfgParseTree_isSome_iff` and `fwParseTree_isSome_iff` say for
which trees that is so: all is decided by the elements in the order in which they are visited.

Strings are lists of bytes without the final zero.  `atoi()`, `inet_addr()` and `inet_pton()` are
parameters.  Not modelled: the return value, which is always `IPACM_SUCCESS`, and that the IPv4 and
the IPv6 attributes of a rule share their memory.
-/
import G4Common.Lib.TreeWalk
import G4Common.Ipacm.Netlink

namespace G4Common.Ipacm

open Option

/-! ### Trees and strings -/

/-- What a node of the tree is. -/
inductive XmlItem
  | element (name : List Char)
  | text (content : List Char)
  | other

/-- A node with all that comes after it, or `NULL`. -/
abbrev XmlTree := Forest XmlItem

/-- `IPACM_read_content_element()`, from the first child on. -/
def readContentElement : XmlTree → Option (List Char)
  | .nil => none
  | .node (.text content) _ _ => some content
  | .node _ _ next => readContentElement next

def strncasecmpEq : ℕ → List Char → List Char → Bool
  | 0, _, _ => true
  | _ + 1, [], [] => true
  | n + 1, a :: s, b :: t => a.toLower == b.toLower && strncasecmpEq n s t
  | _ + 1, _, _ => false

/-- `IPACM_util_icmp_string() == 0`. -/
def utilIcmpString (xmlStr str : List Char) : Bool :=
  str.length % 2 ^ 32 == xmlStr.length % 2 ^ 32 && strncasecmpEq (str.length % 2 ^ 32) xmlStr str

def maxXmlStrLen : ℕ := 120

/-- `str_size`, an `int` for the length of a string, as `memcpy()` and `strncpy()` take it. -/
def strSize (content : List Char) : ℕ := (Int.bmod content.length (2 ^ 32) % 2 ^ 64).toNat

/-- The text of an element, if there is one, is copied to `content_buf` and used. -/
def withContent {σ : Type} (content : Option (List Char)) (s : σ) (f : List Char → Option σ) : Option σ :=
  match content with
  | none => some s
  | some c => if strSize c ≤ maxXmlStrLen then f (c.take (strSize c)) else none

/-- `content_buf` after `content_buf[MAX_XML_STR_LEN-1] = '\0'`. -/
def terminated (buf : List Char) : List Char := buf.take (maxXmlStrLen - 1)

/-- Functions of the C library that give the values. -/
structure XmlLib where
  atoi : List Char → ℤ
  inetAddr : List Char → UInt32
  inetPton : List Char → Ipv6Addr

/-! ### Tables -/

/-- A table with the number of its entries. -/
structure XmlTable (α : Type) (max : ℕ) where
  num : UInt8
  entries : Vector α max

namespace XmlTable

variable {α : Type} {max : ℕ} (t : XmlTable α max)

def bump : XmlTable α max := { t with num := t.num + 1 }

/-- The index of the last entry. -/
def last : ℤ := t.num.toNat - 1

/-- A write to the last entry, inside the table only. -/
def modifyLast (f : α → α) : Option (XmlTable α max) :=
  if h : 0 ≤ t.last ∧ t.last.toNat < max then
    some { t with entries := t.entries.set t.last.toNat (f (t.entries.get ⟨t.last.toNat, h.2⟩)) h.2 }
  else none

end XmlTable

/-- There is an entry with index `num - 1` in a table of `max` entries. -/
def InTable (max : ℕ) (num : UInt8) : Prop := 1 ≤ num.toNat ∧ num.toNat ≤ max

theorem XmlTable.modifyLast_isSome {α : Type} {max : ℕ} (t : XmlTable α max) (f : α → α) :
    (t.modifyLast f).isSome ↔ InTable max t.num := by
  have hiff : (0 ≤ t.last ∧ t.last.toNat < max) ↔ InTable max t.num := by
    unfold XmlTable.last InTable
    omega
  rw [← hiff, modifyLast]
  split_ifs with h
  · exact iff_of_true rfl h
  · exact iff_of_false (by simp) h

theorem XmlTable.num_modifyLast {α : Type} {max : ℕ} {t t' : XmlTable α max} {f : α → α}
    (h : t.modifyLast f = some t') : t'.num = t.num := by
  rw [modifyLast] at h
  split at h
  · cases h
    rfl
  · cases h

/-! ### The configuration -/

/-- `ipacm_iface_type`. -/
inductive IfCat
  | lan | wlan | wan | virtual | eth | embms | odu | unknown
  deriving DecidableEq, Repr

def ifaceNameLen : ℕ := 16

/-- `ipa_ifi_dev_name_t`.  The name is an array of `IPA_IFACE_NAME_LEN` bytes. -/
structure IfaceEntry where
  ifaceName : List Char
  ifCat : IfCat

/-- `ipa_private_subnet`. -/
structure SubnetEntry where
  subnetAddr : UInt32
  subnetMask : UInt32

/-- `ipacm_alg`. -/
structure AlgEntry where
  protocol : UInt8
  port : UInt16

def ifaceEntriesMax : ℕ := 15

/-- `IPA_MAX_PRIVATE_SUBNET_ENTRIES`. -/
def maxPrivateSubnetEntries : ℕ := 3

def maxAlgEntries : ℕ := 20

/-- `IPACM_conf_t`. -/
structure IpacmConf where
  iface : XmlTable IfaceEntry ifaceEntriesMax
  privateSubnet : XmlTable SubnetEntry maxPrivateSubnetEntries
  alg : XmlTable AlgEntry maxAlgEntries
  natMaxEntries : ℤ
  routerModeEnable : Bool

/-- The elements of the configuration, in the order of the comparisons. -/
inductive CfgTag
  | system | odu | ipacmcfg | ipacmifacecfg | iface | ipacmprivatesubnetcfg | subnet | ipacmalg | alg
  | ipacmNat | odumode | name | category | subnetaddress | subnetmask | protocol | port | natMaxEntries
  deriving DecidableEq, Repr

def CfgTag.all : List CfgTag :=
  [.system, .odu, .ipacmcfg, .ipacmifacecfg, .iface, .ipacmprivatesubnetcfg, .subnet, .ipacmalg, .alg,
    .ipacmNat, .odumode, .name, .category, .subnetaddress, .subnetmask, .protocol, .port, .natMaxEntries]

def CfgTag.text : CfgTag → String
  | .system => "system"
  | .odu => "ODUCFG"
  | .ipacmcfg => "IPACM"
  | .ipacmifacecfg => "IPACMIface"
  | .iface => "Iface"
  | .ipacmprivatesubnetcfg => "IPACMPrivateSubnet"
  | .subnet => "Subnet"
  | .ipacmalg => "IPACMALG"
  | .alg => "ALG"
  | .ipacmNat => "IPACMNAT"
  | .odumode => "Mode"
  | .name => "Name"
  | .category => "Category"
  | .subnetaddress => "SubnetAddress"
  | .subnetmask => "SubnetMask"
  | .protocol => "Protocol"
  | .port => "Port"
  | .natMaxEntries => "MaxNatEntries"

/-- The element that a node is, if it is a known one. -/
def cfgTagOf : XmlItem → Option CfgTag
  | .element name => CfgTag.all.find? fun t => utilIcmpString name t.text.toList
  | _ => none

/-- The first of some texts that a content is, or begins; the rest of the text is not compared. -/
def firstMatch {β : Type} (buf : List Char) (size : ℕ) : List (String × β) → Option β
  | [] => none
  | x :: l => if strncasecmpEq size buf x.1.toList then some x.2 else firstMatch buf size l

/-- The categories in the order of the comparisons. -/
def categories : List (String × IfCat) :=
  [("WAN", .wan), ("LAN", .lan), ("WLAN", .wlan), ("VIRTUAL", .virtual), ("UNKNOWN", .unknown),
    ("ETH", .eth), ("ODU", .odu)]

/-- What is done for an element. -/
inductive CfgWork
  | descend
  | newIface
  | newSubnet
  | newAlg
  | routerMode (f : List Char → Option Bool)
  | natMax (f : List Char → ℤ)
  | ifaceName
  | iface (f : List Char → Option (IfaceEntry → IfaceEntry))
  | subnet (f : List Char → SubnetEntry → SubnetEntry)
  | alg (f : List Char → Option (AlgEntry → AlgEntry))

/-- The bodies of the branches. -/
def cfgWork (lib : XmlLib) : CfgTag → CfgWork
  | .system | .odu | .ipacmcfg | .ipacmifacecfg | .ipacmprivatesubnetcfg | .ipacmalg | .ipacmNat => .descend
  | .iface => .newIface
  | .subnet => .newSubnet
  | .alg => .newAlg
  | .odumode => .routerMode fun buf => firstMatch buf buf.length [("router", true), ("bridge", false)]
  | .name => .ifaceName
  | .category => .iface fun buf =>
      (firstMatch buf buf.length categories).map fun cat e => { e with ifCat := cat }
  | .subnetaddress => .subnet fun buf e => { e with subnetAddr := lib.inetAddr (terminated buf) }
  | .subnetmask => .subnet fun buf e => { e with subnetMask := lib.inetAddr (terminated buf) }
  | .protocol => .alg fun buf =>
      (firstMatch (terminated buf) buf.length [("TCP", 6), ("UDP", 17)]).map fun p e =>
        { e with protocol := p }
  | .port => .alg fun buf => some fun e => { e with port := UInt16.ofInt (lib.atoi buf) }
  | .natMaxEntries => .natMax lib.atoi

/-- The elements with "go to child". -/
def CfgTag.descends : CfgTag → Bool
  | .system | .odu | .ipacmcfg | .ipacmifacecfg | .iface | .ipacmprivatesubnetcfg | .subnet
  | .ipacmalg | .alg | .ipacmNat => true
  | _ => false

namespace IpacmConf

variable (c : IpacmConf)

/-- A write to the last interface. -/
def modifyIface (f : IfaceEntry → IfaceEntry) : Option IpacmConf :=
  (c.iface.modifyLast f).map fun t => { c with iface := t }

def modifySubnet (f : SubnetEntry → SubnetEntry) : Option IpacmConf :=
  (c.privateSubnet.modifyLast f).map fun t => { c with privateSubnet := t }

def modifyAlg (f : AlgEntry → AlgEntry) : Option IpacmConf :=
  (c.alg.modifyLast f).map fun t => { c with alg := t }

/-- One element, with its text. -/
def work (content : Option (List Char)) : CfgWork → Option IpacmConf
  | .descend => some c
  | .newIface => some { c with iface := c.iface.bump }
  | .newSubnet => some { c with privateSubnet := c.privateSubnet.bump }
  | .newAlg => some { c with alg := c.alg.bump }
  | .routerMode f => withContent content c fun buf =>
      some { c with routerModeEnable := (f buf).getD c.routerModeEnable }
  | .natMax f => withContent content c fun buf => some { c with natMaxEntries := f buf }
  | .ifaceName => withContent content c fun buf =>
      -- `strncpy()` to a name of 16 bytes
      if buf.length ≤ ifaceNameLen then
        c.modifyIface fun e => { e with ifaceName := buf ++ e.ifaceName.drop buf.length }
      else none
  | .iface f => withContent content c fun buf => (f buf).elim (some c) c.modifyIface
  | .subnet f => withContent content c fun buf => c.modifySubnet (f buf)
  | .alg f => withContent content c fun buf => (f buf).elim (some c) c.modifyAlg

end IpacmConf

def ipacmCfgXmlParseTree (lib : XmlLib) (t : XmlTree) (c : IpacmConf) : Option IpacmConf :=
  t.walk (fun item => (cfgTagOf item).elim false CfgTag.descends)
    (fun c item children =>
      (cfgTagOf item).elim (some c) fun tag => c.work (readContentElement children) (cfgWork lib tag)) c

/-! ### The firewall -/

/-- `IPACM_MAX_FIREWALL_ENTRIES`. -/
def maxFirewallEntries : ℕ := 50

/-- `IPACM_firewall_conf_t`, while it is read. -/
structure FirewallXml where
  extdFirewall : XmlTable FirewallEntry maxFirewallEntries
  ruleActionAccept : Bool
  firewallEnable : Bool

/-- The elements of the firewall, in the order of the comparisons. -/
inductive FwTag
  | system | mobileAPFirewallCfg | firewall | firewallEnabled | firewallPktsAllowed | ipFamily
  | ipv4SourceAddress | ipv4SourceIPAddress | ipv4SourceSubnetMask
  | ipv4DestinationAddress | ipv4DestinationIPAddress | ipv4DestinationSubnetMask
  | ipv4TypeOfService | tosValue | tosMask | ipv4NextHeaderProtocol
  | ipv6SourceAddress | ipv6SourceIPAddress | ipv6SourcePrefix
  | ipv6DestinationAddress | ipv6DestinationIPAddress | ipv6DestinationPrefix
  | ipv6TrafficClass | trfClsValue | trfClsMask | ipv6NextHeaderProtocol
  | tcpSource | tcpSourcePort | tcpSourceRange | tcpDestination | tcpDestinationPort | tcpDestinationRange
  | udpSource | udpSourcePort | udpSourceRange | udpDestination | udpDestinationPort | udpDestinationRange
  | icmpType | icmpCode | espSPI
  | tcpUdpSource | tcpUdpSourcePort | tcpUdpSourceRange
  | tcpUdpDestination | tcpUdpDestinationPort | tcpUdpDestinationRange
  deriving DecidableEq, Repr

def FwTag.all : List FwTag :=
  [.system, .mobileAPFirewallCfg, .firewall, .firewallEnabled, .firewallPktsAllowed, .ipFamily,
    .ipv4SourceAddress, .ipv4SourceIPAddress, .ipv4SourceSubnetMask,
    .ipv4DestinationAddress, .ipv4DestinationIPAddress, .ipv4DestinationSubnetMask,
    .ipv4TypeOfService, .tosValue, .tosMask, .ipv4NextHeaderProtocol,
    .ipv6SourceAddress, .ipv6SourceIPAddress, .ipv6SourcePrefix,
    .ipv6DestinationAddress, .ipv6DestinationIPAddress, .ipv6DestinationPrefix,
    .ipv6TrafficClass, .trfClsValue, .trfClsMask, .ipv6NextHeaderProtocol,
    .tcpSource, .tcpSourcePort, .tcpSourceRange, .tcpDestination, .tcpDestinationPort, .tcpDestinationRange,
    .udpSource, .udpSourcePort, .udpSourceRange, .udpDestination, .udpDestinationPort, .udpDestinationRange,
    .icmpType, .icmpCode, .espSPI,
    .tcpUdpSource, .tcpUdpSourcePort, .tcpUdpSourceRange,
    .tcpUdpDestination, .tcpUdpDestinationPort, .tcpUdpDestinationRange]

def FwTag.text : FwTag → String
  | .system => "system"
  | .mobileAPFirewallCfg => "MobileAPFirewallCfg"
  | .firewall => "Firewall"
  | .firewallEnabled => "FirewallEnabled"
  | .firewallPktsAllowed => "FirewallPktsAllowed"
  | .ipFamily => "IPFamily"
  | .ipv4SourceAddress => "IPV4SourceAddress"
  | .ipv4SourceIPAddress => "IPV4SourceIPAddress"
  | .ipv4SourceSubnetMask => "IPV4SourceSubnetMask"
  | .ipv4DestinationAddress => "IPV4DestinationAddress"
  | .ipv4DestinationIPAddress => "IPV4DestinationIPAddress"
  | .ipv4DestinationSubnetMask => "IPV4DestinationSubnetMask"
  | .ipv4TypeOfService => "IPV4TypeOfService"
  | .tosValue => "TOSValue"
  | .tosMask => "TOSMask"
  | .ipv4NextHeaderProtocol => "IPV4NextHeaderProtocol"
  | .ipv6SourceAddress => "IPV6SourceAddress"
  | .ipv6SourceIPAddress => "IPV6SourceIPAddress"
  | .ipv6SourcePrefix => "IPV6SourcePrefix"
  | .ipv6DestinationAddress => "IPV6DestinationAddress"
  | .ipv6DestinationIPAddress => "IPV6DestinationIPAddress"
  | .ipv6DestinationPrefix => "IPV6DestinationPrefix"
  | .ipv6TrafficClass => "IPV6TrafficClass"
  | .trfClsValue => "TrfClsValue"
  | .trfClsMask => "TrfClsMask"
  | .ipv6NextHeaderProtocol => "IPV6NextHeaderProtocol"
  | .tcpSource => "TCPSource"
  | .tcpSourcePort => "TCPSourcePort"
  | .tcpSourceRange => "TCPSourceRange"
  | .tcpDestination => "TCPDestination"
  | .tcpDestinationPort => "TCPDestinationPort"
  | .tcpDestinationRange => "TCPDestinationRange"
  | .udpSource => "UDPSource"
  | .udpSourcePort => "UDPSourcePort"
  | .udpSourceRange => "UDPSourceRange"
  | .udpDestination => "UDPDestination"
  | .udpDestinationPort => "UDPDestinationPort"
  | .udpDestinationRange => "UDPDestinationRange"
  | .icmpType => "ICMPType"
  | .icmpCode => "ICMPCode"
  | .espSPI => "ESPSPI"
  | .tcpUdpSource => "TCP_UDPSource"
  | .tcpUdpSourcePort => "TCP_UDPSourcePort"
  | .tcpUdpSourceRange => "TCP_UDPSourceRange"
  | .tcpUdpDestination => "TCP_UDPDestination"
  | .tcpUdpDestinationPort => "TCP_UDPDestinationPort"
  | .tcpUdpDestinationRange => "TCP_UDPDestinationRange"

/-- The element that a node is, if it is a known one. -/
def fwTagOf : XmlItem → Option FwTag
  | .element name => FwTag.all.find? fun t => utilIcmpString name t.text.toList
  | _ => none

/-- The loop over the words of the mask of an IPv6 prefix.  A negative length is, like 1, not in
the list of `mask_v6()`. -/
def prefixMask (v : ℤ) (mask : Ipv6Addr) : Ipv6Addr :=
  maskWords (fun i => i) (if v < 0 then 1 else v.toNat) mask

/-- `..SourceRange`: a range that begins at the port read before, or that port alone. -/
def RuleAttrib.srcRange (a : RuleAttrib) (v : ℤ) : RuleAttrib :=
  if v ≠ 0 then
    { a.setFlag .srcPortRange with
      srcPortLo := a.srcPort
      srcPortHi := UInt16.ofInt (a.srcPort.toNat + v)
      srcPort := 0 }
  else a.setFlag .srcPort

def RuleAttrib.dstRange (a : RuleAttrib) (v : ℤ) : RuleAttrib :=
  if v ≠ 0 then
    { a.setFlag .dstPortRange with
      dstPortLo := a.dstPort
      dstPortHi := UInt16.ofInt (a.dstPort.toNat + v)
      dstPort := 0 }
  else a.setFlag .dstPort

/-- What is done for an element. -/
inductive FwWork
  | descend
  | newEntry
  | enable (f : List Char → Bool)
  | accept (f : List Char → Bool)
  | flag (f : FltFlag)
  | entry (f : List Char → FirewallEntry → FirewallEntry)

/-- A change of the attributes of the last entry. -/
def FwWork.attrib (f : List Char → RuleAttrib → RuleAttrib) : FwWork :=
  .entry fun buf e => { e with attrib := f buf e.attrib }

/-- The bodies of the branches. -/
def fwWork (lib : XmlLib) : FwTag → FwWork
  | .system | .mobileAPFirewallCfg => .descend
  | .firewall => .newEntry
  | .firewallEnabled => .enable fun buf => lib.atoi buf = 1
  | .firewallPktsAllowed => .accept fun buf => lib.atoi buf = 1
  | .ipFamily => .entry fun buf e => { e with ipVsn := lib.atoi buf }
  | .ipv4SourceAddress | .ipv6SourceAddress => .flag .srcAddr
  | .ipv4SourceIPAddress => .attrib fun buf a =>
      { a with v4 := { a.v4 with srcAddr := lib.inetAddr (terminated buf) } }
  | .ipv4SourceSubnetMask => .attrib fun buf a =>
      { a with v4 := { a.v4 with srcAddrMask := lib.inetAddr (terminated buf) } }
  | .ipv4DestinationAddress | .ipv6DestinationAddress => .flag .dstAddr
  | .ipv4DestinationIPAddress => .attrib fun buf a =>
      { a with v4 := { a.v4 with dstAddr := lib.inetAddr (terminated buf) } }
  | .ipv4DestinationSubnetMask => .attrib fun buf a =>
      { a with v4 := { a.v4 with dstAddrMask := lib.inetAddr (terminated buf) } }
  | .ipv4TypeOfService => .flag .tos
  | .tosValue => .attrib fun buf a =>
      { a with v4 := { a.v4 with tos := UInt8.ofInt (lib.atoi buf) } }
  | .tosMask => .attrib fun buf a =>
      { a with v4 := { a.v4 with tos := a.v4.tos &&& UInt8.ofInt (lib.atoi buf) } }
  | .ipv4NextHeaderProtocol => .attrib fun buf a =>
      { a.setFlag .protocol with v4 := { a.v4 with protocol := UInt8.ofInt (lib.atoi buf) } }
  | .ipv6SourceIPAddress => .attrib fun buf a =>
      { a with v6 := { a.v6 with srcAddr := htonlAddr (lib.inetPton buf) } }
  | .ipv6SourcePrefix => .attrib fun buf a =>
      { a with v6 := { a.v6 with srcAddrMask := prefixMask (lib.atoi buf) a.v6.srcAddrMask } }
  | .ipv6DestinationIPAddress => .attrib fun buf a =>
      { a with v6 := { a.v6 with dstAddr := htonlAddr (lib.inetPton buf) } }
  | .ipv6DestinationPrefix => .attrib fun buf a =>
      { a with v6 := { a.v6 with dstAddrMask := prefixMask (lib.atoi buf) a.v6.dstAddrMask } }
  | .ipv6TrafficClass => .flag .tc
  | .trfClsValue => .attrib fun buf a =>
      { a with v6 := { a.v6 with tc := UInt8.ofInt (lib.atoi buf) } }
  | .trfClsMask => .attrib fun buf a =>
      { a with v6 := { a.v6 with tc := a.v6.tc &&& UInt8.ofInt (lib.atoi buf) } }
  | .ipv6NextHeaderProtocol => .attrib fun buf a =>
      { a.setFlag .nextHdr with v6 := { a.v6 with nextHdr := UInt8.ofInt (lib.atoi buf) } }
  | .tcpSource | .tcpDestination | .udpSource | .udpDestination | .tcpUdpSource | .tcpUdpDestination =>
    .descend
  | .tcpSourcePort | .udpSourcePort | .tcpUdpSourcePort => .attrib fun buf a =>
      { a with srcPort := UInt16.ofInt (lib.atoi buf) }
  | .tcpSourceRange | .udpSourceRange | .tcpUdpSourceRange => .attrib fun buf a =>
      a.srcRange (lib.atoi buf)
  | .tcpDestinationPort | .udpDestinationPort | .tcpUdpDestinationPort => .attrib fun buf a =>
      { a with dstPort := UInt16.ofInt (lib.atoi buf) }
  | .tcpDestinationRange | .udpDestinationRange | .tcpUdpDestinationRange => .attrib fun buf a =>
      a.dstRange (lib.atoi buf)
  | .icmpType => .attrib fun buf a =>
      { a.setFlag .type with type := UInt8.ofInt (lib.atoi buf) }
  | .icmpCode => .attrib fun buf a =>
      { a.setFlag .code with code := UInt8.ofInt (lib.atoi buf) }
  | .espSPI => .attrib fun buf a =>
      { a.setFlag .spi with spi := UInt32.ofInt (lib.atoi buf) }

/-- The elements with "go to child". -/
def FwTag.descends : FwTag → Bool
  | .system | .mobileAPFirewallCfg | .firewall | .firewallEnabled | .firewallPktsAllowed
  | .ipv4SourceAddress | .ipv4DestinationAddress | .ipv4TypeOfService
  | .ipv6SourceAddress | .ipv6DestinationAddress | .ipv6TrafficClass
  | .tcpSource | .tcpDestination | .udpSource | .udpDestination | .tcpUdpSource | .tcpUdpDestination => true
  | _ => false

namespace FirewallXml

variable (c : FirewallXml)

/-- A write to the last entry. -/
def modifyEntry (f : FirewallEntry → FirewallEntry) : Option FirewallXml :=
  (c.extdFirewall.modifyLast f).map fun t => { c with extdFirewall := t }

/-- One element, with its text. -/
def work (content : Option (List Char)) : FwWork → Option FirewallXml
  | .descend => some c
  | .newEntry => some { c with extdFirewall := c.extdFirewall.bump }
  | .enable f => withContent content c fun buf => some { c with firewallEnable := f buf }
  | .accept f => withContent content c fun buf => some { c with ruleActionAccept := f buf }
  | .flag f => c.modifyEntry fun e => { e with attrib := e.attrib.setFlag f }
  | .entry f => withContent content c fun buf => c.modifyEntry (f buf)

end FirewallXml

def ipacmFirewallXmlParseTree (lib : XmlLib) (t : XmlTree) (c : FirewallXml) : Option FirewallXml :=
  t.walk (fun item => (fwTagOf item).elim false FwTag.descends)
    (fun c item children =>
      (fwTagOf item).elim (some c) fun tag => c.work (readContentElement children) (fwWork lib tag)) c

/-! ### When the walks stay inside -/

/-- The text of an element, if there is one, is not too long for `content_buf`, and `P` holds of
what is copied. -/
def ContentOk (content : Option (List Char)) (P : List Char → Prop) : Prop :=
  ∀ c, content = some c → strSize c ≤ maxXmlStrLen ∧ P (c.take (strSize c))

theorem withContent_isSome {σ : Type} {content : Option (List Char)} {s : σ}
    {f : List Char → Option σ} {P : List Char → Prop} (hf : ∀ buf, (f buf).isSome ↔ P buf) :
    (withContent content s f).isSome ↔ ContentOk content P := by
  cases content with
  | none =>
    refine iff_of_true rfl ?_
    intro c hc
    cases hc
  | some =>
    unfold ContentOk withContent
    simp only [some.injEq, forall_eq']
    split_ifs with hle
    · simp [hle, hf]
    · simp [hle]

theorem withContent_keeps {σ τ : Type} {g : σ → τ} {content : Option (List Char)} {s s' : σ}
    {f : List Char → Option σ} (hf : ∀ buf s', f buf = some s' → g s' = g s)
    (h : withContent content s f = some s') : g s' = g s := by
  cases content with
  | none =>
    cases h
    rfl
  | some =>
    unfold withContent at h
    simp only at h
    split at h
    · exact hf _ s' h
    · cases h

section

variable {Tag W σ τ : Type} {tagOf : XmlItem → Option Tag} {g : σ → τ}

/-- The work on the elements that are visited is done exactly if each of them meets its condition, with what the
elements before it leave. -/
theorem foldlM_work_isSome_iff {works : Tag → W} {work : σ → Option (List Char) → W → Option σ} {next : τ → W → τ}
    {ok : τ → Option (List Char) → W → Prop} (hok : ∀ s content w, (work s content w).isSome ↔ ok (g s) content w)
    (hnext : ∀ {s content w s'}, work s content w = some s' → g s' = next (g s) w) (l : List (XmlItem × XmlTree)) (s : σ) :
    (l.foldlM (fun s x => (tagOf x.1).elim (some s) fun tag => work s (readContentElement x.2) (works tag)) s).isSome ↔
      ∀ p x q tag, l = p ++ x :: q → tagOf x.1 = some tag →
        ok (p.foldl (fun n x => (tagOf x.1).elim n fun tag => next n (works tag)) (g s)) (readContentElement x.2)
          (works tag) := by
  refine (foldlM_isSome_iff g (fun n x => (tagOf x.1).elim n fun tag => next n (works tag))
    (fun n x => ∀ tag, tagOf x.1 = some tag → ok n (readContentElement x.2) (works tag)) ?_ ?_ l s).trans ?_
  · intro s x
    cases hx : tagOf x.1 with
    | none => simp
    | some tag => simpa using hok s (readContentElement x.2) (works tag)
  · intro s x s' hs
    cases hx : tagOf x.1 with
    | none =>
      rw [hx] at hs
      cases hs
      rfl
    | some =>
      rw [hx] at hs
      exact hnext hs
  · exact ⟨fun h p x q tag hl => h p x q hl tag, fun h p x q hl tag => h p x q tag hl⟩

/-- One more element with the tag, or another one. -/
theorem count_concat [DecidableEq Tag] {l : List (XmlItem × XmlTree)} {x : XmlItem × XmlTree} {tag : Tag}
    (hx : tagOf x.1 = some tag) (m : UInt8) (tag' : Tag) :
    (if tag = tag' then m + UInt8.ofNat (l.countP fun x => tagOf x.1 = some tag') + 1
      else m + UInt8.ofNat (l.countP fun x => tagOf x.1 = some tag')) =
      m + UInt8.ofNat ((l ++ [x]).countP fun x => tagOf x.1 = some tag') := by
  by_cases htag : tag = tag'
  · simp [hx, htag, add_assoc]
  · simp [hx, htag]

end

/-- The numbers of entries of the configuration. -/
structure CfgNums where
  iface : UInt8
  subnet : UInt8
  alg : UInt8

def IpacmConf.nums (c : IpacmConf) : CfgNums := ⟨c.iface.num, c.privateSubnet.num, c.alg.num⟩

/-- The condition on an element, by the numbers of entries before it. -/
def CfgWork.Ok (n : CfgNums) (content : Option (List Char)) : CfgWork → Prop
  | .descend | .newIface | .newSubnet | .newAlg => True
  | .routerMode _ | .natMax _ => ContentOk content fun _ => True
  | .ifaceName => ContentOk content fun buf => buf.length ≤ ifaceNameLen ∧ InTable ifaceEntriesMax n.iface
  | .iface f => ContentOk content fun buf => (f buf).isSome → InTable ifaceEntriesMax n.iface
  | .subnet _ => ContentOk content fun _ => InTable maxPrivateSubnetEntries n.subnet
  | .alg f => ContentOk content fun buf => (f buf).isSome → InTable maxAlgEntries n.alg

/-- The numbers of entries after an element. -/
def CfgWork.next (n : CfgNums) : CfgWork → CfgNums
  | .newIface => { n with iface := n.iface + 1 }
  | .newSubnet => { n with subnet := n.subnet + 1 }
  | .newAlg => { n with alg := n.alg + 1 }
  | _ => n

theorem elim_isSome {α σ : Type} {o : Option α} {s : σ} {f : α → Option σ} {P : Prop}
    (hf : ∀ a, (f a).isSome ↔ P) : (o.elim (some s) f).isSome ↔ (o.isSome → P) := by
  cases o with
  | none => simp
  | some a => simp [hf a]

theorem elim_keeps {α σ τ : Type} {g : σ → τ} {o : Option α} {s s' : σ} {f : α → Option σ}
    (hf : ∀ a s', f a = some s' → g s' = g s) (h : o.elim (some s) f = some s') : g s' = g s := by
  cases o with
  | none =>
    cases h
    rfl
  | some a => exact hf a s' h

namespace IpacmConf

variable {c c' : IpacmConf}

theorem modifyIface_isSome (f : IfaceEntry → IfaceEntry) :
    (c.modifyIface f).isSome ↔ InTable ifaceEntriesMax c.nums.iface := by
  rw [modifyIface, isSome_map]
  exact c.iface.modifyLast_isSome f

theorem modifySubnet_isSome (f : SubnetEntry → SubnetEntry) :
    (c.modifySubnet f).isSome ↔ InTable maxPrivateSubnetEntries c.nums.subnet := by
  rw [modifySubnet, isSome_map]
  exact c.privateSubnet.modifyLast_isSome f

theorem modifyAlg_isSome (f : AlgEntry → AlgEntry) : (c.modifyAlg f).isSome ↔ InTable maxAlgEntries c.nums.alg := by
  rw [modifyAlg, isSome_map]
  exact c.alg.modifyLast_isSome f

theorem nums_modifyIface {f : IfaceEntry → IfaceEntry} (h : c.modifyIface f = some c') : c'.nums = c.nums := by
  obtain ⟨t, ht, rfl⟩ := map_eq_some_iff.1 h
  simp only [nums, XmlTable.num_modifyLast ht]

theorem nums_modifySubnet {f : SubnetEntry → SubnetEntry} (h : c.modifySubnet f = some c') : c'.nums = c.nums := by
  obtain ⟨t, ht, rfl⟩ := map_eq_some_iff.1 h
  simp only [nums, XmlTable.num_modifyLast ht]

theorem nums_modifyAlg {f : AlgEntry → AlgEntry} (h : c.modifyAlg f = some c') : c'.nums = c.nums := by
  obtain ⟨t, ht, rfl⟩ := map_eq_some_iff.1 h
  simp only [nums, XmlTable.num_modifyLast ht]

theorem work_isSome (c : IpacmConf) (content : Option (List Char)) (w : CfgWork) :
    (c.work content w).isSome ↔ w.Ok c.nums content := by
  cases w with
  | descend | newIface | newSubnet | newAlg => exact iff_of_true rfl trivial
  | routerMode | natMax =>
    rw [work, CfgWork.Ok, withContent_isSome]
    intro buf
    simp
  | ifaceName =>
    rw [work, CfgWork.Ok, withContent_isSome]
    intro buf
    split_ifs with hle
    · rw [modifyIface_isSome]
      exact ⟨fun h => ⟨hle, h⟩, fun h => h.2⟩
    · exact iff_of_false (by simp) fun h => hle h.1
  | iface =>
    rw [work, CfgWork.Ok, withContent_isSome]
    intro buf
    exact elim_isSome modifyIface_isSome
  | subnet =>
    rw [work, CfgWork.Ok, withContent_isSome]
    intro buf
    exact modifySubnet_isSome _
  | alg =>
    rw [work, CfgWork.Ok, withContent_isSome]
    intro _
    exact elim_isSome modifyAlg_isSome

theorem nums_work {content : Option (List Char)} {w : CfgWork} (h : c.work content w = some c') :
    c'.nums = w.next c.nums := by
  cases w with
  | descend | newIface | newSubnet | newAlg =>
    cases h
    rfl
  | routerMode | natMax =>
    rw [work] at h
    refine withContent_keeps (g := nums) ?_ h
    rintro buf c' ⟨⟩
    rfl
  | ifaceName =>
    rw [work] at h
    refine withContent_keeps (g := nums) ?_ h
    intro buf c' hc
    split at hc
    · exact nums_modifyIface hc
    · cases hc
  | iface =>
    rw [work] at h
    exact withContent_keeps (g := nums) (fun buf c' => elim_keeps fun a c' => nums_modifyIface) h
  | subnet =>
    rw [work] at h
    exact withContent_keeps (g := nums) (fun buf c' => nums_modifySubnet) h
  | alg =>
    rw [work] at h
    exact withContent_keeps (g := nums) (fun buf c' => elim_keeps fun a c' => nums_modifyAlg) h

end IpacmConf

/-- The elements that are visited, in order. -/
def cfgVisits (t : XmlTree) : List (XmlItem × XmlTree) :=
  t.visits fun item => (cfgTagOf item).elim false CfgTag.descends

/-- The numbers of entries after some elements: one more for each element that begins an entry,
in eight bits. -/
def CfgNums.plus (n : CfgNums) (l : List (XmlItem × XmlTree)) : CfgNums where
  iface := n.iface + UInt8.ofNat (l.countP fun x => cfgTagOf x.1 = some .iface)
  subnet := n.subnet + UInt8.ofNat (l.countP fun x => cfgTagOf x.1 = some .subnet)
  alg := n.alg + UInt8.ofNat (l.countP fun x => cfgTagOf x.1 = some .alg)

/-- The condition on a tree: every element that is visited meets its condition, with the numbers
that the elements before it leave. -/
def CfgSafe (lib : XmlLib) (t : XmlTree) (n : CfgNums) : Prop :=
  ∀ p x q tag, cfgVisits t = p ++ x :: q → cfgTagOf x.1 = some tag →
    (cfgWork lib tag).Ok (n.plus p) (readContentElement x.2)

theorem cfgWork_next (lib : XmlLib) (tag : CfgTag) (n : CfgNums) :
    (cfgWork lib tag).next n = ⟨if tag = .iface then n.iface + 1 else n.iface,
      if tag = .subnet then n.subnet + 1 else n.subnet, if tag = .alg then n.alg + 1 else n.alg⟩ := by
  cases tag <;> rfl

theorem foldl_cfgNext (lib : XmlLib) (n : CfgNums) (l : List (XmlItem × XmlTree)) :
    l.foldl (fun n x => (cfgTagOf x.1).elim n fun tag => (cfgWork lib tag).next n) n = n.plus l := by
  induction l using List.reverseRecOn with
  | nil => simp [CfgNums.plus]
  | append_singleton l x ih =>
    rw [List.foldl_append, ih]
    cases hx : cfgTagOf x.1 with
    | none => simp [CfgNums.plus, hx]
    | some tag =>
      simp only [List.foldl_cons, List.foldl_nil, hx, elim_some, cfgWork_next]
      exact congr (congr (congrArg CfgNums.mk (count_concat hx _ _)) (count_concat hx _ _)) (count_concat hx _ _)

/-- **The configuration is read without leaving its tables exactly from trees that meet the
condition.** -/
theorem cfgParseTree_isSome_iff (lib : XmlLib) (t : XmlTree) (c : IpacmConf) :
    (ipacmCfgXmlParseTree lib t c).isSome ↔ CfgSafe lib t c.nums := by
  rw [ipacmCfgXmlParseTree, Forest.walk_eq_foldlM, CfgSafe]
  simp only [← foldl_cfgNext lib]
  exact foldlM_work_isSome_iff IpacmConf.work_isSome IpacmConf.nums_work (cfgVisits t) c

/-- The condition on an element of the firewall, by the number of entries before it. -/
def FwWork.Ok (n : UInt8) (content : Option (List Char)) : FwWork → Prop
  | .descend | .newEntry => True
  | .enable _ | .accept _ => ContentOk content fun _ => True
  | .flag _ => InTable maxFirewallEntries n
  | .entry _ => ContentOk content fun _ => InTable maxFirewallEntries n

/-- The number of entries after an element. -/
def FwWork.next (n : UInt8) : FwWork → UInt8
  | .newEntry => n + 1
  | _ => n

namespace FirewallXml

variable {c c' : FirewallXml}

def num (c : FirewallXml) : UInt8 := c.extdFirewall.num

theorem modifyEntry_isSome (f : FirewallEntry → FirewallEntry) :
    (c.modifyEntry f).isSome ↔ InTable maxFirewallEntries c.num := by
  rw [modifyEntry, isSome_map]
  exact c.extdFirewall.modifyLast_isSome f

theorem num_modifyEntry {f : FirewallEntry → FirewallEntry} (h : c.modifyEntry f = some c') : c'.num = c.num := by
  obtain ⟨t, ht, rfl⟩ := map_eq_some_iff.1 h
  exact XmlTable.num_modifyLast ht

theorem work_isSome (c : FirewallXml) (content : Option (List Char)) (w : FwWork) :
    (c.work content w).isSome ↔ w.Ok c.num content := by
  cases w with
  | descend | newEntry => exact iff_of_true rfl trivial
  | enable | accept =>
    rw [work, FwWork.Ok, withContent_isSome]
    intro buf
    simp
  | flag => exact modifyEntry_isSome _
  | entry =>
    rw [work, FwWork.Ok, withContent_isSome]
    intro _
    exact modifyEntry_isSome _

theorem num_work {content : Option (List Char)} {w : FwWork} (h : c.work content w = some c') :
    c'.num = w.next c.num := by
  cases w with
  | descend | newEntry =>
    cases h
    rfl
  | enable | accept =>
    rw [work] at h
    refine withContent_keeps (g := num) ?_ h
    rintro buf c' ⟨⟩
    rfl
  | flag => exact num_modifyEntry h
  | entry =>
    rw [work] at h
    exact withContent_keeps (g := num) (fun buf c' => num_modifyEntry) h

end FirewallXml

/-- The elements that are visited, in order. -/
def fwVisits (t : XmlTree) : List (XmlItem × XmlTree) :=
  t.visits fun item => (fwTagOf item).elim false FwTag.descends

/-- The number of entries after some elements, in eight bits. -/
def fwNum (n : UInt8) (l : List (XmlItem × XmlTree)) : UInt8 :=
  n + UInt8.ofNat (l.countP fun x => fwTagOf x.1 = some .firewall)

def FwSafe (lib : XmlLib) (t : XmlTree) (n : UInt8) : Prop :=
  ∀ p x q tag, fwVisits t = p ++ x :: q → fwTagOf x.1 = some tag →
    (fwWork lib tag).Ok (fwNum n p) (readContentElement x.2)

theorem fwWork_next (lib : XmlLib) (tag : FwTag) (n : UInt8) :
    (fwWork lib tag).next n = if tag = .firewall then n + 1 else n := by
  cases tag <;> rfl

theorem foldl_fwNext (lib : XmlLib) (n : UInt8) (l : List (XmlItem × XmlTree)) :
    l.foldl (fun n x => (fwTagOf x.1).elim n fun tag => (fwWork lib tag).next n) n = fwNum n l := by
  induction l using List.reverseRecOn with
  | nil => simp [fwNum]
  | append_singleton _ x ih =>
    rw [List.foldl_append, ih]
    cases hx : fwTagOf x.1 with
    | none => simp [fwNum, hx]
    | some tag =>
      simp only [List.foldl_cons, List.foldl_nil, hx, elim_some, fwWork_next]
      exact count_concat hx n .firewall

/-- **The firewall is read without leaving its table exactly from trees that meet the condition.** -/
theorem fwParseTree_isSome_iff (lib : XmlLib) (t : XmlTree) (c : FirewallXml) :
    (ipacmFirewallXmlParseTree lib t c).isSome ↔ FwSafe lib t c.num := by
  rw [ipacmFirewallXmlParseTree, Forest.walk_eq_foldlM, FwSafe]
  simp only [← foldl_fwNext lib]
  exact foldlM_work_isSome_iff FirewallXml.work_isSome FirewallXml.num_work (fwVisits t) c

/-- **Reading the two files.**  For every tree, each of the two functions stays inside its tables,
names and buffer if and only if the tree meets the condition. -/
theorem xml_exact (lib : XmlLib) (t : XmlTree) (c : IpacmConf) (fw : FirewallXml) :
    ((ipacmCfgXmlParseTree lib t c).isSome ↔ CfgSafe lib t c.nums) ∧
      ((ipacmFirewallXmlParseTree lib t fw).isSome ↔ FwSafe lib t fw.num) :=
  ⟨cfgParseTree_isSome_iff lib t c, fwParseTree_isSome_iff lib t fw⟩

/-- The configuration after `memset()`. -/
def zeroConf : IpacmConf :=
  ⟨⟨0, Vector.replicate _ ⟨List.replicate ifaceNameLen '\x00', .lan⟩⟩, ⟨0, Vector.replicate _ ⟨0, 0⟩⟩,
    ⟨0, Vector.replicate _ ⟨0, 0⟩⟩, 0, false⟩

/-- The firewall after `memset()`. -/
def zeroFirewall : FirewallXml := ⟨⟨0, Vector.replicate _ ⟨zeroAttrib, 0⟩⟩, false, false⟩

/-- An element with a text and nothing after it. -/
def leafNode (tag : String) (content : List Char) : XmlTree :=
  .node (.element tag.toList) (.node (.text content) .nil .nil) .nil

/-- Interfaces with nothing in them, and what comes after them. -/
def emptyIfaces : ℕ → XmlTree → XmlTree
  | 0, t => t
  | n + 1, t => .node (.element "Iface".toList) .nil (emptyIfaces n t)

/-- The values do not matter here. -/
def sampleXmlLib : XmlLib := ⟨fun _ => 4, fun _ => 0, fun _ _ => 0⟩

/-- A name that is in no interface, one after a 16th interface, one of 17 bytes, a text of 121
bytes, and an IP family that is in no entry of the firewall: all are written to a place outside. -/
theorem xml_fails : (ipacmCfgXmlParseTree sampleXmlLib (leafNode "Name" ['w']) zeroConf).isSome = false ∧
    (ipacmCfgXmlParseTree sampleXmlLib (emptyIfaces 16 (leafNode "Name" ['w'])) zeroConf).isSome = false ∧
    (ipacmCfgXmlParseTree sampleXmlLib
      (emptyIfaces 1 (leafNode "Name" (List.replicate 17 'w'))) zeroConf).isSome = false ∧
    (ipacmCfgXmlParseTree sampleXmlLib (leafNode "Mode" (List.replicate 121 'r')) zeroConf).isSome = false ∧
    (ipacmFirewallXmlParseTree sampleXmlLib (leafNode "IPFamily" ['4']) zeroFirewall).isSome = false := by
  decide +kernel

end G4Common.Ipacm

/-
The firewall rules of a WAN interface (`config_dft_firewall_rules()`,
`config_dft_firewall_rules_ex()`, `add_icmp_alg_rules()` and `config_wan_firewall_rule()`
of `ipacm/src/IPACM_Wan.cpp`).

The same configuration is turned into filter rules in two ways.  For a STA backhaul the
rules go to the kernel one by one, each with the attributes of the packets it is for.
For a modem backhaul they go to an array, each with an equation that the kernel has made
from the attributes.  The first rule that matches a packet decides whether it is
accelerated.

The two lists of rules decide in the same way, and as the configuration says
(`firewall_decision`).

A function is modelled as the list of its steps.  A step is a call of the kernel; if it
succeeds, a rule is added and arrays are accessed, and if it fails, the function
returns.  When the arrays are large enough is said in `FirewallArrays`.

What the kernel does with attributes and equations is not part of the repository.  A rule
tests the fields whose flags are set, and an equation does the same with addresses in
network order (`FltKernel`).
-/
import Mathlib
import G4Common.Ipacm.EthClients

namespace G4Common.Ipacm

open List Bool

/-! ### Attributes and packets -/

/-- The flags of `attrib_mask` that the program uses. -/
inductive FltFlag
  | tos | protocol | srcAddr | dstAddr | srcPortRange | dstPortRange | type | code | spi
  | srcPort | dstPort | tc | nextHdr | metaData
  deriving DecidableEq, Repr

def FltFlag.all : List FltFlag :=
  [.tos, .protocol, .srcAddr, .dstAddr, .srcPortRange, .dstPortRange, .type, .code, .spi,
    .srcPort, .dstPort, .tc, .nextHdr, .metaData]

theorem FltFlag.mem_all (f : FltFlag) : f ∈ FltFlag.all := by
  cases f <;> decide

/-- The member `v4` of `ipa_rule_attrib`. -/
structure V4Attrib where
  tos : UInt8
  protocol : UInt8
  srcAddr : UInt32
  srcAddrMask : UInt32
  dstAddr : UInt32
  dstAddrMask : UInt32

/-- The member `v6` of `ipa_rule_attrib`. -/
structure V6Attrib where
  tc : UInt8
  nextHdr : UInt8
  srcAddr : Ipv6Addr
  srcAddrMask : Ipv6Addr
  dstAddr : Ipv6Addr
  dstAddrMask : Ipv6Addr

/-- `ipa_rule_attrib`.  Of the union, only the member for the IP type of a rule is used. -/
structure RuleAttrib where
  attribMask : FltFlag → Bool
  srcPortLo : UInt16
  srcPortHi : UInt16
  dstPortLo : UInt16
  dstPortHi : UInt16
  type : UInt8
  code : UInt8
  spi : UInt32
  srcPort : UInt16
  dstPort : UInt16
  metaData : UInt32
  metaDataMask : UInt32
  v4 : V4Attrib
  v6 : V6Attrib

/-- What rules can see of a packet.  `proto` is the protocol of an IPv4 packet and the next
header of an IPv6 packet. -/
structure DlPacket where
  tos : UInt8
  proto : UInt8
  srcV4 : UInt32
  dstV4 : UInt32
  srcV6 : Ipv6Addr
  dstV6 : Ipv6Addr
  srcPort : UInt16
  dstPort : UInt16
  type : UInt8
  code : UInt8
  spi : UInt32
  metaData : UInt32

def maskEq (mask a b : UInt32) : Bool := a &&& mask = b &&& mask

/-- The test for a flag.  A flag of the other IP type says nothing. -/
def flagOk (a : RuleAttrib) (p : DlPacket) : IpType → FltFlag → Bool
  | .v4, .tos => a.v4.tos = p.tos
  | .v6, .tos => true
  | .v4, .protocol => a.v4.protocol = p.proto
  | .v6, .protocol => true
  | .v4, .srcAddr => maskEq a.v4.srcAddrMask p.srcV4 a.v4.srcAddr
  | .v6, .srcAddr => decide (∀ i, maskEq (a.v6.srcAddrMask i) (p.srcV6 i) (a.v6.srcAddr i))
  | .v4, .dstAddr => maskEq a.v4.dstAddrMask p.dstV4 a.v4.dstAddr
  | .v6, .dstAddr => decide (∀ i, maskEq (a.v6.dstAddrMask i) (p.dstV6 i) (a.v6.dstAddr i))
  | _, .srcPortRange => a.srcPortLo ≤ p.srcPort ∧ p.srcPort ≤ a.srcPortHi
  | _, .dstPortRange => a.dstPortLo ≤ p.dstPort ∧ p.dstPort ≤ a.dstPortHi
  | _, .type => a.type = p.type
  | _, .code => a.code = p.code
  | _, .spi => a.spi = p.spi
  | _, .srcPort => a.srcPort = p.srcPort
  | _, .dstPort => a.dstPort = p.dstPort
  | .v4, .tc => true
  | .v6, .tc => a.v6.tc = p.tos
  | .v4, .nextHdr => true
  | .v6, .nextHdr => a.v6.nextHdr = p.proto
  | _, .metaData => maskEq a.metaDataMask p.metaData a.metaData

/-- Attributes match a packet. -/
def attribMatches (ip : IpType) (a : RuleAttrib) (p : DlPacket) : Bool :=
  FltFlag.all.all fun f => !a.attribMask f || flagOk a p ip f

/-- `htonl()`, on a little-endian machine. -/
def htonl (x : UInt32) : UInt32 :=
  UInt32.ofNat (x.toNat % 256 * 16777216 + x.toNat / 256 % 256 * 65536 + x.toNat / 65536 % 256 * 256 +
    x.toNat / 16777216)

/-- An IPv6 address, word by word. -/
def htonlAddr (a : Ipv6Addr) : Ipv6Addr := fun i => htonl (a i)

/-- The addresses in network order. -/
def V6Attrib.networkOrder (a : V6Attrib) : V6Attrib :=
  { a with
    srcAddr := htonlAddr a.srcAddr
    srcAddrMask := htonlAddr a.srcAddrMask
    dstAddr := htonlAddr a.dstAddr
    dstAddrMask := htonlAddr a.dstAddrMask }

def changeToNetworkOrder (ip : IpType) (a : RuleAttrib) : RuleAttrib :=
  match ip with
  | .v4 => a
  | .v6 => { a with v6 := a.v6.networkOrder }

/-! ### Rules -/

/-- `ipa_flt_action`. -/
inductive FltAction
  | passToRouting | passToDstNat | passToException
  deriving DecidableEq, Repr

/-- The routing tables that rules lead to. -/
inductive RtTbl
  | lanV4 | wanV6 | wanDl
  deriving DecidableEq, Repr

/-- `ipa_flt_rule_add`, with equations of a type `E`.  With `eq_attrib_type`, the equation
stands for the attributes. -/
structure FltRule (E : Type*) where
  action : FltAction
  rtTbl : Option RtTbl
  attrib : RuleAttrib
  eqAttrib : Option E

/-- What the kernel makes of attributes with `IPA_IOC_GENERATE_FLT_EQ`: the equation
matches the packets that the attributes match, but it wants IPv6 addresses in network
order. -/
structure FltKernel (E : Type*) where
  generateFltEq : IpType → RuleAttrib → E
  eqMatches : E → DlPacket → Bool
  spec : ∀ ip a p, eqMatches (generateFltEq ip a) p = attribMatches ip (changeToNetworkOrder ip a) p

section

variable {E : Type*} (K : FltKernel E)

def ruleMatches (ip : IpType) (r : FltRule E) (p : DlPacket) : Bool :=
  match r.eqAttrib with
  | some q => K.eqMatches q p
  | none => attribMatches ip r.attrib p

/-- Packets that match a rule are accelerated.  The routing table `rt_tbl_wan_dl` leads to
the processor, as an exception does. -/
def FltRule.accelerates (r : FltRule E) : Bool :=
  match r.action with
  | .passToDstNat => true
  | .passToException => false
  | .passToRouting => r.rtTbl ≠ some .wanDl

/-- The first rule that matches decides. -/
def decision (ip : IpType) (l : List (FltRule E)) (p : DlPacket) : Option Bool :=
  (l.find? fun r => ruleMatches K ip r p).map FltRule.accelerates

end

/-! ### Configurations -/

/-- `IPACM_extd_firewall_entry_conf_t`. -/
structure FirewallEntry where
  attrib : RuleAttrib
  ipVsn : ℤ

/-- `IPACM_firewall_conf_t`. -/
structure FirewallConf where
  entries : List FirewallEntry
  ruleActionAccept : Bool
  firewallEnable : Bool

/-- `ipacm_alg`. -/
structure AlgPort where
  protocol : UInt8
  port : UInt16

/-- The attributes of the properties for receiving, `rx_prop->rx[0]` and `rx_prop->rx[1]`. -/
structure RxAttribs where
  rx0 : RuleAttrib
  rx1 : RuleAttrib

/-- `IPACM_FIREWALL_IPPROTO_TCP_UDP`. -/
def ipprotoTcpUdp : UInt8 := 253

/-- The version of the entries for an IP type. -/
def ipVersion : IpType → ℤ
  | .v4 => 4
  | .v6 => 6

/-- The protocol of an IPv4 rule, the next header of an IPv6 rule. -/
def RuleAttrib.proto (a : RuleAttrib) : IpType → UInt8
  | .v4 => a.v4.protocol
  | .v6 => a.v6.nextHdr

def RuleAttrib.setProto (a : RuleAttrib) (x : UInt8) : IpType → RuleAttrib
  | .v4 => { a with v4 := { a.v4 with protocol := x } }
  | .v6 => { a with v6 := { a.v6 with nextHdr := x } }

def RuleAttrib.setFlag (a : RuleAttrib) (f : FltFlag) : RuleAttrib :=
  { a with attribMask := Function.update a.attribMask f true }

/-- `attrib_mask &= ~IPA_FLT_META_DATA`. -/
def RuleAttrib.clearMeta (a : RuleAttrib) : RuleAttrib :=
  { a with attribMask := Function.update a.attribMask .metaData false }

def RuleAttrib.anyDst (a : RuleAttrib) : IpType → RuleAttrib
  | .v4 => { a.setFlag .dstAddr with v4 := { a.v4 with dstAddr := 0, dstAddrMask := 0 } }
  | .v6 =>
    { a.setFlag .dstAddr with v6 := { a.v6 with dstAddr := fun _ => 0, dstAddrMask := fun _ => 0 } }

/-- Attributes after `memset()`. -/
def zeroAttrib : RuleAttrib where
  attribMask := fun _ => false
  srcPortLo := 0
  srcPortHi := 0
  dstPortLo := 0
  dstPortHi := 0
  type := 0
  code := 0
  spi := 0
  srcPort := 0
  dstPort := 0
  metaData := 0
  metaDataMask := 0
  v4 := ⟨0, 0, 0, 0, 0, 0⟩
  v6 := ⟨0, 0, fun _ => 0, fun _ => 0, fun _ => 0, fun _ => 0⟩

/-- The attributes of an entry, with the meta data of the interface. -/
def entryAttrib (rx a : RuleAttrib) : RuleAttrib :=
  { a with
    attribMask := fun f => a.attribMask f || rx.attribMask f
    metaDataMask := rx.metaDataMask
    metaData := rx.metaData }

/-- "check if the rule is define as TCP_UDP, split into 2 rules". -/
def splitTcpUdp (ip : IpType) (a : RuleAttrib) : List RuleAttrib :=
  if a.proto ip = ipprotoTcpUdp then [a.setProto 6 ip, a.setProto 17 ip] else [a]

/-- The entries for an IP type. -/
def FirewallConf.entriesOf (c : FirewallConf) (ip : IpType) : List FirewallEntry :=
  c.entries.filter fun e => e.ipVsn = ipVersion ip

/-- The rules that an entry becomes, by their attributes. -/
def entryRules (rx : RuleAttrib) (ip : IpType) (e : FirewallEntry) : List RuleAttrib :=
  splitTcpUdp ip (entryAttrib rx e.attrib)

/-! ### Steps -/

/-- The arrays: `firewall_hdl_v4` and `_v6`, `flt_rule_v4` and `_v6`, `dft_wan_fl_hdl`, and the
rules of `m_pFilteringTable`. -/
inductive FwArray
  | firewallHdl (ip : IpType)
  | fltRule (ip : IpType)
  | dftWanFlHdl
  | filteringTable
  deriving DecidableEq, Repr

/-- An access to an array. -/
structure FwAccess where
  arr : FwArray
  idx : ℕ
  deriving DecidableEq, Repr

/-- A call of the kernel: what is accessed before it, and what is added and accessed if it
succeeds. -/
structure FwStep (E : Type*) where
  before : List FwAccess
  rule : Option (FltRule E)
  after : List FwAccess

section

variable {E : Type*} (K : FltKernel E) (c : FirewallConf) (rx : RxAttribs)

/-- The rules that the steps add. -/
def addedRules (steps : List (FwStep E)) : List (FltRule E) := steps.filterMap FwStep.rule

/-- `GetRoutingTable()`, or `IPA_IOC_QUERY_RT_TBL_INDEX`. -/
def queryStep : FwStep E := ⟨[], none, []⟩

/-! #### STA backhaul -/

/-- `AddFilteringRule()` with one rule. -/
def staStep (action : FltAction) (rt : Option RtTbl) (a : RuleAttrib) (after : List FwAccess) :
    FwStep E :=
  ⟨[⟨.filteringTable, 0⟩], some ⟨action, rt, a, none⟩, ⟨.filteringTable, 0⟩ :: after⟩

/-- The table and the action for what is accelerated. -/
def staAction : IpType → FltAction
  | .v4 => .passToDstNat
  | .v6 => .passToRouting

def staTbl : IpType → RtTbl
  | .v4 => .lanV4
  | .v6 => .wanV6

/-- The accesses for the rule with number `k`.  The message for an IPv4 rule reads the table
at `k`, not at 0. -/
def staAccesses : IpType → ℕ → List FwAccess
  | .v4, k => [⟨.filteringTable, k⟩, ⟨.firewallHdl .v4, k⟩]
  | .v6, k => [⟨.firewallHdl .v6, k⟩]

/-- The loop over the entries. -/
def staEntrySteps (ip : IpType) : List (FwStep E) :=
  if c.firewallEnable then
    ((c.entriesOf ip).flatMap (entryRules rx.rx0 ip)).mapIdx fun k a =>
      staStep (if c.ruleActionAccept then staAction ip else .passToException) (some (staTbl ip)) a
        (staAccesses ip k)
  else []

def staDefaultStep (ip : IpType) (idx : ℕ) : FwStep E :=
  staStep (if c.firewallEnable && c.ruleActionAccept then .passToException else staAction ip)
    (some (staTbl ip)) (rx.rx0.anyDst ip) [⟨.dftWanFlHdl, idx⟩]

def staIcmpStep : FwStep E :=
  staStep .passToException none ((rx.rx0.setFlag .nextHdr).setProto 58 .v6) [⟨.dftWanFlHdl, 2⟩]

/-- The rule for IPv6 fragments. -/
def staFragStep : FwStep E :=
  staStep .passToException none ((rx.rx0.setFlag .nextHdr).setProto 44 .v6) []

def configDftFirewallRules : IpType → List (FwStep E)
  | .v4 =>
    -- `rule_v4`: the entries for IPv4
    if (c.entries.filter fun e => e.ipVsn = 4) = [] then [queryStep, staDefaultStep c rx .v4 0]
    else [queryStep] ++ staEntrySteps c rx .v4 ++ [staDefaultStep c rx .v4 0]
  | .v6 =>
    (if c.firewallEnable then [staFragStep rx] else []) ++
      -- `rule_v6`: all other entries
      (if (c.entries.filter fun e => e.ipVsn ≠ 4) = [] then [staIcmpStep rx, queryStep, staDefaultStep c rx .v6 1]
      else [queryStep] ++ staEntrySteps c rx .v6 ++ [staIcmpStep rx, staDefaultStep c rx .v6 1])

/-! #### Modem backhaul -/

/-- A rule whose equation is made by the kernel. -/
def exRule (action : FltAction) (rt : RtTbl) (ip : IpType) (a : RuleAttrib) : FltRule E :=
  ⟨action, some rt, a, some (K.generateFltEq ip a)⟩

/-- A rule for what is accelerated, or for what is not. -/
def exFwRule (accel : Bool) (ip : IpType) (a : RuleAttrib) : FltRule E :=
  match ip, accel with
  | .v4, true => exRule K .passToDstNat .lanV4 .v4 a
  | .v4, false => exRule K .passToRouting .wanDl .v4 a
  | .v6, true => exRule K .passToRouting .wanV6 .v6 a
  | .v6, false => exRule K .passToRouting .wanDl .v6 a

/-- Store the rules from a position on; `none` is a call without a rule. -/
def storeRules (ip : IpType) : ℕ → List (Option (FltRule E)) → List (FwStep E)
  | _, [] => []
  | pos, none :: l => queryStep :: storeRules ip pos l
  | pos, some r :: l => ⟨[], some r, [⟨.fltRule ip, pos⟩]⟩ :: storeRules ip (pos + 1) l

/-- The attributes of the rule for IPv6 fragments. -/
def exFragAttrib : RuleAttrib :=
  ((entryAttrib rx.rx0 zeroAttrib).setFlag .nextHdr).setProto 44 .v6

/-- The attributes of the last rule. -/
def exDefaultAttrib : IpType → RuleAttrib
  | .v4 => rx.rx0.anyDst .v4
  | .v6 => rx.rx1.anyDst .v6

/-- The calls for an entry: the protocol is set after the change to network order. -/
def exEntryCalls (ip : IpType) (e : FirewallEntry) : List (Option (FltRule E)) :=
  let a := changeToNetworkOrder ip (entryAttrib rx.rx0 e.attrib)
  none ::
    (if e.attrib.proto ip = ipprotoTcpUdp then [a.setProto 6 ip, a.setProto 17 ip] else [a]).map
      fun a => some (exFwRule K c.ruleActionAccept ip a)

/-- The calls of `config_dft_firewall_rules_ex()`. -/
def exCalls (ip : IpType) : List (Option (FltRule E)) :=
  (if ip = .v6 ∧ c.firewallEnable then
    [none, some (exFwRule K false .v6 (changeToNetworkOrder .v6 (exFragAttrib rx)))] else []) ++
  (if c.firewallEnable then (c.entriesOf ip).flatMap (exEntryCalls K c rx ip) else []) ++
  [none, some (exFwRule K (!(c.firewallEnable && c.ruleActionAccept)) ip
    (changeToNetworkOrder ip (exDefaultAttrib rx ip)))]

def configDftFirewallRulesEx (offset : ℕ) (ip : IpType) : List (FwStep E) :=
  storeRules ip offset (exCalls K c rx ip)

/-- A rule for ICMP or for a port of a protocol. -/
def exPortRule (ip : IpType) (a : RuleAttrib) : FltRule E := exRule K .passToRouting .wanDl ip a

/-- The attributes of the rule for ICMP. -/
def exIcmpAttrib : IpType → RuleAttrib
  | .v4 => (rx.rx0.clearMeta.setFlag .protocol).setProto 1 .v4
  | .v6 => (rx.rx1.clearMeta.setFlag .nextHdr).setProto 58 .v6

/-- The attributes of the rule for a source port. -/
def algSrcAttrib (g : AlgPort) : RuleAttrib :=
  { ((rx.rx0.clearMeta.setFlag .srcPort).setFlag .protocol).setProto g.protocol .v4 with srcPort := g.port }

/-- The attributes of the rule for a destination port. -/
def algDstAttrib (g : AlgPort) : RuleAttrib :=
  { ((rx.rx0.clearMeta.setFlag .dstPort).setFlag .protocol).setProto g.protocol .v4 with dstPort := g.port }

/-- Store a rule at a position. -/
def exStep (ip : IpType) (a : RuleAttrib) (pos : ℕ) : FwStep E :=
  ⟨[], some (exPortRule K ip a), [⟨.fltRule ip, pos⟩]⟩

def addIcmpAlgRules (algs : List AlgPort) (offset : ℕ) : IpType → List (FwStep E)
  | .v4 =>
    [queryStep, exStep K .v4 (exIcmpAttrib rx .v4) offset] ++
      (algs.mapIdx fun i g => exStep K .v4 (algSrcAttrib rx g) (offset + 1 + i)) ++
      (algs.mapIdx fun i g => exStep K .v4 (algDstAttrib rx g) (offset + algs.length + 1 + i))
  | .v6 => [queryStep, exStep K .v6 (exIcmpAttrib rx .v6) offset]

/-- `IPA_V2_NUM_DEFAULT_WAN_FILTER_RULE_IPV4` and `_IPV6`, with and without
`FEATURE_IPA_ANDROID`. -/
def numDefaultWanFilterRule (android : Bool) : IpType → ℕ
  | .v4 => 2
  | .v6 => if android then 6 else 3

/-- `config_wan_firewall_rule()`: the offset is the number of rules so far. -/
def configWanFirewallRule (android : Bool) (algs : List AlgPort) (ip : IpType) : List (FwStep E) :=
  let n := numDefaultWanFilterRule android ip
  let icmpAlg := addIcmpAlgRules K rx algs n ip
  icmpAlg ++ configDftFirewallRulesEx K c rx (n + (addedRules icmpAlg).length) ip

end

/-! ### What the configuration says -/

/-- An entry matches a packet, by the fields of the packet itself. -/
def headerMatches (ip : IpType) (a : RuleAttrib) (p : DlPacket) : Bool :=
  FltFlag.all.all fun f => !a.attribMask f || f = .metaData || flagOk a p ip f

/-- An entry for TCP and UDP matches either. -/
def entryMatches (ip : IpType) (e : FirewallEntry) (p : DlPacket) : Bool :=
  if e.attrib.proto ip = ipprotoTcpUdp then
    headerMatches ip (e.attrib.setProto 6 ip) p || headerMatches ip (e.attrib.setProto 17 ip) p
  else headerMatches ip e.attrib p

/-- Whether a packet is accelerated.  With a firewall, it is if an entry matches it and
matches are accepted, or if none does and they are not, but a fragment of an IPv6 packet
never is. -/
def FirewallConf.accelerates (c : FirewallConf) (ip : IpType) (p : DlPacket) : Bool :=
  if c.firewallEnable then
    if ip = .v6 ∧ p.proto = 44 then false
    else ((c.entriesOf ip).any fun e => entryMatches ip e p) = c.ruleActionAccept
  else true

/-- A packet arrives at an interface: the properties for receiving test the meta data only,
and the packet has them. -/
structure Arrives (rx : RuleAttrib) (p : DlPacket) : Prop where
  metaOnly : ∀ f, rx.attribMask f = true → f = .metaData
  carries : maskEq rx.metaDataMask p.metaData rx.metaData = true

/-! ### Matching -/

section

variable {ip : IpType} {a rx : RuleAttrib} {p : DlPacket}

theorem attribMatches_iff : attribMatches ip a p ↔ ∀ f, a.attribMask f → flagOk a p ip f = true := by
  unfold attribMatches
  rw [all_eq_true]
  constructor
  · intro h f hf
    have := h f f.mem_all
    rw [hf] at this
    exact this
  intro h f _
  cases hf : a.attribMask f with
  | false => rfl
  | true => exact h f hf

theorem headerMatches_iff : headerMatches ip a p ↔
      ∀ f, a.attribMask f → f ≠ .metaData → flagOk a p ip f = true := by
  unfold headerMatches
  rw [all_eq_true]
  constructor
  · intro h f hf hne
    have := h f f.mem_all
    simpa [hf, hne] using this
  intro h f _
  cases hf : a.attribMask f with
  | false => rfl
  | true =>
    by_cases hne : f = .metaData
    · simp [hne]
    · simp [h f hf hne]

theorem htonl_bytes {x : UInt32} {b0 b1 b2 b3 : ℕ} (h0 : b0 < 256) (h1 : b1 < 256) (h2 : b2 < 256)
    (h3 : b3 < 256) (hx : x.toNat = b0 + b1 * 256 + b2 * 65536 + b3 * 16777216) :
    (htonl x).toNat = b3 + b2 * 256 + b1 * 65536 + b0 * 16777216 := by
  have e0 : x.toNat % 256 = b0 := by omega
  have e1 : x.toNat / 256 % 256 = b1 := by omega
  have e2 : x.toNat / 65536 % 256 = b2 := by omega
  have e3 : x.toNat / 16777216 = b3 := by omega
  rw [htonl, e0, e1, e2, e3, UInt32.toNat_ofNat_of_lt']
  · omega
  · show _ < 4294967296
    omega

theorem htonl_htonl (x : UInt32) : htonl (htonl x) = x := by
  have hx : x.toNat < 4294967296 := x.toNat_lt
  have hbytes : x.toNat = x.toNat % 256 + x.toNat / 256 % 256 * 256 + x.toNat / 65536 % 256 * 65536 +
      x.toNat / 16777216 * 16777216 := by omega
  have hlt : ∀ n, n % 256 < 256 := fun n => Nat.mod_lt n (by decide)
  have h3 : x.toNat / 16777216 < 256 := by omega
  have hswap := htonl_bytes (hlt _) (hlt _) (hlt _) h3 hbytes
  have hback := htonl_bytes h3 (hlt _) (hlt _) (hlt _) hswap
  exact UInt32.toNat_inj.mp (hback.trans hbytes.symm)

theorem htonlAddr_htonlAddr (x : Ipv6Addr) : htonlAddr (htonlAddr x) = x := funext fun i => htonl_htonl (x i)

theorem V6Attrib.networkOrder_twice (x : V6Attrib) : x.networkOrder.networkOrder = x := by
  unfold V6Attrib.networkOrder
  simp only [htonlAddr_htonlAddr]

theorem changeToNetworkOrder_v6 (a : RuleAttrib) :
    changeToNetworkOrder .v6 a = { a with v6 := a.v6.networkOrder } := rfl

theorem RuleAttrib.set_v6_self (a : RuleAttrib) {y : V6Attrib} (h : y = a.v6) :
    ({ a with v6 := y } : RuleAttrib) = a := by
  subst h
  rfl

theorem changeToNetworkOrder_twice : changeToNetworkOrder ip (changeToNetworkOrder ip a) = a := by
  cases ip with
  | v4 => rfl
  | v6 =>
    rw [changeToNetworkOrder_v6, changeToNetworkOrder_v6]
    exact a.set_v6_self (V6Attrib.networkOrder_twice a.v6)

theorem setProto_changeToNetworkOrder (x : UInt8) :
    (changeToNetworkOrder ip a).setProto x ip = changeToNetworkOrder ip (a.setProto x ip) := by
  cases ip with
  | v4 | v6 => rfl

theorem setProto_entryAttrib (x : UInt8) : (entryAttrib rx a).setProto x ip = entryAttrib rx (a.setProto x ip) := by
  cases ip with
  | v4 | v6 => rfl

theorem proto_entryAttrib : (entryAttrib rx a).proto ip = a.proto ip := by
  cases ip with
  | v4 | v6 => rfl

theorem flagOk_entryAttrib {f : FltFlag} (hf : f ≠ .metaData) : flagOk (entryAttrib rx a) p ip f = flagOk a p ip f := by
  cases ip with
  | v4 | v6 => cases f <;> first | rfl | exact absurd rfl hf

theorem flagOk_metaData : flagOk a p ip .metaData = maskEq a.metaDataMask p.metaData a.metaData := by
  cases ip with
  | v4 | v6 => rfl

theorem attribMatches_entryAttrib (h : Arrives rx p) :
    attribMatches ip (entryAttrib rx a) p = headerMatches ip a p := by
  rw [Bool.eq_iff_iff, attribMatches_iff, headerMatches_iff]
  constructor
  · intro hall f hf hne
    rw [← flagOk_entryAttrib hne]
    exact hall f (by simp [entryAttrib, hf])
  intro hall f hf
  by_cases hne : f = .metaData
  · rw [hne, flagOk_metaData]
    exact h.carries
  rw [flagOk_entryAttrib hne]
  refine hall f ?_ hne
  -- the interface adds no other flag
  rcases or_eq_true_iff.mp hf with hf | hf
  · exact hf
  · exact absurd (h.metaOnly f hf) hne

theorem attribMatches_anyDst (h : Arrives rx p) : attribMatches ip (rx.anyDst ip) p = true := by
  rw [attribMatches_iff]
  intro f hf
  by_cases hdst : f = .dstAddr
  · subst hdst
    cases ip with
    | v4 | v6 => simp [flagOk, RuleAttrib.anyDst, maskEq]
  have hrx : rx.attribMask f = true := by
    cases ip with
    | v4 | v6 => simpa [RuleAttrib.anyDst, RuleAttrib.setFlag, hdst] using hf
  rw [h.metaOnly f hrx, flagOk_metaData]
  cases ip with
  | v4 | v6 => exact h.carries

theorem attribMatches_nextHdr (h : ∀ f, a.attribMask f → f = .metaData)
    (hmeta : a.attribMask .metaData → maskEq a.metaDataMask p.metaData a.metaData)
    (x : UInt8) : attribMatches .v6 ((a.setFlag .nextHdr).setProto x .v6) p = decide (x = p.proto) := by
  rw [Bool.eq_iff_iff, attribMatches_iff, decide_eq_true_eq]
  constructor
  · intro hall
    have := hall .nextHdr (by simp [RuleAttrib.setProto, RuleAttrib.setFlag])
    exact of_decide_eq_true this
  intro hx f hf
  by_cases hn : f = .nextHdr
  · subst hn
    exact decide_eq_true hx
  have hfa : a.attribMask f = true := by
    simpa [RuleAttrib.setProto, RuleAttrib.setFlag, hn] using hf
  obtain rfl := h f hfa
  exact hmeta hfa

end

/-! ### Decisions -/

section

variable {E : Type*} {K : FltKernel E} {c : FirewallConf} {rx : RxAttribs} {ip : IpType} {p : DlPacket}
  {l l' : List (FltRule E)} {a : RuleAttrib}

theorem decision_cons {r : FltRule E} :
    decision K ip (r :: l) p = if ruleMatches K ip r p then some r.accelerates else decision K ip l p := by
  unfold decision
  rw [find?_cons]
  cases ruleMatches K ip r p with
  | true | false => rfl

theorem decision_skip (h : ∀ r ∈ l, ruleMatches K ip r p = false) : decision K ip (l ++ l') p = decision K ip l' p := by
  induction l with
  | nil => rfl
  | cons r _ ih =>
    rw [cons_append, decision_cons, h r mem_cons_self, if_neg Bool.false_ne_true]
    exact ih fun r hr => h r (mem_cons_of_mem _ hr)

theorem decision_block {b : Bool} (h : ∀ r ∈ l, r.accelerates = b) : decision K ip (l ++ l') p =
      if l.any (fun r => ruleMatches K ip r p) then some b else decision K ip l' p := by
  induction l with
  | nil => rfl
  | cons r _ ih =>
    rw [cons_append, decision_cons, any_cons, ih fun r hr => h r (mem_cons_of_mem _ hr)]
    cases ruleMatches K ip r p with
    | true => rw [h r mem_cons_self]; rfl
    | false => rfl

/-! The rules of the steps. -/

theorem addedRules_append {s t : List (FwStep E)} : addedRules (s ++ t) = addedRules s ++ addedRules t :=
  filterMap_append

theorem addedRules_mapIdx {α : Type*} {as : List α} {f : ℕ → α → FwStep E} {g : α → FltRule E}
    (h : ∀ k x, (f k x).rule = some (g x)) : addedRules (as.mapIdx f) = as.map g := by
  induction as generalizing f with
  | nil => rfl
  | cons x _ ih =>
    rw [mapIdx_cons, map_cons]
    show filterMap FwStep.rule (f 0 x :: _) = _
    rw [filterMap_cons_some (h 0 x)]
    exact congrArg _ (ih fun k y => h (k + 1) y)

theorem addedRules_storeRules {calls : List (Option (FltRule E))} {pos : ℕ} :
    addedRules (storeRules ip pos calls) = calls.filterMap id := by
  induction calls generalizing pos with
  | nil => rfl
  | cons r _ ih =>
    cases r with
    | none => exact ih
    | some r => exact congrArg (r :: ·) ih

/-! The rules for a modem match as those for a STA. -/

theorem ruleMatches_exRule {action : FltAction} {rt : RtTbl} :
    ruleMatches K ip (exRule K action rt ip (changeToNetworkOrder ip a)) p = attribMatches ip a p := by
  show K.eqMatches _ p = _
  rw [K.spec, changeToNetworkOrder_twice]

theorem ruleMatches_exFwRule {accel : Bool} :
    ruleMatches K ip (exFwRule K accel ip (changeToNetworkOrder ip a)) p = attribMatches ip a p := by
  cases ip with
  | v4 | v6 => cases accel <;> exact ruleMatches_exRule

theorem accelerates_exFwRule {accel : Bool} : (exFwRule K accel ip a).accelerates = accel := by
  cases ip with
  | v4 | v6 => cases accel <;> rfl

theorem accelerates_sta {accel : Bool} {eq : Option E} :
    (FltRule.mk (if accel then staAction ip else .passToException) (some (staTbl ip)) a eq).accelerates =
      accel := by
  cases ip with
  | v4 | v6 => cases accel <;> rfl

/-! The entries. -/

theorem entryRules_any {rx : RuleAttrib} (h : Arrives rx p) (e : FirewallEntry) :
    (entryRules rx ip e).any (fun a => attribMatches ip a p) = entryMatches ip e p := by
  unfold entryRules splitTcpUdp entryMatches
  rw [proto_entryAttrib]
  split
  · rw [setProto_entryAttrib, setProto_entryAttrib, any_cons, any_cons, any_nil,
      attribMatches_entryAttrib h, attribMatches_entryAttrib h, Bool.or_false]
  · rw [any_cons, any_nil, attribMatches_entryAttrib h, Bool.or_false]

theorem exEntryCalls_eq (e : FirewallEntry) : (exEntryCalls K c rx ip e).filterMap id =
      (entryRules rx.rx0 ip e).map fun a =>
        exFwRule K c.ruleActionAccept ip (changeToNetworkOrder ip a) := by
  unfold exEntryCalls entryRules splitTcpUdp
  rw [proto_entryAttrib]
  split
  · simp [setProto_changeToNetworkOrder]
  · simp

/-- Some entry for the IP type matches. -/
def anyEntryMatches (c : FirewallConf) (ip : IpType) (p : DlPacket) : Bool :=
  (c.entriesOf ip).any fun e => entryMatches ip e p

theorem staEntries_decision (h : Arrives rx.rx0 p) (hen : c.firewallEnable) :
    decision K ip (addedRules (staEntrySteps c rx ip) ++ l) p =
      if anyEntryMatches c ip p then some c.ruleActionAccept else decision K ip l p := by
  rw [staEntrySteps, if_pos hen, addedRules_mapIdx fun _ _ => rfl]
  rw [decision_block (b := c.ruleActionAccept)]
  · rw [any_map, any_flatMap]
    refine if_congr (iff_of_eq (congrArg (· = true) ?_)) rfl rfl
    exact any_congr rfl fun e => entryRules_any h e
  · intro r hr
    obtain ⟨a, -, rfl⟩ := mem_map.mp hr
    exact accelerates_sta

theorem staEntries_none (h : c.entriesOf ip = []) : addedRules (staEntrySteps c rx ip : List (FwStep E)) = [] := by
  unfold staEntrySteps
  rw [h]
  split <;> rfl

theorem staEntries_disabled (h : c.firewallEnable = false) :
    addedRules (staEntrySteps c rx ip : List (FwStep E)) = [] := by
  rw [staEntrySteps, h]
  rfl

theorem exEntries_decision (h : Arrives rx.rx0 p) :
    decision K ip (((c.entriesOf ip).flatMap (exEntryCalls K c rx ip)).filterMap id ++ l) p =
      if anyEntryMatches c ip p then some c.ruleActionAccept else decision K ip l p := by
  rw [filterMap_flatMap]
  rw [decision_block (b := c.ruleActionAccept)]
  · rw [any_flatMap]
    refine if_congr (iff_of_eq (congrArg (· = true) ?_)) rfl rfl
    refine any_congr rfl fun e => ?_
    rw [exEntryCalls_eq, any_map, ← entryRules_any h]
    exact any_congr rfl fun a => ruleMatches_exFwRule
  intro r hr
  obtain ⟨e, -, hr⟩ := mem_flatMap.mp hr
  rw [exEntryCalls_eq] at hr
  obtain ⟨a, -, rfl⟩ := mem_map.mp hr
  exact accelerates_exFwRule

theorem staDefault_decision (h : Arrives rx.rx0 p) (idx : ℕ) :
    decision K ip (addedRules [staDefaultStep c rx ip idx]) p =
      some (!(c.firewallEnable && c.ruleActionAccept)) := by
  show decision K ip [_] p = _
  rw [decision_cons]
  have hmatch : attribMatches ip (rx.rx0.anyDst ip) p = true := attribMatches_anyDst h
  rw [ruleMatches, if_pos hmatch]
  cases c.firewallEnable && c.ruleActionAccept with
  | true => rfl
  | false => cases ip <;> rfl

theorem exDefault_decision (h0 : Arrives rx.rx0 p) (h1 : Arrives rx.rx1 p) (accel : Bool) :
    decision K ip [exFwRule K accel ip (changeToNetworkOrder ip (exDefaultAttrib rx ip))] p =
      some accel := by
  rw [decision_cons, ruleMatches_exFwRule, accelerates_exFwRule]
  have hmatch : attribMatches ip (exDefaultAttrib rx ip) p = true := by
    cases ip with
    | v4 => exact attribMatches_anyDst h0
    | v6 => exact attribMatches_anyDst h1
  rw [if_pos hmatch]

theorem staIcmp_decision (h : Arrives rx.rx0 p) (hicmp : 58 ≠ p.proto) {t : List (FwStep E)} :
    decision K .v6 (addedRules (staIcmpStep rx :: t)) p = decision K .v6 (addedRules t) p := by
  show decision K .v6 (_ :: addedRules t) p = _
  rw [decision_cons]
  have hno : attribMatches .v6 ((rx.rx0.setFlag .nextHdr).setProto 58 .v6) p = false := by
    rw [attribMatches_nextHdr h.metaOnly (fun _ => h.carries)]
    exact decide_eq_false hicmp
  exact if_neg (by rw [ruleMatches, hno]; exact false_ne_true)

theorem staFrag_decision (h : Arrives rx.rx0 p) {t : List (FwStep E)} :
    decision K .v6 (addedRules (staFragStep rx :: t)) p =
      if p.proto = 44 then some false else decision K .v6 (addedRules t) p := by
  show decision K .v6 (_ :: addedRules t) p = _
  rw [decision_cons]
  have hmatch := attribMatches_nextHdr h.metaOnly (fun _ => h.carries) 44
  refine if_congr ?_ rfl rfl
  rw [ruleMatches, hmatch, decide_eq_true_eq]
  exact eq_comm

theorem exFrag_decision (h : Arrives rx.rx0 p) :
    decision K .v6 (exFwRule K false .v6 (changeToNetworkOrder .v6 (exFragAttrib rx)) :: l) p =
      if p.proto = 44 then some false else decision K .v6 l p := by
  rw [decision_cons, ruleMatches_exFwRule, accelerates_exFwRule]
  have hmatch : attribMatches .v6 (exFragAttrib rx) p = decide (44 = p.proto) :=
    attribMatches_nextHdr (a := entryAttrib rx.rx0 zeroAttrib)
      (fun f hf => h.metaOnly f (by simpa [entryAttrib, zeroAttrib] using hf)) (fun _ => h.carries) 44
  refine if_congr ?_ rfl rfl
  rw [hmatch, decide_eq_true_eq]
  exact eq_comm

end

/-! ### The two functions -/

section

variable {E : Type*} {K : FltKernel E} {c : FirewallConf} {rx : RxAttribs} {ip : IpType} {p : DlPacket}

theorem accelerates_of_enabled (hen : c.firewallEnable) (hfrag : ¬ (ip = .v6 ∧ p.proto = 44)) :
    (if anyEntryMatches c ip p then some c.ruleActionAccept
      else some (!(c.firewallEnable && c.ruleActionAccept))) = some (c.accelerates ip p) := by
  rw [FirewallConf.accelerates, if_pos hen, if_neg hfrag, hen]
  show _ = some (decide (anyEntryMatches c ip p = c.ruleActionAccept))
  cases anyEntryMatches c ip p <;> cases c.ruleActionAccept <;> rfl

theorem sta_decision_v4 (h : Arrives rx.rx0 p) :
    decision K .v4 (addedRules (configDftFirewallRules c rx .v4)) p = some (c.accelerates .v4 p) := by
  -- without entries for IPv4 the loop adds nothing
  have hrules : addedRules (configDftFirewallRules c rx .v4 : List (FwStep E)) =
      addedRules (staEntrySteps c rx .v4) ++ addedRules [staDefaultStep c rx .v4 0] := by
    rw [configDftFirewallRules]
    split_ifs with hnil
    · have hnone : c.entriesOf .v4 = [] := hnil
      rw [staEntries_none hnone]
      rfl
    · rw [addedRules_append, addedRules_append]
      rfl
  rw [hrules]
  cases hen : c.firewallEnable with
  | false =>
    rw [staEntries_disabled hen, nil_append, staDefault_decision h, hen, FirewallConf.accelerates, hen]
    rfl
  | true =>
    rw [staEntries_decision h hen, staDefault_decision h]
    exact accelerates_of_enabled hen (by simp)

theorem sta_decision_v6 (h : Arrives rx.rx0 p) (hicmp : 58 ≠ p.proto) :
    decision K .v6 (addedRules (configDftFirewallRules c rx .v6)) p = some (c.accelerates .v6 p) := by
  have hrules : addedRules (configDftFirewallRules c rx .v6 : List (FwStep E)) =
      addedRules (if c.firewallEnable then [staFragStep rx] else []) ++
        (addedRules (staEntrySteps c rx .v6) ++
          addedRules [staIcmpStep rx, staDefaultStep c rx .v6 1]) := by
    rw [configDftFirewallRules, addedRules_append]
    congr 1
    split_ifs with hnil
    · have hnone : c.entriesOf .v6 = [] := by
        refine filter_eq_nil_iff.mpr fun e he => ?_
        have hne := filter_eq_nil_iff.mp hnil e he
        have h4 : e.ipVsn = 4 := by simpa using hne
        simp [ipVersion, h4]
      rw [staEntries_none hnone]
      rfl
    · rw [addedRules_append, addedRules_append]
      rfl
  have hrest : decision K .v6 (addedRules [staIcmpStep rx, staDefaultStep c rx .v6 1]) p =
      some (!(c.firewallEnable && c.ruleActionAccept)) := by
    rw [staIcmp_decision h hicmp, staDefault_decision h]
  rw [hrules]
  cases hen : c.firewallEnable with
  | false =>
    rw [staEntries_disabled hen]
    show decision K .v6 (addedRules [staIcmpStep rx, staDefaultStep c rx .v6 1]) p = _
    rw [hrest, hen, FirewallConf.accelerates, hen]
    rfl
  | true =>
    rw [if_pos rfl, ← addedRules_append, ← addedRules_append, singleton_append, staFrag_decision h]
    by_cases hfrag : p.proto = 44
    · rw [if_pos hfrag, FirewallConf.accelerates, if_pos hen, if_pos ⟨rfl, hfrag⟩]
    · rw [if_neg hfrag, addedRules_append, staEntries_decision h hen, hrest]
      exact accelerates_of_enabled hen fun hv6 => hfrag hv6.2

theorem ex_decision (h0 : Arrives rx.rx0 p) (h1 : Arrives rx.rx1 p) (offset : ℕ) :
    decision K ip (addedRules (configDftFirewallRulesEx K c rx offset ip)) p =
      some (c.accelerates ip p) := by
  rw [configDftFirewallRulesEx, addedRules_storeRules, exCalls, filterMap_append, filterMap_append]
  show decision K ip (_ ++ _ ++ [_]) p = _
  cases hen : c.firewallEnable with
  | false =>
    rw [if_neg (by simp), if_neg (by simp)]
    show decision K ip [_] p = _
    rw [exDefault_decision h0 h1, FirewallConf.accelerates, hen]
    rfl
  | true =>
    rw [if_pos rfl]
    have hentries : decision K ip (((c.entriesOf ip).flatMap (exEntryCalls K c rx ip)).filterMap id ++
        [exFwRule K (!(true && c.ruleActionAccept)) ip (changeToNetworkOrder ip (exDefaultAttrib rx ip))]) p =
        if anyEntryMatches c ip p then some c.ruleActionAccept
          else some (!(c.firewallEnable && c.ruleActionAccept)) := by
      rw [exEntries_decision h0, exDefault_decision h0 h1, hen]
    rw [append_assoc]
    cases ip with
    | v4 =>
      rw [if_neg (by simp)]
      exact hentries.trans (accelerates_of_enabled hen (by simp))
    | v6 =>
      rw [if_pos ⟨rfl, rfl⟩]
      show decision K .v6 (_ :: _) p = _
      rw [exFrag_decision h0]
      by_cases hfrag : p.proto = 44
      · rw [if_pos hfrag, FirewallConf.accelerates, if_pos hen, if_pos ⟨rfl, hfrag⟩]
      · rw [if_neg hfrag]
        exact hentries.trans (accelerates_of_enabled hen fun hv6 => hfrag hv6.2)

theorem not_icmp6 (h : Arrives rx.rx1 p)
    (hno : ruleMatches K .v6 (exPortRule K .v6 (exIcmpAttrib rx .v6)) p = false) : 58 ≠ p.proto := by
  have hmatch : ruleMatches K .v6 (exPortRule K .v6 (exIcmpAttrib rx .v6)) p = decide (58 = p.proto) := by
    show K.eqMatches (K.generateFltEq .v6 (exIcmpAttrib rx .v6)) p = _
    rw [K.spec]
    exact attribMatches_nextHdr (a := changeToNetworkOrder .v6 rx.rx1.clearMeta) (fun f hf => by
        by_cases hm : f = .metaData
        · exact hm
        · exact h.metaOnly f (by simpa [changeToNetworkOrder, RuleAttrib.clearMeta, hm] using hf))
      (fun hm => absurd hm (by simp [changeToNetworkOrder, RuleAttrib.clearMeta])) 58
  rw [hmatch] at hno
  exact of_decide_eq_false hno

/-- **The rules for a STA backhaul and those for a modem backhaul decide as the
configuration says**, for every packet that arrives and is not matched by a rule before
the firewall. -/
theorem firewall_decision (h0 : Arrives rx.rx0 p) (h1 : Arrives rx.rx1 p)
    (android : Bool) (algs : List AlgPort) (dftSta dftEx : List (FltRule E))
    (hsta : ∀ r ∈ dftSta, ruleMatches K ip r p = false)
    (hex : ∀ r ∈ dftEx ++ addedRules (addIcmpAlgRules K rx algs (numDefaultWanFilterRule android ip) ip),
      ruleMatches K ip r p = false) :
    decision K ip (dftSta ++ addedRules (configDftFirewallRules c rx ip)) p =
        some (c.accelerates ip p) ∧
      decision K ip (dftEx ++ addedRules (configWanFirewallRule K c rx android algs ip)) p =
        some (c.accelerates ip p) := by
  constructor
  · rw [decision_skip hsta]
    cases ip with
    | v4 => exact sta_decision_v4 h0
    | v6 => exact sta_decision_v6 h0 (not_icmp6 h1 (hex _ (mem_append_right _ mem_cons_self)))
  · rw [configWanFirewallRule, addedRules_append, ← append_assoc, decision_skip hex]
    exact ex_decision h0 h1 _

end

/-- A kernel whose equations are the attributes themselves. -/
def sampleFltKernel : FltKernel (IpType × RuleAttrib) where
  generateFltEq ip a := (ip, a)
  eqMatches q p := attribMatches q.1 (changeToNetworkOrder q.1 q.2) p
  spec _ _ _ := rfl

def sampleRx : RxAttribs :=
  let rx := { zeroAttrib.setFlag .metaData with metaData := 1, metaDataMask := 255 }
  ⟨rx, rx⟩

/-- Only port 80 of TCP and UDP is accepted. -/
def sampleFwConf : FirewallConf where
  entries :=
    [⟨{ ((zeroAttrib.setFlag .dstPort).setFlag .protocol).setProto 253 .v4 with dstPort := 80 }, 4⟩]
  ruleActionAccept := true
  firewallEnable := true

/-- A packet to a port of UDP. -/
def samplePacket (port : UInt16) : DlPacket where
  tos := 0
  proto := 17
  srcV4 := 1
  dstV4 := 2
  srcV6 := fun _ => 0
  dstV6 := fun _ => 0
  srcPort := 1000
  dstPort := port
  type := 0
  code := 0
  spi := 0
  metaData := 1

theorem sample_arrives (port : UInt16) :
    Arrives sampleRx.rx0 (samplePacket port) ∧ Arrives sampleRx.rx1 (samplePacket port) := by
  have h : Arrives sampleRx.rx0 (samplePacket port) := by
    refine ⟨fun f hf => ?_, show maskEq 255 1 1 = true by decide⟩
    by_contra hne
    simp [sampleRx, RuleAttrib.setFlag, zeroAttrib, hne] at hf
  exact ⟨h, h⟩

/-- A packet to port 80 is accelerated, in spite of a rule for port 21. -/
theorem firewall_decision_sample :
    decision sampleFltKernel .v4 (addedRules (configDftFirewallRules sampleFwConf sampleRx .v4))
        (samplePacket 80) = some true ∧
      decision sampleFltKernel .v4
        (addedRules (configWanFirewallRule sampleFltKernel sampleFwConf sampleRx true [⟨6, 21⟩] .v4))
        (samplePacket 80) = some true := by
  have hex : ∀ r ∈ [] ++ addedRules (addIcmpAlgRules sampleFltKernel sampleRx [⟨6, 21⟩]
      (numDefaultWanFilterRule true .v4) .v4),
      ruleMatches sampleFltKernel .v4 r (samplePacket 80) = false := by
    decide
  exact firewall_decision (c := sampleFwConf) (sample_arrives 80).1 (sample_arrives 80).2 true _ [] []
    nofun hex

end G4Common.Ipacm

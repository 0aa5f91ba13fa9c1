/-
Data of the IPv4 NAT driver (`ipanat/inc/ipa_nat_drvi.h`,
`ipanat/src/ipa_nat_drvi.c`): rules, index entries, the table cache, the two
hash functions and the checksum differences.

The driver declares every rule twice, as `ipa_nat_rule` (what the hardware
reads) and as `ipa_nat_sw_rule` (the same bytes with all bit fields named), and
copies one onto the other with `memcpy`.  Here both are `IpaNatRule`.

The mapped memory holds the base and the expansion rule table back to back,
and likewise the two index tables, so that an entry number of the driver is
the position in the joint array: entries below `tableEntries` are base
entries, entry `tableEntries + i` is slot `i` of the expansion table.

Entry numbers are `ℕ`; where the source keeps them in a `uint16_t` and the
value may leave its range, the model reduces modulo `2 ^ 16`.
-/
import G4Common.Lib.CArray
import G4Common.Lib.Chain

namespace G4Common.IpaNat

/-! ### Constants -/

def ipprotoTcp : UInt8 := 6

def ipprotoUdp : UInt8 := 17

/-- `IPA_NAT_INVALID_PROTO_FIELD_CMP`: the protocol of a deleted head. -/
def invalidProtoFieldCmp : UInt8 := 0xFF

/-- `IPA_NAT_INVALID_PROTO_FIELD_VALUE`. -/
def invalidProtoFieldValue : ℕ := 0xFF00

/-- `IPA_NAT_FLAG_ENABLE_BIT_MASK`. -/
def flagEnableBitMask : ℕ := 0x8000

/-- `IPA_NAT_FLAG_DISABLE_BIT_MASK`. -/
def flagDisableBitMask : ℕ := 0x0000

/-- `IPA_NAT_INVALID_NAT_ENTRY`. -/
def invalidNatEntry : ℕ := 0

/-- `IPA_NAT_TABLE_ENTRY_SIZE`, in bytes. -/
def tableEntrySize : ℕ := 32

/-- `IPA_NAT_INDEX_TABLE_ENTRY_SIZE`, in bytes. -/
def indexTableEntrySize : ℕ := 4

/-- `IPA_NAT_RULE_NEXT_FIELD_OFFSET`. -/
def ruleNextFieldOffset : ℕ := 8

/-- `IPA_NAT_RULE_FLAG_FIELD_OFFSET`. -/
def ruleFlagFieldOffset : ℕ := 18

/-- `IPA_NAT_RULE_PROTO_FIELD_OFFSET`. -/
def ruleProtoFieldOffset : ℕ := 22

/-- `IPA_NAT_INDEX_RULE_NAT_INDEX_FIELD_OFFSET`. -/
def indexRuleNatIndexFieldOffset : ℕ := 0

/-- `IPA_NAT_INDEX_RULE_NEXT_FIELD_OFFSET`. -/
def indexRuleNextFieldOffset : ℕ := 2

/-- Errno values of the return codes. -/
def eIo : ℤ := 5
def eNOMEM : ℤ := 12
def eINVAL : ℤ := 22

def u16 (n : ℕ) : ℕ := n % 65536

/-- Subtraction of two `uint16_t`, stored into a `uint16_t`. -/
def sub16 (a b : ℕ) : ℕ := (a + 65536 - b) % 65536

theorem u16_of_lt {n : ℕ} (h : n < 65536) : u16 n = n := Nat.mod_eq_of_lt h

theorem sub16_of_le {a b : ℕ} (hb : b ≤ a) (ha : a < 65536) : sub16 a b = a - b := by
  unfold sub16
  omega

/-! ### Rules and index entries -/

inductive NatTableType
  | base
  | expn
  | indx
  | indexExpn
  deriving DecidableEq, Repr

/-- `ipa_nat_ipv4_rule`: a rule as the client hands it in. -/
structure IpaNatIpv4Rule where
  targetIp : UInt32
  privateIp : UInt32
  targetPort : UInt16
  privatePort : UInt16
  publicPort : UInt16
  protocol : UInt8
  deriving DecidableEq, Repr, Inhabited

/-- `ipa_nat_rule` and `ipa_nat_sw_rule`: an entry of the rule tables.  The
default value is the entry set to zero. -/
structure IpaNatRule where
  privateIp : UInt32
  targetIp : UInt32
  nextIndex : ℕ
  publicPort : UInt16
  privatePort : UInt16
  targetPort : UInt16
  ipChksum : UInt16
  rsvd1 : ℕ
  redirect : Bool
  enable : Bool
  timeStamp : ℕ
  protocol : UInt8
  prevIndex : ℕ
  indxTblEntry : ℕ
  rsvd2 : ℕ
  tcpUdpChksum : UInt16
  deriving DecidableEq, Repr, Inhabited

/-- `ipa_nat_indx_tbl_rule`: an entry of the index tables. -/
structure IpaNatIndxTblRule where
  tblEntry : ℕ
  nextIndex : ℕ
  deriving DecidableEq, Repr, Inhabited

/-- `ipa_nat_indx_tbl_sw_rule`: an index entry under construction. -/
structure IpaNatIndxTblSwRule where
  tblEntry : ℕ
  nextIndex : ℕ
  prevIndex : ℕ
  deriving DecidableEq, Repr, Inhabited

/-- The client rule an entry was made from. -/
def IpaNatRule.clnt (r : IpaNatRule) : IpaNatIpv4Rule :=
  ⟨r.targetIp, r.privateIp, r.targetPort, r.privatePort, r.publicPort, r.protocol⟩

/-- What the hardware takes for a rule: enabled, and not a deleted head. -/
def IpaNatRule.live (r : IpaNatRule) : Bool :=
  r.enable && r.protocol != invalidProtoFieldCmp

theorem IpaNatRule.live_iff {r : IpaNatRule} : r.live ↔ r.enable ∧ r.protocol ≠ invalidProtoFieldCmp := by
  simp [IpaNatRule.live]

theorem IpaNatRule.live_enable {r : IpaNatRule} (h : r.live) : r.enable = true :=
  (IpaNatRule.live_iff.mp h).1

@[simp] theorem IpaNatRule.live_default : (default : IpaNatRule).live = false := rfl

@[simp] theorem IpaNatRule.enable_default : (default : IpaNatRule).enable = false := rfl

@[simp] theorem IpaNatIndxTblRule.tblEntry_default : (default : IpaNatIndxTblRule).tblEntry = 0 := rfl

/-! ### Hash functions -/

def dstHash (trgtIp : UInt32) (trgtPort publicPort : UInt16) (proto : UInt8)
    (size : UInt16) : UInt16 :=
  let hash := trgtIp.toUInt16 ^^^ (trgtIp >>> 16).toUInt16 ^^^ trgtPort ^^^ publicPort ^^^
    proto.toUInt16
  let hash := hash &&& size
  if hash = 0 then size else hash

def srcHash (privIp : UInt32) (privPort : UInt16) (trgtIp : UInt32) (trgtPort : UInt16)
    (proto : UInt8) (size : UInt16) : UInt16 :=
  let hash := privIp.toUInt16 ^^^ (privIp >>> 16).toUInt16 ^^^ privPort ^^^
    trgtIp.toUInt16 ^^^ (trgtIp >>> 16).toUInt16 ^^^ trgtPort ^^^ proto.toUInt16
  let hash := hash &&& size
  if hash = 0 then size else hash

/-- Masking a hash with `size` and replacing `0` by `size` stays in
`1 .. size`. -/
theorem maskedHash_range (hash size : UInt16) (hsize : 0 < size.toNat) :
    0 < (if hash &&& size = 0 then size else hash &&& size).toNat ∧
      (if hash &&& size = 0 then size else hash &&& size).toNat ≤ size.toNat := by
  split
  · exact ⟨hsize, le_rfl⟩
  rename_i hne
  constructor
  · apply Nat.pos_of_ne_zero
    intro h0
    exact hne (UInt16.toNat_inj.mp (by simpa using h0))
  · rw [UInt16.toNat_and]
    exact Nat.and_le_right

/-! ### Checksum differences -/

/-- `if (cksum >> 16) { cksum = cksum & 0x0000FFFF; cksum += 1; }` -/
def foldCarry (cksum : UInt32) : UInt32 :=
  if cksum >>> 16 ≠ 0 then (cksum &&& 0xFFFF) + 1 else cksum

def ipaNatiCalcIpCksum (pubIpAddr privIpAddr : UInt32) : UInt16 :=
  let cksum := pubIpAddr &&& 0xFFFF
  let cksum := foldCarry (cksum + (pubIpAddr >>> 16))
  let privIpAddr := ~~~privIpAddr
  let cksum := foldCarry (cksum + (privIpAddr &&& 0xFFFF))
  let cksum := foldCarry (cksum + (privIpAddr >>> 16))
  cksum.toUInt16

def ipaNatiCalcTcpUdpCksum (pubIpAddr : UInt32) (pubPort : UInt16) (privIpAddr : UInt32)
    (privPort : UInt16) : UInt16 :=
  let cksum := pubIpAddr &&& 0xFFFF
  let cksum := foldCarry (cksum + (pubIpAddr >>> 16))
  let cksum := foldCarry (cksum + pubPort.toUInt32)
  let privIpAddr := ~~~privIpAddr
  let cksum := foldCarry (cksum + (privIpAddr &&& 0xFFFF))
  let cksum := foldCarry (cksum + (privIpAddr >>> 16))
  let privPort := ~~~privPort
  let cksum := foldCarry (cksum + privPort.toUInt32)
  cksum.toUInt16

/-! ### The table cache -/

/-- `ipa_nat_ip4_table_cache`: the driver's record of one NAT table, with the
memory it points to. -/
structure IpaNatIp4TableCache where
  valid : Bool
  publicAddr : UInt32
  natFd : ℤ
  size : ℕ
  tblAddrOffset : ℕ
  tableEntries : ℕ
  expnTableEntries : ℕ
  /-- `ipv4_rules_addr`, followed by `ipv4_expn_rules_addr`. -/
  rules : CArray IpaNatRule
  /-- `index_table_addr`, followed by `index_table_expn_addr`. -/
  indx : CArray IpaNatIndxTblRule
  /-- `index_expn_table_meta`: the previous index of every index expansion
  slot. -/
  indexExpnTableMeta : CArray ℕ
  ruleIdArray : CArray ℕ

/-- The record set to zero: no table. -/
instance : Inhabited IpaNatIp4TableCache :=
  ⟨⟨false, 0, 0, 0, 0, 0, 0, CArray.null, CArray.null, CArray.null, CArray.null⟩⟩

namespace IpaNatIp4TableCache

variable (c : IpaNatIp4TableCache)

/-- Number of entries of the rule tables, base and expansion. -/
def totalEntries : ℕ := c.tableEntries + c.expnTableEntries

/-- `table_entries - 1`, as the hash functions get it. -/
def hashSize : UInt16 := UInt16.ofNat c.tableEntries - 1

/-- The bucket of a rule in the base table. -/
def dstBucket (r : IpaNatIpv4Rule) : ℕ :=
  (dstHash r.targetIp r.targetPort r.publicPort r.protocol c.hashSize).toNat

/-- The bucket of a rule in the index table. -/
def srcBucket (r : IpaNatIpv4Rule) : ℕ :=
  (srcHash r.privateIp r.privatePort r.targetIp r.targetPort r.protocol c.hashSize).toNat

/-- The entry number of slot `i` of the named table; fails outside the
table. -/
def cell (tbl : NatTableType) (i : ℕ) : Option ℕ :=
  match tbl with
  | .base | .indx => if i < c.tableEntries then some i else none
  | .expn | .indexExpn =>
      if i < c.expnTableEntries then some (c.tableEntries + i) else none

/-- The tables after the rule of entry `e` is overwritten. -/
def setRule (e : ℕ) (r : IpaNatRule) : IpaNatIp4TableCache :=
  { c with rules := c.rules.set e r }

/-- The tables after the index entry `e` is overwritten. -/
def setIndx (e : ℕ) (r : IpaNatIndxTblRule) : IpaNatIp4TableCache :=
  { c with indx := c.indx.set e r }

/-- `tbl_ptr[i]` of a rule table. -/
def readRule (tbl : NatTableType) (i : ℕ) : Option IpaNatRule := do
  c.rules.read (← c.cell tbl i)

/-- `tbl_ptr[i] = r` of a rule table. -/
def writeRule (tbl : NatTableType) (i : ℕ) (r : IpaNatRule) : Option IpaNatIp4TableCache := do
  let rules ← c.rules.write (← c.cell tbl i) r
  return { c with rules := rules }

/-- `indx_tbl_ptr[i]` of an index table. -/
def readIndx (tbl : NatTableType) (i : ℕ) : Option IpaNatIndxTblRule := do
  c.indx.read (← c.cell tbl i)

/-- `indx_tbl_ptr[i] = r` of an index table. -/
def writeIndx (tbl : NatTableType) (i : ℕ) (r : IpaNatIndxTblRule) :
    Option IpaNatIp4TableCache := do
  let indx ← c.indx.write (← c.cell tbl i) r
  return { c with indx := indx }

/-- `index_expn_table_meta[i].prev_index = v`. -/
def writeMeta (i v : ℕ) : Option IpaNatIp4TableCache := do
  let a ← c.indexExpnTableMeta.write i v
  return { c with indexExpnTableMeta := a }

def writeRuleId (i v : ℕ) : Option IpaNatIp4TableCache := do
  let a ← c.ruleIdArray.write i v
  return { c with ruleIdArray := a }

end IpaNatIp4TableCache

end G4Common.IpaNat

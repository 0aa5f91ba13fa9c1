/-
`ipa_nati_del_ipv4_rule()` and the functions it calls.

A rule is taken out of two chains at once, with one ioctl.  How depends on its
position in each of them (`DelType`), and the two chains treat a head with
followers in opposite ways:

* in the rule tables the head stays where it is, enabled, with the invalid
  protocol `0xFF`; it is swept when the last follower has gone
  (`ipaNatiDelDeadIpv4HeadNodes`);
* in the index tables the content of the second entry moves into the head, and
  the second entry is freed.

`ipa_nati_post_del_dma_cmd()` is cut at the places where its comments cut it:
the DMA command for the rule table, those for the index table, the ioctl, and
the updates by the CPU that follow it.
-/
import G4Common.IpaNat.AddRule

namespace G4Common.IpaNat

/-! ### Positions in a chain -/

/-- `del_type`: the position of an entry in its chain. -/
inductive DelType
  | onlyOne
  | head
  | middle
  | last
  deriving DecidableEq, Repr

/-- The position of an entry from its table and its next index. -/
def delTypeOf (expn : Bool) (nextIndex : ℕ) : DelType :=
  match expn, decide (nextIndex = invalidNatEntry) with
  | true, true => .last
  | true, false => .middle
  | false, true => .onlyOne
  | false, false => .head

/-- `ipa_nati_parse_ipv4_rule_hdl()`: the table type and the entry inside the
table that a handle stands for. -/
def ipaNatiParseIpv4RuleHdl (c : IpaNatIp4TableCache) (ruleHdl : ℕ) : Option (Bool × ℕ) := do
  if ruleHdl ≥ c.totalEntries then
    return (false, invalidNatEntry)
  -- `rule_id_array[rule_hdl - 1]` lies outside the array for handle 0
  if ruleHdl = 0 then
    none
  let ruleId ← c.ruleIdArray.read (ruleHdl - 1)
  return (ruleId &&& 1 != 0, ruleId >>> 1)

/-- The rule table a handle's table type selects. -/
def ruleTbl (expnTbl : Bool) : NatTableType := if expnTbl then .expn else .base

def ipaNatiFindRulePos (c : IpaNatIp4TableCache) (expnTbl : Bool) (tblEntry : ℕ) :
    Option DelType := do
  let r ← c.readRule (ruleTbl expnTbl) tblEntry
  return delTypeOf expnTbl r.nextIndex

def ipaNatiFindIndexRulePos (c : IpaNatIp4TableCache) (tblEntry : ℕ) : Option DelType := do
  let r ← c.readIndx (indxTblOf c tblEntry) (slotOf c tblEntry)
  return delTypeOf (decide (tblEntry ≥ c.tableEntries)) r.nextIndex

/-! ### DMA commands -/

/-- Base table rule deletion: the command for the rule tables. -/
def ruleDelCmd (c : IpaNatIp4TableCache) (curTblEntry : ℕ) (expnTbl : Bool)
    (rulePos : DelType) : Option IpaIocNatDmaOne := do
  match rulePos with
  | .onlyOne =>
    return ⟨.base, ipaNatiGetEntryOffset c curTblEntry + ruleFlagFieldOffset,
      flagDisableBitMask⟩
  | .head =>
    return ⟨.base, ipaNatiGetEntryOffset c curTblEntry + ruleProtoFieldOffset,
      invalidProtoFieldValue⟩
  | .middle =>
    let r ← c.readRule (ruleTbl expnTbl) curTblEntry
    return ⟨tblOf c r.prevIndex,
      ipaNatiGetEntryOffset c (slotOf c r.prevIndex) + ruleNextFieldOffset, r.nextIndex⟩
  | .last =>
    let r ← c.readRule (ruleTbl expnTbl) curTblEntry
    return ⟨tblOf c r.prevIndex,
      ipaNatiGetEntryOffset c (slotOf c r.prevIndex) + ruleNextFieldOffset, invalidNatEntry⟩

/-- The expansion slot of the successor of an index head (`next_entry`). -/
def indxNextEntry (c : IpaNatIp4TableCache) (indxTblEntry : ℕ) : Option ℕ := do
  let r ← c.readIndx (indxTblOf c indxTblEntry) (slotOf c indxTblEntry)
  return sub16 r.nextIndex c.tableEntries

/-- Index table rule deletion: the commands for the index tables. -/
def indexDelCmds (c : IpaNatIp4TableCache) (indxTblEntry : ℕ) (indxRulePos : DelType) :
    Option (List IpaIocNatDmaOne) := do
  let slot := slotOf c indxTblEntry
  let offset := ipaNatiGetIndexEntryOffset c slot
  match indxRulePos with
  | .onlyOne =>
    return [⟨.indx, offset + indexRuleNatIndexFieldOffset, invalidNatEntry⟩]
  | .head =>
    let next ← c.readIndx .indexExpn (← indxNextEntry c indxTblEntry)
    return [⟨.indx, offset + indexRuleNatIndexFieldOffset, next.tblEntry⟩,
      ⟨.indx, offset + indexRuleNextFieldOffset, next.nextIndex⟩]
  | .middle =>
    let prevEntry ← c.indexExpnTableMeta.read slot
    let r ← c.readIndx (indxTblOf c indxTblEntry) slot
    return [⟨indxTblOf c prevEntry,
      ipaNatiGetIndexEntryOffset c (slotOf c prevEntry) + indexRuleNextFieldOffset,
      r.nextIndex⟩]
  | .last =>
    let prevEntry ← c.indexExpnTableMeta.read slot
    return [⟨indxTblOf c prevEntry,
      ipaNatiGetIndexEntryOffset c (slotOf c prevEntry) + indexRuleNextFieldOffset,
      invalidNatEntry⟩]

/-- Whether a command addresses an index table. -/
def IpaIocNatDmaOne.isIndex (cmd : IpaIocNatDmaOne) : Bool :=
  cmd.baseAddr == .indx || cmd.baseAddr == .indexExpn

/-- `ReorderCmds()`: rotate the commands so that those for the index tables
come first. -/
def reorderCmds (cmds : List IpaIocNatDmaOne) : List IpaIocNatDmaOne :=
  match cmds.findIdx? IpaIocNatDmaOne.isIndex with
  | none => cmds
  | some 0 => cmds
  | some indxTblStart => cmds.drop indxTblStart ++ cmds.take indxTblStart

/-! ### Updates by the CPU after the ioctl -/

/-- `UpdateSwSpecParams()` with `IPA_NAT_SW_PARAM_PREV_INDX_BYTE`. -/
def IpaNatRule.updatePrevIndx (r : IpaNatRule) (value : ℕ) : IpaNatRule :=
  { r with prevIndex := u16 value }

/-- `UpdateSwSpecParams()` with `IPA_NAT_SW_PARAM_INDX_TBL_ENTRY_BYTE`. -/
def IpaNatRule.updateIndxTblEntry (r : IpaNatRule) (value : ℕ) : IpaNatRule :=
  { r with indxTblEntry := u16 value }

section

variable (r : IpaNatRule) (v : ℕ)

@[simp] theorem IpaNatRule.nextIndex_updatePrevIndx : (r.updatePrevIndx v).nextIndex = r.nextIndex := rfl
@[simp] theorem IpaNatRule.prevIndex_updatePrevIndx : (r.updatePrevIndx v).prevIndex = u16 v := rfl
@[simp] theorem IpaNatRule.indxTblEntry_updatePrevIndx : (r.updatePrevIndx v).indxTblEntry = r.indxTblEntry := rfl
@[simp] theorem IpaNatRule.enable_updatePrevIndx : (r.updatePrevIndx v).enable = r.enable := rfl
@[simp] theorem IpaNatRule.live_updatePrevIndx : (r.updatePrevIndx v).live = r.live := rfl
@[simp] theorem IpaNatRule.clnt_updatePrevIndx : (r.updatePrevIndx v).clnt = r.clnt := rfl
@[simp] theorem IpaNatRule.nextIndex_updateIndxTblEntry : (r.updateIndxTblEntry v).nextIndex = r.nextIndex := rfl
@[simp] theorem IpaNatRule.prevIndex_updateIndxTblEntry : (r.updateIndxTblEntry v).prevIndex = r.prevIndex := rfl
@[simp] theorem IpaNatRule.indxTblEntry_updateIndxTblEntry : (r.updateIndxTblEntry v).indxTblEntry = u16 v := rfl
@[simp] theorem IpaNatRule.enable_updateIndxTblEntry : (r.updateIndxTblEntry v).enable = r.enable := rfl
@[simp] theorem IpaNatRule.live_updateIndxTblEntry : (r.updateIndxTblEntry v).live = r.live := rfl
@[simp] theorem IpaNatRule.clnt_updateIndxTblEntry : (r.updateIndxTblEntry v).clnt = r.clnt := rfl

end

/-- In the middle of a chain the successor gets the previous index of the
deleted entry; then the entry is set to zero, except for a head. -/
def ruleDelUpdate (s : NatHw) (curTblEntry : ℕ) (expnTbl : Bool) (rulePos : DelType) :
    Option NatHw := do
  match rulePos with
  | .head => return s
  | .middle =>
    let r ← s.cache.readRule (ruleTbl expnTbl) curTblEntry
    let nextEntry := sub16 r.nextIndex s.cache.tableEntries
    let next ← s.cache.readRule .expn nextEntry
    let s := s.step (← s.cache.writeRule .expn nextEntry (next.updatePrevIndx r.prevIndex))
    return s.step (← s.cache.writeRule .expn curTblEntry default)
  | .onlyOne | .last =>
    return s.step (← s.cache.writeRule (ruleTbl expnTbl) curTblEntry default)

/-- The entry `nextNext` behind the successor of an index head gets the head as
its previous index. -/
def relinkNextNext (s : NatHw) (slot nextNext : ℕ) : Option NatHw :=
  if nextNext ≠ 0 ∧ nextNext ≥ s.cache.tableEntries then
    s.priv <$> s.cache.writeMeta (nextNext - s.cache.tableEntries) slot
  else some s

/-- The successor `nextEntry` of an index head has moved into the head: update
the back link of the entry behind it, free it, and tell the moved rule its new
index entry. -/
def indexHeadDelUpdate (s : NatHw) (indxTblEntry nextEntry : ℕ) : Option NatHw := do
  let slot := slotOf s.cache indxTblEntry
  let next ← s.cache.readIndx .indexExpn nextEntry
  let s ← relinkNextNext s slot next.nextIndex
  let s := s.step (← s.cache.writeIndx .indexExpn nextEntry default)
  let tableEntry := (← s.cache.readIndx .indx slot).tblEntry
  let r ← s.cache.readRule (tblOf s.cache tableEntry) (slotOf s.cache tableEntry)
  return s.step (← s.cache.writeRule (tblOf s.cache tableEntry) (slotOf s.cache tableEntry)
    (r.updateIndxTblEntry slot))

/-- In the middle of an index chain the successor gets the previous index of
the deleted entry. -/
def relinkMiddle (s : NatHw) (indxTblEntry : ℕ) : Option NatHw := do
  let slot := slotOf s.cache indxTblEntry
  let next := (← s.cache.readIndx (indxTblOf s.cache indxTblEntry) slot).nextIndex
  let nextEntry := if next ≥ s.cache.tableEntries then next - s.cache.tableEntries else next
  let c ← s.cache.writeMeta nextEntry (← s.cache.indexExpnTableMeta.read slot)
  s.priv <$> c.writeMeta slot invalidNatEntry

/-- The index entry is not a head with followers: pass its back link on to its
successor, if it has one, and free it. -/
def indexDelUpdate (s : NatHw) (indxTblEntry : ℕ) (indxRulePos : DelType) : Option NatHw := do
  let s ← (if indxRulePos = .middle then relinkMiddle s indxTblEntry else some s)
  return s.step (← s.cache.writeIndx (indxTblOf s.cache indxTblEntry)
    (slotOf s.cache indxTblEntry) default)

/-! ### Deleting a rule -/

def ipaNatiPostDelDmaCmd (ok : Bool) (s : NatHw) (curTblEntry : ℕ) (expnTbl : Bool)
    (rulePos : DelType) : Option (ℤ × NatHw) := do
  let c := s.cache
  let cur ← c.readRule (ruleTbl expnTbl) curTblEntry
  if !cur.enable then
    return (-eINVAL, s)
  let indxTblEntry := cur.indxTblEntry
  let ruleCmd ← ruleDelCmd c curTblEntry expnTbl rulePos
  let indxRulePos ← ipaNatiFindIndexRulePos c indxTblEntry
  let indexCmds ← indexDelCmds c indxTblEntry indxRulePos
  let s ← ioctlNatDma ok s (reorderCmds (ruleCmd :: indexCmds))
  if !ok then
    return (-eIo, s)
  let s ← ruleDelUpdate s curTblEntry expnTbl rulePos
  if indxRulePos = .head then
    let nextEntry ← indxNextEntry c indxTblEntry
    return (0, ← indexHeadDelUpdate s indxTblEntry nextEntry)
  return (0, ← indexDelUpdate s indxTblEntry indxRulePos)

/-- The loop of `ipa_nati_del_dead_ipv4_head_nodes()` over the `n` base entries
from `cnt` on. -/
def delDeadFrom (s : NatHw) : ℕ → ℕ → Option NatHw
  | 0, _ => some s
  | n + 1, cnt => do
    let r ← s.cache.readRule .base cnt
    if r.protocol = invalidProtoFieldCmp ∧ r.nextIndex = invalidNatEntry then
      delDeadFrom (s.step (← s.cache.writeRule .base cnt default)) n (cnt + 1)
    else delDeadFrom s n (cnt + 1)

def ipaNatiDelDeadIpv4HeadNodes (s : NatHw) : Option NatHw :=
  delDeadFrom s s.cache.tableEntries 0

/-- `ipa_nati_del_ipv4_rule()`: return value and state after the call. -/
def ipaNatiDelIpv4Rule (ok : Bool) (s : NatHw) (ruleHdl : ℕ) : Option (ℤ × NatHw) := do
  let (expnTbl, tblEntry) ← ipaNatiParseIpv4RuleHdl s.cache (u16 ruleHdl)
  if tblEntry = invalidNatEntry then
    return (-eINVAL, s)
  if !s.cache.valid then
    return (-eINVAL, s)
  let rulePos ← ipaNatiFindRulePos s.cache expnTbl tblEntry
  let (ret, s) ← ipaNatiPostDelDmaCmd ok s tblEntry expnTbl rulePos
  if ret ≠ 0 then
    return (-eINVAL, s)
  let s ← ipaNatiDelDeadIpv4HeadNodes s
  -- reset the rule_id_array entry
  let c ← s.cache.writeRuleId (ruleHdl - 1) invalidNatEntry
  return (0, s.priv c)

end G4Common.IpaNat

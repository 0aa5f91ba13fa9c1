/-
`ipa_nati_add_ipv4_rule()` and the functions it calls.

A new rule gets an entry on the destination chain of its `dst_hash` bucket and
an index entry on the chain of its `src_hash` bucket.  The two searches are the
same algorithm on two tables (`placeEntry`): take the base entry when it is
free, otherwise walk to the last entry of the chain and take the first free
expansion slot.

Then the writes the hardware sees, in this order: the rule, still disabled;
the next index of its predecessor; the index entry; the next index of its
predecessor; the enable flag.  The second, fourth and fifth go through an
ioctl that may fail.
-/
import G4Common.IpaNat.Dma

namespace G4Common.IpaNat

/-! ### Finding an entry -/

/-- The loop that looks for the last entry of a chain.  `next i` is the next
index stored in expansion slot `i`.  The inner `none` is the error case
`prev == nxt_indx`; a loop that has not ended after `fuel` turns counts as one
that never ends. -/
def lastEntry (next : ℕ → Option ℕ) (tableEntries : ℕ) : ℕ → ℕ → Option (Option ℕ)
  | 0, _ => none
  | fuel + 1, prev => do
    let nxtIndx ← next (sub16 prev tableEntries)
    if prev = nxtIndx then
      return none
    if nxtIndx = invalidNatEntry then
      return some prev
    lastEntry next tableEntries fuel nxtIndx

/-- `for (cnt = 1; cnt < size; cnt++) if (!occupied(cnt)) return cnt;` and `0`
when the expansion table is full. -/
def freeEntry (occupied : ℕ → Option Bool) (size : ℕ) : Option ℕ := do
  let cnt ← findCell (fun cnt => (occupied cnt).map (!·)) (size - 1) 1
  return cnt.getD 0

/-- The last entry of the chain of bucket `newEntry`, whose next index is
`nxtIndx`. -/
def chainEnd (expn : ℕ → Option (Bool × ℕ)) (tableEntries expnTableEntries newEntry nxtIndx : ℕ) :
    Option (Option ℕ) :=
  if nxtIndx = invalidNatEntry then some (some newEntry)
  else lastEntry (fun i => (expn i).map (·.2)) tableEntries (expnTableEntries + 1) nxtIndx

/-- The entry for a new member of bucket `newEntry` of a chained table, and the
entry to link it behind.  `base` and `expn` read the occupied mark and the next
index of an entry; entry `0` reports a failure. -/
def placeEntry (base expn : ℕ → Option (Bool × ℕ)) (free : Option ℕ)
    (tableEntries expnTableEntries newEntry : ℕ) : Option (ℕ × ℕ) := do
  let (occupied, nxtIndx) ← base newEntry
  -- no collision
  if !occupied then
    return (newEntry, 0)
  match ← chainEnd expn tableEntries expnTableEntries newEntry nxtIndx with
  | none => return (invalidNatEntry, 0)
  | some prev =>
    let slot ← free
    if slot = invalidNatEntry then
      return (invalidNatEntry, prev)
    return (u16 (slot + tableEntries), prev)

def ipaNatiExpnTblFreeEntry (c : IpaNatIp4TableCache) : Option ℕ :=
  freeEntry (fun cnt => (c.readRule .expn cnt).map (·.enable)) c.expnTableEntries

def ipaNatiIndexExpnGetFreeEntry (c : IpaNatIp4TableCache) : Option ℕ :=
  freeEntry (fun cnt => (c.readIndx .indexExpn cnt).map (·.tblEntry != invalidNatEntry))
    c.expnTableEntries

/-- The rule `ipa_nati_generate_tbl_rule()` fills in from the client's rule,
before an entry is chosen. -/
def swRuleOf (pubIpAddr : UInt32) (clnt : IpaNatIpv4Rule) : IpaNatRule where
  privateIp := clnt.privateIp
  targetIp := clnt.targetIp
  nextIndex := 0
  publicPort := clnt.publicPort
  privatePort := clnt.privatePort
  targetPort := clnt.targetPort
  ipChksum := ipaNatiCalcIpCksum pubIpAddr clnt.privateIp
  rsvd1 := 0
  redirect := false
  enable := false
  timeStamp := 0
  protocol := clnt.protocol
  prevIndex := 0
  indxTblEntry := 0
  rsvd2 := 0
  tcpUdpChksum :=
    if clnt.protocol = ipprotoTcp ∨ clnt.protocol = ipprotoUdp then
      ipaNatiCalcTcpUdpCksum pubIpAddr clnt.publicPort clnt.privateIp clnt.privatePort
    else 0

/-- `ipa_nati_generate_tbl_rule()`: the new entry and the rule for it. -/
def ipaNatiGenerateTblRule (clnt : IpaNatIpv4Rule) (c : IpaNatIp4TableCache) :
    Option (ℕ × IpaNatRule) := do
  let (newEntry, prev) ← placeEntry
    (fun i => (c.readRule .base i).map fun r => (r.enable, r.nextIndex))
    (fun i => (c.readRule .expn i).map fun r => (r.enable, r.nextIndex))
    (ipaNatiExpnTblFreeEntry c) c.tableEntries c.expnTableEntries (c.dstBucket clnt)
  return (newEntry, { swRuleOf c.publicAddr clnt with prevIndex := prev })

/-- `ipa_nati_generate_index_rule()`: the new index entry and the entry to link
it behind.  Unlike its counterpart it ends with a check that the two
differ. -/
def ipaNatiGenerateIndexRule (clnt : IpaNatIpv4Rule) (c : IpaNatIp4TableCache) :
    Option (ℕ × ℕ) := do
  let (newEntry, prev) ← placeEntry
    (fun i => (c.readIndx .indx i).map fun r => (r.tblEntry != invalidNatEntry, r.nextIndex))
    (fun i => (c.readIndx .indexExpn i).map fun r => (r.tblEntry != invalidNatEntry, r.nextIndex))
    (ipaNatiIndexExpnGetFreeEntry c) c.tableEntries c.expnTableEntries (c.srcBucket clnt)
  if prev = newEntry then
    return (invalidNatEntry, prev)
  return (newEntry, prev)

/-- What `ipa_nati_generate_rule()` hands back. -/
structure GeneratedRule where
  rule : IpaNatRule
  indexRule : IpaNatIndxTblSwRule
  tblEntry : ℕ
  indxTblEntry : ℕ

/-- `ipa_nati_generate_rule()`; the inner `none` is the return value
`-EINVAL`. -/
def ipaNatiGenerateRule (c : IpaNatIp4TableCache) (clnt : IpaNatIpv4Rule) :
    Option (Option (GeneratedRule × IpaNatIp4TableCache)) := do
  let (tblEntry, rule) ← ipaNatiGenerateTblRule clnt c
  if tblEntry = invalidNatEntry then
    return none
  let (indxTblEntry, prevIndex) ← ipaNatiGenerateIndexRule clnt c
  if indxTblEntry = invalidNatEntry then
    return none
  let gen : GeneratedRule :=
    ⟨{ rule with indxTblEntry := indxTblEntry }, ⟨tblEntry, 0, prevIndex⟩, tblEntry, indxTblEntry⟩
  if indxTblEntry ≥ c.tableEntries then
    let c ← c.writeMeta (indxTblEntry - c.tableEntries) prevIndex
    return some (gen, c)
  return some (gen, c)

/-! ### Writing the entries -/

/-- `ipa_nati_write_next_index()`: the result of the ioctl is dropped. -/
def ipaNatiWriteNextIndex (ok : Bool) (s : NatHw) (tblType : NatTableType)
    (value offset : ℕ) : Option NatHw :=
  ioctlNatDma ok s [⟨tblType, offset, value⟩]

def ipaNatiCopyIpv4RuleToHw (ok : Bool) (s : NatHw) (rule : IpaNatRule) (entry : ℕ) :
    Option NatHw := do
  let s := s.step (← s.cache.writeRule (tblOf s.cache entry) (slotOf s.cache entry) rule)
  let prevEntry := rule.prevIndex
  -- update the next index of the previous entry
  if prevEntry ≠ invalidNatEntry then
    ipaNatiWriteNextIndex ok s (tblOf s.cache prevEntry) entry
      (ipaNatiGetEntryOffset s.cache (slotOf s.cache prevEntry) + ruleNextFieldOffset)
  else return s

/-- `ipa_nati_copy_ipv4_index_rule_to_hw()`.  The offset is kept in a
`uint16_t` here. -/
def ipaNatiCopyIpv4IndexRuleToHw (ok : Bool) (s : NatHw) (indxSwRule : IpaNatIndxTblSwRule)
    (entry : ℕ) : Option NatHw := do
  let s := s.step (← s.cache.writeIndx (indxTblOf s.cache entry) (slotOf s.cache entry)
    ⟨indxSwRule.tblEntry, indxSwRule.nextIndex⟩)
  let prevEntry := indxSwRule.prevIndex
  -- update the next field of the previous entry on collision
  if prevEntry ≠ invalidNatEntry then
    ipaNatiWriteNextIndex ok s (indxTblOf s.cache prevEntry) entry
      (u16 (u16 (ipaNatiGetIndexEntryOffset s.cache (slotOf s.cache prevEntry)) + indexRuleNextFieldOffset))
  else return s

/-- `ipa_nati_post_ipv4_dma_cmd()`: enable the rule.  Only the branch for the
expansion table adds the offset of the table memory. -/
def ipaNatiPostIpv4DmaCmd (ok : Bool) (s : NatHw) (entry : ℕ) : Option NatHw :=
  let c := s.cache
  if entry < c.tableEntries then
    ioctlNatDma ok s
      [⟨.base, tableEntrySize * entry + ruleFlagFieldOffset, flagEnableBitMask⟩]
  else
    ioctlNatDma ok s
      [⟨.expn, tableEntrySize * (entry - c.tableEntries) + ruleFlagFieldOffset
        + c.tblAddrOffset, flagEnableBitMask⟩]

/-! ### Rule handles -/

/-- The rule id of an entry: its number inside its table above the table
type. -/
def ruleIdOf (tableEntries tblEntry : ℕ) : ℕ :=
  if tblEntry ≥ tableEntries then u16 ((tblEntry - tableEntries) <<< 1) ||| 1
  else u16 (tblEntry <<< 1)

/-- `ipa_nati_make_rule_hdl()`: handle `cnt + 1` for the first free cell `cnt`
of `rule_id_array`, `0` when there is none. -/
def ipaNatiMakeRuleHdl (c : IpaNatIp4TableCache) (tblEntry : ℕ) :
    Option (ℕ × IpaNatIp4TableCache) := do
  match ← findCell (fun cnt => (c.ruleIdArray.read cnt).map (· == invalidNatEntry))
    c.totalEntries 0 with
  | some cnt =>
    let c ← c.writeRuleId cnt (ruleIdOf c.tableEntries tblEntry)
    return (u16 (cnt + 1), c)
  | none => return (0, c)

/-! ### Adding a rule -/

/-- Outcomes of the ioctls one call can issue. -/
structure AddIoctls where
  ruleNext : Bool
  indexNext : Bool
  enable : Bool
  deriving DecidableEq, Repr

def AddIoctls.allOk : AddIoctls := ⟨true, true, true⟩

/-- `ipa_nati_add_ipv4_rule()`: return value, the value stored through
`rule_hdl` (if any) and the state after the call. -/
def ipaNatiAddIpv4Rule (io : AddIoctls) (s : NatHw) (clntRule : IpaNatIpv4Rule) :
    Option (ℤ × Option ℕ × NatHw) := do
  match ← ipaNatiGenerateRule s.cache clntRule with
  | none => return (-eINVAL, none, s)
  | some (gen, c) =>
    let s ← ipaNatiCopyIpv4RuleToHw io.ruleNext (s.priv c) gen.rule gen.tblEntry
    let s ← ipaNatiCopyIpv4IndexRuleToHw io.indexNext s gen.indexRule gen.indxTblEntry
    let s ← ipaNatiPostIpv4DmaCmd io.enable s gen.tblEntry
    if !io.enable then
      return (-eIo, none, s)
    let (ruleHdl, c) ← ipaNatiMakeRuleHdl s.cache gen.tblEntry
    if ruleHdl = 0 then
      return (-eINVAL, some 0, s.priv c)
    return (0, some ruleHdl, s.priv c)

end G4Common.IpaNat

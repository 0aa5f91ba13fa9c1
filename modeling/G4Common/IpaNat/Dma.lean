/-
The memory the hardware shares with the driver, and the writes the driver makes
to it.

The driver changes the mapped tables in two ways: directly (`memcpy`, `memset`
and single stores of the CPU), and through the ioctl `IPA_IOC_NAT_DMA`, which
takes a list of commands `ipa_ioc_nat_dma_one` and writes for each of them the
16-bit `data` at byte `offset` of the named table, in order.

`NatHw` keeps, beside the current tables, the tables after every single write
(`seen`): the hardware reads them concurrently, so each of these states is one
it can act on.
-/
import G4Common.IpaNat.Types

namespace G4Common.IpaNat

/-! ### Shared memory -/

/-- The driver's table cache with the history of its mapped memory. -/
structure NatHw where
  cache : IpaNatIp4TableCache
  seen : List IpaNatIp4TableCache

/-- A write to the mapped memory. -/
def NatHw.step (s : NatHw) (c : IpaNatIp4TableCache) : NatHw := ⟨c, s.seen ++ [c]⟩

/-- A write to the driver's own memory, which the hardware does not see. -/
def NatHw.priv (s : NatHw) (c : IpaNatIp4TableCache) : NatHw := { s with cache := c }

section

variable (s : NatHw) (c : IpaNatIp4TableCache)

@[simp] theorem NatHw.cache_step : (s.step c).cache = c := rfl

@[simp] theorem NatHw.seen_step : (s.step c).seen = s.seen ++ [c] := rfl

@[simp] theorem NatHw.cache_priv : (s.priv c).cache = c := rfl

@[simp] theorem NatHw.seen_priv : (s.priv c).seen = s.seen := rfl

end

/-! ### Entry numbers

`if (entry < table_entries) ... else { ...; entry -= table_entries; }` is how
the driver turns an entry number into a table and a slot in it. -/

/-- The rule table that holds entry `e`. -/
def tblOf (c : IpaNatIp4TableCache) (e : ℕ) : NatTableType :=
  if e < c.tableEntries then .base else .expn

/-- The index table that holds entry `e`. -/
def indxTblOf (c : IpaNatIp4TableCache) (e : ℕ) : NatTableType :=
  if e < c.tableEntries then .indx else .indexExpn

/-- The slot of entry `e` in its table. -/
def slotOf (c : IpaNatIp4TableCache) (e : ℕ) : ℕ :=
  if e < c.tableEntries then e else e - c.tableEntries

/-! ### DMA commands -/

/-- `ipa_ioc_nat_dma_one`; its `table_index` is the index of this cache. -/
structure IpaIocNatDmaOne where
  baseAddr : NatTableType
  offset : ℕ
  data : ℕ
  deriving DecidableEq, Repr

/-- The rule with another next index. -/
def IpaNatRule.setNext (r : IpaNatRule) (n : ℕ) : IpaNatRule := { r with nextIndex := n }

/-- The rule with the flags that `data` stands for. -/
def IpaNatRule.setFlags (r : IpaNatRule) (data : ℕ) : IpaNatRule :=
  { r with
    rsvd1 := data % 2 ^ 14
    redirect := data.testBit 14
    enable := data.testBit 15 }

/-- The rule with the protocol and the last time stamp byte that `data` stands
for. -/
def IpaNatRule.setProto (r : IpaNatRule) (data : ℕ) : IpaNatRule :=
  { r with
    timeStamp := r.timeStamp % 2 ^ 16 + 2 ^ 16 * (data % 2 ^ 8)
    protocol := UInt8.ofNat (data / 2 ^ 8) }

/-- The index entry with another rule entry. -/
def IpaNatIndxTblRule.setEntry (r : IpaNatIndxTblRule) (n : ℕ) : IpaNatIndxTblRule :=
  { r with tblEntry := n }

/-- The index entry with another next index. -/
def IpaNatIndxTblRule.setNext (r : IpaNatIndxTblRule) (n : ℕ) : IpaNatIndxTblRule :=
  { r with nextIndex := n }

section

variable (r : IpaNatRule) (n : ℕ)

@[simp] theorem IpaNatRule.nextIndex_setNext : (r.setNext n).nextIndex = n := rfl
@[simp] theorem IpaNatRule.prevIndex_setNext : (r.setNext n).prevIndex = r.prevIndex := rfl
@[simp] theorem IpaNatRule.indxTblEntry_setNext : (r.setNext n).indxTblEntry = r.indxTblEntry := rfl
@[simp] theorem IpaNatRule.enable_setNext : (r.setNext n).enable = r.enable := rfl
@[simp] theorem IpaNatRule.live_setNext : (r.setNext n).live = r.live := rfl
@[simp] theorem IpaNatRule.clnt_setNext : (r.setNext n).clnt = r.clnt := rfl
@[simp] theorem IpaNatRule.setNext_self : r.setNext r.nextIndex = r := rfl
@[simp] theorem IpaNatRule.nextIndex_setProto : (r.setProto n).nextIndex = r.nextIndex := rfl
@[simp] theorem IpaNatRule.prevIndex_setProto : (r.setProto n).prevIndex = r.prevIndex := rfl
@[simp] theorem IpaNatRule.enable_setProto : (r.setProto n).enable = r.enable := rfl

@[simp] theorem IpaNatRule.live_setProto_invalid : (r.setProto invalidProtoFieldValue).live = false := by
  have hbyte : UInt8.ofNat (invalidProtoFieldValue / 2 ^ 8) = invalidProtoFieldCmp := by decide
  simp only [IpaNatRule.live, IpaNatRule.setProto, hbyte, bne_self_eq_false, Bool.and_false]

end

section

variable (r : IpaNatIndxTblRule) (n : ℕ)

@[simp] theorem IpaNatIndxTblRule.nextIndex_setNext : (r.setNext n).nextIndex = n := rfl
@[simp] theorem IpaNatIndxTblRule.tblEntry_setNext : (r.setNext n).tblEntry = r.tblEntry := rfl

end

/-- Write `data` at byte `off` of a rule.  The driver addresses three 16-bit
words: the next index, the flags, and the word that holds the protocol above
the last byte of the time stamp. -/
def pokeRule (off data : ℕ) (r : IpaNatRule) : Option IpaNatRule :=
  if off = ruleNextFieldOffset then some (r.setNext (u16 data))
  else if off = ruleFlagFieldOffset then some (r.setFlags (u16 data))
  else if off = ruleProtoFieldOffset then some (r.setProto (u16 data))
  else none

/-- Write `data` at byte `off` of an index entry. -/
def pokeIndx (off data : ℕ) (r : IpaNatIndxTblRule) : Option IpaNatIndxTblRule :=
  if off = indexRuleNatIndexFieldOffset then some (r.setEntry (u16 data))
  else if off = indexRuleNextFieldOffset then some (r.setNext (u16 data))
  else none

/-- One DMA command: `data` is written at `offset` of the named table. -/
def natDmaOne (c : IpaNatIp4TableCache) (cmd : IpaIocNatDmaOne) :
    Option IpaNatIp4TableCache := do
  match cmd.baseAddr with
  | .base | .expn =>
    let i := cmd.offset / tableEntrySize
    let r ← pokeRule (cmd.offset % tableEntrySize) cmd.data (← c.readRule cmd.baseAddr i)
    c.writeRule cmd.baseAddr i r
  | .indx | .indexExpn =>
    let i := cmd.offset / indexTableEntrySize
    let r ← pokeIndx (cmd.offset % indexTableEntrySize) cmd.data (← c.readIndx cmd.baseAddr i)
    c.writeIndx cmd.baseAddr i r

/-- The commands of one ioctl, in order. -/
def natDma (s : NatHw) : List IpaIocNatDmaOne → Option NatHw
  | [] => some s
  | cmd :: cmds => do natDma (s.step (← natDmaOne s.cache cmd)) cmds

/-- `ioctl(ipa_fd, IPA_IOC_NAT_DMA, cmd)`, which succeeds as `ok` says and
writes nothing when it fails. -/
def ioctlNatDma (ok : Bool) (s : NatHw) (cmds : List IpaIocNatDmaOne) : Option NatHw :=
  if ok then natDma s cmds else some s

def ipaNatiGetEntryOffset (c : IpaNatIp4TableCache) (tblEntry : ℕ) : ℕ :=
  tableEntrySize * tblEntry + c.tblAddrOffset

def ipaNatiGetIndexEntryOffset (c : IpaNatIp4TableCache) (indxTblEntry : ℕ) : ℕ :=
  indexTableEntrySize * indxTblEntry + c.tblAddrOffset

/-! ### Well-shaped tables -/

/-- The arrays of a table have the sizes its geometry asks for, the offsets of
index entries fit 16 bits, and the kernel placed the tables at offset 0 of the
mapping. -/
structure Shaped (c : IpaNatIp4TableCache) : Prop where
  rules : c.rules.size = c.totalEntries
  indx : c.indx.size = c.totalEntries
  metas : c.indexExpnTableMeta.size = c.expnTableEntries
  ids : c.ruleIdArray.size = c.totalEntries
  base_ge : 2 ≤ c.tableEntries
  base_le : c.tableEntries ≤ 16384
  expn_ge : 2 ≤ c.expnTableEntries
  expn_le : c.expnTableEntries ≤ 16384
  offset : c.tblAddrOffset = 0

section

variable {c : IpaNatIp4TableCache} {e : ℕ}

section

variable (h : Shaped c)
include h

theorem Shaped.lt_total : c.tableEntries < c.totalEntries := by
  have := h.expn_ge
  unfold IpaNatIp4TableCache.totalEntries
  omega

theorem Shaped.total_le : c.totalEntries ≤ 32768 := by
  have := h.base_le
  have := h.expn_le
  unfold IpaNatIp4TableCache.totalEntries
  omega

theorem Shaped.hashSize : c.hashSize.toNat = c.tableEntries - 1 := by
  have h1 := h.base_ge
  have h2 := h.base_le
  have hle : (1 : UInt16) ≤ UInt16.ofNat c.tableEntries := by
    rw [UInt16.le_iff_toNat_le, UInt16.toNat_ofNat_of_lt' (by simp [UInt16.size]; omega)]
    simp
    omega
  unfold IpaNatIp4TableCache.hashSize
  rw [UInt16.toNat_sub_of_le _ _ hle, UInt16.toNat_ofNat_of_lt' (by simp [UInt16.size]; omega)]
  rfl

theorem Shaped.dstBucket_range (r : IpaNatIpv4Rule) : 0 < c.dstBucket r ∧ c.dstBucket r < c.tableEntries := by
  have hs := h.hashSize
  have hb := h.base_ge
  obtain ⟨h0, hle⟩ := maskedHash_range (r.targetIp.toUInt16 ^^^ (r.targetIp >>> 16).toUInt16 ^^^
    r.targetPort ^^^ r.publicPort ^^^ r.protocol.toUInt16) c.hashSize (by omega)
  exact ⟨h0, lt_of_le_of_lt hle (by omega)⟩

theorem Shaped.srcBucket_range (r : IpaNatIpv4Rule) : 0 < c.srcBucket r ∧ c.srcBucket r < c.tableEntries := by
  have hs := h.hashSize
  have hb := h.base_ge
  obtain ⟨h0, hle⟩ := maskedHash_range (r.privateIp.toUInt16 ^^^ (r.privateIp >>> 16).toUInt16 ^^^
    r.privatePort ^^^ r.targetIp.toUInt16 ^^^ (r.targetIp >>> 16).toUInt16 ^^^
    r.targetPort ^^^ r.protocol.toUInt16) c.hashSize (by omega)
  exact ⟨h0, lt_of_le_of_lt hle (by omega)⟩

theorem Shaped.setRule (r : IpaNatRule) : Shaped (c.setRule e r) :=
  ⟨h.rules, h.indx, h.metas, h.ids, h.base_ge, h.base_le, h.expn_ge, h.expn_le, h.offset⟩

theorem Shaped.setIndx (r : IpaNatIndxTblRule) : Shaped (c.setIndx e r) :=
  ⟨h.rules, h.indx, h.metas, h.ids, h.base_ge, h.base_le, h.expn_ge, h.expn_le, h.offset⟩

end

end

/-! ### Frame -/

/-- `c'` differs from `c` in the mapped memory and in the back links of the
index table only. -/
structure SameGeom (c c' : IpaNatIp4TableCache) : Prop where
  valid : c'.valid = c.valid
  table : c'.tableEntries = c.tableEntries
  expn : c'.expnTableEntries = c.expnTableEntries
  addr : c'.publicAddr = c.publicAddr
  ids : c'.ruleIdArray = c.ruleIdArray

namespace SameGeom

variable {c c' c'' : IpaNatIp4TableCache}

theorem refl (c : IpaNatIp4TableCache) : SameGeom c c := ⟨rfl, rfl, rfl, rfl, rfl⟩

section

variable (h : SameGeom c c')
include h

theorem symm : SameGeom c' c :=
  ⟨h.valid.symm, h.table.symm, h.expn.symm, h.addr.symm, h.ids.symm⟩

theorem trans (h' : SameGeom c' c'') : SameGeom c c'' :=
  ⟨h'.valid.trans h.valid, h'.table.trans h.table, h'.expn.trans h.expn,
    h'.addr.trans h.addr, h'.ids.trans h.ids⟩

theorem setRule (e : ℕ) (r : IpaNatRule) : SameGeom c (c'.setRule e r) :=
  ⟨h.valid, h.table, h.expn, h.addr, h.ids⟩

theorem setIndx (e : ℕ) (r : IpaNatIndxTblRule) : SameGeom c (c'.setIndx e r) :=
  ⟨h.valid, h.table, h.expn, h.addr, h.ids⟩

theorem total : c'.totalEntries = c.totalEntries := by
  unfold IpaNatIp4TableCache.totalEntries
  rw [h.table, h.expn]

theorem dstBucket : c'.dstBucket = c.dstBucket := by
  unfold IpaNatIp4TableCache.dstBucket IpaNatIp4TableCache.hashSize
  rw [h.table]

theorem srcBucket : c'.srcBucket = c.srcBucket := by
  unfold IpaNatIp4TableCache.srcBucket IpaNatIp4TableCache.hashSize
  rw [h.table]

theorem tblOf : IpaNat.tblOf c' = IpaNat.tblOf c := by
  unfold IpaNat.tblOf
  rw [h.table]

theorem indxTblOf : IpaNat.indxTblOf c' = IpaNat.indxTblOf c := by
  unfold IpaNat.indxTblOf
  rw [h.table]

theorem slotOf : IpaNat.slotOf c' = IpaNat.slotOf c := by
  unfold IpaNat.slotOf
  rw [h.table]

end

end SameGeom

/-! ### Access by entry number -/

section

variable {c : IpaNatIp4TableCache} {e : ℕ}

theorem cell_tblOf (he : e < c.totalEntries) : c.cell (tblOf c e) (slotOf c e) = some e := by
  unfold IpaNatIp4TableCache.totalEntries at he
  by_cases hT : e < c.tableEntries
  · simp [IpaNatIp4TableCache.cell, tblOf, slotOf, hT]
  · have h1 : e - c.tableEntries < c.expnTableEntries := by omega
    have h2 : c.tableEntries + (e - c.tableEntries) = e := by omega
    simp [IpaNatIp4TableCache.cell, tblOf, slotOf, hT, h1, h2]

theorem cell_indxTblOf (he : e < c.totalEntries) : c.cell (indxTblOf c e) (slotOf c e) = some e := by
  unfold IpaNatIp4TableCache.totalEntries at he
  by_cases hT : e < c.tableEntries
  · simp [IpaNatIp4TableCache.cell, indxTblOf, slotOf, hT]
  · have h1 : e - c.tableEntries < c.expnTableEntries := by omega
    have h2 : c.tableEntries + (e - c.tableEntries) = e := by omega
    simp [IpaNatIp4TableCache.cell, indxTblOf, slotOf, hT, h1, h2]

section

variable (h : Shaped c) (he : e < c.totalEntries)
include h he

theorem readRule_tblOf : c.readRule (tblOf c e) (slotOf c e) = some (c.rules.get e) := by
  simp [IpaNatIp4TableCache.readRule, cell_tblOf he, CArray.read, h.rules, he]

theorem writeRule_tblOf (r : IpaNatRule) : c.writeRule (tblOf c e) (slotOf c e) r = some (c.setRule e r) := by
  simp [IpaNatIp4TableCache.writeRule, cell_tblOf he, CArray.write, h.rules, he, IpaNatIp4TableCache.setRule]

theorem readIndx_indxTblOf : c.readIndx (indxTblOf c e) (slotOf c e) = some (c.indx.get e) := by
  simp [IpaNatIp4TableCache.readIndx, cell_indxTblOf he, CArray.read, h.indx, he]

theorem writeIndx_indxTblOf (r : IpaNatIndxTblRule) :
    c.writeIndx (indxTblOf c e) (slotOf c e) r = some (c.setIndx e r) := by
  simp [IpaNatIp4TableCache.writeIndx, cell_indxTblOf he, CArray.write, h.indx, he, IpaNatIp4TableCache.setIndx]

end

theorem tblOf_base (hT : e < c.tableEntries) : tblOf c e = .base ∧ slotOf c e = e := by
  simp [tblOf, slotOf, hT]

theorem tblOf_expn (hT : c.tableEntries ≤ e) : tblOf c e = .expn ∧ slotOf c e = e - c.tableEntries := by
  simp [tblOf, slotOf, Nat.not_lt.mpr hT]

theorem indxTblOf_base (hT : e < c.tableEntries) : indxTblOf c e = .indx := by
  simp [indxTblOf, hT]

theorem indxTblOf_expn (hT : c.tableEntries ≤ e) : indxTblOf c e = .indexExpn := by
  simp [indxTblOf, Nat.not_lt.mpr hT]

/-- **A DMA command to a field of entry `e`** changes that entry and nothing
else. -/
theorem natDmaOne_rule (off data : ℕ) {r : IpaNatRule} (h : Shaped c)
    (he : e < c.totalEntries) (hoff : off < tableEntrySize) (hr : pokeRule off data (c.rules.get e) = some r) :
    natDmaOne c ⟨tblOf c e, ipaNatiGetEntryOffset c (slotOf c e) + off, data⟩
      = some (c.setRule e r) := by
  have hdiv : (ipaNatiGetEntryOffset c (slotOf c e) + off) / tableEntrySize = slotOf c e := by
    unfold ipaNatiGetEntryOffset tableEntrySize at *
    have := h.offset
    omega
  have hmod : (ipaNatiGetEntryOffset c (slotOf c e) + off) % tableEntrySize = off := by
    unfold ipaNatiGetEntryOffset tableEntrySize at *
    have := h.offset
    omega
  have hcase : tblOf c e = .base ∨ tblOf c e = .expn := by
    unfold tblOf
    split <;> simp
  have hrd := readRule_tblOf h he
  have hwr := writeRule_tblOf h he r
  rcases hcase with ht | ht
  · rw [ht] at hrd hwr ⊢
    simp [natDmaOne, hdiv, hmod, hrd, hr, hwr]
  · rw [ht] at hrd hwr ⊢
    simp [natDmaOne, hdiv, hmod, hrd, hr, hwr]

theorem natDmaOne_indx (off data : ℕ) {r : IpaNatIndxTblRule} (h : Shaped c)
    (he : e < c.totalEntries) (hoff : off < indexTableEntrySize) (hr : pokeIndx off data (c.indx.get e) = some r) :
    natDmaOne c ⟨indxTblOf c e, ipaNatiGetIndexEntryOffset c (slotOf c e) + off, data⟩
      = some (c.setIndx e r) := by
  have hdiv : (ipaNatiGetIndexEntryOffset c (slotOf c e) + off) / indexTableEntrySize = slotOf c e := by
    unfold ipaNatiGetIndexEntryOffset indexTableEntrySize at *
    have := h.offset
    omega
  have hmod : (ipaNatiGetIndexEntryOffset c (slotOf c e) + off) % indexTableEntrySize = off := by
    unfold ipaNatiGetIndexEntryOffset indexTableEntrySize at *
    have := h.offset
    omega
  have hcase : indxTblOf c e = .indx ∨ indxTblOf c e = .indexExpn := by
    unfold indxTblOf
    split <;> simp
  have hrd := readIndx_indxTblOf h he
  have hwr := writeIndx_indxTblOf h he r
  rcases hcase with ht | ht
  · rw [ht] at hrd hwr ⊢
    simp [natDmaOne, hdiv, hmod, hrd, hr, hwr]
  · rw [ht] at hrd hwr ⊢
    simp [natDmaOne, hdiv, hmod, hrd, hr, hwr]

end

end G4Common.IpaNat

/-
The geometry of a table: its sizes, the buckets of its hash functions, and the byte offsets of its entries.

`ipa_nati_alloc_table()` splits the number of entries that is asked for.  The base table gets the next power of two of four
fifths of it, in 16 bits (`ipaNatiAllocTable_eq`), and the expansion table one fifth made even, both rounded down before.
So the two tables can be one entry short; from `2 ^ 15 + 1` base entries on the power of two is 0; and the offset that
`ipa_nati_copy_ipv4_index_rule_to_hw()` keeps in a `uint16_t` is too small for tables from `2 ^ 15` entries on, or where
the kernel puts the tables behind an offset.  `table_geometry` says for which sizes and offsets all is well.
-/
import Mathlib
import G4Common.IpaNat.LifeCycle

namespace G4Common.IpaNat

open Option

/-! ### Offsets

The offset variables of the three functions with their widths.  The fields of an entry are named by their offsets. -/

def u32 (n : ℕ) : ℕ := n % 2 ^ 32

/-- `offset` of `ipa_nati_copy_ipv4_rule_to_hw()`, for the previous entry. -/
def copyRuleOffset (c : IpaNatIp4TableCache) (prevEntry : ℕ) : ℕ :=
  u32 (u32 (ipaNatiGetEntryOffset c (slotOf c prevEntry)) + ruleNextFieldOffset)

/-- `offset` of `ipa_nati_copy_ipv4_index_rule_to_hw()`, for the previous entry. -/
def copyIndexRuleOffset (c : IpaNatIp4TableCache) (prevEntry : ℕ) : ℕ :=
  u16 (u16 (u32 (ipaNatiGetIndexEntryOffset c (slotOf c prevEntry))) + indexRuleNextFieldOffset)

/-- `cmd->dma[..].offset` of `ipa_nati_post_del_dma_cmd()`, for a field of a rule. -/
def delRuleOffset (c : IpaNatIp4TableCache) (slot field : ℕ) : ℕ := u32 (u32 (ipaNatiGetEntryOffset c slot) + field)

/-- `cmd->dma[..].offset` of `ipa_nati_post_del_dma_cmd()`, for a field of an index entry. -/
def delIndexOffset (c : IpaNatIp4TableCache) (slot field : ℕ) : ℕ := u32 (u32 (ipaNatiGetIndexEntryOffset c slot) + field)

/-- The byte position of a field of entry `e`. -/
def rulePos (c : IpaNatIp4TableCache) (e field : ℕ) : ℕ := c.tblAddrOffset + tableEntrySize * slotOf c e + field

def indexPos (c : IpaNatIp4TableCache) (e field : ℕ) : ℕ := c.tblAddrOffset + indexTableEntrySize * slotOf c e + field

/-- The offsets are the byte positions of the fields. -/
structure TrueOffsets (c : IpaNatIp4TableCache) : Prop where
  copyRule : ∀ e < c.totalEntries, copyRuleOffset c e = rulePos c e ruleNextFieldOffset
  copyIndexRule : ∀ e < c.totalEntries, copyIndexRuleOffset c e = indexPos c e indexRuleNextFieldOffset
  delRule : ∀ e < c.totalEntries, ∀ field ∈ [ruleNextFieldOffset, ruleFlagFieldOffset, ruleProtoFieldOffset],
    delRuleOffset c (slotOf c e) field = rulePos c e field
  delIndex : ∀ e < c.totalEntries, ∀ field ∈ [indexRuleNatIndexFieldOffset, indexRuleNextFieldOffset],
    delIndexOffset c (slotOf c e) field = indexPos c e field

/-- The table that is asked for, and what `ipa_nati_alloc_table()` makes of it. -/
structure Geometry (numberOfEntries tableEntries expnTableEntries offset : ℕ) : Prop where
  pow : ∃ k, tableEntries = 2 ^ k
  base_ge : 2 ≤ tableEntries
  expn_ge : 1 ≤ expnTableEntries
  total : numberOfEntries ≤ tableEntries + expnTableEntries
  fits : tableEntries + expnTableEntries - 1 < 2 ^ 16
  dst : ∀ trgtIp trgtPort publicPort proto,
    (dstHash trgtIp trgtPort publicPort proto (UInt16.ofNat tableEntries - 1)).toNat ∈ Set.Icc 1 (tableEntries - 1)
  src : ∀ privIp privPort trgtIp trgtPort proto,
    (srcHash privIp privPort trgtIp trgtPort proto (UInt16.ofNat tableEntries - 1)).toNat ∈ Set.Icc 1 (tableEntries - 1)
  offsets : ∀ c : IpaNatIp4TableCache, c.tableEntries = tableEntries → c.expnTableEntries = expnTableEntries →
    c.tblAddrOffset = offset → TrueOffsets c

/-- The sizes and offsets for which the geometry is right. -/
def GoodSize (numberOfEntries offset : ℕ) : Prop :=
  (∀ j ≥ 1, numberOfEntries ≠ 5 * 2 ^ j + 1) ∧ offset + 4 * 2 ^ max 1 (Nat.clog 2 (numberOfEntries * 4 / 5)) < 65538

/-! ### Sizes -/

variable {n t e off : ℕ}

theorem clog_of_between {i : ℕ} (h1 : 2 ^ i < n) (h2 : n ≤ 2 ^ (i + 1)) : Nat.clog 2 n = i + 1 :=
  Nat.le_antisymm (Nat.clog_le_of_le_pow h2) ((Nat.lt_clog_iff_pow_lt Nat.one_lt_two).mpr h1)

theorem nearest2Loop_eq {fuel i r : ℕ} (hn : n < 65536) (hi : 2 ^ i ≤ n)
    (h : nearest2Loop n fuel (n / 2 ^ i) (2 ^ i) = some r) : r = u16 (2 ^ Nat.clog 2 n) := by
  induction fuel generalizing i with
  | zero => cases h
  | succ fuel ih =>
    rw [nearest2Loop] at h
    split at h
    · -- The last turn: `n` is between two powers of two.
      rename_i hone
      have hlt : n < 2 ^ (i + 1) := by
        have := Nat.lt_mul_div_succ n (Nat.two_pow_pos i)
        rw [hone] at this
        rw [Nat.pow_succ]
        exact this
      rw [some.injEq] at h
      rw [← h]
      split
      · rename_i hne
        rw [clog_of_between (Nat.lt_of_le_of_ne hi (Ne.symm hne)) (Nat.le_of_lt hlt), Nat.pow_succ]
      · rename_i heq
        have heq : n = 2 ^ i := not_not.mp heq
        rw [heq, Nat.clog_pow 2 i Nat.one_lt_two, u16_of_lt (heq ▸ hn)]
    rename_i hne
    have hpos : 0 < n / 2 ^ i := Nat.div_pos hi (Nat.two_pow_pos i)
    have hi' : 2 ^ (i + 1) ≤ n := by
      rw [Nat.pow_succ]
      have := (Nat.le_div_iff_mul_le (Nat.two_pow_pos i)).mp (show 2 ≤ n / 2 ^ i by omega)
      omega
    rw [Nat.div_div_eq_div_mul, ← Nat.pow_succ, u16_of_lt (Nat.lt_of_le_of_lt hi' hn)] at h
    exact ih hi' h

/-- The size of the base table, before it is stored in 16 bits. -/
def basePow (numberOfEntries : ℕ) : ℕ := 2 ^ max 1 (Nat.clog 2 (numberOfEntries * 4 / 5))

theorem getNearest2Power_eq (hn : n < 65536) (h : getNearest2Power (baseTableEntries n) = some (some t)) :
    t = u16 (basePow n) := by
  obtain ⟨h1, h2⟩ := baseTableEntries_range n hn
  rw [getNearest2Power, if_neg (by omega)] at h
  split at h
  · -- One base entry is made two.
    rename_i hone
    have hle : n * 4 / 5 ≤ 1 := by
      rw [baseTableEntries] at hone
      split at hone <;> omega
    obtain rfl : 2 = t := by simpa using h
    rw [basePow, Nat.clog_of_right_le_one hle]
    rfl
  rename_i hne
  have hbase : baseTableEntries n = n * 4 / 5 := by
    rw [baseTableEntries] at hne ⊢
    split_ifs with hz
    · rw [if_pos hz] at hne
      exact absurd rfl hne
    · rfl
  rw [map_eq_some_iff] at h
  obtain ⟨r, hr, hrt⟩ := h
  rw [some.injEq] at hrt
  subst hrt
  rw [hbase] at hr hne h1 h2
  have hclog : 1 ≤ Nat.clog 2 (n * 4 / 5) := Nat.clog_pos Nat.one_lt_two (by omega)
  rw [basePow, max_eq_right hclog]
  have hr' : nearest2Loop (n * 4 / 5) 16 (n * 4 / 5 / 2 ^ 0) (2 ^ 0) = some r := by
    rw [Nat.pow_zero, Nat.div_one]
    exact hr
  exact nearest2Loop_eq h2 h1 hr'

theorem ipaNatiAllocTable_eq {env : AddTblEnv} {ipaFd fd : ℤ} {mem : IpaIocNatAllocMem} (hn : n < 65536)
    (h : ipaNatiAllocTable env ipaFd n = some ((0, fd), some (mem, t, e))) :
    t = u16 (basePow n) ∧ e = expnTableEntriesOf n := by
  have hs : (⟨CArray.zeros 1, ipaFd, 0⟩ : IpaNatCache).ipaFd = ipaFd := rfl
  rw [← hs] at h
  by_cases hf : AllocFails env ipaFd
  · obtain ⟨_, fd', halloc⟩ := ipaNatiAllocTable_of_fails (s := ⟨CArray.zeros 1, ipaFd, 0⟩) hn hf
    rw [halloc] at h
    cases h
  obtain ⟨_, _, _, hpow, -, halloc⟩ := ipaNatiAllocTable_of_ok (s := ⟨CArray.zeros 1, ipaFd, 0⟩) hn hf
  rw [halloc] at h
  simp only [some.injEq, Prod.mk.injEq] at h
  obtain ⟨-, -, rfl, rfl⟩ := h
  exact ⟨getNearest2Power_eq hn hpow, rfl⟩

/-! ### The bounds -/

theorem basePow_two_le (n : ℕ) : 2 ≤ basePow n := by
  calc 2 = 2 ^ 1 := rfl
    _ ≤ basePow n := Nat.pow_le_pow_right (by decide) (Nat.le_max_left _ _)

theorem le_basePow (n : ℕ) : n * 4 / 5 ≤ basePow n :=
  (Nat.le_pow_clog Nat.one_lt_two _).trans (Nat.pow_le_pow_right (by decide) (Nat.le_max_right _ _))

theorem basePow_le (hn : n < 65536) : basePow n ≤ 65536 := by
  have hclog : Nat.clog 2 (n * 4 / 5) ≤ 16 := Nat.clog_le_of_le_pow (by omega)
  calc basePow n ≤ 2 ^ 16 := Nat.pow_le_pow_right (by decide) (Nat.max_le.mpr ⟨by decide, hclog⟩)
    _ = 65536 := rfl

theorem expnTableEntriesOf_eq (n : ℕ) (hn : n < 65536) :
    expnTableEntriesOf n = if n / 5 < 2 then 2 else if n / 5 % 2 = 0 then n / 5 else n / 5 + 1 := by
  rw [expnTableEntriesOf, getNearestEven, u16_of_lt (by omega : n / 5 + 1 < 65536), ite_not]

theorem total_ge (hn : n < 65536) (hgood : ∀ j ≥ 1, n ≠ 5 * 2 ^ j + 1) : n ≤ basePow n + expnTableEntriesOf n := by
  have hle := le_basePow n
  have hexpn := expnTableEntriesOf_eq n hn
  by_contra hlt
  have hexpn' : expnTableEntriesOf n = n / 5 ∧ 2 ≤ n / 5 ∧ n / 5 % 2 = 0 := by
    split at hexpn
    · exact absurd (basePow_two_le n) (by omega)
    · split at hexpn <;> omega
  have hpow : basePow n = n * 4 / 5 := by omega
  -- The base table has a power of two of at least 8, so that its size is a multiple of 4.
  obtain ⟨k, _⟩ : ∃ k, basePow n = 2 ^ k := ⟨_, rfl⟩
  have hk3 : 3 ≤ k := by
    apply (Nat.pow_le_pow_iff_right Nat.one_lt_two).mp
    have : 2 ^ 3 = 8 := rfl
    omega
  obtain ⟨j, rfl⟩ : ∃ j, k = j + 2 := ⟨k - 2, by omega⟩
  have h4 : 2 ^ (j + 2) = 4 * 2 ^ j := by rw [Nat.pow_add]; omega
  exact hgood j (by omega) (by omega)

theorem expn_le_basePow (hn : n < 65536) : expnTableEntriesOf n ≤ basePow n := by
  have hle := le_basePow n
  have hexpn := expnTableEntriesOf_eq n hn
  have htwo := basePow_two_le n
  split at hexpn
  · omega
  · split at hexpn <;> omega

/-! ### Hash values and offsets -/

theorem toNat_hashSize (h1 : 1 ≤ t) (h2 : t < 65536) : (UInt16.ofNat t - 1).toNat = t - 1 := by
  have ht : (UInt16.ofNat t).toNat = t := UInt16.toNat_ofNat_of_lt' h2
  have hle : (1 : UInt16) ≤ UInt16.ofNat t := by
    rw [UInt16.le_iff_toNat_le, ht]
    exact h1
  rw [UInt16.toNat_sub_of_le _ _ hle, ht]
  rfl

theorem maskedHash_mem (hash : UInt16) (h1 : 2 ≤ t) (h2 : t < 65536) :
    (if hash &&& (UInt16.ofNat t - 1) = 0 then UInt16.ofNat t - 1 else hash &&& (UInt16.ofNat t - 1)).toNat
      ∈ Set.Icc 1 (t - 1) := by
  have hsize := toNat_hashSize (by omega : 1 ≤ t) h2
  have hrange := maskedHash_range hash (UInt16.ofNat t - 1) (by omega)
  rw [hsize] at hrange
  exact hrange

theorem u32_of_lt (h : n < 4294967296) : u32 n = n := Nat.mod_eq_of_lt h

section

variable {c : IpaNatIp4TableCache}

theorem slotOf_lt (hle : c.expnTableEntries ≤ c.tableEntries) (he : e < c.totalEntries) : slotOf c e < c.tableEntries := by
  rw [IpaNatIp4TableCache.totalEntries] at he
  rw [slotOf]
  split <;> omega

theorem trueOffsets_of_lt (hle : c.expnTableEntries ≤ c.tableEntries)
    (h : c.tblAddrOffset + 4 * c.tableEntries < 65538) : TrueOffsets c := by
  -- An offset of 32 bits has room for every entry.
  have hrule : ∀ e < c.totalEntries, ∀ field ≤ 22,
      u32 (u32 (ipaNatiGetEntryOffset c (slotOf c e)) + field) = rulePos c e field := by
    intro e he field hfield
    have hslot := slotOf_lt hle he
    have hin : u32 (32 * slotOf c e + c.tblAddrOffset) = 32 * slotOf c e + c.tblAddrOffset := u32_of_lt (by omega)
    rw [rulePos, ipaNatiGetEntryOffset, tableEntrySize, hin, u32_of_lt (by omega)]
    omega
  have hindex : ∀ e < c.totalEntries, ∀ field ≤ 2,
      u32 (u32 (ipaNatiGetIndexEntryOffset c (slotOf c e)) + field) = indexPos c e field := by
    intro e he field hfield
    have hslot := slotOf_lt hle he
    have hin : u32 (4 * slotOf c e + c.tblAddrOffset) = 4 * slotOf c e + c.tblAddrOffset := u32_of_lt (by omega)
    rw [indexPos, ipaNatiGetIndexEntryOffset, indexTableEntrySize, hin, u32_of_lt (by omega)]
    omega
  constructor
  · exact fun e he => hrule e he ruleNextFieldOffset (by decide)
  · intro e he
    have hslot := slotOf_lt hle he
    have hin : u32 (4 * slotOf c e + c.tblAddrOffset) = 4 * slotOf c e + c.tblAddrOffset := u32_of_lt (by omega)
    have hin' : u16 (4 * slotOf c e + c.tblAddrOffset) = 4 * slotOf c e + c.tblAddrOffset := u16_of_lt (by omega)
    rw [copyIndexRuleOffset, indexPos, ipaNatiGetIndexEntryOffset, indexTableEntrySize, indexRuleNextFieldOffset, hin, hin',
      u16_of_lt (by omega)]
    omega
  · intro e he field hfield
    apply hrule e he
    revert field
    decide
  intro e he field _
  apply hindex e he
  revert field
  decide

theorem lt_of_trueOffsets (htwo : 2 ≤ c.tableEntries) (h : TrueOffsets c) :
    c.tblAddrOffset + 4 * c.tableEntries < 65538 := by
  have hlast : c.tableEntries - 1 < c.totalEntries := by
    rw [IpaNatIp4TableCache.totalEntries]
    omega
  have hslot : slotOf c (c.tableEntries - 1) = c.tableEntries - 1 := if_pos (by omega)
  have heq := h.copyIndexRule _ hlast
  rw [copyIndexRuleOffset, indexPos, hslot, indexTableEntrySize, indexRuleNextFieldOffset] at heq
  have hlt : u16 (u16 (u32 (ipaNatiGetIndexEntryOffset c (c.tableEntries - 1))) + 2) < 65536 := Nat.mod_lt _ (by decide)
  omega

end

/-! ### The commands

The offsets are those of the commands that the functions issue. -/

section

variable {c : IpaNatIp4TableCache} {ok : Bool} {s : NatHw} {entry : ℕ}

/-- The command of `ipa_nati_copy_ipv4_rule_to_hw()`, once the entry is written. -/
theorem copyRule_cmd {rule : IpaNatRule} (hprev : rule.prevIndex ≠ invalidNatEntry)
    (hw : s.cache.writeRule (tblOf s.cache entry) (slotOf s.cache entry) rule = some c)
    (hlt : ipaNatiGetEntryOffset c (slotOf c rule.prevIndex) + ruleNextFieldOffset < 2 ^ 32) :
    ipaNatiCopyIpv4RuleToHw ok s rule entry =
      ipaNatiWriteNextIndex ok (s.step c) (tblOf c rule.prevIndex) entry (copyRuleOffset c rule.prevIndex) := by
  have hoff : copyRuleOffset c rule.prevIndex = ipaNatiGetEntryOffset c (slotOf c rule.prevIndex) + ruleNextFieldOffset := by
    rw [copyRuleOffset, u32_of_lt (n := ipaNatiGetEntryOffset c (slotOf c rule.prevIndex)) (by omega), u32_of_lt hlt]
  rw [hoff]
  simp [ipaNatiCopyIpv4RuleToHw, hw, hprev, NatHw.step]

/-- The command of `ipa_nati_copy_ipv4_index_rule_to_hw()`, once the entry is written. -/
theorem copyIndexRule_cmd {rule : IpaNatIndxTblSwRule} (hprev : rule.prevIndex ≠ invalidNatEntry)
    (hw : s.cache.writeIndx (indxTblOf s.cache entry) (slotOf s.cache entry) ⟨rule.tblEntry, rule.nextIndex⟩ = some c) :
    ipaNatiCopyIpv4IndexRuleToHw ok s rule entry =
      ipaNatiWriteNextIndex ok (s.step c) (indxTblOf c rule.prevIndex) entry (copyIndexRuleOffset c rule.prevIndex) := by
  have hcut : ∀ n, u16 (u32 n) = u16 n := fun n => Nat.mod_mod_of_dvd n (by decide)
  rw [copyIndexRuleOffset, hcut]
  simp [ipaNatiCopyIpv4IndexRuleToHw, hw, hprev, NatHw.step]

theorem offset_eq_u32 {n field : ℕ} (hlt : n + field < 2 ^ 32) : n + field = u32 (u32 n + field) := by
  rw [u32_of_lt (n := n) (by omega), u32_of_lt hlt]

/-- The command of `ipa_nati_post_del_dma_cmd()` for the rule tables. -/
theorem ruleDelCmd_offset {expnTbl : Bool} {pos : DelType} {cmd : IpaIocNatDmaOne}
    (h : ruleDelCmd c entry expnTbl pos = some cmd) (hlt : cmd.offset < 2 ^ 32) :
    ∃ slot, ∃ field ∈ [ruleNextFieldOffset, ruleFlagFieldOffset, ruleProtoFieldOffset],
      cmd.offset = delRuleOffset c slot field := by
  cases pos with
  | onlyOne =>
    cases h
    exact ⟨entry, _, by simp, offset_eq_u32 hlt⟩
  | head =>
    cases h
    exact ⟨entry, _, by simp, offset_eq_u32 hlt⟩
  | middle | last =>
    obtain ⟨r, -, h⟩ := bind_eq_some_iff.mp h
    cases h
    exact ⟨slotOf c r.prevIndex, _, by simp, offset_eq_u32 hlt⟩

/-- The commands of `ipa_nati_post_del_dma_cmd()` for the index tables. -/
theorem indexDelCmds_offset {pos : DelType} {cmds : List IpaIocNatDmaOne} (h : indexDelCmds c entry pos = some cmds)
    {cmd : IpaIocNatDmaOne} (hmem : cmd ∈ cmds) (hlt : cmd.offset < 2 ^ 32) :
    ∃ slot, ∃ field ∈ [indexRuleNatIndexFieldOffset, indexRuleNextFieldOffset],
      cmd.offset = delIndexOffset c slot field := by
  cases pos with
  | onlyOne =>
    cases h
    obtain rfl := List.mem_singleton.mp hmem
    exact ⟨slotOf c entry, _, by simp, offset_eq_u32 hlt⟩
  | head =>
    obtain ⟨next, -, h⟩ := bind_eq_some_iff.mp h
    obtain ⟨r, -, h⟩ := bind_eq_some_iff.mp h
    cases h
    rcases List.mem_pair.mp hmem with rfl | rfl
    · exact ⟨slotOf c entry, _, by simp, offset_eq_u32 hlt⟩
    · exact ⟨slotOf c entry, _, by simp, offset_eq_u32 hlt⟩
  | middle =>
    obtain ⟨prev, -, h⟩ := bind_eq_some_iff.mp h
    obtain ⟨r, -, h⟩ := bind_eq_some_iff.mp h
    cases h
    obtain rfl := List.mem_singleton.mp hmem
    exact ⟨slotOf c prev, _, by simp, offset_eq_u32 hlt⟩
  | last =>
    obtain ⟨prev, -, h⟩ := bind_eq_some_iff.mp h
    cases h
    obtain rfl := List.mem_singleton.mp hmem
    exact ⟨slotOf c prev, _, by simp, offset_eq_u32 hlt⟩

end

/-! ### The geometry -/

theorem geometry_of_goodSize (hn : n < 65536) (h : GoodSize n off) : Geometry n (u16 (basePow n)) (expnTableEntriesOf n) off := by
  obtain ⟨hne, hlt⟩ := h
  have hlt : off + 4 * basePow n < 65538 := hlt
  have htwo := basePow_two_le n
  have hexpn := expn_le_basePow hn
  rw [u16_of_lt (by omega)]
  constructor
  · exact ⟨_, rfl⟩
  · exact htwo
  · exact Nat.le_of_succ_le (expnTableEntriesOf_ge n hn)
  · exact total_ge hn hne
  · show _ < 65536
    omega
  · exact fun _ _ _ _ => maskedHash_mem _ htwo (by omega)
  · exact fun _ _ _ _ _ => maskedHash_mem _ htwo (by omega)
  intro c hc hce hco
  apply trueOffsets_of_lt
  · rw [hc, hce]
    exact hexpn
  · rw [hc, hco]
    exact hlt

theorem goodSize_of_geometry (hn : n < 65536) (h : Geometry n (u16 (basePow n)) (expnTableEntriesOf n) off) : GoodSize n off := by
  -- The power of two fits into 16 bits.
  have hbase : u16 (basePow n) = basePow n := by
    have hle := basePow_le hn
    have hge := h.base_ge
    rcases Nat.lt_or_eq_of_le hle with hlt | heq
    · exact u16_of_lt hlt
    · rw [heq] at hge
      exact nomatch hge
  rw [hbase] at h
  constructor
  · rintro j _ rfl
    have hpos := Nat.two_pow_pos j
    have heven : 2 ^ j % 2 = 0 := Nat.mod_eq_zero_of_dvd (dvd_pow_self 2 (by omega))
    have h4 : (5 * 2 ^ j + 1) * 4 / 5 = 2 ^ (j + 2) := by rw [Nat.pow_add]; omega
    have hpow : basePow (5 * 2 ^ j + 1) = 2 ^ (j + 2) := by
      rw [basePow, h4, Nat.clog_pow 2 _ Nat.one_lt_two, max_eq_right (by omega)]
    have hexpn := expnTableEntriesOf_eq _ hn
    rw [show (5 * 2 ^ j + 1) / 5 = 2 ^ j by omega, if_neg (by omega), if_pos heven] at hexpn
    have htotal := h.total
    rw [hpow, hexpn, Nat.pow_add] at htotal
    omega
  let c : IpaNatIp4TableCache :=
    { (default : IpaNatIp4TableCache) with
      tableEntries := basePow n
      expnTableEntries := expnTableEntriesOf n
      tblAddrOffset := off }
  exact lt_of_trueOffsets (c := c) (basePow_two_le n) (h.offsets c rfl rfl rfl)

/-- **The geometry of a table is right** exactly for the good sizes. -/
theorem table_geometry (env : AddTblEnv) (ipaFd fd : ℤ) (numberOfEntries : ℕ) (mem : IpaIocNatAllocMem)
    (tableEntries expnTableEntries : ℕ) (hle : 1 ≤ numberOfEntries ∧ numberOfEntries ≤ 65535)
    (h : ipaNatiAllocTable env ipaFd numberOfEntries = some ((0, fd), some (mem, tableEntries, expnTableEntries))) :
    Geometry numberOfEntries tableEntries expnTableEntries mem.offset ↔ GoodSize numberOfEntries mem.offset := by
  have hn : numberOfEntries < 65536 := Nat.lt_succ_of_le hle.2
  obtain ⟨rfl, rfl⟩ := ipaNatiAllocTable_eq hn h
  exact ⟨goodSize_of_geometry hn, geometry_of_goodSize hn⟩

/-- The answers of a system with memory at offset 0. -/
def plainEnv : AddTblEnv := ⟨3, some 0, true, true, 4, .mapped (fun _ => default) (fun _ => default), true⟩

theorem table_geometry_100 : Geometry 100 128 20 0 := by
  apply (table_geometry plainEnv 0 3 100 ⟨5328, 0⟩ 128 20 (by decide) rfl).mpr
  constructor
  · intro j _
    omega
  · have hclog : Nat.clog 2 (100 * 4 / 5) = 7 := clog_of_between (i := 6) (by decide) (by decide)
    rw [hclog]
    decide

/-- The base table of the largest table has no entry. -/
theorem table_geometry_fails : ¬ ∀ (env : AddTblEnv) (ipaFd fd : ℤ) (numberOfEntries : ℕ) (mem : IpaIocNatAllocMem)
      (tableEntries expnTableEntries : ℕ), 1 ≤ numberOfEntries ∧ numberOfEntries ≤ 65535 →
      ipaNatiAllocTable env ipaFd numberOfEntries = some ((0, fd), some (mem, tableEntries, expnTableEntries)) →
      Geometry numberOfEntries tableEntries expnTableEntries mem.offset := by
  intro h
  have hgeom := h plainEnv 0 3 65535 ⟨471888, 0⟩ 0 13108 (by decide) rfl
  exact absurd hgeom.base_ge (by decide)

end G4Common.IpaNat

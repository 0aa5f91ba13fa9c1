/-
What `ipa_nati_del_ipv4_rule()` does to a table that satisfies the invariant,
write by write.

The sixteen combinations of positions are not treated one by one.  A deletion
makes at most one change to the links of each table, and where and what it is
depends on the position in that table alone: `ruleTarget` and `ruleChange` for
the rule tables, `indxTarget` and `indxChange` for the index tables.  The
updates after the ioctl are described in the same way.
-/
import G4Common.IpaNat.AddInv

namespace G4Common.IpaNat

open Option

/-! ### The commands -/

section

variable (c : IpaNatIp4TableCache)

/-- The rule entry that the command for the rule tables writes: the entry
itself if it is in the base table, its predecessor otherwise. -/
def ruleTarget (e : ℕ) : ℕ := if c.tableEntries ≤ e then rulePrev c e else e

/-- What the command writes there. -/
def ruleChange (e : ℕ) (r : IpaNatRule) : IpaNatRule :=
  if c.tableEntries ≤ e then r.setNext (ruleNext c e)
  else if ruleNext c e = 0 then r.setFlags flagDisableBitMask
  else r.setProto invalidProtoFieldValue

/-- The tables after the command for the rule tables. -/
def delRuleCmd (e : ℕ) (x : IpaNatIp4TableCache) : IpaNatIp4TableCache :=
  x.setRule (ruleTarget c e) (ruleChange c e (x.rules.get (ruleTarget c e)))

/-- The index entry that the commands for the index tables write. -/
def indxTarget (i : ℕ) : ℕ := if c.tableEntries ≤ i then indxPrev c i else i

/-- What the first command writes there. -/
def indxChange (i : ℕ) (r : IpaNatIndxTblRule) : IpaNatIndxTblRule :=
  if c.tableEntries ≤ i then r.setNext (indxNext c i)
  else if indxNext c i = 0 then r.setEntry invalidNatEntry
  else r.setEntry (entryOf c (indxNext c i))

/-- Index entry `i` is a head with followers: its successor moves up. -/
def MovesUp (i : ℕ) : Prop := i < c.tableEntries ∧ indxNext c i ≠ 0

instance (i : ℕ) : Decidable (MovesUp c i) := inferInstanceAs (Decidable (_ ∧ _))

/-- The tables after the first command for the index tables. -/
def delIndxCmd (i : ℕ) (x : IpaNatIp4TableCache) : IpaNatIp4TableCache :=
  x.setIndx (indxTarget c i) (indxChange c i (x.indx.get (indxTarget c i)))

/-- The tables after the second command, which a head with followers needs. -/
def delIndxCmd' (i : ℕ) (x : IpaNatIp4TableCache) : IpaNatIp4TableCache :=
  if MovesUp c i then x.setIndx i ((x.indx.get i).setNext (indxNext c (indxNext c i))) else x

end

section

variable {c x : IpaNatIp4TableCache} {D X : ℕ → List ℕ} {e i : ℕ}

theorem delTypeOf_eq (expn : Bool) (n : ℕ) : delTypeOf expn n = if expn then (if n = 0 then .last else .middle)
      else if n = 0 then .onlyOne else .head := by
  by_cases hn : n = 0 <;> cases expn <;> simp [delTypeOf, invalidNatEntry, hn]

theorem ruleTbl_tblOf : ruleTbl (decide (c.tableEntries ≤ e)) = tblOf c e := by
  by_cases hT : c.tableEntries ≤ e
  · simp [ruleTbl, hT, (tblOf_expn hT).1]
  · simp [ruleTbl, hT, (tblOf_base (Nat.lt_of_not_le hT)).1]

/-- A DMA command to a rule entry, with the command computed from tables of the
same geometry. -/
theorem natDmaOne_rule_of_geom (off data : ℕ) {r : IpaNatRule} (hs : Shaped c) (hx : Shaped x)
    (hg : SameGeom c x) (he : e < c.totalEntries) (hoff : off < tableEntrySize)
    (hr : pokeRule off data (x.rules.get e) = some r) :
    natDmaOne x ⟨tblOf c e, ipaNatiGetEntryOffset c (slotOf c e) + off, data⟩
      = some (x.setRule e r) := by
  have hdma := natDmaOne_rule off data hx (hg.total.symm ▸ he) hoff hr
  unfold ipaNatiGetEntryOffset at hdma ⊢
  rwa [hg.tblOf, hg.slotOf, hx.offset, ← hs.offset] at hdma

theorem natDmaOne_indx_of_geom (off data : ℕ) {r : IpaNatIndxTblRule} (hs : Shaped c)
    (hx : Shaped x) (hg : SameGeom c x) (hi : i < c.totalEntries)
    (hoff : off < indexTableEntrySize) (hr : pokeIndx off data (x.indx.get i) = some r) :
    natDmaOne x ⟨indxTblOf c i, ipaNatiGetIndexEntryOffset c (slotOf c i) + off, data⟩
      = some (x.setIndx i r) := by
  have hdma := natDmaOne_indx off data hx (hg.total.symm ▸ hi) hoff hr
  unfold ipaNatiGetIndexEntryOffset at hdma ⊢
  rwa [hg.indxTblOf, hg.slotOf, hx.offset, ← hs.offset] at hdma

theorem TblInv.next_lt (h : TblInv c D X) (hs : Shaped c) (he : ruleUsed c e) : ruleNext c e < c.totalEntries := by
  by_cases hn : ruleNext c e = 0
  · have := hs.lt_total
    omega
  · exact h.used_lt hs (h.dst.next_used he hn)

theorem TblInv.indxNext_lt (h : TblInv c D X) (hs : Shaped c) (hi : indxUsed c i) : indxNext c i < c.totalEntries := by
  by_cases hn : indxNext c i = 0
  · have := hs.lt_total
    omega
  · exact h.indx_lt hs (h.idx.next_used hi hn)

theorem TblInv.entryOf_lt (h : TblInv c D X) (hs : Shaped c) (hi : indxUsed c i) : entryOf c i < c.totalEntries :=
  h.used_lt hs (liveAt_used (h.pair.bwd i hi).1)

theorem Shaped.u16_of_lt_total {n : ℕ} (hs : Shaped c) (hn : n < c.totalEntries) : u16 n = n :=
  u16_of_lt (by have := hs.total_le; omega)

theorem TblInv.ruleTarget_lt (h : TblInv c D X) (hs : Shaped c) (he : ruleUsed c e) :
    ruleTarget c e < c.totalEntries := by
  unfold ruleTarget
  split
  · exact h.used_lt hs (h.dst.next_prev he ‹_›).1
  · exact h.used_lt hs he

theorem TblInv.indxTarget_lt (h : TblInv c D X) (hs : Shaped c) (hi : indxUsed c i) :
    indxTarget c i < c.totalEntries := by
  unfold indxTarget
  split
  · exact h.indx_lt hs (h.idx.next_prev hi ‹_›).1
  · exact h.indx_lt hs hi

theorem ruleDelCmd_spec (hs : Shaped c) (h : TblInv c D X) (he : ruleUsed c e) :
    ∃ cmd, ruleDelCmd c (slotOf c e) (decide (c.tableEntries ≤ e))
        (delTypeOf (decide (c.tableEntries ≤ e)) (ruleNext c e)) = some cmd ∧
      cmd.isIndex = false ∧
      ∀ x, SameGeom c x → Shaped x → natDmaOne x cmd = some (delRuleCmd c e x) := by
  have hlt := h.used_lt hs he
  have hread := readRule_tblOf hs hlt
  have htgt := h.ruleTarget_lt hs he
  have hu := hs.u16_of_lt_total (h.next_lt hs he)
  by_cases hT : c.tableEntries ≤ e
  · -- middle and last: both redirect the predecessor to the successor
    have hprev : ruleTarget c e = rulePrev c e := if_pos hT
    rw [hprev] at htgt
    refine ⟨⟨tblOf c (rulePrev c e), ipaNatiGetEntryOffset c (slotOf c (rulePrev c e))
      + ruleNextFieldOffset, ruleNext c e⟩, ?_, ?_, fun x hg hx => ?_⟩
    · rw [← ruleTbl_tblOf] at hread
      by_cases hn : ruleNext c e = 0
      · simp [ruleDelCmd, delTypeOf_eq, hT, hn] at hread ⊢
        simp [hread, rulePrev, invalidNatEntry]
      · simp [ruleDelCmd, delTypeOf_eq, hT, hn] at hread ⊢
        simp [hread, rulePrev, ruleNext]
    · simp only [IpaIocNatDmaOne.isIndex, tblOf]
      split <;> rfl
    have hpoke : pokeRule ruleNextFieldOffset (ruleNext c e) (x.rules.get (rulePrev c e))
        = some ((x.rules.get (rulePrev c e)).setNext (ruleNext c e)) := by
      simp [pokeRule, hu]
    rw [natDmaOne_rule_of_geom _ _ hs hx hg htgt (by decide) hpoke]
    simp [delRuleCmd, ruleTarget, ruleChange, hT]
  have hbase := tblOf_base (Nat.lt_of_not_le hT)
  have hself : ruleTarget c e = e := if_neg hT
  by_cases hn : ruleNext c e = 0
  · refine ⟨⟨.base, ipaNatiGetEntryOffset c (slotOf c e) + ruleFlagFieldOffset,
      flagDisableBitMask⟩, ?_, rfl, fun x hg hx => ?_⟩
    · simp [ruleDelCmd, delTypeOf_eq, hT, hn]
    have hdma := natDmaOne_rule_of_geom ruleFlagFieldOffset flagDisableBitMask hs hx hg hlt
      (by decide) rfl
    rw [hbase.1] at hdma
    rw [hdma]
    simp [delRuleCmd, hself, ruleChange, hT, hn]
    rfl
  refine ⟨⟨.base, ipaNatiGetEntryOffset c (slotOf c e) + ruleProtoFieldOffset,
    invalidProtoFieldValue⟩, ?_, rfl, fun x hg hx => ?_⟩
  · simp [ruleDelCmd, delTypeOf_eq, hT, hn]
  have hdma := natDmaOne_rule_of_geom ruleProtoFieldOffset invalidProtoFieldValue hs hx hg
    hlt (by decide) rfl
  rw [hbase.1] at hdma
  rw [hdma]
  simp [delRuleCmd, hself, ruleChange, hT, hn]
  rfl

theorem readMeta_of_expn (hs : Shaped c) (hi : i < c.totalEntries) (hT : c.tableEntries ≤ i) :
    c.indexExpnTableMeta.read (slotOf c i) = some (indxPrev c i) := by
  have hlt : i - c.tableEntries < c.indexExpnTableMeta.size := by
    rw [hs.metas]
    unfold IpaNatIp4TableCache.totalEntries at hi
    omega
  rw [(tblOf_expn hT).2, CArray.read_of_lt hlt]
  rfl

/-- The successor of an occupied index entry is found in the expansion
table. -/
theorem TblInv.readIndx_next (h : TblInv c D X) (hs : Shaped c) (hi : indxUsed c i) (hn : indxNext c i ≠ 0) :
    sub16 (indxNext c i) c.tableEntries = indxNext c i - c.tableEntries ∧
      c.readIndx .indexExpn (indxNext c i - c.tableEntries)
        = some (c.indx.get (indxNext c i)) := by
  have hover := h.idx.next_overflow hi hn
  have hle := hs.total_le
  unfold IpaNatIp4TableCache.totalEntries at hover hle
  refine ⟨sub16_of_le (by omega) (by omega), ?_⟩
  rw [readIndx_expn hs (by omega)]
  congr 2
  omega

theorem indxNextEntry_eq (hs : Shaped c) (h : TblInv c D X) (hi : indxUsed c i) (hn : indxNext c i ≠ 0) :
    indxNextEntry c i = some (indxNext c i - c.tableEntries) := by
  have hread := readIndx_indxTblOf hs (h.indx_lt hs hi)
  have hsub := (h.readIndx_next hs hi hn).1
  unfold indxNext at hsub ⊢
  simp [indxNextEntry, hread, hsub]

/-- The commands for the index tables do what `delIndxCmd` and `delIndxCmd'`
say. -/
theorem indexDelCmds_spec (hs : Shaped c) (h : TblInv c D X) (hi : indxUsed c i) :
    ∃ cmds, indexDelCmds c i (delTypeOf (decide (c.tableEntries ≤ i)) (indxNext c i))
        = some cmds ∧
      cmds ≠ [] ∧ (∀ cmd ∈ cmds, cmd.isIndex) ∧
      ∀ s : NatHw, SameGeom c s.cache → Shaped s.cache → ∃ tr, ∀ rest,
        natDma s (cmds ++ rest)
          = natDma ⟨delIndxCmd' c i (delIndxCmd c i s.cache), s.seen ++ tr⟩ rest ∧
        ∀ x ∈ tr, x = delIndxCmd c i s.cache ∨
          x = delIndxCmd' c i (delIndxCmd c i s.cache) := by
  have hlt := h.indx_lt hs hi
  have hread := readIndx_indxTblOf hs hlt
  have htgt := h.indxTarget_lt hs hi
  have hu := hs.u16_of_lt_total (h.indxNext_lt hs hi)
  by_cases hT : c.tableEntries ≤ i
  · -- middle and last: both redirect the predecessor to the successor
    have hprev : indxTarget c i = indxPrev c i := if_pos hT
    rw [hprev] at htgt
    have hmeta := readMeta_of_expn hs hlt hT
    have hup : ¬ MovesUp c i := fun hm => by have := hm.1; omega
    refine ⟨[⟨indxTblOf c (indxPrev c i), ipaNatiGetIndexEntryOffset c
      (slotOf c (indxPrev c i)) + indexRuleNextFieldOffset, indxNext c i⟩], ?_, by simp, ?_,
      fun s hg hx => ⟨[delIndxCmd c i s.cache], fun rest => ⟨?_, by simp⟩⟩⟩
    · by_cases hn : indxNext c i = 0
      · simp [indexDelCmds, delTypeOf_eq, hT, hn, hmeta, invalidNatEntry]
      · simp [indexDelCmds, delTypeOf_eq, hT, hn, hmeta, hread]
        rfl
    · simp only [List.mem_singleton, forall_eq, IpaIocNatDmaOne.isIndex, indxTblOf]
      split <;> rfl
    have hpoke : pokeIndx indexRuleNextFieldOffset (indxNext c i)
        (s.cache.indx.get (indxPrev c i))
        = some ((s.cache.indx.get (indxPrev c i)).setNext (indxNext c i)) := by
      simp [pokeIndx, hu, indexRuleNatIndexFieldOffset, indexRuleNextFieldOffset]
    have hdma := natDmaOne_indx_of_geom _ _ hs hx hg htgt (by decide) hpoke
    simp [natDma, hdma, delIndxCmd, delIndxCmd', hup, hprev, indxChange, hT, NatHw.step]
  have hbase := tblOf_base (Nat.lt_of_not_le hT)
  have htbl := indxTblOf_base (Nat.lt_of_not_le hT)
  have hself : indxTarget c i = i := if_neg hT
  by_cases hn : indxNext c i = 0
  · have hup : ¬ MovesUp c i := fun hm => hm.2 hn
    refine ⟨[⟨.indx, ipaNatiGetIndexEntryOffset c (slotOf c i) + indexRuleNatIndexFieldOffset,
      invalidNatEntry⟩], ?_, by simp, by simp [IpaIocNatDmaOne.isIndex],
      fun s hg hx => ⟨[delIndxCmd c i s.cache], fun rest => ⟨?_, by simp⟩⟩⟩
    · simp [indexDelCmds, delTypeOf_eq, hT, hn]
    have hdma := natDmaOne_indx_of_geom indexRuleNatIndexFieldOffset invalidNatEntry hs hx hg
      hlt (by decide) rfl
    rw [htbl] at hdma
    simp [natDma, hdma, delIndxCmd, delIndxCmd', hup, hself, indxChange, hT, hn, NatHw.step]
    rfl
  have hup : MovesUp c i := ⟨Nat.lt_of_not_le hT, hn⟩
  have hsucc := h.idx.next_used hi hn
  obtain ⟨-, hnext⟩ := h.readIndx_next hs hi hn
  have hu1 := hs.u16_of_lt_total (h.entryOf_lt hs hsucc)
  have hu2 := hs.u16_of_lt_total (h.indxNext_lt hs hsucc)
  refine ⟨[⟨.indx, ipaNatiGetIndexEntryOffset c (slotOf c i) + indexRuleNatIndexFieldOffset,
      entryOf c (indxNext c i)⟩,
    ⟨.indx, ipaNatiGetIndexEntryOffset c (slotOf c i) + indexRuleNextFieldOffset,
      indxNext c (indxNext c i)⟩], ?_, by simp, by simp [IpaIocNatDmaOne.isIndex],
    fun s hg hx => ⟨[delIndxCmd c i s.cache, delIndxCmd' c i (delIndxCmd c i s.cache)],
      fun rest => ⟨?_, by simp⟩⟩⟩
  · simp only [indexDelCmds, delTypeOf_eq, hT, hn, decide_false, if_false,
      Bool.false_eq_true, indxNextEntry_eq hs h hi hn, bind_eq_bind,
      bind_some, hnext]
    rfl
  have hpoke1 : pokeIndx indexRuleNatIndexFieldOffset (entryOf c (indxNext c i))
      (s.cache.indx.get i)
      = some ((s.cache.indx.get i).setEntry (entryOf c (indxNext c i))) := by
    simp [pokeIndx, hu1]
  have hdma1 := natDmaOne_indx_of_geom _ _ hs hx hg hlt (by decide) hpoke1
  have hcmd : s.cache.setIndx i ((s.cache.indx.get i).setEntry (entryOf c (indxNext c i)))
      = delIndxCmd c i s.cache := by
    simp [delIndxCmd, hself, indxChange, hT, hn]
  rw [htbl, hcmd] at hdma1
  have hpoke2 : pokeIndx indexRuleNextFieldOffset (indxNext c (indxNext c i))
      ((delIndxCmd c i s.cache).indx.get i)
      = some (((delIndxCmd c i s.cache).indx.get i).setNext
          (indxNext c (indxNext c i))) := by
    simp [pokeIndx, hu2, indexRuleNatIndexFieldOffset, indexRuleNextFieldOffset]
  have hx1 : Shaped (delIndxCmd c i s.cache) := hx.setIndx _
  have hg1 : SameGeom c (delIndxCmd c i s.cache) := hg.setIndx _ _
  have hdma2 := natDmaOne_indx_of_geom _ _ hs hx1 hg1 hlt (by decide) hpoke2
  rw [htbl] at hdma2
  simp [natDma, hdma1, hdma2, delIndxCmd', hup, NatHw.step]

/-- The commands for the index tables are moved in front of the one for the
rule tables. -/
theorem reorderCmds_eq {cmd : IpaIocNatDmaOne} {cmds : List IpaIocNatDmaOne}
    (hcmd : cmd.isIndex = false) (hne : cmds ≠ []) (hall : ∀ a ∈ cmds, a.isIndex) :
    reorderCmds (cmd :: cmds) = cmds ++ [cmd] := by
  cases cmds with
  | nil => exact absurd rfl hne
  | cons a =>
    have ha := hall a (by simp)
    simp [reorderCmds, List.findIdx?_cons, hcmd, ha]

end

/-! ### The updates by the CPU -/

section

variable (c : IpaNatIp4TableCache)

/-- The successor of `e` gets the previous index of `e`. -/
def delPrevUpd (e : ℕ) (x : IpaNatIp4TableCache) : IpaNatIp4TableCache :=
  if c.tableEntries ≤ e ∧ ruleNext c e ≠ 0 then
    x.setRule (ruleNext c e) ((x.rules.get (ruleNext c e)).updatePrevIndx (rulePrev c e))
  else x

/-- Rule entry `e` is set to zero, unless it is a head with followers. -/
def delFreed (e : ℕ) (x : IpaNatIp4TableCache) : IpaNatIp4TableCache :=
  if e < c.tableEntries ∧ ruleNext c e ≠ 0 then x else x.setRule e default

/-- The back links of the index table, without those of the deleted entry. -/
def metaAfter (i : ℕ) (m : CArray ℕ) : CArray ℕ :=
  if i < c.tableEntries then
    if indxNext c i ≠ 0 ∧ indxNext c (indxNext c i) ≠ 0 then
      m.set (indxNext c (indxNext c i) - c.tableEntries) i
    else m
  else if indxNext c i ≠ 0 then
    (m.set (indxNext c i - c.tableEntries) (indxPrev c i)).set (i - c.tableEntries) 0
  else m

def delMeta (i : ℕ) (x : IpaNatIp4TableCache) : IpaNatIp4TableCache :=
  { x with indexExpnTableMeta := metaAfter c i x.indexExpnTableMeta }

/-- The index entry that becomes free: the successor if it has moved up, the
entry itself otherwise. -/
def indxFreed (i : ℕ) : ℕ := if MovesUp c i then indxNext c i else i

/-- That index entry is set to zero. -/
def delIndxFreed (i : ℕ) (x : IpaNatIp4TableCache) : IpaNatIp4TableCache :=
  x.setIndx (indxFreed c i) default

/-- A rule whose index entry has moved up gets the new index entry. -/
def delMoved (i : ℕ) (x : IpaNatIp4TableCache) : IpaNatIp4TableCache :=
  if MovesUp c i then
    x.setRule (entryOf c (indxNext c i))
      ((x.rules.get (entryOf c (indxNext c i))).updateIndxTblEntry i)
  else x

end

section

variable {c : IpaNatIp4TableCache} {D X : ℕ → List ℕ} {e i : ℕ} {s : NatHw}

theorem ruleDelUpdate_spec (hs : Shaped c) (h : TblInv c D X) (he : ruleUsed c e)
    (hg : SameGeom c s.cache) (hx : Shaped s.cache) (hsame : c.tableEntries ≤ e → s.cache.rules.get e = c.rules.get e) :
    ∃ tr, ruleDelUpdate s (slotOf c e) (decide (c.tableEntries ≤ e))
        (delTypeOf (decide (c.tableEntries ≤ e)) (ruleNext c e))
        = some ⟨delFreed c e (delPrevUpd c e s.cache), s.seen ++ tr⟩ ∧
      ∀ x ∈ tr, x = delPrevUpd c e s.cache ∨ x = delFreed c e (delPrevUpd c e s.cache) := by
  have hlt := h.used_lt hs he
  have hlt' : e < s.cache.totalEntries := by rwa [hg.total]
  have hread := readRule_tblOf hx hlt'
  have hwrite := writeRule_tblOf hx hlt' default
  rw [hg.tblOf, hg.slotOf, ← ruleTbl_tblOf] at hread hwrite
  by_cases hT : c.tableEntries ≤ e
  · have hnT : ¬ e < c.tableEntries := by omega
    by_cases hn : ruleNext c e = 0
    · refine ⟨[delFreed c e (delPrevUpd c e s.cache)], ?_, by simp⟩
      simp only [hT, decide_true] at hwrite
      simp [ruleDelUpdate, delTypeOf_eq, hT, hn, hwrite, delFreed, delPrevUpd, hnT, NatHw.step]
    obtain ⟨hTn, hnN⟩ := h.dst.next_overflow he hn
    have hle := hs.total_le
    have hu := hs.u16_of_lt_total (h.used_lt hs (h.dst.next_prev he hT).1)
    have hsub : sub16 (c.rules.get e).nextIndex s.cache.tableEntries
        = ruleNext c e - c.tableEntries := by
      rw [hg.table]
      exact sub16_of_le (Nat.le_of_lt hTn) (lt_of_lt_of_le hnN (by omega))
    have hnN' : ruleNext c e < s.cache.totalEntries := by rwa [hg.total]
    have hreadn := readRule_tblOf hx hnN'
    have hwriten := writeRule_tblOf hx hnN'
      ((s.cache.rules.get (ruleNext c e)).updatePrevIndx (rulePrev c e))
    rw [hg.tblOf, hg.slotOf, (tblOf_expn (Nat.le_of_lt hTn)).1,
      (tblOf_expn (Nat.le_of_lt hTn)).2, ← hsub] at hreadn hwriten
    have hupd : s.cache.setRule (ruleNext c e)
        ((s.cache.rules.get (ruleNext c e)).updatePrevIndx (rulePrev c e))
        = delPrevUpd c e s.cache := (if_pos ⟨hT, hn⟩).symm
    rw [hupd] at hwriten
    have hg' : SameGeom c (delPrevUpd c e s.cache) := hupd ▸ hg.setRule _ _
    have hx' : Shaped (delPrevUpd c e s.cache) := hupd ▸ hx.setRule _
    have hwrite' := writeRule_tblOf hx' (e := e) (by rwa [hg'.total]) default
    have hfreed : (delPrevUpd c e s.cache).setRule e default
        = delFreed c e (delPrevUpd c e s.cache) := (if_neg fun hand => hnT hand.1).symm
    rw [hg'.tblOf, hg'.slotOf, (tblOf_expn hT).1, hfreed] at hwrite'
    refine ⟨[delPrevUpd c e s.cache, delFreed c e (delPrevUpd c e s.cache)], ?_, by simp⟩
    simp only [hT, decide_true, hsame] at hread
    have hpos : delTypeOf (decide (c.tableEntries ≤ e)) (ruleNext c e) = .middle := by
      simp [delTypeOf_eq, hT, hn]
    rw [hpos]
    simp only [ruleDelUpdate, hT, decide_true]
    refine bind_eq_some_iff.mpr ⟨_, hread, ?_⟩
    refine bind_eq_some_iff.mpr ⟨_, hreadn, ?_⟩
    refine bind_eq_some_iff.mpr ⟨_, hwriten, ?_⟩
    refine bind_eq_some_iff.mpr ⟨_, hwrite', ?_⟩
    simp [NatHw.step]
  have hlT : e < c.tableEntries := by omega
  by_cases hn : ruleNext c e = 0
  · refine ⟨[delFreed c e (delPrevUpd c e s.cache)], ?_, by simp⟩
    simp only [hT, decide_false] at hwrite
    simp [ruleDelUpdate, delTypeOf_eq, hT, hn, hwrite, delFreed, delPrevUpd, NatHw.step]
  · refine ⟨[], ?_, by simp⟩
    simp [ruleDelUpdate, delTypeOf_eq, hT, hn, delFreed, delPrevUpd, hlT]

theorem Shaped.delMeta {x : IpaNatIp4TableCache} (hx : Shaped x) : Shaped (delMeta c i x) := by
  refine ⟨hx.rules, hx.indx, ?_, hx.ids, hx.base_ge, hx.base_le, hx.expn_ge, hx.expn_le, hx.offset⟩
  unfold IpaNat.delMeta metaAfter
  split
  · split <;> exact hx.metas
  · split <;> exact hx.metas

theorem indexHeadDelUpdate_spec (hs : Shaped c) (h : TblInv c D X) (hi : indxUsed c i)
    (hm : MovesUp c i) (hg : SameGeom c s.cache) (hx : Shaped s.cache)
    (hsucc : s.cache.indx.get (indxNext c i) = c.indx.get (indxNext c i))
    (hhead : entryOf s.cache i = entryOf c (indxNext c i)) :
    ∃ tr, indexHeadDelUpdate s i (indxNext c i - c.tableEntries)
        = some ⟨delMoved c i (delIndxFreed c i (delMeta c i s.cache)), s.seen ++ tr⟩ ∧
      ∀ x ∈ tr, x = delIndxFreed c i (delMeta c i s.cache) ∨
        x = delMoved c i (delIndxFreed c i (delMeta c i s.cache)) := by
  obtain ⟨hiT, hn⟩ := hm
  obtain ⟨hTs, hsN⟩ := h.idx.next_overflow hi hn
  have hsuse := h.idx.next_used hi hn
  have hne : i ≠ indxNext c i := (h.idx.next_ne hi).symm
  have hslot : slotOf s.cache i = i := by
    rw [hg.slotOf]
    exact (tblOf_base hiT).2
  -- the back link of the second entry behind the head
  have hread : s.cache.readIndx .indexExpn (indxNext c i - c.tableEntries) = some (c.indx.get (indxNext c i)) := by
    have hr := readIndx_indxTblOf hx (hg.total.symm ▸ hsN)
    rwa [hg.indxTblOf, hg.slotOf, indxTblOf_expn (Nat.le_of_lt hTs), (tblOf_expn (Nat.le_of_lt hTs)).2, hsucc] at hr
  have hmeta : relinkNextNext s i (indxNext c (indxNext c i)) = some ⟨delMeta c i s.cache, s.seen⟩ := by
    by_cases hnn : indxNext c (indxNext c i) = 0
    · simp [relinkNextNext, hnn, delMeta, metaAfter, hiT]
    obtain ⟨hT', hN'⟩ := h.idx.next_overflow hsuse hnn
    have hw : indxNext c (indxNext c i) - c.tableEntries < s.cache.indexExpnTableMeta.size := by
      rw [hx.metas, hg.expn]
      unfold IpaNatIp4TableCache.totalEntries at hN'
      omega
    simp [relinkNextNext, hnn, hg.table, Nat.le_of_lt hT', IpaNatIp4TableCache.writeMeta,
      CArray.write_of_lt hw, delMeta, metaAfter, hiT, hn, NatHw.priv]
  -- the freed entry
  have hg1 : SameGeom c (delMeta c i s.cache) := hg.trans ⟨rfl, rfl, rfl, rfl, rfl⟩
  have hx1 : Shaped (delMeta c i s.cache) := hx.delMeta
  have hfree := writeIndx_indxTblOf hx1 (e := indxNext c i) (by rwa [hg1.total]) default
  rw [hg1.indxTblOf, hg1.slotOf, indxTblOf_expn (Nat.le_of_lt hTs), (tblOf_expn (Nat.le_of_lt hTs)).2] at hfree
  have hfreed : indxFreed c i = indxNext c i := if_pos ⟨hiT, hn⟩
  have hfree' : (delMeta c i s.cache).setIndx (indxNext c i) default = delIndxFreed c i (delMeta c i s.cache) := by
    rw [delIndxFreed, hfreed]
  rw [hfree'] at hfree
  -- the rule that has moved up
  have hg2 : SameGeom c (delIndxFreed c i (delMeta c i s.cache)) := hg1.setIndx _ _
  have hx2 : Shaped (delIndxFreed c i (delMeta c i s.cache)) := hx1.setIndx _
  have hhead' := readIndx_indxTblOf hx2 (e := i) (by rw [hg2.total]; exact h.indx_lt hs hi)
  rw [hg2.indxTblOf, hg2.slotOf, indxTblOf_base hiT, (tblOf_base hiT).2] at hhead'
  have hentry : ((delIndxFreed c i (delMeta c i s.cache)).indx.get i).tblEntry = entryOf c (indxNext c i) := by
    rw [← hhead]
    simp [delIndxFreed, IpaNatIp4TableCache.setIndx, hfreed, hne, delMeta, entryOf]
  have ht := h.entryOf_lt hs hsuse
  have hr := readRule_tblOf hx2 (e := entryOf c (indxNext c i)) (by rwa [hg2.total])
  have hw := writeRule_tblOf hx2 (e := entryOf c (indxNext c i)) (by rwa [hg2.total])
    (((delIndxFreed c i (delMeta c i s.cache)).rules.get (entryOf c (indxNext c i)) ).updateIndxTblEntry i)
  refine ⟨[delIndxFreed c i (delMeta c i s.cache),
    delMoved c i (delIndxFreed c i (delMeta c i s.cache))], ?_, by simp⟩
  have hnn : (c.indx.get (indxNext c i)).nextIndex = indxNext c (indxNext c i) := rfl
  have hmoved : delMoved c i (delIndxFreed c i (delMeta c i s.cache))
      = (delIndxFreed c i (delMeta c i s.cache)).setRule (entryOf c (indxNext c i))
        (((delIndxFreed c i (delMeta c i s.cache)).rules.get (entryOf c (indxNext c i))
          ).updateIndxTblEntry i) := if_pos ⟨hiT, hn⟩
  simp only [indexHeadDelUpdate, hslot, hread, bind_eq_bind, bind_some, hnn,
    hmeta, hfree, NatHw.step, hhead', hentry, hr, hw, hmoved]
  simp

theorem indexDelUpdate_spec (hs : Shaped c) (h : TblInv c D X) (hi : indxUsed c i)
    (hm : ¬ MovesUp c i) (hg : SameGeom c s.cache) (hx : Shaped s.cache)
    (hmeta : s.cache.indexExpnTableMeta = c.indexExpnTableMeta)
    (hsame : c.tableEntries ≤ i → s.cache.indx.get i = c.indx.get i) :
    ∃ tr, indexDelUpdate s i (delTypeOf (decide (c.tableEntries ≤ i)) (indxNext c i))
        = some ⟨delMoved c i (delIndxFreed c i (delMeta c i s.cache)), s.seen ++ tr⟩ ∧
      ∀ x ∈ tr, x = delIndxFreed c i (delMeta c i s.cache) ∨
        x = delMoved c i (delIndxFreed c i (delMeta c i s.cache)) := by
  have hlt := h.indx_lt hs hi
  have hmoved : ∀ x, delMoved c i x = x := fun x => if_neg hm
  have hfreed : indxFreed c i = i := if_neg hm
  refine ⟨[delIndxFreed c i (delMeta c i s.cache)], ?_, by simp⟩
  rw [hmoved]
  have hg1 : SameGeom c (delMeta c i s.cache) := hg.trans ⟨rfl, rfl, rfl, rfl, rfl⟩
  have hfree := writeIndx_indxTblOf (hx.delMeta (c := c) (i := i)) (e := i)
    (by rwa [hg1.total]) default
  rw [hg1.indxTblOf, hg1.slotOf] at hfree
  have hfree' : (delMeta c i s.cache).setIndx i default
      = delIndxFreed c i (delMeta c i s.cache) := by
    rw [delIndxFreed, hfreed]
  rw [hfree'] at hfree
  by_cases hmid : c.tableEntries ≤ i ∧ indxNext c i ≠ 0
  · obtain ⟨hT, hn⟩ := hmid
    have hiT : ¬ i < c.tableEntries := by omega
    obtain ⟨hTn, hnN⟩ := h.idx.next_overflow hi hn
    have hread := readIndx_indxTblOf hx (hg.total.symm ▸ hlt)
    rw [hg.indxTblOf, hg.slotOf, hsame hT] at hread
    have hback := readMeta_of_expn hs hlt hT
    unfold IpaNatIp4TableCache.totalEntries at hlt hnN
    have hw : indxNext c i - c.tableEntries < c.indexExpnTableMeta.size := by
      rw [hs.metas]
      omega
    have hw' : ∀ v, i - c.tableEntries <
        (c.indexExpnTableMeta.set (indxNext c i - c.tableEntries) v).size := fun v => by
      rw [CArray.size_set, hs.metas]
      omega
    have hnext : (c.indx.get i).nextIndex = indxNext c i := rfl
    have hdel : metaAfter c i c.indexExpnTableMeta = (c.indexExpnTableMeta.set
        (indxNext c i - c.tableEntries) (indxPrev c i)).set (i - c.tableEntries) 0 := by
      simp [metaAfter, hiT, hn]
    have hslot := (tblOf_expn hT).2
    have hrelink : relinkMiddle s i = some ⟨delMeta c i s.cache, s.seen⟩ := by
      rw [hslot] at hback hread
      simp [relinkMiddle, hread, hg.indxTblOf, hg.slotOf, hg.table, hnext, Nat.le_of_lt hTn, hmeta,
        hback, IpaNatIp4TableCache.writeMeta, CArray.write_of_lt hw, CArray.write_of_lt (hw' _),
        hslot, invalidNatEntry, NatHw.priv, delMeta, hdel]
    have hpos : delTypeOf (decide (c.tableEntries ≤ i)) (indxNext c i) = .middle := by
      simp [delTypeOf_eq, hT, hn]
    simp only [indexDelUpdate, hpos, if_true, hrelink, bind_eq_bind, bind_some,
      hg1.indxTblOf, hg1.slotOf, hfree, NatHw.step]
    rfl
  have hpos : delTypeOf (decide (c.tableEntries ≤ i)) (indxNext c i) ≠ .middle := by
    rw [delTypeOf_eq]
    by_cases hT : c.tableEntries ≤ i
    · have hn : indxNext c i = 0 := by
        by_contra hn
        exact hmid ⟨hT, hn⟩
      simp [hT, hn]
    · simp only [hT, decide_false, Bool.false_eq_true, if_false]
      split <;> simp
  have hdel : delMeta c i s.cache = s.cache := by
    have hkeep : metaAfter c i s.cache.indexExpnTableMeta = s.cache.indexExpnTableMeta := by
      unfold metaAfter
      split
      · exact if_neg fun hand => hm ⟨‹_›, hand.1⟩
      · exact if_neg fun hn => hmid ⟨by omega, hn⟩
    unfold delMeta
    rw [hkeep]
  rw [hdel] at hfree ⊢
  simp [indexDelUpdate, hpos, hg.indxTblOf, hg.slotOf, hfree, NatHw.step]

end

/-! ### The states on the way -/

section

variable (c : IpaNatIp4TableCache) (e i : ℕ)

/-- After the commands for the index tables. -/
def delUnindexed : IpaNatIp4TableCache := delIndxCmd' c i (delIndxCmd c i c)

/-- After the command for the rule tables. -/
def delUnlinked : IpaNatIp4TableCache := delRuleCmd c e (delUnindexed c i)

/-- After the updates of the rule tables. -/
def delErased : IpaNatIp4TableCache := delFreed c e (delPrevUpd c e (delUnlinked c e i))

/-- After the update of the back links and the freed index entry. -/
def delIndxErased : IpaNatIp4TableCache := delIndxFreed c i (delMeta c i (delErased c e i))

def delDone : IpaNatIp4TableCache := delMoved c i (delIndxErased c e i)

/-- The states the hardware can see before the sweep. -/
def delStates : List IpaNatIp4TableCache :=
  [delIndxCmd c i c, delUnindexed c i, delUnlinked c e i, delPrevUpd c e (delUnlinked c e i),
    delErased c e i, delIndxErased c e i, delDone c e i]

theorem delUnindexed_geom : SameGeom c (delUnindexed c i) := by
  unfold delUnindexed delIndxCmd'
  split
  · exact ((SameGeom.refl c).setIndx _ _).setIndx _ _
  · exact (SameGeom.refl c).setIndx _ _

theorem delUnlinked_geom : SameGeom c (delUnlinked c e i) := (delUnindexed_geom c i).setRule _ _

theorem delPrevUpd_geom : SameGeom c (delPrevUpd c e (delUnlinked c e i)) := by
  unfold delPrevUpd
  split
  · exact (delUnlinked_geom c e i).setRule _ _
  · exact delUnlinked_geom c e i

theorem delErased_geom : SameGeom c (delErased c e i) := by
  unfold delErased delFreed
  split
  · exact delPrevUpd_geom c e i
  · exact (delPrevUpd_geom c e i).setRule _ _

theorem delIndxErased_geom : SameGeom c (delIndxErased c e i) := by
  have hmeta : SameGeom c (delMeta c i (delErased c e i)) := (delErased_geom c e i).trans ⟨rfl, rfl, rfl, rfl, rfl⟩
  exact hmeta.setIndx _ _

theorem delDone_geom : SameGeom c (delDone c e i) := by
  unfold delDone delMoved
  split
  · exact (delIndxErased_geom c e i).setRule _ _
  · exact delIndxErased_geom c e i

variable {c}

theorem delUnindexed_shaped (hs : Shaped c) : Shaped (delUnindexed c i) := by
  unfold delUnindexed delIndxCmd'
  split
  · exact (hs.setIndx _).setIndx _
  · exact hs.setIndx _

theorem delUnlinked_shaped (hs : Shaped c) : Shaped (delUnlinked c e i) := (delUnindexed_shaped i hs).setRule _

theorem delErased_shaped (hs : Shaped c) : Shaped (delErased c e i) := by
  have hprev : Shaped (delPrevUpd c e (delUnlinked c e i)) := by
    unfold delPrevUpd
    split
    · exact (delUnlinked_shaped e i hs).setRule _
    · exact delUnlinked_shaped e i hs
  unfold delErased delFreed
  split
  · exact hprev
  · exact hprev.setRule _

theorem delDone_shaped (hs : Shaped c) : Shaped (delDone c e i) := by
  have herased : Shaped (delIndxErased c e i) := (delErased_shaped e i hs).delMeta.setIndx _
  unfold delDone delMoved
  split
  · exact herased.setRule _
  · exact herased

/-! The parts of the tables that a stage does not write. -/

variable (c)

theorem delErased_indx : (delErased c e i).indx = (delUnindexed c i).indx := by
  unfold delErased delFreed delPrevUpd
  split <;> split <;> rfl

theorem delUnindexed_rules : (delUnindexed c i).rules = c.rules := by
  unfold delUnindexed delIndxCmd'
  split <;> rfl

theorem delErased_meta : (delErased c e i).indexExpnTableMeta = c.indexExpnTableMeta := by
  unfold delErased delFreed delPrevUpd delUnlinked delRuleCmd delUnindexed delIndxCmd'
  split <;> split <;> split <;> rfl

end

section

variable {c : IpaNatIp4TableCache} {D X : ℕ → List ℕ} {e i : ℕ}

theorem TblInv.rulePrev_ne (h : TblInv c D X) (he : ruleUsed c e) (hT : c.tableEntries ≤ e) : rulePrev c e ≠ e := by
  obtain ⟨hu, hn⟩ := h.dst.next_prev he hT
  intro heq
  rw [heq] at hu hn
  exact h.dst.next_ne hu hn

theorem TblInv.indxPrev_ne (h : TblInv c D X) (hi : indxUsed c i) (hT : c.tableEntries ≤ i) : indxPrev c i ≠ i := by
  obtain ⟨hu, hn⟩ := h.idx.next_prev hi hT
  intro heq
  rw [heq] at hu hn
  exact h.idx.next_ne hu hn

theorem delUnindexed_indx (y : ℕ) :
    (delUnindexed c i).indx.get y =
      if MovesUp c i then (if y = i then c.indx.get (indxNext c i) else c.indx.get y)
      else if y = indxTarget c i then indxChange c i (c.indx.get y) else c.indx.get y := by
  by_cases hm : MovesUp c i
  · have hT : ¬ c.tableEntries ≤ i := by
      have := hm.1
      omega
    have htgt : indxTarget c i = i := if_neg hT
    have hchg : ∀ r, indxChange c i r = r.setEntry (entryOf c (indxNext c i)) := fun r => by
      simp [indxChange, hT, hm.2]
    rw [if_pos hm, delUnindexed, delIndxCmd', if_pos hm, delIndxCmd, htgt, hchg]
    rcases eq_or_ne y i with rfl | hy
    · simp [IpaNatIp4TableCache.setIndx]
      rfl
    · simp [IpaNatIp4TableCache.setIndx, hy]
  rw [if_neg hm, delUnindexed, delIndxCmd', if_neg hm, delIndxCmd]
  by_cases hy : y = indxTarget c i
  · subst hy
    simp [IpaNatIp4TableCache.setIndx]
  · simp [IpaNatIp4TableCache.setIndx, hy]

/-- **`ipa_nati_post_del_dma_cmd()`** takes a live rule out of both tables. -/
theorem ipaNatiPostDelDmaCmd_eq (hs : Shaped c) (h : TblInv c D X) (he : liveAt c e) (seen : List IpaNatIp4TableCache) :
    ∃ tr, ipaNatiPostDelDmaCmd true ⟨c, seen⟩ (slotOf c e) (decide (c.tableEntries ≤ e))
        (delTypeOf (decide (c.tableEntries ≤ e)) (ruleNext c e))
        = some (0, ⟨delDone c e (indxOf c e), seen ++ tr⟩) ∧
      ∀ x ∈ tr, x ∈ delStates c e (indxOf c e) := by
  have hu := liveAt_used he
  obtain ⟨hi, -⟩ := h.indxOf_used he
  have hlt := h.indx_lt hs hi
  have hread := readRule_tblOf hs (h.used_lt hs hu)
  rw [← ruleTbl_tblOf] at hread
  have hiread := readIndx_indxTblOf hs hlt
  obtain ⟨cmd, hcmd, hcmdIdx, hcmdRun⟩ := ruleDelCmd_spec hs h hu
  obtain ⟨cmds, hcmds, hne, hall, hcmdsRun⟩ := indexDelCmds_spec hs h hi
  obtain ⟨tr1, hrun1⟩ := hcmdsRun ⟨c, seen⟩ (SameGeom.refl c) hs
  -- the ioctl: the index commands, then the rule command
  have hioctl : ioctlNatDma true ⟨c, seen⟩ (reorderCmds (cmd :: cmds))
      = some ⟨delUnlinked c e (indxOf c e), seen ++ tr1 ++ [delUnlinked c e (indxOf c e)]⟩ := by
    have hrule := hcmdRun (delUnindexed c (indxOf c e)) (delUnindexed_geom c _) (delUnindexed_shaped _ hs)
    rw [reorderCmds_eq hcmdIdx hne hall, ioctlNatDma, if_pos rfl, (hrun1 [cmd]).1]
    refine bind_eq_some_iff.mpr ⟨_, hrule, rfl⟩
  -- the rule tables
  obtain ⟨tr2, hrules, htr2⟩ := ruleDelUpdate_spec (e := e)
    (s := ⟨delUnlinked c e (indxOf c e), seen ++ tr1 ++ [delUnlinked c e (indxOf c e)]⟩)
    hs h hu (delUnlinked_geom c e _) (delUnlinked_shaped e _ hs) (fun hT => by
      have hpe := (h.rulePrev_ne hu hT).symm
      simp [delUnlinked, delRuleCmd, IpaNatIp4TableCache.setRule, ruleTarget, hT, hpe, delUnindexed_rules])
  -- the index tables
  have hpos : ipaNatiFindIndexRulePos c (indxOf c e)
      = some (delTypeOf (decide (c.tableEntries ≤ indxOf c e)) (indxNext c (indxOf c e))) := by
    simp [ipaNatiFindIndexRulePos, hiread, indxNext]
  have hcut : ipaNatiPostDelDmaCmd true ⟨c, seen⟩ (slotOf c e) (decide (c.tableEntries ≤ e))
      (delTypeOf (decide (c.tableEntries ≤ e)) (ruleNext c e))
      = if delTypeOf (decide (c.tableEntries ≤ indxOf c e)) (indxNext c (indxOf c e)) = .head
        then do
          let nextEntry ← indxNextEntry c (indxOf c e)
          return (0, ← indexHeadDelUpdate ⟨delErased c e (indxOf c e),
            seen ++ tr1 ++ [delUnlinked c e (indxOf c e)] ++ tr2⟩ (indxOf c e) nextEntry)
        else do
          return (0, ← indexDelUpdate ⟨delErased c e (indxOf c e),
            seen ++ tr1 ++ [delUnlinked c e (indxOf c e)] ++ tr2⟩ (indxOf c e)
            (delTypeOf (decide (c.tableEntries ≤ indxOf c e)) (indxNext c (indxOf c e)))) := by
    have hen : (c.rules.get e).enable = true := hu
    have hio : (c.rules.get e).indxTblEntry = indxOf c e := rfl
    unfold ipaNatiPostDelDmaCmd
    simp only [hread, bind_eq_bind, bind_some, hen, Bool.not_true,
      Bool.false_eq_true, if_false, hio, hcmd, hpos, hcmds, hioctl, hrules]
    rfl
  have hgeom := delErased_geom c e (indxOf c e)
  have hshaped := delErased_shaped e (indxOf c e) hs
  have htr : ∀ tr3 : List IpaNatIp4TableCache,
      (∀ x ∈ tr3, x = delIndxErased c e (indxOf c e) ∨ x = delDone c e (indxOf c e)) →
      ∀ x ∈ tr1 ++ [delUnlinked c e (indxOf c e)] ++ tr2 ++ tr3,
        x ∈ delStates c e (indxOf c e) := by
    intro tr3 htr3 x hx
    simp only [List.mem_append, List.mem_singleton] at hx
    rcases hx with ((hx | rfl) | hx) | hx
    · rcases (hrun1 []).2 x hx with rfl | rfl
      · simp [delStates]
      · simp [delStates, delUnindexed]
    · simp [delStates]
    · rcases htr2 x hx with rfl | rfl
      · simp [delStates]
      · simp [delStates, delErased]
    · rcases htr3 x hx with rfl | rfl <;> simp [delStates]
  by_cases hm : MovesUp c (indxOf c e)
  · obtain ⟨tr3, hindx, htr3⟩ := indexHeadDelUpdate_spec (i := indxOf c e)
      (s := ⟨delErased c e (indxOf c e), seen ++ tr1 ++ [delUnlinked c e (indxOf c e)] ++ tr2⟩)
      hs h hi hm hgeom hshaped
      (by
        have hne := h.idx.next_ne hi
        simp [delErased_indx, delUnindexed_indx, hm, hne])
      (by simp [entryOf, delErased_indx, delUnindexed_indx, hm])
    have hhead : delTypeOf (decide (c.tableEntries ≤ indxOf c e)) (indxNext c (indxOf c e)) = .head := by
      simp [delTypeOf_eq, hm.1, hm.2]
    refine ⟨tr1 ++ [delUnlinked c e (indxOf c e)] ++ tr2 ++ tr3, ?_, htr tr3 htr3⟩
    rw [hcut, if_pos hhead]
    refine bind_eq_some_iff.mpr ⟨_, indxNextEntry_eq hs h hi hm.2, ?_⟩
    refine bind_eq_some_iff.mpr ⟨_, hindx, ?_⟩
    simp [delDone, delIndxErased]
  obtain ⟨tr3, hindx, htr3⟩ := indexDelUpdate_spec (i := indxOf c e)
    (s := ⟨delErased c e (indxOf c e), seen ++ tr1 ++ [delUnlinked c e (indxOf c e)] ++ tr2⟩)
    hs h hi hm hgeom hshaped (delErased_meta c e _)
    (fun hT => by
      have hpi := (h.indxPrev_ne hi hT).symm
      simp [delErased_indx, delUnindexed_indx, hm, indxTarget, hT, hpi])
  have hhead : delTypeOf (decide (c.tableEntries ≤ indxOf c e)) (indxNext c (indxOf c e)) ≠ .head := by
    rw [delTypeOf_eq]
    by_cases hT : c.tableEntries ≤ indxOf c e
    · by_cases hn : indxNext c (indxOf c e) = 0 <;> simp [hT, hn]
    have hn : indxNext c (indxOf c e) = 0 := by
      by_contra hn
      exact hm ⟨by omega, hn⟩
    simp [hn, hT]
  refine ⟨tr1 ++ [delUnlinked c e (indxOf c e)] ++ tr2 ++ tr3, ?_, htr tr3 htr3⟩
  rw [hcut, if_neg hhead]
  refine bind_eq_some_iff.mpr ⟨_, hindx, ?_⟩
  simp [delDone, delIndxErased]

end

end G4Common.IpaNat

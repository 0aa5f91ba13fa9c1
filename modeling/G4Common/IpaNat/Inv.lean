/-
The invariant of the NAT tables.

The two rule tables are a chained hash table (`Chained`) under the links
`nextIndex` and `prevIndex`, occupied where `enable` is set.  The two index
tables are another one, occupied where `tblEntry` is not 0, whose back links
are kept in `index_expn_table_meta`.  Live rules and occupied index entries
name each other (`Pairing`), and `rule_id_array` names every live rule once.

`D` and `X` are the chains: `D b` is the destination chain of bucket `b`,
`X b` the index chain.  They are not stored anywhere; the tables determine
them.
-/
import G4Common.IpaNat.DelRule

namespace G4Common.IpaNat

/-! ### Reading the tables -/

section

variable (c : IpaNatIp4TableCache)

/-- Next index of rule entry `e`. -/
def ruleNext (e : ℕ) : ℕ := (c.rules.get e).nextIndex

/-- Previous index of rule entry `e`. -/
def rulePrev (e : ℕ) : ℕ := (c.rules.get e).prevIndex

/-- Rule entry `e` is occupied, by a rule or by a deleted head. -/
def ruleUsed (e : ℕ) : Prop := (c.rules.get e).enable = true

/-- Rule entry `e` holds a rule. -/
def liveAt (e : ℕ) : Prop := (c.rules.get e).live = true

/-- The index entry that rule entry `e` names. -/
def indxOf (e : ℕ) : ℕ := (c.rules.get e).indxTblEntry

/-- Next index of index entry `i`. -/
def indxNext (i : ℕ) : ℕ := (c.indx.get i).nextIndex

/-- Previous index of index entry `i`, which is in the expansion table. -/
def indxPrev (i : ℕ) : ℕ := c.indexExpnTableMeta.get (i - c.tableEntries)

/-- The rule entry that index entry `i` names. -/
def entryOf (i : ℕ) : ℕ := (c.indx.get i).tblEntry

/-- Index entry `i` is occupied. -/
def indxUsed (i : ℕ) : Prop := entryOf c i ≠ 0

end

/-! ### The invariant -/

/-- The tables: two chained hash tables, unoccupied entries zero, live rules
and occupied index entries in one-to-one correspondence, every rule on the
chains of its own buckets. -/
structure TblInv (c : IpaNatIp4TableCache) (D X : ℕ → List ℕ) : Prop where
  dst : Chained c.tableEntries c.totalEntries (ruleNext c) (rulePrev c) (ruleUsed c) D
  idx : Chained c.tableEntries c.totalEntries (indxNext c) (indxPrev c) (indxUsed c) X
  pair : Pairing (liveAt c) (indxOf c) (entryOf c)
  rule_zero : ∀ e, ¬ ruleUsed c e → c.rules.get e = default
  indx_zero : ∀ i, ¬ indxUsed c i → c.indx.get i = default
  dead_head : ∀ e, ruleUsed c e → ¬ liveAt c e → e < c.tableEntries
  dst_own : ∀ b e, e ∈ D b → liveAt c e → c.dstBucket (c.rules.get e).clnt = b
  idx_own : ∀ b i, i ∈ X b → c.srcBucket (c.rules.get (entryOf c i)).clnt = b

/-- No deleted head is left without a follower. -/
def NoDeadHead (c : IpaNatIp4TableCache) : Prop :=
  ∀ e, ruleUsed c e → ¬ liveAt c e → ruleNext c e ≠ 0

/-- Every live rule has exactly one cell of `rule_id_array`, and the other
cells are free.  The last cell is never used, so that every handle passes the
range check of `ipa_nati_parse_ipv4_rule_hdl()`. -/
structure Handles (c : IpaNatIp4TableCache) : Prop where
  id_live : ∀ k, k < c.totalEntries → c.ruleIdArray.get k ≠ 0 →
    ∃ e, liveAt c e ∧ c.ruleIdArray.get k = ruleIdOf c.tableEntries e
  inj : ∀ k k', k < c.totalEntries → k' < c.totalEntries → c.ruleIdArray.get k ≠ 0 →
    c.ruleIdArray.get k = c.ruleIdArray.get k' → k = k'
  live_id : ∀ e, liveAt c e →
    ∃ k, k < c.totalEntries ∧ c.ruleIdArray.get k = ruleIdOf c.tableEntries e
  lt : ∀ k, k < c.totalEntries → c.ruleIdArray.get k ≠ 0 → k + 1 < c.totalEntries

/-- **The invariant of a NAT table between two calls.** -/
structure NatInv (c : IpaNatIp4TableCache) (D X : ℕ → List ℕ) : Prop where
  valid : c.valid = true
  shaped : Shaped c
  tbl : TblInv c D X
  noDead : NoDeadHead c
  hdl : Handles c

/-! ### First consequences -/

section

variable {c : IpaNatIp4TableCache} {D X : ℕ → List ℕ} {e i : ℕ}

theorem liveAt_used (h : liveAt c e) : ruleUsed c e := IpaNatRule.live_enable h

theorem Shaped.le_total (h : Shaped c) : c.tableEntries ≤ c.totalEntries := Nat.le_of_lt h.lt_total

theorem TblInv.used_lt (h : TblInv c D X) (hs : Shaped c) (he : ruleUsed c e) : e < c.totalEntries := by
  obtain ⟨b, hb⟩ := (h.dst.used_iff e).mp he
  exact h.dst.lt_of_mem hs.le_total hb

theorem TblInv.indx_lt (h : TblInv c D X) (hs : Shaped c) (hi : indxUsed c i) : i < c.totalEntries := by
  obtain ⟨b, hb⟩ := (h.idx.used_iff i).mp hi
  exact h.idx.lt_of_mem hs.le_total hb

theorem TblInv.indxOf_used (h : TblInv c D X) (he : liveAt c e) :
    indxUsed c (indxOf c e) ∧ entryOf c (indxOf c e) = e := by
  have hfwd := h.pair.fwd e he
  refine ⟨?_, hfwd⟩
  unfold indxUsed
  rw [hfwd]
  exact h.pair.pos e he

theorem readRule_base (hs : Shaped c) (hi : i < c.tableEntries) : c.readRule .base i = some (c.rules.get i) := by
  have := readRule_tblOf hs (Nat.lt_trans hi hs.lt_total)
  rwa [(tblOf_base hi).1, (tblOf_base hi).2] at this

theorem readRule_expn (hs : Shaped c) (hi : i < c.expnTableEntries) :
    c.readRule .expn i = some (c.rules.get (c.tableEntries + i)) := by
  have hle : c.tableEntries ≤ c.tableEntries + i := by omega
  have := readRule_tblOf hs (e := c.tableEntries + i) (by unfold IpaNatIp4TableCache.totalEntries; omega)
  rwa [(tblOf_expn hle).1, (tblOf_expn hle).2, Nat.add_sub_cancel_left] at this

theorem readIndx_base (hs : Shaped c) (hi : i < c.tableEntries) : c.readIndx .indx i = some (c.indx.get i) := by
  have := readIndx_indxTblOf hs (Nat.lt_trans hi hs.lt_total)
  rwa [indxTblOf_base hi, (tblOf_base hi).2] at this

theorem readIndx_expn (hs : Shaped c) (hi : i < c.expnTableEntries) :
    c.readIndx .indexExpn i = some (c.indx.get (c.tableEntries + i)) := by
  have hle : c.tableEntries ≤ c.tableEntries + i := by omega
  have := readIndx_indxTblOf hs (e := c.tableEntries + i) (by unfold IpaNatIp4TableCache.totalEntries; omega)
  rwa [indxTblOf_expn hle, (tblOf_expn hle).2, Nat.add_sub_cancel_left] at this

/-! ### Rule ids -/

theorem ruleIdOf_parts (hs : Shaped c) (he : e < c.totalEntries) :
    ((ruleIdOf c.tableEntries e &&& 1 != 0) = decide (c.tableEntries ≤ e)) ∧
      ruleIdOf c.tableEntries e >>> 1 = slotOf c e := by
  have h1 := hs.total_le
  unfold ruleIdOf slotOf
  by_cases hT : e < c.tableEntries
  · have hle : ¬ c.tableEntries ≤ e := by omega
    have hu : u16 (e <<< 1) = e <<< 1 := by
      rw [Nat.shiftLeft_eq]
      exact u16_of_lt (by omega)
    simp only [ge_iff_le, hle, if_false, hT, if_true, hu]
    constructor
    · rw [Nat.and_one_is_mod, Nat.shiftLeft_eq]
      simp
    · simp [Nat.shiftLeft_eq, Nat.shiftRight_eq_div_pow]
  have hle : c.tableEntries ≤ e := by omega
  have hu : u16 ((e - c.tableEntries) <<< 1) = (e - c.tableEntries) <<< 1 := by
    rw [Nat.shiftLeft_eq]
    exact u16_of_lt (by omega)
  simp only [ge_iff_le, hle, if_true, hT, if_false, hu]
  constructor
  · simp [Nat.and_one_is_mod, Nat.or_mod_two_eq_one]
  · rw [Nat.shiftRight_or_distrib]
    simp [Nat.shiftLeft_eq, Nat.shiftRight_eq_div_pow]

theorem ruleIdOf_ne_zero (hs : Shaped c) (he : e < c.totalEntries) (h0 : e ≠ 0) : ruleIdOf c.tableEntries e ≠ 0 := by
  intro hz
  obtain ⟨h1, h2⟩ := ruleIdOf_parts hs he
  rw [hz] at h1 h2
  have hT : e < c.tableEntries := by simpa using h1
  rw [(tblOf_base hT).2] at h2
  exact h0 (by simpa using h2.symm)

theorem ruleIdOf_inj {e' : ℕ} (hs : Shaped c) (he : e < c.totalEntries) (he' : e' < c.totalEntries)
    (heq : ruleIdOf c.tableEntries e = ruleIdOf c.tableEntries e') : e = e' := by
  obtain ⟨h1, h2⟩ := ruleIdOf_parts hs he
  obtain ⟨h1', h2'⟩ := ruleIdOf_parts hs he'
  rw [heq, h1'] at h1
  rw [heq, h2'] at h2
  have hiff : c.tableEntries ≤ e' ↔ c.tableEntries ≤ e := by simpa using h1
  unfold slotOf at h2
  split at h2 <;> split at h2 <;> omega

end

end G4Common.IpaNat

/-
What the driver makes of handles it did not give out.

`ipa_nat_del_ipv4_rule()` and `ipa_nat_query_timestamp()` check little of the
two handles they get: the first that both are not 0, the second the table
handle only.  Behind that

* the table handle minus 1 is cut to 8 bits, and `ip4_tbl` has one slot;
* the rule handle is cut to 16 bits for the parse, whose only check is the
  upper bound, and used in full for the reset of `rule_id_array`;
* a deletion looks whether the table is valid only when the parse is done;
* a query takes the entry of an unknown handle for entry 0 of the base table.

`handle_validation` says for which handles the two calls still reject, in any
state the driver can be in, with any outcome of the ioctls before.

The pointers to the client's rule, to its handle and to the time stamp are
taken as valid.
-/
import G4Common.IpaNat.Refine

namespace G4Common.IpaNat

open Option Bool

/-! ### Entry points for rules -/

/-- The slot of `ip4_tbl` for a table handle: `(uint8_t)(tbl_hdl - 1)`. -/
def tblIndx (tblHdl : UInt32) : ℕ := (tblHdl - 1).toUInt8.toNat

/-- `ipa_nat_add_ipv4_rule()`, with `ipa_nati_add_ipv4_rule()` on the slot of the
table handle. -/
def ipaNatAddIpv4Rule (io : AddIoctls) (s : IpaNatCache) (tblHdl : UInt32)
    (clntRule : IpaNatIpv4Rule) : Option (ℤ × Option ℕ × IpaNatCache) := do
  if tblHdl.toNat = invalidNatEntry ∨ tblHdl.toNat > maxIp4Tbls then
    return (-eINVAL, none, s)
  let slot ← s.ip4Tbl.read (tblHdl - 1).toNat
  let (ret, ruleHdl, hw) ← ipaNatiAddIpv4Rule io ⟨slot, []⟩ clntRule
  let s := { s with ip4Tbl := s.ip4Tbl.set (tblHdl - 1).toNat hw.cache }
  if ret ≠ 0 then
    return (-eINVAL, ruleHdl, s)
  return (0, ruleHdl, s)

/-- `ipa_nat_del_ipv4_rule()`, with `ipa_nati_del_ipv4_rule()` on the slot of the
table handle. -/
def ipaNatDelIpv4Rule (ok : Bool) (s : IpaNatCache) (tblHdl ruleHdl : UInt32) :
    Option (ℤ × IpaNatCache) := do
  if tblHdl.toNat = invalidNatEntry ∨ ruleHdl.toNat = invalidNatEntry then
    return (-eINVAL, s)
  let slot ← s.ip4Tbl.read (tblIndx tblHdl)
  let (ret, hw) ← ipaNatiDelIpv4Rule ok ⟨slot, []⟩ ruleHdl.toNat
  return (ret, { s with ip4Tbl := s.ip4Tbl.set (tblIndx tblHdl) hw.cache })

/-- `ipa_nati_query_timestamp()`: return value and what it stores through
`time_stamp`, if anything. -/
def ipaNatiQueryTimestamp (s : IpaNatCache) (tblHdl ruleHdl : UInt32) :
    Option (ℤ × Option ℕ) := do
  let slot ← s.ip4Tbl.read (tblIndx tblHdl)
  if !slot.valid then
    return (-eINVAL, none)
  let (expnTbl, tblEntry) ← ipaNatiParseIpv4RuleHdl slot (u16 ruleHdl.toNat)
  let r ← slot.readRule (ruleTbl expnTbl) tblEntry
  return (0, some r.timeStamp)

def ipaNatQueryTimestamp (s : IpaNatCache) (tblHdl ruleHdl : UInt32) :
    Option (ℤ × Option ℕ) :=
  if tblHdl.toNat = 0 ∨ tblHdl.toNat > maxIp4Tbls then some (-eINVAL, none)
  else ipaNatiQueryTimestamp s tblHdl ruleHdl

/-! ### Runs of the driver -/

/-- A call that may change the state, with the outcomes of its system calls. -/
inductive DrvOp
  | tbl (op : TblOp)
  | addRule (io : AddIoctls) (tblHdl : UInt32) (clntRule : IpaNatIpv4Rule)
  | delRule (ok : Bool) (tblHdl ruleHdl : UInt32)

def DrvOp.run (s : IpaNatCache) : DrvOp → Option IpaNatCache
  | .tbl op => (op.run s).map (·.2)
  | .addRule io tblHdl clntRule => (ipaNatAddIpv4Rule io s tblHdl clntRule).map (·.2.2)
  | .delRule ok tblHdl ruleHdl => (ipaNatDelIpv4Rule ok s tblHdl ruleHdl).map (·.2)

/-- The states the driver gets into, by calls with any arguments and any
outcome. -/
inductive DrvReach : IpaNatCache → Prop
  | init : DrvReach .init
  | step {s s' : IpaNatCache} {op : DrvOp} : DrvReach s → op.run s = some s' → DrvReach s'

section

variable {s s' : IpaNatCache}

theorem ipaNatiAddIpv4Tbl_size {env : AddTblEnv} {publicIpAddr : UInt32} {n tblHdl : ℕ} {ret : ℤ}
    (h : ipaNatiAddIpv4Tbl env s publicIpAddr n = some (ret, tblHdl, s')) : s'.ip4Tbl.size = s.ip4Tbl.size := by
  unfold ipaNatiAddIpv4Tbl at h
  simp only [bind_eq_bind, pure_def, ne_eq] at h
  obtain ⟨⟨⟨_, _⟩, alloc⟩, -, h⟩ := bind_eq_some_iff.mp h
  rcases alloc with - | ⟨_, t, e⟩
  · simp only [some.injEq, Prod.mk.injEq] at h
    rw [← h.2.2]
  simp only [bind_eq_some_iff] at h
  obtain ⟨_, -, h⟩ := h
  split at h
  · simp only [some.injEq, Prod.mk.injEq] at h
    rw [← h.2.2]
    rfl
  · obtain ⟨_, -, h⟩ := bind_eq_some_iff.mp h
    split at h <;> simp only [some.injEq, Prod.mk.injEq] at h <;> rw [← h.2.2] <;> rfl

theorem ipaNatiDelIpv4Table_size {env : DelTblEnv} {tblHdl : ℕ} {ret : ℤ}
    (h : ipaNatiDelIpv4Table env s tblHdl = some (ret, s')) : s'.ip4Tbl.size = s.ip4Tbl.size := by
  unfold ipaNatiDelIpv4Table at h
  simp only [bind_eq_bind, pure_def] at h
  obtain ⟨_, -, h⟩ := bind_eq_some_iff.mp h
  split at h
  · simp only [some.injEq, Prod.mk.injEq] at h
    rw [← h.2]
  split at h
  · simp only [some.injEq, Prod.mk.injEq] at h
    rw [← h.2]
    rfl
  · split at h <;> simp only [some.injEq, Prod.mk.injEq] at h <;> rw [← h.2] <;> rfl

theorem TblOp.run_size {op : TblOp} {ret : ℤ} (h : op.run s = some (ret, s')) : s'.ip4Tbl.size = s.ip4Tbl.size := by
  cases op with
  | add =>
    obtain ⟨⟨ret', tblHdl, _⟩, hadd, heq⟩ := map_eq_some_iff.mp h
    obtain ⟨-, rfl⟩ := Prod.mk.inj heq
    unfold ipaNatAddIpv4Tbl at hadd
    simp only [bind_eq_bind, pure_def, ne_eq] at hadd
    split at hadd
    · simp only [some.injEq, Prod.mk.injEq] at hadd
      rw [← hadd.2.2]
    obtain ⟨⟨_, _, _⟩, hadd', hret⟩ := bind_eq_some_iff.mp hadd
    have hsize := ipaNatiAddIpv4Tbl_size hadd'
    split at hret <;> simp only [some.injEq, Prod.mk.injEq] at hret <;>
      exact hret.2.2 ▸ hsize
  | del env tblHdl =>
    have hdel : ipaNatDelIpv4Tbl env s tblHdl.toNat = some (ret, s') := h
    unfold ipaNatDelIpv4Tbl at hdel
    split at hdel
    · simp only [some.injEq, Prod.mk.injEq] at hdel
      rw [← hdel.2]
    · exact ipaNatiDelIpv4Table_size hdel

theorem DrvOp.run_size {op : DrvOp} (h : op.run s = some s') : s'.ip4Tbl.size = s.ip4Tbl.size := by
  cases op with
  | tbl =>
    obtain ⟨⟨ret, s1⟩, hrun, rfl⟩ := map_eq_some_iff.mp h
    exact TblOp.run_size hrun
  | addRule =>
    obtain ⟨⟨ret, ruleHdl, s1⟩, hrun, rfl⟩ := map_eq_some_iff.mp h
    unfold ipaNatAddIpv4Rule at hrun
    simp only [bind_eq_bind, pure_def, ne_eq] at hrun
    split at hrun
    · simp only [some.injEq, Prod.mk.injEq] at hrun
      rw [← hrun.2.2]
    obtain ⟨slot, -, hrun⟩ := bind_eq_some_iff.mp hrun
    obtain ⟨⟨ret', _, hw⟩, -, hrun⟩ := bind_eq_some_iff.mp hrun
    split at hrun <;> simp only [some.injEq, Prod.mk.injEq] at hrun <;>
      rw [← hrun.2.2] <;> rfl
  | delRule =>
    obtain ⟨⟨_, _⟩, hrun, rfl⟩ := map_eq_some_iff.mp h
    unfold ipaNatDelIpv4Rule at hrun
    simp only [bind_eq_bind, pure_def] at hrun
    split at hrun
    · simp only [some.injEq, Prod.mk.injEq] at hrun
      rw [← hrun.2]
    obtain ⟨_, -, hrun⟩ := bind_eq_some_iff.mp hrun
    obtain ⟨⟨_, _⟩, -, hrun⟩ := bind_eq_some_iff.mp hrun
    simp only [some.injEq, Prod.mk.injEq] at hrun
    rw [← hrun.2]
    rfl

theorem DrvReach.size (h : DrvReach s) : s.ip4Tbl.size = maxIp4Tbls := by
  induction h with
  | init => rfl
  | step _ hrun ih => exact (DrvOp.run_size hrun).trans ih

end

/-! ### Handles -/

/-- `tblHdl` is the handle of a table that is in place. -/
def ValidTbl (s : IpaNatCache) (tblHdl : UInt32) : Prop :=
  tblHdl.toNat ≠ 0 ∧ tblHdl.toNat ≤ maxIp4Tbls ∧
    (s.ip4Tbl.get (tblHdl.toNat - 1)).valid = true

/-- The cell of handle `ruleHdl` in `rule_id_array` names a rule that is
enabled. -/
def LiveHdl (c : IpaNatIp4TableCache) (ruleHdl : ℕ) : Prop :=
  ∃ k e, ruleHdl = k + 1 ∧ k < c.totalEntries ∧ c.ruleIdArray.get k ≠ 0 ∧
    c.ruleIdArray.get k = ruleIdOf c.tableEntries e ∧ ruleUsed c e

/-- One of the two handles is not the handle of something that is there. -/
def Stale (s : IpaNatCache) (tblHdl ruleHdl : UInt32) : Prop :=
  ¬ (ValidTbl s tblHdl ∧ LiveHdl (s.ip4Tbl.get (tblHdl.toNat - 1)) ruleHdl.toNat)

/-- Whatever the ioctl returns, a deletion stays inside the arrays, reports an
error, and changes nothing. -/
def DelRejects (s : IpaNatCache) (tblHdl ruleHdl : UInt32) : Prop :=
  ∀ ok, ∃ ret, ipaNatDelIpv4Rule ok s tblHdl ruleHdl = some (ret, s) ∧ ret ≠ 0

/-- A query stays inside the arrays and reports an error. -/
def QueryRejects (s : IpaNatCache) (tblHdl ruleHdl : UInt32) : Prop :=
  ∃ ret timeStamp, ipaNatQueryTimestamp s tblHdl ruleHdl = some (ret, timeStamp) ∧ ret ≠ 0

/-- A stale pair is rejected by a deletion. -/
def DelValidates (s : IpaNatCache) (tblHdl ruleHdl : UInt32) : Prop :=
  Stale s tblHdl ruleHdl → DelRejects s tblHdl ruleHdl

/-- A stale pair is rejected by a query. -/
def QueryValidates (s : IpaNatCache) (tblHdl ruleHdl : UInt32) : Prop :=
  Stale s tblHdl ruleHdl → QueryRejects s tblHdl ruleHdl

/-- Cell `k` of `rule_id_array` is free, or the table is not valid, or the rule
that the cell names is inside its table and not enabled. -/
def IdleCell (c : IpaNatIp4TableCache) (k : ℕ) : Prop :=
  c.ruleIdArray.get k >>> 1 = invalidNatEntry ∨ c.valid = false ∨
    ∃ r, c.readRule (ruleTbl (c.ruleIdArray.get k &&& 1 != 0)) (c.ruleIdArray.get k >>> 1) = some r ∧
      r.enable = false

/-- The 16-bit handle is out of the range of handles, or its cell is inside
`rule_id_array` and idle. -/
def IdleHdl (c : IpaNatIp4TableCache) (ruleHdl : ℕ) : Prop :=
  c.totalEntries ≤ ruleHdl ∨
    ruleHdl ≠ 0 ∧ ruleHdl - 1 < c.ruleIdArray.size ∧ IdleCell c (ruleHdl - 1)

section

variable {c : IpaNatIp4TableCache} {s : IpaNatCache} {tblHdl ruleHdl : UInt32}
variable {e h : ℕ}

/-- With the ioctl succeeding, the deletion of an enabled rule does not report
an error. -/
theorem ipaNatiPostDelDmaCmd_ret {s s' : NatHw} {expnTbl : Bool} {rulePos : DelType}
    {r : IpaNatRule} {ret : ℤ} (hr : s.cache.readRule (ruleTbl expnTbl) e = some r) (hen : r.enable)
    (h : ipaNatiPostDelDmaCmd true s e expnTbl rulePos = some (ret, s')) : ret = 0 := by
  unfold ipaNatiPostDelDmaCmd at h
  simp only [hr, hen, bind_eq_bind, bind_some, Option.pure_def, Bool.not_true,
    false_eq_true, if_false] at h
  obtain ⟨_, -, h⟩ := bind_eq_some_iff.mp h
  obtain ⟨_, -, h⟩ := bind_eq_some_iff.mp h
  obtain ⟨_, -, h⟩ := bind_eq_some_iff.mp h
  obtain ⟨_, -, h⟩ := bind_eq_some_iff.mp h
  obtain ⟨_, -, h⟩ := bind_eq_some_iff.mp h
  split at h
  · obtain ⟨_, -, h⟩ := bind_eq_some_iff.mp h
    obtain ⟨s3, -, h⟩ := bind_eq_some_iff.mp h
    simp only [some.injEq, Prod.mk.injEq] at h
    exact h.1.symm
  · obtain ⟨_, -, h⟩ := bind_eq_some_iff.mp h
    simp only [some.injEq, Prod.mk.injEq] at h
    exact h.1.symm

theorem ipaNatiPostDelDmaCmd_idle {s : NatHw} {expnTbl : Bool} {r : IpaNatRule} (ok : Bool)
    (rulePos : DelType) (hr : s.cache.readRule (ruleTbl expnTbl) e = some r) (hen : r.enable = false) :
    ipaNatiPostDelDmaCmd ok s e expnTbl rulePos = some (-eINVAL, s) := by
  simp [ipaNatiPostDelDmaCmd, hr, hen]

theorem ipaNatiParseIpv4RuleHdl_of_ge (hle : c.totalEntries ≤ h) :
    ipaNatiParseIpv4RuleHdl c h = some (false, invalidNatEntry) := if_pos hle

theorem ipaNatiParseIpv4RuleHdl_eq_some {p : Bool × ℕ} (hlt : ¬ c.totalEntries ≤ h) :
    ipaNatiParseIpv4RuleHdl c h = some p ↔ h ≠ 0 ∧ h - 1 < c.ruleIdArray.size ∧
      (c.ruleIdArray.get (h - 1) &&& 1 != 0, c.ruleIdArray.get (h - 1) >>> 1) = p := by
  unfold ipaNatiParseIpv4RuleHdl
  by_cases h0 : h = 0
  · subst h0
    have htotal : c.totalEntries ≠ 0 := by omega
    simp [htotal]
  by_cases hsz : h - 1 < c.ruleIdArray.size
  · simp [hlt, h0, hsz, CArray.read_of_lt hsz]
  · have hread : c.ruleIdArray.read (h - 1) = none := if_neg hsz
    simp [hlt, h0, hsz, hread]

theorem ipaNatiDelIpv4Rule_idle (ok : Bool) (hidle : IdleHdl c (u16 h)) :
    ipaNatiDelIpv4Rule ok ⟨c, []⟩ h = some (-eINVAL, ⟨c, []⟩) := by
  by_cases hle : c.totalEntries ≤ u16 h
  · simp [ipaNatiDelIpv4Rule, ipaNatiParseIpv4RuleHdl_of_ge hle]
  obtain ⟨h0, hlt, hcell⟩ := hidle.resolve_left hle
  have hparse := (ipaNatiParseIpv4RuleHdl_eq_some hle).mpr ⟨h0, hlt, rfl⟩
  rcases hcell with hfree | hvalid | ⟨r, hr, hen⟩
  · simp [ipaNatiDelIpv4Rule, hparse, hfree]
  · simp [ipaNatiDelIpv4Rule, hparse, hvalid]
  have hpost := ipaNatiPostDelDmaCmd_idle (s := ⟨c, []⟩) ok
    (delTypeOf (c.ruleIdArray.get (u16 h - 1) &&& 1 != 0) r.nextIndex) hr hen
  have hne : (-eINVAL : ℤ) ≠ 0 := by decide
  by_cases hfree : c.ruleIdArray.get (u16 h - 1) >>> 1 = invalidNatEntry
  · simp [ipaNatiDelIpv4Rule, hparse, hfree]
  by_cases hvalid : c.valid = true
  · simp only [ipaNatiDelIpv4Rule, hparse, bind_eq_bind, bind_some, hfree,
      if_false, hvalid, Bool.not_true, Bool.false_eq_true, ipaNatiFindRulePos, hr,
      pure_def, hpost, ne_eq, hne, not_false_eq_true, if_true]
  · simp [ipaNatiDelIpv4Rule, hparse, hvalid]

theorem idleHdl_of_rejects {ret : ℤ} {hw : NatHw}
    (hrun : ipaNatiDelIpv4Rule true ⟨c, []⟩ h = some (ret, hw)) (hret : ret ≠ 0) : IdleHdl c (u16 h) := by
  by_cases hle : c.totalEntries ≤ u16 h
  · exact .inl hle
  refine .inr ?_
  unfold ipaNatiDelIpv4Rule at hrun
  simp only [bind_eq_bind, pure_def, ne_eq] at hrun
  obtain ⟨⟨_, _⟩, hparse, hrun⟩ := bind_eq_some_iff.mp hrun
  obtain ⟨h0, hlt, hp⟩ := (ipaNatiParseIpv4RuleHdl_eq_some hle).mp hparse
  obtain ⟨rfl, rfl⟩ := Prod.mk.inj hp
  refine ⟨h0, hlt, ?_⟩
  by_cases hfree : c.ruleIdArray.get (u16 h - 1) >>> 1 = invalidNatEntry
  · exact .inl hfree
  by_cases hvalid : c.valid = true
  · refine .inr (.inr ?_)
    simp only [hfree, if_false, hvalid, Bool.not_true, Bool.false_eq_true] at hrun
    obtain ⟨_, hpos, hrun⟩ := bind_eq_some_iff.mp hrun
    obtain ⟨r, hr, -⟩ := bind_eq_some_iff.mp hpos
    obtain ⟨⟨_, _⟩, hpost, hrun⟩ := bind_eq_some_iff.mp hrun
    refine ⟨r, hr, ?_⟩
    by_contra hen
    -- an enabled rule is deleted, and the call returns 0
    have hret' := ipaNatiPostDelDmaCmd_ret hr (not_eq_false _ ▸ hen) hpost
    simp only [hret', not_true_eq_false, if_false] at hrun
    obtain ⟨_, -, hrun⟩ := bind_eq_some_iff.mp hrun
    obtain ⟨_, -, hrun⟩ := bind_eq_some_iff.mp hrun
    simp only [some.injEq, Prod.mk.injEq] at hrun
    exact hret hrun.1.symm
  · exact .inr (.inl (not_eq_true _ ▸ hvalid))

/-! ### The calls on a table handle -/

theorem tblIndx_eq (tblHdl : UInt32) : tblIndx tblHdl = (tblHdl.toNat + 255) % 256 := by
  unfold tblIndx
  rw [UInt32.toNat_toUInt8, UInt32.toNat_sub]
  have hlt := tblHdl.toNat_lt
  have hone : (1 : UInt32).toNat = 1 := rfl
  rw [hone]
  omega

theorem tblIndx_eq_zero_iff : tblIndx tblHdl = 0 ↔ tblHdl.toNat % 256 = 1 := by
  rw [tblIndx_eq]
  omega

theorem toNat_ne_zero {v : UInt32} (h : v ≠ 0) : v.toNat ≠ 0 := fun h0 =>
  h (UInt32.toNat_inj.mp (by simpa using h0))

theorem ipaNatDelIpv4Rule_eq (ok : Bool) (hs : s.ip4Tbl.size = maxIp4Tbls) (ht : tblHdl ≠ 0) (hr : ruleHdl ≠ 0) :
    ipaNatDelIpv4Rule ok s tblHdl ruleHdl =
      if tblHdl.toNat % 256 = 1 then
        (ipaNatiDelIpv4Rule ok ⟨s.ip4Tbl.get 0, []⟩ ruleHdl.toNat).map fun p =>
          (p.1, { s with ip4Tbl := s.ip4Tbl.set 0 p.2.cache })
      else none := by
  have hcheck : ¬ (tblHdl.toNat = invalidNatEntry ∨ ruleHdl.toNat = invalidNatEntry) :=
    not_or.mpr ⟨toNat_ne_zero ht, toNat_ne_zero hr⟩
  unfold ipaNatDelIpv4Rule
  rw [if_neg hcheck]
  by_cases htbl : tblHdl.toNat % 256 = 1
  · have hlt : 0 < s.ip4Tbl.size := hs ▸ Nat.one_pos
    rw [if_pos htbl, tblIndx_eq_zero_iff.mpr htbl, CArray.read_of_lt hlt]
    rcases hdel : ipaNatiDelIpv4Rule ok ⟨s.ip4Tbl.get 0, []⟩ ruleHdl.toNat with - | p <;>
      simp [hdel]
  have hread : s.ip4Tbl.read (tblIndx tblHdl) = none := by
    refine if_neg fun hlt => htbl (tblIndx_eq_zero_iff.mp ?_)
    rw [hs] at hlt
    exact Nat.lt_one_iff.mp hlt
  rw [if_neg htbl, hread]
  rfl

/-- **When a deletion rejects.** -/
theorem delRejects_iff (hs : s.ip4Tbl.size = maxIp4Tbls) (ht : tblHdl ≠ 0) (hr : ruleHdl ≠ 0) :
    DelRejects s tblHdl ruleHdl ↔
      tblHdl.toNat % 256 = 1 ∧ IdleHdl (s.ip4Tbl.get 0) (u16 ruleHdl.toNat) := by
  constructor
  · intro hrej
    obtain ⟨_, hrun, hret⟩ := hrej true
    rw [ipaNatDelIpv4Rule_eq true hs ht hr] at hrun
    split at hrun
    · rename_i htbl
      obtain ⟨⟨_, _⟩, hdel, heq⟩ := map_eq_some_iff.mp hrun
      obtain ⟨rfl, -⟩ := Prod.mk.inj heq
      exact ⟨htbl, idleHdl_of_rejects hdel hret⟩
    · exact nomatch hrun
  rintro ⟨htbl, hidle⟩ ok
  refine ⟨-eINVAL, ?_, by decide⟩
  rw [ipaNatDelIpv4Rule_eq ok hs ht hr, if_pos htbl, ipaNatiDelIpv4Rule_idle ok hidle]
  simp [CArray.set]

theorem ipaNatiQueryTimestamp_ret {ret : ℤ} {timeStamp : Option ℕ} (hs : s.ip4Tbl.size = maxIp4Tbls)
    (htbl : tblIndx tblHdl = 0) (hvalid : (s.ip4Tbl.get 0).valid)
    (h : ipaNatiQueryTimestamp s tblHdl ruleHdl = some (ret, timeStamp)) : ret = 0 := by
  have hlt : 0 < s.ip4Tbl.size := hs ▸ Nat.one_pos
  unfold ipaNatiQueryTimestamp at h
  rw [htbl, CArray.read_of_lt hlt] at h
  simp only [bind_eq_bind, bind_some, hvalid, Bool.not_true, Bool.false_eq_true, if_false, Option.pure_def] at h
  obtain ⟨p, -, h⟩ := bind_eq_some_iff.mp h
  obtain ⟨r, -, h⟩ := bind_eq_some_iff.mp h
  simp only [some.injEq, Prod.mk.injEq] at h
  exact h.1.symm

/-- **When a query rejects.**  The rule handle does not matter. -/
theorem queryRejects_iff (hs : s.ip4Tbl.size = maxIp4Tbls) (ht : tblHdl ≠ 0) :
    QueryRejects s tblHdl ruleHdl ↔ tblHdl ≠ 1 ∨ (s.ip4Tbl.get 0).valid = false := by
  by_cases hone : tblHdl = 1
  · subst hone
    have hquery : ipaNatQueryTimestamp s 1 ruleHdl = ipaNatiQueryTimestamp s 1 ruleHdl := rfl
    constructor
    · rintro ⟨_, _, hrun, hret⟩
      refine .inr (eq_false_iff.mpr fun hvalid => ?_)
      exact hret (ipaNatiQueryTimestamp_ret hs rfl hvalid (hquery ▸ hrun))
    intro h
    have hvalid := h.resolve_left fun hne => hne rfl
    have hlt : 0 < s.ip4Tbl.size := hs ▸ Nat.one_pos
    refine ⟨-eINVAL, none, ?_, by decide⟩
    have hindx : tblIndx 1 = 0 := rfl
    rw [hquery]
    simp [ipaNatiQueryTimestamp, hindx, CArray.read_of_lt hlt, hvalid]
  refine iff_of_true ⟨-eINVAL, none, if_pos ?_, by decide⟩ (.inl hone)
  have h0 := toNat_ne_zero ht
  have h1 : tblHdl.toNat ≠ 1 := fun h => hone (UInt32.toNat_inj.mp h)
  unfold maxIp4Tbls
  omega

/-- **Handle validation.**  In every state the driver gets into, for every two
handles that are not 0: a stale pair is rejected by a deletion exactly when the
table handle is 1 modulo 256 and the 16-bit rule handle is idle, and by a query
exactly when there is no table for the table handle. -/
theorem handle_validation (hreach : DrvReach s) (ht : tblHdl ≠ 0) (hr : ruleHdl ≠ 0) :
    (DelValidates s tblHdl ruleHdl ↔ (Stale s tblHdl ruleHdl →
      tblHdl.toNat % 256 = 1 ∧ IdleHdl (s.ip4Tbl.get 0) (u16 ruleHdl.toNat))) ∧
    (QueryValidates s tblHdl ruleHdl ↔ (Stale s tblHdl ruleHdl → tblHdl ≠ 1 ∨ (s.ip4Tbl.get 0).valid = false)) :=
  ⟨imp_congr_right fun _ => delRejects_iff hreach.size ht hr,
    imp_congr_right fun _ => queryRejects_iff hreach.size ht⟩

end

/-! ### A table without rules, and one with a rule -/

theorem sampleCache_reach : DrvReach sampleCache := by
  have hrun : (DrvOp.tbl (.add sampleEnv 0x0A000001 20)).run .init = some sampleCache := rfl
  exact DrvReach.init.step hrun

theorem handle_validation_sample : (DelValidates sampleCache 1 5 ↔ (Stale sampleCache 1 5 →
      (1 : UInt32).toNat % 256 = 1 ∧ IdleHdl (sampleCache.ip4Tbl.get 0) (u16 (5 : UInt32).toNat))) ∧
    (QueryValidates sampleCache 1 5 ↔ (Stale sampleCache 1 5 →
      (1 : UInt32) ≠ 1 ∨ (sampleCache.ip4Tbl.get 0).valid = false)) :=
  handle_validation sampleCache_reach (by decide) (by decide)

/-- The cache after one rule was added; its handle is 1. -/
def sampleAdded : IpaNatCache :=
  ((DrvOp.addRule .allOk 1 sampleRule).run sampleCache).getD default

theorem sampleAdded_reach : DrvReach sampleAdded := by
  have hrun : ((DrvOp.addRule .allOk 1 sampleRule).run sampleCache).isSome = true := by
    decide
  obtain ⟨s, hs⟩ := isSome_iff_exists.mp hrun
  have heq : sampleAdded = s := by simp [sampleAdded, hs]
  exact heq ▸ sampleCache_reach.step hs

/-- Handle 65537 deletes the rule of handle 1 and then writes behind
`rule_id_array`, and a query with any handle succeeds. -/
theorem handle_validation_fails : (¬ ∀ s tblHdl ruleHdl, DrvReach s → tblHdl ≠ 0 → ruleHdl ≠ 0 →
      DelValidates s tblHdl ruleHdl) ∧
    ¬ ∀ s tblHdl ruleHdl, DrvReach s → tblHdl ≠ 0 → ruleHdl ≠ 0 →
      QueryValidates s tblHdl ruleHdl := by
  constructor
  · intro hall
    have hstale : Stale sampleAdded 1 65537 := by
      rintro ⟨-, k, e, hk, hlt, -⟩
      have htotal : (sampleAdded.ip4Tbl.get 0).totalEntries ≤ 65536 := by decide
      have hk' : 65537 = k + 1 := hk
      exact absurd (Nat.lt_of_lt_of_le hlt htotal) (by omega)
    obtain ⟨ret, hrun, -⟩ := hall sampleAdded 1 65537 sampleAdded_reach (by decide) (by decide) hstale true
    have hfault : (ipaNatDelIpv4Rule true sampleAdded 1 65537).isNone = true := by decide
    rw [hrun] at hfault
    simp at hfault
  intro hall
  have hstale : Stale sampleCache 1 5 := by
    rintro ⟨-, k, e, hk, -, hk0, -⟩
    have hk' : 5 = k + 1 := hk
    obtain rfl : k = 4 := by omega
    exact hk0 (by decide)
  obtain ⟨_, _, hrun, hret⟩ := hall sampleCache 1 5 sampleCache_reach (by decide) (by decide) hstale
  have hquery : ipaNatQueryTimestamp sampleCache 1 5 = some (0, some 0) := by decide
  rw [hquery, some.injEq, Prod.mk.injEq] at hrun
  exact hret hrun.1.symm

end G4Common.IpaNat

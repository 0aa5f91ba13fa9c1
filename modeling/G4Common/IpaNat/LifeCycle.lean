/-
The life of a NAT table, from `ipa_nat_add_ipv4_tbl()` to
`ipa_nat_del_ipv4_tbl()`.

A call that gets through all its steps leaves the cache in one of two states:
no table, and the slot zero, or one table, valid and mapped (`CacheInv`).  The
source does not undo the steps of a call that fails on the way, so this is not
so for every answer of the system; `TblOp.Completes` says for which.
-/
import G4Common.IpaNat.Table
import G4Common.IpaNat.Inv

namespace G4Common.IpaNat

open Option Bool

/-! ### Sizes -/

theorem nearest2Loop_isSome (number : ℕ) {fuel num tmp : ℕ} (h₁ : 1 ≤ num)
    (h2 : num < 2 ^ fuel) : ∃ r, nearest2Loop number fuel num tmp = some r := by
  induction fuel generalizing num tmp with
  | zero =>
    rw [Nat.pow_zero] at h2
    omega
  | succ fuel ih =>
    by_cases hone : num = 1
    · exact ⟨_, if_pos hone⟩
    obtain ⟨r, hr⟩ := @ih (num / 2) (u16 (tmp * 2)) (by omega) (by
      rw [Nat.pow_succ] at h2
      omega)
    exact ⟨r, by simp only [nearest2Loop, if_neg hone, hr]⟩

theorem nearest2Loop_ge {number fuel num tmp r : ℕ} (hr : nearest2Loop number fuel num tmp = some r)
    (hnum : 1 ≤ num) (htmp : 2 ≤ tmp) (hle : tmp * num ≤ number) (hlt : number < 32768) : 2 ≤ r := by
  induction fuel generalizing num tmp with
  | zero => simp [nearest2Loop] at hr
  | succ fuel ih =>
    have hmul : tmp ≤ tmp * num := Nat.le_mul_of_pos_right tmp hnum
    have hu : u16 (tmp * 2) = tmp * 2 := u16_of_lt (by omega)
    by_cases hone : num = 1
    · simp only [nearest2Loop, if_pos hone, hu, some.injEq] at hr
      rw [← hr]
      split <;> omega
    simp only [nearest2Loop, if_neg hone, hu] at hr
    refine ih hr (by omega) (by omega) ?_
    calc tmp * 2 * (num / 2) = tmp * (2 * (num / 2)) := Nat.mul_assoc _ _ _
      _ ≤ tmp * num := Nat.mul_le_mul_left tmp (Nat.mul_div_le num 2)
      _ ≤ number := hle

theorem getNearest2Power_isSome {num : ℕ} (h₁ : 1 ≤ num) (h2 : num < 65536) :
    ∃ r, getNearest2Power num = some (some r) := by
  have hne : ¬ num = 0 := by omega
  by_cases hone : num = 1
  · exact ⟨2, by simp [getNearest2Power, hone]⟩
  · obtain ⟨r, hr⟩ := @nearest2Loop_isSome num 16 num 1 h₁ h2
    exact ⟨r, by simp [getNearest2Power, hne, hone, hr]⟩

theorem getNearest2Power_ge {num r : ℕ} (h : getNearest2Power num = some (some r)) (hlt : num < 32768) : 2 ≤ r := by
  unfold getNearest2Power at h
  split at h
  · simp at h
  split at h
  · have : r = 2 := by simpa using h.symm
    omega
  simp only [map_eq_some_iff, some.injEq, exists_eq_right] at h
  have hstep : nearest2Loop num 16 num 1 = nearest2Loop num 15 (num / 2) 2 := if_neg ‹_›
  rw [hstep] at h
  exact nearest2Loop_ge h (by omega) (by decide) (Nat.mul_div_le num 2) hlt

theorem expnTableEntriesOf_ge (n : ℕ) (hn : n < 65536) : 2 ≤ expnTableEntriesOf n := by
  unfold expnTableEntriesOf getNearestEven u16
  split
  · omega
  · split <;> omega

theorem le_expnTableEntriesOf (n : ℕ) (hn : n < 65536) : n / 5 ≤ expnTableEntriesOf n := by
  have hmod : (n / 5 + 1) % 65536 = n / 5 + 1 := Nat.mod_eq_of_lt (by omega)
  unfold expnTableEntriesOf getNearestEven u16
  rw [hmod]
  split
  · omega
  · split <;> omega

theorem baseTableEntries_range (n : ℕ) (hn : n < 65536) : 1 ≤ baseTableEntries n ∧ baseTableEntries n < 65536 := by
  unfold baseTableEntries
  split <;> omega

/-! ### The steps of adding a table -/

/-- The call ends before it touches a slot: the IPA device cannot be opened, or
the kernel has no memory. -/
def AllocFails (env : AddTblEnv) (ipaFd : ℤ) : Prop :=
  (ipaFd = 0 ∧ env.openIpa < 0) ∨ env.allocNatMem = none

/-- All steps after the allocation succeed. -/
structure AddTblEnv.Completes (env : AddTblEnv) : Prop where
  mallocMeta : env.mallocMeta = true
  mallocRuleId : env.mallocRuleId = true
  openNat : 0 ≤ env.openNat
  mmap : ∃ rules indx, env.mmap = .mapped rules indx
  initNat : env.initNat = true

def freshTbl (publicAddr : UInt32) (natFd : ℤ) (mem : IpaIocNatAllocMem) (tableEntries
    expnTableEntries : ℕ) : IpaNatIp4TableCache where
  valid := true
  publicAddr := publicAddr
  natFd := natFd
  size := mem.size
  tblAddrOffset := mem.offset
  tableEntries := tableEntries
  expnTableEntries := expnTableEntries
  rules := CArray.zeros (tableEntries + expnTableEntries)
  indx := CArray.zeros (tableEntries + expnTableEntries)
  indexExpnTableMeta := CArray.zeros expnTableEntries
  ruleIdArray := CArray.zeros (tableEntries + expnTableEntries)

/-- There is no table, and the slot for it is zero. -/
structure IpaNatCache.NoTable (s : IpaNatCache) : Prop where
  size : s.ip4Tbl.size = maxIp4Tbls
  cnt : s.tableCnt = 0
  slot : s.ip4Tbl.get 0 = default

section

variable {env : AddTblEnv} {s : IpaNatCache} {n : ℕ} (publicIpAddr : UInt32)

theorem ipaNatiAllocTable_of_fails (hn : n < 65536) (hf : AllocFails env s.ipaFd) :
    ∃ ret fd, ipaNatiAllocTable env s.ipaFd n = some ((ret, fd), none) := by
  obtain ⟨h₁, h2⟩ := baseTableEntries_range n hn
  obtain ⟨t, ht⟩ := getNearest2Power_isSome h₁ h2
  unfold ipaNatiAllocTable
  rw [ht]
  by_cases hopen : s.ipaFd = 0 ∧ env.openIpa < 0
  · exact ⟨-eIo, s.ipaFd, by simp [hopen]⟩
  · have hmem : env.allocNatMem = none := hf.resolve_left hopen
    simp only [bind_eq_bind, bind_some, if_neg hopen, hmem]
    exact ⟨_, _, rfl⟩

theorem ipaNatiAllocTable_of_ok (hn : n < 65536) (hf : ¬ AllocFails env s.ipaFd) :
    ∃ fd mem t, getNearest2Power (baseTableEntries n) = some (some t) ∧
      env.allocNatMem = some mem.offset ∧
      ipaNatiAllocTable env s.ipaFd n = some ((0, fd), some (mem, t, expnTableEntriesOf n)) := by
  obtain ⟨h₁, h2⟩ := baseTableEntries_range n hn
  obtain ⟨t, ht⟩ := getNearest2Power_isSome h₁ h2
  have hopen : ¬ (s.ipaFd = 0 ∧ env.openIpa < 0) := fun h => hf (.inl h)
  rcases hmem : env.allocNatMem with - | off
  · exact absurd (.inr hmem) hf
  refine ⟨if s.ipaFd = 0 then env.openIpa else s.ipaFd, ⟨tableEntrySize * u16 (t + expnTableEntriesOf n)
      + indexTableEntrySize * u16 (t + expnTableEntriesOf n), off⟩, t, ht, rfl, ?_⟩
  unfold ipaNatiAllocTable
  rw [ht]
  simp only [bind_eq_bind, bind_some, if_neg hopen, hmem]
  rfl

theorem ipaNatiAddIpv4Tbl_of_fails (hn : n < 65536) (hf : AllocFails env s.ipaFd) :
    ∃ fd, ipaNatiAddIpv4Tbl env s publicIpAddr n
      = some (-eNOMEM, 0, { s with ipaFd := fd }) := by
  obtain ⟨_, fd, halloc⟩ := ipaNatiAllocTable_of_fails hn hf
  exact ⟨fd, by simp [ipaNatiAddIpv4Tbl, halloc]⟩

/-- With a table in place, a second one is written behind the end of the
array. -/
theorem ipaNatiAddIpv4Tbl_second (hn : n < 65536) (hf : ¬ AllocFails env s.ipaFd)
    (hcnt : s.ip4Tbl.size ≤ s.tableCnt) : ipaNatiAddIpv4Tbl env s publicIpAddr n = none := by
  obtain ⟨_, _, t, -, -, halloc⟩ := ipaNatiAllocTable_of_ok hn hf
  have hread : s.ip4Tbl.read s.tableCnt = none := if_neg (by omega)
  simp [ipaNatiAddIpv4Tbl, halloc, hread]

theorem ipaNatAddIpv4Tbl_hdl {tblHdl : ℕ} {s' : IpaNatCache} (hsize : s.ip4Tbl.size = maxIp4Tbls)
    (h : ipaNatAddIpv4Tbl env s publicIpAddr n = some (0, tblHdl, s')) : tblHdl = 1 := by
  unfold ipaNatAddIpv4Tbl at h
  split at h
  · simp [eINVAL] at h
  obtain ⟨⟨ret, _, _⟩, hadd, h⟩ := bind_eq_some_iff.mp h
  dsimp only at h
  split at h
  · simp [eINVAL] at h
  simp only [pure_def, some.injEq, Prod.mk.injEq] at h
  obtain ⟨rfl, rfl, -⟩ := h
  unfold ipaNatiAddIpv4Tbl at hadd
  obtain ⟨⟨⟨_, _⟩, alloc⟩, -, hadd⟩ := bind_eq_some_iff.mp hadd
  cases alloc with
  | none => simp [eNOMEM] at hadd
  | some =>
    obtain ⟨slot, hslot, hadd⟩ := bind_eq_some_iff.mp hadd
    -- the slot is within the array
    have hcnt : s.tableCnt = 0 := by
      by_contra hne
      have hread : s.ip4Tbl.read s.tableCnt = none := by
        refine if_neg ?_
        rw [hsize]
        exact fun hlt => hne (Nat.lt_one_iff.mp hlt)
      simp [hread] at hslot
    dsimp only at hadd
    split at hadd
    · simp [eINVAL] at hadd
    obtain ⟨_, -, hadd⟩ := bind_eq_some_iff.mp hadd
    split at hadd
    · simp [eINVAL] at hadd
    · simp only [pure_def, some.injEq, Prod.mk.injEq, hcnt] at hadd
      exact hadd.2.1.symm

/-- **What `ipa_nati_update_cache()` can do** to a zero slot: return 0 without
mapped memory, return a failure with the slot marked valid, or get through. -/
theorem ipaNatiUpdateCache_cases (env : AddTblEnv) (publicIpAddr : UInt32) (mem : IpaIocNatAllocMem) (t e : ℕ) :
    (∃ c, ipaNatiUpdateCache env mem publicIpAddr t e default = (0, c) ∧ c.rules.size = 0 ∧
      c.totalEntries = t + e) ∨
    (∃ ret c, ret ≠ 0 ∧ ipaNatiUpdateCache env mem publicIpAddr t e default = (ret, c) ∧ c.valid) ∨
    (env.initNat → env.Completes) ∧ ∃ rules indx, ipaNatiUpdateCache env mem publicIpAddr t e default
        = (0, { freshTbl publicIpAddr env.openNat mem t e with
            rules := CArray.ofFn (t + e) rules, indx := CArray.ofFn (t + e) indx }) := by
  have hmeta : (default : IpaNatIp4TableCache).indexExpnTableMeta.size = 0 := rfl
  have hids : (default : IpaNatIp4TableCache).ruleIdArray.size = 0 := rfl
  unfold ipaNatiUpdateCache allocArray
  rcases hm : env.mallocMeta with - | -
  · left
    simp only [hmeta, if_true, false_eq_true, if_false]
    exact ⟨_, rfl, rfl, rfl⟩
  rcases hr : env.mallocRuleId with - | -
  · left
    simp only [hmeta, hids, if_true, false_eq_true, if_false]
    exact ⟨_, rfl, rfl, rfl⟩
  by_cases hopen : env.openNat < 0
  · right; left
    simp only [hmeta, hids, if_true, hopen]
    exact ⟨_, _, by decide, rfl, rfl⟩
  cases hmap : env.mmap with
  | null =>
    right; left
    simp only [hmeta, hids, if_true, hopen, if_false]
    exact ⟨_, _, by decide, rfl, rfl⟩
  | mapFailed =>
    left
    simp only [hmeta, hids, if_true, hopen, if_false]
    exact ⟨_, rfl, rfl, rfl⟩
  | mapped rules indx =>
    right; right
    refine ⟨fun hinit => ⟨hm, hr, not_lt.mp hopen, ⟨rules, indx, hmap⟩, hinit⟩, rules, indx, ?_⟩
    simp only [hmeta, hids, if_true, hopen, if_false]
    rfl

/-- The slot after `ipa_nati_update_cache()`: a fresh table with whatever the
mapped memory held. -/
theorem ipaNatiUpdateCache_of_completes (hc : env.Completes) (mem : IpaIocNatAllocMem) (t e : ℕ) :
    ∃ rules indx, ipaNatiUpdateCache env mem publicIpAddr t e default
      = (0, { freshTbl publicIpAddr env.openNat mem t e with
          rules := CArray.ofFn (t + e) rules, indx := CArray.ofFn (t + e) indx }) := by
  obtain ⟨rules, indx, hmap⟩ := hc.mmap
  have hopen : ¬ env.openNat < 0 := not_lt.mpr hc.openNat
  have hmeta : (default : IpaNatIp4TableCache).indexExpnTableMeta.size = 0 := rfl
  have hids : (default : IpaNatIp4TableCache).ruleIdArray.size = 0 := rfl
  refine ⟨rules, indx, ?_⟩
  simp [ipaNatiUpdateCache, allocArray, hmeta, hids, hc.mallocMeta, hc.mallocRuleId, hopen, hmap, freshTbl]

theorem ipaNatiResetTbl_ofFn (publicAddr : UInt32) (natFd : ℤ) (mem : IpaIocNatAllocMem)
    (t e : ℕ) (rules : ℕ → IpaNatRule) (indx : ℕ → IpaNatIndxTblRule) :
    ipaNatiResetTbl { freshTbl publicAddr natFd mem t e with
        rules := CArray.ofFn (t + e) rules, indx := CArray.ofFn (t + e) indx }
      = some (freshTbl publicAddr natFd mem t e) := by
  unfold ipaNatiResetTbl
  refine bind_eq_some_iff.mpr ⟨_, CArray.clear_ofFn (t + e) rules, ?_⟩
  exact bind_eq_some_iff.mpr ⟨_, CArray.clear_ofFn (t + e) indx, rfl⟩

theorem ipaNatiAddIpv4Tbl_of_completes (hn : n < 65536) (hs : s.NoTable)
    (hf : ¬ AllocFails env s.ipaFd) (hc : env.Completes) :
    ∃ fd mem t, getNearest2Power (baseTableEntries n) = some (some t) ∧
      env.allocNatMem = some mem.offset ∧
      ipaNatiAddIpv4Tbl env s publicIpAddr n = some (0, 1, ⟨s.ip4Tbl.set 0
        (freshTbl publicIpAddr env.openNat mem t (expnTableEntriesOf n)), fd, 1⟩) := by
  obtain ⟨fd, mem, t, ht, hoff, halloc⟩ := ipaNatiAllocTable_of_ok hn hf
  obtain ⟨rules, indx, hupd⟩ := ipaNatiUpdateCache_of_completes publicIpAddr hc mem t (expnTableEntriesOf n)
  have hreset := ipaNatiResetTbl_ofFn publicIpAddr env.openNat mem t (expnTableEntriesOf n) rules indx
  have hread : s.ip4Tbl.read 0 = some default := by
    rw [CArray.read_of_lt (by rw [hs.size]; decide), hs.slot]
  have hset : ∀ a b : IpaNatIp4TableCache, (s.ip4Tbl.set 0 a).set 0 b = s.ip4Tbl.set 0 b := by
    intro a b
    simp [CArray.set]
  refine ⟨fd, mem, t, ht, hoff, ?_⟩
  simp only [ipaNatiAddIpv4Tbl, halloc, bind_eq_bind, bind_some, hs.cnt, hread, hupd,
    ne_eq, not_true_eq_false, if_false, hreset, hc.initNat, Bool.not_true, Bool.false_eq_true,
    hset]
  rfl

/-- Otherwise the call faults, or it reports a failure and leaves the slot
marked valid. -/
theorem ipaNatiAddIpv4Tbl_of_not_completes (hn : n < 65536) (hs : s.NoTable)
    (hf : ¬ AllocFails env s.ipaFd) (hc : ¬ env.Completes) :
    ipaNatiAddIpv4Tbl env s publicIpAddr n = none ∨
    ∃ s', ipaNatiAddIpv4Tbl env s publicIpAddr n = some (-eINVAL, 0, s') ∧
      (s'.ip4Tbl.get 0).valid = true := by
  obtain ⟨fd, mem, t, _, _, halloc⟩ := ipaNatiAllocTable_of_ok hn hf
  have hread : s.ip4Tbl.read 0 = some default := by
    rw [CArray.read_of_lt (by rw [hs.size]; decide), hs.slot]
  have he := expnTableEntriesOf_ge n hn
  rcases ipaNatiUpdateCache_cases env publicIpAddr mem t (expnTableEntriesOf n) with
    ⟨c, hupd, _, _⟩ | ⟨_, c, hret, hupd, hv⟩ | ⟨hcomp, rules, indx, hupd⟩
  · left
    have hreset : ipaNatiResetTbl c = none := by
      unfold ipaNatiResetTbl
      rw [CArray.clear_of_lt (by omega)]
      rfl
    simp [ipaNatiAddIpv4Tbl, halloc, hs.cnt, hread, hupd, hreset]
  · right
    refine ⟨⟨s.ip4Tbl.set 0 c, fd, 0⟩, ?_, by simpa using hv⟩
    simp [ipaNatiAddIpv4Tbl, halloc, hs.cnt, hread, hupd, hret]
  right
  have hinit : env.initNat = false := by
    by_contra hinit
    exact hc (hcomp (by simpa using hinit))
  have hreset := ipaNatiResetTbl_ofFn publicIpAddr env.openNat mem t (expnTableEntriesOf n) rules indx
  refine ⟨⟨s.ip4Tbl.set 0 (freshTbl publicIpAddr env.openNat mem t (expnTableEntriesOf n)),
    fd, 0⟩, ?_, by simp [freshTbl]⟩
  have hset : ∀ a b : IpaNatIp4TableCache, (s.ip4Tbl.set 0 a).set 0 b = s.ip4Tbl.set 0 b := by
    intro a b
    simp [CArray.set]
  simp only [ipaNatiAddIpv4Tbl, halloc, bind_eq_bind, bind_some, hs.cnt, hread,
    hupd, ne_eq, not_true_eq_false, if_false, hreset, hinit, Bool.not_false, if_true, hset]
  rfl

end

/-! ### Calls and runs -/

/-- A call of the table interface, with the answers of the system to it. -/
inductive TblOp
  | add (env : AddTblEnv) (publicIpAddr : UInt32) (numberOfEntries : UInt16)
  | del (env : DelTblEnv) (tblHdl : UInt32)

/-- The call: its return value and the cache after it. -/
def TblOp.run (s : IpaNatCache) : TblOp → Option (ℤ × IpaNatCache)
  | .add env publicIpAddr numberOfEntries =>
    (ipaNatAddIpv4Tbl env s publicIpAddr numberOfEntries.toNat).map fun r => (r.1, r.2.2)
  | .del env tblHdl => ipaNatDelIpv4Tbl env s tblHdl.toNat

/-- The tables of a slot are mapped, and its two arrays have the sizes of the
current geometry. -/
structure MappedTbl (c : IpaNatIp4TableCache) : Prop where
  rules : c.rules.size = c.tableEntries + c.expnTableEntries
  indx : c.indx.size = c.tableEntries + c.expnTableEntries
  ids : c.ruleIdArray.size = c.tableEntries + c.expnTableEntries
  metas : c.indexExpnTableMeta.size = c.expnTableEntries

/-- At most `IPA_NAT_MAX_IP4_TBLS` tables, and valid slots are mapped. -/
def CacheOk (s : IpaNatCache) : Prop :=
  s.tableCnt ≤ maxIp4Tbls ∧
    ∀ i, i < maxIp4Tbls → (s.ip4Tbl.get i).valid = true → MappedTbl (s.ip4Tbl.get i)

/-- What is asked of a call: no access behind the slots or to memory that is
not mapped, a proper cache afterwards, and for an addition that the slot it is
about is valid and mapped when it reports success, and not valid when it
reports a failure. -/
def TblOp.CallOk (s : IpaNatCache) (op : TblOp) : Prop :=
  ∃ ret s', op.run s = some (ret, s') ∧ CacheOk s' ∧
    match op with
    | .add .. =>
      (ret = 0 → s.tableCnt < maxIp4Tbls ∧ (s'.ip4Tbl.get s.tableCnt).valid = true) ∧
        (ret ≠ 0 → s.tableCnt < maxIp4Tbls → (s'.ip4Tbl.get s.tableCnt).valid = false)
    | .del .. => True

/-- The call is rejected before it changes anything, or there is a slot for it
and all its steps succeed. -/
def TblOp.Completes (s : IpaNatCache) : TblOp → Prop
  | .add env _ n =>
    n = 0 ∨ AllocFails env s.ipaFd ∨ s.tableCnt < maxIp4Tbls ∧ env.Completes
  | .del env tblHdl =>
    tblHdl ≠ 1 ∨ (s.ip4Tbl.get 0).valid = false ∨ env.close = true ∧ env.delNat = true

/-- Every call of a run satisfies `P` in the state it is made in. -/
def AllCalls (P : IpaNatCache → TblOp → Prop) : IpaNatCache → List TblOp → Prop
  | _, [] => True
  | s, op :: ops => P s op ∧ ∀ ret s', op.run s = some (ret, s') → AllCalls P s' ops

/-- The two states of the cache: no table, or one table in place. -/
def CacheInv (s : IpaNatCache) : Prop :=
  s.NoTable ∨ s.ip4Tbl.size = maxIp4Tbls ∧ s.tableCnt = 1 ∧
    (s.ip4Tbl.get 0).valid = true ∧ 2 ≤ (s.ip4Tbl.get 0).expnTableEntries ∧
    MappedTbl (s.ip4Tbl.get 0)

section

variable {s s' : IpaNatCache} {op : TblOp}

theorem cacheInv_init : CacheInv IpaNatCache.init := Or.inl ⟨rfl, rfl, rfl⟩

theorem CacheInv.size (h : CacheInv s) : s.ip4Tbl.size = maxIp4Tbls := by
  rcases h with h | ⟨h, -⟩
  · exact h.size
  · exact h

theorem CacheInv.ok (h : CacheInv s) : CacheOk s := by
  refine ⟨?_, fun i hi hv => ?_⟩
  · rcases h with h | ⟨-, h, -⟩
    · rw [h.cnt]
      decide
    · exact h.le
  obtain rfl : i = 0 := Nat.lt_one_iff.mp hi
  rcases h with h | ⟨-, -, -, -, h⟩
  · rw [h.slot] at hv
    exact nomatch hv
  · exact h

theorem CacheInv.setFd (h : CacheInv s) (fd : ℤ) : CacheInv { s with ipaFd := fd } := by
  rcases h with h | h
  · exact .inl ⟨h.size, h.cnt, h.slot⟩
  · exact .inr h

theorem freshTbl_mapped (publicAddr : UInt32) (natFd : ℤ) (mem : IpaIocNatAllocMem) (t e : ℕ) :
    MappedTbl (freshTbl publicAddr natFd mem t e) := ⟨rfl, rfl, rfl, rfl⟩

theorem run_add_eq (env : AddTblEnv) (publicIpAddr : UInt32) {n : UInt16} (hn : n ≠ 0) :
    (TblOp.add env publicIpAddr n).run s = (ipaNatiAddIpv4Tbl env s publicIpAddr n.toNat).map fun r =>
          (if r.1 ≠ 0 then -eINVAL else r.1, r.2.2) := by
  have hn' : ¬ n.toNat = 0 := fun h => hn (UInt16.toNat_inj.mp (by simpa using h))
  simp only [TblOp.run, ipaNatAddIpv4Tbl, if_neg hn']
  rcases ipaNatiAddIpv4Tbl env s publicIpAddr n.toNat with - | ⟨ret, _, _⟩
  · rfl
  · by_cases hret : ret = 0 <;> simp [hret]

/-- **An addition is right exactly when it completes.** -/
theorem callOk_add_iff (h : CacheInv s) (env : AddTblEnv) (publicIpAddr : UInt32) (n : UInt16) :
    (TblOp.add env publicIpAddr n).CallOk s ↔ (TblOp.add env publicIpAddr n).Completes s := by
  have hlt := n.toNat_lt
  by_cases hn : n = 0
  · -- rejected by the entry point
    have hrun : (TblOp.add env publicIpAddr n).run s = some (-eINVAL, s) := by
      simp [TblOp.run, ipaNatAddIpv4Tbl, hn]
    refine iff_of_true ⟨_, s, hrun, h.ok, nofun, fun _ hc => ?_⟩
      (.inl hn)
    rcases h with h | ⟨-, h1, -⟩
    · rw [h.cnt, h.slot]
      rfl
    · exact absurd hc (by rw [h1]; decide)
  have hrun := run_add_eq (s := s) env publicIpAddr hn
  by_cases hf : AllocFails env s.ipaFd
  · obtain ⟨fd, hadd⟩ := ipaNatiAddIpv4Tbl_of_fails publicIpAddr hlt hf
    have hret : (TblOp.add env publicIpAddr n).run s
        = some (-eINVAL, { s with ipaFd := fd }) := by
      rw [hrun, hadd]
      rfl
    refine iff_of_true ⟨_, _, hret, (h.setFd fd).ok, nofun,
      fun _ hc => ?_⟩ (.inr (.inl hf))
    rcases h with h | ⟨-, h1, -⟩
    · rw [h.cnt]
      show (s.ip4Tbl.get 0).valid = false
      rw [h.slot]
      rfl
    · exact absurd hc (by rw [h1]; decide)
  rcases h with h | ⟨hsize, hcnt, -⟩
  · by_cases hc : env.Completes
    · obtain ⟨fd, mem, t, -, -, hadd⟩ := ipaNatiAddIpv4Tbl_of_completes
        publicIpAddr hlt h hf hc
      have hret : (TblOp.add env publicIpAddr n).run s = some (0, ⟨s.ip4Tbl.set 0
          (freshTbl publicIpAddr env.openNat mem t (expnTableEntriesOf n.toNat)), fd, 1⟩) := by
        rw [hrun, hadd]
        rfl
      refine iff_of_true ⟨_, _, hret, ⟨Nat.le_refl 1, fun i hi _ => ?_⟩, fun _ => ⟨?_, ?_⟩,
        fun hne => absurd rfl hne⟩ (.inr (.inr ⟨?_, hc⟩))
      · obtain rfl : i = 0 := Nat.lt_one_iff.mp hi
        simpa using freshTbl_mapped _ _ _ _ _
      · rw [h.cnt]
        decide
      · rw [h.cnt]
        simp [freshTbl]
      · rw [h.cnt]
        decide
    refine iff_of_false ?_ ?_
    · rintro ⟨ret, s', hok, -, -, hfail⟩
      rcases ipaNatiAddIpv4Tbl_of_not_completes publicIpAddr hlt h hf hc with
        hadd | ⟨_, hadd, hvalid⟩
      · rw [hrun, hadd] at hok
        simp at hok
      rw [hrun, hadd] at hok
      simp only [map_some, some.injEq, Prod.mk.injEq] at hok
      obtain ⟨rfl, rfl⟩ := hok
      rw [h.cnt] at hfail
      have := hfail (by decide) (by decide)
      rw [hvalid] at this
      exact nomatch this
    rintro (h0 | hfa | ⟨-, hcomp⟩)
    · exact hn h0
    · exact hf hfa
    · exact hc hcomp
  -- the second table
  have hadd := ipaNatiAddIpv4Tbl_second publicIpAddr hlt hf
    (by rw [hsize, hcnt]; decide)
  rw [hadd] at hrun
  refine iff_of_false ?_ ?_
  · rintro ⟨_, _, hok, -⟩
    rw [hrun] at hok
    simp at hok
  rintro (h0 | hfa | ⟨hlt', -⟩)
  · exact hn h0
  · exact hf hfa
  · rw [hcnt] at hlt'
    exact nomatch hlt'

theorem run_del_of_ne (env : DelTblEnv) {tblHdl : UInt32} (hh : tblHdl ≠ 1) :
    (TblOp.del env tblHdl).run s = some (-eINVAL, s) := by
  have hcond : tblHdl.toNat = invalidNatEntry ∨ tblHdl.toNat > maxIp4Tbls := by
    have hne : tblHdl.toNat ≠ 1 := fun h => hh (UInt32.toNat_inj.mp (by simpa using h))
    unfold invalidNatEntry maxIp4Tbls
    omega
  simp only [TblOp.run, ipaNatDelIpv4Tbl, if_pos hcond]

theorem run_del_one (env : DelTblEnv) (hsize : s.ip4Tbl.size = maxIp4Tbls) : (TblOp.del env 1).run s =
      if (s.ip4Tbl.get 0).valid = false then some (-eINVAL, s)
      else if env.close ∧ env.delNat = true then
        some (0, ⟨s.ip4Tbl.set 0 default, s.ipaFd, (s.tableCnt + 255) % 256⟩)
      else some (-eINVAL, ⟨s.ip4Tbl.set 0
        { s.ip4Tbl.get 0 with rules := CArray.null, indx := CArray.null },
        s.ipaFd, s.tableCnt⟩) := by
  have hread : s.ip4Tbl.read 0 = some (s.ip4Tbl.get 0) := CArray.read_of_lt (by rw [hsize]; decide)
  have hcond : ¬ (UInt32.toNat 1 = invalidNatEntry ∨ UInt32.toNat 1 > maxIp4Tbls) := by decide
  have hindex : (UInt32.toNat 1 + 2 ^ 32 - 1) % 256 = 0 := by decide
  simp only [TblOp.run, ipaNatDelIpv4Tbl, if_neg hcond, ipaNatiDelIpv4Table, hindex, hread, bind_eq_bind, bind_some]
  cases hv : (s.ip4Tbl.get 0).valid with
  | false => rfl
  | true =>
    rcases env with ⟨close, delNat⟩
    cases close <;> cases delNat <;> simp [CArray.set]

/-- **A deletion is right exactly when it completes.** -/
theorem callOk_del_iff (h : CacheInv s) (env : DelTblEnv) (tblHdl : UInt32) :
    (TblOp.del env tblHdl).CallOk s ↔ (TblOp.del env tblHdl).Completes s := by
  by_cases hh : tblHdl = 1
  · subst hh
    have hrun := run_del_one env h.size
    cases hv : (s.ip4Tbl.get 0).valid with
    | false =>
      rw [if_pos hv] at hrun
      exact iff_of_true ⟨_, _, hrun, h.ok, trivial⟩ (.inr (.inl hv))
    | true =>
      rw [if_neg (by simp [hv])] at hrun
      by_cases hc : env.close = true ∧ env.delNat = true
      · rw [if_pos hc] at hrun
        refine iff_of_true ⟨_, _, hrun, ⟨?_, fun i hi hv' => ?_⟩, trivial⟩ (.inr (.inr hc))
        · rcases h with h | ⟨-, hcnt, -⟩
          · rw [h.slot] at hv
            exact nomatch hv
          · show (s.tableCnt + 255) % 256 ≤ maxIp4Tbls
            rw [hcnt]
            decide
        · obtain rfl : i = 0 := Nat.lt_one_iff.mp hi
          simp only [CArray.get_set, Function.update_self] at hv'
          exact nomatch hv'
      rw [if_neg hc] at hrun
      refine iff_of_false ?_ ?_
      · rintro ⟨_, _, hok, ⟨-, hmap⟩, -⟩
        rw [hrun, some.injEq, Prod.mk.injEq] at hok
        obtain ⟨-, rfl⟩ := hok
        -- the slot is still valid, but its memory is unmapped
        have hm := (hmap 0 (by decide) (by simpa using hv)).rules
        simp only [CArray.get_set, Function.update_self] at hm
        have hzero : (CArray.null : CArray IpaNatRule).size = 0 := rfl
        rcases h with h | ⟨-, -, -, _, -⟩
        · rw [h.slot] at hv
          exact nomatch hv
        · omega
      rintro (hne | hinv | hc')
      · exact hne rfl
      · simp [hv] at hinv
      · exact hc hc'
  · exact iff_of_true ⟨_, _, run_del_of_ne env hh, h.ok, trivial⟩ (.inl hh)

theorem callOk_iff (h : CacheInv s) : op.CallOk s ↔ op.Completes s := by
  cases op with
  | add env publicIpAddr n => exact callOk_add_iff h env publicIpAddr n
  | del env tblHdl => exact callOk_del_iff h env tblHdl

theorem CacheInv.step {ret : ℤ} (h : CacheInv s) (hc : op.Completes s)
    (hrun : op.run s = some (ret, s')) : CacheInv s' := by
  cases op with
  | add env publicIpAddr n =>
    have hlt := n.toNat_lt
    by_cases hn : n = 0
    · simp [TblOp.run, ipaNatAddIpv4Tbl, hn] at hrun
      exact hrun.2 ▸ h
    rw [run_add_eq env publicIpAddr hn] at hrun
    by_cases hf : AllocFails env s.ipaFd
    · obtain ⟨fd, hadd⟩ := ipaNatiAddIpv4Tbl_of_fails publicIpAddr hlt hf
      rw [hadd, map_some, some.injEq, Prod.mk.injEq] at hrun
      exact hrun.2 ▸ h.setFd fd
    obtain ⟨hcnt, hcomp⟩ := (hc.resolve_left hn).resolve_left hf
    rcases h with h | ⟨-, h1, -⟩
    · obtain ⟨_, _, t, -, -, hadd⟩ := ipaNatiAddIpv4Tbl_of_completes publicIpAddr hlt h hf hcomp
      rw [hadd, map_some, some.injEq, Prod.mk.injEq] at hrun
      rw [← hrun.2]
      refine .inr ⟨h.size, rfl, ?_, ?_, ?_⟩
      · simp [freshTbl]
      · simpa [freshTbl] using expnTableEntriesOf_ge n.toNat hlt
      · simpa using freshTbl_mapped _ _ _ _ _
    · rw [h1] at hcnt
      exact nomatch hcnt
  | del env tblHdl =>
    by_cases hh : tblHdl = 1
    · subst hh
      rw [run_del_one env h.size] at hrun
      cases hv : (s.ip4Tbl.get 0).valid with
      | false =>
        rw [if_pos hv, some.injEq, Prod.mk.injEq] at hrun
        exact hrun.2 ▸ h
      | true =>
        have hcomp := (hc.resolve_left fun hne => hne rfl).resolve_left (by simp [hv])
        rw [if_neg (by simp [hv]), if_pos hcomp, some.injEq, Prod.mk.injEq] at hrun
        rcases h with h | ⟨hsize, hcnt, -⟩
        · rw [h.slot] at hv
          exact nomatch hv
        rw [← hrun.2]
        refine .inl ⟨hsize, ?_, by simp⟩
        show (s.tableCnt + 255) % 256 = 0
        rw [hcnt]
    · rw [run_del_of_ne env hh, some.injEq, Prod.mk.injEq] at hrun
      exact hrun.2 ▸ h

theorem allCalls_iff (h : CacheInv s) (ops : List TblOp) :
    AllCalls (fun s op => op.CallOk s) s ops ↔ AllCalls (fun s op => op.Completes s) s ops := by
  induction ops generalizing s with
  | nil => exact Iff.rfl
  | cons _ _ ih =>
    constructor
    · rintro ⟨hok, hrest⟩
      have hc := (callOk_iff h).mp hok
      exact ⟨hc, fun ret s' hrun => (ih (h.step hc hrun)).mp (hrest ret s' hrun)⟩
    · rintro ⟨hc, hrest⟩
      exact ⟨(callOk_iff h).mpr hc, fun ret s' hrun => (ih (h.step hc hrun)).mpr (hrest ret s' hrun)⟩

/-- **The life cycle of a NAT table.**  In a run of the table interface, with
any answers of the system, all calls keep at most one table, touch no slot
beyond the array, keep valid slots mapped with arrays of the current geometry
and report what they did, if and only if every call is rejected up front or
finds a free slot and gets through all its steps. -/
theorem natTableLifeCycle (ops : List TblOp) : AllCalls (fun s op => op.CallOk s) IpaNatCache.init ops ↔
      AllCalls (fun s op => op.Completes s) IpaNatCache.init ops :=
  allCalls_iff cacheInv_init ops

/-- The answers of a system on which the NAT device cannot be opened. -/
def noNatDevice : AddTblEnv where
  openIpa := 3
  allocNatMem := some 0
  mallocMeta := true
  mallocRuleId := true
  openNat := -1
  mmap := .mapFailed
  initNat := true

/-- Adding a table on such a system fails, and leaves a slot that is marked
valid and has no tables. -/
theorem natTableLifeCycle_no_device : ¬ AllCalls (fun s op => op.CallOk s) IpaNatCache.init
      [TblOp.add noNatDevice 0x0A000001 100] := by
  rintro ⟨hok, -⟩
  have hopen : ¬ noNatDevice.Completes := fun hc => absurd hc.openNat (by decide)
  rcases (callOk_iff cacheInv_init).mp hok with h0 | hf | ⟨-, hc⟩
  · exact nomatch h0
  · rcases hf with ⟨-, hneg⟩ | hmem
    · exact nomatch hneg
    · simp [noNatDevice] at hmem
  · exact hopen hc

end

end G4Common.IpaNat

/-
The NAT driver as a finite map.

A run starts from a table made by `ipa_nati_add_ipv4_tbl()` and continues with
additions of TCP and UDP rules and with deletions of handles in use
(`Reach`).  Beside the driver's state it keeps `live`: the handles that were
handed out and not deleted since, with their rules.  That list is the abstract
state.

`Tracks` ties the two together through `rule_id_array`; each call keeps it
(`Good.step`).  From it and from the invariant follow the refinement, the
shape of the chains, and that nothing is left behind.
-/
import G4Common.IpaNat.DelRun
import G4Common.IpaNat.Geometry

namespace G4Common.IpaNat

open Function List Option

/-! ### Walks -/

section

variable (c : IpaNatIp4TableCache)

/-- The destination chain from bucket `b`. -/
def dstChain (b : ℕ) : Option (List ℕ) := follow (ruleNext c) c.totalEntries b

/-- The index chain from bucket `b`. -/
def idxChain (b : ℕ) : Option (List ℕ) := follow (indxNext c) c.totalEntries b

/-- The entries of the rules that a walk of the destination chain finds:
enabled, and the protocol not `0xFF`. -/
def dstWalk (b : ℕ) : Option (List ℕ) :=
  (dstChain c b).map (filter fun e => (c.rules.get e).live)

/-- The rule entries that a walk of the index chain finds. -/
def idxWalk (b : ℕ) : Option (List ℕ) :=
  (idxChain c b).map fun l => (l.map (entryOf c)).filter (· ≠ invalidNatEntry)

/-- The rule a client added for entry `e`. -/
def ruleAt (e : ℕ) : IpaNatIpv4Rule := (c.rules.get e).clnt

/-- The entry a handle parses to. -/
def hdlEntry (ruleHdl : ℕ) : Option ℕ :=
  (ipaNatiParseIpv4RuleHdl c (u16 ruleHdl)).map fun p =>
    if p.1 then c.tableEntries + p.2 else p.2

end

section

variable {c : IpaNatIp4TableCache} {D X : ℕ → List ℕ} {b : ℕ}

theorem TblInv.ruleNext_zero (h : TblInv c D X) {e : ℕ} (he : ¬ ruleUsed c e) : ruleNext c e = 0 := by
  unfold ruleNext
  rw [h.rule_zero e he]
  rfl

theorem TblInv.indxNext_zero (h : TblInv c D X) {i : ℕ} (hi : ¬ indxUsed c i) : indxNext c i = 0 := by
  unfold indxNext
  rw [h.indx_zero i hi]
  rfl

theorem idxWalk_eq_map (c : IpaNatIp4TableCache) (b : ℕ) :
    idxWalk c b = ((idxChain c b).map (filter fun i => entryOf c i ≠ invalidNatEntry)).map
      (List.map (entryOf c)) := by
  unfold idxWalk
  rw [Option.map_map]
  congr 1
  funext l
  exact filter_map

theorem TblInv.dstWalk_eq (h : TblInv c D X) (hs : Shaped c) (hb : b < c.tableEntries) :
    dstWalk c b = some ((D b).filter fun e => (c.rules.get e).live) :=
  h.dst.follow_filter hs.lt_total (fun _ _ => h.ruleNext_zero) hb fun _ _ hl => liveAt_used hl

theorem TblInv.idxWalk_eq (h : TblInv c D X) (hs : Shaped c) (hb : b < c.tableEntries) :
    idxWalk c b = some ((X b).map (entryOf c)) := by
  have hfilter := h.idx.follow_filter hs.lt_total (fun _ _ => h.indxNext_zero) hb
    (P := fun i => entryOf c i ≠ invalidNatEntry)
    fun i _ hi => (of_decide_eq_true hi : entryOf c i ≠ invalidNatEntry)
  rw [idxWalk_eq_map]
  unfold idxChain
  rw [hfilter, map_some, some.injEq, filter_eq_self.mpr]
  intro i hi
  have hu : entryOf c i ≠ invalidNatEntry := (h.idx.used_iff i).mpr ⟨b, hi⟩
  exact decide_eq_true hu

theorem TblInv.dst_all (h : TblInv c D X) :
    ((range c.tableEntries).flatMap fun b =>
        (D b).filter fun e => (c.rules.get e).live).Nodup ∧
      ∀ e, e ∈ ((range c.tableEntries).flatMap fun b =>
        (D b).filter fun e => (c.rules.get e).live) ↔ liveAt c e := by
  constructor
  · refine nodup_flatMap.mpr ⟨fun b _ => ?_, ?_⟩
    · by_cases hD : D b = []
      · simp [hD]
      · exact (h.dst.seg b hD).nodup.filter _
    · refine List.Pairwise.imp (fun {a b} hab => ?_) nodup_range
      intro e hea heb
      exact hab (h.dst.disj a b e (mem_of_mem_filter hea) (mem_of_mem_filter heb))
  intro e
  simp only [mem_flatMap, mem_range, mem_filter]
  constructor
  · rintro ⟨b, -, -, hl⟩
    exact hl
  · intro hl
    obtain ⟨b, hb⟩ := (h.dst.used_iff e).mp (liveAt_used hl)
    exact ⟨b, (h.dst.head b (ne_nil_of_mem hb)).2, hb, hl⟩

theorem TblInv.idx_all (h : TblInv c D X) : ((range c.tableEntries).flatMap fun b => (X b).map (entryOf c)).Nodup ∧
      ∀ e, e ∈ ((range c.tableEntries).flatMap fun b => (X b).map (entryOf c)) ↔
        liveAt c e := by
  have hused : ∀ b i, i ∈ X b → indxUsed c i := fun b i hi => (h.idx.used_iff i).mpr ⟨b, hi⟩
  constructor
  · refine nodup_flatMap.mpr ⟨fun b _ => ?_, ?_⟩
    · by_cases hX : X b = []
      · simp [hX]
      · refine List.Nodup.map_on (fun i hi j hj heq => ?_) (h.idx.seg b hX).nodup
        exact h.pair.payload_inj (hused b i hi) heq
    refine List.Pairwise.imp (fun {a b} hab => ?_) nodup_range
    intro e hea heb
    obtain ⟨i, hi, rfl⟩ := mem_map.mp hea
    obtain ⟨j, hj, heq⟩ := mem_map.mp heb
    have hij := h.pair.payload_inj (hused a i hi) heq.symm
    exact hab (h.idx.disj a b i hi (hij ▸ hj))
  intro e
  simp only [mem_flatMap, mem_range, List.mem_map]
  constructor
  · rintro ⟨b, -, i, hi, rfl⟩
    exact (h.pair.bwd i (hused b i hi)).1
  intro hl
  obtain ⟨hu, heq⟩ := h.indxOf_used hl
  obtain ⟨b, hb⟩ := (h.idx.used_iff _).mp hu
  exact ⟨b, (h.idx.head b (ne_nil_of_mem hb)).2, _, hb, heq⟩

end

/-! ### Runs -/

/-- A client's call. -/
inductive NatOp
  | add (rule : IpaNatIpv4Rule)
  | del (ruleHdl : ℕ)
  deriving DecidableEq, Repr

/-- The driver, and the handles in use with their rules. -/
structure NatState where
  hw : NatHw
  live : List (ℕ × IpaNatIpv4Rule)

/-- One call, with all ioctls succeeding. -/
def NatState.step (s : NatState) : NatOp → Option NatState
  | .add rule => do
    let (ret, ruleHdl, hw) ← ipaNatiAddIpv4Rule .allOk s.hw rule
    return ⟨hw, if ret = 0 then (ruleHdl.getD 0, rule) :: s.live else s.live⟩
  | .del ruleHdl => do
    let (ret, hw) ← ipaNatiDelIpv4Rule true s.hw ruleHdl
    return ⟨hw, if ret = 0 then s.live.filter (·.1 ≠ ruleHdl) else s.live⟩

/-- Clients add TCP and UDP rules and delete handles in use. -/
def NatState.Allowed (s : NatState) : NatOp → Prop
  | .add rule => rule.protocol = ipprotoTcp ∨ rule.protocol = ipprotoUdp
  | .del ruleHdl => ∃ rule, (ruleHdl, rule) ∈ s.live

/-- The states of the runs that start from table `c₀`. -/
inductive Reach (c₀ : IpaNatIp4TableCache) : NatState → Prop
  | start : Reach c₀ ⟨⟨c₀, []⟩, []⟩
  | step {s s' : NatState} {op : NatOp} : Reach c₀ s → s.Allowed op → s.step op = some s' →
      Reach c₀ s'

/-- `c` is a table that `ipa_nati_add_ipv4_tbl()` has just made, where there was
none, for a 16-bit number of entries.  The kernel leaves the offset of the
table in its memory at the 0 the driver put there. -/
def FreshTable (c : IpaNatIp4TableCache) : Prop :=
  ∃ env s publicIpAddr n tblHdl s', s.NoTable ∧ n < 65536 ∧ env.allocNatMem = some 0 ∧
    ipaNatiAddIpv4Tbl env s publicIpAddr n = some (0, tblHdl, s') ∧ c = s'.ip4Tbl.get 0

/-- Entry numbers fit the 12 bits of a rule id. -/
def TwelveBits (c : IpaNatIp4TableCache) : Prop :=
  c.tableEntries ≤ 4096 ∧ c.expnTableEntries ≤ 4096

variable {c c₀ : IpaNatIp4TableCache} {s : NatState}

theorem FreshTable.eq (h : FreshTable c) : ∃ publicIpAddr natFd mem t n, n < 65536 ∧ mem.offset = 0 ∧
      getNearest2Power (baseTableEntries n) = some (some t) ∧
      c = freshTbl publicIpAddr natFd mem t (expnTableEntriesOf n) := by
  obtain ⟨env, s, pub, n, _, _, hs, hn, hoff, hadd, rfl⟩ := h
  by_cases hf : AllocFails env s.ipaFd
  · obtain ⟨fd, hfail⟩ := ipaNatiAddIpv4Tbl_of_fails pub hn hf
    rw [hfail, some.injEq, Prod.mk.injEq] at hadd
    exact absurd hadd.1 (by decide)
  by_cases hc : env.Completes
  · obtain ⟨_, mem, t, ht, hmem, hok⟩ := ipaNatiAddIpv4Tbl_of_completes pub hn hs hf hc
    rw [hok, some.injEq, Prod.mk.injEq, Prod.mk.injEq] at hadd
    rw [hoff, some.injEq] at hmem
    refine ⟨pub, env.openNat, mem, t, n, hn, hmem.symm, ht, ?_⟩
    rw [← hadd.2.2]
    simp
  rcases ipaNatiAddIpv4Tbl_of_not_completes pub hn hs hf hc with hfail | ⟨_, hfail, -⟩
  · rw [hfail] at hadd
    simp at hadd
  · rw [hfail, some.injEq, Prod.mk.injEq] at hadd
    exact absurd hadd.1 (by decide)

/-- The base table is not empty, and the byte offsets of index entries fit 16
bits. -/
def OffsetsFit (c : IpaNatIp4TableCache) : Prop :=
  0 < c.tableEntries ∧ c.tableEntries ≤ 16384

theorem sizes_of_fit {n t : ℕ} (hn : n < 65536)
    (ht : getNearest2Power (baseTableEntries n) = some (some t)) (hpos : 0 < t) (hle : t ≤ 16384) :
    2 ≤ t ∧ expnTableEntriesOf n ≤ 16384 := by
  have heq := getNearest2Power_eq hn ht
  have hpow : basePow n = t := by
    rcases Nat.lt_or_eq_of_le (basePow_le hn) with hlt | hwrap
    · rw [heq, u16_of_lt hlt]
    · rw [hwrap] at heq
      exact absurd heq (Nat.ne_of_gt hpos)
  exact ⟨hpow ▸ basePow_two_le n, (expn_le_basePow hn).trans (hpow ▸ hle)⟩

theorem FreshTable.fit (h : FreshTable c) (h12 : TwelveBits c) : OffsetsFit c := by
  obtain ⟨_, _, _, t, n, hn, _, ht, rfl⟩ := h.eq
  obtain ⟨hT, hE⟩ := h12
  -- a small expansion table means few entries, so the base size did not wrap
  have hsmall : baseTableEntries n < 32768 := by
    have hle := Nat.le_trans (le_expnTableEntriesOf n hn) hE
    unfold baseTableEntries
    split <;> omega
  exact ⟨Nat.lt_of_lt_of_le Nat.zero_lt_two (getNearest2Power_ge ht hsmall), hT.trans (by decide)⟩

theorem FreshTable.inv (h : FreshTable c) (hfit : OffsetsFit c) : NatInv c (fun _ => []) (fun _ => []) := by
  obtain ⟨pub, fd, mem, t, n, hn, hoff, ht, rfl⟩ := h.eq
  obtain ⟨hbase, hexpn⟩ := sizes_of_fit hn ht hfit.1 hfit.2
  have hrule : ∀ e, (freshTbl pub fd mem t (expnTableEntriesOf n)).rules.get e = default := fun _ => rfl
  have hindx : ∀ i, (freshTbl pub fd mem t (expnTableEntriesOf n)).indx.get i = default := fun _ => rfl
  have hused : ∀ e, ¬ ruleUsed (freshTbl pub fd mem t (expnTableEntriesOf n)) e := fun e hu => by
    unfold ruleUsed at hu
    rw [hrule] at hu
    exact nomatch hu
  have hlive : ∀ e, ¬ liveAt (freshTbl pub fd mem t (expnTableEntriesOf n)) e :=
    fun e hl => hused e (liveAt_used hl)
  have hiused : ∀ i, ¬ indxUsed (freshTbl pub fd mem t (expnTableEntriesOf n)) i := fun i hu => by
    unfold indxUsed entryOf at hu
    rw [hindx] at hu
    exact hu rfl
  refine ⟨rfl, ⟨rfl, rfl, rfl, rfl, hbase, hfit.2, expnTableEntriesOf_ge n hn, hexpn, hoff⟩, ?_,
    fun e hu => absurd hu (hused e), ?_⟩
  · exact ⟨Chained.empty hused, Chained.empty hiused,
      Pairing.empty hlive fun i => not_not.mp (hiused i), fun e _ => hrule e,
      fun i _ => hindx i, fun e hu => absurd hu (hused e), nofun,
      nofun⟩
  · exact ⟨fun k _ hk => absurd rfl hk, fun k _ _ _ hk => absurd rfl hk,
      fun e hl => absurd hl (hlive e), fun k _ hk => absurd rfl hk⟩

/-- A system on which every step succeeds, and mapped memory that is not
zero. -/
def sampleEnv : AddTblEnv where
  openIpa := 3
  allocNatMem := some 0
  mallocMeta := true
  mallocRuleId := true
  openNat := 4
  mmap := .mapped (fun _ => { (default : IpaNatRule) with enable := true }) fun i => ⟨i, i⟩
  initNat := true

/-- The cache after a table for 20 entries was added. -/
def sampleCache : IpaNatCache :=
  ((ipaNatiAddIpv4Tbl sampleEnv IpaNatCache.init 0x0A000001 20).map (·.2.2)).getD default

def sampleTable : IpaNatIp4TableCache := sampleCache.ip4Tbl.get 0

theorem sampleTable_fresh : FreshTable sampleTable :=
  ⟨sampleEnv, IpaNatCache.init, 0x0A000001, 20, 1, sampleCache, ⟨rfl, rfl, rfl⟩, by decide, rfl,
    rfl, rfl⟩

theorem sampleTable_bits : TwelveBits sampleTable := ⟨by decide, by decide⟩

def sampleRule : IpaNatIpv4Rule where
  targetIp := 0x08080808
  privateIp := 0xC0A80102
  targetPort := 443
  privatePort := 40000
  publicPort := 50000
  protocol := ipprotoTcp

/-- A rule for the buckets of `sampleRule`. -/
def collidingRule : IpaNatIpv4Rule :=
  { sampleRule with targetPort := 458, privatePort := 40001, publicPort := 50001 }

/-! ### The handles in use -/

/-- The list of handles and the live entries of the tables correspond through
`rule_id_array`. -/
structure Tracks (c : IpaNatIp4TableCache) (live : List (ℕ × IpaNatIpv4Rule)) : Prop where
  nodup : (live.map Prod.fst).Nodup
  sound : ∀ p ∈ live, ∃ k e, p.1 = k + 1 ∧ k < c.totalEntries ∧
    c.ruleIdArray.get k = ruleIdOf c.tableEntries e ∧ liveAt c e ∧ ruleAt c e = p.2
  complete : ∀ e, liveAt c e →
    ∃ p ∈ live, c.ruleIdArray.get (p.1 - 1) = ruleIdOf c.tableEntries e

def Good (s : NatState) : Prop := (∃ D X, NatInv s.hw.cache D X) ∧ Tracks s.hw.cache s.live

section

variable {c c' : IpaNatIp4TableCache} {D X : ℕ → List ℕ} {live : List (ℕ × IpaNatIpv4Rule)}
variable {clnt : IpaNatIpv4Rule} {k e : ℕ}

theorem Tracks.add (ht : Tracks c live) (h : NatInv c D X) (hT : c'.tableEntries = c.tableEntries)
    (hN : c'.totalEntries = c.totalEntries) (hk : k < c.totalEntries) (hk0 : c.ruleIdArray.get k = 0)
    (hids : c'.ruleIdArray.get = update c.ruleIdArray.get k (ruleIdOf c.tableEntries e))
    (hlive : ∀ y, liveAt c' y ↔ liveAt c y ∨ y = e)
    (hold : ∀ y, liveAt c y → ruleAt c' y = ruleAt c y) (hnew : ruleAt c' e = clnt) :
    Tracks c' ((k + 1, clnt) :: live) := by
  have hcell : ∀ j y, liveAt c y → c.ruleIdArray.get j = ruleIdOf c.tableEntries y → j ≠ k := by
    rintro j y hy hid rfl
    rw [hk0] at hid
    exact ruleIdOf_ne_zero h.shaped (h.tbl.used_lt h.shaped (liveAt_used hy))
      (h.tbl.pair.pos y hy) hid.symm
  refine ⟨?_, ?_, ?_⟩
  · refine nodup_cons.mpr ⟨fun hmem => ?_, ht.nodup⟩
    obtain ⟨p, hp, hpk⟩ := mem_map.mp hmem
    obtain ⟨j, y, hj, -, hid, hy, -⟩ := ht.sound p hp
    have hjk : j + 1 = k + 1 := hj.symm.trans hpk
    exact hcell j y hy hid (by omega)
  · intro p hp
    rw [hids, hN, hT]
    rcases mem_cons.mp hp with rfl | hp
    · exact ⟨k, e, rfl, hk, by simp, (hlive e).mpr (.inr rfl), hnew⟩
    · obtain ⟨j, y, hj, hjN, hid, hy, hr⟩ := ht.sound p hp
      refine ⟨j, y, hj, hjN, ?_, (hlive y).mpr (.inl hy), (hold y hy).trans hr⟩
      rw [update_of_ne (hcell j y hy hid), hid]
  intro y hy
  rw [hids, hT]
  rcases (hlive y).mp hy with hy | rfl
  · obtain ⟨p, hp, hid⟩ := ht.complete y hy
    refine ⟨p, mem_cons_of_mem _ hp, ?_⟩
    rw [update_of_ne (hcell _ y hy hid), hid]
  · exact ⟨(k + 1, clnt), by simp, by simp⟩

theorem Tracks.del (ht : Tracks c live) (h : NatInv c D X) (he : liveAt c e)
    (hk : k < c.totalEntries) (hid : c.ruleIdArray.get k = ruleIdOf c.tableEntries e)
    (hd : Deleted c e k c') : Tracks c' (live.filter (·.1 ≠ k + 1)) := by
  have hs := h.shaped
  have hlt : ∀ y, liveAt c y → y < c.totalEntries :=
    fun y hy => h.tbl.used_lt hs (liveAt_used hy)
  have hN : c'.totalEntries = c.totalEntries := by
    unfold IpaNatIp4TableCache.totalEntries
    rw [hd.table, hd.expn]
  have hcell : ∀ j y, liveAt c y → y ≠ e →
      c.ruleIdArray.get j = ruleIdOf c.tableEntries y → j ≠ k := by
    rintro j y hy hye hidy rfl
    exact hye (ruleIdOf_inj hs (hlt y hy) (hlt e he) (hidy.symm.trans hid))
  refine ⟨?_, ?_, ?_⟩
  · exact (filter_sublist.map Prod.fst).nodup ht.nodup
  · intro p hp
    obtain ⟨hp, hpk⟩ := mem_filter.mp hp
    obtain ⟨j, y, hj, hjN, hidy, hy, hr⟩ := ht.sound p hp
    have hjk : j ≠ k := by
      rintro rfl
      simp [hj] at hpk
    have hye : y ≠ e := by
      rintro rfl
      have hj0 : c.ruleIdArray.get j ≠ 0 := by
        rw [hidy]
        exact ruleIdOf_ne_zero hs (hlt y hy) (h.tbl.pair.pos y hy)
      exact hjk (h.hdl.inj j k hjN hk hj0 (hidy.trans hid.symm))
    have hy' := (hd.live y).mpr ⟨hy, hye⟩
    rw [hd.ids, hN, hd.table]
    exact ⟨j, y, hj, hjN, by rw [update_of_ne hjk, hidy], hy', (hd.clnt y hy').trans hr⟩
  intro y hy
  obtain ⟨hy, hye⟩ := (hd.live y).mp hy
  obtain ⟨p, hp, hidy⟩ := ht.complete y hy
  obtain ⟨j, -, _, -⟩ := ht.sound p hp
  have hjk := hcell _ y hy hye hidy
  rw [hd.ids, hd.table]
  refine ⟨p, mem_filter.mpr ⟨hp, ?_⟩, by rw [update_of_ne hjk, hidy]⟩
  have hne : p.1 ≠ k + 1 := by
    intro hpk
    rw [hpk] at hjk
    exact hjk (by omega)
  exact decide_eq_true hne

theorem proto_ne_invalid {p : UInt8} (h : p = ipprotoTcp ∨ p = ipprotoUdp) : p ≠ invalidProtoFieldCmp := by
  rcases h with rfl | rfl <;> decide

/-- With all ioctls succeeding, an addition either has no room and changes
nothing, or puts the rule in and hands out a handle. -/
theorem add_cases (h : NatInv c D X) (ht : Tracks c live)
    (hproto : clnt.protocol ≠ invalidProtoFieldCmp) (seen : List IpaNatIp4TableCache) :
    (DstFull c clnt ∨ IdxFull c clnt) ∧ ipaNatiAddIpv4Rule .allOk ⟨c, seen⟩ clnt = some (-eINVAL, none, ⟨c, seen⟩) ∨
    ¬ (DstFull c clnt ∨ IdxFull c clnt) ∧ ∃ k c' tr,
      ipaNatiAddIpv4Rule .allOk ⟨c, seen⟩ clnt = some (0, some (k + 1), ⟨c', seen ++ tr⟩) ∧
      (∃ D' X', NatInv c' D' X') ∧ Tracks c' ((k + 1, clnt) :: live) := by
  rcases ipaNatiAddIpv4Rule_eq h clnt .allOk seen with hfull | ⟨hroom, pl, tr, hpl, -, hrun⟩
  · exact .inl hfull
  have hen : AddIoctls.allOk.enable = true := rfl
  rw [if_pos hen] at hrun
  obtain ⟨k, hk, hk0, hrun⟩ := hrun
  have hfree := hpl.dst.free
  have hview := addEnabled_view .allOk clnt h.shaped (fun hp => (hpl.dst.prev_used h.tbl.dst hp).2)
    (fun hq => (hpl.idx.prev_used h.tbl.idx hq).2)
  have hlive : ∀ y, liveAt (addEnabled .allOk c clnt pl) y ↔ liveAt c y ∨ y = pl.entry :=
    fun y => (hview.live_iff hfree hproto).trans (by simp [AddIoctls.allOk])
  refine .inr ⟨hroom, k, _, tr, hrun, ⟨_, _, hview.inv h hpl hproto (fun _ => rfl) (fun _ => rfl) hk hk0⟩, ?_⟩
  refine ht.add h hview.geom.table hview.geom.total (by omega) hk0 ?_ hlive (fun y hy => ?_) hview.entry_clnt
  · simp [setRuleId, hview.geom.ids]
  have hye : y ≠ pl.entry := by
    rintro rfl
    exact hfree (liveAt_used hy)
  show ((addEnabled .allOk c clnt pl).rules.get y).clnt = (c.rules.get y).clnt
  rw [hview.rule_of_ne hye, IpaNatRule.clnt_setNext]

theorem del_ok {p : ℕ × IpaNatIpv4Rule} (h : NatInv c D X) (ht : Tracks c live) (hp : p ∈ live)
    (seen : List IpaNatIp4TableCache) :
    ∃ c' tr, ipaNatiDelIpv4Rule true ⟨c, seen⟩ p.1 = some (0, ⟨c', seen ++ tr⟩) ∧
      (∃ D' X', NatInv c' D' X') ∧ Tracks c' (live.filter (·.1 ≠ p.1)) := by
  obtain ⟨k, e, hk, hkN, hid, he, -⟩ := ht.sound p hp
  obtain ⟨c', tr, hrun, hinv, hd, -⟩ := ipaNatiDelIpv4Rule_spec h he hkN hid seen
  rw [hk]
  exact ⟨c', tr, hrun, hinv, ht.del h he hkN hid hd⟩

end

/-- An addition returns and keeps the invariant, for every protocol but the
mark of a deleted head. -/
theorem Good.add {rule : IpaNatIpv4Rule} (h : Good s) (hproto : rule.protocol ≠ invalidProtoFieldCmp) :
    ∃ s', s.step (.add rule) = some s' ∧ Good s' := by
  obtain ⟨⟨c, seen⟩, live⟩ := s
  obtain ⟨⟨D, X, hinv⟩, ht⟩ := h
  rcases add_cases hinv ht hproto seen with ⟨-, hrun⟩ | ⟨-, k, c', tr, hrun, hinv', ht'⟩
  · refine ⟨⟨⟨c, seen⟩, live⟩, ?_, ⟨D, X, hinv⟩, ht⟩
    simp [NatState.step, hrun, eINVAL]
  · exact ⟨⟨⟨c', seen ++ tr⟩, (k + 1, rule) :: live⟩, by simp [NatState.step, hrun], hinv', ht'⟩

theorem Good.del {p : ℕ × IpaNatIpv4Rule} (h : Good s) (hp : p ∈ s.live) :
    ∃ s', s.step (.del p.1) = some s' ∧ Good s' := by
  obtain ⟨⟨c, seen⟩, live⟩ := s
  obtain ⟨⟨D, X, hinv⟩, ht⟩ := h
  obtain ⟨c', tr, hrun, hinv', ht'⟩ := del_ok hinv ht hp seen
  refine ⟨⟨⟨c', seen ++ tr⟩, live.filter (·.1 ≠ p.1)⟩, ?_, hinv', ht'⟩
  simp [NatState.step, hrun]

/-- **Every allowed call returns and keeps the invariant.** -/
theorem Good.step {op : NatOp} (h : Good s) (hop : s.Allowed op) : ∃ s', s.step op = some s' ∧ Good s' := by
  cases op with
  | add => exact h.add (proto_ne_invalid hop)
  | del =>
    obtain ⟨_, hmem⟩ := hop
    exact h.del hmem

theorem FreshTable.good (h : FreshTable c₀) (hfit : OffsetsFit c₀) : Good ⟨⟨c₀, []⟩, []⟩ := by
  have hinv := h.inv hfit
  refine ⟨⟨_, _, hinv⟩, by simp, by simp, fun e he => ?_⟩
  obtain ⟨b, hb⟩ := (hinv.tbl.dst.used_iff e).mp (liveAt_used he)
  simp at hb

theorem Reach.good (hfresh : FreshTable c₀) (h12 : TwelveBits c₀) (h : Reach c₀ s) : Good s := by
  induction h with
  | start => exact hfresh.good (hfresh.fit h12)
  | step _ hop hstep ih =>
    obtain ⟨_, hs', hgood⟩ := ih.step hop
    rw [hs', some.injEq] at hstep
    exact hstep ▸ hgood

theorem sample_added : ∃ s, Reach sampleTable s ∧ s.live = [(1, sampleRule)] := by
  have hop : NatState.Allowed ⟨⟨sampleTable, []⟩, []⟩ (.add sampleRule) := Or.inl rfl
  obtain ⟨s, hs, -⟩ := (Reach.start.good sampleTable_fresh sampleTable_bits).step hop
  refine ⟨s, Reach.start.step hop hs, ?_⟩
  have hlive : (NatState.step ⟨⟨sampleTable, []⟩, []⟩ (.add sampleRule)).map (·.live) = some [(1, sampleRule)] := by
    decide
  rw [hs] at hlive
  simpa using hlive

/-- Two rules on the same chains. -/
theorem collision_added : ∃ s, Reach sampleTable s ∧ s.live = [(2, collidingRule), (1, sampleRule)] := by
  have hrun : (do
      let s ← NatState.step ⟨⟨sampleTable, []⟩, []⟩ (.add sampleRule)
      let s ← s.step (.add collidingRule)
      return s.live) = some [(2, collidingRule), (1, sampleRule)] := by
    decide
  obtain ⟨s1, h1, hrun⟩ := bind_eq_some_iff.mp hrun
  obtain ⟨s2, h2, hlive⟩ := bind_eq_some_iff.mp hrun
  exact ⟨s2, (Reach.start.step (by exact Or.inl rfl) h1).step (by exact Or.inl rfl) h2, some.inj hlive⟩

/-! ### The driver is a finite map -/

/-- The tables hold exactly the rules in use: by destination walks, by index
walks, and by handle. -/
structure Refines (c : IpaNatIp4TableCache) (live : List (ℕ × IpaNatIpv4Rule)) : Prop where
  dst : ∃ W : ℕ → List ℕ,
    (∀ b, b < c.tableEntries → dstWalk c b = some (W b) ∧ ∀ e ∈ W b, liveAt c e ∧ c.dstBucket (ruleAt c e) = b) ∧
    (((range c.tableEntries).flatMap W).map (ruleAt c)).Perm (live.map Prod.snd)
  idx : ∃ W : ℕ → List ℕ,
    (∀ b, b < c.tableEntries → idxWalk c b = some (W b) ∧ ∀ e ∈ W b, liveAt c e ∧ c.srcBucket (ruleAt c e) = b) ∧
    (((range c.tableEntries).flatMap W).map (ruleAt c)).Perm (live.map Prod.snd)
  nodup : (live.map Prod.fst).Nodup
  parse : ∀ p ∈ live, ∃ e, hdlEntry c p.1 = some e ∧ liveAt c e ∧ ruleAt c e = p.2
  inj : ∀ p ∈ live, ∀ q ∈ live, hdlEntry c p.1 = hdlEntry c q.1 → p = q

section

variable {c : IpaNatIp4TableCache} {D X : ℕ → List ℕ} {live : List (ℕ × IpaNatIpv4Rule)}

theorem hdlEntry_of_id {k e : ℕ} (hs : Shaped c) (hk : k + 1 < c.totalEntries)
    (he : e < c.totalEntries) (hid : c.ruleIdArray.get k = ruleIdOf c.tableEntries e) :
    hdlEntry c (k + 1) = some e := by
  unfold hdlEntry
  rw [ipaNatiParseIpv4RuleHdl_eq hs hk he hid, map_some]
  by_cases hT : c.tableEntries ≤ e
  · simp only [hT, decide_true, if_true, (tblOf_expn hT).2]
    exact congrArg some (Nat.add_sub_cancel' hT)
  · simp [hT, (tblOf_base (Nat.lt_of_not_le hT)).2]

theorem hdlEntry_eq {k e : ℕ} (h : NatInv c D X) (hk : k < c.totalEntries) (he : liveAt c e)
    (hid : c.ruleIdArray.get k = ruleIdOf c.tableEntries e) : hdlEntry c (k + 1) = some e := by
  have hs := h.shaped
  have hlt := h.tbl.used_lt hs (liveAt_used he)
  have hk0 : c.ruleIdArray.get k ≠ 0 := by
    rw [hid]
    exact ruleIdOf_ne_zero hs hlt (h.tbl.pair.pos e he)
  exact hdlEntry_of_id hs (h.hdl.lt k hk hk0) hlt hid

theorem Tracks.entries (ht : Tracks c live) (h : NatInv c D X) :
    (live.map fun p => (hdlEntry c p.1).getD 0).Nodup ∧
      (∀ e, e ∈ (live.map fun p => (hdlEntry c p.1).getD 0) ↔ liveAt c e) ∧
      (live.map fun p => (hdlEntry c p.1).getD 0).map (ruleAt c) = live.map Prod.snd := by
  have hsound : ∀ p ∈ live, ∃ k e, p.1 = k + 1 ∧ k < c.totalEntries ∧
      c.ruleIdArray.get k = ruleIdOf c.tableEntries e ∧ liveAt c e ∧
      (hdlEntry c p.1).getD 0 = e ∧ ruleAt c e = p.2 := by
    intro p hp
    obtain ⟨k, e, hk, hkN, hid, he, hr⟩ := ht.sound p hp
    refine ⟨k, e, hk, hkN, hid, he, ?_, hr⟩
    rw [hk, hdlEntry_eq h hkN he hid]
    rfl
  refine ⟨?_, fun e => ⟨fun hmem => ?_, fun he => ?_⟩, ?_⟩
  · refine List.Nodup.map_on (fun p hp q hq heq => ?_) (List.Nodup.of_map _ ht.nodup)
    obtain ⟨k, e, hk, hkN, hid, he, hpe, -⟩ := hsound p hp
    obtain ⟨k', e', hk', hkN', hid', -, hqe, -⟩ := hsound q hq
    obtain rfl : e = e' := by rw [← hpe, ← hqe, heq]
    have hk0 : c.ruleIdArray.get k ≠ 0 := by
      rw [hid]
      exact ruleIdOf_ne_zero h.shaped (h.tbl.used_lt h.shaped (liveAt_used he))
        (h.tbl.pair.pos e he)
    have hkk := h.hdl.inj k k' hkN hkN' hk0 (hid.trans hid'.symm)
    exact inj_on_of_nodup_map ht.nodup hp hq (by rw [hk, hk', hkk])
  · obtain ⟨p, hp, rfl⟩ := mem_map.mp hmem
    obtain ⟨k, e, -, -, -, he, hpe, -⟩ := hsound p hp
    rwa [hpe]
  · obtain ⟨p, hp, hid⟩ := ht.complete e he
    obtain ⟨k, _, hk, _, hid', he', hpe, -⟩ := hsound p hp
    refine mem_map.mpr ⟨p, hp, hpe.trans ?_⟩
    rw [hk, Nat.add_sub_cancel] at hid
    exact ruleIdOf_inj h.shaped (h.tbl.used_lt h.shaped (liveAt_used he'))
      (h.tbl.used_lt h.shaped (liveAt_used he)) (hid'.symm.trans hid)
  rw [List.map_map]
  refine map_congr_left fun p hp => ?_
  obtain ⟨k, e, -, -, -, -, hpe, hr⟩ := hsound p hp
  rw [comp_apply, hpe, hr]

theorem Tracks.refines (ht : Tracks c live) (h : NatInv c D X) : Refines c live := by
  obtain ⟨hnd, hmem, hmap⟩ := ht.entries h
  have hperm : ∀ l : List ℕ, l.Nodup → (∀ e, e ∈ l ↔ liveAt c e) → (l.map (ruleAt c)).Perm (live.map Prod.snd) := by
    intro l hl hlm
    rw [← hmap]
    exact ((perm_ext_iff_of_nodup hl hnd).mpr fun e => (hlm e).trans (hmem e).symm).map (ruleAt c)
  obtain ⟨hd, hdm⟩ := h.tbl.dst_all
  obtain ⟨hi, him⟩ := h.tbl.idx_all
  refine ⟨⟨_, fun b hb => ⟨h.tbl.dstWalk_eq h.shaped hb, fun e he => ?_⟩, hperm _ hd hdm⟩,
    ⟨_, fun b hb => ⟨h.tbl.idxWalk_eq h.shaped hb, fun e he => ?_⟩, hperm _ hi him⟩, ht.nodup,
    fun p hp => ?_, fun p hp q hq heq => ?_⟩
  · obtain ⟨heb, hl⟩ := mem_filter.mp he
    exact ⟨hl, h.tbl.dst_own b e heb hl⟩
  · obtain ⟨i, hib, rfl⟩ := mem_map.mp he
    have hu : indxUsed c i := (h.tbl.idx.used_iff i).mpr ⟨b, hib⟩
    exact ⟨(h.tbl.pair.bwd i hu).1, h.tbl.idx_own b i hib⟩
  · obtain ⟨k, e, hk, hkN, hid, he, hr⟩ := ht.sound p hp
    exact ⟨e, by rw [hk, hdlEntry_eq h hkN he hid], he, hr⟩
  · exact inj_on_of_nodup_map hnd hp hq (by rw [heq])

end

/-- **The NAT driver refines a finite map.**  In every state of every run, the
walks over the destination chains and over the index chains find exactly the
rules added and not deleted since, each on the chains of its own buckets, and
the handles in use are distinct and parse to the entries of their rules.  All
further calls return; a deletion succeeds, and an addition that fails changes
nothing. -/
theorem natDriver_refines_map {c₀ : IpaNatIp4TableCache} {s : NatState} (hfresh : FreshTable c₀)
    (h12 : TwelveBits c₀) (h : Reach c₀ s) :
    Refines s.hw.cache s.live ∧
    (∀ op, s.Allowed op → ∃ s', s.step op = some s') ∧
    (∀ p ∈ s.live, ∃ hw, ipaNatiDelIpv4Rule true s.hw p.1 = some (0, hw)) ∧
    (∀ rule ret ruleHdl hw, s.Allowed (.add rule) →
      ipaNatiAddIpv4Rule .allOk s.hw rule = some (ret, ruleHdl, hw) → ret ≠ 0 → hw = s.hw) := by
  have hgood := h.good hfresh h12
  have hstep : ∀ op, s.Allowed op → ∃ s', s.step op = some s' := fun op hop => by
    obtain ⟨s', hs', -⟩ := hgood.step hop
    exact ⟨s', hs'⟩
  obtain ⟨⟨c, seen⟩, _⟩ := s
  obtain ⟨⟨D, X, hinv⟩, ht⟩ := hgood
  refine ⟨ht.refines hinv, hstep, fun p hp => ?_, fun rule ret ruleHdl hw hop hcall hret => ?_⟩
  · obtain ⟨c', tr, hrun, -⟩ := del_ok hinv ht hp seen
    exact ⟨_, hrun⟩
  rcases add_cases hinv ht (proto_ne_invalid hop) seen with ⟨-, hrun⟩ | ⟨-, k, _, _, hrun, -⟩
  · rw [hrun, some.injEq, Prod.mk.injEq, Prod.mk.injEq] at hcall
    exact hcall.2.2.symm
  · rw [hrun, some.injEq, Prod.mk.injEq] at hcall
    exact absurd hcall.1.symm hret

theorem natDriver_refines_map_sample :
    sampleTable.dstBucket collidingRule = sampleTable.dstBucket sampleRule ∧
    sampleTable.srcBucket collidingRule = sampleTable.srcBucket sampleRule ∧
    ∃ s, Reach sampleTable s ∧ s.live = [(2, collidingRule), (1, sampleRule)] ∧ Refines s.hw.cache s.live ∧
      ∃ hw, ipaNatiDelIpv4Rule true s.hw 1 = some (0, hw) := by
  obtain ⟨s, hs, hl⟩ := collision_added
  obtain ⟨hmap, -, hdel, -⟩ := natDriver_refines_map sampleTable_fresh sampleTable_bits hs
  exact ⟨by decide, by decide, s, hs, hl, hmap, hdel (1, sampleRule) (by simp [hl])⟩

/-! ### The shape of the chains -/

/-- The chains of one kind of table, read off the links: each ends, without
meeting an entry twice; no two share an entry; every entry behind a head lies
in the expansion part and not in its slot 0; back links undo links. -/
structure ChainsOk (T N : ℕ) (nxt prev : ℕ → ℕ) (used : ℕ → Prop) : Prop where
  ends : ∀ b, b < T → used b → ∃ l, follow nxt N b = some l ∧ l.Nodup ∧
    ∀ e ∈ l, used e ∧ (e ≠ b → T < e ∧ e < N)
  disjoint : ∀ b b' l l', b < T → b' < T → used b → used b' → b ≠ b' →
    follow nxt N b = some l → follow nxt N b' = some l' → l.Disjoint l'
  covers : ∀ e, used e → ∃ b l, b < T ∧ used b ∧ follow nxt N b = some l ∧ e ∈ l
  back : ∀ e, used e → nxt e ≠ 0 → prev (nxt e) = e

theorem chainsOk_of_chained {T N : ℕ} {nxt prev : ℕ → ℕ} {used : ℕ → Prop} {D : ℕ → List ℕ}
    (h : Chained T N nxt prev used D) (hTN : T ≤ N) : ChainsOk T N nxt prev used := by
  have hne : ∀ b, b < T → used b → D b ≠ [] := fun b hb hu =>
    ne_nil_of_mem (h.mem_own hu hb)
  refine ⟨fun b hb hu => ?_, fun b b' l l' hb hb' hu hu' hbb hl hl' => ?_, fun e he => ?_,
    fun e he hn => h.prev_next he hn⟩
  · refine ⟨D b, h.follow_head hTN (hne b hb hu), (h.seg b (hne b hb hu)).nodup, fun e he => ?_⟩
    exact ⟨(h.used_iff e).mpr ⟨b, he⟩, h.tail b e he⟩
  · rw [h.follow_head hTN (hne b hb hu), some.injEq] at hl
    rw [h.follow_head hTN (hne b' hb' hu'), some.injEq] at hl'
    subst hl hl'
    intro e he he'
    exact hbb (h.disj b b' e he he')
  · obtain ⟨b, hb⟩ := (h.used_iff e).mp he
    have hDb := ne_nil_of_mem hb
    exact ⟨b, D b, (h.head b hDb).2, (h.used_iff b).mpr ⟨b, h.head_mem hDb⟩, h.follow_head hTN hDb, hb⟩

/-- **The structure of the NAT tables** in every state of every run: both kinds
of chains are well formed, live rules and occupied index entries name each
other, and an addition of any rule, with any outcome of its ioctls, ends its
loops and stays inside its tables. -/
theorem natTables_wellFormed {c₀ : IpaNatIp4TableCache} {s : NatState} (hfresh : FreshTable c₀)
    (h12 : TwelveBits c₀) (h : Reach c₀ s) :
    ChainsOk s.hw.cache.tableEntries s.hw.cache.totalEntries (ruleNext s.hw.cache)
      (rulePrev s.hw.cache) (ruleUsed s.hw.cache) ∧
    ChainsOk s.hw.cache.tableEntries s.hw.cache.totalEntries (indxNext s.hw.cache)
      (indxPrev s.hw.cache) (indxUsed s.hw.cache) ∧
    (∀ t, liveAt s.hw.cache t → indxUsed s.hw.cache (indxOf s.hw.cache t) ∧
      entryOf s.hw.cache (indxOf s.hw.cache t) = t) ∧
    (∀ i, indxUsed s.hw.cache i → liveAt s.hw.cache (entryOf s.hw.cache i) ∧
      indxOf s.hw.cache (entryOf s.hw.cache i) = i) ∧
    ∀ io rule, ∃ r, ipaNatiAddIpv4Rule io s.hw rule = some r := by
  obtain ⟨⟨D, X, hinv⟩, -⟩ := h.good hfresh h12
  refine ⟨chainsOk_of_chained hinv.tbl.dst hinv.shaped.le_total,
    chainsOk_of_chained hinv.tbl.idx hinv.shaped.le_total,
    fun t ht => hinv.tbl.indxOf_used ht, fun i hi => hinv.tbl.pair.bwd i hi, fun io rule => ?_⟩
  rcases ipaNatiAddIpv4Rule_eq hinv rule io s.hw.seen with ⟨-, hrun⟩ | ⟨-, _, _, -, -, hrun⟩
  · exact ⟨_, hrun⟩
  split at hrun
  · obtain ⟨k, -, -, hrun⟩ := hrun
    exact ⟨_, hrun⟩
  · exact ⟨_, hrun⟩

theorem natTables_wellFormed_sample : ∃ s, Reach sampleTable s ∧ s.live = [(2, collidingRule), (1, sampleRule)] ∧
      ChainsOk s.hw.cache.tableEntries s.hw.cache.totalEntries (ruleNext s.hw.cache)
        (rulePrev s.hw.cache) (ruleUsed s.hw.cache) ∧
      ChainsOk s.hw.cache.tableEntries s.hw.cache.totalEntries (indxNext s.hw.cache)
        (indxPrev s.hw.cache) (indxUsed s.hw.cache) := by
  obtain ⟨s, hs, hl⟩ := collision_added
  obtain ⟨hrules, hindx, -⟩ := natTables_wellFormed sampleTable_fresh sampleTable_bits hs
  exact ⟨s, hs, hl, hrules, hindx⟩

/-! ### Nothing is left behind -/

/-- **When all rules are deleted the tables are zero again.** -/
theorem natDriver_no_leak {c₀ : IpaNatIp4TableCache} {s : NatState} (hfresh : FreshTable c₀)
    (h12 : TwelveBits c₀) (h : Reach c₀ s) (hlive : s.live = []) :
    (∀ e, s.hw.cache.rules.get e = default) ∧ (∀ i, s.hw.cache.indx.get i = default) ∧
      ∀ k, k < s.hw.cache.totalEntries → s.hw.cache.ruleIdArray.get k = 0 := by
  obtain ⟨⟨D, X, hinv⟩, ht⟩ := h.good hfresh h12
  have hdead : ∀ e, ¬ liveAt s.hw.cache e := fun e he => by
    obtain ⟨p, hp, -⟩ := ht.complete e he
    simp [hlive] at hp
  refine ⟨fun e => hinv.tbl.rule_zero e fun hu => ?_, fun i => hinv.tbl.indx_zero i fun hu => ?_,
    fun k hk => ?_⟩
  · -- the last entry of the chain would be a dead head without follower
    obtain ⟨b, hb⟩ := (hinv.tbl.dst.used_iff e).mp hu
    have hDb := ne_nil_of_mem hb
    have hbb := hinv.tbl.dst.head_mem hDb
    have hub : ruleUsed s.hw.cache b := (hinv.tbl.dst.used_iff b).mpr ⟨b, hbb⟩
    have hnext := hinv.noDead b hub (hdead b)
    have hover := hinv.tbl.dst.next_overflow hub hnext
    have hdh := hinv.tbl.dead_head _ (hinv.tbl.dst.next_used hub hnext) (hdead _)
    omega
  · exact hdead _ (hinv.tbl.pair.bwd i hu).1
  · by_contra hk0
    obtain ⟨e, he, -⟩ := hinv.hdl.id_live k hk hk0
    exact hdead e he

theorem natDriver_no_leak_sample : ∃ s s', Reach sampleTable s ∧ s.live = [(2, collidingRule), (1, sampleRule)] ∧
      Reach sampleTable s' ∧ (s.step (.del 1)).bind (·.step (.del 2)) = some s' ∧
      s'.live = [] ∧ ∀ e, s'.hw.cache.rules.get e = default := by
  have hrun : (do
      let s1 ← NatState.step ⟨⟨sampleTable, []⟩, []⟩ (.add sampleRule)
      let s2 ← s1.step (.add collidingRule)
      let s3 ← s2.step (.del 1)
      let s4 ← s3.step (.del 2)
      return (s2.live, s3.live, s4.live))
      = some ([(2, collidingRule), (1, sampleRule)], [(2, collidingRule)], []) := by
    decide
  simp only [bind_eq_bind, bind_eq_some_iff, Option.pure_def, some.injEq, Prod.mk.injEq] at hrun
  obtain ⟨s1, h1, s2, h2, s3, h3, s4, h4, hl2, hl3, hl4⟩ := hrun
  have hreach := (Reach.start.step (by exact Or.inl rfl) h1).step (by exact Or.inl rfl) h2
  have hreach4 := (hreach.step (by exact ⟨sampleRule, by simp [hl2]⟩) h3).step (by exact ⟨collidingRule, by simp [hl3]⟩) h4
  refine ⟨s2, s4, hreach, hl2, hreach4, ?_, hl4, (natDriver_no_leak sampleTable_fresh sampleTable_bits hreach4 hl4).1⟩
  rw [h3, bind_some, h4]

end G4Common.IpaNat

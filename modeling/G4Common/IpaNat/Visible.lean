/-
What the hardware can see while a call runs.

`NatHw.seen` records the tables after each write of the driver that the
hardware can see.  In each of these states every other rule is found by both of
its walks.

During an addition the enable flag is the last write, so a walk finds the new
rule only when all of it is in place.  A deletion is the other way round:
`ReorderCmds()` moves the commands for the index tables to the front, so the
rule is first taken off its index chain and then off its destination chain.

The walks of an intermediate state of a deletion are those of the state before
(for the rule tables, as long as their command has not run) or those of the
state at the end (`delDone`): what differs from the end is off the chains.
-/
import G4Common.IpaNat.Atomic

namespace G4Common.IpaNat

open Function List Option

/-! ### Walks and live rules -/

section

variable {c g x : IpaNatIp4TableCache} {D X : ℕ → List ℕ} {b y : ℕ}

theorem OnDst.live (h : OnDst c b y) : liveAt c y := by
  obtain ⟨l, hl, hy⟩ := h
  obtain ⟨_, -, rfl⟩ := map_eq_some_iff.mp hl
  exact (mem_filter.mp hy).2

theorem TblInv.live_of_onIdx (h : TblInv c D X) (hs : Shaped c) (hb : b < c.tableEntries)
    (hi : OnIdx c b y) : liveAt c y := by
  obtain ⟨l, hl, hy⟩ := hi
  rw [h.idxWalk_eq hs hb, some.injEq] at hl
  subst hl
  obtain ⟨i, hi, rfl⟩ := mem_map.mp hy
  exact (h.pair.bwd i ((h.idx.used_iff i).mpr ⟨b, hi⟩)).1

theorem TblInv.mem_dst (h : TblInv c D X) (hl : liveAt c y) : y ∈ D (c.dstBucket (ruleAt c y)) := by
  obtain ⟨b, hb⟩ := (h.dst.used_iff y).mp (liveAt_used hl)
  have hown : c.dstBucket (ruleAt c y) = b := h.dst_own b y hb hl
  exact hown.symm ▸ hb

theorem TblInv.mem_idx (h : TblInv c D X) (hl : liveAt c y) : indxOf c y ∈ X (c.srcBucket (ruleAt c y)) := by
  obtain ⟨hu, heq⟩ := h.indxOf_used hl
  obtain ⟨b, hb⟩ := (h.idx.used_iff _).mp hu
  have hown := h.idx_own b _ hb
  rw [heq] at hown
  have hown' : c.srcBucket (ruleAt c y) = b := hown
  exact hown'.symm ▸ hb

theorem TblInv.found (h : TblInv c D X) (hs : Shaped c) (hl : liveAt c y) : Found c y (ruleAt c y) := by
  refine ⟨rfl, ⟨_, h.dstWalk_eq hs (hs.dstBucket_range _).2, ?_⟩, ⟨_, h.idxWalk_eq hs (hs.srcBucket_range _).2, ?_⟩⟩
  · exact mem_filter.mpr ⟨h.mem_dst hl, hl⟩
  · exact mem_map.mpr ⟨_, h.mem_idx hl, (h.indxOf_used hl).2⟩

theorem TblInv.dstWalk_congr (h : TblInv g D X) (hs : Shaped g) (hg : SameGeom g x)
    (hnext : ∀ z, ruleUsed g z → ruleNext x z = ruleNext g z) (hlive : ∀ z, ruleUsed g z → (liveAt x z ↔ liveAt g z))
    (hhead : ∀ z, z < g.tableEntries → ¬ ruleUsed g z → ruleNext x z = 0 ∧ ¬ liveAt x z)
    (hb : b < g.tableEntries) : dstWalk x b = dstWalk g b := by
  have hch := h.dst.congr hnext (fun _ _ => rfl) fun _ => Iff.rfl
  have hx : dstWalk x b = some ((D b).filter fun e => (x.rules.get e).live) := by
    unfold dstWalk dstChain
    rw [hg.total]
    refine hch.follow_filter hs.lt_total (fun z hz hu => (hhead z hz hu).1) hb fun z hz hl => ?_
    by_contra hu
    exact (hhead z hz hu).2 hl
  rw [hx, h.dstWalk_eq hs hb, some.injEq]
  refine filter_congr fun z hz => ?_
  exact Bool.eq_iff_iff.mpr (hlive z ((h.dst.used_iff z).mpr ⟨b, hz⟩))

theorem TblInv.idxWalk_congr (h : TblInv g D X) (hs : Shaped g) (hg : SameGeom g x)
    (hindx : ∀ z, indxUsed g z → x.indx.get z = g.indx.get z)
    (hhead : ∀ z, z < g.tableEntries → ¬ indxUsed g z → indxNext x z = 0 ∧ ¬ indxUsed x z)
    (hb : b < g.tableEntries) : idxWalk x b = idxWalk g b := by
  have hentry : ∀ z, indxUsed g z → entryOf x z = entryOf g z := fun z hz => by
    unfold entryOf
    rw [hindx z hz]
  have hch : Chained g.tableEntries g.totalEntries (indxNext x) (indxPrev g) (indxUsed g) X := by
    refine h.idx.congr (fun z hz => ?_) (fun _ _ => rfl) fun _ => Iff.rfl
    unfold indxNext
    rw [hindx z hz]
  have hx : (follow (indxNext x) g.totalEntries b).map (filter fun i => entryOf x i ≠ invalidNatEntry) =
      some ((X b).filter fun i => entryOf x i ≠ invalidNatEntry) := by
    refine hch.follow_filter hs.lt_total (fun z hz hu => (hhead z hz hu).1) hb fun z hz hl => ?_
    by_contra hu
    exact (hhead z hz hu).2 (of_decide_eq_true hl : entryOf x z ≠ invalidNatEntry)
  have hmem : ∀ i ∈ X b, indxUsed g i := fun i hi => (h.idx.used_iff i).mpr ⟨b, hi⟩
  rw [idxWalk_eq_map, idxChain, hg.total, hx, h.idxWalk_eq hs hb, map_some, some.injEq, filter_eq_self.mpr]
  · exact map_congr_left fun i hi => hentry i (hmem i hi)
  intro i hi
  have hu : entryOf x i ≠ invalidNatEntry := by
    rw [hentry i (hmem i hi)]
    exact hmem i hi
  exact decide_eq_true hu

end

/-! ### During an addition -/

section

variable {c x : IpaNatIp4TableCache} {D X : ℕ → List ℕ} {clnt : IpaNatIpv4Rule} {pl : Place}
variable {lk ix ilk en : Bool} {io : AddIoctls} {b y : ℕ}

theorem AddView.found_old (hv : AddView c clnt pl lk ix ilk en x) (hx : ilk → ix)
    (hs : Shaped c) (h : TblInv c D X) (hpl : pl.Ok c D X clnt) (hl : liveAt c y) : Found x y (ruleAt c y) := by
  have hye : y ≠ pl.entry := by
    rintro rfl
    exact hpl.dst.free (liveAt_used hl)
  have hrule := hv.rule_of_ne hye
  refine ⟨?_, ?_, ?_⟩
  · unfold ruleAt
    rw [hrule, IpaNatRule.clnt_setNext]
  · rw [hv.geom.dstBucket]
    refine ⟨_, hv.dstWalk_eq hs h hpl (hs.dstBucket_range _).2, mem_filter.mpr ⟨?_, ?_⟩⟩
    · have hmem := h.mem_dst hl
      split
      · exact mem_append_left _ hmem
      · exact hmem
    · have hlive : (c.rules.get y).live = true := hl
      rw [hrule]
      simpa using hlive
  rw [hv.geom.srcBucket]
  cases ix with
  | false =>
    obtain rfl : ilk = false := by
      cases ilk
      · rfl
      · exact nomatch hx rfl
    obtain ⟨-, -, l, hwalk, hmem⟩ := h.found hs hl
    exact ⟨l, hv.idxWalk_of_not_written.trans hwalk, hmem⟩
  | true =>
    obtain ⟨hu, heq⟩ := h.indxOf_used hl
    have hne : indxOf c y ≠ pl.indx := fun hi => hpl.idx.free (hi ▸ hu)
    refine ⟨_, hv.idxWalk_eq hs h hpl (hs.srcBucket_range _).2, mem_map.mpr ?_⟩
    refine ⟨indxOf c y, ?_, (hv.entryOf_of_ne hne).trans heq⟩
    have hmem := h.mem_idx hl
    split
    · exact mem_append_left _ hmem
    · exact hmem

theorem AddView.live_cases (hv : AddView c clnt pl lk ix ilk en x) (hl : liveAt x y) :
    liveAt c y ∨ y = pl.entry ∧ en = true := by
  by_cases hy : y = pl.entry
  · subst hy
    exact .inr ⟨rfl, (hv.entry_live.mp hl).1⟩
  · have hlive : (x.rules.get y).live = true := hl
    rw [hv.rule_of_ne hy] at hlive
    exact .inl (by simpa [liveAt] using hlive)

theorem addStates_view (hs : Shaped c) (h : TblInv c D X) (hpl : pl.Ok c D X clnt) (hx : x ∈ addStates io c clnt pl) :
    ∃ lk ix ilk en, AddView c clnt pl lk ix ilk en x ∧ (ilk → ix) ∧
      (en → lk = io.ruleNext ∧ ix ∧ ilk = io.indexNext) := by
  have hpe : pl.prev ≠ 0 → pl.prev ≠ pl.entry := fun hp => (hpl.dst.prev_used h.dst hp).2
  have hqi : pl.indxPrev ≠ 0 → pl.indxPrev ≠ pl.indx := fun hq => (hpl.idx.prev_used h.idx hq).2
  simp only [addStates, mem_cons, not_mem_nil, or_false] at hx
  rcases hx with rfl | rfl | rfl | rfl | rfl
  · exact ⟨_, _, _, _, addCopied_view clnt hs, by simp, by simp⟩
  · exact ⟨_, _, _, _, addLinked_view io clnt hs hpe, by simp, by simp⟩
  · exact ⟨_, _, _, _, addIndexed_view io clnt hs hpe, by simp, by simp⟩
  · exact ⟨_, _, _, _, addIndexLinked_view io clnt hs hpe hqi, by simp, by simp⟩
  · exact ⟨_, _, _, _, addEnabled_view io clnt hs hpe hqi, by simp, by simp⟩

/-- With all ioctls succeeding, a walk that finds the new rule finds all of
it. -/
theorem found_new (hs : Shaped c) (h : TblInv c D X) (hpl : pl.Ok c D X clnt)
    (hx : x ∈ addStates .allOk c clnt pl) (hd : OnDst x b y) (hy : ¬ liveAt c y) : Found x y clnt := by
  obtain ⟨_, _, _, _, hv, -, hlast⟩ := addStates_view hs h hpl hx
  obtain ⟨rfl, hen⟩ := (hv.live_cases hd.live).resolve_left hy
  obtain ⟨rfl, rfl, rfl⟩ := hlast hen
  refine ⟨hv.entry_clnt, ?_, ?_⟩
  · rw [hv.geom.dstBucket]
    exact (hv.onDst_entry hs h hpl).mpr ⟨Or.inr rfl, hv.entry_live.mp hd.live⟩
  · rw [hv.geom.srcBucket]
    exact (hv.onIdx_entry hs h hpl).mpr (.inr rfl)

end

/-! ### During a deletion -/

/-- What walks read of rule entry `z` is the same in two tables. -/
structure ReadsSame (x x' : IpaNatIp4TableCache) (z : ℕ) : Prop where
  next : ruleNext x z = ruleNext x' z
  live : liveAt x z ↔ liveAt x' z
  rule : ruleAt x z = ruleAt x' z

/-- The rule tables once their command has run: apart from the deleted entry,
all that walks read is as it will be at the end. -/
structure RulesFinal (c : IpaNatIp4TableCache) (e i : ℕ) (x : IpaNatIp4TableCache) : Prop where
  same : ∀ z, z ≠ e ∨ (e < c.tableEntries ∧ ruleNext c e ≠ 0) → ReadsSame x (delDone c e i) z
  head : e < c.tableEntries → ruleNext c e = 0 → ruleNext x e = 0 ∧ ¬ liveAt x e

/-- The index tables once their commands have run. -/
structure IndxFinal (c : IpaNatIp4TableCache) (e i : ℕ) (x : IpaNatIp4TableCache) : Prop where
  same : ∀ z, z ≠ indxFreed c i → x.indx.get z = (delDone c e i).indx.get z
  head : indxFreed c i < c.tableEntries →
    indxNext x (indxFreed c i) = 0 ∧ ¬ indxUsed x (indxFreed c i)

section

variable {c x x' : IpaNatIp4TableCache} {D X : ℕ → List ℕ} {e i b y z : ℕ}

theorem ReadsSame.trans {x'' : IpaNatIp4TableCache} (h : ReadsSame x x' z)
    (h' : ReadsSame x' x'' z) : ReadsSame x x'' z :=
  ⟨h.next.trans h'.next, h.live.trans h'.live, h.rule.trans h'.rule⟩

theorem readsSame_delDone (h : TblInv c D X) (he : ruleUsed c e)
    (hx : x.rules.get z = ruleDel c e z) : ReadsSame x (delDone c e i) z := by
  obtain ⟨hn, -, -, hl, hc⟩ := delDone_rule_fields (i := i) (y := z) h he
  refine ⟨?_, ?_, ?_⟩
  · rw [hn, ruleNext, hx]
  · rw [hl, liveAt, hx]
  · rw [ruleAt, ruleAt, hc, hx]

theorem readsSame_delPrevUpd (z : ℕ) : ReadsSame x (delPrevUpd c e x) z := by
  by_cases hw : (c.tableEntries ≤ e ∧ ruleNext c e ≠ 0) ∧ z = ruleNext c e
  · have hrule : (delPrevUpd c e x).rules.get z = (x.rules.get z).updatePrevIndx (rulePrev c e) := by
      rw [hw.2, delPrevUpd, if_pos hw.1]
      exact update_self ..
    constructor <;> simp [ruleNext, liveAt, ruleAt, hrule]
  have hrule : (delPrevUpd c e x).rules.get z = x.rules.get z := by
    unfold delPrevUpd
    split_ifs with hcond
    · exact update_of_ne (fun heq => hw ⟨hcond, heq⟩) _ _
    · rfl
  constructor <;> simp [ruleNext, liveAt, ruleAt, hrule]

theorem delPrevUpd_final (h : TblInv c D X) (he : ruleUsed c e) (hz : z ≠ e ∨ (e < c.tableEntries ∧ ruleNext c e ≠ 0)) :
    ReadsSame (delPrevUpd c e (delUnlinked c e i)) (delDone c e i) z := by
  refine readsSame_delDone h he ?_
  rw [← delErased_rules (i := i) h he z]
  unfold delErased delFreed
  split
  · rfl
  · rename_i htomb
    exact (update_of_ne (hz.resolve_right htomb) _ _).symm

theorem delUnlinked_head (hT : e < c.tableEntries) (hn : ruleNext c e = 0) :
    ruleNext (delUnlinked c e i) e = 0 ∧ ¬ liveAt (delUnlinked c e i) e := by
  have hT' : ¬ c.tableEntries ≤ e := by omega
  have hn' : (c.rules.get e).nextIndex = 0 := hn
  have hbit : Nat.testBit flagDisableBitMask 15 = false := by decide
  simp [delUnlinked, delRuleCmd, IpaNatIp4TableCache.setRule, ruleTarget, ruleChange, hT',
    hn', ruleNext, liveAt, delUnindexed_rules, IpaNatRule.live, IpaNatRule.setFlags, hbit]

section

variable (h : TblInv c D X) (he : ruleUsed c e)
include h he

theorem delUnlinked_rulesFinal : RulesFinal c e i (delUnlinked c e i) :=
  ⟨fun z hz => (readsSame_delPrevUpd z).trans (delPrevUpd_final h he hz), delUnlinked_head⟩

theorem delPrevUpd_rulesFinal : RulesFinal c e i (delPrevUpd c e (delUnlinked c e i)) := by
  refine ⟨fun z hz => delPrevUpd_final h he hz, fun hT hn => ?_⟩
  have hsame := readsSame_delPrevUpd (c := c) (e := e) (x := delUnlinked c e i) e
  rw [← hsame.next, ← hsame.live]
  exact delUnlinked_head hT hn

theorem rulesFinal_of_readsSame (hx : ∀ z, ReadsSame x (delDone c e i) z) : RulesFinal c e i x := by
  refine ⟨fun z _ => hx z, fun _ hn => ?_⟩
  obtain ⟨hn', -⟩ := delDone_rule_fields (i := i) (y := e) h he
  rw [(hx e).next, (hx e).live, hn', delDone_live_iff h he]
  refine ⟨?_, fun hand => hand.2 rfl⟩
  rw [ruleDel, if_pos rfl, if_neg fun hand => hand.2 hn]
  rfl

end

theorem delUnindexed_indxFinal (h : TblInv c D X) (hi : indxUsed c i)
    (hx : x.indx = (delUnindexed c i).indx) : IndxFinal c e i x := by
  refine ⟨fun z hz => ?_, fun hT => ?_⟩
  · have hdone : (delDone c e i).indx.get z = (delUnindexed c i).indx.get z := by
      have hmoved : (delDone c e i).indx = (delIndxErased c e i).indx := by
        unfold delDone delMoved
        split <;> rfl
      rw [hmoved, ← delErased_indx c e i]
      exact update_of_ne hz _ _
    rw [hx, hdone]
  have hm : ¬ MovesUp c i := fun hm => by
    have hnext := (h.idx.next_overflow hi hm.2).1
    rw [indxFreed, if_pos hm] at hT
    omega
  have hfreed : indxFreed c i = i := if_neg hm
  rw [hfreed] at hT ⊢
  have hn : indxNext c i = 0 := by
    by_contra hn
    exact hm ⟨hT, hn⟩
  have hT' : ¬ c.tableEntries ≤ i := by omega
  have hn' : (c.indx.get i).nextIndex = 0 := hn
  have hcell : x.indx.get i = (c.indx.get i).setEntry invalidNatEntry := by
    rw [hx, delUnindexed_indx, if_neg hm]
    simp [indxTarget, indxChange, hT', hn]
  simp [indxNext, indxUsed, entryOf, hcell, hn', IpaNatIndxTblRule.setEntry, invalidNatEntry]

theorem delDone_indxFinal (hx : x.indx = (delDone c e i).indx) : IndxFinal c e i x := by
  refine ⟨fun z _ => by rw [hx], fun _ => ?_⟩
  have hcell : x.indx.get (indxFreed c i) = default := by
    rw [hx, delDone_indx, if_pos rfl]
  simp only [indxNext, indxUsed, entryOf, hcell]
  exact ⟨rfl, fun hne => hne rfl⟩

/-- The rule tables, seen from outside, while entry `e` is deleted. -/
structure DstSeen (c : IpaNatIp4TableCache) (e : ℕ) (x : IpaNatIp4TableCache) : Prop where
  rule : ∀ y, liveAt c y → y ≠ e → ruleAt x y = ruleAt c y
  others : ∀ y, liveAt c y → y ≠ e → OnDst x (c.dstBucket (ruleAt c y)) y
  whole : ∀ b, b < c.tableEntries → OnDst x b e → ruleAt x e = ruleAt c e

/-- The index tables. -/
structure IdxSeen (c : IpaNatIp4TableCache) (e : ℕ) (x : IpaNatIp4TableCache) : Prop where
  others : ∀ y, liveAt c y → y ≠ e → OnIdx x (c.srcBucket (ruleAt c y)) y
  gone : ∀ b, b < c.tableEntries → ¬ OnIdx x b e

theorem dstSeen_before (hs : Shaped c) (h : TblInv c D X) (hg : SameGeom c x)
    (hx : x.rules = c.rules) : DstSeen c e x := by
  have hrule : ∀ y, ruleAt x y = ruleAt c y := fun y => by
    unfold ruleAt
    rw [hx]
  have hwalk : ∀ b, dstWalk x b = dstWalk c b := fun b => by
    unfold dstWalk dstChain ruleNext
    rw [hx, hg.total]
  refine ⟨fun y _ _ => hrule y, fun y hl _ => ?_, fun b _ _ => hrule e⟩
  obtain ⟨-, ⟨l, hl, hmem⟩, -⟩ := h.found hs hl
  exact ⟨l, (hwalk _).trans hl, hmem⟩

theorem seen_after (hs : Shaped x) (h : TblInv x D X) (hg : SameGeom c x) (hlive : ∀ y, liveAt x y ↔ liveAt c y ∧ y ≠ e)
    (hrule : ∀ y, liveAt c y → y ≠ e → ruleAt x y = ruleAt c y) : DstSeen c e x ∧ IdxSeen c e x := by
  have hfound : ∀ y, liveAt c y → y ≠ e → Found x y (ruleAt c y) := fun y hl hy => by
    rw [← hrule y hl hy]
    exact h.found hs ((hlive y).mpr ⟨hl, hy⟩)
  refine ⟨⟨hrule, fun y hl hy => ?_, fun b _ hd => ?_⟩, fun y hl hy => ?_, fun b hb hi => ?_⟩
  · rw [← hg.dstBucket]
    exact (hfound y hl hy).2.1
  · exact absurd rfl ((hlive e).mp hd.live).2
  · rw [← hg.srcBucket]
    exact (hfound y hl hy).2.2
  · exact ((hlive e).mp (h.live_of_onIdx hs (hg.table.symm ▸ hb) hi)).2 rfl

end

section

variable {c x : IpaNatIp4TableCache} {D X D' X' : ℕ → List ℕ} {e i : ℕ}
variable (hs : Shaped c) (h : TblInv c D X) (he : liveAt c e) (hio : indxOf c e = i)
variable (ht : TblInv (delDone c e i) D' X')

include hs h he ht

theorem delDone_seen : DstSeen c e (delDone c e i) ∧ IdxSeen c e (delDone c e i) :=
  seen_after (delDone_shaped e i hs) ht (delDone_geom c e i)
    (fun _ => delDone_live_iff h (liveAt_used he))
    fun _ _ hy => delDone_clnt h (liveAt_used he) hy

theorem RulesFinal.seen (hf : RulesFinal c e i x) (hg : SameGeom c x) : DstSeen c e x := by
  have hu := liveAt_used he
  have hg' := delDone_geom c e i
  have hused := fun z => delDone_used_iff (i := i) (y := z) h hu
  have hwalk : ∀ b, b < c.tableEntries → dstWalk x b = dstWalk (delDone c e i) b := by
    intro b hb
    refine ht.dstWalk_congr (delDone_shaped e i hs) (hg'.symm.trans hg)
      (fun z hz => (hf.same z ((hused z).mp hz).2).next)
      (fun z hz => (hf.same z ((hused z).mp hz).2).live) (fun z hz hnu => ?_) (hg'.table.symm ▸ hb)
    rw [hg'.table] at hz
    by_cases hze : z ≠ e ∨ (e < c.tableEntries ∧ ruleNext c e ≠ 0)
    · rw [(hf.same z hze).next, (hf.same z hze).live]
      exact ⟨ht.ruleNext_zero hnu, fun hl => hnu (liveAt_used hl)⟩
    -- the freed head
    simp only [not_or, not_not, not_and] at hze
    obtain ⟨rfl, hn⟩ := hze
    exact hf.head hz (hn hz)
  obtain ⟨hseen, -⟩ := delDone_seen hs h he ht
  refine ⟨fun y hl hy => ?_, fun y hl hy => ?_, fun b hb hd => ?_⟩
  · exact (hf.same y (.inl hy)).rule.trans (hseen.rule y hl hy)
  · obtain ⟨l, hl, hmem⟩ := hseen.others y hl hy
    exact ⟨l, (hwalk _ (hs.dstBucket_range _).2).trans hl, hmem⟩
  · obtain ⟨l, hl, hmem⟩ := hd
    have hdone : OnDst (delDone c e i) b e := ⟨l, (hwalk b hb).symm.trans hl, hmem⟩
    exact absurd rfl ((delDone_live_iff h hu).mp hdone.live).2

include hio

theorem IndxFinal.seen (hf : IndxFinal c e i x) (hg : SameGeom c x) : IdxSeen c e x := by
  have hi : indxUsed c i := hio ▸ (h.indxOf_used he).1
  have hg' := delDone_geom c e i
  have hused := fun z => delDone_indxUsed_iff (e := e) (y := z) h hi
  have hwalk : ∀ b, b < c.tableEntries → idxWalk x b = idxWalk (delDone c e i) b := by
    intro b hb
    refine ht.idxWalk_congr (delDone_shaped e i hs) (hg'.symm.trans hg)
      (fun z hz => hf.same z ((hused z).mp hz).2) (fun z hz hnu => ?_) (hg'.table.symm ▸ hb)
    rw [hg'.table] at hz
    by_cases hzf : z = indxFreed c i
    · exact hzf ▸ hf.head (hzf ▸ hz)
    · have hzero : x.indx.get z = default := (hf.same z hzf).trans (ht.indx_zero z hnu)
      simp only [indxNext, indxUsed, entryOf, hzero]
      exact ⟨rfl, fun hne => hne rfl⟩
  obtain ⟨-, hseen⟩ := delDone_seen hs h he ht
  refine ⟨fun y hl hy => ?_, fun b hb hon => ?_⟩
  · obtain ⟨l, hl, hmem⟩ := hseen.others y hl hy
    exact ⟨l, (hwalk _ (hs.srcBucket_range _).2).trans hl, hmem⟩
  · obtain ⟨l, hl, hmem⟩ := hon
    exact hseen.gone b hb ⟨l, (hwalk b hb).symm.trans hl, hmem⟩

omit ht in
/-- Between the two commands for an index head with followers, the head and its
successor name the same rule. -/
theorem idxSeen_between (hm : MovesUp c i) : IdxSeen c e (delIndxCmd c i c) := by
  have hT : ¬ c.tableEntries ≤ i := Nat.not_le.mpr hm.1
  obtain ⟨hi, hpay⟩ := h.indxOf_used he
  rw [hio] at hi hpay
  have hns := h.idx.next_used hi hm.2
  have hcell : ∀ z, (delIndxCmd c i c).indx.get z =
      if z = i then (c.indx.get i).setEntry (entryOf c (indxNext c i)) else c.indx.get z := by
    intro z
    simp [delIndxCmd, indxTarget, indxChange, hT, hm.2, IpaNatIp4TableCache.setIndx, update_apply]
  have hentry : ∀ z, entryOf (delIndxCmd c i c) z =
      if z = i then entryOf c (indxNext c i) else entryOf c z := fun z => by
    unfold entryOf
    rw [hcell]
    split <;> rfl
  have hnext : indxNext (delIndxCmd c i c) = indxNext c := funext fun z => by
    unfold indxNext
    rw [hcell]
    split_ifs with hz
    · rw [hz]
      rfl
    · rfl
  have hwalk : ∀ b, b < c.tableEntries → idxWalk (delIndxCmd c i c) b =
      some (((X b).filter fun z => entryOf (delIndxCmd c i c) z ≠ invalidNatEntry).map
        (entryOf (delIndxCmd c i c))) := by
    intro b hb
    have hfilter := h.idx.follow_filter hs.lt_total (fun _ _ => h.indxNext_zero) hb
      (P := fun z => entryOf (delIndxCmd c i c) z ≠ invalidNatEntry) fun z _ hz => by
        by_cases hzi : z = i
        · exact hzi ▸ hi
        · have hne := of_decide_eq_true hz
          rwa [hentry, if_neg hzi] at hne
    have htotal : (delIndxCmd c i c).totalEntries = c.totalEntries := rfl
    rw [idxWalk_eq_map, idxChain, hnext, htotal, hfilter, map_some]
  refine ⟨fun y hl hy => ?_, fun b hb hon => ?_⟩
  · obtain ⟨_, heq⟩ := h.indxOf_used hl
    have hji : indxOf c y ≠ i := fun hji => hy (by rw [← heq, hji, hpay])
    have hy' : entryOf (delIndxCmd c i c) (indxOf c y) = y := by
      rw [hentry, if_neg hji, heq]
    have hne : entryOf (delIndxCmd c i c) (indxOf c y) ≠ invalidNatEntry := by
      rw [hy']
      exact h.pair.pos y hl
    refine ⟨_, hwalk _ (hs.srcBucket_range _).2, mem_map.mpr ⟨indxOf c y, ?_, hy'⟩⟩
    exact mem_filter.mpr ⟨h.mem_idx hl, decide_eq_true hne⟩
  obtain ⟨l, hl, hmem⟩ := hon
  rw [hwalk b hb, some.injEq] at hl
  subst hl
  obtain ⟨j, -, hj⟩ := mem_map.mp hmem
  rw [hentry] at hj
  split at hj
  · exact h.idx.next_ne hi (h.pair.payload_inj hns (hj.trans hpay.symm))
  · rename_i hji
    exact hji (h.pair.payload_inj hi (hpay.trans hj.symm)).symm

theorem delStates_seen (hx : x ∈ delStates c e i) : SameGeom c x ∧ DstSeen c e x ∧ IdxSeen c e x := by
  have hu := liveAt_used he
  have hi : indxUsed c i := hio ▸ (h.indxOf_used he).1
  have hgA : SameGeom c (delIndxCmd c i c) := (SameGeom.refl c).setIndx _ _
  have hgB := delUnindexed_geom c i
  have hgC := delUnlinked_geom c e i
  have hgP := delPrevUpd_geom c e i
  have hgE := delErased_geom c e i
  have hgF : SameGeom c (delIndxErased c e i) := hgE.trans ⟨rfl, rfl, rfl, rfl, rfl⟩
  have hprev : (delPrevUpd c e (delUnlinked c e i)).indx = (delUnindexed c i).indx := by
    unfold delPrevUpd
    split <;> rfl
  have herased : ∀ z, ReadsSame (delErased c e i) (delDone c e i) z :=
    fun z => readsSame_delDone h hu (delErased_rules h hu z)
  have hunindexed : ∀ {x}, x.indx = (delUnindexed c i).indx → SameGeom c x → IdxSeen c e x :=
    fun heq hg => (delUnindexed_indxFinal h hi heq).seen hs h he hio ht hg
  simp only [delStates, mem_cons, not_mem_nil, or_false] at hx
  rcases hx with rfl | rfl | rfl | rfl | rfl | rfl | rfl
  · refine ⟨hgA, dstSeen_before hs h hgA rfl, ?_⟩
    by_cases hm : MovesUp c i
    · exact idxSeen_between hs h he hio hm
    · refine hunindexed ?_ hgA
      rw [delUnindexed, delIndxCmd', if_neg hm]
  · exact ⟨hgB, dstSeen_before hs h hgB (delUnindexed_rules c i), hunindexed rfl hgB⟩
  · exact ⟨hgC, (delUnlinked_rulesFinal h hu).seen hs h he ht hgC, hunindexed rfl hgC⟩
  · exact ⟨hgP, (delPrevUpd_rulesFinal h hu).seen hs h he ht hgP, hunindexed hprev hgP⟩
  · exact ⟨hgE, (rulesFinal_of_readsSame h hu herased).seen hs h he ht hgE,
      hunindexed (delErased_indx c e i) hgE⟩
  · have hindx : (delIndxErased c e i).indx = (delDone c e i).indx := by
      unfold delDone delMoved
      split <;> rfl
    exact ⟨hgF, (rulesFinal_of_readsSame (x := delIndxErased c e i) h hu fun z =>
      readsSame_delDone h hu (delErased_rules h hu z)).seen hs h he ht hgF,
      (delDone_indxFinal hindx).seen hs h he hio ht hgF⟩
  · obtain ⟨hd, hx⟩ := delDone_seen hs h he ht
    exact ⟨delDone_geom c e i, hd, hx⟩

end

/-! ### What the hardware sees -/

/-- The states that a call from `s` to `s'` shows to the hardware. -/
def seenDuring (s s' : NatHw) : List IpaNatIp4TableCache := s'.seen.drop s.seen.length

/-- Each rule in use is at the entry its handle has in table `c`, and found
there in table `x`. -/
def KeepsFound (c x : IpaNatIp4TableCache) (live : List (ℕ × IpaNatIpv4Rule)) : Prop :=
  ∀ q ∈ live, ∃ e, hdlEntry c q.1 = some e ∧ Found x e q.2

section

variable {c x : IpaNatIp4TableCache} {D X : ℕ → List ℕ} {live : List (ℕ × IpaNatIpv4Rule)}
variable {e : ℕ}

theorem seenDuring_add {io : AddIoctls} {rule : IpaNatIpv4Rule} {ret : ℤ} {ruleHdl : Option ℕ}
    {s hw : NatHw} (h : NatInv s.cache D X)
    (hcall : ipaNatiAddIpv4Rule io s rule = some (ret, ruleHdl, hw)) (hx : x ∈ seenDuring s hw) :
    ∃ pl, Place.Ok s.cache D X rule pl ∧ x ∈ addStates io s.cache rule pl := by
  rcases ipaNatiAddIpv4Rule_eq h rule io s.seen with ⟨-, hrun⟩ | ⟨-, pl, tr, hpl, htr, hrun⟩
  · have hrun' := hrun
    rw [hrun', some.injEq, Prod.mk.injEq, Prod.mk.injEq] at hcall
    obtain ⟨-, -, rfl⟩ := hcall
    simp [seenDuring] at hx
  have hseen : hw.seen = s.seen ++ tr := by
    split at hrun
    · obtain ⟨k, -, -, hrun⟩ := hrun
      have heq := hcall.symm.trans hrun
      rw [some.injEq, Prod.mk.injEq, Prod.mk.injEq] at heq
      rw [heq.2.2]
    · have heq := hcall.symm.trans hrun
      rw [some.injEq, Prod.mk.injEq, Prod.mk.injEq] at heq
      rw [heq.2.2]
  rw [seenDuring, hseen, drop_left] at hx
  exact ⟨pl, hpl, htr x hx⟩

theorem seenDuring_del (h : NatInv c D X) (he : liveAt c e)
    (hx : x ∈ delStates c e (indxOf c e) ∨ ∃ X', Swept X' (delDone c e (indxOf c e)) x) :
    SameGeom c x ∧ DstSeen c e x ∧ IdxSeen c e x := by
  have hs := h.shaped
  obtain ⟨_, _, ht⟩ := delDone_tbl hs h.tbl he rfl
  rcases hx with hx | ⟨_, hsw⟩
  · exact delStates_seen hs h.tbl he rfl ht hx
  obtain ⟨_, htx⟩ := hsw.tbl
  have hg := (delDone_geom c e (indxOf c e)).trans hsw.geom
  have hlive : ∀ y, liveAt x y ↔ liveAt c y ∧ y ≠ e :=
    fun y => (hsw.live y).trans (delDone_live_iff h.tbl (liveAt_used he))
  refine ⟨hg, seen_after hsw.shaped htx hg hlive fun y hl hy => ?_⟩
  unfold ruleAt
  rw [hsw.rules y ((hsw.live y).mp ((hlive y).mpr ⟨hl, hy⟩)), delDone_clnt h.tbl (liveAt_used he) hy]

theorem keepsFound_del {p : ℕ × IpaNatIpv4Rule} (h : NatInv c D X) (ht : Tracks c live)
    (hp : p ∈ live) (hpe : hdlEntry c p.1 = some e) (hg : SameGeom c x) (hd : DstSeen c e x)
    (hi : IdxSeen c e x) : KeepsFound c x (live.filter (· ≠ p)) := by
  intro q hq
  obtain ⟨hq, hqp⟩ := mem_filter.mp hq
  obtain ⟨y, hy, hl, hr⟩ := (ht.refines h).parse q hq
  have hye : y ≠ e := by
    rintro rfl
    exact of_decide_eq_true hqp ((ht.refines h).inj q hq p hp (hy.trans hpe.symm))
  refine ⟨y, hy, (hd.rule y hl hye).trans hr, ?_, ?_⟩
  · rw [hg.dstBucket, ← hr]
    exact hd.others y hl hye
  · rw [hg.srcBucket, ← hr]
    exact hi.others y hl hye

end

/-- **What the hardware sees while a call runs**, in every state of every run.
All other rules in use are found in both ways.  An addition, with all its ioctls
succeeding, shows the new rule to destination walks only when it is complete
and both its chains lead to it.  In a deletion no index chain leads to the rule
any more, and a destination walk that still finds it finds all of it. -/
theorem natHw_visible {c₀ : IpaNatIp4TableCache} {s : NatState} (hfresh : FreshTable c₀)
    (h12 : TwelveBits c₀) (h : Reach c₀ s) :
    (∀ io rule ret ruleHdl hw, ipaNatiAddIpv4Rule io s.hw rule = some (ret, ruleHdl, hw) →
      ∀ x ∈ seenDuring s.hw hw, KeepsFound s.hw.cache x s.live ∧
        (io = .allOk → ∀ b e, OnDst x b e → ¬ liveAt s.hw.cache e → Found x e rule)) ∧
    (∀ p ∈ s.live, ∃ e hw, hdlEntry s.hw.cache p.1 = some e ∧ ipaNatiDelIpv4Rule true s.hw p.1 = some (0, hw) ∧
      ∀ x ∈ seenDuring s.hw hw, KeepsFound s.hw.cache x (s.live.filter (· ≠ p)) ∧
        ∀ b, b < s.hw.cache.tableEntries →
          ¬ OnIdx x b e ∧ (OnDst x b e → ruleAt x e = p.2)) := by
  obtain ⟨⟨D, X, hinv⟩, ht⟩ := h.good hfresh h12
  have hs := hinv.shaped
  refine ⟨fun io rule ret ruleHdl hw hcall x hx => ?_, fun p hp => ?_⟩
  · obtain ⟨_, hpl, hx⟩ := seenDuring_add hinv hcall hx
    refine ⟨fun q hq => ?_, ?_⟩
    · obtain ⟨e, hentry, he, hr⟩ := (ht.refines hinv).parse q hq
      obtain ⟨_, _, _, _, hv, hix, -⟩ := addStates_view hs hinv.tbl hpl hx
      exact ⟨e, hentry, hr ▸ hv.found_old hix hs hinv.tbl hpl he⟩
    · rintro rfl b e hd he
      exact found_new hs hinv.tbl hpl hx hd he
  obtain ⟨k, e, hk, hkN, hid, he, hr⟩ := ht.sound p hp
  obtain ⟨_, _, hrun, -, -, htr⟩ := ipaNatiDelIpv4Rule_spec hinv he hkN hid s.hw.seen
  rw [← hk] at hrun
  have hentry : hdlEntry s.hw.cache p.1 = some e := hk ▸ hdlEntry_eq hinv hkN he hid
  refine ⟨e, _, hentry, hrun, fun x hx => ?_⟩
  rw [seenDuring, drop_left] at hx
  obtain ⟨hg, hd, hi⟩ := seenDuring_del hinv he (htr x hx)
  refine ⟨keepsFound_del hinv ht hp hentry hg hd hi, fun b hb => ?_⟩
  exact ⟨hi.gone b hb, fun hon => (hd.whole b hb hon).trans hr⟩

theorem natHw_visible_sample : ∃ s e hw, Reach sampleTable s ∧ s.live = [(2, collidingRule), (1, sampleRule)] ∧
      hdlEntry s.hw.cache 1 = some e ∧ ipaNatiDelIpv4Rule true s.hw 1 = some (0, hw) ∧
      ∀ x ∈ seenDuring s.hw hw, KeepsFound s.hw.cache x [(2, collidingRule)] ∧
        ∀ b, b < s.hw.cache.tableEntries → ¬ OnIdx x b e := by
  obtain ⟨s, hs, hl⟩ := collision_added
  obtain ⟨e, hw, hentry, hrun, hseen⟩ :=
    (natHw_visible sampleTable_fresh sampleTable_bits hs).2 (1, sampleRule) (by simp [hl])
  have hkept : s.live.filter (· ≠ (1, sampleRule)) = [(2, collidingRule)] := by
    rw [hl]
    decide
  refine ⟨s, e, hw, hs, hl, hentry, hrun, fun x hx => ?_⟩
  obtain ⟨hfound, hgone⟩ := hseen x hx
  exact ⟨hkept ▸ hfound, fun b hb => (hgone b hb).1⟩

/-- After the first command of a deletion the destination walk finds the rule,
and the index chain does not lead to it. -/
theorem natHw_visible_index_first :
    ∃ s p e hw x, Reach sampleTable s ∧ p ∈ s.live ∧ hdlEntry s.hw.cache p.1 = some e ∧
      ipaNatiDelIpv4Rule true s.hw p.1 = some (0, hw) ∧ x ∈ seenDuring s.hw hw ∧
      OnDst x (x.dstBucket p.2) e ∧ ¬ OnIdx x (x.srcBucket p.2) e := by
  have hop : NatState.Allowed ⟨⟨sampleTable, []⟩, []⟩ (.add sampleRule) := Or.inl rfl
  have hrun : (do
      let s ← NatState.step ⟨⟨sampleTable, []⟩, []⟩ (.add sampleRule)
      let e ← hdlEntry s.hw.cache 1
      let r ← ipaNatiDelIpv4Rule true s.hw 1
      let x ← (seenDuring s.hw r.2)[0]?
      let l ← dstWalk x (x.dstBucket sampleRule)
      let l' ← idxWalk x (x.srcBucket sampleRule)
      return (s.live, r.1, decide (e ∈ l), decide (e ∈ l')))
      = some ([(1, sampleRule)], 0, true, false) := by
    decide
  simp only [Option.bind_eq_bind, Option.bind_eq_some_iff, Option.pure_def, Option.some.injEq,
    Prod.mk.injEq, decide_eq_true_eq, decide_eq_false_iff_not] at hrun
  obtain ⟨s, hs, e, he, ⟨ret, hw⟩, hdel, x, hx, l, hl, _, hl', hlive, hret, hmem, hnot⟩ := hrun
  obtain rfl : ret = 0 := hret
  refine ⟨s, (1, sampleRule), e, hw, x, Reach.start.step hop hs, by simp [hlive], he, hdel,
    mem_of_getElem? hx, ⟨l, hl, hmem⟩, ?_⟩
  rintro ⟨_, hl'', hmem''⟩
  rw [hl', some.injEq] at hl''
  exact hnot (hl'' ▸ hmem'')

end G4Common.IpaNat

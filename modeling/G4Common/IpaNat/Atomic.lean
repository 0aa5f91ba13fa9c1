/-
When the addition of a rule is atomic.

`ipa_nati_add_ipv4_rule()` writes a rule and an index entry, links both and
enables the rule; three of these steps are ioctls.  Nothing is taken back when
one of them fails.  The two ioctls that link are issued by a function without
result, so their failure is not even reported.

First the walks in the states on the way (`AddView`), for any outcome of the
ioctls; they serve the next module too.  Then the exact condition.
-/
import G4Common.IpaNat.Refine

namespace G4Common.IpaNat

open List Option

/-! ### Walks on the way -/

/-- The destination walk from bucket `b` finds entry `e`. -/
def OnDst (c : IpaNatIp4TableCache) (b e : ℕ) : Prop := ∃ l, dstWalk c b = some l ∧ e ∈ l

/-- The index walk from bucket `b` finds entry `e`. -/
def OnIdx (c : IpaNatIp4TableCache) (b e : ℕ) : Prop := ∃ l, idxWalk c b = some l ∧ e ∈ l

/-- Entry `e` holds `rule`, and the walks from the buckets of the rule find
it. -/
def Found (c : IpaNatIp4TableCache) (e : ℕ) (rule : IpaNatIpv4Rule) : Prop :=
  ruleAt c e = rule ∧ OnDst c (c.dstBucket rule) e ∧ OnIdx c (c.srcBucket rule) e

section

variable {c x : IpaNatIp4TableCache} {D X : ℕ → List ℕ} {clnt : IpaNatIpv4Rule} {pl : Place}
variable {lk ix ilk en : Bool} {b : ℕ}

theorem AddView.dstWalk_eq (hv : AddView c clnt pl lk ix ilk en x) (hs : Shaped c)
    (h : TblInv c D X) (hpl : pl.Ok c D X clnt) (hb : b < c.tableEntries) :
    dstWalk x b = some ((if b = c.dstBucket clnt ∧ (pl.prev = 0 ∨ lk) then
      D b ++ [pl.entry] else D b).filter fun e => (x.rules.get e).live) := by
  unfold dstWalk dstChain
  rw [hv.geom.total]
  refine h.dst.follow_inserting hs.lt_total (fun _ => h.ruleNext_zero) hpl.dst hv.entry_next
    (fun hp => ?_) (fun y hy hyp => ?_) hb fun y _ hl => ?_
  · obtain ⟨-, hpe⟩ := hpl.dst.prev_used h.dst hp
    cases lk with
    | true => exact hv.prev_next hp hpe
    | false =>
      rw [hv.ruleNext_of_ne hpe fun _ => Or.inr rfl]
      exact hpl.dst.prev_last hp
  · exact hv.ruleNext_of_ne hy fun heq => Or.inl (heq.trans (hyp heq))
  · exact ((hv.used_iff hpl.dst.free).mp (liveAt_used hl)).imp_right And.left

theorem AddView.idxWalk_of_not_written (hv : AddView c clnt pl lk false false en x) : idxWalk x b = idxWalk c b := by
  have hindx : x.indx.get = c.indx.get := funext fun y => by simp [hv.indx, indxAfter]
  have hnext : indxNext x = indxNext c := by
    unfold indxNext
    rw [hindx]
  have hentry : entryOf x = entryOf c := by
    unfold entryOf
    rw [hindx]
  unfold idxWalk idxChain
  rw [hnext, hentry, hv.geom.total]

theorem AddView.idxWalk_eq (hv : AddView c clnt pl lk true ilk en x) (hs : Shaped c)
    (h : TblInv c D X) (hpl : pl.Ok c D X clnt) (hb : b < c.tableEntries) :
    idxWalk x b = some ((if b = c.srcBucket clnt ∧ (pl.indxPrev = 0 ∨ ilk) then
      X b ++ [pl.indx] else X b).map (entryOf x)) := by
  have hused : ∀ y, indxUsed x y ↔ indxUsed c y ∨ y = pl.indx :=
    fun y => hv.indxUsed_iff hpl.dst.pos
  have hfilter : (follow (indxNext x) c.totalEntries b).map
      (filter fun i => entryOf x i ≠ invalidNatEntry) =
      some ((if b = c.srcBucket clnt ∧ (pl.indxPrev = 0 ∨ ilk = true) then
        X b ++ [pl.indx] else X b).filter fun i => entryOf x i ≠ invalidNatEntry) := by
    refine h.idx.follow_inserting hs.lt_total (fun _ => h.indxNext_zero) hpl.idx
      (by simp [indxNext, hv.indx_new]) (fun hq => ?_) (fun y hy hyq => ?_) hb
      fun y _ hu => (hused y).mp (of_decide_eq_true hu : entryOf x y ≠ invalidNatEntry)
    · obtain ⟨-, hqi⟩ := hpl.idx.prev_used h.idx hq
      cases ilk with
      | true => exact hv.indxPrev_next hq hqi
      | false =>
        rw [hv.indxNext_of_ne (fun heq => absurd heq hqi) fun _ => Or.inr rfl]
        exact hpl.idx.prev_last hq
    · exact hv.indxNext_of_ne (fun heq => absurd heq hy) fun heq => Or.inl (heq.trans (hyq heq))
  rw [idxWalk_eq_map]
  unfold idxChain
  rw [hv.geom.total, hfilter, map_some, some.injEq, filter_eq_self.mpr]
  intro i hi
  have hu : entryOf x i ≠ invalidNatEntry := by
    refine (hused i).mpr ?_
    have hold : i ∈ X b → indxUsed c i := fun hi => (h.idx.used_iff i).mpr ⟨b, hi⟩
    split at hi
    · rcases mem_append.mp hi with hi | hi
      · exact .inl (hold hi)
      · exact .inr (mem_singleton.mp hi)
    · exact .inl (hold hi)
  exact decide_eq_true hu

/-- A destination walk finds the new rule if it is linked, enabled and does not
carry the protocol of deleted rules. -/
theorem AddView.onDst_entry (hv : AddView c clnt pl lk ix ilk en x) (hs : Shaped c)
    (h : TblInv c D X) (hpl : pl.Ok c D X clnt) :
    OnDst x (c.dstBucket clnt) pl.entry ↔
      (pl.prev = 0 ∨ lk) ∧ en ∧ clnt.protocol ≠ invalidProtoFieldCmp := by
  have hnot : pl.entry ∉ D (c.dstBucket clnt) := fun hmem =>
    hpl.dst.free ((h.dst.used_iff _).mpr ⟨_, hmem⟩)
  have hlive : (x.rules.get pl.entry).live = true ↔
      en = true ∧ clnt.protocol ≠ invalidProtoFieldCmp := hv.entry_live
  unfold OnDst
  rw [hv.dstWalk_eq hs h hpl (hs.dstBucket_range clnt).2]
  simp only [some.injEq, exists_eq_left', mem_filter, hlive, true_and]
  split <;> simp [*]

theorem AddView.onIdx_entry (hv : AddView c clnt pl lk true ilk en x) (hs : Shaped c)
    (h : TblInv c D X) (hpl : pl.Ok c D X clnt) :
    OnIdx x (c.srcBucket clnt) pl.entry ↔ pl.indxPrev = 0 ∨ ilk = true := by
  have hnot : ∀ i ∈ X (c.srcBucket clnt), entryOf x i ≠ pl.entry := fun i hi heq => by
    have hu : indxUsed c i := (h.idx.used_iff i).mpr ⟨_, hi⟩
    have hne : i ≠ pl.indx := fun hii => hpl.idx.free (hii ▸ hu)
    rw [hv.entryOf_of_ne hne] at heq
    exact hpl.dst.free (heq ▸ liveAt_used (h.pair.bwd i hu).1)
  have hnew : entryOf x pl.indx = pl.entry := by simp [entryOf, hv.indx_new]
  unfold OnIdx
  rw [hv.idxWalk_eq hs h hpl (hs.srcBucket_range clnt).2]
  simp only [some.injEq, exists_eq_left', true_and]
  split
  · simp [*]
  · simp only [List.mem_map, *]
    simpa using hnot

end

/-! ### Atomic additions -/

/-- The rules that destination walks find. -/
def dstRules (c : IpaNatIp4TableCache) : Set IpaNatIpv4Rule :=
  { rule | ∃ b e, b < c.tableEntries ∧ OnDst c b e ∧ ruleAt c e = rule }

/-- The rules that index walks find. -/
def idxRules (c : IpaNatIp4TableCache) : Set IpaNatIpv4Rule :=
  { rule | ∃ b e, b < c.tableEntries ∧ OnIdx c b e ∧ ruleAt c e = rule }

/-- What a failed call must not change. -/
structure SameRules (c c' : IpaNatIp4TableCache) : Prop where
  dst : dstRules c' = dstRules c
  idx : idxRules c' = idxRules c
  indx : ∀ i, indxUsed c' i ↔ indxUsed c i
  ids : c'.ruleIdArray = c.ruleIdArray

/-- The entry of a handle holds the rule and is found in both ways. -/
def Installed (c : IpaNatIp4TableCache) (ruleHdl : ℕ) (rule : IpaNatIpv4Rule) : Prop :=
  ∃ e, hdlEntry c ruleHdl = some e ∧ Found c e rule

/-- A call is atomic: it returns, and has all its effect or none. -/
def AddAtomic (io : AddIoctls) (s : NatHw) (rule : IpaNatIpv4Rule) : Prop :=
  ∃ ret ruleHdl s', ipaNatiAddIpv4Rule io s rule = some (ret, ruleHdl, s') ∧
    (ret ≠ 0 → SameRules s.cache s'.cache) ∧
    (ret = 0 → ∃ hdl, ruleHdl = some hdl ∧ Installed s'.cache hdl rule)

/-- Every ioctl of the call succeeds: a next index is only written behind an
occupied bucket.  The protocol is not the mark of deleted rules. -/
def AddGoesThrough (io : AddIoctls) (c : IpaNatIp4TableCache) (rule : IpaNatIpv4Rule) : Prop :=
  (ruleUsed c (c.dstBucket rule) → io.ruleNext = true) ∧ (indxUsed c (c.srcBucket rule) → io.indexNext = true) ∧
    io.enable = true ∧ rule.protocol ≠ invalidProtoFieldCmp

section

variable {c : IpaNatIp4TableCache} {D X : ℕ → List ℕ}

theorem NatInv.addAtomic_iff (h : NatInv c D X) (io : AddIoctls) (rule : IpaNatIpv4Rule)
    (seen : List IpaNatIp4TableCache) :
    AddAtomic io ⟨c, seen⟩ rule ↔
      (DstFull c rule ∨ IdxFull c rule) ∨ AddGoesThrough io c rule := by
  have hs := h.shaped
  rcases ipaNatiAddIpv4Rule_eq h rule io seen with ⟨hfull, hrun⟩ | ⟨hroom, pl, _, hpl, -, hrun⟩
  · -- without room the call is refused before anything is written
    refine iff_of_true ⟨_, _, _, hrun, fun _ => ⟨rfl, rfl, fun _ => Iff.rfl, rfl⟩, ?_⟩ (.inl hfull)
    exact nofun
  have hview := addEnabled_view io rule hs (fun hp => (hpl.dst.prev_used h.tbl.dst hp).2)
    (fun hq => (hpl.idx.prev_used h.tbl.idx hq).2)
  cases hen : io.enable with
  | false =>
    -- the index entry stays behind
    rw [hen, if_neg (by decide)] at hrun
    refine iff_of_false ?_ fun hor => ?_
    · rintro ⟨ret, hdl, s', hcall, hfail, -⟩
      rw [hrun, some.injEq, Prod.mk.injEq, Prod.mk.injEq] at hcall
      obtain ⟨rfl, -, rfl⟩ := hcall
      have hsame := (hfail (by decide)).indx pl.indx
      exact hpl.idx.free (hsame.mp ((hview.indxUsed_iff hpl.dst.pos).mpr (.inr rfl)))
    · have hgo := (hor.resolve_left hroom).2.2.1
      simp [hen] at hgo
  | true =>
    rw [hen, if_pos rfl] at hrun
    obtain ⟨k, hk, -, hrun⟩ := hrun
    have hentry : hdlEntry (setRuleId (addEnabled io c rule pl) k
        (ruleIdOf c.tableEntries pl.entry)) (k + 1) = some pl.entry := by
      refine hdlEntry_of_id (hview.shaped.setRuleId _ _) ?_ ?_ ?_
      · exact hview.geom.total.symm ▸ hk
      · exact hview.geom.total.symm ▸ hpl.dst.lt hs.le_total
      · simp [setRuleId, hview.geom.table]
    have hinst : Installed (setRuleId (addEnabled io c rule pl) k (ruleIdOf c.tableEntries pl.entry)) (k + 1) rule ↔
        OnDst (addEnabled io c rule pl) (c.dstBucket rule) pl.entry ∧
          OnIdx (addEnabled io c rule pl) (c.srcBucket rule) pl.entry := by
      have hdst := hview.geom.dstBucket
      have hsrc := hview.geom.srcBucket
      constructor
      · rintro ⟨e, he, -, hd, hi⟩
        rw [hentry, some.injEq] at he
        subst he
        exact ⟨hdst ▸ hd, hsrc ▸ hi⟩
      · rintro ⟨hd, hi⟩
        exact ⟨pl.entry, hentry, hview.entry_clnt, hdst.symm ▸ hd, hsrc.symm ▸ hi⟩
    have hatomic : AddAtomic io ⟨c, seen⟩ rule ↔ OnDst (addEnabled io c rule pl) (c.dstBucket rule) pl.entry ∧
          OnIdx (addEnabled io c rule pl) (c.srcBucket rule) pl.entry := by
      rw [← hinst]
      constructor
      · rintro ⟨_, hdl, _, hcall, -, hok⟩
        rw [hrun, some.injEq, Prod.mk.injEq, Prod.mk.injEq] at hcall
        obtain ⟨rfl, rfl, rfl⟩ := hcall
        obtain ⟨_, heq, hinst⟩ := hok rfl
        rw [some.injEq] at heq
        exact heq ▸ hinst
      · exact fun hinst => ⟨_, _, _, hrun, fun h0 => absurd rfl h0, fun _ => ⟨_, rfl, hinst⟩⟩
    rw [hatomic, hview.onDst_entry hs h.tbl hpl, hview.onIdx_entry hs h.tbl hpl,
      hpl.dst.prev_eq_zero h.tbl.dst, hpl.idx.prev_eq_zero h.tbl.idx]
    unfold AddGoesThrough
    simp only [hroom, false_or, hen, true_and, imp_iff_not_or]
    rw [and_assoc, and_comm (a := rule.protocol ≠ invalidProtoFieldCmp)]

end

/-- **When an addition is atomic**, in every state of every run, for every rule
and every outcome of the ioctls: either there is no room for the rule, or every
ioctl the call issues succeeds and the protocol is not that of deleted
rules. -/
theorem natDriver_add_atomic_iff {c₀ : IpaNatIp4TableCache} {s : NatState}
    (hfresh : FreshTable c₀) (h12 : TwelveBits c₀) (h : Reach c₀ s) (io : AddIoctls) (rule : IpaNatIpv4Rule) :
    AddAtomic io s.hw rule ↔
      (DstFull s.hw.cache rule ∨ IdxFull s.hw.cache rule) ∨ AddGoesThrough io s.hw.cache rule := by
  obtain ⟨⟨D, X, hinv⟩, -⟩ := h.good hfresh h12
  exact hinv.addAtomic_iff io rule s.hw.seen

theorem natDriver_add_atomic_sample : Reach sampleTable ⟨⟨sampleTable, []⟩, []⟩ ∧
      AddAtomic .allOk ⟨sampleTable, []⟩ sampleRule := by
  refine ⟨Reach.start, ?_⟩
  refine (natDriver_add_atomic_iff sampleTable_fresh sampleTable_bits Reach.start _ _).mpr ?_
  exact .inr ⟨fun _ => rfl, fun _ => rfl, rfl, by decide⟩

/-- The ioctl that enables the first rule of a table fails: the call returns
`-EIO` and leaves an occupied index entry. -/
theorem natDriver_add_not_atomic : Reach sampleTable ⟨⟨sampleTable, []⟩, []⟩ ∧
      ¬ AddAtomic ⟨true, true, false⟩ ⟨sampleTable, []⟩ sampleRule := by
  refine ⟨Reach.start, fun hatomic => ?_⟩
  have hinv := sampleTable_fresh.inv (sampleTable_fresh.fit sampleTable_bits)
  have hempty : ∀ e, ¬ ruleUsed sampleTable e := fun e hu => by
    obtain ⟨b, hb⟩ := (hinv.tbl.dst.used_iff e).mp hu
    simp at hb
  have hiempty : ∀ i, ¬ indxUsed sampleTable i := fun i hu => by
    obtain ⟨b, hb⟩ := (hinv.tbl.idx.used_iff i).mp hu
    simp at hb
  rcases (hinv.addAtomic_iff _ _ _).mp hatomic with (hfull | hfull) | hgo
  · exact hempty _ hfull.1
  · exact hiempty _ hfull.1
  · exact absurd hgo.2.2.1 (by decide)

end G4Common.IpaNat

/-
The tables while a rule is added, and the invariant when it has been added.

Every state on the way differs from the old one in at most four entries: the
new rule and its predecessor, the new index entry and its predecessor.
`AddView` says so for all of them at once; the four flags tell how far the call
has come.  When all links are made the invariant holds again, with the new
entries at the end of the chains of their buckets (`AddView.inv`).
-/
import G4Common.IpaNat.AddSpec

namespace G4Common.IpaNat

open Function

/-! ### The entries on the way -/

section

variable (c : IpaNatIp4TableCache) (clnt : IpaNatIpv4Rule) (pl : Place)

/-- The rule entries: `lk` says that the predecessor is linked, `en` that the
new rule is enabled. -/
def ruleAfter (lk en : Bool) (y : ℕ) : IpaNatRule :=
  if y = pl.entry then
    if en = true then (newRule c clnt pl).setFlags flagEnableBitMask else newRule c clnt pl
  else if y = pl.prev ∧ pl.prev ≠ 0 ∧ lk = true then (c.rules.get y).setNext pl.entry
  else c.rules.get y

/-- The index entries: `ix` says that the new entry is written, `ilk` that its
predecessor is linked. -/
def indxAfter (ix ilk : Bool) (y : ℕ) : IpaNatIndxTblRule :=
  if y = pl.indx ∧ ix = true then ⟨pl.entry, 0⟩
  else if y = pl.indxPrev ∧ pl.indxPrev ≠ 0 ∧ ilk = true then (c.indx.get y).setNext pl.indx
  else c.indx.get y

/-- A state on the way from `c` to the tables with the new rule. -/
structure AddView (lk ix ilk en : Bool) (x : IpaNatIp4TableCache) : Prop where
  geom : SameGeom c x
  shaped : Shaped x
  rules : ∀ y, x.rules.get y = ruleAfter c clnt pl lk en y
  indx : ∀ y, x.indx.get y = indxAfter c pl ix ilk y
  metas : x.indexExpnTableMeta = (setIndxPrev c pl.indx pl.indxPrev).indexExpnTableMeta

end

section

variable {c : IpaNatIp4TableCache} (io : AddIoctls) (clnt : IpaNatIpv4Rule) {pl : Place}

theorem addCopied_view (hs : Shaped c) : AddView c clnt pl false false false false (addCopied c clnt pl) where
  geom := ⟨rfl, rfl, rfl, rfl, rfl⟩
  shaped := hs.setIndxPrev.setRule _
  rules := fun y => by
    simp [addCopied, IpaNatIp4TableCache.setRule, ruleAfter, setIndxPrev, update_apply]
  indx := fun y => by simp [addCopied, IpaNatIp4TableCache.setRule, indxAfter, setIndxPrev]
  metas := rfl

section

variable (hs : Shaped c) (hpe : pl.prev ≠ 0 → pl.prev ≠ pl.entry)
include hs hpe

theorem addLinked_view : AddView c clnt pl io.ruleNext false false false (addLinked io c clnt pl) where
  geom := addLinked_geom io c clnt pl
  shaped := (hs.setIndxPrev.setRule _).linkRule
  rules := fun y => by
    have hold := (@addCopied_view c clnt pl hs).rules
    by_cases hlink : pl.prev ≠ 0 ∧ io.ruleNext = true
    · have hne := hpe hlink.1
      rcases eq_or_ne y pl.prev with rfl | hyp
      · simp [addLinked, linkRule, hlink, hold, ruleAfter, hne]
      · simp [addLinked, linkRule, hlink, hold, ruleAfter, hyp]
    · have hcond : ¬ (y = pl.prev ∧ pl.prev ≠ 0 ∧ io.ruleNext = true) := fun h => hlink h.2
      simp only [addLinked, linkRule, if_neg hlink, hold, ruleAfter, if_neg hcond]
      simp
  indx := (addCopied_view clnt hs).indx
  metas := rfl

theorem addIndexed_view : AddView c clnt pl io.ruleNext true false false (addIndexed io c clnt pl) where
  geom := (addLinked_geom io c clnt pl).setIndx _ _
  shaped := (addLinked_view io clnt hs hpe).shaped.setIndx _
  rules := (addLinked_view io clnt hs hpe).rules
  indx := fun y => by
    have hold := (addLinked_view io clnt hs hpe).indx
    by_cases hy : y = pl.indx
    · simp [addIndexed, IpaNatIp4TableCache.setIndx, indxAfter, hy]
    · simp [addIndexed, IpaNatIp4TableCache.setIndx, hold, indxAfter, hy]
  metas := rfl

theorem addIndexLinked_view (hqi : pl.indxPrev ≠ 0 → pl.indxPrev ≠ pl.indx) :
    AddView c clnt pl io.ruleNext true io.indexNext false (addIndexLinked io c clnt pl) where
  geom := addIndexLinked_geom io c clnt pl
  shaped := (addIndexed_view io clnt hs hpe).shaped.linkIndx
  rules := (addIndexed_view io clnt hs hpe).rules
  indx := fun y => by
    have hold := (addIndexed_view io clnt hs hpe).indx
    by_cases hlink : pl.indxPrev ≠ 0 ∧ io.indexNext = true
    · have hne := hqi hlink.1
      rcases eq_or_ne y pl.indxPrev with rfl | hyq
      · simp [addIndexLinked, linkIndx, hlink, hold, indxAfter, hne]
      · simp [addIndexLinked, linkIndx, hlink, hold, indxAfter, hyq]
    have hcond : ¬ (y = pl.indxPrev ∧ pl.indxPrev ≠ 0 ∧ io.indexNext = true) :=
      fun h => hlink h.2
    simp only [addIndexLinked, linkIndx, if_neg hlink, hold, indxAfter, if_neg hcond]
    simp
  metas := rfl

theorem addEnabled_view (hqi : pl.indxPrev ≠ 0 → pl.indxPrev ≠ pl.indx) :
    AddView c clnt pl io.ruleNext true io.indexNext io.enable (addEnabled io c clnt pl) where
  geom := addEnabled_geom io c clnt pl
  shaped := (addIndexLinked_view io clnt hs hpe hqi).shaped.enableRule
  rules := fun y => by
    have hold := (addIndexLinked_view io clnt hs hpe hqi).rules
    by_cases hen : io.enable = true
    · by_cases hy : y = pl.entry
      · simp [addEnabled, enableRule, hen, hold, ruleAfter, hy]
      · simp [addEnabled, enableRule, hen, hold, ruleAfter, hy]
    · simp [addEnabled, enableRule, hen, hold, ruleAfter]
  indx := (addIndexLinked_view io clnt hs hpe hqi).indx
  metas := rfl

end

end

/-! ### What changes and what does not -/

section

variable {c x : IpaNatIp4TableCache} {D X : ℕ → List ℕ} {clnt : IpaNatIpv4Rule} {pl : Place}
variable {lk ix ilk en : Bool} {y : ℕ}

section

variable (hv : AddView c clnt pl lk ix ilk en x)
include hv

theorem AddView.rule_of_ne (hy : y ≠ pl.entry) : x.rules.get y = (c.rules.get y).setNext (ruleNext x y) := by
  unfold ruleNext
  rw [hv.rules, ruleAfter, if_neg hy]
  split <;> rfl

theorem AddView.entryOf_of_ne (hy : y ≠ pl.indx) : entryOf x y = entryOf c y := by
  unfold entryOf
  rw [hv.indx, indxAfter, if_neg fun hand => hy hand.1]
  split <;> rfl

theorem AddView.ruleNext_of_ne (hy : y ≠ pl.entry)
    (hyp : y = pl.prev → y = 0 ∨ lk = false) : ruleNext x y = ruleNext c y := by
  have hcond : ¬ (y = pl.prev ∧ pl.prev ≠ 0 ∧ lk = true) := by
    rintro ⟨h1, h2, h3⟩
    rcases hyp h1 with h | h
    · exact h2 (h1 ▸ h)
    · simp [h] at h3
  unfold ruleNext
  rw [hv.rules, ruleAfter, if_neg hy, if_neg hcond]

theorem AddView.indxNext_of_ne (hy : y = pl.indx → ix = false) (hyq : y = pl.indxPrev → y = 0 ∨ ilk = false) :
    indxNext x y = indxNext c y := by
  have hcond : ¬ (y = pl.indxPrev ∧ pl.indxPrev ≠ 0 ∧ ilk = true) := by
    rintro ⟨h1, h2, h3⟩
    rcases hyq h1 with h | h
    · exact h2 (h1 ▸ h)
    · simp [h] at h3
  have hcond' : ¬ (y = pl.indx ∧ ix = true) := by
    rintro ⟨h1, h2⟩
    simp [hy h1] at h2
  unfold indxNext
  rw [hv.indx, indxAfter, if_neg hcond', if_neg hcond]

theorem AddView.used_iff (hfree : ¬ ruleUsed c pl.entry) : ruleUsed x y ↔ ruleUsed c y ∨ y = pl.entry ∧ en = true := by
  rcases eq_or_ne y pl.entry with rfl | hy
  · have hnew : (x.rules.get pl.entry).enable = en := by
      rw [hv.rules, ruleAfter, if_pos rfl]
      cases en <;> rfl
    simp [ruleUsed, hnew, show ¬ (c.rules.get pl.entry).enable = true from hfree]
  · simp [ruleUsed, hv.rule_of_ne hy, hy]

theorem AddView.entry_live : liveAt x pl.entry ↔ en ∧ clnt.protocol ≠ invalidProtoFieldCmp := by
  unfold liveAt
  rw [hv.rules, ruleAfter, if_pos rfl]
  cases en with
  | true =>
    have hbit : Nat.testBit flagEnableBitMask 15 = true := by decide
    simp [IpaNatRule.live, IpaNatRule.setFlags, newRule, swRuleOf, hbit]
  | false => simp [IpaNatRule.live, newRule, swRuleOf]

theorem AddView.live_iff (hfree : ¬ ruleUsed c pl.entry) (hproto : clnt.protocol ≠ invalidProtoFieldCmp) :
    liveAt x y ↔ liveAt c y ∨ y = pl.entry ∧ en = true := by
  rcases eq_or_ne y pl.entry with rfl | hy
  · have hold : ¬ liveAt c pl.entry := fun hl => hfree (liveAt_used hl)
    simp [hv.entry_live, hold, hproto]
  · simp [liveAt, hv.rule_of_ne hy, hy]

theorem AddView.entry_clnt : (x.rules.get pl.entry).clnt = clnt := by
  rw [hv.rules, ruleAfter, if_pos rfl]
  cases en <;> rfl

theorem AddView.entry_next : ruleNext x pl.entry = 0 := by
  unfold ruleNext
  rw [hv.rules, ruleAfter, if_pos rfl]
  cases en <;> rfl

theorem AddView.entry_prev : rulePrev x pl.entry = pl.prev := by
  unfold rulePrev
  rw [hv.rules, ruleAfter, if_pos rfl]
  cases en <;> rfl

theorem AddView.entry_indx : indxOf x pl.entry = pl.indx := by
  unfold indxOf
  rw [hv.rules, ruleAfter, if_pos rfl]
  cases en <;> rfl

end

theorem AddView.prev_next (hv : AddView c clnt pl true ix ilk en x) (hp : pl.prev ≠ 0)
    (hpe : pl.prev ≠ pl.entry) : ruleNext x pl.prev = pl.entry := by
  unfold ruleNext
  rw [hv.rules, ruleAfter, if_neg hpe, if_pos ⟨rfl, hp, rfl⟩]
  rfl

theorem AddView.indx_new (hv : AddView c clnt pl lk true ilk en x) : x.indx.get pl.indx = ⟨pl.entry, 0⟩ := by
  rw [hv.indx, indxAfter, if_pos ⟨rfl, rfl⟩]

theorem AddView.indxPrev_next (hv : AddView c clnt pl lk ix true en x) (hq : pl.indxPrev ≠ 0)
    (hqi : pl.indxPrev ≠ pl.indx) : indxNext x pl.indxPrev = pl.indx := by
  unfold indxNext
  rw [hv.indx, indxAfter, if_neg fun hand => hqi hand.1, if_pos ⟨rfl, hq, rfl⟩]
  rfl

/-- The back link of an occupied index entry does not change: slot 0 of the
expansion table is never given away, and the new slot was free. -/
theorem AddView.indxPrev_of_used (hv : AddView c clnt pl lk ix ilk en x) (h : TblInv c D X)
    (hpl : pl.Ok c D X clnt) (hy : indxUsed c y) : indxPrev x y = indxPrev c y := by
  unfold indxPrev
  rw [hv.metas, hv.geom.table]
  unfold setIndxPrev
  by_cases hT : c.tableEntries ≤ pl.indx
  · have hne : y - c.tableEntries ≠ pl.indx - c.tableEntries := by
      have hrange := h.idx.used_range hy
      have hyi : y ≠ pl.indx := by
        rintro rfl
        exact hpl.idx.free hy
      rcases hpl.idx with ⟨-, _, -, _, -⟩ | ⟨-, -, _, -, -⟩
      · omega
      · omega
    simp [hT, hne]
  · simp [hT]

theorem AddView.indxPrev_new (hv : AddView c clnt pl lk ix ilk en x)
    (hpl : pl.Ok c D X clnt) (hq : pl.indxPrev ≠ 0) : indxPrev x pl.indx = pl.indxPrev := by
  have hT : c.tableEntries ≤ pl.indx := by
    rcases hpl.idx with ⟨h0, -⟩ | ⟨-, -, hTi, -, -⟩
    · exact absurd h0 hq
    · exact Nat.le_of_lt hTi
  unfold indxPrev
  rw [hv.metas, hv.geom.table]
  simp [setIndxPrev, hT]

theorem AddView.indxUsed_iff (hv : AddView c clnt pl lk true ilk en x) (he : pl.entry ≠ 0) :
    indxUsed x y ↔ indxUsed c y ∨ y = pl.indx := by
  rcases eq_or_ne y pl.indx with rfl | hy
  · simp [indxUsed, entryOf, hv.indx_new, he]
  · simp [indxUsed, hv.entryOf_of_ne hy, hy]

/-! ### The invariant -/

variable (hv : AddView c clnt pl lk true ilk true x) (h : TblInv c D X)
variable (hpl : pl.Ok c D X clnt) (hproto : clnt.protocol ≠ invalidProtoFieldCmp)
variable (hlk : pl.prev ≠ 0 → lk = true) (hilk : pl.indxPrev ≠ 0 → ilk = true)

include hv h hpl in
theorem AddView.dst_chained (hlk : pl.prev ≠ 0 → lk) :
    Chained x.tableEntries x.totalEntries (ruleNext x) (rulePrev x) (ruleUsed x)
      (update D (c.dstBucket clnt) (D (c.dstBucket clnt) ++ [pl.entry])) := by
  have hfree := hpl.dst.free
  have hne : ∀ y, ruleUsed c y → y ≠ pl.entry := by
    rintro y hy rfl
    exact hfree hy
  rw [hv.geom.table, hv.geom.total]
  refine h.dst.insert hpl.dst hv.entry_next (fun hp => ?_) (fun _ => hv.entry_prev)
    (fun y hy hyp => hv.ruleNext_of_ne (hne y hy) fun heq => absurd heq hyp)
    (fun y hy => ?_) (fun y => by simp [hv.used_iff hfree])
  · cases hlk hp
    exact hv.prev_next hp (hpl.dst.prev_used h.dst hp).2
  · simp [rulePrev, hv.rule_of_ne (hne y hy)]

include hv h hpl in
theorem AddView.idx_chained (hilk : pl.indxPrev ≠ 0 → ilk) :
    Chained x.tableEntries x.totalEntries (indxNext x) (indxPrev x) (indxUsed x)
      (update X (c.srcBucket clnt) (X (c.srcBucket clnt) ++ [pl.indx])) := by
  have hfree := hpl.idx.free
  have hne : ∀ y, indxUsed c y → y ≠ pl.indx := by
    rintro y hy rfl
    exact hfree hy
  rw [hv.geom.table, hv.geom.total]
  refine h.idx.insert hpl.idx ?_ (fun hq => ?_) (fun hq => hv.indxPrev_new hpl hq)
    (fun y hy hyq => hv.indxNext_of_ne (fun heq => absurd heq (hne y hy)) fun heq => absurd heq hyq)
    (fun y hy => hv.indxPrev_of_used h hpl hy)
    (fun y => hv.indxUsed_iff hpl.dst.pos)
  · simp [indxNext, hv.indx_new]
  · cases hilk hq
    exact hv.indxPrev_next hq (hpl.idx.prev_used h.idx hq).2

include hv h hpl hproto hlk hilk in
/-- **With all links made the tables are well formed again.** -/
theorem AddView.tbl : TblInv x
    (update D (c.dstBucket clnt) (D (c.dstBucket clnt) ++ [pl.entry]))
    (update X (c.srcBucket clnt) (X (c.srcBucket clnt) ++ [pl.indx])) := by
  have hfree := hpl.dst.free
  have hifree := hpl.idx.free
  have hlive : ∀ y, liveAt x y ↔ liveAt c y ∨ y = pl.entry := fun y => by
    simp [hv.live_iff hfree hproto]
  have hnew : ¬ liveAt c pl.entry := fun hl => hfree (liveAt_used hl)
  refine ⟨hv.dst_chained h hpl hlk, hv.idx_chained h hpl hilk, ?_, ?_, ?_, ?_, ?_, ?_⟩
  · refine h.pair.insert hpl.dst.pos (by simpa [indxUsed] using hifree) hv.entry_indx
      (fun y _ hye => by simp [indxOf, hv.rule_of_ne hye]) ?_
      (fun j hj => hv.entryOf_of_ne hj) hlive hnew
    simp [entryOf, hv.indx_new]
  · intro y hy
    simp only [hv.used_iff hfree, and_true, not_or] at hy
    -- the predecessor is occupied, so this entry is not linked
    have hyp : y = pl.prev → y = 0 ∨ lk = false := by
      intro heq
      by_cases hp : pl.prev = 0
      · exact .inl (heq.trans hp)
      · exact absurd (heq ▸ (hpl.dst.prev_used h.dst hp).1) hy.1
    have hnext := hv.ruleNext_of_ne hy.2 hyp
    have hrule := hv.rule_of_ne hy.2
    rw [hnext] at hrule
    exact hrule.trans (h.rule_zero y hy.1)
  · intro y hy
    rw [hv.indxUsed_iff hpl.dst.pos, not_or] at hy
    have hyq : ¬ (y = pl.indxPrev ∧ pl.indxPrev ≠ 0 ∧ ilk = true) := by
      rintro ⟨heq, hq, -⟩
      exact hy.1 (heq ▸ (hpl.idx.prev_used h.idx hq).1)
    rw [hv.indx, indxAfter, if_neg (fun hand => hy.2 hand.1), if_neg hyq]
    exact h.indx_zero y hy.1
  · intro y hu hnl
    rw [hlive, not_or] at hnl
    rw [hv.geom.table]
    exact h.dead_head y (((hv.used_iff hfree).mp hu).resolve_right fun hand => hnl.2 hand.1)
      hnl.1
  · intro b y hy hl
    rw [hv.geom.dstBucket]
    rcases eq_or_ne y pl.entry with rfl | hye
    · rw [hv.entry_clnt]
      by_contra hb
      rw [update_of_ne (Ne.symm hb)] at hy
      exact hfree ((h.dst.used_iff _).mpr ⟨b, hy⟩)
    rw [hv.rule_of_ne hye, IpaNatRule.clnt_setNext]
    refine h.dst_own b y ?_ (((hlive y).mp hl).resolve_right hye)
    by_cases hb : b = c.dstBucket clnt
    · subst hb
      simpa [hye] using hy
    · rwa [update_of_ne hb] at hy
  intro b i hi
  rw [hv.geom.srcBucket]
  rcases eq_or_ne i pl.indx with rfl | hii
  · have hent : entryOf x pl.indx = pl.entry := by simp [entryOf, hv.indx_new]
    rw [hent, hv.entry_clnt]
    by_contra hb
    rw [update_of_ne (Ne.symm hb)] at hi
    exact hifree ((h.idx.used_iff _).mpr ⟨b, hi⟩)
  have hi' : i ∈ X b := by
    by_cases hb : b = c.srcBucket clnt
    · subst hb
      simpa [hii] using hi
    · rwa [update_of_ne hb] at hi
  have hne : entryOf c i ≠ pl.entry := by
    intro heq
    have hu := (h.idx.used_iff i).mpr ⟨b, hi'⟩
    exact hnew (heq ▸ (h.pair.bwd i hu).1)
  rw [hv.entryOf_of_ne hii, hv.rule_of_ne hne, IpaNatRule.clnt_setNext]
  exact h.idx_own b i hi'

include hv hpl hproto hlk in
theorem AddView.noDead (hd : NoDeadHead c) : NoDeadHead x := by
  intro y hu hnl
  have hfree := hpl.dst.free
  rw [hv.live_iff hfree hproto, not_or] at hnl
  have hye : y ≠ pl.entry := fun heq => hnl.2 ⟨heq, rfl⟩
  have huy := ((hv.used_iff hfree).mp hu).resolve_right fun hand => hye hand.1
  by_cases hyp : y = pl.prev
  · by_cases hp : pl.prev = 0
    · rw [hv.ruleNext_of_ne hye fun _ => Or.inl (hyp.trans hp)]
      exact hd y huy hnl.1
    · cases hlk hp
      rw [hyp, hv.prev_next hp (hyp ▸ hye)]
      exact hpl.dst.pos
  · rw [hv.ruleNext_of_ne hye fun heq => absurd heq hyp]
    exact hd y huy hnl.1

end

/-! ### Handles -/

variable {c : IpaNatIp4TableCache} {D X : ℕ → List ℕ}

theorem Handles.insert {x : IpaNatIp4TableCache} {k e : ℕ} (h : Handles c) (ht : TblInv c D X) (hs : Shaped c)
    (hT : x.tableEntries = c.tableEntries) (hN : x.totalEntries = c.totalEntries)
    (hk : k + 1 < c.totalEntries) (hk0 : c.ruleIdArray.get k = 0) (he : e < c.totalEntries) (hnew : ¬ liveAt c e)
    (hids : x.ruleIdArray.get = update c.ruleIdArray.get k (ruleIdOf c.tableEntries e))
    (hlive : ∀ y, liveAt x y ↔ liveAt c y ∨ y = e) : Handles x := by
  have hold : ∀ j, j < c.totalEntries → c.ruleIdArray.get j ≠ 0 →
      c.ruleIdArray.get j ≠ ruleIdOf c.tableEntries e := by
    intro j hj hj0 heq
    obtain ⟨e', hl, hid⟩ := h.id_live j hj hj0
    have hee := ruleIdOf_inj hs (ht.used_lt hs (liveAt_used hl)) he (hid.symm.trans heq)
    exact hnew (hee ▸ hl)
  refine ⟨?_, ?_, ?_, ?_⟩
  · intro j hj hj0
    rw [hids] at hj0 ⊢
    rw [hN] at hj
    rw [hT]
    rcases eq_or_ne j k with rfl | hjk
    · exact ⟨e, (hlive e).mpr (.inr rfl), by simp⟩
    · rw [update_of_ne hjk] at hj0 ⊢
      obtain ⟨e', hl, hid⟩ := h.id_live j hj hj0
      exact ⟨e', (hlive e').mpr (.inl hl), hid⟩
  · intro j j' hj hj' hj0 heq
    rw [hids] at hj0 heq
    rw [hN] at hj hj'
    by_cases hjk : j = k
    · by_cases hjk' : j' = k
      · rw [hjk, hjk']
      · rw [hjk, update_self, update_of_ne hjk'] at heq
        rw [hjk, update_self] at hj0
        exact absurd heq.symm (hold j' hj' (heq ▸ hj0))
    rw [update_of_ne hjk] at hj0 heq
    by_cases hjk' : j' = k
    · rw [hjk', update_self] at heq
      exact absurd heq (hold j hj hj0)
    · rw [update_of_ne hjk'] at heq
      exact h.inj j j' hj hj' hj0 heq
  · intro y hy
    rw [hids, hN, hT]
    rcases (hlive y).mp hy with hy | rfl
    · obtain ⟨j, hj, hid⟩ := h.live_id y hy
      have hjk : j ≠ k := by
        rintro rfl
        rw [hk0] at hid
        exact ruleIdOf_ne_zero hs (ht.used_lt hs (liveAt_used hy)) (ht.pair.pos y hy) hid.symm
      exact ⟨j, hj, by rw [update_of_ne hjk, hid]⟩
    · exact ⟨k, by omega, by simp⟩
  intro j hj hj0
  rw [hids] at hj0
  rw [hN] at hj ⊢
  by_cases hjk : j = k
  · rw [hjk]
    exact hk
  · rw [update_of_ne hjk] at hj0
    exact h.lt j hj hj0

theorem TblInv.setRuleId (h : TblInv c D X) (k v : ℕ) : TblInv (setRuleId c k v) D X :=
  ⟨h.dst, h.idx, h.pair, h.rule_zero, h.indx_zero, h.dead_head, h.dst_own, h.idx_own⟩

theorem Shaped.setRuleId (h : Shaped c) (k v : ℕ) : Shaped (setRuleId c k v) :=
  ⟨h.rules, h.indx, h.metas, h.ids, h.base_ge, h.base_le, h.expn_ge, h.expn_le, h.offset⟩

/-- **A successful call restores the invariant**, with the new entries at the
end of their chains. -/
theorem AddView.inv {c x : IpaNatIp4TableCache} {D X : ℕ → List ℕ} {clnt : IpaNatIpv4Rule}
    {pl : Place} {lk ilk : Bool} {k : ℕ} (hv : AddView c clnt pl lk true ilk true x)
    (h : NatInv c D X) (hpl : pl.Ok c D X clnt) (hproto : clnt.protocol ≠ invalidProtoFieldCmp)
    (hlk : pl.prev ≠ 0 → lk) (hilk : pl.indxPrev ≠ 0 → ilk)
    (hk : k + 1 < c.totalEntries) (hk0 : c.ruleIdArray.get k = 0) :
    NatInv (setRuleId x k (ruleIdOf c.tableEntries pl.entry))
      (update D (c.dstBucket clnt) (D (c.dstBucket clnt) ++ [pl.entry]))
      (update X (c.srcBucket clnt) (X (c.srcBucket clnt) ++ [pl.indx])) where
  valid := hv.geom.valid.trans h.valid
  shaped := hv.shaped.setRuleId _ _
  tbl := (hv.tbl h.tbl hpl hproto hlk hilk).setRuleId _ _
  noDead := hv.noDead hpl hproto hlk h.noDead
  hdl := by
    have hfree := hpl.dst.free
    refine h.hdl.insert h.tbl h.shaped hv.geom.table hv.geom.total hk hk0
      (hpl.dst.lt h.shaped.le_total) (fun hl => hfree (liveAt_used hl)) ?_ fun y => ?_
    · simp [setRuleId, hv.geom.ids]
    · exact (hv.live_iff hfree hproto).trans (by simp)

end G4Common.IpaNat

/-
What `ipa_nati_add_ipv4_rule()` does to a table that satisfies the invariant.

First the searches: `placeEntry_spec` says that on a chained table the search
ends, touches only entries of its tables, and finds a slot exactly when there
is one.  Then the writes, as the list of the states they produce
(`addStates`).
-/
import G4Common.IpaNat.Inv

namespace G4Common.IpaNat

open Option

/-! ### The searches -/

section

variable {T E : ℕ} {nxt prev : ℕ → ℕ} {used : ℕ → Prop} {occ : ℕ → Bool}
variable {D : ℕ → List ℕ}

theorem lastEntry_spec (next : ℕ → Option ℕ) (fuel : ℕ) {e : ℕ} {l : List ℕ}
    (hN : T + E ≤ 65536) (hnext : ∀ i, i < E → next i = some (nxt (T + i)))
    (hs : Seg nxt e l 0) (he : e ≠ 0) (hlen : l.length ≤ fuel) (hrange : ∀ x ∈ l, T < x ∧ x < T + E) :
    ∃ p, lastEntry next T fuel e = some (some p) ∧ p ∈ l ∧ nxt p = 0 := by
  induction fuel generalizing e l with
  | zero =>
    have hmem := hs.head_mem he
    rw [List.length_eq_zero_iff.mp (Nat.le_zero.mp hlen)] at hmem
    simp at hmem
  | succ fuel ih =>
    cases l with
    | nil => exact absurd hs he
    | cons x l =>
      have hnd := hs.nodup
      obtain ⟨rfl, -, hrest⟩ := hs
      obtain ⟨_, _⟩ := hrange e (by simp)
      have hread : next (sub16 e T) = some (nxt e) := by
        rw [sub16_of_le (by omega) (by omega), hnext _ (by omega)]
        congr 2
        omega
      have hne : e ≠ nxt e := by
        intro heq
        cases l with
        | nil => exact he (heq.trans hrest)
        | cons =>
          have := hrest.1
          simp [← this, ← heq] at hnd
      by_cases hz : nxt e = 0
      · refine ⟨e, ?_, by simp, hz⟩
        simp [lastEntry, hread, hz, invalidNatEntry, he]
      obtain ⟨p, hp, hpl, hp0⟩ := ih hrest hz (by simpa using hlen) fun y hy => hrange y (by simp [hy])
      refine ⟨p, ?_, by simp [hpl], hp0⟩
      simp [lastEntry, hread, hne, hz, invalidNatEntry, hp]

/-- The search for a free slot fails exactly when all slots but slot 0 are
occupied. -/
theorem freeEntry_spec (occupied : ℕ → Option Bool) (occ : ℕ → Bool)
    (hocc : ∀ i, i < E → occupied i = some (occ (T + i))) :
    (freeEntry occupied E = some 0 ∧ ∀ i, 0 < i → i < E → occ (T + i)) ∨
    ∃ s, freeEntry occupied E = some s ∧ 0 < s ∧ s < E ∧ occ (T + s) = false := by
  have htest : ∀ i, 1 ≤ i → i < 1 + (E - 1) → (occupied i).map (!·) = some (!occ (T + i)) := by
    intro i h1 h2
    simp [hocc i (by omega)]
  rcases findCell_spec (q := fun i => !occ (T + i)) htest with
    ⟨hnone, hall⟩ | ⟨k, hk, _, _, hqk, -⟩
  · refine .inl ⟨by simp [freeEntry, hnone], fun i hi₀ hi => ?_⟩
    simpa using hall i (by omega) (by omega)
  · exact .inr ⟨k, by simp [freeEntry, hk], by omega, by omega, by simpa using hqk⟩

theorem chainEnd_spec {expn : ℕ → Option (Bool × ℕ)} {b : ℕ}
    (h : Chained T (T + E) nxt prev used D) (hN : T + E < 65536) (hmem : b ∈ D b)
    (hexpn : ∀ i, i < E → expn i = some (occ (T + i), nxt (T + i))) :
    ∃ p, chainEnd expn T E b (nxt b) = some (some p) ∧ p ∈ D b ∧ nxt p = 0 := by
  have hs := h.seg_of_mem hmem
  by_cases hz : nxt b = 0
  · exact ⟨b, by simp [chainEnd, hz, invalidNatEntry], hmem, hz⟩
  -- behind the head the chain lies in the expansion table
  obtain ⟨l, hl⟩ : ∃ l, D b = b :: l := by
    cases hD : D b with
    | nil => simp [hD] at hmem
    | cons _ l =>
      rw [hD] at hs
      exact ⟨l, by rw [hs.1]⟩
  have hnd := hs.nodup
  rw [hl] at hs hnd
  have hsuf : Seg nxt (nxt b) l 0 := hs.2.2
  have hrange : ∀ x ∈ l, T < x ∧ x < T + E := by
    intro x hx
    refine h.tail b x (by simp [hl, hx]) ?_
    rintro rfl
    exact (List.nodup_cons.mp hnd).1 hx
  have hlen := length_le_of_mem_Ioo hsuf.nodup hrange
  obtain ⟨p, hp, hpl, hp0⟩ := lastEntry_spec (fun i => (expn i).map (·.2)) (E + 1)
    (by omega) (fun i hi => by simp [hexpn i hi]) hsuf hz (by omega) hrange
  refine ⟨p, ?_, by simp [hl, hpl], hp0⟩
  simp [chainEnd, hz, invalidNatEntry, hp]

/-- Bucket `b` is occupied and the expansion table has no free slot. -/
def PlaceFull (T E : ℕ) (used : ℕ → Prop) (b : ℕ) : Prop :=
  used b ∧ ∀ i, 0 < i → i < E → used (T + i)

/-- **The search for an entry** finds a slot unless the table is full for this
bucket.  The slot is never its own predecessor. -/
theorem placeEntry_spec (base expn : ℕ → Option (Bool × ℕ)) (occ : ℕ → Bool) {b : ℕ}
    (h : Chained T (T + E) nxt prev used D) (hN : T + E < 65536)
    (hb0 : 0 < b) (hbT : b < T) (hocc : ∀ x, occ x ↔ used x) (hbase : ∀ i, i < T → base i = some (occ i, nxt i))
    (hexpn : ∀ i, i < E → expn i = some (occ (T + i), nxt (T + i))) :
    ∃ e p, placeEntry base expn (freeEntry (fun cnt => (expn cnt).map (·.1)) E) T E b
        = some (e, p) ∧
      (PlaceFull T E used b ∧ e = 0 ∨
        ¬ PlaceFull T E used b ∧ Chained.Slot T (T + E) nxt used D b e p) ∧ p ≠ e := by
  have hread := hbase b hbT
  by_cases hub : used b
  · have hoccb : occ b = true := (hocc b).mpr hub
    obtain ⟨p, hend, hp, hp0⟩ := chainEnd_spec h hN (h.mem_own hub hbT) hexpn
    have hpused : used p := (h.used_iff p).mpr ⟨b, hp⟩
    have hfree := freeEntry_spec (T := T) (E := E) (fun cnt => (expn cnt).map (·.1)) occ
      fun i hi => by simp [hexpn i hi]
    rcases hfree with ⟨hfree, hall⟩ | ⟨s, hfree, hs0, hsE, hocc_s⟩
    · refine ⟨0, p, ?_, Or.inl ⟨⟨hub, fun i h1 h2 => (hocc _).mp (hall i h1 h2)⟩, rfl⟩, h.ne_zero hp⟩
      simp [placeEntry, hread, hoccb, hend, hfree, invalidNatEntry]
    have hsfree : ¬ used (T + s) := by
      rw [← hocc]
      simp [hocc_s]
    have hs_ne : ¬ s = 0 := by omega
    have hu : u16 (s + T) = T + s := by
      rw [Nat.add_comm]
      exact u16_of_lt (by omega)
    have hne : p ≠ T + s := by
      rintro rfl
      exact hsfree hpused
    refine ⟨T + s, p, ?_, Or.inr ⟨fun hfull => hsfree (hfull.2 s hs0 hsE), Or.inr
      ⟨hp, hp0, by omega, by omega, hsfree⟩⟩, hne⟩
    simp [placeEntry, hread, hoccb, hend, hfree, invalidNatEntry, hs_ne, hu]
  refine ⟨b, 0, ?_, Or.inr ⟨fun hfull => hub hfull.1, Or.inl ⟨rfl, rfl, hb0, hbT, hub⟩⟩, hb0.ne⟩
  have hoccb : occ b = false := by
    rw [← Bool.not_eq_true, hocc]
    exact hub
  simp [placeEntry, hread, hoccb]

end

/-! ### Generating a rule -/

/-- The rule tables have no room for this rule. -/
def DstFull (c : IpaNatIp4TableCache) (clnt : IpaNatIpv4Rule) : Prop :=
  PlaceFull c.tableEntries c.expnTableEntries (ruleUsed c) (c.dstBucket clnt)

/-- The index tables have no room for this rule. -/
def IdxFull (c : IpaNatIp4TableCache) (clnt : IpaNatIpv4Rule) : Prop :=
  PlaceFull c.tableEntries c.expnTableEntries (indxUsed c) (c.srcBucket clnt)

/-- The entries a new rule is given: its rule entry, the entry before it, its
index entry and the entry before that one. -/
structure Place where
  entry : ℕ
  prev : ℕ
  indx : ℕ
  indxPrev : ℕ

/-- Both entries are free slots of the rule's own buckets. -/
structure Place.Ok (c : IpaNatIp4TableCache) (D X : ℕ → List ℕ) (clnt : IpaNatIpv4Rule)
    (pl : Place) : Prop where
  dst : Chained.Slot c.tableEntries c.totalEntries (ruleNext c) (ruleUsed c) D
    (c.dstBucket clnt) pl.entry pl.prev
  idx : Chained.Slot c.tableEntries c.totalEntries (indxNext c) (indxUsed c) X
    (c.srcBucket clnt) pl.indx pl.indxPrev

section

variable {c : IpaNatIp4TableCache} {D X : ℕ → List ℕ}

theorem ipaNatiGenerateTblRule_spec (hs : Shaped c) (h : TblInv c D X) (clnt : IpaNatIpv4Rule) :
    ∃ e p, ipaNatiGenerateTblRule clnt c
        = some (e, { swRuleOf c.publicAddr clnt with prevIndex := p }) ∧
      (DstFull c clnt ∧ e = 0 ∨ ¬ DstFull c clnt ∧
        Chained.Slot c.tableEntries c.totalEntries (ruleNext c) (ruleUsed c) D
          (c.dstBucket clnt) e p) := by
  have hb := hs.dstBucket_range clnt
  obtain ⟨e, p, hplace, hcase, -⟩ := placeEntry_spec
    (fun i => (c.readRule .base i).map fun r => (r.enable, r.nextIndex))
    (fun i => (c.readRule .expn i).map fun r => (r.enable, r.nextIndex))
    (fun x => (c.rules.get x).enable)
    h.dst (lt_of_le_of_lt hs.total_le (by omega)) hb.1 hb.2 (fun _ => Iff.rfl)
    (fun i hi => by simp [readRule_base hs hi, ruleNext])
    (fun i hi => by simp [readRule_expn hs hi, ruleNext])
  refine ⟨e, p, ?_, hcase⟩
  simp only [map_map, Function.comp_def] at hplace
  simp [ipaNatiGenerateTblRule, ipaNatiExpnTblFreeEntry, hplace]

/-- The new index entry and its predecessor, before the check that they differ. -/
def indexPlace (c : IpaNatIp4TableCache) (clnt : IpaNatIpv4Rule) : Option (ℕ × ℕ) :=
  placeEntry
    (fun i => (c.readIndx .indx i).map fun r => (r.tblEntry != invalidNatEntry, r.nextIndex))
    (fun i => (c.readIndx .indexExpn i).map fun r => (r.tblEntry != invalidNatEntry, r.nextIndex))
    (ipaNatiIndexExpnGetFreeEntry c) c.tableEntries c.expnTableEntries (c.srcBucket clnt)

theorem indexPlace_spec (hs : Shaped c) (h : TblInv c D X) (clnt : IpaNatIpv4Rule) :
    ∃ i q, indexPlace c clnt = some (i, q) ∧
      (IdxFull c clnt ∧ i = 0 ∨ ¬ IdxFull c clnt ∧
        Chained.Slot c.tableEntries c.totalEntries (indxNext c) (indxUsed c) X
          (c.srcBucket clnt) i q) ∧ q ≠ i := by
  have hb := hs.srcBucket_range clnt
  obtain ⟨i, q, hplace, hcase, hne⟩ := placeEntry_spec
    (fun i => (c.readIndx .indx i).map fun r => (r.tblEntry != invalidNatEntry, r.nextIndex))
    (fun i => (c.readIndx .indexExpn i).map fun r => (r.tblEntry != invalidNatEntry, r.nextIndex))
    (fun x => (c.indx.get x).tblEntry != invalidNatEntry)
    h.idx (lt_of_le_of_lt hs.total_le (by omega)) hb.1 hb.2
    (fun _ => by simp [indxUsed, entryOf, invalidNatEntry])
    (fun i hi => by simp [readIndx_base hs hi, indxNext])
    (fun i hi => by simp [readIndx_expn hs hi, indxNext])
  refine ⟨i, q, ?_, hcase, hne⟩
  simp only [map_map, Function.comp_def] at hplace
  simp only [indexPlace, ipaNatiIndexExpnGetFreeEntry, hplace]

theorem ipaNatiGenerateIndexRule_spec (hs : Shaped c) (h : TblInv c D X) (clnt : IpaNatIpv4Rule) :
    ∃ i q, ipaNatiGenerateIndexRule clnt c = some (i, q) ∧
      (IdxFull c clnt ∧ i = 0 ∨ ¬ IdxFull c clnt ∧
        Chained.Slot c.tableEntries c.totalEntries (indxNext c) (indxUsed c) X
          (c.srcBucket clnt) i q) := by
  obtain ⟨i, q, hplace, hcase, hne⟩ := indexPlace_spec hs h clnt
  unfold indexPlace at hplace
  refine ⟨i, q, ?_, hcase⟩
  -- the final check of the source never fires
  simp [ipaNatiGenerateIndexRule, hplace, hne]

/-- Store the back link of index entry `i` if it is in the expansion table. -/
def setIndxPrev (c : IpaNatIp4TableCache) (i q : ℕ) : IpaNatIp4TableCache :=
  { c with indexExpnTableMeta :=
      if c.tableEntries ≤ i then c.indexExpnTableMeta.set (i - c.tableEntries) q
      else c.indexExpnTableMeta }

/-- The rule as it is copied to the table, disabled. -/
def newRule (c : IpaNatIp4TableCache) (clnt : IpaNatIpv4Rule) (pl : Place) : IpaNatRule :=
  { swRuleOf c.publicAddr clnt with prevIndex := pl.prev, indxTblEntry := pl.indx }

/-- **Generating a rule** fails, without any change, exactly when one of the
tables is full for it. -/
theorem ipaNatiGenerateRule_spec (hs : Shaped c) (h : TblInv c D X) (clnt : IpaNatIpv4Rule) :
    (DstFull c clnt ∨ IdxFull c clnt) ∧ ipaNatiGenerateRule c clnt = some none ∨
    ¬ (DstFull c clnt ∨ IdxFull c clnt) ∧ ∃ pl, Place.Ok c D X clnt pl ∧
      ipaNatiGenerateRule c clnt = some (some
        (⟨newRule c clnt pl, ⟨pl.entry, 0, pl.indxPrev⟩, pl.entry, pl.indx⟩,
          setIndxPrev c pl.indx pl.indxPrev)) := by
  obtain ⟨e, p, hdst, hcase⟩ := ipaNatiGenerateTblRule_spec hs h clnt
  obtain ⟨i, q, hidx, hcase'⟩ := ipaNatiGenerateIndexRule_spec hs h clnt
  rcases hcase with ⟨hfull, rfl⟩ | ⟨_, hslot⟩
  · exact .inl ⟨Or.inl hfull, by simp [ipaNatiGenerateRule, hdst, invalidNatEntry]⟩
  have he0 := hslot.pos
  rcases hcase' with ⟨hfull, rfl⟩ | ⟨_, hslot'⟩
  · exact .inl ⟨Or.inr hfull, by
      simp [ipaNatiGenerateRule, hdst, hidx, invalidNatEntry]⟩
  have hi0 := hslot'.pos
  refine .inr ⟨by tauto, ⟨e, p, i, q⟩, ⟨hslot, hslot'⟩, ?_⟩
  by_cases hT : c.tableEntries ≤ i
  · have hlt := hslot'.lt hs.le_total
    have hw : i - c.tableEntries < c.indexExpnTableMeta.size := by
      rw [hs.metas]
      unfold IpaNatIp4TableCache.totalEntries at hlt
      omega
    simp [ipaNatiGenerateRule, hdst, hidx, invalidNatEntry, he0, hi0, hT, newRule,
      setIndxPrev, IpaNatIp4TableCache.writeMeta, CArray.write_of_lt hw]
  · simp [ipaNatiGenerateRule, hdst, hidx, invalidNatEntry, he0, hi0, hT, newRule, setIndxPrev]

end

/-! ### The writes -/

/-- The next index of entry `p` is set to `e`, if there is an entry `p` and the
ioctl succeeds. -/
def linkRule (ok : Bool) (c : IpaNatIp4TableCache) (p e : ℕ) : IpaNatIp4TableCache :=
  { c with rules :=
      if p ≠ 0 ∧ ok = true then c.rules.set p ((c.rules.get p).setNext e)
      else c.rules }

/-- The same in the index tables. -/
def linkIndx (ok : Bool) (c : IpaNatIp4TableCache) (q i : ℕ) : IpaNatIp4TableCache :=
  { c with indx :=
      if q ≠ 0 ∧ ok = true then c.indx.set q ((c.indx.get q).setNext i)
      else c.indx }

/-- The flags of entry `e` are set to enabled, if the ioctl succeeds. -/
def enableRule (ok : Bool) (c : IpaNatIp4TableCache) (e : ℕ) : IpaNatIp4TableCache :=
  { c with rules :=
      if ok = true then c.rules.set e ((c.rules.get e).setFlags flagEnableBitMask)
      else c.rules }

section

variable {c : IpaNatIp4TableCache} {s : NatHw} {e p i q : ℕ}

theorem Shaped.setIndxPrev (h : Shaped c) : Shaped (setIndxPrev c i q) := by
  refine ⟨h.rules, h.indx, ?_, h.ids, h.base_ge, h.base_le, h.expn_ge, h.expn_le, h.offset⟩
  unfold IpaNat.setIndxPrev
  split <;> exact h.metas

theorem Shaped.linkRule {ok : Bool} (h : Shaped c) : Shaped (linkRule ok c p e) := by
  refine ⟨?_, h.indx, h.metas, h.ids, h.base_ge, h.base_le, h.expn_ge, h.expn_le, h.offset⟩
  unfold IpaNat.linkRule
  split <;> exact h.rules

theorem Shaped.linkIndx {ok : Bool} (h : Shaped c) : Shaped (linkIndx ok c q i) := by
  refine ⟨h.rules, ?_, h.metas, h.ids, h.base_ge, h.base_le, h.expn_ge, h.expn_le, h.offset⟩
  unfold IpaNat.linkIndx
  split <;> exact h.indx

theorem Shaped.enableRule {ok : Bool} (h : Shaped c) : Shaped (enableRule ok c e) := by
  refine ⟨?_, h.indx, h.metas, h.ids, h.base_ge, h.base_le, h.expn_ge, h.expn_le, h.offset⟩
  unfold IpaNat.enableRule
  split <;> exact h.rules

theorem linkRule_true (hp : p ≠ 0) : linkRule true c p e = c.setRule p ((c.rules.get p).setNext e) := by
  simp [linkRule, IpaNatIp4TableCache.setRule, hp]

theorem linkIndx_true (hq : q ≠ 0) : linkIndx true c q i = c.setIndx q ((c.indx.get q).setNext i) := by
  simp [linkIndx, IpaNatIp4TableCache.setIndx, hq]

theorem ipaNatiCopyIpv4RuleToHw_eq (ok : Bool) (r : IpaNatRule) (hs : Shaped s.cache)
    (he : e < s.cache.totalEntries) (hp : r.prevIndex < s.cache.totalEntries) :
    ∃ tr, ipaNatiCopyIpv4RuleToHw ok s r e
        = some ⟨linkRule ok (s.cache.setRule e r) r.prevIndex e, s.seen ++ tr⟩ ∧
      ∀ x ∈ tr, x = s.cache.setRule e r ∨
        x = linkRule ok (s.cache.setRule e r) r.prevIndex e := by
  have hw := writeRule_tblOf hs he r
  have hs' := hs.setRule (e := e) r
  by_cases hp0 : r.prevIndex = 0
  · refine ⟨[s.cache.setRule e r], ?_, by simp⟩
    simp [ipaNatiCopyIpv4RuleToHw, hw, hp0, invalidNatEntry, linkRule, NatHw.step]
  cases ok with
  | false =>
    refine ⟨[s.cache.setRule e r], ?_, by simp⟩
    simp [ipaNatiCopyIpv4RuleToHw, hw, hp0, invalidNatEntry, linkRule, NatHw.step,
      ipaNatiWriteNextIndex, ioctlNatDma]
  | true =>
    have hu : u16 e = e := u16_of_lt (lt_of_lt_of_le he (by have := hs.total_le; omega))
    have hdma := natDmaOne_rule ruleNextFieldOffset e hs' hp (by decide) (if_pos rfl)
    refine ⟨[s.cache.setRule e r, linkRule true (s.cache.setRule e r) r.prevIndex e], ?_, by simp⟩
    simp [ipaNatiCopyIpv4RuleToHw, hw, hp0, invalidNatEntry, linkRule_true hp0, NatHw.step,
      ipaNatiWriteNextIndex, ioctlNatDma, natDma, hdma, hu]

theorem ipaNatiCopyIpv4IndexRuleToHw_eq (ok : Bool) (r : IpaNatIndxTblSwRule)
    (hs : Shaped s.cache) (hi : i < s.cache.totalEntries) (hq : r.prevIndex < s.cache.totalEntries) :
    ∃ tr, ipaNatiCopyIpv4IndexRuleToHw ok s r i
        = some ⟨linkIndx ok (s.cache.setIndx i ⟨r.tblEntry, r.nextIndex⟩) r.prevIndex i,
            s.seen ++ tr⟩ ∧
      ∀ x ∈ tr, x = s.cache.setIndx i ⟨r.tblEntry, r.nextIndex⟩ ∨
        x = linkIndx ok (s.cache.setIndx i ⟨r.tblEntry, r.nextIndex⟩) r.prevIndex i := by
  have hw := writeIndx_indxTblOf hs hi ⟨r.tblEntry, r.nextIndex⟩
  have hs' := hs.setIndx (e := i) ⟨r.tblEntry, r.nextIndex⟩
  by_cases hq0 : r.prevIndex = 0
  · refine ⟨[s.cache.setIndx i ⟨r.tblEntry, r.nextIndex⟩], ?_, by simp⟩
    simp [ipaNatiCopyIpv4IndexRuleToHw, hw, hq0, invalidNatEntry, linkIndx, NatHw.step]
  cases ok with
  | false =>
    refine ⟨[s.cache.setIndx i ⟨r.tblEntry, r.nextIndex⟩], ?_, by simp⟩
    simp [ipaNatiCopyIpv4IndexRuleToHw, hw, hq0, invalidNatEntry, linkIndx, NatHw.step,
      ipaNatiWriteNextIndex, ioctlNatDma]
  | true =>
    have hle := hs.total_le
    have hu : u16 i = i := u16_of_lt (by omega)
    have hslot : slotOf s.cache r.prevIndex < 16384 := by
      have hbase := hs.base_le
      have hexpn := hs.expn_le
      unfold IpaNatIp4TableCache.totalEntries at hq
      unfold slotOf
      split <;> omega
    -- for these tables the 16-bit offset does not wrap
    have hoff : u16 (u16 (ipaNatiGetIndexEntryOffset s.cache (slotOf s.cache r.prevIndex))
        + indexRuleNextFieldOffset)
        = ipaNatiGetIndexEntryOffset s.cache (slotOf s.cache r.prevIndex)
          + indexRuleNextFieldOffset := by
      have := hs.offset
      unfold ipaNatiGetIndexEntryOffset indexTableEntrySize indexRuleNextFieldOffset u16
      omega
    have hdma := natDmaOne_indx indexRuleNextFieldOffset i hs' hq (by decide)
      (if_neg (by decide) |>.trans (if_pos rfl))
    refine ⟨[s.cache.setIndx i ⟨r.tblEntry, r.nextIndex⟩,
      linkIndx true (s.cache.setIndx i ⟨r.tblEntry, r.nextIndex⟩) r.prevIndex i], ?_, by simp⟩
    have hstep : ipaNatiGetIndexEntryOffset (s.cache.setIndx i ⟨r.tblEntry, r.nextIndex⟩)
        = ipaNatiGetIndexEntryOffset s.cache := rfl
    have hstep' : slotOf (s.cache.setIndx i ⟨r.tblEntry, r.nextIndex⟩) = slotOf s.cache := rfl
    rw [hstep, hstep'] at hdma
    simp [ipaNatiCopyIpv4IndexRuleToHw, hw, hq0, invalidNatEntry, linkIndx_true hq0,
      NatHw.step, ipaNatiWriteNextIndex, ioctlNatDma, natDma, hstep, hstep', hoff, hdma, hu]

theorem ipaNatiPostIpv4DmaCmd_eq (ok : Bool) (hs : Shaped s.cache) (he : e < s.cache.totalEntries) :
    ∃ tr, ipaNatiPostIpv4DmaCmd ok s e = some ⟨enableRule ok s.cache e, s.seen ++ tr⟩ ∧
      ∀ x ∈ tr, x = enableRule ok s.cache e := by
  cases ok with
  | false => exact ⟨[], by simp [ipaNatiPostIpv4DmaCmd, ioctlNatDma, enableRule], by simp⟩
  | true =>
    refine ⟨[enableRule true s.cache e], ?_, by simp⟩
    have hpoke : pokeRule ruleFlagFieldOffset flagEnableBitMask (s.cache.rules.get e)
        = some ((s.cache.rules.get e).setFlags flagEnableBitMask) := rfl
    have hdma := natDmaOne_rule ruleFlagFieldOffset flagEnableBitMask hs he (by decide) hpoke
    have hoff := hs.offset
    by_cases hT : e < s.cache.tableEntries
    · rw [(tblOf_base hT).1, (tblOf_base hT).2] at hdma
      simp only [ipaNatiGetEntryOffset, hoff, Nat.add_zero] at hdma
      simp [ipaNatiPostIpv4DmaCmd, hT, ioctlNatDma, natDma, hdma, enableRule, NatHw.step,
        IpaNatIp4TableCache.setRule]
    have hle : s.cache.tableEntries ≤ e := by omega
    rw [(tblOf_expn hle).1, (tblOf_expn hle).2] at hdma
    simp only [ipaNatiGetEntryOffset, hoff, Nat.add_zero] at hdma
    simp [ipaNatiPostIpv4DmaCmd, hT, ioctlNatDma, natDma, hoff, hdma, enableRule, NatHw.step,
      IpaNatIp4TableCache.setRule]

end

/-! ### The handle -/

def setRuleId (c : IpaNatIp4TableCache) (k v : ℕ) : IpaNatIp4TableCache :=
  { c with ruleIdArray := c.ruleIdArray.set k v }

section

variable {c c' : IpaNatIp4TableCache} {D X : ℕ → List ℕ}

/-- Used handle cells belong to different entries, and two entry numbers are
never used, so the cells before the first free one do not fill the array. -/
theorem Handles.first_free_lt (h : Handles c) (ht : TblInv c D X) (hs : Shaped c) {k : ℕ}
    (hk : k ≤ c.totalEntries) (hbelow : ∀ j, j < k → c.ruleIdArray.get j ≠ 0) : k + 1 < c.totalEntries := by
  have hex : ∀ j, ∃ e, j < k → liveAt c e ∧ c.ruleIdArray.get j = ruleIdOf c.tableEntries e := by
    intro j
    by_cases hj : j < k
    · obtain ⟨e, he⟩ := h.id_live j (by omega) (hbelow j hj)
      exact ⟨e, fun _ => he⟩
    · exact ⟨0, fun hj' => absurd hj' hj⟩
  choose f hf using hex
  have hmaps : Set.MapsTo f (Finset.range k : Set ℕ)
      ((Finset.Ioo 0 c.totalEntries).erase c.tableEntries : Finset ℕ) := by
    intro j hj
    have hlive := (hf j (Finset.mem_range.mp hj)).1
    have hrange := ht.dst.used_range (liveAt_used hlive)
    have hlt := ht.used_lt hs (liveAt_used hlive)
    simp only [Finset.coe_erase, Set.mem_sdiff, Finset.mem_coe, Finset.mem_Ioo, Set.mem_singleton_iff]
    omega
  have hinj : Set.InjOn f (Finset.range k : Set ℕ) := by
    intro j hj j' hj' heq
    have hj := Finset.mem_range.mp hj
    have hj' := Finset.mem_range.mp hj'
    refine h.inj j j' (by omega) (by omega) (hbelow j hj) ?_
    rw [(hf j hj).2, (hf j' hj').2, heq]
  have hcard := Finset.card_le_card_of_injOn f hmaps hinj
  have hmem : c.tableEntries ∈ Finset.Ioo 0 c.totalEntries := by
    have := hs.base_ge
    have := hs.lt_total
    exact Finset.mem_Ioo.mpr ⟨by omega, by omega⟩
  rw [Finset.card_range, Finset.card_erase_of_mem hmem, Nat.card_Ioo] at hcard
  have := hs.lt_total
  have := hs.base_ge
  omega

theorem ipaNatiMakeRuleHdl_eq (h : Handles c) (ht : TblInv c D X) (hs : Shaped c) (e : ℕ) (hg : SameGeom c c') :
    ∃ k, k + 1 < c.totalEntries ∧ c.ruleIdArray.get k = 0 ∧
      ipaNatiMakeRuleHdl c' e = some (k + 1, setRuleId c' k (ruleIdOf c.tableEntries e)) := by
  have hN := hg.total
  have htest : ∀ i, 0 ≤ i → i < 0 + c.totalEntries → (c'.ruleIdArray.read i).map (· == invalidNatEntry)
        = some (c.ruleIdArray.get i == invalidNatEntry) := by
    intro i _ _
    rw [hg.ids, CArray.read_of_lt (by rw [hs.ids]; omega)]
    rfl
  rcases findCell_spec htest with ⟨-, hall⟩ | ⟨k, hk, -, _, hqk, hbelow⟩
  · -- the last cell is never used
    have hpos := hs.lt_total
    have hlast := hall (c.totalEntries - 1) (by omega) (by omega)
    have := h.lt (c.totalEntries - 1) (by omega) (by simpa [invalidNatEntry] using hlast)
    omega
  have hlt := h.first_free_lt ht hs (k := k) (by omega) fun j hj => by
    simpa [invalidNatEntry] using hbelow j (by omega) hj
  refine ⟨k, hlt, by simpa [invalidNatEntry] using hqk, ?_⟩
  have hw : k < c'.ruleIdArray.size := by
    rw [hg.ids, hs.ids]
    omega
  have hu : u16 (k + 1) = k + 1 := u16_of_lt (by have := hs.total_le; omega)
  simp [ipaNatiMakeRuleHdl, hN, hk, IpaNatIp4TableCache.writeRuleId, CArray.write_of_lt hw, setRuleId, hu, hg.table]

end

/-! ### The call -/

section

variable (io : AddIoctls) (c : IpaNatIp4TableCache) (clnt : IpaNatIpv4Rule) (pl : Place)

/-- After the disabled rule is copied. -/
def addCopied : IpaNatIp4TableCache :=
  (setIndxPrev c pl.indx pl.indxPrev).setRule pl.entry (newRule c clnt pl)

/-- After the rule is linked. -/
def addLinked : IpaNatIp4TableCache :=
  linkRule io.ruleNext (addCopied c clnt pl) pl.prev pl.entry

/-- After the index entry is copied. -/
def addIndexed : IpaNatIp4TableCache := (addLinked io c clnt pl).setIndx pl.indx ⟨pl.entry, 0⟩

/-- After the index entry is linked. -/
def addIndexLinked : IpaNatIp4TableCache :=
  linkIndx io.indexNext (addIndexed io c clnt pl) pl.indxPrev pl.indx

/-- After the rule is enabled. -/
def addEnabled : IpaNatIp4TableCache :=
  enableRule io.enable (addIndexLinked io c clnt pl) pl.entry

theorem addLinked_geom : SameGeom c (addLinked io c clnt pl) := by
  have h1 : SameGeom c (setIndxPrev c pl.indx pl.indxPrev) := ⟨rfl, rfl, rfl, rfl, rfl⟩
  exact (h1.setRule pl.entry (newRule c clnt pl)).trans ⟨rfl, rfl, rfl, rfl, rfl⟩

theorem addIndexLinked_geom : SameGeom c (addIndexLinked io c clnt pl) :=
  ((addLinked_geom io c clnt pl).setIndx pl.indx ⟨pl.entry, 0⟩).trans ⟨rfl, rfl, rfl, rfl, rfl⟩

theorem addEnabled_geom : SameGeom c (addEnabled io c clnt pl) :=
  (addIndexLinked_geom io c clnt pl).trans ⟨rfl, rfl, rfl, rfl, rfl⟩

/-- The states the hardware can see while a rule is added. -/
def addStates : List IpaNatIp4TableCache :=
  [addCopied c clnt pl, addLinked io c clnt pl, addIndexed io c clnt pl,
    addIndexLinked io c clnt pl, addEnabled io c clnt pl]

end

section

variable {c : IpaNatIp4TableCache} {D X : ℕ → List ℕ} {clnt : IpaNatIpv4Rule} {pl : Place}

theorem Place.Ok.prev_lt (hpl : pl.Ok c D X clnt) (hs : Shaped c) (h : TblInv c D X) : pl.prev < c.totalEntries := by
  by_cases hp : pl.prev = 0
  · have := hs.lt_total
    omega
  · exact h.used_lt hs (hpl.dst.prev_used h.dst hp).1

theorem Place.Ok.indxPrev_lt (hpl : pl.Ok c D X clnt) (hs : Shaped c) (h : TblInv c D X) :
    pl.indxPrev < c.totalEntries := by
  by_cases hp : pl.indxPrev = 0
  · have := hs.lt_total
    omega
  · exact h.indx_lt hs (hpl.idx.prev_used h.idx hp).1

/-- **Adding a rule**, on tables that satisfy the invariant and with any
outcome of the ioctls: without room nothing changes; otherwise the five writes
are made, and a handle is handed out if the last ioctl succeeds. -/
theorem ipaNatiAddIpv4Rule_eq (h : NatInv c D X) (clnt : IpaNatIpv4Rule) (io : AddIoctls)
    (seen : List IpaNatIp4TableCache) :
    (DstFull c clnt ∨ IdxFull c clnt) ∧ ipaNatiAddIpv4Rule io ⟨c, seen⟩ clnt = some (-eINVAL, none, ⟨c, seen⟩) ∨
    ¬ (DstFull c clnt ∨ IdxFull c clnt) ∧ ∃ pl tr, Place.Ok c D X clnt pl ∧
      (∀ x ∈ tr, x ∈ addStates io c clnt pl) ∧
      if io.enable = true then
        ∃ k, k + 1 < c.totalEntries ∧ c.ruleIdArray.get k = 0 ∧
          ipaNatiAddIpv4Rule io ⟨c, seen⟩ clnt = some (0, some (k + 1),
            ⟨setRuleId (addEnabled io c clnt pl) k (ruleIdOf c.tableEntries pl.entry),
              seen ++ tr⟩)
      else
        ipaNatiAddIpv4Rule io ⟨c, seen⟩ clnt
          = some (-eIo, none, ⟨addEnabled io c clnt pl, seen ++ tr⟩) := by
  have hs := h.shaped
  rcases ipaNatiGenerateRule_spec hs h.tbl clnt with ⟨hfull, hgen⟩ | ⟨hroom, pl, hpl, hgen⟩
  · exact .inl ⟨hfull, by simp [ipaNatiAddIpv4Rule, hgen]⟩
  refine .inr ⟨hroom, pl, ?_⟩
  have he := hpl.dst.lt hs.le_total
  have hi := hpl.idx.lt hs.le_total
  have hq := hpl.indxPrev_lt hs h.tbl
  have he3 : pl.entry < (addIndexLinked io c clnt pl).totalEntries := by
    rwa [(addIndexLinked_geom io c clnt pl).total]
  have hi2 : pl.indx < (addLinked io c clnt pl).totalEntries := by
    rwa [(addLinked_geom io c clnt pl).total]
  have hq2 : pl.indxPrev < (addLinked io c clnt pl).totalEntries := by
    rwa [(addLinked_geom io c clnt pl).total]
  obtain ⟨tr1, hcopy, htr1⟩ := ipaNatiCopyIpv4RuleToHw_eq
    (s := ⟨setIndxPrev c pl.indx pl.indxPrev, seen⟩) io.ruleNext (newRule c clnt pl)
    hs.setIndxPrev he (hpl.prev_lt hs h.tbl)
  obtain ⟨tr2, hindx, htr2⟩ := ipaNatiCopyIpv4IndexRuleToHw_eq
    (s := ⟨addLinked io c clnt pl, seen ++ tr1⟩) io.indexNext ⟨pl.entry, 0, pl.indxPrev⟩
    (hs.setIndxPrev.setRule _).linkRule hi2 hq2
  obtain ⟨tr3, hpost, htr3⟩ := ipaNatiPostIpv4DmaCmd_eq
    (s := ⟨addIndexLinked io c clnt pl, seen ++ tr1 ++ tr2⟩) io.enable
    (((hs.setIndxPrev.setRule _).linkRule).setIndx _).linkIndx
    he3
  refine ⟨tr1 ++ tr2 ++ tr3, hpl, ?_, ?_⟩
  · intro x hx
    simp only [List.mem_append] at hx
    rcases hx with (hx | hx) | hx
    · rcases htr1 x hx with rfl | rfl <;> simp [addStates, addCopied, addLinked, newRule]
    · rcases htr2 x hx with rfl | rfl <;> simp [addStates, addIndexed, addIndexLinked]
    · have hlast : x = addEnabled io c clnt pl := htr3 x hx
      simp [addStates, hlast]
  have hcopy' : ipaNatiCopyIpv4RuleToHw io.ruleNext
      (NatHw.priv ⟨c, seen⟩ (setIndxPrev c pl.indx pl.indxPrev)) (newRule c clnt pl) pl.entry
      = some ⟨addLinked io c clnt pl, seen ++ tr1⟩ := hcopy
  have hindx' : ipaNatiCopyIpv4IndexRuleToHw io.indexNext
      ⟨addLinked io c clnt pl, seen ++ tr1⟩ ⟨pl.entry, 0, pl.indxPrev⟩ pl.indx
      = some ⟨addIndexLinked io c clnt pl, seen ++ tr1 ++ tr2⟩ := hindx
  have hpost' : ipaNatiPostIpv4DmaCmd io.enable ⟨addIndexLinked io c clnt pl, seen ++ tr1 ++ tr2⟩ pl.entry
      = some ⟨addEnabled io c clnt pl, seen ++ tr1 ++ tr2 ++ tr3⟩ := hpost
  have hrun : ipaNatiAddIpv4Rule io ⟨c, seen⟩ clnt = (do
      if !io.enable then
        return (-eIo, none, ⟨addEnabled io c clnt pl, seen ++ tr1 ++ tr2 ++ tr3⟩)
      let r ← ipaNatiMakeRuleHdl (addEnabled io c clnt pl) pl.entry
      if r.1 = 0 then
        return (-eINVAL, some 0, ⟨r.2, seen ++ tr1 ++ tr2 ++ tr3⟩)
      return (0, some r.1, ⟨r.2, seen ++ tr1 ++ tr2 ++ tr3⟩)) := by
    unfold ipaNatiAddIpv4Rule
    simp only [hgen, bind_eq_bind, bind_some, hcopy', hindx', hpost']
    rfl
  rw [hrun]
  cases io.enable with
  | true =>
    obtain ⟨k, hk, hk0, hhdl⟩ := ipaNatiMakeRuleHdl_eq h.hdl h.tbl hs pl.entry (addEnabled_geom io c clnt pl)
    refine (if_pos rfl).mpr ⟨k, hk, hk0, ?_⟩
    simp [hhdl]
  | false => simp

end

end G4Common.IpaNat

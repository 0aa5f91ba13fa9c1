/-
The invariant when a rule has been deleted.

`delDone` is read entry by entry (`delDone_rules`, `delDone_indx`).  Each of the two tables then loses one cell, by
`Chained.unlink` or `Chained.removeHead`, or keeps all of them when the rule
was a head with followers.  The sweep of the dead heads is a loop of
`removeHead` steps (`Swept`).
-/
import G4Common.IpaNat.DelSpec

namespace G4Common.IpaNat

open Function List

/-! ### The entries after the updates -/

section

variable (c : IpaNatIp4TableCache) (e i : ℕ)

/-- The rules without the rule of entry `e`. -/
def ruleDel (y : ℕ) : IpaNatRule :=
  if y = e then
    if e < c.tableEntries ∧ ruleNext c e ≠ 0 then (c.rules.get e).setProto invalidProtoFieldValue
    else default
  else if c.tableEntries ≤ e ∧ y = rulePrev c e then (c.rules.get y).setNext (ruleNext c e)
  else if c.tableEntries ≤ e ∧ ruleNext c e ≠ 0 ∧ y = ruleNext c e then
    (c.rules.get y).updatePrevIndx (rulePrev c e)
  else c.rules.get y

variable {c e i} {D X : ℕ → List ℕ}

theorem delErased_rules (h : TblInv c D X) (he : ruleUsed c e) (y : ℕ) :
    (delErased c e i).rules.get y = ruleDel c e y := by
  have hbase := delUnindexed_rules c i
  by_cases hT : c.tableEntries ≤ e
  · have hnT : ¬ e < c.tableEntries := by omega
    obtain ⟨hpu, hpn⟩ := h.dst.next_prev he hT
    have hpn' : rulePrev c e ≠ ruleNext c e := by
      intro heq
      have he0 := (h.dst.used_range he).1
      refine h.dst.next_next_ne hpu (by omega) ?_
      rw [hpn, ← heq]
    by_cases hn : ruleNext c e = 0
    · simp [delErased, delFreed, delPrevUpd, delUnlinked, delRuleCmd, ruleTarget, ruleChange,
        IpaNatIp4TableCache.setRule, hbase, hT, hnT, hn, ruleDel, update_apply]
      grind
    · simp [delErased, delFreed, delPrevUpd, delUnlinked, delRuleCmd, ruleTarget, ruleChange,
        IpaNatIp4TableCache.setRule, hbase, hT, hnT, hn, ruleDel, update_apply]
      grind
  have hlT : e < c.tableEntries := by omega
  by_cases hn : ruleNext c e = 0
  · simp [delErased, delFreed, delPrevUpd, delUnlinked, delRuleCmd, ruleTarget, ruleChange,
      IpaNatIp4TableCache.setRule, hbase, hT, hn, ruleDel, update_apply]
    grind
  · simp [delErased, delFreed, delPrevUpd, delUnlinked, delRuleCmd, ruleTarget, ruleChange,
      IpaNatIp4TableCache.setRule, hbase, hT, hlT, hn, ruleDel, update_apply]

theorem delDone_rules (h : TblInv c D X) (he : ruleUsed c e) (y : ℕ) : (delDone c e i).rules.get y =
      if MovesUp c i ∧ y = entryOf c (indxNext c i) then (ruleDel c e y).updateIndxTblEntry i
      else ruleDel c e y := by
  have hold : ∀ z, (delIndxErased c e i).rules.get z = ruleDel c e z := delErased_rules h he
  by_cases hm : MovesUp c i
  · by_cases hy : y = entryOf c (indxNext c i)
    · subst hy
      simp [delDone, delMoved, hm, IpaNatIp4TableCache.setRule, hold]
    · simp [delDone, delMoved, hm, IpaNatIp4TableCache.setRule, hold, hy]
  · simp [delDone, delMoved, hm, hold]

theorem delDone_indx (y : ℕ) :
    (delDone c e i).indx.get y =
      if y = indxFreed c i then default
      else if MovesUp c i then (if y = i then c.indx.get (indxNext c i) else c.indx.get y)
      else if c.tableEntries ≤ i ∧ y = indxPrev c i then (c.indx.get y).setNext (indxNext c i)
      else c.indx.get y := by
  have hstep : (delDone c e i).indx.get y =
      if y = indxFreed c i then default else (delUnindexed c i).indx.get y := by
    have hmoved : (delDone c e i).indx = (delIndxErased c e i).indx := by
      unfold delDone delMoved
      split <;> rfl
    rw [hmoved, ← delErased_indx c e i]
    simp [delIndxErased, delIndxFreed, IpaNatIp4TableCache.setIndx, update_apply, delMeta]
  rw [hstep, delUnindexed_indx]
  by_cases hm : MovesUp c i
  · simp [hm]
  by_cases hT : c.tableEntries ≤ i
  · simp [hm, hT, indxTarget, indxChange]
  · simp only [hm, if_false, indxTarget, hT, indxFreed, false_and]
    by_cases hy : y = i <;> simp [hy]

theorem delDone_meta : (delDone c e i).indexExpnTableMeta = metaAfter c i c.indexExpnTableMeta := by
  have hmoved : (delDone c e i).indexExpnTableMeta = (delIndxErased c e i).indexExpnTableMeta := by
    unfold delDone delMoved
    split <;> rfl
  rw [hmoved, ← delErased_meta c e i]
  rfl

end

/-! ### The rule tables -/

section

variable {c : IpaNatIp4TableCache} {e i y : ℕ} {D X : ℕ → List ℕ}

theorem delDone_rule_fields (h : TblInv c D X) (he : ruleUsed c e) :
    ruleNext (delDone c e i) y = (ruleDel c e y).nextIndex ∧
    rulePrev (delDone c e i) y = (ruleDel c e y).prevIndex ∧
    (ruleUsed (delDone c e i) y ↔ (ruleDel c e y).enable) ∧
    (liveAt (delDone c e i) y ↔ (ruleDel c e y).live) ∧
    ((delDone c e i).rules.get y).clnt = (ruleDel c e y).clnt := by
  unfold ruleNext rulePrev ruleUsed liveAt
  rw [delDone_rules h he]
  split <;> simp

theorem ruleDel_of_ne (hy : y ≠ e) : (ruleDel c e y).enable = (c.rules.get y).enable ∧
    (ruleDel c e y).live = (c.rules.get y).live ∧
    (ruleDel c e y).clnt = (c.rules.get y).clnt ∧
    (ruleDel c e y).indxTblEntry = (c.rules.get y).indxTblEntry := by
  unfold ruleDel
  rw [if_neg hy]
  split
  · simp
  · split <;> simp

theorem ruleDel_next_of_ne (hy : y ≠ e) (hp : c.tableEntries ≤ e → y ≠ rulePrev c e) :
    (ruleDel c e y).nextIndex = ruleNext c y := by
  unfold ruleDel
  rw [if_neg hy, if_neg fun hand => hp hand.1 hand.2]
  split <;> rfl

theorem ruleDel_prev_of_ne (hy : y ≠ e) (hn : c.tableEntries ≤ e → ruleNext c e ≠ 0 → y ≠ ruleNext c e) :
    (ruleDel c e y).prevIndex = rulePrev c y := by
  unfold ruleDel
  rw [if_neg hy]
  split
  · rfl
  · rw [if_neg fun hand => hn hand.1 hand.2.1 hand.2.2]
    rfl

section

variable (h : TblInv c D X) (he : ruleUsed c e)
include h he

theorem delDone_live_iff : liveAt (delDone c e i) y ↔ liveAt c y ∧ y ≠ e := by
  rw [(delDone_rule_fields h he).2.2.2.1]
  rcases eq_or_ne y e with rfl | hy
  · unfold ruleDel
    rw [if_pos rfl]
    split <;> simp
  · simp [(ruleDel_of_ne hy).2.1, hy, liveAt]

theorem delDone_clnt (hy : y ≠ e) : ((delDone c e i).rules.get y).clnt = (c.rules.get y).clnt := by
  rw [(delDone_rule_fields h he).2.2.2.2, (ruleDel_of_ne hy).2.2.1]

theorem delDone_used_iff : ruleUsed (delDone c e i) y ↔
      ruleUsed c y ∧ (y ≠ e ∨ e < c.tableEntries ∧ ruleNext c e ≠ 0) := by
  rw [(delDone_rule_fields h he).2.2.1]
  rcases eq_or_ne y e with rfl | hy
  · unfold ruleDel
    rw [if_pos rfl]
    split
    · simp_all [ruleUsed]
    · simp_all
  · simp [(ruleDel_of_ne hy).1, hy, ruleUsed]

end

/-- **The rule tables stay chained.** -/
theorem delDone_dst (hs : Shaped c) (h : TblInv c D X) (he : ruleUsed c e) :
    ∃ D', Chained c.tableEntries c.totalEntries (ruleNext (delDone c e i))
        (rulePrev (delDone c e i)) (ruleUsed (delDone c e i)) D' ∧
      ∀ b y, y ∈ D' b → y ∈ D b := by
  have hnext : ∀ y, ruleNext (delDone c e i) y = (ruleDel c e y).nextIndex :=
    fun y => (delDone_rule_fields h he).1
  have hprev : ∀ y, rulePrev (delDone c e i) y = (ruleDel c e y).prevIndex :=
    fun y => (delDone_rule_fields h he).2.1
  by_cases hT : c.tableEntries ≤ e
  · -- unlink the entry from its predecessor
    have hnT : ¬ e < c.tableEntries := by omega
    obtain ⟨b, heb⟩ := (h.dst.used_iff e).mp he
    obtain ⟨hpu, hpn⟩ := h.dst.next_prev he hT
    have hpe := h.rulePrev_ne he hT
    have he0 := (h.dst.used_range he).1
    have hpb := h.dst.prev_mem heb hT
    refine ⟨_, h.dst.unlink hpb hpn (by omega) ?_ (fun hn => ?_) (fun y _ hyp hye => ?_)
      (fun y _ hye hyn => ?_) (fun y => ?_),
      fun _ _ => Chained.mem_of_mem_update erase_subset⟩
    · rw [hnext, ruleDel, if_neg hpe, if_pos ⟨hT, rfl⟩]
      rfl
    · have hne := h.dst.next_ne he
      have hpn' : ruleNext c e ≠ rulePrev c e := by
        intro heq
        refine h.dst.next_next_ne hpu (by omega) ?_
        rw [hpn, heq]
      rw [hprev, ruleDel, if_neg hne, if_neg fun hand => hpn' hand.2, if_pos ⟨hT, hn, rfl⟩]
      exact hs.u16_of_lt_total (h.used_lt hs hpu)
    · rw [hnext, ruleDel_next_of_ne hye fun _ => hyp]
    · rw [hprev, ruleDel_prev_of_ne hye fun _ _ => hyn]
    · rw [delDone_used_iff h he]
      simp [hnT]
  have hlT : e < c.tableEntries := by omega
  by_cases hn : ruleNext c e = 0
  · refine ⟨_, h.dst.removeHead he hlT hn (fun y _ hye => ?_) (fun y _ hye => ?_)
      (fun y => ?_), fun _ _ => Chained.mem_of_mem_update (nil_subset _)⟩
    · rw [hnext, ruleDel_next_of_ne hye fun hT' => absurd hT' hT]
    · rw [hprev, ruleDel_prev_of_ne hye fun hT' => absurd hT' hT]
    · rw [delDone_used_iff h he]
      simp [hn]
  -- a head with followers: the chain keeps all its entries
  refine ⟨D, h.dst.congr (fun y _ => ?_) (fun y _ => ?_) (fun y => ?_), fun b y hy => hy⟩
  · rw [hnext]
    rcases eq_or_ne y e with rfl | hye
    · rw [ruleDel, if_pos rfl, if_pos ⟨hlT, hn⟩]
      rfl
    · exact ruleDel_next_of_ne hye fun hT' => absurd hT' hT
  · rw [hprev]
    rcases eq_or_ne y e with rfl | hye
    · rw [ruleDel, if_pos rfl, if_pos ⟨hlT, hn⟩]
      rfl
    · exact ruleDel_prev_of_ne hye fun hT' => absurd hT' hT
  · rw [delDone_used_iff h he]
    simp [hlT, hn]

/-! ### The index tables -/

theorem entryOf_delDone :
    entryOf (delDone c e i) y = if y = indxFreed c i then 0
      else if MovesUp c i ∧ y = i then entryOf c (indxNext c i) else entryOf c y := by
  unfold entryOf
  rw [delDone_indx]
  by_cases hf : y = indxFreed c i
  · simp [hf]
  rw [if_neg hf, if_neg hf]
  by_cases hm : MovesUp c i
  · by_cases hy : y = i <;> simp [hm, hy]
  · simp only [hm, if_false, false_and]
    split <;> rfl

theorem delDone_indxUsed_iff (h : TblInv c D X) (hi : indxUsed c i) :
    indxUsed (delDone c e i) y ↔ indxUsed c y ∧ y ≠ indxFreed c i := by
  unfold indxUsed at hi ⊢
  rw [entryOf_delDone]
  by_cases hf : y = indxFreed c i
  · simp [hf]
  rw [if_neg hf]
  by_cases hm : MovesUp c i ∧ y = i
  · rw [if_pos hm]
    have hsucc := h.idx.next_used hi hm.1.2
    constructor
    · intro _
      rw [hm.2]
      exact ⟨hi, hm.2 ▸ hf⟩
    · intro _
      exact hsucc
  · simp [hm, hf]

theorem indxPrev_delDone : indxPrev (delDone c e i) y
      = (metaAfter c i c.indexExpnTableMeta).get (y - c.tableEntries) := by
  unfold indxPrev
  rw [delDone_meta, (delDone_geom c e i).table]

section

variable (h : TblInv c D X) (hi : indxUsed c i)
include h hi

theorem delDone_idx_overflow (hT : c.tableEntries ≤ i) :
    ∃ X', Chained c.tableEntries c.totalEntries (indxNext (delDone c e i))
        (indxPrev (delDone c e i)) (indxUsed (delDone c e i)) X' ∧
      ∀ b y, y ∈ X' b → y ∈ X b := by
  have hiT : ¬ i < c.tableEntries := by omega
  have hm : ¬ MovesUp c i := fun hm => hiT hm.1
  have hfreed : indxFreed c i = i := if_neg hm
  have hi0 := (h.idx.used_range hi).1
  obtain ⟨b, hib⟩ := (h.idx.used_iff i).mp hi
  have hpn := (h.idx.next_prev hi hT).2
  have hpe := h.indxPrev_ne hi hT
  have hused : ∀ y, indxUsed (delDone c e i) y ↔ indxUsed c y ∧ y ≠ i := fun y => by
    rw [delDone_indxUsed_iff h hi, hfreed]
  refine ⟨_, h.idx.unlink (h.idx.prev_mem hib hT) hpn (by omega) ?_ (fun hn => ?_)
    (fun y _ hyp hye => ?_) (fun y hy hye hyn => ?_) hused,
    fun _ _ => Chained.mem_of_mem_update erase_subset⟩
  · unfold indxNext
    rw [delDone_indx, hfreed, if_neg hpe, if_neg hm, if_pos ⟨hT, rfl⟩]
    rfl
  · have hover := h.idx.next_overflow hi hn
    have hslot : indxNext c i - c.tableEntries ≠ i - c.tableEntries := by
      have := h.idx.next_ne hi
      omega
    rw [indxPrev_delDone]
    simp [metaAfter, hiT, hn, hslot]
  · unfold indxNext
    rw [delDone_indx, hfreed, if_neg hye, if_neg hm, if_neg fun hand => hyp hand.2]
  -- the written slots belong to the entry and to its successor
  rw [indxPrev_delDone]
  unfold metaAfter
  rw [if_neg hiT]
  split
  · have hn : indxNext c i ≠ 0 := ‹_›
    have hover := h.idx.next_overflow hi hn
    have hri := h.idx.used_range hi
    have h1 : y - c.tableEntries ≠ i - c.tableEntries := by omega
    have h2 : y - c.tableEntries ≠ indxNext c i - c.tableEntries := by omega
    simp [h1, h2, indxPrev]
  · rfl

theorem delDone_idx_single (hiT : i < c.tableEntries) (hn : indxNext c i = 0) :
    ∃ X', Chained c.tableEntries c.totalEntries (indxNext (delDone c e i))
        (indxPrev (delDone c e i)) (indxUsed (delDone c e i)) X' ∧
      ∀ b y, y ∈ X' b → y ∈ X b := by
  have hm : ¬ MovesUp c i := fun hm => hm.2 hn
  have hfreed : indxFreed c i = i := if_neg hm
  have hused : ∀ y, indxUsed (delDone c e i) y ↔ indxUsed c y ∧ y ≠ i := fun y => by
    rw [delDone_indxUsed_iff h hi, hfreed]
  refine ⟨_, h.idx.removeHead hi hiT hn (fun y _ hye => ?_) (fun y _ _ => ?_) hused,
    fun _ _ => Chained.mem_of_mem_update (nil_subset _)⟩
  · unfold indxNext
    rw [delDone_indx, hfreed, if_neg hye, if_neg hm, if_neg fun hand => absurd hand.1 (Nat.not_le.mpr hiT)]
  · rw [indxPrev_delDone]
    simp [metaAfter, hiT, hn, indxPrev]

theorem delDone_idx_movesUp (hm : MovesUp c i) :
    ∃ X', Chained c.tableEntries c.totalEntries (indxNext (delDone c e i))
        (indxPrev (delDone c e i)) (indxUsed (delDone c e i)) X' ∧
      ∀ b y, y ∈ X' b → y ∈ X b := by
  have hfreed : indxFreed c i = indxNext c i := if_pos hm
  obtain ⟨hiT, hn⟩ := hm
  have hne := h.idx.next_ne hi
  have hsu := h.idx.next_used hi hn
  have hused : ∀ y, indxUsed (delDone c e i) y ↔ indxUsed c y ∧ y ≠ indxNext c i := fun y => by
    rw [delDone_indxUsed_iff h hi, hfreed]
  refine ⟨_, h.idx.unlink (h.idx.mem_own hi hiT) rfl hn ?_ (fun hnn => ?_)
    (fun y _ hyp hye => ?_) (fun y hy _ hyn => ?_) hused,
    fun _ _ => Chained.mem_of_mem_update erase_subset⟩
  · rw [indxNext, delDone_indx, hfreed, if_neg hne.symm, if_pos ⟨hiT, hn⟩, if_pos rfl]
    rfl
  · rw [indxPrev_delDone]
    simp [metaAfter, hiT, hn, hnn]
  · rw [indxNext, delDone_indx, hfreed, if_neg hye, if_pos ⟨hiT, hn⟩, if_neg hyp]
    rfl
  -- only the slot of the follower's own successor is written
  rw [indxPrev_delDone]
  unfold metaAfter
  rw [if_pos hiT]
  split
  · have hnn : indxNext c (indxNext c i) ≠ 0 := (‹_ ∧ _› : _ ∧ _).2
    have hover := h.idx.next_overflow hsu hnn
    have h1 : y - c.tableEntries ≠ indxNext c (indxNext c i) - c.tableEntries := by omega
    simp [h1, indxPrev]
  · rfl

/-- **The index tables stay chained.** -/
theorem delDone_idx :
    ∃ X', Chained c.tableEntries c.totalEntries (indxNext (delDone c e i))
        (indxPrev (delDone c e i)) (indxUsed (delDone c e i)) X' ∧
      ∀ b y, y ∈ X' b → y ∈ X b := by
  rcases Nat.lt_or_ge i c.tableEntries with hiT | hT
  · by_cases hn : indxNext c i = 0
    · exact delDone_idx_single h hi hiT hn
    · exact delDone_idx_movesUp h hi ⟨hiT, hn⟩
  · exact delDone_idx_overflow h hi hT

end

/-! ### Cross references -/

theorem delDone_pair (hs : Shaped c) (h : TblInv c D X) (he : liveAt c e) (hio : indxOf c e = i) :
    Pairing (liveAt (delDone c e i)) (indxOf (delDone c e i)) (entryOf (delDone c e i)) := by
  have hu := liveAt_used he
  obtain ⟨hi, hpay⟩ := h.indxOf_used he
  rw [hio] at hi hpay
  have hlive : ∀ y, liveAt (delDone c e i) y ↔ liveAt c y ∧ y ≠ e :=
    fun y => delDone_live_iff h hu
  by_cases hm : MovesUp c i
  · have hfreed : indxFreed c i = indxNext c i := if_pos hm
    have hne := h.idx.next_ne hi
    have hsu := h.idx.next_used hi hm.2
    have hentry : ∀ y, entryOf (delDone c e i) y = if y = indxNext c i then 0
        else if y = i then entryOf c (indxNext c i) else entryOf c y := by
      intro y
      rw [entryOf_delDone, hfreed]
      simp [hm]
    -- first the deleted rule leaves its entry, then the next one moves there
    have hremoved : Pairing (liveAt (delDone c e i)) (indxOf c)
        (update (entryOf c) i 0) :=
      h.pair.remove he hio (fun _ _ _ => rfl) (by simp) (fun j hj => by simp [hj]) hlive
    have hsucc : update (entryOf c) i 0 (indxNext c i) = entryOf c (indxNext c i) := by
      simp [hne]
    refine hremoved.move (i := i) (s := indxNext c i) (by simp) (hsucc ▸ hsu) ?_ ?_
      (fun j hji hjs => ?_) ?_ (fun y hy hys => ?_)
    · rw [hentry, hsucc, if_neg hne.symm, if_pos rfl]
    · rw [hentry, if_pos rfl]
    · rw [hentry, if_neg hjs, if_neg hji, update_of_ne hji]
    · rw [hsucc]
      unfold indxOf
      rw [delDone_rules h hu, if_pos ⟨hm, rfl⟩]
      exact hs.u16_of_lt_total (h.indx_lt hs hi)
    rw [hsucc] at hys
    unfold indxOf
    rw [delDone_rules h hu, if_neg fun hand => hys hand.2]
    exact (ruleDel_of_ne ((hlive y).mp hy).2).2.2.2
  have hfreed : indxFreed c i = i := if_neg hm
  have hentry : ∀ y, entryOf (delDone c e i) y = if y = i then 0 else entryOf c y := by
    intro y
    rw [entryOf_delDone, hfreed]
    simp [hm]
  refine h.pair.remove he hio (fun y _ hye => ?_) ?_ (fun j hj => ?_) hlive
  · unfold indxOf
    rw [delDone_rules h hu, if_neg fun hand => hm hand.1]
    exact (ruleDel_of_ne hye).2.2.2
  · rw [hentry, if_pos rfl]
  · rw [hentry, if_neg hj]

/-- **After the updates the tables are well formed**; a dead head may be left
without a follower. -/
theorem delDone_tbl (hs : Shaped c) (h : TblInv c D X) (he : liveAt c e)
    (hio : indxOf c e = i) : ∃ D' X', TblInv (delDone c e i) D' X' := by
  have hu := liveAt_used he
  have hi : indxUsed c i := hio ▸ (h.indxOf_used he).1
  have hpay : entryOf c i = e := hio ▸ (h.indxOf_used he).2
  have hgeom := delDone_geom c e i
  obtain ⟨D', _, hsubD⟩ := delDone_dst (i := i) hs h hu
  obtain ⟨X', hX', hsubX⟩ := delDone_idx (e := e) h hi
  have hused := fun y => delDone_used_iff (i := i) (y := y) h hu
  have hlive := fun y => delDone_live_iff (i := i) (y := y) h hu
  refine ⟨D', X', ?_, ?_, delDone_pair hs h he hio, fun y hy => ?_, fun y hy => ?_,
    fun y hy hnl => ?_, fun b y hy hl => ?_, fun b j hj => ?_⟩
  · rwa [hgeom.table, hgeom.total]
  · rwa [hgeom.table, hgeom.total]
  · -- an unoccupied entry was unoccupied before, or it is the deleted one
    have hnm : ¬ (MovesUp c i ∧ y = entryOf c (indxNext c i)) := by
      rintro ⟨hm, rfl⟩
      have hsu := h.idx.next_used hi hm.2
      have hne : entryOf c (indxNext c i) ≠ e := fun heq =>
        h.idx.next_ne hi (h.pair.payload_inj hsu (heq.trans hpay.symm))
      exact hy ((hused _).mpr ⟨liveAt_used (h.pair.bwd _ hsu).1, Or.inl hne⟩)
    rw [delDone_rules h hu, if_neg hnm]
    rw [hused, not_and_or, not_or] at hy
    rcases eq_or_ne y e with rfl | hye
    · have hnh := (hy.resolve_left fun hn => hn hu).2
      rw [ruleDel, if_pos rfl, if_neg hnh]
    have hny := hy.resolve_right fun hand => hand.1 hye
    have hzero := h.rule_zero y hny
    have hnp : ¬ (c.tableEntries ≤ e ∧ y = rulePrev c e) := by
      rintro ⟨hT, rfl⟩
      exact hny (h.dst.next_prev hu hT).1
    have hnn : ¬ (c.tableEntries ≤ e ∧ ruleNext c e ≠ 0 ∧ y = ruleNext c e) := by
      rintro ⟨-, hn, rfl⟩
      exact hny (h.dst.next_used hu hn)
    rw [ruleDel, if_neg hye, if_neg hnp, if_neg hnn, hzero]
  · have hfree := delDone_indxUsed_iff (e := e) (y := y) h hi
    rw [hfree, not_and_or, not_not] at hy
    rw [delDone_indx]
    by_cases hyf : y = indxFreed c i
    · rw [if_pos hyf]
    have hny := hy.resolve_right hyf
    have hyi : y ≠ i := by
      rintro rfl
      exact hny hi
    have hnp : ¬ (c.tableEntries ≤ i ∧ y = indxPrev c i) := by
      rintro ⟨hT, rfl⟩
      exact hny (h.idx.next_prev hi hT).1
    rw [if_neg hyf, if_neg hyi, if_neg hnp]
    simpa using h.indx_zero y hny
  · rw [hlive, not_and_or, not_not] at hnl
    rw [hused] at hy
    rw [hgeom.table]
    rcases hnl with hnl | rfl
    · exact h.dead_head y hy.1 hnl
    · exact (hy.2.resolve_left fun hne => hne rfl).1
  · obtain ⟨hl', hye⟩ := (hlive y).mp hl
    rw [hgeom.dstBucket, delDone_clnt h hu hye]
    exact h.dst_own b y (hsubD b y hy) hl'
  have hju := (delDone_indxUsed_iff (e := e) h hi).mp ((hX'.used_iff j).mpr ⟨b, hj⟩)
  have hjb := hsubX b j hj
  rw [hgeom.srcBucket, entryOf_delDone, if_neg hju.2]
  by_cases hm : MovesUp c i ∧ j = i
  · -- the moved rule stays on the chain of its bucket
    obtain ⟨hm, rfl⟩ := hm
    have hsu := h.idx.next_used hi hm.2
    have hne : entryOf c (indxNext c j) ≠ e := fun heq =>
      h.idx.next_ne hi (h.pair.payload_inj hsu (heq.trans hpay.symm))
    rw [if_pos ⟨hm, rfl⟩, delDone_clnt h hu hne]
    exact h.idx_own b _ ((h.idx.seg_of_mem hjb).next_mem hjb hm.2)
  have hji : entryOf c j ≠ e := by
    intro heq
    have hj_eq := h.pair.payload_inj hju.1 (heq.trans hpay.symm)
    have hnm : ¬ MovesUp c i := fun hm' => hm ⟨hm', hj_eq⟩
    have hfreed : indxFreed c i = i := if_neg hnm
    exact hju.2 (hj_eq.trans hfreed.symm)
  rw [if_neg hm, delDone_clnt h hu hji]
  exact h.idx_own b j hjb

end

end G4Common.IpaNat

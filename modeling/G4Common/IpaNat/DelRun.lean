/-
The sweep of the dead heads, and the whole of `ipa_nati_del_ipv4_rule()`.

`sweep_step` is one turn of the loop, `delDeadFrom_spec` the loop by induction
on the number of turns, `ipaNatiDelIpv4Rule_spec` the call: a handle of a live
rule is accepted, the rule goes, everything else stays, and the invariant holds
again.
-/
import G4Common.IpaNat.DelInv

namespace G4Common.IpaNat

open Function Option

/-! ### The sweep -/

/-- `z` is `x` without some of its dead heads. -/
structure Swept (X : ℕ → List ℕ) (x z : IpaNatIp4TableCache) : Prop where
  geom : SameGeom x z
  shaped : Shaped z
  tbl : ∃ D, TblInv z D X
  live : ∀ y, liveAt z y ↔ liveAt x y
  rules : ∀ y, liveAt x y → z.rules.get y = x.rules.get y

section

variable {x z w : IpaNatIp4TableCache} {D X : ℕ → List ℕ} {cnt : ℕ}

theorem Swept.refl (hs : Shaped x) (h : TblInv x D X) : Swept X x x :=
  ⟨SameGeom.refl x, hs, ⟨D, h⟩, fun _ => Iff.rfl, fun _ _ => rfl⟩

theorem Swept.trans (h : Swept X x z) (h' : Swept X z w) : Swept X x w :=
  ⟨h.geom.trans h'.geom, h'.shaped, h'.tbl, fun y => (h'.live y).trans (h.live y),
    fun y hy => (h'.rules y ((h.live y).mpr hy)).trans (h.rules y hy)⟩

theorem TblInv.dead_of_proto (h : TblInv x D X) (hproto : (x.rules.get cnt).protocol = invalidProtoFieldCmp) :
    ruleUsed x cnt ∧ ¬ liveAt x cnt := by
  constructor
  · by_contra hu
    rw [h.rule_zero cnt hu] at hproto
    exact nomatch hproto
  · intro hl
    exact (IpaNatRule.live_iff.mp hl).2 hproto

/-- **One turn of the sweep**: a dead head without follower is set to zero. -/
theorem sweep_step (hs : Shaped x) (h : TblInv x D X) (hT : cnt < x.tableEntries)
    (hproto : (x.rules.get cnt).protocol = invalidProtoFieldCmp) (hn : ruleNext x cnt = 0) :
    Swept X x (x.setRule cnt default) := by
  obtain ⟨hu, hnl⟩ := h.dead_of_proto hproto
  have hget : ∀ y, y ≠ cnt → (x.setRule cnt default).rules.get y = x.rules.get y := fun y hy => by
    simp [IpaNatIp4TableCache.setRule, hy]
  have hself : (x.setRule cnt default).rules.get cnt = default := by
    simp [IpaNatIp4TableCache.setRule]
  have hused : ∀ y, ruleUsed (x.setRule cnt default) y ↔ ruleUsed x y ∧ y ≠ cnt := by
    intro y
    unfold ruleUsed
    by_cases hy : y = cnt
    · rw [hy, hself]
      simp
    · rw [hget y hy]
      simp [hy]
  have hlive : ∀ y, liveAt (x.setRule cnt default) y ↔ liveAt x y := by
    intro y
    by_cases hy : y = cnt
    · rw [hy]
      unfold liveAt at hnl ⊢
      rw [hself]
      simpa using hnl
    · unfold liveAt
      rw [hget y hy]
  have hne : ∀ y, liveAt x y → y ≠ cnt := by
    rintro y hy rfl
    exact hnl hy
  refine ⟨(SameGeom.refl x).setRule _ _, hs.setRule _, ⟨update D cnt [], ?_⟩, hlive,
    fun y hy => hget y (hne y hy)⟩
  refine ⟨?_, h.idx, ?_, fun y hy => ?_, h.indx_zero, fun y hy hl => ?_, fun b y hy hl => ?_,
    fun b j hj => ?_⟩
  · refine h.dst.removeHead hu hT hn (fun y _ hy => ?_) (fun y _ hy => ?_) hused
    · unfold ruleNext
      rw [hget y hy]
    · unfold rulePrev
      rw [hget y hy]
  · refine ⟨fun y hy => h.pair.pos y ((hlive y).mp hy), fun y hy => ?_, fun j hj => ?_⟩
    · have hl := (hlive y).mp hy
      unfold indxOf
      rw [hget y (hne y hl)]
      exact h.pair.fwd y hl
    obtain ⟨hl, hlink⟩ := h.pair.bwd j hj
    refine ⟨(hlive _).mpr hl, ?_⟩
    have hrule := hget (entryOf x j) (hne _ hl)
    unfold indxOf at hlink ⊢
    show ((x.setRule cnt default).rules.get (entryOf x j)).indxTblEntry = j
    rw [hrule, hlink]
  · rw [hused, not_and_or, not_not] at hy
    by_cases hyc : y = cnt
    · rw [hyc, hself]
    · rw [hget y hyc]
      exact h.rule_zero y (hy.resolve_right hyc)
  · exact h.dead_head y ((hused y).mp hy).1 fun hl' => hl ((hlive y).mpr hl')
  · have hl' := (hlive y).mp hl
    have hyD : y ∈ D b := by
      rcases eq_or_ne b cnt with rfl | hb
      · simp at hy
      · rwa [update_of_ne hb] at hy
    rw [hget y (hne y hl')]
    exact h.dst_own b y hyD hl'
  have hlj := (h.pair.bwd j ((h.idx.used_iff j).mpr ⟨b, hj⟩)).1
  have hrule := hget (entryOf x j) (hne _ hlj)
  have hown := h.idx_own b j hj
  rw [← hrule] at hown
  exact hown

/-- No dead head without a follower among the entries from `a` to `b`. -/
def CleanBetween (x : IpaNatIp4TableCache) (a b : ℕ) : Prop :=
  ∀ y, a ≤ y → y < b → ¬ ((x.rules.get y).protocol = invalidProtoFieldCmp ∧ ruleNext x y = 0)

/-- **The loop of the sweep.** -/
theorem delDeadFrom_spec (n : ℕ) {s : NatHw} (hs : Shaped s.cache) (h : TblInv s.cache D X)
    (hcnt : cnt + n = s.cache.tableEntries) (hclean : CleanBetween s.cache 0 cnt) :
    ∃ z tr, delDeadFrom s n cnt = some ⟨z, s.seen ++ tr⟩ ∧ Swept X s.cache z ∧
      CleanBetween z 0 s.cache.tableEntries ∧ ∀ w ∈ tr, Swept X s.cache w := by
  induction n generalizing s cnt D with
  | zero =>
    refine ⟨s.cache, [], by simp [delDeadFrom], Swept.refl hs h, ?_, by simp⟩
    rw [← hcnt]
    exact hclean
  | succ n ih =>
    have hT : cnt < s.cache.tableEntries := by omega
    have hread := readRule_base hs hT
    by_cases hdead : (s.cache.rules.get cnt).protocol = invalidProtoFieldCmp ∧
        ruleNext s.cache cnt = 0
    · have hw := writeRule_tblOf hs (Nat.lt_trans hT hs.lt_total) default
      rw [(tblOf_base hT).1, (tblOf_base hT).2] at hw
      have hstep := sweep_step hs h hT hdead.1 hdead.2
      obtain ⟨_, h'⟩ := hstep.tbl
      have hclean' : CleanBetween (s.cache.setRule cnt default) 0 (cnt + 1) := by
        intro y _ hy
        by_cases hyc : y = cnt
        · have hself : (s.cache.setRule cnt default).rules.get cnt = default := by
            simp [IpaNatIp4TableCache.setRule]
          rw [hyc, hself]
          exact fun hand => absurd hand.1 (by decide)
        have hget : (s.cache.setRule cnt default).rules.get y = s.cache.rules.get y := by
          simp [IpaNatIp4TableCache.setRule, hyc]
        unfold ruleNext
        rw [hget]
        exact hclean y (Nat.zero_le y) (by omega)
      obtain ⟨z, tr, hrun, hsw, hcl, htr⟩ := ih (s := s.step (s.cache.setRule cnt default)) hstep.shaped h' (by
          show cnt + 1 + n = s.cache.tableEntries
          omega) hclean'
      refine ⟨z, s.cache.setRule cnt default :: tr, ?_, hstep.trans hsw, hcl, ?_⟩
      · have hcond : (s.cache.rules.get cnt).protocol = invalidProtoFieldCmp ∧
            (s.cache.rules.get cnt).nextIndex = invalidNatEntry := hdead
        simp [delDeadFrom, hread, hcond, hw, hrun]
      intro w hw'
      rcases List.mem_cons.mp hw' with rfl | hw'
      · exact hstep
      · exact hstep.trans (htr w hw')
    have hclean' : CleanBetween s.cache 0 (cnt + 1) := by
      intro y _ _
      by_cases hyc : y = cnt
      · rwa [hyc]
      · exact hclean y (Nat.zero_le y) (by omega)
    obtain ⟨z, tr, hrun, hsw, hcl, htr⟩ := ih hs h (by omega) hclean'
    refine ⟨z, tr, ?_, hsw, hcl, htr⟩
    have hcond : ¬ ((s.cache.rules.get cnt).protocol = invalidProtoFieldCmp ∧
        (s.cache.rules.get cnt).nextIndex = invalidNatEntry) := hdead
    simp [delDeadFrom, hread, hcond, hrun]

theorem ipaNatiDelDeadIpv4HeadNodes_spec {s : NatHw} (hs : Shaped s.cache) (h : TblInv s.cache D X) :
    ∃ z tr, ipaNatiDelDeadIpv4HeadNodes s = some ⟨z, s.seen ++ tr⟩ ∧ Swept X s.cache z ∧
      NoDeadHead z ∧ ∀ w ∈ tr, Swept X s.cache w := by
  obtain ⟨z, tr, hrun, hsw, hcl, htr⟩ := delDeadFrom_spec s.cache.tableEntries hs h
    (Nat.zero_add _) fun y _ hy => absurd hy (Nat.not_lt_zero y)
  refine ⟨z, tr, hrun, hsw, fun y hu hnl hn => ?_, htr⟩
  obtain ⟨_, h'⟩ := hsw.tbl
  have hy := h'.dead_head y hu hnl
  rw [hsw.geom.table] at hy
  refine hcl y (Nat.zero_le y) hy ⟨?_, hn⟩
  by_contra hproto
  exact hnl (IpaNatRule.live_iff.mpr ⟨hu, hproto⟩)

end

/-! ### Handles -/

variable {c : IpaNatIp4TableCache} {e k : ℕ} {D X : ℕ → List ℕ}

theorem ipaNatiParseIpv4RuleHdl_eq (hs : Shaped c) (hk : k + 1 < c.totalEntries) (he : e < c.totalEntries)
    (hid : c.ruleIdArray.get k = ruleIdOf c.tableEntries e) :
    ipaNatiParseIpv4RuleHdl c (u16 (k + 1))
      = some (decide (c.tableEntries ≤ e), slotOf c e) := by
  have hu := hs.u16_of_lt_total hk
  have hread : c.ruleIdArray.read k = some (ruleIdOf c.tableEntries e) := by
    rw [CArray.read_of_lt (by rw [hs.ids]; omega), hid]
  obtain ⟨h1, h2⟩ := ruleIdOf_parts hs he
  have hlt : ¬ c.totalEntries ≤ k + 1 := by omega
  have hk' : k + 1 - 1 = k := Nat.add_sub_cancel k 1
  simp only [ipaNatiParseIpv4RuleHdl, hu, ge_iff_le, hlt, if_false, Nat.add_eq_zero_iff,
    one_ne_zero, and_false, hk', hread, bind_eq_bind, bind_some, h1, h2]
  rfl

theorem TblInv.slotOf_ne_zero (h : TblInv c D X) (he : ruleUsed c e) : slotOf c e ≠ 0 := by
  have hr := h.dst.used_range he
  unfold slotOf
  split <;> omega

theorem Handles.remove {x : IpaNatIp4TableCache} (h : Handles c) (ht : TblInv c D X) (hs : Shaped c)
    (hT : x.tableEntries = c.tableEntries) (hN : x.totalEntries = c.totalEntries)
    (hk : k < c.totalEntries) (he : liveAt c e) (hid : c.ruleIdArray.get k = ruleIdOf c.tableEntries e)
    (hids : x.ruleIdArray.get = update c.ruleIdArray.get k 0)
    (hlive : ∀ y, liveAt x y ↔ liveAt c y ∧ y ≠ e) : Handles x := by
  have hlt : ∀ y, liveAt c y → y < c.totalEntries := fun y hy => ht.used_lt hs (liveAt_used hy)
  have hk0 : c.ruleIdArray.get k ≠ 0 := by
    rw [hid]
    exact ruleIdOf_ne_zero hs (hlt e he) (ht.pair.pos e he)
  -- a cell of the new array that is in use is another cell of the old one
  have hold : ∀ j, x.ruleIdArray.get j ≠ 0 →
      j ≠ k ∧ x.ruleIdArray.get j = c.ruleIdArray.get j := by
    intro j hj
    rw [hids] at hj ⊢
    by_cases hjk : j = k
    · rw [hjk, update_self] at hj
      exact absurd rfl hj
    · exact ⟨hjk, update_of_ne hjk _ _⟩
  refine ⟨fun j hj hj0 => ?_, fun j j' hj hj' hj0 heq => ?_, fun y hy => ?_, fun j hj hj0 => ?_⟩
  · obtain ⟨hjk, hjeq⟩ := hold j hj0
    rw [hN] at hj
    rw [hT]
    rw [hjeq] at hj0 ⊢
    obtain ⟨y, hy, hyid⟩ := h.id_live j hj hj0
    refine ⟨y, (hlive y).mpr ⟨hy, ?_⟩, hyid⟩
    rintro rfl
    exact hjk (h.inj j k hj hk hj0 (hyid.trans hid.symm))
  · obtain ⟨-, hjeq⟩ := hold j hj0
    obtain ⟨-, hjeq'⟩ := hold j' (heq ▸ hj0)
    rw [hN] at hj hj'
    rw [hjeq, hjeq'] at heq
    exact h.inj j j' hj hj' (hjeq ▸ hj0) heq
  · obtain ⟨hy, hye⟩ := (hlive y).mp hy
    obtain ⟨j, hj, hjid⟩ := h.live_id y hy
    have hjk : j ≠ k := by
      rintro rfl
      exact hye (ruleIdOf_inj hs (hlt y hy) (hlt e he) (hjid.symm.trans hid))
    refine ⟨j, by rwa [hN], ?_⟩
    rw [hids, hT, update_of_ne hjk, hjid]
  · obtain ⟨-, hjeq⟩ := hold j hj0
    rw [hN] at hj ⊢
    exact h.lt j hj (hjeq ▸ hj0)

/-! ### The call -/

/-- `c'` is `c` without the rule of entry `e` and without its handle cell
`k`. -/
structure Deleted (c : IpaNatIp4TableCache) (e k : ℕ) (c' : IpaNatIp4TableCache) : Prop where
  table : c'.tableEntries = c.tableEntries
  expn : c'.expnTableEntries = c.expnTableEntries
  ids : c'.ruleIdArray.get = update c.ruleIdArray.get k 0
  live : ∀ y, liveAt c' y ↔ liveAt c y ∧ y ≠ e
  clnt : ∀ y, liveAt c' y → (c'.rules.get y).clnt = (c.rules.get y).clnt

/-- **Deleting a rule.**  The handle of a live rule is accepted, exactly that
rule is deleted, and the invariant holds again. -/
theorem ipaNatiDelIpv4Rule_spec (h : NatInv c D X) (he : liveAt c e) (hk : k < c.totalEntries)
    (hid : c.ruleIdArray.get k = ruleIdOf c.tableEntries e) (seen : List IpaNatIp4TableCache) :
    ∃ c' tr, ipaNatiDelIpv4Rule true ⟨c, seen⟩ (k + 1) = some (0, ⟨c', seen ++ tr⟩) ∧
      (∃ D' X', NatInv c' D' X') ∧ Deleted c e k c' ∧
      ∀ w ∈ tr, w ∈ delStates c e (indxOf c e) ∨
        ∃ X', Swept X' (delDone c e (indxOf c e)) w := by
  have hs := h.shaped
  have ht := h.tbl
  have hu := liveAt_used he
  have hlt := ht.used_lt hs hu
  have hk0 : c.ruleIdArray.get k ≠ 0 := by
    rw [hid]
    exact ruleIdOf_ne_zero hs hlt (ht.pair.pos e he)
  have hk1 := h.hdl.lt k hk hk0
  have hparse := ipaNatiParseIpv4RuleHdl_eq hs hk1 hlt hid
  have hread := readRule_tblOf hs hlt
  rw [← ruleTbl_tblOf] at hread
  have hpos : ipaNatiFindRulePos c (decide (c.tableEntries ≤ e)) (slotOf c e)
      = some (delTypeOf (decide (c.tableEntries ≤ e)) (ruleNext c e)) := by
    simp [ipaNatiFindRulePos, hread, ruleNext]
  obtain ⟨tr1, hpost, htr1⟩ := ipaNatiPostDelDmaCmd_eq hs ht he seen
  obtain ⟨_, X1, ht1⟩ := delDone_tbl hs ht he rfl
  obtain ⟨z, tr2, hsweep, hsw, hnd, htr2⟩ := ipaNatiDelDeadIpv4HeadNodes_spec
    (s := ⟨delDone c e (indxOf c e), seen ++ tr1⟩) (delDone_shaped e _ hs) ht1
  have hgeom := (delDone_geom c e (indxOf c e)).trans hsw.geom
  have hlive : ∀ y, liveAt z y ↔ liveAt c y ∧ y ≠ e := fun y => (hsw.live y).trans (delDone_live_iff ht hu)
  have hids : (setRuleId z k invalidNatEntry).ruleIdArray.get = update c.ruleIdArray.get k 0 := by
    simp [setRuleId, hgeom.ids, invalidNatEntry]
  obtain ⟨D2, ht2⟩ := hsw.tbl
  refine ⟨setRuleId z k invalidNatEntry, tr1 ++ tr2, ?_, ⟨D2, X1, ?_⟩, ?_, fun w hw => ?_⟩
  · have hw : z.writeRuleId (k + 1 - 1) 0 = some (setRuleId z k invalidNatEntry) := by
      have hsize : k < z.ruleIdArray.size := by
        rw [hgeom.ids, hs.ids]
        exact hk
      simp [IpaNatIp4TableCache.writeRuleId, CArray.write_of_lt hsize, setRuleId, invalidNatEntry]
    have hslot := ht.slotOf_ne_zero hu
    unfold ipaNatiDelIpv4Rule
    simp only [hparse, bind_eq_bind, bind_some, invalidNatEntry, hslot, if_false,
      h.valid, Bool.not_true, Bool.false_eq_true, hpos, hpost, ne_eq, not_true_eq_false, hsweep,
      hw]
    simp [NatHw.priv]
  · refine ⟨hgeom.valid.trans h.valid, hsw.shaped.setRuleId _ _, ht2.setRuleId _ _, hnd, ?_⟩
    exact h.hdl.remove ht hs hgeom.table hgeom.total hk he hid hids hlive
  · refine ⟨hgeom.table, hgeom.expn, hids, hlive, fun y hy => ?_⟩
    have hy' := (hlive y).mp hy
    have hdone := (hsw.live y).mp hy
    show (z.rules.get y).clnt = _
    rw [hsw.rules y hdone, delDone_clnt ht hu hy'.2]
  · rcases List.mem_append.mp hw with hw | hw
    · exact .inl (htr1 w hw)
    · exact .inr ⟨X1, htr2 w hw⟩

end G4Common.IpaNat

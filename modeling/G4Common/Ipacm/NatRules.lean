/-
What the operations of `NatApp` do to the cache, as rules.

A property `P` of the driver's state, of `curCnt` and of the cache survives an
operation when it survives the changes of single slots that the operation is
made of.  There is one rule for each operation, with one premise for each such
change; the premise has all the tests that the code made before.  The
invariants of the following modules are proved through these rules and never
look into the operations.

`DeleteTable()` does not touch the cache and has no rule.  The temporary entries
are a table of their own; what changes it stands at the end.
-/
import G4Common.Ipacm.NatApp

namespace G4Common.Ipacm

/-! ### Free slots -/

section

variable {e e' : NatTableEntry}

theorem isFree_iff : e.isFree ↔ e.tuple = default := by
  simp [NatTableEntry.isFree]

theorem isFree_congr (h : e'.tuple = e.tuple) : e'.isFree = e.isFree := by
  simp [NatTableEntry.isFree, h]

theorem isInvalid_congr (h : e'.tuple = e.tuple) : e'.isInvalid = e.isInvalid := by
  simp only [NatTableEntry.tuple, NatTuple.mk.injEq] at h
  simp [NatTableEntry.isInvalid, h]

theorem isFree_of_valid (h : e.isInvalid = false) : e.isFree = false := by
  by_contra hfree
  rw [Bool.not_eq_false, isFree_iff] at hfree
  have hip : e.privateIp = 0 := congrArg NatTuple.privateIp hfree
  simp [NatTableEntry.isInvalid, hip] at h

theorem isFree_default : (default : NatTableEntry).isFree = true := rfl

theorem not_free_of_privateIp (h : e.privateIp ≠ 0) : e.isFree = false := by
  by_contra hfree
  rw [Bool.not_eq_false, isFree_iff] at hfree
  exact h (congrArg NatTuple.privateIp hfree)

theorem not_free_of_targetIp (h : e.targetIp ≠ 0) : e.isFree = false := by
  by_contra hfree
  rw [Bool.not_eq_false, isFree_iff] at hfree
  exact h (congrArg NatTuple.targetIp hfree)

end

/-! ### Runs -/

/-- The states of runs in which every operation satisfies `ok`. -/
inductive AppReach {σ : Type} (d : NatDriver σ) (ok : AppState σ → AppOp → Prop)
    (s₀ : AppState σ) : AppState σ → Prop
  | start : AppReach d ok s₀ s₀
  | step {s : AppState σ} (op : AppOp) : AppReach d ok s₀ s → ok s op →
      AppReach d ok s₀ (op.run d s)

/-- `NatApp` before its first operation. -/
def FreshApp (app : NatApp) : Prop :=
  ∃ maxEntries algPorts pubIpAddrPre pwrSaveIfs,
    app = NatApp.init maxEntries algPorts pubIpAddrPre pwrSaveIfs

/-! ### Rules -/

/-- `P` holds of the driver's state, the counter and the cache. -/
def AppState.Has {σ : Type} (P : LoopState σ → List NatTableEntry → Prop) (s : AppState σ) :
    Prop :=
  P ⟨s.drv, s.app.curCnt⟩ s.app.cache

section

variable {σ : Type} {d : NatDriver σ} {s : AppState σ} {ip : UInt32} {rule : NatTableEntry}
variable {P : LoopState σ → List NatTableEntry → Prop} {Q : NatTableEntry → Prop}
variable {I : AppState σ → Prop}

theorem AppState.Has.loop {body : LoopState σ → NatTableEntry → LoopState σ × NatTableEntry}
    (h : s.Has P) (hQ : ∀ e ∈ s.app.cache, Q e)
    (hbody : ∀ t l1 e l2, Q e → P t (l1 ++ e :: l2) →
      P (body t e).1 (l1 ++ (body t e).2 :: l2)) : (s.loop body).Has P :=
  forSlots_keep_of hbody hQ h

theorem addTable_rule {ret : ℤ} {hdl : Option UInt32} {drv : σ}
    (hadd : d.addIpv4Tbl ip (UInt16.ofNat s.app.maxEntries) s.drv = (ret, hdl, drv))
    (h : P ⟨drv, s.app.curCnt⟩ s.app.cache) (hQ : ∀ e ∈ s.app.cache, Q e)
    (hstep : ret = 0 → ∀ t l1 e l2, Q e → e.isFree = false → P t (l1 ++ e :: l2) →
      P (reinstall d (hdl.getD s.app.natTableHdl) t e).1
        (l1 ++ (reinstall d (hdl.getD s.app.natTableHdl) t e).2 :: l2)) : (addTable d ip s).2.Has P ∧
      (addTable d ip s).2.app.natTableHdl = hdl.getD s.app.natTableHdl := by
  unfold addTable
  rw [hadd]
  dsimp only
  split
  · exact ⟨h, rfl⟩
  rename_i hret
  split
  · refine ⟨AppState.Has.loop (s := ⟨{ s.app with natTableHdl := _ }, _⟩) h hQ
      fun t l1 e l2 hq hP => ?_, rfl⟩
    split
    · exact hstep (not_not.mp hret) t l1 e l2 hq (not_free_of_privateIp ‹_›) hP
    · exact hP
  · exact ⟨h, rfl⟩

theorem updatePwrSaveIf_rule (h : s.Has P)
    (hstep : ∀ t l1 e l2, e.privateIp = ip → e.enabled → P t (l1 ++ e :: l2) →
      P (withdraw d s.app.natTableHdl 0 t e).1
        (l1 ++ (withdraw d s.app.natTableHdl 0 t e).2 :: l2)) : (updatePwrSaveIf d ip s).2.Has P := by
  unfold updatePwrSaveIf
  dsimp only
  split
  · exact h
  split
  · exact h
  refine AppState.Has.loop (s := ⟨{ s.app with pwrSaveIfs := _ }, _⟩) (Q := fun _ => True) h
    (fun _ _ => trivial) fun t l1 e l2 _ hP => ?_
  split_ifs with hcond
  · exact hstep t l1 e l2 hcond.1 hcond.2 hP
  · exact hP

theorem resetPwrSaveIf_rule (h : s.Has P) (hQ : ∀ e ∈ s.app.cache, Q e)
    (hstep : ∀ t l1 e l2, Q e → e.privateIp = ip → e.isFree = false → e.enabled = false →
      P t (l1 ++ e :: l2) → P (reinstall d s.app.natTableHdl t e).1
        (l1 ++ (reinstall d s.app.natTableHdl t e).2 :: l2)) : (resetPwrSaveIf d ip s).2.Has P := by
  unfold resetPwrSaveIf
  dsimp only
  split
  · exact h
  rename_i hip
  refine AppState.Has.loop (s := ⟨{ s.app with pwrSaveIfs := _ }, _⟩) h hQ fun t l1 e l2 hq hP => ?_
  split_ifs with hcond
  · exact hstep t l1 e l2 hq hcond.1 (not_free_of_privateIp (hcond.1 ▸ hip)) hcond.2 hP
  · exact hP

theorem delEntriesOnClntDiscon_rule (h : s.Has P) (hQ : ∀ e ∈ s.app.cache, Q e)
    (hstep : ∀ t l1 e l2, Q e → e.privateIp = ip → e.enabled → P t (l1 ++ e :: l2) →
      P (withdraw d s.app.natTableHdl e.ruleHdl t e).1
        (l1 ++ (withdraw d s.app.natTableHdl e.ruleHdl t e).2 :: l2)) : (delEntriesOnClntDiscon d ip s).2.Has P := by
  unfold delEntriesOnClntDiscon
  dsimp only
  split
  · exact h
  refine AppState.Has.loop (s := ⟨{ s.app with pwrSaveIfs := _ }, _⟩) h hQ fun t l1 e l2 hq hP => ?_
  split_ifs with hcond
  · exact hstep t l1 e l2 hq hcond.1 hcond.2 hP
  · exact hP

theorem delEntriesOnSTAClntDiscon_rule (h : s.Has P)
    (hstep : ∀ t l1 e l2, e.targetIp = ip → e.isFree = false → P t (l1 ++ e :: l2) →
      P (evict d s.app.natTableHdl t e).1 (l1 ++ (evict d s.app.natTableHdl t e).2 :: l2)) :
    (delEntriesOnSTAClntDiscon d ip s).2.Has P := by
  unfold delEntriesOnSTAClntDiscon
  split
  · exact h
  rename_i hip
  refine h.loop (Q := fun _ => True) (fun _ _ => trivial) fun t l1 e l2 _ hP => ?_
  split_ifs with hcond
  · exact hstep t l1 e l2 hcond (not_free_of_targetIp (hcond ▸ hip)) hP
  · exact hP

theorem deleteEntry_rule (h : s.Has P)
    (hstep : ∀ l1 e l2, s.app.cache = l1 ++ e :: l2 → e.tuple = rule.tuple →
      P ⟨if e.enabled = true then (d.delIpv4Rule s.app.natTableHdl e.ruleHdl s.drv).2 else s.drv,
        s.app.curCnt - 1⟩ (l1 ++ default :: l2)) : (deleteEntry d rule s).2.Has P := by
  unfold deleteEntry
  split
  · exact h
  · rename_i drv cache heq
    obtain ⟨l1, e, l2, hl, -, htuple, rfl, rfl⟩ := updateFirst_eq_some.mp heq
    exact hstep l1 e l2 hl (of_decide_eq_true htuple)

theorem tuple_ne_of_chkForDup {app : NatApp} (h : app.chkForDup rule = false) :
    ∀ e ∈ app.cache, e.tuple ≠ rule.tuple := by
  simpa [NatApp.chkForDup] using h

/-- What the addition of an entry does: nothing; or the driver refuses the rule
and writes to the handle of a free slot at most; or a free slot is filled. -/
theorem addEntry_cases (d : NatDriver σ) (rule : NatTableEntry) (s : AppState σ) : (addEntry d rule s).2 = s ∨
    s.app.natTableHdl ≠ 0 ∧ rule.isInvalid = false ∧ s.app.chkForDup rule = false ∧
      ∃ l1 slot l2, s.app.cache = l1 ++ slot :: l2 ∧ slot.isFree ∧
        ((addEntry d rule s = (0, ⟨{ s.app with
            cache := l1 ++ fillSlot rule false 0 slot :: l2, curCnt := s.app.curCnt + 1 },
            s.drv⟩)) ∨
        ∃ ret ruleHdl drv, s.app.isPwrSaveIf rule.privateIp = false ∧
          d.addIpv4Rule s.app.natTableHdl rule.natRule s.drv = (ret, ruleHdl, drv) ∧
          (ret < 0 ∧ addEntry d rule s = (-1, ⟨{ s.app with
            cache := l1 ++ { slot with ruleHdl := ruleHdl.getD slot.ruleHdl } :: l2 }, drv⟩) ∨
          0 ≤ ret ∧ addEntry d rule s = (0, ⟨{ s.app with
            cache := l1 ++ fillSlot rule true (ruleHdl.getD slot.ruleHdl) slot :: l2,
            curCnt := s.app.curCnt + 1 }, drv⟩))) := by
  unfold addEntry
  by_cases hhdl : s.app.natTableHdl = 0
  · simp [hhdl]
  by_cases halg : s.app.isAlgPort rule.protocol rule.privatePort ∨
      s.app.isAlgPort rule.protocol rule.targetPort
  · simp [hhdl, halg]
  cases hinv : rule.isInvalid with
  | true => simp [hhdl, halg]
  | false =>
  cases hdup : s.app.chkForDup rule with
  | true => simp [hhdl, halg]
  | false =>
  rw [if_neg hhdl, if_neg halg, if_neg (by decide), if_neg (by decide)]
  cases hfind : updateFirst NatTableEntry.isFree (storeEntry d rule s) s.app.cache with
  | none => simp
  | some r =>
    obtain ⟨⟨_, _⟩, _⟩ := r
    obtain ⟨l1, slot, l2, hl, -, hfree, hstore, rfl⟩ := updateFirst_eq_some.mp hfind
    refine .inr ⟨hhdl, rfl, rfl, l1, slot, l2, hl, hfree, ?_⟩
    unfold storeEntry at hstore ⊢
    by_cases hps : s.app.isPwrSaveIf rule.privateIp ∨ s.app.isPwrSaveIf rule.targetIp
    · rw [if_pos hps] at hstore ⊢
      obtain ⟨rfl, rfl⟩ := Prod.mk.inj hstore
      exact .inl rfl
    rw [if_neg hps] at hstore ⊢
    refine .inr ⟨_, _, _, Bool.not_eq_true _ ▸ (not_or.mp hps).1, rfl, ?_⟩
    dsimp only at hstore ⊢
    split_ifs at hstore with hret
    · obtain ⟨rfl, rfl⟩ := Prod.mk.inj hstore
      exact .inl ⟨hret, by simp [hret]⟩
    · obtain ⟨rfl, rfl⟩ := Prod.mk.inj hstore
      exact .inr ⟨Int.not_lt.mp hret, by simp [hret]⟩

theorem addEntry_rule (h : s.Has P) (hcache : ∀ l1 slot l2, rule.isInvalid = false → s.app.chkForDup rule = false →
      s.app.cache = l1 ++ slot :: l2 → slot.isFree →
      P ⟨s.drv, s.app.curCnt + 1⟩ (l1 ++ fillSlot rule false 0 slot :: l2))
    (hrefuse : ∀ l1 slot l2 ret ruleHdl drv, s.app.natTableHdl ≠ 0 →
      d.addIpv4Rule s.app.natTableHdl rule.natRule s.drv = (ret, ruleHdl, drv) → ret < 0 →
      s.app.cache = l1 ++ slot :: l2 → slot.isFree →
      P ⟨drv, s.app.curCnt⟩ (l1 ++ { slot with ruleHdl := ruleHdl.getD slot.ruleHdl } :: l2))
    (hinstall : ∀ l1 slot l2 ret ruleHdl drv, rule.isInvalid = false → s.app.chkForDup rule = false →
      d.addIpv4Rule s.app.natTableHdl rule.natRule s.drv = (ret, ruleHdl, drv) → 0 ≤ ret →
      s.app.cache = l1 ++ slot :: l2 → slot.isFree →
      P ⟨drv, s.app.curCnt + 1⟩
        (l1 ++ fillSlot rule true (ruleHdl.getD slot.ruleHdl) slot :: l2)) :
    (addEntry d rule s).2.Has P := by
  rcases addEntry_cases d rule s with heq | ⟨hhdl, hvalid, hdup, l1, slot, l2, hl, hfree,
    heq | ⟨ret, ruleHdl, drv, -, hadd, ⟨hret, heq⟩ | ⟨hret, heq⟩⟩⟩
  · rwa [heq]
  · rw [heq]
    exact hcache l1 slot l2 hvalid hdup hl hfree
  · rw [heq]
    exact hrefuse l1 slot l2 ret ruleHdl drv hhdl hadd hret hl hfree
  · rw [heq]
    exact hinstall l1 slot l2 ret ruleHdl drv hvalid hdup hadd hret hl hfree

theorem cacheEntry_cases (rule : NatTableEntry) (s : AppState σ) : cacheEntry rule s = s ∨
    rule.isInvalid = false ∧ s.app.chkForDup rule = false ∧
      ∃ l1 slot l2, s.app.cache = l1 ++ slot :: l2 ∧ slot.isFree ∧
        cacheEntry rule s = { s with app := { s.app with
          cache := l1 ++ fillSlot rule false 0 slot :: l2, curCnt := s.app.curCnt + 1 } } := by
  unfold cacheEntry
  cases hinv : rule.isInvalid with
  | true => simp
  | false =>
  cases hdup : s.app.chkForDup rule with
  | true => simp
  | false =>
  rw [if_neg (by decide), if_neg (by decide)]
  cases hfind : updateFirst NatTableEntry.isFree (fun slot => ((), fillSlot rule false 0 slot)) s.app.cache with
  | none => exact .inl rfl
  | some r =>
    obtain ⟨⟨⟩, _⟩ := r
    obtain ⟨l1, slot, l2, hl, -, hfree, -, rfl⟩ := updateFirst_eq_some.mp hfind
    exact .inr ⟨rfl, rfl, l1, slot, l2, hl, hfree, rfl⟩

theorem cacheEntry_rule (h : s.Has P)
    (hcache : ∀ l1 slot l2, rule.isInvalid = false → s.app.chkForDup rule = false →
      s.app.cache = l1 ++ slot :: l2 → slot.isFree →
      P ⟨s.drv, s.app.curCnt + 1⟩ (l1 ++ fillSlot rule false 0 slot :: l2)) : (cacheEntry rule s).Has P := by
  rcases cacheEntry_cases rule s with heq | ⟨hvalid, hdup, l1, slot, l2, hl, hfree, heq⟩
  · rwa [heq]
  · rw [heq]
    exact hcache l1 slot l2 hvalid hdup hl hfree

theorem flushTempEntries_rule {isAdd : Bool} (h : I s) (hQ : ∀ e ∈ s.app.temp, Q e)
    (htemp : ∀ s temp, I s → I { s with app := { s.app with temp := temp } })
    (hadd : ∀ s e, Q e → I s → I (addEntry d e s).2) : I (flushTempEntries d ip isAdd s) := by
  have hrun : I (forSlots (flushTempEntry d ip isAdd) s s.app.temp).1 := by
    refine forSlots_keep_of (P := fun s _ => I s) (fun s l1 e l2 hq hs => ?_) hQ h
    unfold flushTempEntry
    dsimp only
    split
    · split
      · have hs' := hadd s e hq hs
        split <;> exact hs'
      · exact hs
    · exact hs
  exact htemp _ _ hrun

section

variable (h : I s) (htemp : ∀ s temp, I s → I { s with app := { s.app with temp := temp } })
include h htemp

theorem addTempEntry_rule : I (addTempEntry rule s) := by
  unfold addTempEntry
  split
  · exact h
  · exact htemp _ _ h

theorem deleteTempEntry_rule : I (deleteTempEntry rule s) := by
  unfold deleteTempEntry
  split
  · exact h
  · exact htemp _ _ h

end

/-! ### The handle of the table -/

@[simp] theorem addEntry_hdl : (addEntry d rule s).2.app.natTableHdl = s.app.natTableHdl := by
  rcases addEntry_cases d rule s with heq | ⟨-, -, -, _, _, _, -, -,
    heq | ⟨_, _, _, -, -, ⟨-, heq⟩ | ⟨-, heq⟩⟩⟩ <;> rw [heq]

@[simp] theorem cacheEntry_hdl : (cacheEntry rule s).app.natTableHdl = s.app.natTableHdl := by
  rcases cacheEntry_cases rule s with heq | ⟨-, -, _, _, _, -, -, heq⟩ <;> rw [heq]

@[simp] theorem deleteEntry_hdl : (deleteEntry d rule s).2.app.natTableHdl = s.app.natTableHdl := by
  unfold deleteEntry
  split <;> rfl

@[simp] theorem updatePwrSaveIf_hdl : (updatePwrSaveIf d ip s).2.app.natTableHdl = s.app.natTableHdl := by
  unfold updatePwrSaveIf
  split
  · rfl
  · split <;> rfl

@[simp] theorem resetPwrSaveIf_hdl : (resetPwrSaveIf d ip s).2.app.natTableHdl = s.app.natTableHdl := by
  unfold resetPwrSaveIf
  split <;> rfl

@[simp] theorem delEntriesOnClntDiscon_hdl : (delEntriesOnClntDiscon d ip s).2.app.natTableHdl = s.app.natTableHdl := by
  unfold delEntriesOnClntDiscon
  split <;> rfl

@[simp] theorem delEntriesOnSTAClntDiscon_hdl :
    (delEntriesOnSTAClntDiscon d ip s).2.app.natTableHdl = s.app.natTableHdl := by
  unfold delEntriesOnSTAClntDiscon
  split <;> rfl

/-! ### The temporary entries -/

theorem addEntry_temp : (addEntry d rule s).2.app.temp = s.app.temp := by
  rcases addEntry_cases d rule s with heq | ⟨-, -, -, _, _, _, -, -,
    heq | ⟨_, _, _, -, -, ⟨-, heq⟩ | ⟨-, heq⟩⟩⟩ <;> rw [heq]

theorem deleteTable_frame : (deleteTable d ip s).2.app.cache = s.app.cache ∧
    (deleteTable d ip s).2.app.temp = s.app.temp ∧
    (deleteTable d ip s).2.app.curCnt = s.app.curCnt := by
  unfold deleteTable
  dsimp only
  split
  · exact ⟨rfl, rfl, rfl⟩
  split
  · exact ⟨rfl, rfl, rfl⟩
  · split <;> exact ⟨rfl, rfl, rfl⟩

theorem flushTempEntries_temp {isAdd : Bool} :
    ∀ e ∈ (flushTempEntries d ip isAdd s).app.temp, e = default ∨ e ∈ s.app.temp := by
  have hrun : ∀ e ∈ (forSlots (flushTempEntry d ip isAdd) s s.app.temp).2,
      e = default ∨ e ∈ s.app.temp := by
    refine forSlots_keep_of (P := fun _ l => ∀ e ∈ l, e = default ∨ e ∈ s.app.temp)
      (Q := (· ∈ s.app.temp)) (fun s' l1 e l2 hq hl x hx => ?_) (fun _ h => h) (fun _ h => Or.inr h)
    rcases mem_replace hx with rfl | hx
    · unfold flushTempEntry
      dsimp only
      split
      · split
        · split
          · exact .inr hq
          · exact .inl rfl
        · exact .inl rfl
      · exact .inr hq
    · exact hl x (mem_of_others hx)
  exact hrun

theorem AppOp.run_temp {op : AppOp} (h : ∀ rule, op ≠ .addTempEntry rule ∧ op ≠ .deleteTempEntry rule)
    (hflush : ∀ ip isAdd, op ≠ .flushTempEntries ip isAdd) : (op.run d s).app.temp = s.app.temp := by
  cases op with
  | addTable =>
    simp only [AppOp.run, Ipacm.addTable]
    split
    · rfl
    · split <;> rfl
  | deleteTable => exact deleteTable_frame.2.1
  | addEntry => exact addEntry_temp
  | deleteEntry =>
    simp only [AppOp.run, Ipacm.deleteEntry]
    split <;> rfl
  | cacheEntry rule =>
    rcases cacheEntry_cases rule s with heq | ⟨-, -, _, _, _, -, -, heq⟩
    · simp only [AppOp.run, heq]
    · simp only [AppOp.run, heq]
  | updatePwrSaveIf =>
    simp only [AppOp.run, Ipacm.updatePwrSaveIf]
    split
    · rfl
    · split <;> rfl
  | resetPwrSaveIf =>
    simp only [AppOp.run, Ipacm.resetPwrSaveIf]
    split <;> rfl
  | delEntriesOnClntDiscon =>
    simp only [AppOp.run, Ipacm.delEntriesOnClntDiscon]
    split <;> rfl
  | delEntriesOnSTAClntDiscon =>
    simp only [AppOp.run, Ipacm.delEntriesOnSTAClntDiscon]
    split <;> rfl
  | addTempEntry rule => exact absurd rfl (h rule).1
  | deleteTempEntry rule => exact absurd rfl (h rule).2
  | flushTempEntries ip isAdd => exact absurd rfl (hflush ip isAdd)

end

end G4Common.Ipacm

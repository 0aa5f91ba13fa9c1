/-
The connection cache and the driver.

The driver is a partial map from handles to rules (`IsMap`).  The cache agrees
with it when the enabled slots and the rules of the table correspond one to one
(`Synced`).  A slot changes in three ways: without a rule before and after; a
rule is installed for it; its rule is withdrawn.

Two operations change the table as a whole.  `DeleteTable()` drops all rules and
calls `Reset()`, which was meant to clear the flags and does not; `AddTable()`
on top of a table that is still there loses its handle.  With rules in the
table, either leaves enabled slots behind that have no rule.  The agreement
holds in the runs that come to these operations with no slot enabled.
-/
import G4Common.Ipacm.NatBook

namespace G4Common.Ipacm

open Function List Option

open IpaNat (IpaNatIpv4Rule)

/-! ### The driver as a map -/

/-- A table of the driver: its handle, and the rule of each handle. -/
abbrev DrvTable := UInt32 × (UInt32 → Option IpaNatIpv4Rule)

/-- The driver is a partial map from handles to rules: `tbl` is the table, if
there is one.  Additions may fail, the deletion of a rule does not. -/
structure IsMap {σ : Type} (d : NatDriver σ) (tbl : σ → Option DrvTable) : Prop where
  addTbl_ok : ∀ {ip n s h s'}, d.addIpv4Tbl ip n s = (0, h, s') →
    ∃ hdl, h = some hdl ∧ tbl s' = some (hdl, fun _ => none)
  addTbl_err : ∀ {ip n s ret h s'}, d.addIpv4Tbl ip n s = (ret, h, s') → ret ≠ 0 → tbl s' = tbl s
  delTbl_ok : ∀ {hdl s s'}, d.delIpv4Tbl hdl s = (0, s') → tbl s' = none
  delTbl_err : ∀ {hdl s ret s'}, d.delIpv4Tbl hdl s = (ret, s') → ret ≠ 0 → tbl s' = tbl s
  addRule_ok : ∀ {hdl rule s ret h s'}, d.addIpv4Rule hdl rule s = (ret, h, s') → 0 ≤ ret →
    ∃ m k, tbl s = some (hdl, m) ∧ h = some k ∧ k ≠ 0 ∧ m k = none ∧
      tbl s' = some (hdl, update m k (some rule))
  addRule_err : ∀ {hdl rule s ret h s'}, d.addIpv4Rule hdl rule s = (ret, h, s') → ret < 0 →
    tbl s' = tbl s ∧ (h = none ∨ h = some 0)
  delRule : ∀ {hdl m k s ret s'}, tbl s = some (hdl, m) → m k ≠ none →
    d.delIpv4Rule hdl k s = (ret, s') →
    0 ≤ ret ∧ tbl s' = some (hdl, update m k none)

/-! ### The invariant -/

/-- The enabled slots are the rules of table `t`, whose handle is `hdl`. -/
structure Synced (cache : List NatTableEntry) (hdl : UInt32) (t : Option DrvTable) : Prop where
  live : ∀ e ∈ cache, e.enabled = true → ∃ m, t = some (hdl, m) ∧ m e.ruleHdl = some e.natRule
  distinct : cache.Pairwise fun e e' =>
    e.enabled = true → e'.enabled = true → e.ruleHdl ≠ e'.ruleHdl
  owned : ∀ h m k rule, t = some (h, m) → m k = some rule →
    k ≠ 0 ∧ ∃ e ∈ cache, e.enabled = true ∧ e.ruleHdl = k
  occupied : ∀ e ∈ cache, e.enabled = true → e.isFree = false

section

variable {e e' : NatTableEntry} {l1 l2 cache : List NatTableEntry} {hdl k : UInt32}
variable {t t' : Option DrvTable} {m : UInt32 → Option IpaNatIpv4Rule}

theorem Synced.of_quiet (hq : ∀ e ∈ cache, e.enabled = false)
    (ht : ∀ h m k, t = some (h, m) → m k = none) : Synced cache hdl t := by
  refine ⟨fun e he hen => ?_, ?_, fun h m k rule heq hk => ?_, fun e he hen => ?_⟩
  · simp [hq e he] at hen
  · refine pairwise_of_forall_mem_list fun e he e' _ hen => ?_
    simp [hq e he] at hen
  · rw [ht h m k heq] at hk
    simp at hk
  · simp [hq e he] at hen

theorem Synced.quiet (h : Synced cache hdl t) (hq : ∀ e ∈ cache, e.enabled = false) :
    ∀ h m k, t = some (h, m) → m k = none := by
  intro hdl m k heq
  by_contra hk
  obtain ⟨rule, hk⟩ := ne_none_iff_exists'.mp hk
  obtain ⟨-, e, he, hen, -⟩ := h.owned hdl m k rule heq hk
  simp [hq e he] at hen

theorem Synced.idle (h : Synced (l1 ++ e :: l2) hdl t) (he : e.enabled = false)
    (he' : e'.enabled = false) : Synced (l1 ++ e' :: l2) hdl t := by
  have hold : ∀ x ∈ l1 ++ e' :: l2, x.enabled = true → x ∈ l1 ++ e :: l2 := fun x hx hen => by
    rcases mem_replace hx with rfl | hx
    · simp [he'] at hen
    · exact mem_of_others hx
  refine ⟨fun x hx hen => h.live x (hold x hx hen) hen, ?_, fun h' m k rule heq hk => ?_,
    fun x hx hen => h.occupied x (hold x hx hen) hen⟩
  · refine pairwise_replace h.distinct (fun x _ _ hen => ?_) fun y _ hen => ?_ <;> simp [he'] at hen
  obtain ⟨hk0, x, hx, hen, hxk⟩ := h.owned h' m k rule heq hk
  rcases mem_replace hx with rfl | hx
  · simp [he] at hen
  · exact ⟨hk0, x, mem_of_others hx, hen, hxk⟩

theorem Synced.rule_of (h : Synced cache hdl (some (hdl, m))) (he : e ∈ cache)
    (hen : e.enabled) : m e.ruleHdl = some e.natRule := by
  obtain ⟨_, heq, hrule⟩ := h.live e he hen
  obtain ⟨-, rfl⟩ := Prod.mk.inj (some.inj heq)
  exact hrule

theorem Synced.install (h : Synced (l1 ++ e :: l2) hdl (some (hdl, m))) (he : e.enabled = false)
    (hk : m k = none) (hk0 : k ≠ 0) (hfree : e'.isFree = false) (hen' : e'.enabled) (he' : e'.ruleHdl = k) :
    Synced (l1 ++ e' :: l2) hdl (some (hdl, update m k (some e'.natRule))) := by
  have hne : ∀ x ∈ l1 ++ l2, x.enabled = true → x.ruleHdl ≠ k := fun x hx hen hxk => by
    have hrule := h.rule_of (mem_of_others hx) hen
    rw [hxk, hk] at hrule
    simp at hrule
  refine ⟨fun x hx hen => ⟨_, rfl, ?_⟩, ?_, fun h' m' k' rule heq hk' => ?_, fun x hx hen => ?_⟩
  · rcases mem_replace hx with rfl | hx
    · rw [he', update_self]
    · rw [update_of_ne (hne x hx hen), h.rule_of (mem_of_others hx) hen]
  · refine pairwise_replace h.distinct (fun x hx hen _ => ?_) fun y hy _ hen => ?_
    · rw [he']
      exact hne x (mem_append_left _ hx) hen
    · rw [he']
      exact (hne y (mem_append_right _ hy) hen).symm
  · obtain ⟨-, rfl⟩ := Prod.mk.inj (some.inj heq)
    by_cases hkk : k' = k
    · exact ⟨hkk ▸ hk0, e', by simp, hen', he'.trans hkk.symm⟩
    rw [update_of_ne hkk] at hk'
    obtain ⟨hk0', x, hx, hen, hxk⟩ := h.owned hdl m k' rule rfl hk'
    rcases mem_replace hx with rfl | hx
    · simp [he] at hen
    · exact ⟨hk0', x, mem_of_others hx, hen, hxk⟩
  · rcases mem_replace hx with rfl | hx
    · exact hfree
    · exact h.occupied x (mem_of_others hx) hen

theorem Synced.withdraw (h : Synced (l1 ++ e :: l2) hdl (some (hdl, m))) (he : e.enabled) (he' : e'.enabled = false) :
    Synced (l1 ++ e' :: l2) hdl (some (hdl, update m e.ruleHdl none)) := by
  have hd := h.distinct
  simp only [pairwise_append, pairwise_cons, mem_cons] at hd
  obtain ⟨-, ⟨hl2, -⟩, hcross⟩ := hd
  have hne : ∀ x ∈ l1 ++ l2, x.enabled = true → x.ruleHdl ≠ e.ruleHdl := fun x hx hen => by
    rcases mem_append.mp hx with hx | hx
    · exact hcross x hx e (.inl rfl) hen he
    · exact (hl2 x hx he hen).symm
  have hold : ∀ x ∈ l1 ++ e' :: l2, x.enabled = true → x ∈ l1 ++ l2 := fun x hx hen => by
    rcases mem_replace hx with rfl | hx
    · simp [he'] at hen
    · exact hx
  refine ⟨fun x hx hen => ⟨_, rfl, ?_⟩, ?_, fun h' m' k' rule heq hk' => ?_, fun x hx hen => ?_⟩
  · have hx' := hold x hx hen
    rw [update_of_ne (hne x hx' hen), h.rule_of (mem_of_others hx') hen]
  · refine pairwise_replace h.distinct (fun x _ _ hen => ?_) fun y _ hen => ?_ <;> simp [he'] at hen
  · obtain ⟨-, rfl⟩ := Prod.mk.inj (some.inj heq)
    by_cases hkk : k' = e.ruleHdl
    · simp [hkk] at hk'
    rw [update_of_ne hkk] at hk'
    obtain ⟨hk0', x, hx, hen, hxk⟩ := h.owned hdl m k' rule rfl hk'
    rcases mem_replace hx with rfl | hx
    · exact absurd hxk.symm hkk
    · exact ⟨hk0', x, mem_of_others hx, hen, hxk⟩
  · exact h.occupied x (mem_of_others (hold x hx hen)) hen

end

/-! ### The operations -/

/-- The cache agrees with the driver's table. -/
def AppState.Synced {σ : Type} (tbl : σ → Option DrvTable) (s : AppState σ) : Prop :=
  s.Has fun t cache => Ipacm.Synced cache s.app.natTableHdl (tbl t.drv)

/-- `AddTable()`, and a `DeleteTable()` that goes through, find no slot
enabled. -/
def AppOp.Quiet {σ : Type} (d : NatDriver σ) (s : AppState σ) : AppOp → Prop
  | .addTable _ => ∀ e ∈ s.app.cache, e.enabled = false
  | .deleteTable pubIp => s.app.natTableHdl ≠ 0 → s.app.pubIpAddr = pubIp →
      (d.delIpv4Tbl s.app.natTableHdl s.drv).1 = 0 → ∀ e ∈ s.app.cache, e.enabled = false
  | _ => True

section

variable {σ : Type} {d : NatDriver σ} {tbl : σ → Option DrvTable} (hmap : IsMap d tbl)
variable {s s' : AppState σ} {hdl h : UInt32} {t : LoopState σ} {e rule : NatTableEntry}
variable {l1 l2 : List NatTableEntry}

theorem AppState.synced_of (hhdl : s'.app.natTableHdl = s.app.natTableHdl)
    (h : s'.Has fun t cache => Ipacm.Synced cache s.app.natTableHdl (tbl t.drv)) : s'.Synced tbl := by
  unfold AppState.Synced
  rwa [hhdl]

theorem Synced.free_idle {slot : NatTableEntry} {cache : List NatTableEntry}
    {t : Option DrvTable} (hs : Synced cache hdl t) (hslot : slot ∈ cache)
    (hfree : slot.isFree) : slot.enabled = false := by
  by_contra hen
  have hocc := hs.occupied slot hslot (by simpa using hen)
  simp [hfree] at hocc

theorem fillSlot_synced {slot : NatTableEntry} (hs : s.Synced tbl)
    (hl : s.app.cache = l1 ++ slot :: l2) (hfree : slot.isFree) :
    Synced (l1 ++ fillSlot rule false 0 slot :: l2) s.app.natTableHdl (tbl s.drv) := by
  have hb : Synced (l1 ++ slot :: l2) s.app.natTableHdl (tbl s.drv) := hl ▸ hs
  exact hb.idle (hb.free_idle (by simp) hfree) rfl

include hmap

theorem reinstall_synced (hb : Synced (l1 ++ e :: l2) hdl (tbl t.drv)) (he : e.enabled = false)
    (hf : e.isFree = false) : Synced (l1 ++ (reinstall d hdl t e).2 :: l2) hdl (tbl (reinstall d hdl t e).1.drv) := by
  unfold reinstall
  rcases hadd : d.addIpv4Rule hdl e.natRule t.drv with ⟨_, _, _⟩
  dsimp only
  split
  · rename_i hret
    rw [(hmap.addRule_err hadd hret).1]
    exact hb.idle he rfl
  rename_i hret
  obtain ⟨m, k, ht, rfl, hk0, hk, ht'⟩ := hmap.addRule_ok hadd (Int.not_lt.mp hret)
  rw [ht] at hb
  rw [ht']
  exact hb.install he hk hk0 hf rfl rfl

theorem delIpv4Rule_synced {ret : ℤ} {drv drv0 : σ} (hb : Synced (l1 ++ e :: l2) hdl (tbl drv0))
    (he : e.enabled) (hdel : d.delIpv4Rule hdl e.ruleHdl drv0 = (ret, drv)) :
    0 ≤ ret ∧ ∀ e', e'.enabled = false → Synced (l1 ++ e' :: l2) hdl (tbl drv) := by
  obtain ⟨m, ht, hrule⟩ := hb.live e (by simp) he
  obtain ⟨hret, ht'⟩ := hmap.delRule ht (by simp [hrule]) hdel
  rw [ht] at hb
  rw [ht']
  exact ⟨hret, fun e' he' => hb.withdraw he he'⟩

theorem withdraw_synced (hb : Synced (l1 ++ e :: l2) hdl (tbl t.drv)) (he : e.enabled) :
    Synced (l1 ++ (withdraw d hdl h t e).2 :: l2) hdl (tbl (withdraw d hdl h t e).1.drv) := by
  unfold withdraw
  rcases hdel : d.delIpv4Rule hdl e.ruleHdl t.drv with ⟨_, _⟩
  obtain ⟨hret, hb'⟩ := delIpv4Rule_synced hmap hb he hdel
  dsimp only
  rw [if_neg (Int.not_lt.mpr hret)]
  exact hb' _ rfl

theorem evict_synced (hb : Synced (l1 ++ e :: l2) hdl (tbl t.drv)) :
    Synced (l1 ++ (evict d hdl t e).2 :: l2) hdl (tbl (evict d hdl t e).1.drv) := by
  unfold evict
  cases he : e.enabled with
  | true =>
    rcases hdel : d.delIpv4Rule hdl e.ruleHdl t.drv with ⟨_, _⟩
    obtain ⟨hret, hb'⟩ := delIpv4Rule_synced hmap hb he hdel
    dsimp only
    rw [if_pos rfl, if_neg (Int.not_lt.mpr hret)]
    exact hb' _ rfl
  | false => exact hb.idle he rfl

theorem addTable_synced (hs : s.Synced tbl) (pubIp : UInt32)
    (hq : ∀ e ∈ s.app.cache, e.enabled = false) : (addTable d pubIp s).2.Synced tbl := by
  rcases hadd : d.addIpv4Tbl pubIp (UInt16.ofNat s.app.maxEntries) s.drv with ⟨ret, hdl, drv⟩
  have hempty : ∀ h m k, tbl drv = some (h, m) → m k = none := by
    rcases eq_or_ne ret 0 with rfl | hret
    · obtain ⟨_, rfl, ht⟩ := hmap.addTbl_ok hadd
      intro h m k heq
      rw [ht] at heq
      obtain ⟨-, rfl⟩ := Prod.mk.inj (some.inj heq)
      rfl
    · rw [hmap.addTbl_err hadd hret]
      exact Synced.quiet hs hq
  obtain ⟨_, hhdl⟩ := addTable_rule
    (P := fun t l => Synced l (hdl.getD s.app.natTableHdl) (tbl t.drv)) hadd
    (Synced.of_quiet hq hempty) hq fun _ t l1 e l2 he hf hb => reinstall_synced hmap hb he hf
  unfold AppState.Synced
  rwa [hhdl]

theorem deleteTable_synced (hs : s.Synced tbl) (pubIp : UInt32)
    (hq : s.app.natTableHdl ≠ 0 → s.app.pubIpAddr = pubIp →
      (d.delIpv4Tbl s.app.natTableHdl s.drv).1 = 0 → ∀ e ∈ s.app.cache, e.enabled = false) :
    (deleteTable d pubIp s).2.Synced tbl := by
  unfold deleteTable
  split
  · exact hs
  rename_i hhdl
  split
  · exact hs
  rename_i hip
  have hquiet := hq hhdl (not_not.mp hip)
  rcases hdel : d.delIpv4Tbl s.app.natTableHdl s.drv with ⟨_, drv⟩
  rw [hdel] at hquiet
  dsimp only
  split
  · rename_i hret
    have hs' : Synced s.app.cache s.app.natTableHdl (tbl drv) := by
      rw [hmap.delTbl_err hdel hret]
      exact hs
    exact hs'
  rename_i hret
  refine Synced.of_quiet (hquiet (not_not.mp hret)) fun h m k heq => ?_
  rw [not_not.mp hret] at hdel
  have ht : tbl drv = none := hmap.delTbl_ok hdel
  have heq' : tbl drv = some (h, m) := heq
  rw [ht] at heq'
  simp at heq'

theorem deleteEntry_synced (hs : s.Synced tbl) (rule : NatTableEntry) : (deleteEntry d rule s).2.Synced tbl := by
  refine AppState.synced_of deleteEntry_hdl (deleteEntry_rule hs fun l1 e l2 hl _ => ?_)
  have hb : Synced (l1 ++ e :: l2) s.app.natTableHdl (tbl s.drv) := hl ▸ hs
  cases he : e.enabled with
  | true => exact (delIpv4Rule_synced hmap hb he rfl).2 _ rfl
  | false => exact hb.idle he rfl

theorem addEntry_synced (hs : s.Synced tbl) (rule : NatTableEntry) : (addEntry d rule s).2.Synced tbl := by
  refine AppState.synced_of addEntry_hdl (addEntry_rule hs
    (fun l1 slot l2 _ _ hl hfree => fillSlot_synced hs hl hfree)
    (fun l1 slot l2 ret ruleHdl drv _ hadd hret hl hfree => ?_)
    (fun l1 slot l2 ret ruleHdl drv hvalid _ hadd hret hl hfree => ?_))
  · have hb : Synced (l1 ++ slot :: l2) s.app.natTableHdl (tbl s.drv) := hl ▸ hs
    have hidle := hb.free_idle (by simp) hfree
    rw [(hmap.addRule_err hadd hret).1]
    exact hb.idle hidle hidle
  have hb : Synced (l1 ++ slot :: l2) s.app.natTableHdl (tbl s.drv) := hl ▸ hs
  have hidle := hb.free_idle (by simp) hfree
  obtain ⟨m, k, ht, rfl, hk0, hk, ht'⟩ := hmap.addRule_ok hadd hret
  rw [ht] at hb
  rw [ht']
  exact hb.install hidle hk hk0 (isFree_of_valid hvalid) rfl rfl

theorem AppOp.synced {op : AppOp} (hs : s.Synced tbl) (hop : op.Quiet d s) : (op.run d s).Synced tbl := by
  cases op with
  | addTable ip => exact addTable_synced hmap hs ip hop
  | deleteTable ip => exact deleteTable_synced hmap hs ip hop
  | addEntry rule => exact addEntry_synced hmap hs rule
  | deleteEntry rule => exact deleteEntry_synced hmap hs rule
  | cacheEntry =>
    exact AppState.synced_of cacheEntry_hdl (cacheEntry_rule hs
      fun l1 slot l2 _ _ hl hfree => fillSlot_synced hs hl hfree)
  | updatePwrSaveIf =>
    exact AppState.synced_of updatePwrSaveIf_hdl (updatePwrSaveIf_rule hs
      fun t l1 e l2 _ he hb => withdraw_synced hmap hb he)
  | resetPwrSaveIf =>
    exact AppState.synced_of resetPwrSaveIf_hdl (resetPwrSaveIf_rule (Q := fun _ => True) hs (fun _ _ => trivial)
      fun t l1 e l2 _ _ hf he hb => reinstall_synced hmap hb he hf)
  | delEntriesOnClntDiscon =>
    exact AppState.synced_of delEntriesOnClntDiscon_hdl
      (delEntriesOnClntDiscon_rule (Q := fun _ => True) hs (fun _ _ => trivial)
        fun t l1 e l2 _ _ he hb => withdraw_synced hmap hb he)
  | delEntriesOnSTAClntDiscon =>
    exact AppState.synced_of delEntriesOnSTAClntDiscon_hdl (delEntriesOnSTAClntDiscon_rule hs
      fun t l1 e l2 _ _ hb => evict_synced hmap hb)
  | addTempEntry => exact addTempEntry_rule hs fun _ _ hs => hs
  | deleteTempEntry => exact deleteTempEntry_rule hs fun _ _ hs => hs
  | flushTempEntries =>
    exact flushTempEntries_rule (Q := fun _ => True) hs (fun _ _ => trivial) (fun _ _ hs => hs)
      fun _ e _ hs => addEntry_synced hmap hs e

end

/-! ### Stale handles -/

/-- A slot that is not enabled keeps no handle. -/
def NoStale (cache : List NatTableEntry) : Prop := ∀ e ∈ cache, e.enabled = false → e.ruleHdl = 0

/-- `DelEntriesOnClntDiscon()`, which leaves the handle in the slot, finds no
slot of the client enabled. -/
def AppOp.Tidy {σ : Type} (s : AppState σ) : AppOp → Prop
  | .delEntriesOnClntDiscon ip => ∀ e ∈ s.app.cache, e.privateIp = ip → e.enabled = false
  | _ => True

section

variable {σ : Type} {d : NatDriver σ} {tbl : σ → Option DrvTable}
variable {s : AppState σ} {hdl : UInt32} {t : LoopState σ} {e e' : NatTableEntry}
variable {l1 l2 : List NatTableEntry}

section

variable (h : NoStale (l1 ++ e :: l2))
include h

theorem NoStale.replace (he' : e'.enabled = false → e'.ruleHdl = 0) : NoStale (l1 ++ e' :: l2) := by
  intro x hx hen
  rcases mem_replace hx with rfl | hx
  · exact he' hen
  · exact h x (mem_of_others hx) hen

theorem reinstall_noStale : NoStale (l1 ++ (reinstall d hdl t e).2 :: l2) := by
  refine h.replace ?_
  unfold reinstall
  dsimp only
  split
  · exact fun _ => rfl
  · simp

theorem withdraw_noStale : NoStale (l1 ++ (withdraw d hdl 0 t e).2 :: l2) := by
  refine h.replace ?_
  unfold withdraw
  dsimp only
  split
  · exact h e (by simp)
  · simp

theorem evict_noStale : NoStale (l1 ++ (evict d hdl t e).2 :: l2) := by
  refine h.replace ?_
  unfold evict
  dsimp only
  split
  · split
    · exact h e (by simp)
    · exact fun _ => rfl
  · exact fun _ => rfl

end

theorem addEntry_noStale (hmap : IsMap d tbl) (hs : NoStale s.app.cache) (rule : NatTableEntry) :
    NoStale (addEntry d rule s).2.app.cache := by
  refine addEntry_rule (P := fun _ cache => NoStale cache) hs
    (fun l1 slot l2 _ _ hl _ => (hl ▸ hs).replace fun _ => rfl)
    (fun l1 slot l2 ret ruleHdl drv _ hadd hret hl _ => ?_)
    (fun l1 slot l2 ret ruleHdl drv _ _ _ _ hl _ => (hl ▸ hs).replace (by simp [fillSlot]))
  have hs' : NoStale (l1 ++ slot :: l2) := hl ▸ hs
  refine hs'.replace fun hen => ?_
  rcases (hmap.addRule_err hadd hret).2 with rfl | rfl
  · exact hs' slot (by simp) hen
  · rfl

theorem AppOp.noStale (hmap : IsMap d tbl) {op : AppOp} (hs : NoStale s.app.cache)
    (hop : op.Tidy s) : NoStale (op.run d s).app.cache := by
  cases op with
  | addTable =>
    exact (addTable_rule (P := fun _ cache => NoStale cache) (Q := fun _ => True) rfl hs
      (fun _ _ => trivial) fun _ t l1 e l2 _ _ hb => reinstall_noStale hb).1
  | deleteTable ip =>
    have heq : (AppOp.run d s (.deleteTable ip)).app.cache = s.app.cache := deleteTable_frame.1
    rwa [heq]
  | addEntry rule => exact addEntry_noStale hmap hs rule
  | deleteEntry =>
    exact deleteEntry_rule (P := fun _ cache => NoStale cache) hs fun l1 e l2 hl _ => (hl ▸ hs).replace fun _ => rfl
  | cacheEntry =>
    exact cacheEntry_rule (P := fun _ cache => NoStale cache) hs
      fun l1 slot l2 _ _ hl _ => (hl ▸ hs).replace fun _ => rfl
  | updatePwrSaveIf =>
    exact updatePwrSaveIf_rule (P := fun _ cache => NoStale cache) hs fun t l1 e l2 _ _ hb => withdraw_noStale hb
  | resetPwrSaveIf =>
    exact resetPwrSaveIf_rule (P := fun _ cache => NoStale cache) (Q := fun _ => True) hs
      (fun _ _ => trivial) fun t l1 e l2 _ _ _ _ hb => reinstall_noStale hb
  | delEntriesOnClntDiscon =>
    refine delEntriesOnClntDiscon_rule (P := fun _ cache => NoStale cache) hs hop fun t l1 e l2 hq hip hen _ => ?_
    simp [hq hip] at hen
  | delEntriesOnSTAClntDiscon =>
    exact delEntriesOnSTAClntDiscon_rule (P := fun _ cache => NoStale cache) hs
      fun t l1 e l2 _ _ hb => evict_noStale hb
  | addTempEntry =>
    exact addTempEntry_rule (I := fun s => NoStale s.app.cache) hs fun _ _ hs => hs
  | deleteTempEntry =>
    exact deleteTempEntry_rule (I := fun s => NoStale s.app.cache) hs fun _ _ hs => hs
  | flushTempEntries =>
    exact flushTempEntries_rule (I := fun s => NoStale s.app.cache) (Q := fun _ => True) hs
      (fun _ _ => trivial) (fun _ _ hs => hs) fun _ e _ hs => addEntry_noStale hmap hs e

end

/-! ### A driver that is a map -/

/-- The table of `mapDriver`. -/
def mapTbl : Option (UInt32 → Option IpaNatIpv4Rule) → Option DrvTable := Option.map fun m => (1, m)

theorem mapDriver_isMap : IsMap mapDriver mapTbl where
  addTbl_ok := fun {_ _ s _ _} heq => by
    cases s with
    | none =>
      simp only [mapDriver, isSome_none, Bool.false_eq_true, if_false, Prod.mk.injEq] at heq
      obtain ⟨-, rfl, rfl⟩ := heq
      exact ⟨1, rfl, rfl⟩
    | some => simp [mapDriver] at heq
  addTbl_err := fun {_ _ s _ _ _} heq hret => by
    cases s with
    | none => exact absurd (congrArg Prod.fst heq).symm hret
    | some => exact congrArg (fun r => mapTbl r.2.2) heq.symm
  delTbl_ok := fun {hdl s _} heq => by
    by_cases hcond : hdl = 1 ∧ s.isSome
    · have hs' := congrArg Prod.snd heq
      simp only [mapDriver, if_pos hcond] at hs'
      rw [← hs']
      rfl
    · simp [mapDriver, if_neg hcond] at heq
  delTbl_err := fun {hdl s _ _} heq hret => by
    by_cases hcond : hdl = 1 ∧ s.isSome
    · simp only [mapDriver, if_pos hcond, Prod.mk.injEq] at heq
      exact absurd heq.1.symm hret
    · simp only [mapDriver, if_neg hcond, Prod.mk.injEq] at heq
      rw [heq.2]
  addRule_ok := fun {hdl rule s ret h s'} heq hret => by
    unfold mapDriver at heq
    dsimp only at heq
    split at heq
    · simp only [Prod.mk.injEq] at heq
      omega
    rename_i m
    split at heq
    · simp only [Prod.mk.injEq] at heq
      omega
    rename_i i hfind
    have htest := find?_some hfind
    obtain ⟨rfl, hnone⟩ := of_decide_eq_true htest
    have hi : i < 64 := mem_range.mp (mem_of_find?_eq_some hfind)
    simp only [Prod.mk.injEq] at heq
    obtain ⟨-, rfl, rfl⟩ := heq
    refine ⟨m, _, rfl, rfl, fun hzero => ?_, isNone_iff_eq_none.mp hnone, rfl⟩
    have hnat := congrArg UInt32.toNat hzero
    rw [UInt32.toNat_ofNat_of_lt' ((Nat.succ_le_of_lt hi).trans_lt (by decide))] at hnat
    exact Nat.succ_ne_zero i hnat
  addRule_err := fun {hdl rule s ret h s'} heq hret => by
    unfold mapDriver at heq
    dsimp only at heq
    split at heq
    · simp only [Prod.mk.injEq] at heq
      exact ⟨by rw [heq.2.2], Or.inl heq.2.1.symm⟩
    split at heq
    · simp only [Prod.mk.injEq] at heq
      exact ⟨by rw [heq.2.2], Or.inl heq.2.1.symm⟩
    · simp only [Prod.mk.injEq] at heq
      omega
  delRule := fun {hdl m k s ret s'} ht hk heq => by
    cases s with
    | none => simp [mapTbl] at ht
    | some m' =>
      obtain ⟨rfl, rfl⟩ := Prod.mk.inj (some.inj ht)
      have hsome : (m' k).isSome = true := isSome_iff_ne_none.mpr hk
      simp only [mapDriver, hsome, and_self, if_true, Prod.mk.injEq] at heq
      obtain ⟨rfl, rfl⟩ := heq
      exact ⟨le_rfl, rfl⟩

/-! ### Runs -/

/-- The connection of a rule. -/
def NatTuple.ofRule (rule : IpaNatIpv4Rule) : NatTuple :=
  ⟨rule.privateIp, rule.targetIp, rule.privatePort, rule.targetPort, rule.protocol⟩

/-- The cache and the driver's table agree.  A slot is enabled if and only if
its handle is that of a live rule with the tuple of the slot. -/
structure CacheAgrees (cache : List NatTableEntry) (t : Option DrvTable) : Prop where
  enabled_iff : ∀ e ∈ cache, e.enabled = true ↔
    ∃ hdl m rule, t = some (hdl, m) ∧ m e.ruleHdl = some rule ∧ NatTuple.ofRule rule = e.tuple
  rule : ∀ e ∈ cache, e.enabled = true → ∃ hdl m, t = some (hdl, m) ∧
    m e.ruleHdl = some e.natRule
  distinct : cache.Pairwise fun e e' =>
    e.enabled = true → e'.enabled = true → e.ruleHdl ≠ e'.ruleHdl
  owned : ∀ hdl m k rule, t = some (hdl, m) → m k = some rule →
    ∃ e ∈ cache, e.enabled = true ∧ e.ruleHdl = k
  noTable : t = none → ∀ e ∈ cache, e.enabled = false

/-- A slot is enabled if and only if its handle is that of a live rule, whatever
the rule. -/
def HandlesExact (cache : List NatTableEntry) (t : Option DrvTable) : Prop :=
  ∀ e ∈ cache, e.enabled = true ↔ ∃ hdl m, t = some (hdl, m) ∧ m e.ruleHdl ≠ none

section

variable {cache : List NatTableEntry} {n : ℤ} {hdl : UInt32} {t : Option DrvTable}

theorem Synced.agrees (hs : Synced cache hdl t) (hb : Booked cache n) : CacheAgrees cache t := by
  refine ⟨fun e he => ⟨fun hen => ?_, ?_⟩, fun e he hen => ?_, hs.distinct,
    fun h m k rule ht hk => (hs.owned h m k rule ht hk).2, fun ht e he => ?_⟩
  · obtain ⟨m, ht, hrule⟩ := hs.live e he hen
    exact ⟨hdl, m, _, ht, hrule, rfl⟩
  · rintro ⟨h, m, rule, ht, hrule, htuple⟩
    -- the rule belongs to an enabled slot with the same tuple
    obtain ⟨-, e', he', hen', hhdl⟩ := hs.owned h m _ rule ht hrule
    obtain ⟨_, ht', hrule'⟩ := hs.live e' he' hen'
    rw [ht] at ht'
    obtain ⟨-, rfl⟩ := Prod.mk.inj (some.inj ht')
    rw [hhdl, hrule] at hrule'
    have heq : rule = e'.natRule := some.inj hrule'
    subst heq
    have hsame : e' = e := hb.eq_of_tuple he' he (hs.occupied e' he' hen') htuple
    rwa [← hsame]
  · obtain ⟨m, ht, hrule⟩ := hs.live e he hen
    exact ⟨hdl, m, ht, hrule⟩
  · by_contra hen
    obtain ⟨m, ht', -⟩ := hs.live e he (by simpa using hen)
    simp [ht] at ht'

theorem Synced.exact (hs : Synced cache hdl t) (hst : NoStale cache) : HandlesExact cache t := by
  refine fun e he => ⟨fun hen => ?_, ?_⟩
  · obtain ⟨m, ht, hrule⟩ := hs.live e he hen
    exact ⟨hdl, m, ht, by simp [hrule]⟩
  rintro ⟨h, m, ht, hlive⟩
  obtain ⟨rule, hrule⟩ := ne_none_iff_exists'.mp hlive
  by_contra hen
  -- a handle of a live rule is not zero
  have hzero := hst e he (by simpa using hen)
  exact (hs.owned h m _ rule ht hrule).1 hzero

end

section

variable {σ : Type} {d : NatDriver σ} {tbl : σ → Option DrvTable} {s₀ s : AppState σ}

theorem FreshApp.idle (hfresh : FreshApp s.app) : ∀ e ∈ s.app.cache, e.enabled = false ∧ e.ruleHdl = 0 := by
  obtain ⟨n, _, _, _, heq⟩ := hfresh
  rw [heq]
  intro e he
  rw [eq_of_mem_replicate he]
  exact ⟨rfl, rfl⟩

theorem AppReach.synced {ok : AppState σ → AppOp → Prop} (hmap : IsMap d tbl)
    (hok : ∀ s op, ok s op → op.Quiet d s) (hfresh : FreshApp s₀.app) (hnone : tbl s₀.drv = none)
    (h : AppReach d ok s₀ s) : s.Synced tbl := by
  induction h with
  | start =>
    refine Synced.of_quiet (fun e he => (hfresh.idle e he).1) fun h m k heq => ?_
    rw [hnone] at heq
    simp at heq
  | step _ _ hop ih => exact AppOp.synced hmap ih (hok _ _ hop)

theorem AppReach.noStale {ok : AppState σ → AppOp → Prop} (hmap : IsMap d tbl)
    (hok : ∀ s op, ok s op → op.Tidy s) (hfresh : FreshApp s₀.app) (h : AppReach d ok s₀ s) : NoStale s.app.cache := by
  induction h with
  | start => exact fun e he _ => (hfresh.idle e he).2
  | step _ _ hop ih => exact AppOp.noStale hmap ih (hok _ _ hop)

/-- **The cache and the driver agree** in every state of the runs that come to
`AddTable()`, and to a `DeleteTable()` that goes through, with no slot enabled.
Where besides `DelEntriesOnClntDiscon()` finds no slot of its client enabled, no
other slot has the handle of a live rule. -/
theorem natApp_driver_agree (hmap : IsMap d tbl) (hfresh : FreshApp s₀.app) (hnone : tbl s₀.drv = none) :
    (AppReach d (fun s op => op.TcpUdp ∧ op.Quiet d s) s₀ s → CacheAgrees s.app.cache (tbl s.drv)) ∧
    (AppReach d (fun s op => op.TcpUdp ∧ op.Quiet d s ∧ op.Tidy s) s₀ s →
      CacheAgrees s.app.cache (tbl s.drv) ∧ HandlesExact s.app.cache (tbl s.drv)) := by
  refine ⟨fun h => ?_, fun h => ?_⟩
  · have hb := h.booked (fun _ _ hop => hop.1) hfresh
    exact Synced.agrees (h.synced hmap (fun _ _ hop => hop.2) hfresh hnone) hb
  · have hb := h.booked (fun _ _ hop => hop.1) hfresh
    have hs := h.synced hmap (fun _ _ hop => hop.2.1) hfresh hnone
    exact ⟨Synced.agrees hs hb, Synced.exact hs (h.noStale hmap (fun _ _ hop => hop.2.2) hfresh)⟩

end

theorem natApp_driver_agree_sample :
    ∃ s, AppReach mapDriver (fun s op => op.TcpUdp ∧ op.Quiet mapDriver s ∧ op.Tidy s) sampleApp s ∧
      (∃ e ∈ s.app.cache, e.enabled) ∧ CacheAgrees s.app.cache (mapTbl s.drv) ∧
      HandlesExact s.app.cache (mapTbl s.drv) := by
  have h1 : AppReach mapDriver (fun s op => op.TcpUdp ∧ op.Quiet mapDriver s ∧ op.Tidy s) sampleApp _ :=
    AppReach.start.step (.addTable 0x0A000001) ⟨trivial, by unfold AppOp.Quiet; decide, trivial⟩
  have h2 := h1.step (.addEntry sampleConn) ⟨Or.inl rfl, trivial, trivial⟩
  refine ⟨_, h2, by decide, ?_⟩
  exact (natApp_driver_agree mapDriver_isMap sampleApp_fresh rfl).2 h2

def sampleConn' : NatTableEntry := { sampleConn with privateIp := 0xC0A80103 }

/-- `DeleteTable()` with a rule in the table leaves an enabled slot without a
table.  `DelEntriesOnClntDiscon()` leaves a handle that the driver gives to
another connection. -/
theorem natApp_driver_disagree : IsMap mapDriver mapTbl ∧ FreshApp sampleApp.app ∧ mapTbl sampleApp.drv = none ∧
    (∃ s, AppReach mapDriver (fun _ op => op.TcpUdp) sampleApp s ∧ mapTbl s.drv = none ∧
      ∃ e ∈ s.app.cache, e.enabled) ∧
    (∃ s, AppReach mapDriver (fun _ op => op.TcpUdp) sampleApp s ∧ ∃ e ∈ s.app.cache, e.enabled = false ∧
        ∃ hdl m, mapTbl s.drv = some (hdl, m) ∧ m e.ruleHdl ≠ none) := by
  have h1 : AppReach mapDriver (fun _ op => op.TcpUdp) sampleApp _ :=
    AppReach.start.step (.addTable 0x0A000001) trivial
  have h2 := h1.step (.addEntry sampleConn) (.inl rfl)
  have h3 := h2.step (.deleteTable 0x0A000001) trivial
  have h4 := (h2.step (.delEntriesOnClntDiscon 0xC0A80102) trivial).step (.addEntry sampleConn') (.inl rfl)
  refine ⟨mapDriver_isMap, sampleApp_fresh, rfl, ⟨_, h3, rfl, by decide⟩, _, h4,
    { sampleConn with ruleHdl := 1 }, by decide, rfl, 1, _, rfl, ?_⟩
  exact ne_of_apply_ne isSome (by decide)

end G4Common.Ipacm

/-
Clients in power save.

From `UpdatePwrSaveIf()` on, until `ResetPwrSaveIf()` or
`DelEntriesOnClntDiscon()`, a client should have no rule in the driver.  The
list of these clients is kept along a run (`SleepReach`), beside the table
`PwrSaveIfs` that the code has.

Three facts carry it.  Every rule in the driver belongs to an enabled slot of
the cache (`Owned`; the converse fails once a table has been deleted, see
`NatSync`).  No enabled slot belongs to a client that sleeps (`Awake`).  And the
table `PwrSaveIfs` holds the clients that sleep (`SlotSet`).

`AddEntry()` looks at `PwrSaveIfs` and `AddTable()` does not: when the table
comes back with the same public address it installs a rule for every connection
in the cache, those of sleeping clients too.
-/
import G4Common.Ipacm.NatSync

namespace G4Common.Ipacm

open List Function Option

open IpaNat (IpaNatIpv4Rule)

/-! ### The invariant -/

/-- Deletions of rules succeed. -/
def DeletesSucceed {σ : Type} (d : NatDriver σ) (tbl : σ → Option DrvTable) : Prop :=
  ∀ {hdl k s ret s'}, d.delIpv4Rule hdl k s = (ret, s') →
    0 ≤ ret ∧ tbl s' = (tbl s).map fun t => (t.1, update t.2 k none)

/-- Every rule of the driver belongs to an enabled slot. -/
def Owned (cache : List NatTableEntry) (t : Option DrvTable) : Prop :=
  ∀ h m k rule, t = some (h, m) → m k = some rule →
    ∃ e ∈ cache, e.enabled = true ∧ e.ruleHdl = k ∧ e.natRule = rule

/-- No enabled slot belongs to a client of `S`, or to none. -/
def Awake (S : Finset UInt32) (cache : List NatTableEntry) : Prop :=
  ∀ e ∈ cache, e.enabled = true → e.privateIp ≠ 0 ∧ e.privateIp ∉ S

section

variable {e e' : NatTableEntry} {l1 l2 cache : List NatTableEntry} {hdl k : UInt32}
variable {t : Option DrvTable} {m : UInt32 → Option IpaNatIpv4Rule} {S S' : Finset UInt32}

theorem Owned.none : Owned cache none := by
  intro h m k _ heq
  simp at heq

theorem Owned.fresh : Owned cache (some (hdl, fun _ => Option.none)) := by
  intro h m k _ heq hk
  obtain ⟨-, rfl⟩ := Prod.mk.inj (some.inj heq)
  simp at hk

theorem Owned.idle (h : Owned (l1 ++ e :: l2) t) (he : e.enabled = false) : Owned (l1 ++ e' :: l2) t := by
  intro hdl m k rule heq hk
  obtain ⟨x, hx, hen, hxk, hrule⟩ := h hdl m k rule heq hk
  rcases mem_replace hx with rfl | hx
  · simp [he] at hen
  · exact ⟨x, mem_of_others hx, hen, hxk, hrule⟩

theorem Owned.install (h : Owned cache (some (hdl, m))) (hold : ∀ x ∈ cache, x.enabled →
      x ∈ l1 ++ l2) (hen' : e'.enabled) (he' : e'.ruleHdl = k) :
    Owned (l1 ++ e' :: l2) (some (hdl, update m k (some e'.natRule))) := by
  intro _ _ k' rule heq hk'
  obtain ⟨-, rfl⟩ := Prod.mk.inj (some.inj heq)
  by_cases hkk : k' = k
  · subst hkk
    rw [update_self] at hk'
    exact ⟨e', by simp, hen', he', some.inj hk'⟩
  · rw [update_of_ne hkk] at hk'
    obtain ⟨x, hx, hen, hxk, hrule⟩ := h hdl m k' rule rfl hk'
    exact ⟨x, mem_of_others (hold x hx hen), hen, hxk, hrule⟩

theorem Owned.delete (h : Owned (l1 ++ e :: l2) t) :
    Owned (l1 ++ e' :: l2) (t.map fun t => (t.1, Function.update t.2 e.ruleHdl Option.none)) := by
  intro _ m k rule heq hk
  obtain ⟨⟨hdl', m'⟩, ht, heq'⟩ := map_eq_some_iff.mp heq
  obtain ⟨-, rfl⟩ := Prod.mk.inj heq'
  have hkk : k ≠ e.ruleHdl := by
    rintro rfl
    simp at hk
  rw [update_of_ne hkk] at hk
  obtain ⟨x, hx, hen, hxk, hrule⟩ := h hdl' m' k rule ht hk
  -- the owner has another handle, so it is another slot
  rcases mem_replace hx with rfl | hx
  · exact absurd hxk.symm hkk
  · exact ⟨x, mem_of_others hx, hen, hxk, hrule⟩

theorem Awake.replace (h : Awake S (l1 ++ e :: l2)) (he' : e'.enabled → e'.privateIp ≠ 0 ∧ e'.privateIp ∉ S) :
    Awake S (l1 ++ e' :: l2) := by
  intro x hx hen
  rcases mem_replace hx with rfl | hx
  · exact he' hen
  · exact h x (mem_of_others hx) hen

theorem Awake.mono (h : Awake S cache) (hS : S' ⊆ S) : Awake S' cache :=
  fun e he hen => ⟨(h e he hen).1, fun hmem => (h e he hen).2 (hS hmem)⟩

theorem Awake.free_idle (h : Awake S cache) (he : e ∈ cache) (hfree : e.isFree) : e.enabled = false := by
  by_contra hen
  have hip := (h e he (by simpa using hen)).1
  simp [not_free_of_privateIp hip] at hfree

end

/-- Both facts about the cache. -/
def AppState.Resting {σ : Type} (tbl : σ → Option DrvTable) (S : Finset UInt32)
    (s : AppState σ) : Prop :=
  s.Has fun t cache => Owned cache (tbl t.drv) ∧ Awake S cache

/-! ### The operations -/

section

variable {σ : Type} {d : NatDriver σ} {tbl : σ → Option DrvTable} {S : Finset UInt32}
variable {s : AppState σ} {hdl h ip : UInt32} {t : LoopState σ} {e rule : NatTableEntry}
variable {l1 l2 : List NatTableEntry}

theorem awake_default (hen : (default : NatTableEntry).enabled) :
    (default : NatTableEntry).privateIp ≠ 0 ∧ (default : NatTableEntry).privateIp ∉ S :=
  absurd hen (by decide)

section

variable (hdel : DeletesSucceed d tbl)
    (hb : Owned (l1 ++ e :: l2) (tbl t.drv) ∧ Awake S (l1 ++ e :: l2))
include hdel hb

theorem withdraw_resting :
    Owned (l1 ++ (withdraw d hdl h t e).2 :: l2) (tbl (withdraw d hdl h t e).1.drv) ∧
      Awake S (l1 ++ (withdraw d hdl h t e).2 :: l2) := by
  unfold withdraw
  rcases hrun : d.delIpv4Rule hdl e.ruleHdl t.drv with ⟨_, _⟩
  obtain ⟨hret, htbl⟩ := hdel hrun
  dsimp only
  rw [if_neg (Int.not_lt.mpr hret), htbl]
  exact ⟨hb.1.delete, hb.2.replace (by simp)⟩

theorem evict_resting :
    Owned (l1 ++ (evict d hdl t e).2 :: l2) (tbl (evict d hdl t e).1.drv) ∧
      Awake S (l1 ++ (evict d hdl t e).2 :: l2) := by
  unfold evict
  cases he : e.enabled with
  | true =>
    rcases hrun : d.delIpv4Rule hdl e.ruleHdl t.drv with ⟨_, _⟩
    obtain ⟨hret, htbl⟩ := hdel hrun
    dsimp only
    rw [if_pos rfl, if_neg (Int.not_lt.mpr hret), htbl]
    exact ⟨hb.1.delete, hb.2.replace awake_default⟩
  | false => exact ⟨hb.1.idle he, hb.2.replace awake_default⟩

end

theorem reinstall_resting (hmap : IsMap d tbl) (hidle : e.enabled = false) (hip : e.privateIp ≠ 0)
    (hS : e.privateIp ∉ S) (hb : Owned (l1 ++ e :: l2) (tbl t.drv) ∧ Awake S (l1 ++ e :: l2)) :
    Owned (l1 ++ (reinstall d hdl t e).2 :: l2) (tbl (reinstall d hdl t e).1.drv) ∧
      Awake S (l1 ++ (reinstall d hdl t e).2 :: l2) := by
  unfold reinstall
  rcases hadd : d.addIpv4Rule hdl e.natRule t.drv with ⟨_, _, _⟩
  dsimp only
  split
  · rename_i hret
    rw [(hmap.addRule_err hadd hret).1]
    exact ⟨hb.1.idle hidle, hb.2.replace awake_default⟩
  rename_i hret
  obtain ⟨m, k, ht, rfl, -, -, ht'⟩ := hmap.addRule_ok hadd (Int.not_lt.mp hret)
  rw [ht] at hb
  rw [ht']
  refine ⟨hb.1.install (fun x hx hen => ?_) rfl rfl, hb.2.replace fun _ => ⟨hip, hS⟩⟩
  rcases mem_replace hx with rfl | hx
  · simp [hidle] at hen
  · exact hx

theorem addEntry_resting (hmap : IsMap d tbl) (hps : ∀ c, c ≠ 0 → (c ∈ s.app.pwrSaveIfs ↔ c ∈ S)) (hs : s.Resting tbl S)
    (rule : NatTableEntry) : (addEntry d rule s).2.Resting tbl S := by
  rcases addEntry_cases d rule s with heq | ⟨-, hvalid, -, l1, slot, l2, hl, hfree,
    heq | ⟨_, _, drv, hawake, hadd, ⟨hret, heq⟩ | ⟨hret, heq⟩⟩⟩
  · rwa [heq]
  all_goals
    have hb : Owned (l1 ++ slot :: l2) (tbl s.drv) ∧ Awake S (l1 ++ slot :: l2) := hl ▸ hs
    have hidle := hb.2.free_idle (by simp) hfree
    rw [heq]
  · exact ⟨hb.1.idle hidle, hb.2.replace fun hen => absurd hen (by simp [fillSlot])⟩
  · show Owned _ (tbl drv) ∧ _
    rw [(hmap.addRule_err hadd hret).1]
    exact ⟨hb.1.idle hidle, hb.2.replace fun hen => absurd (hidle.symm.trans hen) (by decide)⟩
  obtain ⟨m, k, ht, rfl, -, -, ht'⟩ := hmap.addRule_ok hadd hret
  show Owned _ (tbl drv) ∧ _
  rw [ht] at hb
  rw [ht']
  have hip : rule.privateIp ≠ 0 := fun hip => by simp [NatTableEntry.isInvalid, hip] at hvalid
  refine ⟨hb.1.install (fun x hx hen => ?_) rfl rfl, hb.2.replace fun _ => ⟨hip, fun hmem => ?_⟩⟩
  · rcases mem_replace hx with rfl | hx
    · simp [hidle] at hen
    · exact hx
  -- the test of `AddEntry()`
  have hlisted := (hps _ hip).mpr hmem
  simp [NatApp.isPwrSaveIf] at hawake
  exact hawake _ hlisted hip.symm rfl

/-- `AddTable()` starts from an empty table; what it installs is owned by the
slots that are done. -/
theorem addTable_resting (hmap : IsMap d tbl) (hs : s.Resting tbl S)
    (hcond : (d.addIpv4Tbl ip (UInt16.ofNat s.app.maxEntries) s.drv).1 = 0 →
      ip = s.app.pubIpAddrPre → ∀ e ∈ s.app.cache, e.privateIp ≠ 0 → e.privateIp ∉ S) :
    (addTable d ip s).2.Resting tbl S := by
  unfold addTable
  rcases hadd : d.addIpv4Tbl ip (UInt16.ofNat s.app.maxEntries) s.drv with ⟨ret, _, drv⟩
  rw [hadd] at hcond
  dsimp only
  split
  · rename_i hret
    show Owned _ (tbl drv) ∧ _
    rw [hmap.addTbl_err hadd hret]
    exact hs
  rename_i hret
  rw [not_not.mp hret] at hadd
  obtain ⟨hdl', rfl, ht⟩ := hmap.addTbl_ok hadd
  have hempty : ∀ {cache : List NatTableEntry}, Owned cache (tbl drv) := by
    rw [ht]
    exact Owned.fresh
  split_ifs with hip
  · have hawake := hcond (not_not.mp hret) hip
    have hrun := @forSlots_scan _ _
      (fun t e => if e.privateIp ≠ 0 then reinstall d hdl' t e else (t, e))
      ⟨drv, s.app.curCnt⟩ s.app.cache []
      (fun t l1 l2 => Owned l1 (tbl t.drv) ∧ Awake S (l1 ++ l2) ∧
        ∀ e ∈ l2, e.privateIp ≠ 0 → e.privateIp ∉ S)
      (fun t l1 e l2 hP => ?_) ⟨hempty, hs.2, hawake⟩
    · obtain ⟨hown, haw, -⟩ := hrun
      rw [append_nil] at haw
      exact ⟨hown, haw⟩
    obtain ⟨hown, haw, hq⟩ := hP
    have hq' : ∀ x ∈ l2, x.privateIp ≠ 0 → x.privateIp ∉ S := fun x hx =>
      hq x (mem_cons_of_mem _ hx)
    have hkeep : ∀ {x : NatTableEntry}, Owned (l1 ++ [x]) (tbl t.drv) := fun h m k rule heq hk => by
      obtain ⟨y, hy, hrest⟩ := hown h m k rule heq hk
      exact ⟨y, mem_append_left _ hy, hrest⟩
    by_cases hip0 : e.privateIp ≠ 0
    · rw [if_pos hip0]
      unfold reinstall
      rcases hrule : d.addIpv4Rule hdl' e.natRule t.drv with ⟨_, _, _⟩
      dsimp only
      split
      · rename_i hret
        rw [(hmap.addRule_err hrule hret).1, append_assoc]
        exact ⟨hkeep, haw.replace awake_default, hq'⟩
      rename_i hret
      obtain ⟨m, k, ht, rfl, -, -, ht'⟩ := hmap.addRule_ok hrule (Int.not_lt.mp hret)
      rw [ht] at hown
      rw [ht', append_assoc]
      refine ⟨hown.install (fun x hx _ => by simpa using hx) rfl rfl,
        haw.replace fun _ => ⟨hip0, hq e (mem_cons_self ..) hip0⟩, hq'⟩
    · rw [if_neg hip0, append_assoc]
      exact ⟨hkeep, haw, hq'⟩
  · exact ⟨hempty, hs.2⟩

theorem deleteTable_resting (hmap : IsMap d tbl) (hs : s.Resting tbl S) : (deleteTable d ip s).2.Resting tbl S := by
  unfold deleteTable
  split
  · exact hs
  split
  · exact hs
  rcases hdel : d.delIpv4Tbl s.app.natTableHdl s.drv with ⟨_, drv⟩
  dsimp only
  split
  · rename_i hret
    show Owned _ (tbl drv) ∧ _
    rw [hmap.delTbl_err hdel hret]
    exact hs
  rename_i hret
  rw [not_not.mp hret] at hdel
  show Owned _ (tbl drv) ∧ _
  rw [hmap.delTbl_ok hdel]
  exact ⟨Owned.none, hs.2⟩

theorem deleteEntry_resting (hdel : DeletesSucceed d tbl) (hs : s.Resting tbl S) :
    (deleteEntry d rule s).2.Resting tbl S := by
  refine deleteEntry_rule hs fun l1 e l2 hl _ => ?_
  have hb : Owned (l1 ++ e :: l2) (tbl s.drv) ∧ Awake S (l1 ++ e :: l2) := hl ▸ hs
  cases he : e.enabled with
  | true =>
    rcases hrun : d.delIpv4Rule s.app.natTableHdl e.ruleHdl s.drv with ⟨_, _⟩
    simp only [if_true, (hdel hrun).2]
    exact ⟨hb.1.delete, hb.2.replace awake_default⟩
  | false => exact ⟨hb.1.idle he, hb.2.replace awake_default⟩

theorem updatePwrSaveIf_resting (hdel : DeletesSucceed d tbl) (hs : s.Resting tbl S)
    (hps : ∀ c, c ≠ 0 → (c ∈ s.app.pwrSaveIfs ↔ c ∈ S)) : (updatePwrSaveIf d ip s).2.Resting tbl (insert ip S) := by
  have hsame : s.Resting tbl S → ip = 0 ∨ ip ∈ S → s.Resting tbl (insert ip S) := by
    rintro hs (rfl | hmem)
    · refine ⟨hs.1, fun e he hen => ⟨(hs.2 e he hen).1, ?_⟩⟩
      rw [Finset.mem_insert, not_or]
      exact hs.2 e he hen
    · rwa [Finset.insert_eq_of_mem hmem]
  unfold updatePwrSaveIf
  dsimp only
  split
  · exact hsame hs (.inl ‹_›)
  rename_i hip
  split
  · rename_i hany
    have hmem : ip ∈ s.app.pwrSaveIfs := by simpa using hany
    exact hsame hs (.inr ((hps ip hip).mp hmem))
  have hrun := @forSlots_scan _ _ (fun t e => if e.privateIp = ip ∧ e.enabled = true then
      withdraw d s.app.natTableHdl 0 t e else (t, e))
    ⟨s.drv, s.app.curCnt⟩ s.app.cache []
    (fun t l1 l2 => (Owned (l1 ++ l2) (tbl t.drv) ∧ Awake S (l1 ++ l2)) ∧
      ∀ e ∈ l1, e.enabled = true → e.privateIp ≠ ip)
    (fun t l1 e l2 hP => ?_) ⟨hs, by simp⟩
  · obtain ⟨⟨hown, haw⟩, hdone⟩ := hrun
    rw [append_nil] at hown haw
    refine ⟨hown, fun e he hen => ⟨(haw e he hen).1, ?_⟩⟩
    rw [Finset.mem_insert, not_or]
    exact ⟨hdone e he hen, (haw e he hen).2⟩
  obtain ⟨hb, hdone⟩ := hP
  have hnext : ∀ {x : NatTableEntry}, (x.enabled = true → x.privateIp ≠ ip) →
      ∀ y ∈ l1 ++ [x], y.enabled = true → y.privateIp ≠ ip := by
    intro x _ y hy
    rcases mem_append.mp hy with hy | hy
    · exact hdone y hy
    · rwa [mem_singleton.mp hy]
  split
  · refine ⟨?_, hnext ?_⟩
    · rw [append_assoc]
      exact withdraw_resting hdel hb
    unfold withdraw
    rcases hrun : d.delIpv4Rule s.app.natTableHdl e.ruleHdl t.drv with ⟨_, _⟩
    dsimp only
    rw [if_neg (Int.not_lt.mpr (hdel hrun).1)]
    simp
  · rename_i hcond
    refine ⟨?_, hnext fun hen heq => hcond ⟨heq, hen⟩⟩
    rwa [append_assoc]

end

/-! ### The list of clients in power save -/

/-- The clients in power save after an operation. -/
def AppOp.asleep (S : Finset UInt32) : AppOp → Finset UInt32
  | .updatePwrSaveIf ip => insert ip S
  | .resetPwrSaveIf ip | .delEntriesOnClntDiscon ip => S.erase ip
  | _ => S

/-- `PwrSaveIfs` holds the clients of `S`. -/
def PwrListed (app : NatApp) (S : Finset UInt32) : Prop :=
  app.pwrSaveIfs.length = maxNumWifiClients ∧ SlotSet 0 app.pwrSaveIfs (S.erase 0)

section

variable {σ : Type} {d : NatDriver σ} {s : AppState σ} {app : NatApp} {S : Finset UInt32}
variable {ip : UInt32}

theorem PwrListed.mem_iff (h : PwrListed app S) {c : UInt32} (hc : c ≠ 0) : c ∈ app.pwrSaveIfs ↔ c ∈ S := by
  rw [h.2.mem_iff c hc, Finset.mem_erase]
  exact and_iff_right hc

theorem PwrListed.insert (h : PwrListed app S) (hip : ip ≠ 0) (hnew : ip ∉ app.pwrSaveIfs)
    (hcard : (insert ip S).card ≤ maxNumWifiClients) :
    PwrListed { app with pwrSaveIfs := ((updateFirst (fun p => p = 0) (fun _ => ((), ip))
      app.pwrSaveIfs).map (·.2)).getD app.pwrSaveIfs } (insert ip S) := by
  have hS : ip ∉ S := fun hmem => hnew ((h.mem_iff hip).mpr hmem)
  have hfree : (0 : UInt32) ∈ app.pwrSaveIfs := by
    refine h.2.exists_free ?_
    have hle := Finset.card_erase_le (s := S) (a := 0)
    rw [Finset.card_insert_of_notMem hS] at hcard
    rw [h.1]
    omega
  cases hupd : updateFirst (fun p => decide (p = 0)) (fun _ => ((), ip)) app.pwrSaveIfs with
  | none => simpa using updateFirst_eq_none.mp hupd 0 hfree
  | some r =>
    obtain ⟨⟨⟩, _⟩ := r
    obtain ⟨_, x, _, hl, -, hx, -, rfl⟩ := updateFirst_eq_some.mp hupd
    have hx0 : x = 0 := of_decide_eq_true hx
    subst hx0
    have hset := h.2
    rw [hl] at hset
    refine ⟨?_, ?_⟩
    · have hlen := h.1
      rw [hl] at hlen
      simpa using hlen
    · rw [Finset.erase_insert_of_ne hip]
      exact hset.insert hip fun hmem => hS (Finset.mem_of_mem_erase hmem)

theorem PwrListed.clear (h : PwrListed app S) (hip : ip ≠ 0) :
    PwrListed { app with pwrSaveIfs := clearPwrSaveIf ip app.pwrSaveIfs } (S.erase ip) := by
  unfold clearPwrSaveIf
  cases hupd : updateFirst (fun p => decide (p = ip)) (fun _ => ((), 0)) app.pwrSaveIfs with
  | none =>
    have hnone : ip ∉ S := fun hmem => by
      simpa using updateFirst_eq_none.mp hupd ip ((h.mem_iff hip).mpr hmem)
    rw [Finset.erase_eq_of_notMem hnone]
    exact h
  | some r =>
    obtain ⟨⟨⟩, _⟩ := r
    obtain ⟨_, x, _, hl, -, hx, -, rfl⟩ := updateFirst_eq_some.mp hupd
    have hxi : x = ip := of_decide_eq_true hx
    subst hxi
    have hset := h.2
    rw [hl] at hset
    refine ⟨?_, ?_⟩
    · have hlen := h.1
      rw [hl] at hlen
      simpa using hlen
    · rw [Finset.erase_right_comm]
      exact hset.erase hip

theorem addEntry_pwrSaveIfs {rule : NatTableEntry} : (addEntry d rule s).2.app.pwrSaveIfs = s.app.pwrSaveIfs := by
  rcases addEntry_cases d rule s with heq | ⟨-, -, -, _, _, _, -, -,
    heq | ⟨_, _, _, -, -, ⟨-, heq⟩ | ⟨-, heq⟩⟩⟩ <;> rw [heq]

theorem AppOp.pwrListed (op : AppOp) (h : PwrListed s.app S)
    (hcard : (op.asleep S).card ≤ maxNumWifiClients) : PwrListed (op.run d s).app (op.asleep S) := by
  have hkeep : ∀ {s' : AppState σ}, s'.app.pwrSaveIfs = s.app.pwrSaveIfs → PwrListed s'.app S := fun heq => by
      unfold PwrListed
      rwa [heq]
  cases op with
  | addTable =>
    refine hkeep ?_
    simp only [AppOp.run, Ipacm.addTable]
    split
    · rfl
    · split <;> rfl
  | deleteTable =>
    refine hkeep ?_
    simp only [AppOp.run, Ipacm.deleteTable]
    split
    · rfl
    split
    · rfl
    · split <;> rfl
  | addEntry => exact hkeep addEntry_pwrSaveIfs
  | deleteEntry =>
    refine hkeep ?_
    simp only [AppOp.run, Ipacm.deleteEntry]
    split <;> rfl
  | cacheEntry rule =>
    refine hkeep ?_
    rcases cacheEntry_cases rule s with heq | ⟨-, -, _, _, _, -, -, heq⟩
    · simp only [AppOp.run, heq]
    · simp only [AppOp.run, heq]
  | updatePwrSaveIf ip =>
    simp only [AppOp.run, Ipacm.updatePwrSaveIf, AppOp.asleep]
    split
    · rename_i hip
      refine ⟨h.1, ?_⟩
      rw [hip, Finset.erase_insert_eq_erase]
      exact h.2
    rename_i hip
    split_ifs with hany
    · have hmem : ip ∈ S := (h.mem_iff hip).mp (by simpa using hany)
      rw [Finset.insert_eq_of_mem hmem]
      exact h
    · exact h.insert hip (by simpa using hany) hcard
  | resetPwrSaveIf ip =>
    simp only [AppOp.run, Ipacm.resetPwrSaveIf, AppOp.asleep]
    split_ifs with hip
    · refine ⟨h.1, ?_⟩
      rw [hip, Finset.erase_idem]
      exact h.2
    · exact h.clear ‹_›
  | delEntriesOnClntDiscon ip =>
    simp only [AppOp.run, Ipacm.delEntriesOnClntDiscon, AppOp.asleep]
    split_ifs with hip
    · refine ⟨h.1, ?_⟩
      rw [hip, Finset.erase_idem]
      exact h.2
    · exact h.clear ‹_›
  | delEntriesOnSTAClntDiscon =>
    refine hkeep ?_
    simp only [AppOp.run, Ipacm.delEntriesOnSTAClntDiscon]
    split <;> rfl
  | addTempEntry =>
    exact addTempEntry_rule (I := fun s => PwrListed s.app S) h fun _ _ hs => hs
  | deleteTempEntry =>
    exact deleteTempEntry_rule (I := fun s => PwrListed s.app S) h fun _ _ hs => hs
  | flushTempEntries =>
    refine flushTempEntries_rule (I := fun s => PwrListed s.app S) (Q := fun _ => True) h
      (fun _ _ => trivial) (fun _ _ hs => hs) fun s' e _ hs => ?_
    unfold PwrListed
    rwa [addEntry_pwrSaveIfs]

end

/-! ### Runs -/

/-- `AddTable()` with the public address of the last table, where it goes
through, finds no connection of a client in power save in the cache. -/
def AppOp.WakesNone {σ : Type} (d : NatDriver σ) (s : AppState σ) : AppOp → Prop
  | .addTable pubIp => (d.addIpv4Tbl pubIp (UInt16.ofNat s.app.maxEntries) s.drv).1 = 0 →
      pubIp = s.app.pubIpAddrPre →
      ∀ e ∈ s.app.cache, e.privateIp ≠ 0 → s.app.isPwrSaveIf e.privateIp = false
  | _ => True

/-- The states of runs in which every operation satisfies `ok`, with the clients
in power save, at most `IPA_MAX_NUM_WIFI_CLIENTS` at a time. -/
inductive SleepReach {σ : Type} (d : NatDriver σ) (ok : AppState σ → AppOp → Prop)
    (s₀ : AppState σ) : AppState σ → Finset UInt32 → Prop
  | start : SleepReach d ok s₀ s₀ ∅
  | step {s : AppState σ} {S : Finset UInt32} (op : AppOp) : SleepReach d ok s₀ s S → ok s op →
      (op.asleep S).card ≤ maxNumWifiClients → SleepReach d ok s₀ (op.run d s) (op.asleep S)

section

variable {σ : Type} {d : NatDriver σ} {tbl : σ → Option DrvTable} {s₀ s : AppState σ}
variable {S : Finset UInt32}

theorem AppOp.resting {op : AppOp} (hmap : IsMap d tbl) (hdel : DeletesSucceed d tbl)
    (hl : PwrListed s.app S) (hs : s.Resting tbl S) (hop : op.WakesNone d s) :
    (op.run d s).Resting tbl (op.asleep S) := by
  have hps : ∀ c, c ≠ 0 → (c ∈ s.app.pwrSaveIfs ↔ c ∈ S) := fun c hc => hl.mem_iff hc
  cases op with
  | addTable =>
    refine addTable_resting hmap hs fun hret hip e he hip0 hmem => ?_
    have hno := hop hret hip e he hip0
    simp only [NatApp.isPwrSaveIf, List.any_eq_false] at hno
    exact hno e.privateIp ((hps _ hip0).mpr hmem) (by simpa using hip0.symm)
  | deleteTable => exact deleteTable_resting hmap hs
  | addEntry rule => exact addEntry_resting hmap hps hs rule
  | deleteEntry => exact deleteEntry_resting hdel hs
  | cacheEntry =>
    refine cacheEntry_rule hs fun l1 slot l2 _ _ hl hfree => ?_
    have hb : Owned (l1 ++ slot :: l2) (tbl s.drv) ∧ Awake S (l1 ++ slot :: l2) := hl ▸ hs
    exact ⟨hb.1.idle (hb.2.free_idle (by simp) hfree), hb.2.replace (by simp [fillSlot])⟩
  | updatePwrSaveIf => exact updatePwrSaveIf_resting hdel hs hps
  | resetPwrSaveIf ip =>
    have hs' : s.Resting tbl (S.erase ip) := ⟨hs.1, hs.2.mono (Finset.erase_subset _ _)⟩
    by_cases hip : ip = 0
    · simp only [AppOp.run, Ipacm.resetPwrSaveIf, if_pos hip]
      exact hs'
    · exact resetPwrSaveIf_rule (Q := fun _ => True) hs' (fun _ _ => trivial) fun t l1 e l2 _ heq _ hidle hb =>
          reinstall_resting hmap hidle (heq ▸ hip) (by simp [heq, AppOp.asleep]) hb
  | delEntriesOnClntDiscon ip =>
    have hs' : s.Resting tbl (S.erase ip) := ⟨hs.1, hs.2.mono (Finset.erase_subset _ _)⟩
    exact delEntriesOnClntDiscon_rule (Q := fun _ => True) hs' (fun _ _ => trivial)
      fun t l1 e l2 _ _ _ hb => withdraw_resting hdel hb
  | delEntriesOnSTAClntDiscon =>
    exact delEntriesOnSTAClntDiscon_rule hs fun t l1 e l2 _ _ hb => evict_resting hdel hb
  | addTempEntry => exact addTempEntry_rule hs fun _ _ hs => hs
  | deleteTempEntry => exact deleteTempEntry_rule hs fun _ _ hs => hs
  | flushTempEntries =>
    refine (flushTempEntries_rule (I := fun s' => s'.Resting tbl S ∧
      s'.app.pwrSaveIfs = s.app.pwrSaveIfs) (Q := fun _ => True) ⟨hs, rfl⟩ (fun _ _ => trivial)
      (fun _ _ hs => hs) fun s' e _ hs => ?_).1
    refine ⟨addEntry_resting hmap (hs.2 ▸ hps) hs.1 e, ?_⟩
    rw [addEntry_pwrSaveIfs]
    exact hs.2

theorem SleepReach.resting (hmap : IsMap d tbl) (hdel : DeletesSucceed d tbl)
    (hfresh : FreshApp s₀.app) (hzero : s₀.app.pwrSaveIfs = replicate maxNumWifiClients 0)
    (hnone : tbl s₀.drv = none) (h : SleepReach d (fun s op => op.WakesNone d s) s₀ s S) :
    PwrListed s.app S ∧ s.Resting tbl S := by
  induction h with
  | start =>
    refine ⟨⟨by rw [hzero, length_replicate], ?_⟩, ?_, fun e he hen => ?_⟩
    · rw [hzero, Finset.erase_empty]
      exact SlotSet.nil_of_replicate _
    · show Owned _ (tbl s₀.drv)
      rw [hnone]
      exact Owned.none
    · simp [(hfresh.idle e he).1] at hen
  | step op _ hop hcard ih =>
    exact ⟨op.pwrListed ih.1 hcard, AppOp.resting hmap hdel ih.1 ih.2 hop⟩

/-- **A client in power save has no rule in the driver**, in every state of the
runs in which `AddTable()` never brings back a table while the cache has a
connection of such a client.  Deletions succeed, and the list of clients in
power save starts empty. -/
theorem natApp_powerSave (hmap : IsMap d tbl) (hdel : DeletesSucceed d tbl)
    (hfresh : FreshApp s₀.app) (hzero : s₀.app.pwrSaveIfs = replicate maxNumWifiClients 0)
    (hnone : tbl s₀.drv = none) (h : SleepReach d (fun s op => op.WakesNone d s) s₀ s S) :
    ∀ c ∈ S, ∀ hdl m k rule, tbl s.drv = some (hdl, m) → m k = some rule →
      rule.privateIp ≠ c := by
  rintro c hc hdl m k rule ht hk rfl
  obtain ⟨-, hown, hawake⟩ := h.resting hmap hdel hfresh hzero hnone
  obtain ⟨e, he, hen, -, rfl⟩ := hown hdl m k rule ht hk
  exact (hawake e he hen).2 hc

end

/-- `mapDriver`, with deletions that succeed. -/
def sureDriver : NatDriver (Option (UInt32 → Option IpaNatIpv4Rule)) :=
  { mapDriver with delIpv4Rule := fun _ k s => (0, s.map fun m => update m k none) }

theorem sureDriver_deletes : DeletesSucceed sureDriver mapTbl := by
  intro _ k s _ _ heq
  obtain ⟨rfl, rfl⟩ := Prod.mk.inj heq
  refine ⟨le_rfl, ?_⟩
  cases s <;> rfl

theorem sureDriver_isMap : IsMap sureDriver mapTbl where
  addTbl_ok := @mapDriver_isMap.addTbl_ok
  addTbl_err := @mapDriver_isMap.addTbl_err
  delTbl_ok := mapDriver_isMap.delTbl_ok
  delTbl_err := mapDriver_isMap.delTbl_err
  addRule_ok := mapDriver_isMap.addRule_ok
  addRule_err := mapDriver_isMap.addRule_err
  delRule := fun ht _ heq => by
    obtain ⟨hret, htbl⟩ := sureDriver_deletes heq
    rw [htbl, ht]
    exact ⟨hret, rfl⟩

/-- `sampleApp` with an empty list of clients in power save. -/
def sampleSleepApp : AppState (Option (UInt32 → Option IpaNatIpv4Rule)) :=
  ⟨NatApp.init 4 [] 0 (replicate maxNumWifiClients 0), none⟩

theorem natApp_powerSave_sample :
    ∃ s, SleepReach sureDriver (fun s op => op.WakesNone sureDriver s) sampleSleepApp s
        {sampleConn.privateIp} ∧
      s.app.curCnt = 1 ∧ ∀ hdl m k rule, mapTbl s.drv = some (hdl, m) → m k = some rule →
        rule.privateIp ≠ sampleConn.privateIp := by
  have h1 : SleepReach sureDriver (fun s op => op.WakesNone sureDriver s) sampleSleepApp _ _ :=
    SleepReach.start.step (.addTable 0x0A000001) (by unfold AppOp.WakesNone; decide)
      (by decide)
  have h2 := h1.step (.addEntry sampleConn) trivial (by decide)
  have h3 := h2.step (.updatePwrSaveIf sampleConn.privateIp) trivial (by decide)
  refine ⟨_, h3, by decide, ?_⟩
  exact natApp_powerSave sureDriver_isMap sureDriver_deletes ⟨_, _, _, _, rfl⟩ rfl rfl h3 _
    (Finset.mem_insert_self ..)

/-- The table is deleted and comes back while a client sleeps: its rule is
installed again. -/
theorem natApp_powerSave_rebuilt :
    IsMap sureDriver mapTbl ∧ DeletesSucceed sureDriver mapTbl ∧ FreshApp sampleSleepApp.app ∧
    sampleSleepApp.app.pwrSaveIfs = replicate maxNumWifiClients 0 ∧
    mapTbl sampleSleepApp.drv = none ∧
    ∃ s, SleepReach sureDriver (fun _ _ => True) sampleSleepApp s {sampleConn.privateIp} ∧
      ∃ hdl m k rule, mapTbl s.drv = some (hdl, m) ∧ m k = some rule ∧
        rule.privateIp = sampleConn.privateIp := by
  have h1 : SleepReach sureDriver (fun _ _ => True) sampleSleepApp _ _ :=
    SleepReach.start.step (.addTable 0x0A000001) trivial (by decide)
  have h2 := h1.step (.addEntry sampleConn) trivial (by decide)
  have h3 := h2.step (.updatePwrSaveIf sampleConn.privateIp) trivial (by decide)
  have h4 := h3.step (.deleteTable 0x0A000001) trivial (by decide)
  have h5 := h4.step (.addTable 0x0A000001) trivial (by decide)
  refine ⟨sureDriver_isMap, sureDriver_deletes, ⟨_, _, _, _, rfl⟩, rfl, rfl, _, h5, 1, _, 1,
    sampleConn.natRule, rfl, ?_, rfl⟩
  decide

end G4Common.Ipacm

/-
Connections that stay in the cache.

A cached connection may go for three reasons: it is deleted, the STA client it
talks to leaves, or the driver refuses its rule.  To see the last, the driver
keeps a log of the rules it refuses (`NatDriver.logged`).

There is a fourth.  `ResetPwrSaveIf()` does not look whether there is a table.
Without one the driver refuses every rule, and the cache drops every connection
of the client that waits for a table.
-/
import G4Common.IpaNat.LifeCycle
import G4Common.Ipacm.CtRuns

namespace G4Common.Ipacm

open IpaNat (IpaNatIpv4Rule ipprotoTcp)

/-! ### Refusals -/

/-- A rule that the driver refused, with the handle of the table. -/
abbrev Refusal := UInt32 × IpaNatIpv4Rule

/-- The driver with a log of the rules it refuses, the last one first. -/
def NatDriver.logged {σ : Type} (d : NatDriver σ) : NatDriver (σ × List Refusal) where
  addIpv4Tbl := fun ip n s =>
    let (ret, hdl, drv) := d.addIpv4Tbl ip n s.1
    (ret, hdl, (drv, s.2))
  delIpv4Tbl := fun hdl s =>
    let (ret, drv) := d.delIpv4Tbl hdl s.1
    (ret, (drv, s.2))
  addIpv4Rule := fun hdl rule s =>
    let (ret, ruleHdl, drv) := d.addIpv4Rule hdl rule s.1
    (ret, ruleHdl, (drv, if ret < 0 then (hdl, rule) :: s.2 else s.2))
  delIpv4Rule := fun hdl ruleHdl s =>
    let (ret, drv) := d.delIpv4Rule hdl ruleHdl s.1
    (ret, (drv, s.2))

/-- A new table gets a handle, and not 0. -/
def NatDriver.TblHandles {σ : Type} (d : NatDriver σ) : Prop :=
  ∀ ip n s, (d.addIpv4Tbl ip n s).1 = 0 → ∃ hdl, (d.addIpv4Tbl ip n s).2.1 = some hdl ∧ hdl ≠ 0

theorem NatDriver.TblHandles.of_ipaNat {σ : Type} {d : NatDriver σ}
    (h : ∀ ip n s, (d.addIpv4Tbl ip n s).1 = 0 → ∃ env c c' hdl, c.ip4Tbl.size = IpaNat.maxIp4Tbls ∧
      IpaNat.ipaNatAddIpv4Tbl env c ip n.toNat = some (0, hdl, c') ∧
      (d.addIpv4Tbl ip n s).2.1 = some (UInt32.ofNat hdl)) : d.TblHandles := by
  intro ip n s hret
  obtain ⟨_, c, _, _, hsize, hadd, hstore⟩ := h ip n s hret
  rw [IpaNat.ipaNatAddIpv4Tbl_hdl ip hsize hadd] at hstore
  exact ⟨_, hstore, by decide⟩

/-- The driver refused a rule for connection `c` in an existing table. -/
def RefusedIn (c : NatTuple) (log : List Refusal) : Prop :=
  ∃ r ∈ log, r.1 ≠ 0 ∧ NatTuple.ofRule r.2 = c

/-! ### One slot changes -/

/-- Connection `c` is in the cache, or since the log was `log` the driver refused
its rule. -/
def Kept {σ : Type} (c : NatTuple) (log : List Refusal) (t : LoopState (σ × List Refusal))
    (cache : List NatTableEntry) : Prop :=
  ∃ new, t.drv.2 = new ++ log ∧ ((∃ e ∈ cache, e.tuple = c) ∨ RefusedIn c new)

section

variable {σ : Type} {d : NatDriver σ} {c : NatTuple} {log : List Refusal} {hdl h : UInt32}
variable {t t' : LoopState (σ × List Refusal)} {e e' : NatTableEntry}
variable {l1 l2 : List NatTableEntry}

theorem Kept.replace (more : List Refusal) (hk : Kept c log t (l1 ++ e :: l2))
    (hlog : t'.drv.2 = more ++ t.drv.2) (he : e.tuple = c → e'.tuple = c ∨ RefusedIn c more) :
    Kept c log t' (l1 ++ e' :: l2) := by
  obtain ⟨new, hnew, hcase⟩ := hk
  refine ⟨more ++ new, by rw [hlog, hnew, List.append_assoc], ?_⟩
  rcases hcase with ⟨x, hx, hxc⟩ | ⟨r, hr, hbad⟩
  · rcases mem_replace hx with rfl | hx
    · rcases he hxc with he' | ⟨r, hr, hbad⟩
      · exact .inl ⟨e', by simp, he'⟩
      · exact .inr ⟨r, List.mem_append_left _ hr, hbad⟩
    · exact .inl ⟨x, mem_of_others hx, hxc⟩
  · exact .inr ⟨r, List.mem_append_right _ hr, hbad⟩

section

variable (hk : Kept c log t (l1 ++ e :: l2))
include hk

theorem Kept.same (hlog : t'.drv.2 = t.drv.2) (he : e.tuple = c → e'.tuple = c) : Kept c log t' (l1 ++ e' :: l2) :=
  hk.replace [] hlog fun hc => Or.inl (he hc)

theorem reinstall_kept (hhdl : hdl = 0 → e.tuple ≠ c) :
    Kept c log (reinstall d.logged hdl t e).1 (l1 ++ (reinstall d.logged hdl t e).2 :: l2) := by
  unfold reinstall NatDriver.logged
  dsimp only
  split
  · refine hk.replace [(hdl, e.natRule)] (by simp) fun hc => Or.inr ?_
    exact ⟨_, List.mem_singleton_self _, fun hzero => hhdl hzero hc, hc⟩
  · exact hk.same (by simp) fun hc => hc

theorem withdraw_kept : Kept c log (withdraw d.logged hdl h t e).1 (l1 ++ (withdraw d.logged hdl h t e).2 :: l2) := by
  unfold withdraw NatDriver.logged
  dsimp only
  split <;> exact hk.same rfl fun hc => hc

theorem evict_kept (he : e.tuple ≠ c) :
    Kept c log (evict d.logged hdl t e).1 (l1 ++ (evict d.logged hdl t e).2 :: l2) := by
  unfold evict NatDriver.logged
  dsimp only
  split
  · split
    · exact hk.same rfl fun hc => hc
    · exact hk.same rfl fun hc => absurd hc he
  · exact hk.same rfl fun hc => absurd hc he

end

end

/-! ### The operations -/

/-- The operation is not the end of connection `c`: neither its deletion nor the
disconnect of its STA client. -/
def AppOp.Spares (c : NatTuple) : AppOp → Prop
  | .deleteEntry rule => rule.tuple ≠ c
  | .delEntriesOnSTAClntDiscon ip => ip ≠ c.targetIp
  | _ => True

/-- `ResetPwrSaveIf()` for the client of connection `c` finds a table, unless the
connection has its rule already. -/
def AppOp.FindsTable {σ : Type} (c : NatTuple) (s : AppState σ) : AppOp → Prop
  | .resetPwrSaveIf ip => ip = c.privateIp → s.app.natTableHdl = 0 →
      ∀ e ∈ s.app.cache, e.tuple = c → e.enabled = true
  | _ => True

section

variable {σ : Type} {d : NatDriver σ} {c : NatTuple} {log : List Refusal}
variable {s : AppState (σ × List Refusal)} {rule : NatTableEntry}

theorem not_tuple_of_free {slot : NatTableEntry} (hc : c ≠ default) (hfree : slot.isFree) : slot.tuple ≠ c :=
  fun h => hc (h ▸ isFree_iff.mp hfree)

theorem addEntry_kept (hc : c ≠ default) (hs : s.Has (Kept c log)) (rule : NatTableEntry) :
    (addEntry d.logged rule s).2.Has (Kept c log) := by
  refine addEntry_rule hs (fun l1 slot l2 _ _ hl hfree => ?_)
    (fun l1 slot l2 ret ruleHdl drv _ hadd hret hl hfree => ?_)
    (fun l1 slot l2 ret ruleHdl drv _ _ hadd hret hl hfree => ?_)
  · have hk : Kept c log ⟨s.drv, s.app.curCnt⟩ (l1 ++ slot :: l2) := hl ▸ hs
    exact hk.same rfl fun h => absurd h (not_tuple_of_free hc hfree)
  · have hk : Kept c log ⟨s.drv, s.app.curCnt⟩ (l1 ++ slot :: l2) := hl ▸ hs
    simp only [NatDriver.logged, Prod.mk.injEq] at hadd
    obtain ⟨hr, -, rfl⟩ := hadd
    refine hk.replace [(s.app.natTableHdl, rule.natRule)] (by simp [hr, hret]) ?_
    exact fun h => absurd h (not_tuple_of_free hc hfree)
  have hk : Kept c log ⟨s.drv, s.app.curCnt⟩ (l1 ++ slot :: l2) := hl ▸ hs
  simp only [NatDriver.logged, Prod.mk.injEq] at hadd
  obtain ⟨hr, -, rfl⟩ := hadd
  refine hk.same (by simp [hr, Int.not_lt.mpr hret]) ?_
  exact fun h => absurd h (not_tuple_of_free hc hfree)

theorem addTable_kept (htbl : d.TblHandles) (hs : s.Has (Kept c log)) (ip : UInt32) :
    (addTable d.logged ip s).2.Has (Kept c log) := by
  refine (addTable_rule (Q := fun _ => True) rfl ?_ (fun _ _ => trivial)
    fun hret t l1 e l2 _ _ hk => reinstall_kept hk fun hzero => ?_).1
  · exact hs
  obtain ⟨hdl, hstore, hne⟩ := htbl ip (UInt16.ofNat s.app.maxEntries) s.drv.1 hret
  have hsome : (d.logged.addIpv4Tbl ip (UInt16.ofNat s.app.maxEntries) s.drv).2.1 = some hdl := hstore
  rw [hsome] at hzero
  exact absurd hzero hne

theorem deleteTable_kept (hs : s.Has (Kept c log)) (ip : UInt32) : (deleteTable d.logged ip s).2.Has (Kept c log) := by
  unfold deleteTable NatDriver.logged
  dsimp only
  split
  · exact hs
  split
  · exact hs
  · split <;> exact hs

theorem AppOp.kept (htbl : d.TblHandles) (hc : c ≠ default) {op : AppOp}
    (hs : s.Has (Kept c log)) (hspare : op.Spares c) (hfind : op.FindsTable c s) :
    (op.run d.logged s).Has (Kept c log) := by
  cases op with
  | addTable ip => exact addTable_kept htbl hs ip
  | deleteTable ip => exact deleteTable_kept hs ip
  | addEntry rule => exact addEntry_kept hc hs rule
  | deleteEntry =>
    refine deleteEntry_rule hs fun l1 e l2 hl htuple => ?_
    have hk : Kept c log ⟨s.drv, s.app.curCnt⟩ (l1 ++ e :: l2) := hl ▸ hs
    refine hk.same ?_ fun h => absurd (htuple ▸ h) hspare
    split <;> rfl
  | cacheEntry =>
    refine cacheEntry_rule hs fun l1 slot l2 _ _ hl hfree => ?_
    have hk : Kept c log ⟨s.drv, s.app.curCnt⟩ (l1 ++ slot :: l2) := hl ▸ hs
    exact hk.same rfl fun h => absurd h (not_tuple_of_free hc hfree)
  | updatePwrSaveIf =>
    exact updatePwrSaveIf_rule hs fun t l1 e l2 _ _ hk => withdraw_kept hk
  | resetPwrSaveIf ip =>
    refine resetPwrSaveIf_rule (Q := (· ∈ s.app.cache)) hs (fun _ he => he)
      fun t l1 e l2 he hip _ hen hk => reinstall_kept hk fun hzero htuple => ?_
    have hpriv : ip = c.privateIp := by
      rw [← hip, ← htuple]
      rfl
    have hen' := hfind hpriv hzero e he htuple
    simp [hen] at hen'
  | delEntriesOnClntDiscon =>
    exact delEntriesOnClntDiscon_rule (Q := fun _ => True) hs (fun _ _ => trivial)
      fun t l1 e l2 _ _ _ hk => withdraw_kept hk
  | delEntriesOnSTAClntDiscon =>
    refine delEntriesOnSTAClntDiscon_rule hs fun t l1 e l2 hip _ hk => evict_kept hk fun htuple => ?_
    exact hspare (hip.symm.trans (congrArg NatTuple.targetIp htuple))
  | addTempEntry => exact addTempEntry_rule hs fun _ _ hs => hs
  | deleteTempEntry => exact deleteTempEntry_rule hs fun _ _ hs => hs
  | flushTempEntries =>
    exact flushTempEntries_rule (Q := fun _ => True) hs (fun _ _ => trivial) (fun _ _ hs => hs)
      fun _ e _ hs => addEntry_kept hc hs e

theorem AppReach.kept {s₀ : AppState (σ × List Refusal)} {ok : AppState (σ × List Refusal) →
    AppOp → Prop} (htbl : d.TblHandles) (hc : c ≠ default)
    (hok : ∀ s op, ok s op → op.Spares c ∧ op.FindsTable c s)
    (hs : s₀.Has (Kept c log)) (h : AppReach d.logged ok s₀ s) : s.Has (Kept c log) := by
  induction h with
  | start => exact hs
  | step _ _ hop ih =>
    obtain ⟨hspare, hfind⟩ := hok _ _ hop
    exact AppOp.kept htbl hc ih hspare hfind

end

/-! ### Runs -/

/-- **No cached connection is lost** in a run of events from any state, as long as
`ResetPwrSaveIf()` for its client finds a table or the connection has its rule.
A connection in the cache stays there until it is deleted, its STA client leaves
or the driver refuses its rule in an existing table. -/
theorem cachedConn_kept {σ : Type} {d : NatDriver σ} (htbl : d.TblHandles)
    {S S' : CtSys (σ × List Refusal)} {e : NatTableEntry} (he : e ∈ S.nat.app.cache) (hocc : e.isFree = false)
    (h : CtReach d.logged (fun s op => op.Spares e.tuple ∧ op.FindsTable e.tuple s) S S') :
    ∃ new, S'.nat.drv.2 = new ++ S.nat.drv.2 ∧
      ((∃ e' ∈ S'.nat.app.cache, e'.tuple = e.tuple) ∨ RefusedIn e.tuple new) := by
  have hc : e.tuple ≠ default := fun hdef => by
    rw [isFree_iff.mpr hdef] at hocc
    simp at hocc
  have hstart : S.nat.Has (Kept e.tuple S.nat.drv.2) := ⟨[], rfl, Or.inl ⟨e, he, rfl⟩⟩
  exact h.app.kept htbl hc (fun _ _ hop => hop) hstart

theorem mapDriver_tblHandles : mapDriver.TblHandles := by
  intro _ n s hret
  cases s with
  | none => exact ⟨1, rfl, by decide⟩
  | some => simp [mapDriver] at hret

/-- The system of the samples: four slots, one NAT interface. -/
def sampleSys : CtSys (Option (UInt32 → Option IpaNatIpv4Rule) × List Refusal) :=
  ⟨CtListener.init 0 false, ⟨sampleApp.app, (none, [])⟩⟩

def sampleConfig : Config := ⟨["wlan0"], [(0xC0A80100, 0xFFFFFF00)]⟩

/-- `sampleConn`, as connection tracking reports it. -/
def sampleMsg (tcpState : TcpState) (type : CtMsgType) : CtMsg where
  conn :=
    { origL4proto := ipprotoTcp
      replL4proto := ipprotoTcp
      origIpv4Src := 0xC0A80102
      origIpv4Dst := 0x08080808
      replIpv4Src := 0x08080808
      origPortSrc := 40000
      origPortDst := 443
      replPortSrc := 443
      replPortDst := 50000 }
  status := ipsSrcNat
  tcpState := tcpState
  type := type

/-- The client of `sampleConn` appears on the NAT interface. -/
def sampleNeigh : CtEvent := .neighAdd (some sampleConfig) ⟨0xC0A80102, true, some "wlan0"⟩

def sampleUp : CtEvent := .ctMessage (some sampleConfig) (sampleMsg .established .update)

/-- The WAN interface, the client and the connection are up. -/
def sampleStart : CtSys (Option (UInt32 → Option IpaNatIpv4Rule) × List Refusal) :=
  [.wanUp 0x0A000001 false, sampleNeigh, sampleUp].foldl (CtSys.step mapDriver.logged) sampleSys

/-- The slot of the connection then. -/
def sampleSlot : NatTableEntry := { sampleConn with enabled := true, ruleHdl := 1 }

theorem cachedConn_kept_sample : ∃ S S', CtReach mapDriver.logged
      (fun s op => op.Spares sampleConn.tuple ∧ op.FindsTable sampleConn.tuple s) S S' ∧
      (∃ e ∈ S.nat.app.cache, e.tuple = sampleConn.tuple) ∧ S'.nat.app.natTableHdl = 0 ∧
      ∃ new, S'.nat.drv.2 = new ++ S.nat.drv.2 ∧
        ((∃ e' ∈ S'.nat.app.cache, e'.tuple = sampleConn.tuple) ∨ RefusedIn sampleConn.tuple new) := by
  have he : sampleSlot ∈ sampleStart.nat.app.cache := by
    decide
  have hops : ((CtEvent.wanDown 0x0A000001).handle sampleStart.ct).2 = [.deleteTable 0x0A000001] := by
    decide
  have h : CtReach mapDriver.logged
      (fun s op => op.Spares sampleConn.tuple ∧ op.FindsTable sampleConn.tuple s) sampleStart
      (sampleStart.step mapDriver.logged (.wanDown 0x0A000001)) := by
    refine CtReach.start.step _ ?_
    rw [hops]
    exact ⟨⟨trivial, trivial⟩, trivial⟩
  exact ⟨_, _, h, ⟨_, he, rfl⟩, by decide, cachedConn_kept (e := sampleSlot) mapDriver_tblHandles he rfl h⟩

/-- With the WAN interface down the connection is cached.  Then its client appears
on the NAT interface: no operation ends the connection, no rule is refused in an
existing table, and the cache loses it. -/
theorem cachedConn_lost : FreshApp sampleSys.nat.app ∧ ∃ S, CtReach mapDriver.logged (fun _ _ => True) sampleSys S ∧
      S.ct.wanUp = false ∧ S.nat.app.natTableHdl = 0 ∧
      (∃ e ∈ S.nat.app.cache, e.tuple = sampleConn.tuple) ∧
      CtReach mapDriver.logged (fun _ op => op.Spares sampleConn.tuple) S
        (S.step mapDriver.logged sampleNeigh) ∧
      (∀ e ∈ (S.step mapDriver.logged sampleNeigh).nat.app.cache, e.tuple ≠ sampleConn.tuple) ∧
      ∀ r ∈ (S.step mapDriver.logged sampleNeigh).nat.drv.2, r.1 = 0 := by
  have h : CtReach mapDriver.logged (fun _ _ => True) sampleSys (sampleSys.step mapDriver.logged sampleUp) :=
    CtReach.start.step _ (CallsOk.of_forall fun _ _ _ => trivial)
  have hops : (sampleNeigh.handle (sampleSys.step mapDriver.logged sampleUp).ct).2 =
      [.resetPwrSaveIf 0xC0A80102, .flushTempEntries 0xC0A80102 true] := by
    decide
  refine ⟨⟨_, _, _, _, rfl⟩, _, h, by decide, by decide, by decide, ?_,
    by decide, by decide⟩
  refine CtReach.start.step _ ?_
  rw [hops]
  exact ⟨trivial, trivial, trivial⟩

end G4Common.Ipacm

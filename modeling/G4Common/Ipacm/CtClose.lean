/-
Connections that close.

The listener keeps no record of where it put a connection.  When the connection
closes, it decides anew, from the clients, the WAN interface and the
configuration as they are then, and removes one entry from the table that this
points to.  So a closed connection is gone if and only if it was where the
message points to, once, and nowhere else (`Placed`).  That is not always so: with
the WAN interface down, a connection of a client that is not known yet is put
into the cache, and looked for among the temporary entries; the temporary
entries may hold it twice; the client may come, or the WAN interface change its
address, in between.
-/
import G4Common.Ipacm.CtKeep

namespace G4Common.Ipacm

open List

open IpaNat (IpaNatIpv4Rule ipprotoTcp ipprotoUdp)

/-! ### Messages -/

/-- A connection that the listener handles. -/
def CtConn.TcpUdp (conn : CtConn) : Prop :=
  (conn.origL4proto = ipprotoUdp ∨ conn.origL4proto = ipprotoTcp) ∧
    (conn.replL4proto = ipprotoTcp ∨ conn.replL4proto = ipprotoUdp)

/-- The connection has closed. -/
def CtMsg.Destroys (msg : CtMsg) : Prop :=
  msg.type = .destroy ∨ msg.conn.replL4proto = ipprotoTcp ∧ msg.tcpState = .finWait

/-- The listener takes the message so.  A TCP connection in state `ESTABLISHED`
counts as one that has come up, whatever the type of the message. -/
def CtMsg.Closes (msg : CtMsg) : Prop :=
  msg.Destroys ∧ ¬ (msg.conn.replL4proto = ipprotoTcp ∧ msg.tcpState = .established)

section

variable {l : CtListener} {config : Option Config} {msg : CtMsg} {rule : NatTableEntry}
variable {isTempEntry : Bool} {c : NatTuple}

theorem processCTMessage_tcpUdp {op : AppOp} (h : op ∈ l.processCTMessage config msg) : msg.conn.TcpUdp := by
  obtain ⟨_, _, hrule, hproto, -⟩ := processCTMessage_cases h
  rw [ctRule_protocol hrule] at hproto
  refine ⟨?_, hproto⟩
  by_contra hno
  rw [CtListener.processCTMessage, if_pos (not_or.mp hno)] at h
  simp at h

theorem storeOp_protocol (h : (l.storeOp rule isTempEntry).TcpUdp) :
    rule.protocol = ipprotoTcp ∨ rule.protocol = ipprotoUdp := by
  unfold CtListener.storeOp at h
  split at h
  · exact h
  · split at h <;> exact h

theorem processCTMessage_none (h : l.ctRule config msg = none) : l.processCTMessage config msg = [] := by
  unfold CtListener.processCTMessage CtListener.processTCPorUDPMsg
  rw [h]
  exact ite_self _

theorem processCTMessage_closes (hconn : msg.conn.TcpUdp) (hclose : msg.Closes)
    (h : l.ctRule config msg = some (rule, isTempEntry)) :
    l.processCTMessage config msg = [CtListener.removeOp rule isTempEntry] := by
  have horig : ¬ (msg.conn.origL4proto ≠ ipprotoUdp ∧ msg.conn.origL4proto ≠ ipprotoTcp) :=
    fun hno => hconn.1.elim hno.1 hno.2
  have hproto := ctRule_protocol h
  obtain ⟨hdes, hnot⟩ := hclose
  unfold CtListener.processCTMessage CtListener.processTCPorUDPMsg
  rw [if_neg horig, h]
  dsimp only
  rw [hproto]
  by_cases htcp : msg.conn.replL4proto = ipprotoTcp
  · have hcond := hdes.symm.imp_left And.right
    rw [if_pos htcp, if_neg fun hest => hnot ⟨htcp, hest⟩, if_pos hcond]
  · have htype : msg.type = .destroy := hdes.resolve_right fun h => htcp h.1
    rw [if_neg htcp, if_pos (hconn.2.resolve_left htcp), htype, if_neg (by decide), if_pos rfl]

theorem processCTMessage_established (htcp : msg.conn.replL4proto = ipprotoTcp)
    (hest : msg.tcpState = .established) {op : AppOp} (h : op ∈ l.processCTMessage config msg) :
    ∃ rule isTempEntry, op = l.storeOp rule isTempEntry := by
  obtain ⟨rule, isTempEntry, hrule, -, -⟩ := processCTMessage_cases h
  refine ⟨rule, isTempEntry, ?_⟩
  unfold CtListener.processCTMessage CtListener.processTCPorUDPMsg at h
  by_cases horig : msg.conn.origL4proto ≠ ipprotoUdp ∧ msg.conn.origL4proto ≠ ipprotoTcp
  · rw [if_pos horig] at h
    simp at h
  rw [if_neg horig, hrule] at h
  dsimp only at h
  rw [ctRule_protocol hrule, if_pos htcp, if_pos hest] at h
  exact mem_singleton.mp h

/-- The listener, as it stands, takes the message for connection `c` and looks
for it in the cache or, with `isTempEntry`, among the temporary entries. -/
def CtListener.Routes (l : CtListener) (config : Option Config) (msg : CtMsg) (c : NatTuple)
    (isTempEntry : Bool) : Prop :=
  ∃ rule, l.parseRule msg = some rule ∧ l.staFilter rule = true ∧
    (rule.privateIp = l.wanIpaddr ∧ l.isStaMode = false ∧ isTempEntry = false ∧
        { rule with privatePort := rule.publicPort }.tuple = c ∨
      rule.privateIp ≠ l.wanIpaddr ∧ rule.tuple = c ∧
        (l.natIfaceMatch rule = true ∧ isTempEntry = false ∨ l.natIfaceMatch rule = false ∧ isTempEntry = true ∧
            ∃ cfg, config = some cfg ∧
              (cfg.isPrivateSubnet rule.privateIp ∨ cfg.isPrivateSubnet rule.targetIp)))

theorem routes_iff : l.Routes config msg c isTempEntry ↔
    ∃ rule, l.ctRule config msg = some (rule, isTempEntry) ∧ rule.tuple = c := by
  simp only [ctRule_eq_some, CtListener.Routes]
  constructor
  · rintro ⟨rule, hparse, hsta, ⟨hwan, hmode, rfl, hc⟩ | ⟨hwan, hc, hcase⟩⟩
    · refine ⟨{ rule with privatePort := rule.publicPort }, ⟨rule, hparse, ?_, hsta⟩, hc⟩
      simp [CtListener.routeRule, hwan, hmode]
    refine ⟨rule, ⟨rule, hparse, ?_, hsta⟩, hc⟩
    rcases hcase with ⟨hmatch, rfl⟩ | ⟨hmatch, rfl, cfg, rfl, hsub⟩
    · simp [CtListener.routeRule, hwan, hmatch]
    · simp [CtListener.routeRule, hwan, hmatch, hsub]
  rintro ⟨_, ⟨parsed, hparse, hroute, hsta⟩, hc⟩
  refine ⟨parsed, hparse, ?_⟩
  unfold CtListener.routeRule at hroute
  split at hroute
  · rename_i hwan
    split at hroute
    · rename_i hmatch
      cases hroute
      exact ⟨hsta, Or.inr ⟨hwan, hc, Or.inl ⟨hmatch, rfl⟩⟩⟩
    rename_i hmatch
    split at hroute
    · simp at hroute
    rename_i cfg
    split at hroute
    · rename_i hsub
      cases hroute
      exact ⟨hsta, Or.inr ⟨hwan, hc, Or.inr ⟨by simpa using hmatch, rfl, cfg, rfl, hsub⟩⟩⟩
    · simp at hroute
  rename_i hwan
  split at hroute
  · simp at hroute
  · rename_i hmode
    cases hroute
    exact ⟨hsta, Or.inl ⟨not_not.mp hwan, by simpa using hmode, rfl, hc⟩⟩

end

/-! ### Entries of a connection -/

/-- The number of entries of connection `c`. -/
def connCount (c : NatTuple) (table : List NatTableEntry) : ℕ := table.countP (·.tuple = c)

/-- No entry is of connection `c`. -/
def Absent (c : NatTuple) (table : List NatTableEntry) : Prop := ∀ e ∈ table, e.tuple ≠ c

/-- Neither the cache nor the temporary entries hold connection `c`. -/
def Gone {σ : Type} (c : NatTuple) (s : AppState σ) : Prop :=
  Absent c s.app.cache ∧ Absent c s.app.temp

theorem connCount_eq_zero {c : NatTuple} {table : List NatTableEntry} : connCount c table = 0 ↔ Absent c table := by
  simp [connCount, Absent, countP_eq_zero]

section

variable {σ : Type} {d : NatDriver σ} {s : AppState σ} {c : NatTuple} {rule e : NatTableEntry}

theorem connCount_drop {β : Type} {f : NatTableEntry → β × NatTableEntry} (hc : c ≠ default)
    (hf : ∀ e, (f e).2 = default) {l l' : List NatTableEntry} {t : β}
    (h : updateFirst (fun e => e.tuple = rule.tuple) f l = some (t, l')) :
    connCount c l' = connCount c l - if rule.tuple = c then 1 else 0 := by
  obtain ⟨x, _, hp, hcount⟩ := countP_updateFirst (q := (·.tuple = c)) h
  have htuple : x.tuple = rule.tuple := of_decide_eq_true hp
  have hdef : (default : NatTableEntry).tuple ≠ c := not_tuple_of_free hc isFree_default
  simp only [hf, htuple, hdef, decide_false, Bool.false_eq_true, if_false, Nat.add_zero,
    decide_eq_true_eq] at hcount
  exact Nat.eq_sub_of_add_eq hcount

theorem connCount_of_none {β : Type} {f : NatTableEntry → β × NatTableEntry}
    {l : List NatTableEntry} (h : updateFirst (fun e => e.tuple = rule.tuple) f l = none) :
    connCount c l = connCount c l - if rule.tuple = c then 1 else 0 := by
  split_ifs with hc
  · have hzero : connCount c l = 0 := by
      refine connCount_eq_zero.mpr fun e he => ?_
      have hno := updateFirst_eq_none.mp h e he
      simpa [hc] using hno
    omega
  · rfl

theorem deleteEntry_connCount (hc : c ≠ default) : connCount c (deleteEntry d rule s).2.app.cache =
      connCount c s.app.cache - if rule.tuple = c then 1 else 0 := by
  unfold deleteEntry
  split
  · rename_i h
    exact connCount_of_none h
  · rename_i h
    exact connCount_drop hc (fun _ => rfl) h

theorem deleteTempEntry_connCount (hc : c ≠ default) : connCount c (deleteTempEntry rule s).app.temp =
      connCount c s.app.temp - if rule.tuple = c then 1 else 0 := by
  unfold deleteTempEntry
  split
  · rename_i h
    exact connCount_of_none h
  · rename_i h
    exact connCount_drop hc (fun _ => rfl) h

theorem Booked.connCount_le {cache : List NatTableEntry} {n : ℤ} (hb : Booked cache n)
    (hc : c ≠ default) : connCount c cache ≤ 1 := by
  have hocc : ∀ {x : NatTableEntry}, x.tuple = c → x.isFree = false := fun {x} hx => by
    by_contra hfree
    exact not_tuple_of_free hc (by simpa using hfree) hx
  refine countP_le_one (hb.distinct.imp fun {e e'} hne htuple => ?_)
  have htuple : e.tuple = c := of_decide_eq_true htuple
  refine decide_eq_false fun htuple' => ?_
  exact hne (hocc htuple) (hocc htuple') (htuple.trans htuple'.symm)

end

/-! ### The message that closes a connection -/

/-- The connection is where the message points to, once, and nowhere else. -/
structure Placed {σ : Type} (S : CtSys σ) (config : Option Config) (msg : CtMsg) (c : NatTuple) :
    Prop where
  cached : (∃ e ∈ S.nat.app.cache, e.tuple = c) → S.ct.Routes config msg c false
  temp : (∃ e ∈ S.nat.app.temp, e.tuple = c) →
    S.ct.Routes config msg c true ∧ S.nat.app.temp.countP (·.tuple = c) = 1

section

variable {σ : Type} {d : NatDriver σ} {S : CtSys σ} {config : Option Config} {msg : CtMsg}
variable {c : NatTuple} {rule : NatTableEntry} {isTempEntry : Bool}

theorem gone_iff {s : AppState σ} : Gone c s ↔ connCount c s.app.cache = 0 ∧ connCount c s.app.temp = 0 := by
  rw [connCount_eq_zero, connCount_eq_zero]
  rfl

theorem not_gone_iff {table : List NatTableEntry} : (∃ e ∈ table, e.tuple = c) ↔ connCount c table ≠ 0 := by
  rw [ne_eq, connCount_eq_zero]
  simp [Absent]

theorem removeOp_gone_iff (hc : c ≠ default) (hb : S.nat.Booked) :
    Gone c ((CtListener.removeOp rule isTempEntry).run d S.nat) ↔
      (connCount c S.nat.app.cache = 0 ∨ isTempEntry = false ∧ rule.tuple = c) ∧
      (connCount c S.nat.app.temp = 0 ∨
        isTempEntry ∧ rule.tuple = c ∧ connCount c S.nat.app.temp = 1) := by
  have hle : connCount c S.nat.app.cache ≤ 1 := Booked.connCount_le hb hc
  rw [gone_iff]
  cases isTempEntry with
  | false =>
    have hcache : connCount c (AppOp.run d S.nat (.deleteEntry rule)).app.cache = _ :=
      deleteEntry_connCount hc
    have htemp : (AppOp.run d S.nat (.deleteEntry rule)).app.temp = S.nat.app.temp :=
      AppOp.run_temp (by simp) (by simp)
    simp only [CtListener.removeOp, Bool.false_eq_true, if_false]
    rw [hcache, htemp]
    by_cases hr : rule.tuple = c
    · simp only [hr, if_true, and_self, or_true, true_and, false_and, or_false]
      omega
    · simp [hr]
  | true =>
    have htemp : connCount c (AppOp.run d S.nat (.deleteTempEntry rule)).app.temp = _ :=
      deleteTempEntry_connCount hc
    have hcache : (AppOp.run d S.nat (.deleteTempEntry rule)).app.cache = S.nat.app.cache :=
      deleteTempEntry_rule (I := fun s => s.app.cache = S.nat.app.cache) rfl fun _ _ h => h
    simp only [CtListener.removeOp, if_true]
    rw [htemp, hcache]
    by_cases hr : rule.tuple = c
    · simp only [hr, if_true, Bool.true_eq_false, false_and, or_false, true_and]
      omega
    · simp [hr]

theorem gone_iff_placed (hc : c ≠ default) (hb : S.nat.Booked) (hconn : msg.conn.TcpUdp) (hclose : msg.Closes) :
    Gone c (S.step d (.ctMessage config msg)).nat ↔ Placed S config msg c := by
  have hstep : (S.step d (.ctMessage config msg)).nat =
      (S.ct.processCTMessage config msg).foldl (AppOp.run d) S.nat := rfl
  have hplaced : Placed S config msg c ↔ (connCount c S.nat.app.cache = 0 ∨ S.ct.Routes config msg c false) ∧
      (connCount c S.nat.app.temp = 0 ∨ S.ct.Routes config msg c true ∧ connCount c S.nat.app.temp = 1) := by
    rw [or_iff_not_imp_left, or_iff_not_imp_left, ← ne_eq, ← ne_eq, ← not_gone_iff, ← not_gone_iff]
    exact ⟨fun h => ⟨h.cached, h.temp⟩, fun h => ⟨h.1, h.2⟩⟩
  rw [hstep, hplaced]
  simp only [routes_iff]
  cases hrule : S.ct.ctRule config msg with
  | none =>
    rw [processCTMessage_none hrule]
    simp [gone_iff]
  | some r =>
    obtain ⟨_, isTempEntry⟩ := r
    rw [processCTMessage_closes hconn hclose hrule, foldl_cons, foldl_nil, removeOp_gone_iff hc hb]
    cases isTempEntry <;> simp

end

/-! ### After that -/

/-- The operation stores connection `c`. -/
def AppOp.Stores (c : NatTuple) : AppOp → Prop
  | .addEntry rule | .cacheEntry rule | .addTempEntry rule => rule.tuple = c
  | _ => False

section

variable {σ : Type} {d : NatDriver σ} {s : AppState σ} {c : NatTuple} {t : LoopState σ}
variable {hdl h : UInt32} {rule e e' : NatTableEntry} {l1 l2 : List NatTableEntry}

theorem Absent.replace (ha : Absent c (l1 ++ e :: l2)) (he' : e'.tuple ≠ c) : Absent c (l1 ++ e' :: l2) := by
  intro x hx
  rcases mem_replace hx with rfl | hx
  · exact he'
  · exact ha x (mem_of_others hx)

theorem default_tuple_ne (hc : c ≠ default) : (default : NatTableEntry).tuple ≠ c :=
  not_tuple_of_free hc isFree_default

theorem reinstall_absent (hc : c ≠ default) (ha : Absent c (l1 ++ e :: l2)) :
    Absent c (l1 ++ (reinstall d hdl t e).2 :: l2) := by
  refine ha.replace ?_
  unfold reinstall
  dsimp only
  split
  · exact default_tuple_ne hc
  · exact ha e (by simp)

theorem withdraw_absent (ha : Absent c (l1 ++ e :: l2)) : Absent c (l1 ++ (withdraw d hdl h t e).2 :: l2) := by
  refine ha.replace ?_
  unfold withdraw
  dsimp only
  split <;> exact ha e (by simp)

theorem evict_absent (hc : c ≠ default) (ha : Absent c (l1 ++ e :: l2)) :
    Absent c (l1 ++ (evict d hdl t e).2 :: l2) := by
  refine ha.replace ?_
  unfold evict
  dsimp only
  split
  · split
    · exact ha e (by simp)
    · exact default_tuple_ne hc
  · exact default_tuple_ne hc

theorem addEntry_absent (ha : Absent c s.app.cache) (hrule : rule.tuple ≠ c) :
    Absent c (addEntry d rule s).2.app.cache := by
  refine addEntry_rule (P := fun _ cache => Absent c cache) ha (fun l1 slot l2 _ _ hl _ => (hl ▸ ha).replace hrule)
    (fun l1 slot l2 ret ruleHdl drv _ _ _ hl _ => ?_)
    (fun l1 slot l2 ret ruleHdl drv _ _ _ _ hl _ => (hl ▸ ha).replace hrule)
  have ha' : Absent c (l1 ++ slot :: l2) := hl ▸ ha
  exact ha'.replace (ha' slot (by simp))

theorem flushTempEntries_absent {ip : UInt32} {isAdd : Bool} (hg : Gone c s) :
    Absent c (flushTempEntries d ip isAdd s).app.cache :=
  flushTempEntries_rule (I := fun s => Absent c s.app.cache) (Q := (·.tuple ≠ c)) hg.1 hg.2
    (fun _ _ ha => ha) fun _ _ hq ha => addEntry_absent ha hq

theorem AppOp.absent_cache (hc : c ≠ default) {op : AppOp} (hg : Gone c s) (hop : ¬ op.Stores c) :
    Absent c (op.run d s).app.cache := by
  have ha := hg.1
  cases op with
  | addTable =>
    exact (addTable_rule (P := fun _ cache => Absent c cache) (Q := fun _ => True) rfl ha
      (fun _ _ => trivial) fun _ t l1 e l2 _ _ ha => reinstall_absent hc ha).1
  | deleteTable ip =>
    have heq : (AppOp.run d s (.deleteTable ip)).app.cache = s.app.cache := deleteTable_frame.1
    rwa [heq]
  | addEntry => exact addEntry_absent ha hop
  | deleteEntry =>
    exact deleteEntry_rule (P := fun _ cache => Absent c cache) ha
      fun l1 e l2 hl _ => (hl ▸ ha).replace (default_tuple_ne hc)
  | cacheEntry =>
    exact cacheEntry_rule (P := fun _ cache => Absent c cache) ha fun l1 slot l2 _ _ hl _ => (hl ▸ ha).replace hop
  | updatePwrSaveIf =>
    exact updatePwrSaveIf_rule (P := fun _ cache => Absent c cache) ha fun t l1 e l2 _ _ ha => withdraw_absent ha
  | resetPwrSaveIf =>
    exact resetPwrSaveIf_rule (P := fun _ cache => Absent c cache) (Q := fun _ => True) ha
      (fun _ _ => trivial) fun t l1 e l2 _ _ _ _ ha => reinstall_absent hc ha
  | delEntriesOnClntDiscon =>
    exact delEntriesOnClntDiscon_rule (P := fun _ cache => Absent c cache) (Q := fun _ => True) ha
      (fun _ _ => trivial) fun t l1 e l2 _ _ _ ha => withdraw_absent ha
  | delEntriesOnSTAClntDiscon =>
    exact delEntriesOnSTAClntDiscon_rule (P := fun _ cache => Absent c cache) ha
      fun t l1 e l2 _ _ ha => evict_absent hc ha
  | addTempEntry =>
    exact addTempEntry_rule (I := fun s => Absent c s.app.cache) ha fun _ _ ha => ha
  | deleteTempEntry =>
    exact deleteTempEntry_rule (I := fun s => Absent c s.app.cache) ha fun _ _ ha => ha
  | flushTempEntries => exact flushTempEntries_absent hg

theorem AppOp.absent_temp (hc : c ≠ default) {op : AppOp} (ha : Absent c s.app.temp)
    (hop : ¬ op.Stores c) : Absent c (op.run d s).app.temp := by
  by_cases htemp : (∀ rule, op ≠ .addTempEntry rule ∧ op ≠ .deleteTempEntry rule) ∧
      ∀ ip isAdd, op ≠ .flushTempEntries ip isAdd
  · rwa [AppOp.run_temp htemp.1 htemp.2]
  cases op with
  | addTempEntry rule =>
    simp only [AppOp.run, Ipacm.addTempEntry]
    split
    · exact ha
    · rename_i temp heq
      obtain ⟨l1, slot, l2, hl, -, -, -, rfl⟩ := updateFirst_eq_some.mp heq
      exact (hl ▸ ha : Absent c (l1 ++ slot :: l2)).replace hop
  | deleteTempEntry rule =>
    simp only [AppOp.run, Ipacm.deleteTempEntry]
    split
    · exact ha
    · rename_i temp heq
      obtain ⟨l1, slot, l2, hl, -, -, -, rfl⟩ := updateFirst_eq_some.mp heq
      exact (hl ▸ ha : Absent c (l1 ++ slot :: l2)).replace (default_tuple_ne hc)
  | flushTempEntries =>
    intro e he
    rcases flushTempEntries_temp e he with rfl | he
    · exact default_tuple_ne hc
    · exact ha e he
  | _ => exact absurd ⟨by simp, by simp⟩ htemp

theorem storeOp_held {l : CtListener} {isTempEntry : Bool} (hc : c ≠ default) (hheld : ∃ e ∈ s.app.cache, e.tuple = c) :
    ∃ e ∈ ((l.storeOp rule isTempEntry).run d s).app.cache, e.tuple = c := by
  have hkeep : ∀ {l1 slot e' l2}, s.app.cache = l1 ++ slot :: l2 → slot.isFree = true →
      ∃ e ∈ l1 ++ e' :: l2, e.tuple = c := fun {l1 slot e' l2} hl hfree => by
    obtain ⟨e, he, htuple⟩ := hheld
    rw [hl] at he
    rcases mem_replace he with rfl | he
    · exact absurd htuple (not_tuple_of_free hc hfree)
    · exact ⟨e, mem_of_others he, htuple⟩
  unfold CtListener.storeOp
  split
  · exact cacheEntry_rule (P := fun _ cache => ∃ e ∈ cache, e.tuple = c) hheld
      fun l1 slot l2 _ _ hl hfree => hkeep hl hfree
  split
  · exact addTempEntry_rule (I := fun s => ∃ e ∈ s.app.cache, e.tuple = c) hheld fun _ _ h => h
  exact addEntry_rule (P := fun _ cache => ∃ e ∈ cache, e.tuple = c) hheld
    (fun l1 slot l2 _ _ hl hfree => hkeep hl hfree)
    (fun l1 slot l2 ret ruleHdl drv _ _ _ hl hfree => hkeep hl hfree)
    (fun l1 slot l2 ret ruleHdl drv _ _ _ _ hl hfree => hkeep hl hfree)

theorem storeOps_held {l : CtListener} {ops : List AppOp} (hc : c ≠ default)
    (hops : ∀ op ∈ ops, ∃ rule isTempEntry, op = l.storeOp rule isTempEntry) (hheld : ∃ e ∈ s.app.cache, e.tuple = c) :
    ∃ e ∈ (ops.foldl (AppOp.run d) s).app.cache, e.tuple = c := by
  induction ops generalizing s with
  | nil => exact hheld
  | cons op _ ih =>
    obtain ⟨_, _, rfl⟩ := hops op (mem_cons_self ..)
    exact ih (fun op' hop => hops op' (mem_cons_of_mem _ hop)) (storeOp_held hc hheld)

theorem AppReach.gone {s₀ : AppState σ} (hc : c ≠ default) (hg : Gone c s₀)
    (h : AppReach d (fun _ op => ¬ op.Stores c) s₀ s) : Gone c s := by
  induction h with
  | start => exact hg
  | step _ _ hop ih => exact ⟨AppOp.absent_cache hc ih hop, AppOp.absent_temp hc ih.2 hop⟩

end

/-! ### Runs -/

section

variable {σ : Type} {d : NatDriver σ} {S0 S S1 : CtSys σ} {config config' : Option Config}
variable {msg msg' : CtMsg} {rule : NatTableEntry} {isTempEntry : Bool}

/-- **What a closed connection leaves behind.**  The listener has handled the
message that a connection came up, any events follow, and then the message that
the connection has closed.  If the listener takes that for what it is, the
connection is gone if and only if it was where the message points to, once, and
nowhere else.  If not, a cached connection stays.  Once it is gone, only a message
that stores it anew brings it back. -/
theorem closedConn_gone_iff (hfresh : FreshApp S0.nat.app) (h : CtReach d (fun _ _ => True) S0 S)
    (hopen : S.ct.storeOp rule isTempEntry ∈ S.ct.processCTMessage config msg)
    (h1 : CtReach d (fun _ _ => True) (S.step d (.ctMessage config msg)) S1)
    (hsame : msg'.conn = msg.conn) (hdes : msg'.Destroys) :
    (msg'.Closes → (Gone rule.tuple (S1.step d (.ctMessage config' msg')).nat ↔
      Placed S1 config' msg' rule.tuple)) ∧
    (¬ msg'.Closes → (∃ e ∈ S1.nat.app.cache, e.tuple = rule.tuple) →
      ¬ Gone rule.tuple (S1.step d (.ctMessage config' msg')).nat) ∧
    (Gone rule.tuple (S1.step d (.ctMessage config' msg')).nat →
      ∀ S2, CtReach d (fun _ op => ¬ op.Stores rule.tuple)
        (S1.step d (.ctMessage config' msg')) S2 → Gone rule.tuple S2.nat) := by
  have hc : rule.tuple ≠ default := fun hdef => by
    have hzero : rule.protocol = 0 := congrArg NatTuple.protocol hdef
    have hproto := storeOp_protocol (CtEvent.tcpUdp (.ctMessage config msg) hopen)
    rw [hzero] at hproto
    revert hproto
    decide
  have hconn : msg'.conn.TcpUdp := hsame ▸ processCTMessage_tcpUdp hopen
  have hreach : CtReach d (fun _ _ => True) S0 S1 := (h.step _ (CallsOk.of_forall fun _ _ _ => trivial)).trans h1
  refine ⟨fun hclose => gone_iff_placed hc (hreach.booked hfresh) hconn hclose,
    fun hclose hheld hg => ?_, fun hg S2 h2 => h2.app.gone hc hg⟩
  -- the message counts as one that the connection has come up
  obtain ⟨htcp, hest⟩ : msg'.conn.replL4proto = ipprotoTcp ∧ msg'.tcpState = .established := by
    by_contra hnot
    exact hclose ⟨hdes, hnot⟩
  obtain ⟨e, he, htuple⟩ := storeOps_held (d := d) hc
    (fun op hop => processCTMessage_established htcp hest hop) hheld
  exact hg.1 e he htuple

/-- The WAN interface and the client are up. -/
def sampleReady : CtSys (Option (UInt32 → Option IpaNatIpv4Rule) × List Refusal) :=
  [.wanUp 0x0A000001 false, sampleNeigh].foldl (CtSys.step mapDriver.logged) sampleSys

theorem sampleReady_reach : CtReach mapDriver.logged (fun _ _ => True) sampleSys sampleReady :=
  (CtReach.start.step _ (CallsOk.of_forall fun _ _ _ => trivial)).step _ (CallsOk.of_forall fun _ _ _ => trivial)

theorem closedConn_gone_sample : (∃ e ∈ (sampleReady.step mapDriver.logged sampleUp).nat.app.cache,
      e.tuple = sampleConn.tuple) ∧
    Gone sampleConn.tuple ((sampleReady.step mapDriver.logged sampleUp).step mapDriver.logged
      (.ctMessage (some sampleConfig) (sampleMsg .finWait .update))).nat := by
  refine ⟨by decide, ?_⟩
  have hopen : sampleReady.ct.storeOp sampleConn false ∈
      sampleReady.ct.processCTMessage (some sampleConfig) (sampleMsg .established .update) := by
    decide
  have hclose : (sampleMsg .finWait .update).Closes := ⟨Or.inr ⟨rfl, rfl⟩, by decide⟩
  have hplaced : Placed (sampleReady.step mapDriver.logged sampleUp) (some sampleConfig)
      (sampleMsg .finWait .update) sampleConn.tuple := by
    refine ⟨fun _ => ⟨sampleConn, by decide, by decide, Or.inr ⟨by decide,
      rfl, Or.inl ⟨by decide, rfl⟩⟩⟩, fun htemp => ?_⟩
    exact absurd htemp (by decide)
  have hsame : (sampleMsg .finWait .update).conn = (sampleMsg .established .update).conn := rfl
  exact ((closedConn_gone_iff ⟨_, _, _, _, rfl⟩ sampleReady_reach hopen CtReach.start hsame
    hclose.1).1 hclose).mpr hplaced

/-- With the WAN interface down, the connection of an unknown client is cached.
When it closes, the listener looks among the temporary entries. -/
theorem closedConn_left : FreshApp sampleSys.nat.app ∧ sampleSys.ct.storeOp sampleConn true ∈
      sampleSys.ct.processCTMessage (some sampleConfig) (sampleMsg .established .update) ∧
    (sampleMsg .finWait .update).Closes ∧
    ¬ Gone sampleConn.tuple ((sampleSys.step mapDriver.logged sampleUp).step mapDriver.logged
      (.ctMessage (some sampleConfig) (sampleMsg .finWait .update))).nat := by
  refine ⟨⟨_, _, _, _, rfl⟩, by decide, ⟨Or.inr ⟨rfl, rfl⟩, by decide⟩, fun hg => ?_⟩
  obtain ⟨e, he, htuple⟩ : ∃ e ∈ ((sampleSys.step mapDriver.logged sampleUp).step mapDriver.logged
      (.ctMessage (some sampleConfig) (sampleMsg .finWait .update))).nat.app.cache,
      e.tuple = sampleConn.tuple := by
    decide
  exact hg.1 e he htuple

end

end G4Common.Ipacm

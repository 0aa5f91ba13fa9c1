/-
Runs of the listener.

A run of events is a run of the operations that the events call
(`CtReach.app`), and these are about TCP and UDP connections only
(`CtEvent.tcpUdp`).  So the invariants of the cache hold along every run of
events.
-/
import G4Common.Ipacm.CtListener
import G4Common.Ipacm.NatSync

namespace G4Common.Ipacm

open List Option

open IpaNat (IpaNatIpv4Rule ipprotoTcp ipprotoUdp)

/-! ### Runs -/

/-- Each operation of the list satisfies `ok` when its turn comes. -/
def CallsOk {σ : Type} (d : NatDriver σ) (ok : AppState σ → AppOp → Prop) :
    AppState σ → List AppOp → Prop
  | _, [] => True
  | s, op :: ops => ok s op ∧ CallsOk d ok (op.run d s) ops

/-- The states of runs of events in which every operation that is called
satisfies `ok`. -/
inductive CtReach {σ : Type} (d : NatDriver σ) (ok : AppState σ → AppOp → Prop) (S0 : CtSys σ) :
    CtSys σ → Prop
  | start : CtReach d ok S0 S0
  | step {S : CtSys σ} (ev : CtEvent) : CtReach d ok S0 S →
      CallsOk d ok S.nat (ev.handle S.ct).2 → CtReach d ok S0 (S.step d ev)

section

variable {σ : Type} {d : NatDriver σ} {ok ok' : AppState σ → AppOp → Prop}
variable {s₀ s : AppState σ} {S0 S : CtSys σ} {ops : List AppOp}

theorem CallsOk.of_forall (hok : ∀ s, ∀ op ∈ ops, ok s op) : CallsOk d ok s ops := by
  induction ops generalizing s with
  | nil => trivial
  | cons op _ ih =>
    exact ⟨hok s op (mem_cons_self ..), ih fun s op' hop => hok s op' (mem_cons_of_mem _ hop)⟩

theorem CallsOk.mono (hok : ∀ s, ∀ op ∈ ops, ok s op → ok' s op) (h : CallsOk d ok s ops) : CallsOk d ok' s ops := by
  induction ops generalizing s with
  | nil => trivial
  | cons op _ ih =>
    exact ⟨hok s op (mem_cons_self ..) h.1, ih (fun s op' hop => hok s op' (mem_cons_of_mem _ hop)) h.2⟩

theorem AppReach.calls (h : AppReach d ok s₀ s) (hops : CallsOk d ok s ops) :
    AppReach d ok s₀ (ops.foldl (AppOp.run d) s) := by
  induction ops generalizing s with
  | nil => exact h
  | cons op _ ih => exact ih (h.step op hops.1) hops.2

theorem CtReach.trans {S1 : CtSys σ} (h : CtReach d ok S0 S) (h1 : CtReach d ok S S1) : CtReach d ok S0 S1 := by
  induction h1 with
  | start => exact h
  | step ev _ hops ih => exact ih.step ev hops

theorem CtReach.app (h : CtReach d ok S0 S) : AppReach d ok S0.nat S.nat := by
  induction h with
  | start => exact AppReach.start
  | step _ _ hops ih => exact ih.calls hops

theorem CtReach.mono (hok : ∀ (S : CtSys σ) (ev : CtEvent), ∀ op ∈ (ev.handle S.ct).2,
    ∀ s, ok s op → ok' s op) (h : CtReach d ok S0 S) : CtReach d ok' S0 S := by
  induction h with
  | start => exact CtReach.start
  | step ev _ hops ih => exact ih.step ev (hops.mono fun s op hop => hok _ ev op hop s)

end

/-! ### What a message calls -/

section

variable {l : CtListener} {config : Option Config} {msg : CtMsg} {rule : NatTableEntry}
variable {isTempEntry : Bool} {op : AppOp}

theorem parseRule_protocol (h : l.parseRule msg = some rule) : rule.protocol = msg.conn.replL4proto := by
  unfold CtListener.parseRule at h
  obtain ⟨⟨dstNat, _⟩, -, rfl⟩ := map_eq_some_iff.mp h
  cases dstNat <;> rfl

theorem routeRule_protocol {rule' : NatTableEntry}
    (h : l.routeRule config rule = some (rule', isTempEntry)) : rule'.protocol = rule.protocol := by
  unfold CtListener.routeRule at h
  split at h
  · split at h
    · obtain ⟨rfl, -⟩ := Prod.mk.inj (some.inj h)
      rfl
    split at h
    · simp at h
    split at h
    · obtain ⟨rfl, -⟩ := Prod.mk.inj (some.inj h)
      rfl
    · simp at h
  split at h
  · simp at h
  · obtain ⟨rfl, -⟩ := Prod.mk.inj (some.inj h)
    rfl

theorem ctRule_eq_some : l.ctRule config msg = some (rule, isTempEntry) ↔ ∃ parsed, l.parseRule msg = some parsed ∧
      l.routeRule config parsed = some (rule, isTempEntry) ∧ l.staFilter rule = true := by
  unfold CtListener.ctRule
  cases hparse : l.parseRule msg with
  | none => simp
  | some parsed =>
    cases hroute : l.routeRule config parsed with
    | none => simp [hroute]
    | some r =>
      obtain ⟨rule', _⟩ := r
      by_cases hsta : l.staFilter rule' = true
      · simp only [bind_eq_bind, bind_some, hroute, hsta, if_true, some.injEq, Prod.mk.injEq, exists_eq_left']
        constructor
        · rintro ⟨rfl, rfl⟩
          exact ⟨⟨rfl, rfl⟩, hsta⟩
        · exact fun h => h.1
      simp only [bind_eq_bind, bind_some, hroute, hsta, Bool.false_eq_true,
        if_false, reduceCtorEq, some.injEq, Prod.mk.injEq, exists_eq_left', false_iff]
      rintro ⟨⟨rfl, rfl⟩, h⟩
      exact hsta h

theorem ctRule_protocol (h : l.ctRule config msg = some (rule, isTempEntry)) :
    rule.protocol = msg.conn.replL4proto := by
  obtain ⟨_, hparse, hroute, -⟩ := ctRule_eq_some.mp h
  rw [routeRule_protocol hroute, parseRule_protocol hparse]

theorem storeOp_tcpUdp (h : rule.protocol = ipprotoTcp ∨ rule.protocol = ipprotoUdp) :
    (l.storeOp rule isTempEntry).TcpUdp := by
  unfold CtListener.storeOp
  split
  · exact h
  · split <;> exact h

theorem removeOp_tcpUdp (h : rule.protocol = ipprotoTcp ∨ rule.protocol = ipprotoUdp) :
    (CtListener.removeOp rule isTempEntry).TcpUdp := by
  unfold CtListener.removeOp
  split <;> exact h

theorem processCTMessage_cases (h : op ∈ l.processCTMessage config msg) :
    ∃ rule isTempEntry, l.ctRule config msg = some (rule, isTempEntry) ∧
      (rule.protocol = ipprotoTcp ∨ rule.protocol = ipprotoUdp) ∧
      (op = l.storeOp rule isTempEntry ∨ op = CtListener.removeOp rule isTempEntry) := by
  unfold CtListener.processCTMessage at h
  split at h
  · simp at h
  unfold CtListener.processTCPorUDPMsg at h
  split at h
  · simp at h
  rename_i rule isTempEntry hrule
  refine ⟨rule, isTempEntry, hrule, ?_⟩
  split at h
  · rename_i htcp
    refine ⟨Or.inl htcp, ?_⟩
    split at h
    · exact .inl (mem_singleton.mp h)
    · split at h
      · exact .inr (mem_singleton.mp h)
      · simp at h
  split at h
  · rename_i hudp
    refine ⟨Or.inr hudp, ?_⟩
    split at h
    · exact .inl (mem_singleton.mp h)
    · split at h
      · exact .inr (mem_singleton.mp h)
      · simp at h
  · simp at h

theorem CtEvent.tcpUdp (ev : CtEvent) (h : op ∈ (ev.handle l).2) : op.TcpUdp := by
  have hnonnat : ∀ {ip}, op ∈ (l.cacheNonnatIface ip).2 → op.TcpUdp := fun h => by
    unfold CtListener.cacheNonnatIface at h
    split at h
    · simp at h
    · rw [mem_singleton.mp h]
      trivial
  cases ev with
  | wanUp =>
    simp only [CtEvent.handle, CtListener.triggerWANUp] at h
    split at h
    · simp at h
    · rw [mem_singleton.mp h]
      trivial
  | wanDown =>
    simp only [CtEvent.handle, CtListener.triggerWANDown] at h
    split at h
    · rw [mem_singleton.mp h]
      trivial
    · simp at h
  | neighAdd =>
    simp only [CtEvent.handle, CtListener.handleNeighIpAddrAddEvt] at h
    split at h
    · simp at h
    split at h
    · split at h
      · simp at h
      split at h
      · split at h
        · exact hnonnat h
        · simp only [mem_cons, not_mem_nil, or_false] at h
          rcases h with rfl | rfl <;> trivial
        · simp at h
      · exact hnonnat h
    · simp at h
  | neighDel =>
    simp only [CtEvent.handle, CtListener.handleNeighIpAddrDelEvt] at h
    split at h
    · simp at h
    · simp only [mem_cons, not_mem_nil, or_false] at h
      rcases h with rfl | rfl <;> trivial
  | staClientAdd => simp [CtEvent.handle] at h
  | staClientDel =>
    simp only [CtEvent.handle, CtListener.handleSTAClientDelEvt] at h
    split at h
    · simp at h
    · rw [mem_singleton.mp h]
      trivial
  | ctMessage =>
    obtain ⟨_, _, -, hproto, rfl | rfl⟩ := processCTMessage_cases h
    · exact storeOp_tcpUdp hproto
    · exact removeOp_tcpUdp hproto
  | pwrSaveStart | pwrSaveEnd =>
    rw [mem_singleton.mp h]
    trivial

end

theorem CtReach.booked {σ : Type} {d : NatDriver σ} {ok : AppState σ → AppOp → Prop}
    {S0 S : CtSys σ} (hfresh : FreshApp S0.nat.app) (h : CtReach d ok S0 S) : S.nat.Booked := by
  have h' : CtReach d (fun _ op => op.TcpUdp) S0 S := h.mono fun _ ev _ hop _ _ => ev.tcpUdp hop
  exact h'.app.booked (fun _ _ hop => hop) hfresh

end G4Common.Ipacm

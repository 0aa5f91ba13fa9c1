/-
Which failures the ethernet clients survive.

A function that fails at its first call has done nothing, and a failed deletion of a
header leaves its flag.  Every other failure separates the records from the kernel:
the second header or a later rule of a client fails, and what was made before has no
flag; a later rule cannot be deleted, and those before are deleted again; the kernel
refuses to delete a rule, or a deletion fails while the address changes, and the rule
is forgotten.  Without these (`EthFaultOk`) the invariant of `EthRuns` holds in every run.
-/
import G4Common.Ipacm.EthFaults
import G4Common.Ipacm.EthRuns

namespace G4Common.Ipacm

open List Option Function

section

variable {env : EthEnv} {out : ℕ → Outcome} {s s' : EthTable} {k k' : EthKernel} {c c' : EthClient}
  {i n : ℕ} {ip : IpType}
variable {r : EthKernel × Bool} {mac : MacAddr} {o : Outcome}

/-! ### No failures -/

theorem addHeaderFault_ok {hdr : EthHdr} (h : o = .ok) :
    addHeaderFault env o k hdr = (addHeader env k hdr).map fun r => (r.1, some r.2) :=
  if_pos h

theorem addRoutingRuleFault_ok {rule : RtRule} (h : o = .ok) :
    addRoutingRuleFault env o k ip rule = (addRoutingRule env k ip rule).map fun r => (r.1, some r.2) :=
  if_pos h

theorem ok_shift {j len : ℕ} (h : ∀ m < len, out (n + (m + j)) = .ok) : ∀ m < len, out (n + j + m) = .ok := by
  intro m hm
  rw [Nat.add_assoc, Nat.add_comm j]
  exact h m hm

theorem deleteRtHdls_ok {hdls : List UInt32} (h : ∀ m < hdls.length, out (n + m) = .ok) :
    deleteRtHdls out ip hdls n k =
      (hdls.foldl (fun k h => deleteRoutingHdl k ip h) k, n + hdls.length, true) := by
  induction hdls generalizing n k with
  | nil => rfl
  | cons _ rest ih =>
    have hfirst : out n = .ok := h 0 (Nat.zero_lt_succ _)
    have hrest := ok_shift fun m hm => h (m + 1) (Nat.succ_lt_succ hm)
    rw [deleteRtHdls, deleteRoutingHdlFault, if_pos (Or.inl hfirst)]
    dsimp only
    rw [if_pos rfl, ih hrest, length_cons, foldl_cons, Nat.add_assoc, Nat.add_comm 1]

theorem deleteEthRtrulesFault_ok (h : ∀ m < (rtHdls env (s.ethClient i) ip).length, out (n + m) = .ok) :
    deleteEthRtrulesFault env out s n i ip =
      (deleteEthRtrules env s i ip, n + (rtHdls env (s.ethClient i) ip).length, true) := by
  unfold deleteEthRtrulesFault
  dsimp only
  rw [deleteRtHdls_ok h]
  rfl

theorem addEthHdrFault_ok (h : ip ∈ env.tx → o = .ok) :
    addEthHdrFault env o k c ip = (addEthHdr env k c ip).map fun r => (r.1, r.2, true) := by
  cases ip with
  | v4 | v6 =>
    simp only [addEthHdrFault, addEthHdr]
    split_ifs with htx
    · rw [addHeaderFault_ok (h htx), Option.map_map, Option.map_map]
      rfl
    · rfl

theorem addRtV4Fault_ok {js : List ℕ} (h : ∀ m < js.length, out (n + m) = .ok) :
    addRtV4Fault env out js n k c = (addRtV4 env js k c).map fun r => (r.1, r.2, true) := by
  induction js generalizing n k c with
  | nil => rfl
  | cons j rest ih =>
    have hfirst : out n = .ok := h 0 (Nat.zero_lt_succ _)
    have hrest := ok_shift fun m hm => h (m + 1) (Nat.succ_lt_succ hm)
    rw [addRtV4Fault, addRtV4, addRoutingRuleFault_ok hfirst]
    cases addRoutingRule env k .v4 (env.ruleV4 c j) with
    | none => rfl
    | some => exact ih hrest

theorem addRtV6Fault_ok {xs : List (ℕ × ℕ)} (h : ∀ m < 2 * xs.length, out (n + m) = .ok) :
    addRtV6Fault env out xs n k c = (addRtV6 env xs k c).map fun r => (r.1, r.2, true) := by
  induction xs generalizing n k c with
  | nil => rfl
  | cons x rest ih =>
    rw [length_cons] at h
    have hlan : out n = .ok := h 0 (by omega)
    have hwan : out (n + 1) = .ok := h 1 (by omega)
    have hrest := ok_shift fun m (_ : m < 2 * rest.length) => h (m + 2) (by omega)
    rw [addRtV6Fault, addRtV6, addRoutingRuleFault_ok hlan]
    cases addRoutingRule env k .v6 (.lanV6 x.1 (c.v6Addr x.2)) with
    | none => rfl
    | some r =>
      show (addRoutingRuleFault env (out (n + 1)) r.1 .v6 (.wanV6 x.1 (c.v6Addr x.2) c.hdrHdlV6)).bind _ =
        Option.map _ ((addRoutingRule env r.1 .v6 (.wanV6 x.1 (c.v6Addr x.2) c.hdrHdlV6)).bind _)
      rw [addRoutingRuleFault_ok hwan]
      cases addRoutingRule env r.1 .v6 (.wanV6 x.1 (c.v6Addr x.2) c.hdrHdlV6) with
      | none => rfl
      | some => exact ih hrest

/-! ### Failures -/

/-- The deletions from call `n` on: the first one has no memory, or all are done. -/
def FirstOrAll (out : ℕ → Outcome) (n len : ℕ) : Prop :=
  out n = .noMem ∨ ∀ m < len, out (n + m) = .ok

/-- The number of rules that `handle_eth_client_route_rule()` makes. -/
def ruleCalls (env : EthEnv) (s : EthTable) (mac : MacAddr) (ip : IpType) : ℕ :=
  match getEthClientIndex s mac with
  | none => 0
  | some i =>
    match ip with
    | .v4 =>
      if (s.ethClient i).routeRuleSetV4 = false ∧ (s.ethClient i).ipv4Set = true then
        (env.txOf .v4).length
      else 0
    | .v6 => 2 * (env.v6Places (s.ethClient i).routeRuleSetV6 (s.ethClient i).ipv6Set).length

/-- The failures of a call that do no harm.  A new client: not the second header
after the first one was made.  A new IPv4 address: none of the deletions.  New rules:
only the first one.  A client that goes: for each IP type only the first deletion, for
want of memory; and any header. -/
def EthFaultOk (env : EthEnv) (s : EthTable) (op : EthFaultOp) (out : ℕ → Outcome) : Prop :=
  match op with
  | .hdrInit mac => getEthClientIndex s mac = none → s.numEthClient < maxNumEthClients →
      .v4 ∈ env.tx → .v6 ∈ env.tx → out 0 = .ok → out 1 = .ok
  | .ipaddr data => ∀ i, getEthClientIndex s data.macAddr = some i → data.iptype = .v4 →
      data.ipv4Addr ≠ 0 → (s.ethClient i).ipv4Set = true → data.ipv4Addr ≠ (s.ethClient i).v4Addr →
      ∀ m < (rtHdls env (s.ethClient i) .v4).length, out m = .ok
  | .routeRule mac ip => out 0 = .ok → ∀ m < ruleCalls env s mac ip, out m = .ok
  | .downEvt mac => ∀ i, getEthClientIndex s mac = some i →
      FirstOrAll out 0 (rtHdls env (s.ethClient i) .v4).length ∧
        ((∀ m < (rtHdls env (s.ethClient i) .v4).length, out m = .ok) →
          FirstOrAll out (rtHdls env (s.ethClient i) .v4).length (rtHdls env (s.ethClient i) .v6).length)

theorem deleteEthRtrulesFault_first (h : EthInv env s) (hi : i < s.numEthClient)
    (hout : out n = .noMem) (hne : rtHdls env (s.ethClient i) ip ≠ []) :
    deleteEthRtrulesFault env out s n i ip = (s, n + 1, false) := by
  obtain ⟨hdl, _, hhdls⟩ := exists_cons_of_ne_nil hne
  obtain ⟨_, rs, ho⟩ := h.owns_at hi
  have hrec : (ip, hdl) ∈ (ruleRecs env (s.ethClient i) ++ rs).map Prod.fst := by
    have hone : (ip, hdl) ∈ (ruleRecsOf env (s.ethClient i) ip).map Prod.fst := by
      rw [rtHdls_eq, hhdls]
      exact mem_cons_self ..
    rw [map_append, ruleRecs, map_append]
    refine mem_append_left _ ?_
    cases ip with
    | v4 => exact mem_append_left _ hone
    | v6 => exact mem_append_right _ hone
  have hnonzero : hdl ≠ 0 := by
    obtain ⟨r, hr, heq⟩ := mem_map.mp hrec
    have hr0 := ho.ruleNonzero r hr
    rw [heq] at hr0
    exact hr0
  have hcall : deleteRoutingHdlFault (out n) s.kernel ip hdl = (s.kernel, false) := by
    unfold deleteRoutingHdlFault
    rw [hout, if_neg (by simp [hnonzero]), ho.rules.refuse hrec]
    rfl
  unfold deleteEthRtrulesFault
  dsimp only
  rw [hhdls, deleteRtHdls, hcall]
  rfl

/-- `delete_eth_rtrules()` keeps the invariant; if it succeeds it is the one without
failures. -/
theorem EthInv.deleteFault (h : EthInv env s) (hi : i < s.numEthClient)
    (hout : FirstOrAll out n (rtHdls env (s.ethClient i) ip).length) :
    deleteEthRtrulesFault env out s n i ip = (s, n + 1, false) ∨
      (deleteEthRtrulesFault env out s n i ip =
        (Ipacm.deleteEthRtrules env s i ip, n + (rtHdls env (s.ethClient i) ip).length, true) ∧
      ∀ m < (rtHdls env (s.ethClient i) ip).length, out (n + m) = .ok) := by
  by_cases hne : rtHdls env (s.ethClient i) ip = []
  · have hall : ∀ m < (rtHdls env (s.ethClient i) ip).length, out (n + m) = .ok := by
      intro m hm
      rw [hne] at hm
      exact absurd hm (Nat.not_lt_zero m)
    exact .inr ⟨deleteEthRtrulesFault_ok hall, hall⟩
  · obtain hfirst | hall := hout
    · exact .inl (deleteEthRtrulesFault_first h hi hfirst hne)
    · exact .inr ⟨deleteEthRtrulesFault_ok hall, hall⟩

theorem deleteHdrFault_spec {set : Bool} {h : UInt32} {hdr : EthHdr}
    {hs : List (UInt32 × EthHdr)} {rs : List ((IpType × UInt32) × RtRule)}
    (hr : (if set then deleteHeaderHdlFault o k h else (k, true)) = r)
    (ho : k.Owns ((if set then [(h, hdr)] else []) ++ hs) rs) : (r.2 ∧ r.1.Owns hs rs) ∨ (r.2 = false ∧ r.1 = k) := by
  subst hr
  cases set with
  | false => exact .inl ⟨rfl, ho⟩
  | true =>
    rw [if_pos rfl]
    unfold deleteHeaderHdlFault
    by_cases hok : o = .ok ∨ h = 0
    · rw [if_pos hok]
      exact .inl ho.deleteHeaderHdl
    · rw [if_neg hok, ho.hdrs.refuse (mem_map.mpr ⟨(h, hdr), mem_cons_self .., rfl⟩)]
      exact .inr ⟨rfl, rfl⟩

theorem Change.dropV4 (hok : c.Ok)
    (hr : (if c.ipv4HeaderSet then deleteHeaderHdlFault o k c.hdrHdlV4 else (k, true)) = r)
    (htrue : r.2) : Change env k c r.1 { c with ipv4HeaderSet := false } := by
  refine ⟨rfl, (by rintro ⟨⟩), id, ⟨hok.v6Le, hok.v6Max, hok.v4⟩, fun hs rs ho => ?_⟩
  rw [hdrRecs, append_assoc] at ho
  obtain ⟨-, ho'⟩ | ⟨hfalse, -⟩ := deleteHdrFault_spec hr ho
  · exact ho'
  · cases htrue.symm.trans hfalse

theorem Change.dropV6 (hv4 : c.ipv4HeaderSet = false) (hno4 : c.routeRuleSetV4 = false) (hno6 : c.routeRuleSetV6 = 0)
    (hr : (if c.ipv6HeaderSet then deleteHeaderHdlFault o k c.hdrHdlV6 else (k, true)) = r) (htrue : r.2) :
    Change env k c r.1 { c with
      ipv4Set := false, ipv6Set := 0, ipv6HeaderSet := false, routeRuleSetV4 := false,
      routeRuleSetV6 := 0 } := by
  refine ⟨rfl, id, (by rintro ⟨⟩),
    ⟨Nat.le_refl _, Nat.zero_le _, (by rintro ⟨⟩)⟩, fun hs rs ho => ?_⟩
  have hhdr : hdrRecs c = hdrRecsOf c .v6 := by
    simp [hdrRecs, hdrRecsOf, hv4]
  rw [ruleRecs_of_no_v4 hno4, ruleRecsOf_v6_nil hno6, hhdr] at ho
  rw [ruleRecs_of_no_v4 rfl, ruleRecsOf_v6_nil rfl]
  obtain ⟨-, ho'⟩ | ⟨hfalse, -⟩ := deleteHdrFault_spec hr ho
  · simpa [hdrRecs, hdrRecsOf, hv4] using ho'
  · cases htrue.symm.trans hfalse

/-! ### The functions -/

theorem ipaddrFault_ok {data : EthData} (hout : EthFaultOk env s (.ipaddr data) out) :
    handleEthClientIpaddrFault env out s data = handleEthClientIpaddr env s data := by
  unfold handleEthClientIpaddrFault handleEthClientIpaddr
  cases hidx : getEthClientIndex s data.macAddr with
  | none => rfl
  | some i =>
    dsimp only
    cases hip : data.iptype with
    | v6 => rfl
    | v4 =>
      -- the two differ in the deletion for a new address only
      refine ite_congr rfl (fun hne => ?_) fun _ => rfl
      refine ite_congr rfl (fun _ => rfl) fun hset => ?_
      refine ite_congr rfl (fun _ => rfl) fun haddr => ?_
      have hall := hout i hidx hip hne (by simpa using hset) haddr
      rw [deleteEthRtrulesFault_ok fun m hm => by rw [Nat.zero_add]; exact hall m hm]

theorem EthInv.ipaddrFault {data : EthData} (h : EthInv env s) (hout : EthFaultOk env s (.ipaddr data) out) :
    EthInv env (handleEthClientIpaddrFault env out s data).1 := by
  rw [ipaddrFault_ok hout]
  exact h.ipaddr data

theorem addRtV4Fault_first {js : List ℕ} (hne : js ≠ []) (hout : out n ≠ .ok) :
    addRtV4Fault env out js n k c = some (k, c, false) := by
  obtain ⟨j, _, rfl⟩ := exists_cons_of_ne_nil hne
  rw [addRtV4Fault, addRoutingRuleFault, if_neg hout]
  rfl

theorem addRtV6Fault_first {xs : List (ℕ × ℕ)} (hne : xs ≠ []) (hout : out n ≠ .ok) :
    addRtV6Fault env out xs n k c = some (k, c, false) := by
  obtain ⟨x, _, rfl⟩ := exists_cons_of_ne_nil hne
  rw [addRtV6Fault, addRoutingRuleFault, if_neg hout]
  rfl

theorem setClient_self : (s.withKernel s.kernel).setClient i (s.ethClient i) = s := by
  show EthTable.mk (update s.ethClient i (s.ethClient i)) s.numEthClient s.kernel = s
  rw [update_eq_self]

theorem routeRuleFault_ok (hall : ∀ m < ruleCalls env s mac ip, out m = .ok) :
    handleEthClientRouteRuleFault env out s mac ip = handleEthClientRouteRule env s mac ip := by
  unfold handleEthClientRouteRuleFault handleEthClientRouteRule
  refine ite_congr rfl (fun _ => rfl) fun _ => ?_
  cases hidx : getEthClientIndex s mac with
  | none => rfl
  | some =>
    rw [ruleCalls, hidx] at hall
    dsimp only at hall ⊢
    cases ip with
    | v4 =>
      refine ite_congr rfl (fun hcond => ?_) fun _ => rfl
      rw [if_pos hcond] at hall
      rw [addRtV4Fault_ok fun m hm => by rw [Nat.zero_add]; exact hall m hm, Option.map_map]
      rfl
    | v6 =>
      refine ite_congr rfl (fun _ => ?_) fun _ => rfl
      rw [addRtV6Fault_ok fun m hm => by rw [Nat.zero_add]; exact hall m hm, Option.map_map]
      rfl

theorem routeRuleFault_first (hfirst : out 0 ≠ .ok)
    (hcalls : ruleCalls env s mac ip ≠ 0) : handleEthClientRouteRuleFault env out s mac ip = some s := by
  unfold handleEthClientRouteRuleFault
  split
  · rfl
  cases hidx : getEthClientIndex s mac with
  | none => rfl
  | some i =>
    rw [ruleCalls, hidx] at hcalls
    dsimp only at hcalls ⊢
    cases ip with
    | v4 =>
      dsimp only at hcalls ⊢
      split_ifs with hcond
      · rw [if_pos hcond] at hcalls
        have hne : env.txOf .v4 ≠ [] := fun hnil => hcalls (by rw [hnil]; rfl)
        rw [addRtV4Fault_first hne hfirst]
        exact congrArg some setClient_self
      · rfl
    | v6 =>
      dsimp only at hcalls ⊢
      split
      · have hne : env.v6Places (s.ethClient i).routeRuleSetV6 (s.ethClient i).ipv6Set ≠ [] :=
          fun hnil => hcalls (by rw [hnil]; rfl)
        rw [addRtV6Fault_first hne hfirst]
        exact congrArg some setClient_self
      · rfl

theorem EthInv.routeRuleFault (h : EthInv env s) (hout : EthFaultOk env s (.routeRule mac ip) out)
    (hstep : handleEthClientRouteRuleFault env out s mac ip = some s') : EthInv env s' := by
  by_cases hall : ∀ m < ruleCalls env s mac ip, out m = .ok
  · rw [routeRuleFault_ok hall] at hstep
    exact h.routeRule hstep
  have hcalls : ruleCalls env s mac ip ≠ 0 := fun hzero => hall fun m hm => by
    rw [hzero] at hm
    exact absurd hm (Nat.not_lt_zero m)
  rw [routeRuleFault_first (fun hok => hall (hout hok)) hcalls] at hstep
  cases hstep
  exact h

theorem hdrInitFault_ok (h4 : .v4 ∈ env.tx → out 0 = .ok) (h6 : .v6 ∈ env.tx → out 1 = .ok) :
    handleEthHdrInitFault env out s mac = handleEthHdrInit env s mac := by
  unfold handleEthHdrInitFault handleEthHdrInit
  cases hidx : getEthClientIndex s mac with
  | some => rfl
  | none =>
    dsimp only
    refine ite_congr rfl (fun _ => rfl) fun _ => ite_congr rfl (fun _ => rfl) fun _ => ?_
    rw [addEthHdrFault_ok h4]
    cases addEthHdr env s.kernel { s.ethClient s.numEthClient with mac := mac } .v4 with
    | none => rfl
    | some r =>
      show (addEthHdrFault env (out 1) r.1 r.2 .v6).bind _ = (addEthHdr env r.1 r.2 .v6).bind _
      rw [addEthHdrFault_ok h6]
      cases addEthHdr env r.1 r.2 .v6 with
      | none | some => rfl

theorem addEthHdrFault_first (htx : ip ∈ env.tx) (hout : o ≠ .ok) :
    addEthHdrFault env o k c ip = some (k, c, false) := by
  cases ip with
  | v4 | v6 =>
    simp only [addEthHdrFault]
    rw [if_pos htx, addHeaderFault, if_neg hout]
    rfl

theorem EthInv.hdrInitFault {b : Bool} (h : EthInv env s) (hout : EthFaultOk env s (.hdrInit mac) out)
    (hstep : handleEthHdrInitFault env out s mac = some (s', b)) : EthInv env s' := by
  by_cases hall : (.v4 ∈ env.tx → out 0 = .ok) ∧ (.v6 ∈ env.tx → out 1 = .ok)
  · rw [hdrInitFault_ok hall.1 hall.2] at hstep
    exact h.hdrInit hstep
  unfold handleEthHdrInitFault at hstep
  split at hstep
  · obtain ⟨rfl, -⟩ := Prod.mk.inj (some.inj hstep)
    exact h
  rename_i hidx
  split at hstep
  · obtain ⟨rfl, -⟩ := Prod.mk.inj (some.inj hstep)
    exact h
  rename_i hroom
  dsimp only at hstep
  split at hstep
  · obtain ⟨rfl, -⟩ := Prod.mk.inj (some.inj hstep)
    exact h.setUnused (h.hdrV4 s.numEthClient) (h.hdrV6 s.numEthClient)
  -- nothing has been made before the header that fails
  by_cases hfirst : .v4 ∈ env.tx ∧ out 0 ≠ .ok
  · rw [addEthHdrFault_first hfirst.1 hfirst.2] at hstep
    obtain ⟨rfl, -⟩ := Prod.mk.inj (some.inj hstep)
    exact h.setUnused (h.hdrV4 s.numEthClient) (h.hdrV6 s.numEthClient)
  have hok4 : .v4 ∈ env.tx → out 0 = .ok := fun htx => by
    by_contra hno
    exact hfirst ⟨htx, hno⟩
  have hsecond : .v6 ∈ env.tx ∧ out 1 ≠ .ok := by
    by_contra hno
    exact hall ⟨hok4, fun htx => by
      by_contra hne
      exact hno ⟨htx, hne⟩⟩
  have hnone : .v4 ∉ env.tx := fun htx =>
    hsecond.2 (hout hidx (Nat.lt_of_not_ge hroom) htx hsecond.1 (hok4 htx))
  rw [addEthHdrFault, if_neg hnone] at hstep
  change (addEthHdrFault env (out 1) _ _ .v6).bind _ = _ at hstep
  rw [addEthHdrFault_first hsecond.1 hsecond.2] at hstep
  obtain ⟨rfl, -⟩ := Prod.mk.inj (some.inj hstep)
  exact h.setUnused (h.hdrV4 s.numEthClient) (h.hdrV6 s.numEthClient)

theorem EthInv.dropFault {o1 o2 : Outcome} {r1 r2 : EthKernel × Bool} (h : EthInv env s)
    (hi : i < s.numEthClient) (hno4 : (s.ethClient i).routeRuleSetV4 = false)
    (hno6 : (s.ethClient i).routeRuleSetV6 = 0)
    (h1 : (if (s.ethClient i).ipv4HeaderSet then
      deleteHeaderHdlFault o1 s.kernel (s.ethClient i).hdrHdlV4 else (s.kernel, true)) = r1)
    (h2 : (if (s.ethClient i).ipv6HeaderSet then
      deleteHeaderHdlFault o2 r1.1 (s.ethClient i).hdrHdlV6 else (r1.1, true)) = r2) :
    (r1.2 = false → s.withKernel r1.1 = s) ∧
      (r1.2 → r2.2 = false → EthInv env
        ((s.withKernel r2.1).setClient i { s.ethClient i with ipv4HeaderSet := false })) ∧
      (r1.2 → r2.2 → EthInv env { s with
        ethClient := shiftClients env (s.numEthClient - 1 - i) i (update s.ethClient i
          { s.ethClient i with
            ipv4HeaderSet := false, ipv4Set := false, ipv6Set := 0, ipv6HeaderSet := false,
            routeRuleSetV4 := false, routeRuleSetV6 := 0 })
        numEthClient := s.numEthClient - 1
        kernel := r2.1 }) := by
  obtain ⟨_, _, ho⟩ := h.owns_at hi
  rw [hdrRecs, append_assoc] at ho
  refine ⟨fun hfalse => ?_, fun htrue hfalse => ?_, fun htrue1 htrue2 => ?_⟩
  · obtain ⟨htrue, -⟩ | ⟨-, hsame⟩ := deleteHdrFault_spec h1 ho
    · cases htrue.symm.trans hfalse
    · rw [hsame]
      rfl
  · obtain ⟨-, ho1⟩ | ⟨hfalse1, -⟩ := deleteHdrFault_spec h1 ho
    · obtain ⟨htrue2, -⟩ | ⟨-, hsame⟩ := deleteHdrFault_spec h2 ho1
      · cases htrue2.symm.trans hfalse
      · rw [hsame]
        exact h.change hi (Change.dropV4 (h.ok i hi) h1 htrue)
    · cases htrue.symm.trans hfalse1
  have hdrop : Change env s.kernel (s.ethClient i) r2.1 _ :=
    (Change.dropV4 (h.ok i hi) h1 htrue1).trans (Change.dropV6 rfl hno4 hno6 h2 htrue2)
  refine h.remove hi hdrop rfl ?_
  rw [ruleRecs_of_no_v4 rfl, ruleRecsOf_v6_nil rfl]

theorem EthInv.downEvtFault (h : EthInv env s) (hout : EthFaultOk env s (.downEvt mac) out) :
    EthInv env (handleEthClientDownEvtFault env out s mac).1 := by
  unfold handleEthClientDownEvtFault
  cases hidx : getEthClientIndex s mac with
  | none => exact h
  | some i =>
    have hi := (getEthClientIndex_some hidx).1
    obtain ⟨hout4, hout6⟩ := hout i hidx
    dsimp only
    obtain heq4 | ⟨heq4, hall4⟩ := h.deleteFault hi hout4
    · rw [heq4]
      exact h
    rw [heq4, if_neg (by simp)]
    simp only [Nat.zero_add] at hall4 ⊢
    have hinv4 := h.deleteEthRtrules hi .v4
    -- the IPv6 rules are those from before
    have hrt : rtHdls env ((Ipacm.deleteEthRtrules env s i .v4).ethClient i) .v6 =
        rtHdls env (s.ethClient i) .v6 := by
      rw [deleteEthRtrules_self]
      rfl
    have hout6 := hout6 hall4
    rw [← hrt] at hout6
    obtain heq6 | ⟨heq6, -⟩ := hinv4.deleteFault hi hout6
    · rw [heq6]
      exact hinv4
    rw [heq6, if_neg (by simp)]
    dsimp only
    have hinv := hinv4.deleteEthRtrules hi .v6
    have hclear : (Ipacm.deleteEthRtrules env (Ipacm.deleteEthRtrules env s i .v4) i .v6).ethClient i =
        ((s.ethClient i).clearRules .v4).clearRules .v6 := by
      rw [deleteEthRtrules_self, deleteEthRtrules_self]
    obtain ⟨t, ht⟩ : ∃ t, Ipacm.deleteEthRtrules env (Ipacm.deleteEthRtrules env s i .v4) i .v6 = t := ⟨_, rfl⟩
    have hit : i < t.numEthClient := by
      rw [← ht]
      exact hi
    rw [ht] at hinv hclear ⊢
    generalize (rtHdls env (s.ethClient i) .v4).length +
      (rtHdls env ((Ipacm.deleteEthRtrules env s i .v4).ethClient i) .v6).length = n
    obtain ⟨r1, h1⟩ : ∃ r, (if (t.ethClient i).ipv4HeaderSet then
      deleteHeaderHdlFault (out n) t.kernel (t.ethClient i).hdrHdlV4 else (t.kernel, true)) = r :=
      ⟨_, rfl⟩
    obtain ⟨_, h2⟩ : ∃ r, (if (t.ethClient i).ipv6HeaderSet then
      deleteHeaderHdlFault (out (n + 1)) r1.1 (t.ethClient i).hdrHdlV6 else (r1.1, true)) = r :=
      ⟨_, rfl⟩
    obtain ⟨hfail1, hfail2, hdone⟩ := hinv.dropFault hit (by rw [hclear]; rfl) (by rw [hclear]; rfl) h1 h2
    rw [h1, h2]
    split
    · rename_i hfalse
      rw [hfail1 hfalse]
      exact hinv
    rename_i htrue
    rw [Bool.not_eq_false] at htrue
    split
    · rename_i hfalse
      exact hfail2 htrue hfalse
    · rename_i htrue2
      rw [Bool.not_eq_false] at htrue2
      exact hdone htrue htrue2

/-! ### Runs -/

/-- What is installed is recorded, and nothing is deleted that is not installed. -/
structure EthRecorded (env : EthEnv) (s : EthTable) : Prop where
  hdrs : ∀ h o, s.kernel.hdrs.installed h = some o → (h, o) ∈ s.hdrRecs
  rules : ∀ h o, s.kernel.rules.installed h = some o → (h, o) ∈ s.ruleRecs env
  hdrsOnce : s.kernel.hdrs.wrong = 0
  rulesOnce : s.kernel.rules.wrong = 0

theorem EthInv.stepFault (h : EthInv env s) {op : EthFaultOp} (hout : EthFaultOk env s op out)
    (hstep : s.stepFault env out op = some s') : EthInv env s' := by
  cases op with
  | hdrInit =>
    obtain ⟨r, hr, rfl⟩ := map_eq_some_iff.mp hstep
    exact h.hdrInitFault hout hr
  | ipaddr =>
    cases hstep
    exact h.ipaddrFault hout
  | routeRule => exact h.routeRuleFault hout hstep
  | downEvt =>
    cases hstep
    exact h.downEvtFault hout

/-- **Every header and rule in the kernel stays recorded, and none is deleted again**,
in every run whose failures do no harm. -/
theorem ethFaults_recorded (h : EthFaultReach env (EthFaultOk env) s) : EthRecorded env s := by
  have hinv : EthInv env s := by
    induction h with
    | start => exact EthInv.init
    | step _ _ _ hout hstep ih => exact ih.stepFault hout hstep
  exact ⟨fun h o => (hinv.owns.hdrs.mem_iff h o).mp, fun h o => (hinv.owns.rules.mem_iff h o).mp,
    hinv.owns.hdrs.wrong, hinv.owns.rules.wrong⟩

end

def EthTable.runFaults (env : EthEnv) : List (EthFaultOp × (ℕ → Outcome)) → EthTable → Option EthTable
  | [], s => some s
  | e :: rest, s => (s.stepFault env e.2 e.1).bind (runFaults env rest)

theorem EthFaultReach.run {env : EthEnv} {s s' : EthTable} {ops : List (EthFaultOp × (ℕ → Outcome))}
    (h : EthFaultReach env (fun _ _ _ => True) s) (hrun : EthTable.runFaults env ops s = some s') :
    EthFaultReach env (fun _ _ _ => True) s' := by
  induction ops generalizing s with
  | nil =>
    cases hrun
    exact h
  | cons e _ ih =>
    obtain ⟨_, h1, hrun⟩ := bind_eq_some_iff.mp hrun
    exact ih (h.step e.1 e.2 trivial h1) hrun

/-- A client gets an IPv6 address. -/
def sampleV6 : List (EthFaultOp × (ℕ → Outcome)) :=
  [(.hdrInit 8, fun _ => .ok), (.ipaddr ⟨8, .v6, 0, ![0xFE800000, 0, 0, 1]⟩, fun _ => .ok)]

theorem ethFaults_recorded_sample : ∃ s, EthFaultReach sampleEthEnv (EthFaultOk sampleEthEnv) s ∧
      s.kernel.rules.installed (.v6, 3) = some (.lanV6 1 ![0xFE800000, 0, 0, 1]) ∧
      EthRecorded sampleEthEnv s := by
  have h1 : EthFaultReach sampleEthEnv (EthFaultOk sampleEthEnv) _ :=
    EthFaultReach.start.step (.hdrInit 8) (fun _ => .ok) (fun _ _ _ _ _ => rfl) rfl
  have h2 := h1.step (.ipaddr ⟨8, .v6, 0, ![0xFE800000, 0, 0, 1]⟩) (fun _ => .ok) (fun _ _ _ _ _ _ _ _ => rfl) rfl
  have h3 := h2.step (.routeRule 8 .v6) (fun _ => .ok) (fun _ _ _ => rfl) rfl
  have h4 := h3.step (.downEvt 8) (fun _ => .noMem) (fun _ _ => ⟨Or.inl rfl, fun _ => Or.inl rfl⟩) rfl
  exact ⟨_, h4, rfl, ethFaults_recorded h4⟩

/-- If the second rule of a client fails, the first one is not recorded.  If its
second deletion fails, the first one is made twice. -/
theorem ethFaults_lost : (∃ s, EthFaultReach sampleEthEnv (fun _ _ _ => True) s ∧
      s.kernel.rules.installed (.v6, 3) = some (.lanV6 1 ![0xFE800000, 0, 0, 1]) ∧
      ¬ EthRecorded sampleEthEnv s) ∧
    ∃ s, EthFaultReach sampleEthEnv (fun _ _ _ => True) s ∧ s.kernel.rules.wrong = 1 := by
  refine ⟨?_, ?_⟩
  · obtain ⟨s, hs, hrule, hrecs⟩ : ∃ s, EthTable.runFaults sampleEthEnv (sampleV6 ++
        [(.routeRule 8 .v6, fun n => if n = 0 then .ok else .refused)]) .init = some s ∧
        s.kernel.rules.installed (.v6, 3) = some (.lanV6 1 ![0xFE800000, 0, 0, 1]) ∧
        s.ruleRecs sampleEthEnv = [] := ⟨_, rfl, rfl, rfl⟩
    refine ⟨s, EthFaultReach.start.run hs, hrule, fun hrec => ?_⟩
    have hmem := hrec.rules _ _ hrule
    rw [hrecs] at hmem
    exact nomatch hmem
  obtain ⟨s, hs, hwrong⟩ : ∃ s, EthTable.runFaults sampleEthEnv (sampleV6 ++
      [(.routeRule 8 .v6, fun _ => .ok), (.downEvt 8, fun n => if n = 0 then .ok else .noMem),
        (.downEvt 8, fun _ => .ok)]) .init = some s ∧ s.kernel.rules.wrong = 1 := ⟨_, rfl, rfl⟩
  exact ⟨s, EthFaultReach.start.run hs, hwrong⟩

end G4Common.Ipacm

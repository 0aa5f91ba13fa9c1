/-
The kernel objects of one ethernet client.

A record stands for headers and routing rules: `hdrRecs` and `ruleRecs` list them,
with their handles, as far as the flags and counters of the record say.  `Owns`
says that the kernel has exactly the objects of two such lists, none under the
handle 0, and that no deletion was wrong.

Each function that works on a record is a `Change` of the record and the kernel:
whatever others own stays, and what the record says stays right.
-/
import G4Common.Ipacm.EthClients

namespace G4Common.Ipacm

open List Function Option

/-! ### Records -/

/-- A header of a client, if its flag is set. -/
def hdrRecsOf (c : EthClient) : IpType → List (UInt32 × EthHdr)
  | .v4 => if c.ipv4HeaderSet then [(c.hdrHdlV4, ⟨.v4, c.mac⟩)] else []
  | .v6 => if c.ipv6HeaderSet then [(c.hdrHdlV6, ⟨.v6, c.mac⟩)] else []

def hdrRecs (c : EthClient) : List (UInt32 × EthHdr) := hdrRecsOf c .v4 ++ hdrRecsOf c .v6

/-- The two IPv6 rules of a place. -/
def v6Recs (c : EthClient) (x : ℕ × ℕ) : List ((IpType × UInt32) × RtRule) :=
  [((.v6, (c.ethRtHdl x.1).v6 x.2), .lanV6 x.1 (c.v6Addr x.2)),
    ((.v6, (c.ethRtHdl x.1).v6Wan x.2), .wanV6 x.1 (c.v6Addr x.2) c.hdrHdlV6)]

/-- The rules of a client for an IP type: for IPv4 those of its address if the flag is
set, for IPv6 those of the addresses below the counter. -/
def ruleRecsOf (env : EthEnv) (c : EthClient) : IpType → List ((IpType × UInt32) × RtRule)
  | .v4 =>
    if c.routeRuleSetV4 then
      (env.txOf .v4).map fun j => ((.v4, (c.ethRtHdl j).v4), env.ruleV4 c j)
    else []
  | .v6 => (env.v6Places 0 c.routeRuleSetV6).flatMap (v6Recs c)

def ruleRecs (env : EthEnv) (c : EthClient) : List ((IpType × UInt32) × RtRule) :=
  ruleRecsOf env c .v4 ++ ruleRecsOf env c .v6

section

variable {env : EthEnv} {c : EthClient}

theorem lt_of_mem_txOf {ip : IpType} {j : ℕ} (h : j ∈ env.txOf ip) : j < env.tx.length :=
  mem_range.mp (mem_of_mem_filter h)

theorem nodup_txOf (ip : IpType) : (env.txOf ip).Nodup := nodup_range.filter _

theorem mem_v6Places {lo hi : ℕ} {x : ℕ × ℕ} : x ∈ env.v6Places lo hi ↔ x.1 ∈ env.txOf .v6 ∧ lo ≤ x.2 ∧ x.2 < hi := by
  obtain ⟨j, n⟩ := x
  simp only [EthEnv.v6Places, mem_flatMap, List.mem_map, mem_range'_1, Prod.mk.injEq]
  constructor
  · rintro ⟨_, hj', _, hn', rfl, rfl⟩
    exact ⟨hj', hn'.1, by omega⟩
  · rintro ⟨hj, hlo, _⟩
    exact ⟨j, hj, n, ⟨hlo, by omega⟩, rfl, rfl⟩

theorem nodup_v6Places (lo hi : ℕ) : (env.v6Places lo hi).Nodup := by
  refine nodup_flatMap.mpr ⟨fun j _ => ?_, ?_⟩
  · exact List.Nodup.map (fun a b h => (Prod.mk.inj h).2) nodup_range'
  refine (nodup_txOf .v6).imp ?_
  intro a b hab x hx hx'
  obtain ⟨_, -, rfl⟩ := mem_map.mp hx
  obtain ⟨_, -, heq⟩ := mem_map.mp hx'
  exact hab (Prod.mk.inj heq).1.symm

theorem v6Places_append {a b : ℕ} (h : a ≤ b) : (env.v6Places 0 a ++ env.v6Places a b).Perm (env.v6Places 0 b) := by
  refine (flatMap_append_perm ..).trans (List.Perm.of_eq ?_)
  refine flatMap_congr fun j _ => ?_
  rw [← map_append]
  congr 1
  have hrange := range'_append_1 (s := 0) (m := a) (n := b - a)
  rw [Nat.zero_add, Nat.add_sub_cancel' h] at hrange
  simpa using hrange

theorem ruleRecsOf_v4_nil (h : c.routeRuleSetV4 = false) : ruleRecsOf env c .v4 = [] := by
  simp [ruleRecsOf, h]

theorem ruleRecs_of_no_v4 (h : c.routeRuleSetV4 = false) : ruleRecs env c = ruleRecsOf env c .v6 := by
  rw [ruleRecs, ruleRecsOf_v4_nil h, nil_append]

theorem ruleRecsOf_v6_nil (h : c.routeRuleSetV6 = 0) : ruleRecsOf env c .v6 = [] := by
  simp only [ruleRecsOf, h, flatMap_eq_nil_iff]
  intro x hx
  exact absurd (mem_v6Places.mp hx).2.2 (Nat.not_lt_zero _)

theorem rtHdls_eq (ip : IpType) : (ruleRecsOf env c ip).map Prod.fst = (rtHdls env c ip).map (ip, ·) := by
  cases ip with
  | v4 =>
    simp only [ruleRecsOf, rtHdls]
    split
    · rw [List.map_map, List.map_map]
      rfl
    · rfl
  | v6 =>
    simp only [ruleRecsOf, rtHdls]
    rw [map_flatMap, map_flatMap]
    rfl

end

/-! ### The kernel -/

/-- The kernel has exactly these headers and rules, none under the handle 0, and no
deletion was wrong. -/
structure EthKernel.Owns (k : EthKernel) (hs : List (UInt32 × EthHdr))
    (rs : List ((IpType × UInt32) × RtRule)) : Prop where
  hdrs : k.hdrs.Ledger hs
  rules : k.rules.Ledger rs
  hdrNonzero : ∀ r ∈ hs, r.1 ≠ 0
  ruleNonzero : ∀ r ∈ rs, r.1.2 ≠ 0

namespace EthKernel

variable {env : EthEnv} {k k' : EthKernel} {hs hs' : List (UInt32 × EthHdr)}
  {rs rs' : List ((IpType × UInt32) × RtRule)} {h : UInt32} {ip : IpType}

theorem Owns.perm (ho : k.Owns hs rs) (hp : hs.Perm hs') (hp' : rs.Perm rs') : k.Owns hs' rs' where
  hdrs := ho.hdrs.perm hp
  rules := ho.rules.perm hp'
  hdrNonzero := fun r hr => ho.hdrNonzero r (hp.mem_iff.mpr hr)
  ruleNonzero := fun r hr => ho.ruleNonzero r (hp'.mem_iff.mpr hr)

theorem Owns.addHeader {o : EthHdr} (ho : k.Owns hs rs) (h' : addHeader env k o = some (k', h)) :
    k'.Owns ((h, o) :: hs) rs := by
  unfold Ipacm.addHeader at h'
  dsimp only at h'
  split at h'
  · exact nomatch h'
  rename_i hne
  obtain ⟨t, ht, heq⟩ := map_eq_some_iff.mp h'
  obtain ⟨rfl, rfl⟩ := Prod.mk.inj heq
  exact ⟨ho.hdrs.add ht, ho.rules, forall_mem_cons.mpr ⟨hne, ho.hdrNonzero⟩, ho.ruleNonzero⟩

theorem Owns.addRoutingRule {o : RtRule} (ho : k.Owns hs rs)
    (h' : addRoutingRule env k ip o = some (k', h)) : k'.Owns hs (((ip, h), o) :: rs) := by
  unfold Ipacm.addRoutingRule at h'
  dsimp only at h'
  split at h'
  · exact nomatch h'
  rename_i hne
  obtain ⟨t, ht, heq⟩ := map_eq_some_iff.mp h'
  obtain ⟨rfl, rfl⟩ := Prod.mk.inj heq
  exact ⟨ho.hdrs, ho.rules.add ht, ho.hdrNonzero, forall_mem_cons.mpr ⟨hne, ho.ruleNonzero⟩⟩

theorem Owns.deleteHeaderHdl {o : EthHdr} (ho : k.Owns ((h, o) :: hs) rs) :
    (deleteHeaderHdl k h).2 ∧ (deleteHeaderHdl k h).1.Owns hs rs := by
  obtain ⟨hne, hrest⟩ := forall_mem_cons.mp ho.hdrNonzero
  obtain ⟨htrue, hledger⟩ := ho.hdrs.del
  unfold Ipacm.deleteHeaderHdl
  rw [if_neg hne]
  exact ⟨htrue, hledger, ho.rules, hrest, ho.ruleNonzero⟩

theorem Owns.deleteRoutingHdl {o : RtRule} (ho : k.Owns hs (((ip, h), o) :: rs)) :
    (deleteRoutingHdl k ip h).Owns hs rs := by
  obtain ⟨hne, hrest⟩ := forall_mem_cons.mp ho.ruleNonzero
  unfold Ipacm.deleteRoutingHdl
  rw [if_neg hne]
  exact ⟨ho.hdrs, ho.rules.del.2, ho.hdrNonzero, hrest⟩

theorem Owns.deleteRoutingHdls {l : List ((IpType × UInt32) × RtRule)} {hdls : List UInt32}
    (ho : k.Owns hs (l ++ rs)) (hl : l.map Prod.fst = hdls.map (ip, ·)) :
    (hdls.foldl (fun k h => Ipacm.deleteRoutingHdl k ip h) k).Owns hs rs := by
  induction hdls generalizing k l with
  | nil =>
    obtain rfl := map_eq_nil_iff.mp hl
    exact ho
  | cons h _ ih =>
    obtain ⟨r, l, rfl, hr, hrest⟩ := map_eq_cons_iff.mp hl
    obtain ⟨key, o⟩ := r
    obtain rfl : key = (ip, h) := hr
    exact ih ho.deleteRoutingHdl hrest

end EthKernel

/-! ### Changes of one record -/

/-- The counters and flags of a record in use. -/
structure EthClient.Ok (c : EthClient) : Prop where
  v6Le : c.routeRuleSetV6 ≤ c.ipv6Set
  v6Max : c.ipv6Set ≤ ipv6NumAddr
  v4 : c.routeRuleSetV4 = true → c.ipv4Set = true

/-- A record in use changes with the kernel, and what others own stays. -/
structure Change (env : EthEnv) (k : EthKernel) (c : EthClient) (k' : EthKernel) (c' : EthClient) :
    Prop where
  mac : c'.mac = c.mac
  hdrV4 : c'.ipv4HeaderSet = true → c.ipv4HeaderSet = true
  hdrV6 : c'.ipv6HeaderSet = true → c.ipv6HeaderSet = true
  ok : c'.Ok
  owns : ∀ hs rs, k.Owns (hdrRecs c ++ hs) (ruleRecs env c ++ rs) →
    k'.Owns (hdrRecs c' ++ hs) (ruleRecs env c' ++ rs)

section

variable {env : EthEnv} {k k' : EthKernel} {c c' : EthClient}

/-- The record without the rules of an IP type. -/
def EthClient.clearRules (c : EthClient) : IpType → EthClient
  | .v4 => { c with routeRuleSetV4 := false }
  | .v6 => { c with routeRuleSetV6 := 0 }

/-- The record without the addresses of an IP type. -/
def EthClient.forget (c : EthClient) : IpType → EthClient
  | .v4 => { c with ipv4Set := false }
  | .v6 => { c with ipv6Set := 0 }

theorem clearRules_idem (c : EthClient) (ip : IpType) : (c.clearRules ip).clearRules ip = c.clearRules ip := by
  cases ip with
  | v4 | v6 => rfl

theorem clearRules_forget (c : EthClient) (ip : IpType) :
    (c.forget ip).clearRules ip = (c.clearRules ip).forget ip := by
  cases ip with
  | v4 | v6 => rfl

theorem Change.deleteEthRtrules (hok : c.Ok) (ip : IpType) :
    Change env k c ((rtHdls env c ip).foldl (fun k h => deleteRoutingHdl k ip h) k)
      (c.clearRules ip) := by
  cases ip with
  | v4 =>
    refine ⟨rfl, id, id, ⟨hok.v6Le, hok.v6Max, fun h => absurd h (by simp [EthClient.clearRules])⟩,
      fun hs rs ho => ?_⟩
    have hleft : k.Owns (hdrRecs c ++ hs) (ruleRecsOf env c .v4 ++ (ruleRecsOf env c .v6 ++ rs)) := by
      rw [← append_assoc]
      exact ho
    exact hleft.deleteRoutingHdls (rtHdls_eq .v4)
  | v6 =>
    refine ⟨rfl, id, id, ⟨Nat.zero_le _, hok.v6Max, hok.v4⟩, fun hs rs ho => ?_⟩
    have hleft : k.Owns (hdrRecs c ++ hs) (ruleRecsOf env c .v6 ++ (ruleRecsOf env c .v4 ++ rs)) := by
      refine ho.perm (List.Perm.refl _) ?_
      rw [← append_assoc]
      exact perm_append_comm.append_right rs
    have hrules : ruleRecs env (c.clearRules .v6) = ruleRecsOf env c .v4 := by
      rw [ruleRecs, ruleRecsOf_v6_nil rfl, append_nil]
      rfl
    rw [hrules]
    exact hleft.deleteRoutingHdls (rtHdls_eq .v6)

theorem Change.trans {k'' : EthKernel} {c'' : EthClient} (h : Change env k c k' c')
    (h' : Change env k' c' k'' c'') : Change env k c k'' c'' where
  mac := h'.mac.trans h.mac
  hdrV4 := fun hset => h.hdrV4 (h'.hdrV4 hset)
  hdrV6 := fun hset => h.hdrV6 (h'.hdrV6 hset)
  ok := h'.ok
  owns := fun hs rs ho => h'.owns hs rs (h.owns hs rs ho)

theorem Change.of_recs (hmac : c'.mac = c.mac) (hok : c'.Ok) (hhdr : hdrRecs c' = hdrRecs c)
    (hV4 : c'.ipv4HeaderSet = c.ipv4HeaderSet) (hV6 : c'.ipv6HeaderSet = c.ipv6HeaderSet)
    (hrule : ruleRecs env c' = ruleRecs env c) : Change env k c k c' := by
  refine ⟨hmac, ?_, ?_, hok, fun hs rs ho => ?_⟩
  · rw [hV4]
    exact id
  · rw [hV6]
    exact id
  · rw [hhdr, hrule]
    exact ho

theorem Change.setV4 (hok : c.Ok) (hset : c.ipv4Set = false) (a : UInt32) :
    Change env k c k { c with v4Addr := a, ipv4Set := true } := by
  have hno : c.routeRuleSetV4 = false := by
    by_contra hne
    rw [Bool.not_eq_false] at hne
    exact absurd ((hok.v4 hne).symm.trans hset) (by simp)
  refine Change.of_recs rfl ⟨hok.v6Le, hok.v6Max, fun _ => rfl⟩ rfl rfl rfl ?_
  have hnew : ruleRecs env { c with v4Addr := a, ipv4Set := true } = ruleRecsOf env c .v6 :=
    ruleRecs_of_no_v4 (c := { c with v4Addr := a, ipv4Set := true }) hno
  rw [hnew, ruleRecs_of_no_v4 hno]

theorem Change.moveV4 (hok : c.Ok) (hno : c.routeRuleSetV4 = false) (a : UInt32) :
    Change env k c k { c with routeRuleSetV4 := false, v4Addr := a } := by
  refine Change.of_recs rfl ⟨hok.v6Le, hok.v6Max, nofun⟩ rfl rfl rfl ?_
  exact (ruleRecs_of_no_v4 rfl).trans (ruleRecs_of_no_v4 hno).symm

theorem Change.addV6 (hok : c.Ok) (hlt : c.ipv6Set < ipv6NumAddr) (a : Ipv6Addr) : Change env k c k { c with
      v6Addr := update c.v6Addr c.ipv6Set a
      ipv6Set := c.ipv6Set + 1 } := by
  refine Change.of_recs rfl ⟨Nat.le_succ_of_le hok.v6Le, hlt, hok.v4⟩ rfl rfl rfl ?_
  refine congrArg (ruleRecsOf env c .v4 ++ ·) (flatMap_congr fun x hx => ?_)
  have hne : x.2 ≠ c.ipv6Set := by
    have hbelow := (mem_v6Places.mp hx).2.2
    have hle := hok.v6Le
    dsimp only at hbelow
    omega
  simp [v6Recs, update_of_ne hne]

theorem Change.forget (hok : c.Ok) (ip : IpType) (hno : c.clearRules ip = c) : Change env k c k (c.forget ip) := by
  cases ip with
  | v4 =>
    have hfalse : c.routeRuleSetV4 = false := by
      rw [← hno]
      rfl
    have hoff : (c.forget .v4).routeRuleSetV4 = true → (c.forget .v4).ipv4Set = true :=
      fun h => absurd (hfalse.symm.trans h) (by simp)
    exact Change.of_recs rfl ⟨hok.v6Le, hok.v6Max, hoff⟩ rfl rfl rfl rfl
  | v6 =>
    have hzero : c.routeRuleSetV6 = 0 := by
      rw [← hno]
      rfl
    exact Change.of_recs rfl ⟨Nat.le_of_eq hzero, Nat.zero_le _, hok.v4⟩ rfl rfl rfl rfl

/-! ### New rules -/

theorem addRtV4_spec {js : List ℕ} (hnd : js.Nodup) (h : addRtV4 env js k c = some (k', c')) :
    c' = { c with ethRtHdl := c'.ethRtHdl } ∧ (∀ j, j ∉ js → c'.ethRtHdl j = c.ethRtHdl j) ∧
      (∀ j, (c'.ethRtHdl j).v6 = (c.ethRtHdl j).v6 ∧ (c'.ethRtHdl j).v6Wan = (c.ethRtHdl j).v6Wan) ∧
      ∀ hs rs, k.Owns hs rs →
        k'.Owns hs (js.map (fun j => ((.v4, (c'.ethRtHdl j).v4), env.ruleV4 c j)) ++ rs) := by
  induction js generalizing k c with
  | nil =>
    cases h
    exact ⟨rfl, fun _ _ => rfl, fun _ => ⟨rfl, rfl⟩, fun _ _ ho => ho⟩
  | cons j _ ih =>
    obtain ⟨hj, hrest⟩ := nodup_cons.mp hnd
    obtain ⟨⟨_, h1⟩, hadd, h⟩ := bind_eq_some_iff.mp h
    obtain ⟨heq, hout, hv6, howns⟩ := ih hrest h
    have hother : ∀ j', j' ≠ j → (c.setRtV4 j h1).ethRtHdl j' = c.ethRtHdl j' := fun j' hne => update_of_ne hne ..
    have hself : c'.ethRtHdl j = { c.ethRtHdl j with v4 := h1 } := by
      rw [hout j hj]
      exact update_self ..
    refine ⟨heq, fun j' hj' => ?_, fun j' => ?_, fun hs rs ho => ?_⟩
    · rw [hout j' (not_mem_of_not_mem_cons hj'), hother j' (ne_of_not_mem_cons hj')]
    · rcases eq_or_ne j' j with rfl | hne
      · rw [hself]
        exact ⟨rfl, rfl⟩
      · rw [(hv6 j').1, (hv6 j').2, hother j' hne]
        exact ⟨rfl, rfl⟩
    have hthen := howns hs _ (ho.addRoutingRule hadd)
    refine hthen.perm (List.Perm.refl _) ?_
    rw [map_cons, hself]
    exact perm_middle

theorem Change.addRtV4 (hok : c.Ok) (hno : c.routeRuleSetV4 = false) (hset : c.ipv4Set)
    (h : Ipacm.addRtV4 env (env.txOf .v4) k c = some (k', c')) :
    Change env k c k' { c' with routeRuleSetV4 := true } := by
  obtain ⟨heq, -, hv6, howns⟩ := addRtV4_spec (nodup_txOf .v4) h
  generalize c'.ethRtHdl = f at heq hv6 howns
  subst heq
  refine ⟨rfl, id, id, ⟨hok.v6Le, hok.v6Max, fun _ => hset⟩, fun hs rs ho => ?_⟩
  have hrules : ruleRecsOf env { c with ethRtHdl := f, routeRuleSetV4 := true } .v6 = ruleRecsOf env c .v6 := by
    refine flatMap_congr fun x _ => ?_
    simp only [v6Recs, hv6]
  rw [ruleRecs_of_no_v4 hno] at ho
  rw [ruleRecs, hrules, append_assoc]
  exact howns _ _ ho

theorem addRtV6_spec {xs : List (ℕ × ℕ)} (hnd : xs.Nodup) (h : addRtV6 env xs k c = some (k', c')) :
    c' = { c with ethRtHdl := c'.ethRtHdl } ∧ (∀ j, (c'.ethRtHdl j).v4 = (c.ethRtHdl j).v4) ∧
      (∀ x, x ∉ xs → v6Recs c' x = v6Recs c x) ∧
      ∀ hs rs, k.Owns hs rs → k'.Owns hs (xs.flatMap (v6Recs c') ++ rs) := by
  induction xs generalizing k c with
  | nil =>
    cases h
    exact ⟨rfl, fun _ => rfl, fun _ _ => rfl, fun _ _ ho => ho⟩
  | cons x _ ih =>
    obtain ⟨hx, hrest⟩ := nodup_cons.mp hnd
    obtain ⟨⟨_, h1⟩, hadd1, h⟩ := bind_eq_some_iff.mp h
    obtain ⟨⟨_, h2⟩, hadd2, h⟩ := bind_eq_some_iff.mp h
    obtain ⟨heq, hv4, hout, howns⟩ := ih hrest h
    have hself : v6Recs (c.setRtV6 x h1 h2) x = [((.v6, h1), .lanV6 x.1 (c.v6Addr x.2)),
        ((.v6, h2), .wanV6 x.1 (c.v6Addr x.2) c.hdrHdlV6)] := by
      simp [v6Recs, EthClient.setRtV6]
    have hother : ∀ y, y ≠ x → v6Recs (c.setRtV6 x h1 h2) y = v6Recs c y := by
      intro y hne
      by_cases hj : y.1 = x.1
      · have hn : y.2 ≠ x.2 := fun hn => hne (Prod.ext hj hn)
        simp [v6Recs, EthClient.setRtV6, hj, hn]
      · simp [v6Recs, EthClient.setRtV6, hj]
    refine ⟨heq, fun j => ?_, fun y hy => ?_, fun hs rs ho => ?_⟩
    · rw [hv4 j]
      by_cases hj : j = x.1
      · simp [EthClient.setRtV6, hj]
      · simp [EthClient.setRtV6, hj]
    · rw [hout y (not_mem_of_not_mem_cons hy), hother y (ne_of_not_mem_cons hy)]
    have hthen := howns hs _ ((ho.addRoutingRule hadd1).addRoutingRule hadd2)
    refine hthen.perm (List.Perm.refl _) ?_
    rw [flatMap_cons, hout x hx, hself]
    refine perm_middle.trans (List.Perm.trans (List.Perm.cons _ perm_middle) ?_)
    exact List.Perm.swap ..

theorem Change.addRtV6 (hok : c.Ok)
    (h : Ipacm.addRtV6 env (env.v6Places c.routeRuleSetV6 c.ipv6Set) k c = some (k', c')) :
    Change env k c k' { c' with routeRuleSetV6 := c'.ipv6Set } := by
  obtain ⟨heq, hv4, hout, howns⟩ := addRtV6_spec (nodup_v6Places ..) h
  generalize hf : c'.ethRtHdl = f at heq hv4
  subst heq
  refine ⟨rfl, id, id, ⟨Nat.le_refl _, hok.v6Max, hok.v4⟩, fun hs rs ho => ?_⟩
  have hfour : ruleRecsOf env { c with ethRtHdl := f, routeRuleSetV6 := c.ipv6Set } .v4 = ruleRecsOf env c .v4 := by
    simp only [ruleRecsOf, hv4]
    rfl
  -- the rules that were there are at other places
  have hsix : (env.v6Places 0 c.routeRuleSetV6).flatMap (v6Recs { c with ethRtHdl := f }) =
      ruleRecsOf env c .v6 := by
    refine flatMap_congr fun x hx => hout x fun hx' => ?_
    have hlt := (mem_v6Places.mp hx).2.2
    have hle := (mem_v6Places.mp hx').2.1
    omega
  have hplaces : (env.v6Places 0 c.routeRuleSetV6 ++ env.v6Places c.routeRuleSetV6 c.ipv6Set).Perm
      (env.v6Places 0 c.ipv6Set) := v6Places_append hok.v6Le
  have hjoin := hplaces.flatMap_right (v6Recs { c with ethRtHdl := f })
  rw [flatMap_append, hsix] at hjoin
  have hall : ruleRecs env { c with ethRtHdl := f, routeRuleSetV6 := c.ipv6Set } =
      ruleRecsOf env c .v4 ++ (env.v6Places 0 c.ipv6Set).flatMap (v6Recs { c with ethRtHdl := f }) := by
    rw [ruleRecs, hfour]
    rfl
  refine (howns _ _ ho).perm (List.Perm.refl _) ?_
  rw [hall, ruleRecs, ← append_assoc]
  refine List.Perm.append_right rs (perm_append_comm.trans ?_)
  rw [append_assoc]
  exact hjoin.append_left _

/-! ### Headers -/

theorem addEthHdr_v4_spec (h : addEthHdr env k c .v4 = some (k', c')) (hflag : c.ipv4HeaderSet → .v4 ∈ env.tx) :
    (∃ h b, c' = { c with hdrHdlV4 := h, ipv4HeaderSet := b }) ∧
      (c'.ipv4HeaderSet → .v4 ∈ env.tx) ∧
      ∀ hs rs, k.Owns hs rs → k'.Owns (hdrRecsOf c' .v4 ++ hs) rs := by
  simp only [addEthHdr] at h
  split at h
  · rename_i htx
    obtain ⟨⟨_, h1⟩, hadd, heq⟩ := map_eq_some_iff.mp h
    obtain ⟨rfl, rfl⟩ := Prod.mk.inj heq
    exact ⟨⟨h1, true, rfl⟩, fun _ => htx, fun hs rs ho => ho.addHeader hadd⟩
  rename_i htx
  cases h
  have hno : c.ipv4HeaderSet = false := Bool.eq_false_iff.mpr fun ht => htx (hflag ht)
  refine ⟨⟨c.hdrHdlV4, c.ipv4HeaderSet, rfl⟩, hflag, fun hs rs ho => ?_⟩
  simpa [hdrRecsOf, hno] using ho

theorem addEthHdr_v6_spec (h : addEthHdr env k c .v6 = some (k', c')) (hflag : c.ipv6HeaderSet → .v6 ∈ env.tx) :
    (∃ h b, c' = { c with hdrHdlV6 := h, ipv6HeaderSet := b }) ∧
      (c'.ipv6HeaderSet → .v6 ∈ env.tx) ∧
      ∀ hs rs, k.Owns hs rs → k'.Owns (hdrRecsOf c' .v6 ++ hs) rs := by
  simp only [addEthHdr] at h
  split at h
  · rename_i htx
    obtain ⟨⟨_, h1⟩, hadd, heq⟩ := map_eq_some_iff.mp h
    obtain ⟨rfl, rfl⟩ := Prod.mk.inj heq
    exact ⟨⟨h1, true, rfl⟩, fun _ => htx, fun hs rs ho => ho.addHeader hadd⟩
  rename_i htx
  cases h
  have hno : c.ipv6HeaderSet = false := Bool.eq_false_iff.mpr fun ht => htx (hflag ht)
  refine ⟨⟨c.hdrHdlV6, c.ipv6HeaderSet, rfl⟩, hflag, fun hs rs ho => ?_⟩
  simpa [hdrRecsOf, hno] using ho

theorem deleteHdr_spec {set : Bool} {h : UInt32} {o : EthHdr} {hs : List (UInt32 × EthHdr)}
    {rs : List ((IpType × UInt32) × RtRule)} {r : EthKernel × Bool}
    (hr : (if set then deleteHeaderHdl k h else (k, true)) = r)
    (ho : k.Owns ((if set then [(h, o)] else []) ++ hs) rs) : r.2 ∧ r.1.Owns hs rs := by
  subst hr
  cases set with
  | false => exact ⟨rfl, ho⟩
  | true => exact ho.deleteHeaderHdl

section

variable {r1 r2 : EthKernel × Bool}
  (h1 : (if c.ipv4HeaderSet then deleteHeaderHdl k c.hdrHdlV4 else (k, true)) = r1)
  (h2 : (if c.ipv6HeaderSet then deleteHeaderHdl r1.1 c.hdrHdlV6 else (r1.1, true)) = r2)

include h1 h2

theorem deleteHdrs_spec {hs : List (UInt32 × EthHdr)} {rs : List ((IpType × UInt32) × RtRule)}
    (ho : k.Owns (hdrRecs c ++ hs) rs) : r1.2 ∧ r2.2 ∧ r2.1.Owns hs rs := by
  rw [hdrRecs, append_assoc] at ho
  obtain ⟨hok1, ho1⟩ := deleteHdr_spec h1 ho
  obtain ⟨hok2, ho2⟩ := deleteHdr_spec h2 ho1
  exact ⟨hok1, hok2, ho2⟩

theorem Change.deleteHdrs (hno4 : c.routeRuleSetV4 = false) (hno6 : c.routeRuleSetV6 = 0) :
    Change env k c r2.1 { c with
      ipv4HeaderSet := false, ipv4Set := false, ipv6Set := 0, ipv6HeaderSet := false,
      routeRuleSetV4 := false, routeRuleSetV6 := 0 } := by
  refine ⟨rfl, nofun, nofun,
    ⟨Nat.le_refl _, Nat.zero_le _, nofun⟩, fun hs rs ho => ?_⟩
  rw [ruleRecs_of_no_v4 hno4, ruleRecsOf_v6_nil hno6] at ho
  rw [ruleRecs_of_no_v4 rfl, ruleRecsOf_v6_nil rfl]
  exact (deleteHdrs_spec h1 h2 ho).2.2

end

end

end G4Common.Ipacm

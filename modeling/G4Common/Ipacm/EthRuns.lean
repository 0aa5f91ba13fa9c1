/-
The ethernet clients of an interface own their kernel objects, in every run.

`EthInv` is the invariant: the records in use have different MAC addresses, and the
headers and rules in the kernel are exactly those of the records.  A function that
works on one record keeps it by its `Change`.  Two functions need more.
`handle_eth_hdr_init()` takes a record that is left from before, whose header flags
it may not touch: they are set only for IP types that have a property for sending,
and then it sets them again.  `handle_eth_client_down_evt()` moves the later records
up, of which it copies the IPv6 addresses and handles that are in use.
-/
import G4Common.Ipacm.EthOwner
import Mathlib.Data.Fin.VecNotation

namespace G4Common.Ipacm

open Function Option List

/-- The headers of all clients. -/
def EthTable.hdrRecs (s : EthTable) : List (UInt32 × EthHdr) :=
  slotRecs (fun i => Ipacm.hdrRecs (s.ethClient i)) s.numEthClient

/-- The rules of all clients. -/
def EthTable.ruleRecs (env : EthEnv) (s : EthTable) : List ((IpType × UInt32) × RtRule) :=
  slotRecs (fun i => Ipacm.ruleRecs env (s.ethClient i)) s.numEthClient

/-- The invariant. -/
structure EthInv (env : EthEnv) (s : EthTable) : Prop where
  num : s.numEthClient ≤ maxNumEthClients
  mac : ∀ i < s.numEthClient, ∀ j < s.numEthClient,
    (s.ethClient i).mac = (s.ethClient j).mac → i = j
  ok : ∀ i < s.numEthClient, (s.ethClient i).Ok
  hdrV4 : ∀ i, (s.ethClient i).ipv4HeaderSet = true → .v4 ∈ env.tx
  hdrV6 : ∀ i, (s.ethClient i).ipv6HeaderSet = true → .v6 ∈ env.tx
  owns : s.kernel.Owns s.hdrRecs (s.ruleRecs env)

section

variable {env : EthEnv} {s s' : EthTable} {k' : EthKernel} {c' : EthClient} {i : ℕ}

theorem getEthClientIndex_some {mac : MacAddr} (h : getEthClientIndex s mac = some i) :
    i < s.numEthClient ∧ (s.ethClient i).mac = mac := by
  refine ⟨mem_range.mp (mem_of_find?_eq_some h), ?_⟩
  simpa using find?_some h

theorem getEthClientIndex_none {mac : MacAddr} (h : getEthClientIndex s mac = none) :
    ∀ i < s.numEthClient, (s.ethClient i).mac ≠ mac := by
  intro i hi
  simpa using find?_eq_none.mp h i (mem_range.mpr hi)

/-! ### One record -/

theorem EthInv.change (h : EthInv env s) (hi : i < s.numEthClient) (hc : Change env s.kernel (s.ethClient i) k' c') :
    EthInv env ((s.withKernel k').setClient i c') := by
  have hself : ((s.withKernel k').setClient i c').ethClient i = c' := update_self ..
  have hother : ∀ j, j ≠ i → ((s.withKernel k').setClient i c').ethClient j = s.ethClient j :=
    fun j hne => update_of_ne hne ..
  have hmac : ∀ j, (((s.withKernel k').setClient i c').ethClient j).mac = (s.ethClient j).mac := by
    intro j
    by_cases hne : j = i
    · rw [hne, hself, hc.mac]
    · rw [hother j hne]
  refine ⟨h.num, fun j hj j' hj' heq => ?_, fun j hj => ?_, fun j => ?_, fun j => ?_, ?_⟩
  · rw [hmac, hmac] at heq
    exact h.mac j hj j' hj' heq
  · by_cases hne : j = i
    · rw [hne, hself]
      exact hc.ok
    · rw [hother j hne]
      exact h.ok j hj
  · by_cases hne : j = i
    · rw [hne, hself]
      exact fun hset => h.hdrV4 i (hc.hdrV4 hset)
    · rw [hother j hne]
      exact h.hdrV4 j
  · by_cases hne : j = i
    · rw [hne, hself]
      exact fun hset => h.hdrV6 i (hc.hdrV6 hset)
    · rw [hother j hne]
      exact h.hdrV6 j
  -- the records of the other slots are the rest on both sides
  obtain ⟨hs, hp, hp'⟩ : ∃ hs, s.hdrRecs.Perm (hdrRecs (s.ethClient i) ++ hs) ∧
      ((s.withKernel k').setClient i c').hdrRecs.Perm
        (hdrRecs (((s.withKernel k').setClient i c').ethClient i) ++ hs) :=
    slotRecs_split hi fun j hne => by rw [hother j hne]
  obtain ⟨rs, hq, hq'⟩ : ∃ rs, (s.ruleRecs env).Perm (ruleRecs env (s.ethClient i) ++ rs) ∧
      (((s.withKernel k').setClient i c').ruleRecs env).Perm
        (ruleRecs env (((s.withKernel k').setClient i c').ethClient i) ++ rs) :=
    slotRecs_split hi fun j hne => by rw [hother j hne]
  rw [hself] at hp' hq'
  exact (hc.owns hs rs (h.owns.perm hp hq)).perm hp'.symm hq'.symm

theorem EthInv.deleteEthRtrules (h : EthInv env s) (hi : i < s.numEthClient) (ip : IpType) :
    EthInv env (deleteEthRtrules env s i ip) := by
  have hc := h.change hi (Change.deleteEthRtrules (h.ok i hi) ip)
  cases ip with
  | v4 | v6 => exact hc

theorem EthInv.ipaddr (h : EthInv env s) (data : EthData) : EthInv env (handleEthClientIpaddr env s data).1 := by
  unfold handleEthClientIpaddr
  split
  · exact h
  rename_i i hidx
  have hi := (getEthClientIndex_some hidx).1
  dsimp only
  split
  · split
    · split
      · rename_i hset
        exact h.change hi (Change.setV4 (h.ok i hi) hset data.ipv4Addr)
      split
      · exact h
      have hdel := h.deleteEthRtrules hi .v4
      have hno : ((Ipacm.deleteEthRtrules env s i .v4).ethClient i).routeRuleSetV4 = false := by
        simp [Ipacm.deleteEthRtrules, EthTable.setClient]
      exact hdel.change hi (Change.moveV4 (hdel.ok i hi) hno data.ipv4Addr)
    · exact h
  split
  · split
    · rename_i hlt
      split
      · exact h
      · exact h.change hi (Change.addV6 (h.ok i hi) hlt data.ipv6Addr)
    · exact h
  · exact h

theorem EthInv.routeRule (h : EthInv env s) {mac : MacAddr} {ip : IpType}
    (hstep : handleEthClientRouteRule env s mac ip = some s') : EthInv env s' := by
  unfold handleEthClientRouteRule at hstep
  split at hstep
  · cases hstep
    exact h
  split at hstep
  · cases hstep
    exact h
  rename_i i hidx
  have hi := (getEthClientIndex_some hidx).1
  dsimp only at hstep
  split at hstep
  · split_ifs at hstep with hcond
    · obtain ⟨⟨k', c'⟩, hadd, rfl⟩ := map_eq_some_iff.mp hstep
      exact h.change hi (Change.addRtV4 (h.ok i hi) hcond.1 hcond.2 hadd)
    · cases hstep
      exact h
  split at hstep
  · obtain ⟨⟨_, _⟩, hadd, rfl⟩ := map_eq_some_iff.mp hstep
    exact h.change hi (Change.addRtV6 (h.ok i hi) hadd)
  · cases hstep
    exact h

/-! ### Reset -/

theorem deleteEthRtrules_self (ip : IpType) :
    (deleteEthRtrules env s i ip).ethClient i = (s.ethClient i).clearRules ip := by
  cases ip with
  | v4 | v6 => exact update_self ..

theorem deleteEthRtrules_other {j : ℕ} (ip : IpType) (h : j ≠ i) :
    (deleteEthRtrules env s i ip).ethClient j = s.ethClient j :=
  update_of_ne h ..

section

variable (ip : IpType) {is : List ℕ} (h : EthInv env s) (his : ∀ i ∈ is, i < s.numEthClient)
include h his

theorem EthInv.deleteAll {t : EthTable} (ht : is.foldl (fun s i => Ipacm.deleteEthRtrules env s i ip) s = t) :
    EthInv env t ∧ t.numEthClient = s.numEthClient ∧
      ∀ j, j ∈ is ∨ (s.ethClient j).clearRules ip = s.ethClient j →
        (t.ethClient j).clearRules ip = t.ethClient j := by
  induction is generalizing s with
  | nil =>
    subst ht
    refine ⟨h, rfl, fun j hj => ?_⟩
    exact hj.resolve_left (not_mem_nil)
  | cons i _ ih =>
    obtain ⟨hi, his⟩ := forall_mem_cons.mp his
    obtain ⟨hinv, hnum, hclear⟩ := ih (h.deleteEthRtrules hi ip) his ht
    refine ⟨hinv, hnum, fun j hj => hclear j ?_⟩
    rcases eq_or_ne j i with rfl | hji
    · rw [deleteEthRtrules_self]
      exact .inr (clearRules_idem ..)
    · rw [deleteEthRtrules_other ip hji]
      refine hj.imp_left fun hmem => ?_
      exact (mem_cons.mp hmem).resolve_left hji

theorem EthInv.forgetAll (hclear : ∀ i ∈ is, (s.ethClient i).clearRules ip = s.ethClient i) :
    EthInv env (is.foldl (fun s i => s.setClient i ((s.ethClient i).forget ip)) s) := by
  induction is generalizing s with
  | nil => exact h
  | cons i _ ih =>
    obtain ⟨hi, his⟩ := forall_mem_cons.mp his
    obtain ⟨hci, hcs⟩ := forall_mem_cons.mp hclear
    have hone : EthInv env (s.setClient i ((s.ethClient i).forget ip)) :=
      h.change hi (Change.forget (h.ok i hi) ip hci)
    refine ih hone his fun j hj => ?_
    by_cases hji : j = i
    · have hself : (s.setClient i ((s.ethClient i).forget ip)).ethClient i = (s.ethClient i).forget ip :=
        update_self ..
      rw [hji, hself, clearRules_forget, hci]
    have hother : (s.setClient i ((s.ethClient i).forget ip)).ethClient j = s.ethClient j := update_of_ne hji ..
    rw [hother]
    exact hcs j hj

end

theorem EthInv.resetRt (h : EthInv env s) (ip : IpType) : EthInv env (handleLanClientResetRt env s ip).1 := by
  obtain ⟨t, ht⟩ : ∃ t, (range s.numEthClient).foldl
      (fun s i => Ipacm.deleteEthRtrules env s i ip) s = t := ⟨_, rfl⟩
  obtain ⟨hinv, hnum, hclear⟩ := h.deleteAll ip (fun i hi => mem_range.mp hi) ht
  have hforget := hinv.forgetAll ip (fun i hi => mem_range.mp hi) fun i hi => hclear i (.inl (hnum ▸ hi))
  subst ht
  cases ip with
  | v4 | v6 => exact hforget

/-! ### A new client -/

theorem setClient_unused (env : EthEnv) (s : EthTable) (c : EthClient) :
    (∀ i < s.numEthClient, (s.setClient s.numEthClient c).ethClient i = s.ethClient i) ∧
      (s.setClient s.numEthClient c).hdrRecs = s.hdrRecs ∧
      (s.setClient s.numEthClient c).ruleRecs env = s.ruleRecs env := by
  have hsame : ∀ i < s.numEthClient, (s.setClient s.numEthClient c).ethClient i = s.ethClient i :=
    fun i hi => update_of_ne (Nat.ne_of_lt hi) ..
  refine ⟨hsame, slotRecs_congr fun i hi => ?_, slotRecs_congr fun i hi => ?_⟩ <;> rw [hsame i hi]

theorem EthInv.setUnused {c : EthClient} (h : EthInv env s)
    (hdrV4 : c.ipv4HeaderSet → .v4 ∈ env.tx) (hdrV6 : c.ipv6HeaderSet → .v6 ∈ env.tx) :
    EthInv env (s.setClient s.numEthClient c) := by
  obtain ⟨hsame, hhdr, hrule⟩ := setClient_unused env s c
  have hself : (s.setClient s.numEthClient c).ethClient s.numEthClient = c := update_self ..
  have hother : ∀ i, i ≠ s.numEthClient → (s.setClient s.numEthClient c).ethClient i = s.ethClient i :=
    fun i hne => update_of_ne hne ..
  refine ⟨h.num, fun i hi j hj heq => ?_, fun i hi => ?_, fun i => ?_, fun i => ?_, ?_⟩
  · rw [hsame i hi, hsame j hj] at heq
    exact h.mac i hi j hj heq
  · rw [hsame i hi]
    exact h.ok i hi
  · by_cases hi : i = s.numEthClient
    · rw [hi, hself]
      exact hdrV4
    · rw [hother i hi]
      exact h.hdrV4 i
  · by_cases hi : i = s.numEthClient
    · rw [hi, hself]
      exact hdrV6
    · rw [hother i hi]
      exact h.hdrV6 i
  · rw [hhdr, hrule]
    exact h.owns

theorem EthInv.grow (h : EthInv env s) (hroom : s.numEthClient < maxNumEthClients)
    (hmac : ∀ i < s.numEthClient, (s.ethClient i).mac ≠ (s.ethClient s.numEthClient).mac)
    (hok : (s.ethClient s.numEthClient).Ok)
    (howns : k'.Owns (hdrRecs (s.ethClient s.numEthClient) ++ s.hdrRecs)
      (ruleRecs env (s.ethClient s.numEthClient) ++ s.ruleRecs env)) :
    EthInv env { s.withKernel k' with numEthClient := s.numEthClient + 1 } := by
  refine ⟨hroom, fun i hi j hj heq => ?_, fun i hi => ?_, h.hdrV4, h.hdrV6, ?_⟩
  · change (s.ethClient i).mac = (s.ethClient j).mac at heq
    rcases Nat.lt_succ_iff_lt_or_eq.mp hi with hi | rfl
    · rcases Nat.lt_succ_iff_lt_or_eq.mp hj with hj | rfl
      · exact h.mac i hi j hj heq
      · exact absurd heq (hmac i hi)
    · rcases Nat.lt_succ_iff_lt_or_eq.mp hj with hj | rfl
      · exact absurd heq.symm (hmac j hj)
      · rfl
  · rcases Nat.lt_succ_iff_lt_or_eq.mp hi with hi | rfl
    · exact h.ok i hi
    · exact hok
  refine howns.perm ?_ ?_
  · refine perm_append_comm.trans (List.Perm.of_eq ?_)
    exact slotRecs_succ.symm
  · refine perm_append_comm.trans (List.Perm.of_eq ?_)
    exact slotRecs_succ.symm

theorem EthInv.newClient {c : EthClient} (h : EthInv env s) (hroom : s.numEthClient < maxNumEthClients)
    (hmac : ∀ i < s.numEthClient, (s.ethClient i).mac ≠ c.mac) (hok : c.Ok)
    (hdrV4 : c.ipv4HeaderSet → .v4 ∈ env.tx) (hdrV6 : c.ipv6HeaderSet → .v6 ∈ env.tx)
    (howns : k'.Owns (hdrRecs c ++ s.hdrRecs) (ruleRecs env c ++ s.ruleRecs env)) :
    EthInv env { (s.withKernel k').setClient s.numEthClient c with
      numEthClient := s.numEthClient + 1 } := by
  obtain ⟨hsame, hhdr, hrule⟩ := setClient_unused env s c
  have hself : (s.setClient s.numEthClient c).ethClient s.numEthClient = c := update_self ..
  have hinv := h.setUnused hdrV4 hdrV6
  refine hinv.grow hroom (fun i hi => ?_) ?_ ?_
  · show ((s.setClient s.numEthClient c).ethClient i).mac ≠
      ((s.setClient s.numEthClient c).ethClient s.numEthClient).mac
    rw [hsame i hi, hself]
    exact hmac i hi
  · show ((s.setClient s.numEthClient c).ethClient s.numEthClient).Ok
    rw [hself]
    exact hok
  show k'.Owns (hdrRecs ((s.setClient s.numEthClient c).ethClient s.numEthClient) ++ _)
    (ruleRecs env ((s.setClient s.numEthClient c).ethClient s.numEthClient) ++ _)
  rw [hself, hhdr, hrule]
  exact howns

theorem EthInv.hdrInit {mac : MacAddr} {b : Bool} (h : EthInv env s)
    (hstep : handleEthHdrInit env s mac = some (s', b)) : EthInv env s' := by
  unfold handleEthHdrInit at hstep
  split at hstep
  · obtain ⟨rfl, -⟩ := Prod.mk.inj (some.inj hstep)
    exact h
  rename_i hidx
  have hnew := getEthClientIndex_none hidx
  split at hstep
  · obtain ⟨rfl, -⟩ := Prod.mk.inj (some.inj hstep)
    exact h
  rename_i hroom
  dsimp only at hstep
  split at hstep
  · obtain ⟨rfl, -⟩ := Prod.mk.inj (some.inj hstep)
    exact h.setUnused (h.hdrV4 s.numEthClient) (h.hdrV6 s.numEthClient)
  obtain ⟨⟨_, _⟩, h1, hstep⟩ := bind_eq_some_iff.mp hstep
  obtain ⟨⟨_, _⟩, h2, hstep⟩ := bind_eq_some_iff.mp hstep
  obtain ⟨rfl, -⟩ := Prod.mk.inj (some.inj hstep)
  -- the flags of the record are those that were left in it
  obtain ⟨⟨_, _, rfl⟩, hset1, howns1⟩ := addEthHdr_v4_spec h1 (h.hdrV4 s.numEthClient)
  obtain ⟨⟨_, _, rfl⟩, hset2, howns2⟩ := addEthHdr_v6_spec h2 (h.hdrV6 s.numEthClient)
  have howns := howns2 _ _ (howns1 _ _ h.owns)
  refine h.newClient (Nat.lt_of_not_ge hroom) hnew
    ⟨Nat.le_refl _, Nat.zero_le _, nofun⟩ hset1 hset2 ?_
  rw [ruleRecs_of_no_v4 rfl, ruleRecsOf_v6_nil rfl]
  refine howns.perm ?_ (List.Perm.refl _)
  rw [← append_assoc]
  exact perm_append_comm.append_right _

/-! ### A client goes -/

theorem shiftClients_eq (m i : ℕ) (t : ℕ → EthClient) (j : ℕ) :
    shiftClients env m i t j = if i ≤ j ∧ j < i + m then copyClient env (t j) (t (j + 1)) else t j := by
  induction m generalizing i t with
  | zero =>
    rw [if_neg (by omega)]
    rfl
  | succ m ih =>
    rw [shiftClients, ih]
    rcases eq_or_ne j i with rfl | hj
    · rw [if_neg (by omega), if_pos (by omega), update_self]
    rw [update_of_ne hj]
    by_cases hin : i + 1 ≤ j ∧ j < i + 1 + m
    · rw [if_pos hin, if_pos (by omega), update_of_ne (by omega)]
    · rw [if_neg hin, if_neg (by omega)]

theorem ruleRecs_copyClient {c d : EthClient} (hok : c.Ok) : ruleRecs env (copyClient env d c) = ruleRecs env c := by
  have hfour : ruleRecsOf env (copyClient env d c) .v4 = ruleRecsOf env c .v4 := by
    simp only [ruleRecsOf]
    show (if c.routeRuleSetV4 then _ else _) = _
    split
    · refine map_congr_left fun j hj => ?_
      simp [copyClient, lt_of_mem_txOf hj, EthEnv.ruleV4]
    · rfl
  have hsix : ruleRecsOf env (copyClient env d c) .v6 = ruleRecsOf env c .v6 := by
    refine flatMap_congr fun x hx => ?_
    obtain ⟨hj, -, hn⟩ := mem_v6Places.mp hx
    have hn' : x.2 < c.ipv6Set := Nat.lt_of_lt_of_le hn hok.v6Le
    have hn : x.2 < c.routeRuleSetV6 := hn
    simp [v6Recs, copyClient, lt_of_mem_txOf hj, hn, hn']
  rw [ruleRecs, ruleRecs, hfour, hsix]

section

variable (h : EthInv env s) (hi : i < s.numEthClient)
include h hi

theorem EthInv.shift (hhdr : hdrRecs (s.ethClient i) = []) (hrule : ruleRecs env (s.ethClient i) = []) :
    EthInv env { s with
      ethClient := shiftClients env (s.numEthClient - 1 - i) i s.ethClient
      numEthClient := s.numEthClient - 1 } := by
  have hnum := h.num
  have hlow : ∀ j < i, shiftClients env (s.numEthClient - 1 - i) i s.ethClient j = s.ethClient j := by
    intro j hj
    rw [shiftClients_eq, if_neg (by omega)]
  have hhigh : ∀ j, i ≤ j → j + 1 < s.numEthClient →
      shiftClients env (s.numEthClient - 1 - i) i s.ethClient j =
        copyClient env (s.ethClient j) (s.ethClient (j + 1)) := by
    intro j hij hj
    rw [shiftClients_eq, if_pos (by omega)]
  -- the old place of a record
  have hfrom : ∀ j < s.numEthClient - 1, ∃ j' < s.numEthClient, j' = (if j < i then j else j + 1) ∧
      (shiftClients env (s.numEthClient - 1 - i) i s.ethClient j).mac = (s.ethClient j').mac ∧
      (shiftClients env (s.numEthClient - 1 - i) i s.ethClient j).Ok := by
    intro j hj
    by_cases hji : j < i
    · refine ⟨j, by omega, (if_pos hji).symm, ?_⟩
      rw [hlow j hji]
      exact ⟨rfl, h.ok j (by omega)⟩
    refine ⟨j + 1, by omega, (if_neg hji).symm, ?_⟩
    rw [hhigh j (by omega) (by omega)]
    have hok := h.ok (j + 1) (by omega)
    exact ⟨rfl, hok.v6Le, hok.v6Max, hok.v4⟩
  refine ⟨by dsimp only; omega, fun j hj l hl heq => ?_, fun j hj => ?_, fun j => ?_, fun j => ?_, ?_⟩
  · obtain ⟨j', hj', heqj, hmacj, -⟩ := hfrom j hj
    obtain ⟨l', hl', heql, hmacl, -⟩ := hfrom l hl
    have hsame : j' = l' := h.mac j' hj' l' hl' (hmacj.symm.trans (heq.trans hmacl))
    rw [heqj, heql] at hsame
    split at hsame <;> split at hsame <;> omega
  · obtain ⟨-, -, -, -, hok⟩ := hfrom j hj
    exact hok
  · dsimp only
    rw [shiftClients_eq]
    split
    · exact h.hdrV4 (j + 1)
    · exact h.hdrV4 j
  · dsimp only
    rw [shiftClients_eq]
    split
    · exact h.hdrV6 (j + 1)
    · exact h.hdrV6 j
  have hh : slotRecs (fun j => hdrRecs (shiftClients env (s.numEthClient - 1 - i) i s.ethClient j))
      (s.numEthClient - 1) = s.hdrRecs := by
    refine slotRecs_shift hi hhdr (fun j hj => ?_) fun j hij hj => ?_
    · rw [hlow j hj]
    · rw [hhigh j hij hj]
      rfl
  have hr : slotRecs (fun j => ruleRecs env
      (shiftClients env (s.numEthClient - 1 - i) i s.ethClient j)) (s.numEthClient - 1) =
      s.ruleRecs env := by
    refine slotRecs_shift hi hrule (fun j hj => ?_) fun j hij hj => ?_
    · rw [hlow j hj]
    · rw [hhigh j hij hj]
      exact ruleRecs_copyClient (h.ok (j + 1) hj)
  have howns := h.owns
  rw [← hh, ← hr] at howns
  exact howns

theorem EthInv.remove (hc : Change env s.kernel (s.ethClient i) k' c') (hhdr : hdrRecs c' = [])
    (hrule : ruleRecs env c' = []) :
    EthInv env { s with
      ethClient := shiftClients env (s.numEthClient - 1 - i) i (update s.ethClient i c')
      numEthClient := s.numEthClient - 1
      kernel := k' } := by
  have hempty := h.change hi hc
  refine hempty.shift hi ?_ ?_
  · show hdrRecs (update s.ethClient i c' i) = []
    rw [update_self]
    exact hhdr
  · show ruleRecs env (update s.ethClient i c' i) = []
    rw [update_self]
    exact hrule

theorem EthInv.owns_at :
    ∃ hs rs, s.kernel.Owns (hdrRecs (s.ethClient i) ++ hs) (ruleRecs env (s.ethClient i) ++ rs) := by
  obtain ⟨hs, hp, -⟩ := slotRecs_split hi fun _ _ => rfl
  obtain ⟨rs, hq, -⟩ := slotRecs_split hi fun _ _ => rfl
  exact ⟨hs, rs, h.owns.perm hp hq⟩

end

theorem EthInv.downEvt (h : EthInv env s) (mac : MacAddr) :
    EthInv env (handleEthClientDownEvt env s mac).1 ∧ (handleEthClientDownEvt env s mac).2 = true := by
  unfold handleEthClientDownEvt
  split
  · exact ⟨h, rfl⟩
  rename_i i hidx
  have hi := (getEthClientIndex_some hidx).1
  obtain ⟨t, ht⟩ : ∃ t, Ipacm.deleteEthRtrules env (Ipacm.deleteEthRtrules env s i .v4) i .v6 = t := ⟨_, rfl⟩
  have hinv : EthInv env t := by
    rw [← ht]
    exact (h.deleteEthRtrules hi .v4).deleteEthRtrules hi .v6
  have hclear : t.ethClient i = ((s.ethClient i).clearRules .v4).clearRules .v6 := by
    rw [← ht, deleteEthRtrules_self, deleteEthRtrules_self]
  have hit : i < t.numEthClient := by
    rw [← ht]
    exact hi
  dsimp only
  rw [ht]
  obtain ⟨r1, h1⟩ : ∃ r, (if (t.ethClient i).ipv4HeaderSet then
    deleteHeaderHdl t.kernel (t.ethClient i).hdrHdlV4 else (t.kernel, true)) = r := ⟨_, rfl⟩
  obtain ⟨_, h2⟩ : ∃ r, (if (t.ethClient i).ipv6HeaderSet then
    deleteHeaderHdl r1.1 (t.ethClient i).hdrHdlV6 else (r1.1, true)) = r := ⟨_, rfl⟩
  obtain ⟨_, _, ho⟩ := hinv.owns_at hit
  obtain ⟨hok1, hok2, -⟩ := deleteHdrs_spec h1 h2 ho
  have hno4 : (t.ethClient i).routeRuleSetV4 = false := by
    rw [hclear]
    rfl
  have hno6 : (t.ethClient i).routeRuleSetV6 = 0 := by
    rw [hclear]
    rfl
  rw [h1, h2, if_neg (by simp [hok1]), if_neg (by simp [hok2])]
  refine ⟨hinv.remove hit (Change.deleteHdrs h1 h2 hno4 hno6) rfl ?_, rfl⟩
  rw [ruleRecs_of_no_v4 rfl, ruleRecsOf_v6_nil rfl]

/-! ### Runs -/

theorem EthInv.init : EthInv env EthTable.init where
  num := Nat.zero_le _
  mac := fun i hi => absurd hi (Nat.not_lt_zero i)
  ok := fun i hi => absurd hi (Nat.not_lt_zero i)
  hdrV4 := fun _ hset => absurd hset (by simp [EthTable.init, EthClient.zero])
  hdrV6 := fun _ hset => absurd hset (by simp [EthTable.init, EthClient.zero])
  owns := ⟨HdlTable.Ledger.nil, HdlTable.Ledger.nil, by simp [EthTable.hdrRecs, slotRecs, EthTable.init],
    by simp [EthTable.ruleRecs, slotRecs, EthTable.init]⟩

theorem EthInv.step (h : EthInv env s) {op : EthOp} (hstep : s.step env op = some s') : EthInv env s' := by
  cases op with
  | hdrInit =>
    obtain ⟨r, hr, rfl⟩ := map_eq_some_iff.mp hstep
    exact h.hdrInit hr
  | ipaddr data =>
    cases hstep
    exact h.ipaddr data
  | routeRule => exact h.routeRule hstep
  | resetRt ip =>
    cases hstep
    exact h.resetRt ip
  | downEvt mac =>
    cases hstep
    exact (h.downEvt mac).1

theorem EthReach.inv (h : EthReach env s) : EthInv env s := by
  induction h with
  | start => exact EthInv.init
  | step _ _ hstep ih => exact ih.step hstep

/-- The table owns its kernel objects: different MAC addresses; headers and rules in
the kernel that are exactly those recorded, each recorded once and with the address
of its record, and no wrong deletion; and nothing without clients. -/
structure EthOwned (env : EthEnv) (s : EthTable) : Prop where
  mac : ∀ i < s.numEthClient, ∀ j < s.numEthClient,
    (s.ethClient i).mac = (s.ethClient j).mac → i = j
  hdrs : s.kernel.hdrs.Ledger s.hdrRecs
  rules : s.kernel.rules.Ledger (s.ruleRecs env)
  last : s.numEthClient = 0 →
    (∀ h, s.kernel.hdrs.installed h = none) ∧ ∀ h, s.kernel.rules.installed h = none

/-- **The ethernet clients own their kernel objects in every run**, for any properties
for sending and any handles that the kernel gives. -/
theorem ethClients_owned (h : EthReach env s) : EthOwned env s := by
  have hinv := h.inv
  refine ⟨hinv.mac, hinv.owns.hdrs, hinv.owns.rules, fun hzero => ⟨fun h => ?_, fun h => ?_⟩⟩
  · refine eq_none_iff_forall_ne_some.mpr fun o ho => ?_
    have hmem := (hinv.owns.hdrs.mem_iff h o).mp ho
    simp [EthTable.hdrRecs, hzero, slotRecs] at hmem
  · refine eq_none_iff_forall_ne_some.mpr fun o ho => ?_
    have hmem := (hinv.owns.rules.mem_iff h o).mp ho
    simp [EthTable.ruleRecs, hzero, slotRecs] at hmem

end

/-- Two clients with their rules, of which the first goes. -/
def sampleEthRun : List EthOp :=
  [.hdrInit 7, .ipaddr ⟨7, .v4, 0xC0A80102, 0⟩, .routeRule 7 .v4,
    .hdrInit 8, .ipaddr ⟨8, .v6, 0, ![0xFE800000, 0, 0, 1]⟩, .routeRule 8 .v6, .downEvt 7]

theorem ethClients_owned_sample :
    ∃ s, EthReach sampleEthEnv s ∧ s.numEthClient = 1 ∧ s.hdrRecs = [(4, ⟨.v4, 8⟩), (5, ⟨.v6, 8⟩)] ∧
      (s.ruleRecs sampleEthEnv).map Prod.fst = [(.v6, 6), (.v6, 7)] ∧ EthOwned sampleEthEnv s := by
  obtain ⟨s, hs, hnum, hhdr, hrule⟩ : ∃ s, EthTable.run sampleEthEnv sampleEthRun .init = some s ∧
      s.numEthClient = 1 ∧ s.hdrRecs = [(4, ⟨.v4, 8⟩), (5, ⟨.v6, 8⟩)] ∧
      (s.ruleRecs sampleEthEnv).map Prod.fst = [(.v6, 6), (.v6, 7)] := ⟨_, rfl, rfl, rfl, rfl⟩
  have h := EthReach.start.run hs
  exact ⟨s, h, hnum, hhdr, hrule, ethClients_owned h⟩

end G4Common.Ipacm

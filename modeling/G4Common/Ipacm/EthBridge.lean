/-
The filter rules for WLAN clients of the ethernet bridge
(`eth_bridge_add_wlan_client_flt_rule()`, `eth_bridge_del_wlan_client_flt_rule()` of
`ipacm/src/IPACM_Lan.cpp`).

An interface has a pool of dummy filter rules for each IP type.  A client that comes
gets the first rule that is still there, and a record says which; a client that goes
gives its rules back, by handle.  In a slot of the pool, `valid` says that the rule is
there.

The rule is taken from the pool before it is modified, and it is not put back if this
fails.  A client that goes gives back its IPv4 rule first, and if its IPv6 rule then
cannot be reset, the record still has both.  Otherwise pool and records agree in every
run (`wlanFlt_exact`).

The records behind the count are zero, so the table is a list.  Not modelled: the null
checks of the MAC address, failures of `malloc()`, and the content of the rules.
-/
import G4Common.Ipacm.EthClients

namespace G4Common.Ipacm

open Function List Bool

/-! ### Data -/

/-- `IPA_LAN_TO_LAN_MAX_WLAN_CLIENT`. -/
def lanToLanMaxWlanClient : ℕ := 32

/-- `lan2lan_flt_rule_hdl`. -/
structure FltHdl where
  ruleHdl : UInt32
  valid : Bool
  deriving DecidableEq, Repr

/-- `eth_bridge_client_flt_info`, with handle and flag by IP type. -/
structure ClientFltInfo where
  mac : MacAddr
  fltRuleHdl : IpType → UInt32
  fltRuleSet : IpType → Bool

/-- `wlan_client_flt_rule_hdl_v4` and `_v6`, and the first `wlan_client_flt_info_count`
records of `eth_bridge_wlan_client_flt_info`. -/
structure WlanFlt where
  pool : IpType → List FltHdl
  info : List ClientFltInfo

/-- What an addition meets: whether there are properties for receiving, a header
context from USB to WLAN, and an expected type of USB header, and whether
`GetRoutingTable()` and `ModifyFilteringRule()` succeed. -/
structure AddFltEnv where
  rxProp : Bool
  ctxValid : Bool
  hdrType : Bool
  getRt : Bool
  modify : Bool

/-! ### Functions -/

/-- Take the first rule that is there. -/
def takeHdl (l : List FltHdl) : Option (UInt32 × List FltHdl) :=
  updateFirst FltHdl.valid (fun x => (x.ruleHdl, { x with valid := false })) l

/-- Put the first rule with a handle back. -/
def giveHdl (h : UInt32) (l : List FltHdl) : Option (List FltHdl) :=
  (updateFirst (fun x => decide (x.ruleHdl = h)) (fun x => ((), { x with valid := true })) l).map Prod.snd

def ClientFltInfo.setFlt (c : ClientFltInfo) (ip : IpType) (h : UInt32) : ClientFltInfo :=
  { c with
    fltRuleHdl := update c.fltRuleHdl ip h
    fltRuleSet := update c.fltRuleSet ip true }

/-- Record a rule with the client, which may be a new one. -/
def recordFlt (mac : MacAddr) (ip : IpType) (h : UInt32) (info : List ClientFltInfo) :
    List ClientFltInfo :=
  match updateFirst (fun c => decide (c.mac = mac)) (fun c => ((), c.setFlt ip h)) info with
  | some r => r.2
  | none => info ++ [ClientFltInfo.setFlt ⟨mac, fun _ => 0, fun _ => false⟩ ip h]

section

variable (s : WlanFlt)

def WlanFlt.find (mac : MacAddr) : Option ClientFltInfo :=
  s.info.find? fun c => c.mac = mac

def ethBridgeAddWlanClientFltRule (a : AddFltEnv) (mac : MacAddr) (ip : IpType) : WlanFlt × Bool :=
  if a.rxProp = false then (s, false)
  else if a.ctxValid = false then (s, false)
  else if (s.find mac).any fun c => c.fltRuleSet ip then (s, true)
  else if (s.find mac).isNone ∧ s.info.length = lanToLanMaxWlanClient then (s, false)
  else if a.getRt = false then (s, false)
  else if a.hdrType = false then (s, false)
  else
    match takeHdl (s.pool ip) with
    | none => (s, false)
    | some r =>
      let s := { s with pool := update s.pool ip r.2 }
      if a.modify = false then (s, false)
      else ({ s with info := recordFlt mac ip r.1 s.info }, true)

/-- One half of the deletion: reset a rule and put it back. -/
def resetFlt (ok : Bool) (c : ClientFltInfo) (ip : IpType) : WlanFlt × Bool :=
  if c.fltRuleSet ip then
    if ok then
      match giveHdl (c.fltRuleHdl ip) (s.pool ip) with
      | some l => ({ s with pool := update s.pool ip l }, true)
      | none => (s, false)
    else (s, false)
  else (s, true)

/-- `eth_bridge_del_wlan_client_flt_rule()`, with whether `reset_to_dummy_flt_rule()`
succeeds. -/
def ethBridgeDelWlanClientFltRule (reset : IpType → Bool) (mac : MacAddr) : WlanFlt × Bool :=
  match s.find mac with
  | none => (s, false)
  | some c =>
    let r := resetFlt s (reset .v4) c .v4
    if r.2 = false then (r.1, false)
    else
      let r := resetFlt r.1 (reset .v6) c .v6
      if r.2 = false then (r.1, false)
      else ({ r.1 with info := r.1.info.eraseP fun c => c.mac = mac }, true)

end

/-! ### Runs -/

/-- The calls. -/
inductive WlanFltOp
  | add (a : AddFltEnv) (mac : MacAddr) (ip : IpType)
  | del (reset : IpType → Bool) (mac : MacAddr)

def WlanFlt.step (s : WlanFlt) : WlanFltOp → WlanFlt × Bool
  | .add a mac ip => ethBridgeAddWlanClientFltRule s a mac ip
  | .del reset mac => ethBridgeDelWlanClientFltRule s reset mac

/-- No clients, and full pools of different handles. -/
structure WlanFlt.Fresh (s : WlanFlt) : Prop where
  length : ∀ ip, (s.pool ip).length = lanToLanMaxWlanClient
  nodup : ∀ ip, ((s.pool ip).map FltHdl.ruleHdl).Nodup
  valid : ∀ ip, ∀ x ∈ s.pool ip, x.valid = true
  info : s.info = []

/-- The states of the runs whose calls satisfy `ok`. -/
inductive WlanFltReach (ok : WlanFlt → WlanFltOp → Prop) : WlanFlt → Prop
  | start (s : WlanFlt) : s.Fresh → WlanFltReach ok s
  | step {s : WlanFlt} (op : WlanFltOp) : WlanFltReach ok s → ok s op → WlanFltReach ok (s.step op).1

/-! ### What is taken and what is recorded -/

/-- The handles that are taken. -/
def taken (l : List FltHdl) : List UInt32 := (l.filter fun x => !x.valid).map FltHdl.ruleHdl

/-- The rule of a client for an IP type. -/
def ClientFltInfo.flt (ip : IpType) (c : ClientFltInfo) : Option UInt32 :=
  if c.fltRuleSet ip then some (c.fltRuleHdl ip) else none

/-- The handles that are recorded under a set flag. -/
def recorded (ip : IpType) (info : List ClientFltInfo) : List UInt32 :=
  info.filterMap (ClientFltInfo.flt ip)

section

variable {l l' : List FltHdl} {h : UInt32} {ip : IpType} {mac : MacAddr} {info : List ClientFltInfo}

theorem taken_split {l1 l2 : List FltHdl} {x : FltHdl} :
    taken (l1 ++ x :: l2) = taken l1 ++ (if x.valid then [] else [x.ruleHdl]) ++ taken l2 := by
  simp only [taken, filter_append, map_append, filter_cons]
  cases x.valid with
  | true | false => simp

theorem takeHdl_spec (ht : takeHdl l = some (h, l')) :
    (taken l').Perm (h :: taken l) ∧ l'.map FltHdl.ruleHdl = l.map FltHdl.ruleHdl := by
  obtain ⟨_, x, _, rfl, -, hx, rfl, rfl⟩ := updateFirst_eq_some.mp ht
  refine ⟨?_, by simp⟩
  rw [taken_split, taken_split, hx]
  simp only [if_true, append_nil, false_eq_true, if_false, append_assoc, singleton_append]
  exact perm_middle

theorem giveHdl_spec (hnd : (l.map FltHdl.ruleHdl).Nodup) (hh : h ∈ taken l) :
    ∃ l', giveHdl h l = some l' ∧ (taken l).Perm (h :: taken l') ∧
      l'.map FltHdl.ruleHdl = l.map FltHdl.ruleHdl := by
  obtain ⟨x, hx, rfl⟩ := mem_map.mp hh
  obtain ⟨hxl, hxv⟩ := mem_filter.mp hx
  cases hu : updateFirst (fun y : FltHdl => decide (y.ruleHdl = x.ruleHdl))
      (fun y => ((), { y with valid := true })) l with
  | none =>
    have hno := updateFirst_eq_none.mp hu x hxl
    simp at hno
  | some r =>
    obtain ⟨u, _⟩ := r
    obtain ⟨_, y, _, rfl, -, hy, -, rfl⟩ := updateFirst_eq_some.mp hu
    -- the slot that is found is the one that is taken
    obtain rfl : x = y := inj_on_of_nodup_map hnd hxl (by simp) (of_decide_eq_true hy).symm
    refine ⟨_, by rw [giveHdl, hu]; rfl, ?_, by simp⟩
    have hxv : x.valid = false := by simpa using hxv
    rw [taken_split, taken_split, hxv]
    simp only [if_true, append_nil, false_eq_true, if_false, append_assoc, singleton_append]
    exact perm_middle

theorem recorded_append {l1 l2 : List ClientFltInfo} : recorded ip (l1 ++ l2) = recorded ip l1 ++ recorded ip l2 :=
  filterMap_append

theorem recorded_cons {c : ClientFltInfo} : recorded ip (c :: info) = (c.flt ip).toList ++ recorded ip info := by
  simp only [recorded, filterMap_cons]
  cases c.flt ip with
  | none | some => rfl

theorem flt_setFlt_self (c : ClientFltInfo) : (c.setFlt ip h).flt ip = some h := by
  simp [ClientFltInfo.flt, ClientFltInfo.setFlt]

theorem flt_setFlt_of_ne (c : ClientFltInfo) {ip' : IpType} (hne : ip' ≠ ip) : (c.setFlt ip h).flt ip' = c.flt ip' := by
  simp [ClientFltInfo.flt, ClientFltInfo.setFlt, hne]

theorem flt_of_not_set {c : ClientFltInfo} (hc : c.fltRuleSet ip = false) : c.flt ip = none := by
  simp [ClientFltInfo.flt, hc]

theorem recordFlt_cases (mac : MacAddr) (ip : IpType) (h : UInt32) (info : List ClientFltInfo) :
    (∃ l1 c l2, info = l1 ++ c :: l2 ∧ info.find? (fun c => c.mac = mac) = some c ∧
      recordFlt mac ip h info = l1 ++ c.setFlt ip h :: l2) ∨
    info.find? (fun c => c.mac = mac) = none ∧
      recordFlt mac ip h info =
        info ++ [ClientFltInfo.setFlt ⟨mac, fun _ => 0, fun _ => false⟩ ip h] := by
  cases hu : updateFirst (fun c : ClientFltInfo => decide (c.mac = mac)) (fun c => ((), c.setFlt ip h)) info with
  | none =>
    right
    refine ⟨find?_eq_none.mpr fun c hc => ?_, by rw [recordFlt, hu]⟩
    rw [updateFirst_eq_none.mp hu c hc]
    exact false_ne_true
  | some r =>
    left
    obtain ⟨u, _⟩ := r
    obtain ⟨l1, c, l2, rfl, hl1, hc, -, rfl⟩ := updateFirst_eq_some.mp hu
    refine ⟨l1, c, l2, rfl, ?_, by rw [recordFlt, hu]⟩
    refine find?_eq_some_iff_append.mpr ⟨hc, l1, l2, rfl, fun x hx => ?_⟩
    rw [hl1 x hx]
    rfl

theorem recordFlt_macs (hnd : (info.map ClientFltInfo.mac).Nodup) :
    ((recordFlt mac ip h info).map ClientFltInfo.mac).Nodup := by
  obtain ⟨_, c, _, rfl, -, hr⟩ | ⟨hnone, hr⟩ := recordFlt_cases mac ip h info
  · rw [hr]
    simpa [ClientFltInfo.setFlt] using hnd
  rw [hr, map_append]
  refine List.Nodup.append hnd (nodup_singleton _) fun m hm hm' => ?_
  obtain ⟨c, hc, rfl⟩ := mem_map.mp hm
  have hcm := find?_eq_none.mp hnone c hc
  refine hcm (decide_eq_true ?_)
  simpa [ClientFltInfo.setFlt] using hm'

theorem recordFlt_self (hset : ∀ c, info.find? (fun c => c.mac = mac) = some c → c.fltRuleSet ip = false) :
    (recorded ip (recordFlt mac ip h info)).Perm (h :: recorded ip info) := by
  obtain ⟨_, c, _, rfl, hfind, hr⟩ | ⟨-, hr⟩ := recordFlt_cases mac ip h info
  · rw [hr, recorded_append, recorded_append, recorded_cons, recorded_cons, flt_setFlt_self,
      flt_of_not_set (hset c hfind)]
    exact perm_middle
  · rw [hr, recorded_append, recorded_cons, flt_setFlt_self]
    exact perm_append_singleton _ _

theorem recordFlt_of_ne {ip' : IpType} (hne : ip' ≠ ip) :
    recorded ip' (recordFlt mac ip h info) = recorded ip' info := by
  obtain ⟨_, c, _, rfl, -, hr⟩ | ⟨-, hr⟩ := recordFlt_cases mac ip h info
  · rw [hr, recorded_append, recorded_append, recorded_cons, recorded_cons, flt_setFlt_of_ne c hne]
  · rw [hr, recorded_append, recorded_cons, flt_setFlt_of_ne _ hne]
    exact append_nil _

theorem recorded_erase {c : ClientFltInfo} (hfind : info.find? (fun c => c.mac = mac) = some c) :
    (recorded ip info).Perm ((c.flt ip).toList ++ recorded ip (info.eraseP fun c => c.mac = mac)) := by
  obtain ⟨hc, l1, l2, rfl, hl1⟩ := find?_eq_some_iff_append.mp hfind
  have herase : (l1 ++ c :: l2).eraseP (fun c => c.mac = mac) = l1 ++ l2 := by
    rw [eraseP_append_right _ fun x hx => by simpa using hl1 x hx]
    rw [eraseP_cons, hc]
    rfl
  rw [herase, recorded_append, recorded_append, recorded_cons]
  rw [← append_assoc, ← append_assoc]
  exact List.Perm.append_right _ perm_append_comm

end

/-! ### The invariant -/

/-- The table and the pools agree. -/
structure WlanFltInv (s : WlanFlt) : Prop where
  macs : (s.info.map ClientFltInfo.mac).Nodup
  hdls : ∀ ip, ((s.pool ip).map FltHdl.ruleHdl).Nodup
  perm : ∀ ip, (taken (s.pool ip)).Perm (recorded ip s.info)

/-- The failures that do no harm.  A call of `ModifyFilteringRule()` that is made for an
addition must succeed.  If a client has two rules and its IPv4 rule is reset, its IPv6
rule must be reset too. -/
def WlanFltOk (s : WlanFlt) : WlanFltOp → Prop
  | .add a mac ip =>
    a.rxProp → a.ctxValid → (∀ c, s.find mac = some c → c.fltRuleSet ip = false) →
      (s.find mac = none → s.info.length ≠ lanToLanMaxWlanClient) → a.getRt → a.hdrType →
      (∃ x ∈ s.pool ip, x.valid) → a.modify
  | .del reset mac =>
    ∀ c, s.find mac = some c → c.fltRuleSet .v4 → c.fltRuleSet .v6 → reset .v4 → reset .v6

section

variable {s s' : WlanFlt}

theorem WlanFltInv.start (h : s.Fresh) : WlanFltInv s := by
  refine ⟨by simp [h.info], h.nodup, fun ip => ?_⟩
  have htaken : taken (s.pool ip) = [] := by
    simp only [taken, map_eq_nil_iff, filter_eq_nil_iff]
    intro x hx
    simp [h.valid ip x hx]
  rw [htaken, h.info]
  rfl

/-- The addition: it does not change anything, or it fails after the slot is taken, or
it succeeds. -/
theorem add_cases (a : AddFltEnv) (mac : MacAddr) (ip : IpType) :
    (∃ b, ethBridgeAddWlanClientFltRule s a mac ip = (s, b)) ∨
    ((∀ c, s.find mac = some c → c.fltRuleSet ip = false) ∧
      ∃ h l, takeHdl (s.pool ip) = some (h, l) ∧
        ((a.modify = false ∧ ¬ WlanFltOk s (.add a mac ip)) ∨
          ethBridgeAddWlanClientFltRule s a mac ip =
            (⟨update s.pool ip l, recordFlt mac ip h s.info⟩, true))) := by
  unfold ethBridgeAddWlanClientFltRule
  split
  · exact .inl ⟨_, rfl⟩
  rename_i hrx
  split
  · exact .inl ⟨_, rfl⟩
  rename_i hctx
  split
  · exact .inl ⟨_, rfl⟩
  rename_i hset
  split
  · exact .inl ⟨_, rfl⟩
  rename_i hfull
  split
  · exact .inl ⟨_, rfl⟩
  rename_i hrt
  split
  · exact .inl ⟨_, rfl⟩
  rename_i hhdr
  cases ht : takeHdl (s.pool ip) with
  | none => exact .inl ⟨_, rfl⟩
  | some r =>
    obtain ⟨h, l⟩ := r
    right
    rw [Option.any_eq_true] at hset
    have hset : ∀ c, s.find mac = some c → c.fltRuleSet ip = false :=
      fun c hc => eq_false_iff.mpr fun hs => hset ⟨c, hc, hs⟩
    refine ⟨hset, h, l, rfl, ?_⟩
    dsimp only
    split_ifs with hmod
    · refine .inl ⟨hmod, fun hok => ?_⟩
      obtain ⟨_, x, _, hl, -, hx, -⟩ := updateFirst_eq_some.mp ht
      have := hok (by simpa using hrx) (by simpa using hctx) hset
        (fun hnone hlen => hfull ⟨by simp [hnone], hlen⟩) (by simpa using hrt)
        (by simpa using hhdr) ⟨x, by simp [hl], hx⟩
      rw [hmod] at this
      exact false_ne_true this
    · exact .inr rfl

theorem WlanFltInv.add (h : WlanFltInv s) {a : AddFltEnv} {mac : MacAddr} {ip : IpType}
    (hok : WlanFltOk s (.add a mac ip)) : WlanFltInv (s.step (.add a mac ip)).1 := by
  show WlanFltInv (ethBridgeAddWlanClientFltRule s a mac ip).1
  obtain ⟨b, hb⟩ | ⟨hset, hdl, l, ht, ⟨-, hnok⟩ | hr⟩ := add_cases (s := s) a mac ip
  · rw [hb]
    exact h
  · exact absurd hok hnok
  rw [hr]
  obtain ⟨htaken, hhdls⟩ := takeHdl_spec ht
  refine ⟨recordFlt_macs h.macs, fun ip' => ?_, fun ip' => ?_⟩
  · show ((update s.pool ip l ip').map FltHdl.ruleHdl).Nodup
    rcases eq_or_ne ip' ip with rfl | hip
    · rw [update_self, hhdls]
      exact h.hdls ip'
    · rw [update_of_ne hip]
      exact h.hdls ip'
  show (taken (update s.pool ip l ip')).Perm (recorded ip' (recordFlt mac ip hdl s.info))
  rcases eq_or_ne ip' ip with rfl | hip
  · rw [update_self]
    exact htaken.trans (((h.perm ip').cons hdl).trans (recordFlt_self hset).symm)
  · rw [update_of_ne hip, recordFlt_of_ne hip]
    exact h.perm ip'

theorem resetFlt_spec (ok : Bool) {c : ClientFltInfo} {ip : IpType}
    (hnd : ((s.pool ip).map FltHdl.ruleHdl).Nodup) (hc : ∀ h ∈ c.flt ip, h ∈ taken (s.pool ip)) :
    (c.fltRuleSet ip ∧ ok = false ∧ resetFlt s ok c ip = (s, false)) ∨
    ((c.fltRuleSet ip → ok) ∧
      ∃ l, resetFlt s ok c ip = ({ s with pool := update s.pool ip l }, true) ∧
        (taken (s.pool ip)).Perm ((c.flt ip).toList ++ taken l) ∧
        l.map FltHdl.ruleHdl = (s.pool ip).map FltHdl.ruleHdl) := by
  unfold resetFlt
  cases hset : c.fltRuleSet ip with
  | false =>
    right
    refine ⟨fun hf => absurd hf false_ne_true, s.pool ip, ?_, ?_, rfl⟩
    · rw [if_neg Bool.false_ne_true, update_eq_self]
    · rw [flt_of_not_set hset]
      rfl
  | true =>
    rw [if_pos rfl]
    cases ok with
    | false => exact .inl ⟨rfl, rfl, rfl⟩
    | true =>
      right
      have hflt : c.flt ip = some (c.fltRuleHdl ip) := by simp [ClientFltInfo.flt, hset]
      obtain ⟨l, hl, hperm, hhdls⟩ := giveHdl_spec hnd (hc _ hflt)
      refine ⟨fun _ => rfl, l, ?_, ?_, hhdls⟩
      · rw [if_pos rfl, hl]
      · rw [hflt]
        exact hperm

/-- The deletion: it does not change anything, or it fails after the first half, or it
succeeds. -/
theorem WlanFltInv.del_cases (h : WlanFltInv s) (reset : IpType → Bool) (mac : MacAddr) :
    ethBridgeDelWlanClientFltRule s reset mac = (s, false) ∨
    ∃ c, s.find mac = some c ∧
      ((c.fltRuleSet .v4 ∧ c.fltRuleSet .v6 ∧ reset .v4 ∧ reset .v6 = false) ∨
        ∃ pool, ethBridgeDelWlanClientFltRule s reset mac =
            (⟨pool, s.info.eraseP fun c => c.mac = mac⟩, true) ∧
          ∀ ip, (taken (s.pool ip)).Perm ((c.flt ip).toList ++ taken (pool ip)) ∧
            (pool ip).map FltHdl.ruleHdl = (s.pool ip).map FltHdl.ruleHdl) := by
  unfold ethBridgeDelWlanClientFltRule
  cases hfind : s.find mac with
  | none => exact .inl rfl
  | some c =>
    dsimp only
    have hmem : ∀ ip, ∀ x ∈ c.flt ip, x ∈ taken (s.pool ip) := fun ip x hx =>
      (h.perm ip).mem_iff.mpr (mem_filterMap.mpr ⟨c, mem_of_find?_eq_some hfind, hx⟩)
    obtain ⟨-, -, hr4⟩ | ⟨hreset4, l4, hr4, hp4, hm4⟩ :=
      resetFlt_spec (reset .v4) (h.hdls .v4) (hmem .v4)
    · rw [hr4]
      exact .inl rfl
    obtain ⟨t, ht⟩ : ∃ t : WlanFlt, t = { s with pool := update s.pool .v4 l4 } := ⟨_, rfl⟩
    have hv6 : t.pool .v6 = s.pool .v6 := by
      rw [ht]
      have hne : IpType.v6 ≠ IpType.v4 := by decide
      exact update_of_ne hne l4 s.pool
    rw [← ht] at hr4
    obtain ⟨hset6, hreset6, hr6⟩ | ⟨-, l6, hr6, hp6, hm6⟩ :=
      resetFlt_spec (s := t) (reset .v6) (hv6 ▸ h.hdls .v6) (hv6 ▸ hmem .v6)
    · -- the second half fails: the first one is harmless only if there was nothing to reset
      cases hset4 : c.fltRuleSet .v4 with
      | true => exact .inr ⟨c, rfl, Or.inl ⟨hset4, hset6, hreset4 hset4, hreset6⟩⟩
      | false =>
        left
        have hs : resetFlt s (reset .v4) c .v4 = (s, true) := by simp [resetFlt, hset4]
        have heq : t = s := by
          rw [hr4] at hs
          exact congrArg Prod.fst hs
        rw [hr4, if_neg (by simp), hr6, heq]
        rfl
    refine .inr ⟨c, rfl, Or.inr ⟨update (update s.pool .v4 l4) .v6 l6, ?_, ?_⟩⟩
    · rw [hr4, if_neg (by simp), hr6, ht]
      rfl
    rw [hv6] at hp6 hm6
    intro ip
    cases ip with
    | v4 => exact ⟨hp4, hm4⟩
    | v6 => exact ⟨hp6, hm6⟩

theorem WlanFltInv.del (h : WlanFltInv s) {reset : IpType → Bool} {mac : MacAddr}
    (hok : WlanFltOk s (.del reset mac)) : WlanFltInv (s.step (.del reset mac)).1 := by
  show WlanFltInv (ethBridgeDelWlanClientFltRule s reset mac).1
  obtain hr | ⟨c, hc, ⟨h4, h6, hr4, hr6⟩ | ⟨_, hr, hpool⟩⟩ := h.del_cases reset mac
  · rw [hr]
    exact h
  · have := hok c hc h4 h6 hr4
    rw [hr6] at this
    exact nomatch this
  rw [hr]
  refine ⟨h.macs.sublist (eraseP_sublist.map _), fun ip => ?_, fun ip => ?_⟩
  · rw [(hpool ip).2]
    exact h.hdls ip
  · exact (perm_append_left_iff _).mp ((hpool ip).1.symm.trans ((h.perm ip).trans (recorded_erase hc)))

theorem WlanFltInv.step (h : WlanFltInv s) {op : WlanFltOp} (hok : WlanFltOk s op) : WlanFltInv (s.step op).1 := by
  cases op with
  | add => exact h.add hok
  | del => exact h.del hok

theorem WlanFltInv.step_fail (h : WlanFltInv s) {op : WlanFltOp} (hok : WlanFltOk s op)
    (hfail : (s.step op).2 = false) : (s.step op).1 = s := by
  cases op with
  | add a mac ip =>
    show (ethBridgeAddWlanClientFltRule s a mac ip).1 = s
    obtain ⟨b, hb⟩ | ⟨-, _, l, -, ⟨-, hnok⟩ | hr⟩ := add_cases (s := s) a mac ip
    · rw [hb]
    · exact absurd hok hnok
    · simp [WlanFlt.step, hr] at hfail
  | del reset mac =>
    show (ethBridgeDelWlanClientFltRule s reset mac).1 = s
    obtain hr | ⟨c, hc, ⟨h4, h6, hr4, hr6⟩ | ⟨_, hr, -⟩⟩ := h.del_cases reset mac
    · rw [hr]
    · have := hok c hc h4 h6 hr4
      rw [hr6] at this
      exact nomatch this
    · simp [WlanFlt.step, hr] at hfail

/-- The pools and the table agree. -/
structure WlanFlt.Exact (s : WlanFlt) : Prop where
  macs : (s.info.map ClientFltInfo.mac).Nodup
  taken_iff : ∀ ip h, h ∈ taken (s.pool ip) ↔ h ∈ recorded ip s.info
  once : ∀ ip, (recorded ip s.info).Nodup

theorem WlanFltInv.exact (h : WlanFltInv s) : s.Exact :=
  ⟨h.macs, fun ip _ => (h.perm ip).mem_iff, fun ip => (h.perm ip).nodup_iff.mp
    ((h.hdls ip).sublist (filter_sublist.map _))⟩

/-- **The slots that are taken are exactly those recorded, each one once, and a call that
fails changes nothing**, in every run whose failures do no harm. -/
theorem wlanFlt_exact (h : WlanFltReach WlanFltOk s) :
    s.Exact ∧ ∀ op, WlanFltOk s op → (s.step op).2 = false → (s.step op).1 = s := by
  have hinv : WlanFltInv s := by
    induction h with
    | start _ hs => exact WlanFltInv.start hs
    | step _ _ hok ih => exact ih.step hok
  exact ⟨hinv.exact, fun op hok hfail => hinv.step_fail hok hfail⟩

end

/-- The handles 0 to 31 for either IP type. -/
def sampleWlanFlt : WlanFlt :=
  ⟨fun _ => (range lanToLanMaxWlanClient).map fun i => ⟨i.toUInt32, true⟩, []⟩

theorem sampleWlanFlt_fresh : sampleWlanFlt.Fresh := by
  refine ⟨fun _ => rfl, fun _ => ?_, fun _ x hx => ?_, rfl⟩
  · show (((range lanToLanMaxWlanClient).map fun i => (⟨i.toUInt32, true⟩ : FltHdl)).map
      FltHdl.ruleHdl).Nodup
    decide
  · obtain ⟨i, -, rfl⟩ := mem_map.mp hx
    rfl

/-- Everything is there and succeeds. -/
def sampleAddFltEnv : AddFltEnv := ⟨true, true, true, true, true⟩

theorem wlanFlt_exact_sample :
    ∃ s : WlanFlt, WlanFltReach WlanFltOk s ∧ recorded .v4 s.info = [0] ∧ recorded .v6 s.info = [0, 1] ∧
      s.Exact := by
  have h0 : WlanFltReach WlanFltOk sampleWlanFlt := WlanFltReach.start _ sampleWlanFlt_fresh
  have h1 := h0.step (.add sampleAddFltEnv 8 .v4) fun _ _ _ _ _ _ _ => rfl
  have h2 := h1.step (.add sampleAddFltEnv 8 .v6) fun _ _ _ _ _ _ _ => rfl
  have h3 := h2.step (.add sampleAddFltEnv 9 .v6) fun _ _ _ _ _ _ _ => rfl
  exact ⟨_, h3, rfl, rfl, (wlanFlt_exact h3).1⟩

/-- A rule that cannot be modified is lost.  If the IPv6 rule of a client cannot be reset,
its IPv4 rule is in the pool and in the record. -/
theorem wlanFlt_lost : (∃ s : WlanFlt, WlanFltReach (fun _ _ => True) s ∧ 0 ∈ taken (s.pool .v4) ∧ s.info = []) ∧
    ∃ s : WlanFlt, WlanFltReach (fun _ _ => True) s ∧ taken (s.pool .v4) = [] ∧
      recorded .v4 s.info = [0] := by
  have h : WlanFltReach (fun _ _ => True) sampleWlanFlt := WlanFltReach.start _ sampleWlanFlt_fresh
  refine ⟨⟨_, h.step (.add { sampleAddFltEnv with modify := false } 8 .v4) trivial, ?_, rfl⟩, ?_⟩
  · exact mem_cons_self
  have h1 := h.step (.add sampleAddFltEnv 8 .v4) trivial
  have h2 := h1.step (.add sampleAddFltEnv 8 .v6) trivial
  have h3 := h2.step (.del (fun ip => ip = .v4) 8) trivial
  exact ⟨_, h3, rfl, rfl⟩

end G4Common.Ipacm

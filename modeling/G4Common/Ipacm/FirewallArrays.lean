/-
The arrays of the firewall rules (`ipacm/inc/IPACM_Wan.h`): the handles of the rules for a
STA backhaul, `firewall_hdl_v4` and `firewall_hdl_v6`, the rules for a modem backhaul,
`flt_rule_v4` and `flt_rule_v6`, and the table of one rule that goes to the kernel.

None of the functions that fill them looks at their size.  A call stays inside the arrays
whatever the kernel answers if and only if the configuration is small enough for it
(`FwOp.Fits`), and so does every run of calls (`firewallArrays_exact`).  A configuration of
the size that the program itself allows can be too large: every entry for TCP and UDP is two
rules, the rules for a modem share their array with the default rules and those for ALG
ports, and for IPv4 a message reads the table of one rule at the number of the rule.
-/
import G4Common.Ipacm.Firewall

namespace G4Common.Ipacm

open List

/-! ### Accesses -/

/-- `IPACM_MAX_FIREWALL_ENTRIES`, `IPA_MAX_FLT_RULE`, `IPA_NUM_DEFAULT_WAN_FILTER_RULES`, and
the one rule of `m_pFilteringTable`. -/
def FwArray.size : FwArray → ℕ
  | .firewallHdl _ => 50
  | .fltRule _ => 50
  | .dftWanFlHdl => 3
  | .filteringTable => 1

def FwAccess.InBounds (x : FwAccess) : Prop := x.idx < x.arr.size

instance (x : FwAccess) : Decidable x.InBounds := inferInstanceAs (Decidable (_ < _))

section

variable {E : Type*}

/-- The accesses of a function whose calls of the kernel succeed as `ok` says, from call `n`
on. -/
def runAccesses (ok : ℕ → Bool) : ℕ → List (FwStep E) → List FwAccess
  | _, [] => []
  | n, s :: l => s.before ++ if ok n then s.after ++ runAccesses ok (n + 1) l else []

/-- No step goes outside an array. -/
def StepsSafe (l : List (FwStep E)) : Prop := ∀ s ∈ l, ∀ x ∈ s.before ++ s.after, x.InBounds

theorem runAccesses_safe (ok : ℕ → Bool) {n : ℕ} {l : List (FwStep E)} (h : StepsSafe l) :
    ∀ x ∈ runAccesses ok n l, x.InBounds := by
  induction l generalizing n with
  | nil => exact nofun
  | cons s _ ih =>
    intro x hx
    have hs := h s mem_cons_self
    rw [runAccesses, mem_append] at hx
    rcases hx with hx | hx
    · exact hs x (mem_append_left _ hx)
    cases hok : ok n with
    | false =>
      rw [hok] at hx
      exact nomatch hx
    | true =>
      rw [hok, if_pos rfl, mem_append] at hx
      rcases hx with hx | hx
      · exact hs x (mem_append_right _ hx)
      · exact ih (fun s' hs' => h s' (mem_cons_of_mem _ hs')) x hx

theorem mem_runAccesses {n : ℕ} {l : List (FwStep E)} {s : FwStep E} (hs : s ∈ l) {x : FwAccess}
    (hx : x ∈ s.before ++ s.after) : x ∈ runAccesses (fun _ => true) n l := by
  induction l generalizing n with
  | nil => exact nomatch hs
  | cons _ _ ih =>
    rw [runAccesses, if_pos rfl, ← append_assoc, mem_append]
    rcases mem_cons.mp hs with rfl | hs
    · exact .inl hx
    · exact .inr (ih hs)

/-! Safety of steps one by one. -/

variable {l l' : List (FwStep E)} {s : FwStep E}

theorem stepsSafe_nil : StepsSafe ([] : List (FwStep E)) := nofun

theorem stepsSafe_cons : StepsSafe (s :: l) ↔ (∀ x ∈ s.before ++ s.after, x.InBounds) ∧ StepsSafe l :=
  forall_mem_cons

theorem stepsSafe_append : StepsSafe (l ++ l') ↔ StepsSafe l ∧ StepsSafe l' := forall_mem_append

theorem stepsSafe_query : StepsSafe (queryStep :: l) ↔ StepsSafe l := by
  rw [stepsSafe_cons]
  exact and_iff_right nofun

theorem stepsSafe_mapIdx {α : Type*} {as : List α} {f : ℕ → α → FwStep E} {P : ℕ → Prop}
    (h : ∀ k x, (∀ y ∈ (f k x).before ++ (f k x).after, y.InBounds) ↔ P k) :
    StepsSafe (as.mapIdx f) ↔ ∀ k < as.length, P k := by
  constructor
  · intro hall k hk
    exact (h k _).mp (hall _ (mem_mapIdx.mpr ⟨k, hk, rfl⟩))
  · intro hall s hs
    obtain ⟨k, hk, rfl⟩ := mem_mapIdx.mp hs
    exact (h k _).mpr (hall k hk)

theorem stepsSafe_storeRules {ip : IpType} {pos : ℕ} {calls : List (Option (FltRule E))} :
    StepsSafe (storeRules ip pos calls) ↔ ∀ k < (calls.filterMap id).length, pos + k < 50 := by
  induction calls generalizing pos with
  | nil => exact iff_of_true stepsSafe_nil fun k hk => absurd hk (Nat.not_lt_zero k)
  | cons r calls ih =>
    cases r with
    | none => exact stepsSafe_query.trans ih
    | some r =>
      rw [storeRules, stepsSafe_cons, ih]
      have hfirst : (∀ x ∈ ([] : List FwAccess) ++ [⟨.fltRule ip, pos⟩], x.InBounds) ↔ pos < 50 :=
        forall_mem_singleton
      rw [hfirst]
      show _ ↔ ∀ k < (calls.filterMap id).length + 1, pos + k < 50
      constructor
      · rintro ⟨h0, h⟩ k hk
        rcases k with _ | k
        · exact h0
        · have := h k (by omega)
          omega
      intro h
      refine ⟨h 0 (by omega), fun k hk => ?_⟩
      have := h (k + 1) (by omega)
      omega

end

/-! ### Calls -/

section

variable {E : Type*} (K : FltKernel E) (rx : RxAttribs)

/-- A destination, under a mask of the first word. -/
def RuleAttrib.dstV6 (a : RuleAttrib) (addr mask : UInt32) : RuleAttrib :=
  { a with v6 := { a.v6 with
    dstAddr := ipv6OfFirst addr
    dstAddrMask := ipv6OfFirst mask } }

def RuleAttrib.dstV4 (a : RuleAttrib) (addr mask : UInt32) : RuleAttrib :=
  { a with v4 := { a.v4 with dstAddr := addr, dstAddrMask := mask } }

/-- `add_dft_filtering_rule()`.  Every rule is made from the attributes of the last one, with
the addresses in network order again.  With `FEATURE_IPA_ANDROID` three more rules are stored
without a call, whose equations for the flags of TCP are written out; they are not among
the rules of the steps. -/
def addDftFilteringRule (android : Bool) : IpType → List (FwStep E)
  | .v4 =>
    let base := rx.rx0.clearMeta.setFlag .dstAddr
    let multicast := changeToNetworkOrder .v4 (base.dstV4 0xE0000000 0xF0000000)
    let broadcast := changeToNetworkOrder .v4 (multicast.dstV4 0xFFFFFFFF 0xFFFFFFFF)
    [queryStep, exStep K .v4 multicast 0, exStep K .v4 broadcast 1]
  | .v6 =>
    let base := rx.rx0.clearMeta.setFlag .dstAddr
    let multicast := changeToNetworkOrder .v6 (base.dstV6 0xFF000000 0xFF000000)
    let linkScoped := changeToNetworkOrder .v6 (multicast.dstV6 0xFE800000 0xFFC00000)
    let reserved := changeToNetworkOrder .v6 (linkScoped.dstV6 0xFEC00000 0xFFC00000)
    [queryStep, exStep K .v6 multicast 0, exStep K .v6 linkScoped 1,
      ⟨[], some (exPortRule K .v6 reserved), ⟨.fltRule .v6, 2⟩ ::
        if android then [⟨.fltRule .v6, 3⟩, ⟨.fltRule .v6, 4⟩, ⟨.fltRule .v6, 5⟩] else []⟩]

/-- A call that fills the arrays.  `init_fl_rule_ex()` adds the default rules only for the
first PDN. -/
inductive FwOp
  | configDftFirewallRules (c : FirewallConf) (rx : RxAttribs) (ip : IpType)
  | configWanFirewallRule (c : FirewallConf) (rx : RxAttribs) (algs : List AlgPort) (ip : IpType)
  | initFlRuleEx (rx : RxAttribs) (pdnIndex : ℕ) (ip : IpType)

def FwOp.steps (android : Bool) : FwOp → List (FwStep E)
  | .configDftFirewallRules c rx ip => Ipacm.configDftFirewallRules c rx ip
  | .configWanFirewallRule c rx algs ip => Ipacm.configWanFirewallRule K c rx android algs ip
  | .initFlRuleEx rx pdnIndex ip =>
    if pdnIndex = 0 then addDftFilteringRule K rx android ip else []

/-- The accesses of calls, each with the answers of the kernel.  The numbers of rules that a
call leaves behind are not used by the next one: `rule_v4` and `rule_v6` are local, and
`num_v4_flt_rule` and `num_v6_flt_rule` are set anew. -/
def callAccesses (android : Bool) (calls : List (FwOp × (ℕ → Bool))) : List FwAccess :=
  calls.flatMap fun o => runAccesses o.2 0 (o.1.steps K android)

end

/-! ### When the arrays are large enough -/

/-- The rules that an entry becomes. -/
def FirewallEntry.ruleCount (ip : IpType) (e : FirewallEntry) : ℕ :=
  if e.attrib.proto ip = ipprotoTcpUdp then 2 else 1

/-- The rules that the entries for an IP type become. -/
def FirewallConf.ruleCount (c : FirewallConf) (ip : IpType) : ℕ :=
  if c.firewallEnable then ((c.entriesOf ip).map (FirewallEntry.ruleCount ip)).sum else 0

/-- The rule for IPv6 fragments. -/
def FirewallConf.fragCount (c : FirewallConf) : IpType → ℕ
  | .v4 => 0
  | .v6 => if c.firewallEnable then 1 else 0

/-- The rules for ICMP and ALG ports. -/
def icmpAlgCount (algs : List AlgPort) : IpType → ℕ
  | .v4 => 1 + 2 * algs.length
  | .v6 => 1

/-- The arrays are large enough for a call. -/
def FwOp.Fits (android : Bool) : FwOp → Prop
  -- the message for an IPv4 rule reads a table of one rule
  | .configDftFirewallRules c _ .v4 => c.ruleCount .v4 ≤ 1
  | .configDftFirewallRules c _ .v6 => c.ruleCount .v6 ≤ 50
  | .configWanFirewallRule c _ algs ip =>
    numDefaultWanFilterRule android ip + icmpAlgCount algs ip + c.fragCount ip + c.ruleCount ip + 1 ≤ 50
  | .initFlRuleEx _ _ _ => True

section

variable {E : Type*} {K : FltKernel E} {c : FirewallConf} {rx : RxAttribs} {ip : IpType}
variable {algs : List AlgPort}

theorem length_entryRules (a : RuleAttrib) (e : FirewallEntry) : (entryRules a ip e).length = e.ruleCount ip := by
  rw [entryRules, splitTcpUdp, proto_entryAttrib, FirewallEntry.ruleCount]
  split <;> rfl

theorem length_exEntryCalls (e : FirewallEntry) :
    ((exEntryCalls K c rx ip e).filterMap id).length = e.ruleCount ip := by
  rw [exEntryCalls, FirewallEntry.ruleCount]
  split <;> rfl

/-! #### STA backhaul -/

theorem staStep_safe {action : FltAction} {rt : Option RtTbl} {a : RuleAttrib} {after : List FwAccess} :
    (∀ x ∈ (staStep action rt a after : FwStep E).before ++ (staStep action rt a after : FwStep E).after,
      x.InBounds) ↔ ∀ x ∈ after, x.InBounds := by
  show (∀ x ∈ ⟨.filteringTable, 0⟩ :: ⟨.filteringTable, 0⟩ :: after, x.InBounds) ↔ _
  have h0 : FwAccess.InBounds ⟨.filteringTable, 0⟩ := by decide
  rw [forall_mem_cons, forall_mem_cons, and_iff_right h0, and_iff_right h0]

/-- How many rules the arrays have room for. -/
def staRoom : IpType → ℕ
  | .v4 => 1
  | .v6 => 50

theorem staAccesses_safe {k : ℕ} : (∀ x ∈ staAccesses ip k, x.InBounds) ↔ k < staRoom ip := by
  cases ip with
  | v4 =>
    show (∀ x ∈ [⟨.filteringTable, k⟩, ⟨.firewallHdl .v4, k⟩], FwAccess.InBounds x) ↔ k < 1
    rw [forall_mem_cons, forall_mem_singleton]
    show k < 1 ∧ k < 50 ↔ k < 1
    omega
  | v6 => exact forall_mem_singleton

theorem staEntrySteps_safe : StepsSafe (staEntrySteps c rx ip : List (FwStep E)) ↔ c.ruleCount ip ≤ staRoom ip := by
  unfold staEntrySteps FirewallConf.ruleCount
  cases c.firewallEnable with
  | false => exact iff_of_true stepsSafe_nil (Nat.zero_le _)
  | true =>
    rw [if_pos rfl, if_pos rfl]
    refine (stepsSafe_mapIdx fun k _ => staStep_safe.trans (staAccesses_safe (k := k))).trans ?_
    rw [length_flatMap]
    simp only [length_entryRules]
    constructor
    · intro h
      by_contra hlt
      exact absurd (h (staRoom ip) (not_le.mp hlt)) (lt_irrefl _)
    · exact fun h k hk => lt_of_lt_of_le hk h

theorem staDefaultStep_safe {idx : ℕ} (h : idx < 3) {l : List (FwStep E)} :
    StepsSafe (staDefaultStep c rx ip idx :: l) ↔ StepsSafe l := by
  rw [stepsSafe_cons]
  exact and_iff_right (staStep_safe.mpr (forall_mem_singleton.mpr h))

theorem staIcmpStep_safe {l : List (FwStep E)} : StepsSafe (staIcmpStep rx :: l) ↔ StepsSafe l := by
  rw [stepsSafe_cons]
  exact and_iff_right (staStep_safe.mpr (forall_mem_singleton.mpr (by decide)))

theorem staFragStep_safe {l : List (FwStep E)} : StepsSafe (staFragStep rx :: l) ↔ StepsSafe l := by
  rw [stepsSafe_cons]
  exact and_iff_right (staStep_safe.mpr nofun)

theorem ruleCount_eq_zero (h : c.entriesOf ip = []) : c.ruleCount ip = 0 := by
  rw [FirewallConf.ruleCount, h]
  exact ite_self 0

theorem configDftFirewallRules_safe :
    StepsSafe (configDftFirewallRules c rx ip : List (FwStep E)) ↔ c.ruleCount ip ≤ staRoom ip := by
  have hlast : ∀ {idx : ℕ}, idx < 3 → StepsSafe ([staDefaultStep c rx ip idx] : List (FwStep E)) :=
    fun h => (staDefaultStep_safe h).mpr stepsSafe_nil
  cases ip with
  | v4 =>
    rw [configDftFirewallRules]
    split
    case isTrue hnone =>
      have hnone4 : c.entriesOf .v4 = [] := hnone
      rw [ruleCount_eq_zero hnone4, stepsSafe_query]
      exact iff_of_true (hlast (by decide)) (Nat.zero_le _)
    case isFalse =>
      rw [append_assoc, singleton_append, stepsSafe_query, stepsSafe_append, staEntrySteps_safe]
      exact and_iff_left (hlast (by decide))
  | v6 =>
    have hfrag : StepsSafe (if c.firewallEnable then [staFragStep rx] else [] : List (FwStep E)) := by
      split
      · exact staFragStep_safe.mpr stepsSafe_nil
      · exact stepsSafe_nil
    rw [configDftFirewallRules, stepsSafe_append, and_iff_right hfrag]
    split
    case isTrue hnone =>
      -- an entry for IPv6 is an entry that is not for IPv4
      have hnone6 : c.entriesOf .v6 = [] := by
        rw [FirewallConf.entriesOf, filter_eq_nil_iff]
        intro e he
        have h4 := filter_eq_nil_iff.mp hnone e he
        intro h6
        have h6 := of_decide_eq_true h6
        refine h4 (decide_eq_true ?_)
        rw [h6]
        decide
      rw [ruleCount_eq_zero hnone6, staIcmpStep_safe, stepsSafe_query]
      exact iff_of_true (hlast (by decide)) (Nat.zero_le _)
    case isFalse =>
      rw [append_assoc, singleton_append, stepsSafe_query, stepsSafe_append, staEntrySteps_safe, staIcmpStep_safe]
      exact and_iff_left (hlast (by decide))

/-! #### Modem backhaul -/

theorem exStep_safe {a : RuleAttrib} {pos : ℕ} :
    (∀ x ∈ (exStep K ip a pos).before ++ (exStep K ip a pos).after, x.InBounds) ↔ pos < 50 :=
  forall_mem_singleton

theorem exSteps_safe {f : AlgPort → RuleAttrib} {offset : ℕ} :
    StepsSafe (algs.mapIdx fun i g => exStep K ip (f g) (offset + i)) ↔
      ∀ i < algs.length, offset + i < 50 :=
  stepsSafe_mapIdx fun _ _ => exStep_safe

theorem addIcmpAlgRules_safe {offset : ℕ} :
    StepsSafe (addIcmpAlgRules K rx algs offset ip) ↔ offset + icmpAlgCount algs ip ≤ 50 := by
  cases ip with
  | v4 =>
    rw [addIcmpAlgRules, stepsSafe_append, stepsSafe_append, stepsSafe_query, stepsSafe_cons, exStep_safe,
      exSteps_safe, exSteps_safe]
    show (_ ∧ _) ∧ _ ↔ offset + (1 + 2 * algs.length) ≤ 50
    constructor
    · rintro ⟨⟨⟨_, -⟩, -⟩, h⟩
      by_contra hgt
      have := h (algs.length - 1)
      omega
    · intro h
      exact ⟨⟨⟨by omega, stepsSafe_nil⟩, fun k hk => by omega⟩, fun k hk => by omega⟩
  | v6 =>
    rw [addIcmpAlgRules, stepsSafe_query, stepsSafe_cons, exStep_safe]
    exact and_iff_left stepsSafe_nil

theorem length_addIcmpAlgRules {offset : ℕ} :
    (addedRules (addIcmpAlgRules K rx algs offset ip)).length = icmpAlgCount algs ip := by
  cases ip with
  | v4 =>
    rw [addIcmpAlgRules, addedRules_append, addedRules_append,
      addedRules_mapIdx (g := fun g => exPortRule K .v4 (algSrcAttrib rx g)) fun _ _ => rfl,
      addedRules_mapIdx (g := fun g => exPortRule K .v4 (algDstAttrib rx g)) fun _ _ => rfl,
      length_append, length_append, length_map, length_map]
    show 1 + algs.length + algs.length = 1 + 2 * algs.length
    omega
  | v6 => rfl

theorem length_exCalls : ((exCalls K c rx ip).filterMap id).length = c.fragCount ip + c.ruleCount ip + 1 := by
  have hentries : (((if c.firewallEnable then (c.entriesOf ip).flatMap (exEntryCalls K c rx ip) else []) :
      List (Option (FltRule E))).filterMap id).length = c.ruleCount ip := by
    unfold FirewallConf.ruleCount
    cases c.firewallEnable with
    | false => rfl
    | true =>
      rw [if_pos rfl, if_pos rfl, filterMap_flatMap, length_flatMap]
      simp only [length_exEntryCalls]
  rw [exCalls, filterMap_append, filterMap_append, length_append, length_append, hentries]
  cases ip with
  | v4 => rfl
  | v6 =>
    unfold FirewallConf.fragCount
    cases c.firewallEnable <;> rfl

theorem configWanFirewallRule_safe {android : Bool} : StepsSafe (configWanFirewallRule K c rx android algs ip) ↔
      numDefaultWanFilterRule android ip + icmpAlgCount algs ip + c.fragCount ip + c.ruleCount ip + 1 ≤
        50 := by
  rw [configWanFirewallRule, stepsSafe_append, addIcmpAlgRules_safe, configDftFirewallRulesEx,
    stepsSafe_storeRules, length_exCalls, length_addIcmpAlgRules]
  constructor
  · rintro ⟨-, h⟩
    have := h (c.fragCount ip + c.ruleCount ip) (by omega)
    omega
  · intro h
    exact ⟨by omega, fun k hk => by omega⟩

theorem addDftFilteringRule_safe {android : Bool} : StepsSafe (addDftFilteringRule K rx android ip) := by
  cases ip with
  | v4 =>
    rw [addDftFilteringRule, stepsSafe_query, stepsSafe_cons, stepsSafe_cons]
    exact ⟨exStep_safe.mpr (by decide), exStep_safe.mpr (by decide), stepsSafe_nil⟩
  | v6 =>
    rw [addDftFilteringRule, stepsSafe_query, stepsSafe_cons, stepsSafe_cons, stepsSafe_cons]
    refine ⟨exStep_safe.mpr (by decide), exStep_safe.mpr (by decide), ?_, stepsSafe_nil⟩
    cases android with
    | false => exact forall_mem_singleton.mpr (by decide)
    | true =>
      show ∀ x ∈ [⟨.fltRule .v6, 2⟩, ⟨.fltRule .v6, 3⟩, ⟨.fltRule .v6, 4⟩, ⟨.fltRule .v6, 5⟩], FwAccess.InBounds x
      decide

end

/-! ### Runs -/

theorem FwOp.steps_safe {E : Type*} {K : FltKernel E} {android : Bool} (o : FwOp) :
    StepsSafe (o.steps K android) ↔ o.Fits android := by
  cases o with
  | configDftFirewallRules _ _ ip =>
    rw [FwOp.steps, configDftFirewallRules_safe]
    cases ip with
    | v4 | v6 => exact Iff.rfl
  | configWanFirewallRule => exact configWanFirewallRule_safe
  | initFlRuleEx =>
    refine iff_of_true ?_ trivial
    rw [FwOp.steps]
    split
    · exact addDftFilteringRule_safe
    · exact stepsSafe_nil

/-- **The arrays are accessed inside their bounds in every run of calls, whatever the kernel
answers, if and only if they are large enough for every call.** -/
theorem firewallArrays_exact {E : Type*} (K : FltKernel E) (android : Bool) (ops : List FwOp) :
    (∀ calls : List (FwOp × (ℕ → Bool)), calls.map Prod.fst = ops →
        ∀ x ∈ callAccesses K android calls, x.InBounds) ↔
      ∀ o ∈ ops, o.Fits android := by
  constructor
  · intro h o ho
    -- the run in which the kernel never fails
    have hrun := h (ops.map fun o => (o, fun _ => true)) (by simp [Function.comp_def])
    have hsafe : StepsSafe (o.steps K android) := fun s hs x hx => hrun x <|
      mem_flatMap.mpr ⟨_, mem_map.mpr ⟨o, ho, rfl⟩, mem_runAccesses hs hx⟩
    exact o.steps_safe.mp hsafe
  rintro h _ rfl x hx
  obtain ⟨o, ho, hx⟩ := mem_flatMap.mp hx
  have hfits : o.1.Fits android := h o.1 (mem_map.mpr ⟨o, ho, rfl⟩)
  exact runAccesses_safe o.2 (o.1.steps_safe.mpr hfits) x hx

/-- Two entries for a port of TCP, and 26 for TCP and UDP over IPv6. -/
def sampleLargeConf : FirewallConf where
  entries :=
    replicate 2 ⟨((zeroAttrib.setFlag .dstPort).setFlag .protocol).setProto 6 .v4, 4⟩ ++
      replicate 26 ⟨((zeroAttrib.setFlag .dstPort).setFlag .nextHdr).setProto 253 .v6, 6⟩
  ruleActionAccept := true
  firewallEnable := true

/-- With 28 entries of 50, all arrays are accessed outside their bounds. -/
theorem firewallArrays_exceeded : sampleLargeConf.entries.length ≤ 50 ∧
      ⟨.filteringTable, 1⟩ ∈ callAccesses sampleFltKernel true
        [(.configDftFirewallRules sampleLargeConf sampleRx .v4, fun _ => true)] ∧
      ⟨.firewallHdl .v6, 50⟩ ∈ callAccesses sampleFltKernel true
        [(.configDftFirewallRules sampleLargeConf sampleRx .v6, fun _ => true)] ∧
      ⟨.fltRule .v6, 50⟩ ∈ callAccesses sampleFltKernel true
        [(.configWanFirewallRule sampleLargeConf sampleRx [] .v6, fun _ => true)] ∧
      ¬ FwAccess.InBounds ⟨.filteringTable, 1⟩ ∧ ¬ FwAccess.InBounds ⟨.firewallHdl .v6, 50⟩ ∧
      ¬ FwAccess.InBounds ⟨.fltRule .v6, 50⟩ := by
  decide

end G4Common.Ipacm

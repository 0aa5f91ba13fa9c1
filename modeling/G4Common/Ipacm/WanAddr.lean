/-
The rules for the addresses of a WAN interface (`handle_addr_evt()`, `handle_down_evt()` and
`handle_down_evt_ex()` of `ipacm/src/IPACM_Wan.cpp`, `init_fl_rule()` and the software routing
of `ipacm/src/IPACM_Iface.cpp`).

An IPv6 address brings two routing rules and, for a STA interface, a filter rule; the first
one of a family brings the default filter rules too.  The number of addresses goes up at the end
only.  So a routing rule stays behind if the second one fails, and both do if the filter rule
fails; the IP type of the interface has then changed already.  `AddFilteringRule()` says yes to
a rule that the kernel has refused with a status of its own, and the handle that is stored is
the -1 from before the call.  A modem interface that goes down with exactly one IPv6 address is
not counted down, and its default rules stay with the modem.

Where this is avoided, all rules are deleted once when the interface goes down (`wanAddr`).

A call returns `none` if the kernel gives a handle that is 0 or in use, or if there is no room
for an address.  Deletions succeed.  Not modelled: the content of the rules, headers,
`calloc()` that fails, and routes, with the rules that they bring.
-/
import G4Common.Ipacm.FirewallCycle
import G4Common.Ipacm.Wan

namespace G4Common.Ipacm

open Function List Option Bool

/-! ### The interface and what it has installed -/

inductive RuleKind
  | routing
  | filtering
  deriving DecidableEq, Repr

/-- Who has installed a rule: `handle_addr_evt()` or `handle_software_routing_enable()`. -/
inductive RuleOwner
  | addr
  | softwareRouting
  deriving DecidableEq, Repr

def maxDefaultV6RouteRules : ℕ := 2

/-- `IPV4_DEFAULT_FILTERTING_RULES` and `IPV6_DEFAULT_FILTERTING_RULES`. -/
def defaultFiltertingRules (android : Bool) : IpType → ℕ
  | .v4 => 3
  | .v6 => if android then 6 else 3

/-- What an `IPACM_Wan` keeps about its rules; what the instances share, the number of PDNs and
whether the default rules are in `flt_rule_v4` and `flt_rule_v6`; whether the modem has them;
and the rules in the kernel.

`own` says that it was this interface that put the default rules of a family into the array. -/
structure AddrState where
  ipType : IfaceIpType
  numDftRtV6 : ℕ
  ipv6Addr : ℕ → Ipv6Addr
  dftRtRuleHdl : ℕ → UInt32
  dftFlRuleHdl : IpType → ℕ → UInt32
  numIpv6DestFltRule : ℕ
  ipv6DestFltRuleHdl : ℕ → UInt32
  softwareRoutingFlRuleHdl : IpType → UInt32
  softwareRoutingAct : Bool
  modemPdnIndex : IpType → ℤ
  numModemPdn : IpType → ℤ
  fltRule : IpType → Bool
  own : IpType → Bool
  sent : IpType → Bool
  rules : HdlTable (RuleKind × IpType × UInt32) RuleOwner

/-- What becomes of the rules for the modem: they are not sent, they are sent and refused, or the
modem has them. -/
inductive ModemAnswer
  | notSent
  | refused
  | taken
  deriving DecidableEq, Repr

/-- What an address meets: both routing rules; the call for the default rules and each of them;
the filter rule for the address; `add_dft_filtering_rule()`; the modem; and software routing, with
`ipa_sw_rt_enable`. -/
structure AddrAnswers where
  rt : FltAnswer
  rtWan : FltAnswer
  dft : Option (ℕ → Option UInt32)
  dest : FltAnswer
  dftBuilt : Bool
  modem : ModemAnswer
  swRtEnable : Bool
  softwareRouting : IpType → FltAnswer

def isGlobalIpv6Addr (a : Ipv6Addr) : Bool := a ⟨0, by decide⟩ &&& 0xffc00000 ≠ 0xfe800000

namespace AddrState

/-- A new interface, next to others. -/
def init (numModemPdn : IpType → ℤ) (fltRule sent : IpType → Bool) : AddrState where
  ipType := .null
  numDftRtV6 := 0
  ipv6Addr := fun _ _ => 0
  dftRtRuleHdl := fun _ => 0
  dftFlRuleHdl := fun _ _ => 0
  numIpv6DestFltRule := 0
  ipv6DestFltRuleHdl := fun _ => 0
  softwareRoutingFlRuleHdl := fun _ => 0
  softwareRoutingAct := false
  modemPdnIndex := fun _ => 0
  numModemPdn := numModemPdn
  fltRule := fltRule
  own := fun _ => false
  sent := sent
  rules := .empty

variable (c : WanConf) (android : Bool) (s : AddrState) (ip : IpType)

/-! ### Additions -/

def give (kind : RuleKind) (h : UInt32) (owner : RuleOwner) : Option AddrState :=
  if h = 0 then none
  else (s.rules.add (kind, ip, h) owner).map fun rules => { s with rules := rules }

/-- `AddRoutingRule()` and the test of the status. -/
def addRoutingRule : FltAnswer → Option (AddrState × Option UInt32)
  | .added h => (s.give ip .routing h .addr).map fun s => (s, some h)
  | .failed => some (s, none)
  | .badStatus => some (s, none)

/-- The default rules of a family, from a list of indices on. -/
def addDftRules (hdl : ℕ → Option UInt32) : List ℕ → AddrState → Option AddrState
  | [], s => some s
  | i :: l, s =>
    match hdl i with
    | none => addDftRules hdl l s
    | some h =>
      (s.give ip .filtering h .addr).bind fun s =>
        addDftRules hdl l { s with
          dftFlRuleHdl := update s.dftFlRuleHdl ip
            (update (s.dftFlRuleHdl ip) i h) }

def initFlRule (dft : Option (ℕ → Option UInt32)) : Option AddrState :=
  if s.ipType.has ip then some s
  else
    let s := { s with ipType := s.ipType.add ip }
    if c.rx = false then some s
    else
      match dft with
      | none => some s
      | some hdl => addDftRules ip hdl (range (defaultFiltertingRules android ip)) s

/-- `install_wan_filtering_rule()`.  With software routing a rule for it is sent in place of all
others, once. -/
def installWanFilteringRule (swRtEnable : Bool) (answer : ModemAnswer) : AddrState :=
  if c.rx = false then s
  else if swRtEnable then
    if s.softwareRoutingAct then s
    else
      match answer with
      | .notSent => s
      | .refused => { s with softwareRoutingAct := true }
      | .taken => { s with softwareRoutingAct := true, sent := fun _ => false }
  else
    match answer with
    | .taken => { s with sent := s.fltRule }
    | _ => s

/-- `add_dft_filtering_rule()`, after the number of rules has been set to 0. -/
def addDftFilteringRule (built : Bool) : AddrState :=
  { s with
    fltRule := update s.fltRule ip (c.rx && built)
    own := update s.own ip (c.rx && built) }

def initFlRuleEx (answers : AddrAnswers) : AddrState :=
  if s.ipType.has ip then s
  else
    let s := { s with ipType := s.ipType.add ip }
    let s := if s.modemPdnIndex ip = 0 then s.addDftFilteringRule c ip answers.dftBuilt else s
    s.installWanFilteringRule c answers.swRtEnable answers.modem

/-- The first address of a family. -/
def firstAddr (answers : AddrAnswers) : Option AddrState :=
  if c.mode = .q6Wan then
    let s := { s with
      modemPdnIndex := update s.modemPdnIndex ip (s.numModemPdn ip)
      numModemPdn := update s.numModemPdn ip (s.numModemPdn ip + 1) }
    some (s.initFlRuleEx c ip answers)
  else s.initFlRule c android ip answers.dft

/-- The address gets a filter rule of its own. -/
def wantsDestFltRule (a : Ipv6Addr) : Bool :=
  c.mode ≠ .q6Wan ∧ c.rx ∧ isGlobalIpv6Addr a ∧ s.numIpv6DestFltRule < maxDefaultV6RouteRules

def storeDest (h : UInt32) : AddrState :=
  { s with
    ipv6DestFltRuleHdl := update s.ipv6DestFltRuleHdl s.numIpv6DestFltRule h
    numIpv6DestFltRule := s.numIpv6DestFltRule + 1 }

/-- "add WAN DL interface IP specific flt rule for IPv6 when backhaul is not Q6".  The handle is
-1 before the call. -/
def addDestFltRule (a : Ipv6Addr) (answer : FltAnswer) : Option (AddrState × Bool) :=
  if s.wantsDestFltRule c a then
    match answer with
    | .failed => some (s, false)
    | .badStatus => some (s.storeDest 0xffffffff, true)
    | .added h => (s.give .v6 .filtering h .addr).map fun s => (s.storeDest h, true)
  else some (s, true)

/-- `init_fl_rule()` and the like with the first IPv6 address. -/
def firstV6Addr (answers : AddrAnswers) : Option AddrState :=
  if s.numDftRtV6 = 0 then s.firstAddr c android .v6 answers else some s

/-- The end of `handle_addr_evt()` for an IPv6 address, with both routing rules there. -/
def finishV6 (a : Ipv6Addr) (answers : AddrAnswers) : Option (AddrState × Bool) := do
  let s ← s.firstV6Addr c android answers
  let r ← s.addDestFltRule c a answers.dest
  some (if r.2 then { r.1 with numDftRtV6 := r.1.numDftRtV6 + 1 } else r.1, r.2)

/-- The handle of a routing rule is stored. -/
def storeRt (i : ℕ) (h : UInt32) : AddrState :=
  { s with dftRtRuleHdl := update s.dftRtRuleHdl i h }

/-- `handle_addr_evt()`, and whether it succeeds. -/
def handleAddrEvt (answers : AddrAnswers) : WanAddr → Option (AddrState × Bool)
  | .v4 _ => do
    let r ← s.addRoutingRule .v4 answers.rt
    match r.2 with
    | none => some (r.1, false)
    | some h =>
      let s ← (r.1.storeRt 0 h).firstAddr c android .v4 answers
      some (s, true)
  | .v6 a =>
    if ∃ i < s.numDftRtV6, s.ipv6Addr i = a then some (s, true)
    else if maxDefaultV6RouteRules ≤ s.numDftRtV6 then none
    else do
      let s := { s with ipv6Addr := update s.ipv6Addr s.numDftRtV6 a }
      let r ← s.addRoutingRule .v6 answers.rt
      match r.2 with
      | none => some (r.1, false)
      | some h =>
        let s := r.1.storeRt (1 + 2 * r.1.numDftRtV6) h
        let r ← s.addRoutingRule .v6 answers.rtWan
        match r.2 with
        | none => some (r.1, false)
        | some h => (r.1.storeRt (1 + 2 * r.1.numDftRtV6 + 1) h).finishV6 c android a answers

def handleSoftwareRoutingEnable (answer : IpType → FltAnswer) : Option AddrState :=
  if s.softwareRoutingAct then some s
  else if c.rx = false then some s
  else
    match answer .v4 with
    | .added h =>
      (s.give .v4 .filtering h .softwareRouting).bind fun s =>
        let s := { s with
          softwareRoutingFlRuleHdl := update s.softwareRoutingFlRuleHdl .v4 h }
        match answer .v6 with
        | .added h =>
          (s.give .v6 .filtering h .softwareRouting).map fun s =>
            { s with
              softwareRoutingFlRuleHdl := update s.softwareRoutingFlRuleHdl .v6 h
              softwareRoutingAct := true }
        | _ => some s
    | _ => some s

/-! ### Deletions -/

/-- `DeleteRoutingHdl()` for each handle, and `DeleteFilteringHdls()`; 0 is passed over. -/
def deleteHdls (kind : RuleKind) (l : List UInt32) : AddrState :=
  { s with rules := s.rules.delAll ((l.filter fun h => h ≠ 0).map fun h => (kind, ip, h)) }

/-- The first handles for IPv6. -/
def v6RtHdls (n : ℕ) : List UInt32 := (range n).map fun i => s.dftRtRuleHdl (1 + i)

def dftFlHdls : List UInt32 :=
  (range (defaultFiltertingRules android ip)).map (s.dftFlRuleHdl ip)

def destHdls : List UInt32 := (range s.numIpv6DestFltRule).map s.ipv6DestFltRuleHdl

/-- "Delete default v4 RT rule", "delete default v6 RT rule". -/
def deleteRtRules : AddrState :=
  let s := if s.ipType ≠ .v6 then s.deleteHdls .v4 .routing [s.dftRtRuleHdl 0] else s
  if s.ipType ≠ .v4 then s.deleteHdls .v6 .routing (s.v6RtHdls (2 * s.numDftRtV6)) else s

/-- `handle_software_routing_disable()`, if `softwarerouting_act` is set. -/
def handleSoftwareRoutingDisable : AddrState :=
  if c.rx = false then s
  else if s.softwareRoutingAct = false then s
  else
    let s := s.deleteHdls .v4 .filtering [s.softwareRoutingFlRuleHdl .v4]
    let s := s.deleteHdls .v6 .filtering [s.softwareRoutingFlRuleHdl .v6]
    { s with softwareRoutingAct := false }

/-- "free filter rule handlers". -/
def deleteFlRules : AddrState :=
  let s :=
    if s.ipType ≠ .v6 ∧ c.rx then s.deleteHdls .v4 .filtering (s.dftFlHdls android .v4) else s
  if s.ipType ≠ .v4 ∧ c.rx then
    let s := s.deleteHdls .v6 .filtering (s.dftFlHdls android .v6)
    if 0 < s.numIpv6DestFltRule ∧ s.numIpv6DestFltRule ≤ maxDefaultV6RouteRules then
      s.deleteHdls .v6 .filtering s.destHdls
    else s
  else s

def handleDownEvt : AddrState :=
  if s.ipType = .null then s
  else ((s.deleteRtRules).handleSoftwareRoutingDisable c).deleteFlRules c android

def countDown : AddrState :=
  let s := if s.ipType ≠ .v6 then
    { s with numModemPdn := update s.numModemPdn .v4 (s.numModemPdn .v4 - 1) } else s
  if s.ipType ≠ .v4 ∧ s.numDftRtV6 > 1 then
    { s with numModemPdn := update s.numModemPdn .v6 (s.numModemPdn .v6 - 1) }
  else s

/-- "only when the last modem interface goes down, delete default flt rules". -/
def clearDft (swRtEnable : Bool) : AddrState :=
  if s.numModemPdn ip = 0 then
    ({ s with fltRule := update s.fltRule ip false }).installWanFilteringRule c swRtEnable .taken
  else s

def deleteDftRules (swRtEnable : Bool) : AddrState :=
  let s := s.countDown
  let s := if s.ipType ≠ .v6 then s.clearDft c .v4 swRtEnable else s
  if s.ipType ≠ .v4 then s.clearDft c .v6 swRtEnable else s

def handleDownEvtEx (swRtEnable : Bool) : AddrState :=
  if s.ipType = .null then s
  else (s.deleteDftRules c swRtEnable).deleteRtRules.handleSoftwareRoutingDisable c

/-- The call that is made when the interface goes down. -/
def handleDown (swRtEnable : Bool) : AddrState :=
  if c.mode = .q6Wan then s.handleDownEvtEx c swRtEnable else s.handleDownEvt c android

/-- "check v4 not setup before, v6 can have 2 iface ip". -/
def admits : IpType → Bool
  | .v4 => s.ipType ≠ .v4 ∧ s.ipType ≠ .max
  | .v6 => (s.ipType ≠ .v6 ∧ s.ipType ≠ .max) ∨ s.numDftRtV6 ≠ maxDefaultV6RouteRules

end AddrState

/-! ### Runs -/

/-- An `IPA_ADDR_ADD_EVENT` for the interface, or the interface goes down. -/
inductive AddrCall
  | addrAdd (a : WanAddr) (answers : AddrAnswers)
  | down (swRtEnable : Bool)

namespace AddrState

/-- The state after a call.  The instance is gone when the interface is down. -/
def step (c : WanConf) (android : Bool) (s : AddrState) : AddrCall → Option AddrState
  | .addrAdd a answers =>
    if a.isValid ∧ s.admits a.ip then
      (s.handleAddrEvt c android answers a).bind fun r =>
        if answers.swRtEnable ∧ c.mode ≠ .q6Wan then
          r.1.handleSoftwareRoutingEnable c answers.softwareRouting
        else some r.1
    else some s
  | .down _ => none

/-- Nothing that the addresses have brought is left, and no handle was deleted that was not that of
a rule at this time. -/
structure Cleaned (s : AddrState) : Prop where
  wrong : s.rules.wrong = 0
  rules : ∀ hdl, s.rules.installed hdl ≠ some .addr
  modem : ∀ ip, s.own ip = true → s.sent ip = false

/-- A call that fails changes no count and not the IP type. -/
structure Untouched (s s' : AddrState) : Prop where
  ipType : s'.ipType = s.ipType
  numDftRtV6 : s'.numDftRtV6 = s.numDftRtV6
  numModemPdn : s'.numModemPdn = s.numModemPdn

/-- While software routing is on, the modem does not have the default rules of a family. -/
def SoftOnly (swRtEnable : Bool) (ip : IpType) (s : AddrState) : Prop :=
  swRtEnable = true → s.softwareRoutingAct = true → s.sent ip = false

/-- There is room for an address that is admitted; a failure leaves the counts; and all is deleted
at the end. -/
def AddrRight (c : WanConf) (android : Bool) (s : AddrState) : AddrCall → Prop
  | .addrAdd a answers => a.isValid = true → s.admits a.ip = true →
      (a.ip = .v6 → s.numDftRtV6 < maxDefaultV6RouteRules) ∧
        ∀ s', s.handleAddrEvt c android answers a = some (s', false) → s.Untouched s'
  | .down swRtEnable => (s.handleDown c android swRtEnable).Cleaned

/-- A new IPv6 address whose first routing rule is added gets its other rules too. -/
def AllAdded (c : WanConf) (s : AddrState) (answers : AddrAnswers) : WanAddr → Prop
  | .v4 _ => True
  | .v6 a => (∀ i < s.numDftRtV6, s.ipv6Addr i ≠ a) → (∃ h, answers.rt = .added h) →
      (∃ h, answers.rtWan = .added h) ∧ (s.wantsDestFltRule c a = true → ∃ h, answers.dest = .added h)

/-- The calls that do no harm.  A modem interface that goes down does not have exactly one IPv6
address if the default rules are its own; and the modem does not have default rules of its own
while software routing is on, since nothing more is sent then. -/
def AddrCareful (c : WanConf) (s : AddrState) : AddrCall → Prop
  | .addrAdd a answers => a.isValid = true → s.admits a.ip = true → s.AllAdded c answers a
  | .down swRtEnable => c.mode = .q6Wan → ∀ ip, s.own ip = true →
      (ip = .v6 → s.numDftRtV6 ≠ 1) ∧ s.SoftOnly swRtEnable ip

/-! ### The records of the interface -/

/-- The records of a list of handles; 0 stands for none. -/
def hdlRecs (ip : IpType) (kind : RuleKind) (owner : RuleOwner) (l : List UInt32) :
    List ((RuleKind × IpType × UInt32) × RuleOwner) :=
  (l.filter fun h => h ≠ 0).map fun h => ((kind, ip, h), owner)

/-- What the addresses have brought, with `n` routing rules for IPv6. -/
def addrRecs (android : Bool) (n : ℕ) (s : AddrState) :
    List ((RuleKind × IpType × UInt32) × RuleOwner) :=
  hdlRecs .v4 .routing .addr [s.dftRtRuleHdl 0] ++ (hdlRecs .v6 .routing .addr (s.v6RtHdls n) ++
    (hdlRecs .v4 .filtering .addr (s.dftFlHdls android .v4) ++
      (hdlRecs .v6 .filtering .addr (s.dftFlHdls android .v6) ++ hdlRecs .v6 .filtering .addr s.destHdls)))

/-- What software routing deletes again. -/
def softRecs (s : AddrState) : List ((RuleKind × IpType × UInt32) × RuleOwner) :=
  if s.softwareRoutingAct then
    hdlRecs .v4 .filtering .softwareRouting [s.softwareRoutingFlRuleHdl .v4] ++
      hdlRecs .v6 .filtering .softwareRouting [s.softwareRoutingFlRuleHdl .v6]
  else []

/-- The kernel has these rules, and perhaps others for software routing. -/
def Recorded (android : Bool) (n : ℕ) (s : AddrState) : Prop :=
  ∃ rest, s.rules.Ledger (s.addrRecs android n ++ (s.softRecs ++ rest)) ∧
    ∀ r ∈ rest, r.2 = .softwareRouting

section

variable {c : WanConf} {android : Bool} {s s' : AddrState} {ip : IpType} {kind : RuleKind}
  {owner : RuleOwner} {h : UInt32} {l l1 l2 : List UInt32} {n : ℕ}
  {recs : List ((RuleKind × IpType × UInt32) × RuleOwner)}

@[simp] theorem hdlRecs_nil : hdlRecs ip kind owner [] = [] := rfl

theorem hdlRecs_cons_zero : hdlRecs ip kind owner (0 :: l) = hdlRecs ip kind owner l := rfl

theorem hdlRecs_cons (hh : h ≠ 0) :
    hdlRecs ip kind owner (h :: l) = ((kind, ip, h), owner) :: hdlRecs ip kind owner l := by
  unfold hdlRecs
  rw [filter_cons_of_pos (by simpa using hh), map_cons]

theorem hdlRecs_append : hdlRecs ip kind owner (l1 ++ l2) =
    hdlRecs ip kind owner l1 ++ hdlRecs ip kind owner l2 := by
  unfold hdlRecs
  rw [filter_append, map_append]

theorem hdlRecs_zero (hl : ∀ h ∈ l, h = 0) : hdlRecs ip kind owner l = [] := by
  unfold hdlRecs
  rw [filter_eq_nil_iff.mpr fun h hh => by simpa using hl h hh, map_nil]

theorem dftFlHdls_zero (hzero : ∀ i, s.dftFlRuleHdl ip i = 0) : ∀ h ∈ s.dftFlHdls android ip, h = 0 := by
  intro h hh
  obtain ⟨i, -, rfl⟩ := mem_map.mp hh
  exact hzero i

theorem destHdls_nil (hzero : s.numIpv6DestFltRule = 0) : s.destHdls = [] := by
  unfold destHdls
  rw [hzero]
  rfl

theorem softRecs_zero (hzero : ∀ ip, s.softwareRoutingFlRuleHdl ip = 0) : s.softRecs = [] := by
  unfold softRecs
  rw [hzero, hzero]
  split <;> rfl

theorem softRecs_owner {r : (RuleKind × IpType × UInt32) × RuleOwner} (hr : r ∈ s.softRecs) :
    r.2 = .softwareRouting := by
  have hrecs : ∀ {ip : IpType} {l : List UInt32},
      r ∈ hdlRecs ip .filtering .softwareRouting l → r.2 = .softwareRouting := by
    intro _ l hmem
    obtain ⟨h, -, rfl⟩ := mem_map.mp hmem
    rfl
  unfold softRecs at hr
  split at hr
  · exact (mem_append.mp hr).elim hrecs hrecs
  · exact nomatch hr

theorem give_cases (hg : s.give ip kind h owner = some s') : h ≠ 0 ∧ ∃ rules, s' = { s with rules := rules } ∧
      ∀ recs, s.rules.Ledger recs → rules.Ledger (((kind, ip, h), owner) :: recs) := by
  unfold give at hg
  split at hg
  · exact nomatch hg
  · rename_i hh
    obtain ⟨rules, hadd, rfl⟩ := map_eq_some_iff.mp hg
    exact ⟨hh, rules, rfl, fun recs hl => hl.add hadd⟩

theorem deleteHdls_ledger (hl : s.rules.Ledger (hdlRecs ip kind owner l ++ recs)) :
    (s.deleteHdls ip kind l).rules.Ledger recs := by
  show (s.rules.delAll _).Ledger recs
  apply HdlTable.Ledger.delAll (o := owner)
  rw [List.map_map]
  exact hl

/-! ### The default rules -/

theorem addDftRules_cases {hdl : ℕ → Option UInt32} {idx : List ℕ} (hnodup : idx.Nodup)
    (hzero : ∀ i ∈ idx, s.dftFlRuleHdl ip i = 0) (hrun : addDftRules ip hdl idx s = some s') :
    ∃ rules fl, s' = { s with
        rules := rules, dftFlRuleHdl := update s.dftFlRuleHdl ip fl } ∧
      (∀ i, i ∉ idx → fl i = s.dftFlRuleHdl ip i) ∧
      ∀ recs, s.rules.Ledger recs →
        rules.Ledger (hdlRecs ip .filtering .addr (idx.map fl) ++ recs) := by
  induction idx generalizing s with
  | nil =>
    obtain rfl := some.inj hrun
    refine ⟨s.rules, s.dftFlRuleHdl ip, ?_, fun _ _ => rfl, fun _ hl => hl⟩
    rw [update_eq_self]
  | cons i idx ih =>
    obtain ⟨hi, hrest⟩ := nodup_cons.mp hnodup
    have hlater : ∀ j ∈ idx, j ≠ i := fun j hj heq => hi (heq ▸ hj)
    unfold addDftRules at hrun
    cases hhdl : hdl i with
    | none =>
      rw [hhdl] at hrun
      obtain ⟨rules, fl, hs, hfl, hl⟩ := ih hrest (fun j hj => hzero j (.tail i hj)) hrun
      refine ⟨rules, fl, hs, fun j hj => hfl j fun hmem => hj (.tail i hmem), ?_⟩
      intro recs hrecs
      rw [map_cons, (hfl i hi).trans (hzero i mem_cons_self), hdlRecs_cons_zero]
      exact hl recs hrecs
    | some h =>
      rw [hhdl] at hrun
      obtain ⟨_, hgive, hrun⟩ := bind_eq_some_iff.mp hrun
      obtain ⟨hh, _, rfl, hadd⟩ := give_cases hgive
      have hzero1 : ∀ j ∈ idx, update s.dftFlRuleHdl ip (update (s.dftFlRuleHdl ip) i h) ip j = 0 := by
        intro j hj
        rw [update_self, update_of_ne (hlater j hj)]
        exact hzero j (.tail i hj)
      obtain ⟨rules, fl, hs, hfl, hl⟩ := ih hrest hzero1 hrun
      dsimp only at hs hfl hl
      rw [update_idem] at hs
      rw [update_self] at hfl
      refine ⟨rules, fl, hs, fun j hj => ?_, fun recs hrecs => ?_⟩
      · obtain ⟨hji, hj⟩ := not_or.mp fun hor => hj (mem_cons.mpr hor)
        rw [hfl j hj, update_of_ne hji]
      -- the new rule is recorded at its index
      have hfli : fl i = h := (hfl i hi).trans (update_self ..)
      rw [map_cons, hfli, hdlRecs_cons hh]
      exact (hl _ (hadd recs hrecs)).perm perm_middle

end

/-! ### What holds in between -/

/-- All rules are recorded, `n` routing rules for IPv6 among them.  Without an address of a family
there are no filter rules for it, nor without properties for receiving; those of a modem
interface are not in the kernel. -/
structure Held (c : WanConf) (android : Bool) (n : ℕ) (s : AddrState) : Prop where
  recorded : s.Recorded android n
  dftUnused : ∀ ip, s.ipType.has ip = false ∨ c.rx = false ∨ c.mode = .q6Wan →
    ∀ i, s.dftFlRuleHdl ip i = 0
  destLe : s.numIpv6DestFltRule ≤ maxDefaultV6RouteRules
  destUnused : s.ipType.has .v6 = false ∨ c.rx = false ∨ c.mode = .q6Wan →
    s.numIpv6DestFltRule = 0
  softUnused : c.mode = .q6Wan → ∀ ip, s.softwareRoutingFlRuleHdl ip = 0
  softRx : s.softwareRoutingAct = true → c.rx = true
  own : ∀ ip, s.own ip = true →
    c.mode = .q6Wan ∧ c.rx = true ∧ s.ipType.has ip = true ∧ s.numModemPdn ip = 1

/-- Between the calls, the IP type says for which families there are addresses. -/
structure Ok (c : WanConf) (android : Bool) (s : AddrState) : Prop where
  held : s.Held c android (2 * s.numDftRtV6)
  v4 : s.ipType.has .v4 = false → s.dftRtRuleHdl 0 = 0
  v6 : s.ipType.has .v6 = decide (0 < s.numDftRtV6)
  le : s.numDftRtV6 ≤ maxDefaultV6RouteRules

/-- The routing rules are not touched, nor the number of the filter rules for addresses. -/
structure SameRt (s s' : AddrState) : Prop where
  dftRtRuleHdl : s'.dftRtRuleHdl = s.dftRtRuleHdl
  numDftRtV6 : s'.numDftRtV6 = s.numDftRtV6
  numDest : s'.numIpv6DestFltRule = s.numIpv6DestFltRule

theorem has_add_self {t : IfaceIpType} {ip : IpType} (h : t.has ip = false) : (t.add ip).has ip = true := by
  rw [IfaceIpType.has_add h, decide_eq_true rfl, Bool.or_true]

section

variable {c : WanConf} {android : Bool} {s s' s1 : AddrState} {ip j : IpType} {h : UInt32} {n : ℕ}
  {answers : AddrAnswers} {swRtEnable : Bool} {modem : ModemAnswer} {α : Type*}
variable {b : Bool}

theorem give_kept {kind : RuleKind} {owner : RuleOwner} (hg : s.give ip kind h owner = some s') :
    s.SameRt s' ∧ s'.ipType = s.ipType := by
  obtain ⟨-, _, rfl, -⟩ := give_cases hg
  exact ⟨⟨rfl, rfl, rfl⟩, rfl⟩

theorem Ok.init (numModemPdn : IpType → ℤ) (fltRule sent : IpType → Bool) :
    Ok c android (init numModemPdn fltRule sent) where
  held := {
    recorded := by
      refine ⟨[], ?_, nofun⟩
      have hnil : (AddrState.init numModemPdn fltRule sent).addrRecs android (2 * 0) = [] := by
        unfold addrRecs
        rw [hdlRecs_zero, hdlRecs_zero, hdlRecs_zero, hdlRecs_zero, hdlRecs_zero]
        · rfl
        · exact nofun
        · exact dftFlHdls_zero fun _ => rfl
        · exact dftFlHdls_zero fun _ => rfl
        · exact nofun
        · exact fun h hh => mem_singleton.mp hh
      show HdlTable.Ledger _ ((AddrState.init numModemPdn fltRule sent).addrRecs android (2 * 0) ++ [])
      rw [hnil]
      exact HdlTable.Ledger.nil
    dftUnused := fun _ _ _ => rfl
    destLe := Nat.zero_le _
    destUnused := fun _ => rfl
    softUnused := fun _ _ => rfl
    softRx := nofun
    own := nofun }
  v4 _ := rfl
  v6 := rfl
  le := Nat.zero_le _

/-! ### Routing rules -/

theorem perm_behind (a : α) (A B R S : List α) : (a :: (A ++ (B ++ R) ++ S)).Perm (A ++ ((B ++ [a]) ++ R) ++ S) := by
  have hmove := (@perm_middle α a (A ++ B) (R ++ S)).symm
  simpa only [append_assoc, cons_append, nil_append] using hmove

theorem perm_third (L A B R S : List α) : (L ++ (A ++ (B ++ R) ++ S)).Perm (A ++ (B ++ (L ++ R)) ++ S) := by
  have hmove := perm_append_comm_assoc L (A ++ B) (R ++ S)
  simpa only [append_assoc] using hmove

theorem perm_fourth (L A B C R S : List α) :
    (L ++ (A ++ (B ++ (C ++ R)) ++ S)).Perm (A ++ (B ++ (C ++ (L ++ R))) ++ S) := by
  have hmove := perm_append_comm_assoc L (A ++ (B ++ C)) (R ++ S)
  simpa only [append_assoc] using hmove

theorem perm_last (a : α) (A B C D E S : List α) :
    (a :: (A ++ (B ++ (C ++ (D ++ E))) ++ S)).Perm (A ++ (B ++ (C ++ (D ++ (E ++ [a])))) ++ S) := by
  have hmove := (@perm_middle α a (A ++ (B ++ (C ++ (D ++ E)))) S).symm
  simpa only [append_assoc, cons_append, nil_append] using hmove

theorem perm_pair (a b : α) (A S : List α) : (b :: a :: (A ++ ([] ++ S))).Perm (A ++ ([a] ++ [b] ++ S)) := by
  have hmove := ((List.Perm.swap a b (A ++ S)).trans (perm_append_comm_assoc [a, b] A S))
  simpa only [append_assoc, cons_append, nil_append] using hmove

theorem perm_assoc (A B R S : List α) : ((A ++ (B ++ R)) ++ S).Perm (A ++ (B ++ (R ++ S))) := by
  rw [append_assoc, append_assoc]

theorem Held.storeRtV4 (hs : s.Held c android n) (hzero : s.dftRtRuleHdl 0 = 0)
    (hgive : s.give .v4 .routing h .addr = some s1) : (s1.storeRt 0 h).Held c android n := by
  obtain ⟨hh, rules, rfl, hadd⟩ := give_cases hgive
  obtain ⟨rest, hledger, howner⟩ := hs.recorded
  refine { hs with recorded := ⟨rest, ?_, howner⟩ }
  have hnew := hadd _ hledger
  have hrt : hdlRecs .v4 .routing .addr [s.dftRtRuleHdl 0] = [] := by
    rw [hzero]
    rfl
  have hv6 : (({ s with rules := rules } : AddrState).storeRt 0 h).v6RtHdls n = s.v6RtHdls n := by
    refine map_congr_left fun i _ => ?_
    exact update_of_ne (by omega) ..
  unfold addrRecs at hnew ⊢
  rw [hrt] at hnew
  rw [hv6]
  show HdlTable.Ledger rules (hdlRecs .v4 .routing .addr [update s.dftRtRuleHdl 0 h 0] ++ _ ++ _)
  rw [update_self, hdlRecs_cons hh]
  exact hnew

theorem Held.storeRtV6 (hs : s.Held c android n) (hgive : s.give .v6 .routing h .addr = some s1) :
    (s1.storeRt (1 + n) h).Held c android (n + 1) := by
  obtain ⟨hh, rules, rfl, hadd⟩ := give_cases hgive
  obtain ⟨rest, hledger, howner⟩ := hs.recorded
  refine { hs with recorded := ⟨rest, ?_, howner⟩ }
  have hv6 : (({ s with rules := rules } : AddrState).storeRt (1 + n) h).v6RtHdls (n + 1) =
      s.v6RtHdls n ++ [h] := by
    have hlow : ∀ i ∈ range n, update s.dftRtRuleHdl (1 + n) h (1 + i) = s.dftRtRuleHdl (1 + i) := by
      intro i hi
      have hlt := mem_range.mp hi
      exact update_of_ne (by omega) ..
    unfold v6RtHdls
    rw [range_succ, map_append, map_singleton]
    show map (fun i => update s.dftRtRuleHdl (1 + n) h (1 + i)) _ ++ [update s.dftRtRuleHdl (1 + n) h (1 + n)] = _
    rw [map_congr_left hlow, update_self]
  have hv4 : (({ s with rules := rules } : AddrState).storeRt (1 + n) h).dftRtRuleHdl 0 = s.dftRtRuleHdl 0 :=
    update_of_ne (by omega) ..
  unfold addrRecs
  rw [hv6, hv4, hdlRecs_append, hdlRecs_cons hh, hdlRecs_nil]
  exact (hadd _ hledger).perm (perm_behind _ _ _ _ _)

/-! ### The first address of a family -/

theorem Held.addIpType (hs : s.Held c android n) (hip : s.ipType.has ip = false) :
    Held c android n { s with ipType := s.ipType.add ip } := by
  have hless : ∀ j, (s.ipType.add ip).has j = false → s.ipType.has j = false := by
    intro j hj
    rw [IfaceIpType.has_add hip] at hj
    exact (or_eq_false_iff.mp hj).1
  refine { hs with
    dftUnused := fun j hj => hs.dftUnused j (hj.imp_left (hless j))
    destUnused := fun hj => hs.destUnused (hj.imp_left (hless .v6))
    own := fun j hj => ?_ }
  obtain ⟨hmode, hrx, hhas, hnum⟩ := hs.own j hj
  refine ⟨hmode, hrx, ?_, hnum⟩
  show (s.ipType.add ip).has j = true
  rw [IfaceIpType.has_add hip, hhas, Bool.true_or]

theorem Held.addDftRules {hdl : ℕ → Option UInt32} (hs : s.Held c android n)
    (hzero : ∀ i, s.dftFlRuleHdl ip i = 0) (hip : s.ipType.has ip) (hrx : c.rx) (hmode : c.mode ≠ .q6Wan)
    (hrun : addDftRules ip hdl (range (defaultFiltertingRules android ip)) s = some s') :
    s'.Held c android n ∧ s.SameRt s' ∧ s'.ipType = s.ipType := by
  obtain ⟨_, fl, rfl, -, hadd⟩ := addDftRules_cases nodup_range (fun i _ => hzero i) hrun
  refine ⟨{ hs with recorded := ?_, dftUnused := fun j hj => ?_ }, ⟨rfl, rfl, rfl⟩, rfl⟩
  · obtain ⟨rest, hledger, howner⟩ := hs.recorded
    refine ⟨rest, (hadd _ hledger).perm ?_, howner⟩
    have hnone : hdlRecs ip .filtering .addr (s.dftFlHdls android ip) = [] := hdlRecs_zero (dftFlHdls_zero hzero)
    -- the new records stand where the family had none
    cases ip with
    | v4 =>
      unfold addrRecs
      rw [hnone]
      apply perm_third
    | v6 =>
      unfold addrRecs
      rw [hnone]
      apply perm_fourth
  have hne : j ≠ ip := by
    rintro rfl
    rcases hj with hj | hj | hj
    · exact nomatch hip.symm.trans hj
    · exact nomatch hrx.symm.trans hj
    · exact hmode hj
  show ∀ i, update s.dftFlRuleHdl ip fl j i = 0
  rw [update_of_ne hne]
  exact hs.dftUnused j hj

theorem installWanFilteringRule_cases (swRtEnable : Bool) (modem : ModemAnswer) : ∃ act sent,
    s.installWanFilteringRule c swRtEnable modem =
      { s with softwareRoutingAct := act, sent := sent } ∧
      (act → s.softwareRoutingAct ∨ c.rx) := by
  unfold installWanFilteringRule
  split
  · exact ⟨_, _, rfl, Or.inl⟩
  rename_i hrx
  have hrx : c.rx = true := by simpa using hrx
  split
  · split
    · exact ⟨_, _, rfl, Or.inl⟩
    cases modem
    · exact ⟨_, _, rfl, Or.inl⟩
    · exact ⟨_, _, rfl, fun _ => Or.inr hrx⟩
    · exact ⟨_, _, rfl, fun _ => Or.inr hrx⟩
  cases modem <;> exact ⟨_, _, rfl, Or.inl⟩

theorem Held.installWanFilteringRule (hs : s.Held c android n) (hmode : c.mode = .q6Wan) :
    (s.installWanFilteringRule c swRtEnable modem).Held c android n := by
  obtain ⟨act, sent, heq, hact⟩ := installWanFilteringRule_cases (c := c) (s := s) swRtEnable modem
  rw [heq]
  refine { hs with recorded := ?_, softRx := fun h => (hact h).elim hs.softRx id }
  obtain ⟨rest, hledger, howner⟩ := hs.recorded
  refine ⟨rest, ?_, howner⟩
  -- a modem interface has no handles for software routing, whether or not it is on
  have hnil : softRecs { s with softwareRoutingAct := act, sent := sent } = [] :=
    softRecs_zero (hs.softUnused hmode)
  rw [softRecs_zero (hs.softUnused hmode)] at hledger
  rw [hnil]
  exact hledger

theorem Held.initFlRuleEx (hs : s.Held c android n) (hmode : c.mode = .q6Wan) (hip : s.ipType.has ip = false) :
    (AddrState.initFlRuleEx c { s with
      modemPdnIndex := update s.modemPdnIndex ip (s.numModemPdn ip)
      numModemPdn := update s.numModemPdn ip (s.numModemPdn ip + 1) } ip answers).Held
        c android n := by
  have hcount : Held c android n { s with
      ipType := s.ipType.add ip
      modemPdnIndex := update s.modemPdnIndex ip (s.numModemPdn ip)
      numModemPdn := update s.numModemPdn ip (s.numModemPdn ip + 1) } := by
    have hadd := hs.addIpType hip
    refine { hadd with own := fun j hj => ?_ }
    have hne : j ≠ ip := by
      rintro rfl
      exact absurd ((hs.own j hj).2.2.1.symm.trans hip) (by decide)
    obtain ⟨-, hrx, hhas, hnum⟩ := hadd.own j hj
    exact ⟨hmode, hrx, hhas, (update_of_ne hne ..).trans hnum⟩
  unfold AddrState.initFlRuleEx
  rw [hip, if_neg Bool.false_ne_true]
  apply Held.installWanFilteringRule _ hmode
  by_cases hindex : s.numModemPdn ip = 0
  · -- the first PDN of the family: the default rules are now those of this interface
    rw [if_pos ((update_self ..).trans hindex)]
    refine { hcount with own := fun j hj => ?_ }
    rcases eq_or_ne j ip with rfl | hne
    · have hj : (c.rx && answers.dftBuilt) = true := (update_self ..).symm.trans hj
      refine ⟨hmode, (and_eq_true_iff.mp hj).1, has_add_self hip, ?_⟩
      show update s.numModemPdn j (s.numModemPdn j + 1) j = 1
      rw [update_self, hindex, Int.zero_add]
    · exact hcount.own j ((update_of_ne hne ..).symm.trans hj)
  · rw [if_neg fun h => hindex ((update_self ..).symm.trans h)]
    exact hcount

theorem initFlRuleEx_kept (ip : IpType) (answers : AddrAnswers) : s.SameRt (s.initFlRuleEx c ip answers) ∧
    (s.ipType.has ip = false → (s.initFlRuleEx c ip answers).ipType = s.ipType.add ip) := by
  unfold AddrState.initFlRuleEx
  split
  · rename_i hip
    exact ⟨⟨rfl, rfl, rfl⟩, fun h => absurd (h.symm.trans hip) false_ne_true⟩
  dsimp only
  split
  · obtain ⟨act, sent, heq, -⟩ := installWanFilteringRule_cases (c := c)
      (s := AddrState.addDftFilteringRule c { s with ipType := s.ipType.add ip } ip answers.dftBuilt)
      answers.swRtEnable answers.modem
    rw [heq]
    exact ⟨⟨rfl, rfl, rfl⟩, fun _ => rfl⟩
  obtain ⟨_, _, heq, -⟩ := installWanFilteringRule_cases (c := c) (s := { s with ipType := s.ipType.add ip })
    answers.swRtEnable answers.modem
  rw [heq]
  exact ⟨⟨rfl, rfl, rfl⟩, fun _ => rfl⟩

/-- **The first address** of a family. -/
theorem Held.firstAddr (hs : s.Held c android n) (hip : s.ipType.has ip = false)
    (hrun : s.firstAddr c android ip answers = some s') :
    s'.Held c android n ∧ s.SameRt s' ∧ s'.ipType = s.ipType.add ip := by
  unfold AddrState.firstAddr at hrun
  split at hrun
  · -- a modem interface is counted
    rename_i hmode
    cases hrun
    obtain ⟨⟨hrt, hnum, hdest⟩, htype⟩ := initFlRuleEx_kept (c := c) (s := { s with
        modemPdnIndex := update s.modemPdnIndex ip (s.numModemPdn ip)
        numModemPdn := update s.numModemPdn ip (s.numModemPdn ip + 1) }) ip answers
    exact ⟨hs.initFlRuleEx hmode hip, ⟨hrt, hnum, hdest⟩, htype hip⟩
  -- a STA interface gets the default rules of the family, if it can receive
  rename_i hmode
  have hadd := hs.addIpType hip
  unfold initFlRule at hrun
  rw [hip, if_neg Bool.false_ne_true] at hrun
  cases hrx : c.rx with
  | false =>
    rw [hrx, if_pos rfl] at hrun
    cases hrun
    exact ⟨hadd, ⟨rfl, rfl, rfl⟩, rfl⟩
  | true =>
    rw [hrx, if_neg (by decide)] at hrun
    cases hdft : answers.dft with
    | none =>
      rw [hdft] at hrun
      cases hrun
      exact ⟨hadd, ⟨rfl, rfl, rfl⟩, rfl⟩
    | some =>
      rw [hdft] at hrun
      obtain ⟨hheld, hsame, htype⟩ :=
        hadd.addDftRules (hs.dftUnused ip (.inl hip)) (has_add_self hip) hrx hmode hrun
      exact ⟨hheld, ⟨hsame.dftRtRuleHdl, hsame.numDftRtV6, hsame.numDest⟩, htype⟩

/-! ### The other rules of an address -/

theorem Held.addDestFltRule {a : Ipv6Addr} {answer : FltAnswer} (hs : s.Held c android n) (hv6 : s.ipType.has .v6)
    (hadded : s.wantsDestFltRule c a → ∃ h, answer = .added h) (hrun : s.addDestFltRule c a answer = some (s', b)) :
    b ∧ s'.Held c android n ∧ s'.dftRtRuleHdl = s.dftRtRuleHdl ∧
      s'.numDftRtV6 = s.numDftRtV6 ∧ s'.ipType = s.ipType := by
  unfold AddrState.addDestFltRule at hrun
  split_ifs at hrun with hwants
  · obtain ⟨h, rfl⟩ := hadded hwants
    obtain ⟨_, hgive, heq⟩ := map_eq_some_iff.mp hrun
    obtain ⟨rfl, rfl⟩ := Prod.mk.inj heq
    obtain ⟨hh, rules, rfl, hadd⟩ := give_cases hgive
    obtain ⟨hmode, hrx, -, hlt⟩ := of_decide_eq_true hwants
    refine ⟨rfl, { hs with recorded := ?_, destLe := ?_, destUnused := ?_ }, rfl, rfl, rfl⟩
    · obtain ⟨rest, hledger, howner⟩ := hs.recorded
      refine ⟨rest, ?_, howner⟩
      have hdest : (({ s with rules := rules } : AddrState).storeDest h).destHdls =
          s.destHdls ++ [h] := by
        have hlow : ∀ i ∈ range s.numIpv6DestFltRule,
            update s.ipv6DestFltRuleHdl s.numIpv6DestFltRule h i =
              s.ipv6DestFltRuleHdl i :=
          fun i hi => update_of_ne (Nat.ne_of_lt (mem_range.mp hi)) ..
        show map (update s.ipv6DestFltRuleHdl s.numIpv6DestFltRule h)
          (range (s.numIpv6DestFltRule + 1)) = _
        rw [range_succ, map_append, map_singleton, update_self,
          map_congr_left hlow]
        rfl
      unfold addrRecs
      rw [hdest, hdlRecs_append, hdlRecs_cons hh, hdlRecs_nil]
      exact (hadd _ hledger).perm (perm_last _ _ _ _ _ _ _)
    · exact hlt
    rintro (hnone | hnone | hnone)
    · exact nomatch hv6.symm.trans hnone
    · exact nomatch hrx.symm.trans hnone
    · exact absurd hnone hmode
  · cases hrun
    exact ⟨rfl, hs, rfl, rfl, rfl⟩

theorem Held.handleSoftwareRoutingEnable {answer : IpType → FltAnswer} (hs : s.Held c android n)
    (hmode : c.mode ≠ .q6Wan) (hrun : s.handleSoftwareRoutingEnable c answer = some s') :
    s'.Held c android n ∧ s.SameRt s' ∧ s'.ipType = s.ipType := by
  unfold AddrState.handleSoftwareRoutingEnable at hrun
  split at hrun
  · cases hrun
    exact ⟨hs, ⟨rfl, rfl, rfl⟩, rfl⟩
  rename_i hact
  split at hrun
  · cases hrun
    exact ⟨hs, ⟨rfl, rfl, rfl⟩, rfl⟩
  rename_i hrx
  have hrx : c.rx = true := by simpa using hrx
  obtain ⟨rest, hledger, howner⟩ := hs.recorded
  have hsoft : s.softRecs = [] := if_neg hact
  have hunused : c.mode = .q6Wan → ∀ f : IpType → UInt32, ∀ ip, f ip = 0 :=
    fun hq => absurd hq hmode
  rw [hsoft] at hledger
  split at hrun
  · rename_i h4 _
    obtain ⟨_, hgive, hrun⟩ := bind_eq_some_iff.mp hrun
    obtain ⟨hh, rules, rfl, hadd⟩ := give_cases hgive
    split at hrun
    · rename_i h6 _
      obtain ⟨_, hgive2, rfl⟩ := map_eq_some_iff.mp hrun
      obtain ⟨hh2, _, rfl, hadd2⟩ := give_cases hgive2
      refine ⟨{ hs with
        recorded := ⟨rest, ?_, howner⟩
        softUnused := fun hq => hunused hq _
        softRx := fun _ => hrx }, ⟨rfl, rfl, rfl⟩, rfl⟩
      refine (hadd2 _ (hadd _ hledger)).perm ?_
      show List.Perm _ (s.addrRecs android n ++
        ((hdlRecs .v4 .filtering .softwareRouting
            [update (update s.softwareRoutingFlRuleHdl .v4 h4) .v6 h6 .v4] ++
          hdlRecs .v6 .filtering .softwareRouting
            [update (update s.softwareRoutingFlRuleHdl .v4 h4) .v6 h6 .v6]) ++
          rest))
      rw [update_of_ne (by decide), update_self, update_self,
        hdlRecs_cons hh, hdlRecs_cons hh2]
      exact perm_pair _ _ _ _
    cases hrun
    -- the rule for IPv4 stays behind, since `softwarerouting_act` is not set
    refine ⟨{ hs with
      recorded := ⟨((.filtering, .v4, h4), .softwareRouting) :: rest, ?_,
        forall_mem_cons.mpr ⟨rfl, howner⟩⟩
      softUnused := fun hq => hunused hq _ }, ⟨rfl, rfl, rfl⟩, rfl⟩
    have hnone : softRecs { s with
        rules := rules
        softwareRoutingFlRuleHdl := update s.softwareRoutingFlRuleHdl .v4 h4 } = [] :=
      if_neg hact
    rw [hnone]
    exact (hadd _ hledger).perm perm_middle.symm
  · cases hrun
    exact ⟨hs, ⟨rfl, rfl, rfl⟩, rfl⟩

/-! ### An address -/

theorem addRoutingRule_cases {answer : FltAnswer} {r : AddrState × Option UInt32}
    (hrun : s.addRoutingRule ip answer = some r) :
    (r = (s, none) ∧ ¬ ∃ h, answer = .added h) ∨
      ∃ h s1, answer = .added h ∧ r = (s1, some h) ∧ s.give ip .routing h .addr = some s1 := by
  cases answer with
  | failed | badStatus => exact .inl ⟨(some.inj hrun).symm, fun ⟨_, h⟩ => FltAnswer.noConfusion h⟩
  | added h =>
    obtain ⟨s1, hgive, heq⟩ := map_eq_some_iff.mp hrun
    exact .inr ⟨h, s1, rfl, heq.symm, hgive⟩

theorem Ok.room (hs : s.Ok c android) (hadm : s.admits .v6) : s.numDftRtV6 < maxDefaultV6RouteRules := by
  rcases of_decide_eq_true hadm with ⟨hv6, hmax⟩ | hne
  · have hhas : s.ipType.has .v6 = false := by
      cases htype : s.ipType with
      | null | v4 => rfl
      | v6 => exact absurd htype hv6
      | max => exact absurd htype hmax
    have hnum := of_decide_eq_false (hs.v6.symm.trans hhas)
    have hzero : s.numDftRtV6 = 0 := Nat.eq_zero_of_not_pos hnum
    rw [hzero]
    decide
  · exact Nat.lt_of_le_of_ne hs.le hne

theorem admits_v4 (hadm : s.admits .v4) : s.ipType.has .v4 = false := by
  obtain ⟨hv4, hmax⟩ := of_decide_eq_true hadm
  cases htype : s.ipType with
  | null => rfl
  | v4 => exact absurd htype hv4
  | v6 => rfl
  | max => exact absurd htype hmax

theorem Ok.finishV6 {a : Ipv6Addr} (hs : s.Held c android (2 * s.numDftRtV6 + 1 + 1))
    (hv4 : s.ipType.has .v4 = false → s.dftRtRuleHdl 0 = 0) (hv6 : s.ipType.has .v6 = decide (0 < s.numDftRtV6))
    (hroom : s.numDftRtV6 < maxDefaultV6RouteRules) (hadded : s.wantsDestFltRule c a → ∃ h, answers.dest = .added h)
    (hrun : s.finishV6 c android a answers = some (s', b)) : s'.Ok c android ∧ b = true := by
  obtain ⟨s1, hfirst, hrun⟩ := bind_eq_some_iff.mp hrun
  obtain ⟨⟨s2, _⟩, hdest, hrun⟩ := bind_eq_some_iff.mp hrun
  -- the default rules of the family are there
  have hstep : s1.Held c android (2 * s.numDftRtV6 + 1 + 1) ∧ s.SameRt s1 ∧
      s1.ipType.has .v6 = true ∧ s1.ipType.has .v4 = s.ipType.has .v4 := by
    unfold firstV6Addr at hfirst
    split_ifs at hfirst with hzero
    · have hnew : s.ipType.has .v6 = false := by
        rw [hv6, hzero]
        rfl
      obtain ⟨hheld, hsame, htype⟩ := hs.firstAddr hnew hfirst
      rw [htype, IfaceIpType.has_add hnew, IfaceIpType.has_add hnew, hnew]
      exact ⟨hheld, hsame, rfl, or_false _⟩
    · cases hfirst
      exact ⟨hs, ⟨rfl, rfl, rfl⟩, hv6.trans (decide_eq_true (Nat.pos_of_ne_zero hzero)), rfl⟩
  obtain ⟨hheld, hsame, hhas, hhas4⟩ := hstep
  have hwants : s1.wantsDestFltRule c a = s.wantsDestFltRule c a := by
    unfold wantsDestFltRule
    rw [hsame.numDest]
  obtain ⟨rfl, hheld2, hrt2, hnum2, htype2⟩ :=
    hheld.addDestFltRule hhas (fun h => hadded (hwants.symm.trans h)) hdest
  cases hrun
  have hnum : s2.numDftRtV6 = s.numDftRtV6 := hnum2.trans hsame.numDftRtV6
  refine ⟨⟨?_, ?_, ?_, ?_⟩, rfl⟩
  · have htwo : 2 * (s2.numDftRtV6 + 1) = 2 * s.numDftRtV6 + 1 + 1 := by omega
    show Held c android (2 * (s2.numDftRtV6 + 1)) _
    rw [htwo]
    exact { hheld2 with }
  · intro hno
    show s2.dftRtRuleHdl 0 = 0
    rw [hrt2, hsame.dftRtRuleHdl]
    exact hv4 (hhas4.symm.trans ((congrArg (IfaceIpType.has · .v4) htype2).symm.trans hno))
  · show s2.ipType.has .v6 = decide (0 < s2.numDftRtV6 + 1)
    rw [htype2, hhas]
    exact (decide_eq_true (Nat.succ_pos _)).symm
  · show s2.numDftRtV6 + 1 ≤ maxDefaultV6RouteRules
    rw [hnum]
    exact hroom

theorem Ok.handleAddrEvt_v4 {addr : UInt32} (hs : s.Ok c android) (hadm : s.admits .v4)
    (hrun : s.handleAddrEvt c android answers (.v4 addr) = some (s', b)) :
    s'.Ok c android ∧ (b = false → s.Untouched s') := by
  have hnew := admits_v4 hadm
  obtain ⟨r, hrt, hrun⟩ := bind_eq_some_iff.mp hrun
  rcases addRoutingRule_cases hrt with ⟨rfl, -⟩ | ⟨h, _, -, rfl, hgive⟩
  · obtain ⟨rfl, rfl⟩ := Prod.mk.inj (some.inj hrun)
    exact ⟨hs, fun _ => ⟨rfl, rfl, rfl⟩⟩
  obtain ⟨s2, hfirst, hrun⟩ := bind_eq_some_iff.mp hrun
  obtain ⟨rfl, rfl⟩ := Prod.mk.inj (some.inj hrun)
  have hheld := hs.held.storeRtV4 (hs.v4 hnew) hgive
  obtain ⟨-, _, rfl, -⟩ := give_cases hgive
  obtain ⟨hheld2, hsame, htype⟩ := hheld.firstAddr hnew hfirst
  have hnum : s2.numDftRtV6 = s.numDftRtV6 := hsame.numDftRtV6
  have htype : s2.ipType = s.ipType.add .v4 := htype
  refine ⟨⟨?_, fun hno => ?_, ?_, ?_⟩, nofun⟩
  · rw [hnum]
    exact hheld2
  · rw [htype, has_add_self hnew] at hno
    exact nomatch hno
  · rw [htype, IfaceIpType.has_add hnew, hnum]
    exact (Bool.or_false _).trans hs.v6
  · rw [hnum]
    exact hs.le

/-- An IPv6 address: it is there already, or the first routing rule fails, or all rules are
added. -/
theorem Ok.handleAddrEvt_v6 {addr : Ipv6Addr} (hs : s.Ok c android)
    (hadm : s.admits .v6) (hall : s.AllAdded c answers (.v6 addr))
    (hrun : s.handleAddrEvt c android answers (.v6 addr) = some (s', b)) :
    s'.Ok c android ∧ (b = false → s.Untouched s') := by
  have hroom := hs.room hadm
  unfold AddrState.handleAddrEvt at hrun
  dsimp only at hrun
  split at hrun
  · cases hrun
    exact ⟨hs, nofun⟩
  rename_i hfresh
  have hfresh : ∀ i < s.numDftRtV6, s.ipv6Addr i ≠ addr := fun i hi heq => hfresh ⟨i, hi, heq⟩
  rw [if_neg (Nat.not_le.mpr hroom)] at hrun
  obtain ⟨r, hrt, hrun⟩ := bind_eq_some_iff.mp hrun
  rcases addRoutingRule_cases hrt with ⟨rfl, -⟩ | ⟨h, s1, hanswer, rfl, hgive⟩
  · cases hrun
    exact ⟨⟨{ hs.held with }, hs.v4, hs.v6, hs.le⟩, fun _ => ⟨rfl, rfl, rfl⟩⟩
  -- the second routing rule is added too
  obtain ⟨hwan, hdest⟩ := hall hfresh ⟨h, hanswer⟩
  have hstart : Held c android (2 * s.numDftRtV6)
      { s with ipv6Addr := update s.ipv6Addr s.numDftRtV6 addr } :=
    { hs.held with }
  have hheld := hstart.storeRtV6 hgive
  obtain ⟨⟨hrt1, hnum1, hdest1⟩, htype1⟩ := give_kept hgive
  dsimp only at hrun hrt1 hnum1 hdest1 htype1
  rw [hnum1] at hrun
  obtain ⟨r, hrt, hrun⟩ := bind_eq_some_iff.mp hrun
  rcases addRoutingRule_cases hrt with ⟨-, hno⟩ | ⟨h2, s2, -, rfl, hgive2⟩
  · exact absurd hwan hno
  have hheld2 := hheld.storeRtV6 hgive2
  obtain ⟨⟨hrt2, hnum2, hdest2⟩, htype2⟩ := give_kept hgive2
  have hnum : s2.numDftRtV6 = s.numDftRtV6 := hnum2.trans hnum1
  have htype : s2.ipType = s.ipType := htype2.trans htype1
  dsimp only at hrun
  rw [hnum] at hrun
  have hdest : (s2.storeRt (1 + 2 * s.numDftRtV6 + 1) h2).wantsDestFltRule c addr = true →
      ∃ h, answers.dest = .added h := by
    intro hwants
    apply hdest
    unfold wantsDestFltRule at hwants ⊢
    rw [← hdest1, ← show s2.numIpv6DestFltRule = s1.numIpv6DestFltRule from hdest2]
    exact hwants
  have hheld2 : (s2.storeRt (1 + 2 * s.numDftRtV6 + 1) h2).Held c android (2 * s2.numDftRtV6 + 1 + 1) := by
    rw [hnum]
    exact hheld2
  have hv4 : s2.ipType.has .v4 = false → (s2.storeRt (1 + 2 * s.numDftRtV6 + 1) h2).dftRtRuleHdl 0 = 0 := by
    intro hno
    show update s2.dftRtRuleHdl (1 + 2 * s.numDftRtV6 + 1) h2 0 = 0
    rw [update_of_ne (by omega), hrt2]
    show update s1.dftRtRuleHdl (1 + 2 * s.numDftRtV6) h 0 = 0
    rw [update_of_ne (by omega), hrt1]
    exact hs.v4 ((congrArg (IfaceIpType.has · .v4) htype).symm.trans hno)
  have hv6 : s2.ipType.has .v6 = decide (0 < s2.numDftRtV6) := by
    rw [htype, hnum]
    exact hs.v6
  obtain ⟨hok, rfl⟩ := Ok.finishV6 (s := s2.storeRt (1 + 2 * s.numDftRtV6 + 1) h2)
    hheld2 hv4 hv6 (hnum.trans_lt hroom) hdest hrun
  exact ⟨hok, nofun⟩

/-- **An address**: what it brings is recorded, and a failure changes no count. -/
theorem Ok.handleAddrEvt {a : WanAddr} (hs : s.Ok c android) (hadm : s.admits a.ip) (hall : s.AllAdded c answers a)
    (hrun : s.handleAddrEvt c android answers a = some (s', b)) : s'.Ok c android ∧ (b = false → s.Untouched s') := by
  cases a with
  | v4 => exact hs.handleAddrEvt_v4 hadm hrun
  | v6 => exact hs.handleAddrEvt_v6 hadm hall hrun

theorem Ok.step {call : AddrCall} (hs : s.Ok c android) (hcare : s.AddrCareful c call)
    (hstep : s.step c android call = some s') : s'.Ok c android := by
  cases call with
  | down => exact absurd hstep (by simp [AddrState.step])
  | addrAdd a answers =>
    unfold AddrState.step at hstep
    dsimp only at hstep
    split at hstep
    · rename_i hadm
      obtain ⟨⟨_, b⟩, hrun, hstep⟩ := bind_eq_some_iff.mp hstep
      obtain ⟨hok, -⟩ := hs.handleAddrEvt hadm.2 (hcare hadm.1 hadm.2) hrun
      split at hstep
      · rename_i hsoft
        obtain ⟨hheld, hsame, htype⟩ := hok.held.handleSoftwareRoutingEnable hsoft.2 hstep
        refine ⟨?_, ?_, ?_, ?_⟩
        · rw [hsame.numDftRtV6]
          exact hheld
        · rw [htype, hsame.dftRtRuleHdl]
          exact hok.v4
        · rw [htype, hsame.numDftRtV6]
          exact hok.v6
        · rw [hsame.numDftRtV6]
          exact hok.le
      · cases hstep
        exact hok
    · cases hstep
      exact hs

/-! ### The end -/

section

variable {recs : List ((RuleKind × IpType × UInt32) × RuleOwner)}

theorem deleteIf_cases {p : Prop} [Decidable p] {kind : RuleKind} {owner : RuleOwner}
    {l : List UInt32} (hl : s.rules.Ledger (hdlRecs ip kind owner l ++ recs)) (hnone : ¬p → ∀ h ∈ l, h = 0) :
    ∃ rules, (if p then s.deleteHdls ip kind l else s) = { s with rules := rules } ∧
      rules.Ledger recs := by
  split
  · exact ⟨_, rfl, deleteHdls_ledger hl⟩
  · rename_i hp
    rw [hdlRecs_zero (hnone hp)] at hl
    exact ⟨s.rules, rfl, hl⟩

theorem deleteRtRules_cases (hl : s.rules.Ledger (hdlRecs .v4 .routing .addr [s.dftRtRuleHdl 0] ++
      (hdlRecs .v6 .routing .addr (s.v6RtHdls (2 * s.numDftRtV6)) ++ recs)))
    (hv4 : s.ipType = .v6 → s.dftRtRuleHdl 0 = 0) (hv6 : s.ipType = .v4 → s.numDftRtV6 = 0) :
    ∃ rules, s.deleteRtRules = { s with rules := rules } ∧ rules.Ledger recs := by
  obtain ⟨rules1, heq1, hl1⟩ := deleteIf_cases (p := s.ipType ≠ .v6) hl fun hno h hh => by
    rw [mem_singleton.mp hh]
    exact hv4 (not_not.mp hno)
  obtain ⟨rules2, heq2, hl2⟩ := deleteIf_cases (s := { s with rules := rules1 })
    (p := s.ipType ≠ .v4) hl1 fun hno h hh => by
      rw [hv6 (not_not.mp hno)] at hh
      exact nomatch hh
  refine ⟨rules2, ?_, hl2⟩
  unfold deleteRtRules
  rw [heq1]
  exact heq2

theorem handleSoftwareRoutingDisable_cases (hl : s.rules.Ledger (s.softRecs ++ recs))
    (hrx : s.softwareRoutingAct → c.rx) :
    ∃ rules, s.handleSoftwareRoutingDisable c =
        { s with rules := rules, softwareRoutingAct := false } ∧ rules.Ledger recs := by
  unfold handleSoftwareRoutingDisable
  cases hact : s.softwareRoutingAct with
  | false =>
    have hsame : s = { s with rules := s.rules, softwareRoutingAct := false } := by
      rw [← hact]
    have hsoft : s.softRecs = [] := if_neg (by rw [hact]; decide)
    rw [hsoft] at hl
    refine ⟨s.rules, ?_, hl⟩
    rw [if_pos rfl, ite_self]
    exact hsame
  | true =>
    have hsoft : s.softRecs = _ := if_pos hact
    rw [hsoft, append_assoc] at hl
    have hl4 := deleteHdls_ledger hl
    have hl6 := deleteHdls_ledger hl4
    rw [hrx hact, if_neg (by decide), if_neg (by decide)]
    exact ⟨_, rfl, hl6⟩

theorem deleteFlRules_cases (android : Bool)
    (hl : s.rules.Ledger (hdlRecs .v4 .filtering .addr (s.dftFlHdls android .v4) ++
      (hdlRecs .v6 .filtering .addr (s.dftFlHdls android .v6) ++
        (hdlRecs .v6 .filtering .addr s.destHdls ++ recs))))
    (hv4 : s.ipType = .v6 ∨ c.rx = false → ∀ i, s.dftFlRuleHdl .v4 i = 0)
    (hv6 : s.ipType = .v4 ∨ c.rx = false → (∀ i, s.dftFlRuleHdl .v6 i = 0) ∧ s.numIpv6DestFltRule = 0)
    (hle : s.numIpv6DestFltRule ≤ maxDefaultV6RouteRules) :
    ∃ rules, s.deleteFlRules c android = { s with rules := rules } ∧ rules.Ledger recs := by
  have hnot : ∀ {t : IfaceIpType}, ¬(s.ipType ≠ t ∧ c.rx = true) → s.ipType = t ∨ c.rx = false := by
    intro t hno
    by_cases htype : s.ipType = t
    · exact .inl htype
    · exact .inr (eq_false_iff.mpr fun hrx => hno ⟨htype, hrx⟩)
  obtain ⟨rules1, heq1, hl1⟩ := deleteIf_cases (p := s.ipType ≠ .v6 ∧ c.rx = true) hl
    fun hno => dftFlHdls_zero (hv4 (hnot hno))
  unfold deleteFlRules
  rw [heq1]
  by_cases hp : s.ipType ≠ .v4 ∧ c.rx = true
  · rw [if_pos hp]
    have hl2 := deleteHdls_ledger (s := { s with rules := rules1 }) hl1
    obtain ⟨rules3, heq3, hl3⟩ := deleteIf_cases
      (p := 0 < s.numIpv6DestFltRule ∧ s.numIpv6DestFltRule ≤ maxDefaultV6RouteRules) hl2
      fun hno h hh => by
        have hzero : s.numIpv6DestFltRule = 0 := by
          by_contra hne
          exact hno ⟨Nat.pos_of_ne_zero hne, hle⟩
        rw [destHdls_nil hzero] at hh
        exact nomatch hh
    exact ⟨rules3, heq3, hl3⟩
  obtain ⟨hdft, hdest⟩ := hv6 (hnot hp)
  rw [if_neg hp]
  refine ⟨rules1, rfl, ?_⟩
  rw [hdlRecs_zero (dftFlHdls_zero hdft), destHdls_nil hdest] at hl1
  exact hl1

theorem Cleaned.of_ledger (hl : s.rules.Ledger recs) (howner : ∀ r ∈ recs, r.2 = .softwareRouting)
    (hmodem : ∀ ip, s.own ip → s.sent ip = false) : s.Cleaned where
  wrong := hl.wrong
  rules := by
    intro hdl hsome
    have hmem := (hl.mem_iff hdl .addr).mp hsome
    exact RuleOwner.noConfusion (howner _ hmem)
  modem := hmodem

theorem Ok.has_v4 (hs : s.Ok c android) (htype : s.ipType = .null ∨ s.ipType = .v6) : s.dftRtRuleHdl 0 = 0 := by
  apply hs.v4
  rcases htype with htype | htype <;> rw [htype] <;> rfl

theorem Ok.has_v6 (hs : s.Ok c android) (htype : s.ipType = .null ∨ s.ipType = .v4) : s.numDftRtV6 = 0 := by
  have hno : s.ipType.has .v6 = false := by
    rcases htype with htype | htype <;> rw [htype] <;> rfl
  exact Nat.eq_zero_of_not_pos (of_decide_eq_false (hs.v6.symm.trans hno))

/-- **A STA interface** goes down. -/
theorem Ok.handleDownEvt (hs : s.Ok c android) (hmode : c.mode ≠ .q6Wan) : (s.handleDownEvt c android).Cleaned := by
  have hmodem : ∀ ip, s.own ip = true → s.sent ip = false := fun ip hown => absurd (hs.held.own ip hown).1 hmode
  obtain ⟨_, hledger, howner⟩ := hs.held.recorded
  unfold AddrState.handleDownEvt
  by_cases hnull : s.ipType = .null
  · -- without an address, only software routing has installed anything
    rw [if_pos hnull]
    have hnil : s.addrRecs android (2 * s.numDftRtV6) = [] := by
      have hhas : ∀ ip, s.ipType.has ip = false := fun ip => by rw [hnull]; rfl
      unfold addrRecs
      rw [hs.has_v4 (.inl hnull), hs.has_v6 (.inl hnull), destHdls_nil (hs.held.destUnused (.inl (hhas .v6))),
        hdlRecs_zero (dftFlHdls_zero (hs.held.dftUnused .v4 (.inl (hhas .v4)))),
        hdlRecs_zero (dftFlHdls_zero (hs.held.dftUnused .v6 (.inl (hhas .v6))))]
      rfl
    rw [hnil, nil_append] at hledger
    refine Cleaned.of_ledger hledger (fun r hr => ?_) hmodem
    rcases mem_append.mp hr with hr | hr
    · exact softRecs_owner hr
    · exact howner r hr
  rw [if_neg hnull]
  obtain ⟨rules1, heq1, hl1⟩ := deleteRtRules_cases (hledger.perm (perm_assoc _ _ _ _))
    (fun htype => hs.has_v4 (.inr htype)) fun htype => hs.has_v6 (.inr htype)
  obtain ⟨rules2, heq2, hl2⟩ := handleSoftwareRoutingDisable_cases (c := c)
    (s := { s with rules := rules1 }) (hl1.perm (perm_append_comm_assoc ..)) hs.held.softRx
  obtain ⟨_, heq3, hl3⟩ := deleteFlRules_cases (c := c)
    (s := { s with rules := rules2, softwareRoutingAct := false }) android
    (hl2.perm (perm_assoc _ _ _ _))
    (fun h => hs.held.dftUnused .v4 (h.imp (fun htype => by rw [htype]; rfl) Or.inl))
    (fun h => ⟨hs.held.dftUnused .v6 (h.imp (fun htype => by rw [htype]; rfl) Or.inl),
      hs.held.destUnused (h.imp (fun htype => by rw [htype]; rfl) Or.inl)⟩) hs.held.destLe
  rw [heq1, heq2, heq3]
  exact Cleaned.of_ledger hl3 howner hmodem

end

/-! ### The default rules at the modem -/

theorem install_clears (hrx : c.rx) (hflt : s.fltRule ip = false) (hsoft : s.SoftOnly swRtEnable ip) :
    (s.installWanFilteringRule c swRtEnable .taken).sent ip = false := by
  unfold AddrState.installWanFilteringRule
  rw [hrx, if_neg (by decide)]
  cases swRtEnable with
  | false => exact hflt
  | true =>
    cases hact : s.softwareRoutingAct with
    | true => exact hsoft rfl hact
    | false => rfl

theorem SoftOnly.install (hrx : c.rx) (hsoft : s.SoftOnly swRtEnable ip) :
    (s.installWanFilteringRule c swRtEnable .taken).SoftOnly swRtEnable ip := by
  rintro rfl -
  unfold AddrState.installWanFilteringRule
  rw [hrx, if_neg (by decide), if_pos rfl]
  cases hact : s.softwareRoutingAct with
  | true => exact hsoft rfl hact
  | false => rfl

theorem clearDft_cases : ∃ flt act sent, s.clearDft c ip swRtEnable =
    { s with fltRule := flt, softwareRoutingAct := act, sent := sent } ∧
      (act → s.softwareRoutingAct ∨ c.rx) := by
  unfold clearDft
  split
  · obtain ⟨act, sent, heq, hact⟩ := installWanFilteringRule_cases (c := c)
      (s := { s with fltRule := update s.fltRule ip false })
      swRtEnable .taken
    exact ⟨_, act, sent, heq, hact⟩
  · exact ⟨_, _, _, rfl, Or.inl⟩

theorem clearDft_clears (hrx : c.rx) (hzero : s.numModemPdn ip = 0) (hsoft : s.SoftOnly swRtEnable ip) :
    (s.clearDft c ip swRtEnable).fltRule ip = false ∧ (s.clearDft c ip swRtEnable).sent ip = false := by
  unfold clearDft
  rw [if_pos hzero]
  obtain ⟨_, _, heq, -⟩ := installWanFilteringRule_cases (c := c)
    (s := { s with fltRule := update s.fltRule ip false })
    swRtEnable .taken
  have hflt : update s.fltRule ip false ip = false := update_self ..
  refine ⟨?_, install_clears hrx hflt hsoft⟩
  rw [heq]
  exact hflt

theorem clearDft_keeps (hrx : c.rx) (hflt : s.fltRule j = false) (hsent : s.sent j = false) :
    (s.clearDft c ip swRtEnable).sent j = false := by
  unfold clearDft
  split
  · apply install_clears hrx
    · show update s.fltRule ip false j = false
      rcases eq_or_ne j ip with rfl | hj
      · exact update_self ..
      · rw [update_of_ne hj]
        exact hflt
    · exact fun _ _ => hsent
  · exact hsent

theorem SoftOnly.clearDft (hrx : c.rx) (hsoft : s.SoftOnly swRtEnable j) :
    (s.clearDft c ip swRtEnable).SoftOnly swRtEnable j := by
  unfold AddrState.clearDft
  split
  · exact SoftOnly.install (s := { s with fltRule := update s.fltRule ip false }) hrx hsoft
  · exact hsoft

theorem countDown_cases : ∃ num, s.countDown = { s with numModemPdn := num } ∧
    (s.ipType ≠ .v6 → num .v4 = s.numModemPdn .v4 - 1) ∧
    (s.ipType ≠ .v4 → s.numDftRtV6 > 1 → num .v6 = s.numModemPdn .v6 - 1) := by
  unfold countDown
  by_cases hv4 : s.ipType ≠ .v6
  · rw [if_pos hv4]
    dsimp only
    split
    · refine ⟨_, rfl, fun _ => ?_, fun _ _ => ?_⟩
      · rw [update_of_ne (by decide), update_self]
      · rw [update_self, update_of_ne (by decide)]
    · rename_i hno
      exact ⟨_, rfl, fun _ => update_self .., fun htype hnum => absurd ⟨htype, hnum⟩ hno⟩
  rw [if_neg hv4]
  dsimp only
  split
  · exact ⟨_, rfl, fun h => absurd h hv4, fun _ _ => update_self ..⟩
  · rename_i hno
    exact ⟨_, rfl, fun h => absurd h hv4, fun htype hnum => absurd ⟨htype, hnum⟩ hno⟩

theorem clearIf_cases {p : Prop} [Decidable p] (ip : IpType) (swRtEnable : Bool) : ∃ flt act sent,
    (if p then s.clearDft c ip swRtEnable else s) =
      { s with fltRule := flt, softwareRoutingAct := act, sent := sent } ∧
      (act → s.softwareRoutingAct ∨ c.rx) := by
  split
  · exact clearDft_cases
  · exact ⟨_, _, _, rfl, Or.inl⟩

theorem deleteDftRules_cases (swRtEnable : Bool) : ∃ num flt act sent, s.deleteDftRules c swRtEnable =
    { s with numModemPdn := num, fltRule := flt, softwareRoutingAct := act, sent := sent } ∧
      (act → s.softwareRoutingAct ∨ c.rx) := by
  obtain ⟨num, heq, -⟩ := countDown_cases (s := s)
  obtain ⟨flt4, act4, sent4, heq4, hact4⟩ := clearIf_cases (c := c)
    (s := { s with numModemPdn := num }) (p := s.ipType ≠ .v6) .v4 swRtEnable
  obtain ⟨flt, act, sent, heq6, hact⟩ := clearIf_cases (c := c) (s := { s with
      numModemPdn := num, fltRule := flt4, softwareRoutingAct := act4, sent := sent4 })
    (p := s.ipType ≠ .v4) .v6 swRtEnable
  refine ⟨num, flt, act, sent, ?_, fun h => (hact h).elim hact4 Or.inr⟩
  unfold AddrState.deleteDftRules
  rw [heq]
  dsimp only
  rw [heq4]
  exact heq6

/-- **The default rules** of the interface are gone. -/
theorem Ok.deleteDftRules_sent (hs : s.Ok c android) (hown : s.own ip)
    (hone : ip = .v6 → s.numDftRtV6 ≠ 1) (hsoft : s.SoftOnly swRtEnable ip) :
    (s.deleteDftRules c swRtEnable).sent ip = false := by
  obtain ⟨-, hrx, hhas, hcount⟩ := hs.held.own ip hown
  obtain ⟨num, heq, hnum4, hnum6⟩ := countDown_cases (s := s)
  unfold AddrState.deleteDftRules
  rw [heq]
  dsimp only
  have hsoft1 := hsoft
  cases ip with
  | v4 =>
    -- cleared first; the rules for IPv6 that follow do not bring them back
    have hv6 : s.ipType ≠ .v6 := fun htype => by
      rw [htype] at hhas
      exact nomatch hhas
    have hzero : num .v4 = 0 := by
      rw [hnum4 hv6, hcount]
      rfl
    rw [if_pos hv6]
    obtain ⟨hflt, hsent⟩ := clearDft_clears (s := { s with numModemPdn := num }) hrx hzero hsoft1
    split
    · exact clearDft_keeps hrx hflt hsent
    · exact hsent
  | v6 =>
    -- the PDN is counted down since there are two addresses
    have hv4 : s.ipType ≠ .v4 := fun htype => by
      rw [htype] at hhas
      exact nomatch hhas
    have hpos : 0 < s.numDftRtV6 := of_decide_eq_true (hs.v6.symm.trans hhas)
    have hzero : num .v6 = 0 := by
      have hmore : s.numDftRtV6 > 1 := Nat.lt_of_le_of_ne hpos (hone rfl).symm
      rw [hnum6 hv4 hmore, hcount]
      rfl
    have hsoft2 : SoftOnly swRtEnable .v6 (if s.ipType ≠ .v6 then
        AddrState.clearDft c { s with numModemPdn := num } .v4 swRtEnable
        else { s with numModemPdn := num }) := by
      split
      · exact hsoft1.clearDft hrx
      · exact hsoft1
    obtain ⟨_, _, _, heq4, -⟩ := clearIf_cases (c := c)
      (s := { s with numModemPdn := num }) (p := s.ipType ≠ .v6) .v4 swRtEnable
    rw [heq4] at hsoft2 ⊢
    rw [if_pos hv4]
    exact (clearDft_clears hrx hzero hsoft2).2

/-- **A modem interface** goes down. -/
theorem Ok.handleDownEvtEx (hs : s.Ok c android) (hmode : c.mode = .q6Wan) (hcare : ∀ ip, s.own ip →
      (ip = .v6 → s.numDftRtV6 ≠ 1) ∧ s.SoftOnly swRtEnable ip) : (s.handleDownEvtEx c swRtEnable).Cleaned := by
  obtain ⟨rest, hledger, howner⟩ := hs.held.recorded
  -- there are no filter rules in the kernel
  have hrecs : s.rules.Ledger (hdlRecs .v4 .routing .addr [s.dftRtRuleHdl 0] ++
      (hdlRecs .v6 .routing .addr (s.v6RtHdls (2 * s.numDftRtV6)) ++ rest)) := by
    have hq : ∀ ip, s.ipType.has ip = false ∨ c.rx = false ∨ c.mode = .q6Wan := fun _ => Or.inr (.inr hmode)
    unfold addrRecs at hledger
    rw [softRecs_zero (hs.held.softUnused hmode), destHdls_nil (hs.held.destUnused (hq .v6)),
      hdlRecs_zero (dftFlHdls_zero (hs.held.dftUnused .v4 (hq .v4))),
      hdlRecs_zero (dftFlHdls_zero (hs.held.dftUnused .v6 (hq .v6)))] at hledger
    exact hledger.perm (perm_assoc _ _ _ _)
  unfold AddrState.handleDownEvtEx
  by_cases hnull : s.ipType = .null
  · rw [if_pos hnull]
    rw [hs.has_v4 (.inl hnull), hs.has_v6 (.inl hnull)] at hrecs
    refine Cleaned.of_ledger hrecs howner fun ip hown => ?_
    have hhas := (hs.held.own ip hown).2.2.1
    rw [hnull] at hhas
    exact nomatch hhas
  rw [if_neg hnull]
  have hsent : ∀ ip, s.own ip = true → (s.deleteDftRules c swRtEnable).sent ip = false :=
    fun ip hown => hs.deleteDftRules_sent hown (hcare ip hown).1 (hcare ip hown).2
  obtain ⟨num, flt, act, sent, heq, hact⟩ := deleteDftRules_cases (c := c) (s := s) swRtEnable
  rw [heq] at hsent ⊢
  obtain ⟨rules1, heq1, hl1⟩ := deleteRtRules_cases (s := { s with
      numModemPdn := num, fltRule := flt, softwareRoutingAct := act, sent := sent }) hrecs
    (fun htype => hs.has_v4 (.inr htype)) fun htype => hs.has_v6 (.inr htype)
  rw [heq1]
  have hsoft : softRecs { s with
      numModemPdn := num, fltRule := flt, softwareRoutingAct := act, sent := sent
      rules := rules1 } = [] := softRecs_zero (hs.held.softUnused hmode)
  rw [← nil_append rest, ← hsoft] at hl1
  obtain ⟨_, heq2, hl2⟩ := handleSoftwareRoutingDisable_cases (c := c) (s := { s with
      numModemPdn := num, fltRule := flt, softwareRoutingAct := act, sent := sent
      rules := rules1 }) hl1 fun h => (hact h).elim hs.held.softRx id
  rw [heq2]
  exact Cleaned.of_ledger hl2 howner hsent

end

/-- **Addresses of a WAN interface.**  In every run whose calls are careful, there is always room
for an address, a failure leaves the counts and the IP type as they are, and what the addresses
have brought is deleted once when the interface goes down, and nothing else but rules for
software routing. -/
theorem wanAddr (c : WanConf) (android : Bool) (numModemPdn : IpType → ℤ)
    (fltRule sent : IpType → Bool) (calls : List AddrCall)
    (hcare : AtSteps (step c android) (AddrCareful c) (init numModemPdn fltRule sent) calls) :
    AtSteps (step c android) (AddrRight c android) (init numModemPdn fltRule sent) calls := by
  refine AtSteps.imp (fun s call hs hcare => ?_) (fun s call s' hs hcare => hs.step hcare)
    (Ok.init numModemPdn fltRule sent) hcare
  cases call with
  | addrAdd =>
    intro hvalid hadm
    refine ⟨fun hv6 => ?_, fun s' hrun => ?_⟩
    · exact hs.room (hv6 ▸ hadm)
    · exact (hs.handleAddrEvt hadm (hcare hvalid hadm) hrun).2 rfl
  | down swRtEnable =>
    show (s.handleDown c android swRtEnable).Cleaned
    unfold handleDown
    split_ifs with hmode
    · exact hs.handleDownEvtEx hmode (hcare hmode)
    · exact hs.handleDownEvt hmode

def sampleGlobal : Ipv6Addr := fun i => if i.val = 0 then 0x20010db8 else 1

def sampleAnswers : AddrAnswers where
  rt := .added 1
  rtWan := .added 2
  dft := some fun i => some (UInt32.ofNat (i + 3))
  dest := .added 9
  dftBuilt := true
  modem := .taken
  swRtEnable := false
  softwareRouting := fun _ => .failed

/-- No other interface is there. -/
def sampleAlone : AddrState := init (fun _ => 0) (fun _ => false) fun _ => false

/-- An address of a STA interface, whose first routing rule fails once, and the end of the interface. -/
theorem wanAddr_sample : AtSteps (step (sampleSta 0) false) (AddrRight (sampleSta 0) false) sampleAlone
      [.addrAdd (.v6 sampleGlobal) { sampleAnswers with rt := .failed }, .addrAdd (.v6 sampleGlobal) sampleAnswers,
        .down false] := by
  refine wanAddr (sampleSta 0) false _ _ _ _
    ⟨fun _ _ _ h => ?_, fun s _ => ⟨fun _ _ _ _ => ?_, fun s _ => ⟨?_, fun _ _ => trivial⟩⟩⟩
  · exact absurd h (by simp)
  · exact ⟨⟨2, rfl⟩, fun _ => ⟨9, rfl⟩⟩
  · exact nofun

/-- The second routing rule fails: the first one is still there after the interface has gone
down. -/
theorem wanAddr_fails : ¬ AtSteps (step (sampleSta 0) false) (AddrRight (sampleSta 0) false) sampleAlone
      [.addrAdd (.v6 sampleGlobal) { sampleAnswers with rtWan := .failed }, .down false] := by
  rintro ⟨-, h⟩
  obtain ⟨hdown, -⟩ := h _ rfl
  exact hdown.rules (.routing, .v6, 1) rfl

end AddrState

end G4Common.Ipacm

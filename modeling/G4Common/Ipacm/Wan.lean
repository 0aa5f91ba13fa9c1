/-
The WAN interfaces (`IPACM_Wan`, `ipacm/src/IPACM_Wan.cpp`).

Every WAN interface has an instance that handles all events in the order in which the
instances were created.  The instance of the interface that an event is about may become
the one through which a family of IP addresses goes out, and the others then give it up.
What they share is static: the flags `wan_up` and `wan_up_v6`, the number of modem PDNs, the
filter rules for the modem and the lists of tethered interfaces.

An interface is known by its number `ipa_if_num`, and what is kept for IPv4 and for IPv6 is
one function of the IP type.  All calls of the kernel succeed.  The rules for the modem are
reduced to what is among them, the default rules and the firewall rules of an instance,
first in the arrays `flt_rule_v4` and `flt_rule_v6` and then where
`install_wan_filtering_rule()` has sent them.

Not modelled: routing rules, headers and the clients of a STA interface beyond the fact that
a header has been made, the resource manager, software routing, `IPA_FIREWALL_CHANGE_EVENT`,
and eMBMS interfaces, which handle link-down only and never have an address.
-/
import Mathlib
import G4Common.Ipacm.EthClients
import G4Common.Ipacm.EvtDispatcher
import G4Common.Lib.Broadcast

namespace G4Common.Ipacm

open Broadcast Function

/-! ### Data -/

/-- `ip_type` of an interface; `IPACM_IP_NULL` without an address, `IPA_IP_MAX` for both. -/
inductive IfaceIpType
  | null | v4 | v6 | max
  deriving DecidableEq, Repr

def IfaceIpType.has : IfaceIpType → IpType → Bool
  | .null, _ => false
  | .v4, ip => ip = .v4
  | .v6, ip => ip = .v6
  | .max, _ => true

/-- The update of `ip_type` in `init_fl_rule()` and `init_fl_rule_ex()`. -/
def IfaceIpType.add : IfaceIpType → IpType → IfaceIpType
  | .v6, .v4 => .max
  | _, .v4 => .v4
  | .v4, .v6 => .max
  | _, .v6 => .v6

theorem IfaceIpType.has_add {t : IfaceIpType} {ip j : IpType} (h : t.has ip = false) :
    (t.add ip).has j = (t.has j || decide (j = ip)) := by
  cases t with
  | null => cases ip <;> cases j <;> rfl
  | v4 =>
    cases ip with
    | v4 => cases h
    | v6 => cases j <;> rfl
  | v6 =>
    cases ip with
    | v4 => cases j <;> rfl
    | v6 => cases h
  | max => cases h

/-- What an interface is created with.  `tx` and `rx` say that it has properties for sending
and for receiving, `ext` that it has extended properties, `txIp` for which IP types there are
properties for sending, and `hdrPartial` whether the header that they name lacks the address
of the router. -/
structure WanConf where
  ifNum : ℕ
  mode : WanIfaceType
  tx : Bool
  rx : Bool
  ext : Bool
  txIp : IpType → Bool
  hdrPartial : IpType → Bool

/-- An `IPACM_Wan`.  `v6Addrs` are the first `num_dft_rt_v6` entries of `ipv6_addr`. -/
structure Wan extends WanConf where
  ipType : IfaceIpType
  v4Addr : Option UInt32
  v6Addrs : List Ipv6Addr
  active : IpType → Bool
  headerSet : IpType → Bool
  headerPartialDefaultWan : IpType → Bool
  isDefaultGateway : Bool
  modemPdnIndex : IpType → ℤ

def Wan.new (c : WanConf) : Wan where
  toWanConf := c
  ipType := .null
  v4Addr := none
  v6Addrs := []
  active := fun _ => false
  headerSet := fun _ => false
  headerPartialDefaultWan := fun _ => false
  isDefaultGateway := false
  modemPdnIndex := fun _ => 0

/-- The rules for the modem: the default rules, and the firewall rules of an interface. -/
structure ModemRules where
  dft : Bool
  fw : Option ℕ
  deriving DecidableEq, Repr

/-- Events that the instances post. -/
inductive WanMsg
  | up (ip : IpType) (ifNum : ℕ)
  | down (ip : IpType) (ifNum : ℕ)
  | upTether (ip : IpType) (tether : ℕ)
  | downTether (ip : IpType) (tether : ℕ)
  deriving DecidableEq, Repr

/-- What the instances share, and what the kernel and the modem have got from them. -/
structure WanShared where
  wanUp : IpType → Bool
  numModemPdn : IpType → ℤ
  ipaIfNumTether : IpType → List ℕ
  fltRule : IpType → ModemRules
  /-- The rules that the modem has. -/
  sent : IpType → ModemRules
  /-- The kernel has firewall rules for a STA interface. -/
  staRules : ℕ → IpType → Bool
  posted : List WanMsg

def WanShared.init : WanShared where
  wanUp := fun _ => false
  numModemPdn := fun _ => 0
  ipaIfNumTether := fun _ => []
  fltRule := fun _ => ⟨false, none⟩
  sent := fun _ => ⟨false, none⟩
  staRules := fun _ _ => false
  posted := []

/-- An address of an event. -/
inductive WanAddr
  | v4 (addr : UInt32)
  | v6 (addr : Ipv6Addr)

def WanAddr.ip : WanAddr → IpType
  | .v4 _ => .v4
  | .v6 _ => .v6

/-- A statement about both families. -/
instance forallIpType {P : IpType → Prop} [DecidablePred P] : Decidable (∀ ip, P ip) :=
  decidable_of_iff (P .v4 ∧ P .v6)
    ⟨fun h ip => by cases ip <;> simp [h], fun h => ⟨h .v4, h .v6⟩⟩

def sampleModem (i : ℕ) : WanConf where
  ifNum := i
  mode := .q6Wan
  tx := true
  rx := true
  ext := true
  txIp := fun _ => true
  hdrPartial := fun _ => false

def sampleSta (i : ℕ) : WanConf where
  ifNum := i
  mode := .wlanWan
  tx := true
  rx := true
  ext := false
  txIp := fun _ => true
  hdrPartial := fun _ => true

/-! ### Operations -/

section

variable (g : WanShared) (w : Wan) (ip : IpType)

/-- `IPACM_EvtDispatcher::PostEvt()`. -/
def WanShared.post (m : WanMsg) : WanShared := { g with posted := g.posted ++ [m] }

def WanShared.setWanUp (b : Bool) : WanShared := { g with wanUp := update g.wanUp ip b }

def installWanFilteringRule : WanShared := if w.rx then { g with sent := g.fltRule } else g

/-- `config_wan_firewall_rule()`, which reads the properties for receiving without a test. -/
def WanShared.configWanFirewallRule : WanShared :=
  if w.rx then
    { g with fltRule := update g.fltRule ip { g.fltRule ip with fw := some w.ifNum } }
  else g

def delWanFirewallRule : WanShared :=
  { g with fltRule := update g.fltRule ip { g.fltRule ip with fw := none } }

/-- Firewall rules for a STA interface are added or deleted. -/
def WanShared.setStaRules (i : ℕ) (b : Bool) : WanShared :=
  { g with staRules := update g.staRules i (update (g.staRules i) ip b) }

def WanShared.configDftFirewallRules : WanShared :=
  if w.rx then g.setStaRules ip w.ifNum true else g

def delDftFirewallRules : WanShared :=
  if w.rx && w.active ip then g.setStaRules ip w.ifNum false else g

/-- The end of `handle_route_add_evt()`: the interface is active. -/
def goUp : WanShared × Wan :=
  let g := g.setWanUp ip true
  let g :=
    if w.mode = .q6Wan then installWanFilteringRule (g.configWanFirewallRule w ip) w
    else g.configDftFirewallRules w ip
  (g.post (.up ip w.ifNum),
    { w with
      headerPartialDefaultWan := update w.headerPartialDefaultWan ip false
      active := update w.active ip true })

/-- What keeps `handle_route_add_evt()` from the end: a header that is not complete. -/
def Wan.lacksHeader : Bool :=
  if w.mode = .q6Wan then w.hdrPartial ip && !w.headerSet ip else !w.headerSet ip

def handleRouteAddEvt : WanShared × Wan :=
  if w.tx then
    let w := { w with isDefaultGateway := true }
    -- "Extended property is empty"
    if w.mode = .q6Wan ∧ w.ext = false then (g, w)
    else if w.lacksHeader ip then
      (g, { w with headerPartialDefaultWan := update w.headerPartialDefaultWan ip true })
    else goUp g w ip
  else (g, w)

/-- `handle_route_del_evt()` and `handle_route_del_evt_ex()`. -/
def handleRouteDelEvt : WanShared × Wan :=
  if w.tx then
    let w := { w with isDefaultGateway := false }
    if w.active ip then
      ((g.post (.down ip w.ifNum)).setWanUp ip false, { w with active := update w.active ip false })
    else (g, w)
  else (g, w)

/-- What an active interface does when it loses the default route. -/
def cleanRoute : WanShared × Wan :=
  if w.mode = .q6Wan then
    handleRouteDelEvt (installWanFilteringRule (delWanFirewallRule g ip) w) w ip
  else handleRouteDelEvt (delDftFirewallRules g w ip) w ip

/-- An instance gives a family up if it is active for it. -/
def giveUp : WanShared × Wan := if w.active ip then cleanRoute g w ip else (g, w)

def postWanUpTetherEvt (t : ℕ) : WanShared :=
  let g := { g with ipaIfNumTether := update g.ipaIfNumTether ip (g.ipaIfNumTether ip ++ [t]) }
  g.post (.upTether ip t)

def postWanDownTetherEvt (t : ℕ) : WanShared :=
  if t ∈ g.ipaIfNumTether ip then
    let g := { g with ipaIfNumTether := update g.ipaIfNumTether ip ((g.ipaIfNumTether ip).erase t) }
    g.post (.downTether ip t)
  else g

/-- "posting wan_down_tether for all lan clients". -/
def postAllDown : WanShared :=
  (g.ipaIfNumTether ip).foldl (fun g t => postWanDownTetherEvt g ip t) g

/-- "see if default routes are setup before constructing full header". -/
def lateRoute : WanShared × Wan :=
  if w.headerPartialDefaultWan ip then handleRouteAddEvt g w ip else (g, w)

def handleHeaderAddEvt : WanShared × Wan :=
  if w.headerSet .v4 || w.headerSet .v6 then (g, w)
  else if w.tx then
    let r := lateRoute g { w with headerSet := w.txIp } .v4
    lateRoute r.1 r.2 .v6
  else (g, w)

/-- `init_fl_rule_ex()`: the default rules are added for the first PDN only. -/
def WanShared.initFlRuleEx : WanShared × Wan :=
  if w.ipType.has ip then (g, w)
  else
    let w := { w with ipType := w.ipType.add ip }
    let g :=
      if w.modemPdnIndex ip = 0 then { g with fltRule := update g.fltRule ip ⟨w.rx, none⟩ } else g
    (installWanFilteringRule g w, w)

def initFlRule : Wan := if w.ipType.has ip then w else { w with ipType := w.ipType.add ip }

/-- The first address of a family. -/
def firstAddr : WanShared × Wan :=
  if w.mode = .q6Wan then
    let w := { w with modemPdnIndex := update w.modemPdnIndex ip (g.numModemPdn ip) }
    let g := { g with numModemPdn := update g.numModemPdn ip (g.numModemPdn ip + 1) }
    g.initFlRuleEx w ip
  else (g, initFlRule w ip)

def handleAddrEvt : WanAddr → WanShared × Wan
  | .v4 a =>
    let r := firstAddr g w .v4
    (r.1, { r.2 with v4Addr := some a })
  | .v6 a =>
    if a ∈ w.v6Addrs then (g, w)
    else
      let r := if w.v6Addrs = [] then firstAddr g w .v6 else (g, w)
      (r.1, { r.2 with v6Addrs := r.2.v6Addrs ++ [a] })

/-- `handle_down_evt()`: a STA interface cleans every family that is active. -/
def handleDownEvt : WanShared :=
  if w.ipType = .null then g
  else
    let r := giveUp g w .v4
    (giveUp r.1 r.2 .v6).1

/-- What `handle_down_evt_ex()` does with the count of PDNs. -/
def countDown : IpType → WanShared
  | .v4 => { g with numModemPdn := update g.numModemPdn .v4 (g.numModemPdn .v4 - 1) }
  | .v6 =>
    if w.v6Addrs.length > 1 then
      { g with numModemPdn := update g.numModemPdn .v6 (g.numModemPdn .v6 - 1) }
    else g

/-- What `handle_down_evt_ex()` does for a family if the interface is the default gateway,
before the rules are sent. -/
def gatewayDown (android : Bool) : WanShared × Wan :=
  let r := handleRouteDelEvt (delWanFirewallRule (g.setWanUp ip false) ip) w ip
  (if android then postAllDown r.1 ip else r.1, r.2)

/-- "only when the last modem interface goes down, delete default flt rules". -/
def lastDown : WanShared :=
  if g.numModemPdn ip = 0 then
    installWanFilteringRule { g with fltRule := update g.fltRule ip ⟨false, none⟩ } w
  else g

/-- `handle_down_evt_ex()`.  With both families, the test for the default gateway is made
once. -/
def handleDownEvtEx (android : Bool) : WanShared :=
  match w.ipType with
  | .null => g
  | .v4 =>
    let g := countDown g w .v4
    let g :=
      if w.isDefaultGateway then installWanFilteringRule (gatewayDown g w .v4 android).1 w else g
    lastDown g w .v4
  | .v6 =>
    let g := countDown g w .v6
    let g :=
      if w.isDefaultGateway then installWanFilteringRule (gatewayDown g w .v6 android).1 w else g
    lastDown g w .v6
  | .max =>
    let g := countDown (countDown g w .v4) w .v6
    let g :=
      if w.isDefaultGateway then
        let r := gatewayDown g w .v4 android
        installWanFilteringRule (gatewayDown r.1 r.2 .v6 android).1 w
      else g
    lastDown (lastDown g w .v4) w .v6

end

/-! ### Events -/

/-- The destination of a route. -/
inductive RouteDst
  | v4 (addr mask : UInt32)
  | v6 (addr : Ipv6Addr)

def RouteDst.ip : RouteDst → IpType
  | .v4 _ _ => .v4
  | .v6 _ => .v6

def RouteDst.isDefault : RouteDst → Bool
  | .v4 addr mask => addr = 0 ∧ mask = 0
  | .v6 addr => ipv6Zero addr

/-- "Invalid address, ignore". -/
def WanAddr.isValid : WanAddr → Bool
  | .v4 addr => addr ≠ 0
  | .v6 addr => !ipv6Zero addr

/-- The events that the instances handle, with the number of the interface. -/
inductive WanEvt
  | wlanLinkDown (i : ℕ)
  | linkDown (i : ℕ)
  /-- The category of the interface has changed. -/
  | cfgChange (i : ℕ)
  | addrAdd (i : ℕ) (a : WanAddr)
  | upstreamRouteAdd (i : ℕ) (ip : IpType) (t : ℕ)
  | upstreamRouteDel (i : ℕ) (ip : IpType) (t : ℕ)
  | routeAdd (i : ℕ) (d : RouteDst)
  | routeDel (i : ℕ) (d : RouteDst)
  /-- A neighbour, with a MAC address or with none. -/
  | neighClientIpAddrAdd (i : ℕ) (macValid : Bool)

section

variable (android : Bool) (g : WanShared) (w : Wan)

/-- "check v4 not setup before, v6 can have 2 iface ip". -/
def Wan.wantsAddr : IpType → Bool
  | .v4 => w.ipType ≠ .v4 ∧ w.ipType ≠ .max
  | .v6 => (w.ipType ≠ .v6 ∧ w.ipType ≠ .max) ∨ w.v6Addrs.length ≠ 2

/-- The interface goes down with an event, and the instance is deleted.  A cradle interface
does not look at the number of the interface that goes down. -/
def Wan.closes : WanEvt → Bool
  | .wlanLinkDown i => w.mode = .wlanWan ∧ w.ifNum = i
  | .linkDown i => (w.mode = .q6Wan ∧ w.ifNum = i) ∨ w.mode = .ecmWan
  | .cfgChange i => w.mode = .ecmWan ∧ w.ifNum = i
  | _ => false

/-- What an instance does with an event that does not delete it. -/
def handleEvt : WanEvt → WanShared × Wan
  | .addrAdd i a =>
    if a.isValid ∧ w.ifNum = i ∧ w.wantsAddr a.ip then handleAddrEvt g w a else (g, w)
  | .upstreamRouteAdd i ip t =>
    if w.ifNum = i then
      if w.ipType.has ip then
        let r := if w.active ip then (g, w) else handleRouteAddEvt g w ip
        (if android then postWanUpTetherEvt r.1 ip t else r.1, r.2)
      else (g, w)
    else giveUp g w ip
  | .upstreamRouteDel i ip t =>
    if w.ifNum = i ∧ w.active ip then
      let g := if android then postWanDownTetherEvt g ip t else g
      -- "still have tether client on upsteam iface"
      if android ∧ g.ipaIfNumTether ip ≠ [] then (g, w) else cleanRoute g w ip
    else (g, w)
  | .routeAdd i d =>
    if d.isDefault then
      if w.ifNum = i then
        if w.active d.ip = false ∧ w.ipType.has d.ip then handleRouteAddEvt g w d.ip else (g, w)
      else giveUp g w d.ip
    else (g, w)
  | .routeDel i d =>
    if w.ifNum = i ∧ d.isDefault ∧ w.active d.ip then cleanRoute g w d.ip else (g, w)
  | .neighClientIpAddrAdd i macValid =>
    if w.ifNum = i ∧ (w.mode = .wlanWan ∨ macValid) then handleHeaderAddEvt g w else (g, w)
  | _ => (g, w)

def Wan.eventCallback (e : WanEvt) : WanShared × Option Wan :=
  if w.closes e then
    (if w.mode = .q6Wan then handleDownEvtEx g w android else handleDownEvt g w, none)
  else
    let r := handleEvt android g w e
    (r.1, some r.2)

end

/-! ### Runs -/

/-- The instances, in the order of their creation, and what they share. -/
structure WanState where
  shared : WanShared
  insts : List Wan

/-- An instance is created, or an event is handled. -/
inductive WanAct
  | create (c : WanConf)
  | evt (e : WanEvt)

/-- `create_iface_instance()` makes one instance of an interface. -/
def wanStep (android : Bool) (s : WanState) : WanAct → WanState
  | .create c =>
    if s.insts.any (fun w => w.ifNum = c.ifNum) then s else { s with insts := s.insts ++ [Wan.new c] }
  | .evt e =>
    let r := dispatch (fun g w => w.eventCallback android g e) s.shared s.insts
    ⟨r.1, r.2⟩

def WanState.init : WanState := ⟨WanShared.init, []⟩

def wanRun (android : Bool) (acts : List WanAct) : WanState := acts.foldl (wanStep android) WanState.init

/-! ### What routes change -/

section

variable {g : WanShared} {w : Wan} {ip j : IpType}
variable {android : Bool} {i t : ℕ}

/-! Routes do not change what an instance was created with, and not its addresses. -/

def Wan.base (w : Wan) : WanConf × IfaceIpType × Option UInt32 × List Ipv6Addr :=
  (w.toWanConf, w.ipType, w.v4Addr, w.v6Addrs)

theorem base_handleRouteAddEvt : (handleRouteAddEvt g w ip).2.base = w.base := by
  unfold handleRouteAddEvt
  split
  · dsimp only
    split
    · rfl
    · split <;> rfl
  · rfl

theorem base_handleRouteDelEvt : (handleRouteDelEvt g w ip).2.base = w.base := by
  unfold handleRouteDelEvt
  split
  · dsimp only
    split <;> rfl
  · rfl

theorem base_cleanRoute : (cleanRoute g w ip).2.base = w.base := by
  unfold cleanRoute
  split <;> exact base_handleRouteDelEvt

theorem base_giveUp : (giveUp g w ip).2.base = w.base := by
  unfold giveUp
  split
  · exact base_cleanRoute
  · rfl

theorem base_lateRoute : (lateRoute g w ip).2.base = w.base := by
  unfold lateRoute
  split
  · exact base_handleRouteAddEvt
  · rfl

theorem base_handleHeaderAddEvt : (handleHeaderAddEvt g w).2.base = w.base := by
  unfold handleHeaderAddEvt
  split
  · rfl
  · split
    · exact base_lateRoute.trans base_lateRoute
    · rfl

theorem base_handleEvt {e : WanEvt} (he : ∀ i a, e ≠ .addrAdd i a) : (handleEvt android g w e).2.base = w.base := by
  cases e with
  | wlanLinkDown | linkDown | cfgChange => rfl
  | addrAdd i a => exact absurd rfl (he i a)
  | upstreamRouteAdd =>
    rw [handleEvt]
    split
    · split
      · dsimp only
        split
        · rfl
        · exact base_handleRouteAddEvt
      · rfl
    · exact base_giveUp
  | upstreamRouteDel _ ip t =>
    rw [handleEvt]
    split
    · dsimp only
      generalize (if android then postWanDownTetherEvt g ip t else g) = g'
      split
      · rfl
      · exact base_cleanRoute
    · rfl
  | routeAdd =>
    rw [handleEvt]
    split
    · split
      · split
        · exact base_handleRouteAddEvt
        · rfl
      · exact base_giveUp
    · rfl
  | routeDel =>
    rw [handleEvt]
    split
    · exact base_cleanRoute
    · rfl
  | neighClientIpAddrAdd =>
    rw [handleEvt]
    split
    · exact base_handleHeaderAddEvt
    · rfl

theorem conf_giveUp : (giveUp g w ip).2.toWanConf = w.toWanConf := congrArg Prod.fst base_giveUp

theorem conf_gatewayDown : (gatewayDown g w ip android).2.toWanConf = w.toWanConf :=
  congrArg Prod.fst base_handleRouteDelEvt

theorem conf_lateRoute : (lateRoute g w ip).2.toWanConf = w.toWanConf := congrArg Prod.fst base_lateRoute

theorem handleRouteAddEvt_frame :
    (handleRouteAddEvt g w ip).2.headerSet = w.headerSet ∧
      ∀ j ≠ ip, (handleRouteAddEvt g w ip).2.headerPartialDefaultWan j = w.headerPartialDefaultWan j := by
  unfold handleRouteAddEvt
  split
  · dsimp only
    split
    · exact ⟨rfl, fun _ _ => rfl⟩
    · split <;> exact ⟨rfl, fun _ hj => update_of_ne hj ..⟩
  · exact ⟨rfl, fun _ _ => rfl⟩

/-- What an instance changes when it gains or loses a route: not the number of PDNs, the
default rules or the tethered interfaces, and no firewall rules but its own. -/
inductive RouteStep (i : ℕ) (g : WanShared) : WanShared → Prop
  | post (m : WanMsg) : RouteStep i g (g.post m)
  | wanUp (ip : IpType) (b : Bool) : RouteStep i g (g.setWanUp ip b)
  | send : RouteStep i g { g with sent := g.fltRule }
  | fltRule (ip : IpType) (fw : Option ℕ) (h : fw = none ∨ fw = some i) :
      RouteStep i g { g with fltRule := update g.fltRule ip { g.fltRule ip with fw := fw } }
  | staRules (ip : IpType) (b : Bool) : RouteStep i g (g.setStaRules ip i b)

abbrev RouteSteps (i : ℕ) : WanShared → WanShared → Prop := Relation.ReflTransGen (RouteStep i)

theorem routeSteps_install : RouteSteps i g (installWanFilteringRule g w) := by
  unfold installWanFilteringRule
  split
  · exact .single .send
  · exact .refl

theorem routeSteps_delWan : RouteSteps i g (delWanFirewallRule g ip) := .single (.fltRule ip none (.inl rfl))

theorem routeSteps_goUp : RouteSteps w.ifNum g (goUp g w ip).1 := by
  refine Relation.ReflTransGen.tail (b := _) ?_ (.post _)
  refine .trans (.single (.wanUp ip true)) ?_
  split
  · unfold WanShared.configWanFirewallRule
    split
    · exact .trans (.single (.fltRule ip _ (.inr rfl))) routeSteps_install
    · exact routeSteps_install
  unfold WanShared.configDftFirewallRules
  split
  · exact .single (.staRules ip true)
  · exact .refl

theorem routeSteps_handleRouteAddEvt : RouteSteps w.ifNum g (handleRouteAddEvt g w ip).1 := by
  unfold handleRouteAddEvt
  split
  · dsimp only
    split
    · exact .refl
    · split
      · exact .refl
      · exact routeSteps_goUp
  · exact .refl

theorem routeSteps_handleRouteDelEvt : RouteSteps i g (handleRouteDelEvt g w ip).1 := by
  unfold handleRouteDelEvt
  split
  · dsimp only
    split
    · exact .trans (.single (.post _)) (.single (.wanUp ip false))
    · exact .refl
  · exact .refl

theorem routeSteps_cleanRoute : RouteSteps w.ifNum g (cleanRoute g w ip).1 := by
  unfold cleanRoute
  split
  · exact .trans routeSteps_delWan (.trans routeSteps_install routeSteps_handleRouteDelEvt)
  refine .trans ?_ routeSteps_handleRouteDelEvt
  unfold delDftFirewallRules
  split
  · exact .single (.staRules ip false)
  · exact .refl

theorem routeSteps_giveUp (ip : IpType) : RouteSteps w.ifNum g (giveUp g w ip).1 := by
  unfold giveUp
  split
  · exact routeSteps_cleanRoute
  · exact .refl

theorem routeSteps_handleDownEvt : RouteSteps w.ifNum g (handleDownEvt g w) := by
  unfold handleDownEvt
  split
  · exact .refl
  refine .trans (routeSteps_giveUp .v4) ?_
  have h : (giveUp g w .v4).2.ifNum = w.ifNum := congrArg WanConf.ifNum conf_giveUp
  rw [← h]
  exact routeSteps_giveUp .v6

theorem routeSteps_lateRoute (ip : IpType) : RouteSteps w.ifNum g (lateRoute g w ip).1 := by
  unfold lateRoute
  split
  · exact routeSteps_handleRouteAddEvt
  · exact .refl

theorem routeSteps_handleHeaderAddEvt : RouteSteps w.ifNum g (handleHeaderAddEvt g w).1 := by
  unfold handleHeaderAddEvt
  split
  · exact .refl
  split
  · refine .trans (routeSteps_lateRoute (w := { w with headerSet := w.txIp }) .v4) ?_
    have h : (lateRoute g { w with headerSet := w.txIp } .v4).2.ifNum = w.ifNum :=
      congrArg WanConf.ifNum conf_lateRoute
    rw [← h]
    exact routeSteps_lateRoute .v6
  · exact .refl

theorem RouteSteps.keeps {R : WanShared → Prop} {g' : WanShared} (h : RouteSteps i g g')
    (hstep : ∀ g g', RouteStep i g g' → R g → R g') (hR : R g) : R g' := by
  induction h with
  | refl => exact hR
  | tail _ hs ih => exact hstep _ _ hs ih

/-! ### What calls change -/

/-- A property that routes and tethered interfaces of an instance with number `i` keep. -/
structure RouteKept (i : ℕ) (R : WanShared → Prop) : Prop where
  route : ∀ g g', RouteStep i g g' → R g → R g'
  tether : ∀ g l, R g → R { g with ipaIfNumTether := l }

/-- A property that addresses and the end of the interface keep, too. -/
structure KeptBy (i : ℕ) (R : WanShared → Prop) : Prop extends RouteKept i R where
  pdn : ∀ g n, R g → R { g with numModemPdn := n }
  dft : ∀ g ip b, R g → R { g with fltRule := update g.fltRule ip ⟨b, none⟩ }

variable {R : WanShared → Prop}

section

variable (h : RouteKept i R) (hR : R g)
include h hR

theorem RouteKept.postUp : R (if android then postWanUpTetherEvt g ip t else g) := by
  split
  · exact h.route _ _ (.post _) (h.tether _ _ hR)
  · exact hR

theorem RouteKept.postDown : R (postWanDownTetherEvt g ip t) := by
  unfold postWanDownTetherEvt
  split
  · exact h.route _ _ (.post _) (h.tether _ _ hR)
  · exact hR

theorem RouteKept.postAllDown : R (Ipacm.postAllDown g ip) := by
  unfold Ipacm.postAllDown
  generalize g.ipaIfNumTether ip = l
  induction l generalizing g with
  | nil => exact hR
  | cons _ _ ih => exact ih (h.postDown hR)

theorem RouteKept.install : R (installWanFilteringRule g w) :=
  routeSteps_install.keeps h.route hR

end

theorem KeptBy.firstAddr (h : KeptBy i R) (hR : R g) : R (Ipacm.firstAddr g w ip).1 := by
  unfold Ipacm.firstAddr WanShared.initFlRuleEx
  split
  · dsimp only
    split
    · exact h.pdn _ _ hR
    refine h.install ?_
    have hcount := h.pdn g (update g.numModemPdn ip (g.numModemPdn ip + 1)) hR
    split
    · exact h.dft _ ip w.rx hcount
    · exact hcount
  · exact hR

theorem KeptBy.handleAddrEvt (h : KeptBy i R) {a : WanAddr} (hR : R g) : R (Ipacm.handleAddrEvt g w a).1 := by
  cases a with
  | v4 => exact h.firstAddr hR
  | v6 =>
    rw [Ipacm.handleAddrEvt]
    split
    · exact hR
    show R (if w.v6Addrs = [] then Ipacm.firstAddr g w .v6 else (g, w)).1
    split
    · exact h.firstAddr hR
    · exact hR

theorem KeptBy.countDown (h : KeptBy i R) (hR : R g) : R (Ipacm.countDown g w ip) := by
  cases ip with
  | v4 => exact h.pdn _ _ hR
  | v6 =>
    rw [Ipacm.countDown]
    split
    · exact h.pdn _ _ hR
    · exact hR

theorem KeptBy.lastDown (h : KeptBy i R) (hR : R g) : R (Ipacm.lastDown g w ip) := by
  unfold Ipacm.lastDown
  split
  · exact h.install (h.dft _ _ _ hR)
  · exact hR

theorem RouteKept.gatewayDown (h : RouteKept i R) (hR : R g) : R (Ipacm.gatewayDown g w ip android).1 := by
  have hdel : R (handleRouteDelEvt (delWanFirewallRule (g.setWanUp ip false) ip) w ip).1 := by
    refine routeSteps_handleRouteDelEvt.keeps h.route (routeSteps_delWan.keeps h.route ?_)
    exact h.route _ _ (.wanUp ip false) hR
  show R (if android then Ipacm.postAllDown (handleRouteDelEvt _ w ip).1 ip else (handleRouteDelEvt _ w ip).1)
  split
  · exact h.postAllDown hdel
  · exact hdel

theorem KeptBy.handleDownEvtEx (h : KeptBy i R) (hR : R g) : R (Ipacm.handleDownEvtEx g w android) := by
  rcases htype : w.ipType with _ | _ | _ | _
  · rw [Ipacm.handleDownEvtEx, htype]
    exact hR
  · rw [Ipacm.handleDownEvtEx, htype]
    refine h.lastDown ?_
    split
    · exact h.install (h.gatewayDown (h.countDown hR))
    · exact h.countDown hR
  · rw [Ipacm.handleDownEvtEx, htype]
    refine h.lastDown ?_
    split
    · exact h.install (h.gatewayDown (h.countDown hR))
    · exact h.countDown hR
  rw [Ipacm.handleDownEvtEx, htype]
  refine h.lastDown (h.lastDown ?_)
  split
  · exact h.install (h.gatewayDown (h.gatewayDown (h.countDown (h.countDown hR))))
  · exact h.countDown (h.countDown hR)

theorem RouteKept.handleEvt {e : WanEvt} (h : RouteKept w.ifNum R) (he : ∀ i a, e ≠ .addrAdd i a) (hR : R g) :
    R (Ipacm.handleEvt android g w e).1 := by
  cases e with
  | wlanLinkDown | linkDown | cfgChange => exact hR
  | addrAdd i a => exact absurd rfl (he i a)
  | upstreamRouteAdd _ ip =>
    rw [Ipacm.handleEvt]
    split
    · split
      · dsimp only
        refine h.postUp ?_
        split
        · exact hR
        · exact routeSteps_handleRouteAddEvt.keeps h.route hR
      · exact hR
    · exact (routeSteps_giveUp ip).keeps h.route hR
  | upstreamRouteDel _ ip t =>
    rw [Ipacm.handleEvt]
    split
    · dsimp only
      have hdown : R (if android then postWanDownTetherEvt g ip t else g) := by
        split
        · exact h.postDown hR
        · exact hR
      generalize (if android then postWanDownTetherEvt g ip t else g) = g' at hdown ⊢
      split
      · exact hdown
      · exact routeSteps_cleanRoute.keeps h.route hdown
    · exact hR
  | routeAdd _ d =>
    rw [Ipacm.handleEvt]
    split
    · split
      · split
        · exact routeSteps_handleRouteAddEvt.keeps h.route hR
        · exact hR
      · exact (routeSteps_giveUp d.ip).keeps h.route hR
    · exact hR
  | routeDel =>
    rw [Ipacm.handleEvt]
    split
    · exact routeSteps_cleanRoute.keeps h.route hR
    · exact hR
  | neighClientIpAddrAdd =>
    rw [Ipacm.handleEvt]
    split
    · exact routeSteps_handleHeaderAddEvt.keeps h.route hR
    · exact hR

theorem KeptBy.handleEvt {e : WanEvt} (h : KeptBy w.ifNum R) (hR : R g) : R (Ipacm.handleEvt android g w e).1 := by
  by_cases he : ∀ i a, e ≠ .addrAdd i a
  · exact h.toRouteKept.handleEvt he hR
  push Not at he
  obtain ⟨i, a, rfl⟩ := he
  rw [Ipacm.handleEvt]
  split
  · exact h.handleAddrEvt hR
  · exact hR

theorem KeptBy.eventCallback {e : WanEvt} (h : KeptBy w.ifNum R) (hR : R g) : R (w.eventCallback android g e).1 := by
  unfold Wan.eventCallback
  split
  · show R (if w.mode = .q6Wan then Ipacm.handleDownEvtEx g w android else handleDownEvt g w)
    split
    · exact h.handleDownEvtEx hR
    · exact routeSteps_handleDownEvt.keeps h.route hR
  · exact h.handleEvt hR

end

end G4Common.Ipacm

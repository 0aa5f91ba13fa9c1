/-
The events for a route that is added and a route that is deleted
(`ipa_nl_decode_nlmsg()` of `ipacm/src/IPACM_Netlink.cpp`).

The branches for `RTM_NEWROUTE` and `RTM_DELROUTE` are copies of each other with slips.  The
mask of a host route is set in the second branch only; the first one posts what an earlier
message of the datagram has left in the variable.  For a default route the address, which
the message does not have, is taken for both the address and the mask.  An IPv6 route with a
destination is posted as an IPv4 route in the first part; in the second part its mask is
built for lengths that are multiples of four, and then swapped; the branch for deletions puts
the last part of the mask into the first word; a route with a gateway is posted a second
time, and never deleted.

A route that is added and then deleted is the route of the message in both events if and
only if `DenotesRoute` holds (`routeEvents_iff`).  What freshly allocated memory holds is
not known, so an event that passes it on is not right.
-/
import G4Common.Ipacm.Netlink

namespace G4Common.Ipacm

open List Bool

/-! ### Routes -/

/-- What a listener tells routes apart by: interface, address and mask. -/
inductive RouteKey
  | v4 (ifIndex addr mask : UInt32)
  | v6 (ifIndex : UInt32) (addr mask : Ipv6Addr)

def DataAddr.route (d : DataAddr) : RouteKey :=
  match d.iptype with
  | .v4 => .v4 d.ifIndex d.ipv4Addr d.ipv4AddrMask
  | .v6 => .v6 d.ifIndex d.ipv6Addr d.ipv6AddrMask

/-- A word whose first `n` bits are set. -/
def topBits (n : ℕ) : UInt32 := UInt32.ofNat (2 ^ 32 - 2 ^ (32 - n))

/-- The mask of an IPv6 prefix. -/
def routeMask (n : ℕ) : Ipv6Addr := fun k => topBits (n - 32 * k.val)

/-- The route of a message, in host byte order; without a destination, the default route. -/
def NlRouteInfo.route (info : NlRouteInfo) : RouteKey :=
  if info.family = afInet6 then
    .v6 info.oifIndex (if info.hasDst then htonlAddr info.dstAddr.data else fun _ => 0)
      (routeMask info.dstLen)
  else
    .v4 info.oifIndex (if info.hasDst then htonl info.dstAddr.v4 else 0) (topBits info.dstLen)

/-! ### Events -/

def NlEvt.added : NlEvt → Option RouteKey
  | .routeAdd d => some d.route
  | _ => none

def NlEvt.deleted : NlEvt → Option RouteKey
  | .routeDel d => some d.route
  | _ => none

section

variable (env : NlEnv) (m : NlMem) (s : NlState) (buffer buflen : ℕ)

/-- The routes in the events for additions that a message posts. -/
def addedRoutes : List RouteKey :=
  ((rtmNewRoute env m s buffer buflen).1.posted.drop s.posted.length).filterMap NlEvt.added

/-- The routes in the events for deletions that a message posts. -/
def deletedRoutes : List RouteKey :=
  ((rtmDelRoute env m s buffer buflen).1.posted.drop s.posted.length).filterMap NlEvt.deleted

end

/-- Every event is about the route, and what has been added is deleted. -/
structure RoutesRight (adds dels : List RouteKey) (r : RouteKey) : Prop where
  added : ∀ k ∈ adds, k = r
  deleted : ∀ k ∈ dels, k = r
  same : ∀ k, k ∈ adds ↔ k ∈ dels

/-- The messages that are looked at: an IPv4 host route or default route, or an IPv6 route. -/
structure RouteAdmitted (info : NlRouteInfo) : Prop where
  part : info.isBoot = true ∨ info.isKernelV6 = true
  family : info.family = afInet ∨ info.family = afInet6
  v4 : info.family = afInet → info.dstLen = if info.hasDst then 32 else 0
  v6 : info.family = afInet6 → info.dstLen ≤ 128 ∧ (info.hasDst = false → info.dstLen = 0)

/-- The two messages say the same.  The address counts if it comes with the message. -/
structure SameContents (info info' : NlRouteInfo) : Prop where
  family : info'.family = info.family
  dstLen : info'.dstLen = info.dstLen
  table : info'.table = info.table
  protocol : info'.protocol = info.protocol
  scope : info'.scope = info.scope
  type : info'.type = info.type
  hasDst : info'.hasDst = info.hasDst
  hasGateway : info'.hasGateway = info.hasGateway
  oifIndex : info'.oifIndex = info.oifIndex
  dst : info.hasDst = true → info'.dstAddr.data = info.dstAddr.data

/-- When the events are right.  An IPv4 host route: an earlier message has left a full mask.  A
default route of the first part: no address is left from earlier messages.  An IPv6 route of
the second part: it is for one host, whose address is all ones if there is a gateway; or the
message has neither a destination nor a gateway, and nothing is posted. -/
def DenotesRoute (s : NlState) (info info' : NlRouteInfo) : Prop :=
  if info.family = afInet6 then
    if info.isBoot then
      info.hasDst = false ∧ (∀ k, info.dstAddr.data k = 0) ∧ ∀ k, info'.dstAddr.data k = 0
    else if info.hasDst then
      info.dstLen = 128 ∧ (info.hasGateway = true → ∀ k, info.dstAddr.data k = 0xffffffff)
    else info.hasGateway = false
  else if info.hasDst then s.ifIpv4AddrMask = 0xffffffff
  else info.dstAddr.v4 = 0 ∧ info'.dstAddr.v4 = 0

/-! ### What the two branches post -/

section

variable {env : NlEnv} {m : NlMem} {s : NlState} {buffer buflen : ℕ} {info : NlRouteInfo}

/-- The state behind the decoder. -/
def NlState.withRoute (s : NlState) (info : NlRouteInfo) (buffer : ℕ) : NlState :=
  { s with msg := { s.msg with route := info }, decoded := s.decoded ++ [buffer] }

section

variable (hinfo : ipaNlDecodeRtmRoute m buffer buflen s.msg.route = info)
include hinfo

theorem rtmNewRoute_boot (hboot : info.isBoot) (hkernel : info.isKernelV6 = false) :
    rtmNewRoute env m s buffer buflen = bootRouteAdd env (s.withRoute info buffer) info := by
  unfold rtmNewRoute
  simp only [hinfo, hboot, hkernel, if_true, false_eq_true, if_false, ite_self]
  rfl

theorem rtmNewRoute_kernel (hboot : info.isBoot = false) (hkernel : info.isKernelV6) :
    rtmNewRoute env m s buffer buflen = kernelRouteAdd env (s.withRoute info buffer) info := by
  unfold rtmNewRoute
  simp only [hinfo, hboot, hkernel, if_true, false_eq_true, if_false]
  rfl

theorem rtmDelRoute_boot (hboot : info.isBoot) (hkernel : info.isKernelV6 = false) :
    rtmDelRoute env m s buffer buflen = bootRouteDel env (s.withRoute info buffer) info := by
  unfold rtmDelRoute
  simp only [hinfo, hboot, hkernel, if_true, false_eq_true, if_false, ite_self]
  rfl

theorem rtmDelRoute_kernel (hboot : info.isBoot = false) (hkernel : info.isKernelV6) :
    rtmDelRoute env m s buffer buflen = kernelRouteDel env (s.withRoute info buffer) info := by
  unfold rtmDelRoute
  simp only [hinfo, hboot, hkernel, if_true, false_eq_true, if_false]
  rfl

end

theorem not_isKernelV6 (h : info.isBoot) : info.isKernelV6 = false := by
  unfold NlRouteInfo.isBoot at h
  unfold NlRouteInfo.isKernelV6
  obtain ⟨-, _, -, -⟩ := of_decide_eq_true h
  refine decide_eq_false fun hk => ?_
  obtain ⟨-, -, _, -⟩ := hk
  omega

section

variable (hinfo : ipaNlDecodeRtmRoute m buffer buflen s.msg.route = info)
include hinfo

theorem addedRoutes_boot (hboot : info.isBoot) (hname : env.hasName info.oifIndex) :
    addedRoutes env m s buffer buflen =
      if info.hasDst then [.v4 info.oifIndex (htonl info.dstAddr.v4) (htonl s.ifIpv4AddrMask)]
      else if info.family = afInet6 then
        [.v6 info.oifIndex (htonlAddr info.dstAddr.data) (htonlAddr info.dstAddr.data)]
      else [.v4 info.oifIndex (htonl info.dstAddr.v4) (htonl info.dstAddr.v4)] := by
  unfold addedRoutes
  rw [rtmNewRoute_boot hinfo hboot (not_isKernelV6 hboot)]
  unfold bootRouteAdd NlState.named
  rw [if_pos hname, if_pos hname]
  split
  · simp [NlState.post, NlState.withRoute, NlEvt.added, DataAddr.route, NlState.routeV4]
  · split
    · simp [NlState.post, NlState.withRoute, NlEvt.added, DataAddr.route, NlRouteInfo.defaultV6]
    · simp [NlState.post, NlState.withRoute, NlEvt.added, DataAddr.route, NlState.routeV4]

theorem deletedRoutes_boot (hboot : info.isBoot) (hname : env.hasName info.oifIndex) :
    deletedRoutes env m s buffer buflen =
      if info.hasDst then [.v4 info.oifIndex (htonl info.dstAddr.v4) (htonl 0xffffffff)]
      else if info.family = afInet6 then
        [.v6 info.oifIndex (htonlAddr info.dstAddr.data) (htonlAddr info.dstAddr.data)]
      else [.v4 info.oifIndex (htonl info.dstAddr.v4) (htonl info.dstAddr.v4)] := by
  unfold deletedRoutes
  rw [rtmDelRoute_boot hinfo hboot (not_isKernelV6 hboot)]
  unfold bootRouteDel NlState.named
  rw [if_pos hname, if_pos hname]
  split
  · simp [NlState.post, NlState.withRoute, NlEvt.deleted, DataAddr.route, NlState.routeV4]
  · split
    · simp [NlState.post, NlState.withRoute, NlEvt.deleted, DataAddr.route, NlRouteInfo.defaultV6]
    · simp [NlState.post, NlState.withRoute, NlEvt.deleted, DataAddr.route]

section

variable (hboot : info.isBoot = false) (hkernel : info.isKernelV6)
    (hname : env.hasName info.oifIndex)
include hboot hkernel hname

theorem addedRoutes_kernel :
    addedRoutes env m s buffer buflen =
      (if info.hasDst then [.v6 info.oifIndex (htonlAddr info.dstAddr.data)
        (htonlAddr (maskWords (fun i => i) info.dstLen env.fresh.ipv6AddrMask))] else []) ++
      if info.hasGateway then
        [.v6 info.oifIndex (htonlAddr info.dstAddr.data) (htonlAddr info.dstAddr.data)]
      else [] := by
  unfold addedRoutes
  rw [rtmNewRoute_kernel hinfo hboot hkernel]
  unfold kernelRouteAdd NlState.named
  rw [if_pos hname]
  split <;> split <;>
    simp [NlState.post, NlState.withRoute, NlEvt.added, DataAddr.route, NlRouteInfo.prefixV6, NlRouteInfo.defaultV6]

theorem deletedRoutes_kernel :
    deletedRoutes env m s buffer buflen =
      if info.hasDst then [.v6 info.oifIndex (htonlAddr info.dstAddr.data)
        (htonlAddr (maskWords (fun _ => 0) info.dstLen env.fresh.ipv6AddrMask))] else [] := by
  unfold deletedRoutes
  rw [rtmDelRoute_kernel hinfo hboot hkernel]
  unfold kernelRouteDel NlState.named
  rw [if_pos hname]
  split <;> simp [NlState.post, NlState.withRoute, NlEvt.deleted, DataAddr.route, NlRouteInfo.prefixV6]

end

end

end

/-! ### Masks -/

theorem htonl_inj {x y : UInt32} (h : htonl x = htonl y) : x = y := by
  have hswap := congrArg htonl h
  rwa [htonl_htonl, htonl_htonl] at hswap

theorem htonlAddr_const {x : UInt32} (h : htonl x = x) : (htonlAddr fun _ => x) = fun _ => x := funext fun _ => h

/-- One step of the loop over the words of a mask, where `n` bits are left. -/
def maskStep (place : ℕ → ℕ) (n : ℕ) (mask : Ipv6Addr) (i : ℕ) : Ipv6Addr :=
  if 32 ≤ n then setMaskWord mask i (some 0xffffffff) else setMaskWord mask (place i) (maskV6 n)

theorem maskWords_eq (place : ℕ → ℕ) (n : ℕ) (mask : Ipv6Addr) :
    maskWords place n mask = maskStep place (n - 96) (maskStep place (n - 64)
      (maskStep place (n - 32) (maskStep place n mask 0) 1) 2) 3 := by
  have hstep : ∀ (p i : ℕ) (mask : Ipv6Addr),
      (if 32 ≤ p then (p - 32, setMaskWord mask i (maskV6 32))
        else (0, setMaskWord mask (place i) (maskV6 p))) = (p - 32, maskStep place p mask i) := by
    intro p i _
    unfold maskStep
    by_cases h : 32 ≤ p
    · rw [if_pos h, if_pos h]
      rfl
    · rw [if_neg h, if_neg h, Nat.sub_eq_zero_of_le (Nat.le_of_not_le h)]
  have hrange : range 4 = [0, 1, 2, 3] := rfl
  unfold maskWords
  rw [hrange]
  simp only [foldl_cons, foldl_nil, hstep, Nat.sub_sub]

theorem maskWords_full (place : ℕ → ℕ) (mask : Ipv6Addr) : maskWords place 128 mask = fun _ => 0xffffffff := by
  rw [maskWords_eq]
  funext k
  fin_cases k <;> rfl

theorem maskWords_last {n : ℕ} (h : n < 128) (mask : Ipv6Addr) : maskWords (fun _ => 0) n mask 3 = mask 3 := by
  have hkeep : ∀ (p i : ℕ) (mask : Ipv6Addr), i ≠ 3 ∨ p < 32 → maskStep (fun _ => 0) p mask i 3 = mask 3 := by
    intro p i _ hi
    unfold maskStep setMaskWord
    split_ifs with hp
    · exact if_neg fun heq => hi.elim (fun hne => hne heq.symm) (Nat.not_lt.mpr hp)
    · exact if_neg (show ¬ (3 : ℕ) = 0 by decide)
  rw [maskWords_eq, hkeep _ _ _ (.inr (by omega)), hkeep _ _ _ (.inl (by decide)),
    hkeep _ _ _ (.inl (by decide)), hkeep _ _ _ (.inl (by decide))]

theorem routeMask_full : routeMask 128 = fun _ => 0xffffffff := by
  funext k
  fin_cases k <;> rfl

theorem routeMask_zero : routeMask 0 = fun _ => 0 := by
  funext k
  fin_cases k <;> rfl

theorem maskWords_word (n : ℕ) (mask : Ipv6Addr) (k : Fin 4) : maskWords (fun i => i) n mask k =
      if 32 ≤ n - 32 * k.val then 0xffffffff else (maskV6 (n - 32 * k.val)).getD (mask k) := by
  have hstep : ∀ (p i : ℕ) (mask : Ipv6Addr), maskStep (fun i => i) p mask i k =
      if k.val = i then (if 32 ≤ p then 0xffffffff else (maskV6 p).getD (mask k)) else mask k := by
    intro p i _
    unfold maskStep setMaskWord
    split <;> rfl
  rw [maskWords_eq]
  simp only [hstep]
  -- the step with the number of the word sets it
  fin_cases k <;> rfl

/-! ### Both messages -/

section

variable {m m' : NlMem} {s s' : NlState} {buffer buflen buffer' buflen' : ℕ}
  {info info' : NlRouteInfo}

/-- The events for the messages are right, whatever new memory holds. -/
def EventsRight (m m' : NlMem) (s s' : NlState) (buffer buflen buffer' buflen' : ℕ)
    (info : NlRouteInfo) : Prop :=
  ∀ env env' : NlEnv, env.hasName info.oifIndex = true → env'.hasName info.oifIndex = true →
    RoutesRight (addedRoutes env m s buffer buflen) (deletedRoutes env' m' s' buffer' buflen')
      info.route

/-- New memory that holds the given words. -/
def junkEnv (w : UInt32) : NlEnv where
  hasName _ := true
  fresh := ⟨.v4, w, w, w, fun _ => w, fun _ => w⟩
  junk _ := 0

theorem routesRight_single {k k' r : RouteKey} : RoutesRight [k] [k'] r ↔ k = r ∧ k' = r := by
  constructor
  · rintro ⟨hadds, hdels, -⟩
    exact ⟨hadds k (mem_singleton_self k), hdels k' (mem_singleton_self k')⟩
  · rintro ⟨rfl, rfl⟩
    exact ⟨fun _ h => mem_singleton.mp h, fun _ h => mem_singleton.mp h, fun _ => Iff.rfl⟩

theorem htonl_eq_zero {x : UInt32} : htonl x = 0 ↔ x = 0 :=
  ⟨fun h => htonl_inj (y := 0) h, fun h => (congrArg htonl h).trans (by decide)⟩

theorem htonl_eq_full {x : UInt32} : htonl x = 0xffffffff ↔ x = 0xffffffff :=
  ⟨fun h => htonl_inj (y := 0xffffffff) h, fun h => (congrArg htonl h).trans (by decide)⟩

theorem htonlAddr_eq_zero {x : Ipv6Addr} : htonlAddr x = (fun _ => 0) ↔ ∀ k, x k = 0 :=
  ⟨fun h k => htonl_eq_zero.mp (congrFun h k), fun h => funext fun k => htonl_eq_zero.mpr (h k)⟩

theorem htonlAddr_eq_full {x : Ipv6Addr} : htonlAddr x = (fun _ => 0xffffffff) ↔ ∀ k, x k = 0xffffffff :=
  ⟨fun h k => htonl_eq_full.mp (congrFun h k), fun h => funext fun k => htonl_eq_full.mpr (h k)⟩

section

variable (hinfo : ipaNlDecodeRtmRoute m buffer buflen s.msg.route = info)
    (hinfo' : ipaNlDecodeRtmRoute m' buffer' buflen' s'.msg.route = info')
    (hadm : RouteAdmitted info) (hsame : SameContents info info') (hboot : info.isBoot = true)
    (hboot' : info'.isBoot = true)
include hinfo hinfo' hadm hsame hboot hboot'

theorem eventsRight_bootV6 (hfam : info.family = afInet6) :
    EventsRight m m' s s' buffer buflen buffer' buflen' info ↔
      info.hasDst = false ∧ (∀ k, info.dstAddr.data k = 0) ∧ ∀ k, info'.dstAddr.data k = 0 := by
  have hroute : info.hasDst = false → info.route = .v6 info.oifIndex (fun _ => 0) (fun _ => 0) := by
    intro hdst
    unfold NlRouteInfo.route
    rw [if_pos hfam, hdst, (hadm.v6 hfam).2 hdst, routeMask_zero]
    rfl
  constructor
  · intro hright
    have hnow := hright (junkEnv 0) (junkEnv 0) rfl rfl
    rw [addedRoutes_boot hinfo hboot rfl, deletedRoutes_boot hinfo' hboot' rfl, hsame.hasDst,
      hsame.family, if_pos hfam, if_pos hfam] at hnow
    cases hdst : info.hasDst with
    | true =>
      -- an IPv4 event for an IPv6 route
      rw [hdst, if_pos rfl, if_pos rfl] at hnow
      have hkey := (routesRight_single.mp hnow).1
      unfold NlRouteInfo.route at hkey
      rw [if_pos hfam] at hkey
      exact absurd hkey (by simp)
    | false =>
      rw [hdst, if_neg Bool.false_ne_true, if_neg Bool.false_ne_true, hroute hdst] at hnow
      obtain ⟨hadd, hdel⟩ := routesRight_single.mp hnow
      obtain ⟨-, haddr, -⟩ := RouteKey.v6.inj hadd
      obtain ⟨-, haddr', -⟩ := RouteKey.v6.inj hdel
      exact ⟨rfl, htonlAddr_eq_zero.mp haddr, htonlAddr_eq_zero.mp haddr'⟩
  rintro ⟨hdst, hzero, hzero'⟩ _ _ hname hname'
  rw [addedRoutes_boot hinfo hboot hname,
    deletedRoutes_boot hinfo' hboot' (hsame.oifIndex ▸ hname'), hsame.hasDst, hsame.family,
    if_pos hfam, if_pos hfam, hdst, if_neg Bool.false_ne_true, if_neg Bool.false_ne_true,
    htonlAddr_eq_zero.mpr hzero, htonlAddr_eq_zero.mpr hzero', hsame.oifIndex, hroute hdst]
  exact routesRight_single.mpr ⟨rfl, rfl⟩

theorem eventsRight_bootV4 (hfam : info.family = afInet) :
    EventsRight m m' s s' buffer buflen buffer' buflen' info ↔
      if info.hasDst then s.ifIpv4AddrMask = 0xffffffff
      else info.dstAddr.v4 = 0 ∧ info'.dstAddr.v4 = 0 := by
  have hnot : info.family ≠ afInet6 := by rw [hfam]; decide
  have hlen := hadm.v4 hfam
  cases hdst : info.hasDst with
  | true =>
    have hroute : info.route = .v4 info.oifIndex (htonl info.dstAddr.v4) 0xffffffff := by
      unfold NlRouteInfo.route
      rw [if_neg hnot, hlen, hdst]
      rfl
    have haddr : info'.dstAddr.v4 = info.dstAddr.v4 := congrFun (hsame.dst hdst) _
    rw [if_pos rfl]
    constructor
    · intro hright
      have hnow := hright (junkEnv 0) (junkEnv 0) rfl rfl
      rw [addedRoutes_boot hinfo hboot rfl, deletedRoutes_boot hinfo' hboot' rfl, hsame.hasDst,
        hdst, if_pos rfl, if_pos rfl, hroute] at hnow
      obtain ⟨-, -, hmask⟩ := RouteKey.v4.inj (routesRight_single.mp hnow).1
      exact htonl_eq_full.mp hmask
    intro hmask _ _ hname hname'
    rw [addedRoutes_boot hinfo hboot hname,
      deletedRoutes_boot hinfo' hboot' (hsame.oifIndex ▸ hname'), hsame.hasDst, hdst, if_pos rfl,
      if_pos rfl, hmask, haddr, hsame.oifIndex, hroute]
    exact routesRight_single.mpr ⟨rfl, rfl⟩
  | false =>
    have hroute : info.route = .v4 info.oifIndex 0 0 := by
      unfold NlRouteInfo.route
      rw [if_neg hnot, hlen, hdst]
      rfl
    rw [if_neg Bool.false_ne_true]
    constructor
    · intro hright
      have hnow := hright (junkEnv 0) (junkEnv 0) rfl rfl
      rw [addedRoutes_boot hinfo hboot rfl, deletedRoutes_boot hinfo' hboot' rfl, hsame.hasDst,
        hsame.family, hdst, if_neg Bool.false_ne_true, if_neg Bool.false_ne_true, if_neg hnot,
        if_neg hnot, hroute] at hnow
      obtain ⟨hadd, hdel⟩ := routesRight_single.mp hnow
      exact ⟨htonl_eq_zero.mp (RouteKey.v4.inj hadd).2.1, htonl_eq_zero.mp (RouteKey.v4.inj hdel).2.1⟩
    rintro ⟨hzero, hzero'⟩ _ _ hname hname'
    rw [addedRoutes_boot hinfo hboot hname,
      deletedRoutes_boot hinfo' hboot' (hsame.oifIndex ▸ hname'), hsame.hasDst, hsame.family,
      hdst, if_neg Bool.false_ne_true, if_neg Bool.false_ne_true, if_neg hnot, if_neg hnot, hzero,
      hzero', hsame.oifIndex, hroute]
    exact routesRight_single.mpr ⟨rfl, rfl⟩

end

theorem eq_full_of_maskWords {len : ℕ} (hle : len ≤ 128)
    (hmask : ∀ w, htonlAddr (maskWords (fun _ => 0) len fun _ => w) = routeMask len) : len = 128 := by
  by_contra hne
  have hlt : len < 128 := lt_of_le_of_ne hle hne
  have hword : ∀ w, htonl w = routeMask len 3 := by
    intro w
    have h3 := congrFun (hmask w) 3
    unfold htonlAddr at h3
    rwa [maskWords_last hlt] at h3
  exact absurd (htonl_inj ((hword 0).trans (hword 1).symm)) (by decide)

theorem eventsRight_kernel (hinfo : ipaNlDecodeRtmRoute m buffer buflen s.msg.route = info)
    (hinfo' : ipaNlDecodeRtmRoute m' buffer' buflen' s'.msg.route = info')
    (hadm : RouteAdmitted info) (hsame : SameContents info info') (hboot : info.isBoot = false)
    (hboot' : info'.isBoot = false) (hkernel : info.isKernelV6)
    (hkernel' : info'.isKernelV6) (hfam : info.family = afInet6) :
    EventsRight m m' s s' buffer buflen buffer' buflen' info ↔
      if info.hasDst then
        info.dstLen = 128 ∧ (info.hasGateway → ∀ k, info.dstAddr.data k = 0xffffffff)
      else info.hasGateway = false := by
  cases hdst : info.hasDst with
  | true =>
    have hroute : info.route
        = .v6 info.oifIndex (htonlAddr info.dstAddr.data) (routeMask info.dstLen) := by
      unfold NlRouteInfo.route
      rw [if_pos hfam, hdst]
      rfl
    have haddr := hsame.dst hdst
    rw [if_pos rfl]
    constructor
    · intro hright
      -- two contents of new memory give the same event
      have hmask : ∀ w, htonlAddr (maskWords (fun _ => 0) info.dstLen fun _ => w)
          = routeMask info.dstLen := by
        intro w
        have hnow := hright (junkEnv w) (junkEnv w) rfl rfl
        have hdel := hnow.deleted
        rw [deletedRoutes_kernel hinfo' hboot' hkernel' rfl, hsame.hasDst, hdst, if_pos rfl, hroute,
          hsame.dstLen] at hdel
        exact (RouteKey.v6.inj (hdel _ (mem_singleton_self _))).2.2
      have hlen := eq_full_of_maskWords (hadm.v6 hfam).1 hmask
      refine ⟨hlen, fun hgw => ?_⟩
      have hadd := (hright (junkEnv 0) (junkEnv 0) rfl rfl).added
      rw [addedRoutes_kernel hinfo hboot hkernel rfl, hgw, if_pos rfl, hroute, hlen,
        routeMask_full] at hadd
      have hkey := hadd _ (mem_append_right _ (mem_singleton_self _))
      exact htonlAddr_eq_full.mp (RouteKey.v6.inj hkey).2.2
    rintro ⟨hlen, hgw⟩ _ env' hname hname'
    rw [addedRoutes_kernel hinfo hboot hkernel hname,
      deletedRoutes_kernel hinfo' hboot' hkernel' (hsame.oifIndex ▸ hname'), hsame.hasDst, hdst,
      if_pos rfl, if_pos rfl, hroute, hsame.dstLen, hlen, maskWords_full, maskWords_full,
      htonlAddr_const rfl, routeMask_full, haddr, hsame.oifIndex]
    -- with a gateway the address is posted once more, as a mask
    cases hcase : info.hasGateway with
    | false =>
      rw [if_neg Bool.false_ne_true]
      exact routesRight_single.mpr ⟨rfl, rfl⟩
    | true =>
      rw [if_pos rfl, htonlAddr_eq_full.mpr (hgw hcase)]
      exact ⟨by simp, by simp, by simp⟩
  | false =>
    rw [if_neg Bool.false_ne_true]
    -- no event for a default route that is deleted
    have hdels : ∀ env', env'.hasName info.oifIndex = true →
        deletedRoutes env' m' s' buffer' buflen' = [] := by
      intro env' hname'
      rw [deletedRoutes_kernel hinfo' hboot' hkernel' (hsame.oifIndex ▸ hname'), hsame.hasDst, hdst]
      rfl
    constructor
    · intro hright
      by_contra hgw
      have hsets := (hright (junkEnv 0) (junkEnv 0) rfl rfl).same
      rw [addedRoutes_kernel hinfo hboot hkernel rfl, hdels _ rfl, hdst,
        if_pos ((not_eq_false _).mp hgw)] at hsets
      exact absurd ((hsets _).mp (mem_singleton_self _)) not_mem_nil
    · intro hgw _ env' hname hname'
      rw [addedRoutes_kernel hinfo hboot hkernel hname, hdels env' hname', hdst, hgw]
      exact ⟨by simp, by simp, by simp⟩

end

/-- **The events for a route that is added and deleted** are both about that route if and only
if `DenotesRoute` holds. -/
theorem routeEvents_iff (m m' : NlMem) (s s' : NlState) (buffer buflen buffer' buflen' : ℕ)
    (hadm : RouteAdmitted (ipaNlDecodeRtmRoute m buffer buflen s.msg.route))
    (hsame : SameContents (ipaNlDecodeRtmRoute m buffer buflen s.msg.route)
      (ipaNlDecodeRtmRoute m' buffer' buflen' s'.msg.route)) :
    EventsRight m m' s s' buffer buflen buffer' buflen' (ipaNlDecodeRtmRoute m buffer buflen s.msg.route) ↔
      DenotesRoute s (ipaNlDecodeRtmRoute m buffer buflen s.msg.route)
        (ipaNlDecodeRtmRoute m' buffer' buflen' s'.msg.route) := by
  generalize hinfo : ipaNlDecodeRtmRoute m buffer buflen s.msg.route = info at hadm hsame ⊢
  generalize hinfo' : ipaNlDecodeRtmRoute m' buffer' buflen' s'.msg.route = info' at hsame ⊢
  have hboot' : info'.isBoot = info.isBoot := by
    unfold NlRouteInfo.isBoot
    rw [hsame.type, hsame.protocol, hsame.scope, hsame.table]
  have hkernel' : info'.isKernelV6 = info.isKernelV6 := by
    unfold NlRouteInfo.isKernelV6
    rw [hsame.family, hsame.type, hsame.protocol, hsame.table]
  unfold DenotesRoute
  cases hboot : info.isBoot with
  | true =>
    rcases hadm.family with hfam | hfam
    · rw [if_neg (by rw [hfam]; decide)]
      exact eventsRight_bootV4 hinfo hinfo' hadm hsame hboot (hboot'.trans hboot) hfam
    · rw [if_pos hfam, if_pos rfl]
      exact eventsRight_bootV6 hinfo hinfo' hadm hsame hboot (hboot'.trans hboot) hfam
  | false =>
    have hkernel : info.isKernelV6 = true := hadm.part.resolve_left (by rw [hboot]; exact false_ne_true)
    have hfam : info.family = afInet6 := by
      unfold NlRouteInfo.isKernelV6 at hkernel
      exact (of_decide_eq_true hkernel).1
    rw [if_pos hfam, if_neg Bool.false_ne_true]
    exact eventsRight_kernel hinfo hinfo' hadm hsame hboot (hboot'.trans hboot) hkernel
      (hkernel'.trans hkernel) hfam

/-! ### A host route and a default route -/

/-- A header and the `rtmsg` of a route of the first part, for IPv4. -/
def routeMsgBytes (dstLen : UInt8) : List UInt8 :=
  replicate 16 0 ++ [2, dstLen, 0, 0, 254, 3, 0, 1, 0, 0, 0, 0]

/-- `RTA_DST` for the address 192.168.1.5, and `RTA_OIF` for interface 3. -/
def hostRouteBytes : List UInt8 :=
  routeMsgBytes 32 ++ [8, 0, 1, 0, 192, 168, 1, 5] ++ [8, 0, 4, 0, 3, 0, 0, 0]

/-- `RTA_OIF` for interface 3. -/
def defaultRouteBytes : List UInt8 := routeMsgBytes 0 ++ [8, 0, 4, 0, 3, 0, 0, 0]

/-- A message at the start of the buffer. -/
def routeMem (bytes : List UInt8) : NlMem := nlBuffer (junkEnv 0) bytes

/-- What is decoded from the message of a default route. -/
def defaultRouteInfo : NlRouteInfo := ⟨2, 0, 254, 3, 0, 1, false, false, NlSockAddr.zero, 3⟩

set_option maxRecDepth 4000 in
/-- A default route is added and deleted, each in a datagram of its own. -/
theorem routeEvents_sample :
    EventsRight (routeMem defaultRouteBytes) (routeMem defaultRouteBytes) NlState.init NlState.init
      0 36 0 36 defaultRouteInfo :=
  (routeEvents_iff (routeMem defaultRouteBytes) (routeMem defaultRouteBytes) NlState.init NlState.init 0 36 0 36
    ⟨Or.inl rfl, Or.inl rfl, fun _ => rfl, nofun⟩
    ⟨rfl, rfl, rfl, rfl, rfl, rfl, rfl, rfl, rfl, fun _ => rfl⟩).mpr ⟨rfl, rfl⟩

set_option maxRecDepth 4000 in
/-- A host route: the mask of the addition is zero. -/
theorem routeEvents_fails :
    RouteAdmitted (ipaNlDecodeRtmRoute (routeMem hostRouteBytes) 0 44 NlState.init.msg.route) ∧
      ¬ EventsRight (routeMem hostRouteBytes) (routeMem hostRouteBytes) NlState.init NlState.init
        0 44 0 44 (ipaNlDecodeRtmRoute (routeMem hostRouteBytes) 0 44 NlState.init.msg.route) := by
  refine ⟨⟨Or.inl rfl, Or.inl rfl, fun _ => rfl, nofun⟩, fun hright => ?_⟩
  have hadd := (hright (junkEnv 0) (junkEnv 0) rfl rfl).added
  rw [addedRoutes_boot rfl rfl rfl] at hadd
  have hkey := hadd _ (mem_singleton_self _)
  exact absurd (RouteKey.v4.inj hkey).2.2 (by decide)

end G4Common.Ipacm

/-
The ethernet clients of an `IPACM_Lan` (`ipacm/inc/IPACM_Lan.h`,
`ipacm/src/IPACM_Lan.cpp`).

A client has a record in the array `eth_client`: its MAC and IP addresses, and the
handles of the headers and routing rules installed for it, one set of routing
handles for each property for sending.  The first `num_eth_client` records are in
use; what stands behind them is left from before.  When a client goes, the later
records move up, field by field.

The kernel gives a handle for each header and rule.  The handles come from a
supply.  A function returns `none` if the supply gives one that is 0 or in use,
which the kernel does not do.  Otherwise all calls succeed, as long as what is
deleted is there.  Not modelled: the content of headers and rules other than
addresses and headers, the names of headers, failures of `malloc()`, and the calls
to the NAT and to the resource manager.
-/
import G4Common.Ipacm.LanToLan
import G4Common.Lib.HdlTable
import Mathlib.Data.UInt

namespace G4Common.Ipacm

open Function List

/-! ### Data -/

/-- `ipa_ip_type`. -/
inductive IpType
  | v4
  | v6
  deriving DecidableEq, Repr

/-- `IPA_MAX_NUM_ETH_CLIENTS`. -/
def maxNumEthClients : ℕ := 15

def ipv6NumAddr : ℕ := 3

/-- `eth_client_rt_hdl`. -/
structure EthRtHdl where
  v4 : UInt32
  v6 : ℕ → UInt32
  v6Wan : ℕ → UInt32

/-- `ipa_eth_client`.  The routing handles are by property for sending. -/
structure EthClient where
  mac : MacAddr
  v4Addr : UInt32
  v6Addr : ℕ → Ipv6Addr
  hdrHdlV4 : UInt32
  hdrHdlV6 : UInt32
  routeRuleSetV4 : Bool
  routeRuleSetV6 : ℕ
  ipv4Set : Bool
  ipv6Set : ℕ
  ipv4HeaderSet : Bool
  ipv6HeaderSet : Bool
  ethRtHdl : ℕ → EthRtHdl

/-- A record as `calloc()` leaves it. -/
def EthClient.zero : EthClient :=
  ⟨0, 0, fun _ _ => 0, 0, 0, false, 0, false, 0, false, false, fun _ => ⟨0, fun _ => 0, fun _ => 0⟩⟩

/-- `ipacm_event_data_all`. -/
structure EthData where
  macAddr : MacAddr
  iptype : IpType
  ipv4Addr : UInt32
  ipv6Addr : Ipv6Addr

/-- A header in the kernel. -/
structure EthHdr where
  ip : IpType
  mac : MacAddr
  deriving DecidableEq, Repr

/-- A routing rule in the kernel, for a property for sending: for IPv4 in the LAN
table, for IPv6 in the LAN and in the WAN table, with the address it is for and
its header. -/
inductive RtRule
  | lanV4 (tx : ℕ) (dst : UInt32) (hdr : UInt32)
  | lanV6 (tx : ℕ) (dst : Ipv6Addr)
  | wanV6 (tx : ℕ) (dst : Ipv6Addr) (hdr : UInt32)

/-- The headers and routing rules of this interface in the kernel, and the number of
handles that were given. -/
structure EthKernel where
  hdrs : HdlTable UInt32 EthHdr
  rules : HdlTable (IpType × UInt32) RtRule
  call : ℕ

/-- What is fixed: the IP types of the properties for sending (`tx_prop` is null if
there are none), the IPv4 header of an ODU interface, the handles that the kernel
gives, and the interface itself. -/
structure EthEnv where
  tx : List IpType
  oduHdrV4 : Option UInt32
  supply : ℕ → UInt32
  pIface : ℕ

/-- The clients of the interface, with the kernel. -/
structure EthTable where
  ethClient : ℕ → EthClient
  numEthClient : ℕ
  kernel : EthKernel

namespace EthTable

def init : EthTable := ⟨fun _ => EthClient.zero, 0, ⟨.empty, .empty, 0⟩⟩

variable (s : EthTable)

def setClient (i : ℕ) (c : EthClient) : EthTable :=
  { s with ethClient := update s.ethClient i c }

def withKernel (k : EthKernel) : EthTable := { s with kernel := k }

end EthTable

/-! ### The kernel -/

section

variable (env : EthEnv) (k : EthKernel)

def addHeader (o : EthHdr) : Option (EthKernel × UInt32) :=
  let h := env.supply k.call
  if h = 0 then none
  else (k.hdrs.add h o).map fun t => ({ k with hdrs := t, call := k.call + 1 }, h)

def addRoutingRule (ip : IpType) (o : RtRule) : Option (EthKernel × UInt32) :=
  let h := env.supply k.call
  if h = 0 then none
  else (k.rules.add (ip, h) o).map fun t => ({ k with rules := t, call := k.call + 1 }, h)

def deleteHeaderHdl (h : UInt32) : EthKernel × Bool :=
  if h = 0 then (k, false)
  else ({ k with hdrs := (k.hdrs.del h).1 }, (k.hdrs.del h).2)

/-- `DeleteRoutingHdl()`.  It says yes even if the kernel has refused. -/
def deleteRoutingHdl (ip : IpType) (h : UInt32) : EthKernel :=
  if h = 0 then k else { k with rules := (k.rules.del (ip, h)).1 }

end

/-! ### Clients -/

section

variable (env : EthEnv) (s : EthTable)

/-- The properties for sending of an IP type, by index. -/
def EthEnv.txOf (ip : IpType) : List ℕ :=
  (range env.tx.length).filter fun j => env.tx[j]? = some ip

/-- The places of IPv6 routing handles, by property for sending and number of the
address, from address `lo` to address `hi`, in the order of the loops. -/
def EthEnv.v6Places (lo hi : ℕ) : List (ℕ × ℕ) :=
  (env.txOf .v6).flatMap fun j => (range' lo (hi - lo)).map fun n => (j, n)

def getEthClientIndex (mac : MacAddr) : Option ℕ :=
  (range s.numEthClient).find? fun i => (s.ethClient i).mac = mac

/-- The handles that `delete_eth_rtrules()` deletes, in its order. -/
def rtHdls (c : EthClient) : IpType → List UInt32
  | .v4 => if c.routeRuleSetV4 then (env.txOf .v4).map fun j => (c.ethRtHdl j).v4 else []
  | .v6 => (env.v6Places 0 c.routeRuleSetV6).flatMap fun x =>
      [(c.ethRtHdl x.1).v6 x.2, (c.ethRtHdl x.1).v6Wan x.2]

def deleteEthRtrules (i : ℕ) (ip : IpType) : EthTable :=
  let c := s.ethClient i
  let k := (rtHdls env c ip).foldl (fun k h => deleteRoutingHdl k ip h) s.kernel
  (s.withKernel k).setClient i (match ip with
    | .v4 => { c with routeRuleSetV4 := false }
    | .v6 => { c with routeRuleSetV6 := 0 })

/-- A full header for a new client, made from the first property of the IP type. -/
def addEthHdr (k : EthKernel) (c : EthClient) : IpType → Option (EthKernel × EthClient)
  | .v4 =>
    if .v4 ∈ env.tx then
      (addHeader env k ⟨.v4, c.mac⟩).map fun r =>
        (r.1, { c with hdrHdlV4 := r.2, ipv4HeaderSet := true })
    else some (k, c)
  | .v6 =>
    if .v6 ∈ env.tx then
      (addHeader env k ⟨.v6, c.mac⟩).map fun r =>
        (r.1, { c with hdrHdlV6 := r.2, ipv6HeaderSet := true })
    else some (k, c)

def handleEthHdrInit (mac : MacAddr) : Option (EthTable × Bool) :=
  match getEthClientIndex s mac with
  | some _ => some (s, false)
  | none =>
    if s.numEthClient ≥ maxNumEthClients then some (s, false)
    else
      let c := { s.ethClient s.numEthClient with mac := mac }
      if env.tx = [] then some (s.setClient s.numEthClient c, true)
      else do
        let r ← addEthHdr env s.kernel c .v4
        let r ← addEthHdr env r.1 r.2 .v6
        let c := { r.2 with
          routeRuleSetV4 := false, routeRuleSetV6 := 0, ipv4Set := false, ipv6Set := 0 }
        some ({ (s.withKernel r.1).setClient s.numEthClient c with
          numEthClient := s.numEthClient + 1 }, true)

def handleEthClientIpaddr (data : EthData) : EthTable × Bool :=
  match getEthClientIndex s data.macAddr with
  | none => (s, false)
  | some i =>
    let c := s.ethClient i
    match data.iptype with
    | .v4 =>
      if data.ipv4Addr ≠ 0 then
        if c.ipv4Set = false then
          (s.setClient i { c with v4Addr := data.ipv4Addr, ipv4Set := true }, true)
        else if data.ipv4Addr = c.v4Addr then (s, false)
        else
          let s := deleteEthRtrules env s i .v4
          (s.setClient i { s.ethClient i with
            routeRuleSetV4 := false, v4Addr := data.ipv4Addr }, true)
      else (s, false)
    | .v6 =>
      if data.ipv6Addr ≠ 0 then
        if c.ipv6Set < ipv6NumAddr then
          if ∃ j < c.ipv6Set, data.ipv6Addr = c.v6Addr j then (s, false)
          else
            (s.setClient i { c with
              v6Addr := update c.v6Addr c.ipv6Set data.ipv6Addr
              ipv6Set := c.ipv6Set + 1 }, true)
        else (s, false)
      else (s, true)

/-- Store an IPv4 routing handle. -/
def EthClient.setRtV4 (c : EthClient) (j : ℕ) (h : UInt32) : EthClient :=
  { c with ethRtHdl := update c.ethRtHdl j { c.ethRtHdl j with v4 := h } }

/-- Store a pair of IPv6 routing handles. -/
def EthClient.setRtV6 (c : EthClient) (x : ℕ × ℕ) (h hWan : UInt32) : EthClient :=
  { c with
    ethRtHdl := update c.ethRtHdl x.1 { c.ethRtHdl x.1 with
      v6 := update (c.ethRtHdl x.1).v6 x.2 h
      v6Wan := update (c.ethRtHdl x.1).v6Wan x.2 hWan } }

/-- The IPv4 rule for a client.  An ODU interface has a header of its own. -/
def EthEnv.ruleV4 (c : EthClient) (j : ℕ) : RtRule :=
  .lanV4 j c.v4Addr (env.oduHdrV4.getD c.hdrHdlV4)

/-- The loop of `handle_eth_client_route_rule()` for IPv4. -/
def addRtV4 : List ℕ → EthKernel → EthClient → Option (EthKernel × EthClient)
  | [], k, c => some (k, c)
  | j :: rest, k, c => do
    let r ← addRoutingRule env k .v4 (env.ruleV4 c j)
    addRtV4 rest r.1 (c.setRtV4 j r.2)

/-- The loops of `handle_eth_client_route_rule()` for IPv6.  The header that is set
for an ODU interface is overwritten. -/
def addRtV6 : List (ℕ × ℕ) → EthKernel → EthClient → Option (EthKernel × EthClient)
  | [], k, c => some (k, c)
  | x :: rest, k, c => do
    let r ← addRoutingRule env k .v6 (.lanV6 x.1 (c.v6Addr x.2))
    let r' ← addRoutingRule env r.1 .v6 (.wanV6 x.1 (c.v6Addr x.2) c.hdrHdlV6)
    addRtV6 rest r'.1 (c.setRtV6 x r.2 r'.2)

def handleEthClientRouteRule (mac : MacAddr) (ip : IpType) : Option EthTable :=
  if env.tx = [] then some s
  else
    match getEthClientIndex s mac with
    | none => some s
    | some i =>
      let c := s.ethClient i
      match ip with
      | .v4 =>
        if c.routeRuleSetV4 = false ∧ c.ipv4Set = true then
          (addRtV4 env (env.txOf .v4) s.kernel c).map fun r =>
            (s.withKernel r.1).setClient i { r.2 with routeRuleSetV4 := true }
        else some s
      | .v6 =>
        if c.routeRuleSetV6 < c.ipv6Set then
          (addRtV6 env (env.v6Places c.routeRuleSetV6 c.ipv6Set) s.kernel c).map fun r =>
            (s.withKernel r.1).setClient i { r.2 with routeRuleSetV6 := r.2.ipv6Set }
        else some s

/-- `post_lan2lan_client_disconnect_msg()`, with the events that are posted.  For
IPv6 the first word of the address is written four times, and the others stay 0. -/
def postLan2LanClientDisconnectMsg : IpType → List IpEvent
  | .v4 => (range s.numEthClient).flatMap fun i =>
      let c := s.ethClient i
      if c.ipv4Set then [.v4 (.clientDisconnect ⟨c.v4Addr, 0, env.pIface⟩)] else []
  | .v6 => (range s.numEthClient).flatMap fun i =>
      let c := s.ethClient i
      (range c.ipv6Set).map fun j =>
        .v6 (.clientDisconnect ⟨ipv6First (c.v6Addr j), 0, env.pIface⟩)

/-- `handle_lan_client_reset_rt()`, with the events that are posted. -/
def handleLanClientResetRt (ip : IpType) : EthTable × List IpEvent :=
  let s := (range s.numEthClient).foldl (fun s i => deleteEthRtrules env s i ip) s
  let reset (s : EthTable) (i : ℕ) : EthTable :=
    match ip with
    | .v4 => s.setClient i { s.ethClient i with ipv4Set := false }
    | .v6 => s.setClient i { s.ethClient i with ipv6Set := 0 }
  ((range s.numEthClient).foldl reset s, postLan2LanClientDisconnectMsg env s ip)

/-- Copy a record over another: the IPv6 addresses and routing handles that are in
use, and the rest as a whole. -/
def copyClient (dst src : EthClient) : EthClient :=
  { src with
    v6Addr := fun n => if n < src.ipv6Set then src.v6Addr n else dst.v6Addr n
    ethRtHdl := fun j =>
      if j < env.tx.length then
        { v4 := (src.ethRtHdl j).v4
          v6 := fun n =>
            if n < src.routeRuleSetV6 then (src.ethRtHdl j).v6 n else (dst.ethRtHdl j).v6 n
          v6Wan := fun n =>
            if n < src.routeRuleSetV6 then (src.ethRtHdl j).v6Wan n else (dst.ethRtHdl j).v6Wan n }
      else dst.ethRtHdl j }

/-- The last loop of `handle_eth_client_down_evt()`: `m` records from `i` on are
overwritten by the next one. -/
def shiftClients : ℕ → ℕ → (ℕ → EthClient) → ℕ → EthClient
  | 0, _, t => t
  | m + 1, i, t => shiftClients m (i + 1) (update t i (copyClient env (t i) (t (i + 1))))

def handleEthClientDownEvt (mac : MacAddr) : EthTable × Bool :=
  match getEthClientIndex s mac with
  | none => (s, true)
  | some i =>
    let s := deleteEthRtrules env (deleteEthRtrules env s i .v4) i .v6
    let c := s.ethClient i
    let r := if c.ipv4HeaderSet then deleteHeaderHdl s.kernel c.hdrHdlV4 else (s.kernel, true)
    if r.2 = false then (s.withKernel r.1, false)
    else
      let c := { c with ipv4HeaderSet := false }
      let r := if c.ipv6HeaderSet then deleteHeaderHdl r.1 c.hdrHdlV6 else (r.1, true)
      if r.2 = false then ((s.withKernel r.1).setClient i c, false)
      else
        let c := { c with
          ipv4Set := false, ipv6Set := 0, ipv6HeaderSet := false, routeRuleSetV4 := false,
          routeRuleSetV6 := 0 }
        let s := (s.withKernel r.1).setClient i c
        ({ s with
          ethClient := shiftClients env (s.numEthClient - 1 - i) i s.ethClient
          numEthClient := s.numEthClient - 1 }, true)

end

/-! ### Runs -/

/-- The calls. -/
inductive EthOp
  | hdrInit (mac : MacAddr)
  | ipaddr (data : EthData)
  | routeRule (mac : MacAddr) (ip : IpType)
  | resetRt (ip : IpType)
  | downEvt (mac : MacAddr)

def EthTable.step (env : EthEnv) (s : EthTable) : EthOp → Option EthTable
  | .hdrInit mac => (handleEthHdrInit env s mac).map Prod.fst
  | .ipaddr data => some (handleEthClientIpaddr env s data).1
  | .routeRule mac ip => handleEthClientRouteRule env s mac ip
  | .resetRt ip => some (handleLanClientResetRt env s ip).1
  | .downEvt mac => some (handleEthClientDownEvt env s mac).1

/-- The states of all runs. -/
inductive EthReach (env : EthEnv) : EthTable → Prop
  | start : EthReach env EthTable.init
  | step {s s' : EthTable} (op : EthOp) : EthReach env s → s.step env op = some s' →
      EthReach env s'

def EthTable.run (env : EthEnv) : List EthOp → EthTable → Option EthTable
  | [], s => some s
  | op :: rest, s => (s.step env op).bind (run env rest)

theorem EthReach.run {env : EthEnv} {s s' : EthTable} {ops : List EthOp} (h : EthReach env s)
    (hrun : EthTable.run env ops s = some s') : EthReach env s' := by
  induction ops generalizing s with
  | nil =>
    cases hrun
    exact h
  | cons op _ ih =>
    obtain ⟨_, h1, hrun⟩ := Option.bind_eq_some_iff.mp hrun
    exact ih (h.step op h1) hrun

/-- One property for sending for each IP type, and handles 1, 2 and so on. -/
def sampleEthEnv : EthEnv := ⟨[.v4, .v6], none, fun n => .ofNat (n + 1), 1⟩

end G4Common.Ipacm

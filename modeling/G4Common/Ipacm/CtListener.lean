/-
`IPACM_ConntrackListener` (`ipacm/inc/IPACM_ConntrackListener.h`,
`ipacm/src/IPACM_ConntrackListener.cpp`): events from the rest of the system
become operations of `NatApp`.

The handlers never look at what `nat_inst` returns or holds.  So a handler is
modelled by what it does to the members of the listener and the operations of
`nat_inst` that it calls, in order (`CtEvent.handle`).  `CtSys` runs the two
together.

Connection tracking delivers a message about a connection, with addresses and
ports of both directions, all in host order here.  `ProcessTCPorUDPMsg()` first
makes a rule of it (`parseRule`), then decides whether the rule belongs to the
cache, to the temporary entries or to nothing (`routeRule`, `staFilter`), and
only then looks whether the connection opens or closes.

`IPACM_Config` changes under the listener: an event that reads it carries the
values it finds.  `nat_inst` is not null.  `CT_OPT` is off, as in the default
build.
-/
import G4Common.Ipacm.NatApp

namespace G4Common.Ipacm

open IpaNat (ipprotoTcp ipprotoUdp)

/-! ### Data -/

def maxNatIfaces : ℕ := 50

def maxStaClntIfaces : ℕ := 10

/-- What the listener reads of `IPACM_Config`: the names of the NAT interfaces
and the private subnets, address and mask. -/
structure Config where
  natIfaces : List String
  privateSubnets : List (UInt32 × UInt32)
  deriving DecidableEq, Repr

def Config.isPrivateSubnet (c : Config) (ipAddr : UInt32) : Bool :=
  c.privateSubnets.any fun p => p.1 = p.2 &&& ipAddr

/-- The parts of `nf_conntrack` that identify a connection. -/
structure CtConn where
  origL4proto : UInt8
  replL4proto : UInt8
  origIpv4Src : UInt32
  origIpv4Dst : UInt32
  replIpv4Src : UInt32
  origPortSrc : UInt16
  origPortDst : UInt16
  replPortSrc : UInt16
  replPortDst : UInt16
  deriving DecidableEq, Repr

/-- `nf_conntrack_msg_type`. -/
inductive CtMsgType
  | unknown
  | new
  | update
  | destroy
  | error
  deriving DecidableEq, Repr

/-- `TCP_CONNTRACK_*`. -/
inductive TcpState
  | none
  | synSent
  | synRecv
  | established
  | finWait
  | closeWait
  | lastAck
  | timeWait
  | close
  | synSent2
  deriving DecidableEq, Repr

/-- A message about a connection. -/
structure CtMsg where
  conn : CtConn
  status : UInt32
  tcpState : TcpState
  type : CtMsgType
  deriving DecidableEq, Repr

def ipsSrcNat : UInt32 := 16

def ipsDstNat : UInt32 := 32

/-- The data of `IPA_NEIGH_CLIENT_IP_ADDR_ADD_EVENT`.  `ifname` is the name of the
interface, as the kernel tells it; `none` if the question fails. -/
structure NeighData where
  ipv4Addr : UInt32
  isIpv4 : Bool
  ifname : Option String
  deriving DecidableEq, Repr

/-- The members of class `IPACM_ConntrackListener`. -/
structure CtListener where
  wanUp : Bool
  wanIpaddr : UInt32
  isStaMode : Bool
  natIfaceIpv4Addr : List UInt32
  nonnatIfaceIpv4Addr : List UInt32
  staClntIpv4Addr : List UInt32
  staClntCnt : ℤ
  deriving DecidableEq, Repr

/-- `IPACM_ConntrackListener::IPACM_ConntrackListener()`.  The constructor leaves
`wan_ipaddr` and `isStaMode` as they come. -/
def CtListener.init (wanIpaddr : UInt32) (isStaMode : Bool) : CtListener where
  wanUp := false
  wanIpaddr := wanIpaddr
  isStaMode := isStaMode
  natIfaceIpv4Addr := List.replicate maxNatIfaces 0
  nonnatIfaceIpv4Addr := List.replicate maxNatIfaces 0
  staClntIpv4Addr := List.replicate maxStaClntIfaces 0
  staClntCnt := 0

namespace CtListener

variable (l : CtListener)

/-! ### Neighbours -/

/-- The end of `HandleNeighIpAddrAddEvt()`: the client is not on a NAT interface,
or the list of those is full. -/
def cacheNonnatIface (ip : UInt32) : CtListener × List AppOp :=
  match updateFirst (fun a => a = 0) (fun _ => ((), ip)) l.nonnatIfaceIpv4Addr with
  | none => (l, [])
  | some ((), addrs) => ({ l with nonnatIfaceIpv4Addr := addrs }, [.flushTempEntries ip false])

def handleNeighIpAddrAddEvt (config : Option Config) (data : NeighData) :
    CtListener × List AppOp :=
  if data.ipv4Addr = 0 ∨ data.isIpv4 = false then (l, [])
  else
    match config, data.ifname with
    | some config, some ifname =>
      -- `GetNatIfaces()` fails when there are none
      if config.natIfaces = [] then (l, [])
      else if ifname ∈ config.natIfaces then
        match updateFirst (fun a => a = data.ipv4Addr ∨ a = 0)
            (fun a => (decide (a = 0), data.ipv4Addr)) l.natIfaceIpv4Addr with
        | none => l.cacheNonnatIface data.ipv4Addr
        | some (true, addrs) =>
          ({ l with natIfaceIpv4Addr := addrs },
            [.resetPwrSaveIf data.ipv4Addr, .flushTempEntries data.ipv4Addr true])
        -- a duplicate
        | some (false, _) => (l, [])
      else l.cacheNonnatIface data.ipv4Addr
    | _, _ => (l, [])

def handleNeighIpAddrDelEvt (ip : UInt32) : CtListener × List AppOp :=
  if ip = 0 then (l, [])
  else
    ({ l with
      natIfaceIpv4Addr := l.natIfaceIpv4Addr.map fun a => if a = ip then 0 else a
      nonnatIfaceIpv4Addr := l.nonnatIfaceIpv4Addr.map fun a => if a = ip then 0 else a },
      [.flushTempEntries ip false, .delEntriesOnClntDiscon ip])

/-! ### The WAN interface -/

/-- `IPA_HANDLE_WAN_UP` and `TriggerWANUp()`. -/
def triggerWANUp (ipv4Addr : UInt32) (isSta : Bool) : CtListener × List AppOp :=
  if l.wanUp = true ∨ ipv4Addr = 0 then (l, [])
  else ({ l with wanUp := true, isStaMode := isSta, wanIpaddr := ipv4Addr }, [.addTable ipv4Addr])

/-- `IPA_HANDLE_WAN_DOWN` and `TriggerWANDown()`. -/
def triggerWANDown (wanAddr : UInt32) : CtListener × List AppOp :=
  if l.wanUp = true then ({ l with wanUp := false }, [.deleteTable wanAddr]) else (l, [])

/-! ### Clients in STA mode -/

def handleSTAClientAddEvt (ip : UInt32) : CtListener :=
  if l.staClntCnt ≥ maxStaClntIfaces then l
  else
    match updateFirst (fun a => a ≠ 0 ∧ a = ip ∨ a = 0) (fun a => (decide (a = 0), ip))
        l.staClntIpv4Addr with
    | some (true, addrs) => { l with staClntIpv4Addr := addrs, staClntCnt := l.staClntCnt + 1 }
    | _ => l

def handleSTAClientDelEvt (ip : UInt32) : CtListener × List AppOp :=
  match updateFirst (fun a => a ≠ 0 ∧ a = ip) (fun _ => ((), 0)) l.staClntIpv4Addr with
  | none => (l, [])
  | some ((), addrs) =>
    ({ l with staClntIpv4Addr := addrs, staClntCnt := l.staClntCnt - 1 }, [.delEntriesOnSTAClntDiscon ip])

/-! ### Connection tracking -/

/-- The direction of the translation, and the public address: from the flags of
the connection (destination first), else by comparison with the address of the
WAN interface.  `true` is `IPS_DST_NAT`.  The address is cut to 16 bits. -/
def natDirection (msg : CtMsg) : Option (Bool × UInt16) :=
  if msg.status &&& ipsDstNat ≠ 0 then some (true, 0)
  else if msg.status &&& ipsSrcNat ≠ 0 then some (false, 0)
  else if msg.conn.origIpv4Src = 0 then none
  else if msg.conn.origIpv4Dst = 0 then none
  else if msg.conn.origIpv4Src = l.wanIpaddr then some (false, l.wanIpaddr.toUInt16)
  else if msg.conn.origIpv4Dst = l.wanIpaddr then some (true, l.wanIpaddr.toUInt16)
  else none

/-- The rule for a connection, as far as the message determines it. -/
def parseRule (msg : CtMsg) : Option NatTableEntry :=
  (l.natDirection msg).map fun (dstNat, publicIp) =>
    let conn := msg.conn
    let rule : NatTableEntry :=
      { (default : NatTableEntry) with protocol := conn.replL4proto, publicIp := publicIp }
    if dstNat then
      { rule with
        dstNat := true
        targetIp := conn.origIpv4Src
        targetPort := conn.origPortSrc
        publicPort := conn.origPortDst
        privateIp := conn.replIpv4Src
        privatePort := conn.replPortSrc }
    else
      { rule with
        dstNat := false
        targetIp := conn.origIpv4Dst
        targetPort := conn.origPortDst
        publicPort := conn.replPortDst
        privateIp := conn.origIpv4Src
        privatePort := conn.origPortSrc }

/-- One side of the rule is a client on a NAT interface. -/
def natIfaceMatch (rule : NatTableEntry) : Bool :=
  l.natIfaceIpv4Addr.any fun a => a ≠ 0 ∧ (rule.privateIp = a ∨ rule.targetIp = a)

/-- Where the rule belongs; `true` is `isTempEntry`, `none` is `IGNORE`.  A
connection of the device itself gets its public port as private port. -/
def routeRule (config : Option Config) (rule : NatTableEntry) : Option (NatTableEntry × Bool) :=
  if rule.privateIp ≠ l.wanIpaddr then
    if l.natIfaceMatch rule then some (rule, false)
    else
      match config with
      | none => none
      | some config =>
        if config.isPrivateSubnet rule.privateIp ∨ config.isPrivateSubnet rule.targetIp then
          some (rule, true)
        else none
  else if l.isStaMode then none
  else some ({ rule with privatePort := rule.publicPort }, false)

/-- In STA mode, a target in the subnet of the STA clients must be one of
them. -/
def staFilter (rule : NatTableEntry) : Bool :=
  l.isStaMode = false ∨ l.staClntCnt = 0 ∨
    l.staClntIpv4Addr.headD 0 &&& 0xFFFFFF00 ≠ rule.targetIp &&& 0xFFFFFF00 ∨
    (l.staClntIpv4Addr.take l.staClntCnt.toNat).any fun a => rule.targetIp = a

/-- The rule of a message and `isTempEntry`, at label `ADD`. -/
def ctRule (config : Option Config) (msg : CtMsg) : Option (NatTableEntry × Bool) := do
  let rule ← l.parseRule msg
  let (rule, isTempEntry) ← l.routeRule config rule
  if l.staFilter rule then some (rule, isTempEntry) else none

/-- The connection has come up. -/
def storeOp (rule : NatTableEntry) (isTempEntry : Bool) : AppOp :=
  if l.wanUp = false then .cacheEntry rule
  else if isTempEntry then .addTempEntry rule
  else .addEntry rule

/-- The connection has closed. -/
def removeOp (rule : NatTableEntry) (isTempEntry : Bool) : AppOp :=
  if isTempEntry then .deleteTempEntry rule else .deleteEntry rule

def processTCPorUDPMsg (config : Option Config) (msg : CtMsg) : List AppOp :=
  match l.ctRule config msg with
  | none => []
  | some (rule, isTempEntry) =>
    if rule.protocol = ipprotoTcp then
      if msg.tcpState = .established then [l.storeOp rule isTempEntry]
      else if msg.tcpState = .finWait ∨ msg.type = .destroy then [removeOp rule isTempEntry]
      else []
    else if rule.protocol = ipprotoUdp then
      if msg.type = .new then [l.storeOp rule isTempEntry]
      else if msg.type = .destroy then [removeOp rule isTempEntry]
      else []
    else []

def processCTMessage (config : Option Config) (msg : CtMsg) : List AppOp :=
  if msg.conn.origL4proto ≠ ipprotoUdp ∧ msg.conn.origL4proto ≠ ipprotoTcp then []
  else l.processTCPorUDPMsg config msg

end CtListener

/-! ### The system -/

/-- The events.  The last two are the calls that `IPACM_Wlan` makes on `NatApp` when
a client enters and leaves power save. -/
inductive CtEvent
  | wanUp (ipv4Addr : UInt32) (isSta : Bool)
  | wanDown (ipv4Addr : UInt32)
  | neighAdd (config : Option Config) (data : NeighData)
  | neighDel (ip : UInt32)
  | staClientAdd (ip : UInt32)
  | staClientDel (ip : UInt32)
  | ctMessage (config : Option Config) (msg : CtMsg)
  | pwrSaveStart (ip : UInt32)
  | pwrSaveEnd (ip : UInt32)
  deriving DecidableEq, Repr

/-- What an event does to the listener, and the operations it calls. -/
def CtEvent.handle (l : CtListener) : CtEvent → CtListener × List AppOp
  | .wanUp ipv4Addr isSta => l.triggerWANUp ipv4Addr isSta
  | .wanDown ipv4Addr => l.triggerWANDown ipv4Addr
  | .neighAdd config data => l.handleNeighIpAddrAddEvt config data
  | .neighDel ip => l.handleNeighIpAddrDelEvt ip
  | .staClientAdd ip => (l.handleSTAClientAddEvt ip, [])
  | .staClientDel ip => l.handleSTAClientDelEvt ip
  | .ctMessage config msg => (l, l.processCTMessage config msg)
  | .pwrSaveStart ip => (l, [.updatePwrSaveIf ip])
  | .pwrSaveEnd ip => (l, [.resetPwrSaveIf ip])

/-- The listener, `NatApp` and the driver. -/
structure CtSys (σ : Type) where
  ct : CtListener
  nat : AppState σ

def CtSys.step {σ : Type} (d : NatDriver σ) (S : CtSys σ) (ev : CtEvent) : CtSys σ :=
  ⟨(ev.handle S.ct).1, (ev.handle S.ct).2.foldl (AppOp.run d) S.nat⟩

end G4Common.Ipacm

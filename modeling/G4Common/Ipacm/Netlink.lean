/-
Datagrams of the routing socket (`ipacm/src/IPACM_Netlink.cpp`).

`ipa_nl_recv_msg()` receives a datagram into a new buffer and clears one record of type
`ipa_nl_msg_t`; `ipa_nl_decode_nlmsg()` goes through the messages, has each decoded into the
record and posts events from it.  The pointer to the message, `nlh`, is advanced, but the
decoders are given `buffer`, the start of the datagram, and the length from `nlh` on.

The buffer is read as memory from its start: the bytes of the datagram, and after them what
the buffer held before.  Words are little-endian.  What the kernel says about the name of an
interface and what a new `ipacm_event_data_addr` holds are parameters.  Allocations succeed.

Not modelled: log messages, the type and the flag that the record keeps for no one, and the
attributes that are only logged (source, gateway address, input interface, priority).
-/
import G4Common.Ipacm.Firewall
import G4Common.Lib.Tlv

namespace G4Common.Ipacm

open Tlv

/-! ### Memory -/

/-- Bytes, by their place from the start of the buffer. -/
abbrev NlMem := ℕ → UInt8

def leU16 (m : NlMem) (i : ℕ) : ℕ := (m i).toNat + (m (i + 1)).toNat * 256

def leU32 (m : NlMem) (i : ℕ) : ℕ := leU16 m i + leU16 m (i + 2) * 65536

/-- The four words that are copied for an address. -/
def addrWords (m : NlMem) (i : ℕ) : Ipv6Addr := fun k => UInt32.ofNat (leU32 m (i + 4 * k))

/-- The six bytes that are copied for a MAC address. -/
def macBytes (m : NlMem) (i : ℕ) : MacAddr :=
  BitVec.ofNat 48 ((List.range 6).foldl (fun n k => n * 256 + (m (i + k)).toNat) 0)

/-! ### Data -/

/-- The types of the messages that are decoded. -/
inductive RtmType
  | newLink | delLink | newAddr | newRoute | delRoute | newNeigh | delNeigh
  deriving DecidableEq, Repr

def RtmType.ofCode : ℕ → Option RtmType
  | 16 => some .newLink
  | 17 => some .delLink
  | 20 => some .newAddr
  | 24 => some .newRoute
  | 25 => some .delRoute
  | 28 => some .newNeigh
  | 29 => some .delNeigh
  | _ => none

/-- The size of the structure that follows the header: `ifinfomsg`, `ifaddrmsg`, `rtmsg` or
`ndmsg`. -/
def RtmType.metaLen : RtmType → ℕ
  | .newLink | .delLink => 16
  | .newAddr => 8
  | _ => 12

def afInet : ℕ := 2

def afBridge : ℕ := 7

def afInet6 : ℕ := 10

/-- `sizeof(struct nlmsghdr)`. -/
def nlmsgHdrLen : ℕ := 16

def rtattrLen : ℕ := 4

def nlMsgMaxLen : ℕ := 2048

/-- A `sockaddr_storage`, with the words of it that are copied to events. -/
structure NlSockAddr where
  family : ℕ
  data : Ipv6Addr

def NlSockAddr.zero : NlSockAddr := ⟨0, fun _ => 0⟩

theorem v4_word : 0 < 4 := by
  decide

/-- `IPACM_EVENT_COPY_ADDR_v4`. -/
def NlSockAddr.v4 (a : NlSockAddr) : UInt32 := a.data ⟨0, v4_word⟩

structure NlLinkInfo where
  family : ℕ
  index : UInt32
  flags : ℕ
  change : ℕ

structure NlAddrInfo where
  family : ℕ
  index : UInt32
  prefixAddr : NlSockAddr

structure NlNeighInfo where
  family : ℕ
  index : UInt32
  localAddr : NlSockAddr
  lladdr : MacAddr

/-- `hasDst` and `hasGateway` are the bits of `param_mask` that are looked at. -/
structure NlRouteInfo where
  family : ℕ
  dstLen : ℕ
  table : ℕ
  protocol : ℕ
  scope : ℕ
  type : ℕ
  hasDst : Bool
  hasGateway : Bool
  dstAddr : NlSockAddr
  oifIndex : UInt32

/-- `ipa_nl_msg_t`. -/
structure NlMsg where
  link : NlLinkInfo
  addr : NlAddrInfo
  neigh : NlNeighInfo
  route : NlRouteInfo

/-- The record after `memset()`. -/
def NlMsg.zero : NlMsg where
  link := ⟨0, 0, 0, 0⟩
  addr := ⟨0, 0, NlSockAddr.zero⟩
  neigh := ⟨0, 0, NlSockAddr.zero, 0⟩
  route := ⟨0, 0, 0, 0, 0, 0, false, false, NlSockAddr.zero, 0⟩

/-- `ipacm_event_data_addr`. -/
structure DataAddr where
  iptype : IpType
  ifIndex : UInt32
  ipv4Addr : UInt32
  ipv4AddrMask : UInt32
  ipv6Addr : Ipv6Addr
  ipv6AddrMask : Ipv6Addr

/-- `ipacm_event_data_all`. -/
structure DataAll where
  iptype : IpType
  ifIndex : UInt32
  ipv4Addr : UInt32
  ipv6Addr : Ipv6Addr
  macAddr : MacAddr

inductive NlEvt
  | linkUp (ifIndex : UInt32)
  | linkDown (ifIndex : UInt32)
  | usbLinkUp (ifIndex : UInt32)
  | addrAdd (d : DataAddr)
  | routeAdd (d : DataAddr)
  | routeDel (d : DataAddr)
  | newNeigh (d : DataAll)
  | delNeigh (d : DataAll)

/-- What the code finds outside. -/
structure NlEnv where
  /-- `ipa_get_if_name()` succeeds. -/
  hasName : UInt32 → Bool
  /-- What a new `ipacm_event_data_addr` holds. -/
  fresh : DataAddr
  /-- What the buffer holds behind the datagram. -/
  junk : ℕ → UInt8

/-- The record, the variables of the loop that outlive a message, the events that have been
posted, and the places in the buffer where messages have been decoded. -/
structure NlState where
  msg : NlMsg
  ifIpv4Addr : UInt32
  ifIpv4AddrMask : UInt32
  posted : List NlEvt
  decoded : List ℕ

def NlState.init : NlState := ⟨NlMsg.zero, 0, 0, [], []⟩

/-! ### Decoders -/

section

variable (m : NlMem) (buffer buflen : ℕ)

/-- The attributes from `off` on.  `f` gets the type of each and the place of its data. -/
def nlAttrs {α : Type} (f : α → ℕ → ℕ → α) (off len : ℕ) (a : α) : α :=
  walkRecords rtattrLen (leU16 m) (fun a off _ => (f a (leU16 m (off + 2)) (off + rtattrLen), false)) len off len a

def ipaNlDecodeRtmLink : NlLinkInfo :=
  let d := buffer + nlmsgHdrLen
  ⟨(m d).toNat, UInt32.ofNat (leU32 m (d + 4)), leU32 m (d + 8), leU32 m (d + 12)⟩

/-- `ipa_nl_decode_rtm_addr()`.  The size of `ifaddrmsg` is not taken off the length. -/
def ipaNlDecodeRtmAddr (info : NlAddrInfo) : NlAddrInfo :=
  let d := buffer + nlmsgHdrLen
  let info := { info with family := (m d).toNat, index := UInt32.ofNat (leU32 m (d + 4)) }
  nlAttrs m (fun info type data =>
    if type = 1 then { info with prefixAddr := ⟨info.family, addrWords m data⟩ } else info)
    (d + 8) (buflen - nlmsgHdrLen) info

def ipaNlDecodeRtmNeigh (info : NlNeighInfo) : NlNeighInfo :=
  let d := buffer + nlmsgHdrLen
  let info := { info with family := (m d).toNat, index := UInt32.ofNat (leU32 m (d + 4)) }
  nlAttrs m (fun info type data =>
    if type = 1 then { info with localAddr := ⟨info.family, addrWords m data⟩ }
    else if type = 2 then { info with lladdr := macBytes m data }
    else info)
    (d + 12) (buflen - nlmsgHdrLen) info

def ipaNlDecodeRtmRoute (info : NlRouteInfo) : NlRouteInfo :=
  let d := buffer + nlmsgHdrLen
  let info :=
    { info with
      family := (m d).toNat
      dstLen := (m (d + 1)).toNat
      table := (m (d + 4)).toNat
      protocol := (m (d + 5)).toNat
      scope := (m (d + 6)).toNat
      type := (m (d + 7)).toNat
      hasDst := false
      hasGateway := false }
  nlAttrs m (fun info type data =>
    if type = 1 then { info with dstAddr := ⟨info.family, addrWords m data⟩, hasDst := true }
    else if type = 5 then { info with hasGateway := true }
    else if type = 4 then { info with oifIndex := UInt32.ofNat (leU32 m data) }
    else info)
    (d + 12) (buflen - nlmsgHdrLen) info

end

/-! ### Messages -/

def NlState.post (s : NlState) (e : NlEvt) : NlState := { s with posted := s.posted ++ [e] }

section

variable (env : NlEnv) (m : NlMem) (s : NlState) (buffer buflen : ℕ)

/-- The work goes on if an interface has a name; the function returns if it has none. -/
def NlState.named (i : UInt32) (f : NlState → NlState × Bool) : NlState × Bool :=
  if env.hasName i then f s else (s, true)

/-- "GOT useful newlink event". -/
def linkChange (info : NlLinkInfo) : NlState × Bool :=
  if info.change.testBit 0 then
    s.named env info.index fun s =>
      (s.post (if info.flags.testBit 0 then .linkUp info.index else .linkDown info.index), false)
  else (s, false)

/-- "Add IPACM support for ECM plug-in/plug_out". -/
def linkRunning (info : NlLinkInfo) : NlState × Bool :=
  if info.flags.testBit 6 && info.flags.testBit 16 then
    s.named env info.index fun s => (s.post (.usbLinkUp info.index), false)
  else if !info.flags.testBit 16 then
    s.named env info.index fun s => (s.post (.linkDown info.index), false)
  else (s, false)

def rtmNewLink : NlState × Bool :=
  let info := ipaNlDecodeRtmLink m buffer
  let s := { s with msg := { s.msg with link := info }, decoded := s.decoded ++ [buffer] }
  -- "ignore this RTM_NEWLINK msg"
  if info.family = afBridge then (s, true)
  else
    let r := linkChange env s info
    if r.2 then r else linkRunning env r.1 info

def rtmDelLink : NlState × Bool :=
  let info := ipaNlDecodeRtmLink m buffer
  let s := { s with msg := { s.msg with link := info }, decoded := s.decoded ++ [buffer] }
  if info.family = afBridge then (s, true)
  else s.named env info.index fun s => (s.post (.linkDown info.index), false)

/-- `RTM_NEWADDR`.  An interface without a name is only logged. -/
def rtmNewAddr : NlState × Bool :=
  let info := ipaNlDecodeRtmAddr m buffer buflen s.msg.addr
  let s := { s with msg := { s.msg with addr := info }, decoded := s.decoded ++ [buffer] }
  let d :=
    if info.prefixAddr.family = afInet6 then
      { env.fresh with iptype := .v6, ipv6Addr := htonlAddr info.prefixAddr.data }
    else { env.fresh with iptype := .v4, ipv4Addr := htonl info.prefixAddr.v4 }
  (s.post (.addrAdd { d with ifIndex := info.index }), false)

/-- `mask_v6()`, which leaves the mask alone for a length that is not in its list. -/
def maskV6 : ℕ → Option UInt32
  | 0 => some 0x00000000
  | 4 => some 0xf0000000
  | 8 => some 0xff000000
  | 12 => some 0xfff00000
  | 16 => some 0xffff0000
  | 20 => some 0xfffff000
  | 24 => some 0xffffff00
  | 28 => some 0xfffffff0
  | 32 => some 0xffffffff
  | _ => none

def setMaskWord (mask : Ipv6Addr) (i : ℕ) (w : Option UInt32) : Ipv6Addr :=
  fun k => if k.val = i then w.getD (mask k) else mask k

/-- The loop over the words of a mask.  `place` is where the last part goes. -/
def maskWords (place : ℕ → ℕ) (dstLen : ℕ) (mask : Ipv6Addr) : Ipv6Addr :=
  ((List.range 4).foldl (fun (p : ℕ × Ipv6Addr) i =>
      if 32 ≤ p.1 then (p.1 - 32, setMaskWord p.2 i (maskV6 32)) else (0, setMaskWord p.2 (place i) (maskV6 p.1)))
    (dstLen, mask)).2

/-- An IPv6 route whose address is also its mask. -/
def NlRouteInfo.defaultV6 (info : NlRouteInfo) : DataAddr :=
  { env.fresh with
    iptype := .v6
    ifIndex := info.oifIndex
    ipv6Addr := htonlAddr info.dstAddr.data
    ipv6AddrMask := htonlAddr info.dstAddr.data }

/-- An IPv6 route with a mask. -/
def NlRouteInfo.prefixV6 (info : NlRouteInfo) (place : ℕ → ℕ) : DataAddr :=
  { env.fresh with
    iptype := .v6
    ifIndex := info.oifIndex
    ipv6Addr := htonlAddr info.dstAddr.data
    ipv6AddrMask := htonlAddr (maskWords place info.dstLen env.fresh.ipv6AddrMask) }

/-- "take care of route add default route & uniroute". -/
def NlRouteInfo.isBoot (info : NlRouteInfo) : Bool :=
  info.type = 1 ∧ info.protocol = 3 ∧ info.scope = 0 ∧ info.table = 254

def NlRouteInfo.isKernelV6 (info : NlRouteInfo) : Bool :=
  info.family = afInet6 ∧ info.type = 1 ∧ info.protocol = 2 ∧ info.table = 254

/-- An IPv4 route from the variables of the loop. -/
def NlState.routeV4 (info : NlRouteInfo) : DataAddr :=
  { env.fresh with
    iptype := .v4
    ifIndex := info.oifIndex
    ipv4Addr := htonl s.ifIpv4Addr
    ipv4AddrMask := htonl s.ifIpv4AddrMask }

/-- The first part of `RTM_NEWROUTE`.  For a host route the mask is not set. -/
def bootRouteAdd (info : NlRouteInfo) : NlState × Bool :=
  if info.hasDst then
    s.named env info.oifIndex fun s =>
      let s := { s with ifIpv4Addr := info.dstAddr.v4 }
      (s.post (.routeAdd (s.routeV4 env info)), false)
  else
    s.named env info.oifIndex fun s =>
      if info.family = afInet6 then (s.post (.routeAdd (info.defaultV6 env)), false)
      else
        let s := { s with ifIpv4Addr := info.dstAddr.v4, ifIpv4AddrMask := info.dstAddr.v4 }
        (s.post (.routeAdd (s.routeV4 env info)), false)

/-- The second part of `RTM_NEWROUTE`. -/
def kernelRouteAdd (info : NlRouteInfo) : NlState × Bool :=
  s.named env info.oifIndex fun s =>
    let s := if info.hasDst then s.post (.routeAdd (info.prefixV6 env fun i => i)) else s
    (if info.hasGateway then s.post (.routeAdd (info.defaultV6 env)) else s, false)

def rtmNewRoute : NlState × Bool :=
  let info := ipaNlDecodeRtmRoute m buffer buflen s.msg.route
  let s := { s with msg := { s.msg with route := info }, decoded := s.decoded ++ [buffer] }
  let r := if info.isBoot then bootRouteAdd env s info else (s, false)
  if r.2 then r
  else if info.isKernelV6 then kernelRouteAdd env r.1 info
  else r

/-- The first part of `RTM_DELROUTE`. -/
def bootRouteDel (info : NlRouteInfo) : NlState × Bool :=
  if info.hasDst then
    s.named env info.oifIndex fun s =>
      let s := { s with ifIpv4Addr := info.dstAddr.v4, ifIpv4AddrMask := 0xffffffff }
      (s.post (.routeDel (s.routeV4 env info)), false)
  else
    s.named env info.oifIndex fun s =>
      if info.family = afInet6 then (s.post (.routeDel (info.defaultV6 env)), false)
      else
        let d :=
          { env.fresh with
            iptype := .v4
            ifIndex := info.oifIndex
            ipv4Addr := htonl info.dstAddr.v4
            ipv4AddrMask := htonl info.dstAddr.v4 }
        (s.post (.routeDel d), false)

/-- The second part of `RTM_DELROUTE`.  The last part of the mask goes to its first word. -/
def kernelRouteDel (info : NlRouteInfo) : NlState × Bool :=
  s.named env info.oifIndex fun s =>
    (if info.hasDst then s.post (.routeDel (info.prefixV6 env fun _ => 0)) else s, false)

def rtmDelRoute : NlState × Bool :=
  let info := ipaNlDecodeRtmRoute m buffer buflen s.msg.route
  let s := { s with msg := { s.msg with route := info }, decoded := s.decoded ++ [buffer] }
  let r := if info.isBoot then bootRouteDel env s info else (s, false)
  if r.2 then r
  else if info.isKernelV6 then kernelRouteDel env r.1 info
  else r

/-- The data of a neighbour event. -/
def NlNeighInfo.data (info : NlNeighInfo) : DataAll where
  iptype := if info.localAddr.family = afInet then .v4 else .v6
  ifIndex := info.index
  ipv4Addr := if info.localAddr.family = afInet then htonl info.localAddr.v4 else 0
  ipv6Addr := if info.localAddr.family = afInet6 then htonlAddr info.localAddr.data else fun _ => 0
  macAddr := info.lladdr

/-- `RTM_NEWNEIGH` and `RTM_DELNEIGH`, which post different events. -/
def rtmNeigh (evt : DataAll → NlEvt) : NlState × Bool :=
  let info := ipaNlDecodeRtmNeigh m buffer buflen s.msg.neigh
  let s := { s with msg := { s.msg with neigh := info }, decoded := s.decoded ++ [buffer] }
  s.named env info.index fun s => (s.post (evt info.data), false)

def rtmNewNeigh : NlState × Bool := rtmNeigh env m s buffer buflen .newNeigh

def rtmDelNeigh : NlState × Bool := rtmNeigh env m s buffer buflen .delNeigh

end

/-! ### Datagrams -/

/-- The body of the loop, for the message at `nlh` with `buflen` bytes left.  It says whether
the function returns.  The decoders are given the start of the buffer. -/
def nlmsgBody (env : NlEnv) (m : NlMem) (s : NlState) (nlh buflen : ℕ) : NlState × Bool :=
  let buffer := 0
  match RtmType.ofCode (leU16 m (nlh + 4)) with
  | some .newLink => rtmNewLink env m s buffer
  | some .delLink => rtmDelLink env m s buffer
  | some .newAddr => rtmNewAddr env m s buffer buflen
  | some .newRoute => rtmNewRoute env m s buffer buflen
  | some .delRoute => rtmDelRoute env m s buffer buflen
  | some .newNeigh => rtmNewNeigh env m s buffer buflen
  | some .delNeigh => rtmDelNeigh env m s buffer buflen
  | none => (s, false)

def ipaNlDecodeNlmsg (env : NlEnv) (m : NlMem) (buflen : ℕ) : NlState :=
  walkRecords nlmsgHdrLen (leU32 m) (nlmsgBody env m) buflen 0 buflen NlState.init

/-- The buffer with a datagram in it. -/
def nlBuffer (env : NlEnv) (dgram : List UInt8) : NlMem := fun i => dgram.getD i (env.junk i)

/-- `ipa_nl_recv_msg()`: a datagram that is empty or does not fit is an error. -/
def ipaNlRecvMsg (env : NlEnv) (dgram : List UInt8) : NlState :=
  if dgram.length = 0 ∨ nlMsgMaxLen < dgram.length then NlState.init
  else ipaNlDecodeNlmsg env (nlBuffer env dgram) dgram.length

end G4Common.Ipacm

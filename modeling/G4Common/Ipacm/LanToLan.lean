/-
`IPACM_LanToLan` (`ipacm/inc/IPACM_LanToLan.h`, `ipacm/src/IPACM_LanToLan.cpp`):
offload of the traffic between two clients on the LAN side.

For each IP type there is a table of clients, by address.  A client has a list of
peers, with the number of connections to each, and a list of offload links: the
handles of the header, routing and filtering rules that carry the traffic to a
peer in one direction.  Both lists hold pointers into the table.

The source has each handler twice, for the two IP types.  Here a handler is
written once, over the type `A` of addresses and the key `K` of the table: for
IPv4 the key is the address, for IPv6 its lower 64 bits.  `LanToLan` joins the
two tables.

The calls into `IPACM_Lan` go through `LanOps`, over a state of its own.
Handlers return `none` where the program has no defined behaviour: where it
follows a pointer to a client that has been erased, where it goes on from a list
element that has just been erased, and where `num_connection` overflows.  Not
modelled: the null checks at the entry of the handlers, the IP types other than
IPv4 and IPv6, which are refused there, failures of `malloc()`, the destructor,
and debug output.
-/
import Mathlib.Data.BitVec
import G4Common.Lib.NodeMap
import G4Common.Lib.Slots

namespace G4Common.Ipacm

open List

/-! ### Data -/

def maxOffloadPair : UInt8 := 3

def maxCacheConnection : ℕ := 20

def intMax : ℤ := 2 ^ 31 - 1

abbrev MacAddr := BitVec 48

structure PeerInfo where
  peerPointer : ℕ
  numConnection : ℤ
  deriving DecidableEq, Repr

/-- `offload_link_info`.  The routing handles are those of `num_rule` rules. -/
structure OffloadLinkInfo where
  peerPointer : ℕ
  fltRuleHdl : UInt32
  rtRuleHdl : List UInt32
  hdrHdl : UInt32
  deriving DecidableEq, Repr

structure ClientInfo (A : Type) where
  ip : A
  macAddr : MacAddr
  isActive : Bool
  isPowersave : Bool
  pIface : ℕ
  peer : List PeerInfo
  link : List OffloadLinkInfo
  deriving DecidableEq, Repr

/-- `ipacm_event_lan_client`, with the address of its IP type. -/
structure LanClient (A : Type) where
  ip : A
  macAddr : MacAddr
  pIface : ℕ
  deriving DecidableEq, Repr

/-- `ipacm_event_connection`, with the addresses of its IP type. -/
structure LanConn (A : Type) where
  src : A
  dst : A
  deriving DecidableEq, Repr

/-- The functions of `IPACM_Lan` that are called, each on an interface; `none` and
`false` are `IPACM_FAILURE`. -/
structure LanOps (A κ : Type) where
  addHdr : κ → ℕ → MacAddr → MacAddr → κ × Option UInt32
  delHdr : κ → ℕ → UInt32 → κ × Bool
  addRt : κ → ℕ → A → A → UInt32 → κ × Option (List UInt32)
  delRt : κ → ℕ → List UInt32 → κ × Bool
  addFlt : κ → ℕ → A → A → κ × Option UInt32
  delFlt : κ → ℕ → UInt32 → κ × Bool

/-- What is fixed: the functions of the interfaces, the key of an address, the
category of an interface, whether the build has `CT_OPT`, and which addresses are
those of the LAN side (`is_potential_lan2lan_connection()`). -/
structure LanEnv (A K κ : Type) extends LanOps A κ where
  key : A → K
  ifCat : ℕ → ℕ
  ctOpt : Bool
  isPotential : A → Bool

/-- The table for one IP type, with its counter and the cached connections. -/
structure LanTable (A K : Type) where
  clientInfo : NodeMap K (ClientInfo A)
  numOffloadPair : UInt8
  connection : List (LanConn A)

/-- A table with the state of the interfaces. -/
structure LanState (A K κ : Type) extends LanTable A K where
  ifaces : κ

def LanTable.init {A K : Type} : LanTable A K := ⟨NodeMap.empty, 0, []⟩

variable {A K κ : Type}

namespace LanState

variable (s : LanState A K κ)

/-- Change the client at an address. -/
def modify (p : ℕ) (f : ClientInfo A → ClientInfo A) : LanState A K κ :=
  { s with clientInfo := s.clientInfo.modify p f }

def modifyLink (p : ℕ) (f : List OffloadLinkInfo → List OffloadLinkInfo) : LanState A K κ :=
  s.modify p fun c => { c with link := f c.link }

def modifyPeer (p : ℕ) (f : List PeerInfo → List PeerInfo) : LanState A K κ :=
  s.modify p fun c => { c with peer := f c.peer }

def withIfaces (k : κ) : LanState A K κ :=
  { s with ifaces := k }

def withCount (n : UInt8) : LanState A K κ :=
  { s with numOffloadPair := n }

def eraseClient [DecidableEq K] (k : K) : LanState A K κ :=
  { s with clientInfo := s.clientInfo.erase k }

end LanState

/-! ### Offload links -/

section

variable (ops : LanOps A κ)

/-- The calls of `add_offload_link()`: header, routing and filtering rule, taken
back from the one that fails. -/
def addLinkRules (k : κ) (client peer : ClientInfo A) (ptr : ℕ) : κ × Option OffloadLinkInfo :=
  let hdr := ops.addHdr k peer.pIface client.macAddr peer.macAddr
  match hdr.2 with
  | none => (hdr.1, none)
  | some hdrHdl =>
    let rt := ops.addRt hdr.1 peer.pIface client.ip peer.ip hdrHdl
    match rt.2 with
    | none => ((ops.delHdr rt.1 peer.pIface hdrHdl).1, none)
    | some rtRuleHdl =>
      let flt := ops.addFlt rt.1 client.pIface client.ip peer.ip
      match flt.2 with
      | none =>
        let k := (ops.delRt flt.1 peer.pIface rtRuleHdl).1
        ((ops.delHdr k peer.pIface hdrHdl).1, none)
      | some fltHdl => (flt.1, some ⟨ptr, fltHdl, rtRuleHdl, hdrHdl⟩)

def addOffloadLink (s : LanState A K κ) (client peer : ℕ) : Option (LanState A K κ × Bool) :=
  if s.numOffloadPair ≥ maxOffloadPair then some (s, false)
  else do
    let c ← s.clientInfo.node client
    let q ← s.clientInfo.node peer
    let r := addLinkRules ops s.ifaces c q peer
    match r.2 with
    | none => some (s.withIfaces r.1, false)
    | some l =>
      some ((s.withIfaces r.1).modifyLink client (· ++ [l]), true)

/-- `del_offload_link()`: all three deletions are tried. -/
def delOffloadLink (k : κ) (client peer : ℕ) (l : OffloadLinkInfo) : κ × Bool :=
  let flt := ops.delFlt k client l.fltRuleHdl
  let rt := ops.delRt flt.1 peer l.rtRuleHdl
  let hdr := ops.delHdr rt.1 peer l.hdrHdl
  (hdr.1, flt.2 && rt.2 && hdr.2)

/-- The loop of `check_potential_link()`.  Only the result of the second direction
is looked at. -/
def checkPotentialFrom (client : ℕ) : List PeerInfo → LanState A K κ → Option (LanState A K κ)
  | [], s => some s
  | e :: rest, s => do
    let q ← s.clientInfo.node e.peerPointer
    if q.isActive = true ∧ e.numConnection > 0 then
      let r ← addOffloadLink ops s client e.peerPointer
      let r' ← addOffloadLink ops r.1 e.peerPointer client
      checkPotentialFrom client rest
        (if r'.2 then r'.1.withCount (r'.1.numOffloadPair + 1) else r'.1)
    else checkPotentialFrom client rest s

def checkPotentialLink (s : LanState A K κ) (client : ℕ) : Option (LanState A K κ) := do
  let c ← s.clientInfo.node client
  checkPotentialFrom ops client c.peer s

/-- The loop of `turnoff_offload_links()`, on the links still ahead.  A failure
leaves the list of the client as it was. -/
def turnoffFrom (client : ℕ) :
    List OffloadLinkInfo → LanState A K κ → Option (LanState A K κ × Bool)
  | [], s => some (s.modifyLink client fun _ => [], true)
  | l :: rest, s => do
    let c ← s.clientInfo.node client
    let q ← s.clientInfo.node l.peerPointer
    let r := delOffloadLink ops s.ifaces c.pIface q.pIface l
    if r.2 = false then some (s.withIfaces r.1, false)
    else
      match q.link.find? fun l' => l'.peerPointer = client with
      | none => some (s.withIfaces r.1, false)
      | some l' =>
        let r' := delOffloadLink ops r.1 q.pIface c.pIface l'
        if r'.2 = false then some (s.withIfaces r'.1, false)
        -- a link of the client to itself: the loop stands on the element that goes
        else if l.peerPointer = client then none
        else
          let s' := (s.withIfaces r'.1).modifyLink l.peerPointer
            (eraseP fun l' => l'.peerPointer = client)
          turnoffFrom client rest (s'.withCount (s.numOffloadPair - 1))

def turnoffOffloadLinks (s : LanState A K κ) (client : ℕ) : Option (LanState A K κ × Bool) := do
  let c ← s.clientInfo.node client
  turnoffFrom ops client c.link s

/-- One direction of `erase_offload_link()`: the record goes whatever the
deletions say. -/
def eraseLinkTo (s : LanState A K κ) (src dst : ℕ) : Option (LanState A K κ × Bool) := do
  let c ← s.clientInfo.node src
  let q ← s.clientInfo.node dst
  match c.link.find? fun l => l.peerPointer = dst with
  | none => some (s, false)
  | some l =>
    let r := delOffloadLink ops s.ifaces c.pIface q.pIface l
    some ((s.withIfaces r.1).modifyLink src (eraseP fun l => l.peerPointer = dst), r.2)

def eraseOffloadLink (s : LanState A K κ) (src dst : ℕ) : Option (LanState A K κ) := do
  let r ← eraseLinkTo ops s src dst
  let r' ← eraseLinkTo ops r.1 dst src
  some (if r.2 && r'.2 then r'.1.withCount (r'.1.numOffloadPair - 1) else r'.1)

/-- The loop of `remove_flt_rules()`.  Failures to delete are ignored. -/
def removeFltFrom (s : LanState A K κ) (client : ℕ) : List OffloadLinkInfo → κ → Option (κ × Bool)
  | [], k => some (k, true)
  | l :: rest, k => do
    let c ← s.clientInfo.node client
    let k := (ops.delFlt k c.pIface l.fltRuleHdl).1
    let q ← s.clientInfo.node l.peerPointer
    match q.link.find? fun l' => l'.peerPointer = client with
    | none => some (k, false)
    | some l' => removeFltFrom s client rest (ops.delFlt k q.pIface l'.fltRuleHdl).1

def removeFltRules (s : LanState A K κ) (client : ℕ) : Option (LanState A K κ × Bool) := do
  let c ← s.clientInfo.node client
  let r ← removeFltFrom ops s client c.link s.ifaces
  some (s.withIfaces r.1, r.2)

/-- Store a filter handle in a link. -/
def OffloadLinkInfo.setFlt (h : UInt32) (l : OffloadLinkInfo) : OffloadLinkInfo :=
  { l with fltRuleHdl := h }

/-- Store a filter handle in the first link to a client. -/
def setFltTo (client : ℕ) (h : UInt32) : List OffloadLinkInfo → List OffloadLinkInfo
  | [] => []
  | l :: rest =>
    if l.peerPointer = client then l.setFlt h :: rest else l :: setFltTo client h rest

/-- The loop of `add_flt_rules()`, over the positions in the list of the client:
the new handles go into the links as they stand. -/
def addFltFrom (client : ℕ) : List ℕ → LanState A K κ → Option (LanState A K κ × Bool)
  | [], s => some (s, true)
  | i :: rest, s => do
    let c ← s.clientInfo.node client
    let l ← c.link[i]?
    let q ← s.clientInfo.node l.peerPointer
    let r := ops.addFlt s.ifaces c.pIface c.ip q.ip
    match r.2 with
    | none => some (s.withIfaces r.1, false)
    | some h =>
      let s := (s.withIfaces r.1).modifyLink client fun ls =>
        ls.modify i (OffloadLinkInfo.setFlt h)
      let q ← s.clientInfo.node l.peerPointer
      if q.link.any fun l' => l'.peerPointer = client then
        let r := ops.addFlt s.ifaces q.pIface q.ip c.ip
        match r.2 with
        | none => some (s.withIfaces r.1, false)
        | some h =>
          addFltFrom client rest
            ((s.withIfaces r.1).modifyLink l.peerPointer (setFltTo client h))
      else some (s, false)

def addFltRules (s : LanState A K κ) (client : ℕ) : Option (LanState A K κ × Bool) := do
  let c ← s.clientInfo.node client
  addFltFrom ops client (range c.link.length) s

end

/-! ### Peers -/

/-- Count one more connection to a peer; true if it is new in the list. -/
def countPeer (l : List PeerInfo) (p : ℕ) : Option (List PeerInfo × Bool) :=
  match updateFirst (fun e => decide (e.peerPointer = p))
      (fun e => (e.numConnection, PeerInfo.mk p (e.numConnection + 1))) l with
  | none => some (l ++ [⟨p, 1⟩], true)
  | some r => if r.1 < intMax then some (r.2, false) else none

/-- Count one connection to a peer less; true if it was the last. -/
def uncountPeer (l : List PeerInfo) (p : ℕ) : List PeerInfo × Bool :=
  match updateFirst (fun e => decide (e.peerPointer = p))
      (fun e => (e.numConnection - 1, PeerInfo.mk p (e.numConnection - 1))) l with
  | none => (l, false)
  | some r => if r.1 = 0 then (l.eraseP fun e => e.peerPointer = p, true) else (r.2, false)

def addConnection (s : LanState A K κ) (src dst : ℕ) : Option (LanState A K κ × Bool) := do
  let c ← s.clientInfo.node src
  let r ← countPeer c.peer dst
  let s := s.modifyPeer src fun _ => r.1
  let d ← s.clientInfo.node dst
  let r' ← countPeer d.peer src
  some (s.modifyPeer dst (fun _ => r'.1), r.2 || r'.2)

/-- `remove_connection()`.  The result is that of the second list. -/
def removeConnection (s : LanState A K κ) (src dst : ℕ) : Option (LanState A K κ × Bool) := do
  let c ← s.clientInfo.node src
  let s := s.modifyPeer src fun _ => (uncountPeer c.peer dst).1
  let d ← s.clientInfo.node dst
  let r := uncountPeer d.peer src
  some (s.modifyPeer dst (fun _ => r.1), r.2)

/-- The loop of `clear_peer_list()`, on the peers still ahead. -/
def clearPeerFrom (client : ℕ) : List PeerInfo → LanState A K κ → Option (LanState A K κ × Bool)
  | [], s => some (s.modifyPeer client fun _ => [], true)
  | e :: rest, s => do
    let q ← s.clientInfo.node e.peerPointer
    if q.peer.any fun e' => e'.peerPointer = client then
      -- the client as a peer of itself: the loop stands on the element that goes
      if e.peerPointer = client then none
      else
        clearPeerFrom client rest
          (s.modifyPeer e.peerPointer (eraseP fun e' => e'.peerPointer = client))
    else some (s, false)

def clearPeerList (s : LanState A K κ) (client : ℕ) : Option (LanState A K κ × Bool) := do
  let c ← s.clientInfo.node client
  clearPeerFrom client c.peer s

/-! ### Handlers -/

/-- The fields that `handle_client_active()` fills in. -/
def ClientInfo.fill (data : LanClient A) (c : ClientInfo A) : ClientInfo A :=
  { c with
    ip := data.ip
    macAddr := data.macAddr
    isActive := true
    isPowersave := false
    pIface := data.pIface }

def ClientInfo.setInactive (c : ClientInfo A) : ClientInfo A := { c with isActive := false }

def ClientInfo.setPowersave (c : ClientInfo A) : ClientInfo A :=
  { c with isActive := false, isPowersave := true }

def ClientInfo.setRecovered (c : ClientInfo A) : ClientInfo A :=
  { c with isActive := true, isPowersave := false }

section

variable [DecidableEq A] [DecidableEq K] (env : LanEnv A K κ)

/-- `generate_new_connection()`: a connection to every active client on an
interface of another category, in builds without `CT_OPT`. -/
def generateNewConnection (s : LanState A K κ) (client : ClientInfo A) : List (LanConn A) :=
  if env.ctOpt then []
  else
    (s.clientInfo.values.filter fun q =>
      decide (env.ifCat q.pIface ≠ env.ifCat client.pIface ∧ q.isActive = true)).map fun q =>
        ⟨client.ip, q.ip⟩

/-- The test of `check_cache_connection()`. -/
def isCachedFor (s : LanState A K κ) (client : ClientInfo A) (conn : LanConn A) : Bool :=
  decide (conn.src = client.ip ∧ (s.clientInfo.find (env.key conn.dst)).isSome = true ∨
    conn.dst = client.ip ∧ (s.clientInfo.find (env.key conn.src)).isSome = true)

/-- `check_cache_connection()`: the cached connections of the client are posted,
in builds with `CT_OPT`. -/
def checkCacheConnection (s : LanState A K κ) (client : ClientInfo A) :
    LanState A K κ × List (LanConn A) :=
  if env.ctOpt then
    ({ s with connection := s.connection.filter fun conn => !isCachedFor env s client conn },
      s.connection.filter (isCachedFor env s client))
  else (s, [])

/-- What every client that has become active goes through last. -/
def announce (s : LanState A K κ) (p : ℕ) : Option (LanState A K κ × List (LanConn A)) := do
  let c ← s.clientInfo.node p
  let r := checkCacheConnection env s c
  some (r.1, generateNewConnection env s c ++ r.2)

def handleClientActive (s : LanState A K κ) (data : LanClient A) :
    Option (LanState A K κ × List (LanConn A)) :=
  match s.clientInfo.find (env.key data.ip) with
  | none =>
    announce env { s with
      clientInfo := s.clientInfo.insert (env.key data.ip)
        ⟨data.ip, data.macAddr, true, false, data.pIface, [], []⟩ } s.clientInfo.next
  | some p => do
    let c ← s.clientInfo.node p
    if c.isActive then
      if c.macAddr = data.macAddr then some (s, [])
      else
        let r ← turnoffOffloadLinks env.toLanOps s p
        let r' ← clearPeerList r.1 p
        announce env (r'.1.modify p (ClientInfo.fill data)) p
    else
      let s' ← checkPotentialLink env.toLanOps (s.modify p (ClientInfo.fill data)) p
      announce env s' p

def handleClientInactive (s : LanState A K κ) (data : LanClient A) : Option (LanState A K κ) :=
  match s.clientInfo.find (env.key data.ip) with
  | none => some s
  | some p => do
    let r ← turnoffOffloadLinks env.toLanOps s p
    let s' := r.1.modify p ClientInfo.setInactive
    let c ← s'.clientInfo.node p
    if c.peer = [] then some (s'.eraseClient (env.key data.ip)) else some s'

def handleClientDisconnect (s : LanState A K κ) (data : LanClient A) : Option (LanState A K κ) :=
  match s.clientInfo.find (env.key data.ip) with
  | none => some s
  | some p => do
    let r ← turnoffOffloadLinks env.toLanOps s p
    let r' ← clearPeerList r.1 p
    some (r'.1.eraseClient (env.key data.ip))

def handleClientPowerSave (s : LanState A K κ) (data : LanClient A) : Option (LanState A K κ) :=
  match s.clientInfo.find (env.key data.ip) with
  | none => some s
  | some p => do
    let r ← removeFltRules env.toLanOps s p
    if r.2 then
      some (r.1.modify p ClientInfo.setPowersave)
    else some r.1

def handleClientPowerRecover (s : LanState A K κ) (data : LanClient A) :
    Option (LanState A K κ × List (LanConn A)) :=
  match s.clientInfo.find (env.key data.ip) with
  | none => some (s, [])
  | some p => do
    let c ← s.clientInfo.node p
    if c.isActive = true ∨ c.isPowersave = false then some (s, [])
    else
      let r ← addFltRules env.toLanOps s p
      if r.2 then
        let s' := r.1.modify p ClientInfo.setRecovered
        let s' ← checkPotentialLink env.toLanOps s' p
        let c ← s'.clientInfo.node p
        some (s', generateNewConnection env s' c)
      else some (r.1, [])

def handleNewLan2LanConnection (s : LanState A K κ) (conn : LanConn A) : Option (LanState A K κ) :=
  match s.clientInfo.find (env.key conn.src), s.clientInfo.find (env.key conn.dst) with
  | some src, some dst => do
    let r ← addConnection s src dst
    let c ← r.1.clientInfo.node src
    let d ← r.1.clientInfo.node dst
    if r.2 && c.isActive && d.isActive then
      let r1 ← addOffloadLink env.toLanOps r.1 src dst
      if r1.2 then
        let r2 ← addOffloadLink env.toLanOps r1.1 dst src
        if r2.2 then some (r2.1.withCount (r2.1.numOffloadPair + 1))
        else some r2.1
      else some r1.1
    else some r.1
  | _, _ => some s

/-- The links that `handle_del_lan2lan_connection()` erases with a last
connection. -/
def eraseLinks (s : LanState A K κ) (src dst : ℕ) : Option (LanState A K κ) := do
  let c ← s.clientInfo.node src
  let d ← s.clientInfo.node dst
  if c.isActive && d.isActive then eraseOffloadLink env.toLanOps s src dst
  else
    let s ← if c.isPowersave && (d.isActive || d.isPowersave) then
      eraseOffloadLink env.toLanOps s src dst else some s
    if d.isPowersave && (c.isActive || c.isPowersave) then
      eraseOffloadLink env.toLanOps s dst src
    else some s

/-- A client that is neither active nor in power save goes with its last peer. -/
def eraseIfIdle (s : LanState A K κ) (k : K) (p : ℕ) : Option (LanState A K κ) := do
  let c ← s.clientInfo.node p
  if c.isActive = false ∧ c.isPowersave = false ∧ c.peer = [] then
    some (s.eraseClient k)
  else some s

def handleDelLan2LanConnection (s : LanState A K κ) (conn : LanConn A) : Option (LanState A K κ) :=
  match s.clientInfo.find (env.key conn.src), s.clientInfo.find (env.key conn.dst) with
  | some src, some dst => do
    let r ← removeConnection s src dst
    if r.2 then
      let s' ← eraseLinks env r.1 src dst
      let s' ← eraseIfIdle s' (env.key conn.src) src
      eraseIfIdle s' (env.key conn.dst) dst
    else some r.1
  | _, _ => some s

/-! ### Notifications of connections -/

/-- The interface of the client with a key. -/
def clientIface (m : NodeMap K (ClientInfo A)) (k : K) : Option ℕ :=
  ((m.find k).bind m.node).map ClientInfo.pIface

/-- `is_lan2lan_connection()`: both ends are in the table, on interfaces of
different categories. -/
def isLan2LanConnection (s : LanState A K κ) (conn : LanConn A) : Bool :=
  match clientIface s.clientInfo (env.key conn.src), clientIface s.clientInfo (env.key conn.dst) with
  | some i, some j => decide (env.ifCat i ≠ env.ifCat j)
  | _, _ => false

def isPotentialLan2LanConnection (conn : LanConn A) : Bool :=
  env.isPotential conn.src && env.isPotential conn.dst

/-- `cache_new_connection()`: a full list is cleared first. -/
def cacheNewConnection (s : LanState A K κ) (conn : LanConn A) : LanState A K κ :=
  if isPotentialLan2LanConnection env conn then
    { s with
      connection :=
        (if s.connection.length = maxCacheConnection then [] else s.connection) ++ [conn] }
  else s

def removeCacheConnection (s : LanState A K κ) (conn : LanConn A) : LanState A K κ :=
  if isPotentialLan2LanConnection env conn then
    { s with connection := s.connection.erase conn }
  else s

/-- `handle_new_connection()`, with what it posts; it is empty in builds without
`CT_OPT`. -/
def handleNewConnection (s : LanState A K κ) (conn : LanConn A) :
    LanState A K κ × List (LanConn A) :=
  if env.ctOpt then
    if isLan2LanConnection env s conn then (s, [conn]) else (cacheNewConnection env s conn, [])
  else (s, [])

/-- `handle_del_connection()`, with what it posts. -/
def handleDelConnection (s : LanState A K κ) (conn : LanConn A) :
    LanState A K κ × List (LanConn A) :=
  if env.ctOpt then
    if isLan2LanConnection env s conn then (s, [conn]) else (removeCacheConnection env s conn, [])
  else (s, [])

/-! ### Events -/

/-- The events of `event_callback()`. -/
inductive LanEvent (A : Type)
  | clientActive (data : LanClient A)
  | clientInactive (data : LanClient A)
  | clientDisconnect (data : LanClient A)
  | clientPowerSave (data : LanClient A)
  | clientPowerRecover (data : LanClient A)
  | newConnection (conn : LanConn A)
  | delConnection (conn : LanConn A)

/-- `event_callback()`, with the connections that are posted as new. -/
def eventCallback (s : LanState A K κ) : LanEvent A → Option (LanState A K κ × List (LanConn A))
  | .clientActive data => handleClientActive env s data
  | .clientInactive data => (handleClientInactive env s data).map fun s => (s, [])
  | .clientDisconnect data => (handleClientDisconnect env s data).map fun s => (s, [])
  | .clientPowerSave data => (handleClientPowerSave env s data).map fun s => (s, [])
  | .clientPowerRecover data => handleClientPowerRecover env s data
  | .newConnection conn => (handleNewLan2LanConnection env s conn).map fun s => (s, [])
  | .delConnection conn => (handleDelLan2LanConnection env s conn).map fun s => (s, [])

end

/-! ### Both IP types -/

/-- An IPv6 address in four words. -/
abbrev Ipv6Addr := Fin 4 → UInt32

/-- The key of an IPv6 address: its last two words. -/
def ipv6Key (a : Ipv6Addr) : UInt32 × UInt32 := (a 2, a 3)

/-- An address with the first word of another, and 0 otherwise. -/
def ipv6First (a : Ipv6Addr) : Ipv6Addr := Function.update (fun _ => 0) 0 (a 0)

/-- An address with the given first word, and 0 otherwise. -/
def ipv6OfFirst (w : UInt32) : Ipv6Addr := fun i => if i = 0 then w else 0

def ipv6Zero (a : Ipv6Addr) : Bool := a 0 = 0 ∧ a 1 = 0 ∧ a 2 = 0 ∧ a 3 = 0

/-- The words after the first one are 0. -/
def Ipv6FirstOnly (a : Ipv6Addr) : Prop := a 1 = 0 ∧ a 2 = 0 ∧ a 3 = 0

/-- `IPACM_LanToLan`, with the state of the interfaces. -/
structure LanToLan (κ : Type) where
  v4 : LanTable UInt32 UInt32
  v6 : LanTable Ipv6Addr (UInt32 × UInt32)
  ifaces : κ

/-- An event of one of the IP types. -/
inductive IpEvent
  | v4 (ev : LanEvent UInt32)
  | v6 (ev : LanEvent Ipv6Addr)

/-- What is fixed for both IP types, with the private subnets, address and mask. -/
structure LanConfig (κ : Type) where
  v4 : LanOps UInt32 κ
  v6 : LanOps Ipv6Addr κ
  ifCat : ℕ → ℕ
  ctOpt : Bool
  privateSubnets : List (UInt32 × UInt32)

namespace LanConfig

variable (cfg : LanConfig κ)

def env4 : LanEnv UInt32 UInt32 κ :=
  ⟨cfg.v4, id, cfg.ifCat, cfg.ctOpt,
    fun a => cfg.privateSubnets.any fun n => a &&& n.2 = n.1 &&& n.2⟩

/-- `is_potential_lan2lan_connection()` refuses multicast addresses of IPv6. -/
def env6 : LanEnv Ipv6Addr (UInt32 × UInt32) κ :=
  ⟨cfg.v6, ipv6Key, cfg.ifCat, cfg.ctOpt, fun a => decide (a 0 &&& 0xff000000 ≠ 0xff000000)⟩

end LanConfig

namespace LanToLan

def init (k : κ) : LanToLan κ := ⟨LanTable.init, LanTable.init, k⟩

variable (cfg : LanConfig κ) (s : LanToLan κ)

def state4 : LanState UInt32 UInt32 κ := ⟨s.v4, s.ifaces⟩

def state6 : LanState Ipv6Addr (UInt32 × UInt32) κ := ⟨s.v6, s.ifaces⟩

def step : IpEvent → Option (LanToLan κ)
  | .v4 ev => (eventCallback cfg.env4 s.state4 ev).map fun r => ⟨r.1.toLanTable, s.v6, r.1.ifaces⟩
  | .v6 ev => (eventCallback cfg.env6 s.state6 ev).map fun r => ⟨s.v4, r.1.toLanTable, r.1.ifaces⟩

end LanToLan

/-- The states of the runs whose events satisfy `ok`.  Between two events the
interfaces may change as `between` allows. -/
inductive LanReach (cfg : LanConfig κ) (between : κ → κ → Prop)
    (ok : LanToLan κ → IpEvent → Prop) : LanToLan κ → Prop
  | start (k : κ) : LanReach cfg between ok (LanToLan.init k)
  | step {s s' : LanToLan κ} (ev : IpEvent) (k : κ) : LanReach cfg between ok s →
      between s.ifaces k → ok { s with ifaces := k } ev →
      LanToLan.step cfg { s with ifaces := k } ev = some s' → LanReach cfg between ok s'

/-- A sequence of events, each with the state of the interfaces before it. -/
def LanToLan.run (cfg : LanConfig κ) : List (κ × IpEvent) → LanToLan κ → Option (LanToLan κ)
  | [], s => some s
  | e :: rest, s => (LanToLan.step cfg { s with ifaces := e.1 } e.2).bind (run cfg rest)

def LanToLan.runEvents (cfg : LanConfig κ) : List IpEvent → LanToLan κ → Option (LanToLan κ)
  | [], s => some s
  | ev :: rest, s => (LanToLan.step cfg s ev).bind (runEvents cfg rest)

theorem LanReach.run {cfg : LanConfig κ} {ok : LanToLan κ → IpEvent → Prop}
    {evs : List (κ × IpEvent)} {s s' : LanToLan κ} (h : LanReach cfg (fun _ _ => True) ok s)
    (hok : ∀ e ∈ evs, ∀ s : LanToLan κ, ok { s with ifaces := e.1 } e.2)
    (hrun : LanToLan.run cfg evs s = some s') : LanReach cfg (fun _ _ => True) ok s' := by
  induction evs generalizing s with
  | nil =>
    cases hrun
    exact h
  | cons e _ ih =>
    obtain ⟨_, h1, hrun⟩ := Option.bind_eq_some_iff.mp hrun
    have hstep := h.step e.2 e.1 trivial (hok e ((.head _) ..) s) h1
    exact ih hstep (fun e' he' => hok e' (.tail _ he')) hrun

/-! ### Scripted interfaces -/

/-- The answers of the interfaces to the calls of one event, by the number of the
call: whether it succeeds, and the handles it gives. -/
structure Script where
  call : ℕ
  ok : ℕ → Bool
  hdl : ℕ → UInt32
  rtHdl : ℕ → List UInt32

namespace Script

/-- All calls succeed, and give their number. -/
def succeed : Script := ⟨0, fun _ => true, fun n => .ofNat n, fun n => [.ofNat n]⟩

variable (k : Script)

def next : Script := { k with call := k.call + 1 }

/-- An addition and what it gives. -/
def add {α : Type} (hdl : ℕ → α) : Script × Option α :=
  (k.next, if k.ok k.call then some (hdl k.call) else none)

def del : Script × Bool := (k.next, k.ok k.call)

end Script

/-- Interfaces that answer from a script. -/
def scriptOps (A : Type) : LanOps A Script where
  addHdr k _ _ _ := k.add k.hdl
  delHdr k _ _ := k.del
  addRt k _ _ _ _ := k.add k.rtHdl
  delRt k _ _ := k.del
  addFlt k _ _ _ := k.add k.hdl
  delFlt k _ _ := k.del

/-- Both IP types over scripted interfaces. -/
def scriptConfig (ifCat : ℕ → ℕ) (ctOpt : Bool) (privateSubnets : List (UInt32 × UInt32)) :
    LanConfig Script :=
  ⟨scriptOps UInt32, scriptOps Ipv6Addr, ifCat, ctOpt, privateSubnets⟩

/-- Two clients on two interfaces, with a connection. -/
def samplePair (k : Script) : List (Script × IpEvent) :=
  [(.succeed, .v4 (.clientActive ⟨1, 1, 1⟩)), (.succeed, .v4 (.clientActive ⟨2, 2, 2⟩)),
    (k, .v4 (.newConnection ⟨1, 2⟩))]

end G4Common.Ipacm

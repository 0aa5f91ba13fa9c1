/-
`NatApp` (`ipacm/inc/IPACM_Conntrack_NATApp.h`,
`ipacm/src/IPACM_Conntrack_NATApp.cpp`): the connection cache of the
configuration manager.

The cache remembers every connection that has or may get a NAT rule, with the
handle of its rule while `enabled` is set.  Beside it there is a small table of
temporary entries, for connections of clients that are not known yet, and the
list of clients in power save.

The driver is reached through four functions (`NatDriver`), over a state of its
own.  What they do is left open here; each result of this development says what
it needs.

Arrays are lists of fixed length.  A loop over the cache is `forSlots`, with
the driver's state and `curCnt` beside it; a search for one slot is
`updateFirst`.  Not modelled: the time stamps (`UpdateUDPTimeStamp()` and what
it calls) and the timeouts, which touch none of the data here, and debug output.
-/
import G4Common.IpaNat.Types
import G4Common.Lib.Slots

namespace G4Common.Ipacm

open IpaNat (IpaNatIpv4Rule)

/-! ### Data -/

/-- The five fields that identify a connection. -/
structure NatTuple where
  privateIp : UInt32
  targetIp : UInt32
  privatePort : UInt16
  targetPort : UInt16
  protocol : UInt8
  deriving DecidableEq, Repr, Inhabited

/-- `nat_table_entry`.  The default value is the entry set to zero.  The public
address is kept in 16 bits. -/
structure NatTableEntry where
  privateIp : UInt32
  privatePort : UInt16
  targetIp : UInt32
  targetPort : UInt16
  publicIp : UInt16
  publicPort : UInt16
  protocol : UInt8
  timestamp : UInt32
  dstNat : Bool
  enabled : Bool
  ruleHdl : UInt32
  deriving DecidableEq, Repr, Inhabited

namespace NatTableEntry

variable (e : NatTableEntry)

def tuple : NatTuple := ⟨e.privateIp, e.targetIp, e.privatePort, e.targetPort, e.protocol⟩

/-- The test for a free slot: all five fields are zero. -/
def isFree : Bool := e.tuple = default

/-- The test for an invalid connection: one of the five fields is zero. -/
def isInvalid : Bool :=
  e.privateIp = 0 ∨ e.targetIp = 0 ∨ e.privatePort = 0 ∨ e.targetPort = 0 ∨ e.protocol = 0

def natRule : IpaNatIpv4Rule where
  targetIp := e.targetIp
  privateIp := e.privateIp
  targetPort := e.targetPort
  privatePort := e.privatePort
  publicPort := e.publicPort
  protocol := e.protocol

end NatTableEntry

/-- `ipa_nat_add_ipv4_tbl()`, `ipa_nat_del_ipv4_tbl()`,
`ipa_nat_add_ipv4_rule()` and `ipa_nat_del_ipv4_rule()`, over the driver's state
`σ`.  A function with an output handle returns the value it stores, if any. -/
structure NatDriver (σ : Type) where
  addIpv4Tbl : UInt32 → UInt16 → σ → ℤ × Option UInt32 × σ
  delIpv4Tbl : UInt32 → σ → ℤ × σ
  addIpv4Rule : UInt32 → IpaNatIpv4Rule → σ → ℤ × Option UInt32 × σ
  delIpv4Rule : UInt32 → UInt32 → σ → ℤ × σ

def maxTempEntries : ℕ := 25

/-- `IPA_MAX_NUM_WIFI_CLIENTS`. -/
def maxNumWifiClients : ℕ := 32

/-- The members of class `NatApp`. -/
structure NatApp where
  cache : List NatTableEntry
  temp : List NatTableEntry
  pubIpAddr : UInt32
  pubIpAddrPre : UInt32
  natTableHdl : UInt32
  curCnt : ℤ
  algPorts : List (UInt8 × UInt16)
  pwrSaveIfs : List UInt32
  deriving Repr

/-- `NatApp` and the driver. -/
structure AppState (σ : Type) where
  app : NatApp
  drv : σ

/-- `NatApp::NatApp()` and `NatApp::Init()`.  The constructor leaves
`pub_ip_addr_pre` and `PwrSaveIfs` as they come. -/
def NatApp.init (maxEntries : ℕ) (algPorts : List (UInt8 × UInt16)) (pubIpAddrPre : UInt32)
    (pwrSaveIfs : List UInt32) : NatApp where
  cache := List.replicate maxEntries default
  temp := List.replicate maxTempEntries default
  pubIpAddr := 0
  pubIpAddrPre := pubIpAddrPre
  natTableHdl := 0
  curCnt := 0
  algPorts := algPorts
  pwrSaveIfs := pwrSaveIfs

/-! ### Tests -/

namespace NatApp

variable (app : NatApp)

def maxEntries : ℕ := app.cache.length

def chkForDup (rule : NatTableEntry) : Bool := app.cache.any fun e => e.tuple = rule.tuple

def isAlgPort (proto : UInt8) (port : UInt16) : Bool :=
  app.algPorts.any fun a => proto = a.1 ∧ port = a.2

def isPwrSaveIf (ipAddr : UInt32) : Bool :=
  app.pwrSaveIfs.any fun p => 0 ≠ p ∧ ipAddr = p

/-- `NatApp::Reset()`.  Its loop over the cache is
`cache[cnt].enabled ==false;`, a comparison and not an assignment. -/
def reset : NatApp := { app with natTableHdl := 0, pubIpAddr := 0 }

end NatApp

/-! ### Loops over the cache -/

variable {σ : Type}

/-- What a loop over the cache changes beside the slots. -/
structure LoopState (σ : Type) where
  drv : σ
  curCnt : ℤ

def AppState.loop (s : AppState σ)
    (body : LoopState σ → NatTableEntry → LoopState σ × NatTableEntry) : AppState σ :=
  let (t, cache) := forSlots body ⟨s.drv, s.app.curCnt⟩ s.app.cache
  ⟨{ s.app with cache := cache, curCnt := t.curCnt }, t.drv⟩

variable (d : NatDriver σ)

/-- Hand a cached connection to the driver; drop it from the cache if the
driver refuses it. -/
def reinstall (hdl : UInt32) (t : LoopState σ) (e : NatTableEntry) :
    LoopState σ × NatTableEntry :=
  let (ret, ruleHdl, drv) := d.addIpv4Rule hdl e.natRule t.drv
  if ret < 0 then (⟨drv, t.curCnt - 1⟩, default)
  else (⟨drv, t.curCnt⟩, { e with ruleHdl := ruleHdl.getD e.ruleHdl, enabled := true })

/-- Take the rule of an entry back; its handle in the cache becomes `ruleHdl`. -/
def withdraw (hdl ruleHdl : UInt32) (t : LoopState σ) (e : NatTableEntry) :
    LoopState σ × NatTableEntry :=
  let (ret, drv) := d.delIpv4Rule hdl e.ruleHdl t.drv
  if ret < 0 then (⟨drv, t.curCnt⟩, e)
  else (⟨drv, t.curCnt⟩, { e with enabled := false, ruleHdl := ruleHdl })

/-- Drop an entry from the cache, and its rule if it has one. -/
def evict (hdl : UInt32) (t : LoopState σ) (e : NatTableEntry) : LoopState σ × NatTableEntry :=
  if e.enabled = true then
    let (ret, drv) := d.delIpv4Rule hdl e.ruleHdl t.drv
    if ret < 0 then (⟨drv, t.curCnt⟩, e)
    else (⟨drv, t.curCnt - 1⟩, default)
  else (⟨t.drv, t.curCnt - 1⟩, default)

/-! ### The table -/

def addTable (pubIp : UInt32) (s : AppState σ) : ℤ × AppState σ :=
  let (ret, hdl, drv) := d.addIpv4Tbl pubIp (UInt16.ofNat s.app.maxEntries) s.drv
  let s : AppState σ := ⟨{ s.app with natTableHdl := hdl.getD s.app.natTableHdl }, drv⟩
  if ret ≠ 0 then (ret, s)
  else
    -- add back the cached entries
    let s := if pubIp = s.app.pubIpAddrPre then
        s.loop fun t e => if e.privateIp ≠ 0 then reinstall d s.app.natTableHdl t e else (t, e)
      else s
    (0, { s with app := { s.app with pubIpAddr := pubIp } })

def deleteTable (pubIp : UInt32) (s : AppState σ) : ℤ × AppState σ :=
  if s.app.natTableHdl = 0 then (-1, s)
  else if s.app.pubIpAddr ≠ pubIp then (-1, s)
  else
    let (ret, drv) := d.delIpv4Tbl s.app.natTableHdl s.drv
    if ret ≠ 0 then (ret, { s with drv := drv })
    else (0, ⟨{ s.app with pubIpAddrPre := s.app.pubIpAddr }.reset, drv⟩)

/-! ### Entries -/

/-- `NatApp::DeleteEntry()`: a refused deletion is only reported. -/
def deleteEntry (rule : NatTableEntry) (s : AppState σ) : ℤ × AppState σ :=
  match updateFirst (fun e => e.tuple = rule.tuple) (fun e =>
      (if e.enabled = true then (d.delIpv4Rule s.app.natTableHdl e.ruleHdl s.drv).2 else s.drv,
        default)) s.app.cache with
  | none => (0, s)
  | some (drv, cache) => (0, ⟨{ s.app with cache := cache, curCnt := s.app.curCnt - 1 }, drv⟩)

/-- Copy a rule into a slot of the cache.  The slot's `public_ip` is not
written. -/
def fillSlot (rule : NatTableEntry) (enabled : Bool) (ruleHdl : UInt32) (slot : NatTableEntry) :
    NatTableEntry :=
  { rule with publicIp := slot.publicIp, timestamp := 0, enabled := enabled, ruleHdl := ruleHdl }

/-- What `NatApp::AddEntry()` does with the free slot it found: the result, the
driver's state and the slot. -/
def storeEntry (rule : NatTableEntry) (s : AppState σ) (slot : NatTableEntry) :
    (ℤ × σ) × NatTableEntry :=
  -- a client in power save gets no rule now
  if s.app.isPwrSaveIf rule.privateIp ∨ s.app.isPwrSaveIf rule.targetIp then
    ((0, s.drv), fillSlot rule false 0 slot)
  else
    let (ret, ruleHdl, drv) := d.addIpv4Rule s.app.natTableHdl rule.natRule s.drv
    -- the driver writes to the slot's own field
    let ruleHdl := ruleHdl.getD slot.ruleHdl
    if ret < 0 then ((-1, drv), { slot with ruleHdl := ruleHdl })
    else ((0, drv), fillSlot rule true ruleHdl slot)

def addEntry (rule : NatTableEntry) (s : AppState σ) : ℤ × AppState σ :=
  if s.app.natTableHdl = 0 then (-1, s)
  else if s.app.isAlgPort rule.protocol rule.privatePort ∨
      s.app.isAlgPort rule.protocol rule.targetPort then (-1, s)
  else if rule.isInvalid then (0, s)
  else if s.app.chkForDup rule then (-1, s)
  else
    match updateFirst NatTableEntry.isFree (storeEntry d rule s) s.app.cache with
    -- reached maximum rules
    | none => (-1, s)
    | some ((ret, drv), cache) =>
      if ret < 0 then (-1, ⟨{ s.app with cache := cache }, drv⟩)
      else (0, ⟨{ s.app with cache := cache, curCnt := s.app.curCnt + 1 }, drv⟩)

/-- `NatApp::CacheEntry()`.  The source does not initialise the index of its
search; it is read here as starting at 0. -/
def cacheEntry (rule : NatTableEntry) (s : AppState σ) : AppState σ :=
  if rule.isInvalid then s
  else if s.app.chkForDup rule then s
  else
    match updateFirst NatTableEntry.isFree (fun slot => ((), fillSlot rule false 0 slot))
        s.app.cache with
    | none => s
    | some ((), cache) =>
      { s with app := { s.app with cache := cache, curCnt := s.app.curCnt + 1 } }

/-! ### Power save -/

/-- Take an address off the list of clients in power save. -/
def clearPwrSaveIf (ip : UInt32) (l : List UInt32) : List UInt32 :=
  ((updateFirst (fun p => p = ip) (fun _ => ((), 0)) l).map (·.2)).getD l

def updatePwrSaveIf (clientLanIp : UInt32) (s : AppState σ) : ℤ × AppState σ :=
  if clientLanIp = 0 then (-1, s)
  else if s.app.pwrSaveIfs.any (· = clientLanIp) then (0, s)
  else
    let ifs := ((updateFirst (fun p => p = 0) (fun _ => ((), clientLanIp)) s.app.pwrSaveIfs).map
      (·.2)).getD s.app.pwrSaveIfs
    let s : AppState σ := { s with app := { s.app with pwrSaveIfs := ifs } }
    (0, s.loop fun t e =>
      if e.privateIp = clientLanIp ∧ e.enabled = true then withdraw d s.app.natTableHdl 0 t e
      else (t, e))

/-- `NatApp::ResetPwrSaveIf()`; it always returns `-1`. -/
def resetPwrSaveIf (clientLanIp : UInt32) (s : AppState σ) : ℤ × AppState σ :=
  if clientLanIp = 0 then (-1, s)
  else
    let s : AppState σ :=
      { s with app := { s.app with pwrSaveIfs := clearPwrSaveIf clientLanIp s.app.pwrSaveIfs } }
    (-1, s.loop fun t e =>
      if e.privateIp = clientLanIp ∧ e.enabled = false then reinstall d s.app.natTableHdl t e
      else (t, e))

/-! ### Clients that leave -/

/-- `NatApp::DelEntriesOnClntDiscon()`: the rules go, the entries stay.  Unlike
`updatePwrSaveIf` it leaves the handle in the slot. -/
def delEntriesOnClntDiscon (ipAddr : UInt32) (s : AppState σ) : ℤ × AppState σ :=
  if ipAddr = 0 then (-1, s)
  else
    let s : AppState σ :=
      { s with app := { s.app with pwrSaveIfs := clearPwrSaveIf ipAddr s.app.pwrSaveIfs } }
    (0, s.loop fun t e =>
      if e.privateIp = ipAddr ∧ e.enabled = true then
        withdraw d s.app.natTableHdl e.ruleHdl t e
      else (t, e))

def delEntriesOnSTAClntDiscon (ipAddr : UInt32) (s : AppState σ) : ℤ × AppState σ :=
  if ipAddr = 0 then (-1, s)
  else
    (0, s.loop fun t e =>
      if e.targetIp = ipAddr then evict d s.app.natTableHdl t e else (t, e))

/-! ### Temporary entries -/

def addTempEntry (newEntry : NatTableEntry) (s : AppState σ) : AppState σ :=
  match updateFirst (fun e => e.privateIp = 0 ∧ e.targetIp = 0) (fun _ => ((), newEntry))
      s.app.temp with
  | none => s
  | some ((), temp) => { s with app := { s.app with temp := temp } }

def deleteTempEntry (entry : NatTableEntry) (s : AppState σ) : AppState σ :=
  match updateFirst (fun e => e.tuple = entry.tuple) (fun _ => ((), default)) s.app.temp with
  | none => s
  | some ((), temp) => { s with app := { s.app with temp := temp } }

/-- One turn of the loop of `NatApp::FlushTempEntries()`.  The 16-bit public
address of the entry is compared with the 32-bit address of the table. -/
def flushTempEntry (ipAddr : UInt32) (isAdd : Bool) (s : AppState σ) (e : NatTableEntry) :
    AppState σ × NatTableEntry :=
  if e.privateIp = ipAddr ∨ e.targetIp = ipAddr then
    if isAdd = true ∧ e.publicIp.toUInt32 = s.app.pubIpAddr then
      let (ret, s) := addEntry d e s
      if ret ≠ 0 then (s, e) else (s, default)
    else (s, default)
  else (s, e)

def flushTempEntries (ipAddr : UInt32) (isAdd : Bool) (s : AppState σ) : AppState σ :=
  let (s, temp) := forSlots (flushTempEntry d ipAddr isAdd) s s.app.temp
  { s with app := { s.app with temp := temp } }

/-! ### Operations -/

/-- The operations of `NatApp`. -/
inductive AppOp
  | addTable (pubIp : UInt32)
  | deleteTable (pubIp : UInt32)
  | addEntry (rule : NatTableEntry)
  | deleteEntry (rule : NatTableEntry)
  | cacheEntry (rule : NatTableEntry)
  | updatePwrSaveIf (ip : UInt32)
  | resetPwrSaveIf (ip : UInt32)
  | delEntriesOnClntDiscon (ip : UInt32)
  | delEntriesOnSTAClntDiscon (ip : UInt32)
  | addTempEntry (rule : NatTableEntry)
  | deleteTempEntry (rule : NatTableEntry)
  | flushTempEntries (ip : UInt32) (isAdd : Bool)
  deriving DecidableEq, Repr

/-- The state after an operation. -/
def AppOp.run (s : AppState σ) : AppOp → AppState σ
  | .addTable pubIp => (Ipacm.addTable d pubIp s).2
  | .deleteTable pubIp => (Ipacm.deleteTable d pubIp s).2
  | .addEntry rule => (Ipacm.addEntry d rule s).2
  | .deleteEntry rule => (Ipacm.deleteEntry d rule s).2
  | .cacheEntry rule => Ipacm.cacheEntry rule s
  | .updatePwrSaveIf ip => (Ipacm.updatePwrSaveIf d ip s).2
  | .resetPwrSaveIf ip => (Ipacm.resetPwrSaveIf d ip s).2
  | .delEntriesOnClntDiscon ip => (Ipacm.delEntriesOnClntDiscon d ip s).2
  | .delEntriesOnSTAClntDiscon ip => (Ipacm.delEntriesOnSTAClntDiscon d ip s).2
  | .addTempEntry rule => Ipacm.addTempEntry rule s
  | .deleteTempEntry rule => Ipacm.deleteTempEntry rule s
  | .flushTempEntries ip isAdd => Ipacm.flushTempEntries d ip isAdd s

end G4Common.Ipacm

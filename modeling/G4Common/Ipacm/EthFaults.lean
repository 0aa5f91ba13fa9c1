/-
The functions for ethernet clients (`EthClients`) when calls into the kernel fail.

A function makes its calls in an order that depends on the records, and the outcome
of each is given by its number.  An addition that fails makes the function return;
the handles stored before stay where they are.  `DeleteRoutingHdl()` has two ways to
fail: without memory it says so, and `delete_eth_rtrules()` returns at once; if the
kernel refuses, it jumps over the line that would say so, and the loop goes on.
-/
import G4Common.Ipacm.EthClients

namespace G4Common.Ipacm

/-- How a call goes: it is done, the kernel refuses, or there is no memory for it. -/
inductive Outcome
  | ok
  | refused
  | noMem
  deriving DecidableEq, Repr

/-! ### The kernel -/

section

variable (env : EthEnv) (o : Outcome) (k : EthKernel)

/-- `AddHeader()`, with the handle if it succeeds. -/
def addHeaderFault (hdr : EthHdr) : Option (EthKernel × Option UInt32) :=
  if o = .ok then (addHeader env k hdr).map fun r => (r.1, some r.2) else some (k, none)

/-- `AddRoutingRule()`, with the handle if it succeeds. -/
def addRoutingRuleFault (ip : IpType) (rule : RtRule) : Option (EthKernel × Option UInt32) :=
  if o = .ok then (addRoutingRule env k ip rule).map fun r => (r.1, some r.2) else some (k, none)

def deleteHeaderHdlFault (h : UInt32) : EthKernel × Bool :=
  if o = .ok ∨ h = 0 then deleteHeaderHdl k h
  else ({ k with hdrs := k.hdrs.refuse h }, false)

def deleteRoutingHdlFault (ip : IpType) (h : UInt32) : EthKernel × Bool :=
  if o = .ok ∨ h = 0 then (deleteRoutingHdl k ip h, true)
  else ({ k with rules := k.rules.refuse (ip, h) }, decide (o = .refused))

end

/-! ### Clients -/

section

variable (env : EthEnv) (out : ℕ → Outcome) (s : EthTable)

/-- The deletions of `delete_eth_rtrules()`, from call `n` on, with the number of the
next call and whether all went on. -/
def deleteRtHdls (ip : IpType) : List UInt32 → ℕ → EthKernel → EthKernel × ℕ × Bool
  | [], n, k => (k, n, true)
  | h :: rest, n, k =>
    let r := deleteRoutingHdlFault (out n) k ip h
    if r.2 then deleteRtHdls ip rest (n + 1) r.1 else (r.1, n + 1, false)

def deleteEthRtrulesFault (n i : ℕ) (ip : IpType) : EthTable × ℕ × Bool :=
  let c := s.ethClient i
  let r := deleteRtHdls out ip (rtHdls env c ip) n s.kernel
  if r.2.2 then
    ((s.withKernel r.1).setClient i (match ip with
      | .v4 => { c with routeRuleSetV4 := false }
      | .v6 => { c with routeRuleSetV6 := 0 }), r.2.1, true)
  else (s.withKernel r.1, r.2.1, false)

/-- A full header for a new client. -/
def addEthHdrFault (o : Outcome) (k : EthKernel) (c : EthClient) :
    IpType → Option (EthKernel × EthClient × Bool)
  | .v4 =>
    if .v4 ∈ env.tx then
      (addHeaderFault env o k ⟨.v4, c.mac⟩).map fun r =>
        match r.2 with
        | some h => (r.1, { c with hdrHdlV4 := h, ipv4HeaderSet := true }, true)
        | none => (r.1, c, false)
    else some (k, c, true)
  | .v6 =>
    if .v6 ∈ env.tx then
      (addHeaderFault env o k ⟨.v6, c.mac⟩).map fun r =>
        match r.2 with
        | some h => (r.1, { c with hdrHdlV6 := h, ipv6HeaderSet := true }, true)
        | none => (r.1, c, false)
    else some (k, c, true)

/-- `handle_eth_hdr_init()`.  Call 0 is for the IPv4 header, call 1 for the IPv6 one. -/
def handleEthHdrInitFault (mac : MacAddr) : Option (EthTable × Bool) :=
  match getEthClientIndex s mac with
  | some _ => some (s, false)
  | none =>
    if s.numEthClient ≥ maxNumEthClients then some (s, false)
    else
      let c := { s.ethClient s.numEthClient with mac := mac }
      if env.tx = [] then some (s.setClient s.numEthClient c, true)
      else do
        let r ← addEthHdrFault env (out 0) s.kernel c .v4
        if r.2.2 then
          let r ← addEthHdrFault env (out 1) r.1 r.2.1 .v6
          if r.2.2 then
            let c := { r.2.1 with
              routeRuleSetV4 := false, routeRuleSetV6 := 0, ipv4Set := false, ipv6Set := 0 }
            some ({ (s.withKernel r.1).setClient s.numEthClient c with
              numEthClient := s.numEthClient + 1 }, true)
          else some ((s.withKernel r.1).setClient s.numEthClient r.2.1, false)
        else some ((s.withKernel r.1).setClient s.numEthClient r.2.1, false)

/-- `handle_eth_client_ipaddr()`.  What `delete_eth_rtrules()` returns is not looked
at. -/
def handleEthClientIpaddrFault (data : EthData) : EthTable × Bool :=
  match getEthClientIndex s data.macAddr with
  | none => (s, false)
  | some i =>
    let c := s.ethClient i
    match data.iptype with
    | .v4 =>
      if data.ipv4Addr ≠ 0 then
        if c.ipv4Set = false then
          (s.setClient i { c with v4Addr := data.ipv4Addr, ipv4Set := true }, true)
        else if data.ipv4Addr = c.v4Addr then (s, false)
        else
          let s := (deleteEthRtrulesFault env out s 0 i .v4).1
          (s.setClient i { s.ethClient i with
            routeRuleSetV4 := false, v4Addr := data.ipv4Addr }, true)
      else (s, false)
    | .v6 =>
      if data.ipv6Addr ≠ 0 then
        if c.ipv6Set < ipv6NumAddr then
          if ∃ j < c.ipv6Set, data.ipv6Addr = c.v6Addr j then (s, false)
          else
            (s.setClient i { c with
              v6Addr := Function.update c.v6Addr c.ipv6Set data.ipv6Addr
              ipv6Set := c.ipv6Set + 1 }, true)
        else (s, false)
      else (s, true)

/-- The loop of `handle_eth_client_route_rule()` for IPv4, from call `n` on. -/
def addRtV4Fault : List ℕ → ℕ → EthKernel → EthClient → Option (EthKernel × EthClient × Bool)
  | [], _, k, c => some (k, c, true)
  | j :: rest, n, k, c => do
    let r ← addRoutingRuleFault env (out n) k .v4 (env.ruleV4 c j)
    match r.2 with
    | some h => addRtV4Fault rest (n + 1) r.1 (c.setRtV4 j h)
    | none => some (r.1, c, false)

/-- Store the IPv6 routing handle for the LAN table. -/
def EthClient.setRtLanV6 (c : EthClient) (x : ℕ × ℕ) (h : UInt32) : EthClient :=
  c.setRtV6 x h ((c.ethRtHdl x.1).v6Wan x.2)

/-- The loops of `handle_eth_client_route_rule()` for IPv6, from call `n` on. -/
def addRtV6Fault :
    List (ℕ × ℕ) → ℕ → EthKernel → EthClient → Option (EthKernel × EthClient × Bool)
  | [], _, k, c => some (k, c, true)
  | x :: rest, n, k, c => do
    let r ← addRoutingRuleFault env (out n) k .v6 (.lanV6 x.1 (c.v6Addr x.2))
    match r.2 with
    | none => some (r.1, c, false)
    | some h => do
      let r' ← addRoutingRuleFault env (out (n + 1)) r.1 .v6 (.wanV6 x.1 (c.v6Addr x.2) c.hdrHdlV6)
      match r'.2 with
      | none => some (r'.1, c.setRtLanV6 x h, false)
      | some h' => addRtV6Fault rest (n + 2) r'.1 (c.setRtV6 x h h')

/-- `handle_eth_client_route_rule()`. -/
def handleEthClientRouteRuleFault (mac : MacAddr) (ip : IpType) : Option EthTable :=
  if env.tx = [] then some s
  else
    match getEthClientIndex s mac with
    | none => some s
    | some i =>
      let c := s.ethClient i
      match ip with
      | .v4 =>
        if c.routeRuleSetV4 = false ∧ c.ipv4Set = true then
          (addRtV4Fault env out (env.txOf .v4) 0 s.kernel c).map fun r =>
            (s.withKernel r.1).setClient i (if r.2.2 then { r.2.1 with routeRuleSetV4 := true } else r.2.1)
        else some s
      | .v6 =>
        if c.routeRuleSetV6 < c.ipv6Set then
          (addRtV6Fault env out (env.v6Places c.routeRuleSetV6 c.ipv6Set) 0 s.kernel c).map fun r =>
            (s.withKernel r.1).setClient i (if r.2.2 then { r.2.1 with routeRuleSetV6 := r.2.1.ipv6Set } else r.2.1)
        else some s

/-- `handle_eth_client_down_evt()`. -/
def handleEthClientDownEvtFault (mac : MacAddr) : EthTable × Bool :=
  match getEthClientIndex s mac with
  | none => (s, true)
  | some i =>
    let r := deleteEthRtrulesFault env out s 0 i .v4
    if r.2.2 = false then (r.1, false)
    else
      let r := deleteEthRtrulesFault env out r.1 r.2.1 i .v6
      if r.2.2 = false then (r.1, false)
      else
        let s := r.1
        let n := r.2.1
        let c := s.ethClient i
        let r := if c.ipv4HeaderSet then deleteHeaderHdlFault (out n) s.kernel c.hdrHdlV4
          else (s.kernel, true)
        if r.2 = false then (s.withKernel r.1, false)
        else
          let c := { c with ipv4HeaderSet := false }
          let r := if c.ipv6HeaderSet then deleteHeaderHdlFault (out (n + 1)) r.1 c.hdrHdlV6
            else (r.1, true)
          if r.2 = false then ((s.withKernel r.1).setClient i c, false)
          else
            let c := { c with
              ipv4Set := false, ipv6Set := 0, ipv6HeaderSet := false, routeRuleSetV4 := false,
              routeRuleSetV6 := 0 }
            let s := (s.withKernel r.1).setClient i c
            ({ s with
              ethClient := shiftClients env (s.numEthClient - 1 - i) i s.ethClient
              numEthClient := s.numEthClient - 1 }, true)

end

/-! ### Runs -/

/-- The calls. -/
inductive EthFaultOp
  | hdrInit (mac : MacAddr)
  | ipaddr (data : EthData)
  | routeRule (mac : MacAddr) (ip : IpType)
  | downEvt (mac : MacAddr)

/-- One call, with the outcomes of its calls into the kernel. -/
def EthTable.stepFault (env : EthEnv) (out : ℕ → Outcome) (s : EthTable) :
    EthFaultOp → Option EthTable
  | .hdrInit mac => (handleEthHdrInitFault env out s mac).map Prod.fst
  | .ipaddr data => some (handleEthClientIpaddrFault env out s data).1
  | .routeRule mac ip => handleEthClientRouteRuleFault env out s mac ip
  | .downEvt mac => some (handleEthClientDownEvtFault env out s mac).1

/-- The states of the runs whose calls satisfy `ok`. -/
inductive EthFaultReach (env : EthEnv) (ok : EthTable → EthFaultOp → (ℕ → Outcome) → Prop) :
    EthTable → Prop
  | start : EthFaultReach env ok EthTable.init
  | step {s s' : EthTable} (op : EthFaultOp) (out : ℕ → Outcome) : EthFaultReach env ok s →
      ok s op out → s.stepFault env out op = some s' → EthFaultReach env ok s'

end G4Common.Ipacm

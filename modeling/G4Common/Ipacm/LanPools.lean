/-
The functions of `IPACM_Lan` for offload links (`ipacm/src/IPACM_Lan.cpp`):
headers, routing rules and filter rules between two clients.

An interface has three filter rules for offload links and three slots for headers,
for each IP type.  The filter rules are there from the start, as dummies.  To add a
filter, the first rule that is not in use is modified, and to delete one, the rule
with its handle is reset to the dummy.  The handle of the header is given by the
kernel, and kept in a slot.

Everything here is for one IP type; `LanOps.through` puts it into a larger state.
All calls of the kernel succeed.  Not modelled: the content of headers and routing
rules, and the names of headers.
-/
import G4Common.Ipacm.LanFull
import G4Common.Lib.SlotPool

namespace G4Common.Ipacm

open Function

def maxNumProp : ℕ := 8

/-- The part of an `IPACM_Lan` for offload links of one IP type:
`lan2lan_flt_rule_hdl_v4`, `num_lan2lan_flt_rule_v4`, `lan2lan_hdr_hdl_v4` and the
like for IPv6.  Beside it the filter rules in the kernel, by handle: the addresses
that a rule is for, `none` for a dummy. -/
structure LanPool (A : Type) where
  fltRule : List (Slot UInt32)
  numFltRule : UInt8
  hdr : List (Slot UInt32)
  rule : UInt32 → Option (A × A)

/-- The properties of the interfaces: whether there are any for receiving
(`rx_prop`), and how many of the IP type for sending (`tx_prop`; `none` if there
are none at all).  There are no more than the array of routing handles has room
for. -/
structure IfaceProps where
  rxProp : ℕ → Bool
  txProp : ℕ → Option ℕ
  tx_le : ∀ i n, txProp i = some n → n ≤ maxNumProp

/-- The handles that the kernel gives to new headers and rules, by the number of the
call and the headers of the interface that are installed: not 0, and not that of
an installed header. -/
structure HdlSupply where
  call : ℕ
  newHdl : ℕ → List UInt32 → UInt32
  fresh : ∀ n used, used.length ≤ 3 → newHdl n used ∉ used ∧ newHdl n used ≠ 0

/-- The interfaces, for one IP type. -/
structure LanIfaces (A : Type) where
  pool : ℕ → LanPool A
  supply : HdlSupply

variable {A K κ ρ : Type}

namespace LanIfaces

variable (k : LanIfaces A)

def setPool (i : ℕ) (p : LanPool A) : LanIfaces A :=
  { k with pool := update k.pool i p }

/-- The kernel has been called `n` times. -/
def calls (n : ℕ) : LanIfaces A :=
  { k with supply := { k.supply with call := k.supply.call + n } }

end LanIfaces

def usedHdls (l : List (Slot UInt32)) : List UInt32 := (l.filter Slot.valid).map Slot.hdl

section

variable (props : IfaceProps) (k : LanIfaces A) (i : ℕ)

/-- `add_lan2lan_hdr()`.  Without a property of the IP type for sending, the loop
does nothing, and the variable of the caller is left as it is. -/
def addLan2LanHdr (_src _dst : MacAddr) : LanIfaces A × Option UInt32 :=
  match props.txProp i with
  | none => (k, none)
  | some 0 => (k.calls 1, some (k.supply.newHdl k.supply.call []))
  | some _ =>
    let h := k.supply.newHdl k.supply.call (usedHdls (k.pool i).hdr)
    match Slot.takeFree (fun _ => h) (k.pool i).hdr with
    | none => (k, none)
    | some r => ((k.setPool i { k.pool i with hdr := r.2 }).calls 1, some h)

/-- `del_lan2lan_hdr()`.  `DeleteHeaderHdl()` refuses the handle 0. -/
def delLan2LanHdr (h : UInt32) : LanIfaces A × Bool :=
  if h = 0 then (k, false)
  else
    match Slot.release h (k.pool i).hdr with
    | none => (k, false)
    | some l => (k.setPool i { k.pool i with hdr := l }, true)

/-- `add_lan2lan_rt_rule()`: one rule for each property for sending. -/
def addLan2LanRtRule (_src _dst : A) (_hdr : UInt32) : LanIfaces A × Option (List UInt32) :=
  match props.txProp i with
  | none => (k, none)
  | some n => (k.calls n, some ((List.range n).map fun j => k.supply.newHdl (k.supply.call + j) []))

def delLan2LanRtRule (l : List UInt32) : LanIfaces A × Bool :=
  (k, decide (0 < l.length ∧ l.length ≤ maxNumProp))

def addLan2LanFltRule (src dst : A) : LanIfaces A × Option UInt32 :=
  if props.rxProp i = false then (k, none)
  else if (k.pool i).numFltRule ≥ maxOffloadPair then (k, none)
  else
    match Slot.takeFree id (k.pool i).fltRule with
    | none => (k, none)
    | some r =>
      (k.setPool i { k.pool i with
        fltRule := r.2
        numFltRule := (k.pool i).numFltRule + 1
        rule := update (k.pool i).rule r.1 (some (src, dst)) }, some r.1)

/-- `del_lan2lan_flt_rule()`: the slot is not tested to be in use. -/
def delLan2LanFltRule (h : UInt32) : LanIfaces A × Bool :=
  match Slot.release h (k.pool i).fltRule with
  | none => (k, false)
  | some l =>
    (k.setPool i { k.pool i with
      fltRule := l
      numFltRule := (k.pool i).numFltRule - 1
      rule := update (k.pool i).rule h none }, true)

/-- The functions of the interfaces, for one IP type. -/
def lan2LanOps : LanOps A (LanIfaces A) where
  addHdr := addLan2LanHdr props
  delHdr := delLan2LanHdr
  addRt := addLan2LanRtRule props
  delRt k _ l := delLan2LanRtRule k l
  addFlt := addLan2LanFltRule props
  delFlt := delLan2LanFltRule

end

/-- A part of a larger state, and what is beside it. -/
structure PartOf (κ σ ρ : Type) where
  get : κ → σ
  set : κ → σ → κ
  rest : κ → ρ
  get_set : ∀ k x, get (set k x) = x
  rest_set : ∀ k x, rest (set k x) = rest k

/-- The functions on a part of the state. -/
def LanOps.through {σ : Type} (part : PartOf κ σ ρ) (ops : LanOps A σ) : LanOps A κ where
  addHdr k i src dst := (ops.addHdr (part.get k) i src dst).map (part.set k) id
  delHdr k i h := (ops.delHdr (part.get k) i h).map (part.set k) id
  addRt k i src dst h := (ops.addRt (part.get k) i src dst h).map (part.set k) id
  delRt k i l := (ops.delRt (part.get k) i l).map (part.set k) id
  addFlt k i src dst := (ops.addFlt (part.get k) i src dst).map (part.set k) id
  delFlt k i h := (ops.delFlt (part.get k) i h).map (part.set k) id

end G4Common.Ipacm

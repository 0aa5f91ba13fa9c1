/-
The routing rules for USB clients behind the ethernet bridge
(`eth_bridge_add_usb_client_rt_rule()` and `eth_bridge_del_usb_client_rt_rule()` of
`ipacm/src/IPACM_Lan.cpp`).

There are two tables, one for each IP type, and a client may be in one, in the other or in both.
A deletion looks into the table for IPv4 first, and returns if the client is not there.

So a deletion removes all of a client if and only if the client is not in the table for IPv6
alone (`usbRtRules_iff`).

The kernel gives a handle for each rule; a step is impossible if it gives one that is 0 or in
use, or not one for each rule.  All calls succeed.  Not modelled: the content of the rules
other than the address, what stands in the tables behind the clients in use, pointers that are
null, and `malloc()` that fails.
-/
import G4Common.Ipacm.EthClients
import G4Common.Lib.StepRuns

namespace G4Common.Ipacm

open Function List Option

/-! ### The tables -/

/-- `IPA_LAN_TO_LAN_MAX_USB_CLIENT`. -/
def lanToLanMaxUsbClient : ℕ := 1

inductive WlanHdrType
  | l2EthernetII
  | l2Ieee8023
  | other
  deriving DecidableEq, Repr

/-- `eth_bridge_client_rt_info`. -/
structure ClientRtInfo where
  mac : MacAddr
  rtRuleHdl : List UInt32

/-- `eth_bridge_usb_client_rt_info_v4` and the like for IPv6, and the routing rules in the kernel,
with the address that each is for. -/
structure UsbRtTables where
  rtInfo : IpType → List ClientRtInfo
  rules : HdlTable (IpType × UInt32) MacAddr

namespace UsbRtTables

def init : UsbRtTables := ⟨fun _ => [], .empty⟩

variable (txProp : Option (List IpType)) (s : UsbRtTables) (mac : MacAddr)

/-- The place of a client in a table. -/
def find (iptype : IpType) : Option ℕ := (s.rtInfo iptype).findIdx? fun r => r.mac = mac

/-- `eth_bridge_add_usb_client_rt_rule()`, for the state of the header processing context and the
header type of the WLAN at the call, and the handles the kernel gives. -/
def addUsbClientRtRule (iptype : IpType) (hdrProcCtxValid : Bool) (wlanHdrType : WlanHdrType)
    (hdls : List UInt32) : Option (UsbRtTables × Bool) :=
  match txProp with
  | none => some (s, true)
  | some tx =>
    if (s.rtInfo iptype).length = lanToLanMaxUsbClient then some (s, false)
    else if hdrProcCtxValid = false then some (s, false)
    else if (s.find mac iptype).isSome then some (s, true)
    else if iptype ∈ tx ∧ wlanHdrType = .other then some (s, false)
    -- one rule for each property of the IP type
    else if hdls.length ≠ tx.count iptype ∨ 0 ∈ hdls then none
    else
      (s.rules.addAll mac (hdls.map fun h => (iptype, h))).map fun rules =>
        (⟨update s.rtInfo iptype (s.rtInfo iptype ++ [⟨mac, hdls⟩]), rules⟩, true)

/-- Delete the rules of the client at a place, and move the later clients up. -/
def remove (iptype : IpType) (position : ℕ) : UsbRtTables :=
  let hdls := (((s.rtInfo iptype)[position]?).map ClientRtInfo.rtRuleHdl).getD []
  ⟨update s.rtInfo iptype ((s.rtInfo iptype).eraseIdx position),
    s.rules.delAll (hdls.map fun h => (iptype, h))⟩

/-- `eth_bridge_del_usb_client_rt_rule()`. -/
def delUsbClientRtRule : UsbRtTables × Bool :=
  match txProp with
  | none => (s, true)
  | some _ =>
    match s.find mac .v4 with
    | none => (s, false)
    | some i =>
      let s := s.remove .v4 i
      match s.find mac .v6 with
      | none => (s, false)
      | some j => (s.remove .v6 j, true)

end UsbRtTables

/-- The calls. -/
inductive UsbRtCall
  | add (mac : MacAddr) (iptype : IpType) (hdrProcCtxValid : Bool) (wlanHdrType : WlanHdrType)
      (hdls : List UInt32)
  | del (mac : MacAddr)

namespace UsbRtTables

def step (txProp : Option (List IpType)) (s : UsbRtTables) : UsbRtCall → Option UsbRtTables
  | .add mac iptype valid wlanHdrType hdls =>
    (s.addUsbClientRtRule txProp mac iptype valid wlanHdrType hdls).map Prod.fst
  | .del mac => some (s.delUsbClientRtRule txProp mac).1

/-- The client is gone from both tables with its rules, and the others are as before. -/
structure Removed (s s' : UsbRtTables) (mac : MacAddr) : Prop where
  absent : ∀ iptype, ∀ r ∈ s'.rtInfo iptype, r.mac ≠ mac
  deleted : ∀ hdl, s'.rules.installed hdl ≠ some mac
  others : ∀ iptype (r : ClientRtInfo), r.mac ≠ mac →
    (r ∈ s'.rtInfo iptype ↔ r ∈ s.rtInfo iptype)
  rules : ∀ hdl mac', mac' ≠ mac →
    (s'.rules.installed hdl = some mac' ↔ s.rules.installed hdl = some mac')

/-- A deletion removes the client. -/
def Removes (txProp : Option (List IpType)) (s : UsbRtTables) : UsbRtCall → Prop
  | .add .. => True
  | .del mac => s.Removed (s.delUsbClientRtRule txProp mac).1 mac

/-- A client that is deleted is not in the table for IPv6 alone. -/
def NotV6Only (s : UsbRtTables) : UsbRtCall → Prop
  | .add .. => True
  | .del mac => (∃ r ∈ s.rtInfo .v6, r.mac = mac) → ∃ r ∈ s.rtInfo .v4, r.mac = mac

/-! ### The records -/

/-- The handles that a table keeps. -/
def recsOf (iptype : IpType) (l : List ClientRtInfo) : List ((IpType × UInt32) × MacAddr) :=
  l.flatMap fun r => (r.rtRuleHdl.map fun h => (iptype, h)).map fun h => (h, r.mac)

/-- The tables keep exactly the handles of the rules in the kernel, and no client is in a table
twice. -/
structure Ok (txProp : Option (List IpType)) (s : UsbRtTables) : Prop where
  ledger : s.rules.Ledger (recsOf .v4 (s.rtInfo .v4) ++ recsOf .v6 (s.rtInfo .v6))
  nodup : ∀ iptype, ((s.rtInfo iptype).map ClientRtInfo.mac).Nodup
  unused : txProp = none → ∀ iptype, s.rtInfo iptype = []

section

variable {txProp : Option (List IpType)} {s s' : UsbRtTables} {mac : MacAddr} {iptype : IpType}
variable {l1 l2 : List ClientRtInfo} {r : ClientRtInfo}

def otherType : IpType → IpType
  | .v4 => .v6
  | .v6 => .v4

theorem recs_perm (f : IpType → List ClientRtInfo) (iptype : IpType) :
    (recsOf .v4 (f .v4) ++ recsOf .v6 (f .v6)).Perm
      (recsOf iptype (f iptype) ++ recsOf (otherType iptype) (f (otherType iptype))) := by
  cases iptype with
  | v4 => exact List.Perm.refl _
  | v6 => exact perm_append_comm

theorem otherType_ne (iptype : IpType) : otherType iptype ≠ iptype := by
  cases iptype <;> decide

theorem eq_or_other (iptype ip : IpType) : ip = iptype ∨ ip = otherType iptype := by
  cases iptype <;> cases ip <;> decide

theorem Ok.installed_iff (h : s.Ok txProp) {hdl : UInt32} :
    s.rules.installed (iptype, hdl) = some mac ↔
      ∃ r ∈ s.rtInfo iptype, r.mac = mac ∧ hdl ∈ r.rtRuleHdl := by
  rw [h.ledger.mem_iff, (recs_perm s.rtInfo iptype).mem_iff, mem_append]
  have hother : ((iptype, hdl), mac) ∉ recsOf (otherType iptype) (s.rtInfo (otherType iptype)) := by
    intro hmem
    simp only [recsOf, mem_flatMap, List.mem_map, Prod.mk.injEq] at hmem
    obtain ⟨r, -, x, ⟨h', -, rfl⟩, hx, -⟩ := hmem
    exact otherType_ne iptype (congrArg Prod.fst hx)
  rw [or_iff_left hother]
  simp only [recsOf, mem_flatMap, List.mem_map, Prod.mk.injEq]
  constructor
  · rintro ⟨r, hr, x, ⟨h', hh', rfl⟩, hx, rfl⟩
    obtain rfl : h' = hdl := congrArg Prod.snd hx
    exact ⟨r, hr, rfl, hh'⟩
  · rintro ⟨r, hr, rfl, hh⟩
    exact ⟨r, hr, (iptype, hdl), ⟨hdl, hh, rfl⟩, rfl, rfl⟩

theorem find_split {i : ℕ} (hi : s.find mac iptype = some i) :
    ∃ l1 r l2, s.rtInfo iptype = l1 ++ r :: l2 ∧ l1.length = i ∧ r.mac = mac := by
  obtain ⟨hlt, hmac, -⟩ := findIdx?_eq_some_iff_getElem.mp hi
  refine ⟨(s.rtInfo iptype).take i, (s.rtInfo iptype)[i], (s.rtInfo iptype).drop (i + 1), ?_, ?_,
    by simpa using hmac⟩
  · rw [← drop_eq_getElem_cons hlt, take_append_drop]
  · rw [length_take]
    omega

theorem find_eq_none : s.find mac iptype = none ↔ ∀ r ∈ s.rtInfo iptype, r.mac ≠ mac := by
  unfold find
  rw [findIdx?_eq_none_iff]
  simp

theorem remove_split (hl : s.rtInfo iptype = l1 ++ r :: l2) : s.remove iptype l1.length
    = ⟨update s.rtInfo iptype (l1 ++ l2),
      s.rules.delAll (r.rtRuleHdl.map fun h => (iptype, h))⟩ := by
  have hread : (s.rtInfo iptype)[l1.length]? = some r := by
    rw [hl, getElem?_append_right le_rfl, Nat.sub_self]
    rfl
  have herase : (s.rtInfo iptype).eraseIdx l1.length = l1 ++ l2 := by
    rw [hl, eraseIdx_append_of_length_le le_rfl, Nat.sub_self]
    rfl
  unfold remove
  rw [hread, herase]
  rfl

/-- **Removing a client from a table** deletes its rules for that IP type, and keeps the tables in
order. -/
theorem Ok.remove (h : s.Ok txProp) {i : ℕ} (hi : s.find mac iptype = some i) :
    (s.remove iptype i).Ok txProp ∧
      (∀ r ∈ (s.remove iptype i).rtInfo iptype, r.mac ≠ mac) ∧
      (∀ r : ClientRtInfo, r.mac ≠ mac →
        (r ∈ (s.remove iptype i).rtInfo iptype ↔ r ∈ s.rtInfo iptype)) ∧
      (s.remove iptype i).rtInfo (otherType iptype) = s.rtInfo (otherType iptype) := by
  obtain ⟨l1, r, l2, hl, rfl, rfl⟩ := find_split hi
  have hnodup := h.nodup iptype
  rw [hl, map_append, map_cons, nodup_middle, ← map_append,
    nodup_cons] at hnodup
  rw [remove_split hl]
  dsimp only
  rw [update_self, update_of_ne (otherType_ne iptype)]
  refine ⟨⟨?_, fun ip => ?_, fun htx => ?_⟩, fun r' hr' heq => ?_, fun r' hne => ?_, rfl⟩
  · -- the records of the client come first
    have hperm := recs_perm (update s.rtInfo iptype (l1 ++ l2)) iptype
    rw [update_self, update_of_ne (otherType_ne iptype)] at hperm
    refine HdlTable.Ledger.perm ?_ hperm.symm
    refine HdlTable.Ledger.delAll (o := r.mac) (h.ledger.perm ((recs_perm s.rtInfo iptype).trans ?_))
    rw [hl, ← append_assoc]
    refine List.Perm.append_right _ ?_
    simp only [recsOf, flatMap_append, flatMap_cons]
    rw [← append_assoc, ← append_assoc]
    exact perm_append_comm.append_right _
  · dsimp only
    rcases eq_or_other iptype ip with rfl | rfl
    · rw [update_self]
      exact hnodup.2
    · rw [update_of_ne (otherType_ne iptype)]
      exact h.nodup _
  · rw [h.unused htx] at hl
    exact absurd hl (by simp)
  · exact hnodup.1 (heq ▸ mem_map_of_mem hr')
  rw [hl]
  simp only [mem_append, mem_cons]
  constructor
  · rintro (hr' | hr')
    · exact .inl hr'
    · exact .inr (.inr hr')
  rintro (hr' | rfl | hr')
  · exact .inl hr'
  · exact absurd rfl hne
  · exact .inr hr'

theorem removed_of (h : s.Ok txProp) (h' : s'.Ok txProp) (habsent : ∀ iptype, ∀ r ∈ s'.rtInfo iptype, r.mac ≠ mac)
    (hothers : ∀ iptype (r : ClientRtInfo), r.mac ≠ mac →
      (r ∈ s'.rtInfo iptype ↔ r ∈ s.rtInfo iptype)) : s.Removed s' mac where
  absent := habsent
  deleted := by
    rintro ⟨iptype, hdl⟩ hinst
    obtain ⟨r, hr, hmac, -⟩ := h'.installed_iff.mp hinst
    exact habsent iptype r hr hmac
  others := hothers
  rules := by
    rintro ⟨iptype, _⟩ _ hne
    rw [h.installed_iff, h'.installed_iff]
    constructor
    · rintro ⟨r, hr, rfl, hh⟩
      exact ⟨r, (hothers iptype r hne).mp hr, rfl, hh⟩
    · rintro ⟨r, hr, rfl, hh⟩
      exact ⟨r, (hothers iptype r hne).mpr hr, rfl, hh⟩

theorem Ok.init : init.Ok txProp where
  ledger := HdlTable.Ledger.nil
  nodup := fun _ => nodup_nil
  unused := fun _ _ => rfl

theorem Ok.add (h : s.Ok txProp) {valid : Bool} {wlanHdrType : WlanHdrType} {hdls : List UInt32}
    {res : Bool} (hs : s.addUsbClientRtRule txProp mac iptype valid wlanHdrType hdls
      = some (s', res)) : s'.Ok txProp := by
  have hsame : ∀ b : Bool, some (s, b) = some (s', res) → s'.Ok txProp := by
    intro b heq
    obtain ⟨rfl, -⟩ := Prod.mk.inj (some.inj heq)
    exact h
  unfold addUsbClientRtRule at hs
  cases htx : txProp with
  | none =>
    rw [htx] at hs hsame
    exact hsame _ hs
  | some tx =>
    rw [htx] at hs hsame
    dsimp only at hs
    -- the ways out before anything is installed
    split at hs
    · exact hsame _ hs
    split at hs
    · exact hsame _ hs
    split at hs
    · exact hsame _ hs
    rename_i hnew
    split at hs
    · exact hsame _ hs
    split at hs
    · exact nomatch hs
    -- the client and its rules are new
    obtain ⟨_, hadd, heq⟩ := map_eq_some_iff.mp hs
    obtain ⟨rfl, -⟩ := Prod.mk.inj heq
    rw [Bool.not_eq_true, isSome_eq_false_iff, isNone_iff_eq_none, find_eq_none] at hnew
    refine ⟨?_, fun ip => ?_, nofun⟩
    · have hperm := recs_perm (update s.rtInfo iptype (s.rtInfo iptype ++ [⟨mac, hdls⟩])) iptype
      rw [update_self, update_of_ne (otherType_ne iptype)] at hperm
      refine ((h.ledger.perm (recs_perm s.rtInfo iptype)).addAll hadd).perm (List.Perm.trans ?_ hperm.symm)
      simp only [recsOf, flatMap_append, flatMap_cons, flatMap_nil, append_nil]
      rw [← append_assoc]
      exact perm_append_comm.append_right _
    dsimp only
    rcases eq_or_other iptype ip with rfl | rfl
    · rw [update_self, map_append, map_singleton, nodup_append_comm, singleton_append, nodup_cons]
      refine ⟨fun hmem => ?_, h.nodup ip⟩
      obtain ⟨r, hr, hmac⟩ := mem_map.mp hmem
      exact hnew r hr hmac
    · rw [update_of_ne (otherType_ne iptype)]
      exact h.nodup _

/-- A deletion keeps the tables in order, and removes the client if and only if it is not in the
table for IPv6 alone. -/
theorem Ok.del (h : s.Ok txProp) (mac : MacAddr) : (s.delUsbClientRtRule txProp mac).1.Ok txProp ∧
      (Removes txProp s (.del mac) ↔ NotV6Only s (.del mac)) := by
  unfold Removes NotV6Only delUsbClientRtRule
  cases htx : txProp with
  | none =>
    -- no client was ever added
    rw [htx] at h
    have hempty := h.unused rfl
    refine ⟨h, iff_of_true (removed_of h h (fun ip r hr => ?_) fun _ _ _ => Iff.rfl) ?_⟩
    · rw [hempty] at hr
      exact nomatch hr
    · rintro ⟨r, hr, -⟩
      rw [hempty] at hr
      exact nomatch hr
  | some =>
  rw [htx] at h
  dsimp only
  cases hv4 : s.find mac .v4 with
  | none =>
    -- the function returns here
    rw [find_eq_none] at hv4
    refine ⟨h, fun hrem hv6 => ?_, fun hno => removed_of h h (fun ip => ?_) fun _ _ _ => Iff.rfl⟩
    · obtain ⟨r, hr, hmac⟩ := hv6
      exact absurd hmac (hrem.absent .v6 r hr)
    cases ip with
    | v4 => exact hv4
    | v6 =>
      intro r hr hmac
      obtain ⟨r', hr', hmac'⟩ := hno ⟨r, hr, hmac⟩
      exact hv4 r' hr' hmac'
  | some i =>
    obtain ⟨hok1, habs1, hothers1, hkeep1⟩ := h.remove hv4
    have hcond : (∃ r ∈ s.rtInfo .v6, r.mac = mac) → ∃ r ∈ s.rtInfo .v4, r.mac = mac := by
      obtain ⟨_, r, _, hl, -, hmac⟩ := find_split hv4
      exact fun _ => ⟨r, hl ▸ by simp, hmac⟩
    dsimp only
    cases hv6 : (s.remove .v4 i).find mac .v6 with
    | none =>
      -- the client was in the table for IPv4 alone
      rw [find_eq_none] at hv6
      refine ⟨hok1, iff_of_true (removed_of h hok1 (fun ip => ?_) fun ip r hne => ?_) hcond⟩
      · cases ip with
        | v4 => exact habs1
        | v6 => exact hv6
      · cases ip with
        | v4 => exact hothers1 r hne
        | v6 => exact iff_of_eq (congrArg (r ∈ ·) hkeep1)
    | some =>
      obtain ⟨hok2, habs2, hothers2, hkeep2⟩ := hok1.remove hv6
      refine ⟨hok2, iff_of_true (removed_of h hok2 (fun ip => ?_) fun ip r hne => ?_) hcond⟩
      · cases ip with
        | v4 =>
          intro r hr
          exact habs1 r (hkeep2 ▸ hr)
        | v6 => exact habs2
      · cases ip with
        | v4 => exact (iff_of_eq (congrArg (r ∈ ·) hkeep2)).trans (hothers1 r hne)
        | v6 => exact (hothers2 r hne).trans (iff_of_eq (congrArg (r ∈ ·) hkeep1))

theorem Ok.step (h : s.Ok txProp) {call : UsbRtCall} (hs : s.step txProp call = some s') : s'.Ok txProp := by
  cases call with
  | add =>
    obtain ⟨r, hadd, rfl⟩ := map_eq_some_iff.mp hs
    exact h.add hadd
  | del mac =>
    cases hs
    exact (h.del mac).1

end

/-- **Every deletion of a run removes its client**, if and only if no client is deleted while it is
in the table for IPv6 alone. -/
theorem usbRtRules_iff (txProp : Option (List IpType)) (calls : List UsbRtCall) :
    AtSteps (step txProp) (Removes txProp) init calls ↔ AtSteps (step txProp) NotV6Only init calls := by
  refine AtSteps.iff_of_step (I := fun s => s.Ok txProp) (fun s call h => ?_)
    (fun s call s' h _ hs => h.step hs) Ok.init
  cases call with
  | add => exact Iff.rfl
  | del mac => exact (h.del mac).2

/-- A client that was added for IPv6 only is still there after it is deleted. -/
theorem usbRtRules_fails : ¬ AtSteps (step (some [.v4, .v6])) (Removes (some [.v4, .v6])) init
    [.add 2 .v6 true .l2EthernetII [5], .del 2] := by
  rintro ⟨-, hrest⟩
  obtain ⟨hrem, -⟩ := hrest _ rfl
  exact hrem.absent .v6 ⟨2, [5]⟩ (mem_of_getElem? (i := 0) rfl) rfl

end UsbRtTables

end G4Common.Ipacm

/-
The address tables of the listener.

The listener keeps three fixed tables of addresses, in which 0 marks a free
slot: the STA clients, and the clients on NAT and on other interfaces.  Each is
meant to hold a set: the addresses that were added and not deleted since, which
the runs here carry along.

An addition takes the first slot that is free or has the address.  A deletion
leaves its slot free wherever it is.  So an addition may stop at a free slot
before it meets the address, and the STA check of `ProcessTCPorUDPMsg()`, which
reads slot 0 and the first `StaClntCnt` slots, may miss clients behind a free
slot.  The STA table is right as long as only its last client is deleted.  The
table of the other interfaces is not searched for duplicates at all.
-/
import G4Common.Ipacm.CtListener

namespace G4Common.Ipacm

open List

/-! ### STA clients -/

/-- The mask of a /24 subnet. -/
def subnetMask24 : UInt32 := 0xFFFFFF00

/-- The clients stand in the first slots, all in one subnet. -/
structure StaCompact (l : CtListener) (S : Finset UInt32) (front : List UInt32) : Prop where
  slots : l.staClntIpv4Addr = front ++ replicate (maxStaClntIfaces - front.length) 0
  size : front.length ≤ maxStaClntIfaces
  nodup : front.Nodup
  nonzero : (0 : UInt32) ∉ front
  members : front.toFinset = S
  count : l.staClntCnt = front.length
  subnet : ∀ a ∈ front, ∀ b ∈ front, a &&& subnetMask24 = b &&& subnetMask24

/-- The table of STA clients holds the set `S`, and the check for a target lets
through the members of `S` and what is in none of their subnets. -/
structure StaExact (l : CtListener) (S : Finset UInt32) : Prop where
  mem_iff : ∀ a, a ≠ 0 → (a ∈ l.staClntIpv4Addr ↔ a ∈ S)
  distinct : l.staClntIpv4Addr.Pairwise fun a b => a ≠ 0 → a ≠ b
  count : l.staClntCnt = S.card
  check : l.isStaMode = true → S.Nonempty → ∀ rule, l.staFilter rule = true ↔
    rule.targetIp ∈ S ∨ ∀ a ∈ S, a &&& subnetMask24 ≠ rule.targetIp &&& subnetMask24

section

variable {l : CtListener} {S : Finset UInt32} {front : List UInt32} {ip : UInt32}

section

variable (h : StaCompact l S front)
include h

theorem StaCompact.slotSet : SlotSet 0 l.staClntIpv4Addr S where
  mem_iff := fun a ha => by
    rw [h.slots, ← h.members, mem_toFinset, mem_append, mem_replicate]
    simp [ha]
  free := by
    rw [← h.members, mem_toFinset]
    exact h.nonzero
  distinct := by
    rw [h.slots, pairwise_append]
    have hfront : front.Pairwise fun a b => a ≠ 0 → a ≠ b := by
      refine List.Pairwise.imp (fun {a b} hne _ => ?_) h.nodup
      exact hne
    refine ⟨hfront, pairwise_replicate.mpr (.inr fun h0 => absurd rfl h0), fun a ha b hb hne => ?_⟩
    rw [(mem_replicate.mp hb).2]
    exact hne

theorem StaCompact.take_eq : l.staClntIpv4Addr.take l.staClntCnt.toNat = front := by
  rw [h.slots, h.count, Int.toNat_natCast, take_left]

theorem StaCompact.staFilter_iff (hsta : l.isStaMode) (hS : S.Nonempty) (rule : NatTableEntry) : l.staFilter rule ↔
      rule.targetIp ∈ S ∨ ∀ a ∈ S, a &&& subnetMask24 ≠ rule.targetIp &&& subnetMask24 := by
  obtain ⟨c, hc⟩ := hS
  rw [← h.members, mem_toFinset] at hc
  have hcnt : l.staClntCnt ≠ 0 := by
    rw [h.count]
    have := length_pos_of_mem hc
    omega
  -- slot 0 is a client, and stands for the subnet of all
  have hhead : l.staClntIpv4Addr.headD 0 ∈ front := by
    rw [h.slots]
    cases front with
    | nil => simp at hc
    | cons => simp
  have hsub : l.staClntIpv4Addr.headD 0 &&& 0xFFFFFF00 ≠ rule.targetIp &&& 0xFFFFFF00 ↔
      ∀ a ∈ S, a &&& subnetMask24 ≠ rule.targetIp &&& subnetMask24 := by
    rw [← h.members]
    constructor
    · intro hne a ha heq
      exact hne ((h.subnet _ hhead a (mem_toFinset.mp ha)).trans heq)
    · intro hall
      exact hall _ (mem_toFinset.mpr hhead)
  unfold CtListener.staFilter
  rw [decide_eq_true_iff, h.take_eq, hsub]
  simp only [hsta, Bool.true_eq_false, hcnt, false_or, any_eq_true, decide_eq_true_eq, exists_eq_right']
  rw [← h.members, mem_toFinset]
  exact or_comm

theorem StaCompact.exact : StaExact l S where
  mem_iff := h.slotSet.mem_iff
  distinct := h.slotSet.distinct
  count := by rw [h.count, ← h.members, toFinset_card_of_nodup h.nodup]
  check := h.staFilter_iff

end

theorem StaCompact.init (w : UInt32) (m : Bool) : StaCompact (CtListener.init w m) ∅ [] where
  slots := rfl
  size := Nat.zero_le _
  nodup := nodup_nil
  nonzero := not_mem_nil
  members := rfl
  count := rfl
  subnet := by simp

theorem StaCompact.add (h : StaCompact l S front) (hip : ip ≠ 0) (hroom : (insert ip S).card ≤ maxStaClntIfaces)
    (hnet : ∀ a ∈ S, a &&& subnetMask24 = ip &&& subnetMask24) :
    ∃ front', StaCompact (l.handleSTAClientAddEvt ip) (insert ip S) front' := by
  have hcard : S.card = front.length := by
    rw [← h.members, toFinset_card_of_nodup h.nodup]
  unfold CtListener.handleSTAClientAddEvt
  by_cases hmem : ip ∈ S
  · -- a duplicate: no free slot stands before it
    rw [Finset.insert_eq_of_mem hmem]
    refine ⟨front, ?_⟩
    split
    · exact h
    have hfront : ip ∈ front := by rwa [← h.members, mem_toFinset] at hmem
    split
    · rename_i addrs hupd
      obtain ⟨l1, x, _, hl, hno, -, hx, -⟩ := updateFirst_eq_some.mp hupd
      have hx0 : x = 0 := of_decide_eq_true hx.symm
      have hl1 : ip ∉ l1 := fun hin => by simpa [hip] using hno ip hin
      rw [h.slots, hx0] at hl
      rcases append_eq_append_iff.mp hl with ⟨r, hr, -⟩ | ⟨r, hr, hrest⟩
      · exact absurd (hr ▸ mem_append_left _ hfront) hl1
      cases r with
      | nil =>
        rw [append_nil] at hr
        exact absurd (hr ▸ hfront) hl1
      | cons =>
        obtain ⟨rfl, -⟩ := cons.inj hrest
        exact absurd (hr ▸ by simp) h.nonzero
    · exact h
  rw [Finset.card_insert_of_notMem hmem, hcard] at hroom
  have hfront : ip ∉ front := by rwa [← h.members, mem_toFinset] at hmem
  have hlt : ¬ l.staClntCnt ≥ maxStaClntIfaces := by
    rw [h.count]
    omega
  have hupd : updateFirst (fun a => decide (a ≠ 0 ∧ a = ip ∨ a = 0))
      (fun a => (decide (a = 0), ip)) l.staClntIpv4Addr
      = some (true, front ++ ip :: replicate (maxStaClntIfaces - (front.length + 1)) 0) := by
    refine updateFirst_eq_some.mpr ⟨front, 0, replicate _ 0, ?_, fun a ha => ?_, by simp,
      by simp, rfl⟩
    · rw [h.slots, ← replicate_succ]
      congr 2
      omega
    · have ha0 : a ≠ 0 := fun h0 => h.nonzero (h0 ▸ ha)
      have hai : a ≠ ip := fun h0 => hfront (h0 ▸ ha)
      simp [ha0, hai]
  rw [if_neg hlt, hupd]
  refine ⟨front ++ [ip], ?_, ?_, ?_, ?_, ?_, ?_, ?_⟩
  · simp
  · simpa using hroom
  · rw [nodup_append]
    refine ⟨h.nodup, nodup_singleton _, fun a ha b hb => ?_⟩
    rw [mem_singleton.mp hb]
    rintro rfl
    exact hfront ha
  · simp [h.nonzero, hip.symm]
  · ext a
    simp [← h.members]
  · simp [h.count]
  have hold : ∀ a ∈ front, a &&& subnetMask24 = ip &&& subnetMask24 := fun a ha =>
    hnet a (by rwa [← h.members, mem_toFinset])
  intro a ha b hb
  have hval : ∀ c ∈ front ++ [ip], c &&& subnetMask24 = ip &&& subnetMask24 := fun c hc => by
    rcases mem_append.mp hc with hc | hc
    · exact hold c hc
    · rw [mem_singleton.mp hc]
  rw [hval a ha, hval b hb]

theorem StaCompact.del (h : StaCompact l S front)
    (hlast : ∀ l1 l2, l.staClntIpv4Addr = l1 ++ ip :: l2 → ∀ a ∈ l2, a = 0) :
    ∃ front', StaCompact (l.handleSTAClientDelEvt ip).1 (S.erase ip) front' := by
  unfold CtListener.handleSTAClientDelEvt
  cases hupd : updateFirst (fun a => decide (a ≠ 0 ∧ a = ip)) (fun _ => ((), (0 : UInt32))) l.staClntIpv4Addr with
  | none =>
    have hno : ip ∉ S := fun hmem => by
      have hip : ip ≠ 0 := fun h0 => h.slotSet.free (h0 ▸ hmem)
      simpa [hip] using updateFirst_eq_none.mp hupd ip ((h.slotSet.mem_iff ip hip).mpr hmem)
    rw [Finset.erase_eq_of_notMem hno]
    exact ⟨front, h⟩
  | some r =>
    obtain ⟨⟨⟩, _⟩ := r
    obtain ⟨l1, x, l2, hl, -, hx, -, rfl⟩ := updateFirst_eq_some.mp hupd
    obtain ⟨hx0, rfl⟩ := of_decide_eq_true hx
    have hzero := hlast l1 l2 hl
    have hl2 : l2 = replicate l2.length 0 := eq_replicate_iff.mpr ⟨rfl, hzero⟩
    have hlen : l1.length + (l2.length + 1) = maxStaClntIfaces := by
      have hsize := congrArg length h.slots
      have hsize' := h.size
      rw [hl] at hsize
      simp only [length_append, length_cons, length_replicate] at hsize
      omega
    -- the last client stands right before the free slots
    have hfront : front = l1 ++ [x] := by
      have heq := h.slots
      rw [hl, hl2, append_cons] at heq
      rcases append_eq_append_iff.mp heq with ⟨r, hr, hrest⟩ | ⟨r, hr, hrest⟩
      · cases r with
        | nil => simpa using hr
        | cons y =>
          have hy : y ∈ replicate l2.length (0 : UInt32) := by
            rw [hrest]
            simp
          rw [eq_of_mem_replicate hy] at hr
          exact absurd (hr ▸ by simp) h.nonzero
      rcases eq_nil_or_concat r with rfl | ⟨r, y, rfl⟩
      · simpa using hr.symm
      have hy : y ∈ replicate (maxStaClntIfaces - front.length) (0 : UInt32) := by
        rw [hrest]
        simp
      rw [concat_eq_append, ← append_assoc, eq_of_mem_replicate hy] at hr
      exact absurd (append_singleton_inj.mp hr).2 hx0
    refine ⟨l1, ?_, ?_, ?_, ?_, ?_, ?_, ?_⟩
    · show l1 ++ 0 :: l2 = _
      rw [hl2, ← replicate_succ]
      congr 2
      omega
    · omega
    · have hnd := h.nodup
      rw [hfront, nodup_append] at hnd
      exact hnd.1
    · have hnz := h.nonzero
      rw [hfront] at hnz
      exact fun h0 => hnz (mem_append_left _ h0)
    · have hnd := h.nodup
      rw [hfront, nodup_append] at hnd
      ext a
      rw [← h.members, hfront]
      simp only [mem_toFinset, Finset.mem_erase, mem_append, mem_singleton]
      constructor
      · exact fun ha => ⟨hnd.2.2 a ha x (by simp), Or.inl ha⟩
      · exact fun ha => ha.2.resolve_right ha.1
    · show l.staClntCnt - 1 = _
      rw [h.count, hfront]
      simp
    · intro a ha b hb
      exact h.subnet a (by simp [hfront, ha]) b (by simp [hfront, hb])

end

/-- `HandleSTAClientAddEvt()` and `HandleSTAClientDelEvt()`. -/
inductive StaEvent
  | add (ip : UInt32)
  | del (ip : UInt32)

namespace StaEvent

def ip : StaEvent → UInt32
  | add ip | del ip => ip

def handle (l : CtListener) : StaEvent → CtListener
  | add ip => l.handleSTAClientAddEvt ip
  | del ip => (l.handleSTAClientDelEvt ip).1

/-- The clients added and not deleted since. -/
def members (S : Finset UInt32) : StaEvent → Finset UInt32
  | add ip => insert ip S
  | del ip => S.erase ip

/-- A new client is in the subnet of the others; no client stands behind the one
that leaves. -/
def Orderly (l : CtListener) (S : Finset UInt32) : StaEvent → Prop
  | add ip => ∀ a ∈ S, a &&& subnetMask24 = ip &&& subnetMask24
  | del ip => ∀ l1 l2, l.staClntIpv4Addr = l1 ++ ip :: l2 → ∀ a ∈ l2, a = 0

end StaEvent

/-- The states of runs of STA events with non-zero addresses that satisfy `ok`,
with the clients added and not deleted since, at most `MAX_STA_CLNT_IFACES`. -/
inductive StaReach (ok : CtListener → Finset UInt32 → StaEvent → Prop) :
    CtListener → Finset UInt32 → Prop
  | start (wanIpaddr : UInt32) (isStaMode : Bool) :
      StaReach ok (CtListener.init wanIpaddr isStaMode) ∅
  | step {l : CtListener} {S : Finset UInt32} (ev : StaEvent) : StaReach ok l S → ev.ip ≠ 0 →
      (ev.members S).card ≤ maxStaClntIfaces → ok l S ev → StaReach ok (ev.handle l) (ev.members S)

/-- **The table of STA clients is their set, and the check follows it**, in every
state of the runs in which only the last client of the table is deleted and all
clients are of one subnet. -/
theorem staClients_exact {l : CtListener} {S : Finset UInt32}
    (h : StaReach (fun l S ev => ev.Orderly l S) l S) : StaExact l S := by
  have hcompact : ∃ front, StaCompact l S front := by
    induction h with
    | start w m => exact ⟨[], StaCompact.init w m⟩
    | step ev _ hip hroom hok ih =>
      obtain ⟨front, hf⟩ := ih
      cases ev with
      | add => exact hf.add hip hroom hok
      | del => exact hf.del hok
  obtain ⟨_, hf⟩ := hcompact
  exact hf.exact

theorem staClients_exact_sample :
    ∃ l, StaReach (fun l S ev => ev.Orderly l S) l {0xC0A80002, 0xC0A80003} ∧ l.isStaMode ∧
      StaExact l {0xC0A80002, 0xC0A80003} := by
  have h1 : StaReach (fun l S ev => ev.Orderly l S) _ _ :=
    (StaReach.start 0 true).step (.add 0xC0A80003) (by decide) (by decide)
      fun a ha => absurd ha (Finset.notMem_empty a)
  have h2 := h1.step (.add 0xC0A80002) (by decide) (by decide) fun a ha => by
    obtain rfl : a = 0xC0A80003 := Finset.mem_singleton.mp ha
    decide
  exact ⟨_, h2, rfl, staClients_exact h2⟩

/-- A connection to 192.168.0.4. -/
def sampleStaRule : NatTableEntry := { (default : NatTableEntry) with targetIp := 0xC0A80004 }

/-- A client that is added again after another has left stands in the table
twice.  After a client in the middle has left, a connection to the last one does
not pass the check. -/
theorem staClients_holes : (∃ l S, StaReach (fun _ _ _ => True) l S ∧ ¬ StaExact l S ∧
      ¬ l.staClntIpv4Addr.Pairwise fun a b => a ≠ 0 → a ≠ b) ∧
    (∃ l S, StaReach (fun _ _ _ => True) l S ∧ ¬ StaExact l S ∧ l.isStaMode ∧
      ∃ rule, rule.targetIp ∈ S ∧ l.staFilter rule = false) := by
  have h1 : StaReach (fun _ _ _ => True) _ _ :=
    (StaReach.start 0 true).step (.add 0xC0A80002) (by decide) (by decide) trivial
  have h2 := h1.step (.add 0xC0A80003) (by decide) (by decide) trivial
  have h3 := (h2.step (.del 0xC0A80002) (by decide) (by decide) trivial).step (.add 0xC0A80003)
    (by decide) (by decide) trivial
  have h4 := (h2.step (.add 0xC0A80004) (by decide) (by decide) trivial).step (.del 0xC0A80003)
    (by decide) (by decide) trivial
  have hdup : ¬ ((StaEvent.add 0xC0A80003).handle ((StaEvent.del 0xC0A80002).handle
      ((StaEvent.add 0xC0A80003).handle ((StaEvent.add 0xC0A80002).handle
        (CtListener.init 0 true))))).staClntIpv4Addr.Pairwise fun a b => a ≠ 0 → a ≠ b := by
    decide
  have hmiss : ((StaEvent.del 0xC0A80003).handle ((StaEvent.add 0xC0A80004).handle
      ((StaEvent.add 0xC0A80003).handle ((StaEvent.add 0xC0A80002).handle
        (CtListener.init 0 true))))).staFilter sampleStaRule = false := by
    decide
  refine ⟨⟨_, _, h3, fun hex => hdup hex.distinct, hdup⟩, _, _, h4, fun hex => ?_, rfl,
    sampleStaRule, by decide, hmiss⟩
  have hpass := (hex.check rfl ⟨0xC0A80004, by decide⟩ sampleStaRule).mpr (.inl (by decide))
  exact nomatch hpass.symm.trans hmiss

/-! ### Neighbours -/

/-- The two tables of neighbours hold the sets `A` and `B`. -/
structure NeighSets (l : CtListener) (A B : Finset UInt32) : Prop where
  nat : SlotSet 0 l.natIfaceIpv4Addr A
  nonnat : SlotSet 0 l.nonnatIfaceIpv4Addr B
  natSize : l.natIfaceIpv4Addr.length = maxNatIfaces
  nonnatSize : l.nonnatIfaceIpv4Addr.length = maxNatIfaces
  disjoint : Disjoint A B

/-- The tables of neighbours hold the set `S`: each member in one slot of one of
them. -/
structure NeighExact (l : CtListener) (S : Finset UInt32) : Prop where
  nat_distinct : l.natIfaceIpv4Addr.Pairwise fun a b => a ≠ 0 → a ≠ b
  nonnat_distinct : l.nonnatIfaceIpv4Addr.Pairwise fun a b => a ≠ 0 → a ≠ b
  not_both : ∀ a, a ≠ 0 → a ∈ l.natIfaceIpv4Addr → a ∉ l.nonnatIfaceIpv4Addr
  mem_iff : ∀ a, a ≠ 0 → (a ∈ l.natIfaceIpv4Addr ∨ a ∈ l.nonnatIfaceIpv4Addr ↔ a ∈ S)

/-- The data of an event of a client with a non-zero IPv4 address, and the
configuration at that time. -/
structure NeighAdd where
  config : Option Config
  data : NeighData
  ipv4 : data.isIpv4 = true
  nonzero : data.ipv4Addr ≠ 0

/-- The interface has a name, and there are NAT interfaces.  The handler ignores
the event otherwise. -/
def NeighAdd.Found (e : NeighAdd) (config : Config) (ifname : String) : Prop :=
  e.config = some config ∧ e.data.ifname = some ifname ∧ config.natIfaces ≠ []

/-- `HandleNeighIpAddrAddEvt()` and `HandleNeighIpAddrDelEvt()`. -/
inductive NeighEvent
  | add (data : NeighAdd)
  | del (ip : UInt32)

namespace NeighEvent

def handle (l : CtListener) : NeighEvent → CtListener × List AppOp
  | add e => l.handleNeighIpAddrAddEvt e.config e.data
  | del ip => l.handleNeighIpAddrDelEvt ip

/-- The addresses added and not deleted since. -/
def members (S : Finset UInt32) : NeighEvent → Finset UInt32
  | add e => insert e.data.ipv4Addr S
  | del ip => S.erase ip

/-- The address is new and its interface is found, or the address is there: then
the event is ignored, or it is a NAT client again and no free slot stands before
it. -/
def Orderly (l : CtListener) (S : Finset UInt32) : NeighEvent → Prop
  | add e => e.data.ipv4Addr ∉ S ∧ (∃ config ifname, e.Found config ifname) ∨
      e.data.ipv4Addr ∈ S ∧ ∀ config ifname, e.Found config ifname → ifname ∈ config.natIfaces ∧
        ∃ l1 l2, l.natIfaceIpv4Addr = l1 ++ e.data.ipv4Addr :: l2 ∧ (0 : UInt32) ∉ l1
  | del _ => True

end NeighEvent

section

variable {l : CtListener} {A B S : Finset UInt32} {ip : UInt32} {config : Config} {ifname : String}

theorem NeighSets.exact (h : NeighSets l A B) : NeighExact l (A ∪ B) where
  nat_distinct := h.nat.distinct
  nonnat_distinct := h.nonnat.distinct
  not_both := fun a ha hA hB => Finset.disjoint_left.mp h.disjoint ((h.nat.mem_iff a ha).mp hA)
    ((h.nonnat.mem_iff a ha).mp hB)
  mem_iff := fun a ha => by rw [Finset.mem_union, h.nat.mem_iff a ha, h.nonnat.mem_iff a ha]

theorem handle_add_ignored (e : NeighAdd) (hno : ∀ config ifname, ¬ e.Found config ifname) :
    (NeighEvent.add e).handle l = (l, []) := by
  show l.handleNeighIpAddrAddEvt e.config e.data = _
  unfold CtListener.handleNeighIpAddrAddEvt
  rw [if_neg (by simp [e.ipv4, e.nonzero])]
  cases hc : e.config with
  | none => rfl
  | some config =>
    cases hi : e.data.ifname with
    | none => rfl
    | some ifname =>
      have hempty : config.natIfaces = [] := by
        by_contra hne
        exact hno config ifname ⟨hc, hi, hne⟩
      dsimp only
      rw [if_pos hempty]

theorem handle_add_nonnat (e : NeighAdd) (hfound : e.Found config ifname) (hnat : ifname ∉ config.natIfaces) :
    (NeighEvent.add e).handle l = l.cacheNonnatIface e.data.ipv4Addr := by
  obtain ⟨hconfig, hname, hifaces⟩ := hfound
  show l.handleNeighIpAddrAddEvt e.config e.data = _
  unfold CtListener.handleNeighIpAddrAddEvt
  rw [if_neg (by simp [e.ipv4, e.nonzero]), hconfig, hname]
  dsimp only
  rw [if_neg hifaces, if_neg hnat]

/-- The search in the NAT table stops at a slot that is free (`new`) or has the
address. -/
theorem handle_add_nat (e : NeighAdd) (hfound : e.Found config ifname) (hnat : ifname ∈ config.natIfaces)
    {new : Bool} {addrs : List UInt32} (hupd : updateFirst (fun a => decide (a = e.data.ipv4Addr ∨ a = 0))
      (fun a => (decide (a = 0), e.data.ipv4Addr)) l.natIfaceIpv4Addr = some (new, addrs)) :
    (NeighEvent.add e).handle l =
      if new then ({ l with natIfaceIpv4Addr := addrs },
        [.resetPwrSaveIf e.data.ipv4Addr, .flushTempEntries e.data.ipv4Addr true])
      else (l, []) := by
  obtain ⟨hconfig, hname, hifaces⟩ := hfound
  show l.handleNeighIpAddrAddEvt e.config e.data = _
  unfold CtListener.handleNeighIpAddrAddEvt
  rw [if_neg (by simp [e.ipv4, e.nonzero]), hconfig, hname]
  dsimp only
  rw [if_neg hifaces, if_pos hnat, hupd]
  cases new <;> rfl

theorem NeighSets.addNonnat (h : NeighSets l A B) (hip : ip ≠ 0) (hA : ip ∉ A) (hB : ip ∉ B)
    (hroom : B.card < maxNatIfaces) : NeighSets (l.cacheNonnatIface ip).1 A (insert ip B) := by
  have hfree : (0 : UInt32) ∈ l.nonnatIfaceIpv4Addr := h.nonnat.exists_free (h.nonnatSize ▸ hroom)
  unfold CtListener.cacheNonnatIface
  cases hupd : updateFirst (fun a => decide (a = 0)) (fun _ => ((), ip)) l.nonnatIfaceIpv4Addr with
  | none => simpa using updateFirst_eq_none.mp hupd 0 hfree
  | some r =>
    obtain ⟨⟨⟩, _⟩ := r
    obtain ⟨_, x, _, hl, -, hx, -, rfl⟩ := updateFirst_eq_some.mp hupd
    have hx0 : x = 0 := of_decide_eq_true hx
    subst hx0
    have hset := h.nonnat
    have hsize := h.nonnatSize
    rw [hl] at hset hsize
    refine ⟨h.nat, hset.insert hip hB, h.natSize, by simpa using hsize, ?_⟩
    rw [Finset.disjoint_insert_right]
    exact ⟨hA, h.disjoint⟩

theorem NeighSets.addNat (h : NeighSets l A B) (e : NeighAdd) (hfound : e.Found config ifname)
    (hnat : ifname ∈ config.natIfaces) (hA : e.data.ipv4Addr ∉ A) (hB : e.data.ipv4Addr ∉ B) (hroom : A.card < maxNatIfaces) :
    NeighSets ((NeighEvent.add e).handle l).1 (insert e.data.ipv4Addr A) B := by
  have hfree : (0 : UInt32) ∈ l.natIfaceIpv4Addr := h.nat.exists_free (h.natSize ▸ hroom)
  cases hupd : updateFirst (fun a => decide (a = e.data.ipv4Addr ∨ a = 0))
      (fun a => (decide (a = 0), e.data.ipv4Addr)) l.natIfaceIpv4Addr with
  | none => simpa using updateFirst_eq_none.mp hupd 0 hfree
  | some r =>
    obtain ⟨_, _⟩ := r
    rw [handle_add_nat e hfound hnat hupd]
    obtain ⟨_, x, _, hl, -, hx, rfl, rfl⟩ := updateFirst_eq_some.mp hupd
    have hset := h.nat
    have hsize := h.natSize
    rw [hl] at hset hsize
    -- the address itself is in no slot
    have hx0 : x = 0 := by
      refine (of_decide_eq_true hx).resolve_left fun heq => hA ?_
      exact (h.nat.mem_iff _ e.nonzero).mp (hl ▸ by simp [heq])
    subst hx0
    refine ⟨hset.insert e.nonzero hA, h.nonnat, by simpa using hsize, h.nonnatSize, ?_⟩
    rw [Finset.disjoint_insert_left]
    exact ⟨hB, h.disjoint⟩

/-- An orderly addition of an address that is there does nothing. -/
theorem neighAdd_again (e : NeighAdd) (hok : (NeighEvent.add e).Orderly l S) (hmem : e.data.ipv4Addr ∈ S) :
    (NeighEvent.add e).handle l = (l, []) := by
  obtain ⟨hnot, -⟩ | ⟨-, hagain⟩ := hok
  · exact absurd hmem hnot
  by_cases hfound : ∃ config ifname, e.Found config ifname
  swap
  · exact handle_add_ignored e fun config ifname h => hfound ⟨config, ifname, h⟩
  obtain ⟨config, ifname, hfound⟩ := hfound
  obtain ⟨hnat, l1, l2, hl, hfree⟩ := hagain config ifname hfound
  cases hupd : updateFirst (fun a => decide (a = e.data.ipv4Addr ∨ a = 0))
      (fun a => (decide (a = 0), e.data.ipv4Addr)) l.natIfaceIpv4Addr with
  | none =>
    have hno := updateFirst_eq_none.mp hupd e.data.ipv4Addr (hl ▸ by simp)
    simp at hno
  | some r =>
    obtain ⟨_, _⟩ := r
    rw [handle_add_nat e hfound hnat hupd]
    obtain ⟨_, x, _, hm, hno, _, rfl, -⟩ := updateFirst_eq_some.mp hupd
    have hx0 : x ≠ 0 := by
      rintro rfl
      rw [hl] at hm
      rcases append_eq_append_iff.mp hm with ⟨r, hr, hrest⟩ | ⟨r, hr, hrest⟩
      · cases r with
        | nil => exact e.nonzero (cons.inj hrest).1
        | cons =>
          obtain ⟨rfl, -⟩ := cons.inj hrest
          have := hno e.data.ipv4Addr (hr ▸ by simp)
          simp at this
      cases r with
      | nil => exact e.nonzero (cons.inj hrest).1.symm
      | cons =>
        obtain ⟨rfl, -⟩ := cons.inj hrest
        exact hfree (hr ▸ by simp)
    simp [hx0]

theorem NeighSets.del (h : NeighSets l A B) (ip : UInt32) :
    NeighSets ((NeighEvent.del ip).handle l).1 (A.erase ip) (B.erase ip) := by
  show NeighSets (l.handleNeighIpAddrDelEvt ip).1 _ _
  unfold CtListener.handleNeighIpAddrDelEvt
  split_ifs with hip
  · rw [hip, Finset.erase_eq_of_notMem h.nat.free, Finset.erase_eq_of_notMem h.nonnat.free]
    exact h
  · exact ⟨h.nat.map_erase, h.nonnat.map_erase, by simpa using h.natSize, by simpa using h.nonnatSize,
      h.disjoint.mono (Finset.erase_subset _ _) (Finset.erase_subset _ _)⟩

end

/-- The states of runs of neighbour events that satisfy `ok`, with the addresses
added and not deleted since, at most `MAX_NAT_IFACES`. -/
inductive NeighReach (ok : CtListener → Finset UInt32 → NeighEvent → Prop) :
    CtListener → Finset UInt32 → Prop
  | start (wanIpaddr : UInt32) (isStaMode : Bool) :
      NeighReach ok (CtListener.init wanIpaddr isStaMode) ∅
  | step {l : CtListener} {S : Finset UInt32} (ev : NeighEvent) : NeighReach ok l S →
      (ev.members S).card ≤ maxNatIfaces → ok l S ev →
      NeighReach ok (ev.handle l).1 (ev.members S)

section

variable {l : CtListener} {S : Finset UInt32} (h : NeighReach (fun l S ev => ev.Orderly l S) l S)
include h

theorem NeighReach.sets : ∃ A B, NeighSets l A B ∧ A ∪ B = S := by
  induction h with
  | start =>
    exact ⟨∅, ∅, ⟨SlotSet.nil_of_replicate _, SlotSet.nil_of_replicate _, length_replicate,
      length_replicate, Finset.disjoint_empty_left _⟩, rfl⟩
  | @step l S ev _ hroom hok ih =>
    obtain ⟨A, B, hs, rfl⟩ := ih
    cases ev with
    | add e =>
      by_cases hmem : e.data.ipv4Addr ∈ A ∪ B
      · rw [neighAdd_again e hok hmem]
        exact ⟨A, B, hs, (Finset.insert_eq_of_mem hmem).symm⟩
      obtain ⟨-, config, ifname, hfound⟩ := hok.resolve_right fun hagain => hmem hagain.1
      have hcard : (A ∪ B).card < maxNatIfaces := by
        rw [NeighEvent.members, Finset.card_insert_of_notMem hmem] at hroom
        omega
      have hA := Finset.card_le_card (@Finset.subset_union_left _ _ A B)
      have hB := Finset.card_le_card (@Finset.subset_union_right _ _ A B)
      rw [Finset.mem_union, not_or] at hmem
      by_cases hnat : ifname ∈ config.natIfaces
      · exact ⟨_, B, hs.addNat e hfound hnat hmem.1 hmem.2 (by omega), Finset.insert_union ..⟩
      · refine ⟨A, insert e.data.ipv4Addr B, ?_, Finset.union_insert ..⟩
        rw [handle_add_nonnat e hfound hnat]
        exact hs.addNonnat e.nonzero hmem.1 hmem.2 (by omega)
    | del ip => exact ⟨_, _, hs.del ip, (Finset.erase_union_distrib ..).symm⟩

/-- **The tables of neighbours are sets**, in every state of the runs in which an
address is added when it is in neither table, on an interface that is found, or
is a NAT client again and no free slot stands before it.  Such an addition again
changes nothing and calls nothing, nor does one that is ignored. -/
theorem neighTables_exact :
    NeighExact l S ∧ ∀ e : NeighAdd, (NeighEvent.add e).Orderly l S → e.data.ipv4Addr ∈ S →
      (NeighEvent.add e).handle l = (l, []) := by
  obtain ⟨A, B, hs, rfl⟩ := h.sets
  exact ⟨hs.exact, fun e hok hmem => neighAdd_again e hok hmem⟩

end

/-- A client on an interface of this name, where these interfaces have NAT. -/
def sampleNeighAdd (natIfaces : List String) (ifname : String) (ip : UInt32) (hip : ip ≠ 0) : NeighAdd where
  config := some ⟨natIfaces, []⟩
  data := ⟨ip, true, some ifname⟩
  ipv4 := rfl
  nonzero := hip

/-- A client on the interface with NAT, and its address again: first while no
interface has NAT, then on its own. -/
theorem neighTables_exact_sample :
    ∃ l, NeighReach (fun l S ev => ev.Orderly l S) l {0xC0A80102} ∧ NeighExact l {0xC0A80102} ∧
      l.natIfaceIpv4Addr.count 0xC0A80102 = 1 ∧
      (NeighEvent.add (sampleNeighAdd ["bridge0"] "bridge0" 0xC0A80102 (by decide))).handle l = (l, []) := by
  have h1 : NeighReach (fun l S ev => ev.Orderly l S) _ _ :=
    (NeighReach.start 0 false).step (.add (sampleNeighAdd ["bridge0"] "bridge0" 0xC0A80102 (by decide)))
      (by decide) (.inl ⟨by decide, _, _, rfl, rfl, by simp⟩)
  have h2 := h1.step (.add (sampleNeighAdd [] "bridge0" 0xC0A80102 (by decide))) (by decide)
    (.inr ⟨by decide, fun config ifname hfound => absurd (Option.some.inj hfound.1 ▸ rfl) hfound.2.2⟩)
  refine ⟨_, h2, (neighTables_exact h2).1, by decide, (neighTables_exact h2).2 _ (.inr ⟨by decide, ?_⟩) (by decide)⟩
  rintro config ifname ⟨hconfig, hname, -⟩
  cases hconfig
  cases hname
  exact ⟨by decide, [], _, rfl, by simp⟩

/-- An address without NAT that is added again stands in its table twice, and the
temporary entries are flushed again.  A NAT address that is added again after
another has left stands in its table twice.  An address that changes to an
interface without NAT is in both tables.  And while no interface has NAT, a new
address is in no table. -/
theorem neighTables_duplicates : (∃ l S, NeighReach (fun _ _ _ => True) l S ∧ ¬ NeighExact l S ∧
      ∃ e : NeighAdd, e.data.ipv4Addr ∈ S ∧ ((NeighEvent.add e).handle l).2 ≠ []) ∧
    (∃ l S, NeighReach (fun _ _ _ => True) l S ∧ ¬ l.natIfaceIpv4Addr.Pairwise fun a b => a ≠ 0 → a ≠ b) ∧
    (∃ l S, NeighReach (fun _ _ _ => True) l S ∧
      ∃ a, a ≠ 0 ∧ a ∈ l.natIfaceIpv4Addr ∧ a ∈ l.nonnatIfaceIpv4Addr) ∧
    ∃ l S, NeighReach (fun _ _ _ => True) l S ∧
      ∃ a ∈ S, a ∉ l.natIfaceIpv4Addr ∧ a ∉ l.nonnatIfaceIpv4Addr := by
  have h₀ : NeighReach (fun _ _ _ => True) _ _ := NeighReach.start 0 false
  have h1 := (h₀.step (.add (sampleNeighAdd ["bridge0"] "wlan0" 0xC0A80102 (by decide))) (by decide)
    trivial).step (.add (sampleNeighAdd ["bridge0"] "wlan0" 0xC0A80102 (by decide))) (by decide) trivial
  have hb := h₀.step (.add (sampleNeighAdd ["bridge0"] "bridge0" 0xC0A80102 (by decide))) (by decide) trivial
  have h2 := ((hb.step (.add (sampleNeighAdd ["bridge0"] "bridge0" 0xC0A80103 (by decide))) (by decide)
    trivial).step (.del 0xC0A80102) (by decide) trivial).step
    (.add (sampleNeighAdd ["bridge0"] "bridge0" 0xC0A80103 (by decide))) (by decide) trivial
  have h3 := hb.step (.add (sampleNeighAdd ["bridge0"] "wlan0" 0xC0A80102 (by decide))) (by decide) trivial
  have h4 := h₀.step (.add (sampleNeighAdd [] "bridge0" 0xC0A80102 (by decide))) (by decide) trivial
  exact ⟨⟨_, _, h1, fun hex => absurd hex.nonnat_distinct (by decide),
    sampleNeighAdd ["bridge0"] "wlan0" 0xC0A80102 (by decide), by decide, by decide⟩,
    ⟨_, _, h2, by decide⟩, ⟨_, _, h3, 0xC0A80102, by decide, by decide, by decide⟩,
    _, _, h4, 0xC0A80102, by decide, by decide, by decide⟩

end G4Common.Ipacm

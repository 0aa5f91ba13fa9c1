/-
The cache of neighbours (`IPACM_Neighbor`, `ipacm/src/IPACM_Neighbor.cpp`).

The kernel reports neighbours by MAC, and a WLAN driver reports clients that come back.  The
cache has one entry for each MAC that was seen on an interface other than the bridge: the
interface and the last IPv4 address.  It is used in two ways.  A neighbour on the bridge gets
the interface of its entry, and a client that comes back gets its address again.

New and deleted neighbours go through the same code, which stores the address of either.  So
after the deletion of an old address the cache holds that address.  `eventCallback_spec` says
which address the cache holds for each MAC after an event, and `neighbor_exact` says in which
runs that is the one of the last new neighbour.

The interfaces may change between events, so what a query says about them is given with the
event, as are the answer of `malloc()` and the bytes that are on the stack where a client has
no MAC.  Not modelled: `data->if_index` is also changed for the caller, which no one reads.
-/
import G4Common.Ipacm.EthClients
import G4Common.Lib.CArray
import Mathlib.Data.List.Infix

namespace G4Common.Ipacm

open Function List Option

/-! ### Data -/

/-- `IPA_MAX_NUM_NEIGHBOR_CLIENTS`. -/
def maxNumNeighborClients : ℕ := 17

/-- `ipa_neighbor_client`. -/
structure NeighborClient where
  macAddr : MacAddr
  ifaceIndex : ℤ
  v4Addr : UInt32
  ipaIfNum : ℤ
  deriving DecidableEq

/-- The members of `IPACM_Neighbor`. -/
structure Neighbor where
  numNeighborClient : ℕ
  neighborClient : CArray NeighborClient

/-- The constructor.  The array keeps what was in its memory. -/
def Neighbor.init (mem : ℕ → NeighborClient) : Neighbor := ⟨0, maxNumNeighborClients, mem⟩

/-- An attribute of a WLAN client. -/
inductive WlanAttrib
  | macAddr (mac : MacAddr)
  | other

/-- `ipacm_event_data_all`. -/
structure NeighborData where
  ifIndex : ℤ
  iptype : IpType
  ipv4Addr : UInt32
  ipv6Addr : Ipv6Addr
  macAddr : MacAddr

/-- `IPA_NEW_NEIGH_EVENT` and `IPA_DEL_NEIGH_EVENT`. -/
inductive NeighKind
  | new
  | del
  deriving DecidableEq

/-- The events of `IPACM_Neighbor`: `IPA_WLAN_CLIENT_ADD_EVENT_EX` and the two of neighbours. -/
inductive NeighEvt
  | clientAdd (ifIndex : ℤ) (attribs : List WlanAttrib)
  | neigh (kind : NeighKind) (data : NeighborData)

/-- What is posted: `IPA_NEIGH_CLIENT_IP_ADDR_ADD_EVENT` or `.._DEL_EVENT` with a copy of the data,
or the first of them with an IPv4 address of the cache. -/
inductive NeighPost
  | copied (kind : NeighKind) (data : NeighborData)
  | cached (ifIndex : ℤ) (ipv4Addr : UInt32) (macAddr : MacAddr)

/-- What the code finds outside while it handles an event: `iface_ipa_index_query()`, whether an
interface is the bridge, whether there is memory, and the stack below `client_mac_addr`. -/
structure NeighEnv where
  ifaceIpaIndexQuery : ℤ → ℤ
  isVirtual : ℤ → Bool
  malloc : Bool
  stackMac : MacAddr

/-- Whether the interface with this index of the kernel is the bridge. -/
def NeighEnv.onBridge (e : NeighEnv) (ifIndex : ℤ) : Bool := e.isVirtual (e.ifaceIpaIndexQuery ifIndex)

/-! ### The functions -/

namespace Neighbor

variable (e : NeighEnv) (s : Neighbor)

/-- The loop that looks for a MAC; all five loops begin with it. -/
def find (mac : MacAddr) : Option (Option ℕ) :=
  findCell (fun i => (s.neighborClient.read i).map fun c => decide (c.macAddr = mac))
    s.numNeighborClient 0

/-- `neighbor_client[i] = c`. -/
def store (i : ℕ) (c : NeighborClient) : Option Neighbor :=
  (s.neighborClient.write i c).map fun a => { s with neighborClient := a }

/-- A new entry, if there is room. -/
def insert (c : NeighborClient) : Option Neighbor :=
  if s.numNeighborClient < maxNumNeighborClients then
    (s.store s.numNeighborClient c).map fun s =>
      { s with numNeighborClient := s.numNeighborClient + 1 }
  else some s

/-- What is done for a client that is back on an interface and that entry `i` is for. -/
def reconnect (ifIndex : ℤ) (i : ℕ) : Option (Neighbor × List NeighPost) :=
  if e.onBridge ifIndex then some (s, []) else do
    let c ← s.neighborClient.read i
    let c : NeighborClient := if ifIndex ≠ c.ifaceIndex then { c with ifaceIndex := ifIndex } else c
    let s ← s.store i c
    if e.ifaceIpaIndexQuery ifIndex ≠ c.ipaIfNum then return (s, [])
    if c.v4Addr = 0 then return (s, [])
    if e.malloc = false then return (s, [])
    return (s, [.cached c.ifaceIndex c.v4Addr c.macAddr])

/-- A WLAN client is back; the last attribute with a MAC counts. -/
def clientAdd (ifIndex : ℤ) (attribs : List WlanAttrib) : Option (Neighbor × List NeighPost) := do
  let mac := attribs.foldl (fun m a => match a with | .macAddr x => x | .other => m) e.stackMac
  match ← s.find mac with
  | some i => reconnect e s ifIndex i
  | none => return (s, [])

/-- A neighbour with an IPv4 address. -/
def neighV4 (kind : NeighKind) (d : NeighborData) : Option (Neighbor × List NeighPost) :=
  if e.onBridge d.ifIndex then do
    match ← s.find d.macAddr with
    | some i =>
      let c ← s.neighborClient.read i
      let d : NeighborData := { d with ifIndex := c.ifaceIndex }
      let s ← s.store i { c with v4Addr := d.ipv4Addr }
      if e.malloc = false then return (s, [])
      return (s, [.copied kind d])
    | none => return (s, [])
  else if e.malloc = false then some (s, [])
  else do
    let ipaIf := e.ifaceIpaIndexQuery d.ifIndex
    match ← s.find d.macAddr with
    | some i =>
      let c ← s.neighborClient.read i
      let s ← s.store i { c with ifaceIndex := d.ifIndex, ipaIfNum := ipaIf, v4Addr := d.ipv4Addr }
      return (s, [.copied kind d])
    | none =>
      let s ← s.insert ⟨d.macAddr, d.ifIndex, d.ipv4Addr, ipaIf⟩
      return (s, [.copied kind d])

/-- A neighbour with an IPv6 address. -/
def neighV6 (kind : NeighKind) (d : NeighborData) : Option (Neighbor × List NeighPost) :=
  if e.onBridge d.ifIndex then do
    match ← s.find d.macAddr with
    | some i =>
      let c ← s.neighborClient.read i
      if e.malloc = false then return (s, [])
      return (s, [.copied kind { d with ifIndex := c.ifaceIndex }])
    | none => return (s, [])
  else if e.malloc = false then some (s, [])
  else some (s, [.copied kind d])

/-- A neighbour with no address. -/
def neighNone (d : NeighborData) : Option (Neighbor × List NeighPost) := do
  match ← s.find d.macAddr with
  | some i => reconnect e s d.ifIndex i
  | none =>
    if e.onBridge d.ifIndex then return (s, [])
    let s ← s.insert ⟨d.macAddr, d.ifIndex, 0, e.ifaceIpaIndexQuery d.ifIndex⟩
    return (s, [])

def eventCallback : NeighEvt → Option (Neighbor × List NeighPost)
  | .clientAdd ifIndex attribs => clientAdd e s ifIndex attribs
  | .neigh kind d =>
    match d.iptype with
    | .v4 => if d.ipv4Addr ≠ 0 then neighV4 e s kind d else some (s, [])
    | .v6 => if ∀ i, d.ipv6Addr i = 0 then neighNone e s d else neighV6 e s kind d

/-! ### The cache as a map -/

def clients : List NeighborClient :=
  (range s.numNeighborClient).map s.neighborClient.get

/-- There is an entry for the MAC. -/
def Has (mac : MacAddr) : Prop := ∃ c ∈ s.clients, c.macAddr = mac

instance (mac : MacAddr) : Decidable (s.Has mac) :=
  inferInstanceAs (Decidable (∃ c ∈ s.clients, c.macAddr = mac))

/-- The IPv4 address that is cached for a MAC; 0 if there is none. -/
def v4Of (mac : MacAddr) : UInt32 :=
  ((s.clients.find? fun c => c.macAddr = mac).map fun c => c.v4Addr).getD 0

/-- One entry for each MAC, and no more entries than cells. -/
structure Wf : Prop where
  size_eq : s.neighborClient.size = maxNumNeighborClients
  num_le : s.numNeighborClient ≤ maxNumNeighborClients
  nodup : (s.clients.map fun c => c.macAddr).Nodup

variable {e s} {i : ℕ} {mac : MacAddr} {c : NeighborClient}

theorem mem_clients : c ∈ s.clients ↔ ∃ i < s.numNeighborClient, s.neighborClient.get i = c := by
  simp [clients]

theorem get_mem_clients (hi : i < s.numNeighborClient) : s.neighborClient.get i ∈ s.clients :=
  mem_clients.2 ⟨i, hi, rfl⟩

theorem Wf.inj (h : s.Wf) {j : ℕ} (hi : i < s.numNeighborClient) (hj : j < s.numNeighborClient)
    (hij : (s.neighborClient.get i).macAddr = (s.neighborClient.get j).macAddr) : i = j := by
  have hnd := h.nodup
  rw [clients, List.map_map] at hnd
  exact inj_on_of_nodup_map hnd (List.mem_range.2 hi) (List.mem_range.2 hj) hij

theorem Wf.v4Of_get (h : s.Wf) (hi : i < s.numNeighborClient) :
    s.v4Of (s.neighborClient.get i).macAddr = (s.neighborClient.get i).v4Addr := by
  cases hf : s.clients.find? (fun c => c.macAddr = (s.neighborClient.get i).macAddr) with
  | none =>
    have hne := find?_eq_none.1 hf _ (get_mem_clients hi)
    simp at hne
  | some =>
    obtain ⟨j, hj, rfl⟩ := mem_clients.1 (mem_of_find?_eq_some hf)
    have hm : (s.neighborClient.get j).macAddr = (s.neighborClient.get i).macAddr := by
      simpa using find?_some hf
    obtain rfl := h.inj hj hi hm
    rw [v4Of, hf]
    rfl

theorem v4Of_of_not_has (h : ¬ s.Has mac) : s.v4Of mac = 0 := by
  have hf : s.clients.find? (fun c => c.macAddr = mac) = none := by
    rw [find?_eq_none]
    intro c hc hm
    exact h ⟨c, hc, of_decide_eq_true hm⟩
  rw [v4Of, hf]
  rfl

theorem Wf.find_cases (h : s.Wf) (mac : MacAddr) :
    (s.find mac = some none ∧ ¬ s.Has mac) ∨
    ∃ i < s.numNeighborClient, s.find mac = some (some i) ∧
      (s.neighborClient.get i).macAddr = mac := by
  have hread : ∀ i, 0 ≤ i → i < 0 + s.numNeighborClient →
      ((s.neighborClient.read i).map fun c => decide (c.macAddr = mac))
        = some (decide ((s.neighborClient.get i).macAddr = mac)) := by
    intro i _ hi
    have hlt : i < s.neighborClient.size := by
      have := h.num_le
      have := h.size_eq
      omega
    rw [CArray.read_of_lt hlt]
    rfl
  rcases findCell_spec hread with ⟨hf, hall⟩ | ⟨k, hf, -, _, hq, -⟩
  · refine .inl ⟨hf, ?_⟩
    rintro ⟨c, hc, hm⟩
    obtain ⟨i, _, rfl⟩ := mem_clients.1 hc
    exact of_decide_eq_false (hall i (Nat.zero_le i) (by omega)) hm
  · exact .inr ⟨k, by omega, hf, of_decide_eq_true hq⟩

theorem Wf.read_of_lt (h : s.Wf) (hi : i < s.numNeighborClient) :
    s.neighborClient.read i = some (s.neighborClient.get i) := by
  have := h.num_le
  have := h.size_eq
  exact CArray.read_of_lt (by omega)

/-- The cache after a new value of entry `i`. -/
def withEntry (s : Neighbor) (i : ℕ) (c : NeighborClient) : Neighbor :=
  { s with neighborClient := s.neighborClient.set i c }

theorem Wf.store_eq (h : s.Wf) (hi : i < s.numNeighborClient) : s.store i c = some (s.withEntry i c) := by
  have := h.num_le
  have := h.size_eq
  rw [store, CArray.write_of_lt (by omega)]
  rfl

theorem Wf.insert_eq (h : s.Wf) (hlt : s.numNeighborClient < maxNumNeighborClients) :
    s.insert c = some { s.withEntry s.numNeighborClient c with
      numNeighborClient := s.numNeighborClient + 1 } := by
  have := h.size_eq
  rw [insert, if_pos hlt, store, CArray.write_of_lt (by omega)]
  rfl

theorem get_withEntry (j : ℕ) :
    (s.withEntry i c).neighborClient.get j = if j = i then c else s.neighborClient.get j := by
  show update s.neighborClient.get i c j = _
  rw [update_apply]

theorem Wf.change {s' : Neighbor} (h : s.Wf) (hsize : s'.neighborClient.size = maxNumNeighborClients)
    (hle : s'.numNeighborClient ≤ maxNumNeighborClients)
    (hnum : ∀ j, j < s'.numNeighborClient ↔ j < s.numNeighborClient ∨ j = i)
    (hget : ∀ j, s'.neighborClient.get j = if j = i then c else s.neighborClient.get j)
    (hown : ∀ j < s.numNeighborClient, (s.neighborClient.get j).macAddr = c.macAddr ↔ j = i) :
    s'.Wf ∧ s'.v4Of = update s.v4Of c.macAddr c.v4Addr := by
  have hother : ∀ j, j < s'.numNeighborClient → j ≠ i →
      j < s.numNeighborClient ∧ s'.neighborClient.get j = s.neighborClient.get j := by
    intro j hj hji
    exact ⟨((hnum j).1 hj).resolve_right hji, by rw [hget, if_neg hji]⟩
  have hat : s'.neighborClient.get i = c := by rw [hget, if_pos rfl]
  have hwf : s'.Wf := by
    refine ⟨hsize, hle, ?_⟩
    rw [clients, List.map_map]
    refine List.Nodup.map_on ?_ nodup_range
    intro j hj k hk hjk
    rw [mem_range] at hj hk
    simp only [comp_apply] at hjk
    by_cases hji : j = i
    · by_cases hki : k = i
      · rw [hji, hki]
      · rw [hji, hat, (hother k hk hki).2] at hjk
        exact absurd ((hown k (hother k hk hki).1).1 hjk.symm) hki
    by_cases hki : k = i
    · rw [hki, hat, (hother j hj hji).2] at hjk
      exact absurd ((hown j (hother j hj hji).1).1 hjk) hji
    · rw [(hother j hj hji).2, (hother k hk hki).2] at hjk
      exact h.inj (hother j hj hji).1 (hother k hk hki).1 hjk
  refine ⟨hwf, ?_⟩
  funext m
  by_cases hm : m = c.macAddr
  · rw [hm, update_self, ← hat]
    exact hwf.v4Of_get ((hnum i).2 (.inr rfl))
  rw [update_of_ne hm]
  by_cases hs : s.Has m
  · -- The entry of another MAC is in another cell.
    obtain ⟨d, hd, rfl⟩ := hs
    obtain ⟨j, hj, rfl⟩ := mem_clients.1 hd
    have hj' : j < s'.numNeighborClient := (hnum j).2 (.inl hj)
    have hji : j ≠ i := by
      intro hji
      exact hm ((hown j hj).2 hji)
    rw [h.v4Of_get hj, ← (hother j hj' hji).2, hwf.v4Of_get hj']
  rw [v4Of_of_not_has hs, v4Of_of_not_has]
  rintro ⟨d, hd, rfl⟩
  obtain ⟨j, hj, rfl⟩ := mem_clients.1 hd
  have hji : j ≠ i := by
    rintro rfl
    exact hm (by rw [hat])
  apply hs
  rw [(hother j hj hji).2]
  exact ⟨_, get_mem_clients (hother j hj hji).1, rfl⟩

theorem Wf.withEntry (h : s.Wf) (hi : i < s.numNeighborClient) (hm : c.macAddr = (s.neighborClient.get i).macAddr) :
    (s.withEntry i c).Wf ∧ (s.withEntry i c).v4Of = update s.v4Of c.macAddr c.v4Addr := by
  refine h.change h.size_eq h.num_le ?_ get_withEntry ?_
  · intro j
    refine ⟨Or.inl, ?_⟩
    rintro (hj | rfl)
    · exact hj
    · exact hi
  intro j hj
  refine ⟨fun hj' => h.inj hj hi (hj'.trans hm), ?_⟩
  rintro rfl
  exact hm.symm

theorem Wf.insert (h : s.Wf) (hm : ¬ s.Has c.macAddr) : ∃ s', s.insert c = some s' ∧ s'.Wf ∧
      s'.v4Of = if s.numNeighborClient < maxNumNeighborClients then
        update s.v4Of c.macAddr c.v4Addr else s.v4Of := by
  by_cases hlt : s.numNeighborClient < maxNumNeighborClients
  · rw [if_pos hlt]
    refine ⟨_, h.insert_eq hlt, ?_⟩
    refine h.change h.size_eq hlt ?_ get_withEntry ?_
    · intro j
      show j < s.numNeighborClient + 1 ↔ _
      omega
    intro j hj
    constructor
    · intro hj'
      exact absurd ⟨_, get_mem_clients hj, hj'⟩ hm
    · intro _
      omega
  · rw [if_neg hlt]
    refine ⟨s, ?_, h, rfl⟩
    rw [Neighbor.insert, if_neg hlt]

/-! ### What an event does -/

/-- What is left after an event: a cache with the addresses `v`, and posts that take from the
cache only addresses that were there. -/
structure Outcome (s : Neighbor) (v : MacAddr → UInt32) (s' : Neighbor) (posts : List NeighPost) :
    Prop where
  wf : s'.Wf
  v4Of_eq : s'.v4Of = v
  cached : ∀ k a m, NeighPost.cached k a m ∈ posts → a ≠ 0 ∧ s.v4Of m = a

theorem Outcome.same (h : s.Wf) {posts : List NeighPost}
    (hp : ∀ k a m, NeighPost.cached k a m ∉ posts) : Outcome s s.v4Of s posts :=
  ⟨h, rfl, fun k a m hmem => absurd hmem (hp k a m)⟩

theorem Wf.reconnect (h : s.Wf) (hi : i < s.numNeighborClient) (ifIndex : ℤ) :
    ∃ s' posts, reconnect e s ifIndex i = some (s', posts) ∧ Outcome s s.v4Of s' posts := by
  by_cases hb : e.onBridge ifIndex = true
  · refine ⟨s, [], ?_, Outcome.same h (by simp)⟩
    rw [Neighbor.reconnect, if_pos hb]
  set c := s.neighborClient.get i with hc
  -- The entry with the new index has the MAC and the address of the old one.
  obtain ⟨c', hc', hmac, hv4⟩ : ∃ c' : NeighborClient,
      (if ifIndex ≠ c.ifaceIndex then { c with ifaceIndex := ifIndex } else c) = c' ∧
        c'.macAddr = c.macAddr ∧ c'.v4Addr = c.v4Addr := by
    refine ⟨_, rfl, ?_, ?_⟩ <;> split <;> rfl
  obtain ⟨hwf, hv⟩ := h.withEntry hi hmac
  have hsame : (s.withEntry i c').v4Of = s.v4Of := by
    rw [hv, hmac, hv4, hc, ← h.v4Of_get hi, update_eq_self]
  have hnone : Outcome s s.v4Of (s.withEntry i c') [] := ⟨hwf, hsame, by simp⟩
  rw [Neighbor.reconnect, if_neg hb, h.read_of_lt hi]
  simp only [bind_eq_bind, bind_some, ← hc, hc', h.store_eq hi]
  split
  · exact ⟨_, _, rfl, hnone⟩
  split
  · exact ⟨_, _, rfl, hnone⟩
  split
  · exact ⟨_, _, rfl, hnone⟩
  rename_i hne _
  refine ⟨_, _, rfl, hwf, hsame, ?_⟩
  intro k a m hmem
  simp only [mem_singleton, NeighPost.cached.injEq] at hmem
  obtain ⟨-, rfl, rfl⟩ := hmem
  refine ⟨hne, ?_⟩
  rw [hmac, hv4]
  exact h.v4Of_get hi

/-- The address of a neighbour goes into the cache: on the bridge if its MAC has an entry, on
another interface if it has one or there is room (and memory for the event that is posted first). -/
def Stores (e : NeighEnv) (s : Neighbor) (d : NeighborData) : Prop :=
  d.iptype = .v4 ∧ d.ipv4Addr ≠ 0 ∧
    ((e.onBridge d.ifIndex = true ∧ s.Has d.macAddr) ∨ (e.onBridge d.ifIndex = false ∧ e.malloc = true ∧
        (s.Has d.macAddr ∨ s.numNeighborClient < maxNumNeighborClients)))

instance (e : NeighEnv) (s : Neighbor) (d : NeighborData) : Decidable (Stores e s d) :=
  inferInstanceAs (Decidable (_ ∧ _ ∧ _))

/-- The addresses after an event. -/
def v4After (e : NeighEnv) (s : Neighbor) : NeighEvt → MacAddr → UInt32
  | .clientAdd _ _ => s.v4Of
  | .neigh _ d => if Stores e s d then update s.v4Of d.macAddr d.ipv4Addr else s.v4Of

theorem Wf.neighV4 (h : s.Wf) (kind : NeighKind) {d : NeighborData} (hv4 : d.iptype = .v4) (hne : d.ipv4Addr ≠ 0) :
    ∃ s' posts, neighV4 e s kind d = some (s', posts) ∧
      Outcome s (v4After e s (.neigh kind d)) s' posts := by
  have hcopied : ∀ d' k a m, NeighPost.cached k a m ∉ [NeighPost.copied kind d'] := by simp
  have hfound : ∀ {i}, i < s.numNeighborClient → (s.neighborClient.get i).macAddr = d.macAddr →
      s.Has d.macAddr := fun hi hm => ⟨_, get_mem_clients hi, hm⟩
  rw [v4After]
  by_cases hb : e.onBridge d.ifIndex = true
  · rw [Neighbor.neighV4, if_pos hb]
    rcases h.find_cases d.macAddr with ⟨hf, hno⟩ | ⟨i, hi, hf, hm⟩
    · have hns : ¬ Stores e s d := by simp [Stores, hb, hno]
      rw [if_neg hns, hf]
      exact ⟨s, [], rfl, Outcome.same h (by simp)⟩
    rw [if_pos ⟨hv4, hne, Or.inl ⟨hb, hfound hi hm⟩⟩, hf]
    obtain ⟨hwf, hv⟩ := h.withEntry (c := { s.neighborClient.get i with v4Addr := d.ipv4Addr }) hi rfl
    rw [← hm]
    simp only [bind_eq_bind, bind_some, h.read_of_lt hi, h.store_eq hi]
    split
    · exact ⟨_, _, rfl, hwf, hv, by simp⟩
    · exact ⟨_, _, rfl, hwf, hv, fun k a m hmem => absurd hmem (hcopied _ k a m)⟩
  rw [Neighbor.neighV4, if_neg hb]
  by_cases hmal : e.malloc = false
  · have hns : ¬ Stores e s d := by simp [Stores, hb, hmal]
    rw [if_neg hns, if_pos hmal]
    exact ⟨s, [], rfl, Outcome.same h (by simp)⟩
  rw [if_neg hmal]
  rw [Bool.not_eq_true] at hb
  rw [Bool.not_eq_false] at hmal
  rcases h.find_cases d.macAddr with ⟨hf, hno⟩ | ⟨i, hi, hf, hm⟩
  · obtain ⟨_, hins, hwf, hv⟩ := h.insert
      (c := ⟨d.macAddr, d.ifIndex, d.ipv4Addr, e.ifaceIpaIndexQuery d.ifIndex⟩) hno
    rw [hf]
    simp only [bind_eq_bind, bind_some, hins]
    refine ⟨_, _, rfl, hwf, ?_, fun k a m hmem => absurd hmem (hcopied _ k a m)⟩
    rw [hv]
    refine if_congr ?_ rfl rfl
    simp [Stores, hv4, hne, hb, hmal, hno]
  rw [if_pos ⟨hv4, hne, Or.inr ⟨hb, hmal, Or.inl (hfound hi hm)⟩⟩, hf]
  obtain ⟨hwf, hv⟩ := h.withEntry
    (c := ⟨(s.neighborClient.get i).macAddr, d.ifIndex, d.ipv4Addr,
      e.ifaceIpaIndexQuery d.ifIndex⟩) hi rfl
  rw [← hm]
  simp only [bind_eq_bind, bind_some, h.read_of_lt hi, h.store_eq hi]
  exact ⟨_, _, rfl, hwf, hv, fun k a m hmem => absurd hmem (hcopied _ k a m)⟩

theorem Wf.neighV6 (h : s.Wf) (kind : NeighKind) (d : NeighborData) :
    ∃ posts, neighV6 e s kind d = some (s, posts) ∧ Outcome s s.v4Of s posts := by
  have hcopied : ∀ d' k a m, NeighPost.cached k a m ∉ [NeighPost.copied kind d'] := by simp
  rw [Neighbor.neighV6]
  split
  · rcases h.find_cases d.macAddr with ⟨hf, -⟩ | ⟨i, hi, hf, -⟩
    · rw [hf]
      exact ⟨[], rfl, Outcome.same h (by simp)⟩
    rw [hf]
    simp only [bind_eq_bind, bind_some, h.read_of_lt hi]
    split
    · exact ⟨_, rfl, Outcome.same h (by simp)⟩
    · exact ⟨_, rfl, Outcome.same h (hcopied _)⟩
  · split
    · exact ⟨_, rfl, Outcome.same h (by simp)⟩
    · exact ⟨_, rfl, Outcome.same h (hcopied _)⟩

theorem Wf.neighNone (h : s.Wf) (d : NeighborData) :
    ∃ s' posts, neighNone e s d = some (s', posts) ∧ Outcome s s.v4Of s' posts := by
  rw [Neighbor.neighNone]
  rcases h.find_cases d.macAddr with ⟨hf, hno⟩ | ⟨i, hi, hf, -⟩
  · rw [hf]
    simp only [bind_eq_bind, bind_some]
    split
    · exact ⟨s, [], rfl, Outcome.same h (by simp)⟩
    obtain ⟨_, hins, hwf, hv⟩ := h.insert (c := ⟨d.macAddr, d.ifIndex, 0, e.ifaceIpaIndexQuery d.ifIndex⟩) hno
    rw [hins]
    refine ⟨_, _, rfl, hwf, ?_, by simp⟩
    rw [hv]
    -- The new entry has no address, like a MAC with no entry.
    split
    · rw [← v4Of_of_not_has hno, update_eq_self]
    · rfl
  · rw [hf]
    exact h.reconnect hi d.ifIndex

/-- **What an event does**: it stays in the array, keeps one entry for each MAC, and changes the
address of one MAC at most. -/
theorem eventCallback_spec (h : s.Wf) (ev : NeighEvt) :
    ∃ s' posts, eventCallback e s ev = some (s', posts) ∧ Outcome s (v4After e s ev) s' posts := by
  cases ev with
  | clientAdd ifIndex =>
    rw [eventCallback, clientAdd]
    rcases h.find_cases _ with ⟨hf, -⟩ | ⟨i, hi, hf, -⟩
    · rw [hf]
      exact ⟨s, [], rfl, Outcome.same h (by simp)⟩
    · rw [hf]
      exact h.reconnect hi ifIndex
  | neigh kind d =>
    rw [eventCallback]
    cases hip : d.iptype with
    | v4 =>
      by_cases hne : d.ipv4Addr = 0
      · have hns : ¬ Stores e s d := by simp [Stores, hne]
        rw [v4After, if_neg hns]
        exact ⟨s, [], by simp [hne], Outcome.same h (by simp)⟩
      · simpa only [ne_eq, hne, not_false_eq_true, if_true] using h.neighV4 kind hip hne
    | v6 =>
      have hns : ¬ Stores e s d := by simp [Stores, hip]
      rw [v4After, if_neg hns]
      show ∃ s' posts, (if ∀ i, d.ipv6Addr i = 0 then neighNone e s d else neighV6 e s kind d) = _ ∧ _
      split
      · exact h.neighNone d
      · obtain ⟨posts, hr, ho⟩ := h.neighV6 kind d
        exact ⟨s, posts, hr, ho⟩

end Neighbor

/-! ### Runs -/

/-- The IPv4 address of an event that reports a new neighbour with this MAC. -/
def NeighEvt.newV4 (mac : MacAddr) : NeighEvt → Option UInt32
  | .neigh .new d => if d.iptype = .v4 ∧ d.macAddr = mac then some d.ipv4Addr else none
  | _ => none

/-- The events so far, each with what the code found outside. -/
abbrev NeighRun := List (NeighEnv × NeighEvt)

/-- The IPv4 address of the last event that reports a new neighbour with this MAC. -/
def NeighRun.latestV4 (es : NeighRun) (mac : MacAddr) : Option UInt32 :=
  (es.filterMap fun x => x.2.newV4 mac).getLast?

theorem NeighRun.latestV4_concat (es : NeighRun) (x : NeighEnv × NeighEvt) (mac : MacAddr) :
    latestV4 (es ++ [x]) mac = (x.2.newV4 mac).or (latestV4 es mac) := by
  unfold latestV4
  rw [filterMap_append]
  cases hx : x.2.newV4 mac with
  | none | some => simp [hx]

namespace Neighbor

def after (s : Neighbor) (es : NeighRun) : Option Neighbor :=
  es.foldlM (fun s x => (eventCallback x.1 s x.2).map Prod.fst) s

variable {s s' : Neighbor} {es : NeighRun} {x : NeighEnv × NeighEvt}

theorem after_concat : after s (es ++ [x]) = (after s es).bind fun s => (eventCallback x.1 s x.2).map Prod.fst := by
  simp [after]

/-- After the run `es`, no event makes the code post an address from the cache other than the
one of the last new neighbour. -/
def Recalls (es : NeighRun) (s : Neighbor) : Prop :=
  ∀ e ev s' posts k a mac, eventCallback e s ev = some (s', posts) →
    NeighPost.cached k a mac ∈ posts → es.latestV4 mac = some a

/-- The condition on an event.  The address of a deleted neighbour is not stored, unless it is
the one of the last new neighbour.  The address of a new neighbour is stored, if another one
is in the cache. -/
def Keeps (es : NeighRun) (s : Neighbor) (x : NeighEnv × NeighEvt) : Prop :=
  match x.2 with
  | .clientAdd _ _ => True
  | .neigh .new d => d.iptype = .v4 → ¬ Stores x.1 s d →
      s.v4Of d.macAddr = 0 ∨ s.v4Of d.macAddr = d.ipv4Addr
  | .neigh .del d => Stores x.1 s d → es.latestV4 d.macAddr = some d.ipv4Addr

/-- All addresses of the cache are the ones of the last new neighbours. -/
def V4Latest (es : NeighRun) (v : MacAddr → UInt32) : Prop :=
  ∀ mac, v mac ≠ 0 → es.latestV4 mac = some (v mac)

theorem Wf.posts_cached (h : s.Wf) {mac : MacAddr} (hne : s.v4Of mac ≠ 0) :
    ∃ e ev s' k, eventCallback e s ev = some (s', [.cached k (s.v4Of mac) mac]) := by
  have hhas : s.Has mac := by
    by_contra hno
    exact hne (v4Of_of_not_has hno)
  rcases h.find_cases mac with ⟨-, hno⟩ | ⟨i, hi, hf, rfl⟩
  · exact absurd hhas hno
  set c := s.neighborClient.get i with hc
  rw [h.v4Of_get hi] at hne ⊢
  refine ⟨⟨fun _ => c.ipaIfNum, fun _ => false, true, 0⟩, .clientAdd c.ifaceIndex [.macAddr c.macAddr],
    s.withEntry i c, c.ifaceIndex, ?_⟩
  simp only [eventCallback, clientAdd, foldl_cons, foldl_nil, hf, Neighbor.reconnect,
    NeighEnv.onBridge, bind_eq_bind, bind_some, h.read_of_lt hi, h.store_eq hi,
    ← hc]
  rw [← hc] at hne
  simp [hne]

theorem Wf.recalls_iff (h : s.Wf) : Recalls es s ↔ V4Latest es s.v4Of := by
  constructor
  · intro hr mac hne
    obtain ⟨e, ev, s', k, hev⟩ := h.posts_cached hne
    exact hr e ev s' _ k _ mac hev (by simp)
  intro hv e ev s' posts k a mac hev hmem
  obtain ⟨s1, posts1, hev1, ho⟩ := eventCallback_spec (e := e) h ev
  obtain ⟨rfl, rfl⟩ : s1 = s' ∧ posts1 = posts := by
    rw [hev1] at hev
    simpa using hev
  obtain ⟨hne, rfl⟩ := ho.cached k a mac hmem
  exact hv mac hne

theorem v4Latest_step (hv : V4Latest es s.v4Of) : V4Latest (es ++ [x]) (v4After x.1 s x.2) ↔ Keeps es s x := by
  obtain ⟨e, ev⟩ := x
  cases ev with
  | clientAdd ifIndex attribs =>
    have hsame : V4Latest (es ++ [(e, .clientAdd ifIndex attribs)]) s.v4Of := by
      intro mac hne
      rw [NeighRun.latestV4_concat]
      exact hv mac hne
    exact iff_of_true hsame trivial
  | neigh kind d =>
    cases kind with
    | del =>
      -- What was reported last stays as it is.
      have hl : ∀ mac, NeighRun.latestV4 (es ++ [(e, .neigh .del d)]) mac = es.latestV4 mac := by
        intro mac
        rw [NeighRun.latestV4_concat]
        rfl
      show _ ↔ (Stores e s d → _)
      unfold V4Latest v4After
      by_cases hst : Stores e s d
      · simp only [hl, hst, if_true, true_implies]
        constructor
        · intro h
          have hd := h d.macAddr
          rw [update_self] at hd
          exact hd hst.2.1
        intro h mac hne
        by_cases hm : mac = d.macAddr
        · rw [hm, update_self]
          exact h
        · rw [update_of_ne hm] at hne ⊢
          exact hv mac hne
      · simp only [hl, hst, if_false]
        exact iff_of_true hv fun h => h.elim
    | new =>
      have hl : ∀ mac, NeighRun.latestV4 (es ++ [(e, .neigh .new d)]) mac =
          if d.iptype = .v4 ∧ d.macAddr = mac then some d.ipv4Addr else es.latestV4 mac := by
        intro mac
        rw [NeighRun.latestV4_concat]
        simp only [NeighEvt.newV4]
        split <;> rfl
      show _ ↔ (d.iptype = .v4 → ¬ Stores e s d → _)
      unfold V4Latest v4After
      simp only [hl]
      by_cases hst : Stores e s d
      · simp only [hst, if_true]
        refine iff_of_true ?_ fun _ h => absurd trivial h
        intro mac hne
        by_cases hm : mac = d.macAddr
        · rw [hm, update_self, if_pos ⟨hst.1, rfl⟩]
        · rw [update_of_ne hm] at hne ⊢
          rw [if_neg fun h => hm h.2.symm]
          exact hv mac hne
      simp only [hst, if_false, not_false_eq_true, true_implies]
      constructor
      · intro h hip
        by_cases hz : s.v4Of d.macAddr = 0
        · exact .inl hz
        · have hd := h d.macAddr hz
          rw [if_pos ⟨hip, rfl⟩] at hd
          exact .inr (some.inj hd).symm
      intro h mac hne
      by_cases hm : d.iptype = .v4 ∧ d.macAddr = mac
      · obtain ⟨hip, rfl⟩ := hm
        rw [if_pos ⟨hip, rfl⟩, (h hip).resolve_left hne]
      · rw [if_neg hm]
        exact hv mac hne

theorem wf_init (mem : ℕ → NeighborClient) : (init mem).Wf := ⟨rfl, Nat.zero_le _, nodup_nil⟩

theorem after_wf (mem : ℕ → NeighborClient) (es : NeighRun) : ∃ s, after (init mem) es = some s ∧ s.Wf := by
  induction es using reverseRecOn with
  | nil => exact ⟨_, rfl, wf_init mem⟩
  | append_singleton _ x ih =>
    obtain ⟨s, hs, hwf⟩ := ih
    obtain ⟨s', _, hev, ho⟩ := eventCallback_spec (e := x.1) hwf x.2
    refine ⟨s', ?_, ho.wf⟩
    rw [after_concat, hs, bind_some, hev]
    rfl

/-- **The cache of neighbours, in every run.**  No event makes the code leave the array; there
is one entry for each MAC and not more than 17.  The addresses that are posted from the cache
are, at every moment, the ones of the last new neighbours if and only if every event met the
condition. -/
theorem neighbor_exact (mem : ℕ → NeighborClient) (es : NeighRun) :
    (∀ p, p <+: es → ∃ s, after (init mem) p = some s ∧ s.Wf) ∧
    ((∀ p s, p <+: es → after (init mem) p = some s → Recalls p s) ↔
      ∀ p x s, p ++ [x] <+: es → after (init mem) p = some s → Keeps p s x) := by
  refine ⟨fun p _ => after_wf mem p, ?_⟩
  induction es using reverseRecOn with
  | nil =>
    refine iff_of_true ?_ ?_
    · intro p s hp hs
      obtain rfl := prefix_nil.1 hp
      obtain rfl : init mem = s := some.inj hs
      rw [(wf_init mem).recalls_iff]
      intro _ hne
      exact absurd rfl hne
    · intro p x s hp
      simpa using prefix_nil.1 hp
  | append_singleton es y ih =>
    obtain ⟨s, hs, hwf⟩ := after_wf mem es
    obtain ⟨s', _, hev, ho⟩ := eventCallback_spec (e := y.1) hwf y.2
    have hs' : after (init mem) (es ++ [y]) = some s' := by
      rw [after_concat, hs, bind_some, hev]
      rfl
    -- The last event, given that the run up to it is right.
    have hlast : Recalls es s → (Recalls (es ++ [y]) s' ↔ Keeps es s y) := by
      intro hr
      rw [hwf.recalls_iff] at hr
      rw [ho.wf.recalls_iff, ho.v4Of_eq]
      exact v4Latest_step hr
    simp only [prefix_concat_iff] at ih ⊢
    constructor
    · intro h p x t hp ht
      have hold := ih.1 fun p t hp ht => h p t (.inr hp) ht
      rcases hp with hp | hp
      · obtain ⟨rfl, rfl⟩ := append_singleton_inj.1 hp
        obtain rfl : s = t := some.inj (hs.symm.trans ht)
        exact (hlast (h p s (.inr (prefix_refl p)) hs)).1 (h _ s' (.inl rfl) hs')
      · exact hold p x t hp ht
    intro h p t hp ht
    have hold := ih.2 fun p x t hp ht => h p x t (.inr hp) ht
    rcases hp with rfl | hp
    · obtain rfl : s' = t := some.inj (hs'.symm.trans ht)
      exact (hlast (hold es s (prefix_refl es) hs)).2 (h es y s (.inl rfl) hs)
    · exact hold p t hp ht

/-- An interface that is not the bridge. -/
def wlanEnv : NeighEnv := ⟨fun k => k, fun _ => false, true, 0⟩

/-- A neighbour with an IPv4 address, reported on interface 1. -/
def sampleNeigh (a : UInt32) : NeighborData := ⟨1, .v4, a, fun _ => 0, 5⟩

/-- A client gets a new address, and the old one is deleted after that. -/
def lateDelete : NeighRun :=
  [(wlanEnv, .neigh .new (sampleNeigh 1)), (wlanEnv, .neigh .new (sampleNeigh 2)),
    (wlanEnv, .neigh .del (sampleNeigh 1))]

/-- When the client comes back, it gets the old address. -/
theorem neighbor_stale : lateDelete.latestV4 5 = some 2 ∧
      ∃ s s', after (init fun _ => ⟨0, 0, 0, 0⟩) lateDelete = some s ∧
        eventCallback wlanEnv s (.clientAdd 1 [.macAddr 5]) = some (s', [.cached 1 1 5]) :=
  ⟨by decide, _, _, rfl, rfl⟩

end Neighbor

end G4Common.Ipacm

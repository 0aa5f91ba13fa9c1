/-
The clients of an interface that is reset, in `IPACM_LanToLan`.

`post_lan2lan_client_disconnect_msg()` posts one event for each address that the
interface has stored, and `handle_client_disconnect()` erases the entry of the
address.  For IPv6 the event carries the first word of the address only, so the
events are right just for addresses whose other words are 0.  The entries of the
interface are all gone afterwards if moreover the table of clients knows all
their addresses.
-/
import G4Common.Ipacm.EthClients
import G4Common.Ipacm.LanFrame
import Mathlib.Data.Fin.VecNotation
import Mathlib.Tactic.FinCases

namespace G4Common.Ipacm

open Function List Option

variable {A K κ : Type}

/-! ### The receiver -/

section

variable [DecidableEq K] {env : LanEnv A K κ} {s s' : LanState A K κ} {data : LanClient A}

omit [DecidableEq K] in
theorem clientIface_eq_none {m : NodeMap K (ClientInfo A)} {k : K} : clientIface m k = none ↔ m.find k = none := by
  unfold clientIface
  constructor
  · intro h
    by_contra hne
    obtain ⟨p, hp⟩ := ne_none_iff_exists'.mp hne
    obtain ⟨c, hc⟩ := NodeMap.node_of_find hp
    rw [hp, bind_some, hc] at h
    exact nomatch h
  · intro h
    rw [h]
    rfl

/-- `handle_client_disconnect()` takes the entry of the address, and leaves the
interfaces of the others. -/
theorem clientIface_disconnect (h : handleClientDisconnect env s data = some s') :
    clientIface s'.clientInfo = update (clientIface s.clientInfo) (env.key data.ip) none := by
  obtain ⟨hnone, rfl⟩ | ⟨p, _, r2, hp, h1, h2, rfl⟩ := handleClientDisconnect_cases h
  · rw [← clientIface_eq_none.mpr hnone, update_eq_self]
  have hframe1 := turnoffOffloadLinks_frame h1
  have hframe2 := clearPeerList_frame h2
  have hfind : r2.1.clientInfo.find = s.clientInfo.find := hframe2.find.trans hframe1.find
  have hp2 : r2.1.clientInfo.find (env.key data.ip) = some p := by
    rw [hfind, hp]
  funext k
  by_cases hk : k = env.key data.ip
  · rw [hk, update_self]
    exact clientIface_eq_none.mpr NodeMap.find_erase_self
  rw [update_of_ne hk]
  show (((r2.1.clientInfo.erase _).find k).bind (r2.1.clientInfo.erase _).node).map _ = _
  rw [NodeMap.find_erase, if_neg hk, hfind, clientIface]
  cases hq : s.clientInfo.find k with
  | none => rfl
  | some q =>
    have hne : q ≠ p := by
      rintro rfl
      exact hk (s.clientInfo.find_inj hq hp)
    rw [bind_some, bind_some, NodeMap.node_erase hp2, if_neg hne,
      hframe2.map_node fun _ => rfl, hframe1.map_node fun _ => rfl]

end

/-- The second table is the first one without the entries of some keys. -/
def Without [DecidableEq K] (ks : List K) (m m' : NodeMap K (ClientInfo A)) : Prop :=
  ∀ k, clientIface m' k = if k ∈ ks then none else clientIface m k

section

variable [DecidableEq K] {ks : List K} {m m' : NodeMap K (ClientInfo A)} {i : ℕ}

theorem find_of_without (h : Without ks m m') {k : K} (hk : k ∈ ks) : m'.find k = none := by
  have hnone : clientIface m' k = none := by
    rw [h k, if_pos hk]
  exact clientIface_eq_none.mp hnone

theorem noneOn_of_without (h : Without ks m m') :
    (∀ k, clientIface m' k ≠ some i) ↔ ∀ k, clientIface m k = some i → k ∈ ks := by
  constructor
  · intro hno k hk
    by_contra hmem
    have hkept : clientIface m' k = some i := by
      rw [h k, if_neg hmem, hk]
    exact hno k hkept
  intro hall k hk
  rw [h k] at hk
  split at hk
  · exact nomatch hk
  · rename_i hmem
    exact hmem (hall k hk)

end

section

variable {cfg : LanConfig κ} {l l' : LanToLan κ}

theorem clientIface_run4 {ds : List (LanClient UInt32)}
    (h : LanToLan.runEvents cfg (ds.map fun d => .v4 (.clientDisconnect d)) l = some l') :
    Without (ds.map LanClient.ip) l.v4.clientInfo l'.v4.clientInfo := by
  intro k
  induction ds generalizing l with
  | nil =>
    cases h
    simp
  | cons d _ ih =>
    obtain ⟨_, h1, h⟩ := bind_eq_some_iff.mp h
    obtain ⟨r, hr, rfl⟩ := map_eq_some_iff.mp h1
    obtain ⟨_, hs', rfl⟩ := map_eq_some_iff.mp hr
    have hone := clientIface_disconnect hs'
    rw [ih h]
    dsimp only
    rw [hone]
    by_cases hk : k = d.ip
    · simp [hk, LanConfig.env4]
    · rw [update_of_ne (show k ≠ cfg.env4.key d.ip from hk)]
      simp [hk, LanToLan.state4]

theorem clientIface_run6 {ds : List (LanClient Ipv6Addr)}
    (h : LanToLan.runEvents cfg (ds.map fun d => .v6 (.clientDisconnect d)) l = some l') :
    Without (ds.map fun d => ipv6Key d.ip) l.v6.clientInfo l'.v6.clientInfo := by
  intro k
  induction ds generalizing l with
  | nil =>
    cases h
    simp
  | cons d _ ih =>
    obtain ⟨_, h1, h⟩ := bind_eq_some_iff.mp h
    obtain ⟨r, hr, rfl⟩ := map_eq_some_iff.mp h1
    obtain ⟨_, hs', rfl⟩ := map_eq_some_iff.mp hr
    have hone := clientIface_disconnect hs'
    rw [ih h]
    dsimp only
    rw [hone]
    by_cases hk : k = ipv6Key d.ip
    · simp [hk, LanConfig.env6]
    · rw [update_of_ne (show k ≠ cfg.env6.key d.ip from hk)]
      simp [hk, LanToLan.state6]

end

/-! ### The sender -/

/-- The IPv4 addresses that are stored. -/
def storedV4 (s : EthTable) : List UInt32 :=
  (range s.numEthClient).flatMap fun i =>
    if (s.ethClient i).ipv4Set then [(s.ethClient i).v4Addr] else []

/-- The IPv6 addresses that are stored. -/
def storedV6 (s : EthTable) : List Ipv6Addr :=
  (range s.numEthClient).flatMap fun i =>
    (range (s.ethClient i).ipv6Set).map (s.ethClient i).v6Addr

/-- One event for each stored address, with the whole address. -/
def disconnectEvents (env : EthEnv) (s : EthTable) : IpType → List IpEvent
  | .v4 => (storedV4 s).map fun a => .v4 (.clientDisconnect ⟨a, 0, env.pIface⟩)
  | .v6 => (storedV6 s).map fun a => .v6 (.clientDisconnect ⟨a, 0, env.pIface⟩)

/-- No entry of a stored address is left. -/
def Unknown (s : EthTable) (l : LanToLan κ) : IpType → Prop
  | .v4 => ∀ a ∈ storedV4 s, l.v4.clientInfo.find a = none
  | .v6 => ∀ a ∈ storedV6 s, l.v6.clientInfo.find (ipv6Key a) = none

/-- No entry is on the interface. -/
def NoneOn (i : ℕ) (l : LanToLan κ) : IpType → Prop
  | .v4 => ∀ k, clientIface l.v4.clientInfo k ≠ some i
  | .v6 => ∀ k, clientIface l.v6.clientInfo k ≠ some i

/-- The entries on the interface are those of stored addresses. -/
def StoredOnly (i : ℕ) (s : EthTable) (l : LanToLan κ) : IpType → Prop
  | .v4 => ∀ k, clientIface l.v4.clientInfo k = some i → k ∈ storedV4 s
  | .v6 => ∀ k, clientIface l.v6.clientInfo k = some i → k ∈ (storedV6 s).map ipv6Key

/-- The stored IPv6 addresses have only their first word. -/
def FirstWordOnly (s : EthTable) : IpType → Prop
  | .v4 => True
  | .v6 => ∀ a ∈ storedV6 s, Ipv6FirstOnly a

section

variable {env : EthEnv} {s : EthTable} {cfg : LanConfig κ} {l l' : LanToLan κ}

theorem post_v4 : postLan2LanClientDisconnectMsg env s .v4 = disconnectEvents env s .v4 := by
  simp only [postLan2LanClientDisconnectMsg, disconnectEvents, storedV4, map_flatMap]
  refine flatMap_congr fun i _ => ?_
  split <;> rfl

theorem post_v6 : postLan2LanClientDisconnectMsg env s .v6 =
    (storedV6 s).map fun a => .v6 (.clientDisconnect ⟨ipv6First a, 0, env.pIface⟩) := by
  simp [postLan2LanClientDisconnectMsg, storedV6, map_flatMap, comp_def]

theorem ipv6First_eq_iff {a : Ipv6Addr} : ipv6First a = a ↔ Ipv6FirstOnly a := by
  constructor
  · intro h
    exact ⟨(congrFun h 1).symm, (congrFun h 2).symm, (congrFun h 3).symm⟩
  rintro ⟨h1, h2, h3⟩
  funext w
  fin_cases w
  · rfl
  · exact h1.symm
  · exact h2.symm
  · exact h3.symm

theorem post_eq_iff (ip : IpType) :
    postLan2LanClientDisconnectMsg env s ip = disconnectEvents env s ip ↔ FirstWordOnly s ip := by
  cases ip with
  | v4 => exact ⟨fun _ => trivial, fun _ => post_v4⟩
  | v6 =>
    rw [post_v6, disconnectEvents, FirstWordOnly, map_inj_left]
    refine forall₂_congr fun a _ => ?_
    simp only [IpEvent.v6.injEq, LanEvent.clientDisconnect.injEq, LanClient.mk.injEq, and_true]
    exact ipv6First_eq_iff

/-- What is left after events for all stored addresses: the entries of other
addresses, on their interfaces. -/
theorem unknown_of_run (ip : IpType) (h : LanToLan.runEvents cfg (disconnectEvents env s ip) l = some l') :
    Unknown s l' ip ∧ (NoneOn env.pIface l' ip ↔ StoredOnly env.pIface s l ip) := by
  cases ip with
  | v4 =>
    have hrun : LanToLan.runEvents cfg (((storedV4 s).map fun a => ⟨a, 0, env.pIface⟩).map fun d =>
        .v4 (.clientDisconnect d)) l = some l' := by
      rw [List.map_map]
      exact h
    have hips : ((storedV4 s).map fun a => (⟨a, 0, env.pIface⟩ : LanClient UInt32)).map LanClient.ip =
        storedV4 s := by
      rw [List.map_map]
      exact map_id _
    have hiface := clientIface_run4 hrun
    rw [hips] at hiface
    exact ⟨fun a ha => find_of_without hiface ha, noneOn_of_without hiface⟩
  | v6 =>
    have hrun : LanToLan.runEvents cfg (((storedV6 s).map fun a => ⟨a, 0, env.pIface⟩).map fun d =>
        .v6 (.clientDisconnect d)) l = some l' := by
      rw [List.map_map]
      exact h
    have hips : ((storedV6 s).map fun a => (⟨a, 0, env.pIface⟩ : LanClient Ipv6Addr)).map
        (fun d => ipv6Key d.ip) = (storedV6 s).map ipv6Key := by
      rw [List.map_map]
      rfl
    have hiface := clientIface_run6 hrun
    rw [hips] at hiface
    exact ⟨fun a ha => find_of_without hiface (mem_map_of_mem ha), noneOn_of_without hiface⟩

/-- **When the posted events have been processed, the interface has no client any
more**, and each stored address had its event, exactly if the stored IPv6 addresses
have only their first word, and the entries on the interface were those of stored
addresses. -/
theorem postDisconnect_removes_iff (ip : IpType)
    (h : LanToLan.runEvents cfg (postLan2LanClientDisconnectMsg env s ip) l = some l') :
    (postLan2LanClientDisconnectMsg env s ip = disconnectEvents env s ip ∧ Unknown s l' ip ∧
        NoneOn env.pIface l' ip) ↔
      FirstWordOnly s ip ∧ StoredOnly env.pIface s l ip := by
  constructor
  · rintro ⟨hpost, -, hnone⟩
    rw [hpost] at h
    exact ⟨(post_eq_iff ip).mp hpost, (unknown_of_run ip h).2.mp hnone⟩
  rintro ⟨hfirst, hstored⟩
  have hpost : postLan2LanClientDisconnectMsg env s ip = disconnectEvents env s ip := (post_eq_iff ip).mpr hfirst
  rw [hpost] at h
  obtain ⟨hgone, hiff⟩ := unknown_of_run ip h
  exact ⟨hpost, hgone, hiff.mpr hstored⟩

end

/-- A new client gets an address. -/
def sampleClient (data : EthData) : List EthOp := [.hdrInit data.macAddr, .ipaddr data]

theorem postDisconnect_removes_sample :
    ∃ (s : EthTable) (l l' : LanToLan Script), EthReach sampleEthEnv s ∧ storedV4 s = [0xC0A80102] ∧
      LanToLan.runEvents (scriptConfig id false []) [.v4 (.clientActive ⟨0xC0A80102, 7, 1⟩)]
        (LanToLan.init .succeed) = some l ∧
      clientIface l.v4.clientInfo 0xC0A80102 = some 1 ∧
      LanToLan.runEvents (scriptConfig id false [])
        (postLan2LanClientDisconnectMsg sampleEthEnv s .v4) l = some l' ∧
      postLan2LanClientDisconnectMsg sampleEthEnv s .v4 = disconnectEvents sampleEthEnv s .v4 ∧
      Unknown s l' .v4 ∧ NoneOn 1 l' .v4 := by
  obtain ⟨s, hs, hstored⟩ := map_eq_some_iff.mp
    (show (EthTable.run sampleEthEnv (sampleClient ⟨7, .v4, 0xC0A80102, 0⟩) .init).map storedV4 =
      some [0xC0A80102] from rfl)
  have hpost : postLan2LanClientDisconnectMsg sampleEthEnv s .v4 =
      [.v4 (.clientDisconnect ⟨0xC0A80102, 0, 1⟩)] := by
    rw [post_v4, disconnectEvents, hstored]
    rfl
  obtain ⟨l, l', hl, hinfo, hrun⟩ : ∃ l l' : LanToLan Script,
      LanToLan.runEvents (scriptConfig id false []) [.v4 (.clientActive ⟨0xC0A80102, 7, 1⟩)]
        (LanToLan.init .succeed) = some l ∧
      l.v4.clientInfo = NodeMap.empty.insert 0xC0A80102 ⟨0xC0A80102, 7, true, false, 1, [], []⟩ ∧
      LanToLan.runEvents (scriptConfig id false []) [.v4 (.clientDisconnect ⟨0xC0A80102, 0, 1⟩)] l =
        some l' := ⟨_, _, rfl, rfl, rfl⟩
  rw [← hpost] at hrun
  refine ⟨s, l, l', EthReach.start.run hs, hstored, hl, by rw [hinfo]; rfl, hrun,
    (postDisconnect_removes_iff .v4 hrun).mpr ⟨trivial, fun k hk => ?_⟩⟩
  rw [hstored, mem_singleton]
  by_contra hne
  have hnone : l.v4.clientInfo.find k = none := by
    rw [hinfo, NodeMap.find_insert, if_neg hne]
    rfl
  exact absurd (hk.symm.trans (clientIface_eq_none.mpr hnone)) (by simp)

/-- A client with the address `fe80::1` stays, since the event that is posted for it
carries `fe80::`. -/
theorem postDisconnect_keeps_v6 :
    ∃ (s : EthTable) (l l' : LanToLan Script), EthReach sampleEthEnv s ∧
      storedV6 s = [![0xFE800000, 0, 0, 1]] ∧
      LanToLan.runEvents (scriptConfig id false [])
        [.v6 (.clientActive ⟨![0xFE800000, 0, 0, 1], 7, 1⟩)] (LanToLan.init .succeed) = some l ∧
      LanToLan.runEvents (scriptConfig id false []) (handleLanClientResetRt sampleEthEnv s .v6).2 l =
        some l' ∧
      postLan2LanClientDisconnectMsg sampleEthEnv s .v6 ≠ disconnectEvents sampleEthEnv s .v6 ∧
      ¬ Unknown s l' .v6 ∧ ¬ NoneOn 1 l' .v6 := by
  obtain ⟨s, hs, hstored, hevs⟩ : ∃ s, EthTable.run sampleEthEnv
        (sampleClient ⟨7, .v6, 0, ![0xFE800000, 0, 0, 1]⟩) .init = some s ∧
      storedV6 s = [![0xFE800000, 0, 0, 1]] ∧ (handleLanClientResetRt sampleEthEnv s .v6).2 =
        [.v6 (.clientDisconnect ⟨ipv6First ![0xFE800000, 0, 0, 1], 0, 1⟩)] := ⟨_, rfl, rfl, rfl⟩
  obtain ⟨l, l', hl, hrun, hkept⟩ : ∃ l l' : LanToLan Script,
      LanToLan.runEvents (scriptConfig id false [])
        [.v6 (.clientActive ⟨![0xFE800000, 0, 0, 1], 7, 1⟩)] (LanToLan.init .succeed) = some l ∧
      LanToLan.runEvents (scriptConfig id false [])
        [.v6 (.clientDisconnect ⟨ipv6First ![0xFE800000, 0, 0, 1], 0, 1⟩)] l = some l' ∧
      clientIface l'.v6.clientInfo (0, 1) = some 1 := ⟨_, _, rfl, rfl, rfl⟩
  refine ⟨s, l, l', EthReach.start.run hs, hstored, hl, by rw [hevs]; exact hrun, ?_, ?_, ?_⟩
  · rw [Ne, post_eq_iff, FirstWordOnly, hstored]
    intro hfirst
    exact absurd (hfirst _ (mem_singleton_self _)).2.2 (by decide)
  · intro hgone
    have hnone : l'.v6.clientInfo.find (0, 1) = none := hgone ![0xFE800000, 0, 0, 1] (by simp [hstored])
    rw [clientIface_eq_none.mpr hnone] at hkept
    exact nomatch hkept
  · intro hno
    exact hno (0, 1) hkept

end G4Common.Ipacm

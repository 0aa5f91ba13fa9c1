/-
The offload links when all calls to the interfaces succeed.

Then only two things can go wrong.  A client may be joined with itself, and a
client that becomes active again, after power save or otherwise, may be linked a
second time with a peer it has kept its link to: power save leaves the links in
place, and `check_potential_link()` does not look whether a link is there.

Without these (`RelinkOk`) every event gets over its failures, of which there are
none, and the graph of links is the one of `G4Common.Ipacm.LanFaults`.  Beside it,
linked clients are peers, and a client that is neither active nor in power save
has no links.
-/
import G4Common.Ipacm.LanFaults
import G4Common.Ipacm.LanFull

namespace G4Common.Ipacm

open Option List

variable {A K : Type}

def Script.AllOk (k : Script) : Prop := ∀ n, k.ok n = true

/-- `check_potential_link()` for the client at `a`, with `num` pairs, meets other
clients only, without a link so far. -/
def PotentialFresh (s : LanState A K Script) (a : ℕ) : List PeerInfo → UInt8 → Prop
  | [], _ => True
  | e :: rest, num =>
    if (s.clientInfo.node e.peerPointer).any ClientInfo.isActive = true ∧ 0 < e.numConnection ∧
        num < maxOffloadPair then
      e.peerPointer ≠ a ∧ e.peerPointer ∉ targetsOf s.clientInfo a ∧ PotentialFresh s a rest (num + 1)
    else PotentialFresh s a rest num

/-- No pair is linked a second time, and no client with itself. -/
def RelinkOk (env : LanEnv A K Script) (s : LanState A K Script) : LanEvent A → Prop
  | .clientActive data => ∀ p c, s.clientInfo.find (env.key data.ip) = some p →
      s.clientInfo.node p = some c → c.isActive = false →
      PotentialFresh (s.modify p (ClientInfo.fill data)) p c.peer s.numOffloadPair
  | .clientPowerRecover data => ∀ p c, s.clientInfo.find (env.key data.ip) = some p →
      s.clientInfo.node p = some c → c.isActive = false → c.isPowersave = true →
      PotentialFresh (s.modify p ClientInfo.setRecovered) p c.peer s.numOffloadPair
  | .newConnection conn => ∀ p c, s.clientInfo.find (env.key conn.src) = some p →
      s.clientInfo.find (env.key conn.dst) = some p → s.clientInfo.node p = some c →
      c.isActive = true → (∀ e ∈ c.peer, e.peerPointer ≠ p) → ¬ s.numOffloadPair < maxOffloadPair
  | _ => True

section

variable {env : LanEnv A K Script} {s s' : LanState A K Script}

theorem Script.AllOk.threeOk {k : Script} (h : k.AllOk) (n : ℕ) : k.threeOk n = true := by
  simp [Script.threeOk, h n, h (n + 1), h (n + 2)]

theorem Script.AllOk.succeeds {k : Script} (h : k.AllOk) (n : ℕ) : k.Succeeds n := fun j _ => h (k.call + j)

theorem PotentialFresh.ok {a : ℕ} {peers : List PeerInfo} {num : UInt8} (hall : s.ifaces.AllOk)
    (h : PotentialFresh s a peers num) (n : ℕ) : PotentialOk s a peers n num := by
  induction peers generalizing num n with
  | nil => trivial
  | cons e rest ih =>
    unfold PotentialOk
    unfold PotentialFresh at h
    split
    · rename_i hcond
      rw [if_pos hcond] at h
      rw [hall.threeOk, hall.threeOk]
      exact ⟨rfl, fun _ => ⟨h.1, h.2.1⟩, ih h.2.2 _⟩
    · rename_i hcond
      rw [if_neg hcond] at h
      exact ih h n

theorem RelinkOk.faultOk {ev : LanEvent A} (hok : RelinkOk env s ev) (hall : s.ifaces.AllOk)
    (hfull : LinkFull s.clientInfo) : FaultOk env s ev := by
  cases ev with
  | clientActive data =>
    intro p c hp hc
    exact ⟨fun _ _ => Or.inl (hall.succeeds _), fun hact =>
      PotentialFresh.ok (s := s.modify p (ClientInfo.fill data)) hall (hok p c hp hc hact) _⟩
  | clientInactive => exact fun p c _ _ => Or.inl (hall.succeeds _)
  | clientDisconnect => exact fun p c _ _ => hall.succeeds _
  | clientPowerSave => trivial
  | clientPowerRecover =>
    intro p c hp hc hact hps _
    exact PotentialFresh.ok (s := s.modify p ClientInfo.setRecovered) hall (hok p c hp hc hact hps) _
  | newConnection =>
    intro p q c d hp hq hc hd hnew hact _ hroom _
    refine ⟨?_, fun hmem => ?_, hall.threeOk _⟩
    · rintro rfl
      exact hok p c hp hq hc hact hnew hroom
    · have hpos := hfull.peers p q hmem
      rw [peersOf_of_node hc, connTo_of_forall_ne hnew] at hpos
      exact nomatch hpos
  | delConnection =>
    intro p q c d _ _ hc hd _ _
    have hnil : ∀ {x y : ℕ} {e : ClientInfo A}, s.clientInfo.node x = some e → GoesWith e y →
        e.link = [] := fun {x y e} he hgoes => by
      have htar := hfull.idle x e he hgoes.1 hgoes.2.1
      rw [targetsOf_of_node he] at htar
      exact map_eq_nil_iff.mp htar
    exact ⟨fun _ _ => hall.succeeds 6, fun h => hnil hc h, fun h => hnil hd h⟩

theorem Script.AllOk.delsOk (henv : env.toLanOps = scriptOps A) (hall : s.ifaces.AllOk)
    (hs : LinkSound s.toLanTable) : DelsOk env s where
  turnoff := fun p r hr => by
    rw [henv] at hr
    simp only [turnoffOffloadLinks, bind_eq_bind, bind_eq_some_iff] at hr
    obtain ⟨c, hc, hr⟩ := hr
    exact turnoffFrom_script (hs.ahead hc) (hall.succeeds _) hr
  erase := fun p q r hr hmem => by
    have hframe := removeConnection_frame hr
    have hs' := hs.same hframe.sameLinks
    have hsix : r.1.ifaces.Succeeds 6 := hframe.ifaces ▸ hall.succeeds 6
    rw [henv]
    exact ⟨hs'.erasesBoth_script hmem hsix, hs'.erasesBoth_script (hs'.graph.symm hmem) hsix⟩

end

/-! ### Runs -/

/-- An event of one of the IP types links no pair a second time. -/
def IpRelinkOk (cfg : LanConfig Script) (s : LanToLan Script) : IpEvent → Prop
  | .v4 ev => RelinkOk cfg.env4 s.state4 ev
  | .v6 ev => RelinkOk cfg.env6 s.state6 ev

/-- Each client has at most one link to each other, links are in both directions
and between peers, and the counter is the number of linked pairs. -/
structure LinksExact (t : LanTable A K) : Prop where
  unique : ∀ k p c, t.clientInfo.find k = some p → t.clientInfo.node p = some c →
    (c.link.map OffloadLinkInfo.peerPointer).Nodup
  both : ∀ k k' p q c d, t.clientInfo.find k = some p → t.clientInfo.node p = some c →
    t.clientInfo.find k' = some q → t.clientInfo.node q = some d →
    ((∃ l ∈ c.link, l.peerPointer = q) ↔ ∃ l ∈ d.link, l.peerPointer = p)
  peers : ∀ k p c l, t.clientInfo.find k = some p → t.clientInfo.node p = some c → l ∈ c.link →
    ∃ k' d, t.clientInfo.find k' = some l.peerPointer ∧
      t.clientInfo.node l.peerPointer = some d ∧ (∃ e ∈ c.peer, e.peerPointer = l.peerPointer) ∧
      ∃ e ∈ d.peer, e.peerPointer = p
  count : t.numOffloadPair.toNat = (linkedPairs t.clientInfo).ncard
  le_max : t.numOffloadPair ≤ maxOffloadPair

theorem exists_peer_of_pos {l : List PeerInfo} {q : ℕ} (h : 0 < connTo l q) : ∃ e ∈ l, e.peerPointer = q := by
  by_contra hno
  rw [connTo_of_forall_ne fun e he heq => hno ⟨e, he, heq⟩] at h
  exact nomatch h

theorem LinkFull.exact {t : LanTable A K} (h : LinkFull t.clientInfo) (hs : LinkSound t)
    (hsym : PeerSym (peersOf t.clientInfo)) : LinksExact t where
  unique := fun _ p c _ hc => by
    rw [← targetsOf_of_node hc]
    exact hs.graph.nodup p
  both := fun k k' p q c d hp hc hq hd =>
    ⟨hs.consistent.both k k' p q c d hp hc hq hd, hs.consistent.both k' k q p d c hq hd hp hc⟩
  peers := fun k p c l hp hc hl => by
    have hmem : l.peerPointer ∈ targetsOf t.clientInfo p := by
      rw [targetsOf_of_node hc]
      exact mem_map_of_mem hl
    obtain ⟨k', hk'⟩ := hs.consistent.live k p c l hp hc hl
    obtain ⟨d, hd⟩ := NodeMap.node_of_find hk'
    have hpos := h.peers p _ hmem
    have hpos' := hsym.symm p _ ▸ hpos
    rw [peersOf_of_node hc] at hpos
    rw [peersOf_of_node hd] at hpos'
    exact ⟨k', d, hk', hd, exists_peer_of_pos hpos, exists_peer_of_pos hpos'⟩
  count := hs.consistent.count
  le_max := hs.le_max

section

variable {ifCat : ℕ → ℕ} {ctOpt : Bool} {subnets : List (UInt32 × UInt32)}
  {between : Script → Script → Prop} {s : LanToLan Script}

theorem LanReach.linkFull {ok : LanToLan Script → IpEvent → Prop}
    (hok : ∀ s ev, ok s ev → s.ifaces.AllOk ∧ IpRelinkOk (scriptConfig ifCat ctOpt subnets) s ev)
    (h : LanReach (scriptConfig ifCat ctOpt subnets) between ok s) :
    (LinkSound s.v4 ∧ LinkFull s.v4.clientInfo) ∧ LinkSound s.v6 ∧ LinkFull s.v6.clientInfo := by
  induction h with
  | start => exact ⟨⟨LinkSound.init, LinkFull.init⟩, LinkSound.init, LinkFull.init⟩
  | @step _ _ ev _ hreach _ hev hs ih =>
    obtain ⟨⟨hs4, hf4⟩, hs6, hf6⟩ := ih
    obtain ⟨p4, p6⟩ := hreach.peerSym
    obtain ⟨hall, hev⟩ := hok _ ev hev
    cases ev with
    | v4 =>
      obtain ⟨r, hr, rfl⟩ := map_eq_some_iff.mp hs
      have hfault := RelinkOk.faultOk hev hall hf4
      exact ⟨⟨LinkSound.eventCallback rfl hs4 p4 hfault hr,
        LinkFull.eventCallback (hall.delsOk rfl hs4) hs4 p4 hf4 hr⟩, hs6, hf6⟩
    | v6 =>
      obtain ⟨r, hr, rfl⟩ := map_eq_some_iff.mp hs
      have hfault := RelinkOk.faultOk hev hall hf6
      exact ⟨⟨hs4, hf4⟩, LinkSound.eventCallback rfl hs6 p6 hfault hr,
        LinkFull.eventCallback (hall.delsOk rfl hs6) hs6 p6 hf6 hr⟩

/-- **Every pair of clients is linked at most once, in both directions, as peers,
and counted**, in every state of the runs in which all calls succeed and no event
links a pair a second time. -/
theorem lanToLan_linksExact (h : LanReach (scriptConfig ifCat ctOpt subnets) between
    (fun s ev => s.ifaces.AllOk ∧ IpRelinkOk (scriptConfig ifCat ctOpt subnets) s ev) s) :
    LinksExact s.v4 ∧ LinksExact s.v6 := by
  obtain ⟨⟨hs4, hf4⟩, hs6, hf6⟩ := h.linkFull fun _ _ hev => hev
  exact ⟨hf4.exact hs4 h.peerSym.1, hf6.exact hs6 h.peerSym.2⟩

end

theorem Script.allOk_succeed : Script.succeed.AllOk := fun _ => rfl

theorem lanToLan_linksExact_sample : ∃ s : LanToLan Script, LanReach (scriptConfig id false []) (fun _ _ => True)
        (fun s ev => s.ifaces.AllOk ∧ IpRelinkOk (scriptConfig id false []) s ev) s ∧
      targetsOf s.v4.clientInfo 0 = [1] ∧ s.v4.numOffloadPair = 1 ∧
      LinksExact s.v4 ∧ LinksExact s.v6 := by
  have h0 : LanReach (scriptConfig id false []) (fun _ _ => True)
    (fun s ev => s.ifaces.AllOk ∧ IpRelinkOk (scriptConfig id false []) s ev) _ := .start .succeed
  have h1 := h0.step (.v4 (.clientActive ⟨1, 1, 1⟩)) .succeed trivial
    ⟨Script.allOk_succeed, fun p c hp => absurd hp.symm (some_ne_none p)⟩ rfl
  have h2 := h1.step (.v4 (.clientActive ⟨2, 2, 2⟩)) .succeed trivial
    ⟨Script.allOk_succeed, fun p c hp => absurd hp.symm (some_ne_none p)⟩ rfl
  have h3 := h2.step (.v4 (.newConnection ⟨1, 2⟩)) .succeed trivial ⟨Script.allOk_succeed, fun p c hp hq => by
      obtain rfl : 0 = p := some.inj hp
      exact absurd (some.inj hq : 1 = 0) (by decide)⟩ rfl
  exact ⟨_, h3, rfl, rfl, lanToLan_linksExact h3⟩

/-- Power save keeps the link, and power recover makes it once more. -/
theorem lanToLan_linkedTwice : ∃ s : LanToLan Script, LanReach (scriptConfig id false []) (fun _ _ => True)
        (fun s _ => s.ifaces.AllOk) s ∧
      targetsOf s.v4.clientInfo 0 = [1, 1] ∧ s.v4.numOffloadPair = 2 ∧ ¬ LinksExact s.v4 := by
  have hrun : (LanToLan.run (scriptConfig id false []) (samplePair .succeed ++
      [(.succeed, .v4 (.clientPowerSave ⟨1, 1, 1⟩)), (.succeed, .v4 (.clientPowerRecover ⟨1, 1, 1⟩))])
      (LanToLan.init .succeed)).map (fun s => (s.v4.clientInfo.find 1, s.v4.numOffloadPair,
        (s.v4.clientInfo.node 0).map fun c => c.link.map OffloadLinkInfo.peerPointer)) =
        some (some 0, 2, some [1, 1]) := by
    decide
  obtain ⟨s, hs, hstate⟩ := map_eq_some_iff.mp hrun
  simp only [Prod.mk.injEq, map_eq_some_iff] at hstate
  obtain ⟨hp, hnum, c, hc, hlink⟩ := hstate
  refine ⟨s, LanReach.run (.start _) (fun e he t => ?_) hs, ?_, hnum, fun hexact => ?_⟩
  · simp only [samplePair, cons_append, nil_append, mem_cons, not_mem_nil, or_false] at he
    rcases he with rfl | rfl | rfl | rfl | rfl <;> exact Script.allOk_succeed
  · rw [targetsOf_of_node hc, hlink]
  · have hnd := hexact.unique 1 0 c hp hc
    rw [hlink] at hnd
    exact nomatch hnd

end G4Common.Ipacm

/-
Linked clients are peers.

This holds beside the soundness of the graph of links, over any interfaces, as
long as the deletions of links that are there succeed (`DelsOk`): links are made
between peers only, and two clients lose their links with their last connection.
A client that is neither active nor in power save has no links, so those that are
in the way of `handle_del_lan2lan_connection()` are always erased.
-/
import G4Common.Ipacm.LanLinks

namespace G4Common.Ipacm

open List Option

variable {A K κ : Type}

/-- Linked clients are peers, and a client that is neither active nor in power save
has no links. -/
structure LinkFull (m : NodeMap K (ClientInfo A)) : Prop where
  peers : ∀ p q, q ∈ targetsOf m p → 0 < connTo (peersOf m p) q
  idle : ∀ p c, m.node p = some c → c.isActive = false → c.isPowersave = false →
    targetsOf m p = []

/-- From this state, the deletions of links that are there succeed, also after a
connection was removed. -/
structure DelsOk (env : LanEnv A K κ) (s : LanState A K κ) : Prop where
  turnoff : ∀ p r, turnoffOffloadLinks env.toLanOps s p = some r → r.2 = true
  erase : ∀ p q r, removeConnection s p q = some r → q ∈ targetsOf r.1.clientInfo p →
    ErasesBoth env.toLanOps r.1 p q ∧ ErasesBoth env.toLanOps r.1 q p

section

variable {env : LanEnv A K κ} {s s' : LanState A K κ}
variable {r : LanState A K κ × List (LanConn A)} {p : ℕ}

section

variable (h : LinkFull s.clientInfo)
include h

/-- Two clients are linked with a last connection only if both are active or in
power save. -/
theorem LinkFull.erases (hs : LinkSound s.toLanTable) {q : ℕ}
    {c d : ClientInfo A} (hc : s.clientInfo.node p = some c) (hd : s.clientInfo.node q = some d)
    (hq : q ∈ targetsOf s.clientInfo p) : ErasesLinks c d := by
  have hnot : ∀ {x y : ℕ} {e : ClientInfo A}, s.clientInfo.node x = some e →
      y ∈ targetsOf s.clientInfo x → e.isActive = true ∨ e.isPowersave = true := by
    intro x y e he hy
    by_contra hidle
    rw [not_or, Bool.not_eq_true, Bool.not_eq_true] at hidle
    rw [h.idle x e he hidle.1 hidle.2] at hy
    exact not_mem_nil hy
  unfold ErasesLinks
  rcases hnot hc hq with hca | hcp
  · rcases hnot hd (hs.graph.symm hq) with hda | hdp
    · exact .inl ⟨hca, hda⟩
    · exact .inr (.inr ⟨hdp, Or.inl hca⟩)
  · exact .inr (.inl ⟨hcp, hnot hd (hs.graph.symm hq)⟩)

theorem LinkFull.sublist (hframe : LinkFrame s s')
    (hsub : ∀ x, (targetsOf s'.clientInfo x).Sublist (targetsOf s.clientInfo x)) : LinkFull s'.clientInfo where
  peers := fun p q hq => by
    rw [hframe.peersOf_eq]
    exact h.peers p q ((hsub p).subset hq)
  idle := fun p c hc hact hps => by
    obtain ⟨c₀, hc0, heq⟩ := hframe.node_some' hc
    have hact0 := congrArg ClientInfo.isActive heq
    have hps0 := congrArg ClientInfo.isPowersave heq
    have hnil := h.idle p c₀ hc0 (hact0.trans hact) (hps0.trans hps)
    exact sublist_nil.mp (hnil ▸ hsub p)

theorem LinkFull.modify {f : ClientInfo A → ClientInfo A}
    (hlink : ∀ c, (f c).link = c.link) (hpeer : ∀ c, (f c).peer = c.peer)
    (hidle : ∀ c, (f c).isActive = false → (f c).isPowersave = false →
      targetsOf s.clientInfo p = []) : LinkFull (s.modify p f).clientInfo where
  peers := fun x y hy => by
    have hpeers : peersOf (s.modify p f).clientInfo = peersOf s.clientInfo :=
      peersOf_congr (s.clientInfo.map_node_modify p f ClientInfo.peer hpeer)
    rw [targetsOf_modify p f hlink] at hy
    rw [hpeers]
    exact h.peers x y hy
  idle := fun x c hc hact hps => by
    rw [targetsOf_modify p f hlink]
    by_cases hx : x = p
    · have hc' : ((s.clientInfo.node p).map f) = some c := by
        rw [← hc, hx]
        exact (NodeMap.node_modify_self ..).symm
      obtain ⟨c₀, -, rfl⟩ := map_eq_some_iff.mp hc'
      rw [hx]
      exact hidle c₀ hact hps
    · have hnode : (s.modify p f).clientInfo.node x = s.clientInfo.node x := NodeMap.node_modify_of_ne _ _ _ hx
      exact h.idle x c (hnode ▸ hc) hact hps

theorem LinkFull.peerFrame (hframe : PeerFrame s s')
    (hpos : ∀ x y, y ∈ targetsOf s.clientInfo x → 0 < connTo (peersOf s'.clientInfo x) y) : LinkFull s'.clientInfo where
  peers := fun x y hy => hpos x y (hframe.sameLinks.1 ▸ hy)
  idle := fun x c hc hact hps => by
    obtain ⟨c₀, hc0, heq⟩ := hframe.node_some' hc
    have hact0 := congrArg ClientInfo.isActive heq
    have hps0 := congrArg ClientInfo.isPowersave heq
    rw [hframe.sameLinks.1]
    exact h.idle x c₀ hc0 (hact0.trans hact) (hps0.trans hps)

theorem LinkFull.link (hframe : LinkFrame s s')
    (hnew : ∀ x y, y ∈ targetsOf s'.clientInfo x → y ∈ targetsOf s.clientInfo x ∨
      0 < connTo (peersOf s.clientInfo x) y ∧
        ∃ c, s.clientInfo.node x = some c ∧ c.isActive) : LinkFull s'.clientInfo where
  peers := fun x y hy => by
    rw [hframe.peersOf_eq]
    rcases hnew x y hy with hold | ⟨hpos, -⟩
    · exact h.peers x y hold
    · exact hpos
  idle := fun x c hc hact hps => by
    refine eq_nil_iff_forall_not_mem.mpr fun y hy => ?_
    obtain ⟨c₀, hc0, heq⟩ := hframe.node_some' hc
    have hact0 := congrArg ClientInfo.isActive heq
    have hps0 := congrArg ClientInfo.isPowersave heq
    rcases hnew x y hy with hold | ⟨-, _, hc1, hact1⟩
    · rw [h.idle x c₀ hc0 (hact0.trans hact) (hps0.trans hps)] at hold
      exact not_mem_nil hold
    · cases hc0.symm.trans hc1
      exact Bool.false_ne_true ((hact0.trans hact).symm.trans hact1)

theorem LinkFull.checkPotential {ops : LanOps A κ} (hsym : PeerSym (peersOf s.clientInfo))
    (hact : ∀ c, s.clientInfo.node p = some c → c.isActive)
    (hr : checkPotentialLink ops s p = some s') : LinkFull s'.clientInfo := by
  refine h.link (checkPotentialLink_frame hr) fun x y hy => ?_
  simp only [checkPotentialLink, bind_eq_bind, bind_eq_some_iff] at hr
  obtain ⟨c, hc, hr⟩ := hr
  rcases checkPotentialFrom_targets hr hy with hold | ⟨e, he, d, hd, hdact, hxy⟩
  · exact .inl hold
  -- the new links are those of a peer, in both directions
  have hpos : 0 < connTo (peersOf s.clientInfo p) e.peerPointer := by
    have hlist := hsym.list p
    rw [peersOf_of_node hc] at hlist ⊢
    rw [(hlist.mem_iff (hlist.pos e he)).mp he]
    exact hlist.pos e he
  refine .inr ?_
  rcases hxy with ⟨rfl, rfl⟩ | ⟨rfl, rfl⟩
  · exact ⟨hpos, c, hc, hact c hc⟩
  · exact ⟨hsym.symm y _ ▸ hpos, d, hd, hdact⟩

end

theorem LinkFull.erase [DecidableEq K] {m : NodeMap K (ClientInfo A)} (h : LinkFull m) {k : K} (hk : m.find k = some p) (hnil : targetsOf m p = []) : LinkFull (m.erase k) where
  peers := fun x y hy => by
    rw [targetsOf_erase hk hnil] at hy
    have hx : x ≠ p := by
      rintro rfl
      rw [hnil] at hy
      exact not_mem_nil hy
    rw [peersOf_erase hk, Function.update_of_ne hx]
    exact h.peers x y hy
  idle := fun x c hc hact hps => by
    rw [targetsOf_erase hk hnil]
    rw [NodeMap.node_erase hk] at hc
    split at hc
    · simp at hc
    · exact h.idle x c hc hact hps

theorem LinkFull.clearPeerList (h : LinkFull s.clientInfo) (hs : LinkSound s.toLanTable)
    {r : LanState A K κ × Bool} (hnil : targetsOf s.clientInfo p = [])
    (hr : Ipacm.clearPeerList s p = some r) : LinkFull r.1.clientInfo := by
  refine h.peerFrame (clearPeerList_frame hr) fun x y hy => ?_
  have hx : x ≠ p := by
    rintro rfl
    rw [hnil] at hy
    exact not_mem_nil hy
  have hy' : y ≠ p := by
    rintro rfl
    have hsymm := hs.graph.symm hy
    rw [hnil] at hsymm
    exact not_mem_nil hsymm
  simp only [Ipacm.clearPeerList, bind_eq_bind, bind_eq_some_iff] at hr
  obtain ⟨c, -, hr⟩ := hr
  rw [clearPeerFrom_rows hr hx hy']
  exact h.peers x y hy

variable {data : LanClient A} {conn : LanConn A}

theorem LinkFull.powerSave (h : LinkFull s.clientInfo)
    (hr : handleClientPowerSave env s data = some s') : LinkFull s'.clientInfo := by
  obtain ⟨-, rfl⟩ | ⟨p, r, -, hflt, rfl⟩ := handleClientPowerSave_cases hr
  · exact h
  obtain ⟨k, hk⟩ := removeFltRules_frame hflt
  have hfull : LinkFull (s.withIfaces k).clientInfo := h
  rw [hk]
  split
  · exact hfull.modify (fun _ => rfl) (fun _ => rfl) fun c _ hps =>
      absurd (show true = false from hps) (by simp)
  · exact hfull

theorem LinkFull.powerRecover (h : LinkFull s.clientInfo) (hsym : PeerSym (peersOf s.clientInfo))
    (hr : handleClientPowerRecover env s data = some r) : LinkFull r.1.clientInfo := by
  obtain ⟨-, hr⟩ | ⟨p, c, -, -, ⟨-, hr⟩ | ⟨-, -, r1, h1, ⟨-, hr⟩ | ⟨-, h2⟩⟩⟩ :=
    handleClientPowerRecover_cases hr
  · rwa [hr]
  · rwa [hr]
  · rw [hr]
    refine h.sublist (addFltRules_frame h1) fun x => ?_
    rw [(sameLinks_addFlt h1).1]
  have hfull : LinkFull r1.1.clientInfo := by
    refine h.sublist (addFltRules_frame h1) fun x => ?_
    rw [(sameLinks_addFlt h1).1]
  have hrec : LinkFull (r1.1.modify p ClientInfo.setRecovered).clientInfo :=
    hfull.modify (fun _ => rfl) (fun _ => rfl) fun c hact _ =>
      absurd (show true = false from hact) (by simp)
  refine hrec.checkPotential (PeerSym.modify ?_ fun _ => rfl) (fun c hc => ?_) h2
  · exact (addFltRules_frame h1).peerSym hsym
  · rw [LanState.modify, NodeMap.node_modify_self] at hc
    obtain ⟨_, -, rfl⟩ := map_eq_some_iff.mp hc
    rfl

theorem LinkFull.newConnection (h : LinkFull s.clientInfo) (hsym : PeerSym (peersOf s.clientInfo))
    (hr : handleNewLan2LanConnection env s conn = some s') : LinkFull s'.clientInfo := by
  obtain ⟨rfl, -⟩ | ⟨p, q, c, d, r, -, -, hadd, hc, hd, h'⟩ := handleNewLan2LanConnection_cases hr
  · exact h
  obtain ⟨hle, hpos⟩ := hsym.le_addConnection hadd
  have hsym' := hsym.addConnection hadd
  have hfull : LinkFull r.1.clientInfo := h.peerFrame (addConnection_frame hadd) fun x y hy =>
    lt_of_lt_of_le (h.peers x y hy) (hle x y)
  -- what the two directions can add
  obtain ⟨-, rfl⟩ | ⟨-, hact, hact', _, h1, ⟨-, rfl⟩ | ⟨-, r2, h2, rfl⟩⟩ := h'
  · exact hfull
  · refine hfull.link (addOffloadLink_frame h1) fun x y hy => ?_
    rcases addOffloadLink_targets h1 hy with hold | ⟨rfl, rfl⟩
    · exact .inl hold
    · exact .inr ⟨hsym'.symm _ _ ▸ hpos, c, hc, hact⟩
  have hboth : LinkFull r2.1.clientInfo := by
    refine hfull.link ((addOffloadLink_frame h1).trans (addOffloadLink_frame h2)) fun x y hy => ?_
    rcases addOffloadLink_targets h2 hy with hold | ⟨rfl, rfl⟩
    · rcases addOffloadLink_targets h1 hold with hold | ⟨rfl, rfl⟩
      · exact .inl hold
      · exact .inr ⟨hsym'.symm _ _ ▸ hpos, c, hc, hact⟩
    · exact .inr ⟨hpos, d, hd, hact'⟩
  split <;> exact hboth

variable [DecidableEq K]

theorem LinkFull.inactive (hdel : DelsOk env s) (hs : LinkSound s.toLanTable) (h : LinkFull s.clientInfo)
    (hr : handleClientInactive env s data = some s') : LinkFull s'.clientInfo := by
  obtain ⟨-, rfl⟩ | ⟨p, _, r, hp, hoff, hc', rfl⟩ := handleClientInactive_cases hr
  · exact h
  have hframe := turnoffOffloadLinks_frame hoff
  obtain ⟨c, _, -⟩ := hframe.node_some' hc'
  obtain ⟨_, hnil⟩ := hs.turnoff hoff (hdel.turnoff p r hoff)
  have hfull : LinkFull (r.1.modify p ClientInfo.setInactive).clientInfo :=
    (h.sublist hframe (turnoffOffloadLinks_sublist hoff)).modify (fun _ => rfl) (fun _ => rfl) fun _ _ _ => hnil
  have htar : targetsOf (r.1.modify p ClientInfo.setInactive).clientInfo =
      targetsOf r.1.clientInfo := targetsOf_modify p _ fun _ => rfl
  split
  · exact hfull.erase (hframe.find ▸ hp) (by rw [htar, hnil])
  · exact hfull

theorem LinkFull.disconnect (hdel : DelsOk env s) (hs : LinkSound s.toLanTable) (h : LinkFull s.clientInfo)
    (hr : handleClientDisconnect env s data = some s') : LinkFull s'.clientInfo := by
  obtain ⟨-, rfl⟩ | ⟨p, r1, _, hp, hoff, hclear, rfl⟩ := handleClientDisconnect_cases hr
  · exact h
  have hframe := turnoffOffloadLinks_frame hoff
  have hsame := (clearPeerList_frame hclear).sameLinks
  obtain ⟨c, _⟩ := NodeMap.node_of_find hp
  obtain ⟨hs', hnil⟩ := hs.turnoff hoff (hdel.turnoff p r1 hoff)
  have hfull := (h.sublist hframe (turnoffOffloadLinks_sublist hoff)).clearPeerList hs' hnil hclear
  refine hfull.erase ?_ (by rw [hsame.1, hnil])
  rw [(clearPeerList_frame hclear).find, hframe.find, hp]

theorem LinkFull.eraseIfIdle (h : LinkFull s.clientInfo) {k : K}
    (hk : s.clientInfo.find k = some p) (hr : Ipacm.eraseIfIdle s k p = some s') : LinkFull s'.clientInfo := by
  obtain ⟨c, hc, ⟨hact, hps, -, rfl⟩ | ⟨-, rfl⟩⟩ := eraseIfIdle_cases hr
  · exact h.erase hk (h.idle p c hc hact hps)
  · exact h

theorem LinkFull.delConnection (hdel : DelsOk env s) (hs : LinkSound s.toLanTable) (hsym : PeerSym (peersOf s.clientInfo))
    (h : LinkFull s.clientInfo) (hr : handleDelLan2LanConnection env s conn = some s') : LinkFull s'.clientInfo := by
  obtain ⟨rfl, -⟩ | ⟨p, q, r, hp, hq, hrem, h'⟩ := handleDelLan2LanConnection_cases hr
  · exact h
  have hframe := removeConnection_frame hrem
  have htar0 := hframe.sameLinks.1
  have hs0 := hs.same hframe.sameLinks
  have hne : ∀ {x y : ℕ}, y ∈ targetsOf s.clientInfo x → x ≠ y := by
    rintro x _ hy rfl
    exact hs.graph.irrefl x hy
  obtain ⟨hmore, rfl⟩ | ⟨-, s1, _, h1, h2, h3⟩ := h'
  · refine h.peerFrame hframe fun x y hy => ?_
    rcases hsym.pos_removeConnection hrem (hne hy) (h.peers x y hy) with hpos | ⟨hlast, -⟩
    · exact hpos
    · exact nomatch hmore.symm.trans hlast
  obtain ⟨c', hc'⟩ := NodeMap.node_of_find (hframe.find ▸ hp : r.1.clientInfo.find _ = some p)
  obtain ⟨d', hd'⟩ := NodeMap.node_of_find (hframe.find ▸ hq : r.1.clientInfo.find _ = some q)
  obtain ⟨c, hc, hceq⟩ := hframe.node_some' hc'
  obtain ⟨d, hd, hdeq⟩ := hframe.node_some' hd'
  have hflags : ErasesLinks c d → ErasesLinks c' d' := fun h' => by
    show ErasesLinks c'.noPeer d'.noPeer
    rw [← hceq, ← hdeq]
    exact h'
  have hframe1 := eraseLinks_frame h1
  obtain ⟨hs1, hsub, hgone⟩ := hs0.eraseLinks hc' hd' (fun _ hmem => hdel.erase p q r hrem hmem) h1
  rw [htar0] at hsub
  -- the two clients are not linked any more, so all links left are between peers
  have hno : q ∉ targetsOf s1.clientInfo p := fun hmem =>
    hgone (hflags (h.erases hs hc hd (hsub p q hmem))) hmem
  have hfull : LinkFull s1.clientInfo := by
    constructor
    · intro x y hy
      rw [hframe1.peersOf_eq]
      have hy0 := hsub x y hy
      rcases hsym.pos_removeConnection hrem (hne hy0) (h.peers x y hy0) with
        hpos | ⟨-, ⟨rfl, rfl⟩ | ⟨rfl, rfl⟩⟩
      · exact hpos
      · exact absurd hy hno
      · exact absurd (hs1.graph.symm hy) hno
    intro x e he hact hps
    obtain ⟨_, he1, heq1⟩ := hframe1.node_some' he
    obtain ⟨e0, he0, heq0⟩ := hframe.node_some' he1
    have hact1 := congrArg ClientInfo.isActive heq1
    have hact0 := congrArg ClientInfo.isActive heq0
    have hps1 := congrArg ClientInfo.isPowersave heq1
    have hps0 := congrArg ClientInfo.isPowersave heq0
    have hnil := h.idle x e0 he0 (hact0.trans (hact1.trans hact)) (hps0.trans (hps1.trans hps))
    refine eq_nil_iff_forall_not_mem.mpr fun y hy => ?_
    have hy' := hsub x y hy
    rw [hnil] at hy'
    exact not_mem_nil hy'
  have hp1 : s1.clientInfo.find (env.key conn.src) = some p := by
    rw [hframe1.find, hframe.find, hp]
  have hq1 : s1.clientInfo.find (env.key conn.dst) = some q := by
    rw [hframe1.find, hframe.find, hq]
  exact (hfull.eraseIfIdle hp1 h2).eraseIfIdle (eraseIfIdle_twice hp1 hq1 h2 h3).1 h3

variable [DecidableEq A]

section

variable (hdel : DelsOk env s) (hs : LinkSound s.toLanTable) (hsym : PeerSym (peersOf s.clientInfo))
    (h : LinkFull s.clientInfo)
include hdel hs hsym h

theorem LinkFull.active (hr : handleClientActive env s data = some r) : LinkFull r.1.clientInfo := by
  have hann : ∀ {s1 : LanState A K κ} {p : ℕ}, LinkFull s1.clientInfo →
      announce env s1 p = some r → LinkFull r.1.clientInfo := fun {s1 p} h1 hr => by
    obtain ⟨_, hconns⟩ := announce_frame hr
    rw [hconns]
    exact h1
  have hfilled : ∀ c : ClientInfo A, ¬ (ClientInfo.fill data c).isActive = false := fun c hact =>
    absurd (show true = false from hact) (by simp)
  obtain ⟨hnone, hr⟩ | ⟨p, c, -, hc, ⟨-, -, rfl⟩ | ⟨-, -, r1, _, h1, h2, hr⟩ | ⟨-, _, h1, hr⟩⟩ :=
    handleClientActive_cases hr
  · refine hann ?_ hr
    constructor
    · intro x y hy
      rw [insertClient, targetsOf_insert hnone rfl] at hy
      rw [insertClient, peersOf_insert hnone rfl]
      exact h.peers x y hy
    intro x c hc hact hps
    rw [insertClient, targetsOf_insert hnone rfl]
    rw [insertClient, NodeMap.node_insert _ hnone] at hc
    split_ifs at hc with hx
    · rw [hx]
      exact targetsOf_of_none s.clientInfo.next_node
    · exact h.idle x c hc hact hps
  · exact h
  · refine hann ?_ hr
    have hframe := turnoffOffloadLinks_frame h1
    obtain ⟨hs', hnil⟩ := hs.turnoff h1 (hdel.turnoff p r1 h1)
    have hfull := (h.sublist hframe (turnoffOffloadLinks_sublist h1)).clearPeerList hs' hnil h2
    exact hfull.modify (fun _ => rfl) (fun _ => rfl) fun c hact => absurd hact (hfilled c)
  refine hann ?_ hr
  have hfull : LinkFull (s.modify p (ClientInfo.fill data)).clientInfo :=
    h.modify (fun _ => rfl) (fun _ => rfl) fun c hact => absurd hact (hfilled c)
  refine hfull.checkPotential (hsym.modify fun _ => rfl) (fun c' hc' => ?_) h1
  rw [LanState.modify, NodeMap.node_modify_self] at hc'
  obtain ⟨_, -, rfl⟩ := map_eq_some_iff.mp hc'
  rfl

theorem LinkFull.eventCallback {ev : LanEvent A} (hr : eventCallback env s ev = some r) : LinkFull r.1.clientInfo := by
  cases ev with
  | clientActive => exact LinkFull.active hdel hs hsym h hr
  | clientInactive =>
    obtain ⟨s', hs', rfl⟩ := map_eq_some_iff.mp hr
    exact LinkFull.inactive hdel hs h hs'
  | clientDisconnect =>
    obtain ⟨s', hs', rfl⟩ := map_eq_some_iff.mp hr
    exact LinkFull.disconnect hdel hs h hs'
  | clientPowerSave =>
    obtain ⟨s', hs', rfl⟩ := map_eq_some_iff.mp hr
    exact h.powerSave hs'
  | clientPowerRecover => exact h.powerRecover hsym hr
  | newConnection =>
    obtain ⟨s', hs', rfl⟩ := map_eq_some_iff.mp hr
    exact h.newConnection hsym hs'
  | delConnection =>
    obtain ⟨_, hs', rfl⟩ := map_eq_some_iff.mp hr
    exact LinkFull.delConnection hdel hs hsym h hs'

end

end

theorem LinkFull.init : LinkFull (LanTable.init : LanTable A K).clientInfo where
  peers := nofun
  idle := fun _ _ _ _ _ => rfl

end G4Common.Ipacm

/-
The filter slots of the interfaces through the events of `IPACM_LanToLan`.

All calls of the kernel succeed.  Two things can still separate the slots from the
links.  Power save gives the filters of a client back and leaves its links, whose
handles are then given back again when the links go, whoever uses the slots by
then.  And the second direction of a pair may find no free slot, which leaves the
first one behind.  Without these (`SlotOk`) the slots in use are exactly those of
the links (`SlotCore`, `lanToLan_slotsOwned`).
-/
import G4Common.Ipacm.LanFaults
import G4Common.Ipacm.LanSlots

namespace G4Common.Ipacm

open List Option

variable {A K κ ρ : Type}

/-- Only active clients have links, and a client in power save is not active. -/
structure LinkedActive (m : NodeMap K (ClientInfo A)) : Prop where
  nil : ∀ p c, m.node p = some c → c.isActive = false → targetsOf m p = []
  saved : ∀ p c, m.node p = some c → c.isPowersave = true → c.isActive = false

/-- What the slots need: the graph of links is right, only active clients are in it,
and the slots are those of the links. -/
structure SlotCore (part : PartOf κ (LanIfaces A) ρ) (rest : ρ) (s : LanState A K κ) : Prop where
  sound : LinkSound s.toLanTable
  active : LinkedActive s.clientInfo
  links : SlotLinks part rest s

section

variable {part : PartOf κ (LanIfaces A) ρ} {rest : ρ} {s s' : LanState A K κ} {p : ℕ}

theorem linksOf_congr {m m' : NodeMap K (ClientInfo A)}
    (h : ∀ p, (m'.node p).map ClientInfo.link = (m.node p).map ClientInfo.link) : linksOf m' = linksOf m := by
  funext p
  simp only [linksOf, h]

theorem LinkFrame.linkedActive (hframe : LinkFrame s s') (h : LinkedActive s.clientInfo)
    (hnil : ∀ x c, s.clientInfo.node x = some c → c.isActive = false →
      targetsOf s'.clientInfo x = []) : LinkedActive s'.clientInfo where
  nil := fun x c hc hact => by
    obtain ⟨c₀, hc0, heq⟩ := hframe.node_some' hc
    have hact0 := congrArg ClientInfo.isActive heq
    exact hnil x c₀ hc0 (hact0.trans hact)
  saved := fun x c hc hps => by
    obtain ⟨c₀, hc0, heq⟩ := hframe.node_some' hc
    have hps0 := congrArg ClientInfo.isPowersave heq
    have hact0 := congrArg ClientInfo.isActive heq
    exact hact0.symm.trans (h.saved x c₀ hc0 (hps0.trans hps))

section

variable (h : SlotCore part rest s)
include h

theorem SlotCore.less (hframe : LinkFrame s s')
    (hsub : ∀ x, (targetsOf s'.clientInfo x).Sublist (targetsOf s.clientInfo x))
    (hs : LinkSound s'.toLanTable) (hl : SlotLinks part rest s') : SlotCore part rest s' where
  sound := hs
  active := by
    refine hframe.linkedActive h.active fun x c hc hact => ?_
    have hnil := h.active.nil x c hc hact
    exact sublist_nil.mp (hnil ▸ hsub x)
  links := hl

theorem SlotCore.more (hframe : LinkFrame s s')
    (hnew : ∀ x y, y ∈ targetsOf s'.clientInfo x → y ∈ targetsOf s.clientInfo x ∨
      ∃ c, s.clientInfo.node x = some c ∧ c.isActive)
    (hs : LinkSound s'.toLanTable) (hl : SlotLinks part rest s') : SlotCore part rest s' where
  sound := hs
  active := by
    refine hframe.linkedActive h.active fun x c hc hact => ?_
    refine eq_nil_iff_forall_not_mem.mpr fun y hy => ?_
    rcases hnew x y hy with hold | ⟨_, hc1, hact1⟩
    · rw [h.active.nil x c hc hact] at hold
      exact not_mem_nil hold
    · cases hc.symm.trans hc1
      exact Bool.false_ne_true (hact.symm.trans hact1)
  links := hl

theorem SlotCore.modify {f : ClientInfo A → ClientInfo A}
    (hnil : targetsOf s.clientInfo p = []) (hlink : ∀ c, (f c).link = c.link)
    (hps : ∀ c, s.clientInfo.node p = some c → (f c).isPowersave → (f c).isActive = false) :
    SlotCore part rest (s.modify p f) where
  sound := h.sound.same (sameLinks_modify s p f hlink)
  active := by
    have hnode : ∀ x, x ≠ p → (s.modify p f).clientInfo.node x = s.clientInfo.node x :=
      fun x hx => NodeMap.node_modify_of_ne _ _ _ hx
    constructor
    · intro x c hc hact
      rw [targetsOf_modify p f hlink]
      by_cases hx : x = p
      · rw [hx, hnil]
      · exact h.active.nil x c (hnode x hx ▸ hc) hact
    intro x c hc hcps
    rcases eq_or_ne x p with rfl | hx
    · have hc' : (s.clientInfo.node x).map f = some c := by
        rw [← hc]
        exact (NodeMap.node_modify_self ..).symm
      obtain ⟨c₀, hc0, rfl⟩ := map_eq_some_iff.mp hc'
      exact hps c₀ hc0 hcps
    · exact h.active.saved x c (hnode x hx ▸ hc) hcps
  links := by
    refine h.links.change h.sound rfl ?_ (fun x hx => ?_) hnil
    · exact linksOf_congr (s.clientInfo.map_node_modify p f _ hlink)
    · show ((s.clientInfo.modify p f).node x).map _ = _
      rw [NodeMap.node_modify_of_ne _ _ _ hx]
      rfl

theorem SlotCore.peerFrame (hframe : PeerFrame s s') : SlotCore part rest s' where
  sound := h.sound.same hframe.sameLinks
  active := by
    constructor
    · intro x c hc hact
      obtain ⟨c₀, hc0, heq⟩ := hframe.node_some' hc
      have hact0 := congrArg ClientInfo.isActive heq
      rw [hframe.sameLinks.1]
      exact h.active.nil x c₀ hc0 (hact0.trans hact)
    intro x c hc hps
    obtain ⟨c₀, hc0, heq⟩ := hframe.node_some' hc
    have hps0 := congrArg ClientInfo.isPowersave heq
    have hact0 := congrArg ClientInfo.isActive heq
    exact hact0.symm.trans (h.active.saved x c₀ hc0 (hps0.trans hps))
  links := h.links.same hframe.ifaces (linksOf_congr (hframe.map_node fun _ => rfl))
    (funext fun x => hframe.map_node (fun _ => rfl) x)

end

theorem SlotCore.erase [DecidableEq K] (h : SlotCore part rest s) {k : K}
    (hk : s.clientInfo.find k = some p) (hnil : targetsOf s.clientInfo p = []) :
    SlotCore part rest (s.eraseClient k) where
  sound := h.sound.same ⟨targetsOf_erase hk hnil, rfl⟩
  active := by
    have hnode : ∀ x c, (s.clientInfo.erase k).node x = some c → s.clientInfo.node x = some c := by
      intro x c hc
      rw [NodeMap.node_erase hk] at hc
      split at hc
      · exact nomatch hc
      · exact hc
    constructor
    · intro x c hc hact
      show targetsOf (s.clientInfo.erase k) x = []
      rw [targetsOf_erase hk hnil]
      exact h.active.nil x c (hnode x c hc) hact
    · intro x c hc hps
      exact h.active.saved x c (hnode x c hc) hps
  links := by
    refine h.links.change h.sound rfl (funext fun x => ?_) (fun x hx => ?_) hnil
    · show (((s.clientInfo.erase k).node x).map _).getD [] = _
      rw [NodeMap.node_erase hk]
      split_ifs with hx
      · subst hx
        obtain ⟨c, hc⟩ := NodeMap.node_of_find hk
        rw [targetsOf_of_node hc] at hnil
        rw [linksOf_of_node hc, map_eq_nil_iff.mp hnil]
        rfl
      · rfl
    · show ((s.clientInfo.erase k).node x).map _ = _
      rw [NodeMap.node_erase hk, if_neg hx]
      rfl

theorem SlotCore.insert [DecidableEq K] (h : SlotCore part rest s) {env : LanEnv A K κ} {data : LanClient A}
    (hk : s.clientInfo.find (env.key data.ip) = none) : SlotCore part rest (insertClient env s data) where
  sound := h.sound.same ⟨targetsOf_insert hk rfl, rfl⟩
  active := by
    constructor
    · intro x c hc hact
      rw [insertClient, NodeMap.node_insert _ hk] at hc
      split at hc
      · cases hc
        cases hact
      · rw [insertClient, targetsOf_insert hk rfl]
        exact h.active.nil x c hc hact
    intro x c hc hps
    rw [insertClient, NodeMap.node_insert _ hk] at hc
    split at hc
    · cases hc
      cases hps
    · exact h.active.saved x c hc hps
  links := by
    refine h.links.change (a := s.clientInfo.next) h.sound rfl (funext fun x => ?_) (fun x hx => ?_)
      (targetsOf_of_none s.clientInfo.next_node)
    · rw [insertClient, linksOf, NodeMap.node_insert _ hk]
      split_ifs with hx
      · subst hx
        rw [linksOf, s.clientInfo.next_node]
        rfl
      · rfl
    · rw [insertClient, endOf, NodeMap.node_insert _ hk, if_neg hx]
      rfl

end

/-- Power save is only for clients without links, and a new pair is made in both
directions or in none. -/
def SlotOk (props : IfaceProps) (part : PartOf κ (LanIfaces A) ρ) (env : LanEnv A K κ)
    (s : LanState A K κ) : LanEvent A → Prop
  | .clientActive data => ∀ p c, s.clientInfo.find (env.key data.ip) = some p →
      s.clientInfo.node p = some c → c.isActive = false →
      PotentialRoom props (s.modify p (ClientInfo.fill data)).clientInfo p c.peer s.numOffloadPair
        (fltRoom part s) (hdrRoom part s)
  | .clientPowerSave data => ∀ p c, s.clientInfo.find (env.key data.ip) = some p →
      s.clientInfo.node p = some c → c.link = []
  | .clientPowerRecover data => ∀ p c, s.clientInfo.find (env.key data.ip) = some p →
      s.clientInfo.node p = some c → c.isActive = false → c.isPowersave = true →
      PotentialRoom props (s.modify p ClientInfo.setRecovered).clientInfo p c.peer s.numOffloadPair
        (fltRoom part s) (hdrRoom part s)
  | .newConnection conn => ∀ p q c d, s.clientInfo.find (env.key conn.src) = some p →
      s.clientInfo.find (env.key conn.dst) = some q → s.clientInfo.node p = some c →
      s.clientInfo.node q = some d → (∀ e ∈ c.peer, e.peerPointer ≠ q) → c.isActive = true →
      d.isActive = true → s.numOffloadPair < maxOffloadPair →
      DirBlocked props (fltRoom part s) (hdrRoom part s) c.pIface d.pIface ∨
        p ≠ q ∧ PairFits props (fltRoom part s) (hdrRoom part s) c.pIface d.pIface
  | _ => True

section

variable {props : IfaceProps} {part : PartOf κ (LanIfaces A) ρ} {rest : ρ} {env : LanEnv A K κ}
  {s s' : LanState A K κ} {data : LanClient A} {conn : LanConn A} {p : ℕ}
variable {r : LanState A K κ × List (LanConn A)}

section

variable (henv : env.toLanOps = (lan2LanOps props).through part) (h : SlotCore part rest s)
include henv h

theorem SlotCore.turnoff {r : LanState A K κ × Bool} (hr : turnoffOffloadLinks env.toLanOps s p = some r) :
    r.2 ∧ SlotCore part rest r.1 ∧ targetsOf r.1.clientInfo p = [] := by
  have hframe := turnoffOffloadLinks_frame hr
  have hsub := turnoffOffloadLinks_sublist hr
  rw [henv] at hr
  obtain ⟨htrue, hl⟩ := h.links.turnoff h.sound hr
  obtain ⟨hs, hnil⟩ := h.sound.turnoff hr htrue
  exact ⟨htrue, h.less hframe hsub hs hl, hnil⟩

theorem SlotCore.delsOk : DelsOk env s where
  turnoff := fun p r hr => (h.turnoff henv hr).1
  erase := fun p q r hr hmem => by
    have h' := h.peerFrame (removeConnection_frame hr)
    rw [henv]
    exact ⟨h'.links.erasesBoth h'.sound hmem, h'.links.erasesBoth h'.sound (h'.sound.graph.symm hmem)⟩

theorem SlotCore.checkPotential (hsym : PeerSym (peersOf s.clientInfo))
    (hact : ∀ c, s.clientInfo.node p = some c → c.isActive) (hnil : targetsOf s.clientInfo p = [])
    (hok : PotentialRoom props s.clientInfo p (peersOf s.clientInfo p) s.numOffloadPair
      (fltRoom part s) (hdrRoom part s))
    (hr : checkPotentialLink env.toLanOps s p = some s') : SlotCore part rest s' := by
  have hframe := checkPotentialLink_frame hr
  rw [henv] at hr
  obtain ⟨hs, hl⟩ := h.links.checkPotential h.sound hsym hnil hok hr
  refine h.more hframe (fun x y hy => ?_) hs hl
  simp only [checkPotentialLink, bind_eq_bind, bind_eq_some_iff] at hr
  obtain ⟨c, hc, hr⟩ := hr
  rcases checkPotentialFrom_targets hr hy with hold | ⟨e, -, d, hd, hdact, ⟨rfl, -⟩ | ⟨rfl, -⟩⟩
  · exact .inl hold
  · exact .inr ⟨c, hc, hact c hc⟩
  · exact .inr ⟨d, hd, hdact⟩

end

theorem SlotCore.powerSave (h : SlotCore part rest s) (hok : SlotOk props part env s (.clientPowerSave data))
    (hr : handleClientPowerSave env s data = some s') : SlotCore part rest s' := by
  obtain ⟨-, rfl⟩ | ⟨p, r, hp, hflt, rfl⟩ := handleClientPowerSave_cases hr
  · exact h
  obtain ⟨c, hc⟩ := NodeMap.node_of_find hp
  have hnil := hok p c hp hc
  simp only [removeFltRules, hc, hnil, removeFltFrom, bind_eq_bind, bind_some] at hflt
  cases hflt
  refine h.modify ?_ (fun _ => rfl) fun _ _ _ => rfl
  rw [targetsOf_of_node hc, hnil]
  rfl

section

variable (henv : env.toLanOps = (lan2LanOps props).through part) (h : SlotCore part rest s)
include henv h

theorem SlotCore.powerRecover (hsym : PeerSym (peersOf s.clientInfo))
    (hok : SlotOk props part env s (.clientPowerRecover data))
    (hr : handleClientPowerRecover env s data = some r) : SlotCore part rest r.1 := by
  obtain ⟨-, hr⟩ | ⟨p, c, hp, hc, ⟨-, hr⟩ | ⟨hact, hps, _, h1, h'⟩⟩ := handleClientPowerRecover_cases hr
  · rwa [hr]
  · rwa [hr]
  -- without links there is no filter to add
  have hnil := h.active.nil p c hc hact
  have hlink : c.link = [] := by
    rw [targetsOf_of_node hc] at hnil
    exact map_eq_nil_iff.mp hnil
  simp only [addFltRules, hc, hlink, length_nil, range_zero, addFltFrom, bind_eq_bind, bind_some] at h1
  cases h1
  obtain ⟨hfalse, -⟩ | ⟨-, h2⟩ := h'
  · cases hfalse
  have hcore : SlotCore part rest (s.modify p ClientInfo.setRecovered) :=
    h.modify hnil (fun _ => rfl) fun _ _ hfalse => absurd (show false = true from hfalse) (by simp)
  refine hcore.checkPotential henv (hsym.modify fun _ => rfl) (fun c' hc' => ?_) ?_ ?_ h2
  · rw [LanState.modify, NodeMap.node_modify_self] at hc'
    obtain ⟨_, -, rfl⟩ := map_eq_some_iff.mp hc'
    rfl
  · rw [targetsOf_modify p ClientInfo.setRecovered fun _ => rfl]
    exact hnil
  have hpeers : peersOf (s.modify p ClientInfo.setRecovered).clientInfo p = c.peer := by
    simp [peersOf, LanState.modify, ClientInfo.setRecovered, hc]
  rw [hpeers]
  exact hok p c hp hc hact hps

theorem SlotCore.newConnection (hf : LinkFull s.clientInfo) (hsym : PeerSym (peersOf s.clientInfo))
    (hok : SlotOk props part env s (.newConnection conn))
    (hr : handleNewLan2LanConnection env s conn = some s') : SlotCore part rest s' := by
  obtain ⟨rfl, -⟩ | ⟨p, q, c', d', r, hp, hq, hadd, hc', hd', h'⟩ :=
    handleNewLan2LanConnection_cases hr
  · exact h
  have hframe := addConnection_frame hadd
  have hcore := h.peerFrame hframe
  obtain ⟨-, rfl⟩ | ⟨hfirst, hact, hact', r1, h1, h'⟩ := h'
  · exact hcore
  obtain ⟨c, hc, hceq⟩ := hframe.node_some' hc'
  obtain ⟨d, hd, hdeq⟩ := hframe.node_some' hd'
  have hcact := congrArg ClientInfo.isActive hceq
  have hdact := congrArg ClientInfo.isActive hdeq
  have hci := congrArg ClientInfo.pIface hceq
  have hdi := congrArg ClientInfo.pIface hdeq
  change c.pIface = c'.pIface at hci
  change d.pIface = d'.pIface at hdi
  have hzero := hsym.first_of_add hadd hfirst
  -- two clients that were no peers are not linked
  have hno : q ∉ targetsOf r.1.clientInfo p := by
    rw [hframe.sameLinks.1]
    intro hmem
    have hpos := hf.peers p q hmem
    rw [hzero] at hpos
    exact nomatch hpos
  have hnew : ∀ e ∈ c.peer, e.peerPointer ≠ q := by
    have hlist := hsym.list p
    rw [peersOf_of_node hc] at hzero hlist
    exact hlist.not_mem_of_zero hzero
  have hnum : r.1.numOffloadPair = s.numOffloadPair := hframe.count
  have hff : fltRoom part r.1 = fltRoom part s := by
    rw [fltRoom, fltRoom, hframe.ifaces]
  have hhf : hdrRoom part r.1 = hdrRoom part s := by
    rw [hdrRoom, hdrRoom, hframe.ifaces]
  by_cases hroom : s.numOffloadPair < maxOffloadPair
  · have hfits := hok p q c d hp hq hc hd hnew (hcact.trans hact) (hdact.trans hact') hroom
    rw [← hff, ← hhf, hci, hdi] at hfits
    rw [henv] at h1 h'
    rcases hfits with hblk | ⟨hne, hfit⟩
    · obtain ⟨hfalse, hl, -, -⟩ := hcore.links.add_blocked hc' hd' hblk h1
      obtain ⟨-, rfl⟩ | ⟨htrue, -⟩ := h'
      · obtain ⟨k, hk⟩ := addOffloadLink_false h1 hfalse
        have hsame : SameLinks r.1 r1.1 := by
          rw [hk]
          exact ⟨rfl, rfl⟩
        refine hcore.less (addOffloadLink_frame h1) (fun x => ?_) (hcore.sound.same hsame) hl
        rw [hsame.1]
      · rw [hfalse] at htrue
        exact nomatch htrue
    obtain ⟨hfalse, rfl⟩ | ⟨htrue, _, h2, rfl⟩ := h'
    · have hroom' : r.1.numOffloadPair < maxOffloadPair := hnum ▸ hroom
      rw [(hcore.links.add_fits hc' hd' hno hroom' hfit.first h1).1] at hfalse
      exact nomatch hfalse
    obtain ⟨-, htrue', hl, -, -⟩ := hcore.links.addPair hcore.sound hc' hd' hne hno
      (hnum ▸ hroom) hfit h1 h2
    obtain ⟨hs, -, htargets⟩ := hcore.sound.addPair h1 htrue h2 htrue' hne hno
    rw [htrue', if_pos rfl]
    refine hcore.more ?_ (fun x y hy => ?_) hs ⟨hl.nodup, hl.owned, hl.rest⟩
    · exact ((addOffloadLink_frame h1).trans (addOffloadLink_frame h2)).trans
        (LinkFrame.withCount _ _)
    rcases (htargets x y).mp hy with hold | ⟨rfl, -⟩ | ⟨rfl, -⟩
    · exact .inl hold
    · exact .inr ⟨c', hc', hact⟩
    · exact .inr ⟨d', hd', hact'⟩
  have hfull : ¬ r.1.numOffloadPair < maxOffloadPair := hnum ▸ hroom
  obtain rfl := addOffloadLink_full h1 hfull
  obtain ⟨-, rfl⟩ | ⟨htrue, -⟩ := h'
  · exact hcore
  · exact nomatch htrue

end

variable [DecidableEq K]

section

variable (henv : env.toLanOps = (lan2LanOps props).through part) (h : SlotCore part rest s)
include henv h

theorem SlotCore.inactive (hr : handleClientInactive env s data = some s') : SlotCore part rest s' := by
  obtain ⟨-, rfl⟩ | ⟨p, c, r, hp, hoff, -, rfl⟩ := handleClientInactive_cases hr
  · exact h
  obtain ⟨-, hcore, hnil⟩ := h.turnoff henv hoff
  have hcore' : SlotCore part rest (r.1.modify p ClientInfo.setInactive) :=
    hcore.modify hnil (fun _ => rfl) fun _ _ _ => rfl
  split
  · refine hcore'.erase ((turnoffOffloadLinks_frame hoff).find ▸ hp) ?_
    rw [targetsOf_modify p ClientInfo.setInactive fun _ => rfl]
    exact hnil
  · exact hcore'

theorem SlotCore.disconnect (hr : handleClientDisconnect env s data = some s') : SlotCore part rest s' := by
  obtain ⟨-, rfl⟩ | ⟨p, _, _, hp, hoff, hclear, rfl⟩ := handleClientDisconnect_cases hr
  · exact h
  have hframe := clearPeerList_frame hclear
  obtain ⟨-, hcore, hnil⟩ := h.turnoff henv hoff
  refine (hcore.peerFrame hframe).erase (p := p) ?_ ?_
  · rw [hframe.find, (turnoffOffloadLinks_frame hoff).find, hp]
  · rw [hframe.sameLinks.1, hnil]

end

theorem SlotCore.eraseIfIdle (h : SlotCore part rest s) {k : K}
    (hk : s.clientInfo.find k = some p) (hr : Ipacm.eraseIfIdle s k p = some s') : SlotCore part rest s' := by
  obtain ⟨c, hc, ⟨hact, -, -, rfl⟩ | ⟨-, rfl⟩⟩ := eraseIfIdle_cases hr
  · exact h.erase hk (h.active.nil p c hc hact)
  · exact h

theorem SlotCore.delConnection (henv : env.toLanOps = (lan2LanOps props).through part)
    (h : SlotCore part rest s) (hr : handleDelLan2LanConnection env s conn = some s') : SlotCore part rest s' := by
  obtain ⟨rfl, -⟩ | ⟨p, q, r, hp, hq, hrem, h'⟩ := handleDelLan2LanConnection_cases hr
  · exact h
  have hframe := removeConnection_frame hrem
  have hcore := h.peerFrame hframe
  obtain ⟨-, rfl⟩ | ⟨-, s1, _, h1, h2, h3⟩ := h'
  · exact hcore
  have hframe1 := eraseLinks_frame h1
  have hsub := eraseLinks_sublist h1
  obtain ⟨c, d, hc, hd, -⟩ := eraseLinks_cases h1
  obtain ⟨hs1, -, -⟩ := hcore.sound.eraseLinks hc hd (fun _ hmem =>
    (h.delsOk henv).erase p q r hrem hmem) h1
  have hcore1 := hcore.less hframe1 hsub hs1 (hcore.links.eraseLinks henv h1)
  have hp1 : s1.clientInfo.find (env.key conn.src) = some p := by
    rw [hframe1.find, hframe.find, hp]
  have hq1 : s1.clientInfo.find (env.key conn.dst) = some q := by
    rw [hframe1.find, hframe.find, hq]
  exact (hcore1.eraseIfIdle hp1 h2).eraseIfIdle (eraseIfIdle_twice hp1 hq1 h2 h3).1 h3

variable [DecidableEq A]

omit [DecidableEq K] in
theorem SlotCore.announce (h : SlotCore part rest s)
    (hr : Ipacm.announce env s p = some r) : SlotCore part rest r.1 := by
  obtain ⟨_, hconns⟩ := announce_frame hr
  rw [hconns]
  exact ⟨⟨h.sound.graph, h.sound.le_max⟩, h.active, ⟨h.links.nodup, h.links.owned, h.links.rest⟩⟩

section

variable (henv : env.toLanOps = (lan2LanOps props).through part) (h : SlotCore part rest s)
include henv h

theorem SlotCore.activate (hsym : PeerSym (peersOf s.clientInfo)) (hok : SlotOk props part env s (.clientActive data))
    (hr : handleClientActive env s data = some r) : SlotCore part rest r.1 := by
  obtain ⟨hnone, hr⟩ | ⟨p, c, hp, hc, h'⟩ := handleClientActive_cases hr
  · exact (h.insert hnone).announce hr
  obtain ⟨-, -, rfl⟩ | ⟨-, -, _, _, h1, h2, hr⟩ | ⟨hact, _, h1, hr⟩ := h'
  · exact h
  · -- the client lost its links before it is filled in again
    obtain ⟨-, hcore, hnil⟩ := h.turnoff henv h1
    have hframe := clearPeerList_frame h2
    refine ((hcore.peerFrame hframe).modify (p := p) (f := ClientInfo.fill data) ?_ (fun _ => rfl)
      fun _ _ hfalse => absurd (show false = true from hfalse) (by simp)).announce hr
    rw [hframe.sameLinks.1, hnil]
  have hnil := h.active.nil p c hc hact
  have hcore : SlotCore part rest (s.modify p (ClientInfo.fill data)) :=
    h.modify hnil (fun _ => rfl) fun _ _ hfalse => absurd (show false = true from hfalse) (by simp)
  refine (hcore.checkPotential henv (hsym.modify fun _ => rfl) (fun c' hc' => ?_) ?_ ?_ h1).announce hr
  · rw [LanState.modify, NodeMap.node_modify_self] at hc'
    obtain ⟨_, -, rfl⟩ := map_eq_some_iff.mp hc'
    rfl
  · rw [targetsOf_modify p (ClientInfo.fill data) fun _ => rfl]
    exact hnil
  have hpeers : peersOf (s.modify p (ClientInfo.fill data)).clientInfo p = c.peer := by
    simp [peersOf, LanState.modify, ClientInfo.fill, hc]
  rw [hpeers]
  exact hok p c hp hc hact

theorem SlotCore.eventCallback (hf : LinkFull s.clientInfo) (hsym : PeerSym (peersOf s.clientInfo))
    {ev : LanEvent A} (hok : SlotOk props part env s ev)
    (hr : Ipacm.eventCallback env s ev = some r) : SlotCore part rest r.1 := by
  cases ev with
  | clientActive => exact h.activate henv hsym hok hr
  | clientInactive =>
    obtain ⟨s', hs', rfl⟩ := map_eq_some_iff.mp hr
    exact h.inactive henv hs'
  | clientDisconnect =>
    obtain ⟨s', hs', rfl⟩ := map_eq_some_iff.mp hr
    exact h.disconnect henv hs'
  | clientPowerSave =>
    obtain ⟨s', hs', rfl⟩ := map_eq_some_iff.mp hr
    exact h.powerSave hok hs'
  | clientPowerRecover => exact h.powerRecover henv hsym hok hr
  | newConnection =>
    obtain ⟨s', hs', rfl⟩ := map_eq_some_iff.mp hr
    exact h.newConnection henv hf hsym hok hs'
  | delConnection =>
    obtain ⟨_, hs', rfl⟩ := map_eq_some_iff.mp hr
    exact h.delConnection henv hs'

end

end

/-! ### Runs -/

/-- The interfaces, for both IP types. -/
abbrev BothIfaces := LanIfaces UInt32 × LanIfaces Ipv6Addr

def part4 {σ τ : Type} : PartOf (σ × τ) σ τ where
  get := Prod.fst
  set k x := (x, k.2)
  rest := Prod.snd
  get_set := fun _ _ => rfl
  rest_set := fun _ _ => rfl

def part6 {σ τ : Type} : PartOf (σ × τ) τ σ where
  get := Prod.snd
  set k x := (k.1, x)
  rest := Prod.fst
  get_set := fun _ _ => rfl
  rest_set := fun _ _ => rfl

/-- Both IP types over the interfaces. -/
def poolConfig (props4 props6 : IfaceProps) (ifCat : ℕ → ℕ) (ctOpt : Bool)
    (subnets : List (UInt32 × UInt32)) : LanConfig BothIfaces :=
  ⟨(lan2LanOps props4).through part4, (lan2LanOps props6).through part6, ifCat, ctOpt, subnets⟩

/-- An interface with its dummy rules, before any link: the handles of the rules are
different. -/
structure LanPool.Fresh (p : LanPool A) : Prop where
  nodup : (p.fltRule.map Slot.hdl).Nodup
  length : p.fltRule.length = 3
  free : ∀ sl ∈ p.fltRule, sl.valid = false
  num : p.numFltRule = 0
  hdrLength : p.hdr.length = 3
  hdrFree : ∀ sl ∈ p.hdr, sl.valid = false

/-- The states of the runs from fresh interfaces whose events satisfy `ok`.  Between
two events the slots stay as they are, but the kernel may be called by others. -/
inductive PoolReach (cfg : LanConfig BothIfaces) (ok : LanToLan BothIfaces → IpEvent → Prop) :
    LanToLan BothIfaces → Prop
  | start (k : BothIfaces) : (∀ i, (k.1.pool i).Fresh) → (∀ i, (k.2.pool i).Fresh) →
      PoolReach cfg ok (LanToLan.init k)
  | step {s s' : LanToLan BothIfaces} (ev : IpEvent) (k : BothIfaces) : PoolReach cfg ok s →
      k.1.pool = s.ifaces.1.pool → k.2.pool = s.ifaces.2.pool → ok { s with ifaces := k } ev →
      LanToLan.step cfg { s with ifaces := k } ev = some s' → PoolReach cfg ok s'

/-- An event of one of the IP types keeps the slots and the links together. -/
def IpSlotOk (props4 props6 : IfaceProps) (cfg : LanConfig BothIfaces) (s : LanToLan BothIfaces) :
    IpEvent → Prop
  | .v4 ev => SlotOk props4 part4 cfg.env4 s.state4 ev
  | .v6 ev => SlotOk props6 part6 cfg.env6 s.state6 ev

/-- A link at position `x.2` of the client at `x.1`, which is not in power save and
on interface `i`, holds a filter handle. -/
def HeldBy (m : NodeMap K (ClientInfo A)) (i : ℕ) (h : UInt32) (x : ℕ × ℕ) : Prop :=
  ∃ c l, m.node x.1 = some c ∧ c.isPowersave = false ∧ c.pIface = i ∧ c.link[x.2]? = some l ∧
    l.fltRuleHdl = h

/-- In each interface, a filter slot is in use exactly if one and only one link of a
client that is not in power save holds its handle, the slots in use are counted,
and behind the handle of each link there is the rule for its two ends. -/
structure SlotsOwned (m : NodeMap K (ClientInfo A)) (pool : ℕ → LanPool A) : Prop where
  valid : ∀ i, ∀ sl ∈ (pool i).fltRule, sl.valid = true ↔ ∃! x, HeldBy m i sl.hdl x
  count : ∀ i, (pool i).numFltRule.toNat = (pool i).fltRule.countP Slot.valid
  rule : ∀ p c l d, m.node p = some c → l ∈ c.link → m.node l.peerPointer = some d →
    (pool c.pIface).rule l.fltRuleHdl = some (c.ip, d.ip)

section

variable {part : PartOf κ (LanIfaces A) ρ} {rest : ρ} {s : LanState A K κ}

theorem SlotCore.heldBy_iff (h : SlotCore part rest s) {i : ℕ} {f : UInt32} {x : ℕ × ℕ} :
    HeldBy s.clientInfo i f x ↔ ∃ l, (linksOf s.clientInfo x.1)[x.2]? = some l ∧
      fltHeld (endOf s.clientInfo) (linkFor (linksOf s.clientInfo)) i (x.1, l.peerPointer) =
        some f := by
  constructor
  · rintro ⟨c, l, hc, -, rfl, hl, rfl⟩
    rw [← linksOf_of_node hc] at hl
    refine ⟨l, hl, fltHeld_of_link (x := (x.1, l.peerPointer)) (endOf_of_node hc) ?_⟩
    refine linkFor_of_mem ?_ (mem_of_getElem? hl)
    rw [map_linksOf]
    exact h.links.nodup x.1
  rintro ⟨l, hl, hheld⟩
  have hmem := mem_of_getElem? hl
  cases hc : s.clientInfo.node x.1 with
  | none => simp [linksOf, hc] at hl
  | some c =>
    have hF : linkFor (linksOf s.clientInfo) (x.1, l.peerPointer) = some l := by
      refine linkFor_of_mem ?_ hmem
      rw [map_linksOf]
      exact h.links.nodup x.1
    simp only [fltHeld, endOf_of_node hc, hF, map_some, some.injEq] at hheld
    split at hheld
    · rename_i hi
      rw [linksOf_of_node hc] at hl hmem
      refine ⟨c, l, hc, ?_, hi, hl, some.inj hheld⟩
      -- a client with a link is active
      cases hps : c.isPowersave with
      | false => rfl
      | true =>
        have hnil := h.active.nil x.1 c hc (h.active.saved x.1 c hc hps)
        rw [targetsOf_of_node hc, map_eq_nil_iff] at hnil
        rw [hnil] at hmem
        cases hmem
    · cases hheld

theorem SlotCore.slotsOwned (h : SlotCore part rest s) : SlotsOwned s.clientInfo (part.get s.ifaces).pool where
  valid := fun i sl hsl => by
    have howns := h.links.owned.flt.owns i
    constructor
    · intro hv
      obtain ⟨y, hy⟩ := howns.onto sl.hdl ⟨sl, hsl, hv, rfl⟩
      -- the link that holds the handle, and where it stands
      obtain ⟨l, hl⟩ : ∃ l, linkFor (linksOf s.clientInfo) y = some l := by
        unfold fltHeld at hy
        split at hy
        · obtain ⟨l, hl, -⟩ := map_eq_some_iff.mp hy
          exact ⟨l, hl⟩
        · exact nomatch hy
      obtain ⟨hmem, hpeer⟩ := mem_of_linkFor hl
      obtain ⟨j, hj⟩ := getElem?_of_mem hmem
      refine ⟨(y.1, j), h.heldBy_iff.mpr ⟨l, hj, by rw [hpeer]; exact hy⟩, ?_⟩
      rintro ⟨p, j'⟩ hx
      obtain ⟨l', hj', hheld⟩ := h.heldBy_iff.mp hx
      dsimp only at hj' hheld
      have heq := howns.inj _ _ _ hheld hy
      obtain rfl : p = y.1 := congrArg Prod.fst heq
      have hpeer' : l'.peerPointer = l.peerPointer := (congrArg Prod.snd heq).trans hpeer.symm
      -- no two links have the same target
      have hnd := h.links.nodup y.1
      rw [← map_linksOf] at hnd
      have hlt : j' < (linksOf s.clientInfo y.1).length := (List.getElem?_eq_some_iff.mp hj').1
      have hpos : j' = j := by
        refine (getElem?_inj (by rwa [length_map]) hnd).mp ?_
        rw [getElem?_map, getElem?_map, hj, hj', map_some, map_some, hpeer']
      rw [hpos]
    rintro ⟨x, hx, -⟩
    obtain ⟨l, -, hheld⟩ := h.heldBy_iff.mp hx
    obtain ⟨_, hsl', _, heq⟩ := howns.used _ _ hheld
    rwa [inj_on_of_nodup_map (h.links.owned.flt.nodup i) hsl hsl' heq.symm]
  count := fun i => by
    have hnum := h.links.owned.flt.num i
    have hlen := h.links.owned.flt.length i
    have hsplit := length_eq_countP_add_countP Slot.valid (l := ((part.get s.ifaces).pool i).fltRule)
    simp only [Slot.free] at hnum
    simp only [Bool.not_eq_true] at hsplit
    have hfree : ((part.get s.ifaces).pool i).fltRule.countP (fun sl => decide (sl.valid = false)) =
        ((part.get s.ifaces).pool i).fltRule.countP fun sl => !sl.valid := by
      refine countP_congr fun sl _ => ?_
      simp
    omega
  rule := fun p c l d hc hl hd => by
    refine h.links.owned.flt.rule (p, l.peerPointer) l c.pIface d.pIface c.ip d.ip ?_
      (endOf_of_node hc) (endOf_of_node hd)
    refine linkFor_of_mem ?_ ?_
    · rw [map_linksOf]
      exact h.links.nodup p
    · rwa [linksOf_of_node hc]

end

section

variable {part : PartOf κ (LanIfaces A) ρ} {s : LanState A K κ}

theorem LanPool.Fresh.countP {p : LanPool A} (h : p.Fresh) : Slot.free p.fltRule = 3 := by
  rw [Slot.free, countP_eq_length.mpr fun sl hsl => by simp [h.free sl hsl], h.length]

theorem SlotCore.init (part : PartOf κ (LanIfaces A) ρ) {k : κ} (h : ∀ i, ((part.get k).pool i).Fresh) :
    SlotCore part (part.rest k) (⟨LanTable.init, k⟩ : LanState A K κ) where
  sound := LinkSound.init
  active := ⟨fun _ _ hc _ => absurd hc.symm (some_ne_none _), fun _ _ hc _ =>
    absurd hc.symm (some_ne_none _)⟩
  links := by
    have hflt : ∀ i f, ¬ Slot.Valid ((part.get k).pool i).fltRule f := by
      rintro i f ⟨sl, hsl, hv, -⟩
      rw [(h i).free sl hsl] at hv
      exact nomatch hv
    have hnone : ∀ x, linkFor (linksOf (LanTable.init : LanTable A K).clientInfo) x = none :=
      fun _ => rfl
    have hheld : ∀ i x, fltHeld (endOf (LanTable.init : LanTable A K).clientInfo)
        (linkFor (linksOf (LanTable.init : LanTable A K).clientInfo)) i x = none := by
      intro i x
      simp [fltHeld, hnone]
    have hhdr : ∀ i x, hdrHeld (endOf (LanTable.init : LanTable A K).clientInfo)
        (linkFor (linksOf (LanTable.init : LanTable A K).clientInfo)) i x = none := by
      intro i x
      simp [hdrHeld, hnone]
    refine ⟨fun _ => nodup_nil, ⟨⟨fun i => (h i).nodup, fun i => (h i).length, fun i => ?_,
      fun i => ⟨⟨fun x f hx => ?_, fun x y f hx => ?_⟩, fun f hv => absurd hv (hflt i f)⟩,
      fun x l i j a b hx => absurd hx (by simp [hnone])⟩, ⟨fun i => ?_, fun i => (h i).hdrLength,
      fun i => ⟨fun x g hx => ?_, fun x y g hx => ?_⟩⟩, fun x l hx => absurd hx (by simp [hnone])⟩, rfl⟩
    · rw [(h i).num, (h i).countP]
      rfl
    · exact absurd ((hheld i x).symm.trans hx) (by simp)
    · exact absurd ((hheld i x).symm.trans hx) (by simp)
    · refine pairwise_of_forall_mem_list fun sl _ sl' hsl' hv => ?_
      rw [(h i).hdrFree sl' hsl'] at hv
      exact nomatch hv
    · exact absurd ((hhdr i x).symm.trans hx) (by simp)
    · exact absurd ((hhdr i x).symm.trans hx) (by simp)

theorem SlotCore.swap (h : SlotCore part (part.rest s.ifaces) s) {k : κ}
    (hk : (part.get k).pool = (part.get s.ifaces).pool) : SlotCore part (part.rest k) (s.withIfaces k) where
  sound := h.sound
  active := h.active
  links := ⟨h.links.nodup, by
    show PoolOwned _ _ (part.get k).pool
    rw [hk]
    exact h.links.owned, rfl⟩

end

section

variable {props4 props6 : IfaceProps} {ifCat : ℕ → ℕ} {ctOpt : Bool}
  {subnets : List (UInt32 × UInt32)} {s : LanToLan BothIfaces}
  {ok : LanToLan BothIfaces → IpEvent → Prop}

theorem PoolReach.lanReach {cfg : LanConfig BothIfaces} (h : PoolReach cfg ok s) :
    LanReach cfg (fun _ _ => True) ok s := by
  induction h with
  | start k => exact .start k
  | step ev k _ _ _ hev hs ih => exact ih.step ev k trivial hev hs

section

variable
    (h : PoolReach (poolConfig props4 props6 ifCat ctOpt subnets) (IpSlotOk props4 props6 (poolConfig props4 props6 ifCat ctOpt subnets)) s)
include h

theorem PoolReach.slotCore :
    (SlotCore part4 s.ifaces.2 s.state4 ∧ LinkFull s.v4.clientInfo) ∧
      SlotCore part6 s.ifaces.1 s.state6 ∧ LinkFull s.v6.clientInfo := by
  induction h with
  | start _ h4 h6 =>
    exact ⟨⟨SlotCore.init part4 h4, LinkFull.init⟩, SlotCore.init part6 h6, LinkFull.init⟩
  | @step s _ ev k hreach hk4 hk6 hev hs ih =>
    obtain ⟨⟨hc4, hf4⟩, hc6, hf6⟩ := ih
    obtain ⟨p4, p6⟩ := hreach.lanReach.peerSym
    have hc4' := SlotCore.swap (s := s.state4) (k := k) hc4 hk4
    have hc6' := SlotCore.swap (s := s.state6) (k := k) hc6 hk6
    cases ev with
    | v4 =>
      obtain ⟨r, hr, rfl⟩ := map_eq_some_iff.mp hs
      have henv : (poolConfig props4 props6 ifCat ctOpt subnets).env4.toLanOps =
          (lan2LanOps props4).through part4 := rfl
      have hcore := SlotCore.eventCallback henv hc4' hf4 p4 hev hr
      have hfull := LinkFull.eventCallback (hc4'.delsOk henv) hc4'.sound p4 hf4 hr
      -- the slots of the other IP type are as before
      have hrest : r.1.ifaces.2 = k.2 := hcore.links.rest
      have hother := SlotCore.swap (s := s.state6.withIfaces k) (k := r.1.ifaces) hc6'
        (congrArg LanIfaces.pool hrest)
      have hthis : SlotCore part4 r.1.ifaces.2 r.1 := by
        rw [hrest]
        exact hcore
      exact ⟨⟨hthis, hfull⟩, hother, hf6⟩
    | v6 =>
      obtain ⟨r, hr, rfl⟩ := map_eq_some_iff.mp hs
      have henv : (poolConfig props4 props6 ifCat ctOpt subnets).env6.toLanOps =
          (lan2LanOps props6).through part6 := rfl
      have hcore := SlotCore.eventCallback henv hc6' hf6 p6 hev hr
      have hfull := LinkFull.eventCallback (hc6'.delsOk henv) hc6'.sound p6 hf6 hr
      have hrest : r.1.ifaces.1 = k.1 := hcore.links.rest
      have hother := SlotCore.swap (s := s.state4.withIfaces k) (k := r.1.ifaces) hc4'
        (congrArg LanIfaces.pool hrest)
      have hthis : SlotCore part6 r.1.ifaces.1 r.1 := by
        rw [hrest]
        exact hcore
      exact ⟨⟨hother, hf4⟩, hthis, hfull⟩

/-- **In each interface the filter slots in use are those of the links**, each held
once, counted, and with the rule of its link, in every state of the runs whose
events all keep slots and links together. -/
theorem lanToLan_slotsOwned :
    SlotsOwned s.v4.clientInfo s.ifaces.1.pool ∧ SlotsOwned s.v6.clientInfo s.ifaces.2.pool := by
  obtain ⟨⟨h4, -⟩, h6, -⟩ := h.slotCore
  exact ⟨h4.slotsOwned, h6.slotsOwned⟩

end

end

/-! ### Sample interfaces -/

/-- The first handle that is not in use. -/
def sampleHdl (used : List UInt32) : UInt32 :=
  ([1, 2, 3, 4].find? fun h => h ∉ used).getD 0

theorem sampleHdl_fresh {used : List UInt32} (h : used.length ≤ 3) : sampleHdl used ∉ used ∧ sampleHdl used ≠ 0 := by
  unfold sampleHdl
  cases hf : [1, 2, 3, 4].find? fun h : UInt32 => decide (h ∉ used) with
  | none =>
    -- four handles do not fit into three places
    have hsub : ([1, 2, 3, 4] : List UInt32) ⊆ used := by
      intro x hx
      have hno := find?_eq_none.mp hf x hx
      simpa using hno
    have hnd : ([1, 2, 3, 4] : List UInt32).Nodup := by decide
    have hle := (hnd.subperm hsub).length_le
    exact nomatch hle.trans h
  | some g =>
    have hmem := mem_of_find?_eq_some hf
    refine ⟨by simpa using find?_some hf, fun heq => ?_⟩
    obtain rfl : g = 0 := heq
    exact nomatch hmem

def samplePool : LanPool A :=
  ⟨[⟨1, false⟩, ⟨2, false⟩, ⟨3, false⟩], 0, [⟨0, false⟩, ⟨0, false⟩, ⟨0, false⟩], fun _ => none⟩

def sampleIfaces : LanIfaces A :=
  ⟨fun _ => samplePool, ⟨0, fun _ used => sampleHdl used, fun _ _ h => sampleHdl_fresh h⟩⟩

/-- Every interface can receive, and has one property for sending. -/
def sampleProps : IfaceProps :=
  ⟨fun _ => true, fun _ => some 1, fun _ n h => by
    rw [← some.inj h]
    decide⟩

theorem samplePool_fresh : (samplePool : LanPool A).Fresh where
  nodup := by
    show ([1, 2, 3] : List UInt32).Nodup
    decide
  length := rfl
  free := by simp [samplePool]
  num := rfl
  hdrLength := rfl
  hdrFree := by simp [samplePool]

theorem PoolReach.run {cfg : LanConfig BothIfaces} {evs : List IpEvent} {s s' : LanToLan BothIfaces}
    (h : PoolReach cfg (fun _ _ => True) s) (hrun : LanToLan.runEvents cfg evs s = some s') :
    PoolReach cfg (fun _ _ => True) s' := by
  induction evs generalizing s with
  | nil =>
    cases hrun
    exact h
  | cons ev _ ih =>
    obtain ⟨_, h1, hrun⟩ := bind_eq_some_iff.mp hrun
    exact ih (h.step ev s.ifaces rfl rfl trivial h1) hrun

/-- Two clients on two interfaces, with a connection. -/
def sampleLinked : List IpEvent :=
  [.v4 (.clientActive ⟨1, 1, 1⟩), .v4 (.clientActive ⟨2, 2, 2⟩), .v4 (.newConnection ⟨1, 2⟩)]

theorem lanToLan_slotsOwned_sample :
    ∃ s : LanToLan BothIfaces, PoolReach (poolConfig sampleProps sampleProps id false [])
        (IpSlotOk sampleProps sampleProps (poolConfig sampleProps sampleProps id false [])) s ∧
      linksOf s.v4.clientInfo 0 = [⟨1, 1, [1], 1⟩] ∧ (s.ifaces.1.pool 1).numFltRule = 1 ∧
      SlotsOwned s.v4.clientInfo s.ifaces.1.pool ∧ SlotsOwned s.v6.clientInfo s.ifaces.2.pool := by
  have h0 : PoolReach (poolConfig sampleProps sampleProps id false [])
      (IpSlotOk sampleProps sampleProps (poolConfig sampleProps sampleProps id false [])) _ :=
    .start (sampleIfaces, sampleIfaces) (fun _ => samplePool_fresh) fun _ => samplePool_fresh
  have h1 := h0.step (.v4 (.clientActive ⟨1, 1, 1⟩)) _ rfl rfl (fun p c hp => absurd hp.symm (some_ne_none p)) rfl
  have h2 := h1.step (.v4 (.clientActive ⟨2, 2, 2⟩)) _ rfl rfl (fun p c hp => absurd hp.symm (some_ne_none p)) rfl
  have h3 := h2.step (.v4 (.newConnection ⟨1, 2⟩)) _ rfl rfl (fun p q c d hp hq hc hd _ _ _ _ => by
    obtain rfl : 0 = p := some.inj hp
    obtain rfl : 1 = q := some.inj hq
    cases hc
    cases hd
    exact .inr ⟨by decide, ⟨rfl, by decide, ⟨0, rfl⟩, by decide⟩, ⟨rfl, by decide, ⟨0, rfl⟩, by decide⟩⟩)
    rfl
  exact ⟨_, h3, rfl, rfl, lanToLan_slotsOwned h3⟩

/-- After power save the slots of a pair are taken by a second one, which loses its
filter when the links of the first pair go. -/
theorem lanToLan_slotTaken :
    ∃ s : LanToLan BothIfaces, PoolReach (poolConfig sampleProps sampleProps id false [])
        (fun _ _ => True) s ∧
      (s.v4.clientInfo.node 2).map (fun c => c.link.map fun l => (l.peerPointer, l.fltRuleHdl)) =
        some [(3, 1)] ∧
      (s.ifaces.1.pool 1).rule 1 = none ∧ ¬ SlotsOwned s.v4.clientInfo s.ifaces.1.pool := by
  have hrun : (LanToLan.runEvents (poolConfig sampleProps sampleProps id false [])
      (sampleLinked ++ [.v4 (.clientPowerSave ⟨1, 1, 1⟩), .v4 (.clientActive ⟨3, 3, 1⟩),
        .v4 (.clientActive ⟨4, 4, 2⟩), .v4 (.newConnection ⟨3, 4⟩), .v4 (.clientInactive ⟨1, 1, 1⟩)])
      (LanToLan.init (sampleIfaces, sampleIfaces))).map (fun s =>
        ((s.v4.clientInfo.node 2).map fun c => (c.pIface, c.link), (s.v4.clientInfo.node 3).isSome,
          (s.ifaces.1.pool 1).rule 1)) =
        some (some (1, [⟨3, 1, [1], 2⟩]), true, none) := by
    decide
  obtain ⟨s, hs, hstate⟩ := map_eq_some_iff.mp hrun
  simp only [Prod.mk.injEq, map_eq_some_iff, isSome_iff_exists] at hstate
  obtain ⟨⟨c, hc, hi, hl⟩, ⟨d, hd⟩, hrule⟩ := hstate
  refine ⟨s, PoolReach.run (.start _ (fun _ => samplePool_fresh) fun _ => samplePool_fresh) hs, ?_,
    hrule, fun howned => ?_⟩
  · rw [hc, map_some, hl]
    rfl
  · have hother := howned.rule 2 c ⟨3, 1, [1], 2⟩ d hc (by simp [hl]) hd
    rw [hi, hrule] at hother
    exact nomatch hother

end G4Common.Ipacm

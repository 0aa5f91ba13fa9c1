/-
What the functions for offload links leave alone.

Everything that adds or removes offload links changes the lists of links, the
counter and the state of the interfaces, and nothing else: the clients stay where
they are, with their flags, their interface and their peers (`LinkFrame`).  The
handlers are taken apart here once, so that later proofs do not unfold them.
-/
import G4Common.Ipacm.LanToLan

namespace G4Common.Ipacm

open Option

variable {A K κ : Type}

/-- A client without its links. -/
def ClientInfo.noLink (c : ClientInfo A) : ClientInfo A := { c with link := [] }

/-- The two states differ in links, counter and interfaces only. -/
structure LinkFrame (s s' : LanState A K κ) : Prop where
  find : s'.clientInfo.find = s.clientInfo.find
  next : s'.clientInfo.next = s.clientInfo.next
  node : ∀ p, (s'.clientInfo.node p).map ClientInfo.noLink =
    (s.clientInfo.node p).map ClientInfo.noLink
  connection : s'.connection = s.connection

namespace LinkFrame

variable {s s' s'' : LanState A K κ} {p : ℕ}

theorem refl (s : LanState A K κ) : LinkFrame s s := ⟨rfl, rfl, fun _ => rfl, rfl⟩

theorem trans (h : LinkFrame s s') (h' : LinkFrame s' s'') : LinkFrame s s'' where
  find := h'.find.trans h.find
  next := h'.next.trans h.next
  node := fun p => (h'.node p).trans (h.node p)
  connection := h'.connection.trans h.connection

theorem withIfaces (s : LanState A K κ) (k : κ) : LinkFrame s (s.withIfaces k) := ⟨rfl, rfl, fun _ => rfl, rfl⟩

theorem withCount (s : LanState A K κ) (n : UInt8) : LinkFrame s (s.withCount n) := ⟨rfl, rfl, fun _ => rfl, rfl⟩

theorem modifyLink (s : LanState A K κ) (p : ℕ) (f : List OffloadLinkInfo → List OffloadLinkInfo) :
    LinkFrame s (s.modifyLink p f) where
  find := rfl
  next := rfl
  node := s.clientInfo.map_node_modify p _ ClientInfo.noLink fun _ => rfl
  connection := rfl

theorem map_node (h : LinkFrame s s') {β : Type} {g : ClientInfo A → β} (hg : ∀ c, g c.noLink = g c) (p : ℕ) :
    (s'.clientInfo.node p).map g = (s.clientInfo.node p).map g := by
  have hfun : g ∘ ClientInfo.noLink = g := funext hg
  have heq := congrArg (Option.map g) (h.node p)
  simpa only [Option.map_map, hfun] using heq

theorem node_some (h : LinkFrame s s') {c : ClientInfo A} (hc : s.clientInfo.node p = some c) :
    ∃ c', s'.clientInfo.node p = some c' ∧ c'.noLink = c.noLink := by
  have heq := h.node p
  rw [hc] at heq
  exact map_eq_some_iff.mp heq

theorem node_some' (h : LinkFrame s s') {c : ClientInfo A} (hc : s'.clientInfo.node p = some c) :
    ∃ c', s.clientInfo.node p = some c' ∧ c'.noLink = c.noLink := by
  have heq := (h.node p).symm
  rw [hc] at heq
  exact map_eq_some_iff.mp heq

theorem modify_both (h : LinkFrame s s') (p : ℕ) {f : ClientInfo A → ClientInfo A}
    (hf : ∀ c, (f c).noLink = f c.noLink) : LinkFrame (s.modify p f) (s'.modify p f) where
  find := h.find
  next := h.next
  node := fun q => by
    show ((s'.clientInfo.modify p f).node q).map _ = ((s.clientInfo.modify p f).node q).map _
    have hcomp : ClientInfo.noLink ∘ f = f ∘ ClientInfo.noLink := funext hf
    rw [NodeMap.node_modify, NodeMap.node_modify]
    split
    · rw [map_map, map_map, hcomp, ← map_map, ← map_map, h.node]
    · exact h.node q
  connection := h.connection

end LinkFrame

section

variable {ops : LanOps A κ} {s s' : LanState A K κ} {a b : ℕ}
variable {r : LanState A K κ × Bool}

theorem addOffloadLink_cases (h : addOffloadLink ops s a b = some r) :
    (s.numOffloadPair ≥ maxOffloadPair ∧ r = (s, false)) ∨
    ¬ s.numOffloadPair ≥ maxOffloadPair ∧ ∃ c q, s.clientInfo.node a = some c ∧
      s.clientInfo.node b = some q ∧
      ((addLinkRules ops s.ifaces c q b).2 = none ∧ r = (s.withIfaces (addLinkRules ops s.ifaces c q b).1, false) ∨
        ∃ l, (addLinkRules ops s.ifaces c q b).2 = some l ∧
          r = ((s.withIfaces (addLinkRules ops s.ifaces c q b).1).modifyLink a (· ++ [l]), true)) := by
  unfold addOffloadLink at h
  split at h
  · rename_i hfull
    exact .inl ⟨hfull, (some.inj h).symm⟩
  rename_i hroom
  simp only [bind_eq_bind, bind_eq_some_iff] at h
  obtain ⟨c, hc, q, hq, h⟩ := h
  refine .inr ⟨hroom, c, q, hc, hq, ?_⟩
  split at h
  · rename_i hnone
    exact .inl ⟨hnone, (some.inj h).symm⟩
  · rename_i l hl
    exact .inr ⟨l, hl, (some.inj h).symm⟩

theorem addOffloadLink_frame (h : addOffloadLink ops s a b = some r) : LinkFrame s r.1 := by
  obtain ⟨-, rfl⟩ | ⟨-, c, q, -, -, ⟨-, rfl⟩ | ⟨l, -, rfl⟩⟩ := addOffloadLink_cases h
  · exact LinkFrame.refl s
  · exact LinkFrame.withIfaces s _
  · dsimp only
    exact (LinkFrame.withIfaces s _).trans (LinkFrame.modifyLink _ a _)

theorem checkPotentialFrom_cons {e : PeerInfo} {rest : List PeerInfo}
    (h : checkPotentialFrom ops a (e :: rest) s = some s') :
    ∃ q, s.clientInfo.node e.peerPointer = some q ∧
      ((q.isActive ∧ e.numConnection > 0 ∧ ∃ r r',
          addOffloadLink ops s a e.peerPointer = some r ∧
          addOffloadLink ops r.1 e.peerPointer a = some r' ∧
          checkPotentialFrom ops a rest (if r'.2 then
            r'.1.withCount (r'.1.numOffloadPair + 1) else r'.1) = some s') ∨
        (¬ (q.isActive ∧ e.numConnection > 0) ∧
          checkPotentialFrom ops a rest s = some s')) := by
  simp only [checkPotentialFrom, bind_eq_bind, bind_eq_some_iff] at h
  obtain ⟨q, hq, h⟩ := h
  refine ⟨q, hq, ?_⟩
  split_ifs at h with hact
  · simp only [bind_eq_some_iff] at h
    obtain ⟨r, hr, r', hr', h⟩ := h
    exact .inl ⟨hact.1, hact.2, r, r', hr, hr', h⟩
  · exact .inr ⟨hact, h⟩

theorem checkPotentialFrom_frame {peers : List PeerInfo}
    (h : checkPotentialFrom ops a peers s = some s') : LinkFrame s s' := by
  induction peers generalizing s with
  | nil =>
    obtain rfl := some.inj h
    exact LinkFrame.refl s
  | cons _ _ ih =>
    obtain ⟨q, -, ⟨-, -, r, _, hr, hr', h⟩ | ⟨-, h⟩⟩ := checkPotentialFrom_cons h
    · have hpair := (addOffloadLink_frame hr).trans (addOffloadLink_frame hr')
      split at h
      · exact (hpair.trans (LinkFrame.withCount _ _)).trans (ih h)
      · exact hpair.trans (ih h)
    · exact ih h

theorem checkPotentialLink_frame (h : checkPotentialLink ops s a = some s') : LinkFrame s s' := by
  simp only [checkPotentialLink, bind_eq_bind, bind_eq_some_iff] at h
  obtain ⟨c, -, h⟩ := h
  exact checkPotentialFrom_frame h

theorem turnoffFrom_cons {l : OffloadLinkInfo} {rest : List OffloadLinkInfo} (h : turnoffFrom ops a (l :: rest) s = some r) :
    ∃ c q, s.clientInfo.node a = some c ∧ s.clientInfo.node l.peerPointer = some q ∧
      ((r.2 = false ∧ ((delOffloadLink ops s.ifaces c.pIface q.pIface l).2 = false ∨
            (∀ l' ∈ q.link, l'.peerPointer ≠ a) ∨
            ∃ l' ∈ q.link, l'.peerPointer = a ∧ (delOffloadLink ops
              (delOffloadLink ops s.ifaces c.pIface q.pIface l).1 q.pIface c.pIface l').2 = false) ∧
          ∃ k, r.1 = s.withIfaces k) ∨
        ∃ l', q.link.find? (fun l' => l'.peerPointer = a) = some l' ∧ l.peerPointer ≠ a ∧
          (delOffloadLink ops s.ifaces c.pIface q.pIface l).2 ∧
          (delOffloadLink ops (delOffloadLink ops s.ifaces c.pIface q.pIface l).1
            q.pIface c.pIface l').2 ∧
          turnoffFrom ops a rest (((s.withIfaces (delOffloadLink ops
              (delOffloadLink ops s.ifaces c.pIface q.pIface l).1 q.pIface c.pIface l').1).modifyLink
                l.peerPointer (List.eraseP fun l' => l'.peerPointer = a)).withCount
                  (s.numOffloadPair - 1)) = some r) := by
  simp only [turnoffFrom, bind_eq_bind, bind_eq_some_iff] at h
  obtain ⟨c, hc, q, hq, h⟩ := h
  refine ⟨c, q, hc, hq, ?_⟩
  split at h
  · rename_i hfail
    cases h
    exact .inl ⟨rfl, Or.inl hfail, _, rfl⟩
  rename_i hdel
  rw [Bool.not_eq_false] at hdel
  split at h
  · rename_i hnone
    cases h
    have hno : ∀ l' ∈ q.link, l'.peerPointer ≠ a := by simpa using hnone
    exact .inl ⟨rfl, Or.inr (.inl hno), _, rfl⟩
  rename_i l' hl'
  split at h
  · rename_i hfail
    cases h
    refine .inl ⟨rfl, Or.inr (.inr ⟨l', List.mem_of_find?_eq_some hl', ?_, hfail⟩), _, rfl⟩
    simpa using List.find?_some hl'
  rename_i hdel'
  rw [Bool.not_eq_false] at hdel'
  split at h
  · exact nomatch h
  · rename_i hne
    exact .inr ⟨l', hl', hne, hdel, hdel', h⟩

theorem turnoffFrom_frame {links : List OffloadLinkInfo}
    (h : turnoffFrom ops a links s = some r) : LinkFrame s r.1 := by
  induction links generalizing s with
  | nil =>
    cases h
    dsimp only
    exact LinkFrame.modifyLink s a _
  | cons _ _ ih =>
    obtain ⟨c, q, -, -, ⟨-, -, k, hk⟩ | ⟨_, -, -, -, -, h⟩⟩ := turnoffFrom_cons h
    · rw [hk]
      exact LinkFrame.withIfaces s k
    · refine LinkFrame.trans ?_ (ih h)
      exact (((LinkFrame.withIfaces s _).trans (LinkFrame.modifyLink _ _ _)).trans (LinkFrame.withCount _ _))

theorem turnoffOffloadLinks_frame (h : turnoffOffloadLinks ops s a = some r) : LinkFrame s r.1 := by
  simp only [turnoffOffloadLinks, bind_eq_bind, bind_eq_some_iff] at h
  obtain ⟨c, -, h⟩ := h
  exact turnoffFrom_frame h

theorem eraseLinkTo_cases (h : eraseLinkTo ops s a b = some r) :
    ∃ c q, s.clientInfo.node a = some c ∧ s.clientInfo.node b = some q ∧
      ((∀ l ∈ c.link, l.peerPointer ≠ b) ∧ r = (s, false) ∨
        ∃ l, c.link.find? (fun l => l.peerPointer = b) = some l ∧
          r = ((s.withIfaces (delOffloadLink ops s.ifaces c.pIface q.pIface l).1).modifyLink a
              (List.eraseP fun l => l.peerPointer = b),
            (delOffloadLink ops s.ifaces c.pIface q.pIface l).2)) := by
  simp only [eraseLinkTo, bind_eq_bind, bind_eq_some_iff] at h
  obtain ⟨c, hc, q, hq, h⟩ := h
  refine ⟨c, q, hc, hq, ?_⟩
  split at h
  · rename_i hnone
    exact .inl ⟨by simpa using hnone, (some.inj h).symm⟩
  · rename_i l hl
    exact .inr ⟨l, hl, (some.inj h).symm⟩

theorem eraseLinkTo_frame (h : eraseLinkTo ops s a b = some r) : LinkFrame s r.1 := by
  obtain ⟨c, q, -, -, ⟨-, rfl⟩ | ⟨l, -, rfl⟩⟩ := eraseLinkTo_cases h
  · exact LinkFrame.refl s
  · dsimp only
    exact (LinkFrame.withIfaces s _).trans (LinkFrame.modifyLink _ a _)

theorem eraseOffloadLink_cases (h : eraseOffloadLink ops s a b = some s') :
    ∃ r r', eraseLinkTo ops s a b = some r ∧ eraseLinkTo ops r.1 b a = some r' ∧
      s' = if r.2 && r'.2 then r'.1.withCount (r'.1.numOffloadPair - 1) else r'.1 := by
  simp only [eraseOffloadLink, bind_eq_bind, bind_eq_some_iff] at h
  obtain ⟨r, hr, r', hr', h⟩ := h
  exact ⟨r, r', hr, hr', (some.inj h).symm⟩

theorem eraseOffloadLink_frame (h : eraseOffloadLink ops s a b = some s') : LinkFrame s s' := by
  obtain ⟨r, _, hr, hr', rfl⟩ := eraseOffloadLink_cases h
  have hpair := (eraseLinkTo_frame hr).trans (eraseLinkTo_frame hr')
  split
  · exact hpair.trans (LinkFrame.withCount _ _)
  · exact hpair

theorem removeFltRules_frame (h : removeFltRules ops s a = some r) : ∃ k, r.1 = s.withIfaces k := by
  simp only [removeFltRules, bind_eq_bind, bind_eq_some_iff] at h
  obtain ⟨c, -, t, -, h⟩ := h
  cases h
  exact ⟨t.1, rfl⟩

theorem addFltFrom_cons {i : ℕ} {rest : List ℕ} (h : addFltFrom ops a (i :: rest) s = some r) :
    ∃ c l q, s.clientInfo.node a = some c ∧ c.link[i]? = some l ∧
      s.clientInfo.node l.peerPointer = some q ∧
      ((ops.addFlt s.ifaces c.pIface c.ip q.ip).2 = none ∧
          r = (s.withIfaces (ops.addFlt s.ifaces c.pIface c.ip q.ip).1, false) ∨
        ∃ h1 q' s1, (ops.addFlt s.ifaces c.pIface c.ip q.ip).2 = some h1 ∧
          s1 = ((s.withIfaces (ops.addFlt s.ifaces c.pIface c.ip q.ip).1).modifyLink a fun ls =>
            ls.modify i (OffloadLinkInfo.setFlt h1)) ∧
          s1.clientInfo.node l.peerPointer = some q' ∧
          ((∀ l' ∈ q'.link, l'.peerPointer ≠ a) ∧ r = (s1, false) ∨ (∃ l' ∈ q'.link, l'.peerPointer = a) ∧
              ((ops.addFlt s1.ifaces q'.pIface q'.ip c.ip).2 = none ∧
                  r = (s1.withIfaces (ops.addFlt s1.ifaces q'.pIface q'.ip c.ip).1, false) ∨
                ∃ h2, (ops.addFlt s1.ifaces q'.pIface q'.ip c.ip).2 = some h2 ∧
                  addFltFrom ops a rest
                    ((s1.withIfaces (ops.addFlt s1.ifaces q'.pIface q'.ip c.ip).1).modifyLink
                      l.peerPointer (setFltTo a h2)) = some r))) := by
  simp only [addFltFrom, bind_eq_bind, bind_eq_some_iff] at h
  obtain ⟨c, hc, l, hl, q, hq, h⟩ := h
  refine ⟨c, l, q, hc, hl, hq, ?_⟩
  split at h
  · rename_i hnone
    exact .inl ⟨hnone, (some.inj h).symm⟩
  rename_i h1 hh1
  simp only [bind_eq_some_iff] at h
  obtain ⟨q', hq', h⟩ := h
  refine .inr ⟨h1, q', _, hh1, rfl, hq', ?_⟩
  split at h
  · rename_i hany
    refine .inr ⟨by simpa using hany, ?_⟩
    split at h
    · rename_i hnone
      exact .inl ⟨hnone, (some.inj h).symm⟩
    · rename_i h2 hh2
      exact .inr ⟨h2, hh2, h⟩
  · rename_i hany
    exact .inl ⟨by simpa using hany, (some.inj h).symm⟩

theorem addFltFrom_frame {is : List ℕ} (h : addFltFrom ops a is s = some r) : LinkFrame s r.1 := by
  induction is generalizing s with
  | nil =>
    cases h
    exact LinkFrame.refl s
  | cons _ _ ih =>
    obtain ⟨c, l, q, -, -, -, ⟨-, rfl⟩ | ⟨_, _, s1, -, hs1, -, h⟩⟩ := addFltFrom_cons h
    · exact LinkFrame.withIfaces s _
    have hone : LinkFrame s s1 := by
      rw [hs1]
      exact (LinkFrame.withIfaces s _).trans (LinkFrame.modifyLink _ a _)
    obtain ⟨-, rfl⟩ | ⟨-, ⟨-, rfl⟩ | ⟨_, -, h⟩⟩ := h
    · exact hone
    · exact hone.trans (LinkFrame.withIfaces _ _)
    · exact hone.trans (((LinkFrame.withIfaces _ _).trans (LinkFrame.modifyLink _ _ _)).trans (ih h))

theorem addFltRules_frame (h : addFltRules ops s a = some r) : LinkFrame s r.1 := by
  simp only [addFltRules, bind_eq_bind, bind_eq_some_iff] at h
  obtain ⟨c, -, h⟩ := h
  exact addFltFrom_frame h

end

/-! ### Peers -/

/-- A client without its peers. -/
def ClientInfo.noPeer (c : ClientInfo A) : ClientInfo A := { c with peer := [] }

/-- The two states differ in peer lists only. -/
structure PeerFrame (s s' : LanState A K κ) : Prop where
  find : s'.clientInfo.find = s.clientInfo.find
  node : ∀ p, (s'.clientInfo.node p).map ClientInfo.noPeer =
    (s.clientInfo.node p).map ClientInfo.noPeer
  count : s'.numOffloadPair = s.numOffloadPair
  connection : s'.connection = s.connection
  ifaces : s'.ifaces = s.ifaces

namespace PeerFrame

variable {s s' s'' : LanState A K κ} {p : ℕ}

theorem trans (h : PeerFrame s s') (h' : PeerFrame s' s'') : PeerFrame s s'' where
  find := h'.find.trans h.find
  node := fun p => (h'.node p).trans (h.node p)
  count := h'.count.trans h.count
  connection := h'.connection.trans h.connection
  ifaces := h'.ifaces.trans h.ifaces

theorem modifyPeer (s : LanState A K κ) (p : ℕ) (f : List PeerInfo → List PeerInfo) :
    PeerFrame s (s.modifyPeer p f) where
  find := rfl
  node := s.clientInfo.map_node_modify p _ ClientInfo.noPeer fun _ => rfl
  count := rfl
  connection := rfl
  ifaces := rfl

theorem map_node (h : PeerFrame s s') {β : Type} {g : ClientInfo A → β} (hg : ∀ c, g c.noPeer = g c) (p : ℕ) :
    (s'.clientInfo.node p).map g = (s.clientInfo.node p).map g := by
  have hfun : g ∘ ClientInfo.noPeer = g := funext hg
  have heq := congrArg (Option.map g) (h.node p)
  simpa only [Option.map_map, hfun] using heq

theorem node_some' (h : PeerFrame s s') {c : ClientInfo A} (hc : s'.clientInfo.node p = some c) :
    ∃ c', s.clientInfo.node p = some c' ∧ c'.noPeer = c.noPeer := by
  have heq := (h.node p).symm
  rw [hc] at heq
  exact map_eq_some_iff.mp heq

end PeerFrame

section

variable {s s' : LanState A K κ} {a b : ℕ} {r : LanState A K κ × Bool}

theorem addConnection_frame (hr : addConnection s a b = some r) : PeerFrame s r.1 := by
  simp only [addConnection, bind_eq_bind, bind_eq_some_iff] at hr
  obtain ⟨c, -, t, -, d, -, _, -, hr⟩ := hr
  cases hr
  dsimp only
  exact (PeerFrame.modifyPeer s a _).trans (PeerFrame.modifyPeer _ b _)

theorem removeConnection_frame (hr : removeConnection s a b = some r) : PeerFrame s r.1 := by
  simp only [removeConnection, bind_eq_bind, bind_eq_some_iff] at hr
  obtain ⟨c, -, d, -, hr⟩ := hr
  cases hr
  dsimp only
  exact (PeerFrame.modifyPeer s a _).trans (PeerFrame.modifyPeer _ b _)

theorem clearPeerFrom_frame {peers : List PeerInfo} (hr : clearPeerFrom a peers s = some r) : PeerFrame s r.1 := by
  induction peers generalizing s with
  | nil =>
    cases hr
    dsimp only
    exact PeerFrame.modifyPeer s a _
  | cons e _ ih =>
    simp only [clearPeerFrom, bind_eq_bind, bind_eq_some_iff] at hr
    obtain ⟨q, -, hr⟩ := hr
    split at hr
    · split at hr
      · simp at hr
      · exact (PeerFrame.modifyPeer s e.peerPointer _).trans (ih hr)
    · cases hr
      exact ⟨rfl, fun _ => rfl, rfl, rfl, rfl⟩

theorem clearPeerList_frame (hr : clearPeerList s a = some r) : PeerFrame s r.1 := by
  simp only [clearPeerList, bind_eq_bind, bind_eq_some_iff] at hr
  obtain ⟨c, -, hr⟩ := hr
  exact clearPeerFrom_frame hr

end

/-! ### Handlers -/

section

variable {env : LanEnv A K κ} {s s' : LanState A K κ} {data : LanClient A} {conn : LanConn A}
variable {r : LanState A K κ × List (LanConn A)} {p q : ℕ}

theorem handleClientPowerSave_cases (h : handleClientPowerSave env s data = some s') :
    (s.clientInfo.find (env.key data.ip) = none ∧ s' = s) ∨ ∃ p r, s.clientInfo.find (env.key data.ip) = some p ∧
        removeFltRules env.toLanOps s p = some r ∧
        s' = if r.2 then r.1.modify p ClientInfo.setPowersave else r.1 := by
  unfold handleClientPowerSave at h
  split at h
  · rename_i hnone
    exact .inl ⟨hnone, (some.inj h).symm⟩
  rename_i p hp
  simp only [bind_eq_bind, bind_eq_some_iff] at h
  obtain ⟨r, hr, h⟩ := h
  refine .inr ⟨p, r, hp, hr, ?_⟩
  split_ifs at h with hok
  · rw [if_pos hok]
    exact (some.inj h).symm
  · rw [if_neg hok]
    exact (some.inj h).symm

theorem handleClientPowerRecover_cases (h : handleClientPowerRecover env s data = some r) :
    (s.clientInfo.find (env.key data.ip) = none ∧ r.1 = s) ∨
      ∃ p c, s.clientInfo.find (env.key data.ip) = some p ∧ s.clientInfo.node p = some c ∧
        (((c.isActive ∨ c.isPowersave = false) ∧ r.1 = s) ∨
          c.isActive = false ∧ c.isPowersave ∧ ∃ r1,
            addFltRules env.toLanOps s p = some r1 ∧
            (r1.2 = false ∧ r.1 = r1.1 ∨
              r1.2 ∧ checkPotentialLink env.toLanOps
                (r1.1.modify p ClientInfo.setRecovered) p = some r.1)) := by
  unfold handleClientPowerRecover at h
  split at h
  · rename_i hnone
    cases h
    exact .inl ⟨hnone, rfl⟩
  rename_i p hp
  simp only [bind_eq_bind, bind_eq_some_iff] at h
  obtain ⟨c, hc, h⟩ := h
  refine .inr ⟨p, c, hp, hc, ?_⟩
  split at h
  · rename_i hstate
    cases h
    exact .inl ⟨hstate, rfl⟩
  rename_i hstate
  rw [not_or, Bool.not_eq_true, Bool.not_eq_false] at hstate
  simp only [bind_eq_some_iff] at h
  obtain ⟨r1, h1, h⟩ := h
  refine .inr ⟨hstate.1, hstate.2, r1, h1, ?_⟩
  split at h
  · rename_i hok
    simp only [bind_eq_some_iff] at h
    obtain ⟨_, h2, _, -, h⟩ := h
    cases h
    exact .inr ⟨hok, h2⟩
  rename_i hok
  rw [Bool.not_eq_true] at hok
  cases h
  exact .inl ⟨hok, rfl⟩

theorem handleNewLan2LanConnection_cases (h : handleNewLan2LanConnection env s conn = some s') :
    (s' = s ∧ (s.clientInfo.find (env.key conn.src) = none ∨
        s.clientInfo.find (env.key conn.dst) = none)) ∨
      ∃ p q c d r, s.clientInfo.find (env.key conn.src) = some p ∧
        s.clientInfo.find (env.key conn.dst) = some q ∧ addConnection s p q = some r ∧
        r.1.clientInfo.node p = some c ∧ r.1.clientInfo.node q = some d ∧
        (¬ (r.2 ∧ c.isActive ∧ d.isActive) ∧ s' = r.1 ∨
          r.2 ∧ c.isActive ∧ d.isActive ∧ ∃ r1,
            addOffloadLink env.toLanOps r.1 p q = some r1 ∧
            (r1.2 = false ∧ s' = r1.1 ∨
              r1.2 ∧ ∃ r2, addOffloadLink env.toLanOps r1.1 q p = some r2 ∧
                s' = if r2.2 then r2.1.withCount (r2.1.numOffloadPair + 1) else r2.1)) := by
  unfold handleNewLan2LanConnection at h
  split at h
  · rename_i p q hp hq
    simp only [bind_eq_bind, bind_eq_some_iff] at h
    obtain ⟨r, hr, c, hc, d, hd, h⟩ := h
    refine .inr ⟨p, q, c, d, r, hp, hq, hr, hc, hd, ?_⟩
    split at h
    · rename_i hcond
      rw [Bool.and_eq_true, Bool.and_eq_true] at hcond
      simp only [bind_eq_some_iff] at h
      obtain ⟨r1, h1, h⟩ := h
      refine .inr ⟨hcond.1.1, hcond.1.2, hcond.2, r1, h1, ?_⟩
      split_ifs at h with hok
      · simp only [bind_eq_some_iff] at h
        obtain ⟨r2, h2, h⟩ := h
        refine .inr ⟨hok, r2, h2, ?_⟩
        split_ifs at h with hok'
        · rw [if_pos hok']
          exact (some.inj h).symm
        · rw [if_neg hok']
          exact (some.inj h).symm
      · rw [Bool.not_eq_true] at hok
        exact .inl ⟨hok, (some.inj h).symm⟩
    rename_i hcond
    refine .inl ⟨fun h' => hcond ?_, (some.inj h).symm⟩
    rw [h'.1, h'.2.1, h'.2.2]
    rfl
  rename_i hne
  refine .inl ⟨(some.inj h).symm, ?_⟩
  by_contra hboth
  rw [not_or] at hboth
  obtain ⟨p, hp⟩ := ne_none_iff_exists'.mp hboth.1
  obtain ⟨q, hq⟩ := ne_none_iff_exists'.mp hboth.2
  exact hne p q hp hq

theorem eraseLinks_cases (h : eraseLinks env s p q = some s') :
    ∃ c d, s.clientInfo.node p = some c ∧ s.clientInfo.node q = some d ∧
      ((c.isActive ∧ d.isActive ∧ eraseOffloadLink env.toLanOps s p q = some s') ∨
        ¬ (c.isActive ∧ d.isActive) ∧ ∃ s1,
          (c.isPowersave ∧ (d.isActive ∨ d.isPowersave) ∧
              eraseOffloadLink env.toLanOps s p q = some s1 ∨
            ¬ (c.isPowersave ∧ (d.isActive ∨ d.isPowersave)) ∧ s1 = s) ∧
          (d.isPowersave ∧ (c.isActive ∨ c.isPowersave) ∧
              eraseOffloadLink env.toLanOps s1 q p = some s' ∨
            ¬ (d.isPowersave ∧ (c.isActive ∨ c.isPowersave)) ∧ s' = s1)) := by
  simp only [eraseLinks, bind_eq_bind, bind_eq_some_iff] at h
  obtain ⟨c, hc, d, hd, h⟩ := h
  refine ⟨c, d, hc, hd, ?_⟩
  split at h
  · rename_i hact
    rw [Bool.and_eq_true] at hact
    exact .inl ⟨hact.1, hact.2, h⟩
  rename_i hact
  rw [Bool.and_eq_true] at hact
  -- the part for the destination, from any state
  have hsecond : ∀ s1, (if (d.isPowersave && (c.isActive || c.isPowersave)) = true then
      eraseOffloadLink env.toLanOps s1 q p else some s1) = some s' →
      (d.isPowersave = true ∧ (c.isActive = true ∨ c.isPowersave = true) ∧
          eraseOffloadLink env.toLanOps s1 q p = some s' ∨
        ¬ (d.isPowersave = true ∧ (c.isActive = true ∨ c.isPowersave = true)) ∧ s' = s1) := by
    intro s1 h1
    split at h1
    · rename_i hd1
      rw [Bool.and_eq_true, Bool.or_eq_true] at hd1
      exact .inl ⟨hd1.1, hd1.2, h1⟩
    · rename_i hd1
      rw [Bool.and_eq_true, Bool.or_eq_true] at hd1
      exact .inr ⟨hd1, (some.inj h1).symm⟩
  refine .inr ⟨hact, ?_⟩
  split at h
  · rename_i hc1
    rw [Bool.and_eq_true, Bool.or_eq_true] at hc1
    rw [bind_eq_some_iff] at h
    obtain ⟨s1, h1, h⟩ := h
    exact ⟨s1, Or.inl ⟨hc1.1, hc1.2, h1⟩, hsecond s1 h⟩
  · rename_i hc1
    rw [Bool.and_eq_true, Bool.or_eq_true] at hc1
    exact ⟨s, Or.inr ⟨hc1, rfl⟩, hsecond s h⟩

theorem eraseLinks_frame (h : eraseLinks env s p q = some s') : LinkFrame s s' := by
  obtain ⟨c, d, -, -, ⟨-, -, h⟩ | ⟨-, s1, h1, h2⟩⟩ := eraseLinks_cases h
  · exact eraseOffloadLink_frame h
  have hfirst : LinkFrame s s1 := by
    obtain ⟨-, -, h1⟩ | ⟨-, rfl⟩ := h1
    · exact eraseOffloadLink_frame h1
    · exact LinkFrame.refl _
  obtain ⟨-, -, h2⟩ | ⟨-, rfl⟩ := h2
  · exact hfirst.trans (eraseOffloadLink_frame h2)
  · exact hfirst

section

variable [DecidableEq K]

theorem handleClientInactive_cases (h : handleClientInactive env s data = some s') :
    (s.clientInfo.find (env.key data.ip) = none ∧ s' = s) ∨ ∃ p c r, s.clientInfo.find (env.key data.ip) = some p ∧
        turnoffOffloadLinks env.toLanOps s p = some r ∧ r.1.clientInfo.node p = some c ∧
        s' = if c.peer = [] then
            (r.1.modify p ClientInfo.setInactive).eraseClient (env.key data.ip)
          else r.1.modify p ClientInfo.setInactive := by
  unfold handleClientInactive at h
  split at h
  · rename_i hnone
    exact .inl ⟨hnone, (some.inj h).symm⟩
  rename_i p hp
  simp only [bind_eq_bind, bind_eq_some_iff] at h
  obtain ⟨r, hr, _, hc', h⟩ := h
  rw [LanState.modify, NodeMap.node_modify_self, map_eq_some_iff] at hc'
  obtain ⟨c, hc, rfl⟩ := hc'
  refine .inr ⟨p, c, r, hp, hr, hc, ?_⟩
  split_ifs at h with hnil
  · rw [if_pos (show c.peer = [] from hnil)]
    exact (some.inj h).symm
  · rw [if_neg (show ¬ c.peer = [] from hnil)]
    exact (some.inj h).symm

theorem handleClientDisconnect_cases (h : handleClientDisconnect env s data = some s') :
    (s.clientInfo.find (env.key data.ip) = none ∧ s' = s) ∨
      ∃ p r1 r2, s.clientInfo.find (env.key data.ip) = some p ∧
        turnoffOffloadLinks env.toLanOps s p = some r1 ∧ clearPeerList r1.1 p = some r2 ∧
        s' = r2.1.eraseClient (env.key data.ip) := by
  unfold handleClientDisconnect at h
  split at h
  · rename_i hnone
    exact .inl ⟨hnone, (some.inj h).symm⟩
  rename_i p hp
  simp only [bind_eq_bind, bind_eq_some_iff] at h
  obtain ⟨r1, h1, r2, h2, h⟩ := h
  exact .inr ⟨p, r1, r2, hp, h1, h2, (some.inj h).symm⟩

theorem eraseIfIdle_cases {k : K} {p : ℕ} (h : eraseIfIdle s k p = some s') : ∃ c, s.clientInfo.node p = some c ∧
      (c.isActive = false ∧ c.isPowersave = false ∧ c.peer = [] ∧ s' = s.eraseClient k ∨
        ¬ (c.isActive = false ∧ c.isPowersave = false ∧ c.peer = []) ∧ s' = s) := by
  simp only [eraseIfIdle, bind_eq_bind, bind_eq_some_iff] at h
  obtain ⟨c, hc, h⟩ := h
  refine ⟨c, hc, ?_⟩
  split_ifs at h with hidle
  · exact .inl ⟨hidle.1, hidle.2.1, hidle.2.2, (some.inj h).symm⟩
  · exact .inr ⟨hidle, (some.inj h).symm⟩

/-- The second client is still in the table when it is looked at; if it is the
first one again, neither look does anything. -/
theorem eraseIfIdle_twice {k k' : K} {p q : ℕ} {s1 : LanState A K κ}
    (hp : s.clientInfo.find k = some p) (hq : s.clientInfo.find k' = some q)
    (h : eraseIfIdle s k p = some s1) (h' : eraseIfIdle s1 k' q = some s') :
    s1.clientInfo.find k' = some q ∧ s1.clientInfo.node q = s.clientInfo.node q ∧
      (p = q → s' = s) := by
  obtain ⟨c, hc, ⟨-, -, -, rfl⟩ | ⟨hidle, rfl⟩⟩ := eraseIfIdle_cases h
  · obtain ⟨d, hd, -⟩ := eraseIfIdle_cases h'
    have hne : q ≠ p := by
      rintro rfl
      simp [LanState.eraseClient, NodeMap.node_erase hp] at hd
    have hk : k' ≠ k := by
      rintro rfl
      exact hne (some.inj (hq.symm.trans hp))
    refine ⟨?_, ?_, fun heq => absurd heq.symm hne⟩
    · show (s.clientInfo.erase k).find k' = some q
      rw [NodeMap.find_erase, if_neg hk, hq]
    · show (s.clientInfo.erase k).node q = s.clientInfo.node q
      rw [NodeMap.node_erase hp, if_neg hne]
  refine ⟨hq, rfl, ?_⟩
  rintro rfl
  obtain ⟨d, hd, ⟨hact, hps, hpeer, -⟩ | ⟨-, rfl⟩⟩ := eraseIfIdle_cases h'
  · cases hc.symm.trans hd
    exact absurd ⟨hact, hps, hpeer⟩ hidle
  · rfl

theorem handleDelLan2LanConnection_cases (h : handleDelLan2LanConnection env s conn = some s') :
    (s' = s ∧ (s.clientInfo.find (env.key conn.src) = none ∨
        s.clientInfo.find (env.key conn.dst) = none)) ∨
      ∃ p q r, s.clientInfo.find (env.key conn.src) = some p ∧
        s.clientInfo.find (env.key conn.dst) = some q ∧ removeConnection s p q = some r ∧
        (r.2 = false ∧ s' = r.1 ∨
          r.2 ∧ ∃ s1 s2, eraseLinks env r.1 p q = some s1 ∧
            eraseIfIdle s1 (env.key conn.src) p = some s2 ∧
            eraseIfIdle s2 (env.key conn.dst) q = some s') := by
  unfold handleDelLan2LanConnection at h
  split at h
  · rename_i p q hp hq
    simp only [bind_eq_bind, bind_eq_some_iff] at h
    obtain ⟨r, hr, h⟩ := h
    refine .inr ⟨p, q, r, hp, hq, hr, ?_⟩
    split_ifs at h with hok
    · simp only [bind_eq_some_iff] at h
      obtain ⟨s1, h1, s2, h2, h⟩ := h
      exact .inr ⟨hok, s1, s2, h1, h2, h⟩
    · rw [Bool.not_eq_true] at hok
      exact .inl ⟨hok, (some.inj h).symm⟩
  rename_i hne
  refine .inl ⟨(some.inj h).symm, ?_⟩
  by_contra hboth
  rw [not_or] at hboth
  obtain ⟨p, hp⟩ := ne_none_iff_exists'.mp hboth.1
  obtain ⟨q, hq⟩ := ne_none_iff_exists'.mp hboth.2
  exact hne p q hp hq

end

variable [DecidableEq A]

theorem announce_cases (h : announce env s p = some r) :
    ∃ c, s.clientInfo.node p = some c ∧ r.1 = (checkCacheConnection env s c).1 ∧
      r.2 = generateNewConnection env s c ++ (checkCacheConnection env s c).2 := by
  simp only [announce, bind_eq_bind, bind_eq_some_iff] at h
  obtain ⟨c, hc, h⟩ := h
  cases h
  exact ⟨c, hc, rfl, rfl⟩

theorem announce_frame (h : announce env s p = some r) : ∃ conns, r.1 = { s with connection := conns } := by
  obtain ⟨c, -, hr, -⟩ := announce_cases h
  rw [hr]
  unfold checkCacheConnection
  split <;> exact ⟨_, rfl⟩

variable [DecidableEq K]

/-- The state in which `handle_client_active()` looks at a client it did not
know. -/
def insertClient (env : LanEnv A K κ) (s : LanState A K κ) (data : LanClient A) :
    LanState A K κ :=
  { s with
    clientInfo := s.clientInfo.insert (env.key data.ip)
      ⟨data.ip, data.macAddr, true, false, data.pIface, [], []⟩ }

theorem handleClientActive_cases (h : handleClientActive env s data = some r) :
    (s.clientInfo.find (env.key data.ip) = none ∧
        announce env (insertClient env s data) s.clientInfo.next = some r) ∨
      ∃ p c, s.clientInfo.find (env.key data.ip) = some p ∧ s.clientInfo.node p = some c ∧
        ((c.isActive ∧ c.macAddr = data.macAddr ∧ r = (s, [])) ∨
          (c.isActive ∧ c.macAddr ≠ data.macAddr ∧ ∃ r1 r2,
            turnoffOffloadLinks env.toLanOps s p = some r1 ∧ clearPeerList r1.1 p = some r2 ∧
            announce env (r2.1.modify p (ClientInfo.fill data)) p = some r) ∨
          (c.isActive = false ∧ ∃ s1,
            checkPotentialLink env.toLanOps (s.modify p (ClientInfo.fill data)) p = some s1 ∧
            announce env s1 p = some r)) := by
  unfold handleClientActive at h
  split at h
  · rename_i hnone
    exact .inl ⟨hnone, h⟩
  rename_i p hp
  simp only [bind_eq_bind, bind_eq_some_iff] at h
  obtain ⟨c, hc, h⟩ := h
  refine .inr ⟨p, c, hp, hc, ?_⟩
  split at h
  · rename_i hact
    split at h
    · rename_i hmac
      exact .inl ⟨hact, hmac, (some.inj h).symm⟩
    rename_i hmac
    simp only [bind_eq_some_iff] at h
    obtain ⟨r1, h1, r2, h2, h⟩ := h
    exact .inr (.inl ⟨hact, hmac, r1, r2, h1, h2, h⟩)
  rename_i hact
  rw [Bool.not_eq_true] at hact
  simp only [bind_eq_some_iff] at h
  obtain ⟨s1, h1, h⟩ := h
  exact .inr (.inr ⟨hact, s1, h1, h⟩)

end

end G4Common.Ipacm

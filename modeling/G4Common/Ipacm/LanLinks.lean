/-
The offload links as a graph.

The targets of the links of all clients are adjacency lists, and the counter of
offloaded pairs is meant to be the number of edges (`LinkSound`).  This file
follows the graph through the functions that add and remove links, over any
interfaces: the graph is right again after each of them if both directions of a
pair come and go together.
-/
import G4Common.Ipacm.LanPeers
import G4Common.Lib.LinkGraph

namespace G4Common.Ipacm

open Function List Option

variable {A K κ : Type}

/-- The clients that the client at an address links to. -/
def targetsOf (m : NodeMap K (ClientInfo A)) (p : ℕ) : List ℕ :=
  ((m.node p).map fun c => c.link.map OffloadLinkInfo.peerPointer).getD []

/-- The links are a graph, with as many edges as are counted. -/
structure LinkSound (t : LanTable A K) : Prop where
  graph : LinkGraph (targetsOf t.clientInfo) t.numOffloadPair.toNat
  le_max : t.numOffloadPair ≤ maxOffloadPair

section

variable {m m' : NodeMap K (ClientInfo A)} {p q : ℕ} {c : ClientInfo A}

theorem targetsOf_of_node (h : m.node p = some c) : targetsOf m p = c.link.map OffloadLinkInfo.peerPointer := by
  simp [targetsOf, h]

theorem targetsOf_of_none (h : m.node p = none) : targetsOf m p = [] := by
  simp [targetsOf, h]

theorem targetsOf_congr (h : ∀ p, (m'.node p).map (fun c => c.link.map OffloadLinkInfo.peerPointer) =
    (m.node p).map fun c => c.link.map OffloadLinkInfo.peerPointer) : targetsOf m' = targetsOf m := by
  funext p
  simp only [targetsOf, h]

theorem node_of_mem_targetsOf (h : q ∈ targetsOf m p) : ∃ c, m.node p = some c := by
  cases hp : m.node p with
  | none =>
    rw [targetsOf_of_none hp] at h
    exact nomatch h
  | some c => exact ⟨c, rfl⟩

theorem targetsOf_modifyLink {s : LanState A K κ} (h : s.clientInfo.node p = some c) (k : κ)
    (f : List OffloadLinkInfo → List OffloadLinkInfo) :
    targetsOf ((s.withIfaces k).modifyLink p f).clientInfo = update (targetsOf s.clientInfo) p
      ((f c.link).map OffloadLinkInfo.peerPointer) := by
  funext q
  by_cases hq : q = p
  · subst hq
    rw [update_self]
    simp [targetsOf, LanState.modifyLink, LanState.modify, LanState.withIfaces, h]
  · rw [update_of_ne hq]
    simp [targetsOf, LanState.modifyLink, LanState.modify, LanState.withIfaces, NodeMap.node_modify_of_ne _ _ _ hq]

theorem targetsOf_modifyLink_sublist {s : LanState A K κ} {f : List OffloadLinkInfo → List OffloadLinkInfo}
    (hf : ∀ ls, (f ls).Sublist ls) (q : ℕ) :
    (targetsOf (s.modifyLink p f).clientInfo q).Sublist (targetsOf s.clientInfo q) := by
  cases hc : s.clientInfo.node q with
  | none =>
    have hnone : (s.clientInfo.modify p fun c => { c with link := f c.link }).node q = none := by
      rw [NodeMap.node_modify]
      split_ifs with hq
      · rw [← hq, hc]
        rfl
      · exact hc
    have hnil : targetsOf (s.modifyLink p f).clientInfo q = [] := targetsOf_of_none hnone
    rw [hnil]
    exact nil_sublist _
  | some c =>
    by_cases hq : q = p
    · subst hq
      rw [targetsOf_of_node hc]
      have ht : targetsOf (s.modifyLink q f).clientInfo =
          update (targetsOf s.clientInfo) q ((f c.link).map OffloadLinkInfo.peerPointer) :=
        targetsOf_modifyLink hc s.ifaces f
      rw [ht, update_self]
      exact (hf c.link).map _
    have hnode : (s.modifyLink p f).clientInfo.node q = s.clientInfo.node q :=
      NodeMap.node_modify_of_ne _ _ _ hq
    rw [targetsOf, hnode]
    exact List.Sublist.refl _

theorem targetsOf_modify {s : LanState A K κ} (p : ℕ) (f : ClientInfo A → ClientInfo A)
    (hf : ∀ c, (f c).link = c.link) : targetsOf (s.modify p f).clientInfo = targetsOf s.clientInfo := by
  refine targetsOf_congr fun q => ?_
  exact s.clientInfo.map_node_modify p f _ (fun c => by rw [hf]) q

theorem targetsOf_erase [DecidableEq K] {k : K} (hk : m.find k = some p) (hnil : targetsOf m p = []) :
    targetsOf (m.erase k) = targetsOf m := by
  funext q
  by_cases hq : q = p
  · rw [hq, hnil, targetsOf_of_none]
    simp [NodeMap.node_erase hk]
  · simp [targetsOf, NodeMap.node_erase hk, hq]

theorem targetsOf_insert [DecidableEq K] {k : K} (hk : m.find k = none) (hc : c.link = []) :
    targetsOf (m.insert k c) = targetsOf m := by
  funext q
  by_cases hq : q = m.next
  · rw [hq, targetsOf_of_none m.next_node]
    simp [targetsOf, NodeMap.node_insert c hk, hc]
  · simp [targetsOf, NodeMap.node_insert c hk, hq]

theorem map_eraseP_link (ls : List OffloadLinkInfo) (q : ℕ) :
    (ls.eraseP fun l => l.peerPointer = q).map OffloadLinkInfo.peerPointer =
      (ls.map OffloadLinkInfo.peerPointer).erase q := by
  induction ls with
  | nil => rfl
  | cons l _ ih =>
    by_cases hl : l.peerPointer = q
    · simp [hl]
    · simp [hl, ih]

theorem map_modify_setFlt (ls : List OffloadLinkInfo) (i : ℕ) (h : UInt32) :
    (ls.modify i (OffloadLinkInfo.setFlt h)).map OffloadLinkInfo.peerPointer =
      ls.map OffloadLinkInfo.peerPointer := by
  induction ls generalizing i with
  | nil => simp
  | cons _ _ ih =>
    cases i with
    | zero => rfl
    | succ => simp [ih]

theorem map_setFltTo (ls : List OffloadLinkInfo) (q : ℕ) (h : UInt32) :
    (setFltTo q h ls).map OffloadLinkInfo.peerPointer = ls.map OffloadLinkInfo.peerPointer := by
  induction ls with
  | nil => rfl
  | cons _ _ ih =>
    unfold setFltTo
    split
    · rfl
    · simp [ih]

end

/-! ### The functions of links -/

section

variable {ops : LanOps A κ} {s s' : LanState A K κ} {a b : ℕ} {r : LanState A K κ × Bool}
variable {c q : ClientInfo A} {ls rest : List OffloadLinkInfo}

theorem addLinkRules_peer {k : κ} {l : OffloadLinkInfo}
    (h : (addLinkRules ops k c q b).2 = some l) : l.peerPointer = b := by
  unfold addLinkRules at h
  dsimp only at h
  split at h
  · simp at h
  split at h
  · simp at h
  · split at h
    · simp at h
    · rw [← some.inj h]

section

variable (h : addOffloadLink ops s a b = some r)
include h

theorem addOffloadLink_true (hr : r.2) :
    s.numOffloadPair < maxOffloadPair ∧ r.1.numOffloadPair = s.numOffloadPair ∧
      targetsOf r.1.clientInfo =
        update (targetsOf s.clientInfo) a (targetsOf s.clientInfo a ++ [b]) := by
  obtain ⟨-, rfl⟩ | ⟨hroom, c, q, hc, -, ⟨-, rfl⟩ | ⟨l, hl, rfl⟩⟩ := addOffloadLink_cases h
  · simp at hr
  · simp at hr
  refine ⟨UInt8.not_le.mp hroom, rfl, ?_⟩
  dsimp only
  rw [targetsOf_modifyLink hc, targetsOf_of_node hc, map_append, map_singleton, addLinkRules_peer hl]

theorem addOffloadLink_false (hr : r.2 = false) : ∃ k, r.1 = s.withIfaces k := by
  obtain ⟨-, rfl⟩ | ⟨-, c, q, -, -, ⟨-, rfl⟩ | ⟨l, -, rfl⟩⟩ := addOffloadLink_cases h
  · exact ⟨s.ifaces, rfl⟩
  · exact ⟨_, rfl⟩
  · simp at hr

theorem addOffloadLink_count : r.1.numOffloadPair = s.numOffloadPair := by
  cases hr : r.2 with
  | true => exact (addOffloadLink_true h hr).2.1
  | false =>
    obtain ⟨k, hk⟩ := addOffloadLink_false h hr
    rw [hk]
    rfl

theorem addOffloadLink_full (hfull : ¬ s.numOffloadPair < maxOffloadPair) : r = (s, false) := by
  obtain ⟨-, rfl⟩ | ⟨hroom, -⟩ := addOffloadLink_cases h
  · rfl
  · exact absurd (UInt8.not_lt.mp hfull) hroom

end

theorem LinkSound.addPair (h : LinkSound s.toLanTable) {r1 r2 : LanState A K κ × Bool}
    (h1 : addOffloadLink ops s a b = some r1) (hr1 : r1.2)
    (h2 : addOffloadLink ops r1.1 b a = some r2) (hr2 : r2.2) (hne : a ≠ b) (hno : b ∉ targetsOf s.clientInfo a) :
    LinkSound (r2.1.withCount (r2.1.numOffloadPair + 1)).toLanTable ∧
      r2.1.numOffloadPair = s.numOffloadPair ∧
      ∀ p q, q ∈ targetsOf r2.1.clientInfo p ↔
        q ∈ targetsOf s.clientInfo p ∨ p = a ∧ q = b ∨ p = b ∧ q = a := by
  obtain ⟨hlt, hnum1, ht1⟩ := addOffloadLink_true h1 hr1
  obtain ⟨-, hnum2, ht2⟩ := addOffloadLink_true h2 hr2
  have hgraph := h.graph.link hne hno
  rw [ht1, update_of_ne hne.symm] at ht2
  have hnum : r2.1.numOffloadPair = s.numOffloadPair := hnum2.trans hnum1
  have hlt' : s.numOffloadPair.toNat < 3 := UInt8.lt_iff_toNat_lt.mp hlt
  have hsucc : (r2.1.numOffloadPair + 1).toNat = s.numOffloadPair.toNat + 1 := by
    rw [hnum, UInt8.toNat_add]
    simp
    omega
  refine ⟨⟨?_, ?_⟩, hnum, fun p q => ?_⟩
  · show LinkGraph (targetsOf r2.1.clientInfo) (r2.1.numOffloadPair + 1).toNat
    rwa [ht2, hsucc]
  · show r2.1.numOffloadPair + 1 ≤ maxOffloadPair
    rw [UInt8.le_iff_toNat_le, hsucc]
    exact hlt'
  · rw [ht2]
    exact LinkGraph.mem_link hne

/-- The loop of `turnoff_offload_links()` on its way: the graph is right with the
links still ahead in place of the list of the client. -/
structure LinksAhead (s : LanState A K κ) (a : ℕ) (ls : List OffloadLinkInfo) : Prop where
  graph : LinkGraph (update (targetsOf s.clientInfo) a
    (ls.map OffloadLinkInfo.peerPointer)) s.numOffloadPair.toNat
  le_max : s.numOffloadPair ≤ maxOffloadPair

theorem LinkSound.ahead (h : LinkSound s.toLanTable) (hc : s.clientInfo.node a = some c) : LinksAhead s a c.link where
  graph := by
    rw [← targetsOf_of_node hc, update_eq_self]
    exact h.graph
  le_max := h.le_max

section

variable {l : OffloadLinkInfo} (h : LinksAhead s a (l :: rest))
    (hq : s.clientInfo.node l.peerPointer = some q)
include h hq

theorem LinksAhead.next (k : κ) :
    LinksAhead (((s.withIfaces k).modifyLink l.peerPointer
      (eraseP fun l' => l'.peerPointer = a)).withCount (s.numOffloadPair - 1)) a rest := by
  have hg := h.graph
  have hle := UInt8.le_iff_toNat_le.mp h.le_max
  rw [map_cons] at hg
  obtain ⟨hpos, -, -, hg'⟩ := hg.unlinkHead
  have hpred : (s.numOffloadPair - 1).toNat = s.numOffloadPair.toNat - 1 := by
    have hone : (1 : UInt8) ≤ s.numOffloadPair := UInt8.le_iff_toNat_le.mpr hpos
    exact UInt8.toNat_sub_of_le _ _ hone
  constructor
  · show LinkGraph (update (targetsOf ((s.withIfaces k).modifyLink l.peerPointer
      (eraseP fun l' => l'.peerPointer = a)).clientInfo) a _) (s.numOffloadPair - 1).toNat
    rw [targetsOf_modifyLink hq, map_eraseP_link, hpred]
    rwa [targetsOf_of_node hq] at hg'
  · show s.numOffloadPair - 1 ≤ maxOffloadPair
    rw [UInt8.le_iff_toNat_le]
    omega

theorem LinksAhead.counterpart : ∃ l' ∈ q.link, l'.peerPointer = a := by
  have hg := h.graph
  rw [map_cons] at hg
  obtain ⟨-, -, hmem, -⟩ := hg.unlinkHead
  rw [targetsOf_of_node hq] at hmem
  exact mem_map.mp hmem

end

theorem turnoffFrom_true (hc : s.clientInfo.node a = some c) (hs : LinksAhead s a ls)
    (h : turnoffFrom ops a ls s = some r) (hr : r.2) : LinkSound r.1.toLanTable ∧ targetsOf r.1.clientInfo a = [] := by
  induction ls generalizing s with
  | nil =>
    cases h
    have ht : targetsOf (s.modifyLink a fun _ => []).clientInfo =
        update (targetsOf s.clientInfo) a [] := targetsOf_modifyLink hc s.ifaces _
    refine ⟨⟨?_, hs.le_max⟩, ?_⟩
    · show LinkGraph (targetsOf (s.modifyLink a fun _ => []).clientInfo) s.numOffloadPair.toNat
      rw [ht]
      exact hs.graph
    · show targetsOf (s.modifyLink a fun _ => []).clientInfo a = []
      rw [ht, update_self]
  | cons _ _ ih =>
    obtain ⟨_, q, -, hq, ⟨hfalse, -⟩ | ⟨_, -, hself, -, -, h⟩⟩ := turnoffFrom_cons h
    · rw [hr] at hfalse
      simp at hfalse
    · refine ih ?_ (hs.next hq _) h
      exact (NodeMap.node_modify_of_ne _ _ _ fun h' => hself h'.symm).trans hc

theorem LinkSound.turnoff (h : LinkSound s.toLanTable) (hr : turnoffOffloadLinks ops s a = some r)
    (htrue : r.2) : LinkSound r.1.toLanTable ∧ targetsOf r.1.clientInfo a = [] := by
  simp only [turnoffOffloadLinks, bind_eq_bind, bind_eq_some_iff] at hr
  obtain ⟨c, hc, hr⟩ := hr
  exact turnoffFrom_true hc (h.ahead hc) hr htrue

theorem turnoffFrom_sublist (h : turnoffFrom ops a ls s = some r)
    (x : ℕ) : (targetsOf r.1.clientInfo x).Sublist (targetsOf s.clientInfo x) := by
  induction ls generalizing s with
  | nil =>
    cases h
    exact targetsOf_modifyLink_sublist (fun _ => nil_sublist _) x
  | cons _ _ ih =>
    obtain ⟨c, q, -, -, ⟨-, -, k, hk⟩ | ⟨_, -, -, -, -, h⟩⟩ := turnoffFrom_cons h
    · rw [hk]
      exact List.Sublist.refl _
    · exact (ih h).trans (targetsOf_modifyLink_sublist (s := s.withIfaces _) (fun _ => eraseP_sublist) x)

theorem turnoffOffloadLinks_sublist (h : turnoffOffloadLinks ops s a = some r) (x : ℕ) :
    (targetsOf r.1.clientInfo x).Sublist (targetsOf s.clientInfo x) := by
  simp only [turnoffOffloadLinks, bind_eq_bind, bind_eq_some_iff] at h
  obtain ⟨c, -, h⟩ := h
  exact turnoffFrom_sublist h x

theorem eraseLinkTo_sublist (h : eraseLinkTo ops s a b = some r) (x : ℕ) :
    (targetsOf r.1.clientInfo x).Sublist (targetsOf s.clientInfo x) := by
  obtain ⟨c, q, -, -, ⟨-, rfl⟩ | ⟨l, -, rfl⟩⟩ := eraseLinkTo_cases h
  · exact List.Sublist.refl _
  · exact targetsOf_modifyLink_sublist (s := s.withIfaces _) (fun _ => eraseP_sublist) x

theorem eraseOffloadLink_sublist (h : eraseOffloadLink ops s a b = some s') (x : ℕ) :
    (targetsOf s'.clientInfo x).Sublist (targetsOf s.clientInfo x) := by
  obtain ⟨r, _, hr, hr', rfl⟩ := eraseOffloadLink_cases h
  have hboth := (eraseLinkTo_sublist hr' x).trans (eraseLinkTo_sublist hr x)
  split <;> exact hboth

theorem eraseLinks_sublist {env : LanEnv A K κ} (h : eraseLinks env s a b = some s') (x : ℕ) :
    (targetsOf s'.clientInfo x).Sublist (targetsOf s.clientInfo x) := by
  obtain ⟨c, d, -, -, ⟨-, -, h⟩ | ⟨-, s1, h1, h2⟩⟩ := eraseLinks_cases h
  · exact eraseOffloadLink_sublist h x
  have hfirst : (targetsOf s1.clientInfo x).Sublist (targetsOf s.clientInfo x) := by
    obtain ⟨-, -, h1⟩ | ⟨-, rfl⟩ := h1
    · exact eraseOffloadLink_sublist h1 x
    · exact List.Sublist.refl _
  obtain ⟨-, -, h2⟩ | ⟨-, rfl⟩ := h2
  · exact (eraseOffloadLink_sublist h2 x).trans hfirst
  · exact hfirst

theorem addOffloadLink_targets (h : addOffloadLink ops s a b = some r) {x y : ℕ}
    (hy : y ∈ targetsOf r.1.clientInfo x) : y ∈ targetsOf s.clientInfo x ∨ x = a ∧ y = b := by
  cases hr : r.2 with
  | true =>
    rw [(addOffloadLink_true h hr).2.2] at hy
    by_cases hx : x = a
    · rw [hx, update_self] at hy
      rw [hx]
      simpa using hy
    · rw [update_of_ne hx] at hy
      exact .inl hy
  | false =>
    obtain ⟨k, hk⟩ := addOffloadLink_false h hr
    rw [hk] at hy
    exact .inl hy

/-- What `check_potential_link()` can add: links between the client and its active
peers. -/
theorem checkPotentialFrom_targets {peers : List PeerInfo} (h : checkPotentialFrom ops a peers s = some s') {x y : ℕ}
    (hy : y ∈ targetsOf s'.clientInfo x) :
    y ∈ targetsOf s.clientInfo x ∨ ∃ e ∈ peers, ∃ q, s.clientInfo.node e.peerPointer = some q ∧
      q.isActive ∧ (x = a ∧ y = e.peerPointer ∨ x = e.peerPointer ∧ y = a) := by
  induction peers generalizing s with
  | nil =>
    cases h
    exact .inl hy
  | cons e rest ih =>
    obtain ⟨q, hq, ⟨hact, -, r, r', hr, hr', h⟩ | ⟨-, h⟩⟩ := checkPotentialFrom_cons h
    · -- what the later turns add, and what this one does
      have hframe := (addOffloadLink_frame hr).trans (addOffloadLink_frame hr')
      have hturn : ∀ t : LanState A K κ, t.clientInfo = r'.1.clientInfo →
          checkPotentialFrom ops a rest t = some s' → y ∈ targetsOf s.clientInfo x ∨
            ∃ e' ∈ e :: rest, ∃ q, s.clientInfo.node e'.peerPointer = some q ∧ q.isActive = true ∧
              (x = a ∧ y = e'.peerPointer ∨ x = e'.peerPointer ∧ y = a) := by
        intro t ht h
        rcases ih h with hold | ⟨e', he', _, hq', hact', hxy⟩
        · rw [ht] at hold
          rcases addOffloadLink_targets hr' hold with hold | hxy
          · rcases addOffloadLink_targets hr hold with hold | hxy
            · exact .inl hold
            · exact .inr ⟨e, mem_cons_self .., q, hq, hact, Or.inl hxy⟩
          · exact .inr ⟨e, mem_cons_self .., q, hq, hact, Or.inr hxy⟩
        rw [ht] at hq'
        obtain ⟨q0, hq0, heq⟩ := hframe.node_some' hq'
        have hflag := congrArg ClientInfo.isActive heq
        exact .inr ⟨e', mem_cons_of_mem _ he', q0, hq0, hflag.trans hact', hxy⟩
      split at h
      · exact hturn (r'.1.withCount (r'.1.numOffloadPair + 1)) rfl h
      · exact hturn r'.1 rfl h
    · rcases ih h with hold | ⟨e', he', hrest⟩
      · exact .inl hold
      · exact .inr ⟨e', mem_cons_of_mem _ he', hrest⟩

theorem eraseOffloadLink_none (hr : eraseOffloadLink ops s a b = some s')
    (hab : b ∉ targetsOf s.clientInfo a) (hba : a ∉ targetsOf s.clientInfo b) : s' = s := by
  obtain ⟨r, _, h1, h2, rfl⟩ := eraseOffloadLink_cases hr
  have hnone : ∀ {x y : ℕ} {t : LanState A K κ × Bool}, eraseLinkTo ops s x y = some t →
      y ∉ targetsOf s.clientInfo x → t = (s, false) := by
    intro x y t ht hno
    obtain ⟨c, q, hc, -, ⟨-, rfl⟩ | ⟨l, hl, -⟩⟩ := eraseLinkTo_cases ht
    · rfl
    · refine absurd ?_ hno
      rw [targetsOf_of_node hc]
      exact mem_map.mpr ⟨l, mem_of_find?_eq_some hl, by simpa using find?_some hl⟩
  obtain rfl := hnone h1 hab
  obtain rfl := hnone h2 hba
  rfl

theorem eraseLinkTo_linked (h : eraseLinkTo ops s a b = some r) (hab : b ∈ targetsOf s.clientInfo a) :
    r.1.numOffloadPair = s.numOffloadPair ∧ targetsOf r.1.clientInfo =
      update (targetsOf s.clientInfo) a ((targetsOf s.clientInfo a).erase b) := by
  obtain ⟨c, q, hc, -, ⟨hno, -⟩ | ⟨l, -, rfl⟩⟩ := eraseLinkTo_cases h
  · rw [targetsOf_of_node hc] at hab
    obtain ⟨l, hl, hlb⟩ := mem_map.mp hab
    exact absurd hlb (hno l hl)
  · refine ⟨rfl, ?_⟩
    dsimp only
    rw [targetsOf_modifyLink hc, map_eraseP_link, targetsOf_of_node hc]

/-- All deletions for the two links of a pair succeed. -/
def ErasesBoth (ops : LanOps A κ) (s : LanState A K κ) (a b : ℕ) : Prop :=
  ∀ r r', eraseLinkTo ops s a b = some r → eraseLinkTo ops r.1 b a = some r' →
    r.2 = true ∧ r'.2 = true

theorem LinkSound.eraseLink (h : LinkSound s.toLanTable) (hr : eraseOffloadLink ops s a b = some s')
    (hok : b ∈ targetsOf s.clientInfo a → ErasesBoth ops s a b) :
    LinkSound s'.toLanTable ∧
      ∀ p q, q ∈ targetsOf s'.clientInfo p ↔ q ∈ targetsOf s.clientInfo p ∧
        ¬ (p = a ∧ q = b) ∧ ¬ (p = b ∧ q = a) := by
  by_cases hab : b ∈ targetsOf s.clientInfo a
  · have hne : a ≠ b := by
      rintro rfl
      exact h.graph.irrefl a hab
    obtain ⟨r, r', h1, h2, rfl⟩ := eraseOffloadLink_cases hr
    obtain ⟨ht, ht'⟩ := hok hab r r' h1 h2
    obtain ⟨hnum1, htar1⟩ := eraseLinkTo_linked h1 hab
    have hba : a ∈ targetsOf r.1.clientInfo b := by
      rw [htar1, update_of_ne hne.symm]
      exact h.graph.symm hab
    obtain ⟨hnum2, htar2⟩ := eraseLinkTo_linked h2 hba
    rw [htar1, update_of_ne hne.symm] at htar2
    obtain ⟨hpos, _⟩ := h.graph.unlink hab
    have hnum : r'.1.numOffloadPair = s.numOffloadPair := hnum2.trans hnum1
    have hpred : (s.numOffloadPair - 1).toNat = s.numOffloadPair.toNat - 1 := by
      have hone : (1 : UInt8) ≤ s.numOffloadPair := UInt8.le_iff_toNat_le.mpr hpos
      exact UInt8.toNat_sub_of_le _ _ hone
    have hle := UInt8.le_iff_toNat_le.mp h.le_max
    rw [ht, ht', Bool.and_self, if_pos rfl]
    refine ⟨⟨?_, ?_⟩, fun p q => ?_⟩
    · show LinkGraph (targetsOf r'.1.clientInfo) (r'.1.numOffloadPair - 1).toNat
      rwa [htar2, hnum, hpred]
    · show r'.1.numOffloadPair - 1 ≤ maxOffloadPair
      rw [UInt8.le_iff_toNat_le, hnum, hpred]
      omega
    · show q ∈ targetsOf r'.1.clientInfo p ↔ _
      rw [htar2]
      exact h.graph.mem_unlink
  have hba : a ∉ targetsOf s.clientInfo b := fun h' => hab (h.graph.symm h')
  obtain rfl := eraseOffloadLink_none hr hab hba
  refine ⟨h, fun p q => ⟨fun hq => ⟨hq, ?_, ?_⟩, fun hq => hq.1⟩⟩
  · rintro ⟨rfl, rfl⟩
    exact hab hq
  · rintro ⟨rfl, rfl⟩
    exact hba hq

/-- `handle_del_lan2lan_connection()` erases the links of two clients with these
flags. -/
def ErasesLinks (c d : ClientInfo A) : Prop :=
  c.isActive = true ∧ d.isActive = true ∨
    c.isPowersave = true ∧ (d.isActive = true ∨ d.isPowersave = true) ∨
    d.isPowersave = true ∧ (c.isActive = true ∨ c.isPowersave = true)

theorem LinkSound.eraseLinks {env : LanEnv A K κ} {p q : ℕ} {d : ClientInfo A}
    (hs : LinkSound s.toLanTable) (hc : s.clientInfo.node p = some c) (hd : s.clientInfo.node q = some d)
    (hok : ErasesLinks c d → q ∈ targetsOf s.clientInfo p →
      ErasesBoth env.toLanOps s p q ∧ ErasesBoth env.toLanOps s q p) (hr : eraseLinks env s p q = some s') :
    LinkSound s'.toLanTable ∧
      (∀ x y, y ∈ targetsOf s'.clientInfo x → y ∈ targetsOf s.clientInfo x) ∧
      (ErasesLinks c d → q ∉ targetsOf s'.clientInfo p) := by
  obtain ⟨_, _, hc', hd', h'⟩ := eraseLinks_cases hr
  cases hc.symm.trans hc'
  cases hd.symm.trans hd'
  obtain ⟨hact, hact', h⟩ | ⟨hact, s1, h1, h2⟩ := h'
  · obtain ⟨hs', htar⟩ := hs.eraseLink h fun hmem => (hok (.inl ⟨hact, hact'⟩) hmem).1
    exact ⟨hs', fun x y hy => ((htar x y).mp hy).1, fun _ hmem => ((htar p q).mp hmem).2.1 ⟨rfl, rfl⟩⟩
  obtain ⟨hps, hother, h1⟩ | ⟨hno1, rfl⟩ := h1
  · obtain ⟨hs1, htar1⟩ := hs.eraseLink h1 fun hmem =>
      (hok (.inr (.inl ⟨hps, hother⟩)) hmem).1
    have hgone : q ∉ targetsOf s1.clientInfo p := fun hmem =>
      ((htar1 p q).mp hmem).2.1 ⟨rfl, rfl⟩
    obtain ⟨-, -, h2⟩ | ⟨-, rfl⟩ := h2
    · -- the second time there is no link any more
      have hno : p ∉ targetsOf s1.clientInfo q := fun hmem =>
        ((htar1 q p).mp hmem).2.2 ⟨rfl, rfl⟩
      obtain ⟨hs', htar⟩ := hs1.eraseLink h2 fun hmem => absurd hmem hno
      exact ⟨hs', fun x y hy => ((htar1 x y).mp ((htar x y).mp hy).1).1, fun _ hmem =>
        hgone ((htar p q).mp hmem).1⟩
    · exact ⟨hs1, fun x y hy => ((htar1 x y).mp hy).1, fun _ => hgone⟩
  obtain ⟨hps, hother, h2⟩ | ⟨hno2, rfl⟩ := h2
  · obtain ⟨hs', htar⟩ := hs.eraseLink h2 fun hmem =>
      (hok (.inr (.inr ⟨hps, hother⟩)) (hs.graph.symm hmem)).2
    exact ⟨hs', fun x y hy => ((htar x y).mp hy).1, fun _ hmem =>
      ((htar p q).mp hmem).2.2 ⟨rfl, rfl⟩⟩
  refine ⟨hs, fun x y hy => hy, fun herase => ?_⟩
  rcases herase with h' | h' | h'
  · exact absurd h' hact
  · exact absurd h' hno1
  · exact absurd h' hno2

theorem addFltFrom_links {is : List ℕ} (h : addFltFrom ops a is s = some r) :
    targetsOf r.1.clientInfo = targetsOf s.clientInfo ∧ r.1.numOffloadPair = s.numOffloadPair := by
  induction is generalizing s with
  | nil =>
    cases h
    exact ⟨rfl, rfl⟩
  | cons _ _ ih =>
    obtain ⟨c, l, q, hc, -, -, ⟨-, rfl⟩ | ⟨_, _, s1, -, hs1, hq', h⟩⟩ := addFltFrom_cons h
    · exact ⟨rfl, rfl⟩
    have hone : targetsOf s1.clientInfo = targetsOf s.clientInfo := by
      rw [hs1, targetsOf_modifyLink hc, map_modify_setFlt, ← targetsOf_of_node hc]
      exact update_eq_self ..
    have hnum : s1.numOffloadPair = s.numOffloadPair := by
      rw [hs1]
      rfl
    obtain ⟨-, rfl⟩ | ⟨-, ⟨-, rfl⟩ | ⟨_, -, h⟩⟩ := h
    · exact ⟨hone, hnum⟩
    · exact ⟨hone, hnum⟩
    obtain ⟨ht, hn⟩ := ih h
    refine ⟨ht.trans ?_, hn.trans hnum⟩
    rw [targetsOf_modifyLink hq', map_setFltTo, ← targetsOf_of_node hq', ← hone]
    exact update_eq_self ..

/-! ### What keeps the links -/

/-- The links and the counter stay as they are. -/
def SameLinks (s s' : LanState A K κ) : Prop :=
  targetsOf s'.clientInfo = targetsOf s.clientInfo ∧ s'.numOffloadPair = s.numOffloadPair

theorem SameLinks.trans {s'' : LanState A K κ} (h : SameLinks s s') (h' : SameLinks s' s'') : SameLinks s s'' :=
  ⟨h'.1.trans h.1, h'.2.trans h.2⟩

theorem LinkSound.same (h : LinkSound s.toLanTable) (hs : SameLinks s s') : LinkSound s'.toLanTable where
  graph := by
    rw [hs.1, hs.2]
    exact h.graph
  le_max := by
    rw [hs.2]
    exact h.le_max

theorem sameLinks_modify (s : LanState A K κ) (p : ℕ) (f : ClientInfo A → ClientInfo A)
    (hf : ∀ c, (f c).link = c.link) : SameLinks s (s.modify p f) :=
  ⟨targetsOf_modify p f hf, rfl⟩

theorem PeerFrame.sameLinks (h : PeerFrame s s') : SameLinks s s' :=
  ⟨targetsOf_congr (h.map_node fun _ => rfl), h.count⟩

theorem sameLinks_addFlt (hr : addFltRules ops s a = some r) : SameLinks s r.1 := by
  simp only [addFltRules, bind_eq_bind, bind_eq_some_iff] at hr
  obtain ⟨c, -, hr⟩ := hr
  exact addFltFrom_links hr

end

/-! ### The property -/

/-- The pairs of clients of which one links to the other. -/
def linkedPairs (m : NodeMap K (ClientInfo A)) : Set (Sym2 ℕ) :=
  {e | ∃ p c l, m.node p = some c ∧ l ∈ c.link ∧ e = s(p, l.peerPointer)}

/-- No link leads to a client that is gone, no link is in one direction only, and
the counter is the number of linked pairs. -/
structure LinksConsistent (t : LanTable A K) : Prop where
  live : ∀ k p c l, t.clientInfo.find k = some p → t.clientInfo.node p = some c → l ∈ c.link →
    ∃ k', t.clientInfo.find k' = some l.peerPointer
  both : ∀ k k' p q c d, t.clientInfo.find k = some p → t.clientInfo.node p = some c →
    t.clientInfo.find k' = some q → t.clientInfo.node q = some d →
    (∃ l ∈ c.link, l.peerPointer = q) → ∃ l ∈ d.link, l.peerPointer = p
  count : t.numOffloadPair.toNat = (linkedPairs t.clientInfo).ncard

theorem edges_targetsOf (m : NodeMap K (ClientInfo A)) : edges (targetsOf m) = linkedPairs m := by
  ext e
  constructor
  · rintro ⟨p, q, rfl, hq⟩
    obtain ⟨c, hc⟩ := node_of_mem_targetsOf hq
    rw [targetsOf_of_node hc] at hq
    obtain ⟨l, hl, rfl⟩ := mem_map.mp hq
    exact ⟨p, c, l, hc, hl, rfl⟩
  rintro ⟨p, c, l, hc, hl, rfl⟩
  refine ⟨p, l.peerPointer, rfl, ?_⟩
  rw [targetsOf_of_node hc]
  exact mem_map_of_mem hl

theorem LinkSound.consistent {t : LanTable A K} (h : LinkSound t) : LinksConsistent t where
  live := fun _ p c l _ hc hl => by
    have hmem : l.peerPointer ∈ targetsOf t.clientInfo p := by
      rw [targetsOf_of_node hc]
      exact mem_map_of_mem hl
    obtain ⟨d, hd⟩ := node_of_mem_targetsOf (h.graph.symm hmem)
    exact t.clientInfo.node_find (by simp [hd])
  both := fun _ _ p q c d _ hc _ hd hl => by
    have hmem : q ∈ targetsOf t.clientInfo p := by
      rw [targetsOf_of_node hc]
      exact mem_map.mpr hl
    have hsym := h.graph.symm hmem
    rw [targetsOf_of_node hd] at hsym
    exact mem_map.mp hsym
  count := by rw [← edges_targetsOf, h.graph.card]

end G4Common.Ipacm

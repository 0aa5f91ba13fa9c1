/-
The slots of the interfaces through the functions that add and remove offload
links, with all calls of the kernel succeeding.

Links that go give back all that they hold (`SlotLinks.turnoff`,
`SlotLinks.eraseLinks`).  For new links it depends on the free slots: one direction
fits or is blocked, and a pair is made as a whole if both its directions fit
(`SlotLinks.addPair`).  `PotentialRoom` says this for all pairs that
`check_potential_link()` tries.
-/
import G4Common.Ipacm.LanOwner

namespace G4Common.Ipacm

open Function List Option

variable {A K κ ρ : Type}

/-! ### The links of a table as a function -/

/-- The interface and the address of the client at `p`. -/
def endOf (m : NodeMap K (ClientInfo A)) (p : ℕ) : Option (ℕ × A) :=
  (m.node p).map fun c => (c.pIface, c.ip)

/-- The links of the client at `p`. -/
def linksOf (m : NodeMap K (ClientInfo A)) (p : ℕ) : List OffloadLinkInfo :=
  ((m.node p).map ClientInfo.link).getD []

/-- The link from one client to another. -/
def linkFor (L : ℕ → List OffloadLinkInfo) (x : ℕ × ℕ) : Option OffloadLinkInfo :=
  (L x.1).find? fun l => l.peerPointer = x.2

section

variable {m : NodeMap K (ClientInfo A)} {L : ℕ → List OffloadLinkInfo} {a b p : ℕ}
  {l : OffloadLinkInfo} {c : ClientInfo A}

theorem linksOf_of_node (h : m.node p = some c) : linksOf m p = c.link := by
  simp [linksOf, h]

theorem endOf_of_node (h : m.node p = some c) : endOf m p = some (c.pIface, c.ip) := by
  simp [endOf, h]

theorem map_linksOf (m : NodeMap K (ClientInfo A)) (p : ℕ) :
    (linksOf m p).map OffloadLinkInfo.peerPointer = targetsOf m p := by
  unfold linksOf targetsOf
  cases m.node p with
  | none | some => rfl

theorem linkFor_eq_none : linkFor L (a, b) = none ↔ b ∉ (L a).map OffloadLinkInfo.peerPointer := by
  simp [linkFor]

theorem mem_of_linkFor (h : linkFor L (a, b) = some l) : l ∈ L a ∧ l.peerPointer = b :=
  ⟨mem_of_find?_eq_some h, by simpa using find?_some h⟩

theorem linkFor_of_mem (hnd : ((L a).map OffloadLinkInfo.peerPointer).Nodup) (hl : l ∈ L a) :
    linkFor L (a, l.peerPointer) = some l := by
  obtain ⟨_, _, hL⟩ := append_of_mem hl
  unfold linkFor
  dsimp only
  rw [hL] at hnd ⊢
  rw [map_append, map_cons, nodup_middle, ← map_append] at hnd
  rw [find?_append, or_eq_right_of_none]
  · simp
  rw [find?_eq_none]
  intro l' hl' heq
  exact (nodup_cons.mp hnd).1 (mem_map.mpr ⟨l', mem_append_left _ hl', by simpa using heq⟩)

theorem linkFor_append (hno : l.peerPointer ∉ (L a).map OffloadLinkInfo.peerPointer) :
    linkFor (update L a (L a ++ [l])) =
      update (linkFor L) (a, l.peerPointer) (some l) := by
  funext x
  obtain ⟨x, y⟩ := x
  by_cases hx : x = a
  · subst hx
    by_cases hy : y = l.peerPointer
    · subst hy
      rw [update_self]
      have hnone := linkFor_eq_none.mpr hno
      unfold linkFor at hnone ⊢
      dsimp only at hnone ⊢
      rw [update_self, find?_append, hnone]
      simp
    · rw [update_of_ne (by simp [hy])]
      have hne : ¬ l.peerPointer = y := fun h' => hy h'.symm
      simp [linkFor, find?_append, hne]
  · rw [update_of_ne (by simp [hx])]
    simp [linkFor, hx]

theorem linkFor_eraseP (hnd : ((L a).map OffloadLinkInfo.peerPointer).Nodup) (b : ℕ) :
    linkFor (update L a ((L a).eraseP fun l => l.peerPointer = b)) =
      update (linkFor L) (a, b) none := by
  funext x
  obtain ⟨x, y⟩ := x
  by_cases hx : x = a
  · subst hx
    by_cases hy : y = b
    · subst hy
      rw [update_self, linkFor_eq_none, update_self, map_eraseP_link]
      exact hnd.not_mem_erase
    rw [update_of_ne (by simp [hy])]
    unfold linkFor
    dsimp only
    rw [update_self]
    generalize L x = ls
    induction ls with
    | nil => rfl
    | cons l _ ih =>
      by_cases hl : l.peerPointer = b
      · have hne : ¬ b = y := fun h' => hy h'.symm
        simp [hl, hne]
      · by_cases hly : l.peerPointer = y
        · simp [hly, hy]
        · simp [hl, hly, ih]
  · rw [update_of_ne (by simp [hx])]
    simp [linkFor, hx]

end

theorem PoolOwned.ends {E E' : ℕ → Option (ℕ × A)} {F : ℕ × ℕ → Option OffloadLinkInfo}
    {pool : ℕ → LanPool A} (h : PoolOwned E F pool)
    (hE : ∀ x l, F x = some l → E' x.1 = E x.1 ∧ E' x.2 = E x.2) : PoolOwned E' F pool := by
  have hflt : fltHeld E' F = fltHeld E F := by
    funext i x
    unfold fltHeld
    cases hx : F x with
    | none => simp
    | some l => rw [(hE x l hx).1]
  have hhdr : hdrHeld E' F = hdrHeld E F := by
    funext i x
    unfold hdrHeld
    cases hx : F x with
    | none => simp
    | some l => rw [(hE x l hx).2]
  refine ⟨⟨h.flt.nodup, h.flt.length, h.flt.num, hflt ▸ h.flt.owns, ?_⟩,
    ⟨h.hdr.distinct, h.hdr.length, hhdr ▸ h.hdr.holds⟩, h.good⟩
  intro x l i j a b hl hi hj
  rw [(hE x l hl).1] at hi
  rw [(hE x l hl).2] at hj
  exact h.flt.rule x l i j a b hl hi hj

/-! ### Calls through a part of the state -/

section

variable {σ : Type} (part : PartOf κ σ ρ) (ops : LanOps A σ)

theorem addLinkRules_through (k : κ) (c q : ClientInfo A) (b : ℕ) :
    part.get (addLinkRules (ops.through part) k c q b).1 =
        (addLinkRules ops (part.get k) c q b).1 ∧
      part.rest (addLinkRules (ops.through part) k c q b).1 = part.rest k ∧
      (addLinkRules (ops.through part) k c q b).2 = (addLinkRules ops (part.get k) c q b).2 := by
  unfold addLinkRules
  simp only [LanOps.through, Prod.map_fst, Prod.map_snd, id, part.get_set]
  cases (ops.addHdr (part.get k) q.pIface c.macAddr q.macAddr).2 with
  | none => exact ⟨part.get_set .., part.rest_set .., rfl⟩
  | some g =>
    dsimp only
    cases (ops.addRt (ops.addHdr (part.get k) q.pIface c.macAddr q.macAddr).1 q.pIface c.ip q.ip g).2 with
    | none => simp [part.get_set, part.rest_set]
    | some =>
      dsimp only
      cases (ops.addFlt (ops.addRt (ops.addHdr (part.get k) q.pIface c.macAddr q.macAddr).1
          q.pIface c.ip q.ip g).1 c.pIface c.ip q.ip).2 with
      | none => simp [part.get_set, part.rest_set]
      | some => simp [part.get_set, part.rest_set]

theorem delOffloadLink_through (k : κ) (i j : ℕ) (l : OffloadLinkInfo) :
    part.get (delOffloadLink (ops.through part) k i j l).1 =
        (delOffloadLink ops (part.get k) i j l).1 ∧
      part.rest (delOffloadLink (ops.through part) k i j l).1 = part.rest k ∧
      (delOffloadLink (ops.through part) k i j l).2 = (delOffloadLink ops (part.get k) i j l).2 := by
  unfold delOffloadLink
  simp only [LanOps.through, Prod.map_fst, Prod.map_snd, id, part.get_set, part.rest_set]
  exact ⟨trivial, trivial, trivial⟩

end

/-! ### The links and their slots -/

/-- The links are told apart by their target, the slots are those of the links, and
the rest of the interfaces is `r`. -/
structure SlotLinks (part : PartOf κ (LanIfaces A) ρ) (r : ρ) (s : LanState A K κ) : Prop where
  nodup : ∀ p, (targetsOf s.clientInfo p).Nodup
  owned : PoolOwned (endOf s.clientInfo) (linkFor (linksOf s.clientInfo)) (part.get s.ifaces).pool
  rest : part.rest s.ifaces = r

section

variable {part : PartOf κ (LanIfaces A) ρ} {rest : ρ} {props : IfaceProps} {s s' : LanState A K κ}
  {a b : ℕ} {r : LanState A K κ × Bool}

theorem LinkFrame.endOf_eq (h : LinkFrame s s') : endOf s'.clientInfo = endOf s.clientInfo :=
  funext fun p => h.map_node (fun _ => rfl) p

theorem linksOf_modifyLink {c : ClientInfo A} (hc : s.clientInfo.node a = some c) (k : κ)
    (f : List OffloadLinkInfo → List OffloadLinkInfo) :
    linksOf ((s.withIfaces k).modifyLink a f).clientInfo =
      update (linksOf s.clientInfo) a (f c.link) := by
  funext p
  by_cases hp : p = a
  · subst hp
    rw [update_self]
    simp [linksOf, LanState.modifyLink, LanState.modify, LanState.withIfaces, hc]
  · rw [update_of_ne hp]
    simp [linksOf, LanState.modifyLink, LanState.modify, LanState.withIfaces, NodeMap.node_modify_of_ne _ _ _ hp]

theorem delOffloadLink_slots (props : IfaceProps) {k : κ} {E : ℕ → Option (ℕ × A)} {F : ℕ × ℕ → Option OffloadLinkInfo}
    {l : OffloadLinkInfo} {i j : ℕ} {x y : A} (h : PoolOwned E F (part.get k).pool)
    (hF : F (a, b) = some l) (hi : E a = some (i, x)) (hj : E b = some (j, y)) :
    (delOffloadLink ((lan2LanOps props).through part) k i j l).2 ∧
      part.rest (delOffloadLink ((lan2LanOps props).through part) k i j l).1 = part.rest k ∧
      PoolOwned E (update F (a, b) none)
        (part.get (delOffloadLink ((lan2LanOps props).through part) k i j l).1).pool := by
  obtain ⟨hget, hrest, hres⟩ := delOffloadLink_through part (lan2LanOps props) k i j l
  obtain ⟨htrue, howned⟩ := delOffloadLink_owned props h hF hi hj
  rw [hget, hres]
  exact ⟨htrue, hrest, howned⟩

/-- The loop of `turnoff_offload_links()`: the slots are those of the links that are
still ahead, and of the other clients. -/
theorem turnoffFrom_owned {ls : List OffloadLinkInfo} {c : ClientInfo A}
    (hc : s.clientInfo.node a = some c) (hs : LinksAhead s a ls)
    (ho : PoolOwned (endOf s.clientInfo) (linkFor (update (linksOf s.clientInfo) a ls))
      (part.get s.ifaces).pool) (hrest : part.rest s.ifaces = rest)
    (h : turnoffFrom ((lan2LanOps props).through part) a ls s = some r) :
    r.2 ∧ part.rest r.1.ifaces = rest ∧
      PoolOwned (endOf r.1.clientInfo) (linkFor (linksOf r.1.clientInfo)) (part.get r.1.ifaces).pool := by
  induction ls generalizing s with
  | nil =>
    cases h
    have hlinks : linksOf (s.modifyLink a fun _ => []).clientInfo =
        update (linksOf s.clientInfo) a [] := linksOf_modifyLink hc s.ifaces _
    refine ⟨rfl, hrest, ?_⟩
    show PoolOwned (endOf (s.modifyLink a fun _ => []).clientInfo)
      (linkFor (linksOf (s.modifyLink a fun _ => []).clientInfo)) (part.get s.ifaces).pool
    rw [hlinks, (LinkFrame.modifyLink s a _).endOf_eq]
    exact ho
  | cons l ls ih =>
    have hnd := hs.graph.nodup a
    rw [update_self] at hnd
    have hne : l.peerPointer ≠ a := fun heq => hs.graph.irrefl a (by
      rw [update_self, ← heq]
      exact mem_map_of_mem (mem_cons_self ..))
    obtain ⟨_, q, hc', hq, h'⟩ := turnoffFrom_cons h
    cases hc.symm.trans hc'
    -- the link of the client
    have hl : linkFor (update (linksOf s.clientInfo) a (l :: ls)) (a, l.peerPointer) =
        some l := by
      refine linkFor_of_mem ?_ ?_
      · rwa [update_self]
      · rw [update_self]
        exact mem_cons_self ..
    obtain ⟨ht1, hrest1, ho1⟩ := delOffloadLink_slots props ho hl (endOf_of_node hc)
      (endOf_of_node hq)
    rw [← linkFor_eraseP (by rwa [update_self]), update_idem,
      update_self, eraseP_cons_of_pos (by simp)] at ho1
    -- and its counterpart
    have hnd' : ((update (linksOf s.clientInfo) a ls l.peerPointer).map
        OffloadLinkInfo.peerPointer).Nodup := by
      have htar := hs.graph.nodup l.peerPointer
      rw [update_of_ne hne, ← map_linksOf] at htar
      rwa [update_of_ne hne]
    have hback : ∀ l' ∈ q.link, l'.peerPointer = a →
        linkFor (update (linksOf s.clientInfo) a ls) (l.peerPointer, a) = some l' := by
      rintro l' hl' rfl
      refine linkFor_of_mem hnd' ?_
      rwa [update_of_ne hne, linksOf_of_node hq]
    obtain ⟨-, hfail, -⟩ | ⟨l', hl', -, -, -, h⟩ := h'
    · exfalso
      rcases hfail with hfail | hfail | ⟨l', hl', heq, hfail⟩
      · rw [ht1] at hfail
        exact nomatch hfail
      · obtain ⟨l', hl', heq⟩ := hs.counterpart hq
        exact hfail l' hl' heq
      obtain ⟨ht2, -, -⟩ := delOffloadLink_slots props ho1 (hback l' hl' heq)
        (endOf_of_node hq) (endOf_of_node hc)
      rw [ht2] at hfail
      exact nomatch hfail
    obtain ⟨-, hrest2, ho2⟩ := delOffloadLink_slots props ho1
      (hback l' (mem_of_find?_eq_some hl') (by simpa using find?_some hl'))
      (endOf_of_node hq) (endOf_of_node hc)
    refine ih ?_ (hs.next hq _) ?_ (hrest2.trans (hrest1.trans hrest)) h
    · exact (NodeMap.node_modify_of_ne _ _ _ hne.symm).trans hc
    have hlinks := @linksOf_modifyLink A K κ s l.peerPointer q hq
    have hframe := fun k => (LinkFrame.withIfaces s k).trans
      (LinkFrame.modifyLink _ l.peerPointer (eraseP fun l' => l'.peerPointer = a))
    show PoolOwned (endOf (LanState.modifyLink _ _ _).clientInfo)
      (linkFor (update (linksOf (LanState.modifyLink _ _ _).clientInfo) a ls)) _
    rw [hlinks, (hframe _).endOf_eq, update_comm hne]
    rwa [← linkFor_eraseP hnd', update_of_ne hne, linksOf_of_node hq] at ho2

section

variable (h : SlotLinks part rest s)
include h

theorem SlotLinks.turnoff (hs : LinkSound s.toLanTable)
    (hr : turnoffOffloadLinks ((lan2LanOps props).through part) s a = some r) : r.2 ∧ SlotLinks part rest r.1 := by
  have hnd := fun p => (h.nodup p).sublist (turnoffOffloadLinks_sublist hr p)
  simp only [turnoffOffloadLinks, bind_eq_bind, bind_eq_some_iff] at hr
  obtain ⟨c, hc, hr⟩ := hr
  obtain ⟨htrue, hrest, howned⟩ := turnoffFrom_owned hc (hs.ahead hc) (by
    rw [← linksOf_of_node hc, update_eq_self]
    exact h.owned) h.rest hr
  exact ⟨htrue, hnd, howned, hrest⟩

theorem SlotLinks.eraseLinkTo (hr : Ipacm.eraseLinkTo ((lan2LanOps props).through part) s a b = some r) :
    SlotLinks part rest r.1 ∧ (b ∈ targetsOf s.clientInfo a → r.2) := by
  have hnd := fun p => (h.nodup p).sublist (eraseLinkTo_sublist hr p)
  have hframe := eraseLinkTo_frame hr
  obtain ⟨c, q, hc, hq, ⟨hno, rfl⟩ | ⟨l, hl, rfl⟩⟩ := eraseLinkTo_cases hr
  · refine ⟨h, fun hmem => ?_⟩
    rw [targetsOf_of_node hc] at hmem
    obtain ⟨l, hl, hlb⟩ := mem_map.mp hmem
    exact absurd hlb (hno l hl)
  have hF : linkFor (linksOf s.clientInfo) (a, b) = some l := by
    rw [linkFor, linksOf_of_node hc]
    exact hl
  obtain ⟨htrue, hrest, howned⟩ := delOffloadLink_slots props h.owned hF (endOf_of_node hc) (endOf_of_node hq)
  refine ⟨⟨hnd, ?_, hrest.trans h.rest⟩, fun _ => htrue⟩
  rw [hframe.endOf_eq]
  dsimp only
  rw [linksOf_modifyLink hc, ← linksOf_of_node hc, linkFor_eraseP]
  · exact howned
  · rw [map_linksOf]
    exact h.nodup a

theorem SlotLinks.eraseOffloadLink (hr : Ipacm.eraseOffloadLink ((lan2LanOps props).through part) s a b = some s') :
    SlotLinks part rest s' := by
  obtain ⟨r, _, h1, h2, rfl⟩ := eraseOffloadLink_cases hr
  have hboth := ((h.eraseLinkTo h1).1.eraseLinkTo h2).1
  split
  · exact ⟨hboth.nodup, hboth.owned, hboth.rest⟩
  · exact hboth

theorem SlotLinks.erasesBoth (hs : LinkSound s.toLanTable) (hab : b ∈ targetsOf s.clientInfo a) :
    ErasesBoth ((lan2LanOps props).through part) s a b := by
  intro r _ h1 h2
  have hne : b ≠ a := by
    rintro rfl
    exact hs.graph.irrefl b hab
  obtain ⟨h', htrue⟩ := h.eraseLinkTo h1
  refine ⟨htrue hab, (h'.eraseLinkTo h2).2 ?_⟩
  rw [(eraseLinkTo_linked h1 hab).2, update_of_ne hne]
  exact hs.graph.symm hab

end

theorem SlotLinks.eraseLinks {env : LanEnv A K κ}
    (henv : env.toLanOps = (lan2LanOps props).through part) (h : SlotLinks part rest s)
    (hr : Ipacm.eraseLinks env s a b = some s') : SlotLinks part rest s' := by
  obtain ⟨c, d, -, -, ⟨-, -, hr⟩ | ⟨-, s1, h1, h2⟩⟩ := eraseLinks_cases hr
  · rw [henv] at hr
    exact h.eraseOffloadLink hr
  rw [henv] at h1 h2
  have hfirst : SlotLinks part rest s1 := by
    obtain ⟨-, -, h1⟩ | ⟨-, rfl⟩ := h1
    · exact h.eraseOffloadLink h1
    · exact h
  obtain ⟨-, -, h2⟩ | ⟨-, rfl⟩ := h2
  · exact hfirst.eraseOffloadLink h2
  · exact hfirst

theorem SlotLinks.change (h : SlotLinks part rest s) (hs : LinkSound s.toLanTable)
    (hk : s'.ifaces = s.ifaces) (hlinks : linksOf s'.clientInfo = linksOf s.clientInfo)
    (hend : ∀ x, x ≠ a → endOf s'.clientInfo x = endOf s.clientInfo x)
    (hnil : targetsOf s.clientInfo a = []) : SlotLinks part rest s' where
  nodup := fun p => by
    rw [← map_linksOf, hlinks, map_linksOf]
    exact h.nodup p
  owned := by
    rw [hlinks, hk]
    refine h.owned.ends fun x l hl => ?_
    -- neither end of a link is the client
    have hmem : x.2 ∈ targetsOf s.clientInfo x.1 := by
      obtain ⟨hl, hx⟩ := mem_of_linkFor hl
      rw [← map_linksOf, ← hx]
      exact mem_map_of_mem hl
    refine ⟨hend _ fun hx => ?_, hend _ fun hx => ?_⟩
    · rw [hx, hnil] at hmem
      exact not_mem_nil hmem
    · have hsymm := hs.graph.symm hmem
      rw [hx, hnil] at hsymm
      exact not_mem_nil hsymm
  rest := by
    rw [hk]
    exact h.rest

theorem SlotLinks.same (h : SlotLinks part rest s) (hk : s'.ifaces = s.ifaces)
    (hlinks : linksOf s'.clientInfo = linksOf s.clientInfo)
    (hend : endOf s'.clientInfo = endOf s.clientInfo) : SlotLinks part rest s' where
  nodup := fun p => by
    rw [← map_linksOf, hlinks, map_linksOf]
    exact h.nodup p
  owned := by
    rw [hlinks, hk, hend]
    exact h.owned
  rest := by
    rw [hk]
    exact h.rest

end

/-! ### New links -/

/-- The interface of the client at `p`. -/
def ifaceOf (m : NodeMap K (ClientInfo A)) (p : ℕ) : ℕ :=
  ((m.node p).map ClientInfo.pIface).getD 0

/-- Both directions of a pair between the interfaces `i` and `j` can be made, with
these free slots. -/
structure PairFits (props : IfaceProps) (ff hf : ℕ → ℕ) (i j : ℕ) : Prop where
  first : DirFits props ff hf i j
  second : DirFits props (takeOne ff i) (takeOne hf j) j i

/-- `check_potential_link()` for the client at `a`, with `num` pairs and these free
slots: for each active peer that it tries, either both directions are refused, or
the peer is another client and both are made. -/
def PotentialRoom (props : IfaceProps) (m : NodeMap K (ClientInfo A)) (a : ℕ) :
    List PeerInfo → UInt8 → (ℕ → ℕ) → (ℕ → ℕ) → Prop
  | [], _, _, _ => True
  | e :: rest, num, ff, hf =>
    let i := ifaceOf m a
    let j := ifaceOf m e.peerPointer
    if (m.node e.peerPointer).any ClientInfo.isActive = true ∧ 0 < e.numConnection ∧
        num < maxOffloadPair then
      DirBlocked props ff hf i j ∧ DirBlocked props ff hf j i ∧
          PotentialRoom props m a rest num ff hf ∨
        e.peerPointer ≠ a ∧ PairFits props ff hf i j ∧
          PotentialRoom props m a rest (num + 1) (takeOne (takeOne ff i) j) (takeOne (takeOne hf j) i)
    else PotentialRoom props m a rest num ff hf

section

variable {part : PartOf κ (LanIfaces A) ρ} {rest : ρ} {props : IfaceProps} {s s' : LanState A K κ}
  {a b : ℕ} {c q : ClientInfo A} {r : LanState A K κ × Bool}

def fltRoom (part : PartOf κ (LanIfaces A) ρ) (s : LanState A K κ) : ℕ → ℕ :=
  fltFree (part.get s.ifaces)

def hdrRoom (part : PartOf κ (LanIfaces A) ρ) (s : LanState A K κ) : ℕ → ℕ :=
  hdrFree (part.get s.ifaces)

theorem ifaceOf_of_node (h : s.clientInfo.node a = some c) : ifaceOf s.clientInfo a = c.pIface := by
  simp [ifaceOf, h]

theorem LinkFrame.ifaceOf_eq (h : LinkFrame s s') (p : ℕ) : ifaceOf s'.clientInfo p = ifaceOf s.clientInfo p := by
  unfold ifaceOf
  rw [h.map_node fun _ => rfl]

section

variable (h : SlotLinks part rest s) (hc : s.clientInfo.node a = some c)
    (hq : s.clientInfo.node b = some q)
include h hc hq

theorem SlotLinks.add_fits (hno : b ∉ targetsOf s.clientInfo a) (hroom : s.numOffloadPair < maxOffloadPair)
    (hfit : DirFits props (fltRoom part s) (hdrRoom part s) c.pIface q.pIface)
    (hr : addOffloadLink ((lan2LanOps props).through part) s a b = some r) :
    r.2 ∧ SlotLinks part rest r.1 ∧ fltRoom part r.1 = takeOne (fltRoom part s) c.pIface ∧
      hdrRoom part r.1 = takeOne (hdrRoom part s) q.pIface := by
  have hnone : linkFor (linksOf s.clientInfo) (a, b) = none := by
    rw [linkFor_eq_none, map_linksOf]
    exact hno
  obtain ⟨l, hl, howned, hff, hhf⟩ := addLinkRules_fits h.owned (endOf_of_node hc)
    (endOf_of_node hq) hnone hfit
  obtain ⟨hget, hrest, hres⟩ := addLinkRules_through part (lan2LanOps props) s.ifaces c q b
  rw [hl] at hres
  have hpeer := addLinkRules_peer hres
  obtain ⟨hfull, -⟩ | ⟨-, _, _, hc', hq', h'⟩ := addOffloadLink_cases hr
  · exact absurd hfull (UInt8.not_le.mpr hroom)
  cases hc.symm.trans hc'
  cases hq.symm.trans hq'
  obtain ⟨hno', -⟩ | ⟨_, hl', rfl⟩ := h'
  · rw [hres] at hno'
    exact nomatch hno'
  cases hres.symm.trans hl'
  refine ⟨rfl, ⟨fun p => ?_, ?_, hrest.trans h.rest⟩, ?_, ?_⟩
  · dsimp only
    rw [targetsOf_modifyLink hc]
    by_cases hp : p = a
    · rw [hp, update_self, map_append, ← targetsOf_of_node hc, map_singleton,
        hpeer]
      exact nodup_append.mpr ⟨h.nodup a, nodup_singleton b, fun x hx y hy heq =>
        hno (mem_singleton.mp hy ▸ heq ▸ hx)⟩
    · rw [update_of_ne hp]
      exact h.nodup p
  · rw [(addOffloadLink_frame hr).endOf_eq]
    dsimp only
    rw [linksOf_modifyLink hc, ← linksOf_of_node hc, linkFor_append, hpeer]
    · show PoolOwned _ _ (part.get (addLinkRules _ s.ifaces c q b).1).pool
      rw [hget]
      exact howned
    · rw [map_linksOf, hpeer]
      exact hno
  · show fltFree (part.get (addLinkRules _ s.ifaces c q b).1) = _
    rw [hget]
    exact hff
  · show hdrFree (part.get (addLinkRules _ s.ifaces c q b).1) = _
    rw [hget]
    exact hhf

theorem SlotLinks.add_blocked (hblk : DirBlocked props (fltRoom part s) (hdrRoom part s) c.pIface q.pIface)
    (hr : addOffloadLink ((lan2LanOps props).through part) s a b = some r) :
    r.2 = false ∧ SlotLinks part rest r.1 ∧ fltRoom part r.1 = fltRoom part s ∧
      hdrRoom part r.1 = hdrRoom part s := by
  obtain ⟨-, rfl⟩ | ⟨-, _, _, hc', hq', h'⟩ := addOffloadLink_cases hr
  · exact ⟨rfl, h, rfl, rfl⟩
  cases hc.symm.trans hc'
  cases hq.symm.trans hq'
  obtain ⟨hl, howned, hff, hhf⟩ := addLinkRules_blocked (b := b) h.owned hblk
  obtain ⟨hget, hrest, hres⟩ := addLinkRules_through part (lan2LanOps props) s.ifaces c q b
  rw [hl] at hres
  rw [← hget] at howned hff hhf
  obtain ⟨-, rfl⟩ | ⟨_, hl', -⟩ := h'
  · exact ⟨rfl, ⟨h.nodup, howned, hrest.trans h.rest⟩, hff, hhf⟩
  · rw [hres] at hl'
    exact nomatch hl'

end

theorem SlotLinks.addPair (h : SlotLinks part rest s) (hs : LinkSound s.toLanTable)
    (hc : s.clientInfo.node a = some c) (hq : s.clientInfo.node b = some q) (hne : a ≠ b)
    (hno : b ∉ targetsOf s.clientInfo a) (hroom : s.numOffloadPair < maxOffloadPair)
    (hfit : PairFits props (fltRoom part s) (hdrRoom part s) c.pIface q.pIface) {r1 r2 : LanState A K κ × Bool}
    (h1 : addOffloadLink ((lan2LanOps props).through part) s a b = some r1)
    (h2 : addOffloadLink ((lan2LanOps props).through part) r1.1 b a = some r2) :
    r1.2 ∧ r2.2 ∧ SlotLinks part rest r2.1 ∧
      fltRoom part r2.1 = takeOne (takeOne (fltRoom part s) c.pIface) q.pIface ∧
      hdrRoom part r2.1 = takeOne (takeOne (hdrRoom part s) q.pIface) c.pIface := by
  obtain ⟨ht1, hl1, hff1, hhf1⟩ := h.add_fits hc hq hno hroom hfit.first h1
  -- the second direction, from the other client
  obtain ⟨c', hc', hceq⟩ := (addOffloadLink_frame h1).node_some hc
  obtain ⟨q', hq', hqeq⟩ := (addOffloadLink_frame h1).node_some hq
  have hci := congrArg ClientInfo.pIface hceq
  have hqi := congrArg ClientInfo.pIface hqeq
  change c'.pIface = c.pIface at hci
  change q'.pIface = q.pIface at hqi
  obtain ⟨-, hnum, htar⟩ := addOffloadLink_true h1 ht1
  have hno' : a ∉ targetsOf r1.1.clientInfo b := by
    rw [htar, update_of_ne hne.symm]
    exact fun hmem => hno (hs.graph.symm hmem)
  obtain ⟨ht2, hl2, hff2, hhf2⟩ := hl1.add_fits hq' hc' hno' (hnum ▸ hroom) (by
    rw [hff1, hhf1, hci, hqi]
    exact hfit.second) h2
  rw [hff1, hqi] at hff2
  rw [hhf1, hci] at hhf2
  exact ⟨ht1, ht2, hl2, hff2, hhf2⟩

theorem checkPotentialFrom_slots {s₀ : LanState A K κ} {peers : List PeerInfo}
    (hl : SlotLinks part rest s) (hs : LinkSound s.toLanTable) (hframe : LinkFrame s₀ s)
    (hc : s.clientInfo.node a = some c) (hnd : (peers.map PeerInfo.peerPointer).Nodup)
    (htar : ∀ e ∈ peers, e.peerPointer ∉ targetsOf s.clientInfo a)
    (hok : PotentialRoom props s₀.clientInfo a peers s.numOffloadPair (fltRoom part s) (hdrRoom part s))
    (h : checkPotentialFrom ((lan2LanOps props).through part) a peers s = some s') :
    LinkSound s'.toLanTable ∧ SlotLinks part rest s' := by
  induction peers generalizing s c with
  | nil =>
    cases h
    exact ⟨hs, hl⟩
  | cons e peers ih =>
    rw [map_cons, nodup_cons] at hnd
    have htar' : ∀ e' ∈ peers, e'.peerPointer ∉ targetsOf s.clientInfo a := fun e' he' =>
      htar e' (mem_cons_of_mem _ he')
    obtain ⟨q, hq, h'⟩ := checkPotentialFrom_cons h
    obtain ⟨q0, hq0, hqeq⟩ := hframe.node_some' hq
    have hflag := congrArg ClientInfo.isActive hqeq
    change q0.isActive = q.isActive at hflag
    have hi : ifaceOf s₀.clientInfo a = c.pIface := by
      rw [← hframe.ifaceOf_eq, ifaceOf_of_node hc]
    have hj : ifaceOf s₀.clientInfo e.peerPointer = q.pIface := by
      rw [← hframe.ifaceOf_eq, ifaceOf_of_node hq]
    simp only [PotentialRoom, hq0, any_some, hflag, hi, hj] at hok
    obtain ⟨hact, hpos, r, r', hr, hr', h⟩ | ⟨hskip, h⟩ := h'
    · by_cases hroom : s.numOffloadPair < maxOffloadPair
      · rw [if_pos ⟨hact, hpos, hroom⟩] at hok
        have hframe1 := addOffloadLink_frame hr
        have hframe2 := hframe1.trans (addOffloadLink_frame hr')
        obtain ⟨_, hc2, _⟩ := hframe2.node_some hc
        rcases hok with ⟨hblk, _, hok⟩ | ⟨hne, hfit, hok⟩
        · -- both directions are refused
          obtain ⟨hf1, hl1, hff1, hhf1⟩ := hl.add_blocked hc hq hblk hr
          obtain ⟨k, hk⟩ := addOffloadLink_false hr hf1
          obtain ⟨hf2, hl2, hff2, hhf2⟩ := hl1.add_blocked (c := q) (q := c)
            (by rw [hk]; exact hq) (by rw [hk]; exact hc) (by rwa [hff1, hhf1]) hr'
          obtain ⟨_, hk'⟩ := addOffloadLink_false hr' hf2
          have hsame : SameLinks s r'.1 := by
            rw [hk', hk]
            exact ⟨rfl, rfl⟩
          rw [hf2, if_neg (by simp)] at h
          refine ih hl2 (hs.same hsame) (hframe.trans hframe2) hc2 hnd.2 ?_ ?_ h
          · rw [hsame.1]
            exact htar'
          · rw [hsame.2, hff2, hhf2, hff1, hhf1]
            exact hok
        have hno := htar e (mem_cons_self ..)
        obtain ⟨ht1, ht2, hl2, hff2, hhf2⟩ := hl.addPair hs hc hq hne.symm hno hroom hfit hr hr'
        obtain ⟨hs2, hnum, htargets⟩ := hs.addPair hr ht1 hr' ht2 hne.symm hno
        rw [ht2, if_pos rfl] at h
        have hl3 : SlotLinks part rest (r'.1.withCount (r'.1.numOffloadPair + 1)) :=
          ⟨hl2.nodup, hl2.owned, hl2.rest⟩
        refine ih hl3 hs2 ((hframe.trans hframe2).trans (LinkFrame.withCount _ _)) hc2 hnd.2 ?_ ?_ h
        · -- the pair just made is of another peer
          intro e' he' hmem
          rcases (htargets a _).mp hmem with hmem | ⟨-, heq⟩ | ⟨heq, -⟩
          · exact htar' e' he' hmem
          · exact hnd.1 (mem_map.mpr ⟨e', he', heq⟩)
          · exact hne heq.symm
        show PotentialRoom props _ a peers (r'.1.numOffloadPair + 1) (fltRoom part r'.1) (hdrRoom part r'.1)
        rw [hnum, hff2, hhf2]
        exact hok
      rw [if_neg fun h' => hroom h'.2.2] at hok
      obtain rfl := addOffloadLink_full hr hroom
      obtain rfl := addOffloadLink_full hr' hroom
      exact ih hl hs hframe hc hnd.2 htar' hok h
    · rw [if_neg fun h' => hskip ⟨h'.1, h'.2.1⟩] at hok
      exact ih hl hs hframe hc hnd.2 htar' hok h

theorem SlotLinks.checkPotential (hl : SlotLinks part rest s) (hs : LinkSound s.toLanTable)
    (hsym : PeerSym (peersOf s.clientInfo)) (hnil : targetsOf s.clientInfo a = [])
    (hok : PotentialRoom props s.clientInfo a (peersOf s.clientInfo a) s.numOffloadPair
      (fltRoom part s) (hdrRoom part s)) (h : checkPotentialLink ((lan2LanOps props).through part) s a = some s') :
    LinkSound s'.toLanTable ∧ SlotLinks part rest s' := by
  simp only [checkPotentialLink, bind_eq_bind, bind_eq_some_iff] at h
  obtain ⟨c, hc, h⟩ := h
  have hlist := hsym.list a
  rw [peersOf_of_node hc] at hok hlist
  refine checkPotentialFrom_slots hl hs (LinkFrame.refl s) hc hlist.nodup (fun e _ hmem => ?_) hok h
  rw [hnil] at hmem
  exact not_mem_nil hmem

end

end G4Common.Ipacm

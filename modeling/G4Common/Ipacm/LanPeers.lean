/-
The peer lists of `IPACM_LanToLan` are symmetric.

A peer list stands for a function from clients to numbers of connections
(`connTo`), and the lists of all clients together for a matrix.  A connection
that comes or goes changes the matrix at two places that mirror each other, also
where a client is joined with itself.  A client leaves the table only when its
row is zero, and by symmetry nobody points to it then.
-/
import G4Common.Ipacm.LanFrame

namespace G4Common.Ipacm

open Function List Option

variable {A K κ : Type}

/-! ### Peer lists -/

/-- The number of connections to a peer. -/
def connTo : List PeerInfo → ℕ → ℤ
  | [], _ => 0
  | e :: l, q => if e.peerPointer = q then e.numConnection else connTo l q

/-- Each peer once, with a positive number of connections. -/
structure PeerList (l : List PeerInfo) : Prop where
  nodup : (l.map PeerInfo.peerPointer).Nodup
  pos : ∀ e ∈ l, 0 < e.numConnection

section

variable {l l1 l2 : List PeerInfo} {e : PeerInfo} {p q : ℕ}

theorem connTo_of_forall_ne (h : ∀ e ∈ l, e.peerPointer ≠ q) : connTo l q = 0 := by
  induction l with
  | nil => rfl
  | cons e _ ih =>
    rw [connTo, if_neg (h e (mem_cons_self ..))]
    exact ih fun e' he' => h e' (mem_cons_of_mem _ he')

theorem connTo_append : connTo (l1 ++ l2) q =
    if ∃ e ∈ l1, e.peerPointer = q then connTo l1 q else connTo l2 q := by
  induction l1 with
  | nil => simp
  | cons e _ ih =>
    by_cases he : e.peerPointer = q
    · simp [connTo, he]
    · simp [connTo, he, ih]

theorem connTo_split (h : ∀ e' ∈ l1, e'.peerPointer ≠ e.peerPointer) : connTo (l1 ++ e :: l2) q =
      if q = e.peerPointer then e.numConnection else connTo (l1 ++ l2) q := by
  by_cases hq : q = e.peerPointer
  · have hno : ¬ ∃ e' ∈ l1, e'.peerPointer = e.peerPointer := by
      rintro ⟨e', he', heq⟩
      exact h e' he' heq
    rw [if_pos hq, hq, connTo_append, if_neg hno]
    simp [connTo]
  · rw [if_neg hq, connTo_append, connTo_append]
    have hne : ¬ e.peerPointer = q := fun heq => hq heq.symm
    simp [connTo, hne]

theorem PeerList.nil : PeerList [] := ⟨nodup_nil, by simp⟩

theorem PeerList.split (h : PeerList (l1 ++ e :: l2)) :
    PeerList (l1 ++ l2) ∧ 0 < e.numConnection ∧ ∀ e' ∈ l1 ++ l2, e'.peerPointer ≠ e.peerPointer := by
  have hnd := h.nodup
  rw [map_append, map_cons, nodup_middle, ← map_append] at hnd
  obtain ⟨hno, hnd⟩ := nodup_cons.mp hnd
  refine ⟨⟨hnd, fun e' he' => h.pos e' (mem_of_others he')⟩, h.pos e (by simp), fun e' he' heq => ?_⟩
  exact hno (mem_map.mpr ⟨e', he', heq⟩)

theorem PeerList.insert (h : PeerList (l1 ++ l2)) (hpos : 0 < e.numConnection)
    (hne : ∀ e' ∈ l1 ++ l2, e'.peerPointer ≠ e.peerPointer) : PeerList (l1 ++ e :: l2) where
  nodup := by
    rw [map_append, map_cons, nodup_middle, ← map_append]
    refine nodup_cons.mpr ⟨fun hmem => ?_, h.nodup⟩
    obtain ⟨e', he', heq⟩ := mem_map.mp hmem
    exact hne e' he' heq
  pos := fun e' he' => by
    rcases mem_replace he' with rfl | he'
    · exact hpos
    · exact h.pos e' he'

theorem PeerList.tail (h : PeerList (e :: l)) : PeerList l := (@PeerList.split [] l e h).1

section

variable (h : PeerList l)
include h

theorem PeerList.mem_iff (hpos : 0 < e.numConnection) : e ∈ l ↔ connTo l e.peerPointer = e.numConnection := by
  constructor
  · intro he
    obtain ⟨l1, l2, rfl⟩ := append_of_mem he
    have hne := h.split.2.2
    rw [connTo_split fun e' he' => hne e' (mem_append_left _ he'), if_pos rfl]
  intro heq
  by_contra he
  by_cases hex : ∃ e' ∈ l, e'.peerPointer = e.peerPointer
  · obtain ⟨e', he', hptr⟩ := hex
    obtain ⟨_, _, rfl⟩ := append_of_mem he'
    have hne := h.split.2.2
    rw [connTo_split fun x hx => hne x (mem_append_left _ hx), if_pos hptr.symm] at heq
    have hsame : e' = e := by
      cases e
      cases e'
      simp_all
    exact he (hsame ▸ he')
  · rw [connTo_of_forall_ne fun e' he' hptr => hex ⟨e', he', hptr⟩] at heq
    omega

theorem PeerList.connTo_nonneg : 0 ≤ connTo l q := by
  by_cases hex : ∃ e ∈ l, e.peerPointer = q
  · obtain ⟨e, he, rfl⟩ := hex
    rw [(h.mem_iff (h.pos e he)).mp he]
    exact (h.pos e he).le
  · rw [connTo_of_forall_ne fun e he heq => hex ⟨e, he, heq⟩]

theorem PeerList.not_mem_of_zero (h0 : connTo l q = 0) : ∀ e ∈ l, e.peerPointer ≠ q := by
  rintro e he rfl
  have hpos := h.pos e he
  rw [(h.mem_iff hpos).mp he] at h0
  omega

theorem PeerList.countPeer {r : List PeerInfo × Bool} (hr : countPeer l p = some r) : PeerList r.1 ∧
      (∀ q, connTo r.1 q = connTo l q + if q = p then 1 else 0) ∧
      (r.2 ↔ connTo l p = 0) := by
  unfold Ipacm.countPeer at hr
  split at hr
  · rename_i hnone
    have hno : ∀ e ∈ l, e.peerPointer ≠ p := by
      simpa using updateFirst_eq_none.mp hnone
    cases hr
    refine ⟨?_, fun q => ?_, by simp [connTo_of_forall_ne hno]⟩
    · refine PeerList.insert (by simpa using h) (by simp) fun e' he' => ?_
      exact hno e' (by simpa using he')
    rw [@connTo_split l [] ⟨p, 1⟩ q hno, append_nil]
    by_cases hq : q = p
    · simp [hq, connTo_of_forall_ne hno]
    · simp [hq]
  rename_i t ht
  split at hr
  · cases hr
    obtain ⟨n, _⟩ := t
    obtain ⟨l1, x, l2, rfl, _, hx, -, rfl⟩ := updateFirst_eq_some.mp ht
    have hxp : x.peerPointer = p := of_decide_eq_true hx
    obtain ⟨hothers, _, hne⟩ := h.split
    have hl : connTo (l1 ++ x :: l2) p = x.numConnection := by
      rw [connTo_split fun e' he' => hne e' (mem_append_left _ he'), if_pos hxp.symm]
    refine ⟨hothers.insert (by simp; omega) (by simpa [hxp] using hne), fun q => ?_, by simp; omega⟩
    rw [connTo_split fun e' he' => hne e' (mem_append_left _ he'),
      connTo_split fun e' he' => hxp ▸ hne e' (mem_append_left _ he'), hxp]
    by_cases hq : q = p
    · simp [hq]
    · simp [hq]
  · simp at hr

theorem PeerList.erase (p : ℕ) :
    PeerList (l.eraseP fun e => e.peerPointer = p) ∧
      ∀ q, connTo (l.eraseP fun e => e.peerPointer = p) q = if q = p then 0 else connTo l q := by
  by_cases hex : ∃ e ∈ l, e.peerPointer = p
  · obtain ⟨e, he, hep⟩ := hex
    obtain ⟨x, _, _, -, hx, hl, herase⟩ :=
      @exists_of_eraseP _ (fun e => decide (e.peerPointer = p)) l e he (decide_eq_true hep)
    rw [herase]
    subst hl
    have hxp : x.peerPointer = p := of_decide_eq_true hx
    obtain ⟨hothers, _, hne⟩ := h.split
    refine ⟨hothers, fun q => ?_⟩
    rw [connTo_split fun e' he' => hne e' (mem_append_left _ he')]
    by_cases hq : q = p
    · rw [if_pos hq, hq, connTo_of_forall_ne fun e' he' => hxp ▸ hne e' he']
    · rw [if_neg hq, if_neg (hxp ▸ hq)]
  have hno : ∀ e ∈ l, e.peerPointer ≠ p := fun e he heq => hex ⟨e, he, heq⟩
  rw [eraseP_of_forall_not (by simpa using hno)]
  refine ⟨h, fun q => ?_⟩
  split_ifs with hq
  · rw [hq, connTo_of_forall_ne hno]
  · rfl

theorem PeerList.uncountPeer (p : ℕ) : PeerList (uncountPeer l p).1 ∧
    (∀ q, connTo (Ipacm.uncountPeer l p).1 q =
      if q = p ∧ 0 < connTo l p then connTo l p - 1 else connTo l q) ∧
    ((Ipacm.uncountPeer l p).2 ↔ connTo l p = 1) := by
  unfold Ipacm.uncountPeer
  split
  · rename_i hnone
    have hno : ∀ e ∈ l, e.peerPointer ≠ p := by
      simpa using updateFirst_eq_none.mp hnone
    simp [connTo_of_forall_ne hno, h]
  rename_i t ht
  obtain ⟨n, _⟩ := t
  obtain ⟨_, x, _, hl, _, hx, hn, rfl⟩ := updateFirst_eq_some.mp ht
  have hxp : x.peerPointer = p := of_decide_eq_true hx
  have hsplit := h
  rw [hl] at hsplit
  obtain ⟨hothers, _, hne⟩ := hsplit.split
  have hp : connTo l p = x.numConnection := by
    rw [hl, connTo_split fun e' he' => hne e' (mem_append_left _ he'), if_pos hxp.symm]
  dsimp only at hn
  split
  · rename_i hzero
    obtain ⟨hlist, hconn⟩ := h.erase p
    refine ⟨hlist, fun q => ?_, by simp; omega⟩
    rw [hconn]
    by_cases hq : q = p
    · rw [if_pos hq, if_pos ⟨hq, by omega⟩]
      omega
    · rw [if_neg hq, if_neg fun h' => hq h'.1]
  rename_i hnz
  refine ⟨hothers.insert (by dsimp only at hnz ⊢; omega) (by simpa [hxp] using hne), fun q => ?_,
    by simp; dsimp only at hnz; omega⟩
  rw [connTo_split fun e' he' => hxp ▸ hne e' (mem_append_left _ he')]
  by_cases hq : q = p
  · rw [if_pos hq, if_pos ⟨hq, by omega⟩, hp]
  · rw [if_neg hq, if_neg fun h' => hq h'.1, hl,
      connTo_split fun e' he' => hne e' (mem_append_left _ he'), if_neg (hxp ▸ hq)]

end

end

/-! ### All clients -/

/-- The peers of the client at an address, none if there is no client. -/
def peersOf (m : NodeMap K (ClientInfo A)) (p : ℕ) : List PeerInfo :=
  ((m.node p).map ClientInfo.peer).getD []

/-- The matrix of connections is symmetric. -/
structure PeerSym (L : ℕ → List PeerInfo) : Prop where
  list : ∀ p, PeerList (L p)
  symm : ∀ p q, connTo (L p) q = connTo (L q) p

section

variable {L : ℕ → List PeerInfo} {l l' : List PeerInfo} {p q : ℕ}

theorem PeerSym.twoRows (h : PeerSym L) (hl : PeerList l) (hl' : PeerList l')
    (hrow : ∀ y, y ≠ q → connTo l y = connTo (L p) y) (hrow' : ∀ y, y ≠ p → connTo l' y = connTo (update L p l q) y)
    (hpq : p ≠ q → connTo l q = connTo l' p) : PeerSym (update (update L p l) q l') := by
  have hsame : ∀ x y, ¬ (x = p ∧ y = q) → ¬ (x = q ∧ y = p) →
      connTo (update (update L p l) q l' x) y = connTo (L x) y := by
    intro x y h1 h2
    have hfirst : connTo (update L p l x) y = connTo (L x) y := by
      by_cases hx : x = p
      · rw [hx, update_self]
        exact hrow y fun hy => h1 ⟨hx, hy⟩
      · rw [update_of_ne hx]
    by_cases hx : x = q
    · rw [← hfirst, hx, update_self]
      exact hrow' y fun hy => h2 ⟨hx, hy⟩
    · rw [update_of_ne hx, hfirst]
  refine ⟨fun x => ?_, fun x y => ?_⟩
  · by_cases hx : x = q
    · rwa [hx, update_self]
    rw [update_of_ne hx]
    by_cases hx' : x = p
    · rwa [hx', update_self]
    · rw [update_of_ne hx']
      exact h.list x
  -- the two places mirror each other, all others are as before
  have hmirror : connTo (update (update L p l) q l' p) q = connTo (update (update L p l) q l' q) p := by
    by_cases hne : p = q
    · rw [hne]
    · rw [update_of_ne hne, update_self, update_self]
      exact hpq hne
  by_cases h1 : x = p ∧ y = q
  · rw [h1.1, h1.2]
    exact hmirror
  by_cases h2 : x = q ∧ y = p
  · rw [h2.1, h2.2]
    exact hmirror.symm
  · rw [hsame x y h1 h2, hsame y x (fun h' => h2 h'.symm) (fun h' => h1 h'.symm)]
    exact h.symm x y

theorem PeerSym.list_update (h : PeerSym L) (hl : PeerList l) (x : ℕ) : PeerList (update L p l x) := by
  by_cases hx : x = p
  · rwa [hx, update_self]
  · rw [update_of_ne hx]
    exact h.list x

end

section

variable {m m' : NodeMap K (ClientInfo A)} {p q : ℕ} {c : ClientInfo A}
variable {s s' : LanState A K κ}

theorem peersOf_of_node (h : m.node p = some c) : peersOf m p = c.peer := by
  simp [peersOf, h]

theorem peersOf_of_none (h : m.node p = none) : peersOf m p = [] := by
  simp [peersOf, h]

theorem peersOf_congr (h : ∀ p, (m'.node p).map ClientInfo.peer = (m.node p).map ClientInfo.peer) :
    peersOf m' = peersOf m := by
  funext p
  simp only [peersOf, h]

theorem LinkFrame.peersOf_eq (h : LinkFrame s s') : peersOf s'.clientInfo = peersOf s.clientInfo :=
  peersOf_congr (h.map_node fun _ => rfl)

theorem LinkFrame.peerSym (hf : LinkFrame s s')
    (h : PeerSym (peersOf s.clientInfo)) : PeerSym (peersOf s'.clientInfo) := by
  rwa [hf.peersOf_eq]

theorem PeerSym.modify {f : ClientInfo A → ClientInfo A}
    (h : PeerSym (peersOf s.clientInfo)) (hf : ∀ c, (f c).peer = c.peer) :
    PeerSym (peersOf (s.modify p f).clientInfo) := by
  have heq := peersOf_congr (s.clientInfo.map_node_modify p f ClientInfo.peer hf)
  unfold LanState.modify
  rwa [heq]

theorem peersOf_modifyPeer (h : s.clientInfo.node p = some c) (f : List PeerInfo → List PeerInfo) :
    peersOf (s.modifyPeer p f).clientInfo = update (peersOf s.clientInfo) p (f c.peer) := by
  funext q
  by_cases hq : q = p
  · subst hq
    rw [update_self]
    simp [peersOf, LanState.modifyPeer, LanState.modify, h]
  · rw [update_of_ne hq]
    simp [peersOf, LanState.modifyPeer, LanState.modify, NodeMap.node_modify_of_ne _ _ _ hq]

theorem peersOf_erase [DecidableEq K] {k : K} (hk : m.find k = some p) :
    peersOf (m.erase k) = update (peersOf m) p [] := by
  funext q
  by_cases hq : q = p
  · rw [hq, update_self, peersOf_of_none]
    simp [NodeMap.node_erase hk]
  · rw [update_of_ne hq]
    simp [peersOf, NodeMap.node_erase hk, hq]

theorem peersOf_insert [DecidableEq K] {k : K} (hk : m.find k = none) (hc : c.peer = []) :
    peersOf (m.insert k c) = peersOf m := by
  funext q
  by_cases hq : q = m.next
  · rw [hq, peersOf_of_none m.next_node]
    simp [peersOf, NodeMap.node_insert c hk, hc]
  · simp [peersOf, NodeMap.node_insert c hk, hq]

theorem PeerSym.erase [DecidableEq K] (h : PeerSym (peersOf m)) {k : K} (hk : m.find k = some p)
    (hnil : peersOf m p = []) : PeerSym (peersOf (m.erase k)) := by
  rw [peersOf_erase hk, ← hnil, update_eq_self]
  exact h

end

section

variable {s s' : LanState A K κ} {p q : ℕ} {r : LanState A K κ × Bool}

/-- The lists after `add_connection()`. -/
theorem peersOf_addConnection (hr : addConnection s p q = some r) : ∃ t t',
    countPeer (peersOf s.clientInfo p) q = some t ∧ countPeer (update (peersOf s.clientInfo) p t.1 q) p = some t' ∧
      peersOf r.1.clientInfo = update (update (peersOf s.clientInfo) p t.1) q t'.1 ∧ r.2 = (t.2 || t'.2) := by
  simp only [addConnection, bind_eq_bind, bind_eq_some_iff] at hr
  obtain ⟨c, hc, t, ht, d, hd, t', ht', hr⟩ := hr
  cases hr
  have hpeers := peersOf_modifyPeer hc fun _ => t.1
  rw [← peersOf_of_node hc] at ht
  rw [← peersOf_of_node hd, hpeers] at ht'
  exact ⟨t, t', ht, ht', by rw [← hpeers]; exact peersOf_modifyPeer hd fun _ => t'.1, rfl⟩

/-- The lists after `remove_connection()`. -/
theorem peersOf_removeConnection (hr : removeConnection s p q = some r) : ∃ l l',
    l = uncountPeer (peersOf s.clientInfo p) q ∧ l' = uncountPeer (update (peersOf s.clientInfo) p l.1 q) p ∧
      peersOf r.1.clientInfo = update (update (peersOf s.clientInfo) p l.1) q l'.1 ∧ r.2 = l'.2 := by
  simp only [removeConnection, bind_eq_bind, bind_eq_some_iff] at hr
  obtain ⟨c, hc, d, hd, hr⟩ := hr
  cases hr
  have hpeers := peersOf_modifyPeer hc fun _ => (uncountPeer c.peer q).1
  rw [peersOf_of_node hc]
  refine ⟨_, _, rfl, rfl, ?_⟩
  rw [← hpeers, peersOf_of_node hd]
  exact ⟨peersOf_modifyPeer hd fun _ => (uncountPeer d.peer p).1, rfl⟩

section

variable (h : PeerSym (peersOf s.clientInfo))
include h

theorem PeerSym.addConnection (hr : addConnection s p q = some r) : PeerSym (peersOf r.1.clientInfo) := by
  obtain ⟨t, t', ht, ht', hpeers, -⟩ := peersOf_addConnection hr
  obtain ⟨hl, hconn, -⟩ := (h.list p).countPeer ht
  obtain ⟨hl', hconn', -⟩ := (h.list_update hl q).countPeer ht'
  rw [hpeers]
  refine h.twoRows hl hl' (fun y hy => ?_) (fun y hy => ?_) fun hne => ?_
  · rw [hconn, if_neg hy, add_zero]
  · rw [hconn', if_neg hy, add_zero]
  · rw [hconn, hconn', if_pos rfl, if_pos rfl, update_of_ne hne.symm, h.symm p q]

theorem PeerSym.le_addConnection (hr : Ipacm.addConnection s p q = some r) :
    (∀ x y, connTo (peersOf s.clientInfo x) y ≤ connTo (peersOf r.1.clientInfo x) y) ∧
      0 < connTo (peersOf r.1.clientInfo q) p := by
  obtain ⟨t, t', ht, ht', hpeers, -⟩ := peersOf_addConnection hr
  obtain ⟨hl, hconn, -⟩ := (h.list p).countPeer ht
  obtain ⟨-, hconn', -⟩ := (h.list_update hl q).countPeer ht'
  have hnonneg : 0 ≤ connTo (update (peersOf s.clientInfo) p t.1 q) p :=
    (h.list_update hl q).connTo_nonneg
  rw [hpeers]
  -- the list of the source, then that of the destination
  have hfirst : ∀ x y, connTo (peersOf s.clientInfo x) y ≤
      connTo (update (peersOf s.clientInfo) p t.1 x) y := by
    intro x y
    by_cases hx : x = p
    · rw [hx, update_self, hconn]
      split <;> omega
    · rw [update_of_ne hx]
  refine ⟨fun x y => ?_, ?_⟩
  · by_cases hx : x = q
    · rw [hx, update_self, hconn']
      have hle := hfirst q y
      split <;> omega
    · rw [update_of_ne hx]
      exact hfirst x y
  · rw [update_self, hconn', if_pos rfl]
    omega

theorem PeerSym.first_of_add (hr : Ipacm.addConnection s p q = some r) (htrue : r.2) :
    connTo (peersOf s.clientInfo p) q = 0 := by
  obtain ⟨t, t', ht, ht', -, hadded⟩ := peersOf_addConnection hr
  rw [hadded] at htrue
  obtain ⟨hl, hconn, hfirst⟩ := (h.list p).countPeer ht
  obtain ⟨-, -, hfirst'⟩ := (h.list_update hl q).countPeer ht'
  rcases Bool.or_eq_true_iff.mp htrue with htrue | htrue
  · exact hfirst.mp htrue
  have hzero := hfirst'.mp htrue
  by_cases hpq : p = q
  · -- the entry has just been made
    rw [← hpq, update_self, hconn, if_pos hpq] at hzero
    have hnonneg := @PeerList.connTo_nonneg _ p (h.list p)
    omega
  · rw [update_of_ne fun h' => hpq h'.symm] at hzero
    rw [h.symm p q, hzero]

theorem PeerSym.removeConnection (hr : removeConnection s p q = some r) : PeerSym (peersOf r.1.clientInfo) := by
  obtain ⟨l, l', rfl, rfl, hpeers, hlast'⟩ := peersOf_removeConnection hr
  rw [hpeers]
  obtain ⟨hl, hconn, -⟩ := (h.list p).uncountPeer q
  obtain ⟨hl', hconn', -⟩ := (h.list_update hl q).uncountPeer p
  refine h.twoRows hl hl' (fun y hy => ?_) (fun y hy => ?_) fun hne => ?_
  · rw [hconn, if_neg fun h' => hy h'.1]
  · rw [hconn', if_neg fun h' => hy h'.1]
  · rw [hconn, hconn', update_of_ne hne.symm, h.symm p q]
    simp only [true_and]

theorem PeerSym.last_of_remove (hr : Ipacm.removeConnection s p q = some r) (hne : p ≠ q) :
    (r.2 → connTo (peersOf s.clientInfo p) q = 1) ∧
      (∀ y, y ≠ q → connTo (peersOf r.1.clientInfo p) y = connTo (peersOf s.clientInfo p) y) ∧
      (∀ y, y ≠ p → connTo (peersOf r.1.clientInfo q) y = connTo (peersOf s.clientInfo q) y) := by
  obtain ⟨l, l', rfl, rfl, hpeers, hlast'⟩ := peersOf_removeConnection hr
  rw [update_of_ne hne.symm] at hpeers hlast'
  obtain ⟨-, hconn, -⟩ := (h.list p).uncountPeer q
  obtain ⟨-, hconn', hlast⟩ := (h.list q).uncountPeer p
  refine ⟨fun htrue => ?_, fun y hy => ?_, fun y hy => ?_⟩
  · rw [h.symm p q]
    exact hlast.mp (hlast' ▸ htrue)
  · rw [hpeers, update_of_ne hne, update_self, hconn, if_neg fun h' => hy h'.1]
  · rw [hpeers, update_self, hconn', if_neg fun h' => hy h'.1]

theorem PeerSym.pos_removeConnection (hr : Ipacm.removeConnection s p q = some r) {x y : ℕ} (hxy : x ≠ y)
    (hpos : 0 < connTo (peersOf s.clientInfo x) y) :
    0 < connTo (peersOf r.1.clientInfo x) y ∨
      r.2 ∧ (x = p ∧ y = q ∨ x = q ∧ y = p) := by
  obtain ⟨l, l', rfl, rfl, hpeers, hlast'⟩ := peersOf_removeConnection hr
  obtain ⟨hl, hconn, -⟩ := (h.list p).uncountPeer q
  obtain ⟨-, hconn', hlast⟩ := (@PeerSym.list_update _ _ p h hl q).uncountPeer p
  rw [hpeers, hlast']
  by_cases hp : x = p ∧ y = q
  · have hne : q ≠ p := fun h' => hxy (hp.1.trans (h'.symm.trans hp.2.symm))
    rw [hp.1, hp.2] at hpos ⊢
    rw [update_of_ne hne] at hlast
    rw [update_of_ne hne.symm, update_self, update_of_ne hne, hlast, hconn, if_pos ⟨rfl, hpos⟩, ← h.symm p q]
    omega
  have hfirst : connTo (update (peersOf s.clientInfo) p
      (uncountPeer (peersOf s.clientInfo p) q).1 x) y = connTo (peersOf s.clientInfo x) y := by
    by_cases hx : x = p
    · rw [hx, update_self, hconn, if_neg fun h' => hp ⟨hx, h'.1⟩]
    · rw [update_of_ne hx]
  by_cases hq : x = q ∧ y = p
  · rw [hq.1, hq.2] at hpos hfirst ⊢
    rw [update_self, hlast, hconn', hfirst, if_pos ⟨rfl, hpos⟩]
    omega
  refine .inl ?_
  by_cases hx : x = q
  · rw [hx] at hfirst hpos ⊢
    rw [update_self, hconn', if_neg fun h' => hq ⟨hx, h'.1⟩, hfirst]
    exact hpos
  · rw [update_of_ne hx, hfirst]
    exact hpos

end

/-- The loop of `clear_peer_list()`: it finds every counterpart, and in the end the
client has no peers.  What is kept on the way is the symmetry with the part of
the list still ahead in place of the list. -/
theorem clearPeerFrom_sym {peers : List PeerInfo} {c : ClientInfo A}
    (hc : s.clientInfo.node p = some c) (hsub : ∀ e ∈ peers, e ∈ c.peer)
    (h : PeerSym (update (peersOf s.clientInfo) p peers)) (hr : clearPeerFrom p peers s = some r) :
    PeerSym (peersOf r.1.clientInfo) ∧ peersOf r.1.clientInfo p = [] := by
  induction peers generalizing s c with
  | nil =>
    cases hr
    dsimp only
    rw [peersOf_modifyPeer hc]
    exact ⟨h, update_self ..⟩
  | cons e rest ih =>
    simp only [clearPeerFrom, bind_eq_bind, bind_eq_some_iff] at hr
    obtain ⟨q, hq, hr⟩ := hr
    have hlist := h.list p
    rw [update_self] at hlist
    obtain ⟨hrest, _, hne⟩ := @PeerList.split [] rest e hlist
    have hconn : ∀ y, connTo (e :: rest) y =
        if y = e.peerPointer then e.numConnection else connTo rest y := fun y =>
      @connTo_split [] rest e y (by simp)
    split at hr
    · split at hr
      · simp at hr
      rename_i hself
      have hq' : (s.modifyPeer e.peerPointer
          (eraseP fun e' => e'.peerPointer = p)).clientInfo.node p = some c := by
        rw [← hc]
        exact NodeMap.node_modify_of_ne _ _ _ fun h' => hself h'.symm
      refine ih hq' (fun e' he' => hsub e' (mem_cons_of_mem _ he')) ?_ hr
      rw [peersOf_modifyPeer hq, ← peersOf_of_node hq]
      obtain ⟨hl', hconn'⟩ := (h.list e.peerPointer).erase p
      rw [update_of_ne hself] at hl' hconn'
      have hrows := @PeerSym.twoRows _ rest _ p e.peerPointer h hrest hl'
        (fun y hy => ?_) (fun y hy => ?_) fun _ => ?_
      · rwa [update_idem, update_comm fun h' => hself h'.symm] at hrows
      · rw [update_self, hconn, if_neg hy]
      · rw [hconn', if_neg hy, update_idem, update_of_ne hself]
      · rw [hconn', if_pos rfl]
        exact connTo_of_forall_ne hne
    -- the counterpart is there
    rename_i hno
    have hzero : connTo (peersOf s.clientInfo e.peerPointer) p = 0 := by
      rw [peersOf_of_node hq]
      exact connTo_of_forall_ne (by simpa using hno)
    by_cases hself : e.peerPointer = p
    · rw [hself, hc] at hq
      cases hq
      have hmem := hsub e (mem_cons_self ..)
      simp only [List.any_eq_true, decide_eq_true_eq, not_exists, not_and] at hno
      exact absurd hself (hno e hmem)
    · have hsym := h.symm p e.peerPointer
      rw [update_self, update_of_ne hself, hzero, hconn, if_pos rfl] at hsym
      omega

theorem connTo_eraseP {l : List PeerInfo} (h : q ≠ p) :
    connTo (l.eraseP fun e => e.peerPointer = p) q = connTo l q := by
  induction l with
  | nil => rfl
  | cons e _ ih =>
    by_cases he : e.peerPointer = p
    · have hne : p ≠ q := h.symm
      simp [connTo, he, hne]
    · simp [connTo, he, ih]

theorem clearPeerFrom_rows {peers : List PeerInfo} (hr : clearPeerFrom p peers s = some r) {x y : ℕ}
    (hx : x ≠ p) (hy : y ≠ p) : connTo (peersOf r.1.clientInfo x) y = connTo (peersOf s.clientInfo x) y := by
  induction peers generalizing s with
  | nil =>
    cases hr
    have hnode : (s.modifyPeer p fun _ => []).clientInfo.node x = s.clientInfo.node x :=
      NodeMap.node_modify_of_ne _ _ _ hx
    dsimp only
    rw [peersOf, hnode]
    rfl
  | cons e _ ih =>
    simp only [clearPeerFrom, bind_eq_bind, bind_eq_some_iff] at hr
    obtain ⟨q, hq, hr⟩ := hr
    split at hr
    · split at hr
      · simp at hr
      rw [ih hr, peersOf_modifyPeer hq]
      by_cases hxe : x = e.peerPointer
      · rw [hxe, update_self, connTo_eraseP hy, peersOf_of_node hq]
      · rw [update_of_ne hxe]
    · cases hr
      rfl

theorem clearPeerList_sym (h : PeerSym (peersOf s.clientInfo)) (hr : clearPeerList s p = some r) :
    PeerSym (peersOf r.1.clientInfo) ∧ peersOf r.1.clientInfo p = [] := by
  simp only [clearPeerList, bind_eq_bind, bind_eq_some_iff] at hr
  obtain ⟨c, hc, hr⟩ := hr
  refine clearPeerFrom_sym hc (fun e he => he) ?_ hr
  rw [← peersOf_of_node hc, update_eq_self]
  exact h

end

/-! ### Events -/

section

variable {env : LanEnv A K κ} {s s' : LanState A K κ} {data : LanClient A} {conn : LanConn A}
variable {r : LanState A K κ × List (LanConn A)}

section

variable (h : PeerSym (peersOf s.clientInfo))
include h

theorem PeerSym.powerSave (hr : handleClientPowerSave env s data = some s') : PeerSym (peersOf s'.clientInfo) := by
  obtain ⟨-, rfl⟩ | ⟨p, r, -, hflt, rfl⟩ := handleClientPowerSave_cases hr
  · exact h
  obtain ⟨k, hk⟩ := removeFltRules_frame hflt
  have hsym : PeerSym (peersOf (s.withIfaces k).clientInfo) := h
  rw [hk]
  split
  · exact hsym.modify fun _ => rfl
  · exact hsym

theorem PeerSym.newConnection
    (hr : handleNewLan2LanConnection env s conn = some s') : PeerSym (peersOf s'.clientInfo) := by
  obtain ⟨rfl, -⟩ | ⟨p, q, c, d, r, -, -, hadd, -, -, h'⟩ := handleNewLan2LanConnection_cases hr
  · exact h
  have hsym := h.addConnection hadd
  obtain ⟨-, rfl⟩ | ⟨-, -, -, _, h1, ⟨-, rfl⟩ | ⟨-, _, h2, rfl⟩⟩ := h'
  · exact hsym
  · exact (addOffloadLink_frame h1).peerSym hsym
  have hboth := (addOffloadLink_frame h1).trans (addOffloadLink_frame h2)
  split
  · exact (hboth.trans (LinkFrame.withCount _ _)).peerSym hsym
  · exact hboth.peerSym hsym

theorem PeerSym.powerRecover (hr : handleClientPowerRecover env s data = some r) :
    PeerSym (peersOf r.1.clientInfo) := by
  obtain ⟨-, hs⟩ | ⟨p, c, -, -, ⟨-, hs⟩ | ⟨-, -, _, h1, ⟨-, hs⟩ | ⟨-, h2⟩⟩⟩ := handleClientPowerRecover_cases hr
  · rwa [hs]
  · rwa [hs]
  · rw [hs]
    exact (addFltRules_frame h1).peerSym h
  · refine (checkPotentialLink_frame h2).peerSym (PeerSym.modify ?_ fun _ => rfl)
    exact (addFltRules_frame h1).peerSym h

end

theorem PeerSym.announce [DecidableEq A] (h : PeerSym (peersOf s.clientInfo)) {p : ℕ} (hr : announce env s p = some r) :
    PeerSym (peersOf r.1.clientInfo) := by
  obtain ⟨_, hconns⟩ := announce_frame hr
  rw [hconns]
  exact h

variable [DecidableEq K]

section

variable (h : PeerSym (peersOf s.clientInfo))
include h

theorem PeerSym.inactive (hr : handleClientInactive env s data = some s') : PeerSym (peersOf s'.clientInfo) := by
  obtain ⟨-, rfl⟩ | ⟨p, c, r, hp, hoff, hc, rfl⟩ := handleClientInactive_cases hr
  · exact h
  have hframe := turnoffOffloadLinks_frame hoff
  have hmid : PeerSym (peersOf (r.1.modify p ClientInfo.setInactive).clientInfo) :=
    (hframe.peerSym h).modify fun _ => rfl
  split_ifs with hnil
  · refine hmid.erase (hframe.find ▸ hp) ?_
    simp [peersOf, LanState.modify, ClientInfo.setInactive, hc, hnil]
  · exact hmid

theorem PeerSym.disconnect (hr : handleClientDisconnect env s data = some s') : PeerSym (peersOf s'.clientInfo) := by
  obtain ⟨-, rfl⟩ | ⟨p, _, _, hp, hoff, hclear, rfl⟩ := handleClientDisconnect_cases hr
  · exact h
  have hframe := turnoffOffloadLinks_frame hoff
  obtain ⟨hsym, hnil⟩ := clearPeerList_sym (hframe.peerSym h) hclear
  refine hsym.erase ?_ hnil
  rw [(clearPeerList_frame hclear).find, hframe.find, hp]

theorem PeerSym.eraseIfIdle {k : K} {p : ℕ} (hk : s.clientInfo.find k = some p) (hr : eraseIfIdle s k p = some s') :
    PeerSym (peersOf s'.clientInfo) := by
  obtain ⟨c, hc, ⟨-, -, hnil, rfl⟩ | ⟨-, rfl⟩⟩ := eraseIfIdle_cases hr
  · exact h.erase hk ((peersOf_of_node hc).trans hnil)
  · exact h

theorem PeerSym.delConnection
    (hr : handleDelLan2LanConnection env s conn = some s') : PeerSym (peersOf s'.clientInfo) := by
  obtain ⟨rfl, -⟩ | ⟨p, q, r, hp, hq, hrem, h'⟩ := handleDelLan2LanConnection_cases hr
  · exact h
  have hsym := h.removeConnection hrem
  obtain ⟨-, rfl⟩ | ⟨-, s1, _, h1, h2, h3⟩ := h'
  · exact hsym
  have hframe := eraseLinks_frame h1
  have hfind : s1.clientInfo.find = s.clientInfo.find := hframe.find.trans (removeConnection_frame hrem).find
  rw [← hfind] at hp hq
  have hsym2 := (hframe.peerSym hsym).eraseIfIdle hp h2
  obtain ⟨hq2, -, -⟩ := eraseIfIdle_twice hp hq h2 h3
  exact hsym2.eraseIfIdle hq2 h3

end

variable [DecidableEq A]

theorem PeerSym.active (h : PeerSym (peersOf s.clientInfo)) (hr : handleClientActive env s data = some r) :
    PeerSym (peersOf r.1.clientInfo) := by
  obtain ⟨hnone, hr⟩ | ⟨p, c, -, _, ⟨-, -, rfl⟩ | ⟨-, -, _, _, h1, h2, hr⟩ | ⟨-, _, h1, hr⟩⟩ :=
    handleClientActive_cases hr
  · refine PeerSym.announce ?_ hr
    unfold insertClient
    rwa [peersOf_insert hnone rfl]
  · exact h
  · have hclear := (clearPeerList_sym ((turnoffOffloadLinks_frame h1).peerSym h) h2).1
    refine PeerSym.announce ?_ hr
    exact hclear.modify fun _ => rfl
  · refine PeerSym.announce ?_ hr
    exact (checkPotentialLink_frame h1).peerSym (h.modify fun _ => rfl)

theorem PeerSym.eventCallback (h : PeerSym (peersOf s.clientInfo)) {ev : LanEvent A} (hr : eventCallback env s ev = some r) :
    PeerSym (peersOf r.1.clientInfo) := by
  cases ev with
  | clientActive => exact h.active hr
  | clientInactive =>
    obtain ⟨s', hs', rfl⟩ := map_eq_some_iff.mp hr
    exact h.inactive hs'
  | clientDisconnect =>
    obtain ⟨s', hs', rfl⟩ := map_eq_some_iff.mp hr
    exact h.disconnect hs'
  | clientPowerSave =>
    obtain ⟨s', hs', rfl⟩ := map_eq_some_iff.mp hr
    exact h.powerSave hs'
  | clientPowerRecover => exact h.powerRecover hr
  | newConnection =>
    obtain ⟨s', hs', rfl⟩ := map_eq_some_iff.mp hr
    exact h.newConnection hs'
  | delConnection =>
    obtain ⟨_, hs', rfl⟩ := map_eq_some_iff.mp hr
    exact h.delConnection hs'

end

/-- The peer lists of the clients of a table: each pair of clients has at most one
entry for each other, both have it or none, with the same positive number, and no
entry is for a client that is gone. -/
structure PeersSymmetric (m : NodeMap K (ClientInfo A)) : Prop where
  unique : ∀ k p c, m.find k = some p → m.node p = some c →
    (c.peer.map PeerInfo.peerPointer).Nodup
  both : ∀ k k' p q c d n, m.find k = some p → m.node p = some c → m.find k' = some q →
    m.node q = some d → (⟨q, n⟩ ∈ c.peer ↔ ⟨p, n⟩ ∈ d.peer)
  positive : ∀ k p c e, m.find k = some p → m.node p = some c → e ∈ c.peer → 0 < e.numConnection
  live : ∀ k p c e, m.find k = some p → m.node p = some c → e ∈ c.peer →
    ∃ k', m.find k' = some e.peerPointer

theorem PeerSym.symmetric {m : NodeMap K (ClientInfo A)} (h : PeerSym (peersOf m)) : PeersSymmetric m where
  unique := fun _ p c _ hc => peersOf_of_node hc ▸ (h.list p).nodup
  positive := fun _ p c e _ hc he => (peersOf_of_node hc ▸ (h.list p).pos) e he
  both := fun _ _ p q c d n _ hc _ hd => by
    have hp := h.list p
    have hq := h.list q
    have hsym := h.symm p q
    rw [peersOf_of_node hc] at hp hsym
    rw [peersOf_of_node hd] at hq hsym
    constructor
    · intro he
      have hpos := hp.pos _ he
      rw [hp.mem_iff hpos] at he
      exact (@PeerList.mem_iff d.peer ⟨p, n⟩ hq hpos).mpr (hsym ▸ he)
    intro he
    have hpos := hq.pos _ he
    rw [hq.mem_iff hpos] at he
    exact (@PeerList.mem_iff c.peer ⟨q, n⟩ hp hpos).mpr (hsym.trans he)
  live := fun _ p c e _ hc he => by
    have hp := h.list p
    have hsym := h.symm p e.peerPointer
    rw [peersOf_of_node hc] at hp hsym
    refine m.node_find ?_
    by_contra hnone
    rw [not_isSome_iff_eq_none] at hnone
    rw [peersOf_of_none hnone, (hp.mem_iff (hp.pos e he)).mp he] at hsym
    have hpos := hp.pos e he
    rw [hsym] at hpos
    exact absurd hpos (by simp [connTo])

section

variable {cfg : LanConfig κ} {between : κ → κ → Prop} {ok : LanToLan κ → IpEvent → Prop}
    {s : LanToLan κ} (h : LanReach cfg between ok s)
include h

theorem LanReach.peerSym : PeerSym (peersOf s.v4.clientInfo) ∧ PeerSym (peersOf s.v6.clientInfo) := by
  induction h with
  | start => exact ⟨⟨fun _ => PeerList.nil, fun _ _ => rfl⟩, fun _ => PeerList.nil, fun _ _ => rfl⟩
  | step ev _ _ _ _ hs ih =>
    obtain ⟨h4, h6⟩ := ih
    cases ev with
    | v4 =>
      obtain ⟨r, hr, rfl⟩ := map_eq_some_iff.mp hs
      exact ⟨h4.eventCallback hr, h6⟩
    | v6 =>
      obtain ⟨r, hr, rfl⟩ := map_eq_some_iff.mp hs
      exact ⟨h4, h6.eventCallback hr⟩

/-- **The peer lists are symmetric** in every state of every run, whatever the
interfaces answer. -/
theorem lanToLan_peersSymmetric : PeersSymmetric s.v4.clientInfo ∧ PeersSymmetric s.v6.clientInfo :=
  ⟨h.peerSym.1.symmetric, h.peerSym.2.symmetric⟩

end

theorem lanToLan_peersSymmetric_sample :
    ∃ s : LanToLan Script, LanReach (scriptConfig id false []) (fun _ _ => True) (fun _ _ => True) s ∧
      (s.v4.clientInfo.node 0).map ClientInfo.peer = some [⟨1, 1⟩] ∧
      PeersSymmetric s.v4.clientInfo ∧ PeersSymmetric s.v6.clientInfo := by
  have hrun : (LanToLan.run (scriptConfig id false []) (samplePair .succeed)
      (LanToLan.init .succeed)).map (fun s => (s.v4.clientInfo.node 0).map ClientInfo.peer) =
        some (some [⟨1, 1⟩]) := by
    decide
  obtain ⟨s, hs, hpeer⟩ := map_eq_some_iff.mp hrun
  have hreach : LanReach (scriptConfig id false []) (fun _ _ => True) (fun _ _ => True) s :=
    LanReach.run (LanReach.start _) (fun _ _ _ => trivial) hs
  exact ⟨s, hreach, hpeer, lanToLan_peersSymmetric hreach⟩

end G4Common.Ipacm

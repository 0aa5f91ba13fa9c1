/-
The offload links when calls to the interfaces fail.

A pair of links is made by six calls and taken back by six more, and any of them
may fail.  The handlers do not roll back what they have done: they leave one
direction of a pair behind, or count a pair of which only one direction was
made, or erase a client that others still link to.

Each event comes with a script of answers.  `FaultOk` says which failures an
event gets over; in the runs whose events satisfy it, the links are sound in each
state (`lanToLan_linksConsistent`).
-/
import Mathlib.Tactic.IntervalCases
import G4Common.Ipacm.LanLinks

namespace G4Common.Ipacm

open List Option

variable {A K : Type}

/-! ### Scripts -/

namespace Script

variable (k : Script)

/-- Three calls from number `n` on succeed. -/
def threeOk (n : ℕ) : Bool := k.ok n && k.ok (n + 1) && k.ok (n + 2)

/-- The number of calls that `add_offload_link()` makes from number `n` on, those
that take back included. -/
def addCalls (n : ℕ) : ℕ :=
  if k.ok n then if k.ok (n + 1) && !k.ok (n + 2) then 5 else 3 else 1

def skip (n : ℕ) : Script := { k with call := k.call + n }

/-- The next `n` calls succeed. -/
def Succeeds (n : ℕ) : Prop := ∀ j < n, k.ok (k.call + j) = true

theorem Succeeds.threeOk {k : Script} {n i : ℕ} (h : k.Succeeds n) (hi : i + 3 ≤ n) :
    k.threeOk (k.call + i) = true := by
  unfold Script.threeOk
  rw [h i (by omega), Nat.add_assoc, h (i + 1) (by omega), Nat.add_assoc, h (i + 2) (by omega)]
  rfl

theorem addCalls_of_threeOk {k : Script} {n : ℕ} (h : k.threeOk n) : k.addCalls n = 3 := by
  unfold Script.threeOk at h
  simp only [Bool.and_eq_true] at h
  simp [addCalls, h]

end Script

theorem addLinkRules_script (k : Script) (c q : ClientInfo A) (ptr : ℕ) :
    (addLinkRules (scriptOps A) k c q ptr).1 = k.skip (k.addCalls k.call) ∧
      (addLinkRules (scriptOps A) k c q ptr).2.isSome = k.threeOk k.call := by
  simp only [addLinkRules, scriptOps, Script.addCalls, Script.threeOk, Script.add, Script.del,
    Script.next, Script.skip, Nat.add_assoc, Nat.reduceAdd]
  cases h0 : k.ok k.call with
  | false => simp
  | true =>
    cases h1 : k.ok (k.call + 1) with
    | false => simp
    | true =>
      cases h2 : k.ok (k.call + 2) with
      | false | true => simp

theorem delOffloadLink_script (k : Script) (i j : ℕ) (l : OffloadLinkInfo) :
    delOffloadLink (scriptOps A) k i j l = (k.skip 3, k.threeOk k.call) := rfl

section

variable {s s' : LanState A K Script} {a b : ℕ} {r : LanState A K Script × Bool}

theorem addOffloadLink_script (h : addOffloadLink (scriptOps A) s a b = some r)
    (hroom : s.numOffloadPair < maxOffloadPair) :
    r.2 = s.ifaces.threeOk s.ifaces.call ∧
      r.1.ifaces = s.ifaces.skip (s.ifaces.addCalls s.ifaces.call) := by
  obtain ⟨hfull, -⟩ | ⟨-, c, q, -, -, ⟨hnone, rfl⟩ | ⟨l, hl, rfl⟩⟩ := addOffloadLink_cases h
  · exact absurd hroom (UInt8.not_lt.mpr hfull)
  · obtain ⟨hk, hsome⟩ := addLinkRules_script s.ifaces c q b
    rw [hnone] at hsome
    exact ⟨hsome, hk⟩
  · obtain ⟨hk, hsome⟩ := addLinkRules_script s.ifaces c q b
    rw [hl] at hsome
    exact ⟨hsome, hk⟩

theorem turnoffFrom_script {ls : List OffloadLinkInfo} (hs : LinksAhead s a ls)
    (hok : s.ifaces.Succeeds (6 * ls.length)) (h : turnoffFrom (scriptOps A) a ls s = some r) : r.2 = true := by
  induction ls generalizing s with
  | nil =>
    cases h
    rfl
  | cons l rest ih =>
    rw [length_cons] at hok
    have h1 : s.ifaces.threeOk s.ifaces.call = true := hok.threeOk (i := 0) (by omega)
    have h2 : s.ifaces.threeOk (s.ifaces.call + 3) = true := hok.threeOk (by omega)
    obtain ⟨c, q, -, hq, ⟨-, hfail, -⟩ | ⟨l', -, -, -, -, h⟩⟩ := turnoffFrom_cons h
    · -- each way to fail is closed
      rcases hfail with hfail | hfail | ⟨l', -, -, hfail⟩
      · rw [delOffloadLink_script, h1] at hfail
        simp at hfail
      · obtain ⟨l', hl', hptr⟩ := hs.counterpart hq
        exact absurd hptr (hfail l' hl')
      · have hfail' : s.ifaces.threeOk (s.ifaces.call + 3) = false := hfail
        rw [h2] at hfail'
        simp at hfail'
    refine ih (hs.next hq _) (fun j hj => ?_) h
    have hj' := hok (j + 6) (by omega)
    rw [← hj']
    show s.ifaces.ok (s.ifaces.call + 3 + 3 + j) = s.ifaces.ok (s.ifaces.call + (j + 6))
    congr 1
    omega

/-- What `turnoff_offload_links()` leaves when all deletions succeed, and when one
of the first link fails. -/
theorem LinkSound.turnoff_script (h : LinkSound s.toLanTable) {c : ClientInfo A} (hc : s.clientInfo.node a = some c)
    (hr : turnoffOffloadLinks (scriptOps A) s a = some r) :
    (s.ifaces.Succeeds (6 * c.link.length) → LinkSound r.1.toLanTable ∧ targetsOf r.1.clientInfo a = []) ∧
      (c.link ≠ [] → ¬ s.ifaces.Succeeds 6 → SameLinks s r.1) := by
  constructor
  · intro hok
    refine h.turnoff hr ?_
    simp only [turnoffOffloadLinks, hc, bind_eq_bind, bind_some] at hr
    exact turnoffFrom_script (h.ahead hc) hok hr
  intro hnil hfail
  simp only [turnoffOffloadLinks, hc, bind_eq_bind, bind_some] at hr
  obtain ⟨l, _, hl⟩ := exists_cons_of_ne_nil hnil
  rw [hl] at hr
  obtain ⟨_, q, -, -, ⟨-, -, k, hk⟩ | ⟨_, -, -, h1, h2, -⟩⟩ := turnoffFrom_cons hr
  · rw [hk]
    exact ⟨rfl, rfl⟩
  refine absurd (fun j hj => ?_) hfail
  have h1' : s.ifaces.threeOk s.ifaces.call = true := h1
  have h2' : s.ifaces.threeOk (s.ifaces.call + 3) = true := h2
  simp only [Script.threeOk, Bool.and_eq_true] at h1' h2'
  interval_cases j
  · exact h1'.1.1
  · exact h1'.1.2
  · exact h1'.2
  · exact h2'.1.1
  · exact h2'.1.2
  · exact h2'.2

theorem eraseLinkTo_script (h : eraseLinkTo (scriptOps A) s a b = some r) (hab : b ∈ targetsOf s.clientInfo a) :
    r.2 = s.ifaces.threeOk s.ifaces.call ∧ r.1.ifaces = s.ifaces.skip 3 := by
  obtain ⟨c, q, hc, -, ⟨hno, -⟩ | ⟨l, -, rfl⟩⟩ := eraseLinkTo_cases h
  · rw [targetsOf_of_node hc] at hab
    obtain ⟨l, hl, hlb⟩ := mem_map.mp hab
    exact absurd hlb (hno l hl)
  · exact ⟨rfl, rfl⟩

theorem LinkSound.erasesBoth_script (h : LinkSound s.toLanTable)
    (hab : b ∈ targetsOf s.clientInfo a) (hsix : s.ifaces.Succeeds 6) : ErasesBoth (scriptOps A) s a b := by
  intro r _ h1 h2
  have hne : b ≠ a := by
    rintro rfl
    exact h.graph.irrefl b hab
  obtain ⟨hr1, hk1⟩ := eraseLinkTo_script h1 hab
  have hba : a ∈ targetsOf r.1.clientInfo b := by
    rw [(eraseLinkTo_linked h1 hab).2, Function.update_of_ne hne]
    exact h.graph.symm hab
  obtain ⟨hr2, -⟩ := eraseLinkTo_script h2 hba
  refine ⟨hr1.trans (hsix.threeOk (i := 0) (by omega)), hr2.trans ?_⟩
  rw [hk1]
  exact hsix.threeOk (i := 3) (by omega)

theorem addFltFrom_script {is : List ℕ} (h : addFltFrom (scriptOps A) a is s = some r) (hr : r.2) :
    s.ifaces.Succeeds (2 * is.length) ∧ r.1.ifaces = s.ifaces.skip (2 * is.length) := by
  induction is generalizing s with
  | nil =>
    cases h
    exact ⟨nofun, rfl⟩
  | cons i rest ih =>
    obtain ⟨c, l, q, -, -, -, ⟨-, rfl⟩ | ⟨_, _, s1, hh1, hs1, -, h⟩⟩ := addFltFrom_cons h
    · simp at hr
    obtain ⟨-, rfl⟩ | ⟨-, ⟨-, rfl⟩ | ⟨_, hh2, h⟩⟩ := h
    · simp at hr
    · simp at hr
    obtain ⟨hok, hk⟩ := ih h
    have hk1 : s1.ifaces = s.ifaces.skip 1 := by
      rw [hs1]
      rfl
    have hok1 : s.ifaces.ok s.ifaces.call = true := by
      by_contra hno
      simp [scriptOps, Script.add, hno] at hh1
    have hok2 : s.ifaces.ok (s.ifaces.call + 1) = true := by
      by_contra hno
      rw [hk1] at hh2
      simp [scriptOps, Script.add, Script.skip, hno] at hh2
    have hk2 : r.1.ifaces = s.ifaces.skip (2 + 2 * rest.length) := by
      rw [hk]
      show s1.ifaces.next.skip (2 * rest.length) = _
      rw [hk1]
      simp [Script.next, Script.skip]
      omega
    rw [length_cons]
    refine ⟨fun j hj => ?_, by rw [hk2]; congr 1; omega⟩
    rcases Nat.lt_or_ge j 2 with _ | _
    · interval_cases j
      · exact hok1
      · exact hok2
    have hj' := hok (j - 2) (by omega)
    have heq : s.ifaces.call + 1 + 1 + (j - 2) = s.ifaces.call + j := by omega
    rw [← heq, ← hj']
    show s.ifaces.ok _ = s1.ifaces.next.ok (s1.ifaces.next.call + (j - 2))
    rw [hk1]
    rfl

/-- What `check_potential_link()` for the client at `a` asks of the answers, from
call `n` on and with `num` pairs: for each active peer that it tries, both
directions fail, or both succeed and the two clients were different and not
linked. -/
def PotentialOk (s : LanState A K Script) (a : ℕ) : List PeerInfo → ℕ → UInt8 → Prop
  | [], _, _ => True
  | e :: rest, n, num =>
    if (s.clientInfo.node e.peerPointer).any ClientInfo.isActive = true ∧ 0 < e.numConnection ∧
        num < maxOffloadPair then
      s.ifaces.threeOk n = s.ifaces.threeOk (n + s.ifaces.addCalls n) ∧
        (s.ifaces.threeOk n = true → e.peerPointer ≠ a ∧ e.peerPointer ∉ targetsOf s.clientInfo a) ∧
        PotentialOk s a rest
          (n + s.ifaces.addCalls n + s.ifaces.addCalls (n + s.ifaces.addCalls n))
          (if s.ifaces.threeOk n then num + 1 else num)
    else PotentialOk s a rest n num

theorem checkPotentialFrom_script {s₀ : LanState A K Script} {peers : List PeerInfo}
    (hs : LinkSound s.toLanTable) (hframe : LinkFrame s₀ s) (hk : s.ifaces.ok = s₀.ifaces.ok)
    (hnd : (peers.map PeerInfo.peerPointer).Nodup)
    (htar : ∀ e ∈ peers, e.peerPointer ∈ targetsOf s.clientInfo a → e.peerPointer ∈ targetsOf s₀.clientInfo a)
    (hok : PotentialOk s₀ a peers s.ifaces.call s.numOffloadPair)
    (h : checkPotentialFrom (scriptOps A) a peers s = some s') : LinkSound s'.toLanTable := by
  induction peers generalizing s with
  | nil =>
    cases h
    exact hs
  | cons e rest ih =>
    rw [map_cons, nodup_cons] at hnd
    have htar' : ∀ e' ∈ rest, e'.peerPointer ∈ targetsOf s.clientInfo a →
        e'.peerPointer ∈ targetsOf s₀.clientInfo a := fun e' he' =>
      htar e' (mem_cons_of_mem _ he')
    have hthree : s.ifaces.threeOk = s₀.ifaces.threeOk := by
      funext n
      simp only [Script.threeOk, hk]
    have hcalls : s.ifaces.addCalls = s₀.ifaces.addCalls := by
      funext n
      simp only [Script.addCalls, hk]
    obtain ⟨q, hq, ⟨hact, hpos, r, r', hr, hr', h⟩ | ⟨hskip, h⟩⟩ := checkPotentialFrom_cons h
    · have hactive : (s₀.clientInfo.node e.peerPointer).any ClientInfo.isActive = true := by
        obtain ⟨q0, hq0, heq⟩ := hframe.node_some' hq
        rw [hq0]
        show q0.isActive = true
        have hflag := congrArg ClientInfo.isActive heq
        exact hflag.trans hact
      by_cases hroom : s.numOffloadPair < maxOffloadPair
      · -- both directions are tried
        rw [PotentialOk, if_pos ⟨hactive, hpos, hroom⟩] at hok
        obtain ⟨hagree, hnew, hok⟩ := hok
        obtain ⟨hr1, hk1⟩ := addOffloadLink_script hr hroom
        obtain ⟨hr2, hk2⟩ := addOffloadLink_script hr' ((addOffloadLink_count hr).symm ▸ hroom)
        rw [hthree] at hr1
        rw [hcalls] at hk1
        have hthree' : r.1.ifaces.threeOk = s₀.ifaces.threeOk := by
          rw [hk1]
          exact hthree
        have hcalls' : r.1.ifaces.addCalls = s₀.ifaces.addCalls := by
          rw [hk1]
          exact hcalls
        rw [hthree', hk1] at hr2
        rw [hcalls', hk1] at hk2
        -- the two directions agree
        have hsame : r'.2 = r.2 := by
          rw [hr2, hr1, hagree]
          rfl
        cases hfirst : r.2 with
        | true =>
          rw [hfirst] at hr1 hsame
          obtain ⟨hne, hno⟩ := hnew hr1.symm
          have hno' : e.peerPointer ∉ targetsOf s.clientInfo a := fun hmem =>
            hno (htar e (mem_cons_self ..) hmem)
          obtain ⟨hs', hnum', htargets⟩ := hs.addPair hr hfirst hr' hsame hne.symm hno'
          rw [hsame, if_pos rfl] at h
          rw [← hr1, if_pos rfl] at hok
          refine ih hs' ?_ ?_ hnd.2 (fun e' he' hmem => ?_) ?_ h
          · exact ((hframe.trans (addOffloadLink_frame hr)).trans (addOffloadLink_frame hr')).trans
              (LinkFrame.withCount _ _)
          · show r'.1.ifaces.ok = _
            rw [hk2]
            exact hk
          · -- the pair just made is of another peer
            refine htar' e' he' ?_
            rcases (htargets a _).mp hmem with hmem | ⟨-, heq⟩ | ⟨heq, -⟩
            · exact hmem
            · exact absurd (mem_map.mpr ⟨e', he', heq⟩) hnd.1
            · exact absurd heq hne.symm
          · show PotentialOk s₀ a rest r'.1.ifaces.call (r'.1.numOffloadPair + 1)
            rw [hk2, hnum']
            exact hok
        | false =>
          rw [hfirst] at hr1 hsame
          obtain ⟨k, hk'⟩ := addOffloadLink_false hr hfirst
          obtain ⟨_, hk''⟩ := addOffloadLink_false hr' hsame
          rw [hsame, if_neg (by simp)] at h
          rw [← hr1, if_neg (by simp)] at hok
          have hsame' : SameLinks s r'.1 := by
            rw [hk'', hk']
            exact ⟨rfl, rfl⟩
          refine ih (hs.same hsame') ?_ ?_ hnd.2 ?_ ?_ h
          · exact (hframe.trans (addOffloadLink_frame hr)).trans (addOffloadLink_frame hr')
          · rw [hk2]
            exact hk
          · rw [hsame'.1]
            exact htar'
          · rw [hk2, hsame'.2]
            exact hok
      -- no room: nothing is called
      rw [PotentialOk, if_neg fun h' => hroom h'.2.2] at hok
      obtain rfl := addOffloadLink_full hr hroom
      obtain rfl := addOffloadLink_full hr' hroom
      exact ih hs hframe hk hnd.2 htar' hok h
    have hskip0 : ¬ ((s₀.clientInfo.node e.peerPointer).any ClientInfo.isActive = true ∧
        0 < e.numConnection ∧ s.numOffloadPair < maxOffloadPair) := by
      obtain ⟨_, hq0, heq⟩ := hframe.node_some' hq
      rw [hq0]
      rintro ⟨hact, hpos, -⟩
      refine hskip ⟨?_, hpos⟩
      have hflag := congrArg ClientInfo.isActive heq
      exact hflag.symm.trans hact
    rw [PotentialOk, if_neg hskip0] at hok
    exact ih hs hframe hk hnd.2 htar' hok h

end

/-! ### Events -/

/-- The client goes if it has no other peer than `q`. -/
def GoesWith (c : ClientInfo A) (q : ℕ) : Prop :=
  c.isActive = false ∧ c.isPowersave = false ∧ ∀ e ∈ c.peer, e.peerPointer = q

/-- The failures that an event gets over. -/
def FaultOk (env : LanEnv A K Script) (s : LanState A K Script) : LanEvent A → Prop
  | .clientActive data => ∀ p c, s.clientInfo.find (env.key data.ip) = some p →
      s.clientInfo.node p = some c →
      -- the links of the client with the old MAC address: all go, or all stay
      (c.isActive = true → c.macAddr ≠ data.macAddr →
        s.ifaces.Succeeds (6 * c.link.length) ∨ c.link ≠ [] ∧ ¬ s.ifaces.Succeeds 6) ∧
      (c.isActive = false → PotentialOk (s.modify p (ClientInfo.fill data)) p c.peer s.ifaces.call s.numOffloadPair)
  | .clientInactive data => ∀ p c, s.clientInfo.find (env.key data.ip) = some p →
      s.clientInfo.node p = some c →
      s.ifaces.Succeeds (6 * c.link.length) ∨
        c.link ≠ [] ∧ ¬ s.ifaces.Succeeds 6 ∧ c.peer ≠ []
  | .clientDisconnect data => ∀ p c, s.clientInfo.find (env.key data.ip) = some p →
      s.clientInfo.node p = some c → s.ifaces.Succeeds (6 * c.link.length)
  | .clientPowerSave _ => True
  | .clientPowerRecover data => ∀ p c, s.clientInfo.find (env.key data.ip) = some p →
      s.clientInfo.node p = some c → c.isActive = false → c.isPowersave = true →
      s.ifaces.Succeeds (2 * c.link.length) →
      PotentialOk (s.modify p ClientInfo.setRecovered) p c.peer
        (s.ifaces.call + 2 * c.link.length) s.numOffloadPair
  | .newConnection conn => ∀ p q c d, s.clientInfo.find (env.key conn.src) = some p →
      s.clientInfo.find (env.key conn.dst) = some q → s.clientInfo.node p = some c →
      s.clientInfo.node q = some d → (∀ e ∈ c.peer, e.peerPointer ≠ q) → c.isActive = true →
      d.isActive = true → s.numOffloadPair < maxOffloadPair →
      s.ifaces.threeOk s.ifaces.call = true →
      p ≠ q ∧ q ∉ targetsOf s.clientInfo p ∧ s.ifaces.threeOk (s.ifaces.call + 3) = true
  | .delConnection conn => ∀ p q c d, s.clientInfo.find (env.key conn.src) = some p →
      s.clientInfo.find (env.key conn.dst) = some q → s.clientInfo.node p = some c →
      s.clientInfo.node q = some d → p ≠ q → ⟨q, 1⟩ ∈ c.peer →
      (ErasesLinks c d → q ∈ targetsOf s.clientInfo p → s.ifaces.Succeeds 6) ∧
      (GoesWith c q → c.link = []) ∧ (GoesWith d p → d.link = [])

section

variable {env : LanEnv A K Script} {s s' : LanState A K Script} {data : LanClient A}
  {conn : LanConn A} {p : ℕ}
variable {r : LanState A K Script × List (LanConn A)}

theorem LinkSound.checkPotential_script {s₀ : LanState A K Script} (hs : LinkSound s.toLanTable)
    (hsym : PeerSym (peersOf s.clientInfo)) (hframe : LinkFrame s₀ s) (hsame : SameLinks s₀ s)
    (hk : s.ifaces.ok = s₀.ifaces.ok) (hok : PotentialOk s₀ p (peersOf s.clientInfo p) s.ifaces.call s.numOffloadPair)
    (h : checkPotentialLink (scriptOps A) s p = some s') : LinkSound s'.toLanTable := by
  simp only [checkPotentialLink, bind_eq_bind, bind_eq_some_iff] at h
  obtain ⟨c, hc, h⟩ := h
  rw [peersOf_of_node hc] at hok
  have hlist := hsym.list p
  rw [peersOf_of_node hc] at hlist
  exact checkPotentialFrom_script hs hframe hk hlist.nodup (fun e _ hmem => hsame.1 ▸ hmem) hok h

theorem LinkSound.powerSave (hs : LinkSound s.toLanTable)
    (hr : handleClientPowerSave env s data = some s') : LinkSound s'.toLanTable := by
  obtain ⟨-, rfl⟩ | ⟨p, r, -, hflt, rfl⟩ := handleClientPowerSave_cases hr
  · exact hs
  obtain ⟨k, hk⟩ := removeFltRules_frame hflt
  have hsame : SameLinks s (s.withIfaces k) := ⟨rfl, rfl⟩
  rw [hk]
  split
  · exact hs.same (hsame.trans (sameLinks_modify _ p _ fun _ => rfl))
  · exact hs.same hsame

section

variable (henv : env.toLanOps = scriptOps A) (hs : LinkSound s.toLanTable)
    (hsym : PeerSym (peersOf s.clientInfo))
include henv hs hsym

theorem LinkSound.powerRecover (hok : FaultOk env s (.clientPowerRecover data))
    (hr : handleClientPowerRecover env s data = some r) : LinkSound r.1.toLanTable := by
  obtain ⟨-, hr⟩ | ⟨p, c, hp, hc, ⟨-, hr⟩ | ⟨hact, hps, r1, h1, ⟨-, hr⟩ | ⟨htrue, h2⟩⟩⟩ :=
    handleClientPowerRecover_cases hr
  · rwa [hr]
  · rwa [hr]
  · rw [hr]
    exact hs.same (sameLinks_addFlt h1)
  have hframe := addFltRules_frame h1
  have hsame := sameLinks_addFlt h1
  rw [henv] at h1 h2
  simp only [addFltRules, hc, bind_eq_bind, bind_some] at h1
  obtain ⟨hok1, hk1⟩ := addFltFrom_script h1 htrue
  rw [length_range] at hok1 hk1
  have hpot := hok p c hp hc hact hps hok1
  -- the same change before and after the filters were added
  have hrec : SameLinks s (s.modify p ClientInfo.setRecovered) := sameLinks_modify _ p _ fun _ => rfl
  have hrec1 : SameLinks r1.1 (r1.1.modify p ClientInfo.setRecovered) := sameLinks_modify _ p _ fun _ => rfl
  have hframe' : LinkFrame (s.modify p ClientInfo.setRecovered)
      (r1.1.modify p ClientInfo.setRecovered) := hframe.modify_both p fun _ => rfl
  have hsym' : PeerSym (peersOf (r1.1.modify p ClientInfo.setRecovered).clientInfo) :=
    (hframe.peerSym hsym).modify fun _ => rfl
  have hpeers : peersOf (r1.1.modify p ClientInfo.setRecovered).clientInfo p = c.peer := by
    obtain ⟨_, hc', heq⟩ := hframe.node_some hc
    have hpeer := congrArg ClientInfo.peer heq
    simp only [peersOf, LanState.modify, NodeMap.node_modify_self, hc', map_some, getD_some]
    exact hpeer
  refine (hs.same (hsame.trans hrec1)).checkPotential_script hsym' hframe' ?_ ?_ ?_ h2
  · exact ⟨hrec1.1.trans (hsame.1.trans hrec.1.symm), hsame.2⟩
  · show r1.1.ifaces.ok = _
    rw [hk1]
    rfl
  · show PotentialOk _ p _ r1.1.ifaces.call r1.1.numOffloadPair
    rw [hpeers, hk1, hsame.2]
    exact hpot

theorem LinkSound.newConnection (hok : FaultOk env s (.newConnection conn))
    (hr : handleNewLan2LanConnection env s conn = some s') : LinkSound s'.toLanTable := by
  obtain ⟨rfl, -⟩ | ⟨p, q, _, _, r, hp, hq, hadd, hc', hd', h'⟩ := handleNewLan2LanConnection_cases hr
  · exact hs
  have hframe := addConnection_frame hadd
  have hsame := hframe.sameLinks
  have hk := hframe.ifaces
  obtain ⟨-, rfl⟩ | ⟨hfirst, hact, hact', _, h1, ⟨hfail, rfl⟩ | ⟨htrue, r2, h2, rfl⟩⟩ := h'
  · exact hs.same hsame
  · obtain ⟨k, hk'⟩ := addOffloadLink_false h1 hfail
    rw [hk']
    exact hs.same (hsame.trans ⟨rfl, rfl⟩)
  rw [henv] at h1 h2
  obtain ⟨c, hc, hceq⟩ := hframe.node_some' hc'
  obtain ⟨d, hd, hdeq⟩ := hframe.node_some' hd'
  have hcact := congrArg ClientInfo.isActive hceq
  have hdact := congrArg ClientInfo.isActive hdeq
  have hnew : ∀ e ∈ c.peer, e.peerPointer ≠ q := by
    have hzero := hsym.first_of_add hadd hfirst
    have hlist := hsym.list p
    rw [peersOf_of_node hc] at hzero hlist
    exact hlist.not_mem_of_zero hzero
  obtain ⟨hroom, hnum, -⟩ := addOffloadLink_true h1 htrue
  obtain ⟨hr1, hk1⟩ := addOffloadLink_script h1 hroom
  obtain ⟨hr2, -⟩ := addOffloadLink_script h2 (hnum ▸ hroom)
  rw [htrue, hk] at hr1
  have hcalls := Script.addCalls_of_threeOk hr1.symm
  rw [hk, hcalls] at hk1
  obtain ⟨hne, hno, hok2⟩ := hok p q c d hp hq hc hd hnew (hcact.trans hact)
    (hdact.trans hact') (hsame.2 ▸ hroom) hr1.symm
  have htrue2 : r2.2 = true := by
    rw [hr2, hk1]
    exact hok2
  rw [htrue2, if_pos rfl]
  exact ((hs.same hsame).addPair h1 htrue h2 htrue2 hne (hsame.1 ▸ hno)).1

end

theorem LinkSound.eraseLinks_script (henv : env.toLanOps = scriptOps A) {p q : ℕ}
    {c d : ClientInfo A} (hs : LinkSound s.toLanTable) (hc : s.clientInfo.node p = some c)
    (hd : s.clientInfo.node q = some d) (hok : ErasesLinks c d → q ∈ targetsOf s.clientInfo p → s.ifaces.Succeeds 6)
    (hr : Ipacm.eraseLinks env s p q = some s') :
    LinkSound s'.toLanTable ∧
      (∀ x y, y ∈ targetsOf s'.clientInfo x → y ∈ targetsOf s.clientInfo x) ∧
      (ErasesLinks c d → q ∉ targetsOf s'.clientInfo p) := by
  refine hs.eraseLinks hc hd (fun h hmem => ?_) hr
  rw [henv]
  exact ⟨hs.erasesBoth_script hmem (hok h hmem), hs.erasesBoth_script (hs.graph.symm hmem) (hok h hmem)⟩

theorem goesWith_of_idle {s1 s2 : LanState A K Script} {q : ℕ} {c c2 : ClientInfo A}
    (hlist : PeerList (peersOf s.clientInfo p)) (hc : s.clientInfo.node p = some c)
    (hframe : PeerFrame s s1) (hframe1 : LinkFrame s1 s2)
    (hrow : ∀ y, y ≠ q → connTo (peersOf s1.clientInfo p) y = connTo (peersOf s.clientInfo p) y)
    (hc2 : s2.clientInfo.node p = some c2) (hact : c2.isActive = false)
    (hps : c2.isPowersave = false) (hpeer : c2.peer = []) : GoesWith c q := by
  obtain ⟨_, hc1, heq1⟩ := hframe1.node_some' hc2
  obtain ⟨_, hc', heq⟩ := hframe.node_some' hc1
  cases hc.symm.trans hc'
  have hact1 := congrArg ClientInfo.isActive heq1
  have hact0 := congrArg ClientInfo.isActive heq
  have hps1 := congrArg ClientInfo.isPowersave heq1
  have hps0 := congrArg ClientInfo.isPowersave heq
  refine ⟨hact0.trans (hact1.trans hact), hps0.trans (hps1.trans hps), fun e he => ?_⟩
  by_contra hne
  have hzero := hrow e.peerPointer hne
  rw [← hframe1.peersOf_eq, peersOf_of_node hc2, hpeer] at hzero
  refine hlist.not_mem_of_zero hzero.symm e ?_ rfl
  rwa [peersOf_of_node hc]

variable [DecidableEq K]

theorem LinkSound.inactive (henv : env.toLanOps = scriptOps A) (hs : LinkSound s.toLanTable)
    (hok : FaultOk env s (.clientInactive data))
    (hr : handleClientInactive env s data = some s') : LinkSound s'.toLanTable := by
  obtain ⟨-, rfl⟩ | ⟨p, c', r, hp, hoff, hc', rfl⟩ := handleClientInactive_cases hr
  · exact hs
  have hframe := turnoffOffloadLinks_frame hoff
  obtain ⟨c, hc, heq⟩ := hframe.node_some' hc'
  have hpeer : c.peer = c'.peer := by
    have hfield := congrArg ClientInfo.peer heq
    exact hfield
  rw [henv] at hoff
  obtain ⟨hall, hfirst⟩ := hs.turnoff_script hc hoff
  have hmid : SameLinks r.1 (r.1.modify p ClientInfo.setInactive) :=
    sameLinks_modify _ p _ fun _ => rfl
  rcases hok p c hp hc with hok | ⟨hnil, hfail, hpeers⟩
  · obtain ⟨hs', htar⟩ := hall hok
    split
    · refine (hs'.same hmid).same ⟨targetsOf_erase (p := p) ?_ ?_, rfl⟩
      · rw [← hp, ← hframe.find]
        rfl
      · rw [hmid.1, htar]
    · exact hs'.same hmid
  · rw [if_neg fun hnil => hpeers (hpeer.trans hnil)]
    exact hs.same ((hfirst hnil hfail).trans hmid)

theorem LinkSound.disconnect (henv : env.toLanOps = scriptOps A) (hs : LinkSound s.toLanTable)
    (hok : FaultOk env s (.clientDisconnect data))
    (hr : handleClientDisconnect env s data = some s') : LinkSound s'.toLanTable := by
  obtain ⟨-, rfl⟩ | ⟨p, _, _, hp, hoff, hclear, rfl⟩ := handleClientDisconnect_cases hr
  · exact hs
  have hframe := turnoffOffloadLinks_frame hoff
  have hsame := (clearPeerList_frame hclear).sameLinks
  obtain ⟨c, hc⟩ := NodeMap.node_of_find hp
  rw [henv] at hoff
  obtain ⟨hs', htar⟩ := (hs.turnoff_script hc hoff).1 (hok p c hp hc)
  refine (hs'.same hsame).same ⟨targetsOf_erase (p := p) ?_ ?_, rfl⟩
  · rw [(clearPeerList_frame hclear).find, hframe.find, hp]
  · rw [hsame.1, htar]

theorem LinkSound.eraseIfIdle (hs : LinkSound s.toLanTable) {k : K} (hk : s.clientInfo.find k = some p)
    (hnil : ∀ c, s.clientInfo.node p = some c → c.isActive = false → c.isPowersave = false →
      c.peer = [] → targetsOf s.clientInfo p = []) (hr : eraseIfIdle s k p = some s') :
    LinkSound s'.toLanTable ∧ targetsOf s'.clientInfo = targetsOf s.clientInfo := by
  obtain ⟨c, hc, ⟨hact, hps, hpeer, rfl⟩ | ⟨-, rfl⟩⟩ := eraseIfIdle_cases hr
  · have htar := targetsOf_erase hk (hnil c hc hact hps hpeer)
    exact ⟨hs.same ⟨htar, rfl⟩, htar⟩
  · exact ⟨hs, rfl⟩

theorem LinkSound.delConnection (henv : env.toLanOps = scriptOps A) (hs : LinkSound s.toLanTable)
    (hsym : PeerSym (peersOf s.clientInfo)) (hok : FaultOk env s (.delConnection conn))
    (hr : handleDelLan2LanConnection env s conn = some s') : LinkSound s'.toLanTable := by
  obtain ⟨rfl, -⟩ | ⟨p, q, r, hp, hq, hrem, h'⟩ := handleDelLan2LanConnection_cases hr
  · exact hs
  have hframe := removeConnection_frame hrem
  have hs0 := hs.same hframe.sameLinks
  obtain ⟨-, rfl⟩ | ⟨hlast, s1, _, h1, h2, h3⟩ := h'
  · exact hs0
  obtain ⟨c', hc'⟩ := NodeMap.node_of_find (hframe.find ▸ hp : r.1.clientInfo.find _ = some p)
  obtain ⟨d', hd'⟩ := NodeMap.node_of_find (hframe.find ▸ hq : r.1.clientInfo.find _ = some q)
  obtain ⟨c, hc, hceq⟩ := hframe.node_some' hc'
  obtain ⟨d, hd, hdeq⟩ := hframe.node_some' hd'
  have hframe1 := eraseLinks_frame h1
  have hp1 : s1.clientInfo.find (env.key conn.src) = some p := by
    rw [hframe1.find, hframe.find, hp]
  have hq1 : s1.clientInfo.find (env.key conn.dst) = some q := by
    rw [hframe1.find, hframe.find, hq]
  obtain ⟨hq2, hnode2, heq⟩ := eraseIfIdle_twice hp1 hq1 h2 h3
  have htar0 := hframe.sameLinks.1
  by_cases hpq : p = q
  · -- one client, which has no link to itself
    subst hpq
    obtain ⟨hs1, -⟩ := hs0.eraseLinks_script henv hc' hd' (fun _ hmem =>
      absurd hmem (hs0.graph.irrefl p)) h1
    rw [heq rfl]
    exact hs1
  have hone := (hsym.last_of_remove hrem hpq).1 hlast
  have hrows := (hsym.last_of_remove hrem hpq).2
  have hmem : ⟨q, 1⟩ ∈ c.peer := by
    have hlist := hsym.list p
    rw [peersOf_of_node hc] at hlist hone
    exact (@PeerList.mem_iff c.peer ⟨q, 1⟩ hlist (by simp)).mpr hone
  obtain ⟨hlinks, hcnil, hdnil⟩ := hok p q c d hp hq hc hd hpq hmem
  have hflags : ErasesLinks c' d' → ErasesLinks c d := fun h' => by
    show ErasesLinks c.noPeer d.noPeer
    rw [hceq, hdeq]
    exact h'
  obtain ⟨hs1, hsub, -⟩ := hs0.eraseLinks_script henv hc' hd' (fun h' hmem =>
    hframe.ifaces ▸ hlinks (hflags h') (htar0 ▸ hmem)) h1
  -- who goes holds no link before, and gets none
  have hgone : ∀ {x : ℕ} {e : ClientInfo A}, s.clientInfo.node x = some e → e.link = [] →
      targetsOf s1.clientInfo x = [] := fun {x e} he hnil => by
    refine eq_nil_iff_forall_not_mem.mpr fun y hy => ?_
    have hy' := hsub x y hy
    rw [htar0, targetsOf_of_node he, hnil] at hy'
    exact not_mem_nil hy'
  obtain ⟨hs2, htar2⟩ := hs1.eraseIfIdle hp1 (fun c1 hc1 hact hps hpeer =>
    hgone hc (hcnil (goesWith_of_idle (hsym.list p) hc hframe hframe1 hrows.1 hc1 hact hps
      hpeer))) h2
  refine (hs2.eraseIfIdle hq2 (fun d1 hd1 hact hps hpeer => ?_) h3).1
  rw [hnode2] at hd1
  rw [htar2]
  exact hgone hd (hdnil (goesWith_of_idle (hsym.list q) hd hframe hframe1 hrows.2 hd1 hact hps hpeer))

variable [DecidableEq A]

section

variable (henv : env.toLanOps = scriptOps A) (hs : LinkSound s.toLanTable)
    (hsym : PeerSym (peersOf s.clientInfo))
include henv hs hsym

theorem LinkSound.active (hok : FaultOk env s (.clientActive data)) (hr : handleClientActive env s data = some r) :
    LinkSound r.1.toLanTable := by
  -- the announcement touches no link
  have hann : ∀ {s1 : LanState A K Script} {p : ℕ}, LinkSound s1.toLanTable →
      announce env s1 p = some r → LinkSound r.1.toLanTable := fun {s1 p} hs1 hr => by
    obtain ⟨_, hconns⟩ := announce_frame hr
    rw [hconns]
    exact ⟨hs1.graph, hs1.le_max⟩
  obtain ⟨hnone, hr⟩ | ⟨p, c, hp, hc, h'⟩ := handleClientActive_cases hr
  · have hins : SameLinks s (insertClient env s data) := ⟨targetsOf_insert hnone rfl, rfl⟩
    exact hann (hs.same hins) hr
  obtain ⟨-, -, rfl⟩ | ⟨hact, hmac, r1, r2, h1, h2, hr⟩ | ⟨hact, _, h1, hr⟩ := h'
  · exact hs
  · refine hann ?_ hr
    have hlast : SameLinks r1.1 (r2.1.modify p (ClientInfo.fill data)) :=
      (clearPeerList_frame h2).sameLinks.trans (sameLinks_modify _ p _ fun _ => rfl)
    rw [henv] at h1
    obtain ⟨hall, hfirst⟩ := hs.turnoff_script hc h1
    rcases (hok p c hp hc).1 hact hmac with hok | ⟨hnil, hfail⟩
    · exact (hall hok).1.same hlast
    · exact hs.same ((hfirst hnil hfail).trans hlast)
  refine hann ?_ hr
  have hfill : SameLinks s (s.modify p (ClientInfo.fill data)) := sameLinks_modify s p _ fun _ => rfl
  have hsym' : PeerSym (peersOf (s.modify p (ClientInfo.fill data)).clientInfo) := hsym.modify fun _ => rfl
  have hpeers : peersOf (s.modify p (ClientInfo.fill data)).clientInfo p = c.peer := by
    simp [peersOf, LanState.modify, ClientInfo.fill, hc]
  rw [henv] at h1
  refine (hs.same hfill).checkPotential_script hsym' (LinkFrame.refl _) ⟨rfl, rfl⟩ rfl ?_ h1
  rw [hpeers]
  exact (hok p c hp hc).2 hact

theorem LinkSound.eventCallback {ev : LanEvent A} (hok : FaultOk env s ev) (hr : eventCallback env s ev = some r) :
    LinkSound r.1.toLanTable := by
  cases ev with
  | clientActive => exact hs.active henv hsym hok hr
  | clientInactive =>
    obtain ⟨s', hs', rfl⟩ := map_eq_some_iff.mp hr
    exact hs.inactive henv hok hs'
  | clientDisconnect =>
    obtain ⟨s', hs', rfl⟩ := map_eq_some_iff.mp hr
    exact hs.disconnect henv hok hs'
  | clientPowerSave =>
    obtain ⟨s', hs', rfl⟩ := map_eq_some_iff.mp hr
    exact hs.powerSave hs'
  | clientPowerRecover => exact hs.powerRecover henv hsym hok hr
  | newConnection =>
    obtain ⟨s', hs', rfl⟩ := map_eq_some_iff.mp hr
    exact hs.newConnection henv hsym hok hs'
  | delConnection =>
    obtain ⟨_, hs', rfl⟩ := map_eq_some_iff.mp hr
    exact hs.delConnection henv hsym hok hs'

end

end

/-! ### Runs -/

/-- An event of one of the IP types gets over its failures. -/
def IpFaultOk (cfg : LanConfig Script) (s : LanToLan Script) : IpEvent → Prop
  | .v4 ev => FaultOk cfg.env4 s.state4 ev
  | .v6 ev => FaultOk cfg.env6 s.state6 ev

section

variable {ifCat : ℕ → ℕ} {ctOpt : Bool} {subnets : List (UInt32 × UInt32)}
  {between : Script → Script → Prop} {s : LanToLan Script}

theorem LinkSound.init : LinkSound (LanTable.init : LanTable A K) where
  graph := LinkGraph.empty
  le_max := by
    show (0 : UInt8) ≤ maxOffloadPair
    decide

theorem LanReach.linkSound {ok : LanToLan Script → IpEvent → Prop}
    (hok : ∀ s ev, ok s ev → IpFaultOk (scriptConfig ifCat ctOpt subnets) s ev)
    (h : LanReach (scriptConfig ifCat ctOpt subnets) between ok s) :
    LinkSound s.v4 ∧ LinkSound s.v6 ∧ PeerSym (peersOf s.v4.clientInfo) ∧
      PeerSym (peersOf s.v6.clientInfo) := by
  have hsym := h.peerSym
  induction h with
  | start => exact ⟨LinkSound.init, LinkSound.init, hsym⟩
  | @step _ _ ev _ hreach _ hev hs ih =>
    obtain ⟨h4, h6, p4, p6⟩ := ih hreach.peerSym
    have hev := hok _ ev hev
    cases ev with
    | v4 =>
      obtain ⟨r, hr, rfl⟩ := map_eq_some_iff.mp hs
      exact ⟨LinkSound.eventCallback rfl h4 p4 hev hr, h6, hsym⟩
    | v6 =>
      obtain ⟨r, hr, rfl⟩ := map_eq_some_iff.mp hs
      exact ⟨h4, LinkSound.eventCallback rfl h6 p6 hev hr, hsym⟩

/-- **Failures leave no dangling and no one-directional link, and the counters
right**, in every state of the runs whose events get over their failures. -/
theorem lanToLan_linksConsistent (h : LanReach (scriptConfig ifCat ctOpt subnets) between
    (IpFaultOk (scriptConfig ifCat ctOpt subnets)) s) : LinksConsistent s.v4 ∧ LinksConsistent s.v6 := by
  obtain ⟨h4, h6, -⟩ := h.linkSound fun _ _ hev => hev
  exact ⟨h4.consistent, h6.consistent⟩

end

/-- A script whose call `n` fails. -/
def failAt (n : ℕ) : Script := { Script.succeed with ok := fun j => decide (j ≠ n) }

theorem lanToLan_linksConsistent_sample :
    ∃ s : LanToLan Script, LanReach (scriptConfig id false []) (fun _ _ => True)
        (IpFaultOk (scriptConfig id false [])) s ∧ targetsOf s.v4.clientInfo 0 = [1] ∧
      LinksConsistent s.v4 ∧ LinksConsistent s.v6 := by
  have h0 : LanReach (scriptConfig id false []) (fun _ _ => True)
    (IpFaultOk (scriptConfig id false [])) _ := .start .succeed
  have h1 := h0.step (.v4 (.clientActive ⟨1, 1, 1⟩)) .succeed trivial
    (fun p c hp => absurd hp.symm (some_ne_none p)) rfl
  have h2 := h1.step (.v4 (.clientActive ⟨2, 2, 2⟩)) .succeed trivial
    (fun p c hp => absurd hp.symm (some_ne_none p)) rfl
  have h3 := h2.step (.v4 (.newConnection ⟨1, 2⟩)) .succeed trivial (fun p q c d hp hq _ _ _ _ _ _ _ => by
      obtain rfl : 0 = p := some.inj hp
      obtain rfl : 1 = q := some.inj hq
      decide) rfl
  exact ⟨_, h3, rfl, lanToLan_linksConsistent h3⟩

/-- When the second direction of a new pair fails, the first one stays. -/
theorem lanToLan_oneDirection :
    ∃ s : LanToLan Script, LanReach (scriptConfig id false []) (fun _ _ => True) (fun _ _ => True) s ∧
      targetsOf s.v4.clientInfo 0 = [1] ∧ targetsOf s.v4.clientInfo 1 = [] ∧
      ¬ LinksConsistent s.v4 := by
  have hrun : (LanToLan.run (scriptConfig id false []) (samplePair (failAt 3))
      (LanToLan.init .succeed)).map (fun s => (s.v4.clientInfo.find 1, s.v4.clientInfo.find 2,
        (s.v4.clientInfo.node 0).map (fun c => c.link.map OffloadLinkInfo.peerPointer),
        (s.v4.clientInfo.node 1).map ClientInfo.link)) = some (some 0, some 1, some [1], some []) := by
    decide
  obtain ⟨s, hs, hstate⟩ := map_eq_some_iff.mp hrun
  simp only [Prod.mk.injEq, map_eq_some_iff] at hstate
  obtain ⟨hp, hq, ⟨c, hc, hlink⟩, d, hd, hnil⟩ := hstate
  refine ⟨s, LanReach.run (.start _) (fun _ _ _ => trivial) hs, ?_, ?_, fun hcons => ?_⟩
  · rw [targetsOf_of_node hc, hlink]
  · rw [targetsOf_of_node hd, hnil]
    rfl
  have hl : ∃ l ∈ c.link, l.peerPointer = 1 := mem_map.mp (hlink ▸ by simp)
  obtain ⟨l, hl, -⟩ := hcons.both 1 2 0 1 c d hp hc hq hd hl
  rw [hnil] at hl
  exact not_mem_nil hl

end G4Common.Ipacm

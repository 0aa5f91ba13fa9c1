/-
Only traffic between interfaces of different categories is offloaded, in builds
with `CT_OPT`.

The connection tracker reports connections.  `handle_new_connection()` tests the
two ends: if both are known, on interfaces of different categories, the
connection is posted as an event, and otherwise it is cached.  A client that
becomes active has its cached connections posted, and this time the categories
are not tested.  They are not tested when the event is delivered either, so it
matters what happens to the clients in between.

`LanQueue` is the system with its queue of posted events, and `QueueReach` its runs,
with the categories of the ends of every link at the time it was installed.
`CrossOk` says when an activation is harmless.
-/
import G4Common.Ipacm.LanLinks

namespace G4Common.Ipacm

open List Option

variable {A K κ : Type}
variable {s s' : LanState A K κ} {m m' : NodeMap K (ClientInfo A)}

/-! ### The queue of events -/

/-- An event of a connection, as it is posted. -/
inductive PostedEvent
  | new4 (conn : LanConn UInt32)
  | del4 (conn : LanConn UInt32)
  | new6 (conn : LanConn Ipv6Addr)
  | del6 (conn : LanConn Ipv6Addr)

def PostedEvent.event : PostedEvent → IpEvent
  | .new4 conn => .v4 (.newConnection conn)
  | .del4 conn => .v4 (.delConnection conn)
  | .new6 conn => .v6 (.newConnection conn)
  | .del6 conn => .v6 (.delConnection conn)

/-- `IPACM_LanToLan` with the events that are posted and not delivered yet. -/
structure LanQueue (κ : Type) extends LanToLan κ where
  posted : List PostedEvent

/-- What can happen: a client becomes active, the connection tracker reports a
connection, or the first of the posted events is delivered. -/
inductive LanInput
  | active4 (data : LanClient UInt32)
  | active6 (data : LanClient Ipv6Addr)
  | new4 (conn : LanConn UInt32)
  | new6 (conn : LanConn Ipv6Addr)
  | del4 (conn : LanConn UInt32)
  | del6 (conn : LanConn Ipv6Addr)
  | deliver

namespace LanQueue

def init (k : κ) : LanQueue κ := ⟨LanToLan.init k, []⟩

variable (cfg : LanConfig κ) (s : LanQueue κ)

/-- The table for IPv4 has changed, and events were posted. -/
def after4 (t : LanState UInt32 UInt32 κ) (evs : List PostedEvent) : LanQueue κ :=
  ⟨⟨t.toLanTable, s.v6, t.ifaces⟩, s.posted ++ evs⟩

def after6 (t : LanState Ipv6Addr (UInt32 × UInt32) κ) (evs : List PostedEvent) : LanQueue κ :=
  ⟨⟨s.v4, t.toLanTable, t.ifaces⟩, s.posted ++ evs⟩

def step : LanInput → Option (LanQueue κ)
  | .active4 data => (handleClientActive cfg.env4 s.state4 data).map fun r =>
      s.after4 r.1 (r.2.map .new4)
  | .active6 data => (handleClientActive cfg.env6 s.state6 data).map fun r =>
      s.after6 r.1 (r.2.map .new6)
  | .new4 conn =>
    let r := handleNewConnection cfg.env4 s.state4 conn
    some (s.after4 r.1 (r.2.map .new4))
  | .new6 conn =>
    let r := handleNewConnection cfg.env6 s.state6 conn
    some (s.after6 r.1 (r.2.map .new6))
  | .del4 conn =>
    let r := handleDelConnection cfg.env4 s.state4 conn
    some (s.after4 r.1 (r.2.map .del4))
  | .del6 conn =>
    let r := handleDelConnection cfg.env6 s.state6 conn
    some (s.after6 r.1 (r.2.map .del6))
  | .deliver =>
    match s.posted with
    | [] => some s
    | ev :: rest => (LanToLan.step cfg s.toLanToLan ev.event).map fun t => ⟨t, rest⟩

def withIfaces (k : κ) : LanQueue κ := { s with ifaces := k }

end LanQueue

/-- The categories of the ends of the links that are in `m'` more often than in
`m`. -/
def installedIn (ifCat : ℕ → ℕ) (m m' : NodeMap K (ClientInfo A)) : Set (ℕ × ℕ) :=
  {e | ∃ p q c d, m'.node p = some c ∧ m'.node q = some d ∧
    (targetsOf m p).count q < (targetsOf m' p).count q ∧ e = (ifCat c.pIface, ifCat d.pIface)}

/-- The same for both tables. -/
def installed (cfg : LanConfig κ) (s s' : LanQueue κ) : Set (ℕ × ℕ) :=
  installedIn cfg.ifCat s.v4.clientInfo s'.v4.clientInfo ∪
    installedIn cfg.ifCat s.v6.clientInfo s'.v6.clientInfo

/-- The runs whose inputs satisfy `ok`, with the categories of the ends of all links
installed on the way.  Between two inputs the interfaces may change as `between`
allows. -/
inductive QueueReach (cfg : LanConfig κ) (between : κ → κ → Prop)
    (ok : LanQueue κ → LanInput → Prop) : LanQueue κ → Set (ℕ × ℕ) → Prop
  | start (k : κ) : QueueReach cfg between ok (LanQueue.init k) ∅
  | step {s s' : LanQueue κ} {L : Set (ℕ × ℕ)} (i : LanInput) (k : κ) :
      QueueReach cfg between ok s L → between s.ifaces k → ok (s.withIfaces k) i →
      LanQueue.step cfg (s.withIfaces k) i = some s' →
      QueueReach cfg between ok s' (L ∪ installed cfg s s')

/-! ### The condition -/

/-- The client with key `k` is another one than that of `data`, and not on an
interface of the same category. -/
def CrossEnd (env : LanEnv A K κ) (m : NodeMap K (ClientInfo A)) (data : LanClient A) (k : K) :
    Prop :=
  k ≠ env.key data.ip ∧ ∀ i, clientIface m k = some i → env.ifCat i ≠ env.ifCat data.pIface

/-- A harmless activation: it changes nothing, or all cached connections of the
client and all connections of it in the queue are with clients on interfaces of
other categories, or with clients that are not known. -/
def CrossActive (env : LanEnv A K κ) (t : LanTable A K) (posted : LanConn A → Prop)
    (data : LanClient A) : Prop :=
  (∃ p c, t.clientInfo.find (env.key data.ip) = some p ∧ t.clientInfo.node p = some c ∧
      c.isActive = true ∧ c.macAddr = data.macAddr) ∨
    (∀ conn ∈ t.connection, (conn.src = data.ip → CrossEnd env t.clientInfo data (env.key conn.dst)) ∧
      (conn.dst = data.ip → CrossEnd env t.clientInfo data (env.key conn.src))) ∧
    ∀ conn, posted conn →
      (env.key conn.src = env.key data.ip → CrossEnd env t.clientInfo data (env.key conn.dst)) ∧
      (env.key conn.dst = env.key data.ip → CrossEnd env t.clientInfo data (env.key conn.src))

/-- All activations are harmless. -/
def CrossOk (cfg : LanConfig κ) (s : LanQueue κ) : LanInput → Prop
  | .active4 data => CrossActive cfg.env4 s.v4 (fun conn => .new4 conn ∈ s.posted) data
  | .active6 data => CrossActive cfg.env6 s.v6 (fun conn => .new6 conn ∈ s.posted) data
  | _ => True

/-! ### The invariant -/

/-- The ends of a connection are known, on interfaces of different categories. -/
def CrossConn (env : LanEnv A K κ) (m : NodeMap K (ClientInfo A)) (conn : LanConn A) : Prop :=
  ∃ i j, clientIface m (env.key conn.src) = some i ∧ clientIface m (env.key conn.dst) = some j ∧
    env.ifCat i ≠ env.ifCat j

/-- All clients are active, and the ends of what is posted are on interfaces of
different categories. -/
structure CrossInv (env : LanEnv A K κ) (m : NodeMap K (ClientInfo A))
    (posted : LanConn A → Prop) : Prop where
  active : ∀ p c, m.node p = some c → c.isActive = true
  cross : ∀ conn, posted conn → CrossConn env m conn

def NoNewLinks (m m' : NodeMap K (ClientInfo A)) : Prop :=
  ∀ x, (targetsOf m' x).Sublist (targetsOf m x)

theorem NoNewLinks.of_eq (h : m' = m) : NoNewLinks m m' := fun _ => h ▸ List.Sublist.refl _

theorem NoNewLinks.installedIn (h : NoNewLinks m m') (ifCat : ℕ → ℕ) : installedIn ifCat m m' = ∅ := by
  refine Set.eq_empty_iff_forall_notMem.mpr ?_
  rintro e ⟨p, q, c, d, -, -, hlt, -⟩
  exact absurd ((h p).count_le q) (Nat.not_le.mpr hlt)

/-- The clients stay on their interfaces, and active. -/
structure SameIfaces (m m' : NodeMap K (ClientInfo A)) : Prop where
  find : m'.find = m.find
  node : ∀ p, (m'.node p).map (fun c => (c.isActive, c.pIface)) =
    (m.node p).map fun c => (c.isActive, c.pIface)

namespace SameIfaces

variable {m m' m'' : NodeMap K (ClientInfo A)}

theorem refl (m : NodeMap K (ClientInfo A)) : SameIfaces m m := ⟨rfl, fun _ => rfl⟩

theorem trans (h : SameIfaces m m') (h' : SameIfaces m' m'') : SameIfaces m m'' where
  find := h'.find.trans h.find
  node := fun p => (h'.node p).trans (h.node p)

theorem node_some (h : SameIfaces m m') {p : ℕ} {c : ClientInfo A} (hc : m'.node p = some c) :
    ∃ c', m.node p = some c' ∧ c'.isActive = c.isActive ∧ c'.pIface = c.pIface := by
  have hnode := (h.node p).symm
  rw [hc, map_some, map_eq_some_iff] at hnode
  obtain ⟨c', hc', heq⟩ := hnode
  exact ⟨c', hc', congrArg Prod.fst heq, congrArg Prod.snd heq⟩

theorem clientIface_eq (h : SameIfaces m m') : clientIface m' = clientIface m := by
  have hiface : ∀ p, (m'.node p).map ClientInfo.pIface = (m.node p).map ClientInfo.pIface := by
    intro p
    have hnode := congrArg (Option.map Prod.snd) (h.node p)
    rw [Option.map_map, Option.map_map] at hnode
    exact hnode
  funext k
  unfold clientIface
  rw [h.find]
  cases m.find k with
  | none => rfl
  | some p => exact hiface p

theorem inv (h : SameIfaces m m') {env : LanEnv A K κ} {posted : LanConn A → Prop}
    (hinv : CrossInv env m posted) : CrossInv env m' posted where
  active := fun p c hc => by
    obtain ⟨c', hc', hact, -⟩ := h.node_some hc
    exact hact.symm.trans (hinv.active p c' hc')
  cross := fun conn hconn => by
    unfold CrossConn
    rw [h.clientIface_eq]
    exact hinv.cross conn hconn

end SameIfaces

theorem LinkFrame.sameIfaces (h : LinkFrame s s') : SameIfaces s.clientInfo s'.clientInfo :=
  ⟨h.find, h.map_node fun _ => rfl⟩

theorem PeerFrame.sameIfaces (h : PeerFrame s s') : SameIfaces s.clientInfo s'.clientInfo :=
  ⟨h.find, h.map_node fun _ => rfl⟩

theorem PeerFrame.noNewLinks (h : PeerFrame s s') : NoNewLinks s.clientInfo s'.clientInfo := fun x => by
  rw [h.sameLinks.1]

theorem isLan2LanConnection_iff {env : LanEnv A K κ} {conn : LanConn A} :
    isLan2LanConnection env s conn ↔ CrossConn env s.clientInfo conn := by
  unfold isLan2LanConnection CrossConn
  cases clientIface s.clientInfo (env.key conn.src) with
  | none => simp
  | some =>
    cases clientIface s.clientInfo (env.key conn.dst) with
    | none | some => simp

/-! ### Inputs -/

section

variable {env : LanEnv A K κ} {s s' : LanState A K κ} {data : LanClient A} {conn : LanConn A}
  {posted : LanConn A → Prop}
variable {p x y : ℕ}

theorem clientIface_of_find {m : NodeMap K (ClientInfo A)} {k : K} {c : ClientInfo A}
    (hp : m.find k = some p) (hc : m.node p = some c) : clientIface m k = some c.pIface := by
  simp [clientIface, hp, hc]

theorem addOffloadLink_grows {r : LanState A K κ × Bool} {ops : LanOps A κ} {a b : ℕ}
    (hr : addOffloadLink ops s a b = some r)
    (hlt : (targetsOf s.clientInfo x).count y < (targetsOf r.1.clientInfo x).count y) : x = a ∧ y = b := by
  cases hflag : r.2 with
  | false =>
    obtain ⟨k, hk⟩ := addOffloadLink_false hr hflag
    rw [hk] at hlt
    exact absurd hlt (Nat.lt_irrefl _)
  | true =>
    rw [(addOffloadLink_true hr hflag).2.2] at hlt
    by_cases hx : x = a
    · refine ⟨hx, ?_⟩
      rw [hx, Function.update_self, count_append, count_singleton] at hlt
      by_contra hy
      have hyb : ¬ (b == y) = true := by simpa using fun h' => hy h'.symm
      rw [if_neg hyb] at hlt
      omega
    · rw [Function.update_of_ne hx] at hlt
      exact absurd hlt (Nat.lt_irrefl _)

/-- The links that `handle_new_lan2lan_connection()` installs are between the ends of
the connection. -/
theorem handleNewLan2LanConnection_grows (hr : handleNewLan2LanConnection env s conn = some s')
    (hlt : (targetsOf s.clientInfo x).count y < (targetsOf s'.clientInfo x).count y) :
    ∃ p q, s.clientInfo.find (env.key conn.src) = some p ∧
      s.clientInfo.find (env.key conn.dst) = some q ∧ (x = p ∧ y = q ∨ x = q ∧ y = p) := by
  obtain ⟨rfl, -⟩ | ⟨p, q, c, d, r, hp, hq, hadd, -, -, h'⟩ := handleNewLan2LanConnection_cases hr
  · exact absurd hlt (Nat.lt_irrefl _)
  refine ⟨p, q, hp, hq, ?_⟩
  rw [← (addConnection_frame hadd).sameLinks.1] at hlt
  obtain ⟨-, rfl⟩ | ⟨-, -, -, r1, h1, ⟨-, rfl⟩ | ⟨-, r2, h2, hs'⟩⟩ := h'
  · exact absurd hlt (Nat.lt_irrefl _)
  · exact .inl (addOffloadLink_grows h1 hlt)
  have hlt' : (targetsOf r.1.clientInfo x).count y < (targetsOf r2.1.clientInfo x).count y := by
    rw [hs'] at hlt
    split at hlt <;> exact hlt
  -- the count grows with the first direction, or else with the second
  rcases Nat.lt_or_ge ((targetsOf r.1.clientInfo x).count y)
    ((targetsOf r1.1.clientInfo x).count y) with hfirst | hfirst
  · exact .inl (addOffloadLink_grows h1 hfirst)
  · exact .inr (addOffloadLink_grows h2 (lt_of_le_of_lt hfirst hlt'))

theorem handleNewLan2LanConnection_ifaces (hr : handleNewLan2LanConnection env s conn = some s') :
    SameIfaces s.clientInfo s'.clientInfo := by
  obtain ⟨rfl, -⟩ | ⟨p, q, c, d, r, -, -, hadd, -, -, h'⟩ := handleNewLan2LanConnection_cases hr
  · exact SameIfaces.refl _
  refine (addConnection_frame hadd).sameIfaces.trans ?_
  obtain ⟨-, rfl⟩ | ⟨-, -, -, _, h1, ⟨-, rfl⟩ | ⟨-, _, h2, rfl⟩⟩ := h'
  · exact SameIfaces.refl _
  · exact (addOffloadLink_frame h1).sameIfaces
  have hpair := (addOffloadLink_frame h1).trans (addOffloadLink_frame h2)
  split
  · exact (hpair.trans (LinkFrame.withCount _ _)).sameIfaces
  · exact hpair.sameIfaces

theorem CrossConn.newConnection (hconn : CrossConn env s.clientInfo conn)
    (hr : handleNewLan2LanConnection env s conn = some s') :
    ∀ e ∈ installedIn env.ifCat s.clientInfo s'.clientInfo, e.1 ≠ e.2 := by
  rintro e ⟨x, y, c, d, hc, hd, hlt, rfl⟩
  obtain ⟨p, q, hp, hq, hxy⟩ := handleNewLan2LanConnection_grows hr hlt
  have hsame := handleNewLan2LanConnection_ifaces hr
  obtain ⟨i, j, hi, hj, hne⟩ := hconn
  rw [← hsame.clientIface_eq] at hi hj
  rw [← hsame.find] at hp hq
  rcases hxy with ⟨rfl, rfl⟩ | ⟨rfl, rfl⟩
  · cases hi.symm.trans (clientIface_of_find hp hc)
    cases hj.symm.trans (clientIface_of_find hq hd)
    exact hne
  · cases hj.symm.trans (clientIface_of_find hq hc)
    cases hi.symm.trans (clientIface_of_find hp hd)
    exact hne.symm

theorem handleDelLan2LanConnection_active [DecidableEq K] (hact : ∀ p c, s.clientInfo.node p = some c → c.isActive)
    (hr : handleDelLan2LanConnection env s conn = some s') :
    SameIfaces s.clientInfo s'.clientInfo ∧ NoNewLinks s.clientInfo s'.clientInfo := by
  obtain ⟨rfl, -⟩ | ⟨p, q, r, -, -, hrem, h'⟩ := handleDelLan2LanConnection_cases hr
  · exact ⟨SameIfaces.refl _, fun x => List.Sublist.refl _⟩
  have hframe := removeConnection_frame hrem
  obtain ⟨-, rfl⟩ | ⟨-, _, _, h1, h2, h3⟩ := h'
  · exact ⟨hframe.sameIfaces, hframe.noNewLinks⟩
  have hsame := hframe.sameIfaces.trans (eraseLinks_frame h1).sameIfaces
  -- nobody is idle
  have hstay : ∀ {t t' : LanState A K κ} {k : K} {x : ℕ},
      SameIfaces s.clientInfo t.clientInfo → eraseIfIdle t k x = some t' → t' = t := by
    intro t _ k x ht he
    obtain ⟨c, hc, ⟨hidle, -⟩ | ⟨-, rfl⟩⟩ := eraseIfIdle_cases he
    · obtain ⟨c', hc', hflag, -⟩ := ht.node_some hc
      rw [← hflag, hact x c' hc'] at hidle
      exact nomatch hidle
    · rfl
  obtain rfl := hstay hsame h2
  obtain rfl := hstay hsame h3
  exact ⟨hsame, fun x => (eraseLinks_sublist h1 x).trans (hframe.noNewLinks x)⟩

section

variable [DecidableEq A] [DecidableEq K] (hct : env.ctOpt = true)
    (h : CrossInv env s.clientInfo posted)
include hct h

theorem CrossInv.announce {t : LanState A K κ} {c : ClientInfo A} (hconn : t.connection = s.connection)
    (hiface : ∀ k, clientIface t.clientInfo k =
      if k = env.key data.ip then some data.pIface else clientIface s.clientInfo k)
    (hact : ∀ x d, t.clientInfo.node x = some d → d.isActive) (hc : t.clientInfo.node p = some c) (hip : c.ip = data.ip)
    (hcache : ∀ conn ∈ s.connection, (conn.src = data.ip → CrossEnd env s.clientInfo data (env.key conn.dst)) ∧
      (conn.dst = data.ip → CrossEnd env s.clientInfo data (env.key conn.src)))
    (hposted : ∀ conn, posted conn →
      (env.key conn.src = env.key data.ip → CrossEnd env s.clientInfo data (env.key conn.dst)) ∧
      (env.key conn.dst = env.key data.ip → CrossEnd env s.clientInfo data (env.key conn.src)))
    {r : LanState A K κ × List (LanConn A)} (hr : Ipacm.announce env t p = some r) :
    CrossInv env r.1.clientInfo fun conn => posted conn ∨ conn ∈ r.2 := by
  obtain ⟨_, hr1⟩ := announce_frame hr
  obtain ⟨_, hc', -, hr2⟩ := announce_cases hr
  cases hc.symm.trans hc'
  rw [hr1]
  refine ⟨hact, fun conn hin => ?_⟩
  show CrossConn env t.clientInfo conn
  unfold CrossConn
  rcases hin with hin | hin
  · -- posted before: only the ends that are the client have moved
    obtain ⟨i, j, hi, hj, hne⟩ := h.cross conn hin
    obtain ⟨hsrc, hdst⟩ := hposted conn hin
    rw [hiface, hiface]
    by_cases hks : env.key conn.src = env.key data.ip
    · obtain ⟨hkd, hcat⟩ := hsrc hks
      rw [if_pos hks, if_neg hkd]
      exact ⟨_, j, rfl, hj, (hcat j hj).symm⟩
    rw [if_neg hks]
    by_cases hkd : env.key conn.dst = env.key data.ip
    · rw [if_pos hkd]
      exact ⟨i, _, hi, rfl, (hdst hkd).2 i hi⟩
    · rw [if_neg hkd]
      exact ⟨i, j, hi, hj, hne⟩
  -- taken from the cache
  have hgen : generateNewConnection env t c = [] := by
    unfold generateNewConnection
    rw [if_pos hct]
  rw [hr2, hgen, nil_append, checkCacheConnection, if_pos hct, mem_filter, hconn] at hin
  obtain ⟨hmem, hcached⟩ := hin
  obtain ⟨hsrc, hdst⟩ := hcache conn hmem
  have hknown : ∀ k, (t.clientInfo.find k).isSome = true → CrossEnd env s.clientInfo data k →
      ∃ i, clientIface t.clientInfo k = some i ∧ env.ifCat i ≠ env.ifCat data.pIface := by
    intro k hk hend
    obtain ⟨q, hq⟩ := isSome_iff_exists.mp hk
    obtain ⟨d, hd⟩ := NodeMap.node_of_find hq
    have hi := clientIface_of_find hq hd
    refine ⟨d.pIface, hi, hend.2 d.pIface ?_⟩
    rwa [hiface, if_neg hend.1] at hi
  have hself : clientIface t.clientInfo (env.key data.ip) = some data.pIface := by
    rw [hiface, if_pos rfl]
  simp only [isCachedFor, hip, decide_eq_true_eq] at hcached
  rcases hcached with ⟨hs, hk⟩ | ⟨hd, hk⟩
  · obtain ⟨i, hi, hcat⟩ := hknown _ hk (hsrc hs)
    exact ⟨_, i, hs ▸ hself, hi, hcat.symm⟩
  · obtain ⟨i, hi, hcat⟩ := hknown _ hk (hdst hd)
    exact ⟨i, _, hi, hd ▸ hself, hcat⟩

theorem CrossInv.clientActive (hok : CrossActive env s.toLanTable posted data)
    {r : LanState A K κ × List (LanConn A)} (hr : handleClientActive env s data = some r) :
    CrossInv env r.1.clientInfo (fun conn => posted conn ∨ conn ∈ r.2) ∧
      NoNewLinks s.clientInfo r.1.clientInfo := by
  -- the announcement leaves the links
  have hlinks : ∀ {s1 : LanState A K κ} {p : ℕ}, Ipacm.announce env s1 p = some r →
      NoNewLinks s.clientInfo s1.clientInfo → NoNewLinks s.clientInfo r.1.clientInfo := by
    intro _ p hr h1
    obtain ⟨_, hr1⟩ := announce_frame hr
    rw [hr1]
    exact h1
  obtain ⟨hnone, hr⟩ | ⟨p, c, hp, hc, h'⟩ := handleClientActive_cases hr
  · obtain ⟨p, c, hp, -⟩ | ⟨hcache, hposted⟩ := hok
    · exact nomatch hnone.symm.trans hp
    refine ⟨h.announce hct (t := insertClient env s data) (c := ⟨data.ip, data.macAddr, true,
      false, data.pIface, [], []⟩) rfl (fun k => ?_) (fun x d hd => ?_) ?_ rfl hcache hposted hr,
      hlinks hr fun x => ?_⟩
    · show clientIface (s.clientInfo.insert (env.key data.ip) _) k = _
      unfold clientIface
      rw [NodeMap.find_insert]
      split
      · simp [NodeMap.node_insert _ hnone]
      cases hk : s.clientInfo.find k with
      | none => rfl
      | some q =>
        have hq : q ≠ s.clientInfo.next := by
          rintro rfl
          obtain ⟨d, hd⟩ := NodeMap.node_of_find hk
          exact nomatch s.clientInfo.next_node.symm.trans hd
        simp [NodeMap.node_insert _ hnone, hq]
    · rw [insertClient, NodeMap.node_insert _ hnone] at hd
      split at hd
      · rw [← some.inj hd]
      · exact h.active x d hd
    · rw [insertClient, NodeMap.node_insert _ hnone, if_pos rfl]
    · rw [insertClient, targetsOf_insert hnone rfl]
  obtain ⟨-, -, rfl⟩ | ⟨_, hmac, _, r2, h1, h2, hr⟩ | ⟨hidle, -⟩ := h'
  · refine ⟨⟨h.active, fun conn hin => ?_⟩, fun x => List.Sublist.refl _⟩
    rcases hin with hin | hin
    · exact h.cross conn hin
    · exact nomatch hin
  · have hsame := (turnoffOffloadLinks_frame h1).sameIfaces.trans (clearPeerList_frame h2).sameIfaces
    have hconn : r2.1.connection = s.connection :=
      (clearPeerList_frame h2).connection.trans (turnoffOffloadLinks_frame h1).connection
    have hno : NoNewLinks s.clientInfo r2.1.clientInfo := fun x =>
      ((clearPeerList_frame h2).noNewLinks x).trans (turnoffOffloadLinks_sublist h1 x)
    rw [← hsame.find] at hp
    obtain ⟨c2, hc2⟩ := NodeMap.node_of_find hp
    have hnode : (r2.1.modify p (ClientInfo.fill data)).clientInfo.node p =
        some (ClientInfo.fill data c2) := by
      rw [LanState.modify, NodeMap.node_modify_self, hc2, map_some]
    obtain ⟨_, _, hp', hc', -, hmac'⟩ | ⟨hcache, hposted⟩ := hok
    · rw [← hsame.find] at hp'
      cases hp.symm.trans hp'
      cases hc.symm.trans hc'
      exact absurd hmac' hmac
    refine ⟨h.announce hct (t := r2.1.modify p (ClientInfo.fill data)) hconn (fun k => ?_)
      (fun x d hd => ?_) hnode rfl hcache hposted hr, hlinks hr fun x => ?_⟩
    · by_cases hk : k = env.key data.ip
      · rw [if_pos hk, hk]
        exact clientIface_of_find (m := (r2.1.modify p (ClientInfo.fill data)).clientInfo) hp hnode
      rw [if_neg hk, ← hsame.clientIface_eq]
      unfold clientIface
      show ((r2.1.clientInfo.find k).bind _).map _ = _
      cases hkq : r2.1.clientInfo.find k with
      | none => rfl
      | some q =>
        have hq : q ≠ p := by
          rintro rfl
          exact hk (r2.1.clientInfo.find_inj hkq hp)
        simp [LanState.modify, NodeMap.node_modify_of_ne _ _ _ hq]
    · rw [LanState.modify, NodeMap.node_modify] at hd
      split at hd
      · obtain ⟨_, -, rfl⟩ := map_eq_some_iff.mp hd
        rfl
      · exact (hsame.inv h).active x d hd
    · rw [targetsOf_modify p (ClientInfo.fill data) fun _ => rfl]
      exact hno x
  · exact absurd (hidle.symm.trans (h.active p c hc)) (by simp)

end

theorem handleNewConnection_clientInfo : (handleNewConnection env s conn).1.clientInfo = s.clientInfo := by
  unfold handleNewConnection cacheNewConnection
  split
  · split
    · rfl
    · split <;> rfl
  · rfl

theorem handleDelConnection_clientInfo [DecidableEq A] :
    (handleDelConnection env s conn).1.clientInfo = s.clientInfo := by
  unfold handleDelConnection removeCacheConnection
  split
  · split
    · rfl
    · split <;> rfl
  · rfl

theorem CrossConn.of_posted {c : LanConn A} (h : c ∈ (handleNewConnection env s conn).2) :
    CrossConn env s.clientInfo c := by
  unfold handleNewConnection at h
  split at h
  · split_ifs at h with htest
    · rw [mem_singleton.mp h]
      exact isLan2LanConnection_iff.mp htest
    · exact nomatch h
  · exact nomatch h

end

/-! ### Runs -/

/-- The invariant of both tables, with the connections in the queue. -/
structure CrossQueue (cfg : LanConfig κ) (s : LanQueue κ) : Prop where
  v4 : CrossInv cfg.env4 s.v4.clientInfo fun conn => .new4 conn ∈ s.posted
  v6 : CrossInv cfg.env6 s.v6.clientInfo fun conn => .new6 conn ∈ s.posted

section

variable {cfg : LanConfig κ} {s s' : LanQueue κ}

theorem CrossInv.mono {env : LanEnv A K κ} {m : NodeMap K (ClientInfo A)}
    {posted posted' : LanConn A → Prop} (h : CrossInv env m posted)
    (hsub : ∀ conn, posted' conn → posted conn ∨ CrossConn env m conn) : CrossInv env m posted' where
  active := h.active
  cross := fun conn hconn => (hsub conn hconn).elim (h.cross conn) id

theorem installedIn_self (ifCat : ℕ → ℕ) (m : NodeMap K (ClientInfo A)) : installedIn ifCat m m = ∅ :=
  NoNewLinks.installedIn (NoNewLinks.of_eq rfl) ifCat

theorem installed_of_v4 (h6 : s'.v6.clientInfo = s.v6.clientInfo)
    (h4 : ∀ e ∈ installedIn cfg.ifCat s.v4.clientInfo s'.v4.clientInfo, e.1 ≠ e.2) :
    ∀ e ∈ installed cfg s s', e.1 ≠ e.2 := by
  intro e he
  rw [installed, h6, installedIn_self, Set.union_empty] at he
  exact h4 e he

theorem installed_of_v6 (h4 : s'.v4.clientInfo = s.v4.clientInfo)
    (h6 : ∀ e ∈ installedIn cfg.ifCat s.v6.clientInfo s'.v6.clientInfo, e.1 ≠ e.2) :
    ∀ e ∈ installed cfg s s', e.1 ≠ e.2 := by
  intro e he
  rw [installed, h4, installedIn_self, Set.empty_union] at he
  exact h6 e he

theorem forall_installedIn_of_noNew {ifCat : ℕ → ℕ} {m m' : NodeMap K (ClientInfo A)}
    (h : NoNewLinks m m') : ∀ e ∈ installedIn ifCat m m', e.1 ≠ e.2 := by
  intro e he
  rw [h.installedIn] at he
  exact absurd he (Set.notMem_empty e)

theorem CrossQueue.deliver {ev : PostedEvent} {rest : List PostedEvent} {t : LanToLan κ}
    (h : CrossQueue cfg s) (hq : s.posted = ev :: rest) (ht : LanToLan.step cfg s.toLanToLan ev.event = some t) :
    CrossQueue cfg ⟨t, rest⟩ ∧ ∀ e ∈ installed cfg s ⟨t, rest⟩, e.1 ≠ e.2 := by
  have hrest : ∀ ev', ev' ∈ rest → ev' ∈ s.posted := fun ev' hev' =>
    hq ▸ mem_cons_of_mem _ hev'
  have hhead : ev ∈ s.posted := hq ▸ mem_cons_self ..
  have h4 := h.v4.mono fun conn hconn => Or.inl (hrest _ hconn)
  have h6 := h.v6.mono fun conn hconn => Or.inl (hrest _ hconn)
  cases ev with
  | new4 conn =>
    obtain ⟨r, hr, rfl⟩ := map_eq_some_iff.mp ht
    obtain ⟨s1, hs1, rfl⟩ := map_eq_some_iff.mp hr
    exact ⟨⟨(handleNewLan2LanConnection_ifaces hs1).inv h4, h6⟩,
      installed_of_v4 rfl ((h.v4.cross conn hhead).newConnection hs1)⟩
  | del4 =>
    obtain ⟨r, hr, rfl⟩ := map_eq_some_iff.mp ht
    obtain ⟨s1, hs1, rfl⟩ := map_eq_some_iff.mp hr
    obtain ⟨hsame, hno⟩ := handleDelLan2LanConnection_active h4.active hs1
    exact ⟨⟨hsame.inv h4, h6⟩, installed_of_v4 rfl (forall_installedIn_of_noNew hno)⟩
  | new6 conn =>
    obtain ⟨r, hr, rfl⟩ := map_eq_some_iff.mp ht
    obtain ⟨s1, hs1, rfl⟩ := map_eq_some_iff.mp hr
    exact ⟨⟨h4, (handleNewLan2LanConnection_ifaces hs1).inv h6⟩,
      installed_of_v6 rfl ((h.v6.cross conn hhead).newConnection hs1)⟩
  | del6 =>
    obtain ⟨r, hr, rfl⟩ := map_eq_some_iff.mp ht
    obtain ⟨_, hs1, rfl⟩ := map_eq_some_iff.mp hr
    obtain ⟨hsame, hno⟩ := handleDelLan2LanConnection_active h6.active hs1
    exact ⟨⟨h4, hsame.inv h6⟩, installed_of_v6 rfl (forall_installedIn_of_noNew hno)⟩

theorem CrossQueue.after4 (h : CrossQueue cfg s) {t : LanState UInt32 UInt32 κ}
    {evs : List PostedEvent} (h6 : ∀ conn, .new6 conn ∉ evs)
    (h4 : CrossInv cfg.env4 t.clientInfo fun conn => .new4 conn ∈ s.posted ∨ .new4 conn ∈ evs) :
    CrossQueue cfg (s.after4 t evs) where
  v4 := h4.mono fun _ hconn => Or.inl (mem_append.mp hconn)
  v6 := h.v6.mono fun conn hconn =>
    Or.inl ((mem_append.mp hconn).resolve_right (h6 conn))

theorem CrossQueue.after6 (h : CrossQueue cfg s) {t : LanState Ipv6Addr (UInt32 × UInt32) κ}
    {evs : List PostedEvent} (h4 : ∀ conn, .new4 conn ∉ evs)
    (h6 : CrossInv cfg.env6 t.clientInfo fun conn => .new6 conn ∈ s.posted ∨ .new6 conn ∈ evs) :
    CrossQueue cfg (s.after6 t evs) where
  v4 := h.v4.mono fun conn hconn =>
    Or.inl ((mem_append.mp hconn).resolve_right (h4 conn))
  v6 := h6.mono fun _ hconn => Or.inl (mem_append.mp hconn)

theorem CrossQueue.step (hct : cfg.ctOpt) {i : LanInput} (h : CrossQueue cfg s)
    (hok : CrossOk cfg s i) (hs : LanQueue.step cfg s i = some s') :
    CrossQueue cfg s' ∧ ∀ e ∈ installed cfg s s', e.1 ≠ e.2 := by
  cases i with
  | active4 =>
    obtain ⟨r, hr, rfl⟩ := map_eq_some_iff.mp hs
    obtain ⟨hinv, hno⟩ := CrossInv.clientActive (s := s.state4) hct h.v4 hok hr
    refine ⟨h.after4 (by simp) ?_, installed_of_v4 rfl (forall_installedIn_of_noNew hno)⟩
    exact hinv.mono fun conn hconn => Or.inl (by simpa using hconn)
  | active6 =>
    obtain ⟨r, hr, rfl⟩ := map_eq_some_iff.mp hs
    obtain ⟨hinv, hno⟩ := CrossInv.clientActive (s := s.state6) hct h.v6 hok hr
    refine ⟨h.after6 (by simp) ?_, installed_of_v6 rfl (forall_installedIn_of_noNew hno)⟩
    exact hinv.mono fun conn hconn => Or.inl (by simpa using hconn)
  | new4 conn =>
    cases hs
    have hsame : (handleNewConnection cfg.env4 s.state4 conn).1.clientInfo = s.v4.clientInfo :=
      handleNewConnection_clientInfo
    refine ⟨h.after4 (by simp) ?_, installed_of_v4 rfl (forall_installedIn_of_noNew (NoNewLinks.of_eq hsame))⟩
    rw [hsame]
    refine h.v4.mono fun c hc => ?_
    rcases hc with hc | hc
    · exact .inl hc
    · have hposted : c ∈ (handleNewConnection cfg.env4 s.state4 conn).2 := by simpa using hc
      exact .inr (CrossConn.of_posted hposted)
  | new6 conn =>
    cases hs
    have hsame : (handleNewConnection cfg.env6 s.state6 conn).1.clientInfo = s.v6.clientInfo :=
      handleNewConnection_clientInfo
    refine ⟨h.after6 (by simp) ?_, installed_of_v6 rfl (forall_installedIn_of_noNew (NoNewLinks.of_eq hsame))⟩
    rw [hsame]
    refine h.v6.mono fun c hc => ?_
    rcases hc with hc | hc
    · exact .inl hc
    · have hposted : c ∈ (handleNewConnection cfg.env6 s.state6 conn).2 := by simpa using hc
      exact .inr (CrossConn.of_posted hposted)
  | del4 conn =>
    cases hs
    have hsame : (handleDelConnection cfg.env4 s.state4 conn).1.clientInfo = s.v4.clientInfo :=
      handleDelConnection_clientInfo
    refine ⟨h.after4 (by simp) ?_, installed_of_v4 rfl (forall_installedIn_of_noNew (NoNewLinks.of_eq hsame))⟩
    rw [hsame]
    exact h.v4.mono fun c hc => Or.inl (hc.resolve_right (by simp))
  | del6 conn =>
    cases hs
    have hsame : (handleDelConnection cfg.env6 s.state6 conn).1.clientInfo = s.v6.clientInfo :=
      handleDelConnection_clientInfo
    refine ⟨h.after6 (by simp) ?_, installed_of_v6 rfl (forall_installedIn_of_noNew (NoNewLinks.of_eq hsame))⟩
    rw [hsame]
    exact h.v6.mono fun c hc => Or.inl (hc.resolve_right (by simp))
  | deliver =>
    unfold LanQueue.step at hs
    dsimp only at hs
    split at hs
    · cases hs
      exact ⟨h, installed_of_v4 rfl (forall_installedIn_of_noNew (NoNewLinks.of_eq rfl))⟩
    · rename_i ev rest hq
      obtain ⟨t, ht, rfl⟩ := map_eq_some_iff.mp hs
      exact h.deliver hq ht

theorem QueueReach.crossQueue (hct : cfg.ctOpt = true) {between : κ → κ → Prop} {L : Set (ℕ × ℕ)}
    (h : QueueReach cfg between (CrossOk cfg) s L) : CrossQueue cfg s ∧ ∀ e ∈ L, e.1 ≠ e.2 := by
  induction h with
  | start =>
    refine ⟨⟨⟨?_, ?_⟩, ?_, ?_⟩, fun e he => absurd he (Set.notMem_empty e)⟩
    · exact fun p c hc => absurd hc.symm (some_ne_none c)
    · exact nofun
    · exact fun p c hc => absurd hc.symm (some_ne_none c)
    · exact nofun
  | @step s _ _ _ k _ _ hok hs ih =>
    obtain ⟨hinv, hL⟩ := ih
    have hinv' : CrossQueue cfg (s.withIfaces k) := ⟨hinv.v4, hinv.v6⟩
    obtain ⟨hinv'', hnew⟩ := hinv'.step hct hok hs
    refine ⟨hinv'', fun e he => ?_⟩
    rcases he with he | he
    · exact hL e he
    · exact hnew e he

/-- **Every link ever installed is between interfaces of different categories**, in
the runs in which all activations are harmless. -/
theorem lanToLan_linksCross (hct : cfg.ctOpt = true) {between : κ → κ → Prop} {L : Set (ℕ × ℕ)}
    (h : QueueReach cfg between (CrossOk cfg) s L) : ∀ e ∈ L, e.1 ≠ e.2 :=
  (h.crossQueue hct).2

end

/-- Interfaces with themselves as category and one private subnet. -/
def sampleCtConfig : LanConfig Script := scriptConfig id true [(0xc0a80000, 0xffff0000)]

theorem lanToLan_linksCross_sample :
    ∃ s L, QueueReach sampleCtConfig (fun _ _ => True) (CrossOk sampleCtConfig) s L ∧
      (1, 2) ∈ L ∧ ∀ e ∈ L, e.1 ≠ e.2 := by
  have h0 : QueueReach sampleCtConfig (fun _ _ => True) (CrossOk sampleCtConfig) _ _ := .start .succeed
  have h1 := h0.step (.active4 ⟨0xc0a80001, 1, 1⟩) .succeed trivial
    (.inr ⟨nofun, nofun⟩) rfl
  have h2 := h1.step (.new4 ⟨0xc0a80001, 0xc0a80002⟩) .succeed trivial trivial rfl
  have h3 := h2.step (.active4 ⟨0xc0a80002, 2, 2⟩) .succeed trivial (.inr ⟨fun c hc => by
      obtain rfl := mem_singleton.mp hc
      refine ⟨nofun, fun _ => ⟨by decide, fun i hi => ?_⟩⟩
      obtain rfl : 1 = i := some.inj hi
      decide, nofun⟩) rfl
  have h₄ := h3.step .deliver .succeed trivial trivial rfl
  refine ⟨_, _, h₄, Or.inr (.inl ?_), lanToLan_linksCross rfl h₄⟩
  exact ⟨0, 1, _, _, rfl, rfl, by decide, rfl⟩

/-- A cached connection of two clients of one interface is made into a link. -/
theorem lanToLan_cachedSameCategory : ∃ s L, QueueReach sampleCtConfig (fun _ _ => True) (fun _ _ => True) s L ∧
      ∃ e ∈ L, e.1 = e.2 := by
  have h0 : QueueReach sampleCtConfig (fun _ _ => True) (fun _ _ => True) _ _ := .start .succeed
  have h1 := h0.step (.active4 ⟨0xc0a80001, 1, 1⟩) .succeed trivial trivial rfl
  have h2 := h1.step (.new4 ⟨0xc0a80001, 0xc0a80002⟩) .succeed trivial trivial rfl
  have h3 := h2.step (.active4 ⟨0xc0a80002, 2, 1⟩) .succeed trivial trivial rfl
  have h₄ := h3.step .deliver .succeed trivial trivial rfl
  refine ⟨_, _, h₄, (1, 1), Or.inr (.inl ?_), rfl⟩
  exact ⟨0, 1, _, _, rfl, rfl, by decide, rfl⟩

end G4Common.Ipacm

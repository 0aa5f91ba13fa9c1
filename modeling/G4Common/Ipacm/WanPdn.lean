/-
The modem PDNs.

`num_ipv4_modem_pdn` and `num_ipv6_modem_pdn` count the modem interfaces with an address of
the family.  The default filter rules are sent to the modem with the first of them and taken
away with the last.

The counts and the rules are right in every run whose calls meet a condition
(`wanPdn_exact`), on the state before each call: a modem interface that goes down does not
have exactly one IPv6 address, since its PDN is then not counted down, and the first
interface of a family and the last one have properties for receiving, without which nothing
is sent.
-/
import G4Common.Ipacm.Wan

namespace G4Common.Ipacm

open Broadcast Function List Bool

/-! ### What is counted -/

/-- An interface has an address of a family. -/
def Wan.holds (w : Wan) : IpType → Bool
  | .v4 => w.v4Addr.isSome
  | .v6 => w.v6Addrs ≠ []

/-- A modem interface with an address of a family. -/
def Wan.modemHolds (w : Wan) (ip : IpType) : Bool := w.mode = .q6Wan && w.holds ip

/-- `ip_type` says which addresses an interface has. -/
def Wan.TypeOk (w : Wan) : Prop := ∀ ip, w.ipType.has ip = w.holds ip

/-- The counts, and the default rules in the arrays and at the modem. -/
structure PdnState (n : IpType → ℤ) (b : IpType → Bool) (g : WanShared) : Prop where
  num : g.numModemPdn = n
  flt : ∀ ip, (g.fltRule ip).dft = b ip
  sent : ∀ ip, (g.sent ip).dft = b ip

section

variable {g : WanShared} {w : Wan} {ip j : IpType} {n : IpType → ℤ} {b : IpType → Bool}

theorem pdnState_routeKept {i : ℕ} : RouteKept i (PdnState n b) where
  route g g' hs h := by
    cases hs with
    | post | wanUp => exact ⟨h.num, h.flt, h.sent⟩
    | send => exact ⟨h.num, h.flt, h.flt⟩
    | staRules => exact ⟨h.num, h.flt, h.sent⟩
    | fltRule j =>
      refine ⟨h.num, fun k => ?_, h.sent⟩
      show (update g.fltRule j _ k).dft = b k
      rcases eq_or_ne k j with rfl | hk
      · rw [update_self]
        exact h.flt k
      · rw [update_of_ne hk]
        exact h.flt k
  tether _ _ h := ⟨h.num, h.flt, h.sent⟩

theorem PdnState.sendDft (h : PdnState n b g) (hrx : w.rx) (x : Bool) : PdnState n (update b ip x)
      (installWanFilteringRule { g with fltRule := update g.fltRule ip ⟨x, none⟩ } w) := by
  have hflt : ∀ k, (update g.fltRule ip ⟨x, none⟩ k).dft = update b ip x k := by
    intro k
    rcases eq_or_ne k ip with rfl | hk
    · rw [update_self, update_self]
    · rw [update_of_ne hk, update_of_ne hk]
      exact h.flt k
  rw [installWanFilteringRule, if_pos hrx]
  exact ⟨h.num, hflt, hflt⟩

/-! ### The first address -/

theorem PdnState.firstAddr (h : PdnState n b g) (hq : w.mode = .q6Wan) (hhas : w.ipType.has ip = false)
    (hb : b ip = decide (0 < n ip)) (hn : 0 ≤ n ip) (hrx : n ip = 0 → w.rx) :
    PdnState (Function.update n ip (n ip + 1)) (Function.update b ip true) (Ipacm.firstAddr g w ip).1 := by
  have hnum : g.numModemPdn ip = n ip := congrFun h.num ip
  have hcount : PdnState (update n ip (n ip + 1)) b
      { g with numModemPdn := update g.numModemPdn ip (g.numModemPdn ip + 1) } :=
    ⟨by rw [h.num], h.flt, h.sent⟩
  unfold Ipacm.firstAddr WanShared.initFlRuleEx
  rw [if_pos hq]
  dsimp only
  rw [hhas, if_neg Bool.false_ne_true]
  dsimp only
  by_cases hzero : n ip = 0
  · have hindex : update w.modemPdnIndex ip (g.numModemPdn ip) ip = 0 := by
      rw [update_self, hnum, hzero]
    rw [if_pos hindex, hrx hzero]
    exact hcount.sendDft (hrx hzero) true
  have hindex : update w.modemPdnIndex ip (g.numModemPdn ip) ip ≠ 0 := by
    rw [update_self, hnum]
    exact hzero
  -- the rules are there already
  have htrue : update b ip true = b := by
    rw [update_eq_self_iff, hb]
    exact (decide_eq_true (by omega)).symm
  rw [if_neg hindex, htrue]
  exact (pdnState_routeKept (i := 0)).install hcount

/-! ### The end of an interface -/

theorem PdnState.countDown (h : PdnState n b g) (hlen : w.v6Addrs.length ≠ 1) (hhas : w.holds ip) :
    PdnState (update n ip (n ip - 1)) b (Ipacm.countDown g w ip) := by
  cases ip with
  | v4 => exact ⟨by rw [← h.num]; rfl, h.flt, h.sent⟩
  | v6 =>
    have hne : w.v6Addrs ≠ [] := by simpa [Wan.holds] using hhas
    have hpos := length_pos_of_ne_nil hne
    rw [Ipacm.countDown, if_pos (by omega)]
    exact ⟨by rw [← h.num], h.flt, h.sent⟩

theorem PdnState.lastDown (h : PdnState n b g) (hrx : n ip = 0 → w.rx) :
    PdnState n (update b ip (b ip && decide (n ip ≠ 0))) (Ipacm.lastDown g w ip) := by
  have hnum : g.numModemPdn ip = n ip := congrFun h.num ip
  unfold Ipacm.lastDown
  by_cases hzero : n ip = 0
  · rw [hnum, if_pos hzero, hzero, decide_eq_false (not_not_intro rfl), Bool.and_false]
    exact h.sendDft (hrx hzero) false
  · rw [hnum, if_neg hzero, decide_eq_true hzero, Bool.and_true, update_eq_self]
    exact h

theorem PdnState.closeFamily (ip : IpType) (h : PdnState n b g) (hb : b ip) (hn : 0 ≤ n ip) (hrx : n ip = 0 → w.rx) :
    PdnState n (update b ip (decide (0 < n ip))) (Ipacm.lastDown g w ip) := by
  have hlast := h.lastDown hrx
  have hdec : (b ip && decide (n ip ≠ 0)) = decide (0 < n ip) := by
    rw [hb, Bool.true_and, decide_eq_decide]
    omega
  rwa [hdec] at hlast

/-- The rules are right for the counts `n`. -/
def PdnRight (n : IpType → ℤ) (g : WanShared) : Prop := PdnState n (fun ip => decide (0 < n ip)) g

theorem PdnState.right (h : PdnState n b g) (hb : ∀ ip, b ip = decide (0 < n ip)) : PdnRight n g :=
  ⟨h.num, fun ip => (h.flt ip).trans (hb ip), fun ip => (h.sent ip).trans (hb ip)⟩

theorem PdnRight.downOne {android : Bool} (h : PdnRight n g) (hlen : w.v6Addrs.length ≠ 1)
    (hhas : w.holds ip) (hpos : 0 < n ip) (hrx : n ip = 1 → w.rx) :
    PdnRight (update n ip (n ip - 1))
      (lastDown (if w.isDefaultGateway then
          installWanFilteringRule (gatewayDown (countDown g w ip) w ip android).1 w
        else countDown g w ip) w ip) := by
  have hkept := pdnState_routeKept (n := update n ip (n ip - 1)) (b := fun ip => decide (0 < n ip)) (i := w.ifNum)
  have hcount := h.countDown hlen hhas
  have hgate : PdnState (update n ip (n ip - 1)) (fun ip => decide (0 < n ip)) (if w.isDefaultGateway then
        installWanFilteringRule (gatewayDown (countDown g w ip) w ip android).1 w
      else countDown g w ip) := by
    split
    · exact hkept.install (hkept.gatewayDown hcount)
    · exact hcount
  have hn : update n ip (n ip - 1) ip = n ip - 1 := update_self ..
  refine (hgate.closeFamily ip (decide_eq_true hpos) (by omega) (fun h0 => hrx (by omega))).right fun k => ?_
  rcases eq_or_ne k ip with rfl | hk
  · rw [update_self]
  · rw [update_of_ne hk, update_of_ne hk]

theorem PdnRight.downBoth {android : Bool} (h : PdnRight n g) (hlen : w.v6Addrs.length ≠ 1)
    (hhas : ∀ ip, w.holds ip) (hpos : ∀ ip, 0 < n ip) (hrx : ∀ ip, n ip = 1 → w.rx) :
    PdnRight (fun ip => n ip - 1)
      (lastDown (lastDown (if w.isDefaultGateway then installWanFilteringRule
            (gatewayDown (gatewayDown (countDown (countDown g w .v4) w .v6) w .v4 android).1
              (gatewayDown (countDown (countDown g w .v4) w .v6) w .v4 android).2 .v6 android).1 w
        else countDown (countDown g w .v4) w .v6) w .v4) w .v6) := by
  have hkept := pdnState_routeKept (n := fun ip => n ip - 1) (b := fun ip => decide (0 < n ip)) (i := w.ifNum)
  have hn : update (update n .v4 (n .v4 - 1)) .v6 (update n .v4 (n .v4 - 1) .v6 - 1) = fun ip => n ip - 1 := by
    funext ip
    cases ip <;> rfl
  have hcount := (h.countDown hlen (hhas .v4)).countDown hlen (hhas .v6)
  rw [hn] at hcount
  have hgate : PdnState (fun ip => n ip - 1) (fun ip => decide (0 < n ip)) (if w.isDefaultGateway then
        installWanFilteringRule
          (gatewayDown (gatewayDown (countDown (countDown g w .v4) w .v6) w .v4 android).1
            (gatewayDown (countDown (countDown g w .v4) w .v6) w .v4 android).2 .v6 android).1 w
      else countDown (countDown g w .v4) w .v6) := by
    split
    · exact hkept.install (hkept.gatewayDown (hkept.gatewayDown hcount))
    · exact hcount
  have hpos4 := hpos .v4
  have hpos6 := hpos .v6
  have hclose := hgate.closeFamily (w := w) .v4 (decide_eq_true hpos4) (by omega) (fun h0 => hrx .v4 (by omega))
  refine (hclose.closeFamily (w := w) .v6 (decide_eq_true hpos6) (by omega)
    (fun h0 => hrx .v6 (by omega))).right fun k => ?_
  cases k <;> rfl

/-- The counts without the PDNs of an interface. -/
def Wan.leaves (w : Wan) (n : IpType → ℤ) (ip : IpType) : ℤ := n ip - (w.ipType.has ip).toNat

theorem PdnRight.handleDownEvtEx (android : Bool) (h : PdnRight n g) (ht : w.TypeOk)
    (hlen : w.v6Addrs.length ≠ 1) (hpos : ∀ ip, w.ipType.has ip → 0 < n ip)
    (hrx : ∀ ip, w.ipType.has ip → n ip = 1 → w.rx) : PdnRight (w.leaves n) (Ipacm.handleDownEvtEx g w android) := by
  have hholds : ∀ ip, w.ipType.has ip = true → w.holds ip = true := fun ip hip => (ht ip).symm.trans hip
  rcases htype : w.ipType with _ | _ | _ | _
  · have hn : w.leaves n = n := funext fun ip => by
      rw [Wan.leaves, htype]
      exact Int.sub_zero _
    rw [Ipacm.handleDownEvtEx, htype, hn]
    exact h
  · have hhas : w.ipType.has .v4 = true := by rw [htype]; rfl
    have hn : w.leaves n = update n .v4 (n .v4 - 1) := by
      funext ip
      rw [Wan.leaves, htype]
      cases ip with
      | v4 => rfl
      | v6 => exact Int.sub_zero _
    rw [Ipacm.handleDownEvtEx, htype, hn]
    exact h.downOne hlen (hholds .v4 hhas) (hpos .v4 hhas) (hrx .v4 hhas)
  · have hhas : w.ipType.has .v6 = true := by rw [htype]; rfl
    have hn : w.leaves n = update n .v6 (n .v6 - 1) := by
      funext ip
      rw [Wan.leaves, htype]
      cases ip with
      | v4 => exact Int.sub_zero _
      | v6 => rfl
    rw [Ipacm.handleDownEvtEx, htype, hn]
    exact h.downOne hlen (hholds .v6 hhas) (hpos .v6 hhas) (hrx .v6 hhas)
  have hhas : ∀ ip, w.ipType.has ip = true := fun ip => by rw [htype]; rfl
  have hn : w.leaves n = fun ip => n ip - 1 := by
    funext ip
    rw [Wan.leaves, htype]
    rfl
  rw [Ipacm.handleDownEvtEx, htype, hn]
  exact h.downBoth hlen (fun ip => hholds ip (hhas ip)) (fun ip => hpos ip (hhas ip)) fun ip => hrx ip (hhas ip)

/-! ### Addresses -/

theorem firstAddr_ipType (hhas : w.ipType.has ip = false) :
    (firstAddr g w ip).2.toWanConf = w.toWanConf ∧ (firstAddr g w ip).2.ipType = w.ipType.add ip ∧
      (firstAddr g w ip).2.v4Addr = w.v4Addr ∧ (firstAddr g w ip).2.v6Addrs = w.v6Addrs := by
  unfold firstAddr WanShared.initFlRuleEx initFlRule
  split
  · dsimp only
    rw [hhas, if_neg Bool.false_ne_true]
    exact ⟨rfl, rfl, rfl, rfl⟩
  · rw [hhas, if_neg Bool.false_ne_true]
    exact ⟨rfl, rfl, rfl, rfl⟩

/-- What an address changes: the interface has the family, and a first address of a modem
interface is counted. -/
structure AddrSpec (g : WanShared) (w : Wan) (a : WanAddr) (r : WanShared × Wan) : Prop where
  conf : r.2.toWanConf = w.toWanConf
  typeOk : r.2.TypeOk
  holds : ∀ ip, r.2.holds ip = (w.holds ip || decide (ip = a.ip))
  shared : r.1 = if w.holds a.ip then g else (firstAddr g w a.ip).1

theorem holds_or_self (h : w.holds j) : w.holds ip = (w.holds ip || decide (ip = j)) := by
  rcases eq_or_ne ip j with rfl | hip
  · rw [h, Bool.true_or]
  · rw [decide_eq_false hip, Bool.or_false]

theorem AddrSpec.handleAddrEvt {a : WanAddr} (ht : w.TypeOk) (hwants : w.wantsAddr a.ip) :
    AddrSpec g w a (Ipacm.handleAddrEvt g w a) := by
  cases a with
  | v4 a =>
    have hhas : w.ipType.has .v4 = false := by
      simp only [WanAddr.ip, Wan.wantsAddr, decide_eq_true_eq] at hwants
      cases htype : w.ipType with
      | null => rfl
      | v4 => exact absurd htype hwants.1
      | v6 => rfl
      | max => exact absurd htype hwants.2
    have hnot : w.holds .v4 = false := (ht .v4).symm.trans hhas
    obtain ⟨hconf, htype, -, hv6⟩ := firstAddr_ipType (g := g) hhas
    have hholds : ∀ ip, (Ipacm.handleAddrEvt g w (.v4 a)).2.holds ip = (w.holds ip || decide (ip = .v4)) := by
      intro ip
      cases ip with
      | v4 => exact (Bool.or_true _).symm
      | v6 =>
        show decide ((firstAddr g w .v4).2.v6Addrs ≠ []) = (decide (w.v6Addrs ≠ []) || false)
        rw [hv6, Bool.or_false]
    refine ⟨hconf, fun ip => ?_, hholds, ?_⟩
    · show (firstAddr g w .v4).2.ipType.has ip = _
      rw [hholds, htype, IfaceIpType.has_add hhas, ht]
    · show (firstAddr g w .v4).1 = if w.holds .v4 then g else _
      rw [hnot, if_neg Bool.false_ne_true]
      rfl
  | v6 a =>
    rw [Ipacm.handleAddrEvt]
    split
    case isTrue hmem =>
      -- the address is known
      have hhas : w.holds .v6 = true := decide_eq_true (ne_nil_of_mem hmem)
      refine ⟨rfl, ht, fun ip => holds_or_self hhas, ?_⟩
      show g = if w.holds .v6 then g else _
      rw [if_pos hhas]
    case isFalse hmem =>
      dsimp only
      split
      case isTrue hnil =>
        have hnot : w.holds .v6 = false := decide_eq_false (not_not_intro hnil)
        have hhas : w.ipType.has .v6 = false := (ht .v6).trans hnot
        obtain ⟨hconf, htype, hv4, -⟩ := firstAddr_ipType (g := g) hhas
        have hholds : ∀ ip, Wan.holds { (firstAddr g w .v6).2 with
            v6Addrs := (firstAddr g w .v6).2.v6Addrs ++ [a] } ip = (w.holds ip || decide (ip = .v6)) := by
          intro ip
          cases ip with
          | v4 =>
            show (firstAddr g w .v6).2.v4Addr.isSome = (w.v4Addr.isSome || false)
            rw [hv4, Bool.or_false]
          | v6 => exact (decide_eq_true (append_ne_nil_of_right_ne_nil _ (cons_ne_nil a []))).trans (Bool.or_true _).symm
        refine ⟨hconf, fun ip => ?_, hholds, ?_⟩
        · rw [hholds]
          show (firstAddr g w .v6).2.ipType.has ip = _
          rw [htype, IfaceIpType.has_add hhas, ht]
        · show (firstAddr g w .v6).1 = if w.holds .v6 then g else _
          rw [hnot, if_neg Bool.false_ne_true]
          rfl
      case isFalse hcons =>
        have hhas : w.holds .v6 = true := decide_eq_true hcons
        have hholds : ∀ ip, Wan.holds { w with v6Addrs := w.v6Addrs ++ [a] } ip = w.holds ip := by
          intro ip
          cases ip with
          | v4 => rfl
          | v6 => exact (decide_eq_true (append_ne_nil_of_left_ne_nil hcons _)).trans hhas.symm
        refine ⟨rfl, fun ip => (ht ip).trans (hholds ip).symm, fun ip => ?_, ?_⟩
        · exact (hholds ip).trans (holds_or_self hhas)
        · show g = if w.holds .v6 then g else _
          rw [if_pos hhas]

/-! ### Calls -/

/-- An event gives an interface its first address of a family. -/
def Wan.getsFirst (w : Wan) (ip : IpType) : WanEvt → Bool
  | .addrAdd i a => a.isValid ∧ w.ifNum = i ∧ a.ip = ip ∧ w.holds ip = false
  | _ => false

/-- The condition on a call for a modem interface. -/
structure Wan.PdnOk (e : WanEvt) (g : WanShared) (w : Wan) : Prop where
  /-- The default rules can be sent with the first PDN. -/
  first : w.mode = .q6Wan → ∀ ip, w.getsFirst ip e = true → g.numModemPdn ip = 0 → w.rx = true
  /-- An IPv6 PDN that goes down has had two addresses. -/
  down : w.mode = .q6Wan → w.closes e = true → w.v6Addrs.length ≠ 1
  /-- They can be taken away with the last. -/
  last : w.mode = .q6Wan → w.closes e = true →
    ∀ ip, w.holds ip = true → g.numModemPdn ip = 1 → w.rx = true

instance (e : WanEvt) (g : WanShared) (w : Wan) : Decidable (w.PdnOk e g) :=
  decidable_of_iff
    ((w.mode = .q6Wan → ∀ ip, w.getsFirst ip e = true → g.numModemPdn ip = 0 → w.rx = true) ∧
      (w.mode = .q6Wan → w.closes e = true → w.v6Addrs.length ≠ 1) ∧
      (w.mode = .q6Wan → w.closes e = true → ∀ ip, w.holds ip = true → g.numModemPdn ip = 1 → w.rx = true))
    ⟨fun h => ⟨h.1, h.2.1, h.2.2⟩, fun h => ⟨h.first, h.down, h.last⟩⟩

theorem PdnRight.congr {n' : IpType → ℤ} (h : PdnRight n g) (hn : ∀ ip, n ip = n' ip) : PdnRight n' g := by
  rwa [← funext hn]

theorem modemHolds_of_q6 (hq : w.mode = .q6Wan) : w.modemHolds ip = w.holds ip := by
  rw [Wan.modemHolds, decide_eq_true hq, Bool.true_and]

theorem modemHolds_of_not_q6 (hq : w.mode ≠ .q6Wan) : w.modemHolds ip = false := by
  rw [Wan.modemHolds, decide_eq_false hq, Bool.false_and]

/-- The counts after a call, in which an instance becomes another or is deleted. -/
def pdnAfter (n : IpType → ℤ) (w : Wan) (o : Option Wan) (ip : IpType) : ℤ :=
  n ip - (w.modemHolds ip).toNat + (o.toList.countP fun w => w.modemHolds ip)

theorem pdnAfter_some {w' : Wan} :
    pdnAfter n w (some w') ip = n ip - (w.modemHolds ip).toNat + (w'.modemHolds ip).toNat := by
  rw [pdnAfter, Option.toList_some, countP_singleton]
  cases w'.modemHolds ip <;> rfl

/-- A call leaves the counts right. -/
structure PdnCall (n : IpType → ℤ) (w : Wan) (r : WanShared × Option Wan) : Prop where
  typeOk : ∀ w' ∈ r.2.toList, w'.TypeOk
  right : PdnRight (pdnAfter n w r.2) r.1

theorem PdnCall.down {android : Bool} (h : PdnRight n g) (ht : w.TypeOk)
    (hpos : ∀ ip, w.modemHolds ip → 0 < n ip) {e : WanEvt} (hcloses : w.closes e) (hok : w.PdnOk e g) :
    PdnCall n w (if w.mode = .q6Wan then handleDownEvtEx g w android else handleDownEvt g w, none) := by
  refine ⟨nofun, ?_⟩
  by_cases hq : w.mode = .q6Wan
  · rw [if_pos hq]
    have hholds : ∀ ip, w.ipType.has ip = true → w.holds ip = true := fun ip hip => (ht ip).symm.trans hip
    have hend := h.handleDownEvtEx android ht (hok.down hq hcloses)
      (fun ip hip => hpos ip ((modemHolds_of_q6 hq).trans (hholds ip hip)))
      (fun ip hip h1 => hok.last hq hcloses ip (hholds ip hip) ((congrFun h.num ip).trans h1))
    refine hend.congr fun ip => ?_
    show _ = n ip - (w.modemHolds ip).toNat + 0
    rw [Wan.leaves, ht, modemHolds_of_q6 hq, add_zero]
  rw [if_neg hq]
  have hend : PdnRight n (handleDownEvt g w) := routeSteps_handleDownEvt.keeps pdnState_routeKept.route h
  refine hend.congr fun ip => ?_
  show _ = n ip - (w.modemHolds ip).toNat + 0
  rw [modemHolds_of_not_q6 hq]
  exact (Int.sub_zero _).symm.trans (add_zero _).symm

theorem PdnCall.same {w' : Wan} (h : PdnRight n g) (ht : w.TypeOk) (hbase : w'.base = w.base) :
    PdnCall n w (g, some w') := by
  have hmode : w'.mode = w.mode := congrArg (fun b => b.1.mode) hbase
  have htype : w'.ipType = w.ipType := congrArg (fun b => b.2.1) hbase
  have hholds : ∀ ip, w'.holds ip = w.holds ip := by
    intro ip
    cases ip with
    | v4 => exact congrArg (fun b => b.2.2.1.isSome) hbase
    | v6 => exact congrArg (fun b => decide (b.2.2.2 ≠ [])) hbase
  refine ⟨fun w'' hw'' ip => ?_, h.congr fun ip => ?_⟩
  · rw [mem_singleton.mp hw'', htype, hholds]
    exact ht ip
  · rw [pdnAfter_some, Wan.modemHolds, Wan.modemHolds, hmode, hholds]
    omega

theorem PdnCall.addrAdd {a : WanAddr} {i : ℕ} (h : PdnRight n g) (ht : w.TypeOk) (hn : ∀ ip, 0 ≤ n ip)
    (hvalid : a.isValid) (hi : w.ifNum = i) (hwants : w.wantsAddr a.ip) (hok : w.PdnOk (.addrAdd i a) g) :
    PdnCall n w ((handleAddrEvt g w a).1, some (handleAddrEvt g w a).2) := by
  have hspec := AddrSpec.handleAddrEvt (g := g) ht hwants
  have hmode : (handleAddrEvt g w a).2.mode = w.mode := congrArg WanConf.mode hspec.conf
  refine ⟨fun w' hw' => ?_, ?_⟩
  · rw [mem_singleton.mp hw']
    exact hspec.typeOk
  by_cases hq : w.mode = .q6Wan
  · by_cases hhas : w.holds a.ip = true
    · -- the family has been counted
      show PdnRight _ (handleAddrEvt g w a).1
      rw [hspec.shared, if_pos hhas]
      refine h.congr fun ip => ?_
      rw [pdnAfter_some, modemHolds_of_q6 hq, modemHolds_of_q6 (hmode.trans hq), hspec.holds,
        ← holds_or_self hhas]
      omega
    have hnot : w.holds a.ip = false := eq_false_iff.mpr hhas
    have hfirst : w.getsFirst a.ip (.addrAdd i a) = true := decide_eq_true ⟨hvalid, hi, rfl, hnot⟩
    have hcount := PdnState.firstAddr h hq ((ht a.ip).trans hnot) rfl (hn a.ip)
      fun h0 => hok.first hq a.ip hfirst ((congrFun h.num a.ip).trans h0)
    have hpos := hn a.ip
    show PdnRight _ (handleAddrEvt g w a).1
    rw [hspec.shared, if_neg hhas]
    refine (hcount.right fun ip => ?_).congr fun ip => ?_
    · rcases eq_or_ne ip a.ip with rfl | hip
      · rw [update_self, update_self]
        exact (decide_eq_true (by omega)).symm
      · rw [update_of_ne hip, update_of_ne hip]
    rw [pdnAfter_some, modemHolds_of_q6 hq, modemHolds_of_q6 (hmode.trans hq), hspec.holds]
    rcases eq_or_ne ip a.ip with rfl | hip
    · rw [update_self, hnot, decide_eq_true rfl]
      exact congrArg (· + 1) (Int.sub_zero _).symm
    · rw [update_of_ne hip, decide_eq_false hip, Bool.or_false]
      omega
  have hshared : (handleAddrEvt g w a).1 = g := by
    rw [hspec.shared]
    split
    · rfl
    · rw [firstAddr, if_neg hq]
  show PdnRight _ (handleAddrEvt g w a).1
  rw [hshared]
  refine h.congr fun ip => ?_
  rw [pdnAfter_some, modemHolds_of_not_q6 hq, modemHolds_of_not_q6 (hmode.trans_ne hq)]
  exact (Int.sub_zero _).symm.trans (add_zero _).symm

theorem PdnCall.eventCallback {android : Bool} {e : WanEvt} (h : PdnRight n g) (ht : w.TypeOk)
    (hn : ∀ ip, 0 ≤ n ip) (hpos : ∀ ip, w.modemHolds ip → 0 < n ip) (hok : w.PdnOk e g) :
    PdnCall n w (w.eventCallback android g e) := by
  unfold Wan.eventCallback
  split
  case isTrue hcloses => exact PdnCall.down h ht hpos hcloses hok
  case isFalse hopen =>
    by_cases he : ∀ i a, e ≠ .addrAdd i a
    · exact PdnCall.same (pdnState_routeKept.handleEvt he h) ht (base_handleEvt he)
    push Not at he
    obtain ⟨i, a, rfl⟩ := he
    rw [handleEvt]
    split
    case isTrue hadd => exact PdnCall.addrAdd h ht hn hadd.1 hadd.2.1 hadd.2.2 hok
    case isFalse => exact PdnCall.same h ht rfl

end

/-! ### All instances -/

/-- The counts are those of the modem interfaces with an address. -/
structure PdnInv (g : WanShared) (l : List Wan) : Prop where
  typeOk : ∀ w ∈ l, w.TypeOk
  right : PdnRight (fun ip => (l.countP fun w => w.modemHolds ip : ℕ)) g

theorem PdnInv.call {android : Bool} {e : WanEvt} {g : WanShared} {w : Wan} {pre post : List Wan}
    (hok : w.PdnOk e g) (h : PdnInv g (pre ++ w :: post)) :
    PdnInv (w.eventCallback android g e).1 (pre ++ ((w.eventCallback android g e).2.toList ++ post)) := by
  have hmem : w ∈ pre ++ w :: post := mem_append_right _ mem_cons_self
  have hcall : PdnCall _ w (w.eventCallback android g e) :=
    PdnCall.eventCallback h.right (h.typeOk w hmem) (fun ip => Int.natCast_nonneg _)
      (fun ip hw => Int.natCast_pos.mpr (countP_pos_iff.mpr ⟨w, hmem, hw⟩)) hok
  refine ⟨fun w' hw' => ?_, hcall.right.congr fun ip => ?_⟩
  · rcases mem_append.mp hw' with hpre | hrest
    · exact h.typeOk w' (mem_append_left _ hpre)
    · rcases mem_append.mp hrest with hnew | hpost
      · exact hcall.typeOk w' hnew
      · exact h.typeOk w' (mem_append_right _ (mem_cons_of_mem _ hpost))
  · rw [pdnAfter]
    simp only [countP_append, countP_cons]
    cases w.modemHolds ip <;> simp <;> omega

def PdnStepOk (android : Bool) (s : WanState) : WanAct → Prop
  | .create _ => True
  | .evt e => AllCalls (fun g w => w.eventCallback android g e) (Wan.PdnOk e) s.shared s.insts

instance (android : Bool) (s : WanState) : (a : WanAct) → Decidable (PdnStepOk android s a)
  | .create _ => inferInstanceAs (Decidable True)
  | .evt e =>
    inferInstanceAs (Decidable (AllCalls (fun g w => w.eventCallback android g e) (Wan.PdnOk e) s.shared s.insts))

theorem PdnInv.step {android : Bool} {s : WanState} {a : WanAct} (hok : PdnStepOk android s a)
    (h : PdnInv s.shared s.insts) : PdnInv (wanStep android s a).shared (wanStep android s a).insts := by
  cases a with
  | create c =>
    rw [wanStep]
    split
    · exact h
    refine ⟨fun w hw => ?_, h.right.congr fun ip => ?_⟩
    · rcases mem_append.mp hw with hw | hw
      · exact h.typeOk w hw
      · rw [mem_singleton.mp hw]
        intro ip
        cases ip <;> rfl
    -- a new instance has no address
    have hnew : (Wan.new c).modemHolds ip = false := by
      cases ip <;> exact and_false _
    show _ = ((s.insts ++ [Wan.new c]).countP _ : ℤ)
    rw [countP_append, countP_singleton, hnew]
    rfl
  | evt => exact dispatch_invariant (I := PdnInv) (fun g w pre post hok h => h.call hok) hok h

/-! ### Runs -/

/-- What the counts and the default rules are in a state. -/
structure PdnSpec (s : WanState) (ip : IpType) : Prop where
  num : s.shared.numModemPdn ip = (s.insts.countP fun w => w.modemHolds ip : ℕ)
  nonneg : 0 ≤ s.shared.numModemPdn ip
  dft : (s.shared.sent ip).dft = true ↔ 0 < s.shared.numModemPdn ip

/-- **In every run whose calls meet the condition, the counts are the modem interfaces with
an address of the family, and the default rules are there as long as there is one.** -/
theorem wanPdn_exact (android : Bool) (acts : List WanAct)
    (hok : AllSteps (wanStep android) (PdnStepOk android) WanState.init acts) (ip : IpType) :
    PdnSpec (wanRun android acts) ip := by
  have hinit : PdnInv WanState.init.shared WanState.init.insts :=
    ⟨nofun, rfl, fun _ => rfl, fun _ => rfl⟩
  have h : PdnInv (wanRun android acts).shared (wanRun android acts).insts :=
    run_invariant (I := fun s => PdnInv s.shared s.insts) (fun s a hok h => h.step hok) hok hinit
  have hnum := congrFun h.right.num ip
  refine ⟨hnum, ?_, ?_⟩
  · rw [hnum]
    exact Int.natCast_nonneg _
  · rw [h.right.sent ip, hnum, decide_eq_true_eq]

/-- Two modem interfaces, one with both families, and one of them goes down. -/
def samplePdns : List WanAct :=
  [.create (sampleModem 1), .create (sampleModem 2), .evt (.addrAdd 1 (.v4 1)), .evt (.addrAdd 2 (.v4 2)),
    .evt (.addrAdd 1 (.v6 fun _ => 1)), .evt (.addrAdd 1 (.v6 fun _ => 2)), .evt (.linkDown 1)]

theorem wanPdn_two : PdnSpec (wanRun true samplePdns) .v4 ∧ PdnSpec (wanRun true samplePdns) .v6 :=
  ⟨wanPdn_exact true samplePdns (by decide) .v4, wanPdn_exact true samplePdns (by decide) .v6⟩

/-- A modem interface with one IPv6 address. -/
def sampleOneV6 : List WanAct :=
  [.create (sampleModem 1), .evt (.addrAdd 1 (.v6 fun _ => 1)), .evt (.linkDown 1)]

/-- No interface is left, and the PDN is still counted and its default rules are there. -/
theorem wanPdn_stale :
    (wanRun true sampleOneV6).insts.length = 0 ∧ (wanRun true sampleOneV6).shared.numModemPdn .v6 = 1 ∧
      ((wanRun true sampleOneV6).shared.sent .v6).dft ∧ ¬ PdnSpec (wanRun true sampleOneV6) .v6 := by
  refine ⟨by decide, by decide, by decide, fun h => ?_⟩
  exact absurd h.num (by decide)

end G4Common.Ipacm

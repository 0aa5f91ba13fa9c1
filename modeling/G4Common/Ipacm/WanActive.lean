/-
Which WAN interface is active.

An instance becomes active for a family by a default route, or by the header that it lacked
when it got one (`Wan.becomesActive`), and stops when the route is lost or the interface goes
down (`Wan.losesRoute`) or the last tethered interface is gone (`Wan.untethered`).  These
say what every event does to the flag (`active_handleEvt`), whatever the other instances do.
-/
import G4Common.Ipacm.Wan

namespace G4Common.Ipacm

open Function

section

variable {g : WanShared} {w : Wan} {ip j : IpType}

/-! ### Routes -/

/-- The default route makes an interface active. -/
def Wan.goesUp (w : Wan) (ip : IpType) : Bool :=
  w.tx && !(w.mode = .q6Wan && !w.ext) && !w.lacksHeader ip

theorem Wan.goesUp_iff : w.goesUp ip ↔
    w.tx ∧ ¬ (w.mode = .q6Wan ∧ w.ext = false) ∧ w.lacksHeader ip = false := by
  unfold Wan.goesUp
  by_cases hmode : w.mode = .q6Wan
  · simp [hmode, and_assoc]
  · simp [hmode]

theorem Wan.goesUp_congr {w' : Wan} (hconf : w'.toWanConf = w.toWanConf) (hhdr : w'.headerSet = w.headerSet) :
    w'.goesUp ip = w.goesUp ip := by
  unfold Wan.goesUp Wan.lacksHeader
  rw [hconf, hhdr]

theorem active_goUp : (goUp g w ip).2.active j = if j = ip then true else w.active j := update_apply ..

theorem handleRouteAddEvt_of_goesUp (h : w.goesUp ip) :
    handleRouteAddEvt g w ip = goUp g { w with isDefaultGateway := true } ip := by
  obtain ⟨htx, hext, hhdr⟩ := Wan.goesUp_iff.mp h
  unfold handleRouteAddEvt
  rw [if_pos htx]
  show (if w.mode = .q6Wan ∧ w.ext = false then _ else if w.lacksHeader ip = true then _ else _) = _
  rw [if_neg hext, hhdr]
  rfl

theorem handleRouteAddEvt_of_not (h : w.goesUp ip = false) :
    (handleRouteAddEvt g w ip).1 = g ∧ (handleRouteAddEvt g w ip).2.active = w.active := by
  unfold handleRouteAddEvt
  split
  case isTrue htx =>
    dsimp only
    split
    · exact ⟨rfl, rfl⟩
    case isFalse hext =>
      split
      · exact ⟨rfl, rfl⟩
      case isFalse hhdr =>
        have hhdr : w.lacksHeader ip = false := Bool.eq_false_iff.mpr hhdr
        rw [Wan.goesUp_iff.mpr ⟨htx, hext, hhdr⟩] at h
        cases h
  · exact ⟨rfl, rfl⟩

theorem active_handleRouteAddEvt :
    (handleRouteAddEvt g w ip).2.active j = (decide (j = ip) && w.goesUp ip || w.active j) := by
  rcases hup : w.goesUp ip with _ | _
  · rw [(handleRouteAddEvt_of_not hup).2, Bool.and_false, Bool.false_or]
  rw [handleRouteAddEvt_of_goesUp hup, active_goUp, Bool.and_true]
  split
  case isTrue h => rw [decide_eq_true h, Bool.true_or]
  case isFalse h => rw [decide_eq_false h, Bool.false_or]

theorem active_handleRouteDelEvt (htx : w.tx) :
    (handleRouteDelEvt g w ip).2.active j = if j = ip then false else w.active j := by
  unfold handleRouteDelEvt
  rw [if_pos htx]
  dsimp only
  rcases hact : w.active ip with _ | _
  · show w.active j = _
    split
    case isTrue h => rw [h, hact]
    · rfl
  · exact update_apply ..

theorem active_cleanRoute (htx : w.tx) : (cleanRoute g w ip).2.active j = if j = ip then false else w.active j := by
  unfold cleanRoute
  split <;> exact active_handleRouteDelEvt htx

theorem active_giveUp (htx : w.active ip → w.tx) :
    (giveUp g w ip).2.active j = if j = ip then false else w.active j := by
  unfold giveUp
  rcases hact : w.active ip with _ | _
  · show w.active j = _
    split
    case isTrue h => rw [h, hact]
    · rfl
  · exact active_cleanRoute (htx hact)

/-! ### What an instance keeps for itself -/

structure Wan.Local (w : Wan) : Prop where
  tx : ∀ ip, w.active ip = true → w.tx = true
  has : ∀ ip, w.active ip = true → w.ipType.has ip = true
  /-- A header is only missed by an instance that is not active. -/
  lacks : ∀ ip, w.headerPartialDefaultWan ip = true → w.ipType.has ip = true ∧ w.active ip = false

theorem Wan.local_new (c : WanConf) : (Wan.new c).Local where
  tx _ h := absurd h Bool.false_ne_true
  has _ h := absurd h Bool.false_ne_true
  lacks _ h := absurd h Bool.false_ne_true

section

variable (h : w.Local)
include h

theorem Wan.Local.goUp (htx : w.tx) (hhas : w.ipType.has ip) : (Ipacm.goUp g w ip).2.Local := by
  refine ⟨fun _ _ => htx, fun k hk => ?_, fun k hk => ?_⟩
  · rw [active_goUp] at hk
    split at hk
    case isTrue hip => exact hip ▸ hhas
    · exact h.has k hk
  have hk' : update w.headerPartialDefaultWan ip false k = true := hk
  rw [update_apply] at hk'
  split at hk'
  · cases hk'
  case isFalse hne =>
    rw [active_goUp, if_neg hne]
    exact h.lacks k hk'

theorem Wan.Local.handleRouteAddEvt (hhas : w.ipType.has ip) (hact : w.active ip = false) :
    (Ipacm.handleRouteAddEvt g w ip).2.Local := by
  have hgw : Wan.Local { w with isDefaultGateway := true } := ⟨h.tx, h.has, h.lacks⟩
  unfold Ipacm.handleRouteAddEvt
  split
  case isTrue htx =>
    dsimp only
    split
    · exact hgw
    split
    · refine ⟨h.tx, h.has, fun k hk => ?_⟩
      have hk' : update w.headerPartialDefaultWan ip true k = true := hk
      rw [update_apply] at hk'
      split at hk'
      case isTrue he =>
        subst he
        exact ⟨hhas, hact⟩
      · exact h.lacks k hk'
    · exact hgw.goUp htx hhas
  · exact h

theorem Wan.Local.handleRouteDelEvt : (Ipacm.handleRouteDelEvt g w ip).2.Local := by
  unfold Ipacm.handleRouteDelEvt
  split
  · dsimp only
    split
    · have hact : ∀ {k}, update w.active ip false k = true → w.active k = true := by
        intro k hk
        rw [update_apply] at hk
        split at hk
        · cases hk
        · exact hk
      refine ⟨fun k hk => h.tx k (hact hk), fun k hk => h.has k (hact hk),
        fun k hk => ⟨(h.lacks k hk).1, ?_⟩⟩
      show update w.active ip false k = false
      rw [update_apply, (h.lacks k hk).2]
      exact ite_self _
    · exact ⟨h.tx, h.has, h.lacks⟩
  · exact h

theorem Wan.Local.cleanRoute : (Ipacm.cleanRoute g w ip).2.Local := by
  unfold Ipacm.cleanRoute
  split <;> exact h.handleRouteDelEvt

theorem Wan.Local.giveUp : (Ipacm.giveUp g w ip).2.Local := by
  unfold Ipacm.giveUp
  split
  · exact h.cleanRoute
  · exact h

theorem Wan.Local.lateRoute : (Ipacm.lateRoute g w ip).2.Local := by
  unfold Ipacm.lateRoute
  split
  case isTrue hlack => exact h.handleRouteAddEvt (h.lacks ip hlack).1 (h.lacks ip hlack).2
  · exact h

theorem Wan.Local.handleHeaderAddEvt : (Ipacm.handleHeaderAddEvt g w).2.Local := by
  unfold Ipacm.handleHeaderAddEvt
  split
  · exact h
  split
  · have hhdr : Wan.Local { w with headerSet := w.txIp } := ⟨h.tx, h.has, h.lacks⟩
    exact hhdr.lateRoute.lateRoute
  · exact h

end

theorem firstAddr_frame :
    (firstAddr g w ip).2.toWanConf = w.toWanConf ∧ (firstAddr g w ip).2.active = w.active ∧
      (firstAddr g w ip).2.headerPartialDefaultWan = w.headerPartialDefaultWan ∧
      ∀ k, w.ipType.has k → (firstAddr g w ip).2.ipType.has k = true := by
  have hadd (h : w.ipType.has ip = false) (k : IpType) (hk : w.ipType.has k = true) :
      (w.ipType.add ip).has k = true := by
    rw [IfaceIpType.has_add h, hk, Bool.true_or]
  unfold firstAddr WanShared.initFlRuleEx initFlRule
  split
  · dsimp only
    split
    · exact ⟨rfl, rfl, rfl, fun _ h => h⟩
    case isFalse h => exact ⟨rfl, rfl, rfl, hadd (Bool.eq_false_iff.mpr h)⟩
  dsimp only
  split
  · exact ⟨rfl, rfl, rfl, fun _ h => h⟩
  case isFalse h => exact ⟨rfl, rfl, rfl, hadd (Bool.eq_false_iff.mpr h)⟩

theorem handleAddrEvt_frame {a : WanAddr} :
    (handleAddrEvt g w a).2.toWanConf = w.toWanConf ∧ (handleAddrEvt g w a).2.active = w.active ∧
      (handleAddrEvt g w a).2.headerPartialDefaultWan = w.headerPartialDefaultWan ∧
      ∀ k, w.ipType.has k → (handleAddrEvt g w a).2.ipType.has k = true := by
  cases a with
  | v4 => exact firstAddr_frame
  | v6 =>
    rw [handleAddrEvt]
    split
    · exact ⟨rfl, rfl, rfl, fun _ h => h⟩
    by_cases h : w.v6Addrs = []
    · simp only [if_pos h]
      exact firstAddr_frame
    · simp only [if_neg h]
      exact ⟨trivial, trivial, trivial, fun _ h => h⟩

theorem Wan.Local.handleAddrEvt (h : w.Local) {a : WanAddr} : (Ipacm.handleAddrEvt g w a).2.Local := by
  obtain ⟨hconf, hact, hlacks, hhas⟩ := handleAddrEvt_frame (g := g) (w := w) (a := a)
  refine ⟨fun k hk => ?_, fun k hk => ?_, fun k hk => ?_⟩
  · rw [hact] at hk
    rw [hconf]
    exact h.tx k hk
  · rw [hact] at hk
    exact hhas k (h.has k hk)
  · rw [hlacks] at hk
    rw [hact]
    exact ⟨hhas k (h.lacks k hk).1, (h.lacks k hk).2⟩

theorem conf_handleEvt {android : Bool} {e : WanEvt} : (handleEvt android g w e).2.toWanConf = w.toWanConf := by
  by_cases he : ∀ i a, e ≠ .addrAdd i a
  · exact congrArg Prod.fst (base_handleEvt he)
  push Not at he
  obtain ⟨i, a, rfl⟩ := he
  rw [handleEvt]
  split
  · exact handleAddrEvt_frame.1
  · rfl

theorem Wan.Local.handleEvt {android : Bool} {e : WanEvt} (h : w.Local) : (Ipacm.handleEvt android g w e).2.Local := by
  cases e with
  | wlanLinkDown | linkDown | cfgChange => exact h
  | addrAdd =>
    rw [Ipacm.handleEvt]
    split
    · exact h.handleAddrEvt
    · exact h
  | upstreamRouteAdd i ip t =>
    rw [Ipacm.handleEvt]
    split
    · split
      case isTrue hhas =>
        dsimp only
        split
        · exact h
        case isFalse hact => exact h.handleRouteAddEvt hhas (Bool.eq_false_iff.mpr hact)
      · exact h
    · exact h.giveUp
  | upstreamRouteDel _ ip t =>
    rw [Ipacm.handleEvt]
    split
    · dsimp only
      generalize (if android then postWanDownTetherEvt g ip t else g) = g'
      split
      · exact h
      · exact h.cleanRoute
    · exact h
  | routeAdd i d =>
    rw [Ipacm.handleEvt]
    split
    · split
      · split
        case isTrue hroute => exact h.handleRouteAddEvt hroute.2 hroute.1
        · exact h
      · exact h.giveUp
    · exact h
  | routeDel =>
    rw [Ipacm.handleEvt]
    split
    · exact h.cleanRoute
    · exact h
  | neighClientIpAddrAdd =>
    rw [Ipacm.handleEvt]
    split
    · exact h.handleHeaderAddEvt
    · exact h

/-! ### What events do -/

/-- A call makes an instance active for a family: by a default route, or by the header that
it lacked for one. -/
def Wan.becomesActive (w : Wan) (ip : IpType) : WanEvt → Bool
  | .upstreamRouteAdd i j _ =>
    w.ifNum = i ∧ j = ip ∧ w.ipType.has ip ∧ w.active ip = false ∧ w.goesUp ip
  | .routeAdd i d =>
    d.isDefault ∧ w.ifNum = i ∧ d.ip = ip ∧ w.ipType.has ip ∧ w.active ip = false ∧ w.goesUp ip
  | .neighClientIpAddrAdd i macValid =>
    w.ifNum = i ∧ (w.mode = .wlanWan ∨ macValid) ∧ w.headerSet .v4 = false ∧ w.headerSet .v6 = false ∧
      w.headerPartialDefaultWan ip ∧ Wan.goesUp { w with headerSet := w.txIp } ip
  | _ => false

/-- The interface loses the default route of a family with an event, or goes down. -/
def Wan.losesRoute (w : Wan) (ip : IpType) : WanEvt → Bool
  | .routeAdd i d => d.isDefault ∧ d.ip = ip ∧ w.ifNum ≠ i
  | .upstreamRouteAdd i k _ => k = ip ∧ w.ifNum ≠ i
  | .routeDel i d => d.isDefault ∧ d.ip = ip ∧ w.ifNum = i
  | e => w.closes e

/-- The last tethered interface of a family is gone. -/
def Wan.untethered (w : Wan) (android : Bool) (g : WanShared) (ip : IpType) : WanEvt → Bool
  | .upstreamRouteDel i k t => w.ifNum = i ∧ k = ip ∧ (android = false ∨ (g.ipaIfNumTether ip).erase t = [])
  | _ => false

theorem tether_postDown {t : ℕ} : (postWanDownTetherEvt g ip t).ipaIfNumTether j =
      if j = ip then (g.ipaIfNumTether j).erase t else g.ipaIfNumTether j := by
  unfold postWanDownTetherEvt
  split
  · show update g.ipaIfNumTether ip _ j = _
    rw [update_apply]
    split
    case isTrue h => rw [h]
    · rfl
  case isFalse hmem =>
    split
    case isTrue h => rw [h, List.erase_of_not_mem hmem]
    · rfl

theorem lateRoute_inst (ip : IpType) : (lateRoute g w ip).2.headerSet = w.headerSet ∧
      (∀ k ≠ ip, (lateRoute g w ip).2.headerPartialDefaultWan k = w.headerPartialDefaultWan k) ∧
      ∀ k, (lateRoute g w ip).2.active k =
        (decide (k = ip) && w.headerPartialDefaultWan ip && w.goesUp ip || w.active k) := by
  unfold lateRoute
  split
  case isTrue h =>
    refine ⟨handleRouteAddEvt_frame.1, handleRouteAddEvt_frame.2, fun k => ?_⟩
    rw [active_handleRouteAddEvt, h, Bool.and_true]
  case isFalse h =>
    refine ⟨rfl, fun _ _ => rfl, fun k => ?_⟩
    rw [Bool.eq_false_iff.mpr h, Bool.and_false, Bool.false_and, Bool.false_or]

theorem active_handleHeaderAddEvt : (handleHeaderAddEvt g w).2.active ip =
      (!w.headerSet .v4 && !w.headerSet .v6 && w.headerPartialDefaultWan ip &&
        Wan.goesUp { w with headerSet := w.txIp } ip || w.active ip) := by
  unfold handleHeaderAddEvt
  split
  case isTrue hset =>
    have hset : (!w.headerSet .v4 && !w.headerSet .v6) = false := by
      rw [← Bool.not_or, hset]
      rfl
    rw [hset]
    rfl
  case isFalse hset =>
    have hset : (!w.headerSet .v4 && !w.headerSet .v6) = true := by
      rw [← Bool.not_or, Bool.eq_false_iff.mpr hset]
      rfl
    rw [hset, Bool.true_and]
    split
    case isTrue htx =>
      dsimp only
      obtain ⟨hhdr, hlack, hact⟩ := lateRoute_inst (g := g) (w := { w with headerSet := w.txIp }) .v4
      have hconf : (lateRoute g { w with headerSet := w.txIp } .v4).2.toWanConf = w.toWanConf := conf_lateRoute
      generalize lateRoute g { w with headerSet := w.txIp } .v4 = r at hhdr hlack hact hconf ⊢
      -- IPv6 finds what it would have found first
      have hgoes : r.2.goesUp .v6 = Wan.goesUp { w with headerSet := w.txIp } .v6 := Wan.goesUp_congr hconf hhdr
      rw [(lateRoute_inst .v6).2.2, hgoes, hlack .v6 (by decide), hact]
      cases ip with
      | v4 | v6 => rfl
    case isFalse htx =>
      have hgoes : Wan.goesUp { w with headerSet := w.txIp } ip = false := by
        refine Bool.eq_false_iff.mpr fun h => htx (Wan.goesUp_iff.mp h).1
      rw [hgoes, Bool.and_false, Bool.false_or]

/-- **What an event does to the flag** of an instance that it does not delete. -/
theorem active_handleEvt {android : Bool} {e : WanEvt} (hl : w.Local) (hopen : w.closes e = false) :
    (handleEvt android g w e).2.active ip =
      (w.becomesActive ip e || (w.active ip && !w.losesRoute ip e && !w.untethered android g ip e)) := by
  have hgive (k : IpType) : (giveUp g w k).2.active ip = (w.active ip && !decide (k = ip)) := by
    rw [active_giveUp (hl.tx k)]
    by_cases h : ip = k
    · rw [if_pos h, decide_eq_true h.symm, Bool.not_true, Bool.and_false]
    · rw [if_neg h, decide_eq_false (Ne.symm h), Bool.not_false, Bool.and_true]
  cases e with
  | wlanLinkDown | linkDown | cfgChange =>
    simp [Wan.becomesActive, Wan.losesRoute, Wan.untethered, hopen, handleEvt]
  | addrAdd i a =>
    have hsame : (handleEvt android g w (.addrAdd i a)).2.active = w.active := by
      rw [handleEvt]
      split
      · exact handleAddrEvt_frame.2.1
      · rfl
    simp [Wan.becomesActive, Wan.losesRoute, Wan.untethered, Wan.closes, hsame]
  | upstreamRouteAdd i k t =>
    simp only [Wan.becomesActive, Wan.losesRoute, Wan.untethered, handleEvt]
    split
    case isTrue hi =>
      split
      case isTrue hhas =>
        dsimp only
        split
        case isTrue hact =>
          rcases eq_or_ne k ip with rfl | hk
          · simp [hi, hact]
          · simp [hi, hk]
        case isFalse hact =>
          rw [active_handleRouteAddEvt]
          rcases eq_or_ne k ip with rfl | hk
          · simp [hi, hhas, hact]
          · simp [hi, hk, Ne.symm hk]
      case isFalse hhas =>
        rcases eq_or_ne k ip with rfl | hk
        · simp [hi, hhas]
        · simp [hi, hk]
    case isFalse hi =>
      rw [hgive]
      simp [hi]
  | upstreamRouteDel i k t =>
    simp only [Wan.becomesActive, Wan.losesRoute, Wan.closes, Wan.untethered, handleEvt]
    split
    case isTrue h =>
      obtain ⟨hi, hact⟩ := h
      have hlist : android = true →
          (if android then postWanDownTetherEvt g k t else g).ipaIfNumTether k =
            (g.ipaIfNumTether k).erase t := by
        rintro rfl
        exact tether_postDown.trans (if_pos rfl)
      generalize (if android then postWanDownTetherEvt g k t else g) = g' at hlist ⊢
      by_cases hstay : android = true ∧ g'.ipaIfNumTether k ≠ []
      · rw [if_pos hstay]
        rcases eq_or_ne k ip with rfl | hk
        · have := hlist hstay.1
          simp [hstay.1, ← this, hstay.2]
        · simp [hk]
      rw [if_neg hstay, active_cleanRoute (hl.tx k hact)]
      rcases eq_or_ne k ip with rfl | hk
      · have hlast : android = false ∨ (g.ipaIfNumTether k).erase t = [] := by
          rcases ha : android with _ | _
          · exact .inl rfl
          · rw [← hlist ha]
            exact .inr (not_not.mp fun h => hstay ⟨ha, h⟩)
        rw [if_pos rfl, decide_eq_true (show w.ifNum = i ∧ k = k ∧ _ from ⟨hi, rfl, hlast⟩)]
        simp
      · simp [hk, Ne.symm hk]
    case isFalse h =>
      rcases eq_or_ne k ip with rfl | hk
      · rcases hact : w.active k with _ | _
        · rfl
        · have hi : w.ifNum ≠ i := fun hi => h ⟨hi, hact⟩
          simp [hi]
      · simp [hk]
  | routeAdd i d =>
    simp only [Wan.becomesActive, Wan.losesRoute, Wan.untethered, handleEvt]
    split
    case isTrue hd =>
      split
      case isTrue hi =>
        split
        case isTrue h =>
          rw [active_handleRouteAddEvt]
          rcases eq_or_ne d.ip ip with rfl | hk
          · simp [hd, hi, h]
          · simp [hi, hk, Ne.symm hk]
        case isFalse h =>
          rcases eq_or_ne d.ip ip with rfl | hk
          · rcases hact : w.active d.ip with _ | _
            · have hhas : w.ipType.has d.ip = false := Bool.eq_false_iff.mpr fun hhas => h ⟨hact, hhas⟩
              simp [hhas]
            · simp [hi]
          · simp [hi, hk]
      case isFalse hi =>
        rw [hgive]
        simp [hd, hi]
    case isFalse hd => simp [hd]
  | routeDel i d =>
    simp only [Wan.becomesActive, Wan.losesRoute, Wan.untethered, handleEvt]
    split
    case isTrue h =>
      rw [active_cleanRoute (hl.tx d.ip h.2.2)]
      by_cases hk : d.ip = ip
      · simp [h.1, h.2.1, hk]
      · simp [hk, Ne.symm hk]
    case isFalse h =>
      rcases eq_or_ne d.ip ip with rfl | hk
      · rcases hact : w.active d.ip with _ | _
        · rfl
        by_cases hi : w.ifNum = i
        · have hd : d.isDefault = false := Bool.eq_false_iff.mpr fun hd => h ⟨hi, hd, hact⟩
          simp [hd]
        · simp [hi]
      · simp [hk]
  | neighClientIpAddrAdd i macValid =>
    simp only [Wan.becomesActive, Wan.losesRoute, Wan.closes, Wan.untethered, handleEvt]
    split
    case isTrue h =>
      rw [active_handleHeaderAddEvt]
      simp [h, Bool.and_assoc]
    case isFalse h =>
      have hnot : ¬ (w.ifNum = i ∧ (w.mode = .wlanWan ∨ macValid = true) ∧ w.headerSet .v4 = false ∧
          w.headerSet .v6 = false ∧ w.headerPartialDefaultWan ip = true ∧
          Wan.goesUp { w with headerSet := w.txIp } ip = true) := fun hall => h ⟨hall.1, hall.2.1⟩
      rw [decide_eq_false hnot]
      simp

end

end G4Common.Ipacm

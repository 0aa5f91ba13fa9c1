/-
The lists of tethered interfaces (`FEATURE_IPA_ANDROID`).

An upstream interface is announced together with an interface that is tethered to it.
`ipa_if_num_tether_v4` and `ipa_if_num_tether_v6` are to hold the interfaces that have been
announced for the active upstream and not been deleted since, and with the last of them the
upstream is given up.  What has been announced is recorded beside the state (`WanState.announce`).

The lists are right in every run whose events meet a condition on the state before
(`wanTether_exact`):

* an interface that is announced is not in the list and the list is not full, since the
  entry is appended without a look;
* the upstream that it is announced for is active, or becomes active by the event;
* an upstream that is given up has no tethered interface.  The list is emptied when a modem
  interface goes down as the default gateway, but not when a STA interface goes down, nor
  when the default route is deleted or goes to another interface;
* a modem interface that goes down and empties the list is the active one;
* nothing else has been announced for an interface that becomes active, and it takes the
  place of the one that was.
-/
import G4Common.Ipacm.WanActive

namespace G4Common.Ipacm

open Broadcast Function List Option

def maxIfaceEntries : ℕ := 15

/-- The number of the interface that an event is about. -/
def WanEvt.ifNum : WanEvt → ℕ
  | .wlanLinkDown i | .linkDown i | .cfgChange i | .addrAdd i _ | .upstreamRouteAdd i _ _
  | .upstreamRouteDel i _ _ | .routeAdd i _ | .routeDel i _ | .neighClientIpAddrAdd i _ => i

/-! ### What a call does to a list -/

section

variable {g : WanShared} {w : Wan} {ip j : IpType} {e : WanEvt}

theorem tether_routeSteps {i : ℕ} {g' : WanShared} (h : RouteSteps i g g') : g'.ipaIfNumTether = g.ipaIfNumTether := by
  refine h.keeps (R := fun g' => g'.ipaIfNumTether = g.ipaIfNumTether) (fun g1 g2 hs h1 => ?_) rfl
  cases hs <;> exact h1

theorem tether_firstAddr : (firstAddr g w ip).1.ipaIfNumTether = g.ipaIfNumTether := by
  unfold firstAddr WanShared.initFlRuleEx
  split
  · dsimp only
    split
    · rfl
    · rw [tether_routeSteps (i := 0) routeSteps_install]
      split <;> rfl
  · rfl

theorem tether_handleAddrEvt {a : WanAddr} : (handleAddrEvt g w a).1.ipaIfNumTether = g.ipaIfNumTether := by
  cases a with
  | v4 => exact tether_firstAddr
  | v6 =>
    rw [handleAddrEvt]
    split
    · rfl
    show (if w.v6Addrs = [] then firstAddr g w .v6 else (g, w)).1.ipaIfNumTether = _
    split
    · exact tether_firstAddr
    · rfl

theorem tether_postAllDown : (postAllDown g ip).ipaIfNumTether j = if j = ip then [] else g.ipaIfNumTether j := by
  have hall : ∀ (l : List ℕ) (g : WanShared), g.ipaIfNumTether ip = l →
      (l.foldl (fun g t => postWanDownTetherEvt g ip t) g).ipaIfNumTether j =
        if j = ip then [] else g.ipaIfNumTether j := by
    intro l
    induction l with
    | nil =>
      intro g hl
      split
      case isTrue h => exact h ▸ hl
      · rfl
    | cons t l ih =>
      intro g hl
      have hnext : (postWanDownTetherEvt g ip t).ipaIfNumTether ip = l := by
        rw [tether_postDown, if_pos rfl, hl, erase_cons_head]
      rw [foldl_cons, ih _ hnext]
      split
      · rfl
      case isFalse h => rw [tether_postDown, if_neg h]
  exact hall _ g rfl

theorem tether_gatewayDown :
    (gatewayDown g w ip true).1.ipaIfNumTether j = if j = ip then [] else g.ipaIfNumTether j := by
  have hdel : (handleRouteDelEvt (delWanFirewallRule (g.setWanUp ip false) ip) w ip).1.ipaIfNumTether =
      g.ipaIfNumTether := by
    rw [tether_routeSteps (i := 0) routeSteps_handleRouteDelEvt]
    rfl
  show (postAllDown (handleRouteDelEvt _ w ip).1 ip).ipaIfNumTether j = _
  rw [tether_postAllDown, hdel]

theorem tether_countDown : (countDown g w ip).ipaIfNumTether = g.ipaIfNumTether := by
  cases ip with
  | v4 => rfl
  | v6 =>
    rw [countDown]
    split <;> rfl

theorem tether_lastDown : (lastDown g w ip).ipaIfNumTether = g.ipaIfNumTether := by
  unfold lastDown
  split
  · rw [tether_routeSteps (i := 0) routeSteps_install]
  · rfl

/-- A modem interface that goes down as the default gateway empties the lists of its
families. -/
theorem tether_handleDownEvtEx :
    (handleDownEvtEx g w true).ipaIfNumTether j =
      if w.isDefaultGateway ∧ w.ipType.has j = true then [] else g.ipaIfNumTether j := by
  have hinstall {g : WanShared} : (installWanFilteringRule g w).ipaIfNumTether = g.ipaIfNumTether :=
    tether_routeSteps (i := 0) routeSteps_install
  have hone (k : IpType) : (lastDown (if w.isDefaultGateway then
      installWanFilteringRule (gatewayDown (countDown g w k) w k true).1 w else countDown g w k) w k).ipaIfNumTether j =
      if w.isDefaultGateway = true ∧ j = k then [] else g.ipaIfNumTether j := by
    rw [tether_lastDown]
    rcases w.isDefaultGateway with _ | _
    · rw [if_neg Bool.false_ne_true, tether_countDown, if_neg fun h => Bool.false_ne_true h.1]
    · rw [if_pos rfl, hinstall, tether_gatewayDown, tether_countDown]
      simp
  rcases htype : w.ipType with _ | _ | _ | _
  · rw [handleDownEvtEx, htype, if_neg fun h => Bool.false_ne_true h.2]
  · rw [handleDownEvtEx, htype]
    refine (hone .v4).trans ?_
    simp [IfaceIpType.has]
  · rw [handleDownEvtEx, htype]
    refine (hone .v6).trans ?_
    simp [IfaceIpType.has]
  rw [handleDownEvtEx, htype]
  rw [tether_lastDown, tether_lastDown]
  rcases w.isDefaultGateway with _ | _
  · rw [if_neg Bool.false_ne_true, tether_countDown, tether_countDown, if_neg fun h => Bool.false_ne_true h.1]
  · rw [if_pos rfl, hinstall, tether_gatewayDown, tether_gatewayDown]
    cases j <;> rfl

/-- What a call makes of the list of a family. -/
def Wan.tethersAfter (w : Wan) (ip : IpType) (l : List ℕ) : WanEvt → List ℕ
  | .upstreamRouteAdd i k t => if w.ifNum = i ∧ k = ip ∧ w.ipType.has ip = true then l ++ [t] else l
  | .upstreamRouteDel i k t => if w.ifNum = i ∧ k = ip ∧ w.active ip = true then l.erase t else l
  | e =>
    if w.mode = .q6Wan ∧ w.closes e = true ∧ w.isDefaultGateway = true ∧ w.ipType.has ip = true then []
    else l

theorem tether_eventCallback :
    (w.eventCallback true g e).1.ipaIfNumTether ip = w.tethersAfter ip (g.ipaIfNumTether ip) e := by
  unfold Wan.eventCallback
  split
  case isTrue hc =>
    have hdown : (if w.mode = .q6Wan then handleDownEvtEx g w true else handleDownEvt g w).ipaIfNumTether ip =
        if w.mode = .q6Wan ∧ w.closes e = true ∧ w.isDefaultGateway = true ∧ w.ipType.has ip = true then []
        else g.ipaIfNumTether ip := by
      split
      case isTrue hq =>
        rw [tether_handleDownEvtEx]
        simp [hq, hc]
      case isFalse hq =>
        rw [tether_routeSteps routeSteps_handleDownEvt, if_neg fun h => hq h.1]
    cases e with
    | wlanLinkDown | linkDown | cfgChange => exact hdown
    | _ => cases hc
  case isFalse hc =>
    have hopen : (if w.mode = .q6Wan ∧ w.closes e = true ∧ w.isDefaultGateway = true ∧ w.ipType.has ip = true
        then [] else g.ipaIfNumTether ip) = g.ipaIfNumTether ip := if_neg fun h => hc h.2.1
    cases e with
    | wlanLinkDown | linkDown | cfgChange => exact hopen.symm
    | addrAdd =>
      refine Eq.trans ?_ hopen.symm
      rw [handleEvt]
      split
      · rw [tether_handleAddrEvt]
      · rfl
    | upstreamRouteAdd i k t =>
      rw [handleEvt, Wan.tethersAfter]
      split
      case isTrue hi =>
        split
        case isTrue hhas =>
          dsimp only
          have hroute : (if w.active k then (g, w) else handleRouteAddEvt g w k).1.ipaIfNumTether =
              g.ipaIfNumTether := by
            split
            · rfl
            · exact tether_routeSteps routeSteps_handleRouteAddEvt
          show update _ k _ ip = _
          rw [hroute]
          rcases eq_or_ne k ip with rfl | hk
          · rw [update_self, if_pos ⟨hi, rfl, hhas⟩]
          · rw [update_of_ne (Ne.symm hk), if_neg fun h => hk h.2.1]
        case isFalse hhas =>
          rw [if_neg]
          rintro ⟨-, rfl, h⟩
          exact hhas h
      case isFalse hi => rw [tether_routeSteps (routeSteps_giveUp k), if_neg fun h => hi h.1]
    | upstreamRouteDel i k t =>
      rw [handleEvt, Wan.tethersAfter]
      split
      case isTrue h =>
        dsimp only
        rw [if_pos rfl]
        have hlist : (postWanDownTetherEvt g k t).ipaIfNumTether ip =
            if w.ifNum = i ∧ k = ip ∧ w.active ip = true then (g.ipaIfNumTether ip).erase t
            else g.ipaIfNumTether ip := by
          rw [tether_postDown]
          rcases eq_or_ne ip k with rfl | hk
          · rw [if_pos rfl, if_pos ⟨h.1, rfl, h.2⟩]
          · rw [if_neg hk, if_neg fun hall => hk hall.2.1.symm]
        split
        · exact hlist
        · rw [tether_routeSteps routeSteps_cleanRoute]
          exact hlist
      case isFalse h =>
        rw [if_neg]
        rintro ⟨hi, rfl, hact⟩
        exact h ⟨hi, hact⟩
    | routeAdd _ d =>
      refine Eq.trans ?_ hopen.symm
      rw [handleEvt]
      split
      · split
        · split
          · rw [tether_routeSteps routeSteps_handleRouteAddEvt]
          · rfl
        · rw [tether_routeSteps (routeSteps_giveUp d.ip)]
      · rfl
    | routeDel =>
      refine Eq.trans ?_ hopen.symm
      rw [handleEvt]
      split
      · rw [tether_routeSteps routeSteps_cleanRoute]
      · rfl
    | neighClientIpAddrAdd =>
      refine Eq.trans ?_ hopen.symm
      rw [handleEvt]
      split
      · rw [tether_routeSteps routeSteps_handleHeaderAddEvt]
      · rfl

theorem Wan.tethersAfter_ne {l : List ℕ} (h : w.ifNum ≠ e.ifNum) : w.tethersAfter ip l e = l := by
  cases e with
  | upstreamRouteAdd | upstreamRouteDel => exact if_neg fun hall => h hall.1
  | linkDown =>
    refine if_neg fun hall => ?_
    rcases of_decide_eq_true hall.2.1 with hi | hmode
    · exact h hi.2
    · rw [hall.1] at hmode
      cases hmode
  | wlanLinkDown | cfgChange => exact if_neg fun hall => h (of_decide_eq_true hall.2.1).2
  | _ => exact if_neg fun hall => Bool.false_ne_true hall.2.1

/-! ### What a round does -/

/-- Whether an instance is active after an event that finds it and the lists in `g`. -/
def Wan.activeNext (w : Wan) (g : WanShared) (ip : IpType) (e : WanEvt) : Bool :=
  w.becomesActive ip e || (w.active ip && !w.losesRoute ip e && !w.untethered true g ip e)

theorem Wan.activeNext_congr {g' : WanShared} (h : w.ifNum = e.ifNum → g'.ipaIfNumTether ip = g.ipaIfNumTether ip) :
    w.activeNext g' ip e = w.activeNext g ip e := by
  have huntethered : w.untethered true g' ip e = w.untethered true g ip e := by
    cases e with
    | upstreamRouteDel i =>
      by_cases hi : w.ifNum = i
      · simp only [Wan.untethered, h hi]
      · simp only [Wan.untethered, hi, false_and]
    | _ => rfl
  rw [Wan.activeNext, Wan.activeNext, huntethered]

variable {s : WanState}
variable {post pre : List Wan}

section

variable (hnodup : (s.insts.map fun w => w.ifNum).Nodup)
include hnodup

theorem ifNum_ne_of_split (hs : s.insts = pre ++ w :: post) : ∀ v ∈ pre ++ post, v.ifNum ≠ w.ifNum := by
  rw [hs, map_append, map_cons, nodup_middle, nodup_cons] at hnodup
  intro v hv heq
  refine hnodup.1 ?_
  rw [← map_append, ← heq]
  exact mem_map_of_mem hv

theorem tether_before (hs : s.insts = pre ++ w :: post) (hw : w.ifNum = e.ifNum) :
    (dispatch (fun g w => w.eventCallback true g e) s.shared pre).1.ipaIfNumTether ip = s.shared.ipaIfNumTether ip ∧
      (wanStep true s (.evt e)).shared.ipaIfNumTether ip = w.tethersAfter ip (s.shared.ipaIfNumTether ip) e := by
  have hkeep : ∀ v ∈ pre ++ post, ∀ g, (v.eventCallback true g e).1.ipaIfNumTether ip = g.ipaIfNumTether ip := by
    intro v hv g
    rw [tether_eventCallback, Wan.tethersAfter_ne]
    exact hw ▸ ifNum_ne_of_split hnodup hs v hv
  obtain ⟨hpre, hall⟩ := dispatch_sole (f := fun g : WanShared => g.ipaIfNumTether ip) (w := w) hkeep
  refine ⟨hpre, ?_⟩
  show (dispatch _ s.shared s.insts).1.ipaIfNumTether ip = _
  rw [hs]
  refine hall.trans ?_
  rw [tether_eventCallback]
  exact congrArg (fun l => w.tethersAfter ip l e) hpre

theorem tether_round (hw : w ∈ s.insts) (hi : w.ifNum = e.ifNum) :
    (wanStep true s (.evt e)).shared.ipaIfNumTether ip = w.tethersAfter ip (s.shared.ipaIfNumTether ip) e := by
  obtain ⟨_, _, hs⟩ := append_of_mem hw
  exact (tether_before hnodup hs hi).2

end

theorem tether_round_none (h : ∀ w ∈ s.insts, w.ifNum ≠ e.ifNum) :
    (wanStep true s (.evt e)).shared.ipaIfNumTether ip = s.shared.ipaIfNumTether ip := by
  have hkeep : ∀ v ∈ s.insts, ∀ g, (v.eventCallback true g e).1.ipaIfNumTether ip = g.ipaIfNumTether ip := by
    intro v hv g
    rw [tether_eventCallback, Wan.tethersAfter_ne (h v hv)]
  exact dispatch_keeps (f := fun g : WanShared => g.ipaIfNumTether ip) hkeep

/-- What an instance is after a round. -/
structure Wan.Next (g : WanShared) (e : WanEvt) (w w' : Wan) : Prop where
  stays : w.closes e = false
  conf : w'.toWanConf = w.toWanConf
  loc : w'.Local
  active : ∀ ip, w'.active ip = w.activeNext g ip e

section

variable (hnodup : (s.insts.map fun w => w.ifNum).Nodup)
include hnodup

theorem Wan.Next.call (hs : s.insts = pre ++ w :: post) (hl : w.Local) (hopen : w.closes e = false) :
    Wan.Next s.shared e w
      (handleEvt true (dispatch (fun g w => w.eventCallback true g e) s.shared pre).1 w e).2 := by
  refine ⟨hopen, conf_handleEvt, hl.handleEvt, fun ip => (active_handleEvt hl hopen).trans ?_⟩
  exact Wan.activeNext_congr fun hi => (tether_before hnodup hs hi).1

theorem next_of_mem (hloc : ∀ w ∈ s.insts, w.Local) {w' : Wan}
    (hw' : w' ∈ (wanStep true s (.evt e)).insts) : ∃ w ∈ s.insts, Wan.Next s.shared e w w' := by
  obtain ⟨_, w, _, hs, hcall⟩ := mem_dispatch.mp hw'
  have hw : w ∈ s.insts := hs ▸ mem_append_right _ (.head _)
  refine ⟨w, hw, ?_⟩
  unfold Wan.eventCallback at hcall
  split at hcall
  · cases hcall
  case isFalse hopen =>
    rw [← some.inj hcall]
    exact Wan.Next.call hnodup hs (hloc w hw) (Bool.eq_false_iff.mpr hopen)

theorem next_mem (hloc : ∀ w ∈ s.insts, w.Local) (hw : w ∈ s.insts) (hopen : w.closes e = false) :
    ∃ w' ∈ (wanStep true s (.evt e)).insts, Wan.Next s.shared e w w' := by
  obtain ⟨pre, post, hs⟩ := append_of_mem hw
  refine ⟨_, mem_dispatch.mpr ⟨pre, w, post, hs, ?_⟩, Wan.Next.call hnodup hs (hloc w hw) hopen⟩
  rw [Wan.eventCallback, hopen]
  rfl

theorem nodup_round : ((wanStep true s (.evt e)).insts.map fun w => w.ifNum).Nodup := by
  refine hnodup.sublist (dispatch_map_sublist fun g w w' hcall => ?_)
  unfold Wan.eventCallback at hcall
  split at hcall
  · cases hcall
  · rw [← some.inj hcall]
    exact congrArg WanConf.ifNum conf_handleEvt

end

end

/-! ### What has been announced -/

/-- The interfaces that have been announced for an upstream interface and a family. -/
abbrev Announced := ℕ → IpType → List ℕ

/-- The interface that an event announces. -/
def WanEvt.announces (i : ℕ) (ip : IpType) : WanEvt → Option ℕ
  | .upstreamRouteAdd j k t => if j = i ∧ k = ip then some t else none
  | _ => none

/-- The interface that an event deletes. -/
def WanEvt.withdraws (i : ℕ) (ip : IpType) : WanEvt → Option ℕ
  | .upstreamRouteDel j k t => if j = i ∧ k = ip then some t else none
  | _ => none

/-- An announcement is recorded until it is deleted or the upstream interface goes down. -/
def WanState.announce (s : WanState) (a : Announced) : WanAct → Announced
  | .create _ => a
  | .evt e => fun i ip =>
    if s.insts.any fun w => w.ifNum = i && w.closes e then []
    else ((a i ip).filter fun t => e.withdraws i ip ≠ some t) ++ (e.announces i ip).toList

structure TetherState where
  wan : WanState
  announced : Announced

def TetherState.init : TetherState := ⟨WanState.init, fun _ _ => []⟩

def tetherStep (s : TetherState) (a : WanAct) : TetherState :=
  ⟨wanStep true s.wan a, s.wan.announce s.announced a⟩

def tetherRun (acts : List WanAct) : TetherState := acts.foldl tetherStep TetherState.init

theorem tetherRun_wan (acts : List WanAct) : (tetherRun acts).wan = wanRun true acts := by
  suffices h : ∀ s : TetherState, (acts.foldl tetherStep s).wan = acts.foldl (wanStep true) s.wan from
    h TetherState.init
  induction acts with
  | nil => exact fun _ => rfl
  | cons a _ ih => exact fun s => ih (tetherStep s a)

/-! ### The condition -/

/-- A list of tethered interfaces. -/
def TetherState.tethers (s : TetherState) (ip : IpType) : List ℕ := s.wan.shared.ipaIfNumTether ip

/-- A modem interface goes down and empties the lists of its families. -/
def Wan.empties (w : Wan) (e : WanEvt) : Bool := w.mode = .q6Wan && w.closes e && w.isDefaultGateway

/-- The condition on an instance and a family. -/
structure TetherState.EvtOk (s : TetherState) (e : WanEvt) (w : Wan) (ip : IpType) : Prop where
  /-- An upstream that is given up has no tethered interface. -/
  loses : w.active ip = true → w.losesRoute ip e = true → s.tethers ip = [] ∨ w.empties e = true
  /-- The list that is emptied is that of the active interface. -/
  empties : w.empties e = true → w.ipType.has ip = true → w.active ip = true ∨ s.tethers ip = []
  /-- There is room for an interface that is announced, it is not there yet, and the upstream
  is active. -/
  add : w.ipType.has ip = true → ∀ t ∈ e.announces w.ifNum ip,
    t ∉ s.tethers ip ∧ (s.tethers ip).length < maxIfaceEntries ∧ (w.active ip = true ∨ w.goesUp ip = true)
  /-- Nothing else has been announced for a new upstream. -/
  fresh : w.becomesActive ip e = true → ∀ t ∈ s.announced w.ifNum ip, t ∈ e.announces w.ifNum ip
  /-- It takes the place of the old one. -/
  replaces : w.becomesActive ip e = true → ∀ v ∈ s.wan.insts, v.active ip = true → v.losesRoute ip e = true

instance (s : TetherState) (e : WanEvt) (w : Wan) (ip : IpType) : Decidable (s.EvtOk e w ip) :=
  decidable_of_iff
    ((w.active ip = true → w.losesRoute ip e = true → s.tethers ip = [] ∨ w.empties e = true) ∧
      (w.empties e = true → w.ipType.has ip = true → w.active ip = true ∨ s.tethers ip = []) ∧
      (w.ipType.has ip = true → ∀ t ∈ e.announces w.ifNum ip, t ∉ s.tethers ip ∧
        (s.tethers ip).length < maxIfaceEntries ∧ (w.active ip = true ∨ w.goesUp ip = true)) ∧
      (w.becomesActive ip e = true → ∀ t ∈ s.announced w.ifNum ip, t ∈ e.announces w.ifNum ip) ∧
      (w.becomesActive ip e = true → ∀ v ∈ s.wan.insts, v.active ip = true → v.losesRoute ip e = true))
    ⟨fun h => ⟨h.1, h.2.1, h.2.2.1, h.2.2.2.1, h.2.2.2.2⟩,
      fun h => ⟨h.loses, h.empties, h.add, h.fresh, h.replaces⟩⟩

def TetherOk (s : TetherState) : WanAct → Prop
  | .create _ => True
  | .evt e => ∀ w ∈ s.wan.insts, ∀ ip, s.EvtOk e w ip

instance (s : TetherState) : (a : WanAct) → Decidable (TetherOk s a)
  | .create _ => inferInstanceAs (Decidable True)
  | .evt e => inferInstanceAs (Decidable (∀ w ∈ s.wan.insts, ∀ ip, s.EvtOk e w ip))

/-! ### The lists of a family -/

section

variable {s : TetherState} {w : Wan} {ip : IpType} {e : WanEvt}
variable {i t : ℕ}

/-- The list of a family is what has been announced for the active interface. -/
structure TetherFam (s : TetherState) (ip : IpType) : Prop where
  nodup : (s.tethers ip).Nodup
  bound : (s.tethers ip).length ≤ maxIfaceEntries
  mem : ∀ t, t ∈ s.tethers ip ↔ ∃ w ∈ s.wan.insts, w.active ip = true ∧ t ∈ s.announced w.ifNum ip
  one : ∀ w ∈ s.wan.insts, ∀ v ∈ s.wan.insts, w.active ip = true → v.active ip = true → v.ifNum = w.ifNum

theorem TetherFam.of_none (hnone : ∀ w ∈ s.wan.insts, w.active ip = false) (hlist : s.tethers ip = []) :
    TetherFam s ip := by
  have hcontra : ∀ w ∈ s.wan.insts, w.active ip ≠ true := fun w hw => Bool.eq_false_iff.mp (hnone w hw)
  refine ⟨?_, ?_, fun t => ?_, fun w hw _ _ h => absurd h (hcontra w hw)⟩
  · rw [hlist]
    exact nodup_nil
  · rw [hlist]
    exact Nat.zero_le _
  rw [hlist]
  refine iff_of_false not_mem_nil ?_
  rintro ⟨w, hw, hact, -⟩
  exact hcontra w hw hact

theorem TetherFam.of_active (hw : w ∈ s.wan.insts) (hact : w.active ip)
    (hone : ∀ v ∈ s.wan.insts, v.active ip → v.ifNum = w.ifNum) (hnodup : (s.tethers ip).Nodup)
    (hbound : (s.tethers ip).length ≤ maxIfaceEntries)
    (hmem : ∀ t, t ∈ s.tethers ip ↔ t ∈ s.announced w.ifNum ip) : TetherFam s ip := by
  refine ⟨hnodup, hbound, fun t => ?_, fun v hv u hu hv' hu' => (hone u hu hu').trans (hone v hv hv').symm⟩
  rw [hmem]
  constructor
  · exact fun ht => ⟨w, hw, hact, ht⟩
  · rintro ⟨v, hv, hv', ht⟩
    rwa [hone v hv hv'] at ht

theorem TetherFam.mem_iff (h : TetherFam s ip) (hw : w ∈ s.wan.insts) (hact : w.active ip) (t : ℕ) :
    t ∈ s.tethers ip ↔ t ∈ s.announced w.ifNum ip := by
  rw [h.mem]
  constructor
  · rintro ⟨v, hv, hv', ht⟩
    rwa [h.one w hw v hv hact hv'] at ht
  · exact fun ht => ⟨w, hw, hact, ht⟩

theorem TetherFam.nil (h : TetherFam s ip) (hnone : ∀ w ∈ s.wan.insts, w.active ip → s.tethers ip = []) :
    s.tethers ip = [] := by
  refine eq_nil_iff_forall_not_mem.mpr fun t ht => ?_
  obtain ⟨w, hw, hact, -⟩ := (h.mem t).mp ht
  rw [hnone w hw hact] at ht
  exact not_mem_nil ht

/-- What holds between events. -/
structure TetherInv (s : TetherState) : Prop where
  nodup : (s.wan.insts.map fun w => w.ifNum).Nodup
  loc : ∀ w ∈ s.wan.insts, w.Local
  fam : ∀ ip, TetherFam s ip

theorem TetherInv.unique (h : TetherInv s) {v : Wan} (hw : w ∈ s.wan.insts) (hv : v ∈ s.wan.insts)
    (hnum : v.ifNum = w.ifNum) : v = w :=
  inj_on_of_nodup_map h.nodup hv hw hnum

theorem ifNum_of_becomesActive (h : w.becomesActive ip e) : w.ifNum = e.ifNum ∧ ∀ v : Wan, v.closes e = false := by
  cases e with
  | upstreamRouteAdd => exact ⟨(of_decide_eq_true h).1, fun _ => rfl⟩
  | routeAdd => exact ⟨(of_decide_eq_true h).2.1, fun _ => rfl⟩
  | neighClientIpAddrAdd => exact ⟨(of_decide_eq_true h).1, fun _ => rfl⟩
  | _ => cases h

theorem empties_of_not_closes (h : w.closes e = false) : w.empties e = false := by
  rw [Wan.empties, h, Bool.and_false, Bool.false_and]

theorem mem_announce {s : WanState} {a : Announced} (h : ∀ v ∈ s.insts, v.ifNum = i → v.closes e = false) :
    t ∈ s.announce a (.evt e) i ip ↔
      (t ∈ a i ip ∧ e.withdraws i ip ≠ some t) ∨ t ∈ e.announces i ip := by
  have hany : s.insts.any (fun w => w.ifNum = i && w.closes e) = false := by
    rw [List.any_eq_false]
    intro v hv hall
    rw [Bool.and_eq_true] at hall
    rw [h v hv (of_decide_eq_true hall.1)] at hall
    cases hall.2
  rw [WanState.announce]
  dsimp only
  rw [hany, if_neg Bool.false_ne_true, mem_append, mem_filter, decide_eq_true_eq, mem_toList]
  exact Iff.rfl

/-! What a call makes of a list, in terms of what an event announces and deletes. -/

theorem Wan.tethersAfter_eq {l : List ℕ} :
    w.tethersAfter ip l e =
      if w.empties e ∧ w.ipType.has ip = true then []
      else
        (if w.active ip = true then (e.withdraws w.ifNum ip).elim l l.erase else l) ++
          (if w.ipType.has ip = true then e.announces w.ifNum ip else none).toList := by
  have hclose : (if w.mode = .q6Wan ∧ w.closes e = true ∧ w.isDefaultGateway = true ∧ w.ipType.has ip = true
      then [] else l) = if w.empties e = true ∧ w.ipType.has ip = true then [] else l := by
    simp [Wan.empties, and_assoc]
  have hid : (if w.active ip = true then (none : Option ℕ).elim l l.erase else l) ++
      (if w.ipType.has ip = true then (none : Option ℕ) else none).toList = l := by
    rw [elim_none, ite_self, ite_self]
    exact append_nil l
  cases e with
  | upstreamRouteAdd i k =>
    rw [empties_of_not_closes rfl, if_neg fun h => Bool.false_ne_true h.1]
    simp only [Wan.tethersAfter, WanEvt.withdraws, WanEvt.announces, elim_none, ite_self]
    by_cases hall : w.ifNum = i ∧ k = ip ∧ w.ipType.has ip = true
    · rw [if_pos hall, if_pos hall.2.2, if_pos ⟨hall.1.symm, hall.2.1⟩]
      rfl
    rw [if_neg hall]
    by_cases hhas : w.ipType.has ip = true
    · rw [if_pos hhas, if_neg fun h => hall ⟨h.1.symm, h.2, hhas⟩]
      exact (append_nil l).symm
    · rw [if_neg hhas]
      exact (append_nil l).symm
  | upstreamRouteDel i k =>
    rw [empties_of_not_closes rfl, if_neg fun h => Bool.false_ne_true h.1]
    simp only [Wan.tethersAfter, WanEvt.withdraws, WanEvt.announces, ite_self, toList_none, append_nil]
    by_cases hall : w.ifNum = i ∧ k = ip ∧ w.active ip = true
    · rw [if_pos hall, if_pos hall.2.2, if_pos ⟨hall.1.symm, hall.2.1⟩]
      rfl
    rw [if_neg hall]
    by_cases hact : w.active ip = true
    · rw [if_pos hact, if_neg fun h => hall ⟨h.1.symm, h.2, hact⟩]
      rfl
    · rw [if_neg hact]
  | _ =>
    show _ = if _ then [] else (if _ then Option.elim none l l.erase else l) ++ (if _ then none else none).toList
    rw [hid]
    exact hclose

theorem Wan.mem_tethersAfter {l : List ℕ} (hl : l.Nodup) (hact : w.active ip)
    (hhas : w.ipType.has ip) (hemp : w.empties e = false) :
    t ∈ w.tethersAfter ip l e ↔
      (t ∈ l ∧ e.withdraws w.ifNum ip ≠ some t) ∨ t ∈ e.announces w.ifNum ip := by
  rw [Wan.tethersAfter_eq, hemp, if_neg fun h => Bool.false_ne_true h.1, if_pos hact, if_pos hhas,
    mem_append, mem_toList]
  refine or_congr ?_ Iff.rfl
  rcases e.withdraws w.ifNum ip with _ | u
  · simp
  · rw [elim_some, hl.mem_erase_iff, and_comm]
    simp [eq_comm]

theorem announces_of_empties (h : w.empties e) : e.announces i ip = none := by
  cases e with
  | upstreamRouteAdd =>
    rw [empties_of_not_closes rfl] at h
    cases h
  | _ => rfl

theorem Wan.tethersAfter_nil :
    w.tethersAfter ip [] e = (if w.ipType.has ip = true then e.announces w.ifNum ip else none).toList := by
  rw [Wan.tethersAfter_eq]
  split
  case isTrue h =>
    rw [if_pos h.2, announces_of_empties h.1]
    rfl
  · have hbase : (if w.active ip = true then (e.withdraws w.ifNum ip).elim ([] : List ℕ) [].erase else []) = [] := by
      split
      · rcases e.withdraws w.ifNum ip with _ | u <;> rfl
      · rfl
    rw [hbase, nil_append]

theorem Wan.tethersAfter_wf {l : List ℕ} (hl : l.Nodup) (hbound : l.length ≤ maxIfaceEntries)
    (hadd : w.ipType.has ip → ∀ t ∈ e.announces w.ifNum ip, t ∉ l ∧ l.length < maxIfaceEntries) :
    (w.tethersAfter ip l e).Nodup ∧ (w.tethersAfter ip l e).length ≤ maxIfaceEntries := by
  have hbase : (if w.active ip = true then (e.withdraws w.ifNum ip).elim l l.erase else l).Sublist l := by
    split
    · rcases e.withdraws w.ifNum ip with _ | u
      · exact List.Sublist.refl l
      · exact erase_sublist
    · exact List.Sublist.refl l
  rw [Wan.tethersAfter_eq]
  generalize (if w.active ip = true then (e.withdraws w.ifNum ip).elim l l.erase else l) = l' at hbase ⊢
  have hlen := hbase.length_le
  split
  · exact ⟨nodup_nil, Nat.zero_le _⟩
  rcases hnew : (if w.ipType.has ip = true then e.announces w.ifNum ip else none) with _ | t
  · rw [toList_none, append_nil]
    exact ⟨hl.sublist hbase, hlen.trans hbound⟩
  have hhas : w.ipType.has ip = true := by
    by_contra h
    rw [if_neg h] at hnew
    cases hnew
  rw [if_pos hhas] at hnew
  obtain ⟨hnot, _⟩ := hadd hhas t hnew
  rw [toList_some]
  refine ⟨(hl.sublist hbase).append (nodup_singleton t) ?_, ?_⟩
  · intro u hu hut
    rw [mem_singleton.mp hut] at hu
    exact hnot (hbase.subset hu)
  · rw [length_append, length_singleton]
    omega

/-! ### What an event keeps -/

theorem inactive_of_becomesActive (hl : w.Local) (h : w.becomesActive ip e) :
    w.active ip = false ∧ w.ipType.has ip = true := by
  cases e with
  | upstreamRouteAdd =>
    obtain ⟨-, -, hhas, hact, -⟩ := of_decide_eq_true h
    exact ⟨hact, hhas⟩
  | routeAdd =>
    obtain ⟨-, -, -, hhas, hact, -⟩ := of_decide_eq_true h
    exact ⟨hact, hhas⟩
  | neighClientIpAddrAdd =>
    obtain ⟨-, -, -, -, hlack, -⟩ := of_decide_eq_true h
    exact ⟨(hl.lacks ip hlack).2, (hl.lacks ip hlack).1⟩
  | _ => cases h

theorem TetherInv.becomes (h : TetherInv s) (hok : ∀ w ∈ s.wan.insts, ∀ ip, s.EvtOk e w ip)
    (hw : w ∈ s.wan.insts) (hup : w.becomesActive ip e) : TetherFam (tetherStep s (.evt e)) ip := by
  obtain ⟨hnum, hopen⟩ := ifNum_of_becomesActive hup
  obtain ⟨hact, hhas⟩ := inactive_of_becomesActive (h.loc w hw) hup
  have hlist : s.tethers ip = [] := by
    refine (h.fam ip).nil fun v hv hact => ?_
    refine ((hok v hv ip).loses hact ((hok w hw ip).replaces hup v hv hact)).resolve_right ?_
    rw [empties_of_not_closes (hopen v)]
    exact Bool.false_ne_true
  obtain ⟨w', hw', hnext⟩ := next_mem h.nodup h.loc hw (hopen w)
  have hnum' : w'.ifNum = w.ifNum := congrArg WanConf.ifNum hnext.conf
  have htethers : (tetherStep s (.evt e)).tethers ip = (e.announces w.ifNum ip).toList := by
    refine (tether_round h.nodup hw hnum).trans ?_
    show w.tethersAfter ip (s.tethers ip) e = _
    rw [hlist, Wan.tethersAfter_nil, if_pos hhas]
  refine TetherFam.of_active hw' ?_ (fun v' hv' hact' => ?_) ?_ ?_ fun t => ?_
  · rw [hnext.active, Wan.activeNext, hup, Bool.true_or]
  · -- the interface that was active gives the family up
    obtain ⟨v, hv, hv'⟩ := next_of_mem h.nodup h.loc hv'
    rw [hnum', hv'.conf]
    rw [hv'.active, Wan.activeNext, Bool.or_eq_true] at hact'
    rcases hact' with hup' | hact'
    · exact (ifNum_of_becomesActive hup').1.trans hnum.symm
    simp only [Bool.and_eq_true, Bool.not_eq_true'] at hact'
    have hlose := (hok w hw ip).replaces hup v hv hact'.1.1
    rw [hact'.1.2] at hlose
    cases hlose
  · rw [htethers]
    rcases e.announces w.ifNum ip with _ | t
    · exact nodup_nil
    · exact nodup_singleton t
  · rw [htethers]
    rcases e.announces w.ifNum ip with _ | t
    · exact Nat.zero_le _
    · show 1 ≤ 15
      decide
  rw [htethers, hnum', mem_toList]
  refine Iff.trans ?_ (mem_announce fun v _ _ => hopen v).symm
  constructor
  · exact .inr
  · rintro (⟨hold, -⟩ | hnew)
    · exact (hok w hw ip).fresh hup t hold
    · exact hnew

theorem losesRoute_of_closes (h : w.closes e) : w.losesRoute ip e = true := by
  cases e with
  | wlanLinkDown | linkDown | cfgChange => exact h
  | _ => cases h

theorem TetherInv.tethers_other (h : TetherInv s) (hok : ∀ w ∈ s.wan.insts, ∀ ip, s.EvtOk e w ip)
    (hw : w ∈ s.wan.insts) (hact : w.active ip) (hstay : w.losesRoute ip e = false)
    (hne : w.ifNum ≠ e.ifNum) : (tetherStep s (.evt e)).tethers ip = s.tethers ip := by
  by_cases hactor : ∃ v ∈ s.wan.insts, v.ifNum = e.ifNum
  · obtain ⟨v, hv, hnum⟩ := hactor
    have hidle : v.active ip = false := by
      by_contra hact'
      exact hne (((h.fam ip).one v hv w hw (by simpa using hact') hact).trans hnum)
    have hannounces : e.announces v.ifNum ip = none := by
      cases e with
      | upstreamRouteAdd i k t =>
        refine if_neg fun hall => ?_
        have hlose : w.losesRoute ip (.upstreamRouteAdd i k t) = true := decide_eq_true ⟨hall.2, hne⟩
        rw [hstay] at hlose
        cases hlose
      | _ => rfl
    refine (tether_round h.nodup hv hnum).trans ?_
    show v.tethersAfter ip (s.tethers ip) e = s.tethers ip
    rw [Wan.tethersAfter_eq, hannounces, ite_self, hidle, if_neg Bool.false_ne_true]
    split
    case isTrue hemp =>
      refine (((hok v hv ip).empties hemp.1 hemp.2).resolve_left ?_).symm
      rw [hidle]
      exact Bool.false_ne_true
    · exact append_nil _
  · exact tether_round_none fun v hv hnum => hactor ⟨v, hv, hnum⟩

theorem TetherInv.stays (h : TetherInv s) (hok : ∀ w ∈ s.wan.insts, ∀ ip, s.EvtOk e w ip)
    (hnone : ∀ w ∈ s.wan.insts, w.becomesActive ip e = false) (hw : w ∈ s.wan.insts) (hact : w.active ip)
    (hstay : w.losesRoute ip e = false) (htethered : w.untethered true s.wan.shared ip e = false) :
    TetherFam (tetherStep s (.evt e)) ip := by
  have hopen : w.closes e = false := by
    by_contra hc
    rw [losesRoute_of_closes (by simpa using hc)] at hstay
    cases hstay
  obtain ⟨w', hw', hnext⟩ := next_mem h.nodup h.loc hw hopen
  have hnum' : w'.ifNum = w.ifNum := congrArg WanConf.ifNum hnext.conf
  have hact' : w'.active ip = true := by
    rw [hnext.active, Wan.activeNext, hnone w hw, hact, hstay, htethered]
    rfl
  have hone : ∀ v' ∈ (tetherStep s (.evt e)).wan.insts, v'.active ip = true → v'.ifNum = w'.ifNum := by
    intro _ hv' hact'
    obtain ⟨v, hv, hv'⟩ := next_of_mem h.nodup h.loc hv'
    rw [hv'.active, Wan.activeNext, hnone v hv, Bool.false_or, Bool.and_assoc, Bool.and_eq_true] at hact'
    rw [hnum', hv'.conf]
    exact (h.fam ip).one w hw v hv hact hact'.1
  have hrecord : ∀ t, t ∈ (tetherStep s (.evt e)).announced w.ifNum ip ↔
      (t ∈ s.announced w.ifNum ip ∧ e.withdraws w.ifNum ip ≠ some t) ∨ t ∈ e.announces w.ifNum ip :=
    fun t => mem_announce fun v hv hnum => (h.unique hw hv hnum) ▸ hopen
  have hmem := (h.fam ip).mem_iff hw hact
  by_cases hnum : w.ifNum = e.ifNum
  · have htethers : (tetherStep s (.evt e)).tethers ip = w.tethersAfter ip (s.tethers ip) e :=
      tether_round h.nodup hw hnum
    have hwf := Wan.tethersAfter_wf (e := e) (h.fam ip).nodup (h.fam ip).bound
      fun hhas t ht => ⟨((hok w hw ip).add hhas t ht).1, ((hok w hw ip).add hhas t ht).2.1⟩
    refine TetherFam.of_active hw' hact' hone ?_ ?_ fun t => ?_
    · rw [htethers]
      exact hwf.1
    · rw [htethers]
      exact hwf.2
    · rw [htethers, hnum', hrecord, ← hmem]
      exact Wan.mem_tethersAfter (h.fam ip).nodup hact ((h.loc w hw).has ip hact) (empties_of_not_closes hopen)
  have htethers := h.tethers_other hok hw hact hstay hnum
  have hnew : e.announces w.ifNum ip = none := by
    cases e with
    | upstreamRouteAdd => exact if_neg fun hall => hnum hall.1.symm
    | _ => rfl
  have hdel : e.withdraws w.ifNum ip = none := by
    cases e with
    | upstreamRouteDel => exact if_neg fun hall => hnum hall.1.symm
    | _ => rfl
  refine TetherFam.of_active hw' hact' hone ?_ ?_ fun t => ?_
  · rw [htethers]
    exact (h.fam ip).nodup
  · rw [htethers]
    exact (h.fam ip).bound
  · rw [htethers, hnum', hrecord, hmem, hnew, hdel]
    simp

theorem ifNum_of_empties (h : w.empties e) : w.ifNum = e.ifNum := by
  obtain ⟨⟨hq, hc⟩, -⟩ : (w.mode = .q6Wan ∧ w.closes e = true) ∧ w.isDefaultGateway = true := by
    simpa [Wan.empties] using h
  cases e with
  | wlanLinkDown | cfgChange => exact (of_decide_eq_true hc).2
  | linkDown =>
    rcases of_decide_eq_true hc with hi | hmode
    · exact hi.2
    · rw [hq] at hmode
      cases hmode
  | _ => cases hc

theorem TetherInv.tethers_given_up (h : TetherInv s) (hw : w ∈ s.wan.insts) (hact : w.active ip)
    (hgone : w.untethered true s.wan.shared ip e ∨ w.empties e) : (tetherStep s (.evt e)).tethers ip = [] := by
  rcases hgone with hlast | hemp
  · cases e with
    | upstreamRouteDel i k t =>
      obtain ⟨hi, hk, hnil⟩ := of_decide_eq_true hlast
      refine (tether_round (e := .upstreamRouteDel i k t) h.nodup hw hi).trans ?_
      rw [Wan.tethersAfter, if_pos ⟨hi, hk, hact⟩]
      exact hnil.resolve_left fun h => Bool.false_ne_true h.symm
    | _ => cases hlast
  · refine (tether_round h.nodup hw (ifNum_of_empties hemp)).trans ?_
    rw [Wan.tethersAfter_eq, if_pos ⟨hemp, (h.loc w hw).has ip hact⟩]

theorem eq_of_announces (h : e.announces i ip = some t) : e = .upstreamRouteAdd i ip t := by
  cases e with
  | upstreamRouteAdd j k u =>
    rw [WanEvt.announces] at h
    split at h
    case isTrue hall =>
      obtain ⟨rfl, rfl⟩ := hall
      rw [some.inj h]
    · cases h
  | _ => cases h

theorem TetherInv.ends (h : TetherInv s) (hok : ∀ w ∈ s.wan.insts, ∀ ip, s.EvtOk e w ip)
    (hnone : ∀ w ∈ s.wan.insts, w.becomesActive ip e = false)
    (hends : ∀ w ∈ s.wan.insts, w.active ip →
      w.losesRoute ip e ∨ w.untethered true s.wan.shared ip e) : TetherFam (tetherStep s (.evt e)) ip := by
  refine TetherFam.of_none (fun w' hw' => ?_) ?_
  · obtain ⟨w, hw, hnext⟩ := next_of_mem h.nodup h.loc hw'
    rw [hnext.active, Wan.activeNext, hnone w hw, Bool.false_or]
    rcases hact : w.active ip with _ | _
    · rfl
    rcases hends w hw hact with hlose | hlast
    · rw [hlose]
      rfl
    · rw [hlast, Bool.not_true, Bool.and_false]
  by_cases hgone : ∃ w ∈ s.wan.insts, w.active ip = true ∧
      (w.untethered true s.wan.shared ip e = true ∨ w.empties e = true)
  · obtain ⟨w, hw, hact, hgone⟩ := hgone
    exact h.tethers_given_up hw hact hgone
  have hnil : s.tethers ip = [] := by
    refine (h.fam ip).nil fun w hw hact => ?_
    rcases hends w hw hact with hlose | hlast
    · refine ((hok w hw ip).loses hact hlose).resolve_right fun hemp => ?_
      exact hgone ⟨w, hw, hact, Or.inr hemp⟩
    · exact absurd ⟨w, hw, hact, Or.inl hlast⟩ hgone
  by_cases hactor : ∃ v ∈ s.wan.insts, v.ifNum = e.ifNum
  · obtain ⟨v, hv, hnum⟩ := hactor
    refine (tether_round h.nodup hv hnum).trans ?_
    show v.tethersAfter ip (s.tethers ip) e = []
    rw [hnil, Wan.tethersAfter_nil]
    split
    case isTrue hhas =>
      -- an interface that is announced has an upstream
      rcases hnew : e.announces v.ifNum ip with _ | t
      · rfl
      obtain ⟨-, -, hup⟩ := (hok v hv ip).add hhas t hnew
      obtain rfl := eq_of_announces hnew
      rcases hact : v.active ip with _ | _
      · have hgoes : v.goesUp ip = true := hup.resolve_left fun h => Bool.false_ne_true (hact.symm.trans h)
        have hbecomes := hnone v hv
        simp [Wan.becomesActive, hhas, hact, hgoes] at hbecomes
      · have hfixed := hends v hv hact
        simp [Wan.losesRoute, Wan.untethered] at hfixed
    · rfl
  · exact (tether_round_none fun v hv hnum => hactor ⟨v, hv, hnum⟩).trans hnil

theorem TetherInv.evt (h : TetherInv s) (hok : ∀ w ∈ s.wan.insts, ∀ ip, s.EvtOk e w ip) :
    TetherInv (tetherStep s (.evt e)) := by
  refine ⟨nodup_round h.nodup, fun w' hw' => ?_, fun ip => ?_⟩
  · obtain ⟨w, -, hnext⟩ := next_of_mem h.nodup h.loc hw'
    exact hnext.loc
  by_cases hup : ∃ w ∈ s.wan.insts, w.becomesActive ip e = true
  · obtain ⟨w, hw, hup⟩ := hup
    exact h.becomes hok hw hup
  have hnone : ∀ w ∈ s.wan.insts, w.becomesActive ip e = false :=
    fun w hw => Bool.eq_false_iff.mpr fun h => hup ⟨w, hw, h⟩
  by_cases hstays : ∃ w ∈ s.wan.insts, w.active ip = true ∧ w.losesRoute ip e = false ∧
      w.untethered true s.wan.shared ip e = false
  · obtain ⟨w, hw, hact, hstay, htethered⟩ := hstays
    exact h.stays hok hnone hw hact hstay htethered
  refine h.ends hok hnone fun w hw hact => ?_
  by_contra hends
  rw [not_or, Bool.not_eq_true, Bool.not_eq_true] at hends
  exact hstays ⟨w, hw, hact, hends⟩

/-! ### The last tethered interface -/

theorem wanUp_cleanRoute {g : WanShared} (htx : w.tx) (hact : w.active ip) :
    (cleanRoute g w ip).1.wanUp ip = false := by
  have hdel (g : WanShared) : (handleRouteDelEvt g w ip).1.wanUp ip = false := by
    unfold handleRouteDelEvt
    rw [if_pos htx]
    rw [if_pos hact]
    exact update_self ..
  unfold cleanRoute
  split <;> exact hdel _

section

variable (h : TetherInv s) (hw : w ∈ s.wan.insts) (hact : w.active ip = true)
    (hlast : ∀ u ∈ s.announced w.ifNum ip, u = t)
include h hw hact hlast

theorem TetherInv.untethered : (s.tethers ip).erase t = [] := by
  refine eq_nil_iff_forall_not_mem.mpr fun u hu => ?_
  rw [(h.fam ip).nodup.mem_erase_iff] at hu
  exact hu.1 (hlast u (((h.fam ip).mem_iff hw hact u).mp hu.2))

theorem TetherInv.last :
    (∀ v ∈ (wanStep true s.wan (.evt (.upstreamRouteDel w.ifNum ip t))).insts, v.active ip = false) ∧
      (wanStep true s.wan (.evt (.upstreamRouteDel w.ifNum ip t))).shared.wanUp ip = false := by
  have hnil : (s.wan.shared.ipaIfNumTether ip).erase t = [] := h.untethered hw hact hlast
  constructor
  · intro _ hv'
    obtain ⟨v, hv, hnext⟩ := next_of_mem h.nodup h.loc hv'
    rw [hnext.active]
    rcases hact' : v.active ip with _ | _
    · simp [Wan.activeNext, Wan.becomesActive, hact']
    · have hnum := (h.fam ip).one w hw v hv hact hact'
      simp [Wan.activeNext, Wan.becomesActive, Wan.untethered, hnum, hnil]
  obtain ⟨pre, post, hs⟩ := append_of_mem hw
  obtain ⟨hbefore, -⟩ :
      (dispatch (fun g w' => w'.eventCallback true g (.upstreamRouteDel w.ifNum ip t)) s.wan.shared
        pre).1.ipaIfNumTether ip = s.wan.shared.ipaIfNumTether ip ∧ _ := tether_before h.nodup hs rfl
  have hkeep : ∀ v ∈ pre ++ post, ∀ g,
      (v.eventCallback true g (.upstreamRouteDel w.ifNum ip t)).1.wanUp ip = g.wanUp ip := by
    intro v hv g
    show (handleEvt true g v (.upstreamRouteDel w.ifNum ip t)).1.wanUp ip = g.wanUp ip
    rw [handleEvt, if_neg fun hall => ifNum_ne_of_split h.nodup hs v hv hall.1]
  show (dispatch (fun g w' => w'.eventCallback true g (.upstreamRouteDel w.ifNum ip t)) s.wan.shared
    s.wan.insts).1.wanUp ip = false
  rw [hs]
  refine (dispatch_sole (f := fun g : WanShared => g.wanUp ip) hkeep).2.trans ?_
  generalize (dispatch (fun g w' => w'.eventCallback true g (.upstreamRouteDel w.ifNum ip t)) s.wan.shared
    pre).1 = g at hbefore ⊢
  show (handleEvt true g w (.upstreamRouteDel w.ifNum ip t)).1.wanUp ip = false
  rw [handleEvt, if_pos ⟨rfl, hact⟩]
  rw [if_pos rfl, if_neg]
  · exact wanUp_cleanRoute ((h.loc w hw).tx ip hact) hact
  · rw [tether_postDown, if_pos rfl, hbefore, hnil]
    exact fun hall => hall.2 rfl

end

theorem TetherInv.create {c : WanConf} (h : TetherInv s) : TetherInv (tetherStep s (.create c)) := by
  by_cases hold : s.wan.insts.any (fun w => w.ifNum = c.ifNum) = true
  · have hsame : tetherStep s (.create c) = s := by
      rw [tetherStep, wanStep, if_pos hold]
      rfl
    rw [hsame]
    exact h
  have hwan : (tetherStep s (.create c)).wan = { s.wan with insts := s.wan.insts ++ [Wan.new c] } := if_neg hold
  have hinsts : (tetherStep s (.create c)).wan.insts = s.wan.insts ++ [Wan.new c] := by rw [hwan]
  have htethers (ip : IpType) : (tetherStep s (.create c)).tethers ip = s.tethers ip := by
    show (tetherStep s (.create c)).wan.shared.ipaIfNumTether ip = _
    rw [hwan]
    rfl
  -- the new instance is not active
  have hactive : ∀ ip, ∀ w ∈ (tetherStep s (.create c)).wan.insts, w.active ip = true → w ∈ s.wan.insts := by
    intro ip w hw hact
    rw [hinsts] at hw
    rcases mem_append.mp hw with hw | hw
    · exact hw
    · rw [mem_singleton.mp hw] at hact
      cases hact
  refine ⟨?_, fun w hw => ?_, fun ip => ?_⟩
  · rw [hinsts, map_append]
    refine h.nodup.append (nodup_singleton _) fun i hi hi' => hold ?_
    obtain ⟨w, hw, rfl⟩ := mem_map.mp hi
    exact any_eq_true.mpr ⟨w, hw, decide_eq_true (mem_singleton.mp hi')⟩
  · rw [hinsts] at hw
    rcases mem_append.mp hw with hw | hw
    · exact h.loc w hw
    · rw [mem_singleton.mp hw]
      exact Wan.local_new c
  refine ⟨?_, ?_, fun t => ?_, fun w hw v hv hact hact' => ?_⟩
  · rw [htethers]
    exact (h.fam ip).nodup
  · rw [htethers]
    exact (h.fam ip).bound
  · rw [htethers, (h.fam ip).mem]
    constructor
    · rintro ⟨w, hw, hact, ht⟩
      exact ⟨w, hinsts ▸ mem_append_left _ hw, hact, ht⟩
    · rintro ⟨w, hw, hact, ht⟩
      exact ⟨w, hactive ip w hw hact, hact, ht⟩
  · exact (h.fam ip).one w (hactive ip w hw hact) v (hactive ip v hv hact') hact hact'

end

/-! ### Runs -/

/-- What the lists are in a state, and what the deletion of the last tethered interface does
there. -/
structure TetherSpec (s : TetherState) : Prop where
  nodup : ∀ ip, (s.wan.shared.ipaIfNumTether ip).Nodup
  bound : ∀ ip, (s.wan.shared.ipaIfNumTether ip).length ≤ maxIfaceEntries
  mem : ∀ ip t, t ∈ s.wan.shared.ipaIfNumTether ip ↔
    ∃ w ∈ s.wan.insts, w.active ip = true ∧ t ∈ s.announced w.ifNum ip
  last : ∀ w ∈ s.wan.insts, ∀ ip t, w.active ip = true → (∀ u ∈ s.announced w.ifNum ip, u = t) →
    (∀ v ∈ (wanStep true s.wan (.evt (.upstreamRouteDel w.ifNum ip t))).insts, v.active ip = false) ∧
      (wanStep true s.wan (.evt (.upstreamRouteDel w.ifNum ip t))).shared.wanUp ip = false

/-- **In every run whose events meet the condition, the lists hold what has been announced
for the active upstream, and with the last of it the upstream is given up.** -/
theorem wanTether_exact (acts : List WanAct) (hok : AllSteps tetherStep TetherOk TetherState.init acts) :
    (tetherRun acts).wan = wanRun true acts ∧ TetherSpec (tetherRun acts) := by
  have hinit : TetherInv TetherState.init := ⟨nodup_nil, nofun,
      fun ip => TetherFam.of_none nofun rfl⟩
  have hstep : ∀ s a, TetherOk s a → TetherInv s → TetherInv (tetherStep s a) := by
    intro s a hok h
    cases a with
    | create => exact h.create
    | evt => exact h.evt hok
  have h : TetherInv (tetherRun acts) := run_invariant hstep hok hinit
  exact ⟨tetherRun_wan acts, fun ip => (h.fam ip).nodup, fun ip => (h.fam ip).bound,
    fun ip => (h.fam ip).mem, fun w hw ip t hact hlast => h.last hw hact hlast⟩

/-- Two interfaces are tethered to a modem interface, and one of them is deleted. -/
def sampleTether : List WanAct :=
  [.create (sampleModem 1), .evt (.addrAdd 1 (.v4 1)), .evt (.upstreamRouteAdd 1 .v4 7),
    .evt (.upstreamRouteAdd 1 .v4 8), .evt (.upstreamRouteDel 1 .v4 7)]

theorem wanTether_two : (tetherRun sampleTether).wan.shared.ipaIfNumTether .v4 = [8] ∧
      (tetherRun sampleTether).wan = wanRun true sampleTether ∧ TetherSpec (tetherRun sampleTether) :=
  ⟨by decide, wanTether_exact sampleTether (by decide)⟩

/-- An interface is announced twice and deleted. -/
def sampleTwice : List WanAct :=
  [.create (sampleModem 1), .evt (.addrAdd 1 (.v4 1)), .evt (.upstreamRouteAdd 1 .v4 7),
    .evt (.upstreamRouteAdd 1 .v4 7), .evt (.upstreamRouteDel 1 .v4 7)]

/-- Another upstream is announced, and its tethered interface is deleted. -/
def sampleOtherUpstream : List WanAct :=
  [.create (sampleModem 1), .create (sampleModem 2), .evt (.addrAdd 1 (.v4 1)), .evt (.addrAdd 2 (.v4 2)),
    .evt (.upstreamRouteAdd 1 .v4 7), .evt (.upstreamRouteAdd 2 .v4 8), .evt (.upstreamRouteDel 2 .v4 8)]

/-- The list still has an interface that has been deleted, or one that was announced for
another upstream, and the upstream that has none left stays active. -/
theorem wanTether_stale : ((tetherRun sampleTwice).announced 1 .v4 = [] ∧
        (tetherRun sampleTwice).wan.shared.ipaIfNumTether .v4 = [7] ∧
        (tetherRun sampleTwice).wan.insts.map (fun w => (w.ifNum, w.active .v4)) = [(1, true)] ∧
        ¬ TetherSpec (tetherRun sampleTwice)) ∧
      (tetherRun sampleOtherUpstream).announced 2 .v4 = [] ∧
      (tetherRun sampleOtherUpstream).wan.shared.ipaIfNumTether .v4 = [7] ∧
      (tetherRun sampleOtherUpstream).wan.insts.map (fun w => (w.ifNum, w.active .v4)) =
        [(1, false), (2, true)] := by
  refine ⟨⟨by decide, by decide, by decide, fun h => ?_⟩, by decide, by decide, by decide⟩
  obtain ⟨w, hw, -, ht⟩ := (h.mem .v4 7).mp (by decide)
  have hnum : w.ifNum ∈ (tetherRun sampleTwice).wan.insts.map fun w => w.ifNum := mem_map_of_mem hw
  have hone : (tetherRun sampleTwice).wan.insts.map (fun w => w.ifNum) = [1] := by decide
  rw [mem_singleton.mp hnum] at ht
  exact nomatch ht

end G4Common.Ipacm

/-
What becomes of a subscription, in any class of `AgpsStateMachine`.

`addSubscriber()` adds nobody who equals a subscriber of the list, be that one active or not.  A client that asks
again while its last session is closed is therefore told nothing, or that it has the data connection, but is not
active.  And an unsubscription that deletes its subscriber at once compares the others with what it has deleted, which
may end theirs.  Where neither happens (`StepMeets`), a subscription stays until its end.

`equals()` compares IDs.  A `BITSubscriber` without an IPv4 address compares bytes of the other subscriber as well,
which only another `BITSubscriber` has.

`DSStateMachine::onRsrcEvent()` is one or two of the calls here.

Main result: `agps_subscription_kept`.
-/
import G4Common.Gps.AgpsStates
import G4Common.Lib.Broadcast

namespace G4Common.Gps

universe u

open Broadcast List Bool

/-! ### The same subscriber -/

def INADDR_NONE : UInt32 := 0xffffffff

namespace Subscriber

variable {s t r : Subscriber}

/-- `equals()`, as it is meant. -/
structure Same (s t : Subscriber) : Prop where
  id_eq : s.ID = t.ID
  kind_eq : s.ID = INADDR_NONE → s.kind = t.kind
  address_eq : s.ID = INADDR_NONE → s.kind = .bit → s.address = t.address

theorem Same.symm (h : Same s t) : Same t s where
  id_eq := h.id_eq.symm
  kind_eq ht := (h.kind_eq (h.id_eq.trans ht)).symm
  address_eq ht hb := by
    have hs := h.id_eq.trans ht
    exact (h.address_eq hs ((h.kind_eq hs).trans hb)).symm

theorem Same.trans (h : Same s t) (h' : Same t r) : Same s r where
  id_eq := h.id_eq.trans h'.id_eq
  kind_eq hs := (h.kind_eq hs).trans (h'.kind_eq (h.id_eq.symm.trans hs))
  address_eq hs hb := by
    have ht := h.id_eq.symm.trans hs
    exact (h.address_eq hs hb).trans (h'.address_eq ht ((h.kind_eq hs).symm.trans hb))

theorem Same.equals (h : Same s t) : s.equals t = true := by
  by_cases hb : s.kind = .bit ∧ s.ID = INADDR_NONE
  · have ha := h.address_eq hb.2 hb.1
    simp [Subscriber.equals, h.id_eq, ha]
  rw [not_and_or] at hb
  have hid : ¬s.ID = 0xffffffff ↔ ¬s.ID = INADDR_NONE := Iff.rfl
  rw [Subscriber.equals, h.id_eq] at *
  rcases hb with hb | hb
  · simp [hb]
  · simp [hid, hb]

theorem same_of_equals (hkind : t.ID = INADDR_NONE → s.ID = t.ID → s.kind = t.kind) (h : s.equals t) : Same s t := by
  simp only [Subscriber.equals, and_eq_true, or_eq_true, decide_eq_true_eq] at h
  obtain ⟨hid, hrest⟩ := h
  refine ⟨hid, fun hs => hkind (hid.symm.trans hs) hid, ?_⟩
  intro hs hb
  rcases hrest with (h | h) | h
  · exact absurd hb h
  · exact absurd hs h
  · exact h

theorem equals_self (s : Subscriber) : s.equals s = true := Same.equals ⟨rfl, fun _ => rfl, fun _ _ => rfl⟩

theorem same_clone (s : Subscriber) : Same s.clone s := ⟨rfl, fun _ => rfl, fun _ _ => rfl⟩

theorem clone_active (s : Subscriber) : s.clone.isInactive = false := by
  rw [isInactive, clone, Bool.and_false]

end Subscriber

/-- An output that tells `s` the status. -/
def AgpsOut.isFor (s : Subscriber) (status : AgpsRsrcStatus) : AgpsOut → Bool
  | .notify e st => e.equals s && st = status
  | .request _ => false
  | .requestSuplES _ => false

namespace AgpsMachine

variable {X : Type u} (cls : AgpsClass X) {m m' : AgpsMachine X} {s t : Subscriber}
variable {e : Subscriber}

/-- The list contains an active subscriber equal to `s`. -/
def active (m : AgpsMachine X) (s : Subscriber) : Bool := m.subscribers.any fun e => e.equals s && !e.isInactive

/-- `s` was told the status in the last call. -/
def notified (m : AgpsMachine X) (s : Subscriber) (status : AgpsRsrcStatus) : Bool := m.outs.any (AgpsOut.isFor s status)

/-- Without an IPv4 address, `s` meets subscribers of its kind only. -/
def OneKind (m : AgpsMachine X) (s : Subscriber) : Prop :=
  s.ID = INADDR_NONE → ∀ e ∈ m.subscribers, e.ID = s.ID → e.kind = s.kind

instance (m : AgpsMachine X) (s : Subscriber) : Decidable (OneKind m s) :=
  inferInstanceAs (Decidable (s.ID = INADDR_NONE → ∀ e ∈ m.subscribers, e.ID = s.ID → e.kind = s.kind))

/-- An unsubscription of `s` deletes no subscriber while there are others. -/
def Spares (m : AgpsMachine X) (s : Subscriber) : Prop :=
  m.subscribers.length ≤ 1 ∨ ∀ e ∈ m.subscribers.find? (Subscriber.equals · s), e.waitForCloseComplete = true

instance (m : AgpsMachine X) (s : Subscriber) : Decidable (Spares m s) :=
  inferInstanceAs (Decidable (m.subscribers.length ≤ 1 ∨
    ∀ e ∈ m.subscribers.find? (Subscriber.equals · s), e.waitForCloseComplete = true))

/-- The condition: a subscription that is not denied at once meets no subscriber that is closed, and an unsubscription
deletes no subscriber while there are others. -/
def StepMeets (m : AgpsMachine X) : Call → Prop
  | .subscribe s =>
    (m.enforceSingleSubscriber && m.hasSubscribers) = true ∨
      OneKind m s ∧ (m.subscribers.any (Subscriber.equals · s) = true → m.active s = true)
  | .unsubscribe s => OneKind m s ∧ Spares m s
  | .granted => True
  | .released => True
  | .denied => True

instance (m : AgpsMachine X) : ∀ c, Decidable (StepMeets m c)
  | .subscribe s =>
    inferInstanceAs (Decidable ((m.enforceSingleSubscriber && m.hasSubscribers) = true ∨
      OneKind m s ∧ (m.subscribers.any (Subscriber.equals · s) = true → m.active s = true)))
  | .unsubscribe s => inferInstanceAs (Decidable (OneKind m s ∧ Spares m s))
  | .granted => isTrue trivial
  | .released => isTrue trivial
  | .denied => isTrue trivial

/-- The call is the unsubscription of `s`. -/
def Call.endsFor (s : Subscriber) : Call → Bool
  | .subscribe _ => false
  | .unsubscribe t => s.equals t
  | .granted => false
  | .released => false
  | .denied => false

/-- The call is not the unsubscription of `s`, and `s` is not told that the data connection is denied or released. -/
def Undisturbed (s : Subscriber) (m : AgpsMachine X) (c : Call) : Prop :=
  c.endsFor s = false ∧ (call cls m c).notified s .denied = false ∧ (call cls m c).notified s .released = false

/-! ### The list after an event -/

theorem notified_of_mem {status : AgpsRsrcStatus} (h : .notify e status ∈ m.outs)
    (hs : e.equals s) : m.notified s status = true := by
  refine List.any_eq_true.2 ⟨_, h, ?_⟩
  rw [AgpsOut.isFor, hs, Bool.true_and]
  exact decide_eq_true rfl

theorem subscribers_addSubscriber (m : AgpsMachine X) (s : Subscriber) :
    m.subscribers.Sublist (m.addSubscriber s).subscribers := by
  rw [addSubscriber]
  split
  · exact List.Sublist.refl _
  · exact sublist_cons_self _ _

theorem subscribers_subscribe (m : AgpsMachine X) (s : Subscriber) :
    (onEvent cls m (.subscribe s)).subscribers = (m.addSubscriber s).subscribers := by
  rw [onEvent]
  split
  · rfl
  · rfl
  · show ((notify cls m s .granted).addSubscriber s).subscribers = _
    simp only [addSubscriber, notify]
    split <;> rfl
  · rfl

theorem subscribers_unsubscribe (m : AgpsMachine X) (s e : Subscriber) :
    (onEvent cls m (.unsubscribe s e)).subscribers =
      if m.state = .released then m.subscribers else (closeSubscriber cls m s e).subscribers := by
  have hunsub : (unsubscribeEvent cls m s e).subscribers = (closeSubscriber cls m s e).subscribers := by
    rw [unsubscribeEvent]
    split
    · rfl
    · split <;> rfl
  rw [onEvent]
  split
  · rename_i hst
    rw [if_pos hst]
    rfl
  · rename_i hst
    rw [if_neg (by rw [hst]; decide)]
    exact hunsub
  · rename_i hst
    rw [if_neg (by rw [hst]; decide)]
    exact hunsub
  · rename_i hst
    rw [if_neg (by rw [hst]; decide), releasingEvent]
    split <;> rfl

theorem mem_setFirst {l : List Subscriber} (he : e ∈ l) (hne : e.equals t = false) : e ∈ setFirst t l := by
  induction l with
  | nil => exact he
  | cons _ _ ih =>
    rw [setFirst]
    rcases mem_cons.1 he with rfl | hl
    · rw [if_neg (by rw [hne]; exact false_ne_true)]
      exact mem_cons_self
    · split
      · exact mem_cons_of_mem _ hl
      · exact mem_cons_of_mem _ (ih hl)

theorem mem_of_closed {l l' : List Subscriber} {b : Subscriber} (he : e ∈ l) (hb : l.find? (Subscriber.equals · t) = some b)
    (hkind : ∀ x ∈ l, t.ID = INADDR_NONE → x.ID = t.ID → x.kind = t.kind)
    (hspares : l.length ≤ 1 ∨ b.waitForCloseComplete = true) (hclosed : Closed t b l l') (hne : ¬e.Same t) : e ∈ l' := by
  have het : e.equals t = false := by
    rw [eq_false_iff]
    exact fun h => hne (Subscriber.same_of_equals (hkind e he) h)
  rw [Closed] at hclosed
  split at hclosed
  · rw [hclosed]
    exact mem_setFirst he het
  rename_i hwait
  -- `b` is alone, so it is `e`
  have hbt : b.equals t = true := by simpa using find?_some hb
  have heb : e = b := by
    obtain ⟨x, rfl⟩ := length_eq_one_iff.1 (Nat.le_antisymm (hspares.resolve_right hwait) (length_pos_of_mem he))
    exact (mem_singleton.1 he).trans (mem_singleton.1 (mem_of_find?_eq_some hb)).symm
  rw [heb, hbt] at het
  cases het

theorem report_eq (e : Subscriber) {status : AgpsRsrcStatus} (h : status ≠ .unsubscribe) :
    e.report status = [.notify e status] := by
  rw [Subscriber.report, if_neg]
  exact fun hw => h hw.2

theorem outs_notifySubscribers (m : AgpsMachine X) (group : NotificationGroup) (hgroup : group.IsBroadcast)
    {status : AgpsRsrcStatus} (hu : status ≠ .unsubscribe) (hs : status ≠ .subscribe) (he : e ∈ m.subscribers)
    (hfor : e.forMe group) : .notify e status ∈ (notifySubscribers cls m ⟨group, status, true⟩).outs := by
  rw [notifySubscribers_eq_foldl cls m _ fun _ => readsOn_of_isBroadcast cls hgroup, outs_foldl]
  refine mem_append_right _ (mem_flatMap.2 ⟨e, mem_filter.2 ⟨he, ?_⟩, ?_⟩)
  · rw [Subscriber.notifies, hfor, Bool.true_and]
    exact decide_eq_true hs
  · rw [report_eq e hu]
    exact mem_singleton_self _

theorem mem_closedEvent (status : AgpsRsrcStatus) (he : e ∈ m.subscribers)
    (hactive : e.isInactive = false) : e ∈ (closedEvent cls m status).subscribers := by
  have hmem : e ∈ (notifySubscribers cls m ⟨.inactive, status, true⟩).subscribers := by
    rw [(notifySubscribers_delete cls m .inactive trivial status).2, mem_filter]
    refine ⟨he, ?_⟩
    rw [Subscriber.notifies, Subscriber.forMe, hactive]
    rfl
  rw [closedEvent]
  split <;> exact hmem

/-! ### One call -/

/-- An active subscriber that is the same as `s`. -/
def Holds (m : AgpsMachine X) (s : Subscriber) : Prop := ∃ e ∈ m.subscribers, e.isInactive = false ∧ e.Same s

theorem Holds.active (h : Holds m s) : m.active s = true := by
  obtain ⟨e, he, hactive, hsame⟩ := h
  refine any_eq_true.2 ⟨e, he, ?_⟩
  rw [hsame.equals, hactive]
  rfl

theorem Holds.hasActiveSubscribers (h : Holds m s) : m.hasActiveSubscribers = true := by
  obtain ⟨e, he, hactive, -⟩ := h
  refine any_eq_true.2 ⟨e, he, ?_⟩
  rw [Subscriber.forMe, hactive]
  rfl

theorem holds_subscribe (hkind : OneKind m s) (hfresh : m.subscribers.any (Subscriber.equals · s) → m.active s) :
    Holds (onEvent cls m (.subscribe s)) s := by
  have hsub := subscribers_addSubscriber m s
  have heq := subscribers_subscribe cls m s
  rw [← heq] at hsub
  rcases hany : m.subscribers.any (Subscriber.equals · s) with - | -
  · -- nobody equals `s`, so `s` is added
    refine ⟨s.clone, ?_, s.clone_active, s.same_clone⟩
    rw [heq, addSubscriber]
    have hnone : m.subscribers.find? (Subscriber.equals · s) = none := by
      rw [find?_eq_none]
      exact any_eq_false.1 hany
    rw [hnone]
    exact mem_cons_self
  · obtain ⟨e, he, hes⟩ := any_eq_true.1 (hfresh hany)
    rw [and_eq_true, not_eq_true'] at hes
    exact ⟨e, hsub.subset he, hes.2, Subscriber.same_of_equals (fun hs hid => hkind hs e he hid) hes.1⟩

theorem holds_released (h : Holds m s) :
    Holds (onEvent cls m .released) s ∨ (onEvent cls m .released).notified s .released = true := by
  obtain ⟨e, he, hactive, hsame⟩ := h
  rw [onEvent]
  split
  · exact .inl ⟨e, he, hactive, hsame⟩
  · exact .inl ⟨e, he, hactive, hsame⟩
  · right
    refine notified_of_mem ?_ hsame.equals
    exact outs_notifySubscribers cls m .all trivial (by decide) (by decide) he rfl
  · exact .inl ⟨e, mem_closedEvent cls .released he hactive, hactive, hsame⟩

theorem holds_denied (h : Holds m s) :
    Holds (onEvent cls m .denied) s ∨ (onEvent cls m .denied).notified s .denied = true := by
  obtain ⟨e, he, hactive, hsame⟩ := h
  rw [onEvent]
  split
  · exact .inl ⟨e, he, hactive, hsame⟩
  · right
    refine notified_of_mem ?_ hsame.equals
    exact outs_notifySubscribers cls m .all trivial (by decide) (by decide) he rfl
  · exact .inl ⟨e, he, hactive, hsame⟩
  · exact .inl ⟨e, mem_closedEvent cls .denied he hactive, hactive, hsame⟩

theorem holds_granted (h : Holds m s) : Holds (onEvent cls m .granted) s := by
  obtain ⟨e, he, hactive, hsame⟩ := h
  refine ⟨e, ?_, hactive, hsame⟩
  rw [onEvent]
  split
  · exact he
  · show e ∈ (notifySubscribers cls m ⟨.active, .granted, false⟩).subscribers
    rw [(notifySubscribers_keep cls m .active .granted).2]
    exact he
  · exact he
  · exact he

theorem holds_call (h : Holds m s) {c : Call} (hmeets : StepMeets m c) (hun : Undisturbed cls s m c) :
    Holds (call cls m c) s := by
  obtain ⟨hends, hdenied, hreleased⟩ := hun
  cases c with
  | subscribe t =>
    rw [call, subscribeRsrc]
    split
    · exact h
    obtain ⟨e, he, hactive, hsame⟩ := h
    refine ⟨e, ?_, hactive, hsame⟩
    rw [subscribers_subscribe]
    exact (subscribers_addSubscriber _ t).subset he
  | unsubscribe t =>
    rw [call, unsubscribeRsrc]
    split
    · exact h
    rename_i b hb
    obtain ⟨e, he, hactive, hsame⟩ := h
    refine ⟨e, ?_, hactive, hsame⟩
    rw [subscribers_unsubscribe]
    split
    · exact he
    refine mem_of_closed he hb (fun x hx ht => hmeets.1 ht x hx) (hmeets.2.imp_right fun h => h b hb)
      (closeSubscriber_spec cls { m with outs := [] } t b).2 ?_
    -- the unsubscription would be that of `s`
    intro het
    rw [Call.endsFor, (hsame.symm.trans het).equals] at hends
    cases hends
  | granted =>
    have h' : Holds { m with outs := [] } s := h
    exact holds_granted cls h'
  | released =>
    have h' : Holds { m with outs := [] } s := h
    refine (holds_released cls h').resolve_right ?_
    rw [not_eq_true]
    exact hreleased
  | denied =>
    have h' : Holds { m with outs := [] } s := h
    refine (holds_denied cls h').resolve_right ?_
    rw [not_eq_true]
    exact hdenied

/-! ### The release of the data connection -/

theorem mem_requests_send {action r : AGpsStatusValue} (h : r ∈ (send cls m action).requests) :
    r ∈ m.requests ∨ r = action := by
  have hlist : (send cls m action).requests =
      m.requests ++ (cls.sendRsrcRequest m.ext m.subscribers action).2.2.filterMap requestOf :=
    filterMap_append
  rw [hlist, mem_append] at h
  rcases h with h | h
  · exact .inl h
  right
  obtain ⟨o, ho, hr⟩ := mem_filterMap.1 h
  cases o with
  | request =>
    rw [requestOf, Option.some.injEq] at hr
    subst hr
    exact cls.request_eq _ _ _ _ ho
  | notify | requestSuplES => cases hr

section Release

variable (hout : m.requests = [])

include hout

theorem release_quiet (hq : m'.requests = m.requests) : .releaseDataConn ∉ m'.requests := by
  rw [hq, hout]
  exact not_mem_nil

theorem release_send (hq : Quiet m m') : .releaseDataConn ∉ (send cls m' .requestDataConn).requests := by
  intro hr
  rcases mem_requests_send cls hr with hr | hr
  · exact release_quiet hout hq.requests_eq hr
  · cases hr

theorem release_closedEvent (status : AgpsRsrcStatus) : .releaseDataConn ∉ (closedEvent cls m status).requests := by
  obtain ⟨hq, -⟩ := notifySubscribers_delete cls m .inactive trivial status
  rw [closedEvent]
  split
  · intro hr
    rcases mem_requests_send cls hr with hr | hr
    · exact release_quiet hout hq.requests_eq hr
    · cases hr
  · exact release_quiet hout hq.requests_eq

theorem release_unsubscribeEvent (s e : Subscriber) (h : .releaseDataConn ∈ (unsubscribeEvent cls m s e).requests) :
    (unsubscribeEvent cls m s e).hasActiveSubscribers = false := by
  obtain ⟨hq, -⟩ := closeSubscriber_spec cls m s e
  rw [unsubscribeEvent] at h ⊢
  split
  · rename_i hnone
    rw [not_eq_true'] at hnone
    exact hasActiveSubscribers_eq_false hnone
  rename_i hsome
  rw [if_neg hsome] at h
  split_ifs with hactive
  · rw [not_eq_true'] at hactive
    exact hactive
  · rw [if_neg hactive] at h
    exact absurd h (release_quiet hout hq.requests_eq)

theorem release_onEvent (ev : Event) (h : .releaseDataConn ∈ (onEvent cls m ev).requests) :
    (onEvent cls m ev).hasActiveSubscribers = false := by
  rw [onEvent] at h ⊢
  split
  · rename_i hst
    rw [hst] at h
    cases ev with
    | subscribe s => exact absurd h (release_send cls hout (quiet_addSubscriber m s))
    | unsubscribe _ e => exact absurd h (release_quiet hout (quiet_notify cls m e .unsubscribe).requests_eq)
    | granted | released | denied => exact absurd h (release_quiet hout rfl)
  · rename_i hst
    rw [hst] at h
    cases ev with
    | subscribe s => exact absurd h (release_quiet hout (quiet_addSubscriber m s).requests_eq)
    | unsubscribe s e => exact release_unsubscribeEvent cls hout s e h
    | granted => exact absurd h (release_quiet hout (notifySubscribers_keep cls m .active .granted).1.requests_eq)
    | released => exact absurd h (release_quiet hout rfl)
    | denied => exact absurd h (release_quiet hout (notifySubscribers_delete cls m .all trivial .denied).1.requests_eq)
  · rename_i hst
    rw [hst] at h
    cases ev with
    | subscribe s =>
      have hq := (quiet_notify cls m s .granted).trans (quiet_addSubscriber _ s)
      exact absurd h (release_quiet hout hq.requests_eq)
    | unsubscribe s e => exact release_unsubscribeEvent cls hout s e h
    | granted => exact absurd h (release_quiet hout rfl)
    | released => exact absurd h (release_quiet hout (notifySubscribers_delete cls m .all trivial .released).1.requests_eq)
    | denied => exact absurd h (release_quiet hout rfl)
  rename_i hst
  rw [hst] at h
  cases ev with
  | subscribe s => exact absurd h (release_quiet hout (quiet_addSubscriber m s).requests_eq)
  | unsubscribe s e =>
    have hq := (closeSubscriber_spec cls m s e).1
    have hnot : .releaseDataConn ∉ (releasingEvent cls m (.unsubscribe s e)).requests := by
      rw [releasingEvent]
      split <;> exact release_quiet hout hq.requests_eq
    exact absurd h hnot
  | granted => exact absurd h (release_quiet hout rfl)
  | released => exact absurd h (release_closedEvent cls hout .released)
  | denied => exact absurd h (release_closedEvent cls hout .denied)

end Release

theorem release_call {c : Call} (h : .releaseDataConn ∈ (call cls m c).requests) :
    (call cls m c).hasActiveSubscribers = false := by
  have hout : ({ m with outs := [] } : AgpsMachine X).requests = [] := rfl
  cases c with
  | subscribe s =>
    rw [call, subscribeRsrc] at h ⊢
    split
    · rename_i hsingle
      rw [if_pos hsingle] at h
      exact absurd h (release_quiet hout (quiet_notify cls _ s .denied).requests_eq)
    · rename_i hsingle
      rw [if_neg hsingle] at h
      exact release_onEvent cls hout _ h
  | unsubscribe s =>
    rw [call, unsubscribeRsrc] at h ⊢
    split
    · rename_i hnone
      simp only [hnone] at h
      exact absurd h (release_quiet hout rfl)
    · rename_i e hsome
      simp only [hsome] at h
      exact release_onEvent cls hout _ h
  | granted | released | denied => exact release_onEvent cls hout _ h

/-! ### Runs -/

/-- What a subscription of `s` in `m` gives, and what the calls `mid` after it leave. -/
structure SubscriptionKept (m : AgpsMachine X) (s : Subscriber) (mid : List Call) : Prop where
  subscribed : (call cls m (.subscribe s)).notified s .denied = true ∨ (call cls m (.subscribe s)).active s = true
  kept : (call cls m (.subscribe s)).notified s .denied = false →
    AllSteps (call cls) (Undisturbed cls s) (call cls m (.subscribe s)) mid →
    (mid.foldl (call cls) (call cls m (.subscribe s))).active s = true ∧
      .releaseDataConn ∉ (mid.foldl (call cls) (call cls m (.subscribe s))).requests

theorem holds_call_subscribe (hmeets : StepMeets m (.subscribe s)) :
    (call cls m (.subscribe s)).notified s .denied ∨ Holds (call cls m (.subscribe s)) s := by
  rw [call, subscribeRsrc]
  split
  · left
    refine notified_of_mem ?_ s.equals_self
    show _ ∈ [] ++ s.report .denied
    rw [report_eq s (by decide)]
    exact mem_singleton_self _
  · rename_i hsingle
    obtain ⟨hkind, hfresh⟩ := hmeets.resolve_left hsingle
    exact .inr (holds_subscribe cls hkind hfresh)

theorem holds_run (h : Holds m s) (hrel : .releaseDataConn ∉ m.requests) {mid : List Call}
    (hmeets : AllSteps (call cls) StepMeets m mid) (hun : AllSteps (call cls) (Undisturbed cls s) m mid) :
    Holds (mid.foldl (call cls) m) s ∧ .releaseDataConn ∉ (mid.foldl (call cls) m).requests := by
  induction mid generalizing m with
  | nil => exact ⟨h, hrel⟩
  | cons _ _ ih =>
    have hc := holds_call cls h hmeets.1 hun.1
    refine ih hc ?_ hmeets.2 hun.2
    intro hr
    exact false_ne_true ((release_call cls hr).symm.trans hc.hasActiveSubscribers)

/-- In a run where no subscription meets a subscriber that is closed, and no unsubscription deletes a subscriber while
there are others: `s` is denied or active when `subscribeRsrc()`
returns, and from then on it is active, and the data connection is not released, as long as `s` does not unsubscribe
and is not told that it is denied or released. -/
theorem agps_subscription_kept (enforceSingleSubscriber : Bool) (x : X) (pre : List Call) (s : Subscriber)
    (mid : List Call)
    (hmeets : AllSteps (call cls) StepMeets (new enforceSingleSubscriber x) (pre ++ .subscribe s :: mid)) :
    SubscriptionKept cls (pre.foldl (call cls) (new enforceSingleSubscriber x)) s mid := by
  rw [allSteps_append] at hmeets
  obtain ⟨-, hsub, hmid⟩ := hmeets
  have hs := holds_call_subscribe cls hsub
  refine ⟨hs.imp_right Holds.active, ?_⟩
  intro hdenied hun
  have hholds : Holds _ s := hs.resolve_left (by rw [hdenied]; exact false_ne_true)
  have hrel : .releaseDataConn ∉ (call cls (pre.foldl (call cls) (new enforceSingleSubscriber x)) (.subscribe s)).requests := by
    intro hr
    exact false_ne_true ((release_call cls hr).symm.trans hholds.hasActiveSubscribers)
  obtain ⟨hend, hnot⟩ := holds_run cls hholds hrel hmid hun
  exact ⟨hend.active, hnot⟩

/-- An emergency call that is asked for and granted. -/
theorem agps_subscription_kept_ds : AllSteps (call agpsDs) StepMeets (new false ⟨0, 0, 0, true⟩)
      ([] ++ .subscribe (DsData.subscriber 1) :: [.granted, .subscribe (DsData.subscriber 2),
        .unsubscribe (DsData.subscriber 2)]) ∧
    SubscriptionKept agpsDs (new false ⟨0, 0, 0, true⟩) (DsData.subscriber 1)
      [.granted, .subscribe (DsData.subscriber 2), .unsubscribe (DsData.subscriber 2)] := by
  have hmeets : AllSteps (call agpsDs) StepMeets (new false ⟨0, 0, 0, true⟩)
      ([] ++ .subscribe (DsData.subscriber 1) :: [.granted, .subscribe (DsData.subscriber 2),
        .unsubscribe (DsData.subscriber 2)]) := by decide
  exact ⟨hmeets, agps_subscription_kept agpsDs false _ [] _ _ hmeets⟩

/-- Two emergency calls; the first one ends and begins again.  It is told that it has the data connection, is not
active, and the data connection is released when the second one ends.  And two other subscribers, of which the second
one ends: what is read from its memory afterwards may be the first one, which is deleted then. -/
theorem agps_closed_subscriber_lost :
    (let m := [.subscribe (DsData.subscriber 1), .subscribe (DsData.subscriber 2), .granted,
      .unsubscribe (DsData.subscriber 1), .subscribe (DsData.subscriber 1)].foldl (call agpsDs)
        (new false ⟨0, 0, 0, true⟩)
    m.notified (DsData.subscriber 1) .denied = false ∧ m.active (DsData.subscriber 1) = false ∧
      m.notified (DsData.subscriber 1) .granted = true ∧
      .releaseDataConn ∈ (call agpsDs m (.unsubscribe (DsData.subscriber 2))).requests) ∧
    let m := [.subscribe ⟨.atl, 7, [], false⟩, .subscribe ⟨.atl, 8, [], false⟩, .granted,
      .unsubscribe ⟨.atl, 8, [], false⟩].foldl (call (agpsBase fun _ => ⟨.atl, 7, [], false⟩)) (new false 0)
    m.active ⟨.atl, 7, [], false⟩ = false ∧ .releaseDataConn ∈ m.requests := by
  decide

end AgpsMachine

end G4Common.Gps

/-
The states of `AgpsStateMachine`, their subscribers, and the requests that are sent.

The list of subscribers decides on a transition after it was edited, so every transition can be read off from the
list that is left.  Notifications are not requests (`Quiet`); a request is sent by `sendRsrcRequest()` alone, which
is called with a list that fits the request.

Main result: `agps_state_machine`.
-/
import Mathlib.Data.List.Induction
import G4Common.Gps.Agps

namespace G4Common.Gps

namespace AgpsMachine

open List

universe u

variable {X : Type u} (cls : AgpsClass X) {m m' : AgpsMachine X} {freed : ℕ → Subscriber}

/-! ### The first of a kind -/

section Filter

variable {β : Type*} {p : β → Bool} {l l1 l2 : List β} {x : β}

theorem filter_without (hl : l = l1 ++ x :: l2) (hx : p x) (hno : ∀ a ∈ l1, p a = false) :
    l.filter p = x :: (l1 ++ l2).filter p ∧ (l.filter fun a => !p a) = (l1 ++ l2).filter fun a => !p a := by
  have hnil : l1.filter p = [] := by
    rw [filter_eq_nil_iff]
    intro a ha
    rw [hno a ha]
    exact Bool.false_ne_true
  constructor
  · rw [hl, filter_append, filter_append, hnil, filter_cons_of_pos hx]
    rfl
  · rw [hl, filter_append, filter_append, filter_cons_of_neg]
    rw [hx]
    exact Bool.false_ne_true

theorem filter_none (hno : ∀ a ∈ l, p a = false) : l.filter p = [] ∧ (l.filter fun a => !p a) = l := by
  constructor
  · rw [filter_eq_nil_iff]
    intro a ha
    rw [hno a ha]
    exact Bool.false_ne_true
  rw [filter_eq_self]
  intro a ha
  rw [hno a ha]
  rfl

end Filter

/-! ### Notifications -/

/-- The request in an output. -/
def requestOf : AgpsOut → Option AGpsStatusValue
  | .request action => some action
  | .notify _ _ => none
  | .requestSuplES _ => none

/-- The requests of the last call. -/
def requests (m : AgpsMachine X) : List AGpsStatusValue := m.outs.filterMap requestOf

/-- The state is kept, and no request is sent. -/
structure Quiet (m m' : AgpsMachine X) : Prop where
  state_eq : m'.state = m.state
  enforce_eq : m'.enforceSingleSubscriber = m.enforceSingleSubscriber
  requests_eq : m'.requests = m.requests

theorem Quiet.refl (m : AgpsMachine X) : Quiet m m := ⟨rfl, rfl, rfl⟩

theorem Quiet.trans {m1 m2 m3 : AgpsMachine X} (h1 : Quiet m1 m2) (h2 : Quiet m2 m3) : Quiet m1 m3 where
  state_eq := h2.state_eq.trans h1.state_eq
  enforce_eq := h2.enforce_eq.trans h1.enforce_eq
  requests_eq := h2.requests_eq.trans h1.requests_eq

theorem requests_report (s : Subscriber) (status : AgpsRsrcStatus) : (s.report status).filterMap requestOf = [] := by
  rw [Subscriber.report]
  split <;> rfl

theorem quiet_notify (m : AgpsMachine X) (s : Subscriber) (status : AgpsRsrcStatus) :
    Quiet m (notify cls m s status) where
  state_eq := rfl
  enforce_eq := rfl
  requests_eq := by
    show (m.outs ++ s.report status).filterMap requestOf = _
    rw [filterMap_append, requests_report, append_nil]
    rfl

theorem quiet_addSubscriber (m : AgpsMachine X) (s : Subscriber) : Quiet m (m.addSubscriber s) := by
  rw [addSubscriber]
  split
  · exact Quiet.refl m
  · exact ⟨rfl, rfl, rfl⟩

/-- What the notification of a subscriber of the list keeps, and its deletion, the loop keeps. -/
theorem notifyLoop_keeps {P : AgpsMachine X → Prop} (n : Notification)
    (hstep : ∀ m s l, s ∈ m.subscribers → l.Sublist m.subscribers → P m →
      P (notify cls { m with subscribers := l } s n.rsrcStatus)) (k : ℕ) (gone : Bool) (m : AgpsMachine X) (h : P m) :
    P (notifyLoop cls n k gone m) := by
  induction k generalizing gone m with
  | zero => exact h
  | succ k ih =>
    rw [notifyLoop]
    split
    · exact h
    · rename_i hsome
      exact ih _ _ (hstep m _ _ (mem_of_find?_eq_some hsome) (eraseP_sublist ..) h)

theorem quiet_foldl (l : List Subscriber) (status : AgpsRsrcStatus) (m : AgpsMachine X) :
    Quiet m (l.foldl (notify cls · · status) m) ∧ (l.foldl (notify cls · · status) m).subscribers = m.subscribers := by
  induction l generalizing m with
  | nil => exact ⟨Quiet.refl m, rfl⟩
  | cons s _ ih =>
    obtain ⟨hq, hs⟩ := ih (notify cls m s status)
    exact ⟨(quiet_notify cls m s status).trans hq, hs⟩

theorem outs_foldl (l : List Subscriber) (status : AgpsRsrcStatus) (m : AgpsMachine X) :
    (l.foldl (notify cls · · status) m).outs = m.outs ++ l.flatMap (·.report status) := by
  induction l generalizing m with
  | nil => exact (append_nil _).symm
  | cons s _ ih =>
    rw [foldl_cons, ih, flatMap_cons, ← append_assoc]
    rfl

/-- A receiver that is in the list reads as it did after it was deleted.  There is none in a broadcast. -/
def ReadsOn (l : List Subscriber) (group : NotificationGroup) : Prop := ∀ r ∈ l, group = .rcver r → ∀ x, cls.freed x = r

/-- **The loop**, where the notification reads as it did: all that it is for are notified and deleted. -/
theorem notifyLoop_eq (n : Notification) {k : ℕ} {gone : Bool} (hk : m.subscribers.length ≤ k)
    (hreads : ReadsOn cls m.subscribers n.group)
    (hgone : gone = true → ∀ x, n.group.read (cls.freed x) true = n.group) :
    notifyLoop cls n k gone m = (m.subscribers.filter (Subscriber.notifies · n)).foldl (notify cls · · n.rsrcStatus)
      { m with subscribers := m.subscribers.filter fun s => !s.notifies n } := by
  induction k generalizing m gone with
  | zero =>
    have hnil : m.subscribers = [] := length_eq_zero_iff.1 (Nat.le_zero.1 hk)
    rw [notifyLoop, hnil, filter_nil, filter_nil, foldl_nil, ← hnil]
  | succ k ih =>
    have hread : n.group.read (cls.freed m.ext) gone = n.group := by
      rcases gone with - | -
      · cases n.group <;> rfl
      · exact hgone rfl _
    rw [notifyLoop, hread]
    split
    · rename_i hnone
      obtain ⟨htell, hkeep⟩ := filter_none fun a ha => Bool.eq_false_iff.2 (find?_eq_none.1 hnone a ha)
      rw [htell, hkeep, foldl_nil]
    rename_i b hsome
    obtain ⟨hb, l1, l2, hl, hno⟩ := find?_eq_some_iff_append.1 hsome
    have hno' : ∀ a ∈ l1, a.notifies n = false := by simpa using hno
    obtain ⟨htell, hkeep⟩ := filter_without hl hb hno'
    have herase : m.subscribers.eraseP (Subscriber.notifies · n) = l1 ++ l2 := by
      have hno'' : ∀ a ∈ l1, ¬a.notifies n = true := by
        intro a ha
        rw [hno' a ha]
        exact Bool.false_ne_true
      rw [hl, eraseP_append_right _ hno'', eraseP_cons, hb, cond_true]
    have hsub : ∀ a ∈ l1 ++ l2, a ∈ m.subscribers := by
      intro a ha
      rw [hl]
      exact (append_sublist_append_left l1 |>.2 (sublist_cons_self b l2)).subset ha
    rw [htell, hkeep, foldl_cons, herase, ih]
    · rfl
    · show (l1 ++ l2).length ≤ k
      rw [hl, length_append, length_cons] at hk
      rw [length_append]
      omega
    · exact fun a ha => hreads a (hsub a ha)
    · intro h x
      rcases Bool.or_eq_true .. ▸ h with h | h
      · exact hgone h x
      -- the receiver is deleted
      rcases hgroup : n.group with r | - | - | -
      · rw [hgroup] at h
        obtain rfl : b = r := of_decide_eq_true h
        have hfreed := hreads b (hl ▸ mem_append_right _ mem_cons_self) hgroup x
        rw [NotificationGroup.read, if_pos rfl, hfreed]
      · rfl
      · rfl
      · rfl

/-- **The notification of the subscribers**, where it reads on as it does. -/
theorem notifySubscribers_eq_foldl (m : AgpsMachine X) (n : Notification)
    (hreads : n.postNotifyDelete = true → ReadsOn cls m.subscribers n.group) : notifySubscribers cls m n =
      (m.subscribers.filter (Subscriber.notifies · n)).foldl (notify cls · · n.rsrcStatus)
        { m with subscribers :=
            if n.postNotifyDelete then m.subscribers.filter fun s => !s.notifies n else m.subscribers } := by
  rw [notifySubscribers]
  split_ifs with hdelete
  · exact notifyLoop_eq cls n (Nat.le_refl _) (hreads hdelete) (fun h => absurd h Bool.false_ne_true)
  · rw [foldl_filter]

theorem readsOn_of_isBroadcast {l : List Subscriber} {group : NotificationGroup} (h : group.IsBroadcast) :
    ReadsOn cls l group := by
  rintro r - rfl
  exact absurd h id

section

variable (m : AgpsMachine X) (group : NotificationGroup) (hgroup : group.IsBroadcast) (status : AgpsRsrcStatus)

/-- Whatever is read from a receiver that is gone: some subscribers are deleted, and no request is sent. -/
theorem notifySubscribers_quiet (n : Notification) : Quiet m (notifySubscribers cls m n) ∧
    (notifySubscribers cls m n).subscribers.Sublist m.subscribers := by
  rw [notifySubscribers]
  split
  · refine notifyLoop_keeps cls (P := fun m' => Quiet m m' ∧ m'.subscribers.Sublist m.subscribers) n ?_ _ false m
      ⟨Quiet.refl m, Sublist.refl _⟩
    rintro m' s l - hl ⟨hq, hs⟩
    have hq' : Quiet m { m' with subscribers := l } := ⟨hq.state_eq, hq.enforce_eq, hq.requests_eq⟩
    exact ⟨hq'.trans (quiet_notify cls _ s n.rsrcStatus), hl.trans hs⟩
  · rw [← foldl_filter (p := fun s => s.notifies n) (f := (notify cls · · n.rsrcStatus))]
    obtain ⟨hq, hs⟩ := quiet_foldl cls (m.subscribers.filter (Subscriber.notifies · n)) n.rsrcStatus m
    rw [hs]
    exact ⟨hq, Sublist.refl _⟩

include hgroup

theorem notifySubscribers_delete :
    Quiet m (notifySubscribers cls m ⟨group, status, true⟩) ∧
      (notifySubscribers cls m ⟨group, status, true⟩).subscribers =
        m.subscribers.filter fun s => !s.notifies ⟨group, status, true⟩ := by
  refine ⟨(notifySubscribers_quiet cls m _).1, ?_⟩
  rw [notifySubscribers_eq_foldl cls m _ fun _ => readsOn_of_isBroadcast cls hgroup, (quiet_foldl ..).2]
  rfl

omit hgroup

theorem notifySubscribers_keep :
    Quiet m (notifySubscribers cls m ⟨group, status, false⟩) ∧
      (notifySubscribers cls m ⟨group, status, false⟩).subscribers = m.subscribers := by
  refine ⟨(notifySubscribers_quiet cls m _).1, ?_⟩
  rw [notifySubscribers_eq_foldl cls m _ (fun h => absurd h Bool.false_ne_true), (quiet_foldl ..).2]
  rfl

end

/-- The list after the subscriber `e`, the first that equals `s`, was closed. -/
def Closed (s e : Subscriber) (l l' : List Subscriber) : Prop :=
  if e.waitForCloseComplete then l' = setFirst s l else l'.Sublist l

theorem closeSubscriber_spec (m : AgpsMachine X) (s e : Subscriber) :
    Quiet m (closeSubscriber cls m s e) ∧ Closed s e m.subscribers (closeSubscriber cls m s e).subscribers := by
  rw [closeSubscriber, Closed]
  split
  · dsimp only
    split
    · exact ⟨⟨rfl, rfl, (quiet_notify cls _ e .unsubscribe).requests_eq⟩, rfl⟩
    · exact ⟨⟨rfl, rfl, rfl⟩, rfl⟩
  · exact notifySubscribers_quiet cls m ⟨.rcver e, .unsubscribe, true⟩

/-! ### Requests -/

theorem hasActiveSubscribers_eq_false (h : m.hasSubscribers = false) : m.hasActiveSubscribers = false := by
  rw [hasSubscribers, Bool.not_eq_false', List.isEmpty_iff] at h
  rw [hasActiveSubscribers, h]
  rfl

theorem requests_send_request {m : AgpsMachine ℕ} (h : m.hasActiveSubscribers) :
    (send (agpsBase freed) m .requestDataConn).requests = m.requests ++ [.requestDataConn] := by
  have hfind : (m.subscribers.find? fun s => s.forMe .active).isNone = false := by
    rw [← Option.not_isSome, Bool.not_eq_false', find?_isSome, ← any_eq_true]
    exact h
  show filterMap _ (m.outs ++ if _ = _ then _ else _) = _
  rw [hfind, if_pos (by decide), filterMap_append]
  rfl

theorem requests_send_release {m : AgpsMachine ℕ} (h : m.hasActiveSubscribers = false) :
    (send (agpsBase freed) m .releaseDataConn).requests = m.requests ++ [.releaseDataConn] := by
  have hfind : (m.subscribers.find? fun s => s.forMe .active).isNone = true := by
    rw [Option.isNone_iff_eq_none, find?_eq_none]
    intro s hs
    rw [hasActiveSubscribers, any_eq_false] at h
    exact h s hs
  show filterMap _ (m.outs ++ if _ = _ then _ else _) = _
  rw [hfind, if_pos (by decide), filterMap_append]
  rfl

/-! ### One step -/

/-- What the states say about the list of subscribers. -/
structure AgpsInv (m : AgpsMachine X) : Prop where
  released : m.state = .released → m.subscribers = []
  pending : m.state = .pending → m.hasActiveSubscribers = true
  acquired : m.state = .acquired → m.hasActiveSubscribers = true
  releasing : m.state = .releasing → m.subscribers ≠ []

theorem AgpsInv.of_released (hst : m.state = .released) (h : m.subscribers = []) : AgpsInv m := by
  constructor <;> simp [hst, h]

theorem AgpsInv.of_pending (hst : m.state = .pending) (h : m.hasActiveSubscribers) : AgpsInv m := by
  constructor <;> simp [hst, h]

theorem AgpsInv.of_acquired (hst : m.state = .acquired) (h : m.hasActiveSubscribers) : AgpsInv m := by
  constructor <;> simp [hst, h]

theorem AgpsInv.of_releasing (hst : m.state = .releasing) (h : m.subscribers ≠ []) : AgpsInv m := by
  constructor <;> simp [hst, h]

/-- The data connection is requested or there. -/
def Requested (m : AgpsMachine X) : Prop := m.state = .pending ∨ m.state = .acquired

theorem not_requested_of_released (h : m.state = .released) : ¬m.Requested := by
  rw [Requested, h]
  decide

theorem not_requested_of_releasing (h : m.state = .releasing) : ¬m.Requested := by
  rw [Requested, h]
  decide

def Event.call : Event → Call
  | .subscribe s => .subscribe s
  | .unsubscribe s _ => .unsubscribe s
  | .granted => .granted
  | .released => .released
  | .denied => .denied

/-- What a call does to the state, and what it sends. -/
inductive StepEffect (m : AgpsMachine X) (c : Call) (m' : AgpsMachine X) : Prop
  | request (hm : ¬m.Requested) (hm' : m'.state = .pending) (h : m'.requests = [.requestDataConn])
  | release (s : Subscriber) (hc : c = .unsubscribe s) (hm : m.Requested) (hm' : ¬m'.Requested)
      (hactive : m'.hasActiveSubscribers = false) (h : m'.requests = [.releaseDataConn])
  | none (hpending : m'.state = .pending → m.state = .pending)
      (hm : m.Requested → m'.Requested ∨ (c = .denied ∧ m.state = .pending) ∨ (c = .released ∧ m.state = .acquired))
      (h : m'.requests = [])

theorem StepEffect.of_quiet {c : Call} (hq : Quiet m m') (h : m.requests = []) : StepEffect m c m' := by
  refine .none ?_ ?_ (hq.requests_eq.trans h)
  · rw [hq.state_eq]
    exact id
  intro hm
  left
  rw [Requested, hq.state_eq]
  exact hm

theorem active_addSubscriber (s : Subscriber) (h : m.hasActiveSubscribers) :
    (m.addSubscriber s).hasActiveSubscribers = true := by
  rw [addSubscriber]
  split
  · exact h
  · rw [hasActiveSubscribers, any_cons, Bool.or_eq_true]
    exact .inr h

theorem nonempty_addSubscriber (s : Subscriber) (h : m.subscribers ≠ []) : (m.addSubscriber s).subscribers ≠ [] := by
  rw [addSubscriber]
  split
  · exact h
  · exact cons_ne_nil _ _

theorem clone_forMe_active (s : Subscriber) : s.clone.forMe .active = true := by
  simp [Subscriber.clone, Subscriber.forMe, Subscriber.isInactive]

theorem addSubscriber_nil (s : Subscriber) (h : m.subscribers = []) :
    m.addSubscriber s = { m with subscribers := [s.clone] } := by
  rw [addSubscriber, h]
  rfl

section

variable {m : AgpsMachine ℕ}

theorem step_released (hst : m.state = .released) (hinv : AgpsInv m) (hout : m.requests = []) (ev : Event) :
    AgpsInv (releasedEvent (agpsBase freed) m ev) ∧ StepEffect m ev.call (releasedEvent (agpsBase freed) m ev) := by
  cases ev with
  | subscribe s =>
    have hnil : m.subscribers = [] := hinv.released hst
    have hadd := addSubscriber_nil s hnil
    have hactive : (m.addSubscriber s).hasActiveSubscribers = true := by
      rw [hadd, hasActiveSubscribers, any_cons, clone_forMe_active, Bool.true_or]
    have hreq : (send (agpsBase freed) (m.addSubscriber s) .requestDataConn).requests = _ := requests_send_request hactive
    rw [(quiet_addSubscriber m s).requests_eq, hout, nil_append] at hreq
    constructor
    · exact .of_pending rfl hactive
    · exact .request (not_requested_of_released hst) rfl hreq
  | unsubscribe _ e =>
    have hq := quiet_notify (agpsBase freed) m e .unsubscribe
    exact ⟨.of_released (hq.state_eq.trans hst) (hinv.released hst), .of_quiet hq hout⟩
  | granted | released | denied => exact ⟨hinv, .of_quiet (Quiet.refl m) hout⟩

/-- An unsubscription while the data connection is requested: a request to close it is sent if there is no active
subscriber left. -/
theorem step_unsubscribe (hreq : m.Requested) (hout : m.requests = []) (s e : Subscriber) :
    AgpsInv (unsubscribeEvent (agpsBase freed) m s e) ∧
      StepEffect m (.unsubscribe s) (unsubscribeEvent (agpsBase freed) m s e) := by
  obtain ⟨hq, -⟩ := closeSubscriber_spec (agpsBase freed) m s e
  have hout' : (closeSubscriber (agpsBase freed) m s e).requests = [] := hq.requests_eq.trans hout
  rw [unsubscribeEvent]
  split
  · rename_i hnone
    rw [Bool.not_eq_true'] at hnone
    have hactive := hasActiveSubscribers_eq_false hnone
    rw [hasSubscribers, Bool.not_eq_false', List.isEmpty_iff] at hnone
    refine ⟨.of_released rfl hnone, .release s rfl hreq ?_ hactive ?_⟩
    · exact not_requested_of_released rfl
    refine (requests_send_release ?_).trans ?_
    · exact hactive
    · show (closeSubscriber (agpsBase freed) m s e).requests ++ _ = _
      rw [hout']
      rfl
  rename_i hsome
  have hne : (closeSubscriber (agpsBase freed) m s e).subscribers ≠ [] := by
    intro h
    rw [hasSubscribers, h] at hsome
    exact hsome rfl
  split
  · rename_i hactive
    rw [Bool.not_eq_true'] at hactive
    refine ⟨.of_releasing rfl hne, .release s rfl hreq ?_ hactive ?_⟩
    · exact not_requested_of_releasing rfl
    refine (requests_send_release ?_).trans ?_
    · exact hactive
    · show (closeSubscriber (agpsBase freed) m s e).requests ++ _ = _
      rw [hout']
      rfl
  rename_i hactive
  rw [Bool.not_eq_true', Bool.not_eq_false] at hactive
  refine ⟨?_, .of_quiet hq hout⟩
  rcases hreq with h | h
  · exact .of_pending (hq.state_eq.trans h) hactive
  · exact .of_acquired (hq.state_eq.trans h) hactive

theorem step_pending (hst : m.state = .pending) (hinv : AgpsInv m) (hout : m.requests = []) (ev : Event) :
    AgpsInv (pendingEvent (agpsBase freed) m ev) ∧ StepEffect m ev.call (pendingEvent (agpsBase freed) m ev) := by
  cases ev with
  | subscribe s =>
    have hq := quiet_addSubscriber m s
    refine ⟨.of_pending (hq.state_eq.trans hst) ?_, .of_quiet hq hout⟩
    exact active_addSubscriber s (hinv.pending hst)
  | unsubscribe s e => exact step_unsubscribe (.inl hst) hout s e
  | granted =>
    obtain ⟨hq, hs⟩ := notifySubscribers_keep (agpsBase freed) m .active .granted
    refine ⟨.of_acquired rfl ?_, .none ?_ ?_ (hq.requests_eq.trans hout)⟩
    · show (notifySubscribers (agpsBase freed) m _).hasActiveSubscribers = true
      rw [hasActiveSubscribers, hs]
      exact hinv.pending hst
    · exact fun _ => hst
    · exact fun _ => Or.inl (.inr rfl)
  | released => exact ⟨hinv, .of_quiet (Quiet.refl m) hout⟩
  | denied =>
    obtain ⟨hq, hs⟩ := notifySubscribers_delete (agpsBase freed) m .all trivial .denied
    refine ⟨.of_released rfl ?_, .none ?_ ?_ (hq.requests_eq.trans hout)⟩
    · exact hs.trans (filter_eq_nil_iff.2 fun _ _ => by simp [Subscriber.notifies, Subscriber.forMe])
    · exact fun _ => hst
    · exact fun _ => Or.inr (.inl ⟨rfl, hst⟩)

theorem step_acquired (hst : m.state = .acquired) (hinv : AgpsInv m) (hout : m.requests = []) (ev : Event) :
    AgpsInv (acquiredEvent (agpsBase freed) m ev) ∧ StepEffect m ev.call (acquiredEvent (agpsBase freed) m ev) := by
  cases ev with
  | subscribe s =>
    have hq := (quiet_notify (agpsBase freed) m s .granted).trans (quiet_addSubscriber _ s)
    refine ⟨.of_acquired (hq.state_eq.trans hst) ?_, .of_quiet hq hout⟩
    exact active_addSubscriber s (hinv.acquired hst)
  | unsubscribe s e => exact step_unsubscribe (.inr hst) hout s e
  | granted => exact ⟨hinv, .of_quiet (Quiet.refl m) hout⟩
  | released =>
    obtain ⟨hq, hs⟩ := notifySubscribers_delete (agpsBase freed) m .all trivial .released
    refine ⟨.of_released rfl ?_, .none ?_ ?_ (hq.requests_eq.trans hout)⟩
    · exact hs.trans (filter_eq_nil_iff.2 fun _ _ => by simp [Subscriber.notifies, Subscriber.forMe])
    · exact fun h => absurd (show AgpsState.released = .pending from h) (by decide)
    · exact fun _ => Or.inr (.inr ⟨rfl, hst⟩)
  | denied => exact ⟨hinv, .of_quiet (Quiet.refl m) hout⟩

theorem step_closed (hst : m.state = .releasing) (hout : m.requests = [])
    (status : AgpsRsrcStatus) (hstatus : status ≠ .subscribe) (c : Call) :
    AgpsInv (closedEvent (agpsBase freed) m status) ∧ StepEffect m c (closedEvent (agpsBase freed) m status) := by
  obtain ⟨hq, hs⟩ := notifySubscribers_delete (agpsBase freed) m .inactive trivial status
  have hnot := not_requested_of_releasing hst
  rw [closedEvent]
  split
  · rename_i hactive
    refine ⟨.of_pending rfl hactive, .request hnot rfl ?_⟩
    refine (requests_send_request ?_).trans ?_
    · exact hactive
    · show (notifySubscribers (agpsBase freed) m _).requests ++ _ = _
      rw [hq.requests_eq, hout]
      rfl
  rename_i hactive
  refine ⟨.of_released rfl ?_, .none ?_ ?_ (hq.requests_eq.trans hout)⟩
  · -- who is left is active, and nobody is active
    show (notifySubscribers (agpsBase freed) m _).subscribers = []
    rw [eq_nil_iff_forall_not_mem]
    intro s hmem
    refine hactive (any_eq_true.2 ⟨s, hmem, ?_⟩)
    rw [hs, mem_filter] at hmem
    simpa [Subscriber.notifies, Subscriber.forMe, hstatus] using hmem.2
  · exact fun h => absurd (show AgpsState.released = .pending from h) (by decide)
  · exact fun h => absurd h hnot

theorem step_releasing (hst : m.state = .releasing) (hinv : AgpsInv m) (hout : m.requests = []) (ev : Event) :
    AgpsInv (releasingEvent (agpsBase freed) m ev) ∧ StepEffect m ev.call (releasingEvent (agpsBase freed) m ev) := by
  cases ev with
  | subscribe s =>
    have hq := quiet_addSubscriber m s
    refine ⟨.of_releasing (hq.state_eq.trans hst) ?_, .of_quiet hq hout⟩
    exact nonempty_addSubscriber s (hinv.releasing hst)
  | unsubscribe s e =>
    obtain ⟨hq, -⟩ := closeSubscriber_spec (agpsBase freed) m s e
    rw [releasingEvent]
    split
    · rename_i hnone
      rw [Bool.not_eq_true', hasSubscribers, Bool.not_eq_false', List.isEmpty_iff] at hnone
      refine ⟨.of_released rfl hnone, .none ?_ ?_ (hq.requests_eq.trans hout)⟩
      · exact fun h => absurd (show AgpsState.released = .pending from h) (by decide)
      · exact fun h => absurd h (not_requested_of_releasing hst)
    rename_i hsome
    refine ⟨.of_releasing (hq.state_eq.trans hst) ?_, .of_quiet hq hout⟩
    intro h
    rw [hasSubscribers, h] at hsome
    exact hsome rfl
  | granted => exact ⟨hinv, .of_quiet (Quiet.refl m) hout⟩
  | released => exact step_closed hst hout .released (by decide) _
  | denied => exact step_closed hst hout .denied (by decide) _

theorem step_onEvent (hinv : AgpsInv m) (hout : m.requests = []) (ev : Event) :
    AgpsInv (onEvent (agpsBase freed) m ev) ∧ StepEffect m ev.call (onEvent (agpsBase freed) m ev) := by
  rw [onEvent]
  split
  · exact step_released ‹_› hinv hout ev
  · exact step_pending ‹_› hinv hout ev
  · exact step_acquired ‹_› hinv hout ev
  · exact step_releasing ‹_› hinv hout ev

end

theorem AgpsInv.of_quiet (hinv : AgpsInv m) (hq : Quiet m m') (hs : m'.subscribers = m.subscribers) : AgpsInv m' := by
  have hactive : m'.hasActiveSubscribers = m.hasActiveSubscribers := by
    rw [hasActiveSubscribers, hs, hasActiveSubscribers]
  refine ⟨?_, ?_, ?_, ?_⟩
  · rw [hq.state_eq, hs]
    exact hinv.released
  · rw [hq.state_eq, hactive]
    exact hinv.pending
  · rw [hq.state_eq, hactive]
    exact hinv.acquired
  · rw [hq.state_eq, hs]
    exact hinv.releasing

theorem step_call {m : AgpsMachine ℕ} (hinv : AgpsInv m) (c : Call) :
    AgpsInv (call (agpsBase freed) m c) ∧ StepEffect m c (call (agpsBase freed) m c) := by
  -- the outputs of the call before are not read
  have hinv' : AgpsInv { m with outs := [] } := ⟨hinv.released, hinv.pending, hinv.acquired, hinv.releasing⟩
  have hstep : ∀ m', AgpsInv m' ∧ StepEffect { m with outs := [] } c m' → AgpsInv m' ∧ StepEffect m c m' := by
    rintro _ ⟨h, heff⟩
    refine ⟨h, ?_⟩
    cases heff with
    | request hm hm' hr => exact .request hm hm' hr
    | release s hc hm hm' ha hr => exact .release s hc hm hm' ha hr
    | none hp hm hr => exact .none hp hm hr
  refine hstep _ ?_
  cases c with
  | subscribe s =>
    rw [call, subscribeRsrc]
    split
    · have hq := quiet_notify (agpsBase freed) { m with outs := [] } s .denied
      exact ⟨hinv'.of_quiet hq rfl, .of_quiet hq rfl⟩
    · exact step_onEvent hinv' rfl (.subscribe s)
  | unsubscribe s =>
    rw [call, unsubscribeRsrc]
    split
    · exact ⟨hinv', .of_quiet (Quiet.refl _) rfl⟩
    · rename_i e _
      exact step_onEvent hinv' rfl (.unsubscribe s e)
  | granted => exact step_onEvent hinv' rfl .granted
  | released => exact step_onEvent hinv' rfl .released
  | denied => exact step_onEvent hinv' rfl .denied

/-! ### Runs -/

variable (freed)

/-- A new machine after some calls. -/
def run (enforceSingleSubscriber : Bool) (calls : List Call) : AgpsMachine ℕ :=
  calls.foldl (call (agpsBase freed)) (new enforceSingleSubscriber 0)

theorem run_concat (enforce : Bool) (calls : List Call) (c : Call) :
    run freed enforce (calls ++ [c]) = call (agpsBase freed) (run freed enforce calls) c := by
  rw [run, foldl_append]
  rfl

theorem agpsInv_run (enforce : Bool) (calls : List Call) : AgpsInv (run freed enforce calls) := by
  induction calls using reverseRecOn with
  | nil => exact .of_released rfl rfl
  | append_singleton _ c ih =>
    rw [run_concat]
    exact (step_call ih c).1

/-- The request to close is sent, the data connection is denied or taken away. -/
def Disconnects (m : AgpsMachine ℕ) (c : Call) : Prop :=
  .releaseDataConn ∈ (call (agpsBase freed) m c).requests ∨ (c = .denied ∧ m.state = .pending) ∨
    (c = .released ∧ m.state = .acquired)

theorem requested_call {m : AgpsMachine ℕ} (hinv : AgpsInv m) (hreq : m.Requested) {c : Call}
    (hdis : ¬Disconnects freed m c) : (call (agpsBase freed) m c).Requested := by
  cases (step_call hinv c).2 with
  | request hm => exact absurd hreq hm
  | release _ _ _ _ _ hr =>
    refine absurd (.inl ?_) hdis
    rw [hr]
    exact mem_singleton_self _
  | none _ hm =>
    rcases hm hreq with h | h
    · exact h
    · exact absurd (.inr h) hdis

theorem requested_run (enforce : Bool) (pre mid : List Call) (hreq : (run freed enforce pre).Requested) :
    (run freed enforce (pre ++ mid)).Requested ∨
      ∃ mid1 z mid2, mid = mid1 ++ z :: mid2 ∧ Disconnects freed (run freed enforce (pre ++ mid1)) z := by
  induction mid using reverseRecOn with
  | nil =>
    left
    rw [append_nil]
    exact hreq
  | append_singleton mid c ih =>
    rcases ih with h | ⟨mid1, z, mid2, rfl, hz⟩
    · by_cases hdis : Disconnects freed (run freed enforce (pre ++ mid)) c
      · exact .inr ⟨mid, c, [], rfl, hdis⟩
      · left
        rw [← append_assoc, run_concat]
        exact requested_call freed (agpsInv_run freed enforce _) h hdis
    · exact .inr ⟨mid1, z, mid2 ++ [c], by rw [append_assoc, cons_append], hz⟩

theorem mem_requests_request {m : AgpsMachine ℕ} (hinv : AgpsInv m) {c : Call}
    (h : .requestDataConn ∈ (call (agpsBase freed) m c).requests) :
    ¬m.Requested ∧ (call (agpsBase freed) m c).state = .pending := by
  cases (step_call hinv c).2 with
  | request hm hm' => exact ⟨hm, hm'⟩
  | release _ _ _ _ _ hr =>
    rw [hr, mem_singleton] at h
    cases h
  | none _ _ hr =>
    rw [hr] at h
    exact nomatch h

/-- `m'` is what a call makes of `m`: the requests that are sent fit the transition. -/
structure SendsByTransition (m : AgpsMachine ℕ) (c : Call) (m' : AgpsMachine ℕ) : Prop where
  length_le : m'.requests.length ≤ 1
  request_iff : .requestDataConn ∈ m'.requests ↔ m.state ≠ .pending ∧ m'.state = .pending
  release_iff : .releaseDataConn ∈ m'.requests ↔
    m.Requested ∧ ¬m'.Requested ∧ (∃ s, c = .unsubscribe s) ∧ m'.hasActiveSubscribers = false

theorem StepEffect.sends {m m' : AgpsMachine ℕ} {c : Call} (h : StepEffect m c m') : SendsByTransition m c m' := by
  cases h with
  | request hm hm' hr =>
    rw [Requested, not_or] at hm
    refine ⟨by rw [hr]; exact Nat.le_refl _, ?_, ?_⟩
    · rw [hr, mem_singleton]
      exact iff_of_true rfl ⟨hm.1, hm'⟩
    rw [hr, mem_singleton]
    refine iff_of_false nofun ?_
    rintro ⟨h | h, -⟩
    · exact hm.1 h
    · exact hm.2 h
  | release s hc hm hm' ha hr =>
    refine ⟨by rw [hr]; exact Nat.le_refl _, ?_, ?_⟩
    · rw [hr, mem_singleton]
      refine iff_of_false nofun ?_
      exact fun h => hm' (.inl h.2)
    · rw [hr, mem_singleton]
      exact iff_of_true rfl ⟨hm, hm', ⟨s, hc⟩, ha⟩
  | none hp hm hr =>
    refine ⟨by rw [hr]; exact Nat.zero_le _, ?_, ?_⟩
    · rw [hr]
      refine iff_of_false not_mem_nil ?_
      exact fun h => h.1 (hp h.2)
    rw [hr]
    refine iff_of_false not_mem_nil ?_
    rintro ⟨hreq, hnot, ⟨s, rfl⟩, -⟩
    rcases hm hreq with h | ⟨h, -⟩ | ⟨h, -⟩
    · exact hnot h
    · cases h
    · cases h

/-- A new machine, whatever is called and whatever is read from freed memory: the state tells what the list of subscribers holds, the requests are sent on
the transitions, and between two requests to open the data connection was ended. -/
theorem agps_state_machine (freed : ℕ → Subscriber) (enforceSingleSubscriber : Bool) (calls : List Call) :
    AgpsInv (run freed enforceSingleSubscriber calls) ∧
    (∀ c, SendsByTransition (run freed enforceSingleSubscriber calls) c (run freed enforceSingleSubscriber (calls ++ [c]))) ∧
    ∀ pre x mid y, calls = pre ++ x :: (mid ++ [y]) →
      .requestDataConn ∈ (run freed enforceSingleSubscriber (pre ++ [x])).requests →
      .requestDataConn ∈ (run freed enforceSingleSubscriber calls).requests →
      ∃ mid1 z mid2, mid = mid1 ++ z :: mid2 ∧
        Disconnects freed (run freed enforceSingleSubscriber (pre ++ x :: mid1)) z := by
  refine ⟨agpsInv_run freed _ calls, ?_, ?_⟩
  · intro c
    rw [run_concat]
    exact (step_call (agpsInv_run freed _ calls) c).2.sends
  intro pre x mid y hcalls hx hy
  have hassoc : ∀ l : List Call, pre ++ x :: l = (pre ++ [x]) ++ l := by
    intro l
    rw [append_assoc, singleton_append]
  have hpending : (run freed enforceSingleSubscriber (pre ++ [x])).Requested := by
    rw [run_concat] at hx ⊢
    exact .inl (mem_requests_request freed (agpsInv_run freed _ pre) hx).2
  rcases requested_run freed enforceSingleSubscriber (pre ++ [x]) mid hpending with h | ⟨mid1, z, mid2, hmid, hz⟩
  · -- the second request needs a data connection that is not requested
    rw [hcalls, hassoc, ← append_assoc, run_concat] at hy
    exact absurd h (mem_requests_request freed (agpsInv_run freed _ _) hy).1
  · refine ⟨mid1, z, mid2, hmid, ?_⟩
    rw [hassoc]
    exact hz

end AgpsMachine

end G4Common.Gps

/-
Runs of `DSStateMachine`, the machine for emergency calls: its calls, the timers that it starts when the engine is
busy, and the messages by which a timer subscribes again.

A subscriber is added before the data call is requested, and the request may fail.  Then the machine stays in its
released state with the subscriber in the list; only a retry moves it on.  So the list is empty in the released state
without a retry under way if all requests succeed or start a timer (`AnswerMeets`).  The counter of the retries goes
up with every request that finds the engine busy and is set back by a denial only, so a request has all its retries
if it finds the counter at 0 (`FreshMeets`).

The machine exists only if `USE_EMERGENCY_PDN_FOR_EMERGENCY_SUPL` is set, and the messages come back to it then.

Main result: `ds_no_stale_subscriber`.
-/
import G4Common.Gps.AgpsSubscriptions

namespace G4Common.Gps

open Broadcast AgpsMachine List Bool

/-! ### Steps -/

/-- A `DSStateMachine` with the messages of `requestSuplES()` that are not handled yet. -/
structure DsState where
  machine : AgpsMachine DsData
  messages : List UInt32
  /-- How often the last request of a subscriber was tried again. -/
  retries : ℕ

inductive DsAct
  /-- A call, and what the request to start a data call and `loc_timer_start()` return if there is one. -/
  | call (c : Call) (dataCall : ℤ) (timerStarts : Bool)
  /-- A retry timer fires. -/
  | timer
  /-- The first message is handled. -/
  | retry (dataCall : ℤ) (timerStarts : Bool)

/-- The machine before a call. -/
def dsReady (m : AgpsMachine DsData) (dataCall : ℤ) (timerStarts : Bool) : AgpsMachine DsData :=
  { m with ext := { m.ext with dataCall := dataCall, timerStarts := timerStarts } }

/-- `DSStateMachine::onRsrcEvent()`: a release that changes nothing is a denial. -/
def dsCall (m : AgpsMachine DsData) (c : Call) : AgpsMachine DsData :=
  match c with
  | .released =>
    let m' := AgpsMachine.call agpsDs m .released
    if m'.state ≠ m.state then m' else onEvent agpsDs m' .denied
  | c => AgpsMachine.call agpsDs m c

def dsIdle (st : DsState) : DsState := { st with machine := { st.machine with outs := [] } }

def retryCallback (st : DsState) : DsState :=
  match st.machine.subscribers.find? fun s => s.forMe .active with
  | some s => { st with
      machine := { st.machine with outs := [.requestSuplES s.ID] }
      messages := st.messages ++ [s.ID] }
  | none => dsIdle st

/-- The call requests a data call. -/
def requestsCall (m : AgpsMachine DsData) : Call → Bool
  | .subscribe _ => m.state = .released
  | .unsubscribe _ => false
  | .granted => false
  | .released => m.state = .releasing && m.hasActiveSubscribers
  | .denied => m.state = .releasing && m.hasActiveSubscribers

def dsStep (st : DsState) : DsAct → DsState
  | .call c dataCall timerStarts => { st with
      machine := dsCall (dsReady st.machine dataCall timerStarts) c
      retries := if requestsCall st.machine c then 0 else st.retries }
  | .timer =>
    if st.machine.ext.timers = 0 then dsIdle st
    else retryCallback { st with
      machine := { st.machine with ext := { st.machine.ext with timers := st.machine.ext.timers - 1 } } }
  | .retry dataCall timerStarts =>
    match st.messages with
    | [] => dsIdle st
    | ID :: messages =>
      { machine := dsCall (dsReady st.machine dataCall timerStarts) (.subscribe (DsData.subscriber ID))
        messages := messages
        retries := if st.machine.state = .released then st.retries + 1 else st.retries }

def dsInit : DsState := ⟨AgpsMachine.new false ⟨0, 0, 0, true⟩, [], 0⟩

def dsRun (acts : List DsAct) : DsState := acts.foldl dsStep dsInit

/-! ### Conditions -/

def AgpsMachine.Call.isDenied : Call → Bool
  | .denied => true
  | .subscribe _ => false
  | .unsubscribe _ => false
  | .granted => false
  | .released => false

def AgpsMachine.Event.isDenied (ev : Event) : Bool := ev.call.isDenied

/-- The counter when a data call is requested: a denial of a closed subscriber comes first. -/
def retriesBefore (m : AgpsMachine DsData) (denied : Bool) : UInt8 :=
  if denied && m.subscribers.any (fun e => e.kind = .ds && e.isInactive) then 0 else m.ext.mRetries

/-- The answer in the released state: success, or busy with a retry. -/
def answerReleased (m : AgpsMachine DsData) (dataCall : ℤ) (timerStarts : Bool) : Bool :=
  dataCall = 0 || (dataCall = 6 && m.ext.mRetries < DsData.MAX_START_DATA_CALL_RETRIES && timerStarts)

/-- The answer in the releasing state: no fall back to normal SUPL. -/
def answerReleasing (m : AgpsMachine DsData) (denied : Bool) (dataCall : ℤ) : Bool :=
  dataCall ≠ 2 && dataCall ≠ -1 && (dataCall ≠ 6 || retriesBefore m denied < DsData.MAX_START_DATA_CALL_RETRIES)

/-- The answer to the request of a call. -/
def answerOk (m : AgpsMachine DsData) (c : Call) (dataCall : ℤ) (timerStarts : Bool) : Bool :=
  match c with
  | .subscribe _ => answerReleased m dataCall timerStarts
  | .unsubscribe _ => true
  | .granted => true
  | .released => answerReleasing m false dataCall
  | .denied => answerReleasing m true dataCall

/-- The condition on the answers to the requests. -/
def AnswerMeets (st : DsState) : DsAct → Prop
  | .call c dataCall timerStarts =>
    requestsCall st.machine c = true → answerOk st.machine c dataCall timerStarts = true
  | .timer => True
  | .retry dataCall timerStarts =>
    st.messages ≠ [] ∧ st.machine.state = .released → answerReleased st.machine dataCall timerStarts = true

/-- The condition on the counter: a request that is no retry finds it at 0. -/
def FreshMeets (st : DsState) : DsAct → Prop
  | .call c _ _ => requestsCall st.machine c = true → retriesBefore st.machine c.isDenied = 0
  | .timer => True
  | .retry _ _ => True

instance (st : DsState) : ∀ a, Decidable (AnswerMeets st a)
  | .call c dataCall timerStarts => inferInstanceAs (Decidable
      (requestsCall st.machine c = true → answerOk st.machine c dataCall timerStarts = true))
  | .timer => isTrue trivial
  | .retry dataCall timerStarts => inferInstanceAs (Decidable
      (st.messages ≠ [] ∧ st.machine.state = .released → answerReleased st.machine dataCall timerStarts = true))

instance (st : DsState) : ∀ a, Decidable (FreshMeets st a)
  | .call c _ _ => inferInstanceAs (Decidable
      (requestsCall st.machine c = true → retriesBefore st.machine c.isDenied = 0))
  | .timer => isTrue trivial
  | .retry _ _ => isTrue trivial

/-! ### The list of subscribers -/

universe u

variable {X : Type u} (cls : AgpsClass X)
variable {m : AgpsMachine X}

/-- Nobody is added who equals a subscriber of the list. -/
def Distinct (l : List Subscriber) : Prop := l.Pairwise fun e b => b.equals e = false

theorem equals_clone (e s : Subscriber) : e.equals s.clone = e.equals s := rfl

theorem setFirst_distinct {l : List Subscriber} (t : Subscriber) (h : Distinct l) : Distinct (setFirst t l) := by
  have hmem : ∀ (l : List Subscriber) (s : Subscriber), (∀ b ∈ l, b.equals s = false) →
      ∀ b ∈ setFirst t l, b.equals s = false := by
    intro l s
    induction l with
    | nil => exact fun h => h
    | cons x _ ih =>
      intro hl b hb
      rw [setFirst] at hb
      split at hb
      · rcases mem_cons.1 hb with rfl | hb
        · exact hl x (.head _)
        · exact hl b (.tail _ hb)
      · rcases mem_cons.1 hb with rfl | hb
        · exact hl b (.head _)
        · exact ih (fun y hy => hl y (.tail _ hy)) b hb
  induction l with
  | nil => exact h
  | cons x l ih =>
    obtain ⟨hx, hl⟩ := pairwise_cons.1 h
    rw [setFirst]
    split
    · exact pairwise_cons.2 ⟨hx, hl⟩
    · exact pairwise_cons.2 ⟨hmem l x hx, ih hl⟩

theorem closed_distinct {l l' : List Subscriber} {s e : Subscriber} (hclosed : Closed s e l l') (h : Distinct l) : Distinct l' := by
  rw [Closed] at hclosed
  split at hclosed
  · rw [hclosed]
    exact setFirst_distinct s h
  · exact List.Pairwise.sublist hclosed h

theorem addSubscriber_distinct (s : Subscriber) (h : Distinct m.subscribers) :
    Distinct (m.addSubscriber s).subscribers := by
  rw [addSubscriber]
  split
  · exact h
  rename_i hnone
  refine pairwise_cons.2 ⟨?_, h⟩
  intro b hb
  rw [equals_clone, eq_false_iff]
  simpa using find?_eq_none.1 hnone b hb

theorem notifySubscribers_distinct (group : NotificationGroup) (status : AgpsRsrcStatus)
    (h : Distinct m.subscribers) : Distinct (notifySubscribers cls m ⟨group, status, true⟩).subscribers :=
  List.Pairwise.sublist (notifySubscribers_quiet cls m _).2 h

theorem closedEvent_subscribers (m : AgpsMachine X) (status : AgpsRsrcStatus) :
    (closedEvent cls m status).subscribers = (notifySubscribers cls m ⟨.inactive, status, true⟩).subscribers := by
  rw [closedEvent]
  split <;> rfl

theorem onEvent_distinct (ev : Event) (h : Distinct m.subscribers) : Distinct (onEvent cls m ev).subscribers := by
  cases ev with
  | subscribe s =>
    rw [subscribers_subscribe]
    exact addSubscriber_distinct s h
  | unsubscribe s e =>
    rw [subscribers_unsubscribe]
    split
    · exact h
    · exact closed_distinct (closeSubscriber_spec cls m s e).2 h
  | granted =>
    rw [onEvent]
    split
    · exact h
    · show Distinct (notifySubscribers cls m ⟨.active, .granted, false⟩).subscribers
      rw [(notifySubscribers_keep cls m .active .granted).2]
      exact h
    · exact h
    · exact h
  | released =>
    rw [onEvent]
    split
    · exact h
    · exact h
    · exact notifySubscribers_distinct cls .all .released h
    · rw [releasingEvent, closedEvent_subscribers]
      exact notifySubscribers_distinct cls .inactive .released h
  | denied =>
    rw [onEvent]
    split
    · exact h
    · exact notifySubscribers_distinct cls .all .denied h
    · exact h
    · rw [releasingEvent, closedEvent_subscribers]
      exact notifySubscribers_distinct cls .inactive .denied h

theorem notify_all_nil (m : AgpsMachine X) {status : AgpsRsrcStatus} (hs : status ≠ .subscribe) :
    (notifySubscribers cls m ⟨.all, status, true⟩).subscribers = [] := by
  rw [(notifySubscribers_delete cls m .all trivial status).2, filter_eq_nil_iff]
  intro e _
  simp [Subscriber.notifies, Subscriber.forMe, hs]

theorem unsubscribeEvent_released {s e : Subscriber} (hst : m.state ≠ .released)
    (h : (unsubscribeEvent cls m s e).state = .released) : (unsubscribeEvent cls m s e).subscribers = [] := by
  have hq := (closeSubscriber_spec cls m s e).1
  rw [unsubscribeEvent] at h ⊢
  split
  · rename_i hnone
    rw [Bool.not_eq_true', hasSubscribers, Bool.not_eq_false', List.isEmpty_iff] at hnone
    exact hnone
  rename_i hsome
  rw [if_neg hsome] at h
  split_ifs with hactive
  · rw [if_pos hactive] at h
    cases h
  · rw [if_neg hactive] at h
    exact absurd (hq.state_eq.symm.trans h) hst

theorem closedEvent_released {status : AgpsRsrcStatus} (hs : status ≠ .subscribe)
    (h : (closedEvent cls m status).state = .released) : (closedEvent cls m status).subscribers = [] := by
  rw [closedEvent_subscribers, eq_nil_iff_forall_not_mem]
  intro e he
  rw [closedEvent] at h
  split at h
  · cases h
  rename_i hactive
  refine hactive (any_eq_true.2 ⟨e, he, ?_⟩)
  rw [(notifySubscribers_delete cls m .inactive trivial status).2, mem_filter] at he
  simpa [Subscriber.notifies, Subscriber.forMe, hs] using he.2

theorem onEvent_released (ev : Event) (hst : m.state ≠ .released)
    (h : (onEvent cls m ev).state = .released) : (onEvent cls m ev).subscribers = [] := by
  rw [onEvent] at h ⊢
  split
  · exact absurd ‹_› hst
  · rename_i hp
    rw [hp] at h
    cases ev with
    | subscribe s => exact absurd ((quiet_addSubscriber m s).state_eq.symm.trans h) hst
    | unsubscribe => exact unsubscribeEvent_released cls hst h
    | granted => cases h
    | released => exact absurd h hst
    | denied => exact notify_all_nil cls m (by decide)
  · rename_i hp
    rw [hp] at h
    cases ev with
    | subscribe s => exact absurd ((quiet_addSubscriber (notify cls m s .granted) s).state_eq.symm.trans h) hst
    | unsubscribe => exact unsubscribeEvent_released cls hst h
    | granted => exact absurd h hst
    | released => exact notify_all_nil cls m (by decide)
    | denied => exact absurd h hst
  rename_i hp
  rw [hp] at h
  cases ev with
  | subscribe s => exact absurd ((quiet_addSubscriber m s).state_eq.symm.trans h) hst
  | unsubscribe s e =>
    have hq := (closeSubscriber_spec cls m s e).1
    simp only [releasingEvent] at h ⊢
    split
    · rename_i hnone
      rw [Bool.not_eq_true', hasSubscribers, Bool.not_eq_false', List.isEmpty_iff] at hnone
      exact hnone
    · rename_i hsome
      rw [if_neg hsome] at h
      exact absurd (hq.state_eq.symm.trans h) hst
  | granted => exact absurd h hst
  | released | denied => exact closedEvent_released cls (by decide) h

theorem onEvent_enforce (m : AgpsMachine X) (ev : Event) :
    (onEvent cls m ev).enforceSingleSubscriber = m.enforceSingleSubscriber := by
  have hunsub : ∀ s e, (unsubscribeEvent cls m s e).enforceSingleSubscriber = m.enforceSingleSubscriber := by
    intro s e
    have hq := (closeSubscriber_spec cls m s e).1
    rw [unsubscribeEvent]
    split
    · exact hq.enforce_eq
    · split <;> exact hq.enforce_eq
  have hclosed : ∀ status, (closedEvent cls m status).enforceSingleSubscriber = m.enforceSingleSubscriber := by
    intro status
    have hq := (notifySubscribers_delete cls m .inactive trivial status).1
    rw [closedEvent]
    split <;> exact hq.enforce_eq
  rw [onEvent]
  split
  · cases ev with
    | subscribe s => exact (quiet_addSubscriber m s).enforce_eq
    | unsubscribe | granted | released | denied => rfl
  · cases ev with
    | subscribe s => exact (quiet_addSubscriber m s).enforce_eq
    | unsubscribe s e => exact hunsub s e
    | granted => exact (notifySubscribers_keep cls m .active .granted).1.enforce_eq
    | released => rfl
    | denied => exact (notifySubscribers_delete cls m .all trivial .denied).1.enforce_eq
  · cases ev with
    | subscribe s => exact (quiet_addSubscriber (notify cls m s .granted) s).enforce_eq
    | unsubscribe s e => exact hunsub s e
    | granted => rfl
    | released => exact (notifySubscribers_delete cls m .all trivial .released).1.enforce_eq
    | denied => rfl
  cases ev with
  | subscribe s => exact (quiet_addSubscriber m s).enforce_eq
  | unsubscribe s e =>
    have hq := (closeSubscriber_spec cls m s e).1
    rw [releasingEvent]
    split <;> exact hq.enforce_eq
  | granted => rfl
  | released => exact hclosed .released
  | denied => exact hclosed .denied

/-! ### Notifications -/

section Prior

variable {m m' : AgpsMachine DsData}

/-- What a notification does to the data. -/
structure Informs (x x' : DsData) : Prop where
  timers_eq : x'.timers = x.timers
  dataCall_eq : x'.dataCall = x.dataCall
  timerStarts_eq : x'.timerStarts = x.timerStarts
  mRetries_eq : x'.mRetries = x.mRetries ∨ x'.mRetries = 0

theorem Informs.refl (x : DsData) : Informs x x := ⟨rfl, rfl, rfl, Or.inl rfl⟩

theorem Informs.trans {x1 x2 x3 : DsData} (h₁ : Informs x1 x2) (h₂ : Informs x2 x3) : Informs x1 x3 where
  timers_eq := h₂.timers_eq.trans h₁.timers_eq
  dataCall_eq := h₂.dataCall_eq.trans h₁.dataCall_eq
  timerStarts_eq := h₂.timerStarts_eq.trans h₁.timerStarts_eq
  mRetries_eq := by
    rcases h₂.mRetries_eq with h | h
    · rw [h]
      exact h₁.mRetries_eq
    · exact .inr h

theorem informs_informed (x : DsData) (s : Subscriber) (status : AgpsRsrcStatus) :
    Informs x (agpsDs.informed x s status) := by
  show Informs x (if s.kind = .ds then x.informStatus status else x)
  split
  · rw [DsData.informStatus]
    split
    · exact ⟨rfl, rfl, rfl, Or.inr rfl⟩
    · exact Informs.refl x
  · exact Informs.refl x

/-- A notification of subscribers of the list. -/
structure Tells (m m' : AgpsMachine DsData) (n : Notification) : Prop where
  ext : Informs m.ext m'.ext
  outs : ∀ o ∈ m'.outs, o ∈ m.outs ∨ ∃ e ∈ m.subscribers, e.notifies n = true ∧ o = .notify e n.rsrcStatus

theorem mem_report {e : Subscriber} {status : AgpsRsrcStatus} {o : AgpsOut} (h : o ∈ e.report status) :
    o = .notify e status := by
  rw [Subscriber.report] at h
  split at h
  · cases h
  · exact mem_singleton.1 h

theorem informs_foldl (l : List Subscriber) (status : AgpsRsrcStatus) (m : AgpsMachine DsData) :
    Informs m.ext (l.foldl (notify agpsDs · · status) m).ext := by
  induction l generalizing m with
  | nil => exact Informs.refl _
  | cons b _ ih => exact (informs_informed m.ext b status).trans (ih (notify agpsDs m b status))

theorem tells_notifySubscribers (m : AgpsMachine DsData) (n : Notification) (hgroup : n.group.IsBroadcast) :
    Tells m (notifySubscribers agpsDs m n) n := by
  rw [notifySubscribers_eq_foldl agpsDs m n fun _ => readsOn_of_isBroadcast agpsDs hgroup]
  constructor
  · exact informs_foldl (m.subscribers.filter (Subscriber.notifies · n)) n.rsrcStatus { m with
      subscribers := if n.postNotifyDelete then m.subscribers.filter fun s => !s.notifies n else m.subscribers }
  intro o ho
  rw [outs_foldl] at ho
  rcases mem_append.1 ho with h | h
  · exact .inl h
  · obtain ⟨e, he, hrep⟩ := mem_flatMap.1 h
    obtain ⟨he, hen⟩ := mem_filter.1 he
    exact .inr ⟨e, he, hen, mem_report hrep⟩

/-- From `m` to `m'` no data call is requested, and nobody is left in the list who was denied. -/
structure Prior (m m' : AgpsMachine DsData) : Prop where
  ext : Informs m.ext m'.ext
  request : .request .requestDataConn ∉ m'.outs
  denied : ∀ e, .notify e .denied ∈ m'.outs → ∀ b ∈ m'.subscribers, b.equals e = false

/-- An output that is neither. -/
def Harmless (o : AgpsOut) : Prop := o ≠ .request .requestDataConn ∧ ∀ e, o ≠ .notify e .denied

theorem Prior.of_harmless (hext : Informs m.ext m'.ext) (houts : ∀ o ∈ m'.outs, Harmless o) : Prior m m' where
  ext := hext
  request h := (houts _ h).1 rfl
  denied e h := absurd rfl ((houts _ h).2 e)

theorem harmless_notify {e : Subscriber} {status : AgpsRsrcStatus} (h : status ≠ .denied) :
    Harmless (.notify e status) := by
  refine ⟨nofun, ?_⟩
  intro b hb
  rw [AgpsOut.notify.injEq] at hb
  exact h hb.2

theorem Distinct.equals_false {l : List Subscriber} (h : Distinct l) {e b : Subscriber} (he : e ∈ l) (hb : b ∈ l)
    (hne : b ≠ e) (hkind : e.kind ≠ .bit) : b.equals e = false := by
  -- `e` compares IDs only
  have hswap : e.equals b = false → b.equals e = false := by
    intro heb
    have hid : e.ID ≠ b.ID := by
      intro hid
      simp [Subscriber.equals, hid, hkind] at heb
    rw [Subscriber.equals, and_eq_false_iff]
    exact .inl (decide_eq_false (Ne.symm hid))
  induction l with
  | nil => cases he
  | cons _ _ ih =>
    obtain ⟨hx, hl⟩ := pairwise_cons.1 h
    rcases mem_cons.1 he with rfl | he'
    · rcases mem_cons.1 hb with rfl | hb'
      · exact absurd rfl hne
      · exact hx b hb'
    · rcases mem_cons.1 hb with rfl | hb'
      · exact hswap (hx e he')
      · exact ih hl he' hb'

section Outs

variable (hout : m.outs = [])

include hout

theorem Tells.harmless {n : Notification} (h : Tells m m' n) (hn : n.rsrcStatus ≠ .denied) :
    ∀ o ∈ m'.outs, Harmless o := by
  intro o ho
  rcases h.outs o ho with h | ⟨e, -, -, rfl⟩
  · rw [hout] at h
    cases h
  · exact harmless_notify hn

theorem prior_refl : Prior m m := by
  refine .of_harmless (Informs.refl _) ?_
  rw [hout]
  exact nofun

theorem harmless_notify_nil {e : Subscriber} {status : AgpsRsrcStatus} (hs : status ≠ .denied) :
    ∀ o ∈ (notify agpsDs m e status).outs, Harmless o := by
  intro o ho
  rcases mem_append.1 ho with h | h
  · rw [hout] at h
    cases h
  · rw [mem_report h]
    exact harmless_notify hs

theorem harmless_closeSubscriber (s e : Subscriber) :
    Informs m.ext (closeSubscriber agpsDs m s e).ext ∧ ∀ o ∈ (closeSubscriber agpsDs m s e).outs, Harmless o := by
  have hnone : ∀ o ∈ m.outs, Harmless o := by
    rw [hout]
    rintro o ⟨⟩
  rw [closeSubscriber]
  split
  · simp only
    split
    · refine ⟨informs_informed m.ext e .unsubscribe, ?_⟩
      exact harmless_notify_nil hout (e := e) (by decide)
    exact ⟨Informs.refl _, hnone⟩
  · refine notifyLoop_keeps agpsDs (P := fun m' => Informs m.ext m'.ext ∧ ∀ o ∈ m'.outs, Harmless o)
      ⟨.rcver e, .unsubscribe, true⟩ ?_ _ false m ⟨Informs.refl _, hnone⟩
    rintro m' b _ - - ⟨hext, houts⟩
    refine ⟨hext.trans (informs_informed m'.ext b .unsubscribe), fun o ho => ?_⟩
    rcases mem_append.1 ho with h | h
    · exact houts o h
    · rw [mem_report h]
      exact harmless_notify (by rintro ⟨⟩)

theorem prior_unsubscribeEvent (s e : Subscriber) : Prior m (unsubscribeEvent agpsDs m s e) := by
  obtain ⟨hext, houts⟩ := harmless_closeSubscriber hout s e
  have hsend : ∀ o ∈ (closeSubscriber agpsDs m s e).outs ++ [.request .releaseDataConn], Harmless o := by
    intro o ho
    rcases mem_append.1 ho with h | h
    · exact houts o h
    · rw [mem_singleton.1 h]
      exact ⟨nofun, nofun⟩
  rw [unsubscribeEvent]
  split
  · exact .of_harmless hext hsend
  · split
    · exact .of_harmless hext hsend
    · exact .of_harmless hext houts

theorem prior_denied_all : Prior m (notifySubscribers agpsDs m ⟨.all, .denied, true⟩) := by
  have htells := tells_notifySubscribers m ⟨.all, .denied, true⟩ trivial
  refine ⟨htells.ext, ?_, ?_⟩
  · intro h
    rcases htells.outs _ h with h | ⟨e, -, -, he⟩
    · rw [hout] at h
      cases h
    · cases he
  · intro e _ b hb
    rw [notify_all_nil agpsDs m (by decide)] at hb
    cases hb

theorem prior_inactive (hdist : Distinct m.subscribers) (status : AgpsRsrcStatus) (hs : status ≠ .subscribe) :
    Prior m (notifySubscribers agpsDs m ⟨.inactive, status, true⟩) := by
  have htells := tells_notifySubscribers m ⟨.inactive, status, true⟩ trivial
  refine ⟨htells.ext, ?_, ?_⟩
  · intro h
    rcases htells.outs _ h with h | ⟨e, -, -, he⟩
    · rw [hout] at h
      cases h
    · cases he
  intro e h b hb
  rw [(notifySubscribers_delete agpsDs m .inactive trivial status).2, mem_filter] at hb
  rcases htells.outs _ h with h | ⟨_, he', hin, heq⟩
  · rw [hout] at h
    cases h
  obtain ⟨rfl, -⟩ := heq
  have hclosed : e.isInactive = true := by
    simpa [Subscriber.notifies, Subscriber.forMe, hs] using hin
  have hkind : e.kind ≠ .bit := by
    intro hk
    simp [Subscriber.isInactive, Subscriber.waitForCloseComplete, hk] at hclosed
  refine hdist.equals_false he' hb.1 ?_ hkind
  rintro rfl
  rw [hin] at hb
  cases hb.2

end Outs

/-! ### Requests -/

theorem mRetries_foldl (l : List Subscriber) (status : AgpsRsrcStatus) (m : AgpsMachine DsData) :
    (l.foldl (notify agpsDs · · status) m).ext.mRetries =
      if status = .denied ∧ l.any (·.kind = .ds) = true then 0 else m.ext.mRetries := by
  induction l generalizing m with
  | nil => simp
  | cons b _ ih =>
    have hone : (notify agpsDs m b status).ext.mRetries = if status = .denied ∧ b.kind = .ds then 0 else m.ext.mRetries := by
      show (if b.kind = .ds then m.ext.informStatus status else m.ext).mRetries = _
      by_cases hkind : b.kind = .ds
      · by_cases hst : status = .denied
        · simp [hkind, hst, DsData.informStatus]
        · simp [hkind, hst, DsData.informStatus]
      · simp [hkind]
    rw [foldl_cons, ih, hone, any_cons]
    by_cases hst : status = .denied
    · by_cases hkind : b.kind = .ds
      · simp [hst, hkind]
      · simp [hkind]
    · simp [hst]

theorem mRetries_inactive (m : AgpsMachine DsData) (status : AgpsRsrcStatus) (hs : status ≠ .subscribe) :
    (notifySubscribers agpsDs m ⟨.inactive, status, true⟩).ext.mRetries = retriesBefore m (decide (status = .denied)) := by
  rw [notifySubscribers_eq_foldl agpsDs m ⟨.inactive, status, true⟩ fun _ => readsOn_of_isBroadcast agpsDs trivial,
    mRetries_foldl, retriesBefore]
  have hany : (m.subscribers.filter (Subscriber.notifies · ⟨.inactive, status, true⟩)).any (fun e => e.kind = .ds) =
      m.subscribers.any (fun e => e.kind = .ds && e.isInactive) := by
    rw [any_filter]
    refine congrArg m.subscribers.any ?_
    funext e
    simp [Subscriber.notifies, Subscriber.forMe, hs, Bool.and_comm]
  rw [hany]
  simp

/-- What an event does: it requests no data call, or one, after what it does before. -/
inductive DsEffect (m : AgpsMachine DsData) (ev : Event) (m' : AgpsMachine DsData) : Prop
  | prior (h : Prior m m') (hno : requestsCall m ev.call = false)
      (hsame : m.state = .released → m'.subscribers = m.subscribers)
  | released (m1 : AgpsMachine DsData) (h : Prior m m1) (hcount : m1.ext.mRetries = m.ext.mRetries)
      (hst : m.state = .released) (hev : ∃ s, ev = .subscribe s)
      (hsubs : m'.subscribers = m1.subscribers)
      (hext : m'.ext = (m1.ext.sendRsrcRequest m1.subscribers .requestDataConn).2.1)
      (houts : m'.outs = m1.outs ++ (m1.ext.sendRsrcRequest m1.subscribers .requestDataConn).2.2)
      (hst' : (m1.ext.sendRsrcRequest m1.subscribers .requestDataConn).1 = 0 → m'.state = .pending)
  | releasing (m1 : AgpsMachine DsData) (h : Prior m m1)
      (hcount : m1.ext.mRetries = retriesBefore m ev.isDenied)
      (hst : m.state = .releasing) (hactive : m.hasActiveSubscribers = true) (hev : ev = .released ∨ ev = .denied)
      (hsubs : m'.subscribers = m1.subscribers)
      (hext : m'.ext = (m1.ext.sendRsrcRequest m1.subscribers .requestDataConn).2.1)
      (houts : m'.outs = m1.outs ++ (m1.ext.sendRsrcRequest m1.subscribers .requestDataConn).2.2)
      (hst' : m'.state = .pending)

theorem addSubscriber_ext (m : AgpsMachine DsData) (s : Subscriber) : (m.addSubscriber s).ext = m.ext := by
  rw [addSubscriber]
  split <;> rfl

theorem addSubscriber_outs (m : AgpsMachine DsData) (s : Subscriber) : (m.addSubscriber s).outs = m.outs := by
  rw [addSubscriber]
  split <;> rfl

theorem hasActive_inactive (m : AgpsMachine DsData) (status : AgpsRsrcStatus) :
    (notifySubscribers agpsDs m ⟨.inactive, status, true⟩).hasActiveSubscribers = m.hasActiveSubscribers := by
  rw [hasActiveSubscribers, (notifySubscribers_delete agpsDs m .inactive trivial status).2, any_filter,
    hasActiveSubscribers]
  refine congrArg m.subscribers.any ?_
  funext e
  rcases hin : e.isInactive with - | -
  · simp [Subscriber.notifies, Subscriber.forMe, hin]
  · simp [Subscriber.forMe, hin]

section Effect

variable (hout : m.outs = [])

include hout

theorem prior_addSubscriber (s : Subscriber) : Prior m (m.addSubscriber s) := by
  refine .of_harmless ?_ ?_
  · rw [addSubscriber_ext]
    exact Informs.refl _
  · rw [addSubscriber_outs, hout]
    exact nofun

theorem dsEffect_closedEvent (hst : m.state = .releasing) (hdist : Distinct m.subscribers) {ev : Event}
    {status : AgpsRsrcStatus} (hs : status ≠ .subscribe) (hev : ev = .released ∨ ev = .denied)
    (hstatus : decide (status = .denied) = ev.isDenied) : DsEffect m ev (closedEvent agpsDs m status) := by
  have hprior := prior_inactive hout hdist status hs
  have hactive := hasActive_inactive m status
  rw [closedEvent]
  split
  · rename_i hsome
    refine .releasing _ hprior ?_ hst (hactive.symm.trans hsome) hev rfl rfl rfl rfl
    rw [mRetries_inactive m status hs, hstatus]
  rename_i hnone
  refine .prior ⟨hprior.ext, hprior.request, hprior.denied⟩ ?_ ?_
  · rw [not_eq_true, hactive] at hnone
    rcases hev with rfl | rfl
    · rw [Event.call, requestsCall, hnone, Bool.and_false]
    · rw [Event.call, requestsCall, hnone, Bool.and_false]
  · intro h
    rw [hst] at h
    cases h

theorem dsEffect_onEvent (hdist : Distinct m.subscribers) (ev : Event) : DsEffect m ev (onEvent agpsDs m ev) := by
  -- no request in the states between
  have hno : ∀ ev, m.state = .pending ∨ m.state = .acquired → requestsCall m (Event.call ev) = false := by
    intro ev hst
    rcases hst with hst | hst <;> cases ev <;> simp [Event.call, requestsCall, hst]
  have hsame : ∀ {l : List Subscriber}, m.state ≠ .released → (m.state = .released → l = m.subscribers) :=
    fun hne h => absurd h hne
  rw [onEvent]
  split
  · rename_i hst
    cases ev with
    | subscribe s =>
      refine .released _ (prior_addSubscriber hout s) ?_ hst ⟨s, rfl⟩ rfl rfl rfl ?_
      · rw [addSubscriber_ext]
      · intro hret
        exact if_pos hret
    | unsubscribe _ e =>
      refine .prior (.of_harmless (informs_informed m.ext e .unsubscribe) ?_) rfl fun _ => rfl
      exact harmless_notify_nil hout (e := e) (by decide)
    | granted => exact .prior (prior_refl hout) rfl fun _ => rfl
    | released | denied => exact .prior (prior_refl hout) (by simp [Event.call, requestsCall, hst]) fun _ => rfl
  · rename_i hst
    have hne : m.state ≠ .released := by rw [hst]; decide
    cases ev with
    | subscribe s => exact .prior (prior_addSubscriber hout s) (hno _ (.inl hst)) (hsame hne)
    | unsubscribe s e => exact .prior (prior_unsubscribeEvent hout s e) rfl (hsame hne)
    | granted =>
      have htells := tells_notifySubscribers m ⟨.active, .granted, false⟩ trivial
      have houts := htells.harmless hout (by rintro ⟨⟩)
      exact .prior (.of_harmless htells.ext houts) rfl (hsame hne)
    | released => exact .prior (prior_refl hout) (hno _ (.inl hst)) (hsame hne)
    | denied =>
      have hprior := prior_denied_all hout
      exact .prior ⟨hprior.ext, hprior.request, hprior.denied⟩ (hno _ (.inl hst)) (hsame hne)
  · rename_i hst
    have hne : m.state ≠ .released := by rw [hst]; decide
    cases ev with
    | subscribe s =>
      refine .prior (.of_harmless ?_ ?_) (hno _ (.inr hst)) (hsame hne)
      · show Informs m.ext ((notify agpsDs m s .granted).addSubscriber s).ext
        rw [addSubscriber_ext]
        exact informs_informed m.ext s .granted
      · show ∀ o ∈ ((notify agpsDs m s .granted).addSubscriber s).outs, Harmless o
        rw [addSubscriber_outs]
        exact harmless_notify_nil hout (e := s) (by decide)
    | unsubscribe s e => exact .prior (prior_unsubscribeEvent hout s e) rfl (hsame hne)
    | granted => exact .prior (prior_refl hout) rfl (hsame hne)
    | released =>
      have htells := tells_notifySubscribers m ⟨.all, .released, true⟩ trivial
      have houts := htells.harmless hout (by rintro ⟨⟩)
      exact .prior (.of_harmless htells.ext houts) (hno _ (.inr hst)) (hsame hne)
    | denied => exact .prior (prior_refl hout) (hno _ (.inr hst)) (hsame hne)
  rename_i hst
  have hne : m.state ≠ .released := by rw [hst]; decide
  cases ev with
  | subscribe s =>
    refine .prior (prior_addSubscriber hout s) ?_ (hsame hne)
    rw [Event.call, requestsCall, hst]
    rfl
  | unsubscribe s e =>
    obtain ⟨hext, houts⟩ := harmless_closeSubscriber hout s e
    rw [releasingEvent]
    split <;> exact .prior (.of_harmless hext houts) rfl (hsame hne)
  | granted => exact .prior (prior_refl hout) rfl (hsame hne)
  | released => exact dsEffect_closedEvent hout hst hdist (by decide) (.inl rfl) rfl
  | denied => exact dsEffect_closedEvent hout hst hdist (by decide) (.inr rfl) rfl

end Effect

/-! ### The answer to a request -/

section Answer

variable {x : DsData} (subs : List Subscriber)

theorem send_answered (h : x.dataCall ≠ 6) (h2 : x.dataCall ≠ 2) (h1 : x.dataCall ≠ -1) :
    x.sendRsrcRequest subs .requestDataConn = (x.dataCall, x, [.request .requestDataConn]) := by
  rw [DsData.sendRsrcRequest, DsData.dataCallCb, if_neg h, if_neg]
  exact fun h => h.elim h2 h1

theorem toNat_incRetries (h : x.mRetries ≤ DsData.MAX_START_DATA_CALL_RETRIES) :
    x.incRetries.mRetries.toNat = x.mRetries.toNat + 1 := by
  rw [UInt8.le_iff_toNat_le] at h
  have hmax : DsData.MAX_START_DATA_CALL_RETRIES.toNat = 4 := rfl
  show (x.mRetries + 1).toNat = _
  show (x.mRetries.toNat + 1) % 256 = _
  omega

theorem send_busy (h : x.dataCall = 6) (hlt : x.mRetries < DsData.MAX_START_DATA_CALL_RETRIES) :
    x.sendRsrcRequest subs .requestDataConn =
      if x.timerStarts then (-1, { x.incRetries with timers := x.timers + 1 }, [.request .requestDataConn])
      else (6, x.incRetries, [.request .requestDataConn]) := by
  have hinc := toNat_incRetries (UInt8.le_of_lt hlt)
  have hle : ¬x.incRetries.mRetries > DsData.MAX_START_DATA_CALL_RETRIES := by
    intro hgt
    have hgt' := UInt8.lt_iff_toNat_lt.1 hgt
    have hlt' := UInt8.lt_iff_toNat_lt.1 hlt
    omega
  rw [DsData.sendRsrcRequest, DsData.dataCallCb, if_pos h, DsData.engineBusy, if_neg hle]
  rfl

theorem mRetries_send (hle : x.mRetries ≤ DsData.MAX_START_DATA_CALL_RETRIES) :
    (x.sendRsrcRequest subs .requestDataConn).2.1.mRetries.toNat ≤ x.mRetries.toNat + 1 ∧
      (x.sendRsrcRequest subs .requestDataConn).2.1.mRetries ≤ DsData.MAX_START_DATA_CALL_RETRIES := by
  have hinc := toNat_incRetries hle
  have hzero : (0 : UInt8) ≤ DsData.MAX_START_DATA_CALL_RETRIES := by decide
  rw [DsData.sendRsrcRequest]
  split
  · rw [DsData.engineBusy]
    split
    · exact ⟨Nat.zero_le _, hzero⟩
    rename_i hgt
    have hle' := UInt8.not_lt.1 hgt
    split <;> exact ⟨Nat.le_of_eq hinc, hle'⟩
  · split
    · exact ⟨Nat.zero_le _, hzero⟩
    · exact ⟨Nat.le_succ _, hle⟩

end Answer

end Prior

/-! ### Runs -/

section Runs

variable {m : AgpsMachine DsData} {st : DsState}
variable {m' m1 : AgpsMachine DsData}

/-- The machine at the start of a call. -/
def dsStart (m : AgpsMachine DsData) (dataCall : ℤ) (timerStarts : Bool) : AgpsMachine DsData :=
  { dsReady m dataCall timerStarts with outs := [] }

theorem onEvent_released_same (h : (onEvent agpsDs m .released).state = m.state) :
    onEvent agpsDs m .released = m ∧ m.state ≠ .releasing := by
  rw [onEvent] at h ⊢
  split
  · rename_i hst
    refine ⟨rfl, ?_⟩
    rw [hst]
    decide
  · rename_i hst
    refine ⟨rfl, ?_⟩
    rw [hst]
    decide
  · rename_i hst
    rw [hst] at h
    cases h
  rename_i hst
  rw [hst] at h
  simp only [releasingEvent, closedEvent] at h
  split at h <;> cases h

/-- A call is an event or nothing.  A release is a denial if nothing comes of it, which is never so in the releasing
state. -/
theorem dsCall_cases (henforce : m.enforceSingleSubscriber = false) (d : ℤ) (t : Bool) (c : Call) :
    (dsCall (dsReady m d t) c = dsStart m d t ∧ requestsCall m c = false) ∨
      ∃ ev, dsCall (dsReady m d t) c = onEvent agpsDs (dsStart m d t) ev ∧
        (ev.call = c ∨ c = .released ∧ ev = .denied ∧ m.state ≠ .releasing) := by
  cases c with
  | subscribe s =>
    refine .inr ⟨.subscribe s, ?_, Or.inl rfl⟩
    show subscribeRsrc agpsDs (dsStart m d t) s = _
    rw [subscribeRsrc, if_neg]
    show ¬(m.enforceSingleSubscriber && _) = true
    rw [henforce, Bool.false_and]
    exact false_ne_true
  | unsubscribe s =>
    show (unsubscribeRsrc agpsDs (dsStart m d t) s = _ ∧ _) ∨ ∃ ev, unsubscribeRsrc agpsDs (dsStart m d t) s = _ ∧ _
    rw [unsubscribeRsrc]
    split
    · exact .inl ⟨rfl, rfl⟩
    · rename_i e _
      exact .inr ⟨.unsubscribe s e, rfl, Or.inl rfl⟩
  | granted => exact .inr ⟨.granted, rfl, Or.inl rfl⟩
  | denied => exact .inr ⟨.denied, rfl, Or.inl rfl⟩
  | released =>
    right
    have heq : dsCall (dsReady m d t) .released =
        if (onEvent agpsDs (dsStart m d t) .released).state ≠ m.state then onEvent agpsDs (dsStart m d t) .released
        else onEvent agpsDs (onEvent agpsDs (dsStart m d t) .released) .denied := rfl
    rw [heq]
    split
    · exact ⟨.released, rfl, Or.inl rfl⟩
    rename_i hsame
    obtain ⟨hkeep, hst⟩ := onEvent_released_same (m := dsStart m d t) (not_not.1 hsame)
    rw [hkeep]
    exact ⟨.denied, rfl, Or.inr ⟨rfl, rfl, hst⟩⟩

/-- What all runs keep. -/
structure DsInv (m : AgpsMachine DsData) : Prop where
  enforce : m.enforceSingleSubscriber = false
  distinct : Distinct m.subscribers

theorem dsInv_dsCall (h : DsInv m) (d : ℤ) (t : Bool) (c : Call) : DsInv (dsCall (dsReady m d t) c) := by
  rcases dsCall_cases h.enforce d t c with ⟨heq, -⟩ | ⟨ev, heq, -⟩
  · rw [heq]
    exact ⟨h.enforce, h.distinct⟩
  · rw [heq]
    exact ⟨(onEvent_enforce agpsDs _ ev).trans h.enforce, onEvent_distinct agpsDs ev h.distinct⟩

/-- Nobody is left in the list who was denied in the last step. -/
def NoneDenied (m : AgpsMachine DsData) : Prop :=
  ∀ e, .notify e .denied ∈ m.outs → ∀ b ∈ m.subscribers, b.equals e = false

theorem noneDenied_send {m : AgpsMachine DsData} (hprior : Prior m m1) (hsubs : m'.subscribers = m1.subscribers)
    (houts : m'.outs = m1.outs ++ [.request .requestDataConn]) : NoneDenied m' := by
  intro e he
  rw [hsubs]
  rw [houts, mem_append] at he
  rcases he with he | he
  · exact hprior.denied e he
  · cases mem_singleton.1 he

theorem onEvent_clean (hout : m.outs = []) (hdist : Distinct m.subscribers) (ev : Event)
    (hans : requestsCall m ev.call → answerOk m ev.call m.ext.dataCall m.ext.timerStarts) :
    NoneDenied (onEvent agpsDs m ev) ∧
      (m.state = .released → (onEvent agpsDs m ev).state = .released →
        requestsCall m ev.call = false ∧ (onEvent agpsDs m ev).subscribers = m.subscribers ∧
          (onEvent agpsDs m ev).ext.timers = m.ext.timers ∨ 0 < (onEvent agpsDs m ev).ext.timers) := by
  cases dsEffect_onEvent hout hdist ev with
  | prior h hno hsame => exact ⟨h.denied, fun hst _ => Or.inl ⟨hno, hsame hst, h.ext.timers_eq⟩⟩
  | released m1 h hcount hst hev hsubs hext houts hst' =>
    obtain ⟨s, rfl⟩ := hev
    have hok : answerReleased m m.ext.dataCall m.ext.timerStarts = true := hans (decide_eq_true hst)
    rw [answerReleased, or_eq_true, and_eq_true, and_eq_true, decide_eq_true_eq, decide_eq_true_eq,
      decide_eq_true_eq] at hok
    rcases hok with hzero | ⟨⟨hsix, hlt⟩, hstarts⟩
    · have hcall : m1.ext.dataCall = 0 := h.ext.dataCall_eq.trans hzero
      have hsend := send_answered m1.subscribers (by rw [hcall]; decide) (by rw [hcall]; decide)
        (by rw [hcall]; decide)
      rw [hsend] at houts hst'
      refine ⟨noneDenied_send h hsubs houts, ?_⟩
      intro _ hrel
      exact absurd (hrel.symm.trans (hst' hcall)) (by decide)
    have hcall : m1.ext.dataCall = 6 := h.ext.dataCall_eq.trans hsix
    have hsend := send_busy m1.subscribers hcall (by rw [hcount]; exact hlt)
    rw [h.ext.timerStarts_eq, hstarts, if_pos rfl] at hsend
    rw [hsend] at houts hext
    refine ⟨noneDenied_send h hsubs houts, fun _ _ => Or.inr ?_⟩
    rw [hext]
    exact Nat.succ_pos _
  | releasing m1 h hcount hst hactive hev hsubs _ houts =>
    have hreq : requestsCall m ev.call = true := by
      rcases hev with rfl | rfl
      · rw [Event.call, requestsCall, hst, hactive]
        rfl
      · rw [Event.call, requestsCall, hst, hactive]
        rfl
    have hok : answerReleasing m ev.isDenied m.ext.dataCall = true := by
      rcases hev with rfl | rfl
      · exact hans hreq
      · exact hans hreq
    rw [answerReleasing, and_eq_true, and_eq_true, or_eq_true, decide_eq_true_eq, decide_eq_true_eq,
      decide_eq_true_eq, decide_eq_true_eq] at hok
    obtain ⟨⟨h2, h1⟩, h6⟩ := hok
    rw [← h.ext.dataCall_eq] at h2 h1 h6
    refine ⟨?_, ?_⟩
    · by_cases hcall : m1.ext.dataCall = 6
      · have hlt := h6.resolve_left (not_not.2 hcall)
        have hsend := send_busy m1.subscribers hcall (by rw [hcount]; exact hlt)
        refine noneDenied_send h hsubs ?_
        rw [houts, hsend]
        split <;> rfl
      · rw [send_answered m1.subscribers hcall h2 h1] at houts
        exact noneDenied_send h hsubs houts
    · intro hrel
      cases hst.symm.trans hrel

theorem addSubscriber_active (s : Subscriber) (h : ∀ e ∈ m.subscribers, e.isInactive = false) :
    ∀ e ∈ (m.addSubscriber s).subscribers, e.isInactive = false := by
  rw [addSubscriber]
  split
  · exact h
  intro e he
  rcases mem_cons.1 he with rfl | he
  · exact s.clone_active
  · exact h e he

theorem onEvent_active (ev : Event) (hst : m.state = .released) (h : ∀ e ∈ m.subscribers, e.isInactive = false) :
    ∀ e ∈ (onEvent agpsDs m ev).subscribers, e.isInactive = false := by
  cases ev with
  | subscribe s =>
    rw [subscribers_subscribe]
    exact addSubscriber_active s h
  | unsubscribe | granted | released | denied =>
    rw [onEvent, hst]
    exact h

/-- The invariant of the runs with good answers. -/
structure CleanInv (st : DsState) : Prop where
  inv : DsInv st.machine
  retry : st.machine.state = .released →
    st.machine.subscribers = [] ∨ 0 < st.machine.ext.timers ∨ st.messages ≠ []
  active : st.machine.state = .released → ∀ e ∈ st.machine.subscribers, e.isInactive = false
  denied : NoneDenied st.machine

/-- A call of a machine. -/
structure CallClean (m : AgpsMachine DsData) (c : Call) (m' : AgpsMachine DsData) : Prop where
  denied : NoneDenied m'
  active : m'.state = .released → ∀ e ∈ m'.subscribers, e.isInactive = false
  retry : m'.state = .released → m'.subscribers = [] ∨ 0 < m'.ext.timers ∨
    m.state = .released ∧ requestsCall m c = false ∧ m'.subscribers = m.subscribers ∧ m'.ext.timers = m.ext.timers

theorem callClean_dsCall (hinv : DsInv m) (hactive : m.state = .released → ∀ e ∈ m.subscribers, e.isInactive = false)
    (d : ℤ) (t : Bool) (c : Call) (hans : requestsCall m c → answerOk m c d t) :
    CallClean m c (dsCall (dsReady m d t) c) := by
  rcases dsCall_cases hinv.enforce d t c with ⟨heq, hno⟩ | ⟨ev, heq, hev⟩
  · rw [heq]
    refine ⟨nofun, hactive, ?_⟩
    exact fun hst => Or.inr (.inr ⟨hst, hno, rfl, rfl⟩)
  rw [heq]
  have hcall : requestsCall m ev.call = requestsCall m c := by
    rcases hev with rfl | ⟨rfl, rfl, hst⟩
    · rfl
    · rfl
  have hans' : requestsCall m ev.call = true → answerOk m ev.call d t = true := by
    rcases hev with rfl | ⟨rfl, rfl, hst⟩
    · exact hans
    · intro hreq
      rw [Event.call, requestsCall, and_eq_true, decide_eq_true_eq] at hreq
      exact absurd hreq.1 hst
  obtain ⟨hdenied, hrel⟩ := onEvent_clean (m := dsStart m d t) rfl hinv.distinct ev hans'
  refine ⟨hdenied, ?_, ?_⟩
  · intro hst'
    by_cases hst : m.state = .released
    · exact onEvent_active (m := dsStart m d t) ev hst (hactive hst)
    · rw [onEvent_released agpsDs (m := dsStart m d t) ev hst hst']
      exact nofun
  intro hst'
  by_cases hst : m.state = .released
  · rcases hrel hst hst' with ⟨hno, hsubs, htimers⟩ | hpos
    · exact .inr (.inr ⟨hst, hcall.symm.trans hno, hsubs, htimers⟩)
    · exact .inr (.inl hpos)
  · exact .inl (onEvent_released agpsDs (m := dsStart m d t) ev hst hst')

theorem cleanInv_idle (h : CleanInv st) : CleanInv (dsIdle st) :=
  ⟨⟨h.inv.enforce, h.inv.distinct⟩, h.retry, h.active, nofun⟩

theorem cleanInv_retryCallback (hinv : DsInv st.machine)
    (hactive : st.machine.state = .released → ∀ e ∈ st.machine.subscribers, e.isInactive = false) :
    CleanInv (retryCallback st) := by
  rw [retryCallback]
  split
  · rename_i s _
    refine ⟨⟨hinv.enforce, hinv.distinct⟩, fun _ => Or.inr (.inr ?_), hactive, ?_⟩
    · exact append_ne_nil_of_right_ne_nil _ (cons_ne_nil _ _)
    · exact fun e he => by cases mem_singleton.1 he
  rename_i hnone
  refine ⟨⟨hinv.enforce, hinv.distinct⟩, fun hst => Or.inl ?_, hactive, nofun⟩
  rw [eq_nil_iff_forall_not_mem]
  intro e he
  refine find?_eq_none.1 hnone e he ?_
  rw [Subscriber.forMe, hactive hst e he]
  rfl

theorem cleanInv_dsStep (h : CleanInv st) {a : DsAct} (ha : AnswerMeets st a) : CleanInv (dsStep st a) := by
  cases a with
  | call c d t =>
    have hclean := callClean_dsCall h.inv h.active d t c ha
    refine ⟨dsInv_dsCall h.inv d t c, ?_, hclean.active, hclean.denied⟩
    intro hst'
    rcases hclean.retry hst' with hnil | hpos | ⟨hst, -, hsubs, htimers⟩
    · exact .inl hnil
    · exact .inr (.inl hpos)
    rcases h.retry hst with hnil | hpos | hmsg
    · exact .inl (hsubs.trans hnil)
    · exact .inr (.inl (Nat.lt_of_lt_of_eq hpos htimers.symm))
    · exact .inr (.inr hmsg)
  | timer =>
    rw [dsStep]
    split
    · exact cleanInv_idle h
    · exact cleanInv_retryCallback ⟨h.inv.enforce, h.inv.distinct⟩ h.active
  | retry d t =>
    rw [dsStep]
    split
    · exact cleanInv_idle h
    rename_i ID messages hmsg
    have hans : requestsCall st.machine (.subscribe (DsData.subscriber ID)) = true →
        answerOk st.machine (.subscribe (DsData.subscriber ID)) d t = true := by
      intro hreq
      refine ha ⟨?_, of_decide_eq_true hreq⟩
      rw [hmsg]
      exact cons_ne_nil _ _
    have hclean := callClean_dsCall h.inv h.active d t _ hans
    refine ⟨dsInv_dsCall h.inv d t (.subscribe (DsData.subscriber ID)), ?_, hclean.active, hclean.denied⟩
    intro hst'
    rcases hclean.retry hst' with hnil | hpos | ⟨hst, hno, -⟩
    · exact .inl hnil
    · exact .inr (.inl hpos)
    · -- the message is a request
      exact absurd hst (of_decide_eq_false hno)

/-! ### Retries -/

/-- What the request of an act returns. -/
def DsAct.dataCall : DsAct → Option ℤ
  | .call _ dataCall _ => some dataCall
  | .timer => none
  | .retry dataCall _ => some dataCall

/-- The last output is a fall back to normal SUPL, after a request to start a data call. -/
def FellBack (m : AgpsMachine DsData) : Prop :=
  ∃ pre ID, m.outs = pre ++ [.request .requestDataConn, .notify (DsData.subscriber ID) .denied]

/-- The counter is at most the number of requests since a subscriber asked. -/
structure CountInv (st : DsState) : Prop where
  inv : DsInv st.machine
  le_max : st.machine.ext.mRetries ≤ DsData.MAX_START_DATA_CALL_RETRIES
  le_retries : st.machine.ext.mRetries.toNat ≤ st.retries + 1

/-- A call: the counter before its request, if there is one, and after it. -/
structure CallCounts (m : AgpsMachine DsData) (c : Call) (d : ℤ) (m' : AgpsMachine DsData) : Prop where
  idle : requestsCall m c = false → (m'.ext.mRetries = m.ext.mRetries ∨ m'.ext.mRetries = 0) ∧ ¬FellBack m'
  le_max : m'.ext.mRetries ≤ DsData.MAX_START_DATA_CALL_RETRIES
  le_succ : requestsCall m c = true → m'.ext.mRetries.toNat ≤ (retriesBefore m c.isDenied).toNat + 1
  fellBack : requestsCall m c = true → d = 6 → FellBack m' →
    DsData.MAX_START_DATA_CALL_RETRIES ≤ retriesBefore m c.isDenied

theorem le_of_fellBack (hcall : m1.ext.dataCall = 6)
    (houts : m'.outs = m1.outs ++ (m1.ext.sendRsrcRequest m1.subscribers .requestDataConn).2.2) (h : FellBack m') :
    DsData.MAX_START_DATA_CALL_RETRIES ≤ m1.ext.mRetries := by
  rw [← UInt8.not_lt]
  intro hlt
  obtain ⟨pre, ID, hpre⟩ := h
  have hlast : (m1.ext.sendRsrcRequest m1.subscribers .requestDataConn).2.2 = [.request .requestDataConn] := by
    rw [send_busy m1.subscribers hcall hlt]
    split <;> rfl
  -- the last output is the request
  rw [hlast, hpre] at houts
  have hlist : (pre ++ [.request .requestDataConn]) ++ [AgpsOut.notify (DsData.subscriber ID) .denied] =
      m1.outs ++ [.request .requestDataConn] := by
    rw [← houts, append_assoc]
    rfl
  cases (append_inj' hlist rfl).2

theorem not_fellBack (h : .request .requestDataConn ∉ m.outs) : ¬FellBack m := by
  rintro ⟨_, _, hpre⟩
  rw [hpre] at h
  exact h (mem_append_right _ (.head _))

theorem callCounts_send {c : Call} {d : ℤ} (hreq : requestsCall m c)
    (hmax : m1.ext.mRetries ≤ DsData.MAX_START_DATA_CALL_RETRIES)
    (hcount : m1.ext.mRetries = retriesBefore m c.isDenied) (hcall : m1.ext.dataCall = d)
    (hext : m'.ext = (m1.ext.sendRsrcRequest m1.subscribers .requestDataConn).2.1)
    (houts : m'.outs = m1.outs ++ (m1.ext.sendRsrcRequest m1.subscribers .requestDataConn).2.2) :
    CallCounts m c d m' := by
  obtain ⟨hsucc, hmax'⟩ := mRetries_send m1.subscribers hmax
  refine ⟨?_, ?_, ?_, ?_⟩
  · rw [hreq]
    intro h
    cases h
  · rw [hext]
    exact hmax'
  · intro _
    rw [hext, ← hcount]
    exact hsucc
  · intro _ hd hfell
    rw [← hcount]
    exact le_of_fellBack (hcall.trans hd) houts hfell

theorem callCounts_dsCall (hinv : DsInv m) (hmax : m.ext.mRetries ≤ DsData.MAX_START_DATA_CALL_RETRIES) (d : ℤ) (t : Bool)
    (c : Call) : CallCounts m c d (dsCall (dsReady m d t) c) := by
  have hle : ∀ m1 : AgpsMachine DsData, Prior (dsStart m d t) m1 →
      m1.ext.mRetries ≤ DsData.MAX_START_DATA_CALL_RETRIES := by
    intro m1 h
    rcases h.ext.mRetries_eq with heq | heq
    · rw [heq]
      exact hmax
    · rw [heq]
      decide
  rcases dsCall_cases hinv.enforce d t c with ⟨heq, hno⟩ | ⟨ev, heq, hev⟩
  · rw [heq]
    refine ⟨fun _ => ⟨Or.inl rfl, not_fellBack not_mem_nil⟩, hmax, ?_, ?_⟩
    · rw [hno]
      intro h
      cases h
    · rw [hno]
      intro h
      cases h
  rw [heq]
  cases dsEffect_onEvent (m := dsStart m d t) rfl hinv.distinct ev with
  | prior h hno =>
    have hno' : requestsCall m c = false := by
      rcases hev with rfl | ⟨rfl, rfl, -⟩
      · exact hno
      · exact hno
    refine ⟨fun _ => ⟨h.ext.mRetries_eq, not_fellBack h.request⟩, hle _ h, ?_, ?_⟩
    · rw [hno']
      intro h
      cases h
    · rw [hno']
      intro h
      cases h
  | released m1 h hcount hst hev' _ hext houts =>
    obtain ⟨s, rfl⟩ := hev'
    have hc : c = .subscribe s := by
      rcases hev with hev | ⟨-, hev, -⟩
      · exact hev.symm
      · cases hev
    subst hc
    exact callCounts_send (decide_eq_true hst) (hle m1 h) hcount h.ext.dataCall_eq hext houts
  | releasing m1 h hcount hst hactive hev' _ hext houts =>
    have hc : ev.call = c := by
      rcases hev with hev | ⟨-, -, hne⟩
      · exact hev
      · exact absurd hst hne
    have hactive' : m.hasActiveSubscribers = true := hactive
    have hst0 : m.state = .releasing := hst
    have hreq : requestsCall m c = true := by
      rw [← hc]
      rcases hev' with rfl | rfl
      · rw [Event.call, requestsCall, hst0, hactive']
        rfl
      · rw [Event.call, requestsCall, hst0, hactive']
        rfl
    refine callCounts_send hreq (hle m1 h) ?_ h.ext.dataCall_eq hext houts
    rw [← hc]
    exact hcount

theorem countInv_idle (h : CountInv st) : CountInv (dsIdle st) :=
  ⟨⟨h.inv.enforce, h.inv.distinct⟩, h.le_max, h.le_retries⟩

theorem countInv_retryCallback (h : CountInv st) : CountInv (retryCallback st) := by
  rw [retryCallback]
  split
  · exact ⟨⟨h.inv.enforce, h.inv.distinct⟩, h.le_max, h.le_retries⟩
  · exact countInv_idle h

theorem countInv_dsStep (h : CountInv st) {a : DsAct} (ha : FreshMeets st a) : CountInv (dsStep st a) ∧
      (a.dataCall = some 6 → FellBack (dsStep st a).machine → 4 ≤ (dsStep st a).retries) := by
  have hmax : DsData.MAX_START_DATA_CALL_RETRIES.toNat = 4 := rfl
  cases a with
  | call c d t =>
    have hcounts := callCounts_dsCall h.inv h.le_max d t c
    rcases hreq : requestsCall st.machine c with - | -
    · obtain ⟨hsame, hfell⟩ := hcounts.idle hreq
      refine ⟨⟨dsInv_dsCall h.inv d t c, hcounts.le_max, ?_⟩, fun _ hf => absurd hf hfell⟩
      show (dsCall (dsReady st.machine d t) c).ext.mRetries.toNat ≤ (if requestsCall st.machine c then 0 else st.retries) + 1
      rw [hreq, if_neg Bool.false_ne_true]
      rcases hsame with heq | heq
      · rw [heq]
        exact h.le_retries
      · rw [heq]
        exact Nat.zero_le _
    have hfresh : retriesBefore st.machine c.isDenied = 0 := ha hreq
    refine ⟨⟨dsInv_dsCall h.inv d t c, hcounts.le_max, ?_⟩, ?_⟩
    · show (dsCall (dsReady st.machine d t) c).ext.mRetries.toNat ≤ (if requestsCall st.machine c then 0 else st.retries) + 1
      rw [hreq, if_pos rfl]
      have hsucc := hcounts.le_succ hreq
      rw [hfresh] at hsucc
      exact hsucc
    intro hd hfell
    have hle := hcounts.fellBack hreq (Option.some.inj hd) hfell
    rw [hfresh] at hle
    cases hle
  | timer =>
    rw [dsStep]
    split
    · exact ⟨countInv_idle h, by rintro ⟨⟩⟩
    · exact ⟨countInv_retryCallback ⟨⟨h.inv.enforce, h.inv.distinct⟩, h.le_max, h.le_retries⟩, by rintro ⟨⟩⟩
  | retry d t =>
    rw [dsStep]
    split
    · exact ⟨countInv_idle h, fun _ hf => absurd hf (not_fellBack not_mem_nil)⟩
    rename_i ID messages hmsg
    have hcounts := callCounts_dsCall h.inv h.le_max d t (.subscribe (DsData.subscriber ID))
    have hinv := dsInv_dsCall h.inv d t (.subscribe (DsData.subscriber ID))
    by_cases hst : st.machine.state = .released
    · have hreq := decide_eq_true hst
      refine ⟨⟨hinv, hcounts.le_max, ?_⟩, ?_⟩
      · show _ ≤ (if st.machine.state = .released then st.retries + 1 else st.retries) + 1
        rw [if_pos hst]
        exact Nat.le_trans (hcounts.le_succ hreq) (Nat.succ_le_succ h.le_retries)
      intro hd hfell
      have hle := UInt8.le_iff_toNat_le.1 (hcounts.fellBack hreq (Option.some.inj hd) hfell)
      have hret := h.le_retries
      show 4 ≤ if st.machine.state = .released then st.retries + 1 else st.retries
      rw [if_pos hst]
      exact Nat.le_trans (Nat.le_trans (Nat.le_of_eq hmax.symm) hle) hret
    have hreq := decide_eq_false hst
    obtain ⟨hsame, hfell⟩ := hcounts.idle hreq
    refine ⟨⟨hinv, hcounts.le_max, ?_⟩, fun _ hf => absurd hf hfell⟩
    show _ ≤ (if st.machine.state = .released then st.retries + 1 else st.retries) + 1
    rw [if_neg hst]
    rcases hsame with heq | heq
    · rw [heq]
      exact h.le_retries
    · rw [heq]
      exact Nat.zero_le _

/-- The list is empty in the released state, if there is no retry to come, and nobody is in it who has fallen back to
normal SUPL. -/
structure NoStale (st : DsState) : Prop where
  empty : st.machine.state = .released → st.machine.ext.timers = 0 → st.messages = [] → st.machine.subscribers = []
  denied : NoneDenied st.machine

theorem CleanInv.noStale (h : CleanInv st) : NoStale st := by
  refine ⟨?_, h.denied⟩
  intro hst htimers hmsg
  rcases h.retry hst with hnil | hpos | hne
  · exact hnil
  · exact absurd htimers (Nat.ne_of_gt hpos)
  · exact absurd hmsg hne

theorem cleanInv_init : CleanInv dsInit :=
  ⟨⟨rfl, List.Pairwise.nil⟩, fun _ => Or.inl rfl, nofun,
    nofun⟩

theorem countInv_init : CountInv dsInit := ⟨⟨rfl, List.Pairwise.nil⟩, by decide, Nat.zero_le _⟩

/-- A run of a `DSStateMachine`.  If every request of a data call is answered by success, or in the released state by
busy with a retry to come, no subscriber is stale.  If every request that is no retry finds the counter at 0, a
request that is answered by busy is denied after 4 retries only. -/
theorem ds_no_stale_subscriber (acts : List DsAct) :
    (AllSteps dsStep AnswerMeets dsInit acts → NoStale (dsRun acts)) ∧
    ∀ a, AllSteps dsStep FreshMeets dsInit (acts ++ [a]) → a.dataCall = some 6 →
      FellBack (dsRun (acts ++ [a])).machine → 4 ≤ (dsRun (acts ++ [a])).retries := by
  constructor
  · intro hmeets
    exact (run_invariant (fun _ _ ha h => cleanInv_dsStep h ha) hmeets cleanInv_init).noStale
  intro a hmeets
  rw [allSteps_append] at hmeets
  obtain ⟨hacts, ha, -⟩ := hmeets
  have hinv : CountInv (dsRun acts) := run_invariant (fun _ _ ha h => (countInv_dsStep h ha).1) hacts countInv_init
  rw [dsRun, foldl_append]
  exact (countInv_dsStep hinv ha).2

/-- A busy engine that then starts the call, and a busy engine that is tried again until the call is denied. -/
theorem ds_no_stale_subscriber_busy :
    NoStale (dsRun [.call (.subscribe (DsData.subscriber 1)) 6 true, .timer, .retry 0 true]) ∧
    4 ≤ (dsRun ([.call (.subscribe (DsData.subscriber 1)) 6 true, .timer, .retry 6 true, .timer, .retry 6 true, .timer,
      .retry 6 true, .timer] ++ [.retry 6 true])).retries := by
  constructor
  · exact (ds_no_stale_subscriber [.call (.subscribe (DsData.subscriber 1)) 6 true, .timer, .retry 0 true]).1
      (by decide)
  · refine (ds_no_stale_subscriber _).2 (.retry 6 true) (by decide) rfl ⟨[], 1, by decide⟩

/-- A call that is not supported. -/
def unsupportedCall : List DsAct := [.call (.subscribe (DsData.subscriber 1)) 2 true]

/-- A call that has found the engine busy once before it was started, and the next call, which finds it busy. -/
def secondCall : List DsAct :=
  [.call (.subscribe (DsData.subscriber 1)) 6 true, .timer, .retry 0 true, .call .granted 0 true,
    .call (.unsubscribe (DsData.subscriber 1)) 0 true, .call .released 0 true,
    .call (.subscribe (DsData.subscriber 1)) 6 true, .timer, .retry 6 true, .timer, .retry 6 true, .timer, .retry 6 true]

/-- The first leaves its subscriber after the fall back; the second has 3 retries. -/
theorem ds_stale_subscriber :
    ((dsRun unsupportedCall).machine.state = .released ∧ (dsRun unsupportedCall).machine.ext.timers = 0 ∧
      (dsRun unsupportedCall).messages = [] ∧
      .notify (DsData.subscriber 1) .denied ∈ (dsRun unsupportedCall).machine.outs ∧
      (dsRun unsupportedCall).machine.subscribers = [DsData.subscriber 1]) ∧
    (dsRun secondCall).machine.outs = [.request .requestDataConn, .notify (DsData.subscriber 1) .denied] ∧
      (dsRun secondCall).retries = 3 := by
  decide

end Runs

end G4Common.Gps

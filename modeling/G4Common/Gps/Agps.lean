/-
The state machine for data connections of `gps/loc_api/libloc_api_50001/loc_eng_agps.cpp`: subscribers,
notifications, the four states, and the calls of `AgpsStateMachine`.

`sendRsrcRequest()` is virtual.  So is, for `DSSubscriber`, what a notification does to the machine.  Both are
taken from the class of the machine (`AgpsClass`); they leave the list of subscribers alone.

A notification for one subscriber has a pointer to it, and is read after that subscriber was deleted from the list.
What is read then can be anything; it is taken from the class as well (`freed`).

The outputs of a call are the notifications of the subscribers and the requests to the framework, in order.
-/
import Mathlib.Data.Int.Notation
import Mathlib.Data.List.Basic

namespace G4Common.Gps

universe u

/-! ### Subscribers and notifications -/

inductive AgpsRsrcStatus
  | subscribe
  | unsubscribe
  | granted
  | released
  | denied
deriving DecidableEq

/-- The status of `AGpsStatus` in a request. -/
inductive AGpsStatusValue
  | requestDataConn
  | releaseDataConn
deriving DecidableEq

inductive SubscriberKind
  | bit
  | atl
  | wifi
  | ds
deriving DecidableEq

/-- A `Subscriber`.  The bytes of `mIPv6Addr` are read for a `BITSubscriber`, and from any subscriber that is
compared with one. -/
structure Subscriber where
  kind : SubscriberKind
  ID : UInt32
  mIPv6Addr : List UInt8
  mIsInactive : Bool
deriving DecidableEq

namespace Subscriber

def waitForCloseComplete (s : Subscriber) : Bool := s.kind = .wifi || s.kind = .ds

def isInactive (s : Subscriber) : Bool := s.waitForCloseComplete && s.mIsInactive

/-- What `strncmp()` compares of the 16 bytes. -/
def address (s : Subscriber) : List UInt8 := (s.mIPv6Addr.take 16).takeWhile (· ≠ 0)

/-- `equals()`; a `BITSubscriber` without an IPv4 address, `INADDR_NONE`, compares the IPv6 addresses. -/
def equals (s t : Subscriber) : Bool :=
  s.ID = t.ID && (s.kind ≠ .bit || s.ID ≠ 0xffffffff || s.address = t.address)

def clone (s : Subscriber) : Subscriber := { s with mIsInactive := false }

def setInactive (s : Subscriber) : Subscriber := { s with mIsInactive := true }

end Subscriber

/-- To whom a notification goes: `rcver` or `groupID`. -/
inductive NotificationGroup
  | rcver (s : Subscriber)
  | all
  | active
  | inactive

structure Notification where
  group : NotificationGroup
  rsrcStatus : AgpsRsrcStatus
  postNotifyDelete : Bool

/-- The group as it is read; the memory of a receiver that is gone reads as `freed`. -/
def NotificationGroup.read (freed : Subscriber) (gone : Bool) : NotificationGroup → NotificationGroup
  | .rcver r => .rcver (if gone then freed else r)
  | .all => .all
  | .active => .active
  | .inactive => .inactive

/-- The subscriber, one of the list, is the receiver.  No two of a list are the same. -/
def NotificationGroup.isRcver (s : Subscriber) : NotificationGroup → Bool
  | .rcver r => s = r
  | .all => false
  | .active => false
  | .inactive => false

/-- A notification that is for no single subscriber. -/
def NotificationGroup.IsBroadcast : NotificationGroup → Prop
  | .rcver _ => False
  | .all => True
  | .active => True
  | .inactive => True

def Subscriber.forMe (s : Subscriber) : NotificationGroup → Bool
  | .rcver r => s.equals r
  | .all => true
  | .active => !s.isInactive
  | .inactive => s.isInactive

/-- The result of `notifyRsrcStatus()`. -/
def Subscriber.notifies (s : Subscriber) (n : Notification) : Bool :=
  s.forMe n.group && n.rsrcStatus ≠ .subscribe

/-- What goes out. -/
inductive AgpsOut
  | notify (s : Subscriber) (status : AgpsRsrcStatus)
  | request (action : AGpsStatusValue)
  | requestSuplES (ID : UInt32)
deriving DecidableEq

/-- What a subscriber sends on a status; a `WIFISubscriber` sends nothing for its own unsubscription. -/
def Subscriber.report (s : Subscriber) (status : AgpsRsrcStatus) : List AgpsOut :=
  if s.kind = .wifi ∧ status = .unsubscribe then [] else [.notify s status]

/-! ### The machine -/

inductive AgpsState
  | released
  | pending
  | acquired
  | releasing
deriving DecidableEq

/-- An `AgpsStateMachine`, with the data of its class and the outputs of the last call. -/
structure AgpsMachine (X : Type u) where
  state : AgpsState
  subscribers : List Subscriber
  enforceSingleSubscriber : Bool
  ext : X
  outs : List AgpsOut

/-- The virtual functions. -/
structure AgpsClass (X : Type u) where
  sendRsrcRequest : X → List Subscriber → AGpsStatusValue → ℤ × X × List AgpsOut
  /-- What a notification of a subscriber does to the machine. -/
  informed : X → Subscriber → AgpsRsrcStatus → X
  /-- What the memory of a deleted subscriber reads as. -/
  freed : X → Subscriber
  /-- What goes out is the request that was asked for. -/
  request_eq : ∀ x subs action r, .request r ∈ (sendRsrcRequest x subs action).2.2 → r = action

namespace AgpsMachine

variable {X : Type u}

def hasSubscribers (m : AgpsMachine X) : Bool := !m.subscribers.isEmpty

def hasActiveSubscribers (m : AgpsMachine X) : Bool := m.subscribers.any fun s => s.forMe .active

/-- `addSubscriber()`; the list grows at its head. -/
def addSubscriber (m : AgpsMachine X) (s : Subscriber) : AgpsMachine X :=
  match m.subscribers.find? (Subscriber.equals · s) with
  | some _ => m
  | none => { m with subscribers := s.clone :: m.subscribers }

variable (cls : AgpsClass X)

/-- A subscriber is notified. -/
def notify (m : AgpsMachine X) (s : Subscriber) (status : AgpsRsrcStatus) : AgpsMachine X :=
  { m with ext := cls.informed m.ext s status, outs := m.outs ++ s.report status }

/-- The loop of `notifySubscribers()`: the first subscriber that the notification is for is notified and deleted; it
may be the receiver, which is `gone` then. -/
def notifyLoop (n : Notification) : ℕ → Bool → AgpsMachine X → AgpsMachine X
  | 0, _, m => m
  | k + 1, gone, m =>
    let found : Subscriber → Bool := (Subscriber.notifies · { n with group := n.group.read (cls.freed m.ext) gone })
    match m.subscribers.find? found with
    | none => m
    | some s =>
      notifyLoop n k (gone || n.group.isRcver s)
        (notify cls { m with subscribers := m.subscribers.eraseP found } s n.rsrcStatus)

def notifySubscribers (m : AgpsMachine X) (n : Notification) : AgpsMachine X :=
  if n.postNotifyDelete then notifyLoop cls n m.subscribers.length false m
  else m.subscribers.foldl (fun m s => if s.notifies n then notify cls m s n.rsrcStatus else m) m

def send (m : AgpsMachine X) (action : AGpsStatusValue) : AgpsMachine X :=
  { m with
    ext := (cls.sendRsrcRequest m.ext m.subscribers action).2.1
    outs := m.outs ++ (cls.sendRsrcRequest m.ext m.subscribers action).2.2 }

/-- `setInactive()` of the first subscriber that equals `s`. -/
def setFirst (s : Subscriber) : List Subscriber → List Subscriber
  | [] => []
  | e :: l => if e.equals s then e.setInactive :: l else e :: setFirst s l

/-- The start of `RSRC_UNSUBSCRIBE` in all states but the first: `e` is the first subscriber that equals `s`. -/
def closeSubscriber (m : AgpsMachine X) (s e : Subscriber) : AgpsMachine X :=
  if e.waitForCloseComplete then
    let m' : AgpsMachine X := { m with subscribers := setFirst s m.subscribers }
    -- `DSSubscriber::setInactive()` informs the machine
    if e.kind = .ds then notify cls m' e .unsubscribe else m'
  else notifySubscribers cls m ⟨.rcver e, .unsubscribe, true⟩

/-! ### The states -/

/-- An event for a state; an unsubscription comes with the subscriber from the list. -/
inductive Event
  | subscribe (s : Subscriber)
  | unsubscribe (s e : Subscriber)
  | granted
  | released
  | denied

/-- `AgpsReleasedState::onRsrcEvent()`. -/
def releasedEvent (m : AgpsMachine X) : Event → AgpsMachine X
  | .subscribe s =>
    let m' := m.addSubscriber s
    let ret := (cls.sendRsrcRequest m'.ext m'.subscribers .requestDataConn).1
    { send cls m' .requestDataConn with state := if ret = 0 then .pending else .released }
  | .unsubscribe _ e => notify cls m e .unsubscribe
  | .granted => m
  | .released => m
  | .denied => m

/-- `RSRC_UNSUBSCRIBE` in the pending and in the acquired state. -/
def unsubscribeEvent (m : AgpsMachine X) (s e : Subscriber) : AgpsMachine X :=
  let m' := closeSubscriber cls m s e
  if !m'.hasSubscribers then send cls { m' with state := .released } .releaseDataConn
  else if !m'.hasActiveSubscribers then send cls { m' with state := .releasing } .releaseDataConn
  else m'

/-- `AgpsPendingState::onRsrcEvent()`. -/
def pendingEvent (m : AgpsMachine X) : Event → AgpsMachine X
  | .subscribe s => m.addSubscriber s
  | .unsubscribe s e => unsubscribeEvent cls m s e
  | .granted => { notifySubscribers cls m ⟨.active, .granted, false⟩ with state := .acquired }
  | .released => m
  | .denied => { notifySubscribers cls m ⟨.all, .denied, true⟩ with state := .released }

/-- `AgpsAcquiredState::onRsrcEvent()`. -/
def acquiredEvent (m : AgpsMachine X) : Event → AgpsMachine X
  | .subscribe s => (notify cls m s .granted).addSubscriber s
  | .unsubscribe s e => unsubscribeEvent cls m s e
  | .granted => m
  | .released => { notifySubscribers cls m ⟨.all, .released, true⟩ with state := .released }
  | .denied => m

/-- `RSRC_DENIED` and `RSRC_RELEASED` in the releasing state. -/
def closedEvent (m : AgpsMachine X) (status : AgpsRsrcStatus) : AgpsMachine X :=
  let m' := notifySubscribers cls m ⟨.inactive, status, true⟩
  if m'.hasActiveSubscribers then send cls { m' with state := .pending } .requestDataConn
  else { m' with state := .released }

/-- `AgpsReleasingState::onRsrcEvent()`. -/
def releasingEvent (m : AgpsMachine X) : Event → AgpsMachine X
  | .subscribe s => m.addSubscriber s
  | .unsubscribe s e =>
    let m' := closeSubscriber cls m s e
    if !m'.hasSubscribers then { m' with state := .released } else m'
  | .granted => m
  | .released => closedEvent cls m .released
  | .denied => closedEvent cls m .denied

/-- `onRsrcEvent()` of the state. -/
def onEvent (m : AgpsMachine X) (ev : Event) : AgpsMachine X :=
  match m.state with
  | .released => releasedEvent cls m ev
  | .pending => pendingEvent cls m ev
  | .acquired => acquiredEvent cls m ev
  | .releasing => releasingEvent cls m ev

/-! ### Calls -/

def subscribeRsrc (m : AgpsMachine X) (s : Subscriber) : AgpsMachine X :=
  if m.enforceSingleSubscriber && m.hasSubscribers then notify cls m s .denied
  else onEvent cls m (.subscribe s)

def unsubscribeRsrc (m : AgpsMachine X) (s : Subscriber) : AgpsMachine X :=
  match m.subscribers.find? (Subscriber.equals · s) with
  | none => m
  | some e => onEvent cls m (.unsubscribe s e)

/-- What can happen to a machine. -/
inductive Call
  | subscribe (s : Subscriber)
  | unsubscribe (s : Subscriber)
  | granted
  | released
  | denied

/-- One call, with `AgpsStateMachine::onRsrcEvent()`. -/
def call (m : AgpsMachine X) : Call → AgpsMachine X
  | .subscribe s => subscribeRsrc cls { m with outs := [] } s
  | .unsubscribe s => unsubscribeRsrc cls { m with outs := [] } s
  | .granted => onEvent cls { m with outs := [] } .granted
  | .released => onEvent cls { m with outs := [] } .released
  | .denied => onEvent cls { m with outs := [] } .denied

def new (enforceSingleSubscriber : Bool) (x : X) : AgpsMachine X := ⟨.released, [], enforceSingleSubscriber, x, []⟩

end AgpsMachine

/-- The class `AgpsStateMachine` itself: a request goes out if it fits the subscribers, and 0 is returned.  The
notifications are counted, for what is read after each from memory that was freed. -/
def agpsBase (freed : ℕ → Subscriber) : AgpsClass ℕ where
  sendRsrcRequest x subs action :=
    (0, x, if (subs.find? fun s => s.forMe .active).isNone = decide (action = .releaseDataConn) then
      [.request action] else [])
  informed x _ _ := x + 1
  freed := freed
  request_eq x subs action r h := by
    split at h
    · exact AgpsOut.request.inj (List.mem_singleton.1 h)
    · exact absurd h List.not_mem_nil

/-! ### The machine for emergency calls -/

/-- The data of a `DSStateMachine`. -/
structure DsData where
  mRetries : UInt8
  /-- The number of retry timers that run. -/
  timers : ℕ
  /-- What `openAndStartDataCall()` returns next. -/
  dataCall : ℤ
  /-- Whether `loc_timer_start()` gives a handle next. -/
  timerStarts : Bool
deriving DecidableEq

namespace DsData

/-- `informStatus()`, as far as the machine goes. -/
def informStatus (x : DsData) (status : AgpsRsrcStatus) : DsData :=
  if status = .denied then { x with mRetries := 0 } else x

/-- The subscriber that `informStatus()` is called for, by its ID. -/
def subscriber (ID : UInt32) : Subscriber := ⟨.ds, ID, [], false⟩

/-- A fall back to normal SUPL. -/
def fallBack (x : DsData) (ret : ℤ) (action : AGpsStatusValue) (connHandle : UInt32) : ℤ × DsData × List AgpsOut :=
  (ret, x.informStatus .denied, [.request action, .notify (subscriber connHandle) .denied])

/-- `dataCallCb()`: only the request to start returns a failure. -/
def dataCallCb (x : DsData) : AGpsStatusValue → ℤ
  | .requestDataConn => x.dataCall
  | .releaseDataConn => 0

def MAX_START_DATA_CALL_RETRIES : UInt8 := 4

def incRetries (x : DsData) : DsData := { x with mRetries := x.mRetries + 1 }

/-- `LOC_API_ADAPTER_ERR_ENGINE_BUSY`, after `incRetries()`. -/
def engineBusy (x : DsData) (action : AGpsStatusValue) (connHandle : UInt32) : ℤ × DsData × List AgpsOut :=
  if x.mRetries > MAX_START_DATA_CALL_RETRIES then x.fallBack 6 action connHandle
  -- the handle of the timer is taken for an error
  else if x.timerStarts then (-1, { x with timers := x.timers + 1 }, [.request action])
  else (6, x, [.request action])

/-- `DSStateMachine::sendRsrcRequest()`; 6 is `LOC_API_ADAPTER_ERR_ENGINE_BUSY`, 2 is
`LOC_API_ADAPTER_ERR_UNSUPPORTED`. -/
def sendRsrcRequest (x : DsData) (subs : List Subscriber) (action : AGpsStatusValue) : ℤ × DsData × List AgpsOut :=
  let connHandle := ((subs.find? fun s => s.forMe .active).map Subscriber.ID).getD 0xffffffff
  let ret := x.dataCallCb action
  if ret = 6 then x.incRetries.engineBusy action connHandle
  else if ret = 2 ∨ ret = -1 then x.fallBack ret action connHandle
  else (ret, x, [.request action])

theorem request_of_mem {x : DsData} {subs : List Subscriber} {action r : AGpsStatusValue}
    (h : .request r ∈ (x.sendRsrcRequest subs action).2.2) : r = action := by
  rw [sendRsrcRequest] at h
  split at h
  · rw [engineBusy] at h
    split at h
    · simpa [fallBack] using h
    · split at h <;> simpa using h
  · split at h
    · simpa [fallBack] using h
    · simpa using h

end DsData

/-- The class `DSStateMachine`.  A `DSSubscriber` waits for the close, so the receiver of a notification is not
deleted. -/
def agpsDs : AgpsClass DsData where
  sendRsrcRequest := DsData.sendRsrcRequest
  informed x s status := if s.kind = .ds then x.informStatus status else x
  freed _ := DsData.subscriber 0xffffffff
  request_eq _ _ _ _ := DsData.request_of_mem

end G4Common.Gps

/-
The timers of `gps/utils/LocTimer.cpp`: `LocTimer`, `LocTimerDelegate`, `LocTimerContainer` and
`LocTimerPollTask`.

Three kinds of threads take turns.  Client threads call `start()` and `stop()`, under the lock of their timer.
The poll thread waits for the two timerfds and runs `LocTimerContainer::expire()`.  The message thread works off
one queue of messages and owns the heaps.  A step is one access of a thread to what it shares with the others:
a system call, a reading of the clock, a message that is sent, a pointer that is read, a lock that is taken.

`start()` and `stop()` are two steps each, so that another thread can be seen waiting for the lock: the first
one takes the lock (and reads the clock, or takes the timer out), the second one sends the message and releases
the lock.  The step of a thread that has to wait changes nothing.

The two containers are told apart by `wakeOnExpire`.  Seconds are compared without overflow: the times in a heap
are not more than an `int` of seconds apart.
-/
import G4Common.Gps.LocHeap
import G4Common.Lib.Broadcast
import Mathlib.Algebra.Order.Ring.Int
import Mathlib.Logic.Function.Basic

namespace G4Common.Gps

universe u

/-! ### Times -/

/-- A reading of the clock, which runs since the boot: a normalised `struct timespec`, never zero. -/
structure Timespec where
  tvSec : ℕ
  tvNsec : ℕ
  nsec_lt : tvNsec < 1000000000
  ne_zero : tvSec ≠ 0 ∨ tvNsec ≠ 0
deriving DecidableEq

namespace Timespec

def ns (t : Timespec) : ℕ := t.tvSec * 1000000000 + t.tvNsec

/-- The clock, some nanoseconds later. -/
def later (t : Timespec) (n : ℕ) : Timespec where
  tvSec := (t.ns + n) / 1000000000
  tvNsec := (t.ns + n) % 1000000000
  nsec_lt := Nat.mod_lt _ (by omega)
  ne_zero := by
    have := t.ne_zero
    simp only [ns]
    omega

theorem ns_later (t : Timespec) (n : ℕ) : (t.later n).ns = t.ns + n := by
  show (t.ns + n) / 1000000000 * 1000000000 + (t.ns + n) % 1000000000 = t.ns + n
  omega

end Timespec

/-- `futureTime` in `LocTimer::start()`. -/
def futureTime (now : Timespec) (timeOutInMs : ℕ) : Timespec :=
  have := now.nsec_lt
  have := now.ne_zero
  if h : 1000000000 ≤ now.tvNsec + timeOutInMs % 1000 * 1000000 then
    { tvSec := now.tvSec + timeOutInMs / 1000 + (now.tvNsec + timeOutInMs % 1000 * 1000000) / 1000000000
      tvNsec := (now.tvNsec + timeOutInMs % 1000 * 1000000) % 1000000000
      nsec_lt := by omega
      ne_zero := by omega }
  else
    { tvSec := now.tvSec + timeOutInMs / 1000
      tvNsec := now.tvNsec + timeOutInMs % 1000 * 1000000
      nsec_lt := by omega
      ne_zero := by omega }

/-! ### `LocTimerDelegate` -/

/-- What does not change in a `LocTimerDelegate`; `addr` is its address. -/
structure LocTimerDelegate where
  addr : ℕ
  mFutureTime : Timespec
deriving DecidableEq

/-- `LocTimerDelegate::ranks()`: a larger time ranks lower. -/
def ranks (x y : LocTimerDelegate) : ℤ :=
  let rank : ℤ := y.mFutureTime.tvSec - x.mFutureTime.tvSec
  if rank = 0 then y.mFutureTime.tvNsec - x.mFutureTime.tvNsec else rank

theorem ranks_pos_iff (x y : LocTimerDelegate) : 0 < ranks x y ↔ x.mFutureTime.ns < y.mFutureTime.ns := by
  have hx := x.mFutureTime.nsec_lt
  have hy := y.mFutureTime.nsec_lt
  rw [ranks]
  simp only [Timespec.ns]
  split <;> omega

/-- The delegates are ranked by their times. -/
def timerRanking : Ranking LocTimerDelegate ℤ where
  ranks := ranks
  key x := -x.mFutureTime.ns
  ranks_pos x y := by
    rw [ranks_pos_iff]
    omega

/-! ### The state -/

/-- The messages of the message thread. -/
inductive TimerMsg
  | push (c : Bool) (timer : LocTimerDelegate)
  | remove (c : Bool) (timer : LocTimerDelegate)
  | expire (c : Bool)
deriving DecidableEq

/-- The system calls on the timerfd of a container.  The time of `timerfd_settime()` is `none` if it is zero,
which disarms the timer. -/
inductive SysCall
  | addPoll
  | removePoll
  | setTime (value : Option Timespec)
deriving DecidableEq

/-- Where the poll thread is in `LocTimerContainer::expire()`. -/
inductive ExpireStage
  | setTime
  | removePoll
  | sendMsg
deriving DecidableEq

/-- Who holds the lock of a `LocTimer`: nobody, a client in `start()` or in `stop()`, or the message thread. -/
inductive LockHolder
  | free
  | start (future : Timespec) (wakeOnExpire : Bool)
  | stop (timer : LocTimerDelegate)
  | expire
deriving DecidableEq

/-- Where the message thread is: between two messages; at the system calls of `updateSoonestTime()`; or in an
expire message, at the pop of the loop, with a client whose `stop()` it calls, in that `stop()` with the timer
it has taken out, or at the callback. -/
inductive MsgPc (L : Type u)
  | idle
  | calls (c : Bool) (l : List SysCall)
  | popping (c : Bool) (now : Timespec) (first : Bool)
  | stopping (c : Bool) (now : Timespec) (timer : LocTimerDelegate) (client : L)
  | removing (c : Bool) (now : Timespec) (client : L) (stopped : LocTimerDelegate)
  | callback (c : Bool) (now : Timespec) (client : L) (stopped : LocTimerDelegate)

/-- A call of `timeOutCallback()`: for which start, when, and whether the client's own `stop()` had returned
true since that client's last `start()`. -/
structure Callback (L : Type u) where
  client : L
  timer : LocTimerDelegate
  time : Timespec
  afterStop : Bool

structure TimerState (L : Type u) where
  now : Timespec
  /-- `LocTimer::mTimer`. -/
  mTimer : L → Option LocTimerDelegate
  mLock : L → LockHolder
  mClient : LocTimerDelegate → Option L
  mContainer : LocTimerDelegate → Option Bool
  nextAddr : ℕ
  msgQ : List TimerMsg
  mTree : Bool → RankTree LocTimerDelegate
  /-- What the timerfds are armed with. -/
  armed : Bool → Option Timespec
  /-- Whether the timerfds are polled. -/
  polled : Bool → Bool
  /-- The events of `epoll_wait()` that the poll thread has not handled; it is in `expire()` of the first. -/
  events : List Bool
  stage : ExpireStage
  msgTask : MsgPc L
  /-- Whether `stop()` of a client has returned true since its last `start()`. -/
  stopped : L → Bool
  callbacks : List (Callback L)

def initialTimers (L : Type u) (boot : Timespec) : TimerState L where
  now := boot
  mTimer _ := none
  mLock _ := .free
  mClient _ := none
  mContainer _ := none
  nextAddr := 0
  msgQ := []
  mTree _ := .null
  armed _ := none
  polled _ := false
  events := []
  stage := .setTime
  msgTask := .idle
  stopped _ := false
  callbacks := []

/-! ### `LocTimerContainer` -/

/-- `updateSoonestTime()`: the system calls it makes. -/
def updateSoonestTime (t : RankTree LocTimerDelegate) (priorTop : Option LocTimerDelegate) : List SysCall :=
  if locHeapPeek t = priorTop then []
  else
    match locHeapPeek t with
    | none => [.removePoll, .setTime none]
    | some curTop =>
      if priorTop.all (outRanks ranks curTop) then [.addPoll, .setTime (some curTop.mFutureTime)] else []

/-- `popIfOutRanks(timerOfNow)`. -/
def popIfOutRanks (now : Timespec) (t : RankTree LocTimerDelegate) :
    Option LocTimerDelegate × RankTree LocTimerDelegate :=
  match locHeapPeek t with
  | none => (none, t)
  | some top => if outRanks ranks ⟨0, now⟩ top then (none, t) else locHeapPop ranks t

/-- The next timer in the loop of `MsgTimerExpire::proc()`; the first `pop()` is unconditional. -/
def popNext (first : Bool) (now : Timespec) (t : RankTree LocTimerDelegate) :
    Option LocTimerDelegate × RankTree LocTimerDelegate :=
  if first then locHeapPop ranks t else popIfOutRanks now t

section Heap

open RankTree

variable {t : RankTree LocTimerDelegate}

section

variable (ht : HeapOk timerRanking t)
include ht

theorem locHeapPop_peek : (locHeapPop ranks t).1 = locHeapPeek t :=
  ht.priorityQueue.pop_eq_peek

theorem heapOk_locHeapPop : HeapOk timerRanking (locHeapPop ranks t).2 :=
  (heapOp_ok ht .pop).1

theorem heapOk_popNext (first : Bool) (now : Timespec) : HeapOk timerRanking (popNext first now t).2 := by
  rw [popNext]
  split
  · exact heapOk_locHeapPop ht
  rw [popIfOutRanks]
  split
  · exact ht
  · split
    · exact ht
    · exact heapOk_locHeapPop ht

theorem due_of_popNext {now : Timespec} {d : LocTimerDelegate}
    (h : (popNext false now t).1 = some d) : d.mFutureTime.ns ≤ now.ns := by
  have hpop : popNext false now t = popIfOutRanks now t := rfl
  rw [hpop, popIfOutRanks] at h
  split at h
  · cases h
  rename_i top htop
  split at h
  · cases h
  rename_i hrank
  rw [locHeapPop_peek ht, htop] at h
  obtain rfl : top = d := Option.some.inj h
  rw [outRanks_eq_true, ranks_pos_iff] at hrank
  exact not_lt.1 hrank

end

end Heap

/-- The message thread makes the calls that are left, or takes the next message. -/
def makeCalls {L : Type u} (c : Bool) : List SysCall → MsgPc L
  | [] => .idle
  | call :: l => .calls c (call :: l)

section Steps

variable {L : Type u}

def TimerState.sysCall (st : TimerState L) (c : Bool) : SysCall → TimerState L
  | .addPoll => { st with polled := Function.update st.polled c true }
  | .removePoll => { st with polled := Function.update st.polled c false }
  | .setTime value => { st with armed := Function.update st.armed c value }

/-- `proc()` of a message, up to its first system call. -/
def procMsg (st : TimerState L) : TimerMsg → TimerState L
  | .push c timer =>
    let t := locHeapPush ranks (st.mTree c) timer
    { st with
      mTree := Function.update st.mTree c t
      msgTask := makeCalls c (updateSoonestTime t (locHeapPeek (st.mTree c))) }
  | .remove c timer =>
    let res := locHeapRemove ranks (st.mTree c) timer
    { st with
      mTree := Function.update st.mTree c res.2
      msgTask := if locHeapPeek (st.mTree c) = res.1 then makeCalls c (updateSoonestTime res.2 none) else .idle }
  | .expire c => { st with msgTask := .popping c st.now true }

/-- One step of `LocTimerPollTask::run()` after `epoll_wait()`: the next call of `expire()`. -/
def pollStep (st : TimerState L) : TimerState L :=
  match st.events with
  | [] => st
  | c :: rest =>
    match st.stage with
    | .setTime => { st.sysCall c (.setTime none) with stage := .removePoll }
    | .removePoll => { st.sysCall c .removePoll with stage := .sendMsg }
    | .sendMsg => { st with msgQ := st.msgQ ++ [.expire c], events := rest, stage := .setTime }

/-- Whether `epoll_wait()` returns the timerfd. -/
def TimerState.ready (st : TimerState L) (c : Bool) : Bool :=
  st.polled c && (st.armed c).any fun t => t.ns ≤ st.now.ns

/-- `destroyLocked()` from where it sends the message. -/
def sendRemove (st : TimerState L) (timer : LocTimerDelegate) : TimerState L :=
  match st.mContainer timer with
  | none => st
  | some c =>
    { st with
      mContainer := Function.update st.mContainer timer none
      msgQ := st.msgQ ++ [.remove c timer] }

theorem sendRemove_eq (st : TimerState L) (timer : LocTimerDelegate) :
    ∃ k q, sendRemove st timer = { st with mContainer := k, msgQ := st.msgQ ++ q } := by
  rw [sendRemove]
  split
  · refine ⟨st.mContainer, [], ?_⟩
    rw [List.append_nil]
  · exact ⟨_, _, rfl⟩

variable [DecidableEq L]

/-- `stop()` up to where `destroyLocked()` has reset `mClient`. -/
def takeTimer (st : TimerState L) (client : L) (timer : LocTimerDelegate) (holder : LockHolder) : TimerState L :=
  { st with
    mLock := Function.update st.mLock client holder
    mTimer := Function.update st.mTimer client none
    mClient := Function.update st.mClient timer none }

/-- One step of the message thread. -/
def msgStep (st : TimerState L) : TimerState L :=
  match st.msgTask with
  | .idle =>
    match st.msgQ with
    | [] => st
    | msg :: q => procMsg { st with msgQ := q } msg
  | .calls _ [] => { st with msgTask := .idle }
  | .calls c (call :: l) => { st.sysCall c call with msgTask := makeCalls c l }
  | .popping c now first =>
    let res := popNext first now (st.mTree c)
    let st' := { st with mTree := Function.update st.mTree c res.2 }
    match res.1 with
    | none => { st' with msgTask := makeCalls c (updateSoonestTime res.2 none) }
    | some timer =>
      -- `LocTimerDelegate::expire()` reads `mClient` without the lock
      match st.mClient timer with
      | none => { st' with msgTask := .popping c now false }
      | some client => { st' with msgTask := .stopping c now timer client }
  | .stopping c now _ client =>
    if st.mLock client = .free then
      match st.mTimer client with
      | none => { st with msgTask := .popping c now false }
      | some timer => { takeTimer st client timer .expire with msgTask := .removing c now client timer }
    else st
  | .removing c now client timer =>
    { sendRemove st timer with
      mLock := Function.update st.mLock client .free
      msgTask := .callback c now client timer }
  | .callback c now client timer =>
    { st with
      callbacks := ⟨client, timer, st.now, st.stopped client⟩ :: st.callbacks
      msgTask := .popping c now false }

/-! ### `LocTimer` -/

/-- `start()` up to where it has computed the time. -/
def startStep (st : TimerState L) (client : L) (timeOutInMs : ℕ) (wakeOnExpire : Bool) : TimerState L :=
  if st.mLock client = .free ∧ st.mTimer client = none then
    { st with
      mLock := Function.update st.mLock client (.start (futureTime st.now timeOutInMs) wakeOnExpire)
      stopped := Function.update st.stopped client false }
  else st

/-- `stop()` up to where it sends the message. -/
def stopStep (st : TimerState L) (client : L) : TimerState L :=
  if st.mLock client = .free then
    match st.mTimer client with
    | none => st
    | some timer => takeTimer st client timer (.stop timer)
  else st

/-- The rest of `start()` or `stop()`. -/
def finishStep (st : TimerState L) (client : L) : TimerState L :=
  match st.mLock client with
  | .start future wakeOnExpire =>
    let timer : LocTimerDelegate := ⟨st.nextAddr, future⟩
    { st with
      mLock := Function.update st.mLock client .free
      mTimer := Function.update st.mTimer client (some timer)
      mClient := Function.update st.mClient timer (some client)
      mContainer := Function.update st.mContainer timer (some wakeOnExpire)
      nextAddr := st.nextAddr + 1
      msgQ := st.msgQ ++ [.push wakeOnExpire timer] }
  | .stop timer =>
    { sendRemove st timer with
      mLock := Function.update st.mLock client .free
      stopped := Function.update st.stopped client true }
  | _ => st

/-! ### Runs -/

/-- What can happen next. -/
inductive TimerAction (L : Type u)
  | tick (n : ℕ)
  | start (client : L) (timeOutInMs : ℕ) (wakeOnExpire : Bool)
  | stop (client : L)
  | finish (client : L)
  | wake (events : List Bool)
  | poll
  | msg

def timerStep (st : TimerState L) : TimerAction L → TimerState L
  | .tick n => { st with now := st.now.later n }
  | .start client timeOutInMs wakeOnExpire => startStep st client timeOutInMs wakeOnExpire
  | .stop client => stopStep st client
  | .finish client => finishStep st client
  | .wake events =>
    if st.events = [] ∧ events.Nodup ∧ ∀ c ∈ events, st.ready c = true then { st with events := events } else st
  | .poll => pollStep st
  | .msg => msgStep st

/-- The state after some steps. -/
def timerRun (boot : Timespec) (acts : List (TimerAction L)) : TimerState L :=
  acts.foldl timerStep (initialTimers L boot)

end Steps

end G4Common.Gps

/-
Each start ends once.

A `start()` that returns true ends in one of two ways: a `stop()` of the client returns true, or the message thread
has stopped the timer and makes the callback.  The three threads hand the delegate over: from `mTimer` to the
`stop()` that has taken it out, and from there to the message that deletes it.  At any time one place holds it
(`TimerPlace`), and it is held as long as its `mContainer` is set.

Main result: `locTimer_each_start_ends_once`.
-/
import G4Common.Gps.LocTimer
import G4Common.Lib.SlotPool

namespace G4Common.Gps

open Broadcast Function Bool List

universe u

variable {L : Type u}

/-! ### Who holds a delegate -/

/-- Where a delegate can be: in `mTimer`, in a `stop()` of the client, or in one of the message thread. -/
inductive TimerPlace (L : Type u)
  | timer (client : L)
  | lock (client : L)
  | msg
deriving DecidableEq

/-- The delegate that a `stop()` has taken out. -/
def LockHolder.taken : LockHolder → Option LocTimerDelegate
  | .stop timer => some timer
  | _ => none

/-- The delegate that the message thread has taken out. -/
def MsgPc.taken : MsgPc L → Option LocTimerDelegate
  | .removing _ _ _ timer => some timer
  | _ => none

def TimerState.holds (st : TimerState L) : TimerPlace L → Option LocTimerDelegate
  | .timer client => st.mTimer client
  | .lock client => (st.mLock client).taken
  | .msg => st.msgTask.taken

/-- The delegate has not been removed. -/
def TimerState.alive (st : TimerState L) (timer : LocTimerDelegate) : Prop := (st.mContainer timer).isSome = true

/-- What holds in every state. -/
structure HandedOver (st : TimerState L) : Prop where
  owns : Owns st.holds st.alive
  fresh : ∀ timer, st.alive timer → timer.addr < st.nextAddr
  starting : ∀ client future wakeOnExpire, st.mLock client = .start future wakeOnExpire → st.mTimer client = none
  removing : ∀ c now client timer, st.msgTask = .removing c now client timer → st.mLock client = .expire

theorem handedOver_initial (boot : Timespec) : HandedOver (initialTimers L boot) where
  owns := by
    refine ⟨⟨?_, ?_⟩, ?_⟩
    · rintro (client | client | _) timer h
      · cases h
      · cases h
      · cases h
    · rintro (client | client | _) y timer h
      · cases h
      · cases h
      · cases h
    · intro timer h
      cases h
  fresh := by
    intro timer h
    cases h
  starting := by
    intro client _ _ h
    cases h
  removing := by
    intro c _ _ _ h
    cases h

variable {st st' : TimerState L}

theorem MsgPc.taken_makeCalls (c : Bool) (l : List SysCall) : (makeCalls c l : MsgPc L).taken = none := by
  cases l with
  | nil | cons => rfl

theorem HandedOver.frame (h : HandedOver st) (htimer : st'.mTimer = st.mTimer) (hlock : st'.mLock = st.mLock)
    (hcont : st'.mContainer = st.mContainer) (haddr : st'.nextAddr = st.nextAddr)
    (htaken : st'.msgTask.taken = st.msgTask.taken)
    (hremoving : ∀ c now client timer, st'.msgTask = .removing c now client timer → st'.msgTask = st.msgTask) :
    HandedOver st' := by
  have hholds : st'.holds = st.holds := by
    funext p
    cases p with
    | timer client => exact congrFun htimer client
    | lock client => exact congrArg LockHolder.taken (congrFun hlock client)
    | msg => exact htaken
  have halive : st'.alive = st.alive := by
    funext timer
    rw [TimerState.alive, TimerState.alive, hcont]
  refine ⟨?_, ?_, ?_, ?_⟩
  · rw [hholds, halive]
    exact h.owns
  · rw [halive, haddr]
    exact h.fresh
  · rw [hlock, htimer]
    exact h.starting
  intro c now client timer hpc
  rw [hlock]
  rw [hremoving c now client timer hpc] at hpc
  exact h.removing c now client timer hpc

/-! ### Taking out and removing -/

theorem alive_sendRemove (st : TimerState L) (timer timer' : LocTimerDelegate) :
    (sendRemove st timer).alive timer' ↔ st.alive timer' ∧ timer' ≠ timer := by
  rw [sendRemove, TimerState.alive, TimerState.alive]
  cases hcont : st.mContainer timer with
  | none =>
    constructor
    · intro halive
      refine ⟨halive, ?_⟩
      rintro rfl
      rw [hcont] at halive
      cases halive
    · exact fun h => h.1
  | some =>
    show (update st.mContainer timer none timer').isSome = true ↔ _
    rcases eq_or_ne timer' timer with rfl | heq
    · rw [update_self]
      constructor
      · intro hnone
        cases hnone
      · exact fun h => absurd rfl h.2
    · rw [update_of_ne heq]
      exact ⟨fun halive => ⟨halive, heq⟩, fun h => h.1⟩

variable [DecidableEq L] {client : L} {timer : LocTimerDelegate}

theorem removing_of_update (h : HandedOver st) {holder : LockHolder} (hne : st.mLock client ≠ .expire) (c : Bool)
    (now : Timespec) (client' : L) (timer' : LocTimerDelegate) (hpc : st.msgTask = .removing c now client' timer') :
    update st.mLock client holder client' = .expire := by
  have hlock := h.removing c now client' timer' hpc
  have hc : client' ≠ client := by
    rintro rfl
    exact hne hlock
  rw [update_of_ne hc]
  exact hlock

theorem holds_takeTimer_stop (st : TimerState L) :
    (takeTimer st client timer (.stop timer)).holds =
      update (update st.holds (.timer client) none) (.lock client) (some timer) := by
  funext p
  cases p with
  | timer client' =>
    rcases eq_or_ne client' client with rfl | hc
    · rw [update_of_ne (by simp), update_self]
      exact update_self _ _ _
    · rw [update_of_ne (by simp), update_of_ne (by simpa using hc)]
      exact update_of_ne hc _ _
  | lock client' =>
    show (update st.mLock client (.stop timer) client').taken = _
    rcases eq_or_ne client' client with rfl | hc
    · rw [update_self, update_self]
      rfl
    · rw [update_of_ne hc, update_of_ne (by simpa using hc), update_of_ne (by simp)]
      rfl
  | msg =>
    rw [update_of_ne (by simp), update_of_ne (by simp)]
    rfl

theorem handedOver_startStep (h : HandedOver st) (client : L) (timeOutInMs : ℕ) (wakeOnExpire : Bool) :
    HandedOver (startStep st client timeOutInMs wakeOnExpire) := by
  rw [startStep]
  split_ifs with hfree
  · set st' : TimerState L := { st with
      mLock := update st.mLock client (.start (futureTime st.now timeOutInMs) wakeOnExpire)
      stopped := update st.stopped client false } with hst'
    have hholds : st'.holds = st.holds := by
      funext p
      cases p with
      | timer => rfl
      | lock client' =>
        show (update st.mLock client _ client').taken = (st.mLock client').taken
        rcases eq_or_ne client' client with rfl | hc
        · rw [update_self, hfree.1]
          rfl
        · rw [update_of_ne hc]
      | msg => rfl
    refine ⟨?_, h.fresh, ?_, ?_⟩
    · rw [hholds]
      exact h.owns
    · intro client' future wake hstart
      rcases eq_or_ne client' client with rfl | hc
      · exact hfree.2
      · have hstart' : update st.mLock client _ client' = .start future wake := hstart
        rw [update_of_ne hc] at hstart'
        exact h.starting client' future wake hstart'
    · exact removing_of_update h (by rw [hfree.1]; simp)
  · exact h

theorem starting_takeTimer (h : HandedOver st) (timer : LocTimerDelegate) {holder : LockHolder}
    (hholder : ∀ future wakeOnExpire, holder ≠ .start future wakeOnExpire) (client' : L) (future : Timespec)
    (wakeOnExpire : Bool) (hstart : (takeTimer st client timer holder).mLock client' = .start future wakeOnExpire) :
    (takeTimer st client timer holder).mTimer client' = none := by
  have hstart' : update st.mLock client holder client' = .start future wakeOnExpire := hstart
  have hc : client' ≠ client := by
    rintro rfl
    rw [update_self] at hstart'
    exact hholder future wakeOnExpire hstart'
  rw [update_of_ne hc] at hstart'
  show update st.mTimer client none client' = none
  rw [update_of_ne hc]
  exact h.starting client' future wakeOnExpire hstart'

theorem handedOver_stopStep (h : HandedOver st) (client : L) : HandedOver (stopStep st client) := by
  rw [stopStep]
  split_ifs with hfree
  · split
    · exact h
    rename_i timer htimer
    refine ⟨?_, h.fresh, ?_, ?_⟩
    · rw [holds_takeTimer_stop]
      refine h.owns.move htimer ?_
      show (st.mLock client).taken = none
      rw [hfree]
      rfl
    · exact starting_takeTimer h timer nofun
    · exact removing_of_update h (by rw [hfree]; simp)
  · exact h

theorem starting_release (h : HandedOver st) {client' : L} {future : Timespec} {wakeOnExpire : Bool}
    (hstart : update st.mLock client .free client' = .start future wakeOnExpire) :
    client' ≠ client ∧ st.mTimer client' = none := by
  have hc : client' ≠ client := by
    rintro rfl
    rw [update_self] at hstart
    cases hstart
  rw [update_of_ne hc] at hstart
  exact ⟨hc, h.starting client' future wakeOnExpire hstart⟩

theorem taken_release (st : TimerState L) (client client' : L) :
    (update st.mLock client .free client').taken =
      update st.holds (.lock client) none (.lock client') := by
  rcases eq_or_ne client' client with rfl | hc
  · rw [update_self, update_self]
    rfl
  · rw [update_of_ne hc, update_of_ne (by simpa using hc)]
    rfl

theorem handedOver_released (h : HandedOver st) (hstop : st.mLock client = .stop timer)
    (htimer : st'.mTimer = st.mTimer) (hlock : st'.mLock = update st.mLock client .free)
    (haddr : st'.nextAddr = st.nextAddr) (hpc : st'.msgTask = st.msgTask)
    (halive : ∀ timer', st'.alive timer' ↔ st.alive timer' ∧ timer' ≠ timer) : HandedOver st' := by
  have hholds : st'.holds = update st.holds (.lock client) none := by
    funext p
    cases p with
    | timer client' =>
      rw [update_of_ne (by simp)]
      exact congrFun htimer client'
    | lock =>
      rw [← taken_release, ← hlock]
      rfl
    | msg =>
      rw [update_of_ne (by simp)]
      exact congrArg MsgPc.taken hpc
  refine ⟨?_, ?_, ?_, ?_⟩
  · rw [hholds]
    exact h.owns.drop (congrArg LockHolder.taken hstop) halive
  · intro timer' hal
    rw [haddr]
    exact h.fresh timer' ((halive timer').1 hal).1
  · intro client' _ _ hstart
    rw [hlock] at hstart
    rw [htimer]
    exact (starting_release h hstart).2
  intro c now client' timer' hrem
  rw [hpc] at hrem
  rw [hlock]
  exact removing_of_update h (by rw [hstop]; simp) c now client' timer' hrem

theorem handedOver_finishStep (h : HandedOver st) (client : L) : HandedOver (finishStep st client) := by
  rw [finishStep]
  split
  · rename_i future wakeOnExpire hstart
    simp only
    set timer : LocTimerDelegate := ⟨st.nextAddr, future⟩ with htimer
    set st' : TimerState L := { st with
      mLock := update st.mLock client .free
      mTimer := update st.mTimer client (some timer)
      mClient := update st.mClient timer (some client)
      mContainer := update st.mContainer timer (some wakeOnExpire)
      nextAddr := st.nextAddr + 1
      msgQ := st.msgQ ++ [.push wakeOnExpire timer] } with hst'
    have hholds : st'.holds = update st.holds (.timer client) (some timer) := by
      funext p
      cases p with
      | timer client' =>
        show update st.mTimer client (some timer) client' = _
        rcases eq_or_ne client' client with rfl | hc
        · rw [update_self, update_self]
        · rw [update_of_ne hc, update_of_ne (by simpa using hc)]
          rfl
      | lock client' =>
        rw [update_of_ne (by simp)]
        show (update st.mLock client .free client').taken = (st.mLock client').taken
        rcases eq_or_ne client' client with rfl | hc
        · rw [update_self, hstart]
          rfl
        · rw [update_of_ne hc]
      | msg =>
        rw [update_of_ne (by simp)]
        rfl
    have halive : ∀ timer', st'.alive timer' ↔ st.alive timer' ∨ timer' = timer := by
      intro timer'
      show (update st.mContainer timer (some wakeOnExpire) timer').isSome = true ↔ _
      by_cases heq : timer' = timer
      · rw [heq, update_self]
        exact ⟨fun _ => Or.inr rfl, fun _ => rfl⟩
      · rw [update_of_ne heq]
        exact ⟨Or.inl, fun h => h.resolve_right heq⟩
    -- the address is new
    have hnew : ¬st.alive timer := fun hold => absurd (h.fresh timer hold) (lt_irrefl _)
    refine ⟨?_, ?_, ?_, ?_⟩
    · rw [hholds]
      exact h.owns.give hnew (h.starting client future wakeOnExpire hstart) halive
    · intro timer' hal
      rcases (halive timer').1 hal with hold | rfl
      · exact Nat.lt_succ_of_lt (h.fresh timer' hold)
      · exact Nat.lt_succ_self _
    · intro client' _ _ hstart'
      obtain ⟨hc, hnone⟩ := starting_release h hstart'
      show update st.mTimer client _ client' = none
      rw [update_of_ne hc]
      exact hnone
    · exact removing_of_update h (by rw [hstart]; simp)
  · rename_i timer hstop
    have halive := alive_sendRemove st timer
    obtain ⟨k, q, hsend⟩ := sendRemove_eq st timer
    rw [hsend] at halive ⊢
    exact handedOver_released h hstop rfl rfl rfl rfl halive
  · exact h

/-! ### The message thread -/

theorem holds_takeTimer_expire (hfree : st.mLock client = .free) {c : Bool} {now : Timespec} :
    TimerState.holds { takeTimer st client timer .expire with msgTask := .removing c now client timer } =
      update (update st.holds (.timer client) none) .msg (some timer) := by
  funext p
  cases p with
  | timer client' =>
    rcases eq_or_ne client' client with rfl | hc
    · rw [update_of_ne (by simp), update_self]
      exact update_self _ _ _
    · rw [update_of_ne (by simp), update_of_ne (by simpa using hc)]
      exact update_of_ne hc _ _
  | lock client' =>
    rw [update_of_ne (by simp), update_of_ne (by simp)]
    show (update st.mLock client .expire client').taken = (st.mLock client').taken
    rcases eq_or_ne client' client with rfl | hc
    · rw [update_self, hfree]
      rfl
    · rw [update_of_ne hc]
  | msg =>
    rw [update_self]
    rfl

theorem handedOver_removed {c : Bool} {now : Timespec} (h : HandedOver st)
    (hrem : st.msgTask = .removing c now client timer) (htimer : st'.mTimer = st.mTimer)
    (hlock : st'.mLock = update st.mLock client .free) (haddr : st'.nextAddr = st.nextAddr)
    (hpc : st'.msgTask = .callback c now client timer)
    (halive : ∀ timer', st'.alive timer' ↔ st.alive timer' ∧ timer' ≠ timer) : HandedOver st' := by
  have hexp := h.removing c now client timer hrem
  have hholds : st'.holds = update st.holds .msg none := by
    funext p
    cases p with
    | timer client' =>
      rw [update_of_ne (by simp)]
      exact congrFun htimer client'
    | lock client' =>
      rw [update_of_ne (by simp)]
      show (st'.mLock client').taken = (st.mLock client').taken
      rw [hlock]
      rcases eq_or_ne client' client with rfl | hc
      · rw [update_self, hexp]
        rfl
      · rw [update_of_ne hc]
    | msg =>
      rw [update_self]
      show st'.msgTask.taken = none
      rw [hpc]
      rfl
  refine ⟨?_, ?_, ?_, ?_⟩
  · rw [hholds]
    exact h.owns.drop (congrArg MsgPc.taken hrem) halive
  · intro timer' hal
    rw [haddr]
    exact h.fresh timer' ((halive timer').1 hal).1
  · intro client' _ _ hstart
    rw [hlock] at hstart
    rw [htimer]
    exact (starting_release h hstart).2
  · intro _ _ _ _ hrem'
    rw [hpc] at hrem'
    cases hrem'

theorem handedOver_msgStep (h : HandedOver st) : HandedOver (msgStep st) := by
  rw [msgStep]
  -- a step that leaves the thread outside of a `stop()`
  have hmove : ∀ st' : TimerState L, st.msgTask.taken = none → st'.msgTask.taken = none →
      st'.mTimer = st.mTimer → st'.mLock = st.mLock → st'.mContainer = st.mContainer →
      st'.nextAddr = st.nextAddr → HandedOver st' := by
    intro _ hold hnew htimer hlock hcont haddr
    refine h.frame htimer hlock hcont haddr (hnew.trans hold.symm) ?_
    intro c now client timer hrem
    rw [hrem] at hnew
    cases hnew
  split
  · rename_i hidle
    have hold : st.msgTask.taken = none := by
      rw [hidle]
      rfl
    split
    · exact h
    rename_i m q hq
    cases m with
    | push => exact hmove _ hold (MsgPc.taken_makeCalls _ _) rfl rfl rfl rfl
    | remove =>
      refine hmove _ hold ?_ rfl rfl rfl rfl
      show (if _ then _ else _ : MsgPc L).taken = none
      split
      · exact MsgPc.taken_makeCalls _ _
      · rfl
    | expire => exact hmove _ hold rfl rfl rfl rfl rfl
  · rename_i c hpc
    refine hmove _ ?_ rfl rfl rfl rfl rfl
    rw [hpc]
    rfl
  · rename_i c call l hpc
    have hold : st.msgTask.taken = none := by
      rw [hpc]
      rfl
    cases call with
    | addPoll | removePoll | setTime => exact hmove _ hold (MsgPc.taken_makeCalls _ _) rfl rfl rfl rfl
  · rename_i c now first hpc
    have hold : st.msgTask.taken = none := by
      rw [hpc]
      rfl
    simp only
    split
    · exact hmove _ hold (MsgPc.taken_makeCalls _ _) rfl rfl rfl rfl
    · split <;> exact hmove _ hold rfl rfl rfl rfl rfl
  · rename_i c now timer client hpc
    have hold : st.msgTask.taken = none := by
      rw [hpc]
      rfl
    split
    · rename_i hfree
      split
      · exact hmove _ hold rfl rfl rfl rfl rfl
      rename_i timer' htimer
      refine ⟨?_, h.fresh, ?_, ?_⟩
      · rw [holds_takeTimer_expire hfree]
        exact h.owns.move htimer hold
      · exact starting_takeTimer h timer' nofun
      · intro _ _ _ _ hrem
        cases hrem
        exact update_self _ _ _
    · exact h
  · rename_i c now client timer hpc
    have halive := alive_sendRemove st timer
    obtain ⟨k, q, hsend⟩ := sendRemove_eq st timer
    rw [hsend] at halive ⊢
    exact handedOver_removed h hpc rfl rfl rfl rfl halive
  rename_i c now client timer hpc
  refine hmove _ ?_ rfl rfl rfl rfl rfl
  rw [hpc]
  rfl

theorem handedOver_timerStep (h : HandedOver st) (a : TimerAction L) : HandedOver (timerStep st a) := by
  cases a with
  | tick =>
    rw [timerStep]
    exact h.frame rfl rfl rfl rfl rfl fun _ _ _ _ _ => rfl
  | start client timeOutInMs wakeOnExpire => exact handedOver_startStep h client timeOutInMs wakeOnExpire
  | stop client => exact handedOver_stopStep h client
  | finish client => exact handedOver_finishStep h client
  | wake =>
    rw [timerStep]
    split
    · exact h.frame rfl rfl rfl rfl rfl fun _ _ _ _ _ => rfl
    · exact h
  | poll =>
    rw [timerStep, pollStep]
    split
    · exact h
    split <;> exact h.frame rfl rfl rfl rfl rfl fun _ _ _ _ _ => rfl
  | msg => exact handedOver_msgStep h

/-! ### The account of a client -/

def LockHolder.isStart : LockHolder → Bool
  | .start _ _ => true
  | _ => false

/-- A `stop()` of the client has taken the timer out; it will return true. -/
def LockHolder.isStop : LockHolder → Bool
  | .stop _ => true
  | _ => false

/-- The message thread has stopped the client and will call it back. -/
def MsgPc.pendingFor (client : L) : MsgPc L → Bool
  | .removing _ _ client' _ => client' = client
  | .callback _ _ client' _ => client' = client
  | _ => false

/-- A `start()` of the client returns true. -/
def startReturns (client : L) (st : TimerState L) : TimerAction L → Bool
  | .finish client' => client' = client && (st.mLock client).isStart
  | _ => false

/-- A `stop()` of the client returns true. -/
def stopReturns (client : L) (st : TimerState L) : TimerAction L → Bool
  | .finish client' => client' = client && (st.mLock client).isStop
  | _ => false

/-- The callbacks that were made. -/
def TimerState.callbacksOf (st : TimerState L) (client : L) : ℕ := st.callbacks.countP fun e => e.client = client

/-- What has become of the starts that no `stop()` has returned for. -/
def TimerState.account (client : L) (st : TimerState L) : ℕ :=
  st.callbacksOf client + (st.msgTask.pendingFor client).toNat + (st.mTimer client).isSome.toNat +
    (st.mLock client).isStop.toNat

theorem MsgPc.pendingFor_makeCalls (client : L) (c : Bool) (l : List SysCall) :
    (makeCalls c l : MsgPc L).pendingFor client = false := by
  cases l with
  | nil | cons => rfl

theorem account_msgStep (h : HandedOver st) (client : L) : (msgStep st).account client = st.account client := by
  rw [msgStep]
  have hmove : ∀ st' : TimerState L, st.msgTask.pendingFor client = false → st'.msgTask.pendingFor client = false →
      st'.mTimer = st.mTimer → st'.mLock = st.mLock → st'.callbacks = st.callbacks →
      st'.account client = st.account client := by
    intro _ hold hnew htimer hlock hlog
    rw [TimerState.account, TimerState.account, TimerState.callbacksOf, TimerState.callbacksOf, hold, hnew, htimer,
      hlock, hlog]
  split
  · rename_i hidle
    have hold : st.msgTask.pendingFor client = false := by
      rw [hidle]
      rfl
    split
    · rfl
    rename_i m q hq
    cases m with
    | push => exact hmove _ hold (MsgPc.pendingFor_makeCalls _ _ _) rfl rfl rfl
    | remove =>
      refine hmove _ hold ?_ rfl rfl rfl
      show (if _ then _ else _ : MsgPc L).pendingFor client = false
      split
      · exact MsgPc.pendingFor_makeCalls _ _ _
      · rfl
    | expire => exact hmove _ hold rfl rfl rfl rfl
  · rename_i c hpc
    refine hmove _ ?_ rfl rfl rfl rfl
    rw [hpc]
    rfl
  · rename_i c call l hpc
    have hold : st.msgTask.pendingFor client = false := by
      rw [hpc]
      rfl
    cases call with
    | addPoll | removePoll | setTime => exact hmove _ hold (MsgPc.pendingFor_makeCalls _ _ _) rfl rfl rfl
  · rename_i c now first hpc
    have hold : st.msgTask.pendingFor client = false := by
      rw [hpc]
      rfl
    simp only
    split
    · exact hmove _ hold (MsgPc.pendingFor_makeCalls _ _ _) rfl rfl rfl
    · split <;> exact hmove _ hold rfl rfl rfl rfl
  · rename_i c now timer client' hpc
    have hold : st.msgTask.pendingFor client = false := by
      rw [hpc]
      rfl
    split
    · rename_i hfree
      split
      · exact hmove _ hold rfl rfl rfl rfl
      -- the start moves from `mTimer` to the message thread
      rename_i timer' htimer
      rw [TimerState.account, TimerState.account, hold]
      show st.callbacksOf client + (decide (client' = client)).toNat +
        (update st.mTimer client' none client).isSome.toNat +
        (update st.mLock client' .expire client).isStop.toNat = _
      rcases eq_or_ne client client' with rfl | hc
      · rw [update_self, update_self, htimer, hfree]
        simp [LockHolder.isStop]
      · rw [update_of_ne hc, update_of_ne hc, decide_eq_false (Ne.symm hc)]
    · rfl
  · rename_i c now client' timer hpc
    have hexp := h.removing c now client' timer hpc
    obtain ⟨k, q, hsend⟩ := sendRemove_eq st timer
    rw [hsend, TimerState.account, TimerState.account, hpc]
    show st.callbacksOf client + (decide (client' = client)).toNat + (st.mTimer client).isSome.toNat +
      (update st.mLock client' .free client).isStop.toNat = _
    rcases eq_or_ne client client' with rfl | hc
    · rw [update_self, hexp]
      rfl
    · rw [update_of_ne hc]
      rfl
  -- the callback is made
  rename_i c now client' timer hpc
  rw [TimerState.account, TimerState.account, hpc]
  show countP _ (_ :: st.callbacks) + toNat false + (st.mTimer client).isSome.toNat +
    (st.mLock client).isStop.toNat = st.callbacksOf client + (decide (client' = client)).toNat + _ + _
  rw [countP_cons]
  by_cases hc : client' = client
  · simp [hc, TimerState.callbacksOf]
  · simp [hc, TimerState.callbacksOf]

theorem account_congr {client : L} (htimer : st'.mTimer client = st.mTimer client)
    (hlock : (st'.mLock client).isStop = (st.mLock client).isStop) (hpc : st'.msgTask = st.msgTask)
    (hlog : st'.callbacks = st.callbacks) : st'.account client = st.account client := by
  rw [TimerState.account, TimerState.account, TimerState.callbacksOf, TimerState.callbacksOf, htimer, hlock, hpc, hlog]

theorem account_finishStep (h : HandedOver st) (client client' : L) :
    (finishStep st client').account client + (stopReturns client st (.finish client')).toNat =
      st.account client + (startReturns client st (.finish client')).toNat := by
  rw [finishStep, stopReturns, startReturns]
  split
  · rename_i future wakeOnExpire hstart
    rcases eq_or_ne client client' with rfl | hc
    · have hnone := h.starting client future wakeOnExpire hstart
      rw [TimerState.account, TimerState.account, hnone, hstart]
      simp only [update_self, decide_true, Bool.true_and]
      rfl
    rw [decide_eq_false (Ne.symm hc)]
    refine congrArg (· + 0) (account_congr (update_of_ne hc _ _) ?_ rfl rfl)
    show (update st.mLock client' .free client).isStop = _
    rw [update_of_ne hc]
  · rename_i timer hstop
    obtain ⟨k, q, hsend⟩ := sendRemove_eq st timer
    rw [hsend]
    rcases eq_or_ne client client' with rfl | hc
    · rw [TimerState.account, TimerState.account, hstop]
      simp only [update_self, decide_true, Bool.true_and]
      rfl
    rw [decide_eq_false (Ne.symm hc)]
    refine congrArg (· + 0) (account_congr rfl ?_ rfl rfl)
    show (update st.mLock client' .free client).isStop = _
    rw [update_of_ne hc]
  rename_i hno1 hno2
  rcases eq_or_ne client' client with rfl | hc
  · cases hlock : st.mLock client' with
    | free => rfl
    | start future wake => exact absurd hlock (hno1 future wake)
    | stop timer => exact absurd hlock (hno2 timer)
    | expire => rfl
  · rw [decide_eq_false hc]
    rfl

/-- **One step**: a `start()` that returns true adds to the account of its client, a `stop()` that returns true takes
from it. -/
theorem account_timerStep (h : HandedOver st) (client : L) (a : TimerAction L) :
    (timerStep st a).account client + (stopReturns client st a).toNat =
      st.account client + (startReturns client st a).toNat := by
  cases a with
  | tick =>
    rw [timerStep]
    exact congrArg (· + 0) (account_congr rfl rfl rfl rfl)
  | start client' timeOutInMs wakeOnExpire =>
    have hstep : (startStep st client' timeOutInMs wakeOnExpire).account client = st.account client := by
      rw [startStep]
      split_ifs with hfree
      · refine account_congr rfl ?_ rfl rfl
        show (update st.mLock client' _ client).isStop = _
        rcases eq_or_ne client client' with rfl | hc
        · rw [update_self, hfree.1]
          rfl
        · rw [update_of_ne hc]
      · rfl
    rw [timerStep, hstep]
    rfl
  | stop client' =>
    have hstep : (stopStep st client').account client = st.account client := by
      rw [stopStep]
      split_ifs with hfree
      · split
        · rfl
        rename_i timer htimer
        rcases eq_or_ne client client' with rfl | hc
        · have htimer' : (takeTimer st client timer (.stop timer)).mTimer client = none := update_self _ _ _
          have hlock' : (takeTimer st client timer (.stop timer)).mLock client = .stop timer :=
            update_self _ _ _
          rw [TimerState.account, TimerState.account, htimer', hlock', htimer, hfree]
          rfl
        · refine account_congr (update_of_ne hc _ _) ?_ rfl rfl
          show (update st.mLock client' _ client).isStop = _
          rw [update_of_ne hc]
      · rfl
    rw [timerStep, hstep]
    rfl
  | finish client' => exact account_finishStep h client client'
  | wake events =>
    have hstep : (timerStep st (.wake events)).account client = st.account client := by
      rw [timerStep]
      split
      · exact account_congr rfl rfl rfl rfl
      · rfl
    rw [hstep]
    rfl
  | poll =>
    have hstep : (pollStep st).account client = st.account client := by
      rw [pollStep]
      split
      · rfl
      split <;> exact account_congr rfl rfl rfl rfl
    rw [timerStep, hstep]
    rfl
  | msg =>
    have hstep := account_msgStep h client
    rw [timerStep, hstep]
    rfl

/-! ### The remove messages of a delegate -/

/-- The message removes the delegate. -/
def TimerMsg.removes (timer : LocTimerDelegate) : TimerMsg → Bool
  | .remove _ timer' => timer' = timer
  | _ => false

/-- A `start()` creates the delegate. -/
def creates (timer : LocTimerDelegate) (st : TimerState L) : TimerAction L → Bool
  | .finish client =>
    match st.mLock client with
    | .start future _ => timer = ⟨st.nextAddr, future⟩
    | _ => false
  | _ => false

/-- The message thread handles a remove message, which deletes the delegate. -/
def deletes (timer : LocTimerDelegate) (st : TimerState L) : TimerAction L → Bool
  | .msg =>
    match st.msgTask with
    | .idle => st.msgQ.head?.any (TimerMsg.removes timer)
    | _ => false
  | _ => false

/-- The remove messages in the queue, and one that is to come if the delegate is alive. -/
def TimerState.removals (timer : LocTimerDelegate) (st : TimerState L) : ℕ :=
  st.msgQ.countP (TimerMsg.removes timer) + (st.mContainer timer).isSome.toNat

omit [DecidableEq L] in
theorem removals_congr {timer : LocTimerDelegate} (hq : st'.msgQ = st.msgQ) (hcont : st'.mContainer = st.mContainer) :
    st'.removals timer = st.removals timer := by
  rw [TimerState.removals, TimerState.removals, hq, hcont]

omit [DecidableEq L] in
/-- A delegate that is removed is in a message. -/
theorem removals_sendRemove (st : TimerState L) (timer timer' : LocTimerDelegate) :
    (sendRemove st timer).removals timer' = st.removals timer' := by
  rw [sendRemove]
  cases hcont : st.mContainer timer with
  | none => rfl
  | some c =>
    show (st.msgQ ++ [TimerMsg.remove c timer]).countP _ +
      (update st.mContainer timer none timer').isSome.toNat = _
    rw [countP_append, TimerState.removals]
    rcases eq_or_ne timer' timer with rfl | heq
    · rw [update_self, hcont]
      simp [TimerMsg.removes]
    · rw [update_of_ne heq]
      simp [TimerMsg.removes, Ne.symm heq]

theorem removals_finishStep (h : HandedOver st) (timer : LocTimerDelegate) (client : L) :
    (finishStep st client).removals timer = st.removals timer + (creates timer st (.finish client)).toNat := by
  cases hlock : st.mLock client with
  | free =>
    rw [finishStep, creates, hlock]
    rfl
  | start future =>
    have hcreates : creates timer st (.finish client) = decide (timer = ⟨st.nextAddr, future⟩) := by
      rw [creates, hlock]
    rw [finishStep, hlock, hcreates]
    show (st.msgQ ++ [TimerMsg.push _ _]).countP _ + (update st.mContainer _ _ timer).isSome.toNat = _
    rw [countP_append, TimerState.removals]
    by_cases heq : timer = ⟨st.nextAddr, future⟩
    · -- the address is new
      have hnew : st.mContainer timer = none := by
        cases hcont : st.mContainer timer with
        | none => rfl
        | some =>
          have hlt := h.fresh timer (by rw [TimerState.alive, hcont]; rfl)
          rw [heq] at hlt
          exact absurd hlt (lt_irrefl _)
      rw [hnew, ← heq, update_self]
      simp [TimerMsg.removes]
    · rw [update_of_ne heq]
      simp [TimerMsg.removes, heq]
  | stop timer' =>
    rw [finishStep, creates, hlock]
    exact removals_sendRemove st timer' timer
  | expire =>
    rw [finishStep, creates, hlock]
    rfl

theorem removals_msgStep (timer : LocTimerDelegate) (st : TimerState L) :
    (msgStep st).removals timer + (deletes timer st (.msg : TimerAction L)).toNat = st.removals timer := by
  have hother : st.msgTask ≠ .idle → (deletes timer st (.msg : TimerAction L)) = false := by
    intro hne
    rw [deletes]
    split
    · rename_i hidle
      exact absurd hidle hne
    · rfl
  rw [msgStep]
  split
  · rename_i hidle
    have hdel : deletes timer st (.msg : TimerAction L) = st.msgQ.head?.any (TimerMsg.removes timer) := by
      rw [deletes, hidle]
    rw [hdel]
    split
    · rename_i hq
      rw [hq]
      rfl
    -- a message is taken from the queue
    rename_i m q hq
    have hproc : (procMsg { st with msgQ := q } m).removals timer =
        q.countP (TimerMsg.removes timer) + (st.mContainer timer).isSome.toNat := by
      cases m with
      | push | remove | expire => rfl
    rw [hproc, TimerState.removals, hq, countP_cons]
    show _ + _ + (TimerMsg.removes timer m).toNat = _
    cases TimerMsg.removes timer m with
    | false => rfl
    | true =>
      simp only [toNat_true, if_true]
      omega
  · rename_i c hpc
    rw [hother (by rw [hpc]; simp)]
    exact removals_congr rfl rfl
  · rename_i c call l hpc
    rw [hother (by rw [hpc]; simp)]
    cases call with
    | addPoll | removePoll | setTime => exact removals_congr rfl rfl
  · rename_i c now first hpc
    rw [hother (by rw [hpc]; simp)]
    simp only
    split
    · exact removals_congr rfl rfl
    · split <;> exact removals_congr rfl rfl
  · rename_i c now timer' client hpc
    rw [hother (by rw [hpc]; simp)]
    split
    · split <;> exact removals_congr rfl rfl
    · rfl
  · rename_i c now client timer' hpc
    rw [hother (by rw [hpc]; simp)]
    exact removals_sendRemove st timer' timer
  · rename_i c now client timer' hpc
    rw [hother (by rw [hpc]; simp)]
    exact removals_congr rfl rfl

theorem removals_timerStep (h : HandedOver st) (timer : LocTimerDelegate) (a : TimerAction L) :
    (timerStep st a).removals timer + (deletes timer st a).toNat =
      st.removals timer + (creates timer st a).toNat := by
  cases a with
  | tick =>
    rw [timerStep]
    exact congrArg (· + 0) (removals_congr rfl rfl)
  | start =>
    rw [timerStep, startStep]
    split
    · exact congrArg (· + 0) (removals_congr rfl rfl)
    · rfl
  | stop =>
    rw [timerStep, stopStep]
    split
    · split
      · rfl
      · exact congrArg (· + 0) (removals_congr rfl rfl)
    · rfl
  | finish client => exact removals_finishStep h timer client
  | wake =>
    rw [timerStep]
    split
    · exact congrArg (· + 0) (removals_congr rfl rfl)
    · rfl
  | poll =>
    rw [timerStep, pollStep]
    split
    · rfl
    split
    · exact congrArg (· + 0) (removals_congr rfl rfl)
    · exact congrArg (· + 0) (removals_congr rfl rfl)
    -- an expire message removes nothing
    show (st.msgQ ++ [TimerMsg.expire _]).countP _ + _ + 0 = st.removals timer + 0
    rw [countP_append]
    rfl
  | msg => exact removals_msgStep timer st

theorem nextAddr_msgStep (st : TimerState L) : (msgStep st).nextAddr = st.nextAddr := by
  rw [msgStep]
  split
  · split
    · rfl
    · rename_i m q hq
      cases m <;> rfl
  · rfl
  · rename_i c call l hpc
    cases call <;> rfl
  · simp only
    split
    · rfl
    · split <;> rfl
  · split
    · split <;> rfl
    · rfl
  · rename_i timer hpc
    obtain ⟨k, q, hsend⟩ := sendRemove_eq st timer
    rw [hsend]
  · rfl

theorem nextAddr_finishStep (timer : LocTimerDelegate) (st : TimerState L) (client : L) :
    (decide ((finishStep st client).nextAddr ≤ timer.addr)).toNat + (creates timer st (.finish client)).toNat ≤
      (decide (st.nextAddr ≤ timer.addr)).toNat := by
  cases hlock : st.mLock client with
  | free =>
    rw [finishStep, creates, hlock]
    exact le_refl _
  | start future wakeOnExpire =>
    rw [finishStep, creates, hlock]
    show (decide (st.nextAddr + 1 ≤ timer.addr)).toNat + (decide (timer = ⟨st.nextAddr, future⟩)).toNat ≤ _
    by_cases heq : timer = ⟨st.nextAddr, future⟩
    · have haddr : timer.addr = st.nextAddr := congrArg LocTimerDelegate.addr heq
      rw [decide_eq_false (by omega), decide_eq_true heq, decide_eq_true (by omega)]
      exact le_refl _
    rw [decide_eq_false heq]
    by_cases hle : st.nextAddr ≤ timer.addr
    · rw [decide_eq_true hle]
      exact toNat_le _
    · rw [decide_eq_false (by omega)]
      exact Nat.zero_le _
  | stop timer' =>
    obtain ⟨k, q, hsend⟩ := sendRemove_eq st timer'
    have hnext : (finishStep st client).nextAddr = st.nextAddr := by
      rw [finishStep, hlock]
      show (sendRemove st timer').nextAddr = st.nextAddr
      rw [hsend]
    rw [hnext, creates, hlock]
    exact le_refl _
  | expire =>
    rw [finishStep, creates, hlock]
    exact le_refl _

theorem nextAddr_timerStep (timer : LocTimerDelegate) (st : TimerState L) (a : TimerAction L) :
    (decide ((timerStep st a).nextAddr ≤ timer.addr)).toNat + (creates timer st a).toNat ≤
      (decide (st.nextAddr ≤ timer.addr)).toNat := by
  have hsame : ∀ st' : TimerState L, st'.nextAddr = st.nextAddr →
      (decide (st'.nextAddr ≤ timer.addr)).toNat + 0 ≤ (decide (st.nextAddr ≤ timer.addr)).toNat := by
    intro _ hst'
    rw [hst']
    exact le_refl _
  cases a with
  | tick =>
    rw [timerStep]
    exact hsame _ rfl
  | start =>
    rw [timerStep, startStep]
    split <;> exact hsame _ rfl
  | stop =>
    rw [timerStep, stopStep]
    split
    · split <;> exact hsame _ rfl
    · exact hsame _ rfl
  | finish client => exact nextAddr_finishStep timer st client
  | wake =>
    rw [timerStep]
    split <;> exact hsame _ rfl
  | poll =>
    rw [timerStep, pollStep]
    split
    · exact hsame _ rfl
    split <;> exact hsame _ rfl
  | msg => exact hsame _ (nextAddr_msgStep st)

/-! ### Runs -/

theorem handedOver_timerRun (boot : Timespec) (acts : List (TimerAction L)) : HandedOver (timerRun boot acts) := by
  have hrun : ∀ st : TimerState L, HandedOver st → HandedOver (acts.foldl timerStep st) := by
    induction acts with
    | nil => exact fun _ h => h
    | cons a _ ih => exact fun st h => ih _ (handedOver_timerStep h a)
  exact hrun _ (handedOver_initial boot)

/-- The number of `start()` calls of the client that have returned true. -/
def startsTrue (boot : Timespec) (acts : List (TimerAction L)) (client : L) : ℕ :=
  countSteps timerStep (startReturns client) (initialTimers L boot) acts

/-- The number of `stop()` calls of the client that have returned true. -/
def stopsTrue (boot : Timespec) (acts : List (TimerAction L)) (client : L) : ℕ :=
  countSteps timerStep (stopReturns client) (initialTimers L boot) acts

/-- How often the delegate was created. -/
def created (boot : Timespec) (acts : List (TimerAction L)) (timer : LocTimerDelegate) : ℕ :=
  countSteps timerStep (creates timer) (initialTimers L boot) acts

/-- How often the delegate was deleted. -/
def deleted (boot : Timespec) (acts : List (TimerAction L)) (timer : LocTimerDelegate) : ℕ :=
  countSteps timerStep (deletes timer) (initialTimers L boot) acts

/-- The number of remove messages for the delegate: those that were handled, and those in the queue. -/
def removeMsgs (boot : Timespec) (acts : List (TimerAction L)) (timer : LocTimerDelegate) : ℕ :=
  deleted boot acts timer + (timerRun boot acts).msgQ.countP (TimerMsg.removes timer)

/-- Each start ends once, with a `stop()` or with a callback; and each delegate has one remove message, from the time
when nobody holds it. -/
structure EachStartEndsOnce (boot : Timespec) (acts : List (TimerAction L)) : Prop where
  balance : ∀ client, startsTrue boot acts client =
    stopsTrue boot acts client + ((timerRun boot acts).mLock client).isStop.toNat +
      ((timerRun boot acts).callbacksOf client + ((timerRun boot acts).msgTask.pendingFor client).toNat) +
      ((timerRun boot acts).mTimer client).isSome.toNat
  created_le : ∀ timer, created boot acts timer ≤ 1
  held : ∀ p timer, (timerRun boot acts).holds p = some timer →
    created boot acts timer = 1 ∧ removeMsgs boot acts timer = 0
  removed : ∀ timer, created boot acts timer = 1 → (∀ p, (timerRun boot acts).holds p ≠ some timer) →
    removeMsgs boot acts timer = 1
  deleted_le : ∀ timer, deleted boot acts timer ≤ 1

section

variable (boot : Timespec) (acts : List (TimerAction L))

theorem removeMsgs_add_alive (timer : LocTimerDelegate) :
    removeMsgs boot acts timer + ((timerRun boot acts).mContainer timer).isSome.toNat = created boot acts timer := by
  have hbal : (timerRun boot acts).removals timer + deleted boot acts timer =
      (initialTimers L boot).removals timer + created boot acts timer :=
    countSteps_balance (I := HandedOver) (handedOver_initial boot) (fun st a h => handedOver_timerStep h a)
      fun st a h => removals_timerStep h timer a
  have hinit : (initialTimers L boot).removals timer = 0 := rfl
  rw [hinit, TimerState.removals] at hbal
  rw [removeMsgs]
  omega

theorem created_le_one (timer : LocTimerDelegate) : created boot acts timer ≤ 1 := by
  have hle : (decide ((timerRun boot acts).nextAddr ≤ timer.addr)).toNat + created boot acts timer ≤
      (decide ((initialTimers L boot).nextAddr ≤ timer.addr)).toNat :=
    countSteps_le (f := fun st : TimerState L => (decide (st.nextAddr ≤ timer.addr)).toNat) (nextAddr_timerStep timer)
  have hone := toNat_le (decide ((initialTimers L boot).nextAddr ≤ timer.addr))
  omega

/-- **Each start ends once**, in every interleaving of the three threads. -/
theorem locTimer_each_start_ends_once : EachStartEndsOnce boot acts := by
  have hhand := handedOver_timerRun boot acts
  have hmsgs := removeMsgs_add_alive boot acts
  have hcreated := created_le_one boot acts
  refine ⟨?_, hcreated, ?_, ?_, ?_⟩
  · intro client
    have hbal : (timerRun boot acts).account client + stopsTrue boot acts client =
        (initialTimers L boot).account client + startsTrue boot acts client :=
      countSteps_balance (I := HandedOver) (handedOver_initial boot) (fun st a h => handedOver_timerStep h a)
        fun st a h => account_timerStep h client a
    have hinit : (initialTimers L boot).account client = 0 := rfl
    rw [hinit, TimerState.account] at hbal
    omega
  · intro p timer hp
    have halive := hhand.owns.used p timer hp
    have hsum := hmsgs timer
    rw [halive, toNat_true] at hsum
    have := hcreated timer
    omega
  · intro timer hone hno
    have hdead : ((timerRun boot acts).mContainer timer).isSome = false := by
      cases halive : ((timerRun boot acts).mContainer timer).isSome with
      | false => rfl
      | true =>
        obtain ⟨p, hp⟩ := hhand.owns.onto timer halive
        exact absurd hp (hno p)
    have hsum := hmsgs timer
    rw [hdead, toNat_false, hone] at hsum
    exact hsum
  intro timer
  have hsum := hmsgs timer
  have := hcreated timer
  rw [removeMsgs] at hsum
  omega

end

end G4Common.Gps

/-
When `timeOutCallback()` is called.

A callback is to come at the time of its start or later, and not after a `stop()` of the client that has returned
true.  Three interleavings break this.

* The first `pop()` of an expire message is unconditional.  If the timer for which the timerfd has fired is
  removed before the message is handled, the timer that is popped is a later one.
* `LocTimerDelegate::expire()` reads `mClient` and calls its `stop()` after that.  If the client has stopped and
  started again in between, it is the new timer that `stop()` takes out.
* `timeOutCallback()` is called after the lock was released.  A client can start again and stop again before.

Where no step is one of these (`callbackSafe`), all callbacks are in time (`locTimer_callbacks_in_time`).
-/
import G4Common.Gps.LocTimerArm

namespace G4Common.Gps

open RankTree Broadcast Function

universe u

variable {L : Type u}

/-- Every callback came at the time of its start or later, and not after a `stop()`. -/
def CallbacksInTime (st : TimerState L) : Prop :=
  ∀ e ∈ st.callbacks, e.timer.mFutureTime.ns ≤ e.time.ns ∧ e.afterStop = false

instance (st : TimerState L) : Decidable (CallbacksInTime st) :=
  inferInstanceAs (Decidable (∀ e ∈ st.callbacks, e.timer.mFutureTime.ns ≤ e.time.ns ∧ e.afterStop = false))

section Safe

variable [DecidableEq L]

/-- A step that is none of the three. -/
def callbackSafe (st : TimerState L) : TimerAction L → Bool
  | .msg =>
    match st.msgTask with
    -- the first pop takes a timer that is due, or that has been stopped
    | .popping c _ true =>
      (locHeapPeek (st.mTree c)).all fun d => (st.mClient d).isNone || d.mFutureTime.ns ≤ st.now.ns
    -- the client still has the timer that was popped, or one that is due as well
    | .stopping _ _ timer client =>
      (st.mTimer client).all fun d => d = timer || d.mFutureTime.ns ≤ st.now.ns
    | _ => true
  | .finish client =>
    -- no `stop()` returns between the release of the lock and the callback of its timer
    match st.mLock client, st.msgTask with
    | .stop _, .callback _ _ client' _ => client ≠ client'
    | _, _ => true
  | _ => true

/-- The step is none of the three. -/
def CallbackSafe (st : TimerState L) (a : TimerAction L) : Prop := callbackSafe st a = true

instance (st : TimerState L) (a : TimerAction L) : Decidable (CallbackSafe st a) :=
  inferInstanceAs (Decidable (callbackSafe st a = true))

end Safe

/-! ### The invariant -/

/-- What the message thread relies on, where it is. -/
def MsgReady (st : TimerState L) : MsgPc L → Prop
  | .idle => True
  | .calls _ _ => True
  | .popping _ now _ => now.ns ≤ st.now.ns
  | .stopping _ now timer _ => now.ns ≤ st.now.ns ∧ timer.mFutureTime.ns ≤ st.now.ns
  | .removing _ now client timer =>
    now.ns ≤ st.now.ns ∧ timer.mFutureTime.ns ≤ st.now.ns ∧ st.stopped client = false ∧ st.mLock client = .expire
  | .callback _ now client timer =>
    now.ns ≤ st.now.ns ∧ timer.mFutureTime.ns ≤ st.now.ns ∧ st.stopped client = false

/-- What holds in every state of a run whose steps are safe. -/
structure Punctual (st : TimerState L) : Prop where
  msg : MsgReady st st.msgTask
  stopping : ∀ client timer, st.mLock client = .stop timer → st.mTimer client = none
  stopped : ∀ client, st.stopped client = true →
    st.mTimer client = none ∧ ∀ future wakeOnExpire, st.mLock client ≠ .start future wakeOnExpire
  inTime : CallbacksInTime st

theorem punctual_initial (boot : Timespec) : Punctual (initialTimers L boot) where
  msg := trivial
  stopping := by
    intro client _ h
    cases h
  stopped := by
    intro _ h
    cases h
  inTime := by
    intro e he
    cases he

variable {st st' : TimerState L}

theorem MsgReady.mono {pc : MsgPc L} (h : MsgReady st pc) (hnow : st.now.ns ≤ st'.now.ns)
    (hstopped : ∀ c now client timer, st.mLock client = .expire ∨ pc = .callback c now client timer →
        st.stopped client = false → st'.stopped client = false)
    (hlock : ∀ client, st.mLock client = .expire → st'.mLock client = .expire) : MsgReady st' pc := by
  cases pc with
  | idle | calls => trivial
  | popping => exact le_trans h hnow
  | stopping => exact ⟨le_trans h.1 hnow, le_trans h.2 hnow⟩
  | removing c now client timer =>
    obtain ⟨h1, h2, h3, h4⟩ := h
    exact ⟨le_trans h1 hnow, le_trans h2 hnow, hstopped c now client timer (.inl h4) h3, hlock client h4⟩
  | callback c now client timer =>
    obtain ⟨h1, h2, h3⟩ := h
    exact ⟨le_trans h1 hnow, le_trans h2 hnow, hstopped c now client timer (.inr rfl) h3⟩

theorem Punctual.frame (h : Punctual st) (hmsg : MsgReady st' st'.msgTask) (hlock : st'.mLock = st.mLock)
    (htimer : st'.mTimer = st.mTimer) (hstopped : st'.stopped = st.stopped)
    (hlog : st'.callbacks = st.callbacks) : Punctual st' where
  msg := hmsg
  stopping := by
    rw [hlock, htimer]
    exact h.stopping
  stopped := by
    rw [hlock, htimer, hstopped]
    exact h.stopped
  inTime := by
    rw [CallbacksInTime, hlog]
    exact h.inTime

theorem msgReady_makeCalls (st : TimerState L) (c : Bool) (l : List SysCall) : MsgReady st (makeCalls c l) := by
  cases l with
  | nil | cons => trivial

theorem Punctual.of_eq (h : Punctual st) (hmsg : st'.msgTask = st.msgTask) (hnow : st.now.ns ≤ st'.now.ns)
    (hlock : st'.mLock = st.mLock) (htimer : st'.mTimer = st.mTimer) (hstopped : st'.stopped = st.stopped)
    (hlog : st'.callbacks = st.callbacks) : Punctual st' := by
  refine h.frame ?_ hlock htimer hstopped hlog
  rw [hmsg]
  refine h.msg.mono hnow ?_ ?_
  · intro c _ client _ _ hfalse
    rw [hstopped]
    exact hfalse
  · intro _ hexp
    rw [hlock]
    exact hexp

theorem punctual_pollStep (h : Punctual st) : Punctual (pollStep st) := by
  rw [pollStep]
  split
  · exact h
  split <;> exact h.of_eq rfl (le_refl _) rfl rfl rfl rfl

/-! ### The clients -/

variable [DecidableEq L]
variable {client client' : L}

theorem lock_of_ne {holder : LockHolder} (hne : st.mLock client ≠ .expire)
    (h : st.mLock client' = .expire) : update st.mLock client holder client' = .expire := by
  have hc : client' ≠ client := by
    rintro rfl
    exact hne h
  rw [update_of_ne hc]
  exact h

theorem punctual_startStep (h : Punctual st) (client : L) (timeOutInMs : ℕ) (wakeOnExpire : Bool) :
    Punctual (startStep st client timeOutInMs wakeOnExpire) := by
  rw [startStep]
  split_ifs with hfree
  · have hne : st.mLock client ≠ .expire := by
      rw [hfree.1]
      rintro ⟨⟩
    refine ⟨h.msg.mono (le_refl _) ?_ fun client' => lock_of_ne hne, ?_, ?_, h.inTime⟩
    · intro c _ client' timer _ hfalse
      rcases eq_or_ne client' client with rfl | hc
      · exact update_self _ _ _
      · show update st.stopped client false client' = false
        rw [update_of_ne hc]
        exact hfalse
    · intro client' timer hstop
      rcases eq_or_ne client' client with rfl | hc
      · exact hfree.2
      · have hstop' : update st.mLock client _ client' = .stop timer := hstop
        rw [update_of_ne hc] at hstop'
        exact h.stopping client' timer hstop'
    intro client' hstopped
    have hstopped' : update st.stopped client false client' = true := hstopped
    rcases eq_or_ne client' client with rfl | hc
    · rw [update_self] at hstopped'
      cases hstopped'
    rw [update_of_ne hc] at hstopped'
    obtain ⟨htimer, hlock⟩ := h.stopped client' hstopped'
    refine ⟨htimer, ?_⟩
    intro future wake
    show update st.mLock client _ client' ≠ _
    rw [update_of_ne hc]
    exact hlock future wake
  · exact h

theorem stopping_takeTimer (h : Punctual st) (timer : LocTimerDelegate) {holder : LockHolder}
    (client' : L) (timer' : LocTimerDelegate)
    (hstop : (takeTimer st client timer holder).mLock client' = .stop timer') :
    (takeTimer st client timer holder).mTimer client' = none := by
  rcases eq_or_ne client' client with rfl | hc
  · exact update_self _ _ _
  have hstop' : update st.mLock client holder client' = .stop timer' := hstop
  rw [update_of_ne hc] at hstop'
  show update st.mTimer client none client' = none
  rw [update_of_ne hc]
  exact h.stopping client' timer' hstop'

theorem stopped_takeTimer (h : Punctual st) (timer : LocTimerDelegate) {holder : LockHolder}
    (hholder : ∀ future wakeOnExpire, holder ≠ .start future wakeOnExpire) (client' : L)
    (hstopped : st.stopped client') :
    (takeTimer st client timer holder).mTimer client' = none ∧
      ∀ future wakeOnExpire, (takeTimer st client timer holder).mLock client' ≠ .start future wakeOnExpire := by
  rcases eq_or_ne client' client with rfl | hc
  · refine ⟨update_self _ _ _, ?_⟩
    intro future wake
    show update st.mLock client' holder client' ≠ _
    rw [update_self]
    exact hholder future wake
  obtain ⟨htimer, hlock⟩ := h.stopped client' hstopped
  constructor
  · show update st.mTimer client none client' = none
    rw [update_of_ne hc]
    exact htimer
  intro future wake
  show update st.mLock client holder client' ≠ _
  rw [update_of_ne hc]
  exact hlock future wake

theorem punctual_stopStep (h : Punctual st) (client : L) : Punctual (stopStep st client) := by
  rw [stopStep]
  split_ifs with hfree
  · split
    · exact h
    rename_i timer _
    have hne : st.mLock client ≠ .expire := by
      rw [hfree]
      rintro ⟨⟩
    have hholder : ∀ future wakeOnExpire, LockHolder.stop timer ≠ .start future wakeOnExpire := by
      intro _ _ hstart
      cases hstart
    refine ⟨h.msg.mono (le_refl _) (fun _ _ _ _ _ hfalse => hfalse) fun client' => lock_of_ne hne, ?_, ?_, h.inTime⟩
    · exact stopping_takeTimer h timer
    · exact stopped_takeTimer h timer hholder
  · exact h

theorem stopping_release (h : Punctual st) {timer : LocTimerDelegate}
    (hstop : update st.mLock client .free client' = .stop timer) : client' ≠ client ∧ st.mTimer client' = none := by
  have hc : client' ≠ client := by
    rintro rfl
    rw [update_self] at hstop
    cases hstop
  rw [update_of_ne hc] at hstop
  exact ⟨hc, h.stopping client' timer hstop⟩

theorem lock_release_ne
    (h : client' ≠ client → ∀ future wakeOnExpire, st.mLock client' ≠ .start future wakeOnExpire) (future : Timespec)
    (wakeOnExpire : Bool) : update st.mLock client .free client' ≠ .start future wakeOnExpire := by
  rcases eq_or_ne client' client with rfl | hc
  · rw [update_self]
    exact nofun
  · rw [update_of_ne hc]
    exact h hc future wakeOnExpire

theorem punctual_finishStep (h : Punctual st) (hsafe : CallbackSafe st (.finish client)) :
    Punctual (finishStep st client) := by
  rw [finishStep]
  split
  · rename_i future wakeOnExpire hstart
    have hne : st.mLock client ≠ .expire := by
      rw [hstart]
      rintro ⟨⟩
    refine ⟨h.msg.mono (le_refl _) (fun _ _ _ _ _ hfalse => hfalse) fun client' => lock_of_ne hne, ?_, ?_, h.inTime⟩
    · intro client' timer hstop
      obtain ⟨hc, hnone⟩ := stopping_release h hstop
      show update st.mTimer client _ client' = none
      rw [update_of_ne hc]
      exact hnone
    intro client' hstopped
    obtain ⟨htimer, hlock⟩ := h.stopped client' hstopped
    -- a client in `start()` is not stopped
    have hc : client' ≠ client := by
      rintro rfl
      exact hlock future wakeOnExpire hstart
    refine ⟨?_, lock_release_ne fun _ => hlock⟩
    show update st.mTimer client _ client' = none
    rw [update_of_ne hc]
    exact htimer
  · rename_i timer hstop
    obtain ⟨k, q, hsend⟩ := sendRemove_eq st timer
    rw [hsend]
    have hne : st.mLock client ≠ .expire := by
      rw [hstop]
      rintro ⟨⟩
    refine ⟨h.msg.mono (le_refl _) ?_ fun client' => lock_of_ne hne, ?_, ?_, h.inTime⟩
    · -- the callback that is to come is not one of this client
      intro c _ client' timer' hpc hfalse
      have hc : client' ≠ client := by
        rintro rfl
        rcases hpc with hexp | hcall
        · exact hne hexp
        · rw [CallbackSafe, callbackSafe, hstop, hcall] at hsafe
          exact absurd rfl (of_decide_eq_true hsafe)
      show update st.stopped client true client' = false
      rw [update_of_ne hc]
      exact hfalse
    · intro client' _ hstop'
      exact (stopping_release h hstop').2
    intro client' hstopped
    have hstopped' : update st.stopped client true client' = true := hstopped
    rcases eq_or_ne client' client with rfl | hc
    · exact ⟨h.stopping client' timer hstop, lock_release_ne fun hne => absurd rfl hne⟩
    · rw [update_of_ne hc] at hstopped'
      obtain ⟨htimer, hlock⟩ := h.stopped client' hstopped'
      exact ⟨htimer, lock_release_ne fun _ => hlock⟩
  · exact h

/-! ### The message thread -/

theorem due_of_popped (h : Punctual st) {c : Bool} (hheap : HeapOk timerRanking (st.mTree c)) {now : Timespec}
    {first : Bool} (hpc : st.msgTask = .popping c now first) (hsafe : CallbackSafe st .msg)
    {timer : LocTimerDelegate} (hpop : (popNext first now (st.mTree c)).1 = some timer)
    (hclient : st.mClient timer = some client) : timer.mFutureTime.ns ≤ st.now.ns := by
  cases first with
  | true =>
    have hpeek : locHeapPeek (st.mTree c) = some timer := by
      rw [← locHeapPop_peek hheap]
      exact hpop
    rw [CallbackSafe, callbackSafe, hpc] at hsafe
    simpa [hpeek, hclient] using hsafe
  | false =>
    have hnow := h.msg
    rw [hpc] at hnow
    exact le_trans (due_of_popNext hheap hpop) hnow

theorem due_of_taken (h : Punctual st) {c : Bool} {now : Timespec} {timer timer' : LocTimerDelegate}
    (hpc : st.msgTask = .stopping c now timer client) (hsafe : CallbackSafe st .msg)
    (htimer : st.mTimer client = some timer') : timer'.mFutureTime.ns ≤ st.now.ns := by
  rw [CallbackSafe, callbackSafe, hpc] at hsafe
  have hor : timer' = timer ∨ timer'.mFutureTime.ns ≤ st.now.ns := by simpa [htimer] using hsafe
  rcases hor with rfl | hdue
  · have hmsg := h.msg
    rw [hpc] at hmsg
    exact hmsg.2
  · exact hdue

/-- **A step of the message thread.** -/
theorem punctual_msgStep (h : Punctual st) (hheap : ∀ c, HeapOk timerRanking (st.mTree c))
    (hsafe : CallbackSafe st .msg) : Punctual (msgStep st) := by
  have hmsg := h.msg
  rw [msgStep]
  split
  · split
    · exact h
    rename_i m q hq
    cases m with
    | push => exact h.frame (msgReady_makeCalls _ _ _) rfl rfl rfl rfl
    | remove =>
      refine h.frame ?_ rfl rfl rfl rfl
      show MsgReady _ (if _ then _ else _)
      split
      · exact msgReady_makeCalls _ _ _
      · trivial
    | expire => exact h.frame (le_refl st.now.ns) rfl rfl rfl rfl
  · exact h.frame trivial rfl rfl rfl rfl
  · rename_i c call l hpc
    cases call with
    | addPoll | removePoll | setTime => exact h.frame (msgReady_makeCalls _ _ _) rfl rfl rfl rfl
  · rename_i c now first hpc
    rw [hpc] at hmsg
    simp only
    split
    · exact h.frame (msgReady_makeCalls _ _ _) rfl rfl rfl rfl
    rename_i timer hpop
    split
    · exact h.frame hmsg rfl rfl rfl rfl
    · rename_i client hclient
      have hdue := due_of_popped h (hheap c) hpc hsafe hpop hclient
      exact h.frame ⟨hmsg, hdue⟩ rfl rfl rfl rfl
  · rename_i c now timer client hpc
    rw [hpc] at hmsg
    split
    · split
      · exact h.frame hmsg.1 rfl rfl rfl rfl
      rename_i timer' htimer
      have hdue := due_of_taken h hpc hsafe htimer
      -- a client that has a timer is not stopped
      have hrunning : st.stopped client = false := by
        cases hstopped : st.stopped client with
        | false => rfl
        | true =>
          have hnone := (h.stopped client hstopped).1
          rw [htimer] at hnone
          cases hnone
      have hholder : ∀ future wakeOnExpire, LockHolder.expire ≠ .start future wakeOnExpire := by
        intro _ _ hstart
        cases hstart
      exact ⟨⟨hmsg.1, hdue, hrunning, update_self _ _ _⟩, stopping_takeTimer h timer',
        stopped_takeTimer h timer' hholder, h.inTime⟩
    · exact h
  · rename_i c now client timer hpc
    rw [hpc] at hmsg
    obtain ⟨k, q, hsend⟩ := sendRemove_eq st timer
    rw [hsend]
    refine ⟨⟨hmsg.1, hmsg.2.1, hmsg.2.2.1⟩, ?_, ?_, h.inTime⟩
    · intro client' _ hstop
      exact (stopping_release h hstop).2
    · intro client' hstopped
      obtain ⟨htimer, hlock⟩ := h.stopped client' hstopped
      exact ⟨htimer, lock_release_ne fun _ => hlock⟩
  rename_i c now client timer hpc
  rw [hpc] at hmsg
  refine ⟨hmsg.1, h.stopping, h.stopped, ?_⟩
  intro e he
  rcases List.mem_cons.1 he with rfl | he
  · exact ⟨hmsg.2.1, hmsg.2.2⟩
  · exact h.inTime e he

/-! ### Runs -/

theorem punctual_timerStep {a : TimerAction L} (hkept : ∀ c, Kept st c) (h : Punctual st) (hsafe : CallbackSafe st a) :
    Punctual (timerStep st a) := by
  cases a with
  | tick =>
    rw [timerStep]
    refine h.of_eq rfl ?_ rfl rfl rfl rfl
    rw [Timespec.ns_later]
    exact Nat.le_add_right _ _
  | start client timeOutInMs wakeOnExpire => exact punctual_startStep h client timeOutInMs wakeOnExpire
  | stop client => exact punctual_stopStep h client
  | finish => exact punctual_finishStep h hsafe
  | wake =>
    rw [timerStep]
    split
    · exact h.of_eq rfl (le_refl _) rfl rfl rfl rfl
    · exact h
  | poll => exact punctual_pollStep h
  | msg => exact punctual_msgStep h (fun c => (hkept c).heap) hsafe

/-- **Callbacks in time**: in every interleaving in which no step is one of the three, each callback comes at the
time of its start or later, and not after a `stop()`. -/
theorem locTimer_callbacks_in_time (boot : Timespec) (acts : List (TimerAction L))
    (h : AllSteps timerStep CallbackSafe (initialTimers L boot) acts) : CallbacksInTime (timerRun boot acts) := by
  have hrun : (∀ c, Kept (timerRun boot acts) c) ∧ Punctual (timerRun boot acts) := by
    refine run_invariant (I := fun st => (∀ c, Kept st c) ∧ Punctual st) ?_ h ⟨kept_initial boot, punctual_initial boot⟩
    intro _ a hsafe hst
    exact ⟨kept_timerStep hst.1 a, punctual_timerStep hst.1 hst.2 hsafe⟩
  exact hrun.2.inTime

/-- A timer of 10 ms that expires. -/
def expiringRun : List (TimerAction Bool) :=
  [.start false 10 false, .finish false, .msg, .msg, .msg, .tick 10000000, .wake [false], .poll, .poll, .poll,
    .msg, .msg, .msg, .msg, .msg]

/-- The timer that expires is called back once. -/
theorem locTimer_ten_ms_in_time :
    (timerRun oneSecond expiringRun).callbacks.length = 1 ∧ CallbacksInTime (timerRun oneSecond expiringRun) :=
  ⟨by decide, locTimer_callbacks_in_time oneSecond expiringRun (by decide)⟩

/-- Timers of 10 ms and of 100 ms; after 10 ms the first one is stopped while the poll thread is in `expire()`. -/
def earlyRun : List (TimerAction Bool) :=
  [.start false 10 false, .finish false, .start true 100 false, .finish true, .msg, .msg, .msg, .msg,
    .tick 10000000, .wake [false], .stop false, .finish false, .poll, .poll, .poll,
    .msg, .msg, .msg, .msg, .msg, .msg, .msg, .msg]

/-- A timer of 10 ms expires; before its callback the client starts again and stops again. -/
def lateRun : List (TimerAction Bool) :=
  [.start false 10 false, .finish false, .msg, .msg, .msg, .tick 10000000, .wake [false], .poll, .poll, .poll,
    .msg, .msg, .msg, .msg, .start false 10 false, .finish false, .stop false, .finish false, .msg]

/-- A timer of 10 ms expires; before the message thread calls `stop()` the client stops and starts again, for 50 ms. -/
def restartRun : List (TimerAction Bool) :=
  [.start false 10 false, .finish false, .msg, .msg, .msg, .tick 10000000, .wake [false], .poll, .poll, .poll,
    .msg, .msg, .stop false, .finish false, .start false 50 false, .finish false, .msg, .msg, .msg]

/-- The timer of 100 ms is called back 90 ms early, the one of 50 ms at once, and a callback begins after `stop()`
has returned true. -/
theorem locTimer_early_and_late :
    ((timerRun oneSecond earlyRun).callbacks.map fun e => (e.client, e.timer.mFutureTime.ns, e.time.ns)) =
        [(true, 1100000000, 1010000000)] ∧
      ¬CallbacksInTime (timerRun oneSecond earlyRun) ∧
      ((timerRun oneSecond restartRun).callbacks.map fun e => (e.client, e.timer.mFutureTime.ns, e.time.ns)) =
        [(false, 1060000000, 1010000000)] ∧
      ¬CallbacksInTime (timerRun oneSecond restartRun) ∧
      (timerRun oneSecond lateRun).callbacks.map Callback.afterStop = [true] ∧
      ¬CallbacksInTime (timerRun oneSecond lateRun) := by
  decide

end G4Common.Gps

/-
No timer is lost.

The poll thread disarms and un-polls a timerfd at any time, without a lock.  But it does so only in `expire()`,
which ends with a message to the message thread, and the message thread arms the timerfd again at the end of
that message.  So the message thread may rely on this: what it has armed and polled stays so, or an expire
message is to come (`Covered`).

While the message thread is at the system calls of `updateSoonestTime()`, the timerfd need not be covered; then
the calls that are left cover it (`Kept`).

Main result: `locTimer_no_timer_lost`.
-/
import G4Common.Gps.LocTimer

namespace G4Common.Gps

open RankTree Function List Option

universe u

variable {L : Type u}
variable {d x : LocTimerDelegate}

/-! ### The top of the heap -/

theorem peek_push_node (s : ℤ) (l r : RankTree LocTimerDelegate) (d x : LocTimerDelegate) :
    locHeapPeek (locHeapPush ranks (node s l r d) x) = some (if outRanks ranks x d then x else d) := by
  rw [locHeapPush_eq]
  rcases push_node (l := l) (r := r) (s := s) (rfl : (if outRanks ranks x d then x else d) = _) rfl with h | h
  · rw [h]
    rfl
  · rw [h]
    rfl

theorem peek_remove_node {s : ℤ} {l r : RankTree LocTimerDelegate} (hx : x ≠ d) :
    locHeapPeek (remove ranks x (node s l r d)).2 = some d := by
  rw [remove, if_neg hx]
  -- whatever the recursive calls return, the root is built from `d` again
  generalize (if l.isNull then (null, l) else remove ranks x l) = left
  generalize (if r.isNull then (null, r) else remove ranks x r) = right
  simp only
  split
  · rfl
  split
  · split <;> rfl
  · rfl

theorem locHeapRemove_snd (t : RankTree LocTimerDelegate) (x : LocTimerDelegate) :
    (locHeapRemove ranks t x).2 = (remove ranks x t).2 := by
  rw [locHeapRemove]
  split
  · rename_i h
    rw [isNull_iff.1 h]
    rfl
  simp only
  split <;> rfl

theorem peek_locHeapRemove {t : RankTree LocTimerDelegate} (ht : HeapOk timerRanking t)
    (hne : locHeapPeek t ≠ (locHeapRemove ranks t x).1) : locHeapPeek (locHeapRemove ranks t x).2 = locHeapPeek t := by
  cases t with
  | null => rfl
  | node s l r d =>
    rcases eq_or_ne x d with rfl | hx
    · have hmem : x ∈ (node s l r x).elems := Multiset.mem_cons_self _ _
      exact absurd (locHeapRemove_of_mem ht hmem).1.symm hne
    · rw [locHeapRemove_snd, peek_remove_node hx]
      rfl

/-! ### `updateSoonestTime()` -/

/-- The calls that arm a timerfd for a timer. -/
def armCalls (d : LocTimerDelegate) : List SysCall := [.addPoll, .setTime (some d.mFutureTime)]

theorem updateSoonestTime_none (t : RankTree LocTimerDelegate) :
    (locHeapPeek t = none ∧ updateSoonestTime t none = []) ∨
      ∃ d, locHeapPeek t = some d ∧ updateSoonestTime t none = armCalls d := by
  rw [updateSoonestTime]
  cases h : locHeapPeek t with
  | none => exact .inl ⟨rfl, rfl⟩
  | some d => exact .inr ⟨d, rfl, rfl⟩

theorem updateSoonestTime_push (t : RankTree LocTimerDelegate) (x : LocTimerDelegate) :
    (locHeapPeek (locHeapPush ranks t x) = locHeapPeek t ∧
        updateSoonestTime (locHeapPush ranks t x) (locHeapPeek t) = []) ∨
      ∃ d, locHeapPeek (locHeapPush ranks t x) = some d ∧
        updateSoonestTime (locHeapPush ranks t x) (locHeapPeek t) = armCalls d := by
  cases t with
  | null => exact .inr ⟨x, rfl, rfl⟩
  | node s l r d =>
    have hpeek := peek_push_node s l r d x
    have hprior : locHeapPeek (node s l r d) = some d := rfl
    rw [updateSoonestTime, hpeek, hprior]
    by_cases hx : outRanks ranks x d = true
    · rw [if_pos hx]
      by_cases hsame : (some x : Option LocTimerDelegate) = some d
      · exact .inl ⟨hsame, if_pos hsame⟩
      · refine .inr ⟨x, rfl, ?_⟩
        rw [if_neg hsame]
        exact if_pos hx
    · rw [if_neg hx]
      exact .inl ⟨rfl, if_pos rfl⟩

/-! ### The invariant -/

/-- The container that the message thread is at. -/
def MsgPc.container : MsgPc L → Option Bool
  | .idle => none
  | .calls c _ => some c
  | .popping c _ _ => some c
  | .stopping c _ _ _ => some c
  | .removing c _ _ _ => some c
  | .callback c _ _ _ => some c

/-- The poll thread is inside `expire()` of the container, or its message is in the queue. -/
def WillExpire (st : TimerState L) (c : Bool) : Prop := st.events.head? = some c ∨ .expire c ∈ st.msgQ

/-- The timerfd wakes the poll thread in time for `d`, or an expire message is to come. -/
def Covered (st : TimerState L) (c : Bool) (d : LocTimerDelegate) : Prop :=
  (∃ t, st.armed c = some t ∧ t.ns ≤ d.mFutureTime.ns ∧ st.polled c = true) ∨ WillExpire st c

/-- The calls that are left arm the timerfd for `d`. -/
def Arming (st : TimerState L) (c : Bool) (d : LocTimerDelegate) (l : List SysCall) : Prop :=
  l = armCalls d ∨
    (l = [.setTime (some d.mFutureTime)] ∧ (st.polled c = true ∨ WillExpire st c))

/-- What holds of a container in every state. -/
structure Kept (st : TimerState L) (c : Bool) : Prop where
  heap : HeapOk timerRanking (st.mTree c)
  covered : st.msgTask.container ≠ some c → ∀ d, locHeapPeek (st.mTree c) = some d → Covered st c d
  arming : ∀ l, st.msgTask = .calls c l → ∀ d, locHeapPeek (st.mTree c) = some d → Arming st c d l

theorem kept_initial (boot : Timespec) (c : Bool) : Kept (initialTimers L boot) c where
  heap := ⟨trivial, trivial⟩
  covered := by
    intro _ d hd
    cases hd
  arming := by
    intro l hl
    cases hl

variable {st st' : TimerState L} {c : Bool}

theorem Covered.mono (h : Covered st c d) (harmed : st'.armed c = st.armed c)
    (hpolled : st'.polled c = st.polled c) (hwill : WillExpire st c → WillExpire st' c) : Covered st' c d := by
  rcases h with ⟨t, ht⟩ | hexp
  · refine .inl ⟨t, ?_⟩
    rw [harmed, hpolled]
    exact ht
  · exact .inr (hwill hexp)

/-- What leaves the heap and the message thread alone, and touches the timerfd only if an expire message is to
come. -/
theorem Kept.frame (h : Kept st c) (htree : st'.mTree c = st.mTree c)
    (hfd : (st'.armed c = st.armed c ∧ st'.polled c = st.polled c) ∨ WillExpire st' c)
    (hwill : WillExpire st c → WillExpire st' c)
    (hpc : st'.msgTask = st.msgTask ∨ (st.msgTask.container ≠ some c ∧ st'.msgTask.container ≠ some c)) :
    Kept st' c where
  heap := by
    rw [htree]
    exact h.heap
  covered := by
    intro hcont d hd
    rw [htree] at hd
    have hcont' : st.msgTask.container ≠ some c := by
      rcases hpc with hpc | hpc
      · rw [← hpc]
        exact hcont
      · exact hpc.1
    rcases hfd with ⟨harmed, hpolled⟩ | hexp
    · exact (h.covered hcont' d hd).mono harmed hpolled hwill
    · exact .inr hexp
  arming := by
    intro l hl d hd
    rw [htree] at hd
    have hl' : st.msgTask = .calls c l := by
      rcases hpc with hpc | hpc
      · rw [← hpc]
        exact hl
      · rw [hl] at hpc
        exact absurd rfl hpc.2
    rcases h.arming l hl' d hd with harm | ⟨hset, hpoll⟩
    · exact .inl harm
    refine .inr ⟨hset, ?_⟩
    rcases hfd with ⟨-, hpolled⟩ | hexp
    · rw [hpolled]
      exact hpoll.imp_right hwill
    · exact .inr hexp

theorem WillExpire.of_msgQ (hev : st'.events = st.events) (hq : ∀ m ∈ st.msgQ, m ∈ st'.msgQ)
    (h : WillExpire st c) : WillExpire st' c := by
  rcases h with h | h
  · refine .inl ?_
    rw [hev]
    exact h
  · exact .inr (hq _ h)

/-! ### The poll thread -/

theorem kept_pollStep (h : Kept st c) : Kept (pollStep st) c := by
  rw [pollStep]
  split
  · exact h
  rename_i e rest hev
  split
  · -- the timerfd of `e` is disarmed inside `expire()`
    have hwill : WillExpire st c → WillExpire { st.sysCall e (.setTime none) with stage := .removePoll } c :=
      WillExpire.of_msgQ rfl fun _ hm => hm
    refine h.frame rfl ?_ hwill (.inl rfl)
    by_cases hc : c = e
    · refine .inr (.inl ?_)
      show st.events.head? = some c
      rw [hev, hc]
      rfl
    · exact .inl ⟨update_of_ne hc _ _, rfl⟩
  · have hwill : WillExpire st c → WillExpire { st.sysCall e .removePoll with stage := .sendMsg } c :=
      WillExpire.of_msgQ rfl fun _ hm => hm
    refine h.frame rfl ?_ hwill (.inl rfl)
    by_cases hc : c = e
    · refine .inr (.inl ?_)
      show st.events.head? = some c
      rw [hev, hc]
      rfl
    · exact .inl ⟨rfl, update_of_ne hc _ _⟩
  -- what was inside `expire()` is in the queue now
  refine h.frame rfl (.inl ⟨rfl, rfl⟩) ?_ (.inl rfl)
  rintro (hhead | hmem)
  · rw [hev] at hhead
    obtain rfl : e = c := some.inj hhead
    exact .inr (mem_append_right _ (mem_singleton_self _))
  · exact .inr (mem_append_left _ hmem)

/-! ### The message thread -/

theorem container_ne {pc : MsgPc L} {e : Bool} (h : pc.container = none ∨ pc.container = some e) (hc : c ≠ e) :
    pc.container ≠ some c := by
  intro hcont
  rcases h with h | h
  · rw [h] at hcont
    cases hcont
  · rw [h] at hcont
    exact hc (some.inj hcont).symm

theorem container_makeCalls (e : Bool) (l : List SysCall) :
    (makeCalls e l : MsgPc L).container = none ∨ (makeCalls e l : MsgPc L).container = some e := by
  cases l with
  | nil => exact .inl rfl
  | cons => exact .inr rfl

theorem makeCalls_eq_calls {e : Bool} {l l' : List SysCall} (h : (makeCalls e l : MsgPc L) = .calls c l') :
    e = c ∧ l = l' := by
  cases l with
  | nil => cases h
  | cons =>
    cases h
    exact ⟨rfl, rfl⟩

/-- **An update covers the top**: the message thread has to make the calls that arm the timerfd for the top, or it
has no calls to make and the top is covered. -/
theorem Kept.of_update {l : List SysCall} (hheap : HeapOk timerRanking (st.mTree c)) (hpc : st.msgTask = makeCalls c l)
    (hl : (l = [] ∧ ∀ d, locHeapPeek (st.mTree c) = some d → Covered st c d) ∨
      ∃ d, locHeapPeek (st.mTree c) = some d ∧ l = armCalls d) : Kept st c where
  heap := hheap
  covered := by
    intro hcont
    rcases hl with ⟨-, hcov⟩ | ⟨d, -, rfl⟩
    · exact hcov
    · rw [hpc] at hcont
      exact absurd rfl hcont
  arming := by
    intro _ hl' d hd
    rw [hpc] at hl'
    obtain ⟨-, rfl⟩ := makeCalls_eq_calls hl'
    rcases hl with ⟨rfl, -⟩ | ⟨_, hd', rfl⟩
    · cases hl'
    · rw [hd'] at hd
      cases hd
      exact .inl rfl

theorem Kept.of_update_none {t : RankTree LocTimerDelegate} (hheap : HeapOk timerRanking t)
    (htree : st.mTree c = t) (hpc : st.msgTask = makeCalls c (updateSoonestTime t none)) : Kept st c := by
  subst htree
  refine Kept.of_update hheap hpc ?_
  rcases updateSoonestTime_none (st.mTree c) with ⟨hnone, hl⟩ | hsome
  · refine .inl ⟨hl, ?_⟩
    intro d hd
    rw [hnone] at hd
    cases hd
  · exact .inr hsome

theorem Kept.of_expiring (hheap : HeapOk timerRanking (st.mTree c)) (hcont : st.msgTask.container = some c)
    (hcalls : ∀ l, st.msgTask ≠ .calls c l) : Kept st c where
  heap := hheap
  covered := fun hne => absurd hcont hne
  arming := fun l hl => absurd hl (hcalls l)

theorem WillExpire.of_tail {m : TimerMsg} {q : List TimerMsg} (hq : st.msgQ = m :: q) (hm : m ≠ .expire c)
    (hev : st'.events = st.events) (hq' : st'.msgQ = q) (h : WillExpire st c) : WillExpire st' c := by
  rcases h with h | h
  · refine .inl ?_
    rw [hev]
    exact h
  refine .inr ?_
  rw [hq] at h
  rw [hq']
  exact (mem_cons.1 h).resolve_left hm.symm

/-- **A message**, up to its first system call. -/
theorem kept_procMsg {m : TimerMsg} {q : List TimerMsg} (h : Kept st c) (hidle : st.msgTask = .idle)
    (hq : st.msgQ = m :: q) : Kept (procMsg { st with msgQ := q } m) c := by
  have hcont : st.msgTask.container ≠ some c := by
    rw [hidle]
    exact nofun
  cases m with
  | push e timer =>
    have hwill : WillExpire st c → WillExpire (procMsg { st with msgQ := q } (.push e timer)) c :=
      WillExpire.of_tail hq (by simp) rfl rfl
    rcases eq_or_ne c e with rfl | hc
    · have htree : (procMsg { st with msgQ := q } (.push c timer)).mTree c = locHeapPush ranks (st.mTree c) timer :=
        update_self _ _ _
      refine Kept.of_update (l := updateSoonestTime (locHeapPush ranks (st.mTree c) timer) (locHeapPeek (st.mTree c)))
        ?_ rfl ?_
      · rw [htree]
        exact (heapOp_ok h.heap (.push timer)).1
      rw [htree]
      rcases updateSoonestTime_push (st.mTree c) timer with ⟨hpeek, hl⟩ | hsome
      · refine .inl ⟨hl, ?_⟩
        intro d hd
        rw [hpeek] at hd
        exact (h.covered hcont d hd).mono rfl rfl hwill
      · exact .inr hsome
    · refine h.frame (update_of_ne hc _ _) (.inl ⟨rfl, rfl⟩) hwill (.inr ⟨hcont, ?_⟩)
      exact container_ne (container_makeCalls e _) hc
  | remove e timer =>
    have hwill : WillExpire st c → WillExpire (procMsg { st with msgQ := q } (.remove e timer)) c :=
      WillExpire.of_tail hq (by simp) rfl rfl
    rcases eq_or_ne c e with rfl | hc
    · have htree : (procMsg { st with msgQ := q } (.remove c timer)).mTree c =
          (locHeapRemove ranks (st.mTree c) timer).2 := update_self _ _ _
      have hheap : HeapOk timerRanking (locHeapRemove ranks (st.mTree c) timer).2 :=
        (heapOp_ok h.heap (.remove timer)).1
      by_cases htop : locHeapPeek (st.mTree c) = (locHeapRemove ranks (st.mTree c) timer).1
      · exact Kept.of_update_none hheap htree (if_pos htop)
      refine Kept.of_update (l := []) (by rw [htree]; exact hheap) (if_neg htop) (.inl ⟨rfl, ?_⟩)
      intro d hd
      rw [htree, peek_locHeapRemove h.heap htop] at hd
      exact (h.covered hcont d hd).mono rfl rfl hwill
    refine h.frame (update_of_ne hc _ _) (.inl ⟨rfl, rfl⟩) hwill (.inr ⟨hcont, ?_⟩)
    show (if _ then makeCalls e _ else MsgPc.idle).container ≠ some c
    split
    · exact container_ne (container_makeCalls e _) hc
    · exact container_ne (.inl rfl) hc
  | expire e =>
    rcases eq_or_ne c e with rfl | hc
    · exact Kept.of_expiring h.heap rfl nofun
    have hm : TimerMsg.expire e ≠ .expire c := by
      intro he
      cases he
      exact hc rfl
    have hwill : WillExpire st c → WillExpire (procMsg { st with msgQ := q } (.expire e)) c :=
      WillExpire.of_tail hq hm rfl rfl
    exact h.frame rfl (.inl ⟨rfl, rfl⟩) hwill (.inr ⟨hcont, container_ne (.inr rfl) hc⟩)

theorem kept_sysCall {e : Bool} {call : SysCall} {l : List SysCall} (h : Kept st c)
    (hpc : st.msgTask = .calls e (call :: l)) : Kept { st.sysCall e call with msgTask := makeCalls e l } c := by
  have hwill : ∀ x, WillExpire st x → WillExpire { st.sysCall e call with msgTask := makeCalls e l } x := by
    intro x
    cases call with
    | addPoll | removePoll | setTime => exact WillExpire.of_msgQ rfl fun _ hm => hm
  have htree : ({ st.sysCall e call with msgTask := makeCalls e l } : TimerState L).mTree = st.mTree := by
    cases call <;> rfl
  rcases eq_or_ne c e with rfl | hc
  · have hcalls := h.arming _ hpc
    refine ⟨by rw [htree]; exact h.heap, ?_, ?_⟩
    · intro hcont d hd
      rw [htree] at hd
      rcases hcalls d hd with harm | ⟨hset, hpoll⟩
      · -- after `addPoll` there is `settime` to do
        cases harm
        exact absurd rfl hcont
      cases hset
      rcases hpoll with hpoll | hexp
      · exact .inl ⟨d.mFutureTime, update_self _ _ _, le_refl _, hpoll⟩
      · exact .inr (hwill c hexp)
    intro _ hl' d hd
    obtain ⟨-, rfl⟩ := makeCalls_eq_calls hl'
    rw [htree] at hd
    rcases hcalls d hd with harm | ⟨hset, -⟩
    · cases harm
      exact .inr ⟨rfl, Or.inl (update_self _ _ _)⟩
    · cases hset
      cases hl'
  refine h.frame (congrFun htree c) (.inl ?_) (hwill c) (.inr ⟨?_, container_ne (container_makeCalls e l) hc⟩)
  · cases call with
    | addPoll | removePoll => exact ⟨rfl, update_of_ne hc _ _⟩
    | setTime => exact ⟨update_of_ne hc _ _, rfl⟩
  · rw [hpc]
    exact container_ne (.inr rfl) hc

theorem Kept.expiring {e : Bool} (h : ∀ c, Kept st c) (hcont : st.msgTask.container = some e)
    (hcont' : st'.msgTask.container = some e) (hcalls : ∀ l, st'.msgTask ≠ .calls e l)
    (hheap : HeapOk timerRanking (st'.mTree e)) (htree : ∀ c, c ≠ e → st'.mTree c = st.mTree c)
    (harmed : st'.armed = st.armed) (hpolled : st'.polled = st.polled) (hev : st'.events = st.events)
    (hq : ∀ m ∈ st.msgQ, m ∈ st'.msgQ) : Kept st' c := by
  rcases eq_or_ne c e with rfl | hc
  · exact Kept.of_expiring hheap hcont' hcalls
  · refine (h c).frame (htree c hc) (.inl ⟨by rw [harmed], by rw [hpolled]⟩) (WillExpire.of_msgQ hev hq) ?_
    exact .inr ⟨container_ne (.inr hcont) hc, container_ne (.inr hcont') hc⟩

variable [DecidableEq L]

/-- **A step of the message thread.** -/
theorem kept_msgStep (h : ∀ c, Kept st c) (c : Bool) : Kept (msgStep st) c := by
  rw [msgStep]
  split
  · rename_i hidle
    split
    · exact h c
    · rename_i m q hq
      exact kept_procMsg (h c) hidle hq
  · rename_i e hpc
    rcases eq_or_ne c e with rfl | hc
    · refine Kept.of_update (l := []) (h c).heap rfl (.inl ⟨rfl, ?_⟩)
      intro d hd
      rcases (h c).arming [] hpc d hd with harm | ⟨hset, -⟩
      · cases harm
      · cases hset
    refine (h c).frame rfl (.inl ⟨rfl, rfl⟩) (WillExpire.of_msgQ rfl fun _ hm => hm) (.inr ⟨?_, ?_⟩)
    · rw [hpc]
      exact container_ne (.inr rfl) hc
    · exact container_ne (.inl rfl) hc
  · rename_i e call l hpc
    exact kept_sysCall (h c) hpc
  · rename_i e now first hpc
    have hcont : st.msgTask.container = some e := by
      rw [hpc]
      rfl
    have hheap := heapOk_popNext (h e).heap first now
    have hself : update st.mTree e (popNext first now (st.mTree e)).2 e =
        (popNext first now (st.mTree e)).2 := update_self _ _ _
    have hheap' : HeapOk timerRanking (update st.mTree e (popNext first now (st.mTree e)).2 e) := by
      rw [hself]
      exact hheap
    have hother : ∀ c, c ≠ e → update st.mTree e (popNext first now (st.mTree e)).2 c = st.mTree c :=
      fun c hc => update_of_ne hc _ _
    simp only
    split
    · rcases eq_or_ne c e with rfl | hc
      · exact Kept.of_update_none hheap hself rfl
      · refine (h c).frame (hother c hc) (.inl ⟨rfl, rfl⟩) (WillExpire.of_msgQ rfl fun _ hm => hm) (.inr ⟨?_, ?_⟩)
        · exact container_ne (.inr hcont) hc
        · exact container_ne (container_makeCalls e _) hc
    split
    · exact Kept.expiring h hcont rfl nofun hheap' hother rfl rfl rfl
        fun _ hm => hm
    · exact Kept.expiring h hcont rfl nofun hheap' hother rfl rfl rfl
        fun _ hm => hm
  · rename_i e now timer client hpc
    have hcont : st.msgTask.container = some e := by
      rw [hpc]
      rfl
    split
    · split
      · exact Kept.expiring h hcont rfl nofun (h e).heap (fun _ _ => rfl) rfl rfl rfl
          fun _ hm => hm
      · exact Kept.expiring h hcont rfl nofun (h e).heap (fun _ _ => rfl) rfl rfl rfl
          fun _ hm => hm
    · exact h c
  · rename_i e now client timer hpc
    have hcont : st.msgTask.container = some e := by
      rw [hpc]
      rfl
    obtain ⟨k, q, hsend⟩ := sendRemove_eq st timer
    rw [hsend]
    exact Kept.expiring h hcont rfl nofun (h e).heap (fun _ _ => rfl) rfl rfl rfl
      fun _ hm => mem_append_left _ hm
  rename_i e now client timer hpc
  have hcont : st.msgTask.container = some e := by
    rw [hpc]
    rfl
  exact Kept.expiring h hcont rfl nofun (h e).heap (fun _ _ => rfl) rfl rfl rfl fun _ hm => hm

/-! ### Runs -/

theorem kept_finishStep (h : Kept st c) (client : L) : Kept (finishStep st client) c := by
  rw [finishStep]
  split
  · exact h.frame rfl (.inl ⟨rfl, rfl⟩) (WillExpire.of_msgQ rfl fun _ hm => mem_append_left _ hm) (.inl rfl)
  · rename_i timer _
    obtain ⟨k, q, hsend⟩ := sendRemove_eq st timer
    rw [hsend]
    exact h.frame rfl (.inl ⟨rfl, rfl⟩) (WillExpire.of_msgQ rfl fun _ hm => mem_append_left _ hm) (.inl rfl)
  · exact h

theorem kept_timerStep (h : ∀ c, Kept st c) (a : TimerAction L) (c : Bool) : Kept (timerStep st a) c := by
  have hsame : ∀ st', st'.mTree = st.mTree → st'.armed = st.armed → st'.polled = st.polled →
      (WillExpire st c → WillExpire st' c) → st'.msgTask = st.msgTask → Kept st' c := by
    intro _ htree harmed hpolled hwill hpc
    exact (h c).frame (congrFun htree c) (.inl ⟨congrFun harmed c, congrFun hpolled c⟩) hwill (.inl hpc)
  cases a with
  | tick =>
    rw [timerStep]
    exact hsame _ rfl rfl rfl (WillExpire.of_msgQ rfl fun _ hm => hm) rfl
  | start =>
    rw [timerStep, startStep]
    split
    · exact hsame _ rfl rfl rfl (WillExpire.of_msgQ rfl fun _ hm => hm) rfl
    · exact h c
  | stop =>
    rw [timerStep, stopStep]
    split
    · split
      · exact h c
      · exact hsame _ rfl rfl rfl (WillExpire.of_msgQ rfl fun _ hm => hm) rfl
    · exact h c
  | finish client => exact kept_finishStep (h c) client
  | wake =>
    rw [timerStep]
    split_ifs with hwake
    · refine hsame _ rfl rfl rfl ?_ rfl
      -- `epoll_wait()` returns only while the poll thread is not in `expire()`
      rintro (hhead | hmem)
      · rw [hwake.1] at hhead
        cases hhead
      · exact .inr hmem
    · exact h c
  | poll => exact kept_pollStep (h c)
  | msg => exact kept_msgStep h c

theorem kept_timerRun (boot : Timespec) (acts : List (TimerAction L)) (c : Bool) : Kept (timerRun boot acts) c := by
  have hrun : ∀ st : TimerState L, (∀ c, Kept st c) → ∀ c, Kept (acts.foldl timerStep st) c := by
    induction acts with
    | nil => exact fun _ h => h
    | cons a _ ih => exact fun st h => ih _ fun c => kept_timerStep h a c
  exact hrun _ (kept_initial boot) c

/-- The timerfd is armed for `d`, and polled unless an expire message is to come. -/
def Rearmed (st : TimerState L) (c : Bool) (d : LocTimerDelegate) : Prop :=
  st.armed c = some d.mFutureTime ∧ (st.polled c = true ∨ WillExpire st c)

/-- No timer is lost: between two messages the top of a heap is covered, and at the end of a message in which the
message thread was at a container, an expire message above all, the timerfd is armed for the top. -/
structure NoTimerLost (st : TimerState L) : Prop where
  covered : st.msgTask = .idle → ∀ c d, locHeapPeek (st.mTree c) = some d → Covered st c d
  rearmed : ∀ c, st.msgTask.container = some c → (msgStep st).msgTask = .idle →
    ∀ d, locHeapPeek ((msgStep st).mTree c) = some d → Rearmed (msgStep st) c d

theorem rearmed_msgStep (h : Kept st c) (hcont : st.msgTask.container = some c) (hidle : (msgStep st).msgTask = .idle)
    (hd : locHeapPeek ((msgStep st).mTree c) = some d) : Rearmed (msgStep st) c d := by
  cases hpc : st.msgTask with
  | idle =>
    rw [hpc] at hcont
    cases hcont
  | calls e l =>
    obtain rfl : e = c := by
      rw [hpc] at hcont
      exact some.inj hcont
    cases l with
    | nil =>
      have hstep : msgStep st = { st with msgTask := .idle } := by rw [msgStep, hpc]
      rw [hstep] at hd
      rcases h.arming [] hpc d hd with harm | ⟨hset, -⟩
      · cases harm
      · cases hset
    | cons call l =>
      have hstep : msgStep st = { st.sysCall e call with msgTask := makeCalls e l } := by rw [msgStep, hpc]
      rw [hstep] at hidle hd ⊢
      have htop : locHeapPeek (st.mTree e) = some d := by
        cases call <;> exact hd
      rcases h.arming _ hpc d htop with harm | ⟨hset, hpoll⟩
      · cases harm
        cases hidle
      · cases hset
        exact ⟨update_self _ _ _, hpoll⟩
  | popping e now first =>
    obtain rfl : e = c := by
      rw [hpc] at hcont
      exact some.inj hcont
    rw [msgStep, hpc] at hidle hd
    cases hres : (popNext first now (st.mTree e)).1 with
    | none =>
      simp only [hres] at hidle hd
      rw [update_self] at hd
      -- the loop ends without a call only if the heap is empty
      rcases updateSoonestTime_none (popNext first now (st.mTree e)).2 with ⟨hnone, -⟩ | ⟨_, -, hl⟩
      · rw [hnone] at hd
        cases hd
      · rw [hl] at hidle
        cases hidle
    | some =>
      simp only [hres] at hidle
      split at hidle <;> cases hidle
  | stopping =>
    rw [msgStep, hpc] at hidle
    simp only at hidle
    split at hidle
    · split at hidle <;> cases hidle
    · rw [hpc] at hidle
      cases hidle
  | removing | callback =>
    rw [msgStep, hpc] at hidle
    cases hidle

/-- **No timer is lost**, in every interleaving of the three threads. -/
theorem locTimer_no_timer_lost (boot : Timespec) (acts : List (TimerAction L)) : NoTimerLost (timerRun boot acts) where
  covered := by
    intro hidle c d hd
    refine (kept_timerRun boot acts c).covered ?_ d hd
    rw [hidle]
    exact nofun
  rearmed := by
    intro c hcont hidle d hd
    exact rearmed_msgStep (kept_timerRun boot acts c) hcont hidle hd

/-- One second after the boot. -/
def oneSecond : Timespec := ⟨1, 0, by decide, by decide⟩

-- a second timer that is sooner: the timerfd is armed for it
example :
    (timerRun oneSecond [.start false 100 false, .finish false, .msg, .msg, .msg, .start true 10 false, .finish true,
      .msg, .msg, .msg]).armed false = some ⟨1, 10000000, by decide, by decide⟩ := by
  decide

end G4Common.Gps

/-
The answer to a request of the network is the answer of the user to that request.

The code checks a session without its lock and acts on it later.  In the runs where what was checked is still so
(`NiMeets`), a session passes through phases (`SessionOk`): it is idle, the engine thread stores a request, the thread
of the request waits, takes the request, and leaves.  The phase says what the session holds, which thread it has, and
what an answer that has come is worth.

A payload is held by the engine thread or by a session, until it is freed or sent (`Account`).

Main result: `ni_consent`.
-/
import Mathlib.Tactic.Push
import G4Common.Gps.Ni
import G4Common.Lib.Broadcast
import G4Common.Lib.SlotPool

namespace G4Common.Gps

open Broadcast Function List Option

/-! ### Phases of a session -/

/-- The engine thread has stored the payload of a request, and not yet started its thread. -/
def NiEngineOp.saving : NiEngineOp → Bool
  | .storeRaw _ _ => false
  | .storeId _ _ => true
  | .storeTime _ => true
  | .create => true
  | .resetFree => false
  | .resetNull => false
  | .resetFlag => false

/-- The engine thread is not in the middle of a change of the session. -/
def NiEngineOp.apart (op : NiEngineOp) : Bool := !op.saving && op ≠ .resetNull

/-- What the engine thread does next to a session. -/
def NiState.opAt (st : NiState) (es : Bool) : Option NiEngineOp :=
  match st.engine with
  | .idle => none
  | .work e op => if e = es then some op else none
  | .resetNext => none

/-- The user has answered, the request is ignored, or its time is over. -/
def Answered (answers : List (ℤ × ℤ)) (now : ℤ) (q : NiRequest) (resp : ℤ) : Prop :=
  (q.id, resp) ∈ answers ∨ resp = NI_IGNORE ∨ resp = NI_NORESP ∧ q.time + q.respTime ≤ now

/-- The time of a thread that waits is the time of its request. -/
def OwnTime (now : ℤ) (s : NiSession) (q : NiRequest) : NiThreadPc → Prop
  | .start => s.respTimeLeft = q.respTime ∧ q.time ≤ now
  | .waiting expire => q.time + q.respTime ≤ expire
  | .take => False
  | .use => False
  | .clear => False
  | .leave => False
  | .reset => False

/-- The phases, by what the engine thread does next to the session. -/
inductive SessionOk (requests : List NiRequest) (answers : List (ℤ × ℤ)) (now counter : ℤ) (s : NiSession) :
    Option NiEngineOp → Prop
  | idle {op : Option NiEngineOp} (hop : op.all NiEngineOp.apart = true) (hthreads : s.threads = [])
      (hraw : s.rawRequest = none) (hrecvd : s.respRecvd = false) : SessionOk requests answers now counter s op
  | storeId {payload : ℕ} {timeout : ℤ} (hthreads : s.threads = []) (hraw : s.rawRequest = some payload)
      (hrecvd : s.respRecvd = false) : SessionOk requests answers now counter s (some (.storeId payload timeout))
  | storeTime {q : NiRequest} {timeout : ℤ} (hq : q ∈ requests) (hthreads : s.threads = [])
      (hraw : s.rawRequest = some q.payload) (hrecvd : s.respRecvd = false) (hid : s.reqID = q.id)
      (hcounter : q.id = counter) (htime : q.time ≤ now) (hresp : q.respTime = NiState.respTime timeout) :
      SessionOk requests answers now counter s (some (.storeTime timeout))
  | create {q : NiRequest} (hq : q ∈ requests) (hthreads : s.threads = [])
      (hraw : s.rawRequest = some q.payload) (hrecvd : s.respRecvd = false) (hid : s.reqID = q.id)
      (hcounter : q.id = counter) (htime : q.time ≤ now) (hleft : s.respTimeLeft = q.respTime) :
      SessionOk requests answers now counter s (some .create)
  | waiting {op : Option NiEngineOp} {q : NiRequest} {pc : NiThreadPc} (hq : q ∈ requests)
      (hop : op.all (fun o => !o.saving) = true) (hthreads : s.threads = [(q.id, pc)]) (htime : OwnTime now s q pc)
      (hid : s.reqID = q.id) (hraw : s.rawRequest = some q.payload ∨ s.rawRequest = none)
      (hflag : op = some .resetFlag → s.rawRequest = none)
      (hanswer : s.respRecvd = true → s.rawRequest = some q.payload → Answered answers now q s.resp) :
      SessionOk requests answers now counter s op
  | taking {op : Option NiEngineOp} {q : NiRequest} {pc : NiThreadPc} (hq : q ∈ requests)
      (hop : op.all NiEngineOp.apart = true) (hthreads : s.threads = [(q.id, pc)]) (hpc : pc.locks = true)
      (hid : s.reqID = q.id) (hrecvd : s.respRecvd = false)
      (hraw : s.rawRequest = some q.payload ∨ pc = .take ∧ s.rawRequest = none)
      (hanswer : s.rawRequest = some q.payload → Answered answers now q s.resp) :
      SessionOk requests answers now counter s op
  | leaving {op : Option NiEngineOp} {n : ℤ} {pc : NiThreadPc} (hop : op.all NiEngineOp.apart = true)
      (hthreads : s.threads = [(n, pc)]) (hpc : pc = .leave ∨ pc = .reset)
      (hraw : s.rawRequest = none) (hrecvd : s.respRecvd = false) : SessionOk requests answers now counter s op

def NiState.PhaseOk (st : NiState) (es : Bool) : Prop :=
  SessionOk st.requests st.answers st.now st.reqIDCounter (st.sessions es) (st.opAt es)

section Phases

variable {requests requests' : List NiRequest} {answers answers' : List (ℤ × ℤ)} {now now' counter counter' : ℤ}
  {s : NiSession} {op op' : Option NiEngineOp}
variable {q : NiRequest} {pc pc' : NiThreadPc} {n resp : ℤ}

theorem Answered.mono (h : Answered answers now q resp) (ha : answers ⊆ answers')
    (hn : now ≤ now') : Answered answers' now' q resp := by
  rcases h with h | h | ⟨h, ht⟩
  · exact .inl (ha h)
  · exact .inr (.inl h)
  · exact .inr (.inr ⟨h, Int.le_trans ht hn⟩)

theorem OwnTime.mono (h : OwnTime now s q pc) (hn : now ≤ now') : OwnTime now' s q pc := by
  cases pc with
  | start => exact ⟨h.1, Int.le_trans h.2 hn⟩
  | waiting | take | use | clear | leave | reset => exact h

theorem OwnTime.waits (h : OwnTime now s q pc) : pc.waits = true := by
  cases pc with
  | start | waiting => rfl
  | take | use | clear | leave | reset => exact h.elim

theorem SessionOk.mono (h : SessionOk requests answers now counter s op) (hr : requests ⊆ requests')
    (ha : answers ⊆ answers') (hn : now ≤ now') (hc : op.any NiEngineOp.saving → counter' = counter) :
    SessionOk requests' answers' now' counter' s op := by
  cases h with
  | idle hop ht hraw hrecvd => exact .idle hop ht hraw hrecvd
  | storeId ht hraw hrecvd => exact .storeId ht hraw hrecvd
  | storeTime hq ht hraw hrecvd hid hcounter htime hresp =>
    exact .storeTime (hr hq) ht hraw hrecvd hid (hcounter.trans (hc rfl).symm) (Int.le_trans htime hn) hresp
  | create hq ht hraw hrecvd hid hcounter htime hleft =>
    exact .create (hr hq) ht hraw hrecvd hid (hcounter.trans (hc rfl).symm) (Int.le_trans htime hn) hleft
  | waiting hq hop ht htime hid hraw hflag hanswer =>
    exact .waiting (hr hq) hop ht (htime.mono hn) hid hraw hflag fun h1 h2 => (hanswer h1 h2).mono ha hn
  | taking hq hop ht hpc hid hrecvd hraw hanswer =>
    exact .taking (hr hq) hop ht hpc hid hrecvd hraw fun h => (hanswer h).mono ha hn
  | leaving hop ht hpc hraw hrecvd => exact .leaving hop ht hpc hraw hrecvd

theorem SessionOk.turn (h : SessionOk requests answers now counter s op) (hop : op.all NiEngineOp.apart)
    (hop' : op'.all NiEngineOp.apart) (hne : op' ≠ some .resetFlag) : SessionOk requests answers now counter s op' := by
  cases h with
  | idle _ ht hraw hrecvd => exact .idle hop' ht hraw hrecvd
  | storeId | storeTime | create => exact nomatch hop
  | waiting hq _ ht htime hid hraw _ hanswer =>
    refine .waiting hq ?_ ht htime hid hraw (fun h => absurd h hne) hanswer
    cases op' with
    | none => rfl
    | some =>
      rw [all_some, NiEngineOp.apart, Bool.and_eq_true] at hop'
      exact hop'.1
  | taking hq _ ht hpc hid hrecvd hraw hanswer => exact .taking hq hop' ht hpc hid hrecvd hraw hanswer
  | leaving _ ht hpc hraw hrecvd => exact .leaving hop' ht hpc hraw hrecvd

/-! ### A thread -/

theorem threads_setPc (h : s.threads = [(n, pc)]) : (s.setPc n pc').threads = [(n, pc')] := by
  show s.threads.map _ = _
  rw [h, map_cons, map_nil, if_pos rfl]

theorem threads_removeThread (h : s.threads = [(n, pc)]) : (s.removeThread n).threads = [] := by
  show s.threads.filter _ = _
  rw [h, filter_cons_of_neg, filter_nil]
  exact fun hne => of_decide_eq_true hne rfl

theorem eq_of_lookup {n' : ℤ} (ht : s.threads = [(n', pc')])
    (h : s.threads.lookup n = some pc) : n' = n ∧ pc' = pc := by
  rw [ht, lookup_cons] at h
  split at h
  · rename_i hn
    exact ⟨(eq_of_beq hn).symm, some.inj h⟩
  · exact nomatch h

theorem locked_eq (h : s.threads = [(n, pc)]) : s.locked = pc.locks := by
  rw [NiSession.locked, h, any_cons, any_nil, Bool.or_false]

theorem locks_of_waits (h : pc.waits) : pc.locks = false := by
  cases pc with
  | start | waiting => rfl
  | take | use | clear | leave | reset => exact nomatch h

theorem SessionOk.leaveLoop (hq : q ∈ requests)
    (hop : op.all (fun o => !o.saving)) (hnull : op ≠ some .resetNull) (ht : s.threads = [(q.id, pc)])
    (hid : s.reqID = q.id) (hraw : s.rawRequest = some q.payload ∨ s.rawRequest = none)
    (hanswer : s.rawRequest = some q.payload → Answered answers now q resp) :
    SessionOk requests answers now counter { s.leaveLoop q.id with resp := resp } op := by
  refine .taking hq ?_ (threads_setPc ht) rfl hid rfl ?_ hanswer
  · cases op with
    | none => rfl
    | some =>
      rw [all_some] at hop ⊢
      rw [NiEngineOp.apart, hop, Bool.true_and, decide_eq_true_eq]
      exact fun h => hnull (congrArg some h)
  · exact hraw.imp id fun h => ⟨rfl, h⟩

end Phases

section Steps

variable {st : NiState} {es : Bool} {n : ℤ} {pc : NiThreadPc} {expired : Bool}
variable {q : NiRequest} {s : NiSession}

theorem sessions_setSession (s : NiSession) (e : Bool) :
    (st.setSession es s).sessions e = if e = es then s else st.sessions e := by
  show update st.sessions es s e = _
  rw [update_apply]

theorem phaseOk_setSession
    (h : SessionOk st.requests st.answers st.now st.reqIDCounter s (st.opAt es)) : (st.setSession es s).PhaseOk es := by
  show SessionOk _ _ _ _ ((st.setSession es s).sessions es) (st.opAt es)
  rw [sessions_setSession, if_pos rfl]
  exact h

theorem opAt_eq_some {op : NiEngineOp} : st.opAt es = some op ↔ st.engine = .work es op := by
  rw [NiState.opAt]
  split
  · rename_i h
    rw [h]
    exact iff_of_false nofun nofun
  · rename_i e o h
    rw [h, NiEnginePc.work.injEq]
    split
    · rename_i he
      rw [Option.some.injEq]
      exact ⟨fun ho => ⟨he, ho⟩, fun ho => ho.2⟩
    · rename_i he
      exact iff_of_false nofun fun ho => he ho.1
  · rename_i h
    rw [h]
    exact iff_of_false nofun nofun

/-- A thread that waits is in the phase for it. -/
structure Waiting (st : NiState) (es : Bool) (q : NiRequest) (pc : NiThreadPc) : Prop where
  mem : q ∈ st.requests
  op : (st.opAt es).all (fun o => !o.saving) = true
  threads : (st.sessions es).threads = [(q.id, pc)]
  time : OwnTime st.now (st.sessions es) q pc
  id : (st.sessions es).reqID = q.id
  raw : (st.sessions es).rawRequest = some q.payload ∨ (st.sessions es).rawRequest = none
  flag : st.opAt es = some .resetFlag → (st.sessions es).rawRequest = none
  answer : (st.sessions es).respRecvd = true → (st.sessions es).rawRequest = some q.payload →
    Answered st.answers st.now q (st.sessions es).resp

theorem Waiting.phaseOk (h : Waiting st es q pc) : st.PhaseOk es :=
  .waiting h.mem h.op h.threads h.time h.id h.raw h.flag h.answer

theorem phaseOk_wait (h : Waiting st es q pc) (hnull : st.leavesLoop es expired pc → st.opAt es ≠ some .resetNull) :
    (st.threadAccess es q.id expired pc).PhaseOk es := by
  have hlock : (st.sessions es).locked = false := by
    rw [locked_eq h.threads]
    exact locks_of_waits h.time.waits
  have htime := h.time
  cases pc with
  | start =>
    simp only [NiState.threadAccess, hlock, Bool.false_eq_true, if_false]
    split
    · rename_i hrecvd
      exact phaseOk_setSession (.leaveLoop h.mem h.op (hnull hrecvd) h.threads h.id h.raw (h.answer hrecvd))
    refine phaseOk_setSession (.waiting h.mem h.op (threads_setPc h.threads) ?_ h.id h.raw h.flag h.answer)
    have hown := htime.1
    have hle := htime.2
    show q.time + q.respTime ≤ st.now + (st.sessions es).respTimeLeft
    omega
  | waiting expire =>
    simp only [NiState.threadAccess, hlock, Bool.false_eq_true, if_false]
    split
    · -- the time of the request is over
      rename_i hover
      have hle : q.time + q.respTime ≤ st.now := by
        rw [Bool.and_eq_true, decide_eq_true_eq] at hover
        exact Int.le_trans htime hover.2
      refine phaseOk_setSession
        (.leaveLoop h.mem h.op (hnull ?_) h.threads h.id h.raw fun _ => Or.inr (.inr ⟨rfl, hle⟩))
      rw [NiState.leavesLoop, hover]
      rfl
    split_ifs with hrecvd
    · refine phaseOk_setSession (.leaveLoop h.mem h.op (hnull ?_) h.threads h.id h.raw (h.answer hrecvd))
      rw [NiState.leavesLoop, hrecvd, Bool.or_true]
    · exact h.phaseOk
  | take | use | clear | leave | reset => exact htime.elim

theorem phaseOk_take (hq : q ∈ st.requests) (hop : (st.opAt es).all NiEngineOp.apart)
    (ht : (st.sessions es).threads = [(q.id, pc)]) (hpc : pc.locks) (hid : (st.sessions es).reqID = q.id)
    (hrecvd : (st.sessions es).respRecvd = false)
    (hraw : (st.sessions es).rawRequest = some q.payload ∨ pc = .take ∧ (st.sessions es).rawRequest = none)
    (hanswer : (st.sessions es).rawRequest = some q.payload → Answered st.answers st.now q (st.sessions es).resp) :
    (st.threadAccess es q.id expired pc).PhaseOk es := by
  cases pc with
  | start | waiting => exact nomatch hpc
  | take =>
    rcases hraw with hraw | ⟨-, hraw⟩
    · refine phaseOk_setSession (.taking hq hop (threads_setPc ht) ?_ hid hrecvd (.inl hraw) hanswer)
      rw [hraw]
      rfl
    · refine phaseOk_setSession (.leaving hop (threads_setPc ht) ?_ hraw hrecvd)
      rw [hraw]
      exact .inl rfl
  | use =>
    have hclear : (st.setSession es ((st.sessions es).setPc q.id .clear)).PhaseOk es := phaseOk_setSession
        (.taking hq hop (threads_setPc ht) rfl hid hrecvd (.inl (hraw.resolve_right nofun)) hanswer)
    rw [NiState.threadAccess]
    split
    · exact hclear
    · exact hclear
  | clear =>
    exact phaseOk_setSession (.leaving hop (threads_setPc ht) (.inl rfl) rfl hrecvd)
  | leave | reset => exact nomatch hpc

theorem phaseOk_threadAccess (h : st.PhaseOk es) (hlook : (st.sessions es).threads.lookup n = some pc)
    (hmeets : niThreadMeets st es n expired) : (st.threadAccess es n expired pc).PhaseOk es := by
  have hnull : st.leavesLoop es expired pc = true → st.opAt es ≠ some .resetNull := by
    intro hleaves hop
    rw [niThreadMeets, hlook] at hmeets
    simp only [hleaves, Bool.not_true, Bool.false_or, decide_eq_true_eq] at hmeets
    exact hmeets (opAt_eq_some.1 hop)
  have hnone : (st.sessions es).threads ≠ [] := by
    intro hnil
    rw [hnil] at hlook
    exact nomatch hlook
  rw [NiState.PhaseOk] at h
  generalize hgen : st.opAt es = op at h
  cases h with
  | idle _ ht | storeId ht | storeTime _ ht
  | create _ ht => exact absurd ht hnone
  | waiting hq hop ht htime hid hraw hflag hanswer =>
    obtain ⟨rfl, rfl⟩ := eq_of_lookup ht hlook
    rw [← hgen] at hop hflag
    exact phaseOk_wait ⟨hq, hop, ht, htime, hid, hraw, hflag, hanswer⟩ hnull
  | taking hq hop ht hpc hid hrecvd hraw hanswer =>
    obtain ⟨rfl, rfl⟩ := eq_of_lookup ht hlook
    rw [← hgen] at hop
    exact phaseOk_take hq hop ht hpc hid hrecvd hraw hanswer
  | leaving hop ht hpc hraw hrecvd =>
    obtain ⟨rfl, rfl⟩ := eq_of_lookup ht hlook
    rw [← hgen] at hop
    rcases hpc with rfl | rfl
    · exact phaseOk_setSession (.leaving hop (threads_setPc ht) (.inr rfl) hraw hrecvd)
    · exact phaseOk_setSession (.idle hop (threads_removeThread ht) hraw hrecvd)

/-! ### The framework thread and the engine thread -/

theorem hasWaiter_eq (h : s.threads = [(n, pc)]) : s.hasWaiter = pc.waits := by
  rw [NiSession.hasWaiter, h, any_cons, any_nil, Bool.or_false]

theorem hasWaiter_nil (h : s.threads = []) : s.hasWaiter = false := by
  rw [NiSession.hasWaiter, h, any_nil]

theorem waiting_of_hasWaiter (h : st.PhaseOk es) (hw : (st.sessions es).hasWaiter) : ∃ q pc, Waiting st es q pc := by
  rw [NiState.PhaseOk] at h
  generalize hgen : st.opAt es = op at h
  have hnone : (st.sessions es).threads ≠ [] := fun hnil => nomatch hw.symm.trans (hasWaiter_nil hnil)
  cases h with
  | idle _ ht | storeId ht | storeTime _ ht
  | create _ ht => exact absurd ht hnone
  | waiting hq hop ht htime hid hraw hflag hanswer =>
    rw [← hgen] at hop hflag
    exact ⟨_, _, hq, hop, ht, htime, hid, hraw, hflag, hanswer⟩
  | taking _ _ ht hpc =>
    rw [hasWaiter_eq ht] at hw
    exact nomatch (locks_of_waits hw).symm.trans hpc
  | leaving _ ht hpc =>
    rw [hasWaiter_eq ht] at hw
    rcases hpc with rfl | rfl
    · exact nomatch hw
    · exact nomatch hw

theorem phaseOk_answer {resp : ℤ} (h : Waiting st es q pc)
    (ha : Answered st.answers st.now q resp) : (st.setSession es ((st.sessions es).answer resp)).PhaseOk es := by
  have htime : OwnTime st.now ((st.sessions es).answer resp) q pc := by
    have htime := h.time
    cases pc with
    | start | waiting | take | use | clear | leave | reset => exact htime
  exact phaseOk_setSession (.waiting h.mem h.op h.threads htime h.id h.raw h.flag fun _ _ => ha)

theorem phaseOk_of {st' : NiState} {s' : NiSession} {op' : Option NiEngineOp} (hs : st'.sessions es = s')
    (ho : st'.opAt es = op') (h : SessionOk st'.requests st'.answers st'.now st'.reqIDCounter s' op') :
    st'.PhaseOk es := by
  rw [NiState.PhaseOk, hs, ho]
  exact h

theorem setSession_self (s : NiSession) : (st.setSession es s).sessions es = s := by
  rw [sessions_setSession, if_pos rfl]

section Work

variable {payload : ℕ} {timeout : ℤ} {created : Bool}

theorem phaseOk_storeRaw (hen : st.engine = .work es (.storeRaw payload timeout)) (h : st.PhaseOk es)
    (hnil : (st.sessions es).threads = []) : (st.work created es (.storeRaw payload timeout)).PhaseOk es := by
  rw [NiState.PhaseOk, opAt_eq_some.2 hen] at h
  refine phaseOk_of (setSession_self _) (opAt_eq_some.2 rfl) ?_
  cases h with
  | idle _ ht _ hrecvd => exact .storeId ht rfl hrecvd
  | waiting _ _ ht | taking _ _ ht
  | leaving _ ht => exact nomatch ht.symm.trans hnil

theorem phaseOk_storeId (hen : st.engine = .work es (.storeId payload timeout)) (h : st.PhaseOk es) :
    (st.work created es (.storeId payload timeout)).PhaseOk es := by
  rw [NiState.PhaseOk, opAt_eq_some.2 hen] at h
  refine phaseOk_of (setSession_self _) (opAt_eq_some.2 rfl) ?_
  cases h with
  | idle hop => exact nomatch hop
  | storeId ht hraw hrecvd => exact .storeTime (.head _) ht hraw hrecvd rfl rfl le_rfl rfl
  | waiting _ hop | taking _ hop
  | leaving hop => exact nomatch hop

theorem phaseOk_storeTime (hen : st.engine = .work es (.storeTime timeout)) (h : st.PhaseOk es) :
    (st.work created es (.storeTime timeout)).PhaseOk es := by
  rw [NiState.PhaseOk, opAt_eq_some.2 hen] at h
  refine phaseOk_of (setSession_self _) (opAt_eq_some.2 rfl) ?_
  cases h with
  | idle hop => exact nomatch hop
  | storeTime hq ht hraw hrecvd hid hcounter htime hresp =>
    exact .create hq ht hraw hrecvd hid hcounter htime hresp.symm
  | waiting _ hop | taking _ hop
  | leaving hop => exact nomatch hop

theorem phaseOk_create (hen : st.engine = .work es .create) (h : st.PhaseOk es) :
    (st.work true es .create).PhaseOk es := by
  rw [NiState.PhaseOk, opAt_eq_some.2 hen] at h
  refine phaseOk_of (setSession_self _) rfl ?_
  cases h with
  | idle hop => exact nomatch hop
  | create hq ht hraw hrecvd hid hcounter htime hleft =>
    have hthreads : (st.reqIDCounter, NiThreadPc.start) :: (st.sessions es).threads = [(st.reqIDCounter, .start)] := by
      rw [ht]
    rw [← hcounter] at hthreads ⊢
    exact .waiting hq rfl hthreads ⟨hleft, htime⟩ hid (.inl hraw) nofun fun h => nomatch hrecvd.symm.trans h
  | waiting _ hop | taking _ hop
  | leaving hop => exact nomatch hop

theorem phaseOk_resetFree (h : st.PhaseOk es) (hw : (st.sessions es).hasWaiter) :
    (st.work created es .resetFree).PhaseOk es := by
  obtain ⟨q, _, hwait⟩ := waiting_of_hasWaiter h hw
  refine phaseOk_of rfl (opAt_eq_some.2 rfl) ?_
  exact .waiting hwait.mem rfl hwait.threads hwait.time hwait.id hwait.raw nofun hwait.answer

theorem phaseOk_resetNull (hen : st.engine = .work es .resetNull) (h : st.PhaseOk es) :
    (st.work created es .resetNull).PhaseOk es := by
  rw [NiState.PhaseOk, opAt_eq_some.2 hen] at h
  refine phaseOk_of (setSession_self _) (opAt_eq_some.2 rfl) ?_
  cases h with
  | idle hop => exact nomatch hop
  | waiting hq _ ht htime hid hraw =>
    exact .waiting hq rfl ht htime hid (.inr rfl) (fun _ => rfl) fun _ hraw => nomatch hraw
  | taking _ hop | leaving hop => exact nomatch hop

theorem phaseOk_resetFlag (hen : st.engine = .work es .resetFlag) (h : st.PhaseOk es)
    (hw : ((st.sessions es).locked || (st.sessions es).hasWaiter)) : (st.work created es .resetFlag).PhaseOk es := by
  rw [NiState.work]
  split
  · exact h
  rename_i hlock
  rw [Bool.not_eq_true] at hlock
  rw [hlock, Bool.false_or] at hw
  obtain ⟨q, _, hwait⟩ := waiting_of_hasWaiter h hw
  have hraw := hwait.flag (opAt_eq_some.2 hen)
  have hop : ∀ st' : NiState, st'.engine = (if es then .resetNext else .idle) → st'.opAt es = none := by
    intro _ hst'
    rw [NiState.opAt, hst']
    cases es with
    | true | false => rfl
  refine phaseOk_of (setSession_self _) (hop _ rfl) ?_
  exact .waiting hwait.mem rfl hwait.threads hwait.time hwait.id (.inr hraw) nofun
    fun _ h => nomatch hraw.symm.trans h

theorem phaseOk_work {op : NiEngineOp} (hen : st.engine = .work es op) (h : st.PhaseOk es)
    (hmeets : niEngineMeets st created) : (st.work created es op).PhaseOk es := by
  simp only [niEngineMeets, hen] at hmeets
  cases op with
  | storeRaw => exact phaseOk_storeRaw hen h (List.isEmpty_iff.1 hmeets)
  | storeId => exact phaseOk_storeId hen h
  | storeTime => exact phaseOk_storeTime hen h
  | create =>
    have hcreated : created = true := hmeets
    subst hcreated
    exact phaseOk_create hen h
  | resetFree => exact phaseOk_resetFree h hmeets
  | resetNull => exact phaseOk_resetNull hen h
  | resetFlag => exact phaseOk_resetFlag hen h hmeets

end Work

/-! ### All sessions -/

theorem phaseOk_frame {st' : NiState} (h : st.PhaseOk es) (hs : st'.sessions es = st.sessions es)
    (ho : st'.opAt es = st.opAt es) (hr : st.requests ⊆ st'.requests) (ha : st.answers ⊆ st'.answers)
    (hn : st.now ≤ st'.now) (hc : (st.opAt es).any NiEngineOp.saving → st'.reqIDCounter = st.reqIDCounter) :
    st'.PhaseOk es :=
  phaseOk_of hs ho (h.mono hr ha hn hc)

theorem opAt_of_ne {e : Bool} {op : NiEngineOp} (hen : st.engine = .work es op) (hne : e ≠ es) : st.opAt e = none := by
  rw [NiState.opAt, hen]
  exact if_neg hne.symm

theorem work_other (st : NiState) (created : Bool) (op : NiEngineOp) {e : Bool} (hne : e ≠ es) :
    (st.work created es op).sessions e = st.sessions e ∧ (st.work created es op).opAt e = none ∨
      st.work created es op = st := by
  have hupd : ∀ s, (st.setSession es s).sessions e = st.sessions e := by
    intro s
    rw [sessions_setSession, if_neg hne]
  have hop : ∀ {st' : NiState} {op' : NiEngineOp}, st'.engine = .work es op' → st'.opAt e = none :=
    fun h => opAt_of_ne h hne
  cases op with
  | storeRaw | storeId | storeTime => exact .inl ⟨hupd _, hop rfl⟩
  | create =>
    rw [NiState.work]
    split
    · exact .inl ⟨hupd _, rfl⟩
    · exact .inl ⟨rfl, rfl⟩
  | resetFree => exact .inl ⟨rfl, hop rfl⟩
  | resetNull => exact .inl ⟨hupd _, hop rfl⟩
  | resetFlag =>
    rw [NiState.work]
    split
    · exact .inr rfl
    · refine .inl ⟨hupd _, ?_⟩
      cases es with
      | true | false => rfl

theorem work_grows (st : NiState) (created es : Bool) (op : NiEngineOp) :
    st.requests ⊆ (st.work created es op).requests ∧ (st.work created es op).answers = st.answers ∧
      (st.work created es op).now = st.now ∧ (st.work created es op).framework = st.framework ∧
      (st.work created es op).responses = st.responses := by
  cases op with
  | storeId => exact ⟨subset_cons_self _ _, rfl, rfl, rfl, rfl⟩
  | create | resetFlag =>
    rw [NiState.work]
    split <;> exact ⟨Subset.refl _, rfl, rfl, rfl, rfl⟩
  | storeRaw | storeTime | resetFree | resetNull => exact ⟨Subset.refl _, rfl, rfl, rfl, rfl⟩

theorem phasesOk_turn {pc' : NiEnginePc} (h : ∀ e, st.PhaseOk e) (hnone : ∀ e, st.opAt e = none)
    (hpc : ∀ e op, pc' = .work e op → op.apart ∧ op ≠ .resetFlag) (e : Bool) {st' : NiState}
    (hs : st'.sessions = st.sessions) (hen : st'.engine = pc') (hr : st'.requests = st.requests)
    (ha : st'.answers = st.answers) (hn : st'.now = st.now) (hc : st'.reqIDCounter = st.reqIDCounter) :
    st'.PhaseOk e := by
  have he := h e
  rw [NiState.PhaseOk, hnone e] at he
  rw [NiState.PhaseOk, hs, hr, ha, hn, hc]
  refine he.turn rfl ?_ ?_
  · rcases ho : st'.opAt e with - | op
    · rfl
    · exact (hpc e op (hen.symm.trans (opAt_eq_some.1 ho))).1
  · intro ho
    exact (hpc e .resetFlag (hen.symm.trans (opAt_eq_some.1 ho))).2 rfl

/-- The engine thread is at no session, and stays so or begins to reset one. -/
def Turns (st st' : NiState) : Prop :=
  ∃ pc, st' = { st with engine := pc } ∧ (∀ e op, st.engine ≠ .work e op) ∧ ∀ e op, pc = .work e op → op = .resetFree

theorem restart_cases (st : NiState) : st.restart = st ∨ Turns st st.restart := by
  rw [NiState.restart]
  split
  · exact .inl rfl
  rename_i hen
  rw [not_not] at hen
  right
  split <;> refine ⟨_, rfl, (fun e op he => nomatch hen.symm.trans he), fun e op he => ?_⟩
  · exact (NiEnginePc.work.inj he).2.symm
  · exact nomatch he

theorem engineStep_cases (st : NiState) (created : Bool) :
    (∃ es op, st.engine = .work es op ∧ st.engineStep created = st.work created es op) ∨
      st.engineStep created = st ∨ Turns st (st.engineStep created) := by
  rw [NiState.engineStep]
  split
  · exact .inr (.inl rfl)
  · rename_i es op hen
    exact .inl ⟨es, op, hen, rfl⟩
  rename_i hen
  refine .inr (.inr ?_)
  split <;> refine ⟨_, rfl, (fun e op he => nomatch hen.symm.trans he), fun e op he => ?_⟩
  · exact (NiEnginePc.work.inj he).2.symm
  · exact nomatch he

theorem opAt_none (h : ∀ e op, st.engine ≠ .work e op) (e : Bool) : st.opAt e = none := by
  rcases ho : st.opAt e with - | op
  · rfl
  · exact absurd (opAt_eq_some.1 ho) (h e op)

theorem phasesOk_work {created : Bool} {op : NiEngineOp} (hen : st.engine = .work es op) (h : ∀ e, st.PhaseOk e)
    (hmeets : niEngineMeets st created) (e : Bool) : (st.work created es op).PhaseOk e := by
  rcases eq_or_ne e es with rfl | hne
  · exact phaseOk_work hen (h e) hmeets
  obtain ⟨hr, ha, hn, -⟩ := work_grows st created es op
  rcases work_other st created op hne with ⟨hs, ho⟩ | heq
  · have hnone := opAt_of_ne hen hne
    refine phaseOk_frame (h e) hs (ho.trans hnone.symm) hr (ha ▸ Subset.refl _) (Int.le_of_eq hn.symm) ?_
    rw [hnone]
    exact nofun
  · rw [heq]
    exact h e

theorem phasesOk_setSession (h : ∀ e, st.PhaseOk e) (hs : (st.setSession es s).PhaseOk es) (e : Bool) :
    (st.setSession es s).PhaseOk e := by
  rcases eq_or_ne e es with rfl | hne
  · exact hs
  · refine phaseOk_frame (h e) ?_ rfl (List.Subset.refl _) (List.Subset.refl _) le_rfl fun _ => rfl
    rw [sessions_setSession, if_neg hne]

/-- What a thread of one session leaves alone. -/
structure Local (st : NiState) (es : Bool) (st' : NiState) : Prop where
  sessions : ∀ e, e ≠ es → st'.sessions e = st.sessions e
  engine : st'.engine = st.engine
  framework : st'.framework = st.framework
  requests : st'.requests = st.requests
  answers : st'.answers = st.answers
  now : st'.now = st.now
  counter : st'.reqIDCounter = st.reqIDCounter
  allocated : st'.allocated = st.allocated

theorem local_refl (st : NiState) (es : Bool) : Local st es st := ⟨fun _ _ => rfl, rfl, rfl, rfl, rfl, rfl, rfl, rfl⟩

theorem local_setSession (st : NiState) (es : Bool) (s : NiSession) : Local st es (st.setSession es s) := by
  refine ⟨?_, rfl, rfl, rfl, rfl, rfl, rfl, rfl⟩
  intro e hne
  rw [sessions_setSession, if_neg hne]

theorem threadAccess_waits (n : ℤ) (expired : Bool) (hpc : pc.waits) :
    st.threadAccess es n expired pc = st ∨ ∃ pc' ≠ .clear, ∃ recvd resp, st.threadAccess es n expired pc =
      st.setSession es { (st.sessions es).setPc n pc' with respRecvd := recvd, resp := resp } := by
  cases pc with
  | start =>
    simp only [NiState.threadAccess]
    split_ifs
    · exact .inl rfl
    · exact .inr ⟨.take, nofun, _, _, rfl⟩
    · exact .inr ⟨.waiting _, nofun, _, _, rfl⟩
  | waiting =>
    simp only [NiState.threadAccess]
    split_ifs
    · exact .inl rfl
    · exact .inr ⟨.take, nofun, _, _, rfl⟩
    · exact .inr ⟨.take, nofun, _, _, rfl⟩
    · exact .inl rfl
  | take | use | clear | leave | reset => exact nomatch hpc

theorem local_threadAccess (st : NiState) (es : Bool) (n : ℤ) (expired : Bool) (pc : NiThreadPc) :
    Local st es (st.threadAccess es n expired pc) := by
  by_cases hpc : pc.waits
  · rcases threadAccess_waits n expired hpc with h | ⟨_, -, _, _, h⟩ <;> rw [h]
    · exact local_refl st es
    · exact local_setSession st es _
  cases pc with
  | start | waiting => exact absurd rfl hpc
  | use =>
    have hlocal := local_setSession st es ((st.sessions es).setPc n .clear)
    simp only [NiState.threadAccess]
    split <;> exact ⟨hlocal.sessions, rfl, rfl, rfl, rfl, rfl, rfl, rfl⟩
  | take | clear | leave | reset => exact local_setSession st es _

theorem Local.opAt {st' : NiState} (h : Local st es st') (e : Bool) : st'.opAt e = st.opAt e := by
  rw [NiState.opAt, h.engine, NiState.opAt]

theorem phasesOk_threadAccess (h : ∀ e, st.PhaseOk e) (hlook : (st.sessions es).threads.lookup n = some pc)
    (hmeets : niThreadMeets st es n expired) (e : Bool) : (st.threadAccess es n expired pc).PhaseOk e := by
  rcases eq_or_ne e es with rfl | hne
  · exact phaseOk_threadAccess (h e) hlook hmeets
  have hl := local_threadAccess st es n expired pc
  refine phaseOk_frame (h e) (hl.sessions e hne) (hl.opAt e) ?_ ?_ (Int.le_of_eq hl.now.symm) fun _ => hl.counter
  · rw [hl.requests]
    exact List.Subset.refl _
  · rw [hl.answers]
    exact List.Subset.refl _

/-- The call that the framework thread is in. -/
def NiFrameworkPc.given : NiFrameworkPc → Option (ℤ × ℤ)
  | .idle => none
  | .compareId _ id answer => some (id, answer)
  | .compareRaw _ id answer => some (id, answer)
  | .compareOther id answer => some (id, answer)
  | .ignore id answer => some (id, answer)
  | .write _ id answer => some (id, answer)

theorem phasesOk_frameworkStep (h : ∀ e, st.PhaseOk e) (hgiven : ∀ x, st.framework.given = some x → x ∈ st.answers)
    (hmeets : niFrameworkMeets st) (e : Bool) : st.frameworkStep.PhaseOk e := by
  rw [NiState.frameworkStep]
  split
  · exact h e
  · split
    · exact h e
    · exact h e
  · split
    · exact h e
    · exact h e
  · exact h e
  · rename_i id answer hpc
    simp only [niFrameworkMeets, hpc] at hmeets
    split
    · exact h e
    rename_i hlock
    rw [Bool.not_eq_true] at hlock
    rw [hlock, Bool.false_or, Bool.and_eq_true] at hmeets
    obtain ⟨q, pc, hwait⟩ := waiting_of_hasWaiter (h false) hmeets.1
    exact phasesOk_setSession h (phaseOk_answer hwait (.inr (.inl rfl))) e
  rename_i es id answer hpc
  simp only [niFrameworkMeets, hpc] at hmeets
  split
  · exact h e
  rename_i hlock
  rw [Bool.not_eq_true] at hlock
  rw [hlock, Bool.false_or, Bool.and_eq_true, Bool.and_eq_true, decide_eq_true_eq] at hmeets
  obtain ⟨q, _, hwait⟩ := waiting_of_hasWaiter (h es) hmeets.1.1
  -- the request that waits is the one that was asked about
  have hid : q.id = id := hwait.id.symm.trans hmeets.2
  have hmem : (q.id, answer) ∈ st.answers := by
    rw [hid]
    refine hgiven _ ?_
    rw [hpc]
    rfl
  exact phasesOk_setSession h (phaseOk_answer hwait (.inl hmem)) e

theorem given_frameworkStep : ∀ x, st.frameworkStep.framework.given = some x → st.framework.given = some x := by
  intro x
  rw [NiState.frameworkStep]
  split
  · exact id
  · rename_i es id answer hpc
    rw [hpc]
    split
    · exact fun h => h
    · cases es with
      | true => exact fun h => h
      | false => exact nofun
  · rename_i es id answer hpc
    rw [hpc]
    split
    · show (if _ then _ else _ : NiFrameworkPc).given = _ → _
      split
      · exact fun h => h
      · exact fun h => h
    · cases es with
      | true => exact fun h => h
      | false => exact nofun
  · rename_i id answer hpc
    rw [hpc]
    split
    · exact fun h => h
    · exact fun h => h
  · rename_i id answer hpc
    split
    · exact fun h => h
    · rw [hpc]
      exact fun h => h
  rename_i es id answer hpc
  split
  · exact fun h => h
  · exact nofun

end Steps

/-! ### Payloads -/

/-- What a session holds: its request, unless it is freed or in a message already. -/
def NiSession.owned (s : NiSession) (op : Option NiEngineOp) : Option ℕ :=
  if op = some .resetNull ∨ s.threads.any (fun t => t.2 = .clear) = true then none else s.rawRequest

/-- What the engine thread holds. -/
def NiEnginePc.owned : NiEnginePc → Option ℕ
  | .idle => none
  | .work _ (.storeRaw payload _) => some payload
  | .work _ (.storeId _ _) => none
  | .work _ (.storeTime _) => none
  | .work _ .create => none
  | .work _ .resetFree => none
  | .work _ .resetNull => none
  | .work _ .resetFlag => none
  | .resetNext => none

/-- Who holds which payload; `none` is the engine thread. -/
def NiState.hold (st : NiState) : Option Bool → Option ℕ
  | none => st.engine.owned
  | some es => (st.sessions es).owned (st.opAt es)

/-- What is freed, or is sent and freed then. -/
def NiState.spent (st : NiState) : List ℕ := st.freed ++ st.responses.filterMap NiInform.payload

section Payloads

variable {st st' : NiState} {es : Bool} {n : ℤ} {pc : NiThreadPc} {expired : Bool}
variable {s : NiSession} {op : Option NiEngineOp}

theorem hold_eq (he : st'.engine.owned = st.engine.owned)
    (hs : ∀ e, (st'.sessions e).owned (st'.opAt e) = (st.sessions e).owned (st.opAt e)) : st'.hold = st.hold := by
  funext x
  cases x with
  | none => exact he
  | some e => exact hs e

theorem hold_local (hen : st'.engine = st.engine) (hs : ∀ e, e ≠ es → st'.sessions e = st.sessions e)
    (ho : (st'.sessions es).owned (st.opAt es) = (st.sessions es).owned (st.opAt es)) : st'.hold = st.hold := by
  have hop : ∀ e, st'.opAt e = st.opAt e := by
    intro e
    rw [NiState.opAt, hen, NiState.opAt]
  refine hold_eq (by rw [hen]) ?_
  intro e
  rw [hop]
  rcases eq_or_ne e es with rfl | hne
  · exact ho
  · rw [hs e hne]

theorem hold_update {x : Option ℕ} (he : st'.engine.owned = st.engine.owned)
    (hs : ∀ e, e ≠ es → (st'.sessions e).owned (st'.opAt e) = (st.sessions e).owned (st.opAt e))
    (ho : (st'.sessions es).owned (st'.opAt es) = x) : st'.hold = Function.update st.hold (some es) x := by
  funext y
  cases y with
  | none =>
    exact he
  | some e =>
    rcases eq_or_ne e es with rfl | hne
    · rw [update_self]
      exact ho
    · rw [update_of_ne fun h => hne (some.inj h)]
      exact hs e hne

theorem owned_single (ht : s.threads = [(n, pc)]) (hpc : pc ≠ .clear)
    (hop : op ≠ some .resetNull) : s.owned op = s.rawRequest := by
  rw [NiSession.owned, ht, if_neg]
  rintro (h | h)
  · exact hop h
  · rw [any_cons, any_nil, Bool.or_false, decide_eq_true_eq] at h
    exact hpc h

theorem owned_clear (ht : s.threads = [(n, .clear)]) : s.owned op = none := by
  rw [NiSession.owned, ht, if_pos]
  exact .inr rfl

theorem owned_raw_none (h : s.rawRequest = none) : s.owned op = none := by
  rw [NiSession.owned, h]
  split
  · rfl
  · rfl

/-- What the phase says about a thread. -/
structure ThreadAt (st : NiState) (es : Bool) (n : ℤ) (pc : NiThreadPc) : Prop where
  threads : (st.sessions es).threads = [(n, pc)]
  apart : pc.waits = false → st.opAt es ≠ some .resetNull
  uses : pc = .use → ∃ q ∈ st.requests, (st.sessions es).rawRequest = some q.payload ∧
    Answered st.answers st.now q (st.sessions es).resp

theorem threadAt_of_lookup (h : st.PhaseOk es) (hlook : (st.sessions es).threads.lookup n = some pc) :
    ThreadAt st es n pc := by
  have hnone : (st.sessions es).threads ≠ [] := by
    intro hnil
    rw [hnil] at hlook
    exact nomatch hlook
  rw [NiState.PhaseOk] at h
  generalize hgen : st.opAt es = op at h
  have hnull : op.all NiEngineOp.apart = true → st.opAt es ≠ some .resetNull := by
    intro hop heq
    rw [← hgen, heq] at hop
    exact nomatch hop
  cases h with
  | idle _ ht | storeId ht | storeTime _ ht
  | create _ ht => exact absurd ht hnone
  | waiting _ _ ht htime =>
    obtain ⟨rfl, rfl⟩ := eq_of_lookup ht hlook
    refine ⟨ht, fun hw => absurd (htime.waits.symm.trans hw) nofun, ?_⟩
    rintro rfl
    exact htime.elim
  | taking hq hop ht _ _ _ hraw hanswer =>
    obtain ⟨rfl, rfl⟩ := eq_of_lookup ht hlook
    refine ⟨ht, fun _ => hnull hop, ?_⟩
    rintro rfl
    have hsome := hraw.resolve_right nofun
    exact ⟨_, hq, hsome, hanswer hsome⟩
  | leaving hop ht hpc =>
    obtain ⟨rfl, rfl⟩ := eq_of_lookup ht hlook
    refine ⟨ht, fun _ => hnull hop, ?_⟩
    rintro rfl
    exact nomatch hpc

theorem owned_setPc {pc' : NiThreadPc} (ht : s.threads = [(n, pc)])
    (hpc : pc ≠ .clear) (hpc' : pc' ≠ .clear) : (s.setPc n pc').owned op = s.owned op := by
  by_cases hop : op = some .resetNull
  · rw [NiSession.owned, if_pos (.inl hop), NiSession.owned, if_pos (.inl hop)]
  · rw [owned_single (threads_setPc ht) hpc' hop, owned_single ht hpc hop]
    rfl

theorem account_same (ha : Account st.hold st.spent st.allocated) (hh : st'.hold = st.hold)
    (hs : st'.spent = st.spent) (hn : st'.allocated = st.allocated) : Account st'.hold st'.spent st'.allocated := by
  rw [hh, hs, hn]
  exact ha

theorem account_setSession (ha : Account st.hold st.spent st.allocated)
    (ho : s.owned (st.opAt es) = (st.sessions es).owned (st.opAt es)) :
    Account (st.setSession es s).hold (st.setSession es s).spent (st.setSession es s).allocated := by
  refine account_same ha (hold_local rfl (local_setSession st es s).sessions ?_) rfl rfl
  rw [setSession_self]
  exact ho

theorem account_use (hat : ThreadAt st es n .use) {p : ℕ} (hraw : (st.sessions es).rawRequest = some p)
    (ha : Account st.hold st.spent st.allocated) (hen : st'.engine = st.engine)
    (hsess : st'.sessions = (st.setSession es ((st.sessions es).setPc n .clear)).sessions)
    (hspent : st'.spent.Perm (p :: st.spent)) (halloc : st'.allocated = st.allocated) :
    Account st'.hold st'.spent st'.allocated := by
  have hop : ∀ e, st'.opAt e = st.opAt e := by
    intro e
    rw [NiState.opAt, hen, NiState.opAt]
  have hhold : st'.hold = update st.hold (some es) none := by
    refine hold_update (by rw [hen]) ?_ ?_
    · intro e hne
      rw [hop, hsess, (local_setSession st es _).sessions e hne]
    · rw [hsess, setSession_self]
      exact owned_clear (threads_setPc hat.threads)
  rw [hhold, halloc]
  refine ha.spend ?_ hspent
  show (st.sessions es).owned (st.opAt es) = _
  rw [owned_single hat.threads nofun (hat.apart rfl), hraw]

theorem account_threadAccess (hat : ThreadAt st es n pc) (ha : Account st.hold st.spent st.allocated) :
    Account (st.threadAccess es n expired pc).hold (st.threadAccess es n expired pc).spent
      (st.threadAccess es n expired pc).allocated := by
  have ht := hat.threads
  by_cases hpc : pc.waits
  · have hclear : pc ≠ .clear := by
      rintro rfl
      exact nomatch hpc
    rcases threadAccess_waits n expired hpc with h | ⟨_, hne, _, _, h⟩ <;> rw [h]
    · exact ha
    · exact account_setSession ha (owned_setPc ht hclear hne)
  cases pc with
  | start | waiting => exact absurd rfl hpc
  | take =>
    refine account_setSession ha (owned_setPc ht nofun ?_)
    split
    · exact nofun
    · exact nofun
  | use =>
    obtain ⟨q, -, hraw, -⟩ := hat.uses rfl
    simp only [NiState.threadAccess]
    split
    · refine account_use hat hraw ha rfl rfl ?_ rfl
      rw [hraw]
      exact perm_middle
    · refine account_use hat hraw ha rfl rfl ?_ rfl
      rw [hraw]
      exact List.Perm.refl _
  | clear =>
    refine account_setSession ha ?_
    rw [owned_raw_none rfl, owned_clear ht]
  | leave => exact account_setSession ha (owned_setPc ht nofun nofun)
  | reset =>
    refine account_setSession ha ?_
    have hop := hat.apart rfl
    rw [owned_single ht nofun hop, NiSession.owned, if_neg]
    · rfl
    rintro (h | h)
    · exact hop h
    · rw [show (st.sessions es |>.removeThread n).threads = [] from threads_removeThread ht] at h
      exact nomatch h

theorem owned_congr {s' : NiSession} {op' : Option NiEngineOp} (hraw : s'.rawRequest = s.rawRequest)
    (ht : s'.threads.any (fun t => t.2 = .clear) = s.threads.any (fun t => t.2 = .clear))
    (hop : op ≠ some .resetNull) (hop' : op' ≠ some .resetNull) : s'.owned op' = s.owned op := by
  rw [NiSession.owned, NiSession.owned, hraw, ht]
  simp only [hop, hop', false_or]

theorem account_turn (ha : Account st.hold st.spent st.allocated) (he : st'.engine.owned = st.engine.owned)
    (hs : ∀ e, (st'.sessions e).rawRequest = (st.sessions e).rawRequest)
    (ht : ∀ e, (st'.sessions e).threads.any (fun t => t.2 = .clear) =
      (st.sessions e).threads.any (fun t => t.2 = .clear))
    (hop : ∀ e, st.engine ≠ .work e .resetNull) (hop' : ∀ e, st'.engine ≠ .work e .resetNull)
    (hspent : st'.spent = st.spent) (halloc : st'.allocated = st.allocated) :
    Account st'.hold st'.spent st'.allocated := by
  refine account_same ha (hold_eq he ?_) hspent halloc
  intro e
  exact owned_congr (hs e) (ht e) (fun h => hop e (opAt_eq_some.1 h)) fun h => hop' e (opAt_eq_some.1 h)

theorem kept_setSession (st : NiState) (es : Bool) (hraw : s.rawRequest = (st.sessions es).rawRequest)
    (ht : s.threads.any (fun t => t.2 = .clear) = (st.sessions es).threads.any (fun t => t.2 = .clear)) :
    (∀ e, ((st.setSession es s).sessions e).rawRequest = (st.sessions e).rawRequest) ∧
      ∀ e, ((st.setSession es s).sessions e).threads.any (fun t => t.2 = .clear) =
        (st.sessions e).threads.any (fun t => t.2 = .clear) := by
  constructor
  · intro e
    rw [sessions_setSession]
    split_ifs with he
    · rw [hraw, he]
    · rfl
  intro e
  rw [sessions_setSession]
  split_ifs with he
  · rw [ht, he]
  · rfl

section Work

variable {payload : ℕ} {timeout : ℤ} {created : Bool}

theorem account_storeRaw (hen : st.engine = .work es (.storeRaw payload timeout))
    (hnil : (st.sessions es).threads = []) (ha : Account st.hold st.spent st.allocated) :
    Account (st.work created es (.storeRaw payload timeout)).hold st.spent st.allocated := by
  have hfrom : st.hold none = some payload := by
    show st.engine.owned = _
    rw [hen]
    rfl
  have hhold : (st.work created es (.storeRaw payload timeout)).hold =
      update (update st.hold none none) (some es) (some payload) := by
    funext x
    cases x with
    | none =>
      rfl
    | some e =>
      rcases eq_or_ne e es with rfl | hne
      · rw [update_self]
        show NiSession.owned (update st.sessions e _ e) _ = _
        rw [update_self, NiSession.owned, if_neg]
        rintro (h | h)
        · exact nomatch opAt_eq_some.1 h
        · rw [show (List.any (st.sessions e).threads fun t => t.2 = .clear) = false by rw [hnil]; rfl] at h
          exact nomatch h
      rw [update_of_ne fun h => hne (some.inj h), update_of_ne (some_ne_none e)]
      show NiSession.owned (update st.sessions es _ e) _ = _
      rw [update_of_ne hne]
      refine owned_congr rfl rfl ?_ ?_
      · rw [opAt_of_ne hen hne]
        exact nofun
      · rw [opAt_of_ne (show NiState.engine _ = .work es (.storeId payload timeout) from rfl) hne]
        exact nofun
  rw [hhold]
  exact ha.move hfrom

theorem account_resetFree (hen : st.engine = .work es .resetFree) {q : NiRequest} (hw : Waiting st es q pc)
    (ha : Account st.hold st.spent st.allocated) :
    Account (st.work created es .resetFree).hold (st.work created es .resetFree).spent st.allocated := by
  have hpc : pc ≠ .clear := by
    rintro rfl
    exact hw.time.elim
  have hown : (st.sessions es).owned (st.opAt es) = (st.sessions es).rawRequest := by
    refine owned_single hw.threads hpc ?_
    rw [opAt_eq_some.2 hen]
    exact nofun
  have hhold : (st.work created es .resetFree).hold = update st.hold (some es) none := by
    refine hold_update ?_ ?_ ?_
    · rw [hen]
      rfl
    · intro e hne
      show NiSession.owned (st.sessions e) _ = _
      rw [opAt_of_ne hen hne, opAt_of_ne (show NiState.engine _ = .work es .resetNull from rfl) hne]
    · rw [NiSession.owned, if_pos (.inl (opAt_eq_some.2 rfl))]
  rw [hhold]
  rcases hw.raw with hraw | hraw
  · refine ha.spend (hown.trans hraw) ?_
    show ((st.sessions es).rawRequest.toList ++ st.freed ++ _).Perm _
    rw [hraw]
    exact List.Perm.refl _
  -- there is nothing to free
  have hnone : st.hold (some es) = none := hown.trans hraw
  rw [← hnone, update_eq_self]
  show Account st.hold ((st.sessions es).rawRequest.toList ++ st.freed ++ _) _
  rw [hraw]
  exact ha

theorem account_resetNull (hen : st.engine = .work es .resetNull) (ha : Account st.hold st.spent st.allocated) :
    Account (st.work created es .resetNull).hold (st.work created es .resetNull).spent st.allocated := by
  refine account_same ha (hold_eq ?_ ?_) rfl rfl
  · rw [hen]
    rfl
  intro e
  rcases eq_or_ne e es with rfl | hne
  · rw [NiSession.owned, NiSession.owned, if_pos (Or.inl (opAt_eq_some.2 hen))]
    show (if _ then none else (update st.sessions e _ e).rawRequest) = none
    rw [update_self]
    split
    · rfl
    · rfl
  · show NiSession.owned (update st.sessions es _ e) _ = _
    rw [update_of_ne hne, opAt_of_ne hen hne,
      opAt_of_ne (show NiState.engine _ = .work es .resetFlag from rfl) hne]

theorem account_work {op : NiEngineOp} (hen : st.engine = .work es op) (h : st.PhaseOk es)
    (hmeets : niEngineMeets st created) (ha : Account st.hold st.spent st.allocated) :
    Account (st.work created es op).hold (st.work created es op).spent (st.work created es op).allocated := by
  simp only [niEngineMeets, hen] at hmeets
  have hne : op ≠ .resetNull → ∀ e, st.engine ≠ .work e .resetNull := by
    intro hop e he
    rw [hen, NiEnginePc.work.injEq] at he
    exact hop he.2
  cases op with
  | storeRaw => exact account_storeRaw hen (List.isEmpty_iff.1 hmeets) ha
  | storeId =>
    have hk := kept_setSession st es (s := { st.sessions es with reqID := st.reqIDCounter + 1 }) rfl rfl
    exact account_turn ha (by rw [hen]; rfl) hk.1 hk.2 (hne nofun) nofun rfl rfl
  | storeTime timeout =>
    have hk := kept_setSession st es
      (s := { st.sessions es with respTimeLeft := NiState.respTime timeout }) rfl rfl
    exact account_turn ha (by rw [hen]; rfl) hk.1 hk.2 (hne nofun) nofun rfl rfl
  | create =>
    have hcreated : created = true := hmeets
    have hk := kept_setSession st es (s := { st.sessions es with
      threads := (st.reqIDCounter, .start) :: (st.sessions es).threads }) rfl rfl
    rw [NiState.work, if_pos hcreated]
    exact account_turn ha (by rw [hen]; rfl) hk.1 hk.2 (hne nofun) nofun rfl rfl
  | resetFree =>
    obtain ⟨q, _, hw⟩ := waiting_of_hasWaiter h hmeets
    exact account_resetFree hen hw ha
  | resetNull => exact account_resetNull hen ha
  | resetFlag =>
    have hk := kept_setSession st es (s := { st.sessions es with respRecvd := true }) rfl rfl
    rw [NiState.work]
    split
    · exact ha
    refine account_turn ha ?_ hk.1 hk.2 (hne nofun) ?_ rfl rfl
    · rw [hen]
      cases es with
      | true | false => rfl
    · intro e he
      cases es with
      | true | false => exact nomatch he

end Work

theorem account_turns (ht : Turns st st') (ha : Account st.hold st.spent st.allocated) :
    Account st'.hold st'.spent st'.allocated := by
  obtain ⟨pc, rfl, hnot, hpc⟩ := ht
  have hnone : ∀ pc : NiEnginePc, (∀ e p t, pc ≠ .work e (.storeRaw p t)) → pc.owned = none := by
    intro pc h
    cases pc with
    | idle | resetNext => rfl
    | work e op =>
      cases op with
      | storeRaw p t => exact absurd rfl (h e p t)
      | storeId | storeTime | create | resetFree | resetNull | resetFlag => rfl
  refine account_turn ha ?_ (fun _ => rfl) (fun _ => rfl) (fun e => hnot e _) (fun e he => nomatch hpc _ _ he) rfl rfl
  exact (hnone pc fun e p t he => nomatch hpc _ _ he).trans (hnone _ fun e p t => hnot e _).symm

theorem account_store (hen : st.engine = .idle) (timeout : ℤ) (ha : Account st.hold st.spent st.allocated) :
    Account (NiState.hold { st with allocated := st.allocated + 1, engine := .work es (.storeRaw st.allocated timeout) })
      st.spent (st.allocated + 1) := by
  have hhold : NiState.hold { st with allocated := st.allocated + 1, engine := .work es (.storeRaw st.allocated timeout) } =
      update st.hold none (some st.allocated) := by
    funext x
    cases x with
    | none => rfl
    | some e =>
      refine owned_congr rfl rfl ?_ fun h => nomatch opAt_eq_some.1 h
      rw [opAt_none fun e op he => nomatch hen.symm.trans he]
      exact nofun
  rw [hhold]
  exact ha.give none

theorem account_frameworkStep (ha : Account st.hold st.spent st.allocated) :
    Account st.frameworkStep.hold st.frameworkStep.spent st.frameworkStep.allocated := by
  rw [NiState.frameworkStep]
  split
  · exact ha
  · split
    · exact ha
    · exact ha
  · split
    · exact ha
    · exact ha
  · exact ha
  · split
    · exact ha
    · exact account_setSession ha rfl
  · split
    · exact ha
    · exact account_setSession ha rfl

end Payloads

/-! ### Runs -/

section Runs

variable {st : NiState}
variable {created es expired : Bool}

/-- A response goes to a request, and is the answer that was given for it or comes when its time is over. -/
def Consented (st : NiState) (r : NiInform) : Prop :=
  ∃ q ∈ st.requests, r.payload = some q.payload ∧
    ((q.id, r.resp) ∈ st.answers ∨ r.resp = NI_NORESP ∧ q.time + q.respTime ≤ r.time)

theorem Consented.mono {st' : NiState} {r : NiInform} (h : Consented st r) (hr : st.requests ⊆ st'.requests)
    (ha : st.answers ⊆ st'.answers) : Consented st' r := by
  obtain ⟨q, hq, hp, hresp⟩ := h
  exact ⟨q, hr hq, hp, hresp.imp_left fun h => ha h⟩

/-- The requests are numbered, and have a payload each. -/
structure RequestsOk (st : NiState) : Prop where
  ids : (st.requests.map NiRequest.id).Nodup
  ids_le : ∀ q ∈ st.requests, q.id ≤ st.reqIDCounter
  payloads : (st.requests.map NiRequest.payload).Nodup
  payloads_lt : ∀ q ∈ st.requests, q.payload < st.allocated
  storeRaw : ∀ es p t, st.engine = .work es (.storeRaw p t) → p < st.allocated ∧ p ∉ st.requests.map NiRequest.payload
  storeId : ∀ es p t, st.engine = .work es (.storeId p t) → p < st.allocated ∧ p ∉ st.requests.map NiRequest.payload

structure NiInv (st : NiState) : Prop where
  phases : ∀ e, st.PhaseOk e
  given : ∀ x, st.framework.given = some x → x ∈ st.answers
  responses : ∀ r ∈ st.responses, Consented st r
  requests : RequestsOk st
  account : Account st.hold st.spent st.allocated

section

variable {st' : NiState} (h : RequestsOk st) (hr : st'.requests = st.requests)
    (hc : st'.reqIDCounter = st.reqIDCounter) (hn : st'.allocated = st.allocated)
include h hr hc hn

theorem RequestsOk.turn (hraw : ∀ es p t, st'.engine = .work es (.storeRaw p t) → st.engine = .work es (.storeRaw p t))
    (hid : ∀ es p t, st'.engine = .work es (.storeId p t) →
      st.engine = .work es (.storeId p t) ∨ st.engine = .work es (.storeRaw p t)) : RequestsOk st' where
  ids := hr ▸ h.ids
  ids_le := by
    rw [hr, hc]
    exact h.ids_le
  payloads := hr ▸ h.payloads
  payloads_lt := by
    rw [hr, hn]
    exact h.payloads_lt
  storeRaw es p t hen := by
    rw [hr, hn]
    exact h.storeRaw es p t (hraw es p t hen)
  storeId es p t hen := by
    rw [hr, hn]
    rcases hid es p t hen with hst | hst
    · exact h.storeId es p t hst
    · exact h.storeRaw es p t hst

theorem RequestsOk.same (hen : st'.engine = st.engine) : RequestsOk st' :=
  h.turn hr hc hn (fun _ _ _ he => hen ▸ he) fun _ _ _ he => Or.inl (hen ▸ he)

end

theorem RequestsOk.store {st' : NiState} (h : RequestsOk st) {p : ℕ} {t : ℤ} {q : NiRequest}
    (hen : st.engine = .work es (.storeId p t)) (hr : st'.requests = q :: st.requests) (hp : q.payload = p)
    (hid : q.id = st.reqIDCounter + 1) (hc : st'.reqIDCounter = st.reqIDCounter + 1)
    (hn : st'.allocated = st.allocated) (hen' : st'.engine = .work es (.storeTime t)) : RequestsOk st' where
  ids := by
    rw [hr, map_cons, nodup_cons]
    refine ⟨?_, h.ids⟩
    intro hmem
    obtain ⟨q', hq', _⟩ := List.mem_map.1 hmem
    have hle := h.ids_le q' hq'
    omega
  ids_le := by
    rw [hr, hc]
    intro q' hq'
    rcases List.mem_cons.1 hq' with rfl | hq'
    · exact Int.le_of_eq hid
    · exact Int.le_add_one (h.ids_le q' hq')
  payloads := by
    rw [hr, map_cons, nodup_cons, hp]
    exact ⟨(h.storeId es p t hen).2, h.payloads⟩
  payloads_lt := by
    rw [hr, hn]
    intro q' hq'
    rcases List.mem_cons.1 hq' with rfl | hq'
    · rw [hp]
      exact (h.storeId es p t hen).1
    · exact h.payloads_lt q' hq'
  storeRaw es' p' t' he := nomatch hen'.symm.trans he
  storeId es' p' t' he := nomatch hen'.symm.trans he

theorem requestsOk_work {op : NiEngineOp} (hen : st.engine = .work es op) (h : RequestsOk st) :
    RequestsOk (st.work created es op) := by
  cases op with
  | storeRaw payload timeout =>
    refine h.turn rfl rfl rfl (fun _ _ _ he => nomatch he) ?_
    intro es' p t he
    right
    have heq : NiEnginePc.work es (.storeId payload timeout) = .work es' (.storeId p t) := he
    rw [NiEnginePc.work.injEq, NiEngineOp.storeId.injEq] at heq
    rw [hen, heq.1, heq.2.1, heq.2.2]
  | storeId => exact h.store hen rfl rfl rfl rfl rfl rfl
  | storeTime => exact h.turn rfl rfl rfl nofun nofun
  | create =>
    rw [NiState.work]
    split
    · exact h.turn rfl rfl rfl nofun nofun
    · exact h.turn rfl rfl rfl nofun nofun
  | resetFree | resetNull => exact h.turn rfl rfl rfl nofun nofun
  | resetFlag =>
    rw [NiState.work]
    split
    · exact h
    · cases es with
      | true | false => exact h.turn rfl rfl rfl nofun nofun

theorem niInv_work {op : NiEngineOp} (hen : st.engine = .work es op) (h : NiInv st)
    (hmeets : niEngineMeets st created) : NiInv (st.work created es op) := by
  obtain ⟨hr, ha, -, hf, hresp⟩ := work_grows st created es op
  refine ⟨phasesOk_work hen h.phases hmeets, ?_, ?_, requestsOk_work hen h.requests,
    account_work hen (h.phases es) hmeets h.account⟩
  · rw [ha, hf]
    exact h.given
  · rw [hresp]
    exact fun r hmem => (h.responses r hmem).mono hr (ha ▸ Subset.refl _)

theorem niInv_turns {st' : NiState} (ht : Turns st st') (h : NiInv st) : NiInv st' := by
  have ha := account_turns ht h.account
  obtain ⟨pc, rfl, hnot, hpc⟩ := ht
  refine ⟨fun e => phasesOk_turn h.phases (opAt_none hnot) (fun e op he => ?_) e rfl rfl rfl rfl rfl rfl, h.given,
    h.responses, h.requests.turn rfl rfl rfl (fun _ _ _ he => nomatch hpc _ _ he) (fun _ _ _ he => nomatch hpc _ _ he),
    ha⟩
  obtain rfl := hpc e op he
  exact ⟨rfl, nofun⟩

theorem niInv_engineStep (h : NiInv st) (hmeets : niEngineMeets st created) : NiInv (st.engineStep created) := by
  rcases engineStep_cases st created with ⟨es, op, hen, heq⟩ | heq | ht
  · rw [heq]
    exact niInv_work hen h hmeets
  · rw [heq]
    exact h
  · exact niInv_turns ht h

theorem niInv_restart (h : NiInv st) : NiInv st.restart := by
  rcases restart_cases st with heq | ht
  · rw [heq]
    exact h
  · exact niInv_turns ht h

theorem niInv_request (es : Bool) (timeout : ℤ) (h : NiInv st) : NiInv (st.request es timeout) := by
  obtain ⟨hids, hle, hpayloads, hlt, -, -⟩ := h.requests
  have hlt' : ∀ q ∈ st.requests, q.payload < st.allocated + 1 := fun q hq => Nat.lt_succ_of_lt (hlt q hq)
  rw [NiState.request]
  split
  · exact h
  rename_i hen
  rw [not_not] at hen
  split
  · exact ⟨h.phases, h.given, h.responses, ⟨hids, hle, hpayloads, hlt', (fun _ _ _ he => nomatch hen.symm.trans he),
      fun _ _ _ he => nomatch hen.symm.trans he⟩, h.account.burn⟩
  refine ⟨fun e => phasesOk_turn h.phases (opAt_none fun e op he => nomatch hen.symm.trans he) (fun e op he => ?_) e
    rfl rfl rfl rfl rfl rfl, h.given, h.responses, ⟨hids, hle, hpayloads, hlt', fun _ p t he => ?_, nofun⟩,
    account_store hen timeout h.account⟩
  · obtain ⟨-, rfl⟩ := NiEnginePc.work.inj he
    exact ⟨rfl, nofun⟩
  · rw [NiEnginePc.work.injEq, NiEngineOp.storeRaw.injEq] at he
    rw [← he.2.1]
    refine ⟨Nat.lt_succ_self _, fun hmem => ?_⟩
    obtain ⟨q, hq, heq⟩ := mem_map.1 hmem
    exact absurd heq (Nat.ne_of_lt (hlt q hq))

theorem niInv_frameworkStep (h : NiInv st) (hmeets : niFrameworkMeets st) : NiInv st.frameworkStep := by
  have hsame : st.frameworkStep.requests = st.requests ∧ st.frameworkStep.answers = st.answers ∧
      st.frameworkStep.responses = st.responses ∧ st.frameworkStep.reqIDCounter = st.reqIDCounter ∧
      st.frameworkStep.allocated = st.allocated ∧ st.frameworkStep.engine = st.engine := by
    rw [NiState.frameworkStep]
    split
    · exact ⟨rfl, rfl, rfl, rfl, rfl, rfl⟩
    · split <;> exact ⟨rfl, rfl, rfl, rfl, rfl, rfl⟩
    · split <;> exact ⟨rfl, rfl, rfl, rfl, rfl, rfl⟩
    · exact ⟨rfl, rfl, rfl, rfl, rfl, rfl⟩
    · split <;> exact ⟨rfl, rfl, rfl, rfl, rfl, rfl⟩
    · split <;> exact ⟨rfl, rfl, rfl, rfl, rfl, rfl⟩
  obtain ⟨hr, ha, hresp, hc, hn, hen⟩ := hsame
  refine ⟨phasesOk_frameworkStep h.phases h.given hmeets, ?_, ?_, h.requests.same hr hc hn hen,
    account_frameworkStep h.account⟩
  · intro x hx
    rw [ha]
    exact h.given x (given_frameworkStep x hx)
  · rw [hresp]
    exact fun r hmem => (h.responses r hmem).mono (hr ▸ List.Subset.refl _) (ha ▸ List.Subset.refl _)

theorem mem_responses_threadAccess {n : ℤ} {pc : NiThreadPc} (hat : ThreadAt st es n pc)
    {r : NiInform} (hr : r ∈ (st.threadAccess es n expired pc).responses) : r ∈ st.responses ∨ Consented st r := by
  by_cases hpc : pc.waits
  · rcases threadAccess_waits n expired hpc with h | ⟨_, -, _, _, h⟩ <;> rw [h] at hr <;> exact .inl hr
  cases pc with
  | start | waiting => exact absurd rfl hpc
  | take => exact .inl hr
  | use =>
    simp only [NiState.threadAccess] at hr
    split_ifs at hr with hresp
    · rcases List.mem_cons.1 hr with rfl | hr
      · right
        obtain ⟨q, hq, hraw, hans⟩ := hat.uses rfl
        refine ⟨q, hq, hraw, ?_⟩
        rcases hans with hans | hans | hans
        · exact .inl hans
        · exact absurd hans hresp
        · exact .inr hans
      · exact .inl hr
    · exact .inl hr
  | clear | leave | reset => exact .inl hr

theorem niInv_threadStep {n : ℤ} (h : NiInv st) (hmeets : niThreadMeets st es n expired) :
    NiInv (st.threadStep es n expired) := by
  rw [NiState.threadStep]
  split
  · exact h
  rename_i pc hlook
  have hat := threadAt_of_lookup (h.phases es) hlook
  have hl := local_threadAccess st es n expired pc
  refine ⟨phasesOk_threadAccess h.phases hlook hmeets, ?_, ?_,
    h.requests.same hl.requests hl.counter hl.allocated hl.engine, account_threadAccess hat h.account⟩
  · rw [hl.framework, hl.answers]
    exact h.given
  · intro r hr
    have hcons : Consented st r := (mem_responses_threadAccess hat hr).elim (h.responses r) id
    exact hcons.mono (hl.requests ▸ List.Subset.refl _) (hl.answers ▸ List.Subset.refl _)

theorem niInv_step (h : NiInv st) {a : NiAct} (hmeets : NiMeets st a) : NiInv (niStep st a) := by
  cases a with
  | tick k =>
    refine ⟨?_, h.given, h.responses, h.requests.same rfl rfl rfl rfl, h.account⟩
    intro e
    refine phaseOk_frame (h.phases e) rfl rfl (List.Subset.refl _) (List.Subset.refl _) ?_ fun _ => rfl
    exact Int.le_add_of_nonneg_right (Int.natCast_nonneg k)
  | request es timeout => exact niInv_request es timeout h
  | restart => exact niInv_restart h
  | engine => exact niInv_engineStep h hmeets
  | respond =>
    rw [niStep]
    split
    · refine ⟨?_, ?_, ?_, h.requests.same rfl rfl rfl rfl, h.account⟩
      · intro e
        refine phaseOk_frame (h.phases e) rfl rfl (List.Subset.refl _) ?_ le_rfl fun _ => rfl
        exact subset_cons_self _ _
      · intro x hx
        rw [← some.inj hx]
        exact .head _
      · exact fun r hr => (h.responses r hr).mono (List.Subset.refl _) (subset_cons_self _ _)
    · exact h
  | framework => exact niInv_frameworkStep h hmeets
  | thread => exact niInv_threadStep h hmeets

theorem niInv_init : NiInv niInit where
  phases _ := .idle rfl rfl rfl rfl
  given _ := nofun
  responses _ hr := absurd hr not_mem_nil
  requests := ⟨nodup_nil, fun _ hq => absurd hq not_mem_nil, nodup_nil,
    fun _ hq => absurd hq not_mem_nil, fun _ _ _ he => absurd he nofun, fun _ _ _ he => absurd he nofun⟩
  account := by
    refine ⟨⟨?_, ?_⟩, nodup_nil, fun p hp => absurd hp not_mem_nil⟩
    · intro x p hx
      cases x with
      | none => exact nomatch hx
      | some => exact nomatch (owned_raw_none rfl).symm.trans hx
    intro x y p hx
    cases x with
    | none => exact nomatch hx
    | some => exact nomatch (owned_raw_none rfl).symm.trans hx

/-- What is asked of the sessions. -/
structure NiConsent (st : NiState) : Prop where
  /-- A response carries the payload of a request, and the answer for its ID or none after its time. -/
  responses : ∀ r ∈ st.responses, Consented st r
  /-- A payload is sent or freed once. -/
  once : st.spent.Nodup
  /-- A payload, and an ID, is that of one request. -/
  payloads : (st.requests.map NiRequest.payload).Nodup
  ids : (st.requests.map NiRequest.id).Nodup
  /-- A session that holds a request has its ID and its thread only. -/
  held : ∀ es p, (st.sessions es).rawRequest = some p → (st.opAt es).any NiEngineOp.saving = false →
    ∃ q ∈ st.requests, q.payload = p ∧ (st.sessions es).reqID = q.id ∧
      ∃ pc, (st.sessions es).threads = [(q.id, pc)] ∧ (pc.waits || pc.locks) = true

theorem NiInv.consent (h : NiInv st) : NiConsent st := by
  refine ⟨h.responses, h.account.nodup, h.requests.payloads, h.requests.ids, ?_⟩
  intro es p hp hsaving
  have hphase := h.phases es
  rw [NiState.PhaseOk] at hphase
  generalize st.opAt es = op at hphase hsaving
  cases hphase with
  | idle _ _ hraw => exact nomatch hraw.symm.trans hp
  | storeId | storeTime
  | create => exact nomatch hsaving
  | waiting hq _ ht htime hid hraw =>
    rcases hraw with hraw | hraw
    · refine ⟨_, hq, some.inj (hraw.symm.trans hp), hid, _, ht, ?_⟩
      rw [htime.waits, Bool.true_or]
    · exact nomatch hraw.symm.trans hp
  | taking hq _ ht hpc hid _ hraw =>
    rcases hraw with hraw | ⟨-, hraw⟩
    · refine ⟨_, hq, some.inj (hraw.symm.trans hp), hid, _, ht, ?_⟩
      rw [hpc, Bool.or_true]
    · exact nomatch hraw.symm.trans hp
  | leaving _ _ _ hraw => exact nomatch hraw.symm.trans hp

/-- A run in which every access to a session still finds what was checked before. -/
theorem ni_consent (acts : List NiAct) (hmeets : AllSteps niStep NiMeets niInit acts) : NiConsent (niRun acts) :=
  (run_invariant (fun _ _ ha h => niInv_step h ha) hmeets niInv_init).consent

/-- The steps that store a request for 20 seconds in the session for positions. -/
def storeSteps : List NiAct := [.request false 20, .engine true, .engine true, .engine true, .engine true]

/-- A request that is accepted, up to the response. -/
def acceptSteps : List NiAct :=
  storeSteps ++ [.thread false 1 false, .respond 1 NI_ACCEPT, .framework, .framework, .framework, .framework,
    .thread false 1 false, .thread false 1 false, .thread false 1 false]

theorem ni_consent_accept : AllSteps niStep NiMeets niInit acceptSteps ∧ NiConsent (niRun acceptSteps) ∧
      (niRun acceptSteps).responses = [⟨some 0, NI_ACCEPT, 0⟩] := by
  have hmeets : AllSteps niStep NiMeets niInit acceptSteps := by decide
  exact ⟨hmeets, ni_consent acceptSteps hmeets, by decide⟩

/-- The user accepts the first request when its time is over.  The answer has been checked but is not written yet
when the thread of the request ends; the second request, in the same session, finds it. -/
def lateAnswer : List NiAct :=
  storeSteps ++ [.thread false 1 false, .respond 1 NI_ACCEPT, .framework, .framework, .framework, .tick 25,
    .thread false 1 true, .thread false 1 true, .thread false 1 true, .thread false 1 true, .thread false 1 true,
    .thread false 1 true] ++
  storeSteps ++ [.thread false 2 false, .framework, .thread false 2 false, .thread false 2 false,
    .thread false 2 false]

/-- The thread of the first request has left the lock but not yet reset the session when the second is stored. -/
def lateReset : List NiAct :=
  storeSteps ++ [.thread false 1 false, .tick 25, .thread false 1 true, .thread false 1 true, .thread false 1 true,
    .thread false 1 true] ++ storeSteps ++ [.thread false 1 false, .thread false 1 false]

/-- The second request is accepted without an answer for its ID, and it waits under the ID 0. -/
theorem ni_consent_lost : ¬ NiConsent (niRun lateAnswer) ∧ (niRun lateAnswer).answers = [(1, NI_ACCEPT)] ∧
    (niRun lateAnswer).requests.map (fun q => (q.id, q.payload)) = [(2, 1), (1, 0)] ∧
    ⟨some 1, NI_ACCEPT, 25⟩ ∈ (niRun lateAnswer).responses ∧
    ¬ NiConsent (niRun lateReset) ∧ ((niRun lateReset).sessions false).rawRequest = some 1 ∧
    ((niRun lateReset).sessions false).reqID = 0 := by
  have haccepted : ⟨some 1, NI_ACCEPT, 25⟩ ∈ (niRun lateAnswer).responses := by decide
  have hraw : ((niRun lateReset).sessions false).rawRequest = some 1 := by decide
  refine ⟨?_, by decide, by decide, haccepted, ?_, hraw, by decide⟩
  · intro h
    have hnot : ¬ ∃ q ∈ (niRun lateAnswer).requests, some 1 = some q.payload ∧
        ((q.id, NI_ACCEPT) ∈ (niRun lateAnswer).answers ∨ NI_ACCEPT = NI_NORESP ∧ q.time + q.respTime ≤ 25) := by
      decide
    exact hnot (h.responses _ haccepted)
  intro h
  obtain ⟨q, hq, -, hid, -⟩ := h.held false 1 hraw (by decide)
  have hne : ∀ q ∈ (niRun lateReset).requests, ((niRun lateReset).sessions false).reqID ≠ q.id := by decide
  exact hne q hq hid

end Runs

end G4Common.Gps

/-
Requests of the network for the location (`gps/loc_api/libloc_api_50001/loc_eng_ni.cpp`): two sessions, one of them
for emergencies, the engine thread that stores a request in a session and starts a thread for it, the framework
thread that brings the answer of the user, and the threads that wait for it.

A step is one access of one thread to a session, or one locked access: `respRecvd` and `resp` are read and written
under the lock of the session only, so what is done to them under one lock is one step.  `rawRequest`, `reqID` and
`respTimeLeft` are also read and written without the lock.  A thread in the locked part of `ni_thread_proc()` keeps
the lock over several steps.

A payload is named by the number of its allocation, a thread by the request that it was started for.  What was asked,
answered, sent and freed is written down (`requests`, `answers`, `responses`, `freed`).
-/
import Mathlib.Data.Int.Notation
import Mathlib.Data.Nat.Notation
import Mathlib.Logic.Function.Basic

namespace G4Common.Gps

/-! ### Sessions -/

/-- `GPS_NI_RESPONSE_ACCEPT`. -/
def NI_ACCEPT : ℤ := 1

/-- `GPS_NI_RESPONSE_NORESP`. -/
def NI_NORESP : ℤ := 3

/-- `GPS_NI_RESPONSE_IGNORE`. -/
def NI_IGNORE : ℤ := 4

def LOC_NI_NO_RESPONSE_TIME : ℤ := 20

/-- Where a thread in `ni_thread_proc()` is. -/
inductive NiThreadPc
  /-- Before the lock. -/
  | start
  /-- In `pthread_cond_timedwait()`. -/
  | waiting (expire : ℤ)
  /-- After the loop, before `rawRequest` is compared with `NULL`. -/
  | take
  /-- Before `rawRequest` is used. -/
  | use
  /-- Before `rawRequest` is set to `NULL`, and unlocking. -/
  | clear
  /-- Before `respTimeLeft` is set to 0. -/
  | leave
  /-- Before `reqID` is set to 0. -/
  | reset
deriving DecidableEq

namespace NiThreadPc

/-- The thread waits for an answer. -/
def waits : NiThreadPc → Bool
  | .start => true
  | .waiting _ => true
  | .take => false
  | .use => false
  | .clear => false
  | .leave => false
  | .reset => false

def locks : NiThreadPc → Bool
  | .start => false
  | .waiting _ => false
  | .take => true
  | .use => true
  | .clear => true
  | .leave => false
  | .reset => false

end NiThreadPc

/-- A `loc_eng_ni_session_s_type`, with its threads. -/
structure NiSession where
  respTimeLeft : ℤ
  respRecvd : Bool
  rawRequest : Option ℕ
  reqID : ℤ
  resp : ℤ
  threads : List (ℤ × NiThreadPc)
deriving DecidableEq

namespace NiSession

def locked (s : NiSession) : Bool := s.threads.any fun t => t.2.locks

def hasWaiter (s : NiSession) : Bool := s.threads.any fun t => t.2.waits

def setPc (s : NiSession) (n : ℤ) (pc : NiThreadPc) : NiSession :=
  { s with threads := s.threads.map fun t => if t.1 = n then (n, pc) else t }

def removeThread (s : NiSession) (n : ℤ) : NiSession :=
  { s with threads := s.threads.filter fun t => t.1 ≠ n }

/-- The end of the loop of `ni_thread_proc()`. -/
def leaveLoop (s : NiSession) (n : ℤ) : NiSession := { s.setPc n .take with respRecvd := false }

/-- An answer, under the lock. -/
def answer (s : NiSession) (resp : ℤ) : NiSession := { s with resp := resp, respRecvd := true }

end NiSession

/-! ### The threads -/

/-- What the engine thread does next to a session. -/
inductive NiEngineOp
  /-- `rawRequest` of a request. -/
  | storeRaw (payload : ℕ) (timeout : ℤ)
  /-- Its `reqID`. -/
  | storeId (payload : ℕ) (timeout : ℤ)
  /-- Its `respTimeLeft`. -/
  | storeTime (timeout : ℤ)
  /-- `pthread_create()`. -/
  | create
  /-- `free()` on a restart of the engine. -/
  | resetFree
  /-- Setting `rawRequest` to `NULL`. -/
  | resetNull
  /-- Waking the thread. -/
  | resetFlag
deriving DecidableEq

/-- Where the engine thread is; `true` is the session for emergencies. -/
inductive NiEnginePc
  | idle
  | work (es : Bool) (op : NiEngineOp)
  /-- On a restart, before the second session. -/
  | resetNext
deriving DecidableEq

/-- Where the framework thread is in `loc_eng_ni_respond()`. -/
inductive NiFrameworkPc
  | idle
  /-- Before the ID is compared with that of a session. -/
  | compareId (es : Bool) (id answer : ℤ)
  /-- Before `rawRequest` is compared with `NULL`. -/
  | compareRaw (es : Bool) (id answer : ℤ)
  /-- An emergency is accepted, before `rawRequest` of the other session is compared with `NULL`. -/
  | compareOther (id answer : ℤ)
  /-- Before the other session is ignored. -/
  | ignore (id answer : ℤ)
  /-- Before the answer is written. -/
  | write (es : Bool) (id answer : ℤ)
deriving DecidableEq

/-- A request that was stored in a session. -/
structure NiRequest where
  id : ℤ
  es : Bool
  payload : ℕ
  time : ℤ
  respTime : ℤ
deriving DecidableEq

/-- A `LocEngInformNiResponse`. -/
structure NiInform where
  payload : Option ℕ
  resp : ℤ
  time : ℤ
deriving DecidableEq

structure NiState where
  sessions : Bool → NiSession
  reqIDCounter : ℤ
  engine : NiEnginePc
  framework : NiFrameworkPc
  now : ℤ
  allocated : ℕ
  requests : List NiRequest
  answers : List (ℤ × ℤ)
  responses : List NiInform
  freed : List ℕ

namespace NiState

def setSession (st : NiState) (es : Bool) (s : NiSession) : NiState :=
  { st with sessions := Function.update st.sessions es s }

/-- The check of `loc_eng_ni_request_handler()`. -/
def busy (st : NiState) (es : Bool) : Bool :=
  if es then (st.sessions true).rawRequest.isSome
  else (st.sessions false).rawRequest.isSome || (st.sessions true).rawRequest.isSome

/-- The seconds until "no response". -/
def respTime (timeout : ℤ) : ℤ := 5 + if timeout ≠ 0 then timeout else LOC_NI_NO_RESPONSE_TIME

/-- The start of `loc_eng_ni_request_handler()`: a request in progress, or a session for the new one. -/
def request (st : NiState) (es : Bool) (timeout : ℤ) : NiState :=
  if st.engine ≠ .idle then st
  else if st.busy es then { st with allocated := st.allocated + 1, freed := st.allocated :: st.freed }
  else { st with allocated := st.allocated + 1, engine := .work es (.storeRaw st.allocated timeout) }

/-- The start of `loc_eng_ni_reset_on_engine_restart()`. -/
def restart (st : NiState) : NiState :=
  if st.engine ≠ .idle then st
  else if (st.sessions true).rawRequest.isSome then { st with engine := .work true .resetFree }
  else { st with engine := .resetNext }

/-- The next access of the engine thread to a session. -/
def work (st : NiState) (created : Bool) (es : Bool) : NiEngineOp → NiState
  | .storeRaw payload timeout =>
    { st.setSession es { st.sessions es with rawRequest := some payload } with
      engine := .work es (.storeId payload timeout) }
  | .storeId payload timeout =>
    { st.setSession es { st.sessions es with reqID := st.reqIDCounter + 1 } with
      reqIDCounter := st.reqIDCounter + 1
      requests := ⟨st.reqIDCounter + 1, es, payload, st.now, respTime timeout⟩ :: st.requests
      engine := .work es (.storeTime timeout) }
  | .storeTime timeout =>
    { st.setSession es { st.sessions es with respTimeLeft := respTime timeout } with engine := .work es .create }
  | .create =>
    if created then
      { st.setSession es { st.sessions es with
          threads := (st.reqIDCounter, .start) :: (st.sessions es).threads } with engine := .idle }
    else { st with engine := .idle }
  | .resetFree =>
    { st with freed := (st.sessions es).rawRequest.toList ++ st.freed, engine := .work es .resetNull }
  | .resetNull =>
    { st.setSession es { st.sessions es with rawRequest := none } with engine := .work es .resetFlag }
  | .resetFlag =>
    if (st.sessions es).locked then st
    else { st.setSession es { st.sessions es with respRecvd := true } with
      engine := if es then .resetNext else .idle }

def engineStep (st : NiState) (created : Bool) : NiState :=
  match st.engine with
  | .idle => st
  | .work es op => st.work created es op
  | .resetNext =>
    if (st.sessions false).rawRequest.isSome then { st with engine := .work false .resetFree }
    else { st with engine := .idle }

def frameworkStep (st : NiState) : NiState :=
  match st.framework with
  | .idle => st
  | .compareId es id answer =>
    if id = (st.sessions es).reqID then { st with framework := .compareRaw es id answer }
    else { st with framework := if es then .compareId false id answer else .idle }
  | .compareRaw es id answer =>
    if (st.sessions es).rawRequest.isSome then
      { st with framework := if es && answer = NI_ACCEPT then .compareOther id answer else .write es id answer }
    else { st with framework := if es then .compareId false id answer else .idle }
  | .compareOther id answer =>
    { st with framework :=
        if (st.sessions false).rawRequest.isSome then .ignore id answer else .write true id answer }
  | .ignore id answer =>
    if (st.sessions false).locked then st
    else { st.setSession false ((st.sessions false).answer NI_IGNORE) with framework := .write true id answer }
  | .write es _ answer =>
    if (st.sessions es).locked then st
    else { st.setSession es ((st.sessions es).answer answer) with framework := .idle }

/-- A thread in the loop of `ni_thread_proc()` leaves it. -/
def leavesLoop (st : NiState) (es : Bool) (expired : Bool) : NiThreadPc → Bool
  | .start => (st.sessions es).respRecvd
  | .waiting expire => (expired && expire ≤ st.now) || (st.sessions es).respRecvd
  | .take => false
  | .use => false
  | .clear => false
  | .leave => false
  | .reset => false

/-- The next access of a thread in `ni_thread_proc()`; `expired` is a wake up by `ETIMEDOUT`. -/
def threadAccess (st : NiState) (es : Bool) (n : ℤ) (expired : Bool) (pc : NiThreadPc) : NiState :=
  let s := st.sessions es
  match pc with
  | .start =>
    if s.locked then st
    else if s.respRecvd then st.setSession es (s.leaveLoop n)
    else st.setSession es (s.setPc n (.waiting (st.now + s.respTimeLeft)))
  | .waiting expire =>
    if s.locked then st
    else if expired && expire ≤ st.now then st.setSession es { s.leaveLoop n with resp := NI_NORESP }
    else if s.respRecvd then st.setSession es (s.leaveLoop n)
    else st
  | .take => st.setSession es (s.setPc n (if s.rawRequest.isSome then .use else .leave))
  | .use =>
    if s.resp ≠ NI_IGNORE then
      { st.setSession es (s.setPc n .clear) with responses := ⟨s.rawRequest, s.resp, st.now⟩ :: st.responses }
    else { st.setSession es (s.setPc n .clear) with freed := s.rawRequest.toList ++ st.freed }
  | .clear => st.setSession es { s.setPc n .leave with rawRequest := none }
  | .leave => st.setSession es { s.setPc n .reset with respTimeLeft := 0 }
  | .reset => st.setSession es { s.removeThread n with reqID := 0 }

def threadStep (st : NiState) (es : Bool) (n : ℤ) (expired : Bool) : NiState :=
  match (st.sessions es).threads.lookup n with
  | none => st
  | some pc => st.threadAccess es n expired pc

end NiState

/-! ### Runs -/

inductive NiAct
  /-- Time passes. -/
  | tick (k : ℕ)
  | request (es : Bool) (timeout : ℤ)
  | restart
  /-- The engine thread; `created` is the success of `pthread_create()`. -/
  | engine (created : Bool)
  | respond (id answer : ℤ)
  | framework
  | thread (es : Bool) (n : ℤ) (expired : Bool)

def niStep (st : NiState) : NiAct → NiState
  | .tick k => { st with now := st.now + k }
  | .request es timeout => st.request es timeout
  | .restart => st.restart
  | .engine created => st.engineStep created
  | .respond id answer =>
    if st.framework = .idle then
      { st with framework := .compareId true id answer, answers := (id, answer) :: st.answers }
    else st
  | .framework => st.frameworkStep
  | .thread es n expired => st.threadStep es n expired

/-- After `loc_eng_ni_init()`. -/
def niInit : NiState where
  sessions _ := ⟨0, false, none, 0, 0, []⟩
  reqIDCounter := 0
  engine := .idle
  framework := .idle
  now := 0
  allocated := 0
  requests := []
  answers := []
  responses := []
  freed := []

def niRun (acts : List NiAct) : NiState := acts.foldl niStep niInit

/-! ### The condition -/

/-- An access of the engine thread finds the session as it was checked: a request is stored when the last thread of
the session is gone, `pthread_create()` succeeds, and a thread still waits when its request is taken away and when it
is woken. -/
def niEngineMeets (st : NiState) (created : Bool) : Bool :=
  match st.engine with
  | .idle => true
  | .resetNext => true
  | .work es op =>
    match op with
    | .storeRaw _ _ => (st.sessions es).threads.isEmpty
    | .storeId _ _ => true
    | .storeTime _ => true
    | .create => created
    | .resetFree => (st.sessions es).hasWaiter
    | .resetNull => true
    | .resetFlag => (st.sessions es).locked || (st.sessions es).hasWaiter

/-- An answer still finds the request that it is for, and a thread that waits. -/
def niFrameworkMeets (st : NiState) : Bool :=
  match st.framework with
  | .idle => true
  | .compareId _ _ _ => true
  | .compareRaw _ _ _ => true
  | .compareOther _ _ => true
  | .ignore _ _ =>
    (st.sessions false).locked || ((st.sessions false).hasWaiter && (st.sessions false).rawRequest.isSome)
  | .write es id _ =>
    (st.sessions es).locked ||
      ((st.sessions es).hasWaiter && (st.sessions es).rawRequest.isSome && (st.sessions es).reqID = id)

/-- A thread does not end its wait between `free()` and the `NULL` after it. -/
def niThreadMeets (st : NiState) (es : Bool) (n : ℤ) (expired : Bool) : Bool :=
  match (st.sessions es).threads.lookup n with
  | none => true
  | some pc => !st.leavesLoop es expired pc || st.engine ≠ .work es .resetNull

def NiMeets (st : NiState) : NiAct → Prop
  | .tick _ => True
  | .request _ _ => True
  | .restart => True
  | .engine created => niEngineMeets st created = true
  | .respond _ _ => True
  | .framework => niFrameworkMeets st = true
  | .thread es n expired => niThreadMeets st es n expired = true

instance (st : NiState) : ∀ a, Decidable (NiMeets st a)
  | .tick _ => isTrue trivial
  | .request _ _ => isTrue trivial
  | .restart => isTrue trivial
  | .engine created => inferInstanceAs (Decidable (niEngineMeets st created = true))
  | .respond _ _ => isTrue trivial
  | .framework => inferInstanceAs (Decidable (niFrameworkMeets st = true))
  | .thread es n expired => inferInstanceAs (Decidable (niThreadMeets st es n expired = true))

end G4Common.Gps

/-
Requests of the radio interface: how they are queued, handed to the vendor, acknowledged and answered.

A call of the radio service allocates a `RequestInfo`, pushes it in front of the pending list of its slot and prepares
the payload.  If that goes well, the vendor library is given the address of the record as its token; if not, the call
is answered with an error and returns.  The vendor acknowledges and completes requests by their tokens, at any time and
from any thread: the token is looked up in the pending list, and completing takes it out and frees the record.

Addresses are numbers, and the allocator may give out again what was freed.  Beside the state of the program a `State`
keeps what happened to each dispatched request, by its number, and the calls that got no memory for a record; no
function of the program reads that.  A step that reads a freed record has no result.
-/
import G4Common.Lib.Ledger

namespace G4Common.Ril

namespace Requests

open Function

/-! ### Constants -/

def RIL_E_NO_MEMORY : ℤ := 37
def RIL_E_INVALID_ARGUMENTS : ℤ := 44

def RESPONSE_SOLICITED : ℤ := 0
def RESPONSE_SOLICITED_ACK_EXP : ℤ := 3

/-- The choices made when the library is built and registered. -/
structure Build where
  SIM_COUNT : ℕ
  version : ℤ
  sim_le : SIM_COUNT ≤ 4

/-! ### Preparing the payload -/

/-- The string is copied up to its first zero byte; an empty one is a null pointer unless that is not wanted. -/
def copyHidlStringToRil (src : List UInt8) (allowEmpty alloc : Bool) : Except ℤ (Option (List UInt8)) :=
  if src.length = 0 ∧ allowEmpty = false then .ok none
  else if alloc then .ok (some (src.takeWhile (fun c => c ≠ 0)))
  else .error RIL_E_NO_MEMORY

/-- What a dispatch function does between queueing its request and calling the vendor, where it can fail. -/
inductive Stage
  | check (ok : Bool) (e : ℤ)
  | calloc
  | copy (src : List UInt8) (allowEmpty : Bool)

/-- The strings that a stage adds to the payload, or the error it answers with. -/
def Stage.run (alloc : Bool) : Stage → Except ℤ (List (Option (List UInt8)))
  | .check ok e => if ok then .ok [] else .error e
  | .calloc => if alloc then .ok [] else .error RIL_E_NO_MEMORY
  | .copy src allowEmpty => (copyHidlStringToRil src allowEmpty alloc).map (fun dest => [dest])

/-- The stages one after the other, with the outcomes of their allocations; the first one that fails is the last. -/
def prepare : List Stage → List Bool → Except ℤ (List (Option (List UInt8)))
  | [], _ => .ok []
  | st :: rest, allocs => do
    let dest ← st.run (allocs.headD true)
    let dests ← prepare rest allocs.tail
    .ok (dest ++ dests)

def dispatchVoid : List Stage := []

def dispatchString (str : List UInt8) : List Stage := [.copy str false]

def dispatchStrings (allowEmpty : Bool) (data : List (List UInt8)) : List Stage :=
  .calloc :: data.map (fun str => .copy str allowEmpty)

def dispatchInts : List Stage := [.calloc]

def dispatchCallForwardStatus (number : List UInt8) : List Stage := [.copy number false]

def dispatchRaw : List Stage := []

def dispatchIccApdu (data : List UInt8) : List Stage := [.copy data false]

/-- The error exits of `startNetworkScan`: too many specifiers, or one with too many bands or of an unknown network. -/
def startNetworkScan (sizeOk : Bool) (specifiers : List Bool) : List Stage :=
  .check sizeOk RIL_E_INVALID_ARGUMENTS :: specifiers.map (fun ok => .check ok RIL_E_INVALID_ARGUMENTS)

/-! ### State -/

structure RequestInfo where
  token : ℤ
  pCI : ℕ
  cancelled : ℕ
  local' : ℕ
  socket_id : ℕ
  wasAckSent : ℕ

/-- A call of a response function. -/
structure Answer where
  slotId : ℕ
  responseType : ℤ
  token : ℤ
  e : ℤ

/-- How far the dispatch function of a request came. -/
inductive Progress
  | preparing
  | atVendor
  | failed
deriving DecidableEq

/-- What happened to a request. -/
structure Dispatched where
  pRI : ℕ
  serial : ℤ
  slotId : ℕ
  request : ℕ
  stages : List Stage
  progress : Progress
  acked : Bool
  completed : Bool
  answers : List Answer

structure State where
  pending : ℕ → List ℕ
  heap : ℕ → Option RequestInfo
  acknowledged : List (ℕ × ℤ)
  /-- The request for which an address was given out last. -/
  owner : ℕ → ℕ
  count : ℕ
  req : ℕ → Dispatched
  /-- The calls without a record, by slot and serial number: nothing answers them. -/
  lost : List (ℕ × ℤ)

def State.init : State where
  pending := fun _ => []
  heap := fun _ => none
  acknowledged := []
  owner := fun _ => 0
  count := 0
  req := fun _ => ⟨0, 0, 0, 0, [], .preparing, false, false, []⟩
  lost := []

/-! ### The library -/

/-- The number of the pending list of a slot; slots without one of their own share the first. -/
def pendingRequestsHook (b : Build) (socket_id : ℕ) : ℕ :=
  if 2 ≤ b.SIM_COUNT ∧ socket_id = 1 then 1
  else if 3 ≤ b.SIM_COUNT ∧ socket_id = 2 then 2
  else if 4 ≤ b.SIM_COUNT ∧ socket_id = 3 then 3
  else 0

def addRequestToList (b : Build) (s : State) (pRI : ℕ) (serial : ℤ) (slotId request : ℕ) : State :=
  { s with
    heap := update s.heap pRI (some ⟨serial, request, 0, 0, slotId, 0⟩)
    pending := update s.pending (pendingRequestsHook b slotId) (pRI :: s.pending (pendingRequestsHook b slotId)) }

/-- Only the response function is called: the request stays where it is. -/
def sendErrorResponse (s : State) (pRI : ℕ) (err : ℤ) : Option Answer := do
  let info ← s.heap pRI
  some ⟨info.socket_id, RESPONSE_SOLICITED, info.token, err⟩

def checkAndDequeueRequestInfoIfAck (b : Build) (s : State) (pRI : ℕ) (isAck : Bool) : Option (Bool × State) :=
  if pRI = 0 then some (false, s)
  else do
    let info ← s.heap pRI
    let hook := pendingRequestsHook b info.socket_id
    if pRI ∈ s.pending hook then
      if isAck then
        if info.wasAckSent = 1 then some (true, s)
        else some (true, { s with heap := update s.heap pRI (some { info with wasAckSent := 1 }) })
      else some (true, { s with pending := update s.pending hook ((s.pending hook).erase pRI) })
    else some (false, s)

def onRequestAck (b : Build) (s : State) (t : ℕ) : Option State := do
  let (found, s') ← checkAndDequeueRequestInfoIfAck b s t true
  if found then
    let info ← s'.heap t
    if info.cancelled = 0 then some { s' with acknowledged := s'.acknowledged ++ [(info.socket_id, info.token)] }
    else some s'
  else some s'

/-- The new state, and the response if there is one. -/
def onRequestComplete (b : Build) (s : State) (t : ℕ) (e : ℤ) : Option (State × List Answer) := do
  let (found, s') ← checkAndDequeueRequestInfoIfAck b s t false
  if found then
    let info ← s'.heap t
    let freed := { s' with heap := update s'.heap t none }
    if 0 < info.local' then some (freed, [])
    else if info.cancelled = 0 then
      let responseType :=
        if 13 ≤ b.version ∧ info.wasAckSent = 1 then RESPONSE_SOLICITED_ACK_EXP else RESPONSE_SOLICITED
      some (freed, [⟨info.socket_id, responseType, info.token, e⟩])
    else some (freed, [])
  else some (s', [])

/-! ### Steps -/

inductive Act
  /-- The first half of a dispatch function: the record got the address `pRI`. -/
  | addRequestToList (pRI : ℕ) (serial : ℤ) (slotId request : ℕ) (stages : List Stage)
  /-- There was no memory for the record: the dispatch function returns. -/
  | noMemory (serial : ℤ) (slotId : ℕ)
  /-- The second half: the payload, and then the vendor or an error exit. -/
  | dispatch (n : ℕ) (allocs : List Bool)
  /-- All of `RIL_onRequestAck()`, with what it does behind the mutex. -/
  | onRequestAck (n : ℕ)
  | onRequestComplete (n : ℕ) (e : ℤ)

/-- A line in the record of a request. -/
def State.note (s : State) (n : ℕ) (f : Dispatched → Dispatched) : State :=
  { s with req := update s.req n (f (s.req n)) }

def step (b : Build) (s : State) : Act → Option State
  | .addRequestToList pRI serial slotId request stages =>
    some
      { addRequestToList b s pRI serial slotId request with
        owner := update s.owner pRI s.count
        count := s.count + 1
        req := update s.req s.count ⟨pRI, serial, slotId, request, stages, .preparing, false, false, []⟩ }
  | .noMemory serial slotId => some { s with lost := s.lost ++ [(slotId, serial)] }
  | .dispatch n allocs =>
    match prepare (s.req n).stages allocs with
    | .ok _ => some (s.note n (fun d => { d with progress := .atVendor }))
    | .error e => do
      let a ← sendErrorResponse s (s.req n).pRI e
      some (s.note n (fun d => { d with progress := .failed, answers := d.answers ++ [a] }))
  | .onRequestAck n => do
    let s' ← onRequestAck b s (s.req n).pRI
    some (s'.note n (fun d => { d with acked := true }))
  | .onRequestComplete n e => do
    let (s', answers) ← onRequestComplete b s (s.req n).pRI e
    some (s'.note n (fun d => { d with completed := true, answers := d.answers ++ answers }))

/-- The allocator gives out free addresses and services exist for the slots of the build; the vendor acknowledges at
most once, and completes once, what it was given. -/
def Allowed (b : Build) (s : State) : Act → Prop
  | .addRequestToList pRI _ slotId _ _ => pRI ≠ 0 ∧ s.heap pRI = none ∧ slotId < b.SIM_COUNT
  | .noMemory _ slotId => slotId < b.SIM_COUNT
  | .dispatch n _ => n < s.count ∧ (s.req n).progress = .preparing
  | .onRequestAck n => n < s.count ∧ (s.req n).progress = .atVendor ∧ (s.req n).acked = false
  | .onRequestComplete n _ => n < s.count ∧ (s.req n).progress = .atVendor ∧ (s.req n).completed = false

/-- The states of the runs whose steps all meet `cond`. -/
inductive Run (b : Build) (cond : State → Act → Prop) : State → Prop
  | init : Run b cond State.init
  | step {s s' : State} {a : Act} : Run b cond s → Allowed b s a → cond s a → step b s a = some s' → Run b cond s'

/-! ### Facts on the definitions -/

variable {b : Build} {s s' : State} {n m k : ℕ}

theorem pendingRequestsHook_eq (b : Build) {slot : ℕ} (h : slot < b.SIM_COUNT) : pendingRequestsHook b slot = slot := by
  have hle := b.sim_le
  rw [pendingRequestsHook]
  split
  · omega
  · split
    · omega
    · split <;> omega

@[simp] theorem note_self (s : State) (n : ℕ) (f : Dispatched → Dispatched) : (s.note n f).req n = f (s.req n) :=
  update_self _ _ _

@[simp] theorem note_of_ne (f : Dispatched → Dispatched) (h : m ≠ n) : (s.note n f).req m = s.req m :=
  update_of_ne h _ _

end Requests

end G4Common.Ril

/-
Requests of the SIM access profile: the queue of those that wait for the vendor.

A request is a header, made by the service, and a record that links it into `pendingResponseQueue`.  The service hands
both to the vendor and keeps using the header after that call; the completion frees the header, and takes out of the
queue and frees the first record with the same token and message id.  The encoded request goes to the vendor through a
`uint16_t` length and a `pb_size_t` size, whose width depends on how the protobuf library is built.

Memory is three partial functions, for records, headers and payloads; addresses are not given out again, so that a use
after free has no result.  Beside them a state keeps what happened to each dispatched request, by its number.
-/
import G4Common.Lib.Ledger
import G4Common.Lib.LinkWalk

namespace G4Common.Ril

namespace Sap

open Function

/-! ### State -/

/-- How the program is built and set up: the bits of `pb_size_t`, whether there are vendor functions, and the socket. -/
structure Config where
  sizeBits : ℕ
  uimFuncs : Bool
  id : ℕ

inductive MsgType
  | REQUEST
  | RESPONSE

structure MsgHeader where
  token : ℤ
  type : MsgType
  id : ℤ
  error : ℤ
  payload : ℕ

/-- A `pb_bytes_array_t`. -/
structure Payload where
  size : ℕ
  bytes : List UInt8

/-- The fields of a `SapSocketRequest` without its link. -/
structure SapSocketRequest where
  token : ℤ
  curr : ℕ
  socketId : ℕ

/-- The header of a response, as the service gets it. -/
structure Response where
  token : ℤ
  type : MsgType
  id : ℤ
  error : ℤ

/-- What happened to a request. -/
structure Sent where
  msg : ℕ
  payload : ℕ
  currRequest : ℕ
  id : ℤ
  token : ℤ
  encoded : List UInt8
  /-- The bytes and the size that the vendor was given. -/
  handed : Option (List UInt8 × ℕ)
  returned : Bool
  completed : Bool
  answers : List Response

structure State where
  pendingResponseQueue : PtrList SapSocketRequest
  hdrs : ℕ → Option MsgHeader
  payloads : ℕ → Option Payload
  count : ℕ
  sent : ℕ → Sent

def State.init : State where
  pendingResponseQueue := ⟨0, fun _ => none⟩
  hdrs := fun _ => none
  payloads := fun _ => none
  count := 0
  sent := fun _ => ⟨0, 0, 0, 0, 0, [], none, false, false, []⟩

/-! ### The queue -/

def enqueue (q : PtrList SapSocketRequest) (p : ℕ) (request : SapSocketRequest) : PtrList SapSocketRequest :=
  q.push p request

def empty (q : PtrList SapSocketRequest) : Bool := q.head = 0

/-- The header is read only where the token is the same. -/
def matchesRequest (hdrs : ℕ → Option MsgHeader) (id token : ℤ) (request : SapSocketRequest) : Option Bool :=
  if token = request.token then (hdrs request.curr).map (fun h => id = h.id) else some false

/-- The first record with this id and token is unlinked and freed; at most `n` records are read. -/
def checkAndDequeue (s : State) (n : ℕ) (id token : ℤ) : Option (Bool × State) := do
  let found ← s.pendingResponseQueue.find (matchesRequest s.hdrs id token) n .head
  match found with
  | none => some (false, s)
  | some ppCur => do
    let q ← s.pendingResponseQueue.unlink ppCur
    some (true, { s with pendingResponseQueue := q })

/-! ### Dispatching and completing -/

def createMsgHeader (s : State) (msg : ℕ) (msgId token : ℤ) : State :=
  { s with hdrs := update s.hdrs msg (some ⟨token, .REQUEST, msgId, 0, 0⟩) }

/-- The record is queued before the vendor is called. -/
def dispatchRequest (c : Config) (s : State) (req currRequest : ℕ) : Option (State × Option (List UInt8 × ℕ)) := do
  let h ← s.hdrs req
  let s' := { s with pendingResponseQueue := enqueue s.pendingResponseQueue currRequest ⟨h.token, req, c.id⟩ }
  if c.uimFuncs then do
    let payload ← s'.payloads h.payload
    some (s', some (payload.bytes, payload.size))
  else some (s', none)

/-- The part up to the call of the vendor; the length of the request becomes an `uint16_t`. -/
def addPayloadAndDispatchRequest (c : Config) (s : State) (msg payload currRequest : ℕ) (reqPtr : List UInt8) :
    Option (State × Option (List UInt8 × ℕ)) := do
  let reqLen := reqPtr.length % 65536
  let h ← s.hdrs msg
  dispatchRequest c
    { s with
      payloads := update s.payloads payload (some ⟨reqLen % 2 ^ c.sizeBits, reqPtr.take reqLen⟩)
      hdrs := update s.hdrs msg (some { h with payload := payload }) }
    msg currRequest

/-- The part after the call: `free(msg->payload)`. -/
def freePayload (s : State) (msg : ℕ) : Option State := do
  let h ← s.hdrs msg
  let _ ← s.payloads h.payload
  some { s with payloads := update s.payloads h.payload none }

def onRequestComplete (s : State) (t : ℕ) (e : ℤ) : Option (State × List Response) := do
  let request ← s.pendingResponseQueue.mem t
  if request.val.curr = 0 then some (s, [])
  else do
    let hdr ← s.hdrs request.val.curr
    let (_, s') ← checkAndDequeue s (s.count + 1) hdr.id hdr.token
    let _ ← s'.hdrs request.val.curr
    some ({ s' with hdrs := update s'.hdrs request.val.curr none }, [⟨hdr.token, .RESPONSE, hdr.id, e⟩])

/-! ### Steps -/

inductive Act
  /-- A request is made, encoded and handed to the vendor. -/
  | dispatch (msg payload currRequest : ℕ) (msgId token : ℤ) (reqPtr : List UInt8)
  /-- The vendor's `onRequest` has returned to the service. -/
  | dispatchReturns (n : ℕ)
  | onRequestComplete (n : ℕ) (e : ℤ)

/-- A line in the record of a request. -/
def State.note (s : State) (n : ℕ) (f : Sent → Sent) : State := { s with sent := update s.sent n (f (s.sent n)) }

def step (c : Config) (s : State) : Act → Option State
  | .dispatch msg payload currRequest msgId token reqPtr => do
    let (s', handed) ← addPayloadAndDispatchRequest c (createMsgHeader s msg msgId token) msg payload currRequest reqPtr
    some
      { s' with
        count := s.count + 1
        sent := update s.sent s.count
          ⟨msg, payload, currRequest, msgId, token, reqPtr, handed, false, false, []⟩ }
  | .dispatchReturns n => do
    let s' ← freePayload s (s.sent n).msg
    some (s'.note n (fun d => { d with returned := true }))
  | .onRequestComplete n e => do
    let (s', answers) ← onRequestComplete s (s.sent n).currRequest e
    some (s'.note n (fun d => { d with completed := true, answers := d.answers ++ answers }))

/-- Addresses are new, and the vendor completes once what it was handed, as soon as it likes. -/
def Allowed (s : State) : Act → Prop
  | .dispatch msg payload currRequest _ _ _ => msg ≠ 0 ∧ currRequest ≠ 0
    ∧ ∀ m < s.count, (s.sent m).msg ≠ msg ∧ (s.sent m).payload ≠ payload ∧ (s.sent m).currRequest ≠ currRequest
  | .dispatchReturns n => n < s.count ∧ (s.sent n).returned = false
  | .onRequestComplete n _ => n < s.count ∧ (s.sent n).handed.isSome = true ∧ (s.sent n).completed = false

/-- The states of the runs whose steps all meet `cond`. -/
inductive Run (c : Config) (cond : State → Act → Prop) : State → Prop
  | init : Run c cond State.init
  | step {s s' : State} {a : Act} : Run c cond s → Allowed s a → cond s a → step c s a = some s' → Run c cond s'

/-- The length fits, and a completion comes after its dispatch has returned and not before the completion of a newer
request with the same id and token. -/
def Orderly (c : Config) (s : State) : Act → Prop
  | .dispatch _ _ _ _ _ reqPtr => reqPtr.length < 65536 ∧ reqPtr.length < 2 ^ c.sizeBits
  | .dispatchReturns _ => True
  | .onRequestComplete n _ => (s.sent n).returned = true ∧ ∀ m, n < m → m < s.count → (s.sent m).completed = false
    → ¬ ((s.sent m).id = (s.sent n).id ∧ (s.sent m).token = (s.sent n).token)

/-! ### Facts on the definitions -/

variable {c : Config} {s s' : State} {n m : ℕ}

@[simp] theorem note_self (s : State) (n : ℕ) (f : Sent → Sent) : (s.note n f).sent n = f (s.sent n) :=
  update_self _ _ _

@[simp] theorem note_of_ne (f : Sent → Sent) (h : m ≠ n) : (s.note n f).sent m = s.sent m :=
  update_of_ne h _ _

theorem matchesRequest_of_header {hdrs : ℕ → Option MsgHeader} {id token : ℤ} {request : SapSocketRequest} {hdr : MsgHeader}
    (hcurr : hdrs request.curr = some hdr) :
    matchesRequest hdrs id token request = some (decide (token = request.token ∧ id = hdr.id)) := by
  rw [matchesRequest, hcurr]
  split_ifs with h <;> simp [h]

theorem length_handed {reqPtr : List UInt8} (h : reqPtr.length < 65536) (hsize : reqPtr.length < 2 ^ c.sizeBits) :
    reqPtr.take (reqPtr.length % 65536) = reqPtr ∧ reqPtr.length % 65536 % 2 ^ c.sizeBits = reqPtr.length := by
  rw [Nat.mod_eq_of_lt h, Nat.mod_eq_of_lt hsize]
  exact ⟨List.take_length, rfl⟩

end Sap

end G4Common.Ril

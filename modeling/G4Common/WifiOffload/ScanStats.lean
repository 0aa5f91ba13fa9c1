/-
The scan statistics of Wi-Fi offload (`OffloadServer::getScanStats()` and `handleScanStats()` of
`wifi_offload/offload_server.cpp`).

A call sends a request and waits on a condition variable; a reply is converted into a field of the server on another
thread, under the lock, and the waiting call is notified.  The wait has no predicate, it starts after the request was
sent, and the result is read without the lock.  The state below has one step for each access of the two threads to
what they share; what a reply is an answer to, and which replies a call has seen, is kept beside the program's state.

A call gets its own reply (`scan_stats_right`) in every run in which no step does what the program does not prevent
(`Undisturbed`).
-/
import Mathlib.Data.List.FinRange
import Mathlib.Data.List.Basic

namespace G4Common.WifiOffload

open List

/-! ### Conversion -/

inductive RecordName
  | CMD_INT
  | CMD_CONFIG_SCANS
  | CMD_SUBSCRIBE_SCAN_RESULTS
  | CMD_UNSUBSCRIBE_SCAN_RESULTS
  | CMD_GET_SCAN_STATS
  | CMD_RESET
  | EVENT_RECVD_SCAN_RESULT_ASYNC
  | EVENT_RECVD_SCAN_RESULT
  | EVENT_SENT_SCAN_RESULT
  | EVENT_SENT_ABORT
  | EVENT_SENT_ERROR
  | REQ_SCAN

/-- `RpcLogRecordType`: a value with a name of its own in `RecordName`, or another one. -/
inductive RpcLogRecordType
  | named (name : RecordName)
  | other (value : ℕ)

def toHidlRecordName : RpcLogRecordType → Option RecordName
  | .named name => some name
  | .other _ => none

structure ScanRecord where
  durationMs : ℕ
  numChannelsScanned : ℕ
  numEntriesAggregated : ℕ

structure LogRecord where
  recordName : RecordName
  logTimeMs : ℕ

/-- `ScanStats` of the HAL; the histogram has `N` elements. -/
structure ScanStats (N : ℕ) where
  subscriptionDurationMs : ℕ
  numScansRequestedByWifi : ℕ
  numScansServicedByWifi : ℕ
  numScansServicedbyCache : ℕ
  scanRecord : List ScanRecord
  logRecord : List LogRecord
  histogramChannelsScanned : Fin N → ℕ

/-- `wifi_offload::ScanStats`; a scan record has the time, the channels and the entries. -/
structure ChreScanStats where
  last_subscription_duration_ms_ : ℕ
  num_scans_requested_by_nanoapp_ : ℕ
  num_scans_serviced_by_hardware_ : ℕ
  num_scans_serviced_by_cache_ : ℕ
  scan_records_ : List (ℕ × ℕ × ℕ)
  rpc_log_records_ : List (RpcLogRecordType × ℕ)
  getChannelScanCount : ℕ → ℕ

inductive OffloadStatusCode
  | OK
  | NO_CONNECTION
  | TIMEOUT
  | ERROR
deriving DecidableEq

structure OffloadStatus where
  code : OffloadStatusCode
  description : String

variable {N : ℕ}

/-- The scan records of a reply. -/
def scanRecords (c : ChreScanStats) : List ScanRecord := c.scan_records_.map fun r => ⟨r.1, r.2.1, r.2.2⟩

/-- The log records of a reply, if each has a name. -/
def logRecords (c : ChreScanStats) : Option (List LogRecord) :=
  c.rpc_log_records_.mapM fun r => (toHidlRecordName r.1).map fun name => ⟨name, r.2⟩

/-- The assignments of `ToHidlScanStats()`, one after the other; without a name for each log record it returns early,
with `false`. -/
def toHidlScanStats (c : ChreScanStats) : List (ScanStats N → ScanStats N) :=
  [ fun s => { s with subscriptionDurationMs := c.last_subscription_duration_ms_ },
    fun s => { s with numScansRequestedByWifi := c.num_scans_requested_by_nanoapp_ },
    fun s => { s with numScansServicedByWifi := c.num_scans_serviced_by_hardware_ },
    fun s => { s with numScansServicedbyCache := c.num_scans_serviced_by_cache_ },
    fun s => { s with scanRecord := scanRecords c } ] ++
  (logRecords c).elim [] fun records =>
    (fun s => { s with logRecord := records }) :: (finRange N).map fun i s =>
        { s with histogramChannelsScanned := Function.update s.histogramChannelsScanned i (c.getChannelScanCount i) }

/-! ### The two threads -/

/-- A reply, with the number of requests that had been sent when the firmware sent it. -/
structure Reply where
  message : List UInt8
  after : ℕ

/-- `handleScanStats()` with the lock: the assignments that are left, and `status`. -/
structure Handler (N : ℕ) where
  reply : Reply
  todo : List (ScanStats N → ScanStats N)
  status : OffloadStatus

/-- Where `getScanStats()` is. -/
inductive Phase
  | idle
  | started
  | connected
  | sent
  | waiting
  | woken
  | statusRead (status : OffloadStatus)

/-- What a call has returned, with its request and the replies that were handed over since it was sent. -/
structure CallResult (N : ℕ) where
  request : ℕ
  delivered : List Reply
  status : OffloadStatus
  stats : ScanStats N

structure Server (N : ℕ) where
  mScanStats : ScanStats N
  mScanStatsStatus : OffloadStatus
  phase : Phase
  /-- `mScanStatsLock` is held if and only if there is one. -/
  handler : Option (Handler N)
  requests : ℕ
  delivered : List Reply
  results : List (CallResult N)

def noStats : ScanStats N := ⟨0, 0, 0, 0, [], [], fun _ => 0⟩

def createOffloadStatus (code : OffloadStatusCode) (description : String) : OffloadStatus := ⟨code, description⟩

def Server.returns (s : Server N) (status : OffloadStatus) (stats : ScanStats N) : Server N :=
  { s with phase := .idle, results := ⟨s.requests, s.delivered, status, stats⟩ :: s.results }

section

-- `Deserialize()`
variable (deserialize : List UInt8 → Option ChreScanStats)

def handlerOf (m : Reply) : Handler N :=
  (deserialize m.message).elim ⟨m, [], createOffloadStatus .ERROR "Cannot deserailize scan stats"⟩ fun c =>
    ⟨m, toHidlScanStats c, if (logRecords c).isSome then createOffloadStatus .OK ""
      else createOffloadStatus .ERROR "Cannot convert Scan stats to HIDL format"⟩

inductive ServerStep
  /-- `getScanStats()` is called, and sets the status. -/
  | setStatus
  | isConnected (connected : Bool)
  | sendCommandToApp (success : Bool)
  /-- The lock is taken and given up for the wait. -/
  | wait
  | timeout
  /-- The wait ends without a notification. -/
  | spurious
  | readStatus
  | readStats
  /-- `handleScanStats()` is called with a reply, and takes the lock. -/
  | deliver (m : Reply)
  /-- The next assignment to `mScanStats`. -/
  | convert
  /-- The status is set, waiting threads are notified, and the lock is given up. -/
  | notify

/-- A step, if it can be taken. -/
def ServerStep.apply : ServerStep → Server N → Option (Server N)
  | setStatus, s =>
    match s.phase with
    | .idle => some { s with phase := .started, mScanStatsStatus := createOffloadStatus .OK "" }
    | _ => none
  | isConnected connected, s =>
    match s.phase with
    | .started =>
      some (if connected then { s with phase := .connected }
        else { s with delivered := [] }.returns (createOffloadStatus .NO_CONNECTION "Unable to send scan stats") noStats)
    | _ => none
  | sendCommandToApp success, s =>
    match s.phase with
    | .connected =>
      some (if success then { s with phase := .sent, requests := s.requests + 1, delivered := [] }
        else { s with delivered := [] }.returns
          (createOffloadStatus .ERROR "Unable to send scan stats command") noStats)
    | _ => none
  | wait, s =>
    match s.phase, s.handler with
    | .sent, none => some { s with phase := .waiting }
    | _, _ => none
  | timeout, s =>
    match s.phase with
    | .waiting => some (s.returns (createOffloadStatus .TIMEOUT "Scan stats not received") noStats)
    | _ => none
  | spurious, s =>
    match s.phase with
    | .waiting => some { s with phase := .woken }
    | _ => none
  | readStatus, s =>
    match s.phase with
    | .woken => some { s with phase := .statusRead s.mScanStatsStatus }
    | _ => none
  | readStats, s =>
    match s.phase with
    | .statusRead status => some (s.returns status s.mScanStats)
    | _ => none
  | deliver m, s =>
    match s.handler with
    | none =>
      -- the firmware cannot know of a request that was not sent
      if m.after ≤ s.requests then
        some { s with handler := some (handlerOf deserialize m), delivered := m :: s.delivered }
      else none
    | some _ => none
  | convert, s =>
    match s.handler with
    | some ⟨m, f :: todo, status⟩ =>
      some { s with mScanStats := f s.mScanStats, handler := some ⟨m, todo, status⟩ }
    | _ => none
  | notify, s =>
    match s.handler with
    | some ⟨_, [], status⟩ =>
      some { s with
        mScanStatsStatus := status
        handler := none
        phase := match s.phase with
          | .waiting => .woken
          | p => p }
    | _ => none

/-- Steps one after the other. -/
def serverRun : List ServerStep → Server N → Option (Server N)
  | [], s => some s
  | op :: ops, s => (op.apply deserialize s).bind (serverRun ops)

def Server.init : Server N :=
  ⟨noStats, createOffloadStatus .OK "", .idle, none, 0, [], []⟩

/-! ### What is wanted -/

/-- The complete conversion of a reply, unless it is malformed. -/
def conversion (m : Reply) : Option (ScanStats N) :=
  (deserialize m.message).bind fun c => (logRecords c).map fun records =>
    ⟨c.last_subscription_duration_ms_, c.num_scans_requested_by_nanoapp_, c.num_scans_serviced_by_hardware_,
      c.num_scans_serviced_by_cache_, scanRecords c, records, fun i => c.getChannelScanCount i⟩

/-- `OK` comes with the complete conversion of a reply to this request, and such a reply is not missed. -/
def CallResult.Right (r : CallResult N) : Prop :=
  (r.status.code = .OK → ∃ m ∈ r.delivered, m.after = r.request ∧ conversion deserialize m = some r.stats) ∧
    ((∃ m ∈ r.delivered, m.after = r.request ∧ conversion (N := N) deserialize m ≠ none) → r.status.code = .OK)

/-- No valid reply to a request is handed over before the call waits, and no other one while it does; none is handed
over between the wait and the return, the wait does not end without a notification, and its time does not run out
while a reply is handled. -/
def ServerStep.Undisturbed : ServerStep → Server N → Prop
  | deliver m, s =>
    match s.phase with
    | .sent => conversion (N := N) deserialize m ≠ none → m.after < s.requests
    | .waiting => conversion (N := N) deserialize m ≠ none → m.after = s.requests
    | .woken => False
    | .statusRead _ => False
    | _ => True
  | timeout, s => s.handler.isNone
  | spurious, _ => False
  | _, _ => True

/-- Each step of a run is undisturbed. -/
def UndisturbedRun : List ServerStep → Server N → Prop
  | [], _ => True
  | op :: ops, s => op.Undisturbed deserialize s ∧ (op.apply deserialize s).elim True (UndisturbedRun ops)

variable {deserialize} {s s' : Server N} {op : ServerStep} {ops : List ServerStep} {m : Reply}
  {old : List Reply} {todo : List (ScanStats N → ScanStats N)} {status : OffloadStatus}

/-! ### Conversion -/

theorem foldl_histogram (f : Fin N → ℕ) (l : List (Fin N)) (x : ScanStats N) :
    (l.map fun i (x : ScanStats N) => { x with
      histogramChannelsScanned := Function.update x.histogramChannelsScanned i (f i) }).foldl (fun x g => g x) x =
      { x with histogramChannelsScanned := fun i => if i ∈ l then f i else x.histogramChannelsScanned i } := by
  induction l generalizing x with
  | nil => rfl
  | cons i l ih =>
    rw [map_cons, foldl_cons, ih]
    congr 1
    funext j
    rcases eq_or_ne j i with rfl | _ <;> simp [*]

theorem foldl_toHidlScanStats {c : ChreScanStats} {records : List LogRecord} (h : logRecords c = some records)
    (x : ScanStats N) : (toHidlScanStats c).foldl (fun x f => f x) x =
      ⟨c.last_subscription_duration_ms_, c.num_scans_requested_by_nanoapp_, c.num_scans_serviced_by_hardware_,
        c.num_scans_serviced_by_cache_, scanRecords c, records, fun i => c.getChannelScanCount i⟩ := by
  rw [toHidlScanStats, h, Option.elim_some, foldl_append, foldl_cons, foldl_histogram]
  simp

variable (deserialize) in
/-- The status is right for the reply, and so is what the assignments that are left come to. -/
def Answer (s : Server N) (m : Reply) (todo : List (ScanStats N → ScanStats N)) (status : OffloadStatus) : Prop :=
  (status.code = .OK ↔ conversion (N := N) deserialize m ≠ none) ∧
    ∀ x : ScanStats N, conversion deserialize m = some x →
      m.after = s.requests ∧ todo.foldl (fun x f => f x) s.mScanStats = x

theorem reply_handlerOf (m : Reply) : (handlerOf (N := N) deserialize m).reply = m := by
  rw [handlerOf]
  cases deserialize m.message <;> rfl

theorem answer_handlerOf (h : conversion (N := N) deserialize m ≠ none → m.after = s.requests) :
    Answer deserialize s m (handlerOf (N := N) deserialize m).todo (handlerOf (N := N) deserialize m).status := by
  rcases hc : deserialize m.message with - | c
  · have hnone : conversion (N := N) deserialize m = none := by rw [conversion, hc]; rfl
    simp [Answer, handlerOf, hc, hnone, createOffloadStatus]
  rcases hl : logRecords c with - | _
  · have hnone : conversion (N := N) deserialize m = none := by rw [conversion, hc, Option.bind_some, hl]; rfl
    simp [Answer, handlerOf, hc, hl, hnone, createOffloadStatus]
  refine ⟨?_, fun x hx => ⟨h (by simp [hx]), ?_⟩⟩
  · simp [handlerOf, conversion, hc, hl, createOffloadStatus]
  · rw [conversion, hc, Option.bind_some, hl] at hx
    rw [handlerOf, hc, Option.elim_some, foldl_toHidlScanStats hl]
    exact Option.some.inj hx

/-! ### The invariant -/

variable (deserialize) in
/-- None of the replies is a valid one to the request. -/
def NoAnswer (s : Server N) (l : List Reply) : Prop :=
  ∀ m ∈ l, conversion (N := N) deserialize m ≠ none → m.after < s.requests

variable (deserialize) in
/-- One of the replies may be a valid one to the request: the last one, whose status is given. -/
def Answered (s : Server N) (todo : List (ScanStats N → ScanStats N)) (status : OffloadStatus) (m : Reply) : Prop :=
  ∃ old, s.delivered = m :: old ∧ NoAnswer deserialize s old ∧ Answer deserialize s m todo status

variable (deserialize) in
/-- What has been handed over since the request was sent. -/
def PhaseInv (s : Server N) : Prop :=
  match s.phase with
  | .sent => NoAnswer deserialize s s.delivered
  | .waiting => s.handler.elim (NoAnswer deserialize s s.delivered) fun h =>
      Answered deserialize s h.todo h.status h.reply
  | .woken => s.handler = none ∧ ∃ m, Answered deserialize s [] s.mScanStatsStatus m
  | .statusRead status => s.handler = none ∧ ∃ m, Answered deserialize s [] status m
  | _ => True

variable (deserialize) in
/-- The results are right, and the call is on the way to a right one. -/
structure ServerInv (s : Server N) : Prop where
  results : ∀ r ∈ s.results, r.Right deserialize
  phase : PhaseInv deserialize s

section

variable (h : ServerInv deserialize s)
include h

theorem ServerInv.returns_none (hno : NoAnswer deserialize s s.delivered)
    (hcode : status.code ≠ .OK) (x : ScanStats N) : ServerInv deserialize (s.returns status x) := by
  refine ⟨fun r hr => ?_, trivial⟩
  rcases mem_cons.1 hr with rfl | hr
  · refine ⟨fun hok => absurd hok hcode, ?_⟩
    rintro ⟨m, hm, hafter, hvalid⟩
    exact absurd hafter (Nat.ne_of_lt (hno m hm hvalid))
  · exact h.results r hr

theorem ServerInv.returns_answered (hanswer : Answered deserialize s [] status m) :
    ServerInv deserialize (s.returns status s.mScanStats) := by
  obtain ⟨_, hold, hno, hstatus, hstats⟩ := hanswer
  refine ⟨fun r hr => ?_, trivial⟩
  rcases mem_cons.1 hr with rfl | hr
  · constructor
    · intro hok
      obtain ⟨x, hx⟩ := Option.ne_none_iff_exists'.1 (hstatus.1 hok)
      obtain ⟨hafter, rfl⟩ := hstats x hx
      exact ⟨m, hold ▸ mem_cons_self, hafter, hx⟩
    rintro ⟨m', hm', hafter, hvalid⟩
    rcases mem_cons.1 (hold ▸ hm') with rfl | hmem
    · exact hstatus.2 hvalid
    · exact absurd hafter (Nat.ne_of_lt (hno m' hmem hvalid))
  · exact h.results r hr

/-- **One step.** -/
theorem ServerInv.step (hop : op.Undisturbed deserialize s)
    (happly : op.apply deserialize s = some s') : ServerInv deserialize s' := by
  have hphase := h.phase
  rw [PhaseInv] at hphase
  cases op with
  | setStatus =>
    simp only [ServerStep.apply] at happly
    split at happly <;> cases happly
    exact ⟨h.results, trivial⟩
  | isConnected connected =>
    simp only [ServerStep.apply] at happly
    split at happly <;> cases happly
    split
    · exact ⟨h.results, trivial⟩
    · exact ServerInv.returns_none (s := { s with delivered := [] }) ⟨h.results, by simp_all [PhaseInv]⟩
        nofun (by simp [createOffloadStatus]) _
  | sendCommandToApp success =>
    simp only [ServerStep.apply] at happly
    split at happly <;> cases happly
    split
    · exact ⟨h.results, nofun⟩
    · exact ServerInv.returns_none (s := { s with delivered := [] }) ⟨h.results, by simp_all [PhaseInv]⟩
        nofun (by simp [createOffloadStatus]) _
  | wait =>
    simp only [ServerStep.apply] at happly
    split at happly <;> cases happly
    rename_i hp hh
    rw [hp] at hphase
    refine ⟨h.results, ?_⟩
    simp only [PhaseInv, hh]
    exact hphase
  | timeout =>
    simp only [ServerStep.apply] at happly
    split at happly <;> cases happly
    rename_i hp
    have hno : s.handler = none := Option.isNone_iff_eq_none.1 hop
    rw [hp, hno] at hphase
    exact h.returns_none hphase (by simp [createOffloadStatus]) _
  | spurious => exact hop.elim
  | readStatus =>
    simp only [ServerStep.apply] at happly
    split at happly <;> cases happly
    rename_i hp
    rw [hp] at hphase
    exact ⟨h.results, hphase⟩
  | readStats =>
    simp only [ServerStep.apply] at happly
    split at happly <;> cases happly
    rename_i hp
    rw [hp] at hphase
    obtain ⟨-, m, hm⟩ := hphase
    exact h.returns_answered hm
  | deliver m =>
    simp only [ServerStep.apply] at happly
    split at happly
    · rename_i hh
      split at happly <;> cases happly
      refine ⟨h.results, ?_⟩
      simp only [PhaseInv]
      rcases hp : s.phase with - | - | - | - | - | - | status <;> simp only [hp, ServerStep.Undisturbed] at hop hphase ⊢
      · exact forall_mem_cons.2 ⟨hop, hphase⟩
      · rw [hh] at hphase
        rw [Option.elim_some, reply_handlerOf]
        exact ⟨_, rfl, hphase, answer_handlerOf (s := s) hop⟩
    · cases happly
  | convert =>
    simp only [ServerStep.apply] at happly
    split at happly <;> cases happly
    rename_i m f todo status hh
    refine ⟨h.results, ?_⟩
    simp only [PhaseInv]
    rcases hp : s.phase with - | - | - | - | - | - | st <;> simp only [hp, hh] at hphase ⊢
    · exact hphase
    · exact hphase
    · exact absurd hphase.1 (by simp)
    · exact absurd hphase.1 (by simp)
  | notify =>
    simp only [ServerStep.apply] at happly
    split at happly <;> cases happly
    rename_i m status hh
    refine ⟨h.results, ?_⟩
    simp only [PhaseInv]
    rcases hp : s.phase with - | - | - | - | - | - | _ <;> simp only [hp, hh] at hphase ⊢
    · exact hphase
    · exact ⟨trivial, m, hphase⟩
    · exact absurd hphase.1 (by simp)
    · exact absurd hphase.1 (by simp)

theorem ServerInv.run (hops : UndisturbedRun deserialize ops s)
    (hrun : serverRun deserialize ops s = some s') : ServerInv deserialize s' := by
  induction ops generalizing s with
  | nil =>
    cases hrun
    exact h
  | cons _ _ ih =>
    obtain ⟨_, h1, hrest⟩ := Option.bind_eq_some_iff.1 hrun
    have hops1 := hops.2
    rw [h1] at hops1
    exact ih (h.step hops.1 h1) hops1 hrest

end

/-- **Every call gets its own reply** in an undisturbed run. -/
theorem scan_stats_right (hops : UndisturbedRun deserialize ops (Server.init (N := N)))
    (hrun : serverRun deserialize ops Server.init = some s) : ∀ r ∈ s.results, r.Right deserialize := by
  have hinit : PhaseInv deserialize (Server.init (N := N)) := trivial
  exact (ServerInv.run ⟨fun _ hr => absurd hr not_mem_nil, hinit⟩ hops hrun).results

/-- Steps of a call that gets its reply: a request is sent, the call waits, and a reply without records comes. -/
def answeredCall : List ServerStep :=
  [.setStatus, .isConnected true, .sendCommandToApp true, .wait, .deliver ⟨[], 1⟩, .convert, .convert, .convert,
    .convert, .convert, .convert, .convert, .notify, .readStatus, .readStats]

def noRecords (_ : List UInt8) : Option ChreScanStats := some ⟨0, 0, 0, 0, [], [], fun _ => 0⟩

theorem scan_stats_right_sample : ∃ s : Server 1, serverRun noRecords answeredCall Server.init = some s ∧
    ∀ r ∈ s.results, r.Right noRecords := by
  refine ⟨_, rfl, (scan_stats_right · (rfl : serverRun noRecords answeredCall _ = _)) ?_⟩
  iterate 4 refine And.intro trivial ?_
  refine And.intro (fun _ => rfl) ?_
  iterate 10 refine And.intro trivial ?_
  trivial

/-- A reply that is handled before the call waits is missed. -/
theorem fast_reply_missed : ¬ ∀ (N : ℕ) (deserialize : List UInt8 → Option ChreScanStats) (ops : List ServerStep)
    (s : Server N), serverRun deserialize ops Server.init = some s → ∀ r ∈ s.results, r.Right deserialize := by
  intro h
  have hmissed := h 1 noRecords [.setStatus, .isConnected true, .sendCommandToApp true, .deliver ⟨[], 1⟩, .convert,
    .convert, .convert, .convert, .convert, .convert, .convert, .notify, .wait, .timeout] _ rfl _ mem_cons_self
  have hcode := hmissed.2 ⟨⟨[], 1⟩, mem_cons_self, rfl, Option.some_ne_none _⟩
  cases hcode

end

end G4Common.WifiOffload

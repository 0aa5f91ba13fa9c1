/-
Reports of the network time (NITZ) and the one that is kept for a client to come.

A report is delivered when it comes, if there is a client.  If there is none, `RIL_onUnsolicitedResponse()` keeps a copy
of it, and `onNewCommandConnect()` delivers the copy.  There is one copy for all slots, and it does not say which slot
it is from; the time of receipt is kept in another place, for each slot that of its last report.

The calls come from several threads.  What is done under the lock of a slot is one step.  The copy is read and written
without a lock of its own: a thread that keeps a report does it after it has released the lock, and a thread that
connects a client sees the copy, delivers it and frees it in three steps.  A client that is gone is noticed by any call
to it.  Memory may run out for the copy.

Besides the variables of the program, a state has the reports so far, the deliveries so far, and with the copy and each
delivery the number of the report.
-/
import Mathlib

namespace G4Common.Ril

namespace Nitz

open Function List Option

/-! ### State -/

/-- A `RIL_UNSOL_NITZ_TIME_RECEIVED` of the vendor. -/
structure Report (S : Type*) where
  slotId : S
  data : List Char
  receivedTime : ℤ
deriving DecidableEq

/-- `s_lastNITZTimeData` -/
structure Copy where
  data : List Char
  report : ℕ
deriving DecidableEq

/-- A call of `nitzTimeReceived()` of a client. -/
structure Delivery (S : Type*) where
  slotId : S
  nitzTime : List Char
  receivedTime : ℤ
  report : ℕ
deriving DecidableEq

/-- How far a thread came. -/
inductive Stage (S : Type*)
  | idle
  /-- `RIL_onUnsolicitedResponse()` has released the lock. -/
  | indicated (ret : ℤ) (data : List Char) (report : ℕ)
  /-- `setResponseFunctions()` has released the lock. -/
  | connected (slotId : S)
  /-- `onNewCommandConnect()` has seen a copy. -/
  | resending (slotId : S)
  /-- `nitzTimeReceivedInd()` has returned 0, and the lock is held. -/
  | resent (slotId : S)
deriving DecidableEq

structure State (S T : Type*) where
  /-- `mRadioIndication` is not `NULL`. -/
  mRadioIndication : S → Bool
  nitzTimeReceived : S → ℤ
  s_lastNITZTimeData : Option Copy
  /-- The threads that hold the lock of a slot for reading. -/
  readers : S → ℕ
  thread : T → Stage S
  reports : List (Report S)
  delivered : List (Delivery S)

variable {S T : Type*} [DecidableEq S] [DecidableEq T]

def State.init : State S T where
  mRadioIndication _ := false
  nitzTimeReceived _ := 0
  s_lastNITZTimeData := none
  readers _ := 0
  thread _ := .idle
  reports := []
  delivered := []

/-! ### Steps -/

/-- `setNitzTimeReceived()`, of a report that came. -/
def setNitzTimeReceived (s : State S T) (slotId : S) (data : List Char) (timeReceived : ℤ) : State S T :=
  { s with
    nitzTimeReceived := update s.nitzTimeReceived slotId timeReceived
    reports := s.reports ++ [⟨slotId, data, timeReceived⟩] }

/-- What `nitzTimeReceivedInd()` returns. -/
def nitzRet (s : State S T) (slotId : S) : ℤ := if s.mRadioIndication slotId then 0 else -1

/-- What it delivers; `reached` says whether the client answers. -/
def nitzTimeReceivedInd (s : State S T) (slotId : S) (response : List Char) (report : ℕ) (reached : Bool) : State S T :=
  if s.mRadioIndication slotId ∧ response ≠ [] ∧ reached then
    { s with delivered := s.delivered ++ [⟨slotId, response, s.nitzTimeReceived slotId, report⟩] }
  else s

/-- The end of `RIL_onUnsolicitedResponse()`; `copied` says whether there is memory. -/
def keepNitz (s : State S T) (ret : ℤ) (data : List Char) (report : ℕ) (copied : Bool) : State S T :=
  if ret ≠ 0 then { s with s_lastNITZTimeData := if copied then some ⟨data, report⟩ else none } else s

/-- The call of `resendLastNITZTimeData()`: another thread may have freed the copy. -/
def resendCopy (s : State S T) (slotId : S) (reached : Bool) : State S T :=
  match s.s_lastNITZTimeData with
  | none => s
  | some copy => nitzTimeReceivedInd s slotId copy.data copy.report reached

def State.at (s : State S T) (t : T) (stage : Stage S) : State S T :=
  { s with thread := update s.thread t stage }

inductive Act (S T : Type*)
  | unsolicitedNitz (t : T) (slotId : S) (data : List Char) (now : ℤ) (reached : Bool)
  | keep (t : T) (copied : Bool)
  | setResponseFunctions (t : T) (slotId : S) (indication : Bool)
  | onNewCommandConnect (t : T)
  | resend (t : T) (reached : Bool)
  | free (t : T)
  /-- `checkReturnStatus()` finds that the client of a slot is gone. -/
  | reset (slotId : S)

def step (s : State S T) : Act S T → Option (State S T)
  | .unsolicitedNitz t slotId data now reached =>
    if s.thread t = .idle ∧ s.readers slotId = 0 then
      let s' := nitzTimeReceivedInd (setNitzTimeReceived s slotId data now) slotId data s.reports.length reached
      some (s'.at t (.indicated (nitzRet s slotId) data s.reports.length))
    else none
  | .keep t copied =>
    match s.thread t with
    | .indicated ret data report => some ((keepNitz s ret data report copied).at t .idle)
    | _ => none
  | .setResponseFunctions t slotId indication =>
    if s.thread t = .idle ∧ s.readers slotId = 0 then
      some ({ s with mRadioIndication := update s.mRadioIndication slotId indication }.at t (.connected slotId))
    else none
  | .onNewCommandConnect t =>
    match s.thread t with
    | .connected slotId => some (s.at t (if s.s_lastNITZTimeData ≠ none then .resending slotId else .idle))
    | _ => none
  | .resend t reached =>
    match s.thread t with
    | .resending slotId =>
      if nitzRet s slotId = 0 then
        some ({ resendCopy s slotId reached with
          readers := update s.readers slotId (s.readers slotId + 1) }.at t (.resent slotId))
      else some (s.at t .idle)
    | _ => none
  | .free t =>
    match s.thread t with
    | .resent slotId =>
      some ({ s with
        s_lastNITZTimeData := none
        readers := update s.readers slotId (s.readers slotId - 1) }.at t .idle)
    | _ => none
  | .reset slotId =>
    if s.readers slotId = 0 then some { s with mRadioIndication := update s.mRadioIndication slotId false }
    else none

/-- The states of the runs whose steps all meet `cond`. -/
inductive Run (cond : State S T → Act S T → Prop) : State S T → Prop
  | init : Run cond .init
  | step {s s' : State S T} {a : Act S T} (h : Run cond s) (hc : cond s a) (hs : step s a = some s') : Run cond s'

/-! ### What is wanted, and when -/

/-- Each delivery is of a report of the slot, with its data and its time of receipt; no report is delivered twice, and
those of a slot are delivered in the order in which they came. -/
structure State.Faithful (s : State S T) : Prop where
  own : ∀ d ∈ s.delivered, s.reports[d.report]? = some ⟨d.slotId, d.nitzTime, d.receivedTime⟩
  once : (s.delivered.map Delivery.report).Nodup
  order : s.delivered.Pairwise fun a b => a.slotId = b.slotId → a.report < b.report

/-- A report is the last one of a slot. -/
def State.Newest (s : State S T) (slotId : S) (report : ℕ) : Prop :=
  (∃ r, s.reports[report]? = some r ∧ r.slotId = slotId) ∧
    ∀ j r, report < j → s.reports[j]? = some r → r.slotId ≠ slotId

/-- What is resent is the last report of the slot, and no other thread has just resent it. -/
def Fresh (s : State S T) : Act S T → Prop
  | .resend t _ => ∀ slotId copy, s.thread t = .resending slotId → s.mRadioIndication slotId = true →
      s.s_lastNITZTimeData = some copy → s.Newest slotId copy.report ∧ ∀ t' slotId', s.thread t' ≠ .resent slotId'
  | _ => True

/-! ### Facts on the definitions -/

variable {s s' : State S T} {t : T} {slotId : S} {i : ℕ}

omit [DecidableEq S] in
@[simp] theorem at_self (s : State S T) (t : T) (stage : Stage S) : (s.at t stage).thread t = stage :=
  update_self _ _ _

omit [DecidableEq S] in
theorem at_of_ne {t' : T} (h : t' ≠ t) (s : State S T) (stage : Stage S) : (s.at t stage).thread t' = s.thread t' :=
  update_of_ne h _ _

omit [DecidableEq S] [DecidableEq T] in
theorem nitzRet_eq_zero_iff : nitzRet s slotId = 0 ↔ s.mRadioIndication slotId = true := by
  rw [nitzRet]
  split
  · rename_i h
    exact ⟨fun _ => h, fun _ => rfl⟩
  rename_i h
  constructor
  · intro h0
    cases h0
  · exact fun hc => absurd hc h

omit [DecidableEq S] [DecidableEq T] in
theorem nitzTimeReceivedInd_cases (s : State S T) (slotId : S) (response : List Char) (report : ℕ) (reached : Bool) :
    nitzTimeReceivedInd s slotId response report reached = s ∨
    (s.mRadioIndication slotId ∧ nitzTimeReceivedInd s slotId response report reached =
      { s with delivered := s.delivered ++ [⟨slotId, response, s.nitzTimeReceived slotId, report⟩] }) := by
  rw [nitzTimeReceivedInd]
  split_ifs with h
  · exact .inr ⟨h.1, rfl⟩
  · exact .inl rfl

omit [DecidableEq S] [DecidableEq T] in
theorem lt_length_of_report {r : Report S} (h : s.reports[i]? = some r) : i < s.reports.length :=
  (List.getElem?_eq_some_iff.1 h).1

/-! ### The invariant -/

/-- A copy, or what a thread is going to copy, is the text of a report. -/
def State.IsReport (s : State S T) (data : List Char) (report : ℕ) : Prop :=
  ∃ r, s.reports[report]? = some r ∧ r.data = data

/-- A thread is going to keep a report, which was not delivered. -/
def State.Failed (s : State S T) (t : T) (data : List Char) (report : ℕ) : Prop :=
  ∃ ret, s.thread t = .indicated ret data report ∧ ret ≠ 0

structure Inv (s : State S T) : Prop extends s.Faithful where
  time : ∀ i r, s.reports[i]? = some r → s.Newest r.slotId i → s.nitzTimeReceived r.slotId = r.receivedTime
  copy : ∀ copy, s.s_lastNITZTimeData = some copy → s.IsReport copy.data copy.report
  /-- A copy that was delivered is going to be freed. -/
  freed : ∀ copy, s.s_lastNITZTimeData = some copy → copy.report ∈ s.delivered.map Delivery.report →
    ∃ t slotId, s.thread t = .resent slotId
  failed : ∀ t data i, s.Failed t data i → s.IsReport data i ∧ i ∉ s.delivered.map Delivery.report
  /-- A report that failed is kept once. -/
  keeper : ∀ t data i, s.Failed t data i → (∀ copy, s.s_lastNITZTimeData = some copy → copy.report ≠ i) ∧
    ∀ t' data', s.Failed t' data' i → t' = t

omit [DecidableEq S] [DecidableEq T] in
theorem inv_init : Inv (.init : State S T) where
  own := nofun
  once := nodup_nil
  order := List.Pairwise.nil
  time := nofun
  copy := nofun
  freed := nofun
  failed := fun _ _ _ ⟨_, h, _⟩ => by cases h
  keeper := fun _ _ _ ⟨_, h, _⟩ => by cases h

namespace Inv

omit [DecidableEq S] [DecidableEq T] in
theorem delivered_lt (h : Inv s) {d : Delivery S} (hd : d ∈ s.delivered) : d.report < s.reports.length :=
  lt_length_of_report (h.own d hd)

omit [DecidableEq S] [DecidableEq T] in
theorem report_lt (h : Inv s) (hi : i ∈ s.delivered.map Delivery.report) : i < s.reports.length := by
  obtain ⟨d, hd, rfl⟩ := mem_map.1 hi
  exact h.delivered_lt hd

omit [DecidableEq S] [DecidableEq T] in
theorem copy_lt (h : Inv s) {copy : Copy} (hcopy : s.s_lastNITZTimeData = some copy) :
    copy.report < s.reports.length := by
  obtain ⟨r, hr, -⟩ := h.copy copy hcopy
  exact lt_length_of_report hr

omit [DecidableEq S] [DecidableEq T] in
theorem failed_lt (h : Inv s) {data : List Char} (hi : s.Failed t data i) : i < s.reports.length := by
  obtain ⟨r, hr, -⟩ := (h.failed t data i hi).1
  exact lt_length_of_report hr

omit [DecidableEq T] in
/-- A report comes. -/
theorem report (h : Inv s) (slotId : S) (data : List Char) (now : ℤ) : Inv (setNitzTimeReceived s slotId data now) := by
  have hold : ∀ {i : ℕ} {r : Report S}, s.reports[i]? = some r →
      (s.reports ++ [⟨slotId, data, now⟩])[i]? = some r := by
    intro i r hi
    rw [getElem?_append_left (lt_length_of_report hi)]
    exact hi
  have hnew : (s.reports ++ [⟨slotId, data, now⟩])[s.reports.length]? = some ⟨slotId, data, now⟩ :=
    getElem?_concat_length
  have hreport : ∀ {text : List Char} {i : ℕ}, s.IsReport text i →
      (setNitzTimeReceived s slotId data now).IsReport text i := by
    rintro text i ⟨r, hr, htext⟩
    exact ⟨r, hold hr, htext⟩
  refine ⟨⟨fun d hd => hold (h.own d hd), h.once, h.order⟩, ?_, fun c hc => hreport (h.copy c hc), h.freed,
    fun t text i hi => ⟨hreport (h.failed t text i hi).1, (h.failed t text i hi).2⟩, h.keeper⟩
  intro i r hi hnewest
  show update s.nitzTimeReceived slotId now r.slotId = r.receivedTime
  rcases Nat.lt_or_ge i s.reports.length with hlt | _
  · -- An older report: it is the last one of its slot, so the new one is of another slot.
    have hne : slotId ≠ r.slotId := hnewest.2 _ _ hlt hnew
    have hi' : s.reports[i]? = some r := by
      rw [← getElem?_append_left hlt]
      exact hi
    rw [update_of_ne hne.symm]
    exact h.time i r hi' ⟨⟨r, hi', rfl⟩, fun j r' hj hr' => hnewest.2 j r' hj (hold hr')⟩
  have hlast : i = s.reports.length := by
    have := lt_length_of_report hi
    have hlen : (setNitzTimeReceived s slotId data now).reports.length = s.reports.length + 1 := length_append
    omega
  subst hlast
  cases hnew.symm.trans hi
  exact update_self _ _ _

omit [DecidableEq S] in
/-- A thread goes on, to a stage in which it is not going to keep a report. -/
theorem goOn (h : Inv s) (t : T) {stage : Stage S} (hstage : ∀ ret data i, stage = .indicated ret data i → ret = 0)
    (hresent : ∀ slotId, s.thread t = .resent slotId → s.s_lastNITZTimeData = none) : Inv (s.at t stage) := by
  have hfailed : ∀ {t' : T} {data : List Char} {i : ℕ}, (s.at t stage).Failed t' data i → s.Failed t' data i := by
    rintro t' data i ⟨ret, ht', hret⟩
    by_cases htt : t' = t
    · rw [htt, at_self] at ht'
      exact absurd (hstage ret data i ht') hret
    · rw [at_of_ne htt] at ht'
      exact ⟨ret, ht', hret⟩
  refine ⟨⟨h.own, h.once, h.order⟩, h.time, h.copy, ?_, fun t' data i hi => h.failed t' data i (hfailed hi), ?_⟩
  · intro c hc hmem
    obtain ⟨t', slotId, ht'⟩ := h.freed c hc hmem
    refine ⟨t', slotId, ?_⟩
    rw [at_of_ne _ s stage]
    · exact ht'
    rintro rfl
    have hnone := hresent slotId ht'
    rw [show s.s_lastNITZTimeData = some c from hc] at hnone
    cases hnone
  · intro t' data i hi
    obtain ⟨hcopy, hone⟩ := h.keeper t' data i (hfailed hi)
    exact ⟨hcopy, fun t'' data' hi' => hone t'' data' (hfailed hi')⟩

omit [DecidableEq S] in
/-- A report that came last and was not delivered is going to be kept. -/
theorem fail (h : Inv s) {r : Report S} (hr : s.reports[i]? = some r) (hnot : i ∉ s.delivered.map Delivery.report)
    (hcopy : ∀ copy, s.s_lastNITZTimeData = some copy → copy.report ≠ i) (hother : ∀ t data, ¬ s.Failed t data i)
    (t : T) (hidle : s.thread t = .idle) (ret : ℤ) : Inv (s.at t (.indicated ret r.data i)) := by
  have hcases : ∀ {t' : T} {data : List Char} {j : ℕ}, (s.at t (.indicated ret r.data i)).Failed t' data j →
      (t' = t ∧ data = r.data ∧ j = i) ∨ (t' ≠ t ∧ s.Failed t' data j) := by
    rintro t' data j ⟨ret', ht', hret⟩
    by_cases htt : t' = t
    · rw [htt, at_self] at ht'
      cases ht'
      exact .inl ⟨htt, rfl, rfl⟩
    · rw [at_of_ne htt] at ht'
      exact .inr ⟨htt, ret', ht', hret⟩
  refine ⟨⟨h.own, h.once, h.order⟩, h.time, h.copy, ?_, ?_, ?_⟩
  · intro c hc hmem
    obtain ⟨t', slotId, ht'⟩ := h.freed c hc hmem
    refine ⟨t', slotId, ?_⟩
    rw [at_of_ne _ s _]
    · exact ht'
    · rintro rfl
      rw [hidle] at ht'
      cases ht'
  · intro t' data j hj
    rcases hcases hj with ⟨-, rfl, rfl⟩ | ⟨-, hj⟩
    · exact ⟨⟨r, hr, rfl⟩, hnot⟩
    · exact h.failed t' data j hj
  intro t' data j hfailed
  rcases hcases hfailed with ⟨rfl, rfl, rfl⟩ | ⟨-, hj⟩
  · refine ⟨hcopy, ?_⟩
    intro t'' data' hj'
    rcases hcases hj' with ⟨htt, -, -⟩ | ⟨-, hj'⟩
    · exact htt
    · exact absurd hj' (hother t'' data')
  obtain ⟨hkept, hone⟩ := h.keeper t' data j hj
  refine ⟨hkept, ?_⟩
  intro t'' data' hj'
  rcases hcases hj' with ⟨-, -, heq⟩ | ⟨-, hj'⟩
  · exact absurd (heq ▸ hj) (hother t' data)
  · exact hone t'' data' hj'

omit [DecidableEq S] [DecidableEq T] in
/-- A report is delivered that is later than those of the slot before. -/
theorem deliver (h : Inv s) {d : Delivery S} (hown : s.reports[d.report]? = some ⟨d.slotId, d.nitzTime, d.receivedTime⟩)
    (hnot : d.report ∉ s.delivered.map Delivery.report)
    (horder : ∀ a ∈ s.delivered, a.slotId = d.slotId → a.report < d.report)
    (hcopy : ∀ copy, s.s_lastNITZTimeData = some copy → copy.report = d.report → ∃ t slotId, s.thread t = .resent slotId)
    (hfailed : ∀ t data, ¬ s.Failed t data d.report) : Inv { s with delivered := s.delivered ++ [d] } := by
  have hmem : ∀ j, j ∈ (s.delivered ++ [d]).map Delivery.report ↔ j ∈ s.delivered.map Delivery.report ∨ j = d.report := by
    intro j
    rw [map_append, mem_append, map_singleton, mem_singleton]
  refine ⟨⟨?_, ?_, ?_⟩, h.time, h.copy, ?_, ?_, h.keeper⟩
  · intro a ha
    rcases mem_append.1 ha with ha | ha
    · exact h.own a ha
    · rw [mem_singleton.1 ha]
      exact hown
  · show ((s.delivered ++ [d]).map Delivery.report).Nodup
    rw [map_append, map_singleton]
    exact nodup_append.2 ⟨h.once, nodup_singleton _, fun a ha b hb hab => hnot (by
      rw [← mem_singleton.1 hb, ← hab]
      exact ha)⟩
  · refine pairwise_append.2 ⟨h.order, pairwise_singleton _ _, ?_⟩
    intro a ha b hb hslot
    rw [mem_singleton.1 hb] at hslot ⊢
    exact horder a ha hslot
  · intro c hc hj
    rcases (hmem _).1 hj with hj | hj
    · exact h.freed c hc hj
    · exact hcopy c hc hj
  intro t data j hj
  refine ⟨(h.failed t data j hj).1, ?_⟩
  intro hin
  rcases (hmem j).1 hin with hin | rfl
  · exact (h.failed t data j hj).2 hin
  · exact hfailed t data hj

/-! ### The steps -/

theorem unsolicitedNitz (h : Inv s) (hidle : s.thread t = .idle) (slotId : S) (data : List Char) (now : ℤ)
    (reached : Bool) :
    Inv ((nitzTimeReceivedInd (setNitzTimeReceived s slotId data now) slotId data s.reports.length reached).at t
      (.indicated (nitzRet s slotId) data s.reports.length)) := by
  have h1 := h.report slotId data now
  have hlast : (setNitzTimeReceived s slotId data now).reports[s.reports.length]? = some ⟨slotId, data, now⟩ :=
    getElem?_concat_length
  -- The number of the new report is larger than all numbers that are in use.
  have hnot : s.reports.length ∉ (setNitzTimeReceived s slotId data now).delivered.map Delivery.report :=
    fun hmem => Nat.lt_irrefl _ (h.report_lt hmem)
  have hcopy : ∀ copy, (setNitzTimeReceived s slotId data now).s_lastNITZTimeData = some copy →
      copy.report ≠ s.reports.length := fun copy hc => (h.copy_lt hc).ne
  have hfailed : ∀ t data', ¬ (setNitzTimeReceived s slotId data now).Failed t data' s.reports.length :=
    fun t data' hf => Nat.lt_irrefl _ (h.failed_lt (t := t) hf)
  rcases nitzTimeReceivedInd_cases (setNitzTimeReceived s slotId data now) slotId data s.reports.length reached with
    heq | ⟨hclient, heq⟩
  · rw [heq]
    exact h1.fail hlast hnot hcopy hfailed t hidle (nitzRet s slotId)
  rw [heq]
  have htime : (setNitzTimeReceived s slotId data now).nitzTimeReceived slotId = now := update_self _ _ _
  have hret : nitzRet s slotId = 0 := nitzRet_eq_zero_iff.2 hclient
  have h2 : Inv { setNitzTimeReceived s slotId data now with delivered := s.delivered ++
      [⟨slotId, data, (setNitzTimeReceived s slotId data now).nitzTimeReceived slotId, s.reports.length⟩] } := by
    apply h1.deliver _ hnot (fun a ha _ => h.delivered_lt ha) (fun c hc heq => absurd heq (hcopy c hc)) hfailed
    rw [htime]
    exact hlast
  apply h2.goOn t
  · intro _ _ i hstage
    cases hstage
    exact hret
  · intro slotId' hresent
    rw [show s.thread t = .resent slotId' from hresent] at hidle
    cases hidle

omit [DecidableEq S] in
/-- A report that failed is kept in place of the one before. -/
theorem keep (h : Inv s) {ret : ℤ} {data : List Char} (hstage : s.thread t = .indicated ret data i) (copied : Bool) :
    Inv ((keepNitz s ret data i copied).at t .idle) := by
  have hidle : ∀ (ret : ℤ) (data : List Char) (i : ℕ), (Stage.idle : Stage S) = .indicated ret data i → ret = 0 := by
    intro ret data i heq
    cases heq
  have hresent : ∀ slotId, s.thread t ≠ .resent slotId := by
    intro slotId heq
    rw [hstage] at heq
    cases heq
  rw [keepNitz]
  split
  · rename_i hret
    have hfailed : s.Failed t data i := ⟨ret, hstage, hret⟩
    cases copied with
    | false =>
      have hnone : Inv { s with s_lastNITZTimeData := none } :=
        ⟨⟨h.own, h.once, h.order⟩, h.time, nofun, nofun, h.failed,
          fun t data i hi => ⟨nofun, (h.keeper t data i hi).2⟩⟩
      exact hnone.goOn t hidle fun _ _ => rfl
    | true =>
      have hfailed' : ∀ {t' : T} {data' : List Char} {j : ℕ},
          ({ s with s_lastNITZTimeData := some ⟨data, i⟩ }.at t .idle : State S T).Failed t' data' j →
          t' ≠ t ∧ s.Failed t' data' j := by
        rintro t' data' j ⟨ret', ht', hret'⟩
        have htt : t' ≠ t := by
          rintro rfl
          rw [at_self] at ht'
          cases ht'
        rw [at_of_ne htt] at ht'
        exact ⟨htt, ret', ht', hret'⟩
      refine ⟨⟨h.own, h.once, h.order⟩, h.time, ?_, ?_, ?_, ?_⟩
      · intro c hc
        cases hc
        exact (h.failed t data i hfailed).1
      · intro c hc hmem
        cases hc
        exact absurd hmem (h.failed t data i hfailed).2
      · intro t' data' j hj
        exact h.failed t' data' j (hfailed' hj).2
      intro t' data' j hj
      obtain ⟨htt, hj'⟩ := hfailed' hj
      constructor
      · intro c hc
        cases hc
        rintro rfl
        exact htt ((h.keeper t data i hfailed).2 t' data' hj')
      · exact fun t'' data'' hj'' => (h.keeper t' data' j hj').2 t'' data'' (hfailed' hj'').2
  · exact h.goOn t hidle fun slotId heq => absurd heq (hresent slotId)

omit [DecidableEq S] [DecidableEq T] in
/-- Clients and locks are not part of the invariant. -/
theorem congr (h : Inv s) (mRadioIndication : S → Bool) (readers : S → ℕ) :
    Inv { s with mRadioIndication := mRadioIndication, readers := readers } :=
  ⟨⟨h.own, h.once, h.order⟩, h.time, h.copy, h.freed, h.failed, h.keeper⟩

omit [DecidableEq S] in
/-- The copy is delivered, if it is the last report of the slot and nobody else has delivered it. -/
theorem resendCopy (h : Inv s) (hstage : s.thread t = .resending slotId) (reached : Bool)
    (hfresh : ∀ copy, s.mRadioIndication slotId → s.s_lastNITZTimeData = some copy →
      s.Newest slotId copy.report ∧ ∀ t' slotId', s.thread t' ≠ .resent slotId') :
    Inv ((Nitz.resendCopy s slotId reached).at t (.resent slotId)) := by
  have h1 : Inv (s.at t (.resent slotId)) := by
    apply h.goOn t
    · intro ret data i heq
      cases heq
    · intro slotId' heq
      rw [hstage] at heq
      cases heq
  cases hcopy : s.s_lastNITZTimeData with
  | none =>
    rw [Nitz.resendCopy, hcopy]
    exact h1
  | some copy =>
    rw [Nitz.resendCopy, hcopy]
    dsimp only
    rcases nitzTimeReceivedInd_cases s slotId copy.data copy.report reached with heq | ⟨hclient, heq⟩
    · rw [heq]
      exact h1
    rw [heq]
    obtain ⟨⟨⟨r, hr, rfl⟩, hlast⟩, hnobody⟩ := hfresh copy hclient hcopy
    obtain ⟨_, hr', hdata⟩ := h.copy copy hcopy
    cases hr.symm.trans hr'
    have hnot : copy.report ∉ s.delivered.map Delivery.report := by
      intro hmem
      obtain ⟨t', slotId', hresent⟩ := h.freed copy hcopy hmem
      exact hnobody t' slotId' hresent
    -- The time that is kept for the slot is that of its last report.
    have htime := h.time copy.report r hr ⟨⟨r, hr, rfl⟩, hlast⟩
    apply h1.deliver _ hnot
    · intro a ha hslot
      -- An earlier delivery to the slot is of a report of the slot, so not of a later one.
      rcases Nat.lt_trichotomy a.report copy.report with hlt | heq | hgt
      · exact hlt
      · exact absurd (heq ▸ mem_map_of_mem ha) hnot
      · exact absurd hslot (hlast a.report _ hgt (h.own a ha))
    · intro c _ _
      exact ⟨t, r.slotId, at_self _ _ _⟩
    · rintro t' data ⟨ret, ht', hret⟩
      have htt : t' ≠ t := by
        rintro rfl
        rw [at_self] at ht'
        cases ht'
      rw [at_of_ne htt] at ht'
      exact (h.keeper t' data copy.report ⟨ret, ht', hret⟩).1 copy hcopy rfl
    · show s.reports[copy.report]? = some ⟨r.slotId, copy.data, s.nitzTimeReceived r.slotId⟩
      rw [htime, ← hdata]
      exact hr

end Inv

/-- **One step** keeps the invariant, if what is resent is fresh. -/
theorem inv_step (h : Inv s) {a : Act S T} (hfresh : Fresh s a) (hs : step s a = some s') : Inv s' := by
  cases a with
  | unsolicitedNitz t slotId data now reached =>
    rw [step] at hs
    split at hs
    · rename_i hidle
      cases hs
      exact h.unsolicitedNitz hidle.1 slotId data now reached
    · cases hs
  | keep t copied =>
    rw [step] at hs
    split at hs
    · rename_i ret data report hstage
      cases hs
      exact h.keep hstage copied
    · cases hs
  | setResponseFunctions t slotId indication =>
    rw [step] at hs
    split at hs
    · rename_i hidle
      cases hs
      apply (h.congr (update s.mRadioIndication slotId indication) s.readers).goOn t
      · intro ret data i heq
        cases heq
      · intro slotId' heq
        rw [show s.thread t = .resent slotId' from heq] at hidle
        cases hidle.1
    · cases hs
  | onNewCommandConnect t =>
    rw [step] at hs
    split at hs
    · rename_i slotId hstage
      cases hs
      apply h.goOn t
      · intro ret data i heq
        split at heq <;> cases heq
      · intro slotId' heq
        rw [hstage] at heq
        cases heq
    · cases hs
  | resend t reached =>
    rw [step] at hs
    split at hs
    · rename_i slotId hstage
      split at hs
      · cases hs
        have hsent := h.resendCopy hstage reached fun copy => hfresh slotId copy hstage
        exact hsent.congr _ _
      cases hs
      apply h.goOn t
      · intro ret data i heq
        cases heq
      · intro _ heq
        rw [hstage] at heq
        cases heq
    · cases hs
  | free t =>
    rw [step] at hs
    split at hs
    · rename_i slotId hstage
      cases hs
      have hfreed : Inv { s with
          s_lastNITZTimeData := none
          readers := update s.readers slotId (s.readers slotId - 1) } :=
        ⟨⟨h.own, h.once, h.order⟩, h.time, nofun, nofun, h.failed,
          fun t data i hi => ⟨nofun, (h.keeper t data i hi).2⟩⟩
      apply hfreed.goOn t
      · intro _ _ i heq
        cases heq
      · exact fun _ _ => rfl
    · cases hs
  | reset =>
    rw [step] at hs
    split at hs
    · cases hs
      exact h.congr _ s.readers
    · cases hs

theorem inv_run (h : Run Fresh s) : Inv s := by
  induction h with
  | init => exact inv_init
  | step _ hfresh hs ih => exact inv_step ih hfresh hs

theorem run_foldlM {cond : State S T → Act S T → Prop} {acts : List (Act S T)} (hcond : ∀ a ∈ acts, ∀ s, cond s a)
    (h : Run cond s) (hs : acts.foldlM step s = some s') : Run cond s' := by
  induction acts generalizing s with
  | nil =>
    cases hs
    exact h
  | cons a _ ih =>
    rw [foldlM_cons] at hs
    obtain ⟨_, hs1, hs⟩ := bind_eq_some_iff.1 hs
    exact ih (fun b hb => hcond b (mem_cons_of_mem a hb)) (h.step (hcond a mem_cons_self s) hs1) hs

/-- **The reports that clients get** are theirs, each once, in the order in which they came and with the time at which
they came, in every run in which what is resent is the last report of the slot and not just being resent. -/
theorem nitz_replay (h : Run Fresh s) : s.Faithful := (inv_run h).toFaithful

/-- A report that came without a client is kept, and a client is connected. -/
def keptReport : List (Act Bool Bool) :=
  [.unsolicitedNitz true true ['A'] 5 true, .keep true true, .setResponseFunctions false true true,
    .onNewCommandConnect false]

/-- It is resent. -/
theorem nitz_replay_kept :
    ∃ s s' : State Bool Bool, keptReport.foldlM step .init = some s ∧ step s (.resend false true) = some s' ∧
      s'.delivered = [⟨true, ['A'], 5, 0⟩] ∧ s'.Faithful := by
  have hstate : (keptReport.foldlM step .init).map (fun s => (s.s_lastNITZTimeData, s.reports,
      s.thread true, s.thread false)) =
      some (some ⟨['A'], 0⟩, [⟨true, ['A'], 5⟩], .idle, .resending true) := by
    decide
  have hend : ((keptReport.foldlM step .init).bind fun s => (step s (.resend false true)).map State.delivered) =
      some [⟨true, ['A'], 5, 0⟩] := by
    decide
  obtain ⟨s, hs, heq⟩ := map_eq_some_iff.1 hstate
  rw [hs, bind_some] at hend
  obtain ⟨s1, hresend, hdelivered⟩ := map_eq_some_iff.1 hend
  obtain ⟨hcopy, hreports, hidle, hstage⟩ : s.s_lastNITZTimeData = some ⟨['A'], 0⟩ ∧ s.reports = [⟨true, ['A'], 5⟩] ∧
      s.thread true = .idle ∧ s.thread false = .resending true := by
    rw [Prod.mk.injEq, Prod.mk.injEq, Prod.mk.injEq] at heq
    exact heq
  have hrun : Run Fresh s := by
    apply run_foldlM _ .init hs
    intro a ha s
    fin_cases ha <;> trivial
  have hfresh : Fresh s (.resend false true) := by
    intro _ _ hslot _ hc
    rw [hstage] at hslot
    cases hslot
    rw [hcopy] at hc
    cases hc
    refine ⟨⟨⟨_, by rw [hreports]; rfl, rfl⟩, ?_⟩, ?_⟩
    · intro j r hj hr
      rw [hreports, getElem?_eq_none (by rw [length_singleton]; exact hj)] at hr
      cases hr
    rintro (_ | _) _ hresent
    · rw [hstage] at hresent
      cases hresent
    · rw [hidle] at hresent
      cases hresent
  exact ⟨s, s1, hs, hresend, hdelivered, nitz_replay (hrun.step hfresh hresend)⟩

/-- A client is connected, and gets the next report before the one that was kept. -/
def lateReplay : List (Act Bool Bool) :=
  [.unsolicitedNitz true true ['A'] 5 true, .keep true true, .setResponseFunctions false true true,
    .unsolicitedNitz true true ['B'] 9 true, .keep true true, .onNewCommandConnect false, .resend false true]

/-- A report of a slot is kept, and the client of another slot is connected. -/
def otherSlot : List (Act Bool Bool) :=
  [.unsolicitedNitz true true ['A'] 5 true, .keep true true, .setResponseFunctions false false true,
    .onNewCommandConnect false, .resend false true]

/-- A client gets an older report after a newer one, with the time of the newer one; and a client gets a report of
another slot, with a time of receipt that is none. -/
theorem nitz_replay_fails :
    (lateReplay.foldlM step .init).map State.delivered = some [⟨true, ['B'], 9, 1⟩, ⟨true, ['A'], 9, 0⟩] ∧
    (otherSlot.foldlM step .init).map State.delivered = some [⟨false, ['A'], 0, 0⟩] ∧
    ¬ ∀ s : State Bool Bool, Run (fun _ _ => True) s → s.Faithful := by
  have hlate : (lateReplay.foldlM step .init).map State.delivered =
      some [⟨true, ['B'], 9, 1⟩, ⟨true, ['A'], 9, 0⟩] := by
    decide
  refine ⟨hlate, by decide, ?_⟩
  intro h
  obtain ⟨s, hs, hdelivered⟩ := map_eq_some_iff.1 hlate
  have horder := (h s (run_foldlM (fun _ _ _ => trivial) .init hs)).order
  rw [hdelivered] at horder
  have hlt := (pairwise_cons.1 horder).1 _ mem_cons_self rfl
  exact nomatch hlt

end Nitz

end G4Common.Ril

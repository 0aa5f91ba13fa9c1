/-
The event loop of `libril/ril_event.cpp`.

The loop thread goes through the phases of an iteration: it copies `readFds`, waits in `select()`, runs
`processTimeouts()` and `processReadReadies()`, and then `firePending()`, which runs the callbacks of `pending_list`
one by one.  A step is one of these, or one call of the interface (`ril_event_set()`, `ril_event_add()`,
`ril_event_del()`, `ril_timer_add()`) by a callback or by another thread, at any time between them.  `timer_list` and
`pending_list` are circular lists in memory that go through the events themselves.

An `fd_set` is a finite set of descriptors.  A link that is followed and is missing is a step that does not succeed;
so is a walk that does not end.  Besides the variables of the program, a state has the last reading of the clock, the
calls of `ril_timer_add()` so far, the call that the timers in the lists are from, and the callbacks that were run.
-/
import G4Common.Lib.Ring

namespace G4Common.Ril

open Function

def MAX_FD_EVENTS : ℕ := 8

/-! ### Times -/

/-- A `struct timeval`. -/
structure TimeVal where
  tv_sec : ℤ
  tv_usec : ℤ
deriving DecidableEq

/-- The sum of two values of a `time_t` of 32 bits.  The library is built with the integer sanitizer, which stops
the program where the sum does not fit. -/
def addTime (t u : ℤ) : Option ℤ := if -2 ^ 31 ≤ t + u ∧ t + u < 2 ^ 31 then some (t + u) else none

def timeradd (t u : TimeVal) : Option TimeVal := do
  let tv_sec ← addTime t.tv_sec u.tv_sec
  if 1000000 ≤ t.tv_usec + u.tv_usec then do
    some ⟨← addTime tv_sec 1, t.tv_usec + u.tv_usec - 1000000⟩
  else some ⟨tv_sec, t.tv_usec + u.tv_usec⟩

/-- `timercmp(t, u, <)`, which is `timercmp(u, t, >)`. -/
def TimeVal.before (t u : TimeVal) : Bool :=
  if t.tv_sec = u.tv_sec then t.tv_usec < u.tv_usec else t.tv_sec < u.tv_sec

/-- Less than a second of microseconds. -/
def TimeVal.Normalised (t : TimeVal) : Prop := 0 ≤ t.tv_usec ∧ t.tv_usec < 1000000

/-! ### State -/

/-- What a link of a list leads to. -/
inductive Ptr (E : Type*)
  | timer_list
  | pending_list
  | ev (e : E)
deriving DecidableEq

/-- The fields of a `struct ril_event` besides its links. -/
structure RilEvent where
  fd : ℤ
  index : ℤ
  persist : Bool
  timeout : TimeVal

/-- Where the loop thread is. -/
inductive Phase (E : Type*)
  | waiting
  | blocked (rfds : Finset ℤ)
  | woken (rfds : Finset ℤ) (n : ℕ)
  | timed (rfds : Finset ℤ) (n : ℕ)
  | firing (ev : Ptr E)

/-- A callback that was run, and for a timer the number of its call of `ril_timer_add()`. -/
structure Run (E : Type*) where
  event : E
  ticket : Option ℕ
  timeout : TimeVal
  time : TimeVal

structure RilState (E : Type*) where
  links : Links (Ptr E)
  event : E → RilEvent
  readFds : Finset ℤ
  nfds : ℤ
  watch_table : Fin MAX_FD_EVENTS → Option E
  phase : Phase E
  now : TimeVal
  adds : List (E × TimeVal)
  ticket : E → Option ℕ
  runs : List (Run E)

/-- What callbacks, other threads and the loop thread do. -/
inductive Act (E : Type*)
  | eventSet (e : E) (fd : ℤ) (persist : Bool)
  | eventAdd (e : E)
  | eventDel (e : E)
  | timerAdd (e : E) (tv now : TimeVal)
  | copyFds
  | select (rfds : Finset ℤ) (n : ℕ)
  | interrupted
  | processTimeouts (now : TimeVal)
  | processReadReadies
  | fire
  | iterated

variable {E : Type*} [DecidableEq E]

/-- After `ril_event_init()`. -/
def RilState.init (event : E → RilEvent) (now : TimeVal) : RilState E where
  links :=
    { next := fun p => match p with | .ev _ => none | .timer_list => some .timer_list | .pending_list => some .pending_list
      prev := fun p => match p with | .ev _ => none | .timer_list => some .timer_list | .pending_list => some .pending_list }
  event := event
  readFds := ∅
  nfds := 0
  watch_table _ := none
  phase := .waiting
  now := now
  adds := []
  ticket _ := none
  runs := []

/-- `timeout` of a node; that of the heads is `0`. -/
def timeoutOf (event : E → RilEvent) : Ptr E → TimeVal
  | .ev e => (event e).timeout
  | .timer_list => ⟨0, 0⟩
  | .pending_list => ⟨0, 0⟩

/-! ### The watch table -/

/-- A turn of the loop of `removeWatch()`. -/
def maxFd (event : E → RilEvent) (watch_table : Fin MAX_FD_EVENTS → Option E) (n : ℤ) (i : Fin MAX_FD_EVENTS) : ℤ :=
  match watch_table i with
  | none => n
  | some rev => if n < (event rev).fd then (event rev).fd else n

/-- `nfds` for what is left in the table. -/
def recalcNfds (event : E → RilEvent) (watch_table : Fin MAX_FD_EVENTS → Option E) : ℤ :=
  (List.finRange MAX_FD_EVENTS).foldl (maxFd event watch_table) 0 + 1

def removeWatch (s : RilState E) (ev : E) (index : Fin MAX_FD_EVENTS) : RilState E :=
  let watch_table := update s.watch_table index none
  let event := update s.event ev { s.event ev with index := -1 }
  { s with
    watch_table := watch_table
    event := event
    readFds := s.readFds.erase (event ev).fd
    nfds := if (event ev).fd + 1 = s.nfds then recalcNfds event watch_table else s.nfds }

def eventSet (s : RilState E) (ev : E) (fd : ℤ) (persist : Bool) : RilState E :=
  { s with
    links := (s.links.setNext (.ev ev) none).setPrev (.ev ev) none
    event := update s.event ev ⟨fd, -1, persist, ⟨0, 0⟩⟩ }

def eventAdd (s : RilState E) (ev : E) : RilState E :=
  match (List.finRange MAX_FD_EVENTS).find? fun i => (s.watch_table i).isNone with
  | none => s
  | some i =>
    { s with
      watch_table := update s.watch_table i (some ev)
      event := update s.event ev { s.event ev with index := (i : ℕ) }
      readFds := insert (s.event ev).fd s.readFds
      nfds := if s.nfds ≤ (s.event ev).fd then (s.event ev).fd + 1 else s.nfds }

def eventDel (s : RilState E) (ev : E) : RilState E :=
  if h : 0 ≤ (s.event ev).index ∧ (s.event ev).index < MAX_FD_EVENTS then
    removeWatch s ev ⟨(s.event ev).index.toNat, (Int.toNat_lt h.1).2 h.2⟩
  else s

/-! ### The lists -/

/-- The walk of `ril_timer_add()` to the first timer that is not older. -/
def sortedPlace (links : Links (Ptr E)) (event : E → RilEvent) (timeout : TimeVal) : ℕ → Ptr E → Option (Ptr E)
  | 0, _ => none
  | n + 1, list =>
    if (timeoutOf event list).before timeout ∧ list ≠ .timer_list then do
      sortedPlace links event timeout n (← links.next list)
    else some list

def timerAdd (s : RilState E) (ev : E) (tv now : TimeVal) : Option (RilState E) :=
  (timeradd now tv).bind fun timeout => do
    let first ← s.links.next .timer_list
    let event := update s.event ev { s.event ev with fd := -1, timeout := timeout }
    let list ← sortedPlace s.links event timeout (s.adds.length + 1) first
    let links ← s.links.addBefore (.ev ev) list
    some
      { s with
        links := links
        event := event
        now := now
        adds := s.adds ++ [(ev, timeout)]
        ticket := update s.ticket ev (some s.adds.length) }

/-- The loop of `processTimeouts()`. -/
def expireTimers (event : E → RilEvent) (now : TimeVal) : ℕ → Ptr E → Links (Ptr E) → Option (Links (Ptr E))
  | 0, _, _ => none
  | n + 1, tev, links =>
    if tev ≠ .timer_list ∧ (timeoutOf event tev).before now then do
      let next ← links.next tev
      let links ← links.unlink tev
      let links ← links.addBefore tev .pending_list
      expireTimers event now n next links
    else some links

/-- The loop of `processReadReadies()`. -/
def markReadies (rfds : Finset ℤ) : List (Fin MAX_FD_EVENTS) → ℕ → RilState E → Option (RilState E)
  | [], _, s => some s
  | i :: l, n, s =>
    if n = 0 then some s
    else
      match s.watch_table i with
      | none => markReadies rfds l n s
      | some rev =>
        if (s.event rev).fd ∈ rfds then do
          let links ← s.links.addBefore (.ev rev) .pending_list
          let s := { s with links := links }
          markReadies rfds l (n - 1) (if (s.event rev).persist then s else removeWatch s rev i)
        else markReadies rfds l n s

/-- A turn of `firePending()`. -/
def fire (s : RilState E) (ev : E) : Option (RilState E) := do
  let next ← s.links.next (.ev ev)
  let links ← s.links.unlink (.ev ev)
  some
    { s with
      links := links
      phase := .firing next
      ticket := update s.ticket ev none
      runs := s.runs ++ [⟨ev, s.ticket ev, (s.event ev).timeout, s.now⟩] }

/-! ### Steps -/

def step (s : RilState E) : Act E → Option (RilState E)
  | .eventSet e fd persist => some (eventSet s e fd persist)
  | .eventAdd e => some (eventAdd s e)
  | .eventDel e => some (eventDel s e)
  | .timerAdd e tv now => timerAdd s e tv now
  | .copyFds =>
    match s.phase with
    | .waiting => some { s with phase := .blocked s.readFds }
    | _ => none
  | .select rfds n =>
    match s.phase with
    | .blocked _ => some { s with phase := .woken rfds n }
    | _ => none
  | .interrupted =>
    match s.phase with
    | .blocked _ => some { s with phase := .waiting }
    | _ => none
  | .processTimeouts now =>
    match s.phase with
    | .woken rfds n => do
      let first ← s.links.next .timer_list
      let links ← expireTimers s.event now (s.adds.length + 1) first s.links
      some { s with links := links, phase := .timed rfds n, now := now }
    | _ => none
  | .processReadReadies =>
    match s.phase with
    | .timed rfds n => do
      let s ← markReadies rfds (List.finRange MAX_FD_EVENTS) n s
      let first ← s.links.next .pending_list
      some { s with phase := .firing first }
    | _ => none
  | .fire =>
    match s.phase with
    | .firing (.ev e) => fire s e
    | _ => none
  | .iterated =>
    match s.phase with
    | .firing .pending_list => some { s with phase := .waiting }
    | _ => none

/-! ### Runs -/

/-- No list goes through the event. -/
def InNoList (s : RilState E) (e : E) : Prop := s.links.next (.ev e) = none ∧ s.links.prev (.ev e) = none

def Watched (s : RilState E) (e : E) : Prop := ∃ i, s.watch_table i = some e

/-- The clock does not go back. -/
def Reads (s : RilState E) (now : TimeVal) : Prop := now.Normalised ∧ now.before s.now = false

/-- What callers take care of, and which step of the loop comes next.  The time at which a timer expires is one that
`time_t` has: where it is not, there is no step. -/
def Allowed (s : RilState E) : Act E → Prop
  | .eventSet e _ _ => InNoList s e ∧ ¬ Watched s e
  | .eventAdd e =>
    ¬ Watched s e ∧ 0 ≤ (s.event e).fd ∧ (∀ e', Watched s e' → (s.event e').fd ≠ (s.event e).fd) ∧
      ∃ i, s.watch_table i = none
  | .eventDel _ => True
  | .timerAdd e tv now =>
    InNoList s e ∧ ¬ Watched s e ∧ 0 ≤ tv.tv_sec ∧ tv.Normalised ∧ Reads s now ∧ ∃ timeout, timeradd now tv = some timeout
  | .copyFds => s.phase = .waiting
  | .select rfds n => n = rfds.card ∧ ∃ given, s.phase = .blocked given ∧ rfds ⊆ given
  | .interrupted => ∃ given, s.phase = .blocked given
  | .processTimeouts now => (∃ rfds n, s.phase = .woken rfds n) ∧ Reads s now
  | .processReadReadies => ∃ rfds n, s.phase = .timed rfds n
  | .fire => ∃ e, s.phase = .firing (.ev e)
  | .iterated => s.phase = .firing .pending_list

/-- The states that can be reached. -/
inductive Reachable : RilState E → Prop
  | init {event : E → RilEvent} {now : TimeVal} (hindex : ∀ e, (event e).index = -1) (hnow : now.Normalised) :
    Reachable (.init event now)
  | step {s s' : RilState E} {a : Act E} (h : Reachable s) (ha : Allowed s a) (hs : step s a = some s') : Reachable s'

/-- Steps within an iteration. -/
inductive Within : RilState E → RilState E → Prop
  | refl (s : RilState E) : Within s s
  | step {s s' s'' : RilState E} {a : Act E} (h : Within s s') (ha : Allowed s' a) (hne : a ≠ .iterated)
    (hs : step s' a = some s'') : Within s s''

end G4Common.Ril

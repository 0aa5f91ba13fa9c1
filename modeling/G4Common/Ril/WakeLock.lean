/-
The partial wake lock of the radio interface and its timeout.

Three things have to agree: the lock in the kernel, which does not count, `s_wakelock_count`, and the last timer that
was started.  A timer cannot be cancelled; instead its user data is set, and a callback that finds it set does nothing.
The callback runs on the event loop thread and takes the mutex only to reset the count, so it is cut here into the
steps between which other threads can run: reading the user data, resetting the count, comparing with the last timer,
and forgetting it and freeing the data.

With each timer a state keeps the number of the grab that started it; no function of the program reads that.
-/
import Mathlib

namespace G4Common.Ril

namespace WakeLock

open Function Option

/-! ### State -/

def INT_MAX : ℤ := 2147483647

/-- The value of an `int` variable. -/
def wrap (n : ℤ) : ℤ := n.bmod 4294967296

/-- The data of a timer: `userParam` is set, or a null pointer. -/
structure UserCallbackInfo where
  userParam : Bool
  grab : ℕ

/-- How far a callback came, with what it has read. -/
inductive Stage
  | reading (param : Bool)
  | applied
  | compared (isLast : Bool)
deriving DecidableEq

structure State where
  held : Bool
  s_wakelock_count : ℤ
  s_last_wake_timeout_info : Option ℕ
  /-- The data of the timers that were started, by address. -/
  infos : ℕ → Option UserCallbackInfo
  /-- The timer whose callback is running. -/
  calling : Option (ℕ × Stage)
  grabs : ℕ

def State.init : State := ⟨false, 0, none, fun _ => none, none, 0⟩

/-! ### The library -/

def acquire_wake_lock (s : State) : State := { s with held := true }

def release_wake_lock (s : State) : State := { s with held := false }

/-- The last timer is recognised as stale from now on. -/
def setLastUserParam (s : State) : Option State :=
  match s.s_last_wake_timeout_info with
  | none => some s
  | some p => do
    let info ← s.infos p
    some { s with infos := update s.infos p (some { info with userParam := true }) }

/-- A timer is started, at the address `alloc`; there is none if memory ran out. -/
def internalRequestTimedCallback (s : State) : Option ℕ → State
  | none => s
  | some p => { s with infos := update s.infos p (some ⟨false, s.grabs + 1⟩), grabs := s.grabs + 1 }

def grabPartialWakeLock (version : ℤ) (s : State) (alloc : Option ℕ) : Option State :=
  if 13 ≤ version then
    let s' := internalRequestTimedCallback (acquire_wake_lock s) alloc
    match alloc with
    | none => some (release_wake_lock s')
    | some p => do
      let s' ← setLastUserParam { s' with s_wakelock_count := wrap (s'.s_wakelock_count + 1) }
      some { s' with s_last_wake_timeout_info := some p }
  else some (acquire_wake_lock s)

def releaseWakeLock (version : ℤ) (s : State) : Option State :=
  if 13 ≤ version then
    if 1 < s.s_wakelock_count then some { s with s_wakelock_count := s.s_wakelock_count - 1 }
    else setLastUserParam (release_wake_lock { s with s_wakelock_count := 0 })
  else some (release_wake_lock s)

def wakeTimeoutCallback (version : ℤ) (s : State) (param : Bool) : Option State :=
  if 13 ≤ version then
    if param = false then some (release_wake_lock { s with s_wakelock_count := 0 }) else some s
  else if param = false then releaseWakeLock version s else some s

/-! ### Steps -/

inductive Act
  | grab (alloc : Option ℕ)
  | release
  /-- The callback of a timer starts and reads its user data. -/
  | fire (p : ℕ)
  | apply
  | compare
  | finish

/-- `userTimerCallback` is `fire`, `apply`, `compare` and `finish`. -/
def step (version : ℤ) (s : State) : Act → Option State
  | .grab alloc => grabPartialWakeLock version s alloc
  | .release => releaseWakeLock version s
  | .fire p => do
    let info ← s.infos p
    some { s with calling := some (p, .reading info.userParam) }
  | .apply =>
    match s.calling with
    | some (p, .reading param) => do
      let s' ← wakeTimeoutCallback version s param
      some { s' with calling := some (p, .applied) }
    | _ => none
  | .compare =>
    match s.calling with
    | some (p, .applied) => some { s with calling := some (p, .compared (s.s_last_wake_timeout_info = some p)) }
    | _ => none
  | .finish =>
    match s.calling with
    | some (p, .compared isLast) =>
      some
        { s with
          s_last_wake_timeout_info := if isLast then none else s.s_last_wake_timeout_info
          infos := update s.infos p none
          calling := none }
    | _ => none

/-- Memory that is given out is free, and the event loop runs one callback at a time. -/
def Allowed (s : State) : Act → Prop
  | .grab (some p) => s.infos p = none
  | .fire _ => s.calling = none
  | _ => True

/-- The states of the runs whose steps all meet `cond`. -/
inductive Run (version : ℤ) (cond : State → Act → Prop) : State → Prop
  | init : Run version cond State.init
  | step {s s' : State} {a : Act} : Run version cond s → Allowed s a → cond s a → step version s a = some s' →
    Run version cond s'

/-- What can follow a state as long as nobody grabs the lock. -/
inductive Later (version : ℤ) (s : State) : State → Prop
  | refl : Later version s s
  | step {s' s'' : State} {a : Act} : Later version s s' → Allowed s' a → (∀ alloc, a ≠ .grab alloc) →
    step version s' a = some s'' → Later version s s''

/-- The callback has read that it is not stale and has not reset the count, or it has seen that its timer is the last
one and has not forgotten it. -/
def State.Between (s : State) : Prop :=
  (∃ p, s.calling = some (p, .reading false)) ∨ ∃ p, s.calling = some (p, .compared true)

/-- Grabs do not come between the halves of a callback, do not run out of memory while the lock is held and do not
overflow the count. -/
def Orderly (s : State) : Act → Prop
  | .grab alloc => ¬ s.Between ∧ s.s_wakelock_count < INT_MAX ∧ (alloc = none → s.s_wakelock_count ≤ 0)
  | _ => True

/-- The timer at `p` will release the lock: its callback is still to come, or has just read that it is not stale. -/
def State.Due (s : State) (p : ℕ) : Prop :=
  (∃ info, s.infos p = some info ∧ info.userParam = false) ∧ ∀ st, s.calling = some (p, st) → st = .reading false

/-- There was a grab after the one that started the timer at `p`. -/
def State.Superseded (s : State) (p : ℕ) : Prop := ∃ info, s.infos p = some info ∧ info.grab < s.grabs

/-! ### Facts on the definitions -/

variable {version : ℤ} {s s' : State} {p q : ℕ}

theorem wrap_eq {n : ℤ} (h0 : 0 ≤ n) (h : n ≤ INT_MAX) : wrap n = n := by
  rw [wrap]
  apply Int.bmod_eq_of_le
  · omega
  · have hmax : INT_MAX = 2147483647 := rfl
    omega

theorem setLastUserParam_none (h : s.s_last_wake_timeout_info = none) : setLastUserParam s = some s := by
  rw [setLastUserParam, h]

theorem setLastUserParam_some (h : s.s_last_wake_timeout_info = some p) {info : UserCallbackInfo} (hp : s.infos p = some info) :
    setLastUserParam s = some { s with infos := update s.infos p (some { info with userParam := true }) } := by
  rw [setLastUserParam, h]
  simp only [hp, bind_eq_bind, bind_some]

/-! ### The invariant -/

structure Inv (s : State) : Prop where
  held : s.held = true ↔ 0 < s.s_wakelock_count
  range : 0 ≤ s.s_wakelock_count ∧ s.s_wakelock_count ≤ INT_MAX
  last : ∀ p, s.s_last_wake_timeout_info = some p → ∃ info, s.infos p = some info ∧ info.grab = s.grabs
  due : 0 < s.s_wakelock_count → ∃ p, s.s_last_wake_timeout_info = some p ∧ s.Due p
  stale : ∀ p info, s.infos p = some info → s.s_last_wake_timeout_info ≠ some p → info.userParam = true
  live : ∀ p st, s.calling = some (p, st) → s.infos p ≠ none
  reading : ∀ p, s.calling = some (p, .reading false) → s.s_last_wake_timeout_info = some p
  compared : ∀ p isLast, s.calling = some (p, .compared isLast) → (isLast = true ↔ s.s_last_wake_timeout_info = some p)

theorem inv_init : Inv State.init where
  held := by decide
  range := by decide
  last := nofun
  due := nofun
  stale := nofun
  live := nofun
  reading := nofun
  compared := nofun

namespace Inv

theorem setLastUserParam_eq (hlast : ∀ p, s.s_last_wake_timeout_info = some p → ∃ info, s.infos p = some info) :
    ∃ infos, setLastUserParam s = some { s with infos := infos }
      ∧ (∀ r, s.s_last_wake_timeout_info ≠ some r → infos r = s.infos r)
      ∧ ∀ r, s.s_last_wake_timeout_info = some r →
        ∃ info, s.infos r = some info ∧ infos r = some { info with userParam := true } := by
  obtain hl | ⟨p, hl⟩ := eq_none_or_eq_some s.s_last_wake_timeout_info
  · refine ⟨s.infos, setLastUserParam_none hl, fun _ _ => rfl, ?_⟩
    intro r hr
    rw [hl] at hr
    cases hr
  obtain ⟨info, hp⟩ := hlast p hl
  refine ⟨_, setLastUserParam_some hl hp, ?_, ?_⟩
  · intro r hr
    exact update_of_ne (fun h => hr (by rw [hl, h])) _ _
  · intro r hr
    cases hl.symm.trans hr
    exact ⟨info, hp, update_self _ _ _⟩

theorem grab_some (hinv : Inv s) (hv : 13 ≤ version) (hp : s.infos p = none) (hbetween : ¬ s.Between)
    (hmax : s.s_wakelock_count < INT_MAX) (hs : grabPartialWakeLock version s (some p) = some s') : Inv s' := by
  have hne : s.s_last_wake_timeout_info ≠ some p := by
    intro h
    obtain ⟨info, hinfo, -⟩ := hinv.last p h
    rw [hp] at hinfo
    cases hinfo
  have hcount : wrap (s.s_wakelock_count + 1) = s.s_wakelock_count + 1 := by
    have hrange := hinv.range
    apply wrap_eq <;> omega
  have hlast : ∀ r, s.s_last_wake_timeout_info = some r
      → ∃ info, update s.infos p (some ⟨false, s.grabs + 1⟩) r = some info := by
    intro r hr
    obtain ⟨info, hinfo, -⟩ := hinv.last r hr
    have hrne : r ≠ p := fun h => hne (h ▸ hr)
    exact ⟨info, by rw [update_of_ne hrne, hinfo]⟩
  obtain ⟨infos, heq, hother, hold⟩ := setLastUserParam_eq (s := State.mk true (s.s_wakelock_count + 1)
    s.s_last_wake_timeout_info (update s.infos p (some ⟨false, s.grabs + 1⟩)) s.calling (s.grabs + 1)) hlast
  have hs' : s' = ⟨true, s.s_wakelock_count + 1, some p, infos, s.calling, s.grabs + 1⟩ := by
    rw [grabPartialWakeLock, if_pos hv] at hs
    simp only [internalRequestTimedCallback, acquire_wake_lock, hcount] at hs
    rw [heq] at hs
    exact (some.inj hs).symm
  have hnew : infos p = some ⟨false, s.grabs + 1⟩ := by
    rw [hother p hne]
    exact update_self _ _ _
  have hcalling : ∀ st, s.calling ≠ some (p, st) := fun st h => hinv.live p st h hp
  subst hs'
  refine ⟨?_, ?_, ?_, ?_, ?_, ?_, ?_, ?_⟩
  · have hrange := hinv.range
    show true = true ↔ 0 < s.s_wakelock_count + 1
    exact ⟨fun _ => by omega, fun _ => rfl⟩
  · have hrange := hinv.range
    show 0 ≤ s.s_wakelock_count + 1 ∧ s.s_wakelock_count + 1 ≤ INT_MAX
    omega
  · intro r hr
    cases hr
    exact ⟨_, hnew, rfl⟩
  · intro
    exact ⟨p, rfl, ⟨_, hnew, rfl⟩, fun st h => absurd h (hcalling st)⟩
  · intro r info hr hrp
    have hrne : r ≠ p := fun h => hrp (by rw [h])
    by_cases hrl : s.s_last_wake_timeout_info = some r
    · obtain ⟨old, -, hmark⟩ := hold r hrl
      cases hr.symm.trans hmark
      rfl
    have hsame : infos r = s.infos r := by
      rw [hother r hrl]
      exact update_of_ne hrne _ _
    exact hinv.stale r info (hsame ▸ hr) hrl
  · intro r st hr
    have hrne : r ≠ p := fun h => hcalling st (h ▸ hr)
    by_cases hrl : s.s_last_wake_timeout_info = some r
    · obtain ⟨old, -, hmark⟩ := hold r hrl
      show infos r ≠ none
      rw [hmark]
      exact some_ne_none _
    have hsame : infos r = s.infos r := by
      rw [hother r hrl]
      exact update_of_ne hrne _ _
    show infos r ≠ none
    rw [hsame]
    exact hinv.live r st hr
  · intro r hr
    exact absurd (.inl ⟨r, hr⟩) hbetween
  intro r isLast hr
  have hrne : r ≠ p := fun h => hcalling _ (h ▸ hr)
  cases isLast with
  | true => exact absurd (.inr ⟨r, hr⟩) hbetween
  | false =>
    constructor
    · intro h
      cases h
    · intro h
      exact absurd (some.inj h).symm hrne

theorem grab_none (hinv : Inv s) (hv : 13 ≤ version) (hzero : s.s_wakelock_count ≤ 0)
    (hs : grabPartialWakeLock version s none = some s') : s' = s ∧ s.held = false := by
  have hheld : s.held = false := by
    rw [Bool.eq_false_iff]
    exact fun h => absurd (hinv.held.mp h) (by omega)
  rw [grabPartialWakeLock, if_pos hv] at hs
  cases hs
  refine ⟨?_, hheld⟩
  rw [release_wake_lock, internalRequestTimedCallback, acquire_wake_lock, ← hheld]

theorem release (hinv : Inv s) (hv : 13 ≤ version) (hs : releaseWakeLock version s = some s') : Inv s' := by
  have hrange := hinv.range
  rw [releaseWakeLock, if_pos hv] at hs
  split at hs
  · rename_i hone
    cases hs
    refine ⟨?_, ?_, hinv.last, ?_, hinv.stale, hinv.live, hinv.reading, hinv.compared⟩
    · show s.held = true ↔ 0 < s.s_wakelock_count - 1
      rw [hinv.held]
      omega
    · show 0 ≤ s.s_wakelock_count - 1 ∧ s.s_wakelock_count - 1 ≤ INT_MAX
      omega
    · intro
      exact hinv.due (by omega)
  have hlast : ∀ r, s.s_last_wake_timeout_info = some r → ∃ info, s.infos r = some info := by
    intro r hr
    obtain ⟨info, hinfo, -⟩ := hinv.last r hr
    exact ⟨info, hinfo⟩
  obtain ⟨infos, heq, hother, hold⟩ :=
    setLastUserParam_eq (s := release_wake_lock { s with s_wakelock_count := 0 }) hlast
  rw [heq] at hs
  cases hs
  refine ⟨?_, ?_, ?_, ?_, ?_, ?_, hinv.reading, hinv.compared⟩
  · show false = true ↔ (0 : ℤ) < 0
    simp
  · exact ⟨le_refl _, show (0 : ℤ) ≤ INT_MAX by decide⟩
  · intro r hr
    obtain ⟨info, hinfo, hgrab⟩ := hinv.last r hr
    obtain ⟨old, hold', hmark⟩ := hold r hr
    cases hinfo.symm.trans hold'
    exact ⟨_, hmark, hgrab⟩
  · intro h
    exact absurd h (lt_irrefl _)
  · intro r info hr hrl
    exact hinv.stale r info ((hother r hrl).symm.trans hr) hrl
  intro r st hr
  by_cases hrl : s.s_last_wake_timeout_info = some r
  · obtain ⟨old, -, hmark⟩ := hold r hrl
    show infos r ≠ none
    rw [hmark]
    exact some_ne_none _
  · show infos r ≠ none
    rw [hother r hrl]
    exact hinv.live r st hr

theorem fire (hinv : Inv s) (hs : step version s (.fire p) = some s') : Inv s' := by
  rw [step, bind_eq_bind, bind_eq_some_iff] at hs
  obtain ⟨info, hp, hs⟩ := hs
  cases hs
  refine ⟨hinv.held, hinv.range, hinv.last, ?_, hinv.stale, ?_, ?_, ?_⟩
  · intro hpos
    obtain ⟨q, hq, ⟨info', hinfo', hparam⟩, -⟩ := hinv.due hpos
    refine ⟨q, hq, ⟨info', hinfo', hparam⟩, ?_⟩
    intro st hst
    cases hst
    cases hp.symm.trans hinfo'
    rw [hparam]
  · intro r _ hr
    obtain ⟨rfl, -⟩ := Prod.mk.inj (some.inj hr)
    show s.infos p ≠ none
    rw [hp]
    exact some_ne_none _
  · intro r hr
    obtain ⟨rfl, hst⟩ := Prod.mk.inj (some.inj hr)
    by_contra hne
    have hparam := hinv.stale p info hp hne
    rw [hparam] at hst
    cases hst
  · intro r _ hr
    cases (Prod.mk.inj (some.inj hr)).2

theorem apply_eq (hv : 13 ≤ version) (hs : step version s .apply = some s') : ∃ p param, s.calling = some (p, .reading param)
    ∧ s' = { s with
      held := if param then s.held else false
      s_wakelock_count := if param then s.s_wakelock_count else 0
      calling := some (p, .applied) } := by
  simp only [step] at hs
  split at hs
  · rename_i p param hcalling
    refine ⟨p, param, hcalling, ?_⟩
    cases param with
    | true =>
      rw [wakeTimeoutCallback, if_pos hv, if_neg nofun] at hs
      exact (some.inj hs).symm
    | false =>
      rw [wakeTimeoutCallback, if_pos hv, if_pos rfl] at hs
      exact (some.inj hs).symm
  · cases hs

theorem apply (hinv : Inv s) (hv : 13 ≤ version) (hs : step version s .apply = some s') : Inv s' := by
  obtain ⟨p, param, hcalling, rfl⟩ := apply_eq hv hs
  have hlive : ∀ r st, some (p, Stage.applied) = some (r, st) → s.infos r ≠ none := by
    intro r st hr
    obtain ⟨rfl, -⟩ := Prod.mk.inj (some.inj hr)
    exact hinv.live p _ hcalling
  cases param with
  | true =>
    refine ⟨hinv.held, hinv.range, hinv.last, ?_, hinv.stale, hlive, ?_, ?_⟩
    · intro hpos
      obtain ⟨q, hq, hinfo, hst⟩ := hinv.due hpos
      refine ⟨q, hq, hinfo, ?_⟩
      intro _ h
      obtain ⟨rfl, -⟩ := Prod.mk.inj (some.inj h)
      cases hst _ hcalling
    · intro r hr
      cases (Prod.mk.inj (some.inj hr)).2
    · intro r isLast hr
      cases (Prod.mk.inj (some.inj hr)).2
  | false =>
    refine ⟨?_, ?_, hinv.last, ?_, hinv.stale, hlive, ?_, ?_⟩
    · show false = true ↔ (0 : ℤ) < 0
      simp
    · exact ⟨le_refl _, show (0 : ℤ) ≤ INT_MAX by decide⟩
    · intro h
      exact absurd h (lt_irrefl _)
    · intro r hr
      cases (Prod.mk.inj (some.inj hr)).2
    · intro r _ hr
      cases (Prod.mk.inj (some.inj hr)).2

theorem compare (hinv : Inv s) (hs : step version s .compare = some s') : Inv s' := by
  simp only [step] at hs
  split at hs
  · rename_i p hcalling
    cases hs
    refine ⟨hinv.held, hinv.range, hinv.last, ?_, hinv.stale, ?_, ?_, ?_⟩
    · intro hpos
      obtain ⟨q, hq, hinfo, hst⟩ := hinv.due hpos
      refine ⟨q, hq, hinfo, ?_⟩
      intro st h
      obtain ⟨rfl, -⟩ := Prod.mk.inj (some.inj h)
      cases hst _ hcalling
    · intro r _ hr
      obtain ⟨rfl, -⟩ := Prod.mk.inj (some.inj hr)
      exact hinv.live p _ hcalling
    · intro r hr
      cases (Prod.mk.inj (some.inj hr)).2
    intro r _ hr
    obtain ⟨rfl, hst⟩ := Prod.mk.inj (some.inj hr)
    obtain rfl := Stage.compared.inj hst
    exact decide_eq_true_iff
  · cases hs

theorem finish (hinv : Inv s) (hs : step version s .finish = some s') : Inv s' := by
  simp only [step] at hs
  split at hs
  · rename_i p isLast hcalling
    cases hs
    have hiff := hinv.compared p isLast hcalling
    have hlast : ∀ r, (if isLast = true then none else s.s_last_wake_timeout_info) = some r
        → s.s_last_wake_timeout_info = some r ∧ r ≠ p := by
      intro r hr
      cases isLast with
      | true => cases hr
      | false =>
        refine ⟨hr, ?_⟩
        rintro rfl
        cases hiff.mpr hr
    refine ⟨hinv.held, hinv.range, ?_, ?_, ?_, ?_, ?_, ?_⟩
    · intro r hr
      obtain ⟨hr, hne⟩ := hlast r hr
      obtain ⟨info, hinfo, hgrab⟩ := hinv.last r hr
      exact ⟨info, (update_of_ne hne _ _).trans hinfo, hgrab⟩
    · intro hpos
      obtain ⟨q, hq, ⟨info, hinfo, hparam⟩, hst⟩ := hinv.due hpos
      have hne : q ≠ p := by
        rintro rfl
        cases hst _ hcalling
      have hfalse : isLast ≠ true := fun h => hne (some.inj (hq.symm.trans (hiff.mp h)))
      refine ⟨q, ?_, ⟨info, (update_of_ne hne _ _).trans hinfo, hparam⟩, ?_⟩
      · show (if isLast = true then none else s.s_last_wake_timeout_info) = some q
        rw [if_neg hfalse, hq]
      · intro st h
        cases h
    · intro r info hr hrl
      rcases eq_or_ne r p with rfl | hne
      · cases (update_self r none s.infos).symm.trans hr
      apply hinv.stale r info ((update_of_ne hne _ _).symm.trans hr)
      intro h
      cases isLast with
      | true => exact hne (some.inj (h.symm.trans (hiff.mp rfl)))
      | false => exact hrl h
    · intro r _ h
      cases h
    · intro r h
      cases h
    · intro r _ h
      cases h
  · cases hs

theorem step (hinv : Inv s) (hv : 13 ≤ version) {a : Act} (ha : Allowed s a) (hcond : Orderly s a)
    (hs : step version s a = some s') : Inv s' := by
  cases a with
  | grab alloc =>
    obtain ⟨hbetween, hmax, hmem⟩ := hcond
    cases alloc with
    | some => exact hinv.grab_some hv ha hbetween hmax hs
    | none =>
      obtain ⟨rfl, -⟩ := hinv.grab_none hv (hmem rfl) hs
      exact hinv
  | release => exact hinv.release hv hs
  | fire => exact hinv.fire hs
  | apply => exact hinv.apply hv hs
  | compare => exact hinv.compare hs
  | finish => exact hinv.finish hs

theorem due_of_held (hinv : Inv s) (h : s.held) : ∃ p, s.s_last_wake_timeout_info = some p ∧ s.Due p :=
  hinv.due (hinv.held.mp h)

theorem param_of_superseded (hinv : Inv s) {param : Bool} (hcalling : s.calling = some (p, .reading param))
    (hsuper : s.Superseded p) : param = true := by
  cases param with
  | true => rfl
  | false =>
    obtain ⟨_, hinfo, _⟩ := hsuper
    obtain ⟨_, hinfo', _⟩ := hinv.last p (hinv.reading p hcalling)
    cases hinfo.symm.trans hinfo'
    omega

end Inv

/-! ### Runs -/

theorem Run.inv (hv : 13 ≤ version) (h : Run version Orderly s) : Inv s := by
  induction h with
  | init => exact inv_init
  | step _ ha hcond hs ih => exact ih.step hv ha hcond hs

theorem orderly_of_noGrab {a : Act} (h : ∀ alloc, a ≠ .grab alloc) : Orderly s a := by
  cases a with
  | grab alloc => exact absurd rfl (h alloc)
  | release | fire | apply | compare | finish => trivial

theorem Later.inv (hv : 13 ≤ version) (hinv : Inv s) (h : Later version s s') : Inv s' := by
  induction h with
  | refl => exact hinv
  | step _ ha hne hs ih => exact ih.step hv ha (orderly_of_noGrab hne) hs

theorem last_setLastUserParam (h : setLastUserParam s = some s') :
    s'.s_last_wake_timeout_info = s.s_last_wake_timeout_info := by
  rw [setLastUserParam] at h
  split at h
  · cases h
    rfl
  rw [bind_eq_bind, bind_eq_some_iff] at h
  obtain ⟨_, -, h⟩ := h
  cases h
  rfl

section

variable (hv : 13 ≤ version)
include hv

theorem last_step {a : Act} (hne : ∀ alloc, a ≠ .grab alloc) (hs : step version s a = some s') :
    s'.s_last_wake_timeout_info = s.s_last_wake_timeout_info ∨ s'.s_last_wake_timeout_info = none := by
  cases a with
  | grab alloc => exact absurd rfl (hne alloc)
  | release =>
    left
    rw [step, releaseWakeLock, if_pos hv] at hs
    split at hs
    · cases hs
      rfl
    · exact (last_setLastUserParam hs).trans rfl
  | fire =>
    rw [step, bind_eq_bind, bind_eq_some_iff] at hs
    obtain ⟨_, -, hs⟩ := hs
    cases hs
    exact .inl rfl
  | apply =>
    obtain ⟨p, _, -, rfl⟩ := Inv.apply_eq hv hs
    exact .inl rfl
  | compare =>
    simp only [step] at hs
    split at hs
    · cases hs
      exact .inl rfl
    · cases hs
  | finish =>
    simp only [step] at hs
    split at hs
    · rename_i p isLast _
      cases hs
      cases isLast with
      | true => exact .inr rfl
      | false => exact .inl rfl
    · cases hs

theorem Later.last (h : Later version s s') :
    s'.s_last_wake_timeout_info = s.s_last_wake_timeout_info ∨ s'.s_last_wake_timeout_info = none := by
  induction h with
  | refl => exact .inl rfl
  | step _ _ hne hs ih =>
    rcases last_step hv hne hs with heq | hnone
    · rw [heq]
      exact ih
    · exact .inr hnone

theorem Later.due (hinv : Inv s) (hp : s.s_last_wake_timeout_info = some p) (h : Later version s s')
    (hheld : s'.held) : s'.Due p := by
  obtain ⟨q, hq, hdue⟩ := (h.inv hv hinv).due_of_held hheld
  rcases h.last hv with heq | hnone
  · cases hp.symm.trans (heq.symm.trans hq)
    exact hdue
  · cases hnone.symm.trans hq

theorem exists_idle (s : State) : ∃ s', Later version s s' ∧ s'.calling = none := by
  have hcompared : ∀ s1 : State, Later version s s1 → ∀ q isLast, s1.calling = some (q, .compared isLast)
      → ∃ s', Later version s s' ∧ s'.calling = none := by
    intro s1 h q isLast hcalling
    refine ⟨_, h.step (a := .finish) trivial nofun (by simp only [step, hcalling]; rfl), rfl⟩
  have happlied : ∀ s1 : State, Later version s s1 → ∀ q, s1.calling = some (q, .applied)
      → ∃ s', Later version s s' ∧ s'.calling = none := by
    intro s1 h q hcalling
    have hstep : step version s1 .compare
        = some { s1 with calling := some (q, .compared (s1.s_last_wake_timeout_info = some q)) } := by
      simp only [step, hcalling]
    exact hcompared _ (h.step (a := .compare) trivial nofun hstep) q _ rfl
  obtain hnone | ⟨⟨q, st⟩, hcalling⟩ := eq_none_or_eq_some s.calling
  · exact ⟨s, .refl, hnone⟩
  cases st with
  | reading param =>
    have hstep : ∃ s1, step version s .apply = some s1 ∧ s1.calling = some (q, .applied) := by
      cases param <;> exact ⟨_, by simp [step, hcalling, wakeTimeoutCallback, hv]; rfl, rfl⟩
    obtain ⟨s1, hstep, hcalling1⟩ := hstep
    exact happlied s1 (Later.refl.step (a := .apply) trivial nofun hstep) q hcalling1
  | applied => exact happlied s .refl q hcalling
  | compared isLast => exact hcompared s .refl q isLast hcalling

theorem exists_released (hinv : Inv s) : ∃ s', Later version s s' ∧ s'.held = false := by
  obtain ⟨s1, h1, hidle⟩ := exists_idle hv s
  cases hheld : s1.held with
  | false => exact ⟨s1, h1, hheld⟩
  | true =>
    obtain ⟨p, -, ⟨_, hinfo, hparam⟩, -⟩ := (h1.inv hv hinv).due_of_held hheld
    have hfire : step version s1 (.fire p) = some { s1 with calling := some (p, .reading false) } := by
      rw [step, hinfo, ← hparam]
      rfl
    have happly : ∃ s', step version { s1 with calling := some (p, .reading false) } .apply = some s' ∧ s'.held = false :=
      ⟨_, by simp [step, wakeTimeoutCallback, hv]; rfl, rfl⟩
    obtain ⟨s', happly, hreleased⟩ := happly
    have h2 := h1.step (a := .fire p) hidle nofun hfire
    exact ⟨s', h2.step (a := .apply) trivial nofun happly, hreleased⟩

theorem held_grab_none (hs : step version s (.grab none) = some s') : s'.held = false := by
  rw [step, grabPartialWakeLock, if_pos hv] at hs
  cases hs
  rfl

/-- The lock, the count and the timers agree in every orderly run, and a grab without memory keeps the lock exactly
when there was nothing to keep. -/
theorem wake_lock (h : Run version Orderly s) :
    (s.held ↔ 0 < s.s_wakelock_count)
      ∧ (s.held → ∃ p, s.Due p ∧ (∀ s', Later version s s' → s'.held → s'.Due p)
        ∧ ∃ s', Later version s s' ∧ s'.held = false)
      ∧ (∀ p param s', s.calling = some (p, .reading param) → s.Superseded p → step version s .apply = some s'
        → s'.held = s.held)
      ∧ ∀ s', step version s (.grab none) = some s' → (s'.held = s.held ↔ s.s_wakelock_count ≤ 0) := by
  have hinv := h.inv hv
  refine ⟨hinv.held, ?_, ?_, ?_⟩
  · intro hheld
    obtain ⟨p, hp, hdue⟩ := hinv.due_of_held hheld
    exact ⟨p, hdue, fun s' hlater => hlater.due hv hinv hp, exists_released hv hinv⟩
  · intro p param s' hcalling hsuper hs
    obtain rfl := hinv.param_of_superseded hcalling hsuper
    obtain ⟨q, _, hcalling', rfl⟩ := Inv.apply_eq hv hs
    obtain ⟨-, hst⟩ := Prod.mk.inj (some.inj (hcalling.symm.trans hcalling'))
    obtain rfl := Stage.reading.inj hst
    rfl
  · intro _ hs
    rw [held_grab_none hv hs, eq_comm, Bool.eq_false_iff, Ne, hinv.held, not_lt]

end

/-- Two grabs and a release: the lock is held, and the second timer is due. -/
theorem wake_lock_twice : ∃ s, Run 13 Orderly s ∧ s.held ∧ s.s_wakelock_count = 1
    ∧ (s.held ↔ 0 < s.s_wakelock_count) := by
  have hidle : ∀ s : State, s.calling = none → ¬ s.Between := by
    rintro s hnone (⟨p, h⟩ | ⟨p, h⟩) <;> cases hnone.symm.trans h
  have h1 : Run 13 Orderly _ := .step (a := .grab (some 1)) .init rfl ⟨hidle _ rfl, by decide, nofun⟩ rfl
  have h2 : Run 13 Orderly _ := .step (a := .grab (some 2)) h1 rfl ⟨hidle _ rfl, by decide, nofun⟩ rfl
  have h3 : Run 13 Orderly _ := .step (a := .release) h2 trivial trivial rfl
  exact ⟨_, h3, rfl, rfl, (wake_lock (by decide) h3).1⟩

/-- A second grab runs out of memory: the lock is released with one grab outstanding.  And a grab that comes after the
callback has read its user data: the lock is released although the timer is superseded. -/
theorem wake_lock_fails : (∃ s, Run 13 (fun _ _ => True) s ∧ s.held = false ∧ s.s_wakelock_count = 1)
    ∧ ∃ s s' p, Run 13 (fun _ _ => True) s ∧ s.calling = some (p, .reading false) ∧ s.Superseded p
      ∧ step 13 s .apply = some s' ∧ s.held ∧ s'.held = false := by
  have h1 : Run 13 (fun _ _ => True) _ := .step (a := .grab (some 1)) .init rfl trivial rfl
  constructor
  · have h2 : Run 13 (fun _ _ => True) _ := .step (a := .grab none) h1 trivial trivial rfl
    exact ⟨_, h2, rfl, rfl⟩
  · have h2 : Run 13 (fun _ _ => True) _ := .step (a := .fire 1) h1 rfl trivial rfl
    have h3 : Run 13 (fun _ _ => True) _ := .step (a := .grab (some 2)) h2 rfl trivial rfl
    exact ⟨_, _, 1, h3, rfl, ⟨⟨true, 1⟩, rfl, by decide⟩, rfl, rfl, rfl⟩

end WakeLock

end G4Common.Ril

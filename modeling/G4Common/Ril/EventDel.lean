/-
Deleted events.

`ril_event_del()` takes an event out of the watch table and does nothing else: an event that waits in `timer_list`, or
that is already in `pending_list`, stays there and its callback is run.  For an event that is in neither list, no link,
no slot and no place of the loop leads to it afterwards (`Forgotten`), and this stays so, whatever is called, until it
is added again.
-/
import G4Common.Ril.EventRuns

namespace G4Common.Ril

open Function List Option

variable {E : Type*} [DecidableEq E]

/-! ### Runs after a call -/

def Adds (e : E) : Act E → Prop
  | .eventAdd e' => e' = e
  | .timerAdd e' _ _ => e' = e
  | _ => False

/-- Any calls and any steps of the loop, with the event not added. -/
inductive Continues (e : E) : RilState E → RilState E → Prop
  | refl (s : RilState E) : Continues e s s
  | step {s s' s'' : RilState E} {a : Act E} (h : Continues e s s') (hadd : ¬ Adds e a) (hs : step s' a = some s'') :
    Continues e s s''

/-- After `ril_event_del()`, the callback is not run until the event is added again. -/
def SilentAfterDel (s : RilState E) (e : E) : Prop :=
  ∀ s1 s2, step s (.eventDel e) = some s1 → Continues e s1 s2 →
    ∃ new, s2.runs = s1.runs ++ new ∧ e ∉ new.map Run.event

/-- Nothing leads to the event. -/
structure Forgotten (s : RilState E) (e : E) : Prop where
  links : s.links.Avoids (.ev e)
  table : ∀ i, s.watch_table i ≠ some e
  phase : s.phase ≠ .firing (.ev e)

/-- Nothing leads to the event but the slot that it has the index of. -/
structure OnlyWatched (s : RilState E) (e : E) : Prop where
  links : s.links.Avoids (.ev e)
  table : ∀ i : Fin MAX_FD_EVENTS, s.watch_table i = some e → (s.event e).index = (i : ℕ)
  phase : s.phase ≠ .firing (.ev e)

variable {s s' : RilState E} {ts ps : List E} {e : E}

/-! ### Events that nothing leads to -/

section Forgotten

variable {L L' : Links (Ptr E)}

omit [DecidableEq E] in
theorem ev_ne {e e' : E} (h : e' ≠ e) : Ptr.ev e' ≠ Ptr.ev e := fun heq => h (Ptr.ev.inj heq)

omit [DecidableEq E] in
theorem pending_list_ne : (Ptr.pending_list : Ptr E) ≠ .ev e := by
  intro h
  cases h

omit [DecidableEq E] in
theorem timer_list_ne : (Ptr.timer_list : Ptr E) ≠ .ev e := by
  intro h
  cases h

theorem sortedPlace_ne (hL : L.Avoids (.ev e)) (event : E → RilEvent) (timeout : TimeVal) (n : ℕ) {p list : Ptr E}
    (hp : p ≠ .ev e) (h : sortedPlace L event timeout n p = some list) : list ≠ .ev e := by
  induction n generalizing p with
  | zero => cases h
  | succ _ ih =>
    rw [sortedPlace] at h
    split at h
    · obtain ⟨_, hnext, h⟩ := bind_eq_some_iff.1 h
      apply ih _ h
      rintro rfl
      exact (hL p).1 hnext
    · cases h
      exact hp

theorem expireTimers_avoids (event : E → RilEvent) (now : TimeVal) (n : ℕ) {p : Ptr E} (hL : L.Avoids (.ev e))
    (hp : p ≠ .ev e) (h : expireTimers event now n p L = some L') : L'.Avoids (.ev e) := by
  induction n generalizing p L with
  | zero => cases h
  | succ _ ih =>
    rw [expireTimers] at h
    split at h
    · obtain ⟨_, hnext, h⟩ := bind_eq_some_iff.1 h
      obtain ⟨_, hunlink, h⟩ := bind_eq_some_iff.1 h
      obtain ⟨_, hadd, h⟩ := bind_eq_some_iff.1 h
      apply ih ((hL.unlink hunlink).addBefore hp pending_list_ne hadd) _ h
      rintro rfl
      exact (hL p).1 hnext
    · cases h
      exact hL

omit [DecidableEq E] in
theorem Forgotten.congr (h : Forgotten s e) (hlinks : s'.links.Avoids (.ev e))
    (htable : ∀ i, s'.watch_table i = s.watch_table i ∨ s'.watch_table i ≠ some e) (hphase : s'.phase ≠ .firing (.ev e)) :
    Forgotten s' e := by
  refine ⟨hlinks, ?_, hphase⟩
  intro i
  rcases htable i with heq | hne
  · rw [heq]
    exact h.table i
  · exact hne

theorem Forgotten.removeWatch (h : Forgotten s e) (e' : E) (i : Fin MAX_FD_EVENTS) : Forgotten (removeWatch s e' i) e := by
  have hlinks : (Ril.removeWatch s e' i).links.Avoids (.ev e) := h.links
  apply h.congr hlinks _ h.phase
  intro j
  by_cases hj : j = i
  · right
    rw [hj]
    show update s.watch_table i none i ≠ some e
    rw [update_self]
    exact (some_ne_none e).symm
  · left
    exact update_of_ne hj _ _

theorem markReadies_forgotten (rfds : Finset ℤ) (l : List (Fin MAX_FD_EVENTS)) (n : ℕ) (h : Forgotten s e)
    (hs : markReadies rfds l n s = some s') : Forgotten s' e ∧ s'.runs = s.runs := by
  induction l generalizing n s with
  | nil =>
    cases hs
    exact ⟨h, rfl⟩
  | cons i l ih =>
    rw [markReadies] at hs
    split at hs
    · cases hs
      exact ⟨h, rfl⟩
    split at hs
    · exact ih n h hs
    rename_i rev hrev
    split at hs
    · obtain ⟨L, hadd, hs⟩ := bind_eq_some_iff.1 hs
      have hne : rev ≠ e := by
        rintro rfl
        exact h.table i hrev
      have hL : L.Avoids (.ev e) := h.links.addBefore (ev_ne hne) pending_list_ne hadd
      have hmarked : Forgotten { s with links := L } e := ⟨hL, h.table, h.phase⟩
      dsimp only at hs
      split at hs
      · obtain ⟨h', hruns⟩ := ih (n - 1) hmarked hs
        exact ⟨h', hruns⟩
      · obtain ⟨h', hruns⟩ := ih (n - 1) (hmarked.removeWatch rev i) hs
        exact ⟨h', hruns⟩
    · exact ih n h hs

theorem forgotten_step (h : Forgotten s e) {a : Act E} (hadd : ¬ Adds e a) (hs : step s a = some s') :
    Forgotten s' e ∧ ∃ new, s'.runs = s.runs ++ new ∧ e ∉ new.map Run.event := by
  have hnone : ∀ {s' : RilState E}, Forgotten s' e → s'.runs = s.runs →
      Forgotten s' e ∧ ∃ new, s'.runs = s.runs ++ new ∧ e ∉ new.map Run.event := by
    intro _ h' hruns
    exact ⟨h', [], hruns.trans (append_nil _).symm, not_mem_nil⟩
  cases a with
  | eventSet =>
    cases hs
    have hnull : (none : Option (Ptr E)) ≠ some (.ev e) := (some_ne_none _).symm
    exact hnone ⟨(h.links.setNext _ hnull).setPrev _ hnull, h.table, h.phase⟩ rfl
  | eventAdd e' =>
    cases hs
    rw [eventAdd]
    split
    · exact hnone h rfl
    rename_i i _
    have hlinks : (WatchInv.addAt s e' i).links.Avoids (.ev e) := h.links
    apply hnone (h.congr hlinks _ h.phase) rfl
    intro j
    by_cases hj : j = i
    · right
      rw [hj]
      show update s.watch_table i (some e') i ≠ some e
      rw [update_self]
      exact fun heq => hadd (some.inj heq)
    · left
      exact update_of_ne hj _ _
  | eventDel e' =>
    cases hs
    rw [eventDel]
    split
    · exact hnone (h.removeWatch e' _) rfl
    · exact hnone h rfl
  | timerAdd e' =>
    have hne : e' ≠ e := fun heq => hadd heq
    simp only [step, timerAdd, bind_eq_bind, bind_eq_some_iff] at hs
    obtain ⟨_, -, first, hfirst, _, hlist, L, hL, hs⟩ := hs
    cases hs
    have hfirst : first ≠ .ev e := by
      rintro rfl
      exact (h.links .timer_list).1 hfirst
    have hplace := sortedPlace_ne h.links _ _ _ hfirst hlist
    exact hnone ⟨h.links.addBefore (ev_ne hne) hplace hL, h.table, h.phase⟩ rfl
  | copyFds | select | interrupted =>
    rw [step] at hs
    split at hs
    · cases hs
      exact hnone ⟨h.links, h.table, by rintro ⟨⟩⟩ rfl
    · cases hs
  | processTimeouts =>
    rw [step] at hs
    split at hs
    · obtain ⟨first, hfirst, hs⟩ := bind_eq_some_iff.1 hs
      obtain ⟨L, hL, hs⟩ := bind_eq_some_iff.1 hs
      cases hs
      have hfirst : first ≠ .ev e := by
        rintro rfl
        exact (h.links .timer_list).1 hfirst
      exact hnone ⟨expireTimers_avoids _ _ _ h.links hfirst hL, h.table, by rintro ⟨⟩⟩ rfl
    · cases hs
  | processReadReadies =>
    rw [step] at hs
    split at hs
    · obtain ⟨_, hmark, hs⟩ := bind_eq_some_iff.1 hs
      obtain ⟨_, hfirst, hs⟩ := bind_eq_some_iff.1 hs
      cases hs
      obtain ⟨h1, hruns⟩ := markReadies_forgotten _ _ _ h hmark
      refine hnone ⟨h1.links, h1.table, ?_⟩ hruns
      intro hphase
      exact (h1.links .pending_list).1 (hfirst.trans (congrArg some (Phase.firing.inj hphase)))
    · cases hs
  | fire =>
    rw [step] at hs
    split at hs
    · rename_i e' hphase
      have hne : e' ≠ e := by
        rintro rfl
        exact h.phase hphase
      obtain ⟨_, hnext, hs⟩ := bind_eq_some_iff.1 hs
      obtain ⟨L, hL, hs⟩ := bind_eq_some_iff.1 hs
      cases hs
      refine ⟨⟨h.links.unlink hL, h.table, ?_⟩, _, rfl, fun hmem => hne (mem_singleton.1 hmem).symm⟩
      intro hphase
      exact (h.links (.ev e')).1 (hnext.trans (congrArg some (Phase.firing.inj hphase)))
    · cases hs
  | iterated =>
    rw [step] at hs
    split at hs
    · cases hs
      exact hnone ⟨h.links, h.table, by rintro ⟨⟩⟩ rfl
    · cases hs

/-- **An event that nothing leads to** is not run until it is added. -/
theorem continues_forgotten (h : Forgotten s e) (hc : Continues e s s') :
    Forgotten s' e ∧ ∃ new, s'.runs = s.runs ++ new ∧ e ∉ new.map Run.event := by
  induction hc with
  | refl => exact ⟨h, [], (append_nil _).symm, not_mem_nil⟩
  | step _ hadd hs ih =>
    obtain ⟨h', new, hruns, hnew⟩ := ih
    obtain ⟨h'', new', hruns', hnew'⟩ := forgotten_step h' hadd hs
    refine ⟨h'', new ++ new', ?_, ?_⟩
    · rw [hruns', hruns, append_assoc]
    · rw [map_append, mem_append, not_or]
      exact ⟨hnew, hnew'⟩

theorem forgotten_eventDel (h : OnlyWatched s e) : Forgotten (eventDel s e) e := by
  rw [eventDel]
  split
  · rename_i hindex
    refine ⟨h.links, ?_, h.phase⟩
    intro i hi
    have htable : update s.watch_table ⟨(s.event e).index.toNat, (Int.toNat_lt hindex.1).2 hindex.2⟩ none i =
        some e := hi
    by_cases heq : i = ⟨(s.event e).index.toNat, (Int.toNat_lt hindex.1).2 hindex.2⟩
    · rw [heq, update_self] at htable
      cases htable
    rw [update_of_ne heq] at htable
    apply heq
    apply Fin.ext
    have := h.table i htable
    show (i : ℕ) = (s.event e).index.toNat
    omega
  rename_i hindex
  refine ⟨h.links, ?_, h.phase⟩
  intro i hi
  have := h.table i hi
  have hlt := i.isLt
  exact hindex (by omega)

theorem silentAfterDel (h : OnlyWatched s e) : SilentAfterDel s e := by
  intro _ _ hdel hc
  cases hdel
  exact (continues_forgotten (forgotten_eventDel h) hc).2

end Forgotten

/-! ### Events of the lists -/

omit [DecidableEq E] in
/-- Links lead to heads and to events of the lists. -/
theorem TwoLists.avoids {L : Links (Ptr E)} (h : TwoLists L ts ps) (hts : e ∉ ts) (hps : e ∉ ps) : L.Avoids (.ev e) := by
  have htimers : Ptr.ev e ∉ Ptr.timer_list :: ts.map Ptr.ev := by
    rw [mem_cons, TwoLists.mem_map_ev, not_or]
    exact ⟨timer_list_ne.symm, hts⟩
  have hpending : Ptr.ev e ∉ Ptr.pending_list :: ps.map Ptr.ev := by
    rw [mem_cons, TwoLists.mem_map_ev, not_or]
    exact ⟨pending_list_ne.symm, hps⟩
  intro p
  -- A node is in one of the rings, or it has no links.
  by_cases hpt : p ∈ Ptr.timer_list :: ts.map Ptr.ev
  · exact ⟨fun hp => htimers (h.timers.mem_of_link hpt (.inl hp)),
      fun hp => htimers (h.timers.mem_of_link hpt (.inr hp))⟩
  by_cases hpp : p ∈ Ptr.pending_list :: ps.map Ptr.ev
  · exact ⟨fun hp => hpending (h.pending.mem_of_link hpp (.inl hp)),
      fun hp => hpending (h.pending.mem_of_link hpp (.inr hp))⟩
  cases p with
  | timer_list => exact absurd mem_cons_self hpt
  | pending_list => exact absurd mem_cons_self hpp
  | ev a =>
    rw [mem_cons, TwoLists.mem_map_ev, not_or] at hpt hpp
    obtain ⟨hnext, hprev⟩ := h.free a hpt.2 hpp.2
    rw [hnext, hprev]
    exact ⟨(some_ne_none _).symm, (some_ne_none _).symm⟩

omit [DecidableEq E] in
/-- An event that is in no list is in its slot at most. -/
theorem onlyWatched (h : LoopInv s ts ps) (hlist : InNoList s e) : OnlyWatched s e := by
  obtain ⟨hts, hps⟩ := h.timer.lists.free_iff.1 hlist
  refine ⟨h.timer.lists.avoids hts hps, fun i hi => h.watch.index i e hi, ?_⟩
  intro hphase
  have hfirst := h.phase
  rw [PhaseInv, hphase] at hfirst
  obtain ⟨B, hB⟩ := hfirst
  have hmem : Ptr.ev e ∈ ps.map Ptr.ev ++ [.pending_list] := hB ▸ mem_cons_self
  rcases mem_append.1 hmem with hmem | hmem
  · exact hps (TwoLists.mem_map_ev.1 hmem)
  · exact pending_list_ne (mem_singleton.1 hmem).symm

/-! ### Events that are run -/

/-- The callback is run, and the event is not added before. -/
def RunsLater (s : RilState E) (e : E) : Prop :=
  ∃ s' new, Continues e s s' ∧ s'.runs = s.runs ++ new ∧ e ∈ new.map Run.event

theorem Continues.trans {s'' : RilState E} (h : Continues e s s') (h' : Continues e s' s'') : Continues e s s'' := by
  induction h' with
  | refl => exact h
  | step _ hadd hs ih => exact ih.step hadd hs

theorem RunsLater.of_continues {more : List (Run E)} (hc : Continues e s s') (hruns : s'.runs = s.runs ++ more)
    (h : RunsLater s' e) : RunsLater s e := by
  obtain ⟨s'', new, hc', hruns', hmem⟩ := h
  refine ⟨s'', more ++ new, hc.trans hc', ?_, ?_⟩
  · rw [hruns', hruns, append_assoc]
  · rw [map_append]
    exact mem_append_right _ hmem

theorem RunsLater.of_step {a : Act E} (hadd : ¬ Adds e a) (hs : step s a = some s') (hruns : s'.runs = s.runs)
    (h : RunsLater s' e) : RunsLater s e :=
  h.of_continues ((Continues.refl s).step hadd hs) (hruns.trans (append_nil _).symm)

theorem continues_firePending (e : E) (h : LoopInv s ts ps) {p : Ptr E} (hp : s.phase = .firing p) :
    ∃ s' new, Continues e s s' ∧ LoopInv s' ts [] ∧ s'.phase = .firing .pending_list ∧ s'.runs = s.runs ++ new ∧
      new.map Run.event = ps := by
  induction ps generalizing s p with
  | nil =>
    have hfirst := h.phase
    rw [PhaseInv, hp] at hfirst
    obtain ⟨B, hB⟩ := hfirst
    obtain rfl := (cons.inj hB).1
    exact ⟨s, [], .refl s, h, hp, (append_nil _).symm, rfl⟩
  | cons a _ ih =>
    have hfirst := h.phase
    rw [PhaseInv, hp] at hfirst
    obtain ⟨B, hB⟩ := hfirst
    obtain rfl := (cons.inj hB).1
    obtain ⟨s1, _, hs1, heq, h1, -, hruns1, -⟩ := fire_inv h hp
    obtain rfl := (cons.inj heq).2
    obtain ⟨_, hp1⟩ : ∃ p, s1.phase = .firing p := by
      rw [step, hp] at hs1
      exact phase_fire hs1
    obtain ⟨s', new, hc, h', hphase, hruns, hnew⟩ := ih h1 hp1
    have hadd : ¬ Adds e (.fire : Act E) := id
    refine ⟨s', ⟨a, s.ticket a, (s.event a).timeout, s.now⟩ :: new, ((Continues.refl s).step hadd hs1).trans hc, h',
      hphase, ?_, congrArg (cons a) hnew⟩
    rw [hruns, hruns1, append_assoc, singleton_append]

theorem runsLater_pending (h : LoopInv s ts ps) {p : Ptr E} (hp : s.phase = .firing p) (he : e ∈ ps) : RunsLater s e := by
  obtain ⟨s', new, hc, -, -, hruns, hnew⟩ := continues_firePending e h hp
  exact ⟨s', new, hc, hruns, hnew ▸ he⟩

theorem runsLater_timed (h : LoopInv s ts ps) {rfds : Finset ℤ} {n : ℕ} (hp : s.phase = .timed rfds n) (he : e ∈ ps) :
    RunsLater s e := by
  obtain ⟨_, hs1, h1, -, hruns1, -⟩ := processReadReadies_inv h hp
  obtain ⟨p, hp1⟩ := phase_processReadReadies hp hs1
  have hadd : ¬ Adds e (.processReadReadies : Act E) := id
  exact (runsLater_pending h1 hp1 (mem_append_left _ he)).of_step hadd hs1 hruns1

theorem exists_later (now timeout : TimeVal) : ∃ t : TimeVal, t.Normalised ∧ t.before now = false ∧
    timeout.before t = true := by
  have hnormal : (0 : ℤ) < 1000000 := by decide
  refine ⟨⟨max now.tv_sec timeout.tv_sec + 1, 0⟩, ⟨le_rfl, hnormal⟩, ?_, ?_⟩
  · rw [not_before_iff]
    show now.tv_sec < max now.tv_sec timeout.tv_sec + 1 ∨ _
    omega
  · rw [before_iff]
    show timeout.tv_sec < max now.tv_sec timeout.tv_sec + 1 ∨ _
    omega

section

variable (h : LoopInv s ts ps)
include h

theorem runsLater_woken {rfds : Finset ℤ} {n : ℕ} (hp : s.phase = .woken rfds n) (he : e ∈ ts) : RunsLater s e := by
  obtain ⟨now, hnormal, hclock, hdue⟩ := exists_later s.now (s.event e).timeout
  obtain ⟨_, hs1, h1, -, hruns1, -⟩ := processTimeouts_inv h ⟨⟨rfds, n, hp⟩, hnormal, hclock⟩
  have hp1 := phase_processTimeouts hp hs1
  have hadd : ¬ Adds e (.processTimeouts now : Act E) := id
  have hpending := mem_append_right ps (mem_takeWhile_due h.timer.sorted he hdue)
  exact (runsLater_timed h1 hp1 hpending).of_step hadd hs1 hruns1

theorem runsLater_blocked {given : Finset ℤ} (hp : s.phase = .blocked given) (he : e ∈ ts) : RunsLater s e := by
  have hempty : ps = [] := by
    have hphase := h.phase
    rw [PhaseInv, hp] at hphase
    exact hphase
  have hs : step s (.select ∅ 0) = some { s with phase := .woken ∅ 0 } := by rw [step, hp]
  obtain ⟨h1, -⟩ := loopInv_phase h (.woken ∅ 0) ⟨hempty, rfl⟩
  have hadd : ¬ Adds e (.select ∅ 0 : Act E) := id
  exact (runsLater_woken h1 rfl he).of_step hadd hs rfl

theorem runsLater_waiting (hp : s.phase = .waiting) (he : e ∈ ts) : RunsLater s e := by
  have hempty : ps = [] := by
    have hphase := h.phase
    rw [PhaseInv, hp] at hphase
    exact hphase
  have hs : step s .copyFds = some { s with phase := .blocked s.readFds } := by rw [step, hp]
  obtain ⟨h1, -⟩ := loopInv_phase h (.blocked s.readFds) hempty
  have hadd : ¬ Adds e (.copyFds : Act E) := id
  exact (runsLater_blocked h1 rfl he).of_step hadd hs rfl

theorem runsLater_firing {p : Ptr E} (hp : s.phase = .firing p) (he : e ∈ ts) : RunsLater s e := by
  obtain ⟨s1, _, hc, h1, hp1, hruns1, -⟩ := continues_firePending e h hp
  have hs : step s1 .iterated = some { s1 with phase := .waiting } := by rw [step, hp1]
  obtain ⟨h2, -⟩ := loopInv_phase h1 .waiting rfl
  have hadd : ¬ Adds e (.iterated : Act E) := id
  exact ((runsLater_waiting h2 rfl he).of_step hadd hs rfl).of_continues hc hruns1

/-- **An event of a list** is run, although it may be deleted. -/
theorem runsLater (he : e ∈ ts ∨ e ∈ ps) : RunsLater s e := by
  have hphase := h.phase
  rw [PhaseInv] at hphase
  cases hp : s.phase with
  | waiting =>
    rw [hp] at hphase
    rw [show ps = [] from hphase] at he
    exact runsLater_waiting h hp (he.resolve_right not_mem_nil)
  | blocked =>
    rw [hp] at hphase
    rw [show ps = [] from hphase] at he
    exact runsLater_blocked h hp (he.resolve_right not_mem_nil)
  | woken =>
    rw [hp] at hphase
    rw [hphase.1] at he
    exact runsLater_woken h hp (he.resolve_right not_mem_nil)
  | timed =>
    rcases he with he | he
    · obtain ⟨_, hs1, h1, -, hruns1, -⟩ := processReadReadies_inv h hp
      obtain ⟨p, hp1⟩ := phase_processReadReadies hp hs1
      have hadd : ¬ Adds e (.processReadReadies : Act E) := id
      exact (runsLater_firing h1 hp1 he).of_step hadd hs1 hruns1
    · exact runsLater_timed h hp he
  | firing =>
    rcases he with he | he
    · exact runsLater_firing h hp he
    · exact runsLater_pending h hp he

theorem loopInv_eventDel (e : E) : LoopInv (eventDel s e) ts ps :=
  (loopInv_tableOnly h (h.watch.eventDel e).1 (WatchInv.tableOnly_eventDel s e)).1

theorem not_silentAfterDel (he : e ∈ ts ∨ e ∈ ps) : ¬ SilentAfterDel s e := by
  intro hsilent
  obtain ⟨s', _, hc, hruns, hmem⟩ := runsLater (loopInv_eventDel h e) he
  obtain ⟨_, hruns', hnot⟩ := hsilent _ s' rfl hc
  rw [hruns] at hruns'
  rw [append_cancel_left hruns'] at hmem
  exact hnot hmem

end

/-- **A deleted event** is not run until it is added again, after any calls and steps, when nothing led to it but the
slot that it has the index of.  In the states that the loop and careful callers reach, this is so exactly when it is in
neither list. -/
theorem ril_event_del_silent (e : E) :
    (∀ s : RilState E, OnlyWatched s e → SilentAfterDel s e) ∧
      ∀ s : RilState E, Reachable s → (SilentAfterDel s e ↔ InNoList s e) := by
  refine ⟨fun s h => silentAfterDel h, ?_⟩
  intro s hreach
  obtain ⟨_, _, hinv⟩ := loopInv_reachable hreach
  constructor
  · intro hsilent
    apply hinv.timer.lists.free_iff.2
    constructor
    · exact fun he => not_silentAfterDel hinv (.inl he) hsilent
    · exact fun he => not_silentAfterDel hinv (.inr he) hsilent
  · exact fun hlist => silentAfterDel (onlyWatched hinv hlist)

/-- An event with a descriptor is deleted and not run any more. -/
theorem ril_event_del_silent_watched : Watched (eventAdd (freshEvents fun e => e) 7) 7 ∧
    SilentAfterDel (eventAdd (freshEvents fun e => e) 7) 7 := by
  have hreach := reachable_freshEvents fun e => e
  have ha : Allowed (freshEvents fun e => e) (.eventAdd 7) :=
    ⟨(fun ⟨_, hi⟩ => by cases hi), by decide, (fun _ ⟨_, hi⟩ => by cases hi), ⟨0, by decide⟩, rfl⟩
  exact ⟨⟨⟨0, by decide⟩, rfl⟩, ((ril_event_del_silent 7).2 _ (hreach.step ha rfl)).2 ⟨rfl, rfl⟩⟩

/-- A timer is deleted and run. -/
theorem ril_event_del_fails : ¬ ∀ (s : RilState ℕ) (e : ℕ), Reachable s → SilentAfterDel s e := by
  intro h
  have hreach := reachable_freshEvents fun _ => -1
  have ha : Allowed (freshEvents fun _ => -1) (.timerAdd 3 ⟨1, 0⟩ ⟨5, 999999⟩) :=
    ⟨⟨rfl, rfl⟩, (fun ⟨_, hi⟩ => by cases hi), by decide, ⟨by decide, by decide⟩,
      ⟨⟨by decide, by decide⟩, rfl⟩, _, rfl⟩
  obtain ⟨_, ps, hinv⟩ := loopInv_reachable hreach
  obtain ⟨s, ts', hs, hinv', -⟩ := timerAdd_inv hinv ha
  have hnext : s.links.next (.ev 3) = some .timer_list := by
    have hstate := hs
    cases hstate
    rfl
  have hlist : 3 ∈ ts' ∨ 3 ∈ ps := by
    by_contra hnot
    obtain ⟨hts, hps⟩ := not_or.1 hnot
    rw [(hinv'.timer.lists.free 3 hts hps).1] at hnext
    cases hnext
  exact not_silentAfterDel hinv' hlist (h s 3 (hreach.step ha hs))

end G4Common.Ril

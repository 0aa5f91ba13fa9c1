/-
What holds in every run of the event loop: the order and the number of the timer callbacks, and the watch table.
-/
import G4Common.Ril.EventInv

namespace G4Common.Ril

open List Option

variable {E : Type*} [DecidableEq E] {s s' : RilState E} {ts ps : List E} {e : E}
variable {rfds : Finset ℤ} {s1 s2 s3 : RilState E}

/-! ### Steps within an iteration -/

theorem phase_timerAdd {tv now : TimeVal} (h : timerAdd s e tv now = some s') : s'.phase = s.phase := by
  simp only [timerAdd, bind_eq_bind, bind_eq_some_iff] at h
  obtain ⟨_, -, _, -, _, -, _, -, h⟩ := h
  cases h
  rfl

theorem adds_timerAdd {tv now : TimeVal} (h : timerAdd s e tv now = some s') :
    ∃ timeout, timeradd now tv = some timeout ∧ s'.adds = s.adds ++ [(e, timeout)] := by
  simp only [timerAdd, bind_eq_bind, bind_eq_some_iff] at h
  obtain ⟨timeout, htimeout, _, -, _, -, _, -, h⟩ := h
  cases h
  exact ⟨timeout, htimeout, rfl⟩

theorem phase_fire (h : fire s e = some s') : ∃ p, s'.phase = .firing p := by
  simp only [fire, bind_eq_bind, bind_eq_some_iff] at h
  obtain ⟨p, -, _, -, h⟩ := h
  cases h
  exact ⟨p, rfl⟩

theorem phase_processReadReadies {n : ℕ} (hp : s.phase = .timed rfds n)
    (h : step s .processReadReadies = some s') : ∃ p, s'.phase = .firing p := by
  simp only [step, hp, bind_eq_bind, bind_eq_some_iff] at h
  obtain ⟨_, -, p, -, h⟩ := h
  cases h
  exact ⟨p, rfl⟩

theorem phase_processTimeouts {n : ℕ} {now : TimeVal} (hp : s.phase = .woken rfds n)
    (h : step s (.processTimeouts now) = some s') : s'.phase = .timed rfds n := by
  simp only [step, hp, bind_eq_bind, bind_eq_some_iff] at h
  obtain ⟨_, -, _, -, h⟩ := h
  cases h
  rfl

theorem phase_eventDel (s : RilState E) (e : E) : (eventDel s e).phase = s.phase := by
  rw [eventDel]
  split <;> rfl

theorem phase_step_firing (ts : List E) {p : Ptr E} (hp : s.phase = .firing p) {a : Act E} (ha : Allowed s a) (hne : a ≠ .iterated)
    (hs : step s a = some s') : (∃ p', s'.phase = .firing p') ∧ newPending s ts a = [] := by
  cases a with
  | eventSet =>
    cases hs
    exact ⟨⟨p, hp⟩, rfl⟩
  | eventAdd =>
    cases hs
    obtain ⟨i, -, heq⟩ := WatchInv.eventAdd_eq ha
    rw [heq]
    exact ⟨⟨p, hp⟩, rfl⟩
  | eventDel e =>
    cases hs
    exact ⟨⟨p, (phase_eventDel s e).trans hp⟩, rfl⟩
  | timerAdd => exact ⟨⟨p, (phase_timerAdd hs).trans hp⟩, rfl⟩
  | copyFds => exact absurd (hp.symm.trans ha) nofun
  | select =>
    obtain ⟨-, given, hphase, -⟩ := ha
    exact absurd (hp.symm.trans hphase) nofun
  | interrupted =>
    obtain ⟨_, hphase⟩ := ha
    exact absurd (hp.symm.trans hphase) nofun
  | processTimeouts =>
    obtain ⟨⟨rfds, n, hphase⟩, -⟩ := ha
    exact absurd (hp.symm.trans hphase) nofun
  | processReadReadies =>
    obtain ⟨_, n, hphase⟩ := ha
    exact absurd (hp.symm.trans hphase) nofun
  | fire =>
    obtain ⟨e, hphase⟩ := ha
    rw [step, hphase] at hs
    exact ⟨phase_fire hs, rfl⟩
  | iterated => exact absurd rfl hne

omit [DecidableEq E] in
theorem LoopInv.pending_eq_nil (h : LoopInv s ts ps) (hp : s.phase = .firing .pending_list) : ps = [] := by
  have hfirst := h.phase
  rw [PhaseInv, hp] at hfirst
  obtain ⟨B, hB⟩ := hfirst
  cases ps with
  | nil => rfl
  | cons =>
    have := (cons.inj hB).1
    cases this

theorem Within.trans {s'' : RilState E} (h : Within s s') (h' : Within s' s'') : Within s s'' := by
  induction h' with
  | refl => exact h
  | step _ ha hne hs ih => exact .step ih ha hne hs

theorem within_firing (h : LoopInv s ts ps) {p : Ptr E} (hp : s.phase = .firing p) (hw : Within s s') :
    ∃ ts' ps', LoopInv s' ts' ps' ∧ (∃ p', s'.phase = .firing p') ∧ book s' ps' = book s ps ∧ s.runs <+: s'.runs := by
  induction hw with
  | refl => exact ⟨ts, ps, h, ⟨p, hp⟩, rfl, prefix_rfl⟩
  | step _ ha hne hs ih =>
    obtain ⟨ts', _, h', ⟨_, hp'⟩, hbook, hruns⟩ := ih
    obtain ⟨hphase, hnew⟩ := phase_step_firing ts' hp' ha hne hs
    obtain ⟨_, ts'', ps'', hs'', h'', hbook'', hruns''⟩ := loopInv_step h' ha
    cases hs.symm.trans hs''
    rw [hnew, map_nil, append_nil] at hbook''
    exact ⟨ts'', ps'', h'', hphase, hbook''.trans hbook, hruns.trans hruns''⟩

theorem busy_step (h : LoopInv s ts ps) (hp : (∃ p, s.phase = .firing p) ∨ ∃ rfds n, s.phase = .timed rfds n) {a : Act E}
    (ha : Allowed s a) (hne : a ≠ .iterated) (hs : step s a = some s') :
    ((∃ p, s'.phase = .firing p) ∨ ∃ rfds n, s'.phase = .timed rfds n) ∧ ∀ e ∈ newPending s ts a, s.ticket e = none := by
  rcases hp with ⟨p, hp⟩ | ⟨rfds, n, hp⟩
  · obtain ⟨hphase, hnew⟩ := phase_step_firing ts hp ha hne hs
    rw [hnew]
    exact ⟨Or.inl hphase, (by rintro _ ⟨⟩)⟩
  have hnil : ∀ e ∈ ([] : List E), s.ticket e = none := (by rintro _ ⟨⟩)
  cases a with
  | eventSet =>
    cases hs
    exact ⟨Or.inr ⟨rfds, n, hp⟩, hnil⟩
  | eventAdd =>
    cases hs
    obtain ⟨i, -, heq⟩ := WatchInv.eventAdd_eq ha
    rw [heq]
    exact ⟨Or.inr ⟨rfds, n, hp⟩, hnil⟩
  | eventDel e =>
    cases hs
    exact ⟨Or.inr ⟨rfds, n, (phase_eventDel s e).trans hp⟩, hnil⟩
  | timerAdd => exact ⟨Or.inr ⟨rfds, n, (phase_timerAdd hs).trans hp⟩, hnil⟩
  | copyFds => exact absurd (hp.symm.trans ha) (by rintro ⟨⟩)
  | select =>
    obtain ⟨-, given, hphase, -⟩ := ha
    exact absurd (hp.symm.trans hphase) (by rintro ⟨⟩)
  | interrupted =>
    obtain ⟨_, hphase⟩ := ha
    exact absurd (hp.symm.trans hphase) (by rintro ⟨⟩)
  | processTimeouts =>
    obtain ⟨⟨_, _, hphase⟩, -⟩ := ha
    exact absurd (hp.symm.trans hphase) (by rintro ⟨⟩)
  | processReadReadies =>
    refine ⟨Or.inl (phase_processReadReadies hp hs), ?_⟩
    intro e he
    rw [newPending, hp] at he
    cases hticket : s.ticket e with
    | none => rfl
    | some => exact absurd (mem_readies.1 he).1 (h.not_watched hticket)
  | fire =>
    obtain ⟨e, hphase⟩ := ha
    exact absurd (hp.symm.trans hphase) (by rintro ⟨⟩)
  | iterated => exact absurd rfl hne

theorem within_timed (h : LoopInv s ts ps) {n : ℕ} (hp : s.phase = .timed rfds n) (hw : Within s s') :
    ∃ ts' ps' extra, LoopInv s' ts' ps' ∧ ((∃ p, s'.phase = .firing p) ∨ ∃ rfds n, s'.phase = .timed rfds n) ∧
      book s' ps' = book s ps ++ extra ∧ (∀ x ∈ extra, x.2.1 = none) ∧ s.runs <+: s'.runs := by
  induction hw with
  | refl =>
    exact ⟨ts, ps, [], h, Or.inr ⟨rfds, n, hp⟩, (append_nil _).symm, nofun,
      prefix_rfl⟩
  | step _ ha hne hs ih =>
    obtain ⟨_, _, _, h', hbusy, hbook, hextra, hruns⟩ := ih
    obtain ⟨_, ts'', ps'', hs'', h'', hbook'', hruns''⟩ := loopInv_step h' ha
    cases hs.symm.trans hs''
    obtain ⟨hphase, hnew⟩ := busy_step h' hbusy ha hne hs
    rw [hbook, append_assoc] at hbook''
    refine ⟨ts'', ps'', _, h'', hphase, hbook'', ?_, hruns.trans hruns''⟩
    · intro x hx
      rcases mem_append.1 hx with hx | hx
      · exact hextra x hx
      · obtain ⟨e, he, rfl⟩ := mem_map.1 hx
        exact hnew e he

/-! ### Timers -/

theorem iteration_timers (h : LoopInv s ts ps) {now : TimeVal}
    (ha : Allowed s (.processTimeouts now)) (hs1 : step s (.processTimeouts now) = some s1) (hw : Within s1 s2)
    (hend : Allowed s2 .iterated) (hs3 : step s2 .iterated = some s3) :
    ∃ new extra, s3.runs = s.runs ++ new ∧
      new.map Run.entry = (ts.takeWhile (due s.event now)).map (entry s) ++ extra ∧ ∀ x ∈ extra, x.2.1 = none := by
  obtain ⟨_, hs1', h1, hbook1, hruns1, -⟩ := processTimeouts_inv h ha
  cases hs1.symm.trans hs1'
  obtain ⟨⟨_, n, hphase⟩, -⟩ := ha
  have hphase1 := phase_processTimeouts hphase hs1
  obtain ⟨_, _, extra, h2, -, hbook2, hextra, hruns2⟩ := within_timed h1 hphase1 hw
  have hphase2 : s2.phase = .firing .pending_list := hend
  have hps2 := h2.pending_eq_nil hphase2
  have hps : ps = [] := by
    have := h.phase
    rw [PhaseInv, hphase] at this
    exact this.1
  have hruns3 : s3.runs = s2.runs := by
    rw [step, hphase2] at hs3
    cases hs3
    rfl
  rw [hruns1] at hruns2
  obtain ⟨new, hnew⟩ := hruns2
  refine ⟨new, extra, hruns3.trans hnew.symm, ?_, hextra⟩
  rw [hbook1, hps, hps2, book, book, map_nil, append_nil, map_nil, append_nil, ← hnew,
    map_append, append_assoc] at hbook2
  exact append_cancel_left hbook2

omit [DecidableEq E] in
/-- In a sorted list, all timers that have expired are in front. -/
theorem mem_takeWhile_due {event : E → RilEvent} {now : TimeVal}
    (hs : ts.Pairwise fun a b => (event b).timeout.before (event a).timeout = false) (he : e ∈ ts)
    (hdue : (event e).timeout.before now) : e ∈ ts.takeWhile (due event now) := by
  induction ts with
  | nil => exact nomatch he
  | cons a ts ih =>
    obtain ⟨ha, hs⟩ := pairwise_cons.1 hs
    have hadue : due event now a = true := by
      rcases mem_cons.1 he with rfl | he
      · exact hdue
      have hle := ha e he
      rw [due, before_iff]
      rw [before_iff] at hdue
      rw [not_before_iff] at hle
      omega
    rw [takeWhile_cons_of_pos hadue]
    rcases mem_cons.1 he with rfl | he
    · exact mem_cons_self
    · exact mem_cons_of_mem a (ih hs he)

theorem exists_iterated (h : LoopInv s ts ps) {p : Ptr E} (hp : s.phase = .firing p) :
    ∃ s', Within s s' ∧ s'.phase = .firing .pending_list := by
  induction ps generalizing s p with
  | nil =>
    have hfirst := h.phase
    rw [PhaseInv, hp] at hfirst
    obtain ⟨B, hB⟩ := hfirst
    obtain rfl := (cons.inj hB).1
    exact ⟨s, .refl s, hp⟩
  | cons e _ ih =>
    have hfirst := h.phase
    rw [PhaseInv, hp] at hfirst
    obtain ⟨B, hB⟩ := hfirst
    obtain rfl := (cons.inj hB).1
    obtain ⟨s1, _, hs1, heq, h1, -⟩ := fire_inv h hp
    obtain rfl := (cons.inj heq).2
    have hphase1 : ∃ p, s1.phase = .firing p := by
      have hfire := hs1
      rw [step, hp] at hfire
      exact phase_fire hfire
    obtain ⟨p, hp1⟩ := hphase1
    obtain ⟨s', hw, hs'⟩ := ih h1 hp1
    have hallowed : Allowed s .fire := ⟨e, hp⟩
    have hfirst : Within s s1 := .step (.refl s) hallowed (by rintro ⟨⟩) hs1
    exact ⟨s', hfirst.trans hw, hs'⟩

/-- `timer_list` is sorted.  The timer of each call of `ril_timer_add()` is in one of the lists until its callback is
run, once and after its timeout.  An iteration runs the timers that have expired, in the order of their timeouts. -/
theorem ril_timers (h : Reachable s) :
    (∀ a, Allowed s a → ∃ s', step s a = some s') ∧
    (∀ p, s.phase = .firing p → ∃ s', Within s s' ∧ s'.phase = .firing .pending_list) ∧
    (∀ e tv now s', step s (.timerAdd e tv now) = some s' →
      ∃ timeout, timeradd now tv = some timeout ∧ s'.adds = s.adds ++ [(e, timeout)]) ∧
    (s.runs.filterMap Run.ticket).Nodup ∧
    (∀ r ∈ s.runs, ∀ i, r.ticket = some i →
      s.adds[i]? = some (r.event, r.timeout) ∧ r.timeout.before r.time) ∧
    ∃ ts ps : List E, IsRing s.links .timer_list (ts.map .ev) ∧ IsRing s.links .pending_list (ps.map .ev) ∧
      (∀ i e timeout, s.adds[i]? = some (e, timeout) →
        (e ∈ ts ∨ e ∈ ps) ∧ s.ticket e = some i ∧ (s.event e).timeout = timeout ∨ ∃ r ∈ s.runs, r.ticket = some i) ∧
      (ts.Pairwise fun a b => (s.event b).timeout.before (s.event a).timeout = false) ∧
      (∀ e ∈ ts, (s.event e).timeout.Normalised ∧
        ∃ i, s.ticket e = some i ∧ s.adds[i]? = some (e, (s.event e).timeout)) ∧
      ∀ now s1 s2 s3, Allowed s (.processTimeouts now) → step s (.processTimeouts now) = some s1 → Within s1 s2 →
        Allowed s2 .iterated → step s2 .iterated = some s3 →
        ∃ new, s3.runs = s.runs ++ new ∧
          (∀ e ∈ ts, (s.event e).timeout.before now → ∃ r ∈ new, r.event = e ∧ r.ticket = s.ticket e) ∧
          (new.filter fun r => r.ticket.isSome).Pairwise fun r r' => r'.timeout.before r.timeout = false := by
  obtain ⟨ts, ps, hinv⟩ := loopInv_reachable h
  refine ⟨?_, fun p hp => exists_iterated hinv hp, fun _ _ _ _ hs => adds_timerAdd hs, hinv.timer.ranOnce, hinv.timer.ran,
    ts, ps, hinv.timer.lists.timers, hinv.timer.lists.pending, ?_, hinv.timer.sorted, ?_, ?_⟩
  · intro a ha
    obtain ⟨s', -, -, hs, -⟩ := loopInv_step hinv ha
    exact ⟨s', hs⟩
  · intro i e timeout hi
    rcases hinv.timer.added i e timeout hi with hticket | hran
    · obtain ⟨hadds, hin, -⟩ := hinv.timer.ticket e i hticket
      exact .inl ⟨hin, hticket, congrArg Prod.snd (some.inj (hadds.symm.trans hi))⟩
    · exact .inr (mem_filterMap.1 hran)
  · intro e he
    obtain ⟨i, hi⟩ := hinv.timer.ticketed e he
    exact ⟨hinv.timer.normal e he, i, hi, (hinv.timer.ticket e i hi).1⟩
  intro now _ _ _ ha hs1 hw hend hs3
  obtain ⟨new, extra, hruns, hentries, hextra⟩ := iteration_timers hinv ha hs1 hw hend hs3
  refine ⟨new, hruns, ?_, ?_⟩
  · intro e he hdue
    have hmem : entry s e ∈ new.map Run.entry := by
      rw [hentries]
      exact mem_append_left _ (mem_map_of_mem (mem_takeWhile_due hinv.timer.sorted he hdue))
    obtain ⟨r, hr, hre⟩ := mem_map.1 hmem
    exact ⟨r, hr, congrArg Prod.fst hre, congrArg (fun x => x.2.1) hre⟩
  have hfilter : (new.filter fun r => r.ticket.isSome).map Run.entry =
      ((ts.takeWhile (due s.event now)).map (entry s)).filter fun x => x.2.1.isSome := by
    have hnone : extra.filter (fun x => x.2.1.isSome) = [] := by
      rw [filter_eq_nil_iff]
      intro x hx
      rw [hextra x hx]
      exact Bool.false_ne_true
    rw [← append_nil (filter _ (map _ _)), ← hnone, ← filter_append, ← hentries,
      List.filter_map]
    rfl
  have hsorted : ((new.filter fun r => r.ticket.isSome).map Run.entry).Pairwise fun x y =>
      y.2.2.before x.2.2 = false := by
    rw [hfilter]
    refine List.Pairwise.filter _ ?_
    rw [pairwise_map]
    exact hinv.timer.sorted.sublist (takeWhile_sublist _)
  rw [pairwise_map] at hsorted
  exact hsorted

/-- Events that were set up and are not used yet. -/
def freshEvents (fd : ℕ → ℤ) : RilState ℕ := .init (fun e => ⟨fd e, -1, false, ⟨0, 0⟩⟩) ⟨0, 0⟩

theorem reachable_freshEvents (fd : ℕ → ℤ) : Reachable (freshEvents fd) :=
  .init (fun _ => rfl) ⟨by decide, by decide⟩

/-- Two timers wait in the list, and both have expired at the clock reading of an iteration.  It runs the callbacks of
both, in the order of their timeouts. -/
theorem ril_timers_two : ∃ s s1 s2 s' : RilState ℕ, Reachable s ∧ s.adds = [(3, ⟨6, 999999⟩), (4, ⟨6, 500000⟩)] ∧
    step s (.processTimeouts ⟨7, 0⟩) = some s1 ∧ Within s1 s2 ∧ step s2 .iterated = some s' ∧
    (∀ i e timeout, s.adds[i]? = some (e, timeout) → ∃ r ∈ s'.runs, r.event = e ∧ r.ticket = some i) ∧
    (s'.runs.filter fun r => r.ticket.isSome).Pairwise fun r r' => r'.timeout.before r.timeout = false := by
  have hreach := reachable_freshEvents fun _ => -1
  have hadd : Reachable _ := hreach.step (a := .timerAdd 3 ⟨1, 0⟩ ⟨5, 999999⟩) ⟨⟨rfl, rfl⟩,
    (fun ⟨_, hi⟩ => by cases hi), by decide, ⟨by decide, by decide⟩, ⟨⟨by decide, by decide⟩, rfl⟩, _, rfl⟩ rfl
  have hadd' : Reachable _ := hadd.step (a := .timerAdd 4 ⟨0, 500000⟩ ⟨6, 0⟩) ⟨⟨rfl, rfl⟩,
    (fun ⟨_, hi⟩ => by cases hi), by decide, ⟨by decide, by decide⟩, ⟨⟨by decide, by decide⟩, rfl⟩, _, rfl⟩ rfl
  have hcopy : Reachable _ := hadd'.step (a := .copyFds) rfl rfl
  obtain ⟨s, hwoken, hphase, hnow, hadds, hruns, hfirst⟩ : ∃ s : RilState ℕ, Reachable s ∧ s.phase = .woken ∅ 0 ∧
      s.now = ⟨6, 0⟩ ∧ s.adds = [(3, ⟨6, 999999⟩), (4, ⟨6, 500000⟩)] ∧ s.runs = [] ∧
      s.links.next .pending_list = some .pending_list :=
    ⟨_, hcopy.step (a := .select ∅ 0) ⟨rfl, _, rfl, Finset.empty_subset _⟩ rfl, rfl, rfl, rfl, rfl, rfl⟩
  obtain ⟨hstep, -, -, -, -, ts, ps, hring, hpending, hadded, -, -, hiter⟩ := ril_timers hwoken
  have hps : ∀ e, e ∉ ps := by
    cases ps with
    | nil => exact fun _ => not_mem_nil
    | cons =>
      have hnext := hfirst.symm.trans (hpending.next_head rfl)
      cases hnext
  have htimeouts : Allowed s (.processTimeouts ⟨7, 0⟩) := ⟨⟨_, _, hphase⟩, ⟨by decide, by decide⟩, by rw [hnow]; rfl⟩
  obtain ⟨s1, hs1⟩ := hstep (.processTimeouts ⟨7, 0⟩) htimeouts
  have htimed := hwoken.step htimeouts hs1
  have hallowed : Allowed s1 .processReadReadies := ⟨_, _, phase_processTimeouts hphase hs1⟩
  obtain ⟨s2, hs2⟩ := (ril_timers htimed).1 _ hallowed
  obtain ⟨p, hp⟩ := phase_processReadReadies (phase_processTimeouts hphase hs1) hs2
  obtain ⟨s3, hdrain, hend⟩ := (ril_timers (htimed.step hallowed hs2)).2.1 p hp
  have hwithin : Within s1 s3 := Within.trans (.step (.refl s1) hallowed (by rintro ⟨⟩) hs2) hdrain
  have hs4 : step s3 .iterated = some { s3 with phase := .waiting } := by rw [step, hend]
  obtain ⟨new, hnew, hdue, hsorted⟩ := hiter ⟨7, 0⟩ _ _ _ htimeouts hs1 hwithin hend hs4
  rw [hruns, nil_append] at hnew
  refine ⟨s, s1, s3, _, hwoken, hadds, hs1, hwithin, hs4, ?_, hnew ▸ hsorted⟩
  rw [hnew]
  intro i e timeout hi
  obtain ⟨hin, hticket, htimeout⟩ | ⟨r, hr, -⟩ := hadded i e timeout hi
  · rw [← hticket]
    refine hdue e (hin.resolve_right (hps e)) ?_
    rw [htimeout]
    rw [hadds] at hi
    rcases i with - | - | i
    · cases hi
      rfl
    · cases hi
      rfl
    · cases hi
  · rw [hruns] at hr
    cases hr

/-! ### The watch table -/

/-- An event is watched after a step. -/
def WatchedAfter (s : RilState E) (e : E) : Act E → Prop
  | .eventAdd e' => Watched s e ∨ e = e'
  | .eventDel e' => Watched s e ∧ e ≠ e'
  | .processReadReadies =>
    Watched s e ∧ ¬ ((∃ rfds n, s.phase = .timed rfds n ∧ (s.event e).fd ∈ rfds) ∧ (s.event e).persist = false)
  | _ => Watched s e

theorem watched_step (h : LoopInv s ts ps) {a : Act E} (ha : Allowed s a) (hs : step s a = some s') (e : E) :
    Watched s' e ↔ WatchedAfter s e a := by
  have hsame : s'.watch_table = s.watch_table → (Watched s' e ↔ Watched s e) := by
    intro htable
    rw [Watched, Watched, htable]
  cases a with
  | eventSet =>
    cases hs
    exact Iff.rfl
  | eventAdd =>
    cases hs
    exact (h.watch.eventAdd ha).2 e
  | eventDel e' =>
    cases hs
    exact (h.watch.eventDel e').2 e
  | timerAdd =>
    obtain ⟨s'', -, hs'', -, -, -, htable⟩ := timerAdd_inv h ha
    cases hs.symm.trans hs''
    exact hsame htable
  | copyFds =>
    have hp : s.phase = .waiting := ha
    rw [step, hp] at hs
    cases hs
    exact Iff.rfl
  | select =>
    obtain ⟨-, given, hp, -⟩ := ha
    rw [step, hp] at hs
    cases hs
    exact Iff.rfl
  | interrupted =>
    obtain ⟨_, hp⟩ := ha
    rw [step, hp] at hs
    cases hs
    exact Iff.rfl
  | processTimeouts =>
    obtain ⟨s'', hs'', -, -, -, htable⟩ := processTimeouts_inv h ha
    cases hs.symm.trans hs''
    exact hsame htable
  | processReadReadies =>
    obtain ⟨rfds, n, hp⟩ := ha
    obtain ⟨s'', hs'', -, -, -, hwatched⟩ := processReadReadies_inv h hp
    cases hs.symm.trans hs''
    rw [hwatched, WatchedAfter]
    refine and_congr_right fun _ => not_congr (and_congr_left fun _ => ?_)
    constructor
    · exact fun hfd => ⟨rfds, n, hp, hfd⟩
    rintro ⟨_, _, hp', hfd⟩
    have := hp.symm.trans hp'
    cases this
    exact hfd
  | fire =>
    obtain ⟨_, hp⟩ := ha
    obtain ⟨_, _, hs'', -, -, -, -, htable⟩ := fire_inv h hp
    cases hs.symm.trans hs''
    exact hsame htable
  | iterated =>
    have hp : s.phase = .firing .pending_list := ha
    rw [step, hp] at hs
    cases hs
    exact Iff.rfl

theorem iteration_readies (h : LoopInv s ts ps) {n : ℕ} (hp : s.phase = .timed rfds n) (hs1 : step s .processReadReadies = some s1) (hw : Within s1 s2)
    (hend : Allowed s2 .iterated) (hs3 : step s2 .iterated = some s3) :
    ∃ new, s3.runs = s.runs ++ new ∧ new.map Run.event = ps ++ readies s rfds := by
  obtain ⟨_, hs1', h1, hbook1, hruns1, -⟩ := processReadReadies_inv h hp
  cases hs1.symm.trans hs1'
  obtain ⟨p, hphase1⟩ := phase_processReadReadies hp hs1
  obtain ⟨_, _, h2, -, hbook2, hruns2⟩ := within_firing h1 hphase1 hw
  have hphase2 : s2.phase = .firing .pending_list := hend
  have hps2 := h2.pending_eq_nil hphase2
  have hruns3 : s3.runs = s2.runs := by
    rw [step, hphase2] at hs3
    cases hs3
    rfl
  rw [hruns1] at hruns2
  obtain ⟨new, hnew⟩ := hruns2
  refine ⟨new, hruns3.trans hnew.symm, ?_⟩
  rw [hbook1, hps2, book, book, map_nil, append_nil, ← hnew] at hbook2
  simp only [map_append, append_assoc] at hbook2
  have hnewEntries := append_cancel_left hbook2
  rw [← map_append] at hnewEntries
  have hevents := congrArg (map Prod.fst) hnewEntries
  rw [List.map_map, List.map_map] at hevents
  exact hevents.trans (map_id _)

/-- The table, the indices, `readFds` and `nfds` agree, events leave the table as they should, and each event that is
ready is run once, in an iteration that comes to its end. -/
theorem ril_watch_table (h : Reachable s) :
    (∀ a, Allowed s a → ∃ s', step s a = some s') ∧
    (∀ p, s.phase = .firing p → ∃ s', Within s s' ∧ s'.phase = .firing .pending_list) ∧
    (∀ fd, fd ∈ s.readFds ↔ ∃ e, Watched s e ∧ (s.event e).fd = fd) ∧
    (∀ e, Watched s e → (s.event e).fd < s.nfds) ∧
    (∀ i e, s.watch_table i = some e ↔ Watched s e ∧ (s.event e).index = (i : ℕ)) ∧
    (∀ a s' e, Allowed s a → step s a = some s' → (Watched s' e ↔ WatchedAfter s e a)) ∧
    ∀ rfds n s1 s2 s3, s.phase = .timed rfds n → step s .processReadReadies = some s1 → Within s1 s2 →
      Allowed s2 .iterated → step s2 .iterated = some s3 →
      ∃ new, s3.runs = s.runs ++ new ∧ ∀ e, Watched s e →
        (new.map Run.event).count e = if (s.event e).fd ∈ rfds then 1 else 0 := by
  obtain ⟨_, ps, hinv⟩ := loopInv_reachable h
  refine ⟨?_, fun p hp => exists_iterated hinv hp, hinv.watch.fds, hinv.watch.nfds, ?_,
    fun a s' e ha hs => watched_step hinv ha hs e, ?_⟩
  · intro a ha
    obtain ⟨s', -, -, hs, -⟩ := loopInv_step hinv ha
    exact ⟨s', hs⟩
  · intro i e
    constructor
    · exact fun hi => ⟨⟨i, hi⟩, hinv.watch.index i e hi⟩
    rintro ⟨⟨j, hj⟩, hindex⟩
    have hij : j = i := Fin.ext (by exact_mod_cast (hinv.watch.index j e hj).symm.trans hindex)
    rw [← hij]
    exact hj
  intro rfds n _ _ _ hp hs1 hw hend hs3
  obtain ⟨new, hruns, hnew⟩ := iteration_readies hinv hp hs1 hw hend hs3
  refine ⟨new, hruns, ?_⟩
  intro e he
  -- What was pending before are timers, and a timer is not watched.
  have hps : e ∉ ps := by
    intro hmem
    have hphase := hinv.phase
    rw [PhaseInv, hp] at hphase
    obtain ⟨i, hi⟩ := hphase.1 e hmem
    exact hinv.not_watched hi he
  rw [hnew, count_append, count_eq_zero_of_not_mem hps, Nat.zero_add]
  split_ifs with hfd
  · exact count_eq_one_of_mem (nodup_readies hinv.watch rfds) (mem_readies.2 ⟨he, hfd⟩)
  · exact count_eq_zero_of_not_mem fun hmem => hfd (mem_readies.1 hmem).2

/-- Two events are ready.  Each is run once, and the one that is not persistent leaves the table. -/
theorem ril_watch_table_two : ∃ s s1 s2 s' : RilState ℕ, Reachable s ∧ s.nfds = 8 ∧ s.readFds = {5, 7} ∧
    step s .processReadReadies = some s1 ∧ Within s1 s2 ∧ step s2 .iterated = some s' ∧
    (s'.runs.map Run.event).count 5 = 1 ∧ (s'.runs.map Run.event).count 7 = 1 ∧ ¬ Watched s1 5 ∧ Watched s1 7 := by
  have hset : Reachable _ := (reachable_freshEvents fun e => e).step (a := .eventSet 7 7 true)
    ⟨⟨rfl, rfl⟩, (fun ⟨_, hi⟩ => by cases hi)⟩ rfl
  have hallowed : Allowed (eventSet (freshEvents fun e => e) 7 7 true) (.eventAdd 7) :=
    ⟨(fun ⟨_, hi⟩ => by cases hi), by decide, (fun _ ⟨_, hi⟩ => by cases hi), ⟨0, by decide⟩, rfl⟩
  have honly : ∀ e, Watched (eventAdd (eventSet (freshEvents fun e => e) 7 7 true) 7) e → e = 7 := by
    intro e he
    obtain ⟨-, -, -, -, -, hafter, -⟩ := ril_watch_table hset
    rcases (hafter _ _ e hallowed rfl).1 he with ⟨_, hi⟩ | h
    · cases hi
    · exact h
  have hadd' : Reachable _ := (hset.step hallowed rfl).step (a := .eventAdd 5)
    ⟨fun h => absurd (honly 5 h) (by decide), by decide, fun e he => by rw [honly e he]; decide, ⟨1, by decide⟩, rfl⟩ rfl
  have hcopy : Reachable _ := hadd'.step (a := .copyFds) rfl rfl
  have hselect : Reachable _ := hcopy.step (a := .select {5, 7} 2) ⟨rfl, _, rfl, by decide⟩ rfl
  obtain ⟨s, htimed, hphase, hnfds, hfds, hruns, h5, h7, hfd5, hfd7, hpersist5, hpersist7⟩ : ∃ s : RilState ℕ,
      Reachable s ∧ s.phase = .timed {5, 7} 2 ∧ s.nfds = 8 ∧ s.readFds = {5, 7} ∧ s.runs = [] ∧
      Watched s 5 ∧ Watched s 7 ∧ (s.event 5).fd = 5 ∧ (s.event 7).fd = 7 ∧
      (s.event 5).persist = false ∧ (s.event 7).persist = true :=
    ⟨_, hselect.step (a := .processTimeouts ⟨0, 0⟩) ⟨⟨_, _, rfl⟩, ⟨by decide, by decide⟩, rfl⟩ rfl, rfl, rfl, by decide, rfl,
      ⟨⟨1, by decide⟩, rfl⟩, ⟨⟨0, by decide⟩, rfl⟩, rfl, rfl, rfl, rfl⟩
  obtain ⟨hstep, -, -, -, -, hafter, hready⟩ := ril_watch_table htimed
  have hallowed : Allowed s .processReadReadies := ⟨_, _, hphase⟩
  obtain ⟨s1, hs1⟩ := hstep _ hallowed
  obtain ⟨p, hp⟩ := phase_processReadReadies hphase hs1
  obtain ⟨s2, hwithin, hend⟩ := (ril_watch_table (htimed.step hallowed hs1)).2.1 p hp
  have hs' : step s2 .iterated = some { s2 with phase := .waiting } := by rw [step, hend]
  obtain ⟨new, hnew, hcount⟩ := hready _ _ _ _ _ hphase hs1 hwithin hend hs'
  rw [hruns, nil_append] at hnew
  refine ⟨s, s1, s2, _, htimed, hnfds, hfds, hs1, hwithin, hs', ?_, ?_, ?_, ?_⟩
  · rw [hnew, hcount 5 h5, hfd5]
    rfl
  · rw [hnew, hcount 7 h7, hfd7]
    rfl
  · rw [hafter _ _ 5 hallowed hs1]
    exact fun h => h.2 ⟨⟨_, _, hphase, by rw [hfd5]; decide⟩, hpersist5⟩
  · rw [hafter _ _ 7 hallowed hs1]
    refine ⟨h7, fun h => ?_⟩
    rw [hpersist7] at h
    cases h.2

end G4Common.Ril

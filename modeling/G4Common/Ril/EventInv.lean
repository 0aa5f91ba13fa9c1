/-
The invariant of the event loop, for all steps.

The timers of `timer_list` are sorted.  Each event of the two lists that came there as a timer has a ticket, the number
of its call of `ril_timer_add()`; its descriptor is `-1`, so it is not in the watch table.  `pending_list` is empty
between the iterations.  `book` is what was run and what is pending: `processTimeouts()` and `processReadReadies()` add
to its end, and no step takes away from it.
-/
import G4Common.Ril.EventWatch

namespace G4Common.Ril

open Function List Option

variable {E : Type*} [DecidableEq E]
variable {now t u v : TimeVal}

/-! ### The order of times -/

theorem before_iff : t.before u ↔ t.tv_sec < u.tv_sec ∨ t.tv_sec = u.tv_sec ∧ t.tv_usec < u.tv_usec := by
  rw [TimeVal.before]
  split
  · rw [decide_eq_true_eq]
    omega
  · rw [decide_eq_true_eq]
    omega

theorem not_before_iff : t.before u = false ↔ u.tv_sec < t.tv_sec ∨ u.tv_sec = t.tv_sec ∧ u.tv_usec ≤ t.tv_usec := by
  rw [← Bool.not_eq_true, before_iff]
  omega

theorem not_before_trans (h : t.before u = false) (h' : u.before v = false) : t.before v = false := by
  rw [not_before_iff] at h h' ⊢
  omega

theorem before_of_before_of_not_before (h : t.before u) (h' : v.before u = false) : t.before v = true := by
  rw [before_iff] at h ⊢
  rw [not_before_iff] at h'
  omega

theorem not_before_of_before (h : t.before u) : u.before t = false := by
  rw [before_iff] at h
  rw [not_before_iff]
  omega

theorem normalised_timeradd (ht : t.Normalised) (hu : u.Normalised) (h : timeradd t u = some v) : v.Normalised := by
  obtain ⟨_, ht⟩ := ht
  obtain ⟨_, hu⟩ := hu
  rw [timeradd] at h
  obtain ⟨_, -, h⟩ := bind_eq_some_iff.1 h
  split at h
  · obtain ⟨_, -, h⟩ := bind_eq_some_iff.1 h
    cases h
    constructor
    · show 0 ≤ t.tv_usec + u.tv_usec - 1000000
      omega
    · show t.tv_usec + u.tv_usec - 1000000 < 1000000
      omega
  cases h
  constructor
  · show 0 ≤ t.tv_usec + u.tv_usec
    omega
  · show t.tv_usec + u.tv_usec < 1000000
    omega

/-! ### The invariant -/

/-- An event of `pending_list` as it will be run. -/
def entry (s : RilState E) (e : E) : E × Option ℕ × TimeVal := (e, s.ticket e, (s.event e).timeout)

def Run.entry (r : Run E) : E × Option ℕ × TimeVal := (r.event, r.ticket, r.timeout)

/-- What was run, and what is going to be run. -/
def book (s : RilState E) (ps : List E) : List (E × Option ℕ × TimeVal) := s.runs.map Run.entry ++ ps.map (entry s)

structure TimerInv (s : RilState E) (ts ps : List E) : Prop where
  lists : TwoLists s.links ts ps
  sorted : ts.Pairwise fun a b => (s.event b).timeout.before (s.event a).timeout = false
  normal : ∀ e ∈ ts, (s.event e).timeout.Normalised
  clock : s.now.Normalised
  ticketed : ∀ e ∈ ts, ∃ i, s.ticket e = some i
  ticket : ∀ e i, s.ticket e = some i →
    s.adds[i]? = some (e, (s.event e).timeout) ∧ (e ∈ ts ∨ e ∈ ps) ∧ (s.event e).fd = -1
  once : ∀ e i, s.ticket e = some i → i ∉ s.runs.filterMap Run.ticket
  expired : ∀ e ∈ ps, ∀ i, s.ticket e = some i → (s.event e).timeout.before s.now = true
  added : ∀ i e timeout, s.adds[i]? = some (e, timeout) → s.ticket e = some i ∨ i ∈ s.runs.filterMap Run.ticket
  ranOnce : (s.runs.filterMap Run.ticket).Nodup
  ran : ∀ r ∈ s.runs, ∀ i, r.ticket = some i →
    s.adds[i]? = some (r.event, r.timeout) ∧ r.timeout.before r.time = true

/-- What `pending_list` has in each phase. -/
def PhaseInv (s : RilState E) (ps : List E) : Prop :=
  match s.phase with
  | .waiting => ps = []
  | .blocked _ => ps = []
  | .woken rfds n => ps = [] ∧ n = rfds.card
  | .timed rfds n => (∀ e ∈ ps, ∃ i, s.ticket e = some i) ∧ n = rfds.card
  | .firing p => ∃ B, ps.map Ptr.ev ++ [.pending_list] = p :: B

structure LoopInv (s : RilState E) (ts ps : List E) : Prop where
  watch : WatchInv s
  timer : TimerInv s ts ps
  phase : PhaseInv s ps

variable {s s' : RilState E} {ts ps : List E} {e : E}

omit [DecidableEq E] in
/-- A timer is not in the watch table. -/
theorem LoopInv.not_watched (h : LoopInv s ts ps) {i : ℕ} (hi : s.ticket e = some i) : ¬ Watched s e := by
  intro hw
  have hfd := (h.timer.ticket e i hi).2.2
  have := h.watch.nonneg e hw
  omega

namespace TimerInv

omit [DecidableEq E] in
theorem ticket_eq_none (h : TimerInv s ts ps) (hts : e ∉ ts) (hps : e ∉ ps) : s.ticket e = none := by
  cases hticket : s.ticket e with
  | none => rfl
  | some i => exact absurd (h.ticket e i hticket).2.1 (not_or.2 ⟨hts, hps⟩)

omit [DecidableEq E] in
/-- There are not more timers than calls. -/
theorem length_le (h : TimerInv s ts ps) : ts.length ≤ s.adds.length := by
  have hnodup : (ts.filterMap s.ticket).Nodup := by
    refine List.Nodup.filterMap ?_ h.lists.nodup_timers
    intro a b i ha hb
    have hadd := (h.ticket a i ha).1.symm.trans (h.ticket b i hb).1
    exact congrArg Prod.fst (some.inj hadd)
  have hlen : (ts.filterMap s.ticket).length = ts.length := by
    rw [length_filterMap_eq_countP, countP_eq_length]
    intro a ha
    obtain ⟨i, hi⟩ := h.ticketed a ha
    rw [hi]
    rfl
  have hsub : ts.filterMap s.ticket ⊆ range s.adds.length := by
    intro i hi
    obtain ⟨a, -, ha⟩ := List.mem_filterMap.1 hi
    exact List.mem_range.2 (List.getElem?_eq_some_iff.1 (h.ticket a i ha).1).1
  rw [← hlen, ← length_range (n := s.adds.length)]
  exact (hnodup.subperm hsub).length_le

omit [DecidableEq E] in
theorem tableOnly (h : TimerInv s ts ps) (hs : TableOnly s s') : TimerInv s' ts ps := by
  obtain ⟨hlinks, -, hnow, hadds, hticket, hruns, hevent⟩ := hs
  have htimeout : ∀ e, (s'.event e).timeout = (s.event e).timeout := fun e => (hevent e).2.2
  refine ⟨?_, ?_, ?_, ?_, ?_, ?_, ?_, ?_, ?_, ?_, ?_⟩
  · rw [hlinks]
    exact h.lists
  · refine h.sorted.imp ?_
    intro a b hab
    rw [htimeout, htimeout]
    exact hab
  · intro a ha
    rw [htimeout]
    exact h.normal a ha
  · rw [hnow]
    exact h.clock
  · rw [hticket]
    exact h.ticketed
  · intro a i ha
    rw [hticket] at ha
    rw [hadds, htimeout, (hevent a).1]
    exact h.ticket a i ha
  · rw [hticket, hruns]
    exact h.once
  · intro a ha i hi
    rw [hticket] at hi
    rw [htimeout, hnow]
    exact h.expired a ha i hi
  · rw [hadds, hticket, hruns]
    exact h.added
  · rw [hruns]
    exact h.ranOnce
  · rw [hruns, hadds]
    exact h.ran

end TimerInv

/-! ### Steps that leave the lists alone -/

omit [DecidableEq E] in
theorem book_congr (hruns : s'.runs = s.runs) (hentry : ∀ e ∈ ps, entry s' e = entry s e) : book s' ps = book s ps := by
  rw [book, book, hruns, map_congr_left hentry]

omit [DecidableEq E] in
theorem loopInv_tableOnly (h : LoopInv s ts ps) (hw : WatchInv s') (hs : TableOnly s s') :
    LoopInv s' ts ps ∧ book s' ps = book s ps := by
  refine ⟨⟨hw, h.timer.tableOnly hs, ?_⟩, book_congr hs.runs fun e _ => ?_⟩
  · have hphase := h.phase
    rw [PhaseInv, hs.phase, hs.ticket]
    exact hphase
  · rw [entry, entry, hs.ticket, (hs.event e).2.2]

omit [DecidableEq E] in
theorem loopInv_phase (h : LoopInv s ts ps) (phase : Phase E) (hphase : PhaseInv { s with phase := phase } ps) :
    LoopInv { s with phase := phase } ts ps ∧ book { s with phase := phase } ps = book s ps := by
  obtain ⟨h1, h2, h3, h4, h5, h6, h7, h8, h9, h10, h11⟩ := h.timer
  exact ⟨⟨h.watch.congr rfl rfl rfl (fun _ he => h.watch.index_of_not_watched he) fun _ _ => rfl,
    ⟨h1, h2, h3, h4, h5, h6, h7, h8, h9, h10, h11⟩, hphase⟩, rfl⟩

theorem eventSet_inv (h : LoopInv s ts ps) {fd : ℤ} {persist : Bool} (ha : Allowed s (.eventSet e fd persist)) :
    LoopInv (eventSet s e fd persist) ts ps ∧ book (eventSet s e fd persist) ps = book s ps := by
  obtain ⟨hlist, hnot⟩ := ha
  obtain ⟨hts, hps⟩ := h.timer.lists.free_iff.1 hlist
  have hlinks : (eventSet s e fd persist).links = s.links := by
    show Links.mk (update s.links.next _ none) (update s.links.prev _ none) = s.links
    have hnext : update s.links.next (.ev e) none = s.links.next :=
      update_eq_self_iff.2 hlist.1.symm
    have hprev : update s.links.prev (.ev e) none = s.links.prev :=
      update_eq_self_iff.2 hlist.2.symm
    rw [hnext, hprev]
  have hevent : ∀ a, a ≠ e → (eventSet s e fd persist).event a = s.event a := fun a ha => update_of_ne ha _ _
  have hne : ∀ a, a ∈ ts ∨ a ∈ ps → a ≠ e := by
    rintro a (ha | ha) rfl
    · exact hts ha
    · exact hps ha
  have hticket := h.timer.ticket_eq_none hts hps
  have hnet : ∀ a i, s.ticket a = some i → a ≠ e := by
    rintro a i hi rfl
    rw [hticket] at hi
    cases hi
  refine ⟨⟨?_, ⟨?_, ?_, ?_, h.timer.clock, h.timer.ticketed, ?_, h.timer.once, ?_, h.timer.added,
    h.timer.ranOnce, h.timer.ran⟩, ?_⟩, ?_⟩
  · refine h.watch.congr rfl rfl rfl ?_ ?_
    · intro a ha
      by_cases hae : a = e
      · rw [hae]
        show (update s.event e _ e).index = -1
        rw [update_self]
      · rw [hevent a hae]
        exact h.watch.index_of_not_watched ha
    · exact fun a ha => hevent a fun hae => hnot (hae ▸ ha)
  · rw [hlinks]
    exact h.timer.lists
  · refine h.timer.sorted.imp_of_mem ?_
    intro a b ha hb hab
    rw [hevent a (hne a (.inl ha)), hevent b (hne b (.inl hb))]
    exact hab
  · intro a ha
    rw [hevent a (hne a (.inl ha))]
    exact h.timer.normal a ha
  · intro a i hi
    rw [hevent a (hnet a i hi)]
    exact h.timer.ticket a i hi
  · intro a ha i hi
    rw [hevent a (hne a (.inr ha))]
    exact h.timer.expired a ha i hi
  · exact h.phase
  refine book_congr rfl ?_
  intro a ha
  rw [entry, entry, hevent a (hne a (.inr ha))]
  rfl

/-! ### `ril_timer_add()` -/

omit [DecidableEq E] in
/-- A timer put in front of the first one that is not older leaves the timers sorted. -/
theorem sorted_insert (timeout : E → TimeVal) {p q : List E}
    (hs : (p ++ q).Pairwise fun a b => (timeout b).before (timeout a) = false)
    (hp : ∀ a ∈ p, (timeout a).before (timeout e)) (hq : ∀ a ∈ q.head?, (timeout a).before (timeout e) = false) :
    (p ++ e :: q).Pairwise fun a b => (timeout b).before (timeout a) = false := by
  obtain ⟨hpp, hqq, hpq⟩ := pairwise_append.1 hs
  have hall : ∀ a ∈ q, (timeout a).before (timeout e) = false := by
    cases q with
    | nil => exact nofun
    | cons b =>
      have hb := hq b rfl
      intro a ha
      rcases mem_cons.1 ha with rfl | ha
      · exact hb
      · exact not_before_trans ((pairwise_cons.1 hqq).1 a ha) hb
  refine pairwise_append.2 ⟨hpp, pairwise_cons.2 ⟨hall, hqq⟩, ?_⟩
  intro a ha b hb
  rcases mem_cons.1 hb with rfl | hb
  · exact not_before_of_before (hp a ha)
  · exact hpq a ha b hb

theorem timerAdd_inv (h : LoopInv s ts ps) {tv : TimeVal} (ha : Allowed s (.timerAdd e tv now)) :
    ∃ s' ts', timerAdd s e tv now = some s' ∧ LoopInv s' ts' ps ∧ book s' ps = book s ps ∧
      s'.runs = s.runs ∧ s'.watch_table = s.watch_table := by
  obtain ⟨hlist, hnot, -, htv, ⟨hnow, hclock⟩, timeout, htimeout⟩ := ha
  obtain ⟨hts, hps⟩ := h.timer.lists.free_iff.1 hlist
  obtain ⟨y, B, hy⟩ := exists_first ts Ptr.timer_list
  have hfirst := h.timer.lists.timers.next_head hy
  obtain ⟨event, hdef⟩ : ∃ event, event = update s.event e { s.event e with fd := -1, timeout := timeout } :=
    ⟨_, rfl⟩
  have hevent : ∀ a, a ≠ e → event a = s.event a := fun a ha => by rw [hdef, update_of_ne ha]
  have hself : event e = { s.event e with fd := -1, timeout := timeout } := by rw [hdef, update_self]
  obtain ⟨q1, q2, _, _, rfl, hq1, hq2, hy', hplace⟩ := sortedPlace_eq event timeout ts []
    h.timer.lists.timers (Nat.lt_succ_of_le h.timer.length_le) hy
  obtain ⟨L, hadd, hlists⟩ := h.timer.lists.addTimer hts hps hy'
  have hne : ∀ a, a ∈ q1 ++ q2 ∨ a ∈ ps → a ≠ e := by
    rintro a (ha | ha) rfl
    · exact hts ha
    · exact hps ha
  have hnet : ∀ a i, s.ticket a = some i → a ≠ e := fun a i hi => hne a (h.timer.ticket a i hi).2.1
  have hlt : ∀ r ∈ s.runs, ∀ i, r.ticket = some i → i < s.adds.length :=
    fun r hr i hi => (List.getElem?_eq_some_iff.1 (h.timer.ran r hr i hi).1).1
  refine ⟨{ s with
      links := L
      event := event
      now := now
      adds := s.adds ++ [(e, timeout)]
      ticket := update s.ticket e (some s.adds.length) }, q1 ++ e :: q2, ?_,
    ⟨?_, ⟨hlists, ?_, ?_, hnow, ?_, ?_, ?_, ?_, ?_, h.timer.ranOnce, ?_⟩, ?_⟩, ?_, rfl, rfl⟩
  · rw [timerAdd, htimeout, bind_some, hfirst]
    dsimp only [bind_eq_bind, bind_some]
    rw [← hdef, hplace]
    dsimp only [bind_some]
    rw [hadd]
    rfl
  · refine h.watch.congr rfl rfl rfl ?_ ?_
    · intro a ha
      show (event a).index = -1
      by_cases hae : a = e
      · rw [hae, hself]
        exact h.watch.index_of_not_watched hnot
      · rw [hevent a hae]
        exact h.watch.index_of_not_watched ha
    · exact fun a ha => hevent a fun hae => hnot (hae ▸ ha)
  · refine sorted_insert (fun a => (event a).timeout) ?_ ?_ ?_
    · refine h.timer.sorted.imp_of_mem ?_
      intro a b ha hb hab
      rw [hevent a (hne a (.inl ha)), hevent b (hne b (.inl hb))]
      exact hab
    · rw [hself]
      exact hq1
    · rw [hself]
      exact hq2
  · intro a ha
    show (event a).timeout.Normalised
    rw [mem_append, mem_cons, or_left_comm, ← mem_append] at ha
    rcases ha with rfl | ha
    · rw [hself]
      exact normalised_timeradd hnow htv htimeout
    · rw [hevent a (hne a (.inl ha))]
      exact h.timer.normal a ha
  · intro a ha
    rw [mem_append, mem_cons, or_left_comm, ← mem_append] at ha
    rcases ha with rfl | ha
    · exact ⟨_, update_self _ _ _⟩
    · obtain ⟨i, hi⟩ := h.timer.ticketed a ha
      exact ⟨i, by rw [← hi]; exact update_of_ne (hne a (.inl ha)) _ _⟩
  · intro a i hi
    show (s.adds ++ [(e, timeout)])[i]? = some (a, (event a).timeout) ∧ _ ∧ (event a).fd = -1
    rcases eq_or_ne a e with rfl | hae
    · obtain rfl : s.adds.length = i := some.inj ((update_self a _ s.ticket).symm.trans hi)
      rw [hself, getElem?_concat_length]
      exact ⟨rfl, Or.inl (mem_append_right _ mem_cons_self), rfl⟩
    have hi' : s.ticket a = some i := (update_of_ne hae _ _).symm.trans hi
    obtain ⟨hadds, hin, hfd⟩ := h.timer.ticket a i hi'
    rw [hevent a hae, getElem?_append_left (List.getElem?_eq_some_iff.1 hadds).1]
    refine ⟨hadds, hin.imp_left ?_, hfd⟩
    rw [mem_append, mem_append, mem_cons]
    exact Or.imp_right Or.inr
  · intro a i hi
    rcases eq_or_ne a e with rfl | hae
    · obtain rfl : s.adds.length = i := some.inj ((update_self a _ s.ticket).symm.trans hi)
      intro hmem
      obtain ⟨r, hr, hrt⟩ := mem_filterMap.1 hmem
      exact Nat.lt_irrefl _ (hlt r hr _ hrt)
    · exact h.timer.once a i ((update_of_ne hae _ _).symm.trans hi)
  · intro a ha i hi
    have hae := hne a (.inr ha)
    show (event a).timeout.before now = true
    rw [hevent a hae]
    exact before_of_before_of_not_before
      (h.timer.expired a ha i ((update_of_ne hae _ _).symm.trans hi)) hclock
  · intro i a t hi
    show update s.ticket e _ a = some i ∨ i ∈ s.runs.filterMap Run.ticket
    rcases Nat.lt_or_ge i s.adds.length with hold | hnew
    · have hadds : s.adds[i]? = some (a, t) := (getElem?_append_left hold).symm.trans hi
      refine (h.timer.added i a t hadds).imp_left fun hticket => ?_
      have hae : a ≠ e := by
        rintro rfl
        exact absurd (h.timer.ticket a i hticket).2.1 (not_or.2 ⟨hts, hps⟩)
      rw [update_of_ne hae]
      exact hticket
    · have hmem : [(e, timeout)][i - s.adds.length]? = some (a, t) := (getElem?_append_right hnew).symm.trans hi
      rw [List.getElem?_singleton] at hmem
      split at hmem
      · cases hmem
        left
        rw [update_self]
        exact congrArg some (by omega)
      · cases hmem
  · intro r hr i hi
    obtain ⟨hadds, htime⟩ := h.timer.ran r hr i hi
    refine ⟨?_, htime⟩
    show (s.adds ++ _)[i]? = _
    rw [getElem?_append_left (hlt r hr i hi)]
    exact hadds
  · have hphase := h.phase
    rw [PhaseInv] at hphase ⊢
    dsimp only
    cases hp : s.phase with
    | timed =>
      rw [hp] at hphase
      refine ⟨?_, hphase.2⟩
      intro a ha
      obtain ⟨i, hi⟩ := hphase.1 a ha
      exact ⟨i, by rw [← hi]; exact update_of_ne (hne a (.inr ha)) _ _⟩
    | waiting | blocked | woken | firing => rw [hp] at hphase; exact hphase
  refine book_congr rfl ?_
  intro a ha
  have hae := hne a (.inr ha)
  show (a, update s.ticket e _ a, (event a).timeout) = _
  rw [update_of_ne hae, hevent a hae]
  rfl

/-! ### The steps of the loop -/

theorem processTimeouts_inv (h : LoopInv s ts ps) (ha : Allowed s (.processTimeouts now)) :
    ∃ s', step s (.processTimeouts now) = some s' ∧
      LoopInv s' (ts.dropWhile (due s.event now)) (ps ++ ts.takeWhile (due s.event now)) ∧
      book s' (ps ++ ts.takeWhile (due s.event now)) = book s ps ++ (ts.takeWhile (due s.event now)).map (entry s) ∧
      s'.runs = s.runs ∧ s'.watch_table = s.watch_table := by
  obtain ⟨⟨rfds, n, hphase⟩, hnow, hclock⟩ := ha
  obtain ⟨y, B, hy⟩ := exists_first ts Ptr.timer_list
  have hfirst := h.timer.lists.timers.next_head hy
  obtain ⟨L, hloop, hlists⟩ := expireTimers_eq (n := s.adds.length + 1) h.timer.lists now
    (Nat.lt_succ_of_le h.timer.length_le) hy
  have hsplit : ∀ a, a ∈ ts ↔ a ∈ ts.takeWhile (due s.event now) ∨ a ∈ ts.dropWhile (due s.event now) := by
    intro a
    rw [← mem_append, takeWhile_append_dropWhile]
  have hempty : ps = [] ∧ n = rfds.card := by
    have := h.phase
    rw [PhaseInv, hphase] at this
    exact this
  refine ⟨{ s with links := L, phase := .timed rfds n, now := now }, ?_, ⟨?_, ⟨hlists, ?_, ?_, hnow, ?_, ?_, h.timer.once, ?_,
    h.timer.added, h.timer.ranOnce, h.timer.ran⟩, ?_, hempty.2⟩, ?_, rfl, rfl⟩
  · rw [step, hphase]
    dsimp only [bind_eq_bind]
    rw [hfirst]
    dsimp only [bind_some]
    rw [hloop]
    rfl
  · exact h.watch.congr rfl rfl rfl (fun _ he => h.watch.index_of_not_watched he) fun _ _ => rfl
  · exact h.timer.sorted.sublist (dropWhile_sublist _)
  · exact fun a ha => h.timer.normal a ((hsplit a).2 (.inr ha))
  · exact fun a ha => h.timer.ticketed a ((hsplit a).2 (.inr ha))
  · intro a i hi
    obtain ⟨hadds, hin, hfd⟩ := h.timer.ticket a i hi
    refine ⟨hadds, ?_, hfd⟩
    rw [mem_append]
    rcases hin with hin | hin
    · rcases (hsplit a).1 hin with hin | hin
      · exact .inr (.inr hin)
      · exact .inl hin
    · exact .inr (.inl hin)
  · intro a ha i hi
    rcases mem_append.1 ha with ha | ha
    · exact before_of_before_of_not_before (h.timer.expired a ha i hi) hclock
    · have hdue : due s.event now a = true := mem_takeWhile_imp ha
      exact hdue
  · intro a ha
    rw [hempty.1, nil_append] at ha
    exact h.timer.ticketed a ((hsplit a).2 (.inl ha))
  · rw [book, book, map_append, append_assoc]
    rfl

/-- The events whose descriptors are ready, in the order of their slots. -/
def readies (s : RilState E) (rfds : Finset ℤ) : List E := (finRange MAX_FD_EVENTS).filterMap (readyAt rfds s)

omit [DecidableEq E] in
theorem mem_readies {rfds : Finset ℤ} : e ∈ readies s rfds ↔ Watched s e ∧ (s.event e).fd ∈ rfds := by
  rw [readies, mem_filterMap]
  constructor
  · rintro ⟨i, -, hi⟩
    obtain ⟨htable, hfd⟩ := readyAt_eq_some.1 hi
    exact ⟨⟨i, htable⟩, hfd⟩
  · rintro ⟨⟨i, htable⟩, hfd⟩
    exact ⟨i, mem_finRange i, readyAt_eq_some.2 ⟨htable, hfd⟩⟩

omit [DecidableEq E] in
theorem nodup_readies (h : WatchInv s) (rfds : Finset ℤ) : (readies s rfds).Nodup := by
  refine List.Nodup.filterMap ?_ (nodup_finRange _)
  intro i j a hi hj
  exact h.slot_unique (readyAt_eq_some.1 hi).1 (readyAt_eq_some.1 hj).1

omit [DecidableEq E] in
/-- There are not more ready events than ready descriptors. -/
theorem length_readies_le (h : WatchInv s) (rfds : Finset ℤ) : (readies s rfds).length ≤ rfds.card := by
  have hnodup : ((readies s rfds).map fun e => (s.event e).fd).Nodup := by
    refine List.Nodup.map_on ?_ (nodup_readies h rfds)
    exact fun a ha b hb hab => h.distinct a b (mem_readies.1 ha).1 (mem_readies.1 hb).1 hab
  rw [← length_map (fun e => (s.event e).fd), ← toFinset_card_of_nodup hnodup]
  refine Finset.card_le_card ?_
  intro _ hfd
  obtain ⟨a, ha, rfl⟩ := mem_map.1 (mem_toFinset.1 hfd)
  exact (mem_readies.1 ha).2

theorem processReadReadies_inv (h : LoopInv s ts ps) {rfds : Finset ℤ} {n : ℕ} (hphase : s.phase = .timed rfds n) :
    ∃ s', step s .processReadReadies = some s' ∧ LoopInv s' ts (ps ++ readies s rfds) ∧
      book s' (ps ++ readies s rfds) = book s ps ++ (readies s rfds).map (entry s) ∧ s'.runs = s.runs ∧
      ∀ e, Watched s' e ↔ Watched s e ∧ ¬ ((s.event e).fd ∈ rfds ∧ (s.event e).persist = false) := by
  obtain ⟨hticketed, hn⟩ : (∀ e ∈ ps, ∃ i, s.ticket e = some i) ∧ n = rfds.card := by
    have := h.phase
    rw [PhaseInv, hphase] at this
    exact this
  have hnone : ∀ a ∈ readies s rfds, s.ticket a = none := by
    intro a ha
    cases hticket : s.ticket a with
    | none => rfl
    | some => exact absurd (mem_readies.1 ha).1 (h.not_watched hticket)
  have hfree : ∀ a ∈ readies s rfds, a ∉ ts ∧ a ∉ ps := by
    intro a ha
    constructor
    · intro hts
      obtain ⟨i, hi⟩ := h.timer.ticketed a hts
      exact h.not_watched hi (mem_readies.1 ha).1
    · intro hps
      obtain ⟨i, hi⟩ := hticketed a hps
      exact h.not_watched hi (mem_readies.1 ha).1
  obtain ⟨L, hloop, hlists⟩ := markReadies_eq rfds (finRange MAX_FD_EVENTS) (nodup_finRange _) n s h.timer.lists
    (by rw [hn]; exact length_readies_le h.watch rfds) (nodup_readies h.watch rfds) hfree
  obtain ⟨hwatch, hsame, hw⟩ := h.watch.foldl_leaveSlot rfds (finRange MAX_FD_EVENTS) (nodup_finRange _)
  obtain ⟨s1, hs1⟩ : ∃ s1, s1 = (finRange MAX_FD_EVENTS).foldl (leaveSlot rfds) s := ⟨_, rfl⟩
  rw [← hs1] at hloop hwatch hsame hw
  obtain ⟨y, B, hy⟩ := exists_first (ps ++ readies s rfds) Ptr.pending_list
  have hfirst : L.next .pending_list = some y := hlists.pending.next_head hy
  obtain ⟨-, h2, h3, h4, h5, h6, h7, h8, h9, h10, h11⟩ := h.timer.tableOnly hsame
  refine ⟨{ s1 with links := L, phase := .firing y }, ?_, ⟨?_, ⟨hlists, h2, h3, h4, h5, ?_, h7, ?_, h9, h10, h11⟩, B, hy⟩, ?_,
    hsame.runs, ?_⟩
  · rw [step, hphase]
    dsimp only [bind_eq_bind]
    rw [hloop]
    dsimp only [bind_some]
    rw [hfirst]
    rfl
  · exact hwatch.congr rfl rfl rfl (fun _ he => hwatch.index_of_not_watched he) fun _ _ => rfl
  · intro a i hi
    obtain ⟨hadds, hin, hfd⟩ := h6 a i hi
    exact ⟨hadds, hin.imp_right (mem_append_left _), hfd⟩
  · intro a ha i hi
    rcases mem_append.1 ha with ha | ha
    · exact h8 a ha i hi
    have hticket : s1.ticket a = none := by
      rw [hsame.ticket]
      exact hnone a ha
    exact absurd (hticket.symm.trans hi).symm (some_ne_none i)
  · have hentry : ∀ a, entry { s1 with links := L, phase := .firing y } a = entry s a := by
      intro a
      show (a, s1.ticket a, (s1.event a).timeout) = _
      rw [hsame.ticket, (hsame.event a).2.2]
      rfl
    have hbook : book { s1 with links := L, phase := .firing y } (ps ++ readies s rfds) = book s (ps ++ readies s rfds) :=
      book_congr hsame.runs fun a _ => hentry a
    rw [hbook, book, book, map_append, append_assoc]
  intro a
  have hwatched : Watched { s1 with links := L, phase := .firing y } a ↔ Watched s1 a := Iff.rfl
  rw [hwatched, hw]
  refine and_congr_right fun ⟨i, hi⟩ => not_congr ?_
  constructor
  · rintro ⟨j, -, hj, hpersist⟩
    exact ⟨(readyAt_eq_some.1 hj).2, hpersist⟩
  · rintro ⟨hfd, hpersist⟩
    exact ⟨i, mem_finRange i, readyAt_eq_some.2 ⟨hi, hfd⟩, hpersist⟩

theorem fire_inv (h : LoopInv s ts ps) (hphase : s.phase = .firing (.ev e)) :
    ∃ s' ps', step s .fire = some s' ∧ ps = e :: ps' ∧ LoopInv s' ts ps' ∧ book s' ps' = book s ps ∧
      s'.runs = s.runs ++ [⟨e, s.ticket e, (s.event e).timeout, s.now⟩] ∧ s'.watch_table = s.watch_table := by
  obtain ⟨ps', rfl⟩ : ∃ ps', ps = e :: ps' := by
    have hfirst := h.phase
    rw [PhaseInv, hphase] at hfirst
    obtain ⟨B, hB⟩ := hfirst
    cases ps with
    | nil =>
      have := (cons.inj hB).1
      cases this
    | cons _ ps' =>
      have := (cons.inj hB).1
      cases this
      exact ⟨ps', rfl⟩
  obtain ⟨y, B, hy⟩ := exists_first ps' Ptr.pending_list
  have hnext : s.links.next (.ev e) = some y := by
    have hring : IsRing s.links .pending_list ([] ++ Ptr.ev e :: ps'.map Ptr.ev) := h.timer.lists.pending
    exact hring.next_eq hy
  obtain ⟨L, hunlink, hlists⟩ := h.timer.lists.unlinkPending
  obtain ⟨he, _⟩ := nodup_cons.1 h.timer.lists.nodup_pending
  have hts : ∀ a ∈ ts, a ≠ e := by
    rintro a ha rfl
    exact h.timer.lists.disjoint a ha mem_cons_self
  have hps : ∀ a ∈ ps', a ≠ e := by
    rintro a ha rfl
    exact he ha
  have hnew : (s.runs ++ [(⟨e, s.ticket e, (s.event e).timeout, s.now⟩ : Run E)]).filterMap Run.ticket =
      s.runs.filterMap Run.ticket ++ (s.ticket e).toList := by
    rw [filterMap_append]
    congr 1
  refine ⟨{ s with
      links := L
      phase := .firing y
      ticket := update s.ticket e none
      runs := s.runs ++ [⟨e, s.ticket e, (s.event e).timeout, s.now⟩] }, ps', ?_, rfl,
    ⟨?_, ⟨hlists, h.timer.sorted, h.timer.normal, h.timer.clock, ?_, ?_, ?_, ?_, ?_, ?_, ?_⟩, B, hy⟩, ?_, rfl, rfl⟩
  · rw [step, hphase]
    dsimp only
    rw [fire, hnext, hunlink]
    rfl
  · exact h.watch.congr rfl rfl rfl (fun _ he => h.watch.index_of_not_watched he) fun _ _ => rfl
  · intro a ha
    obtain ⟨i, hi⟩ := h.timer.ticketed a ha
    exact ⟨i, by rw [← hi]; exact update_of_ne (hts a ha) _ _⟩
  · intro a i hi
    by_cases hae : a = e
    · rw [hae] at hi
      exact absurd ((update_self e none s.ticket).symm.trans hi).symm (some_ne_none i)
    · obtain ⟨hadds, hin, hfd⟩ := h.timer.ticket a i ((update_of_ne hae _ _).symm.trans hi)
      exact ⟨hadds, hin.imp_right fun hin => (mem_cons.1 hin).resolve_left hae, hfd⟩
  · intro a i hi
    by_cases hae : a = e
    · rw [hae] at hi
      exact absurd ((update_self e none s.ticket).symm.trans hi).symm (some_ne_none i)
    have hi' : s.ticket a = some i := (update_of_ne hae _ _).symm.trans hi
    show i ∉ (s.runs ++ _).filterMap Run.ticket
    rw [hnew, mem_append, mem_toList, not_or]
    refine ⟨h.timer.once a i hi', ?_⟩
    -- Two events with the same ticket are the same.
    intro heq
    have hadd := (h.timer.ticket a i hi').1.symm.trans (h.timer.ticket e i heq).1
    exact hae (congrArg Prod.fst (some.inj hadd))
  · intro a ha i hi
    exact h.timer.expired a (mem_cons_of_mem e ha) i ((update_of_ne (hps a ha) _ _).symm.trans hi)
  · intro i a t hi
    show update s.ticket e none a = some i ∨ i ∈ (s.runs ++ _).filterMap Run.ticket
    rw [hnew, mem_append, mem_toList]
    rcases h.timer.added i a t hi with hticket | hran
    · rcases eq_or_ne a e with rfl | hae
      · exact .inr (.inr hticket)
      · rw [update_of_ne hae]
        exact .inl hticket
    · exact .inr (.inl hran)
  · show ((s.runs ++ _).filterMap Run.ticket).Nodup
    rw [hnew]
    refine nodup_append.2 ⟨h.timer.ranOnce, ?_, ?_⟩
    · cases s.ticket e with
      | none => exact nodup_nil
      | some i => exact nodup_singleton i
    · rintro i hi j hj rfl
      exact h.timer.once e i (mem_toList.1 hj) hi
  · intro r hr i hi
    rcases mem_append.1 hr with hr | hr
    · exact h.timer.ran r hr i hi
    · obtain rfl := mem_singleton.1 hr
      exact ⟨(h.timer.ticket e i hi).1, h.timer.expired e mem_cons_self i hi⟩
  have hentry : ∀ a ∈ ps', (a, update s.ticket e none a, (s.event a).timeout) = entry s a := by
    intro a ha
    rw [update_of_ne (hps a ha)]
    rfl
  show (s.runs ++ _).map Run.entry ++ ps'.map (fun a => (a, update s.ticket e none a, (s.event a).timeout)) = _
  rw [map_congr_left hentry, book, map_append, append_assoc, map_cons]
  rfl

/-! ### All steps -/

/-- The events that a step adds to the end of `pending_list`. -/
def newPending (s : RilState E) (ts : List E) : Act E → List E
  | .processTimeouts now => ts.takeWhile (due s.event now)
  | .processReadReadies =>
    match s.phase with
    | .timed rfds _ => readies s rfds
    | _ => []
  | _ => []

theorem loopInv_step (h : LoopInv s ts ps) {a : Act E} (ha : Allowed s a) :
    ∃ s' ts' ps', step s a = some s' ∧ LoopInv s' ts' ps' ∧
      book s' ps' = book s ps ++ (newPending s ts a).map (entry s) ∧ s.runs <+: s'.runs := by
  have hnone : ∀ {s' : RilState E} {ps' : List E}, book s' ps' = book s ps →
      book s' ps' = book s ps ++ ([] : List E).map (entry s) := by
    intro s' ps' heq
    rw [heq, map_nil, append_nil]
  have hphase := h.phase
  rw [PhaseInv] at hphase
  cases a with
  | eventSet =>
    obtain ⟨h', hbook⟩ := eventSet_inv h ha
    exact ⟨_, ts, ps, rfl, h', hnone hbook, prefix_rfl⟩
  | eventAdd e =>
    obtain ⟨i, -, heq⟩ := WatchInv.eventAdd_eq ha
    have hsame : TableOnly s (eventAdd s e) := heq ▸ WatchInv.tableOnly_addAt s e i
    obtain ⟨h', hbook⟩ := loopInv_tableOnly h (h.watch.eventAdd ha).1 hsame
    exact ⟨_, ts, ps, rfl, h', hnone hbook, hsame.runs ▸ prefix_rfl⟩
  | eventDel e =>
    have hsame := WatchInv.tableOnly_eventDel s e
    obtain ⟨h', hbook⟩ := loopInv_tableOnly h (h.watch.eventDel e).1 hsame
    exact ⟨_, ts, ps, rfl, h', hnone hbook, hsame.runs ▸ prefix_rfl⟩
  | timerAdd =>
    obtain ⟨s', ts', hs, h', hbook, hruns, -⟩ := timerAdd_inv h ha
    exact ⟨s', ts', ps, hs, h', hnone hbook, hruns ▸ prefix_rfl⟩
  | copyFds =>
    have hp : s.phase = .waiting := ha
    rw [hp] at hphase
    obtain ⟨h', hbook⟩ := loopInv_phase h (.blocked s.readFds) hphase
    exact ⟨_, ts, ps, by rw [step, hp], h', hnone hbook, prefix_rfl⟩
  | select rfds n =>
    obtain ⟨hn, given, hp, -⟩ := ha
    rw [hp] at hphase
    obtain ⟨h', hbook⟩ := loopInv_phase h (.woken rfds n) ⟨hphase, hn⟩
    exact ⟨_, ts, ps, by rw [step, hp], h', hnone hbook, prefix_rfl⟩
  | interrupted =>
    obtain ⟨_, hp⟩ := ha
    rw [hp] at hphase
    obtain ⟨h', hbook⟩ := loopInv_phase h .waiting hphase
    exact ⟨_, ts, ps, by rw [step, hp], h', hnone hbook, prefix_rfl⟩
  | processTimeouts =>
    obtain ⟨s', hs, h', hbook, hruns, -⟩ := processTimeouts_inv h ha
    exact ⟨s', _, _, hs, h', hbook, hruns ▸ prefix_rfl⟩
  | processReadReadies =>
    obtain ⟨_, n, hp⟩ := ha
    obtain ⟨s', hs, h', hbook, hruns, -⟩ := processReadReadies_inv h hp
    refine ⟨s', ts, _, hs, h', ?_, hruns ▸ prefix_rfl⟩
    rw [newPending, hp]
    exact hbook
  | fire =>
    obtain ⟨e, hp⟩ := ha
    obtain ⟨s', ps', hs, -, h', hbook, hruns, -⟩ := fire_inv h hp
    exact ⟨s', ts, ps', hs, h', hnone hbook, hruns ▸ prefix_append _ _⟩
  | iterated =>
    have hp : s.phase = .firing .pending_list := ha
    rw [hp] at hphase
    obtain ⟨B, hB⟩ := hphase
    have hempty : ps = [] := by
      cases ps with
      | nil => rfl
      | cons =>
        have := (cons.inj hB).1
        cases this
    obtain ⟨h', hbook⟩ := loopInv_phase h .waiting hempty
    exact ⟨_, ts, ps, by rw [step, hp], h', hnone hbook, prefix_rfl⟩

omit [DecidableEq E] in
theorem loopInv_init {event : E → RilEvent} (hindex : ∀ e, (event e).index = -1)
    (hnow : now.Normalised) : LoopInv (.init event now) [] [] := by
  have hw : ∀ e, ¬ Watched (.init event now) e := by
    rintro e ⟨i, hi⟩
    cases hi
  have hnil : ∀ {P : E → Prop}, ∀ a ∈ ([] : List E), P a := nofun
  refine ⟨⟨?_, fun e => Or.inl (hindex e), ?_, fun e he => absurd he (hw e), fun e _ he => absurd he (hw e),
    fun e he => absurd he (hw e)⟩, ⟨⟨isRing_nil.2 ⟨rfl, rfl⟩, isRing_nil.2 ⟨rfl, rfl⟩, hnil, fun e _ _ => ⟨rfl, rfl⟩⟩,
    List.Pairwise.nil, hnil, hnow, hnil, ?_, ?_, hnil, ?_, nodup_nil, ?_⟩, rfl⟩
  · intro i e hi
    cases hi
  · intro fd
    constructor
    · exact fun h => absurd h (Finset.notMem_empty fd)
    · rintro ⟨e, he, -⟩
      exact absurd he (hw e)
  · intro e i hi
    cases hi
  · intro e i hi
    cases hi
  · intro i e t hi
    cases hi
  · exact nofun

theorem loopInv_reachable (h : Reachable s) : ∃ ts ps, LoopInv s ts ps := by
  induction h with
  | init hindex hnow => exact ⟨[], [], loopInv_init hindex hnow⟩
  | step _ ha hs ih =>
    obtain ⟨_, _, h⟩ := ih
    obtain ⟨_, ts', ps', hs', h', -⟩ := loopInv_step h ha
    cases hs.symm.trans hs'
    exact ⟨ts', ps', h'⟩

end G4Common.Ril

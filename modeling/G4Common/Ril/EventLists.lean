/-
What the steps of the event loop do to `timer_list` and `pending_list`.

`TwoLists L ts ps` says that the links `L` are the two lists, with the events `ts` and `ps`.  Each function that
follows links is described by what it does to these: the walks end, no link is missing, and the links that it leaves
are two lists again.
-/
import G4Common.Ril.Event

namespace G4Common.Ril

open List

variable {E : Type*} [DecidableEq E]

/-- The two lists in memory, and no links in the other events. -/
structure TwoLists (L : Links (Ptr E)) (ts ps : List E) : Prop where
  timers : IsRing L .timer_list (ts.map .ev)
  pending : IsRing L .pending_list (ps.map .ev)
  disjoint : ∀ e ∈ ts, e ∉ ps
  free : ∀ e, e ∉ ts → e ∉ ps → L.next (.ev e) = none ∧ L.prev (.ev e) = none

namespace TwoLists

variable {L L' : Links (Ptr E)} {ts ps p q : List E} {e : E} {y : Ptr E} {B : List (Ptr E)}

omit [DecidableEq E] in
theorem mem_map_ev {l : List E} : Ptr.ev e ∈ l.map Ptr.ev ↔ e ∈ l := by
  rw [mem_map]
  constructor
  · rintro ⟨_, he', heq⟩
    cases heq
    exact he'
  · exact fun h => ⟨e, h, rfl⟩

omit [DecidableEq E] in
theorem head_notMem {l : List E} : Ptr.timer_list ∉ l.map Ptr.ev ∧ Ptr.pending_list ∉ l.map Ptr.ev := by
  constructor <;> rw [mem_map] <;> rintro ⟨e, -, heq⟩ <;> cases heq

omit [DecidableEq E] in
theorem nodup_timers (h : TwoLists L ts ps) : ts.Nodup := (nodup_cons.1 h.timers.nodup).2.of_map

omit [DecidableEq E] in
theorem nodup_pending (h : TwoLists L ts ps) : ps.Nodup := (nodup_cons.1 h.pending.nodup).2.of_map

omit [DecidableEq E] in
/-- The links of an event of a list are not `NULL`. -/
theorem next_ne_none (h : TwoLists L ts ps) (he : e ∈ ts ∨ e ∈ ps) : L.next (.ev e) ≠ none := by
  have hring : ∀ {head : Ptr E} {l : List E}, IsRing L head (l.map .ev) → e ∈ l → L.next (.ev e) ≠ none := by
    intro head l hr hmem
    obtain ⟨p, q, rfl⟩ := append_of_mem hmem
    obtain ⟨y, B, hq⟩ : ∃ y B, q.map .ev ++ [head] = y :: B := exists_cons_of_ne_nil (by simp)
    rw [map_append, map_cons] at hr
    rw [hr.next_eq hq]
    exact Option.some_ne_none y
  rcases he with he | he
  · exact hring h.timers he
  · exact hring h.pending he

omit [DecidableEq E] in
theorem free_iff (h : TwoLists L ts ps) : (L.next (.ev e) = none ∧ L.prev (.ev e) = none) ↔ e ∉ ts ∧ e ∉ ps := by
  constructor
  · rintro ⟨hnext, -⟩
    exact ⟨fun he => h.next_ne_none (.inl he) hnext, fun he => h.next_ne_none (.inr he) hnext⟩
  · exact fun he => h.free e he.1 he.2

theorem addTimer (h : TwoLists L (p ++ q) ps) (hts : e ∉ p ++ q) (hps : e ∉ ps)
    (hq : q.map .ev ++ [.timer_list] = y :: B) :
    ∃ L', L.addBefore (.ev e) y = some L' ∧ TwoLists L' (p ++ e :: q) ps := by
  have hring := h.timers
  rw [map_append] at hring
  have hnot : Ptr.ev e ∉ Ptr.timer_list :: (p.map Ptr.ev ++ q.map Ptr.ev) := by
    rw [← map_append, mem_cons, mem_map_ev, not_or]
    exact ⟨(fun h => by cases h), hts⟩
  obtain ⟨L', hadd, hring', hsame⟩ := hring.addBefore hnot hq
  rw [← map_append] at hsame
  refine ⟨L', hadd, ⟨?_, h.pending.congr ?_, ?_, ?_⟩⟩
  · rw [map_append, map_cons]
    exact hring'
  · intro a ha
    refine hsame a ?_
    rw [mem_cons, mem_cons, not_or, not_or]
    rcases mem_cons.1 ha with rfl | ha
    · exact ⟨(fun h => by cases h), (fun h => by cases h), head_notMem.2⟩
    obtain ⟨e', he', rfl⟩ := mem_map.1 ha
    refine ⟨?_, (fun h => by cases h), ?_⟩
    · intro heq
      cases heq
      exact hps he'
    · rw [mem_map_ev]
      exact fun hmem => h.disjoint e' hmem he'
  · intro e' he'
    rw [mem_append, mem_cons, or_left_comm, ← mem_append] at he'
    rcases he' with rfl | he'
    · exact hps
    · exact h.disjoint e' he'
  intro e' hts' hps'
  rw [mem_append, mem_cons, or_left_comm, ← mem_append, not_or] at hts'
  have hkeep := hsame (.ev e') ?_
  · rw [hkeep.1, hkeep.2]
    exact h.free e' hts'.2 hps'
  · rw [mem_cons, mem_cons, mem_map_ev, not_or, not_or]
    exact ⟨fun heq => hts'.1 (by cases heq; rfl), (fun h => by cases h), hts'.2⟩

theorem addPending (h : TwoLists L ts ps) (hts : e ∉ ts) (hps : e ∉ ps) :
    ∃ L', L.addBefore (.ev e) .pending_list = some L' ∧ TwoLists L' ts (ps ++ [e]) := by
  have hring := h.pending
  rw [← append_nil (ps.map Ptr.ev)] at hring
  have hnot : Ptr.ev e ∉ Ptr.pending_list :: (ps.map Ptr.ev ++ []) := by
    rw [append_nil, mem_cons, mem_map_ev, not_or]
    exact ⟨(fun h => by cases h), hps⟩
  obtain ⟨L', hadd, hring', hsame⟩ := hring.addBefore hnot rfl
  rw [append_nil] at hsame
  refine ⟨L', hadd, ⟨h.timers.congr ?_, ?_, ?_, ?_⟩⟩
  · intro a ha
    refine hsame a ?_
    rw [mem_cons, mem_cons, not_or, not_or]
    rcases mem_cons.1 ha with rfl | ha
    · exact ⟨(fun h => by cases h), (fun h => by cases h), head_notMem.1⟩
    obtain ⟨e', he', rfl⟩ := mem_map.1 ha
    refine ⟨?_, (fun h => by cases h), ?_⟩
    · intro heq
      cases heq
      exact hts he'
    · rw [mem_map_ev]
      exact h.disjoint e' he'
  · rw [map_append]
    exact hring'
  · intro e' he'
    rw [mem_append, mem_singleton, not_or]
    refine ⟨h.disjoint e' he', ?_⟩
    rintro rfl
    exact hts he'
  intro e' hts' hps'
  rw [mem_append, mem_singleton, not_or] at hps'
  have hkeep := hsame (.ev e') ?_
  · rw [hkeep.1, hkeep.2]
    exact h.free e' hts' hps'.1
  · rw [mem_cons, mem_cons, mem_map_ev, not_or, not_or]
    exact ⟨fun heq => hps'.2 (by cases heq; rfl), (fun h => by cases h), hps'.1⟩

theorem unlinkTimer (h : TwoLists L (e :: ts) ps) : ∃ L', L.unlink (.ev e) = some L' ∧ TwoLists L' ts ps := by
  have hring : IsRing L .timer_list ([] ++ Ptr.ev e :: ts.map Ptr.ev) := h.timers
  obtain ⟨L', hunlink, hring', hnext, hprev, hsame⟩ := hring.unlink
  have hmem : ∀ a, a ∈ Ptr.timer_list :: ([] ++ Ptr.ev e :: ts.map Ptr.ev) ↔ a = .timer_list ∨ a ∈ (e :: ts).map Ptr.ev :=
    fun a => mem_cons
  refine ⟨L', hunlink, ⟨hring', h.pending.congr ?_, fun e' he' => h.disjoint e' (mem_cons_of_mem e he'), ?_⟩⟩
  · intro a ha
    refine hsame a ?_
    rw [hmem, not_or]
    rcases mem_cons.1 ha with rfl | ha
    · exact ⟨(fun h => by cases h), head_notMem.2⟩
    · obtain ⟨e', he', rfl⟩ := mem_map.1 ha
      rw [mem_map_ev]
      exact ⟨(fun h => by cases h), fun hin => h.disjoint e' hin he'⟩
  intro e' hts' hps'
  by_cases hee : e' = e
  · rw [hee]
    exact ⟨hnext, hprev⟩
  have hout : e' ∉ e :: ts := fun hin => (mem_cons.1 hin).elim hee hts'
  have hkeep := hsame (.ev e') ?_
  · rw [hkeep.1, hkeep.2]
    exact h.free e' hout hps'
  · rw [hmem, mem_map_ev, not_or]
    exact ⟨(fun h => by cases h), hout⟩

theorem unlinkPending (h : TwoLists L ts (e :: ps)) : ∃ L', L.unlink (.ev e) = some L' ∧ TwoLists L' ts ps := by
  have hring : IsRing L .pending_list ([] ++ Ptr.ev e :: ps.map Ptr.ev) := h.pending
  obtain ⟨L', hunlink, hring', hnext, hprev, hsame⟩ := hring.unlink
  have hmem : ∀ a, a ∈ Ptr.pending_list :: ([] ++ Ptr.ev e :: ps.map Ptr.ev) ↔
      a = .pending_list ∨ a ∈ (e :: ps).map Ptr.ev := fun a => mem_cons
  refine ⟨L', hunlink, ⟨h.timers.congr ?_, hring', ?_, ?_⟩⟩
  · intro a ha
    refine hsame a ?_
    rw [hmem, not_or]
    rcases mem_cons.1 ha with rfl | ha
    · exact ⟨(fun h => by cases h), head_notMem.1⟩
    · obtain ⟨e', he', rfl⟩ := mem_map.1 ha
      rw [mem_map_ev]
      exact ⟨(fun h => by cases h), h.disjoint e' he'⟩
  · exact fun e' he' hin => h.disjoint e' he' (mem_cons_of_mem e hin)
  intro e' hts' hps'
  by_cases hee : e' = e
  · rw [hee]
    exact ⟨hnext, hprev⟩
  have hout : e' ∉ e :: ps := fun hin => (mem_cons.1 hin).elim hee hps'
  have hkeep := hsame (.ev e') ?_
  · rw [hkeep.1, hkeep.2]
    exact h.free e' hts' hout
  · rw [hmem, mem_map_ev, not_or]
    exact ⟨(fun h => by cases h), hout⟩

end TwoLists

open TwoLists Function

section Loops

omit [DecidableEq E] in
theorem exists_first (l : List E) (head : Ptr E) : ∃ y B, l.map Ptr.ev ++ [head] = y :: B :=
  exists_cons_of_ne_nil (append_ne_nil_of_right_ne_nil _ (cons_ne_nil _ _))

variable {L : Links (Ptr E)} {ts ps : List E} {event : E → RilEvent}

/-! ### The walk of `ril_timer_add()` -/

theorem sortedPlace_eq (event : E → RilEvent) (timeout : TimeVal) (q p : List E) (hr : IsRing L .timer_list ((p ++ q).map .ev)) {n : ℕ}
    (hn : q.length < n) {y : Ptr E} {B : List (Ptr E)} (hq : q.map .ev ++ [.timer_list] = y :: B) :
    ∃ q1 q2 y' B', q = q1 ++ q2 ∧ (∀ a ∈ q1, (event a).timeout.before timeout) ∧
      (∀ a ∈ q2.head?, (event a).timeout.before timeout = false) ∧ q2.map .ev ++ [.timer_list] = y' :: B' ∧
        sortedPlace L event timeout n y = some y' := by
  induction q generalizing p n y B with
  | nil =>
    obtain ⟨rfl, rfl⟩ := cons.inj hq
    obtain ⟨n, rfl⟩ := Nat.exists_eq_succ_of_ne_zero (Nat.ne_of_gt hn)
    refine ⟨[], [], .timer_list, [], rfl, nofun, nofun, rfl, ?_⟩
    rw [sortedPlace, if_neg fun h => h.2 rfl]
  | cons e q ih =>
    obtain ⟨rfl, rfl⟩ := cons.inj hq
    obtain ⟨n, rfl⟩ := Nat.exists_eq_succ_of_ne_zero (Nat.ne_of_gt (Nat.lt_of_le_of_lt (Nat.zero_le _) hn))
    rw [sortedPlace]
    by_cases hold : (event e).timeout.before timeout = true
    · obtain ⟨y, B, hy⟩ := exists_first q .timer_list
      have hnext : L.next (.ev e) = some y := by
        rw [map_append, map_cons] at hr
        exact hr.next_eq hy
      have hr' : IsRing L .timer_list ((p ++ [e] ++ q).map .ev) := by
        rw [append_assoc]
        exact hr
      obtain ⟨q1, q2, y', B', rfl, hq1, hq2, hy', hplace⟩ := ih (p ++ [e]) hr' (Nat.lt_of_succ_lt_succ hn) hy
      refine ⟨e :: q1, q2, y', B', rfl, ?_, hq2, hy', ?_⟩
      · intro a ha
        rcases mem_cons.1 ha with rfl | ha
        · exact hold
        · exact hq1 a ha
      · rw [if_pos ⟨hold, nofun⟩, hnext]
        exact hplace
    refine ⟨[], e :: q, .ev e, _, rfl, nofun, ?_, rfl, ?_⟩
    · intro a ha
      cases ha
      exact Bool.eq_false_of_not_eq_true hold
    · rw [if_neg fun h => hold h.1]

/-! ### The loop of `processTimeouts()` -/

/-- The timeout of an event lies before a reading of the clock. -/
def due (event : E → RilEvent) (now : TimeVal) (e : E) : Bool := (event e).timeout.before now

theorem expireTimers_eq (h : TwoLists L ts ps) (now : TimeVal) {n : ℕ} (hn : ts.length < n) {y : Ptr E}
    {B : List (Ptr E)} (hy : ts.map .ev ++ [.timer_list] = y :: B) :
    ∃ L', expireTimers event now n y L = some L' ∧
      TwoLists L' (ts.dropWhile (due event now)) (ps ++ ts.takeWhile (due event now)) := by
  induction ts generalizing L ps n y B with
  | nil =>
    obtain ⟨rfl, rfl⟩ := cons.inj hy
    obtain ⟨n, rfl⟩ := Nat.exists_eq_succ_of_ne_zero (Nat.ne_of_gt hn)
    refine ⟨L, ?_, ?_⟩
    · rw [expireTimers, if_neg fun h => h.1 rfl]
    · rw [takeWhile_nil, append_nil]
      exact h
  | cons e ts ih =>
    obtain ⟨rfl, rfl⟩ := cons.inj hy
    obtain ⟨n, rfl⟩ := Nat.exists_eq_succ_of_ne_zero (Nat.ne_of_gt (Nat.lt_of_le_of_lt (Nat.zero_le _) hn))
    rw [expireTimers]
    by_cases hdue : due event now e = true
    · obtain ⟨y, B, hy⟩ := exists_first ts .timer_list
      have hnext : L.next (.ev e) = some y := by
        have hring : IsRing L .timer_list ([] ++ Ptr.ev e :: ts.map Ptr.ev) := h.timers
        exact hring.next_eq hy
      obtain ⟨L1, hunlink, h1⟩ := h.unlinkTimer
      obtain ⟨_, hadd, h2⟩ := h1.addPending (nodup_cons.1 h.nodup_timers).1 (h.disjoint e mem_cons_self)
      obtain ⟨L3, hloop, h3⟩ := ih h2 (Nat.lt_of_succ_lt_succ hn) hy
      refine ⟨L3, ?_, ?_⟩
      · rw [if_pos ⟨nofun, hdue⟩, hnext, hunlink]
        show (L1.addBefore (.ev e) .pending_list).bind _ = _
        rw [hadd]
        exact hloop
      · rw [dropWhile_cons_of_pos hdue, takeWhile_cons_of_pos hdue]
        rw [append_assoc] at h3
        exact h3
    refine ⟨L, ?_, ?_⟩
    · rw [if_neg fun h => hdue h.2]
    · rw [dropWhile_cons_of_neg hdue, takeWhile_cons_of_neg hdue, append_nil]
      exact h

/-! ### The loop of `processReadReadies()` -/

/-- The event of a slot, when its descriptor is ready. -/
def readyAt (rfds : Finset ℤ) (s : RilState E) (i : Fin MAX_FD_EVENTS) : Option E :=
  (s.watch_table i).filter fun rev => (s.event rev).fd ∈ rfds

/-- A slot after its event was marked: an event that does not persist is removed. -/
def leaveSlot (rfds : Finset ℤ) (s : RilState E) (i : Fin MAX_FD_EVENTS) : RilState E :=
  match readyAt rfds s i with
  | none => s
  | some rev => if (s.event rev).persist then s else removeWatch s rev i

omit [DecidableEq E] in
theorem readyAt_eq_some {rfds : Finset ℤ} {s : RilState E} {i : Fin MAX_FD_EVENTS} {e : E} :
    readyAt rfds s i = some e ↔ s.watch_table i = some e ∧ (s.event e).fd ∈ rfds := by
  rw [readyAt, Option.filter_eq_some_iff, decide_eq_true_eq]

theorem event_removeWatch (s : RilState E) (ev : E) (i : Fin MAX_FD_EVENTS) (e : E) :
    ((removeWatch s ev i).event e).fd = (s.event e).fd ∧ ((removeWatch s ev i).event e).persist = (s.event e).persist ∧
      ((removeWatch s ev i).event e).timeout = (s.event e).timeout := by
  show (update s.event ev _ e).fd = _ ∧ (update s.event ev _ e).persist = _ ∧ (update s.event ev _ e).timeout = _
  by_cases he : e = ev
  · rw [he, update_self]
    exact ⟨rfl, rfl, rfl⟩
  · rw [update_of_ne he]
    exact ⟨rfl, rfl, rfl⟩

theorem readyAt_leaveSlot (rfds : Finset ℤ) (s : RilState E) {i j : Fin MAX_FD_EVENTS} (hij : j ≠ i) :
    readyAt rfds (leaveSlot rfds s i) j = readyAt rfds s j := by
  rw [leaveSlot]
  cases hi : readyAt rfds s i with
  | none => rfl
  | some rev =>
    dsimp only
    split
    · rfl
    have htable : (removeWatch s rev i).watch_table j = s.watch_table j := update_of_ne hij _ _
    rw [readyAt, readyAt, htable]
    congr 1
    funext e
    rw [(event_removeWatch s rev i e).1]

omit [DecidableEq E] in
theorem markReadies_zero [DecidableEq E] (rfds : Finset ℤ) (l : List (Fin MAX_FD_EVENTS)) (s : RilState E) :
    markReadies rfds l 0 s = some s := by
  cases l <;> rfl

theorem leaveSlot_links (rfds : Finset ℤ) (s : RilState E) (i : Fin MAX_FD_EVENTS) (L : Links (Ptr E)) :
    leaveSlot rfds { s with links := L } i = { leaveSlot rfds s i with links := L } := by
  have hready : readyAt rfds { s with links := L } i = readyAt rfds s i := rfl
  rw [leaveSlot, leaveSlot, hready]
  cases readyAt rfds s i with
  | none => rfl
  | some =>
    dsimp only
    split <;> rfl

theorem foldl_leaveSlot_links (rfds : Finset ℤ) (l : List (Fin MAX_FD_EVENTS)) (s : RilState E) (L : Links (Ptr E)) :
    l.foldl (leaveSlot rfds) { s with links := L } = { l.foldl (leaveSlot rfds) s with links := L } := by
  induction l generalizing s with
  | nil => rfl
  | cons _ _ ih => rw [foldl_cons, foldl_cons, leaveSlot_links, ih]

theorem markReadies_eq (rfds : Finset ℤ) (l : List (Fin MAX_FD_EVENTS)) (hl : l.Nodup) (n : ℕ) (s : RilState E)
    (h : TwoLists s.links ts ps) (hn : (l.filterMap (readyAt rfds s)).length ≤ n)
    (hnodup : (l.filterMap (readyAt rfds s)).Nodup) (hfree : ∀ e ∈ l.filterMap (readyAt rfds s), e ∉ ts ∧ e ∉ ps) :
    ∃ L', markReadies rfds l n s = some { l.foldl (leaveSlot rfds) s with links := L' } ∧
      TwoLists L' ts (ps ++ l.filterMap (readyAt rfds s)) := by
  induction l generalizing s ps n with
  | nil =>
    rw [filterMap_nil, append_nil]
    exact ⟨s.links, rfl, h⟩
  | cons i l ih =>
    obtain ⟨hi, hl⟩ := nodup_cons.1 hl
    cases hready : readyAt rfds s i with
    | none =>
      rw [filterMap_cons_none hready] at hn hnodup hfree ⊢
      have hleave : leaveSlot rfds s i = s := by rw [leaveSlot, hready]
      have hturn : markReadies rfds (i :: l) n s = markReadies rfds l n s := by
        rw [markReadies]
        split
        · rename_i h0
          rw [h0, markReadies_zero]
        cases htable : s.watch_table i with
        | none => rfl
        | some rev =>
          have hnot : (s.event rev).fd ∉ rfds := by
            intro hmem
            rw [readyAt_eq_some.2 ⟨htable, hmem⟩] at hready
            cases hready
          exact if_neg hnot
      rw [foldl_cons, hleave, hturn]
      exact ih hl n s h hn hnodup hfree
    | some e =>
      rw [filterMap_cons_some hready] at hn hnodup hfree ⊢
      obtain ⟨htable, hfd⟩ := readyAt_eq_some.1 hready
      obtain ⟨hts, hps⟩ := hfree e mem_cons_self
      obtain ⟨he, hnodup⟩ := nodup_cons.1 hnodup
      obtain ⟨n, rfl⟩ := Nat.exists_eq_succ_of_ne_zero (Nat.ne_of_gt (Nat.lt_of_lt_of_le (Nat.succ_pos _) hn))
      obtain ⟨L1, hadd, h1⟩ := h.addPending hts hps
      have hsame : l.filterMap (readyAt rfds (leaveSlot rfds s i)) = l.filterMap (readyAt rfds s) := by
        refine filterMap_congr ?_
        intro j hj
        exact readyAt_leaveSlot rfds s fun hji => hi (hji ▸ hj)
      have hturn : markReadies rfds (i :: l) (n + 1) s =
          markReadies rfds l n { leaveSlot rfds s i with links := L1 } := by
        rw [markReadies, if_neg (Nat.succ_ne_zero n), htable, leaveSlot, hready]
        dsimp only
        rw [if_pos hfd, hadd]
        show markReadies rfds l n (if (s.event e).persist = true then _ else _) = _
        split <;> rfl
      rw [← hsame] at hn hnodup
      have hfree' : ∀ e' ∈ l.filterMap (readyAt rfds (leaveSlot rfds s i)), e' ∉ ts ∧ e' ∉ ps ++ [e] := by
        intro e' he'
        rw [hsame] at he'
        rw [mem_append, mem_singleton, not_or]
        refine ⟨(hfree e' (mem_cons_of_mem e he')).1, (hfree e' (mem_cons_of_mem e he')).2, ?_⟩
        rintro rfl
        exact he he'
      obtain ⟨L', hloop, h'⟩ := ih hl n { leaveSlot rfds s i with links := L1 } h1 (Nat.le_of_succ_le_succ hn) hnodup
        hfree'
      refine ⟨L', ?_, ?_⟩
      · rw [hturn, hloop, foldl_cons, foldl_leaveSlot_links]
      · rw [append_assoc] at h'
        rw [← hsame]
        exact h'

end Loops

end G4Common.Ril

/-
The watch table of the event loop: the slots, the indices in the events, `readFds` and `nfds` agree with each other.
-/
import G4Common.Ril.EventLists

namespace G4Common.Ril

open Function List Option

variable {E : Type*} [DecidableEq E]

/-- The table, the indices, `readFds` and `nfds` belong together. -/
structure WatchInv (s : RilState E) : Prop where
  index : ∀ i e, s.watch_table i = some e → (s.event e).index = (i : ℕ)
  watched : ∀ e, (s.event e).index = -1 ∨ Watched s e
  fds : ∀ fd, fd ∈ s.readFds ↔ ∃ e, Watched s e ∧ (s.event e).fd = fd
  nonneg : ∀ e, Watched s e → 0 ≤ (s.event e).fd
  distinct : ∀ e e', Watched s e → Watched s e' → (s.event e).fd = (s.event e').fd → e = e'
  nfds : ∀ e, Watched s e → (s.event e).fd < s.nfds

variable {s s' : RilState E} {e e' : E} {i j : Fin MAX_FD_EVENTS}

/-- Nothing but the table changes, and the indices of events. -/
structure TableOnly (s s' : RilState E) : Prop where
  links : s'.links = s.links
  phase : s'.phase = s.phase
  now : s'.now = s.now
  adds : s'.adds = s.adds
  ticket : s'.ticket = s.ticket
  runs : s'.runs = s.runs
  event : ∀ e, (s'.event e).fd = (s.event e).fd ∧ (s'.event e).persist = (s.event e).persist ∧
    (s'.event e).timeout = (s.event e).timeout

omit [DecidableEq E] in
theorem TableOnly.refl (s : RilState E) : TableOnly s s := ⟨rfl, rfl, rfl, rfl, rfl, rfl, fun _ => ⟨rfl, rfl, rfl⟩⟩

omit [DecidableEq E] in
theorem TableOnly.trans {s'' : RilState E} (h : TableOnly s s') (h' : TableOnly s' s'') : TableOnly s s'' := by
  refine ⟨h'.links.trans h.links, h'.phase.trans h.phase, h'.now.trans h.now, h'.adds.trans h.adds,
    h'.ticket.trans h.ticket, h'.runs.trans h.runs, ?_⟩
  intro e
  obtain ⟨hfd, hpersist, htimeout⟩ := h'.event e
  rw [hfd, hpersist, htimeout]
  exact h.event e

namespace WatchInv

omit [DecidableEq E] in
/-- An event has one slot. -/
theorem slot_unique (h : WatchInv s) (hi : s.watch_table i = some e) (hj : s.watch_table j = some e) : i = j := by
  have heq := (h.index i e hi).symm.trans (h.index j e hj)
  exact Fin.ext (by exact_mod_cast heq)

omit [DecidableEq E] in
theorem index_of_not_watched (h : WatchInv s) (he : ¬ Watched s e) : (s.event e).index = -1 :=
  (h.watched e).resolve_right he

omit [DecidableEq E] in
/-- The table does not depend on the fields of other events. -/
theorem congr (h : WatchInv s) (htable : s'.watch_table = s.watch_table) (hreadFds : s'.readFds = s.readFds)
    (hnfds : s'.nfds = s.nfds) (hindex : ∀ e, ¬ Watched s e → (s'.event e).index = -1)
    (hevent : ∀ e, Watched s e → s'.event e = s.event e) : WatchInv s' := by
  have hw : ∀ e, Watched s' e ↔ Watched s e := by
    intro e
    rw [Watched, Watched, htable]
  refine ⟨?_, ?_, ?_, ?_, ?_, ?_⟩
  · intro i e hi
    rw [htable] at hi
    rw [hevent e ⟨i, hi⟩]
    exact h.index i e hi
  · intro e
    rw [hw]
    by_cases he : Watched s e
    · exact .inr he
    · exact .inl (hindex e he)
  · intro _
    rw [hreadFds, h.fds]
    refine exists_congr fun e => ?_
    rw [hw]
    exact and_congr_right fun he => by rw [hevent e he]
  · intro e he
    rw [hevent e ((hw e).1 he)]
    exact h.nonneg e ((hw e).1 he)
  · intro e e' he he' heq
    rw [hevent e ((hw e).1 he), hevent e' ((hw e').1 he')] at heq
    exact h.distinct e e' ((hw e).1 he) ((hw e').1 he') heq
  · intro e he
    rw [hnfds, hevent e ((hw e).1 he)]
    exact h.nfds e ((hw e).1 he)

/-! ### Removing an event -/

omit [DecidableEq E] in
/-- The loop over the table finds a bound for the descriptors of its slots. -/
theorem lt_recalcNfds (event : E → RilEvent) {watch_table : Fin MAX_FD_EVENTS → Option E}
    (hi : watch_table i = some e) : (event e).fd < recalcNfds event watch_table := by
  have hfold : ∀ (l : List (Fin MAX_FD_EVENTS)) (n : ℤ), n ≤ l.foldl (maxFd event watch_table) n ∧
      (i ∈ l → (event e).fd ≤ l.foldl (maxFd event watch_table) n) := by
    intro l
    induction l with
    | nil => exact fun n => ⟨Int.le_refl n, nofun⟩
    | cons j l ih =>
      intro n
      obtain ⟨hn, hrest⟩ := ih (maxFd event watch_table n j)
      have hle : n ≤ maxFd event watch_table n j := by
        rw [maxFd]
        split
        · exact Int.le_refl n
        · split <;> omega
      rw [foldl_cons]
      refine ⟨Int.le_trans hle hn, ?_⟩
      intro hmem
      rcases mem_cons.1 hmem with rfl | hmem
      · refine Int.le_trans ?_ hn
        rw [maxFd, hi]
        dsimp only
        split <;> omega
      · exact hrest hmem
  rw [recalcNfds]
  exact Int.lt_add_one_of_le ((hfold (finRange MAX_FD_EVENTS) 0).2 (mem_finRange i))

theorem watched_removeWatch (h : WatchInv s) (hi : s.watch_table i = some e) :
    Watched (removeWatch s e i) e' ↔ Watched s e' ∧ e' ≠ e := by
  have htable : (removeWatch s e i).watch_table = update s.watch_table i none := rfl
  rw [Watched, htable]
  constructor
  · rintro ⟨j, hj⟩
    have hji : j ≠ i := by
      rintro rfl
      rw [update_self] at hj
      cases hj
    rw [update_of_ne hji] at hj
    refine ⟨⟨j, hj⟩, ?_⟩
    rintro rfl
    exact hji (h.slot_unique hj hi)
  rintro ⟨⟨j, hj⟩, hne⟩
  have hji : j ≠ i := by
    rintro rfl
    rw [hi] at hj
    exact hne (some.inj hj).symm
  exact ⟨j, by rw [update_of_ne hji]; exact hj⟩

theorem removeWatch (h : WatchInv s) (hi : s.watch_table i = some e) : WatchInv (removeWatch s e i) := by
  have hevent : ∀ e', e' ≠ e → (Ril.removeWatch s e i).event e' = s.event e' :=
    fun e' hne => update_of_ne hne _ _
  have hself : (Ril.removeWatch s e i).event e = { s.event e with index := -1 } := update_self _ _ _
  have htable : (Ril.removeWatch s e i).watch_table = update s.watch_table i none := rfl
  refine ⟨?_, ?_, ?_, ?_, ?_, ?_⟩
  · intro j e' hj
    obtain ⟨⟨k, _⟩, hne⟩ := (h.watched_removeWatch hi).1 ⟨j, hj⟩
    rw [hevent e' hne]
    refine h.index j e' ?_
    by_cases hji : j = i
    · rw [htable, hji, update_self] at hj
      cases hj
    · rw [htable, update_of_ne hji] at hj
      exact hj
  · intro e'
    rw [h.watched_removeWatch hi]
    by_cases hne : e' = e
    · rw [hne, hself]
      exact .inl rfl
    · rw [hevent e' hne]
      exact (h.watched e').imp id fun hw => ⟨hw, hne⟩
  · intro _
    have hfd : (Ril.removeWatch s e i).readFds = s.readFds.erase (s.event e).fd := by
      rw [Ril.removeWatch, update_self]
    rw [hfd, Finset.mem_erase, h.fds]
    constructor
    · rintro ⟨hne, e', hw, rfl⟩
      have hee : e' ≠ e := fun hee => hne (by rw [hee])
      exact ⟨e', (h.watched_removeWatch hi).2 ⟨hw, hee⟩, by rw [hevent e' hee]⟩
    rintro ⟨e', hw, rfl⟩
    obtain ⟨hw, hee⟩ := (h.watched_removeWatch hi).1 hw
    rw [hevent e' hee]
    exact ⟨fun heq => hee (h.distinct e' e hw ⟨i, hi⟩ heq), e', hw, rfl⟩
  · intro e' hw
    obtain ⟨hw, hee⟩ := (h.watched_removeWatch hi).1 hw
    rw [hevent e' hee]
    exact h.nonneg e' hw
  · intro e1 e2 h1 h2 heq
    obtain ⟨h1, hne1⟩ := (h.watched_removeWatch hi).1 h1
    obtain ⟨h2, hne2⟩ := (h.watched_removeWatch hi).1 h2
    rw [hevent e1 hne1, hevent e2 hne2] at heq
    exact h.distinct e1 e2 h1 h2 heq
  intro e' hw
  have hw' := (h.watched_removeWatch hi).1 hw
  obtain ⟨j, hj⟩ := hw
  show ((Ril.removeWatch s e i).event e').fd < if _ then recalcNfds _ _ else s.nfds
  split
  · exact lt_recalcNfds _ hj
  · rw [hevent e' hw'.2]
    exact h.nfds e' hw'.1

/-! ### The calls -/

theorem eventDel (h : WatchInv s) (e : E) : WatchInv (eventDel s e) ∧
    ∀ e', Watched (Ril.eventDel s e) e' ↔ Watched s e' ∧ e' ≠ e := by
  rw [Ril.eventDel]
  split
  · rename_i hindex
    obtain ⟨i, hi⟩ := (h.watched e).resolve_left (by omega)
    have hslot : (⟨(s.event e).index.toNat, (Int.toNat_lt hindex.1).2 hindex.2⟩ : Fin MAX_FD_EVENTS) = i := by
      refine Fin.ext ?_
      show (s.event e).index.toNat = i
      rw [h.index i e hi]
      exact Int.toNat_natCast _
    rw [hslot]
    exact ⟨h.removeWatch hi, fun e' => h.watched_removeWatch hi⟩
  rename_i hindex
  refine ⟨h, fun e' => ⟨fun hw => ⟨hw, ?_⟩, fun hw => hw.1⟩⟩
  rintro rfl
  obtain ⟨i, hi⟩ := hw
  have := h.index i e' hi
  have := i.isLt
  omega

/-- `ril_event_add()` with a slot that is free. -/
def addAt (s : RilState E) (e : E) (i : Fin MAX_FD_EVENTS) : RilState E :=
  { s with
    watch_table := update s.watch_table i (some e)
    event := update s.event e { s.event e with index := (i : ℕ) }
    readFds := insert (s.event e).fd s.readFds
    nfds := if s.nfds ≤ (s.event e).fd then (s.event e).fd + 1 else s.nfds }

theorem watched_addAt (hi : s.watch_table i = none) : Watched (addAt s e i) e' ↔ Watched s e' ∨ e' = e := by
  have htable : (addAt s e i).watch_table = update s.watch_table i (some e) := rfl
  rw [Watched, htable]
  constructor
  · rintro ⟨j, hj⟩
    by_cases hji : j = i
    · rw [hji, update_self] at hj
      exact .inr (some.inj hj).symm
    · rw [update_of_ne hji] at hj
      exact .inl ⟨j, hj⟩
  rintro (⟨j, hj⟩ | rfl)
  · have hji : j ≠ i := by
      rintro rfl
      rw [hi] at hj
      cases hj
    exact ⟨j, by rw [update_of_ne hji]; exact hj⟩
  · exact ⟨i, update_self _ _ _⟩

theorem addAt_inv (h : WatchInv s) (hnot : ¬ Watched s e) (hpos : 0 ≤ (s.event e).fd)
    (hdistinct : ∀ e', Watched s e' → (s.event e').fd ≠ (s.event e).fd) (hi : s.watch_table i = none) :
    WatchInv (addAt s e i) := by
  have htable : (addAt s e i).watch_table = update s.watch_table i (some e) := rfl
  have hreadFds : (addAt s e i).readFds = insert (s.event e).fd s.readFds := rfl
  have hnfds : s.nfds ≤ (addAt s e i).nfds ∧ (s.event e).fd < (addAt s e i).nfds := by
    have hdef : (addAt s e i).nfds = if s.nfds ≤ (s.event e).fd then (s.event e).fd + 1 else s.nfds := rfl
    rw [hdef]
    split <;> constructor <;> omega
  have hevent : ∀ e', e' ≠ e → (addAt s e i).event e' = s.event e' := fun e' hne => update_of_ne hne _ _
  have hself : (addAt s e i).event e = { s.event e with index := (i : ℕ) } := update_self _ _ _
  have hfd : ∀ e', ((addAt s e i).event e').fd = (s.event e').fd := by
    intro e'
    by_cases hee : e' = e
    · rw [hee, hself]
    · rw [hevent e' hee]
  have hne : ∀ e', Watched s e' → e' ≠ e := fun e' hw hee => hnot (hee ▸ hw)
  refine ⟨?_, ?_, ?_, ?_, ?_, ?_⟩
  · intro j e' hj
    by_cases hji : j = i
    · rw [htable, hji, update_self] at hj
      cases hj
      rw [hself, hji]
    · rw [htable, update_of_ne hji] at hj
      rw [hevent e' (hne e' ⟨j, hj⟩)]
      exact h.index j e' hj
  · intro e'
    rw [watched_addAt hi]
    by_cases hee : e' = e
    · exact .inr (.inr hee)
    · rw [hevent e' hee]
      exact (h.watched e').imp id Or.inl
  · intro _
    rw [hreadFds, Finset.mem_insert, h.fds]
    constructor
    · rintro (rfl | ⟨e', hw, rfl⟩)
      · exact ⟨e, (watched_addAt hi).2 (.inr rfl), hfd e⟩
      · exact ⟨e', (watched_addAt hi).2 (.inl hw), hfd e'⟩
    rintro ⟨e', hw, rfl⟩
    rw [hfd]
    rcases (watched_addAt hi).1 hw with hw | rfl
    · exact .inr ⟨e', hw, rfl⟩
    · exact .inl rfl
  · intro e' hw
    rw [hfd]
    rcases (watched_addAt hi).1 hw with hw | rfl
    · exact h.nonneg e' hw
    · exact hpos
  · intro e1 e2 h1 h2 heq
    rw [hfd, hfd] at heq
    rcases (watched_addAt hi).1 h1 with hw1 | rfl
    · rcases (watched_addAt hi).1 h2 with hw2 | rfl
      · exact h.distinct e1 e2 hw1 hw2 heq
      · exact absurd heq (hdistinct e1 hw1)
    · rcases (watched_addAt hi).1 h2 with hw2 | rfl
      · exact absurd heq.symm (hdistinct e2 hw2)
      · rfl
  intro e' hw
  rw [hfd]
  rcases (watched_addAt hi).1 hw with hw | rfl
  · exact Int.lt_of_lt_of_le (h.nfds e' hw) hnfds.1
  · exact hnfds.2

theorem eventAdd_eq (ha : Allowed s (.eventAdd e)) : ∃ i, s.watch_table i = none ∧ Ril.eventAdd s e = addAt s e i := by
  obtain ⟨-, -, -, j, hj⟩ := ha
  rw [Ril.eventAdd]
  cases hfind : (finRange MAX_FD_EVENTS).find? fun i => (s.watch_table i).isNone with
  | none =>
    have hfull := find?_eq_none.1 hfind j (mem_finRange j)
    rw [hj] at hfull
    exact absurd rfl hfull
  | some i =>
    have hnone := find?_some hfind
    exact ⟨i, isNone_iff_eq_none.1 hnone, rfl⟩

theorem eventAdd (h : WatchInv s) (ha : Allowed s (.eventAdd e)) : WatchInv (eventAdd s e) ∧
    ∀ e', Watched (Ril.eventAdd s e) e' ↔ Watched s e' ∨ e' = e := by
  obtain ⟨i, hi, heq⟩ := eventAdd_eq ha
  rw [heq]
  exact ⟨h.addAt_inv ha.1 ha.2.1 ha.2.2.1 hi, fun e' => watched_addAt hi⟩

/-! ### The slots that fire -/

theorem tableOnly_removeWatch (s : RilState E) (e : E) (i : Fin MAX_FD_EVENTS) : TableOnly s (Ril.removeWatch s e i) :=
  ⟨rfl, rfl, rfl, rfl, rfl, rfl, event_removeWatch s e i⟩

theorem tableOnly_eventDel (s : RilState E) (e : E) : TableOnly s (Ril.eventDel s e) := by
  rw [Ril.eventDel]
  split
  · exact tableOnly_removeWatch _ _ _
  · exact TableOnly.refl s

theorem tableOnly_addAt (s : RilState E) (e : E) (i : Fin MAX_FD_EVENTS) : TableOnly s (addAt s e i) := by
  refine ⟨rfl, rfl, rfl, rfl, rfl, rfl, ?_⟩
  intro e'
  show (update s.event e _ e').fd = _ ∧ (update s.event e _ e').persist = _ ∧ (update s.event e _ e').timeout = _
  by_cases he : e' = e
  · rw [he, update_self]
    exact ⟨rfl, rfl, rfl⟩
  · rw [update_of_ne he]
    exact ⟨rfl, rfl, rfl⟩

theorem leaveSlot (h : WatchInv s) (rfds : Finset ℤ) (i : Fin MAX_FD_EVENTS) :
    WatchInv (leaveSlot rfds s i) ∧ TableOnly s (Ril.leaveSlot rfds s i) ∧
      ∀ e, Watched (Ril.leaveSlot rfds s i) e ↔
        Watched s e ∧ ¬ (readyAt rfds s i = some e ∧ (s.event e).persist = false) := by
  rw [Ril.leaveSlot]
  cases hready : readyAt rfds s i with
  | none =>
    refine ⟨h, TableOnly.refl s, fun e => (and_iff_left ?_).symm⟩
    rintro ⟨heq, -⟩
    cases heq
  | some rev =>
    dsimp only
    by_cases hpersist : (s.event rev).persist = true
    · rw [if_pos hpersist]
      refine ⟨h, TableOnly.refl s, fun e => (and_iff_left ?_).symm⟩
      rintro ⟨heq, hfalse⟩
      cases heq
      rw [hpersist] at hfalse
      cases hfalse
    rw [if_neg hpersist]
    have hi := (readyAt_eq_some.1 hready).1
    refine ⟨h.removeWatch hi, tableOnly_removeWatch s rev i, ?_⟩
    intro e
    rw [h.watched_removeWatch hi]
    refine and_congr_right fun _ => not_congr ⟨?_, fun heq => (some.inj heq.1).symm⟩
    rintro rfl
    exact ⟨rfl, Bool.eq_false_of_not_eq_true hpersist⟩

theorem foldl_leaveSlot (h : WatchInv s) (rfds : Finset ℤ) (l : List (Fin MAX_FD_EVENTS)) (hl : l.Nodup) :
    WatchInv (l.foldl (Ril.leaveSlot rfds) s) ∧ TableOnly s (l.foldl (Ril.leaveSlot rfds) s) ∧
      ∀ e, Watched (l.foldl (Ril.leaveSlot rfds) s) e ↔
        Watched s e ∧ ¬ ∃ i ∈ l, readyAt rfds s i = some e ∧ (s.event e).persist = false := by
  induction l generalizing s with
  | nil =>
    refine ⟨h, TableOnly.refl s, fun e => (and_iff_left ?_).symm⟩
    rintro ⟨i, hi, -⟩
    exact nomatch hi
  | cons i l ih =>
    obtain ⟨hi, hl⟩ := nodup_cons.1 hl
    obtain ⟨h1, hsame1, hw1⟩ := h.leaveSlot rfds i
    obtain ⟨h2, hsame2, hw2⟩ := ih h1 hl
    refine ⟨h2, hsame1.trans hsame2, ?_⟩
    intro e
    rw [foldl_cons, hw2, hw1, and_assoc, exists_mem_cons_iff, ← not_or, (hsame1.event e).2.1]
    refine and_congr_right fun _ => not_congr (or_congr_right (exists_congr fun j => and_congr_right fun hj => ?_))
    have hji : j ≠ i := by
      rintro rfl
      exact hi hj
    rw [readyAt_leaveSlot rfds s hji]

end WatchInv

end G4Common.Ril

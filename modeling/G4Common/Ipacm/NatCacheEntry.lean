/-
`NatApp::CacheEntry()` and the power save path of `NatApp::AddEntry()`.

Both look for a free slot of the cache with the same loop.  `AddEntry()` starts it at slot 0.
`CacheEntry()` starts it at a local variable that it does not initialise
(`cacheEntryFrom`; `cacheEntry` is the case that it starts at 0).  From a negative index it
reads outside the cache, from an index behind the end it writes there, and from an index in
between it misses the free slots before.  It also takes connections on ALG ports, which
`AddEntry()` refuses.

The two agree if and only if the connection is a duplicate, or the index is within the cache
and no slot is free, or there is a free slot from the index on and no ALG port
(`cacheEntry_agrees_iff`).
-/
import G4Common.Ipacm.NatBook

namespace G4Common.Ipacm

open List

/-! ### The search -/

/-- The loop of `CacheEntry()`, for the index `cnt` and `n` more turns; `none` if it reads
outside the cache. -/
def searchFree (cache : List NatTableEntry) : ℕ → ℤ → Option ℤ
  | 0, cnt => some cnt
  | n + 1, cnt =>
    if cnt < 0 then none
    else do
      let slot ← cache[cnt.toNat]?
      if slot.isFree then some cnt else searchFree cache n (cnt + 1)

variable {σ : Type}

/-- `CacheEntry()`, with the index of its search as it finds it; `none` if it reads or writes
outside the cache. -/
def cacheEntryFrom (cnt : ℤ) (rule : NatTableEntry) (s : AppState σ) : Option (AppState σ) :=
  if rule.isInvalid then some s
  else if s.app.chkForDup rule then some s
  else do
    let cnt ← searchFree s.app.cache (s.app.maxEntries - cnt).toNat cnt
    if cnt = s.app.maxEntries then some s
    else do
      let slot ← s.app.cache[cnt.toNat]?
      some { s with app := { s.app with
        cache := s.app.cache.set cnt.toNat (fillSlot rule false 0 slot)
        curCnt := s.app.curCnt + 1 } }

section

variable {cache l1 l2 : List NatTableEntry} {rule slot : NatTableEntry}

theorem searchFree_eq (n c : ℕ) (hc : c + n = cache.length) :
    searchFree cache n c = some ((c + (cache.drop c).findIdx NatTableEntry.isFree : ℕ) : ℤ) := by
  induction n generalizing c with
  | zero =>
    rw [drop_eq_nil_of_le (by omega)]
    rfl
  | succ n ih =>
    have hlt : c < cache.length := by omega
    have hpos : ¬ (c : ℤ) < 0 := by omega
    rw [searchFree, if_neg hpos, Int.toNat_natCast, getElem?_eq_getElem hlt,
      drop_eq_getElem_cons hlt, findIdx_cons]
    show (if cache[c].isFree = true then some (c : ℤ) else searchFree cache n (c + 1)) = _
    by_cases hfree : cache[c].isFree = true
    · rw [if_pos hfree, hfree]
      rfl
    have hrec := ih (c + 1) (by omega)
    rw [Int.natCast_succ] at hrec
    have hno : cache[c].isFree = false := Bool.not_eq_true _ ▸ hfree
    rw [if_neg hfree, hrec, hno]
    simp only [cond_false]
    congr 2
    omega

/-! ### The connections in the cache -/

/-- The tuples of the connections in the cache. -/
def cachedTuples (cache : List NatTableEntry) : Set NatTuple :=
  {t | ∃ e ∈ cache, e.isFree = false ∧ e.tuple = t}

theorem cachedTuples_fill (hvalid : rule.isInvalid = false) (hfree : slot.isFree) (enabled : Bool) (ruleHdl : UInt32) :
    cachedTuples (l1 ++ fillSlot rule enabled ruleHdl slot :: l2)
      = insert rule.tuple (cachedTuples (l1 ++ slot :: l2)) := by
  have hnew := isFree_of_valid hvalid
  ext t
  simp only [cachedTuples, mem_append, mem_cons, Set.mem_ofPred_eq, Set.mem_insert_iff]
  constructor
  · rintro ⟨e, he | rfl | he, hused, rfl⟩
    · exact .inr ⟨e, Or.inl he, hused, rfl⟩
    · exact .inl rfl
    · exact .inr ⟨e, Or.inr (.inr he), hused, rfl⟩
  rintro (rfl | ⟨e, he | rfl | he, hused, rfl⟩)
  · exact ⟨_, Or.inr (.inl rfl), hnew, rfl⟩
  · exact ⟨e, Or.inl he, hused, rfl⟩
  · exact nomatch hfree.symm.trans hused
  · exact ⟨e, Or.inr (.inr he), hused, rfl⟩

end

/-! ### The power save path -/

/-- `AddEntry()` takes the power save path for the rule: there is a table, and one of its
clients is in power save. -/
structure Asleep (app : NatApp) (rule : NatTableEntry) : Prop where
  table : app.natTableHdl ≠ 0
  sleep : app.isPwrSaveIf rule.privateIp = true ∨ app.isPwrSaveIf rule.targetIp = true

/-- One side of the rule is an ALG port. -/
def OnAlgPort (app : NatApp) (rule : NatTableEntry) : Prop :=
  app.isAlgPort rule.protocol rule.privatePort = true ∨
    app.isAlgPort rule.protocol rule.targetPort = true

section

variable {d : NatDriver σ} {rule : NatTableEntry} {t : AppState σ}

/-- `AddEntry()` changes nothing for a rule on an ALG port, for a duplicate, and if no slot is
free. -/
theorem addEntry_refused (h : OnAlgPort t.app rule ∨ t.app.chkForDup rule ∨
    ∀ e ∈ t.app.cache, e.isFree = false) : (addEntry d rule t).2 = t := by
  unfold addEntry
  by_cases hhdl : t.app.natTableHdl = 0
  · rw [if_pos hhdl]
  by_cases halg : OnAlgPort t.app rule
  · unfold OnAlgPort at halg
    rw [if_neg hhdl, if_pos halg]
  unfold OnAlgPort at halg
  by_cases hvalid : rule.isInvalid = true
  · rw [if_neg hhdl, if_neg halg, if_pos hvalid]
  by_cases hdup : t.app.chkForDup rule = true
  · rw [if_neg hhdl, if_neg halg, if_neg hvalid, if_pos hdup]
  have hfull : ∀ e ∈ t.app.cache, e.isFree = false := (h.resolve_left halg).resolve_left hdup
  rw [if_neg hhdl, if_neg halg, if_neg hvalid, if_neg hdup, updateFirst_eq_none.mpr hfull]

/-- On the power save path a connection that is neither invalid nor a duplicate is stored in a
free slot. -/
theorem addEntry_asleep (hsleep : Asleep t.app rule) (halg : ¬ OnAlgPort t.app rule)
    (hvalid : rule.isInvalid = false) (hdup : t.app.chkForDup rule = false) (hfree : ∃ e ∈ t.app.cache, e.isFree) :
    ∃ l1 slot l2, t.app.cache = l1 ++ slot :: l2 ∧ slot.isFree ∧
      (addEntry d rule t).2.app.cache = l1 ++ fillSlot rule false 0 slot :: l2 := by
  have hstore : ∀ slot, storeEntry d rule t slot = ((0, t.drv), fillSlot rule false 0 slot) := by
    intro slot
    unfold storeEntry
    rw [if_pos hsleep.sleep]
  unfold addEntry
  unfold OnAlgPort at halg
  rw [if_neg hsleep.table, if_neg halg, hvalid, hdup, if_neg (by decide), if_neg (by decide)]
  cases hfind : updateFirst NatTableEntry.isFree (storeEntry d rule t) t.app.cache with
  | none =>
    obtain ⟨e, he, hf⟩ := hfree
    have hno := updateFirst_eq_none.mp hfind e he
    exact nomatch hf.symm.trans hno
  | some r =>
    obtain ⟨⟨_, _⟩, _⟩ := r
    obtain ⟨l1, slot, l2, hl, -, hslot, hret, rfl⟩ := updateFirst_eq_some.mp hfind
    rw [hstore] at hret
    obtain ⟨rfl, rfl⟩ := Prod.mk.inj hret
    refine ⟨l1, slot, l2, hl, hslot, ?_⟩
    rw [hstore]
    rfl

end

/-! ### Agreement -/

/-- The rule is stored in a slot that was free, and the other slots stay. -/
def StoredIn (rule : NatTableEntry) (s s' : AppState σ) : Prop :=
  ∃ l1 slot l2, s.app.cache = l1 ++ slot :: l2 ∧ slot.isFree = true ∧
    s'.app.cache = l1 ++ fillSlot rule false 0 slot :: l2

/-- `CacheEntry()` stays within the cache, stores the rule in a free slot if it is not a
duplicate and there is one, changes nothing if not, and leaves the connections that
`AddEntry()` would leave for a client in power save. -/
def Agrees (d : NatDriver σ) (cnt : ℤ) (rule : NatTableEntry) (s : AppState σ) : Prop :=
  ∃ s', cacheEntryFrom cnt rule s = some s' ∧
    (s.app.chkForDup rule = false ∧ (∃ e ∈ s.app.cache, e.isFree = true) → StoredIn rule s s') ∧
    (s.app.chkForDup rule = true ∨ (∀ e ∈ s.app.cache, e.isFree = false) → s' = s) ∧
    ∀ t : AppState σ, t.app.cache = s.app.cache → t.app.algPorts = s.app.algPorts →
      Asleep t.app rule → cachedTuples s'.app.cache = cachedTuples (addEntry d rule t).2.app.cache

/-- The rule is a duplicate, or the index is within the cache and no slot is free, or there is a
free slot from the index on and no ALG port. -/
def SearchOk (cnt : ℤ) (rule : NatTableEntry) (s : AppState σ) : Prop :=
  s.app.chkForDup rule = true ∨ 0 ≤ cnt ∧ cnt ≤ s.app.maxEntries ∧
    ((∀ e ∈ s.app.cache, e.isFree = false) ∨
      (∃ e ∈ s.app.cache.drop cnt.toNat, e.isFree = true) ∧ ¬ OnAlgPort s.app rule)

section

variable {d : NatDriver σ} {rule : NatTableEntry} {s t : AppState σ} {cnt : ℤ}

theorem cacheEntryFrom_dup (hdup : s.app.chkForDup rule) : cacheEntryFrom cnt rule s = some s := by
  unfold cacheEntryFrom
  by_cases hvalid : rule.isInvalid = true
  · rw [if_pos hvalid]
  · rw [if_neg hvalid, if_pos hdup]

theorem cacheEntryFrom_outside (hvalid : rule.isInvalid = false)
    (hdup : s.app.chkForDup rule = false) (hcnt : cnt < 0 ∨ (s.app.maxEntries : ℤ) < cnt) :
    cacheEntryFrom cnt rule s = none := by
  unfold cacheEntryFrom
  rw [hvalid, hdup, if_neg (by decide), if_neg (by decide)]
  rcases hcnt with hneg | hbig
  · obtain ⟨n, hn⟩ : ∃ n, ((s.app.maxEntries : ℤ) - cnt).toNat = n + 1 :=
      ⟨((s.app.maxEntries : ℤ) - cnt).toNat - 1, by omega⟩
    rw [hn, searchFree, if_pos hneg]
    rfl
  have hn : ((s.app.maxEntries : ℤ) - cnt).toNat = 0 := by omega
  have hout : s.app.cache[cnt.toNat]? = none := by
    rw [getElem?_eq_none_iff]
    unfold NatApp.maxEntries at hbig
    omega
  rw [hn, searchFree]
  show (if cnt = s.app.maxEntries then some s else _) = none
  rw [if_neg hbig.ne', hout]
  rfl

theorem cacheEntryFrom_within (hvalid : rule.isInvalid = false)
    (hdup : s.app.chkForDup rule = false) (c : ℕ) (hc : c ≤ s.app.maxEntries) :
    (∀ e ∈ s.app.cache.drop c, e.isFree = false) ∧ cacheEntryFrom c rule s = some s ∨
    ∃ l1 slot l2, s.app.cache = l1 ++ slot :: l2 ∧ c ≤ l1.length ∧
      (∀ e ∈ l1.drop c, e.isFree = false) ∧ slot.isFree ∧
      cacheEntryFrom c rule s = some { s with app := { s.app with
        cache := l1 ++ fillSlot rule false 0 slot :: l2, curCnt := s.app.curCnt + 1 } } := by
  have hlen : s.app.maxEntries = s.app.cache.length := rfl
  have hfuel : ((s.app.maxEntries : ℤ) - c).toNat = s.app.cache.length - c := by omega
  unfold cacheEntryFrom
  rw [hvalid, hdup, if_neg (by decide), if_neg (by decide), hfuel,
    searchFree_eq _ c (by omega)]
  generalize hk : (s.app.cache.drop c).findIdx NatTableEntry.isFree = k
  have hdrop : (s.app.cache.drop c).length = s.app.cache.length - c := length_drop
  by_cases hex : ∃ e ∈ s.app.cache.drop c, e.isFree = true
  · -- slot `c + k` is free
    have hklt : k < (s.app.cache.drop c).length := hk ▸ findIdx_lt_length.mpr hex
    have hi : c + k < s.app.cache.length := by omega
    have hfree : (s.app.cache[c + k]).isFree = true := by
      have hfound := findIdx_getElem (w := hk ▸ hklt)
      simp only [hk, getElem_drop] at hfound
      exact hfound
    have hsplit : s.app.cache
        = s.app.cache.take (c + k) ++ s.app.cache[c + k] :: s.app.cache.drop (c + k + 1) := by
      rw [← drop_eq_getElem_cons hi, take_append_drop]
    have htake : (s.app.cache.take (c + k)).length = c + k := by
      rw [length_take]
      omega
    refine .inr ⟨_, _, _, hsplit, by omega, ?_, hfree, ?_⟩
    · rw [drop_take, Nat.add_sub_cancel_left]
      intro e he
      obtain ⟨j, hj, rfl⟩ := mem_iff_getElem.mp he
      have hjk : j < k := by
        rw [length_take] at hj
        omega
      rw [getElem_take]
      have hbefore := not_of_lt_findIdx (hk ▸ hjk : j < _)
      simpa using hbefore
    have hne : ¬ ((c + k : ℕ) : ℤ) = s.app.maxEntries := by omega
    have hset : s.app.cache.set (c + k) (fillSlot rule false 0 s.app.cache[c + k])
        = s.app.cache.take (c + k) ++ fillSlot rule false 0 s.app.cache[c + k] ::
          s.app.cache.drop (c + k + 1) := by
      rw [set_eq_take_append_cons_drop, if_pos hi]
    rw [← hset]
    show (if ((c + k : ℕ) : ℤ) = s.app.maxEntries then some s else _) = _
    rw [if_neg hne, Int.toNat_natCast, getElem?_eq_getElem hi]
    rfl
  -- the loop ends with the index at the size of the cache
  have hnone : ∀ e ∈ s.app.cache.drop c, e.isFree = false := by
    intro e he
    rw [← Bool.not_eq_true]
    exact fun hf => hex ⟨e, he, hf⟩
  have hkend : k = (s.app.cache.drop c).length := hk ▸ findIdx_eq_length.mpr hnone
  have hend : ((c + k : ℕ) : ℤ) = s.app.maxEntries := by omega
  exact .inl ⟨hnone, if_pos hend⟩

theorem StoredIn.tuples {s' : AppState σ} (h : StoredIn rule s s') (hvalid : rule.isInvalid = false) :
    cachedTuples s'.app.cache = insert rule.tuple (cachedTuples s.app.cache) := by
  obtain ⟨_, _, _, hl, hslot, hl'⟩ := h
  rw [hl, hl', cachedTuples_fill hvalid hslot]

/-- A state with the same cache, and a client of the rule in power save. -/
def asleepTwin (s : AppState σ) (rule : NatTableEntry) : AppState σ :=
  { s with app := { s.app with
    natTableHdl := 1, pwrSaveIfs := rule.privateIp :: replicate (maxNumWifiClients - 1) 0 } }

theorem asleepTwin_asleep (hvalid : rule.isInvalid = false) : Asleep (asleepTwin s rule).app rule := by
  have hne : 0 ≠ rule.privateIp := by
    intro h0
    simp [NatTableEntry.isInvalid, ← h0] at hvalid
  have htable : (1 : UInt32) ≠ 0 := by decide
  refine ⟨htable, Or.inl ?_⟩
  simp [asleepTwin, NatApp.isPwrSaveIf, hne]

theorem chkForDup_congr (hcache : t.app.cache = s.app.cache) : t.app.chkForDup rule = s.app.chkForDup rule := by
  unfold NatApp.chkForDup
  rw [hcache]

theorem onAlgPort_congr (hports : t.app.algPorts = s.app.algPorts) : OnAlgPort t.app rule ↔ OnAlgPort s.app rule := by
  unfold OnAlgPort NatApp.isAlgPort
  rw [hports]

theorem agrees_of_dup (hdup : s.app.chkForDup rule) : Agrees d cnt rule s := by
  refine ⟨s, cacheEntryFrom_dup hdup, fun h => ?_, fun _ => rfl, fun t hcache _ _ => ?_⟩
  · exact nomatch hdup.symm.trans h.1
  · have hdup' := (chkForDup_congr hcache).trans hdup
    rw [addEntry_refused (.inr (.inl hdup')), hcache]

theorem agrees_of_full (hfull : ∀ e ∈ s.app.cache, e.isFree = false)
    (heq : cacheEntryFrom cnt rule s = some s) : Agrees d cnt rule s := by
  refine ⟨s, heq, fun h => ?_, fun _ => rfl, fun t hcache _ _ => ?_⟩
  · obtain ⟨-, e, he, hf⟩ := h
    exact absurd (hf.symm.trans (hfull e he)) (by simp)
  · rw [addEntry_refused (.inr (.inr (hcache ▸ hfull))), hcache]

theorem not_agrees_of_missed (hvalid : rule.isInvalid = false)
    (hdup : s.app.chkForDup rule = false) (hfree : ∃ e ∈ s.app.cache, e.isFree)
    (heq : cacheEntryFrom cnt rule s = some s) : ¬ Agrees d cnt rule s := by
  rintro ⟨_, hs, hstored, -⟩
  cases heq.symm.trans hs
  obtain ⟨_, slot, _, hl, hslot, hl'⟩ := hstored ⟨hdup, hfree⟩
  have hnew : (fillSlot rule false 0 slot).isFree = false := isFree_of_valid hvalid
  have hsame := append_cancel_left (hl.symm.trans hl')
  rw [(cons.inj hsame).1] at hslot
  exact nomatch hslot.symm.trans hnew

/-- A connection that `CacheEntry()` stores is stored by `AddEntry()` too, unless it is on an ALG
port. -/
theorem agrees_of_stored {s' : AppState σ} (hvalid : rule.isInvalid = false)
    (hdup : s.app.chkForDup rule = false) (heq : cacheEntryFrom cnt rule s = some s')
    (hstored : StoredIn rule s s') : Agrees d cnt rule s ↔ ¬ OnAlgPort s.app rule := by
  have htuples := hstored.tuples hvalid
  have hfree : ∃ e ∈ s.app.cache, e.isFree = true := by
    obtain ⟨l1, slot, l2, hl, hslot, -⟩ := hstored
    exact ⟨slot, hl ▸ by simp, hslot⟩
  constructor
  · rintro ⟨_, hs, -, -, hagree⟩ halg
    cases heq.symm.trans hs
    have htwin := hagree (asleepTwin s rule) rfl rfl (asleepTwin_asleep hvalid)
    have hrefused : (addEntry d rule (asleepTwin s rule)).2 = asleepTwin s rule :=
      addEntry_refused (.inl halg)
    rw [hrefused, htuples] at htwin
    have hmem : rule.tuple ∈ cachedTuples s.app.cache := by
      show rule.tuple ∈ cachedTuples (asleepTwin s rule).app.cache
      rw [← htwin]
      exact Set.mem_insert _ _
    obtain ⟨e, he, -, hsame⟩ := hmem
    exact tuple_ne_of_chkForDup hdup e he hsame
  intro halg
  refine ⟨s', heq, fun _ => hstored, fun h => ?_, fun t hcache hports hsleep => ?_⟩
  · obtain ⟨e, he, hf⟩ := hfree
    rcases h with hdup' | hall
    · exact nomatch hdup.symm.trans hdup'
    · exact absurd (hf.symm.trans (hall e he)) (by simp)
  obtain ⟨_, _, _, hl, hslot, hl'⟩ := addEntry_asleep (d := d) hsleep
    (fun h => halg ((onAlgPort_congr hports).mp h)) hvalid
    ((chkForDup_congr hcache).trans hdup) (hcache ▸ hfree)
  rw [htuples, hl', cachedTuples_fill hvalid hslot, ← hl, hcache]

end

/-- **`CacheEntry()` agrees with the power save path of `AddEntry()`** if and only if the rule is
a duplicate, or the index it starts at is within the cache and no slot is free, or there is a
free slot from the index on and no ALG port. -/
theorem cacheEntry_agrees_iff (d : NatDriver σ) (cnt : ℤ) {rule : NatTableEntry} (s : AppState σ)
    (hvalid : rule.isInvalid = false) : Agrees d cnt rule s ↔ SearchOk cnt rule s := by
  by_cases hdup : s.app.chkForDup rule = true
  · exact iff_of_true (agrees_of_dup hdup) (.inl hdup)
  have hok : SearchOk cnt rule s ↔ 0 ≤ cnt ∧ cnt ≤ s.app.maxEntries ∧ ((∀ e ∈ s.app.cache, e.isFree = false) ∨
        (∃ e ∈ s.app.cache.drop cnt.toNat, e.isFree = true) ∧ ¬ OnAlgPort s.app rule) :=
    or_iff_right hdup
  rw [hok]
  rw [Bool.not_eq_true] at hdup
  by_cases hout : cnt < 0 ∨ (s.app.maxEntries : ℤ) < cnt
  · -- an index outside of the cache is read
    refine iff_of_false ?_ (by omega)
    rintro ⟨_, hs, -⟩
    rw [cacheEntryFrom_outside hvalid hdup hout] at hs
    exact nomatch hs
  obtain ⟨c, rfl⟩ : ∃ c : ℕ, cnt = c := ⟨cnt.toNat, by omega⟩
  have hcnt : (0 : ℤ) ≤ c ∧ (c : ℤ) ≤ s.app.maxEntries := by omega
  rw [Int.toNat_natCast]
  rcases cacheEntryFrom_within hvalid hdup c (by omega) with
    ⟨hnone, heq⟩ | ⟨l1, slot, l2, hl, hle, -, hslot, heq⟩
  · by_cases hfull : ∀ e ∈ s.app.cache, e.isFree = false
    · exact iff_of_true (agrees_of_full hfull heq) ⟨hcnt.1, hcnt.2, Or.inl hfull⟩
    -- the free slots are before the index
    have hfree : ∃ e ∈ s.app.cache, e.isFree = true := by
      push Not at hfull
      simpa using hfull
    refine iff_of_false (not_agrees_of_missed hvalid hdup hfree heq) ?_
    rintro ⟨-, -, hall | ⟨⟨e, he, hf⟩, -⟩⟩
    · exact hfull hall
    · exact absurd (hf.symm.trans (hnone e he)) (by simp)
  -- the connection is stored, which `AddEntry()` refuses on an ALG port
  rw [agrees_of_stored hvalid hdup heq ⟨l1, slot, l2, hl, hslot, rfl⟩]
  have hbehind : slot ∈ s.app.cache.drop c := by
    rw [hl, drop_append_of_le_length hle]
    simp
  constructor
  · exact fun halg => ⟨hcnt.1, hcnt.2, Or.inr ⟨⟨slot, hbehind, hslot⟩, halg⟩⟩
  · rintro ⟨-, -, hall | ⟨-, halg⟩⟩
    · exact absurd (hslot.symm.trans (hall slot (hl ▸ by simp))) (by simp)
    · exact halg

/-- The rule of the sample connection fills an empty cache of four slots. -/
theorem cacheEntry_agrees_sample : Agrees mapDriver 0 sampleConn sampleApp ↔ SearchOk 0 sampleConn sampleApp :=
  cacheEntry_agrees_iff mapDriver 0 sampleApp (by decide)

/-- From slot 4 of an empty cache of four slots, nothing is stored. -/
theorem cacheEntry_agrees_fails : ¬ Agrees mapDriver 4 sampleConn sampleApp := by
  rintro ⟨s', hs, hstored, -⟩
  have hsame : s'.app.cache = sampleApp.app.cache := by
    have hrun : (cacheEntryFrom 4 sampleConn sampleApp).map (fun s => s.app.cache) = some sampleApp.app.cache := by
      decide
    rw [hs] at hrun
    exact Option.some.inj hrun
  obtain ⟨_, _, _, hl, hslot, hl'⟩ := hstored ⟨by decide, default, by decide, by decide⟩
  have hnew := isFree_of_valid (show sampleConn.isInvalid = false by decide)
  have heq := append_cancel_left (hl.symm.trans (hsame.symm.trans hl'))
  rw [(cons.inj heq).1] at hslot
  exact nomatch hslot.symm.trans hnew

end G4Common.Ipacm

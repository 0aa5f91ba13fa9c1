/-
The event dispatcher (`ipacm/src/IPACM_EvtDispatcher.cpp`) and the order in which
`ipacm/src/IPACM_IfaceManager.cpp` registers an interface.

The registrations are a linked list.  `registr()` puts a node behind the last one,
`deregistr()` frees all nodes of a listener, and `ProcessEvt()` goes along the list and
calls the listeners that are registered for the event.  A callback may register
listeners and may deregister its own.

`ProcessEvt()` copies a node before it calls the listener, and goes on with the link in
the copy.  If the listener has deregistered itself and the next node is one of its own,
this node is freed by then.  That is the only thing that can go wrong
(`processEvt_safe_iff`), but it does go wrong for two kinds of interfaces
(`processEvt_freed`).

A node that cannot be allocated is not registered, which is as if the call were not
made.  The queue of events and the data of an event are not modelled: what a callback does is
given from outside.
-/
import G4Common.Lib.LinkedList

namespace G4Common.Ipacm

open List Option Function

/-! ### Data -/

/-- The events of `ipa_cm_event_id` that an interface registers for. -/
inductive EventId
  | cfgChange | linkDown | addrAdd | routeAdd | routeDel | firewallChange
  | wlanClientAdd | wlanClientAddEx | wlanClientDel | wlanClientPowerSave | wlanClientRecover
  | neighClientIpAddrAdd | swRoutingEnable | swRoutingDisable
  | handleWanUp | handleWanUpV6 | handleWanDown | handleWanDownV6
  | handleWanUpTether | handleWanUpV6Tether | handleWanDownTether | handleWanDownV6Tether
  | lanDeleteSelf | wlanLinkDown | privateSubnetChange
  | wanUpstreamRouteAdd | wanUpstreamRouteDel
  | ethBridgeUsbClientAdd | ethBridgeUsbClientDel
  | ethBridgeWlanClientAdd | ethBridgeWlanClientDel
  | ethBridgeHdrProcCtxSet | ethBridgeHdrProcCtxUnset
  | tetheringStatsUpdate | networkStatsUpdate
  deriving DecidableEq, Repr

/-- `cmd_evts`, without the link.  A listener is known by its address. -/
structure CmdEvts where
  event : EventId
  obj : ℕ
  deriving DecidableEq, Repr

/-- The list behind `IPACM_EvtDispatcher::head`. -/
abbrev EvtList := CellList CmdEvts

/-! ### Registration

Every access goes to memory, and the result is `none` if the node is not there.  The
loops have fuel, which is enough (`registr_spec`, `deregistr_spec`). -/

/-- `while(tmp->next) tmp = tmp->next`. -/
def tailFrom (mem : ℕ → Option (Cell CmdEvts)) : ℕ → ℕ → Option ℕ
  | 0, _ => none
  | n + 1, tmp => (mem tmp).bind fun c => if c.next = 0 then some tmp else tailFrom mem n c.next

def registr (s : EvtList) (event : EventId) (obj : ℕ) : Option EvtList :=
  let nw := s.fresh
  let mem := update s.mem nw (some ⟨⟨event, obj⟩, 0⟩)
  if s.head = 0 then some ⟨nw, mem, s.fresh + 1⟩
  else
    (tailFrom mem s.fresh s.head).bind fun tmp =>
      (mem tmp).map fun c => ⟨s.head, update mem tmp (some ⟨c.val, nw⟩), s.fresh + 1⟩

/-- The loop of `deregistr()`. -/
def deregistrFrom (param : ℕ) : ℕ → ℕ → ℕ → EvtList → Option EvtList
  | 0, _, _, _ => none
  | n + 1, tmp, prev, s =>
    if tmp = 0 then some s
    else
      (s.mem tmp).bind fun c =>
        if c.val.obj = param then
          if tmp = s.head then
            deregistrFrom param n c.next prev ⟨c.next, update s.mem tmp none, s.fresh⟩
          else
            (s.mem prev).bind fun p =>
              -- at the last node, `prev->next` becomes `NULL`
              let next := if c.next = 0 then 0 else c.next
              deregistrFrom param n c.next prev
                ⟨s.head, update (update s.mem prev (some ⟨p.val, next⟩)) tmp none,
                  s.fresh⟩
        else deregistrFrom param n c.next tmp s

def deregistr (s : EvtList) (param : ℕ) : Option EvtList :=
  deregistrFrom param s.fresh s.head s.head s

/-- The lists that registrations and deregistrations make. -/
inductive EvtReach : EvtList → Prop
  | empty : EvtReach CellList.empty
  | registr {s s' : EvtList} (event : EventId) (obj : ℕ) :
      EvtReach s → registr s event obj = some s' → EvtReach s'
  | deregistr {s s' : EvtList} (obj : ℕ) : EvtReach s → deregistr s obj = some s' → EvtReach s'

/-! ### Dispatch -/

/-- What a callback may do with the list. -/
inductive CallbackAct
  | registr (event : EventId) (obj : ℕ)
  | deregistr
  deriving DecidableEq, Repr

/-- An action of a callback of `obj`. -/
def runAct (obj : ℕ) (s : EvtList) : CallbackAct → Option EvtList
  | .registr event other => registr s event other
  | .deregistr => deregistr s obj

def runActs (obj : ℕ) : List CallbackAct → EvtList → Option EvtList
  | [], s => some s
  | a :: acts, s => (runAct obj s a).bind (runActs obj acts)

/-- The state of the loop: the list, the pointer `tmp`, and the nodes whose listeners
were called. -/
structure Dispatch where
  disp : EvtList
  tmp : ℕ
  calls : List ℕ

/-- One round of the loop of `ProcessEvt()`. -/
def Dispatch.step (event : EventId) (acts : List CallbackAct) (d : Dispatch) : Option Dispatch :=
  if d.tmp = 0 then some d
  else
    (d.disp.mem d.tmp).bind fun tmp1 =>
      if tmp1.val.event = event then
        (runActs tmp1.val.obj acts d.disp).map fun s => ⟨s, tmp1.next, d.calls ++ [d.tmp]⟩
      else some { d with tmp := tmp1.next }

/-- `ProcessEvt()` after a number of rounds, where the callback of round `k` does `cb k`. -/
def processEvt (s : EvtList) (event : EventId) (cb : ℕ → List CallbackAct) : ℕ → Option Dispatch
  | 0 => some ⟨s, s.head, []⟩
  | k + 1 => (processEvt s event cb k).bind (Dispatch.step event (cb k))

/-- No freed node is read.  The listeners that were registered before are called at most
once for each registration, in this order; each of them that is still registered has
been called when the loop ends, and after as many rounds as there were registrations at
the latest.  A listener that is called is registered. -/
structure DispatchSafe (s : EvtList) (event : EventId) (cb : ℕ → List CallbackAct) : Prop where
  noFreed : ∀ k, ∃ d, processEvt s event cb k = some d
  order : ∀ k d, processEvt s event cb k = some d →
    (d.calls.filter (· < s.fresh)).Sublist ((s.toList.filter fun x => x.2.event = event).map Prod.fst)
  all : ∀ k d, processEvt s event cb k = some d → d.tmp = 0 ∨ s.toList.length ≤ k →
    ∀ x ∈ s.toList, x.2.event = event → x ∈ d.disp.toList → x.1 ∈ d.calls
  registered : ∀ k d d', processEvt s event cb k = some d → processEvt s event cb (k + 1) = some d' →
    d'.calls = d.calls ∨
      ∃ v, (d.tmp, v) ∈ d.disp.toList ∧ v.event = event ∧ d'.calls = d.calls ++ [d.tmp]

/-- If the callback of the node at hand deregisters its listener, the next node is of
another listener. -/
def NextOther (event : EventId) (d : Dispatch) (acts : List CallbackAct) : Prop :=
  ∀ l1 x y l2, d.disp.toList = l1 ++ x :: y :: l2 → x.1 = d.tmp → x.2.event = event →
    .deregistr ∈ acts → y.2.obj ≠ x.2.obj

/-! ### Specifications of the functions -/

section

variable {s : EvtList} {l : List (ℕ × CmdEvts)} {x : ℕ × CmdEvts} {obj tmp prev n : ℕ}

theorem tailFrom_eq {mem : ℕ → Option (Cell CmdEvts)} (hseg : Seg (nextOf mem) tmp ((l ++ [x]).map Prod.fst) 0)
    (hval : ∀ y ∈ l ++ [x], ∃ c, mem y.1 = some c) (hn : l.length < n) : tailFrom mem n tmp = some x.1 := by
  induction l generalizing tmp n with
  | nil =>
    obtain ⟨rfl, -, hnext⟩ := hseg
    obtain ⟨c, hc⟩ := hval x (by simp)
    obtain ⟨m, rfl⟩ : ∃ m, n = m + 1 := ⟨n - 1, by simp at hn; omega⟩
    have hc0 : c.next = 0 := (nextOf_of_some hc).symm.trans hnext
    simp [tailFrom, hc, hc0]
  | cons y l ih =>
    obtain ⟨rfl, -, hrest⟩ := hseg
    obtain ⟨c, hc⟩ := hval y (by simp)
    obtain ⟨m, rfl⟩ : ∃ m, n = m + 1 := ⟨n - 1, by simp at hn; omega⟩
    rw [nextOf_of_some hc] at hrest
    -- there is a node behind this one
    have hne : c.next ≠ 0 := by
      intro h0
      rw [h0] at hrest
      cases l with
      | nil | cons => exact hrest.2.1 hrest.1.symm
    simp only [tailFrom, hc, bind_some, if_neg hne]
    exact ih hrest (fun z hz => hval z (mem_cons_of_mem _ hz)) (Nat.lt_of_succ_lt_succ hn)

theorem registr_spec (h : IsList s l) (event : EventId) (obj : ℕ) :
    ∃ s', registr s event obj = some s' ∧ IsList s' (l ++ [(s.fresh, ⟨event, obj⟩)]) ∧
      s'.fresh = s.fresh + 1 := by
  rcases eq_nil_or_concat l with rfl | ⟨l, x, rfl⟩
  · have hhead : s.head = 0 := h.seg
    refine ⟨_, ?_, h.pushEmpty ⟨event, obj⟩, rfl⟩
    rw [registr, if_pos hhead]
  rw [concat_eq_append] at h ⊢
  have hx : x ∈ l ++ [x] := by simp
  have hhead : s.head ≠ 0 := by
    have hmem := h.seg
    cases l with
    | nil | cons => exact fun h0 => hmem.2.1 (hmem.1.symm.trans h0)
  have hframe : ∀ y ∈ l ++ [x], y.1 ≠ s.fresh := fun y hy => (h.lt y hy).ne
  have htail : tailFrom (update s.mem s.fresh (some ⟨⟨event, obj⟩, 0⟩)) s.fresh s.head = some x.1 := by
    refine tailFrom_eq (l := l) (h.seg.congr fun p hp => ?_) (fun y hy => ?_) ?_
    · obtain ⟨y, hy, rfl⟩ := mem_map.mp hp
      exact nextOf_update_of_ne (hframe y hy)
    · rw [update_of_ne (hframe y hy)]
      exact ⟨_, h.get hy⟩
    · have := h.len
      rw [length_append] at this
      exact Nat.lt_of_succ_lt this
  refine ⟨_, ?_, h.push ⟨event, obj⟩, rfl⟩
  rw [registr, if_neg hhead, htail, bind_some, update_of_ne (hframe x hx), h.get hx]
  rfl

/-- The loop of `deregistr()`: the nodes of `k` stay, and those of `r` are still to be
looked at. -/
theorem deregistrFrom_spec {k r : List (ℕ × CmdEvts)} (h : IsList s (k ++ r))
    (htmp : tmp = ((r.map Prod.fst).head?).getD 0) (hprev : ∀ k' z, k = k' ++ [z] → prev = z.1) (hn : r.length < n) :
    ∃ s', deregistrFrom obj n tmp prev s = some s' ∧
      IsList s' (k ++ r.filter fun x => x.2.obj ≠ obj) ∧ s'.fresh = s.fresh := by
  induction r generalizing s k tmp prev n with
  | nil =>
    obtain ⟨m, rfl⟩ : ∃ m, n = m + 1 := ⟨n - 1, by simp at hn; omega⟩
    subst htmp
    exact ⟨s, rfl, h, rfl⟩
  | cons x r ih =>
    obtain ⟨m, rfl⟩ : ∃ m, n = m + 1 := ⟨n - 1, by simp at hn; omega⟩
    have hm : r.length < m := Nat.lt_of_succ_lt_succ hn
    obtain rfl : tmp = x.1 := htmp
    have hx : x ∈ k ++ x :: r := by simp
    have hnext := h.next_eq
    simp only [deregistrFrom, if_neg (h.ne_zero hx), h.get hx, bind_some]
    by_cases hobj : x.2.obj = obj
    · rw [if_pos hobj, filter_cons_of_neg (by simp [hobj])]
      rcases eq_nil_or_concat k with rfl | ⟨k, z, rfl⟩
      · -- the first node
        rw [if_pos h.seg.1.symm]
        exact ih (k := []) h.unlinkHead hnext (fun k' z hk => absurd hk (by simp)) hm
      rw [concat_eq_append] at h hx hprev ⊢
      have hz : z ∈ (k ++ [z]) ++ x :: r := by simp
      obtain rfl : prev = z.1 := hprev k z rfl
      have hhead : x.1 ≠ s.head := by
        intro heq
        have hseg := h.seg
        have hnd := h.nodup
        cases k with
        | nil =>
          have hs : s.head = z.1 := hseg.1
          simp [heq, hs] at hnd
        | cons w =>
          have hs : s.head = w.1 := hseg.1
          simp [heq, hs] at hnd
      rw [if_neg hhead, h.get hz, bind_some]
      have hlink : (if nextOf s.mem x.1 = 0 then 0 else nextOf s.mem x.1) = nextOf s.mem x.1 := by
        split_ifs with h0
        · exact h0.symm
        · rfl
      rw [hlink]
      have hun : IsList _ (k ++ z :: r) := IsList.unlinkNext (by simpa using h)
      rw [append_cons] at hun
      exact ih hun hnext (fun k' w hk => by rw [(append_inj' hk rfl).2 |> singleton_inj.mp])
        hm
    · rw [if_neg hobj, filter_cons_of_pos (by simpa using hobj)]
      rw [append_cons] at h ⊢
      exact ih h hnext (fun k' w hk => by rw [(append_inj' hk rfl).2 |> singleton_inj.mp]) hm

theorem deregistr_spec (h : IsList s l) (obj : ℕ) :
    ∃ s', deregistr s obj = some s' ∧ IsList s' (l.filter fun x => x.2.obj ≠ obj) ∧
      s'.fresh = s.fresh := by
  refine deregistrFrom_spec (k := []) h ?_ (fun k' z hk => absurd hk (by simp)) h.len
  have hseg := h.seg
  cases l with
  | nil => exact hseg
  | cons => exact hseg.1

theorem EvtReach.isList (h : EvtReach s) : ∃ l, IsList s l := by
  induction h with
  | empty => exact ⟨[], IsList.empty⟩
  | registr event obj _ hs ih =>
    obtain ⟨l, hl⟩ := ih
    obtain ⟨s', hs', hl', -⟩ := registr_spec hl event obj
    cases hs.symm.trans hs'
    exact ⟨_, hl'⟩
  | deregistr obj _ hs ih =>
    obtain ⟨l, hl⟩ := ih
    obtain ⟨_, hs', hl', -⟩ := deregistr_spec hl obj
    cases hs.symm.trans hs'
    exact ⟨_, hl'⟩

end

/-! ### Callbacks -/

/-- Whether a callback of `obj` that does `acts` leaves a node in the list. -/
def keptBy (obj : ℕ) (acts : List CallbackAct) (x : ℕ × CmdEvts) : Bool :=
  decide (.deregistr ∈ acts → x.2.obj ≠ obj)

section

variable {s : EvtList} {l : List (ℕ × CmdEvts)} {obj : ℕ} {acts : List CallbackAct}

theorem runActs_spec (h : IsList s l) (obj : ℕ) (acts : List CallbackAct) :
    ∃ s' new, runActs obj acts s = some s' ∧ IsList s' (l.filter (keptBy obj acts) ++ new) ∧
      (∀ y ∈ new, s.fresh ≤ y.1) ∧ s.fresh ≤ s'.fresh := by
  induction acts generalizing s l with
  | nil =>
    have hl : l.filter (keptBy obj []) = l := filter_eq_self.mpr fun x _ => by simp [keptBy]
    refine ⟨s, [], rfl, ?_, by simp, le_refl _⟩
    rw [hl, append_nil]
    exact h
  | cons a acts ih =>
    cases a with
    | registr event other =>
      obtain ⟨s1, hs1, hl1, hf1⟩ := registr_spec h event other
      obtain ⟨s', new, hs', hl', hnew, hf'⟩ := ih hl1
      have hkept : keptBy obj (.registr event other :: acts) = keptBy obj acts := by
        funext x
        simp [keptBy]
      rw [filter_append, append_assoc] at hl'
      refine ⟨s', _, ?_, hkept ▸ hl', fun y hy => ?_, by omega⟩
      · rw [runActs, runAct, hs1, bind_some, hs']
      rcases mem_append.mp hy with hy | hy
      · obtain rfl := mem_singleton.mp (mem_filter.mp hy).1
        exact le_refl _
      · have := hnew y hy
        omega
    | deregistr =>
      obtain ⟨_, hs1, hl1, hf1⟩ := deregistr_spec h obj
      obtain ⟨s', new, hs', hl', hnew, _⟩ := ih hl1
      have hkept : (l.filter fun x => x.2.obj ≠ obj).filter (keptBy obj acts) =
          l.filter (keptBy obj (.deregistr :: acts)) := by
        rw [List.filter_filter]
        refine filter_congr fun x _ => ?_
        by_cases hx : x.2.obj = obj
        · simp [keptBy, hx]
        · simp [keptBy, hx]
      refine ⟨s', new, ?_, hkept ▸ hl', fun y hy => hf1 ▸ hnew y hy, by omega⟩
      rw [runActs, runAct, hs1, bind_some, hs']

end

/-! ### The invariant of the loop -/

/-- `l0` are the registrations before the dispatch, `f0` is the next number then.  The
nodes of `done` are behind the pointer or have been passed, those of `rest` are to come. -/
structure DispatchInv (l0 : List (ℕ × CmdEvts)) (f0 : ℕ) (event : EventId) (k : ℕ) (d : Dispatch)
    (done rest : List (ℕ × CmdEvts)) : Prop where
  list : IsList d.disp (done ++ rest)
  tmp : d.tmp = ((rest.map Prod.fst).head?).getD 0
  order : (d.calls.filter (· < f0) ++
      ((rest.filter fun x => x.2.event = event).map Prod.fst).filter (· < f0)).Sublist
    ((l0.filter fun x => x.2.event = event).map Prod.fst)
  all : ∀ x ∈ done, x ∈ l0 → x.2.event = event → x.1 ∈ d.calls
  count : ((rest.map Prod.fst).filter (· < f0)).length ≤ l0.length - k
  fresh : f0 ≤ d.disp.fresh

section

variable {s : EvtList} {l0 done rest : List (ℕ × CmdEvts)} {f0 k : ℕ} {event : EventId} {d d' : Dispatch}
  {acts : List CallbackAct} {cb : ℕ → List CallbackAct}
variable {l new r : List (ℕ × CmdEvts)}

theorem DispatchInv.start (h : IsList s l0) : DispatchInv l0 s.fresh event 0 ⟨s, s.head, []⟩ [] l0 := by
  refine ⟨h, ?_, filter_sublist, by simp, ?_, le_refl _⟩
  · have hseg := h.seg
    cases l0 with
    | nil => exact hseg
    | cons => exact hseg.1
  · exact (length_filter_le _ _).trans (by simp)

theorem DispatchInv.count_tail {x : ℕ × CmdEvts} (h : DispatchInv l0 f0 event k d done (x :: r)) :
    ((r.map Prod.fst).filter (· < f0)).length ≤ l0.length - (k + 1) := by
  have hcount := h.count
  by_cases hx : x.1 < f0
  · rw [map_cons, filter_cons_of_pos (by simpa using hx), length_cons] at hcount
    omega
  -- new nodes are at the end
  have hnone : (r.map Prod.fst).filter (· < f0) = [] := by
    refine filter_eq_nil_iff.mpr fun p hp => ?_
    obtain ⟨y, hy, rfl⟩ := mem_map.mp hp
    have := h.list.lt_of_split hy
    simp only [decide_eq_true_eq]
    omega
  rw [hnone]
  exact Nat.zero_le _

theorem filter_old {g : ℕ × CmdEvts → Bool} (hnew : ∀ y ∈ new, f0 ≤ y.1) :
    (((r ++ new).filter g).map Prod.fst).filter (· < f0) = ((r.filter g).map Prod.fst).filter (· < f0) := by
  have hnone : ((new.filter g).map Prod.fst).filter (· < f0) = [] := by
    refine filter_eq_nil_iff.mpr fun p hp => ?_
    obtain ⟨y, hy, rfl⟩ := mem_map.mp hp
    have := hnew y (mem_filter.mp hy).1
    simp only [decide_eq_true_eq]
    omega
  rw [filter_append, map_append, filter_append, hnone, append_nil]

/-- The callback is made: of what is to come some nodes may be gone, and new ones are
behind them, unless there was no next node. -/
theorem DispatchInv.called {x : ℕ × CmdEvts} {s' : EvtList}
    (h : DispatchInv l0 f0 event k d done (x :: r)) (h₀ : ∀ y ∈ l0, y.1 < f0)
    (hx : x.2.event = event) {f : ℕ × CmdEvts → Bool} (hhead : ∀ y r', r = y :: r' → f y)
    (hl : IsList s' ((done ++ x :: r).filter f ++ new)) (hnew : ∀ y ∈ new, d.disp.fresh ≤ y.1)
    (hf : d.disp.fresh ≤ s'.fresh) :
    ∃ done' rest', DispatchInv l0 f0 event (k + 1) ⟨s', nextOf d.disp.mem x.1, d.calls ++ [x.1]⟩
      done' rest' := by
  have hnew0 : ∀ y ∈ new, f0 ≤ y.1 := fun y hy => h.fresh.trans (hnew y hy)
  have hnext := h.list.next_eq
  have hcount := h.count_tail
  -- the node moves from what is to come to the calls
  have horder : ((d.calls ++ [x.1]).filter (· < f0) ++
      ((r.filter fun x => x.2.event = event).map Prod.fst).filter (· < f0)).Sublist
      ((l0.filter fun x => x.2.event = event).map Prod.fst) := by
    have := h.order
    rw [filter_cons_of_pos (by simpa using hx), map_cons, ← singleton_append,
      filter_append, ← append_assoc, ← filter_append] at this
    exact this
  have hall : ∀ y ∈ (done ++ [x]).filter f ++ new, y ∈ l0 → y.2.event = event → y.1 ∈ d.calls ++ [x.1] := by
    intro y hy hy0 hye
    rcases mem_append.mp hy with hy | hy
    · rcases mem_append.mp (mem_filter.mp hy).1 with hy | hy
      · exact mem_append_left _ (h.all y hy hy0 hye)
      · obtain rfl := mem_singleton.mp hy
        simp
    · exact absurd (h₀ y hy0) (Nat.not_lt.mpr (hnew0 y hy))
  cases r with
  | nil =>
    refine ⟨(done ++ [x]).filter f ++ new, [], ?_, hnext, ?_, hall, Nat.zero_le _, h.fresh.trans hf⟩
    · rw [append_nil]
      exact hl
    · exact horder
  | cons y r =>
    have hfy := hhead y r rfl
    have hold := filter_old (r := (y :: r).filter f) (g := fun x => x.2.event = event) hnew0
    refine ⟨(done ++ [x]).filter f, (y :: r).filter f ++ new, ?_, ?_, ?_,
      fun z hz => hall z (mem_append_left _ hz), ?_, h.fresh.trans hf⟩
    · rw [← append_assoc, ← filter_append, append_assoc, singleton_append]
      exact hl
    · rw [filter_cons_of_pos hfy]
      exact hnext
    · refine List.Sublist.trans ?_ horder
      rw [hold]
      exact ((((filter_sublist (p := f)).filter _).map _).filter _).append_left _
    have hold := filter_old (r := (y :: r).filter f) (g := fun _ => true) hnew0
    rw [filter_true, filter_true] at hold
    rw [hold]
    exact (((filter_sublist (p := f)).map _).filter _).length_le.trans hcount

theorem DispatchInv.step (h : DispatchInv l0 f0 event k d done rest) (h₀ : ∀ y ∈ l0, y.1 < f0)
    (hok : NextOther event d acts) :
    ∃ d', d.step event acts = some d' ∧
      ∃ done' rest', DispatchInv l0 f0 event (k + 1) d' done' rest' := by
  have htmp := h.tmp
  cases rest with
  | nil =>
    have hcount : (0 : ℕ) ≤ l0.length - (k + 1) := Nat.zero_le _
    exact ⟨d, if_pos htmp, done, [], h.list, h.tmp, h.order, h.all, hcount, h.fresh⟩
  | cons x r =>
    obtain ⟨s, tmp, _⟩ := d
    obtain rfl : tmp = x.1 := htmp
    have hx : x ∈ done ++ x :: r := by simp
    have hget : s.mem x.1 = _ := h.list.get hx
    simp only [Dispatch.step, if_neg (h.list.ne_zero hx), hget, bind_some]
    by_cases hev : x.2.event = event
    · rw [if_pos hev]
      obtain ⟨_, _, hs', hl', hnew, hf⟩ := runActs_spec h.list x.2.obj acts
      rw [hs']
      refine ⟨_, rfl, h.called h₀ hev (fun y r' hr => ?_) hl' hnew hf⟩
      subst hr
      exact decide_eq_true fun hde => hok done x y r' h.list.toList_eq rfl hev hde
    rw [if_neg hev]
    refine ⟨_, rfl, done ++ [x], r, ?_, h.list.next_eq, ?_, fun y hy hy0 hye => ?_, h.count_tail, h.fresh⟩
    · rw [append_assoc, singleton_append]
      exact h.list
    · have := h.order
      rwa [filter_cons_of_neg (by simpa using hev)] at this
    rcases mem_append.mp hy with hy | hy
    · exact h.all y hy hy0 hye
    · obtain rfl := mem_singleton.mp hy
      exact absurd hye hev

theorem step_freed (h : IsList d.disp l) (hd : ¬ NextOther event d acts)
    (hstep : d.step event acts = some d') : d'.tmp ≠ 0 ∧ d'.disp.mem d'.tmp = none := by
  unfold NextOther at hd
  push Not at hd
  obtain ⟨l1, x, y, l2, hl, hxt, hev, hde, hobj⟩ := hd
  rw [h.toList_eq] at hl
  rw [hl] at h
  have hx : x ∈ l1 ++ x :: y :: l2 := by simp
  have hy : y ∈ l1 ++ x :: y :: l2 := by simp
  obtain ⟨s', _, hs', hl', hnew, -⟩ := runActs_spec h x.2.obj acts
  have hget := h.get hx
  have hnext : nextOf d.disp.mem x.1 = y.1 := h.next_eq
  simp only [Dispatch.step, ← hxt, if_neg (h.ne_zero hx), hget, bind_some, if_pos hev, hs',
    map_some, some.injEq] at hstep
  subst hstep
  refine ⟨fun h0 => h.ne_zero hy (hnext.symm.trans h0), ?_⟩
  show s'.mem (nextOf d.disp.mem x.1) = none
  rw [hnext]
  refine hl'.free _ fun hmem => ?_
  obtain ⟨z, hz, hzy⟩ := mem_map.mp hmem
  rcases mem_append.mp hz with hz | hz
  · obtain ⟨hz, hkept⟩ := mem_filter.mp hz
    obtain rfl : z = y := inj_on_of_nodup_map h.nodup hz hy hzy
    exact of_decide_eq_true hkept hde hobj
  · have h1 := hnew z hz
    have h2 := h.lt y hy
    omega

theorem step_calls (h : IsList d.disp l) (hstep : d.step event acts = some d') : d'.calls = d.calls ∨
      ∃ v, (d.tmp, v) ∈ d.disp.toList ∧ v.event = event ∧ d'.calls = d.calls ++ [d.tmp] := by
  unfold Dispatch.step at hstep
  split at hstep
  · cases hstep
    exact .inl rfl
  obtain ⟨c, hc, hstep⟩ := bind_eq_some_iff.mp hstep
  split_ifs at hstep with hev
  · obtain ⟨_, -, rfl⟩ := map_eq_some_iff.mp hstep
    refine .inr ⟨c.val, ?_, hev, rfl⟩
    -- a node that is there is in the list
    rw [h.toList_eq]
    by_contra hno
    by_cases hmem : d.tmp ∈ l.map Prod.fst
    · obtain ⟨x, hx, hxt⟩ := mem_map.mp hmem
      have hget := h.get hx
      rw [hxt, hc] at hget
      refine hno ?_
      rw [← hxt, congrArg Cell.val (some.inj hget)]
      exact hx
    · rw [h.free _ hmem] at hc
      exact nomatch hc
  · cases hstep
    exact .inl rfl

theorem processEvt_inv (h : IsList s l0)
    (hok : ∀ k d, processEvt s event cb k = some d → NextOther event d (cb k)) (k : ℕ) :
    ∃ d, processEvt s event cb k = some d ∧
      ∃ done rest, DispatchInv l0 s.fresh event k d done rest := by
  induction k with
  | zero => exact ⟨_, rfl, [], l0, DispatchInv.start h⟩
  | succ k ih =>
    obtain ⟨d, hd, _, _, hinv⟩ := ih
    obtain ⟨d', hd', hinv'⟩ := hinv.step h.lt (hok k d hd)
    refine ⟨d', ?_, hinv'⟩
    rw [processEvt, hd]
    exact hd'

theorem processEvt_isList (h : IsList s l0) (hd : processEvt s event cb k = some d) : ∃ l, IsList d.disp l := by
  induction k generalizing d with
  | zero =>
    cases hd
    exact ⟨l0, h⟩
  | succ k ih =>
    obtain ⟨_, hd1, hstep⟩ := bind_eq_some_iff.mp hd
    obtain ⟨l, hl⟩ := ih hd1
    unfold Dispatch.step at hstep
    split at hstep
    · cases hstep
      exact ⟨l, hl⟩
    obtain ⟨c, -, hstep⟩ := bind_eq_some_iff.mp hstep
    split at hstep
    · obtain ⟨_, hs', rfl⟩ := map_eq_some_iff.mp hstep
      obtain ⟨_, _, hs'', hl', -⟩ := runActs_spec hl c.val.obj (cb k)
      cases hs'.symm.trans hs''
      exact ⟨_, hl'⟩
    · cases hstep
      exact ⟨l, hl⟩

/-- **The dispatch of an event is safe if and only if** in every round whose callback
deregisters its listener, the next node is of another listener. -/
theorem processEvt_safe_iff (h : EvtReach s) :
    DispatchSafe s event cb ↔
      ∀ k d, processEvt s event cb k = some d → NextOther event d (cb k) := by
  obtain ⟨_, hl0⟩ := h.isList
  constructor
  · intro hsafe k d hd
    by_contra hno
    obtain ⟨l, hl⟩ := processEvt_isList hl0 hd
    obtain ⟨d1, hd1⟩ := hsafe.noFreed (k + 1)
    have hstep : d.step event (cb k) = some d1 := by
      rw [processEvt, hd] at hd1
      exact hd1
    obtain ⟨hne, hfreed⟩ := step_freed hl hno hstep
    -- the next round reads it
    obtain ⟨_, hd2⟩ := hsafe.noFreed (k + 2)
    rw [processEvt, hd1, bind_some, Dispatch.step, if_neg hne, hfreed] at hd2
    exact nomatch hd2
  intro hok
  have hrun := processEvt_inv hl0 hok
  rw [← hl0.toList_eq] at hrun
  refine ⟨fun k => (hrun k).imp fun d hd => hd.1, fun k d hd => ?_, fun k d hd hend x hx hev hin => ?_,
    fun k d d' hd hd' => ?_⟩
  · obtain ⟨d', hd', done, rest, hinv⟩ := hrun k
    cases hd.symm.trans hd'
    exact (sublist_append_left _ _).trans hinv.order
  · obtain ⟨_, hd', done, rest, hinv⟩ := hrun k
    cases hd.symm.trans hd'
    rw [hinv.list.toList_eq] at hin
    rcases mem_append.mp hin with hin | hin
    · exact hinv.all x hin hx hev
    -- nothing that was registered before is to come
    exfalso
    rcases hend with hend | hend
    · have htmp := hinv.tmp
      cases rest with
      | nil => exact nomatch hin
      | cons y r =>
        have hy : y ∈ done ++ y :: r := by simp
        exact hinv.list.ne_zero hy (htmp.symm.trans hend)
    have hcount := hinv.count
    rw [Nat.sub_eq_zero_of_le hend, Nat.le_zero, length_eq_zero_iff,
      filter_eq_nil_iff] at hcount
    have hlt := hl0.lt x (hl0.toList_eq ▸ hx)
    exact hcount x.1 (mem_map_of_mem hin) (by simpa using hlt)
  obtain ⟨_, hd1, _, _, hinv⟩ := hrun k
  cases hd.symm.trans hd1
  rw [processEvt, hd] at hd'
  exact step_calls hinv.list hd'

end

/-! ### Interfaces -/

/-- `ipacm_wan_iface_type`. -/
inductive WanIfaceType
  | wlanWan | q6Wan | ecmWan
  deriving DecidableEq, Repr

/-- The cases of `create_iface_instance()`. -/
inductive IfaceKind
  | lan | eth | odu (routerMode : Bool) | wlan | wan (type : WanIfaceType) | embms
  deriving DecidableEq, Repr

/-- The events of the uplink, with and without `FEATURE_IPA_ANDROID`. -/
def wanEvents (android : Bool) : List EventId :=
  if android then [.handleWanUpTether, .handleWanUpV6Tether, .handleWanDownTether, .handleWanDownV6Tether]
  else [.handleWanUp, .handleWanUpV6, .handleWanDown, .handleWanDownV6]

/-- `create_iface_instance()`: what an interface is registered for, in this order, with
`FEATURE_IPA_ANDROID` and `FEATURE_ETH_BRIDGE_LE`. -/
def createIfaceInstance (android ethBridge : Bool) : IfaceKind → List EventId
  | .lan =>
    [.addrAdd, .neighClientIpAddrAdd, .swRoutingEnable, .swRoutingDisable] ++ wanEvents android ++
      [.cfgChange, .privateSubnetChange] ++
      (if ethBridge then [.ethBridgeWlanClientAdd, .ethBridgeWlanClientDel, .ethBridgeHdrProcCtxSet,
        .ethBridgeHdrProcCtxUnset] else []) ++
      (if android then [.tetheringStatsUpdate] else []) ++ [.linkDown, .lanDeleteSelf]
  | .eth | .odu true =>
    [.addrAdd, .neighClientIpAddrAdd, .swRoutingEnable, .swRoutingDisable] ++ wanEvents false ++
      [.linkDown, .lanDeleteSelf]
  | .odu false =>
    [.addrAdd, .neighClientIpAddrAdd, .swRoutingEnable, .swRoutingDisable, .linkDown, .lanDeleteSelf]
  | .wlan =>
    [.addrAdd, .routeDel, .wlanClientAdd, .wlanClientAddEx, .wlanClientDel, .wlanClientPowerSave,
      .wlanClientRecover, .neighClientIpAddrAdd, .swRoutingEnable, .swRoutingDisable] ++
      wanEvents android ++ [.privateSubnetChange] ++
      (if ethBridge then [.ethBridgeUsbClientAdd, .ethBridgeUsbClientDel, .ethBridgeHdrProcCtxSet,
        .ethBridgeHdrProcCtxUnset] else []) ++
      [.wlanLinkDown, .lanDeleteSelf] ++ (if android then [.tetheringStatsUpdate] else [])
  | .wan type =>
    [.addrAdd] ++
      (if android then [.wanUpstreamRouteAdd, .wanUpstreamRouteDel] ++
          (if type = .q6Wan then [.networkStatsUpdate] else [])
        else [.routeAdd, .routeDel]) ++
      [.firewallChange, .neighClientIpAddrAdd, .swRoutingEnable, .swRoutingDisable, .cfgChange,
        if type = .wlanWan then .wlanLinkDown else .linkDown]
  | .embms => [.linkDown]

/-- The registrations of one interface. -/
def registrAll (obj : ℕ) : List EventId → EvtList → Option EvtList
  | [], s => some s
  | e :: es, s => (registr s e obj).bind (registrAll obj es)

theorem EvtReach.registrAll {s s' : EvtList} {obj : ℕ} {es : List EventId} (h : EvtReach s)
    (hs : Ipacm.registrAll obj es s = some s') : EvtReach s' := by
  induction es generalizing s with
  | nil =>
    cases hs
    exact h
  | cons e _ ih =>
    obtain ⟨_, hs1, hs⟩ := bind_eq_some_iff.mp hs
    exact ih (h.registr e obj hs1) hs

theorem processEvt_safe_lan :
    ∃ s, EvtReach s ∧ registrAll 1 (createIfaceInstance true true .lan) CellList.empty = some s ∧
      DispatchSafe s .linkDown fun _ => [] := by
  obtain ⟨s, hs⟩ : ∃ s, registrAll 1 (createIfaceInstance true true .lan) CellList.empty = some s := ⟨_, rfl⟩
  have h := EvtReach.empty.registrAll hs
  exact ⟨s, h, hs, (processEvt_safe_iff h).mpr fun k d hd l1 x y l2 hl hx hev hde =>
    absurd hde not_mem_nil⟩

/-- With `FEATURE_IPA_ANDROID`, a WLAN interface that deletes itself makes the dispatcher
read a freed node, and so does a cradle, in every build. -/
theorem processEvt_freed :
    (∃ s, EvtReach s ∧ registrAll 1 (createIfaceInstance true false .wlan) CellList.empty = some s ∧
      ¬ DispatchSafe s .lanDeleteSelf fun _ => [.deregistr]) ∧
    ∃ s, EvtReach s ∧
      registrAll 1 (createIfaceInstance false false (.wan .ecmWan)) CellList.empty = some s ∧
      ¬ DispatchSafe s .cfgChange fun _ => [.deregistr] := by
  constructor
  · obtain ⟨s, hs, hfreed⟩ : ∃ s, registrAll 1 (createIfaceInstance true false .wlan) CellList.empty = some s ∧
        processEvt s .lanDeleteSelf (fun _ => [.deregistr]) 18 = none := ⟨_, rfl, rfl⟩
    refine ⟨s, EvtReach.empty.registrAll hs, hs, fun hsafe => ?_⟩
    obtain ⟨d, hd⟩ := hsafe.noFreed 18
    rw [hfreed] at hd
    exact nomatch hd
  obtain ⟨s, hs, hfreed⟩ : ∃ s,
      registrAll 1 (createIfaceInstance false false (.wan .ecmWan)) CellList.empty = some s ∧
      processEvt s .cfgChange (fun _ => [.deregistr]) 9 = none := ⟨_, rfl, rfl⟩
  refine ⟨s, EvtReach.empty.registrAll hs, hs, fun hsafe => ?_⟩
  obtain ⟨d, hd⟩ := hsafe.noFreed 9
  rw [hfreed] at hd
  exact nomatch hd

end G4Common.Ipacm

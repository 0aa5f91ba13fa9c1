/-
The notification of one subscriber (`AgpsStateMachine::notifySubscribers()` of
`gps/loc_api/libloc_api_50001/loc_eng_agps.cpp`, as it is called for `RSRC_UNSUBSCRIBE`).

The receiver is an element of the list, and the notification has a pointer to it.  The loop deletes the subscribers
that are equal to the receiver, and the receiver is one of them; then it searches the list again.  So the subscribers
that are left are compared with an object that is gone: what is read there can be anything (`stale`), and whether a
subscriber is compared with it is recorded.

That happens whenever there are other subscribers (`agps_targeted_iff`).
-/
import G4Common.Gps.AgpsBroadcast

namespace G4Common.Gps

universe u

open DoublyLinked List Option

/-! ### Objects -/

/-- A subscriber in memory. -/
structure SubscriberObj where
  addr : ℕ
  sub : Subscriber

/-- A delivery, with the objects that were deleted and, for each comparison, the object that was asked and whether the
receiver was gone. -/
structure Targeted (X : Type u) where
  delivery : Delivery X
  deleted : List ℕ
  compared : List (ℕ × Bool)

namespace Targeted

variable {X : Type u}

/-- What is read from the receiver for the next comparison. -/
def rcver (stale : ℕ → Subscriber) (r : SubscriberObj) (t : Targeted X) : Subscriber :=
  if r.addr ∈ t.deleted then stale t.compared.length else r.sub

def delete (t : Targeted X) (o : SubscriberObj) : Targeted X := { t with deleted := t.deleted ++ [o.addr] }

end Targeted

namespace AgpsMachine

variable {X : Type u} (cls : AgpsClass X) (stale : ℕ → Subscriber) (r : SubscriberObj)

/-- `notifySubscriber()`, for a notification of the receiver. -/
def notifyTargeted (t : Targeted X) (o : SubscriberObj) : Bool × Targeted X :=
  let res := notifySubscriber cls ⟨.rcver (Targeted.rcver stale r t), .unsubscribe, true⟩ t.delivery o.sub
  (res.1, ⟨res.2, t.deleted, t.compared ++ [(o.addr, decide (r.addr ∈ t.deleted))]⟩)

/-- The loop of `notifySubscribers()`, with searches of at most `k` rounds. -/
def targetedLoop (k : ℕ) : ℕ → DList SubscriberObj → Targeted X → Option (DList SubscriberObj × Targeted X)
  | 0, _, _ => none
  | i + 1, s, t => (linkedListSearch (notifyTargeted cls stale r) true k s t).bind fun
    | (none, s, t) => some (s, t)
    | (some o, s, t) => targetedLoop k i s (t.delete o)

/-- `notifySubscribers()` for `RSRC_UNSUBSCRIBE`. -/
def notifySubscribersTo (k : ℕ) (s : DList SubscriberObj) (d : Delivery X) :
    Option (DList SubscriberObj × Targeted X) :=
  targetedLoop cls stale r k k s ⟨d, [], []⟩

/-- **The receiver alone is removed**, the others stay, and nobody is compared with what was deleted. -/
def TargetedRight (s : DList SubscriberObj) (l : List (ℕ × SubscriberObj)) (d : Delivery X) : Prop :=
  ∃ s' t, (∀ k, l.length < k → notifySubscribersTo cls stale r k s d = some (s', t)) ∧ t.deleted = [r.addr] ∧
    DoublyLinked.Holds s' (l.filter fun y => y.2.addr ≠ r.addr) ∧ ∀ c ∈ t.compared, c.2 = false

variable {cls stale r} {s s' : DList SubscriberObj} {l l1 l2 : List (ℕ × SubscriberObj)} {t t' : Targeted X}
  {d : Delivery X} {k i : ℕ} {o : SubscriberObj}

/-! ### What is never forgotten -/

theorem searchFrom_keeps {α E : Type*} {equal : E → α → Bool × E} {I : E → Prop}
    (hstep : ∀ e a, I e → I (equal e a).2) {rm : Bool} {tmp : ℕ} {s s' : DList α} {e e' : E} {o : Option α} (he : I e)
    (h : searchFrom equal rm k tmp s e = some (o, s', e')) : I e' := by
  induction k generalizing tmp e with
  | zero => cases h
  | succ _ ih =>
    rw [searchFrom] at h
    split at h
    · cases h
      exact he
    obtain ⟨c, -, h⟩ := bind_eq_some_iff.1 h
    split at h
    · split at h
      · obtain ⟨_, -, h⟩ := map_eq_some_iff.1 h
        cases h
        exact hstep e c.data he
      · cases h
        exact hstep e c.data he
    · exact ih (hstep e c.data he) h

/-- The records of `t` are records of `t'`. -/
structure Recorded (t t' : Targeted X) : Prop where
  deleted : t.deleted <+: t'.deleted
  compared : t.compared ⊆ t'.compared

theorem Recorded.refl (t : Targeted X) : Recorded t t := ⟨prefix_refl _, List.Subset.refl _⟩

theorem Recorded.trans {t'' : Targeted X} (h : Recorded t t') (h' : Recorded t' t'') : Recorded t t'' :=
  ⟨h.deleted.trans h'.deleted, List.Subset.trans h.compared h'.compared⟩

theorem recorded_notifyTargeted (t : Targeted X) (o : SubscriberObj) : Recorded t (notifyTargeted cls stale r t o).2 :=
  ⟨prefix_refl _, subset_append_left _ _⟩

theorem recorded_search {res : Option SubscriberObj}
    (h : linkedListSearch (notifyTargeted cls stale r) true k s t = some (res, s', t')) : Recorded t t' := by
  rw [linkedListSearch] at h
  split at h
  · cases h
    exact Recorded.refl _
  · exact searchFrom_keeps (I := Recorded t) (fun e a he => he.trans (recorded_notifyTargeted e a)) (Recorded.refl t) h

theorem recorded_loop (h : targetedLoop cls stale r k i s t = some (s', t')) : Recorded t t' := by
  induction i generalizing s t with
  | zero => cases h
  | succ _ ih =>
    rw [targetedLoop] at h
    obtain ⟨⟨res, _, t1⟩, hsearch, h⟩ := bind_eq_some_iff.1 h
    have hfirst := recorded_search hsearch
    rcases res with - | o
    · cases h
      exact hfirst
    · apply hfirst.trans
      exact (⟨prefix_append _ _, List.Subset.refl _⟩ : Recorded t1 (t1.delete o)).trans (ih h)

/-! ### Comparisons -/

theorem notifies_rcver (a b : Subscriber) : a.notifies ⟨.rcver b, .unsubscribe, true⟩ = a.equals b := Bool.and_true _

theorem notifyTargeted_fst (h : r.addr ∉ t.deleted) (o : SubscriberObj) :
    (notifyTargeted cls stale r t o).1 = o.sub.equals r.sub := by
  have hrcver : Targeted.rcver stale r t = r.sub := if_neg h
  rw [notifyTargeted, hrcver, ← notifies_rcver]
  dsimp only
  rcases hn : o.sub.notifies ⟨.rcver r.sub, .unsubscribe, true⟩ with - | -
  · rw [notifySubscriber_of_not cls t.delivery hn]
  · rw [notifySubscriber_of_notifies cls t.delivery hn]

theorem deleted_notifyTargeted (t : Targeted X) (o : SubscriberObj) :
    (notifyTargeted cls stale r t o).2.deleted = t.deleted := rfl

theorem deleted_afterAll (t : Targeted X) (os : List SubscriberObj) :
    (afterAll (notifyTargeted cls stale r) t os).deleted = t.deleted := by
  induction os generalizing t with
  | nil => rfl
  | cons _ _ ih => exact ih _

theorem compared_afterAll (os : List SubscriberObj) (ht : r.addr ∉ t.deleted) (h : ∀ c ∈ t.compared, c.2 = false) :
    ∀ c ∈ (afterAll (notifyTargeted cls stale r) t os).compared, c.2 = false := by
  induction os generalizing t with
  | nil => exact h
  | cons o _ ih =>
    apply ih (t := (notifyTargeted cls stale r t o).2) ht
    intro c hc
    rcases mem_append.1 hc with hc | hc
    · exact h c hc
    · obtain rfl := mem_singleton.1 hc
      exact decide_eq_false ht

theorem noneFound_of_not_equals {os : List SubscriberObj} (h : r.addr ∉ t.deleted)
    (hno : ∀ o ∈ os, o.sub.equals r.sub = false) : NoneFound (notifyTargeted cls stale r) t os := by
  induction os generalizing t with
  | nil => trivial
  | cons o _ ih =>
    refine ⟨?_, ih h fun o ho => hno o (mem_cons_of_mem _ ho)⟩
    rw [notifyTargeted_fst h]
    exact hno o mem_cons_self

theorem first_round (h : DoublyLinked.Holds s l) (hr : r ∈ l.map Prod.snd) (ht : r.addr ∉ t.deleted)
    (hcompared : ∀ c ∈ t.compared, c.2 = false) :
    ∃ l1 x l2 s' t', l = l1 ++ x :: l2 ∧ DoublyLinked.Holds s' (l1 ++ l2) ∧ t'.deleted = t.deleted ∧
      (∀ c ∈ t'.compared, c.2 = false) ∧ ∀ k, l.length < k → linkedListSearch (notifyTargeted cls stale r) true k s t = some (some x.2, s', t') := by
  have hsome : (l.find? fun y => y.2.sub.equals r.sub).isSome = true := by
    obtain ⟨y, hy, rfl⟩ := mem_map.1 hr
    exact find?_isSome.2 ⟨y, hy, Subscriber.equals_self _⟩
  obtain ⟨x, hfind⟩ := isSome_iff_exists.1 hsome
  obtain ⟨hx, l1, l2, rfl, hno⟩ := find?_eq_some_iff_append.1 hfind
  have hno' : ∀ o ∈ l1.map Prod.snd, o.sub.equals r.sub = false := by
    intro o ho
    obtain ⟨y, hy, rfl⟩ := mem_map.1 ho
    simpa using hno y hy
  have hafter : r.addr ∉ (afterAll (notifyTargeted cls stale r) t (l1.map Prod.snd)).deleted := by
    rw [deleted_afterAll]
    exact ht
  obtain ⟨s', h', hrun⟩ := linkedListSearch_some h (noneFound_of_not_equals ht hno')
    (by rw [notifyTargeted_fst hafter]; exact hx)
  refine ⟨l1, x, l2, s', _, rfl, h', ?_, ?_, hrun⟩
  · rw [deleted_notifyTargeted, deleted_afterAll]
  · -- the last comparison is the one with `x`
    exact compared_afterAll [x.2] hafter (compared_afterAll _ ht hcompared)

theorem first_compared {x : ℕ × SubscriberObj} {res : Option SubscriberObj} (h : DoublyLinked.Holds s (x :: l))
    (hrun : linkedListSearch (notifyTargeted cls stale r) true k s t = some (res, s', t')) :
    (x.2.addr, decide (r.addr ∈ t.deleted)) ∈ t'.compared := by
  have htail : s.tail ≠ 0 := fun h0 => by simpa using h.tail_eq_zero.1 h0
  obtain ⟨_, hne, n, hmem, -⟩ := h.seg
  rw [linkedListSearch, if_neg htail] at hrun
  cases k with
  | zero => cases hrun
  | succ =>
    have hin : (x.2.addr, decide (r.addr ∈ t.deleted)) ∈ (notifyTargeted cls stale r t x.2).2.compared :=
      mem_append_right _ mem_cons_self
    rw [searchFrom, if_neg hne, hmem, bind_some] at hrun
    split at hrun
    · rw [if_pos rfl] at hrun
      obtain ⟨_, -, hrun⟩ := map_eq_some_iff.1 hrun
      cases hrun
      exact hin
    · exact (searchFrom_keeps (I := Recorded (notifyTargeted cls stale r t x.2).2)
        (fun e a he => he.trans (recorded_notifyTargeted e a)) (Recorded.refl _) hrun).compared hin

/-! ### The two outcomes -/

theorem targetedLoop_nil (h : DoublyLinked.Holds s []) (hk : 0 < k) :
    targetedLoop cls stale r k (i + 1) s t = some (s, t) := by
  have hno : linkedListSearch (notifyTargeted cls stale r) true k s t = some (none, s, t) :=
    linkedListSearch_none h trivial hk
  rw [targetedLoop, hno]
  rfl

/-- **Targeted notification.**  For every list with the receiver in it, and whatever is read from deleted objects: the
receiver alone is removed and nobody is compared with a deleted object if and only if there is no other subscriber. -/
theorem agps_targeted_iff (cls : AgpsClass X) (stale : ℕ → Subscriber) {r : SubscriberObj} {s : DList SubscriberObj}
    {l : List (ℕ × SubscriberObj)} (h : DoublyLinked.Holds s l) (hr : r ∈ l.map Prod.snd) (d : Delivery X) :
    TargetedRight cls stale r s l d ↔ l.length = 1 := by
  obtain ⟨l1, x, l2, s1, t1, hl, h1, hdeleted, hfirst, hsearch⟩ :=
    @first_round _ cls stale r s l ⟨d, [], []⟩ h hr not_mem_nil nofun
  constructor
  · rintro ⟨s', t, hrun, hone, -, hcompared⟩
    have hrun' := hrun (l.length + 1) (Nat.lt_succ_self _)
    rw [notifySubscribersTo, targetedLoop, hsearch _ (Nat.lt_succ_self _), bind_some] at hrun'
    replace hrun' : targetedLoop cls stale r (l.length + 1) l.length s1 (t1.delete x.2) = some (s', t) := hrun'
    -- the first one that is deleted is the receiver
    have hprefix := (recorded_loop hrun').deleted
    rw [hone, Targeted.delete, hdeleted, nil_append] at hprefix
    obtain ⟨_, hrest⟩ := hprefix
    have hx : x.2.addr = r.addr := (cons.inj hrest).1
    have hgone : r.addr ∈ (t1.delete x.2).deleted := mem_append_right _ (by rw [hx]; exact mem_cons_self)
    rcases hleft : l1 ++ l2 with - | ⟨y, _⟩
    · obtain ⟨rfl, rfl⟩ := append_eq_nil_iff.1 hleft
      rw [hl]
      rfl
    -- the first of the others is compared with it
    rw [hleft] at h1
    obtain ⟨n, hn⟩ : ∃ n, l.length = n + 1 := ⟨l.length - 1, by
      have := length_pos_of_mem hr
      rw [length_map] at this
      omega⟩
    rw [hn, targetedLoop] at hrun'
    obtain ⟨⟨res, _, _⟩, hsecond, hrun'⟩ := bind_eq_some_iff.1 hrun'
    have hmem := first_compared h1 hsecond
    have hlast : (y.2.addr, decide (r.addr ∈ (t1.delete x.2).deleted)) ∈ t.compared := by
      rcases res with - | o
      · cases hrun'
        exact hmem
      · exact (recorded_loop hrun').compared hmem
    have hfalse := hcompared _ hlast
    rw [decide_eq_true hgone] at hfalse
    cases hfalse
  intro hlen
  have hnil : l1 = [] ∧ l2 = [] := by
    rw [hl, length_append, length_cons] at hlen
    exact ⟨eq_nil_of_length_eq_zero (by omega), eq_nil_of_length_eq_zero (by omega)⟩
  obtain ⟨rfl, rfl⟩ := hnil
  subst hl
  obtain rfl : r = x.2 := mem_singleton.1 hr
  refine ⟨s1, t1.delete x.2, fun k hk => ?_, ?_, ?_, hfirst⟩
  · obtain ⟨k, rfl⟩ : ∃ j, k = j + 1 + 1 := ⟨k - 2, by omega⟩
    rw [notifySubscribersTo, targetedLoop, hsearch _ hk, bind_some]
    exact targetedLoop_nil h1 (Nat.succ_pos _)
  · rw [Targeted.delete, hdeleted]
    rfl
  · simpa using h1

/-- One subscriber, who unsubscribes. -/
theorem agps_targeted_one : TargetedRight (agpsBase fun _ => ⟨.bit, 0, [], false⟩) (fun _ => ⟨.bit, 0, [], false⟩) ⟨100, ⟨.atl, 7, [], false⟩⟩
      ⟨1, 1, fun p => if p = 1 then some ⟨⟨100, ⟨.atl, 7, [], false⟩⟩, 0, 0⟩ else none⟩
      [(1, ⟨100, ⟨.atl, 7, [], false⟩⟩)] ⟨0, [], []⟩ := by
  have hs : DoublyLinked.Holds ⟨1, 1, fun p => if p = 1 then some ⟨⟨100, ⟨.atl, 7, [], false⟩⟩, 0, 0⟩ else none⟩
      [(1, (⟨100, ⟨.atl, 7, [], false⟩⟩ : SubscriberObj))] := ⟨⟨rfl, by decide, 0, rfl, rfl, rfl⟩, by decide⟩
  exact (agps_targeted_iff _ _ hs mem_cons_self _).2 rfl

/-- Of two, the one at the head of the list unsubscribes: the other one is compared with it after it was deleted. -/
theorem agps_targeted_fails :
    ¬ ∀ (stale : ℕ → Subscriber) (r : SubscriberObj) (s : DList SubscriberObj) (l : List (ℕ × SubscriberObj)),
      DoublyLinked.Holds s l → r ∈ l.map Prod.snd → TargetedRight (agpsBase stale) stale r s l ⟨0, [], []⟩ := by
  intro hall
  have hs : DoublyLinked.Holds ⟨2, 1, fun p => if p = 2 then some ⟨⟨200, ⟨.atl, 8, [], false⟩⟩, 1, 0⟩ else
        if p = 1 then some ⟨⟨100, ⟨.atl, 7, [], false⟩⟩, 0, 2⟩ else none⟩
      [(2, (⟨200, ⟨.atl, 8, [], false⟩⟩ : SubscriberObj)), (1, ⟨100, ⟨.atl, 7, [], false⟩⟩)] :=
    ⟨⟨rfl, by decide, 1, rfl, rfl, by decide, 0, rfl, rfl, rfl⟩, by decide⟩
  obtain ⟨_, t, hrun, -, -, hcompared⟩ :=
    hall (fun _ => ⟨.bit, 0, [], false⟩) ⟨200, ⟨.atl, 8, [], false⟩⟩ _ _ hs mem_cons_self
  have hthree := hrun 3 (by decide)
  obtain ⟨-, rfl⟩ := Prod.mk.inj (some.inj hthree)
  exact absurd (hcompared (100, true) (by decide)) (by decide)

end AgpsMachine

end G4Common.Gps

/-
The delivery of a broadcast (`AgpsStateMachine::notifySubscribers()` of
`gps/loc_api/libloc_api_50001/loc_eng_agps.cpp`, with `linked_list_search()` of `gps/utils/linked_list.c`).

A search through the list is the only way to the subscribers.  What it tests a subscriber with, `notifySubscriber()`,
delivers the notification; if the subscriber is to be deleted, the search ends there, and is started again from the
head.  The subscribers before the one that was deleted are asked again, but they have no part in the notification, and
say so again.

The list is in memory here.  What a search does is said in terms of the list of values (`linkedListSearch_none`,
`linkedListSearch_some`), and so is what the loop around it does (`loopDone`); with this the function is that of `Agps`
(`notifySubscribersIn_refines`).
-/
import G4Common.Gps.AgpsSubscriptions
import G4Common.Lib.DoublyLinked

namespace G4Common.Gps

universe u

open DoublyLinked List Bool Option

/-! ### The search -/

section Search

variable {α : Type*} {E : Type*} (equal : E → α → Bool × E)

/-- The loop of `linked_list_search()`; `E` is what `equal` may change.  A loop that is still going on after the given
number of rounds is not described, nor is a search that follows a pointer to a cell that is not there. -/
def searchFrom (rmIfFound : Bool) : ℕ → ℕ → DList α → E → Option (Option α × DList α × E)
  | 0, _, _, _ => none
  | k + 1, tmp, s, e =>
    if tmp = 0 then some (none, s, e)
    else (s.mem tmp).bind fun c =>
      if (equal e c.data).1 then
        if rmIfFound then (s.unlink tmp).map fun s => (some c.data, s, (equal e c.data).2)
        else some (some c.data, s, (equal e c.data).2)
      else searchFrom rmIfFound k c.next s (equal e c.data).2

/-- `linked_list_search()`, with `*data_p` as its result. -/
def linkedListSearch (rmIfFound : Bool) (k : ℕ) (s : DList α) (e : E) : Option (Option α × DList α × E) :=
  if s.tail = 0 then some (none, s, e) else searchFrom equal rmIfFound k s.head s e

/-- What is changed by a search that finds nothing. -/
def afterAll (e : E) (l : List α) : E := l.foldl (fun e a => (equal e a).2) e

def NoneFound : E → List α → Prop
  | _, [] => True
  | e, a :: l => (equal e a).1 = false ∧ NoneFound (equal e a).2 l

variable {equal} {s : DList α} {rm : Bool} {e : E} {l l1 l2 : List (ℕ × α)} {x : ℕ × α} {b p q t : ℕ}

theorem searchFrom_append (hseg : DSeg s.mem b p l t q) (hnone : NoneFound equal e (l.map Prod.snd)) (k : ℕ) :
    searchFrom equal rm (l.length + k) p s e = searchFrom equal rm k q s (afterAll equal e (l.map Prod.snd)) := by
  induction l generalizing b p e with
  | nil =>
    obtain ⟨-, rfl⟩ := hseg
    rw [length_nil, Nat.zero_add]
    rfl
  | cons y l ih =>
    obtain ⟨rfl, hne, n, hy, hrest⟩ := hseg
    have hlen : (y :: l).length + k = l.length + k + 1 := by
      rw [length_cons]
      omega
    rw [hlen, searchFrom, if_neg hne, hy, bind_some, if_neg (by rw [hnone.1]; exact false_ne_true)]
    exact ih hrest hnone.2

/-- **A search that finds nothing** goes through the whole list. -/
theorem linkedListSearch_none (h : Holds s l) (hnone : NoneFound equal e (l.map Prod.snd)) {k : ℕ}
    (hk : l.length < k) : linkedListSearch equal rm k s e = some (none, s, afterAll equal e (l.map Prod.snd)) := by
  rw [linkedListSearch]
  split_ifs with htail
  · rw [h.tail_eq_zero.1 htail]
    rfl
  · obtain ⟨k, rfl⟩ : ∃ r, k = l.length + (r + 1) := ⟨k - l.length - 1, by omega⟩
    rw [searchFrom_append h.seg hnone, searchFrom, if_pos rfl]

/-- **A search that finds a value** deletes its cell. -/
theorem linkedListSearch_some (h : Holds s (l1 ++ x :: l2)) (hnone : NoneFound equal e (l1.map Prod.snd))
    (hx : (equal (afterAll equal e (l1.map Prod.snd)) x.2).1) :
    ∃ s', Holds s' (l1 ++ l2) ∧ ∀ k, (l1 ++ x :: l2).length < k →
      linkedListSearch equal true k s e =
        some (some x.2, s', (equal (afterAll equal e (l1.map Prod.snd)) x.2).2) := by
  obtain ⟨s', hunlink, h'⟩ := h.unlink
  obtain ⟨hne, m, n, hseg, hmem, -⟩ := h.split
  refine ⟨s', h', fun k hk => ?_⟩
  have htail : s.tail ≠ 0 := fun h0 => by simpa using h.tail_eq_zero.1 h0
  rw [length_append, length_cons] at hk
  obtain ⟨k, rfl⟩ : ∃ r, k = l1.length + (r + 1) := ⟨k - l1.length - 1, by omega⟩
  rw [linkedListSearch, if_neg htail, searchFrom_append hseg hnone, searchFrom, if_neg hne, hmem, bind_some,
    if_pos hx, if_pos rfl, hunlink]
  rfl

end Search

/-! ### The subscribers -/

/-- The machine as it is reached by a subscriber, what goes out, and the subscribers that took a notification. -/
structure Delivery (X : Type u) where
  ext : X
  outs : List AgpsOut
  told : List Subscriber

namespace AgpsMachine

variable {X : Type u} (cls : AgpsClass X)

def notifyRsrcStatus (n : Notification) (d : Delivery X) (s : Subscriber) : Bool × Delivery X :=
  if s.notifies n then
    (true, ⟨cls.informed d.ext s n.rsrcStatus, d.outs ++ s.report n.rsrcStatus, d.told ++ [s]⟩)
  else (false, d)

def notifySubscriber (n : Notification) (d : Delivery X) (s : Subscriber) : Bool × Delivery X :=
  ((notifyRsrcStatus cls n d s).1 && n.postNotifyDelete, (notifyRsrcStatus cls n d s).2)

/-- The loop of `notifySubscribers()`: a search of at most `k` rounds, as long as a subscriber is found. -/
def deleteLoop (n : Notification) (k : ℕ) : ℕ → DList Subscriber → Delivery X → Option (DList Subscriber × Delivery X)
  | 0, _, _ => none
  | r + 1, s, d => (linkedListSearch (notifySubscriber cls n) true k s d).bind fun
    | (none, s, d) => some (s, d)
    | (some _, s, d) => deleteLoop n k r s d

/-- `notifySubscribers()` on the list in memory.  The notification reads as it is throughout; see `AgpsTargeted` for one
whose receiver is deleted. -/
def notifySubscribersIn (n : Notification) (k : ℕ) (s : DList Subscriber) (d : Delivery X) :
    Option (DList Subscriber × Delivery X) :=
  if n.postNotifyDelete then deleteLoop cls n k k s d
  else (linkedListSearch (notifySubscriber cls n) false k s d).map Prod.snd

/-- What the notification of some subscribers does. -/
def delivered (status : AgpsRsrcStatus) (d : Delivery X) (subs : List Subscriber) : Delivery X :=
  ⟨subs.foldl (fun x s => cls.informed x s status) d.ext, d.outs ++ subs.flatMap fun s => s.report status,
    d.told ++ subs⟩

variable {n : Notification} (d : Delivery X) {subs : List Subscriber} {s : DList Subscriber}
  {l : List (ℕ × Subscriber)}

theorem delivered_nil (status : AgpsRsrcStatus) : delivered cls status d [] = d := by
  rw [delivered, flatMap_nil, append_nil, append_nil]
  rfl

theorem delivered_cons (status : AgpsRsrcStatus) (a : Subscriber) : delivered cls status d (a :: subs) =
      delivered cls status ⟨cls.informed d.ext a status, d.outs ++ a.report status, d.told ++ [a]⟩ subs := by
  simp only [delivered, foldl_cons, flatMap_cons, append_assoc, singleton_append]

theorem notifySubscriber_of_notifies {a : Subscriber} (h : a.notifies n) : notifySubscriber cls n d a =
      (n.postNotifyDelete, ⟨cls.informed d.ext a n.rsrcStatus, d.outs ++ a.report n.rsrcStatus, d.told ++ [a]⟩) := by
  rw [notifySubscriber, notifyRsrcStatus, if_pos h, Bool.true_and]

theorem notifySubscriber_of_not {a : Subscriber} (h : a.notifies n = false) :
    notifySubscriber cls n d a = (false, d) := by
  rw [notifySubscriber, notifyRsrcStatus, if_neg (by rw [h]; exact Bool.false_ne_true), Bool.false_and]

theorem noneFound_of_not (h : ∀ a ∈ subs, a.notifies n = false) :
    NoneFound (notifySubscriber cls n) d subs ∧ afterAll (notifySubscriber cls n) d subs = d := by
  induction subs with
  | nil => exact ⟨trivial, rfl⟩
  | cons a _ ih =>
    have ha := notifySubscriber_of_not cls d (h a mem_cons_self)
    obtain ⟨hnone, hafter⟩ := ih fun b hb => h b (mem_cons_of_mem _ hb)
    rw [NoneFound, afterAll, foldl_cons, ha]
    exact ⟨⟨rfl, hnone⟩, hafter⟩

theorem noneFound_of_keep (subs : List Subscriber) (hkeep : n.postNotifyDelete = false) :
    NoneFound (notifySubscriber cls n) d subs ∧
      afterAll (notifySubscriber cls n) d subs = delivered cls n.rsrcStatus d (subs.filter (Subscriber.notifies · n)) := by
  induction subs generalizing d with
  | nil => exact ⟨trivial, (delivered_nil cls d _).symm⟩
  | cons a _ ih =>
    rw [NoneFound, afterAll, foldl_cons]
    rcases ha : a.notifies n with - | -
    · rw [notifySubscriber_of_not cls d ha, filter_cons_of_neg (by rw [ha]; exact false_ne_true)]
      obtain ⟨hnone, hafter⟩ := ih d
      exact ⟨⟨rfl, hnone⟩, hafter⟩
    · rw [notifySubscriber_of_notifies cls d ha, hkeep, filter_cons_of_pos (by exact ha), delivered_cons]
      obtain ⟨hnone, hafter⟩ := ih ⟨_, _, _⟩
      exact ⟨⟨rfl, hnone⟩, hafter⟩

/-- What the loop does: who is notified leaves the list, and is told so in the order of the list. -/
def LoopDone (cls : AgpsClass X) (n : Notification) (r : ℕ) (s : DList Subscriber) (l : List (ℕ × Subscriber))
    (d : Delivery X) : Prop :=
  ∃ s', DoublyLinked.Holds s' (l.filter fun y => !y.2.notifies n) ∧ ∀ k r', l.length < k → r < r' →
    deleteLoop cls n k r' s d =
      some (s', delivered cls n.rsrcStatus d ((l.filter fun y => y.2.notifies n).map Prod.snd))

theorem loopDone_none (h : DoublyLinked.Holds s l) (hnone : ∀ y ∈ l, y.2.notifies n = false) (r : ℕ) :
    LoopDone cls n r s l d := by
  obtain ⟨hnil, hall⟩ := filter_none hnone
  have hsubs : ∀ a ∈ l.map Prod.snd, a.notifies n = false := by
    intro a ha
    obtain ⟨y, hy, rfl⟩ := mem_map.1 ha
    exact hnone y hy
  obtain ⟨hno, hafter⟩ := noneFound_of_not cls d hsubs
  rw [LoopDone, hall, hnil]
  refine ⟨s, h, fun k r' hk hr' => ?_⟩
  obtain ⟨_, rfl⟩ := Nat.exists_eq_succ_of_ne_zero (Nat.ne_of_gt (Nat.zero_lt_of_lt hr'))
  rw [map_nil, delivered_nil, deleteLoop, linkedListSearch_none h hno hk, hafter]
  rfl

/-- **The loop**: each search notifies and deletes the next subscriber; the subscribers before it are asked in vain
each time.  The induction is on the number of subscribers that are still to be notified. -/
theorem loopDone (hdel : n.postNotifyDelete) {r : ℕ} (h : DoublyLinked.Holds s l)
    (hr : (l.filter fun y => y.2.notifies n).length ≤ r) : LoopDone cls n r s l d := by
  induction r generalizing s l d with
  | zero =>
    apply loopDone_none cls d h
    intro y hy
    have hnil := filter_eq_nil_iff.1 (eq_nil_of_length_eq_zero (Nat.le_zero.1 hr)) y hy
    exact eq_false_iff.2 hnil
  | succ r ih =>
    rcases hfind : l.find? fun y => y.2.notifies n with - | x
    · apply loopDone_none cls d h
      intro y hy
      exact eq_false_iff.2 (find?_eq_none.1 hfind y hy)
    obtain ⟨hx, l1, l2, rfl, hno⟩ := find?_eq_some_iff_append.1 hfind
    have hno' : ∀ y ∈ l1, y.2.notifies n = false := by simpa using hno
    have hbefore : ∀ a ∈ l1.map Prod.snd, a.notifies n = false := by
      intro a ha
      obtain ⟨y, hy, rfl⟩ := mem_map.1 ha
      exact hno' y hy
    obtain ⟨hnone, hafter⟩ := noneFound_of_not cls d hbefore
    have htakes := notifySubscriber_of_notifies cls d hx
    rw [hdel] at htakes
    obtain ⟨_, h1, hsearch⟩ := linkedListSearch_some h hnone (by rw [hafter, htakes])
    rw [hafter, htakes] at hsearch
    obtain ⟨hfilter, hrest⟩ := filter_without (p := fun y : ℕ × Subscriber => y.2.notifies n) rfl hx hno'
    rw [hfilter, length_cons] at hr
    obtain ⟨s', h', hloop⟩ := ih _ h1 (Nat.le_of_succ_le_succ hr)
    rw [LoopDone, hfilter, hrest]
    refine ⟨s', h', fun k r' hk hr' => ?_⟩
    obtain ⟨r', rfl⟩ := Nat.exists_eq_succ_of_ne_zero (Nat.ne_of_gt (Nat.zero_lt_of_lt hr'))
    have hk' : (l1 ++ l2).length < k := by
      simp only [length_append, length_cons] at hk ⊢
      omega
    rw [deleteLoop, hsearch k hk, bind_some, map_cons, delivered_cons]
    exact hloop k r' hk' (Nat.lt_of_succ_lt_succ hr')

/-- **`notifySubscribers()`** on any list: who takes the notification is told so once, in the order of the list, and
leaves it if the notification says so. -/
theorem notifySubscribersIn_spec (n : Notification) (h : DoublyLinked.Holds s l) :
    ∃ s', DoublyLinked.Holds s' (if n.postNotifyDelete then l.filter fun y => !y.2.notifies n else l) ∧
      ∀ k, l.length < k → notifySubscribersIn cls n k s d =
        some (s', delivered cls n.rsrcStatus d ((l.filter fun y => y.2.notifies n).map Prod.snd)) := by
  rcases hdel : n.postNotifyDelete with - | -
  · refine ⟨s, h, fun k hk => ?_⟩
    obtain ⟨hnone, hafter⟩ := noneFound_of_keep cls d (l.map Prod.snd) hdel
    rw [notifySubscribersIn, if_neg (by rw [hdel]; exact false_ne_true), linkedListSearch_none h hnone hk, hafter,
      List.filter_map]
    rfl
  obtain ⟨s', h', hloop⟩ := loopDone cls d hdel h (length_filter_le _ l)
  refine ⟨s', h', fun k hk => ?_⟩
  rw [notifySubscribersIn, if_pos hdel]
  exact hloop k k hk hk

/-! ### The machine -/

theorem foldl_notify (status : AgpsRsrcStatus) (m : AgpsMachine X) :
    subs.foldl (fun m a => notify cls m a status) m =
      { m with
        ext := (delivered cls status ⟨m.ext, m.outs, []⟩ subs).ext
        outs := (delivered cls status ⟨m.ext, m.outs, []⟩ subs).outs } := by
  induction subs generalizing m with
  | nil => rw [delivered_nil, foldl_nil]
  | cons a _ ih =>
    rw [foldl_cons, delivered_cons, ih (notify cls m a status)]
    rfl

/-- **The function on the list of values**: the subscribers that take the notification are notified in order. -/
theorem notifySubscribers_eq (m : AgpsMachine X) (n : Notification)
    (hreads : n.postNotifyDelete = true → ReadsOn cls m.subscribers n.group) : notifySubscribers cls m n =
      { m with
        subscribers := if n.postNotifyDelete then m.subscribers.filter fun a => !a.notifies n else m.subscribers
        ext := (delivered cls n.rsrcStatus ⟨m.ext, m.outs, []⟩ (m.subscribers.filter (Subscriber.notifies · n))).ext
        outs := (delivered cls n.rsrcStatus ⟨m.ext, m.outs, []⟩
          (m.subscribers.filter (Subscriber.notifies · n))).outs } := by
  rw [notifySubscribers_eq_foldl cls m n hreads, foldl_notify]

/-- **The list in memory is notified as the list of values is**, if no subscriber is deleted that the notification has a
pointer to, or its memory still reads as it did. -/
theorem notifySubscribersIn_refines {m : AgpsMachine X} (h : DoublyLinked.Holds s l)
    (hl : l.map Prod.snd = m.subscribers) (n : Notification)
    (hreads : n.postNotifyDelete = true → ReadsOn cls m.subscribers n.group) :
    ∃ s' l', DoublyLinked.Holds s' l' ∧ l'.map Prod.snd = (notifySubscribers cls m n).subscribers ∧
      ∀ k, l.length < k → notifySubscribersIn cls n k s ⟨m.ext, m.outs, []⟩ =
        some (s', ⟨(notifySubscribers cls m n).ext, (notifySubscribers cls m n).outs,
          m.subscribers.filter (Subscriber.notifies · n)⟩) := by
  obtain ⟨s', h', hrun⟩ := notifySubscribersIn_spec cls ⟨m.ext, m.outs, []⟩ n h
  have hfilter : ∀ p : Subscriber → Bool, (l.filter fun y => p y.2).map Prod.snd = m.subscribers.filter p := by
    intro p
    rw [← hl, List.filter_map]
    rfl
  refine ⟨s', _, h', ?_, fun k hk => ?_⟩
  · rw [notifySubscribers_eq cls m n hreads]
    rcases n.postNotifyDelete with - | -
    · exact hl
    · exact hfilter fun a => !a.notifies n
  · rw [hrun k hk, hfilter (Subscriber.notifies · n), notifySubscribers_eq cls m n hreads]
    rfl

/-- Of three subscribers, the one that is closed stays. -/
theorem notifySubscribersIn_refines_sample : ∃ s' l', DoublyLinked.Holds s' l' ∧
    l'.map Prod.snd = [⟨.wifi, 2, [], true⟩] ∧
      ∀ k, 3 < k → notifySubscribersIn (agpsBase fun _ => ⟨.atl, 0, [], false⟩) ⟨.active, .denied, true⟩ k
          ⟨7, 5, fun p => if p = 7 then some ⟨⟨.wifi, 1, [], false⟩, 6, 0⟩ else
            if p = 6 then some ⟨⟨.wifi, 2, [], true⟩, 5, 7⟩ else
            if p = 5 then some ⟨⟨.atl, 3, [], false⟩, 0, 6⟩ else none⟩ ⟨0, [], []⟩ =
        some (s', ⟨2, [.notify ⟨.wifi, 1, [], false⟩ .denied, .notify ⟨.atl, 3, [], false⟩ .denied],
          [⟨.wifi, 1, [], false⟩, ⟨.atl, 3, [], false⟩]⟩) :=
  notifySubscribersIn_refines (agpsBase fun _ => ⟨.atl, 0, [], false⟩)
    (m := { AgpsMachine.new false 0 with
      subscribers := [⟨.wifi, 1, [], false⟩, ⟨.wifi, 2, [], true⟩, ⟨.atl, 3, [], false⟩] })
    (l := [(7, ⟨.wifi, 1, [], false⟩), (6, ⟨.wifi, 2, [], true⟩), (5, ⟨.atl, 3, [], false⟩)])
    ⟨⟨rfl, by decide, 6, rfl, rfl, by decide, 5, rfl, rfl, by decide, 0, rfl, rfl, rfl⟩, by decide⟩ rfl
    ⟨.active, .denied, true⟩ fun _ => readsOn_of_isBroadcast _ trivial

/-! ### Broadcasts -/

/-- The `groupID` of a notification that is for no single subscriber. -/
inductive BroadcastGroup
  | all
  | active
  | inactive

def BroadcastGroup.group : BroadcastGroup → NotificationGroup
  | .all => .all
  | .active => .active
  | .inactive => .inactive

/-- Only a `WIFISubscriber` has nothing to report, of an unsubscription. -/
def reports (status : AgpsRsrcStatus) (a : Subscriber) : Bool := !(a.kind = .wifi && status = .unsubscribe)

theorem flatMap_report (status : AgpsRsrcStatus) :
    (subs.flatMap fun a => a.report status) = (subs.filter (reports status)).map (AgpsOut.notify · status) := by
  induction subs with
  | nil => rfl
  | cons a _ ih =>
    rw [flatMap_cons, ih, Subscriber.report]
    by_cases ha : a.kind = .wifi ∧ status = .unsubscribe
    · have hno : ¬ reports status a = true := by simp [reports, ha.1, ha.2]
      rw [if_pos ha, filter_cons_of_neg hno, nil_append]
    have hyes : reports status a = true := by
      rw [reports, not_eq_true', eq_false_iff]
      exact fun hand => ha (by simpa using hand)
    rw [if_neg ha, filter_cons_of_pos hyes, map_cons]
    rfl

/-- **A broadcast** is taken by each subscriber that it is for, once and in the order of the list, and by no other.
Each of them reports the status, except that a `WIFISubscriber` has nothing to report of an unsubscription.  The others
stay in the list, in their order, if the subscribers are to be deleted; else all do. -/
theorem agps_broadcast (cls : AgpsClass X) (g : BroadcastGroup) {status : AgpsRsrcStatus} (hstatus : status ≠ .subscribe)
    (postNotifyDelete : Bool) {s : DList Subscriber} {l : List (ℕ × Subscriber)} (h : DoublyLinked.Holds s l)
    (d : Delivery X) :
    ∃ s' d', (∀ k, l.length < k →
        notifySubscribersIn cls ⟨g.group, status, postNotifyDelete⟩ k s d = some (s', d')) ∧
      d'.told = d.told ++ (l.map Prod.snd).filter (·.forMe g.group) ∧
      d'.outs = d.outs ++
        (((l.map Prod.snd).filter (·.forMe g.group)).filter (reports status)).map (AgpsOut.notify · status) ∧
      DoublyLinked.Holds s' (if postNotifyDelete then l.filter fun y => !y.2.forMe g.group else l) := by
  have hnotifies : ∀ a : Subscriber, a.notifies ⟨g.group, status, postNotifyDelete⟩ = a.forMe g.group := by
    intro a
    rw [Subscriber.notifies, decide_eq_true hstatus, Bool.and_true]
  obtain ⟨s', h', hrun⟩ := notifySubscribersIn_spec cls d ⟨g.group, status, postNotifyDelete⟩ h
  simp only [hnotifies] at h' hrun
  have hfilter : (l.filter fun y => y.2.forMe g.group).map Prod.snd = (l.map Prod.snd).filter (·.forMe g.group) := by
    rw [List.filter_map]
    rfl
  rw [hfilter] at hrun
  refine ⟨s', _, hrun, rfl, ?_, h'⟩
  show d.outs ++ _ = _
  rw [flatMap_report]

/-- Of two emergency calls, the one that is closed. -/
theorem agps_broadcast_two : ∃ s' d', (∀ k, 2 < k → notifySubscribersIn agpsDs ⟨.inactive, .released, true⟩ k
        ⟨2, 1, fun p => if p = 2 then some ⟨DsData.subscriber 7, 1, 0⟩ else
          if p = 1 then some ⟨(DsData.subscriber 8).setInactive, 0, 2⟩ else none⟩
        ⟨⟨0, 0, 0, true⟩, [], []⟩ = some (s', d')) ∧
      d'.told = [(DsData.subscriber 8).setInactive] ∧
      d'.outs = [.notify (DsData.subscriber 8).setInactive .released] ∧
      DoublyLinked.Holds s' [(2, DsData.subscriber 7)] := by
  refine agps_broadcast agpsDs .inactive (by decide) true
    (l := [(2, DsData.subscriber 7), (1, (DsData.subscriber 8).setInactive)]) ⟨?_, by decide⟩ ⟨⟨0, 0, 0, true⟩, [], []⟩
  exact ⟨rfl, by decide, 1, rfl, rfl, by decide, 0, rfl, rfl, rfl⟩

/-- A wireless subscriber has nothing to report when all are unsubscribed. -/
theorem agps_broadcast_fails :
    ¬ ∀ (g : BroadcastGroup) (status : AgpsRsrcStatus) (postNotifyDelete : Bool) (s : DList Subscriber)
        (l : List (ℕ × Subscriber)), status ≠ .subscribe → DoublyLinked.Holds s l →
      ∃ s' d', (∀ k, l.length < k →
          notifySubscribersIn (agpsBase fun _ => ⟨.atl, 0, [], false⟩) ⟨g.group, status, postNotifyDelete⟩ k s ⟨0, [], []⟩ = some (s', d')) ∧
        d'.outs = ((l.map Prod.snd).filter (·.forMe g.group)).map (AgpsOut.notify · status) := by
  intro h
  have hs : DoublyLinked.Holds ⟨1, 1, fun p => if p = 1 then some ⟨⟨.wifi, 5, [], false⟩, 0, 0⟩ else none⟩
      [(1, (⟨.wifi, 5, [], false⟩ : Subscriber))] := ⟨⟨rfl, by decide, 0, rfl, rfl, rfl⟩, by decide⟩
  obtain ⟨_, _, hrun, houts⟩ := h .all .unsubscribe false _ _ (by decide) hs
  have htwo := hrun 2 (by decide)
  obtain ⟨-, rfl⟩ := Prod.mk.inj (some.inj htwo)
  cases houts

end AgpsMachine

end G4Common.Gps

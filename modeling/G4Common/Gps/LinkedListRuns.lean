/-
The list of pointers of `gps/utils/linked_list.c`, over any sequence of its operations.

Elements are added at the head and taken from the tail.  A search goes from the head, and can take out what it finds;
then the links around the element are changed in four ways, with `p_head` and `p_tail` in the place of the links that
are not there.  `ListOp.onSeq` says what each operation is for, with a sequence of blocks of memory in the place of the
list: which blocks there are, in which order, what was handed to the deallocation functions, and what is returned.

`Refines` connects the two.  It also has the memory exactly: a block is in use if and only if it is in the sequence.
-/
import G4Common.Gps.AgpsBroadcast

namespace G4Common.Gps

open DoublyLinked List Function

/-- What an element has besides its links: `data_ptr`, and `dealloc_func`, `0` if there is none. -/
structure ListData where
  dataPtr : ℕ
  deallocFunc : ℕ

/-- `linked_list_err_type`. -/
inductive LinkedListErr
  | success
  | failureGeneral
  | invalidParameter
  | invalidHandle
  | unavailableResource
  | insufficientBuffer

/-- The list in memory, and the calls of deallocation functions: the function and its argument. -/
structure LinkedList where
  list : DList ListData
  freed : List (ℕ × ℕ)

/-- What is returned, and what is written through the pointer that was passed for it. -/
abbrev ListReply := LinkedListErr × Option ℕ

/-- The calls of `dealloc_func` for the given data. -/
def deallocs (l : List ListData) : List (ℕ × ℕ) :=
  (l.filter fun d => d.deallocFunc ≠ 0).map fun d => (d.deallocFunc, d.dataPtr)

/-! ### The operations -/

/-- `linked_list_init()`, on a memory without elements. -/
def linkedListInit : LinkedList := ⟨⟨0, 0, fun _ => none⟩, []⟩

/-- `malloc()` of an element: the block `a`, or `NULL` if that is in use. -/
def mallocElem (s : DList ListData) (a : ℕ) : ℕ := if (s.mem a).isNone then a else 0

def linkedListAdd (a dataObj dealloc : ℕ) (s : LinkedList) : Option (ListReply × LinkedList) :=
  if dataObj = 0 then some ((.invalidParameter, none), s)
  else
    let elem := mallocElem s.list a
    if elem = 0 then some ((.failureGeneral, none), s)
    else
      let tmp := s.list.head
      let mem := update s.list.mem elem (some ⟨⟨dataObj, dealloc⟩, tmp, 0⟩)
      -- `tmp->prev`, or `p_tail` if the list was empty
      (DList.relinkPrev { s.list with head := elem, mem := mem } tmp elem).map fun list =>
        ((.success, none), { s with list := list })

/-- `linked_list_remove()`; `out` says whether there is a pointer for the data. -/
def linkedListRemove (out : Bool) (s : LinkedList) : Option (ListReply × LinkedList) :=
  if out = false then some ((.invalidParameter, none), s)
  else if s.list.tail = 0 then some ((.unavailableResource, none), s)
  else (s.list.mem s.list.tail).bind fun tmp =>
    -- `p_tail->next`, or `p_head` if there is no tail any more
    (DList.relinkNext { s.list with tail := tmp.prev } tmp.prev 0).map fun list =>
      ((.success, some tmp.data.dataPtr),
        { s with list := { list with mem := update list.mem s.list.tail none } })

def linkedListEmpty (s : LinkedList) : ℕ := if s.list.head = 0 then 1 else 0

/-- The loop of `linked_list_flush()`. -/
def flushLoop : ℕ → LinkedList → Option LinkedList
  | 0, _ => none
  | k + 1, s =>
    if s.list.head = 0 then some s
    else (s.list.mem s.list.head).bind fun c =>
      flushLoop k ⟨{ s.list with head := c.next, mem := update s.list.mem s.list.head none },
        s.freed ++ deallocs [c.data]⟩

def linkedListFlush (k : ℕ) (s : LinkedList) : Option (ListReply × LinkedList) :=
  (flushLoop k s).map fun s => ((.success, none), { s with list := { s.list with tail := 0 } })

/-- `linked_list_search()`: `equal` is the function with its first argument, `out` says whether there is a pointer for
the data.  The data that is taken out and has no pointer is deallocated. -/
def linkedListSearchOp (k : ℕ) (equal : Option (ℕ → Bool)) (out rmIfFound : Bool) (s : LinkedList) :
    Option (ListReply × LinkedList) :=
  equal.elim (some ((.invalidHandle, none), s)) fun equal =>
    if s.list.tail = 0 then some ((.unavailableResource, none), s)
    else (linkedListSearch (fun u (d : ListData) => (equal d.dataPtr, u)) rmIfFound k s.list ()).map fun r =>
      ((.success, if out then some ((r.1.map ListData.dataPtr).getD 0) else none),
        ⟨r.2.1, s.freed ++ if rmIfFound && !out then deallocs r.1.toList else []⟩)

/-- One operation. -/
inductive ListOp
  | add (a dataObj dealloc : ℕ)
  | remove (out : Bool)
  | search (equal : Option (ℕ → Bool)) (out rmIfFound : Bool)
  | flush

/-- An operation on the list; its loops are described for `k` rounds. -/
def ListOp.step (k : ℕ) : ListOp → LinkedList → Option (ListReply × LinkedList)
  | add a d f, s => linkedListAdd a d f s
  | remove out, s => linkedListRemove out s
  | search equal out rm, s => linkedListSearchOp k equal out rm s
  | flush, s => linkedListFlush k s

/-- Operations one after the other. -/
def listRun (k : ℕ) : List ListOp → LinkedList → Option (List ListReply × LinkedList)
  | [], s => some ([], s)
  | op :: ops, s => (op.step k s).bind fun r => (listRun k ops r.2).map fun t => (r.1 :: t.1, t.2)

/-- The list as it is found from the head, along `next`. -/
def forwardFrom (mem : ℕ → Option (DCell ListData)) : ℕ → ℕ → Option (List (ℕ × ListData))
  | 0, _ => none
  | k + 1, p =>
    if p = 0 then some [] else (mem p).bind fun c => (forwardFrom mem k c.next).map ((p, c.data) :: ·)

/-- The list as it is found from the tail, along `prev`. -/
def backwardFrom (mem : ℕ → Option (DCell ListData)) : ℕ → ℕ → Option (List (ℕ × ListData))
  | 0, _ => none
  | k + 1, p =>
    if p = 0 then some [] else (mem p).bind fun c => (backwardFrom mem k c.prev).map ((p, c.data) :: ·)

/-! ### What they are for -/

/-- The blocks with their data, from the front, and what was deallocated. -/
structure ListSeq where
  items : List (ℕ × ListData)
  freed : List (ℕ × ℕ)

/-- An operation on the sequence. -/
def ListOp.onSeq : ListOp → ListSeq → ListReply × ListSeq
  | add a d f, q =>
    if d = 0 then ((.invalidParameter, none), q)
    else if a = 0 ∨ a ∈ q.items.map Prod.fst then ((.failureGeneral, none), q)
    else ((.success, none), { q with items := (a, ⟨d, f⟩) :: q.items })
  | remove out, q =>
    if out = false then ((.invalidParameter, none), q)
    else q.items.getLast?.elim ((.unavailableResource, none), q) fun x =>
      ((.success, some x.2.dataPtr), { q with items := q.items.dropLast })
  | search equal out rm, q =>
    equal.elim ((.invalidHandle, none), q) fun equal =>
      if q.items = [] then ((.unavailableResource, none), q)
      else
        let found := (q.items.find? fun x => equal x.2.dataPtr).map Prod.snd
        ((.success, if out then some ((found.map ListData.dataPtr).getD 0) else none),
          ⟨if rm then q.items.eraseP fun x => equal x.2.dataPtr else q.items,
            q.freed ++ if rm && !out then deallocs found.toList else []⟩)
  | flush, q => ((.success, none), ⟨[], q.freed ++ deallocs (q.items.map Prod.snd)⟩)

/-- Operations on the sequence, one after the other. -/
def seqRun : List ListOp → ListSeq → List ListReply × ListSeq
  | [], q => ([], q)
  | op :: ops, q => ((op.onSeq q).1 :: (seqRun ops (op.onSeq q).2).1, (seqRun ops (op.onSeq q).2).2)

/-- The list in memory is the sequence. -/
structure Refines (s : LinkedList) (q : ListSeq) : Prop where
  holds : Holds s.list q.items
  used : ∀ p, s.list.mem p = none ↔ p ∉ q.items.map Prod.fst
  freed : s.freed = q.freed

variable {s : LinkedList} {q : ListSeq} {mem : ℕ → Option (DCell ListData)} {l l1 l2 : List (ℕ × ListData)}
  {x : ℕ × ListData} {b p e k : ℕ}

/-! ### Memory -/

theorem relink_none {d d' : DList ListData} {r t : ℕ}
    (h : d.relinkNext p r = some d' ∨ d.relinkPrev p r = some d') : d'.mem t = none ↔ d.mem t = none := by
  have hupd : ∀ c c' : DCell ListData, d.mem p = some c →
      (update d.mem p (some c') t = none ↔ d.mem t = none) := by
    intro c _ hc
    rcases eq_or_ne t p with rfl | ht
    · simp [hc]
    · rw [update_of_ne ht]
  rcases h with h | h <;>
  · simp only [DList.relinkNext, DList.relinkPrev] at h
    split_ifs at h
    · cases h
      rfl
    · obtain ⟨c, hc, rfl⟩ := Option.map_eq_some_iff.1 h
      exact hupd c _ hc

theorem freed_used (l1 : List (ℕ × ListData)) {mem' : ℕ → Option (DCell ListData)} (hused : ∀ r, mem r = none ↔ r ∉ (l1 ++ x :: l2).map Prod.fst)
    (hmem : ∀ r, mem' r = none ↔ mem r = none) (hnodup : ((l1 ++ x :: l2).map Prod.fst).Nodup) (r : ℕ) :
    update mem' x.1 none r = none ↔ r ∉ (l1 ++ l2).map Prod.fst := by
  rw [map_append, map_cons, nodup_middle, nodup_cons] at hnodup
  rcases eq_or_ne r x.1 with rfl | hr
  · rw [update_self, map_append]
    exact iff_of_true rfl hnodup.1
  · rw [update_of_ne hr, hmem, hused]
    simp [hr]

theorem unlink_used {d d' : DList ListData} (h : d.unlink x.1 = some d')
    (hused : ∀ r, d.mem r = none ↔ r ∉ (l1 ++ x :: l2).map Prod.fst)
    (hnodup : ((l1 ++ x :: l2).map Prod.fst).Nodup) (r : ℕ) : d'.mem r = none ↔ r ∉ (l1 ++ l2).map Prod.fst := by
  simp only [DList.unlink, Option.bind_eq_bind, Option.bind_eq_some_iff] at h
  obtain ⟨c, -, _, h1, _, -, _, h2, h⟩ := h
  cases h
  exact freed_used _ hused (fun t => (relink_none (.inr h2)).trans (relink_none (.inl h1))) hnodup r

/-! ### One operation -/

theorem Refines.head_eq_zero (h : Refines s q) : s.list.head = 0 ↔ q.items = [] := by
  have hseg := h.holds.seg
  rcases hq : q.items with - | ⟨x, l⟩ <;> rw [hq] at hseg
  · exact iff_of_true hseg.2.symm rfl
  · exact iff_of_false hseg.2.1 (cons_ne_nil _ _)

theorem Refines.init : Refines linkedListInit ⟨[], []⟩ :=
  ⟨⟨⟨rfl, rfl⟩, nodup_nil⟩, fun _ => iff_of_true rfl not_mem_nil, rfl⟩

theorem Refines.mallocElem (h : Refines s q) (a : ℕ) :
    mallocElem s.list a = if a = 0 ∨ a ∈ q.items.map Prod.fst then 0 else a := by
  rw [Gps.mallocElem]
  rcases hmem : s.list.mem a with - | c
  · have hnot : a ∉ q.items.map Prod.fst := (h.used a).1 hmem
    rcases eq_or_ne a 0 with rfl | ha
    · rw [ite_self]
      rfl
    · rw [if_neg (not_or.2 ⟨ha, hnot⟩)]
      rfl
  · rw [if_pos (Or.inr (by_contra fun hnot => by simp [(h.used a).2 hnot] at hmem))]
    rfl

theorem Refines.add (h : Refines s q) (a d f : ℕ) :
    ∃ s', linkedListAdd a d f s = some (((ListOp.add a d f).onSeq q).1, s') ∧
      Refines s' ((ListOp.add a d f).onSeq q).2 := by
  simp only [linkedListAdd, ListOp.onSeq, h.mallocElem a]
  rcases eq_or_ne d 0 with hd | hd
  · rw [if_pos hd, if_pos hd]
    exact ⟨s, rfl, h⟩
  rw [if_neg hd, if_neg hd]
  by_cases ha : a = 0 ∨ a ∈ q.items.map Prod.fst
  · rw [if_pos ha, if_pos rfl, if_pos ha]
    exact ⟨s, rfl, h⟩
  rw [if_neg ha, if_neg ha, if_neg (not_or.1 ha).1]
  rw [not_or] at ha
  have hseg : DSeg (update s.list.mem a (some ⟨⟨d, f⟩, s.list.head, 0⟩)) 0 s.list.head q.items
      s.list.tail 0 := by
    apply h.holds.seg.congr
    intro r hr
    apply update_of_ne
    rintro rfl
    exact ha.2 hr
  obtain ⟨list, hlist, hseg', hhead, hmem⟩ := relinkPrev_spec (s := { s.list with
    head := a, mem := update s.list.mem a (some ⟨⟨d, f⟩, s.list.head, 0⟩) }) hseg h.holds.nodup a
  refine ⟨{ s with list := list }, by rw [hlist]; rfl, ⟨⟨hhead, ?_, s.list.head, ?_, ?_⟩, ?_⟩, fun r => ?_, h.freed⟩
  · exact hhead ▸ ha.1
  · show list.mem list.head = _
    rw [hhead, hmem a ha.2]
    exact update_self ..
  · exact hhead ▸ hseg'
  · exact nodup_cons.2 ⟨ha.2, h.holds.nodup⟩
  show list.mem r = none ↔ _
  rw [relink_none (.inr hlist)]
  rcases eq_or_ne r a with rfl | hr
  · simp
  · simp [h.used r, hr]

theorem Refines.remove (h : Refines s q) (out : Bool) :
    ∃ s', linkedListRemove out s = some (((ListOp.remove out).onSeq q).1, s') ∧
      Refines s' ((ListOp.remove out).onSeq q).2 := by
  obtain ⟨items, _⟩ := q
  rw [linkedListRemove, ListOp.onSeq]
  split_ifs with hout htail
  · exact ⟨s, rfl, h⟩
  · obtain rfl : items = [] := h.holds.tail_eq_zero.1 htail
    exact ⟨s, rfl, h⟩
  rcases items.eq_nil_or_concat' with rfl | ⟨l, x, rfl⟩
  · exact absurd (h.holds.tail_eq_zero.2 rfl) htail
  have hnodup := h.holds.nodup
  obtain ⟨-, m, n, hseg, hx, ht, -⟩ := h.holds.split
  rw [ht, hx, getLast?_append]
  have hnd : (l.map Prod.fst).Nodup ∧ x.1 ∉ l.map Prod.fst := by
    rw [map_append, map_cons, map_nil, nodup_append] at hnodup
    exact ⟨hnodup.1, fun hmem => hnodup.2.2 _ hmem _ mem_cons_self rfl⟩
  obtain ⟨list, hlist, hseg', htail', _⟩ := relinkNext_spec (s := { s.list with tail := m }) hseg hnd.1 0
  refine ⟨{ s with list := { list with mem := update list.mem x.1 none } }, ?_, ⟨?_, ?_⟩, ?_, h.freed⟩
  · show (DList.relinkNext { s.list with tail := m } m 0).map _ = _
    rw [hlist]
    rfl
  · show DSeg (update list.mem x.1 none) 0 list.head (l ++ [x]).dropLast list.tail 0
    rw [dropLast_concat, htail']
    apply hseg'.congr
    intro r hr
    apply update_of_ne
    rintro rfl
    exact hnd.2 hr
  · show ((l ++ [x]).dropLast.map Prod.fst).Nodup
    rw [dropLast_concat]
    exact hnd.1
  intro r
  show update list.mem x.1 none r = none ↔ r ∉ (l ++ [x]).dropLast.map Prod.fst
  rw [dropLast_concat, ← append_nil l]
  exact freed_used _ h.used (fun t => relink_none (d := { s.list with tail := m }) (.inl hlist)) hnodup r

theorem flushLoop_spec (hseg : DSeg s.list.mem b s.list.head l e 0) (hnodup : (l.map Prod.fst).Nodup)
    (hused : ∀ r, s.list.mem r = none ↔ r ∉ l.map Prod.fst) (hk : l.length < k) :
    flushLoop k s = some ⟨⟨0, s.list.tail, fun _ => none⟩, s.freed ++ deallocs (l.map Prod.snd)⟩ := by
  induction l generalizing s b k with
  | nil =>
    obtain ⟨k, rfl⟩ : ∃ r, k = r + 1 := ⟨k - 1, by simp at hk; omega⟩
    have hmem : s.list.mem = fun _ => none := funext fun r => (hused r).2 not_mem_nil
    rw [flushLoop, if_pos hseg.2.symm, ← hmem, hseg.2]
    simp [deallocs]
  | cons x l ih =>
    obtain ⟨k, rfl⟩ : ∃ r, k = r + 1 := ⟨k - 1, by simp at hk; omega⟩
    obtain ⟨hp, hne, n, hx, hrest⟩ := hseg
    have hnot := nodup_cons.1 hnodup
    rw [flushLoop, if_neg hne, hx, Option.bind_some, hp, ih (b := x.1) ?_ hnot.2 ?_ (by simpa using hk)]
    · simp only [deallocs, map_cons, filter_cons, filter_nil, append_assoc]
      split <;> rfl
    · rw [hp] at hrest
      apply hrest.congr
      intro r hr
      apply update_of_ne
      rintro rfl
      exact hnot.1 hr
    · exact freed_used [] hused (fun _ => Iff.rfl) hnodup

theorem Refines.flush (h : Refines s q) (hk : q.items.length < k) :
    ∃ s', linkedListFlush k s = some ((ListOp.flush.onSeq q).1, s') ∧ Refines s' (ListOp.flush.onSeq q).2 := by
  rw [linkedListFlush, flushLoop_spec h.holds.seg h.holds.nodup h.used hk]
  refine ⟨_, rfl, ⟨⟨rfl, rfl⟩, nodup_nil⟩, fun _ => iff_of_true rfl not_mem_nil, ?_⟩
  rw [h.freed]
  rfl

theorem linkedListSearch_found {equal : Unit → ListData → Bool × Unit} {d : DList ListData} {rm : Bool}
    (h : Holds d (l1 ++ x :: l2)) (hnone : NoneFound equal () (l1.map Prod.snd)) (hx : (equal () x.2).1)
    (hk : (l1 ++ x :: l2).length < k) : linkedListSearch equal rm k d () =
      if rm then (d.unlink x.1).map fun d => (some x.2, d, ()) else some (some x.2, d, ()) := by
  obtain ⟨hne, m, n, hseg, hmem, -⟩ := h.split
  have htail : d.tail ≠ 0 := fun h0 => by simpa using h.tail_eq_zero.1 h0
  rw [length_append, length_cons] at hk
  obtain ⟨k, rfl⟩ : ∃ r, k = l1.length + (r + 1) := ⟨k - l1.length - 1, by omega⟩
  rw [linkedListSearch, if_neg htail, searchFrom_append hseg hnone, searchFrom, if_neg hne, hmem, Option.bind_some,
    if_pos hx]

theorem noneFound_of_forall {equal : ℕ → Bool} {l : List (ℕ × ListData)} (h : ∀ y ∈ l, ¬equal y.2.dataPtr) :
    NoneFound (fun (u : Unit) (d : ListData) => (equal d.dataPtr, u)) () (l.map Prod.snd) := by
  induction l with
  | nil => trivial
  | cons y _ ih => exact ⟨Bool.eq_false_iff.2 (h y mem_cons_self), ih fun z hz => h z (mem_cons_of_mem _ hz)⟩

theorem Refines.search (h : Refines s q) (equal : Option (ℕ → Bool)) (out rm : Bool) (hk : q.items.length < k) :
    ∃ s', linkedListSearchOp k equal out rm s = some (((ListOp.search equal out rm).onSeq q).1, s') ∧
      Refines s' ((ListOp.search equal out rm).onSeq q).2 := by
  obtain ⟨items, _⟩ := q
  obtain ⟨hholds, hused, rfl⟩ := h
  rcases equal with - | equal
  · exact ⟨s, rfl, hholds, hused, rfl⟩
  simp only [linkedListSearchOp, ListOp.onSeq, Option.elim_some, hholds.tail_eq_zero]
  rcases eq_or_ne items [] with rfl | hnil
  · exact ⟨s, rfl, hholds, hused, rfl⟩
  rw [if_neg hnil, if_neg hnil]
  rcases hfind : items.find? fun x => equal x.2.dataPtr with - | x
  · -- nothing satisfies the predicate
    have hno : ∀ y ∈ items, ¬equal y.2.dataPtr = true := find?_eq_none.1 hfind
    rw [linkedListSearch_none hholds (noneFound_of_forall hno) hk, hfind, eraseP_of_forall_not hno, ite_self]
    refine ⟨_, rfl, hholds, hused, ?_⟩
    cases rm <;> cases out <;> rfl
  -- the first element that does, between those before it and those behind it
  obtain ⟨hx, l1, l2, rfl, hno⟩ := find?_eq_some_iff_append.1 hfind
  have hno' : ∀ y ∈ l1, ¬equal y.2.dataPtr = true := fun y hy => by simpa using hno y hy
  rw [linkedListSearch_found hholds (noneFound_of_forall hno') hx hk, hfind]
  rcases rm with - | -
  · exact ⟨_, rfl, hholds, hused, rfl⟩
  obtain ⟨d, hunlink, hd⟩ := hholds.unlink
  have herase : (l1 ++ x :: l2).eraseP (fun x => equal x.2.dataPtr) = l1 ++ l2 := by
    rw [eraseP_append_right _ hno']
    simp [hx]
  rw [hunlink, herase]
  exact ⟨_, rfl, hd, unlink_used hunlink hused hholds.nodup, rfl⟩

/-! ### Runs -/

theorem Refines.step (h : Refines s q) (op : ListOp) (hk : q.items.length < k) :
    ∃ s', op.step k s = some ((op.onSeq q).1, s') ∧ Refines s' (op.onSeq q).2 := by
  cases op with
  | add a d f => exact h.add a d f
  | remove out => exact h.remove out
  | search equal out rm => exact h.search equal out rm hk
  | flush => exact h.flush hk

theorem length_onSeq (op : ListOp) (q : ListSeq) : (op.onSeq q).2.items.length ≤ q.items.length + 1 := by
  cases op with
  | add =>
    simp only [ListOp.onSeq]
    split_ifs <;> simp
  | remove out =>
    simp only [ListOp.onSeq]
    split_ifs
    · simp
    rcases q.items.getLast? with - | x
    · simp
    · simp only [Option.elim_some, length_dropLast]
      omega
  | search equal _ rm =>
    rcases equal with - | _
    · simp [ListOp.onSeq]
    simp only [ListOp.onSeq, Option.elim_some]
    rcases eq_or_ne q.items [] with hnil | hnil
    · rw [if_pos hnil]
      exact Nat.le_succ _
    rw [if_neg hnil]
    cases rm
    · exact Nat.le_succ _
    · exact Nat.le_succ_of_le length_eraseP_le
  | flush => exact Nat.zero_le _

theorem Refines.run (ops : List ListOp) (h : Refines s q) (hk : q.items.length + ops.length < k) :
    ∃ s', listRun k ops s = some ((seqRun ops q).1, s') ∧ Refines s' (seqRun ops q).2 ∧
      (seqRun ops q).2.items.length ≤ q.items.length + ops.length := by
  induction ops generalizing s q with
  | nil => exact ⟨s, rfl, h, Nat.le_refl _⟩
  | cons op ops ih =>
    have hlen := length_onSeq op q
    rw [length_cons] at hk
    obtain ⟨_, h1, hs1⟩ := h.step op (by omega : q.items.length < k)
    obtain ⟨s2, h2, hs2, _⟩ := ih hs1 (by omega)
    refine ⟨s2, ?_, hs2, ?_⟩
    · rw [listRun, h1, Option.bind_some, h2]
      rfl
    · show (seqRun ops (op.onSeq q).2).2.items.length ≤ _
      rw [length_cons]
      omega

/-! ### The two directions -/

theorem forwardFrom_eq (hseg : DSeg mem b p l e 0) (hk : l.length < k) : forwardFrom mem k p = some l := by
  induction l generalizing b p k with
  | nil =>
    obtain ⟨k, rfl⟩ : ∃ r, k = r + 1 := ⟨k - 1, by simp at hk; omega⟩
    rw [forwardFrom, if_pos hseg.2.symm]
  | cons x l ih =>
    obtain ⟨k, rfl⟩ : ∃ r, k = r + 1 := ⟨k - 1, by simp at hk; omega⟩
    obtain ⟨rfl, hne, n, hx, hrest⟩ := hseg
    rw [forwardFrom, if_neg hne, hx, Option.bind_some, ih hrest (by simpa using hk)]
    rfl

theorem backwardFrom_eq (hseg : DSeg mem 0 p l e b) (hk : l.length < k) : backwardFrom mem k e = some l.reverse := by
  induction l using reverseRecOn generalizing e b k with
  | nil =>
    obtain ⟨k, rfl⟩ : ∃ r, k = r + 1 := ⟨k - 1, by simp at hk; omega⟩
    rw [backwardFrom, if_pos hseg.1]
    rfl
  | append_singleton l x ih =>
    obtain ⟨k, rfl⟩ : ∃ r, k = r + 1 := ⟨k - 1, by simp at hk; omega⟩
    obtain ⟨m, t, h1, rfl, hne, n, hx, rfl, -⟩ := dSeg_append.1 hseg
    rw [backwardFrom, if_neg hne, hx, Option.bind_some, ih h1 (by simpa using hk), reverse_concat]
    rfl

/-- **The list is a sequence**: after any operations, from either end. -/
theorem linkedList_refines (ops : List ListOp) (k : ℕ) (hk : ops.length < k) :
    ∃ s, listRun k ops linkedListInit = some ((seqRun ops ⟨[], []⟩).1, s) ∧
      forwardFrom s.list.mem k s.list.head = some (seqRun ops ⟨[], []⟩).2.items ∧
      backwardFrom s.list.mem k s.list.tail = some (seqRun ops ⟨[], []⟩).2.items.reverse ∧
      (linkedListEmpty s = 1 ↔ (seqRun ops ⟨[], []⟩).2.items = []) ∧
      s.freed = (seqRun ops ⟨[], []⟩).2.freed ∧
      ∀ p, s.list.mem p = none ↔ p ∉ (seqRun ops ⟨[], []⟩).2.items.map Prod.fst := by
  obtain ⟨s, hrun, h, hlen⟩ := Refines.init.run ops (by simpa using hk)
  have hlt : (seqRun ops ⟨[], []⟩).2.items.length < k := Nat.lt_of_le_of_lt hlen (by simpa using hk)
  refine ⟨s, hrun, forwardFrom_eq h.holds.seg hlt, backwardFrom_eq h.holds.seg hlt, ?_, h.freed, h.used⟩
  rw [← h.head_eq_zero, linkedListEmpty]
  split_ifs with hhead <;> simp [hhead]

/-- Two elements are added, the first of them is searched for and taken out, and the other one is taken from the
tail. -/
theorem linkedList_refines_sample :
    (listRun 5 [.add 8 1 0, .add 9 2 7, .search (some (· == 1)) false true, .remove true] linkedListInit).map Prod.fst =
      some [(.success, none), (.success, none), (.success, none), (.success, some 2)] := by
  obtain ⟨s, hrun, -⟩ := linkedList_refines
    [.add 8 1 0, .add 9 2 7, .search (some (· == 1)) false true, .remove true] 5 (by decide)
  rw [hrun]
  rfl

end G4Common.Gps

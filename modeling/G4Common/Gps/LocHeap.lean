/-
`LocHeap` of `gps/utils/LocHeap.cpp`.

A heap is a binary tree of nodes.  The links of a node do not change while it is in the tree: to sort the
objects by rank, they are swapped between nodes.  `push()` swaps an object downwards to the place of a new leaf;
`pop()` swaps the object of the root downwards to a leaf, which is then taken out of the tree.

`popWith d t` is `pop()` on the tree `t` after `d` was swapped to its root.

Main result: a heap is a priority queue (`locHeap_priority_queue`), for any objects that are ranked by a key.
-/
import G4Common.Lib.RankTree

namespace G4Common.Gps

open RankTree

universe u v

variable {α : Type u}

/-! ### `LocHeapNode` -/

section Code

variable (ranks : α → α → ℤ)

def outRanks (x y : α) : Bool := 0 < ranks x y

def newNode (x : α) : RankTree α := node 1 null null x

/-- `LocHeapNode::push()`; at a null pointer the new node is linked. -/
def push : RankTree α → α → RankTree α
  | null, x => newNode x
  | node s l r d, x =>
    let high := if outRanks ranks x d then x else d
    let low := if outRanks ranks x d then d else x
    if l.isNull then node (s + 1) (newNode low) r high
    else if r.isNull then node (s + 1) l (newNode low) high
    else if l.size ≤ r.size then node (s + 1) (push l low) r high
    else node (s + 1) l (push r low) high

/-- Whether `subTop` is the left child. -/
def subTopLeft (l r : RankTree α) (d : α) : Bool :=
  if l.isNull then false else if r.isNull then true else outRanks ranks (l.dataD d) (r.dataD d)

/-- `LocHeapNode::pop()` on a tree to whose root `d` was swapped: the popped node, and the tree that is left. -/
def popWith (d : α) : RankTree α → RankTree α × RankTree α
  | null => (null, null)
  | node s l r _ =>
    if l.isNull && r.isNull then (node (s - 1) l r d, null)
    else if subTopLeft ranks l r d then
      ((popWith d l).1, node (s - 1) (popWith d l).2 r (l.dataD d))
    else ((popWith d r).1, node (s - 1) l (popWith d r).2 (r.dataD d))

def pop : RankTree α → RankTree α × RankTree α
  | null => (null, null)
  | node s l r d => popWith ranks d (node s l r d)

variable [DecidableEq α]

/-- `LocHeapNode::remove()`: the removed node or `null`, and the tree that is left. -/
def remove (x : α) : RankTree α → RankTree α × RankTree α
  | null => (null, null)
  | node s l r d =>
    if x = d then pop ranks (node s l r d)
    else if outRanks ranks x d then (null, node s l r d)
    else
      let left := if l.isNull then (null, l) else remove x l
      if left.1.isNull then
        let right := if r.isNull then (null, r) else remove x r
        if right.1.isNull then (null, node s left.2 right.2 d) else (right.1, node (s - 1) left.2 right.2 d)
      else (left.1, node (s - 1) left.2 r d)

def checkNodes : RankTree α → Bool
  | null => true
  | node s l r d =>
    (l.isNull || (!outRanks ranks (l.dataD d) d && checkNodes l)) &&
      ((r.isNull || (!outRanks ranks (r.dataD d) d && checkNodes r)) && s - l.size - r.size = 1)

/-! ### `LocHeap` -/

def locHeapPeek : RankTree α → Option α
  | null => none
  | node _ _ _ d => some d

def locHeapPush (t : RankTree α) (x : α) : RankTree α := if t.isNull then newNode x else push ranks t x

def locHeapPop (t : RankTree α) : Option α × RankTree α :=
  if t.isNull then (none, t) else (locHeapPeek (pop ranks t).1, (pop ranks t).2)

def locHeapRemove (t : RankTree α) (x : α) : Option α × RankTree α :=
  if t.isNull then (none, t)
  else
    let res := remove ranks x t
    if res.1.isNull then (none, res.2) else (locHeapPeek res.1, res.2)

end Code

/-! ### Pushing -/

variable {K : Type v} [LinearOrder K] {R : Ranking α K}
variable {l r t : RankTree α} {d x y : α} {ranks : α → α → ℤ}

theorem outRanks_eq_true : outRanks ranks x y ↔ 0 < ranks x y := by
  rw [outRanks, decide_eq_true_eq]

theorem high_low (x d : α) :
    ∃ h w, (if outRanks R.ranks x d then x else d) = h ∧ (if outRanks R.ranks x d then d else x) = w ∧
      ¬0 < R.ranks w h ∧ ¬0 < R.ranks d h ∧ (h ::ₘ {w} : Multiset α) = x ::ₘ {d} := by
  by_cases hx : 0 < R.ranks x d
  · refine ⟨x, d, if_pos (outRanks_eq_true.2 hx), if_pos (outRanks_eq_true.2 hx), ?_, ?_, rfl⟩
    · exact not_outRanks_of_outRanks hx
    · exact not_outRanks_of_outRanks hx
  · have hno : ¬outRanks R.ranks x d = true := mt outRanks_eq_true.1 hx
    exact ⟨d, x, if_neg hno, if_neg hno, hx, not_outRanks_self d, Multiset.pair_comm d x⟩

theorem push_node {s : ℤ} {h w : α}
    (hh : (if outRanks ranks x d then x else d) = h) (hw : (if outRanks ranks x d then d else x) = w) :
    push ranks (node s l r d) x = node (s + 1) (push ranks l w) r h ∨
      push ranks (node s l r d) x = node (s + 1) l (push ranks r w) h := by
  rw [push]
  simp only [hh, hw]
  split
  · rename_i hl
    rw [isNull_iff.1 hl]
    exact .inl rfl
  split
  · rename_i hr
    rw [isNull_iff.1 hr]
    exact .inr rfl
  · split
    · exact .inl rfl
    · exact .inr rfl

theorem elems_push (t : RankTree α) (x : α) : (push R.ranks t x).elems = x ::ₘ t.elems := by
  induction t generalizing x with
  | null => rfl
  | node s l r d ihl ihr =>
    obtain ⟨h, w, hh, hw, -, -, hpair⟩ := high_low (R := R) x d
    have hcons : ∀ m : Multiset α, h ::ₘ w ::ₘ m = x ::ₘ d ::ₘ m := by
      intro m
      have := congrArg (· + m) hpair
      simpa only [Multiset.cons_add, Multiset.singleton_add] using this
    rcases push_node (l := l) (r := r) (s := s) hh hw with hpush | hpush
    · rw [hpush, elems_node, ihl, Multiset.cons_add, hcons, elems_node]
    · rw [hpush, elems_node, ihr, Multiset.add_cons, hcons, elems_node]

theorem size_push (t : RankTree α) (x : α) : (push ranks t x).size = t.size + 1 := by
  cases t with
  | null => rfl
  | node s l r d =>
    rcases push_node (l := l) (r := r) (s := s) (rfl : (if outRanks ranks x d then x else d) = _) rfl with h | h
    · rw [h]
      rfl
    · rw [h]
      rfl

theorem sized_push (ht : t.Sized) (x : α) : (push ranks t x).Sized := by
  induction t generalizing x with
  | null => exact ⟨rfl, trivial, trivial⟩
  | node s l r d ihl ihr =>
    obtain ⟨hs, hl, hr⟩ := ht
    rcases push_node (l := l) (r := r) (s := s) (rfl : (if outRanks ranks x d then x else d) = _) rfl with h | h
    · rw [h]
      refine ⟨?_, ihl hl _, hr⟩
      rw [size_push, hs]
      omega
    rw [h]
    refine ⟨?_, hl, ihr hr _⟩
    rw [size_push, hs]
    omega

theorem ordered_push (ht : t.Ordered R) (x : α) : (push R.ranks t x).Ordered R := by
  induction t generalizing x with
  | null =>
    refine ⟨?_, trivial, trivial⟩
    intro y hy
    cases hy
  | node s l r d ihl ihr =>
    obtain ⟨hroot, hl, hr⟩ := ht
    obtain ⟨h, w, hh, hw, hwh, hdh, -⟩ := high_low (R := R) x d
    -- What was below `d` is below the higher object, too.
    have hbelow : ∀ y ∈ l.elems + r.elems, ¬0 < R.ranks y h := fun y hy => not_outRanks_trans (hroot y hy) hdh
    rcases push_node (l := l) (r := r) (s := s) hh hw with hpush | hpush
    · rw [hpush]
      refine ⟨?_, ihl hl w, hr⟩
      intro y hy
      rw [elems_push, Multiset.cons_add] at hy
      rcases Multiset.mem_cons.1 hy with rfl | hy
      · exact hwh
      · exact hbelow y hy
    rw [hpush]
    refine ⟨?_, hl, ihr hr w⟩
    intro y hy
    rw [elems_push, Multiset.add_cons] at hy
    rcases Multiset.mem_cons.1 hy with rfl | hy
    · exact hwh
    · exact hbelow y hy

/-! ### Popping -/

theorem popWith_node (ranks : α → α → ℤ) (d : α) (s : ℤ) (l r : RankTree α) (x : α) :
    (l = null ∧ r = null ∧ popWith ranks d (node s l r x) = (node (s - 1) null null d, null)) ∨
    (∃ s' l' r' y, l = node s' l' r' y ∧ (∀ t a b z, r = node t a b z → 0 < ranks y z) ∧
      popWith ranks d (node s l r x) =
        ((popWith ranks d l).1, node (s - 1) (popWith ranks d l).2 r y)) ∨
    ∃ s' l' r' y, r = node s' l' r' y ∧ (∀ t a b z, l = node t a b z → ¬0 < ranks z y) ∧
      popWith ranks d (node s l r x) =
        ((popWith ranks d r).1, node (s - 1) l (popWith ranks d r).2 y) := by
  rw [popWith]
  cases l with
  | null =>
    cases r with
    | null => exact .inl ⟨rfl, rfl, rfl⟩
    | node s' l' r' y =>
      refine .inr (.inr ⟨s', l', r', y, rfl, ?_, rfl⟩)
      intro t a b z h
      cases h
  | node s' l' r' y =>
    cases r with
    | null =>
      refine .inr (.inl ⟨s', l', r', y, rfl, ?_, rfl⟩)
      intro t a b z h
      cases h
    | node s2 l2 r2 y2 =>
      have hsub : subTopLeft ranks (node s' l' r' y) (node s2 l2 r2 y2) d = outRanks ranks y y2 := rfl
      rw [if_neg (by simp [isNull]), hsub]
      by_cases hy : 0 < ranks y y2
      · rw [if_pos (outRanks_eq_true.2 hy)]
        refine .inr (.inl ⟨s', l', r', y, rfl, ?_, rfl⟩)
        intro t a b z h
        cases h
        exact hy
      rw [if_neg (mt outRanks_eq_true.1 hy)]
      refine .inr (.inr ⟨s2, l2, r2, y2, rfl, ?_, rfl⟩)
      intro t a b z h
      cases h
      exact hy

theorem popWith_fst (d : α) (ht : t ≠ null) : ∃ s, (popWith ranks d t).1 = node s null null d := by
  induction t with
  | null => exact absurd rfl ht
  | node s l r x ihl ihr =>
    rcases popWith_node ranks d s l r x with
      ⟨-, -, h⟩ | ⟨_, _, _, y, rfl, -, h⟩ | ⟨_, _, _, y, rfl, -, h⟩
    · rw [h]
      exact ⟨_, rfl⟩
    · rw [h]
      exact ihl (by simp)
    · rw [h]
      exact ihr (by simp)

theorem elems_popWith (ranks : α → α → ℤ) (d : α) (ht : t ≠ null) :
    t.dataD d ::ₘ (popWith ranks d t).2.elems = t.elems := by
  induction t with
  | null => exact absurd rfl ht
  | node s l r x ihl ihr =>
    rcases popWith_node ranks d s l r x with
      ⟨rfl, rfl, h⟩ | ⟨s', l', r', y, rfl, -, h⟩ | ⟨s', l', r', y, rfl, -, h⟩
    · rw [h]
      rfl
    · have hl : y ::ₘ (popWith ranks d (node s' l' r' y)).2.elems = _ := ihl (by simp)
      rw [h, elems_node (s - 1), ← Multiset.cons_add, hl, elems_node s]
      rfl
    · have hr : y ::ₘ (popWith ranks d (node s' l' r' y)).2.elems = _ := ihr (by simp)
      rw [h, elems_node (s - 1), ← Multiset.add_cons, hr, elems_node s]
      rfl

theorem sized_popWith (d : α) (ht : t ≠ null) (hs : t.Sized) :
    (popWith ranks d t).2.Sized ∧ (popWith ranks d t).2.size = t.size - 1 := by
  induction t with
  | null => exact absurd rfl ht
  | node s l r x ihl ihr =>
    obtain ⟨hsize, hl, hr⟩ := hs
    rcases popWith_node ranks d s l r x with
      ⟨rfl, rfl, h⟩ | ⟨_, _, _, y, rfl, -, h⟩ | ⟨_, _, _, y, rfl, -, h⟩
    · rw [h]
      refine ⟨trivial, ?_⟩
      simp only [RankTree.size] at hsize ⊢
      omega
    · rw [h]
      obtain ⟨hl', hls⟩ := ihl (by simp) hl
      refine ⟨⟨?_, hl', hr⟩, rfl⟩
      rw [hls, hsize]
      omega
    rw [h]
    obtain ⟨hr', hrs⟩ := ihr (by simp) hr
    refine ⟨⟨?_, hl, hr'⟩, rfl⟩
    rw [hrs, hsize]
    omega

theorem not_outRanks_of_root (ht : t.Ordered R)
    (hroot : ∀ s l r z, t = node s l r z → ¬0 < R.ranks z y) : ∀ w ∈ t.elems, ¬0 < R.ranks w y := by
  intro w hw
  cases t with
  | null => cases hw
  | node s l r z => exact not_outRanks_trans (ht.not_outRanks_root hw) (hroot s l r z rfl)

theorem ordered_popWith (d : α) (ht : t.Ordered R) : (popWith R.ranks d t).2.Ordered R := by
  induction t with
  | null => trivial
  | node s l r x ihl ihr =>
    obtain ⟨-, hl, hr⟩ := ht
    rcases popWith_node R.ranks d s l r x with
      ⟨rfl, rfl, h⟩ | ⟨_, _, _, y, rfl, hy, h⟩ | ⟨_, _, _, y, rfl, hy, h⟩
    · rw [h]
      trivial
    · rw [h]
      refine ⟨?_, ihl hl, hr⟩
      intro w hw
      rcases Multiset.mem_add.1 hw with hw | hw
      · refine hl.not_outRanks_root ?_
        rw [← elems_popWith R.ranks d (by simp)]
        exact Multiset.mem_cons_of_mem hw
      · exact not_outRanks_of_root hr (fun t a b z hz => not_outRanks_of_outRanks (hy t a b z hz)) w hw
    rw [h]
    refine ⟨?_, hl, ihr hr⟩
    intro w hw
    rcases Multiset.mem_add.1 hw with hw | hw
    · exact not_outRanks_of_root hl hy w hw
    · refine hr.not_outRanks_root ?_
      rw [← elems_popWith R.ranks d (by simp)]
      exact Multiset.mem_cons_of_mem hw

/-- The object is taken out of the tree. -/
structure Removed (R : Ranking α K) (x : α) (t : RankTree α) (res : RankTree α × RankTree α) : Prop where
  node_eq : ∃ s, res.1 = node s null null x
  elems_eq : x ::ₘ res.2.elems = t.elems
  sized : t.Sized → res.2.Sized ∧ res.2.size = t.size - 1
  ordered : res.2.Ordered R

theorem removed_pop {s : ℤ} (ht : (node s l r x).Ordered R) :
    Removed R x (node s l r x) (pop R.ranks (node s l r x)) where
  node_eq := popWith_fst x (by simp)
  elems_eq := elems_popWith R.ranks x (by simp)
  sized := sized_popWith x (by simp)
  ordered := ordered_popWith x ht

/-! ### Valid heaps -/

theorem checkChild_iff (h : checkNodes R.ranks t ↔ t.Ordered R ∧ t.Sized) :
    (t.isNull || (!outRanks R.ranks (t.dataD d) d && checkNodes R.ranks t)) ↔
      (∀ y ∈ t.elems, ¬0 < R.ranks y d) ∧ t.Ordered R ∧ t.Sized := by
  cases t with
  | null => simp [isNull, Ordered, Sized]
  | node s l r x =>
    have hdata : (node s l r x).dataD d = x := rfl
    rw [hdata, show (node s l r x).isNull = false from rfl, Bool.false_or, Bool.and_eq_true, h,
      Bool.not_eq_true', Bool.eq_false_iff, Ne, outRanks_eq_true]
    constructor
    · rintro ⟨hx, ho, hs⟩
      exact ⟨fun y hy => not_outRanks_trans (ho.not_outRanks_root hy) hx, ho, hs⟩
    · rintro ⟨hx, ho, hs⟩
      exact ⟨hx x (Multiset.mem_cons_self _ _), ho, hs⟩

/-- **`checkNodes()`** tests what it says. -/
theorem checkNodes_iff : checkNodes R.ranks t ↔ t.Ordered R ∧ t.Sized := by
  induction t with
  | null => exact ⟨fun _ => ⟨trivial, trivial⟩, fun _ => rfl⟩
  | node s l r d ihl ihr =>
    rw [checkNodes, Bool.and_eq_true, Bool.and_eq_true, checkChild_iff ihl, checkChild_iff ihr, decide_eq_true_eq]
    constructor
    · rintro ⟨⟨hl, hol, hsl⟩, ⟨hr, hor, hsr⟩, hsize⟩
      refine ⟨⟨?_, hol, hor⟩, ⟨by omega, hsl, hsr⟩⟩
      intro y hy
      rcases Multiset.mem_add.1 hy with hy | hy
      · exact hl y hy
      · exact hr y hy
    rintro ⟨⟨hbelow, hol, hor⟩, ⟨_, hsl, hsr⟩⟩
    refine ⟨⟨?_, hol, hsl⟩, ⟨?_, hor, hsr⟩, by omega⟩
    · intro y hy
      exact hbelow y (Multiset.mem_add.2 (.inl hy))
    · intro y hy
      exact hbelow y (Multiset.mem_add.2 (.inr hy))

def HeapOk (R : Ranking α K) (t : RankTree α) : Prop := t.Ordered R ∧ t.Sized

theorem locHeapPush_eq (t : RankTree α) (x : α) : locHeapPush ranks t x = push ranks t x := by
  cases t <;> rfl

theorem locHeapPop_node {s : ℤ} (ht : HeapOk R (node s l r x)) : (locHeapPop R.ranks (node s l r x)).1 = some x ∧
      x ::ₘ (locHeapPop R.ranks (node s l r x)).2.elems = (node s l r x).elems ∧
      HeapOk R (locHeapPop R.ranks (node s l r x)).2 := by
  obtain ⟨⟨_, hnode⟩, helems, hsized, hord⟩ := removed_pop ht.1
  have hpop : locHeapPop R.ranks (node s l r x) =
      (locHeapPeek (pop R.ranks (node s l r x)).1, (pop R.ranks (node s l r x)).2) := rfl
  rw [hpop, hnode]
  exact ⟨rfl, helems, hord, (hsized ht.2).1⟩

/-! ### Removing -/

variable [DecidableEq α]

theorem remove_of_notMem (hx : x ∉ t.elems) : remove ranks x t = (null, t) := by
  induction t with
  | null => rfl
  | node _ l r _ ihl ihr =>
    rw [elems_node, Multiset.mem_cons, Multiset.mem_add, not_or, not_or] at hx
    obtain ⟨hne, hl, hr⟩ := hx
    have hleft : (if l.isNull then (null, l) else remove ranks x l) = (null, l) := by
      split
      · rfl
      · exact ihl hl
    have hright : (if r.isNull then (null, r) else remove ranks x r) = (null, r) := by
      split
      · rfl
      · exact ihr hr
    rw [remove, if_neg hne]
    simp only [hleft, hright]
    split <;> rfl

/-- **The object is found**: a subtree is passed over only if the object outranks its root, and then it is not
there. -/
theorem removed_remove (ht : t.Ordered R) (hx : x ∈ t.elems) : Removed R x t (remove R.ranks x t) := by
  induction t with
  | null => cases hx
  | node s l r d ihl ihr =>
    rw [remove]
    rcases eq_or_ne x d with rfl | heq
    · rw [if_pos rfl]
      exact removed_pop ht
    have hroot := ht.not_outRanks_root hx
    obtain ⟨hbelow, hl, hr⟩ := ht
    rw [elems_node, Multiset.mem_cons, Multiset.mem_add] at hx
    rw [if_neg heq, if_neg (mt outRanks_eq_true.1 hroot)]
    by_cases hxl : x ∈ l.elems
    · have hnull : ¬l.isNull = true := by
        rw [isNull_iff]
        rintro rfl
        cases hxl
      obtain ⟨⟨s', hnode⟩, helems, hsized, hord⟩ := ihl hl hxl
      have hsome : (node s' null null x).isNull = false := rfl
      simp only [if_neg hnull, hnode, hsome, Bool.false_eq_true, if_false]
      refine ⟨⟨s', rfl⟩, ?_, ?_, ?_, hord, hr⟩
      · rw [elems_node, Multiset.cons_swap, ← Multiset.cons_add, helems, elems_node]
      · rintro ⟨hs, hls, hrs⟩
        obtain ⟨h1, h2⟩ := hsized hls
        refine ⟨⟨?_, h1, hrs⟩, rfl⟩
        rw [h2, hs]
        omega
      intro y hy
      refine hbelow y ?_
      rw [← helems, Multiset.cons_add]
      exact Multiset.mem_cons_of_mem hy
    have hxr : x ∈ r.elems := (hx.resolve_left heq).resolve_left hxl
    have hnull : ¬r.isNull = true := by
      rw [isNull_iff]
      rintro rfl
      cases hxr
    have hleft : (if l.isNull then (null, l) else remove R.ranks x l) = (null, l) := by
      split
      · rfl
      · exact remove_of_notMem hxl
    obtain ⟨⟨s', hnode⟩, helems, hsized, hord⟩ := ihr hr hxr
    have hnone : (null : RankTree α).isNull = true := rfl
    have hsome : (node s' null null x).isNull = false := rfl
    simp only [hleft, if_neg hnull, hnode, hnone, hsome, Bool.false_eq_true, if_false, if_true]
    refine ⟨⟨s', rfl⟩, ?_, ?_, ?_, hl, hord⟩
    · rw [elems_node, Multiset.cons_swap, ← Multiset.add_cons, helems, elems_node]
    · rintro ⟨hs, hls, hrs⟩
      obtain ⟨h1, h2⟩ := hsized hrs
      refine ⟨⟨?_, hls, h1⟩, rfl⟩
      rw [h2, hs]
      omega
    intro y hy
    refine hbelow y ?_
    rw [← helems, Multiset.add_cons]
    exact Multiset.mem_cons_of_mem hy

/-! ### A heap is a priority queue -/

theorem locHeapRemove_of_mem (ht : HeapOk R t) (hx : x ∈ t.elems) :
    (locHeapRemove R.ranks t x).1 = some x ∧ x ::ₘ (locHeapRemove R.ranks t x).2.elems = t.elems ∧
      HeapOk R (locHeapRemove R.ranks t x).2 := by
  obtain ⟨⟨_, hnode⟩, helems, hsized, hord⟩ := removed_remove ht.1 hx
  have hnull : ¬t.isNull = true := by
    rw [isNull_iff]
    rintro rfl
    cases hx
  have hrun : locHeapRemove R.ranks t x = (some x, (remove R.ranks x t).2) := by
    rw [locHeapRemove, if_neg hnull]
    simp only [hnode]
    rfl
  rw [hrun]
  exact ⟨rfl, helems, hord, (hsized ht.2).1⟩

theorem locHeapRemove_of_notMem (hx : x ∉ t.elems) : locHeapRemove ranks t x = (none, t) := by
  rw [locHeapRemove, remove_of_notMem hx]
  split <;> rfl

/-- The operations of a heap. -/
inductive HeapOp (α : Type u)
  | push (x : α)
  | pop
  | remove (x : α)

/-- An operation, with what it returns. -/
def heapOp (ranks : α → α → ℤ) (t : RankTree α) : HeapOp α → Option α × RankTree α
  | .push x => (none, locHeapPush ranks t x)
  | .pop => locHeapPop ranks t
  | .remove x => locHeapRemove ranks t x

/-- The account of what was pushed and not yet returned. -/
def account (m : Multiset α) (returned : Option α) : HeapOp α → Multiset α
  | .push x => x ::ₘ m
  | .pop => m - returned.elim 0 fun y => {y}
  | .remove _ => m - returned.elim 0 fun y => {y}

/-- One operation on a heap and its account. -/
def heapStep (ranks : α → α → ℤ) (s : RankTree α × Multiset α) (op : HeapOp α) : RankTree α × Multiset α :=
  ((heapOp ranks s.1 op).2, account s.2 (heapOp ranks s.1 op).1 op)

/-- A heap and its account after some operations. -/
def heapRun (ranks : α → α → ℤ) (ops : List (HeapOp α)) : RankTree α × Multiset α :=
  ops.foldl (heapStep ranks) (null, 0)

/-- What a priority queue with the contents `m` does. -/
structure PriorityQueue (R : Ranking α K) (t : RankTree α) (m : Multiset α) : Prop where
  check : checkNodes R.ranks t = true
  ordered : t.Ordered R
  sized : t.Sized
  size_eq : t.size = m.card
  contents : t.elems = m
  peek_none : locHeapPeek t = none ↔ m = 0
  peek_some : ∀ x, locHeapPeek t = some x → x ∈ m ∧ ∀ y ∈ m, outRanks R.ranks y x = false
  pop_eq_peek : (locHeapPop R.ranks t).1 = locHeapPeek t
  pop_elems : (locHeapPop R.ranks t).2.elems = m - (locHeapPeek t).elim 0 fun y => {y}
  remove_mem : ∀ x ∈ m, (locHeapRemove R.ranks t x).1 = some x ∧ (locHeapRemove R.ranks t x).2.elems = m.erase x
  remove_notMem : ∀ x, x ∉ m → locHeapRemove R.ranks t x = (none, t)

theorem HeapOk.priorityQueue (ht : HeapOk R t) : PriorityQueue R t t.elems where
  check := checkNodes_iff.2 ht
  ordered := ht.1
  sized := ht.2
  size_eq := ht.2.size_eq
  contents := rfl
  peek_none := by
    cases t with
    | null => exact ⟨fun _ => rfl, fun _ => rfl⟩
    | node => simp [locHeapPeek]
  peek_some := by
    intro x hx
    cases t with
    | null => cases hx
    | node _ _ _ d =>
      obtain rfl : d = x := Option.some.inj hx
      refine ⟨Multiset.mem_cons_self _ _, ?_⟩
      intro y hy
      rw [Bool.eq_false_iff, Ne, outRanks_eq_true]
      exact ht.1.not_outRanks_root hy
  pop_eq_peek := by
    cases t with
    | null => rfl
    | node => exact (locHeapPop_node ht).1
  pop_elems := by
    cases t with
    | null => rfl
    | node _ _ _ x =>
      rw [← (locHeapPop_node ht).2.1]
      show _ = x ::ₘ _ - {x}
      rw [Multiset.sub_singleton, Multiset.erase_cons_head]
  remove_mem := by
    intro x hx
    obtain ⟨h1, h2, -⟩ := locHeapRemove_of_mem ht hx
    refine ⟨h1, ?_⟩
    rw [← h2, Multiset.erase_cons_head]
  remove_notMem := by
    intro x hx
    exact locHeapRemove_of_notMem hx

/-- **One operation.** -/
theorem heapOp_ok (ht : HeapOk R t) (op : HeapOp α) : HeapOk R (heapOp R.ranks t op).2 ∧
      (heapOp R.ranks t op).2.elems = account t.elems (heapOp R.ranks t op).1 op := by
  cases op with
  | push x =>
    have hpush : (heapOp R.ranks t (.push x)).2 = push R.ranks t x := locHeapPush_eq t x
    rw [hpush]
    exact ⟨⟨ordered_push ht.1 x, sized_push ht.2 x⟩, elems_push t x⟩
  | pop =>
    have hq := ht.priorityQueue
    refine ⟨?_, ?_⟩
    · cases t with
      | null => exact ht
      | node => exact (locHeapPop_node ht).2.2
    · show _ = t.elems - (locHeapPop R.ranks t).1.elim 0 _
      rw [hq.pop_eq_peek]
      exact hq.pop_elems
  | remove x =>
    by_cases hx : x ∈ t.elems
    · obtain ⟨h1, h2, h3⟩ := locHeapRemove_of_mem ht hx
      refine ⟨h3, ?_⟩
      show _ = t.elems - (locHeapRemove R.ranks t x).1.elim 0 _
      rw [h1, ← h2]
      show _ = x ::ₘ _ - {x}
      rw [Multiset.sub_singleton, Multiset.erase_cons_head]
      rfl
    · have hrun : heapOp R.ranks t (.remove x) = (none, t) := locHeapRemove_of_notMem hx
      rw [hrun]
      exact ⟨ht, (Multiset.sub_zero _).symm⟩

/-- **`LocHeap` is a priority queue**: after any operations, in any order and on any objects, its contents are the
objects that were pushed and not returned, and it does what a priority queue does. -/
theorem locHeap_priority_queue (R : Ranking α K) (ops : List (HeapOp α)) :
    PriorityQueue R (heapRun R.ranks ops).1 (heapRun R.ranks ops).2 := by
  have hrun : ∀ s : RankTree α × Multiset α, HeapOk R s.1 ∧ s.1.elems = s.2 →
      HeapOk R (ops.foldl (heapStep R.ranks) s).1 ∧
        (ops.foldl (heapStep R.ranks) s).1.elems = (ops.foldl (heapStep R.ranks) s).2 := by
    induction ops with
    | nil => exact fun _ h => h
    | cons op _ ih =>
      intro s h
      obtain ⟨hok, helems⟩ := heapOp_ok h.1 op
      rw [h.2] at helems
      exact ih (heapStep R.ranks s op) ⟨hok, helems⟩
  obtain ⟨hok, helems⟩ := hrun (null, 0) ⟨⟨trivial, trivial⟩, rfl⟩
  have hq := hok.priorityQueue
  rw [helems] at hq
  exact hq

end G4Common.Gps

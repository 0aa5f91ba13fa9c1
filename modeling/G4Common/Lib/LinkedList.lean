/-
Linked lists in memory.

A cell has a value and the number of the next cell, `0` for none.  Memory is a partial
function: a cell that was freed is not there any more, and its number is not given out
again, so that a link to it can be told from a link to a cell that took its place.

`IsList s l` says that the list in memory has the cells and values of `l`, and that no
other cell is allocated.  New cells come behind the others, so their numbers increase
along the list.  The three changes of links that such a list needs are proved here once:

* `IsList.push` — a new cell behind the last one;
* `IsList.unlinkHead` — the first cell is freed;
* `IsList.unlinkNext` — the cell behind another one is freed.
-/
import G4Common.Lib.Chain

namespace G4Common

open Function List

variable {α : Type*}

/-- A value and a link. -/
structure Cell (α : Type*) where
  val : α
  next : ℕ

/-- A list in memory: its first cell, the cells that are allocated, and the number of the
next one. -/
structure CellList (α : Type*) where
  head : ℕ
  mem : ℕ → Option (Cell α)
  fresh : ℕ

def CellList.empty : CellList α := ⟨0, fun _ => none, 1⟩

def nextOf (mem : ℕ → Option (Cell α)) (p : ℕ) : ℕ := ((mem p).map Cell.next).getD 0

/-- The cells from `p` on, at most `n`. -/
def walk (mem : ℕ → Option (Cell α)) : ℕ → ℕ → List (ℕ × α)
  | 0, _ => []
  | n + 1, p =>
    match mem p with
    | none => []
    | some c => (p, c.val) :: walk mem n c.next

/-- The cells of the list with their values. -/
def CellList.toList (s : CellList α) : List (ℕ × α) := walk s.mem s.fresh s.head

/-- The list in memory is `l`. -/
structure IsList (s : CellList α) (l : List (ℕ × α)) : Prop where
  seg : Seg (nextOf s.mem) s.head (l.map Prod.fst) 0
  val : ∀ x ∈ l, ∃ n, s.mem x.1 = some ⟨x.2, n⟩
  free : ∀ p, p ∉ l.map Prod.fst → s.mem p = none
  sorted : (l.map Prod.fst).Pairwise (· < ·)
  lt : ∀ x ∈ l, x.1 < s.fresh
  len : l.length < s.fresh

section

variable {s : CellList α} {l l1 l2 : List (ℕ × α)} {x z : ℕ × α} {v : α}
  {mem : ℕ → Option (Cell α)} {p q : ℕ}

theorem nextOf_of_some {c : Cell α} (h : mem p = some c) : nextOf mem p = c.next := by
  rw [nextOf, h]
  rfl

theorem nextOf_update_self (c : Cell α) : nextOf (update mem p (some c)) p = c.next :=
  nextOf_of_some (update_self ..)

theorem nextOf_update_of_ne {o : Option (Cell α)} (h : q ≠ p) : nextOf (update mem p o) q = nextOf mem q := by
  rw [nextOf, update_of_ne h]
  rfl

theorem IsList.empty : IsList (CellList.empty : CellList α) [] :=
  ⟨rfl, by simp, fun _ _ => rfl, List.Pairwise.nil, by simp, Nat.one_pos⟩

theorem IsList.nodup (h : IsList s l) : (l.map Prod.fst).Nodup := h.sorted.imp Nat.ne_of_lt

theorem IsList.ne_zero (h : IsList s l) (hx : x ∈ l) : x.1 ≠ 0 := h.seg.ne_zero (mem_map_of_mem hx)

theorem IsList.get (h : IsList s l) (hx : x ∈ l) : s.mem x.1 = some ⟨x.2, nextOf s.mem x.1⟩ := by
  obtain ⟨n, hn⟩ := h.val x hx
  rw [nextOf_of_some hn]
  exact hn

theorem IsList.walk_eq (h : IsList s l) {n : ℕ} {m : List (ℕ × α)} (hm : m ⊆ l) (hn : m.length < n)
    (hseg : Seg (nextOf s.mem) p (m.map Prod.fst) 0) : walk s.mem n p = m := by
  induction n generalizing p m with
  | zero => exact absurd hn (Nat.not_lt_zero _)
  | succ _ ih =>
    cases m with
    | nil =>
      obtain rfl : p = 0 := hseg
      have hnone : s.mem 0 = none := h.free 0 fun hmem => h.seg.ne_zero hmem rfl
      simp only [walk, hnone]
    | cons =>
      obtain ⟨rfl, -, hrest⟩ := hseg
      have hval := h.get (hm mem_cons_self)
      simp only [walk, hval]
      rw [ih (fun y hy => hm (mem_cons_of_mem _ hy)) (Nat.lt_of_succ_lt_succ hn) hrest]

theorem IsList.toList_eq (h : IsList s l) : s.toList = l := h.walk_eq (List.Subset.refl l) h.len h.seg

theorem IsList.lt_of_split (h : IsList s (l1 ++ x :: l2)) (hz : z ∈ l2) : x.1 < z.1 := by
  have hs := h.sorted
  rw [map_append, map_cons] at hs
  exact rel_of_pairwise_cons (pairwise_append.mp hs).2.1 (mem_map_of_mem hz)

theorem IsList.next_eq (h : IsList s (l1 ++ x :: l2)) : nextOf s.mem x.1 = ((l2.map Prod.fst).head?).getD 0 := by
  have hseg := h.seg
  rw [map_append, map_cons] at hseg
  have hrest := hseg.suffix
  cases l2 with
  | nil => exact hrest
  | cons => exact hrest.1

end

/-! ### Changes -/

section

variable {s : CellList α} {l l1 l2 : List (ℕ × α)} {x z : ℕ × α}

theorem IsList.pushEmpty (h : IsList s []) (v : α) :
    IsList ⟨s.fresh, update s.mem s.fresh (some ⟨v, 0⟩), s.fresh + 1⟩ [(s.fresh, v)] := by
  have hpos : 0 < s.fresh := h.len
  refine ⟨⟨rfl, hpos.ne', nextOf_update_self _⟩, fun y hy => ?_, fun p hp => ?_,
    pairwise_singleton _ _, fun y hy => ?_, Nat.succ_lt_succ hpos⟩
  · obtain rfl := mem_singleton.mp hy
    exact ⟨0, update_self ..⟩
  · have hne : p ≠ s.fresh := by simpa using hp
    show update s.mem s.fresh (some ⟨v, 0⟩) p = none
    rw [update_of_ne hne]
    exact h.free p (by simp)
  · obtain rfl := mem_singleton.mp hy
    exact Nat.lt_succ_self _

theorem IsList.push (h : IsList s (l ++ [x])) (v : α) :
    IsList
      ⟨s.head, update (update s.mem s.fresh (some ⟨v, 0⟩)) x.1
        (some ⟨x.2, s.fresh⟩), s.fresh + 1⟩
      (l ++ [x] ++ [(s.fresh, v)]) := by
  have hx : x ∈ l ++ [x] := by simp
  have hlt := h.lt
  have hxf : s.fresh ≠ x.1 := (hlt x hx).ne'
  have hl : ∀ y ∈ l, y.1 ≠ x.1 ∧ y.1 ≠ s.fresh := by
    intro y hy
    refine ⟨fun heq => ?_, (hlt y (mem_append_left _ hy)).ne⟩
    have hnd := h.nodup
    rw [map_append] at hnd
    exact (nodup_append.mp hnd).2.2 y.1 (mem_map_of_mem hy) x.1 (by simp) heq
  refine ⟨?_, fun y hy => ?_, fun p hp => ?_, ?_, fun y hy => ?_, ?_⟩
  · -- the links of the other cells stay, and the last one is redirected
    have hseg := h.seg
    rw [map_append] at hseg ⊢
    rw [map_append]
    refine seg_append.mpr ⟨s.fresh, ?_, rfl, ?_, ?_⟩
    · refine hseg.redirect (fun p hp => ?_) (nextOf_update_self _)
      obtain ⟨y, hy, rfl⟩ := mem_map.mp hp
      rw [nextOf_update_of_ne (hl y hy).1]
      exact nextOf_update_of_ne (hl y hy).2
    · exact (Nat.lt_of_le_of_lt (Nat.zero_le _) h.len).ne'
    · show nextOf (update _ x.1 _) s.fresh = 0
      rw [nextOf_update_of_ne hxf]
      exact nextOf_update_self _
  · rcases mem_append.mp hy with hy | hy
    · by_cases hyx : y.1 = x.1
      · obtain rfl : y = x := inj_on_of_nodup_map h.nodup hy hx hyx
        exact ⟨_, update_self ..⟩
      obtain ⟨n, hn⟩ := h.val y hy
      refine ⟨n, ?_⟩
      show update (update s.mem s.fresh _) x.1 _ y.1 = _
      rw [update_of_ne hyx, update_of_ne (hlt y hy).ne]
      exact hn
    obtain rfl := mem_singleton.mp hy
    refine ⟨0, ?_⟩
    show update (update s.mem s.fresh _) x.1 _ s.fresh = _
    rw [update_of_ne hxf, update_self]
  · rw [map_append, mem_append, not_or] at hp
    have hpx : p ≠ x.1 := fun heq => hp.1 (heq ▸ mem_map_of_mem hx)
    have hpf : p ≠ s.fresh := by simpa using hp.2
    show update (update s.mem s.fresh _) x.1 _ p = none
    rw [update_of_ne hpx, update_of_ne hpf]
    exact h.free p hp.1
  · rw [map_append]
    refine pairwise_append.mpr ⟨h.sorted, pairwise_singleton _ _, fun p hp q hq => ?_⟩
    obtain ⟨y, hy, rfl⟩ := mem_map.mp hp
    obtain rfl := mem_singleton.mp hq
    exact hlt y hy
  · rcases mem_append.mp hy with hy | hy
    · exact Nat.lt_succ_of_lt (hlt y hy)
    · obtain rfl := mem_singleton.mp hy
      exact Nat.lt_succ_self _
  · rw [length_append]
    exact Nat.succ_lt_succ h.len

theorem IsList.unlink {head : ℕ} {mem : ℕ → Option (Cell α)} (h : IsList s (l1 ++ x :: l2))
    (hseg : Seg (nextOf mem) head ((l1 ++ l2).map Prod.fst) 0) (hval : ∀ y ∈ l1 ++ l2, ∃ n, mem y.1 = some ⟨y.2, n⟩)
    (hfree : ∀ p, p ∉ (l1 ++ x :: l2).map Prod.fst → mem p = s.mem p) (hx : mem x.1 = none) :
    IsList ⟨head, mem, s.fresh⟩ (l1 ++ l2) := by
  have hsub : (l1 ++ l2).Sublist (l1 ++ x :: l2) := (sublist_cons_self x l2).append_left l1
  refine ⟨hseg, hval, fun p hp => ?_, h.sorted.sublist (hsub.map _), fun y hy => h.lt y (hsub.subset hy),
    Nat.lt_of_le_of_lt hsub.length_le h.len⟩
  by_cases hpx : p = x.1
  · rw [hpx]
    exact hx
  have hp' : p ∉ (l1 ++ x :: l2).map Prod.fst := by
    simp only [map_append, map_cons, mem_append, mem_cons, not_or] at hp ⊢
    exact ⟨hp.1, hpx, hp.2⟩
  show mem p = none
  rw [hfree p hp']
  exact h.free p hp'

theorem IsList.unlinkHead (h : IsList s (x :: l)) : IsList ⟨nextOf s.mem x.1, update s.mem x.1 none, s.fresh⟩ l := by
  have h' : IsList s ([] ++ x :: l) := h
  have hne : ∀ y ∈ l, y.1 ≠ x.1 := fun y hy => (h'.lt_of_split hy).ne'
  refine h'.unlink ?_ (fun y hy => ?_) (fun p hp => ?_) (update_self ..)
  · refine h.seg.2.2.congr fun p hp => ?_
    obtain ⟨y, hy, rfl⟩ := mem_map.mp hp
    exact nextOf_update_of_ne (hne y hy)
  · rw [update_of_ne (hne y hy)]
    exact h.val y (mem_cons_of_mem _ hy)
  · refine update_of_ne (fun heq => hp ?_) _ _
    rw [heq]
    exact mem_map_of_mem mem_cons_self

theorem IsList.unlinkNext (h : IsList s (l1 ++ z :: x :: l2)) : IsList ⟨s.head,
      update (update s.mem z.1 (some ⟨z.2, nextOf s.mem x.1⟩)) x.1 none, s.fresh⟩
      (l1 ++ z :: l2) := by
  have hnd := h.nodup
  rw [map_append, map_cons, map_cons] at hnd
  obtain ⟨-, hnd2, hdis⟩ := nodup_append.mp hnd
  obtain ⟨hz, hnd3⟩ := nodup_cons.mp hnd2
  obtain ⟨hx, -⟩ := nodup_cons.mp hnd3
  have hzx : z.1 ≠ x.1 := fun heq => hz (heq ▸ mem_cons_self)
  have hl1 : ∀ y ∈ l1, y.1 ≠ x.1 ∧ y.1 ≠ z.1 := fun y hy =>
    ⟨hdis _ (mem_map_of_mem hy) _ (by simp), hdis _ (mem_map_of_mem hy) _ (by simp)⟩
  have hl2 : ∀ y ∈ l2, y.1 ≠ x.1 ∧ y.1 ≠ z.1 := fun y hy =>
    ⟨fun heq => hx (heq ▸ mem_map_of_mem hy),
      fun heq => hz (heq ▸ mem_cons_of_mem _ (mem_map_of_mem hy))⟩
  obtain ⟨mem, hmem⟩ : ∃ mem, mem = update (update s.mem z.1 (some ⟨z.2, nextOf s.mem x.1⟩)) x.1 none := ⟨_, rfl⟩
  have hself : nextOf mem z.1 = nextOf s.mem x.1 := by
    rw [hmem, nextOf_update_of_ne hzx]
    exact nextOf_update_self _
  have hother : ∀ p, p ≠ x.1 → p ≠ z.1 → mem p = s.mem p := fun p hpx hpz => by
    rw [hmem, update_of_ne hpx, update_of_ne hpz]
  have hnext : ∀ p, p ≠ x.1 → p ≠ z.1 → nextOf mem p = nextOf s.mem p := fun p hpx hpz => by
    rw [nextOf, hother p hpx hpz]
    rfl
  rw [← hmem]
  rw [append_cons] at h ⊢
  refine h.unlink ?_ (fun y hy => ?_) (fun p hp => ?_) (hmem ▸ update_self ..)
  · -- `z` is redirected to what comes behind `x`
    have hseg := h.seg
    rw [map_append, map_cons] at hseg
    obtain ⟨m, hto, rfl, _, hrest⟩ := seg_append.mp hseg
    rw [map_append]
    refine seg_append.mpr ⟨nextOf s.mem x.1, ?_, hrest.congr fun p hp => ?_⟩
    · rw [map_append] at hto ⊢
      obtain ⟨m, hto1, rfl, hz0, -⟩ := seg_append.mp hto
      refine seg_append.mpr ⟨z.1, hto1.congr fun p hp => ?_, rfl, hz0, hself⟩
      obtain ⟨y, hy, rfl⟩ := mem_map.mp hp
      exact hnext _ (hl1 y hy).1 (hl1 y hy).2
    · obtain ⟨y, hy, rfl⟩ := mem_map.mp hp
      exact hnext _ (hl2 y hy).1 (hl2 y hy).2
  · have hy' : y ∈ (l1 ++ [z]) ++ x :: l2 := ((sublist_cons_self x l2).append_left _).subset hy
    by_cases hyz : y.1 = z.1
    · obtain rfl : y = z := inj_on_of_nodup_map h.nodup hy' (by simp) hyz
      refine ⟨nextOf s.mem x.1, ?_⟩
      rw [hmem, update_of_ne hzx, update_self]
    have hyx : y.1 ≠ x.1 := by
      simp only [append_assoc, singleton_append, mem_append, mem_cons] at hy
      rcases hy with hy | rfl | hy
      · exact (hl1 y hy).1
      · exact absurd rfl hyz
      · exact (hl2 y hy).1
    rw [hother _ hyx hyz]
    exact h.val y hy'
  refine hother p (fun heq => hp ?_) fun heq => hp ?_
  · rw [heq]
    exact mem_map_of_mem (by simp)
  · rw [heq]
    exact mem_map_of_mem (by simp)

end

end G4Common

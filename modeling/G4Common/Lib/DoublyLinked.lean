/-
Doubly linked lists in memory.

A cell has a value and the numbers of its two neighbours, `0` for none; memory is a partial function, and may hold
other cells too.  `Holds s l` says that the list in memory has the cells and values of `l`: both chains of links run
through them, in the two directions, from `head` and from `tail`.

A cell is taken out by two changes: of the link that leads to it, or of `head` (`relinkNext`), and of the link that
leads back to it, or of `tail` (`relinkPrev`).  Each change has one lemma, for the cells on its side of the cell that
goes; `Holds.unlink` puts them together.

A cell is put in between two segments when memory changes as `PutBetween` says.
-/
import Mathlib.Data.List.Nodup
import Mathlib.Logic.Function.Basic

namespace G4Common.DoublyLinked

open Function List

variable {α : Type*}

/-- A value and two links. -/
structure DCell (α : Type*) where
  data : α
  next : ℕ
  prev : ℕ

/-- The two ends of a list, and the cells in memory. -/
structure DList (α : Type*) where
  head : ℕ
  tail : ℕ
  mem : ℕ → Option (DCell α)

namespace DList

/-- The link that leads on from `p`, or to the first cell if `p` is `0`, is changed. -/
def relinkNext (s : DList α) (p q : ℕ) : Option (DList α) :=
  if p = 0 then some { s with head := q }
  else (s.mem p).map fun c => { s with mem := update s.mem p (some { c with next := q }) }

/-- The link that leads back from `p`, or to the last cell if `p` is `0`, is changed. -/
def relinkPrev (s : DList α) (p q : ℕ) : Option (DList α) :=
  if p = 0 then some { s with tail := q }
  else (s.mem p).map fun c => { s with mem := update s.mem p (some { c with prev := q }) }

/-- The cell at `p` is taken out and freed. -/
def unlink (s : DList α) (p : ℕ) : Option (DList α) := do
  let c ← s.mem p
  let s ← s.relinkNext c.prev c.next
  let c ← s.mem p
  let s ← s.relinkPrev c.next c.prev
  some { s with mem := update s.mem p none }

end DList

/-- The cells `l` from the link `p` on, up to the link `q`.  The cell before the first one is `b`, the last one `e`. -/
def DSeg (mem : ℕ → Option (DCell α)) : ℕ → ℕ → List (ℕ × α) → ℕ → ℕ → Prop
  | b, p, [], e, q => e = b ∧ q = p
  | b, p, x :: l, e, q => p = x.1 ∧ p ≠ 0 ∧ ∃ n, mem p = some ⟨x.2, n, b⟩ ∧ DSeg mem p n l e q

/-- The list in memory is `l`. -/
structure Holds (s : DList α) (l : List (ℕ × α)) : Prop where
  seg : DSeg s.mem 0 s.head l s.tail 0
  nodup : (l.map Prod.fst).Nodup

variable {s : DList α} {mem mem' : ℕ → Option (DCell α)} {l l1 l2 : List (ℕ × α)} {x : ℕ × α} {b p q e : ℕ}

/-! ### Segments -/

theorem dSeg_append : DSeg mem b p (l1 ++ l2) e q ↔ ∃ m k, DSeg mem b p l1 m k ∧ DSeg mem m k l2 e q := by
  induction l1 generalizing b p with
  | nil =>
    constructor
    · exact fun h => ⟨b, p, ⟨rfl, rfl⟩, h⟩
    · rintro ⟨m, k, ⟨rfl, rfl⟩, h⟩
      exact h
  | cons _ _ ih =>
    constructor
    · rintro ⟨hp, hne, n, hmem, h⟩
      obtain ⟨m, k, h1, h2⟩ := ih.1 h
      exact ⟨m, k, ⟨hp, hne, n, hmem, h1⟩, h2⟩
    · rintro ⟨m, k, ⟨hp, hne, n, hmem, h1⟩, h2⟩
      exact ⟨hp, hne, n, hmem, ih.2 ⟨m, k, h1, h2⟩⟩

theorem DSeg.congr (h : DSeg mem b p l e q) (hmem : ∀ r ∈ l.map Prod.fst, mem' r = mem r) : DSeg mem' b p l e q := by
  induction l generalizing b p with
  | nil => exact h
  | cons x _ ih =>
    obtain ⟨rfl, hne, n, hx, hrest⟩ := h
    refine ⟨rfl, hne, n, ?_, ih hrest fun r hr => hmem r (mem_cons_of_mem _ hr)⟩
    rw [hmem x.1 mem_cons_self]
    exact hx

theorem DSeg.last (h : DSeg mem b p l e q) (hl : l ≠ []) :
    e ≠ 0 ∧ e ∈ l.map Prod.fst ∧ ∃ c, mem e = some c ∧ c.next = q := by
  induction l generalizing b p with
  | nil => exact absurd rfl hl
  | cons _ l ih =>
    obtain ⟨rfl, hne, n, hx, hrest⟩ := h
    rcases l with - | ⟨y, l⟩
    · obtain ⟨rfl, rfl⟩ := hrest
      exact ⟨hne, mem_cons_self, _, hx, rfl⟩
    · obtain ⟨hne', hmem, hc⟩ := ih hrest (cons_ne_nil _ _)
      exact ⟨hne', mem_cons_of_mem _ hmem, hc⟩

theorem DSeg.setNext (h : DSeg mem b p l e q) (hl : l ≠ []) (hnodup : (l.map Prod.fst).Nodup) {c : DCell α}
    (hc : mem e = some c) (r : ℕ) : DSeg (update mem e (some { c with next := r })) b p l e r := by
  induction l generalizing b p with
  | nil => exact absurd rfl hl
  | cons x l ih =>
    obtain ⟨rfl, hne, n, hx, hrest⟩ := h
    obtain ⟨hnot, hnodup⟩ := nodup_cons.1 hnodup
    rcases l with - | ⟨y, l⟩
    · obtain ⟨rfl, rfl⟩ := hrest
      cases hx.symm.trans hc
      exact ⟨rfl, hne, r, update_self .., rfl, rfl⟩
    have hmem : e ∈ (y :: l).map Prod.fst := (hrest.last (cons_ne_nil _ _)).2.1
    have hex : x.1 ≠ e := fun heq => hnot (heq ▸ hmem)
    refine ⟨rfl, hne, n, ?_, ih hrest (cons_ne_nil _ _) hnodup⟩
    rw [update_of_ne hex]
    exact hx

theorem DSeg.setPrev (h : DSeg mem b p (x :: l) e q) (hnodup : ((x :: l).map Prod.fst).Nodup) (r : ℕ) :
    ∃ c, mem p = some c ∧ DSeg (update mem p (some { c with prev := r })) r p (x :: l) e q := by
  obtain ⟨rfl, hne, n, hx, hrest⟩ := h
  refine ⟨_, hx, rfl, hne, n, update_self .., ?_⟩
  apply hrest.congr
  intro t ht
  apply update_of_ne
  rintro rfl
  exact (nodup_cons.1 hnodup).1 ht

theorem DSeg.first (h : DSeg mem b p l e q) (hl : l ≠ []) :
    p ≠ 0 ∧ p ∈ l.map Prod.fst ∧ ∃ c, mem p = some c ∧ c.prev = b := by
  rcases l with - | ⟨x, l⟩
  · exact absurd rfl hl
  · obtain ⟨rfl, hne, n, hx, -⟩ := h
    exact ⟨hne, mem_cons_self, _, hx, rfl⟩

/-- The memory with a cell `a` between two segments: the cell itself, the links of its neighbours to it, and the other
cells as they were. -/
structure PutBetween (mem mem' : ℕ → Option (DCell α)) (l1 l2 : List (ℕ × α)) (a m k : ℕ) (d : α) : Prop where
  cell : mem' a = some ⟨d, k, m⟩
  next : l1 ≠ [] → ∀ c, mem m = some c → mem' m = some { c with next := a }
  prev : l2 ≠ [] → ∀ c, mem k = some c → mem' k = some { c with prev := a }
  frame : ∀ r ∈ (l1 ++ l2).map Prod.fst, (l1 ≠ [] → r ≠ m) → (l2 ≠ [] → r ≠ k) → mem' r = mem r

/-- **A cell is put in** between two segments. -/
theorem DSeg.insert {a m k : ℕ} {d : α} (h1 : DSeg mem b p l1 m k) (h2 : DSeg mem m k l2 e q)
    (hnodup : ((l1 ++ l2).map Prod.fst).Nodup) (ha : a ≠ 0) (hput : PutBetween mem mem' l1 l2 a m k d) :
    DSeg mem' b (if l1 = [] then a else p) (l1 ++ (a, d) :: l2) (if l2 = [] then a else e) q := by
  have hframe := hput.frame
  rw [map_append, nodup_append] at hnodup
  rw [map_append] at hframe
  obtain ⟨hnd1, hnd2, hdis⟩ := hnodup
  have hbefore : DSeg mem' b (if l1 = [] then a else p) l1 m a := by
    split
    · rename_i hl
      subst hl
      exact ⟨h1.1, rfl⟩
    rename_i hl
    obtain ⟨-, _, c, hc, -⟩ := h1.last hl
    apply (h1.setNext hl hnd1 hc a).congr
    intro r hr
    rcases eq_or_ne r m with rfl | hrm
    · rw [update_self]
      exact hput.next hl c hc
    · rw [update_of_ne hrm]
      refine hframe r (mem_append_left _ hr) (fun _ => hrm) fun hl2 => ?_
      exact fun heq => hdis r hr k (h2.first hl2).2.1 heq
  have hbehind : DSeg mem' a k l2 (if l2 = [] then a else e) q := by
    rcases l2 with - | ⟨x, _⟩
    · exact ⟨rfl, h2.2⟩
    rw [if_neg (cons_ne_nil _ _)]
    obtain ⟨c, hc, hseg⟩ := h2.setPrev hnd2 a
    apply hseg.congr
    intro r hr
    rcases eq_or_ne r k with rfl | hrk
    · rw [update_self]
      exact hput.prev (cons_ne_nil _ _) c hc
    · rw [update_of_ne hrk]
      refine hframe r (mem_append_right _ hr) (fun hl1 => ?_) fun _ => hrk
      exact fun heq => hdis m (h1.last hl1).2.1 r hr heq.symm
  exact dSeg_append.2 ⟨m, a, hbefore, rfl, ha, k, hput.cell, hbehind⟩

/-! ### Changes of links -/

theorem relinkNext_spec (h : DSeg s.mem 0 s.head l e q) (hnodup : (l.map Prod.fst).Nodup) (r : ℕ) :
    ∃ s', s.relinkNext e r = some s' ∧ DSeg s'.mem 0 s'.head l e r ∧ s'.tail = s.tail ∧
      ∀ t ∉ l.map Prod.fst, s'.mem t = s.mem t := by
  rcases eq_or_ne l [] with rfl | hl
  · obtain ⟨rfl, -⟩ := h
    exact ⟨{ s with head := r }, if_pos rfl, ⟨rfl, rfl⟩, rfl, fun t _ => rfl⟩
  obtain ⟨hne, hmem, c, hc, -⟩ := h.last hl
  refine ⟨{ s with mem := update s.mem e (some { c with next := r }) }, ?_, h.setNext hl hnodup hc r, rfl, ?_⟩
  · rw [DList.relinkNext, if_neg hne, hc]
    rfl
  intro t ht
  apply update_of_ne
  rintro rfl
  exact ht hmem

theorem relinkPrev_spec (h : DSeg s.mem b p l s.tail 0) (hnodup : (l.map Prod.fst).Nodup) (r : ℕ) :
    ∃ s', s.relinkPrev p r = some s' ∧ DSeg s'.mem r p l s'.tail 0 ∧ s'.head = s.head ∧
      ∀ t ∉ l.map Prod.fst, s'.mem t = s.mem t := by
  rcases l with - | ⟨x, l⟩
  · obtain ⟨-, rfl⟩ := h
    exact ⟨{ s with tail := r }, if_pos rfl, ⟨rfl, rfl⟩, rfl, fun t _ => rfl⟩
  obtain ⟨c, hc, hseg⟩ := h.setPrev hnodup r
  obtain ⟨rfl, hne, -⟩ := h
  refine ⟨{ s with mem := update s.mem x.1 (some { c with prev := r }) }, ?_, hseg, rfl, ?_⟩
  · rw [DList.relinkPrev, if_neg hne, hc]
    rfl
  intro t ht
  apply update_of_ne
  rintro rfl
  exact ht mem_cons_self

/-! ### Lists -/

theorem Holds.tail_eq_zero (h : Holds s l) : s.tail = 0 ↔ l = [] := by
  constructor
  · intro ht
    by_contra hl
    exact (h.seg.last hl).1 ht
  · rintro rfl
    exact h.seg.1

theorem Holds.split (h : Holds s (l1 ++ x :: l2)) : x.1 ≠ 0 ∧ ∃ m n, DSeg s.mem 0 s.head l1 m x.1 ∧
    s.mem x.1 = some ⟨x.2, n, m⟩ ∧ DSeg s.mem x.1 n l2 s.tail 0 := by
  obtain ⟨m, k, h1, rfl, hne, n, hx, h2⟩ := dSeg_append.1 h.seg
  exact ⟨hne, m, n, h1, hx, h2⟩

/-- **A cell is taken out**: the others stay, in their order. -/
theorem Holds.unlink (h : Holds s (l1 ++ x :: l2)) : ∃ s', s.unlink x.1 = some s' ∧ Holds s' (l1 ++ l2) := by
  obtain ⟨-, m, n, h1, hx, h2⟩ := h.split
  have hnodup := h.nodup
  rw [map_append, map_cons, nodup_append] at hnodup
  obtain ⟨hnd1, hnd2, hdis⟩ := hnodup
  obtain ⟨hx2, hnd2⟩ := nodup_cons.1 hnd2
  have hx1 : x.1 ∉ l1.map Prod.fst := fun hmem => hdis _ hmem _ mem_cons_self rfl
  have h21 : ∀ t ∈ l2.map Prod.fst, t ∉ l1.map Prod.fst := fun t h2 h1 => hdis _ h1 _ (mem_cons_of_mem _ h2) rfl
  obtain ⟨s1, hs1, hseg1, htail, hmem1⟩ := relinkNext_spec h1 hnd1 n
  have hseg2 : DSeg s1.mem x.1 n l2 s1.tail 0 := by
    rw [htail]
    exact h2.congr fun t ht => hmem1 t (h21 t ht)
  obtain ⟨s2, hs2, hseg2, hhead, hmem2⟩ := relinkPrev_spec hseg2 hnd2 m
  refine ⟨{ s2 with mem := update s2.mem x.1 none }, ?_, ?_, ?_⟩
  · simp only [DList.unlink, hx, hs1, hmem1 x.1 hx1, hs2, Option.bind_eq_bind, Option.bind_some]
  · refine dSeg_append.2 ⟨m, n, ?_, ?_⟩
    · show DSeg (update s2.mem x.1 none) 0 s2.head l1 m n
      rw [hhead]
      apply hseg1.congr
      intro t ht
      rw [update_of_ne (by rintro rfl; exact hx1 ht)]
      exact hmem2 t fun h2 => h21 t h2 ht
    apply hseg2.congr
    intro t ht
    apply update_of_ne
    rintro rfl
    exact hx2 ht
  · rw [map_append, nodup_append]
    exact ⟨hnd1, hnd2, fun a ha b hb => hdis a ha b (mem_cons_of_mem _ hb)⟩

end G4Common.DoublyLinked

/-
Lists in memory that are searched through a pointer to the link.

A C program takes a cell out of a singly linked list by walking with a pointer to the link that leads to the cell: the
head variable at first, and then the link field of the cell before.  What is written through that pointer is the link
of the cell that leaves.  Cells are those of `Lib/LinkedList`, but new cells come in front, and memory may hold other
cells too.

A walk reads each cell and tests its value, and the test itself may fail, where it follows a pointer that is not valid.
The walk is described by the list: `firstLink` is the same search over the list that is in memory.

* `Holds.push` — a new cell in front;
* `Holds.find_eq` — the walk finds what the search over the list finds;
* `Holds.unlink` — the cell that was found leaves the list and is freed.
-/
import G4Common.Lib.LinkedList

namespace G4Common

open Function List Option

section LinkWalk

variable {α : Type}

/-- The head variable, or the link field of a cell. -/
inductive Link
  | head
  | next (p : ℕ)

/-- A head and the cells in memory. -/
structure PtrList (α : Type) where
  head : ℕ
  mem : ℕ → Option (Cell α)

namespace PtrList

def read (s : PtrList α) : Link → Option ℕ
  | .head => some s.head
  | .next p => (s.mem p).map Cell.next

def write (s : PtrList α) (q : ℕ) : Link → PtrList α
  | .head => { s with head := q }
  | .next p => { s with mem := update s.mem p ((s.mem p).map (fun c => { c with next := q })) }

/-- A new cell at `p`, in front of the others. -/
def push (s : PtrList α) (p : ℕ) (v : α) : PtrList α := ⟨p, update s.mem p (some ⟨v, s.head⟩)⟩

/-- The link to the first cell that passes the test, from the link `lk` on and within `n` cells. -/
def find (s : PtrList α) (test : α → Option Bool) : ℕ → Link → Option (Option Link)
  | 0, _ => none
  | n + 1, lk => do
    let p ← s.read lk
    if p = 0 then some none
    else do
      let c ← s.mem p
      let found ← test c.val
      if found then some (some lk) else find s test n (.next p)

/-- The cell to which a link leads is taken out and freed. -/
def unlink (s : PtrList α) (lk : Link) : Option (PtrList α) := do
  let p ← s.read lk
  let c ← s.mem p
  let s' := s.write c.next lk
  some { s' with mem := update s'.mem p none }

/-- The list in memory is `l`. -/
structure Holds (s : PtrList α) (l : List (ℕ × α)) : Prop where
  seg : Seg (nextOf s.mem) s.head (l.map Prod.fst) 0
  val : ∀ x ∈ l, ∃ n, s.mem x.1 = some ⟨x.2, n⟩

end PtrList

/-- The link behind the cells of a list. -/
def linkAfter (lk : Link) : List (ℕ × α) → Link
  | [] => lk
  | y :: l => linkAfter (.next y.1) l

/-- The search over the list. -/
def firstLink (test : α → Option Bool) (lk : Link) : List (ℕ × α) → Option (Option Link)
  | [] => some none
  | y :: l => do
    let found ← test y.2
    if found then some (some lk) else firstLink test (.next y.1) l

variable {s : PtrList α} {l l1 l2 : List (ℕ × α)} {x : ℕ × α} {test : α → Option Bool} {lk : Link} {p e n : ℕ} {v : α}

/-! ### The search over the list -/

theorem linkAfter_concat (lk : Link) (l : List (ℕ × α)) (y : ℕ × α) : linkAfter lk (l ++ [y]) = .next y.1 := by
  induction l generalizing lk with
  | nil => rfl
  | cons z _ ih => exact ih (.next z.1)

theorem firstLink_append (h1 : ∀ y ∈ l1, test y.2 = some false) (hx : test x.2 = some true) :
    firstLink test lk (l1 ++ x :: l2) = some (some (linkAfter lk l1)) := by
  induction l1 generalizing lk with
  | nil => simp [firstLink, hx, linkAfter]
  | cons y _ ih =>
    have hy := h1 y mem_cons_self
    rw [cons_append, firstLink, hy]
    exact ih (fun z hz => h1 z (mem_cons_of_mem _ hz))

namespace PtrList

/-! ### The walk -/

theorem Holds.nodup (h : Holds s l) : (l.map Prod.fst).Nodup := h.seg.nodup

theorem Holds.empty (mem : ℕ → Option (Cell α)) : Holds ⟨0, mem⟩ [] := ⟨rfl, nofun⟩

theorem Holds.head_eq_zero (h : Holds s l) : s.head = 0 ↔ l = [] := by
  cases l with
  | nil => exact ⟨fun _ => rfl, fun _ => h.seg⟩
  | cons =>
    obtain ⟨heq, hne, -⟩ := h.seg
    exact ⟨fun h0 => absurd (heq.symm.trans h0) hne, nofun⟩

theorem find_eq_firstLink (hseg : Seg (nextOf s.mem) e (l.map Prod.fst) 0) (hval : ∀ x ∈ l, ∃ n, s.mem x.1 = some ⟨x.2, n⟩)
    (hread : s.read lk = some e) (hn : l.length < n) : s.find test n lk = firstLink test lk l := by
  induction l generalizing n e lk with
  | nil =>
    obtain ⟨m, rfl⟩ := Nat.exists_eq_add_of_lt hn
    obtain rfl : e = 0 := hseg
    simp [find, hread, firstLink]
  | cons x l ih =>
    obtain ⟨m, rfl⟩ : ∃ m, n = m + 1 := ⟨n - 1, by omega⟩
    obtain ⟨rfl, hne, hrest⟩ := hseg
    obtain ⟨q, hx⟩ := hval x mem_cons_self
    have hq : s.read (.next x.1) = some (nextOf s.mem x.1) := by
      rw [nextOf_of_some hx, read, hx]
      rfl
    have hlen : l.length < m := by
      rw [length_cons] at hn
      omega
    have ih' := ih hrest (fun y hy => hval y (mem_cons_of_mem _ hy)) hq hlen
    simp only [find, hread, bind_eq_bind, bind_some, if_neg hne, hx, firstLink, ih']

theorem Holds.find_eq (h : Holds s l) (hn : l.length < n) : s.find test n .head = firstLink test .head l :=
  find_eq_firstLink h.seg h.val rfl hn

/-! ### Changes -/

theorem Holds.push (h : Holds s l) (hp : p ≠ 0) (hnew : p ∉ l.map Prod.fst) : Holds (s.push p v) ((p, v) :: l) := by
  have hnext : ∀ q ∈ l.map Prod.fst, nextOf (s.push p v).mem q = nextOf s.mem q := by
    intro q hq
    apply nextOf_update_of_ne
    rintro rfl
    exact hnew hq
  refine ⟨⟨rfl, hp, ?_⟩, ?_⟩
  · have hhead : nextOf (s.push p v).mem p = s.head := nextOf_update_self _
    rw [hhead]
    exact h.seg.congr hnext
  intro y hy
  rcases mem_cons.mp hy with rfl | hyl
  · exact ⟨s.head, update_self _ _ _⟩
  · obtain ⟨n, hn⟩ := h.val y hyl
    have hne : y.1 ≠ p := fun heq => hnew (heq ▸ mem_map_of_mem hyl)
    exact ⟨n, (update_of_ne hne _ _).trans hn⟩

theorem Holds.read_linkAfter (h : Holds s (l1 ++ x :: l2)) : s.read (linkAfter .head l1) = some x.1 := by
  rcases eq_nil_or_concat l1 with rfl | ⟨l0, y, rfl⟩
  · rw [linkAfter, read, h.seg.1]
  have hy : y ∈ l0.concat y ++ x :: l2 := by simp
  obtain ⟨n, hval⟩ := h.val y hy
  have hseg := h.seg
  rw [concat_eq_append, append_assoc, map_append] at hseg
  have hnext : nextOf s.mem y.1 = x.1 := hseg.suffix.1
  rw [concat_eq_append, linkAfter_concat, read, hval]
  rw [nextOf_of_some hval] at hnext
  exact congrArg some hnext

theorem Holds.write_mem (h : Holds s (l1 ++ x :: l2)) (hp : p ∉ l1.map Prod.fst) :
    (s.write n (linkAfter .head l1)).mem p = s.mem p := by
  rcases eq_nil_or_concat l1 with rfl | ⟨_, y, rfl⟩
  · rfl
  have hpy : p ≠ y.1 := by
    rintro rfl
    exact hp (by simp)
  rw [concat_eq_append, linkAfter_concat]
  exact update_of_ne hpy _ _

theorem Holds.unlink (h : Holds s (l1 ++ x :: l2)) : ∃ s', s.unlink (linkAfter .head l1) = some s' ∧ Holds s' (l1 ++ l2)
    ∧ s'.mem x.1 = none ∧ ∀ p ∉ (l1 ++ x :: l2).map Prod.fst, s'.mem p = s.mem p := by
  obtain ⟨n, hx⟩ := h.val x (by simp)
  have hnd := h.nodup
  rw [map_append, map_cons, nodup_append] at hnd
  obtain ⟨-, hnd2, hdis⟩ := hnd
  obtain ⟨hx2, -⟩ := nodup_cons.mp hnd2
  have hx1 : x.1 ∉ l1.map Prod.fst := fun hmem => hdis x.1 hmem x.1 mem_cons_self rfl
  have herase : ((l1 ++ x :: l2).map Prod.fst).erase x.1 = (l1 ++ l2).map Prod.fst := by
    rw [map_append, map_cons, erase_append_right _ hx1, erase_cons_head, map_append]
  have hunlink : s.unlink (linkAfter .head l1) = some { s.write n (linkAfter .head l1) with
      mem := update (s.write n (linkAfter .head l1)).mem x.1 none } := by
    simp only [PtrList.unlink, h.read_linkAfter, bind_eq_bind, bind_some, hx]
  refine ⟨_, hunlink, ?_, update_self _ _ _, ?_⟩
  · rcases eq_nil_or_concat l1 with rfl | ⟨l0, y, rfl⟩
    · refine ⟨?_, ?_⟩
      · have hrest := h.seg.2.2
        rw [nextOf_of_some hx] at hrest
        show Seg (nextOf (update s.mem x.1 none)) n (l2.map Prod.fst) 0
        apply hrest.congr
        intro q hq
        apply nextOf_update_of_ne
        rintro rfl
        exact hx2 hq
      intro z hz
      obtain ⟨m, hm⟩ := h.val z (mem_cons_of_mem _ hz)
      refine ⟨m, (update_of_ne ?_ _ _).trans hm⟩
      intro heq
      exact hx2 (heq ▸ mem_map_of_mem hz)
    rw [concat_eq_append] at *
    have hy : y ∈ l0 ++ [y] ++ x :: l2 := by simp
    obtain ⟨m, hm⟩ := h.val y hy
    have hyx : y.1 ≠ x.1 := fun heq => hx1 (by simp [heq])
    have hmem : update (s.write n (linkAfter .head (l0 ++ [y]))).mem x.1 none y.1 = some ⟨y.2, n⟩ := by
      rw [update_of_ne hyx, linkAfter_concat, write, hm]
      exact update_self _ _ _
    have hother : ∀ q, q ≠ y.1 → q ≠ x.1
        → update (s.write n (linkAfter .head (l0 ++ [y]))).mem x.1 none q = s.mem q := by
      intro q hqy hqx
      rw [update_of_ne hqx, linkAfter_concat]
      exact update_of_ne hqy _ _
    have hhead : (s.write n (linkAfter .head (l0 ++ [y]))).head = s.head := by
      rw [linkAfter_concat]
      rfl
    have hnext : nextOf s.mem y.1 = x.1 := by
      have hseg := h.seg
      rw [append_assoc, map_append] at hseg
      exact hseg.suffix.1
    refine ⟨?_, ?_⟩
    · show Seg _ (s.write n (linkAfter .head (l0 ++ [y]))).head _ 0
      rw [hhead, ← herase]
      refine h.seg.erase_next (mem_map_of_mem hy) hnext (h.seg.ne_zero (by simp)) ?_ ?_
      · rw [nextOf_of_some hmem, nextOf_of_some hx]
      · intro q _ hqy hqx
        exact congrArg (fun o => (Option.map Cell.next o).getD 0) (hother q hqy hqx)
    intro z hz
    have hzl : z ∈ l0 ++ [y] ++ x :: l2 := by
      rcases mem_append.mp hz with hz | hz
      · exact mem_append_left _ hz
      · exact mem_append_right _ (mem_cons_of_mem _ hz)
    rcases eq_or_ne z y with rfl | hzy
    · exact ⟨n, hmem⟩
    have hzy' : z.1 ≠ y.1 := fun heq => hzy (inj_on_of_nodup_map h.nodup hzl hy heq)
    have hzx : z.1 ≠ x.1 := by
      intro heq
      rcases mem_append.mp hz with hz | hz
      · exact hx1 (heq ▸ mem_map_of_mem hz)
      · exact hx2 (heq ▸ mem_map_of_mem hz)
    obtain ⟨k, hk⟩ := h.val z hzl
    exact ⟨k, (hother z.1 hzy' hzx).trans hk⟩
  intro p hp
  have hpx : p ≠ x.1 := by
    rintro rfl
    exact hp (by simp)
  have hp1 : p ∉ l1.map Prod.fst := fun hmem => hp (by rw [map_append]; exact mem_append_left _ hmem)
  exact (update_of_ne hpx _ _).trans (h.write_mem hp1)

end PtrList

end LinkWalk

end G4Common

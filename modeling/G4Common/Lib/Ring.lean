/-
Circular lists in memory, linked both ways.

A node has a link to the next node and one to the node before it, or none.  `IsRing L h xs` says that the links from
the head `h` visit the nodes of `xs` and come back to `h`, and that the links back are their inverse.  Memory may hold
several such lists; the two changes that programs make say which links they keep.

* `IsRing.addBefore` — a node that is in no list, in front of another one;
* `IsRing.unlink` — a node of a list.
-/
import Mathlib

namespace G4Common

section Ring

variable {ν : Type*} [DecidableEq ν]

structure Links (ν : Type*) where
  next : ν → Option ν
  prev : ν → Option ν

namespace Links

def setNext (L : Links ν) (a : ν) (b : Option ν) : Links ν := { L with next := Function.update L.next a b }

def setPrev (L : Links ν) (a : ν) (b : Option ν) : Links ν := { L with prev := Function.update L.prev a b }

/-- The node `e` is put in front of `y`; `none` if a link that is followed is missing. -/
def addBefore (L : Links ν) (e y : ν) : Option (Links ν) := do
  let L := L.setNext e (some y)
  let L := L.setPrev e (L.prev y)
  let x ← L.prev e
  let L := L.setNext x (some e)
  some (L.setPrev y (some e))

/-- The node `e` is taken out of its list and left without links. -/
def unlink (L : Links ν) (e : ν) : Option (Links ν) := do
  let y ← L.next e
  let L := L.setPrev y (L.prev e)
  let x ← L.prev e
  let L := L.setNext x (L.next e)
  let L := L.setNext e none
  some (L.setPrev e none)

/-- The links between two neighbours. -/
def Linked (L : Links ν) (a b : ν) : Prop := L.next a = some b ∧ L.prev b = some a

/-- The links of a node are the same in both memories. -/
def Same (L L' : Links ν) (a : ν) : Prop := L'.next a = L.next a ∧ L'.prev a = L.prev a

end Links

open Links Function List Option

/-- A circular list with its head and the other nodes in their order. -/
structure IsRing (L : Links ν) (h : ν) (xs : List ν) : Prop where
  nodup : (h :: xs).Nodup
  chain : List.IsChain L.Linked (h :: xs ++ [h])

variable {L L' : Links ν} {h e x y : ν} {xs p q A B : List ν}

/-! ### Chains -/

omit [DecidableEq ν] in
/-- A chain stays when the links that it has are kept. -/
theorem isChain_linked_congr {l : List ν} (hl : List.IsChain L.Linked l) (hnext : ∀ a ∈ l.dropLast, L'.next a = L.next a)
    (hprev : ∀ b ∈ l.tail, L'.prev b = L.prev b) : List.IsChain L'.Linked l := by
  induction l with
  | nil => exact isChain_nil
  | cons a l ih =>
    cases l with
    | nil => exact isChain_singleton a
    | cons b =>
      obtain ⟨hab, hrest⟩ := isChain_cons_cons.1 hl
      refine isChain_cons_cons.2 ⟨⟨?_, ?_⟩, ih hrest ?_ ?_⟩
      · rw [hnext a mem_cons_self]
        exact hab.1
      · rw [hprev b mem_cons_self]
        exact hab.2
      · exact fun c hc => hnext c (mem_cons_of_mem a hc)
      · exact fun c hc => hprev c (mem_cons_of_mem b hc)

/-! ### Rings -/

omit [DecidableEq ν] in
theorem isRing_nil : IsRing L h [] ↔ L.Linked h h := ⟨fun hr => (isChain_cons_cons.1 hr.chain).1,
    fun hl => ⟨nodup_singleton h, isChain_cons_cons.2 ⟨hl, isChain_singleton h⟩⟩⟩

omit [DecidableEq ν] in
/-- A ring stays when the links of its nodes are kept. -/
theorem IsRing.congr (hr : IsRing L h xs) (hsame : ∀ a ∈ h :: xs, L.Same L' a) : IsRing L' h xs := by
  refine ⟨hr.nodup, isChain_linked_congr hr.chain ?_ ?_⟩
  · intro a ha
    rw [dropLast_concat] at ha
    exact (hsame a ha).1
  intro b hb
  refine (hsame b ?_).2
  rw [cons_append, tail_cons, mem_append, mem_singleton] at hb
  rcases hb with hb | rfl
  · exact mem_cons_of_mem h hb
  · exact mem_cons_self

omit [DecidableEq ν] in
/-- The node behind another one, with the head behind the last one. -/
theorem IsRing.next_eq (hr : IsRing L h (p ++ e :: q)) (hq : q ++ [h] = y :: B) : L.next e = some y := by
  have hcycle : h :: (p ++ e :: q) ++ [h] = (h :: p) ++ e :: y :: B := by
    rw [← hq, cons_append, append_assoc]
    rfl
  exact (isChain_append_cons_cons.1 (hcycle ▸ hr.chain)).2.1.1

omit [DecidableEq ν] in
theorem IsRing.next_head (hr : IsRing L h xs) (hxs : xs ++ [h] = y :: B) : L.next h = some y := by
  have hchain := hr.chain
  rw [cons_append, hxs] at hchain
  exact (isChain_cons_cons.1 hchain).1.1

omit [DecidableEq ν] in
/-- What the nodes at a place of the ring have to do with the others. -/
theorem split_ne {A : List ν} {x y : ν} {B : List ν} (hnodup : (h :: (p ++ q)).Nodup) (hp : h :: p = A ++ [x])
    (hq : q ++ [h] = y :: B) : (∀ a ∈ A, a ≠ x) ∧ (∀ a ∈ q, a ≠ x) ∧ (∀ b ∈ p, b ≠ y) ∧ ∀ b ∈ B, b ≠ y := by
  have hfront : (A ++ [x] ++ q).Nodup := by
    rw [← hp, cons_append]
    exact hnodup
  have hback : (p ++ y :: B).Nodup := by
    rw [← hq, ← append_assoc]
    exact (perm_append_singleton h (p ++ q)).nodup_iff.2 hnodup
  rw [append_assoc, singleton_append] at hfront
  obtain ⟨-, hxq, hA⟩ := nodup_append.1 hfront
  obtain ⟨-, hyB, hpB⟩ := nodup_append.1 hback
  refine ⟨fun a ha => hA a ha x mem_cons_self, ?_, fun b hb => hpB b hb y mem_cons_self, ?_⟩
  · rintro a ha rfl
    exact (nodup_cons.1 hxq).1 ha
  · rintro b hb rfl
    exact (nodup_cons.1 hyB).1 hb

omit [DecidableEq ν] in
/-- A ring is cut between two nodes, and the nodes of `M` are put there by new links. -/
theorem isChain_splice {M : List ν} (hnodup : (h :: (p ++ q)).Nodup) (hp : h :: p = A ++ [x]) (hq : q ++ [h] = y :: B)
    (hA : List.IsChain L.Linked (A ++ [x])) (hB : List.IsChain L.Linked (y :: B))
    (hnext : ∀ a ∈ h :: (p ++ q), a ≠ x → L'.next a = L.next a)
    (hprev : ∀ b ∈ h :: (p ++ q), b ≠ y → L'.prev b = L.prev b) (hM : List.IsChain L'.Linked (x :: M ++ [y])) :
    List.IsChain L'.Linked (h :: (p ++ M ++ q) ++ [h]) := by
  obtain ⟨hAx, hqx, hpy, hBy⟩ := split_ne hnodup hp hq
  have hmem : ∀ a, a ∈ h :: (p ++ q) ↔ a ∈ A ++ [x] ∨ a ∈ q := by
    intro a
    rw [← hp, ← cons_append, mem_append]
  have hmem' : ∀ a, a ∈ h :: (p ++ q) ↔ a ∈ p ∨ a ∈ y :: B := by
    intro a
    rw [← hq, mem_cons, mem_append, mem_append, mem_singleton, or_left_comm, or_comm (a := a = h)]
  have hcycle : h :: (p ++ M ++ q) ++ [h] = A ++ x :: M ++ y :: B := by
    rw [← cons_append, ← cons_append, hp, append_assoc, hq, append_assoc A]
    rfl
  have hA' : List.IsChain L'.Linked (A ++ [x]) := by
    refine isChain_linked_congr hA ?_ ?_
    · rw [dropLast_concat]
      exact fun a ha => hnext a ((hmem a).2 (.inl (mem_append_left _ ha))) (hAx a ha)
    · rw [← hp, tail_cons]
      exact fun b hb => hprev b ((hmem' b).2 (.inl hb)) (hpy b hb)
  have hB' : List.IsChain L'.Linked (y :: B) := by
    refine isChain_linked_congr hB ?_ fun b hb => hprev b ((hmem' b).2 (.inr (mem_cons_of_mem y hb))) (hBy b hb)
    rw [← hq, dropLast_concat]
    exact fun a ha => hnext a ((hmem a).2 (.inr ha)) (hqx a ha)
  rw [hcycle, append_assoc, cons_append]
  exact isChain_split.2 ⟨hA', isChain_split.2 ⟨hM, hB'⟩⟩

omit [DecidableEq ν] in
theorem ends_mem (hp : h :: p = A ++ [x]) (hq : q ++ [h] = y :: B) : x ∈ h :: (p ++ q) ∧ y ∈ h :: (p ++ q) := by
  constructor
  · rw [← cons_append, hp]
    exact mem_append_left _ (mem_append_right _ mem_cons_self)
  · have hy : y ∈ q ++ [h] := hq ▸ mem_cons_self
    rcases mem_append.1 hy with hy | hy
    · exact mem_cons_of_mem h (mem_append_right p hy)
    · rw [mem_singleton.1 hy]
      exact mem_cons_self

theorem IsRing.addBefore (hr : IsRing L h (p ++ q)) (he : e ∉ h :: (p ++ q)) (hq : q ++ [h] = y :: B) :
    ∃ L', L.addBefore e y = some L' ∧ IsRing L' h (p ++ e :: q) ∧ ∀ a, a ∉ e :: h :: (p ++ q) → L.Same L' a := by
  obtain ⟨A, x, hA⟩ : ∃ A x, h :: p = A ++ [x] := ⟨_, _, (dropLast_append_getLast (cons_ne_nil h p)).symm⟩
  have hcycle : h :: (p ++ q) ++ [h] = A ++ x :: y :: B := by
    rw [← cons_append, hA, append_assoc, append_assoc, hq]
    rfl
  obtain ⟨hchainA, ⟨-, hyx⟩, hchainB⟩ := isChain_append_cons_cons.1 (hcycle ▸ hr.chain)
  obtain ⟨hx, hy⟩ := ends_mem hA hq
  have hne : ∀ a ∈ h :: (p ++ q), a ≠ e := fun a ha hae => he (hae ▸ ha)
  have hnext : ∀ a, a ≠ x → a ≠ e → update (update L.next e (some y)) x (some e) a = L.next a :=
    fun a hax hae => by rw [update_of_ne hax, update_of_ne hae]
  have hprev : ∀ a, a ≠ y → a ≠ e → update (update L.prev e (some x)) y (some e) a = L.prev a :=
    fun a hay hae => by rw [update_of_ne hay, update_of_ne hae]
  refine ⟨⟨update (update L.next e (some y)) x (some e), update (update L.prev e (some x)) y (some e)⟩, ?_, ⟨?_, ?_⟩, ?_⟩
  · simp only [Links.addBefore, Links.setNext, Links.setPrev, hyx, update_self, bind_eq_bind, bind_some]
  · rw [← cons_append, nodup_middle, cons_append]
    exact nodup_cons.2 ⟨he, hr.nodup⟩
  · have hmiddle : p ++ e :: q = p ++ [e] ++ q := by simp
    rw [hmiddle]
    refine isChain_splice hr.nodup hA hq hchainA hchainB (fun a ha hax => hnext a hax (hne a ha))
      (fun b hb hby => hprev b hby (hne b hb)) (isChain_cons_cons.2 ⟨⟨update_self _ _ _, ?_⟩, isChain_cons_cons.2
        ⟨⟨?_, update_self _ _ _⟩, isChain_singleton y⟩⟩)
    · show update _ y _ e = _
      rw [update_of_ne (hne y hy).symm, update_self]
    · show update _ x _ e = _
      rw [update_of_ne (hne x hx).symm, update_self]
  intro a ha
  have hae : a ≠ e := fun hae => ha (hae ▸ mem_cons_self)
  have hcycle : a ∉ h :: (p ++ q) := fun hmem => ha (mem_cons_of_mem e hmem)
  exact ⟨hnext a (fun hax => hcycle (hax ▸ hx)) hae, hprev a (fun hay => hcycle (hay ▸ hy)) hae⟩

theorem IsRing.unlink (hr : IsRing L h (p ++ e :: q)) :
    ∃ L', L.unlink e = some L' ∧ IsRing L' h (p ++ q) ∧ L'.next e = none ∧ L'.prev e = none ∧
      ∀ a, a ∉ h :: (p ++ e :: q) → L.Same L' a := by
  obtain ⟨A, x, hA⟩ : ∃ A x, h :: p = A ++ [x] := ⟨_, _, (dropLast_append_getLast (cons_ne_nil h p)).symm⟩
  obtain ⟨y, B, hq⟩ : ∃ y B, q ++ [h] = y :: B := exists_cons_of_ne_nil (append_ne_nil_of_right_ne_nil q (by simp))
  have hcycle : h :: (p ++ e :: q) ++ [h] = A ++ x :: e :: y :: B := by
    have hcons : e :: q ++ [h] = e :: y :: B := congrArg (cons e) hq
    rw [← cons_append, hA, append_assoc, append_assoc, hcons]
    rfl
  obtain ⟨hchainA, ⟨_, hex⟩, hrest⟩ := isChain_append_cons_cons.1 (hcycle ▸ hr.chain)
  obtain ⟨⟨hey, _⟩, hchainB⟩ := isChain_cons_cons.1 hrest
  obtain ⟨hemem, hnodup⟩ : e ∉ h :: (p ++ q) ∧ (h :: (p ++ q)).Nodup := by
    have := hr.nodup
    rw [← cons_append, nodup_middle, cons_append] at this
    exact nodup_cons.1 this
  obtain ⟨hx, hy⟩ := ends_mem hA hq
  have hne : ∀ a ∈ h :: (p ++ q), a ≠ e := fun a ha hae => hemem (hae ▸ ha)
  have hnext : ∀ a, a ≠ x → a ≠ e → update (update L.next x (some y)) e none a = L.next a :=
    fun a hax hae => by rw [update_of_ne hae, update_of_ne hax]
  have hprev : ∀ a, a ≠ y → a ≠ e → update (update L.prev y (some x)) e none a = L.prev a :=
    fun a hay hae => by rw [update_of_ne hae, update_of_ne hay]
  refine ⟨⟨update (update L.next x (some y)) e none, update (update L.prev y (some x)) e none⟩, ?_, ⟨hnodup, ?_⟩,
    update_self _ _ _, update_self _ _ _, ?_⟩
  · simp only [Links.unlink, Links.setNext, Links.setPrev, hey, hex, update_of_ne (hne y hy).symm,
      bind_eq_bind, bind_some]
  · rw [← append_nil p]
    refine isChain_splice hnodup hA hq hchainA hchainB (fun a ha hax => hnext a hax (hne a ha))
      (fun b hb hby => hprev b hby (hne b hb)) (isChain_cons_cons.2 ⟨⟨?_, ?_⟩, isChain_singleton y⟩)
    · show update _ e _ x = _
      rw [update_of_ne (hne x hx), update_self]
    · show update _ e _ y = _
      rw [update_of_ne (hne y hy), update_self]
  intro a ha
  have hacycle : a ∉ h :: (p ++ e :: q) ↔ a ≠ e ∧ a ∉ h :: (p ++ q) := by
    rw [← cons_append, ← cons_append, mem_append, mem_append, mem_cons (b := e), or_left_comm, not_or]
  obtain ⟨hae, ha⟩ := hacycle.1 ha
  exact ⟨hnext a (fun hax => ha (hax ▸ hx)) hae, hprev a (fun hay => ha (hay ▸ hy)) hae⟩

/-! ### What links lead to -/

omit [DecidableEq ν] in
/-- The links of a ring lead to nodes of the ring. -/
theorem IsRing.mem_of_link (hr : IsRing L h xs) {a b : ν} (ha : a ∈ h :: xs) (hb : L.next a = some b ∨ L.prev a = some b) :
    b ∈ h :: xs := by
  have hends : ∀ c, c ∈ xs ++ [h] ↔ c ∈ h :: xs := fun c => (perm_append_singleton h xs).mem_iff
  rcases hb with hb | hb
  · -- The node behind it, maybe the head.
    obtain ⟨p, q, hpq⟩ := append_of_mem ha
    obtain ⟨y, B, hq⟩ : ∃ y B, q ++ [h] = y :: B :=
      exists_cons_of_ne_nil (append_ne_nil_of_right_ne_nil q (cons_ne_nil h []))
    have hcycle : h :: xs ++ [h] = p ++ a :: y :: B := by
      rw [hpq, append_assoc, cons_append, hq]
    obtain rfl := some.inj (hb.symm.trans (isChain_append_cons_cons.1 (hcycle ▸ hr.chain)).2.1.1)
    have hmem : b ∈ q ++ [h] := hq ▸ mem_cons_self
    rw [hpq]
    rcases mem_append.1 hmem with hmem | hmem
    · exact mem_append_right p (mem_cons_of_mem a hmem)
    · rw [mem_singleton.1 hmem, ← hpq]
      exact mem_cons_self
  -- The node before it, maybe the head.
  obtain ⟨p, q, hpq⟩ := append_of_mem ((hends a).2 ha)
  obtain ⟨A, x, hA⟩ : ∃ A x, h :: p = A ++ [x] := ⟨_, _, (dropLast_append_getLast (cons_ne_nil h p)).symm⟩
  have hcycle : h :: xs ++ [h] = A ++ x :: a :: q := by
    rw [cons_append, hpq, ← cons_append, hA, append_assoc]
    rfl
  obtain rfl := some.inj (hb.symm.trans (isChain_append_cons_cons.1 (hcycle ▸ hr.chain)).2.1.2)
  have hmem : b ∈ h :: p := hA ▸ mem_append_right A mem_cons_self
  rcases mem_cons.1 hmem with rfl | hmem
  · exact mem_cons_self
  · exact (hends b).1 (hpq ▸ mem_append_left _ hmem)

namespace Links

/-- No link leads to the node. -/
def Avoids (L : Links ν) (z : ν) : Prop := ∀ a, L.next a ≠ some z ∧ L.prev a ≠ some z

variable {z : ν}

theorem Avoids.setNext (hz : L.Avoids z) (a : ν) {b : Option ν} (hb : b ≠ some z) : (L.setNext a b).Avoids z := by
  intro c
  refine ⟨?_, (hz c).2⟩
  show update L.next a b c ≠ some z
  by_cases hc : c = a
  · rw [hc, update_self]
    exact hb
  · rw [update_of_ne hc]
    exact (hz c).1

theorem Avoids.setPrev (hz : L.Avoids z) (a : ν) {b : Option ν} (hb : b ≠ some z) : (L.setPrev a b).Avoids z := by
  intro c
  refine ⟨(hz c).1, ?_⟩
  show update L.prev a b c ≠ some z
  by_cases hc : c = a
  · rw [hc, update_self]
    exact hb
  · rw [update_of_ne hc]
    exact (hz c).2

theorem Avoids.addBefore (hz : L.Avoids z) (he : e ≠ z) (hy : y ≠ z) (h : L.addBefore e y = some L') : L'.Avoids z := by
  have hsome : ∀ {a : ν}, a ≠ z → some a ≠ some z := fun ha h => ha (some.inj h)
  have hlinked := (hz.setNext e (hsome hy)).setPrev e (b := (L.setNext e (some y)).prev y) ((hz.setNext e (hsome hy)) y).2
  simp only [Links.addBefore, bind_eq_bind, bind_eq_some_iff] at h
  obtain ⟨x, -, h⟩ := h
  cases h
  exact (hlinked.setNext x (hsome he)).setPrev y (hsome he)

theorem Avoids.unlink (hz : L.Avoids z) (h : L.unlink e = some L') : L'.Avoids z := by
  have hnone : (none : Option ν) ≠ some z := (some_ne_none z).symm
  simp only [Links.unlink, bind_eq_bind, bind_eq_some_iff] at h
  obtain ⟨y, -, x, -, h⟩ := h
  cases h
  have hfirst := hz.setPrev y (hz e).2
  exact ((hfirst.setNext x (hfirst e).1).setNext e hnone).setPrev e hnone

end Links

end Ring

end G4Common

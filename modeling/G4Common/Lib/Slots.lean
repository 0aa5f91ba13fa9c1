/-
Tables of slots.

A table is a list of fixed length.  The programs modelled here treat a table in
two ways: a loop runs over all slots, and its body changes the slot at hand and
some state beside the table (`forSlots`); or a search finds the first slot that
passes a test, and only that one is changed (`updateFirst`).

Both come with one rule.  For a loop, what the body keeps at one slot is kept
by the whole loop (`forSlots_keep_of`; `forSlots_scan` when it matters which
slots are done).  For a search, the table splits at the slot that was found
(`updateFirst_eq_some`), and what is known about the other slots carries over
(`mem_replace`, `pairwise_replace`, `countP_updateFirst`).

A table may hold a set, with one value that marks a free slot (`SlotSet`).
-/
import Mathlib.Data.Finset.Card
import Mathlib.Data.List.Basic
import Mathlib.Data.List.Count

namespace G4Common

open List

variable {α β τ : Type*}

/-! ### Loops -/

/-- `for (cnt = 0; cnt < n; cnt++) body(&a[cnt])`, with the state `s` beside
the table. -/
def forSlots (body : τ → α → τ × α) : τ → List α → τ × List α
  | s, [] => (s, [])
  | s, x :: l =>
    let (s, x) := body s x
    let (s, l) := forSlots body s l
    (s, x :: l)

section

variable {body : τ → α → τ × α} {s : τ} {l l0 : List α}

section

variable {P : τ → List α → Prop} {Q : α → Prop}
    (hstep : ∀ s l1 x l2, Q x → P s (l1 ++ x :: l2) → P (body s x).1 (l1 ++ (body s x).2 :: l2))
    (hQ : ∀ x ∈ l, Q x)
include hstep hQ

theorem forSlots_keep_append (h : P s (l0 ++ l)) : P (forSlots body s l).1 (l0 ++ (forSlots body s l).2) := by
  induction l generalizing s l0 with
  | nil => exact h
  | cons x l ih =>
    have hx := hstep s l0 x l (hQ x (mem_cons_self ..)) h
    rw [append_cons] at hx
    have hl := ih (fun y hy => hQ y (mem_cons_of_mem _ hy)) hx
    rwa [← append_cons] at hl

/-- **The loop rule**: a property `P` of the state and the whole table that the
body keeps at each slot.  The loop meets every slot as it was before, so the
body may rely on what is known about the slots at the start (`Q`). -/
theorem forSlots_keep_of (h : P s l) : P (forSlots body s l).1 (forSlots body s l).2 :=
  by
  rw [← nil_append l] at h
  exact forSlots_keep_append hstep hQ h

end

theorem forSlots_scan {P : τ → List α → List α → Prop}
    (hstep : ∀ s l1 x l2, P s l1 (x :: l2) → P (body s x).1 (l1 ++ [(body s x).2]) l2)
    (h : P s l0 l) : P (forSlots body s l).1 (l0 ++ (forSlots body s l).2) [] := by
  induction l generalizing s l0 with
  | nil => simpa [forSlots] using h
  | cons x l ih =>
    have hl := ih (hstep s l0 x l h)
    rwa [append_assoc] at hl

end

section

variable {body : τ → α → τ × α} {s : τ} {l : List α}

theorem forSlots_getElem? (i : ℕ) : (forSlots body s l).2[i]?
    = l[i]?.map fun x => (body (forSlots body s (l.take i)).1 x).2 := by
  induction l generalizing s i with
  | nil => simp [forSlots]
  | cons _ _ ih =>
    cases i with
    | zero => rfl
    | succ i => exact ih i

end

/-! ### One slot changes -/

section

variable {l1 l2 : List α} {x x' y : α}

theorem mem_replace (h : y ∈ l1 ++ x' :: l2) : y = x' ∨ y ∈ l1 ++ l2 := by
  simp only [mem_append, mem_cons] at h ⊢
  rcases h with h | h | h
  · exact .inr (.inl h)
  · exact .inl h
  · exact .inr (.inr h)

theorem mem_of_others (h : y ∈ l1 ++ l2) : y ∈ l1 ++ x :: l2 := by
  simp only [mem_append, mem_cons] at h ⊢
  exact h.imp_right Or.inr

theorem pairwise_replace {R : α → α → Prop} (h : (l1 ++ x :: l2).Pairwise R)
    (h1 : ∀ y ∈ l1, R y x') (h2 : ∀ y ∈ l2, R x' y) : (l1 ++ x' :: l2).Pairwise R := by
  simp only [pairwise_append, pairwise_cons, mem_cons] at h ⊢
  obtain ⟨hl1, ⟨-, hl2⟩, hcross⟩ := h
  refine ⟨hl1, ⟨h2, hl2⟩, fun y hy z hz => ?_⟩
  rcases hz with rfl | hz
  · exact h1 y hy
  · exact hcross y hy z (.inr hz)

theorem countP_le_one {p : α → Bool} {l : List α} (h : l.Pairwise fun y z => p y → p z = false) : l.countP p ≤ 1 := by
  induction l with
  | nil => exact Nat.zero_le _
  | cons y l ih =>
    obtain ⟨hy, hl⟩ := pairwise_cons.mp h
    by_cases hp : p y = true
    · have hzero : l.countP p = 0 := countP_eq_zero.mpr fun z hz => by simp [hy z hz hp]
      simp [hp, hzero]
    · simpa [countP_cons, hp] using ih hl

end

/-! ### Searches -/

/-- Change the first slot that passes the test `p`; `none` if no slot does. -/
def updateFirst (p : α → Bool) (f : α → β × α) : List α → Option (β × List α)
  | [] => none
  | x :: l =>
    if p x then some ((f x).1, (f x).2 :: l)
    else (updateFirst p f l).map fun (t, l) => (t, x :: l)

section

variable {p : α → Bool} {f : α → β × α} {l l' : List α} {t : β}

theorem updateFirst_eq_none : updateFirst p f l = none ↔ ∀ x ∈ l, p x = false := by
  induction l with
  | nil => simp [updateFirst]
  | cons x _ ih =>
    by_cases hx : p x = true
    · simp [updateFirst, hx]
    · simp [updateFirst, hx, ih]

theorem updateFirst_eq_some : updateFirst p f l = some (t, l') ↔
    ∃ l1 x l2, l = l1 ++ x :: l2 ∧ (∀ y ∈ l1, p y = false) ∧ p x ∧ t = (f x).1 ∧
      l' = l1 ++ (f x).2 :: l2 := by
  induction l generalizing l' with
  | nil => simp [updateFirst]
  | cons x l ih =>
    by_cases hx : p x = true
    · simp only [updateFirst, hx, if_true, Option.some.injEq, Prod.mk.injEq]
      constructor
      · rintro ⟨rfl, rfl⟩
        exact ⟨[], x, l, rfl, by simp, hx, rfl, rfl⟩
      rintro ⟨l1, y, l2, hl, hno, -, rfl, rfl⟩
      cases l1 with
      | nil =>
        obtain ⟨rfl, rfl⟩ := cons.inj hl
        exact ⟨rfl, rfl⟩
      | cons =>
        obtain ⟨rfl, -⟩ := cons.inj hl
        simp [hx] at hno
    simp only [updateFirst, hx, Bool.false_eq_true, if_false, Option.map_eq_some_iff,
      Prod.exists, Prod.mk.injEq]
    constructor
    · rintro ⟨_, _, hrec, rfl, rfl⟩
      obtain ⟨l1, y, l2, rfl, hno, hy, ht, rfl⟩ := ih.mp hrec
      refine ⟨x :: l1, y, l2, rfl, ?_, hy, ht, rfl⟩
      simpa [hx] using hno
    rintro ⟨l1, y, l2, hl, hno, hy, ht, rfl⟩
    cases l1 with
    | nil =>
      obtain ⟨rfl, -⟩ := cons.inj hl
      exact absurd hy hx
    | cons _ l1 =>
      obtain ⟨rfl, rfl⟩ := cons.inj hl
      refine ⟨t, l1 ++ (f y).2 :: l2, ih.mpr ⟨l1, y, l2, rfl, ?_, hy, ht, rfl⟩, rfl, rfl⟩
      exact fun w hw => hno w (mem_cons_of_mem _ hw)

theorem countP_updateFirst {q : α → Bool} (h : updateFirst p f l = some (t, l')) : ∃ x ∈ l, p x ∧
      l'.countP q + (if q x then 1 else 0) = l.countP q + (if q (f x).2 then 1 else 0) := by
  obtain ⟨_, x, _, rfl, -, hx, -, rfl⟩ := updateFirst_eq_some.mp h
  refine ⟨x, by simp, hx, ?_⟩
  simp only [countP_append, countP_cons]
  omega

end

/-! ### Tables that hold a set -/

/-- The occupied slots of the table `l` hold the members of `S`, each once; `z`
marks a free slot. -/
structure SlotSet (z : α) (l : List α) (S : Finset α) : Prop where
  mem_iff : ∀ a, a ≠ z → (a ∈ l ↔ a ∈ S)
  free : z ∉ S
  distinct : l.Pairwise fun a b => a ≠ z → a ≠ b

namespace SlotSet

variable {z a : α} {l l1 l2 : List α} {S : Finset α}

theorem nil_of_replicate (n : ℕ) : SlotSet z (replicate n z) ∅ where
  mem_iff := fun b hb => by simp [mem_replicate, hb]
  free := by simp
  distinct := pairwise_replicate.mpr (.inr fun h => absurd rfl h)

theorem not_mem_others (h : SlotSet z (l1 ++ a :: l2) S) (ha : a ≠ z) : a ∉ l1 ++ l2 := by
  have hd := h.distinct
  simp only [pairwise_append, pairwise_cons, mem_cons] at hd
  obtain ⟨-, ⟨hl2, -⟩, hcross⟩ := hd
  intro hmem
  rcases mem_append.mp hmem with hmem | hmem
  · exact hcross a hmem a (.inl rfl) ha rfl
  · exact hl2 a hmem ha rfl

section

variable [DecidableEq α]

theorem insert (h : SlotSet z (l1 ++ z :: l2) S) (ha : a ≠ z) (hS : a ∉ S) :
    SlotSet z (l1 ++ a :: l2) (insert a S) where
  mem_iff := by
    intro b hb
    have hb' := h.mem_iff b hb
    simp only [mem_append, mem_cons, hb, false_or] at hb'
    simp only [mem_append, mem_cons, Finset.mem_insert, ← hb']
    tauto
  free := by
    rw [Finset.mem_insert, not_or]
    exact ⟨ha.symm, h.free⟩
  distinct := by
    have hnew : ∀ b ∈ l1 ++ l2, a ≠ b := by
      rintro b hb rfl
      exact hS ((h.mem_iff a ha).mp (mem_of_others hb))
    exact pairwise_replace h.distinct (fun b hb _ => (hnew b (mem_append_left _ hb)).symm)
      fun b hb _ => hnew b (mem_append_right _ hb)

theorem erase (h : SlotSet z (l1 ++ a :: l2) S) (ha : a ≠ z) : SlotSet z (l1 ++ z :: l2) (S.erase a) where
  mem_iff := by
    intro b hb
    have hb' := h.mem_iff b hb
    have hno := h.not_mem_others ha
    simp only [mem_append, mem_cons] at hb' hno
    simp only [mem_append, mem_cons, hb, false_or, Finset.mem_erase, ← hb']
    rcases eq_or_ne b a with rfl | hba
    · simp [not_or.mp hno]
    · simp [hba]
  free := fun hz => h.free (Finset.mem_of_mem_erase hz)
  distinct := pairwise_replace h.distinct (fun _ _ hb => hb) fun _ _ hz => absurd rfl hz

theorem card_eq (h : SlotSet z l S) : S.card = l.countP (· ≠ z) := by
  have hnd : (l.filter (· ≠ z)).Nodup := by
    rw [nodup_iff_pairwise_ne, pairwise_filter]
    exact h.distinct.imp fun hab ha _ => hab (by simpa using ha)
  have heq : (l.filter (· ≠ z)).toFinset = S := by
    ext b
    rcases eq_or_ne b z with rfl | hb
    · simp [h.free]
    · simp [hb, h.mem_iff b hb]
  rw [← heq, toFinset_card_of_nodup hnd, countP_eq_length_filter]

theorem exists_free (h : SlotSet z l S) (hc : S.card < l.length) : z ∈ l := by
  by_contra hz
  have hall : l.countP (· ≠ z) = l.length := by
    refine countP_eq_length.mpr fun b hb => ?_
    simp only [ne_eq, decide_eq_true_eq]
    rintro rfl
    exact hz hb
  have := h.card_eq
  omega

theorem map_erase (h : SlotSet z l S) : SlotSet z (l.map fun b => if b = a then z else b) (S.erase a) where
  mem_iff := by
    intro b hb
    have hb' := h.mem_iff b hb
    simp only [mem_map, Finset.mem_erase, ← hb']
    constructor
    · rintro ⟨c, hc, rfl⟩
      by_cases hca : c = a
      · simp [hca] at hb
      · rw [if_neg hca]
        exact ⟨hca, hc⟩
    · rintro ⟨hba, hmem⟩
      exact ⟨b, hmem, if_neg hba⟩
  free := fun hz => h.free (Finset.mem_of_mem_erase hz)
  distinct := by
    refine pairwise_map.mpr (h.distinct.imp fun {b c} hbc => ?_)
    by_cases hba : b = a
    · simp [hba]
    rw [if_neg hba]
    by_cases hca : c = a
    · simp [hca]
    · rw [if_neg hca]
      exact hbc

end

end SlotSet

end G4Common

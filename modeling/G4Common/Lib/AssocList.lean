/-
Lists of keys and values as maps: the first entry of a key counts.

A key may have further entries behind its first one.  To write a key, its first entry is exchanged or a new one is put
where none is before it (`toMap_set`); to change the values of a key, all its entries are changed (`toMap_modify`).  A
search for an entry whose value has a property finds the first entry of the key or none, when the later entries of the key
do not have the property unless the first one has it (`find?_eq`).
-/
import Mathlib

namespace G4Common.AssocList

open Function List Option

variable {α β : Type} [DecidableEq α] {l A B D : List (α × β)} {k k' : α} {v : β} {p : β → Bool}

def toMap (l : List (α × β)) : α → Option β := fun k => l.lookup k

theorem toMap_append (k : α) : toMap (A ++ B) k = (toMap A k).or (toMap B k) := lookup_append

theorem toMap_cons_self (k : α) (v : β) (l : List (α × β)) : toMap ((k, v) :: l) k = some v := lookup_cons_self

theorem toMap_cons_of_ne (h : k' ≠ k) (v : β) (l : List (α × β)) : toMap ((k, v) :: l) k' = toMap l k' := by
  show lookup k' ((k, v) :: l) = lookup k' l
  rw [lookup_cons, beq_eq_false_iff_ne.mpr h]

theorem toMap_eq_none (h : ∀ e ∈ l, e.1 ≠ k) : toMap l k = none := by
  apply lookup_eq_none_iff.mpr
  intro e he
  exact bne_iff_ne.mpr (h e he).symm

theorem toMap_set (hA : ∀ e ∈ A, e.1 ≠ k) (hD : ∀ e ∈ D, e.1 = k) :
    toMap (A ++ (k, v) :: B) = update (toMap (A ++ D ++ B)) k (some v) := by
  funext k'
  rcases eq_or_ne k' k with rfl | hk
  · rw [update_self, toMap_append, toMap_eq_none hA, none_or, toMap_cons_self]
  · have hD' : toMap D k' = none := toMap_eq_none (fun e he h => hk (h.symm.trans (hD e he)))
    rw [update_of_ne hk, toMap_append, toMap_append, toMap_append, toMap_cons_of_ne hk, hD', or_none]

/-- The entries of a key with new values. -/
def modify (k : α) (f : β → β) (l : List (α × β)) : List (α × β) := l.map (fun e => if e.1 = k then (e.1, f e.2) else e)

theorem toMap_modify (k : α) (f : β → β) (l : List (α × β)) :
    toMap (modify k f l) = update (toMap l) k ((toMap l k).map f) := by
  funext k'
  induction l with
  | nil =>
    rw [update_apply]
    split <;> rfl
  | cons e l ih =>
    obtain ⟨k0, v0⟩ := e
    rcases eq_or_ne k0 k with rfl | hk
    · have hcons : modify k0 f ((k0, v0) :: l) = (k0, f v0) :: modify k0 f l := by rw [modify, map_cons, if_pos rfl]; rfl
      rw [hcons]
      rcases eq_or_ne k' k0 with rfl | hk'
      · rw [toMap_cons_self, update_self, toMap_cons_self]
        rfl
      · rw [toMap_cons_of_ne hk', ih, update_of_ne hk', update_of_ne hk', toMap_cons_of_ne hk']
    have hcons : modify k f ((k0, v0) :: l) = (k0, v0) :: modify k f l := by rw [modify, map_cons, if_neg hk]; rfl
    rw [hcons]
    rcases eq_or_ne k' k0 with rfl | hk'
    · rw [toMap_cons_self, update_of_ne hk, toMap_cons_self]
    · rw [toMap_cons_of_ne hk', ih, update_apply, update_apply, toMap_cons_of_ne hk',
        toMap_cons_of_ne (Ne.symm hk)]

/-! ### Searching for a property of the value -/

/-- Without the property in the first entry of the key, no entry of the key has it. -/
def FirstHas (p : β → Bool) (k : α) (l : List (α × β)) : Prop :=
  ∀ v, toMap l k = some v → p v = false → ∀ e ∈ l, e.1 = k → p e.2 = false

theorem firstHas_of_unique (h : (l.filter (fun e => e.1 = k)).length ≤ 1) : FirstHas p k l := by
  intro v hv hp e he hek
  obtain ⟨l1, l2, rfl, _⟩ := lookup_eq_some_iff.mp hv
  have hmem : (k, v) ∈ (l1 ++ (k, v) :: l2).filter (fun e => e.1 = k) :=
    mem_filter.mpr ⟨by simp, decide_eq_true rfl⟩
  have hmem' : e ∈ (l1 ++ (k, v) :: l2).filter (fun e => e.1 = k) := mem_filter.mpr ⟨he, decide_eq_true hek⟩
  obtain ⟨x, hx⟩ := length_eq_one_iff.mp (Nat.le_antisymm h (length_pos_of_mem hmem))
  rw [hx, mem_singleton] at hmem hmem'
  rw [hmem', ← hmem]
  exact hp

theorem FirstHas.set_self (hA : ∀ e ∈ A, e.1 ≠ k) (hv : p v) : FirstHas p k (A ++ (k, v) :: B) := by
  intro _ hv' hp
  rw [toMap_append, toMap_eq_none hA, none_or, toMap_cons_self, some.injEq] at hv'
  rw [← hv', hv] at hp
  exact absurd hp (Bool.noConfusion)

theorem FirstHas.set_of_ne (h : FirstHas p k' (A ++ D ++ B)) (hk : k' ≠ k) (hA : ∀ e ∈ A, e.1 ≠ k) (hD : ∀ e ∈ D, e.1 = k) :
    FirstHas p k' (A ++ (k, v) :: B) := by
  intro v' hv' hp e he hek
  rw [toMap_set hA hD, update_of_ne hk] at hv'
  apply h v' hv' hp e _ hek
  rcases mem_append.mp he with he | he
  · exact mem_append_left _ (mem_append_left _ he)
  · rcases mem_cons.mp he with rfl | he
    · exact absurd hek.symm hk
    · exact mem_append_right _ he

theorem FirstHas.modify {f : β → β} (h : FirstHas p k' l) (hf : ∀ v v', p (f v) = p (f v')) :
    FirstHas p k' (modify k f l) := by
  intro v hv hp e he hek
  rw [toMap_modify, update_apply] at hv
  obtain ⟨e0, he0, rfl⟩ := mem_map.mp he
  split at hv
  · -- All entries of the key have the property or none has it.
    rename_i hkk
    obtain ⟨_, -, rfl⟩ := map_eq_some_iff.mp hv
    have hk0 : e0.1 = k := by
      rw [← hkk, ← hek]
      split <;> rfl
    rw [if_pos hk0, ← hp]
    exact hf _ _
  rename_i hkk
  have hk0 : e0.1 ≠ k := by
    intro h0
    rw [if_pos h0] at hek
    exact hkk (hek.symm.trans h0)
  rw [if_neg hk0] at hek ⊢
  exact h v hv hp e0 he0 hek

theorem find?_eq (h : FirstHas p k l) :
    l.find? (fun e => e.1 = k ∧ p e.2) = ((toMap l k).filter p).map (fun v => (k, v)) := by
  obtain hnone | ⟨v, hv⟩ := eq_none_or_eq_some (toMap l k)
  · rw [hnone]
    apply find?_eq_none.mpr
    intro e he hek
    have hne := lookup_eq_none_iff.mp hnone e he
    have hek := (of_decide_eq_true hek).1
    exact (bne_iff_ne.mp hne) hek.symm
  rw [hv, filter_some]
  by_cases hp : p v = true
  · rw [if_pos hp, map_some]
    obtain ⟨_, _, rfl, hl1⟩ := lookup_eq_some_iff.mp hv
    rw [find?_append, find?_eq_none.mpr, none_or, find?_cons_of_pos]
    · exact decide_eq_true ⟨rfl, hp⟩
    · intro e he hek
      exact (bne_iff_ne.mp (hl1 e he)) (of_decide_eq_true hek).1.symm
  rw [if_neg hp, map_none]
  apply find?_eq_none.mpr
  intro e he hek
  have hek := of_decide_eq_true hek
  have hfalse := h v hv (Bool.eq_false_iff.mpr hp) e he hek.1
  rw [hek.2] at hfalse
  exact Bool.noConfusion hfalse

end G4Common.AssocList

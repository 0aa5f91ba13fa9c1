/-
Maps whose values have an address.

The nodes of a C++ `unordered_map` stay where they are until they are erased, and
programs keep pointers to them.  A `NodeMap` gives each node an address that is
never used again, so a pointer to a node that has been erased leads nowhere.
-/
import Mathlib.Data.List.Basic
import Mathlib.Logic.Function.Basic

namespace G4Common

/-- A map with node addresses: `find` gives the address of a key's node and `node`
what is stored at an address. -/
structure NodeMap (K V : Type) where
  find : K → Option ℕ
  node : ℕ → Option V
  next : ℕ
  find_node : ∀ {k p}, find k = some p → (node p).isSome
  node_find : ∀ {p}, (node p).isSome → ∃ k, find k = some p
  find_inj : ∀ {k k' p}, find k = some p → find k' = some p → k = k'
  node_lt : ∀ {p}, (node p).isSome → p < next

namespace NodeMap

variable {K V : Type}

def empty : NodeMap K V where
  find _ := none
  node _ := none
  next := 0
  find_node h := by simp at h
  node_find h := by simp at h
  find_inj h := by simp at h
  node_lt h := by simp at h

theorem node_of_find {m : NodeMap K V} {k : K} {p : ℕ} (h : m.find k = some p) : ∃ v, m.node p = some v :=
  Option.isSome_iff_exists.mp (m.find_node h)

theorem next_node (m : NodeMap K V) : m.node m.next = none := by
  by_contra h
  exact Nat.lt_irrefl _ (m.node_lt (Option.isSome_iff_ne_none.mpr h))

/-- Change the value at an address. -/
def modify (m : NodeMap K V) (p : ℕ) (f : V → V) : NodeMap K V where
  find := m.find
  node := Function.update m.node p ((m.node p).map f)
  next := m.next
  find_node {k q} h := by
    by_cases hq : q = p
    · subst hq
      simpa using m.find_node h
    · simpa [hq] using m.find_node h
  node_find {q} h := by
    by_cases hq : q = p
    · subst hq
      exact m.node_find (by simpa using h)
    · exact m.node_find (by simpa [hq] using h)
  find_inj := m.find_inj
  node_lt {q} h := by
    by_cases hq : q = p
    · subst hq
      exact m.node_lt (by simpa using h)
    · exact m.node_lt (by simpa [hq] using h)

section

variable (m : NodeMap K V) (p : ℕ) (f : V → V)

theorem node_modify (q : ℕ) : (m.modify p f).node q = if q = p then (m.node p).map f else m.node q := by
  by_cases hq : q = p
  · subst hq
    simp [modify]
  · simp [modify, hq]

@[simp] theorem node_modify_self : (m.modify p f).node p = (m.node p).map f := by
  simp [node_modify]

theorem node_modify_of_ne {q : ℕ} (h : q ≠ p) : (m.modify p f).node q = m.node q := by
  simp [node_modify, h]

theorem map_node_modify {β : Type} (g : V → β) (h : ∀ v, g (f v) = g v) (q : ℕ) :
    ((m.modify p f).node q).map g = (m.node q).map g := by
  rw [node_modify]
  split_ifs with hq
  · subst hq
    cases m.node q <;> simp [h]
  · rfl

end

/-- The values, in the order in which they came. -/
def values (m : NodeMap K V) : List V :=
  (List.range m.next).filterMap m.node

variable [DecidableEq K]

/-- Store a value under a key, at a new address. -/
def insert (m : NodeMap K V) (k : K) (v : V) : NodeMap K V where
  find k' := if k' = k then some m.next else m.find k'
  node p := if p = m.next then some v else if m.find k = some p then none else m.node p
  next := m.next + 1
  find_node {k' p} h := by
    split at h
    · cases h
      simp
    · rename_i hk
      have hp := m.find_node h
      have hlt := m.node_lt hp
      have hne : m.find k ≠ some p := fun h' => hk (m.find_inj h h')
      rw [if_neg (by omega), if_neg hne]
      exact hp
  node_find {p} h := by
    by_cases hp : p = m.next
    · exact ⟨k, by simp [hp]⟩
    · rw [if_neg hp] at h
      split at h
      · simp at h
      · rename_i hk
        obtain ⟨k', hk'⟩ := m.node_find h
        have hne : k' ≠ k := fun heq => hk (heq ▸ hk')
        exact ⟨k', by rw [if_neg hne, hk']⟩
  find_inj {k1 k2 p} h1 h2 := by
    -- the new address is no node's before
    have hold : ∀ k', m.find k' ≠ some m.next := fun k' hk' => by
      simpa [m.next_node] using m.find_node hk'
    split at h1 <;> split at h2
    · simp_all
    · exact absurd (h2.trans h1.symm) (hold k2)
    · exact absurd (h1.trans h2.symm) (hold k1)
    · exact m.find_inj h1 h2
  node_lt {p} h := by
    by_cases hp : p = m.next
    · omega
    · rw [if_neg hp] at h
      split at h
      · simp at h
      · have := m.node_lt h
        omega

/-- Remove a key and its node. -/
def erase (m : NodeMap K V) (k : K) : NodeMap K V where
  find k' := if k' = k then none else m.find k'
  node p := if m.find k = some p then none else m.node p
  next := m.next
  find_node {k' p} h := by
    split at h
    · simp at h
    · rename_i hk
      rw [if_neg fun h' => hk (m.find_inj h h')]
      exact m.find_node h
  node_find {p} h := by
    split at h
    · simp at h
    · rename_i hk
      obtain ⟨k', hk'⟩ := m.node_find h
      have hne : k' ≠ k := fun heq => hk (heq ▸ hk')
      exact ⟨k', by rw [if_neg hne, hk']⟩
  find_inj {k1 k2 p} h1 h2 := by
    split at h1
    · simp at h1
    · split at h2
      · simp at h2
      · exact m.find_inj h1 h2
  node_lt {p} h := by
    split at h
    · simp at h
    · exact m.node_lt h

section

variable {m : NodeMap K V} {k : K} {p : ℕ}

theorem find_insert (v : V) (k' : K) : (m.insert k v).find k' = if k' = k then some m.next else m.find k' := rfl

theorem node_insert (v : V) (h : m.find k = none) (p : ℕ) :
    (m.insert k v).node p = if p = m.next then some v else m.node p := by
  simp [insert, h]

theorem find_erase (k' : K) : (m.erase k).find k' = if k' = k then none else m.find k' := rfl

@[simp] theorem find_erase_self : (m.erase k).find k = none := by simp [find_erase]

theorem node_erase (h : m.find k = some p) (q : ℕ) : (m.erase k).node q = if q = p then none else m.node q := by
  by_cases hq : q = p
  · simp [erase, h, hq]
  · have hne : ¬ p = q := fun heq => hq heq.symm
    simp [erase, h, hq, hne]

end

end NodeMap

end G4Common

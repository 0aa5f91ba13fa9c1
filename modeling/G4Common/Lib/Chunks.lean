/-
A list in pieces of one size.

The pieces, one after the other, are the list (`flatten_chunks`); if there are no more of them than are needed, all but
the last one are full, and none is empty.
-/
import Mathlib.Data.List.Basic
import Mathlib.Tactic.Common

namespace G4Common.Chunks

open List

variable {α : Type*}

/-- The first `n` pieces of `k` elements. -/
def chunks (k : ℕ) : ℕ → List α → List (List α)
  | 0, _ => []
  | n + 1, l => l.take k :: chunks k n (l.drop k)

variable {k n : ℕ} {l g : List α}

theorem length_chunks (k n : ℕ) (l : List α) : (chunks k n l).length = n := by
  induction n generalizing l with
  | zero => rfl
  | succ n ih => rw [chunks, length_cons, ih]

/-- **Nothing is lost**, and nothing comes twice. -/
theorem flatten_chunks (h : l.length ≤ k * n) : (chunks k n l).flatten = l := by
  induction n generalizing l with
  | zero => exact (eq_nil_of_length_eq_zero (Nat.le_zero.1 h)).symm
  | succ n ih =>
    have hrest : (l.drop k).length ≤ k * n := by
      rw [length_drop, Nat.sub_le_iff_le_add]
      exact h
    rw [chunks, flatten_cons, ih hrest, take_append_drop]

theorem chunk_ne_nil (hk : 0 < k) (h : k * n < l.length + k) (hg : g ∈ chunks k n l) : g ≠ [] ∧ g.length ≤ k := by
  induction n generalizing l with
  | zero => exact nomatch hg
  | succ n ih =>
    rw [Nat.mul_succ] at h
    rcases mem_cons.1 hg with rfl | hg
    · constructor
      · rw [ne_eq, ← length_eq_zero_iff, length_take]
        omega
      · rw [length_take]
        exact Nat.min_le_left _ _
    rcases n with - | n
    · exact nomatch hg
    rw [Nat.mul_succ] at h
    refine ih ?_ hg
    rw [length_drop, Nat.mul_succ]
    omega

theorem length_chunk (h : k * n < l.length + k) (hg : g ∈ (chunks k n l).dropLast) : g.length = k := by
  induction n generalizing l with
  | zero => exact nomatch hg
  | succ n ih =>
    rcases n with - | n
    · exact nomatch hg
    have hne : chunks k (n + 1) (l.drop k) ≠ [] := cons_ne_nil _ _
    rw [chunks, dropLast_cons_of_ne_nil hne] at hg
    rw [Nat.mul_succ] at h
    have hmul : k * (n + 1) = k * n + k := Nat.mul_succ k n
    rcases mem_cons.1 hg with rfl | hg
    · rw [length_take]
      omega
    · refine ih ?_ hg
      rw [length_drop]
      omega

/-- The full pieces; what is left over is not among them. -/
def completeGroups (k : ℕ) (l : List α) : List (List α) := chunks k (l.length / k) l

theorem completeGroups_of_lt (h : l.length < k) : completeGroups k l = [] := by
  rw [completeGroups, Nat.div_eq_of_lt h]
  rfl

theorem completeGroups_of_le (hk : 0 < k) (h : k ≤ l.length) :
    completeGroups k l = l.take k :: completeGroups k (l.drop k) := by
  rw [completeGroups, Nat.div_eq_sub_div hk h, chunks, completeGroups, length_drop]

end G4Common.Chunks

/-
Sums of words in one's complement.

The words are the numbers up to `M`, where `M` has all bits set.  A carry out of the top goes in at the bottom, so that sums
are sums modulo `M`, and `0` and `M` both stand for zero (`Same`).  A sum that has one group of words in it is turned into
the sum with another group by adding their difference (`sum_update`): this is how a checksum follows a change of a packet.
-/
import Mathlib

namespace G4Common.OnesComplement

open List

variable {M a b d : ℕ} {p p' old new rest : List ℕ}

/-- The sum of two words, with the carry added to it. -/
def add (M a b : ℕ) : ℕ := if a + b ≤ M then a + b else a + b - M

/-- The sum of the words of a packet. -/
def sum (M : ℕ) (p : List ℕ) : ℕ := p.foldl (add M) 0

/-- Equal words, or two representations of zero. -/
def Same (M a b : ℕ) : Prop := a = b ∨ (a ∈ [0, M] ∧ b ∈ [0, M])

theorem add_le (ha : a ≤ M) (hb : b ≤ M) : add M a b ≤ M := by
  rw [add]
  split <;> omega

theorem add_modEq (M a b : ℕ) : add M a b ≡ a + b [MOD M] := by
  rw [add]
  split
  · rfl
  · rw [Nat.modEq_iff_dvd' (Nat.sub_le _ _)]
    exact ⟨1, by omega⟩

theorem foldl_add_le (ha : a ≤ M) (hp : ∀ w ∈ p, w ≤ M) : p.foldl (add M) a ≤ M := by
  induction p generalizing a with
  | nil => exact ha
  | cons w p ih => exact ih (add_le ha (hp w mem_cons_self)) (fun x hx => hp x (mem_cons_of_mem _ hx))

theorem sum_le (hp : ∀ w ∈ p, w ≤ M) : sum M p ≤ M := foldl_add_le (Nat.zero_le M) hp

theorem foldl_add_modEq (M a : ℕ) (p : List ℕ) : p.foldl (add M) a ≡ a + p.sum [MOD M] := by
  induction p generalizing a with
  | nil => rfl
  | cons w p ih =>
    calc (w :: p).foldl (add M) a ≡ add M a w + p.sum [MOD M] := ih _
      _ ≡ a + w + p.sum [MOD M] := (add_modEq M a w).add_right _
      _ = a + (w :: p).sum := by rw [sum_cons, Nat.add_assoc]

theorem sum_modEq (M : ℕ) (p : List ℕ) : sum M p ≡ p.sum [MOD M] := by
  have h := foldl_add_modEq M 0 p
  rwa [Nat.zero_add] at h

theorem same_of_modEq (ha : a ≤ M) (hb : b ≤ M) (h : a ≡ b [MOD M]) : Same M a b := by
  rcases Nat.lt_or_eq_of_le ha with ha | rfl
  · rcases Nat.lt_or_eq_of_le hb with hb | rfl
    · exact .inl (h.eq_of_lt_of_lt ha hb)
    right
    have hz : a % b = b % b := h
    rw [Nat.mod_eq_of_lt ha, Nat.mod_self] at hz
    rw [hz]
    simp
  rcases Nat.lt_or_eq_of_le hb with hb | rfl
  · right
    have hz : b % a = a % a := h.symm
    rw [Nat.mod_eq_of_lt hb, Nat.mod_self] at hz
    rw [hz]
    simp
  · exact .inl rfl

theorem sum_update (hp : ∀ w ∈ p, w ≤ M) (hp' : ∀ w ∈ p', w ≤ M) (hd : d ≤ M) (hold : p.Perm (old ++ rest))
    (hnew : p'.Perm (new ++ rest)) (h : d + old.sum ≡ new.sum [MOD M]) : Same M (add M (sum M p) d) (sum M p') := by
  apply same_of_modEq (add_le (sum_le hp) hd) (sum_le hp')
  calc add M (sum M p) d ≡ sum M p + d [MOD M] := add_modEq M _ _
    _ ≡ p.sum + d [MOD M] := (sum_modEq M p).add_right d
    _ = (d + old.sum) + rest.sum := by rw [hold.sum_eq, sum_append]; omega
    _ ≡ new.sum + rest.sum [MOD M] := h.add_right _
    _ = p'.sum := by rw [hnew.sum_eq, sum_append]
    _ ≡ sum M p' [MOD M] := (sum_modEq M p').symm

end G4Common.OnesComplement

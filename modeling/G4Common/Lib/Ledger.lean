/-
Numbered entries, of which some are open.

Programs that hand out work push a record in front of a list and take it out again when the work is done.  What such a
list holds is said here by the entries themselves, numbered in the order in which they were made: the open ones, the
newest first.  Three changes are enough:

* `openEntries_open` — a new entry comes in front;
* `openEntries_skip` — a new entry that belongs elsewhere changes nothing;
* `openEntries_split`, `map_openEntries_close` — closing an entry takes its record out of the list, if the open entries have different ones.
-/
import Mathlib

namespace G4Common

open List

section Ledger

variable {p q : ℕ → Prop} [DecidablePred p] [DecidablePred q] {n k : ℕ}

/-- The open entries below `n`, the newest first. -/
def openEntries (n : ℕ) (p : ℕ → Prop) [DecidablePred p] : List ℕ := ((range n).filter (fun k => p k)).reverse

@[simp] theorem mem_openEntries : k ∈ openEntries n p ↔ k < n ∧ p k := by
  simp [openEntries]

theorem nodup_openEntries (n : ℕ) (p : ℕ → Prop) [DecidablePred p] : (openEntries n p).Nodup := by
  rw [openEntries, nodup_reverse]
  exact nodup_range.filter _

theorem openEntries_congr (h : ∀ k < n, p k ↔ q k) : openEntries n p = openEntries n q := by
  have hfilter : (range n).filter (fun k => decide (p k)) = (range n).filter (fun k => decide (q k)) := by
    apply filter_congr
    intro k hk
    exact decide_eq_decide.mpr (h k (mem_range.mp hk))
  rw [openEntries, openEntries, hfilter]

theorem openEntries_open (hn : q n) (h : ∀ k < n, p k ↔ q k) : openEntries (n + 1) q = n :: openEntries n p := by
  rw [openEntries_congr h, openEntries, range_succ, filter_append, reverse_append]
  simp [openEntries, hn]

theorem openEntries_skip (hn : ¬ q n) (h : ∀ k < n, p k ↔ q k) : openEntries (n + 1) q = openEntries n p := by
  rw [openEntries_congr h, openEntries, range_succ, filter_append, reverse_append]
  simp [openEntries, hn]

theorem openEntries_close (h : ∀ j < n, q j ↔ p j ∧ j ≠ k) :
    openEntries n q = (openEntries n p).filter (fun j => j ≠ k) := by
  rw [openEntries_congr h]
  simp [openEntries, filter_reverse, filter_filter, Bool.and_comm]

theorem pairwise_openEntries (n : ℕ) (p : ℕ → Prop) [DecidablePred p] : (openEntries n p).Pairwise (fun i j => j < i) := by
  rw [openEntries, pairwise_reverse]
  exact pairwise_lt_range.filter _

theorem openEntries_split (h : ∀ j < n, q j ↔ p j ∧ j ≠ k) {l1 l2 : List ℕ} (hsplit : openEntries n p = l1 ++ k :: l2) :
    (∀ j ∈ l1, k < j) ∧ openEntries n q = l1 ++ l2 := by
  have hpair := pairwise_openEntries n p
  rw [hsplit, pairwise_append] at hpair
  obtain ⟨-, hpair2, hcross⟩ := hpair
  have hnewer : ∀ j ∈ l1, k < j := fun j hj => hcross j hj k mem_cons_self
  have holder : ∀ j ∈ l2, j < k := fun j hj => rel_of_pairwise_cons hpair2 hj
  refine ⟨hnewer, ?_⟩
  have h1 : l1.filter (fun j => j ≠ k) = l1 := by
    apply filter_eq_self.mpr
    intro j hj
    exact decide_eq_true (hnewer j hj).ne'
  have h2 : l2.filter (fun j => j ≠ k) = l2 := by
    apply filter_eq_self.mpr
    intro j hj
    exact decide_eq_true (holder j hj).ne
  rw [openEntries_close h, hsplit, filter_append, h1, filter_cons_of_neg (by simp), h2]

variable {α : Type*} {f : ℕ → α}

theorem nodup_map_openEntries (hinj : ∀ j < n, p j → ∀ i < n, p i → f j = f i → j = i) :
    ((openEntries n p).map f).Nodup := by
  apply List.Nodup.map_on _ (nodup_openEntries n p)
  intro j hj i hi heq
  obtain ⟨hjn, hpj⟩ := mem_openEntries.mp hj
  obtain ⟨hin, hpi⟩ := mem_openEntries.mp hi
  exact hinj j hjn hpj i hin hpi heq

variable [DecidableEq α]

theorem map_openEntries_close (h : ∀ j < n, q j ↔ p j ∧ j ≠ k) (hinj : ∀ j < n, p j → (f j = f k ↔ j = k))
    : (openEntries n q).map f = ((openEntries n p).map f).filter (fun a => a ≠ f k) := by
  rw [openEntries_close h, filter_map]
  congr 1
  apply filter_congr
  intro j hj
  obtain ⟨hjn, hpj⟩ := mem_openEntries.mp hj
  simp [hinj j hjn hpj]

end Ledger

end G4Common

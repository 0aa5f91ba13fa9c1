/-
Segments of given sizes that stand one after the other, and the elements of a list in the order in which they appear
first.

`segStart size start ms m` is where the segment of `m` starts when the segments of `ms` are laid out from `start` on.
The segments do not overlap, leave nothing out, and a text that is made of their contents has the content of each at
its place (`segment_slice`).
-/
import Mathlib

namespace G4Common

open List

section Segments

variable {ι : Type*} [DecidableEq ι]

/-! ### First appearances -/

/-- The elements that are not seen before, each where it appears first. -/
def firsts (seen : List ι) : List ι → List ι
  | [] => []
  | m :: l => if m ∈ seen then firsts seen l else m :: firsts (m :: seen) l

theorem mem_firsts {seen l : List ι} {m : ι} : m ∈ firsts seen l ↔ m ∈ l ∧ m ∉ seen := by
  induction l generalizing seen with
  | nil => exact ⟨nofun, fun h => absurd h.1 not_mem_nil⟩
  | cons x _ ih =>
    rw [firsts]
    by_cases hx : x ∈ seen
    · rw [if_pos hx, ih, mem_cons]
      constructor
      · exact fun h => ⟨Or.inr h.1, h.2⟩
      · rintro ⟨rfl | h, hm⟩
        · exact absurd hx hm
        · exact ⟨h, hm⟩
    rw [if_neg hx, mem_cons, ih, mem_cons, mem_cons, not_or]
    constructor
    · rintro (rfl | h)
      · exact ⟨Or.inl rfl, hx⟩
      · exact ⟨Or.inr h.1, h.2.2⟩
    rintro ⟨h, hm⟩
    by_cases hmx : m = x
    · exact .inl hmx
    · exact .inr ⟨h.resolve_left hmx, hmx, hm⟩

theorem nodup_firsts (seen l : List ι) : (firsts seen l).Nodup := by
  induction l generalizing seen with
  | nil => exact nodup_nil
  | cons _ _ ih =>
    rw [firsts]
    split
    · exact ih seen
    · refine nodup_cons.2 ⟨?_, ih _⟩
      rw [mem_firsts]
      exact fun h => h.2 mem_cons_self

/-! ### Segments -/

variable (size : ι → ℕ)

def segStart : ℕ → List ι → ι → ℕ
  | start, [], _ => start
  | start, x :: ms, m => if m = x then start else segStart (start + size x) ms m

def segTotal (ms : List ι) : ℕ := (ms.map size).sum

omit [DecidableEq ι] in
theorem segTotal_cons (x : ι) (ms : List ι) : segTotal size (x :: ms) = size x + segTotal size ms := sum_cons

variable {size} {start : ℕ} {ms : List ι} {m : ι}

theorem start_le_segStart (start : ℕ) (ms : List ι) (m : ι) : start ≤ segStart size start ms m := by
  induction ms generalizing start with
  | nil => exact Nat.le_refl start
  | cons x _ ih =>
    rw [segStart]
    split
    · exact Nat.le_refl start
    · exact Nat.le_trans (Nat.le_add_right start (size x)) (ih _)

theorem segStart_add_le (hm : m ∈ ms) : segStart size start ms m + size m ≤ start + segTotal size ms := by
  induction ms generalizing start with
  | nil => exact nomatch hm
  | cons x ms ih =>
    rw [segStart, segTotal_cons]
    split
    · rename_i h
      rw [h]
      omega
    rename_i h
    have hrest : segStart size (start + size x) ms m + size m ≤ start + size x + segTotal size ms :=
      ih ((mem_cons.1 hm).resolve_left h)
    omega

theorem dvd_segStart {p : ℕ} (hstart : p ∣ start) (hsize : ∀ x ∈ ms, p ∣ size x) (m : ι) :
    p ∣ segStart size start ms m := by
  induction ms generalizing start with
  | nil => exact hstart
  | cons x _ ih =>
    rw [segStart]
    split
    · exact hstart
    · exact ih (Nat.dvd_add hstart (hsize x mem_cons_self)) fun y hy => hsize y (mem_cons_of_mem _ hy)

theorem segments_disjoint {n : ι} (hm : m ∈ ms) (hn : n ∈ ms) (hne : m ≠ n) :
    segStart size start ms m + size m ≤ segStart size start ms n ∨
      segStart size start ms n + size n ≤ segStart size start ms m := by
  induction ms generalizing start with
  | nil => exact nomatch hm
  | cons x _ ih =>
    rw [segStart, segStart]
    by_cases hmx : m = x
    · rw [if_pos hmx, if_neg fun h => hne (hmx.trans h.symm), hmx]
      exact .inl (start_le_segStart _ _ _)
    rw [if_neg hmx]
    by_cases hnx : n = x
    · rw [if_pos hnx, hnx]
      exact .inr (start_le_segStart _ _ _)
    · rw [if_neg hnx]
      exact ih ((mem_cons.1 hm).resolve_left hmx) ((mem_cons.1 hn).resolve_left hnx)

theorem segments_cover (hnodup : ms.Nodup) {i : ℕ} (hstart : start ≤ i) (hend : i < start + segTotal size ms) :
    ∃ m ∈ ms, segStart size start ms m ≤ i ∧ i < segStart size start ms m + size m := by
  induction ms generalizing start with
  | nil =>
    have : segTotal size ([] : List ι) = 0 := rfl
    omega
  | cons x ms ih =>
    rw [segTotal_cons] at hend
    by_cases hx : i < start + size x
    · exact ⟨x, mem_cons_self, by rw [segStart, if_pos rfl]; exact hstart, by rw [segStart, if_pos rfl]; exact hx⟩
    obtain ⟨hnot, hnodup⟩ := nodup_cons.1 hnodup
    have hrest : start + size x ≤ i := Nat.le_of_not_lt hx
    obtain ⟨m, hm, hle, hlt⟩ := ih hnodup hrest (by omega)
    have hmx : m ≠ x := fun h => hnot (h ▸ hm)
    exact ⟨m, mem_cons_of_mem _ hm, by rw [segStart, if_neg hmx]; exact hle,
      by rw [segStart, if_neg hmx]; exact hlt⟩

theorem segment_slice {β : Type*} {content : ι → List β} (hsize : ∀ x ∈ ms, (content x).length = size x)
    {front : List β} (hfront : front.length = start) (hm : m ∈ ms) :
    ((front ++ ms.flatMap content).drop (segStart size start ms m)).take (size m) = content m := by
  induction ms generalizing start front with
  | nil => exact nomatch hm
  | cons x _ ih =>
    rw [segStart, flatMap_cons]
    by_cases hmx : m = x
    · rw [if_pos hmx, hmx, ← hfront, drop_left, ← hsize x mem_cons_self, take_left]
    have hnext : (front ++ content x).length = start + size x := by
      rw [length_append, hfront, hsize x mem_cons_self]
    rw [if_neg hmx, ← append_assoc]
    exact ih (fun y hy => hsize y (mem_cons_of_mem _ hy)) hnext ((mem_cons.1 hm).resolve_left hmx)

end Segments

end G4Common

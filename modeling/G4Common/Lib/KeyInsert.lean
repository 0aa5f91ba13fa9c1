/-
Insertion into a list that is sorted by a key, with a test for duplicates on the way.

An element goes behind all elements whose key is not larger, so elements with the same key stay in the order in which
they came.  The walk ends at the first larger key; in a sorted list no duplicate is left behind there
(`keyInsert_eq_none_iff`).
-/
import Mathlib

namespace G4Common

open List Option

section KeyInsert

variable {α κ : Type*} [LinearOrder κ] (key : α → κ) (same : α → α → Bool)

/-- Insertion before the first larger key; `none` when a duplicate is met. -/
def keyInsert (c : α) : List α → Option (List α)
  | [] => some [c]
  | x :: l =>
    if key c < key x then some (c :: x :: l)
    else if same c x then none
    else (keyInsert c l).map fun l => x :: l

variable {key same} {c : α} {l l' : List α}

theorem keyInsert_eq_some (hs : l.Pairwise fun x y => key x ≤ key y) (h : keyInsert key same c l = some l') :
    ∃ p q, l = p ++ q ∧ l' = p ++ c :: q ∧ (∀ x ∈ p, key x ≤ key c) ∧ ∀ x ∈ q, key c < key x := by
  induction l generalizing l' with
  | nil =>
    rw [keyInsert, some.injEq] at h
    exact ⟨[], [], rfl, h.symm, nofun, nofun⟩
  | cons x l ih =>
    obtain ⟨hx, hl⟩ := pairwise_cons.1 hs
    rw [keyInsert] at h
    split at h
    · rename_i hlt
      rw [some.injEq] at h
      refine ⟨[], x :: l, rfl, h.symm, nofun, ?_⟩
      intro y hy
      rcases mem_cons.1 hy with rfl | hy
      · exact hlt
      · exact lt_of_lt_of_le hlt (hx y hy)
    rename_i hlt
    split at h
    · cases h
    obtain ⟨m, hm, rfl⟩ := map_eq_some_iff.1 h
    obtain ⟨p, q, rfl, rfl, hp, hq⟩ := ih hl hm
    refine ⟨x :: p, q, rfl, rfl, ?_, hq⟩
    intro y hy
    rcases mem_cons.1 hy with rfl | hy
    · exact le_of_not_gt hlt
    · exact hp y hy

theorem keyInsert_eq_none_iff (hsame : ∀ x, same c x → key c = key x)
    (hs : l.Pairwise fun x y => key x ≤ key y) : keyInsert key same c l = none ↔ ∃ x ∈ l, same c x = true := by
  induction l with
  | nil => exact iff_of_false (some_ne_none _) fun ⟨_, hx, _⟩ => absurd hx not_mem_nil
  | cons x l ih =>
    obtain ⟨hx, hl⟩ := pairwise_cons.1 hs
    rw [keyInsert, exists_mem_cons_iff]
    split
    · rename_i hlt
      refine iff_of_false (some_ne_none _) ?_
      -- All keys from here on are larger.
      rintro (h | ⟨y, hy, h⟩)
      · exact absurd (hsame x h) (ne_of_lt hlt)
      · exact absurd (hsame y h) (ne_of_lt (lt_of_lt_of_le hlt (hx y hy)))
    split_ifs with h
    · exact iff_of_true rfl (.inl h)
    · rw [map_eq_none_iff, ih hl]
      exact (or_iff_right h).symm

theorem pairwise_keyInsert (hs : l.Pairwise fun x y => key x ≤ key y) (h : keyInsert key same c l = some l') :
    l'.Pairwise fun x y => key x ≤ key y := by
  obtain ⟨p, q, rfl, rfl, hp, hq⟩ := keyInsert_eq_some hs h
  obtain ⟨hpp, hqq, hpq⟩ := pairwise_append.1 hs
  rw [pairwise_append, pairwise_cons]
  refine ⟨hpp, ⟨fun y hy => le_of_lt (hq y hy), hqq⟩, ?_⟩
  intro x hx y hy
  rcases mem_cons.1 hy with rfl | hy
  · exact hp x hx
  · exact hpq x hx y hy

theorem keyInsert_map {β : Type*} (f : β → α) (c : β) (l : List β) :
    keyInsert key same (f c) (l.map f) =
      (keyInsert (fun x => key (f x)) (fun x y => same (f x) (f y)) c l).map (map f) := by
  induction l with
  | nil => rfl
  | cons x l ih =>
    rw [map_cons, keyInsert, keyInsert, ih]
    split
    · rfl
    split
    · rfl
    · rw [Option.map_map, Option.map_map]
      rfl

end KeyInsert

end G4Common

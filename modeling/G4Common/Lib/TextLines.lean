/-
Texts as lines.

A text is a list of lines that end, and a last line that does not; that one is empty where the text ends with a line
end.  `fgets()` returns such a text line by line: a line that fills the buffer up comes in two pieces, of which the
second is the line end (`fgetsBufs_unlines`).
-/
import Mathlib
import G4Common.Lib.CString

namespace G4Common.CString

open List

variable {l last : List Char} {ls ls' : List (List Char)} {size : ℕ}

def unlines (ls : List (List Char)) : List Char := ls.flatMap (fun l => l ++ ['\n'])

@[simp] theorem unlines_nil : unlines [] = [] := rfl

@[simp] theorem unlines_cons (l : List Char) (ls : List (List Char)) : unlines (l :: ls) = l ++ '\n' :: unlines ls := by
  simp [unlines]

@[simp] theorem unlines_append (ls ls' : List (List Char)) : unlines (ls ++ ls') = unlines ls ++ unlines ls' :=
  flatMap_append

theorem exists_unlines (s : List Char) : ∃ ls last, s = unlines ls ++ last ∧ (∀ l ∈ ls, '\n' ∉ l) ∧ '\n' ∉ last := by
  induction s with
  | nil => exact ⟨[], [], rfl, nofun, not_mem_nil⟩
  | cons c _ ih =>
    obtain ⟨ls, last, rfl, hls, hlast⟩ := ih
    by_cases hc : c = '\n'
    · subst hc
      refine ⟨[] :: ls, last, rfl, ?_, hlast⟩
      intro l hl
      rcases mem_cons.mp hl with rfl | hl
      · exact not_mem_nil
      · exact hls l hl
    cases ls with
    | nil =>
      refine ⟨[], c :: last, rfl, nofun, ?_⟩
      rw [mem_cons]
      rintro (h | h)
      · exact hc h.symm
      · exact hlast h
    | cons l ls =>
      refine ⟨(c :: l) :: ls, last, by simp, ?_, hlast⟩
      intro m hm
      rcases mem_cons.mp hm with rfl | hm
      · rw [mem_cons]
        rintro (h | h)
        · exact hc h.symm
        · exact hls l mem_cons_self h
      · exact hls m (mem_cons_of_mem _ hm)

theorem splitOn_unlines (hls : ∀ l ∈ ls, '\n' ∉ l) (hlast : '\n' ∉ last) :
    (unlines ls ++ last).splitOn '\n' = ls ++ [last] := by
  induction ls with
  | nil => exact splitOn_eq_singleton hlast
  | cons l _ ih =>
    have hl := hls l mem_cons_self
    rw [unlines_cons, append_assoc, cons_append, splitOn_append_cons_self_of_not_mem hl,
      ih (fun m hm => hls m (mem_cons_of_mem _ hm)), cons_append]

/-! ### Reading -/

/-- The buffers that one line fills. -/
def lineBufs (size : ℕ) (l : List Char) : List (List Char) :=
  if l.length + 1 < size then [l ++ ['\n']] else [l, ['\n']]

theorem fgetsBufs_cons_line {acc : List Char} (hsize : 2 ≤ size) (hacc : acc.length + 1 < size) (hl : '\n' ∉ l)
    (hlen : (acc ++ l).length < size) (s : List Char) :
    fgetsBufs size acc (l ++ '\n' :: s) = lineBufs size (acc ++ l) ++ fgetsBufs size [] s := by
  induction l generalizing acc with
  | nil =>
    rw [nil_append, append_nil, fgetsBufs, if_pos (.inl rfl), lineBufs, if_pos hacc]
    rfl
  | cons c l ih =>
    obtain ⟨hc, hl'⟩ : '\n' ≠ c ∧ '\n' ∉ l := by rwa [mem_cons, not_or] at hl
    have happ : acc ++ c :: l = (acc ++ [c]) ++ l := by rw [append_assoc, singleton_append]
    rw [happ] at hlen ⊢
    rw [cons_append, fgetsBufs]
    by_cases hfull : acc.length + 1 = size - 1
    · -- The buffer is full, and the line ends here.
      have hnil : l = [] := by
        rw [length_append, length_append, length_singleton] at hlen
        exact eq_nil_of_length_eq_zero (by omega)
      subst hnil
      have hone : fgetsBufs size [] ('\n' :: s) = [['\n']] ++ fgetsBufs size [] s := by
        rw [fgetsBufs, if_pos (.inl rfl)]
        rfl
      have hlong : ¬ (acc ++ [c] ++ []).length + 1 < size := by
        rw [append_nil, length_append, length_singleton]
        omega
      rw [if_pos (.inr hfull), nil_append, hone, lineBufs, if_neg hlong, append_nil]
      rfl
    rw [if_neg (not_or.mpr ⟨fun h => hc h.symm, hfull⟩)]
    apply ih _ hl' hlen
    rw [length_append, length_singleton]
    omega

theorem fgetsBufs_last {acc : List Char} (hacc : acc.length + 1 < size) (hl : '\n' ∉ l) (hlen : (acc ++ l).length < size) :
    fgetsBufs size acc l = if acc ++ l = [] then [] else [acc ++ l] := by
  induction l generalizing acc with
  | nil => rw [fgetsBufs, append_nil]
  | cons c l ih =>
    obtain ⟨hc, hl'⟩ : '\n' ≠ c ∧ '\n' ∉ l := by rwa [mem_cons, not_or] at hl
    have happ : acc ++ c :: l = (acc ++ [c]) ++ l := by rw [append_assoc, singleton_append]
    rw [happ] at hlen ⊢
    rw [fgetsBufs]
    by_cases hfull : acc.length + 1 = size - 1
    · have hnil : l = [] := by
        rw [length_append, length_append, length_singleton] at hlen
        exact eq_nil_of_length_eq_zero (by omega)
      subst hnil
      rw [if_pos (.inr hfull), append_nil, if_neg (by simp), fgetsBufs, if_pos rfl]
    rw [if_neg (not_or.mpr ⟨fun h => hc h.symm, hfull⟩)]
    apply ih _ hl' hlen
    rw [length_append, length_singleton]
    omega

theorem fgetsBufs_unlines (hsize : 2 ≤ size) (hls : ∀ l ∈ ls, '\n' ∉ l ∧ l.length < size) (hlast : '\n' ∉ last)
    (hlen : last.length < size) :
    fgetsBufs size [] (unlines ls ++ last) = ls.flatMap (lineBufs size) ++ (if last = [] then [] else [last]) := by
  induction ls with
  | nil => exact fgetsBufs_last (by rw [length_nil]; omega) hlast hlen
  | cons l ls ih =>
    obtain ⟨hl, hllen⟩ := hls l mem_cons_self
    rw [unlines_cons, append_assoc, cons_append,
      fgetsBufs_cons_line hsize (by rw [length_nil]; omega) hl (by simpa using hllen),
      ih (fun m hm => hls m (mem_cons_of_mem _ hm)), nil_append, flatMap_cons, append_assoc]

theorem flatten_lineBufs (size : ℕ) (l : List Char) : (lineBufs size l).flatten = l ++ ['\n'] := by
  rw [lineBufs]
  split <;> simp

end G4Common.CString

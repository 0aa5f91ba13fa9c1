/-
Functions of the C library on strings and on lines of a file: `strtok_r()`, `strtol()` and `fgets()`.

A string is the list of its characters before the NUL.  `tokens` are all tokens that `strtok_r()` returns, one call
after the other; `fgetsBufs` are all buffers that `fgets()` fills.  A function of a line that does not see the line end
finds the same in the buffers as in the lines (`filterMap_fgetsBufs`), whether or not a line fills a buffer up.
-/
import G4Common.Lib.Scanf
import Mathlib.Data.List.Basic
import Mathlib.Data.Int.Notation

namespace G4Common.CString

open Scanf List

/-! ### Tokens -/

def tokens (delim : Char) (s : List Char) : List (List Char) := (s.splitOn delim).filter fun t => t ≠ []

variable {c delim : Char}

theorem splitOn_append {t : List Char} (ht : delim ∉ t) (s : List Char) :
    ∃ init last, s.splitOn delim = init ++ [last] ∧ (s ++ t).splitOn delim = init ++ [last ++ t] := by
  induction s with
  | nil => exact ⟨[], [], splitOn_nil delim, splitOn_eq_singleton ht⟩
  | cons x _ ih =>
    obtain ⟨init, last, hs, hst⟩ := ih
    rw [cons_append, splitOn_cons_eq_if_modifyHead, splitOn_cons_eq_if_modifyHead, hs, hst]
    split
    · exact ⟨[] :: init, last, rfl, rfl⟩
    · cases init with
      | nil => exact ⟨[], x :: last, rfl, rfl⟩
      | cons y init => exact ⟨(x :: y) :: init, last, rfl, rfl⟩

theorem filter_ne_nil_singleton {t : List Char} (ht : t ≠ []) : [t].filter (fun t => t ≠ []) = [t] :=
  filter_cons_of_pos (decide_eq_true ht)

theorem tokens_concat (hc : c ≠ delim) (s : List Char) :
    (∃ init last, tokens delim s = init ++ [last] ∧ tokens delim (s ++ [c]) = init ++ [last ++ [c]]) ∨
    tokens delim (s ++ [c]) = tokens delim s ++ [[c]] := by
  obtain ⟨_, last, hs, hsc⟩ := splitOn_append (fun h => hc (mem_singleton.1 h).symm) s
  have hne : last ++ [c] ≠ [] := append_ne_nil_of_right_ne_nil _ (cons_ne_nil _ _)
  rw [tokens, tokens, hs, hsc, filter_append, filter_append, filter_ne_nil_singleton hne]
  by_cases hlast : last = []
  · right
    rw [hlast, filter_cons_of_neg (by decide), filter_nil, append_nil, nil_append]
  · left
    exact ⟨_, last, by rw [filter_ne_nil_singleton hlast], rfl⟩

theorem length_tokens_append (hc : c ≠ delim) {t : List Char} (ht : delim ∉ t) (s : List Char) :
    (tokens delim (s ++ [c] ++ t)).length = (tokens delim (s ++ [c])).length := by
  have hct : delim ∉ [c] ++ t := by
    rw [singleton_append, mem_cons]
    exact not_or.2 ⟨fun h => hc h.symm, ht⟩
  obtain ⟨_, last, -, _⟩ := splitOn_append hct s
  obtain ⟨_, last', _, hsc⟩ := splitOn_append (fun h => hc (mem_singleton.1 h).symm) s
  obtain ⟨_, last'', hs', hsct'⟩ := splitOn_append ht (s ++ [c])
  -- The pieces before the last one are the same, and neither last one is empty.
  obtain ⟨rfl, hlast⟩ := append_inj' (hsc.symm.trans hs') rfl
  have hne : last' ++ [c] ≠ [] := append_ne_nil_of_right_ne_nil _ (cons_ne_nil _ _)
  have hne' : last'' ≠ [] := (singleton_inj.1 hlast) ▸ hne
  have hne'' : last'' ++ t ≠ [] := append_ne_nil_of_left_ne_nil hne' _
  rw [tokens, tokens, hsct', hs', filter_append, filter_append, filter_ne_nil_singleton hne',
    filter_ne_nil_singleton hne'', length_append, length_append, length_singleton,
    length_singleton]

theorem tokens_append_delim (delim : Char) (s t : List Char) :
    tokens delim (s ++ delim :: t) = tokens delim s ++ tokens delim t := by
  rw [tokens, splitOn_append_cons_self, filter_append]
  rfl

theorem tokens_of_notMem {s : List Char} (hs : s ≠ []) (h : delim ∉ s) : tokens delim s = [s] := by
  rw [tokens, splitOn_eq_singleton h, filter_ne_nil_singleton hs]

theorem flatten_tokens (delim : Char) (s : List Char) : (tokens delim s).flatten = s.filter fun c => c ≠ delim := by
  induction s with
  | nil => rfl
  | cons c s ih =>
    rcases eq_or_ne c delim with rfl | hc
    · have hnil : tokens c [] = [] := rfl
      have hdelim : tokens c (c :: s) = tokens c [] ++ tokens c s := tokens_append_delim c [] s
      rw [hdelim, hnil, nil_append, ih, filter_cons_of_neg (by simp)]
    have hbeq : (c == delim) = false := beq_eq_false_iff_ne.2 hc
    have hkeep : (c :: s).filter (fun c => c ≠ delim) = c :: s.filter fun c => c ≠ delim :=
      filter_cons_of_pos (decide_eq_true hc)
    rw [hkeep, ← ih, tokens, tokens, splitOn_cons_eq_if_modifyHead, hbeq]
    obtain ⟨first, rest, hsplit⟩ := exists_cons_of_ne_nil (splitOn_ne_nil delim s)
    rw [hsplit]
    show ([c :: first] ++ rest |>.filter _).flatten = c :: ([first] ++ rest |>.filter _).flatten
    rw [filter_append, filter_append, filter_ne_nil_singleton (cons_ne_nil _ _)]
    by_cases hfirst : first = []
    · subst hfirst
      rfl
    · rw [filter_ne_nil_singleton hfirst]
      rfl

/-! ### Numbers -/

/-- The digits at the start of a string, as a number. -/
def digitsVal (base : ℕ) (s : List Char) : ℕ :=
  (s.takeWhile fun c => (hexVal c).any fun x => x < base).foldl (fun n c => base * n + (hexVal c).getD 0) 0

/-- `strtol()` for a base up to 16, with a `long` of 64 bits. -/
def strtol (base : ℕ) (s : List Char) : ℤ :=
  let s := skipSpace s
  let negative := s.head? = some '-'
  let s := if s.head? = some '-' ∨ s.head? = some '+' then s.drop 1 else s
  let hex := base = 16 ∧ s.head? = some '0' ∧ ((s.drop 1).head?.map Char.toLower) = some 'x' ∧
    ((s.drop 2).head?.bind hexVal).isSome
  let n : ℤ := digitsVal base (if hex then s.drop 2 else s)
  if negative then max (-n) (-2 ^ 63) else min n (2 ^ 63 - 1)

def strtolInt (base : ℕ) (s : List Char) : ℤ := (strtol base s).bmod (2 ^ 32)

/-! ### Lines -/

/-- The buffers of `size` characters that `fgets()` fills; `acc` is in the buffer already. -/
def fgetsBufs (size : ℕ) (acc : List Char) : List Char → List (List Char)
  | [] => if acc = [] then [] else [acc]
  | c :: s =>
    if c = '\n' ∨ acc.length + 1 = size - 1 then (acc ++ [c]) :: fgetsBufs size [] s
    else fgetsBufs size (acc ++ [c]) s

theorem splitOn_append_of_notMem {acc : List Char} (hacc : '\n' ∉ acc) (s : List Char) :
    ∃ first rest, s.splitOn '\n' = first :: rest ∧ (acc ++ s).splitOn '\n' = (acc ++ first) :: rest := by
  induction acc with
  | nil =>
    obtain ⟨first, rest, h⟩ := exists_cons_of_ne_nil (splitOn_ne_nil '\n' s)
    exact ⟨first, rest, h, h⟩
  | cons x _ ih =>
    obtain ⟨first, rest, hs, happ⟩ := ih fun h => hacc (mem_cons_of_mem _ h)
    have hx : (x == '\n') = false := beq_eq_false_iff_ne.2 fun h => hacc (h ▸ mem_cons_self)
    refine ⟨first, rest, hs, ?_⟩
    rw [cons_append, splitOn_cons_eq_if_modifyHead, hx, happ]
    rfl

section Fgets

variable {β : Type} {f : List Char → Option β} {size : ℕ}

theorem filterMap_fgetsBufs (hnil : f [] = none) (hend : ∀ s, f (s ++ ['\n']) = f s) (hsize : 2 ≤ size)
    {acc s : List Char} (hacc : '\n' ∉ acc) (hlen : acc.length + 1 < size)
    (hlines : ∀ l ∈ (acc ++ s).splitOn '\n', l.length < size) :
    (fgetsBufs size acc s).filterMap f = ((acc ++ s).splitOn '\n').filterMap f := by
  induction s generalizing acc with
  | nil =>
    rw [append_nil, splitOn_eq_singleton hacc, fgetsBufs]
    split_ifs with h
    · rw [h, filterMap_cons_none hnil]
    · rfl
  | cons c s ih =>
    rw [fgetsBufs]
    by_cases hc : c = '\n'
    · -- The line ends.
      subst hc
      have hsplit := splitOn_append_cons_self_of_not_mem hacc s
      rw [hsplit] at hlines
      have hrest := ih not_mem_nil (by rw [length_nil]; omega) fun l hl => hlines l (mem_cons_of_mem _ hl)
      rw [if_pos (.inl rfl), hsplit, filterMap_cons, filterMap_cons, hend, hrest, nil_append]
    have hacc' : '\n' ∉ acc ++ [c] := by
      rw [mem_append, mem_singleton]
      rintro (h | h)
      · exact hacc h
      · exact hc h.symm
    have happ : acc ++ c :: s = (acc ++ [c]) ++ s := by rw [append_assoc, singleton_append]
    rw [happ] at hlines ⊢
    by_cases hfull : acc.length + 1 = size - 1
    · -- The buffer is full: the line has no further character.
      obtain ⟨first, _, hs, hsplit⟩ := splitOn_append_of_notMem hacc' s
      rw [hsplit] at hlines
      have hfirst : first = [] := by
        have := hlines _ mem_cons_self
        rw [length_append, length_append, length_singleton] at this
        exact eq_nil_of_length_eq_zero (by omega)
      have hshort : ∀ l ∈ ([] ++ s).splitOn '\n', l.length < size := by
        rw [nil_append, hs, hfirst]
        intro l hl
        rcases mem_cons.1 hl with rfl | hl
        · rw [length_nil]
          omega
        · exact hlines l (mem_cons_of_mem _ hl)
      have hrest := ih not_mem_nil (by rw [length_nil]; omega) hshort
      rw [nil_append, hs, hfirst, filterMap_cons_none hnil] at hrest
      rw [if_pos (.inr hfull), hsplit, hfirst, append_nil, filterMap_cons, filterMap_cons, hrest]
    rw [if_neg (not_or.2 ⟨hc, hfull⟩)]
    refine ih hacc' ?_ hlines
    rw [length_append, length_singleton]
    omega

end Fgets

end G4Common.CString

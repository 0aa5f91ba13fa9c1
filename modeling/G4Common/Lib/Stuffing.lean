/-
Byte stuffing.

A flag ends a text, so no symbol of the text may look like it.  A flag or an escape in the text
becomes an escape followed by a symbol that stands for it.  `Stuffing` says which symbols these
are and what they must satisfy.

`unstuff` reads such a text up to the flag.  It succeeds exactly on a stuffed text that is followed by
a flag (`unstuff_eq_some_iff`): each text has one stuffed form, and what is behind the flag does
not matter.  `Cut` are the texts in which the reader wants one more symbol than there is.
-/
import Mathlib.Data.List.Basic
import Mathlib.Tactic.Common

namespace G4Common

open List

/-- A flag, an escape, and the symbols that stand for the two behind an escape. -/
structure Stuffing (α : Type*) where
  flag : α
  esc : α
  flag' : α
  esc' : α
  esc_ne_flag : esc ≠ flag
  flag'_ne : flag' ≠ flag
  esc'_ne : esc' ≠ flag
  esc'_ne_flag' : esc' ≠ flag'

namespace Stuffing

variable {α : Type*} [DecidableEq α] (S : Stuffing α)

def stuff1 (a : α) : List α :=
  if a = S.flag then [S.esc, S.flag'] else if a = S.esc then [S.esc, S.esc'] else [a]

def stuff (l : List α) : List α := l.flatMap S.stuff1

/-- Read a stuffed text up to the flag. -/
def unstuff : List α → Option (List α)
  | [] => none
  | [a] => if a = S.flag then some [] else none
  | a :: b :: l =>
    if a = S.esc then
      if b = S.flag' then (unstuff l).map (S.flag :: ·)
      else if b = S.esc' then (unstuff l).map (S.esc :: ·)
      else none
    else if a = S.flag then some []
    else (unstuff (b :: l)).map (a :: ·)

variable {S}
variable {d l : List α} {a b : α}

@[simp] theorem stuff_nil : S.stuff [] = [] := rfl

@[simp] theorem stuff_cons (a : α) (l : List α) : S.stuff (a :: l) = S.stuff1 a ++ S.stuff l := by
  simp [stuff]

@[simp] theorem stuff_append (l m : List α) : S.stuff (l ++ m) = S.stuff l ++ S.stuff m := by
  simp [stuff]

theorem flag_notMem_stuff1 (a : α) : S.flag ∉ S.stuff1 a := by
  unfold stuff1
  split
  · simp [S.esc_ne_flag.symm, S.flag'_ne.symm]
  split
  · simp [S.esc_ne_flag.symm, S.esc'_ne.symm]
  · rename_i ha _
    simp [Ne.symm ha]

theorem flag_notMem_stuff (l : List α) : S.flag ∉ S.stuff l := by
  intro h
  obtain ⟨a, -, ha⟩ := mem_flatMap.1 h
  exact flag_notMem_stuff1 a ha

theorem length_stuff1_le (a : α) : (S.stuff1 a).length ≤ 2 := by
  unfold stuff1
  split
  · exact Nat.le_refl 2
  · split
    · exact Nat.le_refl 2
    · exact Nat.le_succ 1

/-- The symbols that are escaped. -/
def special (S : Stuffing α) (a : α) : Bool := a = S.flag ∨ a = S.esc

theorem length_stuff1 (a : α) : (S.stuff1 a).length = 1 + if S.special a then 1 else 0 := by
  unfold stuff1 special
  by_cases hf : a = S.flag
  · simp [hf]
  · by_cases he : a = S.esc
    · simp [he, S.esc_ne_flag]
    · simp [hf, he]

theorem length_stuff (l : List α) : (S.stuff l).length = l.length + l.countP S.special := by
  induction l with
  | nil => rfl
  | cons a l ih =>
    rw [stuff_cons, length_append, length_stuff1, ih, countP_cons, length_cons]
    omega

theorem length_stuff_le (l : List α) : (S.stuff l).length ≤ 2 * l.length := by
  induction l with
  | nil => exact Nat.le_refl 0
  | cons a l ih =>
    have ha := length_stuff1_le (S := S) a
    rw [stuff_cons, length_append, length_cons]
    omega

theorem unstuff_flag (l : List α) : S.unstuff (S.flag :: l) = some [] := by
  cases l with
  | nil => simp [unstuff]
  | cons => simp [unstuff, S.esc_ne_flag.symm]

theorem unstuff_esc_flag' (l : List α) : S.unstuff (S.esc :: S.flag' :: l) = (S.unstuff l).map (S.flag :: ·) := by
  simp [unstuff]

theorem unstuff_esc_esc' (l : List α) : S.unstuff (S.esc :: S.esc' :: l) = (S.unstuff l).map (S.esc :: ·) := by
  simp [unstuff, S.esc'_ne_flag']

theorem unstuff_esc_of_ne (hf : b ≠ S.flag') (he : b ≠ S.esc') (l : List α) : S.unstuff (S.esc :: b :: l) = none := by
  simp [unstuff, hf, he]

theorem unstuff_esc_nil : S.unstuff [S.esc] = none := by
  simp [unstuff, S.esc_ne_flag]

theorem unstuff_of_ne (he : a ≠ S.esc) (hf : a ≠ S.flag) (l : List α) :
    S.unstuff (a :: l) = (S.unstuff l).map (a :: ·) := by
  cases l with
  | nil => simp [unstuff, hf]
  | cons => simp [unstuff, he, hf]

theorem unstuff_stuff1 (a : α) (l : List α) : S.unstuff (S.stuff1 a ++ l) = (S.unstuff l).map (a :: ·) := by
  unfold stuff1
  split
  · rename_i ha
    rw [ha]
    exact unstuff_esc_flag' l
  rename_i ha
  split_ifs with he
  · rw [he]
    exact unstuff_esc_esc' l
  · exact unstuff_of_ne he ha l

theorem unstuff_stuff (d rest : List α) : S.unstuff (S.stuff d ++ S.flag :: rest) = some d := by
  induction d with
  | nil => exact unstuff_flag rest
  | cons _ _ ih =>
    rw [stuff_cons, append_assoc, unstuff_stuff1, ih]
    rfl

theorem eq_of_unstuff (h : S.unstuff l = some d) : ∃ rest, l = S.stuff d ++ S.flag :: rest := by
  fun_induction unstuff S l generalizing d with
  | case1 => cases h
  | case2 =>
    cases h
    exact ⟨[], rfl⟩
  | case3 => cases h
  | case4 _ ih =>
    obtain ⟨e, he, rfl⟩ := Option.map_eq_some_iff.1 h
    obtain ⟨rest, rfl⟩ := ih he
    exact ⟨rest, by simp [stuff1]⟩
  | case5 _ _ ih =>
    obtain ⟨e, he, rfl⟩ := Option.map_eq_some_iff.1 h
    obtain ⟨rest, rfl⟩ := ih he
    exact ⟨rest, by simp [stuff1, S.esc_ne_flag]⟩
  | case6 => cases h
  | case7 b l =>
    cases h
    exact ⟨b :: l, rfl⟩
  | case8 _ _ _ hesc hflag ih =>
    obtain ⟨e, he, rfl⟩ := Option.map_eq_some_iff.1 h
    obtain ⟨rest, hrest⟩ := ih he
    exact ⟨rest, by simp [stuff1, hesc, hflag, hrest]⟩

/-- **Reading succeeds exactly on stuffed texts with a flag behind them.** -/
theorem unstuff_eq_some_iff : S.unstuff l = some d ↔ ∃ rest, l = S.stuff d ++ S.flag :: rest := by
  refine ⟨eq_of_unstuff, ?_⟩
  rintro ⟨rest, rfl⟩
  exact unstuff_stuff d rest

theorem stuff_injective : Function.Injective S.stuff := by
  intro d e h
  have hd := unstuff_stuff (S := S) d []
  rw [h, unstuff_stuff] at hd
  exact (Option.some.inj hd).symm

/-! ### Texts that end too early -/

/-- A text whose last symbol is an escape: what the escape stands for is missing. -/
def Cut (S : Stuffing α) (l : List α) : Prop := ∃ d, l = S.stuff d ++ [S.esc]

theorem stuff1_of_ne (he : a ≠ S.esc) (hf : a ≠ S.flag) : S.stuff1 a = [a] := by
  rw [stuff1, if_neg hf, if_neg he]

theorem stuff1_flag : S.stuff1 S.flag = [S.esc, S.flag'] := if_pos rfl

theorem stuff1_append_inj {m : List α} (h : S.stuff1 a ++ l = S.stuff1 b ++ m) : a = b ∧ l = m := by
  have hne := S.esc'_ne_flag'
  have hne' := S.esc'_ne_flag'.symm
  unfold stuff1 at h
  split_ifs at h <;> simp_all

theorem stuff1_append_ne_esc (a : α) (l : List α) : S.stuff1 a ++ l ≠ [S.esc] := by
  intro h
  unfold stuff1 at h
  split_ifs at h <;> simp_all

theorem not_cut_nil : ¬ S.Cut [] := by
  rintro ⟨d, hd⟩
  exact append_ne_nil_of_right_ne_nil _ (cons_ne_nil _ _) hd.symm

theorem cut_esc : S.Cut [S.esc] := ⟨[], rfl⟩

theorem cut_stuff1_append : S.Cut (S.stuff1 a ++ l) ↔ S.Cut l := by
  constructor
  · rintro ⟨d, hd⟩
    cases d with
    | nil => exact absurd hd (stuff1_append_ne_esc a l)
    | cons _ d =>
      rw [stuff_cons, append_assoc] at hd
      exact ⟨d, (stuff1_append_inj hd).2⟩
  · rintro ⟨d, rfl⟩
    exact ⟨a :: d, by rw [stuff_cons, append_assoc]⟩

theorem not_cut_flag (l : List α) : ¬ S.Cut (S.flag :: l) := by
  rintro ⟨d, hd⟩
  have hmem : S.flag ∈ S.stuff d ++ [S.esc] := by
    rw [← hd]
    exact mem_cons_self
  rw [mem_append, mem_singleton] at hmem
  rcases hmem with h | h
  · exact flag_notMem_stuff d h
  · exact S.esc_ne_flag h.symm

theorem not_cut_esc_of_ne (hf : b ≠ S.flag') (he : b ≠ S.esc') (l : List α) : ¬ S.Cut (S.esc :: b :: l) := by
  rintro ⟨d, hd⟩
  cases d with
  | nil => simp at hd
  | cons a d =>
    have hnone := congrArg S.unstuff (congrArg (· ++ [S.flag', S.flag]) hd)
    have hsome := unstuff_stuff (S := S) (a :: d ++ [S.flag]) []
    rw [stuff_append, stuff_cons S.flag, stuff1_flag] at hsome
    simp only [append_assoc, cons_append, nil_append, stuff_nil] at hnone hsome
    rw [hsome, unstuff_esc_of_ne hf he] at hnone
    cases hnone

end Stuffing

end G4Common
